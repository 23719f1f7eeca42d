import ServiceUnits.Proofs.Name.Filling
import ServiceUnits.Proofs.Name.Grammar

namespace ServiceUnits.Name

open Text

variable {text template base param type : String} {n : Name}

/-- A name that spells its type out is the text that it is written as. -/
theorem eq_text_of_explicit (h : parse? text = some n) (he : n.explicit = true) :
    text = n.text := by
  obtain ⟨-, -, hs⟩ := parse?_spec h
  apply String.toList_injective
  rw [hs, toList_text, he, if_pos rfl]

/-- In a name there is one at-sign and one dot at most, and no white space. -/
theorem count_separators (h : parse? text = some n) : text.toList.count '@' ≤ 1 ∧
    text.toList.count '.' ≤ 1 ∧ ∀ c ∈ text.toList, isBlank c = false := by
  obtain ⟨-, hw, hs⟩ := parse?_spec h
  have hpart {s : String} (hs : isPart s.toList = true) :
      s.toList.count '@' = 0 ∧ s.toList.count '.' = 0 :=
    ⟨List.count_eq_zero.2 (isPart_iff.1 hs).1, List.count_eq_zero.2 (isPart_iff.1 hs).2.1⟩
  have hbase := hpart hw.base_isPart
  have htype := hpart hw.type_isPart
  have hblank : ∀ c ∈ text.toList, isBlank c = false := by
    intro c hc
    rw [hs] at hc
    refine isPart_spelled hw.base_isPart ?_ ?_ hc
    · intro p hp
      obtain ⟨q, hq, rfl⟩ := Option.map_eq_some_iff.1 hp
      exact hw.param_isPart q hq
    · intro t ht
      obtain ⟨-, ht⟩ := Option.ite_none_right_eq_some.1 ht
      exact Option.some.inj ht ▸ hw.type_isPart
  have hparam : ∀ p, n.param = some p → p.toList.count '@' = 0 ∧ p.toList.count '.' = 0 :=
    fun p hp => hpart (hw.param_isPart p hp)
  refine ⟨?_, ?_, hblank⟩
  all_goals
    rw [hs, spelled]
    cases hp : n.param <;> cases n.explicit <;> simp_all [List.count_append]

/-- The template of an instance is a template name, shorter than the instance. -/
theorem IsInstanceName.isTemplateName (h : IsInstanceName text base param type) :
    IsTemplateName (base ++ "@." ++ type) base type where
  size := by
    have hsize := h.size
    have hsign : "@.".utf8ByteSize = "@".utf8ByteSize + ".".utf8ByteSize := by decide
    simp only [h.text_eq, String.utf8ByteSize_append] at hsize ⊢
    omega
  text_eq := rfl
  base_isPart := h.base_isPart
  type_isPart := h.type_isPart

/-- Filled in, a parameter with a separator or white space in it gives no name. -/
theorem Fills.parse?_eq_none (h : Fills param template text) (hp : ¬ IsSolid param) :
    parse? text = none := by
  obtain ⟨base, type, -, rfl⟩ := h
  cases hn : parse? (base ++ "@" ++ param ++ "." ++ type) with
  | none => rfl
  | some n =>
    obtain ⟨hat, hdot, hblank⟩ := count_separators hn
    simp only [String.toList_append, List.count_append] at hat hdot
    have hatSign : "@".toList.count '@' = 1 := by decide
    have hdotSign : ".".toList.count '.' = 1 := by decide
    have hsolid : IsSolid param := by
      refine ⟨List.count_eq_zero.1 (by omega), List.count_eq_zero.1 (by omega), fun c hc => ?_⟩
      exact hblank c (by simp [hc])
    exact absurd hsolid hp

/-- An instance is taken apart into a template and a parameter, and put together from them. -/
theorem exists_template_of_instance (hdot : '.' ∈ text.toList) (hn : parse? text = some n)
    (hi : n.isInstance = true) : ∃ t p m, templateOf? text = some t ∧ parameterOf? text = some p ∧
      t.utf8ByteSize ≤ maxBytes ∧ parse? t = some m ∧ m.isTemplate = true ∧
      m.instantiate? p = some text := by
  have hcanonical : canonical text = text := if_pos hdot
  have htemplate : templateOf? text = some (n.base ++ "@." ++ n.type) := by
    rw [templateOf?, hn, Option.bind_some, templateName?, if_pos hi]
  obtain ⟨base, param, type, h⟩ := exists_isInstanceName hcanonical htemplate
  have ht := h.isTemplateName
  have hinstantiate : Name.instantiate? ⟨base, some "", type, true⟩ param = some text :=
    instantiate?_eq_some_iff.2 ⟨rfl, h.text_eq⟩
  exact ⟨base ++ "@." ++ type, param, _, h.templateOf?, h.parameterOf?, ht.size, ht.parse?,
    isTemplate_iff.2 rfl, hinstantiate⟩

/-- A template and a parameter make an instance of this template with this parameter if the
parameter is well-formed, and only then. -/
theorem instance_iff_isSolid (h : Fills param template text)
    (hsize : text.utf8ByteSize ≤ maxBytes) :
    ((∃ n, parse? text = some n ∧ n.isInstance = true) ∧ parameterOf? text = some param ∧
      templateOf? text = some template) ↔ param ≠ "" ∧ IsSolid param := by
  rw [isSolid_iff]
  constructor
  · rintro ⟨-, hparam, -⟩
    exact parameterOf?_spec hparam
  · intro hp
    obtain ⟨hparam, htemplate⟩ := h.analysed hp hsize
    refine ⟨?_, hparam, htemplate⟩
    obtain ⟨n, hn, hname⟩ := Option.bind_eq_some_iff.1 htemplate
    exact ⟨n, hn, (Option.ite_none_right_eq_some.1 hname).1⟩

/-- Every instance with its type spelled out has a template and a parameter, and is the template
with the parameter filled in. What a template makes of a parameter is an instance of that template
with that parameter exactly when the parameter is not empty and has neither a separator nor white
space in it; any other parameter that is not empty makes no name. -/
theorem instances_correspond :
    (∀ text n, '.' ∈ text.toList → parse? text = some n → n.isInstance = true →
      ∃ t p m, templateOf? text = some t ∧ parameterOf? text = some p ∧
        t.utf8ByteSize ≤ 255 ∧ parse? t = some m ∧ m.isTemplate = true ∧
        m.instantiate? p = some text) ∧
    (∀ t m, parse? t = some m → m.isTemplate = true → m.explicit = true →
      ∀ p, ∃ text, m.instantiate? p = some text ∧
        (text.utf8ByteSize ≤ 255 →
          (((∃ n, parse? text = some n ∧ n.isInstance = true) ∧ parameterOf? text = some p ∧
            templateOf? text = some t) ↔ p ≠ "" ∧ IsSolid p)) ∧
        (p ≠ "" → ¬ IsSolid p → parse? text = none)) := by
  refine ⟨fun text n hdot hn hi => exists_template_of_instance hdot hn hi, ?_⟩
  intro t m hm htemplate he p
  have hcanonical : canonical t = t := by rw [canonical_eq_text hm, ← eq_text_of_explicit hm he]
  have hparam : m.param = some "" := isTemplate_iff.1 htemplate
  have hinstantiate : m.instantiate? p = some (Name.text { m with param := some p }) :=
    instantiate?_eq_some_iff.2 ⟨hparam, rfl⟩
  have hfills : Fills p t (Name.text { m with param := some p }) :=
    (fills_iff hcanonical).2 (Option.bind_eq_some_iff.2 ⟨m, hm, hinstantiate⟩)
  exact ⟨_, hinstantiate, fun hsize => instance_iff_isSolid hfills hsize,
    fun _ hp => hfills.parse?_eq_none hp⟩

/-- A terminal against its template, and a parameter with a dot in it. -/
theorem getty_corresponds :
    (∃ m, parse? "getty@.service" = some m ∧ m.instantiate? "tty1" = some "getty@tty1.service") ∧
      parameterOf? "getty@tty1.service" = some "tty1" ∧
      templateOf? "getty@tty1.service" = some "getty@.service" ∧
      parse? "getty@tty.1.service" = none := by
  obtain ⟨hapart, htogether⟩ := instances_correspond
  have hfill := htogether "getty@.service" ⟨"getty", some "", "service", true⟩ (by decide +kernel)
    (by decide) rfl
  obtain ⟨text, htext, hinstance, -⟩ := hfill "tty1"
  obtain rfl : text = "getty@tty1.service" := Option.some.inj (htext.symm.trans (by decide))
  obtain ⟨⟨n, hn, hi⟩, hparam, htemplate⟩ := (hinstance (by decide)).2 (by decide)
  obtain ⟨t, p, m, ht, hp, -, hm, -, hmake⟩ := hapart _ n (by decide) hn hi
  obtain rfl : t = "getty@.service" := Option.some.inj (ht.symm.trans htemplate)
  obtain rfl : p = "tty1" := Option.some.inj (hp.symm.trans hparam)
  obtain ⟨dotted, hdotted, -, hnone⟩ := hfill "tty.1"
  obtain rfl : dotted = "getty@tty.1.service" := Option.some.inj (hdotted.symm.trans (by decide))
  exact ⟨⟨m, hm, hmake⟩, hparam, htemplate, hnone (by decide) (by decide)⟩

end ServiceUnits.Name
