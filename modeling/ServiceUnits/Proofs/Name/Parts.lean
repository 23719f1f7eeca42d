import ServiceUnits.Name
import ServiceUnits.Proofs.Text.Cutting

namespace ServiceUnits

open Text

namespace Name

/-- A base, then an at-sign before the parameter and a dot before the type, where they are there. -/
def spelled (base : List Char) (param type : Option (List Char)) : List Char :=
  base ++ (param.map ('@' :: ·)).getD [] ++ (type.map ('.' :: ·)).getD []

theorem isPart_iff {s : List Char} :
    isPart s = true ↔ '@' ∉ s ∧ '.' ∉ s ∧ ∀ c ∈ s, isBlank c = false := by
  simp only [isPart, List.all_eq_true, Bool.and_eq_true, bne_iff_ne, Bool.not_eq_true']
  constructor
  · intro h
    exact ⟨fun hm => (h _ hm).1.1 rfl, fun hm => (h _ hm).1.2 rfl, fun c hc => (h c hc).2⟩
  · intro h c hc
    obtain ⟨hat, hdot, hb⟩ := h
    exact ⟨⟨fun e => hat (e ▸ hc), fun e => hdot (e ▸ hc)⟩, hb c hc⟩

/-- A text is split at its first dot, and before that at its first at-sign. -/
theorem split_eq_iff {s base : List Char} {param type : Option (List Char)} :
    split s = (base, param, type) ↔
      '@' ∉ base ∧ '.' ∉ spelled base param none ∧ s = spelled base param type := by
  have parts : split s = (base, param, type) ↔
      cut '@' (cut '.' s).1 = (base, param) ∧ (cut '.' s).2 = type := by
    simp only [split, Prod.ext_iff, and_assoc]
  have whole : spelled base param none = base ++ (param.map ('@' :: ·)).getD [] := by
    simp [spelled]
  have byType : (cut '.' s).1 = spelled base param none ∧ (cut '.' s).2 = type ↔
      '.' ∉ spelled base param none ∧ s = spelled base param type := by
    rw [← Prod.ext_iff (y := (spelled base param none, type)), cut_eq_iff, whole]
    rfl
  rw [parts, cut_eq_iff, and_assoc, ← whole, byType]

/-- What the parts of a name are made of. A type that is not spelled out is the default. -/
structure WellFormed (n : Name) : Prop where
  base_ne : n.base ≠ ""
  base_isPart : isPart n.base.toList = true
  param_isPart : ∀ p, n.param = some p → isPart p.toList = true
  type_ne : n.type ≠ ""
  type_isPart : isPart n.type.toList = true
  type_of_not_explicit : n.explicit = false → n.type = defaultType

/-- A name that is read has well-formed parts, and the text is spelled with them. -/
theorem parse?_spec {text : String} {n : Name} (h : parse? text = some n) :
    text.utf8ByteSize ≤ maxBytes ∧ n.WellFormed ∧
      text.toList = spelled n.base.toList (n.param.map String.toList)
        (if n.explicit then some n.type.toList else none) := by
  obtain ⟨base, param, type, hs⟩ : ∃ base param type, split text.toList = (base, param, type) :=
    ⟨_, _, _, rfl⟩
  obtain ⟨-, -, hspell⟩ := split_eq_iff.1 hs
  simp only [parse?, hs, Bool.and_eq_true, decide_eq_true_eq, Option.ite_none_right_eq_some,
    Option.some.injEq] at h
  obtain ⟨⟨⟨⟨⟨hsize, hne⟩, hb⟩, hp⟩, ht⟩, rfl⟩ := h
  refine ⟨hsize, ⟨?_, ?_, ?_, ?_, ?_, ?_⟩, ?_⟩
  · simpa using hne
  · simpa using hb
  · simpa [Option.all_eq_true] using hp
  · cases type with
    | none => simp [defaultType]
    | some t =>
      simp only [Option.all_some, Bool.and_eq_true, decide_eq_true_eq] at ht
      simpa using ht.1
  · cases type with
    | none => exact (by decide : isPart defaultType.toList = true)
    | some t =>
      simp only [Option.all_some, Bool.and_eq_true] at ht
      simpa using ht.2
  · cases type <;> simp
  · rw [hspell]
    cases type <;> cases param <;> simp

theorem isPart_spelled {base : List Char} {param type : Option (List Char)} {c : Char}
    (hb : isPart base = true) (hp : ∀ p, param = some p → isPart p = true)
    (ht : ∀ t, type = some t → isPart t = true) (hc : c ∈ spelled base param type) :
    isBlank c = false := by
  simp only [spelled, List.mem_append] at hc
  rcases hc with (hc | hc) | hc
  · exact (isPart_iff.1 hb).2.2 c hc
  · cases param with
    | none => simp at hc
    | some p =>
      rcases List.mem_cons.1 hc with rfl | hc
      · rfl
      · exact (isPart_iff.1 (hp p rfl)).2.2 c hc
  · cases type with
    | none => simp at hc
    | some t =>
      rcases List.mem_cons.1 hc with rfl | hc
      · rfl
      · exact (isPart_iff.1 (ht t rfl)).2.2 c hc

theorem toList_text (n : Name) :
    n.text.toList = spelled n.base.toList (n.param.map String.toList) (some n.type.toList) := by
  unfold text
  cases n.param <;> simp [spelled]

theorem toList_text_ne_nil (n : Name) : n.text.toList ≠ [] := by
  rw [toList_text]
  simp [spelled]

namespace WellFormed

variable {n : Name}

theorem isBlank_text (h : n.WellFormed) {c : Char} (hc : c ∈ n.text.toList) : isBlank c = false := by
  rw [toList_text] at hc
  refine isPart_spelled h.base_isPart ?_ ?_ hc
  · intro p hp
    obtain ⟨q, hq, rfl⟩ := Option.map_eq_some_iff.1 hp
    exact h.param_isPart q hq
  · intro t e
    cases e
    exact h.type_isPart

/-- Before the type there is no dot, and in the base no at-sign. -/
theorem separators (h : n.WellFormed) : '@' ∉ n.base.toList ∧
    '.' ∉ spelled n.base.toList (n.param.map String.toList) none := by
  refine ⟨(isPart_iff.1 h.base_isPart).1, ?_⟩
  have hb := (isPart_iff.1 h.base_isPart).2.1
  cases hp : n.param with
  | none => simpa [spelled] using hb
  | some p => simpa [spelled, hb] using (isPart_iff.1 (h.param_isPart p hp)).2.1

/-- A name written out is split into its parts. -/
theorem split_text (h : n.WellFormed) :
    split n.text.toList = (n.base.toList, n.param.map String.toList, some n.type.toList) :=
  split_eq_iff.2 ⟨h.separators.1, h.separators.2, toList_text n⟩

theorem withParam (h : n.WellFormed) {p : String} (hp : isPart p.toList = true) :
    WellFormed { n with param := some p } := by
  refine { h with param_isPart := ?_ }
  intro q e
  cases e
  exact hp

end WellFormed

/-- A text that is spelled with well-formed parts is read as the name of these parts. -/
theorem parse?_eq_some {text : String} {n : Name} (hsize : text.utf8ByteSize ≤ maxBytes)
    (h : n.WellFormed) (hs : text.toList = spelled n.base.toList (n.param.map String.toList)
      (if n.explicit then some n.type.toList else none)) : parse? text = some n := by
  have hsplit := split_eq_iff.2 ⟨h.separators.1, h.separators.2, hs⟩
  have hbase : n.base.toList ≠ [] := fun h0 => h.base_ne (String.toList_eq_nil_iff.1 h0)
  have htype : n.type.toList ≠ [] := fun h0 => h.type_ne (String.toList_eq_nil_iff.1 h0)
  have hparam : (n.param.map String.toList).all isPart = true := by
    simpa [Option.all_eq_true] using h.param_isPart
  have hpart := h.base_isPart
  obtain ⟨base, param, type, explicit⟩ := n
  cases explicit with
  | true =>
    simp [parse?, hsplit, hsize, hbase, htype, hparam, hpart, h.type_isPart, Function.comp_def]
  | false =>
    obtain rfl := h.type_of_not_explicit rfl
    simp [parse?, hsplit, hsize, hbase, hparam, hpart, Function.comp_def]

/-- A name that spells its type out is read again when it is written out. -/
theorem parse?_text {n : Name} (hsize : n.text.utf8ByteSize ≤ maxBytes) (h : n.WellFormed)
    (he : n.explicit = true) : parse? n.text = some n :=
  parse?_eq_some hsize h (by rw [toList_text, he, if_pos rfl])

/-- The canonical form of a name is the name written out. -/
theorem canonical_eq_text {text : String} {n : Name} (h : parse? text = some n) :
    canonical text = n.text := by
  obtain ⟨-, hw, hs⟩ := parse?_spec h
  apply String.toList_injective
  rw [toList_text, canonical]
  cases he : n.explicit with
  | true =>
    rw [he, if_pos rfl] at hs
    have hdot : '.' ∈ text.toList := by simp [hs, spelled]
    rw [if_pos hdot, hs]
  | false =>
    simp only [he, Bool.false_eq_true, if_false] at hs
    have hdot : '.' ∉ text.toList := hs ▸ hw.separators.2
    rw [if_neg hdot, String.toList_append, String.toList_append, hs, hw.type_of_not_explicit he]
    simp [spelled]

theorem form_eq_template_iff {n : Name} : n.form = .template ↔ n.param = some "" := by
  unfold form
  cases n.param with
  | none => simp
  | some p => by_cases hp : p = "" <;> simp [hp]

theorem form_eq_instantiated_iff {n : Name} :
    n.form = .instantiated ↔ ∃ p, n.param = some p ∧ p ≠ "" := by
  unfold form
  cases n.param with
  | none => simp
  | some p => by_cases hp : p = "" <;> simp [hp]

theorem isTemplate_iff {n : Name} : n.isTemplate = true ↔ n.param = some "" :=
  decide_eq_true_iff.trans form_eq_template_iff

theorem isInstance_iff {n : Name} : n.isInstance = true ↔ ∃ p, n.param = some p ∧ p ≠ "" :=
  decide_eq_true_iff.trans form_eq_instantiated_iff

/-- The parameter of a name is well-formed and not empty. -/
theorem parameterOf?_spec {text p : String} (h : parameterOf? text = some p) :
    p ≠ "" ∧ isPart p.toList = true := by
  obtain ⟨n, hn, hp⟩ := Option.bind_eq_some_iff.1 h
  split at hp
  · rename_i hi
    obtain ⟨q, hq, hne⟩ := isInstance_iff.1 hi
    obtain rfl : q = p := Option.some.inj (hq.symm.trans hp)
    exact ⟨hne, (parse?_spec hn).2.1.param_isPart q hq⟩
  · cases hp

/-- The text names an instance, with its type spelled out. -/
structure IsInstanceName (text base param type : String) : Prop where
  size : text.utf8ByteSize ≤ maxBytes
  text_eq : text = base ++ "@" ++ param ++ "." ++ type
  base_isPart : base ≠ "" ∧ isPart base.toList = true
  param_isPart : param ≠ "" ∧ isPart param.toList = true
  type_isPart : type ≠ "" ∧ isPart type.toList = true

section

variable {text base param type : String}

theorem wellFormed_mk (hbase : base ≠ "" ∧ isPart base.toList = true)
    (hparam : isPart param.toList = true) (htype : type ≠ "" ∧ isPart type.toList = true) :
    WellFormed ⟨base, some param, type, true⟩ := by
  refine ⟨hbase.1, hbase.2, ?_, htype.1, htype.2, by simp⟩
  intro p hp
  obtain rfl := Option.some.inj hp
  exact hparam

namespace IsInstanceName

theorem parse? (h : IsInstanceName text base param type) :
    parse? text = some ⟨base, some param, type, true⟩ := by
  have hwell := wellFormed_mk h.base_isPart h.param_isPart.2 h.type_isPart
  have htext : text = Name.text ⟨base, some param, type, true⟩ := h.text_eq
  rw [htext]
  exact parse?_text (htext ▸ h.size) hwell rfl

theorem isInstance (h : IsInstanceName text base param type) :
    isInstance ⟨base, some param, type, true⟩ = true :=
  isInstance_iff.2 ⟨param, rfl, h.param_isPart.1⟩

theorem templateOf? (h : IsInstanceName text base param type) :
    templateOf? text = some (base ++ "@." ++ type) := by
  rw [Name.templateOf?, h.parse?, Option.bind_some, templateName?, if_pos h.isInstance]

theorem parameterOf? (h : IsInstanceName text base param type) :
    parameterOf? text = some param := by
  rw [Name.parameterOf?, h.parse?, Option.bind_some, if_pos h.isInstance]

end IsInstanceName

end

/-- Only instances have templates. -/
theorem exists_isInstanceName {text template : String} (hdot : canonical text = text)
    (h : templateOf? text = some template) :
    ∃ base param type, IsInstanceName text base param type := by
  obtain ⟨n, hn, ht⟩ := Option.bind_eq_some_iff.1 h
  rw [templateName?, Option.ite_none_right_eq_some] at ht
  obtain ⟨p, hp, hne⟩ := isInstance_iff.1 ht.1
  obtain ⟨hsize, hw, -⟩ := parse?_spec hn
  refine ⟨n.base, p, n.type, hsize, ?_, ⟨hw.base_ne, hw.base_isPart⟩,
    ⟨hne, hw.param_isPart p hp⟩, ⟨hw.type_ne, hw.type_isPart⟩⟩
  have htext := canonical_eq_text hn
  rwa [hdot, Name.text, hp] at htext

theorem instantiate?_eq_some_iff {n : Name} {p text : String} :
    n.instantiate? p = some text ↔
      n.param = some "" ∧ text = Name.text { n with param := some p } := by
  simp only [instantiate?, Option.ite_none_right_eq_some, Option.some.injEq, isTemplate_iff]
  exact and_congr_right fun _ => eq_comm

theorem canonical_canonical (text : String) : canonical (canonical text) = canonical text := by
  have hdot : '.' ∈ (canonical text).toList := by
    unfold canonical
    split
    · assumption
    · simp
  rw [canonical, if_pos hdot]

theorem canonical_text (n : Name) : canonical n.text = n.text := by
  have hdot : '.' ∈ n.text.toList := by
    rw [toList_text]
    simp [spelled]
  rw [canonical, if_pos hdot]

/-- Written out and read again, a name has its type spelled out. -/
theorem WellFormed.parse?_written {n : Name} (h : n.WellFormed)
    (hsize : n.text.utf8ByteSize ≤ maxBytes) :
    parse? n.text = some { n with explicit := true } := by
  have hwell : WellFormed { n with explicit := true } :=
    { h with type_of_not_explicit := by simp }
  have htext : Name.text { n with explicit := true } = n.text := rfl
  rw [← htext] at hsize ⊢
  exact parse?_text hsize hwell rfl

/-- A name written out is a file name of its form, if it is not too long. -/
theorem WellFormed.isFileName_text {n : Name} (h : n.WellFormed) (allowed : Form → Bool) :
    isFileName allowed n.text = true ↔
      n.text.utf8ByteSize ≤ maxBytes ∧ allowed n.form = true := by
  by_cases hsize : n.text.utf8ByteSize ≤ maxBytes
  · have hform : form { n with explicit := true } = n.form := rfl
    rw [isFileName, h.parse?_written hsize]
    simp [hsize, hform]
  · have hnone : parse? n.text = none := by
      rw [Option.eq_none_iff_forall_ne_some]
      intro m hm
      exact hsize (parse?_spec hm).1
    rw [isFileName, hnone]
    simp [hsize]

/-- A name written out is a template only if its parameter is empty. -/
theorem isFileName_template_text {n : Name} (h : n.WellFormed) (hp : n.param ≠ some "") :
    isFileName (· = .template) n.text = false := by
  have hform : n.form ≠ .template := by rwa [Ne, form_eq_template_iff]
  rw [← Bool.not_eq_true, h.isFileName_text]
  simp [hform]

end Name
end ServiceUnits
