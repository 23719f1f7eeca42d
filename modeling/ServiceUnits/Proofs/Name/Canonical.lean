import ServiceUnits.Proofs.Name.Parts

namespace ServiceUnits.Name

variable {s t text : String} {m n : Name} {form : Form}

/-- What the parameter makes of a name: it is plain without one, a template if there is nothing in
it, and an instance otherwise. -/
inductive HasForm : Option String → Form → Prop
  | plain : HasForm none .plain
  | template : HasForm (some "") .template
  | instantiated {p : String} (h : p ≠ "") : HasForm (some p) .instantiated

theorem hasForm_iff : HasForm n.param form ↔ n.form = form := by
  rw [Name.form]
  constructor
  · intro h
    generalize n.param = param at h
    cases h with
    | plain => rfl
    | template => rfl
    | instantiated h => simp [h]
  · rintro rfl
    cases n.param with
    | none => exact .plain
    | some p =>
      by_cases hp : p = ""
      · simpa [hp] using HasForm.template
      · simpa [hp] using HasForm.instantiated hp

/-- The parts of a name can be told from the name written out. -/
theorem text_eq_text_iff (hm : m.WellFormed) (hn : n.WellFormed) :
    m.text = n.text ↔ m.base = n.base ∧ m.param = n.param ∧ m.type = n.type := by
  constructor
  · intro h
    have hsplit := hm.split_text
    rw [h, hn.split_text] at hsplit
    simp only [Prod.mk.injEq, Option.some.injEq] at hsplit
    obtain ⟨hbase, hparam, htype⟩ := hsplit
    have hinj : Function.Injective String.toList := fun _ _ => String.toList_injective
    exact ⟨(hinj hbase).symm, (Option.map_injective hinj hparam).symm, (hinj htype).symm⟩
  · rintro ⟨hbase, hparam, htype⟩
    rw [text, text, hbase, hparam, htype]

theorem parse?_canonical (h : parse? text = some n)
    (hsize : (canonical text).utf8ByteSize ≤ maxBytes) :
    parse? (canonical text) = some { n with explicit := true } := by
  rw [canonical_eq_text h] at hsize ⊢
  exact (parse?_spec h).2.1.parse?_written hsize

theorem isFileName_canonical (h : parse? text = some n)
    (hsize : (canonical text).utf8ByteSize ≤ maxBytes) (allowed : Form → Bool) :
    isFileName allowed (canonical text) = true ↔ allowed n.form = true := by
  rw [canonical_eq_text h] at hsize ⊢
  rw [(parse?_spec h).2.1.isFileName_text allowed]
  exact and_iff_right hsize

/-- A name without a dot leaves its type out. -/
theorem not_isFileName_of_no_dot (hdot : '.' ∉ text.toList) (allowed : Form → Bool) :
    isFileName allowed text = false := by
  rw [isFileName]
  cases hn : parse? text with
  | none => rfl
  | some n =>
    obtain ⟨-, -, hs⟩ := parse?_spec hn
    cases he : n.explicit with
    | false => simp [he]
    | true => simp [hs, he, spelled] at hdot

/-- The canonical form of a name is the name written out. Unless it is too long it is read as the
same name with its type spelled out, and it is a file name of that one form which the parameter has.
Names have the same canonical form exactly when they agree in base, parameter and type. A name
without a dot is never a file name. -/
theorem canonical_identifies :
    (∀ text n, parse? text = some n → n.text = canonical text ∧
      ((canonical text).utf8ByteSize ≤ 255 →
        parse? (canonical text) = some { n with explicit := true } ∧
        ∃ form, HasForm n.param form ∧ (∀ other, HasForm n.param other → other = form) ∧
          ∀ allowed, isFileName allowed (canonical text) = true ↔ allowed form = true)) ∧
    (∀ s t m n, parse? s = some m → parse? t = some n →
      (canonical s = canonical t ↔ m.base = n.base ∧ m.param = n.param ∧ m.type = n.type)) ∧
    ∀ text, '.' ∉ text.toList → ∀ allowed, isFileName allowed text = false := by
  refine ⟨?_, ?_, fun text hdot allowed => not_isFileName_of_no_dot hdot allowed⟩
  · intro text n h
    refine ⟨(canonical_eq_text h).symm, fun hsize => ⟨parse?_canonical h hsize, ?_⟩⟩
    exact ⟨n.form, hasForm_iff.2 rfl, fun other ho => (hasForm_iff.1 ho).symm,
      isFileName_canonical h hsize⟩
  · intro s t m n hm hn
    rw [canonical_eq_text hm, canonical_eq_text hn]
    exact text_eq_text_iff (parse?_spec hm).2.1 (parse?_spec hn).2.1

/-- A template with its type and without it. -/
theorem getty_canonical : canonical "getty@" = canonical "getty@.service" ∧
    parse? (canonical "getty@") = some ⟨"getty", some "", "service", true⟩ ∧
    isFileName (· = .template) (canonical "getty@") = true ∧
    isFileName (· ≠ .template) (canonical "getty@") = false ∧
    isFileName (fun _ => true) "getty@" = false := by
  obtain ⟨hread, hsame, hshort⟩ := canonical_identifies
  have hm : parse? "getty@" = some ⟨"getty", some "", "service", false⟩ := by decide +kernel
  have hn : parse? "getty@.service" = some ⟨"getty", some "", "service", true⟩ := by decide +kernel
  obtain ⟨-, hlong⟩ := hread _ _ hm
  obtain ⟨hparse, form, hform, -, hfile⟩ := hlong (by decide)
  cases hform with
  | template =>
    have hother := hfile (· ≠ .template)
    exact ⟨(hsame _ _ _ _ hm hn).2 ⟨rfl, rfl, rfl⟩, hparse, (hfile _).2 (by decide),
      by simpa using hother, hshort _ (by decide) _⟩
  | instantiated h => exact absurd rfl h

end ServiceUnits.Name
