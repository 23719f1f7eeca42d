import ServiceUnits.Proofs.Name.Parts

namespace ServiceUnits.Name

open Text

/-- A text with neither a separator nor white space in it. -/
def IsSolid (s : String) : Prop :=
  '@' ∉ s.toList ∧ '.' ∉ s.toList ∧ ∀ c ∈ s.toList, isBlank c = false

/-- The text is a base, then a parameter behind an at-sign, then a type behind a dot. The parameter
and the type may be left out, and then there is no sign for them either. -/
structure Spells (text : String) (n : Name) : Prop where
  one_le_size : 1 ≤ text.utf8ByteSize
  size_le : text.utf8ByteSize ≤ 255
  text_eq : text = n.base ++ (match n.param with | none => "" | some p => "@" ++ p) ++
    (if n.explicit then "." ++ n.type else "")
  base_ne : n.base ≠ ""
  type_ne : n.type ≠ ""
  type_of_not_explicit : n.explicit = false → n.type = "service"
  base_solid : IsSolid n.base
  param_solid : ∀ p, n.param = some p → IsSolid p
  type_solid : IsSolid n.type

variable {text : String} {n : Name}

theorem isSolid_iff {s : String} : IsSolid s ↔ isPart s.toList = true := isPart_iff.symm

instance : DecidablePred IsSolid := fun _ => decidable_of_iff _ isSolid_iff.symm

theorem toList_eq_spelled_iff : text.toList = spelled n.base.toList (n.param.map String.toList)
      (if n.explicit then some n.type.toList else none) ↔
    text = n.base ++ (match n.param with | none => "" | some p => "@" ++ p) ++
      (if n.explicit then "." ++ n.type else "") := by
  rw [← String.toList_inj]
  cases n.param <;> cases n.explicit <;> simp [spelled]

/-- The parts of a name that is read are those that the text is spelled with. -/
theorem spells_of_parse? (h : parse? text = some n) : Spells text n := by
  obtain ⟨hsize, hw, hs⟩ := parse?_spec h
  have htext := toList_eq_spelled_iff.1 hs
  have hne : text ≠ "" := by
    rintro rfl
    rw [String.toList_empty, spelled, List.append_assoc] at hs
    exact hw.base_ne (String.toList_eq_nil_iff.1 (List.append_eq_nil_iff.1 hs.symm).1)
  exact {
    one_le_size := Nat.pos_of_ne_zero fun h0 => hne (String.utf8ByteSize_eq_zero_iff.1 h0)
    size_le := hsize
    text_eq := htext
    base_ne := hw.base_ne
    type_ne := hw.type_ne
    type_of_not_explicit := hw.type_of_not_explicit
    base_solid := isSolid_iff.2 hw.base_isPart
    param_solid := fun p hp => isSolid_iff.2 (hw.param_isPart p hp)
    type_solid := isSolid_iff.2 hw.type_isPart }

theorem Spells.parse? (h : Spells text n) : parse? text = some n := by
  have hw : n.WellFormed := {
    base_ne := h.base_ne
    base_isPart := isSolid_iff.1 h.base_solid
    param_isPart := fun p hp => isSolid_iff.1 (h.param_solid p hp)
    type_ne := h.type_ne
    type_isPart := isSolid_iff.1 h.type_solid
    type_of_not_explicit := h.type_of_not_explicit }
  exact parse?_eq_some h.size_le hw (toList_eq_spelled_iff.2 h.text_eq)

/-- A text is read as a name exactly when it is spelled with the parts of the name. It is spelled in
one way at most, and a text that is spelled in no way is not read at all. -/
theorem parse?_eq_some_iff_spells (text : String) :
    (∀ n, Name.parse? text = some n ↔ Spells text n) ∧
      (∀ m n, Spells text m → Spells text n → m = n) ∧
      (Name.parse? text = none ↔ ∀ n, ¬ Spells text n) := by
  have hread (n : Name) : Name.parse? text = some n ↔ Spells text n :=
    ⟨spells_of_parse?, Spells.parse?⟩
  refine ⟨hread, ?_, ?_⟩
  · intro m n hm hn
    exact Option.some.inj (hm.parse?.symm.trans hn.parse?)
  · simp only [Option.eq_none_iff_forall_not_mem, Option.mem_def, hread]

/-- A template with letters of two bytes in its base. -/
theorem accented_spelled_once : Spells "café@.timer" ⟨"café", some "", "timer", true⟩ ∧
    ∀ n, Spells "café@.timer" n → n = ⟨"café", some "", "timer", true⟩ := by
  obtain ⟨hread, hunique, -⟩ := parse?_eq_some_iff_spells "café@.timer"
  have hspells := (hread ⟨"café", some "", "timer", true⟩).1 (by decide +kernel)
  exact ⟨hspells, fun n hn => hunique n _ hn hspells⟩

end ServiceUnits.Name
