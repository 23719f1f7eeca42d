import ServiceUnits.Proofs.Path.Names

namespace ServiceUnits.Path

open Text

/-- A joined name stands behind one slash, which the directory may have brought along. -/
theorem toList_join {dir : Path} {name : String} (hdir : dir.text ≠ "")
    (hname : name.toList.head? ≠ some '/') :
    ∃ above, (dir.join name).text.toList = above ++ '/' :: name.toList ∧
      (dir.text.toList = above ∨ dir.text.toList = above ++ ['/']) := by
  rw [join, if_neg hname]
  split
  · rename_i hslash
    obtain ⟨above, c, habove⟩ :=
      (List.eq_nil_or_concat dir.text.toList).resolve_left (by simpa using hdir)
    rw [List.concat_eq_append] at habove
    rw [habove, List.getLast?_concat, Option.all_some] at hslash
    obtain rfl : c = '/' := by simpa [slash] using hslash
    exact ⟨above, by simp [habove], .inr habove⟩
  · exact ⟨dir.text.toList, by simp, .inl rfl⟩

theorem absolute_components (p : Path) :
    p.components.absolute = true ↔ p.text.toList.head? = some '/' := by
  obtain ⟨first, rest, hfirst⟩ := List.exists_cons_of_ne_nil (pieces_ne_nil slash p.text.toList)
  simp [components, componentsOf, hfirst]

/-- A slash behind a slash makes no component. -/
theorem componentsOf_doubled_slash (s t : List Char) :
    componentsOf (s ++ '/' :: '/' :: t) = componentsOf (s ++ '/' :: t) := by
  have hslash : slash '/' = true := by decide
  have hempty : pieces slash ('/' :: t) = [] :: pieces slash t := by rw [pieces, if_pos hslash]
  have hhead : (s ++ '/' :: '/' :: t).head? = (s ++ '/' :: t).head? := by cases s <;> rfl
  obtain ⟨first, rest, hfirst⟩ := List.exists_cons_of_ne_nil (pieces_ne_nil slash s)
  rw [componentsOf, componentsOf, pieces_append_sep hslash, pieces_append_sep hslash, hempty,
    hfirst, hhead]
  simp [isIdle]

/-- A name that does not start at the root is the same path joined to a directory and put behind a
slash. Behind the empty text it is the slash that makes it start there. -/
theorem same_join_iff {dir name : String} (h : name.toList.head? ≠ some '/') :
    (join ⟨dir⟩ name).same ⟨dir ++ "/" ++ name⟩ = true ↔ dir ≠ "" := by
  rw [same, decide_eq_true_eq]
  constructor
  · rintro hsame rfl
    have hjoin : join ⟨""⟩ name = ⟨name⟩ := by simp [join, h]
    have habsolute := (absolute_components ⟨"" ++ "/" ++ name⟩).2 (by simp)
    rw [← hsame, hjoin, absolute_components] at habsolute
    exact h habsolute
  · intro hdir
    have hne : (⟨dir⟩ : Path).text ≠ "" := hdir
    obtain ⟨above, hjoin, habove⟩ := toList_join hne h
    have htext : (dir ++ "/" ++ name).toList = dir.toList ++ '/' :: name.toList := by simp
    rw [components, components, hjoin, htext]
    rcases habove with habove | habove
    · rw [← habove]
    · change dir.toList = above ++ ['/'] at habove
      rw [habove, List.append_assoc]
      exact (componentsOf_doubled_slash above name.toList).symm

end ServiceUnits.Path
