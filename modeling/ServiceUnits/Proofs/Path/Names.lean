import Mathlib.Data.List.Induction
import ServiceUnits.Path.Simplify
import ServiceUnits.Proofs.Text.Cutting

namespace ServiceUnits.Path

open Text

/-- The steps that a path names. Two dots are one of them. -/
def names (s : String) : List (List Char) :=
  (pieces slash s.toList).filter fun piece => !isIdle piece

theorem isIdle_of_mem_names {s : String} {name : List Char} (h : name ∈ names s) :
    isIdle name = false := by
  simpa using (List.mem_filter.1 h).2

theorem pieces_beneath (a b : String) :
    pieces slash (a ++ "/" ++ b).toList = pieces slash a.toList ++ pieces slash b.toList := by
  have htext : (a ++ "/" ++ b).toList = a.toList ++ '/' :: b.toList := by simp
  rw [htext, pieces_append_sep (by decide)]

theorem names_append (a b : String) : names (a ++ "/" ++ b) = names a ++ names b := by
  rw [names, pieces_beneath, List.filter_append, names, names]

theorem slash_iff (c : Char) : slash c = true ↔ c = '/' := beq_iff_eq

theorem not_isAbsolute_of_pieces {s : List Char} (h : ∀ rest, pieces slash s ≠ [] :: rest) :
    s.head? ≠ some '/' := by
  intro hhead
  obtain ⟨-, rest, hrest⟩ := (head?_eq_sep_iff slash_iff).1 hhead
  exact h rest hrest

theorem names_ofList_join {ps : List (List Char)} (h : ∀ p ∈ ps, ∀ c ∈ p, slash c = false) :
    names (.ofList (Text.join '/' ps)) = ps.filter fun piece => !isIdle piece := by
  rw [names, String.toList_ofList, filter_pieces_join ((slash_iff _).2 rfl) rfl h]

theorem names_slash_join {ps : List (List Char)} (h : ∀ p ∈ ps, ∀ c ∈ p, slash c = false) :
    names (.ofList ('/' :: Text.join '/' ps)) = ps.filter fun piece => !isIdle piece := by
  rw [names, String.toList_ofList, pieces, if_pos (by decide),
    ← filter_pieces_join ((slash_iff _).2 rfl) rfl h]
  rfl

theorem takeStep_idle {absolute : Bool} {taken : List (List Char)} {piece : List Char}
    (h : isIdle piece = true) : takeStep absolute taken piece = some taken := by
  rw [takeStep.eq_def, if_pos h]

/-- A step either takes back the last name or is one more step. -/
theorem takeStep_eq_some {absolute : Bool} {taken now : List (List Char)} {piece : List Char}
    (hi : isIdle piece = false) (h : takeStep absolute taken piece = some now) :
    (piece = ['.', '.'] ∧ ∃ last, last ≠ ['.', '.'] ∧ taken = last :: now) ∨
      now = piece :: taken := by
  rw [takeStep.eq_def, if_neg (by simp [hi])] at h
  split at h
  · rename_i hup
    split at h
    · rename_i last before
      split at h
      · rename_i hlast
        exact .inl ⟨hup, last, hlast, by rw [Option.some.inj h]⟩
      · split at h
        · cases h
        · exact .inr (Option.some.inj h).symm
    · split at h
      · cases h
      · exact .inr (Option.some.inj h).symm
  · exact .inr (Option.some.inj h).symm

theorem takeSteps_filter (absolute : Bool) (ps : List (List Char)) :
    takeSteps absolute (ps.filter fun piece => !isIdle piece) = takeSteps absolute ps := by
  have hfrom : ∀ taken, (ps.filter fun piece => !isIdle piece).foldlM (takeStep absolute) taken =
      ps.foldlM (takeStep absolute) taken := by
    induction ps with
    | nil => intro taken; rfl
    | cons p ps ih =>
      intro taken
      cases hp : isIdle p with
      | true =>
        rw [List.filter_cons_of_neg (by simp [hp]), ih, List.foldlM_cons, takeStep_idle hp]
        rfl
      | false =>
        rw [List.filter_cons_of_pos (by simp [hp]), List.foldlM_cons, List.foldlM_cons]
        exact congrArg _ (funext ih)
  exact hfrom []

theorem takeSteps_concat (absolute : Bool) (ps : List (List Char)) (p : List Char) :
    takeSteps absolute (ps ++ [p]) = (takeSteps absolute ps).bind (takeStep absolute · p) := by
  simp [takeSteps, List.foldlM_append]

theorem mem_of_takeSteps {absolute : Bool} {ps taken : List (List Char)}
    (h : takeSteps absolute ps = some taken) (hps : ∀ p ∈ ps, isIdle p = false) :
    ∀ step ∈ taken, step ∈ ps := by
  induction ps using List.reverseRecOn generalizing taken with
  | nil =>
    obtain rfl := Option.some.inj h
    simp
  | append_singleton ps p ih =>
    rw [takeSteps_concat] at h
    obtain ⟨before, hbefore, hnow⟩ := Option.bind_eq_some_iff.1 h
    have hin := ih hbefore fun q hq => hps q (List.mem_append_left _ hq)
    intro step hstep
    rcases takeStep_eq_some (hps p (by simp)) hnow with ⟨-, last, -, rfl⟩ | rfl
    · exact List.mem_append_left _ (hin step (List.mem_cons_of_mem _ hstep))
    · rcases List.mem_cons.1 hstep with rfl | hstep
      · simp
      · exact List.mem_append_left _ (hin step hstep)

/-- The normal form names the steps that are left, from the same start. -/
theorem simplify?_spec {s q : String} (h : simplify? s = some q) :
    ∃ taken, takeSteps (s.toList.head? = some '/') (names s) = some taken ∧
      names q = taken.reverse ∧ (q.toList.head? = some '/' ↔ s.toList.head? = some '/') := by
  obtain ⟨taken, htaken, rfl⟩ := Option.map_eq_some_iff.1 h
  rw [← takeSteps_filter] at htaken
  have hmem := mem_of_takeSteps htaken fun p hp => isIdle_of_mem_names hp
  have hidle : ∀ p ∈ taken.reverse, isIdle p = false :=
    fun p hp => isIdle_of_mem_names (hmem p (List.mem_reverse.1 hp))
  have hin : ∀ p ∈ taken.reverse, ∀ c ∈ p, slash c = false := fun p hp =>
    not_sep_of_mem_pieces (List.mem_filter.1 (hmem p (List.mem_reverse.1 hp))).1
  have hall : (taken.reverse.filter fun piece => !isIdle piece) = taken.reverse :=
    List.filter_eq_self.2 fun p hp => by simp [hidle p hp]
  refine ⟨taken, htaken, ?_⟩
  by_cases habs : s.toList.head? = some '/'
  · rw [render, if_pos (by simpa using habs)]
    exact ⟨(names_slash_join hin).trans hall, by simp [habs]⟩
  · rw [render, if_neg (by simpa using habs)]
    split
    · rename_i hnil
      rw [hnil]
      exact ⟨rfl, by simp [habs]⟩
    · refine ⟨(names_ofList_join hin).trans hall, ?_⟩
      rw [String.toList_ofList]
      refine iff_of_false (head?_join_ne slash_iff hin ?_) habs
      intro rest hrest
      exact absurd (hidle [] (hrest ▸ List.mem_cons_self)) (by decide)

end ServiceUnits.Path
