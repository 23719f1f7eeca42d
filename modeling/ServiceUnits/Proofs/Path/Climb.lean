import ServiceUnits.Proofs.Path.Names

namespace ServiceUnits.Path

open Text

/-- How many of the pieces go up. -/
def ups (ps : List (List Char)) : Nat := ps.count ['.', '.']

/-- How many of the pieces go down to a name. -/
def downs (ps : List (List Char)) : Nat :=
  ps.countP fun piece => !isIdle piece && piece ≠ ['.', '.']

theorem ups_append (ps qs : List (List Char)) : ups (ps ++ qs) = ups ps + ups qs :=
  List.count_append

theorem downs_append (ps qs : List (List Char)) : downs (ps ++ qs) = downs ps + downs qs :=
  List.countP_append

/-- The path starts at the root, and some of its first pieces go up more often than down. -/
def ClimbsAboveRoot (s : String) : Prop :=
  s.toList.head? = some '/' ∧ ∃ front, front <+: pieces slash s.toList ∧ downs front < ups front

/-- Below the root a piece changes the number of names that are taken by one at most; at the root
there is no way up. -/
theorem takeStep_absolute {taken : List (List Char)} (h : ['.', '.'] ∉ taken) (p : List Char) :
    (takeStep true taken p = none ∧ taken = [] ∧ downs [p] < ups [p]) ∨
      ∃ now, takeStep true taken p = some now ∧ ['.', '.'] ∉ now ∧
        now.length + ups [p] = taken.length + downs [p] := by
  cases hi : isIdle p with
  | true =>
    have hup : p ≠ ['.', '.'] := by
      rintro rfl
      cases hi
    exact .inr ⟨taken, takeStep_idle hi, h, by simp [ups, downs, hi, hup]⟩
  | false =>
    by_cases hup : p = ['.', '.']
    · subst hup
      cases taken with
      | nil => exact .inl ⟨rfl, rfl, by decide⟩
      | cons last before =>
        have hlast : last ≠ ['.', '.'] := Ne.symm (List.ne_of_not_mem_cons h)
        refine .inr ⟨before, ?_, List.not_mem_of_not_mem_cons h, ?_⟩
        · rw [takeStep, if_neg (by decide), if_pos rfl, if_pos hlast]
        · simp [ups, downs]
    · refine .inr ⟨p :: taken, ?_, by simp [Ne.symm hup, h], by simp [ups, downs, hi, hup]⟩
      rw [takeStep.eq_def, if_neg (by simp [hi]), if_neg hup]

/-- From the root the steps that are taken are names, as many as the steps down outnumber those up.
There are none exactly if the steps up outnumber those down at some piece. -/
theorem takeSteps_absolute (ps : List (List Char)) :
    (takeSteps true ps = none ∧ ∃ front, front <+: ps ∧ downs front < ups front) ∨
      ∃ taken, takeSteps true ps = some taken ∧ ['.', '.'] ∉ taken ∧
        taken.length + ups ps = downs ps ∧ ∀ front, front <+: ps → ups front ≤ downs front := by
  induction ps using List.reverseRecOn with
  | nil =>
    refine .inr ⟨[], rfl, List.not_mem_nil, rfl, fun front hfront => ?_⟩
    rw [List.prefix_nil.1 hfront]
    exact Nat.le_refl _
  | append_singleton ps p ih =>
    rw [takeSteps_concat, ups_append, downs_append]
    rcases ih with ⟨hnone, front, hfront, hlt⟩ | ⟨taken, htaken, hnames, hcount, hall⟩
    · rw [hnone]
      exact .inl ⟨rfl, front, hfront.trans (List.prefix_append _ _), hlt⟩
    · rw [htaken]
      rcases takeStep_absolute hnames p with ⟨hnone, rfl, hlt⟩ | ⟨now, hnow, hnames', hstep⟩
      · refine .inl ⟨hnone, ps ++ [p], List.prefix_refl _, ?_⟩
        rw [List.length_nil] at hcount
        rw [ups_append, downs_append]
        omega
      · refine .inr ⟨now, hnow, hnames', by omega, fun front hfront => ?_⟩
        rcases List.prefix_concat_iff.1 hfront with rfl | hfront
        · rw [ups_append, downs_append]
          omega
        · exact hall front hfront

/-- Above its start a relative path goes on. -/
theorem takeStep_relative (taken : List (List Char)) (p : List Char) :
    takeStep false taken p ≠ none := by
  rw [takeStep.eq_def]
  split
  · simp
  · split
    · cases taken with
      | nil => simp
      | cons last before => by_cases hlast : last = ['.', '.'] <;> simp [hlast]
    · simp

theorem takeSteps_relative (ps : List (List Char)) : takeSteps false ps ≠ none := by
  induction ps using List.reverseRecOn with
  | nil => exact Option.some_ne_none _
  | append_singleton ps p ih =>
    obtain ⟨taken, htaken⟩ := Option.ne_none_iff_exists'.1 ih
    rw [takeSteps_concat, htaken]
    exact takeStep_relative taken p

theorem simplify?_eq_none_iff {s : String} : simplify? s = none ↔ ClimbsAboveRoot s := by
  rw [simplify?, Option.map_eq_none_iff, ClimbsAboveRoot]
  by_cases habs : s.toList.head? = some '/'
  · simp only [habs, decide_true, true_and]
    rcases takeSteps_absolute (pieces slash s.toList) with
      ⟨hnone, hfront⟩ | ⟨taken, htaken, -, -, hall⟩
    · exact iff_of_true hnone hfront
    · refine iff_of_false (by simp [htaken]) ?_
      rintro ⟨front, hfront, hlt⟩
      exact Nat.not_lt.2 (hall front hfront) hlt
  · simp only [habs, decide_false, false_and, iff_false]
    exact takeSteps_relative _

end ServiceUnits.Path
