namespace ServiceUnits.Text

variable {α : Type}

/-- The pieces between the separators: one more than there are separators, empty ones included. -/
def pieces (sep : α → Bool) : List α → List (List α)
  | [] => [[]]
  | c :: cs =>
    if sep c then [] :: pieces sep cs
    else match pieces sep cs with
      | [] => [[c]]
      | p :: ps => (c :: p) :: ps

/-- The pieces joined with one separator between two of them. -/
def join (sep : α) (ps : List (List α)) : List α := [sep].intercalate ps

/-- The text before the first `sep`, and the text after it if there is one. -/
def cut (sep : Char) : List Char → List Char × Option (List Char)
  | [] => ([], none)
  | c :: cs => if c = sep then ([], some cs) else ((c :: (cut sep cs).1), (cut sep cs).2)

theorem pieces_ne_nil (sep : α → Bool) (s : List α) : pieces sep s ≠ [] := by
  cases s with
  | nil => simp [pieces]
  | cons c cs =>
    rw [pieces]
    split
    · simp
    · split <;> simp

theorem not_sep_of_mem_pieces {sep : α → Bool} {s p : List α} (h : p ∈ pieces sep s) :
    ∀ c ∈ p, sep c = false := by
  induction s generalizing p with
  | nil => simp_all [pieces]
  | cons a s ih =>
    rw [pieces] at h
    split at h
    · rcases List.mem_cons.1 h with rfl | h
      · simp
      · exact ih h
    · split at h
      · simp_all
      · rename_i q qs hq
        rcases List.mem_cons.1 h with rfl | h
        · intro c hc
          rcases List.mem_cons.1 hc with rfl | hc
          · simp_all
          · exact ih (hq ▸ List.mem_cons_self) c hc
        · exact ih (hq ▸ List.mem_cons_of_mem _ h)

theorem join_cons_cons (sep : α) (p q : List α) (ps : List (List α)) :
    join sep (p :: q :: ps) = p ++ sep :: join sep (q :: ps) := by
  simp [join, List.intercalate]

/-- Cut at one sign and joined with it, a text is itself again. -/
theorem join_pieces [BEq α] [LawfulBEq α] (sep : α) (s : List α) :
    join sep (pieces (· == sep) s) = s := by
  induction s with
  | nil => simp [pieces, join, List.intercalate]
  | cons c cs ih =>
    rw [pieces]
    split
    · rename_i hc
      cases hp : pieces (· == sep) cs with
      | nil => exact absurd hp (pieces_ne_nil _ _)
      | cons p ps =>
        rw [join_cons_cons, ← hp, ih]
        simp_all
    · split
      · exact absurd ‹_› (pieces_ne_nil _ _)
      · rename_i p ps hp
        rw [hp] at ih
        cases ps with
        | nil => simpa [join, List.intercalate] using ih
        | cons q qs => rw [join_cons_cons] at ih ⊢; simp [ih]

theorem cut_append (sep : Char) (s : List Char) :
    (cut sep s).1 ++ ((cut sep s).2.map (sep :: ·)).getD [] = s := by
  induction s with
  | nil => rfl
  | cons c cs ih =>
    rw [cut]
    split <;> simp_all

theorem not_mem_cut (sep : Char) (s : List Char) : sep ∉ (cut sep s).1 := by
  induction s with
  | nil => simp [cut]
  | cons c cs ih =>
    rw [cut]
    split
    · simp
    · rename_i h
      exact fun hm => (List.mem_cons.1 hm).elim (fun e => h e.symm) ih

end ServiceUnits.Text
