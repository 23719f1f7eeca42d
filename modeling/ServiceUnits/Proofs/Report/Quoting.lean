import Mathlib.Data.List.Induction
import ServiceUnits.Proofs.Config.LineForms

namespace ServiceUnits.Line

/-- What precedes a text does not count if it ends in an even number of backslashes itself. -/
theorem endsOdd_append_of_not {p : List Char} (hp : ¬ EndsOdd p) (s : List Char) :
    EndsOdd (p ++ s) ↔ EndsOdd s := by
  induction s using List.reverseRecOn with
  | nil =>
    have hnil : ¬ EndsOdd [] := by decide
    simp [hp, hnil]
  | append_singleton s c ih =>
    rw [← List.append_assoc]
    by_cases hc : c = '\\'
    · subst hc
      rw [endsOdd_concat, endsOdd_concat, ih]
    · have hends : ∀ q, EndsOdd (q ++ [c]) ↔ EndsOdd [] := fun q => by
        simpa using endsOdd_append (List.getLast?_concat (l := q)) hc []
      rw [hends, hends]

theorem EndsOdd.mem {s : List Char} (h : EndsOdd s) : '\\' ∈ s := by
  obtain ⟨body, n, rfl, -⟩ := h
  simp

end ServiceUnits.Line

namespace ServiceUnits.Dot

open Line

/-- The string at the start of a text that an opening quote precedes, and what follows the closing
quote. -/
def quoted : List Char → Option (List Char × List Char)
  | [] => none
  | '"' :: cs => some ([], cs)
  | '\\' :: '"' :: cs => (quoted cs).map fun p => ('"' :: p.1, p.2)
  | '\\' :: '\\' :: cs => (quoted cs).map fun p => ('\\' :: '\\' :: p.1, p.2)
  | '\\' :: '\n' :: cs => quoted cs
  | c :: cs => (quoted cs).map fun p => (c :: p.1, p.2)

/-- A text in which nothing has a meaning of its own when it is put between quotes. -/
structure Plain (s : List Char) : Prop where
  quoteless : '"' ∉ s
  not_endsOdd : ¬ EndsOdd s
  not_before_lineFeed : ∀ pre post, s = pre ++ '\n' :: post → ¬ EndsOdd pre

theorem plain_of_not_mem {s : List Char} (hq : '"' ∉ s) (hb : '\\' ∉ s) : Plain s := by
  refine ⟨hq, fun h => hb h.mem, ?_⟩
  rintro pre post rfl h
  exact hb (List.mem_append_left _ h.mem)

theorem plain_append_iff {p s : List Char} (hp : ¬ EndsOdd p) :
    Plain (p ++ s) ↔ Plain p ∧ Plain s := by
  constructor
  · intro h
    have hq := h.quoteless
    rw [List.mem_append, not_or] at hq
    refine ⟨⟨hq.1, hp, ?_⟩, hq.2, ?_, ?_⟩
    · rintro pre post rfl
      exact h.not_before_lineFeed pre (post ++ s) (by simp)
    · exact (endsOdd_append_of_not hp s).not.1 h.not_endsOdd
    · rintro pre post rfl
      rw [← endsOdd_append_of_not hp]
      exact h.not_before_lineFeed (p ++ pre) post (by simp)
  · rintro ⟨h, h'⟩
    refine ⟨?_, (endsOdd_append_of_not hp s).not.2 h'.not_endsOdd, ?_⟩
    · rw [List.mem_append, not_or]
      exact ⟨h.quoteless, h'.quoteless⟩
    · intro pre post hsplit
      -- The line feed stands in the second part, or at its very start, or in the first part.
      obtain ⟨q, rfl, hs⟩ | ⟨q, hpq, hs⟩ := List.append_eq_append_iff.1 hsplit
      · rw [endsOdd_append_of_not hp]
        exact h'.not_before_lineFeed q post hs
      · cases q with
        | nil => simpa [hpq] using hp
        | cons c q =>
          obtain ⟨rfl, -⟩ := List.cons.inj hs
          exact h.not_before_lineFeed pre q hpq

theorem Plain.append {p s : List Char} (hp : Plain p) (hs : Plain s) : Plain (p ++ s) :=
  (plain_append_iff hp.not_endsOdd).2 ⟨hp, hs⟩

section Pieces

variable {c : Char} {s cs : List Char}

theorem plain_cons_iff (hq : c ≠ '"') (hb : c ≠ '\\') : Plain (c :: s) ↔ Plain s := by
  have hc : Plain [c] := plain_of_not_mem (by simpa using hq.symm) (by simpa using hb.symm)
  have h := plain_append_iff (s := s) hc.not_endsOdd
  simpa [hc] using h

theorem plain_backslashes_iff : Plain ('\\' :: '\\' :: s) ↔ Plain s := by
  have hp : ¬ EndsOdd ['\\', '\\'] := by decide
  have hc : Plain ['\\', '\\'] := by
    refine ⟨by decide, hp, ?_⟩
    intro pre post h
    have hmem : '\n' ∈ ['\\', '\\'] := h ▸ by simp
    simp at hmem
  have h := plain_append_iff (s := s) hp
  simpa [hc] using h

theorem plain_backslash_cons_iff (hq : c ≠ '"') (hb : c ≠ '\\') (hl : c ≠ '\n') :
    Plain ('\\' :: c :: s) ↔ Plain (c :: s) := by
  have hp : ¬ EndsOdd ['\\', c] := by
    have h := endsOdd_append (List.getLast?_concat (l := ['\\'])) hb []
    have hnil : ¬ EndsOdd [] := by decide
    simpa [hnil] using h
  have hc : Plain ['\\', c] := by
    refine ⟨by simpa using hq.symm, hp, ?_⟩
    intro pre post h
    have hmem : '\n' ∈ ['\\', c] := h ▸ by simp
    simp [hl.symm] at hmem
  have h := plain_append_iff (s := s) hp
  rw [plain_cons_iff hq hb]
  simpa [hc] using h

theorem not_plain_backslash : ¬ Plain ['\\'] := fun h => h.not_endsOdd (by decide)

theorem not_plain_lineFeed : ¬ Plain ('\\' :: '\n' :: s) := fun h =>
  h.not_before_lineFeed ['\\'] s rfl (by decide)

theorem quoted_cons (hq : c ≠ '"') (hb : c ≠ '\\') :
    quoted (c :: cs) = (quoted cs).map fun p => (c :: p.1, p.2) := by
  rw [quoted] <;> simp [hq, hb]

theorem quoted_backslash_cons (hq : c ≠ '"') (hb : c ≠ '\\') (hl : c ≠ '\n') :
    quoted ('\\' :: c :: cs) = (quoted (c :: cs)).map fun p => ('\\' :: p.1, p.2) := by
  rw [quoted] <;> simp [hq, hb, hl]

end Pieces

/-- What follows the closing quote is the end of the text. -/
theorem exists_append_of_quoted {cs s rest : List Char} (h : quoted cs = some (s, rest)) :
    ∃ written, cs = written ++ '"' :: rest := by
  induction cs using quoted.induct generalizing s with
  | case1 => simp [quoted] at h
  | case2 cs =>
    obtain ⟨-, rfl⟩ := Prod.mk.inj (Option.some.inj h)
    exact ⟨[], rfl⟩
  | case3 cs ih | case4 cs ih =>
    rw [quoted, Option.map_eq_some_iff] at h
    obtain ⟨p, hp, he⟩ := h
    obtain ⟨-, rfl⟩ := Prod.mk.inj he
    obtain ⟨written, hw⟩ := ih hp
    exact ⟨'\\' :: _ :: written, by rw [hw]; rfl⟩
  | case5 cs ih =>
    rw [quoted] at h
    obtain ⟨written, hw⟩ := ih h
    exact ⟨'\\' :: '\n' :: written, by rw [hw]; rfl⟩
  | case6 c cs hq hqq hbb hbl ih =>
    rw [quoted, Option.map_eq_some_iff] at h
    · obtain ⟨p, hp, he⟩ := h
      obtain ⟨-, rfl⟩ := Prod.mk.inj he
      obtain ⟨written, hw⟩ := ih hp
      exact ⟨c :: written, by rw [hw]; rfl⟩
    all_goals assumption

/-- The ways in which a text can begin that are read differently. -/
@[elab_as_elim]
theorem pieces_induction {motive : List Char → Prop} (nil : motive [])
    (quote : ∀ cs, motive ('"' :: cs)) (backslash : motive ['\\'])
    (escapedQuote : ∀ cs, motive ('\\' :: '"' :: cs))
    (escapedLineFeed : ∀ cs, motive cs → motive ('\\' :: '\n' :: cs))
    (backslashes : ∀ cs, motive cs → motive ('\\' :: '\\' :: cs))
    (loneBackslash : ∀ c cs, c ≠ '"' → c ≠ '\\' → c ≠ '\n' → motive (c :: cs) →
      motive ('\\' :: c :: cs))
    (other : ∀ c cs, c ≠ '"' → c ≠ '\\' → motive cs → motive (c :: cs)) (s : List Char) :
    motive s := by
  induction s using quoted.induct with
  | case1 => exact nil
  | case2 cs => exact quote cs
  | case3 cs ih => exact escapedQuote cs
  | case4 cs ih => exact backslashes cs ih
  | case5 cs ih => exact escapedLineFeed cs ih
  | case6 c cs hq hqq hbb hbl ih =>
    by_cases hb : c = '\\'
    · subst hb
      cases cs with
      | nil => exact backslash
      | cons d ds =>
        refine loneBackslash d ds ?_ ?_ ?_ ih
        · exact fun hd => hqq ds rfl (by rw [hd])
        · exact fun hd => hbb ds rfl (by rw [hd])
        · exact fun hd => hbl ds rfl (by rw [hd])
    · exact other c cs hq hb ih

/-- A string is never read with a backslash and a line feed at its start. -/
theorem quoted_ne_lineFeed (cs s rest : List Char) :
    quoted cs ≠ some ('\\' :: '\n' :: s, rest) := by
  induction cs using pieces_induction with
  | nil => simp [quoted]
  | quote cs => simp [quoted]
  | backslash => simp [quoted]
  | escapedQuote cs => simp [quoted]
  | escapedLineFeed cs ih => simpa [quoted] using ih
  | backslashes cs ih => simp [quoted]
  | loneBackslash c cs hq hb hl ih =>
    rw [quoted_backslash_cons hq hb hl, quoted_cons hq hb]
    simp [hl]
  | other c cs hq hb ih =>
    rw [quoted_cons hq hb]
    simp [hb]

/-- A text that stands between two quotes as it is denotes itself exactly when it is plain. -/
theorem quoted_append_eq_some_iff {s rest r : List Char} :
    quoted (s ++ '"' :: rest) = some (s, r) ↔ Plain s ∧ r = rest := by
  induction s using pieces_induction with
  | nil =>
    have hnil : Plain [] := plain_of_not_mem (by simp) (by simp)
    simp [quoted, hnil, eq_comm]
  | quote cs =>
    have hn : ¬ Plain ('"' :: cs) := fun h => h.quoteless (by simp)
    simp [quoted, hn]
  | backslash => simp [quoted, not_plain_backslash]
  | escapedQuote cs =>
    have hn : ¬ Plain ('\\' :: '"' :: cs) := fun h => h.quoteless (by simp)
    simp [quoted, hn]
  | escapedLineFeed cs ih =>
    have hread := quoted_ne_lineFeed (cs ++ '"' :: rest) cs r
    simp [quoted, hread, not_plain_lineFeed]
  | backslashes cs ih =>
    rw [plain_backslashes_iff, ← ih]
    simp [quoted]
  | loneBackslash c cs hq hb hl ih =>
    rw [plain_backslash_cons_iff hq hb hl, ← ih, List.cons_append, List.cons_append,
      quoted_backslash_cons hq hb hl]
    simp
  | other c cs hq hb ih =>
    rw [plain_cons_iff hq hb, ← ih, List.cons_append, quoted_cons hq hb]
    simp

instance : DecidablePred Plain := fun s =>
  decidable_of_iff (quoted (s ++ ['"']) = some (s, [])) (by simp [quoted_append_eq_some_iff])

example : Plain "a\\b\\\\".toList ∧ ¬ Plain "a\\".toList := by decide

end ServiceUnits.Dot
