import Mathlib.Data.List.TakeWhile
import ServiceUnits.Text.Blank

namespace ServiceUnits.Text

variable {α : Type}

theorem trimStart_suffix (s : List Char) : trimStart s <:+ s := List.dropWhile_suffix _

theorem trimEnd_prefix (s : List Char) : trimEnd s <+: s := by
  rw [← List.reverse_suffix]
  simpa [trimEnd] using List.dropWhile_suffix (l := s.reverse) isBlank

theorem isBlank_getLast_trimEnd {s : List Char} {c : Char} (h : (trimEnd s).getLast? = some c) :
    isBlank c = false := by
  rw [trimEnd, List.getLast?_reverse] at h
  have hd := List.head?_dropWhile_not isBlank s.reverse
  rw [h] at hd
  simpa using hd

theorem isBlank_head_trim {s : List Char} {c : Char} (h : (trim s).head? = some c) :
    isBlank c = false := by
  obtain ⟨t, ht⟩ := trimEnd_prefix (trimStart s)
  have hd := List.head?_dropWhile_not isBlank s
  rw [← trimStart, ← ht, List.head?_append, ← trim, h] at hd
  simpa using hd

theorem trimEnd_eq_self {s : List Char} (h : ∀ c, s.getLast? = some c → isBlank c = false) :
    trimEnd s = s := by
  cases hs : s.reverse with
  | nil => simp [trimEnd, List.reverse_eq_nil_iff.1 hs]
  | cons c cs =>
    have hc : isBlank c = false := h c (by rw [← List.head?_reverse, hs]; rfl)
    rw [trimEnd, hs, List.dropWhile_cons_of_neg (by simp [hc]), ← hs, List.reverse_reverse]

/-- A text that ends in no blank loses only the blanks that it begins with. -/
theorem blanks_append_trim {s : List Char} (h : ∀ c, s.getLast? = some c → isBlank c = false) :
    s.takeWhile isBlank ++ trim s = s := by
  have hs : trimEnd (trimStart s) = trimStart s := by
    refine trimEnd_eq_self fun c hc => h c ?_
    obtain ⟨p, hp⟩ := trimStart_suffix s
    rw [← hp, List.getLast?_append, hc]
    rfl
  rw [trim, hs]
  exact List.takeWhile_append_dropWhile

/-- A trimmed text neither begins nor ends in a blank. -/
theorem trim_eq_self_iff {s : List Char} :
    trim s = s ↔ (∀ c, s.head? = some c → isBlank c = false) ∧
      ∀ c, s.getLast? = some c → isBlank c = false := by
  constructor
  · intro h
    exact ⟨fun c hc => isBlank_head_trim (h.symm ▸ hc),
      fun c hc => isBlank_getLast_trimEnd (s := trimStart s) (by rwa [← trim, h])⟩
  · intro h
    obtain ⟨hhead, hlast⟩ := h
    have hnone : s.takeWhile isBlank = [] := by
      cases s with
      | nil => rfl
      | cons c cs => exact List.takeWhile_cons_of_neg (by simp [hhead c rfl])
    simpa [hnone] using blanks_append_trim hlast

theorem trim_trim (s : List Char) : trim (trim s) = trim s :=
  trim_eq_self_iff.2 ⟨fun _ hc => isBlank_head_trim hc, fun _ hc => isBlank_getLast_trimEnd hc⟩

theorem trim_eq_nil_iff {s : List Char} : trim s = [] ↔ ∀ c ∈ s, isBlank c = true := by
  constructor
  · intro h
    cases hs : trimStart s with
    | nil => exact List.dropWhile_eq_nil_iff.1 hs
    | cons c cs =>
      have hc : isBlank c = false := by
        have hd := List.head?_dropWhile_not isBlank s
        rw [← trimStart, hs] at hd
        simpa using hd
      rw [trim, trimEnd, List.reverse_eq_nil_iff, List.dropWhile_eq_nil_iff] at h
      have := h c (by simp [hs])
      simp [hc] at this
  · intro h
    have hs : trimStart s = [] := List.dropWhile_eq_nil_iff.2 h
    simp [trim, trimEnd, hs]

theorem mem_of_mem_trimEnd {s : List Char} {c : Char} (h : c ∈ trimEnd s) : c ∈ s := by
  obtain ⟨t, ht⟩ := trimEnd_prefix s
  rw [← ht]
  exact List.mem_append_left t h

theorem mem_of_mem_trim {s : List Char} {c : Char} (h : c ∈ trim s) : c ∈ s :=
  (trimStart_suffix s).subset (mem_of_mem_trimEnd h)

/-- A text that does not begin with a blank keeps its first character. -/
theorem head?_trim {s : List Char} {c : Char} (h : s.head? = some c) (hc : isBlank c = false) :
    (trim s).head? = some c := by
  obtain ⟨cs, rfl⟩ : ∃ cs, s = c :: cs := List.head?_eq_some_iff.1 h
  have hstart : trimStart (c :: cs) = c :: cs := List.dropWhile_cons_of_neg (by simp [hc])
  have hne : trim (c :: cs) ≠ [] := by
    rw [Ne, trim_eq_nil_iff]
    intro hall
    simp [hall c List.mem_cons_self] at hc
  obtain ⟨d, ds, hd⟩ := List.exists_cons_of_ne_nil hne
  obtain ⟨rest, hrest⟩ := trimEnd_prefix (trimStart (c :: cs))
  rw [← trim, hd, hstart, List.cons_append, List.cons.injEq] at hrest
  rw [hd, hrest.1, List.head?_cons]

/-- A blank more at the end makes no difference to the trimmed text. -/
theorem trim_concat_blank (s : List Char) {c : Char} (hc : isBlank c = true) :
    trim (s ++ [c]) = trim s := by
  have hend (t : List Char) : trimEnd (t ++ [c]) = trimEnd t := by
    rw [trimEnd, List.reverse_concat, List.dropWhile_cons_of_pos hc, ← trimEnd]
  rw [trim, trimStart, List.dropWhile_append, ← trimStart]
  split
  · rename_i h
    rw [List.dropWhile_cons_of_pos hc, List.dropWhile_nil, trim, List.isEmpty_iff.1 h]
  · exact hend (trimStart s)

theorem cut_of_not_mem {sep : Char} {s : List Char} (h : sep ∉ s) : cut sep s = (s, none) := by
  induction s with
  | nil => rfl
  | cons c cs ih =>
    rw [List.mem_cons, not_or] at h
    rw [cut, if_neg (Ne.symm h.1), ih h.2]

theorem cut_append_cons {sep : Char} {s : List Char} (h : sep ∉ s) (t : List Char) :
    cut sep (s ++ sep :: t) = (s, some t) := by
  induction s with
  | nil => simp [cut]
  | cons c cs ih =>
    rw [List.mem_cons, not_or] at h
    rw [List.cons_append, cut, if_neg (Ne.symm h.1), ih h.2]

/-- The cut is where the first separator is, and nowhere if there is none. -/
theorem cut_eq_iff {sep : Char} {s p : List Char} {q : Option (List Char)} :
    cut sep s = (p, q) ↔ sep ∉ p ∧ s = p ++ (q.map (sep :: ·)).getD [] := by
  constructor
  · intro h
    have ha := cut_append sep s
    have hm := not_mem_cut sep s
    rw [h] at ha hm
    exact ⟨hm, ha.symm⟩
  · intro h
    obtain ⟨hp, rfl⟩ := h
    cases q with
    | none => simpa using cut_of_not_mem hp
    | some q => exact cut_append_cons hp q

theorem cut_eq_some_iff {sep : Char} {s p q : List Char} :
    cut sep s = (p, some q) ↔ sep ∉ p ∧ s = p ++ sep :: q :=
  cut_eq_iff

theorem cut_eq_none_iff {sep : Char} {s : List Char} : (cut sep s).2 = none ↔ sep ∉ s := by
  constructor
  · intro h
    have ha := cut_append sep s
    have hm := not_mem_cut sep s
    rw [h] at ha
    rwa [← ha, Option.map_none, Option.getD_none, List.append_nil]
  · intro h
    rw [cut_of_not_mem h]

theorem pieces_of_forall {sep : α → Bool} {s : List α} (h : ∀ c ∈ s, sep c = false) :
    pieces sep s = [s] := by
  induction s with
  | nil => rfl
  | cons c cs ih =>
    rw [pieces, if_neg (by simp [h c]), ih fun x hx => h x (List.mem_cons_of_mem c hx)]

theorem pieces_append_sep {sep : α → Bool} {c : α} (hc : sep c = true) (s t : List α) :
    pieces sep (s ++ c :: t) = pieces sep s ++ pieces sep t := by
  induction s with
  | nil => rw [List.nil_append, pieces, pieces, if_pos hc, List.singleton_append]
  | cons x xs ih =>
    rw [List.cons_append, pieces, pieces, ih]
    obtain ⟨p, ps, hp⟩ := List.exists_cons_of_ne_nil (pieces_ne_nil sep xs)
    rw [hp]
    cases sep x <;> rfl

theorem pieces_append_cons {sep : α → Bool} {s : List α} {c : α}
    (h : ∀ x ∈ s, sep x = false) (hc : sep c = true) (t : List α) :
    pieces sep (s ++ c :: t) = s :: pieces sep t := by
  rw [pieces_append_sep hc, pieces_of_forall h, List.singleton_append]

/-- What holds no separator is put before the first piece. -/
theorem pieces_append_of_forall {sep : α → Bool} {s t p : List α} {ps : List (List α)}
    (h : ∀ x ∈ s, sep x = false) (ht : pieces sep t = p :: ps) :
    pieces sep (s ++ t) = (s ++ p) :: ps := by
  induction s with
  | nil => exact ht
  | cons x xs ih =>
    rw [List.cons_append, pieces, if_neg (by simp [h x]),
      ih fun y hy => h y (List.mem_cons_of_mem x hy), List.cons_append]

/-- Pieces that hold no separator are found again in what they are joined to. -/
theorem pieces_join {sep : α → Bool} {c : α} (hc : sep c = true) {ps : List (List α)}
    (hne : ps ≠ []) (h : ∀ p ∈ ps, ∀ x ∈ p, sep x = false) : pieces sep (join c ps) = ps := by
  induction ps with
  | nil => exact absurd rfl hne
  | cons p ps ih =>
    have hp : ∀ x ∈ p, sep x = false := h p List.mem_cons_self
    cases ps with
    | nil => simpa [join, List.intercalate] using pieces_of_forall hp
    | cons q qs =>
      rw [join_cons_cons, pieces_append_cons hp hc,
        ih (List.cons_ne_nil q qs) fun r hr => h r (List.mem_cons_of_mem p hr)]

/-- Pieces that hold no separator, each ended by one, are found again before an empty piece. -/
theorem pieces_flatMap {sep : α → Bool} {c : α} (hc : sep c = true) {ps : List (List α)}
    (h : ∀ p ∈ ps, ∀ x ∈ p, sep x = false) : pieces sep (ps.flatMap (· ++ [c])) = ps ++ [[]] := by
  induction ps with
  | nil => rfl
  | cons p ps ih =>
    have hp : ∀ x ∈ p, sep x = false := h p List.mem_cons_self
    rw [List.flatMap_cons, List.append_assoc, List.singleton_append, pieces_append_cons hp hc,
      ih fun q hq => h q (List.mem_cons_of_mem p hq), List.cons_append]

theorem mem_join {sep c : α} {ps : List (List α)} (h : c ∈ join sep ps) :
    c = sep ∨ ∃ p ∈ ps, c ∈ p := by
  induction ps with
  | nil => simp [join, List.intercalate] at h
  | cons p ps ih =>
    cases ps with
    | nil => exact .inr ⟨p, List.mem_cons_self, by simpa [join, List.intercalate] using h⟩
    | cons q qs =>
      rw [join_cons_cons, List.mem_append, List.mem_cons] at h
      rcases h with h | h | h
      · exact .inr ⟨p, List.mem_cons_self, h⟩
      · exact .inl h
      · rcases ih h with h | ⟨r, hr, hc⟩
        · exact .inl h
        · exact .inr ⟨r, List.mem_cons_of_mem p hr, hc⟩

/-- A text starts with the separator exactly if its first piece is empty and it is not empty. -/
theorem head?_eq_sep_iff {sep : α → Bool} {c : α} (hc : ∀ x, sep x = true ↔ x = c) {s : List α} :
    s.head? = some c ↔ s ≠ [] ∧ ∃ rest, pieces sep s = [] :: rest := by
  cases s with
  | nil => simp
  | cons x xs =>
    by_cases hx : x = c
    · simp [pieces, (hc c).2 rfl, hx]
    · have hsep : sep x = false := Bool.eq_false_iff.2 fun h => hx ((hc x).1 h)
      obtain ⟨p, ps, hp⟩ := List.exists_cons_of_ne_nil (pieces_ne_nil sep xs)
      simp [pieces, hsep, hx, hp]

/-- What is joined from pieces starts with the separator only if the first of them is empty. -/
theorem head?_join_ne {sep : α → Bool} {c : α} (hc : ∀ x, sep x = true ↔ x = c)
    {ps : List (List α)} (h : ∀ p ∈ ps, ∀ x ∈ p, sep x = false) (hfirst : ∀ rest, ps ≠ [] :: rest) :
    (join c ps).head? ≠ some c := by
  intro hhead
  obtain ⟨hne, rest, hrest⟩ := (head?_eq_sep_iff hc).1 hhead
  by_cases hnil : ps = []
  · subst hnil
    exact hne rfl
  · rw [pieces_join ((hc c).2 rfl) hnil h] at hrest
    exact hfirst rest hrest

/-- Pieces of a kind that the empty one is not are found again in what the pieces are joined to. -/
theorem filter_pieces_join {sep : α → Bool} {c : α} (hc : sep c = true) {kind : List α → Bool}
    (hkind : kind [] = false) {ps : List (List α)} (h : ∀ p ∈ ps, ∀ x ∈ p, sep x = false) :
    (pieces sep (join c ps)).filter kind = ps.filter kind := by
  by_cases hne : ps = []
  · subst hne
    simp [join, pieces, hkind]
  · rw [pieces_join hc hne h]

/-- A text without blanks is one word. -/
theorem words_of_forall {s : List Char} (hne : s ≠ []) (h : ∀ c ∈ s, isBlank c = false) :
    words s = [s] := by
  rw [words, pieces_of_forall h]
  simp [hne]

end ServiceUnits.Text
