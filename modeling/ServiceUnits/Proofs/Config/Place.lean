import ServiceUnits.Proofs.Config.Steps

namespace ServiceUnits

open Text

namespace Config

/-- The lines of a text. -/
def lines (text : String) : List (List Char) := pieces isLineEnd text.toList

/-- The text of some lines. -/
def ofLines (ls : List (List Char)) : String := .ofList (join '\n' ls)

open Line

/-- The next line is a segment of a value: the line before it ends in an odd number of backslashes,
and opens a value or is a segment itself. -/
inductive InValue : List (List Char) → Prop
  | opened {ls : List (List Char)} {line : List Char} (h : OpensValue (trim line))
      (hc : EndsOdd (trim line)) : InValue (ls ++ [line])
  | goesOn {ls : List (List Char)} {line : List Char} (h : InValue ls)
      (hc : EndsOdd (trim line)) : InValue (ls ++ [line])

/-- The section of the next line: that of the last header outside a value. -/
inductive OpenSection : List (List Char) → String → Prop
  | top : OpenSection [] topLevel
  | header {ls : List (List Char)} {line name : List Char} (hv : ¬ InValue ls)
      (h : IsHeader (trim line) name) : OpenSection (ls ++ [line]) (.ofList name)
  | kept {ls : List (List Char)} {line : List Char} {s : String} (hs : OpenSection ls s)
      (h : InValue ls ∨ ∀ name, ¬ IsHeader (trim line) name) : OpenSection (ls ++ [line]) s

theorem exists_split_concat {ls : List (List Char)} {last : List Char}
    {Q : List (List Char) → List Char → Prop} :
    (∃ pre line post, ls ++ [last] = pre ++ line :: post ∧ Q pre line) ↔
      (∃ pre line post, ls = pre ++ line :: post ∧ Q pre line) ∨ Q ls last := by
  constructor
  · intro h
    obtain ⟨pre, line, post, e, h⟩ := h
    rcases List.eq_nil_or_concat post with rfl | ⟨front, x, rfl⟩
    · obtain ⟨rfl, e'⟩ := List.append_inj' e rfl
      exact .inr (List.singleton_inj.1 e' ▸ h)
    · have e' : ls ++ [last] = (pre ++ line :: front) ++ [x] := by simpa using e
      exact .inl ⟨pre, line, front, (List.append_inj' e' rfl).1, h⟩
  · intro h
    rcases h with ⟨pre, line, post, rfl, h⟩ | h
    · exact ⟨pre, line, post ++ [last], by simp, h⟩
    · exact ⟨ls, last, [], rfl, h⟩

/-- Of the lines with a property there is a first one. -/
theorem exists_first_split {ls : List (List Char)} {Q : List (List Char) → List Char → Prop}
    (h : ∃ pre line post, ls = pre ++ line :: post ∧ Q pre line) :
    ∃ pre line post, ls = pre ++ line :: post ∧ Q pre line ∧
      ∀ front l rest, pre = front ++ l :: rest → ¬ Q front l := by
  induction ls using List.reverseRecOn with
  | nil =>
    obtain ⟨pre, line, post, e, -⟩ := h
    simp at e
  | append_singleton ls last ih =>
    by_cases hls : ∃ pre line post, ls = pre ++ line :: post ∧ Q pre line
    · obtain ⟨pre, line, post, rfl, hfirst⟩ := ih hls
      exact ⟨pre, line, post ++ [last], by simp, hfirst⟩
    · have hlast : Q ls last := (exists_split_concat.1 h).resolve_left hls
      exact ⟨ls, last, [], rfl, hlast, fun front l rest e hq => hls ⟨front, l, rest, e, hq⟩⟩

theorem not_inValue_nil : ¬ InValue [] := by
  intro h
  generalize hls : ([] : List (List Char)) = ls at h
  cases h <;> simp at hls

theorem inValue_concat {ls : List (List Char)} {line : List Char} : InValue (ls ++ [line]) ↔
    EndsOdd (trim line) ∧ (InValue ls ∨ OpensValue (trim line)) := by
  constructor
  · intro h
    generalize he : ls ++ [line] = xs at h
    cases h with
    | opened h hc =>
      obtain ⟨rfl, e⟩ := List.append_inj' he rfl
      obtain rfl := List.singleton_inj.1 e
      exact ⟨hc, .inr h⟩
    | goesOn h hc =>
      obtain ⟨rfl, e⟩ := List.append_inj' he rfl
      obtain rfl := List.singleton_inj.1 e
      exact ⟨hc, .inl h⟩
  · intro h
    obtain ⟨hc, h | h⟩ := h
    · exact .goesOn h hc
    · exact .opened h hc

theorem openSection_concat {ls : List (List Char)} {line : List Char} {s : String}
    (h : OpenSection (ls ++ [line]) s) :
    (¬ InValue ls ∧ ∃ name, IsHeader (trim line) name ∧ s = .ofList name) ∨
      (OpenSection ls s ∧ (InValue ls ∨ ∀ name, ¬ IsHeader (trim line) name)) := by
  generalize he : ls ++ [line] = xs at h
  cases h with
  | top => simp at he
  | header hv h =>
    obtain ⟨rfl, e⟩ := List.append_inj' he rfl
    obtain rfl := List.singleton_inj.1 e
    exact .inl ⟨hv, _, h, rfl⟩
  | kept hs h =>
    obtain ⟨rfl, e⟩ := List.append_inj' he rfl
    obtain rfl := List.singleton_inj.1 e
    exact .inr ⟨hs, h⟩

theorem OpenSection.unique {ls : List (List Char)} {s t : String} (hs : OpenSection ls s)
    (ht : OpenSection ls t) : s = t := by
  induction hs generalizing t with
  | top =>
    generalize hls : ([] : List (List Char)) = ls at ht
    cases ht with
    | top => rfl
    | header | kept => simp at hls
  | header hv h =>
    rcases openSection_concat ht with ⟨-, name, hn, rfl⟩ | ⟨-, hk⟩
    · rw [h.unique hn]
    · exact absurd h (hk.resolve_left hv _)
  | kept _ h ih =>
    rcases openSection_concat ht with ⟨hv, name, hn, -⟩ | ⟨ht, -⟩
    · exact absurd hn (h.resolve_left hv name)
    · exact ih ht

theorem not_isLineEnd_of_mem_lines {text : String} {line : List Char} (h : line ∈ lines text) :
    ∀ c ∈ line, isLineEnd c = false := not_sep_of_mem_pieces h

theorem overlay_eq_run (c : Config) (text : String) :
    c.overlay text = (Reader.start c).run (lines text) := rfl

theorem lines_append (s t : String) : lines (s ++ "\n" ++ t) = lines s ++ lines t := by
  have htext : (s ++ "\n" ++ t).toList = s.toList ++ '\n' :: t.toList := by simp
  rw [lines, htext, pieces_append_sep (by decide), lines, lines]

/-- A text is read as the lines that it was made of. A text without lines has one that is blank. -/
theorem overlay_ofLines (c : Config) {ls : List (List Char)}
    (h : ∀ l ∈ ls, ∀ x ∈ l, isLineEnd x = false) :
    c.overlay (ofLines ls) = (Reader.start c).run ls := by
  rw [overlay_eq_run, lines, ofLines, String.toList_ofList]
  by_cases hls : ls = []
  · subst hls
    rfl
  · rw [pieces_join (by decide) hls h]

end Config

namespace Reader

open Line Config

/-- A reader knows its place: it holds a value when the next line is a segment, and the section that
is open. -/
theorem Reads.place {c : Config} {ls : List (List Char)} {r : Reader} (h : Reads c ls r) :
    (r.pending.isSome = true ↔ InValue ls) ∧ OpenSection ls r.current := by
  induction h with
  | start => exact ⟨by simp [Reader.start, not_inValue_nil], .top⟩
  | @snoc ls line r s _ hs ih =>
    obtain ⟨hv, hsec⟩ := ih
    rw [inValue_concat]
    cases hs with
    | idle hp h =>
      have hno : ¬ InValue ls := by rw [← hv, hp]; simp
      have hnh : ∀ name, ¬ IsHeader (trim line) name := by
        intro name h
        obtain ⟨-, e⟩ := h
        simp [e, IsComment] at h
      refine ⟨?_, .kept hsec (.inr hnh)⟩
      simp only [hp, Option.isSome_none, Bool.false_eq_true, hno, false_or, false_iff]
      intro h
      obtain ⟨-, key, value, hk, -⟩ := h
      exact h.elim (fun e => by simp [hk.eq_append] at e) hk.not_comment
    | header hp h =>
      have hno : ¬ InValue ls := by rw [← hv, hp]; simp
      refine ⟨?_, .header hno h⟩
      simp only [hp, Option.isSome_none, Bool.false_eq_true, hno, false_or, false_iff]
      intro h
      obtain ⟨-, key, value, hk, -⟩ := h
      exact hk.not_header _ h
    | clears hp h ht =>
      have hno : ¬ InValue ls := by rw [← hv, hp]; simp
      refine ⟨?_, .kept hsec (.inr h.not_header)⟩
      simp only [hp, Option.isSome_none, Bool.false_eq_true, hno, false_or, false_iff]
      intro h
      obtain ⟨-, key, value, hk, hne⟩ := h
      exact hne ((hk.unique h).2 ▸ ht)
    | whole hp h ht hc =>
      have hno : ¬ InValue ls := by rw [← hv, hp]; simp
      refine ⟨?_, .kept hsec (.inr h.not_header)⟩
      simp only [hp, Option.isSome_none, Bool.false_eq_true, false_iff]
      exact fun hx => hc (h.endsOdd_iff.1 hx.1)
    | opens hp h ht hc =>
      refine ⟨?_, .kept hsec (.inr h.not_header)⟩
      simp only [Option.isSome_some, true_iff]
      exact ⟨h.endsOdd_iff.2 hc, .inr ⟨_, _, h, ht⟩⟩
    | goesOn hp hc =>
      have hin : InValue ls := by rw [← hv, hp]; rfl
      refine ⟨?_, .kept hsec (.inl hin)⟩
      simp only [Option.isSome_some, true_iff]
      exact ⟨hc, .inl hin⟩
    | ends hp hc =>
      have hin : InValue ls := by rw [← hv, hp]; rfl
      refine ⟨?_, .kept hsec (.inl hin)⟩
      simp only [Option.isSome_none, Bool.false_eq_true, false_iff]
      exact fun hx => hc hx.1

theorem Reads.pending_eq_none_iff {c : Config} {ls : List (List Char)} {r : Reader}
    (h : Reads c ls r) : r.pending = none ↔ ¬ InValue ls := by
  rw [← h.place.1]
  simp

end Reader
end ServiceUnits
