import ServiceUnits.Proofs.Config.Appending
import ServiceUnits.Proofs.Config.Overlay

namespace ServiceUnits

open Text

namespace Config

open Line Reader

/-- What a line gives to its value: all of it, or what stands before its last backslash. -/
def segmentOf (s : List Char) : List Char := if EndsOdd s then trimEnd s.dropLast else s

/-- The parts of a value, one for each line: what stands behind the `=`, trimmed, and then the
trimmed lines. -/
def valueParts (first : List Char) (more : List (List Char)) : List (List Char) :=
  first :: more.map trim

/-- The value in one text. -/
def wholeValue (first : List Char) (more : List (List Char)) : List Char :=
  trim (join ' ' ((valueParts first more).map segmentOf))

/-- The value that begins with `first` goes on with the lines `more` and no further, if the lines
after them are `post`. -/
inductive Spans (first : List Char) : List (List Char) → List (List Char) → Prop
  | whole {post : List (List Char)} (h : ¬ EndsOdd first) : Spans first [] post
  | ended {more post : List (List Char)} {last : List Char}
      (h : ∀ s ∈ valueParts first more, EndsOdd s) (hlast : ¬ EndsOdd (trim last)) :
      Spans first (more ++ [last]) post
  | cutOff {more : List (List Char)} (h : ∀ s ∈ valueParts first more, EndsOdd s) :
      Spans first more []

theorem segmentOf_of_endsOdd {s : List Char} (h : EndsOdd s) : segmentOf s = trimEnd s.dropLast :=
  if_pos h

theorem segmentOf_of_not_endsOdd {s : List Char} (h : ¬ EndsOdd s) : segmentOf s = s := if_neg h

theorem valueParts_concat (first : List Char) (more : List (List Char)) (line : List Char) :
    valueParts first (more ++ [line]) = valueParts first more ++ [trim line] := by
  rw [valueParts, List.map_append, List.map_singleton, ← List.cons_append, valueParts]

/-- Every assignment spans some of the lines after it, none of them or all of them included. -/
theorem exists_spans (first : List Char) (rest : List (List Char)) :
    ∃ more post, rest = more ++ post ∧ Spans first more post := by
  -- The lines that are known to belong to the value grow at their end while the rest is taken off.
  have hgrow (more : List (List Char)) (h : ∀ s ∈ valueParts first more, EndsOdd s) :
      ∃ lines post, more ++ rest = lines ++ post ∧ Spans first lines post := by
    induction rest generalizing more with
    | nil => exact ⟨more, [], rfl, .cutOff h⟩
    | cons line rest ih =>
      by_cases hline : EndsOdd (trim line)
      · have hmore : ∀ s ∈ valueParts first (more ++ [line]), EndsOdd s := by
          rw [valueParts_concat, List.forall_mem_append, List.forall_mem_singleton]
          exact ⟨h, hline⟩
        obtain ⟨lines, post, hlines, hspans⟩ := ih (more ++ [line]) hmore
        rw [List.append_assoc, List.singleton_append] at hlines
        exact ⟨lines, post, hlines, hspans⟩
      · refine ⟨more ++ [line], rest, ?_, .ended h hline⟩
        rw [List.append_assoc, List.singleton_append]
  by_cases hfirst : EndsOdd first
  · exact hgrow [] (List.forall_mem_singleton.2 hfirst)
  · exact ⟨[], rest, rfl, .whole hfirst⟩

end Config

namespace Reader

open Config Line

variable {c : Config} {pre : List (List Char)} {line key value : List Char} {r : Reader}

/-- A value goes on as long as its parts end in an odd number of backslashes. -/
theorem Reads.unfinished (hr : Reads c pre r) (hp : r.pending = none)
    (hk : IsProperty (trim line) key value) (hne : trim value ≠ []) {more : List (List Char)}
    (hodd : ∀ s ∈ valueParts (trim value) more, EndsOdd s) :
    Reads c (pre ++ line :: more) { r with
      pending := some ⟨.ofList (trim key), (valueParts (trim value) more).map segmentOf⟩ } := by
  induction more using List.reverseRecOn with
  | nil =>
    have hfirst : EndsOdd (trim value) := hodd _ List.mem_cons_self
    have hopen := hr.snoc (.opens hp hk hne hfirst)
    rwa [← segmentOf_of_endsOdd hfirst] at hopen
  | append_singleton more last ih =>
    rw [valueParts_concat, List.forall_mem_append, List.forall_mem_singleton] at hodd
    have hmore := (ih hodd.1).snoc (.goesOn rfl hodd.2)
    rw [← segmentOf_of_endsOdd hodd.2] at hmore
    rw [valueParts_concat, List.map_append, List.map_singleton]
    rwa [List.append_assoc, List.cons_append] at hmore

/-- What an assignment does once all its lines are read: it clears the key if nothing stands behind
the `=`, and adds the value in one text otherwise. -/
theorem Reads.assignment (hr : Reads c pre r) (hp : r.pending = none)
    (hk : IsProperty (trim line) key value) {more post : List (List Char)}
    (hspans : Spans (trim value) more post) : ∃ s, Reads c (pre ++ line :: more) s ∧
      s.commit.config = if trim value = [] then r.config.reset r.current (.ofList (trim key))
        else r.config.append r.current (.ofList (trim key))
          (.ofList (wholeValue (trim value) more)) := by
  obtain ⟨config, current, pending⟩ := r
  obtain rfl : pending = none := hp
  by_cases hne : trim value = []
  · have hnil : ¬ EndsOdd (trim value) := by rw [hne]; decide
    rw [if_pos hne]
    cases hspans with
    | whole => exact ⟨_, hr.snoc (.clears rfl hk hne), rfl⟩
    | ended h | cutOff h => exact absurd (h _ List.mem_cons_self) hnil
  · rw [if_neg hne]
    cases hspans with
    | whole h =>
      have hvalue : wholeValue (trim value) [] = trim value := by
        rw [wholeValue, valueParts, List.map_nil, List.map_singleton, segmentOf_of_not_endsOdd h]
        simpa [join, List.intercalate] using trim_trim value
      exact ⟨_, hr.snoc (.whole rfl hk hne h), by rw [hvalue]; rfl⟩
    | @ended more _ last h hlast =>
      have hend := (hr.unfinished rfl hk hne h).snoc (.ends rfl hlast)
      rw [List.append_assoc, List.cons_append] at hend
      refine ⟨_, hend, ?_⟩
      rw [wholeValue, valueParts_concat, List.map_append, List.map_singleton,
        segmentOf_of_not_endsOdd hlast]
      rfl
    | cutOff h => exact ⟨_, hr.unfinished rfl hk hne h, rfl⟩

/-- A value that is not complete belongs to an assignment among the lines, and the lines after that
one have given all its further segments. -/
theorem Reads.exists_assignment {ls : List (List Char)} (h : Reads c ls r) {p : Pending}
    (hp : r.pending = some p) : ∃ pre line more first, ls = pre ++ line :: more ∧ WellFormed pre ∧
      AssignedAt (· = first) pre line r.current p.key ∧ first ≠ [] ∧
      (∀ s ∈ valueParts first more, EndsOdd s) ∧
      p.segments = (valueParts first more).map segmentOf := by
  induction h generalizing p with
  | start => cases hp
  | @snoc ls line r s hr hs ih =>
    cases hs with
    | idle hnone => rw [hnone] at hp; cases hp
    | header hnone => rw [hnone] at hp; cases hp
    | clears hnone => rw [hnone] at hp; cases hp
    | whole hnone => rw [hnone] at hp; cases hp
    | @opens key value hnone hk hne hodd =>
      obtain rfl := Option.some.inj hp
      have hassigned : AssignedAt (· = trim value) ls line r.current (.ofList (trim key)) :=
        ⟨hr.pending_eq_none_iff.1 hnone, hr.place.2, key, value, hk, rfl, rfl⟩
      refine ⟨ls, line, [], trim value, rfl, hr.wellFormed, hassigned, hne, ?_, ?_⟩
      · exact List.forall_mem_singleton.2 hodd
      · exact congrArg (fun s => [s]) (segmentOf_of_endsOdd hodd).symm
    | @goesOn q hq hodd =>
      obtain rfl := Option.some.inj hp
      obtain ⟨pre, l, more, first, rfl, hw, ha, hne, hall, hsegments⟩ := ih hq
      refine ⟨pre, l, more ++ [line], first, by simp, hw, ha, hne, ?_, ?_⟩
      · rw [valueParts_concat, List.forall_mem_append, List.forall_mem_singleton]
        exact ⟨hall, hodd⟩
      · rw [valueParts_concat, List.map_append, List.map_singleton, segmentOf_of_endsOdd hodd,
          ← hsegments]
    | ends => cases hp

end Reader

namespace Config

open Line Reader

/-- One of the lines assigns an empty value to the key, but something stands behind its `=`: a
backslash, after which nothing but blanks and backslashes is there in the lines of the value. -/
def BlankAt (ls : List (List Char)) (s k : String) : Prop :=
  ∃ pre line more post first, ls = pre ++ line :: (more ++ post) ∧ WellFormed pre ∧
    AssignedAt (· = first) pre line s k ∧ first ≠ [] ∧ Spans first more post ∧
    wholeValue first more = []

/-- An empty value that is complete has come from such an assignment, whatever lines are still to
come. -/
theorem blankAt_of_reads {c : Config} {ls : List (List Char)} {r : Reader} (h : Reads c ls r)
    {s k : String} (he : r.config.HasValue s k "") :
    c.HasValue s k "" ∨ ∀ rest, BlankAt (ls ++ rest) s k := by
  induction h with
  | start => exact .inl he
  | @snoc ls line r t hr hs ih =>
    have hbefore (hold : r.config.HasValue s k "") :
        c.HasValue s k "" ∨ ∀ rest, BlankAt (ls ++ [line] ++ rest) s k := by
      refine (ih hold).imp_right fun h rest => ?_
      rw [List.append_assoc]
      exact h ([line] ++ rest)
    cases hs with
    | idle | opens | goesOn => exact hbefore he
    | header => exact hbefore (hasValue_openSection.1 he)
    | clears => exact hbefore (hasValue_reset.1 he).1
    | @whole key value hp hk hne hodd =>
      rcases hasValue_append.1 he with hold | ⟨-, -, hempty⟩
      · exact hbefore hold
      · exact absurd (String.ofList_eq_empty_iff.1 hempty.symm) hne
    | @ends p hp hodd =>
      rcases hasValue_append.1 he with hold | ⟨rfl, rfl, hempty⟩
      · exact hbefore hold
      · obtain ⟨pre, l, more, first, rfl, hw, ha, hne, hall, hsegments⟩ := hr.exists_assignment hp
        refine .inr fun rest => ⟨pre, l, more ++ [line], rest, first, by simp, hw, ha, hne,
          .ended hall hodd, ?_⟩
        rw [wholeValue, valueParts_concat, List.map_append, List.map_singleton,
          segmentOf_of_not_endsOdd hodd, ← hsegments]
        exact String.ofList_eq_empty_iff.1 hempty.symm

/-- Reading adds an empty value only for such an assignment. -/
theorem blankAt_of_overlay {c : Config} {text s k : String}
    (he : (c.overlay text).1.HasValue s k "") : c.HasValue s k "" ∨ BlankAt (lines text) s k := by
  rw [overlay_eq_run] at he
  rcases reads_or_malformed c (lines text) with ⟨r, hr⟩ | ⟨pre, line, post, r, e, hr, hp, hm⟩
  · rw [hr.run_eq] at he
    have hwhole (h : r.config.HasValue s k "") : c.HasValue s k "" ∨ BlankAt (lines text) s k := by
      refine (blankAt_of_reads hr h).imp_right fun hblank => ?_
      rw [← List.append_nil (lines text)]
      exact hblank []
    cases hp : r.pending with
    | none => exact hwhole (by simpa only [commit, hp] using he)
    | some p =>
      simp only [commit, hp] at he
      rcases hasValue_append.1 he with hold | ⟨rfl, rfl, hempty⟩
      · exact hwhole hold
      · obtain ⟨pre, l, more, first, e, hw, ha, hne, hall, hsegments⟩ := hr.exists_assignment hp
        refine .inr ⟨pre, l, more, [], first, by rw [List.append_nil, e], hw, ha, hne, .cutOff hall,
          ?_⟩
        rw [wholeValue, ← hsegments]
        exact String.ofList_eq_empty_iff.1 hempty.symm
  · rw [e, hr.run_malformed hp hm] at he
    exact e ▸ (blankAt_of_reads hr he).imp_right fun hblank => hblank (line :: post)

/-- The lines of an assignment, read as if the text ended with them. -/
theorem overlay_assignment (c : Config) {text : String} {pre more post : List (List Char)}
    {line first : List Char} {s k : String} (htext : lines text = pre ++ line :: (more ++ post))
    (hpre : WellFormed pre) (ha : AssignedAt (· = first) pre line s k)
    (hspans : Spans first more post) :
    ∃ before after, c.overlay (ofLines pre) = (before, .ok ()) ∧
      c.overlay (ofLines (pre ++ line :: more)) = (after, .ok ()) ∧
      after = if first = [] then before.reset s k
        else before.append s k (.ofList (wholeValue first more)) := by
  have hends : ∀ l ∈ pre ++ line :: more, ∀ x ∈ l, isLineEnd x = false := by
    intro l hl
    have hmem : l ∈ lines text := by
      rw [htext, ← List.cons_append, ← List.append_assoc]
      exact List.mem_append_left _ hl
    exact not_isLineEnd_of_mem_lines hmem
  obtain ⟨hno, hsection, key, value, hk, rfl, rfl⟩ := ha
  obtain ⟨r, hr⟩ := reads_of_wellFormed c hpre
  have hp : r.pending = none := hr.pending_eq_none_iff.2 hno
  obtain rfl : r.current = s := hr.place.2.unique hsection
  have hbefore : c.overlay (ofLines pre) = (r.config, .ok ()) := by
    rw [overlay_ofLines c fun l hl => hends l (List.mem_append_left _ hl), hr.run_eq, commit, hp]
  obtain ⟨t, ht, hafter⟩ := hr.assignment hp hk hspans
  refine ⟨r.config, t.commit.config, hbefore, ?_, hafter⟩
  rw [overlay_ofLines c hends, ht.run_eq]

/-- An assignment outside a value whose whole value is empty clears its key exactly when nothing
stands behind its `=`. Otherwise the key keeps its values and has an empty one after them. Reading
never stores an empty value but for an assignment of the second kind. -/
theorem clears_iff_nothing_behind (c : Config) (text : String) :
    (∀ pre line more post s k first, lines text = pre ++ line :: (more ++ post) →
      WellFormed pre → AssignedAt (· = first) pre line s k → Spans first more post →
      wholeValue first more = [] →
      ∃ before after, c.overlay (ofLines pre) = (before, .ok ()) ∧
        c.overlay (ofLines (pre ++ line :: more)) = (after, .ok ()) ∧
        (after.values? s k = some [] ↔ first = []) ∧
        after = if first = [] then before.reset s k else before.append s k "") ∧
    ∀ s k, (c.overlay text).1.HasValue s k "" → c.HasValue s k "" ∨ BlankAt (lines text) s k := by
  refine ⟨?_, fun s k he => blankAt_of_overlay he⟩
  intro pre line more post s k first htext hpre ha hspans hempty
  obtain ⟨before, after, hbefore, hafter, heq⟩ := overlay_assignment c htext hpre ha hspans
  rw [hempty] at heq
  refine ⟨before, after, hbefore, hafter, ?_, heq⟩
  by_cases hfirst : first = []
  · rw [if_pos hfirst] at heq
    rw [heq, values?_reset, if_pos ⟨rfl, rfl⟩]
    exact iff_of_true rfl hfirst
  · rw [if_neg hfirst] at heq
    rw [heq, values?_append, if_pos ⟨rfl, rfl⟩]
    simp [hfirst]

/-- A key with a value, and then with a backslash and a blank line in place of one. -/
def blankText : String := "Wants=a\nWants=\\\n"

theorem lines_blankText :
    lines blankText = ["Wants=a".toList] ++ "Wants=\\".toList :: ([[]] ++ []) := by decide +kernel

theorem assignedAt_blankText :
    AssignedAt (· = ['\\']) ["Wants=a".toList] "Wants=\\".toList topLevel "Wants" := by
  have hvalue : ¬ InValue ([] ++ ["Wants=a".toList]) := by
    rw [inValue_concat]
    exact fun h => absurd h.1 (by decide)
  have hopen : OpenSection ([] ++ ["Wants=a".toList]) topLevel :=
    .kept .top (.inr (headerName?_eq_none_iff.1 (by decide)))
  have hproperty : IsProperty (trim "Wants=\\".toList) "Wants".toList ['\\'] :=
    ⟨by decide, headerName?_eq_none_iff.1 (by decide), by decide, by decide, by decide⟩
  exact ⟨hvalue, hopen, _, _, hproperty, by decide, by decide⟩

theorem spans_blankText : Spans ['\\'] [[]] [] :=
  @Spans.ended ['\\'] [] [] [] (by decide) (by decide)

/-- The value is empty and the key is not cleared. -/
theorem blankText_keeps_values :
    lines blankText = ["Wants=a".toList] ++ "Wants=\\".toList :: ([[]] ++ []) ∧
      AssignedAt (· = ['\\']) ["Wants=a".toList] "Wants=\\".toList topLevel "Wants" ∧
      Spans ['\\'] [[]] [] ∧ wholeValue ['\\'] [[]] = [] ∧
      (empty.overlay blankText).1.values? topLevel "Wants" = some ["a", ""] :=
  ⟨lines_blankText, assignedAt_blankText, spans_blankText, by decide, by decide +kernel⟩

theorem blankText_not_cleared : ∃ before after, empty.overlay "Wants=a" = (before, .ok ()) ∧
    empty.overlay blankText = (after, .ok ()) ∧ after = before.append topLevel "Wants" "" ∧
    BlankAt (lines blankText) topLevel "Wants" := by
  have hpre : WellFormed ["Wants=a".toList] := (run_eq_ok_iff empty).1 (by decide +kernel)
  obtain ⟨hassigned, hstored⟩ := clears_iff_nothing_behind empty blankText
  obtain ⟨before, after, hbefore, hafter, -, heq⟩ := hassigned _ _ _ _ _ _ _ lines_blankText hpre
    assignedAt_blankText spans_blankText (by decide)
  have htext : ofLines (["Wants=a".toList] ++ "Wants=\\".toList :: [[]]) = blankText := by
    decide +kernel
  have hfirst : ofLines ["Wants=a".toList] = "Wants=a" := by decide
  rw [htext] at hafter
  rw [hfirst] at hbefore
  rw [if_neg (by decide)] at heq
  have hvalues : (empty.overlay blankText).1.values? topLevel "Wants" = some ["a", ""] := by
    decide +kernel
  have hempty : (empty.overlay blankText).1.HasValue topLevel "Wants" "" := by
    rw [HasValue, hvalues]
    decide
  exact ⟨before, after, hbefore, hafter, heq,
    (hstored _ _ hempty).resolve_left List.not_mem_nil⟩

end Config

end ServiceUnits
