import Mathlib.Data.List.Chain
import ServiceUnits.Proofs.Config.Overlay

namespace ServiceUnits

namespace Text

/-- The text with a carriage return before each line feed. -/
def withReturns (s : List Char) : List Char :=
  s.flatMap fun c => if c = '\n' then ['\r', '\n'] else [c]

/-- Pieces with an empty one before each of them. -/
def spaced (ps : List (List Char)) : List (List Char) := ps.flatMap fun p => [[], p]

/-- The number of characters that are not blank. -/
def inked (s : List Char) : Nat := s.countP (!isBlank ·)

theorem spaced_append (ps qs : List (List Char)) : spaced (ps ++ qs) = spaced ps ++ spaced qs :=
  List.flatMap_append

theorem spaced_cons (p : List Char) (ps : List (List Char)) :
    spaced (p :: ps) = [] :: p :: spaced ps := rfl

theorem spaced_concat (ps : List (List Char)) (p : List Char) :
    spaced (ps ++ [p]) = spaced ps ++ [[]] ++ [p] := by
  rw [spaced_append, List.append_assoc]
  rfl

theorem inked_append (s t : List Char) : inked (s ++ t) = inked s + inked t := List.countP_append

theorem inked_eq_zero_iff {s : List Char} : inked s = 0 ↔ ∀ c ∈ s, isBlank c = true := by
  simp [inked, List.countP_eq_zero]

theorem inked_reverse (s : List Char) : inked s.reverse = inked s := by
  simp [inked]

theorem inked_trimStart (s : List Char) : inked (trimStart s) = inked s := by
  have hblank : inked (s.takeWhile isBlank) = 0 :=
    inked_eq_zero_iff.2 fun c hc => List.mem_takeWhile_imp hc
  have hsplit : s = s.takeWhile isBlank ++ trimStart s := List.takeWhile_append_dropWhile.symm
  calc inked (trimStart s)
      = inked (s.takeWhile isBlank) + inked (trimStart s) := by omega
    _ = inked s := by rw [← inked_append, ← hsplit]

theorem inked_trimEnd (s : List Char) : inked (trimEnd s) = inked s := by
  rw [trimEnd, inked_reverse, ← trimStart, inked_trimStart, inked_reverse]

/-- Trimming takes blanks away and nothing else. -/
theorem inked_trim (s : List Char) : inked (trim s) = inked s := by
  rw [trim, inked_trimEnd, inked_trimStart]

theorem inked_join_concat (ps : List (List Char)) (p : List Char) :
    inked (join ' ' (ps ++ [p])) = inked (join ' ' ps) + inked p := by
  induction ps with
  | nil => simp [join, List.intercalate, inked]
  | cons q qs ih =>
    have hspace : inked [' '] = 0 := by decide
    have hlink (r : List Char) (rs : List (List Char)) :
        inked (join ' ' (q :: r :: rs)) = inked q + inked (join ' ' (r :: rs)) := by
      rw [join_cons_cons, inked_append, ← List.singleton_append, inked_append, hspace]
      omega
    cases qs with
    | nil =>
      have hp : inked (join ' ' [p]) = inked p := by simp [join, List.intercalate]
      have hq : inked (join ' ' [q]) = inked q := by simp [join, List.intercalate]
      rw [List.singleton_append, hlink, hp, hq]
    | cons r rs =>
      rw [List.cons_append] at ih
      rw [List.cons_append, List.cons_append, hlink, hlink, ih]
      omega

end Text

open Text

namespace Config

open Line Reader

/-- The same lines, each ended by a carriage return and a line feed. -/
def withReturns (text : String) : String := .ofList (Text.withReturns text.toList)

/-- Between two lines of the one spelling there is an empty line in the other. -/
theorem pieces_withReturns {s : List Char} (h : '\r' ∉ s) :
    [] :: pieces isLineEnd (Text.withReturns s) = spaced (pieces isLineEnd s) := by
  induction s with
  | nil => rfl
  | cons c cs ih =>
    rw [List.mem_cons, not_or] at h
    have ih := ih h.2
    by_cases hc : c = '\n'
    · subst hc
      have hr : isLineEnd '\r' = true := by decide
      have hn : isLineEnd '\n' = true := by decide
      have hpieces : pieces isLineEnd (Text.withReturns ('\n' :: cs)) =
          [] :: [] :: pieces isLineEnd (Text.withReturns cs) := by
        simp [Text.withReturns, pieces, hr, hn]
      rw [hpieces, pieces, if_pos hn, spaced_cons, ih]
    · have hno : isLineEnd c = false := by simp [isLineEnd, hc, Ne.symm h.1]
      have hcons : Text.withReturns (c :: cs) = c :: Text.withReturns cs := by
        simp [Text.withReturns, hc]
      obtain ⟨p, ps, hp⟩ := List.exists_cons_of_ne_nil (pieces_ne_nil isLineEnd cs)
      rw [hp, spaced_cons, List.cons.injEq] at ih
      rw [hcons, pieces, if_neg (by simp [hno]), ih.2, pieces, if_neg (by simp [hno]), hp]
      rfl

/-- The other spelling is read as the same lines with empty ones between them. -/
theorem overlay_withReturns (c : Config) {text : String} (h : '\r' ∉ text.toList) :
    c.overlay (withReturns text) = (Reader.start c).run (spaced (lines text)) := by
  have hlines : [] :: lines (withReturns text) = spaced (lines text) := by
    rw [lines, withReturns, String.toList_ofList]
    exact pieces_withReturns h
  have hidle : (Reader.start c).step [] = .ok (Reader.start c) := rfl
  rw [overlay_eq_run, ← hlines, run, hidle]

/-- No value has text in a second line: a line inside a value is blank. Only the lines that are read
count, those up to the first that is malformed. -/
def ValuesInOneLine (ls : List (List Char)) : Prop :=
  ∀ pre line post, ls = pre ++ line :: post → WellFormed pre → InValue pre → trim line = []

theorem ValuesInOneLine.left {ls ms : List (List Char)} (h : ValuesInOneLine (ls ++ ms)) :
    ValuesInOneLine ls := by
  intro pre line post e
  exact h pre line (post ++ ms) (by rw [e, List.append_assoc, List.cons_append])

end Config

namespace Reader

open Line Config

/-- After the same lines the same has been read. An empty line ends a value where the blank line
after it would end it, and changes nothing outside a value. -/
theorem Reads.spaced {c : Config} {ls : List (List Char)} {r : Reader} (h : Reads c ls r)
    (hone : ValuesInOneLine ls) : Reads c (spaced ls) r := by
  induction h with
  | start => exact .start
  | @snoc ls line r s hr hs ih =>
    have hls : Reads c (Text.spaced ls) r := ih hone.left
    rw [spaced_concat]
    cases hp : r.pending with
    | none => exact (hls.snoc (.idle hp (.inl rfl))).snoc hs
    | some p =>
      have hv : InValue ls := hr.place.1.1 (by rw [hp]; rfl)
      have hblank : trim line = [] := hone ls line [] rfl hr.wellFormed hv
      have hodd : ¬ EndsOdd (trim line) := by rw [hblank]; decide
      have hends : Step r line _ := .ends hp hodd
      have hempty : Step r [] _ := .ends hp (by decide)
      rw [hblank] at hends
      have hs' := hs.eq_ok.symm.trans hends.eq_ok
      rw [Except.ok.inj hs']
      exact (hls.snoc hempty).snoc (.idle rfl (.inl hblank))

/-- A segment with a backslash to take away has text, unless the backslash is the whole line, which
is malformed outside a value. -/
theorem inked_segment_pos {raw : List Char} (hc : EndsOdd (trim raw))
    (hm : ¬ IsMalformed (trim raw)) : 0 < inked (trimEnd (trim raw).dropLast) := by
  by_contra hzero
  rw [inked_trimEnd, Nat.not_lt, Nat.le_zero, inked_eq_zero_iff] at hzero
  obtain ⟨body, n, heq, -⟩ := hc
  have hlast : trim raw = (trim raw).dropLast ++ ['\\'] := by
    rw [heq, List.replicate_succ', ← List.append_assoc, List.dropLast_concat]
  cases hd : (trim raw).dropLast with
  | nil =>
    rw [hd] at hlast
    refine hm ⟨by simp [hlast], ?_, ?_, .inl (by simp [hlast])⟩
    · simp [IsComment, hlast]
    · intro name h
      simp [h.2] at hlast
  | cons x xs =>
    have hblank : isBlank x = true := hzero x (by rw [hd]; exact List.mem_cons_self)
    have hink : isBlank x = false := isBlank_head_trim (s := raw) (by rw [hlast, hd]; rfl)
    rw [hblank] at hink
    cases hink

/-- A line with text that is read inside a value adds to the text of the value. -/
theorem Step.value_grows {r s : Reader} {raw : List Char} {p : Pending} (hs : Step r raw s)
    (hp : r.pending = some p) (hne : trim raw ≠ []) (hm : ¬ IsMalformed (trim raw)) :
    ∃ value : String, s.commit.config = r.config.append r.current p.key value ∧
      inked (join ' ' p.segments) < inked value.toList := by
  have grows (segment : List Char) (h : 0 < inked segment) : inked (join ' ' p.segments) <
      inked (Pending.value { p with segments := p.segments ++ [segment] }).toList := by
    rw [Pending.value, String.toList_ofList, inked_trim, inked_join_concat]
    omega
  cases hs with
  | goesOn hq hc =>
    obtain rfl := Option.some.inj (hp.symm.trans hq)
    exact ⟨_, rfl, grows _ (inked_segment_pos hc hm)⟩
  | ends hq hc =>
    obtain rfl := Option.some.inj (hp.symm.trans hq)
    refine ⟨_, rfl, grows _ (Nat.pos_of_ne_zero fun hzero => hne ?_)⟩
    rw [inked_trim, inked_eq_zero_iff] at hzero
    exact trim_eq_nil_iff.2 hzero
  | idle hq | header hq | clears hq | whole hq | opens hq =>
    rw [hp] at hq
    cases hq

/-- One line outside a value leaves the values of a key of the open section, or clears them, or adds
one more. -/
theorem Step.values?_commit {r s : Reader} {raw : List Char} (hs : Step r raw s)
    (hp : r.pending = none) (key : String) :
    let before := r.config.values? r.current key
    let after := s.commit.config.values? r.current key
    after = before ∨ after = some [] ∨ ∃ value, after = some (before.getD [] ++ [value]) := by
  have unchanged {d : Config} (h : d.values? r.current key = r.config.values? r.current key)
      (current : String) : (commit ⟨d, current, r.pending⟩).config.values? r.current key =
        r.config.values? r.current key := by
    rw [hp]
    exact h
  have appended (k value : String) :
      let after := (r.config.append r.current k value).values? r.current key
      after = r.config.values? r.current key ∨ after = some [] ∨
        ∃ value, after = some ((r.config.values? r.current key).getD [] ++ [value]) := by
    intro after
    by_cases hk : key = k
    · exact .inr (.inr ⟨value, by simp [after, values?_append, hk]⟩)
    · exact .inl (by simp [after, values?_append, hk])
  cases hs with
  | idle => exact .inl (unchanged rfl _)
  | header => exact .inl (unchanged (values?_openSection _ _ _ _) _)
  | @clears k value _ h hv =>
    by_cases hk : key = .ofList (trim k)
    · exact .inr (.inl (by simp [commit, hp, values?_reset, hk]))
    · exact .inl (unchanged (by simp [values?_reset, hk]) _)
  | @whole k value _ h hv hc =>
    simpa only [commit, hp] using appended (.ofList (trim k)) (.ofList (trim value))
  | opens => exact appended _ _
  | goesOn hq | ends hq =>
    rw [hp] at hq
    cases hq

/-- Where a value has text in a second line the readings part: an empty line before it ends the
value, and the text is read as a line of its own. -/
theorem Reads.run_spaced_ne {c : Config} {ls : List (List Char)} {r : Reader} {p : Pending}
    (hr : Reads c ls r) (hp : r.pending = some p) (hone : ValuesInOneLine ls) {line : List Char}
    (hne : trim line ≠ []) : ∃ m, (Reader.start c).run (ls ++ [line]) = (m, .ok ()) ∧
      (Reader.start c).run (Text.spaced (ls ++ [line])) ≠ (m, .ok ()) := by
  obtain ⟨s, hs⟩ : ∃ s, Step r line s :=
    (step_or_malformed r line).resolve_right fun h => by simp [hp] at h
  refine ⟨s.commit.config, (hr.snoc hs).run_eq, ?_⟩
  have hends : Step r [] _ := .ends hp (by decide)
  have hcut := (hr.spaced hone).snoc hends
  rw [spaced_concat]
  intro heq
  by_cases hm : IsMalformed (trim line)
  · rw [hcut.run_malformed rfl hm []] at heq
    exact absurd (congrArg Prod.snd heq) (by simp)
  · obtain ⟨t, ht⟩ := (step_or_malformed _ line).resolve_right fun h => hm h.2
    rw [(hcut.snoc ht).run_eq, Prod.mk.injEq] at heq
    obtain ⟨value, hvalue, hmore⟩ := hs.value_grows hp hne hm
    have hafter := ht.values?_commit rfl p.key
    simp only [heq.1, hvalue, values?_append, and_self, if_true, Option.some.injEq,
      Option.getD_some] at hafter
    rcases hafter with h | h | ⟨other, h⟩
    · have hsame := List.singleton_inj.1 (List.append_cancel_left h)
      have hempty : inked (trim []) = 0 := rfl
      rw [hsame, Pending.value, String.toList_ofList, inked_trim, inked_join_concat] at hmore
      omega
    · simp at h
    · have hlength := congrArg List.length h
      simp at hlength

end Reader

namespace Config

open Line Reader

theorem valuesInOneLine_of_isChain {ls : List (List Char)}
    (h : ls.IsChain fun line next => EndsOdd (trim line) → trim next = []) :
    ValuesInOneLine ls := by
  intro pre line post e _ hv
  rcases List.eq_nil_or_concat pre with rfl | ⟨front, last, rfl⟩
  · exact absurd hv not_inValue_nil
  · rw [List.concat_eq_append] at e hv
    have next : ls = front ++ last :: line :: post := by rw [e, List.append_assoc]; rfl
    exact List.isChain_iff_forall_rel_of_append_cons_cons.1 h next (inValue_concat.1 hv).1

theorem exists_first_text_in_value {ls : List (List Char)} (h : ¬ ValuesInOneLine ls) :
    ∃ pre line post, ls = pre ++ line :: post ∧ (WellFormed pre ∧ InValue pre ∧ trim line ≠ []) ∧
      ValuesInOneLine pre := by
  have htext : ∃ pre line post, ls = pre ++ line :: post ∧ WellFormed pre ∧ InValue pre ∧
      trim line ≠ [] := by
    by_contra hno
    exact h fun pre line post e hw hv => by_contra fun hne => hno ⟨pre, line, post, e, hw, hv, hne⟩
  obtain ⟨pre, line, post, e, hq, hfirst⟩ := exists_first_split htext
  refine ⟨pre, line, post, e, hq, fun front l rest e' hw hv => ?_⟩
  by_contra hne
  exact hfirst front l rest e' ⟨hw, hv, hne⟩

/-- If every value stands in one line, the other spelling of the line ends changes nothing, whatever
config the text is read on top of and whether or not a line is malformed. -/
theorem overlay_withReturns_eq {text : String} (h : '\r' ∉ text.toList)
    (hone : ValuesInOneLine (lines text)) (c : Config) :
    c.overlay (withReturns text) = c.overlay text := by
  rw [overlay_withReturns c h, overlay_eq_run]
  by_cases hw : WellFormed (lines text)
  · obtain ⟨r, hr⟩ := reads_of_wellFormed c hw
    rw [(hr.spaced hone).run_eq, hr.run_eq]
  · obtain ⟨pre, line, post, e, hm, hpre⟩ := exists_first_malformedAt hw
    obtain ⟨r, hr⟩ := reads_of_wellFormed c hpre
    have hp : r.pending = none := hr.pending_eq_none_iff.2 hm.1
    have hidle : Reads c (spaced pre ++ [[]]) r :=
      (hr.spaced (e ▸ hone).left).snoc (.idle hp (.inl rfl))
    have hsplit : spaced (pre ++ line :: post) = (spaced pre ++ [[]]) ++ line :: spaced post := by
      rw [spaced_append, spaced_cons, List.append_assoc]
      rfl
    rw [e, hsplit, hidle.run_malformed hp hm.2, hr.run_malformed hp hm.2]

/-- The other spelling is read alike if every value stands in one line. If one does not, the text up
to there is read differently already. -/
theorem withReturns_alike_or_not {text : String} (h : '\r' ∉ text.toList) :
    (ValuesInOneLine (lines text) → read (withReturns text) = read text ∧
      ∀ c : Config, c.overlay (withReturns text) = c.overlay text) ∧
    (¬ ValuesInOneLine (lines text) → ∃ pre post, lines text = pre ++ post ∧
      read (withReturns (ofLines pre)) ≠ read (ofLines pre)) := by
  constructor
  · intro hone
    have hover := overlay_withReturns_eq h hone
    exact ⟨by rw [read, hover, read], hover⟩
  · intro hsome
    obtain ⟨pre, line, post, e, ⟨hw, hv, hne⟩, hone⟩ := exists_first_text_in_value hsome
    refine ⟨pre ++ [line], post, by rw [e, List.append_assoc]; rfl, ?_⟩
    obtain ⟨r, hr⟩ := reads_of_wellFormed empty hw
    obtain ⟨p, hp⟩ := Option.isSome_iff_exists.1 (hr.place.1.2 hv)
    obtain ⟨m, hread, hdiffers⟩ := hr.run_spaced_ne hp hone hne
    have hends : ∀ l ∈ pre ++ [line], ∀ x ∈ l, isLineEnd x = false := by
      intro l hl
      have hmem : l ∈ lines text := by
        rw [e, List.append_cons]
        exact List.mem_append_left post hl
      exact not_isLineEnd_of_mem_lines hmem
    have hlines : lines (ofLines (pre ++ [line])) = pre ++ [line] := by
      rw [lines, ofLines, String.toList_ofList]
      exact pieces_join (by decide) (by simp) hends
    have hreturn : '\r' ∉ (ofLines (pre ++ [line])).toList := by
      rw [ofLines, String.toList_ofList]
      intro hmem
      rcases mem_join hmem with hc | ⟨l, hl, hc⟩
      · exact absurd hc (by decide)
      · exact absurd (hends l hl _ hc) (by decide)
    have hok : read (ofLines (pre ++ [line])) = .ok m := by
      rw [read_eq_ok_iff, overlay_eq_run, hlines, hread]
    rw [hok]
    intro heq
    rw [read_eq_ok_iff, overlay_withReturns empty hreturn, hlines] at heq
    exact hdiffers heq

/-- A value that goes on in a blank line, and one that ends in two backslashes. -/
def blankContinuation : String := "[Unit]\nWants=a \\\n\nAfter=b\\\\\nBefore=c"

theorem blankContinuation_alike :
    read (withReturns blankContinuation) = read blankContinuation := by
  have hreturn : '\r' ∉ blankContinuation.toList := by decide +kernel
  have hone : ValuesInOneLine (lines blankContinuation) :=
    valuesInOneLine_of_isChain (by decide +kernel)
  exact ((withReturns_alike_or_not hreturn).1 hone).1

/-- A value with text in two lines. -/
def continuedText : String := "A=x \\\ny"

/-- The spelling of the line ends can matter: the second line of a value is no line of its own with
the one, and a malformed line with the other. -/
theorem withReturns_changes_continuedText :
    ¬ ∀ text : String, '\r' ∉ text.toList → read (withReturns text) = read text := by
  intro h
  have hreturn : '\r' ∉ continuedText.toList := by decide +kernel
  have hvalue : (read continuedText).toOption.bind (·.lastValue? topLevel "A") = some "x y" := by
    decide +kernel
  have hbad : (read (withReturns continuedText)).toOption = none := by decide +kernel
  rw [h continuedText hreturn] at hbad
  rw [hbad] at hvalue
  cases hvalue

end Config

end ServiceUnits
