import ServiceUnits.Proofs.Config.Place

namespace ServiceUnits

open Text

namespace Config

open Line Reader

/-- A line that is malformed where it stands, after the lines before it. -/
def MalformedAt (pre : List (List Char)) (line : List Char) : Prop :=
  ¬ InValue pre ∧ IsMalformed (trim line)

/-- Each line is well-formed where it stands, segments of values included. -/
def WellFormed (ls : List (List Char)) : Prop :=
  ∀ pre line post, ls = pre ++ line :: post → ¬ MalformedAt pre line

theorem reads_of_wellFormed (c : Config) {ls : List (List Char)} (h : WellFormed ls) :
    ∃ r, Reads c ls r := by
  rcases reads_or_malformed c ls with hr | ⟨pre, line, post, r, e, hr, hp, hm⟩
  · exact hr
  · exact absurd ⟨hr.pending_eq_none_iff.1 hp, hm⟩ (h pre line post e)

theorem run_of_malformedAt (c : Config) {pre : List (List Char)} {line : List Char}
    (hpre : WellFormed pre) (h : MalformedAt pre line) : ∃ r, Reads c pre r ∧
      r.pending = none ∧ ∀ post, (Reader.start c).run (pre ++ line :: post) =
        (r.config, .error (.badLine (.ofList (trim line)))) := by
  obtain ⟨r, hr⟩ := reads_of_wellFormed c hpre
  have hp := hr.pending_eq_none_iff.2 h.1
  exact ⟨r, hr, hp, hr.run_malformed hp h.2⟩

theorem exists_first_malformedAt {ls : List (List Char)} (h : ¬ WellFormed ls) :
    ∃ pre line post, ls = pre ++ line :: post ∧ MalformedAt pre line ∧ WellFormed pre := by
  have hbad : ∃ pre line post, ls = pre ++ line :: post ∧ MalformedAt pre line := by
    by_contra hno
    exact h fun pre line post e hm => hno ⟨pre, line, post, e, hm⟩
  exact exists_first_split hbad

theorem run_eq_ok_iff (c : Config) {ls : List (List Char)} :
    ((Reader.start c).run ls).2 = .ok () ↔ WellFormed ls := by
  constructor
  · intro h
    by_contra hw
    obtain ⟨pre, line, post, rfl, hm, hpre⟩ := exists_first_malformedAt hw
    obtain ⟨r, -, -, hrun⟩ := run_of_malformedAt c hpre hm
    rw [hrun] at h
    cases h
  · intro h
    obtain ⟨r, hr⟩ := reads_of_wellFormed c h
    rw [hr.run_eq]

/-- The line that a text is rejected for: the first that is malformed where it stands. -/
def RejectedFor (text line : String) : Prop :=
  ∃ pre raw post, lines text = pre ++ raw :: post ∧ MalformedAt pre raw ∧ WellFormed pre ∧
    line = .ofList (trim raw)

theorem overlay_eq_ok_iff (c : Config) {text : String} :
    (c.overlay text).2 = .ok () ↔ ∀ line, ¬ RejectedFor text line := by
  rw [overlay_eq_run, run_eq_ok_iff]
  constructor
  · intro hw line h
    obtain ⟨pre, raw, post, e, hm, -, -⟩ := h
    exact hw pre raw post e hm
  · intro h
    by_contra hw
    obtain ⟨pre, raw, post, e, hm, hpre⟩ := exists_first_malformedAt hw
    exact h _ ⟨pre, raw, post, e, hm, hpre, rfl⟩

theorem RejectedFor.overlay_eq {text line : String} (h : RejectedFor text line) (c : Config) :
    (c.overlay text).2 = .error (.badLine line) := by
  obtain ⟨pre, raw, post, e, hm, hpre, rfl⟩ := h
  obtain ⟨r, -, -, hrun⟩ := run_of_malformedAt c hpre hm
  rw [overlay_eq_run, e, hrun]

theorem overlay_eq_error_iff (c : Config) {text : String} {e : Error} :
    (c.overlay text).2 = .error e ↔ ∃ line, RejectedFor text line ∧ e = .badLine line := by
  constructor
  · intro h
    have hbad : ∃ line, RejectedFor text line := by
      by_contra hno
      have hok := (overlay_eq_ok_iff c).2 fun line hl => hno ⟨line, hl⟩
      cases hok.symm.trans h
    obtain ⟨line, hl⟩ := hbad
    exact ⟨line, hl, Except.error.inj (h.symm.trans (hl.overlay_eq c))⟩
  · intro h
    obtain ⟨line, hl, rfl⟩ := h
    exact hl.overlay_eq c

/-- What a text is rejected for does not depend on the config that it is read on top of. -/
theorem overlay_result_congr (c d : Config) (text : String) :
    (c.overlay text).2 = (d.overlay text).2 := by
  cases h : (d.overlay text).2 with
  | ok _ => exact (overlay_eq_ok_iff c).2 ((overlay_eq_ok_iff d).1 h)
  | error e => exact (overlay_eq_error_iff c).2 ((overlay_eq_error_iff d).1 h)

/-- A text is rejected exactly when one of its lines is malformed where it stands. The first such
line is reported, what is left is the config after the lines before it alone, and the lines after it
have no effect. A text that is not rejected is read line by line to its end. -/
theorem overlay_rejects_first_malformed (c : Config) (text : String) :
    ((∃ e, (c.overlay text).2 = .error e) ↔
      ∃ pre line post, lines text = pre ++ line :: post ∧ MalformedAt pre line) ∧
    (∀ pre line post, lines text = pre ++ line :: post → MalformedAt pre line →
      WellFormed pre →
      c.overlay text = ((c.overlay (ofLines pre)).1, .error (.badLine (.ofList (trim line)))) ∧
      (c.overlay (ofLines pre)).2 = .ok () ∧
      ∀ later, (∀ l ∈ later, ∀ x ∈ l, isLineEnd x = false) →
        c.overlay (ofLines (pre ++ line :: later)) = c.overlay text) ∧
    ((c.overlay text).2 = .ok () →
      ∃ r, Reads c (lines text) r ∧ c.overlay text = (r.commit.config, .ok ())) := by
  refine ⟨?_, ?_, ?_⟩
  · have hok : (c.overlay text).2 = .ok () ↔ WellFormed (lines text) := by
      rw [overlay_eq_run]
      exact run_eq_ok_iff c
    constructor
    · intro h
      obtain ⟨e, he⟩ := h
      have hw : ¬ WellFormed (lines text) := fun hw => by simp [hok.2 hw] at he
      obtain ⟨pre, line, post, e, hm, -⟩ := exists_first_malformedAt hw
      exact ⟨pre, line, post, e, hm⟩
    · intro h
      obtain ⟨pre, line, post, e, hm⟩ := h
      cases hr : (c.overlay text).2 with
      | error e => exact ⟨e, rfl⟩
      | ok _ => exact absurd hm (hok.1 hr pre line post e)
  · intro pre line post e hm hw
    obtain ⟨r, hr, hp, hrun⟩ := run_of_malformedAt c hw hm
    have hends : ∀ l ∈ pre ++ line :: post, ∀ x ∈ l, isLineEnd x = false :=
      fun l hl => not_isLineEnd_of_mem_lines (e ▸ hl)
    have hpre : c.overlay (ofLines pre) = (r.config, .ok ()) := by
      rw [overlay_ofLines c fun l hl => hends l (List.mem_append_left _ hl), hr.run_eq, commit, hp]
    refine ⟨by rw [overlay_eq_run, e, hrun, hpre], by rw [hpre], ?_⟩
    intro later hlater
    rw [overlay_ofLines, hrun, overlay_eq_run, e, hrun]
    intro l hl
    rcases List.mem_append.1 hl with hl | hl
    · exact hends l (List.mem_append_left _ hl)
    · rcases List.mem_cons.1 hl with rfl | hl
      · exact hends l (List.mem_append_right _ List.mem_cons_self)
      · exact hlater l hl
  · intro h
    obtain ⟨r, hr⟩ := reads_of_wellFormed c ((run_eq_ok_iff c).1 h)
    exact ⟨r, hr, hr.run_eq⟩

theorem rejects_line_without_key :
    empty.overlay "a=b\nno\nc=d" = ((empty.overlay "a=b").1, .error (.badLine "no")) := by
  have hl : lines "a=b\nno\nc=d" = ["a=b".toList] ++ "no".toList :: ["c=d".toList] := by
    decide +kernel
  have hv : ¬ InValue ["a=b".toList] := by
    intro h
    have hodd : EndsOdd (trim "a=b".toList) := ((@inValue_concat [] _).1 h).1
    exact absurd (endsOdd_iff.1 hodd) (by decide)
  have hm : IsMalformed (trim "no".toList) := by
    refine ⟨by decide, by simp [IsComment]; decide, ?_, .inl (by decide)⟩
    intro name h
    have hhead := congrArg List.head? h.2
    exact absurd hhead (by simp; decide)
  have hw : WellFormed ["a=b".toList] := (run_eq_ok_iff empty).1 (by decide +kernel)
  have hfirst := (overlay_rejects_first_malformed empty "a=b\nno\nc=d").2.1 _ _ _ hl ⟨hv, hm⟩ hw
  exact hfirst.1

end Config

namespace Reader

open Config

theorem Reads.wellFormed {c : Config} {ls : List (List Char)} {r : Reader} (h : Reads c ls r) :
    WellFormed ls := (run_eq_ok_iff c).1 (by rw [h.run_eq])

end Reader
end ServiceUnits
