import ServiceUnits.Proofs.FileSystem.Follow
import ServiceUnits.Proofs.FileSystem.Refusals

namespace ServiceUnits

open Text

/-- A failure says that nothing is there exactly if this is so. Any other names its cause. -/
structure TellsApart {α : Type} (result : Except Error α) (missing : Prop) : Prop where
  missing_iff : (∃ e, result = .error e ∧ e.isNotFound = true) ↔ missing
  otherwise : ∀ e, result = .error e → e.isNotFound = false →
    (∃ cause, e = .system cause) ∨ ∃ cause, e = .link cause

variable {α β : Type} {s : System} {n : Nat} {p q r : RawPath} {walk walk' : List RawPath}

theorem TellsApart.congr {result : Except Error α} {a b : Prop} (h : TellsApart result a)
    (hab : a ↔ b) : TellsApart result b :=
  ⟨h.missing_iff.trans hab, h.otherwise⟩

/-- What becomes of a success has nothing to do with the failures. -/
theorem TellsApart.map {result : Except Error α} {a : Prop} (h : TellsApart result a) (f : α → β) :
    TellsApart (result.map f) a := by
  obtain ⟨hmissing, hotherwise⟩ := h
  cases result with
  | ok x => exact ⟨by simpa [Except.map] using hmissing, by simp [Except.map]⟩
  | error e =>
    refine ⟨by simpa [Except.map] using hmissing, fun e' he => hotherwise e' ?_⟩
    exact congrArg Except.error (Except.error.inj he)

theorem tellsApart_ofSystem (r : Except SystemError α) :
    TellsApart (r.mapError .ofSystem) (SaysMissing r) := by
  cases r with
  | ok x => exact ⟨by simp [SaysMissing, Except.mapError], by simp [Except.mapError]⟩
  | error cause =>
    cases hc : cause.isNotFound <;>
      constructor <;>
      simp [SaysMissing, Except.mapError, Error.ofSystem, Error.isNotFound, hc]

theorem tellsApart_ofLink (r : Except LinkError α) :
    TellsApart (r.mapError .ofLink) (∃ e, r = .error e ∧ e.isNotFound = true) := by
  cases r with
  | ok x => exact ⟨by simp [Except.mapError], by simp [Except.mapError]⟩
  | error cause =>
    cases hc : cause.isNotFound <;>
      constructor <;>
      simp [Except.mapError, Error.ofLink, Error.isNotFound, hc]

namespace Probe

variable {probe : RawPath → Probe}

theorem Step.unique (h : Step probe p q) (h' : Step probe p r) : q = r := by
  obtain ⟨target, hp, hq⟩ := h
  obtain ⟨target', hp', hr⟩ := h'
  obtain rfl := Except.ok.inj (link.inj (hp.symm.trans hp'))
  exact Except.ok.inj ((leadsTo_iff.1 hq).symm.trans (leadsTo_iff.1 hr))

/-- Walks that can go on nowhere end at one place. -/
theorem IsWalk.unique (h : IsWalk probe p q walk) (h' : IsWalk probe p r walk')
    (hq : ∀ next, ¬ Step probe q next) (hr : ∀ next, ¬ Step probe r next) : q = r := by
  induction walk generalizing p walk' with
  | nil => cases h.head
  | cons x rest ih =>
    rcases h.cases_on with ⟨-, rfl⟩ | ⟨next, rest', hwalk, hs, hrest⟩
    · rcases h'.cases_on with ⟨-, rfl⟩ | ⟨next, rest', -, hs, -⟩
      · rfl
      · exact absurd hs (hq next)
    · obtain ⟨rfl, rfl⟩ := List.cons.inj hwalk
      rcases h'.cases_on with ⟨-, rfl⟩ | ⟨next', rest', -, hs', hrest'⟩
      · exact absurd hs (hr next)
      · exact ih hrest (hs.unique hs' ▸ hrest')

end Probe

namespace System

/-- The path itself, or a place that its links lead to, `n` of them at most. -/
def Meets (s : System) (n : Nat) (p q : RawPath) : Prop :=
  ∃ walk, Probe.IsWalk s.probe p q walk ∧ walk.length ≤ n + 1

/-- The system says of a place that the links of a path lead to that nothing is there, when it is
asked what it is or, if it is a link that is still to be followed, where to. -/
inductive Missing (s : System) (p q : RawPath) : Prop
  | unseen {e : SystemError} (h : s.Meets 32 p q) (hq : s.probe q = .refused e)
      (he : e.isNotFound = true)
  | unread {e : SystemError} (h : s.Meets 31 p q) (hq : s.probe q = .link (.error e))
      (he : e.isNotFound = true)

/-- A place that the links of a path lead to is taken for missing, and the system does not say so: it
refuses to look at it for another reason, or there is a relative target in no directory. -/
inductive TakenForMissing (s : System) (p q : RawPath) : Prop
  | refused {e : SystemError} (h : s.Meets 32 p q) (hq : s.probe q = .refused e)
      (he : e.isNotFound = false)
  | orphaned {target : Bytes} (h : s.Meets 31 p q) (hq : s.probe q = .link (.ok target))
      (hrel : target.head? ≠ some RawPath.slash) (hp : q.parent? = none)

/-- Of all failures to follow links only these say that nothing is there. -/
theorem chase_notFound_iff :
    (∃ e, Probe.chase s.probe p = .error e ∧ e.isNotFound = true) ↔
      (∃ q, s.Missing p q) ∨ ∃ q, s.TakenForMissing p q := by
  constructor
  · rintro ⟨e, he, hmissing⟩
    have hends : Probe.Ends s.probe 32 p (.error e) := he ▸ Probe.ends_chaseFrom s.probe 32 p
    cases hends with
    | @missing q walk refusal h hn hq =>
      cases hr : refusal.isNotFound with
      | true => exact .inl ⟨q, .unseen ⟨walk, h, hn⟩ hq hr⟩
      | false => exact .inr ⟨q, .refused ⟨walk, h, hn⟩ hq hr⟩
    | @astray q walk answer _ h hn hq he =>
      cases he with
      | unreadable refusal => exact .inl ⟨q, .unread ⟨walk, h, hn⟩ hq hmissing⟩
      | orphaned hrel hp => exact .inr ⟨q, .orphaned ⟨walk, h, hn⟩ hq hrel hp⟩
      | climbing =>
        simp [LinkError.isNotFound, LinkError.code, Errno.invalid, Errno.noEntry] at hmissing
    | endless => exact absurd hmissing (by decide)
  · rintro (⟨q, hq⟩ | ⟨q, hq⟩)
    · cases hq with
      | unseen h hq he =>
        obtain ⟨walk, hwalk, hn⟩ := h
        exact ⟨_, (Probe.Ends.missing hwalk hn hq).chaseFrom_eq, rfl⟩
      | unread h hq he =>
        obtain ⟨walk, hwalk, hn⟩ := h
        exact ⟨_, (Probe.Ends.astray hwalk hn hq (.unreadable _)).chaseFrom_eq, he⟩
    · cases hq with
      | refused h hq =>
        obtain ⟨walk, hwalk, hn⟩ := h
        exact ⟨_, (Probe.Ends.missing hwalk hn hq).chaseFrom_eq, rfl⟩
      | orphaned h hq hrel hp =>
        obtain ⟨walk, hwalk, hn⟩ := h
        exact ⟨_, (Probe.Ends.astray hwalk hn hq (.orphaned hrel hp)).chaseFrom_eq, rfl⟩

theorem tellsApart_chain (s : System) (p : RawPath) :
    TellsApart (s.chain p) ((∃ q, s.Missing p q) ∨ ∃ q, s.TakenForMissing p q) :=
  (tellsApart_ofLink _).congr chase_notFound_iff

theorem Missing.ends (h : s.Missing p q) : ∃ walk, Probe.IsWalk s.probe p q walk ∧
    ((∃ e, s.probe q = .refused e ∧ e.isNotFound = true) ∨ ∃ e, s.probe q = .link (.error e)) := by
  cases h with
  | unseen h hq he =>
    obtain ⟨walk, hwalk, -⟩ := h
    exact ⟨walk, hwalk, .inl ⟨_, hq, he⟩⟩
  | unread h hq =>
    obtain ⟨walk, hwalk, -⟩ := h
    exact ⟨walk, hwalk, .inr ⟨_, hq⟩⟩

theorem TakenForMissing.ends (h : s.TakenForMissing p q) :
    ∃ walk, Probe.IsWalk s.probe p q walk ∧ (∀ next, ¬ Probe.Step s.probe q next) ∧
      ((∃ e, s.probe q = .refused e ∧ e.isNotFound = false) ∨
        ∃ target, s.probe q = .link (.ok target)) := by
  cases h with
  | refused h hq he =>
    obtain ⟨walk, hwalk, -⟩ := h
    refine ⟨walk, hwalk, ?_, .inl ⟨_, hq, he⟩⟩
    rintro next ⟨target, hlink, -⟩
    cases hq.symm.trans hlink
  | @orphaned target h hq hrel hp =>
    obtain ⟨walk, hwalk, -⟩ := h
    refine ⟨walk, hwalk, ?_, .inr ⟨_, hq⟩⟩
    rintro next ⟨target', hlink, hleads⟩
    obtain rfl := Except.ok.inj (Probe.link.inj (hq.symm.trans hlink))
    have hastray := Probe.next_eq_error_iff.2 (.orphaned hrel hp)
    cases hastray.symm.trans (Probe.leadsTo_iff.1 hleads)

/-- The place at which a chain stops is not both. -/
theorem Missing.not_taken (hq : s.Missing p q) : ¬ s.TakenForMissing p r := by
  intro hr
  obtain ⟨walk, hwalk, hmissing⟩ := hq.ends
  obtain ⟨walk', hwalk', hstop', htaken⟩ := hr.ends
  have hstop : ∀ next, ¬ Probe.Step s.probe q next := by
    rintro next ⟨target, hlink, -⟩
    rcases hmissing with ⟨e, he, -⟩ | ⟨e, he⟩ <;> cases he.symm.trans hlink
  obtain rfl := hwalk.unique hwalk' hstop hstop'
  rcases hmissing with ⟨e, he, hmissing⟩ | ⟨e, he⟩
  · rcases htaken with ⟨e', he', hother⟩ | ⟨target, he'⟩
    · obtain rfl := Probe.refused.inj (he.symm.trans he')
      exact absurd hmissing (Bool.eq_false_iff.1 hother)
    · cases he.symm.trans he'
  · rcases htaken with ⟨e', he', -⟩ | ⟨target, he'⟩ <;> cases he.symm.trans he'

/-- Failures to follow links are told apart exactly if no place is taken for missing without being
so. -/
theorem tellsApart_chain_iff :
    TellsApart (s.chain p) (∃ q, s.Missing p q) ↔ ∀ q, ¬ s.TakenForMissing p q := by
  constructor
  · intro h q hq
    obtain ⟨r, hr⟩ := h.missing_iff.1 ((s.tellsApart_chain p).missing_iff.2 (.inr ⟨q, hq⟩))
    exact hr.not_taken hq
  · intro h
    exact (s.tellsApart_chain p).congr (or_iff_left fun ⟨q, hq⟩ => h q hq)

end System

namespace Tree

variable {t : Tree}

theorem isMissing_iff : t.system.Missing p q ↔
    t.system.Meets 32 p q ∧ Refuses t .look q (.call .noEntry) := by
  constructor
  · intro h
    cases h with
    | unseen h hq he =>
      have hrefuses := probe_eq_refused_iff.1 hq
      exact ⟨h, hrefuses.isNotFound_iff.1 he ▸ hrefuses⟩
    | unread _ hq =>
      obtain ⟨-, target, htarget⟩ := parent?_of_link hq
      cases htarget
  · rintro ⟨h, hrefuses⟩
    exact .unseen h (probe_eq_refused_iff.2 hrefuses) rfl

theorem takenForMissing_iff : t.system.TakenForMissing p q ↔
    t.system.Meets 32 p q ∧ ∃ e, Refuses t .look q e ∧ e ≠ .call .noEntry := by
  constructor
  · intro h
    cases h with
    | @refused e h hq he =>
      have hrefuses := probe_eq_refused_iff.1 hq
      refine ⟨h, e, hrefuses, fun hmissing => ?_⟩
      exact Bool.eq_false_iff.1 he (hrefuses.isNotFound_iff.2 hmissing)
    | orphaned _ hq _ hp => exact absurd hp (parent?_of_link hq).1
  · rintro ⟨h, e, hrefuses, hother⟩
    refine .refused h (probe_eq_refused_iff.2 hrefuses) (Bool.eq_false_iff.2 fun he => ?_)
    exact hother (hrefuses.isNotFound_iff.1 he)

end Tree

/-- Whatever a system answers, reading and listing tell its refusals apart. Following links takes a
place for missing at every refusal to look at it, and at a relative target of a link that is in no
directory. So there the failures are told apart exactly if no place is taken for missing but those
of which the system says so itself. In a tree these are the refusals of the walk along a path. -/
theorem failures_told_apart (s : System) (p : RawPath) :
    TellsApart (s.readFile p) (SaysMissing (s.read p)) ∧
    TellsApart (s.listDirectory p) (SaysMissing (s.list p)) ∧
    TellsApart (s.chain p) ((∃ q, s.Missing p q) ∨ ∃ q, s.TakenForMissing p q) ∧
    (TellsApart (s.chain p) (∃ q, s.Missing p q) ↔ ∀ q, ¬ s.TakenForMissing p q) ∧
    ∀ t : Tree, s = t.system →
      (SaysMissing (s.read p) ↔ t.Refuses .reach p (.call .noEntry)) ∧
      (SaysMissing (s.list p) ↔ t.Refuses .reach p (.call .noEntry)) ∧
      ∀ q, (s.Missing p q ↔ s.Meets 32 p q ∧ t.Refuses .look q (.call .noEntry)) ∧
        (s.TakenForMissing p q ↔
          s.Meets 32 p q ∧ ∃ e, t.Refuses .look q e ∧ e ≠ .call .noEntry) := by
  refine ⟨tellsApart_ofSystem (s.read p), (tellsApart_ofSystem (s.list p)).map _,
    s.tellsApart_chain p, System.tellsApart_chain_iff, ?_⟩
  rintro t rfl
  refine ⟨?_, ?_, fun q => ⟨Tree.isMissing_iff, Tree.takenForMissing_iff⟩⟩
  · exact Tree.saysMissing_read_iff.trans
      (Tree.saysMissing_iff_refuses fun e => Tree.find_eq_error_iff)
  · exact Tree.saysMissing_list_iff.trans
      (Tree.saysMissing_iff_refuses fun e => Tree.find_eq_error_iff)

/-- A file, a link to something behind the file, and a link to nothing. -/
def blocked : Tree where
  objects := [(["f"], .file .empty), (["l"], .link "f/x"), (["d"], .link "g")]
  working := []

theorem probe_blocked : blocked.system.probe "f/x" = .refused (.call .notDirectory) := rfl

theorem meets_blocked : blocked.system.Meets 32 "l" "f/x" := by
  have hlink : blocked.system.probe "l" = .link (.ok "f/x") := rfl
  have hstep : Probe.Step blocked.system.probe "l" "f/x" :=
    ⟨"f/x", hlink, .relative (s := "./f/x") (by decide +kernel) (by decide +kernel)⟩
  exact ⟨_, (Probe.isWalk_singleton _ _).cons hstep, by decide⟩

theorem blocked_told_apart :
    (∃ e, blocked.system.readFile "d" = .error e ∧ e.isNotFound = true) ∧
    ∃ e, blocked.system.chain "l" = .error e ∧ e.isNotFound = true := by
  obtain ⟨hread, -, -, -, htree⟩ := failures_told_apart blocked.system "d"
  obtain ⟨-, -, hchain, -, -⟩ := failures_told_apart blocked.system "l"
  obtain ⟨hmissing, -⟩ := htree blocked rfl
  have hname : Tree.IsName "d" ∧ Tree.IsName "g" :=
    ⟨⟨by decide, by decide, by decide⟩, ⟨by decide, by decide, by decide⟩⟩
  have hlink : blocked.object? ["d"] = some (.link "g") := rfl
  have hnone : blocked.object? ["g"] = none := rfl
  have hrefuses : blocked.Refuses .reach "d" (.call .noEntry) :=
    .onTheWay ⟨by decide, by decide, by decide⟩
      (.link rfl hname.1 hlink (by decide) (.missing rfl hname.2 hnone))
  exact ⟨hread.missing_iff.2 (hmissing.2 hrefuses),
    hchain.missing_iff.2 (.inr ⟨_, .refused meets_blocked probe_blocked (by decide)⟩)⟩

/-- Behind a file, following links says that nothing is there, and reading says what is wrong. -/
theorem blocked_told_missing :
    blocked.system.chain "f/x" = .error (.missing "Not exist: 'f/x'.") ∧
    blocked.system.readFile "f/x" = .error (.system (.call .notDirectory)) ∧
    ¬ TellsApart (blocked.system.chain "f/x") (∃ q, blocked.system.Missing "f/x" q) := by
  refine ⟨by decide +kernel, by decide +kernel, ?_⟩
  rw [System.tellsApart_chain_iff]
  intro h
  have hmeets : blocked.system.Meets 32 "f/x" "f/x" :=
    ⟨_, Probe.isWalk_singleton _ _, by decide⟩
  exact h _ (.refused hmeets probe_blocked (by decide))

end ServiceUnits
