import ServiceUnits.Proofs.FileSystem.Chain

namespace ServiceUnits

open Text

/-- The error of a walk that finds nothing. -/
def Walk.error? : Walk → Option SystemError
  | .found _ _ => none
  | .absent _ _ => some (.call .noEntry)
  | .refused e => some e

/-- The answer of a system says that nothing is there. -/
def SaysMissing {α : Type} (answer : Except SystemError α) : Prop :=
  ∃ e, answer = .error e ∧ e.isNotFound = true

namespace Tree

/-- The walk along a path, with `n` links still to be followed, fails. A walk that looks at a path
does not follow its last link. -/
inductive Fails (t : Tree) (w : Purpose) : Nat → Location → List Bytes → Errno → Prop
  | gone {n : Nat} {place : Location} (ho : t.object? place = none) : Fails t w n place [] .noEntry
  | notDirectory {n : Nat} {place : Location} {step : Bytes} {rest : List Bytes}
      (hd : t.isDirectory place = false) : Fails t w n place (step :: rest) .notDirectory
  | tooLong {n : Nat} {place : Location} {step : Bytes} {rest : List Bytes}
      (hd : t.isDirectory place = true) (hi : RawPath.isIdle step = false) (hup : step ≠ RawPath.up)
      (hl : maxNameBytes < step.length) :
      Fails t w n place (step :: rest) .nameTooLong
  | missing {n : Nat} {place : Location} {step : Bytes} {rest : List Bytes}
      (hd : t.isDirectory place = true) (hs : IsName step)
      (ho : t.object? (place ++ [step]) = none) : Fails t w n place (step :: rest) .noEntry
  | endless {place : Location} {step target : Bytes} {rest : List Bytes}
      (hd : t.isDirectory place = true) (hs : IsName step)
      (ho : t.object? (place ++ [step]) = some (.link target)) (hr : w = .look → rest ≠ []) :
      Fails t w 0 place (step :: rest) .linkLoop
  | idle {n : Nat} {place : Location} {step : Bytes} {rest : List Bytes} {e : Errno}
      (hd : t.isDirectory place = true) (hs : RawPath.isIdle step = true)
      (h : Fails t w n place rest e) : Fails t w n place (step :: rest) e
  | up {n : Nat} {place : Location} {rest : List Bytes} {e : Errno}
      (hd : t.isDirectory place = true) (h : Fails t w n place.dropLast rest e) :
      Fails t w n place (RawPath.up :: rest) e
  | down {n : Nat} {place : Location} {step : Bytes} {rest : List Bytes} {o : Object}
      {e : Errno} (hd : t.isDirectory place = true) (hs : IsName step)
      (ho : t.object? (place ++ [step]) = some o) (hl : ∀ target, o ≠ .link target)
      (h : Fails t w n (place ++ [step]) rest e) : Fails t w n place (step :: rest) e
  | link {n : Nat} {place : Location} {step target : Bytes} {rest : List Bytes}
      {e : Errno} (hd : t.isDirectory place = true) (hs : IsName step)
      (ho : t.object? (place ++ [step]) = some (.link target)) (hr : w = .look → rest ≠ [])
      (h : Fails t w n (origin target place) (steps target ++ rest) e) :
      Fails t w (n + 1) place (step :: rest) e

variable {t : Tree} {w : Purpose} {n : Nat} {place : Location} {step : Bytes}
  {path rest : List Bytes} {p : RawPath} {e : SystemError}

theorem walk_not_directory (hd : t.isDirectory place = false) (rest : List Bytes) :
    t.walk w n place (step :: rest) = .refused (.call .notDirectory) := by
  rw [walk_cons, hd]
  rfl

theorem walk_too_long (hw : w ≠ .makeFile) (hd : t.isDirectory place = true)
    (hi : RawPath.isIdle step = false) (hup : step ≠ RawPath.up)
    (hl : maxNameBytes < step.length) (rest : List Bytes) :
    t.walk w n place (step :: rest) = .refused (.call .nameTooLong) := by
  rw [walk_cons, hd]
  simp [hi, hup, hw, hl]

theorem walk_missing (hw : w ≠ .makeFile) (hd : t.isDirectory place = true) (hs : IsName step)
    (ho : t.object? (place ++ [step]) = none) (rest : List Bytes) :
    (t.walk w n place (step :: rest)).error? = some (.call .noEntry) := by
  rw [walk_name hw hd hs, ho]
  dsimp only
  split <;> rfl

/-- No link is left to be followed. -/
theorem walk_endless {target : Bytes} (hw : w ≠ .makeFile) (hd : t.isDirectory place = true)
    (hs : IsName step) (ho : t.object? (place ++ [step]) = some (.link target))
    (hr : stopsAt w rest = false) :
    t.walk w 0 place (step :: rest) = .refused (.call .linkLoop) := by
  rw [walk_name hw hd hs, ho]
  simp only [hr]
  rfl

theorem stopsAt_eq_false (hw : w = .reach ∨ w = .look) :
    stopsAt w rest = false ↔ (w = .look → rest ≠ []) := by
  rw [← Bool.not_eq_true, stopsAt_iff hw, not_and]

theorem Fails.error?_walk {errno : Errno} (hw : w = .reach ∨ w = .look)
    (h : Fails t w n place path errno) :
    (t.walk w n place path).error? = some (.call errno) := by
  have hfile : w ≠ .makeFile := by rcases hw with rfl | rfl <;> simp
  induction h with
  | gone ho => rw [walk_nil, ho]; rfl
  | notDirectory hd => rw [walk_not_directory hd]; rfl
  | tooLong hd hi hup hl => rw [walk_too_long hfile hd hi hup hl]; rfl
  | missing hd hs ho => exact walk_missing hfile hd hs ho _
  | endless hd hs ho hr => rw [walk_endless hfile hd hs ho ((stopsAt_eq_false hw).2 hr)]; rfl
  | idle hd hs _ ih => rw [walk_idle hd hs, ih]
  | up hd _ ih => rw [walk_up hd, ih]
  | @down n place step rest o errno hd hs ho hl h ih =>
    rw [walk_down hfile hd hs ho hl]
    split
    -- The object is there, so nothing is left that could fail.
    · rename_i hstop
      obtain ⟨-, rfl⟩ := (stopsAt_iff hw).1 hstop
      cases h with
      | gone hnone => cases hnone.symm.trans ho
    · exact ih
  | link hd hs ho hr _ ih =>
    rw [walk_link hfile hd hs ho, (stopsAt_eq_false hw).2 hr]
    exact ih

/-- How a walk along some steps fails, if it is known how it fails from the links on. -/
theorem fails_of_walkSteps (hw : w = .reach ∨ w = .look) {follow : Location → List Bytes → Walk}
    (hfollow : ∀ {place path}, (follow place path).error? = some e →
      (n = 0 ∧ e = .call .linkLoop) ∨
        ∃ m errno, n = m + 1 ∧ e = .call errno ∧ Fails t w m place path errno)
    (h : (t.walkSteps w follow place path).error? = some e) :
    ∃ errno, e = .call errno ∧ Fails t w n place path errno := by
  have hfile : w ≠ .makeFile := by rcases hw with rfl | rfl <;> simp
  fun_induction t.walkSteps w follow place path with
  | case1 | case10 | case12 => cases h
  | case2 here ho => exact ⟨_, (Option.some.inj h).symm, .gone ho⟩
  | case3 here step rest hd =>
    exact ⟨_, (Option.some.inj h).symm, .notDirectory (by simpa using hd)⟩
  | case4 here step rest hd hs ih =>
    obtain ⟨errno, rfl, hf⟩ := ih h
    exact ⟨errno, rfl, .idle (by simpa using hd) hs hf⟩
  | case5 here rest hd _ ih =>
    obtain ⟨errno, rfl, hf⟩ := ih h
    exact ⟨errno, rfl, .up (by simpa using hd) hf⟩
  | case6 here step rest hd hi hup hmake => simp [hfile] at hmake
  | case7 here step rest hd hi hup _ hl =>
    exact ⟨_, (Option.some.inj h).symm,
      .tooLong (by simpa using hd) (Bool.eq_false_iff.2 hi) hup hl⟩
  | case8 here step rest hd hi hup _ hl place ho
  | case9 here step rest hd hi hup _ hl place ho =>
    exact ⟨_, (Option.some.inj h).symm, .missing (by simpa using hd) (isName_of_not hi hup hl) ho⟩
  | case11 here step rest hd hi hup _ hl place target ho hstop =>
    have hrest : w = .look → rest ≠ [] := (stopsAt_eq_false hw).1 (Bool.eq_false_iff.2 hstop)
    rcases hfollow h with ⟨rfl, rfl⟩ | ⟨m, errno, rfl, rfl, hf⟩
    · exact ⟨_, rfl, .endless (by simpa using hd) (isName_of_not hi hup hl) ho hrest⟩
    · exact ⟨errno, rfl, .link (by simpa using hd) (isName_of_not hi hup hl) ho hrest hf⟩
  | case13 here step rest hd hi hup _ hl place o hno ho hstop ih =>
    obtain ⟨errno, rfl, hf⟩ := ih h
    exact ⟨errno, rfl, .down (by simpa using hd) (isName_of_not hi hup hl) ho hno hf⟩

theorem fails_of_walk (hw : w = .reach ∨ w = .look)
    (h : (t.walk w n place path).error? = some e) :
    ∃ errno, e = .call errno ∧ Fails t w n place path errno := by
  induction n generalizing place path with
  | zero =>
    refine fails_of_walkSteps hw (fun hlink => ?_) h
    exact .inl ⟨rfl, (Option.some.inj hlink).symm⟩
  | succ n ih =>
    refine fails_of_walkSteps hw (fun hlink => ?_) h
    obtain ⟨errno, he, hf⟩ := ih hlink
    exact .inr ⟨n, errno, rfl, he, hf⟩

/-- What keeps the system from reaching the place that a path leads to, or from looking at it. -/
inductive Refuses (t : Tree) (w : Purpose) (p : RawPath) : SystemError → Prop
  | nul (h : 0 ∈ p.bytes) : Refuses t w p (.other "file name contained an unexpected NUL byte")
  | empty (h : p.bytes = []) : Refuses t w p (.call .noEntry)
  | tooLong (hn : 0 ∉ p.bytes) (h : pathBytes ≤ p.bytes.length) :
      Refuses t w p (.call .nameTooLong)
  | onTheWay {errno : Errno} (hs : Walkable p)
      (h : Fails t w maxLinks (origin p.bytes t.working) (steps p.bytes) errno) :
      Refuses t w p (.call errno)

theorem error?_walkPath_iff (hw : w = .reach ∨ w = .look) :
    (t.walkPath w p).error? = some e ↔ Refuses t w p e := by
  constructor
  · intro h
    rw [walkPath] at h
    split at h
    · rename_i hnul
      exact Option.some.inj h ▸ .nul hnul
    · rename_i hnul
      split at h
      · rename_i hempty
        exact Option.some.inj h ▸ .empty hempty
      · rename_i hempty
        split at h
        · rename_i hlong
          exact Option.some.inj h ▸ .tooLong hnul hlong
        · rename_i hlong
          obtain ⟨errno, rfl, hf⟩ := fails_of_walk hw h
          exact .onTheWay ⟨hnul, hempty, Nat.not_le.1 hlong⟩ hf
  · intro h
    rw [walkPath]
    cases h with
    | nul h => rw [if_pos h]; rfl
    | empty h =>
      have hnul : 0 ∉ p.bytes := by simp [h]
      rw [if_neg hnul, if_pos h]
      rfl
    | tooLong hn h =>
      have hne : p.bytes ≠ [] := by
        intro hempty
        rw [hempty] at h
        exact absurd h (by decide)
      rw [if_neg hn, if_neg hne, if_pos h]
      rfl
    | onTheWay hs h =>
      rw [if_neg hs.no_nul, if_neg hs.ne_empty, if_neg (Nat.not_le.2 hs.short)]
      exact h.error?_walk hw

/-- The system says of a path that nothing is there only by one number. -/
theorem Refuses.isNotFound_iff (h : Refuses t w p e) :
    e.isNotFound = true ↔ e = .call .noEntry := by
  cases h <;> simp [SystemError.isNotFound]

theorem find_eq_error_iff : t.find p = .error e ↔ Refuses t .reach p e := by
  rw [← error?_walkPath_iff (.inl rfl), find]
  cases t.walkPath .reach p <;> simp [Walk.error?]

theorem probe_eq_refused_iff : t.probe p = .refused e ↔ Refuses t .look p e := by
  rw [← error?_walkPath_iff (.inr rfl), probe]
  cases t.walkPath .look p with
  | found place o => cases o <;> simp [Walk.error?]
  | absent | refused => simp [Walk.error?]

theorem saysMissing_iff_refuses {α : Type} {answer : Except SystemError α}
    (h : ∀ e, answer = .error e ↔ Refuses t w p e) :
    SaysMissing answer ↔ Refuses t w p (.call .noEntry) := by
  constructor
  · rintro ⟨e, he, hmissing⟩
    rw [h] at he
    exact he.isNotFound_iff.1 hmissing ▸ he
  · intro hrefuses
    exact ⟨_, (h _).2 hrefuses, hrefuses.isNotFound_iff.2 rfl⟩

/-- What is found is there, even if it cannot be read. -/
theorem saysMissing_read_iff : SaysMissing (t.read p) ↔ SaysMissing (t.find p) := by
  rw [read]
  cases t.find p with
  | error e => simp [SaysMissing]
  | ok found =>
    have hother : Errno.isDirectory ≠ .noEntry ∧ Errno.linkLoop ≠ .noEntry := by decide
    obtain ⟨place, _ | _ | _ | _⟩ := found <;> simp [SaysMissing, SystemError.isNotFound, hother]

theorem saysMissing_list_iff : SaysMissing (t.list p) ↔ SaysMissing (t.find p) := by
  rw [list]
  cases t.find p with
  | error e => simp [SaysMissing]
  | ok found =>
    have hother : Errno.notDirectory ≠ .noEntry := by decide
    obtain ⟨place, _ | _ | _ | _⟩ := found <;> simp [SaysMissing, SystemError.isNotFound, hother]

end Tree
end ServiceUnits
