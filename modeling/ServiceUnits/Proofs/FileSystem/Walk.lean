import ServiceUnits.FileSystem.Tree

namespace ServiceUnits

open Text

namespace Tree

/-- A step that is looked for in a directory. -/
structure IsName (step : Bytes) : Prop where
  not_idle : RawPath.isIdle step = false
  not_up : step ≠ RawPath.up
  short : step.length ≤ maxNameBytes

/-- The walk along a path, with `n` links still to be followed, arrives at a place with `m` links
left. The last link is followed like the others. -/
inductive Arrives (t : Tree) : Nat → Location → List Bytes → Nat → Location → Prop
  | here (n : Nat) (place : Location) : Arrives t n place [] n place
  | idle {n m : Nat} {place there : Location} {step : Bytes} {rest : List Bytes}
      (hd : t.isDirectory place = true) (hs : RawPath.isIdle step = true)
      (h : Arrives t n place rest m there) : Arrives t n place (step :: rest) m there
  | up {n m : Nat} {place there : Location} {rest : List Bytes}
      (hd : t.isDirectory place = true) (h : Arrives t n place.dropLast rest m there) :
      Arrives t n place (RawPath.up :: rest) m there
  | down {n m : Nat} {place there : Location} {step : Bytes} {rest : List Bytes}
      {o : Object} (hd : t.isDirectory place = true) (hs : IsName step)
      (ho : t.object? (place ++ [step]) = some o) (hl : ∀ target, o ≠ .link target)
      (h : Arrives t n (place ++ [step]) rest m there) : Arrives t n place (step :: rest) m there
  | link {n m : Nat} {place there : Location} {step target : Bytes} {rest : List Bytes}
      (hd : t.isDirectory place = true) (hs : IsName step)
      (ho : t.object? (place ++ [step]) = some (.link target))
      (h : Arrives t n (origin target place) (steps target ++ rest) m there) :
      Arrives t (n + 1) place (step :: rest) m there

variable {t : Tree} {n m k : Nat} {place there mid : Location} {path xs ys : List Bytes}

theorem not_isName_of_isIdle {step : Bytes} (h : RawPath.isIdle step = true) : ¬ IsName step := by
  intro hs
  rw [hs.not_idle] at h
  cases h

theorem not_isName_up : ¬ IsName RawPath.up := fun h => h.not_up rfl

theorem arrives_nil_iff : Arrives t n place [] m there ↔ n = m ∧ place = there := by
  constructor
  · intro h
    cases h
    exact ⟨rfl, rfl⟩
  · rintro ⟨rfl, rfl⟩
    exact .here n place

/-- A walk leads to one place, and follows as many links each time. -/
theorem Arrives.unique {m' : Nat} {there' : Location} (h : Arrives t n place path m there)
    (h' : Arrives t n place path m' there') : m = m' ∧ there = there' := by
  induction h with
  | here => exact arrives_nil_iff.1 h'
  | idle hd hs _ ih =>
    cases h' with
    | idle _ _ h' => exact ih h'
    | up => cases hs
    | down _ hn | link _ hn => exact absurd hn (not_isName_of_isIdle hs)
  | up hd _ ih =>
    cases h' with
    | idle _ hi => cases hi
    | up _ h' => exact ih h'
    | down _ hn | link _ hn => exact absurd hn not_isName_up
  | down hd hs ho hl _ ih =>
    cases h' with
    | idle _ hi => exact absurd hs (not_isName_of_isIdle hi)
    | up => exact absurd hs not_isName_up
    | down _ _ _ _ h' => exact ih h'
    | link _ _ ho' => exact absurd (Option.some.inj (ho.symm.trans ho')) (hl _)
  | link hd hs ho _ ih =>
    cases h' with
    | idle _ hi => exact absurd hs (not_isName_of_isIdle hi)
    | up => exact absurd hs not_isName_up
    | down _ _ ho' hl => exact absurd (Option.some.inj (ho'.symm.trans ho)) (hl _)
    | link _ _ ho' h' =>
      cases ho.symm.trans ho'
      exact ih h'

theorem Arrives.append (h : Arrives t n place xs k mid) (h' : Arrives t k mid ys m there) :
    Arrives t n place (xs ++ ys) m there := by
  induction h with
  | here => exact h'
  | idle hd hs _ ih => exact .idle hd hs (ih h')
  | up hd _ ih => exact .up hd (ih h')
  | down hd hs ho hl _ ih => exact .down hd hs ho hl (ih h')
  | link hd hs ho _ ih =>
    have hall := ih h'
    rw [List.append_assoc] at hall
    exact .link hd hs ho hall

/-- A walk along two paths is at a place in between. -/
theorem Arrives.split (h : Arrives t n place (xs ++ ys) m there) :
    ∃ k mid, Arrives t n place xs k mid ∧ Arrives t k mid ys m there := by
  generalize hp : xs ++ ys = path at h
  induction h generalizing xs with
  | here n place =>
    obtain ⟨rfl, rfl⟩ := List.append_eq_nil_iff.1 hp
    exact ⟨n, place, .here n place, .here n place⟩
  | @idle n m place there step rest hd hs h ih =>
    rcases List.append_eq_cons_iff.1 hp with ⟨rfl, rfl⟩ | ⟨xs, rfl, rfl⟩
    · exact ⟨n, place, .here n place, .idle hd hs h⟩
    · obtain ⟨k, mid, hx, hy⟩ := ih rfl
      exact ⟨k, mid, .idle hd hs hx, hy⟩
  | @up n m place there rest hd h ih =>
    rcases List.append_eq_cons_iff.1 hp with ⟨rfl, rfl⟩ | ⟨xs, rfl, rfl⟩
    · exact ⟨n, place, .here n place, .up hd h⟩
    · obtain ⟨k, mid, hx, hy⟩ := ih rfl
      exact ⟨k, mid, .up hd hx, hy⟩
  | @down n m place there step rest o hd hs ho hl h ih =>
    rcases List.append_eq_cons_iff.1 hp with ⟨rfl, rfl⟩ | ⟨xs, rfl, rfl⟩
    · exact ⟨n, place, .here n place, .down hd hs ho hl h⟩
    · obtain ⟨k, mid, hx, hy⟩ := ih rfl
      exact ⟨k, mid, .down hd hs ho hl hx, hy⟩
  | @link n m place there step target rest hd hs ho h ih =>
    rcases List.append_eq_cons_iff.1 hp with ⟨rfl, rfl⟩ | ⟨xs, rfl, rfl⟩
    · exact ⟨n + 1, place, .here _ place, .link hd hs ho h⟩
    · obtain ⟨k, mid, hx, hy⟩ := ih (List.append_assoc _ _ _)
      exact ⟨k, mid, .link hd hs ho hx, hy⟩

theorem arrives_append_iff : Arrives t n place (xs ++ ys) m there ↔
    ∃ k mid, Arrives t n place xs k mid ∧ Arrives t k mid ys m there := by
  constructor
  · exact Arrives.split
  · rintro ⟨k, mid, hx, hy⟩
    exact hx.append hy

/-- With more links to be followed a walk arrives at the same place. -/
theorem Arrives.more (h : Arrives t n place path m there) (j : Nat) :
    Arrives t (n + j) place path (m + j) there := by
  induction h with
  | here => exact .here _ _
  | idle hd hs _ ih => exact .idle hd hs ih
  | up hd _ ih => exact .up hd ih
  | down hd hs ho hl _ ih => exact .down hd hs ho hl ih
  | link hd hs ho _ ih =>
    rw [Nat.add_right_comm]
    exact .link hd hs ho ih

theorem Arrives.le (h : Arrives t n place path m there) : m ≤ n := by
  induction h with
  | here => exact Nat.le_refl _
  | idle _ _ _ ih | up _ _ ih | down _ _ _ _ _ ih => exact ih
  | link _ _ _ _ ih => exact Nat.le_succ_of_le ih

theorem Arrives.of_idle {step : Bytes} (hs : RawPath.isIdle step = true)
    (h : Arrives t n place (step :: path) m there) : Arrives t n place path m there := by
  cases h with
  | idle _ _ h => exact h
  | up => cases hs
  | down _ hn | link _ hn => exact absurd hn (not_isName_of_isIdle hs)

/-- Steps that name nothing can be left out. -/
theorem Arrives.filter_idle (h : Arrives t n place path m there) :
    Arrives t n place (path.filter fun step => !RawPath.isIdle step) m there := by
  induction path generalizing n place with
  | nil => exact h
  | cons step rest ih =>
    cases hs : RawPath.isIdle step with
    | true =>
      rw [List.filter_cons_of_neg (by simp [hs])]
      exact ih (h.of_idle hs)
    | false =>
      rw [List.filter_cons_of_pos (by simp [hs]), ← List.singleton_append]
      obtain ⟨k, mid, hstep, hrest⟩ := arrives_append_iff.1 (List.singleton_append ▸ h)
      exact hstep.append (ih hrest)

/-- How a walk goes on at a link, with `n` links still to be followed. -/
def walkOn (t : Tree) (w : Purpose) : Nat → Location → List Bytes → Walk
  | 0, _, _ => .refused (.call .linkLoop)
  | n + 1, place, path => t.walk w n place path

theorem walk_nil (w : Purpose) (n : Nat) (place : Location) : t.walk w n place [] =
    match t.object? place with
    | some o => .found place o
    | none => .refused (.call .noEntry) := by
  cases n <;> rfl

theorem walk_cons (w : Purpose) (n : Nat) (place : Location) (step : Bytes) (rest : List Bytes) :
    t.walk w n place (step :: rest) =
      if !t.isDirectory place then .refused (.call .notDirectory)
      else if RawPath.isIdle step then t.walk w n place rest
      else if step = RawPath.up then t.walk w n place.dropLast rest
      else if w = .makeFile && rest = [[]] then .refused (.call .isDirectory)
      else if maxNameBytes < step.length then .refused (.call .nameTooLong)
      else match t.object? (place ++ [step]) with
        | none =>
          if rest = [] || stopsAt w rest then .absent place step else .refused (.call .noEntry)
        | some (.link target) =>
          if stopsAt w rest then .found (place ++ [step]) (.link target)
          else t.walkOn w n (origin target place) (steps target ++ rest)
        | some o =>
          if stopsAt w rest then .found (place ++ [step]) o
          else t.walk w n (place ++ [step]) rest := by
  cases n <;> rfl

theorem walk_idle {w : Purpose} {step : Bytes} (hd : t.isDirectory place = true)
    (hs : RawPath.isIdle step = true) (rest : List Bytes) :
    t.walk w n place (step :: rest) = t.walk w n place rest := by
  rw [walk_cons, hd]
  simp [hs]

theorem walk_up {w : Purpose} (hd : t.isDirectory place = true) (rest : List Bytes) :
    t.walk w n place (RawPath.up :: rest) = t.walk w n place.dropLast rest := by
  rw [walk_cons, hd]
  simp

/-- At a name in a directory the object of this name decides. -/
theorem walk_name {w : Purpose} {step : Bytes} (hw : w ≠ .makeFile)
    (hd : t.isDirectory place = true) (hs : IsName step) (rest : List Bytes) :
    t.walk w n place (step :: rest) =
      match t.object? (place ++ [step]) with
      | none =>
        if rest = [] || stopsAt w rest then .absent place step else .refused (.call .noEntry)
      | some (.link target) =>
        if stopsAt w rest then .found (place ++ [step]) (.link target)
        else t.walkOn w n (origin target place) (steps target ++ rest)
      | some o =>
        if stopsAt w rest then .found (place ++ [step]) o
        else t.walk w n (place ++ [step]) rest := by
  have hshort : ¬ maxNameBytes < step.length := Nat.not_lt.2 hs.short
  rw [walk_cons, hd]
  simp [hs.not_idle, hs.not_up, hw, hshort]

theorem walk_down {w : Purpose} {step : Bytes} {o : Object} (hw : w ≠ .makeFile)
    (hd : t.isDirectory place = true) (hs : IsName step)
    (ho : t.object? (place ++ [step]) = some o) (hl : ∀ target, o ≠ .link target)
    (rest : List Bytes) : t.walk w n place (step :: rest) =
      if stopsAt w rest then .found (place ++ [step]) o else t.walk w n (place ++ [step]) rest := by
  rw [walk_name hw hd hs, ho]
  cases o with
  | link target => exact absurd rfl (hl target)
  | _ => rfl

theorem walk_link {w : Purpose} {step target : Bytes} (hw : w ≠ .makeFile)
    (hd : t.isDirectory place = true) (hs : IsName step)
    (ho : t.object? (place ++ [step]) = some (.link target)) (rest : List Bytes) :
    t.walk w (n + 1) place (step :: rest) =
      if stopsAt w rest then .found (place ++ [step]) (.link target)
      else t.walk w n (origin target place) (steps target ++ rest) := by
  rw [walk_name hw hd hs, ho]
  rfl

theorem Arrives.walk_found {o : Object} (h : Arrives t n place path m there)
    (ho : t.object? there = some o) : t.walk .reach n place path = .found there o := by
  induction h with
  | here => rw [walk_nil, ho]
  | idle hd hs _ ih => rw [walk_idle hd hs, ih ho]
  | up hd _ ih => rw [walk_up hd, ih ho]
  | down hd hs hob hl _ ih =>
    rw [walk_down (by decide) hd hs hob hl]
    exact ih ho
  | link hd hs hob _ ih =>
    rw [walk_link (by decide) hd hs hob]
    exact ih ho

/-- The walk arrives at a directory, and the last step is a name in it. -/
structure EndsIn (t : Tree) (n : Nat) (place : Location) (path pre : List Bytes)
    (name : Bytes) (k : Nat) (dir : Location) : Prop where
  path_eq : path = pre ++ [name]
  arrives : Arrives t n place pre k dir
  isDirectory : t.isDirectory dir = true
  isName : IsName name

/-- What a walk finds: the object that it arrives at or, if it only looks, the link that the last
step names. -/
inductive Finds (t : Tree) (w : Purpose) (n : Nat) (place : Location) (path : List Bytes) :
    Location → Object → Prop
  | arrived {m : Nat} {there : Location} {o : Object} (h : Arrives t n place path m there)
      (ho : t.object? there = some o) : Finds t w n place path there o
  | lastLink {pre : List Bytes} {name target : Bytes} {k : Nat} {dir : Location}
      (hw : w = .look) (h : EndsIn t n place path pre name k dir)
      (ho : t.object? (dir ++ [name]) = some (.link target)) :
      Finds t w n place path (dir ++ [name]) (.link target)

/-- One more step before a walk. -/
theorem Finds.cons {w : Purpose} {n' : Nat} {place' : Location} {step : Bytes} {o : Object}
    (hstep : ∀ {rest m there}, Arrives t n' place' rest m there →
      Arrives t n place (step :: rest) m there)
    (h : Finds t w n' place' path there o) : Finds t w n place (step :: path) there o := by
  cases h with
  | arrived h ho => exact .arrived (hstep h) ho
  | @lastLink pre name target k dir hw h ho =>
    obtain ⟨rfl, harrives, hd, hname⟩ := h
    exact .lastLink hw ⟨rfl, hstep harrives, hd, hname⟩ ho

/-- A link before a walk. If the walk only looks, the link is not its last step. -/
theorem Finds.through {w : Purpose} {step target : Bytes} {o : Object}
    (hd : t.isDirectory place = true) (hs : IsName step)
    (ho : t.object? (place ++ [step]) = some (.link target)) (hrest : w = .look → path ≠ [])
    (h : Finds t w n (origin target place) (steps target ++ path) there o) :
    Finds t w (n + 1) place (step :: path) there o := by
  cases h with
  | arrived h hob => exact .arrived (.link hd hs ho h) hob
  | @lastLink pre name _ k dir hw h hob =>
    obtain ⟨heq, harrives, hdir, hname⟩ := h
    obtain ⟨front, last, rfl⟩ : ∃ front last, path = front ++ [last] :=
      ⟨_, _, (List.dropLast_concat_getLast (hrest hw)).symm⟩
    rw [← List.append_assoc] at heq
    obtain ⟨rfl, hlast⟩ := List.append_inj' heq rfl
    obtain rfl := List.singleton_inj.1 hlast
    exact .lastLink hw ⟨rfl, .link hd hs ho harrives, hdir, hname⟩ hob

theorem isName_of_not {step : Bytes}
    (hi : ¬ RawPath.isIdle step = true) (hu : ¬ step = RawPath.up)
    (hl : ¬ maxNameBytes < step.length) : IsName step :=
  ⟨Bool.eq_false_iff.2 hi, hu, Nat.not_lt.1 hl⟩

theorem stopsAt_iff {w : Purpose} (hw : w = .reach ∨ w = .look) {rest : List Bytes} :
    stopsAt w rest = true ↔ w = .look ∧ rest = [] := by
  rcases hw with rfl | rfl <;> simp [stopsAt]

/-- What is found along some steps, if it is known what is found from the links on. -/
theorem finds_of_walkSteps {w : Purpose} (hw : w = .reach ∨ w = .look)
    {follow : Location → List Bytes → Walk}
    (hfollow : ∀ {place path there o}, follow place path = .found there o →
      ∃ m, n = m + 1 ∧ Finds t w m place path there o)
    {o : Object} (h : t.walkSteps w follow place path = .found there o) :
    Finds t w n place path there o := by
  fun_induction t.walkSteps w follow place path with
  | case1 here o' ho =>
    obtain ⟨rfl, rfl⟩ := Walk.found.inj h
    exact .arrived (.here n here) ho
  | case4 here step rest hd hs ih =>
    exact (ih h).cons fun ha => .idle (by simpa using hd) hs ha
  | case5 here rest hd _ ih => exact (ih h).cons fun ha => .up (by simpa using hd) ha
  | case10 here step rest hd hi hu _ hl place target ho hstop =>
    obtain ⟨rfl, rfl⟩ := Walk.found.inj h
    obtain ⟨rfl, rfl⟩ := (stopsAt_iff hw).1 hstop
    exact .lastLink rfl ⟨rfl, .here n here, by simpa using hd, isName_of_not hi hu hl⟩ ho
  | case11 here step rest hd hi hu _ hl place target ho hstop =>
    obtain ⟨m, rfl, hfinds⟩ := hfollow h
    refine hfinds.through (by simpa using hd) (isName_of_not hi hu hl) ho fun hlook hrest => ?_
    exact hstop ((stopsAt_iff hw).2 ⟨hlook, hrest⟩)
  | case12 here step rest hd hi hu _ hl place o' hno ho hstop =>
    obtain ⟨rfl, rfl⟩ := Walk.found.inj h
    obtain ⟨rfl, rfl⟩ := (stopsAt_iff hw).1 hstop
    exact .arrived (.down (by simpa using hd) (isName_of_not hi hu hl) ho hno (.here n _)) ho
  | case13 here step rest hd hi hu _ hl place o' hno ho hstop ih =>
    exact (ih h).cons fun ha => .down (by simpa using hd) (isName_of_not hi hu hl) ho hno ha
  | _ => cases h

theorem finds_of_walk {w : Purpose} (hw : w = .reach ∨ w = .look) {o : Object}
    (h : t.walk w n place path = .found there o) : Finds t w n place path there o := by
  induction n generalizing place path there o with
  | zero => exact finds_of_walkSteps hw (fun hlink => by cases hlink) h
  | succ n ih => exact finds_of_walkSteps hw (fun hlink => ⟨n, rfl, ih hlink⟩) h

theorem walk_reach_iff {o : Object} : t.walk .reach n place path = .found there o ↔
    ∃ m, Arrives t n place path m there ∧ t.object? there = some o := by
  constructor
  · intro h
    cases finds_of_walk (.inl rfl) h with
    | arrived h ho => exact ⟨_, h, ho⟩
    | lastLink hw => cases hw
  · rintro ⟨m, h, ho⟩
    exact h.walk_found ho

/-- A place that is a directory, and so is every place above it. -/
def IsRooted (t : Tree) (place : Location) : Prop :=
  ∀ above, above <+: place → t.isDirectory above = true

/-- A place that no link stands at, with directories above it. -/
structure Stands (t : Tree) (place : Location) : Prop where
  above : place ≠ [] → t.IsRooted place.dropLast
  not_link : ∀ target, t.object? place ≠ some (.link target)

theorem isRooted_nil (t : Tree) : t.IsRooted [] := by
  intro above habove
  rw [List.prefix_nil.1 habove]
  rfl

theorem IsRooted.dropLast (h : t.IsRooted place) : t.IsRooted place.dropLast :=
  fun above habove => h above (habove.trans (List.dropLast_prefix place))

/-- A path starts at a rooted place. -/
theorem IsRooted.origin (h : t.IsRooted place) (s : Bytes) :
    t.IsRooted (Tree.origin s place) := by
  rw [Tree.origin]
  split
  · exact t.isRooted_nil
  · exact h

theorem IsRooted.isDirectory (h : t.IsRooted place) : t.isDirectory place = true :=
  h place (List.prefix_refl place)

theorem object?_of_isDirectory (h : t.isDirectory place = true) :
    t.object? place = some .directory := by
  rw [Tree.isDirectory] at h
  split at h
  · assumption
  · cases h

theorem IsRooted.stands (h : t.IsRooted place) : t.Stands place := by
  refine ⟨fun _ => h.dropLast, fun target htarget => ?_⟩
  rw [object?_of_isDirectory h.isDirectory] at htarget
  cases htarget

theorem Stands.isRooted (h : t.Stands place) (hd : t.isDirectory place = true) :
    t.IsRooted place := by
  intro above habove
  by_cases hne : place = []
  · rw [hne] at habove
    exact t.isRooted_nil above habove
  · rw [← List.dropLast_concat_getLast hne, List.prefix_concat_iff,
      List.dropLast_concat_getLast hne] at habove
    rcases habove with rfl | habove
    · exact hd
    · exact h.above hne above habove

/-- A walk from a rooted place never stops at a link. -/
theorem Arrives.stands (h : Arrives t n place path m there) (hp : t.Stands place) :
    t.Stands there := by
  induction h with
  | here => exact hp
  | idle _ _ _ ih => exact ih hp
  | up hd _ ih => exact ih (hp.isRooted hd).dropLast.stands
  | down hd _ ho hl _ ih =>
    refine ih ⟨fun _ => ?_, fun target htarget => ?_⟩
    · rw [List.dropLast_concat]
      exact hp.isRooted hd
    · exact hl target (Option.some.inj (ho.symm.trans htarget))
  | link hd _ _ _ ih => exact ih ((hp.isRooted hd).origin _).stands

end Tree
end ServiceUnits
