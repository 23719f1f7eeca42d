import ServiceUnits.Proofs.FileSystem.Walk
import ServiceUnits.Proofs.Path.Raw

namespace ServiceUnits

open Text

namespace Probe

/-- The text that a relative target makes with the directory of its link, not yet simplified. -/
def joined? (p : RawPath) (target : Bytes) : Option String :=
  if target.head? = some RawPath.slash then none else p.parent?.map (joinedText · target)

variable {probe : RawPath → Probe} {p q : RawPath} {places : List RawPath} {target : Bytes}

theorem targetOf_absolute (h : target.head? = some RawPath.slash) :
    targetOf p target = .ok ⟨target⟩ := if_pos h

theorem joined?_eq_some {s : String} (h : joined? p target = some s) :
    target.head? ≠ some RawPath.slash ∧ ∃ dir, p.parent? = some dir ∧ s = joinedText dir target := by
  rw [joined?] at h
  split at h
  · cases h
  · rename_i hrel
    obtain ⟨dir, hdir, rfl⟩ := Option.map_eq_some_iff.1 h
    exact ⟨hrel, dir, hdir, rfl⟩

theorem targetOf_relative {s text : String} (hs : joined? p target = some s)
    (h : Path.simplify? s = some text) : targetOf p target = .ok (.ofText text) := by
  obtain ⟨hrel, dir, hdir, rfl⟩ := joined?_eq_some hs
  simp only [targetOf, if_neg hrel, hdir, h]

theorem targetOf_eq_ok (h : targetOf p target = .ok q) :
    (target.head? = some RawPath.slash ∧ q = ⟨target⟩) ∨
      ∃ s text, joined? p target = some s ∧ Path.simplify? s = some text ∧ q = .ofText text := by
  rw [targetOf] at h
  split at h
  · rename_i habs
    exact .inl ⟨habs, (Except.ok.inj h).symm⟩
  · rename_i hrel
    split at h
    · cases h
    · rename_i dir hdir
      split at h
      · rename_i text htext
        exact .inr ⟨_, text, by rw [joined?, if_neg hrel, hdir]; rfl, htext,
          (Except.ok.inj h).symm⟩
      · cases h

theorem next_eq_ok {answer : Except SystemError Bytes} (h : next p answer = .ok q) :
    ∃ target, answer = .ok target ∧ targetOf p target = .ok q := by
  cases answer with
  | ok target => exact ⟨target, rfl, h⟩
  | error e => cases h

/-- A text joined from a link and its target, both of them texts, has the names on both without the
link's own, and starts where the link does. -/
theorem joined?_spec {link target joined : String}
    (h : joined? link (utf8 target) = some joined) :
    RawPath.names (utf8 joined) =
        (RawPath.names (utf8 link)).dropLast ++ RawPath.names (utf8 target) ∧
      ((utf8 joined).head? = some RawPath.slash ↔ (utf8 link).head? = some RawPath.slash) := by
  obtain ⟨-, dir, hdir, rfl⟩ := joined?_eq_some h
  obtain ⟨hnames, habs⟩ := RawPath.parent?_spec hdir
  have hdirText : utf8 dir.text = dir.bytes := RawPath.utf8_text (RawPath.isText_parent? hdir)
  rw [show RawPath.names (utf8 link) = RawPath.names (RawPath.ofText link).bytes from rfl, ← hnames,
    joinedText, lossy_utf8, RawPath.names_utf8, Path.names_append, List.map_append,
    ← RawPath.names_utf8 target]
  refine ⟨?_, ?_⟩
  · rw [← hdirText, RawPath.names_utf8 dir.text]
    split
    · rename_i hempty
      rw [hempty]
      rfl
    · rfl
  · refine Iff.trans ?_ habs
    rw [← hdirText, RawPath.head?_utf8, RawPath.head?_utf8]
    split
    · rename_i hempty
      simp [hempty]
    · rename_i hne
      have hne' : dir.text.toList ≠ [] := by simpa using hne
      simp [List.head?_append_of_ne_nil _ hne']

/-- The chain of a path: up to a place that is not a link, each is followed by its target. -/
inductive Followed (probe : RawPath → Probe) : RawPath → List RawPath → Prop
  | last {p : RawPath} (hp : probe p = .plain) : Followed probe p [p]
  | next {p q : RawPath} {target : Bytes} {rest : List RawPath}
      (hp : probe p = .link (.ok target)) (hq : targetOf p target = .ok q)
      (h : Followed probe q rest) : Followed probe p (p :: rest)

theorem followed_of_chaseFrom {n : Nat} (h : chaseFrom probe n p = .ok places) :
    Followed probe p places := by
  fun_induction chaseFrom probe n p generalizing places with
  | case1 => cases h
  | case2 n p hp =>
    obtain rfl := Except.ok.inj h
    exact .last hp
  | case3 => cases h
  | case4 => cases h
  | case5 p answer hp n q hnext ih =>
    obtain ⟨target, rfl, hq⟩ := next_eq_ok hnext
    cases hrest : chaseFrom probe n q with
    | error e =>
      rw [hrest] at h
      cases h
    | ok rest =>
      rw [hrest] at h
      obtain rfl := Except.ok.inj h
      exact .next hp hq (ih hrest)

theorem Followed.mem (h : Followed probe p places) : p ∈ places := by
  cases h <;> exact List.mem_cons_self

theorem Followed.ne_refused (h : Followed probe p places) (e : SystemError) :
    probe p ≠ .refused e := by
  cases h with
  | last hp | next hp =>
    rw [hp]
    simp

end Probe

theorem System.chase_of_chain {s : System} {p : RawPath} {places : List RawPath}
    (h : s.chain p = .ok places) : Probe.chase s.probe p = .ok places := by
  rw [System.chain] at h
  cases hp : Probe.chase s.probe p with
  | error e =>
    rw [hp] at h
    cases h
  | ok ps =>
    rw [hp] at h
    exact congrArg Except.ok (Except.ok.inj h)

namespace Tree

variable {t : Tree} {p q : RawPath} {s : String} {place : Location} {o : Object} {target : Bytes}

/-- What the system takes as a path. -/
structure Walkable (p : RawPath) : Prop where
  no_nul : 0 ∉ p.bytes
  ne_empty : p.bytes ≠ []
  short : p.bytes.length < pathBytes

theorem walkPath_eq_found_iff {w : Purpose} : t.walkPath w p = .found place o ↔
    Walkable p ∧ t.walk w maxLinks (origin p.bytes t.working) (steps p.bytes) =
      .found place o := by
  rw [walkPath]
  split
  · rename_i hnul
    exact iff_of_false (by simp) fun h => h.1.no_nul hnul
  · rename_i hnul
    split
    · rename_i hempty
      exact iff_of_false (by simp) fun h => h.1.ne_empty hempty
    · rename_i hempty
      split
      · rename_i hlong
        exact iff_of_false (by simp) fun h => absurd h.1.short (Nat.not_lt.2 hlong)
      · rename_i hlong
        exact (and_iff_right ⟨hnul, hempty, Nat.not_le.1 hlong⟩).symm

theorem find_eq_ok_iff : t.find p = .ok (place, o) ↔ Walkable p ∧
    ∃ m, Arrives t maxLinks (origin p.bytes t.working) (steps p.bytes) m place ∧
      t.object? place = some o := by
  rw [← walk_reach_iff, ← walkPath_eq_found_iff, find]
  cases t.walkPath .reach p <;> simp

theorem probe_eq_plain (h : t.probe p = .plain) : ∃ x, t.find p = .ok x := by
  rw [probe] at h
  split at h
  · cases h
  · rename_i place o hnot hfound
    obtain ⟨hs, hwalk⟩ := walkPath_eq_found_iff.1 hfound
    cases finds_of_walk (.inr rfl) hwalk with
    | arrived harrives ho => exact ⟨_, find_eq_ok_iff.2 ⟨hs, _, harrives, ho⟩⟩
    | lastLink => exact (hnot _ rfl).elim
  · cases h
  · cases h

/-- What is seen as a link in a tree can be read. -/
theorem probe_eq_link {answer : Except SystemError Bytes} (hw : t.IsRooted t.working)
    (h : t.probe p = .link answer) : Walkable p ∧ ∃ target pre name k dir, answer = .ok target ∧
      EndsIn t maxLinks (origin p.bytes t.working) (steps p.bytes) pre name k dir ∧
        t.object? (dir ++ [name]) = some (.link target) := by
  rw [probe] at h
  split at h
  · rename_i place target hfound
    obtain rfl := Probe.link.inj h
    obtain ⟨hs, hwalk⟩ := walkPath_eq_found_iff.1 hfound
    cases finds_of_walk (.inr rfl) hwalk with
    -- Only the last name is not followed; what a walk arrives at otherwise is no link.
    | arrived harrives ho =>
      exact absurd ho ((harrives.stands (hw.origin _).stands).not_link target)
    | lastLink _ hends ho => exact ⟨hs, target, _, _, _, _, rfl, hends, ho⟩
  · cases h
  · cases h
  · cases h

/-- Where the names on a path lead to. A slash or a dot at the end asks for nothing here. -/
def Leads (t : Tree) (p : RawPath) (place : Location) : Prop :=
  ∃ m, Arrives t maxLinks (origin p.bytes t.working) (RawPath.names p.bytes) m place

/-- Where a relative target leads to from the directory of a path. -/
def LeadsBeside (t : Tree) (p : RawPath) (target : Bytes) (place : Location) : Prop :=
  ∃ m, Arrives t maxLinks (origin p.bytes t.working)
    ((RawPath.names p.bytes).dropLast ++ RawPath.names target) m place

theorem Leads.unique {there : Location} (h : t.Leads p place) (h' : t.Leads p there) :
    place = there := by
  obtain ⟨m, h⟩ := h
  obtain ⟨m', h'⟩ := h'
  exact (h.unique h').2

theorem LeadsBeside.unique {there : Location} (h : t.LeadsBeside p target place)
    (h' : t.LeadsBeside p target there) : place = there := by
  obtain ⟨m, h⟩ := h
  obtain ⟨m', h'⟩ := h'
  exact (h.unique h').2

theorem filter_steps (bs : Bytes) :
    (steps bs).filter (fun step => !RawPath.isIdle step) = RawPath.names bs := by
  have hlast : (if bs.getLast? = some RawPath.slash then [[]] else ([] : List Bytes)).filter
      (fun step => !RawPath.isIdle step) = [] := by
    split <;> rfl
  rw [steps, List.filter_append, hlast, List.append_nil, List.filter_filter, RawPath.names]
  refine List.filter_congr fun step _ => ?_
  by_cases hstep : step = [] <;> simp [hstep, RawPath.isIdle]

theorem leads_of_find (h : t.find p = .ok (place, o)) : t.Leads p place := by
  obtain ⟨-, m, harrives, -⟩ := find_eq_ok_iff.1 h
  have hnames := harrives.filter_idle
  rw [filter_steps] at hnames
  exact ⟨m, hnames⟩

theorem origin_congr {a b : Bytes} (h : a.head? = some RawPath.slash ↔ b.head? = some RawPath.slash)
    (here : Location) : origin a here = origin b here := by
  simp only [origin, h]

theorem origin_absolute {a : Bytes} (h : a.head? = some RawPath.slash) (here : Location) :
    origin a here = [] := if_pos h

theorem origin_relative {a : Bytes} (h : a.head? ≠ some RawPath.slash) (here : Location) :
    origin a here = here := if_neg h

theorem names_of_endsIn {n m : Nat} {here dir : Location} {pre : List Bytes} {name : Bytes}
    (h : EndsIn t n here (steps p.bytes) pre name m dir) :
    RawPath.names p.bytes = (pre.filter fun step => !RawPath.isIdle step) ++ [name] := by
  rw [← filter_steps, h.path_eq, List.filter_append]
  simp [h.isName.not_idle]

/-- Where something is seen at a path and its names lead to an object, the system finds it. -/
theorem find_of_leads (hw : t.IsRooted t.working) (hp : ∀ e, t.probe p ≠ .refused e)
    (h : t.Leads p place) (ho : t.object? place = some o) : t.find p = .ok (place, o) := by
  cases hlook : t.probe p with
  | refused e => exact absurd hlook (hp e)
  | plain =>
    obtain ⟨⟨there, o'⟩, hfind⟩ := probe_eq_plain hlook
    obtain rfl := h.unique (leads_of_find hfind)
    obtain ⟨-, m, -, ho'⟩ := find_eq_ok_iff.1 hfind
    rw [hfind, Option.some.inj (ho'.symm.trans ho)]
  | link answer =>
    obtain ⟨hs, target, pre, name, k, dir, -, hends, -⟩ := probe_eq_link hw hlook
    obtain ⟨m, harrives⟩ := h
    rw [names_of_endsIn hends] at harrives
    obtain ⟨k', dir', hpre, hlast⟩ := harrives.split
    obtain ⟨rfl, rfl⟩ := hends.arrives.filter_idle.unique hpre
    refine find_eq_ok_iff.2 ⟨hs, m, ?_, ho⟩
    rw [hends.path_eq]
    exact hends.arrives.append hlast

/-- What the target of a link names is where the link leads to. -/
theorem leads_target (hw : t.IsRooted t.working) (hlink : t.probe p = .link (.ok target))
    (hfind : t.find p = .ok (place, o)) :
    (target.head? = some RawPath.slash → t.Leads ⟨target⟩ place) ∧
      (target.head? ≠ some RawPath.slash → t.LeadsBeside p target place) := by
  obtain ⟨-, target', pre, name, k, dir, htarget, hends, hob⟩ := probe_eq_link hw hlink
  obtain rfl := Except.ok.inj htarget
  obtain ⟨-, m, harrives, -⟩ := find_eq_ok_iff.1 hfind
  rw [hends.path_eq] at harrives
  obtain ⟨k', dir', hpre, hlast⟩ := harrives.split
  obtain ⟨rfl, rfl⟩ := hends.arrives.unique hpre
  -- The last step follows the link: from its directory the walk goes along the target.
  obtain ⟨n, hk, hwalk⟩ : ∃ n, k = n + 1 ∧
      Arrives t n (origin target dir) (RawPath.names target) m place := by
    cases hlast with
    | idle _ hi => exact absurd hends.isName (not_isName_of_isIdle hi)
    | up => exact absurd hends.isName not_isName_up
    | down _ _ ho hl => exact absurd (Option.some.inj (ho.symm.trans hob)) (hl _)
    | @link n _ _ _ _ target' _ _ _ ho h =>
      obtain rfl := Object.link.inj (Option.some.inj (ho.symm.trans hob))
      rw [List.append_nil] at h
      exact ⟨n, rfl, filter_steps target' ▸ h.filter_idle⟩
  subst hk
  refine ⟨fun habs => ?_, fun hrel => ?_⟩
  · rw [origin_absolute habs] at hwalk
    have hn : n ≤ maxLinks := Nat.le_of_succ_le hends.arrives.le
    have hall := hwalk.more (maxLinks - n)
    rw [Nat.add_sub_cancel' hn] at hall
    exact ⟨_, origin_absolute habs t.working ▸ hall⟩
  · rw [origin_relative hrel] at hwalk
    refine ⟨m + 1, ?_⟩
    rw [names_of_endsIn hends, List.dropLast_concat]
    exact hends.arrives.filter_idle.append (hwalk.more 1)

/-- The joined text leads to where the target leads from the directory of the link. -/
theorem leads_joined_iff {link target joined : String}
    (h : Probe.joined? link (utf8 target) = some joined) :
    t.Leads joined place ↔ t.LeadsBeside link (utf8 target) place := by
  obtain ⟨hnames, habs⟩ := Probe.joined?_spec h
  rw [Leads, LeadsBeside, RawPath.ofText, RawPath.ofText, hnames, origin_congr habs]

/-- The normal form of a text leads to where the text leads. -/
def KeepsPlace (t : Tree) (s : String) : Prop :=
  ∀ (q : String) place, Path.simplify? s = some q → t.Leads s place → t.Leads q place

/-- Every name that two dots take back is that of a directory, not of a link. -/
def Straight (t : Tree) (s : String) : Prop :=
  ∀ xs ys last before k dir, Path.names s = xs ++ ['.', '.'] :: ys →
    Path.takeSteps (s.toList.head? = some '/') xs = some (last :: before) → last ≠ ['.', '.'] →
    Arrives t maxLinks (origin s t.working) (before.reverse.map encode) k dir →
    t.isDirectory (dir ++ [encode last]) = true

/-- One step from a directory to a name in it that is a directory. -/
theorem arrives_directory {n m : Nat} {here there : Location} {name : Bytes}
    (h : Arrives t n here [name] m there) (hi : RawPath.isIdle name = false)
    (hup : name ≠ RawPath.up) (hd : t.isDirectory (here ++ [name]) = true) :
    n = m ∧ there = here ++ [name] := by
  cases h with
  | idle _ hidle => cases hi.symm.trans hidle
  | up => exact absurd rfl hup
  | down _ _ _ _ h =>
    obtain ⟨rfl, rfl⟩ := arrives_nil_iff.1 h
    exact ⟨rfl, rfl⟩
  | link _ _ ho => cases ho.symm.trans (object?_of_isDirectory hd)

theorem arrives_up {n m : Nat} {here there : Location}
    (h : Arrives t n here [RawPath.up] m there) : n = m ∧ there = here.dropLast := by
  cases h with
  | idle _ hi => cases hi
  | up _ h =>
    obtain ⟨rfl, rfl⟩ := arrives_nil_iff.1 h
    exact ⟨rfl, rfl⟩
  | down _ hn | link _ hn => exact absurd hn not_isName_up

/-- The steps that are left of the first names lead to where these lead, through as many links. -/
theorem Straight.arrives (h : t.Straight s) {xs ys taken : List (List Char)} {k : Nat}
    (hnames : Path.names s = xs ++ ys)
    (htaken : Path.takeSteps (s.toList.head? = some '/') xs = some taken)
    (harrives : Arrives t maxLinks (origin s t.working) (xs.map encode) k place) :
    Arrives t maxLinks (origin s t.working) (taken.reverse.map encode) k place := by
  induction xs using List.reverseRecOn generalizing ys taken k place with
  | nil =>
    obtain rfl := Option.some.inj htaken
    exact harrives
  | append_singleton xs x ih =>
    have hidle : ∀ name ∈ xs ++ [x], Path.isIdle name = false := fun name hname =>
      Path.isIdle_of_mem_names (hnames ▸ List.mem_append_left ys hname)
    rw [Path.takeSteps_concat] at htaken
    obtain ⟨before, hbefore, hx⟩ := Option.bind_eq_some_iff.1 htaken
    rw [List.map_append] at harrives
    obtain ⟨j, dir, hxs, hlast⟩ := harrives.split
    rw [List.append_assoc, List.singleton_append] at hnames
    have hback := ih hnames hbefore hxs
    rcases Path.takeStep_eq_some (hidle x (by simp)) hx with ⟨rfl, last, hup, rfl⟩ | rfl
    -- The walk goes back from `last`, a directory, to the place from which it came there.
    · rw [List.reverse_cons, List.map_append] at hback
      obtain ⟨i, above, habove, hname⟩ := hback.split
      have hd := h xs ys last taken i above hnames hbefore hup habove
      have hi : Path.isIdle last = false := hidle last (List.mem_append_left _
        (Path.mem_of_takeSteps hbefore (fun p hp => hidle p (List.mem_append_left _ hp)) last
          List.mem_cons_self))
      obtain ⟨rfl, rfl⟩ := arrives_directory hname ((RawPath.isIdle_encode last).trans hi)
        (RawPath.encode_eq_up.not.2 hup) hd
      obtain ⟨rfl, rfl⟩ := arrives_up hlast
      rw [List.dropLast_concat]
      exact habove
    · rw [List.reverse_cons, List.map_append]
      exact hback.append hlast

theorem Straight.keepsPlace (h : t.Straight s) : t.KeepsPlace s := by
  intro q place hq hleads
  obtain ⟨m, harrives⟩ := hleads
  obtain ⟨taken, htaken, hnames, habs⟩ := Path.simplify?_spec hq
  refine ⟨m, ?_⟩
  have horigin : origin (utf8 q) t.working = origin (utf8 s) t.working :=
    origin_congr (by rw [RawPath.head?_utf8, RawPath.head?_utf8, habs]) t.working
  rw [RawPath.ofText, RawPath.names_utf8] at harrives ⊢
  rw [hnames, horigin]
  exact h.arrives (List.append_nil _).symm htaken harrives

/-- If there is a link with a relative target, the text that the target makes leads, simplified, to
where the target leads from the directory of the link. -/
def KeepsTarget (t : Tree) (p : RawPath) : Prop :=
  ∀ target s (q : String) place, t.probe p = .link (.ok target) →
    Probe.joined? p target = some s → Path.simplify? s = some q →
    t.LeadsBeside p target place → t.Leads q place

/-- For texts it is the text they are joined to that counts. -/
theorem keepsTarget_iff {link target joined : String}
    (hlink : t.probe link = .link (.ok target))
    (hjoined : Probe.joined? link (utf8 target) = some joined) :
    t.KeepsTarget link ↔ t.KeepsPlace joined := by
  constructor
  · intro h q place hq hleads
    exact h _ joined q place hlink hjoined hq ((leads_joined_iff hjoined).1 hleads)
  · intro h target' s q place hlink' hs hq hbeside
    obtain rfl := Except.ok.inj (Probe.link.inj (hlink.symm.trans hlink'))
    obtain rfl := Option.some.inj (hjoined.symm.trans hs)
    exact h q place hq ((leads_joined_iff hjoined).2 hbeside)

theorem find_followed {places : List RawPath} (hw : t.IsRooted t.working)
    (h : Probe.Followed t.probe p places) (hfind : t.find p = .ok (place, o))
    (hkeeps : ∀ q ∈ places, t.KeepsTarget q) : ∀ q ∈ places, t.find q = .ok (place, o) := by
  induction h with
  | last =>
    intro q hq
    rw [List.mem_singleton.1 hq, hfind]
  | @next p next target rest hp hnext h ih =>
    obtain ⟨habs, hrel⟩ := leads_target hw hp hfind
    obtain ⟨-, _, -, ho⟩ := find_eq_ok_iff.1 hfind
    have hleads : t.Leads next place := by
      rcases Probe.targetOf_eq_ok hnext with ⟨htarget, rfl⟩ | ⟨s, text, hs, hsimple, rfl⟩
      · exact habs htarget
      · exact hkeeps p List.mem_cons_self target s text place hp hs hsimple
          (hrel (Probe.joined?_eq_some hs).1)
    have hfound := find_of_leads hw h.ne_refused hleads ho
    intro q hq
    rcases List.mem_cons.1 hq with rfl | hq
    · exact hfind
    · exact ih hfound (fun q hq => hkeeps q (List.mem_cons_of_mem p hq)) q hq

/-- A target keeps the place if the same object is found at the link and at what follows it. -/
theorem keepsTarget_of_find {next : RawPath} (hw : t.IsRooted t.working)
    (hp : t.probe p = .link (.ok target)) (hnext : Probe.targetOf p target = .ok next)
    (hfind : t.find p = .ok (place, o)) (hfound : t.find next = .ok (place, o)) :
    t.KeepsTarget p := by
  intro target' s q there hp' hs hq hbeside
  obtain rfl := Except.ok.inj (Probe.link.inj (hp.symm.trans hp'))
  obtain rfl := hbeside.unique ((leads_target hw hp hfind).2 (Probe.joined?_eq_some hs).1)
  rw [Probe.targetOf_relative hs hq] at hnext
  obtain rfl := Except.ok.inj hnext
  exact leads_of_find hfound

theorem keepsTarget_followed {places : List RawPath} (hw : t.IsRooted t.working)
    (h : Probe.Followed t.probe p places) (hfind : ∀ q ∈ places, t.find q = .ok (place, o)) :
    ∀ q ∈ places, t.KeepsTarget q := by
  induction h with
  | last hp =>
    intro q hq target s text there hlink
    rw [List.mem_singleton.1 hq, hp] at hlink
    cases hlink
  | @next p next target rest hp hnext h ih =>
    have hrest : ∀ q ∈ rest, t.find q = .ok (place, o) :=
      fun q hq => hfind q (List.mem_cons_of_mem p hq)
    intro q hq
    rcases List.mem_cons.1 hq with rfl | hq
    · exact keepsTarget_of_find hw hp hnext (hfind q List.mem_cons_self) (hrest next h.mem)
    · exact ih hrest q hq

/-- One object is found at all of the places. -/
def OneObject (t : Tree) (places : List RawPath) : Prop := ∃ x, ∀ q ∈ places, t.find q = .ok x

/-- One object is found at all places of a chain exactly if the system finds the path at all and
every target on the way keeps the place. Where a link and its target are texts, it is the text they
are joined to that has to keep its place, and this it does if no name that it takes back is that of
a link. -/
theorem chain_one_object_iff (hw : t.IsRooted t.working) {places : List RawPath}
    (h : t.system.chain p = .ok places) :
    (t.OneObject places ↔ (∃ x, t.find p = .ok x) ∧ ∀ q ∈ places, t.KeepsTarget q) ∧
      (∀ link target joined : String, t.probe link = .link (.ok target) →
        Probe.joined? link target = some joined →
        (t.KeepsTarget link ↔ t.KeepsPlace joined)) ∧
      ∀ s, t.Straight s → t.KeepsPlace s := by
  have hplaces := Probe.followed_of_chaseFrom (System.chase_of_chain h)
  refine ⟨⟨?_, ?_⟩, fun _ _ _ => keepsTarget_iff, fun s hs => hs.keepsPlace⟩
  · rintro ⟨⟨place, o⟩, hfind⟩
    exact ⟨⟨_, hfind p hplaces.mem⟩, keepsTarget_followed hw hplaces hfind⟩
  · rintro ⟨⟨⟨place, o⟩, hfind⟩, hkeeps⟩
    exact ⟨_, find_followed hw hplaces hfind hkeeps⟩

/-- A link to `../t` in a directory that another link leads to. There is a `t` above the directory
and another beside the link to it. -/
def crossed : Tree where
  objects :=
    [(["t"], .file ⟨#[50]⟩), (["d"], .link "a/b"), (["a"], .directory),
      (["a", "t"], .file ⟨#[49]⟩), (["a", "b"], .directory), (["a", "b", "x"], .link "../t")]
  working := []

theorem straight_crossed : crossed.Straight "a/b/../t" := by
  intro xs ys last before k dir hnames htaken _ harrives
  have hxs : xs = [['a'], ['b']] := by
    rw [show Path.names "a/b/../t" = [['a'], ['b'], ['.', '.'], ['t']] by decide] at hnames
    match xs with
    | [] | [_] | [_, _, _] | _ :: _ :: _ :: _ :: _ => simp at hnames
    | [_, _] => simp_all
  have htaken' : Path.takeSteps ("a/b/../t".toList.head? = some '/') xs =
      some [['b'], ['a']] := by
    rw [hxs]
    decide
  obtain ⟨rfl, rfl⟩ := List.cons.inj (Option.some.inj (htaken.symm.trans htaken'))
  obtain ⟨-, rfl⟩ := arrives_directory harrives (by decide) (by decide) rfl
  rfl

theorem crossed_one_object : crossed.OneObject ["a/b/x", "a/t"] := by
  have hlink : crossed.probe "a/b/x" = .link (.ok "../t") := rfl
  have hplain : crossed.probe "a/t" = .plain := rfl
  have hchain : crossed.system.chain "a/b/x" = .ok ["a/b/x", "a/t"] := by decide +kernel
  have hfind : crossed.find "a/b/x" = .ok (["a", "t"], .file ⟨#[49]⟩) := rfl
  have hjoined : Probe.joined? "a/b/x" "../t" = some "a/b/../t" := by decide +kernel
  obtain ⟨hiff, htexts, hstraight⟩ := chain_one_object_iff crossed.isRooted_nil hchain
  refine hiff.2 ⟨⟨_, hfind⟩, fun q hq => ?_⟩
  rcases List.mem_pair.1 hq with rfl | rfl
  · exact (htexts _ _ _ hlink hjoined).2 (hstraight _ straight_crossed)
  · intro target s q place hlink
    cases hplain.symm.trans hlink

/-- Through the link to the directory the chain ends at the `t` beside that link, and the other `t`
is read. -/
theorem crossed_two_objects : crossed.system.chain "d/x" = .ok ["d/x", "t"] ∧
    crossed.system.readFile "d/x" = .ok ⟨#[49]⟩ ∧
    crossed.system.readFile "t" = .ok ⟨#[50]⟩ ∧
    ¬ crossed.OneObject ["d/x", "t"] := by
  have hx : crossed.read "d/x" = .ok ⟨#[49]⟩ := by decide +kernel
  have ht : crossed.read "t" = .ok ⟨#[50]⟩ := by decide +kernel
  refine ⟨by decide +kernel, by decide +kernel, by decide +kernel, ?_⟩
  rintro ⟨found, hall⟩
  have hsame : crossed.read "d/x" = crossed.read "t" := by
    rw [read, read, hall "d/x" (by simp), hall "t" (by simp)]
  rw [hx, ht] at hsame
  exact absurd (Except.ok.inj hsame) (by decide)

end Tree
end ServiceUnits
