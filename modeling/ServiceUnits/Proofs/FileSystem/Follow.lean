import Mathlib.Data.List.Chain
import Mathlib.Logic.Relation
import ServiceUnits.Proofs.FileSystem.Chain
import ServiceUnits.Proofs.Path.Climb

namespace ServiceUnits

open Text

namespace Probe

variable {probe : RawPath → Probe} {n : Nat} {p q r : RawPath} {target : Bytes}
  {answer : Except SystemError Bytes} {walk places : List RawPath}
  {result : Except LinkError (List RawPath)}

/-- Where a link leads to: to an absolute target as it is written, to a relative one as the text
that is joined from it and the directory of the link is simplified. -/
inductive LeadsTo (p : RawPath) (target : Bytes) : RawPath → Prop
  | absolute (h : target.head? = some RawPath.slash) : LeadsTo p target ⟨target⟩
  | relative {s text : String} (hs : joined? p target = some s) (h : Path.simplify? s = some text) :
      LeadsTo p target text

/-- One link is read and followed. -/
def Step (probe : RawPath → Probe) (p q : RawPath) : Prop :=
  ∃ target, probe p = .link (.ok target) ∧ LeadsTo p target q

/-- A path, the target of its link, the target of the link there, and so on to the last place. -/
structure IsWalk (probe : RawPath → Probe) (p q : RawPath) (walk : List RawPath) : Prop where
  head : walk.head? = some p
  last : walk.getLast? = some q
  linked : walk.IsChain (Step probe)

/-- The ways for a link to lead nowhere. -/
inductive Astray (p : RawPath) : Except SystemError Bytes → LinkError → Prop
  /-- The system refuses to read it. -/
  | unreadable (e : SystemError) : Astray p (.error e) (.system e)
  /-- Its target is relative, and the link is in no directory. -/
  | orphaned {target : Bytes} (hrel : target.head? ≠ some RawPath.slash) (hp : p.parent? = none) :
      Astray p (.ok target) (.notExisting "couldn't determine parent directory")
  /-- The text that the target makes starts at the root and goes above it. -/
  | climbing {target : Bytes} {s : String} (hs : joined? p target = some s)
      (hc : Path.ClimbsAboveRoot s) :
      Astray p (.ok target) (.invalid ("invalid file path: " ++ s))

/-- The ways for a walk from a path to end that follows no more than `n` links. -/
inductive Ends (probe : RawPath → Probe) (n : Nat) (p : RawPath) :
    Except LinkError (List RawPath) → Prop
  /-- It reaches a place that is not a link. -/
  | arrived {q : RawPath} {walk : List RawPath} (h : IsWalk probe p q walk)
      (hn : walk.length ≤ n + 1) (hq : probe q = .plain) : Ends probe n p (.ok walk)
  /-- The system refuses to look at the place that it leads to. -/
  | missing {q : RawPath} {walk : List RawPath} {e : SystemError} (h : IsWalk probe p q walk)
      (hn : walk.length ≤ n + 1) (hq : probe q = .refused e) :
      Ends probe n p (.error (.notExisting q.text))
  /-- It reaches a link that leads nowhere. -/
  | astray {q : RawPath} {walk : List RawPath} {answer : Except SystemError Bytes} {e : LinkError}
      (h : IsWalk probe p q walk) (hn : walk.length ≤ n) (hq : probe q = .link answer)
      (he : Astray q answer e) : Ends probe n p (.error e)
  /-- All `n` links are followed, and another link is reached. -/
  | endless {q : RawPath} {walk : List RawPath} {answer : Except SystemError Bytes}
      (h : IsWalk probe p q walk) (hn : walk.length = n + 1) (hq : probe q = .link answer) :
      Ends probe n p (.error (.errno .linkLoop))

theorem leadsTo_iff : LeadsTo p target q ↔ targetOf p target = .ok q := by
  constructor
  · intro h
    cases h with
    | absolute h => exact targetOf_absolute h
    | relative hs h => exact targetOf_relative hs h
  · intro h
    rcases targetOf_eq_ok h with ⟨habs, rfl⟩ | ⟨s, text, hs, hsimple, rfl⟩
    · exact .absolute habs
    · exact .relative hs hsimple

/-- A link leads nowhere in one of three ways. -/
theorem next_eq_error_iff {e : LinkError} : next p answer = .error e ↔ Astray p answer e := by
  constructor
  · intro h
    cases answer with
    | error refusal =>
      obtain rfl := Except.error.inj h
      exact .unreadable refusal
    | ok target =>
      rw [next, targetOf] at h
      split at h
      · cases h
      · rename_i hrel
        split at h
        · rename_i hp
          obtain rfl := Except.error.inj h
          exact .orphaned hrel hp
        · rename_i dir hdir
          split at h
          · cases h
          · rename_i hsimple
            obtain rfl := Except.error.inj h
            exact .climbing (by rw [joined?, if_neg hrel, hdir]; rfl)
              (Path.simplify?_eq_none_iff.1 hsimple)
  · intro h
    cases h with
    | unreadable => rfl
    | orphaned hrel hp => rw [next, targetOf, if_neg hrel, hp]
    | climbing hs hc =>
      obtain ⟨hrel, dir, hdir, rfl⟩ := joined?_eq_some hs
      simp only [next, targetOf, if_neg hrel, hdir, Path.simplify?_eq_none_iff.2 hc]

theorem isWalk_singleton (probe : RawPath → Probe) (p : RawPath) : IsWalk probe p p [p] :=
  ⟨rfl, rfl, .singleton p⟩

theorem IsWalk.cons (hs : Step probe p q) (h : IsWalk probe q r walk) :
    IsWalk probe p r (p :: walk) := by
  obtain ⟨hhead, hlast, hlinked⟩ := h
  cases walk with
  | nil => cases hhead
  | cons x rest =>
    obtain rfl := Option.some.inj hhead
    exact ⟨rfl, hlast, .cons_cons hs hlinked⟩

/-- A walk is a place alone, or one step and a walk from there. -/
theorem IsWalk.cases_on (h : IsWalk probe p r walk) :
    (walk = [p] ∧ p = r) ∨ ∃ q rest, walk = p :: rest ∧ Step probe p q ∧ IsWalk probe q r rest := by
  obtain ⟨hhead, hlast, hlinked⟩ := h
  match walk with
  | [x] =>
    obtain rfl := Option.some.inj hhead
    exact .inl ⟨rfl, Option.some.inj hlast⟩
  | x :: y :: rest =>
    obtain rfl := Option.some.inj hhead
    obtain ⟨hs, hrest⟩ := List.isChain_cons_cons.1 hlinked
    exact .inr ⟨y, y :: rest, rfl, hs, rfl, hlast, hrest⟩

theorem chaseFrom_of_plain (h : probe p = .plain) (n : Nat) : chaseFrom probe n p = .ok [p] := by
  cases n <;> rw [chaseFrom, h]

theorem chaseFrom_of_refused {e : SystemError} (h : probe p = .refused e) (n : Nat) :
    chaseFrom probe n p = .error (.notExisting p.text) := by
  cases n <;> rw [chaseFrom, h]

theorem chaseFrom_of_step (h : Step probe p q) (n : Nat) :
    chaseFrom probe (n + 1) p = (chaseFrom probe n q).map (p :: ·) := by
  obtain ⟨target, hp, hq⟩ := h
  have hnext : next p (.ok target) = .ok q := leadsTo_iff.1 hq
  rw [chaseFrom, hp]
  simp only [hnext]

/-- A run goes along a walk and on from its last place with the links that are left. -/
theorem chaseFrom_of_walk (h : IsWalk probe p q walk) {m : Nat} (hn : n + 1 = m + walk.length) :
    chaseFrom probe n p = (chaseFrom probe m q).map (walk.dropLast ++ ·) := by
  induction walk generalizing n p with
  | nil => cases h.head
  | cons x rest ih =>
    rcases h.cases_on with ⟨hwalk, rfl⟩ | ⟨r, rest', hwalk, hs, hrest⟩
    · obtain ⟨rfl, rfl⟩ := List.cons.inj hwalk
      obtain rfl : n = m := by simpa using hn
      cases chaseFrom probe n x <;> rfl
    · obtain ⟨rfl, rfl⟩ := List.cons.inj hwalk
      have hne : rest ≠ [] := by
        rintro rfl
        cases hrest.head
      have hpos := List.length_pos_of_ne_nil hne
      obtain ⟨k, rfl⟩ : ∃ k, n = k + 1 := ⟨n - 1, by rw [List.length_cons] at hn; omega⟩
      rw [List.length_cons] at hn
      rw [chaseFrom_of_step hs, ih hrest (by omega), List.dropLast_cons_of_ne_nil hne]
      cases chaseFrom probe m q <;> rfl

/-- What a walk decides is what the run gives. -/
theorem Ends.chaseFrom_eq (h : Ends probe n p result) : chaseFrom probe n p = result := by
  cases h with
  | @arrived q walk h hn hq =>
    rw [chaseFrom_of_walk h (Nat.sub_add_cancel hn).symm, chaseFrom_of_plain hq]
    have hwalk : walk.dropLast ++ [q] = walk := List.dropLast_append_getLast? q h.last
    exact congrArg Except.ok hwalk
  | @missing q walk e h hn hq =>
    rw [chaseFrom_of_walk h (Nat.sub_add_cancel hn).symm, chaseFrom_of_refused hq]
    rfl
  | @astray q walk answer e h hn hq he =>
    obtain ⟨m, hm⟩ : ∃ m, n = m + walk.length := ⟨n - walk.length, (Nat.sub_add_cancel hn).symm⟩
    have hlast : chaseFrom probe (m + 1) q = .error e := by
      rw [chaseFrom, hq]
      simp only [next_eq_error_iff.2 he]
    rw [chaseFrom_of_walk h (m := m + 1) (by omega), hlast]
    rfl
  | @endless q walk answer h hn hq =>
    have hlast : chaseFrom probe 0 q = .error (.errno .linkLoop) := by
      rw [chaseFrom, hq]
    rw [chaseFrom_of_walk h (m := 0) (by omega), hlast]
    rfl

theorem Ends.cons (hs : Step probe p q) (h : Ends probe n q result) :
    Ends probe (n + 1) p (result.map (p :: ·)) := by
  cases h with
  | arrived h hn hq => exact .arrived (h.cons hs) (Nat.succ_le_succ hn) hq
  | missing h hn hq => exact .missing (h.cons hs) (Nat.succ_le_succ hn) hq
  | astray h hn hq he => exact .astray (h.cons hs) (Nat.succ_le_succ hn) hq he
  | endless h hn hq => exact .endless (h.cons hs) (congrArg Nat.succ hn) hq

/-- A run ends in one of the four ways, whatever the system answers. -/
theorem ends_chaseFrom (probe : RawPath → Probe) (n : Nat) (p : RawPath) :
    Ends probe n p (chaseFrom probe n p) := by
  fun_induction chaseFrom probe n p with
  | case1 n p e hp => exact .missing (isWalk_singleton probe p) (Nat.le_add_left 1 n) hp
  | case2 n p hp => exact .arrived (isWalk_singleton probe p) (Nat.le_add_left 1 n) hp
  | case3 p answer hp => exact .endless (isWalk_singleton probe p) rfl hp
  | case4 p answer hp n e he =>
    exact .astray (isWalk_singleton probe p) (Nat.le_add_left 1 n) hp (next_eq_error_iff.1 he)
  | case5 p answer hp n q hnext ih =>
    obtain ⟨target, rfl, hq⟩ := next_eq_ok hnext
    exact ih.cons ⟨target, hp, leadsTo_iff.2 hq⟩

theorem IsWalk.drop (h : IsWalk probe p q walk) {i : Nat} (hi : i < walk.length) :
    IsWalk probe walk[i] q (walk.drop i) where
  head := by rw [List.head?_drop, List.getElem?_eq_getElem hi]
  last := by rw [List.getLast?_drop, if_neg (Nat.not_le.2 hi), h.last]
  linked := h.linked.drop i

/-- A walk that arrives does so from each of its places on. -/
theorem Ends.drop (h : Ends probe n p (.ok places)) {i : Nat} (hi : i < places.length) :
    Ends probe n places[i] (.ok (places.drop i)) := by
  cases h with
  | arrived h hn hq =>
    refine .arrived (h.drop hi) ?_ hq
    rw [List.length_drop]
    exact (Nat.sub_le _ i).trans hn

/-- The path leads into a cycle of links. -/
def LeadsIntoCycle (probe : RawPath → Probe) (p : RawPath) : Prop :=
  ∃ q, Relation.ReflTransGen (Step probe) p q ∧ Relation.TransGen (Step probe) q q

/-- From a cycle, and on the way into it, there is always one more link. -/
theorem LeadsIntoCycle.step (h : LeadsIntoCycle probe p) :
    ∃ q, Step probe p q ∧ LeadsIntoCycle probe q := by
  obtain ⟨r, hlead, hcycle⟩ := h
  rcases Relation.ReflTransGen.cases_head hlead with rfl | ⟨q, hs, hrest⟩
  · obtain ⟨q, hs, hback⟩ := Relation.TransGen.head'_iff.1 hcycle
    exact ⟨q, hs, p, hback, hcycle⟩
  · exact ⟨q, hs, r, hrest, hcycle⟩

theorem LeadsIntoCycle.endless (h : LeadsIntoCycle probe p) (n : Nat) :
    Ends probe n p (.error (.errno .linkLoop)) := by
  induction n generalizing p with
  | zero =>
    obtain ⟨-, ⟨target, hp, -⟩, -⟩ := h.step
    exact .endless (isWalk_singleton probe p) rfl hp
  | succ n ih =>
    obtain ⟨q, hs, hq⟩ := h.step
    exact (ih hq).cons hs

end Probe

namespace Tree

variable {t : Tree} {p : RawPath} {answer : Except SystemError Bytes}

/-- Empty steps and dots lead nowhere. -/
theorem walk_of_idle {w : Purpose} {n : Nat} {place : Location} {path : List Bytes}
    (hd : t.isDirectory place = true) (h : ∀ step ∈ path, RawPath.isIdle step = true) :
    t.walk w n place path = .found place .directory := by
  induction path with
  | nil => rw [walk_nil, object?_of_isDirectory hd]
  | cons step rest ih =>
    rw [walk_idle hd (h step List.mem_cons_self)]
    exact ih fun step hstep => h step (List.mem_cons_of_mem _ hstep)

/-- The root is no link, and nothing is seen at the empty path. What is seen as a link can be read. -/
theorem parent?_of_link (h : t.probe p = .link answer) :
    p.parent? ≠ none ∧ ∃ target, answer = .ok target := by
  rw [probe] at h
  split at h
  · rename_i place target hfound
    refine ⟨fun hnone => ?_, target, (Probe.link.inj h).symm⟩
    obtain ⟨hs, hwalk⟩ := walkPath_eq_found_iff.1 hfound
    rcases RawPath.parent?_eq_none hnone with hempty | ⟨habs, hnames⟩
    · exact hs.ne_empty hempty
    · rw [← filter_steps, List.filter_eq_nil_iff] at hnames
      rw [origin_absolute habs, walk_of_idle rfl (by simpa using hnames)] at hwalk
      cases hwalk
  · cases h
  · cases h
  · cases h

/-- In a tree a link leads nowhere only if its target climbs. -/
theorem astray_climbs {e : LinkError} (h : t.probe p = .link answer)
    (he : Probe.Astray p answer e) : ∃ target s, answer = .ok target ∧
      Probe.joined? p target = some s ∧ Path.ClimbsAboveRoot s ∧
      e = .invalid ("invalid file path: " ++ s) := by
  obtain ⟨hparent, target, rfl⟩ := parent?_of_link h
  cases he with
  | orphaned _ hp => exact absurd hp hparent
  | climbing hs hc => exact ⟨target, _, rfl, hs, hc, rfl⟩

end Tree

namespace Probe

/-- Whatever a system answers, the chain of a path is the walk from link to target that starts at
the path and ends, after thirty-two links at most, at a place that is not a link. If there is no
such walk, the first place at which it stops decides the error: a place that the system refuses to
look at, a link that leads nowhere, or a thirty-third link. The chain of each place of a chain is
the rest of it. A path that leads into a cycle of links fails, however long the cycle is and the way
to it. Where a link and its target are texts, the text they are joined to names what the target
names from the directory of the link. In a tree a link leads nowhere only if its target climbs. -/
theorem chase_outcome (probe : RawPath → Probe) (p : RawPath) :
    (∀ result, chase probe p = result ↔ Ends probe 32 p result) ∧
    (∀ places, chase probe p = .ok places → ∀ (i : Nat) (hi : i < places.length),
      chase probe places[i] = .ok (places.drop i)) ∧
    (LeadsIntoCycle probe p → chase probe p = .error (.errno .linkLoop)) ∧
    (∀ link target joined : String, joined? link target = some joined →
      RawPath.names joined = (RawPath.names link).dropLast ++ RawPath.names target ∧
      ((joined : Bytes).head? = some RawPath.slash ↔
        (link : Bytes).head? = some RawPath.slash)) ∧
    ∀ t : Tree, probe = t.probe → ∀ q answer e, probe q = .link answer → Astray q answer e →
      ∃ target s, answer = .ok target ∧ joined? q target = some s ∧ Path.ClimbsAboveRoot s ∧
        e = .invalid ("invalid file path: " ++ s) := by
  have hends := ends_chaseFrom probe 32 p
  refine ⟨fun result => ⟨?_, Ends.chaseFrom_eq⟩, ?_, ?_, fun _ _ _ => joined?_spec, ?_⟩
  · rintro rfl
    exact hends
  · intro places h i hi
    have hplaces : chaseFrom probe 32 p = .ok places := h
    rw [hplaces] at hends
    exact (hends.drop hi).chaseFrom_eq
  · intro hcycle
    exact (hcycle.endless 32).chaseFrom_eq
  · rintro t rfl q answer e
    exact Tree.astray_climbs

end Probe

namespace Tree

/-- Links to a file, to a place above the root, to nothing, and to each other. -/
def tangled : Tree where
  objects :=
    [(["u", "a"], .link "../u/./b"), (["u", "b"], .link "/u//c"), (["u", "c"], .file .empty),
      (["u", "d"], .link "../../c"), (["u", "e"], .link "d/e"), (["u", "f"], .link "g"),
      (["u", "g"], .link "f"), (["u"], .directory)]
  working := []

theorem tangled_outcome :
    Probe.chase tangled.probe "/u/b" = .ok ["/u/b", "/u//c"] ∧
    Probe.chase tangled.probe "/u/d" = .error (.invalid "invalid file path: /u/../../c") ∧
    Probe.chase tangled.probe "/u/e" = .error (.notExisting "/u/d/e") ∧
    Probe.LeadsIntoCycle tangled.probe "/u/f" ∧
    Probe.chase tangled.probe "/u/f" = .error (.errno .linkLoop) ∧
    RawPath.names "/u/../u/./b" = ["u", "..", "u", "b"] ∧
    ∃ s, Probe.joined? "/u/d" "../../c" = some s ∧ Path.ClimbsAboveRoot s := by
  have ha : Probe.Step tangled.probe "/u/a" "/u/b" :=
    ⟨"../u/./b", rfl, .relative (s := "/u/../u/./b") (by decide +kernel) (by decide +kernel)⟩
  have hb : Probe.Step tangled.probe "/u/b" "/u//c" := ⟨"/u//c", rfl, .absolute rfl⟩
  have hc : tangled.probe "/u//c" = .plain := rfl
  have hd : tangled.probe "/u/d" = .link (.ok "../../c") := rfl
  have hclimbs : Path.ClimbsAboveRoot "/u/../../c" := Path.simplify?_eq_none_iff.1 (by decide)
  have hastray : Probe.Astray "/u/d" (.ok "../../c")
    (.invalid "invalid file path: /u/../../c") := .climbing (by decide +kernel) hclimbs
  have he : Probe.Step tangled.probe "/u/e" "/u/d/e" :=
    ⟨"d/e", rfl, .relative (s := "/u/d/e") (by decide +kernel) (by decide)⟩
  have hnone : tangled.probe "/u/d/e" = .refused (.call .noEntry) := rfl
  have hf : Probe.Step tangled.probe "/u/f" "/u/g" :=
    ⟨"g", rfl, .relative (s := "/u/g") (by decide +kernel) (by decide)⟩
  have hg : Probe.Step tangled.probe "/u/g" "/u/f" :=
    ⟨"f", rfl, .relative (s := "/u/f") (by decide +kernel) (by decide)⟩
  have hcycle : Probe.LeadsIntoCycle tangled.probe "/u/f" := ⟨_, .refl, .tail (.single hf) hg⟩
  have hwalk := Probe.isWalk_singleton tangled.probe
  obtain ⟨houtcome, hsuffix, -, hnames, -⟩ := Probe.chase_outcome tangled.probe "/u/a"
  obtain ⟨hinvalid, -, -, -, htree⟩ := Probe.chase_outcome tangled.probe "/u/d"
  have hchain := (houtcome _).2 (.arrived (((hwalk _).cons hb).cons ha) (by decide) hc)
  have hjoined : Probe.joined? "/u/a" "../u/./b" = some "/u/../u/./b" := by decide +kernel
  refine ⟨hsuffix _ hchain 1 (by decide), ?_, ?_, hcycle,
    (Probe.chase_outcome tangled.probe "/u/f").2.2.1 hcycle,
    (hnames _ _ _ hjoined).1.trans (by decide +kernel), ?_⟩
  · exact (hinvalid _).2 (.astray (hwalk _) (by decide) hd hastray)
  · rw [← RawPath.text_ofText "/u/d/e"]
    exact ((Probe.chase_outcome tangled.probe "/u/e").1 _).2
      (.missing ((hwalk _).cons he) (by decide) hnone)
  · obtain ⟨target, s, htarget, hs, hclimb, -⟩ := htree tangled rfl _ _ _ hd hastray
    obtain rfl := Except.ok.inj htarget
    exact ⟨s, hs, hclimb⟩

/-- A link to something above the root, which the tree is seen from, and a link to a file whose name
is not a text. -/
def strayed : Tree where
  objects :=
    [(["x"], .link "../y"), (["l"], .link [0x61, 0xFF]), ([[0x61, 0xFF]], .file .empty)]
  working := []

/-- Above the root nothing is wrong with a target but that nothing is there, unless the link is named
from the root. The file whose name is not a text is there, but the text that is shown of the name is
the name of nothing. A link that cannot be read fails with the refusal. -/
theorem strayed_outcome :
    Probe.chase strayed.probe "/x" = .error (.invalid "invalid file path: //../y") ∧
    Probe.chase strayed.probe "x" = .error (.notExisting "../y") ∧
    strayed.probe "l" = .link (.ok [0x61, 0xFF]) ∧
    strayed.probe ⟨[0x61, 0xFF]⟩ = .plain ∧
    Probe.chase strayed.probe "l" = .error (.notExisting "a\uFFFD") ∧
    Probe.chase (fun _ => .link (.error (.call ⟨13⟩))) "x" = .error (.system (.call ⟨13⟩)) :=
  ⟨by decide +kernel, by decide +kernel, rfl, rfl, by decide +kernel, by decide +kernel⟩

end Tree
end ServiceUnits
