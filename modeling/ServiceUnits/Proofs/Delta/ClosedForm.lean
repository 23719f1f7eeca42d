import ServiceUnits.Config.Reader
import ServiceUnits.Proofs.Delta.Edges

namespace ServiceUnits

open Text

namespace Edge

/-- The effects that some relations have between them. -/
def joint (edgeOf : Relation → Edge) (rs : List Relation) : Edge :=
  rs.foldl (fun e r => e ||| edgeOf r) none

theorem joint_concat (edgeOf : Relation → Edge) (rs : List Relation) (r : Relation) :
    joint edgeOf (rs ++ [r]) = joint edgeOf rs ||| edgeOf r := by
  simp [joint]

theorem has_joint {edgeOf : Relation → Edge} {rs : List Relation} {x : Effect} :
    (joint edgeOf rs).has x = true ↔ ∃ r ∈ rs, (edgeOf r).has x = true := by
  induction rs using List.reverseRecOn with
  | nil => simp [joint, has_none]
  | append_singleton rs r ih =>
    rw [joint_concat, has_union, Bool.or_eq_true, ih]
    simp only [List.mem_append, List.mem_singleton, or_and_right, exists_or, exists_eq_left]

theorem stored?_eq_some_iff {a e : Edge} : a.stored? = some e ↔ e = a ∧ e ≠ none := by
  unfold stored?
  split
  · rename_i h
    simp [isNone_iff.1 h]
  · rename_i h
    rw [isNone_iff] at h
    constructor
    · intro e'
      obtain rfl := Option.some.inj e'
      exact ⟨rfl, h⟩
    · rintro ⟨rfl, -⟩
      rfl

end Edge

namespace Delta

/-- A value of the relation's key has the peer among its words. -/
def Declares (c : Config) (r : Relation) (peer : String) : Prop :=
  ∃ value ∈ (c.values? Config.unitSection r.key).getD [], peer.toList ∈ words value.toList

/-- The relations that are declared towards a peer. -/
def towards (c : Config) (peer : String) : List Relation :=
  Relation.all.filter fun r => peer ∈ peers c r

theorem mem_peers_iff_declares {c : Config} {r : Relation} {peer : String} :
    peer ∈ peers c r ↔ Declares c r peer := mem_peers

theorem mem_towards {c : Config} {r : Relation} {peer : String} :
    r ∈ towards c peer ↔ Declares c r peer := by
  rw [towards, List.mem_filter, decide_eq_true_iff, mem_peers_iff_declares]
  exact and_iff_right r.mem_all

/-- What is gathered entry by entry is what the relations have between them. -/
theorem gathered_declared (edgeOf : Relation → Edge) (c : Config) (peer : String) :
    gathered edgeOf (declared c) peer = Edge.joint edgeOf (towards c peer) := by
  refine Edge.ext_has fun x => ?_
  rw [Bool.eq_iff_iff, has_gathered, Edge.has_joint]
  simp only [mem_declared, mem_peers_iff_declares, mem_towards]

theorem find?_outgoing {c : Config} {peer : String} :
    (ofConfig c).outgoing.find? peer = (Edge.joint Relation.edge (towards c peer)).stored? := by
  rw [(find?_ofConfig c peer).1, gathered_declared]

theorem find?_incoming {c : Config} {peer : String} :
    (ofConfig c).incoming.find? peer = (Edge.joint (·.reverse.edge) (towards c peer)).stored? := by
  rw [(find?_ofConfig c peer).2, gathered_declared]

/-- Deltas with the same edges to and from each peer are the same. -/
theorem ext_find? {a b : Delta} (hout : ∀ peer, a.outgoing.find? peer = b.outgoing.find? peer)
    (hin : ∀ peer, a.incoming.find? peer = b.incoming.find? peer) : a = b := by
  obtain ⟨aout, ain⟩ := a
  obtain ⟨bout, bin⟩ := b
  rw [mk.injEq]
  exact ⟨Dict.ext_find? hout, Dict.ext_find? hin⟩

/-- The relations towards a peer are all of a config that counts for its edges. -/
theorem ofConfig_congr {c d : Config} (h : ∀ r peer, Declares d r peer ↔ Declares c r peer) :
    ofConfig d = ofConfig c := by
  have htowards : ∀ peer, towards d peer = towards c peer := by
    intro peer
    refine List.filter_congr fun r _ => decide_eq_decide.2 ?_
    rw [mem_peers_iff_declares, mem_peers_iff_declares, h]
  refine ext_find? (fun peer => ?_) fun peer => ?_
  · rw [find?_outgoing, find?_outgoing, htowards]
  · rw [find?_incoming, find?_incoming, htowards]

/-- A peer has an edge exactly if the relations declared towards it have effects between them, and
the edge has these effects. Nothing else in a config has an influence. -/
theorem ofConfig_closed_form (c : Config) :
    (∀ peer r, r ∈ towards c peer ↔ Declares c r peer) ∧
    (∀ peer e, (ofConfig c).outgoing.find? peer = some e ↔
      e = Edge.joint Relation.edge (towards c peer) ∧ e ≠ Edge.none) ∧
    (∀ peer e, (ofConfig c).incoming.find? peer = some e ↔
      e = Edge.joint (·.reverse.edge) (towards c peer) ∧ e ≠ Edge.none) ∧
    (∀ d : Config, (∀ r : Relation, d.values? Config.unitSection r.key =
      c.values? Config.unitSection r.key) → ofConfig d = ofConfig c) ∧
    ∀ d : Config, (∀ r peer, Declares d r peer ↔ Declares c r peer) → ofConfig d = ofConfig c := by
  refine ⟨fun _ _ => mem_towards, ?_, ?_, ?_, fun d h => ofConfig_congr h⟩
  · intro peer e
    rw [find?_outgoing, Edge.stored?_eq_some_iff]
  · intro peer e
    rw [find?_incoming, Edge.stored?_eq_some_iff]
  · intro d h
    refine ofConfig_congr fun r peer => ?_
    rw [Declares, h r, Declares]

/-- Two relations in two lines. -/
def tidy : Config := (Config.empty.overlay "[Unit]\nWants=a b\nAfter=a\n").1

/-- The same relations in another order, twice and in several values, between what has no influence
on them. -/
def scattered : Config := (Config.empty.overlay
  "Wants=top\n[Service]\nRequires=z\n[Unit]\nAfter=a a\nDescription=c\nWants=b\nWants=a\nPartOf=").1

theorem scattered_like_tidy :
    (∀ r peer, Declares scattered r peer ↔ Declares tidy r peer) ∧
    ofConfig scattered = ofConfig tidy ∧
    towards scattered "a" = [.wants, .after] ∧
    (ofConfig scattered).incoming.find? "a" = some (.single .before) ∧
    (ofConfig scattered).incoming.find? "b" = none := by
  have hpeers : ∀ r ∈ Relation.all, (∀ peer ∈ peers scattered r, peer ∈ peers tidy r) ∧
      ∀ peer ∈ peers tidy r, peer ∈ peers scattered r := by decide +kernel
  have ha : towards scattered "a" = [.wants, .after] := by decide +kernel
  have hb : towards scattered "b" = [.wants] := by decide +kernel
  have hdeclares : ∀ r peer, Declares scattered r peer ↔ Declares tidy r peer := by
    intro r peer
    rw [← mem_peers_iff_declares, ← mem_peers_iff_declares]
    exact ⟨(hpeers r r.mem_all).1 peer, (hpeers r r.mem_all).2 peer⟩
  obtain ⟨-, -, -, -, hother⟩ := ofConfig_closed_form tidy
  obtain ⟨-, -, hin, -, -⟩ := ofConfig_closed_form scattered
  refine ⟨hdeclares, hother scattered hdeclares, ha, (hin _ _).2 ⟨?_, by decide⟩, ?_⟩
  · rw [ha]
    decide
  · rw [Option.eq_none_iff_forall_ne_some]
    intro e he
    obtain ⟨rfl, hne⟩ := (hin _ _).1 he
    rw [hb] at hne
    exact hne (by decide)

end Delta
end ServiceUnits
