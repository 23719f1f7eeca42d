import Mathlib.Data.List.Induction
import ServiceUnits.Delta
import ServiceUnits.Proofs.Text.Cutting

namespace ServiceUnits

open Text

theorem Effect.exists_index (i : Nat) (h : i < 16) : ∃ x : Effect, x.index = i := by
  have all_bits : ∀ i : Fin 16, ∃ x ∈ Effect.all, x.index = i := by decide
  obtain ⟨x, -, hx⟩ := all_bits ⟨i, h⟩
  exact ⟨x, hx⟩

namespace Edge

/-- Edges with the same effects are the same. -/
theorem ext_has {a b : Edge} (h : ∀ x, a.has x = b.has x) : a = b := by
  obtain ⟨a⟩ := a
  obtain ⟨b⟩ := b
  congr 1
  refine BitVec.eq_of_getLsbD_eq fun i hi => ?_
  obtain ⟨x, rfl⟩ := Effect.exists_index i hi
  exact h x

theorem isNone_iff {e : Edge} : e.isNone = true ↔ e = none := by
  obtain ⟨bits⟩ := e
  simp [isNone, none]

theorem isNone_iff_forall_has {e : Edge} : e.isNone = true ↔ ∀ x, e.has x = false := by
  rw [isNone_iff]
  constructor
  · intro he x
    rw [he, has_none]
  · intro h
    exact ext_has fun x => by rw [h, has_none]

theorem isNone_union (a b : Edge) : (a ||| b).isNone = (a.isNone && b.isNone) := by
  rw [Bool.eq_iff_iff, Bool.and_eq_true]
  simp only [isNone_iff_forall_has, has_union, Bool.or_eq_false_iff, forall_and]

theorem union_none (e : Edge) : e ||| none = e :=
  ext_has fun x => by rw [has_union, has_none, Bool.or_false]

/-- A stored edge: one without effects is not stored. -/
def stored? (e : Edge) : Option Edge := if e.isNone then .none else some e

theorem stored?_getD (e : Edge) : e.stored?.getD none = e := by
  unfold stored?
  split
  · rename_i h
    rw [Option.getD_none, isNone_iff.1 h]
  · rfl

theorem stored?_of_isNone_eq_false {e : Edge} (h : e.isNone = false) : e.stored? = some e := by
  simp [stored?, h]

/-- An edge that has all the effects of one that is not empty is stored. -/
theorem stored?_of_forall_has {a b : Edge} (ha : a.isNone = false)
    (h : ∀ x, a.has x = true → b.has x = true) : b.stored? = some b := by
  refine stored?_of_isNone_eq_false ?_
  rw [← Bool.not_eq_true, isNone_iff_forall_has] at ha ⊢
  intro hb
  refine ha fun x => Bool.eq_false_iff.2 fun hx => ?_
  exact Bool.eq_false_iff.1 (hb x) (h x hx)

end Edge

namespace Delta

/-- The effects of all the entries of a peer. -/
def gathered (edgeOf : Relation → Edge) (entries : List (Relation × String)) (peer : String) :
    Edge :=
  entries.foldl (fun e entry => if entry.2 = peer then e ||| edgeOf entry.1 else e) .none

theorem gathered_concat (edgeOf : Relation → Edge) (entries : List (Relation × String))
    (entry : Relation × String) (peer : String) :
    gathered edgeOf (entries ++ [entry]) peer =
      if entry.2 = peer then gathered edgeOf entries peer ||| edgeOf entry.1
      else gathered edgeOf entries peer := by
  simp [gathered]

theorem has_gathered {edgeOf : Relation → Edge} {entries : List (Relation × String)}
    {peer : String} {x : Effect} :
    (gathered edgeOf entries peer).has x = true ↔
      ∃ r, (r, peer) ∈ entries ∧ (edgeOf r).has x = true := by
  induction entries using List.reverseRecOn with
  | nil => simp [gathered, Edge.has_none]
  | append_singleton entries entry ih =>
    obtain ⟨r, p⟩ := entry
    rw [gathered_concat]
    split
    · rename_i hp
      change p = peer at hp
      rw [Edge.has_union, Bool.or_eq_true, ih]
      constructor
      · intro h
        rcases h with ⟨s, hs, hx⟩ | hx
        · exact ⟨s, List.mem_append_left _ hs, hx⟩
        · exact ⟨r, by simp [← hp], hx⟩
      · intro h
        obtain ⟨s, hs, hx⟩ := h
        rcases List.mem_append.1 hs with hs | hs
        · exact .inl ⟨s, hs, hx⟩
        · simp only [List.mem_singleton, Prod.mk.injEq] at hs
          exact .inr (hs.1 ▸ hx)
    · rename_i hp
      rw [ih]
      refine exists_congr fun s => and_congr_left fun _ => ?_
      simp [Ne.symm hp]

theorem find?_addEdge {edges : Dict Edge} {peer : String} {e₀ : Edge}
    (h : edges.find? peer = e₀.stored?) (p : String) (e : Edge) :
    (addEdge edges p e).find? peer = (if p = peer then e₀ ||| e else e₀).stored? := by
  unfold addEdge
  split
  · rename_i he
    rw [Edge.isNone_iff.1 he, Edge.union_none, ite_self, h]
  · rename_i he
    rw [Dict.find?_alter]
    by_cases hp : p = peer
    · subst hp
      rw [if_pos rfl, if_pos rfl, h, Edge.stored?_getD, Edge.stored?_of_isNone_eq_false]
      simp [Edge.isNone_union, he]
    · rw [if_neg hp, if_neg (Ne.symm hp), h]

/-- Edges are stored entry by entry; what is stored in the end are the effects of all of them. -/
theorem find?_foldl_addRelation (entries : List (Relation × String)) (peer : String) :
    let d := entries.foldl (fun d entry => d.addRelation entry.1 entry.2) empty
    d.outgoing.find? peer = (gathered Relation.edge entries peer).stored? ∧
      d.incoming.find? peer = (gathered (·.reverse.edge) entries peer).stored? := by
  induction entries using List.reverseRecOn with
  | nil => exact ⟨rfl, rfl⟩
  | append_singleton entries entry ih =>
    simp only [List.foldl_append, List.foldl_cons, List.foldl_nil, gathered_concat]
    exact ⟨find?_addEdge ih.1 entry.2 _, find?_addEdge ih.2 entry.2 _⟩

theorem mem_peers {c : Config} {r : Relation} {peer : String} :
    peer ∈ peers c r ↔
      ∃ value ∈ (c.values? Config.unitSection r.key).getD [], peer.toList ∈ words value.toList := by
  simp only [peers, List.mem_flatMap, List.mem_map]
  refine exists_congr fun value => and_congr_right fun _ => ⟨?_, ?_⟩
  · intro h
    obtain ⟨w, hw, rfl⟩ := h
    rwa [String.toList_ofList]
  · intro h
    exact ⟨peer.toList, h, String.ofList_toList⟩

theorem mem_declared {c : Config} {r : Relation} {peer : String} :
    (r, peer) ∈ declared c ↔ peer ∈ peers c r := by
  simp only [declared, List.mem_flatMap, List.mem_map, Prod.mk.injEq]
  constructor
  · intro h
    obtain ⟨s, -, p, hp, rfl, rfl⟩ := h
    exact hp
  · intro h
    exact ⟨r, r.mem_all, peer, h, rfl, rfl⟩

/-- The edges of a config, each with the effects of all the relations that it comes from. -/
theorem find?_ofConfig (c : Config) (peer : String) :
    (ofConfig c).outgoing.find? peer = (gathered Relation.edge (declared c) peer).stored? ∧
      (ofConfig c).incoming.find? peer =
        (gathered (·.reverse.edge) (declared c) peer).stored? :=
  find?_foldl_addRelation (declared c) peer

/-- The edge of a peer has all the effects of `e`. It need not be there if `e` has none. -/
def Covers (edges : Dict Edge) (peer : String) (e : Edge) : Prop :=
  e.isNone = false → ∃ all, edges.find? peer = some all ∧ ∀ x, e.has x = true → all.has x = true

theorem covers_of_mem (edgeOf : Relation → Edge) {edges : Dict Edge}
    {entries : List (Relation × String)} {r : Relation} {peer : String}
    (hf : edges.find? peer = (gathered edgeOf entries peer).stored?) (h : (r, peer) ∈ entries) :
    Covers edges peer (edgeOf r) := by
  intro hr
  have hx : ∀ x, (edgeOf r).has x = true → (gathered edgeOf entries peer).has x = true :=
    fun x hx => has_gathered.2 ⟨r, h, hx⟩
  exact ⟨_, hf.trans (Edge.stored?_of_forall_has hr hx), hx⟩

/-- A value without blanks is one peer: the edges of its key's relation are there, both ways. -/
theorem ofConfig_of_value {c : Config} {r : Relation} {peer : String}
    (h : peer ∈ (c.values? Config.unitSection r.key).getD []) (hne : peer.toList ≠ [])
    (hb : ∀ ch ∈ peer.toList, isBlank ch = false) :
    Covers (ofConfig c).outgoing peer r.edge ∧
      Covers (ofConfig c).incoming peer r.reverse.edge := by
  have hd : (r, peer) ∈ declared c := by
    refine mem_declared.2 (mem_peers.2 ⟨peer, h, ?_⟩)
    rw [words_of_forall hne hb]
    exact List.mem_singleton_self _
  obtain ⟨hout, hin⟩ := find?_ofConfig c peer
  exact ⟨covers_of_mem Relation.edge hout hd, covers_of_mem (·.reverse.edge) hin hd⟩

end Delta
end ServiceUnits
