import Mathlib.Data.List.Nodup
import ServiceUnits.Proofs.Delta.ClosedForm

namespace ServiceUnits

namespace Dict

variable {α : Type}

/-- The same values under other keys. -/
def renameKeys (d : Dict α) (f : String → String) : Dict α :=
  ofList (d.entries.map fun e => (f e.1, e.2))

theorem find?_renameKeys {f : String → String} (hf : Function.Injective f) (d : Dict α)
    (key : String) : (d.renameKeys f).find? (f key) = d.find? key := by
  have hkeys : ((d.entries.map fun e => (f e.1, e.2)).map (·.1)).Nodup := by
    have hnodup := d.nodup_keys.map hf
    rw [keys, List.map_map] at hnodup
    rw [List.map_map]
    exact hnodup
  refine Option.ext fun v => ?_
  rw [renameKeys, find?_ofList hkeys, List.mem_map]
  constructor
  · intro h
    obtain ⟨e, he, hkey⟩ := h
    rw [Prod.mk.injEq] at hkey
    obtain ⟨hkey, rfl⟩ := hkey
    exact hf hkey ▸ mem_entries_iff.1 he
  · intro h
    exact ⟨(key, v), mem_entries_iff.2 h, rfl⟩

end Dict

namespace Relation

/-- The key of the reverse relation. A key of no relation stays. -/
def reverseKey (key : String) : String :=
  match ofKey? key with
  | some r => r.reverse.key
  | none => key

theorem reverseKey_key (r : Relation) : reverseKey r.key = r.reverse.key := by
  rw [reverseKey, ofKey?_key]

theorem reverseKey_of_ofKey?_eq_none {key : String} (h : ofKey? key = none) :
    reverseKey key = key := by
  rw [reverseKey, h]

theorem reverseKey_reverseKey : Function.LeftInverse reverseKey reverseKey := by
  intro key
  cases h : ofKey? key with
  | none => rw [reverseKey_of_ofKey?_eq_none h, reverseKey_of_ofKey?_eq_none h]
  | some r => rw [← key_of_ofKey? h, reverseKey_key, reverseKey_key, reverse_reverse]

theorem reverseKey_injective : Function.Injective reverseKey := reverseKey_reverseKey.injective

end Relation

namespace Config

/-- The config with the reverse of each relation in the relation's place. -/
def reversed (c : Config) : Config :=
  match c.sections.find? unitSection with
  | none => c
  | some s => ⟨c.sections.insert unitSection (s.renameKeys Relation.reverseKey)⟩

/-- The relations of one config are the reverses of the other's; all else is the same. -/
structure Reversed (c d : Config) : Prop where
  relations : ∀ r : Relation, d.values? unitSection r.reverse.key = c.values? unitSection r.key
  otherKeys : ∀ key, Relation.ofKey? key = none →
    d.values? unitSection key = c.values? unitSection key
  otherSections : ∀ name, name ≠ unitSection → d.sections.find? name = c.sections.find? name

theorem values?_reversed (c : Config) (key : String) :
    c.reversed.values? unitSection (Relation.reverseKey key) = c.values? unitSection key := by
  unfold reversed values?
  split
  · rename_i h
    rw [h, Option.bind_none, Option.bind_none]
  · rename_i s h
    rw [Dict.find?_insert, if_pos rfl, h, Option.bind_some, Option.bind_some]
    exact Dict.find?_renameKeys Relation.reverseKey_injective s key

theorem reversed_spec (c : Config) : Reversed c c.reversed where
  relations r := by rw [← Relation.reverseKey_key, values?_reversed]
  otherKeys key h := by
    have hkey := c.values?_reversed key
    rwa [Relation.reverseKey_of_ofKey?_eq_none h] at hkey
  otherSections name h := by
    unfold reversed
    split
    · rfl
    · rw [Dict.find?_insert, if_neg h]

end Config

namespace Delta

theorem declares_reversed {c : Config} {r : Relation} {peer : String} :
    Declares c.reversed r.reverse peer ↔ Declares c r peer := by
  rw [Declares, c.reversed_spec.relations, Declares]

/-- What is declared from one side gives what the reverses give from the other. -/
theorem joint_towards_reversed (edgeOf : Relation → Edge) (c : Config) (peer : String) :
    Edge.joint edgeOf (towards c.reversed peer) =
      Edge.joint (edgeOf ·.reverse) (towards c peer) := by
  refine Edge.ext_has fun x => ?_
  rw [Bool.eq_iff_iff, Edge.has_joint, Edge.has_joint]
  simp only [mem_towards]
  constructor
  · intro h
    obtain ⟨r, hr, hx⟩ := h
    rw [← r.reverse_reverse] at hr hx
    exact ⟨r.reverse, declares_reversed.1 hr, hx⟩
  · intro h
    obtain ⟨r, hr, hx⟩ := h
    exact ⟨r.reverse, declares_reversed.2 hr, hx⟩

/-- To declare relations on one side is to declare their reverses on the other: the edges out and
the edges in change places. -/
theorem ofConfig_reversed (c : Config) :
    Config.Reversed c c.reversed ∧
    (ofConfig c.reversed).outgoing = (ofConfig c).incoming ∧
    (ofConfig c.reversed).incoming = (ofConfig c).outgoing := by
  refine ⟨c.reversed_spec, Dict.ext_find? fun peer => ?_, Dict.ext_find? fun peer => ?_⟩
  · rw [find?_outgoing, find?_incoming, joint_towards_reversed]
  · rw [find?_incoming, find?_outgoing, joint_towards_reversed]
    simp only [Relation.reverse_reverse]

end Delta
end ServiceUnits
