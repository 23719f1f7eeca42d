import ServiceUnits.FileSystem.NodeTable
import ServiceUnits.Proofs.Delta.Edges
import ServiceUnits.Proofs.Dropin.Dependencies
import ServiceUnits.Proofs.Resolver.Stages

namespace ServiceUnits

open Text

namespace Resolver

/-- No entry of a dependency directory is lost, whatever the fragment and the overlays say: its unit
is a value of the key, a single word, and the edges to it and back have all the effects of the
relation and of its reverse. -/
theorem resolve_keeps_dependencies {r : Resolver} {text : String} {u : ResolvedUnit}
    (hu : r.resolve text = .ok u) {suffix : String} {rel : Relation} (hrow : (suffix, rel) ∈ r.table)
    {subpath dir : String} (hs : subpath ∈ Dropin.subpaths u.aliases) (hd : dir ∈ r.lookup.dirs)
    {names : List String} (hl : r.fs.list ⟨dir ++ "/" ++ subpath ++ "." ++ suffix⟩ = .ok names)
    {entry : String} (he : entry ∈ names) {n : Name} (hn : Name.parse? entry = some n) :
    let peer := Dropin.entryUnit u.aliases.id? entry n
    peer ∈ (u.config.values? Config.unitSection rel.key).getD [] ∧
      (∀ c ∈ peer.toList, isBlank c = false) ∧
      Delta.Covers u.delta.outgoing peer rel.edge ∧
      Delta.Covers u.delta.incoming peer rel.reverse.edge := by
  intro peer
  obtain ⟨-, -, ⟨_, fragment, -, -, happly⟩, hdelta⟩ := resolve_eq_ok_iff.1 hu
  have hdep : peer ∈ Dropin.dependencies r.fs (Dropin.parameter? u.aliases)
      (Dropin.directory (dir ++ "/" ++ subpath) suffix) :=
    Dropin.mem_dependencies.2
      ⟨entry, (Dropin.mem_entries hl).2 he, Dropin.dependency?_of_parse? hn⟩
  have hvalue : peer ∈ (u.config.values? Config.unitSection rel.key).getD [] :=
    Dropin.mem_values?_of_mem_added happly
      (Dropin.mem_added.2 ⟨suffix, _, hrow, Dropin.mem_stems hs hd, hdep⟩)
  obtain ⟨m, hm, hpeer⟩ := Dropin.entryUnit_eq_text u.aliases.id? hn
  have hblank : ∀ c ∈ peer.toList, isBlank c = false := fun c hc =>
    hm.isBlank_text (hpeer ▸ hc)
  have hne : peer.toList ≠ [] := fun h0 => m.toList_text_ne_nil (hpeer ▸ h0)
  rw [hdelta]
  exact ⟨hvalue, hblank, Delta.ofConfig_of_value hvalue hne hblank⟩

/-- An instance with a dependency directory, whose overlay clears the key of that directory. -/
def clearing : Resolver where
  fs := NodeTable.fileSystem
    { nodes := [(Path.components ⟨"/u/a@1.service"⟩, .file "[Unit]\nWants=c\n".toUTF8),
        (Path.components ⟨"/u/a@1.service.d/x.conf"⟩, .file "[Unit]\nWants=\n".toUTF8)]
      listings := [(Path.components ⟨"/u/a@1.service.d"⟩, .names ["x.conf"]),
        (Path.components ⟨"/u/a@1.service.wants"⟩, .names ["b@"])] }
  lookup := ⟨["/u"]⟩
  table := .standard

theorem clearing_keeps_template_entry : ∃ u, clearing.resolve "a@1" = .ok u ∧
    "b@1.service" ∈ (u.config.values? Config.unitSection "Wants").getD [] ∧
    Delta.Covers u.delta.outgoing "b@1.service" Relation.wants.edge := by
  have ha : (clearing.resolve "a@1").toOption.map ResolvedUnit.aliases =
      some ⟨["a@1.service"], ⟨⟨"/u/a@1.service"⟩, []⟩⟩ := by decide +kernel
  obtain ⟨u, hu, ha⟩ := exists_eq_ok ha
  have hs : "a@1.service" ∈ Dropin.subpaths u.aliases := by rw [ha]; decide +kernel
  have hn : Name.parse? "b@" = some ⟨"b", some "", "service", false⟩ := by decide +kernel
  have hl : clearing.fs.list ⟨"/u/a@1.service.wants"⟩ = .ok ["b@"] := by rfl
  have hunit : Dropin.entryUnit u.aliases.id? "b@" ⟨"b", some "", "service", false⟩ =
      "b@1.service" := by rw [ha]; decide +kernel
  have hrow : ("wants", Relation.wants) ∈ clearing.table := List.mem_cons_self
  have hd : "/u" ∈ clearing.lookup.dirs := List.mem_singleton_self _
  obtain ⟨hvalue, -, hout, -⟩ :=
    resolve_keeps_dependencies hu hrow hs hd hl (List.mem_singleton_self _) hn
  rw [hunit] at hvalue hout
  exact ⟨u, hu, hvalue, hout⟩

end Resolver
end ServiceUnits
