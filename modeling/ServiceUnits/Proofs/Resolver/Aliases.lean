import ServiceUnits.FileSystem.NodeTable
import ServiceUnits.Proofs.Name.Parts
import ServiceUnits.Proofs.Resolver.Located
import ServiceUnits.Proofs.Resolver.Stages

namespace ServiceUnits

namespace AliasSet

theorem mem_names_ofChain {c : Chain} {name : String} :
    name ∈ (ofChain c).names ↔ name ∈ c.fileNames := List.mem_eraseDups

theorem mem_fileNames {c : Chain} {name : String} :
    name ∈ c.fileNames ↔ ∃ p ∈ c.toList, ∃ f, p.fileName? = some f ∧ Name.canonical f = name := by
  simp only [Chain.fileNames, List.mem_map, List.mem_filterMap]
  constructor
  · intro h
    obtain ⟨f, ⟨p, hp, hf⟩, rfl⟩ := h
    exact ⟨p, hp, f, hf, rfl⟩
  · intro h
    obtain ⟨p, hp, f, hf, rfl⟩ := h
    exact ⟨f, ⟨p, hp, hf⟩, rfl⟩

/-- Beside its own name an instance has only instances as aliases. -/
theorem mem_names_ofTemplate {name param a : String} {c : Chain} :
    a ∈ (ofTemplate name param c).names ↔
      a = name ∨ ∃ other ∈ c.fileNames, ∃ n, Name.parse? other = some n ∧
        n.instantiate? param = some a := by
  simp only [ofTemplate, List.mem_eraseDups, List.mem_cons, List.mem_filterMap, mem_names_ofChain,
    Option.bind_eq_some_iff]

theorem not_template_of_mem_ofTemplate {name param a : String} {c : Chain}
    (hn : Name.isFileName (· = .template) name = false)
    (hp : Name.parameterOf? name = some param) (ha : a ∈ (ofTemplate name param c).names) :
    Name.isFileName (· = .template) a = false := by
  rcases mem_names_ofTemplate.1 ha with rfl | ⟨other, -, n, hparse, hinst⟩
  · exact hn
  · obtain ⟨-, rfl⟩ := Name.instantiate?_eq_some_iff.1 hinst
    obtain ⟨hne, hpart⟩ := Name.parameterOf?_spec hp
    exact Name.isFileName_template_text ((Name.parse?_spec hparse).2.1.withParam hpart)
      fun e => hne (Option.some.inj e)

end AliasSet

namespace Resolver

/-- No template is among the aliases that the scheduler is given exactly if the unit has no chain of
its own, or has one in which no file has the name of a template. -/
theorem resolve_names_no_template_iff {r : Resolver} {text : String} {u : ResolvedUnit}
    (hu : r.resolve text = .ok u) :
    (∀ a ∈ u.handover.aliases, Name.isFileName (· = .template) a = false) ↔
      ∀ c, firstChain? r.fs r.lookup (Name.canonical text) = some c →
        ∀ p ∈ c.toList, ∀ f, p.fileName? = some f →
          Name.isFileName (· = .template) (Name.canonical f) = false := by
  obtain ⟨hname, hloc, -, -⟩ := resolve_eq_ok_iff.1 hu
  rw [locate_eq_ok_iff, Name.canonical_canonical] at hloc
  change (∀ a ∈ u.aliases.names, _) ↔ _
  generalize u.aliases = aliases at hloc ⊢
  cases hloc with
  | @direct c hc hm =>
    constructor
    · intro h c' hc' p hp f hf
      obtain rfl := Option.some.inj (hc.symm.trans hc')
      exact h _ (AliasSet.mem_names_ofChain.2 (AliasSet.mem_fileNames.2 ⟨p, hp, f, hf, rfl⟩))
    · intro h a ha
      obtain ⟨p, hp, f, hf, rfl⟩ := AliasSet.mem_fileNames.1 (AliasSet.mem_names_ofChain.1 ha)
      exact h c hc p hp f hf
  | fromTemplate hn hb hp hc hm =>
    constructor
    · intro _ c' hc'
      rw [hn] at hc'
      cases hc'
    · intro _ a ha
      exact AliasSet.not_template_of_mem_ofTemplate (checkName_eq_ok_iff.1 hname).not_template hp ha

/-- An instance with a link of its own to the file of its template. -/
def linkedInstance : Resolver where
  fs := NodeTable.fileSystem
    { nodes := [(Path.components ⟨"/lib/units/getty@tty1.service"⟩, .link "/lib/units/getty@.service"),
        (Path.components ⟨"/lib/units/getty@.service"⟩, .file "[Unit]\n".toUTF8)]
      listings := [] }
  lookup := ⟨["/lib/units"]⟩
  table := .standard

/-- The other instances of the template have no chain of their own. -/
theorem linkedInstance_fallback_no_template :
    ∃ u, linkedInstance.resolve "getty@tty2.service" = .ok u ∧
      ∀ a ∈ u.handover.aliases, Name.isFileName (· = .template) a = false := by
  have ha : (linkedInstance.resolve "getty@tty2.service").toOption.map (·.handover.aliases) =
      some ["getty@tty2.service"] := by decide +kernel
  have hn : firstChain? linkedInstance.fs linkedInstance.lookup
      (Name.canonical "getty@tty2.service") = none := by decide +kernel
  obtain ⟨u, hu, -⟩ := exists_eq_ok ha
  refine ⟨u, hu, (resolve_names_no_template_iff hu).2 ?_⟩
  intro c hc
  rw [hn] at hc
  cases hc

theorem linkedInstance_aliases :
    (linkedInstance.resolve "getty@tty1.service").toOption.map (·.handover.aliases) =
      some ["getty@tty1.service", "getty@.service"] := by decide +kernel

/-- A template name can be given to the scheduler: the instance is known by its template's name. -/
theorem linkedInstance_names_template :
    ¬ ∀ (r : Resolver) (text : String) (u : ResolvedUnit), r.resolve text = .ok u →
      ∀ a ∈ u.handover.aliases, Name.isFileName (· = .template) a = false := by
  intro h
  obtain ⟨u, hu, ha⟩ := exists_eq_ok linkedInstance_aliases
  have ht := h _ _ u hu "getty@.service" (by simp [ha])
  exact absurd ht (by decide +kernel)

end Resolver
end ServiceUnits
