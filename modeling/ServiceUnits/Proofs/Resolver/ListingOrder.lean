import ServiceUnits.FileSystem.NodeTable
import ServiceUnits.Proofs.Dropin.Dependencies
import ServiceUnits.Proofs.Dropin.Overlays
import ServiceUnits.Proofs.Resolver.Located
import ServiceUnits.Proofs.Resolver.Stages

namespace ServiceUnits

/-- Units find the same in both: the chains of names, the bytes of files, and the names in
directories, as often as they occur. -/
structure FileSystem.Alike (a b : FileSystem) : Prop where
  chainIn? : ∀ name dir, chainIn? a name dir = chainIn? b name dir
  read : ∀ p, a.read p = b.read p
  entries : ∀ dir, (Dropin.entries a dir).Perm (Dropin.entries b dir)

variable {a b : FileSystem}

namespace FileSystem.Alike

theorem selectedOverlays (h : a.Alike b) (lookup : Lookup) (aliases : AliasSet) :
    Dropin.selectedOverlays a lookup aliases = Dropin.selectedOverlays b lookup aliases := by
  rw [Dropin.selectedOverlays, Dropin.overlays_congr fun dir _ => (h.entries dir).mem_iff,
    Dropin.selectedOverlays]

theorem added (h : a.Alike b) (table : SuffixTable) (stems : List String)
    (param : Option String) :
    Dropin.added a table stems param = Dropin.added b table stems param := by
  simp only [Dropin.added, fun dir => Dropin.dependencies_congr (h.entries dir) param]

theorem dropins (h : a.Alike b) (lookup : Lookup) (table : SuffixTable) (aliases : AliasSet)
    (c : Config) :
    Dropin.apply a lookup table aliases c = Dropin.apply b lookup table aliases c := by
  simp only [Dropin.apply, h.selectedOverlays, Dropin.applyOverlays_congr h.read, h.added]

theorem resolve (h : a.Alike b) (lookup : Lookup) (table : SuffixTable) (text : String) :
    (⟨a, lookup, table⟩ : Resolver).resolve text =
      (⟨b, lookup, table⟩ : Resolver).resolve text := by
  simp only [Resolver.resolve, locate_congr h.chainIn?, h.read, h.dropins]

theorem handovers (h : a.Alike b) (lookup : Lookup) (table : SuffixTable) (names : List String) :
    (⟨a, lookup, table⟩ : Resolver).handovers names =
      (⟨b, lookup, table⟩ : Resolver).handovers names := by
  simp only [Resolver.handovers, h.resolve]

end FileSystem.Alike

namespace FileSystem

/-- Two answers to the question what is in a directory: refusals, or the same names in any order. -/
inductive SameNames : Except Error (List String) → Except Error (List String) → Prop
  | refused (e f : Error) : SameNames (.error e) (.error f)
  | listed {names others : List String} (h : names.Perm others) : SameNames (.ok names) (.ok others)

structure SameButOrder (a b : FileSystem) : Prop where
  chain : ∀ p, a.chain p = b.chain p
  read : ∀ p, a.read p = b.read p
  list : ∀ p, SameNames (a.list p) (b.list p)

theorem SameNames.perm {x y : Except Error (List String)} (h : SameNames x y) :
    (x.toOption.getD []).Perm (y.toOption.getD []) := by
  cases h with
  | refused => exact .nil
  | listed h => exact h

theorem SameButOrder.alike (h : a.SameButOrder b) : a.Alike b where
  chainIn? := fun name dir => by simp only [ServiceUnits.chainIn?, h.chain]
  read := h.read
  entries := fun dir => (h.list dir).perm

/-- The file system with every listing backwards. -/
def backwards (fs : FileSystem) : FileSystem :=
  { fs with list := fun p => (fs.list p).map List.reverse }

theorem sameButOrder_backwards (fs : FileSystem) : fs.SameButOrder fs.backwards where
  chain := fun _ => rfl
  read := fun _ => rfl
  list := fun p => by
    change SameNames (fs.list p) ((fs.list p).map List.reverse)
    cases fs.list p with
    | error e => exact .refused e e
    | ok names => exact .listed names.reverse_perm.symm

end FileSystem

namespace Resolver

/-- The order of listings decides nothing: not which overlays count, nor in which order values are
appended and cleared, nor what the scheduler is given. -/
theorem resolve_ignores_listing_order (h : a.SameButOrder b) (lookup : Lookup)
    (table : SuffixTable) :
    (∀ text, (⟨a, lookup, table⟩ : Resolver).resolve text =
      (⟨b, lookup, table⟩ : Resolver).resolve text) ∧
    ∀ names, (⟨a, lookup, table⟩ : Resolver).handovers names =
      (⟨b, lookup, table⟩ : Resolver).handovers names :=
  ⟨h.alike.resolve lookup table, h.alike.handovers lookup table⟩

/-- A unit with two overlays that do not commute, and a dependency directory. -/
def crowded : FileSystem := NodeTable.fileSystem
  { nodes := [(Path.components ⟨"/u/a.service"⟩, .file .empty),
      (Path.components ⟨"/u/a.service.d/1.conf"⟩, .file "[Unit]\nWants=\n".toUTF8),
      (Path.components ⟨"/u/a.service.d/2.conf"⟩, .file "[Unit]\nWants=c\n".toUTF8)]
    listings := [(Path.components ⟨"/u/a.service.d"⟩, .names ["2.conf", "1.conf"]),
      (Path.components ⟨"/u/a.service.wants"⟩, .names ["d"])] }

theorem crowded_backwards :
    (crowded.list ⟨"/u/a.service.d"⟩).toOption = some ["2.conf", "1.conf"] ∧
    (crowded.backwards.list ⟨"/u/a.service.d"⟩).toOption = some ["1.conf", "2.conf"] ∧
    ∃ u, (⟨crowded, ⟨["/u"]⟩, .standard⟩ : Resolver).resolve "a" = .ok u ∧
      (⟨crowded.backwards, ⟨["/u"]⟩, .standard⟩ : Resolver).resolve "a" = .ok u ∧
      u.config.values? Config.unitSection "Wants" = some ["c", "d.service"] := by
  have hvalues : ((⟨crowded, ⟨["/u"]⟩, .standard⟩ : Resolver).resolve "a").toOption.map
      (·.config.values? Config.unitSection "Wants") = some (some ["c", "d.service"]) := by
    decide +kernel
  obtain ⟨u, hu, hvalues⟩ := exists_eq_ok hvalues
  have hsame := (resolve_ignores_listing_order crowded.sameButOrder_backwards ⟨["/u"]⟩ .standard).1
  exact ⟨by decide +kernel, by decide +kernel, u, hu, (hsame "a").symm.trans hu, hvalues⟩

end Resolver
end ServiceUnits
