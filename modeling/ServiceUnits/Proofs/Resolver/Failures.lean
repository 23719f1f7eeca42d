import ServiceUnits.Proofs.Resolver.ListingOrder
import ServiceUnits.Proofs.Resolver.Located

namespace ServiceUnits

namespace FileSystem

/-- No place is found at a path: asking for its chain fails, or gives no place at all. -/
def LeadsNowhere (fs : FileSystem) (p : Path) : Prop := ∀ c, fs.chain p = .ok c → c = []

def Unlisted (fs : FileSystem) (dir : Path) : Prop := ∀ names, fs.list dir ≠ .ok names

/-- Both fail at the same paths, each for reasons of its own, and are the same everywhere else. -/
structure SameButFailures (a b : FileSystem) : Prop where
  chain : ∀ p, a.chain p = b.chain p ∨ a.LeadsNowhere p ∧ b.LeadsNowhere p
  read : ∀ p, a.read p = b.read p
  list : ∀ p, a.list p = b.list p ∨ a.Unlisted p ∧ b.Unlisted p

/-- The file system in which nothing fails but for a path that is not there. `what` is the text of
these failures. -/
def onlyMissing (fs : FileSystem) (what : Path → String) : FileSystem where
  chain p :=
    match fs.chain p with
    | .ok (q :: qs) => .ok (q :: qs)
    | _ => .error (.missing (what p))
  read := fs.read
  list p :=
    match fs.list p with
    | .ok names => .ok names
    | .error _ => .error (.missing (what p))

theorem sameButFailures_onlyMissing (fs : FileSystem) (what : Path → String) :
    fs.SameButFailures (fs.onlyMissing what) where
  chain p := by
    simp only [LeadsNowhere, onlyMissing]
    cases fs.chain p with
    | error e => simp
    | ok c => cases c <;> simp
  read _ := rfl
  list p := by
    simp only [Unlisted, onlyMissing]
    cases fs.list p <;> simp

variable {a b : FileSystem}

theorem LeadsNowhere.chainIn? {fs : FileSystem} {name dir : String}
    (h : fs.LeadsNowhere (Path.join ⟨dir⟩ name)) : chainIn? fs name dir = none :=
  chainIn?_eq_none_iff.2 h

theorem Unlisted.entries {fs : FileSystem} {dir : Path} (h : fs.Unlisted dir) :
    Dropin.entries fs dir = [] := by
  unfold Dropin.entries
  cases hl : fs.list dir with
  | error e => rfl
  | ok names => exact absurd hl (h names)

theorem SameButFailures.alike (h : a.SameButFailures b) : a.Alike b where
  chainIn? name dir := by
    rcases h.chain (Path.join ⟨dir⟩ name) with e | ⟨ha, hb⟩
    · simp only [ServiceUnits.chainIn?, e]
    · rw [ha.chainIn?, hb.chainIn?]
  read := h.read
  entries dir := by
    rcases h.list dir with e | ⟨ha, hb⟩
    · simp only [Dropin.entries, e, List.Perm.refl]
    · rw [ha.entries, hb.entries]

end FileSystem

namespace Resolver

/-- A failure of any kind is an absence: units resolve as if every chain or listing that fails, and
every chain without places, were of a path that is not there. The same holds of any failures apart
from the others. -/
theorem resolve_ignores_kind_of_failure (fs : FileSystem) (lookup : Lookup) (table : SuffixTable) :
    (∀ what text, (⟨fs.onlyMissing what, lookup, table⟩ : Resolver).resolve text =
      (⟨fs, lookup, table⟩ : Resolver).resolve text) ∧
    ∀ other : FileSystem, fs.SameButFailures other →
      (∀ text, (⟨other, lookup, table⟩ : Resolver).resolve text =
        (⟨fs, lookup, table⟩ : Resolver).resolve text) ∧
      ∀ names, (⟨other, lookup, table⟩ : Resolver).handovers names =
        (⟨fs, lookup, table⟩ : Resolver).handovers names := by
  have general : ∀ other : FileSystem, fs.SameButFailures other → ∀ text,
      (⟨other, lookup, table⟩ : Resolver).resolve text =
        (⟨fs, lookup, table⟩ : Resolver).resolve text :=
    fun other h text => (h.alike.resolve lookup table text).symm
  refine ⟨fun what => general _ (fs.sameButFailures_onlyMissing what), ?_⟩
  intro other h
  exact ⟨general other h, fun names => (h.alike.handovers lookup table names).symm⟩

/-- A unit in the last of three directories. The first refuses its name, in the second it leads to
no place; its overlays may not be listed in the second, nor its dependencies in the last. -/
def troubled : FileSystem := NodeTable.fileSystem
  { nodes := [(Path.components ⟨"/a/x.service"⟩, .brokenChain),
      (Path.components ⟨"/b/x.service"⟩, .emptyChain),
      (Path.components ⟨"/c/x.service"⟩, .file .empty),
      (Path.components ⟨"/c/x.service.d/1.conf"⟩, .file "[Unit]\nWants=y\n".toUTF8)]
    listings := [(Path.components ⟨"/b/x.service.d"⟩, .denied),
      (Path.components ⟨"/c/x.service.d"⟩, .names ["1.conf"]),
      (Path.components ⟨"/c/x.service.wants"⟩, .denied)] }

theorem troubled_resolves : ∃ u,
    (⟨troubled, ⟨["/a", "/b", "/c"]⟩, .standard⟩ : Resolver).resolve "x" = .ok u ∧
    (⟨troubled.onlyMissing Path.text, ⟨["/a", "/b", "/c"]⟩, .standard⟩ : Resolver).resolve "x" =
      .ok u ∧
    u.config.values? Config.unitSection "Wants" = some ["y"] ∧
    (troubled.list ⟨"/c/x.service.wants"⟩) = .error NodeTable.denied ∧
    troubled.SameButFailures (troubled.onlyMissing Path.text) ∧
    (⟨troubled.onlyMissing Path.text, ⟨["/a", "/b", "/c"]⟩, .standard⟩ : Resolver).handovers ["x"] =
      [u.handover] := by
  have hvalues : ((⟨troubled, ⟨["/a", "/b", "/c"]⟩, .standard⟩ : Resolver).resolve "x").toOption.map
      (·.config.values? Config.unitSection "Wants") = some (some ["y"]) := by
    decide +kernel
  obtain ⟨u, hu, hvalues⟩ := exists_eq_ok hvalues
  have hkind := resolve_ignores_kind_of_failure troubled ⟨["/a", "/b", "/c"]⟩ .standard
  have hsame := troubled.sameButFailures_onlyMissing Path.text
  have hcalls : (⟨troubled, ⟨["/a", "/b", "/c"]⟩, .standard⟩ : Resolver).handovers ["x"] =
      [u.handover] := by
    simp [handovers, hu, Except.toOption]
  exact ⟨u, hu, (hkind.1 Path.text "x").trans hu, hvalues, rfl, hsame,
    ((hkind.2 _ hsame).2 ["x"]).trans hcalls⟩

end Resolver
end ServiceUnits
