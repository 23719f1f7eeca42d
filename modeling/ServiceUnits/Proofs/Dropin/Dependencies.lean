import ServiceUnits.Dropin
import ServiceUnits.Proofs.Config.Appending
import ServiceUnits.Proofs.Name.Parts

namespace ServiceUnits

namespace Dropin

/-- The unit of an entry whose name is `n`, in a directory of the unit with this identity: of a
template the instance with the parameter of the identity, of any other name its canonical form. -/
def entryUnit (id? : Option String) (entry : String) (n : Name) : String :=
  match n.isTemplate, id?.bind Name.parameterOf? with
  | true, some p => n.base ++ "@" ++ p ++ "." ++ n.type
  | _, _ => Name.canonical entry

theorem dependency?_of_parse? {a : AliasSet} {entry : String} {n : Name}
    (h : Name.parse? entry = some n) :
    dependency? (parameter? a) entry = some (entryUnit a.id? entry n) := by
  simp only [dependency?, h, Option.map_some, Option.some.injEq, parameter?, entryUnit]
  cases a.id?.bind Name.parameterOf? with
  | none => simp
  | some p => cases ht : n.isTemplate <;> simp [Name.instantiate?, ht]

/-- The parameter that is filled in is well-formed, and so is every unit that is added. -/
theorem entryUnit_eq_text (id? : Option String) {entry : String} {n : Name}
    (h : Name.parse? entry = some n) :
    ∃ m : Name, m.WellFormed ∧ entryUnit id? entry n = m.text := by
  have hn := (Name.parse?_spec h).2.1
  unfold entryUnit
  split
  · rename_i p ht hp
    obtain ⟨id, -, hid⟩ := Option.bind_eq_some_iff.1 hp
    exact ⟨{ n with param := some p }, hn.withParam (Name.parameterOf?_spec hid).2, rfl⟩
  · exact ⟨n, hn, Name.canonical_eq_text h⟩

theorem mem_entries {fs : FileSystem} {dir : Path} {names : List String} {entry : String}
    (h : fs.list dir = .ok names) : entry ∈ entries fs dir ↔ entry ∈ names := by
  simp [entries, h, Except.toOption]

theorem mem_dependencies {fs : FileSystem} {param : Option String} {dir : Path} {unit : String} :
    unit ∈ dependencies fs param dir ↔
      ∃ entry ∈ entries fs dir, dependency? param entry = some unit := by
  simp only [dependencies, List.mem_filterMap, List.mem_mergeSort]

theorem pairwise_mergeSort (names : List String) :
    (names.mergeSort (· ≤ ·)).Pairwise (· ≤ ·) := by
  have htrans : ∀ a b c : String, decide (a ≤ b) = true → decide (b ≤ c) = true →
      decide (a ≤ c) = true := fun a b c hab hbc =>
    decide_eq_true (String.le_trans (of_decide_eq_true hab) (of_decide_eq_true hbc))
  have htotal : ∀ a b : String, (decide (a ≤ b) || decide (b ≤ a)) = true := fun a b => by
    simpa using String.le_total a b
  exact (List.pairwise_mergeSort htrans htotal names).imp of_decide_eq_true

/-- A sorted list is known from its members and how often they occur. -/
theorem mergeSort_eq_of_perm {as bs : List String} (h : as.Perm bs) :
    as.mergeSort (· ≤ ·) = bs.mergeSort (· ≤ ·) := by
  refine List.Perm.eq_of_pairwise ?_ (pairwise_mergeSort as) (pairwise_mergeSort bs) ?_
  · exact fun a b _ _ hab hba => String.le_antisymm hab hba
  · exact (as.mergeSort_perm _).trans (h.trans (bs.mergeSort_perm _).symm)

theorem dependencies_congr {a b : FileSystem} {dir : Path}
    (h : (entries a dir).Perm (entries b dir)) (param : Option String) :
    dependencies a param dir = dependencies b param dir := by
  rw [dependencies, mergeSort_eq_of_perm h, dependencies]

theorem mem_added {fs : FileSystem} {table : SuffixTable} {stems : List String}
    {param : Option String} {rel : Relation} {unit : String} :
    (rel, unit) ∈ added fs table stems param ↔
      ∃ suffix stem, (suffix, rel) ∈ table ∧ stem ∈ stems ∧
        unit ∈ dependencies fs param (directory stem suffix) := by
  simp only [added, dependencyDirs, List.mem_flatMap, List.mem_map, Prod.mk.injEq]
  constructor
  · intro h
    obtain ⟨-, ⟨⟨suffix, s⟩, hrow, stem, hstem, rfl⟩, v, hv, rfl, rfl⟩ := h
    exact ⟨suffix, stem, hrow, hstem, hv⟩
  · intro h
    obtain ⟨suffix, stem, hrow, hstem, hunit⟩ := h
    exact ⟨(rel, directory stem suffix), ⟨(suffix, rel), hrow, stem, hstem, rfl⟩, unit, hunit,
      rfl, rfl⟩

theorem mem_stems {lookup : Lookup} {a : AliasSet} {subpath dir : String}
    (hs : subpath ∈ subpaths a) (hd : dir ∈ lookup.dirs) :
    dir ++ "/" ++ subpath ∈ stems lookup a :=
  List.mem_flatMap.2 ⟨subpath, hs, List.mem_map.2 ⟨dir, hd, rfl⟩⟩

theorem apply_eq_ok_iff {fs : FileSystem} {lookup : Lookup} {table : SuffixTable} {a : AliasSet}
    {c d : Config} :
    apply fs lookup table a c = (d, .ok ()) ↔
      ∃ m, applyOverlays fs (selectedOverlays fs lookup a) c = (m, .ok ()) ∧
        (added fs table (stems lookup a) (parameter? a)).foldl
          (fun c new => c.append Config.unitSection new.1.key new.2) m = d := by
  unfold apply
  split
  · rename_i m e he
    simp [he]
  · rename_i m he
    simp [he]

/-- What is added is there in the end, whatever the unit files say. -/
theorem mem_values?_of_mem_added {fs : FileSystem} {lookup : Lookup} {table : SuffixTable}
    {a : AliasSet} {c d : Config} {rel : Relation} {unit : String}
    (h : apply fs lookup table a c = (d, .ok ()))
    (hu : (rel, unit) ∈ added fs table (stems lookup a) (parameter? a)) :
    unit ∈ (d.values? Config.unitSection rel.key).getD [] := by
  obtain ⟨m, -, rfl⟩ := apply_eq_ok_iff.1 h
  have happended := Config.appended_foldl Config.unitSection m
    ((added fs table (stems lookup a) (parameter? a)).map fun new => (new.1.key, new.2))
  rw [List.foldl_map] at happended
  rw [happended.getD_values?, List.mem_append, Config.mem_valuesOf]
  exact .inr (List.mem_map.2 ⟨(rel, unit), hu, rfl⟩)

end Dropin
end ServiceUnits
