import ServiceUnits.FileSystem.NodeTable
import ServiceUnits.Proofs.Config.Appending
import ServiceUnits.Proofs.Dropin.Dependencies
import ServiceUnits.Proofs.Sequence

namespace ServiceUnits

namespace Dropin

open Config

/-- The entry is a unit name, and this is the unit that it stands for. -/
def StandsFor (id? : Option String) (entry unit : String) : Prop :=
  ∃ n, Name.parse? entry = some n ∧ unit = entryUnit id? entry n

/-- The units of a dependency directory: none if it cannot be listed, else those of its entries,
from the least entry to the greatest. -/
inductive UnitsIn (fs : FileSystem) (id? : Option String) (dir : Path) : List String → Prop
  | unlisted {e : Error} (h : fs.list dir = .error e) : UnitsIn fs id? dir []
  | listed {names entries units : List String} (h : fs.list dir = .ok names)
      (hp : entries.Perm names) (hs : entries.Pairwise (· ≤ ·))
      (hu : GivenBy (StandsFor id?) entries units) : UnitsIn fs id? dir units

/-- The dependency directories of a relation: by the rows of the table, then by the names that
drop-ins stand under, then by the lookup directories. -/
def directoriesOf (lookup : Lookup) (table : SuffixTable) (a : AliasSet) (rel : Relation) :
    List Path :=
  (table.filter (·.2 = rel)).flatMap fun row => (subpaths a).flatMap fun s =>
    lookup.dirs.map fun dir => ⟨dir ++ "/" ++ s ++ "." ++ row.1⟩

/-- The units that a relation gets, from one of its directories after the other. -/
def UnitsOf (fs : FileSystem) (lookup : Lookup) (table : SuffixTable) (a : AliasSet)
    (rel : Relation) (units : List String) : Prop :=
  ∃ parts, List.Forall₂ (UnitsIn fs a.id?) (directoriesOf lookup table a rel) parts ∧
    units = parts.flatten

/-- The config `d` is `m` with the units of each relation behind the values of its key. Other keys
and sections are the same; the section of the relations is there if it was or if it got a unit. -/
structure Extended (fs : FileSystem) (lookup : Lookup) (table : SuffixTable) (a : AliasSet)
    (m d : Config) : Prop where
  otherSections : ∀ s, s ≠ unitSection → d.sections.find? s = m.sections.find? s
  opened : unitSection ∈ d.sectionNames ↔
    unitSection ∈ m.sectionNames ∨ ∃ rel units, UnitsOf fs lookup table a rel units ∧ units ≠ []
  otherKeys : ∀ key, (∀ row ∈ table, key ≠ row.2.key) →
    d.values? unitSection key = m.values? unitSection key
  relations : ∀ rel, ∃ units, UnitsOf fs lookup table a rel units ∧
    d.values? unitSection rel.key =
      if units = [] then m.values? unitSection rel.key
      else some ((m.values? unitSection rel.key).getD [] ++ units)

variable {fs : FileSystem} {lookup : Lookup} {table : SuffixTable} {a : AliasSet} {c m d : Config}

theorem standsFor_iff {entry unit : String} :
    StandsFor a.id? entry unit ↔ dependency? (parameter? a) entry = some unit := by
  constructor
  · rintro ⟨n, hn, rfl⟩
    exact dependency?_of_parse? hn
  · intro h
    obtain ⟨n, hn, -⟩ := Option.map_eq_some_iff.1 h
    rw [dependency?_of_parse? hn] at h
    exact ⟨n, hn, (Option.some.inj h).symm⟩

/-- Sorting leaves the elements in ascending order, and in no other. -/
theorem perm_and_pairwise_iff {xs names : List String} :
    xs.Perm names ∧ xs.Pairwise (· ≤ ·) ↔ xs = names.mergeSort (· ≤ ·) := by
  constructor
  · rintro ⟨hp, hs⟩
    rw [← mergeSort_eq_of_perm hp]
    exact (List.mergeSort_of_pairwise (by simpa using hs)).symm
  · rintro rfl
    exact ⟨names.mergeSort_perm _, pairwise_mergeSort names⟩

theorem unitsIn_iff {dir : Path} {units : List String} :
    UnitsIn fs a.id? dir units ↔ units = dependencies fs (parameter? a) dir := by
  have hgiven : ∀ entries : List String, GivenBy (StandsFor a.id?) entries units ↔
      units = entries.filterMap (dependency? (parameter? a)) :=
    fun _ => givenBy_iff (f := dependency? (parameter? a)) fun _ _ _ => standsFor_iff
  rw [dependencies, entries]
  constructor
  · intro h
    cases h with
    | unlisted h => simp [h, Except.toOption]
    | @listed names sorted units h hp hs hu =>
      rw [perm_and_pairwise_iff.1 ⟨hp, hs⟩] at hu
      rw [h, (hgiven _).1 hu]
      rfl
  · intro h
    cases hl : fs.list dir with
    | error e =>
      obtain rfl : units = [] := by simpa [hl, Except.toOption] using h
      exact .unlisted hl
    | ok names =>
      rw [hl] at h
      obtain ⟨hp, hs⟩ := perm_and_pairwise_iff.2 (Eq.refl (names.mergeSort (· ≤ ·)))
      exact .listed hl hp hs ((hgiven _).2 h)

theorem unitsOf_iff {rel : Relation} {units : List String} :
    UnitsOf fs lookup table a rel units ↔
      units = (directoriesOf lookup table a rel).flatMap (dependencies fs (parameter? a)) := by
  have hparts : ∀ parts, List.Forall₂ (UnitsIn fs a.id?) (directoriesOf lookup table a rel) parts ↔
      parts = (directoriesOf lookup table a rel).map (dependencies fs (parameter? a)) :=
    fun _ => forall₂_iff_eq_map (f := dependencies fs (parameter? a)) fun _ _ => unitsIn_iff
  simp only [UnitsOf, hparts, exists_eq_left, List.flatMap_def]

theorem added_cons (fs : FileSystem) (row : String × Relation) (table : SuffixTable)
    (stems : List String) (param : Option String) :
    added fs (row :: table) stems param =
      (stems.flatMap fun stem =>
        (dependencies fs param (directory stem row.1)).map fun unit => (row.2, unit)) ++
        added fs table stems param := by
  simp [added, dependencyDirs, List.flatMap_map]

/-- The directories of one row, beneath every stem. -/
theorem directoriesOf_cons (lookup : Lookup) (row : String × Relation) (table : SuffixTable)
    (a : AliasSet) (rel : Relation) :
    directoriesOf lookup (row :: table) a rel =
      (if row.2 = rel then (stems lookup a).map (directory · row.1) else []) ++
        directoriesOf lookup table a rel := by
  have hrow : ((subpaths a).flatMap fun s =>
      lookup.dirs.map fun dir => (⟨dir ++ "/" ++ s ++ "." ++ row.1⟩ : Path)) =
        (stems lookup a).map (directory · row.1) := by
    simp only [stems, Lookup.beneath, List.map_flatMap, List.map_map, Function.comp_def, directory]
  rw [directoriesOf, List.filter_cons]
  by_cases h : row.2 = rel
  · simp only [h, decide_true, if_true, List.flatMap_cons, hrow]
    rfl
  · simp only [h, decide_false, Bool.false_eq_true, if_false, List.nil_append]
    rfl

theorem valuesOf_added (fs : FileSystem) (lookup : Lookup) (table : SuffixTable) (a : AliasSet)
    (param : Option String) (rel : Relation) :
    valuesOf ((added fs table (stems lookup a) param).map fun new => (new.1.key, new.2)) rel.key =
      (directoriesOf lookup table a rel).flatMap (dependencies fs param) := by
  induction table with
  | nil => rfl
  | cons row table ih =>
    have hrow : ((stems lookup a).flatMap fun stem =>
        (dependencies fs param (directory stem row.1)).map fun unit => (row.2, unit)).map
          (fun new => (new.1.key, new.2)) =
        ((stems lookup a).flatMap fun stem => dependencies fs param (directory stem row.1)).map
          (row.2.key, ·) := by
      simp only [List.map_flatMap, List.map_map, Function.comp_def]
    rw [added_cons, List.map_append, valuesOf_append, ih, hrow, valuesOf_same, directoriesOf_cons,
      List.flatMap_append]
    congr 1
    by_cases h : row.2 = rel
    · rw [if_pos (congrArg Relation.key h.symm), if_pos h, List.flatMap_map]
    · rw [if_neg fun e => h (Relation.key_injective e).symm, if_neg h, List.flatMap_nil]

/-- Appending what the dependency directories add extends a config by it. -/
theorem extended_added (fs : FileSystem) (lookup : Lookup) (table : SuffixTable) (a : AliasSet)
    (m : Config) : Extended fs lookup table a m
      ((added fs table (stems lookup a) (parameter? a)).foldl
        (fun c new => c.append unitSection new.1.key new.2) m) := by
  generalize hnews : added fs table (stems lookup a) (parameter? a) = news
  have hall := appended_foldl unitSection m (news.map fun new => (new.1.key, new.2))
  rw [List.foldl_map] at hall
  have hvalues : ∀ rel : Relation, UnitsOf fs lookup table a rel
      (valuesOf (news.map fun new => (new.1.key, new.2)) rel.key) := by
    intro rel
    rw [unitsOf_iff, ← hnews, valuesOf_added]
  refine ⟨hall.otherSections, hall.opened.trans (or_congr_right ?_), ?_, ?_⟩
  · constructor
    · intro hne
      obtain ⟨⟨key, unit⟩, hnew⟩ := List.exists_mem_of_ne_nil _ hne
      obtain ⟨⟨rel, _⟩, -, e⟩ := List.mem_map.1 hnew
      obtain ⟨rfl, rfl⟩ := Prod.mk.inj e
      exact ⟨rel, _, hvalues rel, List.ne_nil_of_mem (mem_valuesOf.2 hnew)⟩
    · rintro ⟨rel, units, hunits, hne⟩ hnil
      rw [unitsOf_iff, ← unitsOf_iff.1 (hvalues rel), hnil] at hunits
      exact hne hunits
  · intro key hkey
    refine hall.otherKeys key (List.eq_nil_iff_forall_not_mem.2 fun unit hunit => ?_)
    obtain ⟨⟨rel, _⟩, hnew, e⟩ := List.mem_map.1 (mem_valuesOf.1 hunit)
    obtain ⟨suffix, -, hrow, -⟩ := mem_added.1 (hnews ▸ hnew)
    exact hkey _ hrow (Prod.mk.inj e).1.symm
  · intro rel
    refine ⟨_, hvalues rel, ?_⟩
    split
    · rename_i hnil
      exact hall.otherKeys rel.key hnil
    · rename_i hne
      exact hall.keys rel.key hne

/-- A config can be extended in one way only. -/
theorem Extended.unique {e : Config} (hd : Extended fs lookup table a m d)
    (he : Extended fs lookup table a m e) : d = e := by
  refine ext_values? (fun s => ?_) (fun s key => ?_)
  · by_cases hs : s = unitSection
    · rw [hs, hd.opened, he.opened]
    · rw [sectionNames, sectionNames, Dict.mem_keys_iff, Dict.mem_keys_iff, hd.otherSections s hs,
        he.otherSections s hs]
  · by_cases hs : s = unitSection
    · subst hs
      by_cases hkey : ∃ row ∈ table, key = row.2.key
      · obtain ⟨row, -, rfl⟩ := hkey
        obtain ⟨units, hunits, hvalues⟩ := hd.relations row.2
        obtain ⟨units', hunits', hvalues'⟩ := he.relations row.2
        rw [hvalues, hvalues', unitsOf_iff.1 hunits, unitsOf_iff.1 hunits']
      · have hkey : ∀ row ∈ table, key ≠ row.2.key := fun row hrow e => hkey ⟨row, hrow, e⟩
        rw [hd.otherKeys key hkey, he.otherKeys key hkey]
    · rw [values?, values?, hd.otherSections s hs, he.otherSections s hs]

/-- The drop-ins of a unit succeed exactly if its overlays do. Then they leave the config of the
overlays with the units of each relation behind the values of its key: the rows of the table with
this relation one after the other, for each row the names that drop-ins stand under, for each name
the lookup directories, and in each directory that can be listed the entries in ascending order, one
unit for each that is a unit name. No other key and no other section is touched. -/
theorem apply_eq_ok_iff_extended (fs : FileSystem) (lookup : Lookup) (table : SuffixTable)
    (a : AliasSet) (c d : Config) :
    apply fs lookup table a c = (d, .ok ()) ↔
      ∃ m, applyOverlays fs (selectedOverlays fs lookup a) c = (m, .ok ()) ∧
        Extended fs lookup table a m d := by
  rw [apply_eq_ok_iff]
  refine exists_congr fun m => and_congr_right fun _ => ?_
  have hm := extended_added fs lookup table a m
  exact ⟨fun h => h ▸ hm, fun h => hm.unique h⟩

/-- An instance with two suffixes for one relation. The directory of its template may not be listed,
its own has an entry that is no unit name, and both suffixes have the same entry. -/
def sharing : FileSystem := NodeTable.fileSystem
  { nodes := [(Path.components ⟨"/a/x@1.service.d/1.conf"⟩,
      .file "[Unit]\nWants=w\nAfter=w".toUTF8)]
    listings := [(Path.components ⟨"/a/x@1.service.d"⟩, .names ["1.conf"]),
      (Path.components ⟨"/a/x@1.service.wants"⟩, .names ["z@", "not a unit", "b"]),
      (Path.components ⟨"/a/x@.service.wants"⟩, .denied),
      (Path.components ⟨"/a/x@1.service.also"⟩, .names ["b"])] }

def sharingUnit : AliasSet := ⟨["x@1.service"], ⟨⟨"/a/x@1.service"⟩, []⟩⟩

def sharingTable : SuffixTable := [("wants", .wants), ("before", .before), ("also", .wants)]

theorem unitsOf_sharing : UnitsOf sharing ⟨["/a"]⟩ sharingTable sharingUnit .wants
    ["b.service", "z@1.service", "b.service"] := by
  have hb : StandsFor sharingUnit.id? "b" "b.service" :=
    ⟨⟨"b", none, "service", false⟩, by decide +kernel, by decide +kernel⟩
  have hz : StandsFor sharingUnit.id? "z@" "z@1.service" :=
    ⟨⟨"z", some "", "service", false⟩, by decide +kernel, by decide +kernel⟩
  have hno : ∀ unit, ¬ StandsFor sharingUnit.id? "not a unit" unit := by
    rintro unit ⟨n, hn, -⟩
    have hnone : Name.parse? "not a unit" = none := by decide +kernel
    cases hnone.symm.trans hn
  have hdirs : directoriesOf ⟨["/a"]⟩ sharingTable sharingUnit .wants =
      [⟨"/a/x@1.service.wants"⟩, ⟨"/a/x@.service.wants"⟩, ⟨"/a/x@1.service.also"⟩,
        ⟨"/a/x@.service.also"⟩] := by decide +kernel
  have hsorted : ["b", "not a unit", "z@"].Perm ["z@", "not a unit", "b"] := by decide
  have hwants : UnitsIn sharing sharingUnit.id? ⟨"/a/x@1.service.wants"⟩
      ["b.service", "z@1.service"] :=
    .listed rfl hsorted (by decide) (.gives hb (.passed hno (.gives hz .nil)))
  have halso : UnitsIn sharing sharingUnit.id? ⟨"/a/x@1.service.also"⟩ ["b.service"] :=
    .listed rfl (.refl _) (by decide) (.gives hb .nil)
  refine ⟨[["b.service", "z@1.service"], [], ["b.service"], []], ?_, rfl⟩
  rw [hdirs]
  exact .cons hwants (.cons (.unlisted rfl) (.cons halso (.cons (.unlisted rfl) .nil)))

/-- The value that the overlay gives comes first, and the other key of the overlay stays. -/
theorem sharing_extended : ∃ m d,
    applyOverlays sharing (selectedOverlays sharing ⟨["/a"]⟩ sharingUnit) .empty = (m, .ok ()) ∧
    Extended sharing ⟨["/a"]⟩ sharingTable sharingUnit m d ∧
    d.values? unitSection "Wants" = some ["w", "b.service", "z@1.service", "b.service"] ∧
    d.values? unitSection "After" = some ["w"] := by
  have hok : (apply sharing ⟨["/a"]⟩ sharingTable sharingUnit .empty).2 = .ok () := by
    decide +kernel
  obtain ⟨m, hm, hextended⟩ := (apply_eq_ok_iff_extended _ _ _ _ _ _).1 (Prod.ext rfl hok)
  have hwants : (applyOverlays sharing (selectedOverlays sharing ⟨["/a"]⟩ sharingUnit)
      .empty).1.values? unitSection "Wants" = some ["w"] := by decide +kernel
  have hafter : (applyOverlays sharing (selectedOverlays sharing ⟨["/a"]⟩ sharingUnit)
      .empty).1.values? unitSection "After" = some ["w"] := by decide +kernel
  rw [hm] at hwants hafter
  obtain ⟨units, hunits, hvalues⟩ := hextended.relations .wants
  obtain rfl := (unitsOf_iff.1 hunits).trans (unitsOf_iff.1 unitsOf_sharing).symm
  refine ⟨m, _, hm, hextended, ?_, ?_⟩
  · exact hvalues.trans (by rw [Relation.key, hwants]; rfl)
  · rw [hextended.otherKeys "After" (by decide +kernel), hafter]

end Dropin
end ServiceUnits
