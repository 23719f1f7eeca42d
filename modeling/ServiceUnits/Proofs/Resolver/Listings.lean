import ServiceUnits.FileSystem.NodeTable
import ServiceUnits.Proofs.Resolver.Aliases
import ServiceUnits.Proofs.Resolver.Inquiry
import ServiceUnits.Settings

namespace ServiceUnits

open Text

/-- A text that names one step of a path, and a step down. -/
structure IsStep (s : String) : Prop where
  ne_empty : s ≠ ""
  no_slash : '/' ∉ s.toList
  ne_dot : s ≠ "."
  ne_dots : s ≠ ".."

namespace Name

theorem no_slash_canonical {text : String} (h : '/' ∉ text.toList) :
    '/' ∉ (canonical text).toList := by
  unfold canonical
  split
  · exact h
  · simpa [defaultType] using h

theorem canonical_ne_empty (text : String) : canonical text ≠ "" := by
  intro h
  have hdot := canonical_canonical text
  rw [h] at hdot
  exact absurd hdot (by decide)

/-- The parts of a name hold only what its text holds, apart from a type that is not spelled out. -/
theorem no_slash_parts {text : String} {n : Name} (h : parse? text = some n)
    (hs : '/' ∉ text.toList) :
    '/' ∉ n.base.toList ∧ (∀ p, n.param = some p → '/' ∉ p.toList) ∧ '/' ∉ n.type.toList := by
  obtain ⟨-, hw, htext⟩ := parse?_spec h
  rw [htext] at hs
  simp only [spelled, List.mem_append, not_or] at hs
  obtain ⟨⟨hbase, hparam⟩, htype⟩ := hs
  refine ⟨hbase, ?_, ?_⟩
  · intro p hp
    rw [hp] at hparam
    simpa using hparam
  · cases he : n.explicit with
    | true => simpa [he] using htype
    | false =>
      rw [hw.type_of_not_explicit he]
      decide

theorem no_slash_text {n : Name} (hbase : '/' ∉ n.base.toList)
    (hparam : ∀ p, n.param = some p → '/' ∉ p.toList) (htype : '/' ∉ n.type.toList) :
    '/' ∉ n.text.toList := by
  rw [toList_text]
  cases hp : n.param with
  | none => simp [spelled, hbase, htype]
  | some p => simp [spelled, hbase, htype, hparam p hp]

theorem no_slash_instantiate? {text param unit : String} {n : Name} (h : parse? text = some n)
    (hs : '/' ∉ text.toList) (hp : '/' ∉ param.toList) (hu : n.instantiate? param = some unit) :
    '/' ∉ unit.toList := by
  obtain ⟨hbase, -, htype⟩ := no_slash_parts h hs
  obtain ⟨-, rfl⟩ := instantiate?_eq_some_iff.1 hu
  refine no_slash_text hbase ?_ htype
  intro p e
  exact Option.some.inj e ▸ hp

theorem templateOf?_ne_empty {text template : String} (h : templateOf? text = some template) :
    template ≠ "" := by
  obtain ⟨n, -, ht⟩ := Option.bind_eq_some_iff.1 h
  rw [templateName?, Option.ite_none_right_eq_some] at ht
  simp [← Option.some.inj ht.2]

theorem no_slash_templateOf? {text template : String} (hs : '/' ∉ text.toList)
    (h : templateOf? text = some template) : '/' ∉ template.toList := by
  obtain ⟨n, hn, ht⟩ := Option.bind_eq_some_iff.1 h
  obtain ⟨hbase, -, htype⟩ := no_slash_parts hn hs
  rw [templateName?, Option.ite_none_right_eq_some] at ht
  simp [← Option.some.inj ht.2, hbase, htype]

theorem no_slash_parameterOf? {text param : String} (hs : '/' ∉ text.toList)
    (h : parameterOf? text = some param) : '/' ∉ param.toList := by
  obtain ⟨n, hn, hp⟩ := Option.bind_eq_some_iff.1 h
  exact (no_slash_parts hn hs).2.1 param (Option.ite_none_right_eq_some.1 hp).2

end Name

namespace Path

theorem no_slash_of_mem_parts {p : Path} {part : List Char} (h : part ∈ p.components.parts) :
    '/' ∉ part := by
  have hpiece : part ∈ pieces slash p.text.toList := by
    unfold components componentsOf at h
    split at h
    · simp at h
    · rename_i first rest e
      rw [e]
      rcases List.mem_append.1 h with h | h
      · split at h
        · simp at h
        · exact List.mem_cons.2 (.inl (List.mem_singleton.1 h))
      · exact List.mem_cons_of_mem _ (List.mem_filter.1 h).1
  intro hc
  exact absurd (not_sep_of_mem_pieces hpiece _ hc) (by decide)

theorem no_slash_fileName? {p : Path} {name : String} (h : p.fileName? = some name) :
    '/' ∉ name.toList := by
  unfold fileName? at h
  split at h
  · cases h
  · rename_i last e
    split at h
    · cases h
    · obtain rfl := Option.some.inj h
      rw [String.toList_ofList]
      exact no_slash_of_mem_parts (List.mem_of_getLast? e)

end Path

namespace AliasSet

theorem no_slash_fileNames {c : Chain} {name : String} (h : name ∈ c.fileNames) :
    '/' ∉ name.toList := by
  obtain ⟨p, -, f, hf, rfl⟩ := mem_fileNames.1 h
  exact Name.no_slash_canonical (Path.no_slash_fileName? hf)

/-- However a unit is located, its aliases are file names. -/
theorem no_slash_of_located {fs : FileSystem} {lookup : Lookup} {name other : String}
    {a : AliasSet} (h : Located fs lookup name a) (hn : '/' ∉ name.toList)
    (ho : other ∈ a.names) : '/' ∉ other.toList := by
  cases h with
  | direct => exact no_slash_fileNames (mem_names_ofChain.1 ho)
  | fromTemplate _ _ hp =>
    -- The parameter is a part of the name, so it brings no slash into a template of the chain.
    have hparam := Name.no_slash_parameterOf? hn hp
    rcases mem_names_ofTemplate.1 ho with rfl | ⟨template, ht, n, hparse, hinst⟩
    · exact hn
    · exact Name.no_slash_instantiate? hparse (no_slash_fileNames ht) hparam hinst

end AliasSet

namespace Dropin

theorem mem_subpaths {a : AliasSet} {subpath : String} : subpath ∈ subpaths a ↔
    ∃ name ∈ a.names, subpath = Name.canonical name ∨ Name.templateOf? name = some subpath := by
  simp only [subpaths, List.mem_eraseDups, List.mem_flatMap, List.mem_cons, Option.mem_toList]

theorem no_slash_subpaths {a : AliasSet} (h : ∀ name ∈ a.names, '/' ∉ name.toList)
    {subpath : String} (hs : subpath ∈ subpaths a) : subpath ≠ "" ∧ '/' ∉ subpath.toList := by
  obtain ⟨name, hname, rfl | ht⟩ := mem_subpaths.1 hs
  · exact ⟨Name.canonical_ne_empty name, Name.no_slash_canonical (h name hname)⟩
  · exact ⟨Name.templateOf?_ne_empty ht, Name.no_slash_templateOf? (h name hname) ht⟩

/-- What may stand behind the last dot of a drop-in directory. -/
def IsSuffix (suffix : String) : Prop := suffix ≠ "" ∧ '/' ∉ suffix.toList

/-- A name with a suffix has three characters at least, so it is no dot or two. -/
theorem isStep_of_isSuffix {subpath suffix : String} (hne : subpath ≠ "")
    (hs : '/' ∉ subpath.toList) (h : IsSuffix suffix) : IsStep (subpath ++ "." ++ suffix) := by
  have hpos : ∀ s : String, s ≠ "" → 0 < s.length := fun s hs =>
    Nat.pos_of_ne_zero fun h0 => hs (String.length_eq_zero_iff.1 h0)
  have hfirst := hpos subpath hne
  have hlast := hpos suffix h.1
  have hlong : 2 < (subpath ++ "." ++ suffix).length := by
    have hdot : ".".length = 1 := by decide
    rw [String.length_append, String.length_append, hdot]
    omega
  have hne_short : ∀ short : String, short.length ≤ 2 → subpath ++ "." ++ suffix ≠ short := by
    intro short hshort e
    rw [e] at hlong
    omega
  exact ⟨hne_short _ (by decide), by simp [hs, h.2], hne_short _ (by decide),
    hne_short _ (by decide)⟩

/-- One step beneath a lookup directory. -/
def Inside (lookup : Lookup) (p : Path) : Prop :=
  ∃ dir ∈ lookup.dirs, ∃ step, IsStep step ∧ p = ⟨dir ++ "/" ++ step⟩

theorem inside_directory {lookup : Lookup} {a : AliasSet} {stem suffix : String}
    (ha : ∀ name ∈ a.names, '/' ∉ name.toList) (hstem : stem ∈ stems lookup a)
    (h : IsSuffix suffix) : Inside lookup (directory stem suffix) := by
  obtain ⟨subpath, hs, hstem⟩ := List.mem_flatMap.1 hstem
  obtain ⟨dir, hdir, rfl⟩ := List.mem_map.1 hstem
  obtain ⟨hne, hslash⟩ := no_slash_subpaths ha hs
  refine ⟨dir, hdir, subpath ++ "." ++ suffix, isStep_of_isSuffix hne hslash h, ?_⟩
  simp only [directory, String.append_assoc]

theorem inside_of_mem_directories {lookup : Lookup} {table : SuffixTable} {a : AliasSet} {p : Path}
    (ha : ∀ name ∈ a.names, '/' ∉ name.toList) (ht : ∀ row ∈ table, IsSuffix row.1)
    (hp : p ∈ directories lookup table a) : Inside lookup p := by
  rcases List.mem_append.1 hp with hp | hp
  · obtain ⟨stem, hstem, rfl⟩ := List.mem_map.1 hp
    exact inside_directory ha hstem ⟨by decide, by decide⟩
  · obtain ⟨entry, hentry, rfl⟩ := List.mem_map.1 hp
    obtain ⟨row, hrow, hentry⟩ := List.mem_flatMap.1 hentry
    obtain ⟨stem, hstem, rfl⟩ := List.mem_map.1 hentry
    exact inside_directory ha hstem (ht row hrow)

end Dropin

namespace Settings

theorem isSuffix_of_row {suffix key : String} {entry : String × Relation}
    (h : row suffix key = .ok entry) : Dropin.IsSuffix entry.1 := by
  unfold row at h
  split at h
  · cases h
  · rename_i hs
    split at h
    · obtain rfl := Except.ok.inj h
      simpa [Dropin.IsSuffix] using hs
    · cases h

theorem exists_row_of_mem_mapM {es : List (String × String)} {table : SuffixTable}
    (h : es.mapM (fun e => row e.1 e.2) = .ok table) {entry : String × Relation}
    (he : entry ∈ table) : ∃ e ∈ es, row e.1 e.2 = .ok entry := by
  induction es generalizing table with
  | nil =>
    obtain rfl := Except.ok.inj h
    simp at he
  | cons e es ih =>
    rw [List.mapM_cons, Resolver.bind_eq_ok] at h
    obtain ⟨first, hfirst, h⟩ := h
    obtain ⟨rest, hrest, h⟩ := Resolver.bind_eq_ok.1 h
    obtain rfl := Except.ok.inj h
    rcases List.mem_cons.1 he with rfl | he
    · exact ⟨e, List.mem_cons_self, hfirst⟩
    · obtain ⟨e', he', hrow⟩ := ih hrest he
      exact ⟨e', List.mem_cons_of_mem _ he', hrow⟩

/-- The settings let no suffix through that leads out of a directory. -/
theorem isSuffix_of_mem_table {s : Settings} {table : SuffixTable} (h : s.table = .ok table)
    {row : String × Relation} (hr : row ∈ table) : Dropin.IsSuffix row.1 := by
  unfold Settings.table at h
  split at h
  · obtain rfl := Except.ok.inj h
    have standard : ∀ row ∈ SuffixTable.standard, row.1 ≠ "" ∧ '/' ∉ row.1.toList := by decide
    exact standard row hr
  · obtain ⟨e, -, he⟩ := exists_row_of_mem_mapM h hr
    exact isSuffix_of_row he

end Settings

namespace Resolver

/-- All directories that are listed for a unit are one step beneath a lookup directory, wherever its
links lead. What other directories hold makes no difference. -/
theorem resolve_lists_inside {s : Settings} {table : SuffixTable} (ht : s.table = .ok table)
    (fs : FileSystem) (lookup : Lookup) (text : String) :
    let inquiry := Inquiry.resolve lookup table text
    inquiry.result fs = (⟨fs, lookup, table⟩ : Resolver).resolve text ∧
    (∀ p, .list p ∈ inquiry.questions fs → Dropin.Inside lookup p) ∧
    ∀ other : FileSystem, (∀ p, other.chain p = fs.chain p) → (∀ p, other.read p = fs.read p) →
      (∀ p, Dropin.Inside lookup p → other.list p = fs.list p) →
      (⟨other, lookup, table⟩ : Resolver).resolve text =
        (⟨fs, lookup, table⟩ : Resolver).resolve text := by
  intro inquiry
  have hlist : ∀ p, .list p ∈ inquiry.questions fs → Dropin.Inside lookup p := by
    intro p hp
    obtain ⟨hname, a, ha, hp⟩ := Inquiry.mem_directories_of_mem_resolve hp
    have hslash := (checkName_eq_ok_iff.1 hname).no_slash
    rw [locate_eq_ok_iff, Name.canonical_canonical] at ha
    refine Dropin.inside_of_mem_directories ?_ (fun _ => Settings.isSuffix_of_mem_table ht) hp
    exact fun name => AliasSet.no_slash_of_located ha hslash
  refine ⟨Inquiry.result_resolve fs lookup table text, hlist, ?_⟩
  intro other hchain hread hsame
  rw [← Inquiry.result_resolve, ← Inquiry.result_resolve]
  refine Inquiry.result_congr fun q hq => ?_
  cases q with
  | chain p => exact hchain p
  | read p => exact hread p
  | list p => exact hsame p (hlist p hq)

/-- A unit that is a link through other directories. -/
def wandering : FileSystem := NodeTable.fileSystem
  { nodes := [(Path.components ⟨"/u/x.service"⟩, .link "/lib/../y.target"),
      (Path.components ⟨"/lib/../y.target"⟩, .file .empty)]
    listings := [] }

theorem wandering_lists_inside :
    let s : Settings := { Settings.standard with dropins := some (.ofList [(".", "Wants")]) }
    s.table = .ok [(".", .wants)] ∧
    (Inquiry.resolve ⟨["/u"]⟩ [(".", .wants)] "x").questions wandering =
      [.chain ⟨"/u/x.service"⟩, .read ⟨"/u/x.service"⟩, .list ⟨"/u/x.service.d"⟩,
        .list ⟨"/u/y.target.d"⟩, .list ⟨"/u/x.service.."⟩, .list ⟨"/u/y.target.."⟩] ∧
    Dropin.Inside ⟨["/u"]⟩ ⟨"/u/y.target.."⟩ := by
  intro s
  have ht : s.table = .ok [(".", .wants)] := by rfl
  have hq : (Inquiry.resolve ⟨["/u"]⟩ [(".", .wants)] "x").questions wandering =
      [.chain ⟨"/u/x.service"⟩, .read ⟨"/u/x.service"⟩, .list ⟨"/u/x.service.d"⟩,
        .list ⟨"/u/y.target.d"⟩, .list ⟨"/u/x.service.."⟩, .list ⟨"/u/y.target.."⟩] := by
    decide +kernel
  exact ⟨ht, hq, (resolve_lists_inside ht wandering ⟨["/u"]⟩ "x").2.1 _ (by simp [hq])⟩

end Resolver
end ServiceUnits
