import ServiceUnits.Proofs.AliasSet.Names
import ServiceUnits.Proofs.Resolver.Outcome

namespace ServiceUnits

open Text

namespace Resolver

variable {r : Resolver} {text name : String} {c : Chain}

/-- A unit of which a fragment is read that no name is found for. -/
structure HasNamelessFragment (r : Resolver) (name : String) (c : Chain) : Prop where
  admissible : Admissible name
  first : FirstAt r.fs r.lookup name c
  not_masked : ¬ LeadsToNull c
  nameless : ∀ p ∈ c.toList, p.fileName? = none
  fragment : ∃ bytes config, r.fs.read c.start = .ok bytes ∧
    Config.read (decodeLossy bytes) = .ok config

theorem fragmentNames_eq_ok_iff {names : List String} : r.fragmentNames text = .ok names ↔
    ∃ a bytes config, HasFragment r (Name.canonical text) a bytes ∧
      Config.read (decodeLossy bytes) = .ok config ∧ a.names = names := by
  simp only [fragmentNames, bind_eq_ok]
  constructor
  · rintro ⟨⟨⟩, hn, a, ha, bytes, hb, config, hf, h⟩
    exact ⟨a, bytes, config, ⟨checkName_eq_ok_iff.1 hn, ha, hb⟩, hf, Except.ok.inj h⟩
  · rintro ⟨a, bytes, config, ⟨hn, ha, hb⟩, hf, rfl⟩
    exact ⟨(), checkName_eq_ok_iff.2 hn, a, ha, bytes, hb, config, hf, rfl⟩

theorem names_ofChain_eq_nil_iff :
    (AliasSet.ofChain c).names = [] ↔ ∀ p ∈ c.toList, p.fileName? = none := by
  have hnames : (AliasSet.ofChain c).names = [] ↔ c.fileNames = [] := by
    rw [AliasSet.ofChain]
    cases c.fileNames with
    | nil => exact iff_of_true rfl rfl
    | cons other rest => simp [List.eraseDups_cons]
  rw [hnames, Chain.fileNames, List.map_eq_nil_iff, List.filterMap_eq_nil_iff]

/-- The program ends without a result exactly at a fragment that no name is found for. -/
theorem resolve?_eq_none_iff :
    r.resolve? text = none ↔ ∃ c, HasNamelessFragment r (Name.canonical text) c := by
  have hnone : r.resolve? text = none ↔ r.fragmentNames text = .ok [] := by
    rw [resolve?]
    cases r.fragmentNames text with
    | error e => simp
    | ok names => cases names <;> simp
  rw [hnone, fragmentNames_eq_ok_iff]
  constructor
  · rintro ⟨a, bytes, config, ⟨hn, ha, hb⟩, hf, hnames⟩
    rw [locate_eq_ok_iff, Name.canonical_canonical] at ha
    cases ha with
    | direct hc hm =>
      refine ⟨_, hn, firstChain?_eq_some_iff.1 hc, ?_, names_ofChain_eq_nil_iff.1 hnames,
        bytes, config, hb, hf⟩
      exact fun hl => Bool.eq_false_iff.1 hm (isMasked_iff.2 hl)
    | fromTemplate => simp [AliasSet.ofTemplate, List.eraseDups_cons] at hnames
  · rintro ⟨c, hn, hfirst, hm, hnameless, bytes, config, hb, hf⟩
    refine ⟨.ofChain c, bytes, config, ⟨hn, ?_, hb⟩, hf, names_ofChain_eq_nil_iff.2 hnameless⟩
    rw [locate_eq_ok_iff, Name.canonical_canonical]
    exact .direct (firstChain?_eq_some_iff.2 hfirst)
      (Bool.eq_false_iff.2 fun hl => hm (isMasked_iff.1 hl))

/-- In a table there may be a file at a path that no name is found for. -/
example : (locate (NodeTable.empty.addNode ⟨"/u/.."⟩ (.file .empty)).fileSystem ⟨["/u"]⟩
    "..").toOption.map AliasSet.names = some [] := by decide +kernel

end Resolver

namespace Tree

variable {t : Tree} {name : String} {dir : Path}

/-- A walk that ends with a dot or two, or with a slash, ends at a directory. -/
theorem isDirectory_of_arrives {n m : Nat} {here place : Location} {pre : List Bytes} {last : Bytes}
    (h : Arrives t n here (pre ++ [last]) m place) (hw : t.IsRooted here)
    (hlast : RawPath.isIdle last = true ∨ last = RawPath.up) : t.isDirectory place = true := by
  obtain ⟨k, mid, hpre, hstep⟩ := h.split
  cases hstep with
  | idle hd _ h =>
    obtain ⟨-, rfl⟩ := arrives_nil_iff.1 h
    exact hd
  | up hd h =>
    obtain ⟨-, rfl⟩ := arrives_nil_iff.1 h
    exact ((hpre.stands hw.stands).isRooted hd).dropLast.isDirectory
  | down _ hs | link _ hs =>
    rcases hlast with hi | rfl
    · exact absurd hs (not_isName_of_isIdle hi)
    · exact absurd hs not_isName_up

theorem exists_steps_eq (dir : Path) (hname : name = "." ∨ name = "..") : ∃ pre last,
    steps (utf8 (dir.join name).text) = pre ++ [last] ∧
      (RawPath.isIdle last = true ∨ last = RawPath.up) := by
  have hslash : '/' ∉ name.toList := by rcases hname with rfl | rfl <;> decide
  obtain ⟨before, hpieces⟩ := Path.pieces_join_name dir hslash
  rw [steps, utf8, RawPath.piecesOf_encode, hpieces, List.map_append, List.filter_append]
  split
  · exact ⟨_, [], rfl, .inl rfl⟩
  · rcases hname with rfl | rfl
    · exact ⟨_, [RawPath.dot], List.append_nil _, .inl rfl⟩
    · exact ⟨_, RawPath.up, List.append_nil _, .inr rfl⟩

/-- What is read is not a directory. -/
theorem not_read_of_dots (hw : t.IsRooted t.working) (hname : name = "." ∨ name = "..")
    {bytes : ByteArray} : t.fileSystem.read (dir.join name) ≠ .ok bytes := by
  intro h
  have hread : (t.read (dir.join name)).mapError Error.ofSystem = .ok bytes := h
  cases hfind : t.find (dir.join name) with
  | error e =>
    rw [read, hfind] at hread
    cases hread
  | ok found =>
    obtain ⟨place, o⟩ := found
    obtain ⟨-, m, harrives, ho⟩ := find_eq_ok_iff.1 hfind
    obtain ⟨pre, last, hsteps, hlast⟩ := exists_steps_eq dir hname
    have harrives' : Arrives t maxLinks (origin (dir.join name).raw.bytes t.working)
      (pre ++ [last]) m place := hsteps ▸ harrives
    have hd := isDirectory_of_arrives harrives' (hw.origin _) hlast
    rw [read, hfind, ← Option.some.inj ((object?_of_isDirectory hd).symm.trans ho)] at hread
    cases hread

/-- In a tree there is always a result: only the names `.` and `..` find a path without a name, and
they lead to directories, which cannot be read. -/
theorem resolve?_eq (hw : t.IsRooted t.working) (lookup : Lookup) (table : SuffixTable)
    (text : String) : (⟨t.fileSystem, lookup, table⟩ : Resolver).resolve? text =
      some ((⟨t.fileSystem, lookup, table⟩ : Resolver).resolve text) := by
  have hsome : (⟨t.fileSystem, lookup, table⟩ : Resolver).resolve? text ≠ none := by
    rw [Ne, Resolver.resolve?_eq_none_iff]
    rintro ⟨c, hn, ⟨before, dir, after, -, hchain, -⟩, -, hnameless, bytes, config, hread, -⟩
    have hstart : c.start = Path.join ⟨dir⟩ (Name.canonical text) := System.start_of_chain hchain
    have hnone := hnameless c.start List.mem_cons_self
    by_cases hname : Name.canonical text = "." ∨ Name.canonical text = ".."
    · exact not_read_of_dots hw hname (hstart ▸ hread)
    · rw [not_or] at hname
      have hstep : IsStep (Name.canonical text) :=
        ⟨Name.canonical_ne_empty text, hn.no_slash, hname.1, hname.2⟩
      rw [hstart, Path.fileName?_join ⟨dir⟩ hstep] at hnone
      cases hnone
  rw [Resolver.resolve?] at hsome ⊢
  split
  · rename_i hnil
    exact absurd rfl (hnil ▸ hsome)
  · rfl

end Tree
end ServiceUnits
