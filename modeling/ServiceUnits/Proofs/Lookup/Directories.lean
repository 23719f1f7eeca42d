import Mathlib.Data.List.DropRight
import ServiceUnits.FileSystem.NodeTable
import ServiceUnits.Proofs.Path.Joined
import ServiceUnits.Proofs.Resolver.Inquiry
import ServiceUnits.Proofs.Sequence

namespace ServiceUnits.Lookup

/-- How a directory is written: without slashes at its end. Where nothing else is in the text, it is
written as the root. -/
inductive WrittenAs (dir : String) : String → Prop
  | root (h : ∀ c ∈ dir.toList, c = '/') : WrittenAs dir "/"
  | trimmed {written : String} (n : Nat)
      (h : dir.toList = written.toList ++ List.replicate n '/') (hne : written ≠ "")
      (hlast : written.toList.getLast? ≠ some '/') : WrittenAs dir written

section

variable {dir written : String}

theorem normalDir_eq (dir : String) :
    normalDir dir = if dir.toList.rdropWhile (· = '/') = [] then "/"
      else .ofList (dir.toList.rdropWhile (· = '/')) := by
  -- Cutting the reversed text at its start is cutting the text at its end.
  have hcut : (dir.toList.reverse.dropWhile (· = '/')).reverse =
    dir.toList.rdropWhile (· = '/') := rfl
  rw [normalDir, hcut]
  split
  · rename_i hnil
    rw [if_pos hnil]
  · rename_i hne
    rw [if_neg hne]

theorem rdropWhile_append_slashes {s : List Char} (h : s.getLast? ≠ some '/') (n : Nat) :
    (s ++ List.replicate n '/').rdropWhile (· = '/') = s := by
  induction n with
  | zero =>
    rw [List.replicate_zero, List.append_nil, List.rdropWhile_eq_self_iff]
    intro hne hlast
    exact h (by rw [List.getLast?_eq_some_getLast hne, of_decide_eq_true hlast])
  | succ n ih =>
    rw [List.replicate_succ', ← List.append_assoc, List.rdropWhile_concat_pos _ _ _ (by simp), ih]

theorem exists_append_slashes (s : List Char) :
    ∃ n, s = s.rdropWhile (· = '/') ++ List.replicate n '/' := by
  refine ⟨(s.rtakeWhile (· = '/')).length, ?_⟩
  have hall : ∀ c ∈ s.rtakeWhile (· = '/'), c = '/' := fun c hc => by
    simpa using List.mem_rtakeWhile_imp hc
  rw [← List.eq_replicate_iff.2 ⟨rfl, hall⟩, List.rdropWhile_append_rtakeWhile]

theorem writtenAs_normalDir (dir : String) : WrittenAs dir (normalDir dir) := by
  rw [normalDir_eq]
  split
  · rename_i hnil
    exact .root fun c hc => of_decide_eq_true (List.rdropWhile_eq_nil_iff.1 hnil c hc)
  · rename_i hne
    obtain ⟨n, hn⟩ := exists_append_slashes dir.toList
    refine .trimmed n (by rw [String.toList_ofList, ← hn]) (by simpa using hne) ?_
    rw [String.toList_ofList, List.getLast?_eq_some_getLast hne]
    intro hlast
    exact List.rdropWhile_last_not _ _ hne (by simpa using hlast)

theorem writtenAs_iff : WrittenAs dir written ↔ written = normalDir dir := by
  constructor
  · intro h
    rw [normalDir_eq]
    cases h with
    | root h =>
      rw [if_pos (List.rdropWhile_eq_nil_iff.2 fun c hc => decide_eq_true (h c hc))]
    | trimmed n h hne hlast =>
      rw [h, rdropWhile_append_slashes hlast, if_neg (by simpa using hne), String.ofList_toList]
  · rintro rfl
    exact writtenAs_normalDir dir

theorem WrittenAs.ne_empty (h : WrittenAs dir written) : written ≠ "" := by
  cases h with
  | root => decide
  | trimmed _ _ hne => exact hne

theorem WrittenAs.eq_root (h : WrittenAs dir written)
    (hlast : written.toList.getLast? = some '/') : written = "/" := by
  cases h with
  | root => rfl
  | trimmed _ _ _ hno => exact absurd hlast hno

/-- What is written is written as it is. -/
theorem WrittenAs.self (h : WrittenAs dir written) : WrittenAs written written := by
  cases h with
  | root => exact .root (by simp)
  | trimmed _ _ hne hlast => exact .trimmed 0 (by simp) hne hlast

theorem exists_writtenAs_of_mem {dirs : List String} (h : written ∈ (ofList dirs).dirs) :
    ∃ dir ∈ dirs, WrittenAs dir written := by
  obtain ⟨dir, hdir, rfl⟩ := List.mem_map.1 (List.mem_eraseDups.1 h)
  exact ⟨dir, hdir, writtenAs_normalDir dir⟩

end

/-- The directories are the one list that the given ones leave. -/
theorem dirs_ofList_iff {dirs found : List String} :
    found = (ofList dirs).dirs ↔
      ∃ written, List.Forall₂ WrittenAs dirs written ∧ FirstPlaces written found := by
  have hwritten : ∀ {written}, List.Forall₂ WrittenAs dirs written ↔ written = dirs.map normalDir :=
    forall₂_iff_eq_map @writtenAs_iff
  constructor
  · rintro rfl
    exact ⟨_, hwritten.2 rfl, firstPlaces_eraseDups _⟩
  · rintro ⟨_, hw, hfound⟩
    obtain rfl := hwritten.1 hw
    exact hfound.unique (firstPlaces_eraseDups _)

theorem nodup_dirs_ofList (dirs : List String) : (ofList dirs).dirs.Nodup :=
  (firstPlaces_eraseDups _).nodup

theorem ofList_dirs_ofList (dirs : List String) : ofList (ofList dirs).dirs = ofList dirs := by
  have hself : List.Forall₂ WrittenAs (ofList dirs).dirs (ofList dirs).dirs := by
    refine List.forall₂_same.2 fun dir hdir => ?_
    obtain ⟨_, -, h⟩ := exists_writtenAs_of_mem hdir
    exact h.self
  have hdirs := dirs_ofList_iff.2 ⟨_, hself, .of_nodup (nodup_dirs_ofList dirs)⟩
  exact congrArg Lookup.mk hdirs.symm

/-- A lookup has the directories given to it, in their order and each at its first place, without
slashes at their ends. Made of its own directories it stays the same. A name is asked for in one
directory after the other, up to the first that has it. Where it is asked for in a directory, if it
does not start at the root itself, is the path that stands in the same place among those of the name
beneath the directories. -/
theorem ofList_normal_and_consistent (dirs : List String) :
    (∀ found, found = (ofList dirs).dirs ↔
      ∃ written, List.Forall₂ WrittenAs dirs written ∧ FirstPlaces written found) ∧
    (ofList dirs).dirs.Nodup ∧
    (∀ dir ∈ (ofList dirs).dirs, dir.toList.getLast? = some '/' → dir = "/") ∧
    ofList (ofList dirs).dirs = ofList dirs ∧
    (∀ fs name, let inquiry := Inquiry.firstChain? name (ofList dirs).dirs
      inquiry.result fs = firstChain? fs (ofList dirs) name ∧
      inquiry.questions fs = ((ofList dirs).dirs.take
        ((ofList dirs).dirs.findIdx (fun dir => (chainIn? fs name dir).isSome) + 1)).map
          fun dir => .chain (Path.join ⟨dir⟩ name)) ∧
    ∀ name : String, name.toList.head? ≠ some '/' →
      List.Forall₂ (fun dir stem => (Path.join ⟨dir⟩ name).same ⟨stem⟩ = true)
        (ofList dirs).dirs ((ofList dirs).beneath name) := by
  refine ⟨fun _ => dirs_ofList_iff, nodup_dirs_ofList dirs, ?_, ofList_dirs_ofList dirs, ?_, ?_⟩
  · intro dir hdir hlast
    obtain ⟨_, -, h⟩ := exists_writtenAs_of_mem hdir
    exact h.eq_root hlast
  · intro fs name
    exact ⟨Inquiry.result_firstChain? name _, Inquiry.questions_firstChain? name _⟩
  · intro name hname
    refine List.forall₂_map_right_iff.2 (List.forall₂_same.2 fun dir hdir => ?_)
    obtain ⟨_, -, h⟩ := exists_writtenAs_of_mem hdir
    exact (Path.same_join_iff hname).2 h.ne_empty

/-- Directories that are given in several spellings, the root and the first one twice. -/
def untidy : List String := ["/run/units//", "//", "/etc/units", "", "/run/units"]

/-- A unit in the root. -/
def rooted : NodeTable where
  nodes := [(Path.components ⟨"/a.service"⟩, .file .empty)]
  listings := []

theorem untidy_consistent :
    (ofList untidy).dirs = ["/run/units", "/", "/etc/units"] ∧
    ofList ["/run/units", "/", "/etc/units"] = ofList untidy ∧
    (Inquiry.firstChain? "a.service" (ofList untidy).dirs).questions rooted.fileSystem =
      [.chain ⟨"/run/units/a.service"⟩, .chain ⟨"/a.service"⟩] ∧
    (ofList untidy).beneath "a.service" =
      ["/run/units/a.service", "//a.service", "/etc/units/a.service"] ∧
    Path.same ⟨"/a.service"⟩ ⟨"//a.service"⟩ = true := by
  have hdirs : (ofList untidy).dirs = ["/run/units", "/", "/etc/units"] := by decide +kernel
  have hbeneath : (ofList untidy).beneath "a.service" =
      ["/run/units/a.service", "//a.service", "/etc/units/a.service"] := by decide +kernel
  obtain ⟨-, -, -, hagain, hasked, hbelow⟩ := ofList_normal_and_consistent untidy
  have hsame := hbelow "a.service" (by decide)
  rw [hdirs] at hagain
  rw [hdirs, hbeneath] at hsame
  refine ⟨hdirs, hagain, ?_, hbeneath, ?_⟩
  · rw [(hasked _ _).2]
    decide +kernel
  · exact (List.forall₂_cons.1 (List.forall₂_cons.1 hsame).2).1

end ServiceUnits.Lookup
