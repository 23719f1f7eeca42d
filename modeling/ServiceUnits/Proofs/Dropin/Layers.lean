import Mathlib.Data.List.Basic
import ServiceUnits.FileSystem.NodeTable
import ServiceUnits.Proofs.Dropin.Dependencies
import ServiceUnits.Proofs.Dropin.Overlays

namespace ServiceUnits

open Text

namespace Config

/-- A text is rejected for a line, and `sound` is the text before this line. -/
def RejectedAfter (text sound line : String) : Prop :=
  ∃ pre raw post, lines text = pre ++ raw :: post ∧ MalformedAt pre raw ∧ WellFormed pre ∧
    sound = ofLines pre ∧ line = .ofList (trim raw)

theorem wellFormed_or_rejectedAfter (text : String) :
    WellFormed (lines text) ∨ ∃ sound line, RejectedAfter text sound line := by
  by_cases hw : WellFormed (lines text)
  · exact .inl hw
  · obtain ⟨pre, raw, post, e, hm, hpre⟩ := exists_first_malformedAt hw
    exact .inr ⟨_, _, pre, raw, post, e, hm, hpre, rfl, rfl⟩

/-- Of some texts that are not all well-formed one is the first. -/
theorem forall_wellFormed_or_split (texts : List String) :
    (∀ text ∈ texts, WellFormed (lines text)) ∨
      ∃ before bad after sound line, texts = before ++ bad :: after ∧
        (∀ text ∈ before, WellFormed (lines text)) ∧ RejectedAfter bad sound line := by
  induction texts with
  | nil => exact .inl fun text ht => absurd ht List.not_mem_nil
  | cons text texts ih =>
    rcases wellFormed_or_rejectedAfter text with hw | ⟨sound, line, hr⟩
    · rcases ih with h | ⟨before, bad, after, sound, line, rfl, hbefore, hbad⟩
      · exact .inl (List.forall_mem_cons.2 ⟨hw, h⟩)
      · exact .inr ⟨text :: before, bad, after, sound, line, rfl,
          List.forall_mem_cons.2 ⟨hw, hbefore⟩, hbad⟩
    · exact .inr ⟨[], text, texts, sound, line, rfl, fun t ht => absurd ht List.not_mem_nil, hr⟩

/-- One text on top of the other, each as far as it is well-formed. -/
def layered (c : Config) (texts : List String) : Config :=
  texts.foldl (fun c text => (c.overlay text).1) c

theorem overlay_of_wellFormed (c : Config) {text : String} (h : WellFormed (lines text)) :
    c.overlay text = (layered c [text], .ok ()) :=
  Prod.ext rfl ((run_eq_ok_iff c).2 h)

theorem overlay_of_rejectedAfter (c : Config) {text sound line : String}
    (h : RejectedAfter text sound line) :
    c.overlay text = (layered c [sound], .error (.badLine line)) := by
  obtain ⟨pre, raw, post, e, hm, hpre, rfl, rfl⟩ := h
  obtain ⟨r, hr, hp, hrun⟩ := run_of_malformedAt c hpre hm
  have hends : ∀ l ∈ pre, ∀ x ∈ l, isLineEnd x = false := fun l hl =>
    not_isLineEnd_of_mem_lines (e ▸ List.mem_append_left _ hl)
  have hsound : layered c [ofLines pre] = r.config := by
    rw [layered, List.foldl_cons, List.foldl_nil, overlay_ofLines c hends, hr.run_eq, Reader.commit,
      hp]
  rw [overlay_eq_run, e, hrun, hsound]

/-- Texts read on top of a config up to the first that is malformed. -/
def overlayAll (c : Config) : List String → Config × Except Error Unit
  | [] => (c, .ok ())
  | text :: texts =>
    match c.overlay text with
    | (c, .ok ()) => c.overlayAll texts
    | (c, .error e) => (c, .error e)

theorem overlayAll_append (c : Config) {before : List String}
    (h : ∀ text ∈ before, WellFormed (lines text)) (after : List String) :
    c.overlayAll (before ++ after) = (layered c before).overlayAll after := by
  induction before generalizing c with
  | nil => rfl
  | cons text before ih =>
    have htext := overlay_of_wellFormed c (h text List.mem_cons_self)
    rw [List.cons_append, overlayAll, htext]
    exact ih _ fun t ht => h t (List.mem_cons_of_mem text ht)

theorem overlayAll_of_wellFormed (c : Config) {texts : List String}
    (h : ∀ text ∈ texts, WellFormed (lines text)) :
    c.overlayAll texts = (layered c texts, .ok ()) := by
  have happend := overlayAll_append c h []
  rwa [List.append_nil] at happend

theorem overlayAll_of_rejectedAfter (c : Config) {before : List String} {bad sound line : String}
    (h : ∀ text ∈ before, WellFormed (lines text)) (hbad : RejectedAfter bad sound line)
    (after : List String) : c.overlayAll (before ++ bad :: after) =
      (layered c (before ++ [sound]), .error (.badLine line)) := by
  rw [overlayAll_append c h, overlayAll, overlay_of_rejectedAfter _ hbad, layered, layered, layered,
    List.foldl_append]

end Config

namespace Dropin

open Config

/-- The texts of the files that can be read. -/
def texts (fs : FileSystem) (paths : List Path) : List String :=
  paths.filterMap fun p => (fs.read p).toOption.map decodeLossy

theorem applyOverlays_eq (fs : FileSystem) (paths : List Path) (c : Config) :
    applyOverlays fs paths c = c.overlayAll (texts fs paths) := by
  induction paths generalizing c with
  | nil => rfl
  | cons p paths ih =>
    rw [applyOverlays, texts, List.filterMap_cons]
    cases fs.read p with
    | error e => exact ih c
    | ok bytes =>
      change _ = overlayAll c (decodeLossy bytes :: texts fs paths)
      rw [overlayAll]
      dsimp only
      generalize c.overlay (decodeLossy bytes) = overlaid
      obtain ⟨d, _ | _⟩ := overlaid
      · rfl
      · exact ih d

/-- The overlays of a unit by their names, each with its file. -/
def chosen (fs : FileSystem) (lookup : Lookup) (a : AliasSet) : List (String × Path) :=
  (overlays fs (overlayDirs lookup a)).entries

/-- The texts of the overlays of a unit, in the order of their names. -/
def overlayTexts (fs : FileSystem) (lookup : Lookup) (a : AliasSet) : List String :=
  texts fs ((chosen fs lookup a).map (·.2))

/-- What the dependency directories add to a config. -/
def withDependencies (fs : FileSystem) (lookup : Lookup) (table : SuffixTable) (a : AliasSet)
    (c : Config) : Config :=
  (added fs table (stems lookup a) (parameter? a)).foldl
    (fun c entry => c.append unitSection entry.1.key entry.2) c

variable {fs : FileSystem} {lookup : Lookup} {table : SuffixTable} {a : AliasSet} {c : Config}

theorem apply_eq (fs : FileSystem) (lookup : Lookup) (table : SuffixTable) (a : AliasSet)
    (c : Config) : apply fs lookup table a c =
      match c.overlayAll (overlayTexts fs lookup a) with
      | (d, .error e) => (d, .error e)
      | (d, .ok ()) => (withDependencies fs lookup table a d, .ok ()) := by
  rw [apply, applyOverlays_eq]
  rfl

/-- The ways in which the drop-ins of a unit are applied to its config: all of them, or the overlays
up to a malformed line and nothing after it. -/
inductive Applied (fs : FileSystem) (lookup : Lookup) (table : SuffixTable) (a : AliasSet)
    (c : Config) : Config × Except Error Unit → Prop
  | complete (h : ∀ text ∈ overlayTexts fs lookup a, WellFormed (lines text)) :
      Applied fs lookup table a c
        (withDependencies fs lookup table a (layered c (overlayTexts fs lookup a)), .ok ())
  | cut {before after : List String} {bad sound line : String}
      (hsplit : overlayTexts fs lookup a = before ++ bad :: after)
      (hbefore : ∀ text ∈ before, WellFormed (lines text)) (hbad : RejectedAfter bad sound line) :
      Applied fs lookup table a c (layered c (before ++ [sound]), .error (.badLine line))

theorem Applied.apply_eq {x : Config × Except Error Unit} (h : Applied fs lookup table a c x) :
    apply fs lookup table a c = x := by
  rw [Dropin.apply_eq]
  cases h with
  | complete h => rw [overlayAll_of_wellFormed c h]
  | cut hsplit hbefore hbad => rw [hsplit, overlayAll_of_rejectedAfter c hbefore hbad]

theorem exists_applied (fs : FileSystem) (lookup : Lookup) (table : SuffixTable) (a : AliasSet)
    (c : Config) : ∃ x, Applied fs lookup table a c x := by
  rcases forall_wellFormed_or_split (overlayTexts fs lookup a) with
    h | ⟨before, bad, after, sound, line, hsplit, hbefore, hbad⟩
  · exact ⟨_, .complete h⟩
  · exact ⟨_, .cut hsplit hbefore hbad⟩

theorem apply_eq_iff {x : Config × Except Error Unit} :
    apply fs lookup table a c = x ↔ Applied fs lookup table a c x := by
  constructor
  · intro h
    obtain ⟨y, hy⟩ := exists_applied fs lookup table a c
    rwa [← h, hy.apply_eq]
  · exact Applied.apply_eq

theorem mem_chosen {name : String} {p : Path} :
    (name, p) ∈ chosen fs lookup a ↔ Selected fs (overlayDirs lookup a) name p :=
  Dict.mem_entries_iff.trans find?_overlays_eq_some_iff

/-- The file of an overlay stands in the directory of a stem, under its name. -/
theorem Selected.exists_stem {name : String} {p : Path}
    (h : Selected fs (overlayDirs lookup a) name p) (hname : name.toList.head? ≠ some '/') :
    ∃ stem ∈ stems lookup a, p = ⟨stem ++ ".d/" ++ name⟩ := by
  obtain ⟨-, before, dir, after, hdirs, -, -, rfl⟩ := h
  have hdir : dir ∈ overlayDirs lookup a := by simp [hdirs]
  obtain ⟨stem, hstem, rfl⟩ := List.mem_map.1 hdir
  refine ⟨stem, hstem, ?_⟩
  have hlast : (directory stem overlaySuffix).text.toList.getLast? = some 'd' := by
    simp [directory, overlaySuffix]
  rw [Path.join, if_neg hname, hlast, if_neg (by decide)]
  simp [directory, overlaySuffix, String.append_assoc]

/-- A file system with the same directories, and with the same content of the overlays that a unit
has. Any other file may be there or not. -/
structure SameChosen (fs other : FileSystem) (lookup : Lookup) (a : AliasSet) : Prop where
  list : ∀ dir, other.list dir = fs.list dir
  read : ∀ name p, Selected fs (overlayDirs lookup a) name p → other.read p = fs.read p

namespace SameChosen

variable {other : FileSystem}

theorem entries_eq (h : SameChosen fs other lookup a) (dir : Path) :
    entries other dir = entries fs dir := by
  rw [entries, h.list, entries]

theorem overlayTexts_eq (h : SameChosen fs other lookup a) :
    overlayTexts other lookup a = overlayTexts fs lookup a := by
  have hchosen : chosen other lookup a = chosen fs lookup a := by
    have hentries : ∀ dir name, name ∈ entries other dir ↔ name ∈ entries fs dir :=
      fun dir name => by rw [h.entries_eq]
    rw [chosen, overlays_congr hentries, chosen]
  rw [overlayTexts, hchosen]
  refine List.filterMap_congr fun p hp => ?_
  obtain ⟨⟨name, p⟩, hmem, rfl⟩ := List.mem_map.1 hp
  rw [h.read name p (mem_chosen.1 hmem)]

theorem apply_eq (h : SameChosen fs other lookup a) :
    apply other lookup table a c = apply fs lookup table a c := by
  have hadded : ∀ param, added other table (stems lookup a) param =
      added fs table (stems lookup a) param := by
    intro param
    simp only [added, dependencies, h.entries_eq]
  simp only [Dropin.apply_eq, h.overlayTexts_eq, withDependencies, hadded]

end SameChosen

/-- The overlays of a unit have distinct names in ascending order, and the file of each name is in
the first directory that lists it; the directories go by the alias first and then by the lookup
directory. The texts of the files that can be read are put on the config in this order, then the
dependencies; a malformed line ends it all, and what stands before it stays. Other files have no
influence. -/
theorem apply_layers_chosen (fs : FileSystem) (lookup : Lookup) (table : SuffixTable)
    (a : AliasSet) (c : Config) :
    overlayDirs lookup a =
      ((subpaths a).flatMap fun s => lookup.dirs.map fun dir => ⟨dir ++ "/" ++ s ++ ".d"⟩) ∧
    (chosen fs lookup a).Pairwise (·.1 < ·.1) ∧
    (∀ name p, (name, p) ∈ chosen fs lookup a ↔ Selected fs (overlayDirs lookup a) name p) ∧
    (∀ name p, (name, p) ∈ chosen fs lookup a → name.toList.head? ≠ some '/' →
      ∃ stem ∈ stems lookup a, p = ⟨stem ++ ".d/" ++ name⟩) ∧
    (∀ x, apply fs lookup table a c = x ↔ Applied fs lookup table a c x) ∧
    ∀ other, SameChosen fs other lookup a →
      apply other lookup table a c = apply fs lookup table a c := by
  refine ⟨?_, (overlays fs (overlayDirs lookup a)).sorted, fun _ _ => mem_chosen, ?_,
    fun _ => apply_eq_iff, fun _ h => h.apply_eq⟩
  · simp only [overlayDirs, stems, Lookup.beneath, List.map_flatMap, List.map_map,
      Function.comp_def, directory, overlaySuffix, String.append_assoc]
    rfl
  · intro name p h hname
    exact (mem_chosen.1 h).exists_stem hname

/-- Overlays of a unit in two directories. Of `1.conf` the first may not be read, and the second is
masked by it; `3.conf` has a malformed line. -/
def twoLayers (masked : Node) : FileSystem := NodeTable.fileSystem
  { nodes := [(Path.components ⟨"/a/x.service.d/1.conf"⟩, .unreadable),
      (Path.components ⟨"/a/x.service.d/3.conf"⟩, .file "[Unit]\nWants=z\noops\nWants=".toUTF8),
      (Path.components ⟨"/b/x.service.d/2.conf"⟩, .file "[Unit]\nWants=\nWants=y".toUTF8),
      (Path.components ⟨"/b/x.service.d/4.conf"⟩, .file "[Unit]\nWants=late".toUTF8),
      (Path.components ⟨"/b/x.service.d/1.conf"⟩, masked)]
    listings := [(Path.components ⟨"/a/x.service.d"⟩, .names ["notes", "3.conf", "1.conf"]),
      (Path.components ⟨"/b/x.service.d"⟩, .names ["4.conf", "1.conf", "2.conf"]),
      (Path.components ⟨"/a/x.service.wants"⟩, .names ["w.service"])] }

def layeredUnit : AliasSet := ⟨["x.service"], ⟨⟨"/b/x.service"⟩, []⟩⟩

theorem chosen_twoLayers (masked : Node) :
    chosen (twoLayers masked) ⟨["/a", "/b"]⟩ layeredUnit =
      [("1.conf", ⟨"/a/x.service.d/1.conf"⟩), ("2.conf", ⟨"/b/x.service.d/2.conf"⟩),
        ("3.conf", ⟨"/a/x.service.d/3.conf"⟩), ("4.conf", ⟨"/b/x.service.d/4.conf"⟩)] := by
  have h : chosen (twoLayers .unreadable) ⟨["/a", "/b"]⟩ layeredUnit =
      [("1.conf", ⟨"/a/x.service.d/1.conf"⟩), ("2.conf", ⟨"/b/x.service.d/2.conf"⟩),
        ("3.conf", ⟨"/a/x.service.d/3.conf"⟩), ("4.conf", ⟨"/b/x.service.d/4.conf"⟩)] := by
    decide +kernel
  exact h

/-- What the masked file holds does not count. -/
theorem sameChosen_twoLayers (masked : Node) :
    SameChosen (twoLayers .unreadable) (twoLayers masked) ⟨["/a", "/b"]⟩ layeredUnit where
  list _ := rfl
  read name p h := by
    have hmem := mem_chosen.2 h
    rw [chosen_twoLayers] at hmem
    simp only [List.mem_cons, Prod.mk.injEq, List.not_mem_nil, or_false] at hmem
    rcases hmem with ⟨-, rfl⟩ | ⟨-, rfl⟩ | ⟨-, rfl⟩ | ⟨-, rfl⟩
    all_goals rfl

/-- The third overlay ends it all. What it has before its malformed line stays, and neither the one
after it nor the dependency is added. -/
theorem twoLayers_cut : ∃ d,
    Applied (twoLayers .unreadable) ⟨["/a", "/b"]⟩ .standard layeredUnit .empty
      (d, .error (.badLine "oops")) ∧
    d.values? unitSection "Wants" = some ["y", "z"] ∧
    (∃ stem ∈ stems ⟨["/a", "/b"]⟩ layeredUnit,
      (⟨"/a/x.service.d/3.conf"⟩ : Path) = ⟨stem ++ ".d/" ++ "3.conf"⟩) ∧
    SameChosen (twoLayers .unreadable) (twoLayers (.file "broken".toUTF8)) ⟨["/a", "/b"]⟩
      layeredUnit ∧
    apply (twoLayers (.file "broken".toUTF8)) ⟨["/a", "/b"]⟩ .standard layeredUnit .empty =
      (d, .error (.badLine "oops")) := by
  obtain ⟨-, -, -, hstem, hways, hmasked⟩ :=
    apply_layers_chosen (twoLayers .unreadable) ⟨["/a", "/b"]⟩ .standard layeredUnit .empty
  have happly : ∃ d, apply (twoLayers .unreadable) ⟨["/a", "/b"]⟩ .standard layeredUnit .empty =
      (d, .error (.badLine "oops")) ∧ d.values? unitSection "Wants" = some ["y", "z"] :=
    ⟨_, Prod.ext rfl (by decide +kernel), by decide +kernel⟩
  obtain ⟨d, hd, hvalues⟩ := happly
  have hsame := sameChosen_twoLayers (.file "broken".toUTF8)
  refine ⟨d, (hways _).1 hd, hvalues, ?_, hsame, (hmasked _ hsame).trans hd⟩
  refine hstem "3.conf" _ ?_ (by decide)
  rw [chosen_twoLayers]
  decide

end Dropin
end ServiceUnits
