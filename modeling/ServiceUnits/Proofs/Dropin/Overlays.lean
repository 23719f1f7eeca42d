import ServiceUnits.Dropin
import ServiceUnits.Proofs.Config.Malformed

namespace ServiceUnits

namespace Dropin

/-- The file of an overlay in one directory, if the directory lists it. -/
def overlayIn? (fs : FileSystem) (name : String) (dir : Path) : Option Path :=
  if isOverlayName name = true ∧ name ∈ entries fs dir then some (dir.join name) else none

theorem lookup_map_pair {α : Type} (f : String → α) (names : List String) (name : String) :
    (names.map fun n => (n, f n)).lookup name = if name ∈ names then some (f name) else none := by
  induction names with
  | nil => rfl
  | cons n names ih =>
    rw [List.map_cons, Dict.lookup_cons, ih]
    by_cases h : name = n
    · simp [h]
    · simp [h]

theorem find?_overlays (fs : FileSystem) (dirs : List Path) (name : String) :
    (overlays fs dirs).find? name = dirs.findSome? (overlayIn? fs name) := by
  rw [overlays, Dict.find?_foldl_insertNew, Dict.find?_empty, Option.none_or]
  induction dirs with
  | nil => rfl
  | cons dir dirs ih =>
    rw [List.flatMap_cons, List.lookup_append, ih, lookup_map_pair, List.findSome?_cons, overlayIn?]
    simp only [List.mem_filter, and_comm]
    split <;> rfl

/-- Directories with the same names in them give the same overlays. -/
theorem overlays_congr {a b : FileSystem}
    (h : ∀ dir name, name ∈ entries a dir ↔ name ∈ entries b dir) (dirs : List Path) :
    overlays a dirs = overlays b dirs := by
  have hin : ∀ name, overlayIn? a name = overlayIn? b name := fun name => by
    funext dir
    simp only [overlayIn?, h]
  exact Dict.ext_find? fun name => by rw [find?_overlays, find?_overlays, hin]

theorem applyOverlays_congr {a b : FileSystem} (h : ∀ p, a.read p = b.read p) (paths : List Path)
    (c : Config) : applyOverlays a paths c = applyOverlays b paths c := by
  induction paths generalizing c with
  | nil => rfl
  | cons p paths ih => simp only [applyOverlays, h, ih]

/-- The directory can be listed, and the entry is in it. -/
def Listed (fs : FileSystem) (dir : Path) (entry : String) : Prop :=
  ∃ names, fs.list dir = .ok names ∧ entry ∈ names

theorem mem_entries_iff {fs : FileSystem} {dir : Path} {entry : String} :
    entry ∈ entries fs dir ↔ Listed fs dir entry := by
  unfold entries Listed
  cases fs.list dir <;> simp [Except.toOption]

/-- The directories of a unit's overlays, the one that counts most first. -/
def overlayDirs (lookup : Lookup) (a : AliasSet) : List Path :=
  (stems lookup a).map (directory · overlaySuffix)

/-- The overlay of a name: the file in the first directory that has an entry of this name. -/
def Selected (fs : FileSystem) (dirs : List Path) (name : String) (p : Path) : Prop :=
  isOverlayName name = true ∧ ∃ before dir after, dirs = before ++ dir :: after ∧
    Listed fs dir name ∧ (∀ d ∈ before, ¬ Listed fs d name) ∧ p = dir.join name

theorem find?_overlays_eq_some_iff {fs : FileSystem} {dirs : List Path} {name : String} {p : Path} :
    (overlays fs dirs).find? name = some p ↔ Selected fs dirs name p := by
  rw [find?_overlays, List.findSome?_eq_some_iff, Selected]
  constructor
  · intro h
    obtain ⟨before, dir, after, hdirs, hdir, hbefore⟩ := h
    obtain ⟨⟨hname, hin⟩, hp⟩ := Option.ite_none_right_eq_some.1 hdir
    refine ⟨hname, before, dir, after, hdirs, mem_entries_iff.1 hin, ?_, (Option.some.inj hp).symm⟩
    intro d hd hlisted
    have hnone := hbefore d hd
    simp [overlayIn?, hname, mem_entries_iff.2 hlisted] at hnone
  · intro h
    obtain ⟨hname, before, dir, after, hdirs, hin, hbefore, rfl⟩ := h
    refine ⟨before, dir, after, hdirs, if_pos ⟨hname, mem_entries_iff.2 hin⟩, ?_⟩
    intro d hd
    exact if_neg fun h => hbefore d hd (mem_entries_iff.1 h.2)

/-- The overlay can be read, and its text is rejected. -/
def IsRejected (fs : FileSystem) (p : Path) (line : String) : Prop :=
  ∃ bytes, fs.read p = .ok bytes ∧ Config.RejectedFor (Text.decodeLossy bytes) line

/-- The line that the overlays of some directories are rejected for: that of the first overlay, by
its name, which can be read and is rejected. -/
def FirstRejected (fs : FileSystem) (dirs : List Path) (line : String) : Prop :=
  ∃ name p, Selected fs dirs name p ∧ IsRejected fs p line ∧
    ∀ other < name, ∀ q, Selected fs dirs other q → ∀ l, ¬ IsRejected fs q l

/-- Why an overlay ends the reading, if it does. -/
def refusal? (fs : FileSystem) (p : Path) : Option Error :=
  match fs.read p with
  | .error _ => none
  | .ok bytes =>
    match (Config.empty.overlay (Text.decodeLossy bytes)).2 with
    | .ok () => none
    | .error e => some e

theorem refusal?_eq_some_iff {fs : FileSystem} {p : Path} {e : Error} :
    refusal? fs p = some e ↔ ∃ line, IsRejected fs p line ∧ e = .badLine line := by
  unfold refusal? IsRejected
  cases fs.read p with
  | error e => simp
  | ok bytes =>
    have h := @Config.overlay_eq_error_iff Config.empty (Text.decodeLossy bytes) e
    cases hr : (Config.empty.overlay (Text.decodeLossy bytes)).2 with
    | error e' => simpa [hr] using h
    | ok _ => simpa [hr] using h

theorem refusal?_eq_none_iff {fs : FileSystem} {p : Path} :
    refusal? fs p = none ↔ ∀ line, ¬ IsRejected fs p line := by
  rw [Option.eq_none_iff_forall_ne_some]
  constructor
  · intro h line hl
    exact h _ (refusal?_eq_some_iff.2 ⟨line, hl, rfl⟩)
  · intro h e he
    obtain ⟨line, hl, -⟩ := refusal?_eq_some_iff.1 he
    exact h line hl

/-- Overlays are read up to the first one that is refused. Those that cannot be read are passed
over. -/
theorem applyOverlays_eq_error_iff {fs : FileSystem} {paths : List Path} {c : Config} {e : Error} :
    (applyOverlays fs paths c).2 = .error e ↔ paths.findSome? (refusal? fs) = some e := by
  induction paths generalizing c with
  | nil => simp [applyOverlays]
  | cons p paths ih =>
    rw [List.findSome?_cons, applyOverlays, refusal?]
    cases fs.read p with
    | error e => exact ih
    | ok bytes =>
      -- Whether a text is rejected does not depend on what the overlays before it have set.
      have hsame := Config.overlay_result_congr Config.empty c (Text.decodeLossy bytes)
      dsimp only
      rw [hsame]
      generalize c.overlay (Text.decodeLossy bytes) = overlaid
      obtain ⟨d, _ | _⟩ := overlaid
      · simp
      · exact ih

theorem applyOverlays_eq_ok_iff {fs : FileSystem} {paths : List Path} {c : Config} :
    (applyOverlays fs paths c).2 = .ok () ↔ ∀ p ∈ paths, refusal? fs p = none := by
  rw [← List.findSome?_eq_none_iff]
  cases hr : (applyOverlays fs paths c).2 with
  | error e => simp [applyOverlays_eq_error_iff.1 hr]
  | ok _ =>
    cases hs : paths.findSome? (refusal? fs) with
    | none => simp
    | some e => cases hr.symm.trans (applyOverlays_eq_error_iff.2 hs)

/-- The overlays of a unit end the reading with the first one, by name, that is rejected. -/
theorem applyOverlays_selected_eq_error_iff {fs : FileSystem} {lookup : Lookup} {a : AliasSet}
    {c : Config} {e : Error} :
    (applyOverlays fs (selectedOverlays fs lookup a) c).2 = .error e ↔
      ∃ line, FirstRejected fs (overlayDirs lookup a) line ∧ e = .badLine line := by
  have hpaths : selectedOverlays fs lookup a =
      (overlays fs (overlayDirs lookup a)).entries.map (·.2) := rfl
  rw [applyOverlays_eq_error_iff, hpaths, List.findSome?_map]
  refine Dict.findSome?_entries.trans ?_
  simp only [find?_overlays_eq_some_iff, refusal?_eq_some_iff, refusal?_eq_none_iff]
  constructor
  · intro h
    obtain ⟨name, p, hs, ⟨line, hr, rfl⟩, hleast⟩ := h
    exact ⟨line, ⟨name, p, hs, hr, hleast⟩, rfl⟩
  · intro h
    obtain ⟨line, ⟨name, p, hs, hr, hleast⟩, rfl⟩ := h
    exact ⟨name, p, hs, ⟨line, hr, rfl⟩, hleast⟩

theorem applyOverlays_selected_eq_ok_iff {fs : FileSystem} {lookup : Lookup} {a : AliasSet}
    {c : Config} :
    (applyOverlays fs (selectedOverlays fs lookup a) c).2 = .ok () ↔
      ∀ name p, Selected fs (overlayDirs lookup a) name p → ∀ line, ¬ IsRejected fs p line := by
  have hmem : ∀ p, p ∈ selectedOverlays fs lookup a ↔
      ∃ name, Selected fs (overlayDirs lookup a) name p := by
    intro p
    rw [selectedOverlays, List.mem_map]
    constructor
    · intro h
      obtain ⟨entry, hentry, rfl⟩ := h
      exact ⟨entry.1, find?_overlays_eq_some_iff.1 (Dict.mem_entries_iff.1 hentry)⟩
    · intro h
      obtain ⟨name, hname⟩ := h
      exact ⟨(name, p), Dict.mem_entries_iff.2 (find?_overlays_eq_some_iff.2 hname), rfl⟩
  rw [applyOverlays_eq_ok_iff]
  constructor
  · intro h name p hs
    exact refusal?_eq_none_iff.1 (h p ((hmem p).2 ⟨name, hs⟩))
  · intro h p hp
    obtain ⟨name, hs⟩ := (hmem p).1 hp
    exact refusal?_eq_none_iff.2 (h name p hs)

/-- Dependency directories never end the reading. -/
theorem apply_snd (fs : FileSystem) (lookup : Lookup) (table : SuffixTable) (a : AliasSet)
    (c : Config) : (apply fs lookup table a c).2 =
      (applyOverlays fs (selectedOverlays fs lookup a) c).2 := by
  unfold apply
  generalize applyOverlays fs (selectedOverlays fs lookup a) c = applied
  obtain ⟨m, _ | _⟩ := applied <;> rfl

end Dropin
end ServiceUnits
