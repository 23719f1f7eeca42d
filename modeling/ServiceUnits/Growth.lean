import ServiceUnits.Trace

namespace ServiceUnits

/-- A file system that a log grows in. -/
structure Growth where
  /-- The file system when a text has been added to the log. -/
  files : String → FileSystem
  text : List Event → String

structure Encounter where
  name : String
  resolver : Resolver

namespace Growth

/-- The answers to reading some overlays. Each is read after what the log tells of those before. -/
def overlayReads (g : Growth) (log : String) :
    List Path → Config → List (Path × Except Error ByteArray)
  | [], _ => []
  | p :: ps, c =>
    let answer := (g.files log).read p
    (p, answer) ::
      match answer with
      | .error e => g.overlayReads (log ++ g.text [.unreadable p e]) ps c
      | .ok bytes =>
        match c.overlay (Text.decodeLossy bytes) with
        | (c, .ok ()) => g.overlayReads (log ++ g.text [.applying p]) ps c
        | (_, .error _) => []

/-- The answers to reading a located unit: the fragment, then the overlays. -/
def locatedReads (g : Growth) (lookup : Lookup) (log : String) (a : AliasSet) :
    List (Path × Except Error ByteArray) :=
  let fs := g.files log
  let answer := fs.read a.fragment
  (a.fragment, answer) ::
    match answer with
    | .error _ => []
    | .ok bytes =>
      match Config.read (Text.decodeLossy bytes) with
      | .error _ => []
      | .ok c =>
        g.overlayReads (log ++ g.text (Trace.overlaySearch fs lookup a))
          (Dropin.selectedOverlays fs lookup a) c

/-- The answers to all that is read for a unit, with a log as it is before. -/
def reads (g : Growth) (lookup : Lookup) (log text : String) :
    List (Path × Except Error ByteArray) :=
  let fs := g.files log
  let name := Name.canonical text
  match Resolver.checkName name, locate fs lookup name with
  | .ok (), .ok a =>
    g.locatedReads lookup
      (log ++ g.text (Trace.locate fs lookup name ++ [.loading name a.fragment])) a
  | _, _ => []

/-- The file system that a unit meets: no file is read twice for a unit, so each has one content. -/
def met (g : Growth) (lookup : Lookup) (log text : String) : FileSystem :=
  let fs := g.files log
  let answers := g.reads lookup log text
  { fs with read := fun p => (answers.lookup p).getD (fs.read p) }

/-- Some units that are loaded one after the other, each with the file system that it meets. -/
def along (g : Growth) (lookup : Lookup) (table : SuffixTable) (log : String) :
    List String → List Encounter
  | [] => []
  | name :: names =>
    let r : Resolver := ⟨g.met lookup log name, lookup, table⟩
    ⟨name, r⟩ :: g.along lookup table (log ++ g.text (Trace.load r name)) names

/-! A log that is no file of the units changes nothing: every unit meets the same file system. -/

variable {g : Growth} {fs : FileSystem}

theorem eq_read_of_mem_overlayReads (h : ∀ log, g.files log = fs) {p : Path}
    {answer : Except Error ByteArray} {log : String} {ps : List Path} {c : Config}
    (hm : (p, answer) ∈ g.overlayReads log ps c) : answer = fs.read p := by
  fun_induction overlayReads g log ps c <;> grind

theorem eq_read_of_mem_reads (h : ∀ log, g.files log = fs) {p : Path}
    {answer : Except Error ByteArray} {lookup : Lookup} {log text : String}
    (hm : (p, answer) ∈ g.reads lookup log text) : answer = fs.read p := by
  unfold reads locatedReads at hm
  grind [eq_read_of_mem_overlayReads h]

theorem met_eq (h : ∀ log, g.files log = fs) (lookup : Lookup) (log text : String) :
    g.met lookup log text = fs := by
  have hr : (fun p => ((g.reads lookup log text).lookup p).getD (fs.read p)) = fs.read := by
    funext p
    cases hl : (g.reads lookup log text).lookup p with
    | none => rfl
    | some answer =>
      obtain ⟨l, l', hs, -⟩ := List.lookup_eq_some_iff.1 hl
      exact eq_read_of_mem_reads h (hs ▸ List.mem_append_right l List.mem_cons_self)
  simp only [met, h, hr]

end Growth
end ServiceUnits
