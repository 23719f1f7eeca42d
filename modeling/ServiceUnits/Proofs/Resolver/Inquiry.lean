import ServiceUnits.Proofs.FileSystem.Inquiry
import ServiceUnits.Proofs.Resolver.Stages

namespace ServiceUnits

namespace Inquiry

def firstChain? (name : String) : List String → Inquiry (Option Chain)
  | [] => return none
  | dir :: dirs => do
    match ← chain (Path.join ⟨dir⟩ name) with
    | .ok (p :: ps) => return some ⟨p, ps⟩
    | _ => firstChain? name dirs

/-- The alias set of a chain, unless it is masked. -/
def accept (name : String) (aliasesOf : Chain → AliasSet) (c : Chain) : Except Error AliasSet :=
  if c.isMasked then .error (.masked name) else .ok (aliasesOf c)

def locateTemplate (lookup : Lookup) (name base param : String) :
    Inquiry (Except Error AliasSet) := do
  match ← firstChain? base lookup.dirs with
  | none => return .error (.noUnitOrTemplate name base)
  | some c => return accept base (.ofTemplate name param) c

def locate (lookup : Lookup) (text : String) : Inquiry (Except Error AliasSet) := do
  let name := Name.canonical text
  match ← firstChain? name lookup.dirs with
  | some c => return accept name .ofChain c
  | none =>
    match Name.templateOf? name, Name.parameterOf? name with
    | some base, some param => locateTemplate lookup name base param
    | _, _ => return .error (.noUnit name)

def entries (dir : Path) : Inquiry (List String) := do
  return (← list dir).toOption.getD []

def overlays (dirs : List Path) : Inquiry (Dict Path) := do
  let found ← flatMap (fun dir => do
    return ((← entries dir).filter Dropin.isOverlayName).map fun name => (name, dir.join name)) dirs
  return found.foldl (fun found entry => found.insertNew entry.1 entry.2) .empty

def applyOverlays : List Path → Config → Inquiry (Config × Except Error Unit)
  | [], c => return (c, .ok ())
  | p :: ps, c => do
    match ← read p with
    | .error _ => applyOverlays ps c
    | .ok bytes =>
      match c.overlay (Text.decodeLossy bytes) with
      | (c, .ok ()) => applyOverlays ps c
      | (c, .error e) => return (c, .error e)

def dependencies (param : Option String) (dir : Path) : Inquiry (List String) := do
  return ((← entries dir).mergeSort (· ≤ ·)).filterMap (Dropin.dependency? param)

def added (table : SuffixTable) (stems : List String) (param : Option String) :
    Inquiry (List (Relation × String)) :=
  flatMap (fun row => do return (← dependencies param row.2).map fun unit => (row.1, unit))
    (Dropin.dependencyDirs table stems)

def dropins (lookup : Lookup) (table : SuffixTable) (a : AliasSet) (c : Config) :
    Inquiry (Config × Except Error Unit) := do
  let stems := Dropin.stems lookup a
  let selected ← overlays (stems.map (Dropin.directory · Dropin.overlaySuffix))
  match ← applyOverlays (selected.entries.map (·.2)) c with
  | (c, .error e) => return (c, .error e)
  | (c, .ok ()) =>
    let news ← added table stems (Dropin.parameter? a)
    return (news.foldl (fun c new => c.append Config.unitSection new.1.key new.2) c, .ok ())

/-- The unit of an alias set: its fragment, and the drop-ins on top. -/
def readUnit (lookup : Lookup) (table : SuffixTable) (a : AliasSet) :
    Inquiry (Except Error ResolvedUnit) := do
  match ← read a.fragment with
  | .error e => return .error e
  | .ok bytes =>
    match Config.read (Text.decodeLossy bytes) with
    | .error e => return .error e
    | .ok fragment =>
      match ← dropins lookup table a fragment with
      | (_, .error e) => return .error e
      | (config, .ok ()) => return .ok ⟨a, config, .ofConfig config⟩

def resolve (lookup : Lookup) (table : SuffixTable) (text : String) :
    Inquiry (Except Error ResolvedUnit) := do
  let name := Name.canonical text
  match Resolver.checkName name with
  | .error e => return .error e
  | .ok () =>
    match ← locate lookup name with
    | .error e => return .error e
    | .ok a => readUnit lookup table a

variable {fs : FileSystem} {lookup : Lookup} {table : SuffixTable}

@[simp] theorem result_firstChain? (name : String) (dirs : List String) :
    (firstChain? name dirs).result fs = dirs.findSome? (chainIn? fs name) := by
  induction dirs with
  | nil => rfl
  | cons dir dirs ih =>
    rw [List.findSome?_cons, firstChain?, result_bind, result_chain, chainIn?]
    cases fs.chain (Path.join ⟨dir⟩ name) with
    | error e => exact ih
    | ok c =>
      cases c with
      | nil => exact ih
      | cons p ps => rfl

@[simp] theorem result_locateTemplate (name base param : String) :
    (locateTemplate lookup name base param).result fs =
      ServiceUnits.locateTemplate fs lookup name base param := by
  rw [locateTemplate, result_bind, result_firstChain?, ServiceUnits.locateTemplate,
    ServiceUnits.firstChain?]
  cases lookup.dirs.findSome? (chainIn? fs base) <;> rfl

@[simp] theorem result_locate (text : String) :
    (locate lookup text).result fs = ServiceUnits.locate fs lookup text := by
  rw [locate, result_bind, result_firstChain?, ServiceUnits.locate, ServiceUnits.firstChain?]
  cases lookup.dirs.findSome? (chainIn? fs (Name.canonical text)) with
  | some c => rfl
  | none =>
    cases Name.templateOf? (Name.canonical text) with
    | none => rfl
    | some base =>
      cases Name.parameterOf? (Name.canonical text) with
      | none => rfl
      | some param => exact result_locateTemplate _ base param

@[simp] theorem result_entries (dir : Path) :
    (entries dir).result fs = Dropin.entries fs dir := rfl

@[simp] theorem result_overlays (dirs : List Path) :
    (overlays dirs).result fs = Dropin.overlays fs dirs := by
  simp [overlays, Dropin.overlays]

@[simp] theorem result_applyOverlays (paths : List Path) (c : Config) :
    (applyOverlays paths c).result fs = Dropin.applyOverlays fs paths c := by
  induction paths generalizing c with
  | nil => rfl
  | cons p paths ih =>
    rw [applyOverlays, result_bind, result_read, Dropin.applyOverlays]
    cases fs.read p with
    | error e => exact ih c
    | ok bytes =>
      dsimp only
      generalize c.overlay (Text.decodeLossy bytes) = overlaid
      obtain ⟨c, _ | _⟩ := overlaid
      · rfl
      · exact ih c

@[simp] theorem result_added (stems : List String) (param : Option String) :
    (added table stems param).result fs = Dropin.added fs table stems param := by
  simp [added, dependencies, Dropin.added, Dropin.dependencies]

@[simp] theorem result_dropins (a : AliasSet) (c : Config) :
    (dropins lookup table a c).result fs = Dropin.apply fs lookup table a c := by
  simp only [dropins, result_bind, result_overlays, result_applyOverlays, Dropin.apply,
    Dropin.selectedOverlays]
  generalize Dropin.applyOverlays fs _ c = applied
  obtain ⟨m, _ | _⟩ := applied
  · rfl
  · simp

@[simp] theorem result_readUnit (a : AliasSet) :
    (readUnit lookup table a).result fs = (do
      let bytes ← fs.read a.fragment
      let fragment ← Config.read (Text.decodeLossy bytes)
      let (config, result) := Dropin.apply fs lookup table a fragment
      result
      return ⟨a, config, .ofConfig config⟩) := by
  have ok_bind : ∀ {α β : Type} (x : α) (f : α → Except Error β), Except.ok x >>= f = f x :=
    fun _ _ => rfl
  rw [readUnit, result_bind, result_read]
  cases fs.read a.fragment with
  | error e => rfl
  | ok bytes =>
    rw [ok_bind]
    dsimp only
    cases Config.read (Text.decodeLossy bytes) with
    | error e => rfl
    | ok fragment =>
      rw [ok_bind]
      dsimp only
      rw [result_bind, result_dropins]
      generalize Dropin.apply fs lookup table a fragment = applied
      obtain ⟨config, _ | _⟩ := applied <;> rfl

/-- The inquiry finds what the resolver finds. -/
theorem result_resolve (fs : FileSystem) (lookup : Lookup) (table : SuffixTable) (text : String) :
    (resolve lookup table text).result fs = (⟨fs, lookup, table⟩ : Resolver).resolve text := by
  rw [resolve, Resolver.resolve]
  cases Resolver.checkName (Name.canonical text) with
  | error e => rfl
  | ok _ =>
    rw [result_bind, result_locate]
    cases ServiceUnits.locate fs lookup (Name.canonical text) with
    | error e => rfl
    | ok a => exact result_readUnit a

/-! What is asked: chains while a unit is located, then files, and directories of drop-ins. -/

/-- The directories are asked in their order, up to the first that has the name. -/
theorem questions_firstChain? (name : String) (dirs : List String) :
    (firstChain? name dirs).questions fs =
      (dirs.take (dirs.findIdx (fun dir => (chainIn? fs name dir).isSome) + 1)).map
        fun dir => .chain (Path.join ⟨dir⟩ name) := by
  induction dirs with
  | nil => rfl
  | cons dir dirs ih =>
    rw [firstChain?, questions_bind, questions_chain, result_chain, List.singleton_append,
      List.take_succ_cons, List.map_cons, List.findIdx_cons, chainIn?]
    congr 1
    cases fs.chain (Path.join ⟨dir⟩ name) with
    | error e => exact ih
    | ok c =>
      cases c with
      | nil => exact ih
      | cons p ps => rfl

theorem exists_chain_of_mem_firstChain? {name : String} {dirs : List String} {q : Question}
    (h : q ∈ (firstChain? name dirs).questions fs) : ∃ p, q = .chain p := by
  rw [questions_firstChain?] at h
  obtain ⟨dir, -, rfl⟩ := List.mem_map.1 h
  exact ⟨_, rfl⟩

theorem exists_chain_of_mem_locateTemplate {name base param : String} {q : Question}
    (h : q ∈ (locateTemplate lookup name base param).questions fs) : ∃ p, q = .chain p := by
  rw [locateTemplate, questions_bind, List.mem_append] at h
  rcases h with h | h
  · exact exists_chain_of_mem_firstChain? h
  · split at h <;> simp at h

theorem exists_chain_of_mem_locate {text : String} {q : Question}
    (h : q ∈ (locate lookup text).questions fs) : ∃ p, q = .chain p := by
  simp only [locate, questions_bind, List.mem_append] at h
  rcases h with h | h
  · exact exists_chain_of_mem_firstChain? h
  · split at h
    · simp at h
    · split at h
      · exact exists_chain_of_mem_locateTemplate h
      · simp at h

@[simp] theorem questions_entries (dir : Path) : (entries dir).questions fs = [.list dir] := rfl

@[simp] theorem questions_overlays (dirs : List Path) :
    (overlays dirs).questions fs = dirs.map .list := by
  simp [overlays, List.map_eq_flatMap]

theorem exists_read_of_mem_applyOverlays {paths : List Path} {c : Config} {q : Question}
    (h : q ∈ (applyOverlays paths c).questions fs) : ∃ p, q = .read p := by
  induction paths generalizing c with
  | nil => simp [applyOverlays] at h
  | cons p paths ih =>
    simp only [applyOverlays, questions_bind, questions_read, List.singleton_append,
      List.mem_cons] at h
    rcases h with rfl | h
    · exact ⟨p, rfl⟩
    · split at h
      · exact ih h
      · split at h
        · exact ih h
        · simp at h

@[simp] theorem questions_added (stems : List String) (param : Option String) :
    (added table stems param).questions fs =
      (Dropin.dependencyDirs table stems).map fun row => .list row.2 := by
  simp [added, dependencies, List.map_eq_flatMap]

theorem mem_directories_of_mem_dropins {a : AliasSet} {c : Config} {p : Path}
    (h : .list p ∈ (dropins lookup table a c).questions fs) :
    p ∈ Dropin.directories lookup table a := by
  simp only [dropins, questions_bind, questions_overlays, List.mem_append] at h
  rw [Dropin.directories, List.mem_append]
  rcases h with h | h | h
  · obtain ⟨dir, hdir, e⟩ := List.mem_map.1 h
    exact .inl (Question.list.inj e ▸ hdir)
  · obtain ⟨_, e⟩ := exists_read_of_mem_applyOverlays h
    cases e
  · split at h
    · simp at h
    · rw [questions_bind, questions_added, questions_pure, List.append_nil] at h
      obtain ⟨row, hrow, e⟩ := List.mem_map.1 h
      exact .inr (List.mem_map.2 ⟨row, hrow, Question.list.inj e⟩)

theorem mem_directories_of_mem_readUnit {a : AliasSet} {p : Path}
    (h : .list p ∈ (readUnit lookup table a).questions fs) :
    p ∈ Dropin.directories lookup table a := by
  rw [readUnit, questions_bind, questions_read, List.singleton_append, List.mem_cons] at h
  rcases h with e | h
  · cases e
  · split at h
    · simp at h
    · split at h
      · simp at h
      · rw [questions_bind, List.mem_append] at h
        rcases h with h | h
        · exact mem_directories_of_mem_dropins h
        · split at h <;> simp at h

/-- Only for a unit that is located are directories listed, and only those of its drop-ins. -/
theorem mem_directories_of_mem_resolve {text : String} {p : Path}
    (h : .list p ∈ (resolve lookup table text).questions fs) :
    Resolver.checkName (Name.canonical text) = .ok () ∧
      ∃ a, ServiceUnits.locate fs lookup (Name.canonical text) = .ok a ∧
        p ∈ Dropin.directories lookup table a := by
  unfold resolve at h
  dsimp only at h
  split at h
  · simp at h
  · rename_i hname
    rw [questions_bind, result_locate, List.mem_append] at h
    rcases h with h | h
    · obtain ⟨_, e⟩ := exists_chain_of_mem_locate h
      cases e
    · split at h
      · simp at h
      · rename_i a ha
        exact ⟨hname, a, ha, mem_directories_of_mem_readUnit h⟩

/-- A name that may not be resolved is refused without a question. -/
theorem questions_resolve_of_checkName {text : String} {e : Error}
    (h : Resolver.checkName (Name.canonical text) = .error e) :
    (resolve lookup table text).questions fs = [] := by
  simp [resolve, h]

end Inquiry
end ServiceUnits
