import ServiceUnits.FileSystem.NodeTable
import ServiceUnits.Locate
import ServiceUnits.Proofs.Name.Parts

namespace ServiceUnits

/-- The two ways to an alias set. -/
inductive Located (fs : FileSystem) (lookup : Lookup) (name : String) : AliasSet → Prop where
  | direct {c : Chain} (hc : firstChain? fs lookup name = some c) (hm : c.isMasked = false) :
    Located fs lookup name (.ofChain c)
  | fromTemplate {base param : String} {c : Chain} (hn : firstChain? fs lookup name = none)
    (hb : Name.templateOf? name = some base) (hp : Name.parameterOf? name = some param)
    (hc : firstChain? fs lookup base = some c) (hm : c.isMasked = false) :
    Located fs lookup name (.ofTemplate name param c)

theorem locateTemplate_eq_ok_iff {fs : FileSystem} {lookup : Lookup} {name base param : String}
    {a : AliasSet} :
    locateTemplate fs lookup name base param = .ok a ↔
      ∃ c, firstChain? fs lookup base = some c ∧ c.isMasked = false ∧
        a = .ofTemplate name param c := by
  unfold locateTemplate
  cases firstChain? fs lookup base with
  | none => simp
  | some c =>
    constructor
    · intro h
      dsimp only at h
      split at h
      · cases h
      · rename_i hm
        exact ⟨c, rfl, Bool.eq_false_iff.2 hm, (Except.ok.inj h).symm⟩
    · intro h
      obtain ⟨_, ⟨⟩, hm, rfl⟩ := h
      simp [hm]

theorem locate_eq_ok_iff {fs : FileSystem} {lookup : Lookup} {text : String} {a : AliasSet} :
    locate fs lookup text = .ok a ↔ Located fs lookup (Name.canonical text) a := by
  unfold locate
  constructor
  · intro h
    dsimp only at h
    split at h
    · rename_i c hc
      split at h
      · cases h
      · rename_i hm
        obtain rfl := Except.ok.inj h
        exact .direct hc (Bool.eq_false_iff.2 hm)
    · rename_i hn
      split at h
      · rename_i base param hb hp
        obtain ⟨c, hc, hm, rfl⟩ := locateTemplate_eq_ok_iff.1 h
        exact .fromTemplate hn hb hp hc hm
      · cases h
  · intro h
    cases h with
    | direct hc hm => simp [hc, hm]
    | fromTemplate hn hb hp hc hm =>
      simp only [hn, hb, hp]
      exact locateTemplate_eq_ok_iff.2 ⟨_, hc, hm, rfl⟩

/-- Locating sees of a file system only where the names lead. -/
theorem locate_congr {a b : FileSystem}
    (h : ∀ name dir, chainIn? a name dir = chainIn? b name dir) (lookup : Lookup)
    (text : String) : locate a lookup text = locate b lookup text := by
  have hfirst : ∀ name, firstChain? a lookup name = firstChain? b lookup name :=
    fun name => congrArg lookup.dirs.findSome? (funext (h name))
  simp only [locate, locateTemplate, hfirst]

/-- Nothing is found of the name in a directory: asking for it fails or leads to no place at all. -/
def AbsentIn (fs : FileSystem) (name dir : String) : Prop :=
  ∀ c, fs.chain (Path.join ⟨dir⟩ name) = .ok c → c = []

def Nowhere (fs : FileSystem) (lookup : Lookup) (name : String) : Prop :=
  ∀ dir ∈ lookup.dirs, AbsentIn fs name dir

/-- The chain of a name in the first directory that has it. -/
def FirstAt (fs : FileSystem) (lookup : Lookup) (name : String) (c : Chain) : Prop :=
  ∃ before dir after, lookup.dirs = before ++ dir :: after ∧
    fs.chain (Path.join ⟨dir⟩ name) = .ok c.toList ∧ ∀ d ∈ before, AbsentIn fs name d

def LeadsToNull (c : Chain) : Prop := ∃ p ∈ c.toList, p.components = Path.null.components

/-- What is located is the chain, unless it leads to the null device. -/
def DecidedBy (name : String) (c : Chain) (result : Except Error AliasSet) : Prop :=
  (LeadsToNull c → result = .error (.masked name)) ∧
    (¬ LeadsToNull c → ∃ a, result = .ok a ∧ a.chain = c)

section

variable {fs : FileSystem} {lookup : Lookup} {text name dir base param type : String} {c : Chain}

theorem chainIn?_eq_some_iff :
    chainIn? fs name dir = some c ↔ fs.chain (Path.join ⟨dir⟩ name) = .ok c.toList := by
  unfold chainIn?
  cases fs.chain (Path.join ⟨dir⟩ name) with
  | error e => simp
  | ok ps =>
    cases ps with
    | nil => simp [Chain.ofList?, Chain.toList]
    | cons p ps => cases c; simp [Chain.ofList?, Chain.toList]

theorem chainIn?_eq_none_iff : chainIn? fs name dir = none ↔ AbsentIn fs name dir := by
  unfold chainIn? AbsentIn
  cases fs.chain (Path.join ⟨dir⟩ name) with
  | error e => simp
  | ok ps => cases ps <;> simp [Chain.ofList?]

theorem firstChain?_eq_some_iff :
    firstChain? fs lookup name = some c ↔ FirstAt fs lookup name c := by
  simp only [firstChain?, List.findSome?_eq_some_iff, chainIn?_eq_some_iff, chainIn?_eq_none_iff,
    FirstAt]

theorem firstChain?_eq_none_iff : firstChain? fs lookup name = none ↔ Nowhere fs lookup name := by
  simp only [firstChain?, List.findSome?_eq_none_iff, chainIn?_eq_none_iff, Nowhere]

theorem nowhere_or_firstAt (fs : FileSystem) (lookup : Lookup) (name : String) :
    Nowhere fs lookup name ∨ ∃ c, FirstAt fs lookup name c := by
  cases h : firstChain? fs lookup name with
  | none => exact .inl (firstChain?_eq_none_iff.1 h)
  | some c => exact .inr ⟨c, firstChain?_eq_some_iff.1 h⟩

theorem isMasked_iff : c.isMasked = true ↔ LeadsToNull c := by
  simp only [Chain.isMasked, List.any_eq_true, Path.same, decide_eq_true_eq, LeadsToNull]

theorem decidedBy_ite {a : AliasSet} (ha : a.chain = c) :
    DecidedBy name c (if c.isMasked then .error (.masked name) else .ok a) := by
  refine ⟨fun hc => if_pos (isMasked_iff.2 hc), fun hc => ⟨a, if_neg ?_, ha⟩⟩
  exact fun hm => hc (isMasked_iff.1 hm)

theorem locate_of_firstAt (h : FirstAt fs lookup (Name.canonical text) c) :
    DecidedBy (Name.canonical text) c (locate fs lookup text) := by
  rw [locate, firstChain?_eq_some_iff.2 h]
  exact decidedBy_ite rfl

theorem locate_of_no_instance (h : Nowhere fs lookup (Name.canonical text))
    (hn : ∀ base param type, ¬ Name.IsInstanceName (Name.canonical text) base param type) :
    locate fs lookup text = .error (.noUnit (Name.canonical text)) := by
  have ht : Name.templateOf? (Name.canonical text) = none := by
    refine Option.eq_none_iff_forall_ne_some.2 fun template ht => ?_
    obtain ⟨base, param, type, hi⟩ :=
      Name.exists_isInstanceName (Name.canonical_canonical text) ht
    exact hn base param type hi
  simp only [locate, firstChain?_eq_none_iff.2 h, ht]

theorem locate_of_instance (h : Nowhere fs lookup (Name.canonical text))
    (hn : Name.IsInstanceName (Name.canonical text) base param type) :
    locate fs lookup text =
      locateTemplate fs lookup (Name.canonical text) (base ++ "@." ++ type) param := by
  simp only [locate, firstChain?_eq_none_iff.2 h, hn.templateOf?, hn.parameterOf?]

theorem locateTemplate_of_nowhere (h : Nowhere fs lookup base) :
    locateTemplate fs lookup name base param = .error (.noUnitOrTemplate name base) := by
  rw [locateTemplate, firstChain?_eq_none_iff.2 h]

theorem locateTemplate_of_firstAt (h : FirstAt fs lookup base c) :
    DecidedBy base c (locateTemplate fs lookup name base param) := by
  rw [locateTemplate, firstChain?_eq_some_iff.2 h]
  exact decidedBy_ite rfl

theorem DecidedBy.error {result : Except Error AliasSet} (h : DecidedBy name c result) {e : Error}
    (he : result = .error e) : e = .masked name := by
  by_cases hc : LeadsToNull c
  · exact Except.error.inj (he.symm.trans (h.1 hc))
  · obtain ⟨a, ha, -⟩ := h.2 hc
    cases he.symm.trans ha

/-- A chain of the name itself decides, masked or not. Without one the template decides if the name
is that of an instance, and there is no unit if it is not. No other failure is passed on. -/
theorem locate_outcome (fs : FileSystem) (lookup : Lookup) (text : String) :
    let name := Name.canonical text
    (∀ c, FirstAt fs lookup name c → DecidedBy name c (locate fs lookup text)) ∧
    (Nowhere fs lookup name → (∀ base param type, ¬ Name.IsInstanceName name base param type) →
      locate fs lookup text = .error (.noUnit name)) ∧
    (Nowhere fs lookup name → ∀ base param type, Name.IsInstanceName name base param type →
      let template := base ++ "@." ++ type
      (Nowhere fs lookup template →
        locate fs lookup text = .error (.noUnitOrTemplate name template)) ∧
      ∀ c, FirstAt fs lookup template c → DecidedBy template c (locate fs lookup text)) ∧
    ∀ e, locate fs lookup text = .error e → e.isNotFound = true ∨ ∃ n, e = .masked n := by
  intro name
  refine ⟨fun c => locate_of_firstAt, locate_of_no_instance, ?_, ?_⟩
  · intro h base param type hn template
    rw [locate_of_instance h hn]
    exact ⟨locateTemplate_of_nowhere, fun c => locateTemplate_of_firstAt⟩
  · intro e he
    rcases nowhere_or_firstAt fs lookup name with h | ⟨c, hc⟩
    · by_cases hn : ∃ base param type, Name.IsInstanceName name base param type
      · obtain ⟨base, param, type, hn⟩ := hn
        rw [locate_of_instance h hn] at he
        rcases nowhere_or_firstAt fs lookup (base ++ "@." ++ type) with ht | ⟨c, hc⟩
        · rw [locateTemplate_of_nowhere ht] at he
          exact .inl (Except.error.inj he ▸ rfl)
        · exact .inr ⟨_, (locateTemplate_of_firstAt hc).error he⟩
      · have hno : ∀ base param type, ¬ Name.IsInstanceName name base param type :=
          fun base param type hi => hn ⟨base, param, type, hi⟩
        rw [locate_of_no_instance h hno] at he
        exact .inl (Except.error.inj he ▸ rfl)
    · exact .inr ⟨_, (locate_of_firstAt hc).error he⟩

/-- Two directories. The first refuses the instance and masks a unit that the second has; in the
second the instance leads to no place at all. -/
def twoLayers : NodeTable where
  nodes := [(Path.components ⟨"/a/x@1.service"⟩, .brokenChain),
    (Path.components ⟨"/b/x@1.service"⟩, .emptyChain),
    (Path.components ⟨"/b/x@.service"⟩, .file .empty),
    (Path.components ⟨"/a/y.service"⟩, .link "/dev//null"),
    (Path.components ⟨"/dev/null"⟩, .unreadable),
    (Path.components ⟨"/b/y.service"⟩, .file .empty)]
  listings := []

def layers : Lookup := ⟨["/a", "/b"]⟩

theorem twoLayers_located :
    FirstAt twoLayers.fileSystem layers "y.service" ⟨⟨"/a/y.service"⟩, [⟨"/dev//null"⟩]⟩ ∧
    locate twoLayers.fileSystem layers "y" = .error (.masked "y.service") ∧
    Nowhere twoLayers.fileSystem layers "x@1.service" ∧
    Name.IsInstanceName "x@1.service" "x" "1" "service" ∧
    FirstAt twoLayers.fileSystem layers "x@.service" ⟨⟨"/b/x@.service"⟩, []⟩ ∧
    ∃ a, locate twoLayers.fileSystem layers "x@1" = .ok a ∧ a.chain = ⟨⟨"/b/x@.service"⟩, []⟩ := by
  have hx : Name.canonical "x@1" = "x@1.service" := by decide
  have hy : Name.canonical "y" = "y.service" := by decide
  obtain ⟨hown, -, -, -⟩ := locate_outcome twoLayers.fileSystem layers "y"
  obtain ⟨-, -, htemplate, -⟩ := locate_outcome twoLayers.fileSystem layers "x@1"
  rw [hy] at hown
  rw [hx] at htemplate
  have hfirst : FirstAt twoLayers.fileSystem layers "y.service"
      ⟨⟨"/a/y.service"⟩, [⟨"/dev//null"⟩]⟩ := firstChain?_eq_some_iff.1 (by decide +kernel)
  have hnull : LeadsToNull ⟨⟨"/a/y.service"⟩, [⟨"/dev//null"⟩]⟩ :=
    isMasked_iff.1 (by decide +kernel)
  have hnowhere : Nowhere twoLayers.fileSystem layers "x@1.service" :=
    firstChain?_eq_none_iff.1 (by decide +kernel)
  have hname : Name.IsInstanceName "x@1.service" "x" "1" "service" :=
    ⟨by decide, by decide, by decide, by decide, by decide⟩
  have hlast : FirstAt twoLayers.fileSystem layers "x@.service" ⟨⟨"/b/x@.service"⟩, []⟩ :=
    firstChain?_eq_some_iff.1 (by decide +kernel)
  have hopen : ¬ LeadsToNull ⟨⟨"/b/x@.service"⟩, []⟩ := fun hl =>
    absurd (isMasked_iff.2 hl) (by decide +kernel)
  exact ⟨hfirst, (hown _ hfirst).1 hnull, hnowhere, hname, hlast,
    ((htemplate hnowhere _ _ _ hname).2 _ hlast).2 hopen⟩

end

end ServiceUnits
