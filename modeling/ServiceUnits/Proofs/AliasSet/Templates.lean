import ServiceUnits.Proofs.AliasSet.Names
import ServiceUnits.Proofs.Name.Filling

namespace ServiceUnits

open Name

namespace AliasSet

variable {fs : FileSystem} {lookup : Lookup} {text name template unit base param type : String}
  {c : Chain} {a : AliasSet}

/-- Repeated templates in the chain, and other names in it, make no difference. -/
theorem names_ofTemplate (name param : String) (c : Chain) : (ofTemplate name param c).names =
    (name :: c.fileNames.filterMap fun other =>
      (parse? other).bind (·.instantiate? param)).eraseDups :=
  eraseDups_append_filterMap_eraseDups [name] _ c.fileNames

theorem givenBy_fills_iff {filled : List String} : GivenBy (Fills param) c.fileNames filled ↔
    filled = c.fileNames.filterMap fun other => (parse? other).bind (·.instantiate? param) :=
  givenBy_iff (f := fun other => (parse? other).bind (·.instantiate? param))
    fun _ ho _ => fills_iff (canonical_of_mem_fileNames ho)

theorem firstPlaces_ofTemplate (name param : String) (c : Chain) : ∃ filled,
    GivenBy (Fills param) c.fileNames filled ∧
      FirstPlaces (name :: filled) (ofTemplate name param c).names := by
  refine ⟨_, givenBy_fills_iff.2 rfl, ?_⟩
  rw [names_ofTemplate]
  exact firstPlaces_eraseDups _

theorem mem_ofTemplate_of_fills (ht : template ∈ c.fileNames) (h : Fills param template unit) :
    unit ∈ (ofTemplate name param c).names := by
  rw [fills_iff (canonical_of_mem_fileNames ht), Option.bind_eq_some_iff] at h
  exact mem_names_ofTemplate.2 (.inr ⟨template, ht, h⟩)

/-- An instance without a fragment of its own has the names that its template gives. -/
theorem ofTemplate_of_located (hname : IsInstanceName name base param type)
    (hn : Nowhere fs lookup name) (h : Located fs lookup name a) :
    ∃ c, FirstAt fs lookup (base ++ "@." ++ type) c ∧ a = ofTemplate name param c := by
  cases h with
  | direct hc =>
    rw [firstChain?_eq_none_iff.2 hn] at hc
    cases hc
  | fromTemplate _ hb hp hc =>
    obtain rfl := Option.some.inj (hname.templateOf?.symm.trans hb)
    obtain rfl := Option.some.inj (hname.parameterOf?.symm.trans hp)
    exact ⟨_, firstChain?_eq_some_iff.1 hc, rfl⟩

/-- The unit is read as an instance with this parameter and this template, and drop-ins are looked
for under both names. -/
structure Searches (a : AliasSet) (param template unit : String) : Prop where
  parameterOf? : Name.parameterOf? unit = some param
  templateOf? : Name.templateOf? unit = some template
  underUnit : unit ∈ Dropin.subpaths a
  underTemplate : template ∈ Dropin.subpaths a

theorem searches_of_mem (hp : Name.parameterOf? unit = some param)
    (ht : Name.templateOf? unit = some template) (hc : canonical unit = unit) (h : unit ∈ a.names) :
    Searches a param template unit := by
  have hunit : unit ∈ Dropin.subpaths a := Dropin.mem_subpaths.2 ⟨unit, h, .inl hc.symm⟩
  have htemplate : template ∈ Dropin.subpaths a := Dropin.mem_subpaths.2 ⟨unit, h, .inr ht⟩
  exact ⟨hp, ht, hunit, htemplate⟩

/-- An instance that is located through its template has, after its own name, those names that the
templates in the chain become with its parameter, in the order of the chain and each only once. -/
theorem locate_template_names (hname : IsInstanceName (canonical text) base param type)
    (hn : Nowhere fs lookup (canonical text)) (h : locate fs lookup text = .ok a) :
    FirstAt fs lookup (base ++ "@." ++ type) a.chain ∧
    (∃ filled, GivenBy (Fills param) a.chain.fileNames filled ∧
      FirstPlaces (canonical text :: filled) a.names) ∧
    Searches a param (base ++ "@." ++ type) (canonical text) ∧
    ∀ template ∈ a.chain.fileNames, ∀ unit, Fills param template unit →
      unit ∈ a.names ∧ (unit.utf8ByteSize ≤ maxBytes → Searches a param template unit) := by
  rw [locate_eq_ok_iff] at h
  obtain ⟨c, hfirst, rfl⟩ := ofTemplate_of_located hname hn h
  refine ⟨hfirst, firstPlaces_ofTemplate (canonical text) param c, ?_, ?_⟩
  · exact searches_of_mem hname.parameterOf? hname.templateOf? (canonical_canonical text)
      (mem_names_ofTemplate.2 (.inl rfl))
  · intro template ht unit hfills
    have hmem : unit ∈ (ofTemplate (canonical text) param c).names :=
      mem_ofTemplate_of_fills ht hfills
    refine ⟨hmem, fun hsize => ?_⟩
    obtain ⟨hp, htemplate⟩ := hfills.analysed hname.param_isPart hsize
    exact searches_of_mem hp htemplate hfills.canonical hmem

/-- A template whose chain holds a template without its type, an instance, a name with two dots and
the second template once more. -/
def consoles : NodeTable where
  nodes := [(Path.components ⟨"/u/getty@.service"⟩, .link "/lib/console@"),
    (Path.components ⟨"/lib/console@"⟩, .link "/lib/getty@9.service"),
    (Path.components ⟨"/lib/getty@9.service"⟩, .link "/lib/a@.b.service"),
    (Path.components ⟨"/lib/a@.b.service"⟩, .link "/usr/console@.service"),
    (Path.components ⟨"/usr/console@.service"⟩, .file .empty)]
  listings := []

def consolesChain : Chain where
  start := ⟨"/u/getty@.service"⟩
  targets := [⟨"/lib/console@"⟩, ⟨"/lib/getty@9.service"⟩, ⟨"/lib/a@.b.service"⟩,
    ⟨"/usr/console@.service"⟩]

theorem consoles_names : ∃ a, locate consoles.fileSystem ⟨["/u"]⟩ "getty@1" = .ok a ∧
    FirstPlaces ["getty@1.service", "getty@1.service", "console@1.service", "console@1.service"]
      a.names ∧
    Searches a "1" "getty@.service" "getty@1.service" ∧
    Searches a "1" "console@.service" "console@1.service" := by
  have hname : IsInstanceName (canonical "getty@1") "getty" "1" "service" :=
    ⟨by decide, by decide, by decide, by decide, by decide⟩
  have hn : Nowhere consoles.fileSystem ⟨["/u"]⟩ (canonical "getty@1") :=
    firstChain?_eq_none_iff.1 (by decide +kernel)
  have hfirst : FirstAt consoles.fileSystem ⟨["/u"]⟩ ("getty" ++ "@." ++ "service") consolesChain :=
    firstChain?_eq_some_iff.1 (by decide +kernel)
  have hfills : Fills "1" "console@.service" "console@1.service" :=
    ⟨"console", "service", ⟨by decide, by decide, by decide, by decide⟩, by decide⟩
  have hdecided : DecidedBy ("getty" ++ "@." ++ "service") consolesChain
      (locate consoles.fileSystem ⟨["/u"]⟩ "getty@1") := by
    rw [locate_of_instance hn hname]
    exact locateTemplate_of_firstAt hfirst
  obtain ⟨a, ha, hchain⟩ := hdecided.2 fun hl => absurd (isMasked_iff.2 hl) (by decide +kernel)
  obtain ⟨-, ⟨filled, hfilled, hplaces⟩, hsearches, hall⟩ := locate_template_names hname hn ha
  rw [hchain] at hfilled hall
  obtain rfl : filled = ["getty@1.service", "console@1.service", "console@1.service"] :=
    (givenBy_fills_iff.1 hfilled).trans (by decide +kernel)
  have hmem : "console@.service" ∈ consolesChain.fileNames := by decide +kernel
  exact ⟨a, ha, hplaces, hsearches, (hall _ hmem _ hfills).2 (by decide)⟩

end AliasSet

end ServiceUnits
