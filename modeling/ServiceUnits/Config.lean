import ServiceUnits.Dict

namespace ServiceUnits

abbrev Section := Dict (List String)

/-- The content of unit files. The values of a key accumulate; a reset clears them and keeps the
key. -/
structure Config where
  sections : Dict Section
deriving DecidableEq, Inhabited

namespace Config

/-- The section of what stands before the first header. -/
def topLevel : String := ""

/-- The section of the dependency keys. -/
def unitSection : String := "Unit"

def empty : Config := ⟨.empty⟩

def isEmpty (c : Config) : Bool := c.sections.isEmpty

def sectionNames (c : Config) : List String := c.sections.keys

def values? (c : Config) (name key : String) : Option (List String) :=
  (c.sections.find? name).bind (·.find? key)

def lastValue? (c : Config) (name key : String) : Option String :=
  (c.values? name key).bind (·.getLast?)

def openSection (c : Config) (name : String) : Config :=
  ⟨c.sections.alter name (·.getD .empty)⟩

def alterKey (c : Config) (name key : String) (f : Option (List String) → List String) : Config :=
  ⟨c.sections.alter name fun s => (s.getD .empty).alter key f⟩

/-- One more value, after those that are there. -/
def append (c : Config) (name key value : String) : Config :=
  c.alterKey name key fun vs => vs.getD [] ++ [value]

/-- No values any more; the key stays. -/
def reset (c : Config) (name key : String) : Config := c.alterKey name key fun _ => []

theorem values?_alterKey (c : Config) (name key : String)
    (f : Option (List String) → List String) (n k : String) :
    (c.alterKey name key f).values? n k =
      if n = name ∧ k = key then some (f (c.values? name key)) else c.values? n k := by
  simp only [values?, alterKey, Dict.find?_alter]
  by_cases hn : n = name
  · subst hn
    cases c.sections.find? n <;> simp [Dict.find?_alter]
  · simp [hn]

theorem values?_append (c : Config) (name key value n k : String) :
    (c.append name key value).values? n k =
      if n = name ∧ k = key then some ((c.values? name key).getD [] ++ [value])
      else c.values? n k :=
  c.values?_alterKey name key _ n k

theorem values?_reset (c : Config) (name key n k : String) :
    (c.reset name key).values? n k = if n = name ∧ k = key then some [] else c.values? n k :=
  c.values?_alterKey name key _ n k

theorem values?_openSection (c : Config) (name n k : String) :
    (c.openSection name).values? n k = c.values? n k := by
  simp only [values?, openSection, Dict.find?_alter]
  split
  · rename_i h
    subst h
    cases c.sections.find? n <;> simp
  · rfl

theorem find?_alterKey (c : Config) {name n : String} (key : String)
    (f : Option (List String) → List String) (h : n ≠ name) :
    (c.alterKey name key f).sections.find? n = c.sections.find? n := by
  rw [alterKey, Dict.find?_alter, if_neg h]

theorem find?_openSection (c : Config) {name n : String} (h : n ≠ name) :
    (c.openSection name).sections.find? n = c.sections.find? n := by
  rw [openSection, Dict.find?_alter, if_neg h]

theorem mem_sectionNames_alterKey (c : Config) (name key : String)
    (f : Option (List String) → List String) (n : String) :
    n ∈ (c.alterKey name key f).sectionNames ↔ n = name ∨ n ∈ c.sectionNames := by
  simp only [sectionNames, Dict.mem_keys_iff, alterKey, Dict.find?_alter]
  split <;> simp_all

theorem mem_sectionNames_append (c : Config) (name key value n : String) :
    n ∈ (c.append name key value).sectionNames ↔ n = name ∨ n ∈ c.sectionNames :=
  c.mem_sectionNames_alterKey name key _ n

theorem mem_sectionNames_reset (c : Config) (name key n : String) :
    n ∈ (c.reset name key).sectionNames ↔ n = name ∨ n ∈ c.sectionNames :=
  c.mem_sectionNames_alterKey name key _ n

theorem mem_sectionNames_openSection (c : Config) (name n : String) :
    n ∈ (c.openSection name).sectionNames ↔ n = name ∨ n ∈ c.sectionNames := by
  simp only [sectionNames, Dict.mem_keys_iff, openSection, Dict.find?_alter]
  split <;> simp_all

end Config
end ServiceUnits
