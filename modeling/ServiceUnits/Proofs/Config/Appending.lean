import Mathlib.Data.List.Induction
import ServiceUnits.Config

namespace ServiceUnits

namespace Config

/-- Configs with the same sections and the same values are the same. -/
theorem ext_values? {c d : Config} (hs : ∀ s, s ∈ c.sectionNames ↔ s ∈ d.sectionNames)
    (hv : ∀ s k, c.values? s k = d.values? s k) : c = d := by
  obtain ⟨cs⟩ := c
  obtain ⟨ds⟩ := d
  refine congrArg Config.mk (Dict.ext_find? fun s => ?_)
  have hin : (cs.find? s).isSome = true ↔ (ds.find? s).isSome = true := by
    rw [← Dict.mem_keys_iff, ← Dict.mem_keys_iff]
    exact hs s
  have hvalues : ∀ k, (cs.find? s).bind (·.find? k) = (ds.find? s).bind (·.find? k) := hv s
  cases hc : cs.find? s with
  | none =>
    cases hd : ds.find? s with
    | none => rfl
    | some e => simp [hc, hd] at hin
  | some e =>
    cases hd : ds.find? s with
    | none => simp [hc, hd] at hin
    | some f =>
      rw [hc, hd] at hvalues
      exact congrArg some (Dict.ext_find? hvalues)

/-- One of the values of a key. -/
def HasValue (c : Config) (name key value : String) : Prop := value ∈ (c.values? name key).getD []

theorem hasValue_alterKey {c : Config} {name key n k v : String}
    {f : Option (List String) → List String} : (c.alterKey name key f).HasValue n k v ↔
      if n = name ∧ k = key then v ∈ f (c.values? name key) else c.HasValue n k v := by
  rw [HasValue, values?_alterKey]
  split
  · rfl
  · rfl

theorem hasValue_append {c : Config} {name key value n k v : String} :
    (c.append name key value).HasValue n k v ↔
      c.HasValue n k v ∨ (n = name ∧ k = key ∧ v = value) := by
  rw [append, hasValue_alterKey]
  split
  · rename_i h
    obtain ⟨rfl, rfl⟩ := h
    simp [HasValue]
  · rename_i h
    simp [← and_assoc, h]

theorem hasValue_reset {c : Config} {name key n k v : String} :
    (c.reset name key).HasValue n k v ↔ c.HasValue n k v ∧ ¬ (n = name ∧ k = key) := by
  rw [reset, hasValue_alterKey]
  split
  · rename_i h
    simp [h]
  · rename_i h
    simp [h]

theorem hasValue_openSection {c : Config} {name n k v : String} :
    (c.openSection name).HasValue n k v ↔ c.HasValue n k v := by
  rw [HasValue, values?_openSection, HasValue]

/-- The values among some entries that belong to a key. -/
def valuesOf (news : List (String × String)) (key : String) : List String :=
  (news.filter (·.1 = key)).map (·.2)

theorem mem_valuesOf {news : List (String × String)} {key value : String} :
    value ∈ valuesOf news key ↔ (key, value) ∈ news := by
  simp [valuesOf]

/-- The config `d` is `m` with more values in the section `name`. -/
structure Appended (name : String) (news : List (String × String)) (m d : Config) : Prop where
  otherSections : ∀ s, s ≠ name → d.sections.find? s = m.sections.find? s
  opened : name ∈ d.sectionNames ↔ name ∈ m.sectionNames ∨ news ≠ []
  otherKeys : ∀ key, valuesOf news key = [] → d.values? name key = m.values? name key
  keys : ∀ key, valuesOf news key ≠ [] →
    d.values? name key = some ((m.values? name key).getD [] ++ valuesOf news key)

variable {name : String} {news : List (String × String)} {m d : Config}

theorem Appended.getD_values? (h : Appended name news m d) (key : String) :
    (d.values? name key).getD [] = (m.values? name key).getD [] ++ valuesOf news key := by
  by_cases hkey : valuesOf news key = []
  · rw [h.otherKeys key hkey, hkey, List.append_nil]
  · rw [h.keys key hkey, Option.getD_some]

theorem appended_nil (name : String) (m : Config) : Appended name [] m m where
  otherSections _ _ := rfl
  opened := by simp
  otherKeys _ _ := rfl
  keys _ h := absurd rfl h

theorem valuesOf_append (news more : List (String × String)) (key : String) :
    valuesOf (news ++ more) key = valuesOf news key ++ valuesOf more key := by
  rw [valuesOf, List.filter_append, List.map_append, valuesOf, valuesOf]

theorem valuesOf_same (key : String) (values : List String) (k : String) :
    valuesOf (values.map (key, ·)) k = if k = key then values else [] := by
  rw [valuesOf, List.filter_map]
  by_cases hk : k = key
  · simp [hk, Function.comp_def]
  · simp [hk, Ne.symm hk, Function.comp_def]

theorem valuesOf_concat (news : List (String × String)) (key value k : String) :
    valuesOf (news ++ [(key, value)]) k =
      if k = key then valuesOf news k ++ [value] else valuesOf news k := by
  have hone := valuesOf_same key [value] k
  rw [List.map_singleton] at hone
  rw [valuesOf_append, hone]
  split
  · rfl
  · rw [List.append_nil]

/-- One more value. -/
theorem Appended.append (h : Appended name news m d) (key value : String) :
    Appended name (news ++ [(key, value)]) m (d.append name key value) where
  otherSections s hs := by rw [Config.append, find?_alterKey d key _ hs, h.otherSections s hs]
  opened := by simp [mem_sectionNames_append]
  otherKeys k hk := by
    rw [valuesOf_concat] at hk
    split at hk
    · simp at hk
    · rename_i hne
      rw [values?_append, if_neg fun e => hne e.2, h.otherKeys k hk]
  keys k hk := by
    rw [valuesOf_concat] at hk ⊢
    rw [values?_append]
    split at hk
    · rename_i he
      subst he
      rw [if_pos ⟨rfl, rfl⟩, if_pos rfl, h.getD_values?, List.append_assoc]
    · rename_i hne
      rw [if_neg fun e => hne e.2, if_neg hne, h.keys k hk]

theorem appended_foldl (name : String) (m : Config) (news : List (String × String)) :
    Appended name news m (news.foldl (fun c new => c.append name new.1 new.2) m) := by
  induction news using List.reverseRecOn with
  | nil => exact appended_nil name m
  | append_singleton news new ih =>
    rw [List.foldl_append, List.foldl_cons, List.foldl_nil]
    exact ih.append new.1 new.2

end Config
end ServiceUnits
