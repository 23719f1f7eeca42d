import ServiceUnits.Resolver

namespace ServiceUnits

namespace Resolver

/-- A name that a unit may be resolved by. -/
structure Admissible (name : String) : Prop where
  no_slash : '/' ∉ name.toList
  not_template : Name.isFileName (· = .template) name = false

theorem checkName_eq_ok_iff {name : String} : checkName name = .ok () ↔ Admissible name := by
  constructor
  · intro h
    rw [checkName] at h
    split at h
    · cases h
    · rename_i hslash
      split at h
      · cases h
      · rename_i htemplate
        exact ⟨hslash, Bool.eq_false_iff.2 htemplate⟩
  · intro h
    simp [checkName, h.no_slash, h.not_template]

/-- The stages that a unit went through. -/
structure Stages (r : Resolver) (text : String) (u : ResolvedUnit) : Prop where
  named : checkName (Name.canonical text) = .ok ()
  located : locate r.fs r.lookup (Name.canonical text) = .ok u.aliases
  read : ∃ bytes fragment, r.fs.read u.aliases.fragment = .ok bytes ∧
    Config.read (Text.decodeLossy bytes) = .ok fragment ∧
    Dropin.apply r.fs r.lookup r.table u.aliases fragment = (u.config, .ok ())
  compiled : u.delta = .ofConfig u.config

theorem bind_eq_ok {α β : Type} {x : Except Error α} {f : α → Except Error β} {b : β} :
    x >>= f = .ok b ↔ ∃ a, x = .ok a ∧ f a = .ok b := by
  cases x <;> simp [bind, Except.bind]

theorem exists_eq_ok {α β : Type} {x : Except Error α} {f : α → β} {b : β}
    (h : x.toOption.map f = some b) : ∃ a, x = .ok a ∧ f a = b := by
  cases x with
  | error e => cases h
  | ok a => exact ⟨a, rfl, Option.some.inj h⟩

theorem resolve_eq_ok_iff {r : Resolver} {text : String} {u : ResolvedUnit} :
    r.resolve text = .ok u ↔ r.Stages text u := by
  simp only [resolve, bind_eq_ok]
  constructor
  · intro h
    obtain ⟨⟨⟩, hn, aliases, ha, bytes, hb, fragment, hf, h⟩ := h
    generalize hd : Dropin.apply r.fs r.lookup r.table aliases fragment = applied at h
    obtain ⟨config, result⟩ := applied
    obtain ⟨⟨⟩, rfl, hu⟩ := h
    obtain rfl := Except.ok.inj hu
    exact ⟨hn, ha, ⟨bytes, fragment, hb, hf, hd⟩, rfl⟩
  · intro h
    obtain ⟨hn, ha, ⟨bytes, fragment, hb, hf, hd⟩, hc⟩ := h
    refine ⟨(), hn, u.aliases, ha, bytes, hb, fragment, hf, ?_⟩
    rw [hd]
    exact ⟨(), rfl, by rw [← hc]; rfl⟩

end Resolver
end ServiceUnits
