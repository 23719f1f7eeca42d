import ServiceUnits.Proofs.Name.Parts

namespace ServiceUnits.Name

/-- The text names a template, with its type spelled out. -/
structure IsTemplateName (text base type : String) : Prop where
  size : text.utf8ByteSize ≤ maxBytes
  text_eq : text = base ++ "@." ++ type
  base_isPart : base ≠ "" ∧ isPart base.toList = true
  type_isPart : type ≠ "" ∧ isPart type.toList = true

/-- The unit that a template name becomes with a parameter. -/
def Fills (param template unit : String) : Prop :=
  ∃ base type, IsTemplateName template base type ∧ unit = base ++ "@" ++ param ++ "." ++ type

variable {text template base param type unit : String}

/-- A template written out has nothing between the at-sign and the dot. -/
theorem text_template (base type : String) (explicit : Bool) :
    Name.text ⟨base, some "", type, explicit⟩ = base ++ "@." ++ type :=
  String.toList_injective (by simp [Name.text])

theorem IsTemplateName.parse? (h : IsTemplateName text base type) :
    parse? text = some ⟨base, some "", type, true⟩ := by
  have hwell : WellFormed ⟨base, some "", type, true⟩ :=
    wellFormed_mk h.base_isPart rfl h.type_isPart
  have htext : text = Name.text ⟨base, some "", type, true⟩ :=
    h.text_eq.trans (text_template base type true).symm
  rw [htext]
  exact parse?_text (htext ▸ h.size) hwell rfl

/-- A text that is read as a template is one, if it spells its type out. -/
theorem isTemplateName_of_parse? {n : Name} (hdot : canonical text = text)
    (hn : Name.parse? text = some n) (ht : n.param = some "") :
    IsTemplateName text n.base n.type := by
  obtain ⟨hsize, hw, -⟩ := parse?_spec hn
  refine ⟨hsize, ?_, ⟨hw.base_ne, hw.base_isPart⟩, ⟨hw.type_ne, hw.type_isPart⟩⟩
  obtain ⟨base, param, type, explicit⟩ := n
  obtain rfl : param = some "" := ht
  calc text = Name.canonical text := hdot.symm
    _ = Name.text ⟨base, some "", type, explicit⟩ := canonical_eq_text hn
    _ = base ++ "@." ++ type := text_template base type explicit

theorem fills_iff (hdot : canonical template = template) :
    Fills param template unit ↔ (parse? template).bind (·.instantiate? param) = some unit := by
  rw [Option.bind_eq_some_iff]
  constructor
  · rintro ⟨base, type, h, rfl⟩
    exact ⟨_, h.parse?, instantiate?_eq_some_iff.2 ⟨rfl, rfl⟩⟩
  · rintro ⟨n, hn, hinst⟩
    obtain ⟨ht, rfl⟩ := instantiate?_eq_some_iff.1 hinst
    exact ⟨n.base, n.type, isTemplateName_of_parse? hdot hn ht, rfl⟩

theorem Fills.canonical (h : Fills param template unit) : canonical unit = unit := by
  obtain ⟨base, type, -, rfl⟩ := h
  rw [Name.canonical, if_pos (by simp)]

/-- What a template becomes with a well-formed parameter is an instance, if it is not too long. -/
theorem Fills.analysed (h : Fills param template unit)
    (hp : param ≠ "" ∧ isPart param.toList = true) (hsize : unit.utf8ByteSize ≤ maxBytes) :
    parameterOf? unit = some param ∧ templateOf? unit = some template := by
  obtain ⟨base, type, ht, rfl⟩ := h
  have hi : IsInstanceName _ base param type := ⟨hsize, rfl, ht.base_isPart, hp, ht.type_isPart⟩
  exact ⟨hi.parameterOf?, hi.templateOf?.trans (congrArg some ht.text_eq.symm)⟩

end ServiceUnits.Name
