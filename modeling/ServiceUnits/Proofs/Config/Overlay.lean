import ServiceUnits.Proofs.Config.Malformed

namespace ServiceUnits

open Text

namespace Config

open Line Reader

/-- An assignment of a key outside a value, while a section is open, with a condition on what stands
after the `=`. -/
def AssignedAt (P : List Char → Prop) (pre : List (List Char)) (line : List Char) (s k : String) :
    Prop :=
  ¬ InValue pre ∧ OpenSection pre s ∧
    ∃ key value, IsProperty (trim line) key value ∧ P (trim value) ∧ k = .ofList (trim key)

/-- One of the lines is such an assignment. -/
def Assigned (P : List Char → Prop) (ls : List (List Char)) (s k : String) : Prop :=
  ∃ pre line post, ls = pre ++ line :: post ∧ AssignedAt P pre line s k

/-- An empty assignment of a key is among the lines. -/
def Clears : List (List Char) → String → String → Prop := Assigned (· = [])

/-- An assignment of a key is among the lines. -/
def Assigns : List (List Char) → String → String → Prop := Assigned fun _ => True

/-- A section is the one of a header, or of an assignment. -/
def Mentions (ls : List (List Char)) (s : String) : Prop :=
  (∃ pre line post name, ls = pre ++ line :: post ∧ ¬ InValue pre ∧ IsHeader (trim line) name ∧
    s = .ofList name) ∨ ∃ k, Assigns ls s k

theorem assigned_concat {P : List Char → Prop} {ls : List (List Char)} {line : List Char}
    {s k : String} :
    Assigned P (ls ++ [line]) s k ↔ Assigned P ls s k ∨ AssignedAt P ls line s k :=
  exists_split_concat

theorem Mentions.concat {ls : List (List Char)} {s : String} (h : Mentions ls s)
    (line : List Char) : Mentions (ls ++ [line]) s := by
  rcases h with ⟨pre, l, post, name, rfl, h⟩ | ⟨k, h⟩
  · exact .inl ⟨pre, l, post ++ [line], name, by simp, h⟩
  · exact .inr ⟨k, assigned_concat.2 (.inl h)⟩

/-- The config `m` is `d` on top of `c`, where the cleared keys keep nothing of `c`. -/
structure Overlaid (c d m : Config) (cleared : String → String → Prop) : Prop where
  of_cleared : ∀ s k, cleared s k → m.values? s k = d.values? s k
  of_not_cleared : ∀ s k, ¬ cleared s k →
    (m.values? s k).getD [] = (c.values? s k).getD [] ++ (d.values? s k).getD [] ∧
    ((m.values? s k).isSome ↔ (c.values? s k).isSome ∨ (d.values? s k).isSome)
  sections : ∀ s, s ∈ m.sectionNames ↔ s ∈ c.sectionNames ∨ s ∈ d.sectionNames

namespace Overlaid

variable {c d m : Config} {cleared : String → String → Prop}

theorem refl (c : Config) : Overlaid c empty c fun _ _ => False where
  of_cleared _ _ h := h.elim
  of_not_cleared s k _ := by simp [values?, empty]
  sections s := by simp [sectionNames, empty, Dict.keys, Dict.empty]

theorem openSection (h : Overlaid c d m cleared) (name : String) :
    Overlaid c (d.openSection name) (m.openSection name) cleared where
  of_cleared s k hs := by simpa [values?_openSection] using h.of_cleared s k hs
  of_not_cleared s k hs := by simpa [values?_openSection] using h.of_not_cleared s k hs
  sections s := by
    rw [mem_sectionNames_openSection, mem_sectionNames_openSection, h.sections]
    tauto

theorem append (h : Overlaid c d m cleared) (name key value : String) :
    Overlaid c (d.append name key value) (m.append name key value) cleared where
  of_cleared s k hs := by
    rw [values?_append, values?_append]
    split
    · rename_i e
      rw [← e.1, ← e.2, h.of_cleared s k hs]
    · exact h.of_cleared s k hs
  of_not_cleared s k hs := by
    rw [values?_append, values?_append]
    split
    · rename_i e
      rw [← e.1, ← e.2]
      simp [(h.of_not_cleared s k hs).1]
    · exact h.of_not_cleared s k hs
  sections s := by
    rw [mem_sectionNames_append, mem_sectionNames_append, h.sections]
    tauto

theorem reset (h : Overlaid c d m cleared) (name key : String) :
    Overlaid c (d.reset name key) (m.reset name key)
      (fun s k => cleared s k ∨ (s = name ∧ k = key)) where
  of_cleared s k hs := by
    rw [values?_reset, values?_reset]
    split
    · rfl
    · rename_i e
      exact h.of_cleared s k (hs.resolve_right e)
  of_not_cleared s k hs := by
    rw [not_or] at hs
    rw [values?_reset, values?_reset, if_neg hs.2, if_neg hs.2]
    exact h.of_not_cleared s k hs.1
  sections s := by
    rw [mem_sectionNames_reset, mem_sectionNames_reset, h.sections]
    tauto

theorem congr {cleared' : String → String → Prop} (h : Overlaid c d m cleared)
    (hc : ∀ s k, cleared' s k ↔ cleared s k) : Overlaid c d m cleared' := by
  have e : cleared' = cleared := funext fun s => funext fun k => propext (hc s k)
  exact e ▸ h

end Overlaid

theorem assignedAt_iff {P : List Char → Prop} {ls : List (List Char)} {line key value : List Char}
    {s : String} (hv : ¬ InValue ls) (hs : OpenSection ls s) (h : IsProperty (trim line) key value)
    (t k : String) : AssignedAt P ls line t k ↔ P (trim value) ∧ t = s ∧ k = .ofList (trim key) := by
  constructor
  · intro h
    obtain ⟨-, ht, key', value', h', hP, rfl⟩ := h
    obtain ⟨rfl, rfl⟩ := h.unique h'
    exact ⟨hP, ht.unique hs, rfl⟩
  · intro h
    obtain ⟨hP, rfl, rfl⟩ := h
    exact ⟨hv, hs, key, value, h, hP, rfl⟩

/-- A line that is read on top of one config is read on top of any other, to the same effect. -/
theorem step_overlaid {c m : Config} {ls : List (List Char)} {line : List Char} {r s : Reader}
    (hr : Reads m ls r) (hs : Step r line s) {d : Config}
    (h : Overlaid c d r.config (Clears ls)) :
    ∃ d', Step ⟨d, r.current, r.pending⟩ line ⟨d', s.current, s.pending⟩ ∧
      Overlaid c d' s.config (Clears (ls ++ [line])) := by
  obtain ⟨hv, hsec⟩ := hr.place
  have hclear (h' : ∀ t k, ¬ AssignedAt (· = []) ls line t k) (t k : String) :
      Clears (ls ++ [line]) t k ↔ Clears ls t k := by
    simp [Clears, assigned_concat, h' t k]
  have hno (hp : r.pending = none) : ¬ InValue ls := hr.pending_eq_none_iff.1 hp
  cases hs with
  | idle hp hi =>
    refine ⟨d, .idle hp hi, h.congr (hclear ?_)⟩
    intro t k h
    obtain ⟨-, -, key, value, hk, -⟩ := h
    exact hi.elim (fun e => by simp [hk.eq_append] at e) hk.not_comment
  | header hp hh =>
    refine ⟨_, .header hp hh, (h.openSection _).congr (hclear ?_)⟩
    intro t k h
    obtain ⟨-, -, key, value, hk, -⟩ := h
    exact hk.not_header _ hh
  | clears hp hk ht =>
    refine ⟨_, .clears hp hk ht, (h.reset _ _).congr fun t k => ?_⟩
    simp [Clears, assigned_concat, assignedAt_iff (hno hp) hsec hk, ht]
  | whole hp hk ht hc =>
    refine ⟨_, .whole hp hk ht hc, (h.append _ _ _).congr (hclear fun t k => ?_)⟩
    simp [assignedAt_iff (hno hp) hsec hk, ht]
  | opens hp hk ht hc =>
    refine ⟨_, .opens hp hk ht hc, h.congr (hclear fun t k => ?_)⟩
    simp [assignedAt_iff (hno hp) hsec hk, ht]
  | goesOn hp hc =>
    refine ⟨_, .goesOn hp hc, h.congr (hclear fun t k ha => ha.1 (hv.1 (by rw [hp]; rfl)))⟩
  | ends hp hc =>
    refine ⟨_, .ends hp hc,
      (h.append _ _ _).congr (hclear fun t k ha => ha.1 (hv.1 (by rw [hp]; rfl)))⟩

theorem reads_overlaid {c : Config} {ls : List (List Char)} {r : Reader} (h : Reads c ls r) :
    ∃ d, Reads empty ls ⟨d, r.current, r.pending⟩ ∧ Overlaid c d r.config (Clears ls) := by
  induction h with
  | start =>
    refine ⟨empty, .start, (Overlaid.refl c).congr fun s k => ?_⟩
    simp [Clears, Assigned]
  | snoc hr hs ih =>
    obtain ⟨d, hd, ho⟩ := ih
    obtain ⟨d', hd', ho'⟩ := step_overlaid hr hs ho
    exact ⟨d', hd.snoc hd', ho'⟩

/-- The config is as before but for the keys that are assigned, and but for the sections that are
mentioned. -/
structure Framed (ls : List (List Char)) (c d : Config) : Prop where
  values : ∀ s k, ¬ Assigns ls s k → d.values? s k = c.values? s k
  sections : ∀ s, ¬ Mentions ls s → d.sections.find? s = c.sections.find? s

namespace Framed

variable {ls : List (List Char)} {c d : Config}

theorem concat (h : Framed ls c d) (line : List Char) : Framed (ls ++ [line]) c d where
  values s k hn := h.values s k fun ha => hn (assigned_concat.2 (.inl ha))
  sections s hn := h.sections s fun hm => hn (hm.concat line)

theorem alterKey (h : Framed ls c d) {name key : String} (ha : Assigns ls name key)
    (f : Option (List String) → List String) : Framed ls c (d.alterKey name key f) where
  values s k hn := by
    rw [values?_alterKey, if_neg, h.values s k hn]
    intro h
    obtain ⟨rfl, rfl⟩ := h
    exact hn ha
  sections s hn := by
    rw [find?_alterKey, h.sections s hn]
    intro e
    subst e
    exact hn (.inr ⟨key, ha⟩)

theorem openSection (h : Framed ls c d) {name : String} (hm : Mentions ls name) :
    Framed ls c (d.openSection name) where
  values s k hn := by rw [values?_openSection, h.values s k hn]
  sections s hn := by
    rw [find?_openSection, h.sections s hn]
    intro e
    subst e
    exact hn hm

end Framed

theorem reads_framed {c : Config} {ls : List (List Char)} {r : Reader} (h : Reads c ls r) :
    Framed ls c r.config ∧ ∀ p, r.pending = some p → Assigns ls r.current p.key := by
  induction h with
  | start =>
    refine ⟨⟨fun _ _ _ => rfl, fun _ _ => rfl⟩, ?_⟩
    intro p e
    cases e
  | @snoc ls line r s hr hs ih =>
    obtain ⟨hf, hp'⟩ := ih
    have hsec := hr.place.2
    have hassign {key value : List Char} (hp : r.pending = none)
        (hk : IsProperty (trim line) key value) :
        Assigns (ls ++ [line]) r.current (.ofList (trim key)) :=
      assigned_concat.2 (.inr ⟨hr.pending_eq_none_iff.1 hp, hsec, key, value, hk, trivial, rfl⟩)
    cases hs with
    | idle hp h => exact ⟨hf.concat line, by simp [hp]⟩
    | @header name hp h =>
      refine ⟨(hf.concat line).openSection (.inl ⟨ls, line, [], name, rfl, ?_, h, rfl⟩), by simp [hp]⟩
      exact hr.pending_eq_none_iff.1 hp
    | clears hp hk ht => exact ⟨(hf.concat line).alterKey (hassign hp hk) _, by simp [hp]⟩
    | whole hp hk ht hc => exact ⟨(hf.concat line).alterKey (hassign hp hk) _, by simp [hp]⟩
    | opens hp hk ht hc =>
      refine ⟨hf.concat line, ?_⟩
      intro p e
      cases e
      exact hassign hp hk
    | @goesOn p hp hc =>
      refine ⟨hf.concat line, ?_⟩
      intro q e
      cases e
      exact assigned_concat.2 (.inl (hp' p hp))
    | ends hp hc =>
      refine ⟨(hf.concat line).alterKey (assigned_concat.2 (.inl (hp' _ hp))) _, ?_⟩
      intro p e
      cases e

theorem commit_framed {c : Config} {ls : List (List Char)} {r : Reader} (h : Reads c ls r) :
    Framed ls c r.commit.config := by
  obtain ⟨hf, hp⟩ := reads_framed h
  unfold commit
  split
  · exact hf
  · rename_i p he
    exact hf.alterKey (hp p he) _

theorem commit_overlaid {c d : Config} {r : Reader} {cleared : String → String → Prop}
    (h : Overlaid c d r.config cleared) :
    Overlaid c (commit ⟨d, r.current, r.pending⟩).config r.commit.config cleared := by
  cases hp : r.pending with
  | none => simpa only [commit, hp] using h
  | some p => simpa only [commit, hp] using h.append r.current p.key p.value

theorem read_eq_ok_iff {text : String} {d : Config} :
    read text = .ok d ↔ empty.overlay text = (d, .ok ()) := by
  unfold read
  split
  · rename_i c he
    rw [he]
    simp
  · rename_i c e he
    rw [he]
    simp

/-- Whether a text is well-formed, and which line is not, does not depend on the config that it is
read on top of. If it is, a key that it clears has the values of the text read alone, any other key
has its old values and then these; nothing else changes. -/
theorem overlay_law (text : String) :
    (∀ c₁ c₂ : Config, (c₁.overlay text).2 = (c₂.overlay text).2) ∧
    ∀ c d : Config, read text = .ok d → ∃ m, c.overlay text = (m, .ok ()) ∧
      (∀ s k, Clears (lines text) s k → m.values? s k = d.values? s k) ∧
      (∀ s k, ¬ Clears (lines text) s k →
        (m.values? s k).getD [] = (c.values? s k).getD [] ++ (d.values? s k).getD [] ∧
        ((m.values? s k).isSome ↔ (c.values? s k).isSome ∨ (d.values? s k).isSome)) ∧
      (∀ s, s ∈ m.sectionNames ↔ s ∈ c.sectionNames ∨ s ∈ d.sectionNames) ∧
      (∀ s k, ¬ Assigns (lines text) s k → m.values? s k = c.values? s k) ∧
      (∀ s, ¬ Mentions (lines text) s → m.sections.find? s = c.sections.find? s) := by
  constructor
  · intro c₁ c₂
    simp only [overlay_eq_run]
    by_cases hw : WellFormed (lines text)
    · rw [(run_eq_ok_iff c₁).2 hw, (run_eq_ok_iff c₂).2 hw]
    · obtain ⟨pre, line, post, e, hm, hpre⟩ := exists_first_malformedAt hw
      obtain ⟨r₁, -, -, h₁⟩ := run_of_malformedAt c₁ hpre hm
      obtain ⟨r₂, -, -, h₂⟩ := run_of_malformedAt c₂ hpre hm
      rw [e, h₁, h₂]
  · intro c d hd
    rw [read_eq_ok_iff, overlay_eq_run] at hd
    have hw : WellFormed (lines text) := (run_eq_ok_iff empty).1 (by rw [hd])
    obtain ⟨r, hr⟩ := reads_of_wellFormed c hw
    obtain ⟨d₀, hd₀, ho⟩ := reads_overlaid hr
    have hc := commit_overlaid ho
    have hf := commit_framed hr
    rw [hd₀.run_eq, Prod.mk.injEq] at hd
    rw [hd.1] at hc
    refine ⟨r.commit.config, by rw [overlay_eq_run, hr.run_eq], ?_⟩
    exact ⟨hc.of_cleared, hc.of_not_cleared, hc.sections, hf.values, hf.sections⟩

def clearingText : String := "[Unit]\nWants=\nAfter=b"

/-- Old values of the key that the text clears, and of the other. -/
def beforeClearing : Config :=
  ⟨.ofList [("Unit", .ofList [("After", ["z"]), ("Wants", ["a"])])]⟩

/-- Of the first nothing is kept, and the old value of the second stands before the new one. -/
theorem clearingText_keeps_after : ∃ m, beforeClearing.overlay clearingText = (m, .ok ()) ∧
    m = ⟨.ofList [("Unit", .ofList [("After", ["z", "b"]), ("Wants", [])])]⟩ ∧
    m.values? unitSection "Wants" = some [] ∧
    (m.values? unitSection "After").getD [] = ["z", "b"] := by
  have hl : lines clearingText =
      ["[Unit]".toList] ++ "Wants=".toList :: ["After=b".toList] := by decide +kernel
  have hv : ¬ InValue ["[Unit]".toList] := by
    intro h
    have hodd : EndsOdd (trim "[Unit]".toList) := ((@inValue_concat [] _).1 h).1
    exact absurd (endsOdd_iff.1 hodd) (by decide)
  have hs : OpenSection ["[Unit]".toList] (.ofList "Unit".toList) :=
    .header not_inValue_nil ⟨by decide, by decide⟩
  have hk : IsProperty (trim "Wants=".toList) "Wants".toList [] := by
    refine ⟨by simp [IsComment]; decide, ?_, by decide, by decide, by decide⟩
    intro name h
    have hhead := congrArg List.head? h.2
    exact absurd hhead (by simp; decide)
  have hwants : Clears (lines clearingText) unitSection "Wants" :=
    ⟨_, _, _, hl, hv, hs, _, _, hk, rfl, rfl⟩
  have hread : read clearingText =
      .ok ⟨.ofList [("Unit", .ofList [("After", ["b"]), ("Wants", [])])]⟩ := by decide +kernel
  have hresult : beforeClearing.overlay clearingText =
      (⟨.ofList [("Unit", .ofList [("After", ["z", "b"]), ("Wants", [])])]⟩, .ok ()) := by
    decide +kernel
  obtain ⟨m, hm, hcleared, hkept, -⟩ := (overlay_law clearingText).2 beforeClearing _ hread
  obtain ⟨rfl, -⟩ := Prod.mk.inj (hm.symm.trans hresult)
  -- If the text cleared the other key as well, its old value would be gone.
  have hafter : ¬ Clears (lines clearingText) unitSection "After" := fun h =>
    absurd (hcleared _ _ h) (by decide +kernel)
  exact ⟨_, hm, rfl, hcleared _ _ hwants, (hkept _ _ hafter).1⟩

end Config
end ServiceUnits
