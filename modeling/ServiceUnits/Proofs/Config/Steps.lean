import Mathlib.Data.List.Induction
import ServiceUnits.Proofs.Config.LineForms

namespace ServiceUnits

open Text

namespace Reader

open Line

/-- What one more line does. The first five rules are for a line outside a value, the last two for a
segment of a value. -/
inductive Step (r : Reader) (raw : List Char) : Reader → Prop
  | idle (hp : r.pending = none) (h : trim raw = [] ∨ IsComment (trim raw)) : Step r raw r
  | header {name : List Char} (hp : r.pending = none) (h : IsHeader (trim raw) name) :
      Step r raw { r with config := r.config.openSection (.ofList name), current := .ofList name }
  | clears {key value : List Char} (hp : r.pending = none) (h : IsProperty (trim raw) key value)
      (hv : trim value = []) :
      Step r raw { r with config := r.config.reset r.current (.ofList (trim key)) }
  | whole {key value : List Char} (hp : r.pending = none) (h : IsProperty (trim raw) key value)
      (hv : trim value ≠ []) (hc : ¬ EndsOdd (trim value)) :
      Step r raw { r with
        config := r.config.append r.current (.ofList (trim key)) (.ofList (trim value)) }
  | opens {key value : List Char} (hp : r.pending = none) (h : IsProperty (trim raw) key value)
      (hv : trim value ≠ []) (hc : EndsOdd (trim value)) :
      Step r raw { r with
        pending := some ⟨.ofList (trim key), [trimEnd (trim value).dropLast]⟩ }
  | goesOn {p : Pending} (hp : r.pending = some p) (hc : EndsOdd (trim raw)) :
      Step r raw { r with
        pending := some { p with segments := p.segments ++ [trimEnd (trim raw).dropLast] } }
  | ends {p : Pending} (hp : r.pending = some p) (hc : ¬ EndsOdd (trim raw)) :
      Step r raw ⟨r.config.append r.current p.key
        { p with segments := p.segments ++ [trim raw] }.value, r.current, none⟩

theorem Step.eq_ok {r s : Reader} {raw : List Char} (h : Step r raw s) : r.step raw = .ok s := by
  cases h with
  | idle hp h => simp [step, hp, readLine, ofTrimmed_idle h]
  | header hp h => simp [step, hp, readLine, ofTrimmed_header h]
  | clears hp h hv => simp [step, hp, readLine, ofTrimmed_property h, hv]
  | whole hp h hv hc =>
    simp [step, hp, readLine, ofTrimmed_property h, hv, continued?_of_not_endsOdd hc]
  | opens hp h hv hc =>
    simp [step, hp, readLine, ofTrimmed_property h, hv, continued?_of_endsOdd hc]
  | goesOn hp hc => simp [step, hp, continued?_of_endsOdd hc]
  | ends hp hc => simp [step, hp, continued?_of_not_endsOdd hc, commit]

theorem Step.run_cons {r s : Reader} {raw : List Char} (h : Step r raw s)
    (rest : List (List Char)) : r.run (raw :: rest) = s.run rest := by
  rw [run, h.eq_ok]

theorem step_malformed {r : Reader} {raw : List Char} (hp : r.pending = none)
    (h : IsMalformed (trim raw)) : r.step raw = .error (.badLine (.ofList (trim raw))) := by
  simp [step, hp, readLine, ofTrimmed_malformed h]

/-- A line has a rule, unless it is malformed and outside a value. -/
theorem step_or_malformed (r : Reader) (raw : List Char) :
    (∃ s, Step r raw s) ∨ (r.pending = none ∧ IsMalformed (trim raw)) := by
  cases hp : r.pending with
  | some p =>
    by_cases hc : EndsOdd (trim raw)
    · exact .inl ⟨_, .goesOn hp hc⟩
    · exact .inl ⟨_, .ends hp hc⟩
  | none =>
    rcases forms (trim raw) with h | ⟨name, h⟩ | ⟨key, value, h⟩ | h
    · exact .inl ⟨_, .idle hp h⟩
    · exact .inl ⟨_, .header hp h⟩
    · by_cases hv : trim value = []
      · exact .inl ⟨_, .clears hp h hv⟩
      by_cases hc : EndsOdd (trim value)
      · exact .inl ⟨_, .opens hp h hv hc⟩
      · exact .inl ⟨_, .whole hp h hv hc⟩
    · exact .inr ⟨rfl, h⟩

/-- The lines are read on top of a config one after the other; none of them stops the reading. -/
inductive Reads (c : Config) : List (List Char) → Reader → Prop
  | start : Reads c [] (Reader.start c)
  | snoc {ls : List (List Char)} {line : List Char} {r s : Reader} (h : Reads c ls r)
      (hs : Step r line s) : Reads c (ls ++ [line]) s

theorem Reads.run_append {c : Config} {ls : List (List Char)} {r : Reader} (h : Reads c ls r)
    (post : List (List Char)) : (Reader.start c).run (ls ++ post) = r.run post := by
  induction h generalizing post with
  | start => rfl
  | snoc h hs ih =>
    rw [List.append_assoc, List.singleton_append, ih, run, hs.eq_ok]

theorem Reads.run_eq {c : Config} {ls : List (List Char)} {r : Reader} (h : Reads c ls r) :
    (Reader.start c).run ls = (r.commit.config, .ok ()) := by
  simpa [run] using h.run_append []

theorem Reads.run_malformed {c : Config} {ls : List (List Char)} {r : Reader} (h : Reads c ls r)
    (hp : r.pending = none) {line : List Char} (hm : IsMalformed (trim line))
    (post : List (List Char)) : (Reader.start c).run (ls ++ line :: post) =
      (r.config, .error (.badLine (.ofList (trim line)))) := by
  rw [h.run_append, run, step_malformed hp hm]

theorem reads_or_malformed (c : Config) (ls : List (List Char)) :
    (∃ r, Reads c ls r) ∨ ∃ pre line post r, ls = pre ++ line :: post ∧ Reads c pre r ∧
      r.pending = none ∧ IsMalformed (trim line) := by
  induction ls using List.reverseRecOn with
  | nil => exact .inl ⟨_, .start⟩
  | append_singleton ls line ih =>
    rcases ih with ⟨r, hr⟩ | ⟨pre, bad, post, r, rfl, hr, hp, hm⟩
    · rcases step_or_malformed r line with ⟨s, hs⟩ | ⟨hp, hm⟩
      · exact .inl ⟨s, hr.snoc hs⟩
      · exact .inr ⟨ls, line, [], r, rfl, hr, hp, hm⟩
    · exact .inr ⟨pre, bad, post ++ [line], r, by simp, hr, hp, hm⟩

/-- Lines are read, or they stop the reading whatever stands after them. -/
theorem reads_or_stops (c : Config) (ls : List (List Char)) : (∃ r, Reads c ls r) ∨
    ∃ d e, ∀ rest, (Reader.start c).run (ls ++ rest) = (d, .error e) := by
  rcases reads_or_malformed c ls with hr | ⟨pre, line, post, r, rfl, hr, hp, hm⟩
  · exact .inl hr
  · refine .inr ⟨r.config, .badLine (.ofList (trim line)), fun rest => ?_⟩
    rw [List.append_assoc, List.cons_append, hr.run_malformed hp hm]

end Reader
end ServiceUnits
