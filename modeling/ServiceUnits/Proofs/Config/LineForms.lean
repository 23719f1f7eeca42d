import ServiceUnits.Config.Reader
import ServiceUnits.Proofs.Text.Cutting

namespace ServiceUnits.Line

open Text

def IsComment (line : List Char) : Prop := line.head? = some '#' ∨ line.head? = some ';'

instance (line : List Char) : Decidable (IsComment line) := inferInstanceAs (Decidable (_ ∨ _))

/-- A name between brackets. The name may hold brackets itself. -/
def IsHeader (line name : List Char) : Prop := name ≠ [] ∧ line = '[' :: (name ++ [']'])

/-- A line with a key, which has one character at least, before its first `=`. -/
structure IsProperty (line key value : List Char) : Prop where
  not_comment : ¬ IsComment line
  not_header : ∀ name, ¬ IsHeader line name
  key_ne_nil : key ≠ []
  not_mem_key : '=' ∉ key
  eq_append : line = key ++ '=' :: value

/-- A line of none of the other forms: it has no `=`, or nothing before it. -/
structure IsMalformed (line : List Char) : Prop where
  ne_nil : line ≠ []
  not_comment : ¬ IsComment line
  not_header : ∀ name, ¬ IsHeader line name
  no_key : '=' ∉ line ∨ line.head? = some '='

/-- A property with a value, which may go on in the next line. -/
def OpensValue (line : List Char) : Prop := ∃ key value, IsProperty line key value ∧ trim value ≠ []

/-- The text ends in an odd number of backslashes. -/
def EndsOdd (s : List Char) : Prop :=
  ∃ body n, s = body ++ List.replicate (2 * n + 1) '\\' ∧ body.getLast? ≠ some '\\'

theorem IsHeader.unique {line m n : List Char} (hm : IsHeader line m) (hn : IsHeader line n) :
    m = n := by
  have h := hm.2.symm.trans hn.2
  simpa using h

theorem IsProperty.unique {line k v k' v' : List Char} (h : IsProperty line k v)
    (h' : IsProperty line k' v') : k = k' ∧ v = v' := by
  have e := cut_eq_some_iff.2 ⟨h.not_mem_key, h.eq_append⟩
  rw [cut_eq_some_iff.2 ⟨h'.not_mem_key, h'.eq_append⟩] at e
  exact ⟨(Prod.mk.inj e).1.symm, (Option.some.inj (Prod.mk.inj e).2).symm⟩

theorem IsProperty.trim_key_ne_nil {raw key value : List Char}
    (h : IsProperty (trim raw) key value) : trim key ≠ [] := by
  intro e
  obtain ⟨c, cs, rfl⟩ := List.exists_cons_of_ne_nil h.key_ne_nil
  have hb : isBlank c = true := trim_eq_nil_iff.1 e c List.mem_cons_self
  have hn : isBlank c = false := isBlank_head_trim (s := raw) (by rw [h.eq_append]; rfl)
  simp [hb] at hn

theorem forms (s : List Char) : (s = [] ∨ IsComment s) ∨ (∃ name, IsHeader s name) ∨
    (∃ key value, IsProperty s key value) ∨ IsMalformed s := by
  by_cases hs : s = []
  · exact .inl (.inl hs)
  by_cases hc : IsComment s
  · exact .inl (.inr hc)
  by_cases hh : ∃ name, IsHeader s name
  · exact .inr (.inl hh)
  have hn : ∀ name, ¬ IsHeader s name := not_exists.1 hh
  cases hcut : (cut '=' s).2 with
  | none => exact .inr (.inr (.inr ⟨hs, hc, hn, .inl (cut_eq_none_iff.1 hcut)⟩))
  | some value =>
    obtain ⟨hm, he⟩ := cut_eq_some_iff.1 (Prod.ext rfl hcut : cut '=' s = ((cut '=' s).1, some value))
    by_cases hk : (cut '=' s).1 = []
    · exact .inr (.inr (.inr ⟨hs, hc, hn, .inr (by rw [he, hk]; rfl)⟩))
    · exact .inr (.inr (.inl ⟨_, _, hc, hn, hk, hm, he⟩))

theorem headerName?_eq_some_iff {s name : List Char} :
    headerName? s = some name ↔ IsHeader s name := by
  constructor
  · intro h
    unfold headerName? at h
    split at h
    · rename_i c rest
      split at h
      · rename_i hc
        simp only [Bool.and_eq_true, decide_eq_true_eq] at hc
        obtain rfl := Option.some.inj h
        obtain ⟨front, hf⟩ := List.getLast?_eq_some_iff.1 hc.1
        refine ⟨?_, by rw [hf, List.dropLast_concat]⟩
        cases rest with
        | nil => exact absurd rfl hc.2
        | cons d ds => simp
      · simp at h
    · simp at h
  · intro h
    obtain ⟨hn, rfl⟩ := h
    obtain ⟨c, cs, rfl⟩ := List.exists_cons_of_ne_nil hn
    have hl : ((c :: cs) ++ [']']).getLast? = some ']' := List.getLast?_concat
    have hd : ((c :: cs) ++ [']']).dropLast = c :: cs := List.dropLast_concat
    rw [List.cons_append] at hl hd
    simp [headerName?, hl, hd]

theorem headerName?_eq_none_iff {s : List Char} :
    headerName? s = none ↔ ∀ name, ¬ IsHeader s name := by
  simp only [Option.eq_none_iff_forall_not_mem, Option.mem_def, headerName?_eq_some_iff]

theorem ofTrimmed_idle {s : List Char} (h : s = [] ∨ IsComment s) : ofTrimmed s = idle := by
  rw [ofTrimmed, if_pos]
  simpa [IsComment, or_assoc] using h

theorem ofTrimmed_of_not_idle {s : List Char} (hs : s ≠ []) (hc : ¬ IsComment s) :
    ofTrimmed s = match headerName? s with
      | some name => header name
      | none => match assignment? s with
        | some (key, value) => assignment key value
        | none => malformed := by
  unfold ofTrimmed
  exact if_neg (by simpa [IsComment, hs] using hc)

theorem ofTrimmed_header {s name : List Char} (h : IsHeader s name) :
    ofTrimmed s = header name := by
  have hc : ¬ IsComment s := by simp [IsComment, h.2]
  rw [ofTrimmed_of_not_idle (by simp [h.2]) hc, headerName?_eq_some_iff.2 h]

theorem ofTrimmed_property {raw key value : List Char} (h : IsProperty (trim raw) key value) :
    ofTrimmed (trim raw) = assignment (trim key) (trim value) := by
  have hs : trim raw ≠ [] := by simp [h.eq_append]
  have ha : assignment? (trim raw) = some (trim key, trim value) := by
    rw [assignment?, cut_eq_some_iff.2 ⟨h.not_mem_key, h.eq_append⟩]
    exact if_neg h.trim_key_ne_nil
  rw [ofTrimmed_of_not_idle hs h.not_comment, headerName?_eq_none_iff.2 h.not_header, ha]

theorem ofTrimmed_malformed {s : List Char} (h : IsMalformed s) : ofTrimmed s = malformed := by
  have ha : assignment? s = none := by
    rcases h.no_key with hm | hh
    · rw [assignment?, cut_of_not_mem hm]
    · obtain ⟨t, rfl⟩ : ∃ t, s = '=' :: t := by
        cases s with
        | nil => simp at hh
        | cons c t => exact ⟨t, by simpa using hh⟩
      simp [assignment?, cut, trim, trimEnd, trimStart]
  rw [ofTrimmed_of_not_idle h.ne_nil h.not_comment, headerName?_eq_none_iff.2 h.not_header, ha]

theorem endsOdd_iff {s : List Char} :
    EndsOdd s ↔ (s.reverse.takeWhile (· = '\\')).length % 2 = 1 := by
  constructor
  · intro h
    obtain ⟨body, n, rfl, hb⟩ := h
    have hnone : body.reverse.takeWhile (· = '\\') = [] := by
      cases hr : body.reverse with
      | nil => rfl
      | cons c cs =>
        rw [← List.head?_reverse, hr] at hb
        exact List.takeWhile_cons_of_neg (by simpa using hb)
    rw [List.reverse_append, List.reverse_replicate, List.takeWhile_append_of_pos (by simp), hnone]
    simp
  · intro h
    have hall : ∀ c ∈ s.reverse.takeWhile (· = '\\'), c = '\\' := fun c hc => by
      simpa using List.mem_takeWhile_imp hc
    refine ⟨(s.reverse.dropWhile (· = '\\')).reverse,
      (s.reverse.takeWhile (· = '\\')).length / 2, ?_, ?_⟩
    · have hrep := List.eq_replicate_of_mem hall
      rw [show 2 * ((s.reverse.takeWhile (· = '\\')).length / 2) + 1 =
        (s.reverse.takeWhile (· = '\\')).length by omega, ← List.reverse_replicate, ← hrep,
        ← List.reverse_append, List.takeWhile_append_dropWhile, List.reverse_reverse]
    · rw [List.getLast?_reverse]
      intro hc
      have hd := List.head?_dropWhile_not (· = '\\') s.reverse
      rw [hc] at hd
      simp at hd

instance : DecidablePred EndsOdd := fun _ => decidable_of_iff _ endsOdd_iff.symm

theorem continued?_of_endsOdd {s : List Char} (h : EndsOdd s) :
    continued? s = some (trimEnd s.dropLast) := if_pos (endsOdd_iff.1 h)

theorem continued?_of_not_endsOdd {s : List Char} (h : ¬ EndsOdd s) : continued? s = none :=
  if_neg (endsOdd_iff.not.1 h)

theorem endsOdd_append {p : List Char} {x : Char} (hp : p.getLast? = some x) (hx : x ≠ '\\')
    (s : List Char) : EndsOdd (p ++ s) ↔ EndsOdd s := by
  obtain ⟨q, rfl⟩ : ∃ q, p = q ++ [x] := List.getLast?_eq_some_iff.1 hp
  rw [endsOdd_iff, endsOdd_iff, List.reverse_append, List.takeWhile_append]
  split
  · rename_i hall
    rw [List.reverse_append, List.reverse_singleton, List.singleton_append,
      List.takeWhile_cons_of_neg (by simpa using hx), List.append_nil]
    simp [hall]
  · rfl

theorem endsOdd_blanks_append {p : List Char} (hp : ∀ c ∈ p, isBlank c = true) (s : List Char) :
    EndsOdd (p ++ s) ↔ EndsOdd s := by
  cases hlast : p.getLast? with
  | none => rw [List.getLast?_eq_none_iff.1 hlast, List.nil_append]
  | some c =>
    refine endsOdd_append hlast ?_ s
    rintro rfl
    exact absurd (hp _ (List.mem_of_getLast? hlast)) (by decide)

/-- Trimming a text that ends in no blank leaves the backslashes at its end. -/
theorem endsOdd_trim {s : List Char} (h : ∀ c, s.getLast? = some c → isBlank c = false) :
    EndsOdd (trim s) ↔ EndsOdd s := by
  rw [← endsOdd_blanks_append (fun _ hc => List.mem_takeWhile_imp hc) (trim s),
    blanks_append_trim h]

/-- One more backslash makes an even number odd. -/
theorem endsOdd_concat {s : List Char} : EndsOdd (s ++ ['\\']) ↔ ¬ EndsOdd s := by
  rw [endsOdd_iff, endsOdd_iff, List.reverse_concat, List.takeWhile_cons_of_pos (by decide),
    List.length_cons]
  omega

/-- The backslashes at the end of an assignment are those at the end of its value. -/
theorem IsProperty.endsOdd_iff {raw key value : List Char}
    (h : IsProperty (trim raw) key value) : EndsOdd (trim raw) ↔ EndsOdd (trim value) := by
  have hlast : ∀ c, value.getLast? = some c → isBlank c = false := fun c hc => by
    refine isBlank_getLast_trimEnd (s := trimStart raw) ?_
    rw [← trim, h.eq_append, List.getLast?_append, List.getLast?_cons, hc]
    rfl
  have hline : trim raw = (key ++ ['=']) ++ value := by rw [h.eq_append, List.append_cons]
  rw [hline, endsOdd_append List.getLast?_concat (by decide), endsOdd_trim hlast]

end ServiceUnits.Line
