import ServiceUnits.Proofs.Path.Climb

namespace ServiceUnits.Path

open Text

/-- A piece that goes down to a name. -/
def isName (piece : List Char) : Bool := !isIdle piece && piece ≠ ['.', '.']

theorem isName_iff {piece : List Char} :
    isName piece = true ↔ isIdle piece = false ∧ piece ≠ ['.', '.'] := by
  simp [isName]

/-- Where pieces of a path lead: so many levels above their start, and down from there by names. -/
@[ext] structure Descent where
  climbed : Nat
  names : List (List Char)
  areNames : ∀ name ∈ names, isName name = true
deriving DecidableEq

namespace Descent

def start : Descent := ⟨0, [], fun _ h => absurd h List.not_mem_nil⟩

/-- One more piece. Two dots cancel the last name; without a name to cancel they climb. -/
def follow (d : Descent) (piece : List Char) : Descent :=
  if h : isName piece = true then
    ⟨d.climbed, d.names ++ [piece], List.forall_mem_append.2 ⟨d.areNames, by simpa using h⟩⟩
  else if piece = ['.', '.'] then
    if d.names = [] then { d with climbed := d.climbed + 1 }
    else ⟨d.climbed, d.names.dropLast, fun n hn => d.areNames n (List.dropLast_subset _ hn)⟩
  else d

def ofPieces (ps : List (List Char)) : Descent := ps.foldl follow start

/-- The same way in as few pieces as there can be. -/
def steps (d : Descent) : List (List Char) := List.replicate d.climbed ['.', '.'] ++ d.names

variable {d : Descent} {piece : List Char} {ps : List (List Char)}

theorem follow_idle (h : isIdle piece = true) : d.follow piece = d := by
  have hup : piece ≠ ['.', '.'] := by
    rintro rfl
    cases h
  rw [follow, dif_neg (by simp [isName, h]), if_neg hup]

theorem follow_name (h : isName piece = true) :
    (d.follow piece).climbed = d.climbed ∧ (d.follow piece).names = d.names ++ [piece] := by
  rw [follow, dif_pos h]
  exact ⟨rfl, rfl⟩

theorem follow_climb (h : d.names = []) : (d.follow ['.', '.']).climbed = d.climbed + 1 ∧
    (d.follow ['.', '.']).names = [] := by
  rw [follow, dif_neg (by decide), if_pos rfl, if_pos h]
  exact ⟨rfl, h⟩

theorem follow_cancel (h : d.names ≠ []) : (d.follow ['.', '.']).climbed = d.climbed ∧
    (d.follow ['.', '.']).names = d.names.dropLast := by
  rw [follow, dif_neg (by decide), if_pos rfl, if_neg h]
  exact ⟨rfl, rfl⟩

/-- A piece is passed over, goes down, cancels a name or climbs. -/
theorem forms (d : Descent) (piece : List Char) : isIdle piece = true ∨ isName piece = true ∨
    piece = ['.', '.'] ∧ (d.names ≠ [] ∨ d.names = []) := by
  by_cases hup : piece = ['.', '.']
  · exact .inr (.inr ⟨hup, (em (d.names = [])).symm⟩)
  · cases hi : isIdle piece with
    | true => exact .inl rfl
    | false => exact .inr (.inl (isName_iff.2 ⟨hi, hup⟩))

theorem climbed_le_follow (d : Descent) (piece : List Char) :
    d.climbed ≤ (d.follow piece).climbed := by
  rcases d.forms piece with h | h | ⟨rfl, h | h⟩
  · rw [follow_idle h]
  · rw [(follow_name h).1]
  · rw [(follow_cancel h).1]
  · rw [(follow_climb h).1]
    exact Nat.le_succ _

theorem ofPieces_concat (ps : List (List Char)) (p : List Char) :
    ofPieces (ps ++ [p]) = (ofPieces ps).follow p := by
  simp [ofPieces, List.foldl_append]

/-- The names that are left stand among the pieces. -/
theorem mem_of_mem_names_ofPieces {name : List Char} (h : name ∈ (ofPieces ps).names) :
    name ∈ ps := by
  induction ps using List.reverseRecOn with
  | nil => exact h
  | append_singleton ps p ih =>
    rw [ofPieces_concat] at h
    rw [List.mem_append]
    rcases (ofPieces ps).forms p with hi | hn | ⟨rfl, hne | hnil⟩
    · rw [follow_idle hi] at h
      exact .inl (ih h)
    · rw [(follow_name hn).2] at h
      exact (List.mem_append.1 h).imp_left ih
    · rw [(follow_cancel hne).2] at h
      exact .inl (ih (List.dropLast_subset _ h))
    · rw [(follow_climb hnil).2] at h
      exact absurd h List.not_mem_nil

theorem ofPieces_filter (ps : List (List Char)) :
    ofPieces (ps.filter fun piece => !isIdle piece) = ofPieces ps := by
  rw [ofPieces, List.foldl_filter, ofPieces]
  congr
  funext d piece
  cases h : isIdle piece with
  | true => exact (follow_idle h).symm
  | false => rfl

theorem steps_of_no_names (h : d.names = []) : d.steps = List.replicate d.climbed ['.', '.'] := by
  rw [steps, h, List.append_nil]

theorem foldl_follow_names (h : ∀ p ∈ ps, isName p = true) (d : Descent) :
    (ps.foldl follow d).climbed = d.climbed ∧ (ps.foldl follow d).names = d.names ++ ps := by
  induction ps generalizing d with
  | nil => exact ⟨rfl, (List.append_nil _).symm⟩
  | cons p ps ih =>
    rw [List.forall_mem_cons] at h
    obtain ⟨hclimbed, hnames⟩ := follow_name (d := d) h.1
    obtain ⟨hclimbed', hnames'⟩ := ih h.2 (d.follow p)
    rw [List.foldl_cons]
    exact ⟨hclimbed'.trans hclimbed, by rw [hnames', hnames, List.append_assoc]; rfl⟩

theorem ofPieces_ups (n : Nat) :
    (ofPieces (List.replicate n ['.', '.'])).climbed = n ∧
      (ofPieces (List.replicate n ['.', '.'])).names = [] := by
  induction n with
  | zero => exact ⟨rfl, rfl⟩
  | succ n ih =>
    obtain ⟨hclimbed, hnames⟩ := follow_climb ih.2
    rw [List.replicate_succ', ofPieces_concat]
    exact ⟨by rw [hclimbed, ih.1], hnames⟩

theorem ofPieces_steps (d : Descent) : ofPieces d.steps = d := by
  obtain ⟨hclimbed, hnames⟩ := ofPieces_ups d.climbed
  obtain ⟨hclimbed', hnames'⟩ :=
    foldl_follow_names d.areNames (ofPieces (List.replicate d.climbed ['.', '.']))
  rw [ofPieces, steps, List.foldl_append]
  refine Descent.ext (hclimbed'.trans hclimbed) ?_
  rw [← ofPieces, hnames', hnames, List.nil_append]

/-- Pieces that are not idle, with no name before two dots, are the steps of a way. -/
theorem exists_steps_eq (hidle : ∀ p ∈ ps, isIdle p = false)
    (hups : ps.Pairwise fun a b => b = ['.', '.'] → a = ['.', '.']) :
    ∃ d : Descent, d.steps = ps := by
  induction ps with
  | nil => exact ⟨start, rfl⟩
  | cons p ps ih =>
    rw [List.forall_mem_cons] at hidle
    rw [List.pairwise_cons] at hups
    by_cases hp : p = ['.', '.']
    · obtain ⟨d, rfl⟩ := ih hidle.2 hups.2
      exact ⟨{ d with climbed := d.climbed + 1 }, by rw [hp]; rfl⟩
    · have hall : ∀ q ∈ p :: ps, isName q = true := by
        intro q hq
        rcases List.mem_cons.1 hq with rfl | hq
        · exact isName_iff.2 ⟨hidle.1, hp⟩
        · exact isName_iff.2 ⟨hidle.2 q hq, fun hup => hp (hups.1 q hq hup)⟩
      exact ⟨⟨0, p :: ps, hall⟩, rfl⟩

theorem isIdle_of_mem_steps (h : piece ∈ d.steps) : isIdle piece = false := by
  rcases List.mem_append.1 h with h | h
  · rw [List.eq_of_mem_replicate h]
    rfl
  · exact (isName_iff.1 (d.areNames piece h)).1

theorem pairwise_steps (d : Descent) :
    d.steps.Pairwise fun a b => b = ['.', '.'] → a = ['.', '.'] := by
  refine List.pairwise_append.2 ⟨?_, ?_, ?_⟩
  · exact List.pairwise_replicate.2 (.inr fun _ => rfl)
  · refine List.pairwise_iff_forall_sublist.2 fun {a b} hab hb => ?_
    exact absurd hb (isName_iff.1 (d.areNames b (hab.subset (by simp)))).2
  · exact fun a ha b hb _ => List.eq_of_mem_replicate ha

end Descent

open Descent

/-- The stack of steps is the shortest way to where the pieces lead. From the root there is none if
they climb. -/
theorem takeStep_steps {absolute : Bool} {d : Descent} (h : absolute = true → d.climbed = 0)
    (piece : List Char) : takeStep absolute d.steps.reverse piece =
      if absolute = true ∧ 0 < (d.follow piece).climbed then none
      else some (d.follow piece).steps.reverse := by
  have below {n : Nat} (hn : n = d.climbed) : ¬ (absolute = true ∧ 0 < n) := by
    rintro ⟨ha, hpos⟩
    rw [hn, h ha] at hpos
    exact Nat.lt_irrefl 0 hpos
  rcases d.forms piece with hi | hn | ⟨rfl, hne | hnil⟩
  · rw [takeStep_idle hi, follow_idle hi, if_neg (below rfl)]
  · obtain ⟨hclimbed, hnames⟩ := follow_name (d := d) hn
    obtain ⟨hi, hup⟩ := isName_iff.1 hn
    have hsteps : (d.follow piece).steps = d.steps ++ [piece] := by
      rw [steps, hclimbed, hnames, ← List.append_assoc, ← steps]
    rw [if_neg (below hclimbed), hsteps, List.reverse_concat, takeStep.eq_def,
      if_neg (by simp [hi]), if_neg hup]
  · obtain ⟨hclimbed, hnames⟩ := follow_cancel hne
    have hlast : d.names.getLast hne ≠ ['.', '.'] :=
      (isName_iff.1 (d.areNames _ (List.getLast_mem hne))).2
    have hsteps : d.steps.reverse =
        d.names.getLast hne :: (d.follow ['.', '.']).steps.reverse := by
      rw [steps, steps, hclimbed, hnames, ← List.reverse_concat, List.append_assoc,
        List.dropLast_concat_getLast hne]
    rw [if_neg (below hclimbed), hsteps, takeStep, if_neg (by decide), if_pos rfl, if_pos hlast]
  · obtain ⟨hclimbed, hnames⟩ := follow_climb hnil
    rw [steps_of_no_names hnil, steps_of_no_names hnames, hclimbed, List.reverse_replicate,
      List.reverse_replicate]
    cases absolute with
    | true =>
      rw [h rfl]
      rfl
    | false =>
      cases d.climbed with
      | zero => rfl
      | succ n => rfl

theorem takeSteps_eq (absolute : Bool) (ps : List (List Char)) : takeSteps absolute ps =
    if absolute = true ∧ 0 < (ofPieces ps).climbed then none
    else some (ofPieces ps).steps.reverse := by
  induction ps using List.reverseRecOn with
  | nil => cases absolute <;> rfl
  | append_singleton ps p ih =>
    rw [takeSteps_concat, ih, ofPieces_concat]
    by_cases hroot : absolute = true ∧ 0 < (ofPieces ps).climbed
    · have hmore := hroot.2.trans_le ((ofPieces ps).climbed_le_follow p)
      rw [if_pos hroot, if_pos ⟨hroot.1, hmore⟩]
      rfl
    · rw [if_neg hroot]
      exact takeStep_steps (fun ha => Nat.eq_zero_of_not_pos fun hpos => hroot ⟨ha, hpos⟩) p

end ServiceUnits.Path
