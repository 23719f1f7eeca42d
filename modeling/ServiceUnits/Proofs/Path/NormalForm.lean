import ServiceUnits.Proofs.Path.Descent

namespace ServiceUnits.Path

open Text Descent

/-- Where a path leads by its text, each name taken for a directory that is no link. -/
def descent (s : String) : Descent := ofPieces (pieces slash s.toList)

/-- The paths have the same start, and lead to the same place from there. -/
structure SameMeaning (p q : String) : Prop where
  start : p.toList.head? = some '/' ↔ q.toList.head? = some '/'
  place : descent p = descent q

/-- The text of a path without idle pieces and, but for two dots in front of a relative path,
without two dots. What leads nowhere else is a slash or a dot. -/
inductive IsNormal : String → Prop
  | root : IsNormal "/"
  | absolute {below : List Char} (h : ∀ piece ∈ pieces slash below, isName piece = true) :
      IsNormal (.ofList ('/' :: below))
  | here : IsNormal "."
  | relative {q : String} (hidle : ∀ piece ∈ pieces slash q.toList, isIdle piece = false)
      (hups : (pieces slash q.toList).Pairwise fun a b => b = ['.', '.'] → a = ['.', '.']) :
      IsNormal q

variable {p q : String}

theorem simplify?_eq (p : String) : simplify? p =
    if p.toList.head? = some '/' ∧ 0 < (descent p).climbed then none
    else some (.ofList (render (p.toList.head? = some '/') (descent p).steps)) := by
  rw [simplify?, takeSteps_eq, ← descent]
  simp only [decide_eq_true_eq]
  split
  · rfl
  · rw [Option.map_some, List.reverse_reverse]

theorem SameMeaning.simplify?_eq (h : SameMeaning p q) : simplify? p = simplify? q := by
  rw [Path.simplify?_eq, Path.simplify?_eq q, h.place]
  simp only [h.start]

theorem descent_eq_ofPieces_names (p : String) : descent p = ofPieces (names p) :=
  (ofPieces_filter _).symm

theorem sameMeaning_of_simplify? (h : simplify? p = some q) : SameMeaning p q := by
  obtain ⟨taken, htaken, hnames, hstart⟩ := simplify?_spec h
  refine ⟨hstart.symm, ?_⟩
  rw [takeSteps_eq] at htaken
  split at htaken
  · cases htaken
  · rw [descent_eq_ofPieces_names q, hnames, ← Option.some.inj htaken, List.reverse_reverse,
      ofPieces_steps, ← descent_eq_ofPieces_names]

theorem join_pieces_slash (s : List Char) : Text.join '/' (pieces slash s) = s := join_pieces '/' s

theorem no_slash_of_mem_steps {piece : List Char} (h : piece ∈ (descent p).steps) :
    ∀ c ∈ piece, slash c = false := by
  rcases List.mem_append.1 h with h | h
  · rw [List.eq_of_mem_replicate h]
    simp [slash]
  · exact not_sep_of_mem_pieces (mem_of_mem_names_ofPieces h)

section

variable {d : Descent} (hsep : ∀ piece ∈ d.steps, ∀ c ∈ piece, slash c = false)
include hsep

theorem isNormal_render_absolute (hstart : d.climbed = 0) :
    IsNormal (.ofList (render true d.steps)) := by
  have hsteps : d.steps = d.names := by
    rw [steps, hstart]
    rfl
  rw [render, if_pos rfl]
  by_cases hnil : d.steps = []
  · rw [hnil]
    exact .root
  · refine .absolute fun piece hpiece => d.areNames piece ?_
    rwa [pieces_join (by decide) hnil hsep, hsteps] at hpiece

theorem isNormal_render_relative : IsNormal (.ofList (render false d.steps)) := by
  rw [render, if_neg Bool.false_ne_true]
  split
  · exact .here
  · rename_i hne
    have hpieces : pieces slash (String.ofList (Text.join '/' d.steps)).toList = d.steps := by
      rw [String.toList_ofList, pieces_join (by decide) hne hsep]
    refine .relative ?_ ?_
    · rw [hpieces]
      exact fun piece hpiece => isIdle_of_mem_steps hpiece
    · rw [hpieces]
      exact d.pairwise_steps

end

theorem isNormal_of_simplify? (h : simplify? p = some q) : IsNormal q := by
  have hsep : ∀ piece ∈ (descent p).steps, ∀ c ∈ piece, slash c = false :=
    fun _ hpiece => no_slash_of_mem_steps hpiece
  rw [simplify?_eq] at h
  split at h
  · cases h
  · rename_i hroot
    obtain rfl := Option.some.inj h
    by_cases habs : p.toList.head? = some '/'
    · rw [decide_eq_true habs]
      refine isNormal_render_absolute hsep (Nat.eq_zero_of_not_pos fun hpos => ?_)
      exact hroot ⟨habs, hpos⟩
    · rw [decide_eq_false habs]
      exact isNormal_render_relative hsep

theorem descent_absolute {below : List Char}
    (h : ∀ piece ∈ pieces slash below, isName piece = true) :
    (descent (.ofList ('/' :: below))).climbed = 0 ∧
      (descent (.ofList ('/' :: below))).names = pieces slash below := by
  have hpieces : pieces slash ('/' :: below) = [] :: pieces slash below := rfl
  rw [descent, String.toList_ofList, hpieces, ofPieces, List.foldl_cons, follow_idle rfl]
  exact foldl_follow_names h Descent.start

/-- A text in normal form is its own normal form. -/
theorem IsNormal.simplify?_eq (h : IsNormal q) : simplify? q = some q := by
  cases h with
  | root => rfl
  | here => rfl
  | @absolute below h =>
    obtain ⟨hclimbed, hnames⟩ := descent_absolute h
    have hsteps : (descent (.ofList ('/' :: below))).steps = pieces slash below := by
      rw [steps, hclimbed, hnames]
      rfl
    have hstart : ¬ 0 < (descent (.ofList ('/' :: below))).climbed := by
      rw [hclimbed]
      exact Nat.lt_irrefl 0
    rw [Path.simplify?_eq, if_neg fun h => hstart h.2, hsteps, render, if_pos (by simp),
      join_pieces_slash]
  | relative hidle hups =>
    obtain ⟨d, hd⟩ := exists_steps_eq hidle hups
    have hdescent : descent q = d := by rw [descent, ← hd, ofPieces_steps]
    have hrel : q.toList.head? ≠ some '/' := by
      refine not_isAbsolute_of_pieces fun rest hrest => ?_
      exact absurd (hidle [] (hrest ▸ List.mem_cons_self)) (by decide)
    rw [Path.simplify?_eq, if_neg fun h => hrel h.1, hdescent, hd, render,
      if_neg (by simpa using hrel), if_neg (pieces_ne_nil _ _), join_pieces_slash,
      String.ofList_toList]

/-- A path has no normal form exactly if it starts at the root and goes up more often than down
somewhere on the way. Otherwise its normal form is the one text in normal form with the same
meaning. So paths with the same meaning have the same normal form, which is its own. -/
theorem simplify?_is_normal_form (p : String) :
    (simplify? p = none ↔ ClimbsAboveRoot p) ∧
    (∀ q, simplify? p = some q ↔ IsNormal q ∧ SameMeaning p q) ∧
    (∀ q, SameMeaning p q → simplify? p = simplify? q) ∧
    ∀ q, simplify? p = some q → simplify? q = some q := by
  refine ⟨simplify?_eq_none_iff, fun q => ⟨fun h => ?_, fun h => ?_⟩, fun q h => h.simplify?_eq,
    fun q h => (isNormal_of_simplify? h).simplify?_eq⟩
  · exact ⟨isNormal_of_simplify? h, sameMeaning_of_simplify? h⟩
  · obtain ⟨hnormal, hmeaning⟩ := h
    exact hmeaning.simplify?_eq.trans hnormal.simplify?_eq

/-- It climbs, cancels names and has pieces to pass over. -/
def crooked : String := "a/..//../b/./c/"

theorem crooked_normal_form : simplify? crooked = some "../b/c" ∧ IsNormal "../b/c" ∧
    simplify? "../b/c" = some "../b/c" ∧ SameMeaning crooked "x/../../b/y/../c" ∧
    simplify? "x/../../b/y/../c" = some "../b/c" := by
  have hcrooked : simplify? crooked = some "../b/c" := by decide
  have hmeaning : SameMeaning crooked "x/../../b/y/../c" := ⟨by decide, by decide⟩
  obtain ⟨-, hiff, hsame, hagain⟩ := simplify?_is_normal_form crooked
  refine ⟨hcrooked, ((hiff _).1 hcrooked).1, hagain _ hcrooked, hmeaning, ?_⟩
  exact (hsame _ hmeaning).symm.trans hcrooked

theorem IsNormal.ne_empty (h : IsNormal q) : q ≠ "" := by
  cases h with
  | root | here => decide
  | absolute => simp
  | relative hidle =>
    rintro rfl
    exact absurd (hidle [] List.mem_cons_self) (by decide)

theorem head?_beneath (h : p ≠ "") (b : String) :
    (p ++ "/" ++ b).toList.head? = p.toList.head? := by
  obtain ⟨c, cs, hp⟩ := List.exists_cons_of_ne_nil (mt String.toList_eq_nil_iff.1 h)
  simp [hp]

/-- What leads to the same place leads on to the same place. -/
theorem SameMeaning.beneath (h : SameMeaning p q) (hp : p ≠ "") (hq : q ≠ "") (b : String) :
    SameMeaning (p ++ "/" ++ b) (q ++ "/" ++ b) := by
  have hplace (s : String) : descent (s ++ "/" ++ b) =
      (pieces slash b.toList).foldl follow (descent s) := by
    rw [descent, pieces_beneath, ofPieces, List.foldl_append]
    rfl
  refine ⟨?_, by rw [hplace, hplace, h.place]⟩
  rw [head?_beneath hp, head?_beneath hq]
  exact h.start

theorem ClimbsAboveRoot.beneath (h : ClimbsAboveRoot p) (b : String) :
    ClimbsAboveRoot (p ++ "/" ++ b) := by
  obtain ⟨hstart, front, hfront, hlt⟩ := h
  have hp : p ≠ "" := by
    rintro rfl
    cases hstart
  refine ⟨by rw [head?_beneath hp, hstart], front, ?_, hlt⟩
  rw [pieces_beneath]
  exact hfront.trans (List.prefix_append _ _)

/-- Beneath a path that is not empty, a path has the normal form that it has beneath the normal form
of the first. If the first has none, it has none either. -/
theorem simplify?_beneath {a : String} (ha : a ≠ "") (b : String) :
    (∀ a', simplify? a = some a' → simplify? (a ++ "/" ++ b) = simplify? (a' ++ "/" ++ b)) ∧
      (simplify? a = none → simplify? (a ++ "/" ++ b) = none) := by
  constructor
  · intro a' h
    have hne : a' ≠ "" := (isNormal_of_simplify? h).ne_empty
    exact ((sameMeaning_of_simplify? h).beneath ha hne b).simplify?_eq
  · intro h
    have hclimbs : ClimbsAboveRoot a := simplify?_eq_none_iff.1 h
    exact simplify?_eq_none_iff.2 (hclimbs.beneath b)

theorem crooked_beneath : crooked ≠ "" ∧ simplify? crooked = some "../b/c" ∧
    simplify? (crooked ++ "/" ++ "/../../../d") = simplify? ("../b/c" ++ "/" ++ "/../../../d") ∧
    simplify? "/a/../.." = none ∧ simplify? ("/a/../.." ++ "/" ++ "b") = none := by
  have hne : crooked ≠ "" := by decide
  have hcrooked : simplify? crooked = some "../b/c" := by decide
  have hnone : simplify? "/a/../.." = none := by decide
  exact ⟨hne, hcrooked, (simplify?_beneath hne _).1 _ hcrooked, hnone,
    (simplify?_beneath (by decide) _).2 hnone⟩

/-- The empty path is the place itself, but beneath it a path would start at the root. -/
example : simplify? "" = some "." ∧
    simplify? ("" ++ "/" ++ "a") ≠ simplify? ("." ++ "/" ++ "a") := by
  decide

end ServiceUnits.Path
