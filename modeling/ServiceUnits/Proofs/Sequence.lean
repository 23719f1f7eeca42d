import Mathlib.Data.List.Forall2
import Mathlib.Data.List.Induction

namespace ServiceUnits

section

variable {α : Type} [BEq α]

/-- The elements of `all`, each once, in the order of their first places. -/
structure FirstPlaces (all firsts : List α) : Prop where
  mem_iff : ∀ x, x ∈ firsts ↔ x ∈ all
  ordered : firsts.Pairwise fun x y => all.idxOf x < all.idxOf y

theorem FirstPlaces.nodup {all firsts : List α} (h : FirstPlaces all firsts) : firsts.Nodup := by
  refine h.ordered.imp fun hlt e => ?_
  rw [e] at hlt
  exact Nat.lt_irrefl _ hlt

/-- The first places leave one order for the elements. -/
theorem FirstPlaces.unique {all firsts others : List α} (h : FirstPlaces all firsts)
    (ho : FirstPlaces all others) : firsts = others := by
  refine List.Perm.eq_of_pairwise ?_ h.ordered ho.ordered ?_
  · exact fun _ _ _ _ hlt hgt => absurd hgt (Nat.lt_asymm hlt)
  · exact (List.perm_ext_iff_of_nodup h.nodup ho.nodup).2 fun x =>
      (h.mem_iff x).trans (ho.mem_iff x).symm

variable [LawfulBEq α]

theorem FirstPlaces.of_nodup {xs : List α} (h : xs.Nodup) : FirstPlaces xs xs := by
  refine ⟨fun _ => Iff.rfl, List.pairwise_iff_getElem.2 fun i j hi hj hij => ?_⟩
  rwa [h.idxOf_getElem, h.idxOf_getElem]

/-- One more element at the end is left out if it has been met before. -/
theorem eraseDups_concat (xs : List α) (x : α) :
    (xs ++ [x]).eraseDups = if x ∈ xs then xs.eraseDups else xs.eraseDups ++ [x] := by
  have hone : [x].eraseDups = [x] := by simp [List.eraseDups_cons]
  rw [List.eraseDups_append, List.removeAll]
  by_cases hx : x ∈ xs <;> simp [hx, hone]

theorem firstPlaces_eraseDups (xs : List α) : FirstPlaces xs xs.eraseDups := by
  refine ⟨fun x => List.mem_eraseDups, ?_⟩
  induction xs using List.reverseRecOn with
  | nil => exact .nil
  | append_singleton xs x ih =>
    -- The elements that are there already keep their first places.
    have hold : xs.eraseDups.Pairwise fun a b => (xs ++ [x]).idxOf a < (xs ++ [x]).idxOf b := by
      refine ih.imp_of_mem fun {a b} ha hb hlt => ?_
      rwa [List.idxOf_append, List.idxOf_append, if_pos (List.mem_eraseDups.1 ha),
        if_pos (List.mem_eraseDups.1 hb)]
    rw [eraseDups_concat]
    split
    · exact hold
    · rename_i hx
      refine List.pairwise_append.2 ⟨hold, List.pairwise_singleton _ _, fun a ha b hb => ?_⟩
      obtain rfl := List.mem_singleton.1 hb
      have hin := List.mem_eraseDups.1 ha
      rw [List.idxOf_append, List.idxOf_append, if_pos hin, if_neg hx]
      exact Nat.lt_add_left _ (List.idxOf_lt_length_of_mem hin)

/-- What elements give is the same without their repetitions, apart from repetitions in it. -/
theorem eraseDups_append_filterMap_eraseDups {β : Type} [BEq β] [LawfulBEq β] (ys : List α)
    (f : β → Option α) (xs : List β) :
    (ys ++ xs.eraseDups.filterMap f).eraseDups = (ys ++ xs.filterMap f).eraseDups := by
  induction xs using List.reverseRecOn with
  | nil => rfl
  | append_singleton xs x ih =>
    have hmem : ∀ y, y ∈ ys ++ xs.eraseDups.filterMap f ↔ y ∈ ys ++ xs.filterMap f := by
      simp [List.mem_eraseDups]
    rw [eraseDups_concat, List.filterMap_append]
    cases hx : f x with
    | none =>
      have hnone : [x].filterMap f = [] := by simp [hx]
      rw [hnone, List.append_nil]
      split
      · exact ih
      · rw [List.filterMap_append, hnone, List.append_nil]
        exact ih
    | some y =>
      have hsome : [x].filterMap f = [y] := by simp [hx]
      rw [hsome, ← List.append_assoc, eraseDups_concat]
      split
      · rename_i hin
        have hy : y ∈ ys ++ xs.filterMap f :=
          List.mem_append_right _ (List.mem_filterMap.2 ⟨x, hin, hx⟩)
        rw [if_pos hy]
        exact ih
      · rw [List.filterMap_append, hsome, ← List.append_assoc, eraseDups_concat, ih]
        simp only [hmem]

end

/-- What items give one by one, in their order. An item that gives something gives one thing, and
any other is passed over. -/
inductive GivenBy {α β : Type} (gives : α → β → Prop) : List α → List β → Prop
  | nil : GivenBy gives [] []
  | gives {a : α} {b : β} {as : List α} {bs : List β} (h : gives a b) (rest : GivenBy gives as bs) :
      GivenBy gives (a :: as) (b :: bs)
  | passed {a : α} {as : List α} {bs : List β} (h : ∀ b, ¬ gives a b)
      (rest : GivenBy gives as bs) : GivenBy gives (a :: as) bs

theorem givenBy_iff {α β : Type} {gives : α → β → Prop} {f : α → Option β} {as : List α}
    (h : ∀ a ∈ as, ∀ b, gives a b ↔ f a = some b) {bs : List β} :
    GivenBy gives as bs ↔ bs = as.filterMap f := by
  induction as generalizing bs with
  | nil =>
    constructor
    · intro hg
      cases hg
      rfl
    · rintro rfl
      exact .nil
  | cons a as ih =>
    have ih := @ih fun x hx => h x (List.mem_cons_of_mem a hx)
    have ha := h a List.mem_cons_self
    cases hf : f a with
    | none =>
      have hno : ∀ b, ¬ gives a b := fun b hb => by simp [(ha b).1 hb] at hf
      rw [List.filterMap_cons_none hf]
      constructor
      · intro hg
        cases hg with
        | gives hb => exact absurd hb (hno _)
        | passed _ rest => exact ih.1 rest
      · intro hbs
        exact .passed hno (ih.2 hbs)
    | some b =>
      rw [List.filterMap_cons_some hf]
      constructor
      · intro hg
        cases hg with
        | gives hb rest =>
          obtain rfl := Option.some.inj (((ha _).1 hb).symm.trans hf)
          rw [ih.1 rest]
        | passed hno => exact absurd ((ha b).2 hf) (hno b)
      · rintro rfl
        exact .gives ((ha b).2 hf) (ih.2 rfl)

theorem forall₂_iff_eq_map {α β : Type} {r : α → β → Prop} {f : α → β}
    (h : ∀ a b, r a b ↔ b = f a) {as : List α} {bs : List β} :
    List.Forall₂ r as bs ↔ bs = as.map f := by
  have hr : r = fun a b => f a = b := by
    funext a b
    exact propext ((h a b).trans eq_comm)
  rw [hr, ← List.forall₂_map_left_iff, List.forall₂_eq_eq_eq]
  exact eq_comm

end ServiceUnits
