namespace ServiceUnits

/-- A finite map from texts. The entries stand in ascending order of their keys, so equal maps are
equal values. -/
structure Dict (α : Type) where
  entries : List (String × α)
  sorted : entries.Pairwise (·.1 < ·.1)
deriving DecidableEq

namespace Dict

variable {α : Type}

def empty : Dict α := ⟨[], .nil⟩

instance : Inhabited (Dict α) := ⟨empty⟩

def isEmpty (d : Dict α) : Bool := d.entries.isEmpty

def keys (d : Dict α) : List String := d.entries.map (·.1)

def find? (d : Dict α) (key : String) : Option α := d.entries.lookup key

/-- The entries with the one of `key` computed anew, in its place by the order. -/
def alterEntries (key : String) (f : Option α → α) : List (String × α) → List (String × α)
  | [] => [(key, f none)]
  | (k, v) :: rest =>
    if key < k then (key, f none) :: (k, v) :: rest
    else if key = k then (k, f (some v)) :: rest
    else (k, v) :: alterEntries key f rest

theorem key_of_mem_alterEntries {key : String} {f : Option α → α} {es : List (String × α)}
    {e : String × α} (h : e ∈ alterEntries key f es) : e.1 = key ∨ ∃ x ∈ es, x.1 = e.1 := by
  induction es with
  | nil => simp_all [alterEntries]
  | cons x es ih =>
    rw [alterEntries] at h
    split at h
    · grind
    · split at h <;> grind

private theorem lt_of_not_lt_of_ne {a b : String} (h : ¬ a < b) (hne : a ≠ b) : b < a := by
  rcases Decidable.em (b < a) with h' | h'
  · exact h'
  · exact absurd (String.le_antisymm (String.not_lt.1 h') (String.not_lt.1 h)) hne

theorem sorted_alterEntries (key : String) (f : Option α → α) {es : List (String × α)}
    (h : es.Pairwise (·.1 < ·.1)) : (alterEntries key f es).Pairwise (·.1 < ·.1) := by
  induction es with
  | nil => simp [alterEntries]
  | cons x es ih =>
    obtain ⟨hx, hes⟩ := List.pairwise_cons.1 h
    rw [alterEntries]
    split
    · rename_i hk
      refine List.pairwise_cons.2 ⟨?_, h⟩
      intro e he
      rcases List.mem_cons.1 he with rfl | he
      · exact hk
      · exact String.lt_trans hk (hx e he)
    · split
      · exact List.pairwise_cons.2 ⟨hx, hes⟩
      · rename_i hk hne
        refine List.pairwise_cons.2 ⟨?_, ih hes⟩
        intro e he
        rcases key_of_mem_alterEntries he with rfl | ⟨y, hy, hye⟩
        · exact lt_of_not_lt_of_ne hk hne
        · exact hye ▸ hx y hy

/-- The map with the value of `key` computed anew from the one it has, if it has one. -/
def alter (d : Dict α) (key : String) (f : Option α → α) : Dict α :=
  ⟨alterEntries key f d.entries, sorted_alterEntries key f d.sorted⟩

def insert (d : Dict α) (key : String) (value : α) : Dict α := d.alter key fun _ => value

/-- A value that is there already stays. -/
def insertNew (d : Dict α) (key : String) (value : α) : Dict α := d.alter key (·.getD value)

/-- Later entries replace earlier ones of the same key. -/
def ofList (es : List (String × α)) : Dict α := es.foldl (fun d e => d.insert e.1 e.2) empty

@[simp] theorem find?_empty (key : String) : (empty : Dict α).find? key = none := rfl

theorem lookup_cons (k : String) (x : String × α) (es : List (String × α)) :
    (x :: es).lookup k = if k = x.1 then some x.2 else es.lookup k := by
  rw [List.lookup_cons]
  by_cases h : k = x.1
  · rw [beq_iff_eq.2 h, if_pos h]
  · rw [beq_eq_false_iff_ne.2 h, if_neg h]

theorem lookup_eq_none {key : String} {es : List (String × α)} (h : ∀ e ∈ es, key < e.1) :
    es.lookup key = none := by
  induction es with
  | nil => rfl
  | cons e es ih =>
    rw [lookup_cons, if_neg (String.ne_of_lt (h e List.mem_cons_self))]
    exact ih fun x hx => h x (List.mem_cons_of_mem _ hx)

theorem lookup_alterEntries (key : String) (f : Option α → α) {es : List (String × α)}
    (h : es.Pairwise (·.1 < ·.1)) (k : String) :
    (alterEntries key f es).lookup k =
      if k = key then some (f (es.lookup key)) else es.lookup k := by
  induction es with
  | nil => rw [alterEntries, lookup_cons]; rfl
  | cons x es ih =>
    obtain ⟨x, v⟩ := x
    obtain ⟨hx, hes⟩ := List.pairwise_cons.1 h
    rw [alterEntries]
    split
    · rename_i hk
      have hnone : ((x, v) :: es).lookup key = none := lookup_eq_none fun e he => by
        rcases List.mem_cons.1 he with rfl | he
        · exact hk
        · exact String.lt_trans hk (hx e he)
      rw [hnone, lookup_cons]
    · split
      · rename_i he
        simp only [lookup_cons, he, if_true]
        split <;> rfl
      · rename_i hlt hne
        simp only [lookup_cons, ih hes, if_neg hne]
        by_cases hk : k = x
        · rw [if_pos hk, if_neg (fun e : k = key => hne (e.symm.trans hk)), if_pos hk]
        · rw [if_neg hk, if_neg hk]

theorem find?_alter (d : Dict α) (key : String) (f : Option α → α) (k : String) :
    (d.alter key f).find? k = if k = key then some (f (d.find? key)) else d.find? k :=
  lookup_alterEntries key f d.sorted k

theorem lookup_of_mem {e : String × α} {es : List (String × α)} (h : es.Pairwise (·.1 < ·.1))
    (he : e ∈ es) : es.lookup e.1 = some e.2 := by
  induction es with
  | nil => simp at he
  | cons x es ih =>
    obtain ⟨hx, hes⟩ := List.pairwise_cons.1 h
    rw [lookup_cons]
    rcases List.mem_cons.1 he with rfl | he
    · simp
    · rw [if_neg (String.ne_of_lt (hx e he)).symm]
      exact ih hes he

theorem mem_of_lookup {k : String} {v : α} {es : List (String × α)} (h : es.lookup k = some v) :
    (k, v) ∈ es := by
  induction es with
  | nil => simp at h
  | cons x es ih =>
    rw [lookup_cons] at h
    split at h
    · rename_i hk
      obtain rfl := Option.some.inj h
      exact hk ▸ List.mem_cons_self
    · exact List.mem_cons_of_mem _ (ih h)

theorem mem_entries_iff {d : Dict α} {e : String × α} : e ∈ d.entries ↔ d.find? e.1 = some e.2 :=
  ⟨lookup_of_mem d.sorted, mem_of_lookup⟩

theorem mem_keys_iff {d : Dict α} {key : String} : key ∈ d.keys ↔ (d.find? key).isSome = true := by
  rw [keys, List.mem_map, Option.isSome_iff_exists]
  constructor
  · rintro ⟨e, he, rfl⟩
    exact ⟨e.2, mem_entries_iff.1 he⟩
  · rintro ⟨v, hv⟩
    exact ⟨(key, v), mem_entries_iff.2 hv, rfl⟩

theorem ext_find? {d e : Dict α} (h : ∀ k, d.find? k = e.find? k) : d = e := by
  obtain ⟨ds, hd⟩ := d
  obtain ⟨es, he⟩ := e
  congr
  have mem : ∀ x, x ∈ ds ↔ x ∈ es := fun x => by
    have := h x.1
    exact (mem_entries_iff (d := ⟨ds, hd⟩)).trans
      (this ▸ (mem_entries_iff (d := ⟨es, he⟩)).symm)
  have nd : ∀ {xs : List (String × α)}, xs.Pairwise (·.1 < ·.1) → xs.Nodup := fun hx =>
    hx.imp fun hlt heq => String.ne_of_lt hlt (congrArg Prod.fst heq)
  refine List.Perm.eq_of_pairwise ?_ hd he ((List.perm_ext_iff_of_nodup (nd hd) (nd he)).2 mem)
  exact fun a b _ _ hab hba => absurd hba (String.lt_asymm hab)

/-- Going through a map stops at the least key whose value counts. -/
theorem findSome?_entries {β : Type} {d : Dict α} {f : α → Option β} {b : β} :
    d.entries.findSome? (fun e => f e.2) = some b ↔
      ∃ key v, d.find? key = some v ∧ f v = some b ∧
        ∀ k < key, ∀ w, d.find? k = some w → f w = none := by
  rw [List.findSome?_eq_some_iff]
  constructor
  · intro h
    obtain ⟨before, ⟨key, v⟩, after, hsplit, hv, hbefore⟩ := h
    have hmem : (key, v) ∈ d.entries := by simp [hsplit]
    refine ⟨key, v, mem_entries_iff.1 hmem, hv, ?_⟩
    intro k hk w hw
    have hin : (k, w) ∈ before ++ (key, v) :: after := hsplit ▸ mem_entries_iff.2 hw
    rcases List.mem_append.1 hin with hin | hin
    · exact hbefore _ hin
    · have hsorted := hsplit ▸ d.sorted
      obtain ⟨hafter, -⟩ := List.pairwise_cons.1 (List.pairwise_append.1 hsorted).2.1
      rcases List.mem_cons.1 hin with e | hin
      · exact absurd (congrArg Prod.fst e) (String.ne_of_lt hk)
      · exact absurd (hafter _ hin) (String.lt_asymm hk)
  · intro h
    obtain ⟨key, v, hkey, hv, hleast⟩ := h
    have hin : (key, v) ∈ d.entries := mem_entries_iff.2 hkey
    obtain ⟨before, after, hsplit⟩ := List.append_of_mem hin
    refine ⟨before, (key, v), after, hsplit, hv, ?_⟩
    intro e he
    have hsorted := hsplit ▸ d.sorted
    have hlt : e.1 < key := (List.pairwise_append.1 hsorted).2.2 e he _ List.mem_cons_self
    have hmem : e ∈ d.entries := by simp [hsplit, he]
    exact hleast e.1 hlt e.2 (mem_entries_iff.1 hmem)

theorem find?_insert (d : Dict α) (key : String) (value : α) (k : String) :
    (d.insert key value).find? k = if k = key then some value else d.find? k :=
  d.find?_alter key _ k

/-- Computing a value anew is inserting it. -/
theorem alter_eq_insert (d : Dict α) (key : String) (f : Option α → α) :
    d.alter key f = d.insert key (f (d.find? key)) :=
  ext_find? fun k => by rw [find?_alter, find?_insert]

theorem insert_insert (d : Dict α) (key : String) (v w : α) :
    (d.insert key v).insert key w = d.insert key w :=
  ext_find? fun k => by
    simp only [find?_insert]
    split <;> rfl

theorem insert_of_find? {d : Dict α} {key : String} {value : α} (h : d.find? key = some value) :
    d.insert key value = d :=
  ext_find? fun k => by
    rw [find?_insert]
    split
    · rename_i hk
      rw [hk, h]
    · rfl

theorem find?_insertNew (d : Dict α) (key : String) (value : α) (k : String) :
    (d.insertNew key value).find? k =
      if k = key then some ((d.find? key).getD value) else d.find? k :=
  d.find?_alter key _ k

/-- Of several new entries with the same key the first counts. -/
theorem find?_foldl_insertNew (es : List (String × α)) (d : Dict α) (k : String) :
    (es.foldl (fun d e => d.insertNew e.1 e.2) d).find? k = (d.find? k).or (es.lookup k) := by
  induction es generalizing d with
  | nil => rw [List.foldl_nil, List.lookup_nil, Option.or_none]
  | cons e es ih =>
    rw [List.foldl_cons, ih, find?_insertNew, lookup_cons]
    by_cases hk : k = e.1
    · rw [if_pos hk, if_pos hk, hk]
      cases d.find? e.1 <;> rfl
    · rw [if_neg hk, if_neg hk]

/-- Entries with distinct keys replace what is there, and all else stays. -/
theorem find?_foldl_insert {es : List (String × α)} (h : (es.map (·.1)).Nodup) (d : Dict α)
    {k : String} {v : α} :
    (es.foldl (fun d e => d.insert e.1 e.2) d).find? k = some v ↔
      (k, v) ∈ es ∨ k ∉ es.map (·.1) ∧ d.find? k = some v := by
  induction es generalizing d with
  | nil => simp
  | cons e es ih =>
    obtain ⟨key, value⟩ := e
    rw [List.map_cons, List.nodup_cons] at h
    obtain ⟨hkey, hes⟩ := h
    rw [List.foldl_cons, ih hes, find?_insert, List.mem_cons, List.map_cons, List.mem_cons,
      Prod.mk.injEq]
    by_cases hk : k = key
    · subst hk
      have hno : (k, v) ∉ es := fun hm => hkey (List.mem_map.2 ⟨_, hm, rfl⟩)
      simp [hkey, hno, eq_comm]
    · simp [hk]

/-- A map from entries with distinct keys has these entries and no others. -/
theorem find?_ofList {es : List (String × α)} (h : (es.map (·.1)).Nodup) {k : String} {v : α} :
    (ofList es).find? k = some v ↔ (k, v) ∈ es := by
  rw [ofList, find?_foldl_insert h]
  simp

theorem nodup_keys (d : Dict α) : d.keys.Nodup :=
  List.pairwise_map.2 (d.sorted.imp fun h => String.ne_of_lt h)

theorem ofList_entries (d : Dict α) : ofList d.entries = d :=
  ext_find? fun _ => Option.ext fun _ => (find?_ofList d.nodup_keys).trans mem_entries_iff

/-- Every map is made from the empty one by inserting new keys. -/
theorem induction_insert {P : Dict α → Prop} (empty : P empty)
    (insert : ∀ d key value, d.find? key = none → P d → P (d.insert key value)) (d : Dict α) :
    P d := by
  have hfold {es : List (String × α)} (hes : (es.map (·.1)).Nodup) (d : Dict α) (hd : P d)
      (hnew : ∀ e ∈ es, d.find? e.1 = none) : P (es.foldl (fun d e => d.insert e.1 e.2) d) := by
    induction es generalizing d with
    | nil => exact hd
    | cons e es ih =>
      rw [List.map_cons, List.nodup_cons] at hes
      refine ih hes.2 _ (insert d e.1 e.2 (hnew e List.mem_cons_self) hd) fun x hx => ?_
      have hne : x.1 ≠ e.1 := fun h => hes.1 (List.mem_map.2 ⟨x, hx, h⟩)
      rw [find?_insert, if_neg hne, hnew x (List.mem_cons_of_mem e hx)]
  rw [← ofList_entries d]
  exact hfold d.nodup_keys _ empty fun e _ => find?_empty e.1

end Dict
end ServiceUnits
