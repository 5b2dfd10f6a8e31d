import Mathlib.Data.List.Basic
import Mathlib.Data.Finset.Basic
import Mathlib.Data.Finset.Sort

/-!
# Insertion-ordered dictionaries

A dictionary is an association list read from the left: an entry whose key occurs
earlier is shadowed and invisible. `lookup` reads a key, `set` overwrites in place or
appends, `items` lists the visible entries in insertion order. Every law below is
stated through `lookup`, so none of them needs a side condition on repeated keys.
-/

namespace Dict

variable {κ : Type*} {α β : Type*} [DecidableEq κ]

/-- The visible entries, in insertion order. -/
def items : List (κ × α) → List (κ × α)
  | [] => []
  | (k, v) :: rest => (k, v) :: (items rest).filter (fun e => !decide (e.1 = k))

/-- The visible keys, in insertion order. -/
def keys (d : List (κ × α)) : List κ := (items d).map Prod.fst

/-- The value of a key, with keys compared by their decidable equality. -/
def get (d : List (κ × α)) (k : κ) : Option α := d.lookup k

/-- Whether a key is present. -/
def has (d : List (κ × α)) (k : κ) : Bool := (d.lookup k).isSome

/-- Overwrites the value of a key in place, or appends a new entry. -/
def set (d : List (κ × α)) (k : κ) (v : α) : List (κ × α) :=
  if has d k then d.map (fun e => if e.1 = k then (k, v) else e) else d ++ [(k, v)]

/-- Sets the visible entries of another dictionary, as in `{**d, **e}`. -/
def update (d e : List (κ × α)) : List (κ × α) := (items e).foldl (fun d e => set d e.1 e.2) d

/-- Removes a key. -/
def erase (d : List (κ × α)) (k : κ) : List (κ × α) := d.filter (fun e => !decide (e.1 = k))

/-- Two dictionaries with the same set of keys. -/
def sameKeys (d : List (κ × α)) (e : List (κ × β)) : Bool :=
  (keys d).all (has e) && (keys e).all (has d)

/-- Applies a function to every value. -/
def mapValues (f : κ → α → β) (d : List (κ × α)) : List (κ × β) :=
  d.map (fun e => (e.1, f e.1 e.2))

/-- The entries whose optional value is present. -/
def present (d : List (κ × Option α)) : List (κ × α) :=
  d.filterMap fun e => e.2.map fun v => (e.1, v)

/-- The dictionary built by setting the given entries one after the other. -/
def ofEntries (entries : List (κ × α)) : List (κ × α) :=
  entries.foldl (fun d e => set d e.1 e.2) []

section Lookup

@[simp] lemma lookup_cons (d : List (κ × α)) (k k' : κ) (v : α) :
    ((k', v) :: d).lookup k = if k = k' then some v else d.lookup k := by
  rw [List.lookup_cons]
  by_cases h : k = k'
  · simp [h]
  · have hbeq : (k == k') = false := by simp [h]
    simp [h, hbeq]

lemma lookup_mem {d : List (κ × α)} {k : κ} {v : α} (h : d.lookup k = some v) : (k, v) ∈ d := by
  induction d with
  | nil => simp at h
  | cons e rest ih =>
    rcases e with ⟨k', v'⟩
    rw [lookup_cons] at h
    split_ifs at h with hk
    · simp_all
    · exact List.mem_cons_of_mem _ (ih h)

lemma lookup_isSome_iff {d : List (κ × α)} {k : κ} :
    (d.lookup k).isSome ↔ ∃ v, (k, v) ∈ d := by
  induction d with
  | nil => simp
  | cons e rest ih =>
    rcases e with ⟨k', v'⟩
    rw [lookup_cons]
    by_cases hk : k = k'
    · subst hk
      simp only [if_true, Option.isSome_some, List.mem_cons, true_iff]
      exact ⟨v', Or.inl rfl⟩
    · simp [hk, ih]

lemma lookup_eq_none_iff {d : List (κ × α)} {k : κ} : d.lookup k = none ↔ ∀ v, (k, v) ∉ d := by
  rw [← Option.not_isSome_iff_eq_none, lookup_isSome_iff]
  push Not
  rfl

@[simp] lemma has_eq_true_iff {d : List (κ × α)} {k : κ} :
    has d k = true ↔ ∃ v, d.lookup k = some v := by
  rw [has, Option.isSome_iff_exists]

lemma has_eq_false_iff {d : List (κ × α)} {k : κ} : has d k = false ↔ d.lookup k = none := by
  rw [has, Option.isSome_eq_false_iff, Option.isNone_iff_eq_none]

/-- A filter that looks at the keys only. -/
lemma lookup_filter_key (d : List (κ × α)) (p : κ → Bool) (k : κ) :
    (d.filter fun e => p e.1).lookup k = if p k then d.lookup k else none := by
  induction d with
  | nil => simp
  | cons e rest ih =>
    rcases e with ⟨l, v⟩
    rw [List.filter_cons]
    by_cases hl : p l = true
    · simp only [hl, if_true, lookup_cons, ih]
      by_cases hk : k = l
      · simp [hk, hl]
      · simp [hk]
    · rw [if_neg hl, ih, lookup_cons]
      by_cases hk : k = l
      · simp [hk, hl]
      · simp [hk]

lemma lookup_erase (d : List (κ × α)) (k k' : κ) :
    (erase d k).lookup k' = if k' = k then none else d.lookup k' := by
  unfold erase
  rw [lookup_filter_key d fun key => !decide (key = k)]
  by_cases hk : k' = k
  · simp [hk]
  · simp [hk]

lemma mem_items {d : List (κ × α)} {k : κ} {v : α} : (k, v) ∈ items d ↔ d.lookup k = some v := by
  induction d with
  | nil => simp [items]
  | cons e rest ih =>
    rcases e with ⟨k', v'⟩
    rw [items, lookup_cons, List.mem_cons, List.mem_filter, ih]
    by_cases hk : k = k'
    · subst hk
      simp [eq_comm]
    · simp [hk]

lemma items_subset (d : List (κ × α)) : items d ⊆ d := by
  rintro ⟨k, v⟩ h
  exact lookup_mem (mem_items.mp h)

lemma mem_keys {d : List (κ × α)} {k : κ} : k ∈ keys d ↔ (d.lookup k).isSome := by
  rw [keys, List.mem_map, Option.isSome_iff_exists]
  constructor
  · rintro ⟨⟨k', v⟩, hmem, rfl⟩
    exact ⟨v, mem_items.mp hmem⟩
  · rintro ⟨v, hv⟩
    exact ⟨(k, v), mem_items.mpr hv, rfl⟩

lemma nodup_keys (d : List (κ × α)) : (keys d).Nodup := by
  induction d with
  | nil => simp [keys, items]
  | cons e rest ih =>
    rcases e with ⟨k, v⟩
    rw [keys, items, List.map_cons, List.nodup_cons]
    constructor
    · simp
    · exact ih.sublist (List.Sublist.map _ List.filter_sublist)

lemma lookup_overwrite (d : List (κ × α)) (k k' : κ) (v : α) :
    (d.map (fun e => if e.1 = k then (k, v) else e)).lookup k' =
      if k' = k then (d.lookup k).map (fun _ => v) else d.lookup k' := by
  induction d with
  | nil => simp
  | cons e rest ih =>
    rcases e with ⟨l, w⟩
    rw [List.map_cons]
    by_cases hl : l = k
    · subst hl
      simp only [if_true, lookup_cons, ih, Option.map_some]
      split_ifs <;> rfl
    · have hkl : k ≠ l := fun h => hl h.symm
      simp only [hl, if_false, lookup_cons, ih, hkl]
      by_cases hk : k' = l
      · subst hk
        simp [hl]
      · simp [hk]

lemma lookup_append_single (d : List (κ × α)) (k k' : κ) (v : α) (h : d.lookup k = none) :
    (d ++ [(k, v)]).lookup k' = if k' = k then some v else d.lookup k' := by
  induction d with
  | nil => simp
  | cons e rest ih =>
    rcases e with ⟨l, w⟩
    rw [lookup_cons] at h
    split_ifs at h with hl
    rw [List.cons_append, lookup_cons, lookup_cons, ih h]
    by_cases hk : k' = l
    · subst hk
      have hne : k' ≠ k := fun heq => hl heq.symm
      simp [hne]
    · simp [hk]

/-- The law of assignment. -/
lemma lookup_set (d : List (κ × α)) (k k' : κ) (v : α) :
    (set d k v).lookup k' = if k' = k then some v else d.lookup k' := by
  unfold set
  by_cases h : has d k = true
  · obtain ⟨w, hw⟩ := has_eq_true_iff.mp h
    rw [if_pos h, lookup_overwrite, hw]
    rfl
  · rw [if_neg h]
    apply lookup_append_single
    exact has_eq_false_iff.mp (Bool.not_eq_true _ ▸ h)

@[simp] lemma lookup_set_self (d : List (κ × α)) (k : κ) (v : α) :
    (set d k v).lookup k = some v := by
  simp [lookup_set]

@[simp] lemma get_nil (k : κ) : get ([] : List (κ × α)) k = none := rfl

@[simp] lemma get_cons (d : List (κ × α)) (k k' : κ) (v : α) :
    get ((k', v) :: d) k = if k = k' then some v else get d k :=
  lookup_cons d k k' v

lemma get_set (d : List (κ × α)) (k k' : κ) (v : α) :
    get (set d k v) k' = if k' = k then some v else get d k' :=
  lookup_set d k k' v

lemma lookup_set_ne (d : List (κ × α)) {k k' : κ} (v : α) (h : k' ≠ k) :
    (set d k v).lookup k' = d.lookup k' := by
  simp [lookup_set, h]

/-- Removal undoes an assignment. -/
lemma erase_set (d : List (κ × α)) (k : κ) (v : α) : erase (set d k v) k = erase d k := by
  unfold erase set
  split_ifs
  · rw [List.filter_map]
    have hkey : ((fun e : κ × α => !decide (e.1 = k)) ∘ fun e => if e.1 = k then (k, v) else e) =
        fun e => !decide (e.1 = k) := by
      funext e
      by_cases he : e.1 = k <;> simp [he]
    rw [hkey]
    conv_rhs => rw [← List.map_id (d.filter _)]
    apply List.map_congr_left
    intro e he
    have hne : ¬e.1 = k := by simpa using (List.mem_filter.mp he).2
    simp [hne]
  · simp

/-- Assignment only adds entries of its key. -/
lemma mem_set {d : List (κ × α)} {k : κ} {v : α} {e : κ × α} (h : e ∈ set d k v) :
    e = (k, v) ∨ e ∈ d := by
  unfold set at h
  split_ifs at h
  · obtain ⟨a, ha, rfl⟩ := List.mem_map.mp h
    split_ifs
    · exact Or.inl rfl
    · exact Or.inr ha
  · simpa [or_comm] using h

lemma lookup_mapValues (f : κ → α → β) (d : List (κ × α)) (k : κ) :
    (mapValues f d).lookup k = (d.lookup k).map (f k) := by
  induction d with
  | nil => simp [mapValues]
  | cons e rest ih =>
    rcases e with ⟨k', v⟩
    simp only [mapValues, List.map_cons, lookup_cons] at ih ⊢
    by_cases hk : k = k'
    · subst hk
      simp
    · simp [hk, ih]

lemma items_mapValues (f : κ → α → β) (d : List (κ × α)) :
    items (mapValues f d) = mapValues f (items d) := by
  induction d with
  | nil => rfl
  | cons e rest ih =>
    rcases e with ⟨k, v⟩
    simp only [mapValues, List.map_cons, items] at ih ⊢
    rw [ih, List.filter_map]
    rfl

/-- Visible entries shadow nothing. -/
lemma items_of_nodup {d : List (κ × α)} (h : (d.map Prod.fst).Nodup) : items d = d := by
  induction d with
  | nil => rfl
  | cons e rest ih =>
    rcases e with ⟨k, v⟩
    rw [List.map_cons, List.nodup_cons] at h
    rw [items, ih h.2, List.filter_eq_self.mpr]
    intro e he
    have hne : e.1 ≠ k := fun heq => h.1 (heq ▸ List.mem_map.mpr ⟨e, he, rfl⟩)
    simp [hne]

lemma items_items (d : List (κ × α)) : items (items d) = items d :=
  items_of_nodup (nodup_keys d)

lemma lookup_present {d : List (κ × Option α)} (hd : (d.map Prod.fst).Nodup) (k : κ) :
    (present d).lookup k = (d.lookup k).join := by
  induction d with
  | nil => simp [present]
  | cons e rest ih =>
    rcases e with ⟨k', o⟩
    rw [List.map_cons, List.nodup_cons] at hd
    have hrest := ih hd.2
    cases o with
    | some v =>
      simp only [present, List.filterMap_cons, Option.map_some, lookup_cons] at hrest ⊢
      split_ifs with hk
      · simp
      · exact hrest
    | none =>
      simp only [present, List.filterMap_cons, Option.map_none, lookup_cons] at hrest ⊢
      rw [hrest]
      split_ifs with hk
      · subst hk
        have hnone : rest.lookup k = none :=
          lookup_eq_none_iff.mpr fun v hv => hd.1 (List.mem_map.mpr ⟨(k, v), hv, rfl⟩)
        simp [hnone]
      · rfl

@[simp] lemma lookup_items (d : List (κ × α)) (k : κ) : (items d).lookup k = d.lookup k := by
  ext v
  rw [← mem_items, items_items, mem_items]

/-- The law of an update: the second dictionary is asked first. -/
lemma lookup_update (d e : List (κ × α)) (k : κ) :
    (update d e).lookup k = (e.lookup k).or (d.lookup k) := by
  have hfold : ∀ (entries d : List (κ × α)), (entries.map Prod.fst).Nodup →
      (entries.foldl (fun d e => set d e.1 e.2) d).lookup k = (entries.lookup k).or (d.lookup k) := by
    intro entries
    induction entries with
    | nil => simp
    | cons entry rest ih =>
      intro d hnodup
      rw [List.map_cons, List.nodup_cons] at hnodup
      rw [List.foldl_cons, ih _ hnodup.2, lookup_cons, lookup_set]
      by_cases hk : k = entry.1
      · have hnone : rest.lookup k = none :=
          lookup_eq_none_iff.mpr fun v hv => hnodup.1 (hk ▸ List.mem_map.mpr ⟨(k, v), hv, rfl⟩)
        simp [hnone, if_pos hk]
      · simp [hk]
  rw [update, hfold _ _ (nodup_keys e), lookup_items]

/-- Entries that correspond under the same keys are looked up together. -/
lemma rel_lookup {r : α → β → Prop} {d : List (κ × α)} {e : List (κ × β)}
    (h : List.Forall₂ (fun a b => b.1 = a.1 ∧ r a.2 b.2) d e) (k : κ) :
    Option.Rel r (d.lookup k) (e.lookup k) := by
  induction h with
  | nil => exact .none
  | @cons a b d e hab _ ih =>
    rcases a with ⟨l, v⟩
    rcases b with ⟨l', w⟩
    obtain ⟨rfl, hvw⟩ := hab
    rw [lookup_cons, lookup_cons]
    split_ifs with hk
    · exact .some hvw
    · exact ih

lemma sameKeys_iff {d : List (κ × α)} {e : List (κ × β)} :
    sameKeys d e = true ↔ ∀ k, (d.lookup k).isSome = (e.lookup k).isSome := by
  simp only [sameKeys, Bool.and_eq_true, List.all_eq_true, mem_keys, has]
  constructor
  · rintro ⟨hde, hed⟩ k
    exact Bool.eq_iff_iff.mpr ⟨hde k, hed k⟩
  · intro h
    exact ⟨fun k hk => (h k) ▸ hk, fun k hk => (h k).symm ▸ hk⟩

/-- An entry of a new key goes to the end. -/
lemma set_eq_append {d : List (κ × α)} {k : κ} (v : α) (h : d.lookup k = none) :
    set d k v = d ++ [(k, v)] := by
  unfold set
  rw [if_neg]
  rw [Bool.not_eq_true, has_eq_false_iff]
  exact h

/-- Distinct keys stay distinct when an entry of a new key is added. -/
lemma nodup_append {d : List (κ × α)} {k : κ} (v : α) (hnodup : (d.map Prod.fst).Nodup)
    (h : d.lookup k = none) : ((d ++ [(k, v)]).map Prod.fst).Nodup := by
  rw [List.map_append, List.nodup_append]
  refine ⟨hnodup, by simp, ?_⟩
  intro other hother new hnew hsame
  obtain ⟨⟨k', v'⟩, hmem, rfl⟩ := List.mem_map.mp hother
  have hkey : new = k := by simpa using hnew
  have hentry : (k, v') ∈ d := by
    rw [← hkey, ← hsame]
    exact hmem
  exact lookup_eq_none_iff.mp h v' hentry

end Lookup

section Filtering

lemma lookup_filter_of_nodup {d : List (κ × α)} (hd : (d.map Prod.fst).Nodup) (f : α → Bool)
    (key : κ) : (d.filter fun e => f e.2).lookup key = (d.lookup key).filter f := by
  induction d with
  | nil => rfl
  | cons e d ih =>
    obtain ⟨k, v⟩ := e
    rw [List.map_cons, List.nodup_cons] at hd
    rw [lookup_cons, List.filter_cons]
    by_cases hkey : key = k
    · subst hkey
      have hnone : d.lookup key = none := by
        rw [lookup_eq_none_iff]
        exact fun v hv => hd.1 (List.mem_map.mpr ⟨_, hv, rfl⟩)
      cases hf : f v with
      | true => simp [Option.filter, hf]
      | false =>
        have hrest := ih hd.2
        rw [hnone] at hrest
        simpa [Option.filter, hf] using hrest
    · rw [if_neg hkey, ← ih hd.2]
      split_ifs
      · rw [lookup_cons, if_neg hkey]
      · rfl

/-- Setting entries with different keys puts them down as they are. -/
lemma ofEntries_of_nodup {d : List (κ × α)} (hd : (d.map Prod.fst).Nodup) :
    ofEntries d = d := by
  have hfold : ∀ (rest done : List (κ × α)), ((done ++ rest).map Prod.fst).Nodup →
      rest.foldl (fun d e => set d e.1 e.2) done = done ++ rest := by
    intro rest
    induction rest with
    | nil => simp
    | cons e rest ih =>
      intro done h
      have hnone : done.lookup e.1 = none := by
        rw [lookup_eq_none_iff]
        intro v hv
        rw [List.map_append, List.map_cons, List.nodup_append] at h
        exact h.2.2 e.1 (List.mem_map.mpr ⟨_, hv, rfl⟩) e.1 List.mem_cons_self rfl
      rw [List.foldl_cons, set_eq_append _ hnone, ih _ (by simpa using h), List.append_assoc]
      rfl
  exact hfold d [] hd

end Filtering

section Size

omit [DecidableEq κ] in
lemma sizeOf_mem_lt [SizeOf κ] [SizeOf α] {d : List (κ × α)} {e : κ × α} (h : e ∈ d) :
    sizeOf e.2 < sizeOf d := by
  have hmem := List.sizeOf_lt_of_mem h
  rcases e with ⟨k, v⟩
  have hpair : sizeOf (k, v) = 1 + sizeOf k + sizeOf v := by simp
  dsimp only
  omega

/-- A visible value is smaller than the dictionary that holds it. -/
lemma sizeOf_lookup_lt [SizeOf κ] [SizeOf α] {d : List (κ × α)} {k : κ} {v : α}
    (h : d.lookup k = some v) : sizeOf v < sizeOf d :=
  sizeOf_mem_lt (e := (k, v)) (lookup_mem h)

end Size

end Dict
