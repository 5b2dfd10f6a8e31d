import Mathlib.Data.List.Basic
import Mathlib.Data.List.Forall2
import Mathlib.Order.Basic

/-!
# Related optional values and lists

Option and list relators, and the count of exactly one: a list of alternatives of which
one holds, by position, so that equal alternatives count separately.
-/

namespace Related

variable {α β γ δ : Type*}

/-- Relating mapped optional values is relating the optional values through the maps. -/
lemma rel_map {r : γ → δ → Prop} {f : α → γ} {g : β → δ} {o : Option α}
    {p : Option β} : Option.Rel r (o.map f) (p.map g) ↔ Option.Rel (fun a b => r (f a) (g b)) o p := by
  rcases o with _ | a <;> rcases p with _ | b
  · exact ⟨fun _ => .none, fun _ => .none⟩
  · constructor <;> rintro ⟨⟩
  · constructor <;> rintro ⟨⟩
  · constructor
    · intro h
      cases h with
      | some hab => exact .some hab
    · intro h
      cases h with
      | some hab => exact .some hab

lemma rel_mono {r s : α → β → Prop} (hrs : ∀ a b, r a b → s a b) {o : Option α} {p : Option β}
    (h : Option.Rel r o p) : Option.Rel s o p := by
  cases h with
  | none => exact .none
  | some hab => exact .some (hrs _ _ hab)

lemma rel_flip {r : α → β → Prop} {o : Option α} {p : Option β} (h : Option.Rel r o p) :
    Option.Rel (fun b a => r a b) p o := by
  cases h with
  | none => exact .none
  | some hab => exact .some hab

lemma eq_of_rel_eq {o p : Option α} (h : Option.Rel (fun a b => a = b) o p) : o = p := by
  cases h with
  | none => rfl
  | some hab => rw [hab]

lemma rel_isSome {r : α → β → Prop} {o : Option α} {p : Option β} (h : Option.Rel r o p) :
    o.isSome = p.isSome := by
  cases h <;> rfl

lemma exists_of_rel_some {r : α → β → Prop} {o : Option α} {b : β} (h : Option.Rel r o (some b)) :
    ∃ a, o = some a ∧ r a b := by
  cases h with
  | some hab => exact ⟨_, rfl, hab⟩

lemma forall₂_getD {r : α → β → Prop} {o : Option (List α)} {p : Option (List β)}
    (h : Option.Rel (List.Forall₂ r) o p) : List.Forall₂ r (o.getD []) (p.getD []) := by
  cases h with
  | none => exact .nil
  | some hxy => exact hxy

/-- Every element of the right list is related to one of the left. -/
lemma exists_mem_left {r : α → β → Prop} {xs : List α} {ys : List β} (h : List.Forall₂ r xs ys)
    {y : β} (hy : y ∈ ys) : ∃ x ∈ xs, r x y := by
  induction h with
  | nil => simp at hy
  | @cons a b xs ys hab _ ih =>
    rcases List.mem_cons.mp hy with rfl | hy
    · exact ⟨a, by simp, hab⟩
    · obtain ⟨x, hx, hxy⟩ := ih hy
      exact ⟨x, by simp [hx], hxy⟩

lemma exists_mem_right {r : α → β → Prop} {xs : List α} {ys : List β} (h : List.Forall₂ r xs ys)
    {x : α} (hx : x ∈ xs) : ∃ y ∈ ys, r x y :=
  exists_mem_left h.flip hx

lemma forall₂_mono {r s : α → β → Prop} {xs : List α} {ys : List β}
    (hrs : ∀ x ∈ xs, ∀ y ∈ ys, r x y → s x y) (h : List.Forall₂ r xs ys) :
    List.Forall₂ s xs ys := by
  induction h with
  | nil => exact .nil
  | cons hab _ ih =>
    refine .cons (hrs _ (by simp) _ (by simp) hab) (ih fun x hx y hy => ?_)
    exact hrs x (by simp [hx]) y (by simp [hy])

/-- A relation that related elements reduce to a property of the left one. -/
lemma forall₂_iff_forall {r s : α → β → Prop} {p : α → Prop} {xs : List α} {ys : List β}
    (hr : List.Forall₂ r xs ys) (h : ∀ x y, r x y → (s x y ↔ p x)) :
    List.Forall₂ s xs ys ↔ ∀ x ∈ xs, p x := by
  induction hr with
  | nil => simp
  | @cons x y xs ys hxy _ ih => rw [List.forall₂_cons, List.forall_mem_cons, h x y hxy, ih]

/-- A loop of partial steps that has a result has one for every element. -/
lemma forall₂_of_mapM_eq_some {f : α → Option β} {xs : List α} {ys : List β}
    (h : xs.mapM f = some ys) : List.Forall₂ (fun x y => f x = some y) xs ys := by
  induction xs generalizing ys with
  | nil =>
    cases h
    exact .nil
  | cons x xs ih =>
    rw [List.mapM_cons] at h
    obtain ⟨y, hy, h⟩ := Option.bind_eq_some_iff.mp h
    obtain ⟨zs, hzs, h⟩ := Option.bind_eq_some_iff.mp h
    cases h
    exact .cons hy (ih hzs)

/-- Related lists relate their elements position by position. -/
lemma forall₂_getElem? {r : α → β → Prop} {xs : List α} {ys : List β} (h : List.Forall₂ r xs ys)
    (i : ℕ) : Option.Rel r xs[i]? ys[i]? := by
  induction h generalizing i with
  | nil => exact .none
  | cons hab _ ih =>
    cases i with
    | zero => exact .some hab
    | succ i => exact ih i

section Distinct

variable (same : α → α → Bool)

/-- Appends an element that no earlier one is the same as. -/
def keepNew (unique : List α) (x : α) : List α :=
  if unique.any (same x) then unique else unique ++ [x]

/-- The first elements of each sort, in order. -/
def distinct (xs : List α) : List α := xs.foldl (keepNew same) []

variable {same}

lemma mem_foldl_keepNew {unique xs : List α} {y : α} (h : y ∈ xs.foldl (keepNew same) unique) :
    y ∈ unique ∨ y ∈ xs := by
  induction xs generalizing unique with
  | nil => exact Or.inl h
  | cons x xs ih =>
    have hstep : y ∈ keepNew same unique x → y ∈ unique ∨ y = x := by
      unfold keepNew
      split_ifs <;> simp +contextual
    have hrest := ih h
    simp only [List.mem_cons]
    tauto

lemma subset_foldl_keepNew (unique xs : List α) : unique ⊆ xs.foldl (keepNew same) unique := by
  induction xs generalizing unique with
  | nil => exact List.Subset.refl unique
  | cons x xs ih =>
    have hstep : unique ⊆ keepNew same unique x := by
      unfold keepNew
      split_ifs
      · exact List.Subset.refl unique
      · exact List.subset_append_left unique [x]
    exact List.Subset.trans hstep (ih _)

lemma distinct_subset (xs : List α) : distinct same xs ⊆ xs := by
  intro y hy
  simpa using mem_foldl_keepNew hy

/-- Every element is the same as one that is kept. -/
lemma exists_mem_distinct (hrefl : ∀ x, same x x = true) {xs : List α} {x : α} (h : x ∈ xs) :
    ∃ y ∈ distinct same xs, same x y = true := by
  obtain ⟨before, after, rfl⟩ := List.append_of_mem h
  have hkept : ∃ y ∈ keepNew same (before.foldl (keepNew same) []) x, same x y = true := by
    unfold keepNew
    split_ifs with hany
    · exact List.any_eq_true.mp hany
    · exact ⟨x, by simp, hrefl x⟩
  obtain ⟨y, hy, hxy⟩ := hkept
  refine ⟨y, ?_, hxy⟩
  rw [distinct, List.foldl_append, List.foldl_cons]
  exact subset_foldl_keepNew _ after hy

end Distinct

end Related

/-- Exactly one position of the list satisfies `p`. -/
def ExactlyOne {α : Type*} (p : α → Prop) (xs : List α) : Prop :=
  ∃ (i : ℕ) (x : α), xs[i]? = some x ∧ p x ∧ ∀ (j : ℕ) (y : α), xs[j]? = some y → j ≠ i → ¬p y

lemma ExactlyOne.congr {α : Type*} {p q : α → Prop} {xs : List α} (h : ∀ x ∈ xs, p x ↔ q x) :
    ExactlyOne p xs ↔ ExactlyOne q xs := by
  unfold ExactlyOne
  refine exists_congr fun i => exists_congr fun x => and_congr_right fun hx => ?_
  rw [h x (List.mem_of_getElem? hx)]
  refine and_congr_right fun _ => forall_congr' fun j => forall_congr' fun y => ?_
  refine imp_congr_right fun hy => ?_
  rw [h y (List.mem_of_getElem? hy)]

lemma ExactlyOne.map {α β : Type*} {f : α → β} {p : β → Prop} {xs : List α} :
    ExactlyOne p (xs.map f) ↔ ExactlyOne (fun x => p (f x)) xs := by
  simp only [ExactlyOne, List.getElem?_map, Option.map_eq_some_iff]
  constructor
  · rintro ⟨i, y, ⟨x, hx, rfl⟩, hp, hother⟩
    exact ⟨i, x, hx, hp, fun j z hz hji => hother j _ ⟨z, hz, rfl⟩ hji⟩
  · rintro ⟨i, x, hx, hp, hother⟩
    refine ⟨i, _, ⟨x, hx, rfl⟩, hp, ?_⟩
    rintro j y ⟨z, hz, rfl⟩ hji
    exact hother j z hz hji

/-- Counting the satisfying positions decides `ExactlyOne`. -/
lemma ExactlyOne.iff_length_filter {α : Type*} {p : α → Prop} [DecidablePred p] {xs : List α} :
    ExactlyOne p xs ↔ (xs.filter (fun x => decide (p x))).length = 1 := by
  induction xs with
  | nil => simp [ExactlyOne]
  | cons x xs ih =>
    have hnone : (xs.filter (fun x => decide (p x))).length = 0 ↔
        ∀ (j : ℕ) (y : α), xs[j]? = some y → ¬p y := by
      simp only [List.length_eq_zero_iff, List.filter_eq_nil_iff, decide_eq_true_eq]
      constructor
      · intro h j y hy
        exact h y (List.mem_of_getElem? hy)
      · intro h y hy
        obtain ⟨j, hj⟩ := List.mem_iff_getElem?.mp hy
        exact h j y hj
    by_cases hx : p x
    · rw [List.filter_cons, if_pos (by simpa using hx), List.length_cons, Nat.add_eq_right, hnone]
      constructor
      · rintro ⟨i, z, hz, hp, hother⟩ j y hy
        have hi : i = 0 := by
          by_contra hi
          exact hother 0 x (by simp) (Ne.symm hi) hx
        exact hother (j + 1) y (by simpa using hy) (by omega)
      · intro h
        refine ⟨0, x, by simp, hx, fun j y hy hj => ?_⟩
        obtain ⟨k, rfl⟩ := Nat.exists_eq_succ_of_ne_zero hj
        exact h k y (by simpa using hy)
    · rw [List.filter_cons, if_neg (by simpa using hx), ← ih]
      constructor
      · rintro ⟨i, z, hz, hp, hother⟩
        cases i with
        | zero =>
          have hzx : x = z := by simpa using hz
          exact absurd (hzx ▸ hp) hx
        | succ i =>
          refine ⟨i, z, by simpa using hz, hp, fun j y hy hj => ?_⟩
          exact hother (j + 1) y (by simpa using hy) (by omega)
      · rintro ⟨i, z, hz, hp, hother⟩
        refine ⟨i + 1, z, by simpa using hz, hp, fun j y hy hj => ?_⟩
        cases j with
        | zero =>
          have hyx : x = y := by simpa using hy
          exact hyx ▸ hx
        | succ j => exact hother j y (by simpa using hy) (by omega)

/-- Alternatives that correspond position by position count the same. -/
lemma ExactlyOne.of_forall₂ {α β : Type*} {p : α → Prop} {q : β → Prop} {xs : List α} {ys : List β}
    (h : List.Forall₂ (fun a b => p a ↔ q b) xs ys) (hxs : ExactlyOne p xs) : ExactlyOne q ys := by
  obtain ⟨i, x, hx, hp, hother⟩ := hxs
  have hget := Related.forall₂_getElem? h
  have hi := hget i
  rw [hx] at hi
  generalize hy : ys[i]? = o at hi
  cases hi with
  | @some _ y hxy =>
    refine ⟨i, y, hy, hxy.mp hp, fun j z hz hji hq => ?_⟩
    have hj := hget j
    rw [hz] at hj
    generalize hw : xs[j]? = o at hj
    cases hj with
    | some hwz => exact hother j _ hw hji (hwz.mpr hq)
