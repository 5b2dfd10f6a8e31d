import Mathlib.Data.List.Count
import Mathlib.Data.List.Nodup

/-!
# Tables of rows

A table is a list of rows. `update` is an SQL `UPDATE … WHERE`; its laws say which rows a
statement leaves alone and what it does to the others.
-/

namespace Table

variable {ρ κ : Type*}

/-- `UPDATE rows SET change WHERE match`. -/
def update (hit : ρ → Bool) (change : ρ → ρ) (rows : List ρ) : List ρ :=
  rows.map fun row => if hit row then change row else row

/-- The row count of an update. -/
def changed (hit : ρ → Bool) (rows : List ρ) : ℕ := rows.countP hit

section Update

variable {hit : ρ → Bool} {change : ρ → ρ} {rows : List ρ}

lemma mem_update {row : ρ} : row ∈ update hit change rows ↔
    ∃ old ∈ rows, row = if hit old then change old else old := by
  simp only [update, List.mem_map, eq_comm]

/-- A property of all rows, row by row. -/
lemma forall_update {P : ρ → Prop} (h : ∀ row ∈ rows, P (if hit row then change row else row)) :
    ∀ row ∈ update hit change rows, P row := by
  intro row hrow
  obtain ⟨old, hold, rfl⟩ := mem_update.mp hrow
  exact h old hold

lemma mem_update_of_not {row : ρ} (hrow : row ∈ rows) (hnot : hit row = false) :
    row ∈ update hit change rows :=
  mem_update.mpr ⟨row, hrow, by simp [hnot]⟩

lemma mem_update_of_hit {row : ρ} (hrow : row ∈ rows) (h : hit row = true) :
    change row ∈ update hit change rows :=
  mem_update.mpr ⟨row, hrow, by simp [h]⟩

/-- An update that keeps the key of every row keeps the keys of the table. -/
lemma map_update (key : ρ → κ) (h : ∀ row, key (change row) = key row) :
    (update hit change rows).map key = rows.map key := by
  unfold update
  rw [List.map_map]
  refine List.map_congr_left fun row _ => ?_
  simp only [Function.comp_def]
  split_ifs
  · exact h row
  · rfl

lemma update_of_forall_not (h : ∀ row ∈ rows, hit row = false) : update hit change rows = rows := by
  unfold update
  conv_rhs => rw [← List.map_id rows]
  exact List.map_congr_left fun row hrow => by simp [h row hrow]

@[simp] lemma update_append (left right : List ρ) :
    update hit change (left ++ right) = update hit change left ++ update hit change right :=
  List.map_append

/-- An update that keeps what a selection asks for commutes with the selection. -/
lemma filter_update {keep : ρ → Bool} (h : ∀ row, keep (change row) = keep row) :
    (update hit change rows).filter keep = update hit change (rows.filter keep) := by
  unfold update
  rw [List.filter_map]
  congr 1
  apply List.filter_congr
  intro row _
  simp only [Function.comp_apply]
  split_ifs
  · exact h row
  · rfl

/-- An update whose rows no longer count leaves fewer rows that count. -/
lemma countP_update_lt {count : ρ → Bool} (hkeep : ∀ row, hit row = true → count (change row) = false)
    {row : ρ} (hrow : row ∈ rows) (hhit : hit row = true) (hcount : count row = true) :
    (update hit change rows).countP count < rows.countP count := by
  have hle : ∀ rows : List ρ, (update hit change rows).countP count ≤ rows.countP count := by
    intro rows
    unfold update
    rw [List.countP_map]
    refine List.countP_mono_left fun row _ h => ?_
    by_cases hr : hit row = true
    · simp [hr, hkeep row hr] at h
    · simpa [hr] using h
  induction rows with
  | nil => cases hrow
  | cons first rest ih =>
    have hcons : update hit change (first :: rest) =
        (if hit first then change first else first) :: update hit change rest := rfl
    rw [hcons, List.countP_cons, List.countP_cons]
    rcases List.mem_cons.mp hrow with rfl | hrow
    · have hrest := hle rest
      simp [hhit, hcount, hkeep row hhit]
      omega
    · have hrest := ih hrow
      have hfirst : (if count (if hit first then change first else first) then 1 else 0) ≤
          if count first then 1 else 0 := by
        by_cases hf : hit first = true
        · simp [hf, hkeep first hf]
        · simp [hf]
      omega

end Update

section Keys

variable {key : ρ → κ} {rows : List ρ}

/-- Under a primary key two rows of one key are one row. -/
lemma eq_of_key (hnodup : (rows.map key).Nodup) {a b : ρ} (ha : a ∈ rows) (hb : b ∈ rows)
    (h : key a = key b) : a = b :=
  List.inj_on_of_nodup_map hnodup ha hb h

/-- Inserting a row of a new key. -/
lemma nodup_insert (hnodup : (rows.map key).Nodup) {new : ρ} (h : ∀ row ∈ rows, key row ≠ key new) :
    ((rows ++ [new]).map key).Nodup := by
  rw [List.map_append, List.nodup_append]
  refine ⟨hnodup, by simp, ?_⟩
  intro a ha b hb hab
  obtain ⟨row, hrow, rfl⟩ := List.mem_map.mp ha
  have hb : b = key new := by simpa using hb
  exact h row hrow (hab.trans hb)

end Keys

end Table
