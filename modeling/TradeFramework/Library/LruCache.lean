import Mathlib.Data.List.Basic

/-!
# Bounded caches

A cache holds its entries in the order of their last use, the oldest first. Storing an entry drops
the oldest ones over the bound.
-/

namespace LruCache

variable {κ β : Type*} [DecidableEq κ]

def get (cache : List (κ × β)) (key : κ) : Option β := cache.lookup key

/-- An entry set, or moved to the end. -/
def touch (cache : List (κ × β)) (key : κ) (value : β) : List (κ × β) :=
  cache.filter (fun e => e.1 ≠ key) ++ [(key, value)]

def store (bound : ℕ) (cache : List (κ × β)) (key : κ) (value : β) : List (κ × β) :=
  (touch cache key value).drop ((touch cache key value).length - bound)

variable {cache : List (κ × β)} {key : κ} {value : β}

lemma mem_of_get (h : get cache key = some value) : (key, value) ∈ cache := by
  unfold get at h
  induction cache with
  | nil => cases h
  | cons e rest ih =>
    rw [List.lookup_cons] at h
    by_cases hkey : key = e.1
    · subst hkey
      simp only [beq_self_eq_true, Option.some.injEq] at h
      rw [← h]
      exact List.mem_cons_self
    · simp only [beq_eq_false_iff_ne.mpr hkey] at h
      exact List.mem_cons_of_mem e (ih h)

lemma mem_touch {e : κ × β} (h : e ∈ touch cache key value) : e ∈ cache ∨ e = (key, value) := by
  unfold touch at h
  rw [List.mem_append, List.mem_singleton] at h
  exact h.imp_left fun hmem => (List.mem_filter.mp hmem).1

lemma mem_store {bound : ℕ} {e : κ × β} (h : e ∈ store bound cache key value) :
    e ∈ cache ∨ e = (key, value) :=
  mem_touch (List.mem_of_mem_drop h)

lemma length_store_le (bound : ℕ) : (store bound cache key value).length ≤ bound := by
  unfold store
  rw [List.length_drop]
  omega

/-- Moving an entry that is there does not make the cache longer. -/
lemma length_touch_le (h : get cache key = some value) :
    (touch cache key value).length ≤ cache.length := by
  have hmem := mem_of_get h
  have hlt : (cache.filter fun e => e.1 ≠ key).length < cache.length :=
    List.length_filter_lt_length_iff_exists.mpr ⟨_, hmem, by simp⟩
  unfold touch
  rw [List.length_append, List.length_singleton]
  omega

end LruCache
