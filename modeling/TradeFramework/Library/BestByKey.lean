import TradeFramework.Library.Dictionary
import Mathlib.Order.Basic

/-!
# The best entry of each key

A scan keeps the first entry of each key and replaces it by an entry of higher priority. Which
entry it ends up with depends on the order of the entries where the highest priority is shared.
-/

namespace BestByKey

variable {κ π ν : Type*} [DecidableEq κ] [LinearOrder π]

/-- Keeps the better of the entry so far and the next one. -/
def better (current : Option (π × ν)) (next : π × ν) : π × ν :=
  match current with
  | none => next
  | some best => if best.1 < next.1 then next else best

/-- One turn of the scan. -/
def note (found : List (κ × π × ν)) (entry : κ × π × ν) : List (κ × π × ν) :=
  Dict.set found entry.1 (better (found.lookup entry.1) entry.2)

/-- The entries the scan ends up with. -/
def best (entries : List (κ × π × ν)) : List (κ × π × ν) := entries.foldl note []

variable {entries rest : List (κ × π × ν)} {key : κ} {priority : π} {value : ν}

lemma lookup_note (found : List (κ × π × ν)) (entry : κ × π × ν) (key : κ) : (note found entry).lookup key =
    if key = entry.1 then some (better (found.lookup key) entry.2) else found.lookup key := by
  rw [note, Dict.lookup_set]
  split_ifs with hkey
  · rw [hkey]
  · rfl

/-- What the scan has of a key: nothing, or an entry of the highest priority so far. -/
lemma lookup_foldl (entries found : List (κ × π × ν)) (key : κ) :
    match (entries.foldl note found).lookup key with
    | none => found.lookup key = none ∧ ∀ entry ∈ entries, entry.1 ≠ key
    | some (priority, value) =>
      (found.lookup key = some (priority, value) ∨ (key, priority, value) ∈ entries) ∧
        (∀ kept, found.lookup key = some kept → kept.1 ≤ priority) ∧
        ∀ entry ∈ entries, entry.1 = key → entry.2.1 ≤ priority := by
  induction entries generalizing found with
  | nil =>
    rw [List.foldl_nil]
    cases h : found.lookup key with
    | none => simp
    | some kept => simp
  | cons entry entries ih =>
    obtain ⟨entryKey, next⟩ := entry
    have hrest := ih (note found (entryKey, next))
    rw [List.foldl_cons]
    cases h : (entries.foldl note (note found (entryKey, next))).lookup key with
    | none =>
      rw [h] at hrest
      obtain ⟨hnote, hothers⟩ := hrest
      rw [lookup_note] at hnote
      split_ifs at hnote with hkey
      exact ⟨hnote, List.forall_mem_cons.mpr ⟨fun hsame => hkey hsame.symm, hothers⟩⟩
    | some last =>
      rw [h] at hrest
      obtain ⟨hfrom, hkept, hothers⟩ := hrest
      rw [lookup_note] at hfrom hkept
      by_cases hkey : key = entryKey
      · subst hkey
        rw [if_pos rfl] at hfrom hkept
        have hbest := hkept _ rfl
        have hle : (∀ kept, found.lookup key = some kept → kept.1 ≤ last.1) ∧ next.1 ≤ last.1 := by
          cases hfound : found.lookup key with
          | none =>
            rw [hfound, better] at hbest
            exact ⟨by simp, hbest⟩
          | some kept =>
            rw [hfound, better] at hbest
            split_ifs at hbest with hlt
            · refine ⟨?_, hbest⟩
              rintro _ ⟨⟩
              exact hlt.le.trans hbest
            · refine ⟨?_, (not_lt.mp hlt).trans hbest⟩
              rintro _ ⟨⟩
              exact hbest
        refine ⟨?_, hle.1, List.forall_mem_cons.mpr ⟨fun _ => hle.2, hothers⟩⟩
        rcases hfrom with hfrom | hmem
        · cases hfound : found.lookup key with
          | none =>
            rw [hfound, better] at hfrom
            rw [← Option.some.inj hfrom]
            exact Or.inr List.mem_cons_self
          | some kept =>
            rw [hfound, better] at hfrom
            split_ifs at hfrom with hlt
            · rw [← Option.some.inj hfrom]
              exact Or.inr List.mem_cons_self
            · exact Or.inl hfrom
        · exact Or.inr (List.mem_cons_of_mem _ hmem)
      · rw [if_neg hkey] at hfrom hkept
        refine ⟨hfrom.imp_right (List.mem_cons_of_mem _), hkept, ?_⟩
        exact List.forall_mem_cons.mpr ⟨fun hsame => absurd hsame.symm hkey, hothers⟩

/-- The scan ends up with an entry of the highest priority. -/
theorem lookup_best (h : (best entries).lookup key = some (priority, value)) :
    (key, priority, value) ∈ entries ∧ ∀ entry ∈ entries, entry.1 = key → entry.2.1 ≤ priority := by
  have hscan := lookup_foldl entries [] key
  rw [best] at h
  rw [h] at hscan
  exact ⟨hscan.1.resolve_left (by simp), hscan.2.2⟩

lemma lookup_best_eq_none : (best entries).lookup key = none ↔ ∀ entry ∈ entries, entry.1 ≠ key := by
  constructor
  · intro h
    have hscan := lookup_foldl entries [] key
    rw [best] at h
    rw [h] at hscan
    exact hscan.2
  · intro h
    cases hbest : (best entries).lookup key with
    | none => rfl
    | some found => exact absurd rfl (h _ (lookup_best hbest).1)

/-- The first of the entries of highest priority wins. -/
theorem lookup_best_cons (h : ∀ entry ∈ rest, entry.1 = key → entry.2.1 ≤ priority) :
    (best ((key, priority, value) :: rest)).lookup key = some (priority, value) := by
  have hkeep : ∀ (entries found : List (κ × π × ν)), found.lookup key = some (priority, value) →
      (∀ entry ∈ entries, entry.1 = key → entry.2.1 ≤ priority) →
      (entries.foldl note found).lookup key = some (priority, value) := by
    intro entries
    induction entries with
    | nil => exact fun found hfound _ => hfound
    | cons entry entries ih =>
      intro found hfound hle
      rw [List.forall_mem_cons] at hle
      apply ih _ _ hle.2
      rw [lookup_note, hfound]
      split_ifs with hkey
      · rw [better, if_neg (not_lt.mpr (hle.1 hkey.symm))]
      · rfl
  rw [best, List.foldl_cons]
  apply hkeep _ _ _ h
  rw [lookup_note, if_pos rfl]
  rfl

end BestByKey
