import Mathlib.Data.List.Basic
import Mathlib.Data.List.MinMax
import Mathlib.Order.Basic

/-!
# Scanning for unique keys

A scan claims the key of each element in order and stops at the first element that has no key,
whose key is claimed already, or that is unsound. A sequence may also be scanned in parts: each
part keeps a ledger of its claims, and the ledgers are merged afterwards.
-/

namespace UniqueScan

variable {ι κ : Type*}

/-- Why a scan stopped at an element. -/
inductive Cause
  | duplicate
  | broken
deriving DecidableEq, Repr

/-- The keys claimed by a scan, each with the position of the element that claimed it. -/
abbrev Ledger (κ : Type*) := List (κ × ℕ)

/-- A scan that passed `count` elements, and the element it rejected after them, if it did. -/
structure Scan (ι κ : Type*) where
  ledger : Ledger κ
  count : ℕ
  rejected : Option (Cause × ι)

def Claimed (ledger : Ledger κ) (k : κ) : Prop := k ∈ ledger.map Prod.fst

/-- The claims of a part that starts at position `base` of the sequence. -/
def shift (ledger : Ledger κ) (base : ℕ) : Ledger κ := ledger.map fun e => (e.1, base + e.2)

section Claims

variable {ledger : Ledger κ} {base position : ℕ} {k j : κ}

@[simp] lemma claimed_append {other : Ledger κ} :
    Claimed (ledger ++ other) k ↔ Claimed ledger k ∨ Claimed other k := by
  simp [Claimed]

@[simp] lemma claimed_shift : Claimed (shift ledger base) k ↔ Claimed ledger k := by
  simp [Claimed, shift]

lemma shift_concat :
    shift (ledger ++ [(k, position)]) base = shift ledger base ++ [(k, base + position)] := by
  simp [shift]

end Claims

variable [DecidableEq κ]

instance (ledger : Ledger κ) (k : κ) : Decidable (Claimed ledger k) :=
  inferInstanceAs (Decidable (k ∈ ledger.map Prod.fst))

section Merging

variable (merged ledger : Ledger κ) (base : ℕ)

/-- The positions of the claims of one ledger whose keys another ledger has. -/
def conflicts : List ℕ := (ledger.filter fun e => Claimed merged e.1).map Prod.snd

/-- Adds the ledger of a part, unless it conflicts: then the position of the first conflict. -/
def addLedger : Except ℕ (Ledger κ) :=
  match (conflicts merged ledger).min? with
  | some position => .error (base + position)
  | none => .ok (merged ++ shift ledger base)

end Merging

variable (key : ι → Option κ) (sound : ι → Bool)

/-- Scans a sequence whose first element is at position `position`. -/
def scan (ledger : Ledger κ) (position : ℕ) : List ι → Scan ι κ
  | [] => ⟨ledger, position, none⟩
  | x :: xs =>
    match key x with
    | none => ⟨ledger, position, some (.broken, x)⟩
    | some k =>
      if Claimed ledger k then ⟨ledger, position, some (.duplicate, x)⟩
      else if sound x then scan (ledger ++ [(k, position)]) (position + 1) xs
      else ⟨ledger ++ [(k, position)], position, some (.broken, x)⟩

section Scanning

variable {key sound}
variable {ledger : Ledger κ} {position : ℕ} {x : ι} {xs ys : List ι} {k : κ}

lemma scan_none (hkey : key x = none) :
    scan key sound ledger position (x :: xs) = ⟨ledger, position, some (.broken, x)⟩ := by
  simp only [scan, hkey]

lemma scan_duplicate (hkey : key x = some k) (hk : Claimed ledger k) :
    scan key sound ledger position (x :: xs) = ⟨ledger, position, some (.duplicate, x)⟩ := by
  simp only [scan, hkey, if_pos hk]

lemma scan_sound (hkey : key x = some k) (hk : ¬Claimed ledger k) (hx : sound x = true) :
    scan key sound ledger position (x :: xs) =
      scan key sound (ledger ++ [(k, position)]) (position + 1) xs := by
  simp only [scan, hkey, if_neg hk, hx, if_true]

lemma scan_unsound (hkey : key x = some k) (hk : ¬Claimed ledger k) (hx : sound x = false) :
    scan key sound ledger position (x :: xs) =
      ⟨ledger ++ [(k, position)], position, some (.broken, x)⟩ := by
  simp only [scan, hkey, if_neg hk, hx]
  rfl

/-- A scan only adds claims, each at a position it has reached. -/
lemma scan_ledger (key : ι → Option κ) (sound : ι → Bool) (xs : List ι) (ledger : Ledger κ) (position : ℕ) :
    ∃ added, (scan key sound ledger position xs).ledger = ledger ++ added ∧
      position ≤ (scan key sound ledger position xs).count ∧
      ∀ e ∈ added, position ≤ e.2 ∧ e.2 ≤ (scan key sound ledger position xs).count := by
  induction xs generalizing ledger position with
  | nil => exact ⟨[], by simp [scan], by simp [scan], by simp⟩
  | cons x xs ih =>
    cases hkey : key x with
    | none =>
      rw [scan_none hkey]
      exact ⟨[], by simp, le_refl _, by simp⟩
    | some k =>
      by_cases hk : Claimed ledger k
      · rw [scan_duplicate hkey hk]
        exact ⟨[], by simp, le_refl _, by simp⟩
      · by_cases hx : sound x = true
        · rw [scan_sound hkey hk hx]
          obtain ⟨added, hledger, hcount, hadded⟩ := ih (ledger ++ [(k, position)]) (position + 1)
          refine ⟨(k, position) :: added, by simpa using hledger, by omega, ?_⟩
          intro e he
          rcases List.mem_cons.mp he with rfl | he
          · exact ⟨le_refl _, by omega⟩
          · have hbounds := hadded e he
            omega
        · rw [scan_unsound hkey hk (by simpa using hx)]
          exact ⟨[(k, position)], rfl, le_refl _, by simp⟩

/-- A scan of two parts goes on where the scan of the first part ended. -/
lemma scan_append (xs ys : List ι) (ledger : Ledger κ) (position : ℕ) :
    scan key sound ledger position (xs ++ ys) =
      let first := scan key sound ledger position xs
      if first.rejected.isSome then first else scan key sound first.ledger first.count ys := by
  induction xs generalizing ledger position with
  | nil => rfl
  | cons x xs ih =>
    rw [List.cons_append]
    cases hkey : key x with
    | none =>
      rw [scan_none hkey, scan_none hkey]
      rfl
    | some k =>
      by_cases hk : Claimed ledger k
      · rw [scan_duplicate hkey hk, scan_duplicate hkey hk]
        rfl
      · by_cases hx : sound x = true
        · rw [scan_sound hkey hk hx, scan_sound hkey hk hx]
          exact ih _ _
        · have hunsound : sound x = false := by simpa using hx
          rw [scan_unsound hkey hk hunsound, scan_unsound hkey hk hunsound]
          rfl

/-- What a scan passed and what it rejected. -/
lemma scan_outcome (key : ι → Option κ) (sound : ι → Bool) (xs : List ι) (ledger : Ledger κ)
    (position : ℕ) :
    match (scan key sound ledger position xs).rejected with
    | none => (scan key sound ledger position xs).count = position + xs.length
    | some (cause, x) => (scan key sound ledger position xs).count < position + xs.length ∧ x ∈ xs ∧
        (cause = .broken → ∀ k, key x = some k → sound x = false) := by
  induction xs generalizing ledger position with
  | nil => rfl
  | cons x xs ih =>
    cases hkey : key x with
    | none =>
      rw [scan_none hkey]
      exact ⟨by simp, by simp, by simp [hkey]⟩
    | some k =>
      by_cases hk : Claimed ledger k
      · rw [scan_duplicate hkey hk]
        exact ⟨by simp, by simp, by simp⟩
      · by_cases hx : sound x = true
        · rw [scan_sound hkey hk hx]
          have hrest := ih (ledger ++ [(k, position)]) (position + 1)
          split at hrest
          · rw [hrest, List.length_cons]
            omega
          · obtain ⟨hcount, hmem, hcause⟩ := hrest
            exact ⟨by rw [List.length_cons]; omega, by simp [hmem], hcause⟩
        · have hunsound : sound x = false := by simpa using hx
          rw [scan_unsound hkey hk hunsound]
          exact ⟨by simp, by simp, fun _ _ _ => hunsound⟩

/-- The first conflict of a ledger is its first entry with a key that is claimed elsewhere. -/
lemma conflicts_min {merged before after : Ledger κ} (hbefore : conflicts merged before = [])
    (hk : Claimed merged k) (hafter : ∀ e ∈ after, position ≤ e.2) :
    (conflicts merged (before ++ (k, position) :: after)).min? = some position := by
  have hsplit : conflicts merged (before ++ (k, position) :: after) =
      position :: conflicts merged after := by
    unfold conflicts at hbefore ⊢
    rw [List.filter_append, List.map_append, hbefore, List.filter_cons_of_pos (by simpa using hk)]
    rfl
  rw [hsplit, List.min?_eq_some_iff]
  constructor
  · exact List.mem_cons_self
  · intro n hn
    rcases List.mem_cons.mp hn with rfl | hn
    · exact le_refl _
    · obtain ⟨e, he, rfl⟩ := List.mem_map.mp hn
      exact hafter e (List.mem_filter.mp he).1

/-- A part scanned with the ledgers of the earlier parts, against the part scanned alone. -/
lemma scan_merged (key : ι → Option κ) (sound : ι → Bool) (merged : Ledger κ) (base : ℕ)
    (xs : List ι) (ledger : Ledger κ) (position : ℕ) (hclear : conflicts merged ledger = []) :
    let part := scan key sound ledger position xs
    let whole := scan key sound (merged ++ shift ledger base) (base + position) xs
    match (conflicts merged part.ledger).min? with
    | some conflict =>
      whole.count = base + conflict ∧ (∃ x, whole.rejected = some (.duplicate, x)) ∧ conflict ≤ part.count
    | none => whole = ⟨merged ++ shift part.ledger base, base + part.count, part.rejected⟩ := by
  induction xs generalizing ledger position with
  | nil => simp [scan, hclear]
  | cons x xs ih =>
    cases hkey : key x with
    | none =>
      rw [scan_none hkey, scan_none hkey]
      simp [hclear]
    | some k =>
      by_cases hk : Claimed ledger k
      · have hwhole : Claimed (merged ++ shift ledger base) k := by simp [hk]
        rw [scan_duplicate hkey hk, scan_duplicate hkey hwhole]
        simp [hclear]
      · by_cases hmerged : Claimed merged k
        · -- the key is claimed by an earlier part, so this element is the first conflict
          have hwhole : Claimed (merged ++ shift ledger base) k := by simp [hmerged]
          rw [scan_duplicate hkey hwhole]
          by_cases hx : sound x = true
          · rw [scan_sound hkey hk hx]
            obtain ⟨added, hledger, hcount, hadded⟩ :=
              scan_ledger key sound xs (ledger ++ [(k, position)]) (position + 1)
            rw [List.append_assoc, List.singleton_append] at hledger
            have hmin := conflicts_min hclear hmerged fun e he =>
              (Nat.le_succ position).trans (hadded e he).1
            dsimp only
            rw [hledger, hmin]
            exact ⟨rfl, ⟨x, rfl⟩, by omega⟩
          · rw [scan_unsound hkey hk (by simpa using hx)]
            have hmin : (conflicts merged (ledger ++ [(k, position)])).min? = some position :=
              conflicts_min hclear hmerged (by simp)
            dsimp only
            rw [hmin]
            exact ⟨rfl, ⟨x, rfl⟩, le_refl _⟩
        · have hwhole : ¬Claimed (merged ++ shift ledger base) k := by simp [hmerged, hk]
          have hnext : conflicts merged (ledger ++ [(k, position)]) = [] := by
            unfold conflicts at hclear ⊢
            rw [List.filter_append, List.map_append, hclear]
            simp [hmerged]
          by_cases hx : sound x = true
          · rw [scan_sound hkey hk hx, scan_sound hkey hwhole hx]
            have hrest := ih (ledger ++ [(k, position)]) (position + 1) hnext
            rw [shift_concat, ← List.append_assoc] at hrest
            exact hrest
          · have hunsound : sound x = false := by simpa using hx
            rw [scan_unsound hkey hk hunsound, scan_unsound hkey hwhole hunsound]
            simp [hnext, shift_concat]

/-- What the merged ledgers of the parts say about the scan of the whole sequence. -/
def Follows (merged : Except ℕ (Ledger κ)) (count : ℕ) (rejected : Option (Cause × ι))
    (whole : Scan ι κ) : Prop :=
  match merged with
  | .error position =>
    whole.count = position ∧ (∃ x, whole.rejected = some (.duplicate, x)) ∧ position ≤ count
  | .ok ledger => whole = ⟨ledger, count, rejected⟩

/-- Merging the ledger of one more part follows the scan of one more part. -/
theorem follows_append {merged : Except ℕ (Ledger κ)} {base : ℕ} {xs ys : List ι}
    (h : Follows merged base none (scan key sound [] 0 xs)) :
    let part := scan key sound [] 0 ys
    Follows (merged >>= fun ledger => addLedger ledger part.ledger base) (base + part.count)
      part.rejected (scan key sound [] 0 (xs ++ ys)) := by
  intro part
  rw [scan_append]
  cases merged with
  | error position =>
    obtain ⟨hcount, ⟨x, hrejected⟩, hle⟩ := h
    simp only [hrejected]
    exact ⟨hcount, ⟨x, hrejected⟩, by omega⟩
  | ok ledger =>
    have hfirst : scan key sound [] 0 xs = ⟨ledger, base, none⟩ := h
    have hpart := scan_merged key sound ledger base ys [] 0 rfl
    simp only [hfirst]
    change Follows (addLedger ledger part.ledger base) _ _ (scan key sound ledger base ys)
    have hstart : ledger ++ shift [] base = ledger := by simp [shift]
    rw [hstart, Nat.add_zero] at hpart
    unfold addLedger
    cases hmin : (conflicts ledger part.ledger).min? with
    | some position =>
      simp only [part, hmin] at hpart ⊢
      exact ⟨hpart.1, hpart.2.1, Nat.add_le_add_left hpart.2.2 base⟩
    | none =>
      simp only [part, hmin] at hpart
      exact hpart

end Scanning

end UniqueScan
