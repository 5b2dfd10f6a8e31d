import Mathlib.Data.List.Basic
import Mathlib.Data.List.Chain
import Mathlib.Tactic.SplitIfs

/-!
# Texts with lone surrogates

A text is a sequence of code points, surrogates among them. Written as UTF-16 units, a code point
beyond the basic plane becomes a pair of surrogates, and reading joins every such pair: two lone
surrogates that stand next to each other in the right order are read as one code point.
-/

namespace SurrogateText

abbrev CodePoint := Fin 1114112

def isHigh (unit : ℕ) : Prop := 55296 ≤ unit ∧ unit < 56320

def isLow (unit : ℕ) : Prop := 56320 ≤ unit ∧ unit < 57344

instance (unit : ℕ) : Decidable (isHigh unit) := inferInstanceAs (Decidable (_ ∧ _))

instance (unit : ℕ) : Decidable (isLow unit) := inferInstanceAs (Decidable (_ ∧ _))

def pointUnits (c : CodePoint) : List ℕ :=
  if c.val < 65536 then [c.val] else [55296 + (c.val - 65536) / 1024, 56320 + (c.val - 65536) % 1024]

/-- The units a text is written in. -/
def units (text : List CodePoint) : List ℕ := text.flatMap pointUnits

def point (unit : ℕ) : CodePoint := Fin.ofNat 1114112 unit

def joined (high low : ℕ) : CodePoint := point (65536 + (high - 55296) * 1024 + (low - 56320))

/-- The text of some units, every pair of surrogates joined. -/
def read : List ℕ → List CodePoint
  | [] => []
  | [unit] => [point unit]
  | high :: low :: rest =>
    if isHigh high ∧ isLow low then joined high low :: read rest else point high :: read (low :: rest)

/-- No high surrogate stands directly before a low one. -/
def PairFree (text : List CodePoint) : Prop := text.IsChain fun a b => ¬(isHigh a.val ∧ isLow b.val)

instance (text : List CodePoint) : Decidable (PairFree text) := inferInstanceAs (Decidable (List.IsChain _ _))

lemma point_val (c : CodePoint) : point c.val = c := by
  ext
  simp [point]

lemma read_single (unit : ℕ) (rest : List ℕ) (h : ∀ low ∈ rest.head?, ¬(isHigh unit ∧ isLow low)) :
    read (unit :: rest) = point unit :: read rest := by
  cases rest with
  | nil => rfl
  | cons low rest =>
    rw [read, if_neg]
    exact h low rfl

lemma read_pair {c : CodePoint} (hc : ¬ c.val < 65536) (rest : List ℕ) :
    read (pointUnits c ++ rest) = c :: read rest := by
  have hlt := c.isLt
  have hhigh : isHigh (55296 + (c.val - 65536) / 1024) := by
    unfold isHigh
    omega
  have hlow : isLow (56320 + (c.val - 65536) % 1024) := by
    unfold isLow
    omega
  have hjoined : joined (55296 + (c.val - 65536) / 1024) (56320 + (c.val - 65536) % 1024) = c := by
    have hvalue : 65536 + (55296 + (c.val - 65536) / 1024 - 55296) * 1024 +
        (56320 + (c.val - 65536) % 1024 - 56320) = c.val := by omega
    rw [joined, hvalue, point_val]
  rw [pointUnits, if_neg hc, List.cons_append, List.cons_append, List.nil_append, read,
    if_pos ⟨hhigh, hlow⟩, hjoined]

/-- The first unit of a text, and whether it may end a pair. -/
lemma head_units {c d : CodePoint} {rest : List CodePoint} (h : ¬(isHigh c.val ∧ isLow d.val)) :
    ∀ low ∈ (units (d :: rest)).head?, ¬(isHigh c.val ∧ isLow low) := by
  unfold units
  rw [List.flatMap_cons]
  unfold pointUnits
  split_ifs with hd
  · intro low hlow
    rw [List.cons_append, List.head?_cons, Option.mem_some_iff] at hlow
    rwa [← hlow]
  · intro low hlow
    rw [List.cons_append, List.head?_cons, Option.mem_some_iff] at hlow
    have hlt := d.isLt
    unfold isLow
    omega

/-- A text without such pairs is read back as it was written. -/
theorem read_units {text : List CodePoint} (h : PairFree text) : read (units text) = text := by
  induction text with
  | nil => rfl
  | cons c rest ih =>
    have hrest : read (units rest) = rest := ih h.tail
    have hsplit : units (c :: rest) = pointUnits c ++ units rest := List.flatMap_cons
    rw [hsplit]
    by_cases hc : c.val < 65536
    · have hhead : ∀ low ∈ (units rest).head?, ¬(isHigh c.val ∧ isLow low) := by
        cases rest with
        | nil =>
          intro low hlow
          cases hlow
        | cons d rest => exact head_units (List.isChain_cons_cons.mp h).1
      rw [pointUnits, if_pos hc, List.cons_append, List.nil_append, read_single c.val _ hhead,
        point_val, hrest]
    · rw [read_pair hc, hrest]

end SurrogateText
