import TradeFramework.Library.JsonText

/-!
# JSON records

How a type is written as JSON and read back. The parts of a record are described one key at a
time, and a description carries the proof that what it writes it reads.
-/

namespace JsonText

variable {α β : Type*}

/-- The value under a key; the last one stands when a key is repeated. -/
def member (members : List (String × Value)) (key : String) : Option Value :=
  members.reverse.lookup key

lemma member_append_right {ms ns : List (String × Value)} {key : String}
    (h : ∀ m ∈ ms, m.1 ≠ key) : member (ms ++ ns) key = member ns key := by
  have hms : ms.reverse.lookup key = none := by
    rw [List.lookup_eq_none_iff]
    intro m hm
    simpa using (h m (List.mem_reverse.mp hm)).symm
  unfold member
  rw [List.reverse_append, List.lookup_append, hms, Option.or_none]

lemma member_append_left {ms ns : List (String × Value)} {key : String}
    (h : ∀ n ∈ ns, n.1 ≠ key) : member (ms ++ ns) key = member ms key := by
  have hns : ns.reverse.lookup key = none := by
    rw [List.lookup_eq_none_iff]
    intro n hn
    simpa using (h n (List.mem_reverse.mp hn)).symm
  unfold member
  rw [List.reverse_append, List.lookup_append, hns, Option.none_or]

/-- The JSON of a type. -/
structure Codec (α : Type*) where
  toJson : α → Value
  ofJson : Value → Option α
  ofJson_toJson (a : α) : ofJson (toJson a) = some a

namespace Codec

def string : Codec String where
  toJson := .str
  ofJson
    | .str s => some s
    | _ => none
  ofJson_toJson _ := rfl

def bool : Codec Bool where
  toJson := .bool
  ofJson
    | .bool b => some b
    | _ => none
  ofJson_toJson _ := rfl

/-- Numbers, where only integers are written. -/
def int : Codec ℤ where
  toJson i := .num (.ofInt i)
  ofJson
    | .num n => n.toInt
    | _ => none
  ofJson_toJson i := Numeral.toInt_ofInt i

def nat : Codec ℕ where
  toJson n := .num (.ofInt n)
  ofJson
    | .num n => n.toInt.map Int.toNat
    | _ => none
  ofJson_toJson n := by simp

/-- Numbers kept as they are written. -/
def numeral : Codec Numeral where
  toJson := .num
  ofJson
    | .num n => some n
    | _ => none
  ofJson_toJson _ := rfl

/-- Any JSON, kept as it is. -/
def value : Codec Value := ⟨id, some, fun _ => rfl⟩

/-- A type written as another one, which may hold more than it. -/
def refine (c : Codec β) (f : α → β) (g : β → Option α) (h : ∀ a, g (f a) = some a) : Codec α where
  toJson a := c.toJson (f a)
  ofJson v := (c.ofJson v).bind g
  ofJson_toJson a := by rw [c.ofJson_toJson, Option.bind_some, h]

/-- A named constant. -/
def named (name : α → String) (ofName : String → Option α) (h : ∀ a, ofName (name a) = some a) :
    Codec α where
  toJson a := .str (name a)
  ofJson
    | .str s => ofName s
    | _ => none
  ofJson_toJson := h

/-- A value or `null`. -/
def nullable (c : Codec α) (h : ∀ a, c.toJson a ≠ .null) : Codec (Option α) where
  toJson
    | none => .null
    | some a => c.toJson a
  ofJson
    | .null => some none
    | v => (c.ofJson v).map some
  ofJson_toJson := by
    intro a
    cases a with
    | none => rfl
    | some a =>
      have ha := h a
      have hread := c.ofJson_toJson a
      simp only
      rw [hread, Option.map_some]

def list (c : Codec α) : Codec (List α) where
  toJson xs := .arr (xs.map c.toJson)
  ofJson
    | .arr vs => vs.mapM c.ofJson
    | _ => none
  ofJson_toJson := by
    intro xs
    induction xs with
    | nil => rfl
    | cons x xs ih =>
      simp only [List.map_cons, List.mapM_cons, c.ofJson_toJson] at ih ⊢
      rw [ih]
      rfl

end Codec

/-- Some keys of an object, and what they hold. -/
structure Member (α : Type*) where
  keys : List String
  write : α → List (String × Value)
  read : (String → Option Value) → Option α
  key_mem (a : α) : ∀ m ∈ write a, m.1 ∈ keys
  read_write (a : α) (look : String → Option Value)
    (h : ∀ key ∈ keys, look key = member (write a) key) : read look = some a

namespace Member

def required (key : String) (c : Codec α) : Member α where
  keys := [key]
  write a := [(key, c.toJson a)]
  read look := (look key).bind c.ofJson
  key_mem := by simp
  read_write := by
    intro a look h
    have hkey : look key = some (c.toJson a) := by
      rw [h key List.mem_cons_self]
      simp [member]
    rw [hkey]
    exact c.ofJson_toJson a

/-- A key that may be absent. -/
def optional (key : String) (c : Codec α) : Member (Option α) where
  keys := [key]
  write a := (a.map fun a => (key, c.toJson a)).toList
  read look := match look key with
    | none => some none
    | some v => (c.ofJson v).map some
  key_mem := by
    intro a
    cases a <;> simp
  read_write := by
    intro a look h
    cases a with
    | none =>
      have hkey : look key = none := h key List.mem_cons_self
      simp [hkey]
    | some a =>
      have hkey : look key = some (c.toJson a) := by
        rw [h key List.mem_cons_self]
        simp [member]
      simp [hkey, c.ofJson_toJson]

/-- A key whose value never varies; it is written and not looked at. -/
def constant (key : String) (v : Value) : Member Unit where
  keys := [key]
  write _ := [(key, v)]
  read _ := some ()
  key_mem := by simp
  read_write _ _ _ := rfl

/-- The keys of two descriptions, when they have none in common. -/
def both (m : Member α) (n : Member β) (h : ∀ key ∈ m.keys, key ∉ n.keys := by decide) :
    Member (α × β) where
  keys := m.keys ++ n.keys
  write a := m.write a.1 ++ n.write a.2
  read look := (m.read look).bind fun a => (n.read look).map fun b => (a, b)
  key_mem := by
    intro a p hp
    obtain hp | hp := List.mem_append.mp hp
    · exact List.mem_append_left _ (m.key_mem a.1 p hp)
    · exact List.mem_append_right _ (n.key_mem a.2 p hp)
  read_write := by
    intro a look hlook
    have hm : m.read look = some a.1 := by
      apply m.read_write
      intro key hkey
      rw [hlook key (List.mem_append_left _ hkey)]
      apply member_append_left
      rintro p hp rfl
      exact h p.1 hkey (n.key_mem a.2 p hp)
    have hn : n.read look = some a.2 := by
      apply n.read_write
      intro key hkey
      rw [hlook key (List.mem_append_right _ hkey)]
      apply member_append_right
      rintro p hp rfl
      exact h p.1 (m.key_mem a.1 p hp) hkey
    simp [hm, hn]

/-- The same keys for a type that is built from what they hold. -/
def map (m : Member α) (split : β → α) (build : α → β) (h : ∀ b, build (split b) = b) : Member β where
  keys := m.keys
  write b := m.write (split b)
  read look := (m.read look).map build
  key_mem b := m.key_mem (split b)
  read_write := by
    intro b look hlook
    rw [m.read_write (split b) look hlook, Option.map_some, h]

lemma read_self (m : Member α) (a : α) : m.read (member (m.write a)) = some a :=
  m.read_write a _ fun _ _ => rfl

/-- A record whose keys are all described. -/
def object (m : Member α) : Codec α where
  toJson a := .obj (m.write a)
  ofJson
    | .obj members => m.read (member members)
    | _ => none
  ofJson_toJson := m.read_self

end Member

end JsonText
