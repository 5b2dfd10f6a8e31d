import Mathlib.Data.List.Basic
import Mathlib.Data.List.TakeWhile
import Mathlib.Data.Nat.Basic
import Mathlib.Tactic.SplitIfs

/-!
# JSON texts

Values, their text with any indentation, and a reader that takes a text one character at a time.
The reader's state is what it is in the middle of, so a text that stops early leaves it waiting:
no proper prefix of an object's text is itself a text.
-/

namespace JsonText

section Numerals

/-- The characters a number is made of. -/
def isNumeralChar (c : Char) : Bool := c.isDigit || c = '-' || c = '+' || c = '.' || c = 'e' || c = 'E'

def unsigned : List Char → List Char
  | [] => []
  | c :: text => if c = '-' then text else c :: text

/-- A whole part has no leading zero. -/
def isWhole (digits : List Char) : Bool := digits = ['0'] || (digits ≠ [] && digits.head? ≠ some '0')

def isExponent : List Char → Bool
  | [] => true
  | c :: text =>
    let digits := if text.head? = some '+' || text.head? = some '-' then text.tail else text
    (c = 'e' || c = 'E') && digits ≠ [] && digits.all Char.isDigit

def isFraction : List Char → Bool
  | [] => true
  | c :: text =>
    if c = '.' then text.takeWhile Char.isDigit ≠ [] && isExponent (text.dropWhile Char.isDigit)
    else isExponent (c :: text)

def isNumeral (text : List Char) : Bool :=
  text.all isNumeralChar && isWhole ((unsigned text).takeWhile Char.isDigit) &&
    isFraction ((unsigned text).dropWhile Char.isDigit)

/-- A number as it is written. -/
structure Numeral where
  text : List Char
  numeral : isNumeral text = true
deriving DecidableEq

def digits (n : ℕ) : List Char := Nat.toDigits 10 n

def intText : ℤ → List Char
  | .ofNat n => digits n
  | .negSucc n => '-' :: digits (n + 1)

/-- The integer that a text of digits spells. -/
def natOf (text : List Char) : Option ℕ :=
  if text ≠ [] && text.all Char.isDigit then some (Nat.ofDigitChars 10 text 0) else none

def intOf : List Char → Option ℤ
  | [] => none
  | c :: text =>
    if c = '-' then (natOf text).map fun n : ℕ => -(n : ℤ) else (natOf (c :: text)).map Int.ofNat

lemma isDigit_of_mem_digits {n : ℕ} {c : Char} (h : c ∈ digits n) : c.isDigit :=
  Nat.isDigit_of_mem_toDigits (by omega) (by omega) h

lemma digits_ne_nil (n : ℕ) : digits n ≠ [] := Nat.toDigits_ne_nil

lemma ne_dash_of_isDigit {c : Char} (h : c.isDigit) : c ≠ '-' := by
  rintro rfl
  exact absurd h (by decide)

lemma natOf_digits (n : ℕ) : natOf (digits n) = some n := by
  have hall : (digits n).all Char.isDigit := List.all_eq_true.mpr fun c hc => isDigit_of_mem_digits hc
  have hvalue : Nat.ofDigitChars 10 (digits n) 0 = n := Nat.ofDigitChars_ten_toDigits
  simp [natOf, digits_ne_nil, hall, hvalue]

/-- Only zero starts with a zero. -/
lemma isWhole_digits (n : ℕ) : isWhole (digits n) := by
  induction n using Nat.strongRecOn with
  | ind n ih =>
    unfold digits
    by_cases h : n < 10
    · rw [Nat.toDigits_of_lt_base h]
      clear ih
      revert n
      decide
    · have hpos : 0 < n / 10 := by omega
      have hhead := ih (n / 10) (by omega)
      rw [Nat.toDigits_of_base_le (by omega) (by omega)]
      unfold digits at hhead
      unfold isWhole at hhead ⊢
      have hne : Nat.toDigits 10 (n / 10) ≠ [] := Nat.toDigits_ne_nil
      have hzero : Nat.toDigits 10 (n / 10) ≠ ['0'] := by
        intro heq
        have hvalue : Nat.ofDigitChars 10 (Nat.toDigits 10 (n / 10)) 0 = n / 10 :=
          Nat.ofDigitChars_ten_toDigits
        rw [heq] at hvalue
        have : Nat.ofDigitChars 10 ['0'] 0 = 0 := by decide
        omega
      cases htext : Nat.toDigits 10 (n / 10) with
      | nil => exact absurd htext hne
      | cons c text =>
        rw [htext] at hhead hzero
        have hc : c ≠ '0' := by
          rintro rfl
          simp at hhead hzero
          exact hzero hhead
        simp [hc]

lemma takeWhile_digits (n : ℕ) : (digits n).takeWhile Char.isDigit = digits n :=
  List.takeWhile_eq_self_iff.mpr fun _ hc => isDigit_of_mem_digits hc

lemma dropWhile_digits (n : ℕ) : (digits n).dropWhile Char.isDigit = [] :=
  List.dropWhile_eq_nil_iff.mpr fun _ hc => isDigit_of_mem_digits hc

lemma unsigned_digits (n : ℕ) : unsigned (digits n) = digits n := by
  cases h : digits n with
  | nil => rfl
  | cons c text =>
    have hc : c.isDigit := isDigit_of_mem_digits (n := n) (by rw [h]; exact List.mem_cons_self)
    simp [unsigned, ne_dash_of_isDigit hc]

lemma all_digits (n : ℕ) : (digits n).all isNumeralChar :=
  List.all_eq_true.mpr fun c hc => by simp [isNumeralChar, isDigit_of_mem_digits hc]

lemma isNumeral_intText (i : ℤ) : isNumeral (intText i) := by
  cases i with
  | ofNat n =>
    simp [isNumeral, intText, unsigned_digits, takeWhile_digits, dropWhile_digits, isWhole_digits,
      all_digits, isFraction]
  | negSucc n =>
    have hdash : isNumeralChar '-' := by decide
    simp [isNumeral, intText, unsigned, takeWhile_digits, dropWhile_digits, isWhole_digits,
      all_digits, isFraction, hdash]

lemma intOf_digits (n : ℕ) : intOf (digits n) = some (n : ℤ) := by
  have hn := natOf_digits n
  cases h : digits n with
  | nil => exact absurd h (digits_ne_nil n)
  | cons c text =>
    have hc : c.isDigit := isDigit_of_mem_digits (n := n) (by rw [h]; exact List.mem_cons_self)
    rw [h] at hn
    simp [intOf, ne_dash_of_isDigit hc, hn]

lemma intOf_intText (i : ℤ) : intOf (intText i) = some i := by
  cases i with
  | ofNat n => exact intOf_digits n
  | negSucc n =>
    have hn := natOf_digits (n + 1)
    change ((natOf (digits (n + 1))).map fun n : ℕ => -(n : ℤ)) = _
    rw [hn]
    rfl

def Numeral.ofInt (i : ℤ) : Numeral := ⟨intText i, isNumeral_intText i⟩

/-- The integer a numeral spells without fraction or exponent. -/
def Numeral.toInt (n : Numeral) : Option ℤ := intOf n.text

@[simp] lemma Numeral.toInt_ofInt (i : ℤ) : (Numeral.ofInt i).toInt = some i := intOf_intText i

lemma Numeral.ne_nil (n : Numeral) : n.text ≠ [] := by
  intro h
  have hn := n.numeral
  rw [h] at hn
  exact absurd hn (by decide)

/-- A number starts with a sign or a digit. -/
lemma Numeral.head {n : Numeral} {c : Char} {text : List Char} (h : n.text = c :: text) :
    c.isDigit ∨ c = '-' := by
  have hn := n.numeral
  rw [h] at hn
  by_contra hc
  simp only [not_or] at hc
  simp [isNumeral, unsigned, hc, isWhole] at hn

end Numerals

inductive Value
  | null
  | bool (b : Bool)
  | num (n : Numeral)
  | str (s : String)
  | arr (xs : List Value)
  | obj (members : List (String × Value))

def quote : Char := Char.ofNat 34

def backslash : Char := Char.ofNat 92

/-- The white space between the tokens of a text. -/
def isSpace (c : Char) : Bool := c = ' ' || c = '\n' || c = '\t' || c = '\r'

section Writing

def hexDigit (n : ℕ) : Char := Nat.digitChar n

/-- The characters a text writes after a backslash, each with the one it stands for. -/
def escapes : List (Char × Char) :=
  [(quote, quote), (backslash, backslash), ('b', Char.ofNat 8), ('f', Char.ofNat 12), ('n', '\n'),
    ('r', '\r'), ('t', '\t')]

def writeChar (c : Char) : List Char :=
  match escapes.find? fun e => e.2 = c with
  | some e => [backslash, e.1]
  | none =>
    if c.toNat < 32 then [backslash, 'u', '0', '0', hexDigit (c.toNat / 16), hexDigit (c.toNat % 16)]
    else [c]

def writeString (s : String) : List Char := quote :: (s.toList.flatMap writeChar ++ [quote])

variable (indent : ℕ)

/-- What stands before an element: a new line, when the text is indented. -/
def newline (depth : ℕ) : List Char :=
  if indent = 0 then [] else '\n' :: List.replicate (indent * depth) ' '

def colon : List Char := if indent = 0 then [':'] else [':', ' ']

mutual

/-- `JSON.stringify(value, null, indent)`, at a nesting depth. -/
def write (depth : ℕ) : Value → List Char
  | .null => ['n', 'u', 'l', 'l']
  | .bool true => ['t', 'r', 'u', 'e']
  | .bool false => ['f', 'a', 'l', 's', 'e']
  | .num n => n.text
  | .str s => writeString s
  | .arr [] => ['[', ']']
  | .arr (x :: xs) =>
    '[' :: (newline indent (depth + 1) ++ (write (depth + 1) x ++ (writeElements (depth + 1) xs ++
      (newline indent depth ++ [']']))))
  | .obj [] => ['{', '}']
  | .obj (m :: ms) =>
    '{' :: (newline indent (depth + 1) ++ (writeMember (depth + 1) m ++
      (writeMembers (depth + 1) ms ++ (newline indent depth ++ ['}']))))

def writeMember (depth : ℕ) : String × Value → List Char
  | (key, x) => writeString key ++ (colon indent ++ write depth x)

def writeElements (depth : ℕ) : List Value → List Char
  | [] => []
  | x :: xs => ',' :: (newline indent depth ++ (write depth x ++ writeElements depth xs))

def writeMembers (depth : ℕ) : List (String × Value) → List Char
  | [] => []
  | m :: ms => ',' :: (newline indent depth ++ (writeMember depth m ++ writeMembers depth ms))

end

end Writing

section Reading

/-- What encloses the value being read, with what came before it. -/
inductive Frame
  | array (before : List Value)
  | object (before : List (String × Value))
  | member (before : List (String × Value)) (key : String)

/-- How far the reader is into an escape: the hexadecimal digits after `u` are collected. -/
inductive Escape
  | plain
  | escaped
  | unicode (digits : List Char)

/-- What the reader is in the middle of; the characters read so far are in reverse. -/
inductive Phase
  | value
  | firstElement
  | firstKey
  | key
  | colon (name : String)
  | after (v : Value)
  | text (ofKey : Bool) (read : List Char) (escape : Escape)
  | word (rest : List Char) (v : Value)
  | number (read : List Char)

structure Reader where
  stack : List Frame
  phase : Phase

def start : Reader := ⟨[], .value⟩

def startValue (stack : List Frame) (c : Char) : Option Reader :=
  if c = '{' then some ⟨.object [] :: stack, .firstKey⟩
  else if c = '[' then some ⟨.array [] :: stack, .firstElement⟩
  else if c = quote then some ⟨stack, .text false [] .plain⟩
  else if c = 'n' then some ⟨stack, .word ['u', 'l', 'l'] .null⟩
  else if c = 't' then some ⟨stack, .word ['r', 'u', 'e'] (.bool true)⟩
  else if c = 'f' then some ⟨stack, .word ['a', 'l', 's', 'e'] (.bool false)⟩
  else if c.isDigit || c = '-' then some ⟨stack, .number [c]⟩
  else none

def afterValue (stack : List Frame) (v : Value) (c : Char) : Option Reader :=
  if isSpace c then some ⟨stack, .after v⟩
  else match stack with
    | .array before :: stack =>
      if c = ',' then some ⟨.array (before ++ [v]) :: stack, .value⟩
      else if c = ']' then some ⟨stack, .after (.arr (before ++ [v]))⟩
      else none
    | .member before name :: stack =>
      if c = ',' then some ⟨.object (before ++ [(name, v)]) :: stack, .key⟩
      else if c = '}' then some ⟨stack, .after (.obj (before ++ [(name, v)]))⟩
      else none
    | _ => none

def hexValue (c : Char) : Option ℕ :=
  if c.isDigit then some (c.toNat - 48)
  else if 97 ≤ c.toNat && c.toNat ≤ 102 then some (c.toNat - 87)
  else if 65 ≤ c.toNat && c.toNat ≤ 70 then some (c.toNat - 55)
  else none

/-- The character of four hexadecimal digits; a surrogate alone stands for no character. -/
def unicodeChar (digits : List Char) : Char :=
  let code := digits.foldl (fun n c => 16 * n + (hexValue c).getD 0) 0
  if 0xD800 ≤ code && code ≤ 0xDFFF then Char.ofNat 0xFFFD else Char.ofNat code

def textStep (stack : List Frame) (ofKey : Bool) (read : List Char) (c : Char) : Escape → Option Reader
  | .plain =>
    if c = quote then
      let s := String.ofList read.reverse
      some ⟨stack, if ofKey then .colon s else .after (.str s)⟩
    else if c = backslash then some ⟨stack, .text ofKey read .escaped⟩
    else if c.toNat < 32 then none
    else some ⟨stack, .text ofKey (c :: read) .plain⟩
  | .escaped =>
    if c = 'u' then some ⟨stack, .text ofKey read (.unicode [])⟩
    else if c = '/' then some ⟨stack, .text ofKey ('/' :: read) .plain⟩
    else (escapes.find? fun e => e.1 = c).map fun e => ⟨stack, .text ofKey (e.2 :: read) .plain⟩
  | .unicode digits =>
    if (hexValue c).isNone then none
    else if digits.length < 3 then some ⟨stack, .text ofKey read (.unicode (digits ++ [c]))⟩
    else some ⟨stack, .text ofKey (unicodeChar (digits ++ [c]) :: read) .plain⟩

def step (r : Reader) (c : Char) : Option Reader :=
  match r.phase with
  | .value => if isSpace c then some r else startValue r.stack c
  | .firstElement =>
    if isSpace c then some r
    else if c = ']' then r.stack.tail?.map fun stack => ⟨stack, .after (.arr [])⟩
    else startValue r.stack c
  | .firstKey =>
    if isSpace c then some r
    else if c = '}' then r.stack.tail?.map fun stack => ⟨stack, .after (.obj [])⟩
    else if c = quote then some ⟨r.stack, .text true [] .plain⟩
    else none
  | .key =>
    if isSpace c then some r
    else if c = quote then some ⟨r.stack, .text true [] .plain⟩
    else none
  | .colon name =>
    if isSpace c then some r
    else match r.stack with
      | .object before :: stack => if c = ':' then some ⟨.member before name :: stack, .value⟩ else none
      | _ => none
  | .after v => afterValue r.stack v c
  | .text ofKey read escape => textStep r.stack ofKey read c escape
  | .word rest v =>
    match rest with
    | [] => none
    | d :: rest =>
      if c.isAlpha && c = d then some ⟨r.stack, if rest = [] then .after v else .word rest v⟩ else none
  | .number read =>
    if isNumeralChar c then some ⟨r.stack, .number (c :: read)⟩
    else if h : isNumeral read.reverse then afterValue r.stack (.num ⟨read.reverse, h⟩) c
    else none

/-- The value of a text that ends here. -/
def finish (r : Reader) : Option Value :=
  match r.stack, r.phase with
  | [], .after v => some v
  | [], .number read => if h : isNumeral read.reverse then some (.num ⟨read.reverse, h⟩) else none
  | _, _ => none

def read (r : Reader) (text : List Char) : Option Value := (text.foldlM step r).bind finish

/-- `JSON.parse(text)`; `none` is a syntax error. -/
def parse (text : List Char) : Option Value := read start text

end Reading

section Runs

variable {r : Reader} {text rest : List Char} {K : List Frame}

@[simp] lemma read_nil : read r [] = finish r := rfl

lemma read_cons (c : Char) : read r (c :: text) = (step r c).bind fun r => read r text := by
  unfold read
  rw [List.foldlM_cons, Option.bind_eq_bind, Option.bind_assoc]

lemma read_of_step {r' : Reader} {c : Char} (h : step r c = some r') :
    read r (c :: text) = read r' text := by
  rw [read_cons, h]
  rfl

lemma read_of_step_none {c : Char} (h : step r c = none) : read r (c :: text) = none := by
  rw [read_cons, h]
  rfl

/-- Between tokens the reader passes over white space. -/
def Idle : Phase → Prop
  | .text _ _ _ => False
  | .word _ _ => False
  | .number _ => False
  | _ => True

lemma step_space {ph : Phase} (hph : Idle ph) {c : Char} (hc : isSpace c) :
    step ⟨K, ph⟩ c = some ⟨K, ph⟩ := by
  cases ph <;> simp_all [Idle, step, afterValue]

lemma read_spaces {ph : Phase} (hph : Idle ph) {spaces : List Char} (h : ∀ c ∈ spaces, isSpace c) :
    read ⟨K, ph⟩ (spaces ++ text) = read ⟨K, ph⟩ text := by
  induction spaces with
  | nil => rfl
  | cons c spaces ih =>
    have hc : isSpace c := h c List.mem_cons_self
    have hspaces : ∀ d ∈ spaces, isSpace d := fun d hd => h d (List.mem_cons_of_mem c hd)
    rw [List.cons_append, read_of_step (step_space hph hc), ih hspaces]

lemma isSpace_newline {indent depth : ℕ} : ∀ c ∈ newline indent depth, isSpace c := by
  intro c hc
  unfold newline at hc
  split_ifs at hc
  · simp at hc
  · simp only [List.mem_cons, List.mem_replicate] at hc
    obtain rfl | ⟨-, rfl⟩ := hc <;> decide

lemma read_newline (ph : Phase) (hph : Idle ph) (indent depth : ℕ) :
    read ⟨K, ph⟩ (newline indent depth ++ text) = read ⟨K, ph⟩ text :=
  read_spaces hph isSpace_newline

end Runs

section Strings

variable {K : List Frame} {ofKey : Bool} {seen : List Char} {text : List Char}

lemma textStep_escaped {e : Char × Char} (h : e ∈ escapes) :
    textStep K ofKey seen e.1 .escaped = some ⟨K, .text ofKey (e.2 :: seen) .plain⟩ := by
  simp only [escapes, List.mem_cons, List.not_mem_nil, or_false] at h
  obtain rfl | rfl | rfl | rfl | rfl | rfl | rfl := h <;> rfl

lemma unicodeChar_lt : ∀ n < 32,
    unicodeChar ['0', '0', hexDigit (n / 16), hexDigit (n % 16)] = Char.ofNat n ∧
      (hexValue (hexDigit (n / 16))).isSome ∧ (hexValue (hexDigit (n % 16))).isSome := by
  decide

lemma step_unicode {digits : List Char} {c : Char} (hc : (hexValue c).isSome) (h : digits.length < 3) :
    step ⟨K, .text ofKey seen (.unicode digits)⟩ c =
      some ⟨K, .text ofKey seen (.unicode (digits ++ [c]))⟩ := by
  have hsome : (hexValue c).isNone = false := by simpa using hc
  simp [step, textStep, hsome, h]

lemma read_unicode {a b c d : Char} (ha : (hexValue a).isSome) (hb : (hexValue b).isSome)
    (hc : (hexValue c).isSome) (hd : (hexValue d).isSome) :
    read ⟨K, .text ofKey seen .plain⟩ (backslash :: 'u' :: a :: b :: c :: d :: text) =
      read ⟨K, .text ofKey (unicodeChar [a, b, c, d] :: seen) .plain⟩ text := by
  have hback : step ⟨K, .text ofKey seen .plain⟩ backslash = some ⟨K, .text ofKey seen .escaped⟩ := rfl
  have hu : step ⟨K, .text ofKey seen .escaped⟩ 'u' = some ⟨K, .text ofKey seen (.unicode [])⟩ := rfl
  have hlast : step ⟨K, .text ofKey seen (.unicode [a, b, c])⟩ d =
      some ⟨K, .text ofKey (unicodeChar [a, b, c, d] :: seen) .plain⟩ := by
    have hsome : (hexValue d).isNone = false := by simpa using hd
    simp [step, textStep, hsome]
  rw [read_of_step hback, read_of_step hu, read_of_step (step_unicode ha (by simp)),
    read_of_step (step_unicode hb (by simp)), read_of_step (step_unicode hc (by simp))]
  exact read_of_step hlast

lemma read_writeChar (c : Char) : read ⟨K, .text ofKey seen .plain⟩ (writeChar c ++ text) =
    read ⟨K, .text ofKey (c :: seen) .plain⟩ text := by
  unfold writeChar
  split
  next e he =>
    have hback : step ⟨K, .text ofKey seen .plain⟩ backslash = some ⟨K, .text ofKey seen .escaped⟩ :=
      rfl
    have hc : e.2 = c := by simpa using List.find?_some he
    have hstep : step ⟨K, .text ofKey seen .escaped⟩ e.1 =
        some ⟨K, .text ofKey (e.2 :: seen) .plain⟩ := textStep_escaped (List.mem_of_find?_eq_some he)
    rw [hc] at hstep
    change read _ (backslash :: e.1 :: text) = _
    rw [read_of_step hback, read_of_step hstep]
  next hnone =>
    have hplain : ∀ e ∈ escapes, e.2 ≠ c := by simpa using hnone
    have hquote : c ≠ quote := fun h => hplain (quote, quote) (by decide) h.symm
    have hback : c ≠ backslash := fun h => hplain (backslash, backslash) (by decide) h.symm
    split_ifs with hlt
    · obtain ⟨hchar, hhigh, hlow⟩ := unicodeChar_lt c.toNat hlt
      have hzero : (hexValue '0').isSome := by decide
      change read _ (backslash :: 'u' :: '0' :: '0' :: _ :: _ :: text) = _
      rw [read_unicode hzero hzero hhigh hlow, hchar, Char.ofNat_toNat]
    · have hstep : step ⟨K, .text ofKey seen .plain⟩ c = some ⟨K, .text ofKey (c :: seen) .plain⟩ := by
        simp [step, textStep, hquote, hback, hlt]
      exact read_of_step hstep

lemma read_writeChars (chars : List Char) :
    read ⟨K, .text ofKey seen .plain⟩ (chars.flatMap writeChar ++ text) =
      read ⟨K, .text ofKey (chars.reverse ++ seen) .plain⟩ text := by
  induction chars generalizing seen with
  | nil => rfl
  | cons c chars ih =>
    rw [List.flatMap_cons, List.append_assoc, read_writeChar, ih, List.reverse_cons, List.append_assoc]
    rfl

/-- A string is read back, as a value or as a key. -/
lemma read_string (s : String) :
    read ⟨K, .text ofKey [] .plain⟩ (s.toList.flatMap writeChar ++ quote :: text) =
      read ⟨K, if ofKey then .colon s else .after (.str s)⟩ text := by
  have hstep : step ⟨K, .text ofKey s.toList.reverse .plain⟩ quote =
      some ⟨K, if ofKey then .colon s else .after (.str s)⟩ := by
    simp [step, textStep]
  rw [read_writeChars, List.append_nil, read_of_step hstep]

end Strings

section Numbers

variable {K : List Frame} {text : List Char}

/-- A text that does not go on with a number. -/
def Bounded (text : List Char) : Prop := ∀ c ∈ text.head?, isNumeralChar c = false

@[simp] lemma bounded_nil : Bounded [] := by simp [Bounded]

lemma bounded_cons {c : Char} (h : isNumeralChar c = false) : Bounded (c :: text) := by
  simpa [Bounded] using h

lemma bounded_newline (indent depth : ℕ) (h : Bounded text) :
    Bounded (newline indent depth ++ text) := by
  unfold newline
  split_ifs
  · exact h
  · exact bounded_cons (by decide)

lemma read_numeralChars {seen chars : List Char} (h : ∀ c ∈ chars, isNumeralChar c) :
    read ⟨K, .number seen⟩ (chars ++ text) = read ⟨K, .number (chars.reverse ++ seen)⟩ text := by
  induction chars generalizing seen with
  | nil => rfl
  | cons c chars ih =>
    have hstep : step ⟨K, .number seen⟩ c = some ⟨K, .number (c :: seen)⟩ := by
      simp [step, h c List.mem_cons_self]
    have hchars : ∀ d ∈ chars, isNumeralChar d := fun d hd => h d (List.mem_cons_of_mem c hd)
    rw [List.cons_append, read_of_step hstep, ih hchars, List.reverse_cons, List.append_assoc]
    rfl

/-- A number is complete when something else follows. -/
lemma read_number (n : Numeral) (h : Bounded text) :
    read ⟨K, .number n.text.reverse⟩ text = read ⟨K, .after (.num n)⟩ text := by
  cases text with
  | nil => cases K <;> simp [finish, n.numeral]
  | cons c text =>
    have hc : isNumeralChar c = false := h c rfl
    have hstep : step ⟨K, .number n.text.reverse⟩ c = step ⟨K, .after (.num n)⟩ c := by
      simp [step, hc, n.numeral]
    rw [read_cons, read_cons, hstep]

lemma startValue_number {c : Char} (h : c.isDigit ∨ c = '-') :
    step ⟨K, .value⟩ c = some ⟨K, .number [c]⟩ := by
  obtain hdigit | rfl := h
  · have hne : ∀ d : Char, d.isDigit = false → c ≠ d := by
      rintro d hd rfl
      rw [hdigit] at hd
      exact absurd hd (by decide)
    have hspace : isSpace c = false := by
      simp [isSpace, hne ' ' (by decide), hne '\n' (by decide), hne '\t' (by decide),
        hne '\r' (by decide)]
    simp [step, hspace, startValue, hdigit, hne '{' (by decide), hne '[' (by decide),
      hne quote (by decide), hne 'n' (by decide), hne 't' (by decide), hne 'f' (by decide)]
  · rfl

lemma read_numeral (n : Numeral) (h : Bounded text) :
    read ⟨K, .value⟩ (n.text ++ text) = read ⟨K, .after (.num n)⟩ text := by
  cases htext : n.text with
  | nil => exact absurd htext n.ne_nil
  | cons c chars =>
    have hvalid := n.numeral
    rw [isNumeral, Bool.and_eq_true, Bool.and_eq_true, htext] at hvalid
    have hchars : ∀ d ∈ chars, isNumeralChar d := fun d hd =>
      List.all_eq_true.mp hvalid.1.1 d (List.mem_cons_of_mem c hd)
    have hrev : chars.reverse ++ [c] = n.text.reverse := by rw [htext, List.reverse_cons]
    rw [List.cons_append, read_of_step (startValue_number (n.head htext)), read_numeralChars hchars,
      hrev, read_number n h]

end Numbers

section RoundTrip

variable (indent : ℕ)

lemma read_word {K : List Frame} {v : Value} {word : List Char} {text : List Char}
    (hword : ∀ c ∈ word, c.isAlpha) (hne : word ≠ []) :
    read ⟨K, .word word v⟩ (word ++ text) = read ⟨K, .after v⟩ text := by
  induction word with
  | nil => exact absurd rfl hne
  | cons d word ih =>
    have hd : d.isAlpha := hword d List.mem_cons_self
    by_cases hlast : word = []
    · subst hlast
      exact read_of_step (by simp [step, hd])
    · have hstep : step ⟨K, .word (d :: word) v⟩ d = some ⟨K, .word word v⟩ := by
        simp [step, hd, hlast]
      rw [List.cons_append, read_of_step hstep]
      exact ih (fun c hc => hword c (List.mem_cons_of_mem d hc)) hlast

lemma bounded_writeElements (depth : ℕ) (xs : List Value) {text : List Char} (h : Bounded text) :
    Bounded (writeElements indent depth xs ++ text) := by
  cases xs with
  | nil => exact h
  | cons x xs =>
    rw [writeElements]
    exact bounded_cons (by decide)

lemma bounded_writeMembers (depth : ℕ) (ms : List (String × Value)) {text : List Char}
    (h : Bounded text) : Bounded (writeMembers indent depth ms ++ text) := by
  cases ms with
  | nil => exact h
  | cons m ms =>
    rw [writeMembers]
    exact bounded_cons (by decide)

lemma read_colon {K : List Frame} {before : List (String × Value)} {name : String}
    {text : List Char} : read ⟨.object before :: K, .colon name⟩ (colon indent ++ text) =
      read ⟨.member before name :: K, .value⟩ text := by
  unfold colon
  split_ifs
  · exact read_of_step rfl
  · exact (read_of_step rfl).trans (read_of_step rfl)

/-- What a written value starts with neither ends an array nor is passed over. -/
lemma write_head (v : Value) (depth : ℕ) :
    ∃ c text, write indent depth v = c :: text ∧ isSpace c = false ∧ c ≠ ']' := by
  match v with
  | .null => exact ⟨'n', _, rfl, rfl, by decide⟩
  | .bool true => exact ⟨'t', _, rfl, rfl, by decide⟩
  | .bool false => exact ⟨'f', _, rfl, rfl, by decide⟩
  | .num n =>
    cases htext : n.text with
    | nil => exact absurd htext n.ne_nil
    | cons c text =>
      refine ⟨c, text, htext, ?_⟩
      obtain hdigit | rfl := n.head htext
      · have hne : ∀ d : Char, d.isDigit = false → c ≠ d := by
          rintro d hd rfl
          rw [hdigit] at hd
          exact absurd hd (by decide)
        simp [isSpace, hne ' ' (by decide), hne '\n' (by decide), hne '\t' (by decide),
          hne '\r' (by decide), hne ']' (by decide)]
      · decide
  | .str s => exact ⟨quote, _, rfl, rfl, by decide⟩
  | .arr [] => exact ⟨'[', _, rfl, rfl, by decide⟩
  | .arr (x :: xs) => exact ⟨'[', _, rfl, rfl, by decide⟩
  | .obj [] => exact ⟨'{', _, rfl, rfl, by decide⟩
  | .obj (m :: ms) => exact ⟨'{', _, rfl, rfl, by decide⟩

lemma read_firstElement {K : List Frame} {x : Value} {depth : ℕ} {text : List Char} :
    read ⟨K, .firstElement⟩ (write indent depth x ++ text) =
      read ⟨K, .value⟩ (write indent depth x ++ text) := by
  obtain ⟨c, rest, heq, hspace, hclose⟩ := write_head indent x depth
  have hstep : step ⟨K, .firstElement⟩ c = step ⟨K, .value⟩ c := by simp [step, hspace, hclose]
  rw [heq, List.cons_append, read_cons, read_cons, hstep]

lemma read_firstKey {K : List Frame} {m : String × Value} {depth : ℕ} {text : List Char} :
    read ⟨K, .firstKey⟩ (writeMember indent depth m ++ text) =
      read ⟨K, .key⟩ (writeMember indent depth m ++ text) := by
  have hstep : step ⟨K, .firstKey⟩ quote = step ⟨K, .key⟩ quote := rfl
  rw [writeMember, writeString, List.cons_append, List.cons_append, read_cons, read_cons, hstep]

mutual

/-- Reading a written value, wherever it stands, completes it. -/
theorem read_write (v : Value) (depth : ℕ) (K : List Frame) (text : List Char) (h : Bounded text) :
    read ⟨K, .value⟩ (write indent depth v ++ text) = read ⟨K, .after v⟩ text := by
  match v with
  | .null => exact (read_of_step rfl).trans (read_word (List.all_eq_true.mp rfl) (List.cons_ne_nil _ _))
  | .bool true => exact (read_of_step rfl).trans (read_word (List.all_eq_true.mp rfl) (List.cons_ne_nil _ _))
  | .bool false => exact (read_of_step rfl).trans (read_word (List.all_eq_true.mp rfl) (List.cons_ne_nil _ _))
  | .num n => exact read_numeral n h
  | .str s =>
    rw [write, writeString, List.cons_append, List.append_assoc]
    exact (read_of_step rfl).trans (read_string s)
  | .arr [] => exact (read_of_step rfl).trans (read_of_step rfl)
  | .arr (x :: xs) =>
    have hopen := read_write x (depth + 1) (.array [] :: K) (writeElements indent (depth + 1) xs ++
      (newline indent depth ++ (']' :: text))) (bounded_writeElements indent _ _
        (bounded_newline indent depth (bounded_cons (by decide))))
    have hrest := read_elements xs (depth + 1) depth K [] x text
    rw [write]
    simp only [List.cons_append, List.append_assoc, List.nil_append]
    have hbracket : step ⟨K, .value⟩ '[' = some ⟨.array [] :: K, .firstElement⟩ := rfl
    rw [read_of_step hbracket, read_newline .firstElement trivial, read_firstElement, hopen, hrest]
    rfl
  | .obj [] => exact (read_of_step rfl).trans (read_of_step rfl)
  | .obj (m :: ms) =>
    have hopen := read_member m (depth + 1) K [] (writeMembers indent (depth + 1) ms ++
      (newline indent depth ++ ('}' :: text))) (bounded_writeMembers indent _ _
        (bounded_newline indent depth (bounded_cons (by decide))))
    have hrest := read_members ms (depth + 1) depth K [] m text
    rw [write]
    simp only [List.cons_append, List.append_assoc, List.nil_append]
    have hbrace : step ⟨K, .value⟩ '{' = some ⟨.object [] :: K, .firstKey⟩ := rfl
    rw [read_of_step hbrace, read_newline .firstKey trivial, read_firstKey, hopen, hrest]
    rfl

theorem read_member (m : String × Value) (depth : ℕ) (K : List Frame)
    (before : List (String × Value)) (text : List Char) (h : Bounded text) :
    read ⟨.object before :: K, .key⟩ (writeMember indent depth m ++ text) =
      read ⟨.member before m.1 :: K, .after m.2⟩ text := by
  match m with
  | (name, x) =>
    have hvalue := read_write x depth (.member before name :: K) text h
    rw [writeMember, writeString]
    simp only [List.cons_append, List.append_assoc, List.nil_append]
    have hquote : step ⟨.object before :: K, .key⟩ quote =
        some ⟨.object before :: K, .text true [] .plain⟩ := rfl
    rw [read_of_step hquote, read_string]
    exact (read_colon indent).trans hvalue

theorem read_elements (xs : List Value) (depth outer : ℕ) (K : List Frame) (before : List Value)
    (v : Value) (text : List Char) :
    read ⟨.array before :: K, .after v⟩
      (writeElements indent depth xs ++ (newline indent outer ++ (']' :: text))) =
      read ⟨K, .after (.arr (before ++ v :: xs))⟩ text := by
  match xs with
  | [] =>
    rw [writeElements, List.nil_append, read_newline (.after v) trivial]
    exact read_of_step rfl
  | x :: xs =>
    have hvalue := read_write x depth (.array (before ++ [v]) :: K) (writeElements indent depth xs ++
      (newline indent outer ++ (']' :: text))) (bounded_writeElements indent _ _
        (bounded_newline indent outer (bounded_cons (by decide))))
    have hrest := read_elements xs depth outer K (before ++ [v]) x text
    rw [writeElements]
    simp only [List.cons_append, List.append_assoc]
    have hcomma : step ⟨.array before :: K, .after v⟩ ',' =
        some ⟨.array (before ++ [v]) :: K, .value⟩ := rfl
    rw [read_of_step hcomma, read_newline .value trivial, hvalue, hrest, List.append_assoc]
    rfl

theorem read_members (ms : List (String × Value)) (depth outer : ℕ) (K : List Frame)
    (before : List (String × Value)) (m : String × Value) (text : List Char) :
    read ⟨.member before m.1 :: K, .after m.2⟩
      (writeMembers indent depth ms ++ (newline indent outer ++ ('}' :: text))) =
      read ⟨K, .after (.obj (before ++ m :: ms))⟩ text := by
  match ms with
  | [] =>
    rw [writeMembers, List.nil_append, read_newline (.after m.2) trivial]
    exact read_of_step rfl
  | next :: ms =>
    have hvalue := read_member next depth K (before ++ [m]) (writeMembers indent depth ms ++
      (newline indent outer ++ ('}' :: text))) (bounded_writeMembers indent _ _
        (bounded_newline indent outer (bounded_cons (by decide))))
    have hrest := read_members ms depth outer K (before ++ [m]) next text
    rw [writeMembers]
    simp only [List.cons_append, List.append_assoc]
    have hcomma : step ⟨.member before m.1 :: K, .after m.2⟩ ',' =
        some ⟨.object (before ++ [m]) :: K, .key⟩ := rfl
    rw [read_of_step hcomma, read_newline .key trivial, hvalue, hrest, List.append_assoc]
    rfl

end

/-- `JSON.stringify(value, null, indent)`. -/
def stringify (v : Value) : List Char := write indent 0 v

/-- A written text is read back. -/
theorem parse_stringify (v : Value) : parse (stringify indent v) = some v := by
  have h := read_write indent v 0 [] [] bounded_nil
  rw [List.append_nil] at h
  exact h

end RoundTrip

section Torn

variable {r r' : Reader} {c : Char} {text : List Char} {v : Value}

/-- Inside brackets, or past a value: no number can stand at the outermost level. -/
def Enclosed (r : Reader) : Prop := r.stack ≠ [] ∨ ∃ v, r.phase = .after v

/-- The characters that may stand last in the text of an object. -/
def Closing (c : Char) : Prop := c = '}' ∨ c = ']' ∨ isSpace c

lemma afterValue_enclosed {K : List Frame} (h : afterValue K v c = some r') :
    r'.stack ≠ [] ∨ (∃ w, r'.phase = .after w) ∧ Closing c := by
  match K with
  | [] | .object before :: K =>
    simp only [afterValue] at h
    split_ifs at h with hspace
    exact Or.inr ⟨⟨v, (Option.some.inj h) ▸ rfl⟩, Or.inr (Or.inr hspace)⟩
  | .array before :: K =>
    simp only [afterValue] at h
    split_ifs at h with hspace hcomma hclose <;> obtain rfl := Option.some.inj h
    · exact Or.inl (by simp)
    · exact Or.inl (by simp)
    · exact Or.inr ⟨⟨_, rfl⟩, Or.inr (Or.inl hclose)⟩
  | .member before name :: K =>
    simp only [afterValue] at h
    split_ifs at h with hspace hcomma hclose <;> obtain rfl := Option.some.inj h
    · exact Or.inl (by simp)
    · exact Or.inl (by simp)
    · exact Or.inr ⟨⟨_, rfl⟩, Or.inl hclose⟩

lemma startValue_stack {K : List Frame} (hK : K ≠ []) (h : startValue K c = some r') :
    r'.stack ≠ [] := by
  unfold startValue at h
  split_ifs at h <;> obtain rfl := Option.some.inj h <;> simp [hK]

lemma textStep_stack {K : List Frame} {ofKey : Bool} {seen : List Char} {escape : Escape}
    (h : textStep K ofKey seen c escape = some r') : r'.stack = K := by
  cases escape with
  | escaped =>
    simp only [textStep] at h
    split_ifs at h
    · exact (Option.some.inj h) ▸ rfl
    · exact (Option.some.inj h) ▸ rfl
    · obtain ⟨e, -, rfl⟩ := Option.map_eq_some_iff.mp h
      rfl
  | plain =>
    simp only [textStep] at h
    split_ifs at h <;> exact (Option.some.inj h) ▸ rfl
  | unicode digits =>
    simp only [textStep] at h
    split_ifs at h <;> exact (Option.some.inj h) ▸ rfl

/-- Brackets are left by closing one, and what stands past a value is white space. -/
lemma step_closing (hr : Enclosed r) (h : step r c = some r') :
    r'.stack ≠ [] ∨ (∃ w, r'.phase = .after w) ∧ Closing c := by
  obtain ⟨K, ph⟩ := r
  cases ph with
  | after w => exact afterValue_enclosed h
  | value =>
    have hK : K ≠ [] := by simpa [Enclosed] using hr
    simp only [step] at h
    split_ifs at h
    · exact Or.inl ((Option.some.inj h) ▸ hK)
    · exact Or.inl (startValue_stack hK h)
  | firstElement =>
    have hK : K ≠ [] := by simpa [Enclosed] using hr
    simp only [step] at h
    split_ifs at h with hspace hclose
    · exact Or.inl ((Option.some.inj h) ▸ hK)
    · obtain ⟨stack, -, rfl⟩ := Option.map_eq_some_iff.mp h
      exact Or.inr ⟨⟨_, rfl⟩, Or.inr (Or.inl hclose)⟩
    · exact Or.inl (startValue_stack hK h)
  | firstKey =>
    have hK : K ≠ [] := by simpa [Enclosed] using hr
    simp only [step] at h
    split_ifs at h with hspace hclose
    · exact Or.inl ((Option.some.inj h) ▸ hK)
    · obtain ⟨stack, -, rfl⟩ := Option.map_eq_some_iff.mp h
      exact Or.inr ⟨⟨_, rfl⟩, Or.inl hclose⟩
    · exact Or.inl ((Option.some.inj h) ▸ hK)
  | key =>
    have hK : K ≠ [] := by simpa [Enclosed] using hr
    simp only [step] at h
    split_ifs at h <;> exact Or.inl ((Option.some.inj h) ▸ hK)
  | colon name =>
    have hK : K ≠ [] := by simpa [Enclosed] using hr
    simp only [step] at h
    by_cases hspace : isSpace c
    · rw [if_pos hspace] at h
      exact Or.inl ((Option.some.inj h) ▸ hK)
    · rw [if_neg hspace] at h
      split at h
      · split_ifs at h
        exact Or.inl ((Option.some.inj h) ▸ by simp)
      · simp at h
  | text ofKey seen escape =>
    have hK : K ≠ [] := by simpa [Enclosed] using hr
    exact Or.inl (by rw [textStep_stack h]; exact hK)
  | word rest w =>
    have hK : K ≠ [] := by simpa [Enclosed] using hr
    simp only [step] at h
    split at h
    · simp at h
    · split_ifs at h <;> exact Or.inl ((Option.some.inj h) ▸ hK)
  | number seen =>
    have hK : K ≠ [] := by simpa [Enclosed] using hr
    simp only [step] at h
    split_ifs at h
    · exact Or.inl ((Option.some.inj h) ▸ hK)
    · exact afterValue_enclosed h

lemma step_enclosed (hr : Enclosed r) (h : step r c = some r') : Enclosed r' :=
  (step_closing hr h).imp id And.left

lemma foldlM_enclosed (hr : Enclosed r) (h : text.foldlM step r = some r') : Enclosed r' := by
  induction text generalizing r with
  | nil =>
    obtain rfl := Option.some.inj h
    exact hr
  | cons c text ih =>
    rw [List.foldlM_cons] at h
    obtain ⟨next, hstep, hrest⟩ := Option.bind_eq_some_iff.mp h
    exact ih (step_enclosed hr hstep) hrest

lemma finish_enclosed (hr : Enclosed r) (h : finish r = some v) : r = ⟨[], .after v⟩ := by
  obtain ⟨K, ph⟩ := r
  unfold finish at h
  split at h
  next hK hph =>
    simp only at hK hph
    rw [hK, hph, Option.some.inj h]
  next hK hph =>
    simp only at hK hph
    simp [Enclosed, hK, hph] at hr
  · simp at h

/-- The text of an object leaves the reader past the object. -/
lemma foldlM_of_read (hr : Enclosed r) (h : read r text = some v) :
    text.foldlM step r = some ⟨[], .after v⟩ := by
  obtain ⟨last, hlast, hfinish⟩ := Option.bind_eq_some_iff.mp h
  rw [hlast, finish_enclosed (foldlM_enclosed hr hlast) hfinish]

/-- Past a value only white space follows. -/
lemma isSpace_of_read {w : Value} (h : read ⟨[], .after v⟩ text = some w) : ∀ c ∈ text, isSpace c := by
  induction text with
  | nil => simp
  | cons c text ih =>
    by_cases hc : isSpace c
    · have hidle : Idle (.after v) := trivial
      have hstep : step ⟨[], .after v⟩ c = some ⟨[], .after v⟩ := step_space hidle hc
      rw [read_of_step hstep] at h
      intro d hd
      obtain rfl | hd := List.mem_cons.mp hd
      · exact hc
      · exact ih h d hd
    · have hstep : step ⟨[], .after v⟩ c = none := by simp [step, afterValue, hc]
      rw [read_of_step_none hstep] at h
      simp at h

lemma read_append (more : List Char) :
    read r (text ++ more) = (text.foldlM step r).bind fun r => read r more := by
  unfold read
  rw [List.foldlM_append]
  exact Option.bind_assoc _ _ _

lemma enclosed_brace : Enclosed ⟨[.object []], .firstKey⟩ := Or.inl (by simp)

lemma parse_brace : parse ('{' :: text) = read ⟨[.object []], .firstKey⟩ text := read_of_step rfl

/-- No proper prefix of an object's text is a text. -/
theorem parse_torn {torn : List Char} (h : (parse ('{' :: torn ++ text)).isSome)
    (htext : ∃ c ∈ text, isSpace c = false) : parse ('{' :: torn) = none := by
  by_contra hparse
  obtain ⟨v, hv⟩ := Option.ne_none_iff_exists'.mp hparse
  rw [parse_brace] at hv
  have hrun := foldlM_of_read enclosed_brace hv
  rw [List.cons_append, parse_brace, read_append, hrun, Option.bind_some] at h
  obtain ⟨w, hw⟩ := Option.isSome_iff_exists.mp h
  obtain ⟨c, hc, hspace⟩ := htext
  have hall := isSpace_of_read hw c hc
  rw [hspace] at hall
  exact absurd hall (by decide)

/-- The last character of an object's text closes a bracket, or is white space. -/
theorem closing_of_parse {torn : List Char} (h : (parse ('{' :: torn ++ [c])).isSome) :
    Closing c := by
  obtain ⟨v, hv⟩ := Option.isSome_iff_exists.mp h
  rw [List.cons_append, parse_brace] at hv
  have hrun := foldlM_of_read enclosed_brace hv
  rw [List.foldlM_append] at hrun
  obtain ⟨last, hlast, hstep⟩ := Option.bind_eq_some_iff.mp hrun
  have hstep : step last c = some ⟨[], .after v⟩ := by simpa using hstep
  obtain hstack | ⟨-, hclosing⟩ := step_closing (foldlM_enclosed enclosed_brace hlast) hstep
  · exact absurd rfl hstack
  · exact hclosing

end Torn

section Merged

/-- A reader inside further brackets. -/
def Reader.within (r : Reader) (L : List Frame) : Reader := ⟨r.stack ++ L, r.phase⟩

variable {r r' : Reader} {c : Char} {text : List Char} (L : List Frame)

lemma afterValue_within {K : List Frame} {v : Value} (h : afterValue K v c = some r') :
    afterValue (K ++ L) v c = some (r'.within L) := by
  match K with
  | [] | .object before :: K =>
    simp only [afterValue] at h ⊢
    split_ifs at h with hspace
    rw [if_pos hspace, ← Option.some.inj h]
    rfl
  | .array before :: K =>
    simp only [afterValue, List.cons_append] at h ⊢
    split_ifs at h ⊢ <;> exact (Option.some.inj h) ▸ rfl
  | .member before name :: K =>
    simp only [afterValue, List.cons_append] at h ⊢
    split_ifs at h ⊢ <;> exact (Option.some.inj h) ▸ rfl

lemma startValue_within {K : List Frame} (h : startValue K c = some r') :
    startValue (K ++ L) c = some (r'.within L) := by
  unfold startValue at h ⊢
  split_ifs at h ⊢ <;> exact (Option.some.inj h) ▸ rfl

lemma textStep_within {K : List Frame} {ofKey : Bool} {seen : List Char} {escape : Escape}
    (h : textStep K ofKey seen c escape = some r') :
    textStep (K ++ L) ofKey seen c escape = some (r'.within L) := by
  cases escape with
  | escaped =>
    simp only [textStep] at h ⊢
    split_ifs at h ⊢
    · exact (Option.some.inj h) ▸ rfl
    · exact (Option.some.inj h) ▸ rfl
    · obtain ⟨e, he, rfl⟩ := Option.map_eq_some_iff.mp h
      rw [he]
      rfl
  | plain =>
    simp only [textStep] at h ⊢
    split_ifs at h ⊢ <;> exact (Option.some.inj h) ▸ rfl
  | unicode digits =>
    simp only [textStep] at h ⊢
    split_ifs at h ⊢ <;> exact (Option.some.inj h) ▸ rfl

/-- Closing an empty bracket needs the bracket that was opened. -/
lemma tail_within {K : List Frame} {ph : Phase}
    (h : (K.tail?.map fun stack => (⟨stack, ph⟩ : Reader)) = some r') :
    ((K ++ L).tail?.map fun stack => (⟨stack, ph⟩ : Reader)) = some (r'.within L) := by
  cases K with
  | nil => simp at h
  | cons frame K =>
    obtain rfl := Option.some.inj h
    rfl

/-- What a reader does does not depend on the brackets around it. -/
lemma step_within (h : step r c = some r') : step (r.within L) c = some (r'.within L) := by
  obtain ⟨K, ph⟩ := r
  cases ph with
  | after w => exact afterValue_within L h
  | text ofKey seen escape => exact textStep_within L h
  | value =>
    simp only [step, Reader.within] at h ⊢
    split_ifs at h ⊢
    · exact (Option.some.inj h) ▸ rfl
    · exact startValue_within L h
  | firstElement =>
    simp only [step, Reader.within] at h ⊢
    split_ifs at h ⊢
    · exact (Option.some.inj h) ▸ rfl
    · exact tail_within L h
    · exact startValue_within L h
  | firstKey =>
    simp only [step, Reader.within] at h ⊢
    split_ifs at h ⊢
    · exact (Option.some.inj h) ▸ rfl
    · exact tail_within L h
    · exact (Option.some.inj h) ▸ rfl
  | key =>
    simp only [step, Reader.within] at h ⊢
    split_ifs at h ⊢ <;> exact (Option.some.inj h) ▸ rfl
  | colon name =>
    simp only [step, Reader.within] at h ⊢
    by_cases hspace : isSpace c
    · rw [if_pos hspace] at h ⊢
      exact (Option.some.inj h) ▸ rfl
    · rw [if_neg hspace] at h ⊢
      split at h
      · split_ifs at h with hcolon
        rw [← Option.some.inj h]
        simp [hcolon]
      · simp at h
  | word rest w =>
    simp only [step, Reader.within] at h ⊢
    split at h
    · simp at h
    · split_ifs at h ⊢ <;> exact (Option.some.inj h) ▸ rfl
  | number seen =>
    simp only [step, Reader.within] at h ⊢
    split_ifs at h ⊢
    · exact (Option.some.inj h) ▸ rfl
    · exact afterValue_within L h

lemma foldlM_within (h : text.foldlM step r = some r') :
    text.foldlM step (r.within L) = some (r'.within L) := by
  induction text generalizing r with
  | nil => exact (Option.some.inj h) ▸ rfl
  | cons c text ih =>
    rw [List.foldlM_cons] at h
    obtain ⟨next, hstep, hrest⟩ := Option.bind_eq_some_iff.mp h
    rw [List.foldlM_cons, step_within L hstep]
    exact ih hrest

variable {L}

/-- A value inside brackets that stay open is no text. -/
lemma read_within {more : List Char} (hL : L ≠ []) (h : (parse (text ++ more)).isSome) :
    read ⟨L, .value⟩ text = none := by
  rw [parse, read_append] at h
  obtain ⟨v, hv⟩ := Option.isSome_iff_exists.mp h
  obtain ⟨last, hlast, -⟩ := Option.bind_eq_some_iff.mp hv
  have hrun : text.foldlM step ⟨L, .value⟩ = some (last.within L) := foldlM_within L hlast
  have hstack : (last.within L).stack ≠ [] := by simp [Reader.within, hL]
  rw [read, hrun]
  unfold Option.bind finish
  split <;> simp_all

/-- The characters that can follow a string. -/
def Continuing (c : Char) : Prop := Closing c ∨ c = ',' ∨ c = ':'

lemma step_string {K : List Frame} (hK : K ≠ []) {s : String} {ofKey : Bool} (hc : ¬ Continuing c) :
    read ⟨K, if ofKey then .colon s else .after (.str s)⟩ (c :: text) = none := by
  have hspace : isSpace c = false := by
    by_contra h
    exact hc (Or.inl (Or.inr (Or.inr (by simpa using h))))
  have hbrace : c ≠ '}' := fun h => hc (Or.inl (Or.inl h))
  have hbracket : c ≠ ']' := fun h => hc (Or.inl (Or.inr (Or.inl h)))
  have hcomma : c ≠ ',' := fun h => hc (Or.inr (Or.inl h))
  have hcolon : c ≠ ':' := fun h => hc (Or.inr (Or.inr h))
  apply read_of_step_none
  cases ofKey with
  | true =>
    cases K with
    | nil => exact absurd rfl hK
    | cons frame K => cases frame <;> simp [step, hspace, hcolon]
  | false =>
    cases K with
    | nil => exact absurd rfl hK
    | cons frame K => cases frame <;> simp [step, afterValue, hspace, hcomma, hbracket, hbrace]

/-- An object cannot start inside a string: its first key closes the string and then goes on. -/
lemma read_text_brace {K : List Frame} (hK : K ≠ []) {ofKey : Bool} {seen : List Char}
    {torn more : List Char} (htorn : torn ≠ []) (hc : ¬ Continuing c)
    (htext : torn ++ more = '{' :: quote :: c :: text) :
    read ⟨K, .text ofKey seen .plain⟩ torn = none := by
  have hbrace : step ⟨K, .text ofKey seen .plain⟩ '{' =
      some ⟨K, .text ofKey ('{' :: seen) .plain⟩ := rfl
  have hquote : step ⟨K, .text ofKey ('{' :: seen) .plain⟩ quote =
      some ⟨K, if ofKey then .colon (String.ofList ('{' :: seen).reverse)
        else .after (.str (String.ofList ('{' :: seen).reverse))⟩ := rfl
  have hopen : ∀ ph, finish ⟨K, ph⟩ = none := by
    intro ph
    cases K with
    | nil => exact absurd rfl hK
    | cons frame K => rfl
  match torn with
  | [] => exact absurd rfl htorn
  | [a] =>
    obtain ⟨rfl, -⟩ := List.cons.inj htext
    rw [read_of_step hbrace]
    exact hopen _
  | [a, b] =>
    obtain ⟨rfl, hrest⟩ := List.cons.inj htext
    obtain ⟨rfl, -⟩ := List.cons.inj hrest
    rw [read_of_step hbrace, read_of_step hquote]
    exact hopen _
  | a :: b :: d :: torn =>
    obtain ⟨rfl, hrest⟩ := List.cons.inj htext
    obtain ⟨rfl, hname⟩ := List.cons.inj hrest
    obtain ⟨rfl, -⟩ := List.cons.inj hname
    rw [read_of_step hbrace, read_of_step hquote]
    exact step_string hK hc

lemma afterValue_brace {K : List Frame} {v : Value} : afterValue K v '{' = none := by
  cases K with
  | nil => rfl
  | cons frame K => cases frame <;> rfl

/-- The text of an object, whole or torn, behind a torn one is no text. -/
theorem parse_merged {first torn more : List Char} (htorn : torn ≠ []) (hc : ¬ Continuing c)
    (htext : torn ++ more = '{' :: quote :: c :: text) (h : (parse (torn ++ more)).isSome) :
    parse ('{' :: first ++ torn) = none := by
  have hhead : ∃ rest, torn = '{' :: rest := by
    cases torn with
    | nil => exact absurd rfl htorn
    | cons a rest =>
      obtain ⟨rfl, -⟩ := List.cons.inj htext
      exact ⟨rest, rfl⟩
  obtain ⟨rest, hrest⟩ := hhead
  rw [List.cons_append, parse_brace, read_append]
  cases hrun : first.foldlM step ⟨[.object []], .firstKey⟩ with
  | none => rfl
  | some r =>
    have hr := foldlM_enclosed enclosed_brace hrun
    obtain ⟨K, ph⟩ := r
    rw [Option.bind_some]
    cases ph with
    | value =>
      have hK : K ≠ [] := by simpa [Enclosed] using hr
      exact read_within hK h
    | firstElement =>
      have hK : K ≠ [] := by simpa [Enclosed] using hr
      have hsame : step ⟨K, .firstElement⟩ '{' = step ⟨K, .value⟩ '{' := rfl
      have hread := read_within hK h
      rw [hrest, read_cons] at hread ⊢
      rw [hsame, hread]
    | text ofKey seen escape =>
      have hK : K ≠ [] := by simpa [Enclosed] using hr
      cases escape with
      | plain => exact read_text_brace hK htorn hc htext
      | escaped => rw [hrest, read_of_step_none rfl]
      | unicode digits => rw [hrest, read_of_step_none rfl]
    | word letters w =>
      have hstep : step ⟨K, .word letters w⟩ '{' = none := by
        cases letters with
        | nil => rfl
        | cons d letters => simp [step, show ('{').isAlpha = false by decide]
      rw [hrest, read_of_step_none hstep]
    | number seen =>
      have hstep : step ⟨K, .number seen⟩ '{' = none := by
        have hchar : isNumeralChar '{' = false := by decide
        simp [step, hchar, afterValue_brace]
      rw [hrest, read_of_step_none hstep]
    | after w =>
      have hstep : step ⟨K, .after w⟩ '{' = none := afterValue_brace
      rw [hrest, read_of_step_none hstep]
    | colon name =>
      have hstep : step ⟨K, .colon name⟩ '{' = none := by
        cases K with
        | nil => rfl
        | cons frame K => cases frame <;> rfl
      rw [hrest, read_of_step_none hstep]
    | firstKey => rw [hrest, read_of_step_none rfl]
    | key => rw [hrest, read_of_step_none rfl]

end Merged

section OneLine

lemma newline_notMem_writeChar (c : Char) : '\n' ∉ writeChar c := by
  unfold writeChar
  split
  next e he =>
    have hmem := List.mem_of_find?_eq_some he
    simp only [escapes, List.mem_cons, List.not_mem_nil, or_false] at hmem
    obtain rfl | rfl | rfl | rfl | rfl | rfl | rfl := hmem <;> decide
  next hnone =>
    have hplain : ∀ e ∈ escapes, e.2 ≠ c := by simpa using hnone
    have hc : c ≠ '\n' := fun h => hplain ('n', '\n') (by decide) h.symm
    split_ifs with hlt
    · have hdigits : ∀ n < 32, '\n' ∉ [backslash, 'u', '0', '0', hexDigit (n / 16), hexDigit (n % 16)] := by
        decide
      exact hdigits _ hlt
    · simpa using hc.symm

lemma newline_notMem_writeString (s : String) : '\n' ∉ writeString s := by
  have hquote : '\n' ≠ quote := by decide
  have hchars : ∀ c ∈ s.toList, '\n' ∉ writeChar c := fun c _ => newline_notMem_writeChar c
  simpa [writeString, hquote] using hchars

mutual

/-- A text without indentation is one line. -/
theorem newline_notMem_write (v : Value) (depth : ℕ) : '\n' ∉ write 0 depth v := by
  match v with
  | .null => simp [write]
  | .bool true => simp [write]
  | .bool false => simp [write]
  | .num n =>
    intro h
    have hvalid := n.numeral
    rw [isNumeral, Bool.and_eq_true, Bool.and_eq_true] at hvalid
    exact absurd (List.all_eq_true.mp hvalid.1.1 _ h) (by decide)
  | .str s => exact newline_notMem_writeString s
  | .arr [] => simp [write]
  | .arr (x :: xs) =>
    have hx := newline_notMem_write x (depth + 1)
    have hxs := newline_notMem_writeElements xs (depth + 1)
    simp [write, newline, hx, hxs]
  | .obj [] => simp [write]
  | .obj (m :: ms) =>
    have hm := newline_notMem_writeMember m (depth + 1)
    have hms := newline_notMem_writeMembers ms (depth + 1)
    simp [write, newline, hm, hms]

theorem newline_notMem_writeMember (m : String × Value) (depth : ℕ) :
    '\n' ∉ writeMember 0 depth m := by
  match m with
  | (name, x) =>
    have hx := newline_notMem_write x depth
    simp [writeMember, newline_notMem_writeString, colon, hx]

theorem newline_notMem_writeElements (xs : List Value) (depth : ℕ) :
    '\n' ∉ writeElements 0 depth xs := by
  match xs with
  | [] => simp [writeElements]
  | x :: xs =>
    have hx := newline_notMem_write x depth
    have hxs := newline_notMem_writeElements xs depth
    simp [writeElements, newline, hx, hxs]

theorem newline_notMem_writeMembers (ms : List (String × Value)) (depth : ℕ) :
    '\n' ∉ writeMembers 0 depth ms := by
  match ms with
  | [] => simp [writeMembers]
  | m :: ms =>
    have hm := newline_notMem_writeMember m depth
    have hms := newline_notMem_writeMembers ms depth
    simp [writeMembers, newline, hm, hms]

end

variable (indent : ℕ)

/-- The text of an object stands between braces. -/
lemma stringify_obj (members : List (String × Value)) :
    ∃ inner, stringify indent (.obj members) = '{' :: (inner ++ ['}']) := by
  cases members with
  | nil => exact ⟨[], rfl⟩
  | cons m ms =>
    refine ⟨newline indent 1 ++ (writeMember indent 1 m ++ (writeMembers indent 1 ms ++
      newline indent 0)), ?_⟩
    simp [stringify, write]

/-- A text without indentation starts with its first key. -/
lemma stringify_key (name : String) (v : Value) (members : List (String × Value)) :
    ∃ rest, stringify 0 (.obj ((name, v) :: members)) =
      '{' :: quote :: (name.toList.flatMap writeChar ++ rest) := by
  refine ⟨quote :: (colon 0 ++ (write 0 1 v ++ (writeMembers 0 1 members ++ ['}']))), ?_⟩
  simp [stringify, write, writeMember, writeString, newline]

end OneLine

end JsonText
