import Mathlib.Data.Rat.Defs
import TradeFramework.Library.SurrogateText

/-!
# Snapshots of module outputs

The engine keeps a validated output as encoded text and decodes it on every use. The fast encoder
refuses texts with lone surrogates; the strict one writes every text in UTF-16 escapes.
-/

namespace TradeFramework.Runtime

open SurrogateText (CodePoint PairFree)

/-- A JSON value of a Python module, over what its texts are made of. -/
inductive Output (τ : Type)
  | null
  | bool (b : Bool)
  | int (n : ℤ)
  | float (q : ℚ)
  | text (t : τ)
  | list (xs : List (Output τ))
  | dict (entries : List (τ × Output τ))

abbrev PythonOutput := Output (List CodePoint)

namespace Output

variable {τ υ : Type}

def isDict : Output τ → Bool
  | dict _ => true
  | _ => false

mutual

/-- A function applied to every text and key. -/
def mapText (f : τ → υ) : Output τ → Output υ
  | null => null
  | bool b => bool b
  | int n => int n
  | float q => float q
  | text t => text (f t)
  | list xs => list (mapTexts f xs)
  | dict entries => dict (mapEntries f entries)

def mapTexts (f : τ → υ) : List (Output τ) → List (Output υ)
  | [] => []
  | x :: xs => mapText f x :: mapTexts f xs

def mapEntries (f : τ → υ) : List (τ × Output τ) → List (υ × Output υ)
  | [] => []
  | (key, x) :: entries => (f key, mapText f x) :: mapEntries f entries

end

mutual

/-- Every text and key of a value satisfies a predicate. -/
def AllTexts (p : τ → Prop) : Output τ → Prop
  | text t => p t
  | list xs => AllElements p xs
  | dict entries => AllEntries p entries
  | _ => True

def AllElements (p : τ → Prop) : List (Output τ) → Prop
  | [] => True
  | x :: xs => AllTexts p x ∧ AllElements p xs

def AllEntries (p : τ → Prop) : List (τ × Output τ) → Prop
  | [] => True
  | (key, x) :: entries => (p key ∧ AllTexts p x) ∧ AllEntries p entries

end

mutual

/-- No object has a key twice. -/
def distinctKeys [DecidableEq τ] : Output τ → Bool
  | list xs => distinctElements xs
  | dict entries => decide (entries.map Prod.fst).Nodup && distinctEntries entries
  | _ => true

def distinctElements [DecidableEq τ] : List (Output τ) → Bool
  | [] => true
  | x :: xs => distinctKeys x && distinctElements xs

def distinctEntries [DecidableEq τ] : List (τ × Output τ) → Bool
  | [] => true
  | (_, x) :: entries => distinctKeys x && distinctEntries entries

end

mutual

lemma mapText_mapText {p : τ → Prop} {f : τ → υ} {g : υ → τ} (h : ∀ t, p t → g (f t) = t)
    (v : Output τ) (hv : v.AllTexts p) : mapText g (mapText f v) = v := by
  match v with
  | null | bool _ | int _ | float _ => rw [mapText, mapText]
  | text t =>
    rw [AllTexts] at hv
    rw [mapText, mapText, h t hv]
  | list xs =>
    rw [AllTexts] at hv
    rw [mapText, mapText, mapTexts_mapTexts h xs hv]
  | dict entries =>
    rw [AllTexts] at hv
    rw [mapText, mapText, mapEntries_mapEntries h entries hv]

lemma mapTexts_mapTexts {p : τ → Prop} {f : τ → υ} {g : υ → τ} (h : ∀ t, p t → g (f t) = t)
    (xs : List (Output τ)) (hxs : AllElements p xs) : mapTexts g (mapTexts f xs) = xs := by
  match xs with
  | [] => rfl
  | x :: xs =>
    rw [AllElements] at hxs
    rw [mapTexts, mapTexts, mapText_mapText h x hxs.1, mapTexts_mapTexts h xs hxs.2]

lemma mapEntries_mapEntries {p : τ → Prop} {f : τ → υ} {g : υ → τ} (h : ∀ t, p t → g (f t) = t)
    (entries : List (τ × Output τ)) (hentries : AllEntries p entries) :
    mapEntries g (mapEntries f entries) = entries := by
  match entries with
  | [] => rfl
  | (key, x) :: entries =>
    rw [AllEntries] at hentries
    rw [mapEntries, mapEntries, h key hentries.1.1, mapText_mapText h x hentries.1.2,
      mapEntries_mapEntries h entries hentries.2]

end

end Output

/-- `orjson`, which refuses what it cannot represent. -/
structure Orjson where
  Text : Type
  dumps : PythonOutput → Option Text
  loads : Text → PythonOutput
  loads_dumps : ∀ {value text}, dumps value = some text → loads text = value

/-- The two codecs. `orjson` may not be installed, and the strict one fails at the limits of the
interpreter (the recursion depth, the digits of an integer). -/
structure Encoders where
  orjson : Option Orjson
  canWrite : PythonOutput → Bool
  canRead : Output (List ℕ) → Bool

/-- An encoded snapshot, with the codec that wrote it. -/
inductive Snapshot (encoders : Encoders)
  | orjson (codec : Orjson) (installed : encoders.orjson = some codec) (payload : codec.Text)
  | strictJson (payload : Output (List ℕ))

variable {encoders : Encoders}

def strictSnapshot (encoders : Encoders) (value : PythonOutput) : Option (Snapshot encoders) :=
  if encoders.canWrite value then some (.strictJson (value.mapText SurrogateText.units)) else none

/-- `_encode_snapshot`. -/
def encodeSnapshot (encoders : Encoders) (value : PythonOutput) : Option (Snapshot encoders) :=
  match h : encoders.orjson with
  | none => strictSnapshot encoders value
  | some codec =>
    match codec.dumps value with
    | some payload => some (.orjson codec h payload)
    | none => strictSnapshot encoders value

/-- `strict_json.loads`; two keys that became one are refused. -/
def strictLoads (encoders : Encoders) (payload : Output (List ℕ)) : Option PythonOutput :=
  if encoders.canRead payload && (payload.mapText SurrogateText.read).distinctKeys then
    some (payload.mapText SurrogateText.read)
  else none

/-- `_decode_snapshot`. -/
def decodeSnapshot (snapshot : Snapshot encoders) : Option PythonOutput :=
  let value :=
    match snapshot with
    | .orjson codec _ payload => some (codec.loads payload)
    | .strictJson payload => strictLoads encoders payload
  value.filter Output.isDict

/-- No text or key of the value has a high surrogate directly before a low one. -/
def NoSplitPairs (value : PythonOutput) : Prop := value.AllTexts PairFree

/-- The snapshot of a value without split pairs decodes to that value, if it decodes. -/
theorem decodeSnapshot_encodeSnapshot {value decoded : PythonOutput} {snapshot : Snapshot encoders}
    (hvalue : NoSplitPairs value) (hencode : encodeSnapshot encoders value = some snapshot)
    (hdecode : decodeSnapshot snapshot = some decoded) : decoded = value := by
  have hread : (value.mapText SurrogateText.units).mapText SurrogateText.read = value :=
    Output.mapText_mapText (fun _ htext => SurrogateText.read_units htext) value hvalue
  have hloaded := (Option.filter_eq_some_iff.mp hdecode).1
  have hstrict (h : strictSnapshot encoders value = some snapshot) : decoded = value := by
    unfold strictSnapshot at h
    split_ifs at h with hlimits
    rw [Option.some.injEq] at h
    subst h
    dsimp only at hloaded
    rw [strictLoads, hread] at hloaded
    split_ifs at hloaded with hdistinct
    exact (Option.some.inj hloaded).symm
  unfold encodeSnapshot at hencode
  split at hencode
  · exact hstrict hencode
  · next codec hcodec =>
    split at hencode
    · next payload hpayload =>
      rw [Option.some.injEq] at hencode
      subst hencode
      dsimp only at hloaded
      rw [← Option.some.inj hloaded, codec.loads_dumps hpayload]
    · exact hstrict hencode

end TradeFramework.Runtime
