import TradeFramework.Data.DataPath
import TradeFramework.Library.Carry
import Mathlib.Algebra.Order.Ring.Rat

/-!
# Basic Workflow data sets

What the price map sampler reads before it yields a frame: the descriptor of the capability, the
index of the files, and one series of bars for each period and instrument.
-/

namespace TradeFramework.BasicWorkflow

open Raising (raiseIf)

/-- A time read from a text, as the instant it names if it names a zone. -/
inductive Moment
  | naive
  | aware (instant : ℤ)
deriving DecidableEq, Repr

/-- A float read from a text. -/
inductive FloatReading
  | finite (value : ℚ)
  | nonFinite
deriving DecidableEq, Repr

/-- How the standard library reads and writes the texts of a data set. -/
structure TextCodec where
  fromisoformat : String → Option Moment
  isoformat : ℤ → String
  isoformat_ne : ∀ time, isoformat time ≠ ""
  float : String → Option FloatReading

/-- One bar. -/
structure Bar where
  opening : ℚ
  close : ℚ
  high : ℚ
  low : ℚ
deriving DecidableEq, Repr

/-- One row of a series: the time, the bar and the row's number in its file. -/
structure Row where
  time : ℤ
  bar : Bar
  number : ℕ
deriving DecidableEq, Repr

/-- An archived data set: its version, its capabilities, what `json.load` makes of the index file, and
the rows `csv.reader` finds in the other files. -/
structure Dataset where
  versionId : String
  capabilities : List (String × Json)
  indexFile : Json
  csv : String → Except PyError (List (List String))

/-- `_CSV_FIELDS`. -/
def csvFields : List String := ["time", "open", "close", "high", "low"]

section Texts

variable (codec : TextCodec)

/-- `_instant`. -/
def instant (value label : String) : Except PyError ℤ := do
  raiseIf (value = "")
    (.valueError (label ++ " must be a non-empty absolute ISO-8601 timestamp."))
  let text := if value.toList.getLast? = some 'Z' then
      String.ofList (value.toList.dropLast ++ "+00:00".toList)
    else value
  match codec.fromisoformat text with
  | none => throw (.valueError (label ++ " must be an absolute ISO-8601 timestamp."))
  | some .naive => throw (.valueError (label ++ " must include an absolute timezone."))
  | some (.aware result) => pure result

/-- The text with every `+00:00` written as `Z`. -/
def replaceZone : List Char → List Char
  | '+' :: '0' :: '0' :: ':' :: '0' :: '0' :: rest => 'Z' :: replaceZone rest
  | c :: rest => c :: replaceZone rest
  | [] => []

/-- `_canonical`. -/
def canonical (value : ℤ) : String := String.ofList (replaceZone (codec.isoformat value).toList)

/-- `_number`. -/
def number (value label : String) : Except PyError ℚ :=
  let invalid : PyError := .valueError (label ++ " must be a finite positive number.")
  match codec.float value with
  | none => throw invalid
  | some .nonFinite => throw invalid
  | some (.finite result) => do
    raiseIf (result ≤ 0) invalid
    pure result

end Texts

/-- Whether the keys of an object are the given ones. -/
def hasFields (fields : List (String × Json)) (names : List String) : Bool :=
  Dict.sameKeys fields (names.map fun name => (name, ()))

/-- Whether a member of an object is the given text. -/
def isText (fields : List (String × Json)) (name text : String) : Bool :=
  match fields.lookup name with
  | some (.str value) => value == text
  | _ => false

/-- `_descriptor`. -/
def descriptor (dataset : Dataset) : Except PyError (List (String × Json)) :=
  match dataset.capabilities.lookup "basicWorkflow" with
  | some (.obj capability) => do
    raiseIf (!hasFields capability ["protocol", "descriptor"])
      (.valueError "Dataset requires the Basic Workflow capability.")
    raiseIf (!isText capability "protocol" "trade.app.basic-workflow-dataset/v2")
      (.valueError "Dataset Basic Workflow capability protocol is incompatible.")
    match capability.lookup "descriptor" with
    | some (.obj fields) =>
      raiseIf (!hasFields fields ["protocolId", "protocolVersion", "profile", "cashUnit", "quantityUnit",
          "executionConvention", "valuationConvention"])
        (.valueError "Dataset Basic Workflow descriptor has an invalid schema.")
      raiseIf (!isText fields "protocolId" "trade.basic-workflow")
        (.valueError "Dataset Basic Workflow protocol id is incompatible.")
      raiseIf (!isText fields "protocolVersion" "2.0.0")
        (.valueError "Dataset Basic Workflow protocol version is incompatible.")
      raiseIf (!isText fields "profile" "multi-instrument-bar-position")
        (.valueError "Dataset Basic Workflow profile is incompatible.")
      raiseIf (!isText fields "executionConvention" "prior-approved-intent-next-bar-open")
        (.valueError "Dataset Basic Workflow execution convention is incompatible.")
      raiseIf (!isText fields "valuationConvention" "current-bar-close")
        (.valueError "Dataset Basic Workflow valuation convention is incompatible.")
      pure fields
    | _ => throw (.valueError "Dataset Basic Workflow descriptor has an invalid schema.")
  | _ => throw (.valueError "Dataset requires the Basic Workflow capability.")

/-- The files of a data set: for each period the file of each instrument. -/
abbrev Files := List (String × List (String × String))

/-- One instrument of the index. -/
def indexInstrument (period : String) (entry : String × Json) : Except PyError (String × String) := do
  let path := period ++ "/" ++ entry.1 ++ ".csv"
  raiseIf (!isPathSegment entry.1) (.valueError "Basic Workflow Dataset index instrument is invalid.")
  match entry.2 with
  | .str text =>
    raiseIf (text ≠ path) (.valueError "Basic Workflow Dataset index path is not canonical.")
    pure (entry.1, text)
  | _ => throw (.valueError "Basic Workflow Dataset index path is not canonical.")

/-- One period of the index. -/
def indexPeriod (entry : String × Json) : Except PyError (String × List (String × String)) := do
  raiseIf (!isPathSegment entry.1) (.valueError "Basic Workflow Dataset index period is invalid.")
  match entry.2 with
  | .obj instruments =>
    raiseIf (instruments = [])
      (.valueError "Basic Workflow Dataset index period cannot be empty.")
    let paths ← (Dict.items instruments).mapM (indexInstrument entry.1)
    pure (entry.1, paths)
  | _ => throw (.valueError "Basic Workflow Dataset index period cannot be empty.")

/-- `_index`. -/
def index (dataset : Dataset) : Except PyError Files :=
  match dataset.indexFile with
  | .obj value => do
    raiseIf (!hasFields value ["protocolId", "protocolVersion", "profile", "files"])
      (.valueError "Basic Workflow Dataset index has an invalid schema.")
    raiseIf (!isText value "protocolId" "trade.basic-workflow" || !isText value "protocolVersion" "2.0.0" ||
        !isText value "profile" "multi-instrument-bar-position")
      (.valueError "Basic Workflow Dataset index identity is incompatible.")
    match value.lookup "files" with
    | some (.obj files) =>
      raiseIf (files = [])
        (.valueError "Basic Workflow Dataset index files must be a non-empty object.")
      (Dict.items files).mapM indexPeriod
    | _ => throw (.valueError "Basic Workflow Dataset index files must be a non-empty object.")
  | _ => throw (.valueError "Basic Workflow Dataset index has an invalid schema.")

section Series

variable (codec : TextCodec) (relativePath : String)

/-- One row of a file behind a row of the given time. -/
def readRow (previous : Option ℤ) (rowNumber : ℕ) : List String → Except PyError Row
  | [time, opening, close, high, low] => do
    let current ← instant codec time (relativePath ++ ".time")
    raiseIf (∃ before ∈ previous, current ≤ before)
      (.valueError (relativePath ++ " times must be strictly increasing."))
    let opening ← number codec opening (relativePath ++ ".open")
    let close ← number codec close (relativePath ++ ".close")
    let high ← number codec high (relativePath ++ ".high")
    let low ← number codec low (relativePath ++ ".low")
    raiseIf (min opening close < low)
      (.valueError (relativePath ++ " violates the OHLC lower bound."))
    raiseIf (high < max opening close)
      (.valueError (relativePath ++ " violates the OHLC upper bound."))
    pure ⟨current, ⟨opening, close, high, low⟩, rowNumber⟩
  | _ => throw (.valueError (relativePath ++ " row has an incompatible shape."))

def readRows (previous : Option ℤ) (rowNumber : ℕ) : List (List String) → Except PyError (List Row)
  | [] => pure []
  | row :: rest => do
    let first ← readRow codec relativePath previous rowNumber row
    let values ← readRows (some first.time) (rowNumber + 1) rest
    pure (first :: values)

/-- `_series`. -/
def series (dataset : Dataset) : Except PyError (List Row) := do
  match ← dataset.csv relativePath with
  | [] => throw (.valueError (relativePath ++ " must contain a CSV header."))
  | header :: rows =>
    raiseIf (header ≠ csvFields) (.valueError (relativePath ++ " has an incompatible CSV header."))
    let values ← readRows codec relativePath none 2 rows
    raiseIf (values = []) (.valueError (relativePath ++ " must contain at least one bar."))
    pure values

end Series

section Lemmas

variable {codec : TextCodec} {relativePath : String}

lemma readRow_time {previous : Option ℤ} {rowNumber : ℕ} {texts : List String} {row : Row}
    (h : readRow codec relativePath previous rowNumber texts = .ok row) :
    ∀ before ∈ previous, before < row.time := by
  unfold readRow at h
  split at h
  · simp only [Raising.bind_eq_ok, Raising.raiseIf_eq_ok, Raising.pure_eq_ok] at h
    obtain ⟨current, -, -, hincreasing, -, -, -, -, -, -, -, -, -, -, -, -, rfl⟩ := h
    intro before hbefore
    by_contra hle
    exact hincreasing ⟨before, hbefore, not_lt.mp hle⟩
  · simp at h

/-- The times of a series that is read increase. -/
lemma readRows_increasing {texts : List (List String)} {rows : List Row} {previous : Option ℤ}
    {rowNumber : ℕ} (h : readRows codec relativePath previous rowNumber texts = .ok rows) :
    Carry.Increasing Row.time rows ∧ ∀ before ∈ previous, ∀ row ∈ rows, before < row.time := by
  induction texts generalizing rows previous rowNumber with
  | nil =>
    rw [readRows, Raising.pure_eq_ok] at h
    subst h
    exact ⟨List.Pairwise.nil, by simp⟩
  | cons texts rest ih =>
    simp only [readRows, Raising.bind_eq_ok, Raising.pure_eq_ok] at h
    obtain ⟨first, hfirst, values, hvalues, rfl⟩ := h
    have htime := readRow_time hfirst
    obtain ⟨hincreasing, hafter⟩ := ih hvalues
    constructor
    · exact List.pairwise_cons.mpr ⟨hafter first.time rfl, hincreasing⟩
    · intro before hbefore row hrow
      obtain rfl | hrow := List.mem_cons.mp hrow
      · exact htime before hbefore
      · exact (htime before hbefore).trans (hafter first.time rfl row hrow)

lemma number_pos {value label : String} {q : ℚ} (h : number codec value label = .ok q) : 0 < q := by
  unfold number at h
  split at h
  · simp at h
  · simp at h
  · simp only [Raising.bind_eq_ok, Raising.raiseIf_eq_ok, Raising.pure_eq_ok] at h
    obtain ⟨-, hpos, rfl⟩ := h
    exact not_le.mp hpos

lemma readRow_positive {previous : Option ℤ} {rowNumber : ℕ} {texts : List String} {row : Row}
    (h : readRow codec relativePath previous rowNumber texts = .ok row) :
    0 < row.bar.opening ∧ 0 < row.bar.close := by
  unfold readRow at h
  split at h
  · simp only [Raising.bind_eq_ok, Raising.raiseIf_eq_ok, Raising.pure_eq_ok] at h
    obtain ⟨_, _, _, _, opening, hopening, close, hclose, _, _, _, _, _, _, _, _, rfl⟩ := h
    exact ⟨number_pos hopening, number_pos hclose⟩
  · simp at h

lemma readRows_positive {texts : List (List String)} {rows : List Row} {previous : Option ℤ}
    {rowNumber : ℕ} (h : readRows codec relativePath previous rowNumber texts = .ok rows) :
    ∀ row ∈ rows, 0 < row.bar.opening ∧ 0 < row.bar.close := by
  induction texts generalizing rows previous rowNumber with
  | nil =>
    rw [readRows, Raising.pure_eq_ok] at h
    subst h
    simp
  | cons texts rest ih =>
    simp only [readRows, Raising.bind_eq_ok, Raising.pure_eq_ok] at h
    obtain ⟨first, hfirst, values, hvalues, rfl⟩ := h
    intro row hrow
    obtain rfl | hrow := List.mem_cons.mp hrow
    · exact readRow_positive hfirst
    · exact ih hvalues row hrow

/-- A series has bars, their times increase, and they are at positive prices. -/
theorem series_spec {dataset : Dataset} {rows : List Row}
    (h : series codec relativePath dataset = .ok rows) :
    Carry.Increasing Row.time rows ∧ rows ≠ [] ∧ ∀ row ∈ rows, 0 < row.bar.opening ∧ 0 < row.bar.close := by
  unfold series at h
  rw [Raising.bind_eq_ok] at h
  obtain ⟨texts, -, h⟩ := h
  cases texts with
  | nil => simp at h
  | cons header texts =>
    simp only [Raising.bind_eq_ok, Raising.raiseIf_eq_ok, Raising.pure_eq_ok] at h
    obtain ⟨-, -, values, hvalues, -, hne, rfl⟩ := h
    exact ⟨(readRows_increasing hvalues).1, hne, readRows_positive hvalues⟩

end Lemmas

end TradeFramework.BasicWorkflow
