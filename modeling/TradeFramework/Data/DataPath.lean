import TradeFramework.Data.Json
import TradeFramework.Library.Raising

/-!
# DataKey paths

A DataKey is a dotted path into a Data Dict. Its segments come from the alphabet of
`_PATH_SEGMENT_PATTERN`; reads stop at the first missing or non-object step, writes
create the missing objects on the way and refuse to change an object into a value or back.
-/

namespace TradeFramework

open Raising (raiseIf)

/-- A Data Dict. -/
abbrev DataDict := List (String × Json)

section Paths

/-- The characters `str.strip` removes. -/
def isSpace (c : Char) : Bool :=
  [0x20, 0x85, 0xa0, 0x1680, 0x2028, 0x2029, 0x202f, 0x205f, 0x3000].contains c.toNat ||
    (0x09 ≤ c.toNat && c.toNat ≤ 0x0d) || (0x1c ≤ c.toNat && c.toNat ≤ 0x1f) ||
    (0x2000 ≤ c.toNat && c.toNat ≤ 0x200a)

/-- `str.strip`. -/
def stripText (text : List Char) : List Char :=
  ((text.dropWhile isSpace).reverse.dropWhile isSpace).reverse

/-- The alphabet of `_PATH_SEGMENT_PATTERN`. -/
def isSegmentChar (c : Char) : Bool :=
  ('A' ≤ c && c ≤ 'Z') || ('a' ≤ c && c ≤ 'z') || ('0' ≤ c && c ≤ '9') || c == '_' || c == '-'

/-- A full match of `_PATH_SEGMENT_PATTERN`. -/
def isPathSegment (segment : String) : Bool :=
  segment.toList ≠ [] && segment.toList.all isSegmentChar

/-- The segments of a valid DataKey path. -/
structure DataPath where
  root : String
  rest : List String
  valid : ∀ part ∈ root :: rest, isPathSegment part = true
deriving DecidableEq

/-- `split_data_path`. -/
def splitDataPath (path : String) : Except PyError DataPath :=
  let text := stripText path.toList
  let invalid : PyError := .valueError s!"Invalid DataKey path '{String.ofList text}'."
  match (text.splitOn '.').map String.ofList with
  | [] => throw invalid
  | root :: rest =>
    if h : ∀ part ∈ root :: rest, isPathSegment part = true then pure ⟨root, rest, h⟩
    else throw invalid

/-- The segments of the path, the root first. -/
def DataPath.parts (path : DataPath) : List String := path.root :: path.rest

/-- `".".join(parts)`. -/
def joinPath (parts : List String) : String := ".".intercalate parts

end Paths

section Joining

lemma isSegmentChar_dot : isSegmentChar '.' = false := by decide

lemma isPathSegment_iff {segment : String} : isPathSegment segment = true ↔
    segment.toList ≠ [] ∧ ∀ c ∈ segment.toList, isSegmentChar c = true := by
  simp [isPathSegment]

lemma dot_notMem_of_isPathSegment {segment : String} (h : isPathSegment segment = true) :
    '.' ∉ segment.toList := by
  intro hdot
  have hchar := (isPathSegment_iff.mp h).2 '.' hdot
  rw [isSegmentChar_dot] at hchar
  cases hchar

lemma isSpace_eq_false {c : Char} (h : c = '.' ∨ isSegmentChar c = true) : isSpace c = false := by
  rcases h with rfl | h
  · decide
  · simp only [isSegmentChar, Bool.or_eq_true, Bool.and_eq_true, decide_eq_true_eq, beq_iff_eq,
      Char.le_def, UInt32.le_iff_toNat_le] at h
    have hcode : c.toNat = c.val.toNat := rfl
    have hrange : c.val.toNat = 0x2d ∨ c.val.toNat = 0x5f ∨ (0x30 ≤ c.val.toNat ∧ c.val.toNat ≤ 0x39) ∨
        (0x41 ≤ c.val.toNat ∧ c.val.toNat ≤ 0x5a) ∨ (0x61 ≤ c.val.toNat ∧ c.val.toNat ≤ 0x7a) := by
      rcases h with ((((h | h) | h) | rfl) | rfl)
      · exact Or.inr (Or.inr (Or.inr (Or.inl h)))
      · exact Or.inr (Or.inr (Or.inr (Or.inr h)))
      · exact Or.inr (Or.inr (Or.inl h))
      · exact Or.inr (Or.inl rfl)
      · exact Or.inl rfl
    simp only [isSpace, hcode, List.contains_cons, List.contains_nil, Bool.or_false,
      Bool.or_eq_false_iff, Bool.and_eq_false_iff, decide_eq_false_iff_not, beq_eq_false_iff_ne]
    omega

lemma dropWhile_isSpace {text : List Char} (h : ∀ c ∈ text, isSpace c = false) :
    text.dropWhile isSpace = text := by
  cases text with
  | nil => rfl
  | cons c rest => rw [List.dropWhile_cons_of_neg (by simp [h c])]

lemma stripText_eq_self {text : List Char} (h : ∀ c ∈ text, isSpace c = false) :
    stripText text = text := by
  have hreverse : ∀ c ∈ text.reverse, isSpace c = false := fun c hc => h c (List.mem_reverse.mp hc)
  rw [stripText, dropWhile_isSpace h, dropWhile_isSpace hreverse, List.reverse_reverse]

lemma mem_intercalate {sep c : Char} {parts : List (List Char)}
    (h : c ∈ [sep].intercalate parts) : c = sep ∨ ∃ part ∈ parts, c ∈ part := by
  induction parts with
  | nil => simp at h
  | cons part rest ih =>
    cases rest with
    | nil => exact Or.inr ⟨part, by simp, by simpa using h⟩
    | cons next rest =>
      simp only [List.intercalate_cons_cons, List.append_assoc, List.mem_append,
        List.mem_singleton] at h
      rcases h with h | h | h
      · exact Or.inr ⟨part, by simp, h⟩
      · exact Or.inl h
      · exact (ih h).imp_right fun ⟨p, hp, hc⟩ => ⟨p, List.mem_cons_of_mem _ hp, hc⟩

lemma toList_joinPath (parts : List String) :
    (joinPath parts).toList = ['.'].intercalate (parts.map String.toList) := by
  rw [joinPath, String.toList_intercalate]
  rfl

/-- Splitting a joined path gives its segments back. -/
theorem splitDataPath_joinPath (path : DataPath) : splitDataPath (joinPath path.parts) = .ok path := by
  have hsegment : ∀ part ∈ path.parts.map String.toList, '.' ∉ part := by
    refine List.forall_mem_map.mpr fun part hpart => ?_
    exact dot_notMem_of_isPathSegment (path.valid part hpart)
  have hstrip : stripText (joinPath path.parts).toList = ['.'].intercalate
      (path.parts.map String.toList) := by
    rw [toList_joinPath]
    refine stripText_eq_self fun c hc => isSpace_eq_false ((mem_intercalate hc).imp_right ?_)
    rintro ⟨part, hpart, hcpart⟩
    obtain ⟨segment, hmem, rfl⟩ := List.mem_map.mp hpart
    exact (isPathSegment_iff.mp (path.valid segment hmem)).2 c hcpart
  have hparts : ((['.'].intercalate (path.parts.map String.toList)).splitOn '.').map
      String.ofList = path.root :: path.rest := by
    rw [List.splitOn_intercalate '.' hsegment (by simp [DataPath.parts]), List.map_map]
    simp [DataPath.parts, Function.comp_def]
  unfold splitDataPath
  dsimp only
  rw [hstrip, hparts]
  dsimp only
  rw [dif_pos path.valid]
  rfl

/-- A segment is the path of a root. -/
lemma splitDataPath_segment {segment : String} (h : isPathSegment segment = true) :
    splitDataPath segment = .ok ⟨segment, [], by simpa using h⟩ := by
  have hjoin := splitDataPath_joinPath ⟨segment, [], by simpa using h⟩
  simpa [joinPath, DataPath.parts] using hjoin

lemma dot_mem_childPath (path name : String) : '.' ∈ (s!"{path}.{name}").toList := by
  have happend : s!"{path}.{name}" = path ++ "." ++ name := rfl
  rw [happend]
  simp

end Joining

section Access

/-- `get_data_segments`; `none` is the missing value. -/
def getDataSegments : Json → List String → Option Json
  | node, [] => some node
  | .obj d, segment :: rest => do getDataSegments (← d.lookup segment) rest
  | _, _ :: _ => none

/-- `isinstance(value, Mapping)`. -/
def isMapping : Json → Bool
  | .obj _ => true
  | _ => false

/-- The object a write descends into. -/
def objectAt (data : DataDict) (segment : String) (collision : PyError) : Except PyError DataDict :=
  match data.lookup segment with
  | none => pure []
  | some (.obj existing) => pure existing
  | some _ => throw collision

/-- `set_data_segments_copy_on_write` below the segments already walked. -/
def setSegmentsBelow (walked : List String) (data : DataDict) (segment : String)
    (rest : List String) (value : Json) : Except PyError DataDict :=
  let path := joinPath (walked ++ segment :: rest)
  match rest with
  | [] => do
    raiseIf ((data.lookup segment).any fun existing => isMapping existing != isMapping value)
      (.valueError s!"DataKey path '{path}' changes JSON structure.")
    pure (Dict.set data segment value)
  | next :: rest => do
    let node ← objectAt data segment (.valueError <|
      s!"DataKey path '{path}' collides with non-object path " ++
        s!"'{joinPath (walked ++ [segment])}'.")
    let updated ← setSegmentsBelow (walked ++ [segment]) node next rest value
    pure (Dict.set data segment (.obj updated))

/-- `set_data_segments_copy_on_write`, as a function on the written dictionary. -/
def setDataSegmentsCopyOnWrite (data : DataDict) (path : DataPath) (value : Json) :
    Except PyError DataDict :=
  setSegmentsBelow [] data path.root path.rest value

/-- `set_data_segments`, which writes the same dictionary. -/
def setDataSegments (data : DataDict) (path : DataPath) (value : Json) : Except PyError DataDict :=
  setSegmentsBelow [] data path.root path.rest value

/-- `delete_data_segments_copy_on_write` below one segment. -/
def deleteSegmentsBelow (data : DataDict) (segment : String) : List String → DataDict
  | [] => Dict.erase data segment
  | next :: rest =>
    match data.lookup segment with
    | some (.obj node) => Dict.set data segment (.obj (deleteSegmentsBelow node next rest))
    | _ => data

/-- `delete_data_segments_copy_on_write`. -/
def deleteDataSegmentsCopyOnWrite (data : DataDict) (path : DataPath) : DataDict :=
  deleteSegmentsBelow data path.root path.rest

/-- One step of `project_compiled_data_paths`. -/
def projectDataPath (data result : DataDict) (path : DataPath) : Except PyError DataDict :=
  match getDataSegments (.obj data) path.parts with
  | some value => setDataSegments result path value
  | none => pure result

/-- `project_compiled_data_paths`. -/
def projectCompiledDataPaths (data : DataDict) (plan : List DataPath) : Except PyError DataDict :=
  plan.foldlM (projectDataPath data) []

end Access

end TradeFramework
