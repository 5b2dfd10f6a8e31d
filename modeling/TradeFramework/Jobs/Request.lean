import TradeFramework.Data.DataPath
import TradeFramework.Data.Json
import TradeFramework.Library.Raising

/-!
# Backtest requests

The public request of a Backtest, and the execution evidence a job index row is bound to.
-/

namespace TradeFramework.Jobs

open Raising (raiseIf)

/-- An exception: the name of its class and its text. -/
structure Raised where
  className : String
  text : String
  named : className ≠ ""

namespace Raised

def valueError (text : String) : Raised := ⟨"ValueError", text, by decide⟩
def runtimeError (text : String) : Raised := ⟨"RuntimeError", text, by decide⟩
def typeError (text : String) : Raised := ⟨"TypeError", text, by decide⟩
def keyError (key : String) : Raised := ⟨"KeyError", s!"'{key}'", by decide⟩
def attributeError (text : String) : Raised := ⟨"AttributeError", text, by decide⟩
def overflowError (text : String) : Raised := ⟨"OverflowError", text, by decide⟩
def integrityError (text : String) : Raised := ⟨"IntegrityError", text, by decide⟩

/-- `str(exc) or exc.__class__.__name__`. -/
def describe (e : Raised) : String := if e.text = "" then e.className else e.text

lemma describe_ne (e : Raised) : e.describe ≠ "" := by
  unfold describe
  split_ifs with h
  · exact e.named
  · exact h

end Raised

section Values

/-- `value[key]`. -/
def item (value : Json) (key : String) : Except Raised Json :=
  match value with
  | .obj fields => (fields.lookup key).elim (throw (.keyError key)) pure
  | _ => throw (.typeError "value is not subscriptable")

/-- `value.get(key)` of a value that should be an object. -/
def getField (value : Json) (key : String) : Except Raised (Option Json) :=
  match value with
  | .obj fields => pure (fields.lookup key)
  | _ => throw (.attributeError "object has no attribute 'get'")

/-- Whether a field holds exactly a text. -/
def holdsText (value : Option Json) (text : String) : Bool :=
  match value with
  | some (.str s) => s == text
  | _ => false

def isObject : Option Json → Bool
  | some (.obj _) => true
  | _ => false

/-- `require_exact_fields`. -/
def requireExactFields (value : Json) (allowed required : List String) (label : String) :
    Except Raised (List (String × Json)) :=
  match value with
  | .obj fields => do
    let unknown := ((Dict.keys fields).filter (· ∉ allowed)).insertionSort (· ≤ ·)
    let unknownNames := ", ".intercalate unknown
    raiseIf (unknown ≠ []) (.valueError s!"{label} contains unsupported field(s): {unknownNames}")
    let missing := (required.filter fun name => !Dict.has fields name).insertionSort (· ≤ ·)
    let missingNames := ", ".intercalate missing
    raiseIf (missing ≠ []) (.valueError s!"{label} is missing required field(s): {missingNames}")
    pure fields
  | _ => throw (.valueError s!"{label} must be an object.")

end Values

section Normalize

/-- A text field of a reference of the request. -/
def requireText (fields : List (String × Json)) (reference name : String) : Except Raised Unit :=
  match fields.lookup name with
  | some (.str _) => pure ()
  | _ => throw (.valueError s!"Backtest {reference}.{name} must be a string.")

/-- `pipeline`, `environment` and `analysis` name a resource and its version. -/
def requireReference (request : List (String × Json)) (reference idField : String) :
    Except Raised Unit := do
  let fields ← requireExactFields ((request.lookup reference).getD .null) [idField, "version"]
    [idField, "version"] s!"Backtest {reference}"
  requireText fields reference idField
  requireText fields reference "version"

def requireSampler (request : List (String × Json)) : Except Raised Unit := do
  let fields ← requireExactFields ((request.lookup "sampler").getD .null)
    ["samplerId", "version", "parameters"] ["samplerId", "version", "parameters"] "Backtest sampler"
  raiseIf (!isObject (fields.lookup "parameters"))
    (.valueError "Backtest sampler.parameters must be an object.")
  requireText fields "sampler" "samplerId"
  requireText fields "sampler" "version"

def requireLimit (request : List (String × Json)) : Except Raised Unit :=
  match request.lookup "limit" with
  | none => pure ()
  | some (.int n) => raiseIf (n < 1) (.valueError "Backtest limit must be a positive integer.")
  | some _ => throw (.valueError "Backtest limit must be a positive integer.")

/-- A text with something besides white space in it. -/
def isFilled : Option Json → Bool
  | some (.str s) => stripText s.toList != []
  | _ => false

/-- A field of a reference, when it is there. -/
def nested (request : List (String × Json)) (reference name : String) : Option Json :=
  match request.lookup reference with
  | some (.obj fields) => fields.lookup name
  | _ => none

/-- `normalize_backtest_request`. -/
def normalizeBacktestRequest (request : Json) : Except Raised (List (String × Json)) := do
  let required := ["pipeline", "datasetId", "datasetVersionId", "sampler", "environment", "analysis"]
  let fields ← requireExactFields request (required ++ ["limit"]) required "Backtest request"
  requireReference fields "pipeline" "pipelineId"
  requireReference fields "environment" "environmentId"
  requireReference fields "analysis" "analysisId"
  requireSampler fields
  requireLimit fields
  let requiredValues := [("datasetId", fields.lookup "datasetId"),
    ("datasetVersionId", fields.lookup "datasetVersionId"),
    ("pipeline.pipelineId", nested fields "pipeline" "pipelineId"),
    ("sampler.samplerId", nested fields "sampler" "samplerId"),
    ("sampler.version", nested fields "sampler" "version"),
    ("environment.environmentId", nested fields "environment" "environmentId"),
    ("analysis.analysisId", nested fields "analysis" "analysisId")]
  requiredValues.forM fun (label, value) =>
    raiseIf (!isFilled value) (.valueError s!"Backtest {label} is required.")
  ["pipeline", "environment", "analysis"].forM fun resource =>
    raiseIf (!isFilled (nested fields resource "version"))
      (.valueError s!"Backtest {resource}.version is required.")
  pure fields

/-- `backtest_execution_inputs`. -/
def backtestExecutionInputs (request : Json) : Except Raised Json := do
  let normalized ← normalizeBacktestRequest request
  pure (.obj (Dict.set normalized "limit" ((normalized.lookup "limit").getD .null)))

end Normalize

section Evidence

/-- `is_sha256_digest`. -/
def isSha256Digest (text : String) : Bool :=
  text.toList.take 7 == "sha256:".toList && (text.toList.drop 7).length == 64 &&
    (text.toList.drop 7).all fun c => ('0' ≤ c && c ≤ '9') || ('a' ≤ c && c ≤ 'f')

/-- A content digest. -/
abbrev Sha256Digest := { text : String // isSha256Digest text = true }

variable (evidenceDigest : Json → Sha256Digest)

/-- `_require_request_evidence`. -/
def requireRequestEvidence (request : Json) (pipelineId datasetId : String) (snapshotHash : Json) :
    Except Raised Unit :=
  match request with
  | .obj fields =>
    match fields.lookup "executionSnapshot" with
    | some (.obj snapshot) => do
      let mismatch := Raised.valueError "Backtest Job index request does not match its execution evidence."
      let digest := evidenceDigest (.obj (Dict.erase snapshot "snapshotHash"))
      raiseIf (!jsonValuesEqual ((snapshot.lookup "snapshotHash").getD .null) snapshotHash) mismatch
      raiseIf (!holdsText (snapshot.lookup "snapshotHash") digest.1) mismatch
      let pipeline ← getField ((fields.lookup "pipeline").getD (.obj [])) "pipelineId"
      raiseIf (!holdsText pipeline pipelineId) mismatch
      raiseIf (!holdsText (fields.lookup "datasetId") datasetId) mismatch
      let inputs ← backtestExecutionInputs (.obj (Dict.erase fields "executionSnapshot"))
      raiseIf (!jsonValuesEqual ((snapshot.lookup "executionInputs").getD .null) inputs)
        (.valueError "Backtest Job execution inputs do not match its snapshot.")
    | _ => throw (.valueError "Backtest Job index request has no execution snapshot.")
  | _ => throw (.valueError "Backtest Job index request has no execution snapshot.")

/-- Accepted evidence is a digest. -/
lemma requireRequestEvidence_eq_ok {request : Json} {pipelineId datasetId : String} {snapshotHash : Json}
    (h : requireRequestEvidence evidenceDigest request pipelineId datasetId snapshotHash = .ok ()) :
    ∃ digest : Sha256Digest, snapshotHash = .str digest.1 := by
  unfold requireRequestEvidence at h
  split at h
  · split at h
    · next fields _ snapshot _ =>
      simp only [Raising.bind_eq_ok, Raising.raiseIf_eq_ok] at h
      obtain ⟨⟨⟩, hequal, ⟨⟩, hdigest, -⟩ := h
      refine ⟨evidenceDigest (.obj (Dict.erase snapshot "snapshotHash")), ?_⟩
      unfold holdsText at hdigest
      split at hdigest
      · next text htext =>
        rw [htext] at hequal
        have hequal : jsonValuesEqual (.str text) snapshotHash = true := by simpa using hequal
        have heq : Json.str text = snapshotHash := eq_of_equal_scalar (by simp) (by simp) hequal
        have htext : text = (evidenceDigest (.obj (Dict.erase snapshot "snapshotHash"))).1 := by
          simpa using hdigest
        rw [← heq, htext]
      · simp at hdigest
    · cases h
  · cases h

end Evidence

end TradeFramework.Jobs
