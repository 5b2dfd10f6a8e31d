import TradeFramework.Mining.State

/-!
# Page commits

What `commit_page` writes besides the lease: the page, the versions of its records and the
gaps between their event times.
-/

namespace TradeFramework.Mining

open Raising (raiseIf)

/-- One record of a page, with its identity and hashes. -/
structure Entry where
  identityHash : String
  identity : Json
  eventTime : Json
  eventTimeSort : Option ℚ
  recordHash : String
  isFinal : Bool

/-- `round` on an exact number: ties go to the even integer. -/
def roundHalfEven (q : ℚ) : ℤ :=
  let below := ⌊q⌋
  if q - below < 1 / 2 then below
  else if 1 / 2 < q - below then below + 1
  else if below % 2 = 0 then below else below + 1

/-- The page under which records are stored. -/
structure PageKey where
  jobId : String
  pageId : String
  committedAt : String

section Records

def isCurrentVersion (jobId identityHash : String) (v : VersionRow) : Bool :=
  v.jobId == jobId && v.identityHash == identityHash && v.isCurrent

/-- `INSERT INTO record_versions`. -/
def insertVersion (page : PageKey) (entry : Entry) (lineNumber revision : ℕ) (s : MiningState) :
    Except PyError MiningState := do
  raiseIf (s.versions.any fun v => v.jobId == page.jobId && v.identityHash == entry.identityHash &&
      v.revision == revision)
    (integrityError "record_versions.job_id, record_versions.identity_hash, record_versions.revision")
  raiseIf (s.versions.any (isCurrentVersion page.jobId entry.identityHash))
    (integrityError "record_versions.job_id, record_versions.identity_hash")
  pure { s with versions := s.versions ++ [{
    jobId := page.jobId, identityHash := entry.identityHash, revision := revision
    identity := entry.identity, eventTime := entry.eventTime, eventTimeSort := entry.eventTimeSort
    recordHash := entry.recordHash, isFinal := entry.isFinal, lineNumber := lineNumber
    pageId := page.pageId, observedAt := page.committedAt, isCurrent := true }] }

/-- The state of the record loop: the database, the new revisions and the touched event times. -/
structure RecordLoop where
  state : MiningState
  revisions : ℕ
  eventTimes : List ℚ

/-- Changes the current version of a record. -/
def updateCurrent (page : PageKey) (entry : Entry) (change : VersionRow → VersionRow)
    (s : MiningState) : MiningState :=
  { s with versions :=
      Table.update (isCurrentVersion page.jobId entry.identityHash) change s.versions }

/-- The version of an entry, against the current version of the record. -/
def storeVersion (page : PageKey) (entry : Entry) (lineNumber : ℕ) (current : Option VersionRow)
    (s : MiningState) : Except PyError MiningState :=
  match current with
  | none => insertVersion page entry lineNumber 1 s
  | some version =>
    if version.recordHash = entry.recordHash then
      pure (if entry.isFinal && !version.isFinal then
        updateCurrent page entry (fun v => { v with isFinal := true }) s else s)
    else
      insertVersion page entry lineNumber (version.revision + 1)
        (updateCurrent page entry (fun v => { v with isCurrent := false }) s)

/-- One entry of the record loop. -/
def storeEntry (page : PageKey) (loop : RecordLoop) (numbered : Entry × ℕ) :
    Except PyError RecordLoop := do
  let (entry, lineNumber) := numbered
  let current := loop.state.versions.find? (isCurrentVersion page.jobId entry.identityHash)
  let state ← storeVersion page entry lineNumber current loop.state
  raiseIf (state.observations.any fun o => o.pageId == page.pageId && o.lineNumber == lineNumber)
    (integrityError "record_observations.page_id, record_observations.line_number")
  let observed := { state with observations := state.observations ++ [⟨page.pageId, lineNumber,
    page.jobId, entry.identityHash, entry.recordHash, page.committedAt⟩] }
  let revised := current.any fun version => version.recordHash != entry.recordHash
  pure ⟨observed, loop.revisions + if revised then 1 else 0,
    loop.eventTimes ++ (current.bind VersionRow.eventTimeSort).toList⟩

end Records

section Gaps

/-- The distinct event times of the current versions of a job, ascending. -/
def currentEventTimes (s : MiningState) (jobId : String) : List ℚ :=
  (((s.versions.filter fun v => v.jobId == jobId && v.isCurrent).filterMap
    VersionRow.eventTimeSort).dedup).insertionSort (· ≤ ·)

/-- The adjacent event times around `eventTime`: two at or before, two at or after. -/
def neighborhood (times : List ℚ) (eventTime : ℚ) : List ℚ :=
  let before := (times.filter (· ≤ eventTime)).reverse.take 2
  let after := (times.filter (eventTime ≤ ·)).take 2
  ((before ++ after).dedup).insertionSort (· ≤ ·)

def GapRow.covers (jobId : String) (eventTime : ℚ) (g : GapRow) : Bool :=
  g.jobId == jobId && g.status != .resolved && decide (g.previousEventTime ≤ eventTime) &&
    decide (eventTime ≤ g.nextEventTime)

/-- The number of records a step leaves out between two event times. -/
def estimatedMissing (step : ℚ) (pair : ℚ × ℚ) : ℤ :=
  max 0 (roundHalfEven ((pair.2 - pair.1) / step) - 1)

/-- Whether a pair of event times is a gap. -/
def isGapPair (step : ℚ) (pair : ℚ × ℚ) : Bool :=
  !(decide (estimatedMissing step pair ≤ 0) || decide (pair.2 - pair.1 ≤ step * (3 / 2)))

variable (gapIdentifier : String → ℚ → ℚ → String)

/-- `INSERT INTO gaps … ON CONFLICT DO UPDATE`, for a pair that is a gap. -/
def upsertGap (jobId : String) (step : ℚ) (checkedAt : String) (s : MiningState) (pair : ℚ × ℚ) :
    Except PyError MiningState :=
  let samePair := fun g : GapRow => g.jobId == jobId &&
    decide (g.previousEventTime = pair.1 ∧ g.nextEventTime = pair.2)
  if !isGapPair step pair then pure s
  else if s.gaps.any samePair then
    pure (s.updateGaps samePair fun g => { g with
      missingStart := pair.1 + step, missingEnd := pair.2 - step
      estimatedMissing := estimatedMissing step pair
      status := if g.status = .backfillQueued then g.status else .open
      lastCheckedAt := checkedAt, resolvedAt := none })
  else do
    raiseIf (s.gaps.any fun g => g.gapId == gapIdentifier jobId pair.1 pair.2)
      (integrityError "gaps.gap_id")
    pure { s with gaps := s.gaps ++ [{
      gapId := gapIdentifier jobId pair.1 pair.2, jobId := jobId
      previousEventTime := pair.1, nextEventTime := pair.2
      missingStart := pair.1 + step, missingEnd := pair.2 - step
      estimatedMissing := estimatedMissing step pair, status := .open
      firstDetectedAt := checkedAt, lastCheckedAt := checkedAt }] }

/-- A gap that no longer separates adjacent event times. -/
def resolveGap (checkedAt : String) (gapId : String) (s : MiningState) : MiningState :=
  s.updateGaps (fun g => g.gapId == gapId) fun g => { g with
    status := .resolved, resolvedAt := some checkedAt, lastCheckedAt := checkedAt }

/-- What decides below whether a pair is one of the current gaps. -/
instance pairs_lawfulBEq : LawfulBEq (ℚ × ℚ) := inferInstance

/-- `_recompute_gaps_incremental`. -/
def recomputeGapsIncremental (jobId : String) (step : Option ℚ) (eventTimes : List ℚ)
    (checkedAt : String) (s : MiningState) : Except PyError MiningState :=
  match step with
  | none => pure s
  | some step =>
    if step ≤ 0 ∨ eventTimes = [] then pure s
    else do
      let times := currentEventTimes s jobId
      let touched := s.gaps.filter fun g => eventTimes.any fun t => g.covers jobId t
      let localPairs := (eventTimes.flatMap fun t =>
        (neighborhood times t).zip (neighborhood times t).tail).dedup
      let current := localPairs.filter (isGapPair step)
      let stale := touched.filter fun g => (g.previousEventTime, g.nextEventTime) ∉ current
      let updated ← localPairs.foldlM (upsertGap gapIdentifier jobId step checkedAt) s
      pure (stale.foldl (fun s g => resolveGap checkedAt g.gapId s) updated)

end Gaps

end TradeFramework.Mining
