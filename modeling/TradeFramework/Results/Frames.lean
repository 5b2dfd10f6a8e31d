import TradeFramework.Library.Lines
import TradeFramework.Library.Raising
import TradeFramework.Data.Json
import Mathlib.Data.List.Sort
import Mathlib.Data.PNat.Basic

/-!
# Framed result archives

The physical frame of a result archive: one cycle a line between a fixed prefix and the metadata
suffix, cut into byte ranges at line boundaries, and read back range by range. A file is its bytes.
-/

namespace TradeFramework.Results

open Raising (raiseIf)
open Lines (slice readLine lines Ended)

abbrev Bytes := List UInt8

/-- `str.encode`. -/
def utf8 (text : String) : Bytes := text.toList.flatMap String.utf8EncodeChar

def newline : UInt8 := 10

/-- `b",\n"`. -/
def separator : Bytes := [44, newline]

/-- `FRAMED_RESULT_PREFIX`. -/
def framedResultPrefix : Bytes := utf8 "\x7b\"cycles\":[\n"

/-- `FRAMED_RESULT_METADATA_PREFIX`. -/
def framedResultMetadataPrefix : Bytes := utf8 "],\"schemaVersion\":"

/-- `MAX_RESULT_VERIFICATION_SHARDS`. -/
def maxResultVerificationShards : ℕ := 8

/-- `RESULT_VERIFICATION_TARGET_BYTES`. -/
def resultVerificationTargetBytes : ℕ := 32 * 1024 * 1024

/-- `_READ_CHUNK_BYTES`. -/
def readChunkBytes : ℕ+ := ⟨1024 * 1024, by omega⟩

structure ByteRange where
  start : ℕ
  stop : ℕ
  final : Bool
deriving DecidableEq, Repr

structure FramePlan where
  cycleStart : ℕ
  metadataStart : ℕ
  ranges : List ByteRange
deriving Repr

section Planning

/-- `bytes.rfind` of one byte. -/
def rfind (byte : UInt8) : Bytes → Option ℕ
  | [] => none
  | b :: rest => match rfind byte rest with
    | some position => some (position + 1)
    | none => if b = byte then some 0 else none

/-- `_find_metadata_suffix_start`, with the file searched backwards from `offset`. -/
def findMetadataSuffixStart (chunkBytes : ℕ+) (file : Bytes) (offset : ℕ) : Except PyError ℕ :=
  if offset = 0 then throw (.valueError "Result archive physical cycle framing is invalid.")
  else
    let start := offset - chunkBytes
    match rfind newline (slice file start offset) with
    | some position => pure (start + position + 1)
    | none => findMetadataSuffixStart chunkBytes file start
termination_by offset
decreasing_by
  have hpos := chunkBytes.pos
  omega

/-- The boundary a shard hint moves to: the end of the line that the target byte is in. -/
def shardBoundary (file : Bytes) (target : ℕ) : ℕ :=
  target + (readLine newline (file.drop target).length (file.drop target)).length

/-- `sorted(set(boundaries))`. -/
def sortedBoundaries (boundaries : List ℕ) : List ℕ := boundaries.dedup.insertionSort (· ≤ ·)

/-- The ranges between neighbouring boundaries. -/
def boundaryRanges (metadataStart : ℕ) (boundaries : List ℕ) : List ByteRange :=
  ((boundaries.zip boundaries.tail).filter fun b => b.1 < b.2).map fun b =>
    ⟨b.1, b.2, decide (b.2 = metadataStart)⟩

/-- Whether ranges fail to cover the cycle bytes. -/
def rangesIncomplete (cycleStart metadataStart : ℕ) (ranges : List ByteRange) : Bool :=
  ranges.isEmpty || ranges.head?.map (·.start) != some cycleStart ||
    ranges.getLast?.map (·.stop) != some metadataStart ||
    (ranges.zip ranges.tail).any fun r => r.1.stop != r.2.start

/-- `plan_framed_cycle_ranges`, with `RESULT_VERIFICATION_TARGET_BYTES` as `targetBytes`. -/
def planFramedCycleRanges (targetBytes : ℕ) (file : Bytes) (expectedSize maxShards : ℕ) :
    Except PyError FramePlan := do
  raiseIf (expectedSize < framedResultPrefix.length + 1) (.valueError "Result archive size is invalid.")
  raiseIf (maxShards < 1 ∨ maxResultVerificationShards < maxShards)
    (.valueError "Result verifier shard count is invalid.")
  raiseIf (file.length ≠ expectedSize)
    (.valueError "Result archive size does not match its immutable index.")
  raiseIf (file.take framedResultPrefix.length ≠ framedResultPrefix)
    (.valueError "Result archive physical cycle framing is invalid.")
  let suffixStart ← findMetadataSuffixStart readChunkBytes file expectedSize
  raiseIf ((file.drop suffixStart).take framedResultMetadataPrefix.length ≠ framedResultMetadataPrefix)
    (.valueError "Result archive physical metadata framing is invalid.")
  let cycleStart := framedResultPrefix.length
  raiseIf (suffixStart < cycleStart)
    (.valueError "Result archive physical cycle framing is invalid.")
  let cycleBytes := suffixStart - cycleStart
  if cycleBytes = 0 then pure ⟨cycleStart, suffixStart, []⟩
  else do
    let shardCount := min maxShards (max 1 ((cycleBytes + targetBytes - 1) / targetBytes))
    let hints := (List.range' 1 (shardCount - 1)).map fun shardIndex =>
      shardBoundary file (cycleStart + cycleBytes * shardIndex / shardCount)
    let inner := hints.filter fun boundary => cycleStart < boundary ∧ boundary < suffixStart
    let boundaries := sortedBoundaries (cycleStart :: inner ++ [suffixStart])
    let ranges := boundaryRanges suffixStart boundaries
    raiseIf (rangesIncomplete cycleStart suffixStart ranges)
      (.valueError "Result verifier ranges do not cover every cycle byte.")
    pure ⟨cycleStart, suffixStart, ranges⟩

end Planning

section Reading

/-- `_require_file_range`. -/
def requireFileRange (start stop : ℕ) : Except PyError Unit :=
  raiseIf (stop ≤ start) (.valueError "Result verification byte range is invalid.")

/-- The next chunk of a range. -/
def rangeChunk (file : Bytes) (position remaining : ℕ) : Bytes :=
  (file.drop position).take (min readChunkBytes remaining)

/-- The reading loop of `count_framed_cycle_lines`. -/
def countLines (file : Bytes) (position remaining count : ℕ) : Except PyError ℕ :=
  if remaining = 0 then pure count
  else if rangeChunk file position remaining = [] then
    throw (.valueError "Result archive ended inside a verifier range.")
  else
    let chunk := rangeChunk file position remaining
    countLines file (position + chunk.length) (remaining - chunk.length) (count + chunk.count newline)
termination_by remaining
decreasing_by
  have hpos : 0 < (rangeChunk file position remaining).length := List.length_pos_of_ne_nil ‹_›
  omega

/-- `count_framed_cycle_lines`. -/
def countFramedCycleLines (file : Bytes) (start stop : ℕ) : Except PyError ℕ := do
  requireFileRange start stop
  let count ← countLines file start (stop - start) 0
  raiseIf (count < 1) (.valueError "Result archive cycle range contains no complete line.")
  pure count

/-- The encoded cycle on a line; `last` marks the last line of the final range. -/
def framedLine (last : Bool) (line : Bytes) : Except PyError Bytes :=
  if last then do
    raiseIf (separator <:+ line) (.valueError "Result archive final cycle framing is invalid.")
    raiseIf (line.dropLast = []) (.valueError "Result archive contains an empty cycle line.")
    pure line.dropLast
  else do
    raiseIf (¬separator <:+ line) (.valueError "Result archive cycle separator framing is invalid.")
    raiseIf (line.dropLast.dropLast = []) (.valueError "Result archive contains an empty cycle line.")
    pure line.dropLast.dropLast

variable (loads : Bytes → Except PyError Json)

/-- The value of one cycle line. -/
def cycleValue (last : Bool) (line : Bytes) : Except PyError Json := do
  let encoded ← framedLine last line
  loads encoded

/-- The next line of a range, read with a bound that stops one byte after the range. -/
def rangeLine (file : Bytes) (position stop : ℕ) : Bytes :=
  readLine newline (stop - position + 1) (file.drop position)

/-- The reading loop of `iter_framed_cycle_values`: the values it yields, and after them the
exception that ends it, if one does. -/
def framedValuesFrom (file : Bytes) (final : Bool) (stop position : ℕ) : List (Except PyError Json) :=
  if position < stop then
    let line := rangeLine file position stop
    if line = [] ∨ stop < position + line.length ∨ line.getLast? ≠ some newline then
      [.error (.valueError "Result archive physical cycle framing is invalid.")]
    else match cycleValue loads (decide (position + line.length = stop) && final) line with
      | .error e => [.error e]
      | .ok value => .ok value :: framedValuesFrom file final stop (position + line.length)
  else if position = stop then []
  else [.error (.valueError "Result verifier range was not completely consumed.")]
termination_by stop - position
decreasing_by
  rename_i hline
  have hpos : 0 < (rangeLine file position stop).length :=
    List.length_pos_of_ne_nil fun h => hline (.inl h)
  omega

/-- `iter_framed_cycle_values`. -/
def iterFramedCycleValues (file : Bytes) (start stop : ℕ) (final : Bool) : List (Except PyError Json) :=
  match requireFileRange start stop with
  | .error e => [.error e]
  | .ok () => framedValuesFrom loads file final stop start

end Reading

section Boundaries

variable {file : Bytes}

lemma rfind_spec (byte : UInt8) (chunk : Bytes) :
    match rfind byte chunk with
    | some position => ∃ before after,
        chunk = before ++ byte :: after ∧ before.length = position ∧ byte ∉ after
    | none => byte ∉ chunk := by
  induction chunk with
  | nil => simp [rfind]
  | cons b rest ih =>
    unfold rfind
    cases hrest : rfind byte rest with
    | some position =>
      simp only [hrest] at ih
      obtain ⟨before, after, heq, hlength, hafter⟩ := ih
      exact ⟨b :: before, after, by rw [heq]; rfl, by simp [hlength], hafter⟩
    | none =>
      simp only [hrest] at ih
      by_cases hb : b = byte
      · rw [if_pos hb]
        exact ⟨[], rest, by rw [hb]; rfl, rfl, ih⟩
      · rw [if_neg hb]
        simp [ih, Ne.symm hb]

/-- The metadata starts after the last newline of the file. -/
lemma findMetadataSuffixStart_spec (chunkBytes : ℕ+) {offset start : ℕ} (hoffset : offset ≤ file.length)
    (h : findMetadataSuffixStart chunkBytes file offset = .ok start) :
    start ≤ offset ∧ Ended newline (file.take start) ∧ newline ∉ slice file start offset := by
  fun_induction findMetadataSuffixStart chunkBytes file offset with
  | case1 => simp at h
  | case2 offset hne first position hfind =>
    have hstart : first + position + 1 = start := by simpa using h
    have hspec := rfind_spec newline (slice file first offset)
    rw [hfind] at hspec
    obtain ⟨before, after, hsplit, hlength, hafter⟩ := hspec
    have hfirst : first ≤ offset := Nat.sub_le _ _
    have hslice := Lines.length_slice (p := first) hoffset
    rw [hsplit, List.length_append, List.length_cons] at hslice
    have hbound : start ≤ offset := by omega
    have htake : file.take offset = (file.take first ++ (before ++ [newline])) ++ after := by
      rw [← Lines.take_append_slice file hfirst, hsplit]
      simp
    have hline : (file.take first ++ (before ++ [newline])).length = start := by
      simp only [List.length_append, List.length_take, List.length_singleton]
      omega
    have htaken : file.take start = file.take first ++ (before ++ [newline]) := by
      calc file.take start = (file.take offset).take start := by
            rw [List.take_take, min_eq_left hbound]
        _ = file.take first ++ (before ++ [newline]) := by
            rw [htake, List.take_left' hline]
    refine ⟨hbound, ?_, ?_⟩
    · rw [htaken, ← List.append_assoc]
      exact Lines.ended_concat
    · have hrest : slice file start offset = after := by
        have hcut := Lines.take_append_slice file hbound
        rw [htake, htaken] at hcut
        exact List.append_cancel_left hcut
      rwa [hrest]
  | case3 offset hne first hfind ih =>
    have hfirst : first ≤ offset := Nat.sub_le _ _
    obtain ⟨hle, hended, hnone⟩ := ih (hfirst.trans hoffset) h
    have hspec := rfind_spec newline (slice file first offset)
    rw [hfind] at hspec
    refine ⟨hle.trans hfirst, hended, ?_⟩
    rw [← Lines.slice_append file hle hfirst, List.mem_append, not_or]
    exact ⟨hnone, hspec⟩

lemma mem_sortedBoundaries {boundaries : List ℕ} {p : ℕ} :
    p ∈ sortedBoundaries boundaries ↔ p ∈ boundaries := by
  rw [sortedBoundaries, List.mem_insertionSort, List.mem_dedup]

lemma pairwise_sortedBoundaries (boundaries : List ℕ) :
    (sortedBoundaries boundaries).Pairwise (· < ·) := by
  have hsorted : (sortedBoundaries boundaries).Pairwise (· ≤ ·) := List.pairwise_insertionSort _ _
  have hnodup : (sortedBoundaries boundaries).Nodup :=
    (List.perm_insertionSort _ _).nodup_iff.mpr (List.nodup_dedup boundaries)
  exact hsorted.imp₂ (fun _ _ hle hne => lt_of_le_of_ne hle hne) hnodup

/-- Ranges that follow each other from a position to the metadata, each ending at a line boundary. -/
inductive Tiles (file : Bytes) (metadataStart : ℕ) : ℕ → List ByteRange → Prop
  | last {start : ℕ} : start < metadataStart → Tiles file metadataStart start [⟨start, metadataStart, true⟩]
  | cons {start stop : ℕ} {ranges : List ByteRange} : start < stop → stop < metadataStart →
      Ended newline (file.take stop) → Tiles file metadataStart stop ranges →
      Tiles file metadataStart start (⟨start, stop, false⟩ :: ranges)

lemma Tiles.start_lt {metadataStart start : ℕ} {ranges : List ByteRange}
    (h : Tiles file metadataStart start ranges) : start < metadataStart := by
  cases h with
  | last h => exact h
  | cons hstart hstop _ _ => exact hstart.trans hstop

/-- The ranges between boundaries tile the cycle bytes. -/
lemma boundaryRanges_tiles {metadataStart start : ℕ} {boundaries : List ℕ}
    (hsorted : (start :: boundaries).Pairwise (· < ·)) (hlast : metadataStart ∈ boundaries)
    (hbound : ∀ p ∈ boundaries, p ≤ metadataStart ∧ Ended newline (file.take p)) :
    Tiles file metadataStart start (boundaryRanges metadataStart (start :: boundaries)) := by
  induction boundaries generalizing start with
  | nil => simp at hlast
  | cons next rest ih =>
    obtain ⟨hstart, hrest⟩ := List.pairwise_cons.mp hsorted
    have hnext : start < next := hstart next (by simp)
    have hsplit : boundaryRanges metadataStart (start :: next :: rest) =
        ⟨start, next, decide (next = metadataStart)⟩ ::
          boundaryRanges metadataStart (next :: rest) := by
      unfold boundaryRanges
      rw [List.tail_cons, List.zip_cons_cons, List.filter_cons_of_pos (by simpa using hnext)]
      rfl
    rw [hsplit]
    by_cases hfinal : next = metadataStart
    · -- the metadata starts at the last boundary, so no boundary follows it
      have hempty : rest = [] := by
        apply List.eq_nil_iff_forall_not_mem.mpr
        intro p hp
        have hlt := (List.pairwise_cons.mp hrest).1 p hp
        have hle := (hbound p (by simp [hp])).1
        omega
      subst hempty hfinal
      simpa [boundaryRanges] using Tiles.last hnext
    · have hmem : metadataStart ∈ rest := by
        simpa [Ne.symm hfinal] using hlast
      have hlt : next < metadataStart := (List.pairwise_cons.mp hrest).1 _ hmem
      simp only [hfinal, decide_false]
      apply Tiles.cons hnext hlt (hbound next (by simp)).2
      exact ih hrest hmem fun p hp => hbound p (by simp [hp])

/-- The boundaries of a plan, in order, cut the cycle bytes into ranges. -/
lemma sortedBoundaries_tiles {cycleStart metadataStart : ℕ} {inner : List ℕ}
    (hlt : cycleStart < metadataStart) (hended : Ended newline (file.take metadataStart))
    (hinner : ∀ p ∈ inner, (cycleStart < p ∧ p < metadataStart) ∧ Ended newline (file.take p)) :
    Tiles file metadataStart cycleStart
      (boundaryRanges metadataStart (sortedBoundaries (cycleStart :: inner ++ [metadataStart]))) := by
  have hmem : ∀ p, p ∈ sortedBoundaries (cycleStart :: inner ++ [metadataStart]) ↔
      p = cycleStart ∨ p ∈ inner ∨ p = metadataStart := by
    intro p
    rw [mem_sortedBoundaries]
    simp
  have hsorted := pairwise_sortedBoundaries (cycleStart :: inner ++ [metadataStart])
  cases hlist : sortedBoundaries (cycleStart :: inner ++ [metadataStart]) with
  | nil =>
    have habsurd := (hmem cycleStart).mpr (.inl rfl)
    rw [hlist] at habsurd
    simp at habsurd
  | cons first rest =>
    rw [hlist] at hmem hsorted
    have hfirst : first = cycleStart := by
      have hle : cycleStart ≤ first := by
        rcases (hmem first).mp (by simp) with h | h | h
        · omega
        · exact (hinner first h).1.1.le
        · omega
      rcases List.mem_cons.mp ((hmem cycleStart).mpr (.inl rfl)) with h | h
      · exact h.symm
      · have hlater := (List.pairwise_cons.mp hsorted).1 _ h
        omega
    subst hfirst
    apply boundaryRanges_tiles hsorted
    · rcases List.mem_cons.mp ((hmem metadataStart).mpr (.inr (.inr rfl))) with h | h
      · omega
      · exact h
    · intro p hp
      have hlater := (List.pairwise_cons.mp hsorted).1 p hp
      rcases (hmem p).mp (by simp [hp]) with h | h | h
      · omega
      · exact ⟨(hinner p h).1.2.le, (hinner p h).2⟩
      · rw [h]
        exact ⟨le_refl _, hended⟩

/-- A shard hint moves to a line boundary, unless it reaches the end of the file. -/
lemma ended_shardBoundary {target : ℕ} (h : shardBoundary file target < file.length) :
    Ended newline (file.take (shardBoundary file target)) := by
  have htarget : target ≤ file.length := (Nat.le_add_right _ _).trans h.le
  have hread : Ended newline (file.take (shardBoundary file target)) ∨ _ :=
    Lines.ended_take_readLine htarget
  rcases hread with hended | hstop
  · exact hended
  · unfold shardBoundary at h
    omega

/-- The boundaries of a plan make at most one range more than there are inner boundaries. -/
lemma length_boundaryRanges (cycleStart metadataStart : ℕ) (inner : List ℕ) :
    (boundaryRanges metadataStart
      (sortedBoundaries (cycleStart :: inner ++ [metadataStart]))).length ≤ inner.length + 1 := by
  have hsorted : (sortedBoundaries (cycleStart :: inner ++ [metadataStart])).length ≤ inner.length + 2 := by
    unfold sortedBoundaries
    rw [List.length_insertionSort]
    apply (List.dedup_sublist _).length_le.trans
    simp
  unfold boundaryRanges
  rw [List.length_map]
  apply (List.length_filter_le _ _).trans
  rw [List.length_zip, List.length_tail]
  omega

/-- A plan whose ranges tile the cycle bytes of a file, or that has no range for no cycle. -/
structure FramePlan.Covers (plan : FramePlan) (file : Bytes) : Prop where
  metadata_le : plan.metadataStart ≤ file.length
  ended : Ended newline (file.take plan.metadataStart)
  shards : plan.ranges.length ≤ maxResultVerificationShards
  tiles : plan.ranges = [] ∧ plan.cycleStart = plan.metadataStart ∨
    Tiles file plan.metadataStart plan.cycleStart plan.ranges

/-- Every plan covers its file, for every number of shards. -/
theorem planFramedCycleRanges_covers {targetBytes expectedSize maxShards : ℕ} {plan : FramePlan}
    (h : planFramedCycleRanges targetBytes file expectedSize maxShards = .ok plan) :
    plan.Covers file := by
  unfold planFramedCycleRanges at h
  simp only [Raising.seq_eq_ok, Raising.raiseIf_eq_ok, not_not] at h
  obtain ⟨-, hmax, hsize, -, h⟩ := h
  obtain ⟨suffixStart, hsuffix, h⟩ := Raising.bind_eq_ok.mp h
  simp only [Raising.seq_eq_ok, Raising.raiseIf_eq_ok, not_lt] at h
  obtain ⟨-, hstart, h⟩ := h
  obtain ⟨hle, hended, -⟩ := findMetadataSuffixStart_spec readChunkBytes (by omega) hsuffix
  split_ifs at h with hempty
  · have hplan := Raising.pure_eq_ok.mp h
    rw [← hplan]
    have hequal : framedResultPrefix.length = suffixStart := by omega
    exact ⟨hle.trans_eq hsize.symm, hended, Nat.zero_le _, .inl ⟨rfl, hequal⟩⟩
  · simp only [Raising.seq_eq_ok, Raising.raiseIf_eq_ok] at h
    have hplan := Raising.pure_eq_ok.mp h.2
    rw [← hplan]
    have hlt : framedResultPrefix.length < suffixStart := by omega
    refine ⟨hle.trans_eq hsize.symm, hended, ?_, .inr (sortedBoundaries_tiles hlt hended ?_)⟩
    · apply (length_boundaryRanges _ _ _).trans
      apply (Nat.succ_le_succ (List.length_filter_le _ _)).trans
      rw [List.length_map, List.length_range']
      omega
    · intro p hp
      obtain ⟨hhint, hbounds⟩ := List.mem_filter.mp hp
      obtain ⟨shardIndex, -, rfl⟩ := List.mem_map.mp hhint
      have hbounds := of_decide_eq_true hbounds
      have hshort := hbounds.2.trans_le (hle.trans_eq hsize.symm)
      exact ⟨hbounds, ended_shardBoundary hshort⟩

end Boundaries

section RangeValues

variable (loads : Bytes → Except PyError Json) {file : Bytes}

/-- The values on the lines of a range. -/
def rangeValues (final : Bool) : List Bytes → List (Except PyError Json)
  | [] => []
  | line :: rest => cycleValue loads (rest.isEmpty && final) line :: rangeValues final rest

/-- The values up to the first exception. -/
def untilError : List (Except PyError Json) → List (Except PyError Json)
  | [] => []
  | .error e :: _ => [.error e]
  | .ok value :: rest => .ok value :: untilError rest

variable {loads}

lemma length_rangeValues (final : Bool) (cycleLines : List Bytes) :
    (rangeValues loads final cycleLines).length = cycleLines.length := by
  induction cycleLines with
  | nil => rfl
  | cons line rest ih => rw [rangeValues, List.length_cons, List.length_cons, ih]

/-- Only the last line of the final range is read in another way. -/
lemma rangeValues_append (final : Bool) (xs : List Bytes) {ys : List Bytes} (hys : ys ≠ []) :
    rangeValues loads final (xs ++ ys) = rangeValues loads false xs ++ rangeValues loads final ys := by
  induction xs with
  | nil => rfl
  | cons line rest ih =>
    have hmore : (rest ++ ys).isEmpty = false := by simp [hys]
    rw [List.cons_append, rangeValues, rangeValues, ih, hmore, Bool.false_and, Bool.and_false]
    rfl

lemma rangeLine_eq {position stop : ℕ} {body rest : Bytes} (hposition : position ≤ stop)
    (hstop : stop ≤ file.length) (hbody : newline ∉ body)
    (hslice : slice file position stop = body ++ newline :: rest) :
    rangeLine file position stop = body ++ [newline] := by
  have hdrop : file.drop position = body ++ newline :: (rest ++ file.drop stop) := by
    rw [← Lines.slice_append_drop hposition, hslice, List.append_assoc, List.cons_append]
  have hlength := Lines.length_slice (p := position) hstop
  rw [hslice, List.length_append, List.length_cons] at hlength
  unfold rangeLine
  rw [hdrop]
  exact Lines.readLine_body hbody (by omega) _

/-- Reading a range that ends at a line boundary yields the values of its lines. -/
lemma framedValuesFrom_eq (final : Bool) {position stop : ℕ} (hposition : position ≤ stop)
    (hstop : stop ≤ file.length) (hended : Ended newline (slice file position stop)) :
    framedValuesFrom loads file final stop position =
      untilError (rangeValues loads final (lines newline (slice file position stop))) := by
  generalize hslice : slice file position stop = text at hended ⊢
  induction hended using Ended.induction generalizing position with
  | nil =>
    have hlength := Lines.length_slice (p := position) hstop
    rw [hslice, List.length_nil] at hlength
    have hequal : position = stop := by omega
    rw [framedValuesFrom, if_neg (by omega), if_pos hequal]
    rfl
  | line body rest hrest h hbody ih =>
    have hlength := Lines.length_slice (p := position) hstop
    rw [hslice, List.length_append, List.length_cons] at hlength
    have hline := rangeLine_eq hposition hstop hbody hslice
    have hsize : (body ++ [newline]).length = body.length + 1 := by simp
    have hnext : slice file (position + (body ++ [newline]).length) stop = rest := by
      rw [Lines.slice_add, hslice, List.append_cons body newline rest, List.drop_left]
    have hlast : decide (position + (body ++ [newline]).length = stop) =
        (lines newline rest).isEmpty := by
      by_cases hrest : rest = []
      · subst hrest
        simp only [List.length_nil] at hlength
        have hequal : position + (body ++ [newline]).length = stop := by omega
        simpa [lines] using hequal
      · have hmore : (lines newline rest).isEmpty = false := by
          simpa using Lines.lines_ne_nil hrest
        have hlonger := List.length_pos_of_ne_nil hrest
        rw [hmore, decide_eq_false_iff_not]
        omega
    have hframed : ¬(body ++ [newline] = [] ∨ stop < position + (body ++ [newline]).length ∨
        (body ++ [newline]).getLast? ≠ some newline) := by
      rintro (hempty | hlong | hnoline)
      · simp at hempty
      · omega
      · simp at hnoline
    have hrun : framedValuesFrom loads file final stop (position + (body ++ [newline]).length) =
        untilError (rangeValues loads final (lines newline rest)) := ih (by omega) hnext
    rw [Lines.lines_body hbody, rangeValues, framedValuesFrom, if_pos (by omega), hline]
    dsimp only
    rw [if_neg hframed, hlast, hrun]
    cases cycleValue loads ((lines newline rest).isEmpty && final) (body ++ [newline]) <;> rfl

/-- The values of the ranges, one range after the other, are the values of all cycle bytes. -/
theorem Tiles.rangeValues_eq {metadataStart start : ℕ} {ranges : List ByteRange}
    (h : Tiles file metadataStart start ranges) (hlength : metadataStart ≤ file.length) :
    rangeValues loads true (lines newline (slice file start metadataStart)) =
      ranges.flatMap fun r => rangeValues loads r.final (lines newline (slice file r.start r.stop)) := by
  induction h with
  | last => simp
  | @cons start stop ranges hstart hstop hline hrest ih =>
    have hsplit := Lines.slice_append file hstart.le hstop.le
    have hfirst := Lines.ended_slice hstart.le hline
    have hmore : lines newline (slice file stop metadataStart) ≠ [] := by
      apply Lines.lines_ne_nil
      apply List.ne_nil_of_length_pos
      rw [Lines.length_slice hlength]
      have hlater := hrest.start_lt
      omega
    rw [← hsplit, Lines.lines_append hfirst, rangeValues_append true _ hmore, ih, List.flatMap_cons]

/-- The chunks of a range hold the newlines of the range. -/
lemma countLines_eq {position remaining : ℕ} (count : ℕ) (h : position + remaining ≤ file.length) :
    countLines file position remaining count =
      .ok (count + (slice file position (position + remaining)).count newline) := by
  fun_induction countLines file position remaining count with
  | case1 position count => simp [slice]
  | case2 position remaining count hmore hempty =>
    have hlength := congrArg List.length hempty
    unfold rangeChunk at hlength
    simp only [List.length_take, List.length_drop, List.length_nil] at hlength
    have hpos := readChunkBytes.pos
    omega
  | case3 position remaining count hmore hchunk chunk ih =>
    have hlength : chunk.length ≤ remaining := by
      change (rangeChunk file position remaining).length ≤ remaining
      unfold rangeChunk
      rw [List.length_take]
      omega
    have hfirst : slice file position (position + chunk.length) = chunk := by
      have htake : chunk = (file.drop position).take (min readChunkBytes remaining) := rfl
      unfold slice
      rw [Nat.add_sub_cancel_left, htake, List.length_take, ← List.take_take, List.take_length]
    have hend : position + chunk.length + (remaining - chunk.length) = position + remaining := by omega
    have hsplit := Lines.slice_append file (Nat.le_add_right position chunk.length)
      (Nat.add_le_add_left hlength position)
    rw [ih (by omega), hend, ← hsplit, List.count_append, hfirst, Nat.add_assoc]

lemma countFramedCycleLines_eq {start stop : ℕ} (hstart : start < stop) (hstop : stop ≤ file.length)
    (hended : Ended newline (slice file start stop)) :
    countFramedCycleLines file start stop = .ok (lines newline (slice file start stop)).length := by
  have hcount : countLines file start (stop - start) 0 = _ := countLines_eq 0 (by omega)
  have hlines := Lines.length_lines hended
  have hpos : 0 < (lines newline (slice file start stop)).length := by
    apply List.length_pos_of_ne_nil
    apply Lines.lines_ne_nil
    apply List.ne_nil_of_length_pos
    rw [Lines.length_slice hstop]
    omega
  rw [Nat.add_sub_cancel' hstart.le, Nat.zero_add, ← hlines] at hcount
  unfold countFramedCycleLines requireFileRange
  rw [Raising.raiseIf, if_neg (by omega), hcount]
  change (Raising.raiseIf _ _ >>= fun _ => pure _) = _
  rw [Raising.raiseIf, if_neg (by omega)]
  rfl

end RangeValues

end TradeFramework.Results
