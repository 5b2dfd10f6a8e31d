import TradeFramework.BasicWorkflow.Dataset

/-!
# The price map sampler

One frame for each bar time of the decision period. A cursor for each series is carried across the
frames; what a frame holds of a series is the bar its cursor points at.
-/

namespace TradeFramework.BasicWorkflow

open Raising (raiseIf)
open Carry (Increasing seen carried advance)

/-- `sorted(d.items())` of a dict whose keys are strings. -/
def sortedItems {α : Type} (d : List (String × α)) : List (String × α) :=
  (Dict.items d).insertionSort fun a b => a.1 ≤ b.1

/-- The rows of each instrument of each period. -/
abbrev SeriesMap := List (String × List (String × List Row))

/-- The bars a frame holds of each instrument of each period. -/
abbrev PriceMap := List (String × List (String × Bar))

/-- Where a price comes from. -/
structure PriceProvenance where
  sourcePath : String
  sourceRow : ℕ
  barTime : String
  decisionTime : String
  sourceFields : List String
  protocolVersion : String
deriving DecidableEq, Repr

/-- Where the time of a frame comes from. -/
structure TimeProvenance where
  decisionPeriod : String
  time : String
  protocolVersion : String
deriving DecidableEq, Repr

structure FrameData where
  time : String
  price : PriceMap
deriving DecidableEq, Repr

structure Frame where
  decisionTime : String
  sequence : ℕ
  cycleId : String
  data : FrameData
  timeProvenance : TimeProvenance
  provenance : List (String × PriceProvenance)
deriving DecidableEq, Repr

/-- The series of one instrument. -/
def readInstrument (codec : TextCodec) (dataset : Dataset) (instrument : String × String) :
    Except PyError (String × List Row) := do
  let rows ← series codec instrument.2 dataset
  pure (instrument.1, rows)

/-- The series of a data set, as the files of its index name them. -/
def readSeries (codec : TextCodec) (dataset : Dataset) (files : Files) : Except PyError SeriesMap :=
  (sortedItems files).mapM fun period => do
    let instruments ← (sortedItems period.2).mapM (readInstrument codec dataset)
    pure (period.1, instruments)

/-- The distinct bar times of the decision period. -/
def timeline (series : SeriesMap) (decisionPeriod : String) : List ℤ :=
  (((series.lookup decisionPeriod).getD []).flatMap fun instrument =>
    instrument.2.map Row.time).dedup.insertionSort (· ≤ ·)

/-- How many rows of each series the cursors have passed: one more than the cursor. -/
abbrev Cursors := String × String → ℕ

/-- The values the loops over the series change. -/
structure Sampling (β : Type) where
  cursors : Cursors
  values : List (String × β)
  provenance : List (String × PriceProvenance)

section Loops

variable (codec : TextCodec) (files : Files) (decisionTime : ℤ)

/-- The file of an instrument. -/
def filePath (files : Files) (period instrument : String) : String :=
  (((files.lookup period).getD []).lookup instrument).getD ""

/-- The body of the loop over the instruments of a period. -/
def sampleInstrument (period : String) (s : Sampling Bar) (entry : String × List Row) : Sampling Bar :=
  let key := (period, entry.1)
  let next := advance Row.time decisionTime (s.cursors key) (entry.2.drop (s.cursors key))
  let cursors := Function.update s.cursors key next
  if next = 0 then { s with cursors := cursors }
  else match entry.2[next - 1]? with
    | none => { s with cursors := cursors }
    | some row =>
      { cursors := cursors
        values := Dict.set s.values entry.1 row.bar
        provenance := Dict.set s.provenance ("price." ++ period ++ "." ++ entry.1)
          { sourcePath := filePath files period entry.1
            sourceRow := row.number
            barTime := canonical codec row.time
            decisionTime := canonical codec decisionTime
            sourceFields := csvFields
            protocolVersion := "2.0.0" } }

/-- The body of the loop over the periods. -/
def samplePeriod (s : Sampling (List (String × Bar))) (period : String × List (String × List Row)) :
    Sampling (List (String × Bar)) :=
  let inner := period.2.foldl (sampleInstrument codec files decisionTime period.1) ⟨s.cursors, [], s.provenance⟩
  { cursors := inner.cursors
    values := if inner.values = [] then s.values else Dict.set s.values period.1 inner.values
    provenance := inner.provenance }

/-- The frames of the times behind `sequence` others. -/
def sampleFrames (series : SeriesMap) (versionId decisionPeriod : String) :
    ℕ → Cursors → List ℤ → List Frame
  | _, _, [] => []
  | sequence, cursors, decisionTime :: rest =>
    let sampling := series.foldl (samplePeriod codec files decisionTime) ⟨cursors, [], []⟩
    let text := canonical codec decisionTime
    { decisionTime := text
      sequence := sequence
      cycleId := "basic-workflow:" ++ versionId ++ ":" ++ toString sequence
      data := ⟨text, sampling.values⟩
      timeProvenance := ⟨decisionPeriod, text, "2.0.0"⟩
      provenance := sampling.provenance } ::
    sampleFrames series versionId decisionPeriod (sequence + 1) sampling.cursors rest

end Loops

/-- `sample_basic_price_map`: the frames the generator yields. It yields none before it has read every
series. -/
def sampleBasicPriceMap (codec : TextCodec) (dataset : Dataset) (parameters : Json) :
    Except PyError (List Frame) := do
  let _ ← descriptor dataset
  match parameters with
  | .obj fields =>
    raiseIf (!hasFields fields ["decisionPeriod"])
      (.valueError "Basic Workflow Sampler parameters require decisionPeriod only.")
    match fields.lookup "decisionPeriod" with
    | some (.str decisionPeriod) =>
      raiseIf (!isPathSegment decisionPeriod) (.valueError "Basic Workflow decisionPeriod is invalid.")
      let files ← index dataset
      raiseIf (!Dict.has files decisionPeriod)
        (.valueError "Basic Workflow decisionPeriod is absent from the Dataset.")
      let series ← readSeries codec dataset files
      pure (sampleFrames codec files series dataset.versionId decisionPeriod 0 (fun _ => 0)
        (timeline series decisionPeriod))
    | _ => throw (.valueError "Basic Workflow decisionPeriod is invalid.")
  | _ => throw (.valueError "Basic Workflow Sampler parameters require decisionPeriod only.")

/-- The rows of an instrument, none where the index does not name it. -/
def SeriesMap.rows (series : SeriesMap) (period instrument : String) : List Row :=
  (((series.lookup period).getD []).lookup instrument).getD []

/-- The bar a price map holds of an instrument. -/
def PriceMap.bar (price : PriceMap) (period instrument : String) : Option Bar :=
  (price.lookup period).bind fun values => values.lookup instrument

/-- Series whose names are distinct, whose times increase and whose prices are positive. -/
structure SeriesMap.Valid (series : SeriesMap) : Prop where
  periods : (series.map Prod.fst).Nodup
  instruments : ∀ period ∈ series, (period.2.map Prod.fst).Nodup
  increasing : ∀ period ∈ series, ∀ entry ∈ period.2, Increasing Row.time entry.2
  positive : ∀ period ∈ series, ∀ entry ∈ period.2, ∀ row ∈ entry.2, 0 < row.bar.opening ∧ 0 < row.bar.close

section Loops

variable {codec : TextCodec} {files : Files} {series : SeriesMap} {t : ℤ}

/-- The cursors have passed no row that is later than a time. -/
def Behind (series : SeriesMap) (t : ℤ) (cursors : Cursors) : Prop :=
  ∀ period instrument, cursors (period, instrument) ≤ (seen Row.time t (series.rows period instrument)).length

lemma Behind.mono {u : ℤ} {cursors : Cursors} (h : Behind series t cursors) (htu : t ≤ u) :
    Behind series u cursors :=
  fun period instrument => (h period instrument).trans (Carry.length_seen_mono htu)

lemma behind_zero : Behind series t fun _ => 0 := fun _ _ => Nat.zero_le _

/-- The bars of the instruments of a period at a time. -/
def barsAt (t : ℤ) (instruments : List (String × List Row)) : List (String × Bar) :=
  instruments.filterMap fun entry => (carried Row.time t entry.2).map fun row => (entry.1, row.bar)

/-- The price map at a time. -/
def priceAt (t : ℤ) (series : SeriesMap) : PriceMap :=
  series.filterMap fun period =>
    if barsAt t period.2 = [] then none else some (period.1, barsAt t period.2)

/-- One instrument: its cursor comes to the last bar seen, and that bar is what is taken. -/
lemma sampleInstrument_spec (codec : TextCodec) (files : Files) {period : String} {s : Sampling Bar}
    {entry : String × List Row} (hrows : Increasing Row.time entry.2) (hentry : series.rows period entry.1 = entry.2)
    (hbehind : Behind series t s.cursors) (hfresh : s.values.lookup entry.1 = none) :
    Behind series t (sampleInstrument codec files t period s entry).cursors ∧
      (sampleInstrument codec files t period s entry).values = s.values ++ barsAt t [entry] := by
  have hcursor : s.cursors (period, entry.1) ≤ (seen Row.time t entry.2).length :=
    hentry ▸ hbehind period entry.1
  have hnext : advance Row.time t (s.cursors (period, entry.1)) (entry.2.drop (s.cursors (period, entry.1))) =
      (seen Row.time t entry.2).length := Carry.advance_drop hrows hcursor
  have hmoved : Behind series t
      (Function.update s.cursors (period, entry.1) (seen Row.time t entry.2).length) := by
    intro p i
    by_cases hkey : (p, i) = (period, entry.1)
    · rw [hkey, Function.update_self]
      cases hkey
      rw [hentry]
    · rw [Function.update_of_ne hkey]
      exact hbehind p i
  unfold sampleInstrument
  simp only [hnext]
  by_cases hnone : seen Row.time t entry.2 = []
  · have hcarried : carried Row.time t entry.2 = none := by
      unfold carried
      rw [hnone]
      rfl
    rw [if_pos (by rw [hnone]; rfl)]
    exact ⟨hmoved, by simp [barsAt, hcarried]⟩
  · have hpos : 0 < (seen Row.time t entry.2).length := List.length_pos_iff.mpr hnone
    rw [if_neg (by omega)]
    have hrow := Carry.carried_eq_getElem? hrows hnone
    rw [← hrow]
    cases hcarried : carried Row.time t entry.2 with
    | none => exact ⟨hmoved, by simp [barsAt, hcarried]⟩
    | some row =>
      refine ⟨hmoved, ?_⟩
      simp [barsAt, hcarried, Dict.set_eq_append row.bar hfresh]

lemma barsAt_cons {entry : String × List Row} {rest : List (String × List Row)} :
    barsAt t (entry :: rest) = barsAt t [entry] ++ barsAt t rest := by
  unfold barsAt
  rw [← List.filterMap_append]
  rfl

lemma lookup_barsAt_of_notMem {instruments : List (String × List Row)} {name : String}
    (h : name ∉ instruments.map Prod.fst) : (barsAt t instruments).lookup name = none := by
  rw [Dict.lookup_eq_none_iff]
  intro bar hbar
  apply h
  unfold barsAt at hbar
  simp only [List.mem_filterMap, Option.map_eq_some_iff, Prod.mk.injEq] at hbar
  obtain ⟨entry, hentry, row, -, rfl, -⟩ := hbar
  exact List.mem_map_of_mem hentry

/-- The loop over the instruments of a period. -/
lemma foldl_sampleInstrument {period : String} {instruments : List (String × List Row)}
    {s : Sampling Bar} (hrows : ∀ entry ∈ instruments, Increasing Row.time entry.2)
    (hentries : ∀ entry ∈ instruments, series.rows period entry.1 = entry.2)
    (hnames : (instruments.map Prod.fst).Nodup) (hbehind : Behind series t s.cursors)
    (hfresh : ∀ entry ∈ instruments, s.values.lookup entry.1 = none) :
    Behind series t (instruments.foldl (sampleInstrument codec files t period) s).cursors ∧
      (instruments.foldl (sampleInstrument codec files t period) s).values =
        s.values ++ barsAt t instruments := by
  induction instruments generalizing s with
  | nil => exact ⟨hbehind, (List.append_nil _).symm⟩
  | cons entry rest ih =>
    rw [List.map_cons, List.nodup_cons] at hnames
    obtain ⟨hcursors, hvalues⟩ := sampleInstrument_spec codec files
      (hrows entry (by simp)) (hentries entry (by simp)) hbehind (hfresh entry (by simp))
    rw [List.foldl_cons, barsAt_cons, ← List.append_assoc, ← hvalues]
    apply ih
    · exact fun other hother => hrows other (by simp [hother])
    · exact fun other hother => hentries other (by simp [hother])
    · exact hnames.2
    · exact hcursors
    · intro other hother
      have hne : other.1 ≠ entry.1 := by
        intro heq
        exact hnames.1 (heq ▸ List.mem_map_of_mem hother)
      rw [hvalues, List.lookup_append, hfresh other (by simp [hother]), Option.none_or]
      apply lookup_barsAt_of_notMem
      simpa using hne

lemma lookup_of_mem {α : Type} {d : List (String × α)} {e : String × α}
    (hd : (d.map Prod.fst).Nodup) (he : e ∈ d) : d.lookup e.1 = some e.2 := by
  rw [← Dict.mem_items, Dict.items_of_nodup hd]
  exact he

lemma SeriesMap.Valid.rows_eq (h : series.Valid) {period : String × List (String × List Row)}
    (hperiod : period ∈ series) {entry : String × List Row} (hentry : entry ∈ period.2) :
    series.rows period.1 entry.1 = entry.2 := by
  unfold SeriesMap.rows
  rw [lookup_of_mem h.periods hperiod, Option.getD_some,
    lookup_of_mem (h.instruments period hperiod) hentry, Option.getD_some]

/-- One period: the bars of its instruments, when there are any. -/
lemma samplePeriod_spec (codec : TextCodec) (files : Files) (hseries : series.Valid)
    {s : Sampling (List (String × Bar))} {period : String × List (String × List Row)}
    (hperiod : period ∈ series) (hbehind : Behind series t s.cursors)
    (hfresh : s.values.lookup period.1 = none) :
    Behind series t (samplePeriod codec files t s period).cursors ∧
      (samplePeriod codec files t s period).values = s.values ++ priceAt t [period] := by
  have hinner : Behind series t (period.2.foldl (sampleInstrument codec files t period.1)
      ⟨s.cursors, [], s.provenance⟩).cursors ∧
      (period.2.foldl (sampleInstrument codec files t period.1) ⟨s.cursors, [], s.provenance⟩).values =
        [] ++ barsAt t period.2 := by
    apply foldl_sampleInstrument
    · exact hseries.increasing period hperiod
    · exact fun entry hentry => hseries.rows_eq hperiod hentry
    · exact hseries.instruments period hperiod
    · exact hbehind
    · exact fun _ _ => rfl
  obtain ⟨hcursors, hvalues⟩ := hinner
  rw [List.nil_append] at hvalues
  refine ⟨hcursors, ?_⟩
  unfold samplePeriod
  simp only [hvalues]
  by_cases hnone : barsAt t period.2 = []
  · simp [priceAt, hnone]
  · rw [if_neg hnone, Dict.set_eq_append _ hfresh]
    simp [priceAt, hnone]

lemma priceAt_cons {period : String × List (String × List Row)} {rest : SeriesMap} :
    priceAt t (period :: rest) = priceAt t [period] ++ priceAt t rest := by
  unfold priceAt
  rw [← List.filterMap_append]
  rfl

lemma fst_mem_of_mem_priceAt {series : SeriesMap} {name : String} {values : List (String × Bar)}
    (h : (name, values) ∈ priceAt t series) : name ∈ series.map Prod.fst := by
  unfold priceAt at h
  obtain ⟨period, hperiod, h⟩ := List.mem_filterMap.mp h
  by_cases hnone : barsAt t period.2 = []
  · simp [hnone] at h
  · simp only [hnone, if_false, Option.some.injEq, Prod.mk.injEq] at h
    rw [← h.1]
    exact List.mem_map_of_mem hperiod

/-- The loop over the periods. -/
lemma foldl_samplePeriod (codec : TextCodec) (files : Files) (hseries : series.Valid)
    {periods : SeriesMap} (hsub : periods ⊆ series) (hnames : (periods.map Prod.fst).Nodup)
    {s : Sampling (List (String × Bar))} (hbehind : Behind series t s.cursors)
    (hfresh : ∀ period ∈ periods, s.values.lookup period.1 = none) :
    Behind series t (periods.foldl (samplePeriod codec files t) s).cursors ∧
      (periods.foldl (samplePeriod codec files t) s).values = s.values ++ priceAt t periods := by
  induction periods generalizing s with
  | nil => exact ⟨hbehind, (List.append_nil _).symm⟩
  | cons period rest ih =>
    rw [List.map_cons, List.nodup_cons] at hnames
    obtain ⟨hcursors, hvalues⟩ := samplePeriod_spec codec files hseries (hsub (by simp)) hbehind
      (hfresh period (by simp))
    rw [List.foldl_cons, priceAt_cons, ← List.append_assoc, ← hvalues]
    apply ih
    · exact fun other hother => hsub (by simp [hother])
    · exact hnames.2
    · exact hcursors
    · intro other hother
      have hne : other.1 ≠ period.1 := by
        intro heq
        exact hnames.1 (heq ▸ List.mem_map_of_mem hother)
      rw [hvalues, List.lookup_append, hfresh other (by simp [hother]), Option.none_or,
        Dict.lookup_eq_none_iff]
      intro values hmem
      have hname := fst_mem_of_mem_priceAt hmem
      simp only [List.map_cons, List.map_nil, List.mem_singleton] at hname
      exact hne hname

/-- Along an increasing timeline, the frame of each time holds the price map at that time. -/
theorem sampleFrames_spec (codec : TextCodec) (files : Files) (hseries : series.Valid)
    (versionId decisionPeriod : String) {sequence : ℕ} {cursors : Cursors} {times : List ℤ}
    (htimes : times.Pairwise (· < ·)) (hbehind : ∀ u ∈ times, Behind series u cursors) :
    List.Forall₂ (fun u frame => frame.decisionTime = canonical codec u ∧
        frame.data = ⟨canonical codec u, priceAt u series⟩)
      times (sampleFrames codec files series versionId decisionPeriod sequence cursors times) := by
  induction times generalizing sequence cursors with
  | nil => exact List.Forall₂.nil
  | cons u rest ih =>
    obtain ⟨hbefore, hrest⟩ := List.pairwise_cons.mp htimes
    have hframe := foldl_samplePeriod codec files hseries (t := u) (List.Subset.refl series) hseries.periods
      (hbehind u (by simp)) (s := ⟨cursors, [], []⟩) (fun _ _ => rfl)
    obtain ⟨hcursors, hvalues⟩ := hframe
    rw [List.nil_append] at hvalues
    rw [sampleFrames]
    apply List.Forall₂.cons
    · exact ⟨rfl, by simp only [hvalues]⟩
    · exact ih hrest fun v hv => hcursors.mono (hbefore v hv).le

end Loops

section Reading

variable {codec : TextCodec} {dataset : Dataset} {files : Files} {series : SeriesMap} {t : ℤ}

lemma nodup_sortedItems {α : Type} (d : List (String × α)) : ((sortedItems d).map Prod.fst).Nodup := by
  have hperm : (sortedItems d).Perm (Dict.items d) := List.perm_insertionSort _ _
  exact (hperm.map Prod.fst).nodup_iff.mpr (Dict.nodup_keys d)

lemma readInstrument_eq_ok {instrument : String × String} {entry : String × List Row}
    (h : readInstrument codec dataset instrument = .ok entry) :
    entry.1 = instrument.1 ∧ BasicWorkflow.series codec instrument.2 dataset = .ok entry.2 := by
  obtain ⟨rows, hrows, hpair⟩ := Raising.bind_eq_ok.mp h
  rw [← Raising.pure_eq_ok.mp hpair]
  exact ⟨rfl, hrows⟩

/-- The series a data set gives are named once each; their times increase and their prices are positive. -/
theorem readSeries_valid (h : readSeries codec dataset files = .ok series) : series.Valid := by
  have hkeys : series.map Prod.fst = (sortedItems files).map Prod.fst := by
    apply Raising.map_of_mapM _ h
    intro period result hresult
    obtain ⟨instruments, -, hresult⟩ := Raising.bind_eq_ok.mp hresult
    rw [← Raising.pure_eq_ok.mp hresult]
  have hread : ∀ period ∈ series, ∃ paths,
      (sortedItems paths).mapM (readInstrument codec dataset) = .ok period.2 := by
    intro period hperiod
    obtain ⟨source, -, hsource⟩ := Related.exists_mem_left (Raising.mapM_eq_ok.mp h) hperiod
    obtain ⟨instruments, hinstruments, hpure⟩ := Raising.bind_eq_ok.mp hsource
    rw [← Raising.pure_eq_ok.mp hpure]
    exact ⟨source.2, hinstruments⟩
  constructor
  · rw [hkeys]
    exact nodup_sortedItems files
  · intro period hperiod
    obtain ⟨paths, hpaths⟩ := hread period hperiod
    have hnames : period.2.map Prod.fst = (sortedItems paths).map Prod.fst :=
      Raising.map_of_mapM (fun _ _ hentry => (readInstrument_eq_ok hentry).1) hpaths
    rw [hnames]
    exact nodup_sortedItems paths
  · intro period hperiod entry hentry
    obtain ⟨paths, hpaths⟩ := hread period hperiod
    obtain ⟨path, -, hpath⟩ := Related.exists_mem_left (Raising.mapM_eq_ok.mp hpaths) hentry
    exact (series_spec (readInstrument_eq_ok hpath).2).1
  · intro period hperiod entry hentry
    obtain ⟨paths, hpaths⟩ := hread period hperiod
    obtain ⟨path, -, hpath⟩ := Related.exists_mem_left (Raising.mapM_eq_ok.mp hpaths) hentry
    exact (series_spec (readInstrument_eq_ok hpath).2).2.2

lemma mem_timeline {decisionPeriod : String} (hseries : series.Valid) :
    t ∈ timeline series decisionPeriod ↔
      ∃ instrument, ∃ row ∈ series.rows decisionPeriod instrument, row.time = t := by
  unfold timeline SeriesMap.rows
  rw [List.mem_insertionSort, List.mem_dedup, List.mem_flatMap]
  cases hperiod : series.lookup decisionPeriod with
  | none => simp
  | some instruments =>
    have hnames : (instruments.map Prod.fst).Nodup :=
      hseries.instruments (decisionPeriod, instruments) (Dict.lookup_mem hperiod)
    simp only [Option.getD_some, List.mem_map]
    constructor
    · rintro ⟨entry, hentry, row, hrow, htime⟩
      refine ⟨entry.1, row, ?_, htime⟩
      rw [lookup_of_mem hnames hentry]
      exact hrow
    · rintro ⟨instrument, row, hrow, htime⟩
      cases hrows : instruments.lookup instrument with
      | none => simp [hrows] at hrow
      | some rows =>
        rw [hrows, Option.getD_some] at hrow
        exact ⟨(instrument, rows), Dict.lookup_mem hrows, row, hrow, htime⟩

lemma timeline_increasing (series : SeriesMap) (decisionPeriod : String) :
    (timeline series decisionPeriod).Pairwise (· < ·) := by
  unfold timeline
  apply List.Pairwise.imp₂ (S := (· ≠ ·)) _ (List.pairwise_insertionSort _ _)
  · exact (List.perm_insertionSort _ _).nodup_iff.mpr (List.nodup_dedup _)
  · exact fun a b hle hne => lt_of_le_of_ne hle hne

lemma lookup_barsAt {instruments : List (String × List Row)} (hnames : (instruments.map Prod.fst).Nodup)
    (name : String) : (barsAt t instruments).lookup name =
      (carried Row.time t ((instruments.lookup name).getD [])).map Row.bar := by
  induction instruments with
  | nil => rfl
  | cons entry rest ih =>
    rw [List.map_cons, List.nodup_cons] at hnames
    rw [barsAt_cons, List.lookup_append, ih hnames.2, ← Prod.eta entry, Dict.lookup_cons]
    by_cases hname : name = entry.1
    · have hrest : rest.lookup name = none := by
        rw [Dict.lookup_eq_none_iff]
        intro rows hrows
        exact hnames.1 (hname ▸ List.mem_map_of_mem hrows)
      rw [if_pos hname, hrest]
      cases hcarried : carried Row.time t entry.2 with
      | none =>
        have hempty : carried Row.time t ([] : List Row) = none := rfl
        simp [barsAt, hcarried, hempty]
      | some row => simp [barsAt, hcarried, hname]
    · rw [if_neg hname]
      have hother : (barsAt t [(entry.1, entry.2)]).lookup name = none :=
        lookup_barsAt_of_notMem (by simpa using hname)
      rw [hother, Option.none_or]

/-- What the price map holds of an instrument at a time is the last bar that is not later. -/
theorem bar_priceAt (hseries : series.Valid) (period instrument : String) :
    (priceAt t series).bar period instrument =
      (carried Row.time t (series.rows period instrument)).map Row.bar := by
  obtain ⟨hperiods, hinstruments, -, -⟩ := hseries
  unfold PriceMap.bar SeriesMap.rows
  induction series with
  | nil => rfl
  | cons first rest ih =>
    rw [List.map_cons, List.nodup_cons] at hperiods
    have ih := ih hperiods.2 fun p hp => hinstruments p (by simp [hp])
    rw [priceAt_cons, List.lookup_append, ← Prod.eta first, Dict.lookup_cons]
    by_cases hname : period = first.1
    · have hrest : (priceAt t rest).lookup period = none := by
        rw [Dict.lookup_eq_none_iff]
        intro values hvalues
        exact hperiods.1 (hname ▸ fst_mem_of_mem_priceAt hvalues)
      rw [if_pos hname, hrest, Option.or_none, Option.getD_some,
        ← lookup_barsAt (hinstruments first (by simp))]
      by_cases hnone : barsAt t first.2 = []
      · simp [priceAt, hnone]
      · simp [priceAt, hnone, hname]
    · have hother : (priceAt t [(first.1, first.2)]).lookup period = none := by
        rw [Dict.lookup_eq_none_iff]
        intro values hvalues
        have hfirst := fst_mem_of_mem_priceAt hvalues
        simp only [List.map_cons, List.map_nil, List.mem_singleton] at hfirst
        exact hname hfirst
      rw [hother, Option.none_or, if_neg hname]
      exact ih

end Reading

/-- A data set whose descriptor, index and series pass the sampler's checks. -/
structure Accepted (codec : TextCodec) (dataset : Dataset) (files : Files) (series : SeriesMap) : Prop where
  descriptor : ∃ fields, descriptor dataset = .ok fields
  index : index dataset = .ok files
  series : readSeries codec dataset files = .ok series

/-- The parameters that choose a decision period. -/
def parametersFor (decisionPeriod : String) : Json := .obj [("decisionPeriod", .str decisionPeriod)]

/-- Two series with the same bars up to a time. -/
def AgreeUpTo (t : ℤ) (left right : List Row) : Prop :=
  ∀ u ≤ t, ∀ bar,
    (∃ row ∈ left, row.time = u ∧ row.bar = bar) ↔ ∃ row ∈ right, row.time = u ∧ row.bar = bar

/-- The frames of the times that are not later than a time. -/
def framesUpTo (t : ℤ) (times : List ℤ) (frames : List Frame) : List Frame :=
  ((times.zip frames).filter fun p => p.1 ≤ t).map Prod.snd

section Causality

variable {codec : TextCodec} {dataset : Dataset} {files : Files} {series : SeriesMap} {t : ℤ}

lemma isPathSegment_of_index (h : index dataset = .ok files) {period : String}
    (hperiod : Dict.has files period = true) : isPathSegment period = true := by
  obtain ⟨instruments, hinstruments⟩ := Dict.has_eq_true_iff.mp hperiod
  have hmem := Dict.lookup_mem hinstruments
  unfold index at h
  split at h
  · simp only [Raising.bind_eq_ok, Raising.raiseIf_eq_ok] at h
    obtain ⟨-, -, -, -, h⟩ := h
    split at h
    · simp only [Raising.bind_eq_ok, Raising.raiseIf_eq_ok] at h
      obtain ⟨-, -, h⟩ := h
      obtain ⟨entry, -, hentry⟩ := Related.exists_mem_left (Raising.mapM_eq_ok.mp h) hmem
      unfold indexPeriod at hentry
      simp only [Raising.bind_eq_ok, Raising.raiseIf_eq_ok] at hentry
      obtain ⟨-, hsegment, hentry⟩ := hentry
      split at hentry
      · simp only [Raising.bind_eq_ok, Raising.raiseIf_eq_ok, Raising.pure_eq_ok, Prod.mk.injEq] at hentry
        obtain ⟨-, -, -, -, hname, -⟩ := hentry
        rw [← hname]
        simpa using hsegment
      · simp at hentry
    · simp at h
  · simp at h

/-- The instruments that have a series are named by the index. -/
lemma isPathSegment_of_rows (h : Accepted codec dataset files series) {period instrument : String} {row : Row}
    (hrow : row ∈ series.rows period instrument) : isPathSegment instrument = true := by
  unfold SeriesMap.rows at hrow
  obtain ⟨instruments, hinstruments⟩ : ∃ instruments, series.lookup period = some instruments := by
    cases hlookup : series.lookup period with
    | none => simp [hlookup] at hrow
    | some instruments => exact ⟨instruments, rfl⟩
  rw [hinstruments, Option.getD_some] at hrow
  obtain ⟨rows, hrows⟩ : ∃ rows, instruments.lookup instrument = some rows := by
    cases hlookup : instruments.lookup instrument with
    | none => simp [hlookup] at hrow
    | some rows => exact ⟨rows, rfl⟩
  obtain ⟨source, hsource, hread⟩ := Related.exists_mem_left (Raising.mapM_eq_ok.mp h.series)
    (Dict.lookup_mem hinstruments)
  obtain ⟨entries, hentries, hpair⟩ := Raising.bind_eq_ok.mp hread
  cases hpair
  obtain ⟨path, hpath, hentry⟩ := Related.exists_mem_left (Raising.mapM_eq_ok.mp hentries) (Dict.lookup_mem hrows)
  have hname := (readInstrument_eq_ok hentry).1
  simp only at hname
  rw [hname]
  have hmem : path ∈ source.2 := Dict.items_subset _ ((List.mem_insertionSort _).mp hpath)
  have hfile : source ∈ files := Dict.items_subset _ ((List.mem_insertionSort _).mp hsource)
  have hindex := h.index
  unfold index at hindex
  split at hindex
  · simp only [Raising.bind_eq_ok, Raising.raiseIf_eq_ok] at hindex
    obtain ⟨-, -, -, -, hindex⟩ := hindex
    split at hindex
    · simp only [Raising.bind_eq_ok, Raising.raiseIf_eq_ok] at hindex
      obtain ⟨-, -, hindex⟩ := hindex
      obtain ⟨entry, -, hperiod⟩ := Related.exists_mem_left (Raising.mapM_eq_ok.mp hindex) hfile
      unfold indexPeriod at hperiod
      simp only [Raising.bind_eq_ok, Raising.raiseIf_eq_ok] at hperiod
      obtain ⟨-, -, hperiod⟩ := hperiod
      split at hperiod
      · simp only [Raising.bind_eq_ok, Raising.raiseIf_eq_ok, Raising.pure_eq_ok] at hperiod
        obtain ⟨-, -, paths, hpaths, hfiles⟩ := hperiod
        subst hfiles
        obtain ⟨item, -, hitem⟩ := Related.exists_mem_left (Raising.mapM_eq_ok.mp hpaths) hmem
        unfold indexInstrument at hitem
        simp only [Raising.bind_eq_ok, Raising.raiseIf_eq_ok] at hitem
        obtain ⟨-, hsegment, hitem⟩ := hitem
        split at hitem
        · simp only [Raising.bind_eq_ok, Raising.raiseIf_eq_ok, Raising.pure_eq_ok] at hitem
          obtain ⟨-, -, hpathEq⟩ := hitem
          rw [← hpathEq]
          simpa using hsegment
        · simp at hitem
      · simp at hperiod
    · simp at hindex
  · simp at hindex

/-- The sampler yields the frames of its loops. -/
lemma sampleBasicPriceMap_eq (h : Accepted codec dataset files series) {decisionPeriod : String}
    (hperiod : Dict.has files decisionPeriod = true) :
    sampleBasicPriceMap codec dataset (parametersFor decisionPeriod) =
      .ok (sampleFrames codec files series dataset.versionId decisionPeriod 0 (fun _ => 0)
        (timeline series decisionPeriod)) := by
  obtain ⟨fields, hfields⟩ := h.descriptor
  have hsegment := isPathSegment_of_index h.index hperiod
  have hkeys : hasFields [("decisionPeriod", .str decisionPeriod)] ["decisionPeriod"] = true := by
    unfold hasFields Dict.sameKeys Dict.keys Dict.items Dict.items
    simp [Dict.has]
  have hlookup : List.lookup "decisionPeriod" [("decisionPeriod", Json.str decisionPeriod)] =
      some (Json.str decisionPeriod) := rfl
  unfold sampleBasicPriceMap parametersFor
  simp only [hfields, Raising.ok_bind, hkeys, Raising.raiseIf, Bool.not_true, Bool.false_eq_true, if_false,
    hlookup, hsegment, h.index, hperiod, h.series]
  rfl

/-- Equal series up to a time carry equal bars up to it. -/
lemma AgreeUpTo.carried_eq {left right : List Row} (h : AgreeUpTo t left right)
    (hleft : Increasing Row.time left) (hright : Increasing Row.time right) {u : ℤ} (hu : u ≤ t) :
    (carried Row.time u left).map Row.bar = (carried Row.time u right).map Row.bar := by
  cases hl : carried Row.time u left with
  | none =>
    have hnone : carried Row.time u right = none := by
      rw [Carry.carried_eq_none_iff] at hl ⊢
      intro row hrow
      by_contra hle
      obtain ⟨other, hother, htime, -⟩ :=
        (h row.time ((not_lt.mp hle).trans hu) row.bar).mpr ⟨row, hrow, rfl, rfl⟩
      exact hle (htime ▸ hl other hother)
    rw [hnone]
  | some row =>
    obtain ⟨hrow, hle, hlast⟩ := (Carry.carried_eq_some_iff hleft).mp hl
    obtain ⟨other, hother, htime, hbar⟩ := (h row.time (hle.trans hu) row.bar).mp ⟨row, hrow, rfl, rfl⟩
    have hsome : carried Row.time u right = some other := by
      apply (Carry.carried_eq_some_iff hright).mpr
      refine ⟨hother, htime.trans_le hle, fun later hlater hlaterTime => ?_⟩
      obtain ⟨same, hsame, hsameTime, -⟩ :=
        (h later.time (hlaterTime.trans hu) later.bar).mpr ⟨later, hlater, rfl, rfl⟩
      rw [htime, ← hsameTime]
      exact hlast same hsame (hsameTime.trans_le hlaterTime)
    rw [hsome, Option.map_some, Option.map_some, hbar]

lemma barsAt_congr {left right : List (String × List Row)}
    (h : List.Forall₂ (fun e e' => e.1 = e'.1 ∧
      (carried Row.time t e.2).map Row.bar = (carried Row.time t e'.2).map Row.bar) left right) :
    barsAt t left = barsAt t right := by
  induction h with
  | nil => rfl
  | @cons e e' _ _ hhead _ ih =>
    obtain ⟨hname, hbar⟩ := hhead
    have hone : barsAt t [e] = barsAt t [e'] := by
      unfold barsAt
      cases he : carried Row.time t e.2 with
      | none =>
        rw [he, Option.map_none] at hbar
        have hnone := Option.map_eq_none_iff.mp hbar.symm
        simp [he, hnone]
      | some row =>
        rw [he, Option.map_some] at hbar
        obtain ⟨row', he', hbar⟩ := Option.map_eq_some_iff.mp hbar.symm
        simp [he, he', hname, hbar]
    rw [barsAt_cons, hone, ih, ← barsAt_cons]

/-- Series of the same files that carry equal bars give equal price maps. -/
lemma priceAt_congr {series' : SeriesMap}
    (h : List.Forall₂ (fun p p' => p.1 = p'.1 ∧ List.Forall₂ (fun e e' => e.1 = e'.1 ∧
      (carried Row.time t e.2).map Row.bar = (carried Row.time t e'.2).map Row.bar) p.2 p'.2) series series') :
    priceAt t series = priceAt t series' := by
  induction h with
  | nil => rfl
  | cons hhead _ ih =>
    unfold priceAt at ih ⊢
    rw [List.filterMap_cons, List.filterMap_cons, barsAt_congr hhead.2, hhead.1, ih]

/-- The series two data sets read for the same files have the same names. -/
lemma readSeries_names {dataset' : Dataset} {series' : SeriesMap}
    (h : readSeries codec dataset files = .ok series) (h' : readSeries codec dataset' files = .ok series') :
    List.Forall₂ (fun p p' => p.1 = p'.1 ∧ List.Forall₂ (fun e e' => e.1 = e'.1) p.2 p'.2) series series' := by
  have hinner : ∀ {paths : List (String × String)} {left right : List (String × List Row)},
      paths.mapM (readInstrument codec dataset) = .ok left →
      paths.mapM (readInstrument codec dataset') = .ok right → List.Forall₂ (fun e e' => e.1 = e'.1) left right := by
    intro paths left right hleft hright
    have hkeys : left.map Prod.fst = right.map Prod.fst := by
      rw [Raising.map_of_mapM (fun _ _ he => (readInstrument_eq_ok he).1) hleft,
        Raising.map_of_mapM (fun _ _ he => (readInstrument_eq_ok he).1) hright]
    have hall := List.forall₂_eq_eq_eq ▸ hkeys
    rwa [List.forall₂_map_left_iff, List.forall₂_map_right_iff] at hall
  unfold readSeries at h h'
  rw [Raising.mapM_eq_ok] at h h'
  generalize sortedItems files = entries at h h'
  induction h generalizing series' with
  | nil =>
    cases h'
    exact List.Forall₂.nil
  | cons hhead _ ih =>
    cases h' with
    | cons hhead' htail =>
      refine List.Forall₂.cons ?_ (ih htail)
      obtain ⟨left, hleft, hpair⟩ := Raising.bind_eq_ok.mp hhead
      obtain ⟨right, hright, hpair'⟩ := Raising.bind_eq_ok.mp hhead'
      rw [← Raising.pure_eq_ok.mp hpair, ← Raising.pure_eq_ok.mp hpair']
      exact ⟨rfl, hinner hleft hright⟩

/-- Two data sets with the same files that agree up to a time have the same price maps up to it. -/
lemma priceAt_eq_of_agree {dataset' : Dataset} {series' : SeriesMap}
    (h : readSeries codec dataset files = .ok series) (h' : readSeries codec dataset' files = .ok series')
    (hagree : ∀ period instrument, AgreeUpTo t (series.rows period instrument) (series'.rows period instrument))
    {u : ℤ} (hu : u ≤ t) : priceAt u series = priceAt u series' := by
  have hvalid := readSeries_valid h
  have hvalid' := readSeries_valid h'
  apply priceAt_congr
  apply Related.forall₂_mono _ (readSeries_names h h')
  intro p hp p' hp' hnames
  refine ⟨hnames.1, Related.forall₂_mono (fun e he e' he' hname => ?_) hnames.2⟩
  refine ⟨hname, ?_⟩
  have hrows := hagree p.1 e.1
  rw [hvalid.rows_eq hp he, hnames.1, hname, hvalid'.rows_eq hp' he'] at hrows
  exact hrows.carried_eq (hvalid.increasing p hp e he) (hvalid'.increasing p' hp' e' he') hu

lemma timeline_eq_of_agree {series' : SeriesMap} (hseries : series.Valid) (hseries' : series'.Valid)
    {decisionPeriod : String}
    (hagree : ∀ instrument, AgreeUpTo t (series.rows decisionPeriod instrument)
      (series'.rows decisionPeriod instrument)) :
    (timeline series decisionPeriod).filter (· ≤ t) = (timeline series' decisionPeriod).filter (· ≤ t) := by
  have hincreasing := (timeline_increasing series decisionPeriod).filter (· ≤ t)
  have hincreasing' := (timeline_increasing series' decisionPeriod).filter (· ≤ t)
  have hmem : ∀ u, u ∈ (timeline series decisionPeriod).filter (· ≤ t) ↔
      u ∈ (timeline series' decisionPeriod).filter (· ≤ t) := by
    intro u
    simp only [List.mem_filter, decide_eq_true_eq, mem_timeline hseries, mem_timeline hseries']
    refine and_congr_left fun hu => exists_congr fun instrument => ?_
    constructor
    · rintro ⟨row, hrow, htime⟩
      obtain ⟨other, hother, hotherTime, -⟩ := (hagree instrument u hu row.bar).mp ⟨row, hrow, htime, rfl⟩
      exact ⟨other, hother, hotherTime⟩
    · rintro ⟨row, hrow, htime⟩
      obtain ⟨other, hother, hotherTime, -⟩ := (hagree instrument u hu row.bar).mpr ⟨row, hrow, htime, rfl⟩
      exact ⟨other, hother, hotherTime⟩
  have hperm := (List.perm_ext_iff_of_nodup (hincreasing.imp fun h => ne_of_lt h)
    (hincreasing'.imp fun h => ne_of_lt h)).mpr hmem
  exact hperm.eq_of_pairwise (fun a b _ _ hab hba => absurd hab (lt_asymm hba)) hincreasing hincreasing'

lemma map_data_framesUpTo {times : List ℤ} {frames : List Frame}
    (h : List.Forall₂ (fun u frame => frame.decisionTime = canonical codec u ∧
      frame.data = ⟨canonical codec u, priceAt u series⟩) times frames) :
    (framesUpTo t times frames).map Frame.data =
      (times.filter (· ≤ t)).map fun u => ⟨canonical codec u, priceAt u series⟩ := by
  unfold framesUpTo
  induction h with
  | nil => rfl
  | @cons u frame _ _ hhead _ ih =>
    by_cases hu : u ≤ t
    · simp only [List.zip_cons_cons, List.filter_cons, hu, decide_true, if_true, List.map_cons, hhead.2, ih]
    · simp only [List.zip_cons_cons, List.filter_cons, hu, decide_false, Bool.false_eq_true, if_false, ih]

/-- One frame for each distinct bar time of the decision period, in increasing order; each frame holds
the last bar of every instrument that is not later; and up to any time the frames carry the data of
every other data set with the same index and the same bars up to that time. -/
theorem sampleBasicPriceMap_causal (codec : TextCodec) (dataset : Dataset) (files : Files) (series : SeriesMap)
    (h : Accepted codec dataset files series) (decisionPeriod : String)
    (hperiod : Dict.has files decisionPeriod = true) :
    ∃ frames, sampleBasicPriceMap codec dataset (parametersFor decisionPeriod) = .ok frames ∧
      (timeline series decisionPeriod).Pairwise (· < ·) ∧
      (∀ t, t ∈ timeline series decisionPeriod ↔
        ∃ instrument, ∃ row ∈ series.rows decisionPeriod instrument, row.time = t) ∧
      List.Forall₂ (fun t frame => frame.decisionTime = canonical codec t ∧ frame.data.time = canonical codec t ∧
        ∀ period instrument, frame.data.price.bar period instrument =
          (carried Row.time t (series.rows period instrument)).map Row.bar)
        (timeline series decisionPeriod) frames ∧
      ∀ dataset' series' frames', Accepted codec dataset' files series' →
        sampleBasicPriceMap codec dataset' (parametersFor decisionPeriod) = .ok frames' →
        ∀ t, (∀ period instrument,
            AgreeUpTo t (series.rows period instrument) (series'.rows period instrument)) →
          (framesUpTo t (timeline series decisionPeriod) frames).map Frame.data =
            (framesUpTo t (timeline series' decisionPeriod) frames').map Frame.data := by
  have hvalid := readSeries_valid h.series
  have hspec : List.Forall₂ (fun u frame => frame.decisionTime = canonical codec u ∧
      frame.data = ⟨canonical codec u, priceAt u series⟩) (timeline series decisionPeriod)
      (sampleFrames codec files series dataset.versionId decisionPeriod 0 (fun _ => 0)
        (timeline series decisionPeriod)) :=
    sampleFrames_spec codec files hvalid dataset.versionId decisionPeriod
      (timeline_increasing series decisionPeriod) fun _ _ => behind_zero
  refine ⟨_, sampleBasicPriceMap_eq h hperiod, timeline_increasing series decisionPeriod,
    fun t => mem_timeline hvalid, ?_, ?_⟩
  · refine hspec.imp fun t frame hframe => ⟨hframe.1, ?_, fun period instrument => ?_⟩
    · rw [hframe.2]
    · rw [hframe.2]
      exact bar_priceAt hvalid period instrument
  · intro dataset' series' frames' h' hframes' t hagree
    have hvalid' := readSeries_valid h'.series
    rw [sampleBasicPriceMap_eq h' hperiod] at hframes'
    cases hframes'
    rw [map_data_framesUpTo hspec, map_data_framesUpTo
      (sampleFrames_spec codec files hvalid' dataset'.versionId decisionPeriod
        (timeline_increasing series' decisionPeriod) fun _ _ => behind_zero),
      timeline_eq_of_agree hvalid hvalid' (hagree decisionPeriod)]
    apply List.map_congr_left
    intro u hu
    have hle : u ≤ t := by simpa using (List.mem_filter.mp hu).2
    rw [priceAt_eq_of_agree h.series h'.series hagree hle]

end Causality

/-- Reads the times and the numbers of `hourlyDataset`. -/
def hourlyCodec : TextCodec where
  fromisoformat text := [("2024-01-02T10:00:00+00:00", Moment.aware 1704189600000000),
    ("2024-01-02T10:01:00+00:00", Moment.aware 1704189660000000)].lookup text
  isoformat time := if time = 1704189600000000 then "2024-01-02T10:00:00+00:00" else "2024-01-02T10:01:00+00:00"
  isoformat_ne time := by split <;> decide
  float text := [("1", FloatReading.finite 1), ("2", FloatReading.finite 2), ("3", FloatReading.finite 3)].lookup text

/-- Two bars of a minute and one bar of an hour. -/
def hourlyDataset : Dataset where
  versionId := "v1"
  capabilities := [("basicWorkflow", .obj [("protocol", .str "trade.app.basic-workflow-dataset/v2"),
    ("descriptor", .obj [("protocolId", .str "trade.basic-workflow"), ("protocolVersion", .str "2.0.0"),
      ("profile", .str "multi-instrument-bar-position"), ("cashUnit", .str "USD"), ("quantityUnit", .str "share"),
      ("executionConvention", .str "prior-approved-intent-next-bar-open"),
      ("valuationConvention", .str "current-bar-close")])])]
  indexFile := .obj [("protocolId", .str "trade.basic-workflow"), ("protocolVersion", .str "2.0.0"),
    ("profile", .str "multi-instrument-bar-position"),
    ("files", .obj [("1m", .obj [("A", .str "1m/A.csv")]), ("1h", .obj [("A", .str "1h/A.csv")])])]
  csv path := if path = "1m/A.csv" then
      .ok [csvFields, ["2024-01-02T10:00:00Z", "2", "2", "3", "1"], ["2024-01-02T10:01:00Z", "3", "2", "3", "1"]]
    else .ok [csvFields, ["2024-01-02T10:00:00Z", "1", "2", "3", "1"]]

def hourlyFiles : Files := [("1m", [("A", "1m/A.csv")]), ("1h", [("A", "1h/A.csv")])]

def hourlySeries : SeriesMap :=
  [("1h", [("A", [⟨1704189600000000, ⟨1, 2, 3, 1⟩, 2⟩])]),
    ("1m", [("A", [⟨1704189600000000, ⟨2, 2, 3, 1⟩, 2⟩, ⟨1704189660000000, ⟨3, 2, 3, 1⟩, 3⟩])])]

lemma hourly_accepted : Accepted hourlyCodec hourlyDataset hourlyFiles hourlySeries := by
  constructor
  · apply Raising.exists_ok_of_toBool
    with_unfolding_all decide
  · with_unfolding_all decide
  · with_unfolding_all decide

theorem sampleBasicPriceMap_hourly :
    ∃ frames, sampleBasicPriceMap hourlyCodec hourlyDataset (parametersFor "1m") = .ok frames ∧
      frames.length = 2 := by
  obtain ⟨frames, hframes, -, -, hall, -⟩ := sampleBasicPriceMap_causal hourlyCodec hourlyDataset hourlyFiles
    hourlySeries hourly_accepted "1m" (by decide)
  have htimes : (timeline hourlySeries "1m").length = 2 := by decide
  exact ⟨frames, hframes, hall.length_eq ▸ htimes⟩

end TradeFramework.BasicWorkflow
