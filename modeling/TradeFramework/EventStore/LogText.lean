import TradeFramework.EventStore.Disk

/-!
# The text of a log

A log that holds the lines of some events, and behind them what a crash may leave, is read as the
events of its lines.
-/

namespace TradeFramework.EventStore

open JsonText (Value isSpace parse stringify member quote)

section Trimming

variable {text : Text}

lemma trim_eq_nil_iff : trim text = [] ↔ ∀ c ∈ text, isBlank c := by
  unfold trim
  rw [List.rdropWhile_eq_nil_iff]
  constructor
  · intro h c hc
    by_cases hdrop : c ∈ text.dropWhile isBlank
    · exact h c hdrop
    · rw [← List.takeWhile_append_dropWhile (p := isBlank) (l := text)] at hc
      have htake := (List.mem_append.mp hc).resolve_right hdrop
      exact List.mem_takeWhile_imp htake
  · intro h c hc
    exact h c (List.dropWhile_subset _ hc)

lemma trim_brace (inner : Text) : trim ('{' :: inner) = ('{' :: inner).rdropWhile isBlank := by
  have hbrace : isBlank '{' = false := by decide
  simp [trim, hbrace]

lemma trim_closed (inner : Text) {c : Char} (hc : isBlank c = false) :
    trim ('{' :: (inner ++ [c])) = '{' :: (inner ++ [c]) := by
  rw [trim_brace, ← List.cons_append]
  exact List.rdropWhile_concat_neg _ _ _ (by simp [hc])

lemma rdropWhile_brace (before inner : Text) : ∃ kept blanks, inner = kept ++ blanks ∧
    (before ++ '{' :: inner).rdropWhile isBlank = before ++ '{' :: kept := by
  induction inner using List.reverseRecOn with
  | nil => exact ⟨[], [], rfl, List.rdropWhile_concat_neg _ _ _ (by decide)⟩
  | append_singleton inner c ih =>
    rw [← List.cons_append, ← List.append_assoc]
    by_cases hc : isBlank c
    · obtain ⟨kept, blanks, heq, htrim⟩ := ih
      refine ⟨kept, blanks ++ [c], by rw [heq, List.append_assoc], ?_⟩
      rw [List.rdropWhile_concat_pos _ _ _ hc, htrim]
    · refine ⟨inner ++ [c], [], by simp, ?_⟩
      rw [List.rdropWhile_concat_neg _ _ _ hc, List.append_assoc]
      rfl

/-- Trimming a text that starts an object leaves a shorter start of it. -/
lemma trim_start (inner : Text) : ∃ kept blanks, inner = kept ++ blanks ∧
    trim ('{' :: inner) = '{' :: kept := by
  rw [trim_brace]
  exact rdropWhile_brace [] inner

end Trimming

section Splitting

lemma splitLines_body {body : Text} (h : '\n' ∉ body) : splitLines body = [body] := by
  induction body with
  | nil => rfl
  | cons c body ih =>
    simp only [List.mem_cons, not_or] at h
    rw [splitLines, if_neg (Ne.symm h.1), ih h.2]

lemma splitLines_append {body : Text} (h : '\n' ∉ body) (rest : Text) :
    splitLines (body ++ '\n' :: rest) = body :: splitLines rest := by
  induction body with
  | nil => simp [splitLines]
  | cons c body ih =>
    simp only [List.mem_cons, not_or] at h
    rw [List.cons_append, splitLines, if_neg (Ne.symm h.1), ih h.2]

end Splitting

section Events

variable (event : StoreEvent)

lemma newline_notMem_eventText : '\n' ∉ eventText event := JsonText.newline_notMem_write _ 0

/-- The text of an event: `v` is its first key. -/
lemma eventText_eq : (∃ inner, eventText event = '{' :: (inner ++ ['}'])) ∧
    ∃ rest, eventText event = '{' :: quote :: 'v' :: rest := by
  constructor
  · exact JsonText.stringify_obj 0 event.members
  · have hmembers : ∃ members, event.members = ("v", versionJson) :: members := by
      cases event <;> exact ⟨_, rfl⟩
    obtain ⟨members, hmembers⟩ := hmembers
    obtain ⟨rest, hrest⟩ := JsonText.stringify_key "v" versionJson members
    refine ⟨rest, ?_⟩
    unfold eventText StoreEvent.toJson
    rw [hmembers, hrest]
    rfl

lemma parse_eventText : parse (eventText event) = some event.toJson := JsonText.parse_stringify 0 _

lemma versionOf_toJson : versionOf event.toJson = some storeVersion := by
  have hversion : (member event.members "v").bind JsonText.Codec.int.ofJson = some storeVersion := by
    cases event with
    | project t projectId event =>
      have h := member_header event.type t projectId (event.headless projectId) (k := "v") (by simp)
      exact congrArg (Option.bind · _) h
    | chat t chatId event =>
      have h := member_header event.type t chatId event.headless (k := "v") (by simp)
      exact congrArg (Option.bind · _) h
    | queuedMessage t chatId event =>
      have h := member_header event.type t chatId event.headless (k := "v") (by simp)
      exact congrArg (Option.bind · _) h
    | turn t chatId event =>
      have h := member_header event.type t chatId event.headless (k := "v") (by simp)
      exact congrArg (Option.bind · _) h
  exact hversion

/-- An opened project is written with its id as its workspace key. -/
lemma openedElsewhere_toJson : openedElsewhere event.toJson = false := by
  have hobject : openedElsewhere event.toJson = openedElsewhere (.obj event.members) := rfl
  rw [hobject, openedElsewhere]
  cases event with
  | project t projectId event =>
    obtain ⟨htype, -, hid⟩ :=
      read_header event.type t projectId (event.headless projectId) (by decide)
    have hreads : Reads (member (StoreEvent.project t projectId event).members) "projectId"
        (event.payload projectId) := reads_header event.type t projectId
    cases event with
    | opened title kind =>
      have hkey := hreads "workspaceKey" (by decide)
      have hsame : textAt (member (StoreEvent.project t projectId (.opened title kind)).members)
          "workspaceKey" = some projectId := congrArg (Option.bind · JsonText.Codec.string.ofJson) hkey
      have hid : textAt (member (StoreEvent.project t projectId (.opened title kind)).members)
          "projectId" = some projectId := hid
      rw [hid, hsame]
      simp
    | sidebarRenamed title =>
      have htype : textAt (member (StoreEvent.project t projectId (.sidebarRenamed title)).members)
          "type" = some "project_sidebar_renamed" := htype
      simp [htype]
    | removed =>
      have htype : textAt (member (StoreEvent.project t projectId .removed).members) "type" =
          some "project_removed" := htype
      simp [htype]
  | chat t chatId event =>
    obtain ⟨htype, -, -⟩ := read_header event.type t chatId event.headless (by decide)
    have hne : event.type ≠ "project_opened" := by cases event <;> simp [ChatEvent.type]
    have htype : textAt (member (StoreEvent.chat t chatId event).members) "type" = some event.type := htype
    simp [htype, hne]
  | queuedMessage t chatId event =>
    obtain ⟨htype, -, -⟩ := read_header event.type t chatId event.headless (by decide)
    have hne : event.type ≠ "project_opened" := by cases event <;> simp [QueuedMessageEvent.type]
    have htype : textAt (member (StoreEvent.queuedMessage t chatId event).members) "type" =
        some event.type := htype
    simp [htype, hne]
  | turn t chatId event =>
    obtain ⟨htype, -, -⟩ := read_header event.type t chatId event.headless (by decide)
    have hne : event.type ≠ "project_opened" := by cases event <;> simp [TurnEvent.type]
    have htype : textAt (member (StoreEvent.turn t chatId event).members) "type" = some event.type := htype
    simp [htype, hne]

/-- The line of an event is read as the event. -/
lemma readLine_eventText : readLine (eventText event) = .event event := by
  obtain ⟨⟨inner, htext⟩, -⟩ := eventText_eq event
  have htrim : trim (eventText event) = eventText event := by
    rw [htext]
    exact trim_closed inner (by decide)
  have hne : eventText event ≠ [] := by simp [htext]
  have hversion := versionOf_toJson event
  have hopened := openedElsewhere_toJson event
  have hread := StoreEvent.ofJson_toJson event
  unfold readLine
  rw [htrim, if_neg hne, parse_eventText]
  have hobject : event.toJson = .obj event.members := rfl
  simp only [hobject] at hversion hopened hread ⊢
  simp [hversion, hopened, hread]

end Events

section Loading

def logText (events : List StoreEvent) : Text := events.flatMap eventLine

lemma logText_append (events : List StoreEvent) (e : StoreEvent) :
    logText (events ++ [e]) = logText events ++ eventLine e := by
  unfold logText
  rw [List.flatMap_append, List.flatMap_singleton]

/-- Events with their log and the lines they stand on. -/
def number (sourceIndex : Fin 4) : ℕ → List StoreEvent → List ParsedReplayEvent
  | _, [] => []
  | index, event :: rest => ⟨event, sourceIndex, index⟩ :: number sourceIndex (index + 1) rest

/-- What the text behind the last line of a log adds to its events; none when the storage is
cleared for it. -/
def tailEvents (tail : Text) : Option (List StoreEvent) :=
  match readLine tail with
  | .blank | .unknown | .corrupt => some []
  | .event event => some [event]
  | .incompatible => none

variable (events : List StoreEvent) {tail : Text}

lemma splitLines_logText (htail : '\n' ∉ tail) :
    splitLines (logText events ++ tail) = events.map eventText ++ [tail] := by
  induction events with
  | nil => exact splitLines_body htail
  | cons event events ih =>
    have hline : logText (event :: events) ++ tail =
        eventText event ++ '\n' :: (logText events ++ tail) := by
      simp [logText, eventLine]
    rw [hline, splitLines_append (newline_notMem_eventText event), ih]
    rfl

lemma readLine_ne_blank (h : readLine tail ≠ .blank) : trim tail ≠ [] := by
  intro htrim
  exact h (by rw [readLine, if_pos htrim])

lemma lastNonEmpty_append (lines : List Text) (h : trim tail ≠ []) :
    lastNonEmpty (lines ++ [tail]) = some lines.length := by
  unfold lastNonEmpty
  rw [List.length_append, List.length_singleton, List.range_succ, List.reverse_append]
  simp [h]

lemma readLines_eventTexts (sourceIndex : Fin 4) (last : Option ℕ) (index : ℕ)
    (hlast : readLine tail ≠ .blank → last = some (index + events.length)) :
    readLines sourceIndex last index (events.map eventText ++ [tail]) =
      (tailEvents tail).map fun more => number sourceIndex index (events ++ more) := by
  induction events generalizing index with
  | nil =>
    unfold tailEvents
    cases hline : readLine tail with
    | blank => simp [readLines, hline, number]
    | unknown => simp [readLines, hline, number]
    | event event => simp [readLines, hline, number]
    | incompatible => simp [readLines, hline]
    | corrupt =>
      have hindex := hlast (by rw [hline]; simp)
      simp [readLines, hline, number, hindex]
  | cons event events ih =>
    have hrest := ih (index + 1) (by
      intro htail
      rw [hlast htail, List.length_cons]
      congr 1
      omega)
    rw [List.map_cons, List.cons_append, readLines, readLine_eventText]
    simp only [hrest, Option.map_map]
    rfl

/-- A log of whole lines and a tail gives the events of the lines, and what the tail adds. -/
theorem loadReplayEvents_logText (sourceIndex : Fin 4) (htail : '\n' ∉ tail) :
    loadReplayEvents (logText events ++ tail) sourceIndex =
      (tailEvents tail).map fun more => number sourceIndex 0 (events ++ more) := by
  unfold loadReplayEvents
  by_cases hblank : trim (logText events ++ tail) = []
  · rw [if_pos hblank]
    have hall := trim_eq_nil_iff.mp hblank
    have hevents : events = [] := by
      cases events with
      | nil => rfl
      | cons event events =>
        obtain ⟨⟨inner, htext⟩, -⟩ := eventText_eq event
        have hbrace := hall '{' (by simp [logText, eventLine, htext])
        exact absurd hbrace (by decide)
    have htrim : trim tail = [] := trim_eq_nil_iff.mpr fun c hc => hall c (List.mem_append_right _ hc)
    have hline : readLine tail = .blank := by rw [readLine, if_pos htrim]
    simp [tailEvents, hline, hevents, number]
  · rw [if_neg hblank, splitLines_logText events htail]
    apply readLines_eventTexts
    intro hline
    rw [lastNonEmpty_append _ (readLine_ne_blank hline), List.length_map, Nat.zero_add]

end Loading

section Torn

/-- What decoding puts for the bytes of a character that is cut. -/
def replacement : Char := Char.ofNat 0xFFFD

/-- What a crash leaves of a text that was being written: its first characters, and perhaps some of
the bytes of the next one. -/
def tornText (text : Text) (cut : ℕ) (inside : Bool) : Text :=
  text.take cut ++ if inside && (text[cut]?).any (fun c => 127 < c.toNat) then [replacement] else []

/-- A torn text is nothing, a start of the text, or a start and a cut character. -/
lemma tornText_cases (text : Text) (cut : ℕ) (inside : Bool) :
    ∃ start more, text = start ++ more ∧ (tornText text cut inside = start ∨
      tornText text cut inside = start ++ [replacement] ∧ ∃ c ∈ more.head?, 127 < c.toNat) := by
  refine ⟨text.take cut, text.drop cut, (List.take_append_drop cut text).symm, ?_⟩
  unfold tornText
  by_cases h : (inside && (text[cut]?).any fun c => 127 < c.toNat) = true
  · rw [if_pos h]
    simp only [Bool.and_eq_true, Option.any_eq_true] at h
    obtain ⟨-, c, hc, hlarge⟩ := h
    refine Or.inr ⟨rfl, c, ?_, by simpa using hlarge⟩
    rw [List.head?_drop, hc]
    rfl
  · rw [if_neg h, List.append_nil]
    exact Or.inl rfl

variable {whole start more : Text}

/-- The text of an object, and a start of it that is not all of it. -/
structure ObjectStart (whole start more : Text) : Prop where
  parses : (parse whole).isSome
  object : ∃ inner, whole = '{' :: (inner ++ ['}'])
  split : whole = start ++ more
  started : start ≠ []

lemma ObjectStart.brace (h : ObjectStart whole start more) : ∃ inner, start = '{' :: inner := by
  obtain ⟨inner, hwhole⟩ := h.object
  have hsplit := h.split
  rw [hwhole] at hsplit
  cases start with
  | nil => exact absurd rfl h.started
  | cons c start => exact ⟨start, by rw [(List.cons.inj hsplit).1]⟩

lemma ObjectStart.closing (h : ObjectStart whole start more) (hmore : more ≠ []) : '}' ∈ more := by
  obtain ⟨inner, hwhole⟩ := h.object
  have hlast := congrArg List.getLast? (hwhole.symm.trans h.split)
  have hleft : ('{' :: (inner ++ ['}'])).getLast? = some '}' := by
    rw [← List.cons_append, List.getLast?_concat]
  rw [hleft, List.getLast?_append_of_ne_nil _ hmore] at hlast
  exact List.mem_of_getLast? hlast.symm

/-- A start of an object's text is no JSON. -/
lemma ObjectStart.parse_start (h : ObjectStart whole start more) (hmore : more ≠ []) :
    parse start = none := by
  have hclosing := h.closing hmore
  obtain ⟨inner, rfl⟩ := h.brace
  apply JsonText.parse_torn
  · rw [← h.split]
    exact h.parses
  · exact ⟨'}', hclosing, by decide⟩

/-- Trimming leaves a start of the same text. -/
lemma ObjectStart.trim (h : ObjectStart whole start more) :
    ∃ blanks, ObjectStart whole (EventStore.trim start) (blanks ++ more) := by
  obtain ⟨inner, rfl⟩ := h.brace
  obtain ⟨kept, blanks, hinner, htrim⟩ := trim_start inner
  refine ⟨blanks, h.parses, h.object, ?_, by rw [htrim]; exact List.cons_ne_nil _ _⟩
  rw [htrim, h.split, hinner]
  simp

lemma ObjectStart.parse_trim (h : ObjectStart whole start more) (hmore : more ≠ []) :
    parse (EventStore.trim start) = none := by
  obtain ⟨blanks, hstart⟩ := h.trim
  exact hstart.parse_start fun heq => hmore (List.append_eq_nil_iff.mp heq).2

lemma isBlank_replacement : isBlank replacement = false := by decide

lemma parse_replacement (inner : Text) : parse ('{' :: inner ++ [replacement]) = none := by
  by_contra hparse
  have hclosing := JsonText.closing_of_parse (Option.ne_none_iff_isSome.mp hparse)
  revert hclosing
  unfold JsonText.Closing
  decide

/-- Nor is a start that ends inside a character. -/
lemma ObjectStart.parse_replacement (h : ObjectStart whole start more) :
    parse (start ++ [replacement]) = none ∧ parse (EventStore.trim (start ++ [replacement])) = none := by
  obtain ⟨inner, rfl⟩ := h.brace
  have htrim := trim_closed inner isBlank_replacement
  refine ⟨EventStore.parse_replacement inner, ?_⟩
  rw [List.cons_append, htrim, ← List.cons_append]
  exact EventStore.parse_replacement inner

end Torn

section Tails

variable {tail : Text} (event : StoreEvent) (cut : ℕ) (inside : Bool)

/-- What crashes leave behind the last whole line of a log: a text on one line that does not make
the storage be cleared. -/
structure Dangling (tail : Text) : Prop where
  oneLine : '\n' ∉ tail
  start : tail = [] ∨ ∃ inner, tail = '{' :: inner
  read : (tailEvents tail).isSome

lemma dangling_nil : Dangling [] := ⟨by simp, Or.inl rfl, rfl⟩

lemma readLine_corrupt {line : Text} (hline : trim line ≠ []) (h : parse (trim line) = none) :
    readLine line = .corrupt := by
  rw [readLine, if_neg hline, h]

lemma tailEvents_corrupt {line : Text} (hline : trim line ≠ []) (h : parse (trim line) = none) :
    tailEvents line = some [] := by
  rw [tailEvents, readLine_corrupt hline h]

lemma trim_brace_ne_nil (inner : Text) : trim ('{' :: inner) ≠ [] := by
  obtain ⟨kept, blanks, -, htrim⟩ := trim_start inner
  rw [htrim]
  exact List.cons_ne_nil _ _

lemma newline_notMem_torn {text : Text} (h : '\n' ∉ text) : '\n' ∉ tornText text cut inside := by
  intro hmem
  obtain htake | hcut := List.mem_append.mp hmem
  · exact h (List.mem_of_mem_take htake)
  · have hne : '\n' ≠ replacement := by decide
    split_ifs at hcut <;> simp [hne] at hcut

/-- The text of an event, torn after its first character. -/
lemma torn_eventText : tornText (eventText event) cut inside = [] ∨
    ∃ start more, ObjectStart (eventText event) start more ∧
      (tornText (eventText event) cut inside = start ∨
        tornText (eventText event) cut inside = start ++ [replacement] ∧ more ≠ []) := by
  obtain ⟨start, more, hsplit, htorn⟩ := tornText_cases (eventText event) cut inside
  obtain ⟨⟨inner, hobject⟩, -⟩ := eventText_eq event
  by_cases hstart : start = []
  · left
    obtain htorn | ⟨-, c, hc, hlarge⟩ := htorn
    · rw [htorn, hstart]
    · rw [hstart, List.nil_append] at hsplit
      rw [← hsplit, hobject] at hc
      obtain rfl := Option.some.inj hc
      exact absurd hlarge (by decide)
  · right
    have hparses : (parse (eventText event)).isSome := by rw [parse_eventText]; rfl
    refine ⟨start, more, ⟨hparses, ⟨inner, hobject⟩, hsplit, hstart⟩, ?_⟩
    obtain htorn | ⟨htorn, c, hc, -⟩ := htorn
    · exact Or.inl htorn
    · refine Or.inr ⟨htorn, ?_⟩
      rintro rfl
      simp at hc

/-- A torn event leaves a line that is not read, or the whole event without its line end. -/
lemma tailEvents_torn (h : tornText (eventText event) cut inside ≠ []) :
    tailEvents (tornText (eventText event) cut inside) = some [] ∨
      tornText (eventText event) cut inside = eventText event := by
  obtain hnil | ⟨start, more, hstart, htorn⟩ := torn_eventText event cut inside
  · exact absurd hnil h
  · have hbrace := hstart.brace
    obtain ⟨inner, hinner⟩ := hbrace
    obtain htorn | ⟨htorn, hmore⟩ := htorn
    · by_cases hmore : more = []
      · right
        rw [htorn, hstart.split, hmore, List.append_nil]
      · left
        rw [htorn]
        apply tailEvents_corrupt
        · rw [hinner]
          exact trim_brace_ne_nil inner
        · exact hstart.parse_trim hmore
    · left
      rw [htorn]
      apply tailEvents_corrupt
      · rw [hinner]
        exact trim_brace_ne_nil _
      · exact hstart.parse_replacement.2

/-- A torn event behind a torn one is not read, whole or not. -/
lemma tailEvents_merged {inner : Text} (h : tornText (eventText event) cut inside ≠ []) :
    tailEvents ('{' :: inner ++ tornText (eventText event) cut inside) = some [] := by
  obtain hnil | ⟨start, more, hstart, htorn⟩ := torn_eventText event cut inside
  · exact absurd hnil h
  · obtain ⟨-, rest, hkey⟩ := eventText_eq event
    obtain ⟨inner', hinner⟩ := hstart.brace
    have hne : trim ('{' :: inner ++ tornText (eventText event) cut inside) ≠ [] :=
      trim_brace_ne_nil _
    apply tailEvents_corrupt hne
    obtain htorn | ⟨htorn, hmore⟩ := htorn
    · rw [htorn, hinner]
      obtain ⟨kept, blanks, hkept, htrim⟩ := rdropWhile_brace ('{' :: inner) inner'
      rw [List.cons_append, trim_brace, ← List.cons_append, htrim]
      have hsplit : ('{' :: kept) ++ (blanks ++ more) = eventText event := by
        rw [hstart.split, hinner, hkept]
        simp
      have hkept' : ('{' :: kept) ++ (blanks ++ more) = '{' :: JsonText.quote :: 'v' :: rest := by
        rw [hsplit, hkey]
      apply JsonText.parse_merged (by simp) _ hkept'
      · rw [hsplit]
        exact hstart.parses
      · unfold JsonText.Continuing JsonText.Closing
        decide
    · have hclosed := trim_closed (inner ++ start) isBlank_replacement
      have htext : '{' :: inner ++ (start ++ [replacement]) =
          '{' :: (inner ++ start ++ [replacement]) := by simp
      rw [htorn, htext, hclosed, ← List.cons_append]
      exact parse_replacement (inner ++ start)

/-- Crashes keep what they leave behind a log from being read as anything but an event. -/
theorem Dangling.torn (h : Dangling tail) : Dangling (tail ++ tornText (eventText event) cut inside) := by
  by_cases hnil : tornText (eventText event) cut inside = []
  · rw [hnil, List.append_nil]
    exact h
  · have honeLine : '\n' ∉ tail ++ tornText (eventText event) cut inside := by
      intro hmem
      obtain hmem | hmem := List.mem_append.mp hmem
      · exact h.oneLine hmem
      · exact newline_notMem_torn cut inside (newline_notMem_eventText event) hmem
    obtain rfl | ⟨inner, rfl⟩ := h.start
    · obtain hbrace | ⟨start, more, hstart, htorn⟩ := torn_eventText event cut inside
      · exact absurd hbrace hnil
      · obtain ⟨inner, hinner⟩ := hstart.brace
        refine ⟨honeLine, Or.inr ?_, ?_⟩
        · obtain htorn | ⟨htorn, -⟩ := htorn
          · exact ⟨inner, by rw [List.nil_append, htorn, hinner]⟩
          · exact ⟨inner ++ [replacement], by rw [List.nil_append, htorn, hinner, List.cons_append]⟩
        · rw [List.nil_append]
          obtain hread | hwhole := tailEvents_torn event cut inside hnil
          · rw [hread]
            rfl
          · rw [hwhole, tailEvents, readLine_eventText]
            rfl
    · exact ⟨honeLine, Or.inr ⟨_, List.cons_append⟩, by rw [tailEvents_merged event cut inside hnil]; rfl⟩

end Tails

section Snapshots

variable (generatedAt : ℤ) (s : StoreState) (cut : ℕ) (inside : Bool)

theorem SnapshotFile.ofJson_toJson (snapshot : SnapshotFile) : ofJson snapshot.toJson = some snapshot := by
  have hkeys : ∀ key ∈ snapshotMember.keys, key ≠ "v" := by decide
  have hversion : versionOf snapshot.toJson = some storeVersion := by
    have hmember : member (("v", versionJson) :: snapshotMember.write snapshot) "v" =
        some versionJson := by
      rw [← List.singleton_append, JsonText.member_append_left]
      · rfl
      · intro m hm
        exact hkeys m.1 (snapshotMember.key_mem snapshot m hm)
    unfold versionOf toJson
    simp only [hmember]
    rfl
  have hread : snapshotMember.read (member (("v", versionJson) :: snapshotMember.write snapshot)) =
      some snapshot := by
    apply snapshotMember.read_write
    intro key hkey
    rw [← List.singleton_append]
    apply JsonText.member_append_right
    intro m hm
    rw [List.mem_singleton.mp hm]
    exact (hkeys key hkey).symm
  have hobject : snapshot.toJson = .obj (("v", versionJson) :: snapshotMember.write snapshot) := rfl
  have hsame : ¬ (some storeVersion ≠ some storeVersion) := by simp
  rw [hobject] at hversion ⊢
  unfold ofJson
  rw [hversion, if_neg hsame]
  exact hread

lemma snapshotText_object : ∃ inner, snapshotText generatedAt s = '{' :: (inner ++ ['}']) :=
  JsonText.stringify_obj 2 _

lemma parse_snapshotText : parse (snapshotText generatedAt s) =
    some (createSnapshot generatedAt s).toJson := JsonText.parse_stringify 2 _

/-- A whole snapshot gives the records it was made of. -/
theorem loadSnapshot_snapshotText :
    loadSnapshot (some (snapshotText generatedAt s)) = some (createSnapshot generatedAt s).state := by
  obtain ⟨inner, htext⟩ := snapshotText_object generatedAt s
  have hne : trim (snapshotText generatedAt s) ≠ [] := by
    rw [htext]
    exact trim_brace_ne_nil _
  rw [loadSnapshot, if_neg hne, parse_snapshotText, Option.bind_some, SnapshotFile.ofJson_toJson]
  rfl

/-- A snapshot that was torn after its first character makes the storage be cleared. -/
theorem loadSnapshot_torn (hcut : 0 < cut) (h : cut < (snapshotText generatedAt s).length) :
    loadSnapshot (some (tornText (snapshotText generatedAt s) cut inside)) = none := by
  have hparses : (parse (snapshotText generatedAt s)).isSome := by rw [parse_snapshotText]; rfl
  have htake : (snapshotText generatedAt s).take cut ≠ [] := by
    intro hnil
    have hlength := congrArg List.length hnil
    rw [List.length_take, List.length_nil] at hlength
    omega
  have hdrop : (snapshotText generatedAt s).drop cut ≠ [] := by
    intro hnil
    have hlength := congrArg List.length hnil
    rw [List.length_drop, List.length_nil] at hlength
    omega
  have hstart : ObjectStart (snapshotText generatedAt s) _ _ :=
    ⟨hparses, snapshotText_object generatedAt s, (List.take_append_drop cut _).symm, htake⟩
  obtain ⟨inner, hbrace⟩ := hstart.brace
  have hparse : parse (tornText (snapshotText generatedAt s) cut inside) = none := by
    unfold tornText
    split_ifs
    · exact hstart.parse_replacement.1
    · rw [List.append_nil]
      exact hstart.parse_start hdrop
  have hblank : trim (tornText (snapshotText generatedAt s) cut inside) ≠ [] := by
    unfold tornText
    rw [hbrace]
    exact trim_brace_ne_nil _
  rw [loadSnapshot, if_neg hblank, hparse]
  rfl

end Snapshots

section Transcripts

/-- An entry of a transcript, as the object it is written as. -/
structure TranscriptEntry where
  members : List (String × Value)

def TranscriptEntry.toJson (entry : TranscriptEntry) : Value := .obj entry.members

def entryText (entry : TranscriptEntry) : Text := stringify 0 entry.toJson

def entryLine (entry : TranscriptEntry) : Text := entryText entry ++ ['\n']

def transcriptText (entries : List TranscriptEntry) : Text := entries.flatMap entryLine

variable (entries : List TranscriptEntry) (entry : TranscriptEntry) {tail : Text}

lemma newline_notMem_entryText : '\n' ∉ entryText entry := JsonText.newline_notMem_write _ 0

lemma entryText_object : ∃ inner, entryText entry = '{' :: (inner ++ ['}']) :=
  JsonText.stringify_obj 0 _

lemma trim_entryText : trim (entryText entry) = entryText entry := by
  obtain ⟨inner, htext⟩ := entryText_object entry
  rw [htext]
  exact trim_closed inner (by decide)

lemma splitLines_transcriptText (htail : '\n' ∉ tail) :
    splitLines (transcriptText entries ++ tail) = entries.map entryText ++ [tail] := by
  induction entries with
  | nil => exact splitLines_body htail
  | cons entry entries ih =>
    have hline : transcriptText (entry :: entries) ++ tail =
        entryText entry ++ '\n' :: (transcriptText entries ++ tail) := by
      simp [transcriptText, entryLine]
    rw [hline, splitLines_append (newline_notMem_entryText entry), ih]
    rfl

lemma readEntries_cons (rest : List Text) : readEntries (entryText entry :: rest) =
    (readEntries rest).map (entry.toJson :: ·) := by
  have hne : entryText entry ≠ [] := by
    obtain ⟨inner, htext⟩ := entryText_object entry
    rw [htext]
    exact List.cons_ne_nil _ _
  rw [readEntries, trim_entryText, if_neg hne]
  have hparse : parse (entryText entry) = some entry.toJson := JsonText.parse_stringify 0 _
  rw [hparse, Option.bind_some]

lemma readEntries_entryTexts (rest : List Text) : readEntries (entries.map entryText ++ rest) =
    (readEntries rest).map (entries.map TranscriptEntry.toJson ++ ·) := by
  induction entries with
  | nil => simp
  | cons entry entries ih =>
    rw [List.map_cons, List.cons_append, readEntries_cons, ih, Option.map_map]
    rfl

/-- A transcript of whole lines and a tail is read when the tail is. -/
theorem loadTranscript_transcriptText (htail : '\n' ∉ tail) :
    loadTranscriptFromDisk (transcriptText entries ++ tail) =
      (readEntries [tail]).map (entries.map TranscriptEntry.toJson ++ ·) := by
  unfold loadTranscriptFromDisk
  by_cases hblank : trim (transcriptText entries ++ tail) = []
  · have hall := trim_eq_nil_iff.mp hblank
    have hentries : entries = [] := by
      cases entries with
      | nil => rfl
      | cons entry entries =>
        obtain ⟨inner, htext⟩ := entryText_object entry
        have hbrace := hall '{' (by simp [transcriptText, entryLine, htext])
        exact absurd hbrace (by decide)
    have htrim : trim tail = [] := trim_eq_nil_iff.mpr fun c hc => hall c (List.mem_append_right _ hc)
    rw [if_pos hblank, hentries]
    simp [readEntries, htrim]
  · rw [if_neg hblank, splitLines_transcriptText entries htail, readEntries_entryTexts]

end Transcripts

end TradeFramework.EventStore
