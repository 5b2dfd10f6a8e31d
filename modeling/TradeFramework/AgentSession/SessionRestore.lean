import Mathlib.Data.List.Basic
import TradeFramework.EventStore.Events
import TradeFramework.Library.FittingSuffix
import TradeFramework.Library.JsonCodec

/-!
# Restoring a session from its transcript

The part of a saved transcript that is handed to a new session: which entries are rendered, which
tool inputs and results are elided, and where the transcript is cut. Text lengths count UTF-16 code
units.
-/

namespace TradeFramework.AgentSession

open EventStore (AgentProvider)
open JsonText (Value)

abbrev Text := List UInt16

def charUnits (c : Char) : Text :=
  if c.toNat < 65536 then [UInt16.ofNat c.toNat]
  else [UInt16.ofNat (55296 + (c.toNat - 65536) / 1024), UInt16.ofNat (56320 + (c.toNat - 65536) % 1024)]

def units (chars : List Char) : Text := chars.flatMap charUnits

def text (s : String) : Text := units s.toList

def decimal (n : ℕ) : Text := units (JsonText.digits n)

def join (separator : String) (parts : List Text) : Text := (text separator).intercalate parts

structure ChatAttachment where
  displayName : Text
  relativePath : Text

structure ToolCall where
  toolName : Text
  toolId : Text
  input : Option Value
  rawInput : Option Value

/-- An entry's kind, with what its block is made of. -/
inductive Content
  | userPrompt (content : Text) (attachments : List ChatAttachment)
  | assistantText (text : Text)
  | toolCall (tool : ToolCall)
  | toolResult (toolId : Text) (content : Option Value) (isError : Bool)
  | compactSummary (summary : Text)
  | interrupted
  | sessionRestored
  | result (isError : Bool) (result : Text)
  | reviewArtifact (artifact : Value)
  | systemInit
  | accountInfo
  | status
  | contextWindowUpdated
  | compactBoundary
  | contextCleared

structure TranscriptEntry where
  _id : Text
  hidden : Bool
  content : Content

def Content.isUserPrompt : Content → Bool
  | .userPrompt _ _ => true
  | _ => false

def Content.isAssistantText : Content → Bool
  | .assistantText _ => true
  | _ => false

def Content.isToolResult : Content → Bool
  | .toolResult _ _ _ => true
  | _ => false

section Blocks

def charsPerToken : ℕ := 4

def sessionRestoreCharBudget : ℤ := 100000 * charsPerToken

def recentVerbatimChars : ℤ := 100000

def toolIoElideChars : ℕ := 2000

def errorResultMaxChars : ℕ := 2000

structure RestoreBlock where
  entry : TranscriptEntry
  header : Text
  body : Text
  elidableBody : Bool
  elided : Bool

def providerLabel : AgentProvider → Text
  | .claudeDeepseek => text "Claude Code + DeepSeek"
  | .codexOpenai => text "Codex + GPT"

def compactJson (value : Value) : Text := units (JsonText.write 0 0 value)

def renderResultBlock : Value → Text
  | .str s => text s
  | .obj members =>
    match JsonText.member members "type", JsonText.member members "text" with
    | some (.str "text"), some (.str s) => text s
    | _, _ => compactJson (.obj members)
  | value => compactJson value

def renderToolResultContent : Option Value → Text
  | none => []
  | some .null => []
  | some (.str s) => text s
  | some (.arr blocks) => join "\n" (blocks.map renderResultBlock)
  | some value => compactJson value

def renderAttachmentLines (attachments : List ChatAttachment) : Text :=
  if attachments = [] then []
  else text "\n" ++ join "\n" (attachments.map fun attachment =>
    text "[attached: " ++ attachment.displayName ++ text " (" ++ attachment.relativePath ++ text ")]")

/-- The operands of `??`: a value that is neither undefined nor null. -/
def present : Option Value → Option Value
  | some .null => none
  | value => value

def blockFromEntry (entry : TranscriptEntry) : Option RestoreBlock :=
  match entry.content with
  | .userPrompt content attachments =>
    some ⟨entry, text "--- user ---", content ++ renderAttachmentLines attachments, false, false⟩
  | .assistantText body => some ⟨entry, text "--- assistant ---", body, false, false⟩
  | .toolCall tool =>
    some ⟨entry, text "--- assistant tool call: " ++ tool.toolName ++ text " ---",
      compactJson (((present tool.rawInput).or (present tool.input)).getD (.obj [])), true, false⟩
  | .toolResult _ content isError =>
    some ⟨entry, text "--- tool result" ++ (if isError then text " (error)" else []) ++ text " ---",
      renderToolResultContent content, true, false⟩
  | .compactSummary summary =>
    some ⟨entry, text "--- summary of earlier conversation (previous agent's context compaction) ---",
      summary, false, false⟩
  | .interrupted => some ⟨entry, text "--- turn interrupted by user ---", [], false, false⟩
  | .sessionRestored =>
    some ⟨entry,
      text "--- conversation restored from saved transcript (previous native session unavailable) ---",
      [], false, false⟩
  | .result isError result =>
    if isError then
      some ⟨entry, text "--- turn ended with error ---", result.take errorResultMaxChars, false, false⟩
    else none
  | .reviewArtifact artifact =>
    some ⟨entry, text "--- TradeEngine review artifact (display-only) ---", compactJson artifact,
      false, false⟩
  | .systemInit | .accountInfo | .status | .contextWindowUpdated | .compactBoundary
  | .contextCleared => none

def blockLength (block : RestoreBlock) : ℕ :=
  block.header.length + (if block.body = [] then 0 else block.body.length + 1) + 2

def renderBlock (block : RestoreBlock) : Text :=
  if block.body = [] then block.header else block.header ++ text "\n" ++ block.body

/-- `Math.round` of a count of characters over the characters of a token. -/
def approxTokens (chars : ℕ) : ℕ := (chars + charsPerToken / 2) / charsPerToken

def elideBody (block : RestoreBlock) : RestoreBlock :=
  let label := if block.entry.content.isToolResult then text "tool result" else text "tool input"
  { block with
    body := text "[" ++ label ++ text " elided (~" ++ decimal (approxTokens block.body.length) ++
      text " tokens) — entry " ++ block.entry._id ++ text " in the transcript JSONL]"
    elided := true }

end Blocks

section Building

structure RestoreArgs where
  entries : List TranscriptEntry
  provider : AgentProvider
  transcriptPath : Text
  charBudget : Option ℤ

structure SessionRestoreStats where
  totalEntries : ℕ
  includedEntries : ℕ
  elidedToolResults : ℕ
  approxTokens : ℕ

structure SessionRestoreContext where
  text : Text
  stats : SessionRestoreStats

def RestoreArgs.budget (args : RestoreArgs) : ℤ := args.charBudget.getD sessionRestoreCharBudget

/-- The blocks of the visible transcript, all verbatim. -/
def visibleBlocks (entries : List TranscriptEntry) : List RestoreBlock :=
  (entries.filter fun entry => !entry.hidden).filterMap blockFromEntry

/-- Pass 1: the start of the recent verbatim window. -/
def recentStart (blocks : List RestoreBlock) : ℕ :=
  FittingSuffix.start blockLength recentVerbatimChars blocks

/-- Pass 2: large tool inputs and results outside the recent window are elided. -/
def elideOlder (blocks : List RestoreBlock) : List RestoreBlock :=
  blocks.mapIdx fun index block =>
    if recentStart blocks ≤ index ∨ block.elidableBody = false ∨ block.body.length ≤ toolIoElideChars
    then block
    else elideBody block

def nextPromptIndex (blocks : List RestoreBlock) (cutIndex : ℕ) : Option ℕ :=
  ((blocks.drop cutIndex).findIdx? fun block => block.entry.content.isUserPrompt).map (cutIndex + ·)

def skipToolResults (blocks : List RestoreBlock) (cutIndex : ℕ) : ℕ :=
  cutIndex + ((blocks.drop cutIndex).takeWhile fun block => block.entry.content.isToolResult).length

/-- The cut moves forward to a prompt. With no prompt after it, it moves past the tool results it
stands before. -/
def snapCut (blocks : List RestoreBlock) (cutIndex : ℕ) : ℕ :=
  if cutIndex = 0 then 0
  else (nextPromptIndex blocks cutIndex).getD (skipToolResults blocks cutIndex)

/-- What a context is written from: the entries left out, and the blocks of the rest. -/
structure Selection where
  totalEntries : ℕ
  elidedToolResults : ℕ
  omitted : ℕ
  included : List RestoreBlock

def selectEntries (args : RestoreArgs) : Option Selection :=
  let visible := visibleBlocks args.entries
  let blocks := elideOlder visible
  let cutIndex := snapCut blocks (FittingSuffix.start blockLength args.budget blocks)
  let included := blocks.drop cutIndex
  if !visible.any fun block => block.entry.content.isUserPrompt then none
  else if included.any fun block =>
      block.entry.content.isUserPrompt || block.entry.content.isAssistantText then
    some ⟨visible.length, blocks.countP (·.elided), cutIndex, included⟩
  else none

def writeContext (args : RestoreArgs) (selection : Selection) : SessionRestoreContext :=
  let omittedLine :=
    if 0 < selection.omitted then
      [text "[" ++ decimal selection.omitted ++
        text " earlier entries omitted for length — read the full transcript JSONL at " ++
        args.transcriptPath ++ text "]"]
    else []
  let body := join "\n\n" (omittedLine ++ selection.included.map renderBlock)
  let intro := text "Your previous " ++ providerLabel args.provider ++
    text " session for this conversation could not be resumed — its native session data is no longer available. The conversation has been restored from the saved transcript; continue the same conversation."
  let whole := join "\n"
    [text "<system-message>", intro, [],
      text "Everything inside <restored_transcript> is a read-only record of this same conversation. Treat it as your own history and respond to the user's message that follows it.",
      [],
      text "Some older tool inputs/results may be elided and earlier turns omitted for length. The complete conversation record (JSONL, one entry per line) is at: " ++
        args.transcriptPath ++ text ". Read it if you need elided or omitted context.",
      [], text "<restored_transcript>", body, text "</restored_transcript>", text "</system-message>"]
  ⟨whole, ⟨selection.totalEntries, selection.included.length, selection.elidedToolResults,
    approxTokens whole.length⟩⟩

def buildSessionRestoreContext (args : RestoreArgs) : Option SessionRestoreContext :=
  (selectEntries args).map (writeContext args)

end Building

end TradeFramework.AgentSession
