import Mathlib.Algebra.Ring.Nat
import Crest.EntryTransaction
import Crest.JsonRecord

/-!
# Compaction of a session branch

A branch that has grown too long is cut in two: the entries before the cut are summarized,
and a compaction entry records the summary and the id of the first entry that is kept.  The
context of a model is rebuilt from the branch by `buildSessionContext`, which starts at the
last compaction.

A stored message is the JSON value it is.  Its fields are read as its type promises them; a
field that is missing reads as empty.  A message made from another entry keeps the
timestamp of the entry as text, which the source turns into milliseconds.
-/

namespace Compaction

open Session

/-- `AgentMessage`: a stored message, or one made from an entry of another type. -/
inductive AgentMessage
  | stored (message : Json)
  | custom (customType : JsString) (content : Json) (display : Bool) (details : Option Json)
      (timestamp : JsString)
  | branchSummary (summary fromId timestamp : JsString)
  | compactionSummary (summary : JsString) (tokensBefore : ℚ) (timestamp : JsString)
deriving DecidableEq, Repr

/-- A string field, empty when it is missing. -/
def text (message : Json) (field : String) : JsString :=
  (message.stringField (js field)).getD []

/-- A numeric field, zero when it is missing. -/
def number (value : Json) (field : String) : ℚ :=
  match value.get (js field) with
  | some (.num n) => n
  | _ => 0

/-- The `role` of a stored message. -/
def roleOf (message : Json) : JsString := text message "role"

/-- The blocks of a message's content. -/
def blocks (message : Json) : List Json := (message.arrayField (js "content")).getD []

/-- The `content` of a message that is a string. -/
def contentText (message : Json) : Option JsString := message.stringField (js "content")

def getMessageFromEntry (entry : SessionTreeEntry) : Option AgentMessage :=
  match entry.body with
  | .message message => some (.stored message)
  | .customMessage customType content details display =>
    some (.custom customType content display details entry.timestamp)
  | .branchSummary fromId summary _ _ => some (.branchSummary summary fromId entry.timestamp)
  | .compaction summary _ tokensBefore _ _ =>
    some (.compactionSummary summary tokensBefore entry.timestamp)
  | _ => none

/-- The entry is a compaction. -/
def isCompaction (entry : SessionTreeEntry) : Bool :=
  match entry.body with
  | .compaction _ _ _ _ _ => true
  | _ => false

def getMessageFromEntryForCompaction (entry : SessionTreeEntry) : Option AgentMessage :=
  if isCompaction entry then none else getMessageFromEntry entry

/-- `appendMessage` of `buildSessionContext`. -/
def contextMessage (entry : SessionTreeEntry) : Option AgentMessage :=
  match entry.body with
  | .message message => some (.stored message)
  | .customMessage customType content details display =>
    some (.custom customType content display details entry.timestamp)
  | .branchSummary fromId summary _ _ =>
    if summary = [] then none else some (.branchSummary summary fromId entry.timestamp)
  | _ => none

/-- `CompactionEntry`, as far as it is read. -/
structure CompactionEntry where
  id : JsString
  timestamp : JsString
  summary : JsString
  firstKeptEntryId : JsString
  tokensBefore : ℚ
  details : Option Json
  fromHook : Bool
deriving DecidableEq

/-- The compaction an entry is. -/
def asCompaction (entry : SessionTreeEntry) : Option CompactionEntry :=
  match entry.body with
  | .compaction summary firstKeptEntryId tokensBefore details fromHook =>
    some ⟨entry.id, entry.timestamp, summary, firstKeptEntryId, tokensBefore, details,
      fromHook.getD false⟩
  | _ => none

/-- The index of the last compaction, and the compaction. -/
def lastCompaction (entries : List SessionTreeEntry) : Option (Nat × CompactionEntry) :=
  (entries.zipIdx.filterMap fun e => (asCompaction e.1).map fun c => (e.2, c)).getLast?

structure SessionContext where
  messages : List AgentMessage
  messageEntryIds : List JsString
  thinkingLevel : JsString
  model : Option (JsString × JsString)
deriving DecidableEq, Repr

/-- The thinking level after an entry. -/
def thinkingLevelAfter (level : JsString) (entry : SessionTreeEntry) : JsString :=
  match entry.body with
  | .thinkingLevelChange thinkingLevel => thinkingLevel
  | _ => level

/-- The model after an entry. -/
def modelAfter (model : Option (JsString × JsString)) (entry : SessionTreeEntry) :
    Option (JsString × JsString) :=
  match entry.body with
  | .modelChange provider modelId => some (provider, modelId)
  | .message message =>
    if roleOf message = js "assistant" then
      some (text message "provider", text message "model")
    else model
  | _ => model

/-- The entries from the first one with an id on. -/
def entriesFrom (firstKeptEntryId : JsString) (entries : List SessionTreeEntry) :
    List SessionTreeEntry :=
  entries.dropWhile fun entry => entry.id ≠ firstKeptEntryId

/-- The entries whose messages follow the summary of a compaction. -/
def entriesAfterSummary (visible : List SessionTreeEntry) (compaction : CompactionEntry) :
    List SessionTreeEntry :=
  let compactionIdx := visible.findIdx fun entry =>
    isCompaction entry && decide (entry.id = compaction.id)
  entriesFrom compaction.firstKeptEntryId (visible.take compactionIdx) ++
    visible.drop (compactionIdx + 1)

/-- The ids of the entries that have a message. -/
def messageIds (entries : List SessionTreeEntry) : List JsString :=
  (entries.filter fun entry => (contextMessage entry).isSome).map SessionTreeEntry.id

section Context

variable (digest : Digest)

def buildSessionContext (pathEntries : List SessionTreeEntry) : SessionContext :=
  let visible := (filterCommittedTransactionEntries digest pathEntries).entries
  let thinkingLevel := visible.foldl thinkingLevelAfter (js "off")
  let model := visible.foldl modelAfter none
  match lastCompaction visible with
  | none =>
    { messages := visible.filterMap contextMessage
      messageEntryIds := messageIds visible
      thinkingLevel := thinkingLevel
      model := model }
  | some (_, compaction) =>
    let entries := entriesAfterSummary visible compaction
    { messages :=
        .compactionSummary compaction.summary compaction.tokensBefore compaction.timestamp ::
          entries.filterMap contextMessage
      messageEntryIds := compaction.id :: messageIds entries
      thinkingLevel := thinkingLevel
      model := model }

end Context

section Tokens

variable (numberText : ℚ → JsString)

/-- The characters of an assistant's block. -/
def assistantChars (block : Json) : Nat :=
  if text block "type" = js "text" then (text block "text").length
  else if text block "type" = js "thinking" then (text block "thinking").length
  else if text block "type" = js "toolCall" then
    (text block "name").length +
      match block.get (js "arguments") with
      | some arguments => (arguments.stringify numberText).length
      | none => (js "undefined").length
  else 0

/-- The characters of a block of a custom message or a tool result. -/
def contentChars (block : Json) : Nat :=
  if text block "type" = js "text" then (text block "text").length
  else if text block "type" = js "image" then 4800
  else 0

/-- The characters of a content that is a string or a list of blocks. -/
def charsOf (content : Option Json) (blockChars : Json → Nat) : Nat :=
  match content with
  | some (.str s) => s.length
  | some (.arr items) => (items.map blockChars).sum
  | _ => 0

/-- `Math.ceil(chars / 4)`. -/
def ceilQuarter (chars : Nat) : Nat := (chars + 3) / 4

/-- `estimateTokens` of a stored message. -/
def estimateStored (message : Json) : Nat :=
  if roleOf message = js "user" then
    ceilQuarter (charsOf (message.get (js "content")) fun block =>
      if text block "type" = js "text" then (text block "text").length else 0)
  else if roleOf message = js "assistant" then
    ceilQuarter ((blocks message).map (assistantChars numberText)).sum
  else if roleOf message = js "custom" ∨ roleOf message = js "toolResult" then
    ceilQuarter (charsOf (message.get (js "content")) contentChars)
  else if roleOf message = js "bashExecution" then
    ceilQuarter ((text message "command").length + (text message "output").length)
  else if roleOf message = js "branchSummary" ∨ roleOf message = js "compactionSummary" then
    ceilQuarter (text message "summary").length
  else 0

def estimateTokens : AgentMessage → Nat
  | .stored message => estimateStored numberText message
  | .custom _ content _ _ _ => ceilQuarter (charsOf (some content) contentChars)
  | .branchSummary summary _ _ => ceilQuarter summary.length
  | .compactionSummary summary _ _ => ceilQuarter summary.length

def getAssistantUsage : AgentMessage → Option Json
  | .stored message =>
    if roleOf message ≠ js "assistant" then none
    else if text message "stopReason" = js "aborted" ∨ text message "stopReason" = js "error" then
      none
    else
      match message.get (js "usage") with
      | some (.obj fields) => some (.obj fields)
      | _ => none
  | _ => none

def calculateContextTokens (usage : Json) : ℚ :=
  if number usage "totalTokens" ≠ 0 then number usage "totalTokens"
  else number usage "input" + number usage "output" + number usage "cacheRead" +
    number usage "cacheWrite"

/-- `estimateContextTokens(messages).tokens`: what the last assistant reports, and an
estimate of the messages after it.  The messages come in reverse. -/
def tokensOfReversed : List AgentMessage → ℚ → ℚ
  | [], trailing => trailing
  | message :: earlier, trailing =>
    match getAssistantUsage message with
    | some usage => calculateContextTokens usage + trailing
    | none => tokensOfReversed earlier (estimateTokens numberText message + trailing)

@[inherit_doc tokensOfReversed]
def estimateContextTokens (messages : List AgentMessage) : ℚ :=
  tokensOfReversed numberText messages.reverse 0

end Tokens

/-- The roles at whose messages a branch may be cut. -/
def cutRoles : List JsString :=
  [js "bashExecution", js "custom", js "branchSummary", js "compactionSummary", js "user",
    js "assistant"]

/-- An entry at which a branch may be cut: not a tool result, and not without a message. -/
def isCutPoint (entry : SessionTreeEntry) : Bool :=
  match entry.body with
  | .message message => decide (roleOf message ∈ cutRoles)
  | .branchSummary _ _ _ _ | .customMessage _ _ _ _ => true
  | _ => false

def findValidCutPoints (entries : List SessionTreeEntry) (startIndex endIndex : Nat) :
    List Nat :=
  (List.range' startIndex (endIndex - startIndex)).filter fun i =>
    entries[i]?.any isCutPoint

/-- A user-visible message, which starts a turn. -/
def startsTurn (entry : SessionTreeEntry) : Bool :=
  match entry.body with
  | .message message => roleOf message = js "user" ∨ roleOf message = js "bashExecution"
  | .branchSummary _ _ _ _ | .customMessage _ _ _ _ => true
  | _ => false

/-- `findTurnStartIndex`; there is `none` where the source returns -1. -/
def findTurnStartIndex (entries : List SessionTreeEntry) (startIndex : Nat) : Nat → Option Nat
  | 0 => if startIndex = 0 ∧ entries[0]?.any startsTurn then some 0 else none
  | i + 1 =>
    if i + 1 < startIndex then none
    else if entries[i + 1]?.any startsTurn then some (i + 1)
    else findTurnStartIndex entries startIndex i

structure CutPointResult where
  firstKeptEntryIndex : Nat
  turnStartIndex : Option Nat
  isSplitTurn : Bool
deriving DecidableEq, Repr

/-- The message of an entry of type `message`. -/
def storedMessage (entry : SessionTreeEntry) : Option Json :=
  match entry.body with
  | .message message => some message
  | _ => none

/-- An entry over which the cut does not move back. -/
def stopsWalk (entry : SessionTreeEntry) : Bool :=
  isCompaction entry || (storedMessage entry).isSome

/-- The entry is a message of the user. -/
def isUserMessage (entry : SessionTreeEntry) : Bool :=
  (storedMessage entry).any fun message => decide (roleOf message = js "user")

section Prepare

variable (numberText : ℚ → JsString)

/-- The first loop of `findCutPoint`, from the end: the entry at which the messages kept so
far reach the budget. -/
def reachBudget (entries : List SessionTreeEntry) (startIndex : Nat) (keepRecentTokens : ℚ) :
    Nat → Nat → Option Nat
  | 0, _ => none
  | i + 1, accumulated =>
    if i < startIndex then none
    else
      match entries[i]?.bind storedMessage with
      | none => reachBudget entries startIndex keepRecentTokens i accumulated
      | some message =>
        if keepRecentTokens ≤ (accumulated + estimateStored numberText message : Nat) then
          some i
        else
          reachBudget entries startIndex keepRecentTokens i
            (accumulated + estimateStored numberText message)

/-- The second loop of `findCutPoint`: back over the entries that are no messages. -/
def walkBack (entries : List SessionTreeEntry) (startIndex : Nat) : Nat → Nat
  | 0 => 0
  | c + 1 =>
    if c + 1 ≤ startIndex ∨ entries[c]?.any stopsWalk then c + 1
    else walkBack entries startIndex c

/-- The cut point that `findCutPoint` chooses: the first one at the budget or after it. -/
def chosenCutPoint (cutPoints : List Nat) (first : Nat) : Option Nat → Nat
  | none => first
  | some i => (cutPoints.find? fun c => i ≤ c).getD first

def findCutPoint (entries : List SessionTreeEntry) (startIndex endIndex : Nat)
    (keepRecentTokens : ℚ) : CutPointResult :=
  match findValidCutPoints entries startIndex endIndex with
  | [] => ⟨startIndex, none, false⟩
  | first :: others =>
    let budget := reachBudget numberText entries startIndex keepRecentTokens endIndex 0
    let cutIndex := walkBack entries startIndex (chosenCutPoint (first :: others) first budget)
    let isUser := entries[cutIndex]?.any isUserMessage
    let turnStartIndex :=
      if isUser then none else findTurnStartIndex entries startIndex cutIndex
    { firstKeptEntryIndex := cutIndex
      turnStartIndex := turnStartIndex
      isSplitTurn := !isUser && turnStartIndex.isSome }

/-- `FileOperations`: sets of paths in the order of insertion. -/
structure FileOperations where
  read : List JsString := []
  written : List JsString := []
  edited : List JsString := []
deriving DecidableEq, Repr

/-- `Set.prototype.add`. -/
def addPath (set : List JsString) (path : JsString) : List JsString :=
  if path ∈ set then set else set ++ [path]

/-- The file operation of a tool call. -/
def fileOpOfBlock (fileOps : FileOperations) (block : Json) : FileOperations :=
  if text block "type" ≠ js "toolCall" then fileOps
  else
    let path := text ((block.get (js "arguments")).getD .null) "path"
    if path = [] then fileOps
    else if text block "name" = js "read" then
      { fileOps with read := addPath fileOps.read path }
    else if text block "name" = js "write" then
      { fileOps with written := addPath fileOps.written path }
    else if text block "name" = js "edit" then
      { fileOps with edited := addPath fileOps.edited path }
    else fileOps

def extractFileOpsFromMessage (fileOps : FileOperations) : AgentMessage → FileOperations
  | .stored message =>
    if roleOf message ≠ js "assistant" then fileOps
    else (blocks message).foldl fileOpOfBlock fileOps
  | _ => fileOps

/-- The paths a compaction has recorded in its details. -/
def recordedPaths (details : Option Json) (field : String) : List JsString :=
  ((details.bind fun d => d.arrayField (js field)).getD []).filterMap Json.asString

def extractFileOperations (messages : List AgentMessage) (previous : Option CompactionEntry) :
    FileOperations :=
  let fileOps : FileOperations :=
    match previous with
    | some compaction =>
      if compaction.fromHook then {}
      else
        { read := (recordedPaths compaction.details "readFiles").foldl addPath []
          edited := (recordedPaths compaction.details "modifiedFiles").foldl addPath [] }
    | none => {}
  messages.foldl extractFileOpsFromMessage fileOps

structure CompactionSettings where
  enabled : Bool
  reserveTokens : ℚ
  keepRecentTokens : ℚ
deriving DecidableEq

structure CompactionPreparation where
  firstKeptEntryId : JsString
  messagesToSummarize : List AgentMessage
  turnPrefixMessages : List AgentMessage
  isSplitTurn : Bool
  tokensBefore : ℚ
  previousSummary : Option JsString
  fileOps : FileOperations
  settings : CompactionSettings
deriving DecidableEq

structure CompactionError where
  code : JsString
  message : JsString
deriving DecidableEq, Repr

/-- The error of an entry without an id. -/
def noFirstKeptEntry : CompactionError :=
  ⟨js "invalid_session",
    js "First kept entry has no UUID - session may need migration"⟩

/-- Where the entries begin that are not summarized yet. -/
def boundaryStart (pathEntries : List SessionTreeEntry) : Nat :=
  match lastCompaction pathEntries with
  | none => 0
  | some (prevCompactionIndex, prevCompaction) =>
    (pathEntries.findIdx? fun entry => entry.id = prevCompaction.firstKeptEntryId).getD
      (prevCompactionIndex + 1)

/-- The messages of the entries from one index to another. -/
def messagesBetween (pathEntries : List SessionTreeEntry) (start stop : Nat) :
    List AgentMessage :=
  ((pathEntries.take stop).drop start).filterMap getMessageFromEntryForCompaction

def prepareCompaction (digest : Digest) (pathEntries : List SessionTreeEntry)
    (settings : CompactionSettings) : Except CompactionError (Option CompactionPreparation) :=
  if pathEntries.getLast?.all isCompaction then .ok none
  else
    let previous := (lastCompaction pathEntries).map Prod.snd
    let start := boundaryStart pathEntries
    let cutPoint :=
      findCutPoint numberText pathEntries start pathEntries.length settings.keepRecentTokens
    match pathEntries[cutPoint.firstKeptEntryIndex]? with
    | none => .error noFirstKeptEntry
    | some firstKeptEntry =>
      if firstKeptEntry.id = [] then .error noFirstKeptEntry
      else
        -- there is a turn start exactly when the turn is split
        let historyEnd := cutPoint.turnStartIndex.getD cutPoint.firstKeptEntryIndex
        let messagesToSummarize := messagesBetween pathEntries start historyEnd
        let turnPrefixMessages :=
          if cutPoint.isSplitTurn then
            messagesBetween pathEntries historyEnd cutPoint.firstKeptEntryIndex
          else []
        .ok (some
          { firstKeptEntryId := firstKeptEntry.id
            messagesToSummarize := messagesToSummarize
            turnPrefixMessages := turnPrefixMessages
            isSplitTurn := cutPoint.isSplitTurn
            tokensBefore :=
              estimateContextTokens numberText (buildSessionContext digest pathEntries).messages
            previousSummary := previous.map CompactionEntry.summary
            fileOps :=
              turnPrefixMessages.foldl extractFileOpsFromMessage
                (extractFileOperations messagesToSummarize previous)
            settings := settings })

end Prepare

section Compact

/-- `SUMMARIZATION_PROMPT`. -/
def summarizationPrompt : JsString := js
  "The messages above are a conversation to summarize. Create a structured context checkpoint summary that another LLM will use to continue the work.

Use this EXACT format:

## Goal
[What is the user trying to accomplish? Can be multiple items if the session covers different tasks.]

## Constraints & Preferences
- [Any constraints, preferences, or requirements mentioned by user]
- [Or \"(none)\" if none were mentioned]

## Progress
### Done
- [x] [Completed tasks/changes]

### In Progress
- [ ] [Current work]

### Blocked
- [Issues preventing progress, if any]

## Key Decisions
- **[Decision]**: [Brief rationale]

## Next Steps
1. [Ordered list of what should happen next]

## Critical Context
- [Any data, examples, or references needed to continue]
- [Or \"(none)\" if not applicable]

Keep each section concise. Preserve exact file paths, function names, and error messages."

/-- `UPDATE_SUMMARIZATION_PROMPT`. -/
def updateSummarizationPrompt : JsString := js
  "The messages above are NEW conversation messages to incorporate into the existing summary provided in <previous-summary> tags.

Update the existing structured summary with new information. RULES:
- PRESERVE all existing information from the previous summary
- ADD new progress, decisions, and context from the new messages
- UPDATE the Progress section: move items from \"In Progress\" to \"Done\" when completed
- UPDATE \"Next Steps\" based on what was accomplished
- PRESERVE exact file paths, function names, and error messages
- If something is no longer relevant, you may remove it

Use this EXACT format:

## Goal
[Preserve existing goals, add new ones if the task expanded]

## Constraints & Preferences
- [Preserve existing, add new ones discovered]

## Progress
### Done
- [x] [Include previously done items AND newly completed items]

### In Progress
- [ ] [Current work - update based on progress]

### Blocked
- [Current blockers - remove if resolved]

## Key Decisions
- **[Decision]**: [Brief rationale] (preserve all previous, add new)

## Next Steps
1. [Update based on current state]

## Critical Context
- [Preserve important context, add new if needed]

Keep each section concise. Preserve exact file paths, function names, and error messages."

/-- `TURN_PREFIX_SUMMARIZATION_PROMPT`. -/
def turnPrefixSummarizationPrompt : JsString := js
  "This is the PREFIX of a turn that was too large to keep. The SUFFIX (recent work) is retained.

Summarize the prefix to provide context for the retained suffix:

## Original Request
[What did the user ask for in this turn?]

## Early Progress
- [Key decisions and work done in the prefix]

## Context for Suffix
- [Information needed to understand the retained recent work]

Be concise. Focus on what's needed to understand the kept suffix."

/-- A call of `generateSummary` or of `generateTurnPrefixSummary`, with what it tells the
model. -/
inductive SummaryRequest
  | generateSummary (currentMessages : List AgentMessage) (reserveTokens : ℚ)
      (customInstructions previousSummary : Option JsString)
  | generateTurnPrefixSummary (messages : List AgentMessage) (reserveTokens : ℚ)
deriving DecidableEq

/-- The summary that a request hands on. -/
def SummaryRequest.previousSummary : SummaryRequest → Option JsString
  | .generateSummary _ _ _ previousSummary => previousSummary
  | .generateTurnPrefixSummary _ _ => none

/-- A string that is there and not empty. -/
def nonempty (value : Option JsString) : Option JsString := value.filter fun s => s ≠ []

/-- The `promptText` of a request.  How the messages of a conversation are serialized is a
parameter. -/
def SummaryRequest.promptText (conversationText : List AgentMessage → JsString) :
    SummaryRequest → JsString
  | .generateSummary currentMessages _ customInstructions previousSummary =>
    let basePrompt :=
      (if (nonempty previousSummary).isSome then updateSummarizationPrompt
        else summarizationPrompt) ++
      match nonempty customInstructions with
      | some instructions => js "\n\nAdditional focus: " ++ instructions
      | none => []
    js "<conversation>\n" ++ conversationText currentMessages ++
      js "\n</conversation>\n\n" ++
      (match nonempty previousSummary with
      | some summary =>
        js "<previous-summary>\n" ++ summary ++ js "\n</previous-summary>\n\n"
      | none => []) ++
      basePrompt
  | .generateTurnPrefixSummary messages _ =>
    js "<conversation>\n" ++ conversationText messages ++ js "\n</conversation>\n\n" ++
      turnPrefixSummarizationPrompt

/-- `computeFileLists`: the files that were only read, and those that were modified. -/
def computeFileLists (fileOps : FileOperations) : List JsString × List JsString :=
  let modified := (fileOps.edited ++ fileOps.written).foldl addPath []
  ((fileOps.read.filter fun f => f ∉ modified).mergeSort Json.codeUnitsLE,
    modified.mergeSort Json.codeUnitsLE)

/-- A list of files between tags. -/
def fileSection (tag : String) (files : List JsString) : List JsString :=
  if files = [] then []
  else
    [js ("<" ++ tag ++ ">\n") ++ (js "\n").intercalate files ++ js ("\n</" ++ tag ++ ">")]

def formatFileOperations (readFiles modifiedFiles : List JsString) : JsString :=
  let sections := fileSection "read-files" readFiles ++ fileSection "modified-files" modifiedFiles
  if sections = [] then [] else js "\n\n" ++ (js "\n\n").intercalate sections

/-- `CompactionResult`; the details are the two file lists. -/
structure CompactionResult where
  summary : JsString
  firstKeptEntryId : JsString
  tokensBefore : ℚ
  details : List JsString × List JsString
deriving DecidableEq

/-- The requests that `compact` makes, and what it returns. -/
structure Compacted where
  requests : List SummaryRequest
  result : Except CompactionError CompactionResult

/-- The two summaries of a compaction that splits a turn. -/
def joinSummaries (history turnPrefix : JsString) : JsString :=
  history ++ js "\n\n---\n\n**Turn Context (split turn):**\n\n" ++ turnPrefix

/-- `compact`, where `complete` answers the requests. -/
def compact (complete : SummaryRequest → Except CompactionError JsString)
    (preparation : CompactionPreparation) (customInstructions : Option JsString) : Compacted :=
  let history := SummaryRequest.generateSummary preparation.messagesToSummarize
    preparation.settings.reserveTokens customInstructions preparation.previousSummary
  let finish (summary : JsString) : CompactionResult :=
    let details := computeFileLists preparation.fileOps
    { summary := summary ++ formatFileOperations details.1 details.2
      firstKeptEntryId := preparation.firstKeptEntryId
      tokensBefore := preparation.tokensBefore
      details := details }
  if preparation.firstKeptEntryId = [] then ⟨[], .error noFirstKeptEntry⟩
  else if preparation.isSplitTurn && decide (preparation.turnPrefixMessages ≠ []) then
    let turn := SummaryRequest.generateTurnPrefixSummary preparation.turnPrefixMessages
      preparation.settings.reserveTokens
    if preparation.messagesToSummarize ≠ [] then
      { requests := [history, turn]
        result := do
          let historySummary ← complete history
          let turnSummary ← complete turn
          return finish (joinSummaries historySummary turnSummary) }
    else
      { requests := [turn]
        result := do
          let turnSummary ← complete turn
          return finish (joinSummaries (js "No prior history.") turnSummary) }
  else
    { requests := [history]
      result := do
        let summary ← complete history
        return finish summary }

end Compact

end Compaction
