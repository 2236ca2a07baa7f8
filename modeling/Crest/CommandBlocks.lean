import Crest.OscParser

/-!
# The command blocks of a terminal

Each prompt of a terminal, with the command that is entered there, is a row of the table
`db_cmdblock`.  A tracker is fed the terminal's output and moves the rows as the shell's
sequences come by: `A` begins a row, `C` submits its command, `D` finishes it.  Direct
commands enter and finish rows without a shell.

A tracker works under its mutex, but `StartDirectCommand` and `FinishRunningCommand` let
go of it around their database calls.  So each of them is a call that is taken up several
times, and other calls may come in between.  The table outlives the trackers; a restart of
the shell builds a new one.
-/

namespace CommandBlocks

inductive BlockState where
  | prompt
  | running
  | done
deriving DecidableEq

/-- The place of a state in the life of a row. -/
def BlockState.rank : BlockState → Nat
  | .prompt => 0
  | .running => 1
  | .done => 2

/-- A row of the table. -/
structure CmdBlock where
  oid : Nat
  blockID : String
  seq : Nat
  state : BlockState
  cmd : Option String
  cwd : Option String
  shellType : Option String
  exitCode : Option Int
  promptOffset : Nat
  cmdOffset : Option Nat
  outputStartOffset : Option Nat
  outputEndOffset : Option Nat
  /-- History: the tracker that made the row. -/
  tracker : Nat
deriving DecidableEq

/-- What an empty string stands for in the table. -/
def nonempty (s : String) : Option String := if s = "" then none else some s

/-- A call that is under way, behind one of its database calls or before it. -/
inductive Call where
  /-- `StartDirectCommand` has read the length of the stream. -/
  | starting (cmd cwd shellType : String) (outputStart : Nat)
  /-- `StartDirectCommand` has inserted the row. -/
  | started (oid : Nat) (shellType : String)
  /-- `FinishRunningCommand` has read the current row and the length of the stream. -/
  | finishing (oid : Nat) (exitCode : Int) (outputEnd : Nat)
  /-- `FinishRunningCommand` has updated the row. -/
  | finished (oid : Nat)
deriving DecidableEq

structure Tracker where
  blockID : String
  parser : OscParser.Parser
  /-- The current row; `none` stands for the empty id. -/
  currentOID : Option Nat
  state : Option BlockState
  shellType : String
  calls : List Call
deriving DecidableEq

/-- The table, the trackers that were made so far, and `trackerRegistry`. -/
structure State where
  rows : List CmdBlock
  nextOID : Nat
  trackers : List Tracker
  byBlock : String → Option Nat
  /-- The blocks for which `MakeTracker` has marked the rows and not yet registered the
  new tracker. -/
  making : List String

def init : State := ⟨[], 0, [], fun _ => none, []⟩

/-- How the payloads that are not empty are decoded. -/
structure Decoders where
  cmd : List UInt8 → String × String
  exitCode : List UInt8 → Int
  shell : List UInt8 → String

section Store

/-- The next number of a row of the block. -/
def nextSeq (rows : List CmdBlock) (blockID : String) : Nat :=
  ((rows.filter fun r => r.blockID = blockID).map CmdBlock.seq).foldl max 0 + 1

/-- The row that `MakePromptStarted` inserts. -/
def MakePromptStarted (rows : List CmdBlock) (oid : Nat) (blockID : String)
    (promptOffset : Nat) (shellType : String) (tracker : Nat) : CmdBlock where
  oid := oid
  blockID := blockID
  seq := nextSeq rows blockID
  state := .prompt
  cmd := none
  cwd := none
  shellType := nonempty shellType
  exitCode := none
  promptOffset := promptOffset
  cmdOffset := none
  outputStartOffset := none
  outputEndOffset := none
  tracker := tracker

/-- The row that `MakeDirectCommandStarted` inserts. -/
def MakeDirectCommandStarted (rows : List CmdBlock) (oid : Nat) (blockID : String)
    (cmd cwd : String) (outputStartOffset : Nat) (shellType : String) (tracker : Nat) :
    CmdBlock where
  oid := oid
  blockID := blockID
  seq := nextSeq rows blockID
  state := .running
  cmd := some cmd
  cwd := nonempty cwd
  shellType := nonempty shellType
  exitCode := none
  promptOffset := outputStartOffset
  cmdOffset := none
  outputStartOffset := some outputStartOffset
  outputEndOffset := none
  tracker := tracker

/-- A change of the row with an id. -/
def updateRow (oid : Nat) (f : CmdBlock → CmdBlock) (rows : List CmdBlock) : List CmdBlock :=
  rows.map fun r => if r.oid = oid then f r else r

/-- What `MarkCommandSubmitted` sets. -/
def CmdBlock.submitted (cmd cwd : String) (cmdOffset outputStart : Nat) (r : CmdBlock) :
    CmdBlock :=
  { r with
    state := .running
    cmd := some cmd
    cwd := nonempty cwd
    cmdOffset := some cmdOffset
    outputStartOffset := some outputStart }

/-- What `MarkCommandDone` sets. -/
def CmdBlock.finished (exitCode : Int) (outputEnd : Nat) (r : CmdBlock) : CmdBlock :=
  { r with
    state := .done
    exitCode := some exitCode
    outputEndOffset := some outputEnd }

/-- What `MarkRunningAsInterrupted` sets. -/
def CmdBlock.interrupted (r : CmdBlock) : CmdBlock :=
  { r with state := .done, exitCode := some (-2) }

/-- `MarkCommandSubmitted`; `none` is `ErrNotFound`. -/
def MarkCommandSubmitted (oid : Nat) (cmd cwd : String) (cmdOffset outputStart : Nat)
    (rows : List CmdBlock) : Option (List CmdBlock) :=
  match rows.find? fun r => r.oid = oid with
  | none => none
  | some _ => some (updateRow oid (CmdBlock.submitted cmd cwd cmdOffset outputStart) rows)

/-- `MarkCommandDone`: a row that is still a prompt is deleted. -/
def MarkCommandDone (oid : Nat) (exitCode : Int) (outputEnd : Nat) (rows : List CmdBlock) :
    Option (List CmdBlock) :=
  match rows.find? fun r => r.oid = oid with
  | none => none
  | some cb =>
    if cb.state = .prompt then some (rows.filter fun r => r.oid ≠ oid)
    else some (updateRow oid (CmdBlock.finished exitCode outputEnd) rows)

def MarkRunningAsInterrupted (blockID : String) (rows : List CmdBlock) : List CmdBlock :=
  rows.map fun r =>
    if r.blockID = blockID ∧ r.state = .running then r.interrupted else r

end Store

section Tracking

variable (d : Decoders)

def decodeCmdPayload (payload : List UInt8) : String × String :=
  if payload = [] then ("", "") else d.cmd payload

def decodeExitCode (payload : List UInt8) : Int :=
  if payload = [] then -1 else d.exitCode payload

def decodeShell (payload : List UInt8) : String :=
  if payload = [] then "" else d.shell payload

/-- The commands that the tracker handles. -/
def cmdA : List UInt8 := [0x41]
def cmdC : List UInt8 := [0x43]
def cmdD : List UInt8 := [0x44]
def cmdM : List UInt8 := [0x4d]

/-- A tracker that has changed. -/
def State.setTracker (s : State) (t : Nat) (tr : Tracker) : State :=
  { s with trackers := s.trackers.set t tr }

/-- `handleEvent`, with the tracker's mutex held. -/
def handleEvent (t : Nat) (tr : Tracker) (s : State) (ev : OscParser.Event) :
    Tracker × State :=
  if ev.command = cmdA then
    ({ tr with currentOID := some s.nextOID, state := some .prompt },
      { s with
        rows := s.rows ++
          [MakePromptStarted s.rows s.nextOID tr.blockID ev.offset tr.shellType t]
        nextOID := s.nextOID + 1 })
  else if ev.command = cmdC then
    match tr.currentOID with
    | none => (tr, s)
    | some oid =>
      let payload := decodeCmdPayload d ev.payload
      match MarkCommandSubmitted oid payload.1 payload.2 ev.offset ev.stop s.rows with
      | none => (tr, s)
      | some rows => ({ tr with state := some .running }, { s with rows := rows })
  else if ev.command = cmdD then
    match tr.currentOID with
    | none => (tr, s)
    | some oid =>
      let rows := (MarkCommandDone oid (decodeExitCode d ev.payload) ev.offset s.rows).getD
        s.rows
      ({ tr with currentOID := none, state := none }, { s with rows := rows })
  else if ev.command = cmdM then
    let shell := decodeShell d ev.payload
    (if shell = "" then tr else { tr with shellType := shell }, s)
  else (tr, s)

/-- The events of a chunk, one after the other. -/
def handleEvents (t : Nat) : Tracker → State → List OscParser.Event → Tracker × State
  | tr, s, [] => (tr, s)
  | tr, s, ev :: rest =>
    handleEvents t (handleEvent d t tr s ev).1 (handleEvent d t tr s ev).2 rest

/-- What can happen. -/
inductive Event where
  | onBytes (t : Nat) (chunk : List UInt8)
  | startDirectCommand (t : Nat) (cmd cwd shellType : String)
  | finishRunningCommand (t : Nat) (exitCode : Int)
  /-- A call under way is taken up again. -/
  | resume (t : Nat) (i : Nat)
  | makeTracker (blockID : String)
  /-- `MakeTracker` registers the tracker. -/
  | register (i : Nat)
deriving DecidableEq

/-- The next part of a call that is under way, which leaves the list of calls. -/
def resumeCall (t : Nat) (tr : Tracker) (s : State) (i : Nat) : Call → Tracker × State
  | .starting cmd cwd shellType outputStart =>
    ({ tr with calls := tr.calls.set i (.started s.nextOID shellType) },
      { s with
        rows := s.rows ++ [MakeDirectCommandStarted s.rows s.nextOID tr.blockID cmd cwd
          outputStart shellType t]
        nextOID := s.nextOID + 1 })
  | .started oid shellType =>
    ({ tr with
        currentOID := some oid
        state := some .running
        shellType := if shellType = "" then tr.shellType else shellType
        calls := tr.calls.eraseIdx i }, s)
  | .finishing oid exitCode outputEnd =>
    match MarkCommandDone oid exitCode outputEnd s.rows with
    | none => ({ tr with calls := tr.calls.eraseIdx i }, s)
    | some rows =>
      ({ tr with calls := tr.calls.set i (.finished oid) }, { s with rows := rows })
  | .finished oid =>
    (if tr.currentOID = some oid then
      { tr with currentOID := none, state := none, calls := tr.calls.eraseIdx i }
    else { tr with calls := tr.calls.eraseIdx i }, s)

/-- What a step of a tracker's own comes to. -/
def State.install (t : Nat) (result : Tracker × State) : State :=
  result.2.setTracker t result.1

def step (s : State) : Event → State
  | .onBytes t chunk =>
    match s.trackers[t]? with
    | none => s
    | some tr =>
      State.install t (handleEvents d t { tr with parser := (tr.parser.Feed chunk).2 } s
        (tr.parser.Feed chunk).1)
  | .startDirectCommand t cmd cwd shellType =>
    match s.trackers[t]? with
    | none => s
    | some tr =>
      s.setTracker t { tr with
        calls := tr.calls ++ [.starting cmd cwd shellType tr.parser.Offset] }
  | .finishRunningCommand t exitCode =>
    match s.trackers[t]? with
    | none => s
    | some tr =>
      match tr.currentOID with
      | none => s
      | some oid =>
        s.setTracker t { tr with
          calls := tr.calls ++ [.finishing oid exitCode tr.parser.Offset] }
  | .resume t i =>
    match s.trackers[t]? with
    | none => s
    | some tr =>
      match tr.calls[i]? with
      | none => s
      | some call => State.install t (resumeCall t tr s i call)
  | .makeTracker blockID =>
    { s with
      rows := MarkRunningAsInterrupted blockID s.rows
      making := s.making ++ [blockID] }
  | .register i =>
    match s.making[i]? with
    | none => s
    | some blockID =>
      { s with
        trackers := s.trackers ++ [⟨blockID, OscParser.MakeParser, none, none, "", []⟩]
        byBlock := fun b => if b = blockID then some s.trackers.length else s.byBlock b
        making := s.making.eraseIdx i }

end Tracking

end CommandBlocks
