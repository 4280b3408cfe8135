import OrcState.Cursor.Offsets
import OrcState.Foundation.Sweep
import OrcState.Foundation.Transition

/-!
# The coordinator's event loop

`processEventCheckpoint` and the cursor part of `processTerminalRunEvents`, one
database statement a step.  What the handling of an event does is left open: it
begins, and then it completes, throws or is cut off by a crash.  Other parties
append events, initialize the offset and reset it at any time.

`begun` and `completed` are history: every handling that began, and every one
that ran to its end.  `pass` holds the handlings begun since the last reset; a
tick under way when the reset happens, marked by `replaying`, ends in the old
pass.
-/

namespace OrcState.Cursor

open OrcState.Contract OrcState.Foundation

/-! ## Places -/

inductive Pc where
  | down
  | idle
  | read (cursor : Nat)
  | loop (rest : List EventBatchRow)
  | check (stored : StoredEvent) (rest : List EventBatchRow)
  | dedupe (stored : StoredEvent) (rest : List EventBatchRow)
  | handling (stored : StoredEvent) (rest : List EventBatchRow)
  | advance (seq : Nat) (rest : List EventBatchRow)
  | swap (current seq : Nat) (rest : List EventBatchRow)
  deriving DecidableEq, Repr

def Pc.midTick : Pc → Bool
  | .down | .idle => false
  | _ => true

structure State where
  log : EventLog
  offset : Option Nat := none
  wasReset : Bool := false
  pc : Pc := .down
  begun : List Nat := []
  completed : List Nat := []
  pass : List Nat := []
  replaying : Bool := false
  deriving DecidableEq

/-- The tick is over; after a reset a new pass begins. -/
def State.leave (s : State) (pc : Pc) : State :=
  { s with
    pc := pc
    pass := if s.replaying then [] else s.pass
    replaying := false }

def State.resetTo (s : State) (seq : Nat) : State :=
  { s with
    offset := some seq
    wasReset := true
    pass := if s.pc.midTick then s.pass else []
    replaying := s.pc.midTick }

def State.setLog (s : State) (log : EventLog) : State := { s with log := log }

def State.beginHandling (s : State) (stored : StoredEvent)
    (rest : List EventBatchRow) : State :=
  { s with
    pc := .handling stored rest
    begun := s.begun ++ [stored.event.seq]
    pass := s.pass ++ [stored.event.seq] }

inductive Action where
  | start
  | crash
  | run
  | complete
  | throw
  | initOffset
  | reset (seq : Nat)
  | append (row : EventRow)
  deriving DecidableEq, Repr

variable (dates : DateApi) (legacy : LegacyFile)

/-! ## Steps -/

def openTick (s : State) : State :=
  match initializeEventOffset legacy s.log s.offset with
  | .error _ => s
  | .ok cursor =>
      if legacy = .invalid then { s with offset := some cursor }
      else { s with offset := some cursor, pc := .read cursor }

def runStep (s : State) : Option State :=
  match s.pc with
  | .down | .handling _ _ => none
  | .idle => some (openTick legacy s)
  | .read cursor =>
      some { s with
        pc := .loop (readEventBatch dates s.log cursor EVENT_BATCH_SIZE) }
  | .loop [] => some (s.leave .idle)
  | .loop (row :: rest) =>
      match row.event with
      | some stored => some { s with pc := .check stored rest }
      | none => some { s with pc := .advance row.seq rest }
  | .check stored rest =>
      if stored.event.seq ≤ readEventOffset s.offset then
        some { s with pc := .advance stored.event.seq rest }
      else some { s with pc := .dedupe stored rest }
  | .dedupe stored rest =>
      if legacyHas legacy stored stored.event.seq && !s.wasReset then
        some { s with pc := .advance stored.event.seq rest }
      else some (s.beginHandling stored rest)
  | .advance seq rest =>
      if readEventOffset s.offset < seq then
        some { s with pc := .swap (readEventOffset s.offset) seq rest }
      else some { s with pc := .loop rest }
  | .swap current seq rest =>
      match advanceEventOffset s.offset current seq with
      | .error _ => some (s.leave .idle)
      | .ok next => some { s with offset := some next, pc := .loop rest }

def step (s : State) : Action → Option State
  | .start => if s.pc = .down then some { s with pc := .idle } else none
  | .crash => if s.pc = .down then none else some (s.leave .down)
  | .run => runStep dates legacy s
  | .complete =>
      match s.pc with
      | .handling stored rest =>
          some { s with
            pc := .advance stored.event.seq rest
            completed := s.completed ++ [stored.event.seq] }
      | _ => none
  | .throw => if s.pc.midTick then some (s.leave .idle) else none
  | .initOffset =>
      match initializeEventOffset legacy s.log s.offset with
      | .error _ => none
      | .ok cursor => some { s with offset := some cursor }
  | .reset seq =>
      match resetEventOffset s.offset seq with
      | .error _ => none
      | .ok next => some (s.resetTo next)
  | .append row => (s.log.append? row).map s.setLog

def eventLoop : System State Action where
  initial s :=
    s.offset = none ∧ s.wasReset = false ∧ s.pc = .down ∧ s.begun = [] ∧
      s.completed = [] ∧ s.pass = [] ∧ s.replaying = false
  step := step dates legacy

/-! ## The invariant -/

/-- A valid row with this number has been handled or is in the legacy set. -/
def Done (s : State) (seq : Nat) : Prop :=
  ∀ row ∈ s.log.rows, row.seq = seq → ValidRow dates row →
    seq ∈ s.completed ∨ LegacyProcessed dates legacy row

/-- A batch in hand: no gap behind it, and nothing begun beyond it. -/
structure InBatch (s : State) (pending : List Nat) : Prop where
  done : Sweep s.log.seqs (Done dates legacy s) pending
  stored : s.replaying = false →
    Sweep s.log.seqs (· ≤ readEventOffset s.offset) pending
  begun : ∀ k ∈ s.pass, ∀ b ∈ pending, k ≤ b

def FromLog (s : State) (rest : List EventBatchRow) : Prop :=
  ∀ b ∈ rest, ∃ row ∈ s.log.rows, readRow dates row = b

def StoredRow (s : State) (stored : StoredEvent) : Prop :=
  ∃ row ∈ s.log.rows, (readRow dates row).event = some stored

abbrev seqsOf (rest : List EventBatchRow) : List Nat :=
  rest.map EventBatchRow.seq

def Place (s : State) : Prop :=
  match s.pc with
  | .down | .idle => s.replaying = false
  | .read cursor =>
      (∀ k ∈ s.log.seqs, k ≤ cursor → Done dates legacy s k) ∧
        (cursor = 0 ∨ ∃ k ∈ s.log.seqs, cursor ≤ k) ∧
        (s.replaying = false → readEventOffset s.offset = cursor) ∧
        ∀ k ∈ s.pass, ∀ n ∈ s.log.seqs, cursor < n → k ≤ n
  | .loop rest => InBatch dates legacy s (seqsOf rest) ∧ FromLog dates s rest
  | .check stored rest | .handling stored rest =>
      InBatch dates legacy s (stored.event.seq :: seqsOf rest) ∧
        FromLog dates s rest ∧ StoredRow dates s stored
  | .dedupe stored rest =>
      InBatch dates legacy s (stored.event.seq :: seqsOf rest) ∧
        FromLog dates s rest ∧ StoredRow dates s stored ∧
        readEventOffset s.offset < stored.event.seq
  | .advance seq rest =>
      InBatch dates legacy s (seq :: seqsOf rest) ∧ FromLog dates s rest ∧
        Done dates legacy s seq
  | .swap current seq rest =>
      InBatch dates legacy s (seq :: seqsOf rest) ∧ FromLog dates s rest ∧
        Done dates legacy s seq ∧ current < seq

structure Inv (s : State) : Prop where
  logged : readEventOffset s.offset = 0 ∨
    ∃ k ∈ s.log.seqs, readEventOffset s.offset ≤ k
  covered : ∀ k ∈ s.log.seqs, k ≤ readEventOffset s.offset →
    Done dates legacy s k
  passLogged : ∀ k ∈ s.pass, k ∈ s.log.seqs
  passSorted : s.pass.Pairwise (· ≤ ·)
  /-- What the offset leaves to do lies at or past everything begun. -/
  passAhead : s.replaying = false → ∀ k ∈ s.pass, ∀ n ∈ s.log.seqs,
    readEventOffset s.offset < n → k ≤ n
  initialized : s.pc.midTick = true → s.offset.isSome = true
  place : Place dates legacy s

end OrcState.Cursor
