import OrcState.Cursor.Offsets
import OrcState.Foundation.Transition

/-!
# The event stream of the control server

A subscriber of the stream is served from a cursor of its own.  `pump` reads
batches behind the cursor and writes one frame for each row; a write that the
socket refuses leaves it waiting for `drain`.  It is called at the subscription,
by a timer and on `drain`, and runs to its end each time, while other processes
append to the log.
-/

namespace OrcState.Control

open OrcState.Contract OrcState.Cursor OrcState.Foundation

def STREAM_BATCH_SIZE : Nat := 500

inductive StreamFrame where
  | event (row : EventBatchRow)
  | heartbeat (cursor : Nat)
  deriving DecidableEq, Repr

/-- Where `pump` is; `full` says that the batch was not short of its limit. -/
inductive Pump where
  | idle
  | reading
  | writing (rest : List EventBatchRow) (full : Bool)
  deriving DecidableEq, Repr

structure Stream where
  log : EventLog
  after : Nat
  cursor : Nat
  draining : Bool
  destroyed : Bool
  lastWrite : Int
  frames : List StreamFrame
  pump : Pump
  deriving DecidableEq, Repr

def Stream.write (s : Stream) (frame : StreamFrame) (now : Int) : Stream :=
  { s with frames := s.frames ++ [frame], lastWrite := now }

/-- `stream(res, after)`: a heartbeat, then the first `pump`. -/
def subscribe (log : EventLog) (after : Nat) (now : Int) : Stream where
  log := log
  after := after
  cursor := after
  draining := false
  destroyed := false
  lastWrite := now
  frames := [.heartbeat after]
  pump := .reading

def Stream.startPump (s : Stream) : Stream :=
  if s.draining || s.destroyed then s else { s with pump := .reading }

inductive StreamLabel where
  | append (row : EventRow)
  | timer
  | drain
  | read
  | fail
  | write (accepted : Bool) (now : Int)
  | finish (now : Int)
  | close
  deriving DecidableEq, Repr

variable (dates : DateApi) (heartbeatMs : Int)

def Stream.read (s : Stream) : Stream :=
  let rows := readEventBatch dates s.log s.cursor STREAM_BATCH_SIZE
  { s with pump := .writing rows (STREAM_BATCH_SIZE ≤ rows.length) }

def Stream.writeRow (s : Stream) (row : EventBatchRow)
    (rest : List EventBatchRow) (full accepted : Bool) (now : Int) : Stream :=
  let written := ({ s with cursor := row.seq }).write (.event row) now
  if accepted then { written with pump := .writing rest full }
  else { written with draining := true, pump := .idle }

def Stream.finish (s : Stream) (now : Int) : Stream :=
  if heartbeatMs ≤ now - s.lastWrite then
    { s.write (.heartbeat s.cursor) now with pump := .idle }
  else { s with pump := .idle }

def streamStep (s : Stream) : StreamLabel → Option Stream
  | .append row => (s.log.append? row).map fun log => { s with log := log }
  | .timer => if s.pump = .idle then some s.startPump else none
  | .drain =>
      if s.pump = .idle ∧ s.draining = true then
        some ({ s with draining := false }).startPump
      else none
  | .read => if s.pump = .reading then some (s.read dates) else none
  | .fail =>
      if s.pump = .reading then
        some { s with destroyed := true, pump := .idle }
      else none
  | .write accepted now =>
      match s.pump with
      | .writing (row :: rest) full =>
          some (s.writeRow row rest full accepted now)
      | _ => none
  | .finish now =>
      match s.pump with
      | .writing [] true => some { s with pump := .reading }
      | .writing [] false => some (s.finish heartbeatMs now)
      | _ => none
  | .close => if s.pump = .idle then some { s with destroyed := true } else none

def eventStream : System Stream StreamLabel where
  initial s := ∃ log after now, s = subscribe log after now
  step := streamStep dates heartbeatMs

/-! ## What was written -/

def Stream.eventFrames (s : Stream) : List EventBatchRow :=
  s.frames.filterMap fun frame =>
    match frame with
    | .event row => some row
    | .heartbeat _ => none

def rowsBetween (log : EventLog) (after cursor : Nat) : List EventBatchRow :=
  (log.rows.filter fun row => after < row.seq ∧ row.seq ≤ cursor).map
    (readRow dates)

def Skipped (row : EventRow) : Prop :=
  ∀ stored ∈ row.payload, validateEventObject dates stored.event ≠ [] ∨
    stored.eventId = some "" ∨ stored.event.seq ≠ row.seq

/-- Rows that the subscriber has yet to be told of. -/
def unread (log : EventLog) (cursor : Nat) : Nat :=
  (log.rows.filter fun row => cursor < row.seq).length

/-! ## Steps of one `pump` -/

def StreamLabel.isPump : StreamLabel → Bool
  | .read | .write _ _ | .finish _ => true
  | _ => false

def StreamLabel.isAppend : StreamLabel → Bool
  | .append _ => true
  | _ => false

def StreamLabel.flows : StreamLabel → Bool
  | .append _ | .read | .write true _ | .finish _ => true
  | _ => false

end OrcState.Control
