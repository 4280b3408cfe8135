import OrcState.Store.EventsDb
import Mathlib.Algebra.Ring.Int.Defs

/-!
# Durable command delivery

The operations on the `commands` table, each one transaction on `events.db`.
`now` is the reading of the clock and `commandId` the identifier that
`randomUUID` gave; both are arguments.  A throw anywhere, a refused event
included, leaves the database as it was.
-/

namespace OrcState.Command

open OrcState.Contract OrcState.Foundation OrcState.Store

variable (dates : DateApi) (now : Int)

/-! ## Rows -/

def row (commandId : String) : Db DurableCommand := do
  let db ← get
  Txn.orThrow (db.commands.find? commandId)
    (notFoundError "Command not found")

def runRow (runId : RunId) : Db Claim := do
  let db ← get
  Txn.orThrow (db.runs.find? runId) (notFoundError "Run not found")

def session (sessionId : String) : Db Session := do
  let db ← get
  Txn.orThrow
    ((db.sessions.find? sessionId).filter fun s => s.state = .running)
    (forbiddenError "Authenticated session is not running")

def sessionOf (sessionId : Option String) : Db Session :=
  match sessionId with
  | some id => session id
  | none =>
      throw (forbiddenError "Authenticated session is not running")

def event (command : DurableCommand) (name : EventName)
    (reason : Option String) : Db Unit := do
  let owner ← runRow command.runId
  appendSequencedEvent dates
    { ts := dates.toISOString now
      event := name
      actorType := .coordinator
      actorId := "coordinator"
      runId := some command.runId
      taskRef := some owner.taskRef
      agentId := some command.recipientId
      payload :=
        [("command_id", .str command.commandId),
         ("state", .str command.state.text),
         ("attempt_count", .num command.attemptCount)] ++
        (match reason with
          | some r => if r = "" then [] else [("reason", .str r)]
          | none => []) }

/--
`UPDATE commands SET … WHERE command_id = ?`, read the row back, log it: the
three statements every operation ends with.  The update keeps the key.
-/
def updateRow (commandId : String) (f : DurableCommand → DurableCommand)
    (hf : ∀ c, (f c).commandId = c.commandId) (name : EventName)
    (reason : Option String) : Db DurableCommand := do
  modify fun db => { db with commands := db.commands.update commandId f hf }
  let updated ← row commandId
  event dates now updated name reason
  return updated

def transition (command : DurableCommand) (state : CommandState)
    (name : EventName) (reason : Option String) : Db DurableCommand :=
  updateRow dates now command.commandId
    (fun c =>
      { c with
        state := state
        lastError := reason
        terminalAt :=
          if state.terminal || state = .outcomeUnknown then
            some (dates.toISOString now)
          else none })
    (fun _ => rfl) name reason

/-! ## Enqueue -/

structure CommandPrincipal where
  agentId : AgentId
  sessionId : String
  deriving DecidableEq, Repr

inductive Caller where
  | coordinator
  | principal (p : CommandPrincipal)
  deriving DecidableEq, Repr

/-- A number of a request: an integer, or one `Number.isInteger` refuses. -/
inductive RequestNumber where
  | integer (n : Int)
  | fractional
  deriving DecidableEq, Repr

structure EnqueueCommand where
  runId : RunId
  recipientSessionId : String
  idempotencyKey : String
  kind : String
  payload : Option String
  sideEffecting : Option Bool := none
  maxAttempts : Option RequestNumber := none
  deadlineAt : Option String := none
  deriving DecidableEq, Repr

/-- `input.maxAttempts ?? 3`, when it is a positive integer. -/
def EnqueueCommand.attempts (input : EnqueueCommand) : Option Int :=
  match input.maxAttempts.getD (.integer 3) with
  | .integer n => if n < 1 then none else some n
  | .fractional => none

def actorOf (caller : Caller) (input : EnqueueCommand) (owner : Claim) :
    Db (Option String × AgentId) :=
  match caller with
  | .coordinator => pure (none, "coordinator")
  | .principal p => do
      let actor ← session p.sessionId
      Txn.throwIf (actor.agentId ≠ p.agentId)
        (forbiddenError "Authenticated actor does not match session")
      Txn.throwIf (actor.agentId ≠ "master" ∧
          (actor.agentId ≠ owner.agentId ∨ actor.runId ≠ some input.runId))
        (forbiddenError "Actor is not scoped to the run")
      return (some actor.sessionId, actor.agentId)

def queuedCommand (commandId : String) (input : EnqueueCommand)
    (payload : String) (maxAttempts : Int) (actor : Option String × AgentId)
    (recipient : Session) : DurableCommand where
  commandId := commandId
  runId := input.runId
  sessionId := some recipient.sessionId
  actorSessionId := actor.1
  actorId := actor.2
  recipientId := recipient.agentId
  idempotencyKey := input.idempotencyKey
  kind := input.kind
  payload := payload
  state := .queued
  sideEffecting := input.sideEffecting ≠ some false
  attemptCount := 0
  maxAttempts := maxAttempts
  nextAttemptAt := none
  deadlineAt := input.deadlineAt
  dispatchStartedAt := none
  sendStartedAt := none
  createdAt := dates.toISOString now
  deliveredAt := none
  acknowledgedAt := none
  terminalAt := none
  lastError := none

def sameRequest (existing fresh : DurableCommand) : Bool :=
  existing.actorSessionId = fresh.actorSessionId &&
  existing.sessionId = fresh.sessionId &&
  existing.kind = fresh.kind &&
  existing.payload = fresh.payload &&
  existing.sideEffecting = fresh.sideEffecting &&
  existing.maxAttempts = fresh.maxAttempts &&
  existing.deadlineAt = fresh.deadlineAt

def insertCommand (command : DurableCommand) : Db DurableCommand := do
  let db ← get
  let commands ← Txn.orThrow (db.commands.insert? command)
    (plainError "UNIQUE constraint failed: commands.command_id")
  set { db with commands := commands }
  let inserted ← row command.commandId
  event dates now inserted .commandQueued none
  return inserted

def enqueueCommand (commandId : String) (caller : Caller)
    (input : EnqueueCommand) : Db DurableCommand := do
  Txn.throwIf (input.idempotencyKey = "" ∨ input.kind = "")
    (inputError "Command key and kind are required")
  let maxAttempts ← Txn.orThrow input.attempts
    (inputError "maxAttempts must be positive")
  Txn.throwIf (truthy input.deadlineAt ∧
      (input.deadlineAt.bind dates.parse).isNone)
    (inputError "Invalid deadline")
  let payload ← Txn.orThrow input.payload
    (inputError "Payload must be JSON serializable")
  let owner ← runRow input.runId
  Txn.throwIf (owner.active = false) (conflictError "Run is not active")
  let actor ← actorOf caller input owner
  let recipient ← session input.recipientSessionId
  Txn.throwIf (recipient.runId ≠ some input.runId ∨
      recipient.agentId ≠ owner.agentId)
    (forbiddenError "Recipient is not scoped to the run")
  let fresh := queuedCommand dates now commandId input payload maxAttempts
    actor recipient
  let db ← get
  match db.commands.rows.find? fun c =>
      c.runId = input.runId ∧ c.idempotencyKey = input.idempotencyKey with
  | some existing => do
      Txn.throwIf (sameRequest existing fresh = false)
        (conflictError "Idempotency key conflicts with existing command")
      return existing
  | none => insertCommand dates now fresh

/-! ## Dispatch -/

def oldest : List DurableCommand → Option DurableCommand
  | [] => none
  | c :: rest =>
      match oldest rest with
      | none => some c
      | some d => if d.createdAt < c.createdAt then some d else some c

theorem mem_of_oldest {l : List DurableCommand} {c : DurableCommand}
    (h : oldest l = some c) : c ∈ l := by
  induction l with
  | nil => cases h
  | cons d rest ih =>
      rw [oldest] at h
      split at h
      · cases h
        exact List.mem_cons_self
      · rename_i e he
        split at h
        · cases h
          exact List.mem_cons_of_mem _ (ih he)
        · cases h
          exact List.mem_cons_self

def due (at_ : String) (c : DurableCommand) : Bool :=
  c.state = .queued && c.nextAttemptAt.all fun next => next ≤ at_

/-- `deadline_at && deadline_at <= at`. -/
def pastDeadline (at_ : String) (c : DurableCommand) : Bool :=
  truthy c.deadlineAt && c.deadlineAt.any fun deadline => deadline ≤ at_

/-- Reserve one due command.  Recovery must run before dispatching. -/
def reserveCommand (at_ : String) : Db (Option DurableCommand) := do
  let db ← get
  match oldest (db.commands.rows.filter (due at_)) with
  | none => return none
  | some command =>
      if pastDeadline at_ command then do
        let failed ← transition dates now command .failed .commandFailed
          (some "deadline exceeded")
        return some failed
      else do
        let updated ← updateRow dates now command.commandId
          (fun c =>
            { c with
              state := .dispatching
              attemptCount := c.attemptCount + 1
              dispatchStartedAt := some at_
              sendStartedAt := none })
          (fun _ => rfl) .commandDispatching none
        return some updated

def markSendStarted (commandId : String) : Db DurableCommand := do
  let command ← row commandId
  Txn.throwIf (command.state ≠ .dispatching ∨ truthy command.sendStartedAt)
    (conflictError "Command is not reserved for send")
  let owner ← runRow command.runId
  Txn.throwIf (owner.active = false)
    (conflictError "Run is no longer active")
  let recipient ← sessionOf command.sessionId
  Txn.throwIf (recipient.runId ≠ some command.runId ∨
      recipient.agentId ≠ command.recipientId)
    (conflictError "Recipient session changed")
  updateRow dates now commandId
    (fun c => { c with sendStartedAt := some (dates.toISOString now) })
    (fun _ => rfl) .commandSendStarted none

def markSent (commandId : String) : Db DurableCommand := do
  let command ← row commandId
  if command.state ≠ .dispatching ∨ truthy command.sendStartedAt = false then
    return command
  else
    updateRow dates now commandId
      (fun c =>
        { c with
          state := .sent
          deliveredAt := some (dates.toISOString now) })
      (fun _ => rfl) .commandSent none

/-! ## Acknowledgement -/

inductive AckState where
  | accepted | running | completed | failed
  deriving DecidableEq, Repr

def AckState.state : AckState → CommandState
  | .accepted => .accepted
  | .running => .running
  | .completed => .completed
  | .failed => .failed

def AckState.event : AckState → EventName
  | .accepted => .commandAccepted
  | .running => .commandRunning
  | .completed => .commandCompleted
  | .failed => .commandFailed

/-- `ACK_ALLOWED`. -/
def AckState.allowed : AckState → List CommandState
  | .accepted => [.dispatching, .sent, .outcomeUnknown]
  | .running => [.accepted]
  | .completed => [.accepted, .running]
  | .failed => [.accepted, .running]

def cannotAcknowledge (command : DurableCommand) (ack : AckState) :
    DomainError :=
  conflictError
    ("Cannot acknowledge " ++ command.state.text ++ " as " ++ ack.state.text)

def applyAck (command : DurableCommand) (ack : AckState)
    (reason : Option String) : Db DurableCommand := do
  Txn.throwIf (command.state ∉ ack.allowed ∨
      (command.state = .dispatching ∧ truthy command.sendStartedAt = false))
    (cannotAcknowledge command ack)
  updateRow dates now command.commandId
    (fun c =>
      { c with
        state := ack.state
        acknowledgedAt := c.acknowledgedAt.or (some (dates.toISOString now))
        terminalAt :=
          if ack.state.terminal then some (dates.toISOString now) else none
        lastError := reason.or c.lastError })
    (fun _ => rfl) ack.event reason

def acknowledgeCommand (commandId : String) (principal : CommandPrincipal)
    (ack : AckState) : Db DurableCommand := do
  let command ← row commandId
  let recipient ← session principal.sessionId
  Txn.throwIf (recipient.agentId ≠ principal.agentId)
    (forbiddenError "Authenticated recipient does not match session")
  Txn.throwIf (some recipient.sessionId ≠ command.sessionId ∨
      recipient.runId ≠ some command.runId ∨
      recipient.agentId ≠ command.recipientId)
    (forbiddenError "ACK from wrong recipient")
  applyAck dates now command ack none

/-- `ACK_RANK[command.state] ?? 0`. -/
def ackRank : CommandState → Nat
  | .accepted => 1
  | .running => 2
  | .completed | .failed | .cancelled => 3
  | .queued | .dispatching | .sent | .outcomeUnknown => 0

/-- A command not yet acknowledged is acknowledged as accepted first. -/
def acceptFirst (command : DurableCommand) : Db DurableCommand :=
  if command.state ≠ .accepted ∧ command.state ≠ .running then
    applyAck dates now command .accepted none
  else pure command

/--
Apply a state the provider protocol proved.  A state at or behind the current
one is a no-op; a jump ahead passes through the states between.
-/
def acknowledgeFromRuntime (commandId : String) (sessionId : String)
    (ack : AckState) (reason : Option String) : Db DurableCommand := do
  let command ← row commandId
  Txn.throwIf (command.sessionId ≠ some sessionId)
    (forbiddenError "Runtime ACK from wrong session")
  Txn.throwIf (command.state = .queued ∨
      (command.state = .dispatching ∧ truthy command.sendStartedAt = false))
    (cannotAcknowledge command ack)
  if ackRank ack.state ≤ ackRank command.state then return command
  else do
    let command ← acceptFirst dates now command
    match ack with
    | .accepted => return command
    | .running =>
        if command.state = .running then return command
        else applyAck dates now command .running none
    | .completed | .failed => applyAck dates now command ack reason

/-! ## Failure, recovery and resolution -/

/-- `Math.min(1000 * 2 ** (attempt_count - 1), 30000)`. -/
def retryDelayMs (attemptCount : Int) : Int :=
  min (1000 * 2 ^ (attemptCount - 1).toNat) 30000

/-- Put a command back in the queue, to be tried from `next` on. -/
def requeue (command : DurableCommand) (next : String) (reason : String) :
    Db DurableCommand :=
  updateRow dates now command.commandId
    (fun c =>
      { c with
        state := .queued
        nextAttemptAt := some next
        lastError := some reason })
    (fun _ => rfl) .commandQueued (some reason)

/-- A failed write after send-start is uncertain; only repeatable commands retry. -/
def failTransport (commandId : String) (reason : String) :
    Db DurableCommand := do
  let command ← row commandId
  if command.state ≠ .dispatching then return command
  else if truthy command.sendStartedAt ∧ command.sideEffecting then
    transition dates now command .outcomeUnknown .commandOutcomeUnknown
      (some reason)
  else if command.maxAttempts ≤ command.attemptCount then
    transition dates now command .failed .commandFailed (some reason)
  else
    requeue dates now command
      (dates.toISOString (now + retryDelayMs command.attemptCount)) reason

/-- `Date.parse(at) - Date.parse(dispatch_started_at) >= staleAfterMs`. -/
def stalledSince (at_ : String) (staleAfterMs : Int)
    (command : DurableCommand) : Bool :=
  command.state = .dispatching && truthy command.dispatchStartedAt &&
  match dates.parse at_, command.dispatchStartedAt.bind dates.parse with
  | some t, some started => staleAfterMs ≤ t - started
  | _, _ => false

def reconcileReason (activeRun exited timedOut : Bool) : String :=
  if !activeRun then "run ended"
  else if exited then "recipient session exited"
  else if timedOut then "deadline exceeded"
  else "dispatch interrupted"

def reconcilable (command : DurableCommand) : Bool :=
  [CommandState.queued, .dispatching, .sent, .accepted, .running].contains
    command.state

def reconcileOne (at_ : String) (staleAfterMs : Int)
    (command : DurableCommand) : Db Unit := do
  let db ← get
  let recipient := command.sessionId.bind db.sessions.find?
  let owner ← runRow command.runId
  let activeRun := owner.active
  let timedOut := pastDeadline at_ command
  let stalled := stalledSince dates at_ staleAfterMs command
  let exited := recipient.all (fun s => s.state ≠ .running) || !activeRun
  let reason := reconcileReason activeRun exited timedOut
  if !timedOut && !stalled && !exited then return
  else if command.state = .queued ∨
      (command.state = .dispatching ∧
        truthy command.sendStartedAt = false) then
    if exited || timedOut || command.maxAttempts ≤ command.attemptCount then
      let _ ← transition dates now command .failed .commandFailed
        (some reason)
    else
      let _ ← requeue dates now command at_ reason
  else if command.sideEffecting then
    let _ ← transition dates now command .outcomeUnknown
      .commandOutcomeUnknown (some reason)
  else if command.state = .dispatching ∧ !exited ∧ !timedOut ∧
      command.attemptCount < command.maxAttempts then
    let _ ← requeue dates now command at_ reason
  else
    let _ ← transition dates now command .failed .commandFailed
      (some reason)

def reconcileEach (at_ : String) (staleAfterMs : Int) :
    List DurableCommand → Db Unit
  | [] => return
  | command :: rest => do
      reconcileOne dates now at_ staleAfterMs command
      reconcileEach at_ staleAfterMs rest

def reconcileCommands (at_ : String) (staleAfterMs : Int) : Db Unit := do
  let db ← get
  reconcileEach dates now at_ staleAfterMs
    (db.commands.rows.filter reconcilable)

inductive Outcome where
  | completed | failed | cancelled
  deriving DecidableEq, Repr

def Outcome.state : Outcome → CommandState
  | .completed => .completed
  | .failed => .failed
  | .cancelled => .cancelled

def Outcome.event : Outcome → EventName
  | .completed => .commandCompleted
  | .failed => .commandFailed
  | .cancelled => .commandCancelled

def resolveUnknownCommand (commandId : String) (principal : CommandPrincipal)
    (outcome : Outcome) (reason : String) : Db DurableCommand := do
  Txn.throwIf (blank reason) (inputError "Resolution reason is required")
  Txn.throwIf (principal.agentId ≠ "master")
    (forbiddenError "Master session required")
  let operator ← session principal.sessionId
  Txn.throwIf (operator.agentId ≠ principal.agentId)
    (forbiddenError "Master session required")
  let command ← row commandId
  Txn.throwIf (command.state ≠ .outcomeUnknown)
    (conflictError "Command outcome is not unknown")
  transition dates now command outcome.state outcome.event (some reason)

/-- Nothing was sent, so the attempt is not counted. -/
def deferCommand (commandId : String) (reason : String) (retryAt : String) :
    Db DurableCommand := do
  let command ← row commandId
  if command.state ≠ .dispatching ∨ truthy command.sendStartedAt then
    return command
  else do
    Txn.throwIf (command.attemptCount - 1 < 0)
      (plainError "CHECK constraint failed: attempt_count >= 0")
    updateRow dates now commandId
      (fun c =>
        { c with
          state := .queued
          attemptCount := c.attemptCount - 1
          nextAttemptAt := some retryAt
          lastError := some reason })
      (fun _ => rfl) .commandQueued (some reason)

end OrcState.Command
