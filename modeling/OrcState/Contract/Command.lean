import OrcState.Contract.Types

/-!
# Command records

The row of a durable command and of the session it is addressed to, as the
command code reads them.  `attemptCount` and `maxAttempts` are database
integers: that they stay in range is a result, not a type.
-/

namespace OrcState.Contract

inductive CommandState where
  | queued | dispatching | sent | accepted | running
  | completed | failed | cancelled | outcomeUnknown
  deriving DecidableEq, Repr

def CommandState.text : CommandState → String
  | .queued => "queued"
  | .dispatching => "dispatching"
  | .sent => "sent"
  | .accepted => "accepted"
  | .running => "running"
  | .completed => "completed"
  | .failed => "failed"
  | .cancelled => "cancelled"
  | .outcomeUnknown => "outcome_unknown"

def CommandState.terminal : CommandState → Bool
  | .completed | .failed | .cancelled => true
  | _ => false

structure DurableCommand where
  commandId : String
  runId : RunId
  sessionId : Option String
  actorSessionId : Option String
  actorId : AgentId
  recipientId : AgentId
  idempotencyKey : String
  kind : String
  payload : String
  state : CommandState
  sideEffecting : Bool
  attemptCount : Int
  maxAttempts : Int
  nextAttemptAt : Option String
  deadlineAt : Option String
  dispatchStartedAt : Option String
  sendStartedAt : Option String
  createdAt : String
  deliveredAt : Option String
  acknowledgedAt : Option String
  terminalAt : Option String
  lastError : Option String
  deriving DecidableEq, Repr

inductive SessionState where
  | running | recoverable | unknown | offline
  deriving DecidableEq, Repr

structure Session where
  sessionId : String
  agentId : AgentId
  runId : Option RunId
  state : SessionState
  deriving DecidableEq, Repr

end OrcState.Contract
