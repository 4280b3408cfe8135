import OrcState.Lifecycle.ClaimManager

/-!
# Worker lifecycle requests

The run requests a worker sends to the control socket, validated against the
stored claim and applied.  Review, input and memory requests write other tables
and are left out, except for the timeout that fails a run.
-/

namespace OrcState.Lifecycle

open OrcState.Contract OrcState.Foundation OrcState.Store

/-! ## Progress validation -/

/-- `SUPPORTED_EVENTS`, by the names the wire uses. -/
inductive ProgressEvent where
  | runStarted | heartbeat | reviewSubmitted | workComplete
  | finalizeRebaseStarted | readyToMerge | runFinished | runFailed
  | phaseStarted | phaseFinished | blocked | needInput | inputProvided
  | unblocked
  deriving DecidableEq, Repr

def ProgressEvent.text : ProgressEvent → String
  | .runStarted => "run_started"
  | .heartbeat => "heartbeat"
  | .reviewSubmitted => "review_submitted"
  | .workComplete => "work_complete"
  | .finalizeRebaseStarted => "finalize_rebase_started"
  | .readyToMerge => "ready_to_merge"
  | .runFinished => "run_finished"
  | .runFailed => "run_failed"
  | .phaseStarted => "phase_started"
  | .phaseFinished => "phase_finished"
  | .blocked => "blocked"
  | .needInput => "need_input"
  | .inputProvided => "input_provided"
  | .unblocked => "unblocked"

def ProgressEvent.name : ProgressEvent → EventName
  | .runStarted => .runStarted
  | .heartbeat => .heartbeat
  | .reviewSubmitted => .reviewSubmitted
  | .workComplete => .workComplete
  | .finalizeRebaseStarted => .finalizeRebaseStarted
  | .readyToMerge => .readyToMerge
  | .runFinished => .runFinished
  | .runFailed => .runFailed
  | .phaseStarted => .phaseStarted
  | .phaseFinished => .phaseFinished
  | .blocked => .blocked
  | .needInput => .needInput
  | .inputProvided => .inputProvided
  | .unblocked => .unblocked

def ProgressEvent.requiresPhase : ProgressEvent → Bool
  | .phaseStarted | .phaseFinished => true
  | _ => false

def ProgressEvent.requiresReason : ProgressEvent → Bool
  | .runFailed | .blocked | .needInput => true
  | _ => false

structure ProgressInput where
  event : ProgressEvent
  runId : RunId
  agentId : AgentId
  phase : Option String := none
  reason : Option String := none
  policy : Option String := none
  deriving DecidableEq, Repr

def rejectIf (c : Bool) (message : String) : Except DomainError Unit :=
  if c then .error (conflictError message) else .ok ()

def validateArguments (input : ProgressInput) : Except DomainError Unit := do
  rejectIf (input.runId = "" || input.agentId = "")
    "event, run-id, and agent-id are required"
  rejectIf (!runIdRe input.runId) ("Invalid run-id: " ++ input.runId)
  rejectIf (!agentIdRe input.agentId) ("Invalid agent-id: " ++ input.agentId)

def validateClaim (input : ProgressInput) (claim : Option Claim) :
    Except DomainError Claim :=
  match claim with
  | none =>
      .error (conflictError ("Run not found in claims: " ++ input.runId))
  | some claim => do
      rejectIf (claim.runId ≠ input.runId)
        ("Claim run_id mismatch: expected " ++ input.runId)
      rejectIf (claim.agentId ≠ input.agentId)
        ("Run " ++ input.runId ++ " belongs to " ++ claim.agentId ++ ", not " ++
          input.agentId)
      pure claim

def validateDetails (input : ProgressInput) : Except DomainError Unit := do
  rejectIf (input.event.requiresPhase && !truthy input.phase)
    ("Event " ++ input.event.text ++ " requires --phase=<name>")
  rejectIf (input.event.requiresReason && !truthy input.reason)
    ("Event " ++ input.event.text ++ " requires --reason=<text>")
  rejectIf (input.event = .runFailed &&
      !(["requeue", "block"].contains (input.policy.getD "requeue")))
    ("Invalid failure policy: " ++ input.policy.getD "null" ++
      ". Use requeue or block.")

def validateProgressCommandInput (input : ProgressInput)
    (claim : Option Claim) : Except DomainError Claim := do
  validateArguments input
  let claim ← validateClaim input claim
  validateDetails input
  pure claim

/-- `validateProgressInput` for a heartbeat, the one event it is used for. -/
def validateHeartbeatInput (input : ProgressInput) (claim : Option Claim) :
    Except DomainError Claim := do
  validateArguments input
  let claim ← validateClaim input claim
  rejectIf (claim.state ≠ .inProgress)
    (input.event.text ++ " requires run_started first (claim state must be " ++
      "'in_progress', got: " ++ claim.state.text ++ ")")
  pure claim

/-! ## Requests -/

inductive LifecycleRequest where
  | runStart (runId : RunId) (agentId : AgentId)
  | runFail (runId : RunId) (agentId : AgentId) (reason code policy : String)
  | runFinish (runId : RunId) (agentId : AgentId)
  | runWorkComplete (runId : RunId) (agentId : AgentId)
  | inputTimeout (runId : RunId) (agentId : AgentId)
  | progress (input : ProgressInput)
  deriving DecidableEq, Repr

/-- `parseLifecycleRequest`: required fields are non-empty strings. -/
def parseLifecycleRequest (request : LifecycleRequest) : Bool :=
  match request with
  | .runStart r a | .runFinish r a | .runWorkComplete r a
  | .inputTimeout r a => r ≠ "" && a ≠ ""
  | .runFail r a reason code policy =>
      r ≠ "" && a ≠ "" && reason ≠ "" && code ≠ "" && policy ≠ ""
  | .progress input => input.runId ≠ "" && input.agentId ≠ ""

def finalizationPayload : ProgressEvent → Option Payload
  | .workComplete => some [("status", .str "awaiting_finalize")]
  | .finalizeRebaseStarted =>
      some [("status", .str "finalize_rebase_in_progress")]
  | .readyToMerge => some [("status", .str "ready_to_merge")]
  | _ => none

def FinalizationState.text : FinalizationState → String
  | .awaitingFinalize => "awaiting_finalize"
  | .finalizeRebaseRequested => "finalize_rebase_requested"
  | .finalizeRebaseInProgress => "finalize_rebase_in_progress"
  | .readyToMerge => "ready_to_merge"
  | .blockedFinalize => "blocked_finalize"
  | .prCreated => "pr_created"
  | .prReviewInProgress => "pr_review_in_progress"
  | .prMerged => "pr_merged"
  | .prFailed => "pr_failed"

def nextFinalizationTransition (claim : Claim) :
    Except DomainError ProgressEvent :=
  match claim.finalizationState with
  | none => .ok .workComplete
  | some .finalizeRebaseInProgress => .ok .readyToMerge
  | some state =>
      .error (conflictError
        ("run-work-complete cannot be reported from finalization_state '" ++
          FinalizationState.text state ++ "'"))

variable (dates : DateApi)

def reportEvent (claim : Claim) (agentId : AgentId) (event : ProgressEvent)
    (payload : Payload) (time : String) : Op Unit :=
  onEvents (appendSequencedEvent dates
    (runEvent time event.name .agent agentId claim payload))

def progressPayload (input : ProgressInput) : Payload :=
  (finalizationPayload input.event).getD
    (if truthy input.reason then optionalEntry "reason" input.reason else [])

def applyProgress (input : ProgressInput) (claim : Claim) (time : String) :
    Op Unit :=
  match input.event with
  | .runStarted =>
      if claim.state = .inProgress then pure ()
      else startRun dates input.runId input.agentId { time := time } time
  | .runFinished => do
      let s ← Effect.read
      Effect.ofExcept (assertRunMayFinish s.tasks claim.taskRef)
      finishRun dates input.runId input.agentId { time := time } time
  | .runFailed =>
      finishRun dates input.runId input.agentId
        { success := false, failureReason := input.reason
          failureCode := some "ERR_WORKER_REPORTED_FAILURE"
          policy := input.policy.getD "requeue", time := time } time
  | .heartbeat => do
      let _ ← heartbeat dates input.runId input.agentId { time := time }
      pure ()
  | event =>
      reportEvent dates claim input.agentId event (progressPayload input) time

def validateProgress (input : ProgressInput) (claim : Option Claim) :
    Except DomainError Claim :=
  if input.event = .heartbeat then validateHeartbeatInput input claim
  else validateProgressCommandInput input claim

/-- Apply one request.  `time` is the ISO reading of the clock. -/
def applyLifecycle (request : LifecycleRequest) (time : String) : Op Unit := do
  let s ← Effect.read
  match request with
  | .runStart runId agentId =>
      if (s.findClaim runId).any fun c =>
          c.state = .inProgress && c.agentId = agentId then pure ()
      else do
        let _ ← Effect.ofExcept (validateProgressCommandInput
          { event := .runStarted, runId := runId, agentId := agentId }
          (s.findClaim runId))
        startRun dates runId agentId { time := time } time
  | .runFail runId agentId reason code policy => do
      let _ ← Effect.ofExcept (validateProgressCommandInput
        { event := .runFailed, runId := runId, agentId := agentId
          reason := some reason, policy := some policy } (s.findClaim runId))
      finishRun dates runId agentId
        { success := false, failureReason := some reason
          failureCode := some code, policy := policy, time := time } time
  | .runFinish runId agentId => do
      let claim ← Effect.ofExcept (validateProgressCommandInput
        { event := .runFinished, runId := runId, agentId := agentId }
        (s.findClaim runId))
      Effect.ofExcept (assertRunMayFinish s.tasks claim.taskRef)
      finishRun dates runId agentId { time := time } time
  | .runWorkComplete runId agentId => do
      let claim ← Effect.ofExcept (validateProgressCommandInput
        { event := .workComplete, runId := runId, agentId := agentId }
        (s.findClaim runId))
      let event ← Effect.ofExcept (nextFinalizationTransition claim)
      reportEvent dates claim agentId event
        ((finalizationPayload event).getD []) time
  | .inputTimeout runId agentId =>
      if (s.findClaim runId).any fun c => c.agentId = agentId && c.active then
        finishRun dates runId agentId
          { success := false, failureReason := some "input_request_timeout"
            failureCode := some "ERR_INPUT_REQUEST_TIMEOUT", time := time } time
      else pure ()
  | .progress input => do
      let claim ← Effect.ofExcept (validateProgress input (s.findClaim input.runId))
      applyProgress dates input claim time

end OrcState.Lifecycle
