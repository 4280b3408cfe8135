import OrcState.Lifecycle.ClaimManager

/-!
# Updates of one claim

The writers that change fields of a claim and no task.  Each reads the claim,
checks it, and commits the list with that claim's fields assigned.
-/

namespace OrcState.Lifecycle

open OrcState.Contract OrcState.Foundation OrcState.Store

variable (dates : DateApi)

def updateClaim (runId : RunId) (check : Claim → Except DomainError Unit)
    (f : Claim → Claim) (events : Claim → List OrcEvent) : Op Claim := do
  let s ← Effect.read
  let claim ← Effect.orThrow (s.findClaim runId)
    (plainError ("Claim not found: " ++ runId))
  Effect.ofExcept (check claim)
  onEvents (commitClaims dates (mutateClaim s.claims runId f) (events claim))
  pure (f claim)

def refuseUnless (c : Bool) (message : String) : Except DomainError Unit :=
  if c then .ok () else .error (plainError message)

def checkOwner (runId : RunId) (agentId : AgentId) (claim : Claim) :
    Except DomainError Unit :=
  refuseUnless (claim.agentId = agentId)
    ("Claim " ++ runId ++ " belongs to " ++ claim.agentId)

/-! ## The task envelope and the session -/

structure EnvelopeOptions where
  emitEvent : Bool := true
  time : String
  actorType : ActorType := .coordinator
  actorId : AgentId := "coordinator"
  deriving DecidableEq, Repr

def checkEnvelope (runId : RunId) (agentId : AgentId) (time : String)
    (claim : Claim) : Except DomainError Unit := do
  checkOwner runId agentId claim
  refuseUnless claim.active
    ("Claim " ++ runId ++ " cannot record envelope delivery from state '" ++
      claim.state.text ++ "'")
  refuseUnless (dates.parse time).isSome
    ("Invalid task envelope timestamp: " ++ time)

def envelopeEvents (o : EnvelopeOptions) (claim : Claim) : List OrcEvent :=
  if o.emitEvent then
    [runEvent o.time .taskEnvelopeSent o.actorType o.actorId claim []]
  else []

def markTaskEnvelopeSent (runId : RunId) (agentId : AgentId)
    (o : EnvelopeOptions) : Op Claim := do
  let s ← Effect.read
  let claim ← Effect.orThrow (s.findClaim runId)
    (plainError ("Claim not found: " ++ runId))
  Effect.ofExcept (checkEnvelope dates runId agentId o.time claim)
  if truthy claim.taskEnvelopeSentAt then pure claim else do
    onEvents (commitClaims dates
      (mutateClaim s.claims runId fun claim =>
        { claim with taskEnvelopeSentAt := some o.time })
      (envelopeEvents o claim))
    pure { claim with taskEnvelopeSentAt := some o.time }

def applyStartRetry (retryCount : Int) (nextRetryAt lastError : Option String)
    (claim : Claim) : Claim :=
  { claim with
    sessionStartRetryCount := retryCount.toNat
    sessionStartRetryNextAt := if 0 < retryCount then nextRetryAt else none
    sessionStartLastError := if 0 < retryCount then lastError else none }

def setRunSessionStartRetryState (runId : RunId) (agentId : AgentId)
    (retryCount : Int) (nextRetryAt lastError : Option String) : Op Claim :=
  updateClaim dates runId
    (fun claim => do
      checkOwner runId agentId claim
      refuseUnless (claim.state = .claimed)
        ("Session start retry updates require claimed claim state (got: " ++
          claim.state.text ++ ")")
      refuseUnless (0 ≤ retryCount)
        ("retryCount must be a non-negative integer (got: " ++
          toString retryCount ++ ")")
      refuseUnless (nextRetryAt.all fun time => (dates.parse time).isSome)
        ("nextRetryAt must be an ISO date-time string or null (got: " ++
          nextRetryAt.getD "" ++ ")"))
    (applyStartRetry retryCount nextRetryAt lastError) (fun _ => [])

/-! ## Finalization and input -/

structure FinalizationUpdate where
  finalizationState : Option FinalizationState := none
  retryCountDelta : Int := 0
  blockedReason : Option String := none
  deriving DecidableEq, Repr

def addRetries (count : Nat) (delta : Int) : Nat := (count + delta).toNat

def applyFinalization (u : FinalizationUpdate) (claim : Claim) : Claim :=
  { claim with
    finalizationState := u.finalizationState
    finalizationRetryCount :=
      addRetries claim.finalizationRetryCount u.retryCountDelta
    finalizationBlockedReason := u.blockedReason }

def setRunFinalizationState (runId : RunId) (agentId : AgentId)
    (u : FinalizationUpdate) : Op Claim :=
  updateClaim dates runId
    (fun claim => do
      checkOwner runId agentId claim
      refuseUnless (claim.state = .inProgress)
        ("Finalization updates require in_progress claim state (got: " ++
          claim.state.text ++ ")"))
    (applyFinalization u) (fun _ => [])

/-- `now` is the time recorded when the caller names none. -/
def applyInputState (inputState : Option InputState)
    (requestedAt : Option String) (now : String) (claim : Claim) : Claim :=
  { claim with
    inputState := inputState
    inputRequestedAt :=
      if inputState = some .awaitingInput then some (requestedAt.getD now)
      else none }

def setRunInputState (runId : RunId) (agentId : AgentId)
    (inputState : Option InputState) (requestedAt : Option String)
    (now : String) : Op Claim :=
  updateClaim dates runId
    (fun claim => do
      checkOwner runId agentId claim
      refuseUnless claim.active
        ("Input state updates require claimed or in_progress claim state " ++
          "(got: " ++ claim.state.text ++ ")")
      refuseUnless (requestedAt.all fun time => (dates.parse time).isSome)
        ("requestedAt must be an ISO date-time string or null (got: " ++
          requestedAt.getD "" ++ ")"))
    (applyInputState inputState requestedAt now) (fun _ => [])

/-! ## The pull request of a run -/

def setPrRef (runId : RunId) (prRef : String) : Op Claim :=
  updateClaim dates runId
    (fun claim => do
      refuseUnless (claim.state = .inProgress)
        ("PR ref update requires in_progress claim state (got: " ++
          claim.state.text ++ ")")
      refuseUnless (prRef ≠ "") "prRef must be a non-empty string")
    (fun claim => { claim with prRef := some prRef }) (fun _ => [])

def setPrCreatedAt (runId : RunId) (createdAt : String)
    (initialWorkCompleteSeq : Option Nat) : Op Claim :=
  updateClaim dates runId
    (fun claim => do
      refuseUnless (claim.state = .inProgress)
        ("PR created_at update requires in_progress claim state (got: " ++
          claim.state.text ++ ")")
      refuseUnless (dates.parse createdAt).isSome
        ("Invalid pr_created_at timestamp: " ++ createdAt)
      refuseUnless (initialWorkCompleteSeq.all fun seq => 1 ≤ seq)
        "initial work_complete seq must be a positive safe integer")
    (fun claim =>
      { claim with
        prCreatedAt := some createdAt
        prInitialWorkCompleteSeq :=
          initialWorkCompleteSeq.or claim.prInitialWorkCompleteSeq })
    (fun _ => [])

end OrcState.Lifecycle
