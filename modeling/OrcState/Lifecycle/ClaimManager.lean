import OrcState.Lifecycle.Project

/-!
# Claims: claim, start, renew and finish

The run operations in a project state directory, where the task store exists.
-/

namespace OrcState.Lifecycle

open OrcState.Contract OrcState.Foundation OrcState.Store

def MAX_ATTEMPTS : Nat := 5

def BACKOFF_BASE_MS : Nat := 30000

def BACKOFF_MAX_MS : Nat := 600000

def DEFAULT_LEASE_MS : Int := 1800000

def requeueBackoffMs (attemptCount : Nat) : Nat :=
  min (BACKOFF_BASE_MS * Nat.pow 2 (attemptCount - 1)) BACKOFF_MAX_MS

variable (dates : DateApi)

def assertValidTimestamp (time label : String) : Op Unit :=
  Effect.throwIf ((dates.parse time).isNone = true)
    (inputError ("Invalid " ++ label ++ " timestamp: " ++ time))

def resetClaimVolatileFields (claim : Claim) : Claim :=
  { claim with
    inputState := none
    inputRequestedAt := none
    sessionStartRetryCount := 0
    sessionStartRetryNextAt := none
    sessionStartLastError := none }

def ownClaim (s : Project) (runId : RunId) (agentId : AgentId) :
    Except DomainError Claim :=
  match s.findClaim runId with
  | none => .error (notFoundError ("Claim not found: " ++ runId))
  | some claim =>
      if claim.agentId ≠ agentId then
        .error (conflictError ("Claim " ++ runId ++ " belongs to " ++
          claim.agentId))
      else .ok claim

/-! ## claimTask -/

def newClaim (runId : RunId) (ref : TaskRef) (agentId : AgentId)
    (claimedAt leaseExpiresAt : String) : Claim where
  runId := runId
  taskRef := ref
  agentId := agentId
  state := .claimed
  claimedAt := claimedAt
  leaseExpiresAt := leaseExpiresAt

def unclaimed (s : Project) (ref : TaskRef) : Except DomainError Unit :=
  match s.claims.find? fun c => c.taskRef = ref && c.active with
  | some active =>
      .error (conflictError ("Task already claimed by " ++ active.agentId ++
        " (" ++ active.runId ++ "): " ++ ref))
  | none => .ok ()

/-- Write the snapshot, then commit the claim and its event. -/
def commitNewClaim (claim : Claim) (snapshot : Except DomainError Unit) :
    Op Unit := do
  Effect.ofExcept snapshot
  let s ← Effect.read
  onEvents (commitClaims dates (s.claims ++ [claim])
    [runEvent claim.claimedAt .claimCreated .agent claim.agentId claim
      [("lease_expires_at", .str claim.leaseExpiresAt)]])

/-- The claim never became a live run: return the task to the queue. -/
def returnTask (ref : TaskRef) (runId : RunId) (agentId : AgentId)
    (now : String) : Tasks Unit := do
  applyTransition ref
    { cause := .failureRequeue, toStatus := .todo, runId := some runId
      reason := some "claim_not_committed", actorId := some agentId } now
  abandonRun runId now

/--
`runId` is what `makeRunId` drew and `snapshot` how `writeRunRevisionSnapshot`
ended.
-/
def claimTask (ref : TaskRef) (agentId : AgentId) (leaseDurationMs : Int)
    (runId : RunId) (snapshot : Except DomainError Unit) (now : Int) :
    Op (RunId × String) := do
  let s ← Effect.read
  let task ← Effect.orThrow (findTask s.backlog ref)
    (notFoundError ("Task not found: " ++ ref))
  Effect.throwIf (task.status ≠ .todo)
    (conflictError ("Task not claimable (status: " ++ task.status.text ++
      "): " ++ ref))
  Effect.throwIf (truthy task.owner = true ∧ task.owner ≠ some agentId)
    (conflictError ("Task " ++ ref ++ " is reserved for agent \"" ++
      task.owner.getD "" ++ "\" - claiming agent \"" ++ agentId ++
      "\" is not the owner"))
  Effect.ofExcept (unclaimed s ref)
  let claimedAt := dates.toISOString now
  let leaseExpiresAt := dates.toISOString (now + leaseDurationMs)
  let claim := newClaim runId ref agentId claimedAt leaseExpiresAt
  let _ ← onTasks (TaskStore.claimTask ref runId agentId claimedAt)
  Effect.catching (commitNewClaim dates claim snapshot) fun error => do
    onTasks (returnTask ref runId agentId claimedAt)
    Effect.ofExcept (.error error)
  pure (runId, leaseExpiresAt)

/-! ## startRun -/

structure StartOptions where
  emitEvent : Bool := true
  time : String
  actorType : ActorType := .agent
  actorId : Option AgentId := none
  deriving DecidableEq, Repr

def startClaim (time : String) (claim : Claim) : Claim :=
  resetClaimVolatileFields
    { claim with state := .inProgress, startedAt := some time }

def commitStart (claim : Claim) (agentId : AgentId) (o : StartOptions)
    (now : String) (s : Project) : Op Unit :=
  let claims := mutateClaim s.claims claim.runId (startClaim o.time)
  let actorId := o.actorId.getD agentId
  let events :=
    if o.emitEvent then
      [runEvent o.time .runStarted o.actorType actorId claim []]
    else []
  match findTask s.backlog claim.taskRef with
  | none => onEvents (commitClaims dates claims events)
  | some _ =>
      commitBoth dates claims events
        (mutateTask s.backlog claim.taskRef fun task =>
          { task with status := .inProgress })
        [(claim.taskRef,
          { cause := .runStart, runId := some claim.runId
            actorId := some actorId })] now

def startRun (runId : RunId) (agentId : AgentId) (o : StartOptions)
    (now : String) : Op Unit := do
  let s ← Effect.read
  let claim ← Effect.ofExcept (ownClaim s runId agentId)
  if claim.state = .inProgress then pure () else do
    Effect.throwIf (claim.state ≠ .claimed)
      (conflictError ("Claim " ++ runId ++ " is not in 'claimed' state (got: " ++
        claim.state.text ++ ")"))
    assertValidTimestamp dates o.time "startRun"
    commitStart dates claim agentId o now s

/-! ## Leases -/

def leasePassed (now : Int) (claim : Claim) : Bool :=
  (dates.parse claim.leaseExpiresAt).any fun lease => lease < now

structure HeartbeatOptions where
  leaseDurationMs : Int := DEFAULT_LEASE_MS
  emitEvent : Bool := true
  time : String
  deriving DecidableEq, Repr

def heartbeat (runId : RunId) (agentId : AgentId) (o : HeartbeatOptions) :
    Op String := do
  let s ← Effect.read
  let claim ← Effect.ofExcept (ownClaim s runId agentId)
  Effect.throwIf (claim.active = false)
    (conflictError ("Cannot heartbeat claim in state: " ++ claim.state.text))
  assertValidTimestamp dates o.time "heartbeat"
  let now := (dates.parse o.time).getD 0
  Effect.throwIf (truthy (some claim.leaseExpiresAt) = true ∧
      leasePassed dates now claim = true)
    (conflictError ("Lease has already expired for run " ++ runId ++
      " (expired at " ++ claim.leaseExpiresAt ++ ")"))
  let leaseExpiresAt := dates.toISOString (now + o.leaseDurationMs)
  onEvents (commitClaims dates
    (mutateClaim s.claims runId fun claim =>
      { claim with
        lastHeartbeatAt := some o.time
        leaseExpiresAt := leaseExpiresAt })
    (if o.emitEvent then
      [runEvent o.time .heartbeat .agent agentId claim
        [("lease_expires_at", .str leaseExpiresAt)]]
    else []))
  pure leaseExpiresAt

/-- The probe of a live worker extends its lease and nothing else. -/
def renewLeaseOnly (runId : RunId) (leaseDurationMs now : Int) : Op Unit := do
  let s ← Effect.read
  match s.findClaim runId with
  | none => pure ()
  | some claim =>
      if claim.active = false ∨ (truthy (some claim.leaseExpiresAt) = true ∧
          leasePassed dates now claim = true) then pure ()
      else
        onEvents (commitClaims dates
          (mutateClaim s.claims runId fun claim =>
            { claim with
              leaseExpiresAt := dates.toISOString (now + leaseDurationMs) })
          [])

/-! ## finishRun -/

structure FinishOptions where
  success : Bool := true
  failureReason : Option String := none
  failureCode : Option String := none
  policy : String := "requeue"
  emitEvent : Bool := true
  time : String
  deriving DecidableEq, Repr

def clearFinalization (claim : Claim) : Claim :=
  { claim with
    finalizationState := none
    finalizationRetryCount := 0
    finalizationBlockedReason := none }

def finishClaim (o : FinishOptions) (claim : Claim) : Claim :=
  clearFinalization (resetClaimVolatileFields
    { claim with
      state := if o.success then .done else .failed
      finishedAt := some o.time
      failureReason :=
        if !o.success && truthy o.failureReason then o.failureReason
        else claim.failureReason })

/-- Infrastructure failures do not count against the attempt budget. -/
def isInfraFailure (code : Option String) : Bool :=
  code = some "ERR_DISPATCH_FAILURE" || code = some "ERR_RUN_START_TIMEOUT" ||
    code = some "ERR_SESSION_START_FAILED"

/-- One more attempt is spent; the last one blocks the task. -/
def countAttempt (verb : String) (base : Int) (task : Task) : Task :=
  let attempts := task.attemptCount + 1
  if MAX_ATTEMPTS ≤ attempts then
    { task with
      attemptCount := attempts
      status := .blocked
      blockedReason := some ("max_attempts_exceeded: " ++ verb ++ " " ++
        toString attempts ++ " times") }
  else
    { task with
      attemptCount := attempts
      status := .todo
      requeueEligibleAfter :=
        some (dates.toISOString (base + requeueBackoffMs attempts)) }

def finishTask (o : FinishOptions) (task : Task) : Task :=
  if o.success then task
  else if o.policy = "block" then { task with status := .blocked }
  else if isInfraFailure o.failureCode then { task with status := .todo }
  else countAttempt dates "failed" ((dates.parse o.time).getD 0) task

def finishCause (task : Task) : TaskTransitionCause :=
  if task.status = .done then .mergeSucceeded
  else if task.status = .blocked then .failureBlock
  else .failureRequeue

def finishReason (o : FinishOptions) (task : Task) : Option String :=
  (task.blockedReason.or o.failureReason).or
    (if o.policy = "block" then some "run failed with block policy" else none)

def finishEvents (claim : Claim) (agentId : AgentId) (o : FinishOptions) :
    List OrcEvent :=
  if o.emitEvent then
    if o.success then
      [runEvent o.time .runFinished .agent agentId claim []]
    else
      [runEvent o.time .runFailed .agent agentId claim
        (optionalEntry "reason" o.failureReason ++
          optionalEntry "code" o.failureCode ++ [("policy", .str o.policy)])]
  else []

/-- A task an operator already moved off this run keeps its status. -/
def taskOfRun (s : Project) (claim : Claim) : Option Task :=
  (findTask s.backlog claim.taskRef).filter fun task => task.status.running

def commitFinish (claim : Claim) (agentId : AgentId) (o : FinishOptions)
    (now : String) (s : Project) : Op Unit :=
  let claims := mutateClaim s.claims claim.runId (finishClaim o)
  let events := finishEvents claim agentId o
  match taskOfRun s claim with
  | none => onEvents (commitClaims dates claims events)
  | some task =>
      let finished := finishTask dates o task
      commitBoth dates claims events
        (mutateTask s.backlog claim.taskRef fun _ => finished)
        (if finished.status = task.status then []
        else
          [(claim.taskRef,
            { cause := finishCause finished, runId := some claim.runId
              actorId := some agentId, reason := finishReason o finished })])
        now

/-- Older terminal claims can retain stale finalization fields. -/
def staleTerminal (o : FinishOptions) (claim : Claim) : Bool :=
  claim.state = (if o.success then .done else .failed) &&
    (claim.finalizationState.isSome || claim.finalizationRetryCount ≠ 0 ||
      claim.finalizationBlockedReason.isSome)

/-- Finish a run: a success leaves the task, a failure requeues or blocks it. -/
def finishRun (runId : RunId) (agentId : AgentId) (o : FinishOptions)
    (now : String) : Op Unit := do
  let s ← Effect.read
  let claim ← Effect.ofExcept (ownClaim s runId agentId)
  assertValidTimestamp dates o.time "finishRun"
  if claim.active then commitFinish dates claim agentId o now s
  else if staleTerminal o claim then
    onEvents (commitClaims dates
      (mutateClaim s.claims runId clearFinalization) [])
  else pure ()

end OrcState.Lifecycle
