import OrcState.Lifecycle.System

/-!
# The lifecycle reducer

What the coordinator does with one event of the log, decided from the event, the
stored claim of its run and the clock, and applied to the claim.  The reason of
an ignored event is read by nobody, and agent activity is recorded in the
registry; both are left out.
-/

namespace OrcState.Coordinator

open OrcState.Contract OrcState.Foundation OrcState.Store OrcState.Lifecycle

def FINALIZE_LEASE_MS : Int := 3600000

inductive LifecycleAction where
  | startRun (time : String)
  | heartbeat (time : String) (leaseDurationMs : Int)
  | advanceFinalization (state : FinalizationState) (retryCountDelta : Int)
      (blockedReason : Option String) (extendLeaseMs : Option Int)
  | clearInputState
  | setInputState (requestedAt : String)
  | finishRun (success : Bool) (failureReason failureCode : Option String)
      (policy : String) (time : String)
  | noop
  deriving DecidableEq, Repr

def phaseEvents : List EventName :=
  [.phaseStarted, .phaseFinished, .blocked, .needInput, .inputProvided,
   .unblocked, .reviewSubmitted]

variable (dates : DateApi)

/-! ## Timestamps -/

def coerceEventTs (ts nowIso : String) : String :=
  if dates.isDateTime ts then ts else nowIso

/-- Not after the clock and not before the floor; both times are readable. -/
def authoritativeTs (eventTs : String) (floorTs : Option String)
    (nowIso : String) : String :=
  let bounded :=
    min ((dates.parse eventTs).getD 0) ((dates.parse nowIso).getD 0)
  dates.toISOString
    (match floorTs.bind dates.parse with
    | some floor => max bounded floor
    | none => bounded)

/-! ## The reducer -/

/-- `claim.last_heartbeat_at ?? claim.started_at ?? claim.claimed_at`. -/
def activityFloor (claim : Claim) : String :=
  (claim.lastHeartbeatAt.or claim.startedAt).getD claim.claimedAt

def stringField (event : OrcEvent) (key : String) : Option String :=
  match event.field key with
  | some (.str s) => some s
  | _ => none

def reduceHeartbeat (event : OrcEvent) (claim : Option Claim)
    (nowIso : String) : LifecycleAction :=
  if !truthy event.runId || !truthy event.agentId then
    .noop
  else
    match claim.filter fun c => c.state = .inProgress with
    | none => .noop
    | some c =>
        if truthy (some c.leaseExpiresAt) &&
            leasePassed dates ((dates.parse nowIso).getD 0) c then
          .noop
        else
          .heartbeat (authoritativeTs dates (coerceEventTs dates event.ts nowIso)
            (some (activityFloor c)) nowIso) DEFAULT_LEASE_MS

def reducePhase (event : OrcEvent) (claim : Option Claim) (nowIso : String) :
    LifecycleAction :=
  match claim.filter fun c => c.state = .inProgress with
  | none => .noop
  | some c =>
      .heartbeat (authoritativeTs dates (coerceEventTs dates event.ts nowIso)
        (some (activityFloor c)) nowIso) DEFAULT_LEASE_MS

def reduceRunStarted (event : OrcEvent) (claim : Option Claim)
    (nowIso : String) : LifecycleAction :=
  match claim.filter fun c => c.state = .claimed with
  | none => .noop
  | some c =>
      .startRun (authoritativeTs dates (coerceEventTs dates event.ts nowIso)
        (some c.claimedAt) nowIso)

def reduceRebaseStarted (claim : Option Claim) : LifecycleAction :=
  match claim with
  | none => .noop
  | some c =>
      if c.state = .inProgress &&
          c.finalizationState = some .finalizeRebaseRequested then
        .advanceFinalization .finalizeRebaseInProgress 1 none
          (some FINALIZE_LEASE_MS)
      else .noop

def reduceFinished (event : OrcEvent) (claim : Option Claim)
    (nowIso : String) : LifecycleAction :=
  match claim with
  | none => .noop
  | some c =>
      if !c.active then .noop
      else
        let time := authoritativeTs dates (coerceEventTs dates event.ts nowIso)
          (some ((c.finishedAt.or c.startedAt).getD c.claimedAt)) nowIso
        if event.event = .runFinished then
          .finishRun true none none "requeue" time
        else
          .finishRun false (stringField event "reason")
            (stringField event "code")
            ((stringField event "policy").getD "requeue") time

/-- A duplicate is ignored once finalization has started. -/
def reduceWorkComplete (claim : Option Claim) : LifecycleAction :=
  match claim.filter fun c => c.state = .inProgress with
  | none => .noop
  | some c =>
      if c.finalizationState.isSome then .noop
      else .advanceFinalization .awaitingFinalize 0 none (some FINALIZE_LEASE_MS)

def reduceReadyToMerge (claim : Option Claim) : LifecycleAction :=
  match claim.filter fun c => c.state = .inProgress with
  | none => .noop
  | some c =>
      if c.finalizationState = some .finalizeRebaseInProgress then
        .advanceFinalization .readyToMerge 0 none (some FINALIZE_LEASE_MS)
      else .noop

def reduceLifecycleEvent (event : OrcEvent) (claim : Option Claim)
    (nowIso : String) : LifecycleAction :=
  match event.event with
  | .inputRequested =>
      if event.actorType = .coordinator then .noop
      else
        .setInputState (authoritativeTs dates
          (coerceEventTs dates event.ts nowIso) none nowIso)
  | .runStarted => reduceRunStarted dates event claim nowIso
  | .heartbeat => reduceHeartbeat dates event claim nowIso
  | .finalizeRebaseStarted => reduceRebaseStarted claim
  | .inputResponse => .clearInputState
  | .runFinished | .runFailed => reduceFinished dates event claim nowIso
  | .workComplete => reduceWorkComplete claim
  | .readyToMerge => reduceReadyToMerge claim
  | _ =>
      if phaseEvents.contains event.event then
        reducePhase dates event claim nowIso
      else .noop

/-! ## Applying the action -/

/-- `try { x } catch {}`. -/
def attempt {α : Type} (x : Op α) : Op Unit :=
  Effect.catching (do let _ ← x; pure ()) fun _ => pure ()

def newerHeartbeat (claim : Option Claim) (time : String) : Bool :=
  match claim.bind Claim.lastHeartbeatAt with
  | none => true
  | some last =>
      last = "" ||
        (dates.parse last).any fun l =>
          (dates.parse time).any fun t => l < t

def failsReview (s : Project) (runId : RunId) (agentId : AgentId)
    (success : Bool) : Bool :=
  !success && (s.findClaim runId).any fun c =>
    c.finalizationState = some .prReviewInProgress && c.agentId = agentId

def finishLogged (runId : RunId) (agentId : AgentId) (o : FinishOptions)
    (nowIso : String) : Op Unit :=
  finishRun dates runId agentId { o with emitEvent := false } nowIso

/--
Apply the action up to the first point where the coordinator waits: a failed
review is finished only after the master was told.
-/
def applyAction (event : OrcEvent) (action : LifecycleAction)
    (claim : Option Claim) (nowIso : String) : Op Unit := do
  let runId := event.runId.getD ""
  let agentId := event.agentId.getD ""
  match action with
  | .setInputState requestedAt =>
      attempt (setRunInputState dates runId agentId (some .awaitingInput)
        (some requestedAt) nowIso)
  | .startRun time =>
      startRun dates runId agentId { emitEvent := false, time := time } nowIso
  | .heartbeat time leaseDurationMs =>
      if newerHeartbeat dates claim time then
        attempt (heartbeat dates runId agentId
          { emitEvent := false, time := time
            leaseDurationMs := leaseDurationMs })
      else pure ()
  | .advanceFinalization state retryCountDelta blockedReason extendLeaseMs =>
      let _ ← setRunFinalizationState dates runId agentId
        { finalizationState := some state, retryCountDelta := retryCountDelta
          blockedReason := blockedReason }
      match extendLeaseMs with
      | none => pure ()
      | some ms =>
          attempt (heartbeat dates runId agentId
            { emitEvent := false, leaseDurationMs := ms, time := nowIso })
  | .clearInputState =>
      attempt (setRunInputState dates runId agentId none none nowIso)
  | .finishRun success failureReason failureCode policy time =>
      let s ← Effect.read
      if failsReview s runId agentId success then
        attempt (setRunFinalizationState dates runId agentId
          { finalizationState := some .prFailed })
      else
        finishLogged dates runId agentId
          { success := success, failureReason := failureReason
            failureCode := failureCode, policy := policy, time := time } nowIso
  | .noop => pure ()

def applyEvent (event : OrcEvent) (nowIso : String) : Op Unit := do
  let s ← Effect.read
  let claim :=
    if truthy event.runId then s.findClaim (event.runId.getD "") else none
  applyAction dates event (reduceLifecycleEvent dates event claim nowIso) claim
    nowIso

def finishReview (event : OrcEvent) (time nowIso : String) : Op Unit :=
  finishLogged dates (event.runId.getD "") (event.agentId.getD "")
    { success := false
      failureReason := some ("pr_review_failed: " ++
        (stringField event "reason").getD "unknown")
      failureCode := stringField event "code", time := time } nowIso

end OrcState.Coordinator
