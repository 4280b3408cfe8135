import OrcState.Lifecycle.ClaimManager

/-!
# Stale leases

One pass over the claims in order, with the backlog changing as it goes: the
pass reads the status that an earlier claim of the same task left in memory.
-/

namespace OrcState.Lifecycle

open OrcState.Contract OrcState.Foundation OrcState.Store

def INPUT_WAIT_TIMEOUT_MS : Int := 3600000

variable (dates : DateApi)

def inputRequestedAt (claim : Claim) : Option Int :=
  if truthy claim.inputRequestedAt then
    dates.parse (claim.inputRequestedAt.getD "")
  else dates.parse (claim.lastHeartbeatAt.getD claim.claimedAt)

def dueForExpiry (now : Int) (claim : Claim) : Bool :=
  if claim.inputState = some .awaitingInput then
    !(inputRequestedAt dates claim).any fun requested =>
      now - requested < INPUT_WAIT_TIMEOUT_MS
  else
    truthy (some claim.leaseExpiresAt) &&
      !(dates.parse claim.leaseExpiresAt).any fun lease => now < lease

def expiryCode (claim : Claim) : String :=
  if claim.inputState = some .awaitingInput then "ERR_INPUT_TIMEOUT"
  else "ERR_LEASE_EXPIRED"

def expireClaim (now : Int) (claim : Claim) : Claim :=
  resetClaimVolatileFields
    { claim with
      state := .failed
      finishedAt := some (dates.toISOString now)
      failureReason :=
        if claim.inputState = some .awaitingInput then
          some "ERR_INPUT_TIMEOUT"
        else claim.failureReason }

def expireTask (policy : String) (now : Int) (task : Task) : Task :=
  if policy = "block" then { task with status := .blocked }
  else countAttempt dates "expired" now task

structure Expiry where
  claims : List Claim := []
  backlog : Backlog
  expired : List Claim := []
  changes : TaskStatusChanges := []
  deriving DecidableEq

/-- A merged task is in its finalize window: the lease must not fail its run. -/
def expires (now : Int) (backlog : Backlog) (claim : Claim) : Bool :=
  claim.active && dueForExpiry dates now claim &&
    !(findTask backlog claim.taskRef).any fun task => task.status.merged

def expiryChange (actorId : AgentId) (claim : Claim) (task : Task) :
    TaskStatusChange where
  cause := if task.status = .blocked then .failureBlock else .failureRequeue
  runId := some claim.runId
  actorId := some actorId
  reason := some (task.blockedReason.getD (expiryCode claim))

/-- The task of an expired claim, unless an operator moved it off the run. -/
def Expiry.failTask (policy : String) (actorId : AgentId) (now : Int)
    (claim : Claim) (acc : Expiry) : Expiry :=
  match findTask acc.backlog claim.taskRef with
  | none => acc
  | some task =>
      if task.status.running then
        let failed := expireTask dates policy now task
        { acc with
          backlog := mutateTask acc.backlog claim.taskRef fun _ => failed
          changes :=
            (claim.taskRef, expiryChange actorId claim failed) :: acc.changes }
      else acc

def Expiry.visit (policy : String) (actorId : AgentId) (now : Int)
    (acc : Expiry) (claim : Claim) : Expiry :=
  if expires dates now acc.backlog claim then
    Expiry.failTask dates policy actorId now claim
      { acc with
        claims := acc.claims ++ [expireClaim dates now claim]
        expired := acc.expired ++ [claim] }
  else { acc with claims := acc.claims ++ [claim] }

def expiryEvent (policy : String) (actorId : AgentId) (now : Int)
    (claim : Claim) : OrcEvent where
  ts := dates.toISOString now
  event := .claimExpired
  actorType := .coordinator
  actorId := actorId
  runId := some claim.runId
  taskRef := some claim.taskRef
  payload := [("policy", .str policy), ("code", .str (expiryCode claim))]

def expireStaleLeases (policy : String) (actorId : AgentId) (now : Int) :
    Op (List RunId) := do
  let s ← Effect.read
  let acc := s.claims.foldl (Expiry.visit dates policy actorId now)
    { backlog := s.backlog }
  if acc.expired = [] then pure [] else do
    commitBoth dates acc.claims
      (acc.expired.map (expiryEvent dates policy actorId now)) acc.backlog
      acc.changes (dates.toISOString now)
    pure (acc.expired.map Claim.runId)

end OrcState.Lifecycle
