import OrcState.Lifecycle.ClaimManager
import Mathlib.Data.List.Basic

/-!
# Reconciling claims and tasks

Cross-checks the two stores and repairs what a crash between their writes left:
active claims of unknown tasks, duplicate active claims, claims their task row
does not reflect, and running tasks without a claim.  Unlike every other
operation it commits the backlog before the claims.  Here the claims are the
rows of the store, where the index admits no duplicate; `ClaimsDir` adds the
file they come from.
-/

namespace OrcState.Lifecycle

open OrcState.Contract OrcState.Foundation OrcState.Store

/-- `localeCompare(…, 'en')` on run ids: the hyphen, the digits and the
lower-case letters that `runIdRe` allows collate in the order of their codes. -/
def localeCompare (left right : String) : Ordering := compare left right

def duplicateOrder (left right : Claim) : Bool :=
  match compare left.claimedAt right.claimedAt with
  | .lt => true
  | .gt => false
  | .eq => localeCompare left.runId right.runId ≠ .gt

def selectDuplicateClaimWinner (claims : List Claim) : Option Claim :=
  (claims.mergeSort duplicateOrder).head?

/-! ## The active claims -/

def knownTask (backlog : Backlog) (ref : TaskRef) : Bool :=
  ref ≠ "" && (findTask backlog ref).isSome

def orphans (claims : List Claim) (backlog : Backlog) : List Claim :=
  claims.filter fun c => c.active && !knownTask backlog c.taskRef

def activeClaimsOf (claims : List Claim) (backlog : Backlog) (ref : TaskRef) :
    List Claim :=
  claims.filter fun c =>
    c.active && knownTask backlog c.taskRef && c.taskRef = ref

def activeClaimOf (claims : List Claim) (backlog : Backlog) (ref : TaskRef) :
    Option Claim :=
  match activeClaimsOf claims backlog ref with
  | [] => none
  | [claim] => some claim
  | several => selectDuplicateClaimWinner several

def duplicates (claims : List Claim) (backlog : Backlog) : List Claim :=
  let known := claims.filter fun c => c.active && knownTask backlog c.taskRef
  (known.map Claim.taskRef).eraseDups.flatMap fun ref =>
    (activeClaimsOf claims backlog ref).filter fun c =>
      (activeClaimOf claims backlog ref).any fun kept => c.runId ≠ kept.runId

/-! ## The tasks -/

inductive Verdict where
  | consistent
  | mismatch (claim : Claim)
  | started (claim : Claim)
  | missing
  deriving DecidableEq, Repr

/-- Project SQLite is authoritative: a claim its row contradicts is the orphan. -/
def inspectTask (claims : List Claim) (backlog : Backlog) (task : Task) :
    Verdict :=
  if task.ref = "" then .consistent
  else
    match activeClaimOf claims backlog task.ref with
    | some claim =>
        let expectedStatus : TaskStatus :=
          if claim.state = .inProgress then .inProgress else .claimed
        if task.status.merged then .consistent
        else if task.status = expectedStatus then .consistent
        else if task.status = .claimed && expectedStatus = .inProgress then
          .started claim
        else .mismatch claim
    | none => if task.status.running then .missing else .consistent

def Verdict.mismatched : Verdict → Option Claim
  | .mismatch claim => some claim
  | _ => none

def repairTask (verdict : Verdict) (task : Task) : Task :=
  match verdict with
  | .started _ => { task with status := .inProgress }
  | .missing => { task with status := .todo }
  | _ => task

def repairChange (verdict : Verdict) (ref : TaskRef) :
    Option (TaskRef × TaskStatusChange) :=
  match verdict with
  | .started claim =>
      some (ref,
        { cause := .runStart, runId := some claim.runId
          actorId := some "reconcile" })
  | .missing =>
      some (ref,
        { cause := .failureRequeue, actorId := some "reconcile"
          reason := some "reconcile_missing_claim" })
  | _ => none

/-! ## The repair -/

def failedClaims (claims : List Claim) (backlog : Backlog) :
    List (Claim × String) :=
  (orphans claims backlog).map (·, "reconcile_orphan_claim") ++
    (duplicates claims backlog).map (·, "reconcile_duplicate_claim") ++
    (backlog.filterMap fun task =>
      (inspectTask claims backlog task).mismatched).map
        (·, "reconcile_status_mismatch")

def reconcileEvent (now : String) (failed : Claim × String) : OrcEvent :=
  runEvent now .runFailed .coordinator "reconcile" failed.1
    [("reason", .str failed.2), ("code", .str "ERR_RECONCILE"),
      ("policy", .str "requeue")]

def reconciledClaims (claims : List Claim) (failed : List (Claim × String)) :
    List Claim :=
  mutateClaims claims
    (fun c => (failed.map fun f => f.1.runId).contains c.runId)
    fun c => { c with state := .failed }

def commitRepairs (changes : TaskStatusChanges) (backlog : Backlog)
    (now : String) : Op Unit :=
  if changes = [] then pure () else onTasks (commitBacklog backlog changes now)

variable (dates : DateApi)

def commitFailures (claims : List Claim) (failed : List (Claim × String))
    (now : String) : Op Unit :=
  if failed = [] then pure ()
  else
    onEvents (commitClaims dates (reconciledClaims claims failed)
      (failed.map (reconcileEvent now)))

def reconcileState (now : String) : Op Unit := do
  let s ← Effect.read
  let backlog := s.backlog
  let verdict := inspectTask s.claims backlog
  let failed := failedClaims s.claims backlog
  let changes := backlog.filterMap fun task =>
    repairChange (verdict task) task.ref
  commitRepairs changes
    (backlog.map fun task => repairTask (verdict task) task) now
  commitFailures dates s.claims failed now

end OrcState.Lifecycle
