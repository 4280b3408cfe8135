import OrcState.Contract.Types

/-!
# Task records

The task row of `runtime.db` joined with its latest revision, the run bindings
and transitions beside it, and the backlog view that lifecycle code mutates and
hands back.  The Markdown body and the titles of features are read by no lifecycle
operation and are left out.
-/

namespace OrcState.Contract

inductive TaskType where
  | implementation | refactor
  deriving DecidableEq, Repr

inductive PlanningState where
  | readyForDispatch | archived
  deriving DecidableEq, Repr

inductive TaskPriority where
  | low | normal | high | critical
  deriving DecidableEq, Repr

inductive TaskProvider where
  | codex | claude | gemini
  deriving DecidableEq, Repr

inductive ReviewLevel where
  | none | light | full
  deriving DecidableEq, Repr

inductive MergeStrategy where
  | direct | pr
  deriving DecidableEq, Repr

/-! ## Statuses -/

def TaskStatus.text : TaskStatus → String
  | .todo => "todo"
  | .claimed => "claimed"
  | .inProgress => "in_progress"
  | .done => "done"
  | .blocked => "blocked"
  | .released => "released"
  | .cancelled => "cancelled"

def TaskStatus.running : TaskStatus → Bool
  | .claimed | .inProgress => true
  | _ => false

def TaskStatus.merged : TaskStatus → Bool
  | .done | .released => true
  | _ => false

theorem TaskStatus.not_running_of_merged {status : TaskStatus}
    (h : status.merged = true) : status.running = false := by
  cases status with
  | done | released => rfl
  | _ => cases h

def TaskStatus.terminal : TaskStatus → Bool
  | .done | .released | .cancelled => true
  | _ => false

theorem TaskStatus.terminal_of_merged {status : TaskStatus}
    (h : status.merged = true) : status.terminal = true := by
  cases status with
  | done | released => rfl
  | _ => cases h

/-! ## Transitions -/

inductive TaskTransitionCause where
  | claim | runStart | mergeSucceeded | postMergeRelease
  | failureRequeue | failureBlock | manualBlock | unblock
  | operatorReset | cancel | migrationImport
  deriving DecidableEq, Repr

def TaskTransitionCause.text : TaskTransitionCause → String
  | .claim => "claim"
  | .runStart => "run_start"
  | .mergeSucceeded => "merge_succeeded"
  | .postMergeRelease => "post_merge_release"
  | .failureRequeue => "failure_requeue"
  | .failureBlock => "failure_block"
  | .manualBlock => "manual_block"
  | .unblock => "unblock"
  | .operatorReset => "operator_reset"
  | .cancel => "cancel"
  | .migrationImport => "migration_import"

/-- Lifecycle authority, independent of where task definitions are stored. -/
def canTransitionTaskStatus (fromStatus toStatus : TaskStatus) :
    TaskTransitionCause → Bool
  | .claim => fromStatus = .todo && toStatus = .claimed
  | .runStart => fromStatus = .claimed && toStatus = .inProgress
  | .mergeSucceeded => fromStatus = .inProgress && toStatus = .done
  | .postMergeRelease => fromStatus = .done && toStatus = .released
  | .failureRequeue =>
      (fromStatus = .claimed || fromStatus = .inProgress) && toStatus = .todo
  | .failureBlock =>
      (fromStatus = .claimed || fromStatus = .inProgress) && toStatus = .blocked
  | .manualBlock => fromStatus = .todo && toStatus = .blocked
  | .unblock => fromStatus = .blocked && toStatus = .todo
  | .operatorReset => fromStatus ≠ .todo && toStatus = .todo
  | .cancel =>
      !([.done, .released, .cancelled] : List TaskStatus).contains fromStatus &&
        toStatus = .cancelled
  | .migrationImport =>
      fromStatus = .todo &&
        ([.blocked, .done, .released, .cancelled] : List TaskStatus).contains
          toStatus

structure TaskTransition where
  taskRef : TaskRef
  fromStatus : TaskStatus
  toStatus : TaskStatus
  cause : TaskTransitionCause
  reason : Option String
  runId : Option RunId
  actorId : Option AgentId
  idempotencyKey : Option String
  createdAt : String
  deriving DecidableEq, Repr

/-! ## Run bindings -/

inductive RunState where
  | claimed | inProgress | workComplete | finished | failed | cancelled
  deriving DecidableEq, Repr

def RunState.active : RunState → Bool
  | .claimed | .inProgress | .workComplete => true
  | _ => false

structure TaskRun where
  runId : RunId
  taskRef : TaskRef
  specRevision : Nat
  agentId : Option AgentId
  state : RunState
  createdAt : String
  updatedAt : String
  deriving DecidableEq, Repr

def TaskRun.active (run : TaskRun) : Bool := run.state.active

/-! ## Tasks -/

structure TaskDefinition where
  title : String
  priority : TaskPriority := .normal
  requiredProvider : Option TaskProvider := none
  dependsOn : List TaskRef := []
  description : Option String := none
  acceptanceCriteria : List String := []
  reviewLevel : Option ReviewLevel := none
  mergeStrategy : Option MergeStrategy := none
  requiredCapabilities : List String := []
  model : Option String := none
  deriving DecidableEq, Repr

structure TaskDispatchState where
  owner : Option AgentId := none
  planningState : Option PlanningState := none
  delegatedBy : Option AgentId := none
  taskType : Option TaskType := none
  requeueEligibleAfter : Option String := none
  deriving DecidableEq, Repr

/-- `feature` and `metaTaskType` are two fields of the revision's metadata. -/
structure ProjectTask where
  ref : TaskRef
  status : TaskStatus := .todo
  attemptCount : Nat := 0
  blockedReason : Option String := none
  revision : Nat := 1
  createdAt : String := ""
  updatedAt : String := ""
  dispatch : TaskDispatchState := {}
  feature : Option String := none
  metaTaskType : Option TaskType := none
  definition : TaskDefinition
  deriving DecidableEq, Repr

/-- The `Task` of the backlog shape, with the feature that lists it. -/
structure Task where
  ref : TaskRef
  featureRef : String
  status : TaskStatus
  taskType : TaskType
  planningState : Option PlanningState
  delegatedBy : Option AgentId
  attemptCount : Nat
  requeueEligibleAfter : Option String
  blockedReason : Option String
  owner : Option AgentId
  definition : TaskDefinition
  deriving DecidableEq, Repr

end OrcState.Contract
