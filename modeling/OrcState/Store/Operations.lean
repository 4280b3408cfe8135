import OrcState.Contract.Spec
import OrcState.Store.ProjectTasks
import OrcState.Foundation.Transition

/-!
# The operations of the task store

Every way a caller writes `runtime.db`: tasks are created, transitions applied,
runs bound, closed and reopened, backlogs committed and restored, and a legacy
installation imported.  Each is one transaction, or a savepoint of the one it is
called in, and `now` is the reading of its clock.
-/

namespace OrcState.Store

open OrcState.Contract OrcState.Foundation

/-! ## Creating a task -/

def normalizeDependencies {σ : Type} (ref : TaskRef) (dependsOn : List TaskRef) :
    Txn σ DomainError (List TaskRef) := do
  let unique := dependsOn.eraseDups
  unique.forM fun dependency => do
    Txn.throwIf (blank dependency = true)
      (inputError "Task dependencies must be non-empty strings")
    Txn.throwIf (dependency = ref)
      (inputError ("Task " ++ ref ++ " cannot depend on itself"))
  return unique.insertionSort fun a b => jsLe a b = true

def newTask (ref : TaskRef) (spec : TaskSpec) (now : String) : ProjectTask where
  ref := ref
  createdAt := now
  updatedAt := now
  feature := spec.metadata.textOf "feature"
  metaTaskType := taskTypeOf spec.metadata
  definition := definitionOf spec.title spec.priority spec.requiredProvider
    (spec.dependsOn.insertionSort (· ≤ ·)) spec.metadata

def listedBefore (a b : ProjectTask) : Prop :=
  a.createdAt < b.createdAt ∨ a.createdAt = b.createdAt ∧ a.ref ≤ b.ref

instance : DecidableRel listedBefore := fun a b =>
  inferInstanceAs (Decidable
    (a.createdAt < b.createdAt ∨ a.createdAt = b.createdAt ∧ a.ref ≤ b.ref))

def firstSpec {σ : Type} (input : TaskSpecInput) : Txn σ DomainError TaskSpec := do
  let title ← Txn.orThrow
    ((input.title.or (parseBodyTitle input.bodyMarkdown)).filter
      fun title => !blank title)
    (inputError "Task ref and title are required")
  Txn.throwIf (blank input.ref = true)
    (inputError "Task ref and title are required")
  let dependsOn ← normalizeDependencies input.ref input.dependsOn
  return {
    title := title
    bodyMarkdown := input.bodyMarkdown
    metadata := input.metadata
    priority := input.priority.getD .normal
    requiredProvider := input.requiredProvider
    dependsOn := dependsOn }

/-- The `CHECK` constraints on the texts of a new row. -/
def checkTexts {σ : Type} (title : String) (dependsOn : List TaskRef) :
    Txn σ DomainError Unit := do
  Txn.throwIf (hasText (some title) = false)
    (plainError "CHECK constraint failed: length(trim(title)) > 0")
  Txn.throwIf (∃ dependency ∈ dependsOn, hasText (some dependency) = false)
    (plainError "CHECK constraint failed: length(trim(depends_on_ref)) > 0")

def createTask (input : TaskSpecInput) (now : String) : Tasks ProjectTask := do
  let spec ← firstSpec input
  let ts ← get
  Txn.throwIf ((ts.getTask input.ref).isSome = true)
    (conflictError ("Task already exists: " ++ input.ref))
  Txn.throwIf (hasText (some input.ref) = false)
    (plainError "CHECK constraint failed: length(trim(ref)) > 0")
  checkTexts spec.title spec.dependsOn
  let task := newTask input.ref spec (input.createdAt.getD now)
  let tasks ← Txn.orThrow (ts.tasks.insertOrdered? listedBefore task)
    (plainError "UNIQUE constraint failed: tasks.ref")
  set { ts with tasks := tasks }
  return task

/-! ## Bindings -/

/-- `bindRun` with an explicit revision, which must be one of the task's. -/
def bindRunAt (runId : RunId) (ref : TaskRef) (agentId : Option AgentId)
    (revision : Nat) (now : String) : Tasks Unit := do
  let ts ← get
  set (ts.moveRuns ref RunState.active .failed now)
  insertTaskRun
    { runId := runId
      taskRef := ref
      specRevision := revision
      agentId := agentId
      state := .claimed
      createdAt := now
      updatedAt := now }
  Txn.throwIf ((ts.getTask ref).all fun task =>
      !(1 ≤ revision && revision ≤ task.revision))
    (plainError "FOREIGN KEY constraint failed")

def TaskRun.reactivated (now : String) (run : TaskRun) : TaskRun :=
  { run with state := .claimed, updatedAt := now }

def reactivateRun (runId : RunId) (now : String) : Tasks Unit := do
  let ts ← get
  Txn.throwIf (∃ run ∈ ts.taskRuns.rows, run.runId = runId ∧
      ∃ other ∈ ts.taskRuns.rows, other.runId ≠ runId ∧
        other.active = true ∧ other.taskRef = run.taskRef)
    (plainError "UNIQUE constraint failed: task_runs.task_ref")
  set
    { ts with
      taskRuns := ts.taskRuns.update runId (TaskRun.reactivated now)
        fun _ => rfl }

/-! ## Rolling a session reset back -/

/-- The restored run claims its task again, and starts it where it was started. -/
def reclaimTask (claim : Claim) (now : String) (task : Task) : Tasks Unit := do
  applyTransition task.ref
    { cause := .claim, toStatus := .claimed, runId := some claim.runId
      actorId := some "human", reason := some "session_reset_rollback" } now
  reactivateRun claim.runId now
  if task.status = .inProgress then
    applyTransition task.ref
      { cause := .runStart, toStatus := .inProgress
        runId := some claim.runId, actorId := some "human" } now
  else pure ()

def restoreTask (claims : List Claim) (now : String) (task : Task) :
    Tasks Unit := do
  let ts ← get
  if task.status.running = false ∨
      (ts.getTask task.ref).map ProjectTask.status ≠ some .todo then pure ()
  else
    match claims.find? fun c => c.taskRef = task.ref && c.active with
    | none => pure ()
    | some claim => reclaimTask claim now task

def restoreBacklogStatuses (backlog : Backlog) (claims : List Claim)
    (now : String) : Tasks Unit :=
  backlog.forM (restoreTask claims now)

/-! ## Importing a legacy installation -/

structure PlannedTask where
  ref : TaskRef
  status : TaskStatus
  spec : Except DomainError TaskSpecInput
  dispatch : TaskDispatchState := {}
  attemptCount : Nat := 0
  blockedReason : Option String := none
  createdAt : Option String := none

def PlannedTask.created (task : PlannedTask) (spec : TaskSpecInput) :
    TaskSpecInput :=
  if truthy task.createdAt then { spec with createdAt := task.createdAt }
  else spec

def importStatus (now : String) (task : PlannedTask) : Tasks Unit :=
  if task.status = .todo then pure ()
  else
    applyTransition task.ref
      { cause := .migrationImport, toStatus := task.status
        actorId := some "human", idempotencyKey := some "migration_import"
        reason := some (task.blockedReason.getD
          "status carried over from the legacy installation") } now

def importPlannedTask (now : String) (task : PlannedTask) : Tasks Unit := do
  let spec ← liftM task.spec
  let _ ← createTask (task.created spec) now
  importStatus now task
  setDispatchState task.ref task.dispatch task.attemptCount

def importPlannedTasks (tasks : List PlannedTask) (now : String) : Tasks Unit :=
  tasks.forM (importPlannedTask now)

/-! ## Any operation -/

inductive StoreOp where
  | createTask (input : TaskSpecInput)
  | applyTransition (ref : TaskRef) (input : TaskTransitionInput)
  | claimTask (ref : TaskRef) (runId : RunId) (agentId : AgentId)
  | bindRun (runId : RunId) (ref : TaskRef) (agentId : Option AgentId)
      (revision : Option Nat)
  | abandonRun (runId : RunId)
  | reactivateRun (runId : RunId)
  | setDispatchState (ref : TaskRef) (state : TaskDispatchState)
      (attemptCount : Nat)
  | commitBacklog (backlog : Backlog) (changes : TaskStatusChanges)
  | restoreBacklogStatuses (backlog : Backlog) (claims : List Claim)
  | importPlannedTasks (tasks : List PlannedTask)
  | inTransaction (ops : List StoreOp)
  | attempt (op : StoreOp)

mutual

def StoreOp.perform (now : String) : StoreOp → Tasks Unit
  | .createTask input => discard (Store.createTask input now)
  | .applyTransition ref input => Store.applyTransition ref input now
  | .claimTask ref runId agentId =>
      discard (TaskStore.claimTask ref runId agentId now)
  | .bindRun runId ref agentId none =>
      discard (Store.bindRun runId ref agentId now)
  | .bindRun runId ref agentId (some revision) =>
      bindRunAt runId ref agentId revision now
  | .abandonRun runId => Store.abandonRun runId now
  | .reactivateRun runId => Store.reactivateRun runId now
  | .setDispatchState ref state attemptCount =>
      Store.setDispatchState ref state attemptCount
  | .commitBacklog backlog changes => Store.commitBacklog backlog changes now
  | .restoreBacklogStatuses backlog claims =>
      Store.restoreBacklogStatuses backlog claims now
  | .importPlannedTasks tasks => Store.importPlannedTasks tasks now
  | .inTransaction ops => StoreOp.performAll now ops
  | .attempt op => Txn.attempt (StoreOp.perform now op)

def StoreOp.performAll (now : String) : List StoreOp → Tasks Unit
  | [] => pure ()
  | op :: rest => do
      StoreOp.perform now op
      StoreOp.performAll now rest

end

mutual

def StoreOp.lifecycle : StoreOp → Bool
  | .createTask _ | .importPlannedTasks _ => false
  | .inTransaction ops => StoreOp.allLifecycle ops
  | .attempt op => StoreOp.lifecycle op
  | .applyTransition .. | .claimTask .. | .bindRun .. | .abandonRun _
  | .reactivateRun _ | .setDispatchState .. | .commitBacklog ..
  | .restoreBacklogStatuses .. => true

def StoreOp.allLifecycle : List StoreOp → Bool
  | [] => true
  | op :: rest => StoreOp.lifecycle op && StoreOp.allLifecycle rest

end

def storeSystem : System TaskStore (String × StoreOp) where
  initial ts := ts = {}
  step ts op := some ((op.2.perform op.1).commit ts)

end OrcState.Store
