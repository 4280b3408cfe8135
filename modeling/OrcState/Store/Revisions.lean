import OrcState.Store.Operations

/-!
# Spec revisions

The tables behind a task: its row, its immutable revisions, its dependencies and
its run bindings.  `getTask` joins the row with the latest revision; authoring
writes the row, a new revision and the dependencies in one transaction, and the
lifecycle reads the join and writes the columns that are its own.
-/

namespace OrcState.Store

open OrcState.Contract OrcState.Foundation

/-! ## Tables -/

structure TaskRuntime where
  status : TaskStatus := .todo
  attemptCount : Nat := 0
  blockedReason : Option String := none
  updatedAt : String
  dispatch : TaskDispatchState := {}
  deriving DecidableEq

structure TaskRow where
  ref : TaskRef
  title : String
  priority : TaskPriority
  requiredProvider : Option TaskProvider
  createdAt : String
  runtime : TaskRuntime
  deriving DecidableEq

structure TaskDependency where
  taskRef : TaskRef
  dependsOnRef : TaskRef
  deriving DecidableEq

structure SpecStore where
  rows : Table TaskRef TaskRow TaskRow.ref := Table.empty
  revisions : List TaskSpecRevision := []
  dependencies : List TaskDependency := []
  transitions : List TaskTransition := []
  taskRuns : Table RunId TaskRun TaskRun.runId := Table.empty
  deriving DecidableEq

abbrev Specs (α : Type) := Txn SpecStore DomainError α

namespace SpecStore

/-! ## Reading -/

def revisionsOf (s : SpecStore) (ref : TaskRef) : List TaskSpecRevision :=
  s.revisions.filter fun r => r.taskRef = ref

def latestRevision (s : SpecStore) (ref : TaskRef) : Option TaskSpecRevision :=
  (s.revisionsOf ref).find? fun r =>
    (s.revisionsOf ref).all fun other => other.revision ≤ r.revision

def dependenciesOf (s : SpecStore) (ref : TaskRef) : List TaskRef :=
  ((s.dependencies.filter fun d => d.taskRef = ref).map
    TaskDependency.dependsOnRef).insertionSort (· ≤ ·)

def getRevision (s : SpecStore) (ref : TaskRef) (revision : Nat) :
    Option TaskSpecRevision :=
  s.revisions.find? fun r => r.taskRef = ref && r.revision = revision

structure CurrentTask where
  row : TaskRow
  latest : TaskSpecRevision
  dependsOn : List TaskRef
  deriving DecidableEq

def getTask (s : SpecStore) (ref : TaskRef) : Option CurrentTask := do
  let row ← s.rows.find? ref
  let latest ← s.latestRevision ref
  return ⟨row, latest, s.dependenciesOf ref⟩

def getRunSpec (s : SpecStore) (runId : RunId) : Option TaskSpecRevision := do
  let run ← s.taskRuns.find? runId
  s.getRevision run.taskRef run.specRevision

/-! ## Authoring -/

def pinned (ref : TaskRef) (revision : Nat) (spec : TaskSpec) (now : String) :
    TaskSpecRevision where
  taskRef := ref
  revision := revision
  title := spec.title
  bodyMarkdown := spec.bodyMarkdown
  metadata := revisionMetadata spec
  createdAt := now

def insertRevision (ref : TaskRef) (revision : Nat) (spec : TaskSpec)
    (now : String) : Specs Unit := do
  let s ← get
  Txn.throwIf (hasText (some spec.title) = false)
    (plainError "CHECK constraint failed: length(trim(title)) > 0")
  Txn.throwIf ((s.getRevision ref revision).isSome = true)
    (plainError ("UNIQUE constraint failed: task_spec_revisions.task_ref, " ++
      "task_spec_revisions.revision"))
  set { s with revisions := s.revisions ++ [pinned ref revision spec now] }

def replaceDependencies (ref : TaskRef) (dependsOn : List TaskRef) :
    Specs Unit := do
  Txn.throwIf (∃ dependency ∈ dependsOn, hasText (some dependency) = false)
    (plainError "CHECK constraint failed: length(trim(depends_on_ref)) > 0")
  Txn.throwIf (ref ∈ dependsOn)
    (plainError "CHECK constraint failed: task_ref <> depends_on_ref")
  Txn.throwIf (¬ dependsOn.Nodup)
    (plainError ("UNIQUE constraint failed: task_dependencies.task_ref, " ++
      "task_dependencies.depends_on_ref"))
  modify fun s =>
    { s with
      dependencies := (s.dependencies.filter fun d => d.taskRef ≠ ref) ++
        dependsOn.map (TaskDependency.mk ref) }

def rowBefore (a b : TaskRow) : Prop :=
  a.createdAt < b.createdAt ∨ a.createdAt = b.createdAt ∧ a.ref ≤ b.ref

instance : DecidableRel rowBefore := fun a b =>
  inferInstanceAs (Decidable
    (a.createdAt < b.createdAt ∨ a.createdAt = b.createdAt ∧ a.ref ≤ b.ref))

def newRow (ref : TaskRef) (spec : TaskSpec) (now : String) : TaskRow where
  ref := ref
  title := spec.title
  priority := spec.priority
  requiredProvider := spec.requiredProvider
  createdAt := now
  runtime := { updatedAt := now }

def insertRow (row : TaskRow) : Specs Unit := do
  let s ← get
  Txn.throwIf (hasText (some row.ref) = false)
    (plainError "CHECK constraint failed: length(trim(ref)) > 0")
  Txn.throwIf (hasText (some row.title) = false)
    (plainError "CHECK constraint failed: length(trim(title)) > 0")
  let rows ← Txn.orThrow (s.rows.insertOrdered? rowBefore row)
    (plainError "UNIQUE constraint failed: tasks.ref")
  set { s with rows := rows }

def createTask (input : TaskSpecInput) (now : String) : Specs Unit := do
  let spec ← firstSpec input
  let created := input.createdAt.getD now
  let s ← get
  Txn.throwIf ((s.rows.find? input.ref).isSome = true)
    (conflictError ("Task already exists: " ++ input.ref))
  insertRow (newRow input.ref spec created)
  insertRevision input.ref 1 spec created
  replaceDependencies input.ref spec.dependsOn

/-- `changes.title`, else the heading of a changed body, else the title. -/
def revisedTitle (changes : TaskSpecChanges) (current : CurrentTask) : String :=
  (changes.title.or (changes.bodyMarkdown.bind parseBodyTitle)).getD
    current.row.title

def revisedDependencies {σ : Type} (changes : TaskSpecChanges)
    (current : CurrentTask) : Txn σ DomainError (List TaskRef) :=
  match changes.dependsOn with
  | none => pure current.dependsOn
  | some dependsOn => normalizeDependencies current.row.ref dependsOn

def revised {σ : Type} (changes : TaskSpecChanges) (current : CurrentTask) :
    Txn σ DomainError TaskSpec := do
  let title := revisedTitle changes current
  Txn.throwIf (blank title = true) (inputError "Task title is required")
  let dependsOn ← revisedDependencies changes current
  return {
    title := title
    bodyMarkdown := changes.bodyMarkdown.getD current.latest.bodyMarkdown
    metadata := changes.metadata.getD current.latest.metadata.base
    priority := changes.priority.getD current.row.priority
    requiredProvider :=
      changes.requiredProvider.getD current.row.requiredProvider
    dependsOn := dependsOn }

def unchanged (spec : TaskSpec) (current : CurrentTask) : Bool :=
  revisionMetadata spec = current.latest.metadata &&
    spec.title = current.row.title &&
      spec.bodyMarkdown = current.latest.bodyMarkdown

def reviseRow (spec : TaskSpec) (now : String) (row : TaskRow) : TaskRow :=
  { row with
    title := spec.title
    priority := spec.priority
    requiredProvider := spec.requiredProvider
    runtime := { row.runtime with updatedAt := now } }

theorem reviseRow_ref (spec : TaskSpec) (now : String) (row : TaskRow) :
    (reviseRow spec now row).ref = row.ref := rfl

def updateRow (ref : TaskRef) (spec : TaskSpec) (now : String) : Specs Unit :=
  modify fun s =>
    { s with
      rows := s.rows.update ref (reviseRow spec now) (reviseRow_ref spec now) }

/--
Save an edit as a new immutable revision.  An edit that changes nothing returns
the current revision, whatever its base; any other must name the latest one.
-/
def reviseTask (ref : TaskRef) (expectedRevision : Int)
    (changes : TaskSpecChanges) (now : String) : Specs Bool := do
  Txn.throwIf (expectedRevision < 1)
    (inputError "expected revision must be a positive integer")
  let s ← get
  let current ← Txn.orThrow (s.getTask ref)
    (notFoundError ("Task not found: " ++ ref))
  let spec ← revised changes current
  if unchanged spec current = true then return false
  else do
    Txn.throwIf ((current.latest.revision : Int) ≠ expectedRevision)
      (plainError ("Task " ++ ref ++ " revision conflict: expected revision " ++
        toString expectedRevision ++ ", current revision is " ++
        toString current.latest.revision))
    insertRevision ref (current.latest.revision + 1) spec now
    updateRow ref spec now
    replaceDependencies ref spec.dependsOn
    return true

/-! ## The store as the lifecycle reads it -/

def joined (row : TaskRow) (latest : TaskSpecRevision)
    (dependsOn : List TaskRef) : ProjectTask where
  ref := row.ref
  status := row.runtime.status
  attemptCount := row.runtime.attemptCount
  blockedReason := row.runtime.blockedReason
  revision := latest.revision
  createdAt := row.createdAt
  updatedAt := row.runtime.updatedAt
  dispatch := row.runtime.dispatch
  feature := latest.metadata.textOf "feature"
  metaTaskType := taskTypeOf latest.metadata
  definition := definitionOf row.title row.priority row.requiredProvider
    dependsOn latest.metadata

/-- `listTasks`: a row without a revision is not in the join. -/
def join (s : SpecStore) (row : TaskRow) : Option ProjectTask :=
  (s.latestRevision row.ref).map fun latest =>
    joined row latest (s.dependenciesOf row.ref)

theorem join_ref {s : SpecStore} {row : TaskRow} {task : ProjectTask}
    (h : s.join row = some task) : task.ref = row.ref := by
  obtain ⟨latest, -, rfl⟩ := Option.map_eq_some_iff.mp h
  rfl

def view (s : SpecStore) : TaskStore where
  tasks :=
    { rows := s.rows.rows.filterMap s.join
      nodup := by
        refine List.pairwise_map.mpr ?_
        refine (List.pairwise_map.mp s.rows.nodup).filterMap s.join ?_
        intro a b hne x hx y hy
        rw [join_ref hx, join_ref hy]
        exact hne }
  transitions := s.transitions
  taskRuns := s.taskRuns

def runtimeOf (task : ProjectTask) : TaskRuntime where
  status := task.status
  attemptCount := task.attemptCount
  blockedReason := task.blockedReason
  updatedAt := task.updatedAt
  dispatch := task.dispatch

def settle (ts : TaskStore) (row : TaskRow) : TaskRow :=
  match ts.getTask row.ref with
  | some task => { row with runtime := runtimeOf task }
  | none => row

theorem settle_ref (ts : TaskStore) (row : TaskRow) :
    (settle ts row).ref = row.ref := by
  unfold settle
  split <;> rfl

def withRuntime (s : SpecStore) (ts : TaskStore) : SpecStore :=
  { s with
    rows := s.rows.map (settle ts) (settle_ref ts)
    transitions := ts.transitions
    taskRuns := ts.taskRuns }

def onRuntime {α : Type} (x : Tasks α) : Specs α := fun s =>
  match x s.view with
  | .ok (a, ts) => .ok (a, s.withRuntime ts)
  | .error e => .error e

def claimTask (ref : TaskRef) (runId : RunId) (agentId : AgentId)
    (now : String) : Specs ProjectTask :=
  onRuntime (TaskStore.claimTask ref runId agentId now)

end SpecStore

/-! ## Editors and workers -/

inductive SpecOp where
  | createTask (input : TaskSpecInput)
  | reviseTask (ref : TaskRef) (expectedRevision : Int)
      (changes : TaskSpecChanges)
  | claimTask (ref : TaskRef) (runId : RunId) (agentId : AgentId)
  | lifecycle (op : StoreOp)

def SpecOp.perform (now : String) : SpecOp → Specs Unit
  | .createTask input => SpecStore.createTask input now
  | .reviseTask ref expectedRevision changes =>
      discard (SpecStore.reviseTask ref expectedRevision changes now)
  | .claimTask ref runId agentId =>
      discard (SpecStore.claimTask ref runId agentId now)
  | .lifecycle op => SpecStore.onRuntime (op.perform now)

def SpecOp.enabled : SpecOp → Bool
  | .lifecycle op => op.lifecycle
  | _ => true

/-- Any number of editors and workers, one immediate transaction at a time. -/
def specSystem : System SpecStore (String × SpecOp) where
  initial s := s = {}
  step s op :=
    if op.2.enabled then some ((op.2.perform op.1).commit s) else none

end OrcState.Store
