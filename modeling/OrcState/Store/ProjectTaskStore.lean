import OrcState.Contract.Task
import OrcState.Foundation.Table
import OrcState.Foundation.Transaction
import Mathlib.Data.Set.Insert

/-!
# runtime.db

The task rows of a project, their transitions and their run bindings, with the
schema's triggers and constraints as part of each write.  Rows stand in the order
of `listTasks`.  The guard against a status change without a transition never
fires, since `transitions_apply` is the only statement that writes a status.
-/

namespace OrcState.Store

open OrcState.Contract OrcState.Foundation

structure TaskStore where
  tasks : Table TaskRef ProjectTask ProjectTask.ref := Table.empty
  transitions : List TaskTransition := []
  taskRuns : Table RunId TaskRun TaskRun.runId := Table.empty
  deriving DecidableEq

abbrev Tasks (α : Type) := Txn TaskStore DomainError α

def TaskStore.getTask (ts : TaskStore) (ref : TaskRef) : Option ProjectTask :=
  ts.tasks.find? ref

/-! ## SQLite text functions -/

/-- `trim(X)` removes the space character only. -/
def sqliteTrim (text : List Char) : List Char :=
  ((text.dropWhile (· = ' ')).reverse.dropWhile (· = ' ')).reverse

/-- `length(X)` counts the characters before the first NUL. -/
def sqliteLength (text : List Char) : Nat :=
  (text.takeWhile (· ≠ Char.ofNat 0)).length

def hasText : Option String → Bool
  | none => false
  | some reason => 0 < sqliteLength (sqliteTrim reason.toList)

theorem sqliteTrim_cons {c : Char} (rest : List Char) (hc : c ≠ ' ') :
    ∃ tail, sqliteTrim (c :: rest) = c :: tail := by
  have hdrop : (c :: rest).dropWhile (· = ' ') = c :: rest := by
    simp [hc]
  have hlast : ([c] : List Char).dropWhile (· = ' ') = [c] := by
    simp [hc]
  rw [sqliteTrim, hdrop, List.reverse_cons, List.dropWhile_append, hlast]
  split
  · exact ⟨[], by simp⟩
  · exact ⟨(rest.reverse.dropWhile (· = ' ')).reverse, by simp⟩

theorem hasText_of_head {text : String} {c : Char} {rest : List Char}
    (h : text.toList = c :: rest) (hspace : c ≠ ' ')
    (hnul : c ≠ Char.ofNat 0) : hasText (some text) = true := by
  obtain ⟨tail, htrim⟩ := sqliteTrim_cons rest hspace
  simp [hasText, h, htrim, sqliteLength, hnul]

/-! ## Rows -/

def ProjectTask.moved (toStatus : TaskStatus) (reason : Option String) (now : String)
    (task : ProjectTask) : ProjectTask :=
  { task with
    status := toStatus
    blockedReason := if toStatus = .blocked then reason else none
    updatedAt := now }

theorem moved_ref (toStatus : TaskStatus) (reason : Option String) (now : String)
    (task : ProjectTask) :
    (ProjectTask.moved toStatus reason now task).ref = task.ref := rfl

def TaskRun.moveIf (ref : TaskRef) (p : RunState → Bool) (state : RunState)
    (now : String) (run : TaskRun) : TaskRun :=
  if run.taskRef = ref ∧ p run.state = true then
    { run with state := state, updatedAt := now }
  else run

theorem moveIf_runId (ref : TaskRef) (p : RunState → Bool) (state : RunState)
    (now : String) (run : TaskRun) :
    (TaskRun.moveIf ref p state now run).runId = run.runId := by
  unfold TaskRun.moveIf
  split <;> rfl

/-- `UPDATE task_runs SET state = ? WHERE task_ref = ? AND …`. -/
def TaskStore.moveRuns (ts : TaskStore) (ref : TaskRef) (p : RunState → Bool)
    (state : RunState) (now : String) : TaskStore :=
  { ts with
    taskRuns := ts.taskRuns.map (TaskRun.moveIf ref p state now)
      (moveIf_runId ref p state now) }

/-! ## Transitions -/

structure TaskTransitionInput where
  cause : TaskTransitionCause
  toStatus : TaskStatus
  reason : Option String := none
  runId : Option RunId := none
  actorId : Option AgentId := none
  idempotencyKey : Option String := none
  deriving DecidableEq, Repr

/-- `transitions_validate`; `first` says the task has no transition yet. -/
def transitionsValidate (cause : TaskTransitionCause)
    (fromStatus toStatus : TaskStatus) (first : Bool) : Bool :=
  match cause with
  | .claim => fromStatus = .todo && toStatus = .claimed
  | .runStart => fromStatus = .claimed && toStatus = .inProgress
  | .mergeSucceeded => fromStatus = .inProgress && toStatus = .done
  | .postMergeRelease => fromStatus = .done && toStatus = .released
  | .failureRequeue => fromStatus.running && toStatus = .todo
  | .failureBlock => fromStatus.running && toStatus = .blocked
  | .manualBlock => fromStatus = .todo && toStatus = .blocked
  | .unblock => fromStatus = .blocked && toStatus = .todo
  | .operatorReset => fromStatus ≠ .todo && toStatus = .todo
  | .cancel =>
      (fromStatus = .todo || fromStatus.running || fromStatus = .blocked) &&
        toStatus = .cancelled
  | .migrationImport =>
      fromStatus = .todo &&
        (toStatus = .blocked || toStatus = .done || toStatus = .released ||
          toStatus = .cancelled) && first

def runStateForCause : TaskTransitionCause → Option RunState
  | .mergeSucceeded => some .finished
  | .failureRequeue | .failureBlock => some .failed
  | .operatorReset | .cancel => some .cancelled
  | _ => none

def TaskStore.insertTransition (ts : TaskStore) (task : ProjectTask)
    (input : TaskTransitionInput) (now : String) : TaskStore :=
  { ts with
    transitions := ts.transitions ++ [
      { taskRef := task.ref
        fromStatus := task.status
        toStatus := input.toStatus
        cause := input.cause
        reason := input.reason
        runId := input.runId
        actorId := input.actorId
        idempotencyKey := input.idempotencyKey
        createdAt := now }]
    tasks := ts.tasks.update task.ref
      (ProjectTask.moved input.toStatus input.reason now)
      (moved_ref input.toStatus input.reason now) }

def TaskStore.startRuns (ts : TaskStore) (ref : TaskRef)
    (cause : TaskTransitionCause) (now : String) : TaskStore :=
  if cause = .runStart then ts.moveRuns ref (· = .claimed) .inProgress now
  else ts

def TaskStore.closeRuns (ts : TaskStore) (task : ProjectTask)
    (cause : TaskTransitionCause) (now : String) : TaskStore :=
  match runStateForCause cause with
  | some state =>
      if task.status.running then
        ts.moveRuns task.ref RunState.active state now
      else ts
  | none => ts

def TaskStore.transitioned (ts : TaskStore) (task : ProjectTask)
    (input : TaskTransitionInput) (now : String) : TaskStore :=
  ((ts.insertTransition task input now).startRuns task.ref input.cause
    now).closeRuns task input.cause now

/-- Some row of the task has the key; `NULL` equals nothing. -/
def TaskStore.keyTaken (ts : TaskStore) (ref : TaskRef)
    (key : Option String) : Bool :=
  key.isSome && ts.transitions.any fun t =>
    t.taskRef = ref && t.idempotencyKey = key

def TaskStore.recorded (ts : TaskStore) (ref : TaskRef)
    (key : Option String) : Bool :=
  truthy key && ts.transitions.any fun t =>
    t.taskRef = ref && t.idempotencyKey = key

def applyTransition (ref : TaskRef) (input : TaskTransitionInput)
    (now : String) : Tasks Unit := do
  let ts ← get
  let task ← Txn.orThrow (ts.getTask ref) (plainError ("Task not found: " ++ ref))
  if ts.recorded ref input.idempotencyKey then pure () else do
    Txn.throwIf (transitionsValidate input.cause task.status input.toStatus
        (ts.transitions.all (·.taskRef ≠ ref)) = false)
      (plainError "invalid task transition")
    Txn.throwIf (input.toStatus = .blocked ∧ hasText input.reason = false)
      (plainError ("CHECK constraint failed: to_status <> 'blocked' OR " ++
        "(reason IS NOT NULL AND length(trim(reason)) > 0)"))
    Txn.throwIf (ts.keyTaken ref input.idempotencyKey = true)
      (plainError ("UNIQUE constraint failed: task_transitions.task_ref, " ++
        "task_transitions.idempotency_key"))
    set (ts.transitioned task input now)

/-! ## Binding a run -/

def insertTaskRun (run : TaskRun) : Tasks Unit := do
  let ts ← get
  Txn.throwIf (run.active = true ∧ ∃ other ∈ ts.taskRuns.rows,
      other.active = true ∧ other.taskRef = run.taskRef)
    (plainError "UNIQUE constraint failed: task_runs.task_ref")
  let runs ← Txn.orThrow (ts.taskRuns.insert? run)
    (plainError "UNIQUE constraint failed: task_runs.run_id")
  set { ts with taskRuns := runs }

/-- Pin a new run to the latest revision; a binding left active has ended. -/
def bindRun (runId : RunId) (ref : TaskRef) (agentId : Option AgentId)
    (now : String) : Tasks ProjectTask := do
  let ts ← get
  let task ← Txn.orThrow (ts.getTask ref) (plainError ("Task not found: " ++ ref))
  set (ts.moveRuns ref RunState.active .failed now)
  insertTaskRun
    { runId := runId
      taskRef := ref
      specRevision := task.revision
      agentId := agentId
      state := .claimed
      createdAt := now
      updatedAt := now }
  return task

def TaskStore.activeRunId (ts : TaskStore) (ref : TaskRef) : Option RunId :=
  (ts.taskRuns.rows.find? fun run => run.active && run.taskRef = ref).map
    TaskRun.runId

def TaskRun.abandoned (runId : RunId) (now : String) (run : TaskRun) : TaskRun :=
  if run.runId = runId ∧ run.active = true then
    { run with state := .failed, updatedAt := now }
  else run

theorem abandoned_runId (runId : RunId) (now : String) (run : TaskRun) :
    (TaskRun.abandoned runId now run).runId = run.runId := by
  unfold TaskRun.abandoned
  split <;> rfl

/-- Close a run binding that never became a live claim. -/
def abandonRun (runId : RunId) (now : String) : Tasks Unit :=
  modify fun ts =>
    { ts with
      taskRuns := ts.taskRuns.map (TaskRun.abandoned runId now)
        (abandoned_runId runId now) }

def TaskStore.waiting (ts : TaskStore) (task : ProjectTask) : List TaskRef :=
  task.definition.dependsOn.filter fun d =>
    !(ts.getTask d).any fun t => t.status.merged

/--
Verify the status, the owner and the dependencies, record the claim and bind the
run to the latest revision, all in one transaction.
-/
def TaskStore.claimTask (ref : TaskRef) (runId : RunId) (agentId : AgentId)
    (now : String) : Tasks ProjectTask := do
  let ts ← get
  let task ← Txn.orThrow (ts.getTask ref) (plainError ("Task not found: " ++ ref))
  Txn.throwIf (task.status ≠ .todo)
    (plainError ("Task not claimable (status: " ++ task.status.text ++ "): " ++
      ref))
  Txn.throwIf (truthy task.dispatch.owner = true ∧
      task.dispatch.owner ≠ some agentId)
    (plainError ("Task " ++ ref ++ " is reserved for agent \"" ++
      task.dispatch.owner.getD "" ++ "\" - claiming agent \"" ++ agentId ++
      "\" is not the owner"))
  Txn.throwIf (ts.waiting task ≠ [])
    (plainError ("Task " ++ ref ++ " is waiting for dependencies: " ++
      ", ".intercalate (ts.waiting task)))
  applyTransition ref
    { cause := .claim, toStatus := .claimed, runId := some runId
      actorId := some agentId } now
  bindRun runId ref (some agentId) now

/-! ## Dispatch fields -/

def ProjectTask.dispatched (state : TaskDispatchState) (attemptCount : Nat)
    (task : ProjectTask) : ProjectTask :=
  { task with dispatch := state, attemptCount := attemptCount }

theorem dispatched_ref (state : TaskDispatchState) (attemptCount : Nat)
    (task : ProjectTask) :
    (ProjectTask.dispatched state attemptCount task).ref = task.ref := rfl

def setDispatchState (ref : TaskRef) (state : TaskDispatchState)
    (attemptCount : Nat) : Tasks Unit :=
  modify fun ts =>
    { ts with
      tasks := ts.tasks.update ref (ProjectTask.dispatched state attemptCount)
        (dispatched_ref state attemptCount) }

theorem transitionsValidate_first {cause : TaskTransitionCause}
    {fromStatus toStatus : TaskStatus} {first : Bool}
    (h : cause ≠ .migrationImport) :
    transitionsValidate cause fromStatus toStatus first =
      transitionsValidate cause fromStatus toStatus false := by
  cases cause <;> first | rfl | exact absurd rfl h

/-! ## One task at a time -/

def TaskStore.runsAt (ts : TaskStore) (ref : TaskRef) : Set RunId :=
  {id | ∃ run, run ∈ ts.taskRuns ∧ run.active = true ∧ run.taskRef = ref ∧
    run.runId = id}

def TaskStore.Bound (ts : TaskStore) (id : RunId) : Prop :=
  ∃ run, run ∈ ts.taskRuns ∧ run.runId = id

@[simp] theorem insertTransition_taskRuns (ts : TaskStore) (task : ProjectTask)
    (input : TaskTransitionInput) (now : String) :
    (ts.insertTransition task input now).taskRuns = ts.taskRuns := rfl

@[simp] theorem moveRuns_tasks (ts : TaskStore) (ref : TaskRef)
    (p : RunState → Bool) (state : RunState) (now : String) :
    (ts.moveRuns ref p state now).tasks = ts.tasks := rfl

@[simp] theorem startRuns_tasks (ts : TaskStore) (ref : TaskRef)
    (cause : TaskTransitionCause) (now : String) :
    (ts.startRuns ref cause now).tasks = ts.tasks := by
  unfold TaskStore.startRuns
  split <;> simp

@[simp] theorem closeRuns_tasks (ts : TaskStore) (task : ProjectTask)
    (cause : TaskTransitionCause) (now : String) :
    (ts.closeRuns task cause now).tasks = ts.tasks := by
  unfold TaskStore.closeRuns
  split
  · split <;> simp
  · rfl

theorem transitioned_tasks (ts : TaskStore) (task : ProjectTask)
    (input : TaskTransitionInput) (now : String) :
    (ts.transitioned task input now).tasks =
      ts.tasks.update task.ref
        (ProjectTask.moved input.toStatus input.reason now)
        (moved_ref input.toStatus input.reason now) := by
  simp [TaskStore.transitioned, TaskStore.insertTransition]

theorem mem_runsAt_moveRuns {ts : TaskStore} {ref r : TaskRef}
    {p : RunState → Bool} {state : RunState} {now : String} {id : RunId} :
    id ∈ (ts.moveRuns ref p state now).runsAt r ↔
      ∃ run, run ∈ ts.taskRuns ∧ run.taskRef = r ∧ run.runId = id ∧
        if run.taskRef = ref ∧ p run.state = true then state.active = true
        else run.active = true := by
  simp only [TaskStore.runsAt, Set.mem_ofPred_eq, TaskStore.moveRuns,
    Table.mem_map]
  constructor
  · rintro ⟨_, ⟨run, hrun, rfl⟩, hactive, href, hid⟩
    refine ⟨run, hrun, ?_⟩
    unfold TaskRun.moveIf at hactive href hid
    split at hactive
    · rename_i h
      simp only [if_pos h] at href hid ⊢
      exact ⟨href, hid, hactive⟩
    · rename_i h
      simp only [if_neg h] at href hid ⊢
      exact ⟨href, hid, hactive⟩
  · rintro ⟨run, hrun, href, hid, hactive⟩
    refine ⟨_, ⟨run, hrun, rfl⟩, ?_⟩
    unfold TaskRun.moveIf
    split at hactive
    · rename_i h
      simp only [if_pos h]
      exact ⟨hactive, href, hid⟩
    · rename_i h
      simp only [if_neg h]
      exact ⟨hactive, href, hid⟩

theorem runsAt_moveRuns_of_ne {ts : TaskStore} {ref r : TaskRef}
    {p : RunState → Bool} {state : RunState} {now : String} (h : r ≠ ref) :
    (ts.moveRuns ref p state now).runsAt r = ts.runsAt r := by
  ext id
  rw [mem_runsAt_moveRuns]
  constructor
  · rintro ⟨run, hrun, rfl, hid, hactive⟩
    rw [if_neg (by simp [h])] at hactive
    exact ⟨run, hrun, hactive, rfl, hid⟩
  · rintro ⟨run, hrun, hactive, rfl, hid⟩
    refine ⟨run, hrun, rfl, hid, ?_⟩
    rwa [if_neg (by simp [h])]

theorem runsAt_moveRuns_active {ts : TaskStore} {ref : TaskRef}
    {state : RunState} {now : String} (h : state.active = false) :
    (ts.moveRuns ref RunState.active state now).runsAt ref = ∅ := by
  ext id
  rw [mem_runsAt_moveRuns]
  constructor
  · rintro ⟨run, -, href, -, hactive⟩
    split at hactive
    · rw [h] at hactive
      cases hactive
    · rename_i hnot
      exact absurd ⟨href, hactive⟩ hnot
  · exact fun hid => absurd hid (Set.notMem_empty id)

theorem runsAt_startRuns (ts : TaskStore) (ref r : TaskRef)
    (cause : TaskTransitionCause) (now : String) :
    (ts.startRuns ref cause now).runsAt r = ts.runsAt r := by
  unfold TaskStore.startRuns
  split
  · ext id
    rw [mem_runsAt_moveRuns]
    constructor
    · rintro ⟨run, hrun, href, hid, hactive⟩
      refine ⟨run, hrun, ?_, href, hid⟩
      split at hactive
      · rename_i h
        have hstate : run.state = .claimed := by simpa using h.2
        simp [TaskRun.active, hstate, RunState.active]
      · exact hactive
    · rintro ⟨run, hrun, hactive, href, hid⟩
      refine ⟨run, hrun, href, hid, ?_⟩
      split
      · rfl
      · exact hactive
  · rfl

/-- The cause ends the bindings of a task that was claimed or running. -/
def TaskTransitionCause.closes (cause : TaskTransitionCause)
    (fromStatus : TaskStatus) : Bool :=
  (runStateForCause cause).isSome && fromStatus.running

theorem runStateForCause_closed {cause : TaskTransitionCause}
    {state : RunState} (h : runStateForCause cause = some state) :
    state.active = false := by
  cases cause <;> simp [runStateForCause] at h <;> subst h <;> rfl

theorem runsAt_closeRuns (ts : TaskStore) (task : ProjectTask) (r : TaskRef)
    (cause : TaskTransitionCause) (now : String) :
    (ts.closeRuns task cause now).runsAt r =
      if r = task.ref ∧ TaskTransitionCause.closes cause task.status = true
      then ∅ else ts.runsAt r := by
  unfold TaskStore.closeRuns TaskTransitionCause.closes
  split
  · rename_i state hstate
    rw [hstate]
    split
    · rename_i hrunning
      by_cases hr : r = task.ref
      · rw [hr, if_pos ⟨rfl, by simp [hrunning]⟩,
          runsAt_moveRuns_active (runStateForCause_closed hstate)]
      · rw [if_neg (by simp [hr]), runsAt_moveRuns_of_ne hr]
    · rename_i hrunning
      rw [if_neg (by simp [hrunning])]
  · rename_i hstate
    rw [hstate, if_neg (by simp)]

theorem runsAt_transitioned (ts : TaskStore) (task : ProjectTask)
    (input : TaskTransitionInput) (now : String) (r : TaskRef) :
    (ts.transitioned task input now).runsAt r =
      if r = task.ref ∧
        TaskTransitionCause.closes input.cause task.status = true
      then ∅ else ts.runsAt r := by
  rw [TaskStore.transitioned, runsAt_closeRuns, runsAt_startRuns]
  rfl

theorem applyTransition_cases {ref : TaskRef} {input : TaskTransitionInput}
    {now : String} {ts ts' : TaskStore} {u : Unit}
    (h : applyTransition ref input now ts = .ok (u, ts')) :
    ∃ task, ts.getTask ref = some task ∧
      (ts.recorded ref input.idempotencyKey = true ∧ ts' = ts ∨
        transitionsValidate input.cause task.status input.toStatus
          (ts.transitions.all (·.taskRef ≠ ref)) = true ∧
        (input.toStatus = .blocked → hasText input.reason = true) ∧
        ts.keyTaken ref input.idempotencyKey = false ∧
        ts' = ts.transitioned task input now) := by
  simp only [applyTransition, Txn.bind_ok, Txn.get_ok, Txn.orThrow_ok] at h
  obtain ⟨_, _, ⟨rfl, rfl⟩, task, _, ⟨htask, rfl⟩, h⟩ := h
  refine ⟨task, htask, ?_⟩
  split at h
  · rename_i hrecorded
    exact .inl ⟨hrecorded, (Txn.pure_ok.mp h).2.symm⟩
  · simp only [Txn.bind_ok, Txn.throwIf_ok, Txn.set_ok] at h
    obtain ⟨_, _, ⟨hvalid, rfl⟩, _, _, ⟨hreason, rfl⟩, _, _, ⟨hkey, rfl⟩, h⟩ := h
    refine .inr ⟨by simpa using hvalid, fun hto => ?_, by simpa using hkey,
      h.symm⟩
    simpa [hto] using hreason

theorem applyTransition_ok {ref : TaskRef} {input : TaskTransitionInput}
    {now : String} {ts ts' : TaskStore} {u : Unit}
    (hkey : input.idempotencyKey = none)
    (h : applyTransition ref input now ts = .ok (u, ts')) :
    ∃ task, ts.getTask ref = some task ∧
      transitionsValidate input.cause task.status input.toStatus
        (ts.transitions.all (·.taskRef ≠ ref)) = true ∧
      (input.toStatus = .blocked → hasText input.reason = true) ∧
      ts' = ts.transitioned task input now := by
  obtain ⟨task, htask, ⟨hrecorded, -⟩ | ⟨hvalid, hreason, -, hts⟩⟩ :=
    applyTransition_cases h
  · simp [TaskStore.recorded, hkey] at hrecorded
  · exact ⟨task, htask, hvalid, hreason, hts⟩

theorem applyTransition_eq {ref : TaskRef} {input : TaskTransitionInput}
    (now : String) {ts : TaskStore} {task : ProjectTask}
    (hkey : input.idempotencyKey = none) (htask : ts.getTask ref = some task)
    (hvalid : transitionsValidate input.cause task.status input.toStatus
      (ts.transitions.all (·.taskRef ≠ ref)) = true)
    (hreason : input.toStatus = .blocked → hasText input.reason = true) :
    applyTransition ref input now ts =
      .ok ((), ts.transitioned task input now) := by
  have hrecorded : ts.recorded ref input.idempotencyKey = false := by
    simp [TaskStore.recorded, hkey]
  have hcheck : ¬ (input.toStatus = .blocked ∧ hasText input.reason = false) := by
    rintro ⟨hto, hno⟩
    rw [hreason hto] at hno
    cases hno
  simp only [applyTransition, Txn.bind_ok, Txn.get_ok, Txn.orThrow_ok]
  refine ⟨ts, ts, ⟨rfl, rfl⟩, task, ts, ⟨htask, rfl⟩, ?_⟩
  rw [hrecorded]
  simp only [Bool.false_eq_true, if_false, Txn.bind_ok, Txn.throwIf_ok,
    Txn.set_ok]
  have hallowed : ¬ transitionsValidate input.cause task.status
      input.toStatus (ts.transitions.all (·.taskRef ≠ ref)) = false := by
    rw [hvalid]
    decide
  have hfree : ¬ ts.keyTaken ref input.idempotencyKey = true := by
    simp [TaskStore.keyTaken, hkey]
  exact ⟨(), ts, ⟨hallowed, rfl⟩, (), ts, ⟨hcheck, rfl⟩, (), ts,
    ⟨hfree, rfl⟩, trivial⟩

/-! ## Bindings are never removed -/

theorem bound_moveRuns {ts : TaskStore} {ref : TaskRef} {p : RunState → Bool}
    {state : RunState} {now : String} {id : RunId} :
    (ts.moveRuns ref p state now).Bound id ↔ ts.Bound id := by
  simp only [TaskStore.Bound, TaskStore.moveRuns, Table.mem_map]
  constructor
  · rintro ⟨_, ⟨run, hrun, rfl⟩, hid⟩
    exact ⟨run, hrun, by rw [← hid, moveIf_runId]⟩
  · rintro ⟨run, hrun, hid⟩
    exact ⟨_, ⟨run, hrun, rfl⟩, by rw [moveIf_runId, hid]⟩

theorem bound_transitioned {ts : TaskStore} {task : ProjectTask}
    {input : TaskTransitionInput} {now : String} {id : RunId} :
    (ts.transitioned task input now).Bound id ↔ ts.Bound id := by
  have hstart : ∀ ts : TaskStore,
      (ts.startRuns task.ref input.cause now).Bound id ↔ ts.Bound id := by
    intro ts
    unfold TaskStore.startRuns
    split
    · exact bound_moveRuns
    · rfl
  have hclose : ∀ ts : TaskStore,
      (ts.closeRuns task input.cause now).Bound id ↔ ts.Bound id := by
    intro ts
    unfold TaskStore.closeRuns
    split
    · split
      · exact bound_moveRuns
      · rfl
    · rfl
  rw [TaskStore.transitioned, hclose, hstart]
  rfl

theorem insertTaskRun_ok {run : TaskRun} {ts ts' : TaskStore} {u : Unit}
    (h : insertTaskRun run ts = .ok (u, ts')) :
    ts'.tasks = ts.tasks ∧ ¬ ts.Bound run.runId ∧
      ∀ x, x ∈ ts'.taskRuns ↔ x ∈ ts.taskRuns ∨ x = run := by
  simp only [insertTaskRun, Txn.bind_ok, Txn.get_ok, Txn.throwIf_ok,
    Txn.orThrow_ok, Txn.set_ok] at h
  obtain ⟨_, _, ⟨rfl, rfl⟩, _, _, ⟨-, rfl⟩, runs, _, ⟨hruns, rfl⟩, rfl⟩ := h
  refine ⟨rfl, ?_, fun x => Table.mem_insert? hruns⟩
  rintro ⟨other, hother, hid⟩
  exact (Table.insert?_eq_some hruns).1 other hother hid

theorem runsAt_inserted {run : TaskRun} {ts ts' : TaskStore}
    (hmem : ∀ x, x ∈ ts'.taskRuns ↔ x ∈ ts.taskRuns ∨ x = run)
    (hactive : run.active = true) (r : TaskRef) :
    ts'.runsAt r =
      if r = run.taskRef then insert run.runId (ts.runsAt r)
      else ts.runsAt r := by
  have hmem' : ∀ id, id ∈ ts'.runsAt r ↔
      id ∈ ts.runsAt r ∨ (run.taskRef = r ∧ run.runId = id) := by
    intro id
    simp only [TaskStore.runsAt, Set.mem_ofPred_eq, hmem]
    constructor
    · rintro ⟨x, hx | rfl, ha, hr, hid⟩
      · exact .inl ⟨x, hx, ha, hr, hid⟩
      · exact .inr ⟨hr, hid⟩
    · rintro (⟨x, hx, ha, hr, hid⟩ | ⟨hr, hid⟩)
      · exact ⟨x, .inl hx, ha, hr, hid⟩
      · exact ⟨run, .inr rfl, hactive, hr, hid⟩
  ext id
  rw [hmem']
  split
  · rename_i h
    simp [h, or_comm, eq_comm]
  · rename_i h
    simp [Ne.symm h]

theorem bindRun_ok {runId : RunId} {ref : TaskRef} {agentId : Option AgentId}
    {now : String} {ts ts' : TaskStore} {task : ProjectTask}
    (h : bindRun runId ref agentId now ts = .ok (task, ts')) :
    ts'.tasks = ts.tasks ∧ ¬ ts.Bound runId ∧
      (∀ r, ts'.runsAt r = if r = ref then {runId} else ts.runsAt r) ∧
      ∀ id, ts'.Bound id ↔ ts.Bound id ∨ id = runId := by
  simp only [bindRun, Txn.bind_ok, Txn.get_ok, Txn.orThrow_ok, Txn.set_ok,
    Txn.pure_ok] at h
  obtain ⟨_, _, ⟨rfl, rfl⟩, _, _, ⟨-, rfl⟩, _, _, rfl, _, _, hinsert, -, rfl⟩ := h
  obtain ⟨htasks, hfresh, hmem⟩ := insertTaskRun_ok hinsert
  refine ⟨htasks, fun hbound => hfresh (bound_moveRuns.mpr hbound), ?_, ?_⟩
  · intro r
    rw [runsAt_inserted hmem rfl r]
    split
    · rename_i h
      rw [h, runsAt_moveRuns_active rfl]
      exact insert_empty_eq runId
    · rename_i h
      exact runsAt_moveRuns_of_ne h
  · intro id
    have hmoved : (ts.moveRuns ref RunState.active .failed now).Bound id ↔
        ts.Bound id := bound_moveRuns
    rw [← hmoved]
    simp only [TaskStore.Bound, hmem]
    constructor
    · rintro ⟨x, hx | rfl, hid⟩
      · exact .inl ⟨x, hx, hid⟩
      · exact .inr hid.symm
    · rintro (⟨x, hx, hid⟩ | rfl)
      · exact ⟨x, .inl hx, hid⟩
      · exact ⟨_, .inr rfl, rfl⟩

theorem claimTask_ok {runId : RunId} {ref : TaskRef} {agentId : AgentId}
    {now : String} {ts ts' : TaskStore} {pinned : ProjectTask}
    (h : TaskStore.claimTask ref runId agentId now ts = .ok (pinned, ts')) :
    ∃ task, ts.getTask ref = some task ∧ task.status = .todo ∧
      ts'.tasks = ts.tasks.update ref (ProjectTask.moved .claimed none now)
        (moved_ref .claimed none now) ∧
      ¬ ts.Bound runId ∧
      (∀ r, ts'.runsAt r = if r = ref then {runId} else ts.runsAt r) ∧
      ∀ id, ts'.Bound id ↔ ts.Bound id ∨ id = runId := by
  simp only [TaskStore.claimTask, Txn.bind_ok, Txn.get_ok, Txn.orThrow_ok,
    Txn.throwIf_ok] at h
  obtain ⟨_, _, ⟨rfl, rfl⟩, task, _, ⟨htask, rfl⟩, _, _, ⟨hstatus, rfl⟩, _, _,
    ⟨-, rfl⟩, _, _, ⟨-, rfl⟩, _, m, hmove, hbind⟩ := h
  obtain ⟨task', htask', -, -, rfl⟩ := applyTransition_ok rfl hmove
  rw [htask] at htask'
  cases htask'
  have href : task.ref = ref := Table.key_of_find? htask
  obtain ⟨htasks, hfresh, hruns, hbound⟩ := bindRun_ok hbind
  refine ⟨task, htask, by simpa using hstatus, ?_,
    fun hb => hfresh (bound_transitioned.mpr hb), fun r => ?_, fun id => ?_⟩
  · rw [htasks, transitioned_tasks, href]
  · have hopen : TaskTransitionCause.closes .claim task.status = false := rfl
    simp only [hruns r, runsAt_transitioned, hopen, Bool.false_eq_true,
      and_false, if_false]
  · rw [hbound id, bound_transitioned]

end OrcState.Store
