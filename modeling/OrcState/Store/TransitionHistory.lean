import OrcState.Store.Operations
import OrcState.Foundation.History
import Mathlib.Logic.Relation

/-!
# Task status and its history

The rows of a task's transitions are a walk from `todo` that ends at the status
the task has.  Every operation of the store is a sequence of moves, each of one
row at most, and the triggers allow a row exactly where the contract's table
does; so what a move keeps holds in every state the operations reach.
-/

namespace OrcState.Store

open OrcState.Contract OrcState.Foundation

def TaskStore.transitionsOf (ts : TaskStore) (ref : TaskRef) :
    List TaskTransition :=
  ts.transitions.filter fun row => row.taskRef = ref

/-! ## The two statements of the rule -/

/-- The trigger is the contract's table, with an import only as a first row. -/
theorem transitionsValidate_eq (cause : TaskTransitionCause)
    (fromStatus toStatus : TaskStatus) (first : Bool) :
    transitionsValidate cause fromStatus toStatus first =
      (canTransitionTaskStatus fromStatus toStatus cause &&
        (cause ≠ .migrationImport || first)) := by
  cases cause <;> cases fromStatus <;> cases toStatus <;> cases first <;> rfl

theorem canTransition_of_terminal {fromStatus toStatus : TaskStatus}
    {cause : TaskTransitionCause}
    (h : canTransitionTaskStatus fromStatus toStatus cause = true)
    (hterminal : fromStatus.terminal = true) :
    cause = .operatorReset ∨
      fromStatus = .done ∧ cause = .postMergeRelease := by
  cases cause with
  | operatorReset => exact .inl rfl
  | postMergeRelease =>
      refine .inr ⟨?_, rfl⟩
      simp only [canTransitionTaskStatus, Bool.and_eq_true,
        decide_eq_true_eq] at h
      exact h.1
  | _ => cases fromStatus <;> simp_all [canTransitionTaskStatus,
      TaskStatus.terminal]

/-! ## Moves -/

@[simp] theorem startRuns_transitions (ts : TaskStore) (ref : TaskRef)
    (cause : TaskTransitionCause) (now : String) :
    (ts.startRuns ref cause now).transitions = ts.transitions := by
  unfold TaskStore.startRuns
  split <;> rfl

@[simp] theorem closeRuns_transitions (ts : TaskStore) (task : ProjectTask)
    (cause : TaskTransitionCause) (now : String) :
    (ts.closeRuns task cause now).transitions = ts.transitions := by
  unfold TaskStore.closeRuns
  split
  · split <;> rfl
  · rfl

def RunsKept (ts ts' : TaskStore) : Prop :=
  ∀ run, run ∈ ts.taskRuns → ∃ run', run' ∈ ts'.taskRuns ∧
    run'.runId = run.runId ∧ run'.taskRef = run.taskRef ∧
    run'.specRevision = run.specRevision

theorem RunsKept.of_eq {ts ts' : TaskStore} (h : ts'.taskRuns = ts.taskRuns) :
    RunsKept ts ts' :=
  fun run hrun => ⟨run, h ▸ hrun, rfl, rfl, rfl⟩

theorem RunsKept.trans {ts m ts' : TaskStore} (h : RunsKept ts m)
    (h' : RunsKept m ts') : RunsKept ts ts' := by
  intro run hrun
  obtain ⟨mid, hmid, hid, href, hspec⟩ := h run hrun
  obtain ⟨run', hrun', hid', href', hspec'⟩ := h' mid hmid
  exact ⟨run', hrun', hid'.trans hid, href'.trans href, hspec'.trans hspec⟩

theorem RunsKept.of_map {ts ts' : TaskStore} {f : TaskRun → TaskRun}
    (hf : ∀ run, (f run).runId = run.runId)
    (hsame : ∀ run, (f run).taskRef = run.taskRef ∧
      (f run).specRevision = run.specRevision)
    (h : ts'.taskRuns = ts.taskRuns.map f hf) : RunsKept ts ts' := by
  intro run hrun
  refine ⟨f run, ?_, hf run, hsame run⟩
  rw [h]
  exact Table.mem_map.mpr ⟨run, hrun, rfl⟩

theorem RunsKept.moveRuns (ts : TaskStore) (ref : TaskRef) (p : RunState → Bool)
    (state : RunState) (now : String) :
    RunsKept ts (ts.moveRuns ref p state now) := by
  refine .of_map (moveIf_runId ref p state now) (fun run => ?_) rfl
  unfold TaskRun.moveIf
  split <;> exact ⟨rfl, rfl⟩

theorem RunsKept.transitioned (ts : TaskStore) (task : ProjectTask)
    (input : TaskTransitionInput) (now : String) :
    RunsKept ts (ts.transitioned task input now) := by
  have hinsert : RunsKept ts (ts.insertTransition task input now) := .of_eq rfl
  have hstart : RunsKept ts
      ((ts.insertTransition task input now).startRuns task.ref input.cause
        now) := by
    unfold TaskStore.startRuns
    split
    · exact hinsert.trans (.moveRuns _ _ _ _ _)
    · exact hinsert
  unfold TaskStore.transitioned TaskStore.closeRuns
  cases runStateForCause input.cause with
  | none => exact hstart
  | some state =>
      dsimp only
      split
      · exact hstart.trans (.moveRuns _ _ _ _ _)
      · exact hstart

def ProjectTask.content (task : ProjectTask) : ProjectTask :=
  { task with
    status := .todo
    attemptCount := 0
    blockedReason := none
    updatedAt := ""
    dispatch := {} }

def TaskStore.contents (ts : TaskStore) : List ProjectTask :=
  ts.tasks.rows.map ProjectTask.content

theorem contents_update {ts ts' : TaskStore} {ref : TaskRef}
    {f : ProjectTask → ProjectTask} (hf : ∀ task, (f task).ref = task.ref)
    (hcontent : ∀ task, ProjectTask.content (f task) = ProjectTask.content task)
    (h : ts'.tasks = ts.tasks.update ref f hf) : ts'.contents = ts.contents := by
  rw [TaskStore.contents, h, TaskStore.contents]
  simp only [Table.update, Table.map, List.map_map]
  refine List.map_congr_left fun task _ => ?_
  simp only [Function.comp]
  split
  · exact hcontent task
  · rfl

/--
What one statement of an operation can do.  `grows` says that tasks may be
created; without it the tasks keep their content and their order.
-/
inductive StoreMove (grows : Bool) (ts ts' : TaskStore) : Prop
  | created {task : ProjectTask} (hgrows : grows = true)
      (hfresh : ts.getTask task.ref = none)
      (hstatus : task.status = .todo) (hreason : task.blockedReason = none)
      (hget : ∀ r, ts'.getTask r =
        if r = task.ref then some task else ts.getTask r)
      (hrows : ts'.transitions = ts.transitions) (hruns : RunsKept ts ts')
  | transitioned {task : ProjectTask} {row : TaskTransition}
      (htask : ts.getTask row.taskRef = some task)
      (hstatus : row.fromStatus = task.status)
      (hallowed : canTransitionTaskStatus row.fromStatus row.toStatus
        row.cause = true)
      (hreason : row.toStatus = .blocked → hasText row.reason = true)
      (hkey : ts.keyTaken row.taskRef row.idempotencyKey = false)
      (hget : ∀ r, ts'.getTask r = if r = row.taskRef then
        some (ProjectTask.moved row.toStatus row.reason row.createdAt task)
        else ts.getTask r)
      (hrows : ts'.transitions = ts.transitions ++ [row])
      (hruns : RunsKept ts ts') (hcontents : ts'.contents = ts.contents)
  | dispatched {ref : TaskRef} {state : TaskDispatchState} {n : Nat}
      (hget : ∀ r, ts'.getTask r =
        if r = ref then (ts.getTask r).map (ProjectTask.dispatched state n)
        else ts.getTask r)
      (hrows : ts'.transitions = ts.transitions)
      (hruns : RunsKept ts ts') (hcontents : ts'.contents = ts.contents)
  | bindings (htasks : ts'.tasks = ts.tasks)
      (hrows : ts'.transitions = ts.transitions) (hruns : RunsKept ts ts')

theorem StoreMove.runsKept {grows : Bool} {ts ts' : TaskStore}
    (h : StoreMove grows ts ts') : RunsKept ts ts' := by
  cases h <;> assumption

theorem StoreMove.contents {ts ts' : TaskStore} (h : StoreMove false ts ts') :
    ts'.contents = ts.contents := by
  cases h with
  | created hgrows => cases hgrows
  | transitioned _ _ _ _ _ _ _ _ hcontents => exact hcontents
  | dispatched _ _ _ hcontents => exact hcontents
  | bindings htasks => rw [TaskStore.contents, htasks, TaskStore.contents]

abbrev StoreMoves (grows : Bool) (ts ts' : TaskStore) : Prop :=
  Relation.ReflTransGen (StoreMove grows) ts ts'

variable {grows : Bool} {ts ts' : TaskStore} {now : String} {u : Unit}

theorem StoreMoves.bindings (htasks : ts'.tasks = ts.tasks)
    (hrows : ts'.transitions = ts.transitions) (hruns : RunsKept ts ts') :
    StoreMoves grows ts ts' :=
  .single (.bindings htasks hrows hruns)

theorem StoreMoves.runsKept (h : StoreMoves grows ts ts') : RunsKept ts ts' := by
  induction h with
  | refl => exact .of_eq rfl
  | tail _ hmove ih => exact ih.trans hmove.runsKept

theorem StoreMoves.contents (h : StoreMoves false ts ts') :
    ts'.contents = ts.contents := by
  induction h with
  | refl => rfl
  | tail _ hmove ih => exact hmove.contents.trans ih

/-! ## Each operation is a sequence of moves -/

theorem normalizeDependencies_ok {σ : Type} {ref : TaskRef}
    {dependsOn unique : List TaskRef} {s t : σ}
    (h : normalizeDependencies ref dependsOn s = .ok (unique, t)) :
    t = s ∧ unique =
      dependsOn.eraseDups.insertionSort fun a b => jsLe a b = true := by
  simp only [normalizeDependencies, Txn.bind_ok, Txn.pure_ok] at h
  obtain ⟨_, m, hchecks, rfl, rfl⟩ := h
  refine ⟨Txn.forM_keeps (P := fun t => t = s) ?_ hchecks rfl, rfl⟩
  intro dependency s' t _ hcheck hs
  simp only [Txn.bind_ok, Txn.throwIf_ok] at hcheck
  obtain ⟨_, _, ⟨-, rfl⟩, -, rfl⟩ := hcheck
  exact hs

theorem firstSpec_ok {σ : Type} {input : TaskSpecInput} {spec : TaskSpec}
    {s t : σ} (h : firstSpec input s = .ok (spec, t)) :
    t = s ∧ spec.metadata = input.metadata ∧ spec.dependsOn =
      input.dependsOn.eraseDups.insertionSort fun a b => jsLe a b = true := by
  simp only [firstSpec, Txn.bind_ok, Txn.orThrow_ok, Txn.throwIf_ok,
    Txn.pure_ok] at h
  obtain ⟨title, _, ⟨-, rfl⟩, _, _, ⟨-, rfl⟩, dependsOn, _, hdeps, rfl, rfl⟩ := h
  obtain ⟨rfl, rfl⟩ := normalizeDependencies_ok hdeps
  exact ⟨rfl, rfl, rfl⟩

theorem checkTexts_ok {σ : Type} {title : String} {dependsOn : List TaskRef}
    {s t : σ} {v : Unit} (h : checkTexts title dependsOn s = .ok (v, t)) :
    t = s := by
  simp only [checkTexts, Txn.bind_ok, Txn.throwIf_ok] at h
  obtain ⟨_, _, ⟨-, rfl⟩, -, rfl⟩ := h
  rfl

theorem createTask_moves {input : TaskSpecInput} {created : ProjectTask}
    (h : createTask input now ts = .ok (created, ts')) :
    StoreMoves true ts ts' := by
  simp only [createTask, Txn.bind_ok, Txn.get_ok, Txn.orThrow_ok,
    Txn.throwIf_ok, Txn.set_ok, Txn.pure_ok] at h
  obtain ⟨spec, _, hspec, _, _, ⟨rfl, rfl⟩, _, _, ⟨-, rfl⟩, _, _, ⟨-, rfl⟩,
    _, _, htexts, tasks, _, ⟨htasks, rfl⟩, _, _, rfl, rfl, rfl⟩ := h
  cases (firstSpec_ok hspec).1
  cases checkTexts_ok htexts
  exact .single (.created rfl (Table.fresh_of_insertOrdered? htasks) rfl rfl
    (Table.find?_insertOrdered? htasks) rfl (.of_eq rfl))

theorem transitioned_move {ref : TaskRef} {input : TaskTransitionInput}
    {task : ProjectTask} (htask : ts.getTask ref = some task)
    (hvalid : transitionsValidate input.cause task.status input.toStatus
      (ts.transitions.all (·.taskRef ≠ ref)) = true)
    (hreason : input.toStatus = .blocked → hasText input.reason = true)
    (hkey : ts.keyTaken ref input.idempotencyKey = false) :
    StoreMove grows ts (ts.transitioned task input now) := by
  have href : task.ref = ref := Table.key_of_find? htask
  have hallowed : canTransitionTaskStatus task.status input.toStatus
      input.cause = true := by
    rw [transitionsValidate_eq, Bool.and_eq_true] at hvalid
    exact hvalid.1
  have hrows : (ts.transitioned task input now).transitions =
      (ts.insertTransition task input now).transitions := by
    simp [TaskStore.transitioned]
  refine .transitioned (href.symm ▸ htask) rfl hallowed hreason
    (href.symm ▸ hkey) (fun r => ?_) hrows (.transitioned _ _ _ _)
    (contents_update (moved_ref input.toStatus input.reason now) (fun _ => rfl)
      (transitioned_tasks ts task input now))
  have hget := Table.find?_update ts.tasks task.ref
    (ProjectTask.moved input.toStatus input.reason now)
    (moved_ref input.toStatus input.reason now) r
  rw [TaskStore.getTask, transitioned_tasks, hget]
  split
  · rename_i hr
    have hrow : ts.tasks.find? r = some task := by
      rw [hr, href]
      exact htask
    rw [hrow]
    rfl
  · rfl

theorem applyTransition_moves {ref : TaskRef} {input : TaskTransitionInput}
    (h : applyTransition ref input now ts = .ok (u, ts')) :
    StoreMoves grows ts ts' := by
  obtain ⟨task, htask, ⟨-, rfl⟩ | ⟨hvalid, hreason, hkey, rfl⟩⟩ :=
    applyTransition_cases h
  · exact .refl
  · exact .single (transitioned_move htask hvalid hreason hkey)

theorem insertTaskRun_moves {run : TaskRun}
    (h : insertTaskRun run ts = .ok (u, ts')) : StoreMoves grows ts ts' := by
  simp only [insertTaskRun, Txn.bind_ok, Txn.get_ok, Txn.throwIf_ok,
    Txn.orThrow_ok, Txn.set_ok] at h
  obtain ⟨_, _, ⟨rfl, rfl⟩, _, _, ⟨-, rfl⟩, runs, _, ⟨hruns, rfl⟩, rfl⟩ := h
  refine .bindings rfl rfl fun old hold => ⟨old, ?_, rfl, rfl, rfl⟩
  exact (Table.mem_insert? hruns).mpr (.inl hold)

theorem bindRun_moves {runId : RunId} {ref : TaskRef}
    {agentId : Option AgentId} {pinned : ProjectTask}
    (h : bindRun runId ref agentId now ts = .ok (pinned, ts')) :
    StoreMoves grows ts ts' := by
  simp only [bindRun, Txn.bind_ok, Txn.get_ok, Txn.orThrow_ok, Txn.set_ok,
    Txn.pure_ok] at h
  obtain ⟨_, _, ⟨rfl, rfl⟩, _, _, ⟨-, rfl⟩, _, _, rfl, _, _, hinsert, -, rfl⟩ := h
  have hclosed : StoreMoves grows ts
      (ts.moveRuns ref RunState.active .failed now) :=
    .bindings rfl rfl (.moveRuns _ _ _ _ _)
  exact hclosed.trans (insertTaskRun_moves hinsert)

theorem bindRunAt_moves {runId : RunId} {ref : TaskRef}
    {agentId : Option AgentId} {revision : Nat}
    (h : bindRunAt runId ref agentId revision now ts = .ok (u, ts')) :
    StoreMoves grows ts ts' := by
  simp only [bindRunAt, Txn.bind_ok, Txn.get_ok, Txn.set_ok,
    Txn.throwIf_ok] at h
  obtain ⟨_, _, ⟨rfl, rfl⟩, _, _, rfl, _, _, hinsert, -, rfl⟩ := h
  have hclosed : StoreMoves grows ts
      (ts.moveRuns ref RunState.active .failed now) :=
    .bindings rfl rfl (.moveRuns _ _ _ _ _)
  exact hclosed.trans (insertTaskRun_moves hinsert)

theorem reactivateRun_moves {runId : RunId}
    (h : reactivateRun runId now ts = .ok (u, ts')) : StoreMoves grows ts ts' := by
  simp only [reactivateRun, Txn.bind_ok, Txn.get_ok, Txn.throwIf_ok,
    Txn.set_ok] at h
  obtain ⟨_, _, ⟨rfl, rfl⟩, _, _, ⟨-, rfl⟩, rfl⟩ := h
  refine .bindings rfl rfl (.of_map (fun run => ?_) (fun run => ?_) rfl)
  · split <;> rfl
  · split <;> exact ⟨rfl, rfl⟩

theorem abandonRun_moves {runId : RunId}
    (h : abandonRun runId now ts = .ok (u, ts')) : StoreMoves grows ts ts' := by
  cases Txn.modify_ok.mp h
  refine .bindings rfl rfl (.of_map (abandoned_runId runId now)
    (fun run => ?_) rfl)
  unfold TaskRun.abandoned
  split <;> exact ⟨rfl, rfl⟩

theorem setDispatchState_moves {ref : TaskRef} {state : TaskDispatchState}
    {n : Nat} (h : setDispatchState ref state n ts = .ok (u, ts')) :
    StoreMoves grows ts ts' := by
  simp only [setDispatchState, Txn.modify_ok] at h
  subst h
  exact .single (.dispatched (fun r => getTask_dispatched ts ref state n r) rfl
    (.of_eq rfl) (contents_update (dispatched_ref state n) (fun _ => rfl)
      rfl))

theorem claimTask_moves {ref : TaskRef} {runId : RunId} {agentId : AgentId}
    {pinned : ProjectTask}
    (h : TaskStore.claimTask ref runId agentId now ts = .ok (pinned, ts')) :
    StoreMoves grows ts ts' := by
  simp only [TaskStore.claimTask, Txn.bind_ok, Txn.get_ok, Txn.orThrow_ok,
    Txn.throwIf_ok] at h
  obtain ⟨_, _, ⟨rfl, rfl⟩, task, _, ⟨-, rfl⟩, _, _, ⟨-, rfl⟩, _, _,
    ⟨-, rfl⟩, _, _, ⟨-, rfl⟩, _, m, hmove, hbind⟩ := h
  exact (applyTransition_moves hmove).trans (bindRun_moves hbind)

theorem commitStatus_moves {changes : TaskStatusChanges} {task : Task}
    {current : ProjectTask}
    (h : commitStatus changes task current now ts = .ok (u, ts')) :
    StoreMoves grows ts ts' := by
  unfold commitStatus at h
  split at h
  · cases (Txn.pure_ok.mp h).2
    exact .refl
  · simp only [Txn.bind_ok, Txn.orThrow_ok] at h
    obtain ⟨change, _, ⟨-, rfl⟩, _, m, hstart, hmove⟩ := h
    refine .trans ?_ (applyTransition_moves hmove)
    unfold recordStart at hstart
    split at hstart
    · exact applyTransition_moves hstart
    · cases (Txn.pure_ok.mp hstart).2
      exact .refl

theorem commitTask_moves {changes : TaskStatusChanges} {task : Task}
    (h : commitTask changes now task ts = .ok (u, ts')) :
    StoreMoves grows ts ts' := by
  simp only [commitTask, Txn.bind_ok, Txn.get_ok, Txn.orThrow_ok,
    Txn.throwIf_ok] at h
  obtain ⟨_, _, ⟨rfl, rfl⟩, current, _, ⟨-, rfl⟩, _, _, ⟨-, rfl⟩, _, m,
    hstatus, hdispatch⟩ := h
  exact (commitStatus_moves hstatus).trans (setDispatchState_moves hdispatch)

theorem reclaimTask_moves {claim : Claim} {task : Task}
    (h : reclaimTask claim now task ts = .ok (u, ts')) :
    StoreMoves grows ts ts' := by
  simp only [reclaimTask, Txn.bind_ok] at h
  obtain ⟨_, m, hclaim, _, n, hopen, h⟩ := h
  refine (applyTransition_moves hclaim).trans
    ((reactivateRun_moves hopen).trans ?_)
  split at h
  · exact applyTransition_moves h
  · cases (Txn.pure_ok.mp h).2
    exact .refl

theorem restoreTask_moves {claims : List Claim} {task : Task}
    (h : restoreTask claims now task ts = .ok (u, ts')) :
    StoreMoves grows ts ts' := by
  simp only [restoreTask, Txn.bind_ok, Txn.get_ok] at h
  obtain ⟨_, _, ⟨rfl, rfl⟩, h⟩ := h
  split at h
  · cases (Txn.pure_ok.mp h).2
    exact .refl
  · cases hclaim : claims.find? fun c => c.taskRef = task.ref && c.active with
    | none =>
        rw [hclaim] at h
        cases (Txn.pure_ok.mp h).2
        exact .refl
    | some claim =>
        rw [hclaim] at h
        exact reclaimTask_moves h

theorem importPlannedTask_moves {task : PlannedTask}
    (h : importPlannedTask now task ts = .ok (u, ts')) :
    StoreMoves true ts ts' := by
  simp only [importPlannedTask, Txn.bind_ok, Txn.liftM_ok] at h
  obtain ⟨spec, _, ⟨-, rfl⟩, _, m, hcreate, _, n, hmove, hdispatch⟩ := h
  refine (createTask_moves hcreate).trans
    (.trans ?_ (setDispatchState_moves hdispatch))
  unfold importStatus at hmove
  split at hmove
  · cases (Txn.pure_ok.mp hmove).2
    exact .refl
  · exact applyTransition_moves hmove

theorem forM_moves {α : Type} {f : α → Tasks Unit}
    (hf : ∀ a s t v, f a s = .ok (v, t) → StoreMoves grows s t) {l : List α}
    (h : l.forM f ts = .ok (u, ts')) : StoreMoves grows ts ts' :=
  Txn.forM_keeps (P := StoreMoves grows ts)
    (fun a s t v hstep hs => hs.trans (hf a s t v hstep)) h .refl

mutual

theorem StoreOp.perform_moves :
    ∀ (op : StoreOp), (op.lifecycle = false → grows = true) →
      ∀ {ts ts' : TaskStore} {u : Unit}, op.perform now ts = .ok (u, ts') →
        StoreMoves grows ts ts'
  | .createTask input, hgrows, _, _, _, h => by
      obtain ⟨_, h⟩ := Txn.discard_ok.mp h
      cases hgrows rfl
      exact createTask_moves h
  | .applyTransition ref input, _, _, _, _, h => applyTransition_moves h
  | .claimTask ref runId agentId, _, _, _, _, h => by
      obtain ⟨_, h⟩ := Txn.discard_ok.mp h
      exact claimTask_moves h
  | .bindRun runId ref agentId none, _, _, _, _, h => by
      obtain ⟨_, h⟩ := Txn.discard_ok.mp h
      exact bindRun_moves h
  | .bindRun runId ref agentId (some revision), _, _, _, _, h =>
      bindRunAt_moves h
  | .abandonRun runId, _, _, _, _, h => abandonRun_moves h
  | .reactivateRun runId, _, _, _, _, h => reactivateRun_moves h
  | .setDispatchState ref state n, _, _, _, _, h => setDispatchState_moves h
  | .commitBacklog backlog changes, _, _, _, _, h =>
      forM_moves (fun _ _ _ _ => commitTask_moves) h
  | .restoreBacklogStatuses backlog claims, _, _, _, _, h =>
      forM_moves (fun _ _ _ _ => restoreTask_moves) h
  | .importPlannedTasks tasks, hgrows, _, _, _, h => by
      cases hgrows rfl
      exact forM_moves (fun _ _ _ _ => importPlannedTask_moves) h
  | .inTransaction ops, hgrows, _, _, _, h =>
      StoreOp.performAll_moves ops hgrows h
  | .attempt op, hgrows, _, _, _, h => by
      rcases Txn.attempt_ok h with h | rfl
      · exact StoreOp.perform_moves op hgrows h
      · exact .refl

theorem StoreOp.performAll_moves :
    ∀ (ops : List StoreOp), (StoreOp.allLifecycle ops = false → grows = true) →
      ∀ {ts ts' : TaskStore} {u : Unit},
        StoreOp.performAll now ops ts = .ok (u, ts') → StoreMoves grows ts ts'
  | [], _, _, _, _, h => by
      cases (Txn.pure_ok.mp h).2
      exact .refl
  | op :: rest, hgrows, _, _, _, h => by
      obtain ⟨_, m, hop, hrest⟩ := Txn.bind_ok.mp h
      refine (StoreOp.perform_moves op (fun hno => hgrows ?_) hop).trans
        (StoreOp.performAll_moves rest (fun hno => hgrows ?_) hrest)
      · simp [StoreOp.allLifecycle, hno]
      · simp [StoreOp.allLifecycle, hno]

end

theorem commit_moves (op : StoreOp) :
    StoreMoves true ts ((op.perform now).commit ts) := by
  rcases Txn.commit_cases (op.perform now) ts with ⟨_, h⟩ | h
  · exact StoreOp.perform_moves op (fun _ => rfl) h
  · rw [h]

/-! ## The invariant -/

structure Historied (ts : TaskStore) : Prop where
  known : ∀ row ∈ ts.transitions, (ts.getTask row.taskRef).isSome = true
  walks : ∀ ref task, ts.getTask ref = some task →
    Walk TaskTransition.fromStatus TaskTransition.toStatus .todo
      (ts.transitionsOf ref) task.status
  allowed : ∀ row ∈ ts.transitions,
    canTransitionTaskStatus row.fromStatus row.toStatus row.cause = true
  blocked : ∀ ref task, ts.getTask ref = some task → task.status = .blocked →
    hasText task.blockedReason = true
  unblocked : ∀ ref task, ts.getTask ref = some task → task.status ≠ .blocked →
    task.blockedReason = none
  keys : ∀ ref, ((ts.transitionsOf ref).filterMap
    TaskTransition.idempotencyKey).Nodup

theorem Historied.empty : Historied {} where
  known row hrow := absurd hrow List.not_mem_nil
  walks ref task htask := by cases htask
  allowed row hrow := absurd hrow List.not_mem_nil
  blocked ref task htask := by cases htask
  unblocked ref task htask := by cases htask
  keys ref := List.nodup_nil

theorem transitionsOf_eq (hrows : ts'.transitions = ts.transitions)
    (ref : TaskRef) : ts'.transitionsOf ref = ts.transitionsOf ref := by
  rw [TaskStore.transitionsOf, TaskStore.transitionsOf, hrows]

theorem transitionsOf_snoc {row : TaskTransition}
    (hrows : ts'.transitions = ts.transitions ++ [row]) (ref : TaskRef) :
    ts'.transitionsOf ref =
      if row.taskRef = ref then ts.transitionsOf ref ++ [row]
      else ts.transitionsOf ref := by
  rw [TaskStore.transitionsOf, hrows, List.filter_append]
  split
  · rename_i h
    simp [TaskStore.transitionsOf, h]
  · rename_i h
    simp [TaskStore.transitionsOf, h]

theorem Historied.fresh (h : Historied ts) {ref : TaskRef}
    (hfresh : ts.getTask ref = none) : ts.transitionsOf ref = [] := by
  refine List.filter_eq_nil_iff.mpr fun row hrow => ?_
  have hknown := h.known row hrow
  simp only [decide_eq_true_eq]
  rintro rfl
  rw [hfresh] at hknown
  cases hknown

theorem Historied.created (h : Historied ts) {task : ProjectTask}
    (hfresh : ts.getTask task.ref = none) (hstatus : task.status = .todo)
    (hreason : task.blockedReason = none)
    (hget : ∀ r, ts'.getTask r =
      if r = task.ref then some task else ts.getTask r)
    (hrows : ts'.transitions = ts.transitions) : Historied ts' := by
  -- The new task's history is empty, and every other task is as before.
  have hcases : ∀ ref t, ts'.getTask ref = some t →
      ref = task.ref ∧ t = task ∨ ts.getTask ref = some t := by
    intro ref t ht
    rw [hget] at ht
    split at ht
    · rename_i href
      exact .inl ⟨href, (Option.some.inj ht).symm⟩
    · exact .inr ht
  refine ⟨fun row hrow => ?_, fun ref t ht => ?_, fun row hrow => ?_,
    fun ref t ht hblocked => ?_, fun ref t ht hopen => ?_, fun ref => ?_⟩
  · rw [hget]
    split
    · rfl
    · exact h.known row (hrows ▸ hrow)
  · rw [transitionsOf_eq hrows]
    rcases hcases ref t ht with ⟨rfl, rfl⟩ | hold
    · rw [h.fresh hfresh]
      exact hstatus.symm
    · exact h.walks ref t hold
  · exact h.allowed row (hrows ▸ hrow)
  · rcases hcases ref t ht with ⟨rfl, rfl⟩ | hold
    · rw [hstatus] at hblocked
      cases hblocked
    · exact h.blocked ref t hold hblocked
  · rcases hcases ref t ht with ⟨rfl, rfl⟩ | hold
    · exact hreason
    · exact h.unblocked ref t hold hopen
  · rw [transitionsOf_eq hrows]
    exact h.keys ref

theorem Historied.transitioned (h : Historied ts) {task : ProjectTask}
    {row : TaskTransition} (htask : ts.getTask row.taskRef = some task)
    (hstatus : row.fromStatus = task.status)
    (hallowed : canTransitionTaskStatus row.fromStatus row.toStatus
      row.cause = true)
    (hreason : row.toStatus = .blocked → hasText row.reason = true)
    (hkey : ts.keyTaken row.taskRef row.idempotencyKey = false)
    (hget : ∀ r, ts'.getTask r = if r = row.taskRef then
      some (ProjectTask.moved row.toStatus row.reason row.createdAt task)
      else ts.getTask r)
    (hrows : ts'.transitions = ts.transitions ++ [row]) : Historied ts' := by
  have hcases : ∀ ref t, ts'.getTask ref = some t →
      ref = row.taskRef ∧
        t = ProjectTask.moved row.toStatus row.reason row.createdAt task ∨
      ref ≠ row.taskRef ∧ ts.getTask ref = some t := by
    intro ref t ht
    rw [hget] at ht
    split at ht
    · rename_i href
      exact .inl ⟨href, (Option.some.inj ht).symm⟩
    · rename_i href
      exact .inr ⟨href, ht⟩
  refine ⟨fun r hr => ?_, fun ref t ht => ?_, fun r hr => ?_,
    fun ref t ht hblocked => ?_, fun ref t ht hopen => ?_, fun ref => ?_⟩
  · rw [hget]
    split
    · rfl
    · rename_i hne
      rw [hrows, List.mem_append, List.mem_singleton] at hr
      rcases hr with hr | rfl
      · exact h.known r hr
      · exact absurd rfl hne
  · rw [transitionsOf_snoc hrows]
    rcases hcases ref t ht with ⟨rfl, rfl⟩ | ⟨hne, hold⟩
    · rw [if_pos rfl]
      exact (h.walks _ task htask).snoc hstatus
    · rw [if_neg (Ne.symm hne)]
      exact h.walks ref t hold
  · rw [hrows, List.mem_append, List.mem_singleton] at hr
    rcases hr with hr | rfl
    · exact h.allowed r hr
    · exact hallowed
  · rcases hcases ref t ht with ⟨rfl, rfl⟩ | ⟨-, hold⟩
    · have hto : row.toStatus = .blocked := hblocked
      simpa [ProjectTask.moved, hto] using hreason hto
    · exact h.blocked ref t hold hblocked
  · rcases hcases ref t ht with ⟨rfl, rfl⟩ | ⟨-, hold⟩
    · exact if_neg hopen
    · exact h.unblocked ref t hold hopen
  · rw [transitionsOf_snoc hrows]
    split
    · rename_i href
      subst href
      refine nodup_keys_snoc (h.keys _) fun k hk r hr heq => ?_
      obtain ⟨hmem, href⟩ := List.mem_filter.mp hr
      have hfree : ∀ x ∈ ts.transitions, x.taskRef = row.taskRef →
          x.idempotencyKey ≠ row.idempotencyKey := by
        simpa [TaskStore.keyTaken, hk] using hkey
      exact hfree r hmem (by simpa using href) (heq.trans hk.symm)
    · exact h.keys ref

theorem Historied.sameStatus (h : Historied ts)
    (hknown : ∀ r, (ts'.getTask r).isSome = (ts.getTask r).isSome)
    (hsame : ∀ r t, ts'.getTask r = some t → ∃ old, ts.getTask r = some old ∧
      t.status = old.status ∧ t.blockedReason = old.blockedReason)
    (hrows : ts'.transitions = ts.transitions) : Historied ts' := by
  refine ⟨fun row hrow => ?_, fun r t ht => ?_, fun row hrow => ?_,
    fun r t ht hblocked => ?_, fun r t ht hopen => ?_, fun r => ?_⟩
  · rw [hknown]
    exact h.known row (hrows ▸ hrow)
  · obtain ⟨old, hold, hstatus, -⟩ := hsame r t ht
    rw [transitionsOf_eq hrows, hstatus]
    exact h.walks r old hold
  · exact h.allowed row (hrows ▸ hrow)
  · obtain ⟨old, hold, hstatus, hreason⟩ := hsame r t ht
    rw [hreason]
    exact h.blocked r old hold (hstatus ▸ hblocked)
  · obtain ⟨old, hold, hstatus, hreason⟩ := hsame r t ht
    rw [hreason]
    exact h.unblocked r old hold (hstatus ▸ hopen)
  · rw [transitionsOf_eq hrows]
    exact h.keys r

theorem Historied.dispatched (h : Historied ts) {ref : TaskRef}
    {state : TaskDispatchState} {n : Nat}
    (hget : ∀ r, ts'.getTask r =
      if r = ref then (ts.getTask r).map (ProjectTask.dispatched state n)
      else ts.getTask r)
    (hrows : ts'.transitions = ts.transitions) : Historied ts' := by
  refine h.sameStatus (fun r => ?_) (fun r t ht => ?_) hrows
  · rw [hget]
    split
    · exact Option.isSome_map
    · rfl
  · rw [hget] at ht
    split at ht
    · obtain ⟨old, hold, rfl⟩ := Option.map_eq_some_iff.mp ht
      exact ⟨old, hold, rfl, rfl⟩
    · exact ⟨t, ht, rfl, rfl⟩

theorem Historied.bindings (h : Historied ts) (htasks : ts'.tasks = ts.tasks)
    (hrows : ts'.transitions = ts.transitions) : Historied ts' := by
  have hget : ∀ r, ts'.getTask r = ts.getTask r := by
    intro r
    rw [TaskStore.getTask, TaskStore.getTask, htasks]
  refine h.sameStatus (fun r => by rw [hget]) (fun r t ht => ?_) hrows
  exact ⟨t, hget r ▸ ht, rfl, rfl⟩

theorem Historied.move (h : Historied ts) (hmove : StoreMove grows ts ts') :
    Historied ts' := by
  cases hmove with
  | created _ hfresh hstatus hreason hget hrows =>
      exact h.created hfresh hstatus hreason hget hrows
  | transitioned htask hstatus hallowed hreason hkey hget hrows =>
      exact h.transitioned htask hstatus hallowed hreason hkey hget hrows
  | dispatched hget hrows => exact h.dispatched hget hrows
  | bindings htasks hrows => exact h.bindings htasks hrows

theorem Historied.moves (h : Historied ts) (hmoves : StoreMoves grows ts ts') :
    Historied ts' := by
  induction hmoves with
  | refl => exact h
  | tail _ hmove ih => exact ih.move hmove

theorem Historied.reachable (h : storeSystem.Reachable ts) : Historied ts := by
  refine h.invariant (fun _ hinit => hinit ▸ Historied.empty) ?_
  rintro s op t hs ht
  cases ht
  exact hs.moves (commit_moves op.2)

/-! ## Rows are only added -/

theorem StoreMove.rowsKept (h : StoreMove grows ts ts') :
    ts.transitions <+: ts'.transitions := by
  cases h with
  | transitioned _ _ _ _ _ _ hrows => exact hrows ▸ List.prefix_append _ _
  | created _ _ _ _ _ hrows => exact hrows ▸ List.prefix_rfl
  | dispatched _ hrows => exact hrows ▸ List.prefix_rfl
  | bindings _ hrows => exact hrows ▸ List.prefix_rfl

theorem StoreMoves.rowsKept (h : StoreMoves grows ts ts') :
    ts.transitions <+: ts'.transitions := by
  induction h with
  | refl => exact List.prefix_rfl
  | tail _ hmove ih => exact ih.trans hmove.rowsKept

/-! ## Refusals -/

theorem applyTransition_repeated {ref : TaskRef} {input : TaskTransitionInput}
    (now : String) (h : ts.keyTaken ref input.idempotencyKey = true) :
    (applyTransition ref input now).commit ts = ts := by
  rcases Txn.commit_cases (applyTransition ref input now) ts with
    ⟨_, hok⟩ | hsame
  · obtain ⟨-, -, ⟨-, hsame⟩ | ⟨-, -, hfree, -⟩⟩ := applyTransition_cases hok
    · exact hsame
    · rw [h] at hfree
      cases hfree
  · exact hsame

theorem applyTransition_refused {ref : TaskRef} {input : TaskTransitionInput}
    {task : ProjectTask} (now : String) (htask : ts.getTask ref = some task)
    (h : canTransitionTaskStatus task.status input.toStatus input.cause =
      false) : (applyTransition ref input now).commit ts = ts := by
  rcases Txn.commit_cases (applyTransition ref input now) ts with
    ⟨_, hok⟩ | hsame
  · obtain ⟨task', htask', ⟨-, hsame⟩ | ⟨hvalid, -⟩⟩ :=
      applyTransition_cases hok
    · exact hsame
    · rw [htask] at htask'
      cases htask'
      rw [transitionsValidate_eq, h] at hvalid
      cases hvalid
  · exact hsame

/-! ## A task's status is the end of its history -/

structure TaskHistory (task : ProjectTask) (rows : List TaskTransition) :
    Prop where
  starts : ∀ row, rows.head? = some row → row.fromStatus = .todo
  linked : rows.IsChain fun a b => b.fromStatus = a.toStatus
  allowed : ∀ row ∈ rows,
    canTransitionTaskStatus row.fromStatus row.toStatus row.cause = true
  ends : task.status = (rows.getLast?.map TaskTransition.toStatus).getD .todo
  blocked : hasText task.blockedReason = true ↔ task.status = .blocked
  unblocked : task.status ≠ .blocked → task.blockedReason = none
  keys : (rows.filterMap TaskTransition.idempotencyKey).Nodup
  exits : ∀ row ∈ rows, row.fromStatus.terminal = true →
    row.cause = .operatorReset ∨
      row.fromStatus = .done ∧ row.cause = .postMergeRelease

theorem Historied.history (h : Historied ts) {ref : TaskRef}
    {task : ProjectTask} (htask : ts.getTask ref = some task) :
    TaskHistory task (ts.transitionsOf ref) := by
  have hallowed : ∀ row ∈ ts.transitionsOf ref,
      canTransitionTaskStatus row.fromStatus row.toStatus row.cause = true :=
    fun row hrow => h.allowed row (List.mem_filter.mp hrow).1
  refine ⟨fun row hrow => (h.walks ref task htask).head hrow,
    (h.walks ref task htask).isChain, hallowed,
    (h.walks ref task htask).finish_eq, ⟨fun htext => ?_,
      h.blocked ref task htask⟩, h.unblocked ref task htask, h.keys ref,
    fun row hrow => canTransition_of_terminal (hallowed row hrow)⟩
  by_contra hopen
  rw [h.unblocked ref task htask hopen] at htext
  cases htext

/--
In every state the operations of the store reach, each task's status ends its
history, and from there no operation rewrites a row, a key that is taken or a
transition the table does not allow changes nothing, and neither does an
operation that throws.
-/
theorem status_ends_history (h : storeSystem.Reachable ts) :
    (∀ ref task, ts.getTask ref = some task →
      TaskHistory task (ts.transitionsOf ref)) ∧
    (∀ op ts', storeSystem.step ts op = some ts' →
      ts.transitions <+: ts'.transitions) ∧
    (∀ ref input now, ts.keyTaken ref input.idempotencyKey = true →
      (applyTransition ref input now).commit ts = ts) ∧
    (∀ ref input now task, ts.getTask ref = some task →
      canTransitionTaskStatus task.status input.toStatus input.cause = false →
      (applyTransition ref input now).commit ts = ts) ∧
    ∀ op now e, StoreOp.perform now op ts = .error e →
      (StoreOp.perform now op).commit ts = ts := by
  refine ⟨fun ref task => (Historied.reachable h).history, fun op ts' hstep => ?_,
    fun ref input now => applyTransition_repeated now,
    fun ref input now task => applyTransition_refused now,
    fun op now e => Txn.commit_of_error⟩
  cases hstep
  exact StoreMoves.rowsKept (commit_moves op.2)

def keyedBlock : TaskTransitionInput where
  cause := .manualBlock
  toStatus := .blocked
  reason := some "waits"
  idempotencyKey := some "block-1"

theorem status_ends_history_blocked :
    ∃ ts task, storeSystem.Reachable ts ∧ ts.getTask "docs/intro" = some task ∧
      task.status = .blocked ∧ (ts.transitionsOf "docs/intro").length = 3 ∧
      TaskHistory task (ts.transitionsOf "docs/intro") ∧
      (applyTransition "docs/intro" keyedBlock "t5").commit ts = ts ∧
      (applyTransition "docs/intro"
        { cause := .claim, toStatus := .claimed } "t6").commit ts = ts := by
  obtain ⟨ts, hrun, hts⟩ := storeSystem.exists_run_of_map
    (f := fun ts => ((ts.getTask "docs/intro").map ProjectTask.status,
      (ts.transitionsOf "docs/intro").length,
      ts.keyTaken "docs/intro" keyedBlock.idempotencyKey))
    (by decide : (storeSystem.run {}
      [("t1", .createTask { ref := "docs/intro", title := some "Intro" }),
        ("t2", .inTransaction
          [.applyTransition "docs/intro" { cause := .claim, toStatus := .claimed },
            .attempt (.applyTransition "docs/intro"
              { cause := .mergeSucceeded, toStatus := .done })]),
        ("t3", .applyTransition "docs/intro"
          { cause := .failureRequeue, toStatus := .todo }),
        ("t4", .applyTransition "docs/intro" keyedBlock),
        ("t5", .applyTransition "docs/intro" keyedBlock)]).map _ =
      some (some .blocked, 3, true))
  simp only [Prod.mk.injEq] at hts
  obtain ⟨hstatus, hrows, hkey⟩ := hts
  obtain ⟨task, htask, hblocked⟩ := Option.map_eq_some_iff.mp hstatus
  have hreach : storeSystem.Reachable ts := .run (.initial rfl) hrun
  obtain ⟨hhistory, -, hrepeated, hrefused, -⟩ := status_ends_history hreach
  refine ⟨ts, task, hreach, htask, hblocked, hrows, hhistory _ task htask,
    hrepeated _ _ _ hkey, hrefused _ _ _ task htask ?_⟩
  rw [hblocked]
  rfl

end OrcState.Store
