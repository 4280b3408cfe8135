import OrcState.Store.TransitionHistory

/-!
# The rows of a committed backlog

What `commitBacklog` makes of the row of each entry: the columns of the dispatch
state and the attempt count always, the status when it changed and its key was
new.  An entry is committed against the row its own task had when the commit
began, whatever the entries before it did.
-/

namespace OrcState.Store

open OrcState.Contract OrcState.Foundation

variable {ts ts' : TaskStore} {changes : TaskStatusChanges} {now : String}

/-! ## One entry -/

/-- The start that `merge_succeeded` records of a task that never started. -/
def startedRow (change : TaskStatusChange) (now : String)
    (current : ProjectTask) : ProjectTask :=
  if change.cause = .mergeSucceeded ∧ current.status = .claimed then
    ProjectTask.moved .inProgress none now current
  else current

inductive StatusRow (changes : TaskStatusChanges) (now : String) (task : Task)
    (rows : List TaskTransition) (current : ProjectTask) : ProjectTask → Prop
  | kept (hsame : task.status = current.status) :
      StatusRow changes now task rows current current
  | moved (change : TaskStatusChange) (hne : task.status ≠ current.status)
      (hchange : changes.lookup task.ref = some change)
      (hnew : (truthy change.idempotencyKey &&
        rows.any fun t => t.idempotencyKey = change.idempotencyKey) = false) :
      StatusRow changes now task rows current
        (ProjectTask.moved task.status (transitionReason task change) now current)
  | repeated (change : TaskStatusChange) (hne : task.status ≠ current.status)
      (hchange : changes.lookup task.ref = some change)
      (hkey : (truthy change.idempotencyKey &&
        rows.any fun t => t.idempotencyKey = change.idempotencyKey) = true) :
      StatusRow changes now task rows current (startedRow change now current)

def TaskStore.record (ts : TaskStore) (ref : TaskRef) :
    Option ProjectTask × List TaskTransition :=
  (ts.getTask ref, ts.transitionsOf ref)

theorem recorded_eq (ts : TaskStore) (ref : TaskRef) (key : Option String) :
    ts.recorded ref key =
      (truthy key && (ts.transitionsOf ref).any fun t =>
        t.idempotencyKey = key) := by
  rw [TaskStore.recorded, TaskStore.transitionsOf, List.any_filter]

theorem transitioned_transitions (ts : TaskStore) (task : ProjectTask)
    (input : TaskTransitionInput) (now : String) :
    ∃ row : TaskTransition, row.taskRef = task.ref ∧
      row.idempotencyKey = input.idempotencyKey ∧
      (ts.transitioned task input now).transitions = ts.transitions ++ [row] := by
  refine ⟨{ taskRef := task.ref, fromStatus := task.status
            toStatus := input.toStatus, cause := input.cause
            reason := input.reason, runId := input.runId
            actorId := input.actorId, idempotencyKey := input.idempotencyKey
            createdAt := now }, rfl, rfl, ?_⟩
  rw [TaskStore.transitioned, closeRuns_transitions, startRuns_transitions]
  rfl

theorem transitioned_record {task : ProjectTask}
    (htask : ts.getTask task.ref = some task) (input : TaskTransitionInput)
    (now : String) :
    (ts.transitioned task input now).getTask task.ref =
        some (ProjectTask.moved input.toStatus input.reason now task) ∧
      (∃ row : TaskTransition, row.idempotencyKey = input.idempotencyKey ∧
        (ts.transitioned task input now).transitionsOf task.ref =
          ts.transitionsOf task.ref ++ [row]) ∧
      ∀ r, r ≠ task.ref →
        (ts.transitioned task input now).record r = ts.record r := by
  obtain ⟨row, href, hkey, hrows⟩ := transitioned_transitions ts task input now
  have hget : ∀ r, (ts.transitioned task input now).getTask r =
      if r = task.ref then
        (ts.getTask r).map (ProjectTask.moved input.toStatus input.reason now)
      else ts.getTask r := by
    intro r
    rw [TaskStore.getTask, transitioned_tasks, Table.find?_update]
    rfl
  refine ⟨?_, ⟨row, hkey, ?_⟩, fun r hr => Prod.ext ?_ ?_⟩
  · rw [hget, if_pos rfl, htask]
    rfl
  · rw [TaskStore.transitionsOf, hrows, List.filter_append]
    simp [TaskStore.transitionsOf, href]
  · exact (hget r).trans (if_neg hr)
  · have hne : ¬ row.taskRef = r := fun h => hr (h.symm.trans href)
    simp only [TaskStore.record, TaskStore.transitionsOf, hrows,
      List.filter_append]
    simp [hne]

theorem commitStatus_row {task : Task} {current : ProjectTask} {u : Unit}
    (hcurrent : ts.getTask task.ref = some current)
    (h : commitStatus changes task current now ts = .ok (u, ts')) :
    (∃ row, ts'.getTask task.ref = some row ∧
      StatusRow changes now task (ts.transitionsOf task.ref) current row) ∧
      ∀ r, r ≠ task.ref → ts'.record r = ts.record r := by
  have href : current.ref = task.ref := Table.key_of_find? hcurrent
  unfold commitStatus at h
  split at h
  · rename_i hsame
    obtain ⟨-, rfl⟩ := Txn.pure_ok.mp h
    exact ⟨⟨current, hcurrent, .kept hsame⟩, fun _ _ => rfl⟩
  rename_i hne
  simp only [Txn.bind_ok, Txn.orThrow_ok] at h
  obtain ⟨change, _, ⟨hchange, rfl⟩, _, m, hstart, hmove⟩ := h
  -- the start, if there is one, moves the row and adds a row without a key
  have hm : m.getTask task.ref = some (startedRow change now current) ∧
      (m.transitionsOf task.ref).any
          (fun t => t.idempotencyKey = change.idempotencyKey) =
        ((ts.transitionsOf task.ref).any
          (fun t => t.idempotencyKey = change.idempotencyKey) ||
        decide (change.idempotencyKey = none ∧
          change.cause = .mergeSucceeded ∧ current.status = .claimed)) ∧
      ∀ r, r ≠ task.ref → m.record r = ts.record r := by
    unfold recordStart at hstart
    unfold startedRow
    by_cases hmerge : change.cause = .mergeSucceeded ∧ current.status = .claimed
    · rw [if_pos hmerge] at hstart ⊢
      obtain ⟨current', hcurrent', -, -, rfl⟩ := applyTransition_ok rfl hstart
      rw [hcurrent] at hcurrent'
      cases hcurrent'
      have hself : ts.getTask current.ref = some current := href ▸ hcurrent
      obtain ⟨hrow, ⟨row, hkey, hrows⟩, hother⟩ := transitioned_record hself
        { cause := .runStart, toStatus := .inProgress, runId := change.runId
          actorId := change.actorId } now
      rw [href] at hrow hrows
      refine ⟨hrow, ?_, fun r hr => hother r (by rwa [href])⟩
      rw [hrows, List.any_append]
      simp [hkey, hmerge, eq_comm]
    · rw [if_neg hmerge] at hstart ⊢
      obtain ⟨-, rfl⟩ := Txn.pure_ok.mp hstart
      refine ⟨hcurrent, ?_, fun _ _ => rfl⟩
      simp [hmerge]
  obtain ⟨hmget, hmkeys, hmother⟩ := hm
  have hkeys : m.recorded task.ref change.idempotencyKey =
      (truthy change.idempotencyKey && (ts.transitionsOf task.ref).any fun t =>
        t.idempotencyKey = change.idempotencyKey) := by
    rw [recorded_eq, hmkeys]
    cases hkey : change.idempotencyKey with
    | none => rfl
    | some key => simp
  obtain ⟨started, hstarted, ⟨hrecorded, rfl⟩ | ⟨-, -, htaken, rfl⟩⟩ :=
    applyTransition_cases hmove
  · refine ⟨⟨_, hmget, .repeated change hne hchange ?_⟩, hmother⟩
    rw [← hkeys]
    exact hrecorded
  · rw [hmget] at hstarted
    cases hstarted
    have hsref : (startedRow change now current).ref = task.ref := by
      unfold startedRow
      split <;> exact href
    have hself : m.getTask (startedRow change now current).ref =
        some (startedRow change now current) := hsref ▸ hmget
    obtain ⟨hrow, -, hother⟩ := transitioned_record hself
      { cause := change.cause, toStatus := task.status, runId := change.runId
        actorId := change.actorId, idempotencyKey := change.idempotencyKey
        reason := transitionReason task change } now
    rw [hsref] at hrow
    refine ⟨⟨_, hrow, ?_⟩, fun r hr => ?_⟩
    · have hsame : ProjectTask.moved task.status (transitionReason task change)
          now (startedRow change now current) =
          ProjectTask.moved task.status (transitionReason task change) now
            current := by
        unfold startedRow
        split <;> rfl
      rw [hsame]
      refine .moved change hne hchange ?_
      rw [← hkeys]
      have hfree := htaken
      simp only [TaskStore.keyTaken, TaskStore.recorded] at hfree ⊢
      cases hkey : change.idempotencyKey with
      | none => rfl
      | some key =>
          rw [hkey] at hfree
          simp only [Option.isSome_some, Bool.true_and] at hfree
          rw [hfree, Bool.and_false]
    · rw [hother r (by rwa [hsref]), hmother r hr]

/-! ## The whole backlog -/

def CommittedRow (changes : TaskStatusChanges) (now : String) (task : Task)
    (before after : Option ProjectTask × List TaskTransition) : Prop :=
  ∃ current row, before.1 = some current ∧
    StatusRow changes now task before.2 current row ∧
    TaskDefinition.normalized task.definition =
      TaskDefinition.normalized current.definition ∧
    after.1 = some (ProjectTask.dispatched (committedDispatch task current)
      task.attemptCount row)

theorem commitTask_row {task : Task} {u : Unit}
    (h : commitTask changes now task ts = .ok (u, ts')) :
    CommittedRow changes now task (ts.record task.ref) (ts'.record task.ref) ∧
      ∀ r, r ≠ task.ref → ts'.record r = ts.record r := by
  simp only [commitTask, Txn.bind_ok, Txn.get_ok, Txn.orThrow_ok,
    Txn.throwIf_ok, setDispatchState, Txn.modify_ok] at h
  obtain ⟨_, _, ⟨rfl, rfl⟩, current, _, ⟨hcurrent, rfl⟩, _, _, ⟨hdef, rfl⟩, _,
    m, hstatus, rfl⟩ := h
  obtain ⟨⟨row, hrow, hstatusRow⟩, hother⟩ := commitStatus_row hcurrent hstatus
  refine ⟨⟨current, row, hcurrent, hstatusRow, not_not.mp hdef, ?_⟩,
    fun r hr => ?_⟩
  · change TaskStore.getTask _ task.ref = _
    rw [getTask_dispatched, if_pos rfl, hrow]
    rfl
  · rw [← hother r hr]
    refine Prod.ext ?_ rfl
    change TaskStore.getTask _ r = _
    rw [getTask_dispatched, if_neg hr]
    rfl

theorem commitBacklog_rows {backlog : Backlog} {u : Unit}
    (hnodup : (backlog.map Task.ref).Nodup)
    (h : commitBacklog backlog changes now ts = .ok (u, ts')) :
    (∀ task ∈ backlog,
      CommittedRow changes now task (ts.record task.ref)
        (ts'.record task.ref)) ∧
      ∀ r, r ∉ backlog.map Task.ref → ts'.record r = ts.record r :=
  Txn.forM_views (P := fun _ => True)
    (fun _ _ _ _ _ _ hm => ⟨trivial, commitTask_row hm⟩) hnodup trivial h

end OrcState.Store
