import OrcState.Store.ProjectTasks

/-!
# The slice of one task

What the task store says of one task: its status, its attempts and the state of
each of its bindings.  A write that names a task leaves the slices of the others,
so a walk over distinct tasks is known from what it does to each of them.
-/

namespace OrcState.Store

open OrcState.Contract OrcState.Foundation

variable {ts ts' : TaskStore}

/-! ## Slices -/

@[ext] structure Slice where
  row : Option (TaskStatus × Nat)
  runs : RunId → Option RunState

def TaskStore.slice (ts : TaskStore) (ref : TaskRef) : Slice where
  row := (ts.getTask ref).map fun task => (task.status, task.attemptCount)
  runs id := ((ts.taskRuns.find? id).filter fun run => run.taskRef = ref).map
    TaskRun.state

theorem slice_runs_eq_some {ref : TaskRef} {id : RunId} {st : RunState} :
    (ts.slice ref).runs id = some st ↔
      ∃ run ∈ ts.taskRuns, run.runId = id ∧ run.taskRef = ref ∧
        run.state = st := by
  simp only [TaskStore.slice, Option.map_eq_some_iff, Option.filter_eq_some_iff,
    decide_eq_true_eq]
  constructor
  · rintro ⟨run, ⟨hfind, href⟩, hstate⟩
    exact ⟨run, Table.mem_of_find? hfind, Table.key_of_find? hfind, href, hstate⟩
  · rintro ⟨run, hrun, rfl, href, hstate⟩
    exact ⟨run, ⟨Table.find?_of_mem hrun, href⟩, hstate⟩

/-! ## One write -/

theorem slice_moveRuns (ref r : TaskRef) (p : RunState → Bool)
    (state : RunState) (now : String) :
    (ts.moveRuns ref p state now).slice r =
      { ts.slice r with
        runs := fun id => ((ts.slice r).runs id).map fun st =>
          if r = ref ∧ p st = true then state else st } := by
  refine Slice.ext rfl (funext fun id => ?_)
  simp only [TaskStore.slice, TaskStore.moveRuns, Table.find?_map]
  cases ts.taskRuns.find? id with
  | none => rfl
  | some run =>
      simp only [Option.map_some, Option.filter_some, TaskRun.moveIf]
      by_cases hr : run.taskRef = r
      · subst hr
        by_cases hmove : run.taskRef = ref ∧ p run.state = true
        · simp [hmove]
        · simp [hmove]
      · by_cases hmove : run.taskRef = ref ∧ p run.state = true
        · simp [hmove, hmove.1 ▸ hr]
        · simp [hmove, hr]

theorem slice_moveRuns_of_ne {ref r : TaskRef} (h : r ≠ ref)
    (p : RunState → Bool) (state : RunState) (now : String) :
    (ts.moveRuns ref p state now).slice r = ts.slice r := by
  rw [slice_moveRuns]
  refine Slice.ext rfl (funext fun id => ?_)
  simp [h]

def RunState.after (cause : TaskTransitionCause) (fromStatus : TaskStatus)
    (state : RunState) : RunState :=
  let started := if cause = .runStart ∧ state = .claimed then .inProgress
    else state
  match runStateForCause cause with
  | some closed =>
      if fromStatus.running && started.active then closed else started
  | none => started

theorem slice_startRuns (ref : TaskRef) (cause : TaskTransitionCause)
    (now : String) :
    (ts.startRuns ref cause now).slice ref =
      { ts.slice ref with
        runs := fun id => ((ts.slice ref).runs id).map fun st =>
          if cause = .runStart ∧ st = .claimed then .inProgress else st } := by
  unfold TaskStore.startRuns
  split
  · rename_i hstart
    rw [slice_moveRuns]
    refine Slice.ext rfl (funext fun id => ?_)
    simp [hstart]
  · rename_i hstart
    refine Slice.ext rfl (funext fun id => ?_)
    simp [hstart]

theorem slice_closeRuns (task : ProjectTask) (cause : TaskTransitionCause)
    (now : String) :
    (ts.closeRuns task cause now).slice task.ref =
      { ts.slice task.ref with
        runs := fun id => ((ts.slice task.ref).runs id).map fun st =>
          match runStateForCause cause with
          | some closed =>
              if task.status.running && st.active then closed else st
          | none => st } := by
  unfold TaskStore.closeRuns
  cases runStateForCause cause with
  | none =>
      refine Slice.ext rfl (funext fun id => ?_)
      simp
  | some closed =>
      cases hrunning : task.status.running with
      | false =>
          refine Slice.ext rfl (funext fun id => ?_)
          simp
      | true =>
          simp only [if_true]
          rw [slice_moveRuns]
          refine Slice.ext rfl (funext fun id => ?_)
          simp

theorem slice_transitioned {task : ProjectTask}
    (htask : ts.getTask task.ref = some task) (input : TaskTransitionInput)
    (now : String) :
    (ts.transitioned task input now).slice task.ref =
      { row := some (input.toStatus, task.attemptCount)
        runs := fun id => ((ts.slice task.ref).runs id).map
          (RunState.after input.cause task.status) } := by
  have hrow : ((ts.transitioned task input now).slice task.ref).row =
      some (input.toStatus, task.attemptCount) := by
    simp only [TaskStore.slice, TaskStore.getTask, transitioned_tasks,
      Table.find?_update, if_true]
    rw [TaskStore.getTask] at htask
    rw [htask]
    rfl
  refine Slice.ext hrow ?_
  unfold TaskStore.transitioned
  rw [slice_closeRuns, slice_startRuns]
  funext id
  have hruns : ((ts.insertTransition task input now).slice task.ref).runs id =
      (ts.slice task.ref).runs id := rfl
  simp only [hruns, Option.map_map]
  rfl

theorem slice_transitioned_of_ne {task : ProjectTask} {r : TaskRef}
    (h : r ≠ task.ref) (input : TaskTransitionInput) (now : String) :
    (ts.transitioned task input now).slice r = ts.slice r := by
  have hrow : ((ts.transitioned task input now).slice r).row =
      (ts.slice r).row := by
    simp only [TaskStore.slice, TaskStore.getTask, transitioned_tasks,
      Table.find?_update, if_neg h]
  refine Slice.ext hrow ?_
  have hstart : ∀ m : TaskStore,
      (m.startRuns task.ref input.cause now).slice r = m.slice r := by
    intro m
    unfold TaskStore.startRuns
    split
    · exact slice_moveRuns_of_ne h _ _ now
    · rfl
  have hclose : ∀ m : TaskStore,
      (m.closeRuns task input.cause now).slice r = m.slice r := by
    intro m
    unfold TaskStore.closeRuns
    split
    · split
      · exact slice_moveRuns_of_ne h _ _ now
      · rfl
    · rfl
  unfold TaskStore.transitioned
  rw [hclose, hstart]
  rfl

theorem applyTransition_slice {ref : TaskRef} {input : TaskTransitionInput}
    {now : String} {u : Unit} (hkey : input.idempotencyKey = none)
    (h : applyTransition ref input now ts = .ok (u, ts')) :
    (∃ status n, (ts.slice ref).row = some (status, n) ∧
      transitionsValidate input.cause status input.toStatus
        (ts.transitions.all (·.taskRef ≠ ref)) = true ∧
      ts'.slice ref =
        { row := some (input.toStatus, n)
          runs := fun id => ((ts.slice ref).runs id).map
            (RunState.after input.cause status) }) ∧
      ∀ r, r ≠ ref → ts'.slice r = ts.slice r := by
  obtain ⟨task, htask, hvalid, -, rfl⟩ := applyTransition_ok hkey h
  obtain rfl : task.ref = ref := Table.key_of_find? htask
  refine ⟨⟨task.status, task.attemptCount, ?_, hvalid,
    slice_transitioned htask input now⟩, fun r hr =>
      slice_transitioned_of_ne hr input now⟩
  simp only [TaskStore.slice, htask, Option.map_some]

theorem setDispatchState_slice {ref : TaskRef} {state : TaskDispatchState}
    {attemptCount : Nat} {u : Unit}
    (h : setDispatchState ref state attemptCount ts = .ok (u, ts')) (r : TaskRef) :
    ts'.slice r =
      { ts.slice r with
        row := (ts.slice r).row.map fun q =>
          if r = ref then (q.1, attemptCount) else q } := by
  obtain rfl := Txn.modify_ok.mp h
  refine Slice.ext ?_ rfl
  simp only [TaskStore.slice, TaskStore.getTask, Table.find?_update]
  cases ts.tasks.find? r with
  | none => simp
  | some task =>
      by_cases hr : r = ref
      · simp [hr, ProjectTask.dispatched]
      · simp [hr]

/-! ## A walk over distinct tasks -/

theorem forM_slices {β : Type} {key : β → TaskRef} {g : β → Slice → Slice}
    {f : β → Tasks Unit} {I : TaskStore → Prop} {l : List β} {u : Unit}
    (hstep : ∀ b ∈ l, ∀ m m' v, I m → f b m = .ok (v, m') →
      I m' ∧ m'.slice (key b) = g b (m.slice (key b)) ∧
        ∀ r, r ≠ key b → m'.slice r = m.slice r)
    (hnodup : (l.map key).Nodup) (hI : I ts) (h : l.forM f ts = .ok (u, ts')) :
    (∀ b ∈ l, ts'.slice (key b) = g b (ts.slice (key b))) ∧
      ∀ r, r ∉ l.map key → ts'.slice r = ts.slice r :=
  Txn.forM_views (R := fun b s s' => s' = g b s) hstep hnodup hI h

theorem forM_slices_total {β : Type} {key : β → TaskRef} {f : β → Tasks Unit}
    {l : List β} (hnodup : (l.map key).Nodup)
    (hstep : ∀ b ∈ l, ∀ m, m.slice (key b) = ts.slice (key b) →
      ∃ m', f b m = .ok ((), m') ∧ ∀ r, r ≠ key b → m'.slice r = m.slice r) :
    ∃ ts', l.forM f ts = .ok ((), ts') := by
  suffices hloop : ∀ m : TaskStore,
      (∀ b ∈ l, m.slice (key b) = ts.slice (key b)) →
        ∃ ts', l.forM f m = .ok ((), ts') from hloop ts fun _ _ => rfl
  induction l with
  | nil => exact fun m _ => ⟨m, rfl⟩
  | cons b rest ih =>
      intro m hsame
      rw [List.map_cons, List.nodup_cons] at hnodup
      obtain ⟨m', hb, hother⟩ := hstep b List.mem_cons_self m
        (hsame b List.mem_cons_self)
      obtain ⟨ts', hrest⟩ := ih hnodup.2
        (fun b' hb' => hstep b' (List.mem_cons_of_mem b hb')) m' fun b' hb' => by
          have hne : key b' ≠ key b := fun heq =>
            hnodup.1 (heq ▸ List.mem_map_of_mem hb')
          rw [hother _ hne, hsame b' (List.mem_cons_of_mem b hb')]
      exact ⟨ts', Txn.forM_cons_ok.mpr ⟨m', hb, hrest⟩⟩

end OrcState.Store
