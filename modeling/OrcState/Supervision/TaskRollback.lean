import OrcState.Lifecycle.Agreement
import OrcState.Store.TaskSlices
import OrcState.Supervision.SessionReset

/-!
# The tasks of a rolled-back reset

What the reset and the rollback do to the slice of each task.  The reset returns
a running task to the queue and fails its bindings; the rollback claims it again
for the run that held it, and starts it if it was started, so the slice comes
back when the state of the binding was the one that goes with the status.
-/

namespace OrcState.Supervision

open OrcState.Contract OrcState.Foundation OrcState.Store OrcState.Lifecycle
open OrcState.Foundation.Effect

variable {ts ts' : TaskStore}

/-! ## The reset -/

def requeuedSlice (task : Task) (s : Slice) : Slice :=
  match s.row with
  | none => s
  | some (st, _) =>
      { row := some (task.status, task.attemptCount)
        runs := if task.status = st then s.runs
          else fun id => (s.runs id).map
            (RunState.after .failureRequeue st) }

theorem commitTask_requeued {changes : TaskStatusChanges} {now : String}
    {task : Task} {u : Unit}
    (hcause : ∀ change, changes.lookup task.ref = some change →
      change.cause = .failureRequeue ∧ change.idempotencyKey = none)
    (h : commitTask changes now task ts = .ok (u, ts')) :
    ts'.slice task.ref = requeuedSlice task (ts.slice task.ref) ∧
      ∀ r, r ≠ task.ref → ts'.slice r = ts.slice r := by
  simp only [commitTask, Txn.bind_ok, Txn.get_ok, Txn.orThrow_ok,
    Txn.throwIf_ok] at h
  obtain ⟨_, _, ⟨rfl, rfl⟩, current, _, ⟨hcurrent, rfl⟩, _, _, ⟨-, rfl⟩, _, m,
    hstatus, hdispatch⟩ := h
  have hrow : (ts.slice task.ref).row =
      some (current.status, current.attemptCount) := by
    simp only [TaskStore.slice, hcurrent, Option.map_some]
  have hdisp := setDispatchState_slice hdispatch
  have hmove : m.slice task.ref =
      { row := some (task.status, current.attemptCount)
        runs := if task.status = current.status then (ts.slice task.ref).runs
          else fun id => ((ts.slice task.ref).runs id).map
            (RunState.after .failureRequeue current.status) } ∧
      ∀ r, r ≠ task.ref → m.slice r = ts.slice r := by
    unfold commitStatus at hstatus
    by_cases hsame : task.status = current.status
    · rw [if_pos hsame] at hstatus
      obtain ⟨-, rfl⟩ := Txn.pure_ok.mp hstatus
      refine ⟨Slice.ext ?_ ?_, fun _ _ => rfl⟩
      · rw [hrow, hsame]
      · rw [if_pos hsame]
    · rw [if_neg hsame] at hstatus
      simp only [Txn.bind_ok, Txn.orThrow_ok] at hstatus
      obtain ⟨change, _, ⟨hchange, rfl⟩, _, m', hstart, happly⟩ := hstatus
      obtain ⟨hcause, hkey⟩ := hcause change hchange
      have hm' : m' = ts := by
        unfold recordStart at hstart
        rw [if_neg (by simp [hcause])] at hstart
        exact (Txn.pure_ok.mp hstart).2.symm
      subst hm'
      obtain ⟨⟨st, n, hst, -, hslice⟩, hother⟩ := applyTransition_slice hkey happly
      rw [hrow] at hst
      cases hst
      refine ⟨?_, hother⟩
      rw [hslice, if_neg hsame, hcause]
  refine ⟨?_, fun r hr => ?_⟩
  · rw [hdisp, hmove.1, requeuedSlice, hrow]
    simp
  · rw [hdisp, hmove.2 r hr]
    refine Slice.ext ?_ rfl
    cases (ts.slice r).row with
    | none => rfl
    | some q => simp [hr]

def resetSlice (s : Slice) : Slice :=
  match s.row with
  | none => s
  | some (st, n) =>
      if st.running then
        { row := some (.todo, n)
          runs := fun id => (s.runs id).map fun state =>
            if state.active then .failed else state }
      else s

theorem requeuedSlice_reset {row : ProjectTask} {s : Slice}
    (hrow : s.row = some (row.status, row.attemptCount)) :
    requeuedSlice (sessionResetTask (projectTaskToBacklogTask row)) s =
      resetSlice s := by
  have hentry : (projectTaskToBacklogTask row).status = row.status := rfl
  have hcount : (projectTaskToBacklogTask row).attemptCount =
      row.attemptCount := rfl
  rw [requeuedSlice, resetSlice, hrow]
  dsimp only
  unfold sessionResetTask
  rw [hentry]
  by_cases hrunning : row.status.running = true
  · have hne : TaskStatus.todo ≠ row.status := by
      intro heq
      rw [← heq] at hrunning
      cases hrunning
    rw [if_pos hrunning, if_pos hrunning]
    refine Slice.ext (by rw [hcount]) (funext fun id => ?_)
    rw [if_neg hne]
    refine congrArg (Option.map · (s.runs id)) (funext fun state => ?_)
    simp [RunState.after, runStateForCause, hrunning]
  · rw [if_neg hrunning, if_neg hrunning, hentry, hcount, if_pos rfl, ← hrow]

theorem slice_of_absent {ref : TaskRef} (h : ts.getTask ref = none) :
    resetSlice (ts.slice ref) = ts.slice ref := by
  have hrow : (ts.slice ref).row = none := by
    simp only [TaskStore.slice, h, Option.map_none]
  rw [resetSlice, hrow]

theorem reset_slices {s : Project} {now : String} {u : Unit}
    (h : commitBacklog (s.backlog.map sessionResetTask)
      (sessionResetChanges s.backlog) now s.tasks = .ok (u, ts)) (r : TaskRef) :
    ts.slice r = resetSlice (s.tasks.slice r) := by
  have hrefs := sessionReset_refs s.backlog
  have hnodup : ((s.backlog.map sessionResetTask).map Task.ref).Nodup :=
    hrefs ▸ nodup_readProjectBacklog s.tasks
  have hcause : ∀ ref change,
      (sessionResetChanges s.backlog).lookup ref = some change →
      change.cause = .failureRequeue ∧ change.idempotencyKey = none :=
    fun ref change hchange => ⟨lookup_sessionResetChanges hchange,
      (lookup_ordinary (sessionResetChanges_ordinary s.backlog) hchange).1⟩
  obtain ⟨hall, hout⟩ := forM_slices (I := fun _ => True) (g := requeuedSlice)
    (fun task _ m m' v _ hm => ⟨trivial, commitTask_requeued (hcause task.ref) hm⟩)
    hnodup trivial h
  by_cases hr : r ∈ (s.backlog.map sessionResetTask).map Task.ref
  · obtain ⟨entry, hentry, rfl⟩ := List.mem_map.mp hr
    obtain ⟨task, htask, rfl⟩ := List.mem_map.mp hentry
    obtain ⟨row, hrow, rfl⟩ := mem_readProjectBacklog.mp htask
    have hslice : (s.tasks.slice (sessionResetTask
        (projectTaskToBacklogTask row)).ref).row =
          some (row.status, row.attemptCount) := by
      rw [sessionResetTask_ref]
      have hget : s.tasks.getTask (projectTaskToBacklogTask row).ref = some row :=
        Table.find?_of_mem hrow
      simp only [TaskStore.slice, hget, Option.map_some]
    rw [hall _ hentry, requeuedSlice_reset hslice]
  · rw [hout r hr, slice_of_absent]
    cases hget : s.tasks.getTask r with
    | none => rfl
    | some row =>
        have hfind := findTask_readProjectBacklog s.tasks r
        rw [hget] at hfind
        obtain ⟨hmem, href⟩ := findTask_eq_some hfind
        refine absurd ?_ hr
        rw [hrefs]
        exact href ▸ List.mem_map_of_mem hmem

/-! ## The rollback -/

def bindingOf (status : TaskStatus) : RunState :=
  if status = .inProgress then .inProgress else .claimed

def restoredSlice (claims : List Claim) (task : Task) (s : Slice) : Slice :=
  if task.status.running = true ∧ s.row.map Prod.fst = some .todo then
    match holder claims task.ref with
    | some c =>
        { row := s.row.map fun q => (task.status, q.2)
          runs := fun id =>
            if id = c.runId then (s.runs id).map fun _ => bindingOf task.status
            else s.runs id }
    | none => s
  else s

theorem reactivateRun_slice {runId : RunId} {now : String} {u : Unit}
    (h : reactivateRun runId now ts = .ok (u, ts')) (r : TaskRef) :
    ts'.slice r =
        { ts.slice r with
          runs := fun id => if id = runId then
            ((ts.slice r).runs id).map fun _ => .claimed
            else (ts.slice r).runs id } ∧
      (((ts.slice r).runs runId).isSome = true →
        ∀ id st, id ≠ runId → (ts.slice r).runs id = some st →
          st.active = false) := by
  simp only [reactivateRun, Txn.bind_ok, Txn.get_ok, Txn.throwIf_ok,
    Txn.set_ok] at h
  obtain ⟨_, _, ⟨rfl, rfl⟩, _, _, ⟨hone, rfl⟩, rfl⟩ := h
  refine ⟨Slice.ext rfl (funext fun id => ?_), fun hsome id st hne hst => ?_⟩
  · simp only [TaskStore.slice, Table.find?_map]
    cases hfind : ts.taskRuns.find? id with
    | none => simp
    | some run =>
        have hid : run.runId = id := Table.key_of_find? hfind
        simp only [Option.map_some, Option.filter_some, TaskRun.reactivate]
        by_cases heq : id = runId
        · rw [if_pos (hid.trans heq), if_pos heq]
          by_cases href : run.taskRef = r
          · simp [href]
          · simp [href]
        · have hne : run.runId ≠ runId := fun h => heq (hid.symm.trans h)
          rw [if_neg hne, if_neg heq]
  · obtain ⟨st₀, hst₀⟩ := Option.isSome_iff_exists.mp hsome
    obtain ⟨run, hrun, hid, href, -⟩ := slice_runs_eq_some.mp hst₀
    obtain ⟨other, hother, rfl, href', rfl⟩ := slice_runs_eq_some.mp hst
    by_contra hactive
    have hopen : other.state.active = true := by simpa using hactive
    exact hone ⟨run, hrun, hid, other, hother, hne, hopen, href'.trans href.symm⟩

theorem after_claim (status : TaskStatus) (state : RunState) :
    RunState.after .claim status state = state := by
  simp [RunState.after, runStateForCause]

theorem after_runStart (status : TaskStatus) (state : RunState) :
    RunState.after .runStart status state =
      if state = .claimed then .inProgress else state := by
  simp [RunState.after, runStateForCause]

theorem claim_slice {ref : TaskRef} {input : TaskTransitionInput} {now : String}
    {u : Unit} (hcause : input.cause = .claim) (hto : input.toStatus = .claimed)
    (hkey : input.idempotencyKey = none)
    (h : applyTransition ref input now ts = .ok (u, ts')) :
    ts'.slice ref =
        { ts.slice ref with
          row := (ts.slice ref).row.map fun q => (.claimed, q.2) } ∧
      ∀ r, r ≠ ref → ts'.slice r = ts.slice r := by
  obtain ⟨⟨st, n, hrow, -, hslice⟩, hother⟩ := applyTransition_slice hkey h
  refine ⟨?_, hother⟩
  rw [hslice, hrow, hto]
  refine Slice.ext rfl (funext fun id => ?_)
  cases hst : (ts.slice ref).runs id with
  | none => simp [hst]
  | some state => simp [hst, hcause, after_claim]

theorem reclaim_slice {task : Task} {claim : Claim} {now : String} {u : Unit}
    (hrunning : task.status.running = true)
    (htied : ((ts.slice task.ref).runs claim.runId).isSome = true)
    (h : reclaim task claim now ts = .ok (u, ts')) :
    ts'.slice task.ref =
        { row := (ts.slice task.ref).row.map fun q => (task.status, q.2)
          runs := fun id =>
            if id = claim.runId then
              ((ts.slice task.ref).runs id).map fun _ => bindingOf task.status
            else (ts.slice task.ref).runs id } ∧
      ∀ r, r ≠ task.ref → ts'.slice r = ts.slice r := by
  simp only [reclaim, Txn.bind_ok] at h
  obtain ⟨_, m, hclaim, _, m', hreopen, hstart⟩ := h
  obtain ⟨hself, hother⟩ := claim_slice rfl rfl rfl hclaim
  have hruns : (m.slice task.ref).runs = (ts.slice task.ref).runs := by
    rw [hself]
  obtain ⟨hself', honly⟩ := reactivateRun_slice hreopen task.ref
  have hsome : ((m.slice task.ref).runs claim.runId).isSome = true := by
    rw [hruns]
    exact htied
  have hother' : ∀ r, r ≠ task.ref → m'.slice r = ts.slice r := by
    intro r hr
    rw [(reactivateRun_slice hreopen r).1, hother r hr]
    refine Slice.ext rfl (funext fun id => ?_)
    by_cases hid : id = claim.runId
    · subst hid
      -- the binding of the run belongs to the task, and to no other
      obtain ⟨st, hst⟩ := Option.isSome_iff_exists.mp htied
      obtain ⟨run, hrun, hrunid, href, -⟩ := slice_runs_eq_some.mp hst
      cases hslice : (ts.slice r).runs claim.runId with
      | none => simp [hslice]
      | some st' =>
          obtain ⟨run', hrun', hrunid', href', -⟩ := slice_runs_eq_some.mp hslice
          rw [Table.eq_of_key hrun' hrun (hrunid'.trans hrunid.symm)] at href'
          exact absurd (href'.symm.trans href) hr
    · exact if_neg hid
  rw [hself] at hself'
  by_cases hstarted : task.status = .inProgress
  · rw [if_pos hstarted] at hstart
    obtain ⟨⟨st, n, hrow, -, hslice⟩, hother''⟩ :=
      applyTransition_slice rfl hstart
    refine ⟨?_, fun r hr => (hother'' r hr).trans (hother' r hr)⟩
    have hrow' : (ts.slice task.ref).row.map (fun q => (task.status, q.2)) =
        some (task.status, n) := by
      rw [hself'] at hrow
      cases hq : (ts.slice task.ref).row with
      | none => rw [hq] at hrow; cases hrow
      | some q => rw [hq] at hrow; cases hrow; rfl
    rw [hslice, hrow']
    refine Slice.ext (by rw [hstarted]) (funext fun id => ?_)
    rw [hself']
    by_cases hid : id = claim.runId
    · subst hid
      cases hst : (ts.slice task.ref).runs claim.runId with
      | none => simp [hst]
      | some state => simp [hst, after_runStart, bindingOf, hstarted]
    · cases hst : (ts.slice task.ref).runs id with
      | none => simp [hid, hst]
      | some state =>
          have hclosed := honly hsome id state hid (by rw [hruns]; exact hst)
          have hne : state ≠ .claimed := by
            rintro rfl
            cases hclosed
          simp [hid, hst, after_runStart, hne]
  · rw [if_neg hstarted] at hstart
    obtain ⟨-, rfl⟩ := Txn.pure_ok.mp hstart
    refine ⟨?_, hother'⟩
    have hclaimed : task.status = .claimed := by
      cases hst : task.status with
      | claimed => rfl
      | inProgress => exact absurd hst hstarted
      | _ => rw [hst] at hrunning; cases hrunning
    rw [hself', hclaimed]
    rfl

def Tied (claims : List Claim) (backlog : Backlog) (ts : TaskStore) : Prop :=
  ∀ task ∈ backlog, task.status.running = true → ∀ c,
    holder claims task.ref = some c →
      ((ts.slice task.ref).runs c.runId).isSome = true

theorem restoreTask_slice {claims : List Claim} {now : String} {task : Task}
    {u : Unit}
    (htied : task.status.running = true → ∀ c, holder claims task.ref = some c →
      ((ts.slice task.ref).runs c.runId).isSome = true)
    (h : restoreTask claims now task ts = .ok (u, ts')) :
    ts'.slice task.ref = restoredSlice claims task (ts.slice task.ref) ∧
      ∀ r, r ≠ task.ref → ts'.slice r = ts.slice r := by
  simp only [restoreTask, Txn.bind_ok, Txn.get_ok] at h
  obtain ⟨_, _, ⟨rfl, rfl⟩, h⟩ := h
  have hstatus : (ts.slice task.ref).row.map Prod.fst =
      statusAt ts task.ref := by
    simp only [TaskStore.slice, statusAt, Option.map_map]
    rfl
  unfold restoredSlice
  rw [hstatus]
  by_cases hgo : task.status.running = true ∧ statusAt ts task.ref = some .todo
  · rw [if_pos hgo] at h ⊢
    cases hholder : holder claims task.ref with
    | none =>
        simp only [hholder] at h
        obtain ⟨-, rfl⟩ := Txn.pure_ok.mp h
        exact ⟨rfl, fun _ _ => rfl⟩
    | some claim =>
        simp only [hholder] at h
        exact reclaim_slice hgo.1 (htied hgo.1 claim hholder) h
  · rw [if_neg hgo] at h ⊢
    obtain ⟨-, rfl⟩ := Txn.pure_ok.mp h
    exact ⟨rfl, fun _ _ => rfl⟩

theorem isSome_restoredSlice (claims : List Claim) (task : Task) (s : Slice)
    (id : RunId) :
    ((restoredSlice claims task s).runs id).isSome = (s.runs id).isSome := by
  unfold restoredSlice
  split
  · split
    · dsimp only
      split
      · exact Option.isSome_map
      · rfl
    · rfl
  · rfl

theorem restore_slices {claims : List Claim} {backlog : Backlog} {now : String}
    {u : Unit} (hnodup : (backlog.map Task.ref).Nodup)
    (htied : Tied claims backlog ts)
    (h : restoreBacklogStatuses backlog claims now ts = .ok (u, ts')) :
    (∀ task ∈ backlog,
      ts'.slice task.ref = restoredSlice claims task (ts.slice task.ref)) ∧
      ∀ r, r ∉ backlog.map Task.ref → ts'.slice r = ts.slice r := by
  refine forM_slices (I := Tied claims backlog) (fun task htask m m' v hm hstep =>
    ?_) hnodup htied h
  obtain ⟨hself, hother⟩ := restoreTask_slice (hm task htask) hstep
  refine ⟨fun task' htask' hrunning c hholder => ?_, hself, hother⟩
  have hbefore := hm task' htask' hrunning c hholder
  by_cases href : task'.ref = task.ref
  · rw [href, hself, isSome_restoredSlice, ← href]
    exact hbefore
  · rw [hother _ href]
    exact hbefore

/-! ## The rollback is accepted -/

theorem reactivateRun_total {runId : RunId} {ref : TaskRef} (now : String)
    (htied : ((ts.slice ref).runs runId).isSome = true)
    (hclosed : ∀ id st, (ts.slice ref).runs id = some st → st.active = false) :
    ∃ ts', reactivateRun runId now ts = .ok ((), ts') := by
  have hone : ¬ ∃ run ∈ ts.taskRuns.rows, run.runId = runId ∧
      ∃ other ∈ ts.taskRuns.rows, other.runId ≠ runId ∧
        other.active = true ∧ other.taskRef = run.taskRef := by
    rintro ⟨run, hrun, hid, other, hother, -, hactive, href⟩
    obtain ⟨st, hst⟩ := Option.isSome_iff_exists.mp htied
    obtain ⟨run', hrun', hid', href', -⟩ := slice_runs_eq_some.mp hst
    rw [Table.eq_of_key hrun hrun' (hid.trans hid'.symm)] at href
    have hslice := slice_runs_eq_some.mpr
      ⟨other, hother, rfl, href.trans href', rfl⟩
    have hopen : other.state.active = true := hactive
    rw [hclosed _ _ hslice] at hopen
    cases hopen
  simp only [reactivateRun, Txn.bind_ok, Txn.get_ok, Txn.throwIf_ok,
    Txn.set_ok]
  exact ⟨_, ts, ts, ⟨rfl, rfl⟩, (), ts, ⟨hone, rfl⟩, rfl⟩

theorem getTask_of_row {ref : TaskRef} {status : TaskStatus} {n : Nat}
    (h : (ts.slice ref).row = some (status, n)) :
    ∃ task, ts.getTask ref = some task ∧ task.status = status := by
  obtain ⟨task, htask, heq⟩ := Option.map_eq_some_iff.mp h
  exact ⟨task, htask, congrArg Prod.fst heq⟩

theorem reclaim_total (task : Task) (claim : Claim) {n : Nat} (now : String)
    (hrow : (ts.slice task.ref).row = some (.todo, n))
    (htied : ((ts.slice task.ref).runs claim.runId).isSome = true)
    (hclosed : ∀ id st, (ts.slice task.ref).runs id = some st →
      st.active = false) :
    ∃ ts', reclaim task claim now ts = .ok ((), ts') := by
  obtain ⟨current, hcurrent, hstatus⟩ := getTask_of_row hrow
  have hclaim : applyTransition task.ref
      { cause := .claim, toStatus := .claimed, runId := some claim.runId
        actorId := some "human", reason := some "session_reset_rollback" } now
      ts = .ok ((), _) :=
    applyTransition_eq now rfl hcurrent
      (by simp [transitionsValidate, hstatus]) fun h => nomatch h
  obtain ⟨hself, -⟩ := claim_slice rfl rfl rfl hclaim
  have hruns := congrArg Slice.runs hself
  have hm := fun id => congrFun hruns id
  obtain ⟨m', hreopen⟩ := reactivateRun_total now
    (by rw [hm]; exact htied) fun id st hst => hclosed id st (by rw [← hst, hm])
  have hrow' : (m'.slice task.ref).row = some (.claimed, n) := by
    rw [(reactivateRun_slice hreopen task.ref).1, hself, hrow]
    rfl
  obtain ⟨claimed, hclaimed, hstatus'⟩ := getTask_of_row hrow'
  have hstart : ∃ ts', (if task.status = .inProgress then
      applyTransition task.ref
        { cause := .runStart, toStatus := .inProgress, runId := some claim.runId
          actorId := some "human" } now
      else pure ()) m' = .ok ((), ts') := by
    by_cases hstarted : task.status = .inProgress
    · rw [if_pos hstarted]
      exact ⟨_, applyTransition_eq now rfl hclaimed
        (by simp [transitionsValidate, hstatus']) fun h => nomatch h⟩
    · rw [if_neg hstarted]
      exact ⟨m', rfl⟩
  obtain ⟨ts', hstart⟩ := hstart
  simp only [reclaim, Txn.bind_ok]
  exact ⟨ts', (), _, hclaim, (), m', hreopen, hstart⟩

/-! ## Reset and rollback -/

/-- `task_runs_one_active_task_idx`. -/
def OneBinding (ts : TaskStore) : Prop :=
  ∀ run, run ∈ ts.taskRuns → ∀ other, other ∈ ts.taskRuns →
    run.active = true → other.active = true → run.taskRef = other.taskRef →
      run.runId = other.runId

/-- The binding of each running task is in the state that goes with it. -/
def Paired (ts : TaskStore) : Prop :=
  ∀ task, task ∈ ts.tasks → task.status.running = true →
    ∀ run, run ∈ ts.taskRuns → run.taskRef = task.ref → run.active = true →
      run.state = bindingOf task.status

theorem row_slice {row : ProjectTask} (hrow : row ∈ ts.tasks) :
    (ts.slice row.ref).row = some (row.status, row.attemptCount) := by
  have hget : ts.getTask row.ref = some row := Table.find?_of_mem hrow
  simp only [TaskStore.slice, hget, Option.map_some]

theorem held_slice {s : Project} (hagree : StoresAgree s)
    (hone : OneBinding s.tasks) {row : ProjectTask} (hrow : row ∈ s.tasks.tasks)
    (hrunning : row.status.running = true) :
    ∃ c, holder s.claims row.ref = some c ∧
      (∃ st, (s.tasks.slice row.ref).runs c.runId = some st ∧
        st.active = true) ∧
      ∀ id st, (s.tasks.slice row.ref).runs id = some st →
        st.active = true → id = c.runId := by
  have hstatus : row.status = .claimed ∨ row.status = .inProgress := by
    cases hst : row.status with
    | claimed => exact .inl rfl
    | inProgress => exact .inr rfl
    | _ => rw [hst] at hrunning; cases hrunning
  obtain ⟨c, hc, hactive, href, -, honly, run, hrun, hrunref, hstate, hid⟩ :=
    hagree.held row hrow hstatus
  have hopen : run.active = true := by
    unfold TaskRun.active
    rcases hstate with hstate | hstate <;> rw [hstate] <;> rfl
  refine ⟨c, ?_, ⟨run.state, slice_runs_eq_some.mpr
    ⟨run, hrun, hid, hrunref, rfl⟩, hopen⟩, fun id st hst hactive' => ?_⟩
  · cases hfind : holder s.claims row.ref with
    | none =>
        have hnone := List.find?_eq_none.mp hfind c hc
        simp [href, hactive] at hnone
    | some c' =>
        have hc' : c' ∈ s.events.runs := List.mem_of_find?_eq_some hfind
        have hheld := List.find?_some hfind
        simp only [Bool.and_eq_true, decide_eq_true_eq] at hheld
        rw [honly c' hc' hheld.2 hheld.1]
  · obtain ⟨other, hother, rfl, hotherref, rfl⟩ := slice_runs_eq_some.mp hst
    rw [← hid]
    exact hone other hother run hrun hactive' hopen
      (hotherref.trans hrunref.symm)

theorem restoredSlice_reset {claims : List Claim} {row : ProjectTask}
    {s : Slice} {c : Claim} (hrow : s.row = some (row.status, row.attemptCount))
    (hrunning : row.status.running = true)
    (hholder : holder claims row.ref = some c) :
    restoredSlice claims (projectTaskToBacklogTask row) (resetSlice s) =
      { row := s.row
        runs := fun id => (s.runs id).map fun st =>
          if id = c.runId then bindingOf row.status
          else if st.active then .failed else st } := by
  have hreset : resetSlice s =
      { row := some (.todo, row.attemptCount)
        runs := fun id => (s.runs id).map fun st =>
          if st.active then .failed else st } := by
    rw [resetSlice, hrow]
    exact if_pos hrunning
  rw [hreset, restoredSlice, if_pos ⟨hrunning, rfl⟩]
  have hentry : holder claims (projectTaskToBacklogTask row).ref = some c :=
    hholder
  rw [hentry]
  refine Slice.ext hrow.symm (funext fun id => ?_)
  by_cases hid : id = c.runId
  · simp only [hid, if_true, Option.map_map]
    rfl
  · simp only [hid, if_false]

theorem same_again {row : ProjectTask} {s : Slice} {c : Claim} {st : RunState}
    (hbound : s.runs c.runId = some st)
    (honly : ∀ id st', s.runs id = some st' → st'.active = true →
      id = c.runId) :
    ({ row := s.row
       runs := fun id => (s.runs id).map fun st =>
         if id = c.runId then bindingOf row.status
         else if st.active then .failed else st } : Slice) = s ↔
      st = bindingOf row.status := by
  constructor
  · intro heq
    have hruns := congrFun (congrArg Slice.runs heq) c.runId
    simp only [hbound, Option.map_some, if_true] at hruns
    exact (Option.some.inj hruns).symm
  · rintro rfl
    refine Slice.ext rfl (funext fun id => ?_)
    cases hst : s.runs id with
    | none => simp [hst]
    | some st' =>
        by_cases hid : id = c.runId
        · subst hid
          rw [hbound] at hst
          simp [hbound, Option.some.inj hst]
        · have hclosed : st'.active = false := by
            by_contra hactive
            exact hid (honly id st' hst (by simpa using hactive))
          simp [hst, hid, hclosed]

section

variable {s : Project} {ts₁ : TaskStore} (hagree : StoresAgree s)
  (hone : OneBinding s.tasks)
  (hreset : ∀ r, ts₁.slice r = resetSlice (s.tasks.slice r))

include hagree hone hreset

theorem restored_entry {row : ProjectTask} (hrow : row ∈ s.tasks.tasks) :
    restoredSlice s.claims (projectTaskToBacklogTask row)
        (ts₁.slice row.ref) = s.tasks.slice row.ref ↔
      (row.status.running = true → ∀ run, run ∈ s.tasks.taskRuns →
        run.taskRef = row.ref → run.active = true →
          run.state = bindingOf row.status) := by
  have hslice := row_slice hrow
  cases hrunning : row.status.running with
  | false =>
      refine iff_of_true ?_ fun h => nomatch h
      have hentry : ¬ ((projectTaskToBacklogTask row).status.running = true ∧
          (ts₁.slice row.ref).row.map Prod.fst = some .todo) := by
        rintro ⟨h, -⟩
        rw [show (projectTaskToBacklogTask row).status = row.status from rfl,
          hrunning] at h
        cases h
      rw [restoredSlice, if_neg hentry, hreset, resetSlice, hslice]
      simp [hrunning]
  | true =>
      obtain ⟨c, hholder, ⟨st, hst, hactive⟩, honly⟩ :=
        held_slice hagree hone hrow hrunning
      rw [hreset, restoredSlice_reset hslice hrunning hholder,
        same_again hst honly]
      obtain ⟨run, hrun, hid, href, rfl⟩ := slice_runs_eq_some.mp hst
      refine ⟨fun heq _ run' hrun' href' hactive' => ?_,
        fun h => h rfl run hrun href hactive⟩
      have hsame := honly run'.runId run'.state
        (slice_runs_eq_some.mpr ⟨run', hrun', rfl, href', rfl⟩) hactive'
      rw [Table.eq_of_key hrun' hrun (hsame.trans hid.symm)]
      exact heq

theorem tied_reset : Tied s.claims s.backlog ts₁ := by
  intro task htask hrunning c hholder
  obtain ⟨row, hrow, rfl⟩ := mem_readProjectBacklog.mp htask
  obtain ⟨c', hholder', ⟨st, hst, -⟩, -⟩ := held_slice hagree hone hrow hrunning
  obtain rfl : c' = c := Option.some.inj (hholder'.symm.trans hholder)
  have hentry : (projectTaskToBacklogTask row).ref = row.ref := rfl
  have hslice := row_slice hrow
  have hopen : row.status.running = true := hrunning
  rw [hentry, hreset, resetSlice, hslice]
  simp [hopen, hst]

/-- The rollback of the tasks is accepted after the reset. -/
theorem restoreBacklogStatuses_total (now : String) :
    ∃ ts₂, restoreBacklogStatuses s.backlog s.claims now ts₁ =
      .ok ((), ts₂) := by
  have htied := tied_reset hagree hone hreset
  refine forM_slices_total (nodup_readProjectBacklog s.tasks)
    fun task htask m hm => ?_
  obtain ⟨row, hrow, rfl⟩ := mem_readProjectBacklog.mp htask
  have hstep : ∃ m', restoreTask s.claims now (projectTaskToBacklogTask row) m =
      .ok ((), m') := by
    simp only [restoreTask, Txn.bind_ok, Txn.get_ok]
    by_cases hgo : (projectTaskToBacklogTask row).status.running = true ∧
        statusAt m (projectTaskToBacklogTask row).ref = some .todo
    · obtain ⟨c, hholder, ⟨st, hst, -⟩, -⟩ :=
        held_slice hagree hone hrow hgo.1
      have hentry : holder s.claims (projectTaskToBacklogTask row).ref =
          some c := hholder
      have hopen : row.status.running = true := hgo.1
      have hslice : m.slice row.ref =
          { row := some (.todo, row.attemptCount)
            runs := fun id => ((s.tasks.slice row.ref).runs id).map fun st =>
              if st.active then .failed else st } := by
        refine Eq.trans hm ((hreset row.ref).trans ?_)
        rw [resetSlice, row_slice hrow]
        exact if_pos hopen
      obtain ⟨m', hm'⟩ := reclaim_total (projectTaskToBacklogTask row) c now
        (congrArg Slice.row hslice)
        (by
          change ((m.slice row.ref).runs c.runId).isSome = true
          rw [hslice]
          simp [hst])
        fun id st' hst' => by
          change (m.slice row.ref).runs id = some st' at hst'
          rw [hslice] at hst'
          obtain ⟨st₀, -, rfl⟩ := Option.map_eq_some_iff.mp hst'
          cases hst₀ : st₀.active with
          | true => rfl
          | false => simpa using hst₀
      refine ⟨m', m, m, ⟨rfl, rfl⟩, ?_⟩
      rw [if_pos hgo, hentry]
      exact hm'
    · refine ⟨m, m, m, ⟨rfl, rfl⟩, ?_⟩
      rw [if_neg hgo]
      rfl
  obtain ⟨m', hm'⟩ := hstep
  refine ⟨m', hm', (restoreTask_slice (fun hrunning c hholder => ?_) hm').2⟩
  rw [hm]
  exact htied _ htask hrunning c hholder

theorem restored_tasks {now : String} {ts₂ : TaskStore} {u : Unit}
    (h : restoreBacklogStatuses s.backlog s.claims now ts₁ = .ok (u, ts₂)) :
    (∀ r, ts₂.slice r = s.tasks.slice r) ↔ Paired s.tasks := by
  obtain ⟨hall, hout⟩ := restore_slices (nodup_readProjectBacklog s.tasks)
    (tied_reset hagree hone hreset) h
  have hentry : ∀ row, row ∈ s.tasks.tasks →
      (ts₂.slice row.ref = s.tasks.slice row.ref ↔
        (row.status.running = true → ∀ run, run ∈ s.tasks.taskRuns →
          run.taskRef = row.ref → run.active = true →
            run.state = bindingOf row.status)) := by
    intro row hrow
    have hself := hall _ (mem_readProjectBacklog.mpr ⟨row, hrow, rfl⟩)
    change ts₂.slice row.ref = restoredSlice s.claims
      (projectTaskToBacklogTask row) (ts₁.slice row.ref) at hself
    rw [hself]
    exact restored_entry hagree hone hreset hrow
  constructor
  · exact fun hsame task htask => (hentry task htask).mp (hsame task.ref)
  · intro hpaired r
    cases hget : s.tasks.getTask r with
    | some row =>
        obtain ⟨hrow, rfl⟩ := Table.find?_eq_some.mp hget
        exact (hentry row hrow).mpr (hpaired row hrow)
    | none =>
        have hnot : r ∉ s.backlog.map Task.ref := by
          intro hmem
          obtain ⟨task, htask, rfl⟩ := List.mem_map.mp hmem
          obtain ⟨row, hrow, rfl⟩ := mem_readProjectBacklog.mp htask
          exact Table.find?_eq_none.mp hget row hrow rfl
        rw [hout r hnot, hreset, slice_of_absent hget]

end

end OrcState.Supervision
