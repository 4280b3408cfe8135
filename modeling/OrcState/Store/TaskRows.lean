import OrcState.Contract.Event
import OrcState.Store.ProjectTasks

/-!
# Well-formed task rows

What every transaction of the task store keeps of its rows: references match the
contract's pattern, only a blocked task has a reason, and no binding stops at
`work_complete`, which nothing writes.
-/

namespace OrcState.Store

open OrcState.Contract OrcState.Foundation

structure TaskStore.WellFormed (ts : TaskStore) : Prop where
  refs : ∀ task, task ∈ ts.tasks → taskRefRe task.ref = true
  tidy : ∀ task, task ∈ ts.tasks → ProjectTask.Tidy task
  settled : ∀ run, run ∈ ts.taskRuns → run.state ≠ .workComplete

variable {ts ts' : TaskStore}

theorem TaskStore.WellFormed.moveRuns (h : ts.WellFormed) (ref : TaskRef)
    (p : RunState → Bool) {state : RunState} (hstate : state ≠ .workComplete)
    (now : String) : (ts.moveRuns ref p state now).WellFormed := by
  refine ⟨h.refs, h.tidy, fun run hrun => ?_⟩
  simp only [TaskStore.moveRuns, Table.mem_map] at hrun
  obtain ⟨run, hold, rfl⟩ := hrun
  unfold TaskRun.moveIf
  split
  · exact hstate
  · exact h.settled run hold

theorem TaskStore.WellFormed.update (h : ts.WellFormed) {ref : TaskRef}
    {f : ProjectTask → ProjectTask} (hf : ∀ t, (f t).ref = t.ref)
    (htasks : ts'.tasks = ts.tasks.update ref f hf)
    (hruns : ts'.taskRuns = ts.taskRuns)
    (htidy : ∀ t, ProjectTask.Tidy t → ProjectTask.Tidy (f t)) :
    ts'.WellFormed := by
  refine ⟨fun t ht => ?_, fun t ht => ?_, by rw [hruns]; exact h.settled⟩
  · rw [htasks, Table.mem_update] at ht
    rcases ht with ⟨t, hold, -, rfl⟩ | ⟨hold, -⟩
    · rw [hf]
      exact h.refs t hold
    · exact h.refs t hold
  · rw [htasks, Table.mem_update] at ht
    rcases ht with ⟨t, hold, -, rfl⟩ | ⟨hold, -⟩
    · exact htidy t (h.tidy t hold)
    · exact h.tidy t hold

theorem TaskStore.WellFormed.insertTransition (h : ts.WellFormed)
    (task : ProjectTask) (input : TaskTransitionInput) (now : String) :
    (ts.insertTransition task input now).WellFormed :=
  h.update (moved_ref _ _ _) rfl rfl fun _ _ hto => if_neg hto

theorem runStateForCause_ne {cause : TaskTransitionCause} {state : RunState}
    (h : runStateForCause cause = some state) : state ≠ .workComplete := by
  rintro rfl
  cases cause <;> simp [runStateForCause] at h

theorem TaskStore.WellFormed.transitioned (h : ts.WellFormed)
    (task : ProjectTask) (input : TaskTransitionInput) (now : String) :
    (ts.transitioned task input now).WellFormed := by
  have hstart : ((ts.insertTransition task input now).startRuns task.ref
      input.cause now).WellFormed := by
    unfold TaskStore.startRuns
    split
    · exact (h.insertTransition task input now).moveRuns _ _ (by decide) now
    · exact h.insertTransition task input now
  unfold TaskStore.transitioned TaskStore.closeRuns
  cases hstate : runStateForCause input.cause with
  | none => exact hstart
  | some state =>
      dsimp only
      split
      · exact hstart.moveRuns _ _ (runStateForCause_ne hstate) now
      · exact hstart

theorem applyTransition_wellFormed {ref : TaskRef} {input : TaskTransitionInput}
    {now : String} {u : Unit} (hkey : input.idempotencyKey = none)
    (h : applyTransition ref input now ts = .ok (u, ts'))
    (hts : ts.WellFormed) : ts'.WellFormed := by
  obtain ⟨task, -, -, -, rfl⟩ := applyTransition_ok hkey h
  exact hts.transitioned task input now

theorem commitStatus_wellFormed {changes : TaskStatusChanges} {task : Task}
    {current : ProjectTask} {now : String} {u : Unit}
    (hord : ∀ p ∈ changes, TaskStatusChange.Ordinary p.2)
    (h : commitStatus changes task current now ts = .ok (u, ts'))
    (hts : ts.WellFormed) : ts'.WellFormed := by
  unfold commitStatus at h
  split at h
  · cases (Txn.pure_ok.mp h).2
    exact hts
  · simp only [Txn.bind_ok, Txn.orThrow_ok] at h
    obtain ⟨change, _, ⟨hchange, rfl⟩, _, m, hstart, hmove⟩ := h
    refine applyTransition_wellFormed (lookup_ordinary hord hchange).1 hmove ?_
    unfold recordStart at hstart
    split at hstart
    · exact applyTransition_wellFormed rfl hstart hts
    · cases (Txn.pure_ok.mp hstart).2
      exact hts

theorem commitTask_wellFormed {changes : TaskStatusChanges} {task : Task}
    {now : String} {u : Unit}
    (hord : ∀ p ∈ changes, TaskStatusChange.Ordinary p.2)
    (h : commitTask changes now task ts = .ok (u, ts'))
    (hts : ts.WellFormed) : ts'.WellFormed := by
  simp only [commitTask, Txn.bind_ok, Txn.get_ok, Txn.orThrow_ok,
    Txn.throwIf_ok, setDispatchState, Txn.modify_ok] at h
  obtain ⟨_, _, ⟨rfl, rfl⟩, current, _, ⟨-, rfl⟩, _, _, ⟨-, rfl⟩, _, m,
    hstatus, rfl⟩ := h
  have hm := commitStatus_wellFormed hord hstatus hts
  exact hm.update (dispatched_ref _ _) rfl rfl fun _ ht => ht

theorem commitBacklog_wellFormed {changes : TaskStatusChanges}
    {backlog : Backlog} {now : String} {u : Unit}
    (hord : ∀ p ∈ changes, TaskStatusChange.Ordinary p.2)
    (h : commitBacklog backlog changes now ts = .ok (u, ts'))
    (hts : ts.WellFormed) : ts'.WellFormed :=
  Txn.forM_keeps (fun _ _ _ _ => commitTask_wellFormed hord) h hts

theorem claimTask_wellFormed {ref : TaskRef} {runId : RunId}
    {agentId : AgentId} {now : String} {pinned : ProjectTask}
    (h : TaskStore.claimTask ref runId agentId now ts = .ok (pinned, ts'))
    (hts : ts.WellFormed) : ts'.WellFormed := by
  simp only [TaskStore.claimTask, Txn.bind_ok, Txn.get_ok, Txn.orThrow_ok,
    Txn.throwIf_ok] at h
  obtain ⟨_, _, ⟨rfl, rfl⟩, task, _, ⟨-, rfl⟩, _, _, ⟨-, rfl⟩, _, _,
    ⟨-, rfl⟩, _, _, ⟨-, rfl⟩, _, m, hmove, hbind⟩ := h
  have hm := applyTransition_wellFormed rfl hmove hts
  simp only [bindRun, Txn.bind_ok, Txn.get_ok, Txn.orThrow_ok, Txn.set_ok,
    Txn.pure_ok] at hbind
  obtain ⟨_, _, ⟨rfl, rfl⟩, _, _, ⟨-, rfl⟩, _, _, rfl, _, _, hinsert, -, rfl⟩ :=
    hbind
  have hfailed : RunState.failed ≠ .workComplete := by decide
  have hclosed := hm.moveRuns ref RunState.active hfailed now
  obtain ⟨htasks, -, hruns⟩ := insertTaskRun_ok hinsert
  refine ⟨?_, ?_, fun run hrun => ?_⟩
  · rw [htasks]
    exact hclosed.refs
  · rw [htasks]
    exact hclosed.tidy
  · rcases (hruns run).mp hrun with hold | rfl
    · exact hclosed.settled run hold
    · simp

end OrcState.Store
