import OrcState.Store.ProjectTasks
import OrcState.Store.RunStore

/-!
# The rows of a claim

What a claim adds to each database, row by row, when it is committed, and what
is left in the task store when it is taken back: the binding closed, the task in
the queue again, and both transitions on record.
-/

namespace OrcState.Foundation.Table

variable {κ ρ : Type} {key : ρ → κ}

theorem filter_of_all {T : Table κ ρ key} {p : ρ → Bool}
    (h : ∀ r, r ∈ T → p r = true) : T.filter p = T :=
  Table.ext (List.filter_eq_self.mpr h)

theorem map_of_fixed {T : Table κ ρ key} {f : ρ → ρ}
    {hf : ∀ r, key (f r) = key r} (h : ∀ r, r ∈ T → f r = r) :
    T.map f hf = T :=
  Table.ext ((List.map_congr_left h).trans (List.map_id T.rows))

variable [DecidableEq κ]

theorem upsert_of_mem {T : Table κ ρ key} {r : ρ} (h : r ∈ T) :
    T.upsert r = T := by
  refine Table.ext ?_
  simp only [upsert]
  rw [if_pos (List.mem_map.mpr ⟨r, h, rfl⟩)]
  refine (List.map_congr_left fun r₀ h₀ => ?_).trans (List.map_id T.rows)
  split
  · rename_i hk
    exact eq_of_key h h₀ hk.symm
  · rfl

theorem rows_upsert_of_fresh {T : Table κ ρ key} {r : ρ}
    (h : ∀ r₀, r₀ ∈ T → key r₀ ≠ key r) :
    (T.upsert r).rows = T.rows ++ [r] := by
  simp only [upsert]
  rw [if_neg]
  intro hmem
  obtain ⟨r₀, h₀, hk⟩ := List.mem_map.mp hmem
  exact h r₀ h₀ hk

end OrcState.Foundation.Table

namespace OrcState.Store

open OrcState.Contract OrcState.Foundation

/-! ## The run bindings -/

def TaskStore.Idle (ts : TaskStore) (ref : TaskRef) : Prop :=
  ∀ run, run ∈ ts.taskRuns → run.taskRef = ref → run.active = false

theorem moveRuns_of_idle {ts : TaskStore} {ref : TaskRef} (state : RunState)
    (now : String) (h : ts.Idle ref) :
    ts.moveRuns ref RunState.active state now = ts := by
  have hfixed : ∀ run, run ∈ ts.taskRuns →
      TaskRun.moveIf ref RunState.active state now run = run := by
    intro run hrun
    unfold TaskRun.moveIf
    split
    · rename_i hmove
      have hidle := h run hrun hmove.1
      rw [TaskRun.active, hmove.2] at hidle
      cases hidle
    · rfl
  unfold TaskStore.moveRuns
  rw [Table.map_of_fixed hfixed]

theorem idle_moveRuns {ts : TaskStore} {ref : TaskRef} {state : RunState}
    {now : String} (h : state.active = false) :
    (ts.moveRuns ref RunState.active state now).Idle ref := by
  intro run hrun href
  have hnone : (ts.moveRuns ref RunState.active state now).runsAt ref = ∅ :=
    runsAt_moveRuns_active h
  refine Bool.eq_false_iff.mpr fun hactive => ?_
  have hmem : run.runId ∈
      (ts.moveRuns ref RunState.active state now).runsAt ref :=
    ⟨run, hrun, hactive, href, rfl⟩
  rw [hnone] at hmem
  exact Set.notMem_empty _ hmem

theorem insertTaskRun_total {run : TaskRun} {ts : TaskStore}
    (hnew : ¬ ts.Bound run.runId) (hidle : ts.Idle run.taskRef) :
    ∃ ts', insertTaskRun run ts = .ok ((), ts') := by
  have hfree : ¬ (run.active = true ∧ ∃ other ∈ ts.taskRuns.rows,
      other.active = true ∧ other.taskRef = run.taskRef) := by
    rintro ⟨-, other, hother, hactive, href⟩
    rw [hidle other hother href] at hactive
    cases hactive
  have hkey : run.runId ∉ ts.taskRuns.rows.map TaskRun.runId := by
    intro hmem
    obtain ⟨other, hother, hid⟩ := List.mem_map.mp hmem
    exact hnew ⟨other, hother, hid⟩
  have hinsert : ∃ runs, ts.taskRuns.insert? run = some runs := by
    unfold Table.insert?
    rw [dif_neg hkey]
    exact ⟨_, rfl⟩
  obtain ⟨runs, hruns⟩ := hinsert
  refine ⟨{ ts with taskRuns := runs }, ?_⟩
  simp only [insertTaskRun, Txn.bind_ok, Txn.get_ok, Txn.throwIf_ok,
    Txn.orThrow_ok, Txn.set_ok]
  exact ⟨ts, ts, ⟨rfl, rfl⟩, (), ts, ⟨hfree, rfl⟩, runs, ts, ⟨hruns, rfl⟩, rfl⟩

def claimBinding (task : ProjectTask) (runId : RunId) (agentId : AgentId)
    (now : String) : TaskRun where
  runId := runId
  taskRef := task.ref
  specRevision := task.revision
  agentId := some agentId
  state := .claimed
  createdAt := now
  updatedAt := now

theorem insertTaskRun_rows {run : TaskRun} {ts ts' : TaskStore} {u : Unit}
    (h : insertTaskRun run ts = .ok (u, ts')) :
    ts'.tasks = ts.tasks ∧ ts'.transitions = ts.transitions ∧
      ts'.taskRuns.rows = ts.taskRuns.rows ++ [run] := by
  simp only [insertTaskRun, Txn.bind_ok, Txn.get_ok, Txn.throwIf_ok,
    Txn.orThrow_ok, Txn.set_ok] at h
  obtain ⟨_, _, ⟨rfl, rfl⟩, _, _, ⟨-, rfl⟩, runs, _, ⟨hruns, rfl⟩, rfl⟩ := h
  exact ⟨rfl, rfl, (Table.insert?_eq_some hruns).2⟩

/-! ## The claim of the task store -/

structure TaskStore.Claimable (ts : TaskStore) (task : ProjectTask)
    (agentId : AgentId) : Prop where
  stored : ts.getTask task.ref = some task
  todo : task.status = .todo
  owner : ¬ (truthy task.dispatch.owner = true ∧
    task.dispatch.owner ≠ some agentId)
  ready : ts.waiting task = []

def claimTransition (runId : RunId) (agentId : AgentId) :
    TaskTransitionInput where
  cause := .claim
  toStatus := .claimed
  runId := some runId
  actorId := some agentId

def claimRow (task : ProjectTask) (runId : RunId) (agentId : AgentId)
    (now : String) : TaskTransition where
  taskRef := task.ref
  fromStatus := .todo
  toStatus := .claimed
  cause := .claim
  reason := none
  runId := some runId
  actorId := some agentId
  idempotencyKey := none
  createdAt := now

structure ClaimWritten (ts ts' : TaskStore) (task : ProjectTask)
    (runId : RunId) (agentId : AgentId) (now : String) : Prop where
  tasks : ts'.tasks = ts.tasks.update task.ref
    (ProjectTask.moved .claimed none now) (moved_ref .claimed none now)
  transitions : ts'.transitions =
    ts.transitions ++ [claimRow task runId agentId now]
  taskRuns : ts'.taskRuns.rows =
    ts.taskRuns.rows ++ [claimBinding task runId agentId now]

variable {ts ts' : TaskStore} {ref : TaskRef} {runId : RunId}
  {agentId : AgentId} {now : String} {task pinned : ProjectTask}

theorem claimTask_claimable
    (h : TaskStore.claimTask ref runId agentId now ts = .ok (pinned, ts')) :
    ∃ task, task.ref = ref ∧ ts.Claimable task agentId ∧
      pinned = ProjectTask.moved .claimed none now task ∧ ¬ ts.Bound runId ∧
      (ts.Idle ref → ClaimWritten ts ts' task runId agentId now) := by
  have hnew : ¬ ts.Bound runId := (claimTask_ok h).choose_spec.2.2.2.1
  simp only [TaskStore.claimTask, Txn.bind_ok, Txn.get_ok, Txn.orThrow_ok,
    Txn.throwIf_ok] at h
  obtain ⟨_, _, ⟨rfl, rfl⟩, task, _, ⟨htask, rfl⟩, _, _, ⟨hstatus, rfl⟩, _, _,
    ⟨howner, rfl⟩, _, _, ⟨hready, rfl⟩, _, m, hmove, hbind⟩ := h
  obtain ⟨task', htask', -, -, rfl⟩ := applyTransition_ok rfl hmove
  rw [htask] at htask'
  cases htask'
  have href : task.ref = ref := Table.key_of_find? htask
  subst href
  have htodo : task.status = .todo := by simpa using hstatus
  simp only [bindRun, Txn.bind_ok, Txn.get_ok, Txn.orThrow_ok, Txn.set_ok,
    Txn.pure_ok] at hbind
  obtain ⟨_, _, ⟨rfl, rfl⟩, found, _, ⟨hfound, rfl⟩, _, _, rfl, _, _, hinsert,
    rfl, rfl⟩ := hbind
  have hpinned : found = ProjectTask.moved .claimed none now task := by
    rw [TaskStore.getTask, transitioned_tasks,
      Table.find?_update_self htask] at hfound
    exact (Option.some.inj hfound).symm
  refine ⟨task, rfl, ⟨htask, htodo, howner, by simpa using hready⟩, hpinned,
    hnew, fun hidle => ?_⟩
  obtain ⟨htasks, htransitions, hrows⟩ := insertTaskRun_rows hinsert
  have hkept : (ts.transitioned task (claimTransition runId agentId)
      now).Idle task.ref := hidle
  have hsame := moveRuns_of_idle RunState.failed now hkept
  rw [show ts.transitioned task
      { cause := .claim, toStatus := .claimed, runId := some runId
        actorId := some agentId } now =
      ts.transitioned task (claimTransition runId agentId) now from rfl,
    hsame] at htasks htransitions hrows
  refine ⟨htasks.trans (transitioned_tasks ts task _ now),
    htransitions.trans ?_, hrows.trans ?_⟩
  · change ts.transitions ++ [_] = _
    rw [htodo]
    rfl
  · rw [hpinned]
    rfl

theorem TaskStore.Claimable.claimTask (h : ts.Claimable task agentId)
    (hnew : ¬ ts.Bound runId) (now : String) :
    ∃ ts', TaskStore.claimTask task.ref runId agentId now ts =
      .ok (ProjectTask.moved .claimed none now task, ts') := by
  have hmove : applyTransition task.ref (claimTransition runId agentId) now ts =
      .ok ((), ts.transitioned task (claimTransition runId agentId) now) :=
    applyTransition_eq now rfl h.stored (by rw [h.todo]; rfl) (by rintro ⟨⟩)
  have hfound : (ts.transitioned task (claimTransition runId agentId)
      now).getTask task.ref = some (ProjectTask.moved .claimed none now task) := by
    rw [TaskStore.getTask, transitioned_tasks]
    exact Table.find?_update_self h.stored
  have hunbound : ¬ ((ts.transitioned task (claimTransition runId agentId)
      now).moveRuns task.ref RunState.active .failed now).Bound runId :=
    fun hbound => hnew (bound_transitioned.mp (bound_moveRuns.mp hbound))
  have hinserts : ∃ ts', insertTaskRun (claimBinding task runId agentId now)
      ((ts.transitioned task (claimTransition runId agentId) now).moveRuns
        task.ref RunState.active .failed now) = .ok ((), ts') :=
    insertTaskRun_total hunbound (idle_moveRuns rfl)
  obtain ⟨ts', hinsert⟩ := hinserts
  refine ⟨ts', ?_⟩
  simp only [TaskStore.claimTask, bindRun, Txn.bind_ok, Txn.get_ok,
    Txn.orThrow_ok, Txn.throwIf_ok, Txn.set_ok, Txn.pure_ok]
  exact ⟨ts, ts, ⟨rfl, rfl⟩, task, ts, ⟨h.stored, rfl⟩, (), ts,
    ⟨by simp [h.todo], rfl⟩, (), ts, ⟨h.owner, rfl⟩, (), ts,
    ⟨by simp [h.ready], rfl⟩, (), _, hmove, _, _, ⟨rfl, rfl⟩, _, _,
    ⟨hfound, rfl⟩, (), _, rfl, (), ts', hinsert, rfl, rfl⟩

/-! ## The claim taken back -/

def returnTransition (runId : RunId) (agentId : AgentId) :
    TaskTransitionInput where
  cause := .failureRequeue
  toStatus := .todo
  runId := some runId
  reason := some "claim_not_committed"
  actorId := some agentId

def returnRow (task : ProjectTask) (runId : RunId) (agentId : AgentId)
    (now : String) : TaskTransition where
  taskRef := task.ref
  fromStatus := .claimed
  toStatus := .todo
  cause := .failureRequeue
  reason := some "claim_not_committed"
  runId := some runId
  actorId := some agentId
  idempotencyKey := none
  createdAt := now

structure ClaimReturned (ts ts' : TaskStore) (task : ProjectTask)
    (runId : RunId) (agentId : AgentId) (now : String) : Prop where
  tasks : ts'.tasks = ts.tasks.update task.ref
    (ProjectTask.moved .todo none now) (moved_ref .todo none now)
  transitions : ts'.transitions = ts.transitions ++
    [claimRow task runId agentId now, returnRow task runId agentId now]
  taskRuns : ts'.taskRuns.rows = ts.taskRuns.rows ++
    [{ claimBinding task runId agentId now with state := .failed }]

theorem ClaimWritten.closed (h : ClaimWritten ts ts' task runId agentId now)
    (hidle : ts.Idle task.ref) :
    ts'.taskRuns.rows.map
        (TaskRun.moveIf task.ref RunState.active .failed now) =
      ts.taskRuns.rows ++
        [{ claimBinding task runId agentId now with state := .failed }] := by
  rw [h.taskRuns, List.map_append]
  have hold : ts.taskRuns.rows.map
      (TaskRun.moveIf task.ref RunState.active .failed now) =
      ts.taskRuns.rows :=
    congrArg (fun s => s.taskRuns.rows)
      (moveRuns_of_idle RunState.failed now hidle)
  rw [hold]
  simp [TaskRun.moveIf, claimBinding, RunState.active]

theorem ClaimWritten.returned (h : ClaimWritten ts ts' task runId agentId now)
    (hclaimable : ts.Claimable task agentId) (hnew : ¬ ts.Bound runId)
    (hidle : ts.Idle task.ref) :
    ∃ ts'', (do
        applyTransition task.ref (returnTransition runId agentId) now
        abandonRun runId now : Tasks Unit) ts' = .ok ((), ts'') ∧
      ClaimReturned ts ts'' task runId agentId now := by
  have hfound : ts'.getTask task.ref =
      some (ProjectTask.moved .claimed none now task) := by
    rw [TaskStore.getTask, h.tasks]
    exact Table.find?_update_self hclaimable.stored
  have hmove : applyTransition task.ref (returnTransition runId agentId) now
      ts' = .ok ((), ts'.transitioned
        (ProjectTask.moved .claimed none now task)
        (returnTransition runId agentId) now) :=
    applyTransition_eq now rfl hfound rfl (by rintro ⟨⟩)
  refine ⟨{ ts'.transitioned (ProjectTask.moved .claimed none now task)
        (returnTransition runId agentId) now with
      taskRuns := (ts'.transitioned (ProjectTask.moved .claimed none now task)
          (returnTransition runId agentId) now).taskRuns.map
        (TaskRun.abandoned runId now) (abandoned_runId runId now) },
    ?_, ⟨?_, ?_, ?_⟩⟩
  · simp only [abandonRun, Txn.bind_ok, Txn.modify_ok]
    exact ⟨(), _, hmove, rfl⟩
  · change (ts'.transitioned _ _ now).tasks = _
    rw [transitioned_tasks, h.tasks]
    exact Table.update_update ts.tasks task.ref (moved_ref .claimed none now)
      (moved_ref .todo (some "claim_not_committed") now)
  · change ts'.transitions ++ [_] = _
    rw [h.transitions, List.append_assoc]
    rfl
  · change (ts'.taskRuns.rows.map
      (TaskRun.moveIf task.ref RunState.active .failed now)).map
        (TaskRun.abandoned runId now) = _
    rw [h.closed hidle, List.map_append]
    congr 1
    · refine (List.map_congr_left fun run hrun => ?_).trans (List.map_id _)
      unfold TaskRun.abandoned
      rw [if_neg]
      · rfl
      · rintro ⟨hid, -⟩
        exact hnew ⟨run, hrun, hid⟩
    · simp [TaskRun.abandoned, TaskRun.active, RunState.active]

/-! ## The claim of the event store -/

structure EventsDb.Referenced (db : EventsDb) : Prop where
  sessions : ∀ s, s ∈ db.sessions → ∀ id ∈ s.runId,
    (db.runs.find? id).isSome = true
  commands : ∀ c, c ∈ db.commands → (db.runs.find? c.runId).isSome = true

theorem EventsDb.Referenced.replaceRuns {db : EventsDb} (h : db.Referenced) :
    db.replaceRuns db.runs = db := by
  have hsessions : ∀ s, s ∈ db.sessions →
      ({ s with runId := s.runId.filter fun r => (db.runs.find? r).isSome } :
        Session) = s := by
    intro s hs
    have hkept : (s.runId.filter fun r => (db.runs.find? r).isSome) =
        s.runId := by
      cases hid : s.runId with
      | none => rfl
      | some id => simp [Option.filter, h.sessions s hs id hid]
    rw [hkept]
  unfold EventsDb.replaceRuns
  rw [Table.map_of_fixed hsessions, Table.filter_of_all h.commands]

theorem EventsDb.Referenced.removeOthers {db : EventsDb} (h : db.Referenced)
    (claims : List Claim) :
    db.removeOthers (db.runs.rows ++ claims) = db := by
  have hall : ∀ row, row ∈ db.runs →
      ((db.runs.rows ++ claims).map Claim.runId).contains row.runId = true := by
    intro row hrow
    rw [List.contains_iff_mem]
    exact List.mem_map.mpr ⟨row, List.mem_append_left _ hrow, rfl⟩
  unfold EventsDb.removeOthers
  rw [Table.filter_of_all hall]
  exact h.replaceRuns

theorem upsertClaims_stored {claims : List Claim} {db : EventsDb}
    (hone : OneActive db.runs) (h : ∀ c ∈ claims, c ∈ db.runs) :
    claims.forM upsertClaim db = .ok ((), db) := by
  induction claims with
  | nil => rfl
  | cons claim rest ih =>
      have hclaim := h claim List.mem_cons_self
      refine Txn.forM_cons_ok.mpr ⟨db, upsertClaim_ok.mpr ⟨?_, ?_⟩,
        ih fun c hc => h c (List.mem_cons_of_mem claim hc)⟩
      · rintro ⟨hactive, other, hother, hopen, href, hid⟩
        exact hid (hone other hother claim hclaim hopen hactive href)
      · rw [Table.upsert_of_mem hclaim]

theorem commitClaims_new {dates : DateApi} {db : EventsDb} {claim : Claim}
    {event : OrcEvent} (hkeys : db.Referenced) (hone : OneActive db.runs)
    (hfree : ∀ c, c ∈ db.runs → c.active = true → c.taskRef ≠ claim.taskRef)
    (hvalid : ValidEvent dates event) :
    commitClaims dates (db.runs.rows ++ [claim]) [event] db =
      .ok ((), ({ db with runs := db.runs.upsert claim } : EventsDb).logged
        event) := by
  have hrows := Txn.forM_append_ok (upsertClaims_stored hone fun c hc => hc)
    (Txn.forM_cons_ok.mpr ⟨_, upsertClaim_ok.mpr ⟨fun hclash => ?_, rfl⟩,
      Txn.forM_nil_ok.mpr rfl⟩ :
      [claim].forM upsertClaim db = .ok (.unit, _))
  · simp only [commitClaims, Txn.bind_ok, Txn.modify_ok]
    refine ⟨(), _, rfl, (), { db with runs := db.runs.upsert claim }, ?_, ?_⟩
    · rw [hkeys.removeOthers]
      exact hrows
    · exact Txn.forM_cons_ok.mpr ⟨_, appendSequencedEvent_ok.mpr ⟨hvalid, rfl⟩,
        Txn.forM_nil_ok.mpr rfl⟩
  · obtain ⟨-, other, hother, hopen, href, -⟩ := hclash
    exact hfree other hother hopen href

end OrcState.Store
