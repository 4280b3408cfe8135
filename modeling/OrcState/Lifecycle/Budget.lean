import OrcState.Lifecycle.Atomicity
import OrcState.Lifecycle.Attempts

/-!
# The attempt budget

Two writers spend an attempt: the finish of a failed run and the expiry of a
lease.  Both count it when the run still holds the task, and the count decides
between a later try and a blocked task.
-/

namespace OrcState.Lifecycle

open OrcState.Contract OrcState.Foundation OrcState.Store
open OrcState.Foundation.Effect

variable {dates : DateApi} {registry : Registry}

/-! ## The calls -/

inductive TaskCall where
  | call (action : Action)
  | resetVolatileRuntimeStateForSession (now : String)
  | killAll (now : String)
  | createTask (input : TaskSpecInput) (now : String)

def TaskCall.perform (dates : DateApi) (registry : Registry) (s : Project) :
    TaskCall → Project
  | .call action => (Lifecycle.perform dates registry action s).2
  | .resetVolatileRuntimeStateForSession now =>
      (Lifecycle.resetVolatileRuntimeStateForSession dates now s).2
  | .killAll now => (Lifecycle.killAll dates now s).2
  | .createTask input now => (onTasks (Store.createTask input now) s).2

structure Unspent (s : Project) : Prop extends Fresh s where
  attempts : ∀ task, task ∈ s.tasks.tasks → task.attemptCount = 0

def taskSystem (dates : DateApi) (registry : Registry) :
    System Project TaskCall where
  initial := Unspent
  step s l := some (l.perform dates registry s)

structure Finish where
  runId : RunId
  agentId : AgentId
  o : FinishOptions
  now : String

def LifecycleRequest.finish (time : String) : LifecycleRequest → Option Finish
  | .runFail runId agentId reason code policy =>
      some ⟨runId, agentId,
        { success := false, failureReason := some reason
          failureCode := some code, policy := policy, time := time }, time⟩
  | .runFinish runId agentId => some ⟨runId, agentId, { time := time }, time⟩
  | .inputTimeout runId agentId =>
      some ⟨runId, agentId,
        { success := false, failureReason := some "input_request_timeout"
          failureCode := some "ERR_INPUT_REQUEST_TIMEOUT", time := time }, time⟩
  | .progress input =>
      match input.event with
      | .runFinished =>
          some ⟨input.runId, input.agentId, { time := time }, time⟩
      | .runFailed =>
          some ⟨input.runId, input.agentId,
            { success := false, failureReason := input.reason
              failureCode := some "ERR_WORKER_REPORTED_FAILURE"
              policy := input.policy.getD "requeue", time := time }, time⟩
      | _ => none
  | .runStart _ _ | .runWorkComplete _ _ => none

def TaskCall.finish : TaskCall → Option Finish
  | .call (.finishRun runId agentId o now) => some ⟨runId, agentId, o, now⟩
  | .call (.applyLifecycle request time) => request.finish time
  | _ => none

/-! ## Endings that spend an attempt -/

def FinishOptions.spends (o : FinishOptions) : Bool :=
  !o.success && o.policy ≠ "block" && !isInfraFailure o.failureCode

def TaskCall.spends : TaskCall → Bool
  | .call (.expireStaleLeases policy _ _) => policy ≠ "block"
  | l => l.finish.any fun f => FinishOptions.spends f.o

def TaskCall.endTime (dates : DateApi) : TaskCall → Option Int
  | .call (.expireStaleLeases _ _ now) => some now
  | l => l.finish.bind fun f => dates.parse f.o.time

def TaskCall.stamp (dates : DateApi) : TaskCall → String
  | .call (.expireStaleLeases _ _ now) => dates.toISOString now
  | l => (l.finish.map Finish.now).getD ""

/-- The run ends by the call, its task claimed or in progress by it. -/
def spentBy (l : TaskCall) (s t : Project) (ref : TaskRef) (c : Claim) : Bool :=
  l.spends && c.taskRef = ref && c.active && !t.live c.runId &&
    (taskOfRun s c).isSome

def spentRuns (l : TaskCall) (s t : Project) (ref : TaskRef) : List RunId :=
  (s.claims.filter (spentBy l s t ref)).map Claim.runId

/-- The runs of the task that spent an attempt, in the order they ended. -/
def spentAlong (dates : DateApi) (registry : Registry) (ref : TaskRef) :
    Project → List TaskCall → List RunId
  | _, [] => []
  | s, l :: rest =>
      let t := l.perform dates registry s
      spentRuns l s t ref ++ spentAlong dates registry ref t rest

theorem spentBy_iff {l : TaskCall} {s t : Project} {ref : TaskRef} {c : Claim} :
    spentBy l s t ref c = true ↔
      l.spends = true ∧ c.taskRef = ref ∧ c.active = true ∧
        t.live c.runId = false ∧ ∃ task, taskOfRun s c = some task := by
  simp only [spentBy, Bool.and_eq_true, decide_eq_true_eq, Bool.not_eq_true',
    Option.isSome_iff_exists, and_assoc]

theorem spentRuns_nil {l : TaskCall} {s t : Project} {ref : TaskRef}
    (h : ∀ c, c ∈ s.events.runs → c.active = true → t.live c.runId = false →
      c.taskRef = ref → l.spends = true → taskOfRun s c = none) :
    spentRuns l s t ref = [] := by
  rw [spentRuns, List.map_eq_nil_iff, List.filter_eq_nil_iff]
  intro c hc hspent
  obtain ⟨hspends, href, hactive, hdead, task, htask⟩ := spentBy_iff.mp hspent
  rw [h c hc hactive hdead href hspends] at htask
  cases htask

/-- A task has one active claim, so one run at most is spent. -/
theorem spentRuns_one {l : TaskCall} {s t : Project} {ref : TaskRef}
    (hone : OneActive s.events.runs) {c : Claim} (hc : c ∈ s.events.runs)
    (h : spentBy l s t ref c = true) : spentRuns l s t ref = [c.runId] := by
  have hself : ∀ d ∈ s.claims, spentBy l s t ref d =
      (decide (d.runId = c.runId) && spentBy l s t ref d) := by
    intro d hd
    cases hspent : spentBy l s t ref d with
    | false => simp
    | true =>
        obtain ⟨-, href, hactive, -⟩ := spentBy_iff.mp hspent
        obtain ⟨-, href', hactive', -⟩ := spentBy_iff.mp h
        simp [hone d hd c hc hactive hactive' (href.trans href'.symm)]
  have hcount := countP_key s.events.runs.nodup c.runId (spentBy l s t ref)
  have hany : (s.events.runs.rows.any fun d =>
      decide (d.runId = c.runId) && spentBy l s t ref d) = true :=
    List.any_eq_true.mpr ⟨c, hc, by simp [h]⟩
  rw [hany, if_pos rfl, ← List.countP_congr fun d hd => by rw [← hself d hd],
    List.countP_eq_length_filter] at hcount
  obtain ⟨d, hd⟩ := List.length_eq_one_iff.mp hcount
  have hmem : c ∈ s.events.runs.rows.filter (spentBy l s t ref) :=
    List.mem_filter.mpr ⟨hc, h⟩
  rw [hd, List.mem_singleton] at hmem
  rw [spentRuns, Project.claims, hd, List.map_singleton, hmem]

/-! ## The row an attempt leaves -/

def spentRow (dates : DateApi) (e : Int) (stamp verb : String)
    (current : ProjectTask) : ProjectTask :=
  let entry := countAttempt dates verb e (projectTaskToBacklogTask current)
  ProjectTask.dispatched (committedDispatch entry current) entry.attemptCount
    (ProjectTask.moved entry.status entry.blockedReason stamp current)

theorem countAttempt_count (verb : String) (e : Int) (task : Task) :
    (countAttempt dates verb e task).attemptCount = task.attemptCount + 1 := by
  simp only [countAttempt]
  split <;> rfl

theorem spentRow_count (e : Int) (stamp verb : String)
    (current : ProjectTask) :
    (spentRow dates e stamp verb current).attemptCount =
      current.attemptCount + 1 :=
  countAttempt_count verb e _

/-- What the count of a row decides: a later try, or no other. -/
def BudgetKept (dates : DateApi) (e : Int) (verb : String) (row : ProjectTask) :
    Prop :=
  if 5 ≤ row.attemptCount then
    row.status = .blocked ∧
      row.blockedReason = some ("max_attempts_exceeded: " ++ verb ++ " " ++
        toString row.attemptCount ++ " times")
  else
    row.status = .todo ∧
      row.dispatch.requeueEligibleAfter = some (dates.toISOString
        (e + (min (30000 * Nat.pow 2 (row.attemptCount - 1)) 600000 : Nat)))

theorem spentRow_kept (e : Int) (stamp verb : String) (current : ProjectTask) :
    BudgetKept dates e verb (spentRow dates e stamp verb current) := by
  unfold BudgetKept
  rw [spentRow_count]
  by_cases hmax : 5 ≤ current.attemptCount + 1
  · have hcount : MAX_ATTEMPTS ≤
        (projectTaskToBacklogTask current).attemptCount + 1 := hmax
    rw [if_pos hmax]
    simp only [spentRow, countAttempt, if_pos hcount]
    exact ⟨rfl, rfl⟩
  · have hcount : ¬ MAX_ATTEMPTS ≤
        (projectTaskToBacklogTask current).attemptCount + 1 := hmax
    rw [if_neg hmax]
    simp only [spentRow, countAttempt, if_neg hcount]
    exact ⟨rfl, rfl⟩

theorem spentRow_verb (e : Int) (stamp verb verb' : String)
    (current : ProjectTask) :
    { spentRow dates e stamp verb current with blockedReason := none } =
      { spentRow dates e stamp verb' current with blockedReason := none } := by
  simp only [spentRow, countAttempt]
  split <;> rfl

theorem moved_todo (reason reason' : Option String) (now : String)
    (task : ProjectTask) :
    ProjectTask.moved .todo reason now task =
      ProjectTask.moved .todo reason' now task := rfl

theorem spentRow_committed {changes : TaskStatusChanges} {stamp verb : String}
    {e : Int} {current : ProjectTask} {change : TaskStatusChange}
    {before after : Option ProjectTask × List TaskTransition}
    (hbefore : before.1 = some current)
    (hrunning : current.status.running = true)
    (hlookup : changes.lookup current.ref = some change)
    (hkey : change.idempotencyKey = none)
    (hreason : (countAttempt dates verb e
        (projectTaskToBacklogTask current)).status = .blocked →
      (change.reason.or (countAttempt dates verb e
        (projectTaskToBacklogTask current)).blockedReason).getD
          change.cause.text =
        (countAttempt dates verb e
          (projectTaskToBacklogTask current)).blockedReason.getD "")
    (h : CommittedRow changes stamp
      (countAttempt dates verb e (projectTaskToBacklogTask current)) before
      after) :
    after.1 = some (spentRow dates e stamp verb current) := by
  obtain ⟨current', row, hcurrent', hrow, -, hafter⟩ := h
  rw [hbefore] at hcurrent'
  cases hcurrent'
  have href : (countAttempt dates verb e
      (projectTaskToBacklogTask current)).ref = current.ref :=
    countAttempt_ref verb e _
  rw [hafter]
  cases hrow with
  | kept hsame =>
      rcases countAttempt_status verb e (projectTaskToBacklogTask current) with
        hst | hst
      · rw [← hsame, hst] at hrunning
        cases hrunning
      · rw [← hsame, hst] at hrunning
        cases hrunning
  | repeated change' _ hchange' hkey' =>
      rw [href, hlookup] at hchange'
      cases hchange'
      rw [hkey] at hkey'
      cases hkey'
  | moved change' _ hchange' _ =>
      rw [href, hlookup] at hchange'
      cases hchange'
      rcases countAttempt_status verb e (projectTaskToBacklogTask current) with
        hst | hst
      · have htext := countAttempt_reason hst
        cases hblocked : (countAttempt dates verb e
            (projectTaskToBacklogTask current)).blockedReason with
        | none =>
            rw [hblocked] at htext
            cases htext
        | some reason =>
            have hsame := hreason hst
            rw [hblocked] at hsame
            simp only [spentRow, transitionReason, hst, if_true, hblocked,
              hsame, Option.getD_some]
      · simp only [spentRow, hst]
        rw [moved_todo]

/-! ## What one call does to one task -/

/-- The call leaves the attempts of the task, or a run spends one. -/
inductive SpentAt (dates : DateApi) (l : TaskCall) (s t : Project)
    (ref : TaskRef) : Prop
  | kept (runs : spentRuns l s t ref = [])
      (count : attemptsAt t.tasks ref = attemptsAt s.tasks ref)
  | spent (c : Claim) (e : Int) (verb : String) (current : ProjectTask)
      (claim : c ∈ s.events.runs) (ended : spentBy l s t ref c = true)
      (runs : spentRuns l s t ref = [c.runId])
      (time : l.endTime dates = some e)
      (before : s.tasks.getTask ref = some current)
      (after : t.tasks.getTask ref =
        some (spentRow dates e (l.stamp dates) verb current))

/-- No run that is active ends by the call while it holds its task. -/
theorem SpentAt.of_steady {l : TaskCall} {s t : Project} (h : Steady s t)
    (hlive : ∀ c, c ∈ s.events.runs → c.active = true →
      t.live c.runId = false → l.spends = true → taskOfRun s c = none)
    (ref : TaskRef) : SpentAt dates l s t ref :=
  .kept (spentRuns_nil fun c hc ha hdead _ hl => hlive c hc ha hdead hl)
    (h.attempts ref)

theorem SpentAt.of_same {l : TaskCall} {s : Project} (ref : TaskRef) :
    SpentAt dates l s s ref := by
  refine .of_steady (.refl s) (fun c hc ha hdead _ => ?_) ref
  have hlive := live_iff.mpr ⟨c, hc, rfl, ha⟩
  rw [hdead] at hlive
  cases hlive

theorem SpentAt.attempts {l : TaskCall} {s t : Project} {ref : TaskRef}
    (h : SpentAt dates l s t ref) :
    attemptsAt t.tasks ref =
      attemptsAt s.tasks ref + (spentRuns l s t ref).length := by
  cases h with
  | kept hruns hcount =>
      rw [hruns, hcount]
      rfl
  | spent c e verb current _ _ hruns _ hbefore hafter =>
      rw [hruns, attemptsAt, attemptsAt, hbefore, hafter, Option.map_some,
        Option.map_some, spentRow_count]
      rfl

/-! ## Finishing a run -/

theorem live_mutated {s t : Project} {p : Claim → Bool} {f : Claim → Claim}
    (h : Mutated p f s.events.runs t.events.runs) {c : Claim}
    (hc : c ∈ s.events.runs) (hactive : c.active = true) (hp : p c = false) :
    t.live c.runId = true :=
  live_iff.mpr ⟨c, (h.mem c).mpr ⟨c, hc, by rw [hp]; rfl⟩, rfl, hactive⟩

theorem not_live_mutated {s t : Project} {p : Claim → Bool} {f : Claim → Claim}
    (h : Mutated p f s.events.runs t.events.runs) {c : Claim}
    (hc : c ∈ s.events.runs) (hp : p c = true)
    (hf : (f c).runId = c.runId ∧ (f c).active = false) :
    t.live c.runId = false := by
  have hnew : f c ∈ t.events.runs :=
    (h.mem _).mpr ⟨c, hc, by rw [if_pos hp]⟩
  refine Bool.eq_false_iff.mpr fun hlive => ?_
  obtain ⟨d, hd, hid, hactive⟩ := live_iff.mp hlive
  rw [Table.eq_of_key hd hnew (hid.trans hf.1.symm), hf.2] at hactive
  cases hactive

theorem getTask_of_findTask {s : Project} {ref : TaskRef} {task : Task}
    (h : findTask s.backlog ref = some task) :
    ∃ current, s.tasks.getTask ref = some current ∧ current.ref = ref ∧
      projectTaskToBacklogTask current = task := by
  rw [Project.backlog, findTask_readProjectBacklog] at h
  obtain ⟨current, hcurrent, rfl⟩ := Option.map_eq_some_iff.mp h
  exact ⟨current, hcurrent, Table.key_of_find? hcurrent, rfl⟩

theorem finishTask_counted (dates : DateApi) {o : FinishOptions}
    (h : FinishOptions.spends o = true) (task : Task) :
    finishTask dates o task =
      countAttempt dates "failed" ((dates.parse o.time).getD 0) task := by
  simp only [FinishOptions.spends, Bool.and_eq_true, Bool.not_eq_true',
    decide_eq_true_eq] at h
  simp [finishTask, h.1.1, h.1.2, h.2]

theorem finishTask_uncounted {o : FinishOptions}
    (h : FinishOptions.spends o = false) (task : Task) :
    (finishTask dates o task).attemptCount = task.attemptCount ∧
      (finishTask dates o task).requeueEligibleAfter =
        task.requeueEligibleAfter := by
  unfold finishTask
  split
  · exact ⟨rfl, rfl⟩
  · rename_i hsuccess
    split
    · exact ⟨rfl, rfl⟩
    · rename_i hpolicy
      split
      · exact ⟨rfl, rfl⟩
      · rename_i hinfra
        simp [FinishOptions.spends, hsuccess, hpolicy, hinfra] at h

theorem grounded_finishRun {runId : RunId} {agentId : AgentId}
    {o : FinishOptions} {now : String} (s : Project) :
    Ensures Grounded (finishRun dates runId agentId o now) s := by
  unfold finishRun assertValidTimestamp
  refine ensures_read (ensures_check (.refl s) fun claim _ =>
    ensures_throwIf (.refl s) fun _ => ?_)
  have hf : Subdues (fun c => c.runId = claim.runId) (finishClaim o)
      s.claims :=
    subdues_ended fun c => ⟨rfl, finishClaim_active o c⟩
  split
  · unfold commitFinish
    cases taskOfRun s claim with
    | none => exact grounded_mutated hf
    | some task => exact grounded_commitBoth hf
  · split
    · exact grounded_mutated (f := clearFinalization)
        (subdues_kept fun _ => ⟨rfl, rfl⟩)
    · exact ensures_pure (.refl s) ()

theorem finishRun_untimed {runId : RunId} {agentId : AgentId}
    {o : FinishOptions} {now : String} {s t : Project}
    {r : Except DomainError Unit} (htime : dates.parse o.time = none)
    (h : finishRun dates runId agentId o now s = (r, t)) : t = s := by
  simp only [finishRun, read_bind, assertValidTimestamp] at h
  rcases ofExcept_cases h with ⟨-, rfl⟩ | ⟨claim, -, h⟩
  · rfl
  rcases throwIf_cases h with ⟨-, rfl⟩ | ⟨hvalid, -⟩
  · rfl
  · rw [htime] at hvalid
    exact absurd rfl hvalid

theorem finish_terms (dates : DateApi) {l : TaskCall} {f : Finish}
    (h : l.finish = some f) :
    l.spends = FinishOptions.spends f.o ∧
      l.endTime dates = dates.parse f.o.time ∧ l.stamp dates = f.now := by
  cases l with
  | call action =>
      cases action <;> simp_all [TaskCall.finish, TaskCall.spends,
        TaskCall.endTime, TaskCall.stamp]
  | resetVolatileRuntimeStateForSession now => cases h
  | killAll now => cases h
  | createTask input now => cases h

section FinishRun

variable {l : TaskCall} {f : Finish} {s t : Project} {claim : Claim}

theorem eq_of_dead {g : Claim → Claim} (hclaim : claim ∈ s.events.runs)
    (hmut : Mutated (fun c => c.runId = claim.runId) g s.events.runs
      t.events.runs) {c : Claim} (hc : c ∈ s.events.runs)
    (hactive : c.active = true) (hdead : t.live c.runId = false) :
    c = claim := by
  by_contra hne
  have hlive := live_mutated hmut hc hactive (decide_eq_false fun hid =>
    hne (Table.eq_of_key hc hclaim hid))
  rw [hdead] at hlive
  cases hlive

theorem finish_refs (dates : DateApi) {task : Task}
    (htask : taskOfRun s claim = some task) (o : FinishOptions) :
    (mutateTask s.backlog claim.taskRef fun _ => finishTask dates o task).map
        Task.ref = s.backlog.map Task.ref :=
  refs_mutateTask fun _ _ => (finishTask_ref o task).trans
    (findTask_eq_some (taskOfRun_eq_some htask).1).2

theorem findTask_finished (dates : DateApi) {task : Task}
    (htask : taskOfRun s claim = some task) (o : FinishOptions)
    (ref : TaskRef) :
    findTask (mutateTask s.backlog claim.taskRef fun _ =>
        finishTask dates o task) ref =
      if ref = claim.taskRef then some (finishTask dates o task)
      else findTask s.backlog ref := by
  have hfind := (taskOfRun_eq_some htask).1
  rw [findTask_mutateTask fun _ _ => (finishTask_ref o task).trans
    (findTask_eq_some hfind).2]
  split
  · rename_i hr
    rw [hr, hfind]
    rfl
  · rfl

theorem finish_accepted (dates : DateApi) {task : Task}
    (htask : taskOfRun s claim = some task) {o : FinishOptions} (hspends : FinishOptions.spends o = true)
    (agentId : AgentId) (now : String) :
    ∃ ts, commitBacklog
      (mutateTask s.backlog claim.taskRef fun _ => finishTask dates o task)
      (finishChanges claim agentId o task (finishTask dates o task)) now
      s.tasks = .ok ((), ts) := by
  obtain ⟨hfind, hrunning⟩ := taskOfRun_eq_some htask
  have href := (findTask_eq_some hfind).2
  simp only [FinishOptions.spends, Bool.and_eq_true, Bool.not_eq_true',
    decide_eq_true_eq] at hspends
  exact (commitBacklog_iff now (finishChanges_ordinary claim agentId o task _)
    hfind (fun _ _ => (finishTask_ref o task).trans href)
    (finishTask_definition dates o task)).mpr
      (lawful_requeue href hrunning hspends.1.1 hspends.1.2)

theorem SpentAt.of_finished {task : Task} {ts : TaskStore} {e : Int} {u : Unit}
    (hone : OneActive s.events.runs) (hl : l.finish = some f)
    (htime : dates.parse f.o.time = some e) (hclaim : claim ∈ s.events.runs)
    (hactive : claim.active = true) (htask : taskOfRun s claim = some task)
    (hmut : Mutated (fun c => c.runId = claim.runId) (finishClaim f.o)
      s.events.runs t.events.runs) (htasks : t.tasks = ts)
    (hts : commitBacklog
      (mutateTask s.backlog claim.taskRef fun _ => finishTask dates f.o task)
      (finishChanges claim f.agentId f.o task (finishTask dates f.o task)) f.now
      s.tasks = .ok (u, ts)) (ref : TaskRef) : SpentAt dates l s t ref := by
  obtain ⟨hspends, hend, hstamp⟩ := finish_terms dates hl
  have hrefs := finish_refs dates htask f.o
  have hcount := attemptsAt_commitBacklog hrefs hts ref
  rw [attemptsIn, findTask_finished dates htask] at hcount
  obtain ⟨hfind, hrunning⟩ := taskOfRun_eq_some htask
  cases hsp : FinishOptions.spends f.o with
  | false =>
      refine .kept (spentRuns_nil fun c _ _ _ _ hl => ?_) ?_
      · rw [hspends, hsp] at hl
        cases hl
      · rw [htasks, hcount, ← attemptsIn_backlog, attemptsIn]
        split
        · rename_i hr
          rw [hr, hfind]
          exact (finishTask_uncounted hsp task).1
        · rfl
  | true =>
      by_cases hr : ref = claim.taskRef
      · subst hr
        have hended : spentBy l s t claim.taskRef claim = true :=
          spentBy_iff.mpr ⟨hspends.trans hsp, rfl, hactive,
            not_live_mutated hmut hclaim (decide_eq_true rfl)
              ⟨rfl, finishClaim_active f.o claim⟩, task, htask⟩
        obtain ⟨current, hcurrent, href, rfl⟩ := getTask_of_findTask hfind
        refine .spent claim e "failed" current hclaim hended
          (spentRuns_one hone hclaim hended) (hend.trans htime) hcurrent ?_
        have hentry := findTask_finished dates htask f.o
          claim.taskRef
        rw [if_pos rfl] at hentry
        have hrow := getTask_commitBacklog hrefs hts hentry
        have hcounted := finishTask_counted dates hsp
          (projectTaskToBacklogTask current)
        rw [htime, Option.getD_some] at hcounted
        have hne : (finishTask dates f.o
            (projectTaskToBacklogTask current)).status ≠
              (projectTaskToBacklogTask current).status := by
          intro hsame
          rw [← hsame, hcounted] at hrunning
          rcases countAttempt_status "failed" e
            (projectTaskToBacklogTask current) with hst | hst
          · rw [hst] at hrunning
            cases hrunning
          · rw [hst] at hrunning
            cases hrunning
        rw [finishChanges, if_neg hne, hcounted] at hrow
        rw [htasks, hstamp]
        refine spentRow_committed hcurrent hrunning
          (by rw [href]; exact List.lookup_cons_self) rfl
          (fun hst => ?_) hrow
        have htext := countAttempt_reason hst
        simp only [finishReason]
        cases hblocked : (countAttempt dates "failed" e
            (projectTaskToBacklogTask current)).blockedReason with
        | none =>
            rw [hblocked] at htext
            cases htext
        | some reason => simp
      · refine .kept (spentRuns_nil fun c hc ha hdead hcr _ => ?_) ?_
        · rw [eq_of_dead hclaim hmut hc ha hdead] at hcr
          exact absurd hcr.symm hr
        · rw [htasks, hcount, if_neg hr, ← attemptsIn_backlog, attemptsIn]

theorem SpentAt.finishRun {r : Except DomainError Unit}
    (hone : OneActive s.events.runs) (hl : l.finish = some f)
    (h : finishRun dates f.runId f.agentId f.o f.now s = (r, t))
    (ref : TaskRef) : SpentAt dates l s t ref := by
  obtain ⟨hspends, -, -⟩ := finish_terms dates hl
  cases htime : dates.parse f.o.time with
  | none =>
      rw [finishRun_untimed htime h]
      exact .of_same ref
  | some e =>
      rcases finishRun_commit h with
        rfl | ⟨claim, hfind, -, ⟨hactive, hcommit⟩ | ⟨hended, hclear⟩⟩
      · exact .of_same ref
      · have hclaim := Table.mem_of_find? hfind
        unfold commitFinish at hcommit
        cases htask : taskOfRun s claim with
        | none =>
            simp only [htask] at hcommit
            have hf : Subdues (fun c => c.runId = claim.runId)
                (finishClaim f.o) s.claims :=
              subdues_ended fun c => ⟨rfl, finishClaim_active f.o c⟩
            have hsteady : Steady s t := (steady_mutated hf).snd hcommit
            rcases commitMutated_cases hcommit fun _ => rfl with
              ⟨-, rfl⟩ | ⟨-, hmut, -⟩
            · exact .of_same ref
            refine .of_steady hsteady (fun c hc ha hdead _ => ?_) ref
            rw [eq_of_dead hclaim hmut hc ha hdead]
            exact htask
        | some task =>
            simp only [htask] at hcommit
            rcases commitBoth_cases hcommit with
              ⟨e', -, rfl⟩ | ⟨db, hdb, ⟨e', -, hrefused, rfl⟩ | ⟨ts, hts, -, rfl⟩⟩
            · exact .of_same ref
            · cases hsp : FinishOptions.spends f.o with
              | true =>
                  obtain ⟨ts, hts⟩ := finish_accepted dates htask hsp
                    f.agentId f.now
                  unfold finishChanges at hts
                  rw [hts] at hrefused
                  cases hrefused
              | false =>
                  refine .kept (spentRuns_nil fun c _ _ _ _ hl => ?_) rfl
                  rw [hspends, hsp] at hl
                  cases hl
            · have hmut : Mutated (fun c => c.runId = claim.runId)
                  (finishClaim f.o) s.events.runs db.runs :=
                commitMutated_claims hdb fun _ => rfl
              exact .of_finished (t := (s.setEvents db).setTasks ts) hone hl
                htime hclaim hactive htask hmut rfl hts ref
      · have hclaim := Table.mem_of_find? hfind
        have hf : Subdues (fun c => c.runId = f.runId) clearFinalization
            s.claims := subdues_kept fun _ => ⟨rfl, rfl⟩
        have hsteady : Steady s t := (steady_mutated hf).snd hclear
        rcases commitMutated_cases hclear fun _ => rfl with
          ⟨-, rfl⟩ | ⟨-, hmut, -⟩
        · exact .of_same ref
        refine .of_steady hsteady (fun c hc ha hdead _ => ?_) ref
        have hid : f.runId = claim.runId := (Table.key_of_find? hfind).symm
        rw [hid] at hmut
        rw [eq_of_dead hclaim hmut hc ha hdead, hended] at ha
        cases ha

end FinishRun

/-! ## Expiring leases -/

section Expire

variable {policy : String} {actorId : AgentId} {now : Int} {s t : Project}
  {acc : Expiry}

theorem expireTask_counted (hpolicy : policy ≠ "block") (task : Task) :
    expireTask dates policy now task = countAttempt dates "expired" now task :=
  if_neg hpolicy

theorem expireTask_definition (policy : String) (now : Int) (task : Task) :
    (expireTask dates policy now task).definition = task.definition := by
  unfold expireTask
  split
  · rfl
  · simp only [countAttempt]
    split <;> rfl

theorem expiry_accepted (hpolicy : policy ≠ "block")
    (hacc : Expiry.Sound dates policy actorId now s.backlog s.claims acc)
    (time : String) :
    ∃ ts, commitBacklog acc.backlog acc.changes time s.tasks = .ok ((), ts) := by
  have hnodup : (acc.backlog.map Task.ref).Nodup :=
    hacc.refs ▸ nodup_readProjectBacklog s.tasks
  refine commitBacklog_total time hacc.ordinary hnodup fun entry hentry => ?_
  have hfound := findTask_of_mem hnodup hentry
  rcases hacc.tasks entry.ref with ⟨hsame, -⟩ |
    ⟨task, c, hfind, hrunning, -, -, -, hfailed, hlookup⟩
  · rw [hfound] at hsame
    obtain ⟨current, hcurrent, -, hentry⟩ := getTask_of_findTask hsame.symm
    refine ⟨current, hcurrent, ?_, .inl ?_⟩
    · rw [← hentry]
      rfl
    · rw [← hentry]
      rfl
  · obtain ⟨current, hcurrent, -, rfl⟩ := getTask_of_findTask hfind
    rw [hfound, Option.some.injEq] at hfailed
    refine ⟨current, hcurrent, ?_, .inr ⟨_, hlookup, ?_, fun hblocked => ?_⟩⟩
    · rw [hfailed]
      exact expireTask_definition policy now _
    · rw [hfailed, expiryChange]
      have hrun : current.status.running = true := hrunning
      rcases expireTask_status dates policy now
          (projectTaskToBacklogTask current) with hst | hst
      · rw [hst]
        exact allows_failureBlock hrun
      · rw [hst]
        exact allows_failureRequeue hrun
    · rw [hfailed, expireTask_counted hpolicy] at hblocked ⊢
      have htext := countAttempt_reason hblocked
      rw [transitionReason, if_pos hblocked]
      cases hreason : (countAttempt dates "expired" now
          (projectTaskToBacklogTask current)).blockedReason with
      | none =>
          rw [hreason] at htext
          cases htext
      | some reason =>
          rw [hreason] at htext
          simpa [expiryChange, hreason] using htext

theorem SpentAt.of_expired {ts : TaskStore} {u : Unit}
    (hone : OneActive s.events.runs)
    (hacc : Expiry.Sound dates policy actorId now s.backlog s.claims acc)
    (hmut : Mutated (expires dates now s.backlog) (expireClaim dates now)
      s.events.runs t.events.runs) (htasks : t.tasks = ts)
    (hts : commitBacklog acc.backlog acc.changes (dates.toISOString now)
      s.tasks = .ok (u, ts)) (ref : TaskRef) :
    SpentAt dates (.call (.expireStaleLeases policy actorId now)) s t ref := by
  have hcount := attemptsAt_commitBacklog hacc.refs hts ref
  rcases hacc.tasks ref with ⟨hsame, hnone⟩ |
    ⟨task, c, hfind, hrunning, hc, hexpires, rfl, hafter, hlookup⟩
  · refine .kept (spentRuns_nil fun c hc ha hdead hcr _ => ?_) ?_
    · have hexpires : expires dates now s.backlog c = true := by
        by_contra hno
        have hlive := live_mutated hmut hc ha (by simpa using hno)
        rw [hdead] at hlive
        cases hlive
      cases htask : taskOfRun s c with
      | none => rfl
      | some task =>
          obtain ⟨hfind, hrunning⟩ := taskOfRun_eq_some htask
          rw [hcr] at hfind
          exact absurd hcr (hnone task hfind hrunning c hc hexpires)
    · rw [htasks, hcount, ← attemptsIn_backlog, attemptsIn, attemptsIn, hsame]
  · by_cases hpolicy : policy = "block"
    · refine .kept (spentRuns_nil fun c _ _ _ _ hl => ?_) ?_
      · simp [TaskCall.spends, hpolicy] at hl
      · rw [htasks, hcount, ← attemptsIn_backlog, attemptsIn, attemptsIn,
          hfind, hafter, expireTask, if_pos hpolicy]
        rfl
    · have hactive : c.active = true := by
        simp only [expires, Bool.and_eq_true] at hexpires
        exact hexpires.1.1
      have htask : taskOfRun s c = some task :=
        Option.filter_eq_some_iff.mpr ⟨hfind, hrunning⟩
      have hended : spentBy (.call (.expireStaleLeases policy actorId now)) s t
          c.taskRef c = true :=
        spentBy_iff.mpr ⟨decide_eq_true hpolicy, rfl, hactive,
          not_live_mutated hmut hc hexpires ⟨rfl, rfl⟩, task, htask⟩
      obtain ⟨current, hcurrent, href, rfl⟩ := getTask_of_findTask hfind
      refine .spent c now "expired" current hc hended
        (spentRuns_one hone hc hended) rfl hcurrent ?_
      have hrow := getTask_commitBacklog hacc.refs hts hafter
      rw [expireTask_counted hpolicy] at hrow hlookup
      rw [htasks]
      refine spentRow_committed hcurrent hrunning (by rw [href]; exact hlookup)
        rfl (fun hst => ?_) hrow
      have htext := countAttempt_reason hst
      cases hblocked : (countAttempt dates "expired" now
          (projectTaskToBacklogTask current)).blockedReason with
      | none =>
          rw [hblocked] at htext
          cases htext
      | some reason => simp [expiryChange, hblocked]

theorem SpentAt.expireStaleLeases {r : Except DomainError (List RunId)}
    (hone : OneActive s.events.runs)
    (h : expireStaleLeases dates policy actorId now s = (r, t))
    (ref : TaskRef) :
    SpentAt dates (.call (.expireStaleLeases policy actorId now)) s t ref := by
  rcases expireStaleLeases_commit h with rfl | ⟨acc, r', hacc, hx, -⟩
  · exact .of_same ref
  rcases commitBoth_cases hx with
    ⟨e, -, rfl⟩ | ⟨db, hdb, ⟨e, -, hrefused, rfl⟩ | ⟨ts, hts, -, rfl⟩⟩
  · exact .of_same ref
  · by_cases hpolicy : policy = "block"
    · refine .kept (spentRuns_nil fun c _ _ _ _ hl => ?_) rfl
      simp [TaskCall.spends, hpolicy] at hl
    · obtain ⟨ts, hts⟩ := expiry_accepted hpolicy hacc (dates.toISOString now)
      rw [hts] at hrefused
      cases hrefused
  · have hmut : Mutated (expires dates now s.backlog) (expireClaim dates now)
        s.events.runs db.runs := commitMutated_claims hdb fun _ => rfl
    exact .of_expired (t := (s.setEvents db).setTasks ts) hone hacc hmut rfl hts
      ref

theorem grounded_expireStaleLeases (s : Project) :
    Ensures Grounded (expireStaleLeases dates policy actorId now) s := by
  refine ensures_of fun r t h => ?_
  rcases expireStaleLeases_commit h with rfl | ⟨acc, r', -, hx, -⟩
  · exact .refl _
  · have hf : Subdues (expires dates now s.backlog) (expireClaim dates now)
        s.claims := subdues_ended fun _ => ⟨rfl, rfl⟩
    exact (grounded_commitBoth hf).snd hx

end Expire

/-! ## Worker requests -/

theorem applyLifecycle_finish {request : LifecycleRequest} {time : String}
    {f : Finish} {s t : Project} {r : Except DomainError Unit}
    (hf : request.finish time = some f)
    (h : applyLifecycle dates request time s = (r, t)) :
    t = s ∨ finishRun dates f.runId f.agentId f.o f.now s = (r, t) := by
  cases request with
  | runStart runId agentId => cases hf
  | runWorkComplete runId agentId => cases hf
  | runFail runId agentId reason code policy =>
      cases hf
      simp only [applyLifecycle, read_bind] at h
      rcases ofExcept_cases h with ⟨-, rfl⟩ | ⟨claim, -, h⟩
      · exact .inl rfl
      · exact .inr h
  | runFinish runId agentId =>
      cases hf
      simp only [applyLifecycle, read_bind] at h
      rcases ofExcept_cases h with ⟨-, rfl⟩ | ⟨claim, -, h⟩
      · exact .inl rfl
      rcases ofExcept_cases h with ⟨-, rfl⟩ | ⟨⟨⟩, -, h⟩
      · exact .inl rfl
      · exact .inr h
  | inputTimeout runId agentId =>
      cases hf
      simp only [applyLifecycle, read_bind] at h
      split at h
      · exact .inr h
      · cases h
        exact .inl rfl
  | progress input =>
      simp only [applyLifecycle, read_bind] at h
      rcases ofExcept_cases h with ⟨-, rfl⟩ | ⟨claim, -, h⟩
      · exact .inl rfl
      cases hevent : input.event with
      | runFinished =>
          simp only [LifecycleRequest.finish, hevent] at hf
          cases hf
          simp only [applyProgress, hevent, read_bind] at h
          rcases ofExcept_cases h with ⟨-, rfl⟩ | ⟨⟨⟩, -, h⟩
          · exact .inl rfl
          · exact .inr h
      | runFailed =>
          simp only [LifecycleRequest.finish, hevent] at hf
          cases hf
          simp only [applyProgress, hevent] at h
          exact .inr h
      | runStarted | heartbeat | reviewSubmitted | workComplete
      | finalizeRebaseStarted | readyToMerge | phaseStarted | phaseFinished
      | blocked | needInput | inputProvided | unblocked =>
          simp only [LifecycleRequest.finish, hevent] at hf
          cases hf

theorem steady_applyLifecycle {request : LifecycleRequest} {time : String}
    {s : Project} (hf : request.finish time = none) :
    Ensures Steady (applyLifecycle dates request time) s := by
  cases request with
  | runFail runId agentId reason code policy => cases hf
  | runFinish runId agentId => cases hf
  | inputTimeout runId agentId => cases hf
  | runStart runId agentId =>
      refine ensures_read ?_
      dsimp only
      split
      · exact ensures_pure (.refl s) ()
      · exact ensures_check (.refl s) fun _ _ => steady_startRun s
  | runWorkComplete runId agentId =>
      exact ensures_read (ensures_check (.refl s) fun claim _ =>
        ensures_check (.refl s) fun event _ => steady_append _ s)
  | progress input =>
      refine ensures_read (ensures_check (.refl s) fun claim _ => ?_)
      cases hevent : input.event with
      | runFinished =>
          simp only [LifecycleRequest.finish, hevent] at hf
          cases hf
      | runFailed =>
          simp only [LifecycleRequest.finish, hevent] at hf
          cases hf
      | runStarted =>
          simp only [applyProgress, hevent]
          split
          · exact ensures_pure (.refl s) ()
          · exact steady_startRun s
      | heartbeat =>
          simp only [applyProgress, hevent]
          exact (steady_heartbeat s).result
      | reviewSubmitted | workComplete | finalizeRebaseStarted | readyToMerge
      | phaseStarted | phaseFinished | blocked | needInput | inputProvided
      | unblocked =>
          simp only [applyProgress, hevent]
          exact steady_append _ s

/-! ## Every call -/

/-- The call leaves the runs as they must be and each task its account. -/
structure Budgeted (dates : DateApi) (l : TaskCall) (s t : Project) : Prop where
  grounded : Grounded s t
  tasks : ∀ ref, SpentAt dates l s t ref

theorem Budgeted.of_steady {l : TaskCall} {s t : Project} (h : Steady s t)
    (hl : l.spends = false) : Budgeted dates l s t := by
  refine ⟨h.toGrounded, .of_steady h fun c _ _ _ hspends => ?_⟩
  rw [hl] at hspends
  cases hspends

theorem Budgeted.finishRun {l : TaskCall} {f : Finish} {s t : Project}
    {r : Except DomainError Unit} (hone : OneActive s.events.runs)
    (hl : l.finish = some f)
    (h : Lifecycle.finishRun dates f.runId f.agentId f.o f.now s = (r, t)) :
    Budgeted dates l s t :=
  ⟨(grounded_finishRun s).snd h, .finishRun hone hl h⟩

theorem Budgeted.action {action : Action} {s t : Project}
    {r : Except DomainError Unit} (hone : OneActive s.events.runs)
    (hbound : AllBound s) (h : perform dates registry action s = (r, t)) :
    Budgeted dates (.call action) s t := by
  cases action with
  | claimTask ref agentId lease runId snapshot now =>
      exact .of_steady ((steady_claimTask hbound).result.snd h) rfl
  | startRun runId agentId o now => exact .of_steady ((steady_startRun s).snd h) rfl
  | heartbeat runId agentId o =>
      exact .of_steady ((steady_heartbeat s).result.snd h) rfl
  | renewLeaseOnly runId lease now =>
      exact .of_steady ((steady_renewLeaseOnly s).snd h) rfl
  | finishRun runId agentId o now =>
      exact .finishRun (f := ⟨runId, agentId, o, now⟩) hone rfl h
  | markTaskEnvelopeSent runId agentId o =>
      refine .of_steady (Ensures.snd (Ensures.result
        (ensures_markTaskEnvelopeSent (.refl s) (steady_updateClaim ?_ s))) h) rfl
      exact fun _ => ⟨rfl, rfl⟩
  | setRunSessionStartRetryState runId agentId count nextRetryAt lastError =>
      refine .of_steady (Ensures.snd (Ensures.result
        (steady_updateClaim ?_ s)) h) rfl
      exact fun _ => ⟨rfl, rfl⟩
  | setRunFinalizationState runId agentId u =>
      exact .of_steady ((steady_updateClaim (f := applyFinalization u)
        (fun _ => ⟨rfl, rfl⟩) s).result.snd h) rfl
  | setRunInputState runId agentId inputState requestedAt now =>
      refine .of_steady (Ensures.snd (Ensures.result
        (steady_updateClaim ?_ s)) h) rfl
      exact fun _ => ⟨rfl, rfl⟩
  | setPrRef runId prRef =>
      refine .of_steady (Ensures.snd (Ensures.result
        (steady_updateClaim ?_ s)) h) rfl
      exact fun _ => ⟨rfl, rfl⟩
  | setPrCreatedAt runId createdAt seq =>
      refine .of_steady (Ensures.snd (Ensures.result
        (steady_updateClaim ?_ s)) h) rfl
      exact fun _ => ⟨rfl, rfl⟩
  | expireStaleLeases policy actorId now =>
      obtain ⟨r', hx, -⟩ := result_cases h
      exact ⟨(grounded_expireStaleLeases s).snd hx, .expireStaleLeases hone hx⟩
  | delegateTask args now =>
      exact .of_steady ((steady_delegateTask s).result.snd h) rfl
  | cancelTask ref reason actorId now =>
      exact .of_steady ((steady_cancelTask s).result.snd h) rfl
  | resetTask ref actorId now =>
      exact .of_steady ((steady_resetTask s).result.snd h) rfl
  | unblockTask ref reason actorId now =>
      exact .of_steady ((steady_unblockTask s).snd h) rfl
  | expireRun runId actorId now =>
      exact .of_steady ((steady_expireRun s).snd h) rfl
  | markTaskDoneRuntimeOnly ref actorId now =>
      exact .of_steady ((steady_markTaskDoneRuntimeOnly s).result.snd h) rfl
  | reconcileState now => exact .of_steady ((steady_reconcileState s).snd h) rfl
  | applyLifecycle request time =>
      cases hf : request.finish time with
      | none =>
          refine .of_steady ((steady_applyLifecycle hf).snd h) ?_
          rw [TaskCall.spends, TaskCall.finish, hf]
          · rfl
          · intro _ _ _ hcall
            cases hcall
      | some f =>
          rcases applyLifecycle_finish hf h with rfl | hfinish
          · exact ⟨.refl _, .of_same⟩
          · exact .finishRun hone hf hfinish

theorem Budgeted.perform (dates : DateApi) (registry : Registry)
    (l : TaskCall) {s : Project} (hone : OneActive s.events.runs) (hbound : AllBound s) :
    Budgeted dates l s (l.perform dates registry s) := by
  cases l with
  | call action => exact .action hone hbound (Prod.eta _).symm
  | resetVolatileRuntimeStateForSession now =>
      exact .of_steady (steady_resetVolatileRuntimeStateForSession s) rfl
  | killAll now => exact .of_steady (steady_killAll s) rfl
  | createTask input now => exact .of_steady (steady_createTask s) rfl

/-! ## Every run of calls -/

def Kempt (s : Project) : Prop :=
  OneActive s.events.runs ∧ AllBound s

theorem Kempt.unspent {s : Project} (h : Unspent s) : Kempt s := by
  have hnone : ∀ c, ¬ c ∈ s.events.runs := by
    intro c hc
    rw [Table.mem_rows, h.runs] at hc
    cases hc
  exact ⟨fun c hc => absurd hc (hnone c), fun c hc => absurd hc (hnone c)⟩

theorem Kempt.perform {s : Project} (h : Kempt s) (l : TaskCall) :
    Kempt (l.perform dates registry s) := by
  have hstep := Budgeted.perform dates registry l h.1 h.2
  exact ⟨hstep.grounded.one h.1, hstep.grounded.allBound h.2⟩

theorem Kempt.reachable {s : Project}
    (h : (taskSystem dates registry).Reachable s) : Kempt s := by
  refine h.invariant (fun _ => Kempt.unspent) fun s l t hs ht => ?_
  cases ht
  exact hs.perform l

theorem retired_of_spent {l : TaskCall} {s t : Project} {ref : TaskRef}
    {id : RunId} (hs : AllBound s) (h : Grounded s t)
    (hid : id ∈ spentRuns l s t ref) : ¬ Retired s id ∧ Retired t id := by
  obtain ⟨c, hc, rfl⟩ := List.mem_map.mp hid
  obtain ⟨hc, hspent⟩ := List.mem_filter.mp hc
  obtain ⟨-, -, hactive, hdead, -⟩ := spentBy_iff.mp hspent
  refine ⟨fun hretired => ?_, h.bound _ (hs c hc), hdead⟩
  have hlive := live_iff.mpr ⟨c, hc, rfl, hactive⟩
  rw [hretired.2] at hlive
  cases hlive

/-- A run that spends an attempt is not retired before. -/
theorem not_retired_spentAlong {ref : TaskRef} {calls : List TaskCall}
    {s : Project} (hs : Kempt s) {id : RunId}
    (hid : id ∈ spentAlong dates registry ref s calls) : ¬ Retired s id := by
  induction calls generalizing s with
  | nil => cases hid
  | cons l rest ih =>
      have hstep := Budgeted.perform dates registry l hs.1 hs.2
      rcases List.mem_append.mp hid with hnow | hlater
      · exact (retired_of_spent hs.2 hstep.grounded hnow).1
      · exact fun hretired => ih (hs.perform l) hlater
          (hstep.grounded.retired hretired)

theorem nodup_spentAlong {ref : TaskRef} {calls : List TaskCall} {s : Project}
    (hs : Kempt s) : (spentAlong dates registry ref s calls).Nodup := by
  induction calls generalizing s with
  | nil => exact List.nodup_nil
  | cons l rest ih =>
      have hstep := Budgeted.perform dates registry l hs.1 hs.2
      refine List.nodup_append.mpr ⟨?_, ih (hs.perform l), ?_⟩
      · cases hstep.tasks ref with
        | kept hruns => simp [hruns]
        | spent c e verb current _ _ hruns => simp [hruns]
      · rintro id hnow id' hlater rfl
        exact not_retired_spentAlong (hs.perform l) hlater
          (retired_of_spent hs.2 hstep.grounded hnow).2

theorem attempts_spentAlong {ref : TaskRef} {calls : List TaskCall}
    {s t : Project} (hs : Kempt s)
    (h : (taskSystem dates registry).run s calls = some t) :
    attemptsAt t.tasks ref = attemptsAt s.tasks ref +
      (spentAlong dates registry ref s calls).length := by
  induction calls generalizing s with
  | nil =>
      cases h
      rfl
  | cons l rest ih =>
      obtain ⟨m, hm, hrest⟩ := (taskSystem dates registry).run_cons h
      cases hm
      have hstep := Budgeted.perform dates registry l hs.1 hs.2
      rw [ih (hs.perform l) hrest, (hstep.tasks ref).attempts, spentAlong,
        List.length_append, Nat.add_assoc]

theorem attemptsAt_unspent {s : Project} (h : Unspent s) (ref : TaskRef) :
    attemptsAt s.tasks ref = 0 := by
  unfold attemptsAt
  cases hrow : s.tasks.getTask ref with
  | none => rfl
  | some row => exact h.attempts row (Table.mem_of_find? hrow)

/-! ## Infrastructure failures -/

def effortIn (backlog : Backlog) (ref : TaskRef) : Option (Nat × Option String) :=
  (findTask backlog ref).map fun task =>
    (task.attemptCount, task.requeueEligibleAfter)

theorem effortIn_commitBacklog {s : Project} {backlog : Backlog}
    {changes : TaskStatusChanges} {now : String} {ts : TaskStore} {u : Unit}
    (hrefs : backlog.map Task.ref = s.backlog.map Task.ref)
    (h : commitBacklog backlog changes now s.tasks = .ok (u, ts))
    {ref : TaskRef} {task : Task} (hfind : findTask s.backlog ref = some task)
    {entry : Task} (hentry : findTask backlog ref = some entry)
    (hsame : entry.attemptCount = task.attemptCount ∧
      entry.requeueEligibleAfter = task.requeueEligibleAfter) :
    effortIn (readProjectBacklog ts) ref = effortIn s.backlog ref := by
  obtain ⟨current, row, -, -, -, hafter⟩ := getTask_commitBacklog hrefs h hentry
  obtain ⟨before, -, -, rfl⟩ := getTask_of_findTask hfind
  have hrow : ts.getTask ref = some _ := hafter
  rw [effortIn, findTask_readProjectBacklog, hrow, effortIn, hfind]
  simp only [Option.map_some, Option.some.injEq, Prod.mk.injEq]
  refine ⟨hsame.1, ?_⟩
  change nonEmpty entry.requeueEligibleAfter = _
  rw [hsame.2]
  exact nonEmpty_nonEmpty _

theorem effortIn_finishRun {runId : RunId} {agentId : AgentId}
    {o : FinishOptions} {now : String} {s t : Project}
    {r : Except DomainError Unit} (ho : FinishOptions.spends o = false)
    (h : finishRun dates runId agentId o now s = (r, t)) (ref : TaskRef) :
    effortIn t.backlog ref = effortIn s.backlog ref := by
  have hkept : t.tasks = s.tasks →
      effortIn t.backlog ref = effortIn s.backlog ref := by
    intro htasks
    rw [Project.backlog, htasks]
    rfl
  rcases finishRun_commit h with
    rfl | ⟨claim, -, -, ⟨-, hcommit⟩ | ⟨-, hclear⟩⟩
  · rfl
  · unfold commitFinish at hcommit
    cases htask : taskOfRun s claim with
    | none =>
        simp only [htask] at hcommit
        rcases commitMutated_cases hcommit fun _ => rfl with
          ⟨-, rfl⟩ | ⟨-, -, htasks⟩
        · rfl
        · exact hkept htasks
    | some task =>
        simp only [htask] at hcommit
        rcases commitBoth_cases hcommit with
          ⟨e, -, rfl⟩ | ⟨db, -, ⟨e, -, -, rfl⟩ | ⟨ts, hts, -, rfl⟩⟩
        · rfl
        · rfl
        · have hrefs := finish_refs dates htask o
          have hentry := findTask_finished dates htask o ref
          cases hfind : findTask s.backlog ref with
          | some entry =>
              by_cases hr : ref = claim.taskRef
              · rw [if_pos hr] at hentry
                have hsame := hfind
                rw [hr, (taskOfRun_eq_some htask).1] at hsame
                cases hsame
                exact effortIn_commitBacklog hrefs hts hfind hentry
                  (finishTask_uncounted ho task)
              · rw [if_neg hr, hfind] at hentry
                exact effortIn_commitBacklog hrefs hts hfind hentry ⟨rfl, rfl⟩
          | none =>
              have hnone : ref ∉ (s.backlog.map Task.ref) := by
                intro hmem
                obtain ⟨entry, hin, rfl⟩ := List.mem_map.mp hmem
                rw [Project.backlog, findTask_of_mem
                  (nodup_readProjectBacklog s.tasks) hin] at hfind
                cases hfind
              have hnodup := nodup_readProjectBacklog s.tasks
              have hsame := (commitBacklog_rows (hrefs ▸ hnodup) hts).2 ref
                (hrefs ▸ hnone)
              have hget : ts.getTask ref = s.tasks.getTask ref :=
                congrArg Prod.fst hsame
              rw [effortIn, effortIn, Project.backlog, Project.backlog,
                findTask_readProjectBacklog, findTask_readProjectBacklog,
                setTasks_tasks, hget]
  · rcases commitMutated_cases hclear fun _ => rfl with
      ⟨-, rfl⟩ | ⟨-, -, htasks⟩
    · rfl
    · exact hkept htasks

theorem effortIn_infra {l : TaskCall} {f : Finish} {s : Project}
    (hl : l.finish = some f) (hinfra : isInfraFailure f.o.failureCode = true)
    (ref : TaskRef) :
    effortIn (l.perform dates registry s).backlog ref =
      effortIn s.backlog ref := by
  have ho : FinishOptions.spends f.o = false := by
    simp [FinishOptions.spends, hinfra]
  cases l with
  | call action =>
      cases action with
      | finishRun runId agentId o now =>
          cases hl
          exact effortIn_finishRun ho (Prod.eta _).symm ref
      | applyLifecycle request time =>
          rcases applyLifecycle_finish hl
              (Prod.eta (applyLifecycle dates request time s)).symm with
            hsame | hfinish
          · change effortIn (applyLifecycle dates request time s).2.backlog ref = _
            rw [hsame]
          · exact effortIn_finishRun ho hfinish ref
      | _ => cases hl
  | resetVolatileRuntimeStateForSession now => cases hl
  | killAll now => cases hl
  | createTask input now => cases hl

/-! ## The budget -/

def withoutReason (row : ProjectTask) : ProjectTask :=
  { row with blockedReason := none }

theorem spent_row {l : TaskCall} {s t : Project} {ref : TaskRef}
    (h : SpentAt dates l s t ref) (hspent : spentRuns l s t ref ≠ []) :
    ∃ e verb current, l.endTime dates = some e ∧
      s.tasks.getTask ref = some current ∧
      t.tasks.getTask ref = some (spentRow dates e (l.stamp dates) verb current) := by
  cases h with
  | kept hruns => exact absurd hruns hspent
  | spent c e verb current _ _ _ htime hbefore hafter =>
      exact ⟨e, verb, current, htime, hbefore, hafter⟩

theorem attempts_budgeted {s₀ s : Project} {calls : List TaskCall}
    (h₀ : Unspent s₀)
    (hrun : (taskSystem dates registry).run s₀ calls = some s)
    (ref : TaskRef) :
    ((spentAlong dates registry ref s₀ calls).Nodup ∧
      attemptsAt s.tasks ref =
        (spentAlong dates registry ref s₀ calls).length) ∧
    (∀ l, spentRuns l s (l.perform dates registry s) ref ≠ [] →
      ∃ e verb row, l.endTime dates = some e ∧
        (l.perform dates registry s).tasks.getTask ref = some row ∧
        BudgetKept dates e verb row) ∧
    (∀ l f, TaskCall.finish l = some f →
      isInfraFailure f.o.failureCode = true →
      effortIn (l.perform dates registry s).backlog ref =
        effortIn s.backlog ref) ∧
    ∀ l l' s', (taskSystem dates registry).Reachable s' →
      s'.tasks.getTask ref = s.tasks.getTask ref →
      spentRuns l s (l.perform dates registry s) ref ≠ [] →
      spentRuns l' s' (l'.perform dates registry s') ref ≠ [] →
      l'.endTime dates = l.endTime dates → l'.stamp dates = l.stamp dates →
      ((l'.perform dates registry s').tasks.getTask ref).map withoutReason =
        ((l.perform dates registry s).tasks.getTask ref).map withoutReason := by
  have hreach : (taskSystem dates registry).Reachable s :=
    .run (.initial h₀) hrun
  have hs := Kempt.reachable hreach
  refine ⟨⟨nodup_spentAlong (.unspent h₀), ?_⟩, fun l hspent => ?_,
    fun l f hl hinfra => effortIn_infra hl hinfra ref,
    fun l l' s' hs' hsame hspent hspent' htime hstamp => ?_⟩
  · rw [attempts_spentAlong (.unspent h₀) hrun, attemptsAt_unspent h₀,
      Nat.zero_add]
  · obtain ⟨e, verb, current, htime, -, hafter⟩ :=
      spent_row ((Budgeted.perform dates registry l hs.1 hs.2).tasks ref) hspent
    exact ⟨e, verb, _, htime, hafter, spentRow_kept e _ verb current⟩
  · have hkempt := Kempt.reachable hs'
    obtain ⟨e, verb, current, hend, hbefore, hafter⟩ :=
      spent_row ((Budgeted.perform dates registry l hs.1 hs.2).tasks ref) hspent
    obtain ⟨e', verb', current', hend', hbefore', hafter'⟩ :=
      spent_row ((Budgeted.perform dates registry l' hkempt.1 hkempt.2).tasks ref) hspent'
    rw [hsame, hbefore] at hbefore'
    cases hbefore'
    rw [htime, hend] at hend'
    cases hend'
    rw [hafter, hafter', hstamp, Option.map_some, Option.map_some]
    exact congrArg some (spentRow_verb e _ verb' verb current)

/-! ## One task, a failure and an expiry -/

theorem unspent_oneTask : Unspent oneTask where
  toFresh := fresh_oneTask
  attempts task htask := by
    cases List.mem_singleton.mp htask
    rfl

def failAndExpire : List TaskCall :=
  claimAndStart.map .call ++
    [.call (.finishRun "run-1" "worker"
      { success := false, time := DateApi.epoch.toISOString 3 }
      (DateApi.epoch.toISOString 3)),
    .killAll (DateApi.epoch.toISOString 3),
    .call (.claimTask "docs/intro" "worker" 3 "run-2" (.ok ()) 4),
    .call (.expireStaleLeases "requeue" "coordinator" 8)]

theorem attempts_budgeted_twice :
    ∃ s, (taskSystem .epoch soloRegistry).run oneTask failAndExpire = some s ∧
      spentAlong .epoch soloRegistry "docs/intro" oneTask failAndExpire =
        ["run-1", "run-2"] ∧
      attemptsAt s.tasks "docs/intro" = 2 := by
  obtain ⟨s, hs, -⟩ :=
    (taskSystem .epoch soloRegistry).exists_run_of_map (f := fun _ => ())
      (by decide +kernel : ((taskSystem .epoch soloRegistry).run oneTask
        failAndExpire).map (fun _ => ()) = some ())
  have hspent : spentAlong .epoch soloRegistry "docs/intro" oneTask
      failAndExpire = ["run-1", "run-2"] := by decide +kernel
  have hcount := (attempts_budgeted unspent_oneTask hs "docs/intro").1.2
  rw [hspent] at hcount
  exact ⟨s, hs, hspent, hcount⟩

end OrcState.Lifecycle
