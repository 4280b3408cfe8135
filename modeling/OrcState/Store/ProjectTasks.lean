import OrcState.Store.ProjectTaskStore
import Mathlib.Data.List.Sort
import Mathlib.Data.List.Nodup

/-!
# The backlog of a project

Lifecycle code reads the backlog shape from SQLite, mutates task entries, and
commits the whole of it back in one transaction: each changed status becomes a
transition with its named cause, dispatch fields and attempt counts are stored,
and a changed definition is refused.  The `updated_at` an operation sets on its
entry is ignored by the commit, which stamps the row itself.
-/

namespace OrcState.Store

open OrcState.Contract OrcState.Foundation

/-! ## Reading -/

/-- `task.metadata.feature`, else `task.ref.split('/')[0]`. -/
def featureRefOf (task : ProjectTask) : String :=
  task.feature.getD (String.ofList (task.ref.toList.takeWhile (· ≠ '/')))

def nonEmpty (value : Option String) : Option String :=
  value.filter fun s => s ≠ ""

theorem nonEmpty_nonEmpty (value : Option String) :
    nonEmpty (nonEmpty value) = nonEmpty value := by
  simp [nonEmpty, Option.filter_filter]

def projectTaskToBacklogTask (task : ProjectTask) : Task where
  ref := task.ref
  featureRef := featureRefOf task
  status := task.status
  taskType :=
    (task.dispatch.taskType.or task.metaTaskType).getD .implementation
  planningState := task.dispatch.planningState
  delegatedBy := nonEmpty task.dispatch.delegatedBy
  attemptCount := task.attemptCount
  requeueEligibleAfter := nonEmpty task.dispatch.requeueEligibleAfter
  blockedReason := nonEmpty task.blockedReason
  owner := nonEmpty task.dispatch.owner
  definition := task.definition

abbrev Backlog := List Task

def readProjectBacklog (ts : TaskStore) : Backlog :=
  let tasks := ts.tasks.rows.map projectTaskToBacklogTask
  (tasks.map Task.featureRef).eraseDups.flatMap fun feature =>
    tasks.filter fun task => task.featureRef = feature

def findTask (backlog : Backlog) (ref : TaskRef) : Option Task :=
  backlog.find? fun task => task.ref = ref

def mutateTask (backlog : Backlog) (ref : TaskRef) (f : Task → Task) :
    Backlog :=
  backlog.map fun task => if task.ref = ref then f task else task

/-! ## Committing -/

structure TaskStatusChange where
  cause : TaskTransitionCause
  reason : Option String := none
  runId : Option RunId := none
  actorId : Option AgentId := none
  idempotencyKey : Option String := none
  deriving DecidableEq, Repr

/-- `changes[ref]`, the latest assignment first. -/
abbrev TaskStatusChanges := List (TaskRef × TaskStatusChange)

/-- Lists compare as sets of strings: absent, null and empty are the same. -/
def TaskDefinition.normalized (definition : TaskDefinition) : TaskDefinition :=
  { definition with
    dependsOn := definition.dependsOn.insertionSort (· ≤ ·)
    acceptanceCriteria := definition.acceptanceCriteria.insertionSort (· ≤ ·)
    requiredCapabilities :=
      definition.requiredCapabilities.insertionSort (· ≤ ·) }

def recordStart (task : Task) (current : ProjectTask)
    (change : TaskStatusChange) (now : String) : Tasks Unit :=
  if change.cause = .mergeSucceeded ∧ current.status = .claimed then
    applyTransition task.ref
      { cause := .runStart, toStatus := .inProgress, runId := change.runId
        actorId := change.actorId } now
  else pure ()

def transitionReason (task : Task) (change : TaskStatusChange) :
    Option String :=
  if task.status = .blocked then
    some ((change.reason.or task.blockedReason).getD change.cause.text)
  else change.reason

def commitStatus (changes : TaskStatusChanges) (task : Task)
    (current : ProjectTask) (now : String) : Tasks Unit :=
  if task.status = current.status then pure () else do
    let change ← Txn.orThrow (changes.lookup task.ref)
      (plainError ("Task " ++ task.ref ++ " status change " ++
        current.status.text ++ " -> " ++ task.status.text ++
        " has no lifecycle cause"))
    recordStart task current change now
    applyTransition task.ref
      { cause := change.cause, toStatus := task.status, runId := change.runId
        actorId := change.actorId, idempotencyKey := change.idempotencyKey
        reason := transitionReason task change } now

def committedTaskType (task : Task) (current : ProjectTask) :
    Option TaskType :=
  if task.taskType ≠ current.metaTaskType.getD .implementation then
    some task.taskType
  else current.dispatch.taskType

def committedDispatch (task : Task) (current : ProjectTask) :
    TaskDispatchState where
  owner := task.owner
  planningState := task.planningState
  delegatedBy := task.delegatedBy
  taskType := committedTaskType task current
  requeueEligibleAfter := task.requeueEligibleAfter

def commitTask (changes : TaskStatusChanges) (now : String) (task : Task) :
    Tasks Unit := do
  let ts ← get
  let current ← Txn.orThrow (ts.getTask task.ref)
    (plainError ("Task " ++ task.ref ++
      " is not in project SQLite; create it through the task API"))
  Txn.throwIf (TaskDefinition.normalized task.definition ≠
      TaskDefinition.normalized (projectTaskToBacklogTask current).definition)
    (plainError ("Task " ++ task.ref ++
      " definition fields change only through a spec revision"))
  commitStatus changes task current now
  setDispatchState task.ref (committedDispatch task current) task.attemptCount

def commitBacklog (backlog : Backlog) (changes : TaskStatusChanges)
    (now : String) : Tasks Unit :=
  backlog.forM (commitTask changes now)

/-- A run may finish only once the coordinator has recorded the merge. -/
def assertRunMayFinish (ts : TaskStore) (ref : TaskRef) :
    Except DomainError Unit :=
  if (ts.getTask ref).any fun task => task.status.merged then .ok ()
  else
    .error (conflictError ("run-finish for " ++ ref ++
      " must wait until the coordinator records the merge (task status: " ++
      ((ts.getTask ref).map fun task => task.status.text).getD "missing" ++
      "); run run-work-complete and wait for FINALIZE_SUCCESS"))

/-! ## What is read -/

theorem mem_readProjectBacklog {ts : TaskStore} {task : Task} :
    task ∈ readProjectBacklog ts ↔
      ∃ row, row ∈ ts.tasks ∧ projectTaskToBacklogTask row = task := by
  simp only [readProjectBacklog, List.mem_flatMap, List.mem_eraseDups,
    List.mem_filter, List.mem_map, decide_eq_true_eq]
  constructor
  · rintro ⟨_, _, ⟨row, hrow, rfl⟩, -⟩
    exact ⟨row, hrow, rfl⟩
  · rintro ⟨row, hrow, rfl⟩
    exact ⟨_, ⟨_, ⟨row, hrow, rfl⟩, rfl⟩, ⟨row, hrow, rfl⟩, rfl⟩

theorem nodup_eraseDups {α : Type} [DecidableEq α] :
    ∀ l : List α, l.eraseDups.Nodup
  | [] => by simp
  | a :: rest => by
      rw [List.eraseDups_cons, List.nodup_cons]
      refine ⟨?_, nodup_eraseDups _⟩
      simp [List.mem_eraseDups]
termination_by l => l.length
decreasing_by
  have := List.length_filter_le (fun b => !b == a) rest
  simp only [List.length_cons]
  omega

theorem nodup_readProjectBacklog (ts : TaskStore) :
    ((readProjectBacklog ts).map Task.ref).Nodup := by
  have hrefs : ((ts.tasks.rows.map projectTaskToBacklogTask).map
      Task.ref).Nodup := by
    rw [List.map_map]
    exact ts.tasks.nodup
  rw [readProjectBacklog, List.map_flatMap, List.nodup_flatMap]
  refine ⟨fun feature _ => ?_, ?_⟩
  · exact hrefs.sublist (List.filter_sublist.map Task.ref)
  · refine (nodup_eraseDups _).imp fun {x y} hxy => ?_
    intro ref hx hy
    obtain ⟨t, ht, rfl⟩ := List.mem_map.mp hx
    obtain ⟨t', ht', href⟩ := List.mem_map.mp hy
    simp only [List.mem_filter, decide_eq_true_eq] at ht ht'
    rw [List.inj_on_of_nodup_map hrefs ht'.1 ht.1 href] at ht'
    exact hxy (ht.2.symm.trans ht'.2)

theorem findTask_eq_some {backlog : Backlog} {ref : TaskRef} {task : Task}
    (h : findTask backlog ref = some task) : task ∈ backlog ∧ task.ref = ref :=
  ⟨List.mem_of_find?_eq_some h, by simpa using List.find?_some h⟩

theorem findTask_of_mem {backlog : Backlog}
    (hnodup : (backlog.map Task.ref).Nodup) {task : Task}
    (h : task ∈ backlog) : findTask backlog task.ref = some task := by
  cases hf : findTask backlog task.ref with
  | none =>
      have := List.find?_eq_none.mp hf task h
      simp at this
  | some task' =>
      obtain ⟨hmem, href⟩ := findTask_eq_some hf
      rw [List.inj_on_of_nodup_map hnodup hmem h href]

theorem findTask_readProjectBacklog (ts : TaskStore) (ref : TaskRef) :
    findTask (readProjectBacklog ts) ref =
      (ts.getTask ref).map projectTaskToBacklogTask := by
  cases h : ts.getTask ref with
  | none =>
      refine List.find?_eq_none.mpr fun task htask href => ?_
      obtain ⟨row, hrow, rfl⟩ := mem_readProjectBacklog.mp htask
      have hkey : row.ref = ref := by
        simpa [projectTaskToBacklogTask] using href
      exact Table.find?_eq_none.mp h row hrow hkey
  | some row =>
      obtain ⟨hrow, rfl⟩ := Table.find?_eq_some.mp h
      exact findTask_of_mem (nodup_readProjectBacklog ts)
        (mem_readProjectBacklog.mpr ⟨row, hrow, rfl⟩)

/-! ## What a commit does to one task -/

/-- Only a blocked task keeps a reason. -/
def ProjectTask.Tidy (task : ProjectTask) : Prop :=
  task.status ≠ .blocked → task.blockedReason = none

def TaskStatusChange.Ordinary (change : TaskStatusChange) : Prop :=
  change.idempotencyKey = none ∧ change.cause ≠ .migrationImport

def TaskTransitionCause.allows (cause : TaskTransitionCause)
    (fromStatus toStatus : TaskStatus) : Bool :=
  transitionsValidate cause
    (if cause = .mergeSucceeded ∧ fromStatus = .claimed then .inProgress
      else fromStatus) toStatus false

structure Transitioned (ts ts' : TaskStore) (current : ProjectTask)
    (toStatus : TaskStatus) (closed : Bool) : Prop where
  row : ∃ row, ts'.getTask current.ref = some row ∧ row.ref = current.ref ∧
    row.status = toStatus ∧ row.definition = current.definition ∧
    ProjectTask.Tidy row
  other : ∀ r, r ≠ current.ref → ts'.getTask r = ts.getTask r
  runs : ∀ r, ts'.runsAt r =
    if r = current.ref ∧ closed = true then ∅ else ts.runsAt r
  bound : ∀ id, ts'.Bound id ↔ ts.Bound id

theorem Transitioned.of_transitioned {ts : TaskStore} {current : ProjectTask}
    (h : ts.getTask current.ref = some current) (input : TaskTransitionInput)
    (now : String) :
    Transitioned ts (ts.transitioned current input now) current input.toStatus
      (TaskTransitionCause.closes input.cause current.status) := by
  have hget : ∀ r, (ts.transitioned current input now).getTask r =
      if r = current.ref then
        (ts.getTask r).map (ProjectTask.moved input.toStatus input.reason now)
      else ts.getTask r := by
    intro r
    rw [TaskStore.getTask, transitioned_tasks, Table.find?_update]
    rfl
  refine ⟨⟨ProjectTask.moved input.toStatus input.reason now current, ?_, rfl,
      rfl, rfl, fun hto => if_neg hto⟩,
    fun r hr => ?_, fun r => runsAt_transitioned ts current input now r,
    fun id => bound_transitioned⟩
  · rw [hget, if_pos rfl, h]
    rfl
  · rw [hget, if_neg hr]

theorem lookup_ordinary {changes : TaskStatusChanges} {ref : TaskRef}
    {change : TaskStatusChange}
    (hord : ∀ p ∈ changes, TaskStatusChange.Ordinary p.2)
    (h : changes.lookup ref = some change) :
    TaskStatusChange.Ordinary change := by
  obtain ⟨l, l', heq, -⟩ := List.lookup_eq_some_iff.mp h
  exact hord (ref, change) (by rw [heq]; simp)

theorem Transitioned.trans {ts ts' ts'' : TaskStore}
    {current started : ProjectTask} {mid toStatus : TaskStatus} {c c' : Bool}
    (href : started.ref = current.ref)
    (h : Transitioned ts ts' current mid c)
    (h' : Transitioned ts' ts'' started toStatus c')
    (hdef : started.definition = current.definition) :
    Transitioned ts ts'' current toStatus (c || c') := by
  obtain ⟨row, hrow, hrowref, hstatus, hrowdef, htidy⟩ := h'.row
  rw [href] at hrow hrowref
  refine ⟨⟨row, hrow, hrowref, hstatus, hrowdef.trans hdef, htidy⟩,
    fun r hr => ?_, fun r => ?_, fun id => (h'.bound id).trans (h.bound id)⟩
  · rw [h'.other r (by rwa [href]), h.other r hr]
  · rw [h'.runs r, h.runs r, href]
    by_cases hr : r = current.ref <;> cases c <;> cases c' <;> simp [hr]

theorem commitStatus_ok {changes : TaskStatusChanges} {task : Task}
    {current : ProjectTask} {now : String} {ts ts' : TaskStore} {u : Unit}
    (hord : ∀ p ∈ changes, TaskStatusChange.Ordinary p.2)
    (hcurrent : ts.getTask task.ref = some current)
    (h : commitStatus changes task current now ts = .ok (u, ts')) :
    (task.status = current.status ∧ ts' = ts) ∨
      task.status ≠ current.status ∧
      ∃ change, changes.lookup task.ref = some change ∧
        TaskTransitionCause.allows change.cause current.status task.status =
          true ∧
        (task.status = .blocked →
          hasText (transitionReason task change) = true) ∧
        Transitioned ts ts' current task.status
          (TaskTransitionCause.closes change.cause current.status) := by
  have href : current.ref = task.ref := Table.key_of_find? hcurrent
  unfold commitStatus at h
  split at h
  · rename_i hsame
    exact .inl ⟨hsame, (Txn.pure_ok.mp h).2.symm⟩
  · rename_i hne
    simp only [Txn.bind_ok, Txn.orThrow_ok] at h
    obtain ⟨change, _, ⟨hchange, rfl⟩, _, m, hstart, hmove⟩ := h
    obtain ⟨hkey, hmigration⟩ := lookup_ordinary hord hchange
    refine .inr ⟨hne, change, hchange, ?_⟩
    obtain ⟨started, hstarted, hvalid, hreason, rfl⟩ :=
      applyTransition_ok hkey hmove
    have hsref : started.ref = task.ref := Table.key_of_find? hstarted
    rw [transitionsValidate_first hmigration] at hvalid
    have hsecond := Transitioned.of_transitioned (hsref.symm ▸ hstarted)
      { cause := change.cause, toStatus := task.status, runId := change.runId
        actorId := change.actorId, idempotencyKey := change.idempotencyKey
        reason := transitionReason task change } now
    unfold recordStart at hstart
    unfold TaskTransitionCause.allows
    split at hstart
    · rename_i hmerge
      rw [if_pos hmerge]
      obtain ⟨current', hcurrent', -, -, rfl⟩ := applyTransition_ok rfl hstart
      rw [hcurrent] at hcurrent'
      cases hcurrent'
      have hfirst := Transitioned.of_transitioned (href.symm ▸ hcurrent)
        { cause := .runStart, toStatus := .inProgress, runId := change.runId
          actorId := change.actorId } now
      obtain ⟨row, hrow, -, hstatus, hdef, -⟩ := hfirst.row
      rw [href, hstarted] at hrow
      cases hrow
      rw [hstatus] at hvalid
      refine ⟨hvalid, hreason, ?_⟩
      have hboth := hfirst.trans (hsref.trans href.symm) hsecond hdef
      simpa [TaskTransitionCause.closes, runStateForCause, hmerge.1, hmerge.2,
        hstatus, TaskStatus.running] using hboth
    · rename_i hmerge
      rw [if_neg hmerge]
      cases (Txn.pure_ok.mp hstart).2
      rw [hcurrent] at hstarted
      cases hstarted
      exact ⟨hvalid, hreason, hsecond⟩

structure CommitAt (changes : TaskStatusChanges) (task : Task)
    (ts ts' : TaskStore) (current row : ProjectTask) : Prop where
  before : ts.getTask task.ref = some current
  after : ts'.getTask task.ref = some row
  status : row.status = task.status
  definition : row.definition = current.definition
  tidy : ProjectTask.Tidy current → ProjectTask.Tidy row
  runs : (task.status = current.status ∧
      ts'.runsAt task.ref = ts.runsAt task.ref) ∨
    task.status ≠ current.status ∧
    ∃ change, changes.lookup task.ref = some change ∧
      TaskTransitionCause.allows change.cause current.status task.status =
        true ∧
      (task.status = .blocked →
        hasText (transitionReason task change) = true) ∧
      ts'.runsAt task.ref =
        if TaskTransitionCause.closes change.cause current.status = true then ∅
        else ts.runsAt task.ref

theorem getTask_dispatched (ts : TaskStore) (ref : TaskRef)
    (state : TaskDispatchState) (n : Nat) (r : TaskRef) :
    TaskStore.getTask { ts with
      tasks := ts.tasks.update ref (ProjectTask.dispatched state n)
        (dispatched_ref state n) } r =
      if r = ref then (ts.getTask r).map (ProjectTask.dispatched state n)
      else ts.getTask r :=
  Table.find?_update ts.tasks ref _ (dispatched_ref state n) r

theorem commitTask_ok {changes : TaskStatusChanges} {task : Task}
    {now : String} {ts ts' : TaskStore} {u : Unit}
    (hord : ∀ p ∈ changes, TaskStatusChange.Ordinary p.2)
    (h : commitTask changes now task ts = .ok (u, ts')) :
    (∃ current row, CommitAt changes task ts ts' current row) ∧
      (∀ r, r ≠ task.ref → ts'.getTask r = ts.getTask r ∧
        ts'.runsAt r = ts.runsAt r) ∧
      ∀ id, ts'.Bound id ↔ ts.Bound id := by
  simp only [commitTask, Txn.bind_ok, Txn.get_ok, Txn.orThrow_ok,
    Txn.throwIf_ok, setDispatchState, Txn.modify_ok] at h
  obtain ⟨_, _, ⟨rfl, rfl⟩, current, _, ⟨hcurrent, rfl⟩, _, _, ⟨-, rfl⟩, _, m,
    hstatus, rfl⟩ := h
  have href : current.ref = task.ref := Table.key_of_find? hcurrent
  rcases commitStatus_ok hord hcurrent hstatus with
    ⟨hsame, rfl⟩ | ⟨hne, change, hchange, hallows, hreason, hmove⟩
  · refine ⟨⟨current, ProjectTask.dispatched (committedDispatch task current)
        task.attemptCount current, hcurrent, ?_, hsame.symm, rfl, id,
        .inl ⟨hsame, rfl⟩⟩,
      fun r hr => ⟨?_, rfl⟩, fun _ => Iff.rfl⟩
    · rw [getTask_dispatched, if_pos rfl, hcurrent]
      rfl
    · rw [getTask_dispatched, if_neg hr]
  · obtain ⟨row, hrow, hrowref, hrowstatus, hrowdef, htidy⟩ := hmove.row
    rw [href] at hrow
    refine ⟨⟨current, ProjectTask.dispatched (committedDispatch task current)
        task.attemptCount row, hcurrent, ?_, hrowstatus, hrowdef,
        fun _ => htidy, .inr ⟨hne, change, hchange, hallows, hreason, ?_⟩⟩,
      fun r hr => ⟨?_, ?_⟩, hmove.bound⟩
    · rw [getTask_dispatched, if_pos rfl, hrow]
      rfl
    · have hruns := hmove.runs task.ref
      simp only [href, true_and] at hruns
      exact hruns
    · rw [getTask_dispatched, if_neg hr]
      exact hmove.other r (by rwa [href])
    · have hruns := hmove.runs r
      rw [if_neg (by simp [href, hr])] at hruns
      exact hruns

/-- A commit of the whole backlog commits each entry against its own task. -/
theorem commitBacklog_ok {changes : TaskStatusChanges} {backlog : Backlog}
    {now : String} {ts ts' : TaskStore} {u : Unit}
    (hord : ∀ p ∈ changes, TaskStatusChange.Ordinary p.2)
    (hnodup : (backlog.map Task.ref).Nodup)
    (h : commitBacklog backlog changes now ts = .ok (u, ts')) :
    (∀ task ∈ backlog, ∃ current row,
        CommitAt changes task ts ts' current row) ∧
      (∀ r, r ∉ backlog.map Task.ref → ts'.getTask r = ts.getTask r ∧
        ts'.runsAt r = ts.runsAt r) ∧
      ∀ id, ts'.Bound id ↔ ts.Bound id := by
  unfold commitBacklog at h
  induction backlog generalizing ts with
  | nil =>
      cases Txn.forM_nil_ok.mp h
      exact ⟨by simp, fun _ _ => ⟨rfl, rfl⟩, fun _ => Iff.rfl⟩
  | cons task rest ih =>
      obtain ⟨m, htask, hrest⟩ := Txn.forM_cons_ok.mp h
      rw [List.map_cons, List.nodup_cons] at hnodup
      obtain ⟨⟨current, row, hat⟩, hother, hbound⟩ := commitTask_ok hord htask
      obtain ⟨hall, hothers, hbounds⟩ := ih hnodup.2 hrest
      refine ⟨fun t ht => ?_, fun r hr => ?_,
        fun id => (hbounds id).trans (hbound id)⟩
      · rcases List.mem_cons.mp ht with rfl | ht
        · obtain ⟨hget, hruns⟩ := hothers t.ref hnodup.1
          exact ⟨current, row, hat.before, by rw [hget, hat.after],
            hat.status, hat.definition, hat.tidy, by rw [hruns]; exact hat.runs⟩
        · obtain ⟨current', row', hat'⟩ := hall t ht
          have hne : t.ref ≠ task.ref := by
            intro heq
            exact hnodup.1 (heq ▸ List.mem_map_of_mem ht)
          obtain ⟨hget, hruns⟩ := hother t.ref hne
          exact ⟨current', row', by rw [← hget, hat'.before], hat'.after,
            hat'.status, hat'.definition, hat'.tidy,
            by rw [← hruns]; exact hat'.runs⟩
      · rw [List.map_cons, List.mem_cons, not_or] at hr
        obtain ⟨hget, hruns⟩ := hother r hr.1
        obtain ⟨hget', hruns'⟩ := hothers r hr.2
        exact ⟨hget'.trans hget, hruns'.trans hruns⟩

/-! ## Commits of a mutated backlog -/

theorem refs_mutateTask {backlog : Backlog} {ref : TaskRef} {f : Task → Task}
    (hf : ∀ task, task.ref = ref → (f task).ref = ref) :
    (mutateTask backlog ref f).map Task.ref = backlog.map Task.ref := by
  rw [mutateTask, List.map_map]
  refine List.map_congr_left fun task _ => ?_
  simp only [Function.comp]
  split
  · rename_i h
    rw [hf task h, h]
  · rfl

theorem findTask_mutateTask {backlog : Backlog} {ref : TaskRef}
    {f : Task → Task} (hf : ∀ task, task.ref = ref → (f task).ref = ref)
    (r : TaskRef) :
    findTask (mutateTask backlog ref f) r =
      if r = ref then (findTask backlog r).map f else findTask backlog r := by
  have hkeys : ∀ task, (if task.ref = ref then f task else task).ref =
      task.ref := by
    intro task
    split
    · rename_i h
      rw [hf task h, h]
    · rfl
  have hcomp : (fun task => decide (task.ref = r)) ∘
      (fun task => if task.ref = ref then f task else task) =
        fun task => decide (task.ref = r) := by
    funext task
    simp only [Function.comp, hkeys]
  simp only [findTask, mutateTask, List.find?_map, hcomp]
  cases h : backlog.find? fun task => decide (task.ref = r) with
  | none => simp
  | some task =>
      have href : task.ref = r := by simpa using List.find?_some h
      split
      · rename_i hr
        simp [href, hr]
      · rename_i hr
        simp [href, hr]

theorem commitBacklog_at {changes : TaskStatusChanges} {backlog : Backlog}
    {now : String} {ts ts' : TaskStore} {u : Unit}
    (hord : ∀ p ∈ changes, TaskStatusChange.Ordinary p.2)
    (hrefs : backlog.map Task.ref = (readProjectBacklog ts).map Task.ref)
    (h : commitBacklog backlog changes now ts = .ok (u, ts')) (r : TaskRef) :
    (ts.getTask r = none ∧ ts'.getTask r = none ∧
        ts'.runsAt r = ts.runsAt r) ∨
      ∃ entry current row, findTask backlog r = some entry ∧ entry.ref = r ∧
        CommitAt changes entry ts ts' current row := by
  have hnodup : (backlog.map Task.ref).Nodup :=
    hrefs ▸ nodup_readProjectBacklog ts
  obtain ⟨hall, hother, -⟩ := commitBacklog_ok hord hnodup h
  by_cases hr : r ∈ backlog.map Task.ref
  · obtain ⟨entry, hentry, rfl⟩ := List.mem_map.mp hr
    obtain ⟨current, row, hat⟩ := hall entry hentry
    exact .inr ⟨entry, current, row, findTask_of_mem hnodup hentry, rfl, hat⟩
  · obtain ⟨hget, hruns⟩ := hother r hr
    have hnone : ts.getTask r = none := by
      cases hrow : ts.getTask r with
      | none => rfl
      | some row =>
          have hfind := findTask_readProjectBacklog ts r
          rw [hrow] at hfind
          obtain ⟨hmem, href⟩ := findTask_eq_some hfind
          refine absurd ?_ hr
          rw [hrefs]
          exact href ▸ List.mem_map_of_mem hmem
    exact .inl ⟨hnone, hget.trans hnone, hruns⟩

/-! ## When a commit is accepted -/

/-- The entry's definition is untouched and its change of status is lawful. -/
def Acceptable (changes : TaskStatusChanges) (ts : TaskStore) (task : Task) :
    Prop :=
  ∃ current, ts.getTask task.ref = some current ∧
    task.definition = current.definition ∧
    (task.status = current.status ∨
      ∃ change, changes.lookup task.ref = some change ∧
        TaskTransitionCause.allows change.cause current.status task.status =
          true ∧
        (task.status = .blocked →
          hasText (transitionReason task change) = true))

theorem commitStatus_total {changes : TaskStatusChanges} {task : Task}
    {current : ProjectTask} (now : String) {ts : TaskStore}
    (hord : ∀ p ∈ changes, TaskStatusChange.Ordinary p.2)
    (hcurrent : ts.getTask task.ref = some current)
    (h : task.status = current.status ∨
      ∃ change, changes.lookup task.ref = some change ∧
        TaskTransitionCause.allows change.cause current.status task.status =
          true ∧
        (task.status = .blocked →
          hasText (transitionReason task change) = true)) :
    ∃ ts', commitStatus changes task current now ts = .ok ((), ts') := by
  have href : current.ref = task.ref := Table.key_of_find? hcurrent
  unfold commitStatus
  split
  · exact ⟨ts, rfl⟩
  · rename_i hne
    obtain ⟨change, hchange, hallows, hreason⟩ := h.resolve_left hne
    obtain ⟨hkey, hmigration⟩ := lookup_ordinary hord hchange
    unfold TaskTransitionCause.allows at hallows
    have hmove : ∀ m started, m.getTask task.ref = some started →
        started.status =
          (if change.cause = .mergeSucceeded ∧ current.status = .claimed then
            .inProgress else current.status) →
        ∃ ts', applyTransition task.ref
          { cause := change.cause, toStatus := task.status
            runId := change.runId, actorId := change.actorId
            idempotencyKey := change.idempotencyKey
            reason := transitionReason task change } now m =
          .ok ((), ts') := by
      intro m started hstarted hstatus
      refine ⟨_, applyTransition_eq now hkey hstarted ?_ hreason⟩
      rw [transitionsValidate_first hmigration, hstatus]
      exact hallows
    simp only [Txn.bind_ok, Txn.orThrow_ok]
    by_cases hmerge : change.cause = .mergeSucceeded ∧
        current.status = .claimed
    · have hstart : applyTransition task.ref
          { cause := .runStart, toStatus := .inProgress
            runId := change.runId, actorId := change.actorId } now ts = _ :=
        applyTransition_eq now rfl hcurrent (by rw [hmerge.2]; rfl)
          (fun h => by cases h)
      obtain ⟨row, hrow, -, hstatus, -⟩ :=
        (Transitioned.of_transitioned (href.symm ▸ hcurrent)
          { cause := .runStart, toStatus := .inProgress
            runId := change.runId, actorId := change.actorId } now).row
      rw [href] at hrow
      obtain ⟨ts', hts'⟩ := hmove _ row hrow (by rw [if_pos hmerge, hstatus])
      refine ⟨ts', change, ts, ⟨hchange, rfl⟩, (), _, ?_, hts'⟩
      rw [recordStart, if_pos hmerge]
      exact hstart
    · obtain ⟨ts', hts'⟩ := hmove ts current hcurrent (by rw [if_neg hmerge])
      refine ⟨ts', change, ts, ⟨hchange, rfl⟩, (), ts, ?_, hts'⟩
      rw [recordStart, if_neg hmerge]
      rfl

theorem commitTask_total {changes : TaskStatusChanges} {task : Task}
    (now : String) {ts : TaskStore}
    (hord : ∀ p ∈ changes, TaskStatusChange.Ordinary p.2)
    (h : Acceptable changes ts task) :
    ∃ ts', commitTask changes now task ts = .ok ((), ts') := by
  obtain ⟨current, hcurrent, hdef, hstatus⟩ := h
  obtain ⟨m, hm⟩ := commitStatus_total now hord hcurrent hstatus
  have hnormal : ¬ TaskDefinition.normalized task.definition ≠
      TaskDefinition.normalized
        (projectTaskToBacklogTask current).definition := by
    rw [hdef]
    exact fun h => h rfl
  simp only [commitTask, Txn.bind_ok, Txn.get_ok, Txn.orThrow_ok,
    Txn.throwIf_ok, setDispatchState, Txn.modify_ok]
  exact ⟨_, ts, ts, ⟨rfl, rfl⟩, current, ts, ⟨hcurrent, rfl⟩, (), ts,
    ⟨hnormal, rfl⟩, (), m, hm, rfl⟩

theorem commitBacklog_total {changes : TaskStatusChanges} {backlog : Backlog}
    (now : String) {ts : TaskStore}
    (hord : ∀ p ∈ changes, TaskStatusChange.Ordinary p.2)
    (hnodup : (backlog.map Task.ref).Nodup)
    (h : ∀ task ∈ backlog, Acceptable changes ts task) :
    ∃ ts', commitBacklog backlog changes now ts = .ok ((), ts') := by
  unfold commitBacklog
  induction backlog generalizing ts with
  | nil => exact ⟨ts, rfl⟩
  | cons task rest ih =>
      rw [List.map_cons, List.nodup_cons] at hnodup
      obtain ⟨m, hm⟩ := commitTask_total now hord
        (h task List.mem_cons_self)
      have hrest : ∀ t ∈ rest, Acceptable changes m t := by
        intro t ht
        have hne : t.ref ≠ task.ref := by
          intro heq
          exact hnodup.1 (heq ▸ List.mem_map_of_mem ht)
        obtain ⟨current, hcurrent, hlaw⟩ := h t (List.mem_cons_of_mem _ ht)
        have hsame := ((commitTask_ok hord hm).2.1 t.ref hne).1
        exact ⟨current, by rw [hsame, hcurrent], hlaw⟩
      obtain ⟨ts', hts'⟩ := ih hnodup.2 hrest
      exact ⟨ts', Txn.forM_cons_ok.mpr ⟨m, hm, hts'⟩⟩

end OrcState.Store
