import OrcState.Store.CommittedRows

/-!
# Reading back a committed backlog

When a backlog that was read, edited in its lifecycle fields and committed reads
as it was given.  A column that is written is read as it was, but a task type
that equals the default of the revision is taken for an absent one and leaves the
override in place, an empty string is read as absent, and a change of status
whose key is recorded already is not made.
-/

namespace OrcState.Store

open OrcState.Contract OrcState.Foundation

variable {ts ts' : TaskStore} {changes : TaskStatusChanges} {now : String}

/-! ## What is given and what is stored -/

def defaultTaskType (task : ProjectTask) : TaskType :=
  task.metaTaskType.getD .implementation

def LawfulChange (changes : TaskStatusChanges) (task edited : Task) : Prop :=
  edited.status ≠ task.status → ∃ change,
    changes.lookup edited.ref = some change ∧
      canTransitionTaskStatus
        (if change.cause = .mergeSucceeded ∧ task.status = .claimed then
          .inProgress else task.status) edited.status change.cause = true

structure EditOf (changes : TaskStatusChanges) (task edited : Task) : Prop where
  ref : edited.ref = task.ref
  featureRef : edited.featureRef = task.featureRef
  definition : edited.definition = task.definition
  lawful : LawfulChange changes task edited

structure SameLifecycle (task task' : Task) : Prop where
  status : task'.status = task.status
  owner : task'.owner = task.owner
  planningState : task'.planningState = task.planningState
  delegatedBy : task'.delegatedBy = task.delegatedBy
  taskType : task'.taskType = task.taskType
  requeueEligibleAfter : task'.requeueEligibleAfter = task.requeueEligibleAfter
  attemptCount : task'.attemptCount = task.attemptCount

/-- Every entry reads as it was given, and one that was not edited as it was. -/
structure ReadsBack (ts ts' : TaskStore) (edited : Backlog) : Prop where
  fields : ∀ task ∈ edited, ∃ task' ∈ readProjectBacklog ts',
    task'.ref = task.ref ∧ SameLifecycle task task'
  untouched : ∀ task ∈ edited, task ∈ readProjectBacklog ts →
    task ∈ readProjectBacklog ts'
  revisions : ts'.contents = ts.contents

/-- What is given for a task can be told from what is stored of it. -/
structure Storable (ts : TaskStore) (changes : TaskStatusChanges)
    (edited : Task) (current : ProjectTask) : Prop where
  key : edited.status ≠ current.status → ∀ change,
    changes.lookup edited.ref = some change →
      ts.recorded edited.ref change.idempotencyKey = false
  taskType : edited.taskType = defaultTaskType current →
    ∀ override, current.dispatch.taskType = some override →
      override = defaultTaskType current
  owner : edited.owner ≠ some ""
  delegatedBy : edited.delegatedBy ≠ some ""
  requeueEligibleAfter : edited.requeueEligibleAfter ≠ some ""

/-! ## One entry -/

theorem nonEmpty_eq_self {value : Option String} :
    nonEmpty value = value ↔ value ≠ some "" := by
  cases value with
  | none => simp [nonEmpty]
  | some s =>
      by_cases hs : s = ""
      · simp [nonEmpty, hs]
      · simp [nonEmpty, Option.filter_some, hs]

theorem committedTaskType_read {edited : Task} {current : ProjectTask} :
    ((committedTaskType edited current).or current.metaTaskType).getD
        .implementation = edited.taskType ↔
      (edited.taskType = defaultTaskType current →
        ∀ override, current.dispatch.taskType = some override →
          override = defaultTaskType current) := by
  unfold committedTaskType defaultTaskType
  by_cases hdefault : edited.taskType = current.metaTaskType.getD .implementation
  · rw [if_neg (not_not.mpr hdefault)]
    cases hoverride : current.dispatch.taskType with
    | none => simp [hdefault]
    | some override => simp [hdefault]
  · rw [if_pos hdefault]
    simp [hdefault]

theorem statusRow_content {task : Task} {rows : List TaskTransition}
    {current row : ProjectTask} (h : StatusRow changes now task rows current row) :
    ProjectTask.content row = ProjectTask.content current ∧ row.metaTaskType = current.metaTaskType ∧
      row.ref = current.ref := by
  cases h with
  | kept => exact ⟨rfl, rfl, rfl⟩
  | moved => exact ⟨rfl, rfl, rfl⟩
  | repeated change =>
      unfold startedRow
      split <;> exact ⟨rfl, rfl, rfl⟩

theorem statusRow_status {edited task : Task} {rows : List TaskTransition}
    {current row : ProjectTask} (hcurrent : task.status = current.status)
    (hlawful : LawfulChange changes task edited)
    (h : StatusRow changes now edited rows current row) :
    row.status = edited.status ↔
      (edited.status ≠ current.status → ∀ change,
        changes.lookup edited.ref = some change →
          (truthy change.idempotencyKey &&
            rows.any fun t => t.idempotencyKey = change.idempotencyKey) =
              false) := by
  cases h with
  | kept hsame => exact iff_of_true hsame.symm fun hne => absurd hsame hne
  | moved change hne hchange hnew =>
      refine iff_of_true rfl fun _ change' hchange' => ?_
      rw [hchange] at hchange'
      cases hchange'
      exact hnew
  | repeated change hne hchange hkey =>
      refine iff_of_false (fun hstatus => ?_) fun hall => ?_
      · obtain ⟨change', hchange', hallowed⟩ := hlawful (hcurrent ▸ hne)
        rw [hchange] at hchange'
        cases hchange'
        unfold startedRow at hstatus
        split at hstatus
        · rename_i hmerge
          rw [if_pos ⟨hmerge.1, hcurrent.trans hmerge.2⟩, hmerge.1] at hallowed
          have hdone : edited.status = .done := by
            simpa [canTransitionTaskStatus] using hallowed
          rw [hdone] at hstatus
          cases hstatus
        · exact hne hstatus.symm
      · rw [hall hne change hchange] at hkey
        cases hkey

theorem read_committed {edited task : Task} {rows : List TaskTransition}
    {current row : ProjectTask} (htask : projectTaskToBacklogTask current = task)
    (hlawful : LawfulChange changes task edited)
    (h : StatusRow changes now edited rows current row) :
    SameLifecycle edited (projectTaskToBacklogTask
        (ProjectTask.dispatched (committedDispatch edited current)
          edited.attemptCount row)) ↔
      (edited.status ≠ current.status → ∀ change,
        changes.lookup edited.ref = some change →
          (truthy change.idempotencyKey &&
            rows.any fun t => t.idempotencyKey = change.idempotencyKey) =
              false) ∧
      (edited.taskType = defaultTaskType current →
        ∀ override, current.dispatch.taskType = some override →
          override = defaultTaskType current) ∧
      edited.owner ≠ some "" ∧ edited.delegatedBy ≠ some "" ∧
      edited.requeueEligibleAfter ≠ some "" := by
  have hstatus := statusRow_status (by rw [← htask]; rfl) hlawful h
  have htype := @committedTaskType_read edited current
  rw [← (statusRow_content h).2.1] at htype
  constructor
  · intro hsame
    exact ⟨hstatus.mp hsame.status, htype.mp hsame.taskType,
      nonEmpty_eq_self.mp hsame.owner, nonEmpty_eq_self.mp hsame.delegatedBy,
      nonEmpty_eq_self.mp hsame.requeueEligibleAfter⟩
  · rintro ⟨hkey, hover, howner, hdelegated, hrequeue⟩
    exact ⟨hstatus.mpr hkey, nonEmpty_eq_self.mpr howner, rfl,
      nonEmpty_eq_self.mpr hdelegated, htype.mpr hover,
      nonEmpty_eq_self.mpr hrequeue, rfl⟩

theorem read_untouched (current : ProjectTask) :
    projectTaskToBacklogTask
        (ProjectTask.dispatched
          (committedDispatch (projectTaskToBacklogTask current) current)
          (projectTaskToBacklogTask current).attemptCount current) =
      projectTaskToBacklogTask current := by
  have htype : ((committedTaskType (projectTaskToBacklogTask current)
      current).or current.metaTaskType).getD .implementation =
        (projectTaskToBacklogTask current).taskType := by
    refine committedTaskType_read.mpr fun hdefault override hoverride => ?_
    rw [← hdefault]
    simp [projectTaskToBacklogTask, hoverride]
  simp only [projectTaskToBacklogTask, ProjectTask.dispatched,
    committedDispatch, nonEmpty_nonEmpty] at htype ⊢
  rw [htype]
  rfl

/-! ## The whole backlog -/

section

variable {edited : Backlog}

theorem edited_refs
    (hedit : List.Forall₂ (EditOf changes) (readProjectBacklog ts) edited) :
    edited.map Task.ref = (readProjectBacklog ts).map Task.ref := by
  generalize readProjectBacklog ts = original at hedit
  induction hedit with
  | nil => rfl
  | cons h _ ih => rw [List.map_cons, List.map_cons, h.ref, ih]

theorem edited_row
    (hedit : List.Forall₂ (EditOf changes) (readProjectBacklog ts) edited)
    {task : Task} (htask : task ∈ edited) :
    ∃ current, ts.getTask task.ref = some current ∧
      EditOf changes (projectTaskToBacklogTask current) task := by
  have hsource : ∃ original ∈ readProjectBacklog ts,
      EditOf changes original task := by
    generalize readProjectBacklog ts = original at hedit
    induction hedit with
    | nil => cases htask
    | cons h _ ih =>
        rcases List.mem_cons.mp htask with rfl | htask
        · exact ⟨_, List.mem_cons_self, h⟩
        · obtain ⟨original, hmem, hof⟩ := ih htask
          exact ⟨original, List.mem_cons_of_mem _ hmem, hof⟩
  obtain ⟨original, hmem, hof⟩ := hsource
  obtain ⟨current, hcurrent, rfl⟩ := mem_readProjectBacklog.mp hmem
  refine ⟨current, ?_, hof⟩
  rw [hof.ref]
  exact Table.find?_of_mem hcurrent

theorem read_of_getTask {ref : TaskRef} {row : ProjectTask}
    (h : ts.getTask ref = some row) {task : Task}
    (htask : task ∈ readProjectBacklog ts) (href : task.ref = ref) :
    task = projectTaskToBacklogTask row := by
  obtain ⟨row', hrow', rfl⟩ := mem_readProjectBacklog.mp htask
  obtain ⟨hrow, hkey⟩ := Table.find?_eq_some.mp h
  rw [Table.eq_of_key hrow' hrow (href.trans hkey.symm)]

/-- A committed backlog reads as it was given just where it can be stored. -/
theorem readsBack_iff
    (hedit : List.Forall₂ (EditOf changes) (readProjectBacklog ts) edited)
    (h : commitBacklog edited changes now ts = .ok ((), ts')) :
    ReadsBack ts ts' edited ↔
      ∀ task ∈ edited, ∀ current, ts.getTask task.ref = some current →
        Storable ts changes task current := by
  have hnodup : (edited.map Task.ref).Nodup := by
    rw [edited_refs hedit]
    exact nodup_readProjectBacklog ts
  have hrows := (commitBacklog_rows hnodup h).1
  have hentry : ∀ task ∈ edited, ∀ current,
      ts.getTask task.ref = some current →
      ∃ row, ts'.getTask task.ref = some row ∧
        (SameLifecycle task (projectTaskToBacklogTask row) ↔
          Storable ts changes task current) ∧
        (task = projectTaskToBacklogTask current →
          projectTaskToBacklogTask row = task) := by
    intro task htask current hcurrent
    obtain ⟨current', hcurrent', hof⟩ := edited_row hedit htask
    rw [hcurrent] at hcurrent'
    cases hcurrent'
    obtain ⟨current', row, hbefore, hstatus, -, hafter⟩ := hrows task htask
    rw [show (ts.record task.ref).1 = some current from hcurrent] at hbefore
    cases hbefore
    refine ⟨_, hafter, (read_committed rfl hof.lawful hstatus).trans ?_,
      fun hsame => ?_⟩
    · constructor
      · rintro ⟨hkey, htype, howner, hdelegated, hrequeue⟩
        refine ⟨fun hne change hchange => ?_, htype, howner, hdelegated,
          hrequeue⟩
        rw [recorded_eq]
        exact hkey hne change hchange
      · rintro ⟨hkey, htype, howner, hdelegated, hrequeue⟩
        refine ⟨fun hne change hchange => ?_, htype, howner, hdelegated,
          hrequeue⟩
        have hnew := hkey hne change hchange
        rwa [recorded_eq] at hnew
    · cases hstatus with
      | kept =>
          rw [hsame]
          exact read_untouched current
      | moved _ hne | repeated _ hne =>
          rw [hsame] at hne
          exact absurd rfl hne
  constructor
  · intro hreads task htask current hcurrent
    obtain ⟨row, hrow, hiff, -⟩ := hentry task htask current hcurrent
    obtain ⟨task', htask', href, hsame⟩ := hreads.fields task htask
    rw [read_of_getTask hrow htask' href] at hsame
    exact hiff.mp hsame
  · intro hall
    refine ⟨fun task htask => ?_, fun task htask hold => ?_, ?_⟩
    · obtain ⟨current, hcurrent, -⟩ := edited_row hedit htask
      obtain ⟨row, hrow, hiff, -⟩ := hentry task htask current hcurrent
      have hkey : row.ref = task.ref := Table.key_of_find? hrow
      exact ⟨_, mem_readProjectBacklog.mpr
          ⟨row, Table.mem_of_find? hrow, rfl⟩, hkey,
        hiff.mpr (hall task htask current hcurrent)⟩
    · obtain ⟨current, hcurrent, -⟩ := edited_row hedit htask
      obtain ⟨row, hrow, -, huntouched⟩ := hentry task htask current hcurrent
      rw [← huntouched (read_of_getTask hcurrent hold rfl)]
      exact mem_readProjectBacklog.mpr ⟨row, Table.mem_of_find? hrow, rfl⟩
    · exact StoreMoves.contents
        (forM_moves (fun _ _ _ _ hstep => commitTask_moves hstep) h)

end

/--
A backlog that was read and edited is stored as it was given, and every task and
revision that was not edited is kept, just where each entry can be stored; a
commit that throws changes nothing.
-/
theorem commitBacklog_stores {edited : Backlog}
    (hedit : List.Forall₂ (EditOf changes) (readProjectBacklog ts) edited) :
    (∀ ts', commitBacklog edited changes now ts = .ok ((), ts') →
      (ReadsBack ts ts' edited ↔
        ∀ task ∈ edited, ∀ current, ts.getTask task.ref = some current →
          Storable ts changes task current)) ∧
      ∀ e, commitBacklog edited changes now ts = .error e →
        (commitBacklog edited changes now).commit ts = ts :=
  ⟨fun _ h => readsBack_iff hedit h, fun _ h => Txn.commit_of_error h⟩

/-! One task under the override `refactor`, and two edits of its entry. -/

def overriddenRow : ProjectTask where
  ref := "docs/intro"
  dispatch := { taskType := some .refactor }
  definition := { title := "Intro" }

def overriddenStore : TaskStore where
  tasks := ⟨[overriddenRow], by decide⟩

def ownedEntry : Task :=
  { projectTaskToBacklogTask overriddenRow with
    owner := some "orc-1", attemptCount := 2 }

def defaultedEntry : Task :=
  { projectTaskToBacklogTask overriddenRow with taskType := .implementation }

theorem read_overriddenStore :
    readProjectBacklog overriddenStore =
      [projectTaskToBacklogTask overriddenRow] := by
  decide +kernel

theorem commitBacklog_stores_owned :
    ∃ ts', commitBacklog [ownedEntry] [] "" overriddenStore = .ok ((), ts') ∧
      ReadsBack overriddenStore ts' [ownedEntry] := by
  have hedit : List.Forall₂ (EditOf []) (readProjectBacklog overriddenStore)
      [ownedEntry] := by
    rw [read_overriddenStore]
    exact .cons ⟨rfl, rfl, rfl, fun hne => absurd rfl hne⟩ .nil
  have hrun : (commitBacklog [ownedEntry] [] "" overriddenStore).isOk = true := by
    decide +kernel
  cases h : commitBacklog [ownedEntry] [] "" overriddenStore with
  | error e =>
      rw [h] at hrun
      cases hrun
  | ok p =>
      obtain ⟨⟨⟩, ts'⟩ := p
      refine ⟨ts', rfl, ((commitBacklog_stores hedit).1 ts' h).mpr
        fun task htask current hcurrent => ?_⟩
      rw [List.mem_singleton.mp htask] at hcurrent ⊢
      have hrow : current = overriddenRow := by
        have hget : overriddenStore.getTask ownedEntry.ref = some overriddenRow := by
          decide +kernel
        rw [hget] at hcurrent
        exact (Option.some.inj hcurrent).symm
      rw [hrow]
      exact ⟨fun hne => absurd rfl hne, by decide, by decide, by decide,
        by decide⟩

/-- A type set back to the default of the revision is lost under an override. -/
theorem not_commitBacklog_stores :
    ∃ ts edited ts',
      List.Forall₂ (EditOf []) (readProjectBacklog ts) edited ∧
        commitBacklog edited [] "" ts = .ok ((), ts') ∧
        ¬ ReadsBack ts ts' edited := by
  have hedit : List.Forall₂ (EditOf []) (readProjectBacklog overriddenStore)
      [defaultedEntry] := by
    rw [read_overriddenStore]
    exact .cons ⟨rfl, rfl, rfl, fun hne => absurd rfl hne⟩ .nil
  have hrun : (commitBacklog [defaultedEntry] [] "" overriddenStore).map
      (fun p => (readProjectBacklog p.2).map Task.taskType) =
        .ok [.refactor] := by
    decide +kernel
  cases h : commitBacklog [defaultedEntry] [] "" overriddenStore with
  | error e =>
      rw [h] at hrun
      cases hrun
  | ok p =>
      obtain ⟨⟨⟩, ts'⟩ := p
      refine ⟨overriddenStore, [defaultedEntry], ts', hedit, h,
        fun hreads => ?_⟩
      obtain ⟨task', htask', -, hsame⟩ :=
        hreads.fields defaultedEntry (List.mem_singleton_self _)
      rw [h] at hrun
      have htypes : (readProjectBacklog ts').map Task.taskType = [.refactor] :=
        Except.ok.inj hrun
      have hmem := List.mem_map_of_mem (f := Task.taskType) htask'
      rw [htypes, List.mem_singleton, hsame.taskType] at hmem
      cases hmem

end OrcState.Store
