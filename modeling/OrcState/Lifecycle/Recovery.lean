import OrcState.Lifecycle.Commits
import OrcState.Lifecycle.Endings

/-!
# Recovery from a crash

A process that dies between two commits leaves the stores half way.  Whatever an
operation leaves, each running task still has the binding of its claim and no
task has started ahead of its claim; from such a state one reconciliation pairs
claims, tasks and bindings again.
-/

namespace OrcState.Lifecycle

open OrcState.Contract OrcState.Foundation OrcState.Store
open OrcState.Foundation.Effect

variable {dates : DateApi} {registry : Registry}

/-! ## The invariant -/

def ClaimState.taskStatus : ClaimState → Option TaskStatus
  | .claimed => some .claimed
  | .inProgress => some .inProgress
  | .done | .failed => none

/--
Each task has one active claim at most; a claimed or running task has one in its
own state, bound in the task store; a task in the queue, blocked or cancelled has
none.
-/
structure Paired (s : Project) : Prop where
  one : OneActive s.events.runs
  held : ∀ ref status, statusAt s.tasks ref = some status →
    status.running = true → ∃ c, c ∈ s.events.runs ∧ c.taskRef = ref ∧
      c.active = true ∧ ClaimState.taskStatus c.state = some status ∧
      c.runId ∈ s.tasks.runsAt ref
  free : ∀ ref status, statusAt s.tasks ref = some status →
    status = .todo ∨ status = .blocked ∨ status = .cancelled →
    Unclaimed s.events.runs ref

theorem Coherent.paired {s : Project} (hs : Coherent s) (hsound : Sound s) :
    Paired s := by
  refine ⟨hsound.one, fun ref status hstatus hrunning => ?_,
    fun ref status hstatus hidle c hc ha href => ?_⟩
  · obtain ⟨run, started, rfl, hview⟩ := hs.of_running hstatus hrunning
    have hclaim : (run, claimStateOf started) ∈ activeAt s.events.runs ref := by
      rw [show activeAt s.events.runs ref = _ from congrArg View.claims hview]
      exact Set.mem_singleton _
    have hbinding : run ∈ s.tasks.runsAt ref := by
      rw [show s.tasks.runsAt ref = _ from congrArg View.runs hview]
      exact Set.mem_singleton _
    obtain ⟨c, hc, ha, href, hpair⟩ := hclaim
    obtain ⟨rfl, hstate⟩ := Prod.mk.inj hpair
    refine ⟨c, hc, href, ha, ?_, hbinding⟩
    rw [hstate]
    cases started <;> rfl
  · have hnone : activeAt s.events.runs ref = ∅ := by
      rcases hidle with rfl | rfl | rfl <;> exact hs.claims_idle hstatus rfl rfl
    have hmem : (c.runId, c.state) ∈ activeAt s.events.runs ref :=
      ⟨c, hc, ha, href, rfl⟩
    rw [hnone] at hmem
    exact Set.notMem_empty _ hmem

/-- The identifiers of the rows, as they are checked when a row is inserted. -/
structure ValidRows (s : Project) : Prop where
  named : ∀ c, c ∈ s.events.runs → WellNamed c
  refs : ∀ ref status, statusAt s.tasks ref = some status → taskRefRe ref = true

theorem Sound.validRows {s : Project} (hs : Sound s) : ValidRows s := by
  refine ⟨hs.named, fun ref status h => ?_⟩
  obtain ⟨row, hrow, -⟩ := Option.map_eq_some_iff.mp h
  rw [← Table.key_of_find? hrow]
  exact hs.tasks.refs row (Table.mem_of_find? hrow)

/-- What holds at every point of an operation that found its state paired. -/
structure Recoverable (s : Project) : Prop where
  rows : ValidRows s
  one : OneActive s.events.runs
  backed : ∀ c, c ∈ s.events.runs → c.active = true →
    ∀ status, statusAt s.tasks c.taskRef = some status →
      status.running = true →
      (status = .inProgress → c.state = .inProgress) ∧
        c.runId ∈ s.tasks.runsAt c.taskRef

theorem Paired.recoverable {s : Project} (h : Paired s) (hrows : ValidRows s) :
    Recoverable s := by
  refine ⟨hrows, h.one, fun c hc ha status hstatus hrunning => ?_⟩
  obtain ⟨c', hc', href, ha', hstate, hbinding⟩ :=
    h.held c.taskRef status hstatus hrunning
  have hsame : c' = c :=
    Table.eq_of_key hc' hc (h.one c' hc' c hc ha' ha href)
  subst hsame
  refine ⟨fun hstarted => ?_, hbinding⟩
  rw [hstarted] at hstate
  cases hst : c'.state with
  | inProgress => rfl
  | claimed | done | failed =>
      rw [hst] at hstate
      cases hstate

/-! ## What the reconciliation finds -/

theorem Recoverable.ref_ne {s : Project} (hs : Recoverable s) {task : Task}
    (htask : task ∈ s.backlog) : task.ref ≠ "" := by
  intro hempty
  have hfind := findTask_of_mem (nodup_readProjectBacklog s.tasks) htask
  have href := hs.rows.refs task.ref task.status (statusAt_of_findTask hfind)
  rw [hempty] at href
  cases href

/-- What the verdict on a task says of its status and its active claim. -/
inductive Finding (s : Project) (task : Task) : Verdict → Prop where
  | free (h : Unclaimed s.events.runs task.ref)
      (hidle : task.status.running = false) : Finding s task .consistent
  | merged (h : task.status.merged = true) : Finding s task .consistent
  | paired (c : Claim) (hc : c ∈ s.events.runs) (ha : c.active = true)
      (href : c.taskRef = task.ref)
      (h : ClaimState.taskStatus c.state = some task.status) :
      Finding s task .consistent
  | started (c : Claim) (hc : c ∈ s.events.runs) (href : c.taskRef = task.ref)
      (hstate : c.state = .inProgress) (h : task.status = .claimed) :
      Finding s task (.started c)
  | mismatch (c : Claim) (hc : c ∈ s.events.runs) (ha : c.active = true)
      (href : c.taskRef = task.ref) (hidle : task.status.running = false) :
      Finding s task (.mismatch c)
  | missing (h : Unclaimed s.events.runs task.ref)
      (hrunning : task.status.running = true) : Finding s task .missing

theorem Recoverable.finding {s : Project} (hs : Recoverable s) {task : Task}
    (htask : task ∈ s.backlog) :
    Finding s task (inspectTask s.claims s.backlog task) := by
  have hne := hs.ref_ne htask
  have hfind := findTask_of_mem (nodup_readProjectBacklog s.tasks) htask
  unfold inspectTask
  rw [if_neg hne]
  cases hkept : activeClaimOf s.claims s.backlog task.ref with
  | none =>
      have hfree := unclaimed_of_activeClaimOf hne hfind hkept
      cases hrunning : task.status.running with
      | true => exact .missing hfree hrunning
      | false => exact .free hfree hrunning
  | some c =>
      obtain ⟨hc, ha, -, href⟩ := mem_activeClaimsOf.mp (activeClaimOf_mem hkept)
      have hbacked := hs.backed c hc ha task.status
        (href ▸ statusAt_of_findTask hfind)
      dsimp only
      cases hstatus : task.status with
      | done | released =>
          exact .merged (by rw [hstatus]; rfl)
      | todo | blocked | cancelled =>
          have hidle : task.status.running = false := by
            rw [hstatus]
            rfl
          by_cases hstate : c.state = .inProgress
          · simpa [hstate, TaskStatus.merged] using
              Finding.mismatch c hc ha href hidle
          · simpa [hstate, TaskStatus.merged] using
              Finding.mismatch c hc ha href hidle
      | claimed =>
          cases hstate : c.state with
          | claimed =>
              simp only
              exact .paired c hc ha href (by rw [hstate, hstatus]; rfl)
          | inProgress =>
              simp only
              exact .started c hc href hstate hstatus
          | done | failed =>
              rw [Claim.active, hstate] at ha
              cases ha
      | inProgress =>
          have hstate := (hbacked (by rw [hstatus]; rfl)).1 hstatus
          simp only [hstate]
          exact .paired c hc ha href (by rw [hstate, hstatus]; rfl)

/-! ## What the reconciliation repairs -/

theorem repairChange_ref {verdict : Verdict} {ref : TaskRef}
    {p : TaskRef × TaskStatusChange} (h : repairChange verdict ref = some p) :
    p.1 = ref := by
  cases verdict with
  | consistent | mismatch => cases h
  | started | missing =>
      cases h
      rfl

theorem lookup_filterMap {g : Task → Option (TaskRef × TaskStatusChange)}
    {backlog : Backlog} {task : Task} {change : TaskStatusChange}
    (hg : ∀ t p, g t = some p → p.1 = t.ref)
    (hnodup : (backlog.map Task.ref).Nodup) (htask : task ∈ backlog)
    (h : g task = some (task.ref, change)) :
    (backlog.filterMap g).lookup task.ref = some change := by
  induction backlog with
  | nil => cases htask
  | cons first rest ih =>
      rw [List.map_cons, List.nodup_cons] at hnodup
      rcases List.mem_cons.mp htask with rfl | hrest
      · rw [List.filterMap_cons_some h, List.lookup_cons, beq_self_eq_true]
      · have hne : task.ref ≠ first.ref := by
          intro heq
          exact hnodup.1 (heq ▸ List.mem_map_of_mem hrest)
        cases hfirst : g first with
        | none =>
            rw [List.filterMap_cons_none hfirst]
            exact ih hnodup.2 hrest
        | some p =>
            obtain ⟨ref, other⟩ := p
            have href : ref = first.ref := hg first _ hfirst
            rw [List.filterMap_cons_some hfirst, List.lookup_cons, href,
              beq_eq_false_iff_ne.mpr hne]
            exact ih hnodup.2 hrest

structure RepairedTo (s : Project) (ts : TaskStore) : Prop where
  known : ∀ ref status, statusAt ts ref = some status →
    ∃ task, task ∈ s.backlog ∧ task.ref = ref
  status : ∀ task, task ∈ s.backlog → statusAt ts task.ref =
    some (repairTask (inspectTask s.claims s.backlog task) task).status
  runs : ∀ task, task ∈ s.backlog →
    inspectTask s.claims s.backlog task ≠ .missing →
    ts.runsAt task.ref = s.tasks.runsAt task.ref

theorem inspectTask_claimed {s : Project} {task : Task} {c : Claim}
    (h : inspectTask s.claims s.backlog task = .started c) :
    task.status = .claimed := by
  by_contra hidle
  unfold inspectTask at h
  simp only [decide_eq_false hidle, Bool.false_and, Bool.false_eq_true,
    if_false] at h
  repeat' split at h
  all_goals cases h

theorem inspectTask_running {s : Project} {task : Task}
    (h : inspectTask s.claims s.backlog task = .missing) :
    task.status.running = true := by
  obtain ⟨hne, hnone⟩ := inspectTask_missing h
  rw [inspectTask, if_neg hne, hnone] at h
  dsimp only at h
  split at h
  · assumption
  · cases h

theorem acceptable_repair {s : Project} {task : Task} (htask : task ∈ s.backlog) :
    Acceptable (repairChanges s) s.tasks
      (repairTask (inspectTask s.claims s.backlog task) task) := by
  have hnodup : (s.backlog.map Task.ref).Nodup := nodup_readProjectBacklog s.tasks
  have hfind := findTask_of_mem hnodup htask
  rw [Project.backlog, findTask_readProjectBacklog] at hfind
  obtain ⟨current, hcurrent, hentry⟩ := Option.map_eq_some_iff.mp hfind
  have hdef : task.definition = current.definition := by
    rw [← hentry]
    rfl
  have hstatus : task.status = current.status := by
    rw [← hentry]
    rfl
  have hlookup : ∀ change,
      repairChange (inspectTask s.claims s.backlog task) task.ref =
        some (task.ref, change) → (repairChanges s).lookup task.ref =
          some change :=
    fun change => lookup_filterMap (fun _ _ => repairChange_ref) hnodup htask
  refine ⟨current, by rw [repairTask_ref]; exact hcurrent, ?_, ?_⟩
  · cases inspectTask s.claims s.backlog task <;> exact hdef
  · rw [repairTask_ref]
    cases hverdict : inspectTask s.claims s.backlog task with
    | consistent | mismatch => exact .inl hstatus
    | started c =>
        rw [hverdict] at hlookup
        refine .inr ⟨_, hlookup _ rfl, ?_, fun h => by cases h⟩
        rw [← hstatus, inspectTask_claimed hverdict]
        rfl
    | missing =>
        rw [hverdict] at hlookup
        refine .inr ⟨_, hlookup _ rfl, ?_, fun h => by cases h⟩
        have hrunning := inspectTask_running hverdict
        rw [← hstatus]
        cases hst : task.status with
        | claimed | inProgress => rfl
        | todo | blocked | done | released | cancelled =>
            rw [hst] at hrunning
            cases hrunning

theorem repairs_accepted (s : Project) (now : String) :
    ∃ ts, commitBacklog (repairedBacklog s) (repairChanges s) now s.tasks =
      .ok ((), ts) := by
  refine commitBacklog_total now (repairChanges_ordinary s)
    (repairedBacklog_refs s ▸ nodup_readProjectBacklog s.tasks) fun entry hentry => ?_
  obtain ⟨task, htask, rfl⟩ := List.mem_map.mp hentry
  exact acceptable_repair htask

theorem Recoverable.repairs {s : Project} (hs : Recoverable s) (now : String) :
    ∃ ts, commitRepairs (repairChanges s) (repairedBacklog s) now s =
      (.ok (), s.setTasks ts) ∧ RepairedTo s ts := by
  have hnodup : (s.backlog.map Task.ref).Nodup := nodup_readProjectBacklog s.tasks
  have hbefore : ∀ task, task ∈ s.backlog →
      statusAt s.tasks task.ref = some task.status := fun task htask =>
    statusAt_of_findTask (findTask_of_mem hnodup htask)
  have hknown : ∀ ref status, statusAt s.tasks ref = some status →
      ∃ task, task ∈ s.backlog ∧ task.ref = ref := by
    intro ref status h
    obtain ⟨task, hfind, -⟩ := findTask_of_statusAt h
    exact ⟨task, findTask_eq_some hfind⟩
  unfold commitRepairs
  split
  · rename_i hnone
    refine ⟨s.tasks, rfl, hknown, fun task htask => ?_, fun _ _ _ => rfl⟩
    rw [hbefore task htask]
    have hno := List.filterMap_eq_nil_iff.mp hnone task htask
    cases hverdict : inspectTask s.claims s.backlog task with
    | consistent | mismatch => rfl
    | started | missing =>
        rw [hverdict] at hno
        cases hno
  · have hord := repairChanges_ordinary s
    have hrefs := repairedBacklog_refs s
    obtain ⟨ts, hts⟩ := repairs_accepted s now
    have hat : ∀ task, task ∈ s.backlog → ∃ current row,
        CommitAt (repairChanges s)
          (repairTask (inspectTask s.claims s.backlog task) task) s.tasks ts
          current row := fun task htask =>
      (commitBacklog_ok hord (hrefs ▸ hnodup) hts).1 _
        (List.mem_map_of_mem htask)
    refine ⟨ts, ?_, fun ref status h => ?_, fun task htask => ?_,
      fun task htask hverdict => ?_⟩
    · simp only [onTasks, atomically, hts]
    · rcases commitBacklog_at hord hrefs hts ref with
        ⟨-, hget, -⟩ | ⟨entry, current, row, hentry, rfl, hat⟩
      · rw [statusAt, hget] at h
        cases h
      · refine hknown entry.ref current.status ?_
        rw [statusAt, hat.before]
        rfl
    · obtain ⟨current, row, hcommit⟩ := hat task htask
      have hstatus := (view_of_commit hcommit).1
      rwa [repairTask_ref] at hstatus
    · obtain ⟨current, row, hcommit⟩ := hat task htask
      have hview := (view_of_commit hcommit).2
      rw [repairTask_ref] at hview
      rcases hview with ⟨-, hruns⟩ | ⟨hmoved, change, hchange, -, hruns⟩
      · exact hruns
      · have hfinding := hs.finding htask
        have hcurrent : task.status = current.status := by
          have hrow := hbefore task htask
          rw [← repairTask_ref (inspectTask s.claims s.backlog task) task,
            statusAt, hcommit.before] at hrow
          exact (Option.some.inj hrow).symm
        cases hv : inspectTask s.claims s.backlog task with
        | consistent | mismatch =>
            rw [hv] at hmoved
            exact absurd hcurrent hmoved
        | missing => exact absurd hv hverdict
        | started c =>
            have hlookup : (repairChanges s).lookup task.ref = _ :=
              lookup_filterMap (fun _ _ => repairChange_ref) hnodup htask
                (by rw [hv]; rfl)
            rw [hlookup] at hchange
            cases hchange
            exact hruns

/-! ## What the reconciliation fails -/

theorem validEvent_reconcileEvent {c : Claim} (hnamed : WellNamed c)
    (reason : String) (now : Int) :
    ValidEvent dates (reconcileEvent (dates.toISOString now) (c, reason)) :=
  (validEvent_runEvent (by decide)).mpr
    ⟨dates.isDateTime_toISOString now, hnamed, rfl⟩

theorem Recoverable.failures {s : Project} (hs : Recoverable s) (now : Int)
    (ts : TaskStore) :
    ∃ db, commitFailures dates s.claims (failedClaims s.claims s.backlog)
        (dates.toISOString now) (s.setTasks ts) =
      (.ok (), (s.setTasks ts).setEvents db) ∧
        Mutated (reconcileFails s) failClaim s.events.runs db.runs := by
  unfold commitFailures
  split
  · rename_i hnone
    have hkept : ∀ c, reconcileFails s c = false := by
      intro c
      simp [reconcileFails, hnone]
    exact ⟨s.events, rfl, fun c => by simp [hkept], id⟩
  · have hcommit : ∃ db, commitClaims dates
        (mutateClaims s.claims (reconcileFails s) failClaim)
        ((failedClaims s.claims s.backlog).map
          (reconcileEvent (dates.toISOString now))) s.events = .ok ((), db) := by
      refine commitMutated_total hs.one (fun _ => ⟨rfl, rfl⟩)
        (fun _ _ _ ha => by cases ha) fun e he => ?_
      obtain ⟨⟨c, reason⟩, hf, rfl⟩ := List.mem_map.mp he
      exact validEvent_reconcileEvent
        (hs.rows.named c (mem_failedClaims hf).1) reason now
    obtain ⟨db, hdb⟩ := hcommit
    refine ⟨db, ?_, commitMutated_claims hdb fun _ => rfl⟩
    change onEvents (commitClaims dates
      (mutateClaims s.claims (reconcileFails s) failClaim) _) _ = _
    simp only [onEvents, atomically, setTasks_events, hdb]

theorem Recoverable.survivor {s : Project} (hs : Recoverable s) {c : Claim}
    (hc : c ∈ s.events.runs) (ha : c.active = true)
    (hkept : reconcileFails s c = false) :
    ∃ task, task ∈ s.backlog ∧ task.ref = c.taskRef ∧
      (task.status.merged = true ∧
          inspectTask s.claims s.backlog task = .consistent ∨
        ClaimState.taskStatus c.state = some task.status ∧
          inspectTask s.claims s.backlog task = .consistent ∨
        inspectTask s.claims s.backlog task = .started c) := by
  have hfails : ∀ f, f ∈ failedClaims s.claims s.backlog →
      f.1.runId ≠ c.runId := by
    intro f hf hid
    rw [reconcileFails_iff.mpr ⟨f, hf, hid⟩] at hkept
    cases hkept
  have hknown : knownTask s.backlog c.taskRef = true := by
    by_contra hunknown
    refine hfails (c, "reconcile_orphan_claim") ?_ rfl
    refine List.mem_append_left _ (List.mem_append_left _ ?_)
    exact List.mem_map_of_mem (List.mem_filter.mpr ⟨hc, by simp [ha, hunknown]⟩)
  have hsome : (findTask s.backlog c.taskRef).isSome = true := by
    simp only [knownTask, Bool.and_eq_true] at hknown
    exact hknown.2
  obtain ⟨task, hfind⟩ := Option.isSome_iff_exists.mp hsome
  obtain ⟨htask, href⟩ := findTask_eq_some hfind
  refine ⟨task, htask, href, ?_⟩
  have hsame : ∀ c', c' ∈ s.events.runs → c'.active = true →
      c'.taskRef = task.ref → c' = c := fun c' hc' ha' href' =>
    Table.eq_of_key hc' hc (hs.one c' hc' c hc ha' ha (href'.trans href))
  have hfinding := hs.finding htask
  cases hverdict : inspectTask s.claims s.backlog task with
  | consistent =>
      rw [hverdict] at hfinding
      cases hfinding with
      | free hfree => exact absurd href.symm (hfree c hc ha)
      | merged hmerged => exact .inl ⟨hmerged, rfl⟩
      | paired c' hc' ha' href' hstate =>
          rw [hsame c' hc' ha' href'] at hstate
          exact .inr (.inl ⟨hstate, rfl⟩)
  | started c' =>
      rw [hverdict] at hfinding
      cases hfinding with
      | started _ hc' href' hstate =>
          have ha' : c'.active = true := by
            rw [Claim.active, hstate]
            rfl
          rw [hsame c' hc' ha' href']
          exact .inr (.inr rfl)
  | mismatch c' =>
      rw [hverdict] at hfinding
      cases hfinding with
      | mismatch _ hc' ha' href' =>
          rw [hsame c' hc' ha' href'] at hverdict
          refine absurd rfl (hfails (c, "reconcile_status_mismatch") ?_)
          refine List.mem_append_right _ (List.mem_map_of_mem ?_)
          exact List.mem_filterMap.mpr ⟨task, htask, by rw [hverdict]; rfl⟩
  | missing =>
      rw [hverdict] at hfinding
      cases hfinding with
      | missing hfree => exact absurd href.symm (hfree c hc ha)

/-! ## The reconciled state -/

theorem Recoverable.kept {s : Project} (hs : Recoverable s) {ts : TaskStore}
    (hrepaired : RepairedTo s ts) {c : Claim} (hc : c ∈ s.events.runs)
    (ha : c.active = true) (hkept : reconcileFails s c = false) :
    ∃ status, statusAt ts c.taskRef = some status ∧
      (status.merged = true ∨ ClaimState.taskStatus c.state = some status) := by
  obtain ⟨task, htask, href, h⟩ := hs.survivor hc ha hkept
  have hstatus := hrepaired.status task htask
  rw [href] at hstatus
  refine ⟨_, hstatus, ?_⟩
  rcases h with ⟨hmerged, hv⟩ | ⟨hstate, hv⟩ | hv
  · rw [hv]
    exact .inl hmerged
  · rw [hv]
    exact .inr hstate
  · have hfinding := hs.finding htask
    rw [hv] at hfinding ⊢
    cases hfinding with
    | started _ _ _ hstarted =>
        rw [hstarted]
        exact .inr rfl

theorem Recoverable.not_failed {s : Project} (hs : Recoverable s) {task : Task}
    (htask : task ∈ s.backlog) {c : Claim} (hc : c ∈ s.events.runs)
    (href : c.taskRef = task.ref)
    (hv : ∀ c', inspectTask s.claims s.backlog task ≠ .mismatch c') :
    reconcileFails s c = false := by
  have hknown : knownTask s.backlog c.taskRef = true := by
    have hfind := findTask_of_mem (nodup_readProjectBacklog s.tasks) htask
    have hbacklog : findTask s.backlog c.taskRef = some task := href ▸ hfind
    rw [knownTask, hbacklog, href]
    simp [hs.ref_ne htask]
  refine Bool.eq_false_iff.mpr fun hfails => ?_
  obtain ⟨f, hf, hid⟩ := reconcileFails_iff.mp hfails
  have hsame : f.1 = c := Table.eq_of_key (mem_failedClaims hf).1 hc hid
  rw [failedClaims, duplicates_eq hs.one, List.map_nil, List.append_nil,
    List.mem_append] at hf
  rcases hf with hf | hf
  · obtain ⟨c', hc', rfl⟩ := List.mem_map.mp hf
    have horphan := (List.mem_filter.mp hc').2
    rw [show c' = c from hsame, hknown] at horphan
    simp at horphan
  · obtain ⟨c', hc', rfl⟩ := List.mem_map.mp hf
    obtain ⟨task', htask', hmismatched⟩ := List.mem_filterMap.mp hc'
    obtain ⟨-, -, -, href'⟩ := mem_activeClaimsOf.mp
      (activeClaimOf_mem (inspectTask_mismatched hmismatched))
    have htasks : task' = task := by
      have hnodup := nodup_readProjectBacklog s.tasks
      have hfind := findTask_of_mem hnodup htask
      have hfind' := findTask_of_mem hnodup htask'
      rw [← href', show c' = c from hsame, href, hfind] at hfind'
      exact (Option.some.inj hfind').symm
    rw [htasks] at hmismatched
    cases hverdict : inspectTask s.claims s.backlog task with
    | mismatch c'' => exact hv c'' hverdict
    | consistent | started | missing =>
        rw [hverdict] at hmismatched
        cases hmismatched

/-- A task that runs after the repairs has a claim that survives them. -/
theorem Recoverable.holder {s : Project} (hs : Recoverable s) {task : Task}
    (htask : task ∈ s.backlog) {status : TaskStatus}
    (hstatus : (repairTask (inspectTask s.claims s.backlog task) task).status =
      status) (hrunning : status.running = true) :
    inspectTask s.claims s.backlog task ≠ .missing ∧
      ∃ c, c ∈ s.events.runs ∧ c.taskRef = task.ref ∧ c.active = true ∧
        reconcileFails s c = false ∧
        ClaimState.taskStatus c.state = some status ∧
        c.runId ∈ s.tasks.runsAt task.ref := by
  have hfound := statusAt_of_findTask
    (findTask_of_mem (nodup_readProjectBacklog s.tasks) htask)
  have hbinding : ∀ c, c ∈ s.events.runs → c.active = true →
      c.taskRef = task.ref → task.status.running = true →
      c.runId ∈ s.tasks.runsAt task.ref := by
    intro c hc ha href hrun
    have hbacked := hs.backed c hc ha task.status (href ▸ hfound) hrun
    exact href ▸ hbacked.2
  have hfinding := hs.finding htask
  have hfails : ∀ c, c ∈ s.events.runs → c.taskRef = task.ref →
      (∀ c', inspectTask s.claims s.backlog task ≠ .mismatch c') →
      reconcileFails s c = false := fun c => hs.not_failed htask
  subst hstatus
  cases hv : inspectTask s.claims s.backlog task with
  | consistent =>
      rw [hv] at hfinding hfails hrunning
      refine ⟨by simp, ?_⟩
      cases hfinding with
      | free _ hidle =>
          rw [show task.status.running = true from hrunning] at hidle
          cases hidle
      | merged hmerged =>
          have hidle := TaskStatus.not_running_of_merged hmerged
          rw [show task.status.running = true from hrunning] at hidle
          cases hidle
      | paired c hc ha href hstate =>
          exact ⟨c, hc, href, ha, hfails c hc href (by simp), hstate,
            hbinding c hc ha href hrunning⟩
  | started c =>
      rw [hv] at hfinding hfails
      refine ⟨by simp, ?_⟩
      cases hfinding with
      | started _ hc href hstate hclaimed =>
          have ha : c.active = true := by
            rw [Claim.active, hstate]
            rfl
          refine ⟨c, hc, href, ha, hfails c hc href (by simp), ?_, ?_⟩
          · rw [hstate]
            rfl
          · exact hbinding c hc ha href (by rw [hclaimed]; rfl)
  | mismatch c =>
      rw [hv] at hfinding hrunning
      cases hfinding with
      | mismatch _ _ _ _ hidle =>
          rw [show task.status.running = true from hrunning] at hidle
          cases hidle
  | missing =>
      rw [hv] at hrunning
      cases hrunning

theorem Recoverable.reconciled {s : Project} (hs : Recoverable s) (now : Int) :
    ∃ t, reconcileState dates (dates.toISOString now) s = (.ok (), t) ∧
      Paired t ∧ ∀ c, c ∈ t.events.runs → c.active = true →
        Held t.tasks c.taskRef := by
  obtain ⟨ts, hrepairs, hrepaired⟩ := hs.repairs (dates.toISOString now)
  have hfailed : ∃ db, commitFailures dates s.claims
      (failedClaims s.claims s.backlog) (dates.toISOString now)
      (s.setTasks ts) = (.ok (), (s.setTasks ts).setEvents db) ∧
        Mutated (reconcileFails s) failClaim s.events.runs db.runs :=
    hs.failures now ts
  obtain ⟨db, hfailures, hmut⟩ := hfailed
  have hlive : ∀ c, c ∈ db.runs → c.active = true →
      c ∈ s.events.runs ∧ reconcileFails s c = false := by
    intro c hc ha
    obtain ⟨c₀, hc₀, ⟨-, rfl⟩ | ⟨hkept, rfl⟩⟩ := hmut.source hc
    · cases ha
    · exact ⟨hc₀, hkept⟩
  have hstays : ∀ c, c ∈ s.events.runs → reconcileFails s c = false →
      c ∈ db.runs := fun c hc hkept =>
    (hmut.mem c).mpr ⟨c, hc, by simp [hkept]⟩
  refine ⟨(s.setTasks ts).setEvents db, ?_, ⟨hmut.one hs.one, ?_, ?_⟩, ?_⟩
  · simp only [reconcileState, read_bind]
    exact (bind_of_ok hrepairs).trans hfailures
  · intro ref status hstatus hrunning
    obtain ⟨task, htask, rfl⟩ := hrepaired.known ref status hstatus
    have hrow := hrepaired.status task htask
    rw [show statusAt ts task.ref = some status from hstatus] at hrow
    cases hrow
    obtain ⟨hv, c, hc, href, ha, hkept, hstate, hbinding⟩ :=
      hs.holder htask rfl hrunning
    refine ⟨c, hstays c hc hkept, href, ha, hstate, ?_⟩
    change c.runId ∈ ts.runsAt task.ref
    rwa [hrepaired.runs task htask hv]
  · intro ref status hstatus hidle c hc ha href
    obtain ⟨hold, hkept⟩ := hlive c hc ha
    obtain ⟨status', hstatus', h⟩ := hs.kept hrepaired hold ha hkept
    rw [href, show statusAt ts ref = some status from hstatus] at hstatus'
    cases hstatus'
    rcases h with hmerged | hstate
    · rcases hidle with rfl | rfl | rfl <;> cases hmerged
    · cases hst : c.state <;> rw [hst] at hstate <;>
        rcases hidle with rfl | rfl | rfl <;> cases hstate
  · intro c hc ha
    obtain ⟨hold, hkept⟩ := hlive c hc ha
    obtain ⟨status, hstatus, h⟩ := hs.kept hrepaired hold ha hkept
    refine ⟨status, hstatus, h.symm.imp_left fun hstate => ?_⟩
    cases hst : c.state <;> rw [hst] at hstate <;> cases hstate <;> rfl

end OrcState.Lifecycle
