import OrcState.Lifecycle.ClaimsDir
import OrcState.Lifecycle.Recovery
import OrcState.Store.ReadBack
import Mathlib.Data.List.Count
import Mathlib.Data.String.Basic

/-!
# What one reconciliation leaves

From any two stores, however far apart, a reconciliation that returns leaves one
active claim for a task at most, the oldest, and none that its task contradicts.
It leaves a task running without a claim in one case: a task in progress whose
oldest claim has not started fails that claim and is itself left to the next
pass.
-/

namespace OrcState.Lifecycle

open OrcState.Contract OrcState.Foundation OrcState.Store
open OrcState.Foundation.Effect

variable {dates : DateApi} {s t : Project}

/-! ## The oldest claim -/

theorem duplicateOrder_iff {c c' : Claim} :
    duplicateOrder c c' = true ↔
      c.claimedAt < c'.claimedAt ∨
        c.claimedAt = c'.claimedAt ∧ c.runId ≤ c'.runId := by
  unfold duplicateOrder localeCompare
  cases h : compare c.claimedAt c'.claimedAt with
  | lt => simp [compare_lt_iff_lt.mp h]
  | gt =>
      have hgt := compare_gt_iff_gt.mp h
      simp [not_lt_of_gt hgt, ne_of_gt hgt]
  | eq =>
      have heq := Std.compare_eq_iff_eq.mp h
      simp [heq, compare_le_iff_le]

theorem duplicateOrder_total (c c' : Claim) :
    (duplicateOrder c c' || duplicateOrder c' c) = true := by
  rw [Bool.or_eq_true, duplicateOrder_iff, duplicateOrder_iff]
  rcases lt_trichotomy c.claimedAt c'.claimedAt with h | h | h
  · exact .inl (.inl h)
  · rcases le_total c.runId c'.runId with hid | hid
    · exact .inl (.inr ⟨h, hid⟩)
    · exact .inr (.inr ⟨h.symm, hid⟩)
  · exact .inr (.inl h)

theorem duplicateOrder_trans (c c' c'' : Claim)
    (h : duplicateOrder c c' = true) (h' : duplicateOrder c' c'' = true) :
    duplicateOrder c c'' = true := by
  rw [duplicateOrder_iff] at h h' ⊢
  rcases h with h | ⟨h, hid⟩
  · rcases h' with h' | ⟨h', -⟩
    · exact .inl (h.trans h')
    · exact .inl (h' ▸ h)
  · rcases h' with h' | ⟨h', hid'⟩
    · exact .inl (h ▸ h')
    · exact .inr ⟨h.trans h', hid.trans hid'⟩

theorem duplicateOrder_antisymm {c c' : Claim}
    (h : duplicateOrder c c' = true) (h' : duplicateOrder c' c = true) :
    c.runId = c'.runId := by
  rw [duplicateOrder_iff] at h h'
  rcases h with h | ⟨h, hid⟩
  · rcases h' with h' | ⟨h', -⟩
    · exact absurd h (not_lt_of_gt h')
    · exact absurd h (h' ▸ lt_irrefl _)
  · rcases h' with h' | ⟨-, hid'⟩
    · exact absurd h' (h ▸ lt_irrefl _)
    · exact le_antisymm hid hid'

/-- The active claim that comes first among those of its task. -/
structure Wins (s : Project) (c : Claim) : Prop where
  row : c ∈ s.events.runs
  active : c.active = true
  first : ∀ c', c' ∈ s.events.runs → c'.active = true →
    c'.taskRef = c.taskRef → duplicateOrder c c' = true

theorem Wins.unique {c c' : Claim} (h : Wins s c) (h' : Wins s c')
    (href : c.taskRef = c'.taskRef) : c = c' :=
  Table.eq_of_key h.row h'.row (duplicateOrder_antisymm
    (h.first c' h'.row h'.active href.symm) (h'.first c h.row h.active href))

theorem selectDuplicateClaimWinner_first {claims : List Claim} {c : Claim}
    (h : selectDuplicateClaimWinner claims = some c) :
    ∀ c' ∈ claims, duplicateOrder c c' = true := by
  intro c' hc'
  have hsorted := List.pairwise_mergeSort duplicateOrder_trans
    duplicateOrder_total claims
  have hmem : c' ∈ claims.mergeSort duplicateOrder := List.mem_mergeSort.mpr hc'
  unfold selectDuplicateClaimWinner at h
  cases hlist : claims.mergeSort duplicateOrder with
  | nil =>
      rw [hlist] at hmem
      cases hmem
  | cons first rest =>
      rw [hlist] at h hsorted hmem
      cases h
      rcases List.mem_cons.mp hmem with rfl | hrest
      · simpa using duplicateOrder_total c' c'
      · exact (List.pairwise_cons.mp hsorted).1 c' hrest

theorem activeClaimOf_iff {ref : TaskRef} {c : Claim} :
    activeClaimOf s.claims s.backlog ref = some c ↔
      Wins s c ∧ c.taskRef = ref ∧ knownTask s.backlog ref = true := by
  have hfound : ∀ {kept}, activeClaimOf s.claims s.backlog ref = some kept →
      Wins s kept ∧ kept.taskRef = ref ∧ knownTask s.backlog ref = true := by
    intro kept h
    obtain ⟨hrow, ha, hknown, href⟩ := mem_activeClaimsOf.mp (activeClaimOf_mem h)
    refine ⟨⟨hrow, ha, fun c' hc' ha' href' => ?_⟩, href, href ▸ hknown⟩
    have hmem : c' ∈ activeClaimsOf s.claims s.backlog ref :=
      mem_activeClaimsOf.mpr
        ⟨hc', ha', href' ▸ hknown, href'.trans href⟩
    unfold activeClaimOf at h
    cases hclaims : activeClaimsOf s.claims s.backlog ref with
    | nil =>
        rw [hclaims] at h
        cases h
    | cons a rest =>
        rw [hclaims] at h hmem
        cases rest with
        | nil =>
            cases h
            rw [List.mem_singleton.mp hmem]
            simpa using duplicateOrder_total kept kept
        | cons b rest => exact selectDuplicateClaimWinner_first h c' hmem
  constructor
  · exact hfound
  · rintro ⟨hwins, href, hknown⟩
    cases hkept : activeClaimOf s.claims s.backlog ref with
    | none =>
        have hmem := mem_activeClaimsOf.mpr
          ⟨hwins.row, hwins.active, href ▸ hknown, href⟩
        rw [activeClaimOf_none hkept] at hmem
        cases hmem
    | some kept =>
        obtain ⟨hkept', href', -⟩ := hfound hkept
        rw [hkept'.unique hwins (href'.trans href.symm)]

/-! ## The claims that cannot stay -/

/-- A claim in the state may hold a task of the status: the task is merged, has
the state's own status, or has not been seen to start. -/
def Suits (state : ClaimState) (status : TaskStatus) : Prop :=
  status.merged = true ∨ ClaimState.taskStatus state = some status ∨
    state = .inProgress ∧ status = .claimed

/-- Active, but not the oldest active claim of a known task that it suits. -/
def Faulty (s : Project) (c : Claim) : Prop :=
  c.active = true ∧ ¬ (Wins s c ∧ ∃ task, task ∈ s.backlog ∧ task.ref ≠ "" ∧
    task.ref = c.taskRef ∧ Suits c.state task.status)

theorem knownTask_iff {ref : TaskRef} :
    knownTask s.backlog ref = true ↔
      ref ≠ "" ∧ ∃ task, task ∈ s.backlog ∧ task.ref = ref := by
  unfold knownTask
  rw [Bool.and_eq_true, decide_eq_true_eq, Option.isSome_iff_exists]
  refine and_congr_right fun _ => ⟨?_, ?_⟩
  · rintro ⟨task, hfind⟩
    exact ⟨task, findTask_eq_some hfind⟩
  · rintro ⟨task, htask, rfl⟩
    exact ⟨task, findTask_of_mem (nodup_readProjectBacklog s.tasks) htask⟩

theorem task_unique {task task' : Task} (h : task ∈ s.backlog)
    (h' : task' ∈ s.backlog) (href : task.ref = task'.ref) : task = task' := by
  have hnodup := nodup_readProjectBacklog s.tasks
  have hfind := findTask_of_mem hnodup h
  rw [href, findTask_of_mem hnodup h'] at hfind
  exact (Option.some.inj hfind).symm

def verdictOf (c : Claim) (status : TaskStatus) : Verdict :=
  if status.merged = true ∨ ClaimState.taskStatus c.state = some status then
    .consistent
  else if c.state = .inProgress ∧ status = .claimed then .started c
  else .mismatch c

theorem inspectTask_of_wins {task : Task} (htask : task ∈ s.backlog)
    (hne : task.ref ≠ "") {c : Claim} (hc : Wins s c)
    (href : c.taskRef = task.ref) :
    inspectTask s.claims s.backlog task = verdictOf c task.status := by
  have hkept : activeClaimOf s.claims s.backlog task.ref = some c :=
    activeClaimOf_iff.mpr ⟨hc, href, knownTask_iff.mpr ⟨hne, task, htask, rfl⟩⟩
  have hactive := hc.active
  unfold inspectTask verdictOf
  rw [if_neg hne, hkept]
  cases hstate : c.state with
  | claimed | inProgress =>
      cases task.status <;>
        simp [hstate, TaskStatus.merged, ClaimState.taskStatus]
  | done | failed =>
      rw [Claim.active, hstate] at hactive
      cases hactive

theorem inspectTask_of_unclaimed {task : Task}
    (h : ∀ c, Wins s c → c.taskRef ≠ task.ref) :
    inspectTask s.claims s.backlog task =
      if task.ref ≠ "" ∧ task.status.running = true then .missing
      else .consistent := by
  unfold inspectTask
  by_cases hne : task.ref = ""
  · simp [hne]
  · cases hkept : activeClaimOf s.claims s.backlog task.ref with
    | none => simp [hne]
    | some c =>
        obtain ⟨hc, href, -⟩ := activeClaimOf_iff.mp hkept
        exact absurd href (h c hc)

theorem inspectTask_mismatch_iff {task : Task} (htask : task ∈ s.backlog)
    {c : Claim} :
    inspectTask s.claims s.backlog task = .mismatch c ↔
      task.ref ≠ "" ∧ Wins s c ∧ c.taskRef = task.ref ∧
        ¬ Suits c.state task.status := by
  constructor
  · intro h
    have hmismatched : (inspectTask s.claims s.backlog task).mismatched = some c := by
      rw [h]
      rfl
    obtain ⟨hc, href, hknown⟩ :=
      activeClaimOf_iff.mp (inspectTask_mismatched hmismatched)
    have hne := (knownTask_iff.mp hknown).1
    rw [inspectTask_of_wins htask hne hc href] at h
    refine ⟨hne, hc, href, fun hsuits => ?_⟩
    unfold verdictOf at h
    rcases hsuits with hsuits | hsuits | hsuits
    · rw [if_pos (.inl hsuits)] at h
      cases h
    · rw [if_pos (.inr hsuits)] at h
      cases h
    · split at h
      · cases h
      · cases h
  · rintro ⟨hne, hc, href, hsuits⟩
    rw [inspectTask_of_wins htask hne hc href, verdictOf,
      if_neg fun h => hsuits (h.imp_right .inl),
      if_neg fun h => hsuits (.inr (.inr h))]

theorem inspectTask_cases {task : Task} (htask : task ∈ s.backlog)
    (hne : task.ref ≠ "") :
    (∃ c, Wins s c ∧ c.taskRef = task.ref ∧
        inspectTask s.claims s.backlog task = verdictOf c task.status) ∨
      (∀ c, Wins s c → c.taskRef ≠ task.ref) ∧
        inspectTask s.claims s.backlog task =
          if task.status.running = true then .missing else .consistent := by
  by_cases hheld : ∃ c, Wins s c ∧ c.taskRef = task.ref
  · obtain ⟨c, hc, href⟩ := hheld
    exact .inl ⟨c, hc, href, inspectTask_of_wins htask hne hc href⟩
  · have hfree : ∀ c, Wins s c → c.taskRef ≠ task.ref :=
      fun c hc href => hheld ⟨c, hc, href⟩
    refine .inr ⟨hfree, (inspectTask_of_unclaimed hfree).trans ?_⟩
    simp [hne]

theorem inspectTask_started {task : Task} (htask : task ∈ s.backlog)
    {c : Claim} (h : inspectTask s.claims s.backlog task = .started c) :
    task.ref ≠ "" ∧ Wins s c ∧ c.taskRef = task.ref ∧ c.state = .inProgress ∧
      task.status = .claimed := by
  have hne : task.ref ≠ "" := by
    intro hempty
    rw [inspectTask, if_pos hempty] at h
    cases h
  rcases inspectTask_cases htask hne with ⟨c', hc', href, hverdict⟩ | ⟨-, hverdict⟩
  · rw [hverdict] at h
    unfold verdictOf at h
    split at h
    · cases h
    · split at h
      · rename_i hstarted
        cases h
        exact ⟨hne, hc', href, hstarted⟩
      · cases h
  · rw [hverdict] at h
    split at h
    · cases h
    · cases h

theorem inspectTask_unheld {task : Task} (htask : task ∈ s.backlog)
    (h : inspectTask s.claims s.backlog task = .missing) :
    task.ref ≠ "" ∧ task.status.running = true ∧
      ∀ c, Wins s c → c.taskRef ≠ task.ref := by
  have hne := (inspectTask_missing h).1
  rcases inspectTask_cases htask hne with ⟨c', hc', href, hverdict⟩ | ⟨hfree, hverdict⟩
  · rw [hverdict] at h
    unfold verdictOf at h
    split at h
    · cases h
    · split at h
      · cases h
      · cases h
  · rw [hverdict] at h
    split at h
    · rename_i hrunning
      exact ⟨hne, hrunning, hfree⟩
    · cases h

theorem mem_duplicates {c : Claim} :
    c ∈ duplicates s.claims s.backlog ↔
      c ∈ s.events.runs ∧ c.active = true ∧
        knownTask s.backlog c.taskRef = true ∧ ¬ Wins s c := by
  have hrefs : ∀ ref, ref ∈ ((s.claims.filter fun c =>
        c.active && knownTask s.backlog c.taskRef).map Claim.taskRef).eraseDups ↔
      ∃ c, c ∈ s.events.runs ∧ c.active = true ∧
        knownTask s.backlog c.taskRef = true ∧ c.taskRef = ref := by
    intro ref
    simp [List.mem_eraseDups, Project.claims, Table.mem_rows, and_assoc]
  simp only [duplicates, List.mem_flatMap, List.mem_filter, hrefs]
  constructor
  · rintro ⟨ref, -, hmem, hany⟩
    obtain ⟨hrow, ha, hknown, href⟩ := mem_activeClaimsOf.mp hmem
    obtain ⟨kept, hkept, hne⟩ := (Option.any_eq_true _ _).mp hany
    obtain ⟨hwins, hkref, -⟩ := activeClaimOf_iff.mp hkept
    refine ⟨hrow, ha, hknown, fun hc => of_decide_eq_true hne ?_⟩
    rw [hc.unique hwins (href.trans hkref.symm)]
  · rintro ⟨hrow, ha, hknown, hlost⟩
    refine ⟨c.taskRef, ⟨c, hrow, ha, hknown, rfl⟩,
      mem_activeClaimsOf.mpr ⟨hrow, ha, hknown, rfl⟩, ?_⟩
    cases hkept : activeClaimOf s.claims s.backlog c.taskRef with
    | none =>
        have hmem := mem_activeClaimsOf.mpr ⟨hrow, ha, hknown, rfl⟩
        rw [activeClaimOf_none hkept] at hmem
        cases hmem
    | some kept =>
        obtain ⟨hwins, -, -⟩ := activeClaimOf_iff.mp hkept
        rw [Option.any_some, decide_eq_true_eq]
        intro hid
        exact hlost (Table.eq_of_key hrow hwins.row hid ▸ hwins)

theorem mem_failedClaims_iff {c : Claim} :
    (∃ f, f ∈ failedClaims s.claims s.backlog ∧ f.1 = c) ↔
      c ∈ s.events.runs ∧ Faulty s c := by
  have hparts : (∃ f, f ∈ failedClaims s.claims s.backlog ∧ f.1 = c) ↔
      c ∈ orphans s.claims s.backlog ∨ c ∈ duplicates s.claims s.backlog ∨
        ∃ task, task ∈ s.backlog ∧
          inspectTask s.claims s.backlog task = .mismatch c := by
    have hmismatched : ∀ task, (inspectTask s.claims s.backlog task).mismatched =
        some c ↔ inspectTask s.claims s.backlog task = .mismatch c := by
      intro task
      cases inspectTask s.claims s.backlog task <;> simp [Verdict.mismatched]
    simp only [failedClaims, List.mem_append, List.mem_map, List.mem_filterMap]
    constructor
    · rintro ⟨f, (⟨c', hc', rfl⟩ | ⟨c', hc', rfl⟩) | ⟨c', ⟨task, htask, hc'⟩, rfl⟩, rfl⟩
      · exact .inl hc'
      · exact .inr (.inl hc')
      · exact .inr (.inr ⟨task, htask, (hmismatched task).mp hc'⟩)
    · rintro (hc | hc | ⟨task, htask, hc⟩)
      · exact ⟨_, .inl (.inl ⟨c, hc, rfl⟩), rfl⟩
      · exact ⟨_, .inl (.inr ⟨c, hc, rfl⟩), rfl⟩
      · exact ⟨_, .inr ⟨c, ⟨task, htask, (hmismatched task).mpr hc⟩, rfl⟩, rfl⟩
  rw [hparts, mem_duplicates, orphans, List.mem_filter, Project.claims,
    Table.mem_rows, Bool.and_eq_true, Bool.not_eq_true']
  constructor
  · rintro (⟨hrow, ha, hknown⟩ | ⟨hrow, ha, -, hlost⟩ | ⟨task, htask, hc⟩)
    · refine ⟨hrow, ha, ?_⟩
      rintro ⟨-, task, htask, hne, href, -⟩
      rw [knownTask_iff.mpr ⟨href ▸ hne, task, htask, href⟩] at hknown
      cases hknown
    · exact ⟨hrow, ha, fun h => hlost h.1⟩
    · obtain ⟨hne, hwins, href, hsuits⟩ := (inspectTask_mismatch_iff htask).mp hc
      refine ⟨hwins.row, hwins.active, ?_⟩
      rintro ⟨-, task', htask', -, href', hsuits'⟩
      rw [task_unique htask' htask (href'.trans href)] at hsuits'
      exact hsuits hsuits'
  · rintro ⟨hrow, ha, hno⟩
    by_cases hknown : knownTask s.backlog c.taskRef = true
    · by_cases hwins : Wins s c
      · obtain ⟨hne, task, htask, href⟩ := knownTask_iff.mp hknown
        refine .inr (.inr ⟨task, htask, (inspectTask_mismatch_iff htask).mpr
          ⟨href ▸ hne, hwins, href.symm, fun hsuits => hno ?_⟩⟩)
        exact ⟨hwins, task, htask, href ▸ hne, href, hsuits⟩
      · exact .inr (.inl ⟨hrow, ha, hknown, hwins⟩)
    · exact .inl ⟨hrow, ha, Bool.eq_false_iff.mpr hknown⟩

theorem reconcileFails_faulty {c : Claim} (hc : c ∈ s.events.runs) :
    reconcileFails s c = true ↔ Faulty s c := by
  rw [reconcileFails_iff]
  constructor
  · rintro ⟨f, hf, hid⟩
    have hsame : f.1 = c := Table.eq_of_key (mem_failedClaims hf).1 hc hid
    exact (mem_failedClaims_iff.mp ⟨f, hf, hsame⟩).2
  · intro h
    obtain ⟨f, hf, rfl⟩ := mem_failedClaims_iff.mpr ⟨hc, h⟩
    exact ⟨f, hf, rfl⟩

/-! ## What the pass writes -/

def reportsFailure (runId : RunId) (event : OrcEvent) : Bool :=
  event.event = .runFailed && event.actorId = "reconcile" &&
    event.runId = some runId

def Project.failuresReported (s : Project) (runId : RunId) : Nat :=
  s.events.events.countP (reportsFailure runId)

theorem reported_failed (s : Project) (now : String) (id : RunId) :
    ((failedClaims s.claims s.backlog).map (reconcileEvent now)).countP
        (reportsFailure id) =
      ((failedClaims s.claims s.backlog).map fun f => f.1.runId).count id := by
  rw [List.countP_map, List.count, List.countP_map]
  refine List.countP_congr fun f _ => ?_
  simp [reportsFailure, reconcileEvent, runEvent]

/-- `t` is what a pass over `s` wrote: the repaired tasks, the claims with those
it failed, and a report for each of these. -/
structure Reconciled (now : String) (s t : Project) : Prop where
  tasks : repairChanges s = [] ∧ t.tasks = s.tasks ∨
    commitBacklog (repairedBacklog s) (repairChanges s) now s.tasks =
      .ok ((), t.tasks)
  claims : ∀ c, c ∈ t.events.runs ↔ ∃ c₀, c₀ ∈ s.events.runs ∧
    (if reconcileFails s c₀ then failClaim c₀ else c₀) = c
  reports : ∀ id, t.failuresReported id = s.failuresReported id +
    ((failedClaims s.claims s.backlog).map fun f => f.1.runId).count id

theorem reconciled_claims {now : String} (h : Reconciled now s t) (c : Claim) :
    c ∈ t.events.runs ↔
      c ∈ s.events.runs ∧ ¬ Faulty s c ∨
        ∃ c₀, c₀ ∈ s.events.runs ∧ Faulty s c₀ ∧ c = failClaim c₀ := by
  rw [h.claims]
  constructor
  · rintro ⟨c₀, hc₀, hc⟩
    by_cases hfaulty : Faulty s c₀
    · rw [if_pos ((reconcileFails_faulty hc₀).mpr hfaulty)] at hc
      exact .inr ⟨c₀, hc₀, hfaulty, hc.symm⟩
    · rw [if_neg fun hf => hfaulty ((reconcileFails_faulty hc₀).mp hf)] at hc
      exact .inl (hc ▸ ⟨hc₀, hfaulty⟩)
  · rintro (⟨hc, hsound⟩ | ⟨c₀, hc₀, hfaulty, rfl⟩)
    · exact ⟨c, hc, if_neg fun hf => hsound ((reconcileFails_faulty hc).mp hf)⟩
    · exact ⟨c₀, hc₀, if_pos ((reconcileFails_faulty hc₀).mpr hfaulty)⟩

/-! ## The tasks after the pass -/

def mendTask (verdict : Verdict) (task : Task) : Task :=
  match verdict with
  | .started _ => { task with status := .inProgress, blockedReason := none }
  | .missing => { task with status := .todo, blockedReason := none }
  | _ => task

theorem mendTask_ref (verdict : Verdict) (task : Task) :
    (mendTask verdict task).ref = task.ref := by
  cases verdict with
  | consistent | mismatch | started | missing => rfl

theorem read_moved (current : ProjectTask) (status : TaskStatus)
    (hstatus : status ≠ .blocked) (reason : Option String) (now : String) :
    projectTaskToBacklogTask
        (ProjectTask.dispatched
          (committedDispatch (projectTaskToBacklogTask current) current)
          (projectTaskToBacklogTask current).attemptCount
          (ProjectTask.moved status reason now current)) =
      { projectTaskToBacklogTask current with
        status := status, blockedReason := none } := by
  have hsame := read_untouched current
  simp only [projectTaskToBacklogTask, Task.mk.injEq, ProjectTask.dispatched,
    ProjectTask.moved, if_neg hstatus] at hsame ⊢
  obtain ⟨-, -, -, htype, -, hdelegated, -, hrequeue, -, howner, -⟩ := hsame
  exact ⟨trivial, rfl, trivial, htype, rfl, hdelegated, trivial, hrequeue,
    rfl, howner, trivial⟩

theorem reconciled_task {now : String}
    (h : Reconciled now s t) {task : Task}
    (htask : task ∈ s.backlog) :
    mendTask (inspectTask s.claims s.backlog task) task ∈ t.backlog := by
  have hnodup : (s.backlog.map Task.ref).Nodup := nodup_readProjectBacklog s.tasks
  rcases h.tasks with ⟨hnone, htasks⟩ | hts
  · have hno := List.filterMap_eq_nil_iff.mp hnone task htask
    rw [Project.backlog, htasks]
    cases hverdict : inspectTask s.claims s.backlog task with
    | consistent | mismatch => exact htask
    | started | missing =>
        rw [hverdict] at hno
        cases hno
  have hrefs := repairedBacklog_refs s
  obtain ⟨current, row, hbefore, hstatus, -, hafter⟩ :=
    (commitBacklog_rows (hrefs ▸ hnodup) hts).1 _ (List.mem_map_of_mem htask)
  rw [repairTask_ref] at hbefore hafter
  change s.tasks.getTask task.ref = some current at hbefore
  change t.tasks.getTask task.ref = some _ at hafter
  have hread := read_of_getTask hbefore htask rfl
  have hkeyless : ∀ change, (repairChanges s).lookup
      (repairTask (inspectTask s.claims s.backlog task) task).ref = some change →
        change.idempotencyKey = none := fun change hchange =>
    (lookup_ordinary (repairChanges_ordinary s) hchange).1
  refine mem_readProjectBacklog.mpr ⟨_, (Table.find?_eq_some.mp hafter).1, ?_⟩
  subst hread
  cases hstatus with
  | kept hsame =>
      cases hverdict : inspectTask s.claims s.backlog
          (projectTaskToBacklogTask current) with
      | consistent | mismatch => exact read_untouched current
      | started c =>
          rw [hverdict] at hsame
          have hstarted := (inspectTask_started htask hverdict).2.2.2.2
          have hclash : TaskStatus.claimed = .inProgress :=
            hstarted.symm.trans hsame.symm
          cases hclash
      | missing =>
          rw [hverdict] at hsame
          have hrunning := (inspectTask_unheld htask hverdict).2.1
          rw [show (projectTaskToBacklogTask current).status = .todo from
            hsame.symm] at hrunning
          cases hrunning
  | moved change hne hchange hnew =>
      cases hverdict : inspectTask s.claims s.backlog
          (projectTaskToBacklogTask current) with
      | consistent | mismatch =>
          rw [hverdict] at hne
          exact absurd rfl hne
      | started c => exact read_moved current .inProgress (by decide) _ now
      | missing => exact read_moved current .todo (by decide) _ now
  | repeated change hne hchange hkey =>
      rw [hkeyless change hchange] at hkey
      cases hkey

theorem reconciled_ref {now : String}
    (h : Reconciled now s t) {task : Task}
    (htask : task ∈ t.backlog) :
    ∃ task₀, task₀ ∈ s.backlog ∧
      task = mendTask (inspectTask s.claims s.backlog task₀) task₀ := by
  have hknown : ∃ task₀, task₀ ∈ s.backlog ∧ task₀.ref = task.ref := by
    by_contra hno
    have hnone : s.tasks.getTask task.ref = none := by
      cases hrow : s.tasks.getTask task.ref with
      | none => rfl
      | some row =>
          obtain ⟨hmem, href⟩ := Table.find?_eq_some.mp hrow
          exact absurd ⟨_, mem_readProjectBacklog.mpr ⟨row, hmem, rfl⟩, href⟩ hno
    have hstill : t.tasks.getTask task.ref = none := by
      rcases h.tasks with ⟨-, htasks⟩ | hts
      · rw [htasks]
        exact hnone
      · have hrefs := repairedBacklog_refs s
        have hother := (commitBacklog_rows
          (hrefs ▸ nodup_readProjectBacklog s.tasks) hts).2 task.ref fun hmem => by
            rw [hrefs] at hmem
            obtain ⟨task₀, htask₀, href⟩ := List.mem_map.mp hmem
            exact hno ⟨task₀, htask₀, href⟩
        exact (congrArg Prod.fst hother).trans hnone
    obtain ⟨row, hrow, hentry⟩ := mem_readProjectBacklog.mp htask
    have hkey : row.ref = task.ref := by
      rw [← hentry]
      rfl
    exact Table.find?_eq_none.mp hstill row hrow hkey
  obtain ⟨task₀, htask₀, href⟩ := hknown
  have hmended := reconciled_task h htask₀
  refine ⟨task₀, htask₀, task_unique htask hmended ?_⟩
  rw [mendTask_ref, href]

/-! ## The settled state -/

inductive Mended (s : Project) (task : Task) : Task → Prop
  | kept : Mended s task task
  | started (c : Claim) (hc : Wins s c) (href : c.taskRef = task.ref)
      (hstate : c.state = .inProgress) (hstatus : task.status = .claimed) :
      Mended s task { task with status := .inProgress, blockedReason := none }
  | requeued (hrunning : task.status.running = true)
      (hfree : Unclaimed s.events.runs task.ref) :
      Mended s task { task with status := .todo, blockedReason := none }

/-- `t` is `s` with everything repaired, and nothing else changed. -/
structure Restored (s t : Project) : Prop where
  one : OneActive t.events.runs
  oldest : ∀ c, c ∈ t.events.runs → c.active = true → ∀ c', c' ∈ s.events.runs →
    c'.active = true → c'.taskRef = c.taskRef → c.claimedAt ≤ c'.claimedAt
  matched : ∀ c, c ∈ t.events.runs → c.active = true →
    ∃ task, task ∈ t.backlog ∧ task.ref = c.taskRef ∧
      (ClaimState.taskStatus c.state = some task.status ∨
        task.status.merged = true)
  held : ∀ task, task ∈ t.backlog → task.status.running = true →
    ∃ c, c ∈ t.events.runs ∧ c.active = true ∧ c.taskRef = task.ref
  claims : ∀ c, c ∈ t.events.runs ↔
    c ∈ s.events.runs ∧ ¬ Faulty s c ∨
      ∃ c₀, c₀ ∈ s.events.runs ∧ Faulty s c₀ ∧ c = failClaim c₀
  reported : ∀ c, c ∈ s.events.runs → Faulty s c →
    t.failuresReported c.runId = s.failuresReported c.runId + 1
  silent : ∀ id, (∀ c, c ∈ s.events.runs → Faulty s c → c.runId ≠ id) →
    t.failuresReported id = s.failuresReported id
  tasks : ∀ task, task ∈ s.backlog → ∃ task', task' ∈ t.backlog ∧
    Mended s task task'
  known : ∀ task, task ∈ t.backlog → ∃ task₀, task₀ ∈ s.backlog ∧
    Mended s task₀ task

/-- The pass from `d` repaired everything, and a second one changes nothing. -/
structure Settled (dates : DateApi) (d d' : ClaimsDir) : Prop where
  restored : Restored d.loaded d'.loaded
  again : ∀ now, ClaimsDir.reconcileState dates now d' = (.ok (), d')

/-- A running task has a name, and one in progress is so by its oldest claim. -/
structure Repairable (s : Project) : Prop where
  named : ∀ task, task ∈ s.backlog → task.status.running = true → task.ref ≠ ""
  backed : ∀ task, task ∈ s.backlog → task.status = .inProgress →
    ∀ c, c ∈ s.events.runs → c.active = true → c.taskRef = task.ref →
      (∀ c', c' ∈ s.events.runs → c'.active = true → c'.taskRef = task.ref →
        duplicateOrder c c' = true) → c.state = .inProgress

theorem exists_wins {c : Claim} (hc : c ∈ s.events.runs) (ha : c.active = true)
    {task : Task} (htask : task ∈ s.backlog) (hne : task.ref ≠ "")
    (href : c.taskRef = task.ref) : ∃ w, Wins s w ∧ w.taskRef = task.ref := by
  have hknown := knownTask_iff.mpr ⟨hne, task, htask, rfl⟩
  cases hkept : activeClaimOf s.claims s.backlog task.ref with
  | none =>
      have hmem := mem_activeClaimsOf.mpr ⟨hc, ha, href ▸ hknown, href⟩
      rw [activeClaimOf_none hkept] at hmem
      cases hmem
  | some w =>
      obtain ⟨hw, hwref, -⟩ := activeClaimOf_iff.mp hkept
      exact ⟨w, hw, hwref⟩

theorem mended_mendTask {task : Task} (htask : task ∈ s.backlog) :
    Mended s task (mendTask (inspectTask s.claims s.backlog task) task) := by
  cases hverdict : inspectTask s.claims s.backlog task with
  | consistent | mismatch => exact .kept
  | started c =>
      obtain ⟨-, hc, href, hstate, hstatus⟩ := inspectTask_started htask hverdict
      exact .started c hc href hstate hstatus
  | missing =>
      obtain ⟨hne, hrunning, hfree⟩ := inspectTask_unheld htask hverdict
      refine .requeued hrunning fun c hc ha href => ?_
      obtain ⟨w, hw, hwref⟩ := exists_wins hc ha htask hne href
      exact hfree w hw hwref

theorem survivor {now : String} (h : Reconciled now s t)
    {c : Claim} (hc : c ∈ t.events.runs) (ha : c.active = true) :
    Wins s c ∧ ∃ task, task ∈ s.backlog ∧ task.ref ≠ "" ∧
      task.ref = c.taskRef ∧ Suits c.state task.status := by
  rcases (reconciled_claims h c).mp hc with ⟨-, hsound⟩ | ⟨c₀, -, -, rfl⟩
  · exact not_not.mp fun hno => hsound ⟨ha, hno⟩
  · cases ha

theorem survivor_task {now : String}
    (h : Reconciled now s t) {c : Claim}
    (hc : c ∈ t.events.runs) (ha : c.active = true) :
    ∃ task, task ∈ t.backlog ∧ task.ref = c.taskRef ∧
      (ClaimState.taskStatus c.state = some task.status ∨
        task.status.merged = true) := by
  obtain ⟨hwins, task, htask, hne, href, hsuits⟩ := survivor h hc ha
  have hverdict := inspectTask_of_wins htask hne hwins href.symm
  refine ⟨_, reconciled_task h htask, (mendTask_ref _ _).trans href, ?_⟩
  rw [hverdict, verdictOf]
  rcases hsuits with hmerged | hmatch | hstarted
  · rw [if_pos (.inl hmerged)]
    exact .inr hmerged
  · rw [if_pos (.inr hmatch)]
    exact .inl hmatch
  · rw [if_neg, if_pos hstarted, hstarted.1]
    · exact .inl rfl
    · rw [hstarted.1, hstarted.2]
      decide

/-- No claim is faulty and no task needs a repair. -/
structure Idle (s : Project) : Prop where
  claims : ∀ c, c ∈ s.events.runs → ¬ Faulty s c
  tasks : ∀ task, task ∈ s.backlog →
    inspectTask s.claims s.backlog task = .consistent

theorem Idle.failed (hs : Idle s) : failedClaims s.claims s.backlog = [] := by
  refine List.eq_nil_iff_forall_not_mem.mpr fun f hf => ?_
  obtain ⟨hrow, hfaulty⟩ := mem_failedClaims_iff.mp ⟨f, hf, rfl⟩
  exact hs.claims f.1 hrow hfaulty

theorem Idle.changes (hs : Idle s) : repairChanges s = [] := by
  refine List.filterMap_eq_nil_iff.mpr fun task htask => ?_
  rw [hs.tasks task htask]
  rfl

theorem survivors_one {now : String}
    (h : Reconciled now s t) : OneActive t.events.runs := by
  intro c hc c' hc' ha ha' href
  obtain ⟨hwins, -⟩ := survivor h hc ha
  obtain ⟨hwins', -⟩ := survivor h hc' ha'
  rw [hwins.unique hwins' href]

theorem survivor_wins {now : String}
    (h : Reconciled now s t) {c : Claim}
    (hc : c ∈ t.events.runs) (ha : c.active = true) : Wins t c := by
  refine ⟨hc, ha, fun c' hc' ha' href => ?_⟩
  have hsame : c' = c := Table.eq_of_key hc' hc
    (survivors_one h c' hc' c hc ha' ha href)
  rw [hsame]
  simpa using duplicateOrder_total c c

/-- After the pass each claim stands and each task is consistent with its claim,
so that the next pass has nothing to do. -/
theorem reconciled_idle {now : String} (h : Reconciled now s t)
    (hheld : ∀ task, task ∈ t.backlog → task.status.running = true →
      ∃ c, c ∈ t.events.runs ∧ c.active = true ∧ c.taskRef = task.ref) :
    Idle t := by
  have hne : ∀ {c : Claim}, c ∈ t.events.runs → c.active = true →
      c.taskRef ≠ "" := by
    intro c hc ha
    obtain ⟨-, task, -, hne, href, -⟩ := survivor h hc ha
    exact href ▸ hne
  refine ⟨fun c hc hfaulty => ?_, fun task htask => ?_⟩
  · obtain ⟨task, htask, href, hstatus⟩ := survivor_task h hc hfaulty.1
    refine hfaulty.2 ⟨survivor_wins h hc hfaulty.1, task, htask,
      href ▸ hne hc hfaulty.1, href, ?_⟩
    rcases hstatus with hmatch | hmerged
    · exact .inr (.inl hmatch)
    · exact .inl hmerged
  · by_cases hclaimed : ∃ c, Wins t c ∧ c.taskRef = task.ref
    · obtain ⟨c, hwins, href⟩ := hclaimed
      have hname : task.ref ≠ "" := href ▸ hne hwins.row hwins.active
      obtain ⟨task', htask', href', hstatus⟩ :=
        survivor_task h hwins.row hwins.active
      rw [task_unique htask' htask (href'.trans href)] at hstatus
      rw [inspectTask_of_wins htask hname hwins href, verdictOf,
        if_pos hstatus.symm]
    · have hfree : ∀ c, Wins t c → c.taskRef ≠ task.ref :=
        fun c hc href => hclaimed ⟨c, hc, href⟩
      rw [inspectTask_of_unclaimed hfree, if_neg]
      rintro ⟨-, hrunning⟩
      obtain ⟨c, hc, ha, href⟩ := hheld task htask hrunning
      exact hclaimed ⟨c, survivor_wins h hc ha, href⟩

theorem Repairable.held (hs : Repairable s) {now : String}
    (h : Reconciled now s t) {task : Task}
    (htask : task ∈ t.backlog) (hrunning : task.status.running = true) :
    ∃ c, c ∈ t.events.runs ∧ c.active = true ∧ c.taskRef = task.ref := by
  obtain ⟨task₀, htask₀, rfl⟩ := reconciled_ref h htask
  rw [mendTask_ref]
  by_cases hempty : task₀.ref = ""
  · rw [inspectTask, if_pos hempty] at hrunning
    exact absurd hempty (hs.named task₀ htask₀ hrunning)
  rcases inspectTask_cases htask₀ hempty with
    ⟨c, hwins, href, hverdict⟩ | ⟨-, hverdict⟩
  · refine ⟨c, (reconciled_claims h c).mpr (.inl ⟨hwins.row, fun hfaulty => ?_⟩),
      hwins.active, href⟩
    refine hfaulty.2 ⟨hwins, task₀, htask₀, hempty, href.symm, ?_⟩
    rw [hverdict, verdictOf] at hrunning
    by_cases hfits : task₀.status.merged = true ∨
        ClaimState.taskStatus c.state = some task₀.status
    · exact hfits.imp_right .inl
    rw [if_neg hfits] at hrunning
    by_cases hstarted : c.state = .inProgress ∧ task₀.status = .claimed
    · exact .inr (.inr hstarted)
    rw [if_neg hstarted] at hrunning
    -- the claim would fail and leave the task running
    change task₀.status.running = true at hrunning
    have hactive := hwins.active
    cases hstatus : task₀.status with
    | claimed =>
        cases hstate : c.state with
        | claimed => exact .inr (.inl rfl)
        | inProgress => exact absurd ⟨hstate, hstatus⟩ hstarted
        | done | failed =>
            rw [Claim.active, hstate] at hactive
            cases hactive
    | inProgress =>
        have hstate := hs.backed task₀ htask₀ hstatus c hwins.row hwins.active
          href fun c' hc' ha' href' => hwins.first c' hc' ha' (href'.trans href.symm)
        rw [hstate]
        exact .inr (.inl rfl)
    | todo | blocked | done | released | cancelled =>
        rw [hstatus] at hrunning
        cases hrunning
  · rw [hverdict] at hrunning
    split at hrunning
    · cases hrunning
    · rename_i hidle
      exact absurd hrunning hidle

theorem Restored.named {now : String} (hsettled : Restored s t)
    (h : Reconciled now s t) {task : Task} (htask : task ∈ s.backlog)
    (hrunning : task.status.running = true) : task.ref ≠ "" := by
  intro hempty
  have hmem := reconciled_task h htask
  rw [inspectTask, if_pos hempty] at hmem
  obtain ⟨c, hc, ha, href⟩ := hsettled.held task hmem hrunning
  obtain ⟨-, task', -, hne, href', -⟩ := survivor h hc ha
  exact hne (href'.trans (href.trans hempty))

/-- A claim that does not suit its running task leaves it without a holder. -/
theorem Restored.suits {now : String} (hsettled : Restored s t)
    (h : Reconciled now s t) {task : Task} (htask : task ∈ s.backlog)
    (hrunning : task.status.running = true) {c : Claim} (hwins : Wins s c)
    (href : c.taskRef = task.ref) : Suits c.state task.status := by
  by_contra hsuits
  have hverdict := (inspectTask_mismatch_iff htask).mpr
    ⟨hsettled.named h htask hrunning, hwins, href, hsuits⟩
  have hmem := reconciled_task h htask
  rw [hverdict] at hmem
  obtain ⟨c', hc', ha', href'⟩ := hsettled.held task hmem hrunning
  obtain ⟨hwins', task', htask', -, href'', hsuits'⟩ := survivor h hc' ha'
  rw [hwins'.unique hwins (href'.trans href.symm)] at hsuits' href''
  rw [task_unique htask' htask (href''.trans href)] at hsuits'
  exact hsuits hsuits'

theorem Restored.repairable {now : String} (hsettled : Restored s t)
    (h : Reconciled now s t) : Repairable s := by
  refine ⟨fun task htask hrunning => hsettled.named h htask hrunning,
    fun task htask hstatus c hc ha href hfirst => ?_⟩
  have hwins : Wins s c :=
    ⟨hc, ha, fun c' hc' ha' href' => hfirst c' hc' ha' (href'.trans href)⟩
  have hsuits := hsettled.suits h htask (by rw [hstatus]; rfl) hwins href
  rw [hstatus] at hsuits
  rcases hsuits with hmerged | hmatch | ⟨hstarted, -⟩
  · cases hmerged
  · cases hcs : c.state with
    | inProgress => rfl
    | claimed | done | failed =>
        rw [hcs] at hmatch
        cases hmatch
  · exact hstarted

theorem Repairable.restored {now : String} (hs : Repairable s)
    (h : Reconciled now s t) : Restored s t := by
  refine
    { one := survivors_one h
      oldest := fun c hc ha c' hc' ha' href => ?_
      matched := fun c hc ha => survivor_task h hc ha
      held := fun task htask hrunning => hs.held h htask hrunning
      claims := reconciled_claims h
      reported := fun c hc hfaulty => ?_
      silent := fun id hid => ?_
      tasks := fun task htask =>
        ⟨_, reconciled_task h htask, mended_mendTask htask⟩
      known := fun task htask => ?_ }
  · obtain ⟨hwins, -⟩ := survivor h hc ha
    rcases duplicateOrder_iff.mp (hwins.first c' hc' ha' href) with hlt | ⟨heq, -⟩
    · exact le_of_lt hlt
    · exact le_of_eq heq
  · obtain ⟨f, hf, rfl⟩ := mem_failedClaims_iff.mpr ⟨hc, hfaulty⟩
    rw [h.reports, List.count_eq_one_of_mem (failedClaims_nodup s)]
    exact List.mem_map_of_mem hf
  · rw [h.reports, List.count_eq_zero_of_not_mem, Nat.add_zero]
    intro hmem
    obtain ⟨f, hf, hrun⟩ := List.mem_map.mp hmem
    obtain ⟨hrow, hfaulty⟩ := mem_failedClaims_iff.mp ⟨f, hf, rfl⟩
    exact hid f.1 hrow hfaulty hrun
  · obtain ⟨task₀, htask₀, rfl⟩ := reconciled_ref h htask
    exact ⟨task₀, htask₀, mended_mendTask htask₀⟩

theorem reconciled_restored {now : String} (h : Reconciled now s t) :
    Restored s t ↔ Repairable s :=
  ⟨fun hsettled => hsettled.repairable h, fun hs => hs.restored h⟩

/-! ## The pass over a state directory -/

section Directory

variable {d d' m : ClaimsDir}

theorem not_held_of_idle (h : failedClaims d.loaded.claims d.loaded.backlog = []) :
    ¬ ClaimsDir.Held d.claims := by
  have hsound : ∀ c, c ∈ d.claims.rows → c.active = true → Wins d.loaded c := by
    intro c hc ha
    by_contra hlost
    obtain ⟨f, hf, -⟩ := mem_failedClaims_iff.mpr
      (show c ∈ d.loaded.events.runs ∧ Faulty d.loaded c from
        ⟨hc, ha, fun hwins => hlost hwins.1⟩)
    rw [h] at hf
    cases hf
  refine not_not.mpr ((List.nodup_map_iff_inj_on ?_).mpr ?_)
  · exact (List.Nodup.of_map _ d.claims.nodup).filter _
  · intro c hc c' hc' href
    obtain ⟨hrow, ha⟩ := List.mem_filter.mp hc
    obtain ⟨hrow', ha'⟩ := List.mem_filter.mp hc'
    exact (hsound c hrow ha).unique (hsound c' hrow' ha') href

theorem commitFailures_ok {now : String} {failed : List (Claim × String)}
    (h : ClaimsDir.commitFailures dates d.claims.rows failed now m =
      (.ok (), d')) :
    failed = [] ∧ d' = m ∨
      ClaimsDir.Committed dates m (reconciledClaims d.claims.rows failed)
        (failed.map (reconcileEvent now)) d' := by
  unfold ClaimsDir.commitFailures at h
  split at h
  · rename_i hnone
    cases h
    exact .inl ⟨hnone, rfl⟩
  · refine .inr (ClaimsDir.commitClaims_ok ?_ h)
    have hids : ∀ c, (failClaim c).runId = c.runId := fun _ => rfl
    exact (map_runId_mutateClaims hids).symm ▸ d.claims.nodup

theorem reconcileState_ok {now : String}
    (h : ClaimsDir.reconcileState dates now d = (.ok (), d')) :
    Reconciled now d.loaded d'.loaded ∧
      (d'.source = .rows ∨ ∃ claims, d'.source = .file claims false) := by
  unfold ClaimsDir.reconcileState at h
  rcases bind_cases h with ⟨e, -, hr⟩ | ⟨claims, m, hread, h⟩
  · cases hr
  obtain ⟨rfl, hfound⟩ := ClaimsDir.readClaimsJson_ok hread
  have hloaded := hfound.loaded
  have hbacklog : m.project.backlog = d.loaded.backlog := by
    rw [← hloaded, ClaimsDir.loaded_backlog]
  rw [read_bind, hbacklog] at h
  rcases bind_cases h with ⟨e, -, hr⟩ | ⟨⟨⟩, m', hrepairs, h⟩
  · cases hr
  obtain ⟨ts, rfl, htasks⟩ := ClaimsDir.commitRepairs_ok hrepairs
  rw [← ClaimsDir.loaded_tasks, hloaded] at htasks
  rcases bind_cases h with ⟨e, -, hr⟩ | ⟨⟨⟩, m'', hfailures, hrefresh⟩
  · cases hr
  have hruns : (m.setTasks ts).claims = d.claims :=
    congrArg (fun s : Project => s.events.runs) hloaded
  have hlog : m.loaded.events.events = d.loaded.events.events := by
    rw [hloaded]
  rcases commitFailures_ok hfailures with ⟨hnone, rfl⟩ | hcommit
  · change failedClaims d.loaded.claims d.loaded.backlog = [] at hnone
    have hsource := hfound.source.resolve_right (not_held_of_idle hnone)
    rw [ClaimsDir.refreshClaimsProjection_settled (d := m.setTasks ts) hsource]
      at hrefresh
    cases hrefresh
    refine ⟨⟨htasks, fun c => ?_, fun id => ?_⟩, hsource⟩
    · have hno : ∀ c₀, reconcileFails d.loaded c₀ = false := fun c₀ => by
        rw [reconcileFails, hnone]
        rfl
      change c ∈ (m.setTasks ts).claims ↔ ∃ c₀, c₀ ∈ d.claims ∧
        (if reconcileFails d.loaded c₀ then failClaim c₀ else c₀) = c
      rw [hruns]
      simp [hno]
    · rw [hnone]
      exact congrArg (List.countP (reportsFailure id)) hlog
  · rw [ClaimsDir.refreshClaimsProjection_settled (.inl hcommit.source)] at hrefresh
    cases hrefresh
    rw [ClaimsDir.loaded_of_rows hcommit.source]
    refine ⟨⟨hcommit.tasks ▸ htasks, fun c => ?_, fun id => ?_⟩,
      .inl hcommit.source⟩
    · rw [hcommit.rows]
      exact List.mem_map
    · have hreports := reported_failed d.loaded now id
      change List.countP (reportsFailure id) ((failedClaims d.claims.rows
        d.loaded.backlog).map (reconcileEvent now)) = _ at hreports
      rw [Project.failuresReported, hcommit.log _ fun _ _ => rfl, hreports]
      exact congrArg (· + _) (congrArg (List.countP (reportsFailure id)) hlog)

theorem commitRepairs_total (now : String) (htasks : m.project.tasks = s.tasks) :
    ∃ ts, ClaimsDir.commitRepairs (repairChanges s) (repairedBacklog s) now m =
      (.ok (), m.setTasks ts) := by
  unfold ClaimsDir.commitRepairs
  split
  · exact ⟨m.project.tasks, rfl⟩
  · obtain ⟨ts, hts⟩ := repairs_accepted s now
    rw [← htasks] at hts
    refine ⟨ts, ?_⟩
    simp only [ClaimsDir.onTasks, atomically, hts]

/-- Only the claim that comes first of its task is active after the failures. -/
theorem wins_of_kept {c : Claim}
    (hc : c ∈ mutateClaims s.claims (reconcileFails s) failClaim)
    (ha : c.active = true) : c ∈ s.claims ∧ Wins s c := by
  obtain ⟨c₀, hc₀, hnew⟩ := List.mem_map.mp hc
  by_cases hfails : reconcileFails s c₀ = true
  · rw [if_pos hfails] at hnew
    rw [← hnew] at ha
    cases ha
  · rw [if_neg hfails] at hnew
    subst hnew
    refine ⟨hc₀, not_not.mp fun hlost => hfails ?_⟩
    exact (reconcileFails_faulty hc₀).mpr ⟨ha, fun hwins => hlost hwins.1⟩

theorem commitFailures_total (now : Int) (hnamed : ∀ c ∈ s.claims, WellNamed c)
    (hruns : ∀ c ∈ s.claims, c ∈ m.claims) :
    ∃ m', ClaimsDir.commitFailures dates s.claims
      (failedClaims s.claims s.backlog) (dates.toISOString now) m =
        (.ok (), m') := by
  unfold ClaimsDir.commitFailures
  split
  · exact ⟨_, rfl⟩
  · refine ClaimsDir.commitClaims_total (fun c hc ha => ?_)
      (fun c hc c' hc' ha ha' href => ?_) fun e he => ?_
    · exact hruns c (wins_of_kept hc ha).1
    · rw [(wins_of_kept hc ha).2.unique (wins_of_kept hc' ha').2 href]
    · obtain ⟨⟨c, reason⟩, hf, rfl⟩ := List.mem_map.mp he
      exact validEvent_reconcileEvent (hnamed c (mem_failedClaims hf).1) reason now

theorem refreshClaimsProjection_total (m : ClaimsDir) :
    ∃ d', ClaimsDir.refreshClaimsProjection m = (.ok (), d') := by
  unfold ClaimsDir.refreshClaimsProjection
  rcases ClaimsDir.readAuthoritativeClaims_cases m with ⟨-, hnone⟩ |
      ⟨answer, d', hread, -, -⟩
  · exact ⟨m, by rw [bind_of_ok hnone]; rfl⟩
  · exact ⟨d', by rw [bind_of_ok hread]; rfl⟩

/-- The pass returns, however many claims share a task and in whatever order. -/
theorem reconcileState_returns (now : Int) (hsource : d.source ≠ .missing)
    (hnamed : ∀ c, c ∈ d.claims → WellNamed c) :
    ∃ d', ClaimsDir.reconcileState dates (dates.toISOString now) d =
      (.ok (), d') := by
  obtain ⟨m, hread⟩ := ClaimsDir.readClaimsJson_total hsource
  have hloaded := (ClaimsDir.readClaimsJson_ok hread).2.loaded
  have hbacklog : m.project.backlog = d.loaded.backlog := by
    rw [← hloaded, ClaimsDir.loaded_backlog]
  have htasks : m.project.tasks = d.loaded.tasks := by
    rw [← hloaded, ClaimsDir.loaded_tasks]
  have hruns : ∀ ts, (m.setTasks ts).claims = d.claims := fun _ =>
    congrArg (fun s : Project => s.events.runs) hloaded
  obtain ⟨ts, hrepairs⟩ := commitRepairs_total (dates.toISOString now) htasks
  obtain ⟨m', hfailures⟩ : ∃ m', ClaimsDir.commitFailures dates d.claims.rows
      (failedClaims d.loaded.claims d.loaded.backlog) (dates.toISOString now)
      (m.setTasks ts) = (.ok (), m') :=
    commitFailures_total (s := d.loaded) now hnamed fun c hc => by
      rw [hruns]
      exact hc
  obtain ⟨d', hrefresh⟩ := refreshClaimsProjection_total m'
  refine ⟨d', ?_⟩
  unfold ClaimsDir.reconcileState
  rw [bind_of_ok hread, read_bind, hbacklog]
  exact (bind_of_ok hrepairs).trans ((bind_of_ok hfailures).trans hrefresh)

theorem reconcileState_idle (now : String) (hs : Idle d.loaded)
    (hsource : d.source = .rows ∨ ∃ claims, d.source = .file claims false) :
    ClaimsDir.reconcileState dates now d = (.ok (), d) := by
  have hread : ClaimsDir.readClaimsJson d = (.ok d.claims.rows, d) := by
    obtain ⟨project, source, fits⟩ := d
    rcases hsource with rfl | ⟨claims, rfl⟩
    · rfl
    · rfl
  unfold ClaimsDir.reconcileState
  rw [bind_of_ok hread, read_bind]
  have hfailed := hs.failed
  have hchanges := hs.changes
  change (ClaimsDir.commitRepairs (repairChanges d.loaded)
    (repairedBacklog d.loaded) now >>= fun _ =>
      ClaimsDir.commitFailures dates d.claims.rows
        (failedClaims d.loaded.claims d.loaded.backlog) now >>= fun _ =>
        ClaimsDir.refreshClaimsProjection) d = (.ok (), d)
  rw [hchanges, hfailed]
  exact ClaimsDir.refreshClaimsProjection_settled hsource

/-- One pass repairs everything if and only if what it starts from is
repairable. -/
theorem reconcileState_settles {now : String}
    (h : ClaimsDir.reconcileState dates now d = (.ok (), d')) :
    Settled dates d d' ↔ Repairable d.loaded := by
  obtain ⟨hpass, hsource⟩ := reconcileState_ok h
  refine ⟨fun hsettled => (reconciled_restored hpass).mp hsettled.restored,
    fun hs => ?_⟩
  have hrestored := (reconciled_restored hpass).mpr hs
  exact ⟨hrestored, fun now' =>
    reconcileState_idle now' (reconciled_idle hpass hrestored.held) hsource⟩

end Directory

/-! ## Two crashed projects -/

def waitingRow (status : TaskStatus) : ProjectTask where
  ref := "docs/intro"
  status := status
  definition := { title := "Intro" }

def claimAt (runId : RunId) (ref : TaskRef) (state : ClaimState) (ms : Int) :
    Claim where
  runId := runId
  taskRef := ref
  agentId := "orc-1"
  state := state
  claimedAt := DateApi.epoch.toISOString ms
  leaseExpiresAt := DateApi.epoch.toISOString 9

/-- A file that is not imported: the oldest claim, which has started, a newer
one for its task, and one whose task is gone. -/
def startedBehind : ClaimsDir where
  project := { tasks := { tasks := ⟨[waitingRow .claimed], by decide⟩ } }
  source := .file ⟨[claimAt "run-1" "docs/intro" .inProgress 1,
    claimAt "run-2" "docs/intro" .claimed 2,
    claimAt "run-3" "docs/gone" .claimed 3], by decide⟩ true
  fits := rfl

def startedAhead : ClaimsDir where
  project :=
    { events := { runs := ⟨[claimAt "run-1" "docs/intro" .claimed 1], by decide⟩ }
      tasks := { tasks := ⟨[waitingRow .inProgress], by decide⟩ } }
  source := .rows
  fits := by
    intro c hc c' hc' _ _ _
    rw [List.mem_singleton.mp hc, List.mem_singleton.mp hc']

/-- The claim that wins stands before the one it displaces. -/
theorem reconcileState_settles_behind :
    ∃ d', ClaimsDir.reconcileState .epoch (DateApi.epoch.toISOString 4)
        startedBehind = (.ok (), d') ∧ Settled .epoch startedBehind d' := by
  have hnamed : ∀ c, c ∈ startedBehind.claims → WellNamed c := by
    have hall : ∀ c ∈ startedBehind.claims.rows, runIdRe c.runId = true ∧
        taskRefRe c.taskRef = true ∧ agentIdRe c.agentId = true := by
      decide +kernel
    exact fun c hc => ⟨(hall c hc).1, (hall c hc).2.1, (hall c hc).2.2⟩
  obtain ⟨d', h⟩ : ∃ d', ClaimsDir.reconcileState .epoch (DateApi.epoch.toISOString 4)
      startedBehind = (.ok (), d') :=
    reconcileState_returns 4 (by decide) hnamed
  refine ⟨d', h, (reconcileState_settles h).mpr ?_⟩
  have hbacklog : startedBehind.loaded.backlog =
      [projectTaskToBacklogTask (waitingRow .claimed)] := by decide +kernel
  refine ⟨fun task htask _ => ?_, fun task htask hstatus => ?_⟩
  · rw [hbacklog] at htask
    rw [List.mem_singleton.mp htask]
    decide
  · rw [hbacklog] at htask
    rw [List.mem_singleton.mp htask] at hstatus
    cases hstatus

theorem reconciled_of_ok {d : ClaimsDir} {now : String}
    (hok : (ClaimsDir.reconcileState .epoch now d).1.isOk = true) :
    ClaimsDir.reconcileState .epoch now d =
      (.ok (), (ClaimsDir.reconcileState .epoch now d).2) := by
  generalize ClaimsDir.reconcileState .epoch now d = p at hok ⊢
  obtain ⟨r, d'⟩ := p
  cases r with
  | ok u => rfl
  | error e => cases hok

/-- The claim is failed, and the task stays in progress without one. -/
theorem not_reconcileState_settles :
    ∃ d now d', ClaimsDir.reconcileState .epoch now d = (.ok (), d') ∧
      ¬ Settled .epoch d d' := by
  refine ⟨startedAhead, DateApi.epoch.toISOString 4, _,
    reconciled_of_ok (by decide +kernel), fun hsettled => ?_⟩
  have htask : projectTaskToBacklogTask (waitingRow .inProgress) ∈
      (ClaimsDir.reconcileState .epoch (DateApi.epoch.toISOString 4)
        startedAhead).2.loaded.backlog := by decide +kernel
  have hclaims : ((ClaimsDir.reconcileState .epoch (DateApi.epoch.toISOString 4)
      startedAhead).2.loaded.claims.filter Claim.active) = [] := by decide +kernel
  obtain ⟨c, hc, ha, -⟩ := hsettled.restored.held _ htask rfl
  exact List.filter_eq_nil_iff.mp hclaims c hc ha

end OrcState.Lifecycle
