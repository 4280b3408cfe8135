import OrcState.Lifecycle.Outcomes

/-!
# How the passes over all claims can end

The expiry of stale leases walks the claims with the backlog changing under it;
what it leaves is said once, of the claims and the tasks it was given.  The
reconciliation reads both stores and repairs each.
-/

namespace OrcState.Lifecycle

open OrcState.Contract OrcState.Foundation OrcState.Store
open OrcState.Foundation.Effect

variable {dates : DateApi}

/-! ## Expired tasks -/

theorem expireTask_ref (policy : String) (now : Int) (task : Task) :
    (expireTask dates policy now task).ref = task.ref := by
  unfold expireTask
  split
  · rfl
  · exact countAttempt_ref _ _ task

theorem expireTask_status (dates : DateApi) (policy : String) (now : Int)
    (task : Task) :
    (expireTask dates policy now task).status = .blocked ∨
      (expireTask dates policy now task).status = .todo := by
  unfold expireTask
  split
  · exact .inl rfl
  · exact countAttempt_status _ _ task

/-! ## The walk -/

section Walk

variable {policy : String} {actorId : AgentId} {now : Int} {backlog : Backlog}

/--
The task `r` after the claims `seen`: untouched, or failed by the first of them
that expired.
-/
def Expiry.TaskAt (dates : DateApi) (policy : String) (actorId : AgentId)
    (now : Int) (backlog : Backlog) (seen : List Claim) (acc : Expiry)
    (r : TaskRef) : Prop :=
  (findTask acc.backlog r = findTask backlog r ∧
    ∀ task, findTask backlog r = some task → task.status.running = true →
      ∀ c ∈ seen, expires dates now backlog c = true → c.taskRef ≠ r) ∨
  ∃ task c, findTask backlog r = some task ∧ task.status.running = true ∧
    c ∈ seen ∧ expires dates now backlog c = true ∧ c.taskRef = r ∧
    findTask acc.backlog r = some (expireTask dates policy now task) ∧
    acc.changes.lookup r =
      some (expiryChange actorId c (expireTask dates policy now task))

structure Expiry.Sound (dates : DateApi) (policy : String) (actorId : AgentId)
    (now : Int) (backlog : Backlog) (seen : List Claim) (acc : Expiry) :
    Prop where
  claims : acc.claims =
    mutateClaims seen (expires dates now backlog) (expireClaim dates now)
  ordinary : ∀ p ∈ acc.changes, TaskStatusChange.Ordinary p.2
  refs : acc.backlog.map Task.ref = backlog.map Task.ref
  tasks : ∀ r, Expiry.TaskAt dates policy actorId now backlog seen acc r

theorem Expiry.Sound.nil :
    Expiry.Sound dates policy actorId now backlog [] { backlog := backlog } where
  claims := rfl
  ordinary := by simp
  refs := rfl
  tasks _ := .inl ⟨rfl, by simp⟩

/-- The walk never merges a task, so it expires what a fresh read would. -/
theorem Expiry.Sound.expires_eq {seen : List Claim} {acc : Expiry}
    (h : Expiry.Sound dates policy actorId now backlog seen acc) (c : Claim) :
    expires dates now acc.backlog c = expires dates now backlog c := by
  unfold expires
  rcases h.tasks c.taskRef with ⟨hfind, -⟩ | ⟨task, _, hfind, hrunning, -, -, -,
    hfailed, -⟩
  · rw [hfind]
  · have hmerged : task.status.merged = false := by
      cases hm : task.status.merged with
      | false => rfl
      | true =>
          rw [TaskStatus.not_running_of_merged hm] at hrunning
          cases hrunning
    have hfailedMerged :
        (expireTask dates policy now task).status.merged = false := by
      rcases expireTask_status dates policy now task with hs | hs
      · rw [hs]
        rfl
      · rw [hs]
        rfl
    rw [hfind, hfailed, Option.any_some, Option.any_some, hmerged,
      hfailedMerged]

theorem Expiry.Sound.tasks_kept {seen : List Claim} {acc : Expiry}
    (h : Expiry.Sound dates policy actorId now backlog seen acc)
    {claim : Claim}
    (hskip : expires dates now backlog claim = true →
      ∀ task, findTask acc.backlog claim.taskRef = some task →
        task.status.running = false) (r : TaskRef) :
    Expiry.TaskAt dates policy actorId now backlog (seen ++ [claim]) acc r := by
  rcases h.tasks r with ⟨hfind, hnone⟩ | ⟨task, c, hfind, hrunning, hc, hrest⟩
  · refine .inl ⟨hfind, fun task htask hrunning c hc hexpires href => ?_⟩
    rcases List.mem_append.mp hc with hc | hc
    · exact hnone task htask hrunning c hc hexpires href
    · rw [List.mem_singleton.mp hc] at hexpires href
      rw [hskip hexpires task (by rw [href, hfind, htask])] at hrunning
      cases hrunning
  · exact .inr ⟨task, c, hfind, hrunning, List.mem_append_left _ hc, hrest⟩

theorem mutateClaims_append (seen rest : List Claim) (p : Claim → Bool)
    (f : Claim → Claim) :
    mutateClaims (seen ++ rest) p f =
      mutateClaims seen p f ++ mutateClaims rest p f :=
  List.map_append

theorem Expiry.Sound.failed {seen : List Claim} {acc : Expiry}
    (h : Expiry.Sound dates policy actorId now backlog seen acc)
    {claim : Claim} {claims expired : List Claim} {task : Task}
    (hclaims : claims = mutateClaims (seen ++ [claim])
      (expires dates now backlog) (expireClaim dates now))
    (hfind : findTask acc.backlog claim.taskRef = some task)
    (hrunning : task.status.running = true)
    (hexpires : expires dates now backlog claim = true) :
    Expiry.Sound dates policy actorId now backlog (seen ++ [claim])
      { claims := claims
        backlog := mutateTask acc.backlog claim.taskRef fun _ =>
          expireTask dates policy now task
        expired := expired
        changes := (claim.taskRef, expiryChange actorId claim
          (expireTask dates policy now task)) :: acc.changes } := by
  have href : task.ref = claim.taskRef := (findTask_eq_some hfind).2
  have hkeep : ∀ t : Task, t.ref = claim.taskRef →
      (expireTask dates policy now task).ref = claim.taskRef :=
    fun _ _ => (expireTask_ref policy now task).trans href
  refine ⟨hclaims, ?_, (refs_mutateTask hkeep).trans h.refs, fun r => ?_⟩
  · intro p hp
    rcases List.mem_cons.mp hp with rfl | hp
    · refine ⟨rfl, ?_⟩
      simp only [expiryChange]
      split <;> decide
    · exact h.ordinary p hp
  · unfold Expiry.TaskAt
    simp only [findTask_mutateTask hkeep]
    by_cases hr : r = claim.taskRef
    · subst hr
      rcases h.tasks claim.taskRef with ⟨hsame, -⟩ |
        ⟨task', _, _, _, _, _, _, hfailed, _⟩
      · rw [hfind] at hsame
        refine .inr ⟨task, claim, hsame.symm, hrunning,
          List.mem_append_right _ (List.mem_singleton.mpr rfl), hexpires, rfl,
          ?_, ?_⟩
        · simp [hfind]
        · simp
      · rw [hfind] at hfailed
        cases hfailed
        rcases expireTask_status dates policy now task' with hs | hs
        · rw [hs] at hrunning
          cases hrunning
        · rw [hs] at hrunning
          cases hrunning
    · rw [if_neg hr]
      rcases h.tasks r with ⟨hsame, hnone⟩ |
        ⟨task', c, hbefore, hrun, hc, he, hcr, hafter, hlookup⟩
      · refine .inl ⟨hsame, fun t ht hrun c hc he => ?_⟩
        rcases List.mem_append.mp hc with hc | hc
        · exact hnone t ht hrun c hc he
        · rw [List.mem_singleton.mp hc]
          exact Ne.symm hr
      · refine .inr ⟨task', c, hbefore, hrun, List.mem_append_left _ hc, he,
          hcr, hafter, ?_⟩
        rw [List.lookup_cons, beq_eq_false_iff_ne.mpr hr]
        exact hlookup

theorem Expiry.Sound.visit {seen : List Claim} {acc : Expiry}
    (h : Expiry.Sound dates policy actorId now backlog seen acc)
    (claim : Claim) :
    Expiry.Sound dates policy actorId now backlog (seen ++ [claim])
      (acc.visit dates policy actorId now claim) := by
  have hsame := h.expires_eq claim
  unfold Expiry.visit
  cases hexpires : expires dates now acc.backlog claim with
  | false =>
      rw [hexpires] at hsame
      simp only [Bool.false_eq_true, if_false]
      refine ⟨?_, h.ordinary, h.refs, h.tasks_kept fun he => ?_⟩
      · rw [h.claims, mutateClaims_append]
        simp [mutateClaims, ← hsame]
      · rw [← hsame] at he
        cases he
  | true =>
      rw [hexpires] at hsame
      have hclaims : acc.claims ++ [expireClaim dates now claim] =
          mutateClaims (seen ++ [claim]) (expires dates now backlog)
            (expireClaim dates now) := by
        rw [h.claims, mutateClaims_append]
        simp [mutateClaims, ← hsame]
      simp only [if_true, Expiry.failTask]
      cases hfind : findTask acc.backlog claim.taskRef with
      | none =>
          refine ⟨hclaims, h.ordinary, h.refs, h.tasks_kept fun _ task ht => ?_⟩
          rw [hfind] at ht
          cases ht
      | some task =>
          cases hrunning : task.status.running with
          | false =>
              simp only [hrunning, Bool.false_eq_true, if_false]
              refine ⟨hclaims, h.ordinary, h.refs,
                h.tasks_kept fun _ task' ht => ?_⟩
              rw [hfind] at ht
              cases ht
              exact hrunning
          | true =>
              simp only [hrunning, if_true]
              exact h.failed hclaims hfind hrunning hsame.symm

theorem Expiry.Sound.walk {rest seen : List Claim} {acc : Expiry}
    (h : Expiry.Sound dates policy actorId now backlog seen acc) :
    Expiry.Sound dates policy actorId now backlog (seen ++ rest)
      (rest.foldl (Expiry.visit dates policy actorId now) acc) := by
  induction rest generalizing seen acc with
  | nil => simpa using h
  | cons claim rest ih =>
      have hnext := ih (h.visit claim)
      rwa [List.append_assoc] at hnext

theorem Expiry.Sound.walk_expired {rest seen : List Claim} {acc : Expiry}
    (h : Expiry.Sound dates policy actorId now backlog seen acc) :
    (rest.foldl (Expiry.visit dates policy actorId now) acc).expired =
      acc.expired ++ rest.filter (expires dates now backlog) := by
  induction rest generalizing seen acc with
  | nil => simp
  | cons claim rest ih =>
      rw [List.foldl_cons, ih (h.visit claim), List.filter_cons,
        ← h.expires_eq claim]
      unfold Expiry.visit
      split
      · unfold Expiry.failTask
        split
        · simp
        · split <;> simp
      · simp

end Walk

structure ExpiredTasks (dates : DateApi) (now : Int) (s : Project)
    (ts : TaskStore) : Prop where
  here : ∀ r,
    (statusAt ts r = statusAt s.tasks r ∧ ts.runsAt r = s.tasks.runsAt r ∧
      ∀ task, findTask s.backlog r = some task → task.status.running = true →
        ∀ c, c ∈ s.events.runs → expires dates now s.backlog c = true →
          c.taskRef ≠ r) ∨
    ∃ task status c, findTask s.backlog r = some task ∧
      task.status.running = true ∧ c ∈ s.events.runs ∧
      expires dates now s.backlog c = true ∧ c.taskRef = r ∧
      statusAt ts r = some status ∧ (status = .blocked ∨ status = .todo) ∧
      ts.runsAt r = ∅
  bound : ∀ id, ts.Bound id ↔ s.tasks.Bound id
  wellFormed : s.tasks.WellFormed → ts.WellFormed

theorem expiryChange_closes (actorId : AgentId) (claim : Claim) (task : Task)
    {fromStatus : TaskStatus} (h : fromStatus.running = true) :
    TaskTransitionCause.closes (expiryChange actorId claim task).cause
      fromStatus = true := by
  simp only [expiryChange, TaskTransitionCause.closes]
  split <;> simp [runStateForCause, h]

theorem expiredTasks {policy : String} {actorId : AgentId} {now : Int}
    {s : Project} {acc : Expiry} {time : String} {ts : TaskStore} {u : Unit}
    (hacc : Expiry.Sound dates policy actorId now s.backlog s.claims acc)
    (h : commitBacklog acc.backlog acc.changes time s.tasks = .ok (u, ts)) :
    ExpiredTasks dates now s ts := by
  have hnodup : (acc.backlog.map Task.ref).Nodup :=
    hacc.refs ▸ nodup_readProjectBacklog s.tasks
  refine ⟨fun r => ?_, (commitBacklog_ok hacc.ordinary hnodup h).2.2,
    commitBacklog_wellFormed hacc.ordinary h⟩
  rcases commitBacklog_at hacc.ordinary hacc.refs h r with
    ⟨hget, hget', hruns⟩ | ⟨entry, current, row, hentry, rfl, hat⟩
  · refine .inl ⟨by rw [statusAt, statusAt, hget, hget'], hruns, ?_⟩
    intro task htask
    rw [Project.backlog, findTask_readProjectBacklog, hget] at htask
    cases htask
  have hcurrent : findTask s.backlog entry.ref =
      some (projectTaskToBacklogTask current) := by
    rw [Project.backlog, findTask_readProjectBacklog, hat.before]
    rfl
  obtain ⟨hstatus, hmove⟩ := view_of_commit hat
  rcases hacc.tasks entry.ref with ⟨hsame, hnone⟩ |
    ⟨task, c, hfind, hrunning, hc, hexpires, hcr, hafter, hlookup⟩
  · rw [hentry, hcurrent] at hsame
    have hsameStatus : entry.status = current.status := by
      cases hsame
      rfl
    refine .inl ⟨?_, ?_, hnone⟩
    · rw [hstatus, hsameStatus, statusAt, hat.before]
      rfl
    · rcases hmove with ⟨-, hruns⟩ | ⟨hne, -⟩
      · exact hruns
      · exact absurd hsameStatus hne
  · rw [hentry] at hafter
    rw [hcurrent] at hfind
    have hstatusEntry : entry.status = .blocked ∨ entry.status = .todo := by
      cases hafter
      exact expireTask_status dates policy now task
    have hrun : current.status.running = true := by
      cases hfind
      exact hrunning
    refine .inr ⟨_, _, c, hcurrent, hrun, hc, hexpires, hcr, hstatus,
      hstatusEntry, ?_⟩
    rcases hmove with ⟨hsame, -⟩ | ⟨-, change, hchange, -, hruns⟩
    · rw [← hsame] at hrun
      rcases hstatusEntry with hs | hs
      · rw [hs] at hrun
        cases hrun
      · rw [hs] at hrun
        cases hrun
    · rw [hlookup] at hchange
      cases hchange
      rw [hruns, expiryChange_closes _ _ _ hrun, if_pos rfl]

theorem expireStaleLeases_commit {policy : String} {actorId : AgentId}
    {now : Int} {s t : Project} {r : Except DomainError (List RunId)}
    (h : expireStaleLeases dates policy actorId now s = (r, t)) :
    t = s ∨ ∃ acc r',
      Expiry.Sound dates policy actorId now s.backlog s.claims acc ∧
      commitBoth dates
        (mutateClaims s.claims (expires dates now s.backlog)
          (expireClaim dates now))
        ((s.claims.filter (expires dates now s.backlog)).map
          (expiryEvent dates policy actorId now))
        acc.backlog acc.changes (dates.toISOString now) s = (r', t) ∧
      ∀ e, r = .error e ↔ r' = .error e := by
  simp only [expireStaleLeases, read_bind] at h
  have hacc : Expiry.Sound dates policy actorId now s.backlog ([] ++ s.claims)
      (s.claims.foldl (Expiry.visit dates policy actorId now)
        { backlog := s.backlog }) := Expiry.Sound.nil.walk
  have hexpired : (s.claims.foldl (Expiry.visit dates policy actorId now)
      { backlog := s.backlog }).expired =
      [] ++ s.claims.filter (expires dates now s.backlog) :=
    Expiry.Sound.nil.walk_expired
  rw [List.nil_append] at hacc hexpired
  generalize s.claims.foldl (Expiry.visit dates policy actorId now)
    { backlog := s.backlog } = acc at h hacc hexpired
  split at h
  · cases h
    exact .inl rfl
  obtain ⟨r', hx, hr⟩ := result_cases h
  rw [hacc.claims, hexpired] at hx
  exact .inr ⟨acc, r', hacc, hx, hr⟩

theorem expireStaleLeases_cases {policy : String} {actorId : AgentId}
    {now : Int} {s t : Project} {r : Except DomainError (List RunId)}
    (h : expireStaleLeases dates policy actorId now s = (r, t)) :
    t = s ∨
      Mutated (expires dates now s.backlog) (expireClaim dates now)
        s.events.runs t.events.runs ∧
      (((∃ e, r = .error e) ∧ t.tasks = s.tasks) ∨
        ExpiredTasks dates now s t.tasks) := by
  rcases expireStaleLeases_commit h with rfl | ⟨acc, r', hacc, hx, hr⟩
  · exact .inl rfl
  rcases commitBoth_cases hx with ⟨e, -, rfl⟩ | ⟨db, hdb, hrest⟩
  · exact .inl rfl
  refine .inr ?_
  have hclaims := commitMutated_claims hdb fun _ => rfl
  rcases hrest with ⟨e, rfl, -, rfl⟩ | ⟨ts, hts, rfl, rfl⟩
  · exact ⟨hclaims, .inl ⟨⟨e, (hr e).mpr rfl⟩, rfl⟩⟩
  · exact ⟨hclaims, .inr (expiredTasks hacc hts)⟩

/-! ## Reconciliation -/

theorem activeClaimOf_none {claims : List Claim} {backlog : Backlog}
    {ref : TaskRef} (h : activeClaimOf claims backlog ref = none) :
    activeClaimsOf claims backlog ref = [] := by
  unfold activeClaimOf at h
  cases hclaims : activeClaimsOf claims backlog ref with
  | nil => rfl
  | cons claim rest =>
      cases rest with
      | nil => simp [hclaims] at h
      | cons claim' rest =>
          simp only [hclaims] at h
          have hlength := congrArg List.length (List.head?_eq_none_iff.mp h)
          rw [List.length_mergeSort] at hlength
          cases hlength

theorem unclaimed_of_activeClaimOf {s : Project} {task : Task}
    (href : task.ref ≠ "") (hfind : findTask s.backlog task.ref = some task)
    (h : activeClaimOf s.claims s.backlog task.ref = none) :
    ∀ c, c ∈ s.events.runs → c.active = true → c.taskRef ≠ task.ref := by
  intro c hc hactive hcr
  have hno := List.filter_eq_nil_iff.mp (activeClaimOf_none h) c hc
  simp [hactive, hcr, knownTask, href, hfind] at hno

theorem repairTask_ref (verdict : Verdict) (task : Task) :
    (repairTask verdict task).ref = task.ref := by
  cases verdict with
  | consistent | mismatch | started | missing => rfl

structure Repaired (s : Project) (ts : TaskStore) : Prop where
  status : ∀ r, statusAt ts r = statusAt s.tasks r ∨
    statusAt ts r = some .inProgress ∨
    statusAt ts r = some .todo ∧
      ∀ c, c ∈ s.events.runs → c.active = true → c.taskRef ≠ r
  bound : ∀ id, ts.Bound id ↔ s.tasks.Bound id
  wellFormed : s.tasks.WellFormed → ts.WellFormed

def repairChanges (s : Project) : TaskStatusChanges :=
  s.backlog.filterMap fun task =>
    repairChange (inspectTask s.claims s.backlog task) task.ref

def repairedBacklog (s : Project) : Backlog :=
  s.backlog.map fun task =>
    repairTask (inspectTask s.claims s.backlog task) task

theorem repairChanges_ordinary (s : Project) :
    ∀ p ∈ repairChanges s, TaskStatusChange.Ordinary p.2 := by
  intro p hp
  obtain ⟨task, -, hchange⟩ := List.mem_filterMap.mp hp
  unfold repairChange at hchange
  split at hchange
  · cases hchange
    simp [TaskStatusChange.Ordinary]
  · cases hchange
    simp [TaskStatusChange.Ordinary]
  · cases hchange

theorem repairedBacklog_refs (s : Project) :
    (repairedBacklog s).map Task.ref = s.backlog.map Task.ref := by
  rw [repairedBacklog, List.map_map]
  exact List.map_congr_left fun task _ => repairTask_ref _ task

theorem inspectTask_missing {s : Project} {task : Task}
    (h : inspectTask s.claims s.backlog task = .missing) :
    task.ref ≠ "" ∧ activeClaimOf s.claims s.backlog task.ref = none := by
  unfold inspectTask at h
  split at h
  · cases h
  · rename_i href
    refine ⟨href, ?_⟩
    cases hclaim : activeClaimOf s.claims s.backlog task.ref with
    | none => rfl
    | some claim =>
        simp only [hclaim] at h
        grind

theorem repaired {s : Project} {now : String} {ts : TaskStore} {u : Unit}
    (h : commitBacklog (repairedBacklog s) (repairChanges s) now s.tasks =
      .ok (u, ts)) : Repaired s ts := by
  have hord := repairChanges_ordinary s
  have hrefs := repairedBacklog_refs s
  have hnodup : ((repairedBacklog s).map Task.ref).Nodup :=
    hrefs ▸ nodup_readProjectBacklog s.tasks
  refine ⟨fun r => ?_, (commitBacklog_ok hord hnodup h).2.2,
    commitBacklog_wellFormed hord h⟩
  rcases commitBacklog_at hord hrefs h r with
    ⟨hget, hget', -⟩ | ⟨entry, current, row, hentry, rfl, hat⟩
  · exact .inl (by rw [statusAt, statusAt, hget, hget'])
  obtain ⟨hstatus, -⟩ := view_of_commit hat
  rw [hstatus]
  obtain ⟨task, htask, rfl⟩ :=
    List.mem_map.mp (findTask_eq_some hentry).1
  have href := repairTask_ref (inspectTask s.claims s.backlog task) task
  have hfind : findTask s.backlog task.ref = some task :=
    findTask_of_mem (nodup_readProjectBacklog s.tasks) htask
  have hsame : statusAt s.tasks task.ref = some task.status := by
    rw [Project.backlog, findTask_readProjectBacklog] at hfind
    obtain ⟨row', hrow', rfl⟩ := Option.map_eq_some_iff.mp hfind
    rw [statusAt, hrow']
    rfl
  rw [href, hsame]
  cases hverdict : inspectTask s.claims s.backlog task with
  | consistent | mismatch claim => exact .inl rfl
  | started claim => exact .inr (.inl rfl)
  | missing =>
      obtain ⟨hne, hnone⟩ := inspectTask_missing hverdict
      exact .inr (.inr ⟨rfl, unclaimed_of_activeClaimOf hne hfind hnone⟩)

def reconcileFails (s : Project) (c : Claim) : Bool :=
  ((failedClaims s.claims s.backlog).map fun f => f.1.runId).contains c.runId

def failClaim (claim : Claim) : Claim := { claim with state := .failed }

/-- The claims are committed as they were before the backlog was. -/
theorem reconcileState_commit {now : String} {s t : Project}
    {r : Except DomainError Unit}
    (h : reconcileState dates now s = (r, t)) :
    ∃ m, m.events = s.events ∧ (m.tasks = s.tasks ∨ Repaired s m.tasks) ∧
      (t = m ∨ onEvents (commitClaims dates
        (mutateClaims m.claims (reconcileFails s) failClaim)
        ((failedClaims s.claims s.backlog).map (reconcileEvent now))) m =
          (r, t)) := by
  simp only [reconcileState, read_bind] at h
  have hrepairs : ∀ {r' : Except DomainError Unit} {m : Project},
      commitRepairs (repairChanges s) (repairedBacklog s) now s = (r', m) →
      m.events = s.events ∧ (m.tasks = s.tasks ∨ Repaired s m.tasks) := by
    intro r' m hm
    unfold commitRepairs at hm
    split at hm
    · cases hm
      exact ⟨rfl, .inl rfl⟩
    · rcases onTasks_cases hm with ⟨e, -, rfl⟩ | ⟨⟨⟩, ts, hts, -, rfl⟩
      · exact ⟨rfl, .inl rfl⟩
      · exact ⟨rfl, .inr (repaired hts)⟩
  rcases bind_cases h with ⟨e, hx, rfl⟩ | ⟨⟨⟩, m, hx, h⟩
  · obtain ⟨hevents, htasks⟩ := hrepairs hx
    exact ⟨t, hevents, htasks, .inl rfl⟩
  obtain ⟨hevents, htasks⟩ := hrepairs hx
  refine ⟨m, hevents, htasks, ?_⟩
  unfold commitFailures at h
  split at h
  · cases h
    exact .inl rfl
  · have hclaims : s.claims = m.claims := by
      rw [Project.claims, Project.claims, hevents]
    have hmutated :
        reconciledClaims s.claims (failedClaims s.claims s.backlog) =
          mutateClaims m.claims (reconcileFails s) failClaim := by
      rw [← hclaims]
      rfl
    rw [hmutated] at h
    exact .inr h

theorem reconcileState_cases {now : String} {s t : Project}
    {r : Except DomainError Unit}
    (h : reconcileState dates now s = (r, t)) :
    (t.tasks = s.tasks ∨ Repaired s t.tasks) ∧
      (t.events.runs = s.events.runs ∨
        Mutated (reconcileFails s) failClaim s.events.runs t.events.runs) := by
  obtain ⟨m, hevents, htasks, rfl | h⟩ := reconcileState_commit h
  · exact ⟨htasks, .inl (by rw [hevents])⟩
  rcases commitMutated_cases h (fun _ => rfl) with ⟨-, rfl⟩ | ⟨-, hmut, hsame⟩
  · exact ⟨htasks, .inl (by rw [hevents])⟩
  · rw [hsame]
    rw [hevents] at hmut
    exact ⟨htasks, .inr hmut⟩

end OrcState.Lifecycle
