import OrcState.Lifecycle.Passes

/-!
# The reset of a session

A fresh session start returns every running task to the queue and fails every
active claim, the backlog first.  The agents and provider sessions it also
clears are in other tables.
-/

namespace OrcState.Lifecycle

open OrcState.Contract OrcState.Foundation OrcState.Store
open OrcState.Foundation.Effect

variable (dates : DateApi)

/-! ## The operation -/

def sessionResetTask (task : Task) : Task :=
  if task.status.running then
    { task with status := .todo, blockedReason := none }
  else task

def sessionResetClaim (now : String) (claim : Claim) : Claim :=
  { claim with
    state := .failed
    failureReason := some "session_reset"
    finishedAt := some now }

def sessionResetChanges (backlog : Backlog) : TaskStatusChanges :=
  (backlog.filter fun task => task.status.running).map fun task =>
    (task.ref,
      { cause := .failureRequeue, actorId := some "human"
        reason := some "session_reset" })

def sessionResetEvent (now : String) (claim : Claim) : OrcEvent :=
  runEvent now .runFailed .human "human" claim
    [("reason", .str "session_reset"), ("code", .str "ERR_SESSION_RESET"),
      ("policy", .str "requeue")]

def resetVolatileRuntimeStateForSession (now : String) : Op (Nat × Nat) := do
  let s ← Effect.read
  onTasks (commitBacklog (s.backlog.map sessionResetTask)
    (sessionResetChanges s.backlog) now)
  onEvents (commitClaims dates
    (mutateClaims s.claims Claim.active (sessionResetClaim now))
    ((s.claims.filter Claim.active).map (sessionResetEvent now)))
  pure ((s.backlog.filter fun task => task.status.running).length,
    (s.claims.filter Claim.active).length)

/-! ## How it can end -/

variable {dates}

theorem sessionResetTask_ref (task : Task) :
    (sessionResetTask task).ref = task.ref := by
  unfold sessionResetTask
  split <;> rfl

theorem sessionResetChanges_ordinary (backlog : Backlog) :
    ∀ p ∈ sessionResetChanges backlog, TaskStatusChange.Ordinary p.2 := by
  intro p hp
  obtain ⟨task, -, rfl⟩ := List.mem_map.mp hp
  simp [TaskStatusChange.Ordinary]

structure Requeued (ts ts' : TaskStore) : Prop where
  status : ∀ r, statusAt ts' r =
    (statusAt ts r).map fun st => if st.running then .todo else st
  runs : ∀ r, ts'.runsAt r = if (statusAt ts r).any TaskStatus.running then ∅
    else ts.runsAt r
  bound : ∀ id, ts'.Bound id ↔ ts.Bound id
  wellFormed : ts.WellFormed → ts'.WellFormed

theorem sessionReset_refs (backlog : Backlog) :
    (backlog.map sessionResetTask).map Task.ref = backlog.map Task.ref := by
  rw [List.map_map]
  exact List.map_congr_left fun task _ => sessionResetTask_ref task

theorem lookup_sessionResetChanges {backlog : Backlog} {ref : TaskRef}
    {change : TaskStatusChange}
    (h : (sessionResetChanges backlog).lookup ref = some change) :
    change.cause = .failureRequeue := by
  obtain ⟨l, l', heq, -⟩ := List.lookup_eq_some_iff.mp h
  have hmem : (ref, change) ∈ sessionResetChanges backlog := by
    rw [heq]
    simp
  obtain ⟨task, -, hchange⟩ := List.mem_map.mp hmem
  cases hchange
  rfl

theorem requeued {s : Project} {now : String} {ts : TaskStore} {u : Unit}
    (h : commitBacklog (s.backlog.map sessionResetTask)
      (sessionResetChanges s.backlog) now s.tasks = .ok (u, ts)) :
    Requeued s.tasks ts := by
  have hord := sessionResetChanges_ordinary s.backlog
  have hrefs := sessionReset_refs s.backlog
  have hnodup : ((s.backlog.map sessionResetTask).map Task.ref).Nodup :=
    hrefs ▸ nodup_readProjectBacklog s.tasks
  have hat := commitBacklog_at hord hrefs h
  have hrow : ∀ r,
      statusAt ts r = (statusAt s.tasks r).map
        (fun st => if st.running then .todo else st) ∧
      ts.runsAt r = if (statusAt s.tasks r).any TaskStatus.running then ∅
        else s.tasks.runsAt r := by
    intro r
    rcases hat r with
      ⟨hget, hget', hruns⟩ | ⟨entry, current, row, hentry, rfl, hat⟩
    · simp [statusAt, hget, hget', hruns]
    obtain ⟨task, htask, rfl⟩ := List.mem_map.mp (findTask_eq_some hentry).1
    have hfind : findTask s.backlog task.ref = some task :=
      findTask_of_mem (nodup_readProjectBacklog s.tasks) htask
    have href := sessionResetTask_ref task
    obtain ⟨hstatus, hmove⟩ := view_of_commit hat
    have hbefore : statusAt s.tasks (sessionResetTask task).ref =
        some task.status := by
      rw [href, Project.backlog, findTask_readProjectBacklog] at *
      obtain ⟨row', hrow', rfl⟩ := Option.map_eq_some_iff.mp hfind
      rw [statusAt, hrow']
      rfl
    have hcurrent : current.status = task.status := by
      have hsame := hbefore
      rw [statusAt, hat.before] at hsame
      exact Option.some.inj hsame
    rw [hbefore, Option.map_some, Option.any_some, hstatus]
    cases hrunning : task.status.running with
    | true =>
        refine ⟨by simp [sessionResetTask, hrunning], ?_⟩
        rcases hmove with ⟨hsame, -⟩ | ⟨-, change, hchange, -, hruns⟩
        · rw [hcurrent, sessionResetTask, if_pos hrunning] at hsame
          rw [← hsame] at hrunning
          cases hrunning
        · rw [hruns, lookup_sessionResetChanges hchange, hcurrent]
          simp [TaskTransitionCause.closes, runStateForCause, hrunning]
    | false =>
        have hkept : sessionResetTask task = task := by
          simp [sessionResetTask, hrunning]
        refine ⟨by simp [hkept], ?_⟩
        rcases hmove with ⟨-, hruns⟩ | ⟨hne, -⟩
        · simpa using hruns
        · rw [hkept, hcurrent] at hne
          exact absurd rfl hne
  exact ⟨fun r => (hrow r).1, fun r => (hrow r).2,
    (commitBacklog_ok hord hnodup h).2.2, commitBacklog_wellFormed hord h⟩

theorem resetVolatileRuntimeStateForSession_commit {now : String}
    {s t : Project} {r : Except DomainError (Nat × Nat)}
    (h : resetVolatileRuntimeStateForSession dates now s = (r, t)) :
    t = s ∨ ∃ m r', m.events = s.events ∧ Requeued s.tasks m.tasks ∧
      onEvents (commitClaims dates
        (mutateClaims m.claims Claim.active (sessionResetClaim now))
        ((m.claims.filter Claim.active).map (sessionResetEvent now))) m =
          (r', t) := by
  simp only [resetVolatileRuntimeStateForSession, read_bind] at h
  rcases bind_cases h with ⟨e, hx, rfl⟩ | ⟨⟨⟩, m, hx, h⟩
  · rcases onTasks_cases hx with ⟨e', -, rfl⟩ | ⟨⟨⟩, ts, -, hr, -⟩
    · exact .inl rfl
    · cases hr
  rcases onTasks_cases hx with ⟨e', he, -⟩ | ⟨⟨⟩, ts, hts, -, rfl⟩
  · cases he
  obtain ⟨r', hx', -⟩ := result_cases h
  exact .inr ⟨s.setTasks ts, r', rfl, requeued hts, hx'⟩

end OrcState.Lifecycle
