import OrcState.Lifecycle.System
import OrcState.Lifecycle.Views

/-!
# How each call can end

One lemma a call: it is refused before it writes, or it passed its checks and
reached its commits.  What a commit does to the claims and the tasks is said by
`Mutated` and `Committed`; the results below never unfold a call again.
-/

namespace OrcState.Lifecycle

open OrcState.Contract OrcState.Foundation OrcState.Store
open OrcState.Foundation.Effect

variable {dates : DateApi} {registry : Registry}

/-! ## Updates of one claim -/

theorem ownClaim_ok {s : Project} {runId : RunId} {agentId : AgentId}
    {claim : Claim} :
    ownClaim s runId agentId = .ok claim ↔
      s.findClaim runId = some claim ∧ claim.agentId = agentId := by
  unfold ownClaim
  cases s.findClaim runId with
  | none => simp
  | some c =>
      by_cases h : c.agentId = agentId
      · simp only [h, ne_eq, not_true_eq_false, if_false, Except.ok.injEq,
          Option.some.injEq]
        constructor
        · rintro rfl
          exact ⟨rfl, h⟩
        · exact fun hc => hc.1
      · simp only [ne_eq, h, not_false_eq_true, if_true, reduceCtorEq,
          Option.some.injEq, false_iff]
        rintro ⟨rfl, hc⟩
        exact h hc

theorem updateClaim_cases {runId : RunId}
    {check : Claim → Except DomainError Unit} {f : Claim → Claim}
    {events : Claim → List OrcEvent} {s t : Project}
    {r : Except DomainError Claim} (hid : ∀ c, (f c).runId = c.runId)
    (h : updateClaim dates runId check f events s = (r, t)) :
    t = s ∨
      ∃ claim, s.findClaim runId = some claim ∧ check claim = .ok () ∧
        Mutated (fun c => c.runId = runId) f s.events.runs t.events.runs ∧
        t.tasks = s.tasks := by
  simp only [updateClaim, read_bind] at h
  rcases orThrow_cases h with ⟨-, rfl⟩ | ⟨claim, hclaim, h⟩
  · exact .inl rfl
  rcases ofExcept_cases h with ⟨-, rfl⟩ | ⟨⟨⟩, hcheck, h⟩
  · exact .inl rfl
  obtain ⟨r', hx, -⟩ := result_cases h
  rcases commitMutated_cases hx hid with ⟨-, rfl⟩ | ⟨-, hmut, htasks⟩
  · exact .inl rfl
  · exact .inr ⟨claim, hclaim, hcheck, hmut, htasks⟩

theorem markTaskEnvelopeSent_cases {runId : RunId} {agentId : AgentId}
    {o : EnvelopeOptions} {s t : Project} {r : Except DomainError Claim}
    (h : markTaskEnvelopeSent dates runId agentId o s = (r, t)) :
    t = s ∨ updateClaim dates runId (checkEnvelope dates runId agentId o.time)
      (fun claim => { claim with taskEnvelopeSentAt := some o.time })
      (envelopeEvents o) s = (r, t) := by
  simp only [markTaskEnvelopeSent, read_bind] at h
  rcases orThrow_cases h with ⟨-, rfl⟩ | ⟨claim, hclaim, h⟩
  · exact .inl rfl
  rcases ofExcept_cases h with ⟨-, rfl⟩ | ⟨⟨⟩, hcheck, h⟩
  · exact .inl rfl
  split at h
  · cases h
    exact .inl rfl
  · refine .inr ?_
    simp only [updateClaim, read_bind, orThrow_bind, hclaim, hcheck,
      Effect.ofExcept_bind]
    exact h

theorem ensures_markTaskEnvelopeSent {R : Project → Project → Prop}
    {runId : RunId} {agentId : AgentId} {o : EnvelopeOptions} {s : Project}
    (hrefl : R s s)
    (h : Ensures R (updateClaim dates runId
      (checkEnvelope dates runId agentId o.time)
      (fun claim => { claim with taskEnvelopeSentAt := some o.time })
      (envelopeEvents o)) s) :
    Ensures R (markTaskEnvelopeSent dates runId agentId o) s := by
  refine ensures_of fun r t hx => ?_
  rcases markTaskEnvelopeSent_cases hx with rfl | hx
  · exact hrefl
  · exact h.snd hx

theorem refuseUnless_ok {c : Bool} {message : String}
    (h : refuseUnless c message = .ok ()) : c = true := by
  unfold refuseUnless at h
  split at h
  · assumption
  · cases h

theorem except_bind_ok {ε α β : Type} {x : Except ε α} {f : α → Except ε β}
    {b : β} (h : (x >>= f) = .ok b) : ∃ a, x = .ok a ∧ f a = .ok b := by
  cases x with
  | error e => cases h
  | ok a => exact ⟨a, rfl, h⟩

theorem setRunFinalizationState_cases {runId : RunId} {agentId : AgentId}
    {u : FinalizationUpdate} {s t : Project} {r : Except DomainError Claim}
    (h : setRunFinalizationState dates runId agentId u s = (r, t)) :
    t = s ∨ ∃ claim, s.findClaim runId = some claim ∧
      claim.agentId = agentId ∧ claim.state = .inProgress ∧
      Mutated (fun c => c.runId = runId) (applyFinalization u) s.events.runs
        t.events.runs ∧ t.tasks = s.tasks := by
  rcases updateClaim_cases (f := applyFinalization u) (fun _ => rfl) h with
    rfl | ⟨claim, hfind, hcheck, hmut, htasks⟩
  · exact .inl rfl
  obtain ⟨⟨⟩, howner, hcheck⟩ := except_bind_ok hcheck
  exact .inr ⟨claim, hfind, of_decide_eq_true (refuseUnless_ok howner),
    of_decide_eq_true (refuseUnless_ok hcheck), hmut, htasks⟩

theorem setRunInputState_cases {runId : RunId} {agentId : AgentId}
    {inputState : Option InputState} {requestedAt : Option String}
    {now : String} {s t : Project} {r : Except DomainError Claim}
    (h : setRunInputState dates runId agentId inputState requestedAt now s =
      (r, t)) :
    t = s ∨ ∃ claim, s.findClaim runId = some claim ∧ claim.active = true ∧
      Mutated (fun c => c.runId = runId)
        (applyInputState inputState requestedAt now) s.events.runs
        t.events.runs ∧ t.tasks = s.tasks := by
  rcases updateClaim_cases (f := applyInputState inputState requestedAt now)
      (fun _ => rfl) h with rfl | ⟨claim, hfind, hcheck, hmut, htasks⟩
  · exact .inl rfl
  obtain ⟨⟨⟩, -, hcheck⟩ := except_bind_ok hcheck
  obtain ⟨⟨⟩, hactive, -⟩ := except_bind_ok hcheck
  exact .inr ⟨claim, hfind, refuseUnless_ok hactive, hmut, htasks⟩

/-! ## Leases of one claim -/

def LeaseOnly (f : Claim → Claim) : Prop :=
  ∀ c, f c = { c with
    lastHeartbeatAt := (f c).lastHeartbeatAt
    leaseExpiresAt := (f c).leaseExpiresAt }

theorem LeaseOnly.runId {f : Claim → Claim} (h : LeaseOnly f) (c : Claim) :
    (f c).runId = c.runId := by
  rw [h c]

theorem heartbeat_cases {runId : RunId} {agentId : AgentId}
    {o : HeartbeatOptions} {s t : Project} {r : Except DomainError String}
    (h : heartbeat dates runId agentId o s = (r, t)) :
    t = s ∨ ∃ f, LeaseOnly f ∧
      Mutated (fun c => c.runId = runId) f s.events.runs t.events.runs ∧
      t.tasks = s.tasks := by
  simp only [heartbeat, read_bind, assertValidTimestamp] at h
  rcases ofExcept_cases h with ⟨-, rfl⟩ | ⟨claim, hclaim, h⟩
  · exact .inl rfl
  rcases throwIf_cases h with ⟨-, rfl⟩ | ⟨-, h⟩
  · exact .inl rfl
  rcases throwIf_cases h with ⟨-, rfl⟩ | ⟨-, h⟩
  · exact .inl rfl
  rcases throwIf_cases h with ⟨-, rfl⟩ | ⟨-, h⟩
  · exact .inl rfl
  obtain ⟨r', hx, -⟩ := result_cases h
  rcases commitMutated_cases hx (fun _ => rfl) with ⟨-, rfl⟩ | ⟨-, hmut⟩
  · exact .inl rfl
  · exact .inr ⟨_, fun _ => rfl, hmut⟩

theorem renewLeaseOnly_cases {runId : RunId} {lease now : Int} {s t : Project}
    {r : Except DomainError Unit}
    (h : renewLeaseOnly dates runId lease now s = (r, t)) :
    t = s ∨ ∃ f, LeaseOnly f ∧
      Mutated (fun c => c.runId = runId) f s.events.runs t.events.runs ∧
      t.tasks = s.tasks := by
  simp only [renewLeaseOnly, read_bind] at h
  cases hfind : s.findClaim runId with
  | none =>
      simp only [hfind] at h
      cases h
      exact .inl rfl
  | some claim =>
      simp only [hfind] at h
      split at h
      · cases h
        exact .inl rfl
      · rcases commitMutated_cases h (fun _ => rfl) with ⟨-, rfl⟩ | ⟨-, hmut⟩
        · exact .inl rfl
        · exact .inr ⟨_, fun _ => rfl, hmut⟩

/-! ## Start and finish -/

theorem startRun_cases {runId : RunId} {agentId : AgentId} {o : StartOptions}
    {now : String} {s t : Project} {r : Except DomainError Unit}
    (h : startRun dates runId agentId o now s = (r, t)) :
    t = s ∨ ∃ claim, s.findClaim runId = some claim ∧
      claim.agentId = agentId ∧ claim.state = .claimed ∧
      commitStart dates claim agentId o now s s = (r, t) := by
  simp only [startRun, read_bind, assertValidTimestamp] at h
  rcases ofExcept_cases h with ⟨-, rfl⟩ | ⟨claim, hclaim, h⟩
  · exact .inl rfl
  obtain ⟨hfind, hagent⟩ := ownClaim_ok.mp hclaim
  split at h
  · cases h
    exact .inl rfl
  · rcases throwIf_cases h with ⟨-, rfl⟩ | ⟨hstate, h⟩
    · exact .inl rfl
    rcases throwIf_cases h with ⟨-, rfl⟩ | ⟨-, h⟩
    · exact .inl rfl
    exact .inr ⟨claim, hfind, hagent, not_not.mp hstate, h⟩

theorem commitStart_cases {claim : Claim} {agentId : AgentId}
    {o : StartOptions} {now : String} {s t : Project}
    {r : Except DomainError Unit}
    (h : commitStart dates claim agentId o now s s = (r, t)) :
    (findTask s.backlog claim.taskRef = none ∧
        (t = s ∨ Mutated (fun c => c.runId = claim.runId) (startClaim o.time)
          s.events.runs t.events.runs ∧ t.tasks = s.tasks)) ∨
      ∃ task, findTask s.backlog claim.taskRef = some task ∧
        BothOutcome (fun c => c.runId = claim.runId) (startClaim o.time)
          [(claim.taskRef,
            { cause := .runStart, runId := some claim.runId
              actorId := some (o.actorId.getD agentId) })]
          claim.taskRef (fun task => { task with status := .inProgress })
          s r t := by
  unfold commitStart at h
  cases hfind : findTask s.backlog claim.taskRef with
  | none =>
      simp only [hfind] at h
      refine .inl ⟨rfl, ?_⟩
      rcases commitMutated_cases h (fun _ => rfl) with ⟨-, rfl⟩ | ⟨-, hmut⟩
      · exact .inl rfl
      · exact .inr hmut
  | some task =>
      simp only [hfind] at h
      refine .inr ⟨task, rfl, commitBoth_outcome h (fun _ => rfl) ?_ ?_⟩
      · simp [TaskStatusChange.Ordinary]
      · exact fun _ href => href

theorem finishRun_commit {runId : RunId} {agentId : AgentId}
    {o : FinishOptions} {now : String} {s t : Project}
    {r : Except DomainError Unit}
    (h : finishRun dates runId agentId o now s = (r, t)) :
    t = s ∨ ∃ claim, s.findClaim runId = some claim ∧
      claim.agentId = agentId ∧
      ((claim.active = true ∧
          commitFinish dates claim agentId o now s s = (r, t)) ∨
        claim.active = false ∧
          onEvents (commitClaims dates
            (mutateClaim s.claims runId clearFinalization) []) s = (r, t)) := by
  simp only [finishRun, read_bind, assertValidTimestamp] at h
  rcases ofExcept_cases h with ⟨-, rfl⟩ | ⟨claim, hclaim, h⟩
  · exact .inl rfl
  obtain ⟨hfind, hagent⟩ := ownClaim_ok.mp hclaim
  rcases throwIf_cases h with ⟨-, rfl⟩ | ⟨-, h⟩
  · exact .inl rfl
  split at h
  · rename_i hactive
    exact .inr ⟨claim, hfind, hagent, .inl ⟨hactive, h⟩⟩
  · rename_i hactive
    split at h
    · exact .inr ⟨claim, hfind, hagent, .inr ⟨by simpa using hactive, h⟩⟩
    · cases h
      exact .inl rfl

theorem finishRun_cases {runId : RunId} {agentId : AgentId}
    {o : FinishOptions} {now : String} {s t : Project}
    {r : Except DomainError Unit}
    (h : finishRun dates runId agentId o now s = (r, t)) :
    t = s ∨ ∃ claim, s.findClaim runId = some claim ∧
      claim.agentId = agentId ∧
      ((claim.active = true ∧
          commitFinish dates claim agentId o now s s = (r, t)) ∨
        claim.active = false ∧
          Mutated (fun c => c.runId = runId) clearFinalization
            s.events.runs t.events.runs ∧ t.tasks = s.tasks) := by
  rcases finishRun_commit h with
    rfl | ⟨claim, hfind, hagent, hactive | ⟨hended, h⟩⟩
  · exact .inl rfl
  · exact .inr ⟨claim, hfind, hagent, .inl hactive⟩
  · rcases commitMutated_cases h (fun _ => rfl) with ⟨-, rfl⟩ | ⟨-, hmut⟩
    · exact .inl rfl
    · exact .inr ⟨claim, hfind, hagent, .inr ⟨hended, hmut⟩⟩

def finishChanges (claim : Claim) (agentId : AgentId) (o : FinishOptions)
    (task finished : Task) : TaskStatusChanges :=
  if finished.status = task.status then []
  else
    [(claim.taskRef,
      { cause := finishCause finished, runId := some claim.runId
        actorId := some agentId, reason := finishReason o finished })]

theorem finishChanges_ordinary (claim : Claim) (agentId : AgentId)
    (o : FinishOptions) (task finished : Task) :
    ∀ p ∈ finishChanges claim agentId o task finished,
      TaskStatusChange.Ordinary p.2 := by
  intro p hp
  unfold finishChanges at hp
  split at hp
  · cases hp
  · obtain rfl := List.mem_singleton.mp hp
    refine ⟨rfl, ?_⟩
    change finishCause finished ≠ .migrationImport
    unfold finishCause
    split
    · decide
    · split <;> decide

theorem countAttempt_ref (verb : String) (base : Int) (task : Task) :
    (countAttempt dates verb base task).ref = task.ref := by
  simp only [countAttempt]
  split <;> rfl

theorem finishTask_ref (o : FinishOptions) (task : Task) :
    (finishTask dates o task).ref = task.ref := by
  unfold finishTask
  split
  · rfl
  · split
    · rfl
    · split
      · rfl
      · exact countAttempt_ref _ _ task

theorem countAttempt_status (verb : String) (base : Int) (task : Task) :
    (countAttempt dates verb base task).status = .blocked ∨
      (countAttempt dates verb base task).status = .todo := by
  simp only [countAttempt]
  split
  · exact .inl rfl
  · exact .inr rfl

theorem finishTask_status (dates : DateApi) {o : FinishOptions}
    (h : o.success = false) (task : Task) :
    (finishTask dates o task).status = .blocked ∨
      (finishTask dates o task).status = .todo := by
  unfold finishTask
  rw [h]
  simp only [Bool.false_eq_true, if_false]
  split
  · exact .inl rfl
  · split
    · exact .inr rfl
    · exact countAttempt_status _ _ task

theorem taskOfRun_eq_some {s : Project} {claim : Claim} {task : Task}
    (h : taskOfRun s claim = some task) :
    findTask s.backlog claim.taskRef = some task ∧
      task.status.running = true :=
  Option.filter_eq_some_iff.mp h

theorem commitFinish_cases {claim : Claim} {agentId : AgentId}
    {o : FinishOptions} {now : String} {s t : Project}
    {r : Except DomainError Unit}
    (h : commitFinish dates claim agentId o now s s = (r, t)) :
    (taskOfRun s claim = none ∧
        (t = s ∨ Mutated (fun c => c.runId = claim.runId) (finishClaim o)
          s.events.runs t.events.runs ∧ t.tasks = s.tasks)) ∨
      ∃ task, taskOfRun s claim = some task ∧
        BothOutcome (fun c => c.runId = claim.runId) (finishClaim o)
          (finishChanges claim agentId o task (finishTask dates o task))
          claim.taskRef (fun _ => finishTask dates o task) s r t := by
  unfold commitFinish at h
  cases hfind : taskOfRun s claim with
  | none =>
      simp only [hfind] at h
      refine .inl ⟨rfl, ?_⟩
      rcases commitMutated_cases h (fun _ => rfl) with ⟨-, rfl⟩ | ⟨-, hmut⟩
      · exact .inl rfl
      · exact .inr hmut
  | some task =>
      simp only [hfind] at h
      have href : task.ref = claim.taskRef :=
        (findTask_eq_some (Option.filter_eq_some_iff.mp hfind).1).2
      refine .inr ⟨task, rfl, commitBoth_outcome h (fun _ => rfl) ?_ ?_⟩
      · exact finishChanges_ordinary claim agentId o task _
      · exact fun _ _ => (finishTask_ref o task).trans href

/-! ## Operator mutations -/

structure Removed (p : Claim → Bool) (runs runs' : Runs) : Prop where
  mem : ∀ c, c ∈ runs' ↔ c ∈ runs ∧ p c = false
  one : OneActive runs → OneActive runs'

def cancelChange (reason : Option String) (actorId : AgentId) :
    TaskStatusChange where
  cause := .cancel
  actorId := some actorId
  reason := reason

def cancelEntry (task : Task) : Task :=
  { task with status := .cancelled, blockedReason := none }

theorem cancelClaims_cases {ref : TaskRef} {reason : Option String}
    {actorId : AgentId} {now : String} {s t : Project}
    {r : Except DomainError Unit}
    (h : cancelClaims dates ref reason actorId now s s = (r, t)) :
    ((∃ e, r = .error e) ∧ t = s) ∨
      r = .ok () ∧ t.tasks = s.tasks ∧
        Removed (fun c => c.taskRef = ref && c.active) s.events.runs
          t.events.runs := by
  unfold cancelClaims at h
  split at h
  · rename_i hnone
    cases h
    refine .inr ⟨rfl, rfl, fun c => ⟨fun hc => ⟨hc, ?_⟩, fun hc => hc.1⟩, id⟩
    have hfilter := List.filter_eq_nil_iff.mp hnone c hc
    simpa using hfilter
  · rcases onEvents_cases h with ⟨e, rfl, rfl⟩ | ⟨⟨⟩, db, hdb, rfl, rfl⟩
    · exact .inl ⟨⟨e, rfl⟩, rfl⟩
    · have hnodup : ((s.claims.filter fun c =>
          !(c.taskRef = ref && c.active)).map Claim.runId).Nodup :=
        s.events.runs.nodup.sublist (List.filter_sublist.map Claim.runId)
      obtain ⟨hmem, -, hone⟩ := commitClaims_ok hnodup hdb
      refine .inr ⟨rfl, rfl, fun c => ?_, hone⟩
      rw [setEvents_events, hmem c, List.mem_filter]
      exact and_congr Iff.rfl (by simp only [Bool.not_eq_true'])

theorem appendEvent_cases {event : OrcEvent} {s t : Project}
    {r : Except DomainError Unit}
    (h : onEvents (appendSequencedEvent dates event) s = (r, t)) :
    t.events.runs = s.events.runs ∧ t.tasks = s.tasks ∧
      (t = s ∨ r = .ok ()) := by
  rcases onEvents_cases h with ⟨e, rfl, rfl⟩ | ⟨⟨⟩, db, hdb, rfl, rfl⟩
  · exact ⟨rfl, rfl, .inl rfl⟩
  · obtain ⟨-, rfl⟩ := appendSequencedEvent_ok.mp hdb
    exact ⟨rfl, rfl, .inr rfl⟩

theorem commitEntry_cases {changes : TaskStatusChanges} {ref : TaskRef}
    {g : Task → Task} {now : String} {s t : Project}
    {r : Except DomainError Unit}
    (h : onTasks (commitBacklog (mutateTask (readProjectBacklog s.tasks) ref g)
      changes now) s = (r, t))
    (hord : ∀ p ∈ changes, TaskStatusChange.Ordinary p.2)
    (hg : ∀ task, task.ref = ref → (g task).ref = ref) :
    Refused s r t ∨ r = .ok () ∧ t.events = s.events ∧
      Committed changes ref g s.tasks t.tasks := by
  rcases onTasks_cases h with ⟨e, rfl, rfl⟩ | ⟨⟨⟩, ts, hts, rfl, rfl⟩
  · exact .inl ⟨⟨e, rfl⟩, rfl⟩
  · exact .inr ⟨rfl, rfl, commitMutated_tasks hord hg hts⟩

theorem commitCancel_cases {ref : TaskRef} {reason : Option String}
    {actorId : AgentId} {now : String} {s t : Project}
    {r : Except DomainError Unit}
    (h : commitCancel dates ref reason actorId now s s = (r, t)) :
    t = s ∨
      Removed (fun c => c.taskRef = ref && c.active) s.events.runs
        t.events.runs ∧
      (((∃ e, r = .error e) ∧ t.tasks = s.tasks) ∨
        Committed [(ref, cancelChange reason actorId)] ref cancelEntry s.tasks
          t.tasks) := by
  rcases bind_cases h with ⟨e, hclaims, rfl⟩ | ⟨⟨⟩, m, hclaims, h⟩
  · rcases cancelClaims_cases hclaims with ⟨-, rfl⟩ | ⟨hr, -⟩
    · exact .inl rfl
    · cases hr
  rcases cancelClaims_cases hclaims with ⟨⟨e, he⟩, -⟩ | ⟨-, htasks, hremoved⟩
  · cases he
  right
  have hbacklog : s.backlog = readProjectBacklog m.tasks := by
    rw [htasks]
    rfl
  rw [hbacklog] at h
  have hcommit : ∀ {r' : Except DomainError Unit} {n : Project},
      onTasks (commitBacklog (mutateTask (readProjectBacklog m.tasks) ref
        cancelEntry) [(ref, cancelChange reason actorId)] now) m = (r', n) →
      Refused m r' n ∨ r' = .ok () ∧ n.events = m.events ∧
        Committed [(ref, cancelChange reason actorId)] ref cancelEntry m.tasks
          n.tasks :=
    fun h => commitEntry_cases h (by simp [TaskStatusChange.Ordinary,
      cancelChange]) fun _ href => href
  rcases bind_cases h with ⟨e, hx, rfl⟩ | ⟨⟨⟩, n, hx, h⟩
  · rcases hcommit hx with ⟨-, rfl⟩ | ⟨hr, -⟩
    · exact ⟨hremoved, .inl ⟨⟨e, rfl⟩, htasks⟩⟩
    · cases hr
  · rcases hcommit hx with ⟨⟨e, he⟩, -⟩ | ⟨-, hevents, hdone⟩
    · cases he
    · obtain ⟨hruns, hts, -⟩ := appendEvent_cases h
      rw [hruns, hevents, hts]
      rw [htasks] at hdone
      exact ⟨hremoved, .inr hdone⟩

theorem cancelTask_cases {ref : TaskRef} {reason : Option String}
    {actorId : AgentId} {now : String} {s t : Project}
    {r : Except DomainError CancelResult}
    (h : cancelTask dates registry ref reason actorId now s = (r, t)) :
    t = s ∨ ∃ task r', findTask s.backlog ref = some task ∧
      task.status.terminal = false ∧
      commitCancel dates ref reason actorId now s s = (r', t) ∧
      ∀ e, r = .error e ↔ r' = .error e := by
  simp only [cancelTask] at h
  rcases throwIf_cases h with ⟨-, rfl⟩ | ⟨-, h⟩
  · exact .inl rfl
  rcases throwIf_cases h with ⟨-, rfl⟩ | ⟨-, h⟩
  · exact .inl rfl
  rcases throwIf_cases h with ⟨-, rfl⟩ | ⟨-, h⟩
  · exact .inl rfl
  rw [read_bind] at h
  rcases orThrow_cases h with ⟨-, rfl⟩ | ⟨task, htask, h⟩
  · exact .inl rfl
  split at h
  · cases h
    exact .inl rfl
  rename_i hopen
  obtain ⟨r', hx, hr⟩ := result_cases h
  exact .inr ⟨task, r', htask, by simpa using hopen, hx, hr⟩

def resetChanges (ref : TaskRef) (actorId : AgentId) (task : Task) :
    TaskStatusChanges :=
  if task.status = .todo then []
  else [(ref, { cause := .operatorReset, actorId := some actorId })]

def resetEvents (s : Project) (ref : TaskRef) (actorId : AgentId) (task : Task)
    (now : String) : List OrcEvent :=
  taskEvent now .taskUpdated actorId ref
      [("reset", .bool true), ("previous_status", .str task.status.text),
        ("status", .str "todo")] ::
    (activeClaimsFor s ref).map fun claim =>
      runEvent now .runCancelled (actorTypeOf actorId) actorId claim
        [("reason", .str "manual_reset")]

theorem resetTask_commit {ref : TaskRef} {actorId : AgentId} {now : String}
    {s t : Project} {r : Except DomainError TaskStatus}
    (h : resetTask dates ref actorId now s = (r, t)) :
    t = s ∨ ∃ task r', findTask s.backlog ref = some task ∧
      commitBoth dates
        (mutateClaims s.claims (fun c => c.taskRef = ref && c.active)
          (resetClaim now))
        (resetEvents s ref actorId task now) (mutateTask s.backlog ref resetEntry)
        (resetChanges ref actorId task) now s = (r', t) ∧
      ∀ e, r = .error e ↔ r' = .error e := by
  simp only [resetTask] at h
  rcases throwIf_cases h with ⟨-, rfl⟩ | ⟨-, h⟩
  · exact .inl rfl
  rcases throwIf_cases h with ⟨-, rfl⟩ | ⟨-, h⟩
  · exact .inl rfl
  rw [read_bind] at h
  rcases orThrow_cases h with ⟨-, rfl⟩ | ⟨task, htask, h⟩
  · exact .inl rfl
  obtain ⟨r', hx, hr⟩ := result_cases h
  exact .inr ⟨task, r', htask, hx, hr⟩

theorem resetTask_cases {ref : TaskRef} {actorId : AgentId} {now : String}
    {s t : Project} {r : Except DomainError TaskStatus}
    (h : resetTask dates ref actorId now s = (r, t)) :
    t = s ∨ ∃ task r', findTask s.backlog ref = some task ∧
      BothOutcome (fun c => c.taskRef = ref && c.active) (resetClaim now)
        (resetChanges ref actorId task) ref resetEntry s r' t ∧
      ∀ e, r = .error e ↔ r' = .error e := by
  rcases resetTask_commit h with rfl | ⟨task, r', htask, hx, hr⟩
  · exact .inl rfl
  have hord : ∀ p ∈ resetChanges ref actorId task,
      TaskStatusChange.Ordinary p.2 := by
    unfold resetChanges
    split <;> simp [TaskStatusChange.Ordinary]
  exact .inr ⟨task, r', htask,
    commitBoth_outcome hx (fun _ => rfl) hord fun _ href => href, hr⟩

theorem commitLogged_cases {changes : TaskStatusChanges} {ref : TaskRef}
    {g : Task → Task} {now : String} {event : OrcEvent} {s t : Project}
    {r : Except DomainError Unit}
    (h : (do
      onTasks (commitBacklog (mutateTask s.backlog ref g) changes now)
      onEvents (appendSequencedEvent dates event)) s = (r, t))
    (hord : ∀ p ∈ changes, TaskStatusChange.Ordinary p.2)
    (hg : ∀ task, task.ref = ref → (g task).ref = ref) :
    t = s ∨ t.events.runs = s.events.runs ∧
      Committed changes ref g s.tasks t.tasks := by
  rcases bind_cases h with ⟨e, hx, rfl⟩ | ⟨⟨⟩, m, hx, h⟩
  · rcases commitEntry_cases hx hord hg with ⟨-, rfl⟩ | ⟨hr, -⟩
    · exact .inl rfl
    · cases hr
  · rcases commitEntry_cases hx hord hg with ⟨⟨e, he⟩, -⟩ | ⟨-, hevents, hdone⟩
    · cases he
    · obtain ⟨hruns, htasks, -⟩ := appendEvent_cases h
      rw [hruns, hevents, htasks]
      exact .inr ⟨rfl, hdone⟩

def unblockEntry (task : Task) : Task :=
  { task with status := .todo, blockedReason := none }

theorem unblockTask_cases {ref : TaskRef} {reason : Option String}
    {actorId : AgentId} {now : String} {s t : Project}
    {r : Except DomainError Unit}
    (h : unblockTask dates ref reason actorId now s = (r, t)) :
    t = s ∨ ∃ task, findTask s.backlog ref = some task ∧
      task.status = .blocked ∧ t.events.runs = s.events.runs ∧
      Committed
        [(ref,
          { cause := .unblock, actorId := some actorId, reason := reason })]
        ref unblockEntry s.tasks t.tasks := by
  simp only [unblockTask] at h
  rcases throwIf_cases h with ⟨-, rfl⟩ | ⟨-, h⟩
  · exact .inl rfl
  rcases throwIf_cases h with ⟨-, rfl⟩ | ⟨-, h⟩
  · exact .inl rfl
  rw [read_bind] at h
  rcases orThrow_cases h with ⟨-, rfl⟩ | ⟨task, htask, h⟩
  · exact .inl rfl
  rcases throwIf_cases h with ⟨-, rfl⟩ | ⟨hblocked, h⟩
  · exact .inl rfl
  rcases commitLogged_cases h (by simp [TaskStatusChange.Ordinary])
    (fun _ href => href) with rfl | ⟨hruns, hdone⟩
  · exact .inl rfl
  · exact .inr ⟨task, htask, not_not.mp hblocked, hruns, hdone⟩

def delegateChanges (args : DelegateArgs) (task : Task) : TaskStatusChanges :=
  if task.status = .blocked then
    [(args.taskRef, { cause := .unblock, actorId := some args.actorId })]
  else []

theorem delegateTask_cases {args : DelegateArgs} {now : String} {s t : Project}
    {r : Except DomainError (Option AgentId)}
    (h : delegateTask dates registry args now s = (r, t)) :
    t = s ∨ ∃ task target, findTask s.backlog args.taskRef = some task ∧
      t.events.runs = s.events.runs ∧
      Committed (delegateChanges args task) args.taskRef
        (delegatedTask args target) s.tasks t.tasks := by
  simp only [delegateTask] at h
  rcases throwIf_cases h with ⟨-, rfl⟩ | ⟨-, h⟩
  · exact .inl rfl
  rcases throwIf_cases h with ⟨-, rfl⟩ | ⟨-, h⟩
  · exact .inl rfl
  rcases throwIf_cases h with ⟨-, rfl⟩ | ⟨-, h⟩
  · exact .inl rfl
  rw [read_bind] at h
  rcases orThrow_cases h with ⟨-, rfl⟩ | ⟨task, htask, h⟩
  · exact .inl rfl
  rcases ofExcept_cases h with ⟨-, rfl⟩ | ⟨target, -, h⟩
  · exact .inl rfl
  obtain ⟨r', hx, -⟩ := result_cases h
  have hord : ∀ p ∈ delegateChanges args task,
      TaskStatusChange.Ordinary p.2 := by
    unfold delegateChanges
    split <;> simp [TaskStatusChange.Ordinary]
  rcases commitLogged_cases hx hord (fun _ href => href) with
    rfl | ⟨hruns, hdone⟩
  · exact .inl rfl
  · exact .inr ⟨task, target, htask, hruns, hdone⟩

def expireChange (runId : RunId) (actorId : AgentId) : TaskStatusChange where
  cause := .failureRequeue
  runId := some runId
  actorId := some actorId
  reason := some "manual_expire"

theorem expireRun_commit {runId : RunId} {actorId : AgentId} {now : String}
    {s t : Project} {r : Except DomainError Unit}
    (h : expireRun dates runId actorId now s = (r, t)) :
    t = s ∨ ∃ claim task, s.findClaim runId = some claim ∧
      claim.active = true ∧ findTask s.backlog claim.taskRef = some task ∧
      task.status.terminal = false ∧
      commitBoth dates (mutateClaim s.claims runId (expireRunClaim now))
        [runEvent now .claimExpired (actorTypeOf actorId) actorId claim
          [("reason", .str "manual_expire"), ("policy", .str "requeue")]]
        (mutateTask s.backlog claim.taskRef fun task =>
          { task with status := .todo })
        [(claim.taskRef, expireChange runId actorId)] now s = (r, t) := by
  simp only [expireRun] at h
  rcases throwIf_cases h with ⟨-, rfl⟩ | ⟨-, h⟩
  · exact .inl rfl
  rw [read_bind] at h
  rcases orThrow_cases h with ⟨-, rfl⟩ | ⟨claim, hclaim, h⟩
  · exact .inl rfl
  rcases throwIf_cases h with ⟨-, rfl⟩ | ⟨hactive, h⟩
  · exact .inl rfl
  rcases orThrow_cases h with ⟨-, rfl⟩ | ⟨task, htask, h⟩
  · exact .inl rfl
  rcases throwIf_cases h with ⟨-, rfl⟩ | ⟨hopen, h⟩
  · exact .inl rfl
  exact .inr ⟨claim, task, hclaim, by simpa using hactive, htask,
    by simpa using hopen, h⟩

theorem expireRun_cases {runId : RunId} {actorId : AgentId} {now : String}
    {s t : Project} {r : Except DomainError Unit}
    (h : expireRun dates runId actorId now s = (r, t)) :
    t = s ∨ ∃ claim task, s.findClaim runId = some claim ∧
      claim.active = true ∧ findTask s.backlog claim.taskRef = some task ∧
      task.status.terminal = false ∧
      BothOutcome (fun c => c.runId = runId) (expireRunClaim now)
        [(claim.taskRef, expireChange runId actorId)]
        claim.taskRef (fun task => { task with status := .todo }) s r t := by
  rcases expireRun_commit h with
    rfl | ⟨claim, task, hclaim, hactive, htask, hopen, h⟩
  · exact .inl rfl
  refine .inr ⟨claim, task, hclaim, hactive, htask, hopen,
    commitBoth_outcome h (fun _ => rfl) ?_ ?_⟩
  · simp [TaskStatusChange.Ordinary, expireChange]
  · exact fun _ href => href

def completeEntry (task : Task) : Task :=
  { task with status := .done, blockedReason := none }

def mergedChange (s : Project) (ref : TaskRef) (actorId : AgentId) :
    TaskStatusChange where
  cause := .mergeSucceeded
  actorId := some actorId
  runId := s.tasks.activeRunId ref

theorem completeTask_cases {ref : TaskRef} {task : Task} {actorId : AgentId}
    {now : String} {s t : Project} {r : Except DomainError Unit}
    (h : completeTask ref task actorId now s s = (r, t)) :
    t.events = s.events ∧
      (t.tasks = s.tasks ∨ task.status ≠ .done ∧
        Committed [(ref, mergedChange s ref actorId)] ref completeEntry s.tasks
          t.tasks) := by
  unfold completeTask at h
  split at h
  · cases h
    exact ⟨rfl, .inl rfl⟩
  · rename_i hne
    rcases commitEntry_cases h (by simp [TaskStatusChange.Ordinary])
      (fun _ href => href) with ⟨-, rfl⟩ | ⟨-, hevents, hdone⟩
    · exact ⟨rfl, .inl rfl⟩
    · exact ⟨hevents, .inr ⟨hne, hdone⟩⟩

theorem markTaskDoneRuntimeOnly_cases {ref : TaskRef} {actorId : AgentId}
    {now : String} {s t : Project} {r : Except DomainError TaskStatus}
    (h : markTaskDoneRuntimeOnly dates ref actorId now s = (r, t)) :
    t.events.runs = s.events.runs ∧
      (t.tasks = s.tasks ∨ ∃ task, findTask s.backlog ref = some task ∧
        task.status ≠ .done ∧
        Committed [(ref, mergedChange s ref actorId)] ref completeEntry s.tasks
          t.tasks) := by
  simp only [markTaskDoneRuntimeOnly, read_bind] at h
  rcases orThrow_cases h with ⟨-, rfl⟩ | ⟨task, htask, h⟩
  · exact ⟨rfl, .inl rfl⟩
  rcases throwIf_cases h with ⟨-, rfl⟩ | ⟨-, h⟩
  · exact ⟨rfl, .inl rfl⟩
  rcases bind_cases h with ⟨e, hx, rfl⟩ | ⟨⟨⟩, m, hx, h⟩
  · obtain ⟨hevents, htasks⟩ := completeTask_cases hx
    exact ⟨by rw [hevents],
      htasks.imp_right fun hdone => ⟨task, htask, hdone⟩⟩
  · obtain ⟨r', hlog, -⟩ := result_cases h
    obtain ⟨hruns, hsame, -⟩ := appendEvent_cases hlog
    obtain ⟨hevents, htasks⟩ := completeTask_cases hx
    rw [hruns, hsame, hevents]
    exact ⟨rfl, htasks.imp_right fun hdone => ⟨task, htask, hdone⟩⟩

/-! ## claimTask -/

theorem unclaimed_ok {s : Project} {ref : TaskRef}
    (h : unclaimed s ref = .ok ()) :
    ∀ c, c ∈ s.events.runs → c.active = true → c.taskRef ≠ ref := by
  intro c hc hactive href
  unfold unclaimed at h
  split at h
  · cases h
  · rename_i hnone
    have := List.find?_eq_none.mp hnone c hc
    simp [href, hactive] at this

structure Added (claim : Claim) (runs runs' : Runs) : Prop where
  mem : ∀ c, c ∈ runs' ↔ c ∈ runs ∨ c = claim
  one : OneActive runs → OneActive runs'
  named : WellNamed claim

theorem commitNewClaim_cases {claim : Claim}
    {snapshot : Except DomainError Unit} {s t : Project}
    {r : Except DomainError Unit}
    (hfresh : ∀ c, c ∈ s.events.runs → c.runId ≠ claim.runId)
    (h : commitNewClaim dates claim snapshot s = (r, t)) :
    Refused s r t ∨ r = .ok () ∧ t.tasks = s.tasks ∧
      Added claim s.events.runs t.events.runs := by
  rcases ofExcept_cases h with hno | ⟨⟨⟩, -, h⟩
  · exact .inl hno
  rw [read_bind] at h
  rcases onEvents_cases h with ⟨e, rfl, rfl⟩ | ⟨⟨⟩, db, hdb, rfl, rfl⟩
  · exact .inl ⟨⟨e, rfl⟩, rfl⟩
  have hnodup : ((s.claims ++ [claim]).map Claim.runId).Nodup := by
    rw [List.map_append, List.nodup_append]
    refine ⟨s.events.runs.nodup, by simp, fun id hid id' hid' => ?_⟩
    obtain ⟨c, hc, rfl⟩ := List.mem_map.mp hid
    rw [List.map_singleton, List.mem_singleton] at hid'
    exact hid' ▸ hfresh c hc
  obtain ⟨hmem, hvalid, hone⟩ := commitClaims_ok hnodup hdb
  refine .inr ⟨rfl, rfl, fun c => ?_, hone, ?_⟩
  · rw [setEvents_events, hmem c, List.mem_append, List.mem_singleton]
    rfl
  · exact ((validEvent_runEvent (by decide)).mp
      (hvalid _ (List.mem_singleton.mpr rfl))).2.1

theorem returnTask_ok {ref : TaskRef} {runId : RunId} {agentId : AgentId}
    {now : String} {ts ts' : TaskStore} {u : Unit}
    (h : returnTask ref runId agentId now ts = .ok (u, ts')) :
    (∀ r, r ≠ ref → statusAt ts' r = statusAt ts r) ∧
      (∀ id, ts'.Bound id ↔ ts.Bound id) ∧
      (ts.WellFormed → ts'.WellFormed) := by
  simp only [returnTask, Txn.bind_ok, abandonRun, Txn.modify_ok] at h
  obtain ⟨_, m, hmove, rfl⟩ := h
  obtain ⟨task, htask, -, -, rfl⟩ := applyTransition_ok rfl hmove
  have href : task.ref = ref := Table.key_of_find? htask
  subst href
  have hmoved := Transitioned.of_transitioned htask
    { cause := .failureRequeue, toStatus := .todo, runId := some runId
      reason := some "claim_not_committed", actorId := some agentId } now
  refine ⟨fun r hr => ?_, fun id => ?_, fun hts => ?_⟩
  · exact congrArg (Option.map ProjectTask.status) (hmoved.other r hr)
  · rw [← hmoved.bound id]
    simp only [TaskStore.Bound, Table.mem_map]
    constructor
    · rintro ⟨_, ⟨run, hrun, rfl⟩, hid⟩
      exact ⟨run, hrun, by rw [← hid, abandoned_runId]⟩
    · rintro ⟨run, hrun, hid⟩
      exact ⟨_, ⟨run, hrun, rfl⟩, by rw [abandoned_runId, hid]⟩
  · have hm := hts.transitioned task
      { cause := .failureRequeue, toStatus := .todo, runId := some runId
        reason := some "claim_not_committed", actorId := some agentId } now
    refine ⟨hm.refs, hm.tidy, fun run hrun => ?_⟩
    simp only [Table.mem_map] at hrun
    obtain ⟨run, hold, rfl⟩ := hrun
    unfold TaskRun.abandoned
    split
    · simp
    · exact hm.settled run hold

theorem claimTask_cases {ref : TaskRef} {agentId : AgentId} {lease : Int}
    {runId : RunId} {snapshot : Except DomainError Unit} {now : Int}
    {s t : Project} {r : Except DomainError (RunId × String)}
    (hbound : ∀ c, c ∈ s.events.runs → s.tasks.Bound c.runId)
    (h : claimTask dates ref agentId lease runId snapshot now s = (r, t)) :
    t = s ∨
      (∀ c, c ∈ s.events.runs → c.active = true → c.taskRef ≠ ref) ∧
        ∃ pinned ts,
          TaskStore.claimTask ref runId agentId (dates.toISOString now)
            s.tasks = .ok (pinned, ts) ∧
          ((t.tasks = ts ∧
              Added (newClaim runId ref agentId (dates.toISOString now)
                (dates.toISOString (now + lease))) s.events.runs
                t.events.runs) ∨
            (∃ e, r = .error e) ∧ t.events = s.events ∧
              (t.tasks = ts ∨ ∃ u,
                returnTask ref runId agentId (dates.toISOString now) ts =
                  .ok (u, t.tasks))) := by
  simp only [claimTask, read_bind] at h
  rcases orThrow_cases h with ⟨-, rfl⟩ | ⟨task, htask, h⟩
  · exact .inl rfl
  rcases throwIf_cases h with ⟨-, rfl⟩ | ⟨-, h⟩
  · exact .inl rfl
  rcases throwIf_cases h with ⟨-, rfl⟩ | ⟨-, h⟩
  · exact .inl rfl
  rcases ofExcept_cases h with ⟨-, rfl⟩ | ⟨⟨⟩, hfree, h⟩
  · exact .inl rfl
  rcases bind_cases h with ⟨e, hx, rfl⟩ | ⟨pinned, m, hx, h⟩
  · rcases onTasks_cases hx with ⟨e', -, rfl⟩ | ⟨a, ts, -, hr, -⟩
    · exact .inl rfl
    · cases hr
  rcases onTasks_cases hx with ⟨e, he, -⟩ | ⟨pinned', ts, hclaim, hr, rfl⟩
  · cases he
  cases hr
  refine .inr ⟨unclaimed_ok hfree, pinned, ts, hclaim, ?_⟩
  obtain ⟨-, -, -, -, hnew, -⟩ := claimTask_ok hclaim
  have hfresh : ∀ c, c ∈ s.events.runs → c.runId ≠ runId := by
    intro c hc hid
    exact hnew (hid ▸ hbound c hc)
  obtain ⟨r', hcatch, hr'⟩ := result_cases h
  unfold catching at hcatch
  split at hcatch
  · rename_i n hcommit
    cases hcatch
    rcases commitNewClaim_cases hfresh hcommit with ⟨⟨e, he⟩, -⟩ | ⟨-, htasks, hadded⟩
    · cases he
    · exact .inl ⟨htasks, hadded⟩
  · rename_i e n hcommit
    rcases commitNewClaim_cases hfresh hcommit with ⟨-, rfl⟩ | ⟨hr, -⟩
    · right
      rcases bind_cases hcatch with ⟨e', hret, rfl⟩ | ⟨⟨⟩, k, hret, hthrow⟩
      · rcases onTasks_cases hret with ⟨e'', -, rfl⟩ | ⟨a, ts', -, hr, -⟩
        · exact ⟨⟨e', (hr' e').mpr rfl⟩, rfl, .inl rfl⟩
        · cases hr
      · cases hthrow
        rcases onTasks_cases hret with ⟨e'', he, -⟩ | ⟨⟨⟩, ts', hts', -, rfl⟩
        · cases he
        · exact ⟨⟨e, (hr' e).mpr rfl⟩, rfl, .inr ⟨(), hts'⟩⟩
    · cases hr

/-! ## Worker requests -/

def merged (s : Project) (ref : TaskRef) : Bool :=
  (statusAt s.tasks ref).any TaskStatus.merged

theorem assertRunMayFinish_ok {s : Project} {ref : TaskRef}
    (h : assertRunMayFinish s.tasks ref = .ok ()) : merged s ref = true := by
  unfold assertRunMayFinish at h
  split at h
  · rename_i hmerged
    simpa [merged, statusAt, Option.any_map, Function.comp_def] using hmerged
  · cases h

def FinishAllowed (s : Project) (runId : RunId) (o : FinishOptions) : Prop :=
  o.success = true →
    ∀ claim ∈ s.findClaim runId, merged s claim.taskRef = true

instance (s : Project) (runId : RunId) (o : FinishOptions) :
    Decidable (FinishAllowed s runId o) :=
  inferInstanceAs (Decidable (_ → _))

inductive Served (dates : DateApi) (s : Project) (time : String)
    (r : Except DomainError Unit) (t : Project) : Prop
  | refused (h : t = s)
  | report (event : OrcEvent) (hevent : isEnding event.event = false)
      (h : onEvents (appendSequencedEvent dates event) s = (r, t))
  | heartbeat (runId : RunId) (agentId : AgentId) (o : HeartbeatOptions)
      (r' : Except DomainError String)
      (h : heartbeat dates runId agentId o s = (r', t))
  | start (runId : RunId) (agentId : AgentId) (o : StartOptions)
      (h : startRun dates runId agentId o time s = (r, t))
  | finish (runId : RunId) (agentId : AgentId) (o : FinishOptions)
      (hallowed : FinishAllowed s runId o) (hemit : o.emitEvent = true)
      (h : finishRun dates runId agentId o time s = (r, t))

inductive RequestOutcome (dates : DateApi) (s : Project) (time : String)
    (r : Except DomainError Unit) (t : Project) : Prop
  | quiet (runs : t.events.runs = s.events.runs) (tasks : t.tasks = s.tasks)
  | lease (f : Claim → Claim) (runId : RunId) (hf : LeaseOnly f)
      (claims : Mutated (fun c => c.runId = runId) f s.events.runs
        t.events.runs) (tasks : t.tasks = s.tasks)
  | start (runId : RunId) (agentId : AgentId) (o : StartOptions)
      (h : startRun dates runId agentId o time s = (r, t))
  | finish (runId : RunId) (agentId : AgentId) (o : FinishOptions)
      (hallowed : FinishAllowed s runId o)
      (h : finishRun dates runId agentId o time s = (r, t))

theorem validateClaim_ok {input : ProgressInput} {stored : Option Claim}
    {claim : Claim} (h : validateClaim input stored = .ok claim) :
    stored = some claim ∧ claim.runId = input.runId ∧
      claim.agentId = input.agentId := by
  unfold validateClaim at h
  cases stored with
  | none => cases h
  | some c =>
      simp only [rejectIf] at h
      by_cases hid : c.runId = input.runId
      · by_cases hagent : c.agentId = input.agentId
        · simp [hid, hagent] at h
          cases h
          exact ⟨rfl, hid, hagent⟩
        · simp [hid, hagent] at h
          cases h
      · simp [hid] at h
        cases h

theorem validateProgressCommandInput_ok {input : ProgressInput}
    {stored : Option Claim} {claim : Claim}
    (h : validateProgressCommandInput input stored = .ok claim) :
    stored = some claim ∧ claim.runId = input.runId ∧
      claim.agentId = input.agentId := by
  obtain ⟨⟨⟩, -, h⟩ := except_bind_ok h
  obtain ⟨claim', hclaim, h⟩ := except_bind_ok h
  obtain ⟨⟨⟩, -, h⟩ := except_bind_ok h
  cases h
  exact validateClaim_ok hclaim

theorem validateHeartbeatInput_ok {input : ProgressInput}
    {stored : Option Claim} {claim : Claim}
    (h : validateHeartbeatInput input stored = .ok claim) :
    stored = some claim ∧ claim.runId = input.runId ∧
      claim.agentId = input.agentId := by
  obtain ⟨⟨⟩, -, h⟩ := except_bind_ok h
  obtain ⟨claim', hclaim, h⟩ := except_bind_ok h
  obtain ⟨⟨⟩, -, h⟩ := except_bind_ok h
  cases h
  exact validateClaim_ok hclaim

theorem validateProgress_ok {input : ProgressInput} {stored : Option Claim}
    {claim : Claim} (h : validateProgress input stored = .ok claim) :
    stored = some claim ∧ claim.runId = input.runId ∧
      claim.agentId = input.agentId := by
  unfold validateProgress at h
  split at h
  · exact validateHeartbeatInput_ok h
  · exact validateProgressCommandInput_ok h

theorem finishAllowed_of_check {s : Project} {runId : RunId} {claim : Claim}
    {o : FinishOptions} (hfind : s.findClaim runId = some claim)
    (h : assertRunMayFinish s.tasks claim.taskRef = .ok ()) :
    FinishAllowed s runId o := by
  intro _ claim' hclaim'
  rw [hfind, Option.mem_def] at hclaim'
  cases hclaim'
  exact assertRunMayFinish_ok h

theorem applyProgress_served {input : ProgressInput} {claim : Claim}
    {time : String} {s t : Project} {r : Except DomainError Unit}
    (hfind : s.findClaim input.runId = some claim)
    (h : applyProgress dates input claim time s = (r, t)) :
    Served dates s time r t := by
  cases hevent : input.event with
  | runStarted =>
      simp only [applyProgress, hevent] at h
      split at h
      · cases h
        exact .refused rfl
      · exact .start _ _ _ h
  | runFinished =>
      simp only [applyProgress, hevent, read_bind] at h
      rcases ofExcept_cases h with ⟨-, rfl⟩ | ⟨⟨⟩, hmay, h⟩
      · exact .refused rfl
      · exact .finish _ _ _ (finishAllowed_of_check hfind hmay) rfl h
  | runFailed =>
      simp only [applyProgress, hevent] at h
      refine .finish _ _ _ (fun hsuccess => ?_) rfl h
      cases hsuccess
  | heartbeat =>
      simp only [applyProgress, hevent] at h
      obtain ⟨r', hx, -⟩ := result_cases h
      exact .heartbeat _ _ _ r' hx
  | reviewSubmitted | workComplete | finalizeRebaseStarted | readyToMerge
  | phaseStarted | phaseFinished | blocked | needInput | inputProvided
  | unblocked =>
      simp only [applyProgress, hevent] at h
      exact .report _ rfl h

theorem nextFinalizationTransition_ok {claim : Claim} {event : ProgressEvent}
    (h : nextFinalizationTransition claim = .ok event) :
    (claim.finalizationState = none ∧ event = .workComplete) ∨
      claim.finalizationState = some .finalizeRebaseInProgress ∧
        event = .readyToMerge := by
  unfold nextFinalizationTransition at h
  split at h
  · rename_i hnone
    cases h
    exact .inl ⟨hnone, rfl⟩
  · rename_i hrebase
    cases h
    exact .inr ⟨hrebase, rfl⟩
  · cases h

theorem applyLifecycle_served {request : LifecycleRequest} {time : String}
    {s t : Project} {r : Except DomainError Unit}
    (h : applyLifecycle dates request time s = (r, t)) :
    Served dates s time r t := by
  cases request with
  | runStart runId agentId =>
      simp only [applyLifecycle, read_bind] at h
      split at h
      · cases h
        exact .refused rfl
      · rcases ofExcept_cases h with ⟨-, rfl⟩ | ⟨claim, -, h⟩
        · exact .refused rfl
        · exact .start _ _ _ h
  | runFail runId agentId reason code policy =>
      simp only [applyLifecycle, read_bind] at h
      rcases ofExcept_cases h with ⟨-, rfl⟩ | ⟨claim, -, h⟩
      · exact .refused rfl
      · refine .finish _ _ _ (fun hsuccess => ?_) rfl h
        cases hsuccess
  | runFinish runId agentId =>
      simp only [applyLifecycle, read_bind] at h
      rcases ofExcept_cases h with ⟨-, rfl⟩ | ⟨claim, hclaim, h⟩
      · exact .refused rfl
      rcases ofExcept_cases h with ⟨-, rfl⟩ | ⟨⟨⟩, hmay, h⟩
      · exact .refused rfl
      · have hfind := (validateProgressCommandInput_ok hclaim).1
        exact .finish _ _ _ (finishAllowed_of_check hfind hmay) rfl h
  | runWorkComplete runId agentId =>
      simp only [applyLifecycle, read_bind] at h
      rcases ofExcept_cases h with ⟨-, rfl⟩ | ⟨claim, -, h⟩
      · exact .refused rfl
      rcases ofExcept_cases h with ⟨-, rfl⟩ | ⟨event, hevent, h⟩
      · exact .refused rfl
      · refine .report _ ?_ h
        rcases nextFinalizationTransition_ok hevent with
          ⟨-, rfl⟩ | ⟨-, rfl⟩ <;> rfl
  | inputTimeout runId agentId =>
      simp only [applyLifecycle, read_bind] at h
      split at h
      · refine .finish _ _ _ (fun hsuccess => ?_) rfl h
        cases hsuccess
      · cases h
        exact .refused rfl
  | progress input =>
      simp only [applyLifecycle, read_bind] at h
      rcases ofExcept_cases h with ⟨-, rfl⟩ | ⟨claim, hclaim, h⟩
      · exact .refused rfl
      · exact applyProgress_served (validateProgress_ok hclaim).1 h

theorem applyLifecycle_outcome {request : LifecycleRequest} {time : String}
    {s t : Project} {r : Except DomainError Unit}
    (h : applyLifecycle dates request time s = (r, t)) :
    RequestOutcome dates s time r t := by
  cases applyLifecycle_served h with
  | refused h => exact .quiet (by rw [h]) (by rw [h])
  | report event _ h =>
      obtain ⟨hruns, htasks, -⟩ := appendEvent_cases h
      exact .quiet hruns htasks
  | heartbeat runId agentId o r' h =>
      rcases heartbeat_cases h with rfl | ⟨f, hf, hmut, htasks⟩
      · exact .quiet rfl rfl
      · exact .lease f _ hf hmut htasks
  | start runId agentId o h => exact .start _ _ _ h
  | finish runId agentId o hallowed _ h => exact .finish _ _ _ hallowed h

end OrcState.Lifecycle
