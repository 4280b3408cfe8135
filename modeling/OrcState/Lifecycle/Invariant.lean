import OrcState.Lifecycle.Passes

/-!
# What no call breaks

`Sound` holds in every state of every run, whichever calls are refused half way:
claims are well named and bound, a task has one active claim at most, and a task
with an active claim is held or merged.
-/

namespace OrcState.Lifecycle

open OrcState.Contract OrcState.Foundation OrcState.Store
open OrcState.Foundation.Effect

variable {dates : DateApi} {registry : Registry}

/-! ## The invariant -/

/-- A run holds the task, or its merge is recorded. -/
def Held (ts : TaskStore) (ref : TaskRef) : Prop :=
  ∃ status, statusAt ts ref = some status ∧
    (status.running = true ∨ status.merged = true)

structure Sound (s : Project) : Prop where
  named : ∀ c, c ∈ s.events.runs → WellNamed c
  bound : ∀ c, c ∈ s.events.runs → s.tasks.Bound c.runId
  one : OneActive s.events.runs
  held : ∀ c, c ∈ s.events.runs → c.active = true → Held s.tasks c.taskRef
  tasks : s.tasks.WellFormed

/-- No claim names another run, task or agent, and none comes back to life. -/
structure Descends (runs runs' : Runs) : Prop where
  source : ∀ c, c ∈ runs' → ∃ c₀, c₀ ∈ runs ∧ c.runId = c₀.runId ∧
    c.taskRef = c₀.taskRef ∧ c.agentId = c₀.agentId ∧
    (c.active = true → c₀.active = true)
  one : OneActive runs → OneActive runs'

theorem Descends.refl (runs : Runs) : Descends runs runs where
  source c hc := ⟨c, hc, rfl, rfl, rfl, id⟩
  one := id

theorem Descends.of_eq {runs runs' : Runs} (h : runs' = runs) :
    Descends runs runs' := h ▸ Descends.refl runs

theorem Mutated.descends {p : Claim → Bool} {f : Claim → Claim}
    {runs runs' : Runs} (h : Mutated p f runs runs')
    (hid : ∀ c, (f c).runId = c.runId ∧ (f c).taskRef = c.taskRef ∧
      (f c).agentId = c.agentId)
    (hactive : ∀ c, c ∈ runs → p c = true → (f c).active = true →
      c.active = true) : Descends runs runs' := by
  refine ⟨fun c hc => ?_, h.one⟩
  obtain ⟨c₀, hc₀, ⟨hp, rfl⟩ | ⟨-, rfl⟩⟩ := h.source hc
  · obtain ⟨h1, h2, h3⟩ := hid c₀
    exact ⟨c₀, hc₀, h1, h2, h3, hactive c₀ hc₀ hp⟩
  · exact ⟨c₀, hc₀, rfl, rfl, rfl, id⟩

theorem Removed.descends {p : Claim → Bool} {runs runs' : Runs}
    (h : Removed p runs runs') : Descends runs runs' :=
  ⟨fun c hc => ⟨c, ((h.mem c).mp hc).1, rfl, rfl, rfl, id⟩, h.one⟩

def Unclaimed (runs : Runs) (ref : TaskRef) : Prop :=
  ∀ c, c ∈ runs → c.active = true → c.taskRef ≠ ref

theorem Descends.unclaimed {runs runs' : Runs} (h : Descends runs runs')
    {ref : TaskRef} (hfree : Unclaimed runs ref) : Unclaimed runs' ref := by
  intro c hc hactive
  obtain ⟨c₀, hc₀, -, href, -, ha⟩ := h.source c hc
  rw [href]
  exact hfree c₀ hc₀ (ha hactive)

theorem Mutated.unclaimed {p : Claim → Bool} {f : Claim → Claim}
    {runs runs' : Runs} {claim : Claim} (h : Mutated p f runs runs')
    (hone : OneActive runs) (hclaim : claim ∈ runs)
    (hactive : claim.active = true) (hp : p claim = true)
    (hf : ∀ c, (f c).active = false) : Unclaimed runs' claim.taskRef := by
  intro c hc ha href
  obtain ⟨c₀, hc₀, ⟨-, rfl⟩ | ⟨hkept, rfl⟩⟩ := h.source hc
  · rw [hf c₀] at ha
    cases ha
  · have hid := hone c₀ hc₀ claim hclaim ha hactive href
    rw [Table.eq_of_key hc₀ hclaim hid, hp] at hkept
    cases hkept

/-! ## Steps that add no claim -/

theorem Sound.descend {s t : Project} (hs : Sound s)
    (hclaims : Descends s.events.runs t.events.runs)
    (hbound : ∀ id, s.tasks.Bound id → t.tasks.Bound id)
    (htasks : t.tasks.WellFormed)
    (hstatus : ∀ ref, statusAt t.tasks ref = statusAt s.tasks ref ∨
      Held t.tasks ref ∨ Unclaimed t.events.runs ref) : Sound t := by
  refine ⟨fun c hc => ?_, fun c hc => ?_, hclaims.one hs.one,
    fun c hc hactive => ?_, htasks⟩
  · obtain ⟨c₀, hc₀, hid, href, hagent, -⟩ := hclaims.source c hc
    obtain ⟨h1, h2, h3⟩ := hs.named c₀ hc₀
    exact ⟨hid ▸ h1, href ▸ h2, hagent ▸ h3⟩
  · obtain ⟨c₀, hc₀, hid, -⟩ := hclaims.source c hc
    rw [hid]
    exact hbound _ (hs.bound c₀ hc₀)
  · rcases hstatus c.taskRef with hsame | hheld | hfree
    · obtain ⟨c₀, hc₀, -, href, -, ha⟩ := hclaims.source c hc
      rw [Held, hsame, href]
      exact hs.held c₀ hc₀ (ha hactive)
    · exact hheld
    · exact absurd rfl (hfree c hc hactive)

theorem Sound.of_claims {s t : Project} (hs : Sound s)
    (hclaims : Descends s.events.runs t.events.runs)
    (htasks : t.tasks = s.tasks) : Sound t :=
  hs.descend hclaims (fun id hid => by rwa [htasks]) (htasks ▸ hs.tasks)
    fun ref => .inl (by rw [htasks])

theorem Sound.of_committed {s t : Project} {changes : TaskStatusChanges}
    {ref : TaskRef} {g : Task → Task} (hs : Sound s)
    (hclaims : Descends s.events.runs t.events.runs)
    (htasks : Committed changes ref g s.tasks t.tasks)
    (hhere : statusAt t.tasks ref = statusAt s.tasks ref ∨
      Held t.tasks ref ∨ Unclaimed t.events.runs ref) : Sound t := by
  refine hs.descend hclaims (fun id => (htasks.bound id).mpr)
    (htasks.wellFormed hs.tasks) ?_
  intro r
  by_cases hr : r = ref
  · exact hr ▸ hhere
  · exact .inl (htasks.other r hr).1

theorem statusAt_of_findTask {s : Project} {ref : TaskRef} {task : Task}
    (h : findTask s.backlog ref = some task) :
    statusAt s.tasks ref = some task.status := by
  rw [Project.backlog, findTask_readProjectBacklog] at h
  obtain ⟨row, hrow, rfl⟩ := Option.map_eq_some_iff.mp h
  rw [statusAt, hrow]
  rfl

theorem findTask_of_statusAt {s : Project} {ref : TaskRef}
    {status : TaskStatus} (h : statusAt s.tasks ref = some status) :
    ∃ task, findTask s.backlog ref = some task ∧ task.status = status := by
  obtain ⟨row, hrow, rfl⟩ := Option.map_eq_some_iff.mp h
  refine ⟨projectTaskToBacklogTask row, ?_, rfl⟩
  rw [Project.backlog, findTask_readProjectBacklog, hrow]
  rfl

/-! ## Each call -/

theorem Sound.lease {s t : Project} (hs : Sound s) {f : Claim → Claim}
    {runId : RunId} (hf : LeaseOnly f)
    (hmut : Mutated (fun c => c.runId = runId) f s.events.runs t.events.runs)
    (htasks : t.tasks = s.tasks) : Sound t := by
  refine hs.of_claims (hmut.descends (fun c => ?_) fun c _ _ ha => ?_) htasks
  · rw [hf c]
    exact ⟨rfl, rfl, rfl⟩
  · rw [hf c] at ha
    exact ha

theorem Sound.startRun {runId : RunId} {agentId : AgentId} {o : StartOptions}
    {now : String} {s t : Project} {r : Except DomainError Unit} (hs : Sound s)
    (h : startRun dates runId agentId o now s = (r, t)) : Sound t := by
  rcases startRun_cases h with rfl | ⟨claim, hfind, -, hstate, h⟩
  · exact hs
  obtain ⟨hclaim, -⟩ := Table.find?_eq_some.mp hfind
  have hdescends : ∀ {t : Project},
      Mutated (fun c => c.runId = claim.runId) (startClaim o.time)
        s.events.runs t.events.runs → Descends s.events.runs t.events.runs := by
    refine fun hmut => hmut.descends (fun _ => ⟨rfl, rfl, rfl⟩) ?_
    intro c hc hp _
    rw [Table.eq_of_key hc hclaim (of_decide_eq_true hp), Claim.active, hstate]
    rfl
  rcases commitStart_cases h with ⟨-, rfl | ⟨hmut, htasks⟩⟩ | ⟨task, htask, hout⟩
  · exact hs
  · exact hs.of_claims (hdescends hmut) htasks
  · cases hout with
    | refused e => exact hs
    | torn e _ hmut htasks => exact hs.of_claims (hdescends hmut) htasks
    | done _ hmut hcommitted =>
        refine hs.of_committed (hdescends hmut) hcommitted (.inr (.inl ?_))
        exact ⟨_, (hcommitted.here task htask).1, .inl rfl⟩

theorem finishClaim_active (o : FinishOptions) (c : Claim) :
    (finishClaim o c).active = false := by
  simp only [finishClaim, clearFinalization, resetClaimVolatileFields,
    Claim.active]
  cases o.success <;> rfl

theorem Sound.finishRun {runId : RunId} {agentId : AgentId}
    {o : FinishOptions} {now : String} {s t : Project}
    {r : Except DomainError Unit} (hs : Sound s)
    (h : finishRun dates runId agentId o now s = (r, t)) : Sound t := by
  rcases finishRun_cases h with rfl | ⟨claim, hfind, -, ⟨hactive, h⟩ |
    ⟨-, hmut, htasks⟩⟩
  · exact hs
  · obtain ⟨hclaim, -⟩ := Table.find?_eq_some.mp hfind
    have hdescends : ∀ {t : Project},
        Mutated (fun c => c.runId = claim.runId) (finishClaim o)
          s.events.runs t.events.runs →
        Descends s.events.runs t.events.runs := by
      refine fun hmut => hmut.descends (fun _ => ⟨rfl, rfl, rfl⟩) ?_
      intro c _ _ ha
      rw [finishClaim_active] at ha
      cases ha
    rcases commitFinish_cases h with
      ⟨-, rfl | ⟨hmut, htasks⟩⟩ | ⟨task, -, hout⟩
    · exact hs
    · exact hs.of_claims (hdescends hmut) htasks
    · cases hout with
      | refused e => exact hs
      | torn e _ hmut htasks => exact hs.of_claims (hdescends hmut) htasks
      | done _ hmut hcommitted =>
          exact hs.of_committed (hdescends hmut) hcommitted (.inr (.inr
            (hmut.unclaimed hs.one hclaim hactive (by simp)
              (finishClaim_active o))))
  · exact hs.of_claims (hmut.descends (fun _ => ⟨rfl, rfl, rfl⟩)
      fun _ _ _ ha => ha) htasks

theorem Sound.updateClaim {runId : RunId}
    {check : Claim → Except DomainError Unit} {f : Claim → Claim}
    {events : Claim → List OrcEvent} {s t : Project}
    {r : Except DomainError Claim} (hs : Sound s)
    (h : updateClaim dates runId check f events s = (r, t))
    (hid : ∀ c, (f c).runId = c.runId ∧ (f c).taskRef = c.taskRef ∧
      (f c).agentId = c.agentId ∧ (f c).state = c.state) : Sound t := by
  rcases updateClaim_cases (fun c => (hid c).1) h with
    rfl | ⟨claim, -, -, hmut, htasks⟩
  · exact hs
  · refine hs.of_claims (hmut.descends (fun c => ?_) fun c _ _ ha => ?_) htasks
    · exact ⟨(hid c).1, (hid c).2.1, (hid c).2.2.1⟩
    · rw [Claim.active, (hid c).2.2.2] at ha
      exact ha

theorem expireClaim_active (now : Int) (c : Claim) :
    (expireClaim dates now c).active = false := rfl

theorem active_of_expires {now : Int} {backlog : Backlog} {c : Claim}
    (h : expires dates now backlog c = true) : c.active = true := by
  cases hactive : c.active with
  | true => rfl
  | false => simp [expires, hactive] at h

theorem Sound.expireStaleLeases {policy : String} {actorId : AgentId}
    {now : Int} {s t : Project} {r : Except DomainError (List RunId)}
    (hs : Sound s)
    (h : expireStaleLeases dates policy actorId now s = (r, t)) : Sound t := by
  rcases expireStaleLeases_cases h with rfl | ⟨hmut, ⟨-, htasks⟩ | hexpired⟩
  · exact hs
  all_goals
    have hdescends : Descends s.events.runs t.events.runs :=
      hmut.descends (fun _ => ⟨rfl, rfl, rfl⟩) fun c _ _ ha => by
        cases ha
  · exact hs.of_claims hdescends htasks
  refine hs.descend hdescends (fun id => (hexpired.bound id).mpr)
    (hexpired.wellFormed hs.tasks) ?_
  intro ref
  rcases hexpired.here ref with ⟨hsame, -⟩ |
    ⟨task, status, c, -, -, hc, hexpires, rfl, -⟩
  · exact .inl hsame
  exact .inr (.inr (hmut.unclaimed hs.one hc (active_of_expires hexpires)
    hexpires (expireClaim_active now)))

theorem Sound.cancelTask {ref : TaskRef} {reason : Option String}
    {actorId : AgentId} {now : String} {s t : Project}
    {r : Except DomainError CancelResult} (hs : Sound s)
    (h : cancelTask dates registry ref reason actorId now s = (r, t)) :
    Sound t := by
  rcases cancelTask_cases h with rfl | ⟨task, r', htask, -, hcommit, -⟩
  · exact hs
  rcases commitCancel_cases hcommit with rfl | ⟨hremoved, ⟨-, htasks⟩ | hdone⟩
  · exact hs
  · exact hs.of_claims hremoved.descends htasks
  · refine hs.of_committed hremoved.descends hdone (.inr (.inr ?_))
    intro c hc ha href
    have hkept := ((hremoved.mem c).mp hc).2
    simp [href, ha] at hkept

theorem Sound.resetTask {ref : TaskRef} {actorId : AgentId} {now : String}
    {s t : Project} {r : Except DomainError TaskStatus} (hs : Sound s)
    (h : resetTask dates ref actorId now s = (r, t)) : Sound t := by
  rcases resetTask_cases h with rfl | ⟨task, r', htask, hout, -⟩
  · exact hs
  have hdescends : ∀ {t : Project},
      Mutated (fun c => c.taskRef = ref && c.active) (resetClaim now)
        s.events.runs t.events.runs → Descends s.events.runs t.events.runs :=
    fun hmut => hmut.descends (fun _ => ⟨rfl, rfl, rfl⟩) fun c _ _ ha => by
      cases ha
  cases hout with
  | refused e => exact hs
  | torn e _ hmut htasks => exact hs.of_claims (hdescends hmut) htasks
  | done _ hmut hcommitted =>
      refine hs.of_committed (hdescends hmut) hcommitted (.inr (.inr ?_))
      intro c hc ha href
      obtain ⟨c₀, hc₀, ⟨-, rfl⟩ | ⟨hp, rfl⟩⟩ := hmut.source hc
      · cases ha
      · simp [href, ha] at hp

theorem Sound.unblockTask {ref : TaskRef} {reason : Option String}
    {actorId : AgentId} {now : String} {s t : Project}
    {r : Except DomainError Unit} (hs : Sound s)
    (h : unblockTask dates ref reason actorId now s = (r, t)) : Sound t := by
  rcases unblockTask_cases h with
    rfl | ⟨task, htask, hblocked, hruns, hcommitted⟩
  · exact hs
  refine hs.of_committed (.of_eq hruns) hcommitted (.inr (.inr ?_))
  rw [hruns]
  rintro c hc ha rfl
  obtain ⟨status, hstatus, hheld⟩ := hs.held c hc ha
  rw [statusAt_of_findTask htask, hblocked] at hstatus
  cases hstatus
  rcases hheld with hheld | hheld <;> cases hheld

theorem delegatedTask_status (args : DelegateArgs) (target : Option AgentId)
    (task : Task) : (delegatedTask args target task).status =
      if task.status = .blocked then .todo else task.status := rfl

theorem Sound.delegateTask {args : DelegateArgs} {now : String} {s t : Project}
    {r : Except DomainError (Option AgentId)} (hs : Sound s)
    (h : delegateTask dates registry args now s = (r, t)) : Sound t := by
  rcases delegateTask_cases h with
    rfl | ⟨task, target, htask, hruns, hcommitted⟩
  · exact hs
  refine hs.of_committed (.of_eq hruns) hcommitted ?_
  have hstatus := (hcommitted.here task htask).1
  rw [delegatedTask_status] at hstatus
  split at hstatus
  · rename_i hblocked
    refine .inr (.inr ?_)
    rw [hruns]
    rintro c hc ha href
    obtain ⟨status, hbefore, hheld⟩ := hs.held c hc ha
    rw [href, statusAt_of_findTask htask, hblocked] at hbefore
    cases hbefore
    rcases hheld with hheld | hheld <;> cases hheld
  · exact .inl (hstatus.trans (statusAt_of_findTask htask).symm)

theorem Sound.expireRun {runId : RunId} {actorId : AgentId} {now : String}
    {s t : Project} {r : Except DomainError Unit} (hs : Sound s)
    (h : expireRun dates runId actorId now s = (r, t)) : Sound t := by
  rcases expireRun_cases h with
    rfl | ⟨claim, task, hfind, hactive, htask, -, hout⟩
  · exact hs
  obtain ⟨hclaim, rfl⟩ := Table.find?_eq_some.mp hfind
  have hdescends : ∀ {t : Project},
      Mutated (fun c => c.runId = claim.runId) (expireRunClaim now)
        s.events.runs t.events.runs → Descends s.events.runs t.events.runs :=
    fun hmut => hmut.descends (fun _ => ⟨rfl, rfl, rfl⟩) fun c _ _ ha => by
      cases ha
  cases hout with
  | refused e => exact hs
  | torn e _ hmut htasks => exact hs.of_claims (hdescends hmut) htasks
  | done _ hmut hcommitted =>
      exact hs.of_committed (hdescends hmut) hcommitted (.inr (.inr
        (hmut.unclaimed hs.one hclaim hactive (by simp) fun _ => rfl)))

theorem Sound.markTaskDoneRuntimeOnly {ref : TaskRef} {actorId : AgentId}
    {now : String} {s t : Project} {r : Except DomainError TaskStatus}
    (hs : Sound s)
    (h : markTaskDoneRuntimeOnly dates ref actorId now s = (r, t)) :
    Sound t := by
  obtain ⟨hruns, htasks | ⟨task, htask, -, hcommitted⟩⟩ :=
    markTaskDoneRuntimeOnly_cases h
  · exact hs.of_claims (.of_eq hruns) htasks
  · refine hs.of_committed (.of_eq hruns) hcommitted (.inr (.inl ?_))
    exact ⟨_, (hcommitted.here task htask).1, .inr rfl⟩

theorem Sound.reconcileState {now : String} {s t : Project}
    {r : Except DomainError Unit} (hs : Sound s)
    (h : reconcileState dates now s = (r, t)) : Sound t := by
  obtain ⟨htasks, hclaims⟩ := reconcileState_cases h
  have hdescends : Descends s.events.runs t.events.runs := by
    rcases hclaims with hruns | hmut
    · exact .of_eq hruns
    · exact hmut.descends (fun _ => ⟨rfl, rfl, rfl⟩) fun c _ _ ha => by
        cases ha
  rcases htasks with htasks | hrepaired
  · exact hs.of_claims hdescends htasks
  · refine hs.descend hdescends (fun id => (hrepaired.bound id).mpr)
      (hrepaired.wellFormed hs.tasks) fun ref => ?_
    rcases hrepaired.status ref with hsame | hstarted | ⟨-, hfree⟩
    · exact .inl hsame
    · exact .inr (.inl ⟨_, hstarted, .inl rfl⟩)
    · exact .inr (.inr (hdescends.unclaimed hfree))

/-! ## The one call that adds a claim -/

theorem statusAt_claimed {ref : TaskRef} {runId : RunId} {agentId : AgentId}
    {now : String} {ts ts' : TaskStore} {pinned : ProjectTask}
    (h : TaskStore.claimTask ref runId agentId now ts = .ok (pinned, ts')) :
    statusAt ts' ref = some .claimed ∧
      ∀ r, r ≠ ref → statusAt ts' r = statusAt ts r := by
  obtain ⟨task, htask, -, htasks, -⟩ := claimTask_ok h
  have hget : ∀ r, ts'.getTask r = if r = ref then
      (ts.getTask r).map (ProjectTask.moved .claimed none now)
      else ts.getTask r := by
    intro r
    rw [TaskStore.getTask, htasks, Table.find?_update]
    rfl
  refine ⟨?_, fun r hr => ?_⟩
  · rw [statusAt, hget, if_pos rfl, htask]
    rfl
  · rw [statusAt, hget, if_neg hr]
    rfl

theorem Sound.claimTask {ref : TaskRef} {agentId : AgentId} {lease : Int}
    {runId : RunId} {snapshot : Except DomainError Unit} {now : Int}
    {s t : Project} {r : Except DomainError (RunId × String)} (hs : Sound s)
    (h : claimTask dates ref agentId lease runId snapshot now s = (r, t)) :
    Sound t := by
  rcases claimTask_cases hs.bound h with rfl | ⟨hfree, pinned, ts, hclaim, hrest⟩
  · exact hs
  obtain ⟨hstatus, hother⟩ := statusAt_claimed hclaim
  obtain ⟨-, -, -, -, -, -, hbound⟩ := claimTask_ok hclaim
  have hts := claimTask_wellFormed hclaim hs.tasks
  rcases hrest with ⟨htasks, hadded⟩ | ⟨-, hevents, htasks⟩
  · refine ⟨fun c hc => ?_, fun c hc => ?_, hadded.one hs.one,
      fun c hc ha => ?_, htasks ▸ hts⟩
    · rcases (hadded.mem c).mp hc with hc | rfl
      · exact hs.named c hc
      · exact hadded.named
    · rw [htasks, hbound]
      rcases (hadded.mem c).mp hc with hc | rfl
      · exact .inl (hs.bound c hc)
      · exact .inr rfl
    · rw [htasks]
      rcases (hadded.mem c).mp hc with hc | rfl
      · rw [Held, hother _ (hfree c hc ha)]
        exact hs.held c hc ha
      · exact ⟨_, hstatus, .inl rfl⟩
  · have hkept : (∀ r, r ≠ ref → statusAt t.tasks r = statusAt s.tasks r) ∧
        (∀ id, s.tasks.Bound id → t.tasks.Bound id) ∧ t.tasks.WellFormed := by
      rcases htasks with rfl | ⟨u, hreturn⟩
      · exact ⟨hother, fun id hid => (hbound id).mpr (.inl hid), hts⟩
      · obtain ⟨hsame, hback, hwf⟩ := returnTask_ok hreturn
        refine ⟨fun r hr => (hsame r hr).trans (hother r hr),
          fun id hid => ?_, hwf hts⟩
        exact (hback id).mpr ((hbound id).mpr (.inl hid))
    obtain ⟨hsame, hkeep, hwf⟩ := hkept
    refine hs.descend (.of_eq (by rw [hevents])) hkeep hwf fun r => ?_
    by_cases hr : r = ref
    · subst hr
      rw [hevents]
      exact .inr (.inr hfree)
    · exact .inl (hsame r hr)

/-! ## Every call, every run -/

theorem Sound.applyLifecycle {request : LifecycleRequest} {time : String}
    {s t : Project} {r : Except DomainError Unit} (hs : Sound s)
    (h : applyLifecycle dates request time s = (r, t)) : Sound t := by
  cases applyLifecycle_outcome h with
  | quiet hruns htasks => exact hs.of_claims (.of_eq hruns) htasks
  | lease f runId hf hmut htasks => exact hs.lease hf hmut htasks
  | start runId agentId o h => exact hs.startRun h
  | finish runId agentId o _ h => exact hs.finishRun h

theorem Sound.perform {a : Action} {s t : Project}
    {r : Except DomainError Unit} (hs : Sound s)
    (h : perform dates registry a s = (r, t)) : Sound t := by
  cases a with
  | claimTask ref agentId lease runId snapshot now =>
      obtain ⟨r', hx, -⟩ := result_cases h
      exact hs.claimTask hx
  | startRun runId agentId o now => exact hs.startRun h
  | heartbeat runId agentId o =>
      obtain ⟨r', hx, -⟩ := result_cases h
      rcases heartbeat_cases hx with rfl | ⟨f, hf, hmut, htasks⟩
      · exact hs
      · exact hs.lease hf hmut htasks
  | renewLeaseOnly runId lease now =>
      rcases renewLeaseOnly_cases h with rfl | ⟨f, hf, hmut, htasks⟩
      · exact hs
      · exact hs.lease hf hmut htasks
  | finishRun runId agentId o now => exact hs.finishRun h
  | markTaskEnvelopeSent runId agentId o =>
      obtain ⟨r', hx, -⟩ := result_cases h
      rcases markTaskEnvelopeSent_cases hx with rfl | hx
      · exact hs
      · exact hs.updateClaim hx fun _ => ⟨rfl, rfl, rfl, rfl⟩
  | setRunSessionStartRetryState runId agentId count nextRetryAt lastError =>
      obtain ⟨r', hx, -⟩ := result_cases h
      exact hs.updateClaim hx fun _ => ⟨rfl, rfl, rfl, rfl⟩
  | setRunFinalizationState runId agentId u =>
      obtain ⟨r', hx, -⟩ := result_cases h
      exact hs.updateClaim hx fun _ => ⟨rfl, rfl, rfl, rfl⟩
  | setRunInputState runId agentId inputState requestedAt now =>
      obtain ⟨r', hx, -⟩ := result_cases h
      exact hs.updateClaim hx fun _ => ⟨rfl, rfl, rfl, rfl⟩
  | setPrRef runId prRef =>
      obtain ⟨r', hx, -⟩ := result_cases h
      exact hs.updateClaim hx fun _ => ⟨rfl, rfl, rfl, rfl⟩
  | setPrCreatedAt runId createdAt seq =>
      obtain ⟨r', hx, -⟩ := result_cases h
      exact hs.updateClaim hx fun _ => ⟨rfl, rfl, rfl, rfl⟩
  | expireStaleLeases policy actorId now =>
      obtain ⟨r', hx, -⟩ := result_cases h
      exact hs.expireStaleLeases hx
  | delegateTask args now =>
      obtain ⟨r', hx, -⟩ := result_cases h
      exact hs.delegateTask hx
  | cancelTask ref reason actorId now =>
      obtain ⟨r', hx, -⟩ := result_cases h
      exact hs.cancelTask hx
  | resetTask ref actorId now =>
      obtain ⟨r', hx, -⟩ := result_cases h
      exact hs.resetTask hx
  | unblockTask ref reason actorId now => exact hs.unblockTask h
  | expireRun runId actorId now => exact hs.expireRun h
  | markTaskDoneRuntimeOnly ref actorId now =>
      obtain ⟨r', hx, -⟩ := result_cases h
      exact hs.markTaskDoneRuntimeOnly hx
  | reconcileState now => exact hs.reconcileState h
  | applyLifecycle request time => exact hs.applyLifecycle h

theorem Sound.fresh {s : Project} (h : Fresh s) : Sound s := by
  have hnone : ∀ c, ¬ c ∈ s.events.runs := by
    intro c hc
    rw [Table.mem_rows, h.runs] at hc
    cases hc
  refine ⟨fun c hc => absurd hc (hnone c), fun c hc => absurd hc (hnone c),
    fun c hc => absurd hc (hnone c), fun c hc => absurd hc (hnone c),
    h.refs, h.tidy, fun run hrun => ?_⟩
  rw [Table.mem_rows, h.taskRuns] at hrun
  cases hrun

theorem Sound.reachable {ok : Project → Action → Prop} {s : Project}
    (hs : (lifecycleSystem dates registry).ReachableUnder ok s) : Sound s := by
  refine hs.invariant (fun _ h => .fresh h) fun s a t _ hs _ ht => ?_
  cases ht
  exact hs.perform (Prod.eta _).symm

end OrcState.Lifecycle
