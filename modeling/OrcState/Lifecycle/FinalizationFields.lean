import OrcState.Lifecycle.Residue

/-!
# The finalization fields of a claim

Three fields of a claim say how far its finalization is: a state, a count of
rebases and the reason it stopped.  One call sets them.  Every other call keeps
them, clears them, or ends the run without looking at them.
-/

namespace OrcState.Lifecycle

open OrcState.Contract OrcState.Foundation OrcState.Store
open OrcState.Foundation.Effect

variable {dates : DateApi} {registry : Registry}

/-! ## The fields and the calls that forget them -/

structure FinalizationFields where
  state : Option FinalizationState := none
  retryCount : Nat := 0
  blockedReason : Option String := none
  deriving DecidableEq, Repr

def finalizationFields (claim : Claim) : FinalizationFields where
  state := claim.finalizationState
  retryCount := claim.finalizationRetryCount
  blockedReason := claim.finalizationBlockedReason

def forgets (dates : DateApi) (s : Project) : Action → Claim → Bool
  | .expireStaleLeases _ _ now, c => expires dates now s.backlog c
  | .resetTask ref _ _, c => c.taskRef = ref && c.active
  | .reconcileState _, c => reconcileFails s c
  | _, _ => false

/-- Where a stored claim has its finalization fields from, after a call. -/
inductive FieldsMove (dates : DateApi) (s : Project) (a : Action)
    (c' : Claim) : Prop
  | claimed (hnew : ¬ s.tasks.Bound c'.runId)
      (hstate : c'.state = .claimed) (hfields : finalizationFields c' = {})
  | kept (c : Claim) (hc : c ∈ s.events.runs) (hid : c'.runId = c.runId)
      (hstate : c'.state = c.state ∨
        c.state = .claimed ∧ c'.state = .inProgress)
      (hfields : finalizationFields c' = finalizationFields c)
  | cleared (c : Claim) (hc : c ∈ s.events.runs) (hid : c'.runId = c.runId)
      (hended : c'.active = false) (hfields : finalizationFields c' = {})
  | forgotten (c : Claim) (hc : c ∈ s.events.runs) (hid : c'.runId = c.runId)
      (hforgets : forgets dates s a c = true) (hended : c'.active = false)
      (hfields : finalizationFields c' = finalizationFields c)
  | set (runId : RunId) (agentId : AgentId) (u : FinalizationUpdate)
      (c : Claim) (hc : c ∈ s.events.runs) (hid : c.runId = runId)
      (howner : c.agentId = agentId)
      (ha : a = .setRunFinalizationState runId agentId u)
      (hstate : c.state = .inProgress) (he : c' = applyFinalization u c)

def FieldsMoved (dates : DateApi) (a : Action) (s t : Project) : Prop :=
  ∀ c', c' ∈ t.events.runs → FieldsMove dates s a c'

section Moved

variable {s t : Project} {a : Action} {c : Claim}

theorem FieldsMove.same (hc : c ∈ s.events.runs) : FieldsMove dates s a c :=
  .kept c hc rfl (.inl rfl) rfl

theorem FieldsMoved.of_runs (h : t.events.runs = s.events.runs) :
    FieldsMoved dates a s t := by
  intro c hc
  rw [h] at hc
  exact .same hc

theorem FieldsMoved.of_mutated {p : Claim → Bool} {f : Claim → Claim}
    (h : Mutated p f s.events.runs t.events.runs)
    (hf : ∀ c, c ∈ s.events.runs → p c = true → FieldsMove dates s a (f c)) :
    FieldsMoved dates a s t := by
  intro c hc
  obtain ⟨c₀, hc₀, ⟨hp, rfl⟩ | ⟨-, rfl⟩⟩ := h.source hc
  · exact hf c₀ hc₀ hp
  · exact .same hc₀

theorem FieldsMoved.of_outcome {p : Claim → Bool} {f : Claim → Claim}
    {changes : TaskStatusChanges} {ref : TaskRef} {g : Task → Task}
    {r : Except DomainError Unit} (h : BothOutcome p f changes ref g s r t)
    (hf : ∀ c, c ∈ s.events.runs → p c = true → FieldsMove dates s a (f c)) :
    FieldsMoved dates a s t := by
  cases h with
  | refused e => exact .of_runs rfl
  | torn e _ hmut _ => exact .of_mutated hmut hf
  | done _ hmut _ => exact .of_mutated hmut hf

end Moved

/-! ## Calls about one run -/

theorem FieldsMoved.lease {s t : Project} {a : Action} {f : Claim → Claim}
    {runId : RunId} (hf : LeaseOnly f)
    (h : Mutated (fun c => c.runId = runId) f s.events.runs t.events.runs) :
    FieldsMoved dates a s t := by
  refine .of_mutated h fun c hc _ => .kept c hc (hf.runId c) (.inl ?_) ?_
  · rw [hf c]
  · rw [hf c]
    rfl

theorem FieldsMoved.startRun {runId : RunId} {agentId : AgentId}
    {o : StartOptions} {now : String} {s t : Project} {a : Action}
    {r : Except DomainError Unit}
    (h : startRun dates runId agentId o now s = (r, t)) :
    FieldsMoved dates a s t := by
  rcases startRun_cases h with rfl | ⟨claim, hfind, -, hstate, h⟩
  · exact .of_runs rfl
  obtain ⟨hclaim, -⟩ := Table.find?_eq_some.mp hfind
  have hstart : ∀ c, c ∈ s.events.runs →
      decide (c.runId = claim.runId) = true →
        FieldsMove dates s a (startClaim o.time c) := by
    intro c hc hp
    obtain rfl : c = claim := Table.eq_of_key hc hclaim (of_decide_eq_true hp)
    exact .kept c hc rfl (.inr ⟨hstate, rfl⟩) rfl
  rcases commitStart_cases h with ⟨-, rfl | ⟨hmut, -⟩⟩ | ⟨task, -, hout⟩
  · exact .of_runs rfl
  · exact .of_mutated hmut hstart
  · exact .of_outcome hout hstart

theorem FieldsMoved.finishRun {runId : RunId} {agentId : AgentId}
    {o : FinishOptions} {now : String} {s t : Project} {a : Action}
    {r : Except DomainError Unit}
    (h : finishRun dates runId agentId o now s = (r, t)) :
    FieldsMoved dates a s t := by
  have hfinish : ∀ c, c ∈ s.events.runs → FieldsMove dates s a
      (finishClaim o c) := by
    intro c hc
    refine .cleared c hc rfl ?_ rfl
    rw [Claim.active, finishClaim]
    cases o.success <;> rfl
  rcases finishRun_cases h with rfl | ⟨claim, hfind, -, ⟨-, h⟩ | ⟨hended, hmut, -⟩⟩
  · exact .of_runs rfl
  · rcases commitFinish_cases h with ⟨-, rfl | ⟨hmut, -⟩⟩ | ⟨task, -, hout⟩
    · exact .of_runs rfl
    · exact .of_mutated hmut fun c hc _ => hfinish c hc
    · exact .of_outcome hout fun c hc _ => hfinish c hc
  · obtain ⟨hclaim, hid⟩ := Table.find?_eq_some.mp hfind
    refine .of_mutated hmut fun c hc hp => ?_
    obtain rfl : c = claim :=
      Table.eq_of_key hc hclaim ((of_decide_eq_true hp).trans hid.symm)
    exact .cleared c hc rfl hended rfl

theorem FieldsMoved.applyLifecycle {request : LifecycleRequest} {time : String}
    {s t : Project} {a : Action} {r : Except DomainError Unit}
    (h : applyLifecycle dates request time s = (r, t)) :
    FieldsMoved dates a s t := by
  cases applyLifecycle_outcome h with
  | quiet hruns _ => exact .of_runs hruns
  | lease f runId hf hmut _ => exact .lease hf hmut
  | start runId agentId o h => exact .startRun h
  | finish runId agentId o _ h => exact .finishRun h

theorem FieldsMoved.setRunFinalizationState {runId : RunId}
    {agentId : AgentId} {u : FinalizationUpdate} {s t : Project}
    {r : Except DomainError Claim}
    (h : setRunFinalizationState dates runId agentId u s = (r, t)) :
    FieldsMoved dates (.setRunFinalizationState runId agentId u) s t := by
  rcases setRunFinalizationState_cases h with
    rfl | ⟨claim, hfind, howner, hstate, hmut, -⟩
  · exact .of_runs rfl
  obtain ⟨hclaim, hid⟩ := Table.find?_eq_some.mp hfind
  refine .of_mutated hmut fun c hc hp => ?_
  obtain rfl : c = claim :=
    Table.eq_of_key hc hclaim ((of_decide_eq_true hp).trans hid.symm)
  exact .set runId agentId u c hc hid howner rfl hstate rfl

theorem FieldsMoved.updateKept {runId : RunId}
    {check : Claim → Except DomainError Unit} {f : Claim → Claim}
    {events : Claim → List OrcEvent} {s t : Project} {a : Action}
    {r : Except DomainError Claim}
    (h : updateClaim dates runId check f events s = (r, t))
    (hf : ∀ c, (f c).runId = c.runId ∧ (f c).state = c.state ∧
      finalizationFields (f c) = finalizationFields c) :
    FieldsMoved dates a s t := by
  rcases updateClaim_cases (fun c => (hf c).1) h with
    rfl | ⟨claim, -, -, hmut, -⟩
  · exact .of_runs rfl
  · exact .of_mutated hmut fun c hc _ =>
      .kept c hc (hf c).1 (.inl (hf c).2.1) (hf c).2.2

theorem FieldsMoved.expireRun {runId : RunId} {actorId : AgentId}
    {now : String} {s t : Project} {a : Action} {r : Except DomainError Unit}
    (h : expireRun dates runId actorId now s = (r, t)) :
    FieldsMoved dates a s t := by
  rcases expireRun_cases h with rfl | ⟨claim, task, -, -, -, -, hout⟩
  · exact .of_runs rfl
  · exact .of_outcome hout fun c hc _ => .cleared c hc rfl rfl rfl

theorem FieldsMoved.claimTask {ref : TaskRef} {agentId : AgentId} {lease : Int}
    {runId : RunId} {snapshot : Except DomainError Unit} {now : Int}
    {s t : Project} {a : Action} {r : Except DomainError (RunId × String)}
    (hsound : Sound s)
    (h : claimTask dates ref agentId lease runId snapshot now s = (r, t)) :
    FieldsMoved dates a s t := by
  rcases claimTask_cases hsound.bound h with rfl | ⟨-, pinned, ts, hclaim,
    ⟨-, hadded⟩ | ⟨-, hevents, -⟩⟩
  · exact .of_runs rfl
  · intro c hc
    rcases (hadded.mem c).mp hc with hc | rfl
    · exact .same hc
    · obtain ⟨-, -, -, -, hnew, -⟩ := claimTask_ok hclaim
      exact .claimed hnew rfl rfl
  · exact .of_runs (by rw [hevents])

/-! ## Calls about many runs -/

theorem FieldsMoved.expireStaleLeases {policy : String} {actorId : AgentId}
    {now : Int} {s t : Project} {r : Except DomainError (List RunId)}
    (h : expireStaleLeases dates policy actorId now s = (r, t)) :
    FieldsMoved dates (.expireStaleLeases policy actorId now) s t := by
  rcases expireStaleLeases_cases h with rfl | ⟨hmut, -⟩
  · exact .of_runs rfl
  · exact .of_mutated hmut fun c hc hp => .forgotten c hc rfl hp rfl rfl

theorem FieldsMoved.resetTask {ref : TaskRef} {actorId : AgentId}
    {now : String} {s t : Project} {r : Except DomainError TaskStatus}
    (h : resetTask dates ref actorId now s = (r, t)) :
    FieldsMoved dates (.resetTask ref actorId now) s t := by
  rcases resetTask_cases h with rfl | ⟨task, r', -, hout, -⟩
  · exact .of_runs rfl
  · exact .of_outcome hout fun c hc hp => .forgotten c hc rfl hp rfl rfl

theorem FieldsMoved.reconcileState {now : String} {s t : Project}
    {r : Except DomainError Unit}
    (h : reconcileState dates now s = (r, t)) :
    FieldsMoved dates (.reconcileState now) s t := by
  rcases (reconcileState_cases h).2 with hruns | hmut
  · exact .of_runs hruns
  · exact .of_mutated hmut fun c hc hp => .forgotten c hc rfl hp rfl rfl

theorem FieldsMoved.cancelTask {ref : TaskRef} {reason : Option String}
    {actorId : AgentId} {now : String} {s t : Project} {a : Action}
    {r : Except DomainError CancelResult}
    (h : cancelTask dates registry ref reason actorId now s = (r, t)) :
    FieldsMoved dates a s t := by
  rcases cancelTask_cases h with rfl | ⟨task, r', -, -, hcommit, -⟩
  · exact .of_runs rfl
  rcases commitCancel_cases hcommit with rfl | ⟨hremoved, -⟩
  · exact .of_runs rfl
  · exact fun c hc => .same ((hremoved.mem c).mp hc).1

/-! ## Every call -/

theorem FieldsMoved.perform {a : Action} {s t : Project}
    {r : Except DomainError Unit} (hsound : Sound s)
    (h : perform dates registry a s = (r, t)) : FieldsMoved dates a s t := by
  cases a with
  | claimTask ref agentId lease runId snapshot now =>
      obtain ⟨r', hx, -⟩ := result_cases h
      exact .claimTask hsound hx
  | startRun runId agentId o now => exact .startRun h
  | heartbeat runId agentId o =>
      obtain ⟨r', hx, -⟩ := result_cases h
      rcases heartbeat_cases hx with rfl | ⟨f, hf, hmut, -⟩
      · exact .of_runs rfl
      · exact .lease hf hmut
  | renewLeaseOnly runId lease now =>
      rcases renewLeaseOnly_cases h with rfl | ⟨f, hf, hmut, -⟩
      · exact .of_runs rfl
      · exact .lease hf hmut
  | finishRun runId agentId o now => exact .finishRun h
  | markTaskEnvelopeSent runId agentId o =>
      obtain ⟨r', hx, -⟩ := result_cases h
      rcases markTaskEnvelopeSent_cases hx with rfl | hx
      · exact .of_runs rfl
      · exact .updateKept hx fun _ => ⟨rfl, rfl, rfl⟩
  | setRunSessionStartRetryState runId agentId count nextRetryAt lastError =>
      obtain ⟨r', hx, -⟩ := result_cases h
      exact .updateKept hx fun _ => ⟨rfl, rfl, rfl⟩
  | setRunFinalizationState runId agentId u =>
      obtain ⟨r', hx, -⟩ := result_cases h
      exact .setRunFinalizationState hx
  | setRunInputState runId agentId inputState requestedAt now =>
      obtain ⟨r', hx, -⟩ := result_cases h
      exact .updateKept hx fun _ => ⟨rfl, rfl, rfl⟩
  | setPrRef runId prRef =>
      obtain ⟨r', hx, -⟩ := result_cases h
      exact .updateKept hx fun _ => ⟨rfl, rfl, rfl⟩
  | setPrCreatedAt runId createdAt seq =>
      obtain ⟨r', hx, -⟩ := result_cases h
      exact .updateKept hx fun _ => ⟨rfl, rfl, rfl⟩
  | expireStaleLeases policy actorId now =>
      obtain ⟨r', hx, -⟩ := result_cases h
      exact .expireStaleLeases hx
  | delegateTask args now =>
      obtain ⟨r', hx, -⟩ := result_cases h
      rcases delegateTask_cases hx with rfl | ⟨-, -, -, hruns, -⟩
      · exact .of_runs rfl
      · exact .of_runs hruns
  | cancelTask ref reason actorId now =>
      obtain ⟨r', hx, -⟩ := result_cases h
      exact .cancelTask hx
  | resetTask ref actorId now =>
      obtain ⟨r', hx, -⟩ := result_cases h
      exact .resetTask hx
  | unblockTask ref reason actorId now =>
      rcases unblockTask_cases h with rfl | ⟨-, -, -, hruns, -⟩
      · exact .of_runs rfl
      · exact .of_runs hruns
  | expireRun runId actorId now => exact .expireRun h
  | markTaskDoneRuntimeOnly ref actorId now =>
      obtain ⟨r', hx, -⟩ := result_cases h
      exact .of_runs (markTaskDoneRuntimeOnly_cases hx).1
  | reconcileState now => exact .reconcileState h
  | applyLifecycle request time => exact .applyLifecycle h

end OrcState.Lifecycle
