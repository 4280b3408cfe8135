import OrcState.Lifecycle.Agreement

/-!
# What an ended run leaves on its claim

Six calls end a run and each assigns its own list of fields.  The finalization
and input fields of a claim are for a run that is still live; which calls leave
them behind on an ended one is a matter of what the claim held before.
-/

namespace OrcState.Lifecycle

open OrcState.Contract OrcState.Foundation OrcState.Store
open OrcState.Foundation.Effect

variable {dates : DateApi} {registry : Registry}

/-! ## Cleared claims -/

/-- Finalization is for a started run, and an ended run has nothing pending. -/
structure Cleared (claim : Claim) : Prop where
  started : claim.finalizationState ≠ none → claim.state = .inProgress
  ended : claim.active = false →
    claim.finalizationState = none ∧ claim.finalizationRetryCount = 0 ∧
      claim.inputState = none

def unfinalized (claim : Claim) : Bool :=
  claim.finalizationState.isNone && claim.finalizationRetryCount = 0

def uninterrupted (claim : Claim) : Bool := claim.inputState.isNone

theorem Cleared.of_bare (claim : Claim) (hfinal : unfinalized claim = true)
    (hinput : uninterrupted claim = true) : Cleared claim := by
  simp only [unfinalized, uninterrupted, Bool.and_eq_true,
    Option.isNone_iff_eq_none, decide_eq_true_eq] at hfinal hinput
  refine ⟨fun h => absurd hfinal.1 h, fun _ => ⟨hfinal.1, hfinal.2, hinput⟩⟩

theorem Cleared.congr {claim claim' : Claim} (h : Cleared claim)
    (hstate : claim'.state = claim.state)
    (hfinal : claim'.finalizationState = claim.finalizationState)
    (hretry : claim'.finalizationRetryCount = claim.finalizationRetryCount)
    (hinput : claim'.inputState = claim.inputState) : Cleared claim' := by
  refine ⟨fun hne => ?_, fun hended => ?_⟩
  · rw [hstate]
    exact h.started (hfinal ▸ hne)
  · rw [hfinal, hretry, hinput]
    refine h.ended ?_
    rwa [Claim.active, ← hstate]

def AllCleared (s : Project) : Prop :=
  ∀ claim, claim ∈ s.events.runs → Cleared claim

theorem AllCleared.mutated {s t : Project} {p : Claim → Bool}
    {f : Claim → Claim} (hs : AllCleared s)
    (h : Mutated p f s.events.runs t.events.runs)
    (hf : ∀ c, c ∈ s.events.runs → p c = true → Cleared c → Cleared (f c)) :
    AllCleared t := by
  intro c hc
  obtain ⟨c₀, hc₀, ⟨hp, rfl⟩ | ⟨-, rfl⟩⟩ := h.source hc
  · exact hf c₀ hc₀ hp (hs c₀ hc₀)
  · exact hs _ hc₀

theorem AllCleared.of_runs {s t : Project} (hs : AllCleared s)
    (h : t.events.runs = s.events.runs) : AllCleared t := by
  intro c hc
  rw [h] at hc
  exact hs c hc

/-! ## One call -/

/-- The claims a call ends without clearing what they hold. -/
def leavesBare (dates : DateApi) (s : Project) : Action → Bool
  | .expireStaleLeases _ _ now =>
      s.claims.all fun c => !expires dates now s.backlog c || unfinalized c
  | .resetTask ref _ _ =>
      s.claims.all fun c => !(c.taskRef = ref && c.active) ||
        unfinalized c && uninterrupted c
  | .expireRun runId _ _ =>
      s.claims.all fun c => !(c.runId = runId && c.active &&
        (findTask s.backlog c.taskRef).any fun t => !t.status.terminal) ||
          uninterrupted c
  | .reconcileState _ =>
      s.claims.all fun c => !reconcileFails s c ||
        unfinalized c && uninterrupted c
  | _ => true

theorem AllCleared.lease {s t : Project} {f : Claim → Claim} {runId : RunId}
    (hs : AllCleared s) (hf : LeaseOnly f)
    (h : Mutated (fun c => c.runId = runId) f s.events.runs t.events.runs) :
    AllCleared t := by
  refine hs.mutated h fun c _ _ hc => ?_
  rw [hf c]
  exact hc.congr rfl rfl rfl rfl

theorem cleared_startClaim {time : String} {claim : Claim} :
    Cleared (startClaim time claim) :=
  ⟨fun _ => rfl, fun h => by cases h⟩

theorem cleared_finishClaim (o : FinishOptions) (claim : Claim) :
    Cleared (finishClaim o claim) :=
  .of_bare _ rfl rfl

theorem AllCleared.startRun {runId : RunId} {agentId : AgentId}
    {o : StartOptions} {now : String} {s t : Project}
    {r : Except DomainError Unit} (hs : AllCleared s)
    (h : startRun dates runId agentId o now s = (r, t)) : AllCleared t := by
  rcases startRun_cases h with rfl | ⟨claim, -, -, -, h⟩
  · exact hs
  rcases commitStart_cases h with ⟨-, rfl | ⟨hmut, -⟩⟩ | ⟨task, -, hout⟩
  · exact hs
  · exact hs.mutated hmut fun _ _ _ _ => cleared_startClaim
  · cases hout with
    | refused e => exact hs
    | torn e _ hmut _ => exact hs.mutated hmut fun _ _ _ _ => cleared_startClaim
    | done _ hmut _ => exact hs.mutated hmut fun _ _ _ _ => cleared_startClaim

theorem AllCleared.finishRun {runId : RunId} {agentId : AgentId}
    {o : FinishOptions} {now : String} {s t : Project}
    {r : Except DomainError Unit} (hs : AllCleared s)
    (h : finishRun dates runId agentId o now s = (r, t)) : AllCleared t := by
  have hfinish : ∀ c, c ∈ s.events.runs → ∀ id : RunId,
      decide (c.runId = id) = true → Cleared c → Cleared (finishClaim o c) :=
    fun c _ _ _ _ => cleared_finishClaim o c
  rcases finishRun_cases h with rfl | ⟨claim, -, -, ⟨-, h⟩ | ⟨-, hmut, -⟩⟩
  · exact hs
  · rcases commitFinish_cases h with ⟨-, rfl | ⟨hmut, -⟩⟩ | ⟨task, -, hout⟩
    · exact hs
    · exact hs.mutated hmut fun c hc => hfinish c hc _
    · cases hout with
      | refused e => exact hs
      | torn e _ hmut _ => exact hs.mutated hmut fun c hc => hfinish c hc _
      | done _ hmut _ => exact hs.mutated hmut fun c hc => hfinish c hc _
  · refine hs.mutated hmut fun c _ _ hc => ⟨fun hne => absurd rfl hne, ?_⟩
    intro hended
    exact ⟨rfl, rfl, (hc.ended hended).2.2⟩

theorem AllCleared.applyLifecycle {request : LifecycleRequest} {time : String}
    {s t : Project} {r : Except DomainError Unit} (hs : AllCleared s)
    (h : applyLifecycle dates request time s = (r, t)) : AllCleared t := by
  cases applyLifecycle_outcome h with
  | quiet hruns _ => exact hs.of_runs hruns
  | lease f runId hf hmut _ => exact hs.lease hf hmut
  | start runId agentId o h => exact hs.startRun h
  | finish runId agentId o _ h => exact hs.finishRun h

theorem AllCleared.setRunFinalizationState {runId : RunId} {agentId : AgentId}
    {u : FinalizationUpdate} {s t : Project} {r : Except DomainError Claim}
    (hs : AllCleared s)
    (h : setRunFinalizationState dates runId agentId u s = (r, t)) :
    AllCleared t := by
  rcases setRunFinalizationState_cases h with
    rfl | ⟨claim, hfind, -, hstate, hmut, -⟩
  · exact hs
  obtain ⟨hclaim, hid⟩ := Table.find?_eq_some.mp hfind
  refine hs.mutated hmut fun c hc hp _ => ?_
  have hself : c = claim :=
    Table.eq_of_key hc hclaim ((of_decide_eq_true hp).trans hid.symm)
  have hstarted : (applyFinalization u c).state = .inProgress := hself ▸ hstate
  refine ⟨fun _ => hstarted, fun hended => ?_⟩
  rw [Claim.active, hstarted] at hended
  cases hended

theorem AllCleared.setRunInputState {runId : RunId} {agentId : AgentId}
    {inputState : Option InputState} {requestedAt : Option String}
    {now : String} {s t : Project} {r : Except DomainError Claim}
    (hs : AllCleared s)
    (h : setRunInputState dates runId agentId inputState requestedAt now s =
      (r, t)) : AllCleared t := by
  rcases setRunInputState_cases h with rfl | ⟨claim, hfind, hactive, hmut, -⟩
  · exact hs
  obtain ⟨hclaim, hid⟩ := Table.find?_eq_some.mp hfind
  refine hs.mutated hmut fun c hc hp hcleared => ?_
  have hself : c = claim :=
    Table.eq_of_key hc hclaim ((of_decide_eq_true hp).trans hid.symm)
  refine ⟨hcleared.started, fun hended => ?_⟩
  have hstill : c.active = false := hended
  rw [hself, hactive] at hstill
  cases hstill

theorem AllCleared.updateKept {runId : RunId}
    {check : Claim → Except DomainError Unit} {f : Claim → Claim}
    {events : Claim → List OrcEvent} {s t : Project}
    {r : Except DomainError Claim} (hs : AllCleared s)
    (h : updateClaim dates runId check f events s = (r, t))
    (hid : ∀ c, (f c).runId = c.runId)
    (hf : ∀ c, Cleared c → Cleared (f c)) : AllCleared t := by
  rcases updateClaim_cases hid h with rfl | ⟨claim, -, -, hmut, -⟩
  · exact hs
  · exact hs.mutated hmut fun c _ _ hc => hf c hc

theorem AllCleared.expireStaleLeases {policy : String} {actorId : AgentId}
    {now : Int} {s t : Project} {r : Except DomainError (List RunId)}
    (hs : AllCleared s)
    (hbare : leavesBare dates s (.expireStaleLeases policy actorId now) = true)
    (h : expireStaleLeases dates policy actorId now s = (r, t)) :
    AllCleared t := by
  rcases expireStaleLeases_cases h with rfl | ⟨hmut, -⟩
  · exact hs
  refine hs.mutated hmut fun c hc hp _ => ?_
  have hfinal := List.all_eq_true.mp hbare c hc
  rw [hp, Bool.not_true, Bool.false_or] at hfinal
  exact .of_bare (expireClaim dates now c) hfinal rfl

theorem AllCleared.resetTask {ref : TaskRef} {actorId : AgentId} {now : String}
    {s t : Project} {r : Except DomainError TaskStatus} (hs : AllCleared s)
    (hbare : leavesBare dates s (.resetTask ref actorId now) = true)
    (h : resetTask dates ref actorId now s = (r, t)) : AllCleared t := by
  have hreset : ∀ c, c ∈ s.events.runs → (c.taskRef = ref && c.active) = true →
      Cleared c → Cleared (resetClaim now c) := by
    intro c hc hp _
    have hempty := List.all_eq_true.mp hbare c hc
    rw [hp] at hempty
    simp only [Bool.not_true, Bool.false_or, Bool.and_eq_true] at hempty
    exact .of_bare (resetClaim now c) hempty.1 hempty.2
  rcases resetTask_cases h with rfl | ⟨task, r', -, hout, -⟩
  · exact hs
  cases hout with
  | refused e => exact hs
  | torn e _ hmut _ => exact hs.mutated hmut hreset
  | done _ hmut _ => exact hs.mutated hmut hreset

theorem AllCleared.expireRun {runId : RunId} {actorId : AgentId}
    {now : String} {s t : Project} {r : Except DomainError Unit}
    (hs : AllCleared s)
    (hbare : leavesBare dates s (.expireRun runId actorId now) = true)
    (h : expireRun dates runId actorId now s = (r, t)) : AllCleared t := by
  rcases expireRun_cases h with
    rfl | ⟨claim, task, hfind, hactive, htask, hopen, hout⟩
  · exact hs
  obtain ⟨hclaim, hid⟩ := Table.find?_eq_some.mp hfind
  have hexpire : ∀ c, c ∈ s.events.runs → decide (c.runId = runId) = true →
      Cleared c → Cleared (expireRunClaim now c) := by
    intro c hc hp _
    obtain rfl : c = claim :=
      Table.eq_of_key hc hclaim ((of_decide_eq_true hp).trans hid.symm)
    have hinput := List.all_eq_true.mp hbare c hc
    simp only [hid, hactive, htask, Option.any_some, hopen, decide_true,
      Bool.not_false, Bool.and_self, Bool.not_true, Bool.false_or] at hinput
    exact .of_bare (expireRunClaim now c) rfl hinput
  cases hout with
  | refused e => exact hs
  | torn e _ hmut _ => exact hs.mutated hmut hexpire
  | done _ hmut _ => exact hs.mutated hmut hexpire

theorem AllCleared.reconcileState {now : String} {s t : Project}
    {r : Except DomainError Unit} (hs : AllCleared s)
    (hbare : leavesBare dates s (.reconcileState now) = true)
    (h : reconcileState dates now s = (r, t)) : AllCleared t := by
  rcases (reconcileState_cases h).2 with hruns | hmut
  · exact hs.of_runs hruns
  refine hs.mutated hmut fun c hc hp _ => ?_
  have hempty := List.all_eq_true.mp hbare c hc
  rw [hp] at hempty
  simp only [Bool.not_true, Bool.false_or, Bool.and_eq_true] at hempty
  exact .of_bare (failClaim c) hempty.1 hempty.2

theorem AllCleared.cancelTask {ref : TaskRef} {reason : Option String}
    {actorId : AgentId} {now : String} {s t : Project}
    {r : Except DomainError CancelResult} (hs : AllCleared s)
    (h : cancelTask dates registry ref reason actorId now s = (r, t)) :
    AllCleared t := by
  rcases cancelTask_cases h with rfl | ⟨task, r', -, -, hcommit, -⟩
  · exact hs
  rcases commitCancel_cases hcommit with rfl | ⟨hremoved, -⟩
  · exact hs
  · exact fun c hc => hs c ((hremoved.mem c).mp hc).1

theorem AllCleared.claimTask {ref : TaskRef} {agentId : AgentId} {lease : Int}
    {runId : RunId} {snapshot : Except DomainError Unit} {now : Int}
    {s t : Project} {r : Except DomainError (RunId × String)}
    (hs : AllCleared s) (hsound : Sound s)
    (h : claimTask dates ref agentId lease runId snapshot now s = (r, t)) :
    AllCleared t := by
  rcases claimTask_cases hsound.bound h with rfl | ⟨-, pinned, ts, -,
    ⟨-, hadded⟩ | ⟨-, hevents, -⟩⟩
  · exact hs
  · intro c hc
    rcases (hadded.mem c).mp hc with hc | rfl
    · exact hs c hc
    · exact .of_bare _ rfl rfl
  · exact hs.of_runs (by rw [hevents])

/-! ## Every run -/

theorem AllCleared.perform {a : Action} {s t : Project}
    {r : Except DomainError Unit} (hs : AllCleared s) (hsound : Sound s)
    (hbare : leavesBare dates s a = true)
    (h : perform dates registry a s = (r, t)) : AllCleared t := by
  cases a with
  | claimTask ref agentId lease runId snapshot now =>
      obtain ⟨r', hx, -⟩ := result_cases h
      exact hs.claimTask hsound hx
  | startRun runId agentId o now => exact hs.startRun h
  | heartbeat runId agentId o =>
      obtain ⟨r', hx, -⟩ := result_cases h
      rcases heartbeat_cases hx with rfl | ⟨f, hf, hmut, -⟩
      · exact hs
      · exact hs.lease hf hmut
  | renewLeaseOnly runId lease now =>
      rcases renewLeaseOnly_cases h with rfl | ⟨f, hf, hmut, -⟩
      · exact hs
      · exact hs.lease hf hmut
  | finishRun runId agentId o now => exact hs.finishRun h
  | markTaskEnvelopeSent runId agentId o =>
      obtain ⟨r', hx, -⟩ := result_cases h
      rcases markTaskEnvelopeSent_cases hx with rfl | hx
      · exact hs
      · exact hs.updateKept hx (fun _ => rfl) fun _ hc => hc.congr rfl rfl rfl rfl
  | setRunSessionStartRetryState runId agentId count nextRetryAt lastError =>
      obtain ⟨r', hx, -⟩ := result_cases h
      exact hs.updateKept hx (fun _ => rfl) fun _ hc => hc.congr rfl rfl rfl rfl
  | setRunFinalizationState runId agentId u =>
      obtain ⟨r', hx, -⟩ := result_cases h
      exact hs.setRunFinalizationState hx
  | setRunInputState runId agentId inputState requestedAt now =>
      obtain ⟨r', hx, -⟩ := result_cases h
      exact hs.setRunInputState hx
  | setPrRef runId prRef =>
      obtain ⟨r', hx, -⟩ := result_cases h
      exact hs.updateKept hx (fun _ => rfl) fun _ hc => hc.congr rfl rfl rfl rfl
  | setPrCreatedAt runId createdAt seq =>
      obtain ⟨r', hx, -⟩ := result_cases h
      exact hs.updateKept hx (fun _ => rfl) fun _ hc => hc.congr rfl rfl rfl rfl
  | expireStaleLeases policy actorId now =>
      obtain ⟨r', hx, -⟩ := result_cases h
      exact hs.expireStaleLeases hbare hx
  | delegateTask args now =>
      obtain ⟨r', hx, -⟩ := result_cases h
      rcases delegateTask_cases hx with rfl | ⟨-, -, -, hruns, -⟩
      · exact hs
      · exact hs.of_runs hruns
  | cancelTask ref reason actorId now =>
      obtain ⟨r', hx, -⟩ := result_cases h
      exact hs.cancelTask hx
  | resetTask ref actorId now =>
      obtain ⟨r', hx, -⟩ := result_cases h
      exact hs.resetTask hbare hx
  | unblockTask ref reason actorId now =>
      rcases unblockTask_cases h with rfl | ⟨-, -, -, hruns, -⟩
      · exact hs
      · exact hs.of_runs hruns
  | expireRun runId actorId now => exact hs.expireRun hbare h
  | markTaskDoneRuntimeOnly ref actorId now =>
      obtain ⟨r', hx, -⟩ := result_cases h
      exact hs.of_runs (markTaskDoneRuntimeOnly_cases hx).1
  | reconcileState now => exact hs.reconcileState hbare h
  | applyLifecycle request time => exact hs.applyLifecycle h

/-- A run in which no call ends a claim with something left on it. -/
theorem allCleared_of_leavesBare (dates : DateApi) (registry : Registry)
    {s : Project}
    (hs : (lifecycleSystem dates registry).ReachableUnder
      (fun s a => leavesBare dates s a = true) s) : AllCleared s := by
  refine hs.invariant (fun s h c hc => ?_) fun s a t hreach hs hok ht => ?_
  · rw [Table.mem_rows, h.runs] at hc
    cases hc
  · cases ht
    exact hs.perform (Sound.reachable hreach) hok (Prod.eta _).symm

instance (s : Project) (a : Action) :
    Decidable (leavesBare dates s a = true) :=
  inferInstance

def claimAndComplete : List Action :=
  claimAndStart ++
    [.setRunFinalizationState "run-1" "worker"
      { finalizationState := some .awaitingFinalize }]

theorem allCleared_claimAndComplete :
    ∃ t, (lifecycleSystem .epoch soloRegistry).run oneTask
        (claimAndComplete ++ [.expireRun "run-1" "human"
          (DateApi.epoch.toISOString 3)]) = some t ∧
      t.claims.map Claim.state = [.failed] ∧ AllCleared t := by
  obtain ⟨t, ht, hstate⟩ :=
    (lifecycleSystem .epoch soloRegistry).exists_run_of_map
      (f := fun t => t.claims.map Claim.state)
      (by decide : ((lifecycleSystem .epoch soloRegistry).run oneTask
        (claimAndComplete ++ [.expireRun "run-1" "human"
          (DateApi.epoch.toISOString 3)])).map
            (fun t => t.claims.map Claim.state) = some [.failed])
  refine ⟨t, ht, hstate, allCleared_of_leavesBare .epoch soloRegistry ?_⟩
  exact (System.ReachableUnder.initial fresh_oneTask).run (by decide) ht

/-- The reset of a task leaves its failed claim waiting for a merge. -/
theorem not_allCleared_resetTask :
    ∃ t, (lifecycleSystem .epoch soloRegistry).run oneTask
        (claimAndComplete ++ [.resetTask "docs/intro" "human"
          (DateApi.epoch.toISOString 3)]) = some t ∧
      (lifecycleSystem .epoch soloRegistry).Reachable t ∧ ¬ AllCleared t := by
  have hrun : ((lifecycleSystem .epoch soloRegistry).run oneTask
      (claimAndComplete ++ [.resetTask "docs/intro" "human"
        (DateApi.epoch.toISOString 3)])).map (fun t => t.claims.any fun c =>
          c.state = .failed && c.finalizationState.isSome) = some true := by
    decide
  obtain ⟨t, ht, hleft⟩ := Option.map_eq_some_iff.mp hrun
  refine ⟨t, ht, (System.Reachable.initial fresh_oneTask).run ht,
    fun hall => ?_⟩
  obtain ⟨c, hc, hclaim⟩ := List.any_eq_true.mp hleft
  simp only [Bool.and_eq_true, decide_eq_true_eq] at hclaim
  have hended : c.active = false := by
    rw [Claim.active, hclaim.1]
    rfl
  rw [((hall c hc).ended hended).1] at hclaim
  cases hclaim.2

end OrcState.Lifecycle
