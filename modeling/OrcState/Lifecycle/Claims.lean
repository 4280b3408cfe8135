import OrcState.Lifecycle.Invariant

/-!
# What one call can make of a stored claim

Sooner or later every result about runs asks the same of a call: whether it can
end a claim, move its finalization or its lease, or name another agent.  The
answer is given once here, for all calls, by the fields a call may touch.
-/

namespace OrcState.Lifecycle

open OrcState.Contract OrcState.Foundation OrcState.Store
open OrcState.Foundation.Effect

variable {dates : DateApi} {registry : Registry}

/-! ## The fields a call may touch -/

/-- The lease and the finalization state a call writes, and the claims it ends. -/
structure Touch where
  lease : Option (RunId × Int) := none
  finalization : Option (RunId × Option FinalizationState) := none
  ends : Claim → Bool := fun _ => false

/-- A renewal as its caller asks for it; a text that is no time gives no clock. -/
structure Renewal where
  runId : RunId
  agentId : Option AgentId
  now : Option Int
  leaseDurationMs : Int

/--
The claim and the clock of a renewal that is accepted: the claim is active, it
belongs to the caller, and its lease has not run out.
-/
def Renewal.accepted (dates : DateApi) (s : Project) (r : Renewal) :
    Option (Claim × Int) := do
  let claim ← s.findClaim r.runId
  let now ← r.now
  if claim.active && r.agentId.all (fun a => a = claim.agentId) &&
      !(truthy (some claim.leaseExpiresAt) && leasePassed dates now claim) then
    some (claim, now)
  else none

def Renewal.granted (dates : DateApi) (s : Project) (r : Renewal) :
    Option (RunId × Int) :=
  (r.accepted dates s).map fun p => (r.runId, p.2 + r.leaseDurationMs)

def LifecycleRequest.renews (dates : DateApi) (s : Project) (time : String) :
    LifecycleRequest → Option Renewal
  | .progress input =>
      if input.event = .heartbeat ∧
          (validateProgress input (s.findClaim input.runId)).isOk = true then
        some ⟨input.runId, input.agentId, dates.parse time, DEFAULT_LEASE_MS⟩
      else none
  | _ => none

def Action.renews (dates : DateApi) (s : Project) : Action → Option Renewal
  | .heartbeat runId agentId o =>
      some ⟨runId, agentId, dates.parse o.time, o.leaseDurationMs⟩
  | .renewLeaseOnly runId lease now => some ⟨runId, none, now, lease⟩
  | .applyLifecycle request time => request.renews dates s time
  | _ => none

def LifecycleRequest.finishes : LifecycleRequest → Option RunId
  | .runFail runId _ _ _ _ | .runFinish runId _ | .inputTimeout runId _ =>
      some runId
  | .progress input =>
      if input.event = .runFinished ∨ input.event = .runFailed then
        some input.runId
      else none
  | .runStart _ _ | .runWorkComplete _ _ => none

def LifecycleRequest.touch (dates : DateApi) (s : Project) (time : String)
    (request : LifecycleRequest) : Touch where
  lease := (request.renews dates s time).bind (Renewal.granted dates s)
  ends c := request.finishes = some c.runId

def Action.touch (dates : DateApi) (s : Project) (a : Action) : Touch :=
  let lease := (a.renews dates s).bind (Renewal.granted dates s)
  match a with
  | .heartbeat _ _ _ | .renewLeaseOnly _ _ _ => { lease := lease }
  | .finishRun runId _ _ _ => { ends := fun c => c.runId = runId }
  | .setRunFinalizationState runId _ u =>
      { finalization := some (runId, u.finalizationState) }
  | .expireStaleLeases _ _ now => { ends := expires dates now s.backlog }
  | .cancelTask ref _ _ _ | .resetTask ref _ _ =>
      { ends := fun c => c.taskRef = ref }
  | .expireRun runId _ _ => { ends := fun c => c.runId = runId }
  | .reconcileState _ => { ends := reconcileFails s }
  | .applyLifecycle request time => request.touch dates s time
  | _ => {}

/-! ## One claim, before and after -/

structure ClaimMove (dates : DateApi) (touch : Touch) (c c' : Claim) :
    Prop where
  runId : c'.runId = c.runId
  taskRef : c'.taskRef = c.taskRef
  agentId : c'.agentId = c.agentId
  active : c'.active = true → c.active = true
  started : c.state = .inProgress → c'.active = true → c'.state = .inProgress
  claimed : c'.state = .claimed →
    c.state = .claimed ∧ c'.finalizationState = c.finalizationState
  finalization : c'.finalizationState = c.finalizationState ∨
    (c'.finalizationState = none ∧ c'.active = false) ∨
    (touch.finalization = some (c.runId, c'.finalizationState) ∧
      c.active = true)
  lease : c'.leaseExpiresAt = c.leaseExpiresAt ∨
    ∃ e, touch.lease = some (c.runId, e) ∧
      c'.leaseExpiresAt = dates.toISOString e

theorem ClaimMove.refl (touch : Touch) (c : Claim) :
    ClaimMove dates touch c c :=
  ⟨rfl, rfl, rfl, id, fun h _ => h, fun h => ⟨h, rfl⟩, .inl rfl, .inl rfl⟩

theorem ClaimMove.of_kept {touch : Touch} {c c' : Claim}
    (hid : c'.runId = c.runId ∧ c'.taskRef = c.taskRef ∧
      c'.agentId = c.agentId)
    (hstate : c'.state = c.state)
    (hfinal : c'.finalizationState = c.finalizationState)
    (hlease : c'.leaseExpiresAt = c.leaseExpiresAt) :
    ClaimMove dates touch c c' := by
  refine ⟨hid.1, hid.2.1, hid.2.2, fun h => ?_, fun h _ => hstate.trans h,
    fun h => ⟨hstate.symm.trans h, hfinal⟩, .inl hfinal, .inl hlease⟩
  rwa [Claim.active, ← hstate]

theorem ClaimMove.of_ended {touch : Touch} {c c' : Claim}
    (hid : c'.runId = c.runId ∧ c'.taskRef = c.taskRef ∧
      c'.agentId = c.agentId)
    (hended : c'.active = false)
    (hfinal : c'.finalizationState = c.finalizationState ∨
      c'.finalizationState = none)
    (hlease : c'.leaseExpiresAt = c.leaseExpiresAt) :
    ClaimMove dates touch c c' := by
  refine ⟨hid.1, hid.2.1, hid.2.2, fun h => ?_, fun _ h => ?_, fun h => ?_,
    hfinal.imp_right fun hnone => .inl ⟨hnone, hended⟩, .inl hlease⟩
  · rw [hended] at h
    cases h
  · rw [hended] at h
    cases h
  · rw [Claim.active, h] at hended
    cases hended

theorem ClaimMove.trans {touch : Touch} {c c' c'' : Claim}
    (h : ClaimMove dates touch c c') (h' : ClaimMove dates touch c' c'') :
    ClaimMove dates touch c c'' := by
  refine ⟨h'.runId.trans h.runId, h'.taskRef.trans h.taskRef,
    h'.agentId.trans h.agentId, fun ha => h.active (h'.active ha),
    fun hc ha => h'.started (h.started hc (h'.active ha)) ha, fun hc => ?_, ?_,
    ?_⟩
  · obtain ⟨hm, hsame'⟩ := h'.claimed hc
    obtain ⟨hstate, hsame⟩ := h.claimed hm
    exact ⟨hstate, hsame'.trans hsame⟩
  · rcases h'.finalization with hsame | hcleared | ⟨hset, hactive⟩
    · rw [hsame]
      rcases h.finalization with hkept | ⟨hnone, hended⟩ | hset
      · exact .inl hkept
      · refine .inr (.inl ⟨hnone, Bool.eq_false_iff.mpr fun ha => ?_⟩)
        rw [h'.active ha] at hended
        cases hended
      · exact .inr (.inr hset)
    · exact .inr (.inl hcleared)
    · exact .inr (.inr ⟨h.runId ▸ hset, h.active hactive⟩)
  · rcases h'.lease with hsame | ⟨e, hlease, hgranted⟩
    · rw [hsame]
      exact h.lease
    · exact .inr ⟨e, h.runId ▸ hlease, hgranted⟩

/-! ## All claims, before and after -/

/-- A claim that was not there belongs to a run that no task has known. -/
structure ClaimsMoved (dates : DateApi) (touch : Touch) (s t : Project) :
    Prop where
  source : ∀ c', c' ∈ t.events.runs →
    (∃ c, c ∈ s.events.runs ∧ ClaimMove dates touch c c') ∨
      (c'.state = .claimed ∧ c'.finalizationState = none ∧
        ¬ s.tasks.Bound c'.runId ∧
        ∃ e, c'.leaseExpiresAt = dates.toISOString e)
  kept : ∀ c, c ∈ s.events.runs → touch.ends c = false →
    ∃ c', c' ∈ t.events.runs ∧ ClaimMove dates touch c c' ∧
      (c.active = true → c'.active = true)

section Moved

variable {s t : Project} {touch : Touch}

theorem ClaimsMoved.of_runs (h : t.events.runs = s.events.runs) :
    ClaimsMoved dates touch s t := by
  refine ⟨fun c hc => .inl ⟨c, h ▸ hc, .refl touch c⟩, fun c hc _ => ?_⟩
  exact ⟨c, h ▸ hc, .refl touch c, id⟩

theorem ClaimsMoved.of_mutated {p : Claim → Bool} {f : Claim → Claim}
    (h : Mutated p f s.events.runs t.events.runs)
    (hf : ∀ c, c ∈ s.events.runs → p c = true →
      ClaimMove dates touch c (f c))
    (hends : ∀ c, c ∈ s.events.runs → p c = true → touch.ends c = false →
      c.active = true → (f c).active = true) : ClaimsMoved dates touch s t := by
  refine ⟨fun c hc => ?_, fun c hc hkeep => ?_⟩
  · obtain ⟨c₀, hc₀, ⟨hp, rfl⟩ | ⟨-, rfl⟩⟩ := h.source hc
    · exact .inl ⟨c₀, hc₀, hf c₀ hc₀ hp⟩
    · exact .inl ⟨_, hc₀, .refl touch _⟩
  · refine ⟨if p c then f c else c, (h.mem _).mpr ⟨c, hc, rfl⟩, ?_⟩
    split
    · rename_i hp
      exact ⟨hf c hc hp, hends c hc hp hkeep⟩
    · exact ⟨.refl touch c, id⟩

theorem ClaimsMoved.trans {m : Project} (h : ClaimsMoved dates touch s m)
    (h' : ClaimsMoved dates touch m t)
    (hold : ∀ c, c ∈ m.events.runs → s.tasks.Bound c.runId)
    (hbound : ∀ id, s.tasks.Bound id → m.tasks.Bound id)
    (hends : ∀ c c' : Claim, c'.runId = c.runId → touch.ends c = false →
      touch.ends c' = false) : ClaimsMoved dates touch s t := by
  refine ⟨fun c hc => ?_, fun c hc hkeep => ?_⟩
  · rcases h'.source c hc with ⟨c', hc', hmove'⟩ | ⟨hstate, hnone, hnew, hlease⟩
    · rcases h.source c' hc' with ⟨c₀, hc₀, hmove⟩ | ⟨-, -, hnew, -⟩
      · exact .inl ⟨c₀, hc₀, hmove.trans hmove'⟩
      · exact absurd (hold c' hc') hnew
    · exact .inr ⟨hstate, hnone, fun hb => hnew (hbound _ hb), hlease⟩
  · obtain ⟨c', hc', hmove, hlive⟩ := h.kept c hc hkeep
    obtain ⟨c'', hc'', hmove', hlive'⟩ :=
      h'.kept c' hc' (hends c c' hmove.runId hkeep)
    exact ⟨c'', hc'', hmove.trans hmove', fun ha => hlive' (hlive ha)⟩

theorem ClaimsMoved.of_ended {p : Claim → Bool} {f : Claim → Claim}
    (h : Mutated p f s.events.runs t.events.runs)
    (hf : ∀ c, ClaimMove dates touch c (f c))
    (hends : ∀ c, p c = true → touch.ends c = true) :
    ClaimsMoved dates touch s t := by
  refine .of_mutated h (fun c _ _ => hf c) fun c _ hp hkeep _ => ?_
  rw [hends c hp] at hkeep
  cases hkeep

theorem ClaimsMoved.of_both {p : Claim → Bool} {f : Claim → Claim}
    {changes : TaskStatusChanges} {ref : TaskRef} {g : Task → Task}
    {r : Except DomainError Unit} (h : BothOutcome p f changes ref g s r t)
    (hf : ∀ c, ClaimMove dates touch c (f c))
    (hends : ∀ c, p c = true → touch.ends c = true) :
    ClaimsMoved dates touch s t := by
  cases h with
  | refused e => exact .of_runs rfl
  | torn e _ hmut _ => exact .of_ended hmut hf hends
  | done _ hmut _ => exact .of_ended hmut hf hends

end Moved

/-! ## Calls that renew a lease -/

theorem Renewal.accepted_of_found {s : Project} {runId : RunId}
    {agentId : Option AgentId} {now lease : Int} {claim : Claim}
    (hfind : s.findClaim runId = some claim) (hactive : claim.active = true)
    (hagent : ∀ a ∈ agentId, a = claim.agentId)
    (hlease : ¬ (truthy (some claim.leaseExpiresAt) = true ∧
      leasePassed dates now claim = true)) :
    Renewal.accepted dates s ⟨runId, agentId, now, lease⟩ =
      some (claim, now) := by
  have hall : agentId.all (fun a => decide (a = claim.agentId)) = true := by
    cases agentId with
    | none => rfl
    | some a => exact decide_eq_true (hagent a rfl)
  have hunexpired : (truthy (some claim.leaseExpiresAt) &&
      leasePassed dates now claim) = false := by
    rw [← Bool.not_eq_true, Bool.and_eq_true]
    exact hlease
  simp only [Renewal.accepted, hfind, hactive, hall, hunexpired,
    Option.bind_eq_bind, Option.bind_some, Bool.not_false, Bool.and_self,
    if_true]

theorem ClaimsMoved.of_lease {s t : Project} {touch : Touch} {runId : RunId}
    {e : Int} {f : Claim → Claim} (hf : LeaseOnly f)
    (h : Mutated (fun c => c.runId = runId) f s.events.runs t.events.runs)
    (hlease : ∀ c, (f c).leaseExpiresAt = dates.toISOString e)
    (htouch : touch.lease = some (runId, e)) :
    ClaimsMoved dates touch s t := by
  refine .of_mutated h (fun c _ hp => ?_) fun c _ _ _ hactive => ?_
  · obtain rfl : c.runId = runId := of_decide_eq_true hp
    have hkept := hf c
    refine ⟨hf.runId c, by rw [hkept], by rw [hkept], fun h => ?_,
      fun h _ => ?_, fun h => ?_, .inl (by rw [hkept]),
      .inr ⟨e, htouch, hlease c⟩⟩
    · rwa [hkept] at h
    · rwa [hkept]
    · rw [hkept] at h ⊢
      exact ⟨h, rfl⟩
  · rw [hf c]
    exact hactive

theorem ClaimsMoved.heartbeat {runId : RunId} {agentId : AgentId}
    {o : HeartbeatOptions} {s t : Project} {r : Except DomainError String}
    {touch : Touch}
    (h : heartbeat dates runId agentId o s = (r, t))
    (htouch : touch.lease = Renewal.granted dates s
      ⟨runId, agentId, dates.parse o.time, o.leaseDurationMs⟩) :
    ClaimsMoved dates touch s t := by
  simp only [Lifecycle.heartbeat, read_bind, assertValidTimestamp] at h
  rcases ofExcept_cases h with ⟨-, rfl⟩ | ⟨claim, hclaim, h⟩
  · exact .of_runs rfl
  rcases throwIf_cases h with ⟨-, rfl⟩ | ⟨hactive, h⟩
  · exact .of_runs rfl
  rcases throwIf_cases h with ⟨-, rfl⟩ | ⟨hread, h⟩
  · exact .of_runs rfl
  obtain ⟨now, hnow⟩ := Option.ne_none_iff_exists'.mp
    (mt Option.isNone_iff_eq_none.mpr hread)
  rw [hnow] at htouch
  rw [hnow, Option.getD_some] at h
  rcases throwIf_cases h with ⟨-, rfl⟩ | ⟨hlease, h⟩
  · exact .of_runs rfl
  obtain ⟨r', hx, -⟩ := result_cases h
  rcases commitMutated_cases hx (fun _ => rfl) with ⟨-, rfl⟩ | ⟨-, hmut, -⟩
  · exact .of_runs rfl
  obtain ⟨hfind, hagent⟩ := ownClaim_ok.mp hclaim
  rw [Renewal.granted, Renewal.accepted_of_found hfind (by simpa using hactive)
    (fun a ha => (Option.some.inj ha).symm.trans hagent.symm) hlease] at htouch
  exact .of_lease (fun _ => rfl) hmut (fun _ => rfl) htouch

theorem ClaimsMoved.renewLeaseOnly {runId : RunId} {lease now : Int}
    {s t : Project} {r : Except DomainError Unit} {touch : Touch}
    (h : renewLeaseOnly dates runId lease now s = (r, t))
    (htouch : touch.lease =
      Renewal.granted dates s ⟨runId, none, now, lease⟩) :
    ClaimsMoved dates touch s t := by
  simp only [Lifecycle.renewLeaseOnly, read_bind] at h
  cases hfind : s.findClaim runId with
  | none =>
      simp only [hfind] at h
      cases h
      exact .of_runs rfl
  | some claim =>
      simp only [hfind] at h
      split at h
      · cases h
        exact .of_runs rfl
      · rename_i hlive
        rw [not_or] at hlive
        rcases commitMutated_cases h (fun _ => rfl) with ⟨-, rfl⟩ | ⟨-, hmut, -⟩
        · exact .of_runs rfl
        rw [Renewal.granted, Renewal.accepted_of_found hfind
          (by simpa using hlive.1) (fun a ha => by cases ha) hlive.2] at htouch
        exact .of_lease (fun _ => rfl) hmut (fun _ => rfl) htouch

/-! ## Calls that start or end runs -/

theorem ClaimsMoved.startRun {runId : RunId} {agentId : AgentId}
    {o : StartOptions} {now : String} {s t : Project}
    {r : Except DomainError Unit} {touch : Touch}
    (h : startRun dates runId agentId o now s = (r, t)) :
    ClaimsMoved dates touch s t := by
  rcases startRun_cases h with rfl | ⟨claim, hfind, -, hstate, hcommit⟩
  · exact .of_runs rfl
  obtain ⟨hclaim, rfl⟩ := Table.find?_eq_some.mp hfind
  have hmoved : Mutated (fun c => c.runId = claim.runId) (startClaim o.time)
      s.events.runs t.events.runs → ClaimsMoved dates touch s t := by
    intro hmut
    refine .of_mutated hmut (fun c hc hp => ?_) fun _ _ _ _ _ => rfl
    obtain rfl : c = claim := Table.eq_of_key hc hclaim (of_decide_eq_true hp)
    refine ⟨rfl, rfl, rfl, fun _ => ?_, fun _ _ => rfl, fun h => ?_, .inl rfl,
      .inl rfl⟩
    · rw [Claim.active, hstate]
      rfl
    · cases h
  rcases commitStart_cases hcommit with ⟨-, rfl | ⟨hmut, -⟩⟩ | ⟨task, -, hout⟩
  · exact .of_runs rfl
  · exact hmoved hmut
  · cases hout with
    | refused e => exact .of_runs rfl
    | torn e _ hmut _ => exact hmoved hmut
    | done _ hmut _ => exact hmoved hmut

theorem claimMove_finish {touch : Touch} (o : FinishOptions) (c : Claim) :
    ClaimMove dates touch c (finishClaim o c) :=
  .of_ended ⟨rfl, rfl, rfl⟩ (finishClaim_active o c) (.inr rfl) rfl

theorem ClaimsMoved.finishRun {runId : RunId} {agentId : AgentId}
    {o : FinishOptions} {now : String} {s t : Project}
    {r : Except DomainError Unit} {touch : Touch}
    (h : finishRun dates runId agentId o now s = (r, t))
    (htouch : ∀ c, c.runId = runId → touch.ends c = true) :
    ClaimsMoved dates touch s t := by
  have hends : ∀ c : Claim, decide (c.runId = runId) = true →
      touch.ends c = true := fun c hp => htouch c (of_decide_eq_true hp)
  rcases finishRun_cases h with
    rfl | ⟨claim, hfind, -, ⟨-, hcommit⟩ | ⟨hended, hmut, -⟩⟩
  · exact .of_runs rfl
  · obtain ⟨-, rfl⟩ := Table.find?_eq_some.mp hfind
    rcases commitFinish_cases hcommit with
      ⟨-, rfl | ⟨hmut, -⟩⟩ | ⟨task, -, hout⟩
    · exact .of_runs rfl
    · exact .of_ended hmut (claimMove_finish o) hends
    · exact .of_both hout (claimMove_finish o) hends
  · obtain ⟨hclaim, rfl⟩ := Table.find?_eq_some.mp hfind
    refine .of_mutated hmut (fun c hc hp => ?_) fun c _ hp hkeep _ => ?_
    · obtain rfl : c = claim :=
        Table.eq_of_key hc hclaim (of_decide_eq_true hp)
      exact .of_ended ⟨rfl, rfl, rfl⟩ hended (.inr rfl) rfl
    · rw [hends c hp] at hkeep
      cases hkeep

theorem ClaimsMoved.expireStaleLeases {policy : String} {actorId : AgentId}
    {now : Int} {s t : Project} {r : Except DomainError (List RunId)}
    (h : expireStaleLeases dates policy actorId now s = (r, t)) :
    ClaimsMoved dates { ends := expires dates now s.backlog } s t := by
  rcases expireStaleLeases_cases h with rfl | ⟨hmut, -⟩
  · exact .of_runs rfl
  · exact .of_ended hmut (fun c => .of_ended ⟨rfl, rfl, rfl⟩
      (expireClaim_active now c) (.inl rfl) rfl) fun _ hp => hp

theorem ClaimsMoved.cancelTask {ref : TaskRef} {reason : Option String}
    {actorId : AgentId} {now : String} {s t : Project}
    {r : Except DomainError CancelResult}
    (h : cancelTask dates registry ref reason actorId now s = (r, t)) :
    ClaimsMoved dates { ends := fun c => c.taskRef = ref } s t := by
  rcases cancelTask_cases h with rfl | ⟨task, r', -, -, hcommit, -⟩
  · exact .of_runs rfl
  rcases commitCancel_cases hcommit with rfl | ⟨hremoved, -⟩
  · exact .of_runs rfl
  refine ⟨fun c hc => .inl ⟨c, ((hremoved.mem c).mp hc).1, .refl _ c⟩,
    fun c hc hkeep => ⟨c, (hremoved.mem c).mpr ⟨hc, ?_⟩, .refl _ c, id⟩⟩
  have hother : decide (c.taskRef = ref) = false := hkeep
  rw [hother, Bool.false_and]

theorem ClaimsMoved.resetTask {ref : TaskRef} {actorId : AgentId}
    {now : String} {s t : Project} {r : Except DomainError TaskStatus}
    (h : resetTask dates ref actorId now s = (r, t)) :
    ClaimsMoved dates { ends := fun c => c.taskRef = ref } s t := by
  rcases resetTask_cases h with rfl | ⟨task, r', -, hout, -⟩
  · exact .of_runs rfl
  · exact .of_both hout
      (fun c => .of_ended ⟨rfl, rfl, rfl⟩ rfl (.inl rfl) rfl)
      fun c hp => (Bool.and_eq_true _ _ ▸ hp).1

theorem ClaimsMoved.expireRun {runId : RunId} {actorId : AgentId}
    {now : String} {s t : Project} {r : Except DomainError Unit}
    (h : expireRun dates runId actorId now s = (r, t)) :
    ClaimsMoved dates { ends := fun c => c.runId = runId } s t := by
  rcases expireRun_cases h with rfl | ⟨claim, task, -, -, -, -, hout⟩
  · exact .of_runs rfl
  · exact .of_both hout
      (fun c => .of_ended ⟨rfl, rfl, rfl⟩ rfl (.inr rfl) rfl) fun _ hp => hp

theorem ClaimsMoved.reconcileState {now : String} {s t : Project}
    {r : Except DomainError Unit}
    (h : reconcileState dates now s = (r, t)) :
    ClaimsMoved dates { ends := reconcileFails s } s t := by
  rcases (reconcileState_cases h).2 with hruns | hmut
  · exact .of_runs hruns
  · exact .of_ended hmut
      (fun c => .of_ended ⟨rfl, rfl, rfl⟩ rfl (.inl rfl) rfl) fun _ hp => hp

theorem ClaimsMoved.claimTask {ref : TaskRef} {agentId : AgentId} {lease : Int}
    {runId : RunId} {snapshot : Except DomainError Unit} {now : Int}
    {s t : Project} {r : Except DomainError (RunId × String)}
    (hbound : ∀ c, c ∈ s.events.runs → s.tasks.Bound c.runId)
    (h : claimTask dates ref agentId lease runId snapshot now s = (r, t)) :
    ClaimsMoved dates {} s t := by
  rcases claimTask_cases hbound h with
    rfl | ⟨-, pinned, ts, hclaim, ⟨-, hadded⟩ | ⟨-, hevents, -⟩⟩
  · exact .of_runs rfl
  · obtain ⟨-, -, -, -, hnew, -⟩ := claimTask_ok hclaim
    refine ⟨fun c hc => ?_, fun c hc _ => ?_⟩
    · rcases (hadded.mem c).mp hc with hc | rfl
      · exact .inl ⟨c, hc, .refl _ c⟩
      · exact .inr ⟨rfl, rfl, hnew, now + lease, rfl⟩
    · exact ⟨c, (hadded.mem c).mpr (.inl hc), .refl _ c, id⟩
  · exact .of_runs (by rw [hevents])

/-! ## Worker requests -/

theorem ClaimsMoved.report {event : OrcEvent} {s t : Project}
    {r : Except DomainError Unit} {touch : Touch}
    (h : onEvents (appendSequencedEvent dates event) s = (r, t)) :
    ClaimsMoved dates touch s t :=
  .of_runs (appendEvent_cases h).1

theorem ClaimsMoved.applyProgress {input : ProgressInput} {claim : Claim}
    {time : String} {s t : Project} {r : Except DomainError Unit}
    (hvalid : validateProgress input (s.findClaim input.runId) = .ok claim)
    (h : applyProgress dates input claim time s = (r, t)) :
    ClaimsMoved dates ((LifecycleRequest.progress input).touch dates s time)
      s t := by
  have hfinishes : input.event = .runFinished ∨ input.event = .runFailed →
      ∀ c : Claim, c.runId = input.runId →
        ((LifecycleRequest.progress input).touch dates s time).ends c = true := by
    intro hevent c hid
    simp [LifecycleRequest.touch, LifecycleRequest.finishes, hevent, hid]
  unfold Lifecycle.applyProgress at h
  cases hevent : input.event with
  | runStarted =>
      simp only [hevent] at h
      split at h
      · cases h
        exact .of_runs rfl
      · exact .startRun h
  | runFinished =>
      simp only [hevent, read_bind] at h
      rcases ofExcept_cases h with ⟨-, rfl⟩ | ⟨⟨⟩, -, h⟩
      · exact .of_runs rfl
      · exact .finishRun h (hfinishes (.inl hevent))
  | runFailed =>
      simp only [hevent] at h
      exact .finishRun h (hfinishes (.inr hevent))
  | heartbeat =>
      simp only [hevent] at h
      obtain ⟨r', hx, -⟩ := result_cases h
      refine .heartbeat hx ?_
      rw [LifecycleRequest.touch, LifecycleRequest.renews,
        if_pos ⟨hevent, by rw [hvalid]; rfl⟩]
      rfl
  | _ =>
      simp only [hevent] at h
      exact .report h

theorem ClaimsMoved.applyLifecycle {request : LifecycleRequest}
    {time : String} {s t : Project} {r : Except DomainError Unit}
    (h : applyLifecycle dates request time s = (r, t)) :
    ClaimsMoved dates (request.touch dates s time) s t := by
  have hfinishes : ∀ runId, request.finishes = some runId →
      ∀ c : Claim, c.runId = runId →
        (request.touch dates s time).ends c = true := by
    intro runId hrun c hid
    simp [LifecycleRequest.touch, hrun, hid]
  cases request with
  | runStart runId agentId =>
      simp only [Lifecycle.applyLifecycle, read_bind] at h
      split at h
      · cases h
        exact .of_runs rfl
      · rcases ofExcept_cases h with ⟨-, rfl⟩ | ⟨claim, -, h⟩
        · exact .of_runs rfl
        · exact .startRun h
  | runFail runId agentId reason code policy =>
      simp only [Lifecycle.applyLifecycle, read_bind] at h
      rcases ofExcept_cases h with ⟨-, rfl⟩ | ⟨claim, -, h⟩
      · exact .of_runs rfl
      · exact .finishRun h (hfinishes runId rfl)
  | runFinish runId agentId =>
      simp only [Lifecycle.applyLifecycle, read_bind] at h
      rcases ofExcept_cases h with ⟨-, rfl⟩ | ⟨claim, -, h⟩
      · exact .of_runs rfl
      rcases ofExcept_cases h with ⟨-, rfl⟩ | ⟨⟨⟩, -, h⟩
      · exact .of_runs rfl
      · exact .finishRun h (hfinishes runId rfl)
  | runWorkComplete runId agentId =>
      simp only [Lifecycle.applyLifecycle, read_bind] at h
      rcases ofExcept_cases h with ⟨-, rfl⟩ | ⟨claim, -, h⟩
      · exact .of_runs rfl
      rcases ofExcept_cases h with ⟨-, rfl⟩ | ⟨event, -, h⟩
      · exact .of_runs rfl
      · exact .report h
  | inputTimeout runId agentId =>
      simp only [Lifecycle.applyLifecycle, read_bind] at h
      split at h
      · exact .finishRun h (hfinishes runId rfl)
      · cases h
        exact .of_runs rfl
  | progress input =>
      simp only [Lifecycle.applyLifecycle, read_bind] at h
      rcases ofExcept_cases h with ⟨-, rfl⟩ | ⟨claim, hvalid, h⟩
      · exact .of_runs rfl
      · exact .applyProgress hvalid h

/-! ## Updates of one claim -/

theorem Mutated.findClaim {s t : Project} {f : Claim → Claim} {runId : RunId}
    {claim : Claim}
    (h : Mutated (fun c => c.runId = runId) f s.events.runs t.events.runs)
    (hid : ∀ c, (f c).runId = c.runId)
    (hfind : s.findClaim runId = some claim) :
    t.findClaim runId = some (f claim) := by
  obtain ⟨hclaim, rfl⟩ := Table.find?_eq_some.mp hfind
  refine Table.find?_eq_some.mpr ⟨(h.mem _).mpr ⟨claim, hclaim, ?_⟩, hid claim⟩
  rw [if_pos (decide_eq_true rfl)]

theorem ClaimsMoved.setRunFinalizationState {runId : RunId}
    {agentId : AgentId} {u : FinalizationUpdate} {s t : Project}
    {r : Except DomainError Claim} {touch : Touch}
    (h : setRunFinalizationState dates runId agentId u s = (r, t))
    (htouch : touch.finalization = some (runId, u.finalizationState)) :
    ClaimsMoved dates touch s t := by
  rcases setRunFinalizationState_cases h with
    rfl | ⟨claim, hfind, -, hstate, hmut, -⟩
  · exact .of_runs rfl
  obtain ⟨hclaim, rfl⟩ := Table.find?_eq_some.mp hfind
  refine .of_mutated hmut (fun c hc hp => ?_) fun c _ _ _ hactive => hactive
  obtain rfl : c = claim := Table.eq_of_key hc hclaim (of_decide_eq_true hp)
  refine ⟨rfl, rfl, rfl, id, fun hstarted _ => hstarted, fun hclaimed => ?_,
    .inr (.inr ⟨htouch, ?_⟩), .inl rfl⟩
  · cases hstate.symm.trans hclaimed
  · rw [Claim.active, hstate]
    rfl

theorem updateClaim_returns {runId : RunId}
    {check : Claim → Except DomainError Unit} {f : Claim → Claim}
    {events : Claim → List OrcEvent} {s t : Project} {updated : Claim}
    (hid : ∀ c, (f c).runId = c.runId)
    (h : updateClaim dates runId check f events s = (.ok updated, t)) :
    updated.runId = runId ∧ t.findClaim runId = some updated ∧
      ∃ claim, s.findClaim runId = some claim ∧ check claim = .ok () ∧
        updated = f claim := by
  simp only [updateClaim, read_bind] at h
  rcases orThrow_cases h with ⟨⟨e, he⟩, -⟩ | ⟨claim, hclaim, h⟩
  · cases he
  rcases ofExcept_cases h with ⟨⟨e, he⟩, -⟩ | ⟨⟨⟩, hcheck, h⟩
  · cases he
  rcases bind_cases h with ⟨e, -, he⟩ | ⟨⟨⟩, m, hx, h⟩
  · cases he
  cases h
  rcases commitMutated_cases hx hid with ⟨⟨e, he⟩, -⟩ | ⟨-, hmut, -⟩
  · cases he
  · have hrun : claim.runId = runId := (Table.find?_eq_some.mp hclaim).2
    exact ⟨(hid claim).trans hrun, hmut.findClaim hid hclaim, claim, hclaim,
      hcheck, rfl⟩

theorem setRunFinalizationState_returns {runId : RunId} {agentId : AgentId}
    {u : FinalizationUpdate} {s t : Project} {updated : Claim}
    (h : setRunFinalizationState dates runId agentId u s = (.ok updated, t)) :
    updated.runId = runId ∧ t.findClaim runId = some updated ∧
      ∃ claim, s.findClaim runId = some claim ∧ claim.state = .inProgress ∧
        updated = applyFinalization u claim := by
  obtain ⟨hid, hstored, claim, hclaim, hcheck, hupdated⟩ :=
    updateClaim_returns (f := applyFinalization u) (fun _ => rfl) h
  obtain ⟨⟨⟩, -, hcheck⟩ := except_bind_ok hcheck
  exact ⟨hid, hstored, claim, hclaim,
    of_decide_eq_true (refuseUnless_ok hcheck), hupdated⟩

theorem setRunFinalizationState_total {s : Project} {runId : RunId}
    {agentId : AgentId} {claim : Claim} (u : FinalizationUpdate)
    (hone : OneActive s.events.runs) (hfind : s.findClaim runId = some claim)
    (hagent : claim.agentId = agentId) (hstate : claim.state = .inProgress) :
    ∃ t, setRunFinalizationState dates runId agentId u s =
        (.ok (applyFinalization u claim), t) ∧
      t.findClaim runId = some (applyFinalization u claim) := by
  obtain ⟨db, hdb⟩ : ∃ db, commitClaims dates
      (mutateClaims s.claims (fun c => c.runId = runId) (applyFinalization u))
      [] s.events = .ok ((), db) :=
    commitMutated_total hone (fun _ => ⟨rfl, rfl⟩) (fun _ _ _ ha => ha)
      fun _ he => nomatch he
  have hmut := commitMutated_claims hdb fun _ => rfl
  refine ⟨{ s with events := db }, ?_, hmut.findClaim (fun _ => rfl) hfind⟩
  have hwrite : onEvents (commitClaims dates
      (mutateClaim s.claims runId (applyFinalization u)) []) s =
        (.ok (), { s with events := db }) := by
    rw [onEvents, Effect.atomically, mutateClaim, hdb]
    rfl
  have hcheck : ∀ message, (do
      checkOwner runId agentId claim
      refuseUnless (claim.state = ClaimState.inProgress) message) =
        Except.ok () := by
    intro message
    rw [checkOwner, refuseUnless, if_pos (decide_eq_true hagent)]
    exact if_pos (decide_eq_true hstate)
  simp only [setRunFinalizationState, updateClaim, read_bind, orThrow_bind,
    hfind, ofExcept_bind]
  rw [hcheck]
  exact bind_of_ok hwrite

theorem ClaimsMoved.updateKept {runId : RunId}
    {check : Claim → Except DomainError Unit} {f : Claim → Claim}
    {events : Claim → List OrcEvent} {s t : Project}
    {r : Except DomainError Claim} {touch : Touch}
    (h : updateClaim dates runId check f events s = (r, t))
    (hid : ∀ c, (f c).runId = c.runId ∧ (f c).taskRef = c.taskRef ∧
      (f c).agentId = c.agentId)
    (hkept : ∀ c, (f c).state = c.state ∧
      (f c).finalizationState = c.finalizationState ∧
      (f c).leaseExpiresAt = c.leaseExpiresAt) :
    ClaimsMoved dates touch s t := by
  rcases updateClaim_cases (fun c => (hid c).1) h with rfl | ⟨-, -, -, hmut, -⟩
  · exact .of_runs rfl
  refine .of_mutated hmut (fun c _ _ => ?_) fun c _ _ _ hactive => ?_
  · obtain ⟨hstate, hfinal, hlease⟩ := hkept c
    exact .of_kept (hid c) hstate hfinal hlease
  · rwa [Claim.active, (hkept c).1]

/-! ## Every call -/

theorem ClaimsMoved.perform {a : Action} {s t : Project}
    {r : Except DomainError Unit}
    (hbound : ∀ c, c ∈ s.events.runs → s.tasks.Bound c.runId)
    (h : perform dates registry a s = (r, t)) :
    ClaimsMoved dates (a.touch dates s) s t := by
  cases a with
  | claimTask ref agentId lease runId snapshot now =>
      obtain ⟨r', hx, -⟩ := result_cases h
      exact .claimTask hbound hx
  | startRun runId agentId o now => exact .startRun h
  | heartbeat runId agentId o =>
      obtain ⟨r', hx, -⟩ := result_cases h
      exact .heartbeat hx rfl
  | renewLeaseOnly runId lease now => exact .renewLeaseOnly h rfl
  | finishRun runId agentId o now =>
      exact .finishRun h fun c hid => decide_eq_true hid
  | markTaskEnvelopeSent runId agentId o =>
      obtain ⟨r', hx, -⟩ := result_cases h
      rcases markTaskEnvelopeSent_cases hx with rfl | hx
      · exact .of_runs rfl
      · exact .updateKept hx (fun _ => ⟨rfl, rfl, rfl⟩) fun _ => ⟨rfl, rfl, rfl⟩
  | setRunSessionStartRetryState runId agentId count nextRetryAt lastError =>
      obtain ⟨r', hx, -⟩ := result_cases h
      exact .updateKept hx (fun _ => ⟨rfl, rfl, rfl⟩) fun _ => ⟨rfl, rfl, rfl⟩
  | setRunFinalizationState runId agentId u =>
      obtain ⟨r', hx, -⟩ := result_cases h
      exact .setRunFinalizationState hx rfl
  | setRunInputState runId agentId inputState requestedAt now =>
      obtain ⟨r', hx, -⟩ := result_cases h
      exact .updateKept hx (fun _ => ⟨rfl, rfl, rfl⟩) fun _ => ⟨rfl, rfl, rfl⟩
  | setPrRef runId prRef =>
      obtain ⟨r', hx, -⟩ := result_cases h
      exact .updateKept hx (fun _ => ⟨rfl, rfl, rfl⟩) fun _ => ⟨rfl, rfl, rfl⟩
  | setPrCreatedAt runId createdAt seq =>
      obtain ⟨r', hx, -⟩ := result_cases h
      exact .updateKept hx (fun _ => ⟨rfl, rfl, rfl⟩) fun _ => ⟨rfl, rfl, rfl⟩
  | expireStaleLeases policy actorId now =>
      obtain ⟨r', hx, -⟩ := result_cases h
      exact .expireStaleLeases hx
  | delegateTask args now =>
      obtain ⟨r', hx, -⟩ := result_cases h
      rcases delegateTask_cases hx with rfl | ⟨-, -, -, hruns, -⟩
      · exact .of_runs rfl
      · exact .of_runs hruns
  | cancelTask ref reason actorId now =>
      obtain ⟨r', hx, -⟩ := result_cases h
      exact .cancelTask hx
  | resetTask ref actorId now =>
      obtain ⟨r', hx, -⟩ := result_cases h
      exact .resetTask hx
  | unblockTask ref reason actorId now =>
      rcases unblockTask_cases h with rfl | ⟨-, -, -, hruns, -⟩
      · exact .of_runs rfl
      · exact .of_runs hruns
  | expireRun runId actorId now => exact .expireRun h
  | markTaskDoneRuntimeOnly ref actorId now =>
      obtain ⟨r', hx, -⟩ := result_cases h
      exact .of_runs (markTaskDoneRuntimeOnly_cases hx).1
  | reconcileState now => exact .reconcileState h
  | applyLifecycle request time => exact .applyLifecycle h

end OrcState.Lifecycle
