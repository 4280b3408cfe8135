import OrcState.Coordinator.Announcement
import OrcState.Lifecycle.Claims

/-!
# What a delivery can make of a stored claim

The coordinator writes claims on its own account only when it applies the action
of the reducer.  With the calls of the project this covers every step of a run.
-/

namespace OrcState.Coordinator

open OrcState.Contract OrcState.Foundation OrcState.Store OrcState.Lifecycle
open OrcState.Foundation.Effect

variable {dates : DateApi} {registry : Registry}

/-! ## The fields a step may touch -/

def eventClaim (s : Project) (event : OrcEvent) : Option Claim :=
  if truthy event.runId then s.findClaim (event.runId.getD "") else none

def LifecycleAction.renews (dates : DateApi) (event : OrcEvent)
    (claim : Option Claim) (nowIso : String) :
    LifecycleAction → Option Renewal
  | .heartbeat time leaseDurationMs =>
      if newerHeartbeat dates claim time then
        some ⟨event.runId.getD "", event.agentId.getD "", dates.parse time,
          leaseDurationMs⟩
      else none
  | .advanceFinalization _ _ _ extendLeaseMs =>
      extendLeaseMs.map fun ms =>
        ⟨event.runId.getD "", event.agentId.getD "", dates.parse nowIso, ms⟩
  | _ => none

def LifecycleAction.touch (dates : DateApi) (s : Project) (event : OrcEvent)
    (claim : Option Claim) (nowIso : String) (action : LifecycleAction) :
    Touch :=
  let lease := (action.renews dates event claim nowIso).bind
    (Renewal.granted dates s)
  match action with
  | .heartbeat _ _ => { lease := lease }
  | .advanceFinalization state _ _ _ =>
      { finalization := some (event.runId.getD "", some state)
        lease := lease }
  | .finishRun success _ _ _ _ =>
      if failsReview s (event.runId.getD "") (event.agentId.getD "") success then
        { finalization := some (event.runId.getD "", some .prFailed) }
      else { ends := fun c => c.runId = event.runId.getD "" }
  | .setInputState _ | .startRun _ | .clearInputState | .noop => {}

def deliveryTouch (dates : DateApi) (s : Project) (event : OrcEvent)
    (nowIso : String) : Touch :=
  (reduceLifecycleEvent dates event (eventClaim s event) nowIso).touch dates s
    event (eventClaim s event) nowIso

def RunLabel.renews (dates : DateApi) (s : Project) : RunLabel → Option Renewal
  | .call a => a.renews dates s
  | .deliver event nowIso =>
      (reduceLifecycleEvent dates event (eventClaim s event) nowIso).renews
        dates event (eventClaim s event) nowIso
  | .finishReview _ _ _ | .resetSession _ => none

def RunLabel.touch (dates : DateApi) (s : Project) : RunLabel → Touch
  | .call a => a.touch dates s
  | .deliver event nowIso => deliveryTouch dates s event nowIso
  | .finishReview event _ _ =>
      { ends := fun c => c.runId = event.runId.getD "" }
  | .resetSession _ => { ends := Claim.active }

/-! ## What every call keeps -/

/-- What the calls with `P` keep, refused or not. -/
def KeptBy (dates : DateApi) (registry : Registry) (P : Action → Prop)
    (I : Project → Prop) : Prop :=
  ∀ a s, P a → I s → I (perform dates registry a s).2

def CallInvariant (dates : DateApi) (registry : Registry)
    (I : Project → Prop) : Prop :=
  ∀ a s, I s → I (perform dates registry a s).2

def LifecycleAction.counts : LifecycleAction → Int
  | .advanceFinalization _ delta _ _ => delta
  | _ => 0

def LifecycleAction.MayCall (action : LifecycleAction) (a : Action) : Prop :=
  ∀ runId agentId u, a = .setRunFinalizationState runId agentId u →
    u.retryCountDelta = action.counts ∨ u.retryCountDelta = 0

section KeptBy

variable {P : Action → Prop} {I : Project → Prop}

theorem KeptBy.of_call (a : Action) (hI : KeptBy dates registry P I)
    (ha : P a) {s t : Project} {r : Except DomainError Unit} (hs : I s)
    (h : perform dates registry a s = (r, t)) : I t := by
  have hcall := hI a s ha hs
  rwa [h] at hcall

theorem KeptBy.of_result {α : Type} {x : Op α} (a : Action)
    (hI : KeptBy dates registry P I) (ha : P a)
    (hx : perform dates registry a = x >>= fun _ => pure ()) {s t : Project}
    {r : Except DomainError α} (hs : I s) (h : x s = (r, t)) : I t := by
  have hcall := hI a s ha hs
  rw [hx, result_snd, h] at hcall
  exact hcall

theorem KeptBy.applyAction (hI : KeptBy dates registry P I)
    {event : OrcEvent} {action : LifecycleAction} {claim : Option Claim}
    {nowIso : String} (hP : ∀ a, action.MayCall a → P a) {s t : Project}
    {r : Except DomainError Unit} (hs : I s)
    (h : applyAction dates event action claim nowIso s = (r, t)) : I t := by
  cases action with
  | setInputState requestedAt =>
      obtain ⟨r', hx⟩ := attempt_cases h
      exact hI.of_result (.setRunInputState _ _ _ _ nowIso)
        (hP _ fun _ _ _ ha => by cases ha) rfl hs hx
  | startRun time =>
      exact hI.of_call (.startRun _ _ _ nowIso)
        (hP _ fun _ _ _ ha => by cases ha) hs h
  | heartbeat time lease =>
      simp only [Coordinator.applyAction] at h
      split at h
      · obtain ⟨r', hx⟩ := attempt_cases h
        exact hI.of_result (.heartbeat _ _ _)
          (hP _ fun _ _ _ ha => by cases ha) rfl hs hx
      · cases h
        exact hs
  | advanceFinalization state delta blocked extend =>
      have hset : P (.setRunFinalizationState (event.runId.getD "")
          (event.agentId.getD "")
          { finalizationState := some state, retryCountDelta := delta
            blockedReason := blocked }) := by
        refine hP _ fun _ _ u ha => ?_
        cases ha
        exact .inl rfl
      rcases bind_cases h with ⟨e, hx, -⟩ | ⟨c, m, hx, h⟩
      · exact hI.of_result (.setRunFinalizationState _ _ _) hset rfl hs hx
      have hm : I m :=
        hI.of_result (.setRunFinalizationState _ _ _) hset rfl hs hx
      cases extend with
      | none =>
          cases h
          exact hm
      | some ms =>
          obtain ⟨r', hx⟩ := attempt_cases h
          exact hI.of_result (.heartbeat _ _ _)
            (hP _ fun _ _ _ ha => by cases ha) rfl hm hx
  | clearInputState =>
      obtain ⟨r', hx⟩ := attempt_cases h
      exact hI.of_result (.setRunInputState _ _ _ _ nowIso)
        (hP _ fun _ _ _ ha => by cases ha) rfl hs hx
  | finishRun success reason code policy time =>
      simp only [Coordinator.applyAction, read_bind] at h
      split at h
      · obtain ⟨r', hx⟩ := attempt_cases h
        refine hI.of_result (.setRunFinalizationState _ _ _)
          (hP _ fun _ _ u ha => ?_) rfl hs hx
        cases ha
        exact .inr rfl
      · exact hI.of_call (.finishRun _ _ _ nowIso)
          (hP _ fun _ _ _ ha => by cases ha) hs h
  | noop =>
      cases h
      exact hs

theorem KeptBy.finishReview (hI : KeptBy dates registry P I)
    {event : OrcEvent} {time nowIso : String}
    (hP : ∀ runId agentId o now, P (.finishRun runId agentId o now))
    {s t : Project} {r : Except DomainError Unit} (hs : I s)
    (h : finishReview dates event time nowIso s = (r, t)) : I t :=
  hI.of_call (.finishRun _ _ _ nowIso) (hP _ _ _ _) hs h

end KeptBy

section CallInvariant

variable {I : Project → Prop}

theorem CallInvariant.keptBy (hI : CallInvariant dates registry I) :
    KeptBy dates registry (fun _ => True) I :=
  fun a s _ => hI a s

theorem CallInvariant.of_result {α : Type} {x : Op α} (a : Action)
    (hI : CallInvariant dates registry I)
    (ha : perform dates registry a = x >>= fun _ => pure ()) {s t : Project}
    {r : Except DomainError α} (hs : I s) (h : x s = (r, t)) : I t :=
  hI.keptBy.of_result a trivial ha hs h

theorem CallInvariant.applyAction (hI : CallInvariant dates registry I)
    {event : OrcEvent} {action : LifecycleAction} {claim : Option Claim}
    {nowIso : String} {s t : Project} {r : Except DomainError Unit} (hs : I s)
    (h : applyAction dates event action claim nowIso s = (r, t)) : I t :=
  hI.keptBy.applyAction (fun _ _ => trivial) hs h

theorem CallInvariant.finishReview (hI : CallInvariant dates registry I)
    {event : OrcEvent} {time nowIso : String} {s t : Project}
    {r : Except DomainError Unit} (hs : I s)
    (h : finishReview dates event time nowIso s = (r, t)) : I t :=
  hI.keptBy.finishReview (fun _ _ _ _ => trivial) hs h

end CallInvariant

/-! ## One delivery -/

/-- The renewal a heartbeat comes to does not look at the finalization. -/
theorem granted_congr {s t : Project} {r : Renewal} {claim claim' : Claim}
    (hfind : s.findClaim r.runId = some claim)
    (hfind' : t.findClaim r.runId = some claim')
    (hactive : claim'.active = claim.active)
    (hagent : claim'.agentId = claim.agentId)
    (hlease : claim'.leaseExpiresAt = claim.leaseExpiresAt) :
    r.granted dates t = r.granted dates s := by
  unfold Renewal.granted Renewal.accepted leasePassed
  rw [hfind, hfind']
  simp only [Option.bind_eq_bind, Option.bind_some, Option.map_bind]
  cases r.now with
  | none => rfl
  | some now =>
      simp only [Option.bind_some, Function.comp_apply, hactive, hagent, hlease]
      split <;> rfl

/-- The state is stored first, and the lease is extended if it was. -/
theorem claimsMoved_advance {event : OrcEvent} {state : FinalizationState}
    {delta : Int} {blocked : Option String} {extend : Option Int}
    {claim : Option Claim} {nowIso : String} {s t : Project}
    {r : Except DomainError Unit}
    (hbound : ∀ c, c ∈ s.events.runs → s.tasks.Bound c.runId)
    (h : applyAction dates event
      (.advanceFinalization state delta blocked extend) claim nowIso s =
        (r, t)) :
    ClaimsMoved dates
      ((LifecycleAction.advanceFinalization state delta blocked extend).touch
        dates s event claim nowIso) s t := by
  rcases bind_cases h with ⟨e, hx, -⟩ | ⟨c, m, hx, h⟩
  · exact .setRunFinalizationState hx rfl
  cases extend with
  | none =>
      cases h
      exact .setRunFinalizationState hx rfl
  | some ms =>
      obtain ⟨r', hbeat⟩ := attempt_cases h
      rcases setRunFinalizationState_cases hx with
        rfl | ⟨claim, hfind, -, -, hmut, htasks⟩
      · exact .heartbeat hbeat rfl
      have hfound := hmut.findClaim (fun _ => rfl) hfind
      refine (ClaimsMoved.setRunFinalizationState hx rfl).trans
        (.heartbeat hbeat ?_) (fun c' hc' => ?_) (fun id hb => ?_)
        fun _ _ _ h => h
      · exact (granted_congr (t := m)
          (r := ⟨event.runId.getD "", event.agentId.getD "",
            dates.parse nowIso, ms⟩) hfind hfound rfl rfl rfl).symm
      · obtain ⟨c₀, hc₀, ⟨-, rfl⟩ | ⟨-, rfl⟩⟩ := hmut.source hc'
        · exact hbound c₀ hc₀
        · exact hbound _ hc₀
      · rwa [htasks]

theorem claimsMoved_applyAction {event : OrcEvent} {action : LifecycleAction}
    {claim : Option Claim} {nowIso : String} {s t : Project}
    {r : Except DomainError Unit}
    (hbound : ∀ c, c ∈ s.events.runs → s.tasks.Bound c.runId)
    (h : applyAction dates event action claim nowIso s = (r, t)) :
    ClaimsMoved dates (action.touch dates s event claim nowIso) s t := by
  cases action with
  | setInputState requestedAt =>
      obtain ⟨r', hx⟩ := attempt_cases h
      exact .updateKept hx (fun _ => ⟨rfl, rfl, rfl⟩) fun _ => ⟨rfl, rfl, rfl⟩
  | startRun time => exact .startRun h
  | heartbeat time lease =>
      simp only [Coordinator.applyAction] at h
      split at h
      · rename_i hnewer
        obtain ⟨r', hx⟩ := attempt_cases h
        refine .heartbeat hx ?_
        rw [LifecycleAction.touch, LifecycleAction.renews, if_pos hnewer]
        rfl
      · cases h
        exact .of_runs rfl
  | advanceFinalization state delta blocked extend => exact claimsMoved_advance hbound h
  | clearInputState =>
      obtain ⟨r', hx⟩ := attempt_cases h
      exact .updateKept hx (fun _ => ⟨rfl, rfl, rfl⟩) fun _ => ⟨rfl, rfl, rfl⟩
  | finishRun success reason code policy time =>
      simp only [Coordinator.applyAction, read_bind] at h
      simp only [LifecycleAction.touch]
      split at h
      · rename_i hfails
        obtain ⟨r', hx⟩ := attempt_cases h
        rw [if_pos hfails]
        exact .setRunFinalizationState hx rfl
      · rename_i hfails
        rw [if_neg hfails]
        exact .finishRun h fun c hid => decide_eq_true hid
  | noop =>
      cases h
      exact .of_runs rfl

/-! ## Every step -/

theorem claimsMoved_resetSession {now : String} {s t : Project}
    {r : Except DomainError (Nat × Nat)}
    (h : resetVolatileRuntimeStateForSession dates now s = (r, t)) :
    ClaimsMoved dates { ends := Claim.active } s t := by
  rcases resetVolatileRuntimeStateForSession_commit h with
    rfl | ⟨m, r', hevents, -, hx⟩
  · exact .of_runs rfl
  rcases commitMutated_cases hx (fun _ => rfl) with ⟨-, rfl⟩ | ⟨-, hmut, -⟩
  · exact .of_runs (by rw [hevents])
  · rw [hevents] at hmut
    exact .of_ended hmut (fun c => .of_ended ⟨rfl, rfl, rfl⟩ rfl (.inl rfl) rfl)
      fun _ hp => hp

theorem claimsMoved_runStep {s t : Project} {l : RunLabel}
    (hbound : ∀ c, c ∈ s.events.runs → s.tasks.Bound c.runId)
    (h : runStep dates registry s l = some t) :
    ClaimsMoved dates (l.touch dates s) s t := by
  cases l with
  | call a =>
      simp only [Coordinator.runStep] at h
      split at h
      · cases h
        exact .perform hbound (Prod.eta _).symm
      · cases h
  | deliver event nowIso =>
      simp only [Coordinator.runStep] at h
      split at h
      · cases h
        exact claimsMoved_applyAction hbound (Prod.eta _).symm
      · cases h
  | finishReview event time nowIso =>
      simp only [Coordinator.runStep] at h
      split at h
      · cases h
        exact .finishRun (Prod.eta _).symm fun c hid => decide_eq_true hid
      · cases h
  | resetSession nowIso =>
      cases h
      exact claimsMoved_resetSession (Prod.eta _).symm

end OrcState.Coordinator
