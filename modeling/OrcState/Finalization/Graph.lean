import OrcState.Finalization.Handoff
import OrcState.Finalization.Moves

/-!
# The graph of finalization states

A finalization writes the states of its run without a look at the one stored.
What is stored there is known all the same: nobody else writes it while the
coordinator waits.  So the states follow one graph, provided that a finalization
is begun only from a state it was meant for.
-/

namespace OrcState.Finalization

open OrcState.Contract OrcState.Foundation OrcState.Store OrcState.Lifecycle
open OrcState.Coordinator OrcState.Foundation.Effect

variable {dates : DateApi} {cfg : CoordinatorConfig} {registry : Registry}

/-! ## The graph -/

def finalizationEdge : Option FinalizationState → FinalizationState → Bool
  | none, .awaitingFinalize => true
  | some .awaitingFinalize, .finalizeRebaseRequested => true
  | some .readyToMerge, .finalizeRebaseRequested => true
  | some .finalizeRebaseInProgress, .finalizeRebaseRequested => true
  | some .finalizeRebaseRequested, .finalizeRebaseInProgress => true
  | some .finalizeRebaseInProgress, .readyToMerge => true
  | some .awaitingFinalize, .prCreated => true
  | some .prCreated, .prReviewInProgress => true
  | some .prReviewInProgress, .prMerged => true
  | some .prReviewInProgress, .prFailed => true
  | some _, .blockedFinalize => true
  | _, _ => false

/-- A change of the state of an active claim, or its end. -/
def FollowsGraph (s t : Project) : Prop :=
  ∀ c, c ∈ s.events.runs → c.active = true →
    ∀ c', c' ∈ t.events.runs → c'.runId = c.runId →
      c'.finalizationState = c.finalizationState ∨
        (∃ state, c'.finalizationState = some state ∧
          finalizationEdge c.finalizationState state = true) ∨
        (c'.finalizationState = none ∧ c.state = .inProgress ∧
          c'.state ≠ .inProgress)

/-! ## The states a finalization is meant for -/

def mayOpenPr : Option FinalizationState → Bool
  | some .awaitingFinalize | some .prCreated => true
  | _ => false

def mayMergeDirectly : Option FinalizationState → Bool
  | some .awaitingFinalize | some .finalizeRebaseRequested |
    some .finalizeRebaseInProgress | some .readyToMerge => true
  | _ => false

/-- The states the path taken after the wait is meant for. -/
def meantFor (cfg : CoordinatorConfig) (f : FinalizeArgs) (w : World)
    (state : Option FinalizationState) : Bool :=
  match resolveMergeStrategy cfg (findTask w.project.backlog f.claim.taskRef)
  with
  | .pr => if truthy cfg.prProvider then mayOpenPr state else state.isSome
  | .direct => mayMergeDirectly state

/--
No run is reported ready to merge before its work is reported complete, and the
finalization of a run in progress goes on from its wait only in a state that the
path it takes is meant for.
-/
def Timely (cfg : CoordinatorConfig) (w : World) : Label → Prop
  | .deliver event _ =>
      event.event = .readyToMerge → ∀ c ∈ eventClaim w.project event,
        c.state = .inProgress → c.finalizationState ≠ none
  | .proceed _ _ =>
      match w.position with
      | .finalizing f .waiting =>
          ∀ c ∈ w.project.findClaim f.claim.runId, c.state = .inProgress →
            meantFor cfg f w c.finalizationState = true
      | _ => True
  | _ => True

instance (w : World) (l : Label) : Decidable (Timely cfg w l) := by
  unfold Timely
  split
  · infer_instance
  · split <;> infer_instance
  · infer_instance

/-! ## What a stage expects to find stored -/

def Stage.expects : Stage → Option FinalizationState → Bool
  | .viewing _ | .merging _ | .markingMerged => fun s =>
      s = some FinalizationState.prReviewInProgress
  | .waiting | .markingDone _ | .blocking _ _ => Option.isSome
  | .pushing | .listing | .creating | .storingRef _ | .storingCreatedAt |
    .markingCreated => mayOpenPr
  | .extending | .checkingSession | .sendingReview | .markingReview => fun s =>
      s = some FinalizationState.prCreated
  | .checkingMain | .mergingBranch | .requesting _ => mayMergeDirectly
  | .sendingRebase _ _ _ | .countingRetry _ => fun s =>
      s = some FinalizationState.finalizeRebaseRequested
  | _ => fun _ => true

def Stage.about (id : RunId) : Stage → Prop
  | .sendingRebase updated _ _ | .countingRetry updated => updated.runId = id
  | .blocking claim _ => claim.runId = id
  | _ => True

structure Expected (f : FinalizeArgs) (stage : Stage) (s : Project) : Prop where
  about : stage.about f.claim.runId
  going : Going f.claim (fun state => stage.expects state = true) s

def Unstarted (s : Project) : Prop :=
  ∀ c, c ∈ s.events.runs → c.state = .claimed → c.finalizationState = none

/-- The review of a run fails by an event that reports its end. -/
def EndsReview (w : World) : Prop :=
  ∀ event time, w.position = .reviewFailed event time →
    isEnding event.event = true

structure Steady (w : World) : Prop where
  sound : Sound w.project
  unstarted : Unstarted w.project
  stage : ∀ f stage, w.position = .finalizing f stage →
    Expected f stage w.project
  review : EndsReview w

/-! ## Changes along the graph -/

section Moved

variable {s t : Project} {touch : Touch}

theorem Unstarted.moved (h : Unstarted s) (hmoved : ClaimsMoved dates touch s t) :
    Unstarted t := by
  intro c' hc' hstate
  rcases hmoved.source c' hc' with ⟨c, hc, hmove⟩ | ⟨-, hnone, -⟩
  · obtain ⟨hclaimed, hsame⟩ := hmove.claimed hstate
    rw [hsame]
    exact h c hc hclaimed
  · exact hnone

theorem FollowsGraph.of_moved (hs : Sound s) (hunstarted : Unstarted s)
    (hmoved : ClaimsMoved dates touch s t)
    (hset : ∀ c, c ∈ s.events.runs → c.active = true → ∀ fin,
      touch.finalization = some (c.runId, fin) →
        ∃ state, fin = some state ∧ (c.finalizationState = some state ∨
          finalizationEdge c.finalizationState state = true)) :
    FollowsGraph s t := by
  intro c hc hactive c' hc' hid
  rcases hmoved.source c' hc' with ⟨c₀, hc₀, hmove⟩ | ⟨-, -, hnew, -⟩
  · obtain rfl : c₀ = c :=
      Table.eq_of_key hc₀ hc (hmove.runId.symm.trans hid)
    rcases hmove.finalization with hsame | ⟨hnone, hended⟩ | ⟨htouch, -⟩
    · exact .inl hsame
    · cases hstate : c₀.state with
      | claimed =>
          rw [hnone, hunstarted c₀ hc₀ hstate]
          exact .inl rfl
      | inProgress =>
          refine .inr (.inr ⟨hnone, rfl, fun hstarted => ?_⟩)
          rw [Claim.active, hstarted] at hended
          cases hended
      | done | failed =>
          rw [Claim.active, hstate] at hactive
          cases hactive
    · obtain ⟨state, hfin, hkept | hedge⟩ := hset c₀ hc₀ hactive _ htouch
      · exact .inl (hfin.trans hkept.symm)
      · exact .inr (.inl ⟨state, hfin, hedge⟩)
  · exact absurd (hs.bound c hc) (hid ▸ hnew)

theorem FollowsGraph.of_runs (h : t.events.runs = s.events.runs) :
    FollowsGraph s t := by
  intro c hc _ c' hc' hid
  rw [h] at hc'
  exact .inl (by rw [Table.eq_of_key hc' hc hid])

end Moved

theorem touch_of_other {a : Action} {s : Project} (h : ofCoordinator a ≠ true) :
    (a.touch dates s).finalization = none := by
  cases a with
  | setRunFinalizationState runId agentId u => exact absurd rfl h
  | _ => rfl

/-! ## Deliveries -/

/--
The reducer advances a run in progress along an edge, and counts a rebase when
its worker reports that it has started one.
-/
theorem reduceLifecycleEvent_advance {event : OrcEvent} {claim : Option Claim}
    {nowIso : String} {state : FinalizationState} {delta : Int}
    {blocked : Option String} {extend : Option Int}
    (h : reduceLifecycleEvent dates event claim nowIso =
      .advanceFinalization state delta blocked extend) :
    ∃ c, claim = some c ∧ c.state = .inProgress ∧
      finalizationEdge c.finalizationState state = true ∧
      ((event.event ≠ .finalizeRebaseStarted ∧ delta = 0) ∨
        (event.event = .finalizeRebaseStarted ∧ delta = 1 ∧
          c.finalizationState = some .finalizeRebaseRequested)) := by
  cases hevent : event.event with
  | finalizeRebaseStarted =>
      simp only [reduceLifecycleEvent, hevent, reduceRebaseStarted] at h
      split at h
      · cases h
      · rename_i c
        split at h
        · rename_i hguard
          cases h
          rw [Bool.and_eq_true, decide_eq_true_eq, decide_eq_true_eq] at hguard
          exact ⟨c, rfl, hguard.1, by rw [hguard.2]; rfl,
            .inr ⟨rfl, rfl, hguard.2⟩⟩
        · cases h
  | workComplete =>
      simp only [reduceLifecycleEvent, hevent, reduceWorkComplete] at h
      split at h
      · cases h
      · rename_i c hfilter
        split at h
        · cases h
        · rename_i hnone
          cases h
          rw [Option.not_isSome_iff_eq_none] at hnone
          obtain ⟨hclaim, hstate⟩ := Option.filter_eq_some_iff.mp hfilter
          exact ⟨c, hclaim, of_decide_eq_true hstate, by rw [hnone]; rfl,
            .inl ⟨by simp, rfl⟩⟩
  | readyToMerge =>
      simp only [reduceLifecycleEvent, hevent, reduceReadyToMerge] at h
      split at h
      · cases h
      · rename_i c hfilter
        split at h
        · rename_i hready
          cases h
          obtain ⟨hclaim, hstate⟩ := Option.filter_eq_some_iff.mp hfilter
          exact ⟨c, hclaim, of_decide_eq_true hstate, by rw [hready]; rfl,
            .inl ⟨by simp, rfl⟩⟩
        · cases h
  | inputRequested =>
      simp only [reduceLifecycleEvent, hevent] at h
      split at h <;> cases h
  | runStarted =>
      simp only [reduceLifecycleEvent, hevent, reduceRunStarted] at h
      split at h <;> cases h
  | heartbeat =>
      simp only [reduceLifecycleEvent, hevent, reduceHeartbeat] at h
      repeat' split at h
      all_goals cases h
  | inputResponse =>
      simp only [reduceLifecycleEvent, hevent] at h
      cases h
  | runFinished | runFailed =>
      simp only [reduceLifecycleEvent, hevent, reduceFinished] at h
      repeat' split at h
      all_goals cases h
  | _ =>
      simp only [reduceLifecycleEvent, hevent, reducePhase] at h
      repeat' split at h
      all_goals cases h

theorem eventClaim_eq_some {s : Project} {event : OrcEvent} {c : Claim}
    (h : eventClaim s event = some c) :
    s.findClaim (event.runId.getD "") = some c := by
  unfold eventClaim at h
  split at h
  · exact h
  · cases h

/-- A delivery stores a state that follows the one of its run. -/
theorem deliveryTouch_edge {event : OrcEvent} {nowIso : String} {s : Project}
    {c : Claim} (hc : c ∈ s.events.runs) {fin : Option FinalizationState}
    (h : (deliveryTouch dates s event nowIso).finalization =
      some (c.runId, fin)) :
    ∃ state, fin = some state ∧
      finalizationEdge c.finalizationState state = true := by
  unfold deliveryTouch at h
  cases haction : reduceLifecycleEvent dates event (eventClaim s event) nowIso
    with
  | advanceFinalization state delta blocked extend =>
      rw [haction] at h
      obtain ⟨hid, rfl⟩ := Prod.mk.inj (Option.some.inj h)
      obtain ⟨c₀, hclaim, -, hedge, -⟩ := reduceLifecycleEvent_advance haction
      obtain ⟨hc₀, hid₀⟩ := Table.find?_eq_some.mp (eventClaim_eq_some hclaim)
      obtain rfl : c₀ = c := Table.eq_of_key hc₀ hc (hid₀.trans hid)
      exact ⟨state, rfl, hedge⟩
  | finishRun success reason code policy time =>
      rw [haction] at h
      simp only [LifecycleAction.touch] at h
      split at h
      · rename_i hfails
        obtain ⟨hid, rfl⟩ := Prod.mk.inj (Option.some.inj h)
        have hfind : s.findClaim (event.runId.getD "") = some c :=
          Table.find?_eq_some.mpr ⟨hc, hid.symm⟩
        simp only [failsReview, hfind, Option.any_some, Bool.and_eq_true,
          decide_eq_true_eq] at hfails
        exact ⟨.prFailed, rfl, by rw [hfails.2.1]; rfl⟩
      · cases h
  | _ =>
      rw [haction] at h
      cases h

/-! ## The writes of a stage -/

theorem isSome_of_mayOpenPr {state : Option FinalizationState}
    (h : mayOpenPr state = true) : state.isSome = true := by
  cases state with
  | none => cases h
  | some _ => rfl

theorem isSome_of_mayMergeDirectly {state : Option FinalizationState}
    (h : mayMergeDirectly state = true) : state.isSome = true := by
  cases state with
  | none => cases h
  | some _ => rfl

theorem Expected.edge {f : FinalizeArgs} {stage : Stage} {s : Project}
    (h : Expected f stage s) {caller : Claim} {state : FinalizationState}
    {delta : Int} {reason : Option String}
    (hcaller : caller.runId = f.claim.runId)
    (hedge : ∀ fin, stage.expects fin = true →
      fin = some state ∨ finalizationEdge fin state = true)
    {c : Claim} (hc : c ∈ s.events.runs) (hactive : c.active = true)
    {fin : Option FinalizationState}
    (htouch : ((finalizationCall caller state delta reason).touch dates
      s).finalization = some (c.runId, fin)) :
    ∃ state, fin = some state ∧ (c.finalizationState = some state ∨
      finalizationEdge c.finalizationState state = true) := by
  obtain ⟨hid, rfl⟩ := Prod.mk.inj (Option.some.inj htouch)
  obtain ⟨-, -, hstored⟩ :=
    h.going.stored c hc (hid.symm.trans hcaller) hactive
  exact ⟨state, rfl, hedge _ hstored⟩

theorem edge_rebaseRequested {fin : Option FinalizationState}
    (h : mayMergeDirectly fin = true) :
    fin = some .finalizeRebaseRequested ∨
      finalizationEdge fin .finalizeRebaseRequested = true := by
  cases fin with
  | none => cases h
  | some state =>
      cases state <;> first | exact .inl rfl | exact .inr rfl | cases h

theorem edge_prCreated {fin : Option FinalizationState}
    (h : mayOpenPr fin = true) :
    fin = some .prCreated ∨ finalizationEdge fin .prCreated = true := by
  cases fin with
  | none => cases h
  | some state =>
      cases state <;> first | exact .inl rfl | exact .inr rfl | cases h

theorem edge_blockedFinalize {fin : Option FinalizationState}
    (h : fin.isSome = true) :
    finalizationEdge fin .blockedFinalize = true := by
  cases fin with
  | none => cases h
  | some state => cases state <;> rfl

theorem latestClaim_runId (f : FinalizeArgs) (w : World) :
    (latestClaim f w).runId = f.claim.runId := by
  unfold latestClaim
  cases hfind : w.project.findClaim f.claim.runId with
  | none => rfl
  | some c => exact (Table.find?_eq_some.mp hfind).2

theorem Expected.stageAction_edge {f : FinalizeArgs} {stage : Stage} {w : World}
    (h : Expected f stage w.project) {now : Int} {a : Action}
    (ha : stageAction dates cfg f now w stage = some a) {c : Claim}
    (hc : c ∈ w.project.events.runs) (hactive : c.active = true)
    {fin : Option FinalizationState}
    (htouch : (a.touch dates w.project).finalization = some (c.runId, fin)) :
    ∃ state, fin = some state ∧ (c.finalizationState = some state ∨
      finalizationEdge c.finalizationState state = true) := by
  cases stage with
  | markingMerged =>
      cases ha
      refine h.edge rfl (fun fin hfin => ?_) hc hactive htouch
      rw [of_decide_eq_true hfin]
      exact .inr rfl
  | markingCreated =>
      cases ha
      exact h.edge rfl (fun fin hfin => edge_prCreated hfin) hc hactive htouch
  | markingReview =>
      cases ha
      refine h.edge rfl (fun fin hfin => ?_) hc hactive htouch
      rw [of_decide_eq_true hfin]
      exact .inr rfl
  | requesting reason =>
      simp only [stageAction] at ha
      split at ha
      · cases ha
      · cases ha
        exact h.edge (latestClaim_runId f w)
          (fun fin hfin => edge_rebaseRequested hfin) hc hactive htouch
  | countingRetry updated =>
      cases ha
      refine h.edge h.about (fun fin hfin => ?_) hc hactive htouch
      exact .inl (of_decide_eq_true hfin)
  | blocking claim reason =>
      cases ha
      exact h.edge h.about (fun fin hfin => .inr (edge_blockedFinalize hfin)) hc
        hactive htouch
  | markingDone reviewed =>
      simp only [stageAction] at ha
      split at ha <;> cases ha
      cases htouch
  | storingRef prRef | storingCreatedAt | extending | finishing =>
      cases ha
      cases htouch
  | _ => cases ha

/-! ## The next stage -/

theorem World.attemptThen_position {α : Type} {w : World} {x : Op α}
    {next : World → World} {position : Position}
    (h : ∀ p, (next { w with project := p }).position = position) :
    (w.attemptThen x next).position = position := by
  unfold World.attemptThen World.attempt
  split
  · exact h _
  · exact h _

theorem Expected.hand {f : FinalizeArgs} {stage stage' : Stage} {s : Project}
    (h : Expected f stage s) (habout : stage'.about f.claim.runId)
    (hexpects : ∀ fin, stage.expects fin = true → stage'.expects fin = true) :
    Expected f stage' s :=
  ⟨habout, h.going.imp hexpects⟩

theorem Expected.call {f : FinalizeArgs} {stage stage' : Stage} {s : Project}
    (h : Expected f stage s) (hs : Sound s) (a : Action)
    (ha : (a.touch dates s).finalization = none)
    (habout : stage'.about f.claim.runId)
    (hexpects : ∀ fin, stage.expects fin = true → stage'.expects fin = true) :
    Expected f stage' (perform dates registry a s).2 := by
  refine ⟨habout, (h.going.call hs a fun fin hset => ?_).imp hexpects⟩
  rw [ha] at hset
  cases hset

theorem Expected.set {f : FinalizeArgs} {stage stage' : Stage} {s : Project}
    (h : Expected f stage s) (hs : Sound s) {caller : Claim}
    {state : FinalizationState} {delta : Int} {reason : Option String}
    (hid : caller.runId = f.claim.runId)
    (hagent : ∀ c, s.findClaim f.claim.runId = some c → c.active = true →
      c.agentId = caller.agentId)
    (habout : stage'.about f.claim.runId)
    (hexpects : stage'.expects (some state) = true) :
    Expected f stage' (perform dates registry
      (finalizationCall caller state delta reason) s).2 := by
  refine ⟨habout, (h.going.set hs hid hagent).imp fun fin hfin => ?_⟩
  rwa [hfin]

theorem latestClaim_agent {f : FinalizeArgs} {w : World} {c : Claim}
    (h : w.project.findClaim f.claim.runId = some c) :
    c.agentId = (latestClaim f w).agentId := by
  rw [latestClaim, h]
  rfl

theorem Expected.next_wait {f f' : FinalizeArgs} {stage' : Stage} {w : World}
    (h : Expected f .waiting w.project)
    (htimely : ∀ c ∈ w.project.findClaim f.claim.runId, c.state = .inProgress →
      meantFor cfg f w c.finalizationState = true)
    (hnext : (chooseStrategy cfg f w).position = .finalizing f' stage') :
    Expected f' stage' (chooseStrategy cfg f w).project := by
  have hmeant : ∀ {P : Option FinalizationState → Bool},
      (∀ fin, meantFor cfg f w fin = P fin) →
        Going f.claim (fun fin => P fin = true) w.project := by
    intro P hP
    refine ⟨h.going.bound, fun c hc hid hactive => ?_⟩
    obtain ⟨hstate, hagent, -⟩ := h.going.stored c hc hid hactive
    refine ⟨hstate, hagent, ?_⟩
    rw [← hP]
    exact htimely c (Table.find?_eq_some.mpr ⟨hc, hid⟩) hstate
  unfold chooseStrategy at hnext ⊢
  unfold meantFor at hmeant
  split at hnext
  · rename_i hpr
    simp only [hpr] at hmeant ⊢
    split at hnext
    · rename_i hprovider
      cases hnext
      rw [if_pos hprovider]
      refine ⟨trivial, hmeant fun fin => ?_⟩
      exact if_pos hprovider
    · rename_i hprovider
      cases hnext
      rw [if_neg hprovider]
      exact h.hand rfl fun _ hfin => hfin
  · rename_i hdirect
    simp only [hdirect] at hmeant ⊢
    cases hnext
    exact ⟨trivial, hmeant fun _ => rfl⟩

theorem Expected.next_request {f f' : FinalizeArgs} {stage' : Stage}
    {w : World} {reason : String} (h : Expected f (.requesting reason) w.project)
    (hs : Sound w.project)
    (hnext : (requestFinalizeRebase dates f reason w).position =
      .finalizing f' stage') :
    Expected f' stage' (requestFinalizeRebase dates f reason w).project := by
  by_cases hspent : 2 ≤ (latestClaim f w).finalizationRetryCount
  · rw [requestFinalizeRebase_spent hspent] at hnext ⊢
    cases hnext
    exact h.hand (latestClaim_runId f w) fun _ => isSome_of_mayMergeDirectly
  · rw [requestFinalizeRebase_asks hspent] at hnext ⊢
    split at hnext
    · rename_i updated p hx
      cases hnext
      have hset : (perform dates soloRegistry (finalizationCall (latestClaim f w)
          .finalizeRebaseRequested 0 none) w.project).2 = p :=
        (result_snd _ _ _).trans (congrArg Prod.snd hx)
      change Expected f _ p
      rw [← hset]
      refine h.set hs (latestClaim_runId f w)
        (fun c hfind _ => latestClaim_agent hfind) ?_ rfl
      obtain ⟨hid, -⟩ := setRunFinalizationState_returns hx
      exact hid.trans (latestClaim_runId f w)
    · cases hnext

theorem Expected.next {f f' : FinalizeArgs} {stage stage' : Stage} {w : World}
    {answer : Answer} {now : Int} (h : Expected f stage w.project) (hs : Sound w.project)
    (htimely : stage = .waiting →
      ∀ c ∈ w.project.findClaim f.claim.runId, c.state = .inProgress →
        meantFor cfg f w c.finalizationState = true)
    (hnext : (advance dates cfg f answer now w stage).position =
      .finalizing f' stage') :
    Expected f' stage'
      (advance dates cfg f answer now w stage).project := by
  have hisSome : ∀ {state : FinalizationState} {fin : Option FinalizationState},
      decide (fin = some state) = true → fin.isSome = true := by
    intro state fin hfin
    rw [of_decide_eq_true hfin]
    rfl
  have hown : ∀ c, w.project.findClaim f.claim.runId = some c →
      c.active = true → c.agentId = f.claim.agentId := by
    intro c hfind hactive
    obtain ⟨hc, hid⟩ := Table.find?_eq_some.mp hfind
    exact (h.going.stored c hc hid hactive).2.1
  cases stage with
  | waiting => exact h.next_wait (htimely rfl) hnext
  | requesting reason => exact h.next_request hs hnext
  | viewing prRef =>
      rw [advance_project soloRegistry]
      simp only [advance, viewPullRequest] at hnext
      split at hnext
      · split at hnext
        · cases hnext
          exact h.hand trivial fun _ hfin => hfin
        · cases hnext
          exact h.hand trivial fun _ hfin => hfin
      · cases hnext
        exact h.hand rfl fun _ => hisSome
  | merging prRef =>
      rw [advance_project soloRegistry]
      simp only [advance, mergePullRequest] at hnext
      split at hnext
      · cases hnext
        exact h.hand trivial fun _ hfin => hfin
      · cases hnext
        exact h.hand rfl fun _ => hisSome
  | pushing =>
      rw [advance_project soloRegistry]
      simp only [advance, pushTaskBranch] at hnext
      split at hnext
      · cases hnext
        exact h.hand trivial fun _ hfin => hfin
      · cases hnext
        exact h.hand rfl fun _ => isSome_of_mayOpenPr
  | listing =>
      rw [advance_project soloRegistry]
      simp only [advance, listPullRequests] at hnext
      split at hnext
      · split at hnext
        · cases hnext
          exact h.hand trivial fun _ hfin => hfin
        · cases hnext
          exact h.hand trivial fun _ hfin => hfin
      · cases hnext
        exact h.hand rfl fun _ => isSome_of_mayOpenPr
  | creating =>
      rw [advance_project soloRegistry]
      simp only [advance, createPullRequest] at hnext
      split at hnext
      · cases hnext
        exact h.hand trivial fun _ hfin => hfin
      · cases hnext
        exact h.hand rfl fun _ => isSome_of_mayOpenPr
  | checkingSession =>
      rw [advance_project soloRegistry]
      simp only [advance] at hnext
      split at hnext
      · cases hnext
        exact h.hand trivial fun _ hfin => hfin
      · cases hnext
        exact h.hand rfl fun _ => hisSome
  | sendingReview =>
      rw [advance_project soloRegistry]
      simp only [advance, reviewSent] at hnext
      split at hnext
      · cases hnext
        exact h.hand trivial fun _ hfin => hfin
      · cases hnext
        exact h.hand rfl fun _ => hisSome
  | checkingMain =>
      rw [advance_project soloRegistry]
      simp only [advance, checkMain] at hnext
      split at hnext
      · cases hnext
        exact h.hand trivial fun _ hfin => hfin
      · cases hnext
        exact h.hand trivial fun _ hfin => hfin
      · cases hnext
        exact h.hand trivial fun _ hfin => hfin
      · cases hnext
        exact h.hand rfl fun _ => isSome_of_mayMergeDirectly
  | mergingBranch =>
      rw [advance_project soloRegistry]
      simp only [advance, mergeTaskBranch] at hnext
      split at hnext
      · cases hnext
        exact h.hand trivial fun _ => isSome_of_mayMergeDirectly
      · cases hnext
        exact h.hand trivial fun _ hfin => hfin
  | sendingRebase updated hadPending reason =>
      rw [advance_project soloRegistry]
      simp only [advance, rebaseSent] at hnext
      split at hnext
      · cases hnext
        exact h.hand h.about fun _ hfin => hfin
      · split at hnext
        · cases hnext
          exact h.hand h.about fun _ => hisSome
        · cases hnext
  | pushingMain | notifying | cleaning =>
      rw [advance_project soloRegistry]
      cases hnext
      exact h.hand trivial fun _ _ => rfl
  | removingWorktree =>
      simp only [advance] at hnext
      split at hnext <;> cases hnext
  | releasing => cases hnext
  | markingMerged =>
      rw [advance_project soloRegistry]
      cases (World.attemptThen_position fun _ => rfl).symm.trans hnext
      exact h.set hs rfl hown trivial rfl
  | markingCreated =>
      rw [advance_project soloRegistry]
      cases (World.attemptThen_position fun _ => rfl).symm.trans hnext
      exact h.set hs rfl hown trivial rfl
  | storingCreatedAt =>
      rw [advance_project soloRegistry]
      cases (World.attemptThen_position fun _ => rfl).symm.trans hnext
      exact h.call hs _ rfl trivial fun _ hfin => hfin
  | extending =>
      rw [advance_project soloRegistry]
      cases (World.attemptThen_position fun _ => rfl).symm.trans hnext
      exact h.call hs _ rfl trivial fun _ hfin => hfin
  | markingReview | countingRetry updated =>
      cases (World.attemptThen_position fun _ => rfl).symm.trans hnext
  | storingRef prRef =>
      rw [advance_project soloRegistry]
      simp only [advance, World.attempt] at hnext
      split at hnext
      · cases hnext
        exact h.call hs _ rfl trivial fun _ hfin => hfin
      · cases hnext
        exact h.call hs _ rfl trivial fun _ hfin => hfin
  | finishing =>
      rw [advance_project soloRegistry]
      simp only [advance, finish, World.attempt] at hnext
      split at hnext
      · cases hnext
        exact h.call hs _ rfl trivial fun _ _ => rfl
      · cases hnext
  | blocking claim reason =>
      rw [advance_project soloRegistry]
      simp only [advance, World.attempt] at hnext
      split at hnext
      · cases hnext
        refine ⟨trivial, Going.imp (P := fun _ => True) ?_ fun _ _ => rfl⟩
        exact (h.going.imp fun _ _ => trivial).call hs _ fun _ _ => trivial
      · cases hnext
  | markingDone reviewed =>
      rw [advance_project soloRegistry]
      simp only [advance, markDone] at hnext
      simp only [stageAction]
      split at hnext
      · rename_i hdone
        rw [if_pos hdone]
        cases hnext
        cases reviewed <;> exact h.hand trivial fun _ _ => rfl
      · rename_i hdone
        rw [if_neg hdone]
        simp only [World.attempt] at hnext
        split at hnext
        · cases hnext
          cases reviewed <;> exact h.call hs _ rfl trivial fun _ _ => rfl
        · cases hnext
          exact h.call hs _ rfl rfl fun _ hfin => hfin

/-! ## The start of a finalization -/

theorem toFinalize_eq_some {event : OrcEvent} {s : Project} {claim : Claim}
    (h : toFinalize event s = some claim) :
    (event.event = .workComplete ∨ event.event = .readyToMerge) ∧
      eventClaim s event = some claim ∧ claim.state = .inProgress := by
  unfold toFinalize at h
  split at h
  · rename_i hevent
    obtain ⟨hclaim, hguard⟩ := Option.filter_eq_some_iff.mp h
    rw [Bool.and_eq_true, decide_eq_true_eq] at hguard
    exact ⟨hevent, hclaim, hguard.1⟩
  · cases h

theorem advanced_stored {event : OrcEvent} {state : FinalizationState}
    {delta : Int} {blocked : Option String} {extend : Option Int}
    {claim : Option Claim} {nowIso : String} {s t : Project} {c : Claim}
    (h : applyAction dates event
      (.advanceFinalization state delta blocked extend) claim nowIso s =
        (.ok (), t))
    (hs : Sound s) (hfind : t.findClaim (event.runId.getD "") = some c)
    (hactive : c.active = true) : c.finalizationState = some state := by
  rcases bind_cases h with ⟨e, -, he⟩ | ⟨updated, m, hx, h⟩
  · cases he
  obtain ⟨-, hstored, claim', -, -, rfl⟩ := setRunFinalizationState_returns hx
  cases extend with
  | none =>
      cases h
      cases hstored.symm.trans hfind
      rfl
  | some ms =>
      obtain ⟨r', hbeat⟩ := attempt_cases h
      have hmoved : ClaimsMoved dates
          { lease := Renewal.granted dates m ⟨event.runId.getD "",
              event.agentId.getD "", dates.parse nowIso, ms⟩ } m t :=
        .heartbeat hbeat rfl
      obtain ⟨hc, hid⟩ := Table.find?_eq_some.mp hfind
      obtain ⟨hm, hid'⟩ := Table.find?_eq_some.mp hstored
      rcases hmoved.source c hc with ⟨c₀, hc₀, hmove⟩ | ⟨-, -, hnew, -⟩
      · cases Table.eq_of_key hc₀ hm
          ((hmove.runId.symm.trans hid).trans hid'.symm)
        rcases hmove.finalization with hsame | ⟨-, hended⟩ | ⟨hset, -⟩
        · exact hsame
        · rw [hactive] at hended
          cases hended
        · cases hset
      · have hsound : Sound m := (sound_invariant dates soloRegistry).of_result
          (.setRunFinalizationState _ _ _) rfl hs hx
        have hknown : m.tasks.Bound c.runId := by
          have hb := hsound.bound _ hm
          rwa [hid', ← hid] at hb
        exact absurd hknown hnew

theorem toFinalize_started {event : OrcEvent} {nowIso : String} {s t : Project}
    {claim : Claim} (h : applyEvent dates event nowIso s = (.ok (), t))
    (hs : Sound s) (hfinalize : toFinalize event t = some claim)
    (htimely : event.event = .readyToMerge → ∀ c ∈ eventClaim s event,
      c.state = .inProgress → c.finalizationState ≠ none) :
    claim.finalizationState.isSome = true := by
  obtain ⟨hevent, hclaim, hstate⟩ := toFinalize_eq_some hfinalize
  have hactive : claim.active = true := by
    rw [Claim.active, hstate]
    rfl
  have hkept : ∀ {action : LifecycleAction}, action = .noop →
      applyAction dates event action (eventClaim s event) nowIso s =
        (.ok (), t) → eventClaim s event = some claim := by
    rintro action rfl happly
    cases happly
    exact hclaim
  have hadvanced : ∀ {state delta blocked extend},
      applyAction dates event (.advanceFinalization state delta blocked extend)
        (eventClaim s event) nowIso s = (.ok (), t) →
      claim.finalizationState.isSome = true := by
    intro state delta blocked extend happly
    rw [advanced_stored happly hs (eventClaim_eq_some hclaim) hactive]
    rfl
  replace h : applyAction dates event
      (reduceLifecycleEvent dates event (eventClaim s event) nowIso)
      (eventClaim s event) nowIso s = (.ok (), t) := h
  rcases hevent with hevent | hevent
  · simp only [reduceLifecycleEvent, hevent, reduceWorkComplete] at h
    split at h
    · rename_i hfilter
      have hsame := hkept rfl h
      rw [hsame, Option.filter_some, if_pos (decide_eq_true hstate)] at hfilter
      cases hfilter
    · rename_i c hfilter
      split at h
      · rename_i hsome
        have hsame := hkept rfl h
        obtain ⟨hc, -⟩ := Option.filter_eq_some_iff.mp hfilter
        cases hc.symm.trans hsame
        exact hsome
      · exact hadvanced h
  · have hstored : eventClaim s event = some claim →
        claim.finalizationState.isSome = true := fun hsame =>
      Option.isSome_iff_ne_none.mpr (htimely hevent claim hsame hstate)
    simp only [reduceLifecycleEvent, hevent, reduceReadyToMerge] at h
    split at h
    · exact hstored (hkept rfl h)
    · split at h
      · exact hadvanced h
      · exact hstored (hkept rfl h)

theorem Expected.start {claim : Claim} {eventSeq : Nat} {w : World}
    {f : FinalizeArgs} {stage : Stage} (hs : Sound w.project)
    (hfind : w.project.findClaim claim.runId = some claim)
    (hstate : claim.state = .inProgress)
    (hsome : claim.finalizationState.isSome = true)
    (hnext : (finalizeRun cfg claim eventSeq w).position =
      .finalizing f stage) : Expected f stage w.project := by
  have hgoing : ∀ {P : Option FinalizationState → Prop},
      P claim.finalizationState → Going claim P w.project :=
    fun hP => .of_claim hs hfind hstate hP
  unfold finalizeRun at hnext
  split at hnext
  · cases hnext
    exact ⟨rfl, hgoing hsome⟩
  · dsimp only at hnext
    split at hnext
    · rename_i hreview
      split at hnext
      · cases hnext
        exact ⟨trivial, hgoing (decide_eq_true hreview)⟩
      · cases hnext
        exact ⟨rfl, hgoing hsome⟩
    · cases hnext
      exact ⟨trivial, hgoing hsome⟩

/-! ## Every step -/

theorem unstarted_invariant :
    CallInvariant dates registry fun s => Sound s ∧ Unstarted s := by
  rintro a s ⟨hs, hunstarted⟩
  exact ⟨sound_invariant dates registry a s hs,
    hunstarted.moved (.perform hs.bound (Prod.eta _).symm)⟩

/-- The coordinator's own steps follow the graph. -/
theorem Steady.follows_proceed {w w' : World} {answer : Answer} {now : Int}
    (h : Steady w)
    (hstep : step dates cfg registry w (.proceed answer now) = some w') :
    FollowsGraph w.project w'.project := by
  simp only [step] at hstep
  split at hstep
  · cases hstep
  · rename_i event time hposition
    cases hstep
    rw [endReview_project]
    have hmoved : ClaimsMoved dates { ends := fun _ => true } w.project
        (finishReview dates event time (dates.toISOString now) w.project).2 :=
      .finishRun (Prod.eta _).symm fun _ _ => rfl
    refine .of_moved h.sound h.unstarted hmoved fun _ _ _ _ hset => ?_
    cases hset
  · rename_i f stage hposition
    cases hstep
    rw [advance_project registry]
    split
    · exact .of_runs rfl
    · rename_i a ha
      exact .of_moved h.sound h.unstarted
        (.perform h.sound.bound (Prod.eta _).symm)
        fun c hc hactive fin htouch =>
          (h.stage f stage hposition).stageAction_edge ha hc hactive htouch

theorem Steady.follows {w w' : World} {l : Label} (h : Steady w)
    (hstep : step dates cfg registry w l = some w') :
    FollowsGraph w.project w'.project := by
  cases l with
  | call a =>
      simp only [step] at hstep
      split at hstep
      · cases hstep
      · rename_i hother
        cases hstep
        refine .of_moved h.sound h.unstarted
          (.perform h.sound.bound (Prod.eta _).symm) fun _ _ _ _ hset => ?_
        rw [touch_of_other hother] at hset
        cases hset
  | worktree runId =>
      cases hstep
      exact .of_runs rfl
  | deliver event nowIso =>
      simp only [step] at hstep
      split at hstep
      · cases hstep
        rw [processEvent_project]
        refine .of_moved h.sound h.unstarted
          (claimsMoved_applyAction h.sound.bound (Prod.eta _).symm)
          fun c hc _ fin hset => ?_
        obtain ⟨state, hfin, hedge⟩ := deliveryTouch_edge hc hset
        exact ⟨state, hfin, .inr hedge⟩
      · cases hstep
  | retry runId live =>
      simp only [step] at hstep
      repeat' split at hstep
      all_goals cases hstep
      refine .of_runs ?_
      unfold handleFinalizationRetry
      dsimp only
      split <;> rfl
  | proceed answer now => exact h.follows_proceed hstep
  | crash =>
      cases hstep
      exact .of_runs rfl

theorem afterApplied_position {event : OrcEvent} {w : World} {f : FinalizeArgs}
    {stage : Stage}
    (h : (afterApplied cfg event w).position = .finalizing f stage) :
    ∃ claim w₁, w₁.project = w.project ∧
      toFinalize event w.project = some claim ∧
      (finalizeRun cfg claim event.seq w₁).position = .finalizing f stage := by
  have hdropped : (if isRunEnd event then
      w.dropWorktree (event.runId.getD "") else w).project = w.project := by
    split <;> rfl
  unfold afterApplied at h
  dsimp only at h
  rw [hdropped] at h
  split at h
  · rename_i claim hclaim
    exact ⟨claim, _, hdropped, hclaim, h⟩
  · cases h

theorem finalizeRun_position (cfg : CoordinatorConfig) (claim : Claim)
    (eventSeq : Nat) (w : World) :
    ∃ f stage, (finalizeRun cfg claim eventSeq w).position =
      .finalizing f stage := by
  unfold finalizeRun
  split
  · exact ⟨_, _, rfl⟩
  · dsimp only
    split
    · split
      · exact ⟨_, _, rfl⟩
      · exact ⟨_, _, rfl⟩
    · exact ⟨_, _, rfl⟩

/-- A stage ends the finalization or leads to another of the same. -/
theorem advance_position (f : FinalizeArgs) (answer : Answer) (now : Int)
    (w : World) (stage : Stage) :
    (advance dates cfg f answer now w stage).position = .idle ∨
      ∃ stage', (advance dates cfg f answer now w stage).position =
        .finalizing f stage' := by
  cases stage <;>
    simp only [advance, viewPullRequest, mergePullRequest, chooseStrategy,
      pushTaskBranch, listPullRequests, createPullRequest, reviewSent, checkMain,
      mergeTaskBranch, rebaseSent, requestFinalizeRebase, markDone, finish,
      World.attemptThen, World.attempt] <;>
    repeat' split
  all_goals first | exact .inl rfl | exact .inr ⟨_, rfl⟩

/-- A failed review leads to no finalization: its event reports an end. -/
theorem endReview_position {event : OrcEvent} {time nowIso : String}
    {w : World} (hending : isEnding event.event = true) :
    (endReview dates cfg event time nowIso w).position = .idle := by
  have hnone : ∀ s, toFinalize event s = none := by
    intro s
    cases hfinalize : toFinalize event s with
    | none => rfl
    | some claim =>
        obtain ⟨hevent | hevent, -⟩ := toFinalize_eq_some hfinalize
        · rw [hevent] at hending
          cases hending
        · rw [hevent] at hending
          cases hending
  unfold endReview World.attempt
  split
  · unfold afterApplied
    dsimp only
    rw [hnone]
    rfl
  · rfl

theorem Steady.stage_deliver {w : World} {event : OrcEvent} {nowIso : String}
    {f : FinalizeArgs} {stage : Stage} (h : Steady w)
    (htimely : event.event = .readyToMerge → ∀ c ∈ eventClaim w.project event,
      c.state = .inProgress → c.finalizationState ≠ none)
    (hidle : w.position = .idle)
    (hnext : (processEvent dates cfg event nowIso w).position =
      .finalizing f stage) :
    Expected f stage (processEvent dates cfg event nowIso w).project := by
  have hsound : Sound (processEvent dates cfg event nowIso w).project := by
    rw [processEvent_project]
    exact (sound_invariant dates soloRegistry).applyAction h.sound
      (Prod.eta _).symm
  unfold processEvent at hnext hsound ⊢
  split at hnext
  · rename_i e p hx
    cases hidle.symm.trans hnext
  · rename_i p hx
    simp only [hx] at hsound ⊢
    split at hnext
    · cases hnext
    · rename_i hreview
      rw [hreview] at hsound
      dsimp only at hsound
      rw [afterApplied_project] at hsound ⊢
      obtain ⟨claim, w₁, hproject, hfinalize, hstart⟩ :=
        afterApplied_position hnext
      obtain ⟨-, hclaim, hstate⟩ := toFinalize_eq_some hfinalize
      have hfind := eventClaim_eq_some hclaim
      rw [← hproject] at hsound hfind ⊢
      refine Expected.start hsound ?_ hstate
        (toFinalize_started hx h.sound hfinalize htimely) hstart
      rwa [(Table.find?_eq_some.mp hfind).2]

theorem Steady.stage_step {w w' : World} {l : Label} {f : FinalizeArgs}
    {stage : Stage} (h : Steady w) (hok : Timely cfg w l)
    (hstep : step dates cfg registry w l = some w')
    (hnext : w'.position = .finalizing f stage) :
    Expected f stage w'.project := by
  cases l with
  | call a =>
      simp only [step] at hstep
      split at hstep
      · cases hstep
      · rename_i hother
        cases hstep
        have hstage := h.stage f stage hnext
        exact hstage.call h.sound a (touch_of_other hother) hstage.about
          fun _ hfin => hfin
  | worktree runId =>
      cases hstep
      exact h.stage f stage hnext
  | deliver event nowIso =>
      simp only [step] at hstep
      split at hstep
      · rename_i hguard
        cases hstep
        exact h.stage_deliver hok hguard.1 hnext
      · cases hstep
  | retry runId live =>
      simp only [step] at hstep
      repeat' split at hstep
      all_goals cases hstep
      rename_i claim hidle hfind hretries
      simp only [retries, Bool.and_eq_true, Bool.or_eq_true,
        decide_eq_true_eq] at hretries
      have hid := (Table.find?_eq_some.mp hfind).2
      rw [← hid] at hfind
      have hgoing : ∀ {P : Option FinalizationState → Prop},
          P claim.finalizationState → Going claim P w.project :=
        fun hP => .of_claim h.sound hfind hretries.1 hP
      unfold handleFinalizationRetry at hnext ⊢
      dsimp only at hnext ⊢
      split at hnext
      · rename_i hlive
        rw [if_pos hlive]
        cases hnext
        refine ⟨trivial, hgoing ?_⟩
        rcases hretries.2 with hstate | hstate <;> rw [hstate] <;> rfl
      · rename_i hlive
        rw [if_neg hlive]
        cases hnext
        refine ⟨rfl, hgoing ?_⟩
        rcases hretries.2 with hstate | hstate <;> rw [hstate] <;> rfl
  | proceed answer now =>
      simp only [step] at hstep
      split at hstep
      · cases hstep
      · rename_i event time hposition
        cases hstep
        rw [endReview_position (h.review event time hposition)] at hnext
        cases hnext
      · rename_i f₀ stage₀ hposition
        cases hstep
        refine (h.stage f₀ stage₀ hposition).next h.sound ?_ hnext
        rintro rfl
        simp only [Timely, hposition] at hok
        exact hok
  | crash =>
      cases hstep
      cases hnext

theorem review_step {w w' : World} {l : Label} {event : OrcEvent}
    {time : String} (h : EndsReview w)
    (hstep : step dates cfg registry w l = some w')
    (hnext : w'.position = .reviewFailed event time) :
    isEnding event.event = true := by
  cases l with
  | call a =>
      simp only [step] at hstep
      split at hstep <;> cases hstep
      exact h event time hnext
  | worktree runId =>
      cases hstep
      exact h event time hnext
  | deliver delivered nowIso =>
      simp only [step] at hstep
      split at hstep
      · rename_i hguard
        cases hstep
        unfold processEvent at hnext
        split at hnext
        · cases hguard.1.symm.trans hnext
        · split at hnext
          · rename_i hreview
            cases hnext
            unfold failedReview at hreview
            dsimp only at hreview
            split at hreview
            · rename_i hreduce
              exact (reduceLifecycleEvent_finish hreduce).1
            · cases hreview
          · rename_i u p _ _ _
            unfold afterApplied at hnext
            dsimp only at hnext
            split at hnext
            · rename_i claim hclaim
              obtain ⟨f, stage, hposition⟩ := finalizeRun_position cfg claim
                delivered.seq _
              cases hposition.symm.trans hnext
            · cases hnext
      · cases hstep
  | retry runId live =>
      simp only [step] at hstep
      repeat' split at hstep
      all_goals cases hstep
      unfold handleFinalizationRetry at hnext
      dsimp only at hnext
      split at hnext <;> cases hnext
  | proceed answer now =>
      simp only [step] at hstep
      split at hstep
      · cases hstep
      · rename_i event' time' hposition
        cases hstep
        rw [endReview_position (h event' time' hposition)] at hnext
        cases hnext
      · rename_i f stage hposition
        cases hstep
        rcases advance_position f answer now w stage with
          hidle | ⟨stage', hstage⟩
        · cases hidle.symm.trans hnext
        · cases hstage.symm.trans hnext
  | crash =>
      cases hstep
      cases hnext

theorem Steady.step {w w' : World} {l : Label} (h : Steady w)
    (hok : Timely cfg w l) (hstep : step dates cfg registry w l = some w') :
    Steady w' := by
  obtain ⟨hsound, hunstarted⟩ :=
    step_keeps unstarted_invariant ⟨h.sound, h.unstarted⟩ hstep
  exact ⟨hsound, hunstarted, fun f stage => h.stage_step hok hstep,
    fun event time => review_step h.review hstep⟩

theorem Steady.initial {w : World} (h : NeverFinalized w) : Steady w := by
  refine ⟨.fresh h.project, fun c hc _ => ?_, fun f stage hposition => ?_,
    fun event time hposition => ?_⟩
  · rw [Table.mem_rows, h.project.runs] at hc
    cases hc
  · cases h.position.symm.trans hposition
  · cases h.position.symm.trans hposition

theorem Steady.reachable {w : World}
    (h : (finalizationSystem dates cfg registry).ReachableUnder (Timely cfg)
      w) : Steady w :=
  h.invariant (fun _ hw => .initial hw) fun _ _ _ _ hs hok hstep =>
    hs.step hok hstep

/-! ## Every run -/

/--
Along every run whose finalizations are begun in time, the finalization states
of active claims follow the graph.
-/
theorem finalization_follows_graph (dates : DateApi) (cfg : CoordinatorConfig)
    (registry : Registry) {w w' : World} {l : Label}
    (h : (finalizationSystem dates cfg registry).ReachableUnder (Timely cfg) w)
    (hstep : (finalizationSystem dates cfg registry).step w l = some w') :
    FollowsGraph w.project w'.project :=
  (Steady.reachable h).follows hstep

def finalizations (s : Project) :
    List (RunId × ClaimState × Option FinalizationState) :=
  s.claims.map fun c => (c.runId, c.state, c.finalizationState)

theorem run_then_step {w : World} {labels : List Label} {l : Label}
    {before after : List (RunId × ClaimState × Option FinalizationState)}
    (hrun : ((finalizationSystem dates cfg registry).run w labels).map
      (fun t => finalizations t.project) = some before)
    (hstep : (((finalizationSystem dates cfg registry).run w labels).bind
      fun t => (finalizationSystem dates cfg registry).step t l).map
        (fun t => finalizations t.project) = some after) :
    ∃ t t', (finalizationSystem dates cfg registry).run w labels = some t ∧
      (finalizationSystem dates cfg registry).step t l = some t' ∧
      finalizations t.project = before ∧ finalizations t'.project = after := by
  obtain ⟨t, ht, hbefore⟩ := Option.map_eq_some_iff.mp hrun
  obtain ⟨t', ht', hafter⟩ := Option.map_eq_some_iff.mp hstep
  rw [ht] at ht'
  exact ⟨t, t', ht, ht', hbefore, hafter⟩

/-- Up to the message that asks for the review, and its record. -/
theorem finalization_follows_graph_review :
    ∃ w w', (finalizationSystem dayDates prConfig soloRegistry).run oneTaskWorld
        (workDone ++ proceedAll 4000 (opened ++ List.replicate 6 .done)) =
          some w ∧
      (finalizationSystem dayDates prConfig soloRegistry).step w
        (.proceed .done 4000) = some w' ∧
      finalizations w.project = [("run-1", .inProgress, some .prCreated)] ∧
      finalizations w'.project =
        [("run-1", .inProgress, some .prReviewInProgress)] ∧
      FollowsGraph w.project w'.project := by
  have halong : (finalizationSystem dayDates prConfig soloRegistry).Along
      (Timely prConfig) oneTaskWorld
      (workDone ++ proceedAll 4000 (opened ++ List.replicate 6 .done)) := by
    decide +kernel
  obtain ⟨w, w', hw, hw', hbefore, hafter⟩ :
      ∃ w w', (finalizationSystem dayDates prConfig soloRegistry).run
          oneTaskWorld (workDone ++
            proceedAll 4000 (opened ++ List.replicate 6 .done)) = some w ∧
        (finalizationSystem dayDates prConfig soloRegistry).step w
          (.proceed .done 4000) = some w' ∧
        finalizations w.project = [("run-1", .inProgress, some .prCreated)] ∧
        finalizations w'.project =
          [("run-1", .inProgress, some .prReviewInProgress)] :=
    run_then_step (by decide +kernel) (by decide +kernel)
  exact ⟨w, w', hw, hw', hbefore, hafter,
    finalization_follows_graph dayDates prConfig soloRegistry
      ((System.ReachableUnder.initial neverFinalized_oneTask).run halong hw)
      hw'⟩

/-! ## A blocked run that a report unblocks -/

def secondReport : OrcEvent :=
  { completeEvent with seq := 4, ts := dayDates.toISOString 5000 }

/--
The branch cannot be pushed and the finalization is blocked; the worker reports
its work complete again, and the pull request is created.
-/
def blockedThenReported : List Label :=
  workDone ++ proceedAll 4000 [.done, .failed "offline", .done, .done] ++
    [.call (.applyLifecycle (.progress
      { event := .workComplete, runId := "run-1", agentId := "worker" })
      (dayDates.toISOString 5000)),
     .deliver secondReport (dayDates.toISOString 6000)] ++
    proceedAll 7000 (opened ++ [.done, .done])

theorem not_followsGraph_blocked :
    ∃ w w', (finalizationSystem dayDates prConfig soloRegistry).run oneTaskWorld
        blockedThenReported = some w ∧
      (finalizationSystem dayDates prConfig soloRegistry).Reachable w ∧
      (finalizationSystem dayDates prConfig soloRegistry).step w
        (.proceed .done 7000) = some w' ∧
      finalizations w.project =
        [("run-1", .inProgress, some .blockedFinalize)] ∧
      finalizations w'.project = [("run-1", .inProgress, some .prCreated)] ∧
      ¬ FollowsGraph w.project w'.project := by
  obtain ⟨w, w', hw, hw', hbefore, hafter⟩ :
      ∃ w w', (finalizationSystem dayDates prConfig soloRegistry).run
          oneTaskWorld blockedThenReported = some w ∧
        (finalizationSystem dayDates prConfig soloRegistry).step w
          (.proceed .done 7000) = some w' ∧
        finalizations w.project =
          [("run-1", .inProgress, some .blockedFinalize)] ∧
        finalizations w'.project = [("run-1", .inProgress, some .prCreated)] :=
    run_then_step (by decide +kernel) (by decide +kernel)
  refine ⟨w, w', hw, (System.Reachable.initial neverFinalized_oneTask).run hw,
    hw', hbefore, hafter, fun hfollows => ?_⟩
  obtain ⟨c, hc, hclaim⟩ := List.mem_map.mp (hbefore ▸ List.mem_singleton.mpr
    rfl : ("run-1", ClaimState.inProgress, some .blockedFinalize) ∈
      finalizations w.project)
  obtain ⟨c', hc', hclaim'⟩ := List.mem_map.mp (hafter ▸ List.mem_singleton.mpr
    rfl : ("run-1", ClaimState.inProgress, some .prCreated) ∈
      finalizations w'.project)
  simp only [Prod.mk.injEq] at hclaim hclaim'
  obtain ⟨hid, hstate, hfin⟩ := hclaim
  obtain ⟨hid', hstate', hfin'⟩ := hclaim'
  have hactive : c.active = true := by
    rw [Claim.active, hstate]
    rfl
  have hmoved := hfollows c hc hactive c' hc' (hid'.trans hid.symm)
  rw [hfin, hfin'] at hmoved
  rcases hmoved with hsame | ⟨state, hset, hedge⟩ | ⟨hnone, -⟩
  · cases hsame
  · cases hset
    cases hedge
  · cases hnone

end OrcState.Finalization
