import OrcState.Coordinator.Reducer
import OrcState.Lifecycle.Agreement
import OrcState.Lifecycle.Endings

/-!
# Every run ends once, and the log says so once

The runs of a project under every operation, with the events of its log handed
to the coordinator at any time and any number of times.
-/

namespace OrcState.Coordinator

open OrcState.Contract OrcState.Foundation OrcState.Store OrcState.Lifecycle
open OrcState.Foundation.Effect

variable {dates : DateApi} {registry : Registry}

/-! ## The system -/

inductive RunLabel where
  | call (action : Action)
  | deliver (event : OrcEvent) (nowIso : String)
  | finishReview (event : OrcEvent) (time nowIso : String)
  | resetSession (nowIso : String)

instance (a : Action) : Decidable (LogsFinish a) := by
  unfold LogsFinish
  split <;> infer_instance

def runStep (dates : DateApi) (registry : Registry) (s : Project) :
    RunLabel → Option Project
  | .call a =>
      if LogsFinish a then some (perform dates registry a s).2 else none
  | .deliver event nowIso =>
      if event ∈ s.events.events then
        some (applyEvent dates event nowIso s).2
      else none
  | .finishReview event time nowIso =>
      if event ∈ s.events.events ∧ event.event = .runFailed ∧
          truthy event.runId = true then
        some (finishReview dates event time nowIso s).2
      else none
  | .resetSession nowIso =>
      some (resetVolatileRuntimeStateForSession dates nowIso s).2

/-- A project without runs whose log tells of none. -/
structure NeverRun (s : Project) : Prop where
  fresh : Fresh s
  quiet : ∀ e ∈ s.events.events, isEnding e.event = false

def runSystem (dates : DateApi) (registry : Registry) :
    System Project RunLabel where
  initial := NeverRun
  step := runStep dates registry

/-! ## The invariant -/

structure Announced (s : Project) : Prop where
  once : ∀ id, s.endings id ≤ 1
  running : ∀ id, s.live id = true → s.endings id = 0
  unbound : ∀ id, ¬ s.tasks.Bound id → s.endings id = 0
  ended : ∀ c, c ∈ s.events.runs → c.active = false → s.endings c.runId = 1
  rows : ∀ c, c ∈ s.events.runs → s.tasks.Bound c.runId
  one : OneActive s.events.runs

theorem Announced.counted {s t : Project} (hs : Announced s)
    (h : Accounted s t) (id : RunId) :
    t.endings id = if s.live id && !t.live id then 1 else s.endings id := by
  rw [h.counted id]
  split
  · rename_i hended
    rw [Bool.and_eq_true] at hended
    rw [hs.running id hended.1]
  · rfl

theorem Announced.step {s t : Project} (hs : Announced s)
    (h : Accounted s t) : Announced t := by
  have hlive : ∀ id, t.live id = true → t.endings id = 0 := by
    intro id hlive
    rw [hs.counted h, hlive, Bool.not_true, Bool.and_false]
    rcases h.born id hlive with hbefore | hfree
    · exact hs.running id hbefore
    · exact hs.unbound id hfree
  refine ⟨fun id => ?_, hlive, fun id hfree => ?_, fun c hc hended => ?_,
    fun c hc => ?_, h.one hs.one⟩
  · rw [hs.counted h]
    split
    · exact Nat.le_refl 1
    · exact hs.once id
  · have hbefore : ¬ s.tasks.Bound id := fun hb => hfree (h.bound id hb)
    have hdead : s.live id = false := by
      refine Bool.eq_false_iff.mpr fun hlive => hbefore ?_
      obtain ⟨c, hc, rfl, -⟩ := live_iff.mp hlive
      exact hs.rows c hc
    rw [hs.counted h, hdead, Bool.false_and]
    exact hs.unbound id hbefore
  · have hdead : t.live c.runId = false := by
      refine Bool.eq_false_iff.mpr fun hlive => ?_
      obtain ⟨c', hc', hid, ha⟩ := live_iff.mp hlive
      rw [Table.eq_of_key hc' hc hid, hended] at ha
      cases ha
    rcases h.source c hc with ⟨c₀, hc₀, hid⟩ | ⟨ha, -⟩
    · rw [hs.counted h, hdead, Bool.not_false, Bool.and_true, ← hid]
      split
      · rfl
      · rename_i hnot
        refine hs.ended c₀ hc₀ (Bool.eq_false_iff.mpr fun ha => hnot ?_)
        exact live_iff.mpr ⟨c₀, hc₀, rfl, ha⟩
    · rw [hended] at ha
      cases ha
  · rcases h.source c hc with ⟨c₀, hc₀, hid⟩ | ⟨-, hb⟩
    · exact hid ▸ h.bound _ (hs.rows c₀ hc₀)
    · exact hb

theorem Announced.fresh {s : Project} (h : NeverRun s) : Announced s := by
  have hnone : ∀ c, ¬ c ∈ s.events.runs := by
    intro c hc
    rw [Table.mem_rows, h.fresh.runs] at hc
    cases hc
  have hquiet : ∀ id, s.endings id = 0 := by
    intro id
    refine List.countP_eq_zero.mpr fun e he => ?_
    rw [not_endsRun (h.quiet e he)]
    exact Bool.false_ne_true
  refine ⟨fun id => ?_, fun id _ => hquiet id, fun id _ => hquiet id,
    fun c hc => absurd hc (hnone c), fun c hc => absurd hc (hnone c),
    fun c hc => absurd hc (hnone c)⟩
  rw [hquiet]
  exact Nat.zero_le 1

/-! ## One delivery -/

theorem attempt_cases {α : Type} {x : Op α} {s t : Project}
    {r : Except DomainError Unit} (h : attempt x s = (r, t)) :
    ∃ r', x s = (r', t) := by
  unfold attempt catching at h
  split at h
  · rename_i u m hx
    cases h
    obtain ⟨r', hx, -⟩ := result_cases hx
    exact ⟨r', hx⟩
  · rename_i e m hx
    cases h
    obtain ⟨r', hx, -⟩ := result_cases hx
    exact ⟨r', hx⟩

theorem Announced.not_live {s : Project} (hs : Announced s) {event : OrcEvent}
    (h : event ∈ s.events.events) (hending : isEnding event.event = true)
    {id : RunId} (hid : event.runId = some id) : s.live id = false := by
  refine Bool.eq_false_iff.mpr fun hlive => ?_
  have hzero := List.countP_eq_zero.mp (hs.running id hlive) event h
  simp [endsRun, hending, hid] at hzero

/-- The account of a delivery: one or two calls, none of which ends a run. -/
theorem applyAction_accounted {event : OrcEvent} {action : LifecycleAction}
    {claim : Option Claim} {nowIso : String} {s t : Project}
    {r : Except DomainError Unit}
    (h : applyAction dates event action claim nowIso s = (r, t))
    (hfinish : ∀ success reason code policy time,
      action = .finishRun success reason code policy time →
        s.live (event.runId.getD "") = false) :
    ∃ m, Accounted s m ∧ Accounted m t := by
  have hdone : Accounted s t → ∃ m, Accounted s m ∧ Accounted m t :=
    fun h => ⟨t, h, .refl t⟩
  cases action with
  | setInputState requestedAt =>
      obtain ⟨r', hx⟩ := attempt_cases h
      exact hdone (.updateClaim hx (fun _ => rfl) fun _ => rfl)
  | startRun time => exact hdone (.startRun h)
  | heartbeat time lease =>
      simp only [applyAction] at h
      split at h
      · obtain ⟨r', hx⟩ := attempt_cases h
        exact hdone (.heartbeat hx)
      · cases h
        exact hdone (.refl _)
  | advanceFinalization state delta blocked extend =>
      have hset : ∀ {m : Project} {r' : Except DomainError Claim},
          setRunFinalizationState dates (event.runId.getD "")
            (event.agentId.getD "")
            { finalizationState := some state, retryCountDelta := delta
              blockedReason := blocked } s = (r', m) → Accounted s m :=
        fun hx => .updateClaim hx (fun _ => rfl) fun _ => rfl
      rcases bind_cases h with ⟨e, hx, -⟩ | ⟨c, m, hx, h⟩
      · exact hdone (hset hx)
      · refine ⟨m, hset hx, ?_⟩
        cases extend with
        | none =>
            cases h
            exact .refl _
        | some ms =>
            obtain ⟨r', hx⟩ := attempt_cases h
            exact .heartbeat hx
  | clearInputState =>
      obtain ⟨r', hx⟩ := attempt_cases h
      exact hdone (.updateClaim hx (fun _ => rfl) fun _ => rfl)
  | finishRun success reason code policy time =>
      have hdead := hfinish success reason code policy time rfl
      simp only [applyAction, read_bind] at h
      split at h
      · obtain ⟨r', hx⟩ := attempt_cases h
        exact hdone (.updateClaim hx (fun _ => rfl) fun _ => rfl)
      · refine hdone (.finishRun h fun hlive => ?_)
        rw [hdead] at hlive
        cases hlive
  | noop =>
      cases h
      exact hdone (.refl _)

theorem reduceLifecycleEvent_finish {event : OrcEvent} {claim : Option Claim}
    {nowIso : String} {success : Bool} {reason code : Option String}
    {policy time : String}
    (h : reduceLifecycleEvent dates event claim nowIso =
      .finishRun success reason code policy time) :
    isEnding event.event = true ∧ ∃ c, claim = some c ∧ c.active = true := by
  have hfinished : reduceFinished dates event claim nowIso =
      .finishRun success reason code policy time →
      ∃ c, claim = some c ∧ c.active = true := by
    intro h
    cases claim with
    | none => cases h
    | some c =>
        refine ⟨c, rfl, ?_⟩
        cases ha : c.active with
        | true => rfl
        | false => simp [reduceFinished, ha] at h
  cases hevent : event.event with
  | runFinished =>
      simp only [reduceLifecycleEvent, hevent] at h
      exact ⟨rfl, hfinished h⟩
  | runFailed =>
      simp only [reduceLifecycleEvent, hevent] at h
      exact ⟨rfl, hfinished h⟩
  | inputRequested =>
      simp only [reduceLifecycleEvent, hevent] at h
      split at h <;> cases h
  | runStarted =>
      simp only [reduceLifecycleEvent, hevent, reduceRunStarted] at h
      split at h <;> cases h
  | heartbeat =>
      simp only [reduceLifecycleEvent, hevent, reduceHeartbeat] at h
      repeat' split at h
      all_goals cases h
  | finalizeRebaseStarted =>
      simp only [reduceLifecycleEvent, hevent, reduceRebaseStarted] at h
      repeat' split at h
      all_goals cases h
  | inputResponse =>
      simp only [reduceLifecycleEvent, hevent] at h
      cases h
  | workComplete =>
      simp only [reduceLifecycleEvent, hevent, reduceWorkComplete] at h
      repeat' split at h
      all_goals cases h
  | readyToMerge =>
      simp only [reduceLifecycleEvent, hevent, reduceReadyToMerge] at h
      repeat' split at h
      all_goals cases h
  | _ =>
      simp only [reduceLifecycleEvent, hevent, reducePhase] at h
      repeat' split at h
      all_goals cases h

theorem Announced.applyEvent {event : OrcEvent} {nowIso : String}
    {s t : Project} {r : Except DomainError Unit} (hs : Announced s)
    (hlogged : event ∈ s.events.events)
    (h : applyEvent dates event nowIso s = (r, t)) :
    ∃ m, Accounted s m ∧ Accounted m t := by
  refine applyAction_accounted h fun success reason code policy time hfinish => ?_
  obtain ⟨hending, c, hclaim, hactive⟩ := reduceLifecycleEvent_finish hfinish
  split at hclaim
  · rename_i htruthy
    cases hid : event.runId with
    | none =>
        rw [hid] at htruthy
        cases htruthy
    | some id => exact hs.not_live hlogged hending hid
  · cases hclaim

theorem Announced.finishReview {event : OrcEvent} {time nowIso : String}
    {s t : Project} {r : Except DomainError Unit} (hs : Announced s)
    (hlogged : event ∈ s.events.events) (hevent : event.event = .runFailed)
    (hid : truthy event.runId = true)
    (h : finishReview dates event time nowIso s = (r, t)) : Accounted s t := by
  refine .finishRun h fun hlive => ?_
  cases hrun : event.runId with
  | none =>
      rw [hrun] at hid
      cases hid
  | some id =>
      have hdead := hs.not_live hlogged (by rw [hevent]; rfl) hrun
      rw [hrun, Option.getD_some, hdead] at hlive
      cases hlive

/-! ## Every run -/

theorem Announced.runStep {s t : Project} {l : RunLabel} (hs : Announced s)
    (h : runStep dates registry s l = some t) :
    ∃ m, Accounted s m ∧ Accounted m t := by
  cases l with
  | call a =>
      simp only [Coordinator.runStep] at h
      split at h
      · rename_i hlogs
        cases h
        exact ⟨_, .perform hs.rows (Prod.eta _).symm hlogs, .refl _⟩
      · cases h
  | deliver event nowIso =>
      simp only [Coordinator.runStep] at h
      split at h
      · rename_i hlogged
        cases h
        exact hs.applyEvent hlogged (Prod.eta _).symm
      · cases h
  | finishReview event time nowIso =>
      simp only [Coordinator.runStep] at h
      split at h
      · rename_i hguard
        obtain ⟨hlogged, hevent, hid⟩ := hguard
        cases h
        exact ⟨_, hs.finishReview hlogged hevent hid (Prod.eta _).symm,
          .refl _⟩
      · cases h
  | resetSession nowIso =>
      cases h
      exact ⟨_, .resetVolatileRuntimeStateForSession (Prod.eta _).symm,
        .refl _⟩

theorem Announced.reachable {s : Project}
    (hs : (runSystem dates registry).Reachable s) : Announced s := by
  refine hs.invariant (fun _ h => .fresh h) fun s l t hs ht => ?_
  obtain ⟨m, hm, ht⟩ := hs.runStep ht
  exact (hs.step hm).step ht

/-- The claim of an ended run is stored as it ended. -/
def Absorbed (id : RunId) (state : ClaimState) (s : Project) : Prop :=
  ∃ c, c ∈ s.events.runs ∧ c.runId = id ∧ c.state = state

theorem Absorbed.step {id : RunId} {state : ClaimState} {s t : Project}
    (hs : Absorbed id state s) (hended : state = .done ∨ state = .failed)
    (h : Accounted s t) : Absorbed id state t := by
  obtain ⟨c, hc, rfl, rfl⟩ := hs
  have hinactive : c.active = false := by
    rcases hended with hstate | hstate
    · rw [Claim.active, hstate]
      rfl
    · rw [Claim.active, hstate]
      rfl
  exact h.kept c hc hinactive

def LiveOrEnded (id : RunId) (s : Project) : Prop :=
  s.live id = true ∨ s.endings id = 1

theorem LiveOrEnded.step {id : RunId} {s t : Project} (hinv : Announced s)
    (hs : LiveOrEnded id s) (h : Accounted s t) : LiveOrEnded id t := by
  unfold LiveOrEnded at hs ⊢
  rw [hinv.counted h]
  cases hlive : t.live id with
  | true => exact .inl rfl
  | false =>
      rcases hs with hs | hs
      · rw [hs]
        exact .inr rfl
      · have hdead : s.live id = false := by
          refine Bool.eq_false_iff.mpr fun hlive => ?_
          rw [hinv.running id hlive] at hs
          cases hs
        rw [hdead]
        exact .inr hs

/-- What every step of the account keeps is kept by a whole run. -/
theorem Announced.run_preserves {P : Project → Prop}
    (hP : ∀ s t, Announced s → P s → Accounted s t → P t) {s t : Project}
    {labels : List RunLabel} (hs : Announced s) (hp : P s)
    (h : (runSystem dates registry).run s labels = some t) : P t := by
  refine System.run_preserves (I := Announced)
    (fun s l t hs ht => ?_) (fun s l t hs hp ht => ?_) hs hp h
  · obtain ⟨m, hm, ht⟩ := hs.runStep ht
    exact (hs.step hm).step ht
  · obtain ⟨m, hm, ht⟩ := hs.runStep ht
    exact hP m t (hs.step hm) (hP s m hs hp hm) ht

/--
From any reachable state, however a run goes on: an ended claim keeps its state,
no run is announced ended twice, and a run whose claim is not live any more is
announced ended exactly once.
-/
theorem ended_once (dates : DateApi) (registry : Registry) {s t : Project}
    {labels : List RunLabel} (hs : (runSystem dates registry).Reachable s)
    (h : (runSystem dates registry).run s labels = some t) :
    (∀ c, c ∈ s.events.runs → c.state = .done ∨ c.state = .failed →
        ∃ c', c' ∈ t.events.runs ∧ c'.runId = c.runId ∧ c'.state = c.state) ∧
      (∀ id, t.endings id ≤ 1) ∧
      ∀ c, c ∈ s.events.runs → t.live c.runId = false →
        t.endings c.runId = 1 := by
  have hinv := Announced.reachable hs
  refine ⟨fun c hc hended => ?_, (Announced.reachable (hs.run h)).once,
    fun c hc hdead => ?_⟩
  · exact hinv.run_preserves (P := Absorbed c.runId c.state)
      (fun s t _ hp => hp.step hended) ⟨c, hc, rfl, rfl⟩ h
  · have hstart : LiveOrEnded c.runId s := by
      cases ha : c.active with
      | true => exact .inl (live_iff.mpr ⟨c, hc, rfl, ha⟩)
      | false => exact .inr (hinv.ended c hc ha)
    rcases hinv.run_preserves (P := LiveOrEnded c.runId)
      (fun s t hs hp => hp.step hs) hstart h with hlive | hone
    · rw [hdead] at hlive
      cases hlive
    · exact hone

theorem neverRun_oneTask : NeverRun oneTask where
  fresh := fresh_oneTask
  quiet := by simp [oneTask]

def failTwice : List RunLabel :=
  let failed : FinishOptions :=
    { success := false, time := DateApi.epoch.toISOString 3 }
  [.call (.finishRun "run-1" "worker" failed (DateApi.epoch.toISOString 3)),
   .call (.finishRun "run-1" "worker" failed (DateApi.epoch.toISOString 4)),
   .resetSession (DateApi.epoch.toISOString 5)]

theorem ended_once_failed :
    ∃ s t, (runSystem .epoch soloRegistry).run oneTask
        (claimAndStart.map .call) = some s ∧
      (runSystem .epoch soloRegistry).run s failTwice = some t ∧
      s.live "run-1" = true ∧ t.live "run-1" = false ∧
      t.endings "run-1" = 1 := by
  obtain ⟨s, hs, hlive, t, ht, hdead⟩ : ∃ s,
      (runSystem .epoch soloRegistry).run oneTask (claimAndStart.map .call) =
        some s ∧ s.live "run-1" = true ∧
      ∃ t, (runSystem .epoch soloRegistry).run s failTwice = some t ∧
        t.live "run-1" = false := by
    obtain ⟨s, hs, hs'⟩ := (runSystem .epoch soloRegistry).exists_run_of_map
      (f := fun s => (s.live "run-1",
        ((runSystem .epoch soloRegistry).run s failTwice).map
          fun t => t.live "run-1"))
      (by decide : ((runSystem .epoch soloRegistry).run oneTask
        (claimAndStart.map .call)).map (fun s => (s.live "run-1",
          ((runSystem .epoch soloRegistry).run s failTwice).map
            fun t => t.live "run-1")) = some (true, some false))
    obtain ⟨hlive, hrest⟩ := Prod.mk.inj hs'
    obtain ⟨t, ht, hdead⟩ :=
      (runSystem .epoch soloRegistry).exists_run_of_map hrest
    exact ⟨s, hs, hlive, t, ht, hdead⟩
  obtain ⟨c, hc, hid, -⟩ := live_iff.mp hlive
  have honce := ended_once .epoch soloRegistry
    ((System.Reachable.initial neverRun_oneTask).run hs) ht
  refine ⟨s, t, hs, ht, hlive, hdead, ?_⟩
  rw [← hid]
  exact honce.2.2 c hc (hid ▸ hdead)

end OrcState.Coordinator
