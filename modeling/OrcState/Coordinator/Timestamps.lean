import OrcState.Coordinator.Redelivery

/-!
# The order of a claim's times

An event is dated between a floor and the clock.  The floor of an activity is
the activity before it.  The floor of an end is the start of the run, so an end
can be dated before the last sign of life.
-/

namespace OrcState.Coordinator

open OrcState.Contract OrcState.Foundation OrcState.Store OrcState.Lifecycle
open OrcState.Foundation.Effect

variable {dates : DateApi}

/-! ## Times of a claim -/

structure Timeline where
  state : ClaimState
  claimedAt : String
  startedAt : Option String := none
  lastHeartbeatAt : Option String := none
  finishedAt : Option String := none
  deriving DecidableEq, Repr

def timeline (c : Claim) : Timeline where
  state := c.state
  claimedAt := c.claimedAt
  startedAt := c.startedAt
  lastHeartbeatAt := c.lastHeartbeatAt
  finishedAt := c.finishedAt

namespace Timeline

def stamps (l : Timeline) : List String :=
  l.claimedAt :: (l.startedAt.toList ++
    (l.lastHeartbeatAt.toList ++ l.finishedAt.toList))

def activityFloor (l : Timeline) : String :=
  (l.lastHeartbeatAt.or l.startedAt).getD l.claimedAt

/-- `claim.finished_at ?? claim.started_at ?? claim.claimed_at`. -/
def finishFloor (l : Timeline) : String :=
  (l.finishedAt.or l.startedAt).getD l.claimedAt

end Timeline

/-- Readable times, none after the next, none after the clock. -/
def InOrder (dates : DateApi) (clock : Int) (stamps : List String) : Prop :=
  ∃ times : List Int, stamps.map dates.parse = times.map some ∧
    (times ++ [clock]).Pairwise (· ≤ ·)

section InOrder

variable {clock n v w : Int} {before : List String} {x y : String}

theorem InOrder.split (h : InOrder dates clock (before ++ [y]))
    (hy : dates.parse y = some w) :
    ∃ times : List Int, before.map dates.parse = times.map some ∧
      times.Pairwise (· ≤ ·) ∧ (∀ u ∈ times, u ≤ w) ∧ w ≤ clock := by
  obtain ⟨times, hmap, hsorted⟩ := h
  rw [List.map_append, List.map_singleton, hy] at hmap
  obtain ⟨init, last, rfl, hinit, hlast⟩ := List.append_eq_map_iff.mp hmap
  obtain ⟨w', rfl, hw⟩ := List.map_eq_singleton_iff.mp hlast
  cases hw
  rw [List.append_assoc, List.pairwise_append] at hsorted
  obtain ⟨hinit', hpair, hle⟩ := hsorted
  refine ⟨init, hinit.symm, hinit', fun u hu => hle u hu w (by simp), ?_⟩
  simpa using hpair

theorem InOrder.replace (h : InOrder dates clock (before ++ [y]))
    (hy : dates.parse y = some w) (hx : dates.parse x = some v) (hwv : w ≤ v)
    (hvn : v ≤ n) : InOrder dates n (before ++ [x]) := by
  obtain ⟨times, hmap, hsorted, hle, -⟩ := h.split hy
  refine ⟨times ++ [v], by simp [hmap, hx], ?_⟩
  rw [List.append_assoc, List.pairwise_append]
  refine ⟨hsorted, by simpa using hvn, fun u hu z hz => ?_⟩
  have huw := hle u hu
  simp only [List.cons_append, List.nil_append, List.mem_cons,
    List.not_mem_nil, or_false] at hz
  rcases hz with rfl | rfl
  · omega
  · omega

theorem InOrder.push (h : InOrder dates clock (before ++ [y]))
    (hy : dates.parse y = some w) (hx : dates.parse x = some v) (hwv : w ≤ v)
    (hvn : v ≤ n) : InOrder dates n (before ++ [y] ++ [x]) := by
  obtain ⟨times, hmap, hsorted, hle, -⟩ := h.split hy
  refine ⟨times ++ [w, v], by simp [hmap, hx, hy], ?_⟩
  rw [List.append_assoc, List.pairwise_append]
  refine ⟨hsorted, by simp; omega, fun u hu z hz => ?_⟩
  have huw := hle u hu
  simp only [List.cons_append, List.nil_append, List.mem_cons,
    List.not_mem_nil, or_false] at hz
  rcases hz with rfl | rfl | rfl
  · omega
  · omega
  · omega

theorem InOrder.later (h : InOrder dates clock before) (hn : clock ≤ n) :
    InOrder dates n before := by
  obtain ⟨times, hmap, hsorted⟩ := h
  refine ⟨times, hmap, ?_⟩
  rw [List.pairwise_append] at hsorted ⊢
  refine ⟨hsorted.1, by simp, fun u hu z hz => ?_⟩
  obtain rfl := List.mem_singleton.mp hz
  exact (hsorted.2.2 u hu clock (by simp)).trans hn

end InOrder

/-! ## What one event can do to the times -/

def stampTime (dates : DateApi) (event : OrcEvent) (floor nowIso : String) :
    String :=
  authoritativeTs dates (coerceEventTs dates event.ts nowIso) (some floor)
    nowIso

def isEnd (event : OrcEvent) : Bool :=
  event.event = .runFinished || event.event = .runFailed

/-- The one claim an event is about is started, seen alive or ended. -/
inductive Stamped (dates : DateApi) (event : OrcEvent) (nowIso : String)
    (l : Timeline) : Timeline → Prop
  | started (hstate : l.state = .claimed) :
      Stamped dates event nowIso l
        { l with
          state := .inProgress
          startedAt := some (stampTime dates event l.claimedAt nowIso) }
  | beat (time : String) (hstate : l.state = .inProgress)
      (htime : time = stampTime dates event l.activityFloor nowIso ∨
        time = nowIso) :
      Stamped dates event nowIso l { l with lastHeartbeatAt := some time }
  | finished (state : ClaimState) (hevent : isEnd event = true)
      (hactive : l.state.active = true) (hended : state.active = false) :
      Stamped dates event nowIso l
        { l with
          state := state
          finishedAt := some (stampTime dates event l.finishFloor nowIso) }

/-- Every stored claim keeps its times, but for the one the event is about. -/
def TimesMoved (dates : DateApi) (event : OrcEvent) (nowIso : String)
    (s t : Project) : Prop :=
  ∀ c', c' ∈ t.events.runs → ∃ c, c ∈ s.events.runs ∧ c.runId = c'.runId ∧
    (timeline c' = timeline c ∨ eventClaim s event = some c ∧
      Stamped dates event nowIso (timeline c) (timeline c'))

def TimesKept (s t : Project) : Prop :=
  ∀ c', c' ∈ t.events.runs → ∃ c, c ∈ s.events.runs ∧ c.runId = c'.runId ∧
    timeline c' = timeline c

section Moved

variable {event : OrcEvent} {nowIso : String} {s m t : Project}

theorem TimesKept.refl (s : Project) : TimesKept s s :=
  fun c hc => ⟨c, hc, rfl, rfl⟩

theorem TimesKept.of_mutated {p : Claim → Bool} {f : Claim → Claim}
    (h : Mutated p f s.events.runs t.events.runs)
    (hf : ∀ c, (f c).runId = c.runId ∧ timeline (f c) = timeline c) :
    TimesKept s t := by
  intro c' hc'
  obtain ⟨c, hc, ⟨-, rfl⟩ | ⟨-, rfl⟩⟩ := h.source hc'
  · exact ⟨c, hc, (hf c).1.symm, (hf c).2⟩
  · exact ⟨c, hc, rfl, rfl⟩

theorem TimesKept.moved (h : TimesKept s t) :
    TimesMoved dates event nowIso s t := by
  intro c' hc'
  obtain ⟨c, hc, hid, hsame⟩ := h c' hc'
  exact ⟨c, hc, hid, .inl hsame⟩

theorem TimesMoved.of_own {f : Claim → Claim} {c : Claim}
    (h : Mutated (fun c => c.runId = event.runId.getD "") f s.events.runs
      t.events.runs) (hclaim : eventClaim s event = some c)
    (hid : ∀ c, (f c).runId = c.runId)
    (hf : Stamped dates event nowIso (timeline c) (timeline (f c))) :
    TimesMoved dates event nowIso s t := by
  obtain ⟨hc, hcid⟩ := Table.find?_eq_some.mp (eventClaim_some hclaim)
  intro c' hc'
  obtain ⟨c₀, hc₀, ⟨hp, rfl⟩ | ⟨-, rfl⟩⟩ := h.source hc'
  · obtain rfl : c₀ = c :=
      Table.eq_of_key hc₀ hc ((of_decide_eq_true hp).trans hcid.symm)
    exact ⟨c₀, hc₀, (hid c₀).symm, .inr ⟨hclaim, hf⟩⟩
  · exact ⟨c₀, hc₀, rfl, .inl rfl⟩

theorem TimesKept.eventClaim (h : TimesKept s m) {c : Claim}
    (hc : eventClaim m event = some c) :
    ∃ c₀, Coordinator.eventClaim s event = some c₀ ∧
      timeline c = timeline c₀ := by
  have hfind := eventClaim_some hc
  obtain ⟨hmem, hid⟩ := Table.find?_eq_some.mp hfind
  obtain ⟨c₀, hc₀, hid₀, hsame⟩ := h c hmem
  refine ⟨c₀, ?_, hsame⟩
  unfold Coordinator.eventClaim at hc ⊢
  split at hc
  · rename_i hrun
    rw [if_pos hrun]
    exact Table.find?_eq_some.mpr ⟨hc₀, hid₀.trans hid⟩
  · cases hc

theorem TimesKept.trans_moved (h : TimesKept s m)
    (ht : TimesMoved dates event nowIso m t) :
    TimesMoved dates event nowIso s t := by
  intro c' hc'
  obtain ⟨c, hc, hid, hsame | ⟨hclaim, hstamped⟩⟩ := ht c' hc'
  · obtain ⟨c₀, hc₀, hid₀, hsame₀⟩ := h c hc
    exact ⟨c₀, hc₀, hid₀.trans hid, .inl (hsame.trans hsame₀)⟩
  · obtain ⟨c₀, hclaim₀, hsame₀⟩ := h.eventClaim hclaim
    obtain ⟨hc₀, hid₀⟩ := Table.find?_eq_some.mp (eventClaim_some hclaim₀)
    obtain ⟨-, hidc⟩ := Table.find?_eq_some.mp (eventClaim_some hclaim)
    refine ⟨c₀, hc₀, hid₀.trans (hidc.symm.trans hid), .inr ⟨hclaim₀, ?_⟩⟩
    rwa [← hsame₀]

end Moved

/-! ## One event -/

def LifecycleAction.Reads (dates : DateApi) (event : OrcEvent)
    (claim : Option Claim) (nowIso : String) : LifecycleAction → Prop
  | .startRun time => ∃ c, claim = some c ∧ c.state = .claimed ∧
      time = stampTime dates event c.claimedAt nowIso
  | .heartbeat time _ => ∃ c, claim = some c ∧ c.state = .inProgress ∧
      time = stampTime dates event (timeline c).activityFloor nowIso
  | .advanceFinalization _ _ _ _ => ∃ c, claim = some c ∧ c.state = .inProgress
  | .finishRun _ _ _ _ time => isEnd event = true ∧
      ∃ c, claim = some c ∧ c.active = true ∧
        time = stampTime dates event (timeline c).finishFloor nowIso
  | .setInputState _ | .clearInputState | .noop => True

theorem filter_state {claim : Option Claim} {state : ClaimState} {c : Claim}
    (h : claim.filter (fun c => c.state = state) = some c) :
    claim = some c ∧ c.state = state := by
  obtain ⟨hclaim, hstate⟩ := Option.filter_eq_some_iff.mp h
  exact ⟨hclaim, of_decide_eq_true hstate⟩

theorem reduceLifecycleEvent_reads (dates : DateApi) (event : OrcEvent)
    (claim : Option Claim) (nowIso : String) :
    (reduceLifecycleEvent dates event claim nowIso).Reads dates event claim
      nowIso := by
  have hphase : (reducePhase dates event claim nowIso).Reads dates event claim
      nowIso := by
    unfold reducePhase
    cases hfilter : claim.filter fun c => c.state = .inProgress with
    | none => trivial
    | some c =>
        obtain ⟨hclaim, hstate⟩ := filter_state hfilter
        exact ⟨c, hclaim, hstate, rfl⟩
  have hfinished : isEnd event = true →
      (reduceFinished dates event claim nowIso).Reads dates event claim
        nowIso := by
    intro hend
    cases claim with
    | none => trivial
    | some c =>
        cases hactive : c.active with
        | false =>
            simp only [reduceFinished, hactive]
            trivial
        | true =>
            simp only [reduceFinished, hactive, Bool.not_true,
              Bool.false_eq_true, if_false]
            split
            · exact ⟨hend, c, rfl, hactive, rfl⟩
            · exact ⟨hend, c, rfl, hactive, rfl⟩
  cases hevent : event.event with
  | inputRequested =>
      simp only [reduceLifecycleEvent, hevent]
      split <;> trivial
  | runStarted =>
      simp only [reduceLifecycleEvent, hevent, reduceRunStarted]
      cases hfilter : claim.filter fun c => c.state = .claimed with
      | none => trivial
      | some c =>
          obtain ⟨hclaim, hstate⟩ := filter_state hfilter
          exact ⟨c, hclaim, hstate, rfl⟩
  | heartbeat =>
      simp only [reduceLifecycleEvent, hevent, reduceHeartbeat]
      split
      · trivial
      cases hfilter : claim.filter fun c => c.state = .inProgress with
      | none => trivial
      | some c =>
          obtain ⟨hclaim, hstate⟩ := filter_state hfilter
          dsimp only
          split
          · trivial
          · exact ⟨c, hclaim, hstate, rfl⟩
  | finalizeRebaseStarted =>
      simp only [reduceLifecycleEvent, hevent, reduceRebaseStarted]
      cases claim with
      | none => trivial
      | some c =>
          dsimp only
          split
          · rename_i hready
            rw [Bool.and_eq_true] at hready
            exact ⟨c, rfl, of_decide_eq_true hready.1⟩
          · trivial
  | inputResponse =>
      simp only [reduceLifecycleEvent, hevent]
      trivial
  | runFinished | runFailed =>
      simp only [reduceLifecycleEvent, hevent]
      exact hfinished (by simp [isEnd, hevent])
  | workComplete =>
      simp only [reduceLifecycleEvent, hevent, reduceWorkComplete]
      cases hfilter : claim.filter fun c => c.state = .inProgress with
      | none => trivial
      | some c =>
          obtain ⟨hclaim, hstate⟩ := filter_state hfilter
          dsimp only
          split
          · trivial
          · exact ⟨c, hclaim, hstate⟩
  | readyToMerge =>
      simp only [reduceLifecycleEvent, hevent, reduceReadyToMerge]
      cases hfilter : claim.filter fun c => c.state = .inProgress with
      | none => trivial
      | some c =>
          obtain ⟨hclaim, hstate⟩ := filter_state hfilter
          dsimp only
          split
          · exact ⟨c, hclaim, hstate⟩
          · trivial
  | phaseStarted | phaseFinished | blocked | needInput | inputProvided
  | unblocked | reviewSubmitted =>
      simp only [reduceLifecycleEvent, hevent]
      exact hphase
  | _ =>
      simp only [reduceLifecycleEvent, hevent]
      trivial

theorem runs_of_outcome {p : Claim → Bool} {f : Claim → Claim}
    {changes : TaskStatusChanges} {ref : TaskRef} {g : Task → Task}
    {s t : Project} {r : Except DomainError Unit}
    (h : BothOutcome p f changes ref g s r t) :
    t = s ∨ Mutated p f s.events.runs t.events.runs := by
  cases h with
  | refused e => exact .inl rfl
  | torn e _ hmut _ => exact .inr hmut
  | done _ hmut _ => exact .inr hmut

section Applied

variable {event : OrcEvent} {nowIso : String} {s t : Project}

theorem finishLogged_moved {agentId : AgentId} {o : FinishOptions} {c : Claim}
    {r : Except DomainError Unit} (hclaim : eventClaim s event = some c)
    (hend : isEnd event = true)
    (htime : o.time = stampTime dates event (timeline c).finishFloor nowIso)
    (h : finishLogged dates (event.runId.getD "") agentId o nowIso s = (r, t)) :
    TimesMoved dates event nowIso s t := by
  have hfind := eventClaim_some hclaim
  rcases finishRun_cases h with
    rfl | ⟨claim, hfind', -, ⟨hactive, hcommit⟩ | ⟨-, hmut, -⟩⟩
  · exact (TimesKept.refl t).moved
  · cases hfind.symm.trans hfind'
    have hid : c.runId = event.runId.getD "" := (Table.find?_eq_some.mp hfind).2
    have hruns : t = s ∨ Mutated (fun x => x.runId = c.runId)
        (finishClaim { o with emitEvent := false }) s.events.runs
        t.events.runs := by
      rcases commitFinish_cases hcommit with
        ⟨-, hsame | ⟨hmut, -⟩⟩ | ⟨task, -, hout⟩
      · exact .inl hsame
      · exact .inr hmut
      · exact runs_of_outcome hout
    rcases hruns with rfl | hmut
    · exact (TimesKept.refl t).moved
    · rw [hid] at hmut
      refine .of_own hmut hclaim (fun _ => rfl) ?_
      have hended : (if o.success then ClaimState.done
          else .failed).active = false := by
        split <;> rfl
      have hstamped : Stamped dates event nowIso (timeline c) _ :=
        .finished _ hend hactive hended
      rwa [← htime] at hstamped
  · exact (TimesKept.of_mutated hmut fun _ => ⟨rfl, rfl⟩).moved

theorem startRun_moved {agentId : AgentId} {o : StartOptions} {c : Claim}
    {r : Except DomainError Unit} (hclaim : eventClaim s event = some c)
    (htime : o.time = stampTime dates event c.claimedAt nowIso)
    (h : startRun dates (event.runId.getD "") agentId o nowIso s = (r, t)) :
    TimesMoved dates event nowIso s t := by
  have hfind := eventClaim_some hclaim
  rcases startRun_cases h with rfl | ⟨claim, hfind', -, hstate, hcommit⟩
  · exact (TimesKept.refl t).moved
  cases hfind.symm.trans hfind'
  have hid : c.runId = event.runId.getD "" := (Table.find?_eq_some.mp hfind).2
  have hruns : t = s ∨ Mutated (fun x => x.runId = c.runId)
      (startClaim o.time) s.events.runs t.events.runs := by
    rcases commitStart_cases hcommit with
      ⟨-, hsame | ⟨hmut, -⟩⟩ | ⟨task, -, hout⟩
    · exact .inl hsame
    · exact .inr hmut
    · exact runs_of_outcome hout
  rcases hruns with rfl | hmut
  · exact (TimesKept.refl t).moved
  · rw [hid] at hmut
    refine .of_own hmut hclaim (fun _ => rfl) ?_
    rw [htime]
    exact .started hstate

theorem heartbeat_moved {agentId : AgentId} {o : HeartbeatOptions} {c : Claim}
    {r : Except DomainError String} (hclaim : eventClaim s event = some c)
    (hstate : c.state = .inProgress)
    (htime : o.time = stampTime dates event (timeline c).activityFloor nowIso ∨
      o.time = nowIso)
    (h : heartbeat dates (event.runId.getD "") agentId o s = (r, t)) :
    TimesMoved dates event nowIso s t := by
  rcases heartbeat_stamps h with rfl | ⟨lease, hmut⟩
  · exact (TimesKept.refl t).moved
  · exact .of_own hmut hclaim (fun _ => rfl) (.beat o.time hstate htime)

theorem timesKept_finalization {runId : RunId} {agentId : AgentId}
    {u : FinalizationUpdate} {r : Except DomainError Claim}
    (h : setRunFinalizationState dates runId agentId u s = (r, t)) :
    TimesKept s t := by
  rcases setRunFinalizationState_cases h with rfl | ⟨c, -, -, -, hmut, -⟩
  · exact .refl t
  · exact .of_mutated hmut fun _ => ⟨rfl, rfl⟩

theorem eventClaim_finalization {agentId : AgentId} {u : FinalizationUpdate}
    {c : Claim} {r : Except DomainError Claim}
    (hclaim : eventClaim s event = some c)
    (h : setRunFinalizationState dates (event.runId.getD "") agentId u s =
      (r, t)) :
    ∃ c', eventClaim t event = some c' ∧ timeline c' = timeline c := by
  rcases setRunFinalizationState_cases h with rfl | ⟨c₀, -, -, -, hmut, -⟩
  · exact ⟨c, hclaim, rfl⟩
  · exact ⟨_, eventClaim_mutated hmut (fun _ => rfl) hclaim, rfl⟩

theorem timesKept_input {runId : RunId} {agentId : AgentId}
    {inputState : Option InputState} {requestedAt : Option String}
    {r : Except DomainError Claim}
    (h : setRunInputState dates runId agentId inputState requestedAt nowIso s =
      (r, t)) : TimesKept s t := by
  rcases setRunInputState_cases h with rfl | ⟨c, -, -, hmut, -⟩
  · exact .refl t
  · exact .of_mutated hmut fun _ => ⟨rfl, rfl⟩

theorem processEvent_moved {r : Except DomainError Unit}
    (h : processEvent dates event nowIso s = (r, t)) :
    TimesMoved dates event nowIso s t := by
  have hreads := reduceLifecycleEvent_reads dates event (eventClaim s event)
    nowIso
  cases haction : reduceLifecycleEvent dates event (eventClaim s event)
      nowIso with
  | finishRun success reason code policy time =>
      rw [haction] at hreads
      obtain ⟨hend, c, hclaim, hactive, htime⟩ := hreads
      simp only [processEvent, read_bind, haction] at h
      split at h
      · rename_i hfails
        rcases bind_cases h with ⟨e, hx, -⟩ | ⟨u, m, hx, hfinish⟩
        · simp only [applyAction, read_bind, if_pos hfails] at hx
          cases attempt_ok hx
        · simp only [applyAction, read_bind, if_pos hfails] at hx
          obtain ⟨r', hset⟩ := attempt_cases hx
          obtain ⟨c', hclaim', hsame⟩ := eventClaim_finalization hclaim hset
          rw [← hsame] at htime
          exact (timesKept_finalization hset).trans_moved
            (finishLogged_moved hclaim' hend htime hfinish)
      · rename_i hfails
        simp only [bind_unit, applyAction, read_bind, if_neg hfails] at h
        exact finishLogged_moved hclaim hend htime h
  | setInputState requestedAt =>
      rw [processEvent_eq haction (by simp)] at h
      obtain ⟨r', hx⟩ := attempt_cases h
      exact (timesKept_input hx).moved
  | clearInputState =>
      rw [processEvent_eq haction (by simp)] at h
      obtain ⟨r', hx⟩ := attempt_cases h
      exact (timesKept_input hx).moved
  | startRun time =>
      rw [haction] at hreads
      obtain ⟨c, hclaim, -, htime⟩ := hreads
      rw [processEvent_eq haction (by simp)] at h
      exact startRun_moved hclaim htime h
  | heartbeat time lease =>
      rw [haction] at hreads
      obtain ⟨c, hclaim, hstate, htime⟩ := hreads
      rw [processEvent_eq haction (by simp)] at h
      simp only [applyAction] at h
      split at h
      · obtain ⟨r', hx⟩ := attempt_cases h
        exact heartbeat_moved hclaim hstate (.inl htime) hx
      · cases h
        exact (TimesKept.refl _).moved
  | advanceFinalization state delta blocked extend =>
      rw [haction] at hreads
      obtain ⟨c, hclaim, hstate⟩ := hreads
      rw [processEvent_eq haction (by simp)] at h
      rcases bind_cases h with ⟨e, hx, -⟩ | ⟨set, m, hx, h⟩
      · exact (timesKept_finalization hx).moved
      have hkept := timesKept_finalization hx
      cases extend with
      | none =>
          cases h
          exact hkept.moved
      | some ms =>
          obtain ⟨r', hbeat⟩ := attempt_cases h
          obtain ⟨c', hclaim', hsame⟩ := eventClaim_finalization hclaim hx
          have hstate' : c'.state = .inProgress :=
            (congrArg Timeline.state hsame).trans hstate
          exact hkept.trans_moved
            (heartbeat_moved hclaim' hstate' (.inr rfl) hbeat)
  | noop =>
      rw [processEvent_noop haction] at h
      cases h
      exact (TimesKept.refl _).moved

end Applied

/-! ## What a step preserves -/

/-- The times are in order, and set as far as the state says. -/
structure Timed (dates : DateApi) (clock : Int) (l : Timeline) : Prop where
  ordered : InOrder dates clock l.stamps
  unstarted : l.state = .claimed → l.startedAt = none ∧ l.lastHeartbeatAt = none
  started : l.state = .inProgress → ∃ time, l.startedAt = some time
  unfinished : l.state.active = true → l.finishedAt = none

/-- An end is not dated before the last sign of life of its run. -/
def EndsLast (dates : DateApi) (event : OrcEvent) (nowIso : String)
    (s : Project) : Prop :=
  isEnd event = true → ∀ c ∈ eventClaim s event, c.active = true →
    ∀ last ∈ c.lastHeartbeatAt.bind dates.parse,
      (∀ ts ∈ dates.parse (coerceEventTs dates event.ts nowIso), last ≤ ts) ∨
        ∃ start ∈ c.startedAt.bind dates.parse, last ≤ start

instance (event : OrcEvent) (nowIso : String) (s : Project) :
    Decidable (EndsLast dates event nowIso s) := by
  unfold EndsLast
  infer_instance

theorem Timed.stamps {clock : Int} {l : Timeline} (h : Timed dates clock l)
    (hactive : l.state.active = true) :
    ∃ before, l.stamps = before ++ [l.activityFloor] := by
  have hfinished := h.unfinished hactive
  cases hlast : l.lastHeartbeatAt with
  | some last =>
      refine ⟨l.claimedAt :: l.startedAt.toList, ?_⟩
      simp [Timeline.stamps, Timeline.activityFloor, hlast, hfinished]
  | none =>
      cases hstart : l.startedAt with
      | some start =>
          refine ⟨[l.claimedAt], ?_⟩
          simp [Timeline.stamps, Timeline.activityFloor, hlast, hfinished, hstart]
      | none =>
          refine ⟨[], ?_⟩
          simp [Timeline.stamps, Timeline.activityFloor, hlast, hfinished, hstart]

theorem stampTime_parse
    (hround : ∀ ms, dates.parse (dates.toISOString ms) = some ms)
    {event : OrcEvent} {floor : String} {low n : Int}
    (hfloor : dates.parse floor = some low) (hn : low ≤ n) :
    ∃ ts v, dates.parse (coerceEventTs dates event.ts (dates.toISOString n)) =
        some ts ∧
      dates.parse (stampTime dates event floor (dates.toISOString n)) =
        some v ∧ low ≤ v ∧ v ≤ n ∧ min ts n ≤ v := by
  obtain ⟨ts, hts⟩ : ∃ ts, dates.parse
      (coerceEventTs dates event.ts (dates.toISOString n)) = some ts := by
    unfold coerceEventTs
    split
    · rename_i hvalid
      rw [DateApi.isDateTime, Bool.and_eq_true] at hvalid
      exact Option.isSome_iff_exists.mp hvalid.2
    · exact ⟨n, hround n⟩
  refine ⟨ts, max (min ts n) low, hts, ?_, le_max_right _ _, ?_, le_max_left _ _⟩
  · simp [stampTime, authoritativeTs, hts, hround, hfloor]
  · omega

theorem InOrder.parses {clock : Int} {stamps : List String} {x : String}
    (h : InOrder dates clock stamps) (hx : x ∈ stamps) :
    ∃ v, dates.parse x = some v ∧ v ≤ clock := by
  obtain ⟨times, hmap, hsorted⟩ := h
  have hmem : dates.parse x ∈ times.map some :=
    hmap ▸ List.mem_map.mpr ⟨x, hx, rfl⟩
  obtain ⟨v, hv, heq⟩ := List.mem_map.mp hmem
  rw [List.pairwise_append] at hsorted
  exact ⟨v, heq.symm, hsorted.2.2 v hv clock (by simp)⟩

section Stamped

variable {event : OrcEvent} {clock n : Int} {l l' : Timeline}

theorem Timed.start (hround : ∀ ms, dates.parse (dates.toISOString ms) = some ms)
    (h : Timed dates clock l) (hn : clock ≤ n) (hstate : l.state = .claimed) :
    Timed dates n { l with
      state := .inProgress
      startedAt := some (stampTime dates event l.claimedAt
        (dates.toISOString n)) } := by
  obtain ⟨hstart, hlast⟩ := h.unstarted hstate
  have hfinished := h.unfinished (by rw [hstate]; rfl)
  have hstamps : l.stamps = [] ++ [l.claimedAt] := by
    simp [Timeline.stamps, hstart, hlast, hfinished]
  have hordered := hstamps ▸ h.ordered
  obtain ⟨a, ha, hclock⟩ := hordered.parses (x := l.claimedAt) (by simp)
  obtain ⟨ts, v, -, hv, hav, hvn, -⟩ :=
    stampTime_parse hround ha (hclock.trans hn)
  refine ⟨?_, fun hclaimed => ?_, fun _ => ⟨_, rfl⟩, fun _ => hfinished⟩
  · have hpushed := hordered.push ha hv hav hvn
    simpa [Timeline.stamps, hlast, hfinished] using hpushed
  · cases hclaimed

theorem Timed.beat (hround : ∀ ms, dates.parse (dates.toISOString ms) = some ms)
    (h : Timed dates clock l) (hn : clock ≤ n) (hstate : l.state = .inProgress)
    {time : String}
    (htime : time = stampTime dates event l.activityFloor (dates.toISOString n) ∨
      time = dates.toISOString n) :
    Timed dates n { l with lastHeartbeatAt := some time } := by
  have hactive : l.state.active = true := by
    rw [hstate]
    rfl
  have hfinished := h.unfinished hactive
  obtain ⟨start, hstart⟩ := h.started hstate
  obtain ⟨before, hstamps⟩ := h.stamps hactive
  have hordered := hstamps ▸ h.ordered
  obtain ⟨w, hw, hclock⟩ := hordered.parses (x := l.activityFloor) (by simp)
  obtain ⟨v, hv, hwv, hvn⟩ : ∃ v, dates.parse time = some v ∧ w ≤ v ∧ v ≤ n := by
    rcases htime with rfl | rfl
    · obtain ⟨ts, v, -, hv, hwv, hvn, -⟩ :=
        stampTime_parse hround hw (hclock.trans hn)
      exact ⟨v, hv, hwv, hvn⟩
    · exact ⟨n, hround n, hclock.trans hn, Int.le_refl n⟩
  refine ⟨?_, fun hclaimed => ?_, fun _ => ⟨start, hstart⟩, fun _ => hfinished⟩
  · cases hlast : l.lastHeartbeatAt with
    | none =>
        have hpushed := hordered.push hw hv hwv hvn
        rw [← hstamps] at hpushed
        simpa [Timeline.stamps, hstart, hlast, hfinished] using hpushed
    | some last =>
        have hreplaced := hordered.replace hw hv hwv hvn
        have hbefore : before = [l.claimedAt, start] := by
          have hfloor : l.activityFloor = last := by
            simp [Timeline.activityFloor, hlast]
          rw [hfloor] at hstamps
          simp only [Timeline.stamps, hstart, hlast, hfinished,
            Option.toList_some, Option.toList_none, List.append_nil,
            List.singleton_append] at hstamps
          have hcut : [l.claimedAt, start] ++ [last] = before ++ [last] :=
            hstamps
          exact (List.append_cancel_right hcut).symm
        rw [hbefore] at hreplaced
        simpa [Timeline.stamps, hstart, hfinished] using hreplaced
  · cases hstate.symm.trans hclaimed

theorem Timed.finish
    (hround : ∀ ms, dates.parse (dates.toISOString ms) = some ms)
    (h : Timed dates clock l) (hn : clock ≤ n) {state : ClaimState}
    (hactive : l.state.active = true) (hended : state.active = false)
    (hlast : ∀ last ∈ l.lastHeartbeatAt.bind dates.parse,
      (∀ ts ∈ dates.parse (coerceEventTs dates event.ts (dates.toISOString n)),
        last ≤ ts) ∨ ∃ start ∈ l.startedAt.bind dates.parse, last ≤ start) :
    Timed dates n { l with
      state := state
      finishedAt := some (stampTime dates event l.finishFloor
        (dates.toISOString n)) } := by
  have hfinished := h.unfinished hactive
  obtain ⟨before, hstamps⟩ := h.stamps hactive
  have hordered := hstamps ▸ h.ordered
  obtain ⟨w, hw, hclock⟩ := hordered.parses (x := l.activityFloor) (by simp)
  have hmem : l.finishFloor ∈ l.stamps := by
    cases hstart : l.startedAt with
    | none => simp [Timeline.finishFloor, Timeline.stamps, hfinished, hstart]
    | some start =>
        simp [Timeline.finishFloor, Timeline.stamps, hfinished, hstart]
  obtain ⟨low, hlow, hlowclock⟩ := h.ordered.parses hmem
  obtain ⟨ts, v, hts, hv, hlowv, hvn, hmin⟩ :=
    stampTime_parse hround hlow (hlowclock.trans hn)
  have hwv : w ≤ v := by
    cases hbeat : l.lastHeartbeatAt with
    | none =>
        have hsame : l.activityFloor = l.finishFloor := by
          simp [Timeline.activityFloor, Timeline.finishFloor, hbeat, hfinished]
        rw [hsame, hlow] at hw
        cases hw
        exact hlowv
    | some last =>
        have hfloor : l.activityFloor = last := by
          simp [Timeline.activityFloor, hbeat]
        rw [hfloor] at hw
        rcases hlast w (by simp [hbeat, hw]) with hevent | ⟨start, hstart, hle⟩
        · have hwts := hevent ts hts
          omega
        · obtain ⟨time, htime, hparse⟩ := Option.mem_bind_iff.mp hstart
          have hsame : l.finishFloor = time := by
            simp [Timeline.finishFloor, hfinished, Option.mem_def.mp htime]
          rw [hsame, hparse] at hlow
          cases hlow
          omega
  refine ⟨?_, fun hclaimed => ?_, fun hgoing => ?_, fun hgoing => ?_⟩
  · have hpushed := hordered.push hw hv hwv hvn
    rw [← hstamps] at hpushed
    simpa [Timeline.stamps, hfinished] using hpushed
  · cases hclaimed
    cases hended
  · cases hgoing
    cases hended
  · rw [hended] at hgoing
    cases hgoing

end Stamped

/-! ## Every run -/

structure Clocked where
  project : Project
  clock : Int

/--
A claim is made at some time, then events are processed, by a clock that does
not go back.
-/
def timedSystem (dates : DateApi) (runId : RunId) :
    System Clocked (OrcEvent × Int) where
  initial w := ∃ ref agentId lease snapshot s p,
    claimTask dates ref agentId lease runId snapshot w.clock s =
      (.ok p, w.project)
  step w l :=
    if w.clock ≤ l.2 then
      some ⟨(processEvent dates l.1 (dates.toISOString l.2) w.project).2, l.2⟩
    else none

theorem upsertClaims_last {claims : List Claim} {claim : Claim}
    {db db' : EventsDb} {u : Unit}
    (h : (claims ++ [claim]).forM upsertClaim db = .ok (u, db')) {c : Claim}
    (hc : c ∈ db'.runs) (hid : c.runId = claim.runId) : c = claim := by
  induction claims generalizing db with
  | nil =>
      obtain ⟨m, hupsert, hrest⟩ := Txn.forM_cons_ok.mp h
      cases Txn.forM_nil_ok.mp hrest
      obtain ⟨-, rfl⟩ := upsertClaim_ok.mp hupsert
      rcases Table.mem_upsert.mp hc with rfl | ⟨-, hne⟩
      · rfl
      · exact absurd hid hne
  | cons first rest ih =>
      obtain ⟨m, -, hrest⟩ := Txn.forM_cons_ok.mp h
      exact ih hrest

theorem claimTask_stored {ref : TaskRef} {agentId : AgentId} {lease : Int}
    {runId : RunId} {snapshot : Except DomainError Unit} {now : Int}
    {s t : Project} {p : RunId × String}
    (h : claimTask dates ref agentId lease runId snapshot now s = (.ok p, t))
    {c : Claim} (hc : c ∈ t.events.runs) (hid : c.runId = runId) :
    c = newClaim runId ref agentId (dates.toISOString now)
      (dates.toISOString (now + lease)) := by
  simp only [claimTask, read_bind] at h
  rcases orThrow_cases h with ⟨⟨e, he⟩, -⟩ | ⟨task, -, h⟩
  · cases he
  rcases throwIf_cases h with ⟨⟨e, he⟩, -⟩ | ⟨-, h⟩
  · cases he
  rcases throwIf_cases h with ⟨⟨e, he⟩, -⟩ | ⟨-, h⟩
  · cases he
  rcases ofExcept_cases h with ⟨⟨e, he⟩, -⟩ | ⟨⟨⟩, -, h⟩
  · cases he
  rcases bind_cases h with ⟨e, -, he⟩ | ⟨pinned, m, hx, h⟩
  · cases he
  rcases bind_cases h with ⟨e, -, he⟩ | ⟨⟨⟩, k, hcommit, h⟩
  · cases he
  cases h
  unfold catching at hcommit
  split at hcommit
  · rename_i u n hnew
    cases hcommit
    simp only [commitNewClaim] at hnew
    rcases ofExcept_cases hnew with ⟨⟨e, he⟩, -⟩ | ⟨⟨⟩, -, hnew⟩
    · cases he
    simp only [read_bind] at hnew
    rcases onEvents_cases hnew with ⟨e, he, -⟩ | ⟨⟨⟩, db, hdb, -, rfl⟩
    · cases he
    simp only [commitClaims, Txn.bind_ok, Txn.modify_ok] at hdb
    obtain ⟨_, _, rfl, _, k, hupserts, hevents⟩ := hdb
    have hruns := (appendEvents_ok hevents).2
    rw [setEvents_events, hruns] at hc
    exact upsertClaims_last hupserts hc hid
  · rename_i e n hnew
    rcases bind_cases hcommit with ⟨e', -, he⟩ | ⟨u, k', -, hthrow⟩
    · cases he
    · cases hthrow

theorem Timed.new (hround : ∀ ms, dates.parse (dates.toISOString ms) = some ms)
    {runId : RunId} {ref : TaskRef} {agentId : AgentId} {lease : String}
    (now : Int) :
    Timed dates now
      (timeline (newClaim runId ref agentId (dates.toISOString now) lease)) := by
  refine ⟨⟨[now], ?_, ?_⟩, fun _ => ⟨rfl, rfl⟩, fun hgoing => ?_, fun _ => rfl⟩
  · simp [Timeline.stamps, timeline, newClaim, hround]
  · simp
  · cases hgoing

/--
Along every run each of whose ends is dated no earlier than the last sign of
life, the times of the claim are in order and none of them is ahead of the
clock.
-/
theorem timestamps_ordered (dates : DateApi)
    (hround : ∀ ms, dates.parse (dates.toISOString ms) = some ms)
    (runId : RunId) {w : Clocked}
    (hw : (timedSystem dates runId).ReachableUnder (fun w l =>
      EndsLast dates l.1 (dates.toISOString l.2) w.project) w) :
    ∀ c, c ∈ w.project.events.runs → c.runId = runId →
      InOrder dates w.clock (timeline c).stamps := by
  suffices hall : ∀ c, c ∈ w.project.events.runs → c.runId = runId →
      Timed dates w.clock (timeline c) from
    fun c hc hid => (hall c hc hid).ordered
  refine hw.invariant (I := fun w => ∀ c, c ∈ w.project.events.runs →
    c.runId = runId → Timed dates w.clock (timeline c)) ?_ ?_
  · rintro w ⟨ref, agentId, lease, snapshot, s, p, hclaim⟩ c hc hid
    rw [claimTask_stored hclaim hc hid]
    exact .new hround w.clock
  · rintro w ⟨event, n⟩ w' - hinv hok hstep c' hc' hid
    simp only [timedSystem] at hstep
    split at hstep
    · rename_i hn
      cases hstep
      obtain ⟨c, hc, hsame, hkept | ⟨hclaim, hstamped⟩⟩ :=
        processEvent_moved (Prod.eta _).symm c' hc'
      · have hc₀ := hinv c hc (hsame.trans hid)
        rw [hkept]
        exact ⟨hc₀.ordered.later hn, hc₀.unstarted, hc₀.started, hc₀.unfinished⟩
      · have hc₀ := hinv c hc (hsame.trans hid)
        cases hl : timeline c' with
        | mk state claimedAt startedAt lastHeartbeatAt finishedAt =>
        rw [hl] at hstamped
        cases hstamped with
        | started hstate => exact hc₀.start hround hn hstate
        | beat time hstate htime => exact hc₀.beat hround hn hstate htime
        | finished _ hend hactive hended =>
            exact hc₀.finish hround hn hactive hended
              (hok hend c hclaim hactive)
    · cases hstep

def claimedFirst : Clocked where
  project := (claimTask dayDates "docs/intro" "worker" DEFAULT_LEASE_MS "run-1"
    (.ok ()) 0 oneTask).2
  clock := 0

theorem claimedFirst_initial :
    (timedSystem dayDates "run-1").initial claimedFirst := by
  have hok : (claimTask dayDates "docs/intro" "worker" DEFAULT_LEASE_MS "run-1"
      (.ok ()) 0 oneTask).1.isOk = true := by
    decide +kernel
  cases hx : claimTask dayDates "docs/intro" "worker" DEFAULT_LEASE_MS "run-1"
      (.ok ()) 0 oneTask with
  | mk r t =>
  rw [hx] at hok
  cases r with
  | error e => cases hok
  | ok p =>
      refine ⟨"docs/intro", "worker", DEFAULT_LEASE_MS, .ok (), oneTask, p, ?_⟩
      simp only [claimedFirst, hx]

def workerEvent (event : EventName) (ts : Int) (payload : Payload) : OrcEvent :=
  { startedEvent with
    event := event, ts := dayDates.toISOString ts, payload := payload }

def finishAt (ts : Int) : List (OrcEvent × Int) :=
  [(workerEvent .runStarted 1000 [], 2000), (workerEvent .heartbeat 5000 [], 5000),
   (workerEvent .runFinished ts [], 6000)]

def Clocked.times (dates : DateApi) (w : Clocked) : List (List (Option Int)) :=
  w.project.claims.map fun c => (timeline c).stamps.map dates.parse

theorem timestamps_ordered_finished :
    ∃ w, (timedSystem dayDates "run-1").run claimedFirst (finishAt 7000) =
        some w ∧
      w.times dayDates = [[some 0, some 1000, some 5000, some 6000]] ∧
      ∀ c, c ∈ w.project.events.runs → c.runId = "run-1" →
        InOrder dayDates w.clock (timeline c).stamps := by
  have hrun : ((timedSystem dayDates "run-1").run claimedFirst
      (finishAt 7000)).map (Clocked.times dayDates) =
        some [[some 0, some 1000, some 5000, some 6000]] ∧
      (timedSystem dayDates "run-1").Along (fun w l => EndsLast dayDates l.1
        (dayDates.toISOString l.2) w.project) claimedFirst (finishAt 7000) := by
    decide +kernel
  obtain ⟨w, hw, htimes⟩ := Option.map_eq_some_iff.mp hrun.1
  exact ⟨w, hw, htimes, timestamps_ordered dayDates dayDates_round "run-1"
    ((System.ReachableUnder.initial claimedFirst_initial).run hrun.2 hw)⟩

/-- Finished before it was last seen alive. -/
theorem not_timestamps_ordered :
    ¬ ∀ w, (timedSystem dayDates "run-1").Reachable w →
      ∀ c, c ∈ w.project.events.runs → c.runId = "run-1" →
        InOrder dayDates w.clock (timeline c).stamps := by
  intro hall
  have hrun : ((timedSystem dayDates "run-1").run claimedFirst
      (finishAt 3000)).map (fun w => (w.project.claims.map Claim.runId,
        w.times dayDates)) =
      some (["run-1"], [[some 0, some 1000, some 5000, some 3000]]) := by
    decide +kernel
  obtain ⟨w, hw, hparts⟩ := Option.map_eq_some_iff.mp hrun
  obtain ⟨hids, htimes⟩ := Prod.mk.inj hparts
  obtain ⟨c, hc, htimes⟩ := List.mem_map.mp
    (htimes ▸ List.mem_singleton.mpr rfl :
      [some (0 : Int), some 1000, some 5000, some 3000] ∈ w.times dayDates)
  have hid : c.runId = "run-1" := by
    have hmem : c.runId ∈ w.project.claims.map Claim.runId :=
      List.mem_map.mpr ⟨c, hc, rfl⟩
    rw [hids] at hmem
    exact List.mem_singleton.mp hmem
  obtain ⟨times, hmap, hsorted⟩ := hall w
    ((System.Reachable.initial claimedFirst_initial).run hw) c hc hid
  have hread : times.map some = [(0 : Int), 1000, 5000, 3000].map some :=
    hmap.symm.trans htimes
  rw [List.map_injective_iff.mpr (Option.some_injective Int) hread] at hsorted
  simp at hsorted

end OrcState.Coordinator
