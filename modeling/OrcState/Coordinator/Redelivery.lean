import OrcState.Coordinator.Renewal

/-!
# An event handed over twice

A crash between an event and the write of the cursor replays the event.  Each
kind guards against its own repetition in its own way; all of them rest on one
fact, that a time which is not ahead of the clock is the same at any later one.
-/

namespace OrcState.Coordinator

open OrcState.Contract OrcState.Foundation OrcState.Store OrcState.Lifecycle
open OrcState.Foundation.Effect

/-! ## One event, to its end -/

def processEvent (dates : DateApi) (event : OrcEvent) (nowIso : String) :
    Op Unit := do
  let s ← Effect.read
  let action := reduceLifecycleEvent dates event (eventClaim s event) nowIso
  applyAction dates event action (eventClaim s event) nowIso
  match action with
  | .finishRun success _ _ _ time =>
      if failsReview s (event.runId.getD "") (event.agentId.getD "") success then
        finishReview dates event time nowIso
      else pure ()
  | _ => pure ()

structure SameRecords (s t : Project) : Prop where
  runs : ∀ c, c ∈ t.events.runs ↔ c ∈ s.events.runs
  log : t.events.events = s.events.events
  tasks : t.tasks = s.tasks

theorem SameRecords.refl (s : Project) : SameRecords s s :=
  ⟨fun _ => Iff.rfl, rfl, rfl⟩

variable {dates : DateApi}

/-! ## Times that are not ahead of the clock -/

/-- `first` and `second` are readable clocks, neither of them before the time. -/
structure Settled (dates : DateApi) (ts first second : String) : Prop where
  valid : dates.isDateTime ts = true
  clocks : ∃ e n m, dates.parse ts = some e ∧ dates.parse first = some n ∧
    dates.parse second = some m ∧ e ≤ n ∧ n ≤ m

theorem authoritativeTs_later {ts first second : String}
    (h : Settled dates ts first second) (floor : Option String) :
    authoritativeTs dates ts floor second =
      authoritativeTs dates ts floor first := by
  obtain ⟨e, n, m, hts, hfirst, hsecond, hn, hm⟩ := h.clocks
  have hle : e ≤ m := hn.trans hm
  simp only [authoritativeTs, hts, hfirst, hsecond, Option.getD_some,
    min_eq_left hn, min_eq_left hle]

theorem authoritativeTs_again
    (hround : ∀ ms, dates.parse (dates.toISOString ms) = some ms)
    {ts first second : String} (h : Settled dates ts first second)
    (floor : Option String) :
    authoritativeTs dates ts (some (authoritativeTs dates ts floor first))
        second = authoritativeTs dates ts floor first := by
  rw [authoritativeTs_later h]
  obtain ⟨e, n, m, hts, hfirst, -, hn, -⟩ := h.clocks
  simp only [authoritativeTs, hts, hfirst, Option.getD_some, min_eq_left hn,
    Option.bind_some, hround]
  congr 1
  cases floor.bind dates.parse with
  | none => exact max_self e
  | some low => exact max_eq_right (le_max_left e low)

theorem coerceEventTs_valid {ts now : String}
    (h : dates.isDateTime ts = true) : coerceEventTs dates ts now = ts :=
  if_pos h

theorem leasePassed_mono {claim : Claim} {n m : Int} (h : n ≤ m)
    (hpassed : leasePassed dates n claim = true) :
    leasePassed dates m claim = true := by
  unfold leasePassed at *
  cases hlease : dates.parse claim.leaseExpiresAt with
  | none =>
      rw [hlease] at hpassed
      cases hpassed
  | some lease =>
      rw [hlease] at hpassed
      simp only [Option.any_some, decide_eq_true_eq] at hpassed ⊢
      omega

/-- The reducer decides the same later on, or ignores an expired lease. -/
theorem reduceLifecycleEvent_later {event : OrcEvent} {first second : String}
    (h : Settled dates event.ts first second) (claim : Option Claim) :
    reduceLifecycleEvent dates event claim second = .noop ∨
      reduceLifecycleEvent dates event claim second =
        reduceLifecycleEvent dates event claim first := by
  have hstamp : ∀ floor,
      authoritativeTs dates (coerceEventTs dates event.ts second) floor
          second =
        authoritativeTs dates (coerceEventTs dates event.ts first) floor
          first := by
    intro floor
    rw [coerceEventTs_valid h.valid, coerceEventTs_valid h.valid,
      authoritativeTs_later h]
  have hbeat : reduceHeartbeat dates event claim second = .noop ∨
      reduceHeartbeat dates event claim second =
        reduceHeartbeat dates event claim first := by
    unfold reduceHeartbeat
    split
    · exact .inl rfl
    cases claim.filter fun c => c.state = .inProgress with
    | none => exact .inl rfl
    | some c =>
        dsimp only
        split
        · exact .inl rfl
        · rename_i hlater
          refine .inr ?_
          rw [if_neg fun hpassed => hlater ?_, hstamp]
          -- a lease that has passed has passed for good
          obtain ⟨e, n, m, -, hfirst, hsecond, -, hm⟩ := h.clocks
          rw [Bool.and_eq_true] at hpassed ⊢
          refine ⟨hpassed.1, ?_⟩
          rw [hfirst] at hpassed
          rw [hsecond]
          exact leasePassed_mono hm hpassed.2
  cases hevent : event.event with
  | heartbeat =>
      simp only [reduceLifecycleEvent, hevent]
      exact hbeat
  | _ =>
      refine .inr ?_
      simp only [reduceLifecycleEvent, hevent, reduceRunStarted, reducePhase,
        reduceFinished, hstamp]

/-! ## Commits of one claim -/

structure Rewritten (id : RunId) (f : Claim → Claim) (s t : Project) :
    Prop where
  runs : Mutated (fun c => c.runId = id) f s.events.runs t.events.runs
  log : t.events.events = s.events.events
  tasks : t.tasks = s.tasks

/-- An update that neither moves the claim nor brings it back to life. -/
structure Settling (id : RunId) (f : Claim → Claim) (s : Project) : Prop where
  runId : ∀ c, (f c).runId = c.runId
  taskRef : ∀ c, (f c).taskRef = c.taskRef
  active : ∀ c, s.findClaim id = some c → (f c).active = true →
    c.active = true

theorem settling_of_state {id : RunId} {f : Claim → Claim}
    (hf : ∀ c, (f c).runId = c.runId ∧ (f c).taskRef = c.taskRef ∧
      (f c).state = c.state) (s : Project) : Settling id f s := by
  refine ⟨fun c => (hf c).1, fun c => (hf c).2.1, fun c _ ha => ?_⟩
  rwa [Claim.active, (hf c).2.2] at ha

theorem rewrite_total {s t : Project} {r : Except DomainError Unit}
    {id : RunId} {f : Claim → Claim} (hone : OneActive s.events.runs)
    (hf : Settling id f s)
    (h : onEvents (commitClaims dates (mutateClaim s.claims id f) []) s =
      (r, t)) : r = .ok () ∧ Rewritten id f s t := by
  have htotal : ∃ db, commitClaims dates (mutateClaim s.claims id f) []
      s.events = .ok ((), db) :=
    commitMutated_total hone (fun c => ⟨hf.runId c, hf.taskRef c⟩)
      (fun c hc hid => hf.active c
        (Table.find?_eq_some.mpr ⟨hc, of_decide_eq_true hid⟩)) (by simp)
  obtain ⟨db, hdb⟩ := htotal
  have hruns := commitMutated_claims hdb hf.runId
  have hlog : db.events = s.events.events := by
    simp only [commitClaims, Txn.bind_ok, Txn.modify_ok] at hdb
    obtain ⟨_, _, rfl, _, m, hupserts, hevents⟩ := hdb
    cases Txn.forM_nil_ok.mp hevents
    exact (upsertClaims_events hupserts).trans rfl
  simp only [onEvents, atomically, hdb] at h
  cases h
  exact ⟨rfl, hruns, hlog, rfl⟩

/-- Whether or not the backlog is committed after it, the claim is. -/
theorem commitBoth_rewrites {s t : Project} {r : Except DomainError Unit}
    {id : RunId} {f : Claim → Claim} {backlog : Backlog}
    {changes : TaskStatusChanges} {now : String}
    (hone : OneActive s.events.runs) (hf : Settling id f s)
    (h : commitBoth dates (mutateClaim s.claims id f) [] backlog changes now s =
      (r, t)) :
    Mutated (fun c => c.runId = id) f s.events.runs t.events.runs := by
  rcases bind_cases h with ⟨e, hx, -⟩ | ⟨u, m, hx, htasks⟩
  · exact (rewrite_total hone hf hx).2.runs
  · have hm := (rewrite_total hone hf hx).2.runs
    rcases onTasks_cases htasks with ⟨e, -, rfl⟩ | ⟨_, ts, -, -, rfl⟩
    · exact hm
    · exact hm

theorem updateClaim_quiet {s t : Project} {r : Except DomainError Claim}
    {id : RunId} {check : Claim → Except DomainError Unit}
    {f : Claim → Claim} (hone : OneActive s.events.runs)
    (hf : Settling id f s)
    (h : updateClaim dates id check f (fun _ => []) s = (r, t)) :
    Refused s r t ∨
      (∃ c, s.findClaim id = some c ∧ r = .ok (f c)) ∧ Rewritten id f s t := by
  simp only [updateClaim, read_bind] at h
  rcases orThrow_cases h with hrefused | ⟨c, hfind, h⟩
  · exact .inl hrefused
  rcases ofExcept_cases h with hrefused | ⟨⟨⟩, -, h⟩
  · exact .inl hrefused
  rcases bind_cases h with ⟨e, hx, -⟩ | ⟨u, m, hx, hm⟩
  · cases (rewrite_total hone hf hx).1
  · cases hm
    exact .inr ⟨⟨c, hfind, rfl⟩, (rewrite_total hone hf hx).2⟩

theorem setRunFinalizationState_quiet {s t : Project}
    {r : Except DomainError Claim} {id : RunId} {agentId : AgentId}
    {u : FinalizationUpdate} (hone : OneActive s.events.runs)
    (h : setRunFinalizationState dates id agentId u s = (r, t)) :
    Refused s r t ∨
      (∃ c, r = .ok c) ∧ Rewritten id (applyFinalization u) s t := by
  have hf : Settling id (applyFinalization u) s :=
    settling_of_state (f := applyFinalization u) (fun _ => ⟨rfl, rfl, rfl⟩) s
  rcases updateClaim_quiet hone hf h with hrefused | ⟨⟨c, -, hr⟩, ht⟩
  · exact .inl hrefused
  · exact .inr ⟨⟨_, hr⟩, ht⟩

theorem Rewritten.again {id : RunId} {f : Claim → Claim} {s t u : Project}
    (hidem : ∀ c, f (f c) = f c) (hs : Rewritten id f s t)
    (ht : Rewritten id f t u) : SameRecords t u := by
  have hfixed : ∀ c, c ∈ t.events.runs → c.runId = id → f c = c := by
    intro c hc hid
    obtain ⟨c₀, -, ⟨-, rfl⟩ | ⟨hother, rfl⟩⟩ := hs.runs.source hc
    · exact hidem c₀
    · exact absurd hid (of_decide_eq_false hother)
  refine ⟨fun c => ?_, ht.log, ht.tasks⟩
  rw [ht.runs.mem]
  constructor
  · rintro ⟨c₀, hc₀, rfl⟩
    split
    · rename_i hid
      rwa [hfixed c₀ hc₀ (of_decide_eq_true hid)]
    · exact hc₀
  · intro hc
    refine ⟨c, hc, ?_⟩
    split
    · rename_i hid
      exact hfixed c hc (of_decide_eq_true hid)
    · rfl

theorem attempt_ok {α : Type} {x : Op α} {s t : Project}
    {r : Except DomainError Unit} (h : attempt x s = (r, t)) : r = .ok () := by
  unfold attempt catching at h
  split at h
  · cases h
    rfl
  · cases h
    rfl

/-- The same update twice, its refusals swallowed. -/
theorem attempt_twice {s t u : Project} {r r' : Except DomainError Unit}
    {id : RunId} {check : Claim → Except DomainError Unit}
    {f : Claim → Claim} (hone : OneActive s.events.runs)
    (hf : ∀ s, Settling id f s) (hidem : ∀ c, f (f c) = f c)
    (h : attempt (updateClaim dates id check f fun _ => []) s = (r, t))
    (h' : attempt (updateClaim dates id check f fun _ => []) t = (r', u)) :
    r' = .ok () ∧ SameRecords t u := by
  refine ⟨attempt_ok h', ?_⟩
  obtain ⟨r₀, hx⟩ := attempt_cases h
  obtain ⟨r₁, hx'⟩ := attempt_cases h'
  rcases updateClaim_quiet hone (hf s) hx with ⟨-, rfl⟩ | ⟨-, hs⟩
  · cases hx.symm.trans hx'
    exact .refl _
  rcases updateClaim_quiet (hs.runs.one hone) (hf t) hx' with ⟨-, rfl⟩ | ⟨-, ht⟩
  · exact .refl _
  · exact hs.again hidem ht

/-! ## Starts and finishes -/

theorem startRun_settles (agentId : AgentId) (o : StartOptions) {s : Project}
    {id : RunId} {c : Claim} {ms : Int} (hone : OneActive s.events.runs)
    (hfind : s.findClaim id = some c) (hstate : c.state = .claimed)
    (htime : dates.parse o.time = some ms) (hquiet : o.emitEvent = false) :
    (∃ e, ∀ now, startRun dates id agentId o now s = (.error e, s)) ∨
      ∀ now, Mutated (fun c => c.runId = id) (startClaim o.time)
        s.events.runs (startRun dates id agentId o now s).2.events.runs := by
  by_cases hagent : c.agentId = agentId
  · refine .inr fun now => ?_
    have hown : ownClaim s id agentId = .ok c := ownClaim_ok.mpr ⟨hfind, hagent⟩
    obtain rfl : c.runId = id := (Table.find?_eq_some.mp hfind).2
    have hf : Settling c.runId (startClaim o.time) s := by
      refine ⟨fun _ => rfl, fun _ => rfl, fun c' hfind' _ => ?_⟩
      cases hfind.symm.trans hfind'
      rw [Claim.active, hstate]
      rfl
    have hrun : startRun dates c.runId agentId o now s =
        commitStart dates c agentId o now s s := by
      simp [startRun, hown, hstate, assertValidTimestamp, htime]
    rw [hrun]
    simp only [commitStart, hquiet, Bool.false_eq_true, if_false]
    cases findTask s.backlog c.taskRef with
    | none => exact (rewrite_total hone hf (Prod.eta _).symm).2.runs
    | some task => exact commitBoth_rewrites hone hf (Prod.eta _).symm
  · refine .inl ⟨conflictError ("Claim " ++ id ++ " belongs to " ++ c.agentId),
      fun now => ?_⟩
    have hown : ownClaim s id agentId = .error (conflictError
        ("Claim " ++ id ++ " belongs to " ++ c.agentId)) := by
      simp [ownClaim, hfind, hagent]
    simp only [startRun, read_bind, hown, ofExcept_bind]

theorem finishLogged_ends {agentId : AgentId} (o : FinishOptions)
    {s : Project} {id : RunId} {c : Claim} {ms : Int}
    (hone : OneActive s.events.runs) (hfind : s.findClaim id = some c)
    (hactive : c.active = true) (hagent : c.agentId = agentId)
    (htime : dates.parse o.time = some ms) (now : String) :
    Mutated (fun c => c.runId = id) (finishClaim { o with emitEvent := false })
      s.events.runs (finishLogged dates id agentId o now s).2.events.runs := by
  have hown : ownClaim s id agentId = .ok c := ownClaim_ok.mpr ⟨hfind, hagent⟩
  obtain rfl : c.runId = id := (Table.find?_eq_some.mp hfind).2
  have hf : Settling c.runId (finishClaim { o with emitEvent := false }) s := by
    refine ⟨fun _ => rfl, fun _ => rfl, fun c' hfind' _ => ?_⟩
    cases hfind.symm.trans hfind'
    exact hactive
  have hrun : finishLogged dates c.runId agentId o now s =
      commitFinish dates c agentId { o with emitEvent := false } now s s := by
    simp [finishLogged, finishRun, hown, hactive, assertValidTimestamp, htime]
  rw [hrun]
  simp only [commitFinish, finishEvents, Bool.false_eq_true, if_false]
  cases taskOfRun s c with
  | none => exact (rewrite_total hone hf (Prod.eta _).symm).2.runs
  | some task => exact commitBoth_rewrites hone hf (Prod.eta _).symm

theorem finishLogged_foreign {agentId : AgentId} (o : FinishOptions)
    {s : Project} {id : RunId} {c : Claim} (hfind : s.findClaim id = some c)
    (hagent : c.agentId ≠ agentId) (now : String) :
    finishLogged dates id agentId o now s = (.error (conflictError
      ("Claim " ++ id ++ " belongs to " ++ c.agentId)), s) := by
  have hown : ownClaim s id agentId = .error (conflictError
      ("Claim " ++ id ++ " belongs to " ++ c.agentId)) := by
    simp [ownClaim, hfind, hagent]
  simp only [finishLogged, finishRun, read_bind, hown, ofExcept_bind]

/-! ## The second delivery -/

theorem eventClaim_some {s : Project} {event : OrcEvent} {c : Claim}
    (h : eventClaim s event = some c) :
    s.findClaim (event.runId.getD "") = some c := by
  unfold eventClaim at h
  split at h
  · exact h
  · cases h

theorem eventClaim_mutated {s t : Project} {event : OrcEvent} {f : Claim → Claim}
    {c : Claim}
    (h : Mutated (fun c => c.runId = event.runId.getD "") f s.events.runs
      t.events.runs) (hid : ∀ c, (f c).runId = c.runId)
    (hc : eventClaim s event = some c) : eventClaim t event = some (f c) := by
  have hfind := h.findClaim hid (eventClaim_some hc)
  unfold eventClaim at hc ⊢
  split at hc
  · rename_i hrun
    rwa [if_pos hrun]
  · cases hc

theorem processEvent_noop {event : OrcEvent} {nowIso : String} {s : Project}
    (h : reduceLifecycleEvent dates event (eventClaim s event) nowIso = .noop) :
    processEvent dates event nowIso s = (.ok (), s) := by
  simp only [processEvent, read_bind, h]
  rfl

theorem bind_unit (x : Op Unit) (s : Project) :
    (x >>= fun _ => pure ()) s = x s := by
  rw [bind_apply]
  split
  · rename_i hx
    rw [hx]
    rfl
  · rename_i hx
    rw [hx]

/-- Nothing follows an action that finishes no run. -/
theorem processEvent_eq {event : OrcEvent} {nowIso : String} {s : Project}
    {action : LifecycleAction}
    (h : reduceLifecycleEvent dates event (eventClaim s event) nowIso = action)
    (hnot : ∀ success reason code policy time,
      action ≠ .finishRun success reason code policy time) :
    processEvent dates event nowIso s =
      applyAction dates event action (eventClaim s event) nowIso s := by
  simp only [processEvent, read_bind, h]
  cases action with
  | finishRun success reason code policy time =>
      exact absurd rfl (hnot success reason code policy time)
  | _ => exact bind_unit _ s

/-- Both deliveries are refused alike, and neither writes. -/
def RefusedTwice (dates : DateApi) (event : OrcEvent) (first second : String)
    (s : Project) : Prop :=
  ∃ e, processEvent dates event first s = (.error e, s) ∧
    processEvent dates event second s = (.error e, s)

/-- The second delivery is refused like the first, or ignored. -/
def Absorbs (dates : DateApi) (event : OrcEvent) (first second : String)
    (s : Project) : Prop :=
  RefusedTwice dates event first second s ∨
    reduceLifecycleEvent dates event
      (eventClaim (processEvent dates event first s).2 event) second = .noop

variable {event : OrcEvent} {first second : String} {s : Project}

/-- What was ignored is ignored again. -/
theorem Absorbs.of_noop (h : Settled dates event.ts first second)
    (hnoop : reduceLifecycleEvent dates event (eventClaim s event) first =
      .noop) : Absorbs dates event first second s := by
  refine .inr ?_
  rw [processEvent_noop hnoop]
  rcases reduceLifecycleEvent_later h (eventClaim s event) with hlater | hlater
  · exact hlater
  · exact hlater.trans hnoop

theorem Absorbs.of_refused (h : Settled dates event.ts first second)
    {action : LifecycleAction} {e : DomainError}
    (hfirst : reduceLifecycleEvent dates event (eventClaim s event) first =
      action)
    (hrefused : ∀ now,
      reduceLifecycleEvent dates event (eventClaim s event) now = action →
        processEvent dates event now s = (.error e, s)) :
    Absorbs dates event first second s := by
  have hx := hrefused first hfirst
  rcases reduceLifecycleEvent_later h (eventClaim s event) with hlater | hlater
  · refine .inr ?_
    rw [hx]
    exact hlater
  · exact .inl ⟨e, hx, hrefused second (hlater.trans hfirst)⟩

theorem absorbs_runStarted (h : Settled dates event.ts first second)
    (hone : OneActive s.events.runs) (hevent : event.event = .runStarted) :
    Absorbs dates event first second s := by
  cases haction : reduceLifecycleEvent dates event (eventClaim s event)
      first with
  | noop => exact .of_noop h haction
  | startRun time =>
      obtain ⟨c, hclaim, hstate, ms, htime⟩ : ∃ c, eventClaim s event = some c ∧
          c.state = .claimed ∧ ∃ ms, dates.parse time = some ms := by
        simp only [reduceLifecycleEvent, hevent, reduceRunStarted] at haction
        split at haction
        · cases haction
        · rename_i c hfilter
          cases haction
          obtain ⟨hclaim, hstate⟩ := Option.filter_eq_some_iff.mp hfilter
          exact ⟨c, hclaim, of_decide_eq_true hstate,
            Option.isSome_iff_exists.mp (dates.parse_toISOString _)⟩
      have hrun : ∀ now,
          reduceLifecycleEvent dates event (eventClaim s event) now =
            .startRun time →
          processEvent dates event now s =
            startRun dates (event.runId.getD "") (event.agentId.getD "")
              { emitEvent := false, time := time } now s :=
        fun now hnow => processEvent_eq hnow fun _ _ _ _ _ heq => by cases heq
      rcases startRun_settles (event.agentId.getD "")
          { emitEvent := false, time := time } hone (eventClaim_some hclaim)
          hstate htime rfl with ⟨e, hrefused⟩ | hmut
      · exact .of_refused h haction fun now hnow =>
          (hrun now hnow).trans (hrefused now)
      · refine .inr ?_
        rw [hrun first haction,
          eventClaim_mutated (hmut first) (fun _ => rfl) hclaim]
        simp only [reduceLifecycleEvent, hevent, reduceRunStarted]
        rfl
  | _ =>
      simp only [reduceLifecycleEvent, hevent, reduceRunStarted] at haction
      split at haction <;> cases haction

theorem absorbs_rebaseStarted (h : Settled dates event.ts first second)
    (hone : OneActive s.events.runs)
    (hevent : event.event = .finalizeRebaseStarted) :
    Absorbs dates event first second s := by
  have hreduce : ∀ now,
      reduceLifecycleEvent dates event (eventClaim s event) now =
        reduceRebaseStarted (eventClaim s event) := fun now => by
    simp only [reduceLifecycleEvent, hevent]
  cases hclaim : eventClaim s event with
  | none =>
      refine .of_noop h ?_
      rw [hreduce, hclaim]
      rfl
  | some c =>
      by_cases hready : (c.state = .inProgress &&
          c.finalizationState = some .finalizeRebaseRequested) = true
      · have haction : ∀ now, reduceLifecycleEvent dates event
            (eventClaim s event) now = .advanceFinalization
              .finalizeRebaseInProgress 1 none (some FINALIZE_LEASE_MS) := by
          intro now
          rw [hreduce, hclaim]
          exact if_pos hready
        have hrun : ∀ now, processEvent dates event now s = _ := fun now =>
          processEvent_eq (haction now) fun _ _ _ _ _ heq => by cases heq
        cases hx : setRunFinalizationState dates (event.runId.getD "")
            (event.agentId.getD "")
            { finalizationState := some .finalizeRebaseInProgress
              retryCountDelta := 1, blockedReason := none } s with
        | mk r m =>
        rcases setRunFinalizationState_quiet hone hx with
          ⟨⟨e, rfl⟩, rfl⟩ | ⟨⟨set, rfl⟩, hm⟩
        · refine .of_refused (e := e) h (haction first) fun now _ => ?_
          rw [hrun now]
          simp only [applyAction, bind_apply, hx]
        · refine .inr ?_
          have hset := eventClaim_mutated hm.runs (fun _ => rfl) hclaim
          rw [hrun first]
          simp only [applyAction, bind_apply, hx]
          cases hy : attempt (heartbeat dates (event.runId.getD "")
              (event.agentId.getD "")
              { emitEvent := false, leaseDurationMs := FINALIZE_LEASE_MS
                time := first }) m with
          | mk r t =>
          obtain ⟨r', hbeat⟩ := attempt_cases hy
          have hstarted : ∃ c', eventClaim t event = some c' ∧
              c'.finalizationState = some .finalizeRebaseInProgress := by
            rcases heartbeat_cases hbeat with rfl | ⟨g, hg, hmut, -⟩
            · exact ⟨_, hset, rfl⟩
            · refine ⟨_, eventClaim_mutated hmut hg.runId hset, ?_⟩
              rw [hg]
              rfl
          obtain ⟨c', hc', hstate⟩ := hstarted
          simp only [reduceLifecycleEvent, hevent, hc', reduceRebaseStarted]
          rw [hstate]
          refine if_neg ?_
          simp
      · refine .of_noop h ?_
        rw [hreduce, hclaim]
        exact if_neg hready

theorem reduceFinished_ended {c : Claim} (h : c.active = false)
    (nowIso : String) :
    reduceFinished dates event (some c) nowIso = .noop := by
  simp [reduceFinished, h]

theorem absorbs_finished (h : Settled dates event.ts first second)
    (hone : OneActive s.events.runs)
    (hevent : event.event = .runFinished ∨ event.event = .runFailed) :
    Absorbs dates event first second s := by
  have hreduce : ∀ claim now, reduceLifecycleEvent dates event claim now =
      reduceFinished dates event claim now := by
    intro claim now
    rcases hevent with hevent | hevent
    · simp only [reduceLifecycleEvent, hevent]
    · simp only [reduceLifecycleEvent, hevent]
  cases haction : reduceLifecycleEvent dates event (eventClaim s event)
      first with
  | noop => exact .of_noop h haction
  | finishRun success reason code policy time =>
      obtain ⟨-, c, hclaim, hactive⟩ := reduceLifecycleEvent_finish haction
      have hfind := eventClaim_some hclaim
      obtain ⟨ms, htime⟩ : ∃ ms, dates.parse time = some ms := by
        rw [hreduce, hclaim] at haction
        simp only [reduceFinished, hactive, Bool.not_true, Bool.false_eq_true,
          if_false] at haction
        split at haction
        · cases haction
          exact Option.isSome_iff_exists.mp (dates.parse_toISOString _)
        · cases haction
          exact Option.isSome_iff_exists.mp (dates.parse_toISOString _)
      by_cases hfails : failsReview s (event.runId.getD "")
          (event.agentId.getD "") success = true
      · refine .inr ?_
        have hagent : c.agentId = event.agentId.getD "" := by
          simp only [failsReview, hfind, Option.any_some, Bool.and_eq_true,
            decide_eq_true_eq] at hfails
          exact hfails.2.2
        cases hx : attempt (setRunFinalizationState dates
            (event.runId.getD "") (event.agentId.getD "")
            { finalizationState := some .prFailed }) s with
        | mk r m =>
        obtain rfl := attempt_ok hx
        obtain ⟨r', hset⟩ := attempt_cases hx
        have hrun : processEvent dates event first s =
            finishReview dates event time first m := by
          simp only [processEvent, read_bind, haction, if_pos hfails]
          rw [bind_apply]
          simp only [applyAction, read_bind, if_pos hfails, hx]
        obtain ⟨hone', c', hclaim', hactive', hagent'⟩ :
            OneActive m.events.runs ∧ ∃ c', eventClaim m event = some c' ∧
              c'.active = true ∧ c'.agentId = event.agentId.getD "" := by
          rcases setRunFinalizationState_quiet hone hset with
            ⟨-, rfl⟩ | ⟨-, hm⟩
          · exact ⟨hone, c, hclaim, hactive, hagent⟩
          · exact ⟨hm.runs.one hone, _,
              eventClaim_mutated hm.runs (fun _ => rfl) hclaim, hactive, hagent⟩
        have hmut := finishLogged_ends
          { success := false
            failureReason := some ("pr_review_failed: " ++
              (stringField event "reason").getD "unknown")
            failureCode := stringField event "code", time := time } hone'
          (eventClaim_some hclaim') hactive' hagent' htime first
        rw [hrun, hreduce]
        have hended := eventClaim_mutated hmut (fun _ => rfl) hclaim'
        simp only [finishReview, hended]
        exact reduceFinished_ended rfl second
      · have hrun : ∀ now, reduceLifecycleEvent dates event
            (eventClaim s event) now =
              .finishRun success reason code policy time →
            processEvent dates event now s =
              finishLogged dates (event.runId.getD "") (event.agentId.getD "")
                { success := success, failureReason := reason
                  failureCode := code, policy := policy, time := time } now
                s := by
          intro now hnow
          simp only [processEvent, read_bind, hnow, if_neg hfails, bind_unit]
          simp only [applyAction, read_bind, if_neg hfails]
        by_cases hagent : c.agentId = event.agentId.getD ""
        · refine .inr ?_
          have hmut := finishLogged_ends
            { success := success, failureReason := reason, failureCode := code
              policy := policy, time := time } hone hfind hactive hagent htime
            first
          rw [hrun first haction, eventClaim_mutated hmut (fun _ => rfl) hclaim,
            hreduce]
          refine reduceFinished_ended ?_ second
          cases success <;> rfl
        · exact .of_refused h haction fun now hnow =>
            (hrun now hnow).trans (finishLogged_foreign _ hfind hagent now)
  | _ =>
      rw [hreduce] at haction
      cases hclaim : eventClaim s event with
      | none =>
          rw [hclaim] at haction
          cases haction
      | some c =>
          rw [hclaim] at haction
          simp only [reduceFinished] at haction
          split at haction
          · cases haction
          · split at haction <;> cases haction

/-! ## Inputs and activity -/

/-- The second delivery does no harm: nothing moves, and nothing is thrown. -/
def Harmless (dates : DateApi) (event : OrcEvent) (first second : String)
    (s : Project) : Prop :=
  ∀ r t, processEvent dates event second (processEvent dates event first s).2 =
    (r, t) → r = .ok () ∧ SameRecords (processEvent dates event first s).2 t

theorem Harmless.of_absorbs (h : Absorbs dates event first second s)
    (hok : (processEvent dates event first s).1 = .ok ()) :
    Harmless dates event first second s := by
  intro r t hx
  rcases h with ⟨e, hfirst, -⟩ | hnoop
  · rw [hfirst] at hok
    cases hok
  · rw [processEvent_noop hnoop] at hx
    cases hx
    exact ⟨rfl, .refl _⟩

theorem inputState_twice {id : RunId} {agentId : AgentId}
    {inputState : Option InputState} {requestedAt : Option String}
    (hsame : applyInputState inputState requestedAt second =
      applyInputState inputState requestedAt first)
    (hone : OneActive s.events.runs) {r : Except DomainError Unit} {t : Project}
    (hx : attempt (setRunInputState dates id agentId inputState requestedAt
      second) (attempt (setRunInputState dates id agentId inputState requestedAt
        first) s).2 = (r, t)) :
    r = .ok () ∧ SameRecords (attempt (setRunInputState dates id agentId
      inputState requestedAt first) s).2 t := by
  unfold setRunInputState at hx ⊢
  rw [hsame] at hx
  refine attempt_twice hone (fun s => ?_) (fun c => ?_) (Prod.eta _).symm hx
  · exact settling_of_state
      (f := applyInputState inputState requestedAt first)
      (fun _ => ⟨rfl, rfl, rfl⟩) s
  · rfl

theorem harmless_inputRequested (h : Settled dates event.ts first second)
    (hone : OneActive s.events.runs) (hevent : event.event = .inputRequested)
    (hforeign : event.actorType ≠ .coordinator) :
    Harmless dates event first second s := by
  have haction : ∀ s now, reduceLifecycleEvent dates event
      (eventClaim s event) now = .setInputState (authoritativeTs dates
        (coerceEventTs dates event.ts now) none now) := by
    intro s now
    simp only [reduceLifecycleEvent, hevent, if_neg hforeign]
  have hstamp : authoritativeTs dates (coerceEventTs dates event.ts second)
      none second = authoritativeTs dates (coerceEventTs dates event.ts first)
        none first := by
    rw [coerceEventTs_valid h.valid, coerceEventTs_valid h.valid,
      authoritativeTs_later h]
  intro r t hx
  rw [processEvent_eq (haction s first) (by simp)] at hx ⊢
  rw [processEvent_eq (haction _ second) (by simp), hstamp] at hx
  exact inputState_twice rfl hone hx

theorem harmless_inputResponse (hone : OneActive s.events.runs)
    (hevent : event.event = .inputResponse) :
    Harmless dates event first second s := by
  have haction : ∀ s now, reduceLifecycleEvent dates event
      (eventClaim s event) now = .clearInputState := by
    intro s now
    simp only [reduceLifecycleEvent, hevent]
  intro r t hx
  rw [processEvent_eq (haction s first) (by simp)] at hx ⊢
  rw [processEvent_eq (haction _ second) (by simp)] at hx
  exact inputState_twice rfl hone hx

def beatTime (dates : DateApi) (event : OrcEvent) (c : Claim)
    (nowIso : String) : String :=
  authoritativeTs dates (coerceEventTs dates event.ts nowIso)
    (some (activityFloor c)) nowIso

def isActivity (event : OrcEvent) : Bool :=
  event.event = .heartbeat || phaseEvents.contains event.event

theorem reduceLifecycleEvent_activity (dates : DateApi)
    (h : isActivity event = true) (claim : Option Claim)
    (nowIso : String) :
    reduceLifecycleEvent dates event claim nowIso = .noop ∨
      ∃ c, claim = some c ∧ reduceLifecycleEvent dates event claim nowIso =
        .heartbeat (beatTime dates event c nowIso) DEFAULT_LEASE_MS := by
  have hphase : reducePhase dates event claim nowIso = .noop ∨
      ∃ c, claim = some c ∧ reducePhase dates event claim nowIso =
        .heartbeat (beatTime dates event c nowIso) DEFAULT_LEASE_MS := by
    unfold reducePhase
    cases hfilter : claim.filter fun c => c.state = .inProgress with
    | none => exact .inl rfl
    | some c =>
        obtain ⟨hclaim, -⟩ := Option.filter_eq_some_iff.mp hfilter
        exact .inr ⟨c, hclaim, rfl⟩
  cases hevent : event.event with
  | heartbeat =>
      simp only [reduceLifecycleEvent, hevent, reduceHeartbeat]
      split
      · exact .inl rfl
      cases hfilter : claim.filter fun c => c.state = .inProgress with
      | none => exact .inl rfl
      | some c =>
          obtain ⟨hclaim, -⟩ := Option.filter_eq_some_iff.mp hfilter
          dsimp only
          split
          · exact .inl rfl
          · exact .inr ⟨c, hclaim, rfl⟩
  | phaseStarted | phaseFinished | blocked | needInput | inputProvided
  | unblocked | reviewSubmitted =>
      simp only [reduceLifecycleEvent, hevent]
      exact hphase
  | _ => simp [isActivity, hevent, phaseEvents] at h

theorem heartbeat_stamps {id : RunId} {agentId : AgentId}
    {o : HeartbeatOptions} {s t : Project} {r : Except DomainError String}
    (h : heartbeat dates id agentId o s = (r, t)) :
    t = s ∨ ∃ lease, Mutated (fun c => c.runId = id)
      (fun c => { c with
        lastHeartbeatAt := some o.time
        leaseExpiresAt := lease }) s.events.runs t.events.runs := by
  simp only [heartbeat, read_bind, assertValidTimestamp] at h
  rcases ofExcept_cases h with ⟨-, rfl⟩ | ⟨claim, -, h⟩
  · exact .inl rfl
  rcases throwIf_cases h with ⟨-, rfl⟩ | ⟨-, h⟩
  · exact .inl rfl
  rcases throwIf_cases h with ⟨-, rfl⟩ | ⟨-, h⟩
  · exact .inl rfl
  rcases throwIf_cases h with ⟨-, rfl⟩ | ⟨-, h⟩
  · exact .inl rfl
  obtain ⟨r', hx, -⟩ := result_cases h
  rcases commitMutated_cases hx (fun _ => rfl) with ⟨-, rfl⟩ | ⟨-, hmut, -⟩
  · exact .inl rfl
  · exact .inr ⟨_, hmut⟩

theorem newerHeartbeat_self {c : Claim} {time : String}
    (hlast : c.lastHeartbeatAt = some time) (htime : time ≠ "") :
    newerHeartbeat dates (some c) time = false := by
  simp only [newerHeartbeat, Option.bind_some, hlast, htime]
  cases dates.parse time with
  | none => rfl
  | some ms => simp

theorem harmless_activity
    (hround : ∀ ms, dates.parse (dates.toISOString ms) = some ms)
    (h : Settled dates event.ts first second) (hevent : isActivity event = true) :
    Harmless dates event first second s := by
  rcases reduceLifecycleEvent_activity dates hevent (eventClaim s event) first
    with hnoop | ⟨c, hclaim, hbeat⟩
  · exact .of_absorbs (.of_noop h hnoop) (by simp [processEvent_noop hnoop])
  cases hfirst : processEvent dates event first s with
  | mk r₁ t =>
  have hrun := processEvent_eq hbeat (by simp)
  rw [hfirst] at hrun
  -- the second delivery is ignored, or brings no newer heartbeat
  suffices hquiet : reduceLifecycleEvent dates event (eventClaim t event)
      second = .noop ∨ ∃ time, reduceLifecycleEvent dates event
        (eventClaim t event) second = .heartbeat time DEFAULT_LEASE_MS ∧
      (applyAction dates event (.heartbeat time DEFAULT_LEASE_MS)
        (eventClaim t event) second t) = (.ok (), t) by
    intro r u hx
    rw [hfirst] at hx ⊢
    rcases hquiet with hnoop | ⟨time, hagain, hstill⟩
    · rw [processEvent_noop hnoop] at hx
      cases hx
      exact ⟨rfl, .refl _⟩
    · rw [processEvent_eq hagain (by simp), hstill] at hx
      cases hx
      exact ⟨rfl, .refl _⟩
  have hstands : t = s → r₁ = .ok () → reduceLifecycleEvent dates event
      (eventClaim t event) second = .noop ∨ ∃ time, reduceLifecycleEvent dates
        event (eventClaim t event) second = .heartbeat time DEFAULT_LEASE_MS ∧
      (applyAction dates event (.heartbeat time DEFAULT_LEASE_MS)
        (eventClaim t event) second t) = (.ok (), t) := by
    rintro rfl rfl
    rcases reduceLifecycleEvent_later h (eventClaim t event) with
      hlater | hlater
    · exact .inl hlater
    · exact .inr ⟨_, hlater.trans hbeat, hrun.symm⟩
  simp only [applyAction, hclaim] at hrun
  split at hrun
  · obtain rfl := attempt_ok hrun.symm
    obtain ⟨r₀, hbeats⟩ := attempt_cases hrun.symm
    rcases heartbeat_stamps hbeats with hsame | ⟨lease, hmut⟩
    · exact hstands hsame rfl
    have hclaim' := eventClaim_mutated hmut (fun _ => rfl) hclaim
    rcases reduceLifecycleEvent_activity dates hevent (eventClaim t event)
      second with hnoop | ⟨c', hc', hagain⟩
    · exact .inl hnoop
    refine .inr ⟨_, hagain, ?_⟩
    cases hclaim'.symm.trans hc'
    have htime : beatTime dates event { c with
        lastHeartbeatAt := some (beatTime dates event c first)
        leaseExpiresAt := lease } second = beatTime dates event c first := by
      unfold beatTime
      rw [coerceEventTs_valid h.valid, coerceEventTs_valid h.valid]
      exact authoritativeTs_again hround h _
    have hne : beatTime dates event c first ≠ "" :=
      dates.toISOString_ne_empty _
    rw [htime, hclaim']
    simp only [applyAction]
    rw [newerHeartbeat_self rfl hne]
    rfl
  · cases hrun
    exact hstands rfl rfl

/-! ## Every event -/

def guardedEvents : List EventName :=
  [.runStarted, .finalizeRebaseStarted, .runFinished, .runFailed]

theorem absorbs_guarded (h : Settled dates event.ts first second)
    (hone : OneActive s.events.runs) (hevent : event.event ∈ guardedEvents) :
    Absorbs dates event first second s := by
  simp only [guardedEvents, List.mem_cons, List.not_mem_nil, or_false] at hevent
  rcases hevent with hevent | hevent | hevent | hevent
  · exact absorbs_runStarted h hone hevent
  · exact absorbs_rebaseStarted h hone hevent
  · exact absorbs_finished h hone (.inl hevent)
  · exact absorbs_finished h hone (.inr hevent)

theorem harmless_other
    (hround : ∀ ms, dates.parse (dates.toISOString ms) = some ms)
    (h : Settled dates event.ts first second) (hone : OneActive s.events.runs)
    (hguarded : event.event ∉ guardedEvents)
    (hwork : event.event ≠ .workComplete)
    (hready : event.event ≠ .readyToMerge) :
    Harmless dates event first second s := by
  have hignored : reduceLifecycleEvent dates event (eventClaim s event) first =
      .noop → Harmless dates event first second s := fun hnoop =>
    .of_absorbs (.of_noop h hnoop) (by simp [processEvent_noop hnoop])
  cases hevent : event.event with
  | inputRequested =>
      by_cases hself : event.actorType = .coordinator
      · refine hignored ?_
        simp only [reduceLifecycleEvent, hevent, if_pos hself]
      · exact harmless_inputRequested h hone hevent hself
  | inputResponse => exact harmless_inputResponse hone hevent
  | runStarted | finalizeRebaseStarted | runFinished | runFailed =>
      simp [hevent, guardedEvents] at hguarded
  | workComplete => exact absurd hevent hwork
  | readyToMerge => exact absurd hevent hready
  | heartbeat | phaseStarted | phaseFinished | blocked | needInput
  | inputProvided | unblocked | reviewSubmitted =>
      exact harmless_activity hround h (by simp [isActivity, hevent, phaseEvents])
  | _ =>
      refine hignored ?_
      simp [reduceLifecycleEvent, hevent, phaseEvents]

theorem settled_of_valid
    (hround : ∀ ms, dates.parse (dates.toISOString ms) = some ms) {n m : Int}
    (hvalid : ValidEvent dates event)
    (hfirst : ∀ ts ∈ dates.parse event.ts, ts ≤ n) (hsecond : n ≤ m) :
    Settled dates event.ts (dates.toISOString n) (dates.toISOString m) := by
  have hts : dates.isDateTime event.ts = true := by
    simp only [ValidEvent, validateEventObject, validateSchema,
      List.append_eq_nil_iff, complainIf_eq_nil, Bool.not_eq_false'] at hvalid
    exact hvalid.1.1.1.1.2
  obtain ⟨ts, hparse⟩ : ∃ ts, dates.parse event.ts = some ts := by
    rw [DateApi.isDateTime, Bool.and_eq_true] at hts
    exact Option.isSome_iff_exists.mp hts.2
  exact ⟨hts, ts, n, m, hparse, hround n, hround m, hfirst ts hparse, hsecond⟩

/--
Any valid event of the past but a completion or a merge report, handed over
twice: claims, log and tasks stand as after the first time, nothing is thrown
that was not thrown then, and an event that moves a claim is ignored, unless it
was refused before it wrote.
-/
theorem redelivery_idempotent (dates : DateApi)
    (hround : ∀ ms, dates.parse (dates.toISOString ms) = some ms)
    {event : OrcEvent} {n m : Int} {s t u : Project}
    {r r' : Except DomainError Unit} (hvalid : ValidEvent dates event)
    (hwork : event.event ≠ .workComplete)
    (hready : event.event ≠ .readyToMerge)
    (hfirst : ∀ ts ∈ dates.parse event.ts, ts ≤ n) (hsecond : n ≤ m)
    (hone : OneActive s.events.runs)
    (h : processEvent dates event (dates.toISOString n) s = (r, t))
    (h' : processEvent dates event (dates.toISOString m) t = (r', u)) :
    SameRecords t u ∧ (∀ e, r' = .error e → r = .error e) ∧
      (event.event ∈ guardedEvents →
        reduceLifecycleEvent dates event (eventClaim t event)
            (dates.toISOString m) = .noop ∨
          ∃ e, r = .error e ∧ r' = .error e ∧ t = s ∧ u = s) := by
  have hsettled := settled_of_valid hround hvalid hfirst hsecond
  by_cases hguarded : event.event ∈ guardedEvents
  · rcases absorbs_guarded (s := s) hsettled hone hguarded with
      ⟨e, hx, hx'⟩ | hnoop
    · cases hx.symm.trans h
      cases hx'.symm.trans h'
      exact ⟨.refl _, fun _ he => he, fun _ => .inr ⟨e, rfl, rfl, rfl, rfl⟩⟩
    · simp only [h] at hnoop
      rw [processEvent_noop hnoop] at h'
      cases h'
      refine ⟨.refl _, fun e he => ?_, fun _ => .inl hnoop⟩
      cases he
  · have hquiet := harmless_other (s := s) hround hsettled hone hguarded hwork
      hready
    obtain ⟨rfl, hsame⟩ := hquiet r' u (by rw [h]; exact h')
    rw [h] at hsame
    refine ⟨hsame, fun e he => ?_, fun hmem => absurd hmem hguarded⟩
    cases he

def startedEvent : OrcEvent where
  seq := 2
  ts := dayDates.toISOString 1000
  event := .runStarted
  actorType := .agent
  actorId := "worker"
  runId := some "run-1"
  taskRef := some "docs/intro"
  agentId := some "worker"

theorem redelivery_idempotent_started :
    ∃ s t u, (runSystem dayDates soloRegistry).Reachable s ∧
      processEvent dayDates startedEvent (dayDates.toISOString 2000) s =
        (.ok (), t) ∧
      processEvent dayDates startedEvent (dayDates.toISOString 9000) t =
        (.ok (), u) ∧
      s.claims.map Claim.state = [.claimed] ∧
      t.claims.map Claim.state = [.inProgress] ∧ SameRecords t u := by
  have hrun : ((runSystem dayDates soloRegistry).run oneTask
      (reportComplete.take 1)).map (fun s =>
        let t := (processEvent dayDates startedEvent
          (dayDates.toISOString 2000) s).2
        (s.claims.map Claim.state, t.claims.map Claim.state,
          (processEvent dayDates startedEvent
            (dayDates.toISOString 2000) s).1.isOk,
          (processEvent dayDates startedEvent
            (dayDates.toISOString 9000) t).1.isOk)) =
      some ([.claimed], [.inProgress], true, true) := by
    decide +kernel
  obtain ⟨s, hs, hparts⟩ := Option.map_eq_some_iff.mp hrun
  obtain ⟨hclaimed, hparts⟩ := Prod.mk.inj hparts
  obtain ⟨hstarted, hparts⟩ := Prod.mk.inj hparts
  obtain ⟨hok, hok'⟩ := Prod.mk.inj hparts
  have hreach := (System.Reachable.initial neverRun_oneTask).run hs
  cases hx : processEvent dayDates startedEvent (dayDates.toISOString 2000) s with
  | mk r t =>
  cases hx' : processEvent dayDates startedEvent (dayDates.toISOString 9000) t with
  | mk r' u =>
  rw [hx] at hok hok' hstarted
  rw [hx'] at hok'
  have hvalid : ValidEvent dayDates startedEvent := by
    change validateEventObject dayDates { startedEvent with seq := 1 } = []
    decide +kernel
  have hsame := redelivery_idempotent dayDates dayDates_round hvalid (by decide)
    (by decide) (by decide +kernel) (by decide)
    (Announced.reachable hreach).one hx hx'
  cases r with
  | error e => cases hok
  | ok u₀ =>
  cases r' with
  | error e => cases hok'
  | ok u₁ => exact ⟨s, t, u, hreach, hx, hx', hclaimed, hstarted, hsame.1⟩

end OrcState.Coordinator
