import OrcState.Coordinator.WatchdogWarnings

/-!
# A silent worker is given up

Each time a silent run is examined, its worker is owed one nudge more or the run
is failed.  Nudges that were sent and nudges that wait for the end of the pass
are counted together, and their number is bounded; so after as many
examinations as the limit, and one, the run is over.
-/

namespace OrcState.Coordinator

open OrcState.Contract OrcState.Foundation OrcState.Store OrcState.Lifecycle
open OrcState.Foundation.Effect

variable {dates : DateApi} {registry : Registry} {cfg : WatchConfig}

/-! ## Silence -/

variable (dates cfg) in
/-- The session is there, and nothing comes from it: no activity, no phase. -/
def unanswered (w : Watch) (claim : Claim) (sight : Sight) : Bool :=
  claim.state = .inProgress && !claimAwaitingInput claim &&
  claim.finalizationState.isNone &&
  (runIdleMs dates claim sight.activity w.now).any (fun idleMs =>
    cfg.workerStaleNudgeMs ≤ idleMs && cfg.remediation.phaseStuckMs ≤ idleMs) &&
  (liveAgent w.agents claim.agentId).isSome &&
  (sight.alive.toOption == some true) &&
  (detectBlockingPromptQuestion sight.prompt).isNone &&
  sight.hookEvents.isEmpty && sight.delivered.isOk &&
  !w.memory.phaseChanged claim.runId sight.phase &&
  (w.memory.count claim.runId ≠ 0 ||
    (w.memory.runInactiveNudgeAtMs claim.runId).all fun last =>
      (cfg.runInactiveNudgeIntervalMs : Int) ≤ w.now - last)

variable (dates cfg) in
/--
The run is silent in this step: if its claim is examined there is no answer, the
nudge it is owed is delivered, no pass throws, and the coordinator goes on.
-/
def silent (runId : RunId) (w : Watch) : WatchStep → Bool
  | .call _ | .tick _ _ _ | .next _ => true
  | .restart => false
  | .send i delivered _ =>
      (w.work[i]?.bind Nudge.progress) ≠ some runId || delivered.isOk
  | .examine sight =>
      match w.stage, w.todo with
      | .starting, claim :: rest =>
          (examineClaimed dates cfg claim sight { w with todo := rest }).1.isOk
      | .running, claim :: rest =>
          (examineRunning dates cfg claim sight
            { w with
              todo := rest
              journal := w.journal ++ [.examined claim.runId] }).1.isOk &&
          (claim.runId ≠ runId || unanswered dates cfg w claim sight)
      | _, _ => true

def examinations (runId : RunId) (journal : List Entry) : Nat :=
  journal.count (.examined runId)

def Watch.owed (w : Watch) (runId : RunId) : Nat :=
  w.memory.count runId + w.queued.count runId

/-! ## What an examination leaves of other runs -/

/-- No further examination, and the same is owed to all but the runs named. -/
structure Aside (named : RunId → Prop) (w w' : Watch) : Prop where
  examined : ∀ r, examinations r w'.journal = examinations r w.journal
  owed : ∀ r, ¬ named r → w'.owed r = w.owed r

theorem Aside.refl {named : RunId → Prop} (w : Watch) : Aside named w w :=
  ⟨fun _ => rfl, fun _ _ => rfl⟩

theorem Aside.trans {named : RunId → Prop} (w m w' : Watch)
    (h : Aside named w m) (h' : Aside named m w') : Aside named w w' :=
  ⟨fun r => (h'.examined r).trans (h.examined r),
    fun r hr => (h'.owed r hr).trans (h.owed r hr)⟩

section Primitives

variable {named : RunId → Prop} {w : Watch}

theorem aside_onProject {α : Type} (x : Op α) :
    Ensures (Aside named) (onProject x) w :=
  ⟨fun _ => rfl, fun _ _ => rfl⟩

theorem aside_remember {f : Memory → Memory}
    (hf : ∀ r, ¬ named r → (f w.memory).count r = w.memory.count r) :
    Ensures (Aside named) (remember f) w := by
  refine ⟨fun _ => rfl, fun r hr => ?_⟩
  change (f w.memory).count r + w.queued.count r = _
  rw [hf r hr]
  rfl

theorem aside_queueNudge {nudge : Nudge}
    (hn : ∀ r ∈ nudge.progress, named r) :
    Ensures (Aside named) (queueNudge nudge) w := by
  refine ⟨fun _ => rfl, fun r hr => ?_⟩
  cases hp : nudge.progress with
  | none => simp [queueNudge, Watch.owed, Watch.queued, hp]
  | some id =>
      have hne : ¬ id = r := fun h => hr (h ▸ hn id (by simp [hp]))
      simp [queueNudge, Watch.owed, Watch.queued, hp, hne]

theorem aside_record {entry : Entry} (hentry : ∀ r, entry ≠ .examined r) :
    Ensures (Aside named) (record entry) w := by
  refine ⟨fun r => ?_, fun _ _ => rfl⟩
  simp [record, examinations, List.count_append, hentry r]

theorem aside_bind {α β : Type} {x : Patrol α} {f : α → Patrol β}
    (hx : Ensures (Aside named) x w)
    (hf : ∀ a t, Ensures (Aside named) (f a) t) :
    Ensures (Aside named) (x >>= f) w :=
  Ensures.bind Aside.trans hx fun a t _ => hf a t

theorem aside_failThen {claim : Claim} {reason code policy : String}
    {sight : Sight} {forget : Memory → Memory}
    (hforget : ∀ m r, ¬ named r → (forget m).count r = m.count r) :
    Ensures (Aside named)
      (failThen dates claim reason code policy sight forget) w :=
  aside_bind (aside_onProject _) fun _ _ =>
    aside_bind (ensures_ofExcept (.refl _) _) fun _ _ =>
      aside_remember (hforget _)

end Primitives

theorem OnlyProject.aside {named : RunId → Prop} {w w' : Watch}
    (h : OnlyProject w w') : Aside named w w' := by
  obtain ⟨p, -, rfl⟩ := h
  exact ⟨fun _ => rfl, fun _ _ => rfl⟩

theorem aside_examineClaimed {claim : Claim} {sight : Sight} {w : Watch} :
    Ensures (Aside fun _ => False) (examineClaimed dates cfg claim sight)
      w := by
  unfold examineClaimed
  refine ensures_read ?_
  split
  · exact aside_remember fun _ _ => rfl
  cases hsent : claim.taskEnvelopeSentAt.bind dates.parse with
  | none => exact ensures_pure (.refl w) ()
  | some sentAt =>
      simp only
      split
      · exact aside_failThen fun _ _ _ => rfl
      split
      · exact ensures_pure (.refl w) ()
      cases hask : detectBlockingPromptQuestion sight.prompt with
      | some question =>
          exact aside_bind (aside_onProject _) fun _ _ => aside_remember fun _ _ => rfl
      | none => exact aside_queueNudge fun r hr => by simp [Nudge.progress] at hr

section Running

variable {claim : Claim} {sight : Sight} {w : Watch}

theorem aside_executeRemediation {policy : RemediationPolicy}
    {message : String} {agent : Agent} :
    Ensures (Aside (· = claim.runId))
      (executeRemediation dates policy message claim agent sight) w := by
  unfold executeRemediation
  simp only
  split
  · exact aside_bind (aside_onProject _) fun _ _ => aside_onProject _
  · split
    · exact aside_bind (ensures_ofExcept (.refl w) _) fun _ _ =>
        aside_bind (aside_record fun _ h => by cases h) fun _ _ =>
        aside_bind (aside_remember fun r hr => by simp [hr]) fun _ _ =>
          aside_onProject _
    · exact aside_onProject _
  all_goals
    refine aside_bind ?_ fun _ _ => aside_onProject _
    exact aside_failThen fun m r hr => by simp [hr]

theorem aside_cascade {idleMs : Nat} :
    Ensures (Aside (· = claim.runId))
      (cascade dates cfg claim idleMs sight) w := by
  unfold cascade
  split
  · exact aside_failThen fun m r hr => by simp [hr]
  refine aside_bind (ensures_of fun _ _ h => (raiseStale_only h).aside)
    fun _ t => ?_
  unfold nudgeStale
  refine ensures_read ?_
  split
  · exact aside_queueNudge fun r hr => by simp_all [Nudge.progress]
  · exact ensures_pure (.refl t) ()

theorem aside_trackPhase {runId : RunId} {phase : Option String} :
    Ensures (Aside (· = runId)) (trackPhase runId phase) w := by
  unfold Ensures trackPhase
  simp only
  split
  · refine ⟨fun r => ?_, fun r hr => ?_⟩
    · simp [examinations, List.count_append]
    · change (w.memory.seePhase runId phase).count r + w.queued.count r = _
      simp [hr, Watch.owed]
  · refine ⟨fun r => rfl, fun r hr => ?_⟩
    change (w.memory.seePhase runId phase).count r + w.queued.count r = _
    simp [hr, Watch.owed]

theorem aside_remediate {idleMs : Nat} :
    Ensures (Aside (· = claim.runId))
      (remediate dates cfg claim idleMs sight) w := by
  unfold remediate
  refine ensures_read (aside_bind aside_trackPhase fun _ t => ?_)
  split
  · exact aside_cascade
  · refine aside_bind (ensures_ofExcept (.refl t) _) fun _ t => ensures_read ?_
    split
    · exact aside_executeRemediation
    · exact aside_cascade

theorem aside_handleFinalizationRetry {idleMs : Nat} :
    Ensures (Aside (· = claim.runId))
      (handleFinalizationRetry dates cfg claim idleMs sight) w := by
  have hremember : ∀ {f : Memory → Memory} (t : Watch),
      (∀ m r, (f m).count r = m.count r) →
      Ensures (Aside (· = claim.runId)) (remember f) t :=
    fun t hf => aside_remember fun r _ => hf _ r
  unfold handleFinalizationRetry
  refine ensures_read ?_
  split
  · exact ensures_pure (.refl w) ()
  split
  · exact aside_bind (ensures_of fun _ _ h => (markFinalizeBlocked_only h).aside)
      fun _ t => hremember t fun _ _ => rfl
  · split
    · exact aside_bind (aside_onProject _) fun _ t => hremember t fun _ _ => rfl
    · exact aside_bind (ensures_of fun _ _ h => (requestRebaseAgain_only h).aside)
        fun _ t => hremember t fun _ _ => rfl

theorem aside_examineRunning :
    Ensures (Aside (· = claim.runId))
      (examineRunning dates cfg claim sight) w := by
  unfold examineRunning
  refine ensures_read ?_
  split
  · exact aside_remember fun r hr => by simp [hr]
  cases hidle : runIdleMs dates claim sight.activity w.now with
  | none => exact ensures_pure (.refl w) ()
  | some idleMs =>
      simp only
      split
      · exact aside_remember fun _ _ => rfl
      split
      all_goals first
        | exact aside_handleFinalizationRetry
        | exact aside_remediate
        | exact aside_remember fun _ _ => rfl

end Running

/-! ## The examination of a silent run -/

/-- With nothing but silence to go by, a policy fails the run or nudges it. -/
theorem policy_quiet {config : RemediationConfig} {signals : RemediationSignals}
    (halive : signals.sessionAlive = true)
    (hprompt : signals.blockingPrompt = none) (hhooks : signals.hookEvents = [])
    (hphase : signals.phaseChanged = false)
    (hidle : config.phaseStuckMs ≤ signals.idleMs) :
    (∃ policy message,
      evaluateRemediationPolicies (builtinPolicies config) signals =
        some (policy, message) ∧
      (policy.action = .requeueNow ∨ policy.action = .block ∨
        policy.action = .nudgeTargeted)) ∨
    evaluateRemediationPolicies (builtinPolicies config) signals = none ∧
      signals.nudgeCount = 0 := by
  cases heval : evaluateRemediationPolicies (builtinPolicies config) signals with
  | none =>
      refine .inr ⟨rfl, ?_⟩
      have hnone := List.find?_eq_none.mp (Option.map_eq_none_iff.mp heval)
      simp [builtinPolicies, halive, hprompt, hhooks, hphase, hidle] at hnone
      omega
  | some chosen =>
      obtain ⟨p, hfind, hp⟩ := Option.map_eq_some_iff.mp heval
      refine .inl ⟨chosen.1, chosen.2, rfl, ?_⟩
      cases hp
      have hmatched := List.find?_some hfind
      have hmem := List.mem_of_find?_eq_some hfind
      simp only [builtinPolicies, List.mem_cons, List.not_mem_nil, or_false]
        at hmem
      rcases hmem with rfl | rfl | rfl | rfl | rfl <;> simp_all

def Pressed (runId : RunId) (w w' : Watch) : Prop :=
  w'.project.live runId = false ∨ w'.owed runId = w.owed runId + 1

section Silent

variable {claim : Claim} {sight : Sight} {w w' : Watch} {u : Unit}

theorem pressed_failThen {reason code policy : String}
    {forget : Memory → Memory} {r : Except DomainError Unit}
    (h : Ready cfg claim w) (hpolicy : policy = "requeue" ∨ policy = "block")
    (hx : failThen dates claim reason code policy sight forget w = (r, w')) :
    w'.project.live claim.runId = false := by
  obtain ⟨p, -, hdead, ⟨-, rfl⟩ | rfl⟩ :=
    failThen_cases h.watched.sound hpolicy h.snapped.holder hx
  · exact hdead
  · exact hdead

theorem Pressed.emitted {runId : RunId} {m : Watch} {event : EventName}
    {payload : Payload} {clock : Int} {r : Except DomainError Unit}
    (h : Pressed runId w m)
    (hx : onProject (emit dates clock event claim payload) m = (r, w')) :
    Pressed runId w w' := by
  injection hx with h1 h2
  subst h2
  have hp : m.project.events.runs =
      (emit dates clock event claim payload m.project).2.events.runs :=
    (appendEvent_cases (Prod.eta _).symm).1.symm
  refine h.imp (fun hdead => ?_) fun howed => howed
  rw [Bool.eq_false_iff, Ne, live_iff] at hdead ⊢
  rwa [← hp]

theorem pressed_executeRemediation {policy : RemediationPolicy}
    {message : String} {agent : Agent} (h : Ready cfg claim w)
    (haction : policy.action = .requeueNow ∨ policy.action = .block ∨
      policy.action = .nudgeTargeted)
    (hagent : truthy agent.sessionHandle = true ∧ agent.status ≠ .offline)
    (hx : executeRemediation dates policy message claim agent sight w =
      (.ok u, w')) : Pressed claim.runId w w' := by
  simp only [executeRemediation] at hx
  rcases haction with haction | haction | haction <;>
    simp only [haction] at hx
  · rcases bind_cases hx with ⟨e, -, he⟩ | ⟨u, m, hfail, hx⟩
    · cases he
    · exact Pressed.emitted
        (.inl (pressed_failThen h (.inl (by simp)) hfail)) hx
  · rcases bind_cases hx with ⟨e, -, he⟩ | ⟨u, m, hfail, hx⟩
    · cases he
    · exact Pressed.emitted
        (.inl (pressed_failThen h (.inr (by simp)) hfail)) hx
  · rw [if_pos hagent] at hx
    rcases ofExcept_cases hx with ⟨⟨e, he⟩, -⟩ | ⟨u, -, hx⟩
    · cases he
    · refine Pressed.emitted (m := { w with
        memory := w.memory.countNudge claim.runId sight.clock
        journal := w.journal ++ [.nudged claim.runId] }) (.inr ?_) hx
      change (w.memory.countNudge claim.runId sight.clock).count claim.runId +
        w.queued.count claim.runId = _
      simp [Watch.owed]
      omega

theorem pressed_cascade {idleMs : Nat} (h : Ready cfg claim w)
    (hidle : cfg.workerStaleNudgeMs ≤ idleMs)
    (hlive : (liveAgent w.agents claim.agentId).isSome = true)
    (hlast : (w.memory.runInactiveNudgeAtMs claim.runId).all (fun last =>
      (cfg.runInactiveNudgeIntervalMs : Int) ≤ w.now - last) = true)
    (hx : cascade dates cfg claim idleMs sight w = (.ok u, w')) :
    Pressed claim.runId w w' := by
  unfold cascade at hx
  split at hx
  · exact .inl (pressed_failThen h (.inl rfl) hx)
  rcases bind_cases hx with ⟨e, -, he⟩ | ⟨u, m, hraise, hx⟩
  · cases he
  obtain ⟨p, -, rfl⟩ := raiseStale_only hraise
  simp only [nudgeStale, read_bind] at hx
  rw [if_pos ⟨hidle, hlive, hlast⟩] at hx
  cases hx
  refine .inr ?_
  simp [Watch.owed, Watch.queued, Nudge.progress]
  omega

theorem liveAgent_eq_some {agents : List Agent} {agentId : AgentId}
    {agent : Agent} (h : liveAgent agents agentId = some agent) :
    byAgent agents agentId = some agent ∧
      truthy agent.sessionHandle = true ∧ agent.status ≠ .offline := by
  obtain ⟨hknown, hlive⟩ := Option.filter_eq_some_iff.mp h
  simpa [hknown] using hlive

theorem pressed_examineRunning (h : Ready cfg claim w)
    (hsilent : unanswered dates cfg w claim sight = true)
    (hx : examineRunning dates cfg claim sight w = (.ok u, w')) :
    Pressed claim.runId w w' := by
  simp only [unanswered, Bool.and_eq_true, decide_eq_true_eq] at hsilent
  obtain ⟨⟨⟨⟨⟨⟨⟨⟨⟨⟨hstate, hawaiting⟩, hfinal⟩, hidle⟩, hagent⟩, halive⟩,
    hprompt⟩, hhooks⟩, -⟩, hphase⟩, hlast⟩ := hsilent
  obtain ⟨idleMs, hsome, hboth⟩ := (Option.any_eq_true _ _).mp hidle
  obtain ⟨hstale, hstuck⟩ : cfg.workerStaleNudgeMs ≤ idleMs ∧
      cfg.remediation.phaseStuckMs ≤ idleMs := by simpa using hboth
  obtain ⟨agent, hlive⟩ := Option.isSome_iff_exists.mp hagent
  obtain ⟨hknown, hhandle⟩ := liveAgent_eq_some hlive
  have hprobe : probe agent sight = .ok true := by
    rw [probe, if_pos hhandle]
    cases hanswer : sight.alive with
    | error e => simp [hanswer, Except.toOption] at halive
    | ok alive => simpa [hanswer, Except.toOption] using halive
  have hsame : w.memory.phaseChanged claim.runId sight.phase = false := by
    simpa using hphase
  set m := (trackPhase claim.runId sight.phase w).2 with hm
  have hmemory : m =
      { w with memory := w.memory.seePhase claim.runId sight.phase } := by
    simp [hm, trackPhase, hsame]
  have hcount : m.memory.count claim.runId = w.memory.count claim.runId := by
    simp [hmemory, hsame]
  have howed : m.owed claim.runId = w.owed claim.runId := by
    simp only [Watch.owed, hcount]
    rw [hmemory]
    rfl
  have hready : Ready cfg claim m := h.phaseSeen hstate sight.phase
  have hnone : claim.finalizationState = none := by simpa using hfinal
  have hwaiting : claimAwaitingInput claim = false := by simpa using hawaiting
  simp only [examineRunning, read_bind, hstate, not_true_eq_false, if_false,
    ne_eq, hsome, hwaiting, hnone, Bool.false_eq_true] at hx
  have htrack : trackPhase claim.runId sight.phase w = (.ok (), m) := rfl
  simp only [remediate, read_bind] at hx
  rw [bind_of_ok htrack] at hx
  simp only [hknown, hprobe, ofExcept_bind, read_bind, hsame] at hx
  have hpressed : Pressed claim.runId m w' := by
    have hquiet : (signalsOf m claim idleMs false true sight).sessionAlive =
        true := rfl
    rcases policy_quiet hquiet (by simpa [signalsOf] using hprompt)
        (by simpa [signalsOf] using hhooks) rfl hstuck with
      ⟨policy, message, heval, haction⟩ | ⟨heval, hzero⟩
    · simp only [heval] at hx
      exact pressed_executeRemediation hready haction hhandle hx
    · simp only [heval] at hx
      have hcount0 : w.memory.count claim.runId = 0 := hcount ▸ hzero
      have hdue : (w.memory.runInactiveNudgeAtMs claim.runId).all (fun last =>
          (cfg.runInactiveNudgeIntervalMs : Int) ≤ w.now - last) = true := by
        simpa [hcount0] using hlast
      refine pressed_cascade hready hstale ?_ ?_ hx
      · rw [hmemory]
        exact hagent
      · rw [hmemory]
        exact hdue
  rcases hpressed with hdead | hmore
  · exact .inl hdead
  · exact .inr (by rw [hmore, howed])

end Silent

/-! ## Runs of the coordinator -/

def Accounts (runId : RunId) (before : Nat) (w : Watch) : Prop :=
  Retired w.project runId ∨
    examinations runId w.journal ≤ before + w.owed runId

theorem Accounts.aside {runId : RunId} {before : Nat} {w w' : Watch}
    {named : RunId → Prop} (h : Accounts runId before w)
    (hw : Aside named w w') (hne : ¬ named runId)
    (honward : Onward w.project w'.project) : Accounts runId before w' := by
  refine h.imp honward.retired fun hle => ?_
  rw [hw.examined, hw.owed runId hne]
  exact hle

theorem settle_of_isOk {r : Except DomainError Unit × Watch}
    (h : r.1.isOk = true) : Watch.settle r = r.2 ∧ ∃ u, r = (.ok u, r.2) := by
  obtain ⟨_ | u, w⟩ := r
  · cases h
  · exact ⟨rfl, u, rfl⟩

theorem owed_sendNudge {w w' : Watch} {i : Nat} {nudge : Nudge}
    {delivered : Except DomainError Unit} {clock : Int} {runId : RunId}
    {r : Except DomainError Unit} (h : Watched cfg w)
    (hnudge : w.work[i]? = some nudge)
    (hsilent : nudge.progress ≠ some runId ∨ delivered.isOk = true)
    (hx : sendNudge dates nudge delivered clock
      { w with work := w.work.eraseIdx i } = (r, w')) :
    examinations runId w'.journal = examinations runId w.journal ∧
      w'.owed runId = w.owed runId := by
  obtain ⟨before, after, hold, hnew⟩ := queued_erased hnudge
  have hqueued : w.queued.count runId =
      { w with work := w.work.eraseIdx i }.queued.count runId +
        if nudge.progress = some runId then 1 else 0 := by
    rw [Watch.queued, Watch.queued, hold, hnew]
    cases hp : nudge.progress with
    | none => simp
    | some id =>
        by_cases hid : id = runId
        · simp [hid]
          omega
        · simp [hid]
  simp only [Coordinator.sendNudge, read_bind, ofExcept_bind] at hx
  cases delivered with
  | error e =>
      cases hx
      have hother : nudge.progress ≠ some runId :=
        hsilent.resolve_right (by simp [Except.isOk, Except.toBool])
      rw [if_neg hother] at hqueued
      exact ⟨rfl, by simp [Watch.owed, hqueued]⟩
  | ok u =>
      simp only at hx
      have hnamed := h.named nudge (List.mem_of_getElem? hnudge)
      cases hkind : nudge.kind with
      | runStart =>
          have hother : nudge.progress ≠ some runId := by
            simp [Nudge.progress, hkind]
          rw [if_neg hother] at hqueued
          simp only [hkind] at hx
          obtain ⟨r', p, -, ⟨e, -, -, rfl⟩ | ⟨u, -, hrest⟩⟩ := onProject_cases hx
          · exact ⟨rfl, by simp only [Watch.owed, hqueued]; rfl⟩
          · cases hrest
            exact ⟨rfl, by simp only [Watch.owed, hqueued]; rfl⟩
      | inProgress idleMs phase =>
          have hrun : nudge.progress = some nudge.claim.runId := by
            simp [Nudge.progress, hkind]
          simp only [hkind] at hx
          rcases bind_cases hx with ⟨e, hrecord, -⟩ | ⟨u, m, hrecord, hx⟩
          · cases hrecord
          cases hrecord
          obtain ⟨p, hemitted⟩ :=
            emit_nudge_sent_ok dates hnamed clock idleMs phase w.project
          obtain ⟨r', q, hemit, hrest⟩ := onProject_cases hx
          rw [hemitted] at hemit
          cases hemit
          rcases hrest with ⟨e, he, -⟩ | ⟨u, -, hrest⟩
          · cases he
          cases hrest
          refine ⟨by simp [examinations, List.count_append], ?_⟩
          change (w.memory.countNudge nudge.claim.runId w.now).count runId +
            { w with work := w.work.eraseIdx i }.queued.count runId =
              w.memory.count runId + w.queued.count runId
          rw [hqueued, hrun, count_countNudge]
          by_cases hid : nudge.claim.runId = runId
          · simp [hid]
            omega
          · simp [hid, Ne.symm hid]

theorem silent_starting {w : Watch} {runId : RunId} {claim : Claim}
    {rest : List Claim} {sight : Sight} (hstage : w.stage = .starting)
    (htodo : w.todo = claim :: rest) :
    silent dates cfg runId w (.examine sight) =
      (examineClaimed dates cfg claim sight { w with todo := rest }).1.isOk := by
  unfold silent
  rw [hstage, htodo]

theorem silent_running {w : Watch} {runId : RunId} {claim : Claim}
    {rest : List Claim} {sight : Sight} (hstage : w.stage = .running)
    (htodo : w.todo = claim :: rest) :
    silent dates cfg runId w (.examine sight) =
      ((examineRunning dates cfg claim sight
        { w with
          todo := rest
          journal := w.journal ++ [.examined claim.runId] }).1.isOk &&
        (claim.runId ≠ runId || unanswered dates cfg w claim sight)) := by
  unfold silent
  rw [hstage, htodo]

/-- One step of a silent run: the account stays open or the run is over. -/
theorem Accounts.step {w w' : Watch} {runId : RunId} {before : Nat}
    {a : WatchStep} (h : Watched cfg w) (hacc : Accounts runId before w)
    (hsilent : silent dates cfg runId w a = true)
    (hstep : Watch.step dates cfg registry w a = some w') :
    Accounts runId before w' := by
  cases a with
  | call action =>
      cases hstep
      exact hacc.imp (Onward.perform h.sound (Prod.eta _).symm).retired id
  | restart => cases hsilent
  | tick agents readable now =>
      simp only [Watch.step] at hstep
      split at hstep
      · rename_i hrest
        cases hstep
        refine hacc.imp id fun hle => ?_
        simpa [Watch.owed, Watch.queued, h.rested hrest] using hle
      · cases hstep
  | next now =>
      simp only [Watch.step] at hstep
      split at hstep
      · cases hstep
        exact hacc
      · cases hstep
        exact hacc
      · cases hstep
  | send i delivered clock =>
      simp only [Watch.step] at hstep
      split at hstep
      · rename_i nudge htodo hnudge
        cases hstep
        have hquiet : nudge.progress ≠ some runId ∨ delivered.isOk = true := by
          simpa [silent, hnudge] using hsilent
        obtain ⟨hexamined, howed⟩ :=
          owed_sendNudge h hnudge hquiet (Prod.eta _).symm
        refine hacc.imp
          (h.sendNudge hnudge (Prod.eta _).symm).2.onward.retired fun hle => ?_
        rw [hexamined, howed]
        exact hle
      · cases hstep
  | examine sight =>
      simp only [Watch.step] at hstep
      split at hstep
      · rename_i claim rest hstage htodo
        cases hstep
        obtain ⟨htaken, hsnapped⟩ := h.takenStart hstage htodo
        rw [silent_starting hstage htodo] at hsilent
        rw [(settle_of_isOk hsilent).1]
        exact Accounts.aside (w := { w with todo := rest }) hacc
          aside_examineClaimed id
          (htaken.examineClaimed hstage hsnapped (Prod.eta _).symm).cares.onward
      · rename_i claim rest hstage htodo
        cases hstep
        rw [silent_running hstage htodo] at hsilent
        simp only [Bool.and_eq_true, Bool.or_eq_true,
          decide_eq_true_eq] at hsilent
        obtain ⟨hok, hquiet⟩ := hsilent
        obtain ⟨hsettle, u, hx⟩ := settle_of_isOk hok
        rw [hsettle]
        have hready := h.taken hstage htodo
        have honward := (hready.examineRunning
          (Prod.eta (examineRunning dates cfg claim sight _)).symm).cares.onward
        by_cases hid : claim.runId = runId
        · have hunanswered := hquiet.resolve_left fun hne => hne hid
          have haside : Ensures (Aside (· = claim.runId))
              (examineRunning dates cfg claim sight) { w with
                todo := rest
                journal := w.journal ++ [Entry.examined claim.runId] } :=
            aside_examineRunning
          rcases pressed_examineRunning hready hunanswered hx with
            hdead | hmore
          · exact .inl ⟨honward.bound _ (hid ▸ hready.snapped.holder.1),
              hid ▸ hdead⟩
          · refine hacc.imp honward.retired fun hle => ?_
            rw [haside.examined, ← hid, hmore]
            have howed : { w with
                todo := rest
                journal := w.journal ++ [Entry.examined claim.runId]
                }.owed claim.runId = w.owed claim.runId := rfl
            rw [← hid] at hle
            simp only [examinations, List.count_append, List.count_singleton,
              BEq.rfl, if_true, howed] at hle ⊢
            omega
        · have hbefore : Accounts runId before { w with
              todo := rest
              journal := w.journal ++ [Entry.examined claim.runId] } := by
            refine hacc.imp id fun hle => ?_
            change examinations runId (w.journal ++ [Entry.examined
              claim.runId]) ≤ before + w.owed runId
            simpa [examinations, List.count_append, List.count_singleton, hid]
              using hle
          exact hbefore.aside aside_examineRunning (Ne.symm hid) honward
      · cases hstep

/--
Take any run of the coordinator in which nobody hears from a worker: its session
is there, its phase stays what it is, and whenever its claim is examined it has
been idle long enough to be nudged.  Other calls and other runs go on as they
like.  Once the claim has been examined more often than the limit of nudges, its
run is over.
-/
theorem silent_run_over {w w' : Watch} {runId : RunId}
    {steps : List WatchStep}
    (hw : (watchSystem dates cfg registry).Reachable w)
    (hrun : (watchSystem dates cfg registry).run w steps = some w')
    (hsilent : (watchSystem dates cfg registry).Along
      (fun v a => silent dates cfg runId v a = true) w steps)
    (hmany : examinations runId w.journal + cfg.remediation.maxNudges <
      examinations runId w'.journal) : w'.project.live runId = false := by
  have hwatched : Watched cfg w := .reachable hw
  have hacc : Accounts runId (examinations runId w.journal) w' :=
    System.along_preserves (I := Watched cfg)
      (fun _ _ _ h hstep => h.step hstep)
      (fun _ _ _ h hacc hok hstep => hacc.step h hok hstep) hwatched
      (.inr (by omega)) hsilent hrun
  have hend : Watched cfg w' := System.run_preserves (I := Watched cfg)
    (P := Watched cfg) (fun _ _ _ h hstep => h.step hstep)
    (fun _ _ _ h _ hstep => h.step hstep) hwatched hwatched hrun
  rcases hacc with hretired | hle
  · exact hretired.2
  · have hcounted := hend.counted runId
    simp only [Watch.owed] at hle
    omega

/-- Two nudges, and the third examination ends the run. -/
theorem silent_run_over_worker :
    ∃ w', (watchSystem .epoch quickWatch soloRegistry).run oneTaskWatch
        (nudgedTwice ++ quietTick 50) = some w' ∧
      (∃ c, w'.project.findClaim "run-1" = some c ∧ c.state = .failed) ∧
      w'.project.live "run-1" = false := by
  have hrun : ((watchSystem .epoch quickWatch soloRegistry).run oneTaskWatch
      (nudgedTwice ++ quietTick 50)).map (fun w =>
        (examinations "run-1" w.journal,
          (w.project.findClaim "run-1").map Claim.state)) =
      some (3, some .failed) := by
    decide +kernel
  obtain ⟨w', hw', hboth⟩ := System.exists_run_of_map _ hrun
  obtain ⟨hthree, hstate⟩ := Prod.mk.inj hboth
  refine ⟨w', hw', Option.map_eq_some_iff.mp hstate, ?_⟩
  refine silent_run_over (.initial idle_oneTaskWatch) hw' (by decide +kernel) ?_
  rw [hthree]
  decide

end OrcState.Coordinator
