import OrcState.Coordinator.Watchdog
import OrcState.Lifecycle.Budget

/-!
# What the watchdog does to the project

Everything the watchdog writes is a call that anybody could make, an event, or
the mark that a stale worker was reported.  None of them revives a run, and only
the failure of a run ends one.
-/

namespace OrcState.Coordinator

open OrcState.Contract OrcState.Foundation OrcState.Store OrcState.Lifecycle
open OrcState.Foundation.Effect

variable {dates : DateApi} {registry : Registry}

/-! ## Claims go forward -/

/-- A stored claim comes from one that was no further, or its run is new. -/
structure Onward (s t : Project) : Prop where
  sound : Sound s → Sound t
  bound : ∀ id, s.tasks.Bound id → t.tasks.Bound id
  source : ∀ c', c' ∈ t.events.runs →
    (∃ c, c ∈ s.events.runs ∧ c.runId = c'.runId ∧ c.agentId = c'.agentId ∧
      (c'.active = true → c.active = true) ∧
      (c'.state = .claimed → c.state = .claimed)) ∨
    ¬ s.tasks.Bound c'.runId

theorem Onward.of_runs {s t : Project} (hsound : Sound s → Sound t)
    (hruns : t.events.runs = s.events.runs) (htasks : t.tasks = s.tasks) :
    Onward s t where
  sound := hsound
  bound id hid := by rwa [htasks]
  source c hc := .inl ⟨c, hruns ▸ hc, rfl, rfl, id, id⟩

theorem Onward.refl (s : Project) : Onward s s := .of_runs id rfl rfl

theorem Onward.trans (s m t : Project) (h : Onward s m) (h' : Onward m t) :
    Onward s t where
  sound hs := h'.sound (h.sound hs)
  bound id hid := h'.bound id (h.bound id hid)
  source c hc := by
    rcases h'.source c hc with ⟨m, hm, hid', hagent', ha', hc'⟩ | hnew
    · rcases h.source m hm with ⟨c₀, hc₀, hid, hagent, ha, hclaimed⟩ | hnew
      · exact .inl ⟨c₀, hc₀, hid.trans hid', hagent.trans hagent',
          fun h => ha (ha' h), fun h => hclaimed (hc' h)⟩
      · exact .inr (hid' ▸ hnew)
    · exact .inr fun hid => hnew (h.bound _ hid)

theorem Onward.of_moved {touch : Touch} {s t : Project}
    (hsound : Sound s → Sound t)
    (hbound : ∀ id, s.tasks.Bound id → t.tasks.Bound id)
    (h : ClaimsMoved dates touch s t) : Onward s t where
  sound := hsound
  bound := hbound
  source c' hc' := by
    rcases h.source c' hc' with ⟨c, hc, hmove⟩ | ⟨-, -, hnew, -⟩
    · exact .inl ⟨c, hc, hmove.runId.symm, hmove.agentId.symm, hmove.active,
        fun hclaimed => (hmove.claimed hclaimed).1⟩
    · exact .inr hnew

theorem Onward.perform {s t : Project} {a : Action} {r : Except DomainError Unit}
    (hs : Sound s) (h : perform dates registry a s = (r, t)) : Onward s t :=
  .of_moved (fun hs => hs.perform h)
    (Budgeted.action hs.one hs.bound h).grounded.bound (.perform hs.bound h)

def Begun (s : Project) (runId : RunId) : Prop :=
  s.tasks.Bound runId ∧
    ∀ c, c ∈ s.events.runs → c.runId = runId → c.state ≠ .claimed

theorem Onward.begun {s t : Project} (h : Onward s t) {runId : RunId}
    (hs : Begun s runId) : Begun t runId := by
  refine ⟨h.bound _ hs.1, fun c hc hid hstate => ?_⟩
  rcases h.source c hc with ⟨c₀, hc₀, hid₀, -, -, hclaimed⟩ | hnew
  · exact hs.2 c₀ hc₀ (hid₀.trans hid) (hclaimed hstate)
  · exact hnew (hid ▸ hs.1)

theorem Onward.retired {s t : Project} (h : Onward s t) {runId : RunId}
    (hs : Retired s runId) : Retired t runId := by
  refine ⟨h.bound _ hs.1, Bool.eq_false_iff.mpr fun hlive => ?_⟩
  obtain ⟨c, hc, rfl, hactive⟩ := live_iff.mp hlive
  rcases h.source c hc with ⟨c₀, hc₀, hid, -, ha, -⟩ | hnew
  · have hold := live_iff.mpr ⟨c₀, hc₀, hid, ha hactive⟩
    rw [hs.2] at hold
    cases hold
  · exact hnew hs.1

/-- Whoever holds the run now, the agent is the one it was claimed by. -/
def Holder (s : Project) (claim : Claim) : Prop :=
  s.tasks.Bound claim.runId ∧
    ∀ c, c ∈ s.events.runs → c.runId = claim.runId → c.agentId = claim.agentId

theorem Onward.holder {s t : Project} (h : Onward s t) {claim : Claim}
    (hs : Holder s claim) : Holder t claim := by
  refine ⟨h.bound _ hs.1, fun c hc hid => ?_⟩
  rcases h.source c hc with ⟨c₀, hc₀, hid₀, hagent, -⟩ | hnew
  · exact hagent ▸ hs.2 c₀ hc₀ (hid₀.trans hid)
  · exact absurd hs.1 (hid ▸ hnew)

/-! ## Runs that a call leaves alive -/

def Spares (except : RunId → Prop) (s t : Project) : Prop :=
  ∀ runId, ¬ except runId → s.live runId = true → t.live runId = true

theorem Spares.refl {except : RunId → Prop} (s : Project) :
    Spares except s s := fun _ _ h => h

theorem Spares.trans {except : RunId → Prop} {s m t : Project}
    (h : Spares except s m) (h' : Spares except m t) : Spares except s t :=
  fun runId hne hlive => h' runId hne (h runId hne hlive)

theorem Spares.of_moved {touch : Touch} {s t : Project} {except : RunId → Prop}
    (h : ClaimsMoved dates touch s t)
    (hends : ∀ c, touch.ends c = true → except c.runId) :
    Spares except s t := by
  intro runId hne hlive
  obtain ⟨c, hc, rfl, hactive⟩ := live_iff.mp hlive
  have hkeep : touch.ends c = false :=
    Bool.eq_false_iff.mpr fun h => hne (hends c h)
  obtain ⟨c', hc', hmove, hlive'⟩ := h.kept c hc hkeep
  exact live_iff.mpr ⟨c', hc', hmove.runId, hlive' hactive⟩

theorem Spares.of_runs {s t : Project} {except : RunId → Prop}
    (h : t.events.runs = s.events.runs) : Spares except s t := by
  intro runId _ hlive
  rwa [live_iff, h, ← live_iff]

/-- Both facts about one write, for every run but the excepted one. -/
structure Cares (except : RunId → Prop) (s t : Project) : Prop where
  onward : Onward s t
  spares : Spares except s t

theorem Cares.refl {except : RunId → Prop} (s : Project) :
    Cares except s s := ⟨.refl s, .refl s⟩

theorem Cares.trans {except : RunId → Prop} {s m t : Project}
    (h : Cares except s m) (h' : Cares except m t) : Cares except s t :=
  ⟨h.onward.trans s m t h'.onward, h.spares.trans h'.spares⟩

theorem Cares.mono {except except' : RunId → Prop} {s t : Project}
    (h : Cares except s t) (hsub : ∀ r, except r → except' r) :
    Cares except' s t :=
  ⟨h.onward, fun r hr => h.spares r fun hex => hr (hsub r hex)⟩

/-- A write that can end no run at all. -/
abbrev Lenient (s t : Project) : Prop := Cares (fun _ => False) s t

theorem Lenient.cares {s t : Project} (h : Lenient s t)
    {except : RunId → Prop} : Cares except s t :=
  h.mono fun _ => False.elim

/-! ## Each write -/

theorem Cares.failRun {claim : Claim} {reason code policy : String}
    {clock : Int} {s t : Project} {r : Except DomainError Unit}
    (h : failRun dates claim reason code policy clock s = (r, t)) :
    Cares (fun id => id = claim.runId) s t := by
  have hmoved : ClaimsMoved dates
      { ends := fun c => c.runId = claim.runId } s t :=
    .finishRun h fun c hid => decide_eq_true hid
  refine ⟨.of_moved (fun hs => hs.finishRun h)
    ((grounded_finishRun s).snd h).bound hmoved, .of_moved hmoved fun c hc => ?_⟩
  exact of_decide_eq_true hc

theorem Lenient.emit {clock : Int} {event : EventName} {claim : Claim}
    {payload : Payload} {s t : Project} {r : Except DomainError Unit}
    (h : emit dates clock event claim payload s = (r, t)) : Lenient s t := by
  obtain ⟨hruns, htasks, -⟩ := appendEvent_cases h
  refine ⟨.of_runs (fun hs => ?_) hruns htasks, .of_runs hruns⟩
  exact hs.of_claims (.of_eq hruns) htasks

theorem Lenient.updateClaim {runId : RunId}
    {check : Claim → Except DomainError Unit} {f : Claim → Claim}
    {s t : Project} {r : Except DomainError Claim}
    (h : updateClaim dates runId check f (fun _ => []) s = (r, t))
    (hf : ∀ c, (f c).runId = c.runId ∧ (f c).taskRef = c.taskRef ∧
      (f c).agentId = c.agentId ∧ (f c).state = c.state) : Lenient s t := by
  have hsound : Sound s → Sound t := fun hs => hs.updateClaim h hf
  rcases updateClaim_cases (fun c => (hf c).1) h with rfl | ⟨-, -, -, hmut, htasks⟩
  · exact .refl _
  refine ⟨⟨hsound, fun id hid => by rwa [htasks], fun c' hc' => ?_⟩,
    fun runId _ hlive => ?_⟩
  · obtain ⟨c, hc, ⟨-, rfl⟩ | ⟨-, rfl⟩⟩ := hmut.source hc'
    · obtain ⟨hid, -, hagent, hstate⟩ := hf c
      exact .inl ⟨c, hc, hid.symm, hagent.symm,
        fun ha => by rwa [Claim.active, hstate] at ha,
        fun hclaimed => by rwa [hstate] at hclaimed⟩
    · exact .inl ⟨_, hc, rfl, rfl, id, id⟩
  · obtain ⟨c, hc, rfl, hactive⟩ := live_iff.mp hlive
    refine live_iff.mpr ⟨_, (hmut.mem _).mpr ⟨c, hc, rfl⟩, ?_⟩
    split
    · obtain ⟨hid, -, -, hstate⟩ := hf c
      exact ⟨hid, by rwa [Claim.active, hstate]⟩
    · exact ⟨rfl, hactive⟩

theorem Lenient.setRunInputState {runId : RunId} {agentId : AgentId}
    {inputState : Option InputState} {requestedAt : Option String}
    {now : String} {s t : Project} {r : Except DomainError Claim}
    (h : setRunInputState dates runId agentId inputState requestedAt now s =
      (r, t)) : Lenient s t :=
  .updateClaim h fun _ => ⟨rfl, rfl, rfl, rfl⟩

theorem Lenient.setRunFinalizationState {runId : RunId} {agentId : AgentId}
    {u : FinalizationUpdate} {s t : Project} {r : Except DomainError Claim}
    (h : setRunFinalizationState dates runId agentId u s = (r, t)) :
    Lenient s t :=
  .updateClaim h fun _ => ⟨rfl, rfl, rfl, rfl⟩

theorem Lenient.setEscalationNotified {runId : RunId} {now : String}
    {s t : Project} {r : Except DomainError Claim}
    (h : setEscalationNotified dates runId now s = (r, t)) : Lenient s t :=
  .updateClaim h fun _ => ⟨rfl, rfl, rfl, rfl⟩

theorem Lenient.recordCoordinatorInputRequest {claim : Claim}
    {question reason : String} {clock : Int} {s t : Project}
    {r : Except DomainError Unit}
    (h : recordCoordinatorInputRequest dates claim question reason clock s =
      (r, t)) : Lenient s t := by
  unfold Coordinator.recordCoordinatorInputRequest at h
  split at h
  · rename_i hset
    cases h
    exact .setRunInputState hset
  · rename_i hset
    exact (Lenient.setRunInputState hset).trans (Lenient.emit h)

/-! ## What a failed run leaves -/

theorem commitFinish_ends {claim : Claim} {agentId : AgentId}
    {o : FinishOptions} {now : String} {s t : Project}
    {r : Except DomainError Unit} (hs : Sound s)
    (hclaim : claim ∈ s.events.runs) (htime : dates.isDateTime o.time = true)
    (hpolicy : KnownPolicy o)
    (h : commitFinish dates claim agentId o now s s = (r, t)) :
    Mutated (fun c => c.runId = claim.runId) (finishClaim o) s.events.runs
      t.events.runs := by
  obtain ⟨db, hdb⟩ : ∃ db, commitClaims dates
      (mutateClaims s.claims (fun c => c.runId = claim.runId) (finishClaim o))
      (finishEvents claim agentId o) s.events = .ok ((), db) :=
    commitMutated_total hs.one (fun _ => ⟨rfl, rfl⟩)
      (fun c _ _ ha => by simp [finishClaim_active] at ha)
      (validFinishEvents hs hclaim htime hpolicy)
  have hmut := commitMutated_claims hdb fun _ => rfl
  have hwrite : onEvents (commitClaims dates
      (mutateClaim s.claims claim.runId (finishClaim o))
      (finishEvents claim agentId o)) s = (.ok (), s.setEvents db) := by
    rw [onEvents, atomically, mutateClaim, hdb]
  unfold commitFinish at h
  cases htask : taskOfRun s claim with
  | none =>
      simp only [htask, hwrite] at h
      cases h
      exact hmut
  | some task =>
      simp only [htask, commitBoth] at h
      rw [bind_of_ok hwrite] at h
      rcases onTasks_cases h with ⟨e, -, rfl⟩ | ⟨⟨⟩, ts, -, -, rfl⟩
      · exact hmut
      · exact hmut

theorem failRun_ends {claim : Claim} {reason code policy : String}
    {clock : Int} {s t : Project} {r : Except DomainError Unit} (hs : Sound s)
    (hpolicy : policy = "requeue" ∨ policy = "block") (hheld : Holder s claim)
    (h : failRun dates claim reason code policy clock s = (r, t)) :
    t.live claim.runId = false := by
  by_cases hlive : s.live claim.runId = true
  · obtain ⟨c, hc, hid, hactive⟩ := live_iff.mp hlive
    have hfind : s.findClaim claim.runId = some c :=
      Table.find?_eq_some.mpr ⟨hc, hid⟩
    have hown : ownClaim s claim.runId claim.agentId = .ok c :=
      ownClaim_ok.mpr ⟨hfind, hheld.2 c hc hid⟩
    have htime : ¬ (dates.parse (dates.toISOString clock)).isNone = true := by
      rw [Option.isNone_iff_eq_none, ← Option.not_isSome_iff_eq_none, not_not]
      exact dates.parse_toISOString clock
    simp only [failRun, finishRun, read_bind, assertValidTimestamp, hown,
      ofExcept_bind, throwIf_bind, if_neg htime, hactive, if_true] at h
    have hmut := commitFinish_ends hs hc (dates.isDateTime_toISOString clock)
      (by exact hpolicy) h
    refine Bool.eq_false_iff.mpr fun hlive => ?_
    obtain ⟨c', hc', hid', hactive'⟩ := live_iff.mp hlive
    obtain ⟨c₀, -, ⟨-, rfl⟩ | ⟨hne, rfl⟩⟩ := hmut.source hc'
    · simp [finishClaim_active] at hactive'
    · simp [hid, hid'] at hne
  · have hretired : Retired s claim.runId :=
      ⟨hheld.1, Bool.eq_false_iff.mpr hlive⟩
    exact ((Cares.failRun h).onward.retired hretired).2

theorem emit_ok {clock : Int} {event : EventName} {claim : Claim}
    {payload : Payload} (hnamed : WellNamed claim)
    (hevent : event ∉ commandEvents)
    (hpayload : validatePayload dates (runEvent (dates.toISOString clock) event
      .coordinator "coordinator" claim payload) = []) (s : Project) :
    ∃ t, emit dates clock event claim payload s = (.ok (), t) := by
  have hvalid : ValidEvent dates (runEvent (dates.toISOString clock) event
      .coordinator "coordinator" claim payload) :=
    (validEvent_runEvent hevent).mpr
      ⟨dates.isDateTime_toISOString clock, hnamed, hpayload⟩
  have hlogged : appendSequencedEvent dates (runEvent
      (dates.toISOString clock) event .coordinator "coordinator" claim payload)
      s.events = .ok ((), _) := appendSequencedEvent_ok.mpr ⟨hvalid, rfl⟩
  simp [emit, onEvents, atomically, hlogged]

variable (dates) in
theorem emit_nudge_sent_ok {claim : Claim} (hnamed : WellNamed claim)
    (clock : Int) (idleMs : Nat) (phase : Option String) (s : Project) :
    ∃ t, emit dates clock .needInput claim
      [("reason", .str "run_progress_stale"), ("action", .str "nudge_sent"),
        ("idle_ms", .num idleMs), ("phase", nullable phase)] s = (.ok (), t) :=
  emit_ok hnamed (by decide) rfl s

end OrcState.Coordinator
