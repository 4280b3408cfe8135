import Mathlib.Data.List.Perm.Basic
import OrcState.Coordinator.WatchdogCalls

/-!
# How often a worker is nudged, and what it takes to fail its run

The count that the coordinator keeps for a run is the number of nudges its
worker got since the phase last changed or the coordinator started.  The count
is dropped only for runs that are over or not begun, so it can be read off the
journal; it never passes the limit, and no run is failed for silence before it.
-/

namespace OrcState.Coordinator

open OrcState.Contract OrcState.Foundation OrcState.Store OrcState.Lifecycle
open OrcState.Foundation.Effect

variable {dates : DateApi} {registry : Registry} {cfg : WatchConfig}

/-! ## Nudges in the journal -/

/-- One entry more: a nudge of the run counts, a new phase starts again. -/
def tally (runId : RunId) (n : Nat) : Entry → Nat
  | .nudged id => if id = runId then n + 1 else n
  | .phaseChanged id => if id = runId then 0 else n
  | .restarted => 0
  | .examined _ | .aborted => n

def nudgesSince (runId : RunId) (journal : List Entry) : Nat :=
  journal.foldl (tally runId) 0

@[simp] theorem nudgesSince_append (runId : RunId) (journal : List Entry)
    (entry : Entry) :
    nudgesSince runId (journal ++ [entry]) =
      tally runId (nudgesSince runId journal) entry := by
  simp [nudgesSince]

/-! ## Claims and runs still to come in this tick -/

def Watch.pending (w : Watch) : List Claim :=
  match w.stage with
  | .resting => []
  | .starting => w.claims
  | .running => w.todo

def Nudge.progress (nudge : Nudge) : Option RunId :=
  match nudge.kind with
  | .runStart => none
  | .inProgress _ _ => some nudge.claim.runId

def Watch.queued (w : Watch) : List RunId := w.work.filterMap Nudge.progress

/-- The run will not be nudged again in this tick. -/
def Watch.Passed (w : Watch) (runId : RunId) : Prop :=
  (∀ c ∈ w.pending, c.runId = runId → c.state ≠ .inProgress) ∧
    runId ∉ w.queued

/-! ## The invariant -/

/-- What is known of a claim of the snapshot, however old it is. -/
structure Snapped (s : Project) (journal : List Entry) (c : Claim) : Prop where
  named : WellNamed c
  holder : Holder s c
  begun : c.state = .inProgress → Begun s c.runId
  ended : c.active = false → Retired s c.runId
  unnudged : c.state = .claimed → nudgesSince c.runId journal = 0

structure Watched (cfg : WatchConfig) (w : Watch) : Prop where
  sound : Sound w.project
  listed : w.stage = .starting → ∀ c ∈ w.todo, c ∈ w.claims
  rested : w.stage = .resting → w.work = []
  snapped : ∀ c ∈ w.pending, Snapped w.project w.journal c
  distinct : (w.pending.map Claim.runId ++ w.queued).Nodup
  named : ∀ n ∈ w.work, WellNamed n.claim
  queued : ∀ r ∈ w.queued, Begun w.project r
  nudged : ∀ r, 0 < nudgesSince r w.journal → Begun w.project r
  tallied : ∀ r, nudgesSince r w.journal = w.memory.count r ∨
    Retired w.project r ∧ w.Passed r
  budget : ∀ r, nudgesSince r w.journal + w.queued.count r ≤
    cfg.remediation.maxNudges
  counted : ∀ r, w.memory.count r + w.queued.count r ≤
    cfg.remediation.maxNudges

theorem Snapped.onward {s t : Project} {journal : List Entry} {c : Claim}
    (h : Snapped s journal c) (hst : Onward s t) : Snapped t journal c where
  named := h.named
  holder := hst.holder h.holder
  begun hstate := hst.begun (h.begun hstate)
  ended hactive := hst.retired (h.ended hactive)
  unnudged := h.unnudged

theorem Watched.onward {w : Watch} (h : Watched cfg w) {p : Project}
    (hp : Onward w.project p) : Watched cfg { w with project := p } where
  sound := hp.sound h.sound
  listed := h.listed
  rested := h.rested
  snapped c hc := (h.snapped c hc).onward hp
  distinct := h.distinct
  named := h.named
  queued r hr := hp.begun (h.queued r hr)
  nudged r hr := hp.begun (h.nudged r hr)
  tallied r := (h.tallied r).imp_right fun hr => ⟨hp.retired hr.1, hr.2⟩
  budget := h.budget
  counted := h.counted

theorem Watched.remembered {w : Watch} (h : Watched cfg w) {m : Memory}
    (hm : ∀ r, m.count r = w.memory.count r) :
    Watched cfg { w with memory := m } where
  sound := h.sound
  listed := h.listed
  rested := h.rested
  snapped := h.snapped
  distinct := h.distinct
  named := h.named
  queued := h.queued
  nudged := h.nudged
  tallied r := by
    rw [hm r]
    exact h.tallied r
  budget := h.budget
  counted r := by
    rw [hm r]
    exact h.counted r

/-- A throw only shortens what the tick still has to do. -/
theorem Watched.aborted {w : Watch} (h : Watched cfg w) :
    Watched cfg { w with
      stage := .resting, todo := [], work := []
      journal := w.journal ++ [.aborted] } where
  sound := h.sound
  listed hstage := by cases hstage
  rested _ := rfl
  snapped c hc := by simp [Watch.pending] at hc
  distinct := by simp [Watch.pending, Watch.queued]
  named n hn := by simp at hn
  queued r hr := by simp [Watch.queued] at hr
  nudged r hr := h.nudged r (by simpa [tally] using hr)
  tallied r := by
    refine (h.tallied r).imp (fun hr => ?_) fun hr => ⟨hr.1, ?_⟩
    · simpa [tally] using hr
    · simp [Watch.Passed, Watch.pending, Watch.queued]
  budget r := by
    have hr := h.budget r
    simp [tally, Watch.queued]
    omega
  counted r := by
    have hr := h.counted r
    simp [Watch.queued]
    omega

theorem Watched.settle {r : Except DomainError Unit} {w : Watch}
    (h : Watched cfg w) : Watched cfg (Watch.settle (r, w)) := by
  cases r with
  | ok u => exact h
  | error e => exact h.aborted

/-! ## The claim under examination -/

/-- A begun run of which the tick holds no other claim and no nudge. -/
structure Alone (cfg : WatchConfig) (runId : RunId) (w : Watch) : Prop where
  watched : Watched cfg w
  begun : Begun w.project runId
  taken : runId ∉ w.pending.map Claim.runId
  unqueued : runId ∉ w.queued
  exact : nudgesSince runId w.journal = w.memory.count runId

structure Ready (cfg : WatchConfig) (claim : Claim) (w : Watch) : Prop where
  watched : Watched cfg w
  running : w.stage = .running
  snapped : Snapped w.project w.journal claim
  taken : claim.runId ∉ w.pending.map Claim.runId
  unqueued : claim.runId ∉ w.queued
  exact : claim.state = .inProgress →
    nudgesSince claim.runId w.journal = w.memory.count claim.runId

theorem Ready.onward {claim : Claim} {w : Watch} (h : Ready cfg claim w)
    {p : Project} (hp : Onward w.project p) :
    Ready cfg claim { w with project := p } :=
  ⟨h.watched.onward hp, h.running, h.snapped.onward hp, h.taken, h.unqueued,
    h.exact⟩

theorem Ready.remembered {claim : Claim} {w : Watch} (h : Ready cfg claim w)
    {m : Memory} (hm : ∀ r, m.count r = w.memory.count r) :
    Ready cfg claim { w with memory := m } := by
  refine ⟨h.watched.remembered hm, h.running, h.snapped, h.taken, h.unqueued, ?_⟩
  rw [hm claim.runId]
  exact h.exact

theorem Ready.passed {claim : Claim} {w : Watch} (h : Ready cfg claim w) :
    w.Passed claim.runId :=
  ⟨fun c hc hid => absurd (List.mem_map.mpr ⟨c, hc, hid⟩) h.taken, h.unqueued⟩

theorem Ready.alone {claim : Claim} {w : Watch} (h : Ready cfg claim w)
    (hstate : claim.state = .inProgress) : Alone cfg claim.runId w :=
  ⟨h.watched, h.snapped.begun hstate, h.taken, h.unqueued, h.exact hstate⟩

theorem Alone.other {runId : RunId} {w : Watch} (h : Alone cfg runId w)
    {c : Claim} (hc : c ∈ w.pending) : c.runId ≠ runId :=
  fun hid => h.taken (List.mem_map.mpr ⟨c, hc, hid⟩)

theorem Alone.queued_count {runId : RunId} {w : Watch}
    (h : Alone cfg runId w) : w.queued.count runId = 0 :=
  List.count_eq_zero.mpr h.unqueued

/-! ## What a step remembers -/

@[simp] theorem count_forgetStart (m : Memory) (r r' : RunId) :
    (m.forgetStart r).count r' = m.count r' := rfl

@[simp] theorem count_forgetNudge (m : Memory) (r r' : RunId) :
    (m.forgetNudge r).count r' = m.count r' := rfl

@[simp] theorem count_nudgedAt (m : Memory) (r r' : RunId) (now : Int) :
    (m.nudgedAt r now).count r' = m.count r' := rfl

@[simp] theorem count_forgetRun (m : Memory) (r r' : RunId) :
    (m.forgetRun r).count r' = if r' = r then 0 else m.count r' := by
  by_cases h : r' = r <;> simp [Memory.count, Memory.forgetRun,
    Memory.forgetNudge, h]

@[simp] theorem count_countNudge (m : Memory) (r r' : RunId) (now : Int) :
    (m.countNudge r now).count r' =
      if r' = r then m.count r + 1 else m.count r' := by
  by_cases h : r' = r <;> simp [Memory.count, Memory.countNudge,
    Memory.nudgedAt, h]

@[simp] theorem count_seePhase (m : Memory) (r r' : RunId)
    (phase : Option String) :
    (m.seePhase r phase).count r' =
      if r' = r ∧ m.phaseChanged r phase = true then 0 else m.count r' := by
  by_cases h : r' = r <;> by_cases hp : m.phaseChanged r phase = true <;>
    simp [Memory.count, Memory.seePhase, h, hp]

/-- What is remembered of a run that is over, or was not begun, can go. -/
theorem Ready.forgotten {claim : Claim} {w : Watch} (h : Ready cfg claim w)
    (hr : nudgesSince claim.runId w.journal = 0 ∨
      Retired w.project claim.runId) :
    Watched cfg { w with memory := w.memory.forgetRun claim.runId } := by
  refine { h.watched with tallied := fun r => ?_, counted := fun r => ?_ }
  · change nudgesSince r w.journal = (w.memory.forgetRun claim.runId).count r ∨
      Retired w.project r ∧ w.Passed r
    by_cases hid : r = claim.runId
    · subst hid
      exact hr.imp (fun hzero => by simpa using hzero) fun hr => ⟨hr, h.passed⟩
    · simpa [hid] using h.watched.tallied r
  · change (w.memory.forgetRun claim.runId).count r + w.queued.count r ≤ _
    have hr := h.watched.counted r
    rw [count_forgetRun]
    split <;> omega

theorem Alone.rewritten {runId : RunId} {w : Watch} (h : Alone cfg runId w)
    {m : Memory} {entry : Entry}
    (hentry : ∀ r n, r ≠ runId → tally r n entry = n)
    (hm : ∀ r, r ≠ runId → m.count r = w.memory.count r)
    (hself : tally runId (w.memory.count runId) entry = m.count runId)
    (hlow : m.count runId ≤ cfg.remediation.maxNudges) :
    Alone cfg runId { w with memory := m, journal := w.journal ++ [entry] } := by
  have hnow : nudgesSince runId (w.journal ++ [entry]) = m.count runId := by
    rw [nudgesSince_append, h.exact, hself]
  have hkept : ∀ r, r ≠ runId →
      nudgesSince r (w.journal ++ [entry]) = nudgesSince r w.journal := by
    intro r hr
    rw [nudgesSince_append, hentry r _ hr]
  refine ⟨{ h.watched with
    snapped := fun c hc => ?_, nudged := fun r hr => ?_
    tallied := fun r => ?_, budget := fun r => ?_, counted := fun r => ?_ },
    h.begun, h.taken, h.unqueued, hnow⟩
  · have hc' := h.watched.snapped c hc
    refine { hc' with unnudged := fun hclaimed => ?_ }
    exact (hkept _ (h.other hc)).trans (hc'.unnudged hclaimed)
  · by_cases hid : r = runId
    · exact hid ▸ h.begun
    · exact h.watched.nudged r (hkept r hid ▸ hr)
  · change nudgesSince r (w.journal ++ [entry]) = m.count r ∨
      Retired w.project r ∧ w.Passed r
    by_cases hid : r = runId
    · exact .inl (hid ▸ hnow)
    · rw [hkept r hid, hm r hid]
      exact h.watched.tallied r
  · change nudgesSince r (w.journal ++ [entry]) + w.queued.count r ≤ _
    by_cases hid : r = runId
    · rw [hid, hnow, h.queued_count]
      exact hlow
    · rw [hkept r hid]
      exact h.watched.budget r
  · change m.count r + w.queued.count r ≤ _
    by_cases hid : r = runId
    · rw [hid, h.queued_count]
      exact hlow
    · rw [hm r hid]
      exact h.watched.counted r

theorem Alone.nudged {runId : RunId} {w : Watch} (h : Alone cfg runId w)
    (hlow : w.memory.count runId < cfg.remediation.maxNudges) (now : Int) :
    Alone cfg runId { w with
      memory := w.memory.countNudge runId now
      journal := w.journal ++ [.nudged runId] } := by
  refine h.rewritten (fun r n hr => ?_) (fun r hr => ?_) ?_ ?_
  · simp [tally, Ne.symm hr]
  · simp [hr]
  · simp [tally]
  · simp
    omega

theorem Ready.of_alone {claim : Claim} {w w' : Watch} (h : Ready cfg claim w)
    (hstate : claim.state = .inProgress) (hproject : w'.project = w.project)
    (hstage : w'.stage = w.stage) (hw' : Alone cfg claim.runId w') :
    Ready cfg claim w' := by
  refine ⟨hw'.watched, hstage.trans h.running, ?_, hw'.taken, hw'.unqueued,
    fun _ => hw'.exact⟩
  have hsnapped := h.snapped
  rw [← hproject] at hsnapped
  refine { hsnapped with unnudged := fun hclaimed => ?_ }
  rw [hstate] at hclaimed
  cases hclaimed

theorem Ready.nudgedNow {claim : Claim} {w : Watch} (h : Ready cfg claim w)
    (hstate : claim.state = .inProgress)
    (hlow : w.memory.count claim.runId < cfg.remediation.maxNudges)
    (now : Int) :
    Ready cfg claim { w with
      memory := w.memory.countNudge claim.runId now
      journal := w.journal ++ [.nudged claim.runId] } :=
  h.of_alone hstate rfl rfl ((h.alone hstate).nudged hlow now)

theorem Ready.phaseSeen {claim : Claim} {w : Watch} (h : Ready cfg claim w)
    (hstate : claim.state = .inProgress) (phase : Option String) :
    Ready cfg claim (trackPhase claim.runId phase w).2 := by
  simp only [trackPhase]
  split
  · rename_i hchanged
    refine h.of_alone hstate rfl rfl ((h.alone hstate).rewritten
      (fun r n hr => ?_) (fun r hr => ?_) ?_ ?_)
    · simp [tally, Ne.symm hr]
    · simp [hr]
    · simp [tally, hchanged]
    · simp [hchanged]
  · rename_i hsame
    exact h.remembered fun r => by simp [hsame]

theorem Ready.queuedNudge {claim : Claim} {w : Watch} (h : Ready cfg claim w)
    (hstate : claim.state = .inProgress)
    (hlow : w.memory.count claim.runId < cfg.remediation.maxNudges)
    (idleMs : Nat) (phase : Option String) :
    Watched cfg { w with
      work := w.work ++
        [{ claim := claim, kind := .inProgress idleMs phase }] } := by
  set nudge : Nudge := { claim := claim, kind := .inProgress idleMs phase }
  have hqueued : { w with work := w.work ++ [nudge] }.queued =
      w.queued ++ [claim.runId] := by
    simp [Watch.queued, nudge, Nudge.progress]
  have hexact := h.exact hstate
  have hcount : ∀ r, (w.queued ++ [claim.runId]).count r =
      w.queued.count r + if claim.runId = r then 1 else 0 := by
    intro r
    simp [List.count_append, List.count_singleton]
  refine { h.watched with
    rested := fun hs => by simp [h.running] at hs
    distinct := ?_, named := fun n hn => ?_, queued := fun r hr => ?_
    tallied := fun r => ?_, budget := fun r => ?_, counted := fun r => ?_ }
  · rw [hqueued, ← List.append_assoc]
    have hdistinct := h.watched.distinct
    change (w.pending.map Claim.runId ++ w.queued ++ [claim.runId]).Nodup
    refine hdistinct.append (List.nodup_singleton _) ?_
    simp [h.taken, h.unqueued]
  · rcases List.mem_append.mp hn with hn | hn
    · exact h.watched.named n hn
    · rw [List.mem_singleton.mp hn]
      exact h.snapped.named
  · rw [hqueued] at hr
    rcases List.mem_append.mp hr with hr | hr
    · exact h.watched.queued r hr
    · rw [List.mem_singleton.mp hr]
      exact h.snapped.begun hstate
  · by_cases hid : r = claim.runId
    · exact .inl (hid ▸ hexact)
    · refine (h.watched.tallied r).imp_right fun hr => ⟨hr.1, hr.2.1, ?_⟩
      simpa [hqueued, hid] using hr.2.2
  · rw [hqueued, hcount]
    have hr := h.watched.budget r
    split
    · rename_i hid
      subst hid
      rw [hexact, (h.alone hstate).queued_count]
      omega
    · omega
  · rw [hqueued, hcount]
    have hr := h.watched.counted r
    split
    · rename_i hid
      subst hid
      rw [(h.alone hstate).queued_count]
      change w.memory.count claim.runId + _ ≤ _
      omega
    · omega

/-! ## Why a run was failed -/

/-- What the watchdog must have seen to fail the run of the claim. -/
inductive FailureCause (dates : DateApi) (cfg : WatchConfig) (w : Watch)
    (claim : Claim) (sight : Sight) : Prop
  | notStarted (sentAt : Int) (stage : w.stage = .starting)
      (sent : claim.taskEnvelopeSentAt.bind dates.parse = some sentAt)
      (late : (cfg.runStartTimeoutMs : Int) ≤ w.now - sentAt)
  | sessionDead (agent : Agent) (stage : w.stage = .running)
      (known : byAgent w.agents claim.agentId = some agent)
      (silent : probe agent sight = .ok false)
  | stale (idleMs : Nat) (stage : w.stage = .running)
      (idle : runIdleMs dates claim sight.activity w.now = some idleMs)
      (late : cfg.workerStaleForceFailMs ≤ idleMs)
  | attemptsSpent (stage : w.stage = .running)
      (warned : 0 < nudgesSince claim.runId w.journal)
      (spent : cfg.remediation.maxAttempts ≤ w.attempts claim.taskRef)
  | nudgesSpent (stage : w.stage = .running)
      (warned : nudgesSince claim.runId w.journal = cfg.remediation.maxNudges)

/-- A call that keeps the invariant, and ends the run only with good reason. -/
structure Handled (cfg : WatchConfig) (claim : Claim) (cause : Prop)
    (w w' : Watch) : Prop where
  watched : Watched cfg w'
  cares : Cares (fun id => id = claim.runId ∧ cause) w.project w'.project

theorem Handled.of_harmless {claim : Claim} {cause : Prop} {w w' : Watch}
    (hw : Watched cfg w') (h : Lenient w.project w'.project) :
    Handled cfg claim cause w w' := ⟨hw, h.cares⟩

theorem Handled.mono {claim : Claim} {cause cause' : Prop} {w w' : Watch}
    (h : Handled cfg claim cause w w') (hcause : cause → cause') :
    Handled cfg claim cause' w w' :=
  ⟨h.watched, h.cares.mono fun _ hid => ⟨hid.1, hcause hid.2⟩⟩

theorem onProject_cases {α β : Type} {x : Op α} {f : α → Patrol β}
    {w w' : Watch} {r : Except DomainError β}
    (h : (onProject x >>= f) w = (r, w')) :
    ∃ r' p, x w.project = (r', p) ∧
      ((∃ e, r' = .error e ∧ r = .error e ∧ w' = { w with project := p }) ∨
        ∃ a, r' = .ok a ∧ f a { w with project := p } = (r, w')) := by
  refine ⟨(x w.project).1, (x w.project).2, rfl, ?_⟩
  rcases bind_cases h with ⟨e, hx, rfl⟩ | ⟨a, m, hx, hf⟩
  · injection hx with h1 h2
    exact .inl ⟨e, h1, rfl, h2.symm⟩
  · injection hx with h1 h2
    exact .inr ⟨a, h1, h2 ▸ hf⟩

theorem failThen_cases {claim : Claim} {reason code policy : String}
    {sight : Sight} {forget : Memory → Memory} {w w' : Watch}
    {r : Except DomainError Unit} (hs : Sound w.project)
    (hpolicy : policy = "requeue" ∨ policy = "block")
    (hheld : Holder w.project claim)
    (h : failThen dates claim reason code policy sight forget w = (r, w')) :
    ∃ p, Cares (fun id => id = claim.runId) w.project p ∧
      p.live claim.runId = false ∧
      ((∃ e, r = .error e) ∧ w' = { w with project := p } ∨
        w' = { w with project := p, memory := forget w.memory }) := by
  obtain ⟨r', p, hfail, hrest⟩ := onProject_cases h
  refine ⟨p, .failRun hfail, failRun_ends hs hpolicy hheld hfail, ?_⟩
  rcases hrest with ⟨e, -, rfl, rfl⟩ | ⟨u, -, hrest⟩
  · exact .inl ⟨⟨e, rfl⟩, rfl⟩
  rcases ofExcept_cases hrest with ⟨herror, rfl⟩ | ⟨u, -, hrest⟩
  · exact .inl ⟨herror, rfl⟩
  · cases hrest
    exact .inr rfl

theorem Ready.failed {claim : Claim} {w w' : Watch} {cause : Prop}
    {reason code policy : String} {sight : Sight} {r : Except DomainError Unit}
    (h : Ready cfg claim w) (hcause : cause)
    (hpolicy : policy = "requeue" ∨ policy = "block")
    (hx : failThen dates claim reason code policy sight
      (Memory.forgetRun claim.runId) w = (r, w')) :
    Handled cfg claim cause w w' := by
  obtain ⟨p, hcares, hdead, hw⟩ :=
    failThen_cases h.watched.sound hpolicy h.snapped.holder hx
  have hready := h.onward hcares.onward
  have hmono : Cares (fun id => id = claim.runId ∧ cause) w.project p :=
    hcares.mono fun id hid => ⟨hid, hcause⟩
  rcases hw with ⟨-, rfl⟩ | rfl
  · exact ⟨hready.watched, hmono⟩
  · exact ⟨hready.forgotten (.inr ⟨hready.snapped.holder.1, hdead⟩), hmono⟩

/-! ## The tiers -/

def OnlyProject (w w' : Watch) : Prop :=
  ∃ p, Lenient w.project p ∧ w' = { w with project := p }

theorem raiseStale_only {claim : Claim} {idleMs : Nat} {sight : Sight}
    {w w' : Watch} {r : Except DomainError Unit}
    (h : raiseStale dates cfg claim idleMs sight w = (r, w')) :
    OnlyProject w w' := by
  unfold raiseStale at h
  split at h
  · obtain ⟨r₁, p, hemit, ⟨e, -, -, rfl⟩ | ⟨u, -, h⟩⟩ := onProject_cases h
    · exact ⟨p, .emit hemit, rfl⟩
    · injection h with h1 h2
      refine ⟨_, (Lenient.emit hemit).trans ?_, h2.symm⟩
      obtain ⟨r₂, hset, -⟩ := result_cases (Prod.eta (Bind.bind
        (setEscalationNotified dates claim.runId (dates.toISOString sight.clock))
        (fun _ => pure ()) p)).symm
      exact Lenient.setEscalationNotified hset
  · cases h
    exact ⟨_, .refl _, rfl⟩

theorem Ready.cascade {claim : Claim} {w w' : Watch} {idleMs : Nat}
    {sight : Sight} {r : Except DomainError Unit} (h : Ready cfg claim w)
    (hstate : claim.state = .inProgress)
    (hlow : (liveAgent w.agents claim.agentId).isSome = true →
      w.memory.count claim.runId < cfg.remediation.maxNudges)
    (hx : cascade dates cfg claim idleMs sight w = (r, w')) :
    Handled cfg claim (cfg.workerStaleForceFailMs ≤ idleMs) w w' := by
  unfold Coordinator.cascade at hx
  split at hx
  · rename_i hlate
    exact h.failed hlate (.inl rfl) hx
  rcases bind_cases hx with ⟨e, hraise, -⟩ | ⟨u, m, hraise, hx⟩
  · obtain ⟨p, hp, rfl⟩ := raiseStale_only hraise
    exact .of_harmless (h.onward hp.onward).watched hp
  obtain ⟨p, hp, rfl⟩ := raiseStale_only hraise
  have hready := h.onward hp.onward
  simp only [nudgeStale, read_bind] at hx
  split at hx
  · rename_i hcond
    cases hx
    exact .of_harmless (hready.queuedNudge hstate (hlow hcond.2.1) _ _) hp
  · cases hx
    exact .of_harmless hready.watched hp

/-! ## Policies -/

theorem Handled.emitted {claim : Claim} {cause : Prop} {w m w' : Watch}
    {event : EventName} {payload : Payload} {clock : Int}
    {r : Except DomainError Unit} (h : Handled cfg claim cause w m)
    (hx : onProject (emit dates clock event claim payload) m = (r, w')) :
    Handled cfg claim cause w w' := by
  injection hx with h1 h2
  subst h2
  have hp : Lenient m.project (emit dates clock event claim payload
    m.project).2 := .emit rfl
  exact ⟨h.watched.onward hp.onward, h.cares.trans hp.cares⟩

theorem Ready.executeRemediation {claim : Claim} {agent : Agent}
    {policy : RemediationPolicy} {message : String} {w w' : Watch}
    {cause : Prop} {sight : Sight} {r : Except DomainError Unit}
    (h : Ready cfg claim w) (hstate : claim.state = .inProgress)
    (hlow : policy.action = .nudgeTargeted →
      w.memory.count claim.runId < cfg.remediation.maxNudges)
    (hcause : policy.action = .requeueNow ∨ policy.action = .block → cause)
    (hx : executeRemediation dates policy message claim agent sight w =
      (r, w')) : Handled cfg claim cause w w' := by
  have hhere : Handled cfg claim cause w w :=
    .of_harmless h.watched (.refl _)
  have hfail : ∀ {reason code p : String}, cause →
      p = "requeue" ∨ p = "block" → ∀ {payload : Payload},
      (failThen dates claim reason code p sight (Memory.forgetRun claim.runId)
        >>= fun _ => onProject (emit dates sight.clock .remediationApplied
          claim payload)) w = (r, w') → Handled cfg claim cause w w' := by
    intro reason code p hc hp payload hx
    rcases bind_cases hx with ⟨e, hx, -⟩ | ⟨u, m, hx, hemit⟩
    · exact h.failed hc hp hx
    · exact (h.failed hc hp hx).emitted hemit
  simp only [Coordinator.executeRemediation] at hx
  cases haction : policy.action with
  | recordInput =>
      simp only [haction] at hx
      obtain ⟨r₁, p, hrecord, ⟨e, -, rfl, rfl⟩ | ⟨u, -, hx⟩⟩ :=
        onProject_cases hx
      · have hp := Lenient.recordCoordinatorInputRequest hrecord
        exact .of_harmless (h.onward hp.onward).watched hp
      · have hp := Lenient.recordCoordinatorInputRequest hrecord
        exact (Handled.of_harmless (h.onward hp.onward).watched hp).emitted hx
  | nudgeTargeted =>
      simp only [haction] at hx
      split at hx
      · rcases ofExcept_cases hx with ⟨-, rfl⟩ | ⟨u, -, hx⟩
        · exact hhere
        · have hnudged := h.nudgedNow hstate (hlow haction) sight.clock
          exact (Handled.of_harmless (w := w) hnudged.watched
            (.refl _)).emitted hx
      · exact hhere.emitted hx
  | requeueNow =>
      simp only [haction] at hx
      exact hfail (hcause (.inl haction)) (.inl (by simp)) hx
  | block =>
      simp only [haction] at hx
      exact hfail (hcause (.inr haction)) (.inr (by simp)) hx

theorem policy_chosen {config : RemediationConfig}
    {signals : RemediationSignals} {policy : RemediationPolicy}
    {message : String}
    (h : evaluateRemediationPolicies (builtinPolicies config) signals =
      some (policy, message)) :
    (policy.action = .nudgeTargeted →
      signals.nudgeCount < config.maxNudges) ∧
    (policy.action = .requeueNow ∨ policy.action = .block →
      signals.sessionAlive = false ∨
      0 < signals.nudgeCount ∧ config.maxAttempts ≤ signals.attemptCount ∨
      config.maxNudges ≤ signals.nudgeCount) := by
  obtain ⟨p, hfind, hp⟩ := Option.map_eq_some_iff.mp h
  cases hp
  have hmatched := List.find?_some hfind
  have hmem := List.mem_of_find?_eq_some hfind
  simp only [builtinPolicies, List.mem_cons, List.not_mem_nil, or_false] at hmem
  rcases hmem with rfl | rfl | rfl | rfl | rfl <;> simp_all

theorem policy_none {config : RemediationConfig} {signals : RemediationSignals}
    (h : evaluateRemediationPolicies (builtinPolicies config) signals = none) :
    signals.sessionAlive = true ∧
      (signals.nudgeCount < config.maxNudges ∨ signals.phaseChanged = true) := by
  have hnone := List.find?_eq_none.mp (Option.map_eq_none_iff.mp h)
  simp only [builtinPolicies, List.mem_cons, List.not_mem_nil, or_false,
    forall_eq_or_imp, forall_eq] at hnone
  obtain ⟨halive, -, -, -, hnudges⟩ := hnone
  refine ⟨by simpa using halive, ?_⟩
  simp only [Bool.and_eq_true, decide_eq_true_eq, not_and,
    Bool.not_eq_true', Bool.not_eq_false] at hnudges
  by_cases hlow : signals.nudgeCount < config.maxNudges
  · exact .inl hlow
  · exact .inr (hnudges (by omega))

/-- Why a run in progress may be failed by a policy or the last tier. -/
def Cause (cfg : WatchConfig) (w : Watch) (claim : Claim) (idleMs : Nat)
    (sight : Sight) : Prop :=
  (∃ agent, byAgent w.agents claim.agentId = some agent ∧
    probe agent sight = .ok false) ∨
  cfg.workerStaleForceFailMs ≤ idleMs ∨
  0 < nudgesSince claim.runId w.journal ∧
    cfg.remediation.maxAttempts ≤ w.attempts claim.taskRef ∨
  nudgesSince claim.runId w.journal = cfg.remediation.maxNudges

theorem liveAgent_eq_none {agents : List Agent} {agentId : AgentId}
    (h : byAgent agents agentId = none) : liveAgent agents agentId = none := by
  simp [liveAgent, h]

theorem Ready.remediate {claim : Claim} {w w' : Watch} {idleMs : Nat}
    {sight : Sight} {r : Except DomainError Unit} (h : Ready cfg claim w)
    (hstate : claim.state = .inProgress)
    (hx : remediate dates cfg claim idleMs sight w = (r, w')) :
    Handled cfg claim (Cause cfg w claim idleMs sight) w w' := by
  have hready := h.phaseSeen hstate sight.phase
  have hexact := h.exact hstate
  have hcounted := h.watched.counted claim.runId
  have hpos := cfg.remediation.maxNudges_pos
  set m := (trackPhase claim.runId sight.phase w).2 with hm
  have hproject : m.project = w.project := by
    simp only [hm, trackPhase]
    split <;> rfl
  have hagents : m.agents = w.agents := by
    simp only [hm, trackPhase]
    split <;> rfl
  have hattempts : m.attempts = w.attempts := by
    simp only [hm, trackPhase]
    split <;> rfl
  have hcount : m.memory.count claim.runId =
      if w.memory.phaseChanged claim.runId sight.phase = true then 0
      else w.memory.count claim.runId := by
    simp only [hm, trackPhase]
    split <;> simp_all
  have hback : ∀ {cause : Prop}, Handled cfg claim cause m w' →
      (cause → Cause cfg w claim idleMs sight) →
      Handled cfg claim (Cause cfg w claim idleMs sight) w w' := by
    intro cause hh hc
    have hh' := hh.mono hc
    exact ⟨hh'.watched, hproject ▸ hh'.cares⟩
  have htrack : trackPhase claim.runId sight.phase w = (.ok (), m) := rfl
  simp only [Coordinator.remediate, read_bind] at hx
  rw [bind_of_ok htrack] at hx
  cases hagent : byAgent w.agents claim.agentId with
  | none =>
      simp only [hagent] at hx
      refine hback (hready.cascade hstate (fun hlive => ?_) hx) fun hlate =>
        .inr (.inl hlate)
      rw [hagents, liveAgent_eq_none hagent] at hlive
      cases hlive
  | some agent =>
      simp only [hagent] at hx
      rcases ofExcept_cases hx with ⟨-, rfl⟩ | ⟨alive, hprobe, hx⟩
      · have hdead : Handled cfg claim False m m :=
          .of_harmless hready.watched (.refl _)
        exact hback hdead False.elim
      simp only [read_bind] at hx
      cases heval : evaluateRemediationPolicies
          (builtinPolicies cfg.remediation) (signalsOf m claim idleMs
            (w.memory.phaseChanged claim.runId sight.phase) alive sight) with
      | some chosen =>
          simp only [heval] at hx
          obtain ⟨hlow, hcause⟩ := policy_chosen heval
          refine hback (hready.executeRemediation hstate hlow (fun haction =>
            hcause haction) hx) fun hwhy => ?_
          simp only [signalsOf, hcount, hattempts] at hwhy
          rcases hwhy with hdead | ⟨hwarned, hspent⟩ | hspent
          · exact .inl ⟨agent, hagent, hdead ▸ hprobe⟩
          · refine .inr (.inr (.inl ⟨?_, hspent⟩))
            split at hwarned <;> omega
          · refine .inr (.inr (.inr ?_))
            split at hspent <;> omega
      | none =>
          simp only [heval] at hx
          obtain ⟨-, hlow⟩ := policy_none heval
          refine hback (hready.cascade hstate (fun _ => ?_) hx) fun hlate =>
            .inr (.inl hlate)
          simp only [signalsOf] at hlow
          rcases hlow with hlow | hchanged
          · exact hlow
          · rw [hcount, if_pos hchanged]
            exact hpos

/-! ## One claim of the second pass -/

theorem markFinalizeBlocked_only {claim : Claim} {reason : String}
    {sight : Sight} {w w' : Watch} {r : Except DomainError Unit}
    (h : markFinalizeBlocked dates claim reason sight w = (r, w')) :
    OnlyProject w w' := by
  unfold markFinalizeBlocked at h
  split at h
  · rename_i hset
    cases h
    exact ⟨_, .setRunFinalizationState hset, rfl⟩
  · rename_i hset
    cases h
    exact ⟨_, .setRunFinalizationState hset, rfl⟩

theorem requestRebaseAgain_only {claim : Claim} {reason : String}
    {sight : Sight} {w w' : Watch} {r : Except DomainError Unit}
    (h : requestRebaseAgain dates claim reason sight w = (r, w')) :
    OnlyProject w w' := by
  simp only [requestRebaseAgain] at h
  split at h
  · exact markFinalizeBlocked_only h
  split at h
  · rename_i hset
    cases h
    exact ⟨_, .setRunFinalizationState hset, rfl⟩
  · rename_i updated p hset
    have hp : Lenient w.project p := .setRunFinalizationState hset
    split at h
    · cases h
      exact ⟨_, hp.trans (Lenient.setRunFinalizationState rfl), rfl⟩
    · split at h
      · obtain ⟨q, hq, rfl⟩ := markFinalizeBlocked_only h
        exact ⟨q, hp.trans hq, rfl⟩
      · cases h
        exact ⟨p, hp, rfl⟩

theorem Ready.retried {claim : Claim} {w w' : Watch} {idleMs : Nat}
    {sight : Sight} {r : Except DomainError Unit} {cause : Prop}
    (h : Ready cfg claim w)
    (hx : handleFinalizationRetry dates cfg claim idleMs sight w = (r, w')) :
    Handled cfg claim cause w w' := by
  -- a harmless write of the project, then a map that is not counted
  have hthen : ∀ {x : Patrol Unit} {f : Memory → Memory},
      (x >>= fun _ => remember f) w = (r, w') →
      (∀ {r m}, x w = (r, m) → OnlyProject w m) →
      (∀ m r, (f m).count r = m.count r) →
      Handled cfg claim cause w w' := by
    intro x f hx hxw hf
    rcases bind_cases hx with ⟨e, hx, -⟩ | ⟨u, m, hx, hm⟩
    · obtain ⟨p, hp, rfl⟩ := hxw hx
      exact .of_harmless (h.onward hp.onward).watched hp
    · obtain ⟨p, hp, rfl⟩ := hxw hx
      cases hm
      exact .of_harmless
        ((h.onward hp.onward).remembered (hf _)).watched hp
  simp only [handleFinalizationRetry, read_bind] at hx
  split at hx
  · cases hx
    exact .of_harmless h.watched (.refl _)
  cases hlive : liveAgent w.agents claim.agentId with
  | none =>
      simp only [hlive] at hx
      exact hthen hx markFinalizeBlocked_only fun _ _ => rfl
  | some agent =>
      simp only [hlive] at hx
      cases hask : detectBlockingPromptQuestion sight.prompt with
      | some question =>
          simp only [hask] at hx
          refine hthen hx (fun hr => ?_) fun _ _ => rfl
          injection hr with h1 h2
          exact ⟨_, .recordCoordinatorInputRequest (Prod.eta _).symm, h2.symm⟩
      | none =>
          simp only [hask] at hx
          exact hthen hx requestRebaseAgain_only fun _ _ => rfl

theorem Ready.examineRunning {claim : Claim} {w w' : Watch} {sight : Sight}
    {r : Except DomainError Unit} (h : Ready cfg claim w)
    (hx : examineRunning dates cfg claim sight w = (r, w')) :
    Handled cfg claim (∃ idleMs,
      runIdleMs dates claim sight.activity w.now = some idleMs ∧
        Cause cfg w claim idleMs sight) w w' := by
  have hforget : ∀ m : Memory, (∀ r, m.count r = w.memory.count r) →
      Handled cfg claim (∃ idleMs,
        runIdleMs dates claim sight.activity w.now = some idleMs ∧
          Cause cfg w claim idleMs sight) w { w with memory := m } :=
    fun m hm => .of_harmless (h.remembered hm).watched (.refl _)
  simp only [Coordinator.examineRunning, read_bind] at hx
  split at hx
  · rename_i hstate
    cases hx
    refine .of_harmless (h.forgotten ?_) (.refl _)
    cases hc : claim.state with
    | claimed => exact .inl (h.snapped.unnudged hc)
    | inProgress => exact absurd hc hstate
    | done => exact .inr (h.snapped.ended (by rw [Claim.active, hc]; rfl))
    | failed => exact .inr (h.snapped.ended (by rw [Claim.active, hc]; rfl))
  rename_i hstate
  rw [not_not] at hstate
  cases hidle : runIdleMs dates claim sight.activity w.now with
  | none =>
      simp only [hidle] at hx
      cases hx
      exact .of_harmless h.watched (.refl _)
  | some idleMs =>
      simp only [hidle] at hx
      have hremediate :
          Coordinator.remediate dates cfg claim idleMs sight w = (r, w') →
          Handled cfg claim (∃ idleMs', some idleMs = some idleMs' ∧
            Cause cfg w claim idleMs' sight) w w' := fun hx =>
        (h.remediate hstate hx).mono fun hcause => ⟨idleMs, rfl, hcause⟩
      rw [hidle] at hforget
      split at hx
      · cases hx
        exact hforget _ fun _ => rfl
      rcases hfinal : claim.finalizationState with _ | state
      · simp only [hfinal] at hx
        exact hremediate hx
      · cases state <;> simp only [hfinal] at hx
        all_goals first
          | exact h.retried hx
          | exact hremediate hx
          | (cases hx; exact hforget _ fun _ => rfl)

end OrcState.Coordinator
