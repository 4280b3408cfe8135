import OrcState.Coordinator.WatchdogBudget

/-!
# Warnings before failures

Every step of every run keeps the invariant of the nudge counts.  So a worker is
never nudged more often than the limit within a phase, and a run that the
watchdog ends had a dead session, was idle beyond the last tier, never started
in time, or had been warned first.
-/

namespace OrcState.Coordinator

open OrcState.Contract OrcState.Foundation OrcState.Store OrcState.Lifecycle
open OrcState.Foundation.Effect

variable {dates : DateApi} {registry : Registry} {cfg : WatchConfig}

/-! ## One claim of the first pass -/

theorem Watched.queuedStart {claim : Claim} {w : Watch} (h : Watched cfg w)
    (hstage : w.stage = .starting) (hnamed : WellNamed claim) :
    Watched cfg { w with
      work := w.work ++ [{ claim := claim, kind := .runStart }] } := by
  set nudge : Nudge := { claim := claim, kind := .runStart }
  have hqueued : { w with work := w.work ++ [nudge] }.queued = w.queued := by
    simp [Watch.queued, nudge, Nudge.progress]
  refine { h with
    rested := fun hs => by simp [hstage] at hs
    distinct := ?_, named := fun n hn => ?_, queued := fun r hr => ?_
    tallied := fun r => ?_, budget := fun r => ?_, counted := fun r => ?_ }
  · rw [hqueued]
    exact h.distinct
  · rcases List.mem_append.mp hn with hn | hn
    · exact h.named n hn
    · rw [List.mem_singleton.mp hn]
      exact hnamed
  · exact h.queued r (hqueued ▸ hr)
  · refine (h.tallied r).imp_right fun hr => ⟨hr.1, hr.2.1, ?_⟩
    rw [hqueued]
    exact hr.2.2
  · rw [hqueued]
    exact h.budget r
  · rw [hqueued]
    exact h.counted r

theorem Watched.examineClaimed {claim : Claim} {w w' : Watch} {sight : Sight}
    {r : Except DomainError Unit} (h : Watched cfg w)
    (hstage : w.stage = .starting)
    (hsnapped : Snapped w.project w.journal claim)
    (hx : examineClaimed dates cfg claim sight w = (r, w')) :
    Handled cfg claim (∃ sentAt,
      claim.taskEnvelopeSentAt.bind dates.parse = some sentAt ∧
        (cfg.runStartTimeoutMs : Int) ≤ w.now - sentAt) w w' := by
  simp only [Coordinator.examineClaimed, read_bind] at hx
  split at hx
  · cases hx
    exact .of_harmless (h.remembered fun _ => rfl) (.refl _)
  cases hsent : claim.taskEnvelopeSentAt.bind dates.parse with
  | none =>
      simp only [hsent] at hx
      cases hx
      exact .of_harmless h (.refl _)
  | some sentAt =>
      simp only [hsent] at hx
      split at hx
      · rename_i hlate
        obtain ⟨p, hcares, -, hw⟩ :=
          failThen_cases h.sound (.inl rfl) hsnapped.holder hx
        have hp := h.onward hcares.onward
        have hmono : Cares (fun id => id = claim.runId ∧
            ∃ sentAt', some sentAt = some sentAt' ∧
              (cfg.runStartTimeoutMs : Int) ≤ w.now - sentAt') w.project p :=
          hcares.mono fun id hid => ⟨hid, sentAt, rfl, hlate⟩
        rcases hw with ⟨-, rfl⟩ | rfl
        · exact ⟨hp, hmono⟩
        · exact ⟨hp.remembered fun _ => rfl, hmono⟩
      split at hx
      · cases hx
        exact .of_harmless h (.refl _)
      cases hask : detectBlockingPromptQuestion sight.prompt with
      | some question =>
          simp only [hask] at hx
          obtain ⟨r', p, hrecord, hrest⟩ := onProject_cases hx
          have hp := Lenient.recordCoordinatorInputRequest hrecord
          rcases hrest with ⟨e, -, -, rfl⟩ | ⟨u, -, hrest⟩
          · exact .of_harmless (h.onward hp.onward) hp
          · cases hrest
            exact .of_harmless ((h.onward hp.onward).remembered fun _ => rfl) hp
      | none =>
          simp only [hask] at hx
          cases hx
          exact .of_harmless (h.queuedStart hstage hsnapped.named) (.refl _)

/-! ## The batch of nudges -/

theorem queued_erased {work : List Nudge} {i : Nat} {nudge : Nudge}
    (h : work[i]? = some nudge) :
    ∃ before after, work.filterMap Nudge.progress =
        before ++ nudge.progress.toList ++ after ∧
      (work.eraseIdx i).filterMap Nudge.progress = before ++ after := by
  obtain ⟨hi, rfl⟩ := List.getElem?_eq_some_iff.mp h
  refine ⟨(work.take i).filterMap Nudge.progress,
    (work.drop (i + 1)).filterMap Nudge.progress, ?_, ?_⟩
  · conv_lhs => rw [← List.take_append_drop i work]
    rw [List.filterMap_append, List.drop_eq_getElem_cons hi,
      List.filterMap_cons]
    cases hp : (work[i]).progress <;> simp
  · rw [List.eraseIdx_eq_take_drop_succ, List.filterMap_append]

theorem Watched.dropped {w : Watch} (h : Watched cfg w) {work : List Nudge}
    (hwork : work.Sublist w.work) : Watched cfg { w with work := work } := by
  have hqueued : { w with work := work }.queued.Sublist w.queued :=
    hwork.filterMap _
  refine { h with
    rested := fun hs => by simpa [h.rested hs] using hwork
    distinct := ?_, named := fun n hn => h.named n (hwork.subset hn)
    queued := fun r hr => h.queued r (hqueued.subset hr)
    tallied := fun r => ?_, budget := fun r => ?_, counted := fun r => ?_ }
  · exact h.distinct.sublist ((List.Sublist.refl _).append hqueued)
  · exact (h.tallied r).imp_right fun hr =>
      ⟨hr.1, hr.2.1, fun hmem => hr.2.2 (hqueued.subset hmem)⟩
  · have hcount := hqueued.count_le r
    have hr := h.budget r
    change nudgesSince r w.journal + _ ≤ _
    omega
  · have hcount := hqueued.count_le r
    have hr := h.counted r
    change w.memory.count r + _ ≤ _
    omega

theorem Watched.unqueued {w : Watch} (h : Watched cfg w) {i : Nat}
    {nudge : Nudge} (hnudge : w.work[i]? = some nudge) {runId : RunId}
    (hrun : nudge.progress = some runId) :
    Alone cfg runId { w with work := w.work.eraseIdx i } ∧
      w.memory.count runId < cfg.remediation.maxNudges := by
  obtain ⟨before, after, hold, hnew⟩ := queued_erased hnudge
  have hq : w.queued = before ++ [runId] ++ after := by
    rw [Watch.queued, hold, hrun]
    rfl
  have hmem : runId ∈ w.queued := by simp [hq]
  have hdistinct := h.distinct
  rw [hq] at hdistinct
  have hnot : runId ∉ before ++ after := by
    have hnodup := (List.nodup_append.mp hdistinct).2.1
    simp only [List.append_assoc, List.nodup_append, List.singleton_append,
      List.nodup_cons, List.mem_cons] at hnodup
    simp only [List.mem_append, not_or]
    refine ⟨fun hb => ?_, hnodup.2.1.1⟩
    exact hnodup.2.2 runId hb runId (.inl rfl) rfl
  have htaken : runId ∉ w.pending.map Claim.runId := fun hp =>
    (List.nodup_append.mp hdistinct).2.2 runId hp runId (by simp) rfl
  refine ⟨⟨h.dropped (List.eraseIdx_sublist _ _), h.queued runId hmem, htaken,
    ?_, ?_⟩, ?_⟩
  · change runId ∉ (w.work.eraseIdx i).filterMap Nudge.progress
    rw [hnew]
    exact hnot
  · rcases h.tallied runId with hsame | hover
    · exact hsame
    · exact absurd hmem hover.2.2
  · have hone := List.count_pos_iff.mpr hmem
    have hcounted := h.counted runId
    omega

theorem Watched.sendNudge {w w' : Watch} {i : Nat} {nudge : Nudge}
    {delivered : Except DomainError Unit} {clock : Int}
    {r : Except DomainError Unit} (h : Watched cfg w)
    (hnudge : w.work[i]? = some nudge)
    (hx : sendNudge dates nudge delivered clock
      { w with work := w.work.eraseIdx i } = (r, w')) :
    Watched cfg w' ∧ Lenient w.project w'.project := by
  have hdropped : Watched cfg { w with work := w.work.eraseIdx i } :=
    h.dropped (List.eraseIdx_sublist _ _)
  simp only [Coordinator.sendNudge, read_bind] at hx
  rcases ofExcept_cases hx with ⟨-, rfl⟩ | ⟨u, -, hx⟩
  · exact ⟨hdropped, .refl _⟩
  have hnamed := h.named nudge (List.mem_of_getElem? hnudge)
  cases hkind : nudge.kind with
  | runStart =>
      simp only [hkind] at hx
      obtain ⟨r', p, hemit, hrest⟩ := onProject_cases hx
      have hp := Lenient.emit hemit
      rcases hrest with ⟨e, -, -, rfl⟩ | ⟨u, -, hrest⟩
      · exact ⟨hdropped.onward hp.onward, hp⟩
      · cases hrest
        exact ⟨(hdropped.onward hp.onward).remembered fun _ => rfl, hp⟩
  | inProgress idleMs phase =>
      simp only [hkind] at hx
      have hrun : nudge.progress = some nudge.claim.runId := by
        simp [Nudge.progress, hkind]
      obtain ⟨halone, hlow⟩ := h.unqueued hnudge hrun
      rcases bind_cases hx with ⟨e, hrecord, -⟩ | ⟨u, m, hrecord, hx⟩
      · cases hrecord
      cases hrecord
      obtain ⟨p, hemitted⟩ :=
        emit_nudge_sent_ok dates hnamed clock idleMs phase w.project
      obtain ⟨r', q, hemit, hrest⟩ := onProject_cases hx
      rw [hemitted] at hemit
      cases hemit
      have hp := Lenient.emit hemitted
      rcases hrest with ⟨e, he, -⟩ | ⟨u, -, hrest⟩
      · cases he
      · cases hrest
        exact ⟨(halone.nudged hlow w.now).watched.onward hp.onward, hp⟩

/-! ## Every step -/

theorem Watched.snapshot {w : Watch} (h : Watched cfg w) {c : Claim}
    (hc : c ∈ w.project.events.runs) : Snapped w.project w.journal c := by
  have hbound := h.sound.bound c hc
  have hself : ∀ c', c' ∈ w.project.events.runs → c'.runId = c.runId → c' = c :=
    fun c' hc' hid => Table.eq_of_key hc' hc hid
  refine ⟨h.sound.named c hc, ⟨hbound, fun c' hc' hid => by
    rw [hself c' hc' hid]⟩, fun hstate => ⟨hbound, fun c' hc' hid => ?_⟩,
    fun hended => ⟨hbound, Bool.eq_false_iff.mpr fun hlive => ?_⟩,
    fun hclaimed => ?_⟩
  · rw [hself c' hc' hid, hstate]
    decide
  · obtain ⟨c', hc', hid, hactive⟩ := live_iff.mp hlive
    rw [hself c' hc' hid, hended] at hactive
    cases hactive
  · by_contra hne
    exact (h.nudged c.runId (Nat.pos_of_ne_zero hne)).2 c hc rfl hclaimed

/-- What the tick has still to do shrinks, or starts over from the store. -/
theorem Watched.tick {w : Watch} (h : Watched cfg w) (agents : List Agent)
    (attempts : TaskRef → Nat) (now : Int) :
    Watched cfg { w with
      stage := .starting, now := now, agents := agents, attempts := attempts
      claims := w.project.claims, todo := w.project.claims, work := [] } := by
  refine { h with
    listed := fun _ c hc => hc, rested := fun _ => rfl
    snapped := fun c hc => h.snapshot hc
    distinct := ?_, named := fun n hn => by simp at hn
    queued := fun r hr => by simp [Watch.queued] at hr
    tallied := fun r => (h.tallied r).imp_right fun hr => ⟨hr.1, ?_, ?_⟩
    budget := fun r => ?_, counted := fun r => ?_ }
  · simpa [Watch.queued, Watch.pending, Project.claims] using
      w.project.events.runs.nodup
  · rintro c hc rfl hstate
    have hlive := hr.1.2
    rw [Bool.eq_false_iff] at hlive
    exact hlive (live_iff.mpr ⟨c, hc, rfl, by rw [Claim.active, hstate]; rfl⟩)
  · simp [Watch.queued]
  · have hr := h.budget r
    change nudgesSince r w.journal + 0 ≤ _
    omega
  · have hr := h.counted r
    change w.memory.count r + 0 ≤ _
    omega

/-- The head of the second pass is taken off, and the journal says so. -/
theorem Watched.taken {w : Watch} (h : Watched cfg w) {claim : Claim}
    {rest : List Claim} (hstage : w.stage = .running)
    (htodo : w.todo = claim :: rest) :
    Ready cfg claim { w with
      todo := rest, journal := w.journal ++ [.examined claim.runId] } := by
  have hpending : w.pending = claim :: rest := by
    simp [Watch.pending, hstage, htodo]
  have hrest : { w with
      todo := rest
      journal := w.journal ++ [Entry.examined claim.runId] }.pending = rest := by
    simp [Watch.pending, hstage]
  have hmem : claim ∈ w.pending := by simp [hpending]
  have hsub : ∀ c ∈ rest, c ∈ w.pending := fun c hc => by simp [hpending, hc]
  have hsame : ∀ r, nudgesSince r
      (w.journal ++ [Entry.examined claim.runId]) = nudgesSince r w.journal :=
    fun r => by simp [tally]
  have hsnap : ∀ {c : Claim}, c ∈ w.pending →
      Snapped w.project (w.journal ++ [Entry.examined claim.runId]) c :=
    fun hc =>
    { h.snapped _ hc with
      unnudged := fun hclaimed => (hsame _).trans
        ((h.snapped _ hc).unnudged hclaimed) }
  have hdistinct := h.distinct
  rw [hpending, List.map_cons, List.cons_append, List.nodup_cons,
    List.mem_append, not_or] at hdistinct
  refine ⟨{ h with
    listed := fun hstarting => by simp [hstage] at hstarting
    snapped := fun c hc => hsnap (hsub c (hrest ▸ hc)), distinct := ?_
    nudged := fun r hr => h.nudged r (hsame r ▸ hr)
    tallied := fun r => ?_, budget := fun r => ?_ },
    hstage, hsnap hmem, ?_, hdistinct.1.2, fun hstate => ?_⟩
  · rw [hrest]
    exact hdistinct.2
  · rw [hsame]
    refine (h.tallied r).imp_right fun hr => ⟨hr.1, ?_, hr.2.2⟩
    rw [hrest]
    exact fun c hc => hr.2.1 c (hsub c hc)
  · rw [hsame]
    exact h.budget r
  · rw [hrest]
    exact hdistinct.1.1
  · rw [hsame]
    refine (h.tallied claim.runId).resolve_right fun hover => ?_
    exact hover.2.1 claim hmem rfl hstate

/-- The head of the first pass; its claim is still in the snapshot. -/
theorem Watched.takenStart {w : Watch} (h : Watched cfg w) {claim : Claim}
    {rest : List Claim} (hstage : w.stage = .starting)
    (htodo : w.todo = claim :: rest) :
    Watched cfg { w with todo := rest } ∧
      Snapped w.project w.journal claim := by
  have hlisted := h.listed hstage
  have hpending : w.pending = w.claims := by simp [Watch.pending, hstage]
  have hsame : { w with todo := rest }.pending = w.pending := by
    simp [Watch.pending, hstage]
  refine ⟨{ h with
    listed := fun _ c hc => hlisted c (by simp [htodo, hc])
    snapped := fun c hc => h.snapped c (hsame ▸ hc), distinct := ?_
    tallied := fun r => ?_ }, h.snapped claim ?_⟩
  · rw [hsame]
    exact h.distinct
  · refine (h.tallied r).imp_right fun hr => ⟨hr.1, ?_, hr.2.2⟩
    rw [hsame]
    exact hr.2.1
  · rw [hpending]
    exact hlisted claim (by simp [htodo])

theorem Watched.nextPass {w : Watch} (h : Watched cfg w)
    (hstage : w.stage = .starting) (now : Int) :
    Watched cfg { w with stage := .running, now := now, todo := w.claims } := by
  have hpending : w.pending = w.claims := by simp [Watch.pending, hstage]
  have hdistinct := h.distinct
  have hsnapped := h.snapped
  rw [hpending] at hdistinct hsnapped
  refine { h with
    listed := fun hs => (by cases hs), rested := fun hs => (by cases hs)
    snapped := hsnapped
    distinct := hdistinct, tallied := fun r => ?_ }
  refine (h.tallied r).imp_right fun hr => ⟨hr.1, ?_, hr.2.2⟩
  have hpassed := hr.2.1
  rw [hpending] at hpassed
  exact hpassed

theorem Watched.atRest {w : Watch} (h : Watched cfg w)
    (hwork : w.work = []) : Watched cfg { w with stage := .resting } where
  sound := h.sound
  listed hs := by cases hs
  rested _ := hwork
  snapped c hc := by simp [Watch.pending] at hc
  distinct := by simp [Watch.pending, Watch.queued, hwork]
  named n hn := by simp [hwork] at hn
  queued r hr := by simp [Watch.queued, hwork] at hr
  nudged := h.nudged
  tallied r := (h.tallied r).imp_right fun hr => by
    refine ⟨hr.1, fun c hc => ?_, hr.2.2⟩
    simp [Watch.pending] at hc
  budget := h.budget
  counted := h.counted

theorem Watched.restarted {w : Watch} (h : Watched cfg w) :
    Watched cfg { w with
      memory := {}, stage := .resting, todo := [], work := []
      journal := w.journal ++ [.restarted] } where
  sound := h.sound
  listed hs := by cases hs
  rested _ := rfl
  snapped c hc := by simp [Watch.pending] at hc
  distinct := by simp [Watch.pending, Watch.queued]
  named n hn := by simp at hn
  queued r hr := by simp [Watch.queued] at hr
  nudged r hr := by simp [tally] at hr
  tallied r := .inl (by simp [tally, Memory.count])
  budget r := by simp [tally, Watch.queued]
  counted r := by simp [Memory.count, Watch.queued]

theorem Watched.step {w w' : Watch} (h : Watched cfg w) {a : WatchStep}
    (hstep : Watch.step dates cfg registry w a = some w') : Watched cfg w' := by
  cases a with
  | call action =>
      cases hstep
      exact h.onward (.perform h.sound (Prod.eta _).symm)
  | tick agents readable now =>
      simp only [Watch.step] at hstep
      split at hstep
      · cases hstep
        exact h.tick agents _ now
      · cases hstep
  | examine sight =>
      simp only [Watch.step] at hstep
      split at hstep
      · rename_i claim rest hstage htodo
        cases hstep
        obtain ⟨htaken, hsnapped⟩ := h.takenStart hstage htodo
        exact (htaken.examineClaimed hstage hsnapped (Prod.eta _).symm).watched.settle
      · rename_i claim rest hstage htodo
        cases hstep
        exact ((h.taken hstage htodo).examineRunning
          (Prod.eta _).symm).watched.settle
      · cases hstep
  | send i delivered clock =>
      simp only [Watch.step] at hstep
      split at hstep
      · rename_i nudge htodo hnudge
        cases hstep
        exact (h.sendNudge hnudge (Prod.eta _).symm).1
      · cases hstep
  | next now =>
      simp only [Watch.step] at hstep
      split at hstep
      · rename_i hstage htodo hwork
        cases hstep
        exact h.nextPass hstage now
      · rename_i hstage htodo hwork
        cases hstep
        exact h.atRest hwork
      · cases hstep
  | restart =>
      cases hstep
      exact h.restarted

theorem Watched.idle {w : Watch} (h : w.Idle) : Watched cfg w where
  sound := .fresh h.project
  listed hs := by simp [h.stage] at hs
  rested _ := h.work
  snapped c hc := by simp [Watch.pending, h.stage] at hc
  distinct := by simp [Watch.pending, Watch.queued, h.stage, h.work]
  named n hn := by simp [h.work] at hn
  queued r hr := by simp [Watch.queued, h.work] at hr
  nudged r hr := by simp [nudgesSince, h.journal] at hr
  tallied r := .inl (by simp [nudgesSince, h.journal, h.memory, Memory.count])
  budget r := by simp [nudgesSince, h.journal, Watch.queued, h.work]
  counted r := by simp [h.memory, Memory.count, Watch.queued, h.work]

theorem Watched.reachable {w : Watch}
    (hw : (watchSystem dates cfg registry).Reachable w) : Watched cfg w :=
  hw.invariant (fun _ h => .idle h) fun _ _ _ h hstep => h.step hstep

/-! ## A worker that goes silent -/

def quickWatch : WatchConfig where
  runStartTimeoutMs := 50
  runInactiveNudgeIntervalMs := 5
  workerStaleSoftMs := 10
  workerStaleNudgeMs := 20
  workerStaleForceFailMs := 1000
  remediation := { phaseStuckMs := 10, maxNudges := 2 }

def soloAgent : Agent where
  agentId := "worker"
  status := .running
  sessionHandle := some "pty:1"

def quietTick (now : Int) : List WatchStep :=
  [.tick [soloAgent] true now, .examine { clock := 9 }, .next now,
   .examine { clock := 9 }]

def oneTaskWatch : Watch := { project := oneTask }

theorem idle_oneTaskWatch : oneTaskWatch.Idle :=
  ⟨fresh_oneTask, rfl, rfl, rfl, rfl, rfl⟩

def nudgedTwice : List WatchStep :=
  claimAndStart.map .call ++ quietTick 30 ++ [.send 0 (.ok ()) 9, .next 31] ++
    quietTick 40 ++ [.next 41]

/-! ## The results -/

theorem Handled.dead {claim : Claim} {cause : Prop} {w w' : Watch}
    (h : Handled cfg claim cause w w') {runId : RunId}
    (hlive : w.project.live runId = true)
    (hdead : w'.project.live runId = false) : runId = claim.runId ∧ cause := by
  by_contra hne
  have hspared := h.cares.spares runId hne hlive
  rw [hdead] at hspared
  cases hspared

/-- A throw ends the tick and no run. -/
@[simp] theorem settle_project (r : Except DomainError Unit × Watch) :
    (Watch.settle r).project = r.2.project := by
  obtain ⟨_ | _, w⟩ := r <;> rfl

/--
A run that is live before a step of the watchdog and not after it is the run of
the claim being examined, and there is a reason on record: it never
acknowledged its start in time, its session is dead, it was idle past the last
tier, or its worker has been nudged, and either all its nudges are spent or its
task's attempts are.
-/
theorem failed_with_cause {w w' : Watch} {a : WatchStep} {runId : RunId}
    (hw : (watchSystem dates cfg registry).Reachable w)
    (hstep : (watchSystem dates cfg registry).step w a = some w')
    (hown : ∀ call, a ≠ .call call) (hlive : w.project.live runId = true)
    (hdead : w'.project.live runId = false) :
    ∃ sight claim, a = .examine sight ∧ w.todo.head? = some claim ∧
      claim.runId = runId ∧ FailureCause dates cfg w claim sight := by
  have h : Watched cfg w := .reachable hw
  replace hstep : Watch.step dates cfg registry w a = some w' := hstep
  have hharmless : ∀ {p : Project}, Lenient w.project p →
      p.live runId = false → False := by
    intro p hp hd
    rw [hp.spares runId id hlive] at hd
    cases hd
  cases a with
  | call action => exact absurd rfl (hown action)
  | tick agents readable now =>
      simp only [Watch.step] at hstep
      split at hstep
      · cases hstep
        exact (hharmless (.refl _) hdead).elim
      · cases hstep
  | restart =>
      cases hstep
      exact (hharmless (.refl _) hdead).elim
  | next now =>
      simp only [Watch.step] at hstep
      split at hstep
      · cases hstep
        exact (hharmless (.refl _) hdead).elim
      · cases hstep
        exact (hharmless (.refl _) hdead).elim
      · cases hstep
  | send i delivered clock =>
      simp only [Watch.step] at hstep
      split at hstep
      · rename_i nudge htodo hnudge
        cases hstep
        exact (hharmless (h.sendNudge hnudge (Prod.eta _).symm).2 hdead).elim
      · cases hstep
  | examine sight =>
      simp only [Watch.step] at hstep
      split at hstep
      · rename_i claim rest hstage htodo
        cases hstep
        rw [settle_project] at hdead
        obtain ⟨htaken, hsnapped⟩ := h.takenStart hstage htodo
        obtain ⟨rfl, sentAt, hsent, hlate⟩ := (htaken.examineClaimed hstage hsnapped
          (Prod.eta _).symm).dead hlive hdead
        exact ⟨sight, claim, rfl, by simp [htodo], rfl,
          .notStarted sentAt hstage hsent hlate⟩
      · rename_i claim rest hstage htodo
        cases hstep
        rw [settle_project] at hdead
        obtain ⟨rfl, idleMs, hidle, hcause⟩ := ((h.taken hstage htodo
          ).examineRunning (Prod.eta _).symm).dead hlive hdead
        refine ⟨sight, claim, rfl, by simp [htodo], rfl, ?_⟩
        simp only [Cause, nudgesSince_append, tally] at hcause
        rcases hcause with ⟨agent, hknown, hsilent⟩ | hlate |
          ⟨hwarned, hspent⟩ | hspent
        · exact .sessionDead agent hstage hknown hsilent
        · exact .stale idleMs hstage hidle hlate
        · exact .attemptsSpent hstage hwarned hspent
        · exact .nudgesSpent hstage hspent
      · cases hstep

/-- Both nudges are spent when the next tick gives the run up. -/
theorem failed_with_cause_silent :
    ∃ w w', (watchSystem .epoch quickWatch soloRegistry).run oneTaskWatch
        (nudgedTwice ++ (quietTick 50).take 3) = some w ∧
      (watchSystem .epoch quickWatch soloRegistry).step w
        (.examine { clock := 9 }) = some w' ∧
      w.project.live "run-1" = true ∧ w'.project.live "run-1" = false ∧
      ∃ sight claim, WatchStep.examine { clock := 9 } = .examine sight ∧
        w.todo.head? = some claim ∧ claim.runId = "run-1" ∧
        FailureCause .epoch quickWatch w claim sight := by
  have hrun : (((watchSystem .epoch quickWatch soloRegistry).run oneTaskWatch
      (nudgedTwice ++ (quietTick 50).take 3)).map fun w =>
        (w.project.live "run-1",
          ((watchSystem .epoch quickWatch soloRegistry).step w
            (.examine { clock := 9 })).map fun w' =>
              w'.project.live "run-1")) = some (true, some false) := by
    decide +kernel
  obtain ⟨w, hw, hboth⟩ := System.exists_run_of_map _ hrun
  obtain ⟨hlive, hafter⟩ := Prod.mk.inj hboth
  obtain ⟨w', hstep, hdead⟩ := Option.map_eq_some_iff.mp hafter
  refine ⟨w, w', hw, hstep, hlive, hdead, ?_⟩
  exact failed_with_cause
    (System.Reachable.run (.initial idle_oneTaskWatch) hw) hstep
    (fun _ h => by cases h) hlive hdead

-- A task that was sent and not started in time ends in the first pass.
example : ((watchSystem .epoch quickWatch soloRegistry).run oneTaskWatch
    (((claimAndStart.take 1).map .call) ++
      [.call (.markTaskEnvelopeSent "run-1" "worker"
         { time := DateApi.epoch.toISOString 2 }),
       .tick [soloAgent] true 60, .examine { clock := 60 }])).map
      (fun w => w.project.live "run-1") = some false := by
  decide +kernel

end OrcState.Coordinator
