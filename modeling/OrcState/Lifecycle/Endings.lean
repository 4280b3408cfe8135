import OrcState.Lifecycle.Ledger

/-!
# Every call keeps the account

A finish, an expiry, a cancellation, a reset and the reconciliation each end
runs, and each logs one ending for every run it ends.
-/

namespace OrcState.Lifecycle

open OrcState.Contract OrcState.Foundation OrcState.Store
open OrcState.Foundation.Effect

variable {dates : DateApi} {registry : Registry}

/-! ## Calls that end runs -/

theorem Accounted.of_ended {s t : Project} {p : Claim → Bool}
    {f : Claim → Claim} (h : Mutated p f s.events.runs t.events.runs)
    (hid : ∀ c, (f c).runId = c.runId)
    (hp : ∀ c, c ∈ s.events.runs → p c = true → c.active = true)
    (hf : ∀ c, (f c).active = false)
    (hcount : ∀ id, t.endings id =
      s.endings id + if s.claims.any (fun c => c.runId = id && p c) then 1
        else 0)
    (hbound : ∀ id, s.tasks.Bound id → t.tasks.Bound id) : Accounted s t := by
  refine .of_mutated h hid (fun c hc hpc hended => ?_) (fun id => ?_) hbound
  · rw [hp c hc hpc] at hended
    cases hended
  · have hsame : s.claims.any (endedBy p f id) =
        s.claims.any (fun c => c.runId = id && p c) := by
      rw [Bool.eq_iff_iff, List.any_eq_true, List.any_eq_true]
      refine exists_congr fun c => and_congr_right fun hc => ?_
      have hactive := hp c hc
      simp only [endedBy, hf, Bool.not_false, Bool.and_true, Bool.and_eq_true]
      exact and_congr_right fun _ => ⟨fun h => h.1, fun h => ⟨h, hactive h⟩⟩
    rw [hcount, hsame]

theorem endings_ended {s : Project} {p : Claim → Bool}
    {mk : Claim → OrcEvent}
    (hmk : ∀ c id, endsRun id (mk c) = decide (c.runId = id)) (id : RunId) :
    ((s.claims.filter p).map mk).countP (endsRun id) =
      if s.claims.any (fun c => c.runId = id && p c) then 1 else 0 :=
  countP_endings s.events.runs.nodup hmk id

theorem endings_one {s : Project} {claim : Claim} {event : OrcEvent}
    (hclaim : claim ∈ s.events.runs)
    (h : ∀ id, endsRun id event = decide (claim.runId = id)) (id : RunId) :
    [event].countP (endsRun id) =
      if s.claims.any (fun c => c.runId = id && decide (c.runId = claim.runId))
        then 1 else 0 := by
  have hany : s.claims.any
      (fun c => c.runId = id && decide (c.runId = claim.runId)) =
        decide (claim.runId = id) := by
    rw [Bool.eq_iff_iff, List.any_eq_true, decide_eq_true_iff]
    constructor
    · rintro ⟨c, -, hc⟩
      simp only [Bool.and_eq_true, decide_eq_true_eq] at hc
      exact hc.2.symm.trans hc.1
    · intro hid
      exact ⟨claim, hclaim, by simp [hid]⟩
  rw [hany, List.countP_singleton, h]

theorem endings_commitBoth {claims : List Claim} {events : List OrcEvent}
    {backlog : Backlog} {changes : TaskStatusChanges} {now : String}
    {s t : Project} {r : Except DomainError Unit}
    (h : commitBoth dates claims events backlog changes now s = (r, t)) :
    t = s ∨ ∀ id, t.endings id = s.endings id + events.countP (endsRun id) := by
  rcases commitBoth_cases h with ⟨e, -, rfl⟩ | ⟨db, hdb, hrest⟩
  · exact .inl rfl
  · rcases hrest with ⟨e, -, -, rfl⟩ | ⟨ts, -, -, rfl⟩
    · exact .inr (endings_setEvents hdb)
    · exact .inr (endings_setEvents hdb)

theorem endings_onEvents {claims : List Claim} {events : List OrcEvent}
    {s t : Project} {r : Except DomainError Unit}
    (h : onEvents (commitClaims dates claims events) s = (r, t)) :
    t = s ∨ ∀ id, t.endings id = s.endings id + events.countP (endsRun id) := by
  rcases onEvents_cases h with ⟨e, -, rfl⟩ | ⟨⟨⟩, db, hdb, -, rfl⟩
  · exact .inl rfl
  · exact .inr (endings_setEvents hdb)

theorem Accounted.of_both {s t : Project} {p : Claim → Bool}
    {f : Claim → Claim} {changes : TaskStatusChanges} {ref : TaskRef}
    {g : Task → Task} {r : Except DomainError Unit}
    (h : BothOutcome p f changes ref g s r t)
    (hid : ∀ c, (f c).runId = c.runId)
    (hp : ∀ c, c ∈ s.events.runs → p c = true → c.active = true)
    (hf : ∀ c, (f c).active = false)
    (hcount : t = s ∨ ∀ id, t.endings id =
      s.endings id + if s.claims.any (fun c => c.runId = id && p c) then 1
        else 0) : Accounted s t := by
  rcases hcount with rfl | hcount
  · exact .refl _
  have hbound := h.bound
  cases h with
  | refused e => exact .refl _
  | torn e _ hmut _ => exact .of_ended hmut hid hp hf hcount hbound
  | done _ hmut _ => exact .of_ended hmut hid hp hf hcount hbound

theorem active_of_run {s : Project} {claim : Claim}
    (hclaim : claim ∈ s.events.runs) (hactive : claim.active = true) :
    ∀ c, c ∈ s.events.runs → decide (c.runId = claim.runId) = true →
      c.active = true := by
  intro c hc hid
  rwa [Table.eq_of_key hc hclaim (of_decide_eq_true hid)]

theorem endings_commitFinish {claim : Claim} {agentId : AgentId}
    {o : FinishOptions} {now : String} {s t : Project}
    {r : Except DomainError Unit}
    (h : commitFinish dates claim agentId o now s s = (r, t)) :
    t = s ∨ ∀ id, t.endings id =
      s.endings id + (finishEvents claim agentId o).countP (endsRun id) := by
  unfold commitFinish at h
  cases hfind : taskOfRun s claim with
  | none =>
      simp only [hfind] at h
      exact endings_onEvents h
  | some task =>
      simp only [hfind] at h
      exact endings_commitBoth h

theorem finishEvents_one {claim : Claim} {agentId : AgentId}
    {o : FinishOptions} (h : o.emitEvent = true) :
    ∃ event, finishEvents claim agentId o = [event] ∧
      ∀ id, endsRun id event = decide (claim.runId = id) := by
  unfold finishEvents
  rw [if_pos h]
  split
  · exact ⟨_, rfl, endsRun_runEvent rfl⟩
  · exact ⟨_, rfl, endsRun_runEvent rfl⟩

theorem Accounted.finishRun {runId : RunId} {agentId : AgentId}
    {o : FinishOptions} {now : String} {s t : Project}
    {r : Except DomainError Unit}
    (h : finishRun dates runId agentId o now s = (r, t))
    (hemit : s.live runId = true → o.emitEvent = true) : Accounted s t := by
  rcases finishRun_commit h with
    rfl | ⟨claim, hfind, -, ⟨hactive, hcommit⟩ | ⟨hended, hcommit⟩⟩
  · exact .refl _
  · obtain ⟨hclaim, rfl⟩ := Table.find?_eq_some.mp hfind
    have hone : ∃ event, finishEvents claim agentId o = [event] ∧
        ∀ id, endsRun id event = decide (claim.runId = id) :=
      finishEvents_one (hemit (live_iff.mpr ⟨claim, hclaim, rfl, hactive⟩))
    obtain ⟨event, hevents, hevent⟩ := hone
    have hp := active_of_run hclaim hactive
    have hcount : t = s ∨ ∀ id, t.endings id =
        s.endings id + if s.claims.any
          (fun c => c.runId = id && decide (c.runId = claim.runId)) then 1
          else 0 := by
      refine (endings_commitFinish hcommit).imp_right fun hcount id => ?_
      rw [hcount, hevents, endings_one hclaim hevent]
    rcases commitFinish_cases hcommit with
      ⟨-, rfl | ⟨hmut, htasks⟩⟩ | ⟨task, -, hout⟩
    · exact .refl _
    · rcases hcount with rfl | hcount
      · exact .refl _
      · exact .of_ended hmut (fun _ => rfl) hp (finishClaim_active o) hcount
          fun _ hb => by rwa [htasks]
    · exact .of_both hout (fun _ => rfl) hp (finishClaim_active o) hcount
  · rcases commitMutated_cases hcommit (fun _ => rfl) with
      ⟨-, rfl⟩ | ⟨-, hmut, htasks⟩
    · exact .refl _
    · refine .silent hmut
        (fun id => Keeps.snd (silent_commit (by simp) id) hcommit)
        (fun _ => rfl) (fun _ _ _ => ⟨rfl, fun _ => rfl⟩) fun _ hb => ?_
      rwa [htasks]

theorem Accounted.expireStaleLeases {policy : String} {actorId : AgentId}
    {now : Int} {s t : Project} {r : Except DomainError (List RunId)}
    (h : expireStaleLeases dates policy actorId now s = (r, t)) :
    Accounted s t := by
  rcases expireStaleLeases_cases h with rfl | ⟨hmut, htasks⟩
  · exact .refl _
  have hbound : ∀ id, s.tasks.Bound id → t.tasks.Bound id := by
    intro id hb
    rcases htasks with ⟨-, htasks⟩ | hexpired
    · rwa [htasks]
    · exact (hexpired.bound id).mpr hb
  rcases expireStaleLeases_commit h with rfl | ⟨acc, r', -, hx, -⟩
  · exact .refl _
  rcases endings_commitBoth hx with rfl | hcount
  · exact .refl _
  refine .of_ended hmut (fun _ => rfl) (fun c _ => active_of_expires)
    (expireClaim_active now) (fun id => ?_) hbound
  rw [hcount, endings_ended (p := expires dates now s.backlog) fun c id => ?_]
  simp [endsRun, isEnding, expiryEvent]

theorem Accounted.expireRun {runId : RunId} {actorId : AgentId} {now : String}
    {s t : Project} {r : Except DomainError Unit}
    (h : expireRun dates runId actorId now s = (r, t)) : Accounted s t := by
  rcases expireRun_commit h with rfl | ⟨claim, task, hfind, hactive, -, -, h⟩
  · exact .refl _
  obtain ⟨hclaim, rfl⟩ := Table.find?_eq_some.mp hfind
  have hout := commitBoth_outcome (f := expireRunClaim now) h (fun _ => rfl)
    (by simp [TaskStatusChange.Ordinary, expireChange]) fun _ href => href
  refine .of_both hout (fun _ => rfl) (active_of_run hclaim hactive)
    (fun _ => rfl) ((endings_commitBoth h).imp_right fun hcount id => ?_)
  rw [hcount, endings_one hclaim (endsRun_runEvent rfl)]

theorem Accounted.resetTask {ref : TaskRef} {actorId : AgentId} {now : String}
    {s t : Project} {r : Except DomainError TaskStatus}
    (h : resetTask dates ref actorId now s = (r, t)) : Accounted s t := by
  rcases resetTask_cases h with rfl | ⟨task, r', -, hout, -⟩
  · exact .refl _
  refine .of_both hout (fun _ => rfl) (fun c _ hp => ?_) (fun _ => rfl) ?_
  · simp only [Bool.and_eq_true] at hp
    exact hp.2
  · rcases resetTask_commit h with rfl | ⟨task, r', -, hx, -⟩
    · exact .inl rfl
    refine (endings_commitBoth hx).imp_right fun hcount id => ?_
    rw [hcount, resetEvents, List.countP_cons, not_endsRun rfl]
    refine congrArg _ ?_
    exact endings_ended (fun c id => endsRun_runEvent rfl id) id

/-! ## Calls in several commits -/

theorem Accounted.followed {s m t : Project} (h : Accounted s m)
    (hcount : ∀ id, t.endings id = m.endings id)
    (hruns : t.events.runs = m.events.runs)
    (hbound : ∀ id, m.tasks.Bound id → t.tasks.Bound id) : Accounted s t := by
  have hlive : ∀ id, t.live id = m.live id := by
    intro id
    rw [Project.live, Project.live, Project.findClaim, Project.findClaim, hruns]
  refine ⟨fun id => ?_, fun c hc ha => ?_, fun id ha => ?_, fun c hc => ?_,
    fun id hb => hbound id (h.bound id hb), fun hone => ?_⟩
  · rw [hcount, hlive]
    exact h.counted id
  · rw [hruns]
    exact h.kept c hc ha
  · rw [hlive] at ha
    exact h.born id ha
  · rw [hruns] at hc
    exact (h.source c hc).imp_right fun hnew => ⟨hnew.1, hbound _ hnew.2⟩
  · rw [hruns]
    exact h.one hone

theorem Accounted.preceded {s m t : Project} (h : Accounted m t)
    (hevents : m.events = s.events)
    (hbound : ∀ id, s.tasks.Bound id → m.tasks.Bound id) : Accounted s t := by
  have hlive : ∀ id, m.live id = s.live id := by
    intro id
    rw [Project.live, Project.live, Project.findClaim, Project.findClaim,
      hevents]
  have hcount : ∀ id, m.endings id = s.endings id := by
    intro id
    rw [Project.endings, Project.endings, hevents]
  refine ⟨fun id => ?_, fun c hc ha => ?_, fun id ha => ?_, fun c hc => ?_,
    fun id hb => h.bound id (hbound id hb), fun hone => h.one ?_⟩
  · rw [← hcount, ← hlive]
    exact h.counted id
  · exact h.kept c (by rwa [hevents]) ha
  · rw [← hlive]
    exact (h.born id ha).imp_right fun hfree hb => hfree (hbound id hb)
  · refine (h.source c hc).imp_left ?_
    rintro ⟨c₀, hc₀, hid⟩
    exact ⟨c₀, by rwa [← hevents], hid⟩
  · rwa [hevents]

theorem Accounted.of_removed {s t : Project} {p : Claim → Bool}
    (h : Removed p s.events.runs t.events.runs)
    (hp : ∀ c, c ∈ s.events.runs → p c = true → c.active = true)
    (hcount : ∀ id, t.endings id =
      s.endings id + if s.claims.any (fun c => c.runId = id && p c) then 1
        else 0)
    (hbound : ∀ id, s.tasks.Bound id → t.tasks.Bound id) : Accounted s t := by
  refine ⟨fun id => ?_, fun c hc hended => ?_, fun id hlive => ?_,
    fun c hc => .inl ⟨c, ((h.mem c).mp hc).1, rfl⟩, hbound, h.one⟩
  · have hiff : s.claims.any (fun c => c.runId = id && p c) =
        (s.live id && !t.live id) := by
      rw [Bool.eq_iff_iff, List.any_eq_true, Bool.and_eq_true, live_iff,
        Bool.not_eq_true', ← Bool.not_eq_true, live_iff]
      constructor
      · rintro ⟨c, hc, hgone⟩
        simp only [Bool.and_eq_true, decide_eq_true_eq] at hgone
        obtain ⟨hcid, hpc⟩ := hgone
        refine ⟨⟨c, hc, hcid, hp c hc hpc⟩, ?_⟩
        rintro ⟨c', hc', hcid', -⟩
        obtain ⟨hold, hkept⟩ := (h.mem c').mp hc'
        rw [Table.eq_of_key hold hc (hcid'.trans hcid.symm), hpc] at hkept
        cases hkept
      · rintro ⟨⟨c, hc, hcid, ha⟩, hgone⟩
        refine ⟨c, hc, ?_⟩
        cases hpc : p c with
        | false => exact absurd ⟨c, (h.mem c).mpr ⟨hc, hpc⟩, hcid, ha⟩ hgone
        | true => simp [hcid]
    rw [hcount, hiff]
  · refine ⟨c, (h.mem c).mpr ⟨hc, ?_⟩, rfl, rfl⟩
    refine Bool.eq_false_iff.mpr fun hpc => ?_
    rw [hp c hc hpc] at hended
    cases hended
  · obtain ⟨c, hc, hcid, ha⟩ := live_iff.mp hlive
    exact .inl (live_iff.mpr ⟨c, ((h.mem c).mp hc).1, hcid, ha⟩)

theorem endings_cancelClaims {ref : TaskRef} {reason : Option String}
    {actorId : AgentId} {now : String} {s t : Project}
    {r : Except DomainError Unit}
    (h : cancelClaims dates ref reason actorId now s s = (r, t)) :
    t = s ∨ ∀ id, t.endings id = s.endings id +
      if s.claims.any (fun c => c.runId = id && (c.taskRef = ref && c.active))
        then 1 else 0 := by
  unfold cancelClaims at h
  split at h
  · cases h
    exact .inl rfl
  · refine (endings_onEvents h).imp_right fun hcount id => ?_
    rw [hcount]
    exact congrArg _ (endings_ended (fun c id => endsRun_runEvent rfl id) id)

theorem Accounted.cancelRest {changes : TaskStatusChanges} {ref : TaskRef}
    {g : Task → Task} {now : String} {event : OrcEvent} {s m t : Project}
    {r : Except DomainError Unit} (hs : Accounted s m)
    (h : (do
      onTasks (commitBacklog (mutateTask m.backlog ref g) changes now)
      onEvents (appendSequencedEvent dates event)) m = (r, t))
    (hord : ∀ p ∈ changes, TaskStatusChange.Ordinary p.2)
    (hg : ∀ task, task.ref = ref → (g task).ref = ref)
    (hevent : isEnding event.event = false) : Accounted s t := by
  have hcount : ∀ id, t.endings id = m.endings id := fun id =>
    Keeps.snd ((silent_onTasks _ id).bind fun _ => silent_append hevent id) h
  rcases commitLogged_cases h hord hg with rfl | ⟨hruns, hcommitted⟩
  · exact hs
  · exact hs.followed hcount hruns fun id => (hcommitted.bound id).mpr

theorem Accounted.cancelTask {ref : TaskRef} {reason : Option String}
    {actorId : AgentId} {now : String} {s t : Project}
    {r : Except DomainError CancelResult}
    (h : cancelTask dates registry ref reason actorId now s = (r, t)) :
    Accounted s t := by
  rcases cancelTask_cases h with rfl | ⟨task, r', -, -, h, -⟩
  · exact .refl _
  have hclaims : ∀ {m : Project} {r' : Except DomainError Unit},
      cancelClaims dates ref reason actorId now s s = (r', m) →
      Accounted s m ∧ m.tasks = s.tasks := by
    intro m r' hx
    rcases cancelClaims_cases hx with ⟨-, rfl⟩ | ⟨-, htasks, hremoved⟩
    · exact ⟨.refl _, rfl⟩
    refine ⟨?_, htasks⟩
    rcases endings_cancelClaims hx with rfl | hcount
    · exact .refl _
    · refine .of_removed hremoved (fun c _ hp => ?_) hcount
        fun _ hb => by rwa [htasks]
      simp only [Bool.and_eq_true] at hp
      exact hp.2
  rcases bind_cases h with ⟨e, hx, -⟩ | ⟨⟨⟩, m, hx, h⟩
  · exact (hclaims hx).1
  · obtain ⟨hm, htasks⟩ := hclaims hx
    have hbacklog : s.backlog = m.backlog := by
      rw [Project.backlog, Project.backlog, htasks]
    rw [hbacklog] at h
    exact hm.cancelRest h (by simp [TaskStatusChange.Ordinary])
      (fun _ href => href) rfl

/-! ## Calls that write no run -/

theorem Accounted.delegateTask {args : DelegateArgs} {now : String}
    {s t : Project} {r : Except DomainError (Option AgentId)}
    (h : delegateTask dates registry args now s = (r, t)) : Accounted s t := by
  have hsilent : Silent (Lifecycle.delegateTask dates registry args now) := by
    intro id
    unfold Lifecycle.delegateTask requireActor requireRegistered requireTask
    refine (keeps_throwIf _ _).bind fun _ => (keeps_throwIf _ _).bind fun _ =>
      (keeps_throwIf _ _).bind fun _ => .read fun s =>
      (keeps_orThrow _ _).bind fun _ => (keeps_ofExcept _).bind fun _ =>
      .result ?_
    exact (silent_onTasks _ id).bind fun _ => silent_append rfl id
  rcases delegateTask_cases h with rfl | ⟨task, target, -, hruns, hcommitted⟩
  · exact .refl _
  · exact .of_runs (fun id => Keeps.snd (hsilent id) h) hruns
      fun id => (hcommitted.bound id).mpr

theorem Accounted.unblockTask {ref : TaskRef} {reason : Option String}
    {actorId : AgentId} {now : String} {s t : Project}
    {r : Except DomainError Unit}
    (h : unblockTask dates ref reason actorId now s = (r, t)) :
    Accounted s t := by
  have hsilent : Silent
      (Lifecycle.unblockTask dates ref reason actorId now) := by
    intro id
    unfold Lifecycle.unblockTask requireActor requireTask
    refine (keeps_throwIf _ _).bind fun _ => (keeps_throwIf _ _).bind fun _ =>
      .read fun s => (keeps_orThrow _ _).bind fun _ =>
      (keeps_throwIf _ _).bind fun _ => ?_
    exact (silent_onTasks _ id).bind fun _ => silent_append rfl id
  rcases unblockTask_cases h with rfl | ⟨task, -, -, hruns, hcommitted⟩
  · exact .refl _
  · exact .of_runs (fun id => Keeps.snd (hsilent id) h) hruns
      fun id => (hcommitted.bound id).mpr

theorem Accounted.markTaskDoneRuntimeOnly {ref : TaskRef} {actorId : AgentId}
    {now : String} {s t : Project} {r : Except DomainError TaskStatus}
    (h : markTaskDoneRuntimeOnly dates ref actorId now s = (r, t)) :
    Accounted s t := by
  have hsilent : Silent
      (Lifecycle.markTaskDoneRuntimeOnly dates ref actorId now) := by
    intro id
    unfold Lifecycle.markTaskDoneRuntimeOnly requireTask
    refine .read fun s => (keeps_orThrow _ _).bind fun task =>
      (keeps_throwIf _ _).bind fun _ => Keeps.bind ?_ fun _ =>
      .result (silent_append rfl id)
    unfold completeTask
    split
    · exact keeps_pure _
    · exact silent_onTasks _ id
  obtain ⟨hruns, htasks⟩ := markTaskDoneRuntimeOnly_cases h
  refine .of_runs (fun id => Keeps.snd (hsilent id) h) hruns fun id hb => ?_
  rcases htasks with htasks | ⟨task, -, -, hcommitted⟩
  · rwa [htasks]
  · exact (hcommitted.bound id).mpr hb

/-! ## The reconciliation and the session reset -/

theorem mem_failedClaims {s : Project} {f : Claim × String}
    (h : f ∈ failedClaims s.claims s.backlog) :
    f.1 ∈ s.events.runs ∧ f.1.active = true := by
  rw [failedClaims, List.mem_append, List.mem_append] at h
  rcases h with (h | h) | h
  · obtain ⟨c, hc, rfl⟩ := List.mem_map.mp h
    obtain ⟨hrow, hc⟩ := List.mem_filter.mp hc
    simp only [Bool.and_eq_true] at hc
    exact ⟨hrow, hc.1⟩
  · obtain ⟨c, hc, rfl⟩ := List.mem_map.mp h
    obtain ⟨ref, -, hc⟩ := List.mem_flatMap.mp hc
    obtain ⟨hrow, ha, -⟩ := mem_activeClaimsOf.mp (List.mem_filter.mp hc).1
    exact ⟨hrow, ha⟩
  · obtain ⟨c, hc, rfl⟩ := List.mem_map.mp h
    obtain ⟨task, -, hc⟩ := List.mem_filterMap.mp hc
    obtain ⟨hrow, ha, -⟩ := mem_activeClaimsOf.mp
      (activeClaimOf_mem (inspectTask_mismatched hc))
    exact ⟨hrow, ha⟩

theorem mem_duplicates_lost {s : Project} {c : Claim}
    (h : c ∈ duplicates s.claims s.backlog) :
    c ∈ s.events.runs ∧ knownTask s.backlog c.taskRef = true ∧
      ∃ kept, activeClaimOf s.claims s.backlog c.taskRef = some kept ∧
        c.runId ≠ kept.runId := by
  obtain ⟨ref, -, hc⟩ := List.mem_flatMap.mp h
  obtain ⟨hmem, hany⟩ := List.mem_filter.mp hc
  obtain ⟨hrow, -, hknown, rfl⟩ := mem_activeClaimsOf.mp hmem
  obtain ⟨kept, hkept, hne⟩ := (Option.any_eq_true _ _).mp hany
  exact ⟨hrow, hknown, kept, hkept, of_decide_eq_true hne⟩

theorem duplicates_nodup (s : Project) :
    ((duplicates s.claims s.backlog).map Claim.runId).Nodup := by
  rw [duplicates, List.map_flatMap, List.nodup_flatMap]
  refine ⟨fun ref _ => ?_, (nodup_eraseDups _).imp fun {ref ref'} hne => ?_⟩
  · exact s.events.runs.nodup.sublist
      ((List.filter_sublist.trans List.filter_sublist).map Claim.runId)
  · intro id hid hid'
    obtain ⟨c, hc, rfl⟩ := List.mem_map.mp hid
    obtain ⟨c', hc', hsame⟩ := List.mem_map.mp hid'
    obtain ⟨hrow, -, -, href⟩ := mem_activeClaimsOf.mp (List.mem_filter.mp hc).1
    obtain ⟨hrow', -, -, href'⟩ :=
      mem_activeClaimsOf.mp (List.mem_filter.mp hc').1
    rw [Table.eq_of_key hrow' hrow hsame] at href'
    exact hne (href.symm.trans href')

/-- The reconciliation fails each run once: an orphan has no task, a duplicate is
not the one kept, and the one kept belongs to one task. -/
theorem failedClaims_nodup (s : Project) :
    ((failedClaims s.claims s.backlog).map fun f => f.1.runId).Nodup := by
  have hrefs : s.backlog.Pairwise fun task task' => task.ref ≠ task'.ref :=
    List.pairwise_map.mp (nodup_readProjectBacklog s.tasks)
  have hmismatched : ∀ {task : Task} {c : Claim},
      c ∈ (inspectTask s.claims s.backlog task).mismatched →
      c ∈ s.events.runs ∧ knownTask s.backlog c.taskRef = true ∧
        c.taskRef = task.ref ∧
        activeClaimOf s.claims s.backlog c.taskRef = some c := by
    intro task c hc
    have hkept := inspectTask_mismatched hc
    obtain ⟨hrow, -, hknown, href⟩ := mem_activeClaimsOf.mp (activeClaimOf_mem hkept)
    exact ⟨hrow, hknown, href, href ▸ hkept⟩
  have horphan : ∀ {c : Claim}, c ∈ orphans s.claims s.backlog →
      c ∈ s.events.runs ∧ knownTask s.backlog c.taskRef = false := by
    intro c hc
    obtain ⟨hrow, hlost⟩ := List.mem_filter.mp hc
    rw [Bool.and_eq_true, Bool.not_eq_true'] at hlost
    exact ⟨hrow, hlost.2⟩
  simp only [failedClaims, List.map_append, List.map_map]
  refine List.nodup_append.mpr ⟨List.nodup_append.mpr ⟨?_, ?_, ?_⟩, ?_, ?_⟩
  · exact s.events.runs.nodup.sublist (List.filter_sublist.map Claim.runId)
  · exact duplicates_nodup s
  · rintro id hid id' hid' rfl
    obtain ⟨c, hc, rfl⟩ := List.mem_map.mp hid
    obtain ⟨c', hc', hsame⟩ := List.mem_map.mp hid'
    obtain ⟨hrow, hlost⟩ := horphan hc
    obtain ⟨hrow', hknown, -⟩ := mem_duplicates_lost hc'
    rw [Table.eq_of_key hrow' hrow hsame, hlost] at hknown
    cases hknown
  · refine List.pairwise_map.mpr (List.pairwise_filterMap.mpr ?_)
    refine hrefs.imp fun {task task'} hne c hc c' hc' hid => hne ?_
    obtain ⟨hrow, -, href, -⟩ := hmismatched hc
    obtain ⟨hrow', -, href', -⟩ := hmismatched hc'
    rw [← href, ← href', Table.eq_of_key hrow hrow' hid]
  · rintro id hid id' hid' rfl
    obtain ⟨c', hc', hsame⟩ := List.mem_map.mp hid'
    obtain ⟨task, -, hc'⟩ := List.mem_filterMap.mp hc'
    obtain ⟨hrow', hknown, -, hkept⟩ := hmismatched hc'
    rcases List.mem_append.mp hid with hid | hid
    · obtain ⟨c, hc, rfl⟩ := List.mem_map.mp hid
      obtain ⟨hrow, hlost⟩ := horphan hc
      rw [Table.eq_of_key hrow' hrow hsame, hlost] at hknown
      cases hknown
    · obtain ⟨c, hc, rfl⟩ := List.mem_map.mp hid
      obtain ⟨hrow, -, kept, hkept', hne⟩ := mem_duplicates_lost hc
      rw [Table.eq_of_key hrow' hrow hsame, hkept'] at hkept
      exact hne (congrArg Claim.runId (Option.some.inj hkept).symm)

theorem reconcileFails_iff {s : Project} {c : Claim} :
    reconcileFails s c = true ↔
      ∃ f, f ∈ failedClaims s.claims s.backlog ∧ f.1.runId = c.runId := by
  simp [reconcileFails]

theorem endings_failed (s : Project) (now : String) (id : RunId) :
    ((failedClaims s.claims s.backlog).map (reconcileEvent now)).countP
        (endsRun id) =
      if s.claims.any (fun c => c.runId = id && reconcileFails s c) then 1
        else 0 := by
  have hevent : ∀ f : Claim × String,
      endsRun id (reconcileEvent now f) = (decide (f.1.runId = id) && true) := by
    intro f
    rw [Bool.and_true]
    exact endsRun_runEvent rfl id
  have hany : (failedClaims s.claims s.backlog).any
      (fun f => f.1.runId = id && true) =
        s.claims.any (fun c => c.runId = id && reconcileFails s c) := by
    simp only [Bool.and_true]
    rw [Bool.eq_iff_iff, List.any_eq_true, List.any_eq_true]
    constructor
    · rintro ⟨f, hf, hid⟩
      refine ⟨f.1, (mem_failedClaims hf).1, ?_⟩
      rw [hid, Bool.true_and]
      exact reconcileFails_iff.mpr ⟨f, hf, rfl⟩
    · rintro ⟨c, -, hc⟩
      simp only [Bool.and_eq_true, decide_eq_true_eq] at hc
      obtain ⟨f, hf, hid⟩ := reconcileFails_iff.mp hc.2
      exact ⟨f, hf, by simp [hid, hc.1]⟩
  rw [List.countP_map, ← hany, ← countP_key (failedClaims_nodup s)]
  exact List.countP_congr fun f _ => by simp [hevent]

theorem Accounted.reconcileState {now : String} {s t : Project}
    {r : Except DomainError Unit}
    (h : reconcileState dates now s = (r, t)) : Accounted s t := by
  obtain ⟨m, hevents, htasks, h⟩ := reconcileState_commit h
  have hbound : ∀ id, s.tasks.Bound id → m.tasks.Bound id := by
    intro id hb
    rcases htasks with htasks | hrepaired
    · rwa [htasks]
    · exact (hrepaired.bound id).mpr hb
  have hclaims : m.claims = s.claims := by
    rw [Project.claims, Project.claims, hevents]
  refine Accounted.preceded ?_ hevents hbound
  rcases h with rfl | h
  · exact .refl _
  rcases commitMutated_cases h (fun _ => rfl) with ⟨-, rfl⟩ | ⟨-, hmut, hsame⟩
  · exact .refl _
  rcases endings_onEvents h with rfl | hcount
  · exact .refl _
  refine .of_ended hmut (fun _ => rfl) (fun c hc hfails => ?_) (fun _ => rfl)
    (fun id => ?_) fun _ hb => by rwa [hsame]
  · obtain ⟨f, hf, hid⟩ := reconcileFails_iff.mp hfails
    obtain ⟨hrow, ha⟩ := mem_failedClaims hf
    rw [hevents] at hc
    rwa [← Table.eq_of_key hrow hc hid]
  · rw [hcount, endings_failed s, hclaims]

theorem Accounted.resetVolatileRuntimeStateForSession {now : String}
    {s t : Project} {r : Except DomainError (Nat × Nat)}
    (h : resetVolatileRuntimeStateForSession dates now s = (r, t)) :
    Accounted s t := by
  rcases resetVolatileRuntimeStateForSession_commit h with
    rfl | ⟨m, r', hevents, hrequeued, h⟩
  · exact .refl _
  refine Accounted.preceded ?_ hevents fun id => (hrequeued.bound id).mpr
  rcases commitMutated_cases h (fun _ => rfl) with ⟨-, rfl⟩ | ⟨-, hmut, htasks⟩
  · exact .refl _
  rcases endings_onEvents h with rfl | hcount
  · exact .refl _
  refine .of_ended hmut (fun _ => rfl) (fun c _ ha => ha) (fun _ => rfl)
    (fun id => ?_) fun _ hb => by rwa [htasks]
  rw [hcount]
  exact congrArg _ (endings_ended (fun c id => endsRun_runEvent rfl id) id)

/-! ## The one call that starts a run -/

theorem silent_claimTask {ref : TaskRef} {agentId : AgentId} {lease : Int}
    {runId : RunId} {snapshot : Except DomainError Unit} {now : Int} :
    Silent (claimTask dates ref agentId lease runId snapshot now) := by
  intro id
  unfold claimTask
  refine .read fun s => (keeps_orThrow _ _).bind fun _ =>
    (keeps_throwIf _ _).bind fun _ => (keeps_throwIf _ _).bind fun _ =>
    (keeps_ofExcept _).bind fun _ => (silent_onTasks _ id).bind fun _ =>
    .result (.catching ?_ fun _ => ?_)
  · refine (keeps_ofExcept _).bind fun _ => .read fun _ => silent_commit ?_ id
    intro e he
    rw [List.mem_singleton.mp he]
    rfl
  · exact (silent_onTasks _ id).bind fun _ => keeps_ofExcept _

theorem Accounted.claimTask {ref : TaskRef} {agentId : AgentId} {lease : Int}
    {runId : RunId} {snapshot : Except DomainError Unit} {now : Int}
    {s t : Project} {r : Except DomainError (RunId × String)}
    (hrows : ∀ c, c ∈ s.events.runs → s.tasks.Bound c.runId)
    (h : claimTask dates ref agentId lease runId snapshot now s = (r, t)) :
    Accounted s t := by
  have hcount : ∀ id, t.endings id = s.endings id :=
    fun id => Keeps.snd (silent_claimTask id) h
  rcases claimTask_cases hrows h with rfl | ⟨-, pinned, ts, hclaim, hrest⟩
  · exact .refl _
  obtain ⟨-, -, -, -, hnew, -, hbound⟩ := claimTask_ok hclaim
  have hkeep : ∀ id, s.tasks.Bound id → ts.Bound id :=
    fun id hb => (hbound id).mpr (.inl hb)
  rcases hrest with ⟨htasks, hadded⟩ | ⟨-, hevents, htasks⟩
  · have hstill : ∀ c, c ∈ s.events.runs → c ∈ t.events.runs :=
      fun c hc => (hadded.mem c).mpr (.inl hc)
    refine ⟨fun id => ?_, fun c hc _ => ⟨c, hstill c hc, rfl, rfl⟩,
      fun id hlive => ?_, fun c hc => ?_, fun id hb => htasks ▸ hkeep id hb,
      hadded.one⟩
    · have hnone : (s.live id && !t.live id) = false := by
        cases hlive : s.live id with
        | false => rfl
        | true =>
            obtain ⟨c, hc, hcid, ha⟩ := live_iff.mp hlive
            rw [live_iff.mpr ⟨c, hstill c hc, hcid, ha⟩]
            rfl
      rw [hcount, hnone]
      rfl
    · obtain ⟨c, hc, rfl, ha⟩ := live_iff.mp hlive
      rcases (hadded.mem c).mp hc with hc | rfl
      · exact .inl (live_iff.mpr ⟨c, hc, rfl, ha⟩)
      · exact .inr hnew
    · rcases (hadded.mem c).mp hc with hc | rfl
      · exact .inl ⟨c, hc, rfl⟩
      · exact .inr ⟨rfl, htasks ▸ (hbound _).mpr (.inr rfl)⟩
  · refine .of_runs hcount (by rw [hevents]) fun id hb => ?_
    rcases htasks with rfl | ⟨u, hreturn⟩
    · exact hkeep id hb
    · exact ((returnTask_ok hreturn).2.1 id).mpr (hkeep id hb)

/-! ## Every call -/

theorem Accounted.applyLifecycle {request : LifecycleRequest} {time : String}
    {s t : Project} {r : Except DomainError Unit}
    (h : applyLifecycle dates request time s = (r, t)) : Accounted s t := by
  cases applyLifecycle_served h with
  | refused h =>
      rw [h]
      exact .refl s
  | report event hevent h =>
      obtain ⟨hruns, htasks, -⟩ := appendEvent_cases h
      refine .of_runs (fun id => Keeps.snd (silent_append hevent id) h) hruns
        fun _ hb => ?_
      rwa [htasks]
  | heartbeat runId agentId o r' h => exact .heartbeat h
  | start runId agentId o h => exact .startRun h
  | finish runId agentId o _ hemit h => exact .finishRun h fun _ => hemit

/-- Only the delivery of a logged end finishes a run without logging it. -/
def LogsFinish : Action → Prop
  | .finishRun _ _ o _ => o.emitEvent = true
  | _ => True

theorem Accounted.perform {a : Action} {s t : Project}
    {r : Except DomainError Unit}
    (hrows : ∀ c, c ∈ s.events.runs → s.tasks.Bound c.runId)
    (h : perform dates registry a s = (r, t)) (hlogs : LogsFinish a) :
    Accounted s t := by
  cases a with
  | claimTask ref agentId lease runId snapshot now =>
      obtain ⟨r', hx, -⟩ := result_cases h
      exact .claimTask hrows hx
  | startRun runId agentId o now => exact .startRun h
  | heartbeat runId agentId o =>
      obtain ⟨r', hx, -⟩ := result_cases h
      exact .heartbeat hx
  | renewLeaseOnly runId lease now => exact .renewLeaseOnly h
  | finishRun runId agentId o now => exact .finishRun h fun _ => hlogs
  | markTaskEnvelopeSent runId agentId o =>
      obtain ⟨r', hx, -⟩ := result_cases h
      rcases markTaskEnvelopeSent_cases hx with rfl | hx
      · exact .refl _
      · exact .updateLogged hx (fun _ => rfl) (fun _ => rfl)
          (silent_envelopeEvents o)
  | setRunSessionStartRetryState runId agentId count nextRetryAt lastError =>
      obtain ⟨r', hx, -⟩ := result_cases h
      exact .updateClaim hx (fun _ => rfl) fun _ => rfl
  | setRunFinalizationState runId agentId u =>
      obtain ⟨r', hx, -⟩ := result_cases h
      exact .updateClaim hx (fun _ => rfl) fun _ => rfl
  | setRunInputState runId agentId inputState requestedAt now =>
      obtain ⟨r', hx, -⟩ := result_cases h
      exact .updateClaim hx (fun _ => rfl) fun _ => rfl
  | setPrRef runId prRef =>
      obtain ⟨r', hx, -⟩ := result_cases h
      exact .updateClaim hx (fun _ => rfl) fun _ => rfl
  | setPrCreatedAt runId createdAt seq =>
      obtain ⟨r', hx, -⟩ := result_cases h
      exact .updateClaim hx (fun _ => rfl) fun _ => rfl
  | expireStaleLeases policy actorId now =>
      obtain ⟨r', hx, -⟩ := result_cases h
      exact .expireStaleLeases hx
  | delegateTask args now =>
      obtain ⟨r', hx, -⟩ := result_cases h
      exact .delegateTask hx
  | cancelTask ref reason actorId now =>
      obtain ⟨r', hx, -⟩ := result_cases h
      exact .cancelTask hx
  | resetTask ref actorId now =>
      obtain ⟨r', hx, -⟩ := result_cases h
      exact .resetTask hx
  | unblockTask ref reason actorId now => exact .unblockTask h
  | expireRun runId actorId now => exact .expireRun h
  | markTaskDoneRuntimeOnly ref actorId now =>
      obtain ⟨r', hx, -⟩ := result_cases h
      exact .markTaskDoneRuntimeOnly hx
  | reconcileState now => exact .reconcileState h
  | applyLifecycle request time => exact .applyLifecycle h

end OrcState.Lifecycle
