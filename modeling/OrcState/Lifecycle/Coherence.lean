import OrcState.Lifecycle.Invariant

/-!
# Claims, tasks and bindings agree

In runs without a half-way refusal every task stays in a phase: each call moves
a task from phase to phase in both stores at once, and the reconciliation finds
nothing to repair.
-/

namespace OrcState.Lifecycle

open OrcState.Contract OrcState.Foundation OrcState.Store
open OrcState.Foundation.Effect

variable {dates : DateApi} {registry : Registry}

/-! ## Reading phases -/

theorem activeAt_eq_empty {runs : Runs} {ref : TaskRef}
    (h : Unclaimed runs ref) : activeAt runs ref = ∅ := by
  refine Set.eq_empty_iff_forall_notMem.mpr ?_
  rintro q ⟨c, hc, ha, hr, -⟩
  exact h c hc ha hr

theorem Coherent.runs_idle {s : Project} (hs : Coherent s) {ref : TaskRef}
    {status : TaskStatus} (h : statusAt s.tasks ref = some status)
    (hidle : status.running = false) : s.tasks.runsAt ref = ∅ := by
  obtain ⟨p, hp⟩ := hs.phase ref
  have hstatus : (s.view ref).status = some status := h
  change (s.view ref).runs = ∅
  rw [hp] at hstatus ⊢
  cases p with
  | absent | idle | merged => rfl
  | bound run started =>
      cases hstatus
      cases started <;> cases hidle

theorem Coherent.claims_idle {s : Project} (hs : Coherent s) {ref : TaskRef}
    {status : TaskStatus} (h : statusAt s.tasks ref = some status)
    (hidle : status.running = false) (hopen : status.merged = false) :
    activeAt s.events.runs ref = ∅ := by
  obtain ⟨p, hp⟩ := hs.phase ref
  have hstatus : (s.view ref).status = some status := h
  change (s.view ref).claims = ∅
  rw [hp] at hstatus ⊢
  cases p with
  | absent | idle => rfl
  | bound run started =>
      cases hstatus
      cases started <;> cases hidle
  | merged run started st hmerged =>
      cases hstatus
      rw [hmerged] at hopen
      cases hopen

theorem Coherent.of_views {s t : Project} (hs : Coherent s)
    (h : ∀ ref, t.view ref = s.view ref ∨ ∃ p : Phase, t.view ref = p.view) :
    Coherent t := by
  refine ⟨fun ref => ?_⟩
  rcases h ref with hsame | hphase
  · rw [hsame]
    exact hs.phase ref
  · exact hphase

theorem Coherent.of_view {s t : Project} (hs : Coherent s) (ref : TaskRef)
    (hother : ∀ r, r ≠ ref → t.view r = s.view r)
    (hhere : t.view ref = s.view ref ∨ ∃ p : Phase, t.view ref = p.view) :
    Coherent t := by
  refine hs.of_views fun r => ?_
  by_cases hr : r = ref
  · exact hr ▸ hhere
  · exact .inl (hother r hr)

theorem view_eq {s t : Project} {ref : TaskRef}
    (hstatus : statusAt t.tasks ref = statusAt s.tasks ref)
    (hclaims : activeAt t.events.runs ref = activeAt s.events.runs ref)
    (hruns : t.tasks.runsAt ref = s.tasks.runsAt ref) :
    t.view ref = s.view ref :=
  View.ext hstatus hclaims hruns

/-! ## Steps of one claim -/

theorem Coherent.kept {s t : Project} (hs : Coherent s) {p : Claim → Bool}
    {f : Claim → Claim} (hmut : Mutated p f s.events.runs t.events.runs)
    (hid : ∀ c, (f c).runId = c.runId ∧ (f c).taskRef = c.taskRef ∧
      (f c).state = c.state) (htasks : t.tasks = s.tasks) : Coherent t := by
  refine hs.of_views fun ref => .inl (view_eq ?_ ?_ ?_)
  · rw [htasks]
  · exact hmut.activeAt_kept (fun c => (hid c).1) (fun c => (hid c).2.1)
      fun c _ => (hid c).2.2
  · rw [htasks]

theorem Coherent.lease {s t : Project} (hs : Coherent s) {f : Claim → Claim}
    {runId : RunId} (hf : LeaseOnly f)
    (hmut : Mutated (fun c => c.runId = runId) f s.events.runs t.events.runs)
    (htasks : t.tasks = s.tasks) : Coherent t := by
  refine hs.kept hmut (fun c => ?_) htasks
  rw [hf c]
  exact ⟨rfl, rfl, rfl⟩

theorem Coherent.updateClaim {runId : RunId}
    {check : Claim → Except DomainError Unit} {f : Claim → Claim}
    {events : Claim → List OrcEvent} {s t : Project}
    {r : Except DomainError Claim} (hs : Coherent s)
    (h : updateClaim dates runId check f events s = (r, t))
    (hid : ∀ c, (f c).runId = c.runId ∧ (f c).taskRef = c.taskRef ∧
      (f c).state = c.state) : Coherent t := by
  rcases updateClaim_cases (fun c => (hid c).1) h with
    rfl | ⟨claim, -, -, hmut, htasks⟩
  · exact hs
  · exact hs.kept hmut hid htasks

theorem Coherent.of_both {s t : Project} (hs : Coherent s) {f : Claim → Claim}
    {claim : Claim} {changes : TaskStatusChanges} {g : Task → Task}
    (hclaim : claim ∈ s.events.runs)
    (hmut : Mutated (fun c => c.runId = claim.runId) f s.events.runs
      t.events.runs)
    (href : ∀ c, (f c).taskRef = c.taskRef)
    (htasks : Committed changes claim.taskRef g s.tasks t.tasks)
    (hhere : ∃ p : Phase, t.view claim.taskRef = p.view) : Coherent t := by
  refine hs.of_view claim.taskRef (fun r hr => ?_) (.inr hhere)
  obtain ⟨hstatus, hruns⟩ := htasks.other r hr
  exact view_eq hstatus (hmut.activeAt_other hclaim href hr) hruns

theorem Coherent.startRun {runId : RunId} {agentId : AgentId}
    {o : StartOptions} {now : String} {s t : Project}
    {r : Except DomainError Unit} (hs : Coherent s)
    (h : startRun dates runId agentId o now s = (r, t))
    (hall : ∀ e, r = .error e → t = s) : Coherent t := by
  rcases startRun_cases h with rfl | ⟨claim, hfind, -, hstate, h⟩
  · exact hs
  obtain ⟨hclaim, -⟩ := Table.find?_eq_some.mp hfind
  obtain ⟨started, hstarted, hphase⟩ := hs.of_claim hclaim (by
    rw [Claim.active, hstate]
    rfl)
  rw [hstate] at hstarted
  rcases commitStart_cases h with ⟨hnone, -⟩ | ⟨task, htask, hout⟩
  · have hmissing : statusAt s.tasks claim.taskRef = none := by
      rw [Project.backlog, findTask_readProjectBacklog] at hnone
      rw [statusAt, Option.map_eq_none_iff.mp hnone]
      rfl
    rcases hphase with hp | ⟨status, hmerged, hp⟩
    · cases hmissing.symm.trans (congrArg View.status hp)
    · cases hmissing.symm.trans (congrArg View.status hp)
  have hstatus := statusAt_of_findTask htask
  cases hout with
  | refused e => exact hs
  | torn e _ hmut htasks => rwa [hall e rfl]
  | done _ hmut htasks =>
      obtain ⟨hnow, hruns⟩ := htasks.here task htask
      refine hs.of_both hclaim hmut (fun _ => rfl) htasks ?_
      rcases hphase with hp | ⟨status, hmerged, hp⟩
      · cases started with
        | true => cases hstarted
        | false =>
            have hclaimed := hstatus.symm.trans (congrArg View.status hp)
            refine ⟨.bound claim.runId true, View.ext hnow ?_ ?_⟩
            · refine hmut.activeAt_moved hclaim rfl rfl rfl ?_
              rw [hstate]
              exact congrArg View.claims hp
            · rcases hruns with ⟨-, hruns⟩ | ⟨-, change, hchange, -, hruns⟩
              · exact hruns.trans (congrArg View.runs hp)
              · simp only [List.lookup_cons, beq_self_eq_true,
                  Option.some.injEq] at hchange
                cases hchange
                exact hruns.trans (congrArg View.runs hp)
      · have hmergedTask := hstatus.symm.trans (congrArg View.status hp)
        cases hmergedTask
        rcases hruns with ⟨hsame, -⟩ | ⟨-, change, hchange, hallowed, -⟩
        · dsimp only at hsame
          rw [← hsame] at hmerged
          cases hmerged
        · simp only [List.lookup_cons, beq_self_eq_true,
            Option.some.injEq] at hchange
          cases hchange
          cases hst : task.status with
          | claimed =>
              rw [hst] at hmerged
              cases hmerged
          | _ =>
              rw [hst] at hallowed
              cases hallowed

/-! ## Tasks that leave their run -/

theorem Coherent.runs_closed {s t : Project} (hs : Coherent s)
    {changes : TaskStatusChanges} {ref : TaskRef} {g : Task → Task}
    (htasks : Committed changes ref g s.tasks t.tasks) {task : Task}
    (htask : findTask s.backlog ref = some task)
    (hidle : (g task).status.running = false)
    (hcloses : ∀ change, changes.lookup ref = some change →
      task.status.running = true →
        TaskTransitionCause.closes change.cause task.status = true) :
    t.tasks.runsAt ref = ∅ := by
  obtain ⟨-, hruns⟩ := htasks.here task htask
  cases hrunning : task.status.running with
  | false =>
      have hbefore := hs.runs_idle (statusAt_of_findTask htask) hrunning
      rcases hruns with ⟨-, hruns⟩ | ⟨-, change, -, -, hruns⟩
      · rw [hruns, hbefore]
      · rw [hruns, hbefore, ite_self]
  | true =>
      rcases hruns with ⟨hsame, -⟩ | ⟨-, change, hchange, -, hruns⟩
      · rw [hsame, hrunning] at hidle
        cases hidle
      · rw [hruns, hcloses change hchange hrunning, if_pos rfl]

theorem Coherent.released {s t : Project} (hs : Coherent s)
    {changes : TaskStatusChanges} {ref : TaskRef} {g : Task → Task}
    (htasks : Committed changes ref g s.tasks t.tasks) {task : Task}
    (htask : findTask s.backlog ref = some task)
    (hidle : (g task).status.running = false)
    (hcloses : ∀ change, changes.lookup ref = some change →
      task.status.running = true →
        TaskTransitionCause.closes change.cause task.status = true)
    (hfree : Unclaimed t.events.runs ref) : ∃ p : Phase, t.view ref = p.view :=
  Phase.idle_of (htasks.here task htask).1 hidle (activeAt_eq_empty hfree)
    (hs.runs_closed htasks htask hidle hcloses)

theorem closes_of_running {cause : TaskTransitionCause} {status : TaskStatus}
    (hcause : (runStateForCause cause).isSome = true)
    (h : status.running = true) :
    TaskTransitionCause.closes cause status = true := by
  simp [TaskTransitionCause.closes, hcause, h]

theorem taskOfRun_eq_none {s : Project} {claim : Claim}
    (h : taskOfRun s claim = none) {status : TaskStatus}
    (hstatus : statusAt s.tasks claim.taskRef = some status) :
    status.running = false := by
  obtain ⟨row, hrow, rfl⟩ := Option.map_eq_some_iff.mp hstatus
  have hfind := findTask_readProjectBacklog s.tasks claim.taskRef
  rw [hrow] at hfind
  simp only [taskOfRun, Project.backlog, hfind, Option.map_some,
    Option.filter_some] at h
  have hidle : (projectTaskToBacklogTask row).status.running = false := by
    simpa using h
  exact hidle

theorem finishChanges_lookup {claim : Claim} {agentId : AgentId}
    {o : FinishOptions} {task finished : Task} {ref : TaskRef}
    {change : TaskStatusChange}
    (h : (finishChanges claim agentId o task finished).lookup ref =
      some change) : change.cause = finishCause finished := by
  unfold finishChanges at h
  split at h
  · cases h
  · obtain ⟨l, l', hl, -⟩ := List.lookup_eq_some_iff.mp h
    have hmem : (ref, change) ∈ l ++ (ref, change) :: l' := by simp
    rw [← hl] at hmem
    cases List.mem_singleton.mp hmem
    rfl

theorem finishCause_closes (task : Task) :
    (runStateForCause (finishCause task)).isSome = true := by
  unfold finishCause
  split
  · rfl
  · split <;> rfl

theorem Coherent.finishRun {runId : RunId} {agentId : AgentId}
    {o : FinishOptions} {now : String} {s t : Project}
    {r : Except DomainError Unit} (hs : Coherent s) (hsound : Sound s)
    (h : finishRun dates runId agentId o now s = (r, t))
    (hallowed : FinishAllowed s runId o)
    (hall : ∀ e, r = .error e → t = s) : Coherent t := by
  rcases finishRun_cases h with rfl | ⟨claim, hfind, -, ⟨hactive, h⟩ |
    ⟨-, hmut, htasks⟩⟩
  · exact hs
  · obtain ⟨hclaim, -⟩ := Table.find?_eq_some.mp hfind
    obtain ⟨started, -, hphase⟩ := hs.of_claim hclaim hactive
    rcases commitFinish_cases h with
      ⟨hnone, rfl | ⟨hmut, htasks⟩⟩ | ⟨task, htask, hout⟩
    · exact hs
    · have hfree := hmut.unclaimed hsound.one hclaim hactive (by simp)
        (finishClaim_active o)
      refine hs.of_view claim.taskRef (fun r hr => ?_) (.inr ?_)
      · exact view_eq (by rw [htasks])
          (hmut.activeAt_other hclaim (fun _ => rfl) hr) (by rw [htasks])
      · rcases hphase with hp | ⟨status, hmerged, hp⟩
        · have hidle := taskOfRun_eq_none hnone (congrArg View.status hp)
          cases started <;> cases hidle
        · refine Phase.idle_of ?_ (TaskStatus.not_running_of_merged hmerged)
            (activeAt_eq_empty hfree) ?_
          · exact (congrArg (statusAt · claim.taskRef) htasks).trans
              (congrArg View.status hp)
          · exact (congrArg (TaskStore.runsAt · claim.taskRef) htasks).trans
              (congrArg View.runs hp)
    · obtain ⟨htask, hrunning⟩ := taskOfRun_eq_some htask
      have hfailure : o.success = false := by
        cases hsuccess : o.success with
        | false => rfl
        | true =>
            have hmerged := hallowed hsuccess claim hfind
            simp only [merged, statusAt_of_findTask htask,
              Option.any_some] at hmerged
            rw [TaskStatus.not_running_of_merged hmerged] at hrunning
            cases hrunning
      cases hout with
      | refused e => exact hs
      | torn e _ hmut htasks => rwa [hall e rfl]
      | done _ hmut htasks =>
          refine hs.of_both hclaim hmut (fun _ => rfl) htasks
            (hs.released htasks htask ?_ ?_ (hmut.unclaimed hsound.one hclaim
              hactive (by simp) (finishClaim_active o)))
          · rcases finishTask_status dates hfailure task with h | h
            · rw [h]
              rfl
            · rw [h]
              rfl
          · intro change hchange
            rw [finishChanges_lookup hchange]
            exact closes_of_running (finishCause_closes _)
  · exact hs.kept hmut (fun _ => ⟨rfl, rfl, rfl⟩) htasks

theorem Coherent.expireStaleLeases {policy : String} {actorId : AgentId}
    {now : Int} {s t : Project} {r : Except DomainError (List RunId)}
    (hs : Coherent s) (hsound : Sound s)
    (h : expireStaleLeases dates policy actorId now s = (r, t))
    (hall : ∀ e, r = .error e → t = s) : Coherent t := by
  rcases expireStaleLeases_cases h with rfl | ⟨hmut, ⟨⟨e, he⟩, -⟩ | hexpired⟩
  · exact hs
  · rwa [hall e he]
  refine hs.of_views fun ref => ?_
  rcases hexpired.here ref with ⟨hstatus, hruns, hkept⟩ |
    ⟨task, status, c, -, -, hc, hexpires, rfl, hstatus, hidle, hruns⟩
  · refine .inl (view_eq hstatus (hmut.activeAt_untouched ?_ ?_) hruns)
    · intro c _ _ ha
      cases ha
    · intro c hc ha href
      subst href
      obtain ⟨started, -, hphase⟩ := hs.of_claim hc ha
      cases hexpires : expires dates now s.backlog c with
      | false => rfl
      | true =>
          rcases hphase with hp | ⟨status, hmerged, hp⟩
          · obtain ⟨task, htask, hst⟩ :=
              findTask_of_statusAt (congrArg View.status hp)
            refine absurd rfl (hkept task htask ?_ c hc hexpires)
            rw [hst]
            cases started <;> rfl
          · obtain ⟨task, htask, rfl⟩ :=
              findTask_of_statusAt (congrArg View.status hp)
            simp [expires, htask, hmerged] at hexpires
  · refine .inr (Phase.idle_of hstatus ?_ (activeAt_eq_empty ?_) hruns)
    · rcases hidle with rfl | rfl <;> rfl
    · exact hmut.unclaimed hsound.one hc (active_of_expires hexpires) hexpires
        (expireClaim_active now)

theorem Coherent.cancelTask {ref : TaskRef} {reason : Option String}
    {actorId : AgentId} {now : String} {s t : Project}
    {r : Except DomainError CancelResult} (hs : Coherent s)
    (h : cancelTask dates registry ref reason actorId now s = (r, t))
    (hall : ∀ e, r = .error e → t = s) : Coherent t := by
  rcases cancelTask_cases h with rfl | ⟨task, r', htask, hopen, hcommit, hr⟩
  · exact hs
  rcases commitCancel_cases hcommit with
    rfl | ⟨hremoved, ⟨⟨e, he⟩, -⟩ | hdone⟩
  · exact hs
  · rwa [hall e ((hr e).mpr he)]
  refine hs.of_view ref (fun r hne => ?_) (.inr ?_)
  · obtain ⟨hstatus, hruns⟩ := hdone.other r hne
    refine view_eq hstatus ?_ hruns
    ext q
    simp only [activeAt, Set.mem_ofPred_eq, hremoved.mem]
    constructor
    · rintro ⟨c, ⟨hc, -⟩, hrest⟩
      exact ⟨c, hc, hrest⟩
    · rintro ⟨c, hc, ha, rfl, hq⟩
      exact ⟨c, ⟨hc, by simp [hne]⟩, ha, rfl, hq⟩
  · refine hs.released hdone htask rfl (fun change hchange => ?_) ?_
    · simp only [List.lookup_cons, beq_self_eq_true, Option.some.injEq]
        at hchange
      cases hchange
      exact closes_of_running rfl
    · intro c hc ha href
      have hkept := ((hremoved.mem c).mp hc).2
      simp [href, ha] at hkept

theorem Coherent.resetTask {ref : TaskRef} {actorId : AgentId} {now : String}
    {s t : Project} {r : Except DomainError TaskStatus} (hs : Coherent s)
    (h : resetTask dates ref actorId now s = (r, t))
    (hall : ∀ e, r = .error e → t = s) : Coherent t := by
  rcases resetTask_cases h with rfl | ⟨task, r', htask, hout, hr⟩
  · exact hs
  cases hout with
  | refused e => exact hs
  | torn e _ hmut htasks => rwa [hall e ((hr e).mpr rfl)]
  | done _ hmut htasks =>
      refine hs.of_view ref (fun r hne => ?_) (.inr ?_)
      · obtain ⟨hstatus, hruns⟩ := htasks.other r hne
        refine view_eq hstatus (hmut.activeAt_untouched ?_ ?_) hruns
        · intro c _ _ ha
          cases ha
        · intro c _ _ href
          simp [href, hne]
      · refine hs.released htasks htask rfl (fun change hchange => ?_) ?_
        · unfold resetChanges at hchange
          split at hchange
          · cases hchange
          · simp only [List.lookup_cons, beq_self_eq_true, Option.some.injEq]
              at hchange
            cases hchange
            exact closes_of_running rfl
        · intro c hc ha href
          obtain ⟨c₀, hc₀, ⟨-, rfl⟩ | ⟨hp, rfl⟩⟩ := hmut.source hc
          · cases ha
          · simp [href, ha] at hp

theorem Coherent.expireRun {runId : RunId} {actorId : AgentId} {now : String}
    {s t : Project} {r : Except DomainError Unit} (hs : Coherent s)
    (hsound : Sound s) (h : expireRun dates runId actorId now s = (r, t))
    (hall : ∀ e, r = .error e → t = s) : Coherent t := by
  rcases expireRun_cases h with
    rfl | ⟨claim, task, hfind, hactive, htask, -, hout⟩
  · exact hs
  obtain ⟨hclaim, rfl⟩ := Table.find?_eq_some.mp hfind
  cases hout with
  | refused e => exact hs
  | torn e _ hmut htasks => rwa [hall e rfl]
  | done _ hmut htasks =>
      refine hs.of_both hclaim hmut (fun _ => rfl) htasks
        (hs.released htasks htask rfl (fun change hchange => ?_)
          (hmut.unclaimed hsound.one hclaim hactive (by simp) fun _ => rfl))
      simp only [List.lookup_cons, beq_self_eq_true, Option.some.injEq]
        at hchange
      cases hchange
      exact closes_of_running rfl

/-! ## Tasks without a change of claims -/

theorem Coherent.unblocked {s t : Project} (hs : Coherent s)
    {changes : TaskStatusChanges} {ref : TaskRef} {g : Task → Task}
    (htasks : Committed changes ref g s.tasks t.tasks)
    (hruns : t.events.runs = s.events.runs) {task : Task}
    (htask : findTask s.backlog ref = some task)
    (hblocked : task.status = .blocked) (htodo : (g task).status = .todo) :
    Coherent t := by
  refine hs.of_view ref (fun r hne => ?_) (.inr ?_)
  · obtain ⟨hstatus, hbindings⟩ := htasks.other r hne
    exact view_eq hstatus (by rw [hruns]) hbindings
  · have hbefore := statusAt_of_findTask htask
    rw [hblocked] at hbefore
    refine Phase.idle_of (htasks.here task htask).1 ?_ ?_ ?_
    · rw [htodo]
      rfl
    · change activeAt t.events.runs ref = ∅
      rw [hruns]
      exact hs.claims_idle hbefore rfl rfl
    · refine hs.runs_closed htasks htask ?_ fun _ _ hrunning => ?_
      · rw [htodo]
        rfl
      · rw [hblocked] at hrunning
        cases hrunning

theorem Coherent.unblockTask {ref : TaskRef} {reason : Option String}
    {actorId : AgentId} {now : String} {s t : Project}
    {r : Except DomainError Unit} (hs : Coherent s)
    (h : unblockTask dates ref reason actorId now s = (r, t)) :
    Coherent t := by
  rcases unblockTask_cases h with rfl | ⟨task, htask, hblocked, hruns, htasks⟩
  · exact hs
  · exact hs.unblocked htasks hruns htask hblocked rfl

theorem Coherent.delegateTask {args : DelegateArgs} {now : String}
    {s t : Project} {r : Except DomainError (Option AgentId)} (hs : Coherent s)
    (h : delegateTask dates registry args now s = (r, t)) : Coherent t := by
  rcases delegateTask_cases h with rfl | ⟨task, target, htask, hruns, htasks⟩
  · exact hs
  have hstatus := delegatedTask_status args target task
  by_cases hblocked : task.status = .blocked
  · rw [if_pos hblocked] at hstatus
    exact hs.unblocked htasks hruns htask hblocked hstatus
  · rw [if_neg hblocked] at hstatus
    refine hs.of_view args.taskRef (fun r hne => ?_) (.inl ?_)
    · obtain ⟨hsame, hbindings⟩ := htasks.other r hne
      exact view_eq hsame (by rw [hruns]) hbindings
    · obtain ⟨hnow, ⟨-, hbindings⟩ | ⟨hne, -⟩⟩ := htasks.here task htask
      · refine view_eq ?_ (by rw [hruns]) hbindings
        rw [hnow, hstatus, statusAt_of_findTask htask]
      · exact absurd hstatus hne

theorem Coherent.markTaskDoneRuntimeOnly {ref : TaskRef} {actorId : AgentId}
    {now : String} {s t : Project} {r : Except DomainError TaskStatus}
    (hs : Coherent s)
    (h : markTaskDoneRuntimeOnly dates ref actorId now s = (r, t)) :
    Coherent t := by
  obtain ⟨hruns, htasks | ⟨task, htask, hne, htasks⟩⟩ :=
    markTaskDoneRuntimeOnly_cases h
  · exact hs.of_views fun r => .inl
      (view_eq (by rw [htasks]) (by rw [hruns]) (by rw [htasks]))
  refine hs.of_view ref (fun r hr => ?_) (.inr ?_)
  · obtain ⟨hstatus, hbindings⟩ := htasks.other r hr
    exact view_eq hstatus (by rw [hruns]) hbindings
  obtain ⟨hnow, ⟨hsame, -⟩ | ⟨-, change, hchange, hallowed, hbindings⟩⟩ :=
    htasks.here task htask
  · exact absurd hsame.symm hne
  simp only [List.lookup_cons, beq_self_eq_true, Option.some.injEq] at hchange
  cases hchange
  have hrunning : task.status.running = true := by
    cases hst : task.status with
    | claimed | inProgress => rfl
    | _ =>
        rw [hst] at hallowed
        cases hallowed
  obtain ⟨run, started, -, hp⟩ :=
    hs.of_running (statusAt_of_findTask htask) hrunning
  refine ⟨.merged run started .done rfl, View.ext hnow ?_ ?_⟩
  · change activeAt t.events.runs ref = _
    rw [hruns]
    exact congrArg View.claims hp
  · change t.tasks.runsAt ref = ∅
    rw [hbindings, closes_of_running rfl hrunning, if_pos rfl]

/-! ## A new claim -/

theorem Coherent.claimTask {ref : TaskRef} {agentId : AgentId} {lease : Int}
    {runId : RunId} {snapshot : Except DomainError Unit} {now : Int}
    {s t : Project} {r : Except DomainError (RunId × String)} (hs : Coherent s)
    (hsound : Sound s)
    (h : claimTask dates ref agentId lease runId snapshot now s = (r, t))
    (hall : ∀ e, r = .error e → t = s) : Coherent t := by
  rcases claimTask_cases hsound.bound h with
    rfl | ⟨hfree, pinned, ts, hclaim, ⟨rfl, hadded⟩ | ⟨⟨e, he⟩, -⟩⟩
  · exact hs
  · obtain ⟨hstatus, hother⟩ := statusAt_claimed hclaim
    obtain ⟨-, -, -, -, -, hruns, -⟩ := claimTask_ok hclaim
    refine hs.of_view ref (fun r hr => ?_) (.inr ⟨.bound runId false, ?_⟩)
    · refine view_eq (hother r hr) ?_ (by rw [hruns, if_neg hr])
      ext q
      simp only [activeAt, Set.mem_ofPred_eq, hadded.mem]
      constructor
      · rintro ⟨c, hc | rfl, ha, hcr, hq⟩
        · exact ⟨c, hc, ha, hcr, hq⟩
        · exact absurd hcr.symm hr
      · rintro ⟨c, hc, hrest⟩
        exact ⟨c, .inl hc, hrest⟩
    · refine View.ext hstatus ?_ ?_
      · ext q
        simp only [Project.view, activeAt, Set.mem_ofPred_eq, hadded.mem]
        constructor
        · rintro ⟨c, hc | rfl, ha, hcr, rfl⟩
          · exact absurd hcr (hfree c hc ha)
          · rfl
        · rintro rfl
          exact ⟨_, .inr rfl, rfl, rfl, rfl⟩
      · change t.tasks.runsAt ref = {runId}
        rw [hruns, if_pos rfl]
  · rwa [hall e he]

/-! ## Reconciliation finds nothing -/

theorem mem_activeClaimsOf {s : Project} {ref : TaskRef} {c : Claim} :
    c ∈ activeClaimsOf s.claims s.backlog ref ↔
      c ∈ s.events.runs ∧ c.active = true ∧
        knownTask s.backlog c.taskRef = true ∧ c.taskRef = ref := by
  simp [activeClaimsOf, Project.claims, Table.mem_rows, and_assoc]

theorem activeClaimOf_mem {claims : List Claim} {backlog : Backlog}
    {ref : TaskRef} {claim : Claim}
    (h : activeClaimOf claims backlog ref = some claim) :
    claim ∈ activeClaimsOf claims backlog ref := by
  unfold activeClaimOf at h
  cases hclaims : activeClaimsOf claims backlog ref with
  | nil => simp [hclaims] at h
  | cons a rest =>
      cases rest with
      | nil =>
          simp only [hclaims, Option.some.injEq] at h
          exact h ▸ List.mem_cons_self
      | cons b rest =>
          simp only [hclaims] at h
          exact List.mem_mergeSort.mp (List.mem_of_head? h)

theorem Sound.known {s : Project} (hs : Sound s) {c : Claim}
    (hc : c ∈ s.events.runs) (ha : c.active = true) :
    knownTask s.backlog c.taskRef = true := by
  obtain ⟨status, hstatus, -⟩ := hs.held c hc ha
  obtain ⟨task, htask, -⟩ := findTask_of_statusAt hstatus
  have hne : c.taskRef ≠ "" := by
    intro hempty
    have href := (hs.named c hc).taskRef
    rw [hempty] at href
    cases href
  simp [knownTask, htask, hne]

/-- The one active claim of a task is the one the reconciliation keeps. -/
theorem Sound.activeClaimOf_eq {s : Project} (hs : Sound s) {c : Claim}
    (hc : c ∈ s.events.runs) (ha : c.active = true) :
    activeClaimOf s.claims s.backlog c.taskRef = some c := by
  cases hkept : activeClaimOf s.claims s.backlog c.taskRef with
  | none =>
      have hmem := mem_activeClaimsOf.mpr ⟨hc, ha, hs.known hc ha, rfl⟩
      rw [activeClaimOf_none hkept] at hmem
      cases hmem
  | some kept =>
      obtain ⟨hk, hka, -, href⟩ :=
        mem_activeClaimsOf.mp (activeClaimOf_mem hkept)
      have hid := hs.one kept hk c hc hka ha href
      rw [Table.eq_of_key hk hc hid]

theorem Sound.orphans_eq {s : Project} (hs : Sound s) :
    orphans s.claims s.backlog = [] := by
  refine List.filter_eq_nil_iff.mpr fun c hc hno => ?_
  simp only [Bool.and_eq_true, Bool.not_eq_true'] at hno
  rw [hs.known hc hno.1] at hno
  cases hno.2

theorem duplicates_eq {s : Project} (hone : OneActive s.events.runs) :
    duplicates s.claims s.backlog = [] := by
  refine List.flatMap_eq_nil_iff.mpr fun ref _ => ?_
  refine List.filter_eq_nil_iff.mpr fun c hc hno => ?_
  obtain ⟨hrow, ha, -, href⟩ := mem_activeClaimsOf.mp hc
  obtain ⟨kept, hkept, hne⟩ := (Option.any_eq_true _ _).mp hno
  obtain ⟨hk, hka, -, hkref⟩ := mem_activeClaimsOf.mp (activeClaimOf_mem hkept)
  exact of_decide_eq_true hne
    (hone c hrow kept hk ha hka (href.trans hkref.symm))

theorem inspectTask_mismatched {claims : List Claim} {backlog : Backlog}
    {task : Task} {claim : Claim}
    (h : (inspectTask claims backlog task).mismatched = some claim) :
    activeClaimOf claims backlog task.ref = some claim := by
  unfold inspectTask at h
  split at h
  · cases h
  · split at h
    · rename_i kept hkept
      rw [hkept]
      grind [Verdict.mismatched]
    · split at h <;> cases h

theorem Sound.failedClaims_eq {s : Project} (hs : Sound s)
    (h : ∀ task ∈ s.backlog,
      inspectTask s.claims s.backlog task = .consistent) :
    failedClaims s.claims s.backlog = [] := by
  have hmismatched : (s.backlog.filterMap fun task =>
      (inspectTask s.claims s.backlog task).mismatched) = [] := by
    refine List.filterMap_eq_nil_iff.mpr fun task htask => ?_
    rw [h task htask]
    rfl
  simp only [failedClaims, hs.orphans_eq, duplicates_eq hs.one, hmismatched,
    List.map_nil, List.append_nil]

theorem Coherent.inspectTask {s : Project} (hs : Coherent s)
    (hsound : Sound s) {task : Task} (htask : task ∈ s.backlog) :
    inspectTask s.claims s.backlog task = .consistent := by
  have hfind : findTask s.backlog task.ref = some task :=
    findTask_of_mem (nodup_readProjectBacklog s.tasks) htask
  have hstatus := statusAt_of_findTask hfind
  unfold Lifecycle.inspectTask
  split
  · rfl
  cases hkept : Lifecycle.activeClaimOf s.claims s.backlog task.ref with
  | none =>
      cases hrunning : task.status.running with
      | false => simp
      | true =>
          obtain ⟨run, started, -, hp⟩ := hs.of_running hstatus hrunning
          have hmem : (run, claimStateOf started) ∈
              (s.view task.ref).claims := by
            rw [hp]
            exact Set.mem_singleton _
          obtain ⟨c, hc, ha, href, -⟩ := hmem
          rw [← href, hsound.activeClaimOf_eq hc ha] at hkept
          cases hkept
  | some claim =>
      obtain ⟨hc, ha, -, href⟩ := mem_activeClaimsOf.mp (activeClaimOf_mem hkept)
      obtain ⟨started, hstate, hphase⟩ := hs.of_claim hc ha
      rw [href] at hphase
      rcases hphase with hp | ⟨status, hmerged, hp⟩
      · have hst : task.status = statusOf started :=
          Option.some.inj (hstatus.symm.trans (congrArg View.status hp))
        simp only [hst, ← hstate]
        cases started <;> rfl
      · have hst := hstatus.symm.trans (congrArg View.status hp)
        cases hst
        simp [hmerged]

theorem Coherent.reconcileState {now : String} {s : Project}
    (hs : Coherent s) (hsound : Sound s) :
    reconcileState dates now s = (.ok (), s) := by
  have hconsistent : ∀ task ∈ s.backlog,
      Lifecycle.inspectTask s.claims s.backlog task = .consistent :=
    fun task htask => hs.inspectTask hsound htask
  have hchanges : repairChanges s = [] := by
    refine List.filterMap_eq_nil_iff.mpr fun task htask => ?_
    rw [hconsistent task htask]
    rfl
  simp only [Lifecycle.reconcileState, read_bind,
    hsound.failedClaims_eq hconsistent]
  change (commitRepairs (repairChanges s) (repairedBacklog s) now >>= fun _ =>
    commitFailures dates s.claims [] now) s = (.ok (), s)
  rw [hchanges]
  rfl

end OrcState.Lifecycle
