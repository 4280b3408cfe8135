import OrcState.Lifecycle.Agreement

/-!
# Which refusals leave half a write

A request commits claims and events first and the backlog second, each in its
own database.  A refused request leaves the first commit behind exactly when the
second is refused, and that depends on the status of the task, the cause and,
for a task that is blocked, the reason.
-/

namespace OrcState.Lifecycle

open OrcState.Contract OrcState.Foundation OrcState.Store
open OrcState.Foundation.Effect

variable {dates : DateApi} {registry : Registry}

/-! ## When the second commit is accepted -/

/-- The task store accepts the entry in place of the task it holds. -/
def Lawful (changes : TaskStatusChanges) (task entry : Task) : Prop :=
  entry.status = task.status ∨
    ∃ change, changes.lookup task.ref = some change ∧
      TaskTransitionCause.allows change.cause task.status entry.status =
        true ∧
      (entry.status = .blocked →
        hasText (transitionReason entry change) = true)

theorem commitBacklog_iff {changes : TaskStatusChanges} {ref : TaskRef}
    {g : Task → Task} (now : String) {ts : TaskStore} {task : Task}
    (hord : ∀ p ∈ changes, TaskStatusChange.Ordinary p.2)
    (htask : findTask (readProjectBacklog ts) ref = some task)
    (hg : ∀ t, t.ref = ref → (g t).ref = ref)
    (hdef : (g task).definition = task.definition) :
    (∃ ts', commitBacklog (mutateTask (readProjectBacklog ts) ref g) changes
        now ts = .ok ((), ts')) ↔
      Lawful changes task (g task) := by
  have hnodup := nodup_readProjectBacklog ts
  have hrefs : (mutateTask (readProjectBacklog ts) ref g).map Task.ref =
      (readProjectBacklog ts).map Task.ref := refs_mutateTask hg
  have href := (findTask_eq_some htask).2
  constructor
  · rintro ⟨ts', h⟩
    rcases commitBacklog_at hord hrefs h ref with
      ⟨hget, -⟩ | ⟨entry, current, row, hentry, hentryRef, hat⟩
    · rw [findTask_readProjectBacklog, hget] at htask
      cases htask
    · rw [findTask_mutateTask hg, if_pos rfl, htask] at hentry
      cases hentry
      rw [findTask_readProjectBacklog, ← hentryRef, hat.before] at htask
      cases htask
      rcases hat.runs with ⟨hsame, -⟩ |
        ⟨-, change, hchange, hallows, hreason, -⟩
      · exact .inl hsame
      · rw [hentryRef, ← href] at hchange
        exact .inr ⟨change, hchange, hallows, hreason⟩
  · intro hlawful
    refine commitBacklog_total now hord (hrefs ▸ hnodup) fun entry hentry => ?_
    obtain ⟨t, ht, rfl⟩ := List.mem_map.mp hentry
    have hfind := findTask_of_mem hnodup ht
    have hget := hfind
    rw [findTask_readProjectBacklog] at hget
    obtain ⟨current, hcurrent, rfl⟩ := Option.map_eq_some_iff.mp hget
    split
    · rename_i hhere
      rw [hhere, htask] at hfind
      cases hfind
      refine ⟨current, ?_, hdef, ?_⟩
      · rw [hg _ hhere, ← hhere]
        exact hcurrent
      · rcases hlawful with hsame | ⟨change, hchange, hrest⟩
        · exact .inl hsame
        · rw [hg _ hhere, ← href]
          exact .inr ⟨change, hchange, hrest⟩
    · exact ⟨current, hcurrent, rfl, .inl rfl⟩

theorem allOrNothing_commitBoth {claims : List Claim} {events : List OrcEvent}
    {backlog : Backlog} {changes : TaskStatusChanges} {now : String}
    {s : Project} {db : EventsDb}
    (hdb : commitClaims dates claims events s.events = .ok ((), db))
    (hne : db ≠ s.events) :
    AllOrNothing (commitBoth dates claims events backlog changes now) s ↔
      ∃ ts, commitBacklog backlog changes now s.tasks = .ok ((), ts) := by
  have hrun : commitBoth dates claims events backlog changes now s =
      onTasks (commitBacklog backlog changes now) (s.setEvents db) := by
    simp only [commitBoth, bind_apply, onEvents, atomically, hdb]
  rw [allOrNothing_iff, hrun]
  unfold onTasks atomically
  rw [setEvents_tasks]
  cases hts : commitBacklog backlog changes now s.tasks with
  | ok p =>
      obtain ⟨⟨⟩, ts⟩ := p
      simp
  | error e =>
      have htorn : s.setEvents db ≠ s := by
        intro heq
        exact hne (congrArg Project.events heq)
      simp [htorn]

/-! ## When the first commit is accepted -/

theorem Mutated.ne {p : Claim → Bool} {f : Claim → Claim} {db db' : EventsDb}
    (h : Mutated p f db.runs db'.runs) {claim : Claim}
    (hclaim : claim ∈ db.runs) (hp : p claim = true)
    (hid : (f claim).runId = claim.runId)
    (hstate : (f claim).state ≠ claim.state) : db' ≠ db := by
  rintro rfl
  have hnew : f claim ∈ db'.runs :=
    (h.mem _).mpr ⟨claim, hclaim, by rw [if_pos hp]⟩
  exact hstate (congrArg Claim.state (Table.eq_of_key hnew hclaim hid))

theorem lawful_single {ref : TaskRef} {change : TaskStatusChange}
    {task entry : Task} (href : task.ref = ref) :
    Lawful [(ref, change)] task entry ↔
      entry.status = task.status ∨
        TaskTransitionCause.allows change.cause task.status entry.status =
          true ∧
        (entry.status = .blocked →
          hasText (transitionReason entry change) = true) := by
  simp [Lawful, href]

theorem lawful_open {ref : TaskRef} {change : TaskStatusChange}
    {task entry : Task} (href : task.ref = ref)
    (hopen : entry.status ≠ .blocked) :
    Lawful [(ref, change)] task entry ↔
      entry.status = task.status ∨
        TaskTransitionCause.allows change.cause task.status entry.status =
          true := by
  simp [lawful_single href, hopen]

/-! ## Start and finish -/

theorem allOrNothing_run {s : Project} (hs : Sound s) {claim : Claim}
    {f : Claim → Claim} {g : Task → Task} {events : List OrcEvent}
    {changes : TaskStatusChanges} {now : String} {task : Task}
    (hclaim : claim ∈ s.events.runs) (hactive : claim.active = true)
    (htask : findTask s.backlog claim.taskRef = some task)
    (hid : ∀ c, (f c).runId = c.runId ∧ (f c).taskRef = c.taskRef)
    (hstate : (f claim).state ≠ claim.state)
    (hevents : ∀ e ∈ events, ValidEvent dates e)
    (hord : ∀ p ∈ changes, TaskStatusChange.Ordinary p.2)
    (hg : ∀ t, t.ref = claim.taskRef → (g t).ref = claim.taskRef)
    (hdef : (g task).definition = task.definition) :
    AllOrNothing (commitBoth dates (mutateClaim s.claims claim.runId f) events
      (mutateTask s.backlog claim.taskRef g) changes now) s ↔
      Lawful changes task (g task) := by
  have hself : ∀ c, c ∈ s.events.runs →
      decide (c.runId = claim.runId) = true → c = claim :=
    fun c hc hp => Table.eq_of_key hc hclaim (of_decide_eq_true hp)
  have hcommit : ∃ db, commitClaims dates
      (mutateClaims s.claims (fun c => c.runId = claim.runId) f) events
      s.events = .ok ((), db) :=
    commitMutated_total hs.one hid (fun c hc hp _ => hself c hc hp ▸ hactive)
      hevents
  obtain ⟨db, hdb⟩ := hcommit
  have hmut := commitMutated_claims hdb fun c => (hid c).1
  rw [mutateClaim, allOrNothing_commitBoth hdb
    (hmut.ne hclaim (by simp) (hid claim).1 hstate)]
  exact commitBacklog_iff now hord htask hg hdef

theorem validRunEvent {s : Project} (hs : Sound s) {claim : Claim}
    (hclaim : claim ∈ s.events.runs) {ts : String} {event : EventName}
    {actorType : ActorType} {actorId : AgentId} {payload : Payload}
    (hevent : event ∉ commandEvents) (hts : dates.isDateTime ts = true)
    (hpayload : validatePayload dates
      (runEvent ts event actorType actorId claim payload) = []) :
    ValidEvent dates (runEvent ts event actorType actorId claim payload) :=
  (validEvent_runEvent hevent).mpr ⟨hts, hs.named claim hclaim, hpayload⟩

theorem allOrNothing_commitStart {s : Project} (hs : Sound s) {claim : Claim}
    {agentId : AgentId} {time now : String} (hclaim : claim ∈ s.events.runs)
    (hstate : claim.state = .claimed) (htime : dates.isDateTime time = true) :
    AllOrNothing (commitStart dates claim agentId { time := time } now s) s ↔
      ∀ task, findTask s.backlog claim.taskRef = some task →
        task.status.running = true := by
  have hevent : ∀ e ∈ [runEvent time .runStarted .agent agentId claim []],
      ValidEvent dates e := by
    intro e he
    rw [List.mem_singleton.mp he]
    exact validRunEvent hs hclaim (by decide) htime rfl
  unfold commitStart
  cases htask : findTask s.backlog claim.taskRef with
  | none =>
      refine iff_of_true (allOrNothing_atomically _ _ _ s) fun task h => ?_
      cases h
  | some task =>
      have hactive : claim.active = true := by
        rw [Claim.active, hstate]
        rfl
      dsimp only
      refine (allOrNothing_run hs hclaim hactive htask ?_ ?_ hevent ?_ ?_
        ?_).trans ?_
      · exact fun _ => ⟨rfl, rfl⟩
      · rw [hstate]
        simp [startClaim, resetClaimVolatileFields]
      · simp [TaskStatusChange.Ordinary]
      · exact fun _ href => href
      · rfl
      · rw [lawful_open (findTask_eq_some htask).2 (by simp)]
        simp only [Option.some.injEq, forall_eq']
        cases task.status <;> decide

theorem Sound.blockedReason {s : Project} (hs : Sound s) {ref : TaskRef}
    {task : Task} (htask : findTask s.backlog ref = some task)
    (hopen : task.status ≠ .blocked) : task.blockedReason = none := by
  rw [Project.backlog, findTask_readProjectBacklog] at htask
  obtain ⟨row, hrow, rfl⟩ := Option.map_eq_some_iff.mp htask
  have hnone := hs.tasks.tidy row (Table.mem_of_find? hrow) hopen
  simp [projectTaskToBacklogTask, hnone, nonEmpty]

theorem finishTask_definition (dates : DateApi) (o : FinishOptions)
    (task : Task) :
    (finishTask dates o task).definition = task.definition := by
  unfold finishTask
  split
  · rfl
  · split
    · rfl
    · split
      · rfl
      · simp only [countAttempt]
        split <;> rfl

theorem countAttempt_reason {verb : String} {base : Int} {task : Task}
    (h : (countAttempt dates verb base task).status = .blocked) :
    hasText (countAttempt dates verb base task).blockedReason = true := by
  simp only [countAttempt] at h ⊢
  split
  · have hhead : ("max_attempts_exceeded: " ++ verb ++ " " ++
        toString (task.attemptCount + 1) ++ " times").toList =
        'm' :: ("ax_attempts_exceeded: ".toList ++ verb.toList ++ " ".toList ++
          (toString (task.attemptCount + 1)).toList ++ " times".toList) := by
      simp [String.toList_append]
    exact hasText_of_head hhead (by decide) (by decide)
  · rename_i hless
    rw [if_neg hless] at h
    cases h

def BlankBlock (o : FinishOptions) : Prop :=
  o.success = false ∧ o.policy = "block" ∧
    ∃ reason, o.failureReason = some reason ∧ hasText (some reason) = false

theorem lawful_finishChanges {claim : Claim} {agentId : AgentId}
    {o : FinishOptions} {task finished : Task}
    (href : task.ref = claim.taskRef) :
    Lawful (finishChanges claim agentId o task finished) task finished ↔
      finished.status = task.status ∨
        TaskTransitionCause.allows (finishCause finished) task.status
          finished.status = true ∧
        (finished.status = .blocked →
          hasText (some (((finishReason o finished).or
            finished.blockedReason).getD (finishCause finished).text)) =
              true) := by
  unfold finishChanges
  split
  · rename_i hsame
    simp [Lawful, hsame]
  · rw [lawful_single href]
    refine or_congr Iff.rfl (and_congr Iff.rfl (forall_congr' fun hblocked => ?_))
    rw [transitionReason, if_pos hblocked]

theorem allows_failureBlock {status : TaskStatus}
    (h : status.running = true) :
    TaskTransitionCause.allows .failureBlock status .blocked = true := by
  cases status with
  | claimed | inProgress => rfl
  | _ => cases h

theorem allows_failureRequeue {status : TaskStatus}
    (h : status.running = true) :
    TaskTransitionCause.allows .failureRequeue status .todo = true := by
  cases status with
  | claimed | inProgress => rfl
  | _ => cases h

theorem lawful_requeue {claim : Claim} {agentId : AgentId} {o : FinishOptions}
    {task : Task} (href : task.ref = claim.taskRef)
    (hrunning : task.status.running = true) (hsuccess : o.success = false)
    (hpolicy : o.policy ≠ "block") :
    Lawful (finishChanges claim agentId o task (finishTask dates o task)) task
      (finishTask dates o task) := by
  rw [lawful_finishChanges href]
  right
  have hfinished : finishTask dates o task =
      if isInfraFailure o.failureCode then { task with status := .todo }
      else countAttempt dates "failed" ((dates.parse o.time).getD 0) task := by
    simp [finishTask, hsuccess, hpolicy]
  rcases finishTask_status dates hsuccess task with hst | hst
  · have htext : hasText (finishTask dates o task).blockedReason = true := by
      rw [hfinished] at hst ⊢
      split at hst
      · cases hst
      · rename_i hinfra
        rw [if_neg hinfra]
        exact countAttempt_reason hst
    have hallowed := allows_failureBlock hrunning
    cases hblocked : (finishTask dates o task).blockedReason with
    | none =>
        rw [hblocked] at htext
        cases htext
    | some reason =>
        rw [hblocked] at htext
        simp [finishCause, hst, hallowed, finishReason, hblocked, htext]
  · have hallowed := allows_failureRequeue hrunning
    simp [finishCause, hst, hallowed]

theorem lawful_finish {claim : Claim} {agentId : AgentId} {o : FinishOptions}
    {task : Task} (href : task.ref = claim.taskRef)
    (hrunning : task.status.running = true)
    (hreason : task.blockedReason = none) :
    Lawful (finishChanges claim agentId o task (finishTask dates o task)) task
      (finishTask dates o task) ↔ ¬ BlankBlock o := by
  rw [lawful_finishChanges href]
  cases hsuccess : o.success with
  | true => simp [finishTask, BlankBlock, hsuccess]
  | false =>
      by_cases hpolicy : o.policy = "block"
      · have hfinished : finishTask dates o task =
            { task with status := .blocked } := by
          simp [finishTask, hsuccess, hpolicy]
        have hmoved : TaskStatus.blocked ≠ task.status := by
          intro h
          rw [← h] at hrunning
          cases hrunning
        have hallowed := allows_failureBlock hrunning
        have htext : hasText (some "run failed with block policy") = true := by
          decide
        cases hfailure : o.failureReason with
        | none =>
            simp [hfinished, hmoved, finishCause, hallowed, BlankBlock,
              finishReason, hreason, hpolicy, hfailure, htext]
        | some reason =>
            simp [hfinished, hmoved, finishCause, hallowed, BlankBlock,
              finishReason, hreason, hpolicy, hfailure, hsuccess]
      · refine iff_of_true ?_ fun hblank => hpolicy hblank.2.1
        exact (lawful_finishChanges href).mp
          (@lawful_requeue dates claim agentId o task href hrunning hsuccess
            hpolicy)

def KnownPolicy (o : FinishOptions) : Prop :=
  o.policy = "requeue" ∨ o.policy = "block"

theorem validFinishEvents {s : Project} (hs : Sound s) {claim : Claim}
    (hclaim : claim ∈ s.events.runs) {agentId : AgentId} {o : FinishOptions}
    (htime : dates.isDateTime o.time = true) (hpolicy : KnownPolicy o) :
    ∀ e ∈ finishEvents claim agentId o, ValidEvent dates e := by
  intro e he
  unfold finishEvents at he
  split at he
  · split at he
    · rw [List.mem_singleton.mp he]
      exact validRunEvent hs hclaim (by decide) htime rfl
    · rw [List.mem_singleton.mp he]
      refine validRunEvent hs hclaim (by decide) htime ?_
      have hfield : isOneOf ["requeue", "block"] (some (.str o.policy)) =
          true := by
        rcases hpolicy with h | h <;> rw [h] <;> decide
      cases o.failureReason <;> cases o.failureCode <;>
        simp [validatePayload, runEvent, requirePayloadField, OrcEvent.field,
          optionalEntry, complainIf_eq_nil, hfield]
  · cases he

theorem allOrNothing_commitFinish {s : Project} (hs : Sound s) {claim : Claim}
    {agentId : AgentId} {o : FinishOptions} {now : String}
    (hclaim : claim ∈ s.events.runs) (hactive : claim.active = true)
    (htime : dates.isDateTime o.time = true) (hpolicy : KnownPolicy o) :
    AllOrNothing (commitFinish dates claim agentId o now s) s ↔
      (BlankBlock o → taskOfRun s claim = none) := by
  have hevents : ∀ e ∈ finishEvents claim agentId o, ValidEvent dates e :=
    validFinishEvents hs hclaim htime hpolicy
  unfold commitFinish
  cases hfind : taskOfRun s claim with
  | none =>
      exact iff_of_true (allOrNothing_atomically _ _ _ s) fun _ => rfl
  | some task =>
      obtain ⟨htask, hrunning⟩ := taskOfRun_eq_some hfind
      have href := (findTask_eq_some htask).2
      have hopen : task.status ≠ .blocked := by
        intro h
        rw [h] at hrunning
        cases hrunning
      refine (allOrNothing_run hs hclaim hactive htask ?_ ?_ hevents ?_ ?_
        ?_).trans ?_
      · exact fun _ => ⟨rfl, rfl⟩
      · intro h
        have hfinished := finishClaim_active o claim
        rw [Claim.active, h, ← Claim.active, hactive] at hfinished
        cases hfinished
      · exact finishChanges_ordinary claim agentId o task _
      · exact fun _ _ => (finishTask_ref o task).trans href
      · exact finishTask_definition dates o task
      · refine (lawful_finish href hrunning
          (hs.blockedReason htask hopen)).trans ?_
        simp

/-! ## Run operations -/

def startsLate (s : Project) (runId : RunId) (agentId : AgentId) : Bool :=
  (s.findClaim runId).any fun claim =>
    claim.agentId = agentId && claim.state = .claimed &&
      (findTask s.backlog claim.taskRef).any fun task => !task.status.running

def holdsTask (s : Project) (runId : RunId) (agentId : AgentId) : Bool :=
  (s.findClaim runId).any fun claim =>
    claim.agentId = agentId && claim.active && (taskOfRun s claim).isSome

theorem isDateTime_parse {time : String} (h : dates.isDateTime time = true) :
    ¬ (dates.parse time).isNone = true := by
  simp only [DateApi.isDateTime, Bool.and_eq_true] at h
  simp [Option.isNone_iff_eq_none, Option.isSome_iff_ne_none.mp h.2]

theorem allOrNothing_startRun {s : Project} (hs : Sound s) {runId : RunId}
    {agentId : AgentId} {time now : String}
    (htime : dates.isDateTime time = true) :
    AllOrNothing (startRun dates runId agentId { time := time } now) s ↔
      startsLate s runId agentId = false := by
  unfold startRun assertValidTimestamp startsLate
  rw [allOrNothing_read, allOrNothing_ofExcept]
  cases hfind : s.findClaim runId with
  | none =>
      refine iff_of_true (fun claim hclaim => ?_) rfl
      rw [ownClaim_ok, hfind] at hclaim
      cases hclaim.1
  | some claim =>
      obtain ⟨hclaim, -⟩ := Table.find?_eq_some.mp hfind
      simp only [ownClaim_ok, hfind, Option.some.injEq, and_imp,
        forall_eq', Option.any_some]
      cases hstate : claim.state with
      | inProgress => simp [allOrNothing_pure]
      | done | failed =>
          simp [allOrNothing_throwIf]
      | claimed =>
          simp only [reduceCtorEq, if_false, allOrNothing_throwIf, ne_eq,
            not_true_eq_false, not_false_eq_true, forall_const,
            isDateTime_parse htime, allOrNothing_commitStart hs hclaim hstate
              htime]
          cases htask : findTask s.backlog claim.taskRef <;> simp

theorem allOrNothing_finishRun {s : Project} (hs : Sound s) {runId : RunId}
    {agentId : AgentId} {o : FinishOptions} {now : String}
    (htime : dates.isDateTime o.time = true) (hpolicy : KnownPolicy o) :
    AllOrNothing (finishRun dates runId agentId o now) s ↔
      (BlankBlock o → holdsTask s runId agentId = false) := by
  unfold finishRun assertValidTimestamp holdsTask
  rw [allOrNothing_read, allOrNothing_ofExcept]
  cases hfind : s.findClaim runId with
  | none =>
      refine iff_of_true (fun claim hclaim => ?_) fun _ => rfl
      rw [ownClaim_ok, hfind] at hclaim
      cases hclaim.1
  | some claim =>
      obtain ⟨hclaim, -⟩ := Table.find?_eq_some.mp hfind
      simp only [ownClaim_ok, hfind, Option.some.injEq, and_imp,
        forall_eq', Option.any_some, allOrNothing_throwIf,
        isDateTime_parse htime]
      cases hactive : claim.active with
      | true =>
          simp only [if_true,
            allOrNothing_commitFinish hs hclaim hactive htime hpolicy]
          cases taskOfRun s claim <;> simp [imp.swap]
      | false =>
          simp only [Bool.false_eq_true, if_false, Bool.and_false,
            Bool.false_and, implies_true, iff_true]
          intro _ _
          split
          · exact allOrNothing_atomically _ _ _ s
          · exact allOrNothing_pure _ s

/-! ## Operator mutations -/

theorem lawful_reset {ref : TaskRef} {actorId : AgentId} {task : Task}
    (href : task.ref = ref) :
    Lawful (resetChanges ref actorId task) task (resetEntry task) := by
  unfold resetChanges
  split
  · rename_i htodo
    exact .inl htodo.symm
  · rename_i hne
    refine (lawful_open href (by simp [resetEntry])).mpr (.inr ?_)
    cases hst : task.status <;> first | rfl | exact absurd hst hne

theorem validTaskEvent {s : Project} (hs : Sound s) {ref : TaskRef}
    {task : Task} (htask : findTask s.backlog ref = some task)
    {ts : String} {event : EventName} {actorId : AgentId} {payload : Payload}
    (hevent : event = .taskUpdated ∨ event = .taskCancelled)
    (hts : dates.isDateTime ts = true)
    (hpayload : validatePayload dates
      (taskEvent ts event actorId ref payload) = []) :
    ValidEvent dates (taskEvent ts event actorId ref payload) := by
  have href : taskRefRe ref = true := by
    rw [Project.backlog, findTask_readProjectBacklog] at htask
    obtain ⟨row, hrow, -⟩ := Option.map_eq_some_iff.mp htask
    rw [← Table.key_of_find? hrow]
    exact hs.tasks.refs row (Table.mem_of_find? hrow)
  have hcore : validateCoreEventInvariants dates
      (taskEvent ts event actorId ref payload) = [] := by
    have hkind : (taskEvent ts event actorId ref payload).event = event := rfl
    have hname : requireTaskRef (taskEvent ts event actorId ref payload) =
        [] := by
      simp [requireTaskRef, complainIf, taskEvent, href]
    rcases hevent with rfl | rfl <;>
      simp [validateCoreEventInvariants, hkind, hname, hpayload, taskEvents,
        runLifecycleEvents, workerRunEvents, commandEvents, agentEvents]
  simp only [ValidEvent, validateEventObject, List.append_eq_nil_iff]
  refine ⟨?_, hcore⟩
  simp [validateSchema, taskEvent, complainIf_eq_nil, hts, href]

theorem allOrNothing_expireRun {s : Project} (hs : Sound s) {runId : RunId}
    {actorId : AgentId} {now : String} (hnow : dates.isDateTime now = true) :
    AllOrNothing (expireRun dates runId actorId now) s := by
  unfold expireRun
  simp only [allOrNothing_throwIf, allOrNothing_read, allOrNothing_orThrow]
  intro _ claim hfind hactive task htask hopen
  obtain ⟨hclaim, rfl⟩ := Table.find?_eq_some.mp hfind
  rw [Bool.not_eq_false] at hactive
  rw [Bool.not_eq_true] at hopen
  have hrunning : task.status.running = true := by
    obtain ⟨status, hstatus, hheld⟩ := hs.held claim hclaim hactive
    rw [statusAt_of_findTask htask] at hstatus
    cases hstatus
    rcases hheld with hheld | hheld
    · exact hheld
    · rw [TaskStatus.terminal_of_merged hheld] at hopen
      cases hopen
  refine (allOrNothing_run hs hclaim hactive htask ?_ ?_ ?_ ?_ ?_ ?_).mpr ?_
  · exact fun _ => ⟨rfl, rfl⟩
  · intro h
    rw [Claim.active, ← h] at hactive
    cases hactive
  · intro e he
    rw [List.mem_singleton.mp he]
    exact validRunEvent hs hclaim (by decide) hnow rfl
  · simp [TaskStatusChange.Ordinary]
  · exact fun _ href => href
  · rfl
  · refine (lawful_open (findTask_eq_some htask).2 (by simp)).mpr (.inr ?_)
    exact allows_failureRequeue hrunning

theorem allOrNothing_resetTask {s : Project} (hs : Sound s) {ref : TaskRef}
    {actorId : AgentId} {now : String} (hnow : dates.isDateTime now = true) :
    AllOrNothing (resetTask dates ref actorId now) s := by
  unfold resetTask requireActor requireTask
  simp only [allOrNothing_throwIf, allOrNothing_read, allOrNothing_orThrow,
    allOrNothing_result]
  intro _ _ task htask
  have href := (findTask_eq_some htask).2
  have hord : ∀ p ∈ resetChanges ref actorId task,
      TaskStatusChange.Ordinary p.2 := by
    unfold resetChanges
    split <;> simp [TaskStatusChange.Ordinary]
  obtain ⟨ts, hts⟩ := (commitBacklog_iff (g := resetEntry) now hord htask
    (fun _ h => h) rfl).mpr (lawful_reset href)
  have hvalid : ∀ e ∈ taskEvent now .taskUpdated actorId ref
        [("reset", .bool true), ("previous_status", .str task.status.text),
          ("status", .str "todo")] ::
      (activeClaimsFor s ref).map fun claim =>
        runEvent now .runCancelled (actorTypeOf actorId) actorId claim
          [("reason", .str "manual_reset")], ValidEvent dates e := by
    intro e he
    rcases List.mem_cons.mp he with rfl | he
    · refine validTaskEvent hs htask (.inl rfl) hnow ?_
      simp [validatePayload, taskEvent, requireNonEmptyString,
        requirePayloadField, OrcEvent.field, isNonEmptyString, complainIf]
    · obtain ⟨claim, hclaim, rfl⟩ := List.mem_map.mp he
      exact validRunEvent hs (List.mem_filter.mp hclaim).1 (by decide) hnow rfl
  obtain ⟨db, hdb⟩ := commitMutated_total hs.one
    (p := fun c => c.taskRef = ref && c.active) (f := resetClaim now)
    (fun _ => ⟨rfl, rfl⟩) (fun _ _ _ ha => by cases ha) hvalid
  rw [allOrNothing_iff]
  refine .inl ⟨(), ?_⟩
  simp only [commitBoth, bind_apply, onEvents, onTasks, atomically, hdb]
  rw [setEvents_tasks]
  have hcommit : commitBacklog (mutateTask s.backlog ref resetEntry)
      (if task.status = .todo then []
        else [(ref, { cause := .operatorReset, actorId := some actorId })]) now
      s.tasks = .ok ((), ts) := hts
  rw [hcommit]

theorem cancelClaims_ok {s : Project} (hs : Sound s) {ref : TaskRef}
    {reason : Option String} {actorId : AgentId} {now : String}
    (hnow : dates.isDateTime now = true) :
    ∃ m, cancelClaims dates ref reason actorId now s s = (.ok (), m) ∧
      m.tasks = s.tasks := by
  unfold cancelClaims
  split
  · exact ⟨s, rfl, rfl⟩
  · have hvalid : ∀ e ∈ (activeClaimsFor s ref).map fun removed =>
        runEvent now .runCancelled (actorTypeOf actorId) actorId removed
          [("reason", nullable reason)], ValidEvent dates e := by
      intro e he
      obtain ⟨claim, hclaim, rfl⟩ := List.mem_map.mp he
      exact validRunEvent hs (List.mem_filter.mp hclaim).1 (by decide) hnow rfl
    have hold : ∀ c ∈ s.claims.filter fun c => !(c.taskRef = ref && c.active),
        c ∈ s.events.runs := fun c hc => (List.mem_filter.mp hc).1
    obtain ⟨db, hdb⟩ := commitClaims_total hs.one hold (f := id)
      (fun _ => rfl) (fun _ => rfl) (fun _ _ ha => ha) hvalid
    rw [List.map_id] at hdb
    refine ⟨s.setEvents db, ?_, rfl⟩
    simp only [onEvents, atomically, hdb]

theorem validCancelledEvent {s : Project} (hs : Sound s) {ref : TaskRef}
    {task : Task} (htask : findTask s.backlog ref = some task)
    {reason : Option String} {actorId : AgentId} {now : String}
    (hnow : dates.isDateTime now = true) :
    ValidEvent dates
      (cancelledEvent ref reason actorId now (activeClaimsFor s ref)) := by
  have hnamed : ∀ claim ∈ (activeClaimsFor s ref).head?, WellNamed claim :=
    fun claim hclaim =>
      hs.named claim (List.mem_filter.mp (List.mem_of_mem_head? hclaim)).1
  have hevent : ValidEvent dates (taskEvent now .taskCancelled actorId ref []) :=
    validTaskEvent hs htask (.inr rfl) hnow rfl
  simp only [ValidEvent, validateEventObject, List.append_eq_nil_iff] at hevent ⊢
  obtain ⟨hschema, hcore⟩ := hevent
  refine ⟨?_, hcore⟩
  simp only [validateSchema, List.append_eq_nil_iff,
    complainIf_eq_nil] at hschema ⊢
  obtain ⟨⟨⟨⟨hseq, hts⟩, -⟩, href⟩, -⟩ := hschema
  refine ⟨⟨⟨⟨hseq, hts⟩, ?_⟩, href⟩, ?_⟩
  · cases hhead : (activeClaimsFor s ref).head? with
    | none => simp [cancelledEvent, hhead]
    | some claim =>
        simp [cancelledEvent, hhead, (hnamed claim hhead).runId]
  · cases hhead : (activeClaimsFor s ref).head? with
    | none => simp [cancelledEvent, hhead]
    | some claim =>
        simp [cancelledEvent, hhead, (hnamed claim hhead).agentId]

theorem lawful_cancel {ref : TaskRef} {reason : Option String}
    {actorId : AgentId} {task : Task} (href : task.ref = ref)
    (hopen : task.status.terminal = false) :
    Lawful [(ref, cancelChange reason actorId)] task (cancelEntry task) := by
  refine (lawful_open href (by simp [cancelEntry])).mpr (.inr ?_)
  cases hst : task.status with
  | done | released | cancelled =>
      rw [hst] at hopen
      cases hopen
  | _ => rfl

theorem commitCancel_ok {s : Project} (hs : Sound s) {ref : TaskRef}
    {task : Task} (htask : findTask s.backlog ref = some task)
    (hopen : task.status.terminal = false) {reason : Option String}
    {actorId : AgentId} {now : String} (hnow : dates.isDateTime now = true) :
    ∃ t, commitCancel dates ref reason actorId now s s = (.ok (), t) := by
  have hremove : ∃ m, cancelClaims dates ref reason actorId now s s =
      (.ok (), m) ∧ m.tasks = s.tasks := cancelClaims_ok hs hnow
  obtain ⟨m, hclaims, htasks⟩ := hremove
  have hord : ∀ p ∈ [(ref, cancelChange reason actorId)],
      TaskStatusChange.Ordinary p.2 := by
    simp [TaskStatusChange.Ordinary, cancelChange]
  obtain ⟨ts, hts⟩ := (commitBacklog_iff (g := cancelEntry) now hord htask
    (fun _ h => h) rfl).mpr (lawful_cancel (findTask_eq_some htask).2 hopen)
  have hcommit : onTasks (commitBacklog (mutateTask s.backlog ref cancelEntry)
      [(ref, cancelChange reason actorId)] now) m =
      (.ok (), m.setTasks ts) := by
    simp only [onTasks, atomically, htasks]
    rw [Project.backlog, hts]
  have hlog : onEvents (appendSequencedEvent dates
      (cancelledEvent ref reason actorId now (activeClaimsFor s ref)))
        (m.setTasks ts) =
      (.ok (), (m.setTasks ts).setEvents ((m.setTasks ts).events.logged
        (cancelledEvent ref reason actorId now (activeClaimsFor s ref)))) := by
    simp only [onEvents, atomically]
    rw [appendSequencedEvent_ok.mpr ⟨validCancelledEvent hs htask hnow, rfl⟩]
  exact ⟨_, (bind_of_ok hclaims).trans ((bind_of_ok hcommit).trans hlog)⟩

theorem allOrNothing_cancelTask {s : Project} (hs : Sound s) {ref : TaskRef}
    {reason : Option String} {actorId : AgentId} {now : String}
    (hnow : dates.isDateTime now = true) :
    AllOrNothing (cancelTask dates registry ref reason actorId now) s := by
  unfold cancelTask requireActor requireRegistered requireTask
  simp only [allOrNothing_throwIf, allOrNothing_read, allOrNothing_orThrow]
  intro _ _ _ task htask
  split
  · exact allOrNothing_pure _ s
  · rename_i hopen
    rw [allOrNothing_result, allOrNothing_iff]
    have hcommit : ∃ t, commitCancel dates ref reason actorId now s s =
        (.ok (), t) := commitCancel_ok hs htask (by simpa using hopen) hnow
    obtain ⟨t, ht⟩ := hcommit
    exact .inl ⟨(), congrArg Prod.fst ht⟩

/-! ## Requests -/

inductive Request where
  | lifecycle (request : LifecycleRequest)
  | cancelTask (ref : TaskRef) (reason : Option String) (actorId : AgentId)
  | resetTask (ref : TaskRef) (actorId : AgentId)
  | runExpire (runId : RunId) (actorId : AgentId)
  deriving DecidableEq, Repr

def Request.accepted : Request → Bool
  | .lifecycle request => parseLifecycleRequest request
  | .cancelTask _ _ actorId | .resetTask _ actorId
  | .runExpire _ actorId => agentIdRe actorId

def handle (dates : DateApi) (registry : Registry) (now : Int) :
    Request → Op Unit
  | .lifecycle request => applyLifecycle dates request (dates.toISOString now)
  | .cancelTask ref reason actorId => do
      let _ ← cancelTask dates registry ref reason actorId
        (dates.toISOString now)
      pure ()
  | .resetTask ref actorId => do
      let _ ← resetTask dates ref actorId (dates.toISOString now)
      pure ()
  | .runExpire runId actorId =>
      expireRun dates runId actorId (dates.toISOString now)

def blankBlock (policy : String) (reason : Option String) : Bool :=
  policy = "block" && truthy reason && !hasText reason

/-- The requests whose first commit stands while the second is refused. -/
def torn (s : Project) : Request → Bool
  | .lifecycle (.runStart runId agentId) => startsLate s runId agentId
  | .lifecycle (.runFail runId agentId reason _ policy) =>
      blankBlock policy (some reason) && holdsTask s runId agentId
  | .lifecycle (.progress input) =>
      match input.event with
      | .runStarted => startsLate s input.runId input.agentId
      | .runFailed =>
          blankBlock (input.policy.getD "requeue") input.reason &&
            holdsTask s input.runId input.agentId
      | _ => false
  | _ => false

theorem validateArguments_ok {s : Project} (hs : Sound s) {claim : Claim}
    (hclaim : claim ∈ s.events.runs) {input : ProgressInput}
    (hrun : claim.runId = input.runId) (hagent : claim.agentId = input.agentId) :
    validateArguments input = .ok () ∧
      validateClaim input (some claim) = .ok claim := by
  have hnamed := hs.named claim hclaim
  have hrunId := hrun ▸ hnamed.runId
  have hagentId := hagent ▸ hnamed.agentId
  have hrunNe : input.runId ≠ "" := by
    intro h
    rw [h] at hrunId
    cases hrunId
  have hagentNe : input.agentId ≠ "" := by
    intro h
    rw [h] at hagentId
    cases hagentId
  constructor
  · simp [validateArguments, rejectIf, hrunId, hagentId, hrunNe, hagentNe]
    rfl
  · simp [validateClaim, rejectIf, hrun, hagent]
    rfl

theorem validateProgressCommandInput_iff {s : Project} (hs : Sound s)
    {input : ProgressInput} {claim : Claim} :
    validateProgressCommandInput input (s.findClaim input.runId) = .ok claim ↔
      s.findClaim input.runId = some claim ∧ claim.agentId = input.agentId ∧
        validateDetails input = .ok () := by
  constructor
  · intro h
    obtain ⟨hfind, -, hagent⟩ := validateProgressCommandInput_ok h
    obtain ⟨⟨⟩, -, h⟩ := except_bind_ok h
    obtain ⟨claim', -, h⟩ := except_bind_ok h
    obtain ⟨⟨⟩, hdetails, -⟩ := except_bind_ok h
    exact ⟨hfind, hagent, hdetails⟩
  · rintro ⟨hfind, hagent, hdetails⟩
    obtain ⟨hclaim, hrun⟩ := Table.find?_eq_some.mp hfind
    obtain ⟨harguments, hpassed⟩ := validateArguments_ok hs hclaim hrun hagent
    rw [validateProgressCommandInput, harguments, hfind]
    change (validateClaim input (some claim) >>= _) = _
    rw [hpassed]
    change (validateDetails input >>= _) = _
    rw [hdetails]
    rfl

theorem allOrNothing_validated {s : Project} (hs : Sound s)
    {input : ProgressInput} {x : Claim → Op Unit} {bad : Bool}
    (hbad : bad = true → ∃ claim, s.findClaim input.runId = some claim ∧
      claim.agentId = input.agentId ∧ validateDetails input = .ok ())
    (hx : ∀ claim, s.findClaim input.runId = some claim →
      validateDetails input = .ok () →
      (AllOrNothing (x claim) s ↔ bad = false)) :
    AllOrNothing (Effect.ofExcept (validateProgressCommandInput input
      (s.findClaim input.runId)) >>= x) s ↔ bad = false := by
  simp only [allOrNothing_ofExcept, validateProgressCommandInput_iff hs]
  constructor
  · intro h
    by_contra hne
    obtain ⟨claim, hfind, hagent, hdetails⟩ := hbad (by simpa using hne)
    exact hne ((hx claim hfind hdetails).mp
      (h claim ⟨hfind, hagent, hdetails⟩))
  · rintro hfalse claim ⟨hfind, -, hdetails⟩
    exact (hx claim hfind hdetails).mpr hfalse

theorem startsLate_claim {s : Project} {runId : RunId} {agentId : AgentId}
    (h : startsLate s runId agentId = true) :
    ∃ claim, s.findClaim runId = some claim ∧ claim.agentId = agentId ∧
      claim.state = .claimed := by
  obtain ⟨claim, hfind, h⟩ := (Option.any_eq_true _ _).mp h
  simp only [Bool.and_eq_true, decide_eq_true_eq] at h
  exact ⟨claim, hfind, h.1.1, h.1.2⟩

theorem holdsTask_claim {s : Project} {runId : RunId} {agentId : AgentId}
    (h : holdsTask s runId agentId = true) :
    ∃ claim, s.findClaim runId = some claim ∧ claim.agentId = agentId := by
  obtain ⟨claim, hfind, h⟩ := (Option.any_eq_true _ _).mp h
  simp only [Bool.and_eq_true, decide_eq_true_eq] at h
  exact ⟨claim, hfind, h.1.1⟩

def reportedFailure (reason : Option String) (code policy time : String) :
    FinishOptions where
  success := false
  failureReason := reason
  failureCode := some code
  policy := policy
  time := time

theorem validateDetails_runFailed {runId : RunId} {agentId : AgentId}
    {phase reason policy : Option String} :
    validateDetails
        { event := .runFailed, runId := runId, agentId := agentId
          phase := phase, reason := reason, policy := policy } = .ok () ↔
      truthy reason = true ∧
        (policy.getD "requeue" = "requeue" ∨
          policy.getD "requeue" = "block") := by
  simp only [validateDetails, rejectIf, ProgressEvent.requiresPhase,
    ProgressEvent.requiresReason]
  cases truthy reason with
  | false =>
      simp only [Bool.false_eq_true, false_and, iff_false]
      intro h
      cases h
  | true =>
      by_cases hpolicy : policy.getD "requeue" = "requeue" ∨
          policy.getD "requeue" = "block"
      · simp [hpolicy]
        rfl
      · simp only [hpolicy, and_false, iff_false]
        simp only [not_or] at hpolicy
        simp [hpolicy]
        intro h
        cases h

theorem allOrNothing_runFailed {s : Project} (hs : Sound s) {runId : RunId}
    {agentId : AgentId} {reason : Option String} {code policy time : String}
    (hreason : truthy reason = true)
    (hpolicy : policy = "requeue" ∨ policy = "block")
    (htime : dates.isDateTime time = true) :
    AllOrNothing (finishRun dates runId agentId
        (reportedFailure reason code policy time) time) s ↔
      (blankBlock policy reason && holdsTask s runId agentId) = false := by
  have hblank : BlankBlock (reportedFailure reason code policy time) ↔
      blankBlock policy reason = true := by
    cases reason with
    | none => cases hreason
    | some r => simp [BlankBlock, reportedFailure, blankBlock, hreason]
  refine (allOrNothing_finishRun (o := reportedFailure reason code policy time)
    hs htime hpolicy).trans ?_
  rw [hblank]
  cases blankBlock policy reason <;> simp

theorem allOrNothing_applyProgress {s : Project} (hs : Sound s)
    {input : ProgressInput} {claim : Claim} {time : String}
    (hfind : s.findClaim input.runId = some claim)
    (hdetails : validateDetails input = .ok ())
    (htime : dates.isDateTime time = true) :
    AllOrNothing (applyProgress dates input claim time) s ↔
      torn s (.lifecycle (.progress input)) = false := by
  obtain ⟨event, runId, agentId, phase, reason, policy⟩ := input
  cases event with
  | runStarted =>
      simp only [applyProgress, torn]
      split
      · rename_i hstarted
        refine iff_of_true (allOrNothing_pure _ s) ?_
        simp [startsLate, hfind, hstarted]
      · exact allOrNothing_startRun hs htime
  | runFinished =>
      refine iff_of_true ?_ rfl
      simp only [applyProgress, allOrNothing_read, allOrNothing_ofExcept]
      intro _ _
      refine (allOrNothing_finishRun hs htime (.inl rfl)).mpr fun hblank => ?_
      cases hblank.1
  | runFailed =>
      obtain ⟨hreason, hpolicy⟩ := validateDetails_runFailed.mp hdetails
      exact allOrNothing_runFailed hs hreason hpolicy htime
  | heartbeat =>
      refine iff_of_true ?_ rfl
      simp only [applyProgress, allOrNothing_result, heartbeat,
        assertValidTimestamp, allOrNothing_read, allOrNothing_ofExcept,
        allOrNothing_throwIf]
      intro _ _ _ _ _
      exact allOrNothing_atomically _ _ _ s
  | reviewSubmitted | workComplete | finalizeRebaseStarted | readyToMerge
  | phaseStarted | phaseFinished | blocked | needInput | inputProvided
  | unblocked => exact iff_of_true (allOrNothing_atomically _ _ _ s) rfl

theorem allOrNothing_applyLifecycle {s : Project} (hs : Sound s)
    {request : LifecycleRequest} (haccepted : parseLifecycleRequest request)
    {time : String} (htime : dates.isDateTime time = true) :
    AllOrNothing (applyLifecycle dates request time) s ↔
      torn s (.lifecycle request) = false := by
  cases request with
  | runStart runId agentId =>
      simp only [applyLifecycle, allOrNothing_read]
      split
      · rename_i hstarted
        refine iff_of_true (allOrNothing_pure _ s) ?_
        by_contra hlate
        obtain ⟨claim, hfind, -, hstate⟩ :=
          startsLate_claim (Bool.eq_true_of_not_eq_false hlate)
        simp [hfind, hstate] at hstarted
      · refine allOrNothing_validated hs (fun hlate => ?_) fun _ _ _ =>
          allOrNothing_startRun hs htime
        obtain ⟨claim, hfind, hagent, -⟩ := startsLate_claim hlate
        exact ⟨claim, hfind, hagent, rfl⟩
  | runFail runId agentId reason code policy =>
      have hreason : truthy (some reason) = true := by
        simp only [parseLifecycleRequest, Bool.and_eq_true] at haccepted
        exact haccepted.1.1.2
      simp only [applyLifecycle, allOrNothing_read]
      refine allOrNothing_validated hs (fun hbad => ?_) fun _ _ hdetails => ?_
      · simp only [torn, Bool.and_eq_true, blankBlock,
          decide_eq_true_eq] at hbad
        obtain ⟨⟨⟨hpolicy, -⟩, -⟩, hholds⟩ := hbad
        obtain ⟨claim, hfind, hagent⟩ := holdsTask_claim hholds
        exact ⟨claim, hfind, hagent, validateDetails_runFailed.mpr
          ⟨hreason, .inr hpolicy⟩⟩
      · obtain ⟨-, hpolicy⟩ := validateDetails_runFailed.mp hdetails
        exact allOrNothing_runFailed hs hreason hpolicy htime
  | runFinish runId agentId =>
      refine iff_of_true ?_ rfl
      simp only [applyLifecycle, allOrNothing_read, allOrNothing_ofExcept]
      intro _ _ _ _
      refine (allOrNothing_finishRun hs htime (.inl rfl)).mpr fun hblank => ?_
      cases hblank.1
  | runWorkComplete runId agentId =>
      refine iff_of_true ?_ rfl
      simp only [applyLifecycle, allOrNothing_read, allOrNothing_ofExcept]
      intro _ _ _ _
      exact allOrNothing_atomically _ _ _ s
  | inputTimeout runId agentId =>
      refine iff_of_true ?_ rfl
      simp only [applyLifecycle, allOrNothing_read]
      split
      · refine (allOrNothing_finishRun hs htime (.inl rfl)).mpr fun hblank => ?_
        have hrequeue : "requeue" = "block" := hblank.2.1
        exact absurd hrequeue (by decide)
      · exact allOrNothing_pure _ s
  | progress input =>
      simp only [applyLifecycle, allOrNothing_read, validateProgress]
      split
      · rename_i hevent
        have hquiet : torn s (.lifecycle (.progress input)) = false := by
          simp [torn, hevent]
        refine iff_of_true ?_ hquiet
        rw [allOrNothing_ofExcept]
        intro claim hclaim
        refine (allOrNothing_applyProgress hs
          (validateHeartbeatInput_ok hclaim).1 ?_ htime).mpr hquiet
        simp [validateDetails, hevent, rejectIf, ProgressEvent.requiresPhase,
          ProgressEvent.requiresReason]
        rfl
      · refine allOrNothing_validated hs (fun hbad => ?_)
          fun claim hfind hdetails =>
            allOrNothing_applyProgress hs hfind hdetails htime
        obtain ⟨event, runId, agentId, phase, reason, policy⟩ := input
        cases event with
        | runStarted =>
            obtain ⟨claim, hfind, hagent, -⟩ := startsLate_claim hbad
            exact ⟨claim, hfind, hagent, rfl⟩
        | runFailed =>
            simp only [torn, Bool.and_eq_true, blankBlock,
              decide_eq_true_eq] at hbad
            obtain ⟨⟨⟨hpolicy, hreason⟩, -⟩, hholds⟩ := hbad
            obtain ⟨claim, hfind, hagent⟩ := holdsTask_claim hholds
            exact ⟨claim, hfind, hagent, validateDetails_runFailed.mpr
              ⟨hreason, .inr hpolicy⟩⟩
        | _ => cases hbad

/--
A request is all or nothing in every reachable state, but for two: the start of
a claimed run whose task is no longer running, and a failure that blocks the
task of an active run for a blank reason.
-/
theorem handle_allOrNothing {s : Project}
    (hs : (lifecycleSystem dates registry).Reachable s) {request : Request}
    (haccepted : request.accepted = true) (now : Int) :
    AllOrNothing (handle dates registry now request) s ↔
      torn s request = false := by
  have hsound := Sound.reachable hs
  have htime := dates.isDateTime_toISOString now
  cases request with
  | lifecycle request => exact allOrNothing_applyLifecycle hsound haccepted htime
  | cancelTask ref reason actorId =>
      refine iff_of_true ?_ rfl
      rw [handle, allOrNothing_result]
      exact allOrNothing_cancelTask hsound htime
  | resetTask ref actorId =>
      refine iff_of_true ?_ rfl
      rw [handle, allOrNothing_result]
      exact allOrNothing_resetTask hsound htime
  | runExpire runId actorId =>
      exact iff_of_true (allOrNothing_expireRun hsound htime) rfl

def claimAndMerge : List Action :=
  [.claimTask "docs/intro" "worker" 3 "run-1" (.ok ()) 1,
   .markTaskDoneRuntimeOnly "docs/intro" "human"
    (DateApi.epoch.toISOString 2)]

theorem handle_allOrNothing_started :
    ∃ s, (lifecycleSystem .epoch soloRegistry).run oneTask claimAndStart =
        some s ∧
      AllOrNothing (handle .epoch soloRegistry 3
        (.lifecycle (.runFail "run-1" "worker" "broken" "ERR" "block"))) s := by
  have htorn : ((lifecycleSystem .epoch soloRegistry).run oneTask
      claimAndStart).map (fun s => torn s
        (.lifecycle (.runFail "run-1" "worker" "broken" "ERR" "block"))) =
      some false := by decide
  obtain ⟨s, hs, htorn⟩ :=
    (lifecycleSystem .epoch soloRegistry).exists_run_of_map
      (f := fun s => torn s
        (.lifecycle (.runFail "run-1" "worker" "broken" "ERR" "block"))) htorn
  exact ⟨s, hs, (handle_allOrNothing
    ((System.Reachable.initial fresh_oneTask).run hs) (by decide) 3).mpr htorn⟩

def blankFailure : Request :=
  .lifecycle (.runFail "run-1" "worker" " " "ERR" "block")

def lateStart : Request := .lifecycle (.runStart "run-1" "worker")

theorem torn_of_run {as : List Action} {request : Request}
    (h : ((lifecycleSystem .epoch soloRegistry).run oneTask as).map
      (fun s => decide (AllOrNothing (handle .epoch soloRegistry 3 request)
        s)) = some false) :
    ∃ s, (lifecycleSystem .epoch soloRegistry).Reachable s ∧
      ¬ AllOrNothing (handle .epoch soloRegistry 3 request) s := by
  obtain ⟨s, hs, hno⟩ := Option.map_eq_some_iff.mp h
  exact ⟨s, (System.Reachable.initial fresh_oneTask).run hs,
    of_decide_eq_false hno⟩

/-- Both kinds of torn request are met in a run. -/
theorem not_handle_allOrNothing :
    (blankFailure.accepted = true ∧
      ∃ s, (lifecycleSystem .epoch soloRegistry).Reachable s ∧
        ¬ AllOrNothing (handle .epoch soloRegistry 3 blankFailure) s) ∧
    lateStart.accepted = true ∧
      ∃ s, (lifecycleSystem .epoch soloRegistry).Reachable s ∧
        ¬ AllOrNothing (handle .epoch soloRegistry 3 lateStart) s := by
  have hblank : ((lifecycleSystem .epoch soloRegistry).run oneTask
      claimAndStart).map (fun s => decide (AllOrNothing
        (handle .epoch soloRegistry 3 blankFailure) s)) = some false := by
    decide
  have hlate : ((lifecycleSystem .epoch soloRegistry).run oneTask
      claimAndMerge).map (fun s => decide (AllOrNothing
        (handle .epoch soloRegistry 3 lateStart) s)) = some false := by
    decide
  exact ⟨⟨rfl, torn_of_run hblank⟩, rfl, torn_of_run hlate⟩

end OrcState.Lifecycle
