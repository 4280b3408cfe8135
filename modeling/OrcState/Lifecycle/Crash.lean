import OrcState.Lifecycle.Agreement
import OrcState.Lifecycle.Recovery

/-!
# Crashes in the middle of an operation

From a paired state, whatever commits an operation made before the process died,
the state they left is recoverable: claims are only ended or stay as they are,
tasks only leave their runs, except that `claimTask` holds a free task and
`startRun` moves a claim ahead of its task.
-/

namespace OrcState.Lifecycle

open OrcState.Contract OrcState.Foundation OrcState.Store
open OrcState.Foundation.Effect

variable {dates : DateApi} {registry : Registry}

/-! ## Prefixes of the commits -/

/-- The state is recoverable wherever the commits are cut. -/
def Survives (commits : List Commit) (s : Project) : Prop :=
  ∀ n, Recoverable (crashState commits n s)

theorem Commit.apply_error {c : Commit} {s t : Project} {e : DomainError}
    (h : c.apply s = (.error e, t)) : t = s := by
  cases c with
  | events x =>
      rcases onEvents_cases h with ⟨-, -, rfl⟩ | ⟨a, db, -, hr, -⟩
      · rfl
      · cases hr
  | tasks x =>
      rcases onTasks_cases h with ⟨-, -, rfl⟩ | ⟨a, ts, -, hr, -⟩
      · rfl
      · cases hr

theorem survives_nil {s : Project} (hs : Recoverable s) : Survives [] s := by
  intro n
  rw [crashState, List.take_nil]
  exact hs

theorem survives_cons {c : Commit} {rest : List Commit} {s : Project}
    (hs : Recoverable s)
    (h : ∀ t, c.apply s = (.ok (), t) → Survives rest t) :
    Survives (c :: rest) s := by
  intro n
  cases n with
  | zero => exact hs
  | succ n =>
      rw [crashState, List.take_succ_cons, runCommits, bind_apply]
      cases happly : c.apply s with
      | mk r t =>
          cases r with
          | ok u => exact h t happly n
          | error e =>
              rw [Commit.apply_error happly]
              exact hs

/-! ## Commits that only end and release -/

structure Ended (runs runs' : Runs) : Prop where
  named : (∀ c, c ∈ runs → WellNamed c) → ∀ c, c ∈ runs' → WellNamed c
  one : OneActive runs → OneActive runs'
  live : ∀ c, c ∈ runs' → c.active = true → ∃ c₀, c₀ ∈ runs ∧
    c.runId = c₀.runId ∧ c.taskRef = c₀.taskRef ∧ c.state = c₀.state

/-- Each task keeps its status and bindings or does not run any more. -/
structure Released (ts ts' : TaskStore) : Prop where
  known : ∀ r status, statusAt ts' r = some status → (statusAt ts r).isSome
  task : ∀ r, statusAt ts' r = statusAt ts r ∧ ts'.runsAt r = ts.runsAt r ∨
    ∀ status, statusAt ts' r = some status → status.running = false

theorem Released.refl (ts : TaskStore) : Released ts ts :=
  ⟨fun _ _ h => by rw [h]; rfl, fun _ => .inl ⟨rfl, rfl⟩⟩

theorem Ended.refl (runs : Runs) : Ended runs runs :=
  ⟨id, id, fun c hc _ => ⟨c, hc, rfl, rfl, rfl⟩⟩

theorem Recoverable.later {s t : Project} (hs : Recoverable s)
    (hclaims : Ended s.events.runs t.events.runs)
    (htasks : Released s.tasks t.tasks) : Recoverable t := by
  refine ⟨⟨hclaims.named hs.rows.named, fun ref status h => ?_⟩,
    hclaims.one hs.one, fun c hc ha status hstatus hrunning => ?_⟩
  · obtain ⟨status', h'⟩ := Option.isSome_iff_exists.mp (htasks.known ref status h)
    exact hs.rows.refs ref status' h'
  obtain ⟨c₀, hc₀, hid, href, hstate⟩ := hclaims.live c hc ha
  have ha₀ : c₀.active = true := by
    rwa [Claim.active, hstate] at ha
  rcases htasks.task c.taskRef with ⟨hsame, hruns⟩ | hidle
  · rw [hsame, href] at hstatus
    rw [hruns, hid, href, hstate]
    exact hs.backed c₀ hc₀ ha₀ status hstatus hrunning
  · rw [hidle status hstatus] at hrunning
    cases hrunning

theorem Mutated.ended {p : Claim → Bool} {f : Claim → Claim}
    {runs runs' : Runs} (h : Mutated p f runs runs')
    (hid : ∀ c, (f c).runId = c.runId ∧ (f c).taskRef = c.taskRef ∧
      (f c).agentId = c.agentId)
    (hlive : ∀ c, (f c).active = true → (f c).state = c.state) :
    Ended runs runs' := by
  refine ⟨fun hnamed c hc => ?_, h.one, fun c hc ha => ?_⟩
  · obtain ⟨c₀, hc₀, ⟨-, rfl⟩ | ⟨-, rfl⟩⟩ := h.source hc
    · obtain ⟨h1, h2, h3⟩ := hid c₀
      obtain ⟨hrun, href, hagent⟩ := hnamed c₀ hc₀
      exact ⟨h1 ▸ hrun, h2 ▸ href, h3 ▸ hagent⟩
    · exact hnamed c₀ hc₀
  · obtain ⟨c₀, hc₀, ⟨-, rfl⟩ | ⟨-, rfl⟩⟩ := h.source hc
    · exact ⟨c₀, hc₀, (hid c₀).1, (hid c₀).2.1, hlive c₀ ha⟩
    · exact ⟨c₀, hc₀, rfl, rfl, rfl⟩

theorem Removed.ended {p : Claim → Bool} {runs runs' : Runs}
    (h : Removed p runs runs') : Ended runs runs' :=
  ⟨fun hnamed c hc => hnamed c ((h.mem c).mp hc).1, h.one,
    fun c hc _ => ⟨c, ((h.mem c).mp hc).1, rfl, rfl, rfl⟩⟩

theorem commitBacklog_released {changes : TaskStatusChanges}
    {backlog : Backlog} {now : String} {ts ts' : TaskStore} {u : Unit}
    (hord : ∀ p ∈ changes, TaskStatusChange.Ordinary p.2)
    (hrefs : backlog.map Task.ref = (readProjectBacklog ts).map Task.ref)
    (hentry : ∀ entry, entry ∈ backlog → ∀ status,
      statusAt ts entry.ref = some status →
        entry.status = status ∨ entry.status.running = false)
    (h : commitBacklog backlog changes now ts = .ok (u, ts')) :
    Released ts ts' := by
  refine ⟨fun r status hstatus => ?_, fun r => ?_⟩
  · rcases commitBacklog_at hord hrefs h r with
      ⟨-, hget, -⟩ | ⟨entry, current, row, -, rfl, hat⟩
    · rw [statusAt, hget] at hstatus
      cases hstatus
    · rw [statusAt, hat.before]
      rfl
  rcases commitBacklog_at hord hrefs h r with
    ⟨hget, hget', hruns⟩ | ⟨entry, current, row, hfind, rfl, hat⟩
  · exact .inl ⟨by rw [statusAt, statusAt, hget, hget'], hruns⟩
  obtain ⟨hstatus, hmove⟩ := view_of_commit hat
  have hbefore : statusAt ts entry.ref = some current.status := by
    rw [statusAt, hat.before]
    rfl
  rcases hentry entry (findTask_eq_some hfind).1 _ hbefore with hsame | hidle
  · rcases hmove with ⟨-, hruns⟩ | ⟨hne, -⟩
    · exact .inl ⟨by rw [hstatus, hbefore, hsame], hruns⟩
    · exact absurd hsame hne
  · right
    intro status hnow
    rw [hstatus] at hnow
    cases hnow
    exact hidle

theorem released_mutateTask {s : Project} {ref : TaskRef} {g : Task → Task}
    {task : Task} (hg : ∀ t, t.ref = ref → (g t).ref = ref)
    (htask : findTask s.backlog ref = some task)
    (h : (g task).status = task.status ∨ (g task).status.running = false) :
    ∀ entry, entry ∈ mutateTask s.backlog ref g → ∀ status,
      statusAt s.tasks entry.ref = some status →
        entry.status = status ∨ entry.status.running = false := by
  intro entry hentry status hstatus
  obtain ⟨t, ht, rfl⟩ := List.mem_map.mp hentry
  have hfind := findTask_of_mem (nodup_readProjectBacklog s.tasks) ht
  split at hstatus
  · rename_i href
    rw [if_pos href]
    rw [href] at hfind
    cases htask.symm.trans hfind
    rw [hg task href, statusAt_of_findTask htask] at hstatus
    cases hstatus
    exact h
  · rename_i hne
    rw [if_neg hne]
    rw [statusAt_of_findTask hfind] at hstatus
    cases hstatus
    exact .inl rfl

section Both

variable {s : Project} {p : Claim → Bool} {f : Claim → Claim}
  {events : List OrcEvent} {backlog : Backlog} {changes : TaskStatusChanges}
  {now : String}

theorem Recoverable.mutated {m t : Project} {u : Unit} (hs : Recoverable m)
    (hevents : m.events = s.events)
    (hid : ∀ c, (f c).runId = c.runId ∧ (f c).taskRef = c.taskRef ∧
      (f c).agentId = c.agentId)
    (hlive : ∀ c, (f c).active = true → (f c).state = c.state)
    (h : onEvents (commitClaims dates (mutateClaims s.claims p f) events) m =
      (.ok u, t)) : Recoverable t ∧ t.tasks = m.tasks := by
  have hclaims : s.claims = m.claims := by
    rw [Project.claims, Project.claims, hevents]
  rw [hclaims] at h
  rcases commitMutated_cases h fun c => (hid c).1 with ⟨⟨e, he⟩, -⟩ |
    ⟨-, hmut, htasks⟩
  · cases he
  · exact ⟨hs.later (hmut.ended hid hlive) (htasks ▸ .refl _), htasks⟩

theorem Recoverable.committed {m t : Project} {u : Unit} (hs : Recoverable m)
    (htasks : m.tasks = s.tasks)
    (hord : ∀ p ∈ changes, TaskStatusChange.Ordinary p.2)
    (hrefs : backlog.map Task.ref = s.backlog.map Task.ref)
    (hentry : ∀ entry, entry ∈ backlog → ∀ status,
      statusAt s.tasks entry.ref = some status →
        entry.status = status ∨ entry.status.running = false)
    (h : onTasks (commitBacklog backlog changes now) m = (.ok u, t)) :
    Recoverable t ∧ t.events = m.events := by
  rcases onTasks_cases h with ⟨e, he, -⟩ | ⟨⟨⟩, ts, hts, -, rfl⟩
  · cases he
  · rw [Project.backlog, ← htasks] at hrefs
    rw [← htasks] at hentry
    exact ⟨hs.later (.refl _) (commitBacklog_released hord hrefs hentry hts),
      rfl⟩

/-- Claims are ended first, then tasks are released. -/
theorem Recoverable.survives_both (hs : Recoverable s)
    (hid : ∀ c, (f c).runId = c.runId ∧ (f c).taskRef = c.taskRef ∧
      (f c).agentId = c.agentId)
    (hlive : ∀ c, (f c).active = true → (f c).state = c.state)
    (hord : ∀ p ∈ changes, TaskStatusChange.Ordinary p.2)
    (hrefs : backlog.map Task.ref = s.backlog.map Task.ref)
    (hentry : ∀ entry, entry ∈ backlog → ∀ status,
      statusAt s.tasks entry.ref = some status →
        entry.status = status ∨ entry.status.running = false) :
    Survives (bothCommits dates (mutateClaims s.claims p f) events backlog
      changes now) s := by
  refine survives_cons hs fun m hm => ?_
  obtain ⟨hrecoverable, htasks⟩ := hs.mutated rfl hid hlive hm
  refine survives_cons hrecoverable fun t ht => ?_
  exact survives_nil
    (hrecoverable.committed htasks hord hrefs hentry ht).1

end Both

/-! ## Each operation -/

theorem guard_some {p : Prop} [Decidable p] {u : Unit} :
    (guard p : Option Unit) = some u ↔ p := by
  unfold guard
  split <;> simp_all

theorem Recoverable.survives_checked {s : Project} {x : Option (List Commit)}
    (hs : Recoverable s) (h : ∀ commits, x = some commits → Survives commits s) :
    Survives (x.getD []) s := by
  cases x with
  | none => exact survives_nil hs
  | some commits => exact h commits rfl

theorem finishTask_idle (o : FinishOptions) (task : Task) :
    (finishTask dates o task).status = task.status ∨
      (finishTask dates o task).status.running = false := by
  cases hsuccess : o.success with
  | true =>
      left
      simp [finishTask, hsuccess]
  | false =>
      right
      rcases finishTask_status dates hsuccess task with h | h <;> rw [h] <;> rfl

theorem finishRun_survives {runId : RunId} {agentId : AgentId}
    {o : FinishOptions} {now : String} {s : Project} (hs : Recoverable s) :
    Survives (finishRun.commits dates runId agentId o now s) s := by
  have hended : ∀ c, (finishClaim o c).active = true →
      (finishClaim o c).state = c.state := by
    intro c ha
    rw [finishClaim_active] at ha
    cases ha
  refine hs.survives_checked fun commits h => ?_
  simp only [Option.bind_eq_bind, Option.bind_eq_some_iff, guard_some] at h
  obtain ⟨claim, -, -, -, h⟩ := h
  split at h
  · cases h
    unfold finishCommits
    cases htask : taskOfRun s claim with
    | none =>
        refine survives_cons hs fun t ht => survives_nil ?_
        exact (hs.mutated (f := finishClaim o) rfl (fun _ => ⟨rfl, rfl, rfl⟩)
          hended ht).1
    | some task =>
        obtain ⟨hfind, -⟩ := taskOfRun_eq_some htask
        have href : (finishTask dates o task).ref = claim.taskRef :=
          (finishTask_ref o task).trans (findTask_eq_some hfind).2
        exact hs.survives_both (f := finishClaim o)
          (fun _ => ⟨rfl, rfl, rfl⟩) hended
          (finishChanges_ordinary claim agentId o task _)
          (refs_mutateTask fun _ _ => href)
          (released_mutateTask (fun _ _ => href) hfind (finishTask_idle o task))
  · split at h
    · cases h
      refine survives_cons hs fun t ht => survives_nil ?_
      exact (hs.mutated (f := clearFinalization) rfl
        (fun _ => ⟨rfl, rfl, rfl⟩) (fun _ _ => rfl) ht).1
    · cases h

theorem expireRun_survives {runId : RunId} {actorId : AgentId} {now : String}
    {s : Project} (hs : Recoverable s) :
    Survives (expireRun.commits dates runId actorId now s) s := by
  refine hs.survives_checked fun commits h => ?_
  simp only [Option.bind_eq_bind, Option.bind_eq_some_iff, guard_some,
    Option.pure_def, Option.some.injEq] at h
  obtain ⟨-, -, claim, -, -, -, task, htask, -, -, rfl⟩ := h
  exact hs.survives_both (f := expireRunClaim now)
    (fun _ => ⟨rfl, rfl, rfl⟩) (fun _ ha => by cases ha)
    (by simp [TaskStatusChange.Ordinary]) (refs_mutateTask fun _ href => href)
    (released_mutateTask (fun _ href => href) htask (.inr rfl))

theorem resetTask_survives {ref : TaskRef} {actorId : AgentId} {now : String}
    {s : Project} (hs : Recoverable s) :
    Survives (resetTask.commits dates ref actorId now s) s := by
  refine hs.survives_checked fun commits h => ?_
  simp only [Option.bind_eq_bind, Option.bind_eq_some_iff, guard_some,
    Option.pure_def, Option.some.injEq] at h
  obtain ⟨-, -, -, -, task, htask, rfl⟩ := h
  have hord : ∀ p ∈ resetChanges ref actorId task,
      TaskStatusChange.Ordinary p.2 := by
    unfold resetChanges
    split <;> simp [TaskStatusChange.Ordinary]
  exact hs.survives_both (f := resetClaim now)
    (fun _ => ⟨rfl, rfl, rfl⟩) (fun _ ha => by cases ha) hord
    (refs_mutateTask fun _ href => href)
    (released_mutateTask (fun _ href => href) htask (.inr rfl))

theorem expireStaleLeases_survives {policy : String} {actorId : AgentId}
    {now : Int} {s : Project} (hs : Recoverable s) :
    Survives (expireStaleLeases.commits dates policy actorId now s) s := by
  have hacc : Expiry.Sound dates policy actorId now s.backlog ([] ++ s.claims)
      (s.claims.foldl (Expiry.visit dates policy actorId now)
        { backlog := s.backlog }) := Expiry.Sound.nil.walk
  unfold expireStaleLeases.commits
  rw [List.nil_append] at hacc
  generalize s.claims.foldl (Expiry.visit dates policy actorId now)
    { backlog := s.backlog } = acc at hacc ⊢
  dsimp only
  split
  · exact survives_nil hs
  rw [hacc.claims]
  refine hs.survives_both (f := expireClaim dates now)
    (fun _ => ⟨rfl, rfl, rfl⟩) (fun _ ha => by cases ha) hacc.ordinary
    hacc.refs fun entry hentry status hstatus => ?_
  have hnodup : (acc.backlog.map Task.ref).Nodup :=
    hacc.refs ▸ nodup_readProjectBacklog s.tasks
  have hfind := findTask_of_mem hnodup hentry
  obtain ⟨task, htask, hsame⟩ := findTask_of_statusAt hstatus
  rcases hacc.tasks entry.ref with ⟨hkept, -⟩ |
    ⟨task', c, -, -, -, -, -, hfailed, -⟩
  · rw [hfind, htask] at hkept
    cases hkept
    exact .inl hsame
  · rw [hfind] at hfailed
    cases hfailed
    right
    rcases expireTask_status dates policy now task' with h | h <;> rw [h] <;> rfl

theorem resetVolatileRuntimeStateForSession_survives {now : String}
    {s : Project} (hs : Recoverable s) :
    Survives (resetVolatileRuntimeStateForSession.commits dates now s) s := by
  have hentry : ∀ entry, entry ∈ s.backlog.map sessionResetTask → ∀ status,
      statusAt s.tasks entry.ref = some status →
        entry.status = status ∨ entry.status.running = false := by
    intro entry hentry status hstatus
    obtain ⟨task, htask, rfl⟩ := List.mem_map.mp hentry
    have hfind := findTask_of_mem (nodup_readProjectBacklog s.tasks) htask
    rw [sessionResetTask_ref, statusAt_of_findTask hfind] at hstatus
    cases hstatus
    unfold sessionResetTask
    split
    · exact .inr rfl
    · exact .inl rfl
  refine survives_cons hs fun m hm => ?_
  obtain ⟨hrecoverable, hevents⟩ := hs.committed rfl
    (sessionResetChanges_ordinary s.backlog) (sessionReset_refs s.backlog)
    hentry hm
  refine survives_cons hrecoverable fun t ht => survives_nil ?_
  exact (hrecoverable.mutated (f := sessionResetClaim now) hevents
    (fun _ => ⟨rfl, rfl, rfl⟩) (fun _ ha => by cases ha) ht).1

/-! ## Cancelling -/

theorem cancelTask_survives {ref : TaskRef} {reason : Option String}
    {actorId : AgentId} {now : String} {s : Project} (hs : Recoverable s) :
    Survives (cancelTask.commits dates registry ref reason actorId now s) s := by
  refine hs.survives_checked fun commits h => ?_
  simp only [Option.bind_eq_bind, Option.bind_eq_some_iff, guard_some,
    Option.pure_def, Option.some.injEq] at h
  obtain ⟨-, -, -, -, -, -, task, htask, -, -, rfl⟩ := h
  have hrest : ∀ m, Recoverable m → m.tasks = s.tasks → Survives
      [.tasks (commitBacklog (mutateTask s.backlog ref cancelEntry)
        [(ref, cancelChange reason actorId)] now),
      .events (appendSequencedEvent dates
        (cancelledEvent ref reason actorId now (activeClaimsFor s ref)))] m := by
    intro m hm htasks
    refine survives_cons hm fun n hn => ?_
    have hreleased := hm.committed htasks
      (by simp [TaskStatusChange.Ordinary, cancelChange])
      (refs_mutateTask (f := cancelEntry) fun _ href => href)
      (released_mutateTask (g := cancelEntry) (fun _ href => href) htask
        (.inr rfl)) hn
    refine survives_cons hreleased.1 fun t ht => survives_nil ?_
    obtain ⟨hruns, hsame, -⟩ := appendEvent_cases ht
    exact hreleased.1.later (hruns ▸ .refl _) (hsame ▸ .refl _)
  unfold cancelCommits
  split
  · exact hrest s hs rfl
  · rename_i hsome
    refine survives_cons hs fun m hm => ?_
    have hcancel : cancelClaims dates ref reason actorId now s s = (.ok (), m) := by
      unfold cancelClaims
      rw [if_neg hsome]
      exact hm
    rcases cancelClaims_cases hcancel with ⟨⟨e, he⟩, -⟩ | ⟨-, htasks, hremoved⟩
    · cases he
    · exact hrest m (hs.later hremoved.ended (htasks ▸ .refl _)) htasks

/-! ## Starting -/

theorem Recoverable.started {s t : Project} (hs : Recoverable s) {claim : Claim}
    {time : String} (hmut : Mutated (fun c => c.runId = claim.runId)
      (startClaim time) s.events.runs t.events.runs)
    (htasks : t.tasks = s.tasks) (hclaim : claim ∈ s.events.runs)
    (hstate : claim.state = .claimed) : Recoverable t := by
  have hactive : claim.active = true := by
    rw [Claim.active, hstate]
    rfl
  refine ⟨⟨fun c hc => ?_, htasks ▸ hs.rows.refs⟩, hmut.one hs.one,
    fun c hc ha status hstatus hrunning => ?_⟩
  · obtain ⟨c₀, hc₀, ⟨-, rfl⟩ | ⟨-, rfl⟩⟩ := hmut.source hc
    · obtain ⟨h1, h2, h3⟩ := hs.rows.named c₀ hc₀
      exact ⟨h1, h2, h3⟩
    · exact hs.rows.named c₀ hc₀
  · rw [htasks] at hstatus ⊢
    obtain ⟨c₀, hc₀, ⟨hp, rfl⟩ | ⟨-, rfl⟩⟩ := hmut.source hc
    · have hsame : c₀ = claim :=
        Table.eq_of_key hc₀ hclaim (of_decide_eq_true hp)
      subst hsame
      exact ⟨fun _ => rfl, (hs.backed c₀ hclaim hactive status hstatus hrunning).2⟩
    · exact hs.backed c₀ hc₀ ha status hstatus hrunning

theorem Recoverable.followed {m t : Project} (hm : Recoverable m)
    (claim : Claim) {task : Task} {runId : Option RunId}
    {actorId : Option AgentId} (hevents : t.events = m.events)
    (hdone : Committed [(claim.taskRef,
        { cause := .runStart, runId := runId, actorId := actorId })]
      claim.taskRef (fun task => { task with status := .inProgress })
      m.tasks t.tasks)
    (htask : findTask (readProjectBacklog m.tasks) claim.taskRef = some task)
    (hclaim : claim ∈ m.events.runs) (hstate : claim.state = .inProgress) :
    Recoverable t := by
  have hactive : claim.active = true := by
    rw [Claim.active, hstate]
    rfl
  obtain ⟨hstatus, hmove⟩ := hdone.here task htask
  have hbefore : statusAt m.tasks claim.taskRef = some task.status :=
    statusAt_of_findTask (s := m) htask
  have hkept : task.status.running = true ∧
      t.tasks.runsAt claim.taskRef = m.tasks.runsAt claim.taskRef := by
    rcases hmove with ⟨hsame, hruns⟩ | ⟨-, change, hchange, hallows, hruns⟩
    · exact ⟨by rw [← hsame]; rfl, hruns⟩
    · simp only [List.lookup_cons, beq_self_eq_true, Option.some.injEq] at hchange
      cases hchange
      refine ⟨?_, hruns⟩
      cases hst : task.status with
      | claimed | inProgress => rfl
      | todo | blocked | done | released | cancelled =>
          rw [hst] at hallows
          cases hallows
  refine ⟨⟨?_, fun ref status hst => ?_⟩, ?_,
    fun c hc ha status hst hrunning => ?_⟩
  · rw [hevents]
    exact hm.rows.named
  · by_cases href : ref = claim.taskRef
    · rw [href]
      exact hm.rows.refs _ _ hbefore
    · rw [(hdone.other ref href).1] at hst
      exact hm.rows.refs ref status hst
  · rw [hevents]
    exact hm.one
  · rw [hevents] at hc
    by_cases href : c.taskRef = claim.taskRef
    · have hsame : c = claim :=
        Table.eq_of_key hc hclaim (hm.one c hc claim hclaim ha hactive href)
      subst hsame
      refine ⟨fun _ => hstate, ?_⟩
      rw [hkept.2]
      exact (hm.backed c hc ha _ hbefore hkept.1).2
    · obtain ⟨hother, hruns⟩ := hdone.other c.taskRef href
      rw [hother] at hst
      rw [hruns]
      exact hm.backed c hc ha status hst hrunning

theorem startRun_survives {runId : RunId} {agentId : AgentId} {o : StartOptions}
    {now : String} {s : Project} (hs : Recoverable s) :
    Survives (startRun.commits dates runId agentId o now s) s := by
  refine hs.survives_checked fun commits h => ?_
  simp only [Option.bind_eq_bind, Option.bind_eq_some_iff, guard_some,
    Option.pure_def, Option.some.injEq] at h
  obtain ⟨claim, hown, -, hstate, -, -, rfl⟩ := h
  have hfind : s.findClaim runId = some claim := by
    cases hc : ownClaim s runId agentId with
    | error e =>
        rw [hc] at hown
        cases hown
    | ok c =>
        rw [hc] at hown
        cases hown
        exact (ownClaim_ok.mp hc).1
  obtain ⟨hclaim, -⟩ := Table.find?_eq_some.mp hfind
  have hactive : claim.active = true := by
    rw [Claim.active, hstate]
    rfl
  have hstarted : ∀ {events : List OrcEvent} {m : Project},
      onEvents (commitClaims dates
        (mutateClaim s.claims claim.runId (startClaim o.time)) events) s =
        (.ok (), m) →
      Mutated (fun c => c.runId = claim.runId) (startClaim o.time)
        s.events.runs m.events.runs ∧ m.tasks = s.tasks := by
    intro events m hm
    rcases commitMutated_cases hm fun _ => rfl with ⟨⟨e, he⟩, -⟩ | ⟨-, hmut⟩
    · cases he
    · exact hmut
  unfold startCommits
  cases htask : findTask s.backlog claim.taskRef with
  | none =>
      refine survives_cons hs fun m hm => survives_nil ?_
      obtain ⟨hmut, htasks⟩ := hstarted hm
      exact hs.started hmut htasks hclaim hstate
  | some task =>
      refine survives_cons hs fun m hm => ?_
      obtain ⟨hmut, htasks⟩ := hstarted hm
      have hrecoverable := hs.started hmut htasks hclaim hstate
      refine survives_cons hrecoverable fun t ht => survives_nil ?_
      have hbacklog : s.backlog = readProjectBacklog m.tasks := by
        rw [htasks]
        rfl
      rw [Commit.apply, hbacklog] at ht
      rcases commitEntry_cases ht (by simp [TaskStatusChange.Ordinary])
        (fun _ href => href) with ⟨⟨e, he⟩, -⟩ | ⟨-, hevents, hdone⟩
      · cases he
      have hmoved : startClaim o.time claim ∈ m.events.runs :=
        (hmut.mem _).mpr ⟨claim, hclaim, by simp⟩
      rw [hbacklog] at htask
      exact hrecoverable.followed (startClaim o.time claim) hevents hdone htask
        hmoved rfl

/-! ## Claiming -/

theorem runsAt_abandoned (ts : TaskStore) (runId : RunId) (now : String)
    (r : TaskRef) (h : runId ∉ ts.runsAt r) :
    TaskStore.runsAt { ts with
      taskRuns := ts.taskRuns.map (TaskRun.abandoned runId now)
        (abandoned_runId runId now) } r = ts.runsAt r := by
  ext id
  simp only [TaskStore.runsAt, Set.mem_ofPred_eq, Table.mem_map]
  constructor
  · rintro ⟨_, ⟨run, hrun, rfl⟩, ha, href, hid⟩
    unfold TaskRun.abandoned at ha href hid
    split at ha
    · cases ha
    · rename_i hnot
      rw [if_neg hnot] at href hid
      exact ⟨run, hrun, ha, href, hid⟩
  · rintro ⟨run, hrun, ha, href, hid⟩
    have hkept : TaskRun.abandoned runId now run = run := by
      refine if_neg ?_
      rintro ⟨hsame, -⟩
      exact h ⟨run, hrun, ha, href, hsame⟩
    exact ⟨run, ⟨run, hrun, hkept⟩, ha, href, hid⟩

theorem returnTask_released {ref : TaskRef} {runId : RunId} {agentId : AgentId}
    {now : String} {ts ts' : TaskStore} {u : Unit}
    (hfresh : ∀ r, r ≠ ref → runId ∉ ts.runsAt r)
    (h : returnTask ref runId agentId now ts = .ok (u, ts')) :
    Released ts ts' := by
  have hknown : (statusAt ts ref).isSome := by
    simp only [returnTask, Txn.bind_ok] at h
    obtain ⟨_, m, hmove, -⟩ := h
    obtain ⟨task, htask, -⟩ := applyTransition_ok rfl hmove
    rw [statusAt, htask]
    rfl
  refine ⟨fun r status hstatus => ?_, fun r => ?_⟩
  · by_cases hr : r = ref
    · rwa [hr]
    · rw [(returnTask_ok h).1 r hr] at hstatus
      rw [hstatus]
      rfl
  by_cases hr : r = ref
  · right
    subst hr
    simp only [returnTask, Txn.bind_ok, abandonRun, Txn.modify_ok] at h
    obtain ⟨_, m, hmove, rfl⟩ := h
    obtain ⟨task, htask, -, -, rfl⟩ := applyTransition_ok rfl hmove
    have href : task.ref = r := Table.key_of_find? htask
    subst href
    obtain ⟨row, hrow, -, hstatus, -⟩ := (Transitioned.of_transitioned htask
      { cause := .failureRequeue, toStatus := .todo, runId := some runId
        reason := some "claim_not_committed", actorId := some agentId } now).row
    intro status hst
    have hnow : statusAt (ts.transitioned task
        { cause := .failureRequeue, toStatus := .todo, runId := some runId
          reason := some "claim_not_committed", actorId := some agentId } now)
        task.ref = some .todo := by
      rw [statusAt, hrow, Option.map_some, hstatus]
    cases hnow.symm.trans hst
    rfl
  · left
    refine ⟨(returnTask_ok h).1 r hr, ?_⟩
    simp only [returnTask, Txn.bind_ok, abandonRun, Txn.modify_ok] at h
    obtain ⟨_, m, hmove, rfl⟩ := h
    obtain ⟨task, htask, -, -, rfl⟩ := applyTransition_ok rfl hmove
    have href : task.ref = ref := Table.key_of_find? htask
    have hruns : (ts.transitioned task
        { cause := .failureRequeue, toStatus := .todo, runId := some runId
          reason := some "claim_not_committed", actorId := some agentId }
        now).runsAt r = ts.runsAt r := by
      rw [runsAt_transitioned, if_neg (by simp [href, hr])]
    rw [runsAt_abandoned _ _ _ _ (hruns ▸ hfresh r hr), hruns]

theorem Recoverable.taskHeld {s : Project} (hs : Recoverable s) {ref : TaskRef}
    {runId : RunId} {agentId : AgentId} {now : String} {pinned : ProjectTask}
    {ts : TaskStore} (hfree : Unclaimed s.events.runs ref)
    (h : TaskStore.claimTask ref runId agentId now s.tasks =
      .ok (pinned, ts)) : Recoverable (s.setTasks ts) := by
  obtain ⟨task, htask, -, htasks, -, hruns, -⟩ := claimTask_ok h
  have hother : ∀ r, r ≠ ref → statusAt ts r = statusAt s.tasks r := by
    intro r hne
    unfold statusAt TaskStore.getTask
    rw [htasks, Table.find?_update, if_neg hne]
  refine ⟨⟨hs.rows.named, fun r status hstatus => ?_⟩, hs.one,
    fun c hc ha status hstatus hrunning => ?_⟩
  · by_cases hr : r = ref
    · refine hs.rows.refs r task.status ?_
      rw [hr, statusAt, htask]
      rfl
    · exact hs.rows.refs r status (hother r hr ▸ hstatus)
  · have hne : c.taskRef ≠ ref := hfree c hc ha
    rw [setTasks_tasks] at hstatus ⊢
    rw [hruns, if_neg hne]
    exact hs.backed c hc ha status (hother _ hne ▸ hstatus) hrunning

theorem Recoverable.claimed {s : Project} (hs : Recoverable s) {claim : Claim}
    {events : List OrcEvent} {t : Project}
    (hnamed : WellNamed claim) (hstate : claim.state = .claimed)
    (hstatus : statusAt s.tasks claim.taskRef = some .claimed)
    (hbinding : claim.runId ∈ s.tasks.runsAt claim.taskRef)
    (h : onEvents (commitClaims dates (s.claims ++ [claim]) events) s =
      (.ok (), t)) : Recoverable t := by
  rcases onEvents_cases h with ⟨e, he, -⟩ | ⟨⟨⟩, db, hdb, -, rfl⟩
  · cases he
  obtain ⟨hsub, -, hone⟩ := commitClaims_sub hdb
  refine ⟨⟨fun c hc => ?_, hs.rows.refs⟩, hone hs.one,
    fun c hc ha status hst hrunning => ?_⟩
  · rcases List.mem_append.mp (hsub c hc) with hold | hnew
    · exact hs.rows.named c hold
    · rw [List.mem_singleton.mp hnew]
      exact hnamed
  · rcases List.mem_append.mp (hsub c hc) with hold | hnew
    · exact hs.backed c hold ha status hst hrunning
    · obtain rfl := List.mem_singleton.mp hnew
      refine ⟨fun hstarted => ?_, hbinding⟩
      rw [setEvents_tasks, hstatus, hstarted] at hst
      cases hst

theorem claimCommits_survives {claim : Claim} {snapshot : Except DomainError Unit}
    {s : Project} (hs : Recoverable s)
    (hfree : Unclaimed s.events.runs claim.taskRef)
    (hstate : claim.state = .claimed) :
    Survives (claimCommits dates claim snapshot s) s := by
  refine survives_cons hs fun m hm => ?_
  rcases onTasks_cases hm with ⟨e, he, -⟩ | ⟨⟨⟩, ts, hts, -, rfl⟩
  · cases he
  simp only [Txn.bind_ok, Txn.pure_ok] at hts
  obtain ⟨pinned, ts, hheld, -, rfl⟩ := hts
  have hrecoverable := hs.taskHeld hfree hheld
  obtain ⟨current, hcurrent, -, htasks, hnew, hruns, -⟩ := claimTask_ok hheld
  refine survives_cons hrecoverable fun t ht => survives_nil ?_
  unfold settleClaim at ht
  split at ht
  · have hstatus : statusAt ts claim.taskRef = some .claimed := by
      unfold statusAt TaskStore.getTask
      rw [htasks, Table.find?_update, if_pos rfl,
        show s.tasks.tasks.find? claim.taskRef = some current from hcurrent]
      rfl
    refine hrecoverable.claimed ?_ hstate hstatus ?_ ht
    · rcases onEvents_cases ht with ⟨e, he, -⟩ | ⟨⟨⟩, db, hdb, -, -⟩
      · cases he
      · exact ((validEvent_runEvent (by decide)).mp
          ((commitClaims_sub hdb).2.1 _ (List.mem_singleton.mpr rfl))).2.1
    · rw [setTasks_tasks, hruns, if_pos rfl]
      rfl
  · rcases onTasks_cases ht with ⟨e, he, -⟩ | ⟨⟨⟩, ts', hts', -, rfl⟩
    · cases he
    · refine hrecoverable.later (.refl _) (returnTask_released ?_ hts')
      intro r hr hmem
      rw [setTasks_tasks, hruns, if_neg hr] at hmem
      obtain ⟨run, hrun, -, -, hid⟩ := hmem
      exact hnew ⟨run, hrun, hid⟩

theorem claimTask_survives {ref : TaskRef} {agentId : AgentId} {lease : Int}
    {runId : RunId} {snapshot : Except DomainError Unit} {now : Int}
    {s : Project} (hs : Recoverable s) :
    Survives (claimTask.commits dates ref agentId lease runId snapshot now s)
      s := by
  refine hs.survives_checked fun commits h => ?_
  simp only [Option.bind_eq_bind, Option.bind_eq_some_iff, guard_some,
    Option.pure_def, Option.some.injEq] at h
  obtain ⟨task, -, -, -, -, -, u, hunclaimed, rfl⟩ := h
  refine claimCommits_survives hs ?_ rfl
  cases hok : unclaimed s ref with
  | error e =>
      rw [hok] at hunclaimed
      cases hunclaimed
  | ok u => exact unclaimed_ok hok

/-! ## Recovery -/

theorem Operation.survives (op : Operation) {s : Project} (hs : Recoverable s) :
    Survives (op.commits dates registry s) s := by
  cases op with
  | claimTask => exact claimTask_survives hs
  | startRun => exact startRun_survives hs
  | finishRun => exact finishRun_survives hs
  | expireStaleLeases => exact expireStaleLeases_survives hs
  | expireRun => exact expireRun_survives hs
  | cancelTask => exact cancelTask_survives hs
  | resetTask => exact resetTask_survives hs
  | resetVolatileRuntimeStateForSession =>
      exact resetVolatileRuntimeStateForSession_survives hs

/--
Wherever an operation on a paired state dies, the next reconciliation completes
and pairs the stores again: no task runs without its claim, and every live claim
is of a task that runs or was merged.
-/
theorem crash_recovered {s : Project} (hrows : ValidRows s) (hs : Paired s)
    (op : Operation) (n : Nat) (now : Int) :
    ∃ t, reconcileState dates (dates.toISOString now)
        (crashState (op.commits dates registry s) n s) = (.ok (), t) ∧
      Paired t ∧ ∀ c, c ∈ t.events.runs → c.active = true →
        Held t.tasks c.taskRef :=
  (op.survives (hs.recoverable hrows) n).reconciled now

/-- A process that dies between the two commits of a failing run. -/
theorem crash_recovered_finish :
    ∃ s t, (lifecycleSystem .epoch soloRegistry).run oneTask claimAndStart =
        some s ∧
      reconcileState .epoch (DateApi.epoch.toISOString 5)
        (crashState (Operation.commits .epoch soloRegistry s
          (.finishRun "run-1" "worker"
            { success := false, time := DateApi.epoch.toISOString 4 }
            (DateApi.epoch.toISOString 4))) 1 s) = (.ok (), t) ∧
      Paired t ∧ ∀ c, c ∈ t.events.runs → c.active = true →
        Held t.tasks c.taskRef := by
  obtain ⟨s, hrun, -⟩ :=
    (lifecycleSystem .epoch soloRegistry).exists_run_of_map
      (f := fun t => statusAt t.tasks "docs/intro")
      (by decide : ((lifecycleSystem .epoch soloRegistry).run oneTask
        claimAndStart).map (fun t => statusAt t.tasks "docs/intro") =
          some (some .inProgress))
  have hreach : (lifecycleSystem .epoch soloRegistry).ReachableUnder
      (Undisturbed .epoch soloRegistry) s :=
    (System.ReachableUnder.initial fresh_oneTask).run (by decide) hrun
  obtain ⟨t, ht⟩ := crash_recovered (Sound.reachable hreach).validRows
    ((Coherent.reachable hreach).paired (Sound.reachable hreach))
    (.finishRun "run-1" "worker"
      { success := false, time := DateApi.epoch.toISOString 4 }
      (DateApi.epoch.toISOString 4)) 1 5
  exact ⟨s, t, hrun, ht⟩

end OrcState.Lifecycle
