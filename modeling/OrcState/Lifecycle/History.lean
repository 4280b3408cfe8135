import OrcState.Lifecycle.Atomicity
import OrcState.Lifecycle.Session

/-!
# The history of runs

Messages and input requests are kept beside the commands of a run, and the
foreign keys delete all three with it.  Every call but one writes back each
claim it read, so it can lose no history; the cancellation of a task writes
back the claims without the task's active ones.
-/

namespace OrcState.Lifecycle

open OrcState.Contract OrcState.Foundation OrcState.Store
open OrcState.Foundation.Effect

variable {dates : DateApi} {registry : Registry}

/-! ## The tables -/

structure Message where
  messageId : String
  runId : RunId
  commandId : Option String
  kind : String
  payload : String
  deriving DecidableEq, Repr

structure InputRequest where
  requestId : String
  runId : RunId
  messageId : Option String
  question : String
  response : Option String
  deriving DecidableEq, Repr

structure Archive where
  project : Project := {}
  messages : Table String Message Message.messageId := Table.empty
  inputRequests : Table String InputRequest InputRequest.requestId := Table.empty

def Project.hasRun (s : Project) (runId : RunId) : Bool :=
  (s.findClaim runId).isSome

def Project.hasCommand (s : Project) (id : String) : Bool :=
  (s.events.commands.find? id).isSome

def Archive.hasMessage (h : Archive) (id : String) : Bool :=
  (h.messages.find? id).isSome

/--
The foreign keys of messages and input requests: `ON DELETE CASCADE` by run,
`ON DELETE SET NULL` by command and by message.  No call stores a run that it
deleted, so they act on the end of a call as on each of its commits.
-/
def Archive.cascade (h : Archive) (t : Project) : Archive :=
  let messages := (h.messages.filter fun m => t.hasRun m.runId).map
    (fun m => { m with commandId := m.commandId.filter t.hasCommand })
    fun _ => rfl
  { project := t
    messages := messages
    inputRequests :=
      (h.inputRequests.filter fun q => t.hasRun q.runId).map
        (fun q =>
          { q with messageId :=
              q.messageId.filter fun id => (messages.find? id).isSome })
        fun _ => rfl }

/-! ## The system -/

inductive ArchiveLabel where
  | call (action : Action)
  | saveCommand (command : DurableCommand)
  | saveMessage (message : Message)
  | saveInputRequest (request : InputRequest)

def Archive.call (dates : DateApi) (registry : Registry) (h : Archive)
    (a : Action) : Archive :=
  h.cascade (perform dates registry a h.project).2

def Archive.setCommands (h : Archive) (commands : Commands) : Archive :=
  { h with
    project := h.project.setEvents
      { h.project.events with commands := commands } }

/-- Rows that name a stored run, and a stored row where they name one. -/
def archiveStep (dates : DateApi) (registry : Registry) (h : Archive) :
    ArchiveLabel → Option Archive
  | .call a => some (h.call dates registry a)
  | .saveCommand x =>
      if h.project.hasRun x.runId then
        some (h.setCommands (h.project.events.commands.upsert x))
      else none
  | .saveMessage m =>
      if h.project.hasRun m.runId && m.commandId.all h.project.hasCommand then
        some { h with messages := h.messages.upsert m }
      else none
  | .saveInputRequest q =>
      if h.project.hasRun q.runId && q.messageId.all h.hasMessage then
        some { h with inputRequests := h.inputRequests.upsert q }
      else none

structure FreshArchive (h : Archive) : Prop where
  fresh : Fresh h.project
  commands : h.project.events.commands.rows = []
  messages : h.messages.rows = []
  inputRequests : h.inputRequests.rows = []

def archiveSystem (dates : DateApi) (registry : Registry) :
    System Archive ArchiveLabel where
  initial := FreshArchive
  step := archiveStep dates registry

/-! ## What a call keeps -/

def SameRun (c c' : Claim) : Prop :=
  c'.runId = c.runId ∧ c'.taskRef = c.taskRef ∧ c'.agentId = c.agentId

structure Kept (s t : Project) : Prop where
  runs : ∀ c, c ∈ s.events.runs → ∃ c', c' ∈ t.events.runs ∧ SameRun c c'
  commands : ∀ x, x ∈ s.events.commands → s.hasRun x.runId = true →
    x ∈ t.events.commands
  old : ∀ x, x ∈ t.events.commands → x ∈ s.events.commands

theorem hasRun_iff {s : Project} {runId : RunId} :
    s.hasRun runId = true ↔ ∃ c, c ∈ s.events.runs ∧ c.runId = runId := by
  unfold Project.hasRun Project.findClaim
  rw [Option.isSome_iff_exists]
  exact exists_congr fun c => Table.find?_eq_some

theorem Kept.hasRun {s t : Project} (h : Kept s t) {runId : RunId}
    (hrun : s.hasRun runId = true) : t.hasRun runId = true := by
  obtain ⟨c, hc, rfl⟩ := hasRun_iff.mp hrun
  obtain ⟨c', hc', hid, -⟩ := h.runs c hc
  exact hasRun_iff.mpr ⟨c', hc', hid⟩

theorem Kept.of_events {s t : Project} (hruns : t.events.runs = s.events.runs)
    (hcommands : t.events.commands = s.events.commands) : Kept s t where
  runs c hc := ⟨c, by rwa [hruns], rfl, rfl, rfl⟩
  commands x hx _ := by rwa [hcommands]
  old x hx := by rwa [← hcommands]

theorem Kept.refl (s : Project) : Kept s s := .of_events rfl rfl

theorem Kept.trans (s m t : Project) (h : Kept s m) (h' : Kept m t) :
    Kept s t := by
  refine ⟨fun c hc => ?_, fun x hx hrun =>
    h'.commands x (h.commands x hx hrun) (h.hasRun hrun),
    fun x hx => h.old x (h'.old x hx)⟩
  obtain ⟨c', hc', hid, href, hagent⟩ := h.runs c hc
  obtain ⟨c'', hc'', hid', href', hagent'⟩ := h'.runs c' hc'
  exact ⟨c'', hc'', hid'.trans hid, href'.trans href, hagent'.trans hagent⟩

theorem kept_onTasks {α : Type} (x : Tasks α) (s : Project) :
    Ensures Kept (onTasks x) s :=
  ensures_atomically (.refl s) fun _ _ _ => .of_events rfl rfl

theorem kept_append (event : OrcEvent) (s : Project) :
    Ensures Kept (onEvents (appendSequencedEvent dates event)) s := by
  refine ensures_atomically (.refl s) fun u db hdb => ?_
  obtain ⟨-, rfl⟩ := appendSequencedEvent_ok.mp hdb
  exact .of_events rfl rfl

theorem kept_commit {claims : List Claim} {events : List OrcEvent}
    {s : Project} (hnodup : (claims.map Claim.runId).Nodup)
    (hall : ∀ c, c ∈ s.events.runs → ∃ c', c' ∈ claims ∧ SameRun c c') :
    Ensures Kept (onEvents (commitClaims dates claims events)) s := by
  refine ensures_atomically (.refl s) fun u db hdb => ⟨fun c hc => ?_,
    fun x hx hrun => ?_, fun x hx => ((commitClaims_commands hdb).mp hx).1⟩
  · obtain ⟨c', hc', hsame⟩ := hall c hc
    exact ⟨c', ((commitClaims_ok hnodup hdb).1 c').mpr hc', hsame⟩
  · obtain ⟨c, hc, hid⟩ := hasRun_iff.mp hrun
    obtain ⟨c', hc', hid', -⟩ := hall c hc
    exact (commitClaims_commands hdb).mpr ⟨hx, c, hc, hid,
      List.mem_map.mpr ⟨c', hc', hid'.trans hid⟩⟩

def KeepsRun (f : Claim → Claim) : Prop := ∀ c, SameRun c (f c)

theorem kept_mutated {p : Claim → Bool} {f : Claim → Claim}
    {events : List OrcEvent} {s m : Project} (hf : KeepsRun f)
    (hevents : m.events = s.events) :
    Ensures Kept (onEvents (commitClaims dates (mutateClaims s.claims p f)
      events)) m := by
  refine kept_commit ?_ fun c hc => ?_
  · rw [map_runId_mutateClaims fun c => (hf c).1]
    exact s.events.runs.nodup
  · rw [hevents] at hc
    refine ⟨_, List.mem_map.mpr ⟨c, hc, rfl⟩, ?_⟩
    split
    · exact hf c
    · exact ⟨rfl, rfl, rfl⟩

theorem kept_commitBoth {p : Claim → Bool} {f : Claim → Claim}
    {events : List OrcEvent} {backlog : Backlog} {changes : TaskStatusChanges}
    {now : String} {s : Project} (hf : KeepsRun f) :
    Ensures Kept (commitBoth dates (mutateClaims s.claims p f) events backlog
      changes now) s :=
  (kept_mutated hf rfl).bind Kept.trans fun _ t _ => kept_onTasks _ t

theorem kept_logged {x : Tasks Unit} {event : OrcEvent} {s : Project} :
    Ensures Kept (do
      onTasks x
      onEvents (appendSequencedEvent dates event)) s :=
  (kept_onTasks _ s).bind Kept.trans fun _ t _ => kept_append _ t

/-! ## Every call but the cancellation -/

theorem kept_updateClaim {runId : RunId}
    {check : Claim → Except DomainError Unit} {f : Claim → Claim}
    {events : Claim → List OrcEvent} (hf : KeepsRun f) (s : Project) :
    Ensures Kept (updateClaim dates runId check f events) s :=
  ensures_read (ensures_orThrow (.refl s) fun _ _ =>
    ensures_check (.refl s) fun _ _ => (kept_mutated hf rfl).result)

theorem kept_heartbeat {runId : RunId} {agentId : AgentId}
    {o : HeartbeatOptions} (s : Project) :
    Ensures Kept (heartbeat dates runId agentId o) s := by
  unfold heartbeat assertValidTimestamp
  refine ensures_read (ensures_check (.refl s) fun _ _ =>
    ensures_throwIf (.refl s) fun _ => ensures_throwIf (.refl s) fun _ =>
    ensures_throwIf (.refl s) fun _ => (kept_mutated ?_ rfl).result)
  exact fun _ => ⟨rfl, rfl, rfl⟩

theorem kept_renewLeaseOnly {runId : RunId} {lease now : Int} (s : Project) :
    Ensures Kept (renewLeaseOnly dates runId lease now) s := by
  unfold renewLeaseOnly
  refine ensures_read ?_
  split
  · exact ensures_pure (.refl s) ()
  · split
    · exact ensures_pure (.refl s) ()
    · refine kept_mutated ?_ rfl
      exact fun _ => ⟨rfl, rfl, rfl⟩

theorem kept_startRun {runId : RunId} {agentId : AgentId} {o : StartOptions}
    {now : String} (s : Project) :
    Ensures Kept (startRun dates runId agentId o now) s := by
  unfold startRun assertValidTimestamp
  refine ensures_read (ensures_check (.refl s) fun claim _ => ?_)
  split
  · exact ensures_pure (.refl s) ()
  refine ensures_throwIf (.refl s) fun _ => ensures_throwIf (.refl s) fun _ => ?_
  have hf : KeepsRun (startClaim o.time) := fun _ => ⟨rfl, rfl, rfl⟩
  unfold commitStart
  cases findTask s.backlog claim.taskRef with
  | none => exact kept_mutated hf rfl
  | some task => exact kept_commitBoth hf

theorem kept_finishRun {runId : RunId} {agentId : AgentId} {o : FinishOptions}
    {now : String} (s : Project) :
    Ensures Kept (finishRun dates runId agentId o now) s := by
  unfold finishRun assertValidTimestamp
  refine ensures_read (ensures_check (.refl s) fun claim _ =>
    ensures_throwIf (.refl s) fun _ => ?_)
  have hf : KeepsRun (finishClaim o) := fun _ => ⟨rfl, rfl, rfl⟩
  split
  · unfold commitFinish
    cases taskOfRun s claim with
    | none => exact kept_mutated hf rfl
    | some task => exact kept_commitBoth hf
  · split
    · exact kept_mutated (f := clearFinalization) (fun _ => ⟨rfl, rfl, rfl⟩) rfl
    · exact ensures_pure (.refl s) ()

theorem kept_expireStaleLeases {policy : String} {actorId : AgentId}
    {now : Int} (s : Project) :
    Ensures Kept (expireStaleLeases dates policy actorId now) s := by
  refine ensures_of fun r t h => ?_
  rcases expireStaleLeases_commit h with rfl | ⟨acc, r', -, hx, -⟩
  · exact .refl _
  · have hf : KeepsRun (expireClaim dates now) := fun _ => ⟨rfl, rfl, rfl⟩
    exact (kept_commitBoth hf).snd hx

theorem kept_expireRun {runId : RunId} {actorId : AgentId} {now : String}
    (s : Project) : Ensures Kept (expireRun dates runId actorId now) s := by
  unfold expireRun
  have hf : KeepsRun (expireRunClaim now) := fun _ => ⟨rfl, rfl, rfl⟩
  exact ensures_throwIf (.refl s) fun _ => ensures_read
    (ensures_orThrow (.refl s) fun _ _ => ensures_throwIf (.refl s) fun _ =>
    ensures_orThrow (.refl s) fun _ _ => ensures_throwIf (.refl s) fun _ =>
    kept_commitBoth hf)

theorem kept_resetTask {ref : TaskRef} {actorId : AgentId} {now : String}
    (s : Project) : Ensures Kept (resetTask dates ref actorId now) s := by
  unfold resetTask requireActor requireTask
  have hf : KeepsRun (resetClaim now) := fun _ => ⟨rfl, rfl, rfl⟩
  exact ensures_throwIf (.refl s) fun _ => ensures_throwIf (.refl s) fun _ =>
    ensures_read (ensures_orThrow (.refl s) fun _ _ =>
    (kept_commitBoth hf).result)

theorem kept_unblockTask {ref : TaskRef} {reason : Option String}
    {actorId : AgentId} {now : String} (s : Project) :
    Ensures Kept (unblockTask dates ref reason actorId now) s := by
  unfold unblockTask requireActor requireTask
  exact ensures_throwIf (.refl s) fun _ => ensures_throwIf (.refl s) fun _ =>
    ensures_read (ensures_orThrow (.refl s) fun _ _ =>
    ensures_throwIf (.refl s) fun _ => kept_logged)

theorem kept_delegateTask {args : DelegateArgs} {now : String} (s : Project) :
    Ensures Kept (delegateTask dates registry args now) s := by
  unfold delegateTask requireActor requireRegistered requireTask
  exact ensures_throwIf (.refl s) fun _ => ensures_throwIf (.refl s) fun _ =>
    ensures_throwIf (.refl s) fun _ => ensures_read
    (ensures_orThrow (.refl s) fun _ _ => ensures_check (.refl s) fun _ _ =>
    (kept_logged).result)

theorem kept_markTaskDoneRuntimeOnly {ref : TaskRef} {actorId : AgentId}
    {now : String} (s : Project) :
    Ensures Kept (markTaskDoneRuntimeOnly dates ref actorId now) s := by
  unfold markTaskDoneRuntimeOnly requireTask
  refine ensures_read (ensures_orThrow (.refl s) fun task _ =>
    ensures_throwIf (.refl s) fun _ => Ensures.bind Kept.trans ?_ fun _ t _ =>
    (kept_append _ t).result)
  unfold completeTask
  split
  · exact ensures_pure (.refl s) ()
  · exact kept_onTasks _ s

theorem kept_reconcileState {now : String} (s : Project) :
    Ensures Kept (reconcileState dates now) s := by
  refine ensures_of fun r t h => ?_
  obtain ⟨m, hevents, -, rfl | h⟩ := reconcileState_commit h
  · exact .of_events (by rw [hevents]) (by rw [hevents])
  · refine Kept.trans s m t (.of_events (by rw [hevents]) (by rw [hevents])) ?_
    have hf : KeepsRun failClaim := fun _ => ⟨rfl, rfl, rfl⟩
    exact (kept_mutated hf rfl).snd h

theorem kept_commitNewClaim {claim : Claim} {snapshot : Except DomainError Unit}
    {s : Project} (hfresh : ∀ c, c ∈ s.events.runs → c.runId ≠ claim.runId) :
    Ensures Kept (commitNewClaim dates claim snapshot) s := by
  unfold commitNewClaim
  refine ensures_check (.refl s) fun _ _ => ensures_read (kept_commit ?_ ?_)
  · rw [List.map_append, List.nodup_append]
    refine ⟨s.events.runs.nodup, by simp, fun id hid id' hid' => ?_⟩
    obtain ⟨c, hc, rfl⟩ := List.mem_map.mp hid
    rw [List.map_singleton, List.mem_singleton] at hid'
    exact hid' ▸ hfresh c hc
  · exact fun c hc => ⟨c, List.mem_append_left _ hc, rfl, rfl, rfl⟩

theorem kept_claimTask {ref : TaskRef} {agentId : AgentId} {lease : Int}
    {runId : RunId} {snapshot : Except DomainError Unit} {now : Int}
    {s : Project} (hbound : ∀ c, c ∈ s.events.runs → s.tasks.Bound c.runId) :
    Ensures Kept (claimTask dates ref agentId lease runId snapshot now) s := by
  unfold claimTask
  refine ensures_read (ensures_orThrow (.refl s) fun _ _ =>
    ensures_throwIf (.refl s) fun _ => ensures_throwIf (.refl s) fun _ =>
    ensures_check (.refl s) fun _ _ =>
    (kept_onTasks _ s).bind Kept.trans fun pinned m hx => Ensures.result ?_)
  rcases onTasks_cases hx with ⟨e, he, -⟩ | ⟨pinned', ts, hclaim, -, rfl⟩
  · cases he
  obtain ⟨-, -, -, -, hnew, -⟩ := claimTask_ok hclaim
  refine (kept_commitNewClaim fun c hc hid => ?_).catching Kept.trans
    fun _ t _ => (kept_onTasks _ t).bind Kept.trans fun _ t _ =>
    ensures_ofExcept (.refl t) _
  have hb := hbound c hc
  rw [hid] at hb
  exact hnew hb

theorem kept_applyLifecycle {request : LifecycleRequest} {time : String}
    (s : Project) : Ensures Kept (applyLifecycle dates request time) s := by
  refine ensures_of fun r t h => ?_
  cases applyLifecycle_served h with
  | refused h =>
      rw [h]
      exact .refl s
  | report event _ h => exact (kept_append event s).snd h
  | heartbeat runId agentId o r' h => exact (kept_heartbeat s).snd h
  | start runId agentId o h => exact (kept_startRun s).snd h
  | finish runId agentId o _ _ h => exact (kept_finishRun s).snd h

/-! ## The cancellation -/

/-- A cancellation that passes its checks while the task has active runs. -/
def dropsRuns (dates : DateApi) (registry : Registry) (s : Project) :
    Action → Bool
  | .cancelTask ref _ actorId now =>
      ref ≠ "" && agentIdRe actorId &&
        (actorId = "human" || registry.agents.contains actorId) &&
        ((findTask s.backlog ref).any fun task => !task.status.terminal) &&
        activeClaimsFor s ref ≠ [] && dates.isDateTime now
  | _ => false

structure Dropped (ref : TaskRef) (s t : Project) : Prop where
  runs : ∀ c, c ∈ t.events.runs ↔
    c ∈ s.events.runs ∧ (c.taskRef = ref && c.active) = false
  commands : ∀ x, x ∈ t.events.commands ↔ x ∈ s.events.commands ∧
    ∃ c, c ∈ t.events.runs ∧ c.runId = x.runId

theorem cancelClaims_dropped {ref : TaskRef} {reason : Option String}
    {actorId : AgentId} {now : String} {s t : Project}
    {r : Except DomainError Unit} (hactive : activeClaimsFor s ref ≠ [])
    (h : cancelClaims dates ref reason actorId now s s = (r, t)) :
    ((∃ e, r = .error e) ∧ t = s) ∨
      r = .ok () ∧ dates.isDateTime now = true ∧ Dropped ref s t := by
  unfold cancelClaims at h
  rw [if_neg hactive] at h
  rcases onEvents_cases h with ⟨e, rfl, rfl⟩ | ⟨⟨⟩, db, hdb, rfl, rfl⟩
  · exact .inl ⟨⟨e, rfl⟩, rfl⟩
  have hnodup : ((s.claims.filter fun c =>
      !(c.taskRef = ref && c.active)).map Claim.runId).Nodup :=
    s.events.runs.nodup.sublist (List.filter_sublist.map Claim.runId)
  obtain ⟨hmem, hvalid, -⟩ := commitClaims_ok hnodup hdb
  have hruns : ∀ c, c ∈ db.runs ↔
      c ∈ s.events.runs ∧ (c.taskRef = ref && c.active) = false := by
    intro c
    rw [hmem c, List.mem_filter, Bool.not_eq_true']
    exact Iff.rfl
  refine .inr ⟨rfl, ?_, hruns, fun x => ⟨fun hx => ?_, fun hx => ?_⟩⟩
  · obtain ⟨removed, hremoved⟩ := List.exists_mem_of_ne_nil _ hactive
    exact ((validEvent_runEvent (by decide)).mp
      (hvalid _ (List.mem_map.mpr ⟨removed, hremoved, rfl⟩))).1
  · obtain ⟨hold, c, hc, hid, hkept⟩ := (commitClaims_commands hdb).mp hx
    obtain ⟨c', hc', hid'⟩ := List.mem_map.mp hkept
    exact ⟨hold, c', (hmem c').mpr hc', hid'⟩
  · obtain ⟨hold, c, hc, hid⟩ := hx
    exact (commitClaims_commands hdb).mpr ⟨hold, c, ((hruns c).mp hc).1, hid,
      List.mem_map.mpr ⟨c, (hmem c).mp hc, hid⟩⟩

theorem commitCancel_kept {ref : TaskRef} {reason : Option String}
    {actorId : AgentId} {now : String} {s t : Project}
    {r : Except DomainError Unit}
    (h : commitCancel dates ref reason actorId now s s = (r, t)) :
    ∃ m r', cancelClaims dates ref reason actorId now s s = (r', m) ∧
      t.events.runs = m.events.runs ∧
      t.events.commands = m.events.commands := by
  rcases bind_cases h with ⟨e, hx, -⟩ | ⟨⟨⟩, m, hx, h⟩
  · exact ⟨t, _, hx, rfl, rfl⟩
  refine ⟨m, _, hx, ?_⟩
  rcases bind_cases h with ⟨e, hy, -⟩ | ⟨⟨⟩, n, hy, h⟩
  · rcases onTasks_cases hy with ⟨e', -, rfl⟩ | ⟨⟨⟩, ts, -, -, rfl⟩ <;>
      exact ⟨rfl, rfl⟩
  have hrows : t.events.runs = n.events.runs ∧
      t.events.commands = n.events.commands := by
    rcases onEvents_cases h with ⟨e, -, rfl⟩ | ⟨⟨⟩, db, hdb, -, rfl⟩
    · exact ⟨rfl, rfl⟩
    · obtain ⟨-, rfl⟩ := appendSequencedEvent_ok.mp hdb
      exact ⟨rfl, rfl⟩
  rcases onTasks_cases hy with ⟨e', he, -⟩ | ⟨⟨⟩, ts, -, -, rfl⟩
  · cases he
  · exact hrows

theorem Dropped.of_eq {ref : TaskRef} {s m t : Project} (h : Dropped ref s m)
    (hruns : t.events.runs = m.events.runs)
    (hcommands : t.events.commands = m.events.commands) : Dropped ref s t := by
  refine ⟨fun c => ?_, fun x => ?_⟩
  · rw [hruns]
    exact h.runs c
  · rw [hcommands, hruns]
    exact h.commands x

theorem cancelTask_kept {ref : TaskRef} {reason : Option String}
    {actorId : AgentId} {now : String} {s t : Project}
    {r : Except DomainError CancelResult}
    (h : cancelTask dates registry ref reason actorId now s = (r, t)) :
    Kept s t ∨ dropsRuns dates registry s
        (.cancelTask ref reason actorId now) = true ∧ Dropped ref s t := by
  simp only [cancelTask] at h
  rcases throwIf_cases h with ⟨-, rfl⟩ | ⟨href, h⟩
  · exact .inl (.refl _)
  rcases throwIf_cases h with ⟨-, rfl⟩ | ⟨hactor, h⟩
  · exact .inl (.refl _)
  rcases throwIf_cases h with ⟨-, rfl⟩ | ⟨hregistered, h⟩
  · exact .inl (.refl _)
  rw [read_bind] at h
  rcases orThrow_cases h with ⟨-, rfl⟩ | ⟨task, htask, h⟩
  · exact .inl (.refl _)
  split at h
  · cases h
    exact .inl (.refl _)
  rename_i hopen
  obtain ⟨r', hx, -⟩ := result_cases h
  by_cases hnone : activeClaimsFor s ref = []
  · unfold commitCancel cancelClaims at hx
    rw [if_pos hnone] at hx
    exact .inl (kept_logged.snd hx)
  obtain ⟨m, r'', hclaims, hruns, hcommands⟩ := commitCancel_kept hx
  rcases cancelClaims_dropped hnone hclaims with
    ⟨-, rfl⟩ | ⟨-, hnow, hdropped⟩
  · exact .inl (.of_events hruns hcommands)
  · refine .inr ⟨?_, hdropped.of_eq hruns hcommands⟩
    rw [not_and_or, not_not, not_not] at hregistered
    simp [dropsRuns, href, hregistered, htask, hopen, hnone, hnow,
      Bool.eq_true_of_not_eq_false hactor]

/-- Every call keeps every run, or is a cancellation that drops some. -/
theorem perform_kept (dates : DateApi) (registry : Registry) (a : Action)
    {s : Project} (hs : Sound s) :
    Kept s (perform dates registry a s).2 ∨
      dropsRuns dates registry s a = true ∧
        ∃ ref, Dropped ref s (perform dates registry a s).2 := by
  have hcall : ∀ {x : Op Unit}, x = perform dates registry a →
      Ensures Kept x s → Kept s (perform dates registry a s).2 ∨
        dropsRuns dates registry s a = true ∧
          ∃ ref, Dropped ref s (perform dates registry a s).2 :=
    fun hx h => .inl (hx ▸ h)
  have hpr : ∀ {runId : RunId} {check : Claim → Except DomainError Unit}
      {f : Claim → Claim}, KeepsRun f → Ensures Kept (do
        let _ ← updateClaim dates runId check f fun _ => []
        pure ()) s := fun hf => (kept_updateClaim hf s).result
  cases a with
  | claimTask ref agentId lease runId snapshot now =>
      exact hcall rfl (kept_claimTask hs.bound).result
  | startRun runId agentId o now => exact hcall rfl (kept_startRun s)
  | heartbeat runId agentId o => exact hcall rfl (kept_heartbeat s).result
  | renewLeaseOnly runId lease now => exact hcall rfl (kept_renewLeaseOnly s)
  | finishRun runId agentId o now => exact hcall rfl (kept_finishRun s)
  | markTaskEnvelopeSent runId agentId o =>
      refine hcall rfl (Ensures.result
        (ensures_markTaskEnvelopeSent (.refl s) (kept_updateClaim ?_ s)))
      exact fun _ => ⟨rfl, rfl, rfl⟩
  | setRunSessionStartRetryState runId agentId count nextRetryAt lastError =>
      exact hcall rfl (hpr (f := applyStartRetry count nextRetryAt lastError)
        fun _ => ⟨rfl, rfl, rfl⟩)
  | setRunFinalizationState runId agentId u =>
      exact hcall rfl (hpr (f := applyFinalization u) fun _ => ⟨rfl, rfl, rfl⟩)
  | setRunInputState runId agentId inputState requestedAt now =>
      exact hcall rfl (hpr (f := applyInputState inputState requestedAt now)
        fun _ => ⟨rfl, rfl, rfl⟩)
  | setPrRef runId prRef =>
      exact hcall rfl (hpr (f := fun claim => { claim with prRef := some prRef })
        fun _ => ⟨rfl, rfl, rfl⟩)
  | setPrCreatedAt runId createdAt seq =>
      refine hcall rfl (hpr ?_)
      exact fun _ => ⟨rfl, rfl, rfl⟩
  | expireStaleLeases policy actorId now =>
      exact hcall rfl (kept_expireStaleLeases s).result
  | delegateTask args now => exact hcall rfl (kept_delegateTask s).result
  | cancelTask ref reason actorId now =>
      obtain ⟨r', hx, -⟩ := result_cases
        (x := cancelTask dates registry ref reason actorId now)
        (f := fun _ => ()) (s := s) (Prod.eta _).symm
      exact (cancelTask_kept hx).imp_right fun h => ⟨h.1, ref, h.2⟩
  | resetTask ref actorId now => exact hcall rfl (kept_resetTask s).result
  | unblockTask ref reason actorId now => exact hcall rfl (kept_unblockTask s)
  | expireRun runId actorId now => exact hcall rfl (kept_expireRun s)
  | markTaskDoneRuntimeOnly ref actorId now =>
      exact hcall rfl (kept_markTaskDoneRuntimeOnly s).result
  | reconcileState now => exact hcall rfl (kept_reconcileState s)
  | applyLifecycle request time => exact hcall rfl (kept_applyLifecycle s)

/-! ## The invariant -/

/-- Every row names stored rows only. -/
structure Intact (h : Archive) : Prop where
  sound : Sound h.project
  commands : ∀ x, x ∈ h.project.events.commands →
    h.project.hasRun x.runId = true
  messages : ∀ m, m ∈ h.messages → h.project.hasRun m.runId = true ∧
    m.commandId.all h.project.hasCommand = true
  inputRequests : ∀ q, q ∈ h.inputRequests →
    h.project.hasRun q.runId = true ∧ q.messageId.all h.hasMessage = true

theorem all_filter (x : Option String) (p : String → Bool) :
    (x.filter p).all p = true := by
  cases x with
  | none => rfl
  | some id => cases p id <;> simp

theorem filter_of_all {x : Option String} {p q : String → Bool}
    (h : x.all p = true) (hpq : ∀ id, p id = true → q id = true) :
    x.filter q = x := by
  cases x with
  | none => rfl
  | some id =>
      have hq := hpq id (by simpa using h)
      simp [hq]

theorem all_of_all {x : Option String} {p q : String → Bool}
    (h : x.all p = true) (hpq : ∀ id, p id = true → q id = true) :
    x.all q = true := by
  cases x with
  | none => rfl
  | some id => exact hpq id h

theorem Intact.cascade {h : Archive} {t : Project} (hsound : Sound t)
    (hcommands : ∀ x, x ∈ t.events.commands → t.hasRun x.runId = true) :
    Intact (h.cascade t) := by
  refine ⟨hsound, hcommands, fun m hm => ?_, fun q hq => ?_⟩
  · simp only [Archive.cascade, Table.mem_map, Table.mem_filter] at hm
    obtain ⟨m₀, ⟨-, hrun⟩, rfl⟩ := hm
    exact ⟨hrun, all_filter _ _⟩
  · simp only [Archive.cascade, Table.mem_map, Table.mem_filter] at hq
    obtain ⟨q₀, ⟨-, hrun⟩, rfl⟩ := hq
    exact ⟨hrun, all_filter _ _⟩

theorem Dropped.hasRun {ref : TaskRef} {s t : Project} (h : Dropped ref s t)
    {x : DurableCommand} (hx : x ∈ t.events.commands) :
    t.hasRun x.runId = true :=
  hasRun_iff.mpr ((h.commands x).mp hx).2

theorem Intact.call {h : Archive} (hh : Intact h) (a : Action) :
    Intact (h.call dates registry a) := by
  refine .cascade (hh.sound.perform (Prod.eta _).symm) fun x hx => ?_
  rcases perform_kept dates registry a hh.sound with hkept | ⟨-, ref, hdropped⟩
  · exact hkept.hasRun (hh.commands x (hkept.old x hx))
  · exact hdropped.hasRun hx

theorem Intact.saveCommand {h : Archive} (hh : Intact h) {x : DurableCommand}
    (hrun : h.project.hasRun x.runId = true) :
    Intact (h.setCommands (h.project.events.commands.upsert x)) := by
  obtain ⟨⟨hnamed, hbound, hone, hheld, htasks⟩, hcommands, hmessages,
    hrequests⟩ := hh
  refine ⟨⟨hnamed, hbound, hone, hheld, htasks⟩, fun y hy => ?_, fun m hm => ?_,
    hrequests⟩
  · rcases Table.mem_upsert.mp hy with rfl | ⟨hy, -⟩
    · exact hrun
    · exact hcommands y hy
  · obtain ⟨hmrun, hmcommand⟩ := hmessages m hm
    exact ⟨hmrun, all_of_all hmcommand fun id hid => Table.isSome_upsert hid⟩

theorem Intact.step {h h' : Archive} {l : ArchiveLabel} (hh : Intact h)
    (ht : archiveStep dates registry h l = some h') : Intact h' := by
  cases l with
  | call a =>
      cases ht
      exact hh.call a
  | saveCommand x =>
      simp only [archiveStep] at ht
      split at ht
      · rename_i hrun
        cases ht
        exact hh.saveCommand hrun
      · cases ht
  | saveMessage m =>
      simp only [archiveStep, Bool.and_eq_true] at ht
      split at ht
      · rename_i hm
        cases ht
        refine ⟨hh.sound, hh.commands, fun y hy => ?_, fun q hq => ?_⟩
        · rcases Table.mem_upsert.mp hy with rfl | ⟨hy, -⟩
          · exact hm
          · exact hh.messages y hy
        · obtain ⟨hrun, hmessage⟩ := hh.inputRequests q hq
          exact ⟨hrun, all_of_all hmessage fun id hid => Table.isSome_upsert hid⟩
      · cases ht
  | saveInputRequest q =>
      simp only [archiveStep, Bool.and_eq_true] at ht
      split at ht
      · rename_i hq
        cases ht
        refine ⟨hh.sound, hh.commands, hh.messages, fun y hy => ?_⟩
        rcases Table.mem_upsert.mp hy with rfl | ⟨hy, -⟩
        · exact hq
        · exact hh.inputRequests y hy
      · cases ht

theorem Intact.fresh {h : Archive} (hh : FreshArchive h) : Intact h := by
  refine ⟨.fresh hh.fresh, fun x hx => ?_, fun m hm => ?_, fun q hq => ?_⟩
  · rw [Table.mem_rows, hh.commands] at hx
    cases hx
  · rw [Table.mem_rows, hh.messages] at hm
    cases hm
  · rw [Table.mem_rows, hh.inputRequests] at hq
    cases hq

theorem Intact.reachable {h : Archive}
    (hh : (archiveSystem dates registry).Reachable h) : Intact h :=
  hh.invariant (fun _ h => .fresh h) fun _ _ _ hh ht => hh.step ht

/-! ## The history of a call -/

structure HistoryKept (h h' : Archive) : Prop where
  runs : ∀ c, c ∈ h.project.events.runs →
    ∃ c', c' ∈ h'.project.events.runs ∧ SameRun c c'
  commands : ∀ x, x ∈ h.project.events.commands →
    x ∈ h'.project.events.commands
  messages : ∀ m, m ∈ h.messages → m ∈ h'.messages
  inputRequests : ∀ q, q ∈ h.inputRequests → q ∈ h'.inputRequests

theorem Kept.hasCommand {s t : Project} (h : Kept s t)
    (hcommands : ∀ x, x ∈ s.events.commands → s.hasRun x.runId = true)
    {id : String} (hid : s.hasCommand id = true) : t.hasCommand id = true := by
  obtain ⟨x, hx⟩ := Option.isSome_iff_exists.mp hid
  obtain ⟨hmem, hkey⟩ := Table.find?_eq_some.mp hx
  exact Option.isSome_iff_exists.mpr ⟨x, Table.find?_eq_some.mpr
    ⟨h.commands x hmem (hcommands x hmem), hkey⟩⟩

theorem Intact.kept {h : Archive} {t : Project} (hh : Intact h)
    (hkept : Kept h.project t) : HistoryKept h (h.cascade t) := by
  have hmessages : ∀ m, m ∈ h.messages → m ∈ (h.cascade t).messages := by
    intro m hm
    obtain ⟨hrun, hcommand⟩ := hh.messages m hm
    simp only [Archive.cascade, Table.mem_map, Table.mem_filter]
    refine ⟨m, ⟨hm, hkept.hasRun hrun⟩, ?_⟩
    rw [filter_of_all hcommand fun id => hkept.hasCommand hh.commands]
  refine ⟨hkept.runs, fun x hx => hkept.commands x hx (hh.commands x hx),
    hmessages, fun q hq => ?_⟩
  obtain ⟨hrun, hmessage⟩ := hh.inputRequests q hq
  have hstill : ∀ id, h.hasMessage id = true →
      (h.cascade t).hasMessage id = true := by
    intro id hid
    obtain ⟨m, hm⟩ := Option.isSome_iff_exists.mp hid
    obtain ⟨hmem, hkey⟩ := Table.find?_eq_some.mp hm
    exact Option.isSome_iff_exists.mpr
      ⟨m, Table.find?_eq_some.mpr ⟨hmessages m hmem, hkey⟩⟩
  have hsame := filter_of_all hmessage hstill
  have hrow : { q with
      messageId := q.messageId.filter (h.cascade t).hasMessage } = q := by
    rw [hsame]
  simp only [Archive.cascade, Table.mem_map, Table.mem_filter]
  exact ⟨q, ⟨hq, hkept.hasRun hrun⟩, hrow⟩

/-- A stored run that `gone` does not pick. -/
def Archive.Stays (h : Archive) (gone : Claim → Bool) (runId : RunId) : Prop :=
  ∃ c, c ∈ h.project.events.runs ∧ gone c = false ∧ c.runId = runId

/--
The runs that `gone` picks are deleted with their rows, and nothing else is: a
row of another run stays as it is, or loses the name of a row deleted with its
run.
-/
structure HistoryKeptBut (gone : Claim → Bool) (h h' : Archive) : Prop where
  runs : ∀ c, c ∈ h.project.events.runs → gone c = false →
    ∃ c', c' ∈ h'.project.events.runs ∧ SameRun c c'
  removed : ∀ c, c ∈ h.project.events.runs → gone c = true →
    h'.project.hasRun c.runId = false
  commands : ∀ x, x ∈ h.project.events.commands → h.Stays gone x.runId →
    x ∈ h'.project.events.commands
  messages : ∀ m, m ∈ h.messages → h.Stays gone m.runId →
    m ∈ h'.messages ∨ { m with commandId := none } ∈ h'.messages ∧
      ∃ x, x ∈ h.project.events.commands ∧ m.commandId = some x.commandId ∧
        ¬ h.Stays gone x.runId
  inputRequests : ∀ q, q ∈ h.inputRequests → h.Stays gone q.runId →
    q ∈ h'.inputRequests ∨ { q with messageId := none } ∈ h'.inputRequests ∧
      ∃ m, m ∈ h.messages ∧ q.messageId = some m.messageId ∧
        ¬ h.Stays gone m.runId

theorem filter_cases (x : Option String) (p : String → Bool) :
    x.filter p = x ∨ ∃ id, x = some id ∧ p id = false ∧ x.filter p = none := by
  cases x with
  | none => exact .inl rfl
  | some id => cases hp : p id <;> simp [Option.filter, hp]

theorem Dropped.stays {ref : TaskRef} {h : Archive} {t : Project}
    {gone : Claim → Bool} (hdropped : Dropped ref h.project t)
    (hgone : ∀ c, gone c = (c.taskRef = ref && c.active)) {runId : RunId} :
    t.hasRun runId = true ↔ h.Stays gone runId := by
  rw [hasRun_iff]
  refine exists_congr fun c => ?_
  rw [hdropped.runs c, hgone c, and_assoc]

theorem Intact.dropped {h : Archive} {t : Project} (hh : Intact h)
    {ref : TaskRef} (hdropped : Dropped ref h.project t) {gone : Claim → Bool}
    (hgone : ∀ c, gone c = (c.taskRef = ref && c.active)) :
    HistoryKeptBut gone h (h.cascade t) := by
  have hstays : ∀ {runId}, t.hasRun runId = true ↔ h.Stays gone runId :=
    hdropped.stays hgone
  have hmessages : ∀ m, m ∈ h.messages → h.Stays gone m.runId →
      { m with commandId := m.commandId.filter t.hasCommand } ∈
        (h.cascade t).messages := by
    intro m hm hstay
    simp only [Archive.cascade, Table.mem_map, Table.mem_filter]
    exact ⟨m, ⟨hm, hstays.mpr hstay⟩, rfl⟩
  refine ⟨fun c hc hno => ?_, fun c hc hyes => ?_, fun x hx hstay => ?_,
    fun m hm hstay => ?_, fun q hq hstay => ?_⟩
  · rw [hgone c] at hno
    exact ⟨c, (hdropped.runs c).mpr ⟨hc, hno⟩, rfl, rfl, rfl⟩
  · refine Bool.eq_false_iff.mpr fun hrun => ?_
    obtain ⟨c', hc', hno, hid⟩ := hstays.mp hrun
    rw [Table.eq_of_key hc' hc hid, hyes] at hno
    cases hno
  · exact (hdropped.commands x).mpr ⟨hx, hasRun_iff.mp (hstays.mpr hstay)⟩
  · have hrow := hmessages m hm hstay
    rcases filter_cases m.commandId t.hasCommand with
      hsame | ⟨id, hnames, hlost, hnull⟩
    · rw [hsame] at hrow
      exact .inl hrow
    rw [hnull] at hrow
    refine .inr ⟨hrow, ?_⟩
    have hstored := (hh.messages m hm).2
    rw [hnames, Option.all_some] at hstored
    obtain ⟨x, hx⟩ := Option.isSome_iff_exists.mp hstored
    obtain ⟨hmem, rfl⟩ := Table.find?_eq_some.mp hx
    refine ⟨x, hmem, hnames, fun hstay => ?_⟩
    have hfound : t.hasCommand x.commandId = true :=
      Option.isSome_iff_exists.mpr ⟨x, Table.find?_eq_some.mpr
        ⟨(hdropped.commands x).mpr
          ⟨hmem, hasRun_iff.mp (hstays.mpr hstay)⟩, rfl⟩⟩
    rw [hlost] at hfound
    cases hfound
  · have hrow : { q with messageId :=
        q.messageId.filter (h.cascade t).hasMessage } ∈
          (h.cascade t).inputRequests := by
      simp only [Archive.cascade, Table.mem_map, Table.mem_filter]
      exact ⟨q, ⟨hq, hstays.mpr hstay⟩, rfl⟩
    rcases filter_cases q.messageId (h.cascade t).hasMessage with
      hsame | ⟨id, hnames, hlost, hnull⟩
    · rw [hsame] at hrow
      exact .inl hrow
    rw [hnull] at hrow
    refine .inr ⟨hrow, ?_⟩
    have hstored := (hh.inputRequests q hq).2
    rw [hnames, Option.all_some] at hstored
    obtain ⟨m, hm⟩ := Option.isSome_iff_exists.mp hstored
    obtain ⟨hmem, rfl⟩ := Table.find?_eq_some.mp hm
    refine ⟨m, hmem, hnames, fun hstay => ?_⟩
    have hfound : (h.cascade t).hasMessage m.messageId = true :=
      Option.isSome_iff_exists.mpr ⟨_, Table.find?_eq_some.mpr
        ⟨hmessages m hmem hstay, rfl⟩⟩
    rw [hlost] at hfound
    cases hfound

end OrcState.Lifecycle
