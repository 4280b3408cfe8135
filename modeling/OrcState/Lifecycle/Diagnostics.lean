import OrcState.Cursor.Offsets
import OrcState.Lifecycle.FinalizationFields

/-!
# The lifecycle diagnostics

A detector walks the tasks, the agents, the claims and the event log and
reports what does not fit together.  It keeps a list of finalization states of
its own, shorter than the list of the call that stores them, and it takes for
granted that a run that ended has nothing of its finalization left.
-/

namespace OrcState.Lifecycle

open OrcState.Contract OrcState.Foundation OrcState.Store OrcState.Cursor
open OrcState.Foundation.Effect

variable {dates : DateApi} {registry : Registry}

/-! ## Issues -/

inductive IssueCode where
  | duplicateActiveClaims
  | duplicateActiveAgentClaims
  | unknownActiveTaskRef
  | unknownActiveAgentId
  | taskStatusMissingActiveClaim
  | taskStatusClaimMismatch
  | invalidFinalizationState
  | missingFinalizationBlockedReason
  | suspiciousFinalizationRetryCount
  | duplicateEventIdentity
  deriving DecidableEq, Repr

structure LifecycleIssue where
  code : IssueCode
  message : String
  hint : Option String := none
  deriving DecidableEq, Repr

def DIAGNOSED_STATES : List FinalizationState :=
  [.awaitingFinalize, .finalizeRebaseRequested, .finalizeRebaseInProgress,
   .readyToMerge, .blockedFinalize]

def finalizationText : FinalizationState → String
  | .awaitingFinalize => "awaiting_finalize"
  | .finalizeRebaseRequested => "finalize_rebase_requested"
  | .finalizeRebaseInProgress => "finalize_rebase_in_progress"
  | .readyToMerge => "ready_to_merge"
  | .blockedFinalize => "blocked_finalize"
  | .prCreated => "pr_created"
  | .prReviewInProgress => "pr_review_in_progress"
  | .prMerged => "pr_merged"
  | .prFailed => "pr_failed"

/-! ## Claims by task and by agent -/

def activeClaims (claims : List Claim) : List Claim :=
  claims.filter Claim.active

def expectedTaskStatus (claim : Claim) : TaskStatus :=
  if claim.state = .inProgress then .inProgress else .claimed

/-- A `Map` filled in order: its keys stand where each was first set. -/
def groupBy {α : Type} (key : α → String) (values : List α) :
    List (String × List α) :=
  (values.map key).eraseDups.map fun k =>
    (k, values.filter fun value => key value = k)

/-- The later of two tasks with one reference takes the place of the first. -/
def tasksByRef (backlog : Backlog) : List Task :=
  (groupBy Task.ref backlog).filterMap fun entry => entry.2.getLast?

def unknownIssues (backlog : Backlog) (agents : List AgentId)
    (claim : Claim) : List LifecycleIssue :=
  (if backlog.any fun task => task.ref = claim.taskRef then []
  else
    [{ code := .unknownActiveTaskRef
       message := "active claim " ++ claim.runId ++
         " references unknown task_ref \"" ++ claim.taskRef ++ "\""
       hint := some "Repair or reset the run before dispatch continues." }]) ++
  (if agents.contains claim.agentId then []
  else
    [{ code := .unknownActiveAgentId
       message := "active claim " ++ claim.runId ++
         " references unknown agent_id \"" ++ claim.agentId ++ "\""
       hint := some "Re-register the worker or reset the task claim." }])

def duplicateClaimIssue (entry : TaskRef × List Claim) :
    Option LifecycleIssue :=
  if entry.2.length ≤ 1 then none
  else
    (selectDuplicateClaimWinner entry.2).map fun winner =>
      { code := .duplicateActiveClaims
        message := "multiple active claims for task " ++ entry.1 ++
          "; keep oldest run " ++ winner.runId ++ ", fail newer run(s): " ++
          ", ".intercalate ((entry.2.filter fun claim =>
            claim.runId ≠ winner.runId).map Claim.runId)
        hint := some ("Coordinator reconcile should leave the oldest active " ++
          "claim and fail fresher duplicates.") }

def duplicateAgentIssue (entry : AgentId × List Claim) :
    Option LifecycleIssue :=
  if entry.2.length ≤ 1 then none
  else
    some
      { code := .duplicateActiveAgentClaims
        message := "agent " ++ entry.1 ++ " has multiple active claims: " ++
          ", ".intercalate (entry.2.map Claim.runId)
        hint := some "A worker should own at most one active run at a time." }

def taskIssue (active : List Claim) (task : Task) : Option LifecycleIssue :=
  match selectDuplicateClaimWinner
      (active.filter fun claim => claim.taskRef = task.ref) with
  | none =>
      if task.status.running then
        some
          { code := .taskStatusMissingActiveClaim
            message := "task " ++ task.ref ++ " is " ++ task.status.text ++
              " but has no active claim"
            hint := some ("Reset the task or repair claims/backlog state " ++
              "before continuing.") }
      else none
  | some claim =>
      if task.status = expectedTaskStatus claim then none
      else
        some
          { code := .taskStatusClaimMismatch
            message := "task " ++ task.ref ++ " is " ++ task.status.text ++
              " but active claim " ++ claim.runId ++ " is " ++ claim.state.text
            hint := some ("Expected task status " ++
              (expectedTaskStatus claim).text ++ " while that run is active.") }

/-! ## The finalization of one claim -/

def unsupportedIssue (claim : Claim) (state : FinalizationState) :
    Option LifecycleIssue :=
  if DIAGNOSED_STATES.contains state then none
  else
    some
      { code := .invalidFinalizationState
        message := "claim " ++ claim.runId ++
          " has unsupported finalization_state \"" ++ finalizationText state ++
          "\"" }

def notStartedIssue (claim : Claim) (state : FinalizationState) :
    Option LifecycleIssue :=
  if claim.state = .inProgress then none
  else
    some
      { code := .invalidFinalizationState
        message := "claim " ++ claim.runId ++ " has finalization_state \"" ++
          finalizationText state ++ "\" while state is " ++ claim.state.text
        hint := some ("Finalization state is only valid while a run remains " ++
          "in_progress.") }

def unexplainedIssue (claim : Claim) (state : FinalizationState) :
    Option LifecycleIssue :=
  if state = .blockedFinalize ∧
      blank (claim.finalizationBlockedReason.getD "") = true then
    some
      { code := .missingFinalizationBlockedReason
        message := "claim " ++ claim.runId ++
          " is blocked_finalize without a blocked reason"
        hint := some ("Preserved finalization failures should always record " ++
          "why they were blocked.") }
  else none

def retryIssue (claim : Claim) : Option LifecycleIssue :=
  if 0 < claim.finalizationRetryCount then
    some
      { code := .suspiciousFinalizationRetryCount
        message := "claim " ++ claim.runId ++ " has retry_count=" ++
          toString claim.finalizationRetryCount ++
          " without an active finalization_state"
        hint := some ("Retry counters should only be set while a " ++
          "finalization phase is active or preserved.") }
  else none

def finalizationIssues (claim : Claim) : List LifecycleIssue :=
  match claim.finalizationState with
  | none => (retryIssue claim).toList
  | some state =>
      (unsupportedIssue claim state).toList ++
        (notStartedIssue claim state).toList ++
          (unexplainedIssue claim state).toList

/-! ## The event log and the whole report -/

def identityIssues (seen : List String) : List String → List LifecycleIssue
  | [] => []
  | identity :: rest =>
      if seen.contains identity then
        { code := .duplicateEventIdentity
          message := "events.db contains duplicate event identity " ++ identity
          hint := some ("Event replay and dedupe rely on unique identities " ++
            "within the retained log.") } :: identityIssues seen rest
      else identityIssues (identity :: seen) rest

/-- A log that cannot be read, `none` here, is left to another check. -/
def detectLifecycleIssues (agents : List AgentId)
    (events : Option (List StoredEvent)) (s : Project) :
    List LifecycleIssue :=
  let active := activeClaims s.claims
  active.flatMap (unknownIssues s.backlog agents) ++
    (groupBy Claim.taskRef active).filterMap duplicateClaimIssue ++
    (groupBy Claim.agentId active).filterMap duplicateAgentIssue ++
    (tasksByRef s.backlog).filterMap (taskIssue active) ++
    s.claims.flatMap finalizationIssues ++
    (events.map fun log => identityIssues [] (log.map eventIdentity)).getD []

/-! ## What the detector takes for granted -/

/-- The finalization of a claim as the detector expects to find it. -/
structure Diagnosable (claim : Claim) : Prop where
  known : ∀ state ∈ claim.finalizationState, state ∈ DIAGNOSED_STATES
  started : claim.finalizationState ≠ none → claim.state = .inProgress
  explained : claim.finalizationState = some .blockedFinalize →
    blank (claim.finalizationBlockedReason.getD "") = false
  counted : claim.finalizationState = none → claim.finalizationRetryCount = 0

/-- The detector is silent about a claim exactly when it finds what it expects. -/
theorem finalizationIssues_eq_nil {claim : Claim} :
    finalizationIssues claim = [] ↔ Diagnosable claim := by
  unfold finalizationIssues
  cases hstate : claim.finalizationState with
  | none =>
      simp only [retryIssue]
      constructor
      · intro h
        refine ⟨by simp [hstate], fun hne => absurd hstate hne,
          fun he => by simp [hstate] at he, fun _ => ?_⟩
        split at h
        · cases h
        · omega
      · intro h
        rw [if_neg (by have := h.counted hstate; omega)]
        rfl
  | some state =>
      simp only [List.append_eq_nil_iff, unsupportedIssue, notStartedIssue,
        unexplainedIssue]
      constructor
      · rintro ⟨⟨hknown, hstarted⟩, hexplained⟩
        refine ⟨fun q hq => ?_, fun _ => ?_, fun hq => ?_,
          fun hnone => by rw [hstate] at hnone; cases hnone⟩
        · obtain rfl : state = q := by
            rw [hstate] at hq
            exact Option.some.inj hq
          split at hknown
          · rename_i h
            exact List.contains_iff_mem.mp h
          · cases hknown
        · split at hstarted
          · assumption
          · cases hstarted
        · obtain rfl : state = .blockedFinalize := by
            rw [hstate] at hq
            exact Option.some.inj hq
          split at hexplained
          · cases hexplained
          · rename_i h
            exact Bool.eq_false_iff.mpr fun hblank => h ⟨rfl, hblank⟩
      · intro h
        rw [if_pos (List.contains_iff_mem.mpr (h.known state hstate)),
          if_pos (h.started (by simp [hstate])), if_neg]
        · exact ⟨⟨rfl, rfl⟩, rfl⟩
        · rintro ⟨rfl, hblank⟩
          rw [h.explained hstate] at hblank
          cases hblank

theorem Diagnosable.of_unset {claim : Claim} {fields : FinalizationFields}
    (h : finalizationFields claim = fields) (hstate : fields.state = none)
    (hcount : fields.retryCount = 0) : Diagnosable claim := by
  have hq : claim.finalizationState = none :=
    (congrArg FinalizationFields.state h).trans hstate
  have hretry : claim.finalizationRetryCount = 0 :=
    (congrArg FinalizationFields.retryCount h).trans hcount
  refine ⟨fun state hset => ?_, fun hne => absurd hq hne, fun hset => ?_,
    fun _ => hretry⟩
  · rw [hq] at hset
    cases hset
  · rw [hq] at hset
    cases hset

theorem Diagnosable.congr {claim claim' : Claim} (h : Diagnosable claim)
    (hfields : finalizationFields claim' = finalizationFields claim)
    (hstate : claim.state = .inProgress → claim'.state = .inProgress) :
    Diagnosable claim' := by
  have hq : claim'.finalizationState = claim.finalizationState :=
    congrArg FinalizationFields.state hfields
  have hcount : claim'.finalizationRetryCount = claim.finalizationRetryCount :=
    congrArg FinalizationFields.retryCount hfields
  have hreason : claim'.finalizationBlockedReason =
      claim.finalizationBlockedReason :=
    congrArg FinalizationFields.blockedReason hfields
  refine ⟨?_, fun hne => hstate (h.started ?_), ?_, ?_⟩
  · rw [hq]
    exact h.known
  · rwa [hq] at hne
  · rw [hq, hreason]
    exact h.explained
  · rw [hq, hcount]
    exact h.counted

/-! ## Calls that upset the detector -/

def pathUpdate (u : FinalizationUpdate) : Bool :=
  match u.finalizationState with
  | none => false
  | some .blockedFinalize => u.blockedReason.any fun reason => !blank reason
  | some _ => true

def pathCall : Action → Bool
  | .setRunFinalizationState _ _ u => pathUpdate u
  | _ => true

/--
The claims a call leaves as the detector does not expect them: those it gives a
state missing from the detector's list, and those it ends in mid-finalization.
-/
def upsets (dates : DateApi) (s : Project) : Action → Claim → Bool
  | .setRunFinalizationState runId agentId u, c =>
      c.runId = runId && c.agentId = agentId && c.state = .inProgress &&
        u.finalizationState.any fun state => !DIAGNOSED_STATES.contains state
  | .expireStaleLeases _ _ now, c =>
      expires dates now s.backlog c && c.finalizationState.isSome
  | .resetTask ref _ _, c =>
      (c.taskRef = ref && c.active) && c.finalizationState.isSome
  | _, _ => false

def upsetsNone (dates : DateApi) (s : Project) (a : Action) : Bool :=
  s.claims.all fun c => !upsets dates s a c

theorem upsetsNone_of_mem {s : Project} {a : Action} {c : Claim}
    (h : upsetsNone dates s a = true) (hc : c ∈ s.events.runs) :
    upsets dates s a c = false := by
  have hall := List.all_eq_true.mp h c hc
  rwa [Bool.not_eq_true'] at hall

/-! ## One call -/

theorem Diagnosable.set {u : FinalizationUpdate} {c : Claim}
    (hpath : pathUpdate u = true)
    (hknown : ∀ state ∈ u.finalizationState, state ∈ DIAGNOSED_STATES)
    (hstate : c.state = .inProgress) :
    Diagnosable (applyFinalization u c) := by
  refine ⟨hknown, fun _ => hstate, fun hblocked => ?_, fun hnone => ?_⟩
  · have hq : u.finalizationState = some .blockedFinalize := hblocked
    rw [pathUpdate, hq] at hpath
    change blank (u.blockedReason.getD "") = false
    cases hreason : u.blockedReason with
    | none =>
        rw [hreason] at hpath
        cases hpath
    | some reason =>
        simp only [hreason, Option.any_some, Bool.not_eq_true'] at hpath
        exact hpath
  · have hq : u.finalizationState = none := hnone
    rw [pathUpdate, hq] at hpath
    cases hpath

theorem Diagnosable.forgotten {s : Project} {a : Action} {c c' : Claim}
    (h : Diagnosable c) (hidle : ∀ now, a ≠ .reconcileState now)
    (hforgets : forgets dates s a c = true)
    (hupsets : upsets dates s a c = false)
    (hfields : finalizationFields c' = finalizationFields c) :
    Diagnosable c' := by
  have hnone : c.finalizationState = none := by
    cases a with
    | expireStaleLeases policy actorId now =>
        have hexpires : expires dates now s.backlog c = true := hforgets
        simpa [upsets, hexpires] using hupsets
    | resetTask ref actorId now =>
        have hreset : (c.taskRef = ref && c.active) = true := hforgets
        simp only [upsets, hreset, Bool.true_and] at hupsets
        simpa using hupsets
    | reconcileState now => exact absurd rfl (hidle now)
    | _ => cases hforgets
  exact .of_unset hfields hnone (h.counted hnone)

theorem Diagnosable.move {s : Project} {a : Action} {c' : Claim}
    (hs : ∀ c, c ∈ s.events.runs → Diagnosable c)
    (hmove : FieldsMove dates s a c') (hidle : ∀ now, a ≠ .reconcileState now)
    (hpath : pathCall a = true) (hupsets : upsetsNone dates s a = true) :
    Diagnosable c' := by
  cases hmove with
  | claimed _ _ hfields => exact .of_unset hfields rfl rfl
  | kept c hc _ hstate hfields =>
      refine (hs c hc).congr hfields fun hstarted => ?_
      rcases hstate with hsame | ⟨-, h⟩
      · exact hsame.trans hstarted
      · exact h
  | cleared c hc _ _ hfields => exact .of_unset hfields rfl rfl
  | forgotten c hc _ hforgets _ hfields =>
      exact (hs c hc).forgotten hidle hforgets (upsetsNone_of_mem hupsets hc)
        hfields
  | set runId agentId u c hc hid howner ha hstate he =>
      subst he ha
      refine .set hpath (fun state hset => ?_) hstate
      have hfine := upsetsNone_of_mem hupsets hc
      simp only [upsets, hid, howner, hstate, decide_true, Bool.true_and,
        Option.any_eq_false] at hfine
      exact List.contains_iff_mem.mp (by simpa using hfine state hset)

/-! ## Every run -/

def Followed (dates : DateApi) (registry : Registry) (s : Project)
    (a : Action) : Prop :=
  Undisturbed dates registry s a ∧ pathCall a = true ∧
    upsetsNone dates s a = true

instance (s : Project) (a : Action) :
    Decidable (Followed dates registry s a) :=
  inferInstanceAs (Decidable (Undisturbed dates registry s a ∧
    pathCall a = true ∧ upsetsNone dates s a = true))

theorem undisturbed_of_followed {s : Project}
    (hs : (lifecycleSystem dates registry).ReachableUnder
      (Followed dates registry) s) :
    (lifecycleSystem dates registry).ReachableUnder
      (Undisturbed dates registry) s :=
  hs.mono fun _ _ h => h.1

theorem diagnosable_of_followed {s : Project}
    (hs : (lifecycleSystem dates registry).ReachableUnder
      (Followed dates registry) s) :
    ∀ c, c ∈ s.events.runs → Diagnosable c := by
  refine hs.invariant (I := fun s => ∀ c, c ∈ s.events.runs → Diagnosable c)
    (fun s h c hc => ?_) fun s a t hreach hs hok ht => ?_
  · rw [Table.mem_rows, h.runs] at hc
    cases hc
  cases ht
  have hsound := Sound.reachable hreach
  intro c' hc'
  by_cases hidle : ∃ now, a = .reconcileState now
  · obtain ⟨now, rfl⟩ := hidle
    have hcoherent := Coherent.reachable (undisturbed_of_followed hreach)
    have hsame : reconcileState dates now s = (.ok (), s) :=
      hcoherent.reconcileState hsound
    change c' ∈ (reconcileState dates now s).2.events.runs at hc'
    rw [hsame] at hc'
    exact hs c' hc'
  · exact .move hs (FieldsMoved.perform hsound (Prod.eta _).symm c' hc')
      (fun now ha => hidle ⟨now, ha⟩) hok.2.1 hok.2.2

/-! ## The report -/

def IssueCode.contradiction : IssueCode → Bool
  | .duplicateActiveClaims | .taskStatusMissingActiveClaim
  | .invalidFinalizationState | .missingFinalizationBlockedReason
  | .suspiciousFinalizationRetryCount => true
  | _ => false

theorem mem_groupBy {α : Type} {key : α → String} {values : List α}
    {entry : String × List α} (h : entry ∈ groupBy key values) :
    entry.2 = values.filter fun value => key value = entry.1 := by
  obtain ⟨k, -, rfl⟩ := List.mem_map.mp h
  rfl

theorem mem_tasksByRef {backlog : Backlog} {task : Task}
    (h : task ∈ tasksByRef backlog) : task ∈ backlog := by
  obtain ⟨entry, hentry, hlast⟩ := List.mem_filterMap.mp h
  have hmem := List.mem_of_getLast? hlast
  rw [mem_groupBy hentry] at hmem
  exact (List.mem_filter.mp hmem).1

theorem mem_activeClaims {s : Project} {c : Claim} :
    c ∈ activeClaims s.claims ↔ c ∈ s.events.runs ∧ c.active = true :=
  List.mem_filter

theorem selectDuplicateClaimWinner_eq_none {claims : List Claim}
    (h : selectDuplicateClaimWinner claims = none) : claims = [] := by
  have hlength := congrArg List.length (List.head?_eq_none_iff.mp h)
  rw [List.length_mergeSort] at hlength
  exact List.length_eq_zero_iff.mp hlength

theorem unknownIssues_code {backlog : Backlog} {agents : List AgentId}
    {claim : Claim} {issue : LifecycleIssue}
    (h : issue ∈ unknownIssues backlog agents claim) :
    issue.code.contradiction = false := by
  unfold unknownIssues at h
  rcases List.mem_append.mp h with h | h
  · split at h
    · cases h
    · rw [List.mem_singleton.mp h]
      rfl
  · split at h
    · cases h
    · rw [List.mem_singleton.mp h]
      rfl

theorem duplicateAgentIssue_code {entry : AgentId × List Claim}
    {issue : LifecycleIssue} (h : duplicateAgentIssue entry = some issue) :
    issue.code.contradiction = false := by
  unfold duplicateAgentIssue at h
  split at h
  · cases h
  · cases h
    rfl

theorem identityIssues_code {seen identities : List String}
    {issue : LifecycleIssue} (h : issue ∈ identityIssues seen identities) :
    issue.code.contradiction = false := by
  induction identities generalizing seen with
  | nil => cases h
  | cons identity rest ih =>
      rw [identityIssues] at h
      split at h
      · rcases List.mem_cons.mp h with rfl | h
        · rfl
        · exact ih h
      · exact ih h

theorem duplicateClaimIssue_agree {s : Project} (hs : StoresAgree s)
    {entry : TaskRef × List Claim}
    (h : entry ∈ groupBy Claim.taskRef (activeClaims s.claims)) :
    duplicateClaimIssue entry = none := by
  have hentry := mem_groupBy h
  have hsame : ∀ c ∈ entry.2, ∀ c' ∈ entry.2, c = c' := by
    intro c hc c' hc'
    rw [hentry] at hc hc'
    obtain ⟨hc, href⟩ := List.mem_filter.mp hc
    obtain ⟨hc', href'⟩ := List.mem_filter.mp hc'
    obtain ⟨hc, hactive⟩ := mem_activeClaims.mp hc
    obtain ⟨hc', hactive'⟩ := mem_activeClaims.mp hc'
    exact hs.unique c hc c' hc' hactive hactive'
      ((of_decide_eq_true href).trans (of_decide_eq_true href').symm)
  have hnodup : entry.2.Nodup := by
    rw [hentry]
    exact (s.events.runs.nodup.of_map.filter _).filter _
  refine if_pos ?_
  cases hlist : entry.2 with
  | nil => exact Nat.zero_le 1
  | cons c rest =>
      cases rest with
      | nil => exact Nat.le_refl 1
      | cons c' rest =>
          rw [hlist] at hsame hnodup
          have hne : c ≠ c' := by
            intro he
            exact (List.nodup_cons.mp hnodup).1 (he ▸ List.mem_cons_self)
          exact absurd (hsame c List.mem_cons_self c'
            (List.mem_cons_of_mem _ List.mem_cons_self)) hne

theorem taskIssue_agree {s : Project} (hs : StoresAgree s) {task : Task}
    {issue : LifecycleIssue} (htask : task ∈ s.backlog)
    (h : taskIssue (activeClaims s.claims) task = some issue) :
    issue.code.contradiction = false := by
  unfold taskIssue at h
  split at h
  · rename_i hnone
    split at h
    · rename_i hrunning
      obtain ⟨row, hrow, rfl⟩ := mem_readProjectBacklog.mp htask
      have hstatus : row.status = .claimed ∨ row.status = .inProgress := by
        change row.status.running = true at hrunning
        cases hq : row.status <;> simp [hq, TaskStatus.running] at hrunning ⊢
      obtain ⟨c, hc, hactive, href, -⟩ := hs.held row hrow hstatus
      have hmem : c ∈ (activeClaims s.claims).filter fun claim =>
          claim.taskRef = (projectTaskToBacklogTask row).ref :=
        List.mem_filter.mpr
          ⟨mem_activeClaims.mpr ⟨hc, hactive⟩, decide_eq_true href⟩
      rw [selectDuplicateClaimWinner_eq_none hnone] at hmem
      cases hmem
    · cases h
  · split at h
    · cases h
    · cases h
      rfl

theorem detectLifecycleIssues_agree {s : Project} (hs : StoresAgree s)
    (hclaims : ∀ c, c ∈ s.events.runs → Diagnosable c)
    (agents : List AgentId) (events : Option (List StoredEvent)) :
    ∀ issue ∈ detectLifecycleIssues agents events s,
      issue.code.contradiction = false := by
  intro issue h
  simp only [detectLifecycleIssues, List.mem_append, or_assoc] at h
  rcases h with h | h | h | h | h | h
  · obtain ⟨claim, -, h⟩ := List.mem_flatMap.mp h
    exact unknownIssues_code h
  · obtain ⟨entry, hentry, h⟩ := List.mem_filterMap.mp h
    rw [duplicateClaimIssue_agree hs hentry] at h
    cases h
  · obtain ⟨entry, -, h⟩ := List.mem_filterMap.mp h
    exact duplicateAgentIssue_code h
  · obtain ⟨task, htask, h⟩ := List.mem_filterMap.mp h
    exact taskIssue_agree hs (mem_tasksByRef htask) h
  · obtain ⟨claim, hclaim, h⟩ := List.mem_flatMap.mp h
    rw [finalizationIssues_eq_nil.mpr (hclaims claim hclaim)] at h
    cases h
  · cases events with
    | none => cases h
    | some log => exact identityIssues_code h

/--
In a run whose calls neither store a state missing from the detector's list nor
end a run in mid-finalization, the detector finds no contradiction.
-/
theorem no_false_alarm (dates : DateApi) (registry : Registry) {s : Project}
    (hs : (lifecycleSystem dates registry).ReachableUnder
      (Followed dates registry) s)
    (agents : List AgentId) (events : Option (List StoredEvent)) :
    ∀ issue ∈ detectLifecycleIssues agents events s,
      issue.code.contradiction = false :=
  detectLifecycleIssues_agree
    (stores_agree dates registry (undisturbed_of_followed hs))
    (diagnosable_of_followed hs) agents events

theorem no_false_alarm_blocked :
    ∃ t, (lifecycleSystem .epoch soloRegistry).run oneTask
        (claimAndComplete ++
          [.setRunFinalizationState "run-1" "worker"
            { finalizationState := some .blockedFinalize
              blockedReason := some "missing run worktree metadata" }]) =
          some t ∧
      t.claims.map Claim.finalizationState = [some .blockedFinalize] ∧
      ∀ issue ∈ detectLifecycleIssues ["worker"] none t,
        issue.code.contradiction = false := by
  obtain ⟨t, ht, hstate⟩ :=
    (lifecycleSystem .epoch soloRegistry).exists_run_of_map
      (f := fun t => t.claims.map Claim.finalizationState)
      (by decide +kernel : ((lifecycleSystem .epoch soloRegistry).run oneTask
        (claimAndComplete ++
          [.setRunFinalizationState "run-1" "worker"
            { finalizationState := some .blockedFinalize
              blockedReason := some "missing run worktree metadata" }])).map
          (fun t => t.claims.map Claim.finalizationState) =
            some [some .blockedFinalize])
  refine ⟨t, ht, hstate, no_false_alarm .epoch soloRegistry ?_ _ _⟩
  exact (System.ReachableUnder.initial fresh_oneTask).run
    (by decide +kernel) ht

/-- The paths as they are called, whatever the detector makes of it. -/
def PathCalled (dates : DateApi) (registry : Registry) (s : Project)
    (a : Action) : Prop :=
  Undisturbed dates registry s a ∧ pathCall a = true

instance (s : Project) (a : Action) :
    Decidable (PathCalled dates registry s a) :=
  inferInstanceAs (Decidable (Undisturbed dates registry s a ∧
    pathCall a = true))

/-- A run whose pull request is open is reported as an invalid one. -/
theorem not_no_false_alarm :
    ¬ ∀ s, (lifecycleSystem .epoch soloRegistry).ReachableUnder
        (PathCalled .epoch soloRegistry) s →
      ∀ issue ∈ detectLifecycleIssues ["worker"] (some []) s,
        issue.code.contradiction = false := by
  intro hall
  have hrun : ((lifecycleSystem .epoch soloRegistry).run oneTask
      (claimAndComplete ++
        [.setRunFinalizationState "run-1" "worker"
          { finalizationState := some .prCreated }])).map
        (fun t => (detectLifecycleIssues ["worker"] (some []) t).any
          fun issue => issue.code.contradiction) = some true := by
    decide +kernel
  obtain ⟨t, ht, halarm⟩ := Option.map_eq_some_iff.mp hrun
  obtain ⟨issue, hissue, hcode⟩ := List.any_eq_true.mp halarm
  have hquiet := hall t ((System.ReachableUnder.initial fresh_oneTask).run
    (by decide +kernel) ht) issue hissue
  rw [hcode] at hquiet
  cases hquiet

/-- So is one whose lease runs out while it waits for its merge. -/
example : ((lifecycleSystem .epoch soloRegistry).run oneTask
    (claimAndComplete ++ [.expireStaleLeases "requeue" "coordinator" 9])).map
      (fun t => (detectLifecycleIssues ["worker"] (some []) t).map
        LifecycleIssue.code) = some [.invalidFinalizationState] := by
  decide +kernel

end OrcState.Lifecycle
