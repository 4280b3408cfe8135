import OrcState.Lifecycle.Session

/-!
# The durable commits of an operation

An operation that passes its checks commits to events.db and runtime.db in an
order of its own, each commit one transaction of one database.  A process that
dies leaves what some first few of them made, and a refused commit stops the
rest.
-/

namespace OrcState.Lifecycle

open OrcState.Contract OrcState.Foundation OrcState.Store
open OrcState.Foundation.Effect

inductive Commit where
  | events (x : Db Unit)
  | tasks (x : Tasks Unit)

def Commit.apply : Commit → Op Unit
  | .events x => onEvents x
  | .tasks x => onTasks x

def runCommits : List Commit → Op Unit
  | [] => pure ()
  | c :: rest => do
      c.apply
      runCommits rest

/-- What is durable when the process dies after `n` of the commits. -/
def crashState (commits : List Commit) (n : Nat) (s : Project) : Project :=
  (runCommits (commits.take n) s).2

/-! ## The commits of each operation -/

variable (dates : DateApi) (registry : Registry)

def bothCommits (claims : List Claim) (events : List OrcEvent)
    (backlog : Backlog) (changes : TaskStatusChanges) (now : String) :
    List Commit :=
  [.events (commitClaims dates claims events),
    .tasks (commitBacklog backlog changes now)]

def settleClaim (claim : Claim) (snapshot : Except DomainError Unit)
    (s : Project) : Commit :=
  match (commitNewClaim dates claim snapshot s).1 with
  | .ok _ =>
      .events (commitClaims dates (s.claims ++ [claim])
        [runEvent claim.claimedAt .claimCreated .agent claim.agentId claim
          [("lease_expires_at", .str claim.leaseExpiresAt)]])
  | .error _ =>
      .tasks (returnTask claim.taskRef claim.runId claim.agentId
        claim.claimedAt)

def claimCommits (claim : Claim) (snapshot : Except DomainError Unit)
    (s : Project) : List Commit :=
  [.tasks do
      let _ ← TaskStore.claimTask claim.taskRef claim.runId claim.agentId
        claim.claimedAt
      pure (),
    settleClaim dates claim snapshot s]

def claimTask.commits (ref : TaskRef) (agentId : AgentId)
    (leaseDurationMs : Int) (runId : RunId)
    (snapshot : Except DomainError Unit) (now : Int) (s : Project) :
    List Commit :=
  Option.getD (do
    let task ← findTask s.backlog ref
    guard (task.status = .todo)
    guard (¬ (truthy task.owner = true ∧ task.owner ≠ some agentId))
    let _ ← (unclaimed s ref).toOption
    pure (claimCommits dates
      (newClaim runId ref agentId (dates.toISOString now)
        (dates.toISOString (now + leaseDurationMs))) snapshot s)) []

def startCommits (claim : Claim) (agentId : AgentId) (o : StartOptions)
    (now : String) (s : Project) : List Commit :=
  let claims := mutateClaim s.claims claim.runId (startClaim o.time)
  let actorId := o.actorId.getD agentId
  let events :=
    if o.emitEvent then
      [runEvent o.time .runStarted o.actorType actorId claim []]
    else []
  match findTask s.backlog claim.taskRef with
  | none => [.events (commitClaims dates claims events)]
  | some _ =>
      bothCommits dates claims events
        (mutateTask s.backlog claim.taskRef fun task =>
          { task with status := .inProgress })
        [(claim.taskRef,
          { cause := .runStart, runId := some claim.runId
            actorId := some actorId })] now

def startRun.commits (runId : RunId) (agentId : AgentId) (o : StartOptions)
    (now : String) (s : Project) : List Commit :=
  Option.getD (do
    let claim ← (ownClaim s runId agentId).toOption
    guard (claim.state = .claimed)
    guard ((dates.parse o.time).isSome = true)
    pure (startCommits dates claim agentId o now s)) []

def finishCommits (claim : Claim) (agentId : AgentId) (o : FinishOptions)
    (now : String) (s : Project) : List Commit :=
  let claims := mutateClaim s.claims claim.runId (finishClaim o)
  let events := finishEvents claim agentId o
  match taskOfRun s claim with
  | none => [.events (commitClaims dates claims events)]
  | some task =>
      let finished := finishTask dates o task
      bothCommits dates claims events
        (mutateTask s.backlog claim.taskRef fun _ => finished)
        (if finished.status = task.status then []
        else
          [(claim.taskRef,
            { cause := finishCause finished, runId := some claim.runId
              actorId := some agentId, reason := finishReason o finished })])
        now

def finishRun.commits (runId : RunId) (agentId : AgentId) (o : FinishOptions)
    (now : String) (s : Project) : List Commit :=
  Option.getD (do
    let claim ← (ownClaim s runId agentId).toOption
    guard ((dates.parse o.time).isSome = true)
    if claim.active then pure (finishCommits dates claim agentId o now s)
    else if staleTerminal o claim then
      pure [.events (commitClaims dates
        (mutateClaim s.claims runId clearFinalization) [])]
    else none) []

def expireStaleLeases.commits (policy : String) (actorId : AgentId)
    (now : Int) (s : Project) : List Commit :=
  let acc := s.claims.foldl (Expiry.visit dates policy actorId now)
    { backlog := s.backlog }
  if acc.expired = [] then []
  else
    bothCommits dates acc.claims
      (acc.expired.map (expiryEvent dates policy actorId now)) acc.backlog
      acc.changes (dates.toISOString now)

def expireRun.commits (runId : RunId) (actorId : AgentId) (now : String)
    (s : Project) : List Commit :=
  Option.getD (do
    guard (runId ≠ "")
    let claim ← s.findClaim runId
    guard (claim.active = true)
    let task ← findTask s.backlog claim.taskRef
    guard (task.status.terminal = false)
    pure (bothCommits dates (mutateClaim s.claims runId (expireRunClaim now))
      [runEvent now .claimExpired (actorTypeOf actorId) actorId claim
        [("reason", .str "manual_expire"), ("policy", .str "requeue")]]
      (mutateTask s.backlog claim.taskRef fun task =>
        { task with status := .todo })
      [(claim.taskRef,
        { cause := .failureRequeue, runId := some runId
          actorId := some actorId, reason := some "manual_expire" })] now)) []

def cancelCommits (ref : TaskRef) (reason : Option String) (actorId : AgentId)
    (now : String) (s : Project) : List Commit :=
  (if activeClaimsFor s ref = [] then []
    else
      [.events (commitClaims dates
        (s.claims.filter fun c => !(c.taskRef = ref && c.active))
        ((activeClaimsFor s ref).map fun removed =>
          runEvent now .runCancelled (actorTypeOf actorId) actorId removed
            [("reason", nullable reason)]))]) ++
    [.tasks (commitBacklog
      (mutateTask s.backlog ref fun task =>
        { task with status := .cancelled, blockedReason := none })
      [(ref, { cause := .cancel, actorId := some actorId, reason := reason })]
      now),
    .events (appendSequencedEvent dates
      (cancelledEvent ref reason actorId now (activeClaimsFor s ref)))]

def cancelTask.commits (ref : TaskRef) (reason : Option String)
    (actorId : AgentId) (now : String) (s : Project) : List Commit :=
  Option.getD (do
    guard (ref ≠ "")
    guard (agentIdRe actorId = true)
    guard (¬ (actorId ≠ "human" ∧ actorId ∉ registry.agents))
    let task ← findTask s.backlog ref
    guard (task.status.terminal = false)
    pure (cancelCommits dates ref reason actorId now s)) []

def resetTask.commits (ref : TaskRef) (actorId : AgentId) (now : String)
    (s : Project) : List Commit :=
  Option.getD (do
    guard (ref ≠ "")
    guard (agentIdRe actorId = true)
    let task ← findTask s.backlog ref
    pure (bothCommits dates
      (mutateClaims s.claims (fun c => c.taskRef = ref && c.active)
        (resetClaim now))
      (resetEvents s ref actorId task now)
      (mutateTask s.backlog ref resetEntry) (resetChanges ref actorId task)
      now)) []

def resetVolatileRuntimeStateForSession.commits (now : String) (s : Project) :
    List Commit :=
  [.tasks (commitBacklog (s.backlog.map sessionResetTask)
      (sessionResetChanges s.backlog) now),
    .events (commitClaims dates
      (mutateClaims s.claims Claim.active (sessionResetClaim now))
      ((s.claims.filter Claim.active).map (sessionResetEvent now)))]

/-! ## The operations -/

inductive Operation where
  | claimTask (ref : TaskRef) (agentId : AgentId) (leaseDurationMs : Int)
      (runId : RunId) (snapshot : Except DomainError Unit) (now : Int)
  | startRun (runId : RunId) (agentId : AgentId) (o : StartOptions)
      (now : String)
  | finishRun (runId : RunId) (agentId : AgentId) (o : FinishOptions)
      (now : String)
  | expireStaleLeases (policy : String) (actorId : AgentId) (now : Int)
  | expireRun (runId : RunId) (actorId : AgentId) (now : String)
  | cancelTask (ref : TaskRef) (reason : Option String) (actorId : AgentId)
      (now : String)
  | resetTask (ref : TaskRef) (actorId : AgentId) (now : String)
  | resetVolatileRuntimeStateForSession (now : String)

def Operation.after (s : Project) : Operation → Project
  | .claimTask ref agentId lease runId snapshot now =>
      (Lifecycle.claimTask dates ref agentId lease runId snapshot now s).2
  | .startRun runId agentId o now =>
      (Lifecycle.startRun dates runId agentId o now s).2
  | .finishRun runId agentId o now =>
      (Lifecycle.finishRun dates runId agentId o now s).2
  | .expireStaleLeases policy actorId now =>
      (Lifecycle.expireStaleLeases dates policy actorId now s).2
  | .expireRun runId actorId now =>
      (Lifecycle.expireRun dates runId actorId now s).2
  | .cancelTask ref reason actorId now =>
      (Lifecycle.cancelTask dates registry ref reason actorId now s).2
  | .resetTask ref actorId now =>
      (Lifecycle.resetTask dates ref actorId now s).2
  | .resetVolatileRuntimeStateForSession now =>
      (Lifecycle.resetVolatileRuntimeStateForSession dates now s).2

def Operation.commits (s : Project) : Operation → List Commit
  | .claimTask ref agentId lease runId snapshot now =>
      claimTask.commits dates ref agentId lease runId snapshot now s
  | .startRun runId agentId o now =>
      startRun.commits dates runId agentId o now s
  | .finishRun runId agentId o now =>
      finishRun.commits dates runId agentId o now s
  | .expireStaleLeases policy actorId now =>
      expireStaleLeases.commits dates policy actorId now s
  | .expireRun runId actorId now => expireRun.commits dates runId actorId now s
  | .cancelTask ref reason actorId now =>
      cancelTask.commits dates registry ref reason actorId now s
  | .resetTask ref actorId now => resetTask.commits dates ref actorId now s
  | .resetVolatileRuntimeStateForSession now =>
      resetVolatileRuntimeStateForSession.commits dates now s

/-! ## The commits make the operation -/

variable {dates : DateApi} {registry : Registry}

theorem runCommits_single (c : Commit) (s : Project) :
    runCommits [c] s = c.apply s := by
  simp only [runCommits, bind_apply]
  split <;> simp_all

theorem runCommits_pair (c d : Commit) :
    runCommits [c, d] = c.apply >>= fun _ => d.apply := by
  funext s
  simp only [runCommits.eq_2 c, bind_apply, runCommits_single]

theorem runCommits_both (claims : List Claim) (events : List OrcEvent)
    (backlog : Backlog) (changes : TaskStatusChanges) (now : String)
    (s : Project) :
    runCommits (bothCommits dates claims events backlog changes now) s =
      commitBoth dates claims events backlog changes now s := by
  rw [bothCommits, runCommits_pair]
  rfl

theorem commitStart_commits (claim : Claim) (agentId : AgentId)
    (o : StartOptions) (now : String) (s : Project) :
    runCommits (startCommits dates claim agentId o now s) s =
      commitStart dates claim agentId o now s s := by
  unfold startCommits commitStart
  cases findTask s.backlog claim.taskRef with
  | none => exact runCommits_single _ s
  | some task => exact runCommits_both _ _ _ _ _ s

theorem commitFinish_commits (claim : Claim) (agentId : AgentId)
    (o : FinishOptions) (now : String) (s : Project) :
    runCommits (finishCommits dates claim agentId o now s) s =
      commitFinish dates claim agentId o now s s := by
  unfold finishCommits commitFinish
  cases taskOfRun s claim with
  | none => exact runCommits_single _ s
  | some task => exact runCommits_both _ _ _ _ _ s

theorem startRun_commits (runId : RunId) (agentId : AgentId) (o : StartOptions)
    (now : String) (s : Project) :
    (runCommits (startRun.commits dates runId agentId o now s) s).2 =
      (startRun dates runId agentId o now s).2 := by
  unfold startRun.commits startRun assertValidTimestamp
  rw [read_bind, ofExcept_bind]
  cases ownClaim s runId agentId with
  | error e => rfl
  | ok claim =>
      simp only [Except.toOption, Option.bind_eq_bind, Option.bind_some]
      cases claim.state with
      | claimed =>
          cases dates.parse o.time with
          | none => simp [guard, runCommits]
          | some time => simp [guard, commitStart_commits]
      | inProgress | done | failed => simp [guard, runCommits]

theorem finishRun_commits (runId : RunId) (agentId : AgentId)
    (o : FinishOptions) (now : String) (s : Project) :
    (runCommits (finishRun.commits dates runId agentId o now s) s).2 =
      (finishRun dates runId agentId o now s).2 := by
  unfold finishRun.commits finishRun assertValidTimestamp
  rw [read_bind, ofExcept_bind]
  cases ownClaim s runId agentId with
  | error e => rfl
  | ok claim =>
      simp only [Except.toOption, Option.bind_eq_bind, Option.bind_some]
      cases dates.parse o.time with
      | none => simp [guard, runCommits]
      | some time =>
          simp only [throwIf_bind, Option.isNone_some, Option.isSome_some,
            Bool.false_eq_true, if_false, guard, if_true, Option.pure_def,
            Option.bind_some]
          cases claim.active with
          | true => simp [commitFinish_commits]
          | false =>
              cases staleTerminal o claim with
              | true => simp [runCommits_single, Commit.apply]
              | false => simp [runCommits]

theorem expireStaleLeases_commits (policy : String) (actorId : AgentId)
    (now : Int) (s : Project) :
    (runCommits (expireStaleLeases.commits dates policy actorId now s) s).2 =
      (expireStaleLeases dates policy actorId now s).2 := by
  simp only [expireStaleLeases.commits, expireStaleLeases, read_bind]
  split
  · rfl
  · rw [runCommits_both, result_snd]

theorem expireRun_commits (runId : RunId) (actorId : AgentId) (now : String)
    (s : Project) :
    (runCommits (expireRun.commits dates runId actorId now s) s).2 =
      (expireRun dates runId actorId now s).2 := by
  unfold expireRun.commits expireRun
  rw [throwIf_bind]
  by_cases hid : runId = ""
  · simp [guard, hid, runCommits]
  simp only [hid, if_false, guard, ne_eq, not_false_eq_true, if_true, read_bind,
    orThrow_bind, Option.bind_eq_bind, Option.pure_def, Option.bind_some]
  cases s.findClaim runId with
  | none => rfl
  | some claim =>
      simp only [Option.bind_some, throwIf_bind]
      cases hactive : claim.active with
      | false => simp [failure, runCommits]
      | true =>
          simp only [reduceCtorEq, if_false, if_true, Option.bind_some,
            orThrow_bind]
          cases findTask s.backlog claim.taskRef with
          | none => rfl
          | some task =>
              simp only [Option.bind_some, throwIf_bind]
              cases hterminal : task.status.terminal with
              | true => simp [failure, runCommits]
              | false => simp [runCommits_both]

theorem resetTask_commits (ref : TaskRef) (actorId : AgentId) (now : String)
    (s : Project) :
    (runCommits (resetTask.commits dates ref actorId now s) s).2 =
      (resetTask dates ref actorId now s).2 := by
  unfold resetTask.commits resetTask requireActor requireTask
  rw [throwIf_bind]
  by_cases href : ref = ""
  · simp [guard, href, runCommits]
  simp only [href, if_false, guard, ne_eq, not_false_eq_true, if_true,
    throwIf_bind, Option.bind_eq_bind, Option.pure_def, Option.bind_some]
  cases agentIdRe actorId with
  | false => simp [runCommits]
  | true =>
      simp only [reduceCtorEq, if_false, if_true, Option.bind_some, read_bind,
        orThrow_bind]
      cases findTask s.backlog ref with
      | none => rfl
      | some task =>
          rw [Option.bind_some, Option.getD_some, runCommits_both, result_snd]
          rfl

theorem cancelTask_commits (ref : TaskRef) (reason : Option String)
    (actorId : AgentId) (now : String) (s : Project) :
    (runCommits (cancelTask.commits dates registry ref reason actorId now s)
      s).2 = (cancelTask dates registry ref reason actorId now s).2 := by
  have hcommit : runCommits (cancelCommits dates ref reason actorId now s) s =
      commitCancel dates ref reason actorId now s s := by
    unfold cancelCommits commitCancel cancelClaims
    split
    · rw [List.nil_append, runCommits_pair]
      rfl
    · rw [List.singleton_append, runCommits.eq_2 (.events _), runCommits_pair]
      rfl
  unfold cancelTask.commits cancelTask requireActor requireRegistered requireTask
  rw [throwIf_bind]
  by_cases href : ref = ""
  · simp [guard, href, runCommits]
  simp only [href, if_false, guard, ne_eq, not_false_eq_true, if_true,
    throwIf_bind, Option.bind_eq_bind, Option.pure_def, Option.bind_some]
  cases agentIdRe actorId with
  | false => simp [runCommits]
  | true =>
      simp only [reduceCtorEq, if_false, if_true, Option.bind_some]
      by_cases hactor : actorId ≠ "human" ∧ actorId ∉ registry.agents
      · simp [hactor, runCommits]
      · simp only [hactor, if_false, not_false_eq_true, if_true,
          Option.bind_some, read_bind, orThrow_bind]
        cases findTask s.backlog ref with
        | none => rfl
        | some task =>
            cases hterminal : task.status.terminal with
            | true => simp [hterminal, runCommits]
            | false => simp [hterminal, hcommit, result_snd]

theorem resetVolatileRuntimeStateForSession_commits (now : String)
    (s : Project) :
    (runCommits (resetVolatileRuntimeStateForSession.commits dates now s) s).2 =
      (resetVolatileRuntimeStateForSession dates now s).2 := by
  unfold resetVolatileRuntimeStateForSession.commits
    resetVolatileRuntimeStateForSession
  rw [runCommits_pair, read_bind, bind_apply, bind_apply]
  dsimp only [Commit.apply]
  split
  · rw [result_snd]
  · rfl

theorem onEvents_setTasks {α : Type} (x : Db α) (s : Project) (ts : TaskStore) :
    onEvents x (s.setTasks ts) =
      ((onEvents x s).1, (onEvents x s).2.setTasks ts) := by
  unfold onEvents atomically
  rw [setTasks_events]
  cases x s.events <;> rfl

theorem onTasks_discard {α : Type} (x : Tasks α) (s : Project) :
    onTasks (do let _ ← x; pure ()) s =
      ((onTasks x s).1.map fun _ => (), (onTasks x s).2) := by
  have hbind : (do let _ ← x; pure () : Tasks Unit) s.tasks =
      (x s.tasks).map fun p => ((), p.2) := by
    change (x s.tasks >>= fun p => Except.ok ((), p.2)) = _
    cases x s.tasks <;> rfl
  unfold onTasks atomically
  rw [hbind]
  cases x s.tasks <;> rfl

theorem commitNewClaim_setTasks (claim : Claim)
    (snapshot : Except DomainError Unit) (s : Project) (ts : TaskStore) :
    commitNewClaim dates claim snapshot (s.setTasks ts) =
      ((commitNewClaim dates claim snapshot s).1,
        (commitNewClaim dates claim snapshot s).2.setTasks ts) := by
  unfold commitNewClaim
  rw [ofExcept_bind, ofExcept_bind]
  cases snapshot with
  | error e => rfl
  | ok u => exact onEvents_setTasks _ s ts

theorem settleClaim_apply (claim : Claim) (snapshot : Except DomainError Unit)
    (s : Project) (ts : TaskStore) :
    ((settleClaim dates claim snapshot s).apply (s.setTasks ts)).2 =
      (Effect.catching (commitNewClaim dates claim snapshot) (fun error => do
        onTasks (returnTask claim.taskRef claim.runId claim.agentId
          claim.claimedAt)
        Effect.ofExcept (.error error)) (s.setTasks ts)).2 := by
  unfold catching settleClaim
  rw [commitNewClaim_setTasks]
  unfold commitNewClaim
  rw [ofExcept_bind]
  have hreturn : ∀ (e : DomainError) (m : Project),
      (onTasks (returnTask claim.taskRef claim.runId claim.agentId
        claim.claimedAt) m).2 =
      ((onTasks (returnTask claim.taskRef claim.runId claim.agentId
        claim.claimedAt) >>= fun _ =>
          (Effect.ofExcept (.error e) : Op Unit)) m).2 := by
    intro e m
    rw [bind_apply]
    split <;> simp_all [Effect.ofExcept]
  cases snapshot with
  | error e => exact hreturn e _
  | ok u =>
      dsimp only
      rw [read_bind]
      cases hnew : onEvents (commitClaims dates (s.claims ++ [claim])
          [runEvent claim.claimedAt .claimCreated .agent claim.agentId claim
            [("lease_expires_at", .str claim.leaseExpiresAt)]]) s with
      | mk r t =>
          rcases onEvents_cases hnew with ⟨e, rfl, rfl⟩ | ⟨⟨⟩, db, -, rfl, rfl⟩
          · exact hreturn e _
          · dsimp only [Commit.apply]
            rw [onEvents_setTasks, hnew]

theorem claimCommits_run (claim : Claim) (snapshot : Except DomainError Unit)
    (s : Project) :
    (runCommits (claimCommits dates claim snapshot s) s).2 =
      ((onTasks (TaskStore.claimTask claim.taskRef claim.runId claim.agentId
        claim.claimedAt) >>= fun _ =>
          Effect.catching (commitNewClaim dates claim snapshot) fun error => do
            onTasks (returnTask claim.taskRef claim.runId claim.agentId
              claim.claimedAt)
            Effect.ofExcept (.error error)) s).2 := by
  have hfirst := onTasks_discard (TaskStore.claimTask claim.taskRef claim.runId
    claim.agentId claim.claimedAt) s
  unfold claimCommits
  rw [runCommits_pair, bind_apply, bind_apply, Commit.apply, hfirst]
  cases hheld : onTasks (TaskStore.claimTask claim.taskRef claim.runId
      claim.agentId claim.claimedAt) s with
  | mk r m =>
      rcases onTasks_cases hheld with ⟨e, rfl, rfl⟩ | ⟨pinned, ts, -, rfl, rfl⟩
      · rfl
      · exact settleClaim_apply claim snapshot s ts

theorem claimTask_commits (ref : TaskRef) (agentId : AgentId) (lease : Int)
    (runId : RunId) (snapshot : Except DomainError Unit) (now : Int)
    (s : Project) :
    (runCommits (claimTask.commits dates ref agentId lease runId snapshot now s)
      s).2 = (claimTask dates ref agentId lease runId snapshot now s).2 := by
  unfold claimTask.commits claimTask
  rw [read_bind, orThrow_bind]
  cases findTask s.backlog ref with
  | none => rfl
  | some task =>
      simp only [Option.bind_eq_bind, Option.bind_some, throwIf_bind]
      by_cases hstatus : task.status = .todo
      · by_cases howner : truthy task.owner = true ∧ task.owner ≠ some agentId
        · simp [guard, hstatus, howner, runCommits]
        · cases hfree : unclaimed s ref with
          | error e => simp [guard, hstatus, howner, Except.toOption, runCommits]
          | ok u =>
              simp only [guard, hstatus, howner, Except.toOption, ne_eq,
                not_true_eq_false, if_false, if_true, not_false_eq_true,
                Option.pure_def, Option.bind_some, Option.getD_some,
                ofExcept_bind]
              rw [claimCommits_run, bind_apply, bind_apply]
              dsimp only [newClaim]
              split
              · rw [result_snd]
              · rfl
      · simp [guard, hstatus, runCommits]

theorem Operation.commits_after (s : Project) (op : Operation) :
    (runCommits (op.commits dates registry s) s).2 =
      op.after dates registry s := by
  cases op with
  | claimTask ref agentId lease runId snapshot now =>
      exact claimTask_commits ref agentId lease runId snapshot now s
  | startRun runId agentId o now => exact startRun_commits runId agentId o now s
  | finishRun runId agentId o now =>
      exact finishRun_commits runId agentId o now s
  | expireStaleLeases policy actorId now =>
      exact expireStaleLeases_commits policy actorId now s
  | expireRun runId actorId now => exact expireRun_commits runId actorId now s
  | cancelTask ref reason actorId now =>
      exact cancelTask_commits ref reason actorId now s
  | resetTask ref actorId now => exact resetTask_commits ref actorId now s
  | resetVolatileRuntimeStateForSession now =>
      exact resetVolatileRuntimeStateForSession_commits now s

end OrcState.Lifecycle
