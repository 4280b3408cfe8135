import OrcState.Coordinator.Reducer
import OrcState.Finalization.GitHost

/-!
# The finalization of a run

`finalizeRun` and what it calls, cut at every write, at every call of git or of
the host, and at every point where it waits.  Between two stages other parties
may move, and the coordinator may stop for good; what it reads again after a
wait and what it keeps from before is as the source has it.  Messages to workers
are sent or not, and whether they are is for the outside to say.
-/

namespace OrcState.Finalization

open OrcState.Contract OrcState.Foundation OrcState.Store OrcState.Lifecycle
open OrcState.Coordinator

structure CoordinatorConfig where
  mergeStrategy : MergeStrategy := .direct
  prProvider : Option String := none
  prPushRemote : String := "origin"
  prFinalizeLeaseMs : Int := 86400000
  deriving DecidableEq, Repr

structure RunWorktree where
  runId : RunId
  branch : String
  deriving DecidableEq, Repr

/-- What was asked of git and of the host; `none` when it threw. -/
inductive ExternalCall where
  | pushBranch (remote branch : String) (pushed : Bool)
  | createPr (runId : RunId) (branch : String) (prRef : Option String)
  | mergePr (runId : RunId) (prRef : String) (merged : Bool)
  | mergeTaskBranch (runId : RunId) (branch : String) (merged : Bool)
  | pushMain
  deriving DecidableEq, Repr

inductive Answer where
  | done
  | no
  | output (text : String)
  | failed (message : String)
  deriving DecidableEq, Repr

def Answer.message : Answer → String
  | .failed message => message
  | .done | .no | .output _ => ""

def Answer.printed : Answer → Printed
  | .done | .no => .ok ""
  | .output text => .ok text
  | .failed message => .error message

structure FinalizeArgs where
  claim : Claim
  branch : String
  eventSeq : Nat
  deriving DecidableEq

/-- Where a finalization stands: what it does next, or waits for. -/
inductive Stage where
  | viewing (prRef : String)
  | merging (prRef : String)
  | markingMerged
  | waiting
  | pushing
  | listing
  | creating
  | storingRef (prRef : String)
  | storingCreatedAt
  | markingCreated
  | extending
  | checkingSession
  | sendingReview
  | markingReview
  | checkingMain
  | mergingBranch
  | markingDone (reviewed : Bool)
  | pushingMain
  | finishing
  | notifying
  | cleaning
  | removingWorktree
  | requesting (reason : String)
  | sendingRebase (updated : Claim) (hadPending : Bool) (reason : String)
  | countingRetry (updated : Claim)
  | blocking (claim : Claim) (reason : String)
  | releasing
  deriving DecidableEq

inductive Position where
  | idle
  | reviewFailed (event : OrcEvent) (time : String)
  | finalizing (f : FinalizeArgs) (stage : Stage)
  deriving DecidableEq

structure World where
  project : Project := {}
  worktrees : List RunWorktree := []
  calls : List ExternalCall := []
  position : Position := .idle
  deriving DecidableEq

/-! ## Moves of the coordinator -/

def World.moveTo (w : World) (f : FinalizeArgs) (stage : Stage) : World :=
  { w with position := .finalizing f stage }

/-- The event is handled, or it threw and will be handled again. -/
def World.rest (w : World) : World := { w with position := .idle }

def World.log (w : World) (call : ExternalCall) : World :=
  { w with calls := w.calls ++ [call] }

def World.attempt {α : Type} (w : World) (x : Op α) (next : World → World)
    (failed : String → World → World) : World :=
  match x w.project with
  | (.ok _, p) => next { w with project := p }
  | (.error e, p) => failed e.message { w with project := p }

/-- A write whose failure is only logged. -/
def World.attemptThen {α : Type} (w : World) (x : Op α)
    (next : World → World) : World :=
  w.attempt x next fun _ w => next w

def World.branchOf (w : World) (runId : RunId) : Option String :=
  (w.worktrees.find? fun entry => entry.runId = runId).map RunWorktree.branch

def World.dropWorktree (w : World) (runId : RunId) : World :=
  { w with worktrees := w.worktrees.filter fun entry => entry.runId ≠ runId }

/-- `ensureRunWorktree` keeps the branch of an entry it finds. -/
def World.ensureRunWorktree (w : World) (runId : RunId) : World :=
  { w with
    worktrees := (w.worktrees.filter fun entry => entry.runId ≠ runId) ++
      [{ runId := runId
         branch := (w.branchOf runId).getD ("task/" ++ runId) }] }

variable (dates : DateApi) (cfg : CoordinatorConfig)

def setFinalization (claim : Claim) (state : FinalizationState)
    (retryCountDelta : Int) (blockedReason : Option String) : Op Claim :=
  setRunFinalizationState dates claim.runId claim.agentId
    { finalizationState := some state, retryCountDelta := retryCountDelta
      blockedReason := blockedReason }

def World.block (w : World) (f : FinalizeArgs) (reason : String) : World :=
  w.moveTo f (.blocking f.claim reason)

/-! ## Asking the worker to rebase -/

def requestFinalizeRebase (f : FinalizeArgs) (reason : String) (w : World) :
    World :=
  let latest := (w.project.findClaim f.claim.runId).getD f.claim
  if 2 ≤ latest.finalizationRetryCount then
    w.moveTo f (.blocking latest reason)
  else
    match setFinalization dates latest .finalizeRebaseRequested 0 none
        w.project with
    | (.ok updated, p) =>
        { w with project := p }.moveTo f (.sendingRebase updated
          (latest.finalizationState =
            some FinalizationState.finalizeRebaseRequested) reason)
    | (.error _, p) => { w with project := p }.rest

/-- After the message: a second one that is not delivered blocks the run. -/
def rebaseSent (f : FinalizeArgs) (updated : Claim) (hadPending : Bool)
    (reason : String) (answer : Answer) (w : World) : World :=
  if answer = .done then w.moveTo f (.countingRetry updated)
  else if hadPending then
    w.moveTo f (.blocking updated
      (reason ++ "; finalize request could not be delivered twice"))
  else w.rest

/-! ## The pull request -/

def resolveMergeStrategy (task : Option Task) : MergeStrategy :=
  (task.bind fun task => task.definition.mergeStrategy).getD cfg.mergeStrategy

/-- After the wait: the task is read again, the claim is not. -/
def chooseStrategy (f : FinalizeArgs) (w : World) : World :=
  match resolveMergeStrategy cfg (findTask w.project.backlog f.claim.taskRef)
  with
  | .pr =>
      if truthy cfg.prProvider then w.moveTo f .pushing
      else w.block f "merge_strategy=pr but pr_provider is not configured"
  | .direct => w.moveTo f .checkingMain

def pushTaskBranch (f : FinalizeArgs) (answer : Answer) (w : World) : World :=
  let w := w.log (.pushBranch cfg.prPushRemote f.branch (answer = .done))
  if answer = .done then w.moveTo f .listing
  else w.block f ("failed to push branch for PR: " ++ answer.message)

def World.blockCreation (w : World) (f : FinalizeArgs) (message : String) :
    World :=
  (w.log (.createPr f.claim.runId f.branch none)).block f
    ("failed to create PR: " ++ message)

def World.created (w : World) (f : FinalizeArgs) (prRef : String) : World :=
  (w.log (.createPr f.claim.runId f.branch (some prRef))).moveTo f
    (.storingRef prRef)

/-- The first half of `createPr`: an open pull request of the branch is reused. -/
def listPullRequests (f : FinalizeArgs) (answer : Answer) (w : World) : World :=
  match answer.printed with
  | .ok existing =>
      if existing ≠ "" then w.created f existing else w.moveTo f .creating
  | .error message => w.blockCreation f message

def createPullRequest (f : FinalizeArgs) (answer : Answer) (w : World) :
    World :=
  match answer.printed with
  | .ok prRef => w.created f prRef
  | .error message => w.blockCreation f message

def World.blockMerge (w : World) (f : FinalizeArgs) (prRef message : String) :
    World :=
  (w.log (.mergePr f.claim.runId prRef false)).block f
    ("PR merge failed: " ++ message)

def World.prMerged (w : World) (f : FinalizeArgs) (prRef : String) : World :=
  (w.log (.mergePr f.claim.runId prRef true)).moveTo f .markingMerged

/-- The first half of `mergePr`: a merged pull request is left as it is. -/
def viewPullRequest (f : FinalizeArgs) (prRef : String) (answer : Answer)
    (w : World) : World :=
  match answer.printed with
  | .ok state =>
      if state = "MERGED" then w.prMerged f prRef
      else w.moveTo f (.merging prRef)
  | .error message => w.blockMerge f prRef message

def mergePullRequest (f : FinalizeArgs) (prRef : String) (answer : Answer)
    (w : World) : World :=
  match answer.printed with
  | .ok _ => w.prMerged f prRef
  | .error message => w.blockMerge f prRef message

def reviewSent (f : FinalizeArgs) (answer : Answer) (w : World) : World :=
  if answer = .done then w.moveTo f .markingReview
  else w.block f ("failed to send PR_REVIEW to worker " ++ f.claim.agentId ++
    ": " ++ answer.message)

/-! ## Merging and finishing -/

def checkMain (f : FinalizeArgs) (answer : Answer) (w : World) : World :=
  match answer with
  | .done => w.moveTo f .mergingBranch
  | .no | .output _ =>
      w.moveTo f (.requesting "branch is not rebased onto latest main")
  | .failed message => w.block f message

def mergeTaskBranch (f : FinalizeArgs) (answer : Answer) (w : World) : World :=
  let w := w.log (.mergeTaskBranch f.claim.runId f.branch (answer = .done))
  if answer = .done then w.moveTo f (.markingDone false)
  else w.moveTo f (.requesting answer.message)

def markDone (f : FinalizeArgs) (reviewed : Bool) (now : String) (w : World) :
    World :=
  let next := if reviewed then Stage.finishing else .pushingMain
  if (findTask w.project.backlog f.claim.taskRef).any fun task =>
      task.status = .done then w.moveTo f next
  else
    w.attempt (markTaskDoneRuntimeOnly dates f.claim.taskRef "coordinator" now)
      (fun w => w.moveTo f next) fun message w =>
        w.block f ("failed to mark runtime task done after " ++
          (if reviewed then "PR merge: " else "merge: ") ++ message)

def finish (f : FinalizeArgs) (now : String) (w : World) : World :=
  w.attempt
    (finishRun dates f.claim.runId f.claim.agentId { time := now } now)
    (fun w => w.moveTo f .notifying) fun _ w => w.rest

/-! ## One stage -/

def advance (f : FinalizeArgs) (answer : Answer) (now : Int) (w : World) :
    Stage → World
  | .viewing prRef => viewPullRequest f prRef answer w
  | .merging prRef => mergePullRequest f prRef answer w
  | .markingMerged =>
      w.attemptThen (setFinalization dates f.claim .prMerged 0 none)
        fun w => w.moveTo f (.markingDone true)
  | .waiting => chooseStrategy cfg f w
  | .pushing => pushTaskBranch cfg f answer w
  | .listing => listPullRequests f answer w
  | .creating => createPullRequest f answer w
  | .storingRef prRef =>
      w.attempt (setPrRef dates f.claim.runId prRef)
        (fun w => w.moveTo f .storingCreatedAt)
        fun _ w => w.moveTo f .markingCreated
  | .storingCreatedAt =>
      w.attemptThen
        (setPrCreatedAt dates f.claim.runId (dates.toISOString now)
          (if 0 < f.eventSeq then some f.eventSeq else none))
        fun w => w.moveTo f .markingCreated
  | .markingCreated =>
      w.attemptThen (setFinalization dates f.claim .prCreated 0 none)
        fun w => w.moveTo f .extending
  | .extending =>
      w.attemptThen
        (renewLeaseOnly dates f.claim.runId cfg.prFinalizeLeaseMs now)
        fun w => w.moveTo f .checkingSession
  | .checkingSession =>
      if answer = .done then w.moveTo f .sendingReview
      else w.block f "worker session_handle missing at PR_REVIEW send time"
  | .sendingReview => reviewSent f answer w
  | .markingReview =>
      w.attemptThen (setFinalization dates f.claim .prReviewInProgress 0 none)
        World.rest
  | .checkingMain => checkMain f answer w
  | .mergingBranch => mergeTaskBranch f answer w
  | .markingDone reviewed => markDone dates f reviewed (dates.toISOString now) w
  | .pushingMain => (w.log .pushMain).moveTo f .finishing
  | .finishing => finish dates f (dates.toISOString now) w
  | .notifying => w.moveTo f .cleaning
  | .cleaning => w.moveTo f .removingWorktree
  | .removingWorktree =>
      if answer = .done then (w.dropWorktree f.claim.runId).rest else w.rest
  | .requesting reason => requestFinalizeRebase dates f reason w
  | .sendingRebase updated hadPending reason =>
      rebaseSent f updated hadPending reason answer w
  | .countingRetry updated =>
      w.attemptThen
        (setFinalization dates updated .finalizeRebaseRequested 1 none)
        World.rest
  | .blocking claim reason =>
      w.attempt
        (setFinalization dates claim .blockedFinalize 0 (some reason))
        (fun w => w.moveTo f .releasing) fun _ w => w.rest
  | .releasing => w.rest

/-! ## What leads to a finalization -/

def finalizeRun (claim : Claim) (eventSeq : Nat) (w : World) : World :=
  match w.branchOf claim.runId with
  | none =>
      w.block { claim := claim, branch := "", eventSeq := eventSeq }
        "missing run worktree metadata for finalization"
  | some branch =>
      let f : FinalizeArgs :=
        { claim := claim, branch := branch, eventSeq := eventSeq }
      if claim.finalizationState = some .prReviewInProgress then
        if truthy claim.prRef && truthy cfg.prProvider then
          w.moveTo f (.viewing (claim.prRef.getD ""))
        else
          w.block f
            "pr_review_in_progress but pr_ref or pr_provider is missing"
      else w.moveTo f .waiting

def stalePrHandoff (event : OrcEvent) (claim : Claim) : Bool :=
  event.event = .workComplete &&
    claim.finalizationState = some .prReviewInProgress && 0 < event.seq &&
    claim.prInitialWorkCompleteSeq = some event.seq

def toFinalize (event : OrcEvent) (s : Project) : Option Claim :=
  if event.event = .workComplete ∨ event.event = .readyToMerge then
    (if truthy event.runId then s.findClaim (event.runId.getD "")
      else none).filter fun claim =>
        claim.state = .inProgress && !stalePrHandoff event claim
  else none

def failedReview (event : OrcEvent) (nowIso : String) (s : Project) :
    Option String :=
  let claim :=
    if truthy event.runId then s.findClaim (event.runId.getD "") else none
  match reduceLifecycleEvent dates event claim nowIso with
  | .finishRun success _ _ _ time =>
      if failsReview s (event.runId.getD "") (event.agentId.getD "") success
      then some time else none
  | _ => none

def isRunEnd (event : OrcEvent) : Bool :=
  event.event = .runFinished || event.event = .runFailed

/-- The side effects of an applied event; those of the registry are left out. -/
def afterApplied (event : OrcEvent) (w : World) : World :=
  let w :=
    if isRunEnd event then w.dropWorktree (event.runId.getD "") else w
  match toFinalize event w.project with
  | some claim => finalizeRun cfg claim event.seq w
  | none => w.rest

/-- `processTerminalRunEvents` for one event, up to its first wait. -/
def processEvent (event : OrcEvent) (nowIso : String) (w : World) : World :=
  match applyEvent dates event nowIso w.project with
  | (.error _, p) => { w with project := p }
  | (.ok _, p) =>
      match failedReview dates event nowIso w.project with
      | some time =>
          { w with project := p, position := .reviewFailed event time }
      | none => afterApplied cfg event { w with project := p }

/-- The rest of a failed review once the master was told. -/
def endReview (event : OrcEvent) (time nowIso : String) (w : World) : World :=
  w.attempt (finishReview dates event time nowIso) (afterApplied cfg event)
    fun _ w => w.rest

/-- `handleFinalizationRetry` for a worker that has been silent for too long. -/
def handleFinalizationRetry (claim : Claim) (live : Bool) (w : World) : World :=
  let f : FinalizeArgs := { claim := claim, branch := "", eventSeq := 0 }
  if live then
    w.moveTo f (.requesting
      "finalization retry timed out waiting for worker progress")
  else w.block f "live agent session unavailable during finalization retry"

def retries (claim : Claim) : Bool :=
  claim.state = .inProgress &&
    (claim.finalizationState = some .finalizeRebaseRequested ||
      claim.finalizationState = some .finalizeRebaseInProgress)

/-! ## The system -/

def ofCoordinator : Action → Bool
  | .setRunFinalizationState _ _ _ | .setPrRef _ _ | .setPrCreatedAt _ _ _ =>
      true
  | _ => false

inductive Label where
  | call (a : Action)
  | worktree (runId : RunId)
  | deliver (event : OrcEvent) (nowIso : String)
  | retry (runId : RunId) (live : Bool)
  | proceed (answer : Answer) (now : Int)
  | crash

variable (registry : Registry)

/--
Calls of workers, operators and of the rest of the coordinator are made at any
time.  An event of the log is delivered whenever the coordinator is idle, also
again: it may have stopped before its cursor moved.
-/
def step (w : World) : Label → Option World
  | .call a =>
      if ofCoordinator a then none
      else some { w with project := (perform dates registry a w.project).2 }
  | .worktree runId => some (w.ensureRunWorktree runId)
  | .deliver event nowIso =>
      if w.position = .idle ∧ event ∈ w.project.events.events then
        some (processEvent dates cfg event nowIso w)
      else none
  | .retry runId live =>
      match w.position, w.project.findClaim runId with
      | .idle, some claim =>
          if retries claim then some (handleFinalizationRetry claim live w)
          else none
      | _, _ => none
  | .proceed answer now =>
      match w.position with
      | .idle => none
      | .reviewFailed event time =>
          some (endReview dates cfg event time (dates.toISOString now) w)
      | .finalizing f stage => some (advance dates cfg f answer now w stage)
  | .crash => some w.rest

structure NeverFinalized (w : World) : Prop where
  project : Fresh w.project
  calls : w.calls = []
  worktrees : w.worktrees = []
  position : w.position = .idle

def finalizationSystem : System World Label where
  initial := NeverFinalized
  step := step dates cfg registry

end OrcState.Finalization
