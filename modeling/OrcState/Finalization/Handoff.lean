import OrcState.Coordinator.Renewal
import OrcState.Finalization.Machine
import OrcState.Lifecycle.Outcomes

/-!
# The end of a review as the worker is told to report it

After the review of its pull request the worker is told to report its work
complete once more.  The request is judged by the states from which a run may be
handed over for the first time or after a rebase, and a review is none of them.
-/

namespace OrcState.Finalization

open OrcState.Contract OrcState.Foundation OrcState.Store OrcState.Lifecycle
open OrcState.Coordinator OrcState.Foundation.Effect

variable {dates : DateApi} {cfg : CoordinatorConfig} {registry : Registry}

/-! ## A completed hand-off -/

def Label.ofHandler : Label → Bool
  | .proceed _ _ => true
  | _ => false

def ExternalCall.merges (runId : RunId) (prRef : String) : ExternalCall → Bool
  | .mergePr id ref _ => id = runId && ref = prRef
  | _ => false

def Merged (s : Project) (runId : RunId) : Prop :=
  ∃ claim, s.findClaim runId = some claim ∧ claim.state = .done ∧
    ∃ task, findTask s.backlog claim.taskRef = some task ∧ task.status = .done

/--
The request is accepted and logged, and however the handling of the logged event
comes to its end, the pull request was to be merged once, and is merged with the
run and its task done unless the host refused.
-/
def HandoffCompletes (dates : DateApi) (cfg : CoordinatorConfig)
    (registry : Registry) (w : World) (runId : RunId) (agentId : AgentId)
    (prRef time : String) : Prop :=
  ∃ p event,
    applyLifecycle dates (.runWorkComplete runId agentId) time w.project =
      (.ok (), p) ∧
    p.events.events = w.project.events.events ++ [event] ∧
    ∀ labels nowIso t, (∀ l ∈ labels, Label.ofHandler l = true) →
      (finalizationSystem dates cfg registry).run { w with project := p }
        (.deliver event nowIso :: labels) = some t → t.position = .idle →
      (t.calls.drop w.calls.length).countP
          (ExternalCall.merges runId prRef) = 1 ∧
        (ExternalCall.mergePr runId prRef true ∈ t.calls.drop w.calls.length →
          Merged t.project runId)

/-! ## The request is refused -/

theorem nextFinalizationTransition_review {claim : Claim}
    (h : claim.finalizationState = some .prReviewInProgress) :
    ∃ e, nextFinalizationTransition claim = .error e := by
  unfold nextFinalizationTransition
  rw [h]
  exact ⟨_, rfl⟩

/-- No report of a run under review is accepted, and nothing is written. -/
theorem runWorkComplete_refused (agentId : AgentId) (time : String)
    {s : Project} {runId : RunId} {claim : Claim}
    (hfind : s.findClaim runId = some claim)
    (hreview : claim.finalizationState = some .prReviewInProgress) :
    ∃ e, applyLifecycle dates (.runWorkComplete runId agentId) time s =
      (.error e, s) := by
  simp only [applyLifecycle, read_bind, ofExcept_bind]
  cases hvalid : validateProgressCommandInput
      { event := .workComplete, runId := runId, agentId := agentId }
      (s.findClaim runId) with
  | error e => exact ⟨e, rfl⟩
  | ok c =>
      obtain ⟨hfind', -⟩ := validateProgressCommandInput_ok hvalid
      obtain rfl : c = claim := by
        rw [hfind] at hfind'
        exact (Option.some.inj hfind').symm
      obtain ⟨e, hnext⟩ := nextFinalizationTransition_review hreview
      exact ⟨e, by simp only [hnext]⟩

/--
No run under review is ever completed by the report its worker is told to make:
not in any state, for any worker, whatever the host would print.
-/
theorem review_not_completed (dates : DateApi) (cfg : CoordinatorConfig)
    (registry : Registry) (w : World) (runId : RunId) (agentId : AgentId)
    (prRef time : String) (claim : Claim)
    (hfind : w.project.findClaim runId = some claim)
    (hreview : claim.finalizationState = some .prReviewInProgress) :
    ¬ HandoffCompletes dates cfg registry w runId agentId prRef time := by
  rintro ⟨p, event, happly, -⟩
  obtain ⟨e, hrefused⟩ :
      ∃ e, applyLifecycle dates (.runWorkComplete runId agentId) time w.project =
        (.error e, w.project) :=
    runWorkComplete_refused agentId time hfind hreview
  rw [hrefused] at happly
  cases happly

/-! ## A run under review -/

def prConfig : CoordinatorConfig where
  mergeStrategy := .pr
  prProvider := some "github"
  prFinalizeLeaseMs := 7200000

def pull : String := "https://git.example/pull/1"

def oneTaskWorld : World where
  project := oneTask

def proceedAll (now : Int) (answers : List Answer) : List Label :=
  answers.map fun answer => .proceed answer now

def workDone : List Label :=
  [.call (.claimTask "docs/intro" "worker" DEFAULT_LEASE_MS "run-1" (.ok ())
    0),
   .worktree "run-1",
   .call (.startRun "run-1" "worker" { time := dayDates.toISOString 1000 }
    (dayDates.toISOString 1000)),
   .call (.applyLifecycle (.runWorkComplete "run-1" "worker")
    (dayDates.toISOString 2000)),
   .deliver completeEvent (dayDates.toISOString 3000)]

def opened : List Answer := [.done, .done, .output "", .output pull]

def toReview : List Label :=
  workDone ++ proceedAll 4000 (opened ++ List.replicate 7 .done)

theorem neverFinalized_oneTask : NeverFinalized oneTaskWorld where
  project := fresh_oneTask
  calls := rfl
  worktrees := rfl
  position := rfl

set_option maxRecDepth 8000 in
theorem run_toReview :
    ∃ w claim,
      (finalizationSystem dayDates prConfig soloRegistry).run oneTaskWorld
        toReview = some w ∧
      w.project.findClaim "run-1" = some claim ∧ claim.state = .inProgress ∧
      claim.agentId = "worker" ∧ claim.prRef = some pull ∧
      claim.finalizationState = some .prReviewInProgress := by
  have hrun : ((finalizationSystem dayDates prConfig soloRegistry).run
      oneTaskWorld toReview).bind (fun w =>
        (w.project.findClaim "run-1").map fun c =>
          (c.state, c.agentId, c.prRef, c.finalizationState)) =
      some (.inProgress, "worker", some pull, some .prReviewInProgress) := by
    decide +kernel
  obtain ⟨w, hw, hclaim⟩ := Option.bind_eq_some_iff.mp hrun
  obtain ⟨claim, hfind, hparts⟩ := Option.map_eq_some_iff.mp hclaim
  obtain ⟨hstate, hparts⟩ := Prod.mk.inj hparts
  obtain ⟨hagent, hparts⟩ := Prod.mk.inj hparts
  obtain ⟨href, hreview⟩ := Prod.mk.inj hparts
  exact ⟨w, claim, hw, hfind, hstate, hagent, href, hreview⟩

theorem review_not_completed_pull :
    ∃ w, (finalizationSystem dayDates prConfig soloRegistry).Reachable w ∧
      ¬ HandoffCompletes dayDates prConfig soloRegistry w "run-1" "worker" pull
        (dayDates.toISOString 5000) := by
  obtain ⟨w, claim, hw, hfind, -, -, -, hreview⟩ := run_toReview
  exact ⟨w, (System.Reachable.initial neverFinalized_oneTask).run hw,
    review_not_completed dayDates prConfig soloRegistry w "run-1" "worker" pull
      (dayDates.toISOString 5000) claim hfind hreview⟩

/-- The worker's report is refused, and the run stays under review. -/
theorem not_handoffCompletes_pull :
    ∃ w claim, (finalizationSystem dayDates prConfig soloRegistry).run
        oneTaskWorld toReview = some w ∧
      w.project.findClaim "run-1" = some claim ∧ claim.state = .inProgress ∧
      claim.agentId = "worker" ∧ claim.prRef = some pull ∧
      claim.finalizationState = some .prReviewInProgress ∧
      (∃ e, applyLifecycle dayDates (.runWorkComplete "run-1" "worker")
        (dayDates.toISOString 5000) w.project = (.error e, w.project)) ∧
      ¬ HandoffCompletes dayDates prConfig soloRegistry w "run-1" "worker" pull
        (dayDates.toISOString 5000) := by
  obtain ⟨w, claim, hw, hfind, hstate, hagent, href, hreview⟩ := run_toReview
  obtain ⟨e, hrefused⟩ :
      ∃ e, applyLifecycle dayDates (.runWorkComplete "run-1" "worker")
        (dayDates.toISOString 5000) w.project = (.error e, w.project) :=
    runWorkComplete_refused "worker" (dayDates.toISOString 5000) hfind hreview
  refine ⟨w, claim, hw, hfind, hstate, hagent, href, hreview, ⟨e, hrefused⟩, ?_⟩
  rintro ⟨p, event, happly, -⟩
  rw [hrefused] at happly
  cases happly

end OrcState.Finalization
