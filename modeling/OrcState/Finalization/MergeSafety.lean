import OrcState.Finalization.Graph

/-!
# What is stored when a branch or a pull request is merged

The claim that a finalization works on was read before its waits.  It is the
stored one up to the merge if no other party ends the run while the coordinator
waits, and if the finalization went on from a state that says the branch may be
merged.
-/

namespace OrcState.Finalization

open OrcState.Contract OrcState.Foundation OrcState.Store OrcState.Lifecycle
open OrcState.Coordinator OrcState.Foundation.Effect

variable {dates : DateApi} {cfg : CoordinatorConfig} {registry : Registry}

/-! ## Merges -/

def mayMerge : Option FinalizationState → Bool
  | some .awaitingFinalize | some .readyToMerge => true
  | _ => false

def underReview : Option FinalizationState → Bool
  | some .prReviewInProgress => true
  | _ => false

def ExternalCall.merged :
    ExternalCall → Option (RunId × (Option FinalizationState → Bool))
  | .mergeTaskBranch runId _ _ => some (runId, mayMerge)
  | .mergePr runId _ _ => some (runId, underReview)
  | _ => none

/-- The run is in progress in such a state, and its task is still to be merged. -/
def Mergeable (s : Project) (runId : RunId)
    (P : Option FinalizationState → Bool) : Prop :=
  ∃ c, s.findClaim runId = some c ∧ c.state = .inProgress ∧
    P c.finalizationState = true ∧
    ∃ task, findTask s.backlog c.taskRef = some task ∧
      task.status ≠ .cancelled ∧ task.status ≠ .blocked ∧ task.status ≠ .todo

/-- Whatever a step merges, it finds mergeable. -/
def MergeSafe (w w' : World) : Prop :=
  ∀ call runId P, w'.calls = w.calls ++ [call] →
    call.merged = some (runId, P) → Mergeable w.project runId P

/-! ## The condition -/

/-- The states a merge that may lie ahead of the stage needs. -/
def Stage.needs : Stage → Option (Option FinalizationState → Bool)
  | .viewing _ | .merging _ => some underReview
  | .waiting => some fun _ => true
  | .checkingMain | .mergingBranch => some mayMerge
  | _ => none

/--
No other party ends the run between the start of its finalization and its merge,
and the direct path is taken only by a run that may be merged.
-/
def Undisturbed (dates : DateApi) (cfg : CoordinatorConfig)
    (registry : Registry) (w : World) : Label → Prop
  | .call a =>
      match w.position with
      | .finalizing f stage =>
          stage.needs.isSome = true → w.project.live f.claim.runId = true →
            (perform dates registry a w.project).2.live f.claim.runId = true
      | _ => True
  | .proceed _ _ =>
      match w.position with
      | .finalizing f .waiting =>
          resolveMergeStrategy cfg
              (findTask w.project.backlog f.claim.taskRef) = .direct →
            ∀ c ∈ w.project.findClaim f.claim.runId, c.active = true →
              mayMerge c.finalizationState = true
      | _ => True
  | _ => True

def undisturbed (dates : DateApi) (cfg : CoordinatorConfig)
    (registry : Registry) (w : World) : Label → Bool
  | .call a =>
      match w.position with
      | .finalizing f stage =>
          !stage.needs.isSome || !w.project.live f.claim.runId ||
            (perform dates registry a w.project).2.live f.claim.runId
      | _ => true
  | .proceed _ _ =>
      match w.position with
      | .finalizing f .waiting =>
          resolveMergeStrategy cfg
              (findTask w.project.backlog f.claim.taskRef) ≠ .direct ||
            (w.project.findClaim f.claim.runId).all fun c =>
              !c.active || mayMerge c.finalizationState
      | _ => true
  | _ => true

theorem undisturbed_iff (w : World) (l : Label) :
    undisturbed dates cfg registry w l = true ↔
      Undisturbed dates cfg registry w l := by
  cases l with
  | call a =>
      simp only [undisturbed, Undisturbed]
      split
      · simp only [Bool.or_eq_true, Bool.not_eq_true', imp_iff_not_or,
          Bool.not_eq_true, or_assoc]
      · simp
  | proceed answer now =>
      simp only [undisturbed, Undisturbed]
      split
      · simp [imp_iff_not_or, Option.all_eq_true]
      · simp
  | _ => simp [undisturbed, Undisturbed]

instance (w : World) (l : Label) :
    Decidable (Undisturbed dates cfg registry w l) :=
  decidable_of_iff _ (undisturbed_iff w l)

/-- A merge that lies ahead finds its run as it needs it. -/
structure Poised (w : World) : Prop where
  sound : Sound w.project
  ahead : ∀ f stage P, w.position = .finalizing f stage →
    stage.needs = some P → w.project.live f.claim.runId = true ∧
      Going f.claim (fun s => P s = true) w.project

/-! ## What is merged -/

theorem Going.mergeable {s : Project} {claim : Claim}
    {P : Option FinalizationState → Bool}
    (h : Going claim (fun fin => P fin = true) s) (hs : Sound s)
    (hlive : s.live claim.runId = true) : Mergeable s claim.runId P := by
  obtain ⟨c, hc, hid, hactive⟩ := live_iff.mp hlive
  obtain ⟨hstate, -, hP⟩ := h.stored c hc hid hactive
  obtain ⟨status, hstatus, hheld⟩ := hs.held c hc hactive
  obtain ⟨task, htask, rfl⟩ := findTask_of_statusAt hstatus
  refine ⟨c, Table.find?_eq_some.mpr ⟨hc, hid⟩, hstate, hP, task, htask, ?_⟩
  refine ⟨fun h => ?_, fun h => ?_, fun h => ?_⟩ <;>
    rw [h] at hheld <;> rcases hheld with hheld | hheld <;> cases hheld

/-- Only the stages of a merge do one, each for the run of its claim. -/
theorem advance_merged {f : FinalizeArgs} {stage : Stage} {w : World}
    {answer : Answer} {now : Int} {call : ExternalCall}
    {runId : RunId} {P : Option FinalizationState → Bool}
    (hcall : (advance dates cfg f answer now w stage).calls =
      w.calls ++ [call])
    (hmerged : call.merged = some (runId, P)) :
    runId = f.claim.runId ∧ stage.needs = some P := by
  have hsame : ∀ {calls : List ExternalCall}, calls = w.calls →
      calls = w.calls ++ [call] → False := by
    intro calls hkept hnew
    rw [hkept] at hnew
    simp at hnew
  have hlogged : ∀ {x : ExternalCall},
      w.calls ++ [x] = w.calls ++ [call] → x = call := by
    intro x hx
    simpa using hx
  cases stage with
  | viewing prRef =>
      simp only [advance, viewPullRequest] at hcall
      split at hcall
      · split at hcall
        · obtain rfl := hlogged hcall
          cases hmerged
          exact ⟨rfl, rfl⟩
        · exact (hsame rfl hcall).elim
      · obtain rfl := hlogged hcall
        cases hmerged
        exact ⟨rfl, rfl⟩
  | merging prRef =>
      simp only [advance, mergePullRequest] at hcall
      split at hcall
      · obtain rfl := hlogged hcall
        cases hmerged
        exact ⟨rfl, rfl⟩
      · obtain rfl := hlogged hcall
        cases hmerged
        exact ⟨rfl, rfl⟩
  | mergingBranch =>
      simp only [advance, mergeTaskBranch] at hcall
      split at hcall
      · obtain rfl := hlogged hcall
        cases hmerged
        exact ⟨rfl, rfl⟩
      · obtain rfl := hlogged hcall
        cases hmerged
        exact ⟨rfl, rfl⟩
  | pushing =>
      simp only [advance, pushTaskBranch] at hcall
      split at hcall
      · obtain rfl := hlogged hcall
        cases hmerged
      · obtain rfl := hlogged hcall
        cases hmerged
  | listing =>
      simp only [advance, listPullRequests] at hcall
      split at hcall
      · split at hcall
        · obtain rfl := hlogged hcall
          cases hmerged
        · exact (hsame rfl hcall).elim
      · obtain rfl := hlogged hcall
        cases hmerged
  | creating =>
      simp only [advance, createPullRequest] at hcall
      split at hcall
      · obtain rfl := hlogged hcall
        cases hmerged
      · obtain rfl := hlogged hcall
        cases hmerged
  | pushingMain =>
      obtain rfl := hlogged hcall
      cases hmerged
  | _ =>
      refine (hsame ?_ hcall).elim
      simp only [advance, chooseStrategy, reviewSent, checkMain, rebaseSent,
        requestFinalizeRebase, markDone, finish, World.attemptThen,
        World.attempt]
      repeat' split
      all_goals rfl

theorem Poised.safe {w w' : World} {l : Label} (h : Poised w)
    (hstep : step dates cfg registry w l = some w') : MergeSafe w w' := by
  intro call runId P hcall hmerged
  have hnone : w.calls ≠ w.calls ++ [call] := by simp
  cases step_stepped hstep with
  | worktree runId => exact absurd hcall hnone
  | quiet p worktrees position hworktrees hposition => exact absurd hcall hnone
  | stage f stage answer now hl hposition =>
      obtain ⟨rfl, hneeds⟩ := advance_merged hcall hmerged
      obtain ⟨hlive, hgoing⟩ := h.ahead f stage P hposition hneeds
      exact hgoing.mergeable h.sound hlive

/-! ## What leads to a merge -/

theorem advance_needs {f f' : FinalizeArgs} {stage stage' : Stage} {w : World}
    {answer : Answer} {now : Int} {P : Option FinalizationState → Bool}
    (hnext : (advance dates cfg f answer now w stage).position =
      .finalizing f' stage') (hneeds : stage'.needs = some P) :
    f' = f ∧ (advance dates cfg f answer now w stage).project = w.project ∧
      (stage.needs = some P ∨
        stage = .waiting ∧ P = mayMerge ∧
          resolveMergeStrategy cfg
            (findTask w.project.backlog f.claim.taskRef) = .direct) := by
  cases stage with
  | waiting =>
      have hproject : (advance dates cfg f answer now w .waiting).project =
          w.project := advance_project soloRegistry f answer now w .waiting
      simp only [advance, chooseStrategy] at hnext
      split at hnext
      · split at hnext <;> cases hnext <;> cases hneeds
      · rename_i hdirect
        cases hnext
        cases hneeds
        exact ⟨rfl, hproject, .inr ⟨rfl, rfl, hdirect⟩⟩
  | viewing prRef =>
      have hproject :
          (advance dates cfg f answer now w (.viewing prRef)).project =
            w.project :=
        advance_project soloRegistry f answer now w (.viewing prRef)
      simp only [advance, viewPullRequest] at hnext
      split at hnext
      · split at hnext
        · cases hnext
          cases hneeds
        · cases hnext
          cases hneeds
          exact ⟨rfl, hproject, .inl rfl⟩
      · cases hnext
        cases hneeds
  | checkingMain =>
      have hproject :
          (advance dates cfg f answer now w .checkingMain).project =
            w.project :=
        advance_project soloRegistry f answer now w .checkingMain
      simp only [advance, checkMain] at hnext
      split at hnext
      · cases hnext
        cases hneeds
        exact ⟨rfl, hproject, .inl rfl⟩
      · cases hnext
        cases hneeds
      · cases hnext
        cases hneeds
      · cases hnext
        cases hneeds
  | markingDone reviewed =>
      simp only [advance, markDone, World.attempt] at hnext
      cases reviewed <;> repeat' split at hnext
      all_goals
        cases hnext
        cases hneeds
  | _ =>
      simp only [advance, mergePullRequest, pushTaskBranch, listPullRequests,
        createPullRequest, reviewSent, mergeTaskBranch, rebaseSent,
        requestFinalizeRebase, finish, World.attemptThen,
        World.attempt] at hnext
      repeat' split at hnext
      all_goals
        cases hnext
        try cases hneeds

theorem finalizeRun_needs {claim : Claim} {eventSeq : Nat} {w : World}
    {f : FinalizeArgs} {stage : Stage} {P : Option FinalizationState → Bool}
    (h : (finalizeRun cfg claim eventSeq w).position = .finalizing f stage)
    (hneeds : stage.needs = some P) :
    f.claim = claim ∧ P claim.finalizationState = true := by
  unfold finalizeRun at h
  split at h
  · cases h
    cases hneeds
  · dsimp only at h
    split at h
    · rename_i hreview
      split at h
      · cases h
        cases hneeds
        exact ⟨rfl, by rw [hreview]; rfl⟩
      · cases h
        cases hneeds
    · cases h
      cases hneeds
      exact ⟨rfl, rfl⟩

theorem poised_afterApplied {event : OrcEvent} {w : World} {f : FinalizeArgs}
    {stage : Stage} {P : Option FinalizationState → Bool}
    (hs : Sound w.project)
    (hnext : (afterApplied cfg event w).position = .finalizing f stage)
    (hneeds : stage.needs = some P) :
    w.project.live f.claim.runId = true ∧
      Going f.claim (fun s => P s = true) w.project := by
  obtain ⟨claim, w₁, hproject, hfinalize, hstart⟩ := afterApplied_position hnext
  obtain ⟨-, hclaim, hstate⟩ := toFinalize_eq_some hfinalize
  obtain ⟨rfl, hP⟩ := finalizeRun_needs hstart hneeds
  have hfind := eventClaim_eq_some hclaim
  obtain ⟨hmem, hid⟩ := Table.find?_eq_some.mp hfind
  have hactive : f.claim.active = true := by
    rw [Claim.active, hstate]
    rfl
  rw [← hid] at hfind
  exact ⟨live_iff.mpr ⟨f.claim, hmem, rfl, hactive⟩,
    .of_claim hs hfind hstate hP⟩

theorem Poised.ahead_proceed {w w' : World} {answer : Answer} {now : Int}
    {f : FinalizeArgs} {stage : Stage}
    {P : Option FinalizationState → Bool} (h : Poised w)
    (hok : Undisturbed dates cfg registry w (.proceed answer now))
    (hstep : step dates cfg registry w (.proceed answer now) = some w')
    (hnext : w'.position = .finalizing f stage)
    (hneeds : stage.needs = some P) :
    w'.project.live f.claim.runId = true ∧
      Going f.claim (fun s => P s = true) w'.project := by
  simp only [step] at hstep
  split at hstep
  · cases hstep
  · rename_i event time hposition
    cases hstep
    unfold endReview World.attempt at hnext ⊢
    split at hnext
    · rename_i u p hx
      rw [afterApplied_project]
      refine poised_afterApplied ?_ hnext hneeds
      exact (sound_invariant dates soloRegistry).finishReview h.sound hx
    · cases hnext
  · rename_i f₀ stage₀ hposition
    cases hstep
    obtain ⟨rfl, hproject, hbefore | ⟨rfl, rfl, hdirect⟩⟩ :=
      advance_needs hnext hneeds
    · rw [hproject]
      exact h.ahead f stage₀ P hposition hbefore
    · rw [hproject]
      obtain ⟨hlive, hgoing⟩ := h.ahead f .waiting _ hposition rfl
      refine ⟨hlive, hgoing.bound, fun c hc hid hactive => ?_⟩
      obtain ⟨hstate, hagent, -⟩ := hgoing.stored c hc hid hactive
      simp only [Undisturbed, hposition] at hok
      exact ⟨hstate, hagent, hok hdirect c
        (Table.find?_eq_some.mpr ⟨hc, hid⟩) hactive⟩

theorem Poised.step {w w' : World} {l : Label} (h : Poised w)
    (hok : Undisturbed dates cfg registry w l)
    (hstep : step dates cfg registry w l = some w') : Poised w' := by
  refine ⟨step_keeps (sound_invariant dates registry) h.sound hstep,
    fun f stage P hnext hneeds => ?_⟩
  cases l with
  | call a =>
      simp only [Finalization.step] at hstep
      split at hstep
      · cases hstep
      · rename_i hother
        cases hstep
        replace hnext : w.position = .finalizing f stage := hnext
        obtain ⟨hlive, hgoing⟩ := h.ahead f stage P hnext hneeds
        simp only [Undisturbed, hnext, hneeds] at hok
        refine ⟨hok rfl hlive, hgoing.call h.sound a fun fin hset => ?_⟩
        rw [touch_of_other hother] at hset
        cases hset
  | worktree runId =>
      cases hstep
      exact h.ahead f stage P hnext hneeds
  | deliver event nowIso =>
      simp only [Finalization.step] at hstep
      split at hstep
      · rename_i hguard
        cases hstep
        unfold processEvent at hnext ⊢
        split at hnext
        · cases hguard.1.symm.trans hnext
        · rename_i u p hx
          split at hnext
          · cases hnext
          · rw [afterApplied_project]
            refine poised_afterApplied ?_ hnext hneeds
            exact (sound_invariant dates soloRegistry).applyAction h.sound hx
      · cases hstep
  | retry runId live =>
      simp only [Finalization.step] at hstep
      repeat' split at hstep
      all_goals cases hstep
      unfold handleFinalizationRetry at hnext
      dsimp only at hnext
      split at hnext <;> cases hnext <;> cases hneeds
  | proceed answer now => exact h.ahead_proceed hok hstep hnext hneeds
  | crash =>
      cases hstep
      cases hnext

theorem Poised.reachable {w : World}
    (h : (finalizationSystem dates cfg registry).ReachableUnder
      (Undisturbed dates cfg registry) w) : Poised w := by
  refine h.invariant (fun w hw => ⟨.fresh hw.project, ?_⟩)
    fun _ _ _ _ hs hok hstep => hs.step hok hstep
  intro f stage P hposition
  cases hw.position.symm.trans hposition

/-- Along every run that meets the condition, what is merged is mergeable. -/
theorem merges_safely (dates : DateApi) (cfg : CoordinatorConfig)
    (registry : Registry) {w w' : World} {l : Label}
    (h : (finalizationSystem dates cfg registry).ReachableUnder
      (Undisturbed dates cfg registry) w)
    (hstep : (finalizationSystem dates cfg registry).step w l = some w') :
    MergeSafe w w' :=
  (Poised.reachable h).safe hstep

def directConfig : CoordinatorConfig := {}

def toMerge : List Label := workDone ++ proceedAll 4000 [.done, .done]

def merged (w : World) : List ExternalCall :=
  w.calls.filter fun call => call.merged.isSome

theorem merges_safely_direct :
    ∃ w w', (finalizationSystem dayDates directConfig soloRegistry).run
        oneTaskWorld toMerge = some w ∧
      (finalizationSystem dayDates directConfig soloRegistry).step w
        (.proceed .done 4000) = some w' ∧
      merged w' = [.mergeTaskBranch "run-1" "task/run-1" true] ∧
      MergeSafe w w' := by
  have halong : (finalizationSystem dayDates directConfig soloRegistry).Along
      (Undisturbed dayDates directConfig soloRegistry) oneTaskWorld toMerge := by
    decide +kernel
  have hrun : ((finalizationSystem dayDates directConfig soloRegistry).run
      oneTaskWorld toMerge).bind (fun w =>
        ((finalizationSystem dayDates directConfig soloRegistry).step w
          (.proceed .done 4000)).map merged) =
      some [.mergeTaskBranch "run-1" "task/run-1" true] := by
    decide +kernel
  obtain ⟨w, hw, hmerge⟩ := Option.bind_eq_some_iff.mp hrun
  obtain ⟨w', hw', hcalls⟩ := Option.map_eq_some_iff.mp hmerge
  exact ⟨w, w', hw, hw', hcalls,
    merges_safely dayDates directConfig soloRegistry
      ((System.ReachableUnder.initial neverFinalized_oneTask).run halong hw)
      hw'⟩

/-! ## A merge of a cancelled task -/

def cancelledWhileWaiting : List Label :=
  workDone ++ .call (.cancelTask "docs/intro" none "human"
    (dayDates.toISOString 3500)) :: proceedAll 4000 [.done, .done]

theorem not_mergeSafe_cancelled :
    ∃ w w', (finalizationSystem dayDates directConfig soloRegistry).run
        oneTaskWorld cancelledWhileWaiting = some w ∧
      (finalizationSystem dayDates directConfig soloRegistry).Reachable w ∧
      (finalizationSystem dayDates directConfig soloRegistry).step w
        (.proceed .done 4000) = some w' ∧
      w.project.findClaim "run-1" = none ∧
      statusAt w.project.tasks "docs/intro" = some .cancelled ∧
      w'.calls = w.calls ++ [.mergeTaskBranch "run-1" "task/run-1" true] ∧
      ¬ MergeSafe w w' := by
  have hrun : ((finalizationSystem dayDates directConfig soloRegistry).run
      oneTaskWorld cancelledWhileWaiting).bind (fun w =>
        ((finalizationSystem dayDates directConfig soloRegistry).step w
          (.proceed .done 4000)).map fun w' =>
            ((w.project.findClaim "run-1").isNone,
              statusAt w.project.tasks "docs/intro",
              decide (w'.calls = w.calls ++
                [.mergeTaskBranch "run-1" "task/run-1" true]))) =
      some (true, some .cancelled, true) := by
    decide +kernel
  obtain ⟨w, hw, hparts⟩ := Option.bind_eq_some_iff.mp hrun
  obtain ⟨w', hw', hparts⟩ := Option.map_eq_some_iff.mp hparts
  obtain ⟨hgone, hparts⟩ := Prod.mk.inj hparts
  obtain ⟨hcancelled, hcalls⟩ := Prod.mk.inj hparts
  have hnone := Option.isNone_iff_eq_none.mp hgone
  have hlogged := of_decide_eq_true hcalls
  refine ⟨w, w', hw, (System.Reachable.initial neverFinalized_oneTask).run hw,
    hw', hnone, hcancelled, hlogged, fun hsafe => ?_⟩
  obtain ⟨c, hfind, -⟩ := hsafe _ "run-1" mayMerge hlogged rfl
  rw [hnone] at hfind
  cases hfind

end OrcState.Finalization
