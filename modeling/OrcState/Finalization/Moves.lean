import OrcState.Coordinator.Deliveries
import OrcState.Finalization.Machine

/-!
# What the machine does to the project

Each stage makes at most one call of the project.  With git, the host and the
position of the coordinator forgotten, a run of the machine is a run of calls,
so what every call keeps holds along it.
-/

namespace OrcState.Finalization

open OrcState.Contract OrcState.Foundation OrcState.Store OrcState.Lifecycle
open OrcState.Coordinator OrcState.Foundation.Effect

variable {dates : DateApi} {cfg : CoordinatorConfig} {registry : Registry}

/-! ## The call of a stage -/

def finalizationCall (claim : Claim) (state : FinalizationState)
    (retryCountDelta : Int) (blockedReason : Option String) : Action :=
  .setRunFinalizationState claim.runId claim.agentId
    { finalizationState := some state, retryCountDelta := retryCountDelta
      blockedReason := blockedReason }

def latestClaim (f : FinalizeArgs) (w : World) : Claim :=
  (w.project.findClaim f.claim.runId).getD f.claim

def stageAction (dates : DateApi) (cfg : CoordinatorConfig) (f : FinalizeArgs)
    (now : Int) (w : World) : Stage → Option Action
  | .markingMerged => some (finalizationCall f.claim .prMerged 0 none)
  | .storingRef prRef => some (.setPrRef f.claim.runId prRef)
  | .storingCreatedAt =>
      some (.setPrCreatedAt f.claim.runId (dates.toISOString now)
        (if 0 < f.eventSeq then some f.eventSeq else none))
  | .markingCreated => some (finalizationCall f.claim .prCreated 0 none)
  | .extending =>
      some (.renewLeaseOnly f.claim.runId cfg.prFinalizeLeaseMs now)
  | .markingReview => some (finalizationCall f.claim .prReviewInProgress 0 none)
  | .markingDone _ =>
      if (findTask w.project.backlog f.claim.taskRef).any fun task =>
          task.status = .done then none
      else
        some (.markTaskDoneRuntimeOnly f.claim.taskRef "coordinator"
          (dates.toISOString now))
  | .finishing =>
      some (.finishRun f.claim.runId f.claim.agentId
        { time := dates.toISOString now } (dates.toISOString now))
  | .requesting _ =>
      if 2 ≤ (latestClaim f w).finalizationRetryCount then none
      else
        some (finalizationCall (latestClaim f w) .finalizeRebaseRequested 0
          none)
  | .countingRetry updated =>
      some (finalizationCall updated .finalizeRebaseRequested 1 none)
  | .blocking claim reason =>
      some (finalizationCall claim .blockedFinalize 0 (some reason))
  | _ => none

theorem requestFinalizeRebase_spent {f : FinalizeArgs} {reason : String}
    {w : World} (h : 2 ≤ (latestClaim f w).finalizationRetryCount) :
    requestFinalizeRebase dates f reason w =
      w.moveTo f (.blocking (latestClaim f w) reason) :=
  if_pos h

theorem requestFinalizeRebase_asks {f : FinalizeArgs} {reason : String}
    {w : World} (h : ¬ 2 ≤ (latestClaim f w).finalizationRetryCount) :
    requestFinalizeRebase dates f reason w =
      match setFinalization dates (latestClaim f w) .finalizeRebaseRequested 0
        none w.project with
      | (.ok updated, p) =>
          { w with project := p }.moveTo f (.sendingRebase updated
            ((latestClaim f w).finalizationState =
              some FinalizationState.finalizeRebaseRequested) reason)
      | (.error _, p) => { w with project := p }.rest :=
  if_neg h

theorem World.attempt_project {α : Type} {w : World} {x : Op α}
    {next : World → World} {failed : String → World → World}
    (hnext : ∀ p, (next { w with project := p }).project = p)
    (hfailed : ∀ m p, (failed m { w with project := p }).project = p) :
    (w.attempt x next failed).project = (x w.project).2 := by
  unfold World.attempt
  split
  · rename_i a p hx
    rw [hx]
    exact hnext p
  · rename_i e p hx
    rw [hx]
    exact hfailed e.message p

theorem advance_project (registry : Registry) (f : FinalizeArgs)
    (answer : Answer) (now : Int) (w : World) (stage : Stage) :
    (advance dates cfg f answer now w stage).project =
      match stageAction dates cfg f now w stage with
      | none => w.project
      | some a => (perform dates registry a w.project).2 := by
  cases stage with
  | viewing prRef =>
      simp only [advance, viewPullRequest, stageAction]
      repeat' split
      all_goals rfl
  | merging prRef =>
      simp only [advance, mergePullRequest]
      split <;> rfl
  | waiting =>
      simp only [advance, chooseStrategy, stageAction]
      repeat' split
      all_goals rfl
  | pushing =>
      simp only [advance, pushTaskBranch]
      split <;> rfl
  | listing =>
      simp only [advance, listPullRequests, stageAction]
      repeat' split
      all_goals rfl
  | creating =>
      simp only [advance, createPullRequest]
      split <;> rfl
  | checkingSession =>
      simp only [advance]
      split <;> rfl
  | sendingReview =>
      simp only [advance, reviewSent]
      split <;> rfl
  | checkingMain =>
      simp only [advance, checkMain]
      split <;> rfl
  | mergingBranch =>
      simp only [advance, mergeTaskBranch]
      split <;> rfl
  | removingWorktree =>
      simp only [advance]
      split <;> rfl
  | sendingRebase updated hadPending reason =>
      simp only [advance, rebaseSent, stageAction]
      repeat' split
      all_goals rfl
  | pushingMain | notifying | cleaning | releasing => rfl
  | markingMerged | markingCreated | markingReview | storingRef prRef |
    storingCreatedAt | countingRetry updated | blocking claim reason =>
      refine (World.attempt_project (fun _ => rfl) fun _ _ => rfl).trans ?_
      exact (result_snd _ _ _).symm
  | extending =>
      exact World.attempt_project (fun _ => rfl) fun _ _ => rfl
  | finishing =>
      exact World.attempt_project (fun _ => rfl) fun _ _ => rfl
  | markingDone reviewed =>
      simp only [advance, markDone, stageAction]
      split
      · rfl
      · refine (World.attempt_project (fun _ => rfl) fun _ _ => rfl).trans ?_
        exact (result_snd _ _ _).symm
  | requesting reason =>
      simp only [advance, stageAction]
      by_cases hspent : 2 ≤ (latestClaim f w).finalizationRetryCount
      · rw [if_pos hspent, requestFinalizeRebase_spent hspent]
        rfl
      · rw [if_neg hspent, requestFinalizeRebase_asks hspent]
        refine Eq.trans ?_ (result_snd _ _ _).symm
        split
        · rename_i updated p hx
          exact (congrArg Prod.snd hx).symm
        · rename_i e p hx
          exact (congrArg Prod.snd hx).symm

/-! ## The start of a finalization -/

def Position.startsFrom (w : World) : Position → Prop
  | .finalizing f .waiting =>
      ∃ e ∈ w.worktrees, e.runId = f.claim.runId ∧ e.branch = f.branch
  | .finalizing _ .pushing | .finalizing _ .listing |
    .finalizing _ .creating => False
  | _ => True

theorem finalizeRun_eq (cfg : CoordinatorConfig) (claim : Claim)
    (eventSeq : Nat) (w : World) :
    ∃ position, finalizeRun cfg claim eventSeq w =
      { w with position := position } ∧ position.startsFrom w := by
  unfold finalizeRun
  split
  · exact ⟨_, rfl, trivial⟩
  · rename_i branch hbranch
    dsimp only
    split
    · split
      · exact ⟨_, rfl, trivial⟩
      · exact ⟨_, rfl, trivial⟩
    · refine ⟨_, rfl, ?_⟩
      obtain ⟨e, hfind, rfl⟩ := Option.map_eq_some_iff.mp hbranch
      have hid := List.find?_some hfind
      exact ⟨e, List.mem_of_find?_eq_some hfind, of_decide_eq_true hid, rfl⟩

theorem afterApplied_eq (cfg : CoordinatorConfig) (event : OrcEvent)
    (w : World) :
    ∃ worktrees position, afterApplied cfg event w =
        { w with worktrees := worktrees, position := position } ∧
      (∀ e ∈ worktrees, e ∈ w.worktrees) ∧ position.startsFrom w := by
  obtain ⟨worktrees, hdropped, hsub⟩ : ∃ worktrees,
      (if isRunEnd event then w.dropWorktree (event.runId.getD "") else w) =
        { w with worktrees := worktrees } ∧
          ∀ e ∈ worktrees, e ∈ w.worktrees := by
    split
    · exact ⟨_, rfl, fun e he => (List.mem_filter.mp he).1⟩
    · exact ⟨_, rfl, fun _ he => he⟩
  unfold afterApplied
  dsimp only
  rw [hdropped]
  split
  · rename_i claim hclaim
    obtain ⟨position, hstart, hfrom⟩ := finalizeRun_eq cfg claim
      event.seq { w with worktrees := worktrees }
    refine ⟨worktrees, position, hstart, hsub, ?_⟩
    unfold Position.startsFrom at hfrom ⊢
    split
    · obtain ⟨e, he, hentry⟩ := hfrom
      exact ⟨e, hsub e he, hentry⟩
    · exact hfrom
    · exact hfrom
    · exact hfrom
    · trivial
  · exact ⟨worktrees, .idle, rfl, hsub, trivial⟩

theorem afterApplied_project (event : OrcEvent) (w : World) :
    (afterApplied cfg event w).project = w.project := by
  obtain ⟨worktrees, position, heq, -⟩ := afterApplied_eq cfg event w
  rw [heq]

theorem processEvent_project (event : OrcEvent) (nowIso : String) (w : World) :
    (processEvent dates cfg event nowIso w).project =
      (applyEvent dates event nowIso w.project).2 := by
  unfold processEvent
  split
  · rename_i e p hx
    rw [hx]
  · rename_i u p hx
    rw [hx]
    split
    · rfl
    · rw [afterApplied_project]

theorem endReview_project (event : OrcEvent) (time nowIso : String)
    (w : World) :
    (endReview dates cfg event time nowIso w).project =
      (finishReview dates event time nowIso w.project).2 :=
  World.attempt_project (fun _ => afterApplied_project event _) fun _ _ => rfl

/-! ## Every step -/

theorem step_keeps {I : Project → Prop} (hI : CallInvariant dates registry I)
    {w w' : World} {l : Label} (hw : I w.project)
    (h : step dates cfg registry w l = some w') : I w'.project := by
  cases l with
  | call a =>
      simp only [step] at h
      split at h
      · cases h
      · cases h
        exact hI a w.project hw
  | worktree runId =>
      cases h
      exact hw
  | deliver event nowIso =>
      simp only [step] at h
      split at h
      · cases h
        rw [processEvent_project]
        exact hI.applyAction hw (Prod.eta _).symm
      · cases h
  | retry runId live =>
      simp only [step] at h
      repeat' split at h
      all_goals cases h
      unfold handleFinalizationRetry
      dsimp only
      split <;> exact hw
  | proceed answer now =>
      simp only [step] at h
      split at h
      · cases h
      · cases h
        rw [endReview_project]
        exact hI.finishReview hw (Prod.eta _).symm
      · rename_i f stage hposition
        cases h
        rw [advance_project registry]
        split
        · exact hw
        · rename_i a _
          exact hI a w.project hw
  | crash =>
      cases h
      exact hw

inductive Stepped (dates : DateApi) (cfg : CoordinatorConfig) (w : World)
    (l : Label) : World → Prop
  | worktree (runId : RunId) :
      Stepped dates cfg w l (w.ensureRunWorktree runId)
  | quiet (p : Project) (worktrees : List RunWorktree) (position : Position)
      (hworktrees : ∀ e ∈ worktrees, e ∈ w.worktrees)
      (hposition : position = w.position ∨ position.startsFrom w) :
      Stepped dates cfg w l
        { w with project := p, worktrees := worktrees, position := position }
  | stage (f : FinalizeArgs) (stage : Stage) (answer : Answer) (now : Int)
      (hl : l = .proceed answer now)
      (hposition : w.position = .finalizing f stage) :
      Stepped dates cfg w l (advance dates cfg f answer now w stage)

theorem Stepped.project {w : World} {l : Label} (p : Project) :
    Stepped dates cfg w l { w with project := p } :=
  .quiet p w.worktrees w.position (fun _ he => he) (.inl rfl)

theorem Stepped.afterApplied {l : Label} (event : OrcEvent) (w : World)
    (p : Project) :
    Stepped dates cfg w l (afterApplied cfg event { w with project := p }) := by
  obtain ⟨worktrees, position, heq, hsub, hfrom⟩ :=
    afterApplied_eq cfg event { w with project := p }
  rw [heq]
  exact .quiet p worktrees position hsub (.inr hfrom)

theorem step_stepped {w w' : World} {l : Label}
    (h : step dates cfg registry w l = some w') : Stepped dates cfg w l w' := by
  cases l with
  | call a =>
      simp only [step] at h
      split at h <;> cases h
      exact .project _
  | worktree runId =>
      cases h
      exact .worktree runId
  | deliver event nowIso =>
      simp only [step] at h
      split at h <;> cases h
      unfold processEvent
      split
      · exact .project _
      · split
        · exact .quiet _ w.worktrees _ (fun _ he => he) (.inr trivial)
        · exact .afterApplied event w _
  | retry runId live =>
      simp only [step] at h
      repeat' split at h
      all_goals cases h
      unfold handleFinalizationRetry
      dsimp only
      split
      · exact .quiet w.project w.worktrees _ (fun _ he => he) (.inr trivial)
      · exact .quiet w.project w.worktrees _ (fun _ he => he) (.inr trivial)
  | proceed answer now =>
      simp only [step] at h
      split at h
      · cases h
      · cases h
        unfold endReview World.attempt
        split
        · exact .afterApplied _ w _
        · exact .quiet _ w.worktrees .idle (fun _ he => he) (.inr trivial)
      · rename_i f stage hposition
        cases h
        exact .stage f stage answer now rfl hposition
  | crash =>
      cases h
      exact .quiet w.project w.worktrees .idle (fun _ he => he) (.inr trivial)

theorem sound_invariant (dates : DateApi) (registry : Registry) :
    CallInvariant dates registry Sound :=
  fun _ _ hs => hs.perform (Prod.eta _).symm

/-- A run that a claim was ever made for is known for good. -/
theorem bound_invariant (id : RunId) :
    CallInvariant dates registry fun s => Sound s ∧ s.tasks.Bound id := by
  rintro a s ⟨hs, hbound⟩
  refine ⟨sound_invariant dates registry a s hs, ?_⟩
  by_cases hlogs : LogsFinish a
  · exact (Accounted.perform hs.bound (Prod.eta _).symm hlogs).bound id
      hbound
  cases a with
  | finishRun runId agentId o now =>
      rcases finishRun_cases (Prod.eta
        (perform dates registry (.finishRun runId agentId o now) s)).symm with
        hsame | ⟨claim, -, -, ⟨-, hcommit⟩ | ⟨-, -, htasks⟩⟩
      · rwa [hsame]
      · rcases commitFinish_cases hcommit with
          ⟨-, hsame | ⟨-, htasks⟩⟩ | ⟨task, -, hout⟩
        · rwa [hsame]
        · rwa [htasks]
        · exact hout.bound id hbound
      · rwa [htasks]
  | _ => exact absurd trivial hlogs

/-- A run of the machine is a run of calls of the project. -/
theorem project_reachable {ok : World → Label → Prop} {w : World}
    (h : (finalizationSystem dates cfg registry).ReachableUnder ok w) :
    (lifecycleSystem dates registry).Reachable w.project := by
  have hcalls : CallInvariant dates registry
      (lifecycleSystem dates registry).Reachable :=
    fun a _ hs => hs.step (a := a) rfl
  refine h.invariant (I := fun w =>
    (lifecycleSystem dates registry).Reachable w.project) ?_ ?_
  · intro w hw
    exact .initial hw.project
  · intro w l w' _ hI _ ht
    exact step_keeps hcalls hI ht

/-! ## The run that is finalized -/

/--
The run is known, and as long as it goes on it is in progress with its agent and
in a finalization state with `P`.
-/
structure Going (claim : Claim) (P : Option FinalizationState → Prop)
    (s : Project) : Prop where
  bound : s.tasks.Bound claim.runId
  stored : ∀ c, c ∈ s.events.runs → c.runId = claim.runId → c.active = true →
    c.state = .inProgress ∧ c.agentId = claim.agentId ∧ P c.finalizationState

section Going

variable {claim : Claim} {P Q : Option FinalizationState → Prop}
  {s t : Project}

theorem Going.imp (h : Going claim P s) (hPQ : ∀ fin, P fin → Q fin) :
    Going claim Q s := by
  refine ⟨h.bound, fun c hc hid hactive => ?_⟩
  obtain ⟨hstate, hagent, hfin⟩ := h.stored c hc hid hactive
  exact ⟨hstate, hagent, hPQ _ hfin⟩

theorem Going.of_claim (hs : Sound s) (hfind : s.findClaim claim.runId = some claim)
    (hstate : claim.state = .inProgress) (hP : P claim.finalizationState) :
    Going claim P s := by
  obtain ⟨hclaim, -⟩ := Table.find?_eq_some.mp hfind
  refine ⟨hs.bound claim hclaim, fun c hc hid _ => ?_⟩
  obtain rfl : c = claim := Table.eq_of_key hc hclaim hid
  exact ⟨hstate, rfl, hP⟩

theorem Going.moved {touch : Touch} (h : Going claim P s)
    (hmoved : ClaimsMoved dates touch s t)
    (hbound : t.tasks.Bound claim.runId)
    (hset : ∀ fin, touch.finalization = some (claim.runId, fin) → P fin) :
    Going claim P t := by
  refine ⟨hbound, fun c' hc' hid hactive => ?_⟩
  rcases hmoved.source c' hc' with ⟨c, hc, hmove⟩ | ⟨-, -, hnew, -⟩
  · have hid₀ : c.runId = claim.runId := hmove.runId.symm.trans hid
    obtain ⟨hstate, hagent, hfin⟩ := h.stored c hc hid₀ (hmove.active hactive)
    refine ⟨hmove.started hstate hactive, hmove.agentId.trans hagent, ?_⟩
    rcases hmove.finalization with hsame | ⟨-, hended⟩ | ⟨htouch, -⟩
    · rwa [hsame]
    · rw [hactive] at hended
      cases hended
    · exact hset _ (hid₀ ▸ htouch)
  · exact absurd h.bound (hid ▸ hnew)

theorem Going.call (h : Going claim P s) (hs : Sound s) (a : Action)
    (hset : ∀ fin, (a.touch dates s).finalization = some (claim.runId, fin) →
      P fin) : Going claim P (perform dates registry a s).2 :=
  h.moved (.perform hs.bound (Prod.eta _).symm)
    (bound_invariant claim.runId a s ⟨hs, h.bound⟩).2 hset

theorem Going.set {caller : Claim} {state : FinalizationState} {delta : Int}
    {reason : Option String} (h : Going claim P s) (hs : Sound s)
    (hid : caller.runId = claim.runId)
    (hagent : ∀ c, s.findClaim claim.runId = some c → c.active = true →
      c.agentId = caller.agentId) :
    Going claim (fun fin => fin = some state)
      (perform dates registry (finalizationCall caller state delta reason)
        s).2 := by
  have hmoved : ClaimsMoved dates _ s (perform dates registry
      (finalizationCall caller state delta reason) s).2 :=
    .perform hs.bound (Prod.eta _).symm
  refine ⟨(bound_invariant claim.runId _ s ⟨hs, h.bound⟩).2,
    fun c' hc' hid' hactive => ?_⟩
  rcases hmoved.source c' hc' with ⟨c, hc, hmove⟩ | ⟨-, -, hnew, -⟩
  · have hid₀ : c.runId = claim.runId := hmove.runId.symm.trans hid'
    have hlive : c.active = true := hmove.active hactive
    obtain ⟨hstate, hown, -⟩ := h.stored c hc hid₀ hlive
    have hfind : s.findClaim claim.runId = some c :=
      Table.find?_eq_some.mpr ⟨hc, hid₀⟩
    let update : FinalizationUpdate :=
      { finalizationState := some state, retryCountDelta := delta
        blockedReason := reason }
    obtain ⟨t, ht, hfound⟩ : ∃ t, setRunFinalizationState dates claim.runId
        caller.agentId update s = (.ok (applyFinalization update c), t) ∧
        t.findClaim claim.runId = some (applyFinalization update c) :=
      setRunFinalizationState_total update hs.one hfind (hagent c hfind hlive)
        hstate
    have hresult : (perform dates registry
        (finalizationCall caller state delta reason) s).2 = t := by
      rw [finalizationCall, perform, result_snd, hid, ht]
    rw [hresult] at hc'
    obtain ⟨hmem, -⟩ := Table.find?_eq_some.mp hfound
    have hsame : c' = _ := Table.eq_of_key hc' hmem (hid'.trans hid₀.symm)
    rw [hsame]
    exact ⟨hstate, hown, rfl⟩
  · exact absurd h.bound (hid' ▸ hnew)

end Going

end OrcState.Finalization
