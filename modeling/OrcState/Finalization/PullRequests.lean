import OrcState.Finalization.MergeSafety

/-!
# The pull request of a run

The coordinator may stop after any write and handle an event again, so it may
ask for the pull request of a run any number of times.  The adapter lists the
open ones of the branch first: if nobody else opens one for it there is never
more than one, and while that is open every further request returns it.
-/

namespace OrcState.Finalization

open OrcState.Contract OrcState.Foundation OrcState.Store OrcState.Lifecycle
open OrcState.Coordinator OrcState.Foundation.Effect

variable {dates : DateApi} {cfg : CoordinatorConfig} {registry : Registry}
variable {σ : Type} {hub : GitHub σ}

def taskBranch (runId : RunId) : String := "task/" ++ runId

/-! ## The coordinator beside a host -/

structure Joint (σ : Type) where
  world : World
  host : σ

inductive JointLabel (σ : Type) where
  | machine (l : Label) (host : σ)
  | others (host : σ)

def jointStep (dates : DateApi) (cfg : CoordinatorConfig) (registry : Registry)
    (j : Joint σ) : JointLabel σ → Option (Joint σ)
  | .machine l host =>
      (step dates cfg registry j.world l).map fun w => ⟨w, host⟩
  | .others host => some { j with host := host }

/-- At most one pull request is open for the branch of a run. -/
def OneOpen (hub : GitHub σ) (host : σ) : Prop :=
  ∀ runId url url', hub.isOpen host (taskBranch runId) url →
    hub.isOpen host (taskBranch runId) url' → url = url'

def jointSystem (dates : DateApi) (cfg : CoordinatorConfig)
    (registry : Registry) (hub : GitHub σ) :
    System (Joint σ) (JointLabel σ) where
  initial j := NeverFinalized j.world ∧ OneOpen hub j.host
  step := jointStep dates cfg registry

/--
What becomes of the host when the coordinator moves on from a position.  It may
stop while a command still runs, and the command takes effect without it.
-/
def GitHub.Serves (hub : GitHub σ) (position : Position) (l : Label)
    (s t : σ) : Prop :=
  match position, l with
  | .finalizing f .listing, .proceed answer _ =>
      hub.lists s f.branch answer.printed ∧ t = s
  | .finalizing f .creating, .proceed answer _ =>
      hub.creates s f.branch answer.printed t
  | .finalizing f .creating, .crash =>
      t = s ∨ ∃ printed, hub.creates s f.branch printed t
  | .finalizing _ (.merging prRef), .proceed answer _ =>
      hub.merges s prRef answer.printed t
  | .finalizing _ (.merging prRef), .crash =>
      t = s ∨ ∃ printed, hub.merges s prRef printed t
  | _, _ => t = s

def GitHub.Leaves (hub : GitHub σ) (s t : σ) : Prop :=
  ∀ runId url, hub.isOpen t (taskBranch runId) url →
    hub.isOpen s (taskBranch runId) url

/-- The host serves the coordinator, and others leave the branches of runs. -/
def Undisputed (hub : GitHub σ) (j : Joint σ) : JointLabel σ → Prop
  | .machine l host => hub.Serves j.world.position l j.host host
  | .others host => hub.Leaves j.host host

/--
What a step creates for a run is an open pull request of its branch, and if an
earlier one of the run is still open it is that one, and nothing is opened.
-/
def KeepsOnePr (hub : GitHub σ) (j j' : Joint σ) : Prop :=
  ∀ runId branch prRef,
    j'.world.calls = j.world.calls ++ [.createPr runId branch (some prRef)] →
      branch = taskBranch runId ∧ hub.isOpen j'.host branch prRef ∧
        ∀ branch' earlier, .createPr runId branch' (some earlier) ∈
            j.world.calls → hub.isOpen j.host branch' earlier →
          prRef = earlier ∧ ∀ head url, hub.isOpen j'.host head url →
            hub.isOpen j.host head url

/-! ## The branches the machine names -/

def Stage.usesBranch : Stage → Bool
  | .waiting | .pushing | .listing | .creating => true
  | _ => false

structure Named (w : World) : Prop where
  worktrees : ∀ e ∈ w.worktrees, e.branch = taskBranch e.runId
  branch : ∀ f stage, w.position = .finalizing f stage →
    stage.usesBranch = true → f.branch = taskBranch f.claim.runId
  created : ∀ runId branch prRef,
    .createPr runId branch (some prRef) ∈ w.calls → branch = taskBranch runId

theorem advance_worktrees (f : FinalizeArgs) (answer : Answer) (now : Int)
    (w : World) (stage : Stage) :
    ∀ e ∈ (advance dates cfg f answer now w stage).worktrees,
      e ∈ w.worktrees := by
  have hsame : ∀ {worktrees : List RunWorktree}, worktrees = w.worktrees →
      ∀ e ∈ worktrees, e ∈ w.worktrees := fun h e he => h ▸ he
  cases stage with
  | removingWorktree =>
      simp only [advance]
      split
      · exact fun e he => (List.mem_filter.mp he).1
      · exact hsame rfl
  | _ =>
      refine hsame ?_
      simp only [advance, viewPullRequest, mergePullRequest, chooseStrategy,
        pushTaskBranch, listPullRequests, createPullRequest, reviewSent,
        checkMain, mergeTaskBranch, rebaseSent, requestFinalizeRebase, markDone,
        finish, World.attemptThen, World.attempt]
      repeat' split
      all_goals rfl

/-- A stage before the creation follows another such stage of the same run. -/
theorem advance_usesBranch {f f' : FinalizeArgs} {stage stage' : Stage}
    {w : World} {answer : Answer} {now : Int}
    (hnext : (advance dates cfg f answer now w stage).position =
      .finalizing f' stage') (huses : stage'.usesBranch = true) :
    f' = f ∧ stage.usesBranch = true := by
  cases stage with
  | waiting =>
      simp only [advance, chooseStrategy] at hnext
      split at hnext
      · split at hnext <;> cases hnext
        · exact ⟨rfl, rfl⟩
        · cases huses
      · cases hnext
        cases huses
  | pushing =>
      simp only [advance, pushTaskBranch] at hnext
      split at hnext <;> cases hnext
      · exact ⟨rfl, rfl⟩
      · cases huses
  | listing =>
      simp only [advance, listPullRequests] at hnext
      split at hnext
      · split at hnext <;> cases hnext
        · cases huses
        · exact ⟨rfl, rfl⟩
      · cases hnext
        cases huses
  | markingDone reviewed =>
      simp only [advance, markDone, World.attempt] at hnext
      cases reviewed <;> repeat' split at hnext
      all_goals
        cases hnext
        cases huses
  | _ =>
      simp only [advance, viewPullRequest, mergePullRequest, createPullRequest,
        reviewSent, checkMain, mergeTaskBranch, rebaseSent,
        requestFinalizeRebase, finish, World.attemptThen,
        World.attempt] at hnext
      repeat' split at hnext
      all_goals
        cases hnext
        try cases huses

def Creates (f : FinalizeArgs) (answer : Answer) (stage : Stage)
    (call : ExternalCall) : Prop :=
  ∀ runId branch prRef, call = .createPr runId branch (some prRef) →
    runId = f.claim.runId ∧ branch = f.branch ∧
      (stage = .listing ∧ answer.printed = .ok prRef ∧ prRef ≠ "" ∨
        stage = .creating ∧ answer.printed = .ok prRef)

theorem advance_created (dates : DateApi) (cfg : CoordinatorConfig)
    (f : FinalizeArgs) (answer : Answer) (now : Int) (w : World)
    (stage : Stage) :
    (advance dates cfg f answer now w stage).calls = w.calls ∨
      ∃ call, (advance dates cfg f answer now w stage).calls =
        w.calls ++ [call] ∧ Creates f answer stage call := by
  cases stage with
  | listing =>
      simp only [advance, listPullRequests]
      split
      · rename_i existing hprinted
        split
        · rename_i hsome
          refine .inr ⟨_, rfl, fun runId branch prRef hcall => ?_⟩
          cases hcall
          exact ⟨rfl, rfl, .inl ⟨rfl, hprinted, hsome⟩⟩
        · exact .inl rfl
      · exact .inr ⟨_, rfl, fun _ _ _ hcall => by cases hcall⟩
  | creating =>
      refine .inr ?_
      simp only [advance, createPullRequest]
      split
      · rename_i url hprinted
        refine ⟨_, rfl, fun runId branch prRef hcall => ?_⟩
        cases hcall
        exact ⟨rfl, rfl, .inr ⟨rfl, hprinted⟩⟩
      · exact ⟨_, rfl, fun _ _ _ hcall => by cases hcall⟩
  | viewing prRef =>
      simp only [advance, viewPullRequest]
      split
      · split
        · exact .inr ⟨_, rfl, fun _ _ _ hcall => by cases hcall⟩
        · exact .inl rfl
      · exact .inr ⟨_, rfl, fun _ _ _ hcall => by cases hcall⟩
  | merging prRef =>
      refine .inr ?_
      simp only [advance, mergePullRequest]
      split
      · exact ⟨_, rfl, fun _ _ _ hcall => by cases hcall⟩
      · exact ⟨_, rfl, fun _ _ _ hcall => by cases hcall⟩
  | pushing =>
      refine .inr ?_
      simp only [advance, pushTaskBranch]
      split
      · exact ⟨_, rfl, fun _ _ _ hcall => by cases hcall⟩
      · exact ⟨_, rfl, fun _ _ _ hcall => by cases hcall⟩
  | mergingBranch =>
      refine .inr ?_
      simp only [advance, mergeTaskBranch]
      split
      · exact ⟨_, rfl, fun _ _ _ hcall => by cases hcall⟩
      · exact ⟨_, rfl, fun _ _ _ hcall => by cases hcall⟩
  | pushingMain =>
      exact .inr ⟨_, rfl, fun _ _ _ hcall => by cases hcall⟩
  | _ =>
      refine .inl ?_
      simp only [advance, chooseStrategy, reviewSent, checkMain, rebaseSent,
        requestFinalizeRebase, markDone, finish, World.attemptThen,
        World.attempt]
      repeat' split
      all_goals rfl

theorem Named.ensureRunWorktree {w : World} (h : Named w) (runId : RunId) :
    Named (w.ensureRunWorktree runId) := by
  refine ⟨fun e he => ?_, h.branch, h.created⟩
  rcases List.mem_append.mp he with he | he
  · exact h.worktrees e (List.mem_filter.mp he).1
  · obtain rfl := List.mem_singleton.mp he
    change (w.branchOf runId).getD ("task/" ++ runId) = taskBranch runId
    cases hbranch : w.branchOf runId with
    | none => rfl
    | some branch =>
        obtain ⟨e, hfind, rfl⟩ := Option.map_eq_some_iff.mp hbranch
        have hid := List.find?_some hfind
        rw [Option.getD_some, h.worktrees e (List.mem_of_find?_eq_some hfind)]
        exact congrArg taskBranch (of_decide_eq_true hid)

theorem Named.quiet {w : World} (h : Named w) {p : Project}
    {worktrees : List RunWorktree} {position : Position}
    (hworktrees : ∀ e ∈ worktrees, e ∈ w.worktrees)
    (hposition : position = w.position ∨ position.startsFrom w) :
    Named { w with
      project := p, worktrees := worktrees, position := position } := by
  refine ⟨fun e he => h.worktrees e (hworktrees e he),
    fun f stage hat huses => ?_, h.created⟩
  replace hat : position = .finalizing f stage := hat
  rcases hposition with hsame | hfrom
  · exact h.branch f stage (hsame.symm.trans hat) huses
  · rw [hat] at hfrom
    cases stage with
    | waiting =>
        obtain ⟨e, he, hid, hbranch⟩ := hfrom
        rw [← hbranch, h.worktrees e he, hid]
    | pushing | listing | creating => exact hfrom.elim
    | _ => cases huses

theorem Named.stage {w : World} (h : Named w) {f : FinalizeArgs}
    {stage : Stage} {answer : Answer} {now : Int}
    (hposition : w.position = .finalizing f stage) :
    Named (advance dates cfg f answer now w stage) := by
  refine ⟨fun e he => h.worktrees e (advance_worktrees f answer now w stage e
    he), fun f' stage' hnext huses => ?_, fun runId branch prRef hcall => ?_⟩
  · obtain ⟨rfl, huses'⟩ := advance_usesBranch hnext huses
    exact h.branch f' stage hposition huses'
  · rcases advance_created dates cfg f answer now w stage with
      hsame | ⟨call, hlogged, hcreate⟩
    · rw [hsame] at hcall
      exact h.created runId branch prRef hcall
    · rw [hlogged] at hcall
      rcases List.mem_append.mp hcall with hold | hnew
      · exact h.created runId branch prRef hold
      · obtain ⟨rfl, rfl, ⟨rfl, -⟩ | ⟨rfl, -⟩⟩ :=
          hcreate runId branch prRef (List.mem_singleton.mp hnew).symm
        · exact h.branch f .listing hposition rfl
        · exact h.branch f .creating hposition rfl

theorem Named.step {w w' : World} {l : Label} (h : Named w)
    (hstep : Finalization.step dates cfg registry w l = some w') : Named w' := by
  cases step_stepped hstep with
  | worktree runId => exact h.ensureRunWorktree runId
  | quiet p worktrees position hworktrees hposition =>
      exact h.quiet hworktrees hposition
  | stage f stage answer now hl hposition => exact h.stage hposition

theorem Named.initial {w : World} (h : NeverFinalized w) : Named w := by
  refine ⟨fun e he => ?_, fun f stage hat => ?_, fun runId branch prRef hcall => ?_⟩
  · rw [h.worktrees] at he
    cases he
  · cases h.position.symm.trans hat
  · rw [h.calls] at hcall
    cases hcall

/-! ## What the host does at a step -/

theorem GitHub.Serves.cases {position : Position} {l : Label} {s t : σ}
    (h : hub.Serves position l s t) :
    t = s ∨
      (∃ f printed, position = .finalizing f .creating ∧
        (l = .crash ∨ ∃ answer now, l = .proceed answer now) ∧
        hub.creates s f.branch printed t) ∨
      ∃ prRef printed, hub.merges s prRef printed t := by
  unfold GitHub.Serves at h
  split at h
  · exact .inl h.2
  · exact .inr (.inl ⟨_, _, rfl, .inr ⟨_, _, rfl⟩, h⟩)
  · rcases h with rfl | ⟨printed, hcreates⟩
    · exact .inl rfl
    · exact .inr (.inl ⟨_, _, rfl, .inl rfl, hcreates⟩)
  · exact .inr (.inr ⟨_, _, h⟩)
  · rcases h with rfl | ⟨printed, hmerges⟩
    · exact .inl rfl
    · exact .inr (.inr ⟨_, _, hmerges⟩)
  · exact .inl h

/-- The machine stands before a creation since a listing printed nothing. -/
theorem step_creating {w w' : World} {l : Label} {f : FinalizeArgs}
    (hstep : step dates cfg registry w l = some w')
    (hnext : w'.position = .finalizing f .creating) :
    (w.position = .finalizing f .creating ∧
      ∀ answer now, l ≠ .proceed answer now) ∨
      ∃ answer now, l = .proceed answer now ∧
        w.position = .finalizing f .listing ∧ answer.printed = .ok "" := by
  by_cases hproceed : ∃ answer now, l = .proceed answer now
  · obtain ⟨answer, now, rfl⟩ := hproceed
    refine .inr ⟨answer, now, rfl, ?_⟩
    simp only [step] at hstep
    split at hstep
    · cases hstep
    · rename_i event time hposition
      cases hstep
      unfold endReview World.attempt at hnext
      split at hnext
      · obtain ⟨worktrees, position, heq, -, hfrom⟩ := afterApplied_eq cfg event
          { w with project := _ }
        rw [heq] at hnext
        replace hnext : position = .finalizing f .creating := hnext
        rw [hnext] at hfrom
        exact hfrom.elim
      · cases hnext
    · rename_i f₀ stage hposition
      cases hstep
      obtain ⟨rfl, huses⟩ := advance_usesBranch hnext rfl
      cases stage with
      | listing =>
          refine ⟨hposition, ?_⟩
          simp only [advance, listPullRequests] at hnext
          split at hnext
          · rename_i existing hprinted
            split at hnext
            · cases hnext
            · rename_i hempty
              rw [hprinted, not_not.mp hempty]
          · cases hnext
      | waiting =>
          simp only [advance, chooseStrategy] at hnext
          repeat' split at hnext
          all_goals cases hnext
      | pushing =>
          simp only [advance, pushTaskBranch] at hnext
          split at hnext <;> cases hnext
      | creating =>
          simp only [advance, createPullRequest] at hnext
          split at hnext <;> cases hnext
      | _ => cases huses
  · refine .inl ⟨?_, fun answer now hl => hproceed ⟨answer, now, hl⟩⟩
    cases step_stepped hstep with
    | worktree runId => exact hnext
    | quiet p worktrees position hworktrees hposition =>
        replace hnext : position = .finalizing f .creating := hnext
        rcases hposition with hsame | hfrom
        · exact hsame.symm.trans hnext
        · rw [hnext] at hfrom
          exact hfrom.elim
    | stage f stage answer now hl hposition =>
        exact absurd ⟨answer, now, hl⟩ hproceed

/-! ## The invariant -/

structure Tracked (hub : GitHub σ) (j : Joint σ) : Prop where
  named : Named j.world
  one : OneOpen hub j.host
  none : ∀ f, j.world.position = .finalizing f .creating →
    ∀ url, ¬ hub.isOpen j.host f.branch url

theorem OneOpen.of_leaves {s t : σ} (h : OneOpen hub s)
    (hleaves : hub.Leaves s t) : OneOpen hub t :=
  fun runId url url' hopen hopen' =>
    h runId url url' (hleaves runId url hopen) (hleaves runId url' hopen')

theorem Tracked.serves {j : Joint σ} (h : Tracked hub j)
    (hdoc : hub.Documented) {l : Label} {t : σ}
    (hserves : hub.Serves j.world.position l j.host t) : OneOpen hub t := by
  rcases hserves.cases with rfl | ⟨f, printed, hposition, -, hcreates⟩ |
    ⟨prRef, printed, hmerges⟩
  · exact h.one
  · obtain ⟨new, hnew⟩ := hdoc.creates_one hcreates
    -- before the creation the branch has none open, after it only the new one
    intro runId url url' hopen hopen'
    rcases hnew _ _ hopen with hold | ⟨hbranch, rfl⟩
    · rcases hnew _ _ hopen' with hold' | ⟨hbranch', rfl⟩
      · exact h.one runId url url' hold hold'
      · rw [hbranch'] at hold
        exact absurd hold (h.none f hposition url)
    · rcases hnew _ _ hopen' with hold' | ⟨-, rfl⟩
      · rw [hbranch] at hold'
        exact absurd hold' (h.none f hposition url')
      · rfl
  · exact h.one.of_leaves fun runId url => hdoc.merges_none hmerges _ url

theorem Tracked.step {j j' : Joint σ} {l : JointLabel σ} (h : Tracked hub j)
    (hdoc : hub.Documented) (hok : Undisputed hub j l)
    (hstep : jointStep dates cfg registry j l = some j') : Tracked hub j' := by
  cases l with
  | machine l host =>
      obtain ⟨w, hw, rfl⟩ := Option.map_eq_some_iff.mp hstep
      have hserves : hub.Serves j.world.position l j.host host := hok
      refine ⟨h.named.step hw, h.serves hdoc hserves, fun f hnext => ?_⟩
      rcases step_creating hw hnext with
        ⟨hposition, hother⟩ | ⟨answer, now, rfl, hposition, hprinted⟩
      · rcases hserves.cases with rfl | ⟨_, _, -, rfl | ⟨answer, now, hl⟩, -⟩ |
          ⟨prRef, printed, hmerges⟩
        · exact h.none f hposition
        · cases hw
          cases hnext
        · exact absurd hl (hother answer now)
        · exact fun url hopen =>
            h.none f hposition url (hdoc.merges_none hmerges _ url hopen)
      · rw [hposition] at hserves
        obtain ⟨hlists, rfl⟩ := hserves
        rw [hprinted] at hlists
        exact hdoc.lists_none hlists
  | others host =>
      cases hstep
      refine ⟨h.named, h.one.of_leaves hok, fun f hposition url hopen => ?_⟩
      have hbranch := h.named.branch f .creating hposition rfl
      refine h.none f hposition url ?_
      rw [hbranch] at hopen ⊢
      exact hok f.claim.runId url hopen

theorem Tracked.reachable {j : Joint σ} (hdoc : hub.Documented)
    (h : (jointSystem dates cfg registry hub).ReachableUnder (Undisputed hub)
      j) : Tracked hub j := by
  refine h.invariant (fun j hj => ⟨.initial hj.1, hj.2, fun f hat => ?_⟩)
    fun _ _ _ _ hs hok hstep => hs.step hdoc hok hstep
  cases hj.1.position.symm.trans hat

/-! ## What is created -/

theorem step_created {w w' : World} {l : Label} {runId : RunId}
    {branch prRef : String}
    (hstep : step dates cfg registry w l = some w')
    (hcall : w'.calls = w.calls ++ [.createPr runId branch (some prRef)]) :
    ∃ f stage answer now, l = .proceed answer now ∧
      w.position = .finalizing f stage ∧ runId = f.claim.runId ∧
      branch = f.branch ∧
      (stage = .listing ∧ answer.printed = .ok prRef ∧ prRef ≠ "" ∨
        stage = .creating ∧ answer.printed = .ok prRef) := by
  have hnone : w.calls ≠ w.calls ++ [.createPr runId branch (some prRef)] := by
    simp
  cases step_stepped hstep with
  | worktree runId => exact absurd hcall hnone
  | quiet p worktrees position hworktrees hposition => exact absurd hcall hnone
  | stage f stage answer now hl hposition =>
      rcases advance_created dates cfg f answer now w stage with
        hsame | ⟨call, hlogged, hcreate⟩
      · exact absurd (hsame.symm.trans hcall) hnone
      · rw [hlogged, List.append_cancel_left_eq, List.singleton_inj] at hcall
        obtain ⟨hid, hbranch, hstage⟩ := hcreate runId branch prRef hcall
        exact ⟨f, stage, answer, now, hl, hposition, hid, hbranch, hstage⟩

theorem Tracked.keeps {j j' : Joint σ} {l : JointLabel σ} (h : Tracked hub j)
    (hdoc : hub.Documented) (hok : Undisputed hub j l)
    (hstep : jointStep dates cfg registry j l = some j') :
    KeepsOnePr hub j j' := by
  intro runId branch prRef hcall
  cases l with
  | others host =>
      cases hstep
      simp at hcall
  | machine l host =>
      obtain ⟨w, hw, rfl⟩ := Option.map_eq_some_iff.mp hstep
      have hserves : hub.Serves j.world.position l j.host host := hok
      obtain ⟨f, stage, answer, now, rfl, hposition, rfl, rfl, hstage⟩ :=
        step_created hw hcall
      have huses : stage.usesBranch = true := by
        rcases hstage with ⟨rfl, -⟩ | ⟨rfl, -⟩ <;> rfl
      have hbranch := h.named.branch f stage hposition huses
      have hsame : ∀ {branch' earlier}, .createPr f.claim.runId branch'
          (some earlier) ∈ j.world.calls → branch' = f.branch := by
        intro branch' earlier hearlier
        rw [hbranch]
        exact h.named.created _ _ _ hearlier
      rw [hposition] at hserves
      rcases hstage with ⟨rfl, hprinted, hsome⟩ | ⟨rfl, hprinted⟩
      · obtain ⟨hlists, rfl⟩ := hserves
        rw [hprinted] at hlists
        have hopen := hdoc.lists_url hlists hsome
        refine ⟨hbranch, hopen, fun branch' earlier hearlier hopen' => ?_⟩
        rw [hsame hearlier] at hopen'
        rw [hbranch] at hopen hopen'
        exact ⟨h.one _ _ _ hopen hopen', fun _ _ => id⟩
      · replace hserves : hub.creates j.host f.branch answer.printed host :=
          hserves
        rw [hprinted] at hserves
        refine ⟨hbranch, hdoc.creates_url hserves,
          fun branch' earlier hearlier hopen' => ?_⟩
        rw [hsame hearlier] at hopen'
        exact absurd hopen' (h.none f hposition earlier)

/--
As long as nobody else opens a pull request for the branch of a run, a branch
has at most one open pull request in every state that any deliveries,
redeliveries and crashes lead to, and a creation returns the one of its run if
it is still open.
-/
theorem one_pull_request (dates : DateApi) (cfg : CoordinatorConfig)
    (registry : Registry) (hub : GitHub σ) (hdoc : hub.Documented)
    {j j' : Joint σ} {l : JointLabel σ}
    (h : (jointSystem dates cfg registry hub).ReachableUnder (Undisputed hub) j)
    (hok : Undisputed hub j l)
    (hstep : (jointSystem dates cfg registry hub).step j l = some j') :
    OneOpen hub j'.host ∧ KeepsOnePr hub j j' :=
  ⟨(Tracked.reachable hdoc (h.step hok hstep)).one,
    (Tracked.reachable hdoc h).keeps hdoc hok hstep⟩

/-! ## A pull request that is asked for twice -/

def World.creations (w : World) (runId : RunId) : List String :=
  w.calls.filterMap fun
    | .createPr id _ (some prRef) => if id = runId then some prRef else none
    | _ => none

def observed (j : Joint (List PullRequest)) :
    JointLabel (List PullRequest) → Bool
  | .machine l host =>
      match j.world.position, l with
      | .finalizing f .listing, .proceed answer _ =>
          answer.printed = .ok (firstOpen j.host f.branch) && host = j.host
      | .finalizing f .creating, .proceed (.output url) _ =>
          url ≠ "" && host = j.host ++ [⟨url, f.branch⟩]
      | .finalizing _ .creating, .proceed _ _
      | .finalizing _ (.merging _), .proceed _ _ => false
      | _, _ => host = j.host
  | .others host =>
      host.all fun pr => j.host.contains pr ||
        pr.head.toList.take 5 ≠ "task/".toList

theorem undisputed_of_observed {j : Joint (List PullRequest)}
    {l : JointLabel (List PullRequest)} (h : observed j l = true) :
    Undisputed listHub j l := by
  cases l with
  | machine l host =>
      change listHub.Serves j.world.position l j.host host
      simp only [observed] at h
      split at h
      · rename_i f answer now hposition
        rw [Bool.and_eq_true, decide_eq_true_eq, decide_eq_true_eq] at h
        rw [hposition]
        exact h
      · rename_i f url now hposition
        rw [Bool.and_eq_true, decide_eq_true_eq, decide_eq_true_eq] at h
        rw [hposition]
        exact h
      · cases h
      · cases h
      · rename_i hlisting houtput hcreating hmerging
        have hsame : host = j.host := of_decide_eq_true h
        unfold GitHub.Serves
        split
        · exact absurd rfl (hlisting _ _ _ ‹_›)
        · exact absurd rfl (hcreating _ _ _ ‹_›)
        · exact .inl hsame
        · exact absurd rfl (hmerging _ _ _ _ ‹_›)
        · exact .inl hsame
        · exact hsame
  | others host =>
      rintro runId url ⟨hsome, hopen⟩
      have hpr := List.all_eq_true.mp h _ hopen
      simp only [Bool.or_eq_true, List.contains_iff_mem, decide_eq_true_eq] at hpr
      rcases hpr with hold | hhead
      · exact ⟨hsome, hold⟩
      · simp [taskBranch, String.toList_append] at hhead

def beside (host : List PullRequest) (labels : List Label) :
    List (JointLabel (List PullRequest)) :=
  labels.map fun l => .machine l host

def ownPull : PullRequest := ⟨pull, "task/run-1"⟩

def otherPull : PullRequest := ⟨"https://git.example/pull/2", "feature"⟩

/--
The coordinator stops right after the creation, somebody opens a pull request of
another branch, and the event is handled again.
-/
def crashAfterCreation : List (JointLabel (List PullRequest)) :=
  beside [] (workDone ++ proceedAll 4000 [.done, .done, .output ""]) ++
    beside [ownPull] [.proceed (.output pull) 4000, .crash] ++
    .others [ownPull, otherPull] ::
    beside [ownPull, otherPull]
      (.deliver completeEvent (dayDates.toISOString 5000) ::
        proceedAll 6000 [.done, .done])

def askedAgain : JointLabel (List PullRequest) :=
  .machine (.proceed (.output pull) 6000) [ownPull, otherPull]

def oneTaskJoint : Joint (List PullRequest) where
  world := oneTaskWorld
  host := []

theorem oneTaskJoint_initial :
    (jointSystem dayDates prConfig soloRegistry listHub).initial oneTaskJoint :=
  ⟨neverFinalized_oneTask, fun _ _ _ hopen _ => by cases hopen.2⟩

theorem one_pull_request_redelivered :
    ∃ j j', (jointSystem dayDates prConfig soloRegistry listHub).run
        oneTaskJoint crashAfterCreation = some j ∧
      (jointSystem dayDates prConfig soloRegistry listHub).step j askedAgain =
        some j' ∧
      j'.world.creations "run-1" = [pull, pull] ∧ OneOpen listHub j'.host ∧
      KeepsOnePr listHub j j' := by
  have hrun : ((jointSystem dayDates prConfig soloRegistry listHub).run
      oneTaskJoint crashAfterCreation).bind (fun j =>
        ((jointSystem dayDates prConfig soloRegistry listHub).step j
          askedAgain).map fun j' =>
            (observed j askedAgain, j'.world.creations "run-1")) =
      some (true, [pull, pull]) := by
    decide +kernel
  have halong : (jointSystem dayDates prConfig soloRegistry listHub).Along
      (fun j l => observed j l = true) oneTaskJoint crashAfterCreation := by
    decide +kernel
  obtain ⟨j, hj, hstep⟩ := Option.bind_eq_some_iff.mp hrun
  obtain ⟨j', hj', hparts⟩ := Option.map_eq_some_iff.mp hstep
  obtain ⟨hobserved, hcreations⟩ := Prod.mk.inj hparts
  have hreached := (System.ReachableUnder.initial oneTaskJoint_initial).run
    halong hj
  obtain ⟨hone, hkeeps⟩ := one_pull_request dayDates prConfig soloRegistry
    listHub listHub_documented (hreached.mono fun _ _ => undisputed_of_observed)
    (undisputed_of_observed hobserved) hj'
  exact ⟨j, j', hj, hj', hcreations, hone, hkeeps⟩

/-- Two creations succeed for the run, so not at most one. -/
theorem not_created_once :
    ¬ ∀ j, (jointSystem dayDates prConfig soloRegistry listHub).ReachableUnder
        (Undisputed listHub) j → (j.world.creations "run-1").length ≤ 1 := by
  have hrun : ((jointSystem dayDates prConfig soloRegistry listHub).run
      oneTaskJoint (crashAfterCreation ++ [askedAgain])).map
        (fun j => (j.world.creations "run-1").length) = some 2 := by
    decide +kernel
  have halong : (jointSystem dayDates prConfig soloRegistry listHub).Along
      (fun j l => observed j l = true) oneTaskJoint
        (crashAfterCreation ++ [askedAgain]) := by
    decide +kernel
  obtain ⟨j, hj, htwo⟩ := System.exists_run_of_map _ hrun
  have hreached := (System.ReachableUnder.initial oneTaskJoint_initial).run
    halong hj
  intro hall
  have hle := hall j (hreached.mono fun _ _ => undisputed_of_observed)
  rw [htwo] at hle
  exact absurd hle (by decide)

end OrcState.Finalization
