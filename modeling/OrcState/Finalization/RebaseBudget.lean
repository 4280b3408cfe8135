import OrcState.Finalization.Graph
import OrcState.Lifecycle.FinalizationFields

/-!
# The budget of rebases

A run may be asked to rebase twice.  The count on its claim goes up when a
request was delivered, and once more when the worker reports that the rebase it
was asked for has started.  The machine is run here with a record of both, and
of the delivered requests that the worker has answered with a report.
-/

namespace OrcState.Finalization

open OrcState.Contract OrcState.Foundation OrcState.Store OrcState.Lifecycle
open OrcState.Coordinator OrcState.Foundation.Effect

variable {dates : DateApi} {cfg : CoordinatorConfig} {registry : Registry}

/-! ## The record -/

/-- A delivered request, and what was in the log when it was. -/
structure Attempt where
  runId : RunId
  logged : List OrcEvent
  deriving DecidableEq

/--
The requests workers have received, the rebases seen to start, and the attempts
that are not answered yet and those that are complete.
-/
structure Tally where
  world : World := {}
  delivered : List RunId := []
  started : List RunId := []
  pending : List Attempt := []
  complete : List RunId := []
  deriving DecidableEq

def Position.asking : Position → Option Claim
  | .finalizing _ (.sendingRebase updated _ _) => some updated
  | .finalizing _ (.countingRetry updated) => some updated
  | _ => none

def Position.uncounted : Position → Option RunId
  | .finalizing _ (.countingRetry updated) => some updated.runId
  | _ => none

def delivers (w : World) : Label → Option RunId
  | .proceed .done _ =>
      match w.position with
      | .finalizing _ (.sendingRebase updated _ _) => some updated.runId
      | _ => none
  | _ => none

def starts (w : World) : Label → Option RunId
  | .deliver event _ =>
      if event.event = .finalizeRebaseStarted then
        ((eventClaim w.project event).filter fun c =>
          c.state = .inProgress && c.agentId = event.agentId.getD "" &&
            c.finalizationState = some .finalizeRebaseRequested).map Claim.runId
      else none
  | _ => none

def isReport (event : OrcEvent) : Bool :=
  event.event = .workComplete || event.event = .readyToMerge

/-- A report completes an attempt of its run if it was made after the request. -/
def Attempt.answeredBy (a : Attempt) : Label → Bool
  | .deliver event _ =>
      isReport event && event.runId = some a.runId && event ∉ a.logged
  | _ => false

/-- The attempts that a step leaves without an answer, and the one it adds. -/
def pendingAfter (t : Tally) (l : Label) : List Attempt :=
  (t.pending.filter fun a => !a.answeredBy l) ++
    ((delivers t.world l).map fun runId =>
      ⟨runId, t.world.project.events.events⟩).toList

def completeAfter (t : Tally) (l : Label) : List RunId :=
  t.complete ++ (t.pending.filter fun a => a.answeredBy l).map Attempt.runId

def tallyStep (dates : DateApi) (cfg : CoordinatorConfig) (registry : Registry)
    (t : Tally) (l : Label) : Option Tally :=
  (step dates cfg registry t.world l).map fun w =>
    { world := w
      delivered := t.delivered ++ (delivers t.world l).toList
      started := t.started ++ (starts t.world l).toList
      pending := pendingAfter t l
      complete := completeAfter t l }

structure Untouched (t : Tally) : Prop where
  world : NeverFinalized t.world
  delivered : t.delivered = []
  started : t.started = []
  pending : t.pending = []
  complete : t.complete = []

def tallySystem (dates : DateApi) (cfg : CoordinatorConfig)
    (registry : Registry) : System Tally Label where
  initial := Untouched
  step := tallyStep dates cfg registry

/-! ## The books -/

/-- What the active claims count, with `p` still to come, is `d`. -/
def Balanced (p d : List RunId) (s : Project) : Prop :=
  ∀ c, c ∈ s.events.runs → c.active = true →
    c.finalizationRetryCount + p.count c.runId = d.count c.runId

structure Books (p d : List RunId) (s : Project) : Prop where
  sound : Sound s
  known : ∀ id ∈ p ++ d, s.tasks.Bound id
  balanced : Balanced p d s

/-- A call that sets a finalization and leaves the count alone, or sets none. -/
def CountsNothing (a : Action) : Prop :=
  ∀ runId agentId u, a = .setRunFinalizationState runId agentId u →
    u.retryCountDelta = 0

theorem countsNothing_of_other {a : Action} (h : ofCoordinator a ≠ true) :
    CountsNothing a := by
  rintro runId agentId u rfl
  exact absurd rfl h

theorem addRetries_zero (count : Nat) : addRetries count 0 = count := by
  unfold addRetries
  omega

theorem addRetries_one (count : Nat) : addRetries count 1 = count + 1 := by
  unfold addRetries
  omega

section Books

variable {p d : List RunId} {s : Project}

theorem Books.unknown (h : Books p d s) {id : RunId}
    (hnew : ¬ s.tasks.Bound id) : p.count id = 0 ∧ d.count id = 0 := by
  constructor
  · exact List.count_eq_zero.mpr fun hmem =>
      hnew (h.known id (List.mem_append_left d hmem))
  · exact List.count_eq_zero.mpr fun hmem =>
      hnew (h.known id (List.mem_append_right p hmem))

/-- Only what a call sets can upset the books. -/
theorem Books.line (h : Books p d s) {a : Action} {c' : Claim}
    (hmove : FieldsMove dates s a c') (hactive : c'.active = true)
    (hset : ∀ runId agentId u c, a = .setRunFinalizationState runId agentId u →
      c ∈ s.events.runs → c.runId = runId → c' = applyFinalization u c →
      c'.finalizationRetryCount + p.count c'.runId = d.count c'.runId) :
    c'.finalizationRetryCount + p.count c'.runId = d.count c'.runId := by
  cases hmove with
  | claimed hnew _ hfields =>
      have hcount : c'.finalizationRetryCount = 0 :=
        congrArg FinalizationFields.retryCount hfields
      obtain ⟨hp, hd⟩ := h.unknown hnew
      rw [hcount, hp, hd]
  | kept c hc hid hstate hfields =>
      have hcount : c'.finalizationRetryCount = c.finalizationRetryCount :=
        congrArg FinalizationFields.retryCount hfields
      have hlive : c.active = true := by
        rcases hstate with hsame | ⟨hclaimed, -⟩
        · rwa [Claim.active, ← hsame]
        · rw [Claim.active, hclaimed]
          rfl
      rw [hcount, hid]
      exact h.balanced c hc hlive
  | cleared c _ _ hended _ =>
      rw [hended] at hactive
      cases hactive
  | forgotten c _ _ _ hended _ =>
      rw [hended] at hactive
      cases hactive
  | set runId agentId u c hc hid _ ha _ he =>
      exact hset runId agentId u c ha hc hid he

theorem Books.call (h : Books p d s) {a : Action} (ha : CountsNothing a) :
    Books p d (perform dates registry a s).2 := by
  refine ⟨h.sound.perform (Prod.eta _).symm, fun id hid =>
    (bound_invariant id a s ⟨h.sound, h.known id hid⟩).2, ?_⟩
  intro c' hc' hactive
  have hmoved : FieldsMoved dates a s (perform dates registry a s).2 :=
    .perform h.sound (Prod.eta _).symm
  refine h.line (hmoved c' hc') hactive fun runId agentId u c hcall hc _ he => ?_
  subst he
  have hcount : (applyFinalization u c).finalizationRetryCount =
      c.finalizationRetryCount := by
    rw [applyFinalization, ha runId agentId u hcall, addRetries_zero]
  rw [hcount]
  exact h.balanced c hc hactive

theorem Books.kept (dates : DateApi) (registry : Registry)
    (p d : List RunId) : KeptBy dates registry CountsNothing (Books p d) :=
  fun _ _ ha h => h.call ha

theorem Books.count (h : Books p d s) {runId : RunId} {agentId : AgentId}
    {u : FinalizationUpdate} (hdelta : u.retryCountDelta = 1)
    (hbound : s.tasks.Bound runId)
    (hgoing : ∀ c, c ∈ s.events.runs → c.runId = runId → c.active = true →
      c.state = .inProgress ∧ c.agentId = agentId) {t : Project}
    {r : Except DomainError Claim}
    (ht : setRunFinalizationState dates runId agentId u s = (r, t)) :
    Books p (d ++ [runId]) t := by
  have hcall : (perform dates soloRegistry
      (.setRunFinalizationState runId agentId u) s).2 = t :=
    (result_snd _ _ _).trans (congrArg Prod.snd ht)
  refine ⟨hcall ▸ h.sound.perform (Prod.eta _).symm, fun id hid => ?_, ?_⟩
  · have hold : s.tasks.Bound id := by
      rw [← List.append_assoc, List.mem_append, List.mem_singleton] at hid
      rcases hid with hid | rfl
      · exact h.known id hid
      · exact hbound
    exact hcall ▸ (bound_invariant id _ s ⟨h.sound, hold⟩).2
  intro c' hc' hactive
  rw [List.count_append]
  by_cases hown : c'.runId = runId
  · have hmoved : ClaimsMoved dates
        { finalization := some (runId, u.finalizationState) } s t :=
      .setRunFinalizationState ht rfl
    rcases hmoved.source c' hc' with ⟨c, hc, hmove⟩ | ⟨-, -, hnew, -⟩
    · have hid : c.runId = runId := hmove.runId.symm.trans hown
      have hlive : c.active = true := hmove.active hactive
      obtain ⟨hstate, howner⟩ := hgoing c hc hid hlive
      obtain ⟨t', ht', hfound⟩ : ∃ t', setRunFinalizationState dates runId
          agentId u s = (.ok (applyFinalization u c), t') ∧
          t'.findClaim runId = some (applyFinalization u c) :=
        setRunFinalizationState_total u h.sound.one
          (Table.find?_eq_some.mpr ⟨hc, hid⟩) howner hstate
      obtain rfl : t' = t := congrArg Prod.snd (ht'.symm.trans ht)
      obtain rfl : c' = applyFinalization u c :=
        Table.eq_of_key hc' (Table.find?_eq_some.mp hfound).1
          (hown.trans hid.symm)
      have hbefore := h.balanced c hc hlive
      have hcount : (applyFinalization u c).finalizationRetryCount =
          c.finalizationRetryCount + 1 := by
        rw [applyFinalization, hdelta, addRetries_one]
      change (applyFinalization u c).finalizationRetryCount +
        p.count c.runId = d.count c.runId + [runId].count c.runId
      rw [hcount, hid, List.count_singleton_self]
      rw [hid] at hbefore
      omega
    · exact absurd hbound (hown ▸ hnew)
  · have hnot : [runId].count c'.runId = 0 :=
      List.count_eq_zero.mpr fun hmem => hown (List.mem_singleton.mp hmem)
    rw [hnot]
    refine h.line (FieldsMoved.setRunFinalizationState ht c' hc') hactive
      fun runId' agentId' u' c ha hc hid he => ?_
    cases ha
    subst he
    exact absurd hid hown

theorem Books.entered (h : Books [] d s) {id : RunId}
    (hbound : s.tasks.Bound id) : Books [id] (id :: d) s := by
  refine ⟨h.sound, fun x hx => ?_, fun c hc hactive => ?_⟩
  · rcases List.mem_cons.mp hx with rfl | hx
    · exact hbound
    · rcases List.mem_cons.mp hx with rfl | hx
      · exact hbound
      · exact h.known x hx
  · have hbefore := h.balanced c hc hactive
    rw [List.count_nil] at hbefore
    rw [List.count_cons, List.count_cons, List.count_nil]
    omega

theorem Books.settled {id : RunId} (h : Books [id] (d ++ [id]) s) :
    Books [] d s := by
  refine ⟨h.sound, fun x hx => h.known x ?_, fun c hc hactive => ?_⟩
  · exact List.mem_append_right _ (List.mem_append_left _ hx)
  · have hbefore := h.balanced c hc hactive
    rw [List.count_append] at hbefore
    rw [List.count_nil]
    omega

/-- The books do not depend on the order of their entries. -/
theorem Books.perm {d' : List RunId} (h : Books p d s) (hperm : d.Perm d') :
    Books p d' s := by
  refine ⟨h.sound, fun x hx => h.known x ?_, fun c hc hactive => ?_⟩
  · rw [List.mem_append] at hx ⊢
    exact hx.imp_right hperm.mem_iff.mpr
  · rw [← hperm.count_eq]
    exact h.balanced c hc hactive

end Books

/-! ## Deliveries -/

theorem starts_eq {w : World} {event : OrcEvent} {nowIso : String} {c : Claim}
    (hclaim : eventClaim w.project event = some c)
    (hstate : c.state = .inProgress)
    (hevent : event.event = .finalizeRebaseStarted)
    (hasked : c.finalizationState = some .finalizeRebaseRequested) :
    starts w (.deliver event nowIso) =
      if c.agentId = event.agentId.getD "" then some c.runId else none := by
  by_cases howner : c.agentId = event.agentId.getD "" <;>
    simp [starts, hevent, hclaim, hstate, hasked, howner]

theorem starts_of_not_advancing (dates : DateApi) {w : World}
    {event : OrcEvent} {nowIso : String}
    (h : ∀ state delta blocked extend,
      reduceLifecycleEvent dates event (eventClaim w.project event) nowIso ≠
        .advanceFinalization state delta blocked extend) :
    starts w (.deliver event nowIso) = none := by
  simp only [starts]
  split
  · rename_i hevent
    refine Option.map_eq_none_iff.mpr (Option.filter_eq_none_iff.mpr ?_)
    intro c hclaim hguard
    simp only [Bool.and_eq_true, decide_eq_true_eq] at hguard
    obtain ⟨⟨hstate, -⟩, hasked⟩ := hguard
    refine h .finalizeRebaseInProgress 1 none (some FINALIZE_LEASE_MS) ?_
    simp [reduceLifecycleEvent, hevent, reduceRebaseStarted, hclaim, hstate,
      hasked]
  · rfl

theorem Books.advanced {d : List RunId} {w : World} {event : OrcEvent}
    {nowIso : String} (h : Books [] d w.project) {state : FinalizationState}
    {delta : Int} {blocked : Option String} {extend : Option Int}
    (haction : reduceLifecycleEvent dates event (eventClaim w.project event)
      nowIso = .advanceFinalization state delta blocked extend)
    {t : Project} {r : Except DomainError Claim}
    (ht : setRunFinalizationState dates (event.runId.getD "")
      (event.agentId.getD "")
      { finalizationState := some state, retryCountDelta := delta
        blockedReason := blocked } w.project = (r, t)) :
    Books [] (d ++ (starts w (.deliver event nowIso)).toList) t := by
  obtain ⟨c, hclaim, hstate, -, ⟨hother, rfl⟩ | ⟨hevent, rfl, hasked⟩⟩ :=
    reduceLifecycleEvent_advance haction
  · have hnone : starts w (.deliver event nowIso) = none := if_neg hother
    rw [hnone, Option.toList_none, List.append_nil]
    refine (Books.kept dates soloRegistry [] _).of_result
      (.setRunFinalizationState _ _ _) ?_ rfl h ht
    rintro _ _ _ ha
    cases ha
    rfl
  have hfind := eventClaim_eq_some hclaim
  obtain ⟨hc, hid⟩ := Table.find?_eq_some.mp hfind
  rw [starts_eq hclaim hstate hevent hasked]
  by_cases howner : c.agentId = event.agentId.getD ""
  · rw [if_pos howner, hid]
    refine h.count rfl (hid ▸ h.sound.bound c hc) (fun c' hc' hid' _ => ?_) ht
    obtain rfl : c' = c := Table.eq_of_key hc' hc (hid'.trans hid.symm)
    exact ⟨hstate, howner⟩
  · rw [if_neg howner, Option.toList_none, List.append_nil]
    rcases setRunFinalizationState_cases ht with
      rfl | ⟨claim, hfind', howner', -⟩
    · exact h
    · cases hfind.symm.trans hfind'
      exact absurd howner' howner

/-- What a delivery adds to the books is the rebase its event starts. -/
theorem Books.applyEvent {d : List RunId} {w : World} {event : OrcEvent}
    {nowIso : String} (h : Books [] d w.project) {t : Project}
    {r : Except DomainError Unit}
    (ht : applyEvent dates event nowIso w.project = (r, t)) :
    Books [] (d ++ (starts w (.deliver event nowIso)).toList) t := by
  have happly : applyAction dates event (reduceLifecycleEvent dates event
      (eventClaim w.project event) nowIso) (eventClaim w.project event) nowIso
        w.project = (r, t) := ht
  cases haction : reduceLifecycleEvent dates event
      (eventClaim w.project event) nowIso with
  | advanceFinalization state delta blocked extend =>
      rw [haction] at happly
      rcases bind_cases happly with ⟨e, hx, -⟩ | ⟨c, m, hx, happly⟩
      · exact h.advanced haction hx
      have hm := h.advanced haction hx
      cases extend with
      | none =>
          cases happly
          exact hm
      | some ms =>
          obtain ⟨r', hbeat⟩ := attempt_cases happly
          refine (Books.kept dates soloRegistry [] _).of_result
            (.heartbeat _ _ _) ?_ rfl hm hbeat
          rintro _ _ _ ha
          cases ha
  | _ =>
      have hnone : starts w (.deliver event nowIso) = none := by
        refine starts_of_not_advancing dates
          fun state delta blocked extend hadvance => ?_
        cases haction.symm.trans hadvance
      rw [haction] at happly
      rw [hnone, Option.toList_none, List.append_nil]
      refine (Books.kept dates soloRegistry [] _).applyAction ?_ h happly
      intro a hmay runId agentId u ha
      rcases hmay runId agentId u ha with hcounts | hzero
      · exact hcounts
      · exact hzero

/-! ## Where a request stands -/

theorem uncounted_of_asking {position : Position} (h : position.asking = none) :
    position.uncounted = none := by
  unfold Position.asking at h
  unfold Position.uncounted
  split at h
  · cases h
  · cases h
  · rename_i hcounting
    split
    · exact absurd rfl (hcounting _ _)
    · rfl

theorem finalizeRun_asking (claim : Claim) (eventSeq : Nat) (w : World) :
    (finalizeRun cfg claim eventSeq w).position.asking = none := by
  unfold finalizeRun
  split
  · rfl
  · dsimp only
    repeat' split
    all_goals rfl

theorem afterApplied_asking (event : OrcEvent) (w : World) :
    (afterApplied cfg event w).position.asking = none := by
  unfold afterApplied
  dsimp only
  split
  · exact finalizeRun_asking _ _ _
  · rfl

theorem processEvent_asking {event : OrcEvent} {nowIso : String} {w : World}
    (hidle : w.position = .idle) :
    (processEvent dates cfg event nowIso w).position.asking = none := by
  unfold processEvent
  split
  · change w.position.asking = none
    rw [hidle]
    rfl
  · split
    · rfl
    · exact afterApplied_asking _ _

theorem endReview_asking (event : OrcEvent) (time nowIso : String)
    (w : World) :
    (endReview dates cfg event time nowIso w).position.asking = none := by
  unfold endReview World.attempt
  split
  · exact afterApplied_asking _ _
  · rfl

theorem advance_asking {f : FinalizeArgs} {answer : Answer} {now : Int}
    {w : World} {stage : Stage}
    (hrequesting : ∀ reason, stage ≠ .requesting reason)
    (hsending : ∀ updated hadPending reason,
      stage ≠ .sendingRebase updated hadPending reason) :
    (advance dates cfg f answer now w stage).position.asking = none := by
  cases stage with
  | requesting reason => exact absurd rfl (hrequesting reason)
  | sendingRebase updated hadPending reason =>
      exact absurd rfl (hsending updated hadPending reason)
  | _ =>
      simp only [advance, viewPullRequest, mergePullRequest, chooseStrategy,
        pushTaskBranch, listPullRequests, createPullRequest, reviewSent,
        checkMain, mergeTaskBranch, markDone, finish, World.attemptThen,
        World.attempt]
      repeat' split
      all_goals rfl

/-! ## Every step -/

/--
Between a message and its count the coordinator neither stops nor fails to
write, which come to the same here.
-/
def unbroken (w : World) : Label → Bool
  | .crash => w.position.uncounted.isNone
  | _ => true

structure Tallied (w : World) (delivered started : List RunId) : Prop where
  books : Books w.position.uncounted.toList (delivered ++ started) w.project
  going : ∀ updated ∈ w.position.asking,
    Going updated (fun _ => True) w.project

section Tallied

variable {w w' : World} {delivered started : List RunId}

theorem Tallied.of_rest (hasking : w.position.asking = none)
    (h : Books [] (delivered ++ started) w.project) :
    Tallied w delivered started := by
  refine ⟨?_, fun updated hupdated => ?_⟩
  · rw [uncounted_of_asking hasking]
    exact h
  · rw [hasking] at hupdated
    cases hupdated

theorem Tallied.closed (h : Tallied w delivered started)
    (hnone : w.position.uncounted = none) :
    Books [] (delivered ++ started) w.project := by
  have hbooks := h.books
  rwa [hnone] at hbooks

theorem stageAction_countsNothing {f : FinalizeArgs} {now : Int} {stage : Stage}
    {a : Action} (hcounting : ∀ updated, stage ≠ .countingRetry updated)
    (ha : stageAction dates cfg f now w stage = some a) :
    CountsNothing a := by
  rintro runId agentId u rfl
  cases stage with
  | countingRetry updated => exact absurd rfl (hcounting updated)
  | markingMerged | markingCreated | markingReview | blocking claim _ =>
      cases ha
      rfl
  | requesting reason =>
      simp only [stageAction] at ha
      split at ha
      · cases ha
      · cases ha
        rfl
  | markingDone reviewed =>
      simp only [stageAction] at ha
      split at ha <;> cases ha
  | _ => cases ha

theorem Books.stage {d : List RunId} (h : Books [] d w.project)
    {f : FinalizeArgs} {answer : Answer} {now : Int}
    {stage : Stage} (hcounting : ∀ updated, stage ≠ .countingRetry updated) :
    Books [] d (advance dates cfg f answer now w stage).project := by
  rw [advance_project soloRegistry]
  split
  · exact h
  · rename_i a ha
    exact h.call (stageAction_countsNothing hcounting ha)

theorem Books.requesting {d : List RunId} (h : Books [] d w.project)
    (f : FinalizeArgs) (reason : String) :
    Books [] d (requestFinalizeRebase dates f reason w).project := by
  have hstage : (advance dates {} f .done 0 w
      (.requesting reason)).project =
      (requestFinalizeRebase dates f reason w).project := rfl
  rw [← hstage]
  exact h.stage (by simp)

theorem going_of_asked {f : FinalizeArgs} {updated : Claim} {p : Project}
    (hsound : Sound p)
    (hx : setFinalization dates (latestClaim f w) .finalizeRebaseRequested 0
      none w.project = (.ok updated, p)) :
    Going updated (fun _ => True) p := by
  obtain ⟨hid, hstored, claim, -, hstate, rfl⟩ :=
    setRunFinalizationState_returns hx
  rw [← hid] at hstored
  exact .of_claim hsound hstored hstate trivial

theorem Tallied.requested {f : FinalizeArgs} {reason : String}
    (h : Books [] (delivered ++ started)
      (requestFinalizeRebase dates f reason w).project) :
    Tallied (requestFinalizeRebase dates f reason w) delivered started := by
  by_cases hspent : 2 ≤ (latestClaim f w).finalizationRetryCount
  · rw [requestFinalizeRebase_spent hspent] at h ⊢
    exact .of_rest rfl h
  · rw [requestFinalizeRebase_asks hspent] at h ⊢
    split at h
    · rename_i updated p hx
      refine ⟨h, fun claim hclaim => ?_⟩
      obtain rfl : updated = claim := Option.some.inj hclaim
      exact going_of_asked h.sound hx
    · exact .of_rest rfl h

theorem Tallied.sent {f : FinalizeArgs} {updated : Claim} {hadPending : Bool}
    {reason : String} {answer : Answer}
    (h : Books [] (delivered ++ started) w.project)
    (hgoing : Going updated (fun _ => True) w.project) :
    Tallied (rebaseSent f updated hadPending reason answer w)
      (delivered ++ if answer = .done then [updated.runId] else [])
      started := by
  by_cases hdone : answer = .done
  · subst hdone
    refine ⟨?_, fun claim hclaim => ?_⟩
    · refine (h.entered hgoing.bound).perm ?_
      rw [if_pos rfl, List.append_assoc, List.singleton_append]
      exact List.perm_middle.symm
    · obtain rfl : updated = claim := Option.some.inj hclaim
      exact hgoing
  · rw [if_neg hdone, List.append_nil]
    unfold rebaseSent
    rw [if_neg hdone]
    split
    · exact .of_rest rfl h
    · exact .of_rest rfl h

theorem Tallied.counted {f : FinalizeArgs} {updated : Claim} {answer : Answer}
    {now : Int}
    (h : Books [updated.runId] (delivered ++ started) w.project)
    (hgoing : Going updated (fun _ => True) w.project) :
    Tallied (advance dates cfg f answer now w (.countingRetry updated))
      delivered started := by
  have hposition : (advance dates cfg f answer now w
      (.countingRetry updated)).position = .idle :=
    World.attemptThen_position fun _ => rfl
  have hproject : (advance dates cfg f answer now w
      (.countingRetry updated)).project =
      (setFinalization dates updated .finalizeRebaseRequested 1 none
        w.project).2 :=
    World.attempt_project (fun _ => rfl) fun _ _ => rfl
  have hcounted : Books [updated.runId]
      (delivered ++ started ++ [updated.runId])
      (setFinalization dates updated .finalizeRebaseRequested 1 none
        w.project).2 := by
    refine h.count rfl hgoing.bound (fun c hc hid hactive => ?_)
      (Prod.eta _).symm
    obtain ⟨hstate, howner, -⟩ := hgoing.stored c hc hid hactive
    exact ⟨hstate, howner⟩
  refine .of_rest (by rw [hposition]; rfl) ?_
  rw [hproject]
  exact hcounted.settled

theorem Tallied.passed {f : FinalizeArgs} {answer : Answer} {now : Int}
    {stage : Stage} (h : Books [] (delivered ++ started) w.project)
    (hrequesting : ∀ reason, stage ≠ .requesting reason)
    (hsending : ∀ updated hadPending reason,
      stage ≠ .sendingRebase updated hadPending reason)
    (hcounting : ∀ updated, stage ≠ .countingRetry updated) :
    Tallied (advance dates cfg f answer now w stage) delivered started :=
  .of_rest (advance_asking hrequesting hsending) (h.stage hcounting)

theorem delivers_proceed {f : FinalizeArgs} {stage : Stage} {answer : Answer}
    {now : Int} (hposition : w.position = .finalizing f stage)
    (hsending : ∀ updated hadPending reason,
      stage ≠ .sendingRebase updated hadPending reason) :
    delivers w (.proceed answer now) = none := by
  unfold delivers
  split
  · rw [hposition]
    cases stage with
    | sendingRebase updated hadPending reason =>
        exact absurd rfl (hsending updated hadPending reason)
    | _ => rfl
  · rfl

theorem Tallied.proceed {f : FinalizeArgs} {stage : Stage} {answer : Answer}
    {now : Int} (h : Tallied w delivered started)
    (hposition : w.position = .finalizing f stage) :
    Tallied (advance dates cfg f answer now w stage)
      (delivered ++ (delivers w (.proceed answer now)).toList) started := by
  cases stage with
  | requesting reason =>
      rw [delivers_proceed hposition (by simp), Option.toList_none,
        List.append_nil]
      have hclosed := h.closed (by rw [hposition]; rfl)
      exact .requested (hclosed.requesting f reason)
  | sendingRebase updated hadPending reason =>
      have hentry : (delivers w (.proceed answer now)).toList =
          if answer = .done then [updated.runId] else [] := by
        cases answer <;> simp [delivers, hposition]
      rw [hentry]
      exact .sent (h.closed (by rw [hposition]; rfl))
        (h.going updated (by rw [hposition]; rfl))
  | countingRetry updated =>
      rw [delivers_proceed hposition (by simp), Option.toList_none,
        List.append_nil]
      have hbooks := h.books
      rw [hposition] at hbooks
      exact .counted hbooks (h.going updated (by rw [hposition]; rfl))
  | _ =>
      rw [delivers_proceed hposition (by simp), Option.toList_none,
        List.append_nil]
      exact .passed (h.closed (by rw [hposition]; rfl)) (by simp) (by simp)
        (by simp)

theorem Tallied.step {l : Label} (h : Tallied w delivered started)
    (hok : unbroken w l = true)
    (hw : step dates cfg registry w l = some w') :
    Tallied w' (delivered ++ (delivers w l).toList)
      (started ++ (starts w l).toList) := by
  cases l with
  | call a =>
      simp only [Finalization.step] at hw
      split at hw
      · cases hw
      rename_i hother
      cases hw
      simp only [delivers, starts, Option.toList_none, List.append_nil]
      exact ⟨h.books.call (countsNothing_of_other hother), fun updated hu =>
        (h.going updated hu).call h.books.sound a fun _ _ => trivial⟩
  | worktree runId =>
      cases hw
      simp only [delivers, starts, Option.toList_none, List.append_nil]
      exact ⟨h.books, h.going⟩
  | deliver event nowIso =>
      simp only [Finalization.step] at hw
      split at hw <;> cases hw
      rename_i hguard
      refine .of_rest (processEvent_asking hguard.1) ?_
      rw [processEvent_project]
      have hclosed := h.closed (by rw [hguard.1]; rfl)
      simp only [delivers, Option.toList_none, List.append_nil]
      rw [← List.append_assoc]
      exact hclosed.applyEvent (Prod.eta _).symm
  | retry runId live =>
      simp only [Finalization.step] at hw
      repeat' split at hw
      all_goals cases hw
      rename_i claim hidle _ _
      simp only [delivers, starts, Option.toList_none, List.append_nil]
      have hclosed := h.closed (by rw [hidle]; rfl)
      unfold handleFinalizationRetry
      dsimp only
      split
      · exact .of_rest rfl hclosed
      · exact .of_rest rfl hclosed
  | proceed answer now =>
      simp only [Finalization.step] at hw
      simp only [starts, Option.toList_none, List.append_nil]
      split at hw
      · cases hw
      · rename_i event time hposition
        cases hw
        have hnone : delivers w (.proceed answer now) = none := by
          cases answer <;> simp [delivers, hposition]
        rw [hnone, Option.toList_none, List.append_nil]
        refine .of_rest (endReview_asking event time _ _) ?_
        rw [endReview_project]
        refine (Books.kept dates soloRegistry [] _).finishReview
          (fun _ _ _ _ => ?_) (h.closed (by rw [hposition]; rfl))
          (Prod.eta _).symm
        rintro _ _ _ ha
        cases ha
      · rename_i f stage hposition
        cases hw
        exact h.proceed hposition
  | crash =>
      cases hw
      simp only [delivers, starts, Option.toList_none, List.append_nil]
      exact .of_rest rfl (h.closed (Option.isNone_iff_eq_none.mp hok))

end Tallied

theorem Tallied.initial {t : Tally}
    (h : Untouched t) : Tallied t.world t.delivered t.started := by
  have hbooks : Books [] (t.delivered ++ t.started) t.world.project := by
    refine ⟨.fresh h.world.project, ?_, fun c hc => ?_⟩
    · rw [h.delivered, h.started]
      intro id hid
      cases hid
    · rw [Table.mem_rows, h.world.project.runs] at hc
      cases hc
  exact .of_rest (by rw [h.world.position]; rfl) hbooks

/-- In every run, the count of a claim is its requests and its rebases. -/
theorem Tallied.reachable {t : Tally}
    (h : (tallySystem dates cfg registry).ReachableUnder
      (fun t l => unbroken t.world l = true) t) :
    Tallied t.world t.delivered t.started := by
  refine h.invariant (I := fun t => Tallied t.world t.delivered t.started)
    (fun _ hi => .initial hi) fun t l t' _ ht hok hstep => ?_
  obtain ⟨w, hw, rfl⟩ := Option.map_eq_some_iff.mp hstep
  exact ht.step hok hw

/-! ## The attempts -/

theorem finalizeRun_claim {claim : Claim} {eventSeq : Nat} {w : World}
    {f : FinalizeArgs} {stage : Stage}
    (h : (finalizeRun cfg claim eventSeq w).position = .finalizing f stage) :
    f.claim = claim := by
  unfold finalizeRun at h
  split at h
  · cases h
    rfl
  · dsimp only at h
    split at h
    · split at h <;> cases h <;> rfl
    · cases h
      rfl

theorem advance_quiet {w : World} {f f' : FinalizeArgs} {stage stage' : Stage}
    {answer : Answer} {now : Int} (hposition : w.position = .finalizing f' stage)
    (hnext : (advance dates cfg f' answer now w stage).position =
      .finalizing f stage')
    (hcounted : (advance dates cfg f' answer now w stage).position.uncounted =
      none) :
    f' = f ∧ (Position.finalizing f' stage).uncounted = none ∧
      delivers w (.proceed answer now) = none := by
  have hsame : f' = f := by
    rcases advance_position f' answer now w stage with hidle | ⟨_, hstage⟩
    · cases hidle.symm.trans hnext
    · cases hstage.symm.trans hnext
      rfl
  refine ⟨hsame, ?_⟩
  cases stage with
  | countingRetry updated =>
      cases (World.attemptThen_position fun _ => rfl).symm.trans hnext
  | sendingRebase updated hadPending reason =>
      refine ⟨rfl, ?_⟩
      by_cases hdone : answer = .done
      · subst hdone
        cases hcounted
      · cases answer with
        | done => exact absurd rfl hdone
        | _ => rfl
  | _ => exact ⟨rfl, delivers_proceed hposition (by simp)⟩

/--
Once two requests of a run are delivered, its finalization is not begun again
before its worker has reported on them: a silent worker is not asked a third
time, and no report from before a request is handled again.
-/
def Answered (t : Tally) : Label → Prop
  | .retry runId _ =>
      2 ≤ t.delivered.count runId → ∀ a ∈ t.pending, a.runId ≠ runId
  | .deliver event _ =>
      isReport event = true → ∀ c ∈ eventClaim t.world.project event,
        c.state = .inProgress → 2 ≤ t.delivered.count c.runId →
          ∀ a ∈ t.pending, a.runId = c.runId → event ∉ a.logged
  | _ => True

instance (t : Tally) (l : Label) : Decidable (Answered t l) :=
  match l with
  | .retry runId _ =>
      inferInstanceAs (Decidable
        (2 ≤ t.delivered.count runId → ∀ a ∈ t.pending, a.runId ≠ runId))
  | .deliver event _ =>
      @instDecidableForall (isReport event = true) _ inferInstance inferInstance
  | .call _ | .worktree _ | .proceed _ _ | .crash => isTrue trivial

/-- No attempt of the run waits for an answer, if two were made. -/
def Settled (t : Tally) (runId : RunId) : Prop :=
  2 ≤ t.delivered.count runId → ∀ a ∈ t.pending, a.runId ≠ runId

structure Attended (t : Tally) : Prop where
  accounts : ∀ id, t.delivered.count id =
    t.complete.count id + (t.pending.map Attempt.runId).count id
  settled : ∀ f stage, t.world.position = .finalizing f stage →
    t.world.position.uncounted = none → Settled t f.claim.runId
  review : EndsReview t.world

/-- A step answers some attempts and may add one. -/
theorem accounts_after {t : Tally} {l : Label} {id : RunId}
    (h : t.delivered.count id =
      t.complete.count id + (t.pending.map Attempt.runId).count id) :
    (t.delivered ++ (delivers t.world l).toList).count id =
      (completeAfter t l).count id +
        ((pendingAfter t l).map Attempt.runId).count id := by
  have hsplit : (t.pending.map Attempt.runId).count id =
      ((t.pending.filter fun a => a.answeredBy l).map Attempt.runId).count id +
        ((t.pending.filter fun a => !a.answeredBy l).map
          Attempt.runId).count id := by
    rw [← List.count_append, ← List.map_append]
    exact ((List.filter_append_perm _ t.pending).map _).count_eq id |>.symm
  have hadded : (((delivers t.world l).map fun runId =>
      (⟨runId, t.world.project.events.events⟩ : Attempt)).toList.map
        Attempt.runId) = (delivers t.world l).toList := by
    cases delivers t.world l <;> rfl
  rw [completeAfter, pendingAfter, List.map_append, hadded]
  simp only [List.count_append]
  omega

theorem pendingAfter_other {t : Tally} {l : Label}
    (h : ∀ event nowIso, l ≠ .deliver event nowIso)
    (hnone : delivers t.world l = none) : pendingAfter t l = t.pending := by
  rw [pendingAfter, hnone, Option.map_none, Option.toList_none, List.append_nil]
  refine List.filter_eq_self.mpr fun a _ => ?_
  cases l with
  | deliver event nowIso => exact absurd rfl (h event nowIso)
  | _ => rfl

theorem inProgress_of_toFinalize {event : OrcEvent} {nowIso : String}
    {s p : Project} {claim : Claim} {r : Except DomainError Unit}
    (h : applyEvent dates event nowIso s = (r, p))
    (hfinalize : toFinalize event p = some claim) :
    ∃ c ∈ eventClaim s event, c.state = .inProgress ∧
      c.runId = claim.runId := by
  obtain ⟨hevent, hclaim, hstate⟩ := toFinalize_eq_some hfinalize
  have hid : claim.runId = event.runId.getD "" :=
    (Table.find?_eq_some.mp (eventClaim_eq_some hclaim)).2
  cases hbefore : (eventClaim s event).filter fun c => c.state = .inProgress with
  | some c =>
      obtain ⟨hfind, hprogress⟩ := Option.filter_eq_some_iff.mp hbefore
      refine ⟨c, hfind, of_decide_eq_true hprogress, ?_⟩
      rw [hid]
      exact (Table.find?_eq_some.mp (eventClaim_eq_some hfind)).2
  | none =>
      -- the reducer then does nothing, and what is found after was there before
      have hnoop : reduceLifecycleEvent dates event (eventClaim s event)
          nowIso = .noop := by
        rcases hevent with hevent | hevent
        · simp only [reduceLifecycleEvent, hevent, reduceWorkComplete, hbefore]
        · simp only [reduceLifecycleEvent, hevent, reduceReadyToMerge, hbefore]
      have happly : applyAction dates event (reduceLifecycleEvent dates event
          (eventClaim s event) nowIso) (eventClaim s event) nowIso s =
            (r, p) := h
      rw [hnoop] at happly
      cases happly
      rw [hclaim, Option.filter_some, hstate] at hbefore
      cases hbefore

theorem Attended.deliver {t : Tally} {event : OrcEvent} {nowIso : String}
    {f : FinalizeArgs} {stage : Stage}
    (hok : Answered t (.deliver event nowIso))
    (hidle : t.world.position = .idle)
    (hnext : (processEvent dates cfg event nowIso t.world).position =
      .finalizing f stage)
    (h2 : 2 ≤ t.delivered.count f.claim.runId) :
    ∀ a ∈ pendingAfter t (.deliver event nowIso), a.runId ≠ f.claim.runId := by
  have hrun : ∃ c ∈ eventClaim t.world.project event, c.state = .inProgress ∧
      c.runId = f.claim.runId ∧ isReport event = true := by
    unfold processEvent at hnext
    split at hnext
    · cases hidle.symm.trans hnext
    · rename_i u p hx
      split at hnext
      · cases hnext
      · obtain ⟨claim, w₁, -, hfinalize, hstart⟩ := afterApplied_position hnext
        obtain ⟨c, hc, hprogress, hid⟩ := inProgress_of_toFinalize hx hfinalize
        refine ⟨c, hc, hprogress, hid.trans ?_, ?_⟩
        · rw [finalizeRun_claim hstart]
        · rcases (toFinalize_eq_some hfinalize).1 with hevent | hevent <;>
            simp [isReport, hevent]
  obtain ⟨c, hc, hprogress, hid, hreport⟩ := hrun
  have hnamed : event.runId = some c.runId := by
    have hfind := eventClaim_eq_some hc
    have hkey := (Table.find?_eq_some.mp hfind).2
    cases hrunId : event.runId with
    | none =>
        unfold eventClaim at hc
        rw [hrunId] at hc
        cases hc
    | some runId => rw [hkey, hrunId]; rfl
  intro a ha hown
  rw [pendingAfter] at ha
  simp only [delivers, Option.map_none, Option.toList_none,
    List.append_nil] at ha
  obtain ⟨hpending, hopen⟩ := List.mem_filter.mp ha
  have hnew := hok hreport c hc hprogress (hid ▸ h2) a hpending
    (hown.trans hid.symm)
  simp [Attempt.answeredBy, hreport, hnamed, hown, hid, hnew] at hopen

theorem Attended.step {t t' : Tally} {l : Label} (h : Attended t)
    (hok : Answered t l)
    (hstep : tallyStep dates cfg registry t l = some t') : Attended t' := by
  obtain ⟨w, hw, rfl⟩ := Option.map_eq_some_iff.mp hstep
  refine ⟨fun id => accounts_after (h.accounts id),
    fun f stage hnext hcounted h2 => ?_,
    fun event time => review_step h.review hw⟩
  replace hnext : w.position = .finalizing f stage := hnext
  replace hcounted : w.position.uncounted = none := hcounted
  have hsame : ∀ {l : Label}, (∀ event nowIso, l ≠ .deliver event nowIso) →
      delivers t.world l = none → Settled t f.claim.runId →
      2 ≤ (t.delivered ++ (delivers t.world l).toList).count f.claim.runId →
      ∀ a ∈ pendingAfter t l, a.runId ≠ f.claim.runId := by
    intro l hother hnone hsettled h2
    rw [hnone, Option.toList_none, List.append_nil] at h2
    rw [pendingAfter_other hother hnone]
    exact hsettled h2
  cases l with
  | call a =>
      simp only [Finalization.step] at hw
      split at hw <;> cases hw
      exact hsame (by simp) rfl (h.settled f stage hnext hcounted) h2
  | worktree runId =>
      cases hw
      exact hsame (by simp) rfl (h.settled f stage hnext hcounted) h2
  | deliver event nowIso =>
      simp only [Finalization.step] at hw
      split at hw <;> cases hw
      rename_i hguard
      simp only [delivers, Option.toList_none, List.append_nil] at h2
      exact Attended.deliver hok hguard.1 hnext h2
  | retry runId live =>
      simp only [Finalization.step] at hw
      repeat' split at hw
      all_goals cases hw
      rename_i claim _ hfind _
      have hid := (Table.find?_eq_some.mp hfind).2
      have hown : f.claim.runId = runId := by
        unfold handleFinalizationRetry at hnext
        dsimp only at hnext
        split at hnext <;> cases hnext <;> exact hid
      rw [hown] at h2 hsame ⊢
      exact hsame (by simp) rfl hok h2
  | proceed answer now =>
      simp only [Finalization.step] at hw
      split at hw
      · cases hw
      · rename_i event time hposition
        cases hw
        rw [endReview_position (h.review event time hposition)] at hnext
        cases hnext
      · rename_i f₀ stage₀ hposition
        cases hw
        obtain ⟨rfl, hwas, hnone⟩ := advance_quiet hposition hnext hcounted
        exact hsame (by simp) hnone
          (h.settled f₀ stage₀ hposition (by rw [hposition]; exact hwas)) h2
  | crash =>
      cases hw
      cases hnext

theorem Attended.reachable {t : Tally}
    (h : (tallySystem dates cfg registry).ReachableUnder Answered t) :
    Attended t := by
  refine h.invariant (fun t hi => ⟨fun id => ?_, fun f stage hposition => ?_,
    fun event time hposition => ?_⟩) fun _ _ _ _ ht hok hstep =>
      ht.step hok hstep
  · rw [hi.delivered, hi.complete, hi.pending]
    rfl
  · cases hi.world.position.symm.trans hposition
  · cases hi.world.position.symm.trans hposition

/-- When a run is settled, two of its attempts are made just if two are complete. -/
theorem Attended.two_iff {t : Tally} (h : Attended t) {id : RunId}
    (hsettled : Settled t id) :
    2 ≤ t.delivered.count id ↔ 2 ≤ t.complete.count id := by
  have haccounts := h.accounts id
  refine ⟨fun h2 => ?_, fun h2 => by omega⟩
  have hnone : (t.pending.map Attempt.runId).count id = 0 := by
    refine List.count_eq_zero.mpr fun hmem => ?_
    obtain ⟨a, ha, hid⟩ := List.mem_map.mp hmem
    exact hsettled h2 a ha hid
  omega

/-! ## What the count and the budget are meant to be -/

/--
An active claim counts the requests its worker received, and a further one is
refused exactly when two were received and answered.
-/
structure CountsRequests (dates : DateApi) (t : Tally) : Prop where
  counted : ∀ c, c ∈ t.world.project.events.runs → c.active = true →
    c.finalizationRetryCount + t.world.position.uncounted.toList.count c.runId =
      t.delivered.count c.runId
  refused : ∀ f reason c,
    t.world.position = .finalizing f (.requesting reason) →
    t.world.project.findClaim f.claim.runId = some c →
    c.state = .inProgress →
    ((requestFinalizeRebase dates f reason t.world).position =
      .finalizing f (.blocking c reason) ↔ 2 ≤ t.complete.count c.runId)

theorem requestFinalizeRebase_blocks {f : FinalizeArgs} {reason : String}
    {w : World} {c : Claim}
    (hfind : w.project.findClaim f.claim.runId = some c) :
    (requestFinalizeRebase dates f reason w).position =
      .finalizing f (.blocking c reason) ↔ 2 ≤ c.finalizationRetryCount := by
  have hlatest : latestClaim f w = c := by
    rw [latestClaim, hfind]
    rfl
  by_cases hspent : 2 ≤ (latestClaim f w).finalizationRetryCount
  · rw [requestFinalizeRebase_spent hspent, hlatest]
    rw [hlatest] at hspent
    exact ⟨fun _ => hspent, fun _ => rfl⟩
  · rw [requestFinalizeRebase_asks hspent]
    rw [hlatest] at hspent
    refine ⟨fun h => ?_, fun h => absurd h hspent⟩
    split at h
    · cases h
    · cases h

theorem CountsRequests.of_tallied {t : Tally}
    (h : Tallied t.world t.delivered t.started) (hattended : Attended t)
    (hstarted : t.started = []) : CountsRequests dates t := by
  have hcounted : ∀ c, c ∈ t.world.project.events.runs → c.active = true →
      c.finalizationRetryCount +
        t.world.position.uncounted.toList.count c.runId =
          t.delivered.count c.runId := by
    intro c hc hactive
    have hbalanced := h.books.balanced c hc hactive
    rwa [hstarted, List.append_nil] at hbalanced
  refine ⟨hcounted, fun f reason c hposition hfind hstate => ?_⟩
  have hactive : c.active = true := by
    rw [Claim.active, hstate]
    rfl
  obtain ⟨hc, hid⟩ := Table.find?_eq_some.mp hfind
  have hcount := hcounted c hc hactive
  have hnone : t.world.position.uncounted = none := by
    rw [hposition]
    rfl
  rw [hnone, Option.toList_none, List.count_nil, Nat.add_zero] at hcount
  have hsettled := hattended.settled f _ hposition hnone
  rw [← hid] at hsettled
  rw [requestFinalizeRebase_blocks hfind, hcount]
  exact hattended.two_iff hsettled

/--
The worker is found at no rebase it was asked for, no message goes uncounted,
and no third request is due before two attempts are answered.
-/
def CountsOnce (t : Tally) (l : Label) : Prop :=
  unbroken t.world l = true ∧ starts t.world l = none ∧ Answered t l

instance (t : Tally) (l : Label) : Decidable (CountsOnce t l) :=
  inferInstanceAs (Decidable (unbroken t.world l = true ∧
    starts t.world l = none ∧ Answered t l))

/--
In a run in which no report of a started rebase is applied, no count is lost and
no third request is due too early, the count of every active claim is the number
of requests that were delivered, and two complete attempts are the budget.
-/
theorem requests_counted (dates : DateApi) (cfg : CoordinatorConfig)
    (registry : Registry) {t : Tally}
    (h : (tallySystem dates cfg registry).ReachableUnder CountsOnce t) :
    CountsRequests dates t := by
  have hstarted : t.started = [] := by
    refine h.invariant (I := fun t => t.started = [])
      (fun s (hs : Untouched s) => hs.started) fun s l t' _ hs hok hstep => ?_
    obtain ⟨w, -, rfl⟩ := Option.map_eq_some_iff.mp hstep
    change s.started ++ (starts s.world l).toList = []
    rw [hs, hok.2.1]
    rfl
  exact .of_tallied (.reachable (h.mono fun _ _ hok => hok.1))
    (.reachable (h.mono fun _ _ hok => hok.2.2)) hstarted

/-! ## Two requests -/

def unspent : Tally where
  world := oneTaskWorld

theorem unspent_initial :
    (tallySystem dayDates {} soloRegistry).initial unspent :=
  ⟨neverFinalized_oneTask, rfl, rfl, rfl, rfl⟩

def askedOnce : List Label :=
  workDone ++ proceedAll 4000 [.done, .no, .done, .done, .done]

def reportAt (seq : Nat) (ms : Int) : OrcEvent :=
  { completeEvent with seq := seq, ts := dayDates.toISOString ms }

def reportAgain (seq : Nat) (ms : Int) : List Label :=
  [.call (.applyLifecycle (.progress
    { event := .workComplete, runId := "run-1", agentId := "worker" })
    (dayDates.toISOString ms)),
   .deliver (reportAt seq ms) (dayDates.toISOString (ms + 1000))]

def askedTwice : List Label :=
  askedOnce ++ reportAgain 4 5000 ++
    proceedAll 7000 [.done, .no, .done, .done, .done] ++
    reportAgain 5 8000 ++ proceedAll 10000 [.done, .no]

theorem requests_counted_twice :
    ∃ t, (tallySystem dayDates {} soloRegistry).run unspent askedTwice =
        some t ∧ t.complete = ["run-1", "run-1"] ∧
      t.world.project.claims.map Claim.finalizationRetryCount = [2] ∧
      CountsRequests dayDates t := by
  have hrun : ((tallySystem dayDates {} soloRegistry).run unspent
      askedTwice).map (fun t => (t.complete,
        t.world.project.claims.map Claim.finalizationRetryCount)) =
          some (["run-1", "run-1"], [2]) := by
    decide +kernel
  obtain ⟨t, ht, hboth⟩ := Option.map_eq_some_iff.mp hrun
  obtain ⟨hcomplete, hcount⟩ := Prod.mk.inj hboth
  refine ⟨t, ht, hcomplete, hcount,
    requests_counted dayDates {} soloRegistry ?_⟩
  exact (System.ReachableUnder.initial unspent_initial).run
    (by decide +kernel) ht

def rebaseStarted : OrcEvent :=
  { completeEvent with
    seq := 4
    ts := dayDates.toISOString 5000
    event := .finalizeRebaseStarted
    payload := [("status", .str "finalize_rebase_in_progress")] }

def askedAndStarted : List Label :=
  askedOnce ++
    [.call (.applyLifecycle (.progress
      { event := .finalizeRebaseStarted, runId := "run-1", agentId := "worker" })
      (dayDates.toISOString 5000)),
     .deliver rebaseStarted (dayDates.toISOString 6000)]

/-- One rebase that was asked for and started counts as two. -/
theorem not_requests_counted :
    ¬ ∀ t, (tallySystem dayDates {} soloRegistry).ReachableUnder
        (fun t l => unbroken t.world l = true ∧ Answered t l) t →
      CountsRequests dayDates t := by
  intro hall
  have hrun : ((tallySystem dayDates {} soloRegistry).run unspent
      askedAndStarted).map (fun t => t.world.project.claims.any fun c =>
        c.active && c.finalizationRetryCount = 2 &&
          t.delivered.count c.runId = 1 &&
            t.world.position.uncounted.isNone) = some true := by
    decide +kernel
  obtain ⟨t, ht, htwice⟩ := Option.map_eq_some_iff.mp hrun
  obtain ⟨c, hc, hparts⟩ := List.any_eq_true.mp htwice
  simp only [Bool.and_eq_true, decide_eq_true_eq,
    Option.isNone_iff_eq_none] at hparts
  obtain ⟨⟨⟨hactive, hcount⟩, hdelivered⟩, hnone⟩ := hparts
  have hreached := hall t ((System.ReachableUnder.initial unspent_initial).run
    (by decide +kernel) ht)
  have hsame := hreached.counted c hc hactive
  rw [hcount, hdelivered, hnone] at hsame
  cases hsame

/-- The second request is refused, though only one was ever delivered. -/
example : ((tallySystem dayDates {} soloRegistry).run unspent
    (askedAndStarted ++
      [.call (.applyLifecycle (.progress
        { event := .readyToMerge, runId := "run-1", agentId := "worker" })
        (dayDates.toISOString 7000)),
       .deliver { rebaseStarted with
         seq := 5, ts := dayDates.toISOString 7000, event := .readyToMerge
         payload := [("status", .str "ready_to_merge")] }
         (dayDates.toISOString 8000)] ++
      proceedAll 9000 [.done, .no, .done, .done])).map (fun t =>
        (t.delivered, t.world.project.claims.map Claim.finalizationState)) =
      some (["run-1"], [some .blockedFinalize]) := by
  decide +kernel

end OrcState.Finalization
