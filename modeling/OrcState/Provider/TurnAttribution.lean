import OrcState.Provider.CodexAppServer

/-!
# Which command a turn belongs to

A turn is given to the submission that is in flight when the turn is first seen.
That is right as long as no frame of another request's turn is first seen then, and
the active turn is the only unfinished one as long as no turn is made active
beside it.
-/

namespace OrcState.Provider

open OrcState.Contract OrcState.Foundation

variable {origin : Origin} {s t : CodexSession} {turnId : TurnId}

/-! ## Conditions on a step -/

/-- A turn not seen before, if it is claimed, is that of the request in flight. -/
def ClaimsOwn (origin : Origin) (s : CodexSession) (turnId : TurnId) : Prop :=
  ∀ submission ∈ s.submission,
    s.turnCommands.lookup turnId = none → origin turnId = some submission.id

instance (origin : Origin) (s : CodexSession) (turnId : TurnId) :
    Decidable (ClaimsOwn origin s turnId) :=
  inferInstanceAs (Decidable (∀ _ ∈ _, _ → _))

def ActivatesAlone (s : CodexSession) (turnId : TurnId) : Prop :=
  turnId ∉ s.finishedTurns →
    s.activeTurnId = none ∨ s.activeTurnId = some turnId

instance (s : CodexSession) (turnId : TurnId) :
    Decidable (ActivatesAlone s turnId) :=
  inferInstanceAs (Decidable (_ → _))

def FrameOk (origin : Origin) (s : CodexSession) (frame : Frame) : Prop :=
  frame.id = .absent → ∀ turnId ∈ frame.params.turnOf,
    (frame.method = some "turn/started" →
      ClaimsOwn origin s turnId ∧ ActivatesAlone s turnId) ∧
    (frame.method = some "turn/completed" → ClaimsOwn origin s turnId)

instance (origin : Origin) (s : CodexSession) (frame : Frame) :
    Decidable (FrameOk origin s frame) :=
  inferInstanceAs (Decidable (_ → ∀ _ ∈ _, (_ → _ ∧ _) ∧ (_ → _)))

def Submission.answer (submission : Submission) : Option TurnId :=
  (submission.outcome.bind Except.toOption).join

/--
The frames that claim an unknown turn are those of the request in flight, and no
turn becomes active while another turn is.
-/
def InOrder (origin : Origin) (s : CodexSession) : SessionLabel → Prop
  | .frame frame => FrameOk origin s frame
  | .continueSubmit => ∀ submission ∈ s.submission,
      ∀ turnId ∈ submission.answer, ActivatesAlone s turnId
  | _ => True

instance (origin : Origin) (s : CodexSession) :
    ∀ label, Decidable (InOrder origin s label)
  | .frame frame => inferInstanceAs (Decidable (FrameOk origin s frame))
  | .continueSubmit =>
      inferInstanceAs (Decidable (∀ _ ∈ _, ∀ _ ∈ _, ActivatesAlone s _))
  | .submit .. | .timeout _ | .exit .. => inferInstanceAs (Decidable True)

/-! ## The invariant -/

/-- The requests, the submission and the turns of one session fit together. -/
structure Attributed (origin : Origin) (s : CodexSession) : Prop where
  below : ∀ request ∈ s.requests, request.1 < s.nextId
  nodup : (s.requests.map Prod.fst).Nodup
  written : ∀ id ∈ s.pending, id ∈ s.requests.map Prod.fst
  flight : ∀ submission, s.submission = some submission →
    submission.id < s.nextId ∧ ∀ commandId,
      (submission.id, commandId) ∈ s.requests → commandId = submission.commandId
  answer : ∀ submission turnId, s.submission = some submission →
    submission.outcome = some (.ok (some turnId)) →
    origin turnId = some submission.id ∧
      (submission.id, submission.commandId) ∈ s.requests
  commands : ∀ turnId commandId,
    s.turnCommands.lookup turnId = some commandId →
    ∃ id, origin turnId = some id ∧ (id, commandId) ∈ s.requests
  events : ∀ e ∈ s.events, ∀ turnId commandId, e.turnId = some turnId →
    e.commandId = some commandId →
    s.turnCommands.lookup turnId = some (some commandId)
  acks : ∀ commandId turnId, (commandId, turnId) ∈ s.acks →
    s.turnCommands.lookup turnId = some commandId
  finished : ∀ turnId ∈ s.finishedTurns, s.activeTurnId ≠ some turnId
  running : ∀ turnId ∈ s.running, turnId ∈ s.finishedTurns ∨
    s.activeTurnId = some turnId ∨ s.exited = true

theorem Attributed.initial (h : JustStarted s) : Attributed origin s where
  below := by simp [h.requests]
  nodup := by simp [h.requests]
  written := by simp [h.pending]
  flight := by simp [h.submission]
  answer := by simp [h.submission]
  commands := by simp [h.turnCommands]
  events := by
    intro e he turnId commandId hturn
    rw [h.events e he] at hturn
    cases hturn
  acks := by simp [h.acks]
  finished := by simp [h.finishedTurns]
  running := by simp [h.running]

/-! ## What each part of a step keeps -/

theorem Attributed.emit (h : Attributed origin s) (kind : RuntimeEventType)
    (providerEvent : String) (details : Payload) (turnId : Option TurnId) :
    Attributed origin (s.emit kind providerEvent details turnId) := by
  refine { h with events := fun e he turn commandId hturn hcommand => ?_ }
  rcases List.mem_append.mp he with hold | hnew
  · exact h.events e hold turn commandId hturn hcommand
  · cases List.mem_singleton.mp hnew
    simp only [CodexSession.commandOf] at hturn hcommand
    rw [hturn, Option.bind_some] at hcommand
    have hjoin := (Option.filter_eq_some_iff.mp hcommand).1
    exact Option.join_eq_some_iff.mp hjoin

theorem lookup_append_of_some {α β : Type} [BEq α] {l l' : List (α × β)} {a : α}
    {b : β} (h : l.lookup a = some b) : (l ++ l').lookup a = some b := by
  rw [List.lookup_append, h]
  rfl

/-! Claiming a turn changes nothing but its command. -/

@[simp] theorem claimTurn_nextId (s : CodexSession) (turnId : TurnId) :
    (s.claimTurn turnId).nextId = s.nextId := by
  unfold CodexSession.claimTurn
  split <;> rfl

@[simp] theorem claimTurn_requests (s : CodexSession) (turnId : TurnId) :
    (s.claimTurn turnId).requests = s.requests := by
  unfold CodexSession.claimTurn
  split <;> rfl

@[simp] theorem claimTurn_pending (s : CodexSession) (turnId : TurnId) :
    (s.claimTurn turnId).pending = s.pending := by
  unfold CodexSession.claimTurn
  split <;> rfl

@[simp] theorem claimTurn_submission (s : CodexSession) (turnId : TurnId) :
    (s.claimTurn turnId).submission = s.submission := by
  unfold CodexSession.claimTurn
  split <;> rfl

@[simp] theorem claimTurn_events (s : CodexSession) (turnId : TurnId) :
    (s.claimTurn turnId).events = s.events := by
  unfold CodexSession.claimTurn
  split <;> rfl

@[simp] theorem claimTurn_acks (s : CodexSession) (turnId : TurnId) :
    (s.claimTurn turnId).acks = s.acks := by
  unfold CodexSession.claimTurn
  split <;> rfl

@[simp] theorem claimTurn_finishedTurns (s : CodexSession) (turnId : TurnId) :
    (s.claimTurn turnId).finishedTurns = s.finishedTurns := by
  unfold CodexSession.claimTurn
  split <;> rfl

@[simp] theorem claimTurn_activeTurnId (s : CodexSession) (turnId : TurnId) :
    (s.claimTurn turnId).activeTurnId = s.activeTurnId := by
  unfold CodexSession.claimTurn
  split <;> rfl

@[simp] theorem claimTurn_running (s : CodexSession) (turnId : TurnId) :
    (s.claimTurn turnId).running = s.running := by
  unfold CodexSession.claimTurn
  split <;> rfl

@[simp] theorem claimTurn_exited (s : CodexSession) (turnId : TurnId) :
    (s.claimTurn turnId).exited = s.exited := by
  unfold CodexSession.claimTurn
  split <;> rfl

/-- The command of a turn that has one is never replaced. -/
theorem claimTurn_keeps {turnId' : TurnId} {commandId : Option String}
    (h : s.turnCommands.lookup turnId' = some commandId) :
    (s.claimTurn turnId).turnCommands.lookup turnId' = some commandId := by
  unfold CodexSession.claimTurn
  split
  · exact lookup_append_of_some h
  · exact h

theorem claimTurn_lookup (hclaims : ClaimsOwn origin s turnId)
    {turnId' : TurnId} {commandId : Option String}
    (h : (s.claimTurn turnId).turnCommands.lookup turnId' = some commandId) :
    s.turnCommands.lookup turnId' = some commandId ∨
      turnId' = turnId ∧ ∃ submission, s.submission = some submission ∧
        submission.commandId = commandId ∧
        origin turnId = some submission.id := by
  unfold CodexSession.claimTurn at h
  split at h
  · rename_i submission hnone hsub
    rw [List.lookup_append] at h
    cases hold : s.turnCommands.lookup turnId' with
    | some found =>
        rw [hold] at h
        exact .inl h
    | none =>
        rw [hold, Option.none_or, List.lookup_cons] at h
        split at h
        · rename_i heq
          exact .inr ⟨by simpa using heq, submission, hsub, by simpa using h,
            hclaims submission hsub hnone⟩
        · cases h
  · exact .inl h

theorem Attributed.claimTurn (h : Attributed origin s)
    (hclaims : ClaimsOwn origin s turnId)
    (hsent : startable origin s turnId = true) :
    Attributed origin (s.claimTurn turnId) := by
  refine ⟨by simpa using h.below, by simpa using h.nodup,
    by simpa using h.written, by simpa using h.flight, by simpa using h.answer,
    ?_, ?_, ?_, by simpa using h.finished, by simpa using h.running⟩
  · intro turn commandId hturn
    rw [claimTurn_requests]
    rcases claimTurn_lookup hclaims hturn with
      hold | ⟨rfl, submission, hsub, rfl, horigin⟩
    · exact h.commands turn commandId hold
    · refine ⟨submission.id, horigin, ?_⟩
      rw [startable, horigin] at hsent
      simp only [Option.all_some, List.any_eq_true, decide_eq_true_eq] at hsent
      obtain ⟨⟨id, commandId⟩, hmem, hid⟩ := hsent
      cases hid
      rw [← (h.flight submission hsub).2 commandId hmem]
      exact hmem
  · intro e he turn commandId hturn hcommand
    rw [claimTurn_events] at he
    exact claimTurn_keeps (h.events e he turn commandId hturn hcommand)
  · intro commandId turn hack
    rw [claimTurn_acks] at hack
    exact claimTurn_keeps (h.acks commandId turn hack)

theorem Attributed.activate (h : Attributed origin s)
    (halone : ActivatesAlone s turnId) :
    Attributed origin (s.activate turnId) := by
  refine { h with
    finished := fun turn hturn => ?_
    running := fun turn hturn => ?_ }
  · change (if turnId ∈ s.finishedTurns then s.activeTurnId
      else some turnId) ≠ some turn
    split
    · exact h.finished turn hturn
    · rintro heq
      cases heq
      contradiction
  · change turn ∈ s.finishedTurns ∨ (if turnId ∈ s.finishedTurns then
      s.activeTurnId else some turnId) = some turn ∨ s.exited = true
    rcases List.mem_append.mp hturn with hold | hnew
    · split
      · exact h.running turn hold
      · rename_i hopen
        rcases h.running turn hold with hdone | hactive | hexit
        · exact .inl hdone
        · rcases halone hopen with hnone | hsame
          · rw [hnone] at hactive
            cases hactive
          · exact .inr (.inl (hsame.symm.trans hactive))
        · exact .inr (.inr hexit)
    · cases List.mem_singleton.mp hnew
      split
      · exact .inl ‹_›
      · exact .inr (.inl rfl)

theorem Attributed.finish (h : Attributed origin s) (turnId : TurnId) :
    Attributed origin (s.finish turnId) := by
  refine { h with
    finished := fun turn hturn => ?_
    running := fun turn hturn => ?_ }
  · change (if s.activeTurnId = some turnId then none else s.activeTurnId) ≠
      some turn
    rcases List.mem_append.mp hturn with hold | hnew
    · split
      · exact nofun
      · exact h.finished turn hold
    · cases List.mem_singleton.mp hnew
      split
      · exact nofun
      · assumption
  · change turn ∈ s.finishedTurns ++ [turnId] ∨ (if s.activeTurnId =
      some turnId then none else s.activeTurnId) = some turn ∨ s.exited = true
    rcases h.running turn hturn with hdone | hactive | hexit
    · exact .inl (List.mem_append_left _ hdone)
    · by_cases heq : turn = turnId
      · exact .inl (List.mem_append_right _ (List.mem_singleton.mpr heq))
      · rw [if_neg fun hsame => heq (Option.some.inj (hactive.symm.trans hsame))]
        exact .inr (.inl hactive)
    · exact .inr (.inr hexit)

theorem Attributed.settle (h : Attributed origin s) {id : RpcId}
    {outcome : Except String (Option TurnId)} (hid : id ∈ s.pending)
    (houtcome : ∀ turnId, outcome = .ok (some turnId) →
      origin turnId = some id) : Attributed origin (s.settle id outcome) := by
  have hsub : ∀ submission, (s.settle id outcome).submission =
      some submission → ∃ old, s.submission = some old ∧
        submission.id = old.id ∧ submission.commandId = old.commandId ∧
        (submission.outcome = old.outcome ∨
          submission.id = id ∧ submission.outcome = some outcome) := by
    intro submission hsome
    obtain ⟨old, hold, rfl⟩ := Option.map_eq_some_iff.mp hsome
    refine ⟨old, hold, ?_⟩
    split
    · exact ⟨rfl, rfl, .inr ⟨‹_›, rfl⟩⟩
    · exact ⟨rfl, rfl, .inl rfl⟩
  refine { h with
    written := fun other hother => h.written other (List.mem_of_mem_erase hother)
    flight := fun submission hsome => ?_
    answer := fun submission turnId hsome hanswer => ?_ }
  · obtain ⟨old, hold, hsame, hcommand, -⟩ := hsub submission hsome
    rw [hsame, hcommand]
    exact h.flight old hold
  · obtain ⟨old, hold, hsame, hcommand, hkept | ⟨hmatch, hnew⟩⟩ :=
      hsub submission hsome
    · rw [hsame, hcommand]
      exact h.answer old turnId hold (hkept.symm.trans hanswer)
    · have hturn := houtcome turnId (Option.some.inj (hnew.symm.trans hanswer))
      refine ⟨hmatch ▸ hturn, ?_⟩
      obtain ⟨⟨other, commandId⟩, hmem, hother⟩ :=
        List.mem_map.mp (h.written id hid)
      cases hother
      have hown := (h.flight old hold).2 commandId
        (by rw [← hsame, hmatch]; exact hmem)
      rw [hmatch, hcommand, ← hown]
      exact hmem

/-! ## The steps -/

theorem Attributed.turnStarted (h : Attributed origin s)
    (hsent : startable origin s turnId = true)
    (hclaims : ClaimsOwn origin s turnId) (halone : ActivatesAlone s turnId) :
    Attributed origin (turnStarted s turnId) := by
  refine ((h.claimTurn hclaims hsent).activate ?_).emit _ _ _ _
  simpa [ActivatesAlone] using halone

theorem Attributed.turnCompleted (h : Attributed origin s)
    (hsent : startable origin s turnId = true)
    (hclaims : ClaimsOwn origin s turnId) (status : String) :
    Attributed origin (turnCompleted s turnId status) :=
  ((h.claimTurn hclaims hsent).finish turnId).emit _ _ _ _

theorem Attributed.itemNotified (h : Attributed origin s) (method : String)
    (params : FrameParams) : Attributed origin (itemNotified s method params) := by
  unfold Provider.itemNotified
  dsimp only
  split
  · exact h.emit _ _ _ _
  split
  · exact h.emit _ _ _ _
  · exact h

theorem Attributed.onNotification (h : Attributed origin s) {frame : Frame}
    {method : String} (hmethod : frame.method = some method)
    (hsends : serverSends origin s frame = true) (habsent : frame.id = .absent)
    (hok : FrameOk origin s frame) :
    Attributed origin (onNotification s method frame.params) := by
  have hturn : frame.params.turnOf.getD "" ≠ "" →
      frame.params.turnOf = some (frame.params.turnOf.getD "") := by
    intro hne
    cases hof : frame.params.turnOf with
    | none =>
        rw [hof] at hne
        exact absurd rfl hne
    | some turnId => rfl
  have hsent : ∀ turnId, frame.params.turnOf = some turnId →
      startable origin s turnId = true := by
    intro turnId hof
    rw [serverSends, hof, Bool.and_eq_true] at hsends
    exact hsends.1
  unfold Provider.onNotification
  dsimp only
  split
  · rename_i hstart
    have hof := hturn hstart.2
    obtain ⟨hclaims, halone⟩ :=
      (hok habsent _ hof).1 (hmethod.trans (congrArg some hstart.1))
    exact h.turnStarted (hsent _ hof) hclaims halone
  split
  · rename_i hdone
    have hof := hturn hdone.2
    exact h.turnCompleted (hsent _ hof)
      ((hok habsent _ hof).2 (hmethod.trans (congrArg some hdone.1))) _
  split
  · exact h.itemNotified method frame.params
  split
  · exact h.emit _ _ _ _
  · exact h

theorem Attributed.onFrame (h : Attributed origin s) {frame : Frame}
    (hsends : serverSends origin s frame = true)
    (hok : FrameOk origin s frame) : Attributed origin (onFrame s frame) := by
  unfold Provider.onFrame
  split
  · rename_i method hmethod
    have hsome := (Option.filter_eq_some_iff.mp hmethod).1
    split
    · exact h.onNotification hsome hsends ‹_› hok
    · unfold onServerRequest
      split
      · exact (h.emit _ _ _ _).emit _ _ _ _
      · exact h
  · split
    · rename_i id hid
      split
      · rename_i hmem
        refine h.settle hmem fun turnId hanswer => ?_
        unfold rpcOutcome at hanswer
        split at hanswer
        · cases hanswer
        · rw [serverSends, Bool.and_eq_true, Except.ok.inj hanswer, hid] at hsends
          have hsame := hsends.2
          cases horigin : origin turnId with
          | none => simp [horigin] at hsame
          | some other =>
              simp only [Option.all_some, horigin, Option.elim_some,
                decide_eq_true_eq, FrameId.number.injEq] at hsame
              rw [hsame]
      · exact h
    · exact h

theorem Attributed.submit (h : Attributed origin s) {commandId : Option String}
    {writable : Bool} (hok : submit s commandId writable = .ok t) :
    Attributed origin t := by
  unfold Provider.submit at hok
  split at hok
  · cases hok
  split at hok
  · cases hok
  split at hok
  · cases hok
    have hfresh : s.nextId ∉ s.requests.map Prod.fst := by
      intro hmem
      obtain ⟨request, hrequest, heq⟩ := List.mem_map.mp hmem
      have hlt : request.1 < s.nextId := h.below request hrequest
      rw [heq] at hlt
      exact Nat.lt_irrefl s.nextId hlt
    refine { h with
      below := fun request hrequest => ?_
      nodup := ?_
      written := fun id hid => ?_
      flight := fun submission hsome => ?_
      answer := fun submission turnId hsome hanswer => ?_
      commands := fun turnId command hturn => ?_ }
    · change request.1 < s.nextId + 1
      rcases List.mem_append.mp hrequest with hold | hnew
      · exact Nat.lt_succ_of_lt (h.below request hold)
      · cases List.mem_singleton.mp hnew
        exact Nat.lt_succ_self s.nextId
    · change ((s.requests ++ [(s.nextId, commandId)]).map Prod.fst).Nodup
      rw [List.map_append]
      refine List.nodup_append.mpr ⟨h.nodup, List.pairwise_singleton _ _, ?_⟩
      rintro id hid other hother rfl
      cases List.mem_singleton.mp hother
      exact hfresh hid
    · change id ∈ (s.requests ++ [(s.nextId, commandId)]).map Prod.fst
      rw [List.map_append]
      rcases List.mem_append.mp hid with hold | hnew
      · exact List.mem_append_left _ (h.written id hold)
      · exact List.mem_append_right _ hnew
    · cases hsome
      refine ⟨Nat.lt_succ_self s.nextId, fun command hmem => ?_⟩
      rcases List.mem_append.mp hmem with hold | hnew
      · exact absurd (List.mem_map_of_mem (f := Prod.fst) hold) hfresh
      · cases List.mem_singleton.mp hnew
        rfl
    · cases hsome
      cases hanswer
    · obtain ⟨id, horigin, hmem⟩ := h.commands turnId command hturn
      exact ⟨id, horigin, List.mem_append_left _ hmem⟩
  · cases hok
    refine { h with
      below := fun request hrequest => ?_
      flight := fun submission hsome => ?_
      answer := fun submission turnId hsome hanswer => ?_ }
    · exact Nat.lt_succ_of_lt (h.below request hrequest)
    · cases hsome
      refine ⟨Nat.lt_succ_self s.nextId, fun command hmem => ?_⟩
      exact absurd (h.below _ hmem) (Nat.lt_irrefl s.nextId)
    · cases hsome
      cases hanswer

theorem claimTurn_claims {submission : Submission}
    (h : s.submission = some submission) (turnId : TurnId) :
    ∃ commandId, (s.claimTurn turnId).turnCommands.lookup turnId =
      some commandId := by
  unfold CodexSession.claimTurn
  split
  · rename_i hnone hsub
    exact ⟨_, by rw [List.lookup_append, hnone, Option.none_or,
      List.lookup_cons_self]⟩
  · rename_i hother
    cases hfound : s.turnCommands.lookup turnId with
    | none => exact absurd h (hother submission hfound)
    | some commandId => exact ⟨commandId, rfl⟩

theorem Attributed.closed (h : Attributed origin s) :
    Attributed origin { s with submission := none } :=
  { h with
    flight := fun _ hsome => by cases hsome
    answer := fun _ _ hsome => by cases hsome }

theorem Attributed.answered (h : Attributed origin s) {submission : Submission}
    (hsub : s.submission = some submission) {answer : Option TurnId}
    (houtcome : submission.outcome = some (.ok answer))
    (halone : ∀ turnId, answer = some turnId → ActivatesAlone s turnId) :
    Attributed origin (answered s submission answer) := by
  unfold Provider.answered
  split
  · exact h.closed
  · rename_i turnId hfilter
    have hanswer := (Option.filter_eq_some_iff.mp hfilter).1
    subst hanswer
    obtain ⟨horigin, hwritten⟩ := h.answer submission turnId hsub houtcome
    have hclaims : ClaimsOwn origin s turnId := by
      intro other hother _
      cases hsub.symm.trans hother
      exact horigin
    have hsent : startable origin s turnId = true := by
      rw [startable, horigin]
      simpa using ⟨submission.commandId, hwritten⟩
    have hclaimed := h.claimTurn hclaims hsent
    obtain ⟨commandId, hcommand⟩ := claimTurn_claims hsub turnId
    have hown : commandId = submission.commandId := by
      obtain ⟨id, horigin', hmem⟩ := hclaimed.commands turnId commandId hcommand
      cases horigin.symm.trans horigin'
      rw [claimTurn_requests] at hmem
      exact (h.flight submission hsub).2 commandId hmem
    have hactive : ActivatesAlone (s.claimTurn turnId) turnId := by
      simpa [ActivatesAlone] using halone turnId rfl
    refine { (hclaimed.activate hactive).closed with
      acks := fun command turn hack => ?_ }
    rcases List.mem_append.mp hack with hold | hnew
    · exact claimTurn_keeps (h.acks command turn hold)
    · cases List.mem_singleton.mp hnew
      rw [← hown]
      exact hcommand

theorem Attributed.onExit (h : Attributed origin s) (code signal : PayloadValue) :
    Attributed origin (onExit s code signal) := by
  let rejected := s.submission.map fun submission =>
    if submission.id ∈ s.pending then
      { submission with
        outcome := some (.error "app-server exited before responding") }
    else submission
  have hsub : ∀ submission, rejected = some submission →
      ∃ old, s.submission = some old ∧ submission.id = old.id ∧
        submission.commandId = old.commandId ∧
        ∀ turnId, submission.outcome = some (.ok (some turnId)) →
          old.outcome = some (.ok (some turnId)) := by
    intro submission hsome
    obtain ⟨old, hold, rfl⟩ := Option.map_eq_some_iff.mp hsome
    refine ⟨old, hold, ?_⟩
    split
    · refine ⟨rfl, rfl, fun turnId hanswer => ?_⟩
      cases hanswer
    · exact ⟨rfl, rfl, fun _ hanswer => hanswer⟩
  have hgone : Attributed origin { s with
      exited := true
      activeTurnId := none
      submission := rejected
      pending := [] } := by
    refine { h with
      written := fun _ hid => absurd hid List.not_mem_nil
      flight := fun submission hsome => ?_
      answer := fun submission turnId hsome hanswer => ?_
      finished := fun _ _ hactive => by cases hactive
      running := fun _ _ => .inr (.inr rfl) }
    · obtain ⟨old, hold, hid, hcommand, -⟩ := hsub submission hsome
      rw [hid, hcommand]
      exact h.flight old hold
    · obtain ⟨old, hold, hid, hcommand, houtcome⟩ := hsub submission hsome
      rw [hid, hcommand]
      exact h.answer old turnId hold (houtcome turnId hanswer)
  exact hgone.emit _ _ _ _

theorem Attributed.step (h : Attributed origin s) {label : SessionLabel}
    (hok : InOrder origin s label) (ht : sessionStep origin s label = some t) :
    Attributed origin t := by
  cases label with
  | submit commandId writable =>
      cases hsubmit : Provider.submit s commandId writable with
      | error e =>
          rw [sessionStep, hsubmit] at ht
          cases ht
      | ok t' =>
          rw [sessionStep, hsubmit] at ht
          cases ht
          exact h.submit hsubmit
  | frame frame =>
      rw [sessionStep] at ht
      split at ht
      · cases ht
        exact h.onFrame ‹_› hok
      · cases ht
  | timeout id =>
      rw [sessionStep] at ht
      split at ht
      · cases ht
        refine h.settle ‹_› fun turnId hanswer => ?_
        cases hanswer
      · cases ht
  | continueSubmit =>
      rw [sessionStep, Provider.continueSubmit] at ht
      split at ht
      · rename_i commandId id answer hsub
        cases ht
        refine h.answered hsub rfl fun turnId hanswer => ?_
        subst hanswer
        exact hok _ hsub turnId rfl
      · cases ht
        exact h.closed
      · cases ht
  | exit code signal =>
      rw [sessionStep] at ht
      split at ht
      · cases ht
      · cases ht
        exact h.onExit code signal

/-! ## Turns belong to the command that started them -/

def StartedFor (origin : Origin) (s : CodexSession) (turnId : TurnId)
    (commandId : String) : Prop :=
  ∃ id, origin turnId = some id ∧ (id, some commandId) ∈ s.requests

/-- An event names the command with the turn, or a caller was told of it. -/
def Given (s : CodexSession) (turnId : TurnId) (commandId : String) : Prop :=
  (∃ e ∈ s.events, e.turnId = some turnId ∧ e.commandId = some commandId) ∨
    (some commandId, turnId) ∈ s.acks

structure TurnsAttributed (origin : Origin) (s : CodexSession) : Prop where
  requests : (s.requests.map Prod.fst).Nodup
  events : ∀ e ∈ s.events, ∀ turnId commandId, e.turnId = some turnId →
    e.commandId = some commandId → StartedFor origin s turnId commandId
  one : ∀ turnId commandId commandId', Given s turnId commandId →
    Given s turnId commandId' → commandId = commandId'
  finished : ∀ turnId ∈ s.finishedTurns, s.activeTurnId ≠ some turnId
  refused : ∀ turnId ∈ s.running, turnId ∉ s.finishedTurns →
    ∀ commandId writable, ∃ e, submit s commandId writable = .error e

theorem Attributed.given (h : Attributed origin s) {commandId : String}
    (hgiven : Given s turnId commandId) :
    s.turnCommands.lookup turnId = some (some commandId) := by
  rcases hgiven with ⟨e, he, hturn, hcommand⟩ | hack
  · exact h.events e he turnId commandId hturn hcommand
  · exact h.acks (some commandId) turnId hack

theorem Attributed.turnsAttributed (h : Attributed origin s) :
    TurnsAttributed origin s where
  requests := h.nodup
  events e he turnId commandId hturn hcommand :=
    h.commands turnId (some commandId)
      (h.events e he turnId commandId hturn hcommand)
  one turnId commandId commandId' hgiven hgiven' := by
    have hsame := (h.given hgiven).symm.trans (h.given hgiven')
    exact Option.some.inj (Option.some.inj hsame)
  finished := h.finished
  refused turnId hrunning hopen commandId writable := by
    unfold Provider.submit
    rcases h.running turnId hrunning with hdone | hactive | hexit
    · exact absurd hdone hopen
    · split
      · exact ⟨_, rfl⟩
      · rw [if_pos (.inl (by rw [hactive]; rfl))]
        exact ⟨_, rfl⟩
    · rw [if_pos hexit]
      exact ⟨_, rfl⟩

theorem turns_attributed (origin : Origin) {s : CodexSession}
    (hs : (sessionSystem origin).ReachableUnder (InOrder origin) s) :
    TurnsAttributed origin s := by
  have hinv : Attributed origin s :=
    hs.invariant (fun _ h => .initial h) fun _ _ _ _ h hok ht => h.step hok ht
  exact hinv.turnsAttributed

/-! ## Turns that arrive in order, late, and too late -/

def twoTurns : Origin := fun turnId =>
  if turnId = "turn-a" then some 1
  else if turnId = "turn-b" then some 2
  else none

def started (turnId : TurnId) : SessionLabel :=
  .frame
    { method := some "turn/started"
      params := { turn := some { id := some turnId } } }

def completed (turnId : TurnId) : SessionLabel :=
  .frame
    { method := some "turn/completed"
      params := { turn := some { id := some turnId
                                 status := some "completed" } } }

def answers (id : RpcId) (turnId : TurnId) : SessionLabel :=
  .frame { id := .number id, resultTurn := some turnId }

theorem justStarted : JustStarted {} :=
  ⟨rfl, rfl, rfl, rfl, rfl, rfl, fun _ h => absurd h List.not_mem_nil, rfl, rfl⟩

/-- One command, its turn from start to end. -/
theorem turns_attributed_once :
    ∃ s, s.finishedTurns = ["turn-a"] ∧ s.acks = [(some "cmd-a", "turn-a")] ∧
      TurnsAttributed twoTurns s := by
  obtain ⟨s, hrun, hview⟩ := (sessionSystem twoTurns).exists_run_of_map
    (f := fun s => (s.finishedTurns, s.acks))
    (by decide +kernel : ((sessionSystem twoTurns).run {}
      [.submit (some "cmd-a") true, started "turn-a", answers 1 "turn-a",
        .continueSubmit, completed "turn-a"]).map _ =
          some (["turn-a"], [(some "cmd-a", "turn-a")]))
  obtain ⟨hfinished, hacks⟩ := Prod.mk.inj hview
  exact ⟨s, hfinished, hacks, turns_attributed twoTurns
    ((System.ReachableUnder.initial justStarted).run (by decide +kernel) hrun)⟩

def afterTimeout : List SessionLabel :=
  [.submit (some "cmd-a") true, .timeout 1, .continueSubmit,
    .submit (some "cmd-b") true]

/--
The turn of the request that timed out is given to the next command; and where
it starts and ends late, a third command is taken while the second still runs.
-/
theorem late_turn_misattributed :
    (∃ s, (sessionSystem twoTurns).Reachable s ∧
      ¬ TurnsAttributed twoTurns s ∧
      ∃ e ∈ s.events, e.turnId = some "turn-a" ∧ e.commandId = some "cmd-b" ∧
        ¬ StartedFor twoTurns s "turn-a" "cmd-b") ∧
    ∃ s, (sessionSystem twoTurns).Reachable s ∧ "turn-b" ∈ s.running ∧
      "turn-b" ∉ s.finishedTurns ∧
      ∃ t, submit s (some "cmd-c") true = .ok t := by
  constructor
  · obtain ⟨s, hrun, hview⟩ := (sessionSystem twoTurns).exists_run_of_map
      (f := fun s => (s.requests, s.events.map fun e => (e.turnId, e.commandId)))
      (by decide +kernel : ((sessionSystem twoTurns).run {}
        (afterTimeout ++ [started "turn-a"])).map _ =
          some ([(1, some "cmd-a"), (2, some "cmd-b")],
            [(some "turn-a", some "cmd-b")]))
    obtain ⟨hrequests, hevents⟩ := Prod.mk.inj hview
    have hmem : (some "turn-a", some "cmd-b") ∈
        s.events.map fun e => (e.turnId, e.commandId) := by
      rw [hevents]
      exact List.mem_singleton_self _
    obtain ⟨e, he, hfields⟩ := List.mem_map.mp hmem
    obtain ⟨hturn, hcommand⟩ := Prod.mk.inj hfields
    have hwrong : ¬ StartedFor twoTurns s "turn-a" "cmd-b" := by
      rintro ⟨id, horigin, hwritten⟩
      rw [hrequests] at hwritten
      cases horigin.symm.trans (rfl : twoTurns "turn-a" = some 1)
      exact absurd hwritten (by decide)
    exact ⟨s, (System.Reachable.initial justStarted).run hrun,
      fun h => hwrong (h.events e he _ _ hturn hcommand),
      e, he, hturn, hcommand, hwrong⟩
  · obtain ⟨s, hrun, hview⟩ := (sessionSystem twoTurns).exists_run_of_map
      (f := fun s => (s.running, s.finishedTurns,
        (submit s (some "cmd-c") true).toOption.isSome))
      (by decide +kernel : ((sessionSystem twoTurns).run {}
        (afterTimeout ++ [answers 2 "turn-b", .continueSubmit,
          started "turn-a", completed "turn-a"])).map _ =
            some (["turn-b", "turn-a"], ["turn-a"], true))
    obtain ⟨hrunning, hfinished, haccepts⟩ : s.running = ["turn-b", "turn-a"] ∧
        s.finishedTurns = ["turn-a"] ∧
        (submit s (some "cmd-c") true).toOption.isSome = true := by
      simpa only [Prod.mk.injEq] using hview
    refine ⟨s, (System.Reachable.initial justStarted).run hrun, ?_, ?_, ?_⟩
    · rw [hrunning]
      decide
    · rw [hfinished]
      decide
    · cases hsubmit : submit s (some "cmd-c") true with
      | error e =>
          rw [hsubmit] at haccepts
          cases haccepts
      | ok t => exact ⟨t, rfl⟩

end OrcState.Provider
