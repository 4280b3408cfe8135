import OrcState.Lifecycle.Coherence
import OrcState.Lifecycle.Session

/-!
# Endings and the log

Every call that ends a run writes the event that says so in the same transaction
as the claim.  What a call does to the live runs and to the endings in the log
is therefore one account, kept here call by call.
-/

namespace OrcState.Lifecycle

open OrcState.Contract OrcState.Foundation OrcState.Store
open OrcState.Foundation.Effect

variable {dates : DateApi} {registry : Registry}

/-! ## Endings -/

def endsRun (runId : RunId) (event : OrcEvent) : Bool :=
  isEnding event.event && event.runId = some runId

theorem endsRun_unsequenced (runId : RunId) : Unsequenced (endsRun runId) :=
  fun _ _ => rfl

def Project.endings (s : Project) (runId : RunId) : Nat :=
  s.events.events.countP (endsRun runId)

def Project.live (s : Project) (runId : RunId) : Bool :=
  (s.findClaim runId).any Claim.active

theorem live_iff {s : Project} {runId : RunId} :
    s.live runId = true ↔
      ∃ c, c ∈ s.events.runs ∧ c.runId = runId ∧ c.active = true := by
  unfold Project.live Project.findClaim
  rw [Option.any_eq_true]
  constructor
  · rintro ⟨c, hfind, hactive⟩
    obtain ⟨hc, hid⟩ := Table.find?_eq_some.mp hfind
    exact ⟨c, hc, hid, hactive⟩
  · rintro ⟨c, hc, hid, hactive⟩
    exact ⟨c, Table.find?_eq_some.mpr ⟨hc, hid⟩, hactive⟩

/-! ## The account of one call -/

/-- The log gains one ending for each run that was live and is no more. -/
structure Accounted (s t : Project) : Prop where
  counted : ∀ id, t.endings id =
    s.endings id + if s.live id && !t.live id then 1 else 0
  kept : ∀ c, c ∈ s.events.runs → c.active = false →
    ∃ c', c' ∈ t.events.runs ∧ c'.runId = c.runId ∧ c'.state = c.state
  born : ∀ id, t.live id = true → s.live id = true ∨ ¬ s.tasks.Bound id
  source : ∀ c, c ∈ t.events.runs →
    (∃ c₀, c₀ ∈ s.events.runs ∧ c₀.runId = c.runId) ∨
      c.active = true ∧ t.tasks.Bound c.runId
  bound : ∀ id, s.tasks.Bound id → t.tasks.Bound id
  one : OneActive s.events.runs → OneActive t.events.runs

theorem Accounted.of_runs {s t : Project}
    (hcount : ∀ id, t.endings id = s.endings id)
    (hruns : t.events.runs = s.events.runs)
    (hbound : ∀ id, s.tasks.Bound id → t.tasks.Bound id) : Accounted s t := by
  have hlive : ∀ id, t.live id = s.live id := by
    intro id
    rw [Project.live, Project.live, Project.findClaim, Project.findClaim, hruns]
  refine ⟨fun id => ?_, fun c hc _ => ?_, fun id h => ?_, fun c hc => ?_,
    hbound, fun hone => by rwa [hruns]⟩
  · rw [hcount, hlive]
    cases s.live id <;> rfl
  · exact ⟨c, by rwa [hruns], rfl, rfl⟩
  · exact .inl (hlive id ▸ h)
  · exact .inl ⟨c, by rwa [← hruns], rfl⟩

theorem Accounted.refl (s : Project) : Accounted s s :=
  .of_runs (fun _ => rfl) rfl fun _ h => h

def endedBy (p : Claim → Bool) (f : Claim → Claim) (id : RunId)
    (c : Claim) : Bool :=
  c.runId = id && (p c && c.active && !(f c).active)

theorem Accounted.of_mutated {s t : Project} {p : Claim → Bool}
    {f : Claim → Claim} (h : Mutated p f s.events.runs t.events.runs)
    (hid : ∀ c, (f c).runId = c.runId)
    (hfinal : ∀ c, c ∈ s.events.runs → p c = true → c.active = false →
      (f c).state = c.state)
    (hcount : ∀ id, t.endings id =
      s.endings id + if s.claims.any (endedBy p f id) then 1 else 0)
    (hbound : ∀ id, s.tasks.Bound id → t.tasks.Bound id) : Accounted s t := by
  have hstill : ∀ c, c ∈ s.events.runs → p c = true →
      (f c).active = true → c.active = true := by
    intro c hc hp ha
    by_contra hne
    rw [Claim.active, hfinal c hc hp (by simpa using hne), ← Claim.active] at ha
    exact hne ha
  have hupdate : ∀ c, c ∈ s.events.runs →
      (if p c then f c else c) ∈ t.events.runs :=
    fun c hc => (h.mem _).mpr ⟨c, hc, rfl⟩
  refine ⟨fun id => ?_, fun c hc hended => ?_, fun id hlive => ?_,
    fun c hc => ?_, hbound, h.one⟩
  · rw [hcount]
    congr 1
    have hiff : s.claims.any (endedBy p f id) = (s.live id && !t.live id) := by
      rw [Bool.eq_iff_iff, List.any_eq_true, Bool.and_eq_true, live_iff,
        Bool.not_eq_true', ← Bool.not_eq_true, live_iff]
      constructor
      · rintro ⟨c, hc, hend⟩
        simp only [endedBy, Bool.and_eq_true, decide_eq_true_eq,
          Bool.not_eq_true'] at hend
        obtain ⟨hcid, ⟨hp, ha⟩, hfa⟩ := hend
        refine ⟨⟨c, hc, hcid, ha⟩, ?_⟩
        rintro ⟨c', hc', hcid', ha'⟩
        have hnew := hupdate c hc
        rw [if_pos hp] at hnew
        rw [Table.eq_of_key hc' hnew (by rw [hcid', hid, hcid]), hfa] at ha'
        cases ha'
      · rintro ⟨⟨c, hc, hcid, ha⟩, hgone⟩
        refine ⟨c, hc, ?_⟩
        cases hp : p c with
        | false =>
            have hnew := hupdate c hc
            rw [hp] at hnew
            exact absurd ⟨c, hnew, hcid, ha⟩ hgone
        | true =>
            have hnew := hupdate c hc
            rw [if_pos hp] at hnew
            have hfa : (f c).active = false := by
              by_contra hne
              exact hgone ⟨f c, hnew, by rw [hid, hcid], by simpa using hne⟩
            simp [endedBy, hcid, hp, ha, hfa]
    rw [hiff]
  · refine ⟨_, hupdate c hc, ?_, ?_⟩
    · split
      · exact hid c
      · rfl
    · split
      · rename_i hp
        exact hfinal c hc hp hended
      · rfl
  · obtain ⟨c, hc, hcid, ha⟩ := live_iff.mp hlive
    obtain ⟨c₀, hc₀, ⟨hp, rfl⟩ | ⟨-, rfl⟩⟩ := h.source hc
    · exact .inl (live_iff.mpr
        ⟨c₀, hc₀, by rw [← hcid, hid], hstill c₀ hc₀ hp ha⟩)
    · exact .inl (live_iff.mpr ⟨c₀, hc₀, hcid, ha⟩)
  · obtain ⟨c₀, hc₀, ⟨-, rfl⟩ | ⟨-, rfl⟩⟩ := h.source hc
    · exact .inl ⟨c₀, hc₀, (hid c₀).symm⟩
    · exact .inl ⟨_, hc₀, rfl⟩

/-! ## Counting the events of a commit -/

theorem countP_key {α : Type} {key : α → RunId} {l : List α}
    (hnodup : (l.map key).Nodup) (id : RunId) (q : α → Bool) :
    l.countP (fun c => key c = id && q c) =
      if l.any (fun c => key c = id && q c) then 1 else 0 := by
  induction l with
  | nil => rfl
  | cons c rest ih =>
      rw [List.map_cons, List.nodup_cons] at hnodup
      rw [List.countP_cons, List.any_cons, ih hnodup.2]
      by_cases hc : key c = id
      · have hrest : rest.any (fun c => key c = id && q c) = false := by
          rw [List.any_eq_false]
          intro d hd hq
          simp only [Bool.and_eq_true, decide_eq_true_eq] at hq
          exact hnodup.1 (List.mem_map.mpr ⟨d, hd, hq.1.trans hc.symm⟩)
        rw [hrest]
        cases q c <;> simp [hc]
      · simp [hc]

theorem countP_endings {claims : List Claim}
    (hnodup : (claims.map Claim.runId).Nodup) {q : Claim → Bool}
    {mk : Claim → OrcEvent}
    (hmk : ∀ c id, endsRun id (mk c) = decide (c.runId = id)) (id : RunId) :
    ((claims.filter q).map mk).countP (endsRun id) =
      if claims.any (fun c => c.runId = id && q c) then 1 else 0 := by
  rw [List.countP_map, List.countP_filter, ← countP_key hnodup id q]
  refine List.countP_congr fun c _ => ?_
  simp [hmk]

theorem endsRun_runEvent {ts : String} {event : EventName}
    {actorType : ActorType} {actorId : AgentId} {claim : Claim}
    {payload : Payload} (h : isEnding event = true) (id : RunId) :
    endsRun id (runEvent ts event actorType actorId claim payload) =
      decide (claim.runId = id) := by
  have hkind : (runEvent ts event actorType actorId claim payload).event =
    event := rfl
  rw [endsRun, hkind, h, Bool.true_and]
  simp [runEvent]

theorem not_endsRun {event : OrcEvent} (h : isEnding event.event = false)
    (id : RunId) : endsRun id event = false := by
  rw [endsRun, h, Bool.false_and]

theorem endings_setEvents {s : Project} {claims : List Claim}
    {events : List OrcEvent} {db : EventsDb} {u : Unit}
    (h : commitClaims dates claims events s.events = .ok (u, db)) (id : RunId) :
    (s.setEvents db).endings id = s.endings id + events.countP (endsRun id) :=
  commitClaims_count (endsRun_unsequenced id) h

/-! ## Calls that end no run -/

abbrev Silent {α : Type} (x : Op α) : Prop :=
  ∀ id, Keeps (fun s : Project => s.endings id) x

theorem silent_onTasks {α : Type} (x : Tasks α) : Silent (onTasks x) :=
  fun _ => keeps_atomically fun _ _ _ _ => rfl

theorem silent_commit {claims : List Claim} {events : List OrcEvent}
    (h : ∀ e ∈ events, isEnding e.event = false) :
    Silent (onEvents (commitClaims dates claims events)) := by
  refine fun id => keeps_atomically fun s a t ht => ?_
  refine (endings_setEvents ht id).trans ?_
  rw [List.countP_eq_zero.mpr fun e he => by
    rw [not_endsRun (h e he) id]
    exact Bool.false_ne_true, Nat.add_zero]

theorem silent_append {event : OrcEvent} (h : isEnding event.event = false) :
    Silent (onEvents (appendSequencedEvent dates event)) := by
  refine fun id => keeps_atomically fun s a t ht => ?_
  obtain ⟨-, rfl⟩ := appendSequencedEvent_ok.mp ht
  refine (count_logged (endsRun_unsequenced id) _ _).trans ?_
  rw [not_endsRun h id]
  rfl

theorem silent_updateClaim {runId : RunId}
    {check : Claim → Except DomainError Unit} {f : Claim → Claim}
    {events : Claim → List OrcEvent}
    (hevents : ∀ c, ∀ e ∈ events c, isEnding e.event = false) :
    Silent (updateClaim dates runId check f events) :=
  fun id => .read fun _ => (keeps_orThrow _ _).bind fun c =>
    (keeps_ofExcept _).bind fun _ => .result (silent_commit (hevents c) id)

theorem Accounted.silent {s t : Project} {p : Claim → Bool} {f : Claim → Claim}
    (h : Mutated p f s.events.runs t.events.runs)
    (hcount : ∀ id, t.endings id = s.endings id)
    (hid : ∀ c, (f c).runId = c.runId)
    (hstate : ∀ c, c ∈ s.events.runs → p c = true →
      (f c).active = c.active ∧ (c.active = false → (f c).state = c.state))
    (hbound : ∀ id, s.tasks.Bound id → t.tasks.Bound id) : Accounted s t := by
  refine .of_mutated h hid (fun c hc hp => (hstate c hc hp).2) (fun id => ?_)
    hbound
  have hnone : s.claims.any (endedBy p f id) = false := by
    rw [List.any_eq_false]
    intro c hc hend
    simp only [endedBy, Bool.and_eq_true, Bool.not_eq_true'] at hend
    rw [(hstate c hc hend.2.1.1).1, hend.2.1.2] at hend
    cases hend.2.2
  rw [hcount, hnone]
  rfl

theorem Accounted.updateLogged {runId : RunId}
    {check : Claim → Except DomainError Unit} {f : Claim → Claim}
    {events : Claim → List OrcEvent} {s t : Project}
    {r : Except DomainError Claim}
    (h : updateClaim dates runId check f events s = (r, t))
    (hid : ∀ c, (f c).runId = c.runId) (hstate : ∀ c, (f c).state = c.state)
    (hevents : ∀ c, ∀ e ∈ events c, isEnding e.event = false) :
    Accounted s t := by
  rcases updateClaim_cases hid h with rfl | ⟨claim, -, -, hmut, htasks⟩
  · exact .refl _
  · refine .silent hmut (fun id => Keeps.snd (silent_updateClaim hevents id) h) hid
      (fun c _ _ => ⟨by rw [Claim.active, hstate]; rfl, fun _ => hstate c⟩) ?_
    rw [htasks]
    exact fun _ hb => hb

theorem Accounted.updateClaim {runId : RunId}
    {check : Claim → Except DomainError Unit} {f : Claim → Claim}
    {s t : Project} {r : Except DomainError Claim}
    (h : updateClaim dates runId check f (fun _ => []) s = (r, t))
    (hid : ∀ c, (f c).runId = c.runId) (hstate : ∀ c, (f c).state = c.state) :
    Accounted s t :=
  .updateLogged h hid hstate fun _ _ he => nomatch he

theorem silent_envelopeEvents (o : EnvelopeOptions) (c : Claim) :
    ∀ e ∈ envelopeEvents o c, isEnding e.event = false := by
  intro e he
  unfold envelopeEvents at he
  split at he
  · rw [List.mem_singleton.mp he]
    rfl
  · cases he

theorem silent_heartbeat {runId : RunId} {agentId : AgentId}
    {o : HeartbeatOptions} : Silent (heartbeat dates runId agentId o) := by
  intro id
  unfold heartbeat
  refine .read fun s => (keeps_ofExcept _).bind fun claim =>
    (keeps_throwIf _ _).bind fun _ => (keeps_throwIf _ _).bind fun _ =>
    (keeps_throwIf _ _).bind fun _ => .result (silent_commit ?_ id)
  intro e he
  split at he
  · rw [List.mem_singleton.mp he]
    rfl
  · cases he

theorem Accounted.lease {s t : Project} {f : Claim → Claim} {runId : RunId}
    (hf : LeaseOnly f) (hcount : ∀ id, t.endings id = s.endings id)
    (h : Mutated (fun c => c.runId = runId) f s.events.runs t.events.runs)
    (htasks : t.tasks = s.tasks) : Accounted s t := by
  refine .silent h hcount hf.runId (fun c _ _ => ?_) ?_
  · rw [hf c]
    exact ⟨rfl, fun _ => rfl⟩
  · rw [htasks]
    exact fun _ hb => hb

theorem Accounted.heartbeat {runId : RunId} {agentId : AgentId}
    {o : HeartbeatOptions} {s t : Project} {r : Except DomainError String}
    (h : heartbeat dates runId agentId o s = (r, t)) : Accounted s t := by
  rcases heartbeat_cases h with rfl | ⟨f, hf, hmut, htasks⟩
  · exact .refl _
  · exact .lease hf (fun id => Keeps.snd (silent_heartbeat id) h) hmut htasks

theorem silent_renewLeaseOnly {runId : RunId} {lease now : Int} :
    Silent (renewLeaseOnly dates runId lease now) := by
  intro id
  unfold renewLeaseOnly
  refine .read fun s => ?_
  split
  · exact keeps_pure _
  · split
    · exact keeps_pure _
    · exact silent_commit (by simp) id

theorem Accounted.renewLeaseOnly {runId : RunId} {lease now : Int}
    {s t : Project} {r : Except DomainError Unit}
    (h : renewLeaseOnly dates runId lease now s = (r, t)) : Accounted s t := by
  rcases renewLeaseOnly_cases h with rfl | ⟨f, hf, hmut, htasks⟩
  · exact .refl _
  · exact .lease hf (fun id => Keeps.snd (silent_renewLeaseOnly id) h) hmut htasks

theorem silent_commitBoth {claims : List Claim} {events : List OrcEvent}
    {backlog : Backlog} {changes : TaskStatusChanges} {now : String}
    (h : ∀ e ∈ events, isEnding e.event = false) :
    Silent (commitBoth dates claims events backlog changes now) :=
  fun id => (silent_commit h id).bind fun _ => silent_onTasks _ id

theorem silent_startRun {runId : RunId} {agentId : AgentId} {o : StartOptions}
    {now : String} : Silent (startRun dates runId agentId o now) := by
  intro id
  unfold startRun assertValidTimestamp
  refine .read fun s => (keeps_ofExcept _).bind fun claim => ?_
  split
  · exact keeps_pure _
  · refine (keeps_throwIf _ _).bind fun _ => (keeps_throwIf _ _).bind fun _ => ?_
    have hevents : ∀ e ∈ (if o.emitEvent then
        [runEvent o.time .runStarted o.actorType (o.actorId.getD agentId) claim
          []] else []), isEnding e.event = false := by
      intro e he
      split at he
      · rw [List.mem_singleton.mp he]
        rfl
      · cases he
    unfold commitStart
    cases findTask s.backlog claim.taskRef with
    | none => exact silent_commit hevents id
    | some task => exact silent_commitBoth hevents id

theorem BothOutcome.bound {p : Claim → Bool} {f : Claim → Claim}
    {changes : TaskStatusChanges} {ref : TaskRef} {g : Task → Task}
    {s t : Project} {r : Except DomainError Unit}
    (h : BothOutcome p f changes ref g s r t) (id : RunId)
    (hb : s.tasks.Bound id) : t.tasks.Bound id := by
  cases h with
  | refused e => exact hb
  | torn e _ _ htasks => rwa [htasks]
  | done _ _ hcommitted => exact (hcommitted.bound id).mpr hb

theorem Accounted.startRun {runId : RunId} {agentId : AgentId}
    {o : StartOptions} {now : String} {s t : Project}
    {r : Except DomainError Unit}
    (h : startRun dates runId agentId o now s = (r, t)) : Accounted s t := by
  have hcount : ∀ id, t.endings id = s.endings id :=
    fun id => Keeps.snd (silent_startRun id) h
  rcases startRun_cases h with rfl | ⟨claim, hfind, -, hstate, h⟩
  · exact .refl _
  obtain ⟨hclaim, -⟩ := Table.find?_eq_some.mp hfind
  have hstart : ∀ c, c ∈ s.events.runs →
      decide (c.runId = claim.runId) = true →
      (startClaim o.time c).active = c.active ∧
        (c.active = false → (startClaim o.time c).state = c.state) := by
    intro c hc hp
    obtain rfl := Table.eq_of_key hc hclaim (of_decide_eq_true hp)
    have hactive : c.active = true := by
      rw [Claim.active, hstate]
      rfl
    refine ⟨hactive.symm, fun hended => ?_⟩
    rw [hactive] at hended
    cases hended
  rcases commitStart_cases h with ⟨-, rfl | ⟨hmut, htasks⟩⟩ | ⟨task, -, hout⟩
  · exact .refl _
  · exact .silent hmut hcount (fun _ => rfl) hstart fun _ hb => by rwa [htasks]
  · have hbound := hout.bound
    cases hout with
    | refused e => exact .refl _
    | torn e _ hmut _ => exact .silent hmut hcount (fun _ => rfl) hstart hbound
    | done _ hmut _ => exact .silent hmut hcount (fun _ => rfl) hstart hbound

end OrcState.Lifecycle
