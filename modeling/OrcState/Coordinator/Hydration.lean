import Mathlib
import OrcState.Contract.Event
import OrcState.Foundation.Ranking
import OrcState.Store.ProjectTasks

/-!
# Hydrating the latest activity

The coordinator keeps, for each run, the latest activity and the latest phase it
has seen.  While it runs it observes every event as it comes; after a restart it
starts from a few stored events of each active run, picked by the database, and
observes what comes after its cursor.  The database compares timestamps as texts,
the coordinator as points in time.
-/

namespace OrcState.Coordinator

open Contract Foundation

/-- An event with the phase that stands beside its payload. -/
structure LoggedEvent extends OrcEvent where
  phase : Option String := none
  deriving DecidableEq

/-! ## What the database picks -/

/-- The log is the table in the order of `seq`, which is also each event's own. -/
def parseEventRow (dates : DateApi) (row : LoggedEvent) : Option LoggedEvent :=
  if validateEventObject dates row.toOrcEvent = [] then some row else none

def activityTypes : List EventName :=
  [.runStarted, .heartbeat, .workComplete, .finalizeRebaseStarted,
   .readyToMerge, .phaseStarted, .phaseFinished, .blocked,
   .needInput, .inputRequested, .inputProvided, .unblocked]

/-- `ORDER BY ts DESC, seq DESC LIMIT 1`. -/
def topRow (matching : LoggedEvent → Bool) (rows : List LoggedEvent) :
    Option LoggedEvent :=
  (rows.filter matching).reverse.argmax (·.ts)

/-- `actor_type` is neither `coordinator` nor `human`. -/
def ownActor (event : LoggedEvent) : Bool :=
  event.actorType ≠ .coordinator && event.actorType ≠ .human

def selectActivity (rows : List LoggedEvent) (runId : RunId)
    (type : EventName) : Option LoggedEvent :=
  topRow (fun row => row.runId = some runId && row.event = type && ownActor row)
    rows

def selectPhase (rows : List LoggedEvent) (runId : RunId) :
    Option LoggedEvent :=
  topRow (fun row => row.runId = some runId && row.event = .phaseStarted) rows

def readEventsForRuns (dates : DateApi) (rows : List LoggedEvent)
    (runIds : List RunId) : List LoggedEvent :=
  runIds.eraseDups.flatMap fun runId =>
    (activityTypes.flatMap fun type =>
      ((selectActivity rows runId type).bind (parseEventRow dates)).toList) ++
    ((selectPhase rows runId).bind (parseEventRow dates)).toList

/-! ## What the coordinator keeps -/

/-- `Date.parse(a) > Date.parse(b)`, false when one of them is `NaN`. -/
def parsesAfter (dates : DateApi) (a b : String) : Bool :=
  match dates.parse a, dates.parse b with
  | some x, some y => y < x
  | _, _ => false

def keepLater {T : Type} (dates : DateApi) (filter : LoggedEvent → Bool)
    (extract : LoggedEvent → T) (interim : RunId → Option (T × String))
    (event : LoggedEvent) : RunId → Option (T × String) :=
  match event.runId with
  | none => interim
  | some runId =>
      if runId = "" || event.ts = "" || !filter event then interim
      else if (interim runId).all fun prev => parsesAfter dates event.ts prev.2
      then Function.update interim runId (some (extract event, event.ts))
      else interim

def buildRunMap {T : Type} (dates : DateApi) (events : List LoggedEvent)
    (filter : LoggedEvent → Bool) (extract : LoggedEvent → T) :
    RunId → Option T := fun runId =>
  (events.foldl (keepLater dates filter extract) (fun _ => none) runId).map (·.1)

def runActivityEvents : List EventName :=
  [.runStarted, .heartbeat, .workComplete, .finalizeRebaseStarted,
   .readyToMerge, .phaseStarted, .phaseFinished, .blocked,
   .needInput, .inputRequested, .inputProvided, .unblocked]

def latestRunActivityMap (dates : DateApi) (events : List LoggedEvent) :
    RunId → Option String :=
  buildRunMap dates events
    (fun event => runActivityEvents.contains event.event && ownActor event)
    (·.ts)

structure Observed where
  latestActivityByRun : RunId → Option String := fun _ => none
  latestPhaseAtByRun : RunId → Option String := fun _ => none
  latestPhaseByRun : RunId → Option String := fun _ => none

/-- `!existing || Date.parse(ts) > Date.parse(existing)`. -/
def supersedes (dates : DateApi) (existing : Option String) (ts : String) : Bool :=
  !truthy existing || existing.any (parsesAfter dates ts)

def payloadText : PayloadValue → Option String
  | .str s => some s
  | _ => none

def usablePhase (event : LoggedEvent) : Option String :=
  (event.phase.or ((event.field "phase").bind payloadText)).filter (· ≠ "")

def observePhase (dates : DateApi) (seen : Observed) (event : LoggedEvent) :
    Observed :=
  if event.event ≠ .phaseStarted || !truthy event.runId then seen
  else
    let runId := event.runId.getD ""
    match usablePhase event with
    | none => seen
    | some phase =>
        if supersedes dates (seen.latestPhaseAtByRun runId) event.ts then
          { seen with
            latestPhaseAtByRun :=
              Function.update seen.latestPhaseAtByRun runId (some event.ts)
            latestPhaseByRun :=
              Function.update seen.latestPhaseByRun runId (some phase) }
        else seen

def mergeActivity (dates : DateApi) (existing latest : Option String) :
    Option String :=
  match latest with
  | none => existing
  | some ts => if supersedes dates existing ts then some ts else existing

def observeRunActivity (dates : DateApi) (seen : Observed)
    (events : List LoggedEvent) : Observed :=
  events.foldl (observePhase dates)
    { seen with
      latestActivityByRun := fun runId =>
        mergeActivity dates (seen.latestActivityByRun runId)
          (latestRunActivityMap dates events runId) }

/-- The batches after the cursor: event by event, without the invalid rows. -/
def observeInOrder (dates : DateApi) (seen : Observed)
    (rows : List LoggedEvent) : Observed :=
  (rows.filterMap (parseEventRow dates)).foldl
    (fun seen event => observeRunActivity dates seen [event]) seen

def activeRunIds (claims : List Claim) : List RunId :=
  (claims.filter (·.active)).map (·.runId)

/-- A coordinator that has observed the log from its beginning. -/
def replayed (dates : DateApi) (log : List LoggedEvent) : Observed :=
  observeInOrder dates {} log

/--
A coordinator that starts when `stored` events are in the table and its cursor
stands behind `cut` of them.
-/
def restarted (dates : DateApi) (log : List LoggedEvent) (claims : List Claim)
    (stored cut : Nat) : Observed :=
  observeInOrder dates
    (observeRunActivity dates {}
      (readEventsForRuns dates (log.take stored) (activeRunIds claims)))
    (log.drop cut)

/-! ## One run of the maps -/

variable {dates : DateApi}

def instant (dates : DateApi) (event : LoggedEvent) : Int :=
  (dates.parse event.ts).getD 0

def isRunActivity (runId : RunId) (event : LoggedEvent) : Bool :=
  event.runId = some runId && runActivityEvents.contains event.event &&
    ownActor event

def isPhaseStart (runId : RunId) (event : LoggedEvent) : Bool :=
  event.runId = some runId && event.event = .phaseStarted &&
    (usablePhase event).isSome

/-- What the validation promises of the fields that the maps read. -/
structure Readable (dates : DateApi) (event : LoggedEvent) : Prop where
  parses : (dates.parse event.ts).isSome = true
  text : event.ts ≠ ""
  named : event.runId ≠ some ""

theorem Readable.of_valid {event : LoggedEvent}
    (h : validateEventObject dates event.toOrcEvent = []) : Readable dates event := by
  simp only [validateEventObject, validateSchema, List.append_eq_nil_iff,
    complainIf_eq_nil] at h
  obtain ⟨⟨⟨⟨⟨-, hts⟩, hrun⟩, -⟩, -⟩, -⟩ := h
  simp only [DateApi.isDateTime, Bool.not_eq_false', Bool.and_eq_true,
    decide_eq_true_eq] at hts
  refine ⟨hts.2, hts.1, fun hempty => ?_⟩
  rw [hempty] at hrun
  revert hrun
  decide

theorem parsesAfter_iff {a b : LoggedEvent} (ha : Readable dates a)
    (hb : Readable dates b) :
    parsesAfter dates a.ts b.ts = decide (instant dates b < instant dates a) := by
  obtain ⟨x, hx⟩ := Option.isSome_iff_exists.mp ha.parses
  obtain ⟨y, hy⟩ := Option.isSome_iff_exists.mp hb.parses
  simp only [parsesAfter, instant, hx, hy, Option.getD_some]

theorem supersedes_iff {a : LoggedEvent} (ha : Readable dates a)
    {existing : Option LoggedEvent} (hexisting : ∀ b ∈ existing, Readable dates b) :
    supersedes dates (existing.map (·.ts)) a.ts =
      existing.all fun b => decide (instant dates b < instant dates a) := by
  cases existing with
  | none => rfl
  | some b =>
      have hb := hexisting b rfl
      simp only [supersedes, truthy, Option.map_some, Option.any_some,
        Option.all_some, parsesAfter_iff ha hb, hb.text, ne_eq,
        not_false_eq_true, decide_true, Bool.not_true, Bool.false_or]

theorem readable_argmax {l : List LoggedEvent} {p : LoggedEvent → Bool}
    (hl : ∀ e ∈ l, Readable dates e) :
    ∀ b ∈ (l.filter p).argmax (instant dates), Readable dates b := fun b hb =>
  hl b (List.mem_of_mem_filter (List.argmax_mem hb))

theorem keepLater_other {T : Type} {filter : LoggedEvent → Bool}
    {extract : LoggedEvent → T} {interim : RunId → Option (T × String)}
    {runId : RunId} {a : LoggedEvent}
    (h : (a.runId = some runId && filter a) = false) :
    keepLater dates filter extract interim a runId = interim runId := by
  cases hid : a.runId with
  | none => simp only [keepLater, hid]
  | some id =>
      simp only [keepLater, hid]
      split
      · rfl
      · next hskip =>
          have hne : runId ≠ id := by
            rintro rfl
            simp only [hid, decide_true, Bool.true_and] at h
            simp only [h, Bool.not_false, Bool.or_true, not_true_eq_false] at hskip
          split
          · exact Function.update_of_ne hne _ _
          · rfl

theorem keepLater_own {T : Type} {filter : LoggedEvent → Bool}
    {extract : LoggedEvent → T} {interim : RunId → Option (T × String)}
    {runId : RunId} {a : LoggedEvent} (ha : Readable dates a)
    (h : (a.runId = some runId && filter a) = true)
    {best : Option LoggedEvent} (hbest : ∀ b ∈ best, Readable dates b)
    (hinterim : interim runId = best.map fun e => (extract e, e.ts)) :
    keepLater dates filter extract interim a runId =
      (best.elim (some a) fun b =>
        if instant dates b < instant dates a then some a else some b).map
          fun e => (extract e, e.ts) := by
  simp only [Bool.and_eq_true, decide_eq_true_eq] at h
  have hid : runId ≠ "" := fun hempty => ha.named (hempty ▸ h.1)
  cases best with
  | none =>
      simp only [Option.map_none] at hinterim
      simp [keepLater, h, hid, ha.text, hinterim]
  | some b =>
      simp only [Option.map_some] at hinterim
      simp only [keepLater, h, hid, ha.text, hinterim, Bool.not_true,
        decide_false, Bool.or_self, Bool.false_eq_true, if_false,
        Option.all_some, parsesAfter_iff ha (hbest b rfl), decide_eq_true_eq,
        Option.elim_some]
      split
      · rw [Function.update_self, Option.map_some]
      · rw [hinterim, Option.map_some]

/-- The map holds, of each run, the first event of the greatest instant. -/
theorem foldl_keepLater {T : Type} {filter : LoggedEvent → Bool}
    {extract : LoggedEvent → T} (runId : RunId) (l : List LoggedEvent)
    (hl : ∀ e ∈ l, Readable dates e) :
    l.foldl (keepLater dates filter extract) (fun _ => none) runId =
      ((l.filter fun e => e.runId = some runId && filter e).argmax
        (instant dates)).map fun e => (extract e, e.ts) := by
  induction l using List.reverseRecOn with
  | nil => rfl
  | append_singleton l a ih =>
      have ha : Readable dates a := hl a (List.mem_append_right l List.mem_cons_self)
      have hl' : ∀ e ∈ l, Readable dates e := fun e he =>
        hl e (List.mem_append_left [a] he)
      rw [List.foldl_append, List.foldl_cons, List.foldl_nil, List.filter_append]
      cases hown : (a.runId = some runId && filter a : Bool) with
      | false =>
          simp only [keepLater_other hown, ih hl', List.filter_cons, hown,
            Bool.false_eq_true, if_false, List.filter_nil, List.append_nil]
      | true =>
          simp only [keepLater_own ha hown (readable_argmax hl') (ih hl'),
            List.filter_cons, hown, if_true, List.filter_nil, List.argmax_concat]
          cases (l.filter _).argmax (instant dates) <;> rfl

theorem latestRunActivityMap_eq (runId : RunId) {l : List LoggedEvent}
    (hl : ∀ e ∈ l, Readable dates e) :
    latestRunActivityMap dates l runId =
      ((l.filter (isRunActivity runId)).argmax (instant dates)).map (·.ts) := by
  have hfilter : isRunActivity runId = fun e => e.runId = some runId &&
      (runActivityEvents.contains e.event && ownActor e) := by
    funext e
    exact Bool.and_assoc _ _ _
  rw [latestRunActivityMap, buildRunMap, foldl_keepLater runId l hl,
    Option.map_map, hfilter]
  rfl

theorem mergeActivity_eq {l l' : List LoggedEvent}
    (hl : ∀ e ∈ l, Readable dates e) (hl' : ∀ e ∈ l', Readable dates e) :
    mergeActivity dates ((l.argmax (instant dates)).map (·.ts))
        ((l'.argmax (instant dates)).map (·.ts)) =
      ((l ++ l').argmax (instant dates)).map (·.ts) := by
  rw [argmax_append]
  cases hlatest : l'.argmax (instant dates) with
  | none => rfl
  | some x =>
      have hx : Readable dates x := hl' x (List.argmax_mem hlatest)
      have hbest : ∀ b ∈ l.argmax (instant dates), Readable dates b := fun b hb =>
        hl b (List.argmax_mem hb)
      simp only [mergeActivity, Option.map_some, supersedes_iff hx hbest,
        Option.elim_some]
      cases l.argmax (instant dates) with
      | none => rfl
      | some b =>
          simp only [Option.all_some, decide_eq_true_eq, Option.elim_some]
          split <;> rfl

/-! ## Observing is scanning for the latest -/

/-- What the maps hold of a run after the events `l`. -/
structure Tracks (dates : DateApi) (seen : Observed) (runId : RunId)
    (l : List LoggedEvent) : Prop where
  activity : seen.latestActivityByRun runId =
    ((l.filter (isRunActivity runId)).argmax (instant dates)).map (·.ts)
  phaseAt : seen.latestPhaseAtByRun runId =
    ((l.filter (isPhaseStart runId)).argmax (instant dates)).map (·.ts)
  phase : seen.latestPhaseByRun runId =
    ((l.filter (isPhaseStart runId)).argmax (instant dates)).bind usablePhase

theorem Tracks.empty (runId : RunId) : Tracks dates {} runId [] := ⟨rfl, rfl, rfl⟩

theorem observePhase_activity (seen : Observed) (event : LoggedEvent) :
    (observePhase dates seen event).latestActivityByRun =
      seen.latestActivityByRun := by
  unfold observePhase
  split
  · rfl
  · dsimp only
    split
    · rfl
    · split <;> rfl

theorem foldl_observePhase_activity (seen : Observed) (l : List LoggedEvent) :
    (l.foldl (observePhase dates) seen).latestActivityByRun =
      seen.latestActivityByRun := by
  induction l generalizing seen with
  | nil => rfl
  | cons e l ih => rw [List.foldl_cons, ih, observePhase_activity]

def PhaseTracks (dates : DateApi) (seen : Observed) (runId : RunId)
    (l : List LoggedEvent) : Prop :=
  seen.latestPhaseAtByRun runId =
      ((l.filter (isPhaseStart runId)).argmax (instant dates)).map (·.ts) ∧
    seen.latestPhaseByRun runId =
      ((l.filter (isPhaseStart runId)).argmax (instant dates)).bind usablePhase

theorem observePhase_other {seen : Observed} {runId : RunId} {a : LoggedEvent}
    (h : isPhaseStart runId a = false) :
    (observePhase dates seen a).latestPhaseAtByRun runId =
        seen.latestPhaseAtByRun runId ∧
      (observePhase dates seen a).latestPhaseByRun runId =
        seen.latestPhaseByRun runId := by
  unfold observePhase
  split
  · exact ⟨rfl, rfl⟩
  · next hskip =>
      cases hphase : usablePhase a with
      | none => exact ⟨rfl, rfl⟩
      | some phase =>
          have hne : runId ≠ a.runId.getD "" := by
            intro heq
            cases hid : a.runId with
            | none => simp [hid] at hskip
            | some id =>
                simp only [hid, Option.getD_some] at heq
                simp [isPhaseStart, hid, heq, hphase] at h
                simp [h] at hskip
          simp only
          split
          · exact ⟨Function.update_of_ne hne _ _, Function.update_of_ne hne _ _⟩
          · exact ⟨rfl, rfl⟩

theorem observePhase_own {seen : Observed} {runId : RunId} {a : LoggedEvent}
    (ha : Readable dates a) (h : isPhaseStart runId a = true)
    {best : Option LoggedEvent} (hbest : ∀ b ∈ best, Readable dates b)
    (hat : seen.latestPhaseAtByRun runId = best.map (·.ts))
    (hphase : seen.latestPhaseByRun runId = best.bind usablePhase) :
    (observePhase dates seen a).latestPhaseAtByRun runId =
        (best.elim (some a) fun b =>
          if instant dates b < instant dates a then some a else some b).map (·.ts) ∧
      (observePhase dates seen a).latestPhaseByRun runId =
        (best.elim (some a) fun b =>
          if instant dates b < instant dates a then some a
          else some b).bind usablePhase := by
  simp only [isPhaseStart, Bool.and_eq_true, decide_eq_true_eq] at h
  obtain ⟨⟨hrun, hstart⟩, husable⟩ := h
  have hid : runId ≠ "" := fun hempty => ha.named (hempty ▸ hrun)
  obtain ⟨phase, husable⟩ := Option.isSome_iff_exists.mp husable
  have hskip : (decide (a.event ≠ .phaseStarted) || !truthy (some runId)) =
      false := by
    simp [hstart, truthy, hid]
  simp only [observePhase, hskip, Bool.false_eq_true, if_false, husable, hrun,
    Option.getD_some, hat, supersedes_iff ha hbest]
  cases best with
  | none =>
      simp only [Option.all_none, if_true, Function.update_self,
        Option.elim_none, Option.map_some, Option.bind_some, husable, and_self]
  | some b =>
      simp only [Option.all_some, decide_eq_true_eq, Option.elim_some]
      split
      · simp only [Function.update_self, Option.map_some, Option.bind_some,
          husable, and_self]
      · exact ⟨hat, hphase⟩

theorem PhaseTracks.observe {seen : Observed} {runId : RunId}
    {l : List LoggedEvent} {a : LoggedEvent} (hl : ∀ e ∈ l, Readable dates e)
    (ha : Readable dates a) (h : PhaseTracks dates seen runId l) :
    PhaseTracks dates (observePhase dates seen a) runId (l ++ [a]) := by
  unfold PhaseTracks
  rw [List.filter_append]
  cases hown : isPhaseStart runId a with
  | false =>
      obtain ⟨hat, hphase⟩ : (observePhase dates seen a).latestPhaseAtByRun runId =
            seen.latestPhaseAtByRun runId ∧
          (observePhase dates seen a).latestPhaseByRun runId =
            seen.latestPhaseByRun runId := observePhase_other hown
      simp only [hat, hphase, List.filter_cons, hown, Bool.false_eq_true, if_false,
        List.filter_nil, List.append_nil]
      exact h
  | true =>
      obtain ⟨hat, hphase⟩ := observePhase_own ha hown (readable_argmax hl) h.1 h.2
      simp only [hat, hphase, List.filter_cons, hown, if_true, List.filter_nil,
        List.argmax_concat]
      cases (l.filter (isPhaseStart runId)).argmax (instant dates) <;>
        exact ⟨rfl, rfl⟩

theorem PhaseTracks.observe_all {seen : Observed} {runId : RunId}
    {l l' : List LoggedEvent} (hl : ∀ e ∈ l, Readable dates e)
    (hl' : ∀ e ∈ l', Readable dates e) (h : PhaseTracks dates seen runId l) :
    PhaseTracks dates (l'.foldl (observePhase dates) seen) runId (l ++ l') := by
  induction l' generalizing seen l with
  | nil => simpa using h
  | cons a l' ih =>
      have ha := hl' a List.mem_cons_self
      have hrest : ∀ e ∈ l', Readable dates e := fun e he =>
        hl' e (List.mem_cons_of_mem a he)
      have hnext : ∀ e ∈ l ++ [a], Readable dates e := by
        intro e he
        rcases List.mem_append.mp he with he | he
        · exact hl e he
        · exact (List.mem_singleton.mp he) ▸ ha
      simpa using ih hnext hrest (h.observe hl ha)

theorem Tracks.observe {seen : Observed} {runId : RunId}
    {l l' : List LoggedEvent} (hl : ∀ e ∈ l, Readable dates e)
    (hl' : ∀ e ∈ l', Readable dates e) (h : Tracks dates seen runId l) :
    Tracks dates (observeRunActivity dates seen l') runId (l ++ l') := by
  have hphases : PhaseTracks dates (observeRunActivity dates seen l') runId
      (l ++ l') := by
    exact PhaseTracks.observe_all hl hl' ⟨h.phaseAt, h.phase⟩
  refine ⟨?_, hphases.1, hphases.2⟩
  have hactivity : ∀ {k : List LoggedEvent}, (∀ e ∈ k, Readable dates e) →
      ∀ e ∈ k.filter (isRunActivity runId), Readable dates e := fun hk e he =>
    hk e (List.mem_of_mem_filter he)
  rw [observeRunActivity, foldl_observePhase_activity]
  simp only [h.activity, latestRunActivityMap_eq runId hl',
    mergeActivity_eq (hactivity hl) (hactivity hl'), List.filter_append]

theorem Tracks.observeInOrder {seen : Observed} {runId : RunId}
    {l rows : List LoggedEvent} (hl : ∀ e ∈ l, Readable dates e)
    (hrows : ∀ e ∈ rows, validateEventObject dates e.toOrcEvent = [])
    (h : Tracks dates seen runId l) :
    Tracks dates (observeInOrder dates seen rows) runId (l ++ rows) := by
  induction rows generalizing seen l with
  | nil => simpa [Coordinator.observeInOrder] using h
  | cons a rows ih =>
      have hvalid := hrows a List.mem_cons_self
      have ha : Readable dates a := .of_valid hvalid
      have hrest := fun e he => hrows e (List.mem_cons_of_mem a he)
      have hnext : ∀ e ∈ l ++ [a], Readable dates e := by
        intro e he
        rcases List.mem_append.mp he with he | he
        · exact hl e he
        · exact (List.mem_singleton.mp he) ▸ ha
      have hone : ∀ e ∈ [a], Readable dates e := fun e he =>
        (List.mem_singleton.mp he) ▸ ha
      have hstep := ih hnext hrest (h.observe hl hone)
      simpa [Coordinator.observeInOrder, parseEventRow, hvalid] using hstep

/-! ## The hydrated events of one run -/

theorem topRow_spec {matching : LoggedEvent → Bool} {rows : List LoggedEvent}
    {e : LoggedEvent} (h : topRow matching rows = some e) :
    e ∈ rows ∧ matching e = true ∧
      ∀ e' ∈ rows, matching e' = true → e'.ts ≤ e.ts := by
  obtain ⟨hmem, hmatching⟩ :=
    List.mem_filter.mp (List.mem_reverse.mp (List.argmax_mem h))
  refine ⟨hmem, hmatching, fun e' he' hmatching' => ?_⟩
  have hmem' : e' ∈ (rows.filter matching).reverse :=
    List.mem_reverse.mpr (List.mem_filter.mpr ⟨he', hmatching'⟩)
  have hle := List.le_of_mem_argmax (f := fun e : LoggedEvent => e.ts) hmem' h
  exact hle

theorem topRow_exists {matching : LoggedEvent → Bool} {rows : List LoggedEvent}
    {e : LoggedEvent} (he : e ∈ rows) (hmatching : matching e = true) :
    ∃ top, topRow matching rows = some top := by
  refine Option.isSome_iff_exists.mp (Option.isSome_iff_ne_none.mpr fun hnone => ?_)
  have hmem : e ∈ (rows.filter matching).reverse :=
    List.mem_reverse.mpr (List.mem_filter.mpr ⟨he, hmatching⟩)
  rw [List.argmax_eq_none.mp hnone] at hmem
  cases hmem

/-- The matching row that is last by timestamp text and then by `seq`. -/
def LastByText (matching : LoggedEvent → Bool) (rows : List LoggedEvent)
    (e : LoggedEvent) : Prop :=
  matching e = true ∧ ∃ front back, rows = front ++ e :: back ∧
    (∀ e' ∈ front, matching e' = true → e'.ts ≤ e.ts) ∧
    ∀ e' ∈ back, matching e' = true → e'.ts < e.ts

theorem LastByText.unique {matching : LoggedEvent → Bool}
    {rows : List LoggedEvent} {a b : LoggedEvent} (ha : LastByText matching rows a)
    (hb : LastByText matching rows b) : a = b := by
  obtain ⟨hamatch, front, back, rfl, hafront, haback⟩ := ha
  obtain ⟨hbmatch, front', back', heq, hbfront, hbback⟩ := hb
  rcases List.append_eq_append_iff.mp heq with ⟨between, rfl, hrest⟩ |
      ⟨between, rfl, hrest⟩
  · cases between with
    | nil => exact (List.cons.inj hrest).1
    | cons c between =>
        obtain ⟨rfl, rfl⟩ := List.cons.inj hrest
        have hlater := haback b (by simp) hbmatch
        exact absurd hlater (not_lt_of_ge (hbfront a (by simp) hamatch))
  · cases between with
    | nil => exact (List.cons.inj hrest).1.symm
    | cons c between =>
        obtain ⟨rfl, rfl⟩ := List.cons.inj hrest
        have hlater := hbback a (by simp) hamatch
        exact absurd hlater (not_lt_of_ge (hafront b (by simp) hbmatch))

theorem topRow_cons (matching : LoggedEvent → Bool) (row : LoggedEvent)
    (rows : List LoggedEvent) :
    topRow matching (row :: rows) =
      match topRow matching rows with
      | none => if matching row = true then some row else none
      | some e =>
          if matching row = true ∧ e.ts < row.ts then some row else some e := by
  unfold topRow
  cases hrow : matching row with
  | false =>
      rw [List.filter_cons_of_neg (by simp [hrow])]
      split <;> simp [*]
  | true =>
      rw [List.filter_cons_of_pos hrow, List.reverse_cons, List.argmax_concat]
      cases (rows.filter matching).reverse.argmax (·.ts) <;> simp

theorem topRow_last {matching : LoggedEvent → Bool} {rows : List LoggedEvent}
    {e : LoggedEvent} (h : topRow matching rows = some e) :
    LastByText matching rows e := by
  induction rows generalizing e with
  | nil => cases h
  | cons row rows ih =>
      rw [topRow_cons] at h
      cases htop : topRow matching rows with
      | none =>
          rw [htop] at h
          dsimp only at h
          split at h
          · rename_i hrow
            cases h
            refine ⟨hrow, [], rows, rfl, by simp, fun e' he' hmatch => ?_⟩
            obtain ⟨top, hsome⟩ := topRow_exists he' hmatch
            cases htop.symm.trans hsome
          · cases h
      | some top =>
          rw [htop] at h
          obtain ⟨htmatch, front, back, rfl, hfront, hback⟩ := ih htop
          dsimp only at h
          split at h
          · rename_i hrow
            cases h
            refine ⟨hrow.1, [], _, rfl, by simp, fun e' he' hmatch => ?_⟩
            exact lt_of_le_of_lt ((topRow_spec htop).2.2 e' he' hmatch) hrow.2
          · rename_i hrow
            cases h
            refine ⟨htmatch, row :: front, back, rfl, fun e' he' hmatch => ?_, hback⟩
            rcases List.mem_cons.mp he' with rfl | he'
            · exact not_lt.mp fun hlt => hrow ⟨hmatch, hlt⟩
            · exact hfront e' he' hmatch

def Picked (matching : LoggedEvent → Bool) (rows : List LoggedEvent) :
    Option LoggedEvent → Prop
  | some e => LastByText matching rows e
  | none => ∀ e ∈ rows, matching e = false

theorem picked_iff {matching : LoggedEvent → Bool} {rows : List LoggedEvent}
    {o : Option LoggedEvent} :
    Picked matching rows o ↔ topRow matching rows = o := by
  cases htop : topRow matching rows with
  | none =>
      have hnone : ∀ e ∈ rows, matching e = false := fun e he =>
        Bool.eq_false_iff.mpr fun hmatch => by
          obtain ⟨top, hsome⟩ := topRow_exists he hmatch
          cases htop.symm.trans hsome
      cases o with
      | none => exact iff_of_true hnone rfl
      | some e =>
          refine iff_of_false ?_ (by simp)
          rintro ⟨hmatch, front, back, rfl, -, -⟩
          rw [hnone e (by simp)] at hmatch
          cases hmatch
  | some top =>
      have hlast := topRow_last htop
      cases o with
      | none =>
          refine iff_of_false (fun hnone => ?_) (by simp)
          have hmatch := (topRow_spec htop).2.1
          rw [hnone top (topRow_spec htop).1] at hmatch
          cases hmatch
      | some e =>
          constructor
          · intro h
            rw [hlast.unique h]
          · intro h
            cases h
            exact hlast

theorem selectActivity_spec {rows : List LoggedEvent} {runId : RunId}
    {type : EventName} {e : LoggedEvent}
    (h : selectActivity rows runId type = some e) :
    e ∈ rows ∧ e.runId = some runId ∧ e.event = type ∧ ownActor e = true ∧
      ∀ e' ∈ rows, e'.runId = some runId → e'.event = type → ownActor e' = true →
        e'.ts ≤ e.ts := by
  obtain ⟨hmem, hmatching, htop⟩ := topRow_spec h
  simp only [Bool.and_eq_true, decide_eq_true_eq] at hmatching htop
  exact ⟨hmem, hmatching.1.1, hmatching.1.2, hmatching.2,
    fun e' he' hrun htype hown => htop e' he' ⟨⟨hrun, htype⟩, hown⟩⟩

theorem selectPhase_spec {rows : List LoggedEvent} {runId : RunId}
    {e : LoggedEvent} (h : selectPhase rows runId = some e) :
    e ∈ rows ∧ e.runId = some runId ∧ e.event = .phaseStarted ∧
      ∀ e' ∈ rows, e'.runId = some runId → e'.event = .phaseStarted →
        e'.ts ≤ e.ts := by
  obtain ⟨hmem, hmatching, htop⟩ := topRow_spec h
  simp only [Bool.and_eq_true, decide_eq_true_eq] at hmatching htop
  exact ⟨hmem, hmatching.1, hmatching.2,
    fun e' he' hrun htype => htop e' he' ⟨hrun, htype⟩⟩

/-- The rows that are read for one run. -/
def rowsOfRun (rows : List LoggedEvent) (runId : RunId) : List LoggedEvent :=
  (activityTypes.flatMap fun type => (selectActivity rows runId type).toList) ++
    (selectPhase rows runId).toList

theorem mem_rowsOfRun {rows : List LoggedEvent} {runId : RunId}
    {e : LoggedEvent} : e ∈ rowsOfRun rows runId ↔
      (∃ type ∈ activityTypes, selectActivity rows runId type = some e) ∨
        selectPhase rows runId = some e := by
  simp only [rowsOfRun, List.mem_append, List.mem_flatMap, Option.mem_toList]

theorem mem_of_rowsOfRun {rows : List LoggedEvent} {runId : RunId}
    {e : LoggedEvent} (h : e ∈ rowsOfRun rows runId) :
    e ∈ rows ∧ e.runId = some runId := by
  rcases mem_rowsOfRun.mp h with ⟨type, -, htype⟩ | hphase
  · exact ⟨(selectActivity_spec htype).1, (selectActivity_spec htype).2.1⟩
  · exact ⟨(selectPhase_spec hphase).1, (selectPhase_spec hphase).2.1⟩

theorem readEventsForRuns_eq {rows : List LoggedEvent} (runIds : List RunId)
    (hrows : ∀ e ∈ rows, validateEventObject dates e.toOrcEvent = []) :
    readEventsForRuns dates rows runIds =
      runIds.eraseDups.flatMap (rowsOfRun rows) := by
  have hparse : ∀ {o : Option LoggedEvent}, (∀ e ∈ o, e ∈ rows) →
      o.bind (parseEventRow dates) = o := by
    intro o ho
    cases o with
    | none => rfl
    | some e =>
        have hvalid := hrows e (ho e rfl)
        simp only [Option.bind_some, parseEventRow, hvalid, if_true]
  have hactivity : ∀ runId type,
      (selectActivity rows runId type).bind (parseEventRow dates) =
        selectActivity rows runId type := fun runId type =>
    hparse fun e he => (selectActivity_spec he).1
  have hphase : ∀ runId, (selectPhase rows runId).bind (parseEventRow dates) =
      selectPhase rows runId := fun runId =>
    hparse fun e he => (selectPhase_spec he).1
  simp only [readEventsForRuns, hactivity, hphase]
  rfl

theorem filter_flatMap_of_nodup {α κ : Type} {f : κ → List α} {p : α → Bool}
    {key : κ} {keys : List κ} (hkeys : keys.Nodup) (hkey : key ∈ keys)
    (hp : ∀ k ∈ keys, k ≠ key → ∀ a ∈ f k, p a = false) :
    (keys.flatMap f).filter p = (f key).filter p := by
  induction keys with
  | nil => cases hkey
  | cons k keys ih =>
      rw [List.flatMap_cons, List.filter_append]
      obtain ⟨hnot, hnodup⟩ := List.nodup_cons.mp hkeys
      have hrest := fun k' hk' => hp k' (List.mem_cons_of_mem k hk')
      rcases List.mem_cons.mp hkey with rfl | hmem
      · have hnone : (keys.flatMap f).filter p = [] := by
          refine List.filter_eq_nil_iff.mpr fun a ha => ?_
          obtain ⟨k', hk', ha⟩ := List.mem_flatMap.mp ha
          have hne : k' ≠ key := fun heq => hnot (heq ▸ hk')
          simp [hrest k' hk' hne a ha]
        rw [hnone, List.append_nil]
      · have hne : k ≠ key := fun heq => hnot (heq ▸ hmem)
        have hnone : (f k).filter p = [] :=
          List.filter_eq_nil_iff.mpr fun a ha => by
            simp [hp k List.mem_cons_self hne a ha]
        rw [hnone, List.nil_append, ih hnodup hmem hrest]

theorem readEventsForRuns_filter {rows : List LoggedEvent} {runIds : List RunId}
    {runId : RunId}
    (hrows : ∀ e ∈ rows, validateEventObject dates e.toOrcEvent = [])
    (hmem : runId ∈ runIds) {p : LoggedEvent → Bool}
    (hp : ∀ e, p e = true → e.runId = some runId) :
    (readEventsForRuns dates rows runIds).filter p =
      (rowsOfRun rows runId).filter p := by
  rw [readEventsForRuns_eq runIds hrows]
  refine filter_flatMap_of_nodup (Store.nodup_eraseDups runIds)
    (List.mem_eraseDups.mpr hmem) fun k _ hne a ha => ?_
  cases hpa : p a with
  | false => rfl
  | true =>
      have heq := (hp a hpa).symm.trans (mem_of_rowsOfRun ha).2
      exact absurd (Option.some.inj heq).symm hne

/-! ## When a restart sees what a replay sees -/

/-- No stored activity of the run and of the same type has a greater timestamp text. -/
def TextTop (rows : List LoggedEvent) (runId : RunId) (e : LoggedEvent) : Prop :=
  e ∈ rows ∧ ∀ e' ∈ rows, isRunActivity runId e' = true → e'.event = e.event →
    e'.ts ≤ e.ts

/--
No activity of the run is later than all of those after the cursor and those with
the greatest timestamp text of their type.
-/
def ActivityKept (dates : DateApi) (log : List LoggedEvent) (stored cut : Nat)
    (runId : RunId) : Prop :=
  ∀ e ∈ log, isRunActivity runId e = true →
    ∃ e' ∈ log, isRunActivity runId e' = true ∧ instant dates e ≤ instant dates e' ∧
      (e' ∈ log.drop cut ∨ TextTop (log.take stored) runId e')

def FirstLatest (dates : DateApi) (runId : RunId) (l : List LoggedEvent)
    (e : LoggedEvent) : Prop :=
  e ∈ (l.filter (isPhaseStart runId)).argmax (instant dates)

def startsPhase (runId : RunId) (row : LoggedEvent) : Bool :=
  row.runId = some runId && row.event = .phaseStarted

/--
Of the last stored phase start of the run's own, the last stored one of anyone and
those after the cursor, the first of the latest instant names the phase that the
first of the latest instant names in the whole log.
-/
def PhaseKept (dates : DateApi) (log : List LoggedEvent) (stored cut : Nat)
    (runId : RunId) : Prop :=
  ∀ own any, Picked (fun row => startsPhase runId row && ownActor row)
      (log.take stored) own →
    Picked (startsPhase runId) (log.take stored) any →
    ∀ e, FirstLatest dates runId log e →
      ∃ e', FirstLatest dates runId (own.toList ++ any.toList ++ log.drop cut) e' ∧
        usablePhase e' = usablePhase e

def phaseSources (log : List LoggedEvent) (stored cut : Nat) (runId : RunId) :
    List LoggedEvent :=
  (selectActivity (log.take stored) runId .phaseStarted).toList ++
    (selectPhase (log.take stored) runId).toList ++ log.drop cut

theorem phaseKept_iff {log : List LoggedEvent} {stored cut : Nat} {runId : RunId} :
    PhaseKept dates log stored cut runId ↔
      ∀ e, FirstLatest dates runId log e →
        ∃ e', FirstLatest dates runId (phaseSources log stored cut runId) e' ∧
          usablePhase e' = usablePhase e := by
  constructor
  · intro h
    exact h _ _ (picked_iff.mpr rfl) (picked_iff.mpr rfl)
  · intro h own any hown hany
    rw [← picked_iff.mp hown, ← picked_iff.mp hany]
    exact h

structure SameView (dates : DateApi) (a b : Observed) (runId : RunId) : Prop where
  activity : (a.latestActivityByRun runId).bind dates.parse =
    (b.latestActivityByRun runId).bind dates.parse
  phase : a.latestPhaseByRun runId = b.latestPhaseByRun runId

theorem parse_latest {l : List LoggedEvent} (hl : ∀ e ∈ l, Readable dates e)
    {p : LoggedEvent → Bool} :
    (((l.filter p).argmax (instant dates)).map (·.ts)).bind dates.parse =
      ((l.filter p).argmax (instant dates)).map (instant dates) := by
  cases hbest : (l.filter p).argmax (instant dates) with
  | none => rfl
  | some b =>
      obtain ⟨x, hx⟩ := Option.isSome_iff_exists.mp (readable_argmax hl b hbest).parses
      simp only [Option.map_some, Option.bind_some, instant, hx, Option.getD_some]

theorem isRunActivity_iff {runId : RunId} {e : LoggedEvent} :
    isRunActivity runId e = true ↔ e.runId = some runId ∧
      e.event ∈ activityTypes ∧ ownActor e = true := by
  simp only [isRunActivity, Bool.and_eq_true, decide_eq_true_eq,
    List.contains_iff_mem, and_assoc]
  rfl

/-- A hydrated activity is textually the last of its type, and one such is hydrated. -/
theorem rowsOfRun_bounds {rows : List LoggedEvent} {runId : RunId}
    {a : LoggedEvent} :
    (∃ e ∈ rowsOfRun rows runId, isRunActivity runId e = true ∧
        instant dates a ≤ instant dates e) ↔
      ∃ e, isRunActivity runId e = true ∧ instant dates a ≤ instant dates e ∧
        TextTop rows runId e := by
  constructor
  case mp =>
    rintro ⟨e, hmem, hactivity, hle⟩
    refine ⟨e, hactivity, hle, (mem_of_rowsOfRun hmem).1, fun e' he' ha' htype => ?_⟩
    obtain ⟨hrun', -, hown'⟩ := isRunActivity_iff.mp ha'
    rcases mem_rowsOfRun.mp hmem with ⟨type, -, hselect⟩ | hphase
    · obtain ⟨-, -, hevent, -, htop⟩ := selectActivity_spec hselect
      exact htop e' he' hrun' (htype.trans hevent) hown'
    · obtain ⟨-, -, hevent, htop⟩ := selectPhase_spec hphase
      exact htop e' he' hrun' (htype.trans hevent)
  case mpr =>
    rintro ⟨e, hactivity, hle, hmem, htop⟩
    obtain ⟨hrun, htype, hown⟩ := isRunActivity_iff.mp hactivity
    have hmatching : (decide (e.runId = some runId) && decide (e.event = e.event) &&
        ownActor e) = true := by
      simp [hrun, hown]
    obtain ⟨top, hselect⟩ : ∃ top, selectActivity rows runId e.event = some top :=
      topRow_exists hmem hmatching
    obtain ⟨htopmem, htoprun, htoptype, htopown, hbound⟩ :=
      selectActivity_spec hselect
    have htopactivity : isRunActivity runId top = true :=
      isRunActivity_iff.mpr ⟨htoprun, htoptype ▸ htype, htopown⟩
    have hsame : top.ts = e.ts :=
      le_antisymm (htop top htopmem htopactivity htoptype)
        (hbound e hmem hrun rfl hown)
    refine ⟨top, mem_rowsOfRun.mpr (.inl ⟨e.event, htype, hselect⟩),
      htopactivity, ?_⟩
    simpa only [instant, hsame] using hle

theorem rowsOfRun_starts (rows : List LoggedEvent) (runId : RunId) :
    (rowsOfRun rows runId).filter (isPhaseStart runId) =
      ((selectActivity rows runId .phaseStarted).toList ++
        (selectPhase rows runId).toList).filter (isPhaseStart runId) := by
  rw [rowsOfRun, List.filter_append, List.filter_append]
  congr 1
  refine filter_flatMap_of_nodup (by decide) (by decide) fun type _ hne e he => ?_
  have hevent : e.event = type :=
    (selectActivity_spec (Option.mem_toList.mp he)).2.2.1
  simp [isPhaseStart, hevent, hne]

theorem replayed_tracks {log : List LoggedEvent} (runId : RunId)
    (hvalid : ∀ e ∈ log, validateEventObject dates e.toOrcEvent = []) :
    Tracks dates (replayed dates log) runId log :=
  Tracks.observeInOrder (fun _ he => absurd he List.not_mem_nil) hvalid
    (.empty runId)

theorem restarted_tracks {log : List LoggedEvent} {claims : List Claim}
    {stored cut : Nat} {runId : RunId}
    (hvalid : ∀ e ∈ log, validateEventObject dates e.toOrcEvent = [])
    (hactive : runId ∈ activeRunIds claims) :
    Tracks dates (restarted dates log claims stored cut) runId
      (rowsOfRun (log.take stored) runId ++ log.drop cut) := by
  have htake : ∀ e ∈ log.take stored,
      validateEventObject dates e.toOrcEvent = [] := fun e he =>
    hvalid e (List.mem_of_mem_take he)
  have hdrop : ∀ e ∈ log.drop cut,
      validateEventObject dates e.toOrcEvent = [] := fun e he =>
    hvalid e (List.mem_of_mem_drop he)
  have hread : ∀ e ∈ readEventsForRuns dates (log.take stored)
      (activeRunIds claims), Readable dates e := by
    intro e he
    rw [readEventsForRuns_eq _ htake] at he
    obtain ⟨k, -, he⟩ := List.mem_flatMap.mp he
    exact .of_valid (htake e (mem_of_rowsOfRun he).1)
  have hnone : ∀ e ∈ ([] : List LoggedEvent), Readable dates e := fun _ he =>
    absurd he List.not_mem_nil
  have hobserved := Tracks.observeInOrder
    (fun e he => (List.mem_append.mp he).elim (hnone e) (hread e)) hdrop
    ((Tracks.empty runId).observe hnone hread)
  have hpart : ∀ {p : LoggedEvent → Bool},
      (∀ e, p e = true → e.runId = some runId) →
      ([] ++ readEventsForRuns dates (log.take stored) (activeRunIds claims) ++
          log.drop cut).filter p =
        (rowsOfRun (log.take stored) runId ++ log.drop cut).filter p := by
    intro p hp
    rw [List.nil_append, List.filter_append, List.filter_append,
      readEventsForRuns_filter htake hactive hp]
  have hactivity := hpart (p := isRunActivity runId) fun e he =>
    (isRunActivity_iff.mp he).1
  have hstart := hpart (p := isPhaseStart runId) fun e he => by
    simp only [isPhaseStart, Bool.and_eq_true, decide_eq_true_eq] at he
    exact he.1.1
  exact ⟨hactivity ▸ hobserved.activity, hstart ▸ hobserved.phaseAt,
    hstart ▸ hobserved.phase⟩

theorem restart_source {log : List LoggedEvent} {stored cut : Nat}
    {runId : RunId} {e : LoggedEvent}
    (he : e ∈ rowsOfRun (log.take stored) runId ++ log.drop cut) : e ∈ log := by
  rcases List.mem_append.mp he with he | he
  · exact List.mem_of_mem_take (mem_of_rowsOfRun he).1
  · exact List.mem_of_mem_drop he

theorem mem_of_phaseSources {log : List LoggedEvent} {stored cut : Nat}
    {runId : RunId} {e : LoggedEvent}
    (he : e ∈ phaseSources log stored cut runId) : e ∈ log := by
  simp only [phaseSources, List.mem_append, Option.mem_toList] at he
  rcases he with (hown | hphase) | hafter
  · exact List.mem_of_mem_take (selectActivity_spec hown).1
  · exact List.mem_of_mem_take (selectPhase_spec hphase).1
  · exact List.mem_of_mem_drop hafter

theorem activity_same_iff {log : List LoggedEvent} {claims : List Claim}
    {stored cut : Nat} {runId : RunId}
    (hvalid : ∀ e ∈ log, validateEventObject dates e.toOrcEvent = [])
    (hactive : runId ∈ activeRunIds claims) :
    ((restarted dates log claims stored cut).latestActivityByRun runId).bind
          dates.parse =
        ((replayed dates log).latestActivityByRun runId).bind dates.parse ↔
      ActivityKept dates log stored cut runId := by
  have hreadable : ∀ e ∈ log, Readable dates e := fun e he => .of_valid (hvalid e he)
  have hsources : ∀ e ∈ rowsOfRun (log.take stored) runId ++ log.drop cut,
      Readable dates e := fun e he => hreadable e (restart_source he)
  rw [(restarted_tracks hvalid hactive).activity,
    (replayed_tracks runId hvalid).activity, parse_latest hsources,
    parse_latest hreadable]
  have hsub : ∀ e ∈ (rowsOfRun (log.take stored) runId ++ log.drop cut).filter
      (isRunActivity runId), e ∈ log.filter (isRunActivity runId) := by
    intro e he
    obtain ⟨hmem, hactivity⟩ := List.mem_filter.mp he
    exact List.mem_filter.mpr ⟨restart_source hmem, hactivity⟩
  rw [argmax_rank_eq_iff hsub]
  constructor
  case mp =>
    intro hbound a ha hactivity
    obtain ⟨e, he, hle⟩ := hbound a (List.mem_filter.mpr ⟨ha, hactivity⟩)
    obtain ⟨hmem, hown⟩ := List.mem_filter.mp he
    rcases List.mem_append.mp hmem with hrow | hafter
    · obtain ⟨e', hown', hle', htop⟩ := rowsOfRun_bounds.mp ⟨e, hrow, hown, hle⟩
      exact ⟨e', List.mem_of_mem_take htop.1, hown', hle', .inr htop⟩
    · exact ⟨e, restart_source hmem, hown, hle, .inl hafter⟩
  case mpr =>
    intro hkept a ha
    obtain ⟨ha, hactivity⟩ := List.mem_filter.mp ha
    obtain ⟨e, -, hown, hle, hafter | htop⟩ := hkept a ha hactivity
    · exact ⟨e, List.mem_filter.mpr ⟨List.mem_append_right _ hafter, hown⟩, hle⟩
    · obtain ⟨e', hrow, hown', hle'⟩ := rowsOfRun_bounds.mpr ⟨e, hown, hle, htop⟩
      exact ⟨e', List.mem_filter.mpr ⟨List.mem_append_left _ hrow, hown'⟩, hle'⟩

theorem phase_same_iff {log : List LoggedEvent} {claims : List Claim}
    {stored cut : Nat} {runId : RunId}
    (hvalid : ∀ e ∈ log, validateEventObject dates e.toOrcEvent = [])
    (hactive : runId ∈ activeRunIds claims) :
    (restarted dates log claims stored cut).latestPhaseByRun runId =
        (replayed dates log).latestPhaseByRun runId ↔
      PhaseKept dates log stored cut runId := by
  have hrestart : (restarted dates log claims stored cut).latestPhaseByRun runId =
      (((phaseSources log stored cut runId).filter (isPhaseStart runId)).argmax
        (instant dates)).bind usablePhase := by
    rw [(restarted_tracks hvalid hactive).phase, List.filter_append,
      rowsOfRun_starts, ← List.filter_append]
    rfl
  rw [hrestart, (replayed_tracks runId hvalid).phase, phaseKept_iff]
  constructor
  case mp =>
    intro heq e hfirst
    have husable : (usablePhase e).isSome = true := by
      have hstart := (List.mem_filter.mp (List.argmax_mem hfirst)).2
      simp only [isPhaseStart, Bool.and_eq_true] at hstart
      exact hstart.2
    obtain ⟨phase, hphase⟩ := Option.isSome_iff_exists.mp husable
    rw [Option.mem_def.mp hfirst, Option.bind_some, hphase,
      Option.bind_eq_some_iff] at heq
    obtain ⟨e', hfirst', hphase'⟩ := heq
    exact ⟨e', hfirst', hphase'.trans hphase.symm⟩
  case mpr =>
    intro hkept
    cases hlog : (log.filter (isPhaseStart runId)).argmax (instant dates) with
    | none =>
        have hnil := List.argmax_eq_none.mp hlog
        have hsources : (phaseSources log stored cut runId).filter
            (isPhaseStart runId) = [] := by
          refine List.filter_eq_nil_iff.mpr fun e he => ?_
          exact List.filter_eq_nil_iff.mp hnil e (mem_of_phaseSources he)
        rw [hsources]
        rfl
    | some e =>
        obtain ⟨e', hfirst', hphase⟩ := hkept e hlog
        rw [Option.mem_def.mp hfirst', Option.bind_some, Option.bind_some, hphase]

/-! ## Logs of one spelling -/

/--
Texts sort as times do, every phase start names a phase, and the starts of a run at
one instant name the same phase.
-/
structure Uniform (dates : DateApi) (log : List LoggedEvent) (runId : RunId) :
    Prop where
  text : ∀ a ∈ log, ∀ b ∈ log, a.ts ≤ b.ts ↔ instant dates a ≤ instant dates b
  usable : ∀ e ∈ log, e.event = .phaseStarted → (usablePhase e).isSome = true
  single : ∀ a ∈ log, ∀ b ∈ log, isPhaseStart runId a = true →
    isPhaseStart runId b = true → instant dates a = instant dates b →
    usablePhase a = usablePhase b

theorem mem_take_or_drop {log : List LoggedEvent} {stored cut : Nat}
    (hcut : cut ≤ stored) {e : LoggedEvent} (he : e ∈ log) :
    e ∈ log.take stored ∨ e ∈ log.drop cut := by
  rw [← List.take_append_drop stored log] at he
  rcases List.mem_append.mp he with htake | hdrop
  · exact .inl htake
  · exact .inr (List.drop_subset_drop_left log hcut hdrop)

theorem Uniform.activityKept {log : List LoggedEvent} {stored cut : Nat}
    {runId : RunId} (h : Uniform dates log runId) (hcut : cut ≤ stored) :
    ActivityKept dates log stored cut runId := by
  intro e he hactivity
  have hmem : e ∈ log.filter (isRunActivity runId) :=
    List.mem_filter.mpr ⟨he, hactivity⟩
  cases hlatest : (log.filter (isRunActivity runId)).argmax (instant dates) with
  | none => rw [List.argmax_eq_none.mp hlatest] at hmem; cases hmem
  | some e' =>
      obtain ⟨he', hactivity'⟩ := List.mem_filter.mp (List.argmax_mem hlatest)
      refine ⟨e', he', hactivity', List.le_of_mem_argmax hmem hlatest, ?_⟩
      refine (mem_take_or_drop hcut he').symm.imp_right fun htake => ⟨htake, ?_⟩
      intro a ha hown _
      have halog : a ∈ log := List.mem_of_mem_take ha
      refine (h.text a halog e' he').mpr (List.le_of_mem_argmax ?_ hlatest)
      exact List.mem_filter.mpr ⟨halog, hown⟩

theorem Uniform.phaseKept {log : List LoggedEvent} {stored cut : Nat}
    {runId : RunId} (h : Uniform dates log runId) (hcut : cut ≤ stored) :
    PhaseKept dates log stored cut runId := by
  rw [phaseKept_iff]
  intro e hfirst
  obtain ⟨he, hstart⟩ := List.mem_filter.mp (List.argmax_mem hfirst)
  -- A source that is as late as the latest start of the log.
  obtain ⟨top, htop, htopstart, hle⟩ :
      ∃ top ∈ phaseSources log stored cut runId, isPhaseStart runId top = true ∧
        instant dates e ≤ instant dates top := by
    rcases mem_take_or_drop hcut he with htake | hdrop
    · have hevent := hstart
      simp only [isPhaseStart, Bool.and_eq_true, decide_eq_true_eq] at hevent
      have hmatching : (decide (e.runId = some runId) &&
          decide (e.event = .phaseStarted)) = true := by
        simp [hevent.1]
      obtain ⟨top, hselect⟩ : ∃ top, selectPhase (log.take stored) runId = some top :=
        topRow_exists htake hmatching
      obtain ⟨hmem, hrun, hphase, hbound⟩ := selectPhase_spec hselect
      have htoplog : top ∈ log := List.mem_of_mem_take hmem
      refine ⟨top, ?_, ?_, ?_⟩
      · simp only [phaseSources, List.mem_append, Option.mem_toList]
        exact .inl (.inr hselect)
      · simp [isPhaseStart, hrun, hphase, h.usable top htoplog hphase]
      · exact (h.text e he top htoplog).mp
          (hbound e htake hevent.1.1 hevent.1.2)
    · exact ⟨e, List.mem_append_right _ hdrop, hstart, le_rfl⟩
  have hmem := List.mem_filter.mpr ⟨htop, htopstart⟩
  cases hlatest : ((phaseSources log stored cut runId).filter
      (isPhaseStart runId)).argmax (instant dates) with
  | none => rw [List.argmax_eq_none.mp hlatest] at hmem; cases hmem
  | some e' =>
      obtain ⟨hsource, hstart'⟩ := List.mem_filter.mp (List.argmax_mem hlatest)
      have he' : e' ∈ log := mem_of_phaseSources hsource
      have hge : instant dates e ≤ instant dates e' :=
        hle.trans (List.le_of_mem_argmax hmem hlatest)
      have hle' : instant dates e' ≤ instant dates e :=
        List.le_of_mem_argmax (List.mem_filter.mpr ⟨he', hstart'⟩) hfirst
      exact ⟨e', hlatest, h.single e' he' e he hstart' hstart (le_antisymm hle' hge)⟩

/--
A restart continues with the latest activity and phase of every active run exactly
when text order has picked what time order and log order would.
-/
theorem hydration_iff (dates : DateApi) (log : List LoggedEvent)
    (claims : List Claim) (stored cut : Nat)
    (hvalid : ∀ e ∈ log, validateEventObject dates e.toOrcEvent = []) :
    (∀ runId ∈ activeRunIds claims,
      SameView dates (restarted dates log claims stored cut)
        (replayed dates log) runId) ↔
    ∀ runId ∈ activeRunIds claims,
      ActivityKept dates log stored cut runId ∧
        PhaseKept dates log stored cut runId := by
  constructor
  case mp =>
    intro hsame runId hactive
    have h := hsame runId hactive
    exact ⟨(activity_same_iff hvalid hactive).mp h.activity,
      (phase_same_iff hvalid hactive).mp h.phase⟩
  case mpr =>
    intro hkept runId hactive
    obtain ⟨hactivity, hphase⟩ := hkept runId hactive
    exact ⟨(activity_same_iff hvalid hactive).mpr hactivity,
      (phase_same_iff hvalid hactive).mpr hphase⟩

def atWork (seq : Nat) (event : EventName) (ts : String)
    (phase : Option String) : LoggedEvent where
  seq := seq
  ts := ts
  event := event
  actorType := .agent
  actorId := "agent-1"
  runId := some "run-1"
  taskRef := some "app/one"
  agentId := some "agent-1"
  phase := phase

def workingClaim : Claim where
  runId := "run-1"
  taskRef := "app/one"
  agentId := "agent-1"
  state := .inProgress
  claimedAt := "1970-01-01T00:00:00.000Z"
  leaseExpiresAt := "1970-01-01T00:00:00.009Z"

def steadyLog : List LoggedEvent :=
  [atWork 1 .phaseStarted "1970-01-01T00:00:00.001Z" (some "plan"),
   atWork 2 .heartbeat "1970-01-01T00:00:00.002Z" none,
   atWork 3 .phaseStarted "1970-01-01T00:00:00.003Z" (some "build"),
   atWork 4 .heartbeat "1970-01-01T00:00:00.004Z" none]

theorem hydration_iff_steady :
    SameView .epoch (restarted .epoch steadyLog [workingClaim] 3 2)
      (replayed .epoch steadyLog) "run-1" := by
  have hactive : "run-1" ∈ activeRunIds [workingClaim] := by decide
  refine (hydration_iff .epoch steadyLog [workingClaim] 3 2
    (by decide +kernel)).mpr (fun runId hrun => ?_) "run-1" hactive
  have huniform : Uniform .epoch steadyLog runId := by
    rw [show runId = "run-1" from List.mem_singleton.mp hrun]
    exact ⟨by decide +kernel, by decide +kernel, by decide +kernel⟩
  exact ⟨huniform.activityKept (by decide), huniform.phaseKept (by decide)⟩

def nightDates : DateApi where
  parse value :=
    if value = "1970-01-01T00:30:00Z" then some 1800000
    else if value = "1970-01-01T01:00:00+02:00" then some (-3600000)
    else DateApi.epoch.parse value
  toISOString := DateApi.epoch.toISOString
  parse_toISOString ms := by
    split
    · rfl
    · split
      · rfl
      · exact DateApi.epoch.parse_toISOString ms
  toISOString_ne_empty := DateApi.epoch.toISOString_ne_empty

def nightLog : List LoggedEvent :=
  [atWork 1 .phaseStarted "1970-01-01T00:00:00.000Z" (some "plan"),
   atWork 2 .phaseStarted "1970-01-01T00:00:00.000Z" (some "build"),
   atWork 3 .heartbeat "1970-01-01T00:30:00Z" none,
   atWork 4 .heartbeat "1970-01-01T01:00:00+02:00" none]

/-- The restart falls back by half an hour and to the other phase. -/
theorem hydration_falls_back :
    (∀ e ∈ nightLog, validateEventObject nightDates e.toOrcEvent = []) ∧
    "run-1" ∈ activeRunIds [workingClaim] ∧
    ((replayed nightDates nightLog).latestActivityByRun "run-1").bind
      nightDates.parse = some 1800000 ∧
    ((restarted nightDates nightLog [workingClaim] 4 4).latestActivityByRun
      "run-1").bind nightDates.parse = some 0 ∧
    (replayed nightDates nightLog).latestPhaseByRun "run-1" = some "plan" ∧
    (restarted nightDates nightLog [workingClaim] 4 4).latestPhaseByRun "run-1" =
      some "build" := by
  decide +kernel

end OrcState.Coordinator
