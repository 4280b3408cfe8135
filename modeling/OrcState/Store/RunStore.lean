import OrcState.Store.EventsDb

/-!
# Claims and their store

`commitClaims` makes the stored runs those of the list it is given and appends
the lifecycle events, in one transaction.  Each row is written in turn under the
index that allows a task one active run.  The compatibility file written
afterwards is a projection whose failure is only logged.  `importLegacyClaims`
precedes the write, and does nothing once the rows are authoritative.
-/

namespace OrcState.Store

open OrcState.Contract OrcState.Foundation

def upsertClaim (claim : Claim) : Db Unit := do
  let db ← get
  Txn.throwIf (claim.active = true ∧ ∃ other ∈ db.runs.rows,
      other.active = true ∧ other.taskRef = claim.taskRef ∧
        other.runId ≠ claim.runId)
    (plainError "UNIQUE constraint failed: runs.task_ref")
  set { db with runs := db.runs.upsert claim }

def EventsDb.removeOthers (claims : List Claim) (db : EventsDb) : EventsDb :=
  db.replaceRuns
    (db.runs.filter fun row => (claims.map Claim.runId).contains row.runId)

def commitClaims (dates : DateApi) (claims : List Claim)
    (events : List OrcEvent) : Db Unit := do
  modify (EventsDb.removeOthers claims)
  claims.forM upsertClaim
  events.forM (appendSequencedEvent dates)

/-- The claims of a file become rows, unless two active ones share a task. -/
def importLegacyClaims (source : List Claim) : Db Bool :=
  if ((source.filter Claim.active).map Claim.taskRef).Nodup then do
    source.forM upsertClaim
    pure true
  else pure false

/-! ## Appended events -/

def ValidEvent (dates : DateApi) (event : OrcEvent) : Prop :=
  validateEventObject dates { event with seq := 1 } = []

theorem appendEvents_ok {dates : DateApi} {events : List OrcEvent}
    {db db' : EventsDb} {u : Unit}
    (h : events.forM (appendSequencedEvent dates) db = .ok (u, db')) :
    (∀ e ∈ events, ValidEvent dates e) ∧ db'.runs = db.runs := by
  induction events generalizing db with
  | nil =>
      cases Txn.forM_nil_ok.mp h
      exact ⟨by simp, rfl⟩
  | cons e rest ih =>
      obtain ⟨m, happend, hrest⟩ := Txn.forM_cons_ok.mp h
      obtain ⟨hvalid, rfl⟩ := appendSequencedEvent_ok.mp happend
      obtain ⟨hall, hruns⟩ := ih hrest
      refine ⟨?_, hruns.trans (EventsDb.logged_runs db e)⟩
      simpa using ⟨hvalid, hall⟩

theorem appendEvents_total {dates : DateApi} {events : List OrcEvent}
    (db : EventsDb) (h : ∀ e ∈ events, ValidEvent dates e) :
    ∃ db', events.forM (appendSequencedEvent dates) db = .ok ((), db') := by
  induction events generalizing db with
  | nil => exact ⟨db, rfl⟩
  | cons e rest ih =>
      obtain ⟨db', hrest⟩ := ih (db.logged e)
        fun e' he' => h e' (List.mem_cons_of_mem _ he')
      refine ⟨db', Txn.forM_cons_ok.mpr ⟨db.logged e, ?_, hrest⟩⟩
      exact appendSequencedEvent_ok.mpr ⟨h e List.mem_cons_self, rfl⟩

/-! ## Written rows -/

/-- The index `runs_one_active_task_idx`. -/
def OneActive (runs : Runs) : Prop :=
  ∀ c, c ∈ runs → ∀ c', c' ∈ runs → c.active = true → c'.active = true →
    c.taskRef = c'.taskRef → c.runId = c'.runId

theorem upsertClaim_ok {claim : Claim} {db db' : EventsDb} {u : Unit} :
    upsertClaim claim db = .ok (u, db') ↔
      ¬ (claim.active = true ∧ ∃ other ∈ db.runs.rows,
        other.active = true ∧ other.taskRef = claim.taskRef ∧
          other.runId ≠ claim.runId) ∧
        { db with runs := db.runs.upsert claim } = db' := by
  simp only [upsertClaim, Txn.bind_ok, Txn.get_ok, Txn.throwIf_ok, Txn.set_ok]
  constructor
  · rintro ⟨_, _, ⟨rfl, rfl⟩, _, _, ⟨hfree, rfl⟩, h⟩
    exact ⟨hfree, h⟩
  · rintro ⟨hfree, h⟩
    exact ⟨db, db, ⟨rfl, rfl⟩, (), db, ⟨hfree, rfl⟩, h⟩

theorem OneActive.upsert {runs : Runs} {claim : Claim} (h : OneActive runs)
    (hfree : ¬ (claim.active = true ∧ ∃ other ∈ runs.rows,
      other.active = true ∧ other.taskRef = claim.taskRef ∧
        other.runId ≠ claim.runId)) : OneActive (runs.upsert claim) := by
  have hclaim : ∀ c, c ∈ runs → claim.active = true → c.active = true →
      c.taskRef = claim.taskRef → c.runId = claim.runId := by
    intro c hc ha hca href
    by_contra hne
    exact hfree ⟨ha, c, hc, hca, href, hne⟩
  intro c hc c' hc' ha ha' href
  rcases Table.mem_upsert.mp hc with rfl | ⟨hold, -⟩
  · rcases Table.mem_upsert.mp hc' with rfl | ⟨hold', -⟩
    · rfl
    · exact (hclaim c' hold' ha ha' href.symm).symm
  · rcases Table.mem_upsert.mp hc' with rfl | ⟨hold', -⟩
    · exact hclaim c hold ha' ha href
    · exact h c hold c' hold' ha ha' href

theorem upsertClaims_one {claims : List Claim} {db db' : EventsDb} {u : Unit}
    (h : claims.forM upsertClaim db = .ok (u, db')) (hone : OneActive db.runs) :
    OneActive db'.runs := by
  induction claims generalizing db with
  | nil =>
      cases Txn.forM_nil_ok.mp h
      exact hone
  | cons claim rest ih =>
      obtain ⟨m, hupsert, hrest⟩ := Txn.forM_cons_ok.mp h
      obtain ⟨hfree, rfl⟩ := upsertClaim_ok.mp hupsert
      exact ih hrest (hone.upsert hfree)

theorem upsertClaims_sub {claims : List Claim} {db db' : EventsDb} {u : Unit}
    (h : claims.forM upsertClaim db = .ok (u, db')) {c : Claim}
    (hc : c ∈ db'.runs) :
    c ∈ claims ∨ c ∈ db.runs ∧ c.runId ∉ claims.map Claim.runId := by
  induction claims generalizing db with
  | nil =>
      cases Txn.forM_nil_ok.mp h
      exact .inr ⟨hc, by simp⟩
  | cons claim rest ih =>
      obtain ⟨m, hupsert, hrest⟩ := Txn.forM_cons_ok.mp h
      obtain ⟨-, rfl⟩ := upsertClaim_ok.mp hupsert
      rcases ih hrest with hmem | ⟨hmem, hnot⟩
      · exact .inl (List.mem_cons_of_mem _ hmem)
      · rcases Table.mem_upsert.mp hmem with rfl | ⟨hold, hne⟩
        · exact .inl List.mem_cons_self
        · refine .inr ⟨hold, ?_⟩
          rw [List.map_cons, List.mem_cons, not_or]
          exact ⟨hne, hnot⟩

theorem upsertClaims_ok {claims : List Claim} {db db' : EventsDb} {u : Unit}
    (hnodup : (claims.map Claim.runId).Nodup)
    (h : claims.forM upsertClaim db = .ok (u, db')) (c : Claim) :
    c ∈ db'.runs ↔
      c ∈ claims ∨ (c ∈ db.runs ∧ c.runId ∉ claims.map Claim.runId) := by
  refine ⟨upsertClaims_sub h, ?_⟩
  induction claims generalizing db with
  | nil =>
      cases Txn.forM_nil_ok.mp h
      simp
  | cons claim rest ih =>
      obtain ⟨m, hupsert, hrest⟩ := Txn.forM_cons_ok.mp h
      obtain ⟨-, rfl⟩ := upsertClaim_ok.mp hupsert
      rw [List.map_cons, List.nodup_cons] at hnodup
      rintro (hc | ⟨hc, hnot⟩)
      · rcases List.mem_cons.mp hc with rfl | hc
        · exact ih hnodup.2 hrest
            (.inr ⟨Table.mem_upsert.mpr (.inl rfl), hnodup.1⟩)
        · exact ih hnodup.2 hrest (.inl hc)
      · rw [List.map_cons, List.mem_cons, not_or] at hnot
        exact ih hnodup.2 hrest
          (.inr ⟨Table.mem_upsert.mpr (.inr ⟨hc, hnot.1⟩), hnot.2⟩)

theorem commitClaims_sub {dates : DateApi} {claims : List Claim}
    {events : List OrcEvent} {db db' : EventsDb} {u : Unit}
    (h : commitClaims dates claims events db = .ok (u, db')) :
    (∀ c, c ∈ db'.runs → c ∈ claims) ∧
      (∀ e ∈ events, ValidEvent dates e) ∧
      (OneActive db.runs → OneActive db'.runs) := by
  simp only [commitClaims, Txn.bind_ok, Txn.modify_ok] at h
  obtain ⟨_, _, rfl, _, m, hupserts, hevents⟩ := h
  obtain ⟨hvalid, hruns⟩ := appendEvents_ok hevents
  rw [hruns]
  refine ⟨fun c hc => ?_, hvalid, fun hone => ?_⟩
  · rcases upsertClaims_sub hupserts hc with hmem | ⟨hold, hnot⟩
    · exact hmem
    · have hkept := (Table.mem_filter.mp hold).2
      exact absurd (by simpa using hkept) hnot
  · refine upsertClaims_one hupserts fun c hc c' hc' => ?_
    exact hone c (Table.mem_filter.mp hc).1 c' (Table.mem_filter.mp hc').1

/-- After a commit the stored runs are those of the list. -/
theorem commitClaims_ok {dates : DateApi} {claims : List Claim}
    {events : List OrcEvent} {db db' : EventsDb} {u : Unit}
    (hnodup : (claims.map Claim.runId).Nodup)
    (h : commitClaims dates claims events db = .ok (u, db')) :
    (∀ c, c ∈ db'.runs ↔ c ∈ claims) ∧
      (∀ e ∈ events, ValidEvent dates e) ∧
      (OneActive db.runs → OneActive db'.runs) := by
  obtain ⟨hsub, hvalid, hone⟩ := commitClaims_sub h
  refine ⟨fun c => ⟨hsub c, fun hc => ?_⟩, hvalid, hone⟩
  simp only [commitClaims, Txn.bind_ok, Txn.modify_ok] at h
  obtain ⟨_, _, rfl, _, m, hupserts, hevents⟩ := h
  rw [(appendEvents_ok hevents).2]
  exact (upsertClaims_ok hnodup hupserts c).mpr (.inl hc)

/-! ## The log after a commit -/

/-- A property of events that does not look at their place in the log. -/
def Unsequenced (q : OrcEvent → Bool) : Prop :=
  ∀ e n, q { e with seq := n } = q e

theorem count_logged {q : OrcEvent → Bool} (hq : Unsequenced q)
    (db : EventsDb) (e : OrcEvent) :
    (db.logged e).events.countP q =
      db.events.countP q + if q e then 1 else 0 := by
  rw [EventsDb.logged, List.countP_append]
  simp [List.countP_cons, hq e]

theorem appendEvents_count {dates : DateApi} {q : OrcEvent → Bool}
    (hq : Unsequenced q) {events : List OrcEvent} {db db' : EventsDb} {u : Unit}
    (h : events.forM (appendSequencedEvent dates) db = .ok (u, db')) :
    db'.events.countP q = db.events.countP q + events.countP q := by
  induction events generalizing db with
  | nil =>
      cases Txn.forM_nil_ok.mp h
      simp
  | cons e rest ih =>
      obtain ⟨m, happend, hrest⟩ := Txn.forM_cons_ok.mp h
      obtain ⟨-, rfl⟩ := appendSequencedEvent_ok.mp happend
      rw [ih hrest, count_logged hq, List.countP_cons]
      omega

theorem upsertClaims_frame {claims : List Claim} {db db' : EventsDb} {u : Unit}
    (h : claims.forM upsertClaim db = .ok (u, db')) :
    db' = { db with runs := db'.runs } := by
  induction claims generalizing db with
  | nil =>
      cases Txn.forM_nil_ok.mp h
      rfl
  | cons claim rest ih =>
      obtain ⟨m, hupsert, hrest⟩ := Txn.forM_cons_ok.mp h
      obtain ⟨-, rfl⟩ := upsertClaim_ok.mp hupsert
      have hframe := ih hrest
      exact hframe

theorem upsertClaims_events {claims : List Claim} {db db' : EventsDb} {u : Unit}
    (h : claims.forM upsertClaim db = .ok (u, db')) :
    db'.events = db.events := by
  rw [upsertClaims_frame h]

theorem commitClaims_count {dates : DateApi} {q : OrcEvent → Bool}
    (hq : Unsequenced q) {claims : List Claim} {events : List OrcEvent}
    {db db' : EventsDb} {u : Unit}
    (h : commitClaims dates claims events db = .ok (u, db')) :
    db'.events.countP q = db.events.countP q + events.countP q := by
  simp only [commitClaims, Txn.bind_ok, Txn.modify_ok] at h
  obtain ⟨_, _, rfl, _, m, hupserts, hevents⟩ := h
  rw [appendEvents_count hq hevents, upsertClaims_events hupserts]
  rfl

theorem appendEvents_mem {dates : DateApi} {events : List OrcEvent}
    {db db' : EventsDb} {u : Unit}
    (h : events.forM (appendSequencedEvent dates) db = .ok (u, db'))
    {e : OrcEvent} (he : e ∈ db'.events) :
    e ∈ db.events ∨ ∃ e₀ ∈ events, ∃ n, e = { e₀ with seq := n } := by
  induction events generalizing db with
  | nil =>
      cases Txn.forM_nil_ok.mp h
      exact .inl he
  | cons first rest ih =>
      obtain ⟨m, happend, hrest⟩ := Txn.forM_cons_ok.mp h
      obtain ⟨-, rfl⟩ := appendSequencedEvent_ok.mp happend
      rcases ih hrest with hlog | ⟨e₀, hmem, n, rfl⟩
      · rcases List.mem_append.mp hlog with hold | hnew
        · exact .inl hold
        · exact .inr ⟨first, List.mem_cons_self, _, List.mem_singleton.mp hnew⟩
      · exact .inr ⟨e₀, List.mem_cons_of_mem _ hmem, n, rfl⟩

theorem commitClaims_mem {dates : DateApi} {claims : List Claim}
    {events : List OrcEvent} {db db' : EventsDb} {u : Unit}
    (h : commitClaims dates claims events db = .ok (u, db')) {e : OrcEvent}
    (he : e ∈ db'.events) :
    e ∈ db.events ∨ ∃ e₀ ∈ events, ∃ n, e = { e₀ with seq := n } := by
  simp only [commitClaims, Txn.bind_ok, Txn.modify_ok] at h
  obtain ⟨_, _, rfl, _, m, hupserts, hevents⟩ := h
  rcases appendEvents_mem hevents he with hlog | hnew
  · rw [upsertClaims_events hupserts] at hlog
    exact .inl hlog
  · exact .inr hnew

/-! ## Commands after a commit -/

theorem upsertClaims_commands {claims : List Claim} {db db' : EventsDb}
    {u : Unit} (h : claims.forM upsertClaim db = .ok (u, db')) :
    db'.commands = db.commands := by
  rw [upsertClaims_frame h]

theorem appendEvents_commands {dates : DateApi} {events : List OrcEvent}
    {db db' : EventsDb} {u : Unit}
    (h : events.forM (appendSequencedEvent dates) db = .ok (u, db')) :
    db'.commands = db.commands := by
  induction events generalizing db with
  | nil =>
      cases Txn.forM_nil_ok.mp h
      rfl
  | cons e rest ih =>
      obtain ⟨m, happend, hrest⟩ := Txn.forM_cons_ok.mp h
      obtain ⟨-, rfl⟩ := appendSequencedEvent_ok.mp happend
      exact (ih hrest).trans (db.logged_commands e)

theorem commitClaims_commands {dates : DateApi} {claims : List Claim}
    {events : List OrcEvent} {db db' : EventsDb} {u : Unit}
    (h : commitClaims dates claims events db = .ok (u, db'))
    {x : DurableCommand} :
    x ∈ db'.commands ↔ x ∈ db.commands ∧
      ∃ c, c ∈ db.runs ∧ c.runId = x.runId ∧
        x.runId ∈ claims.map Claim.runId := by
  simp only [commitClaims, Txn.bind_ok, Txn.modify_ok] at h
  obtain ⟨_, _, rfl, _, m, hupserts, hevents⟩ := h
  rw [appendEvents_commands hevents, upsertClaims_commands hupserts]
  rw [EventsDb.removeOthers, EventsDb.replaceRuns, Table.mem_filter]
  refine and_congr_right fun _ => ?_
  rw [Option.isSome_iff_exists]
  refine exists_congr fun c => ?_
  rw [Table.find?_eq_some, Table.mem_filter]
  constructor
  · rintro ⟨⟨hc, hkept⟩, hid⟩
    exact ⟨hc, hid, by simpa [hid] using hkept⟩
  · rintro ⟨hc, hid, hkept⟩
    exact ⟨⟨hc, by simpa [hid] using hkept⟩, hid⟩

/-! ## When a commit is accepted -/

theorem upsertClaims_total {P : Claim → Prop}
    (hone : ∀ c c', P c → P c' → c.active = true → c'.active = true →
      c.taskRef = c'.taskRef → c.runId = c'.runId) {claims : List Claim}
    {db : EventsDb} (hclaims : ∀ c ∈ claims, P c)
    (hdb : ∀ c, c ∈ db.runs → c.active = true → P c) :
    ∃ db', claims.forM upsertClaim db = .ok ((), db') := by
  induction claims generalizing db with
  | nil => exact ⟨db, rfl⟩
  | cons claim rest ih =>
      have hclaim := hclaims claim List.mem_cons_self
      have hfree : ¬ (claim.active = true ∧ ∃ other ∈ db.runs.rows,
          other.active = true ∧ other.taskRef = claim.taskRef ∧
            other.runId ≠ claim.runId) := by
        rintro ⟨ha, other, hother, hoa, horef, hoid⟩
        exact hoid (hone other claim (hdb other hother hoa) hclaim hoa ha horef)
      have hnext : ∀ c, c ∈ ({ db with runs := db.runs.upsert claim } :
          EventsDb).runs → c.active = true → P c := by
        intro c hc hactive
        rcases Table.mem_upsert.mp hc with rfl | ⟨hc, -⟩
        · exact hclaim
        · exact hdb c hc hactive
      obtain ⟨db', hrest⟩ := ih
        (fun c hc => hclaims c (List.mem_cons_of_mem _ hc)) hnext
      exact ⟨db', Txn.forM_cons_ok.mpr ⟨_, upsertClaim_ok.mpr ⟨hfree, rfl⟩, hrest⟩⟩

theorem commitClaims_accepted {dates : DateApi} {P : Claim → Prop}
    (hone : ∀ c c', P c → P c' → c.active = true → c'.active = true →
      c.taskRef = c'.taskRef → c.runId = c'.runId) {claims : List Claim}
    {events : List OrcEvent} {db : EventsDb} (hclaims : ∀ c ∈ claims, P c)
    (hdb : ∀ c, c ∈ db.runs → c.active = true → P c)
    (hevents : ∀ e ∈ events, ValidEvent dates e) :
    ∃ db', commitClaims dates claims events db = .ok ((), db') := by
  have hkept : ∀ c, c ∈ (db.removeOthers claims).runs → c.active = true →
      P c := fun c hc => hdb c (Table.mem_filter.mp hc).1
  obtain ⟨m, hupserts⟩ := upsertClaims_total hone hclaims hkept
  obtain ⟨db', happend⟩ := appendEvents_total m hevents
  refine ⟨db', ?_⟩
  simp only [commitClaims, Txn.bind_ok, Txn.modify_ok]
  exact ⟨(), _, rfl, (), m, hupserts, happend⟩

/-- Rows that descend from the stored ones one to one, no new one active. -/
theorem commitClaims_total {dates : DateApi} {db : EventsDb}
    {claims : List Claim} {events : List OrcEvent} (hone : OneActive db.runs)
    (hold : ∀ c ∈ claims, c ∈ db.runs) {f : Claim → Claim}
    (hid : ∀ c, (f c).runId = c.runId) (href : ∀ c, (f c).taskRef = c.taskRef)
    (hactive : ∀ c, c ∈ db.runs → (f c).active = true → c.active = true)
    (hevents : ∀ e ∈ events, ValidEvent dates e) :
    ∃ db', commitClaims dates (claims.map f) events db = .ok ((), db') := by
  -- an active row, old or new, stands for a stored one that is active
  have hfrom : ∀ c, (c ∈ db.runs ∨ ∃ c₀, c₀ ∈ db.runs ∧ f c₀ = c) →
      c.active = true → ∃ c₀, c₀ ∈ db.runs ∧ c₀.active = true ∧
        c₀.runId = c.runId ∧ c₀.taskRef = c.taskRef := by
    rintro c (hc | ⟨c₀, hc₀, rfl⟩) ha
    · exact ⟨c, hc, ha, rfl, rfl⟩
    · exact ⟨c₀, hc₀, hactive c₀ hc₀ ha, (hid c₀).symm, (href c₀).symm⟩
  refine commitClaims_accepted
    (P := fun c => c ∈ db.runs ∨ ∃ c₀, c₀ ∈ db.runs ∧ f c₀ = c)
    (fun c c' hc hc' ha ha' hsame => ?_) (fun c hc => ?_)
    (fun c hc _ => .inl hc) hevents
  · obtain ⟨c₀, hc₀, hopen, hcid, hcref⟩ := hfrom c hc ha
    obtain ⟨c₁, hc₁, hopen', hcid', hcref'⟩ := hfrom c' hc' ha'
    rw [← hcid, ← hcid']
    exact hone c₀ hc₀ c₁ hc₁ hopen hopen' (hcref.trans (hsame.trans hcref'.symm))
  · obtain ⟨c₀, hc₀, rfl⟩ := List.mem_map.mp hc
    exact .inr ⟨c₀, hold c₀ hc₀, rfl⟩

/-! ## The legacy import -/

theorem upsertClaims_append {claims : List Claim} {db db' : EventsDb} {u : Unit}
    (hnodup : ((db.runs.rows ++ claims).map Claim.runId).Nodup)
    (h : claims.forM upsertClaim db = .ok (u, db')) :
    db'.runs.rows = db.runs.rows ++ claims := by
  induction claims generalizing db with
  | nil =>
      cases Txn.forM_nil_ok.mp h
      rw [List.append_nil]
  | cons claim rest ih =>
      obtain ⟨m, hupsert, hrest⟩ := Txn.forM_cons_ok.mp h
      obtain ⟨-, rfl⟩ := upsertClaim_ok.mp hupsert
      have hfresh : db.runs.find? claim.runId = none := by
        refine Table.find?_eq_none.mpr fun c hc hid => ?_
        rw [List.map_append, List.nodup_append] at hnodup
        exact hnodup.2.2 _ (List.mem_map_of_mem hc) _
          (List.mem_map_of_mem List.mem_cons_self) hid
      have hrows := Table.rows_upsert_of_find?_none hfresh
      have hsplit : (db.runs.upsert claim).rows ++ rest =
          db.runs.rows ++ claim :: rest := by
        rw [hrows, List.append_assoc, List.singleton_append]
      exact (ih (hsplit ▸ hnodup) hrest).trans hsplit

theorem importLegacyClaims_empty {source : Runs} {db : EventsDb}
    (hempty : db.runs = Table.empty)
    (hone : ((source.rows.filter Claim.active).map Claim.taskRef).Nodup) :
    importLegacyClaims source.rows db = .ok (true, { db with runs := source }) := by
  have hactive : ∀ c c', c ∈ source.rows → c' ∈ source.rows → c.active = true →
      c'.active = true → c.taskRef = c'.taskRef → c.runId = c'.runId := by
    intro c c' hc hc' ha ha' href
    rw [List.inj_on_of_nodup_map hone (List.mem_filter.mpr ⟨hc, ha⟩)
      (List.mem_filter.mpr ⟨hc', ha'⟩) href]
  obtain ⟨db', hdb⟩ := upsertClaims_total hactive (fun _ hc => hc)
    fun c (hc : c ∈ db.runs) _ => absurd (hempty ▸ hc) (Table.not_mem_empty c)
  have hrows : db'.runs = source := by
    refine Table.ext ((upsertClaims_append ?_ hdb).trans ?_)
    · rw [hempty]
      exact source.nodup
    · rw [hempty]
      rfl
  rw [importLegacyClaims, if_pos hone]
  refine Txn.bind_ok.mpr ⟨(), db', hdb, ?_⟩
  rw [upsertClaims_frame hdb, hrows]
  rfl

end OrcState.Store
