import OrcState.Lifecycle.Reconcile

/-!
# The state directory of the claims

The claims are the rows of `events.db` once the cutover is recorded.  Until then
they are those of `claims.json`, which the first read copies into the rows,
unless two of its active claims share a task.  Such a file is read as it stands
and a commit replaces it.
-/

namespace OrcState.Lifecycle

open OrcState.Contract OrcState.Foundation OrcState.Store

/-- Where the claims are read; `opened` says that `events.db` exists. -/
inductive ClaimsSource where
  | rows
  | file (claims : Runs) (opened : Bool)
  | missing
  deriving DecidableEq

/-- The rows keep the index, and nothing is in them before the cutover. -/
def ClaimsSource.Fits (source : ClaimsSource) (db : EventsDb) : Prop :=
  match source with
  | .rows => OneActive db.runs
  | .file _ false => db = {}
  | .file _ true | .missing => db.runs = Table.empty

theorem ClaimsSource.Fits.one {source : ClaimsSource} {db : EventsDb}
    (h : source.Fits db) : OneActive db.runs := by
  have hempty : ∀ {runs : Runs}, runs = Table.empty → OneActive runs := by
    rintro _ rfl c hc
    exact absurd hc (Table.not_mem_empty c)
  cases source with
  | rows => exact h
  | missing => exact hempty h
  | file claims opened =>
      cases opened with
      | true => exact hempty h
      | false => exact hempty (congrArg EventsDb.runs h)

/-- The import that a transaction begins with; the rows need none. -/
def ClaimsSource.importClaims : ClaimsSource → Db Bool
  | .file claims _ => importLegacyClaims claims.rows
  | .rows | .missing => pure false

theorem ClaimsSource.importClaims_one {source : ClaimsSource} {b : Bool}
    {db db' : EventsDb} (h : source.importClaims db = .ok (b, db'))
    (hone : OneActive db.runs) : OneActive db'.runs := by
  cases source with
  | rows | missing =>
      cases h
      exact hone
  | file claims opened =>
      simp only [importClaims, importLegacyClaims] at h
      split at h
      · obtain ⟨_, m, hm, hb⟩ := Txn.bind_ok.mp h
        cases hb
        exact upsertClaims_one hm hone
      · cases h
        exact hone

theorem ClaimsSource.importClaims_frame {source : ClaimsSource} {b : Bool}
    {db db' : EventsDb} (h : source.importClaims db = .ok (b, db')) :
    db' = { db with runs := db'.runs } := by
  cases source with
  | rows | missing =>
      cases h
      rfl
  | file claims opened =>
      simp only [importClaims, importLegacyClaims] at h
      split at h
      · obtain ⟨_, m, hm, hb⟩ := Txn.bind_ok.mp h
        cases hb
        exact upsertClaims_frame hm
      · cases h
        rfl

structure ClaimsDir where
  project : Project
  source : ClaimsSource
  fits : source.Fits project.events

abbrev ClaimsOp (α : Type) := Effect ClaimsDir DomainError α

namespace ClaimsDir

def claims (d : ClaimsDir) : Runs :=
  match d.source with
  | .rows => d.project.events.runs
  | .file claims _ => claims
  | .missing => Table.empty

def loaded (d : ClaimsDir) : Project :=
  d.project.setEvents { d.project.events with runs := d.claims }

def setTasks (d : ClaimsDir) (ts : TaskStore) : ClaimsDir :=
  ⟨d.project.setTasks ts, d.source, d.fits⟩

def cutOver (d : ClaimsDir) (db : EventsDb) (h : OneActive db.runs) : ClaimsDir :=
  ⟨d.project.setEvents db, .rows, h⟩

/-- `openEventDb` creates `events.db`. -/
def withEventDb (d : ClaimsDir) : ClaimsDir :=
  match d with
  | ⟨project, .file claims false, h⟩ =>
      ⟨project, .file claims true, congrArg EventsDb.runs h⟩
  | d => d

/-! ## Operations -/

def readAuthoritativeClaims : ClaimsOp (Option (List Claim)) := fun d =>
  match d.source with
  | .rows => (.ok (some d.project.events.runs.rows), d)
  | .file _ false | .missing => (.ok none, d)
  | .file _ true =>
      match h : d.source.importClaims d.project.events with
      | .ok (true, db) =>
          (.ok (some db.runs.rows),
            d.cutOver db (ClaimsSource.importClaims_one h d.fits.one))
      | .ok (false, _) => (.ok none, d)
      | .error e => (.error e, d)

/-- `readJson(stateDir, 'claims.json')`. -/
def readClaimsJson : ClaimsOp (List Claim) := do
  match ← readAuthoritativeClaims with
  | some claims => pure claims
  | none =>
      let d ← Effect.read
      Effect.throwIf (d.source = .missing)
        (plainError "ENOENT: no such file or directory, open 'claims.json'")
      pure d.claims.rows

variable (dates : DateApi)

def committed (d : ClaimsDir) (claims : List Claim) (events : List OrcEvent) :
    Db Unit := do
  let _ ← d.source.importClaims
  Store.commitClaims dates claims events

theorem committed_one {d : ClaimsDir} {claims : List Claim}
    {events : List OrcEvent} {u : Unit} {db : EventsDb}
    (h : d.committed dates claims events d.project.events = .ok (u, db)) :
    OneActive db.runs := by
  obtain ⟨b, m, himport, hcommit⟩ := Txn.bind_ok.mp h
  exact (commitClaims_sub hcommit).2.2
    (ClaimsSource.importClaims_one himport d.fits.one)

def commitClaims (claims : List Claim) (events : List OrcEvent) : ClaimsOp Unit :=
  fun d =>
    match h : d.committed dates claims events d.project.events with
    | .ok ((), db) => (.ok (), d.cutOver db (committed_one dates h))
    | .error e => (.error e, d.withEventDb)

def onTasks {α : Type} (x : Tasks α) : ClaimsOp α :=
  Effect.atomically (fun d => d.project.tasks) setTasks x

/-- What is left to do is the import; the file written is a projection. -/
def refreshClaimsProjection : ClaimsOp Unit := do
  let _ ← readAuthoritativeClaims
  pure ()

def commitRepairs (changes : TaskStatusChanges) (backlog : Backlog)
    (now : String) : ClaimsOp Unit :=
  if changes = [] then pure () else onTasks (commitBacklog backlog changes now)

def commitFailures (claims : List Claim) (failed : List (Claim × String))
    (now : String) : ClaimsOp Unit :=
  if failed = [] then pure ()
  else
    commitClaims dates (reconciledClaims claims failed)
      (failed.map (reconcileEvent now))

def reconcileState (now : String) : ClaimsOp Unit := do
  let claims ← readClaimsJson
  let d ← Effect.read
  let backlog := d.project.backlog
  let verdict := inspectTask claims backlog
  let failed := failedClaims claims backlog
  let changes := backlog.filterMap fun task =>
    repairChange (verdict task) task.ref
  commitRepairs changes
    (backlog.map fun task => repairTask (verdict task) task) now
  commitFailures dates claims failed now
  refreshClaimsProjection

/-! ## What each of them leaves -/

variable {dates} {d d' : ClaimsDir}

theorem loaded_of_rows (h : d.source = .rows) : d.loaded = d.project := by
  rw [loaded, claims, h]
  rfl

@[simp] theorem loaded_tasks (d : ClaimsDir) :
    d.loaded.tasks = d.project.tasks := rfl

@[simp] theorem loaded_backlog (d : ClaimsDir) :
    d.loaded.backlog = d.project.backlog := rfl

/-- Two active claims of the file share a task, so that it is not imported. -/
def Held (claims : Runs) : Prop :=
  ¬ ((claims.rows.filter Claim.active).map Claim.taskRef).Nodup

inductive Found (d : ClaimsDir) : ClaimsDir → Prop
  | rows (h : d.source = .rows) : Found d d
  | imported (m : ClaimsDir) (hsource : m.source = .rows)
      (hproject : m.project = d.loaded) : Found d m
  | unopened (claims : Runs) (h : d.source = .file claims false) : Found d d
  | held (claims : Runs) (h : d.source = .file claims true)
      (hheld : Held claims) : Found d d

theorem Found.source {m : ClaimsDir} (h : Found d m) :
    (m.source = .rows ∨ ∃ claims, m.source = .file claims false) ∨
      Held d.claims := by
  cases h with
  | rows h => exact .inl (.inl h)
  | imported m hsource => exact .inl (.inl hsource)
  | unopened claims h => exact .inl (.inr ⟨claims, h⟩)
  | held file h hheld =>
      refine .inr ?_
      rw [claims, h]
      exact hheld

theorem Found.loaded {m : ClaimsDir} (h : Found d m) : m.loaded = d.loaded := by
  cases h with
  | rows | unopened | held => rfl
  | imported m hsource hproject => rw [loaded_of_rows hsource, hproject]

theorem readAuthoritativeClaims_cases (d : ClaimsDir) :
    (d.source = .missing ∧ readAuthoritativeClaims d = (.ok none, d)) ∨
      ∃ answer m, readAuthoritativeClaims d = (.ok answer, m) ∧ Found d m ∧
        answer.getD d.claims.rows = d.claims.rows := by
  obtain ⟨project, source, fits⟩ := d
  cases source with
  | rows => exact .inr ⟨_, _, rfl, .rows rfl, rfl⟩
  | missing => exact .inl ⟨rfl, rfl⟩
  | file claims opened =>
      cases opened with
      | false => exact .inr ⟨_, _, rfl, .unopened claims rfl, rfl⟩
      | true =>
          refine .inr ?_
          unfold readAuthoritativeClaims
          dsimp only
          by_cases hone : ((claims.rows.filter Claim.active).map
              Claim.taskRef).Nodup
          · have himport := importLegacyClaims_empty fits hone
            split
            · rename_i db h
              cases himport.symm.trans h
              exact ⟨_, _, rfl, .imported _ rfl rfl, rfl⟩
            · rename_i db h
              cases himport.symm.trans h
            · rename_i e h
              cases himport.symm.trans h
          · have hheld : importLegacyClaims claims.rows project.events =
                .ok (false, project.events) :=
              congrFun (if_neg hone) project.events
            split
            · rename_i db h
              cases hheld.symm.trans h
            · exact ⟨_, _, rfl, .held claims rfl hone, rfl⟩
            · rename_i e h
              cases hheld.symm.trans h

theorem readClaimsJson_ok {claims : List Claim} {m : ClaimsDir}
    (h : readClaimsJson d = (.ok claims, m)) :
    claims = d.claims.rows ∧ Found d m := by
  rcases Effect.bind_cases h with ⟨e, -, hr⟩ | ⟨answer, m', hread, hanswer⟩
  · cases hr
  rcases readAuthoritativeClaims_cases d with ⟨hmissing, hnone⟩ |
      ⟨answer', m'', hread', hfound, hget⟩
  · cases hnone.symm.trans hread
    simp only [Effect.read_bind, Effect.throwIf_bind, hmissing] at hanswer
    cases hanswer
  · cases hread'.symm.trans hread
    cases answer with
    | some found =>
        cases hanswer
        exact ⟨hget, hfound⟩
    | none =>
        simp only [Effect.read_bind, Effect.throwIf_bind] at hanswer
        split at hanswer
        · cases hanswer
        · cases hanswer
          exact ⟨congrArg (fun s : Project => s.events.runs.rows) hfound.loaded,
            hfound⟩

theorem commitRepairs_ok {changes : TaskStatusChanges} {backlog : Backlog}
    {now : String} (h : commitRepairs changes backlog now d = (.ok (), d')) :
    ∃ ts, d' = d.setTasks ts ∧ (changes = [] ∧ ts = d.project.tasks ∨
      commitBacklog backlog changes now d.project.tasks = .ok ((), ts)) := by
  unfold commitRepairs at h
  split at h
  · rename_i hnone
    cases h
    exact ⟨_, rfl, .inl ⟨hnone, rfl⟩⟩
  · simp only [onTasks, Effect.atomically] at h
    split at h
    · rename_i ts hts
      cases h
      exact ⟨ts, rfl, .inr hts⟩
    · cases h

theorem readClaimsJson_total (h : d.source ≠ .missing) :
    ∃ m, readClaimsJson d = (.ok d.claims.rows, m) := by
  rcases readAuthoritativeClaims_cases d with ⟨hmissing, -⟩ |
      ⟨answer, m, hread, hfound, hget⟩
  · exact absurd hmissing h
  refine ⟨m, ?_⟩
  unfold readClaimsJson
  rw [Effect.bind_of_ok hread]
  cases answer with
  | some claims =>
      cases hget
      rfl
  | none =>
      have hclaims : m.claims = d.claims :=
        congrArg (fun s : Project => s.events.runs) hfound.loaded
      have hsource : m.source ≠ .missing := by
        cases hfound with
        | rows hs | unopened _ hs | held _ hs => exact h
        | imported m hs => simp [hs]
      simp only [Effect.read_bind, Effect.throwIf_bind, if_neg hsource, hclaims]
      rfl

theorem importClaims_total (d : ClaimsDir) :
    ∃ b db, d.source.importClaims d.project.events = .ok (b, db) ∧
      (db.runs = d.claims ∨ db.runs = Table.empty) := by
  obtain ⟨project, source, fits⟩ := d
  cases source with
  | rows => exact ⟨_, _, rfl, .inl rfl⟩
  | missing => exact ⟨_, _, rfl, .inr fits⟩
  | file claims opened =>
      have hempty : project.events.runs = Table.empty := by
        cases opened with
        | true => exact fits
        | false => exact congrArg EventsDb.runs fits
      by_cases hone : ((claims.rows.filter Claim.active).map Claim.taskRef).Nodup
      · exact ⟨_, _, importLegacyClaims_empty hempty hone, .inl rfl⟩
      · exact ⟨false, _, congrFun (if_neg hone) project.events, .inr hempty⟩

structure Committed (dates : DateApi) (d : ClaimsDir) (claims : List Claim)
    (events : List OrcEvent) (d' : ClaimsDir) : Prop where
  source : d'.source = .rows
  tasks : d'.project.tasks = d.project.tasks
  rows : ∀ c, c ∈ d'.project.events.runs ↔ c ∈ claims
  log : ∀ q, Unsequenced q → d'.project.events.events.countP q =
    d.project.events.events.countP q + events.countP q

theorem commitClaims_ok {claims : List Claim} {events : List OrcEvent}
    (hnodup : (claims.map Claim.runId).Nodup)
    (h : commitClaims dates claims events d = (.ok (), d')) :
    Committed dates d claims events d' := by
  unfold commitClaims at h
  split at h
  · rename_i db hdb
    cases h
    obtain ⟨b, m, himport, hcommit⟩ := Txn.bind_ok.mp hdb
    have hlog : m.events = d.project.events.events := by
      rw [ClaimsSource.importClaims_frame himport]
    refine ⟨rfl, rfl, (Store.commitClaims_ok hnodup hcommit).1, fun q hq => ?_⟩
    rw [← hlog]
    exact commitClaims_count hq hcommit
  · cases h

theorem commitClaims_total {claims : List Claim} {events : List OrcEvent}
    (hstored : ∀ c ∈ claims, c.active = true → c ∈ d.claims)
    (hone : ∀ c ∈ claims, ∀ c' ∈ claims, c.active = true → c'.active = true →
      c.taskRef = c'.taskRef → c.runId = c'.runId)
    (hevents : ∀ e ∈ events, ValidEvent dates e) :
    ∃ d', commitClaims dates claims events d = (.ok (), d') := by
  obtain ⟨b, m, himport, hruns⟩ := importClaims_total d
  have hindex := ClaimsSource.importClaims_one himport d.fits.one
  -- a claim of the list that is active is one of the rows, if there are any
  have hrow : ∀ c ∈ claims, c.active = true → ∀ c', c' ∈ m.runs → c ∈ m.runs := by
    intro c hc ha c' hc'
    rcases hruns with hall | hempty
    · exact hall ▸ hstored c hc ha
    · exact absurd (hempty ▸ hc') (Table.not_mem_empty c')
  obtain ⟨db, hdb⟩ : ∃ db, Store.commitClaims dates claims events m = .ok ((), db) :=
    commitClaims_accepted (P := fun c => c ∈ claims ∨ c ∈ m.runs)
      (fun c c' hc hc' ha ha' href => by
        rcases hc with hc | hc
        · rcases hc' with hc' | hc'
          · exact hone c hc c' hc' ha ha' href
          · exact hindex c (hrow c hc ha c' hc') c' hc' ha ha' href
        · rcases hc' with hc' | hc'
          · exact hindex c hc c' (hrow c' hc' ha' c hc) ha ha' href
          · exact hindex c hc c' hc' ha ha' href)
      (fun c hc => .inl hc) (fun c hc _ => .inr hc) hevents
  have hcommitted : d.committed dates claims events d.project.events = .ok ((), db) :=
    Txn.bind_ok.mpr ⟨b, m, himport, hdb⟩
  unfold commitClaims
  split
  · exact ⟨_, rfl⟩
  · rename_i e he
    cases hcommitted.symm.trans he

theorem refreshClaimsProjection_settled
    (h : d.source = .rows ∨ ∃ claims, d.source = .file claims false) :
    refreshClaimsProjection d = (.ok (), d) := by
  obtain ⟨project, source, fits⟩ := d
  rcases h with rfl | ⟨claims, rfl⟩
  · rfl
  · rfl

/-! ## Once the rows are authoritative -/

/-- From authoritative rows `y` does to the directory what `x` does to the
project. -/
def Extends {α : Type} (x : Op α) (y : ClaimsOp α) : Prop :=
  ∀ d, d.source = .rows →
    ∃ r d', y d = (r, d') ∧ d'.source = .rows ∧ x d.project = (r, d'.project)

theorem Extends.bind {α β : Type} {x : Op α} {y : ClaimsOp α} {f : α → Op β}
    {g : α → ClaimsOp β} (h : Extends x y) (hf : ∀ a, Extends (f a) (g a)) :
    Extends (x >>= f) (y >>= g) := by
  intro d hd
  obtain ⟨r, m, hy, hm, hx⟩ := h d hd
  rw [Effect.bind_apply, Effect.bind_apply, hy, hx]
  cases r with
  | ok a => exact hf a m hm
  | error e => exact ⟨_, m, rfl, hm, rfl⟩

theorem extends_pure {α : Type} (a : α) : Extends (pure a) (pure a) :=
  fun d hd => ⟨.ok a, d, rfl, hd, rfl⟩

theorem extends_commitRepairs (changes : TaskStatusChanges) (backlog : Backlog)
    (now : String) :
    Extends (Lifecycle.commitRepairs changes backlog now)
      (commitRepairs changes backlog now) := by
  unfold Lifecycle.commitRepairs commitRepairs
  split
  · exact extends_pure ()
  · intro d hd
    simp only [Lifecycle.onTasks, onTasks, Effect.atomically]
    cases commitBacklog backlog changes now d.project.tasks with
    | ok p => exact ⟨_, _, rfl, hd, rfl⟩
    | error e => exact ⟨_, d, rfl, hd, rfl⟩

theorem extends_commitClaims (claims : List Claim) (events : List OrcEvent) :
    Extends (onEvents (Store.commitClaims dates claims events))
      (commitClaims dates claims events) := by
  rintro ⟨project, source, fits⟩ rfl
  have hcommitted : committed dates ⟨project, .rows, fits⟩ claims events =
      Store.commitClaims dates claims events := rfl
  unfold commitClaims
  split
  · rename_i db hdb
    refine ⟨_, _, rfl, rfl, ?_⟩
    rw [hcommitted] at hdb
    simp only [onEvents, Effect.atomically, hdb]
    rfl
  · rename_i e he
    refine ⟨_, _, rfl, rfl, ?_⟩
    rw [hcommitted] at he
    simp only [onEvents, Effect.atomically, he]
    rfl

theorem extends_commitFailures (claims : List Claim)
    (failed : List (Claim × String)) (now : String) :
    Extends (Lifecycle.commitFailures dates claims failed now)
      (commitFailures dates claims failed now) := by
  unfold Lifecycle.commitFailures commitFailures
  split
  · exact extends_pure ()
  · exact extends_commitClaims _ _

theorem Extends.refreshed {x : Op Unit} {y : ClaimsOp Unit} (h : Extends x y) :
    Extends x (y >>= fun _ => refreshClaimsProjection) := by
  intro d hd
  obtain ⟨r, m, hy, hm, hx⟩ := h d hd
  rw [Effect.bind_apply, hy]
  cases r with
  | ok u =>
      exact ⟨.ok u, m, refreshClaimsProjection_settled (.inl hm), hm, hx⟩
  | error e => exact ⟨.error e, m, rfl, hm, hx⟩

/-- From then on a pass is that over the two stores. -/
theorem extends_reconcileState (now : String) :
    Extends (Lifecycle.reconcileState dates now) (reconcileState dates now) := by
  intro d hd
  have hread : readClaimsJson d = (.ok d.project.claims, d) := by
    obtain ⟨project, source, fits⟩ := d
    subst hd
    rfl
  unfold reconcileState
  rw [Effect.bind_of_ok hread, Effect.read_bind]
  exact ((extends_commitRepairs _ _ now).bind fun _ =>
    (extends_commitFailures _ _ now).refreshed) d hd

end ClaimsDir

end OrcState.Lifecycle
