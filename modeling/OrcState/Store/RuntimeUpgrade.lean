import Mathlib.Tactic.IntervalCases
import OrcState.Store.RuntimeSchema

/-!
# Opening the runtime database at any version

Each migration leads from the layouts of its version to those of the next and
keeps every row readable as it was.  Only one of them can be refused on account
of the rows: the second wants one running session for each agent, which the first
version did not yet ask for.
-/

namespace OrcState.Store.RuntimeSchema

open OrcState.Foundation
open OrcState.Foundation.Relational
open OrcState.Foundation.Migrations

variable {k : Nat} {db db' m : Database} {appliedAt : Nat → String}

/-! ## A migration and its record -/

def changes (k : Nat) : List Statement := (migration "" k).dropLast

theorem migration_eq (hk : k < 7) (appliedAt : String) :
    migration appliedAt k =
      changes k ++ [record (k + 1) (migrationNames.getD k "") appliedAt] := by
  interval_cases k
  all_goals rfl

theorem reached_changes (hk : k < 7) :
    reached (changes k) (runtimeSchemaAt k) = runtimeSchemaAt (k + 1) := by
  interval_cases k
  all_goals rfl

theorem wellFormed_runtimeSchemaAt (hk : k ≤ 7) :
    (runtimeSchemaAt k).WellFormed := by
  interval_cases k
  all_goals decide

/-- Every migration but the second only widens tables. -/
theorem changes_fit (hk : k < 7) (hne : k ≠ 1) :
    fits (changes k) (runtimeSchemaAt k) = true ∧
      ∀ statement ∈ changes k, statement.widening = true := by
  interval_cases k
  all_goals first | exact absurd rfl hne | decide

/-! ## The rebuild of the sessions -/

def claimColumn : List Statement := [.addColumn "runs" (optional "claim_json")]

def cutoverTables : List Statement :=
  [.createIndex oneRunningAgent, .createTable runtimeCutovers]

theorem changes_one :
    changes 1 = claimColumn ++
      (rebuild sessionsV2 "sessions" sessions.names ++ cutoverTables) := rfl

def claimSchema : Schema := reached claimColumn (runtimeSchemaAt 1)

def rebuiltSchema : Schema :=
  reached (rebuild sessionsV2 "sessions" sessions.names) claimSchema

theorem claimColumn_fits : fits claimColumn (runtimeSchemaAt 1) = true := by
  decide

theorem cutoverTables_fit : fits cutoverTables rebuiltSchema = true := by
  decide

theorem claimSchema_wellFormed : claimSchema.WellFormed := by decide

theorem sessions_mem_claimSchema : sessions ∈ claimSchema.tables := by
  decide

theorem sessionsV2_references : ∀ column' ∈ sessionsV2.columns,
    column'.references ≠ none → ∃ column ∈ sessions.columns,
      column.name = column'.name ∧ column.references = column'.references := by
  decide

theorem Good.claimed {m1 : Database} (h : Good 1 db)
    (h1 : exec claimColumn db = .ok m1) :
    m1.schema = claimSchema ∧ m1.Sound ∧ Widens db m1 := by
  refine ⟨?_, h.sound.script (by decide) (h.schema ▸ claimColumn_fits) h1⟩
  rw [exec_reached h1, h.schema]
  rfl

theorem Good.rebuilt {m1 m2 : Database} (h : Good 1 db)
    (h1 : exec claimColumn db = .ok m1)
    (h2 : exec (rebuild sessionsV2 "sessions" sessions.names) m1 = .ok m2) :
    m2.schema = rebuiltSchema ∧ m2.Sound ∧ Widens db m2 := by
  obtain ⟨hschema1, hs1, hw1⟩ := h.claimed h1
  have hschema2 : m2.schema = rebuiltSchema := by
    rw [exec_reached h2, hschema1]
    rfl
  have hwf1 : m1.schema.WellFormed := hschema1 ▸ claimSchema_wellFormed
  have hwf2 : m2.schema.WellFormed :=
    hschema2 ▸ fits_wellFormed cutoverTables_fit
  obtain ⟨hs2, hw2⟩ := hs1.rebuild hwf1 hwf2
    (hschema1 ▸ sessions_mem_claimSchema) (fun _ h => h)
    sessionsV2_references h2
  exact ⟨hschema2, hs2, hw1.trans hw2⟩

/-! ## What the changes keep -/

theorem Good.changed (h : Good k db) (hk : k < 7)
    (hm : exec (changes k) db = .ok m) :
    m.Sound ∧ Widens db m ∧ m.schema = runtimeSchemaAt (k + 1) := by
  have hschema : m.schema = runtimeSchemaAt (k + 1) := by
    rw [exec_reached hm, h.schema, reached_changes hk]
  by_cases hne : k = 1
  · subst hne
    rw [changes_one] at hm
    obtain ⟨m1, h1, hm⟩ := exec_append_ok.mp hm
    obtain ⟨m2, h2, h3⟩ := exec_append_ok.mp hm
    obtain ⟨hschema2, hs2, hw2⟩ := h.rebuilt h1 h2
    obtain ⟨hs3, hw3⟩ := hs2.script (by decide)
      (hschema2 ▸ cutoverTables_fit) h3
    exact ⟨hs3, hw2.trans hw3, hschema⟩
  · obtain ⟨hfits, hwidening⟩ := changes_fit hk hne
    obtain ⟨hs, hw⟩ := h.sound.script hwidening (h.schema ▸ hfits) hm
    exact ⟨hs, hw, hschema⟩

/-! ## What they need -/

theorem untouched_changes (hk : k < 7) (hpos : 0 < k) :
    ∀ statement ∈ changes k, "schema_migrations" ∉ statement.touched := by
  interval_cases k
  all_goals decide

theorem recorded_succ (hk : k < 7) :
    recorded (k + 1) = recorded k ++
      [[.int (k + 1 : Nat), .text (migrationNames.getD k "")]] := by
  interval_cases k
  all_goals rfl

theorem unrecorded (hk : k < 7) :
    ∀ row ∈ recorded k, row.head? ≠ some (.int (k + 1 : Nat)) := by
  interval_cases k
  all_goals decide

theorem schemaMigrations_at (hk : k < 7) :
    (∀ layout ∈ (runtimeSchemaAt (k + 1)).tables,
      layout.name = "schema_migrations" → layout = schemaMigrations) ∧
    schemaMigrations ∈ (runtimeSchemaAt (k + 1)).tables ∧
    ∀ index ∈ (runtimeSchemaAt (k + 1)).indexes,
      index.table = "schema_migrations" → index.unique = false := by
  interval_cases k
  all_goals decide

theorem records_changed (h : Good k db) (hk : k < 7)
    (hm : exec (changes k) db = .ok m) : records m = recorded k := by
  rcases Nat.eq_zero_or_pos k with rfl | hpos
  · obtain ⟨m1, h1, hrest⟩ := exec_cons_ok.mp hm
    have hrows : m.rows "schema_migrations" = m1.rows "schema_migrations" :=
      exec_rows_of_untouched (by decide) hrest
    obtain ⟨schema, rows, -, hmove, rfl⟩ := Statement.exec_ok.mp h1
    have hnone : db.schema.table schemaMigrations.name = none := by
      rw [h.schema]
      rfl
    simp only [Statement.move, hnone] at hmove
    cases hmove
    rw [records, hrows]
    change (Function.update db.rows "schema_migrations" []
      "schema_migrations").map _ = []
    rw [Function.update_self]
    rfl
  · rw [records, exec_rows_of_untouched (untouched_changes hk hpos) hm]
    exact h.records hpos

theorem migrate_ok {appliedAt : Nat → String} (hk : k < 7)
    (h : migrate appliedAt k db = .ok db') :
    ∃ m m', exec (changes k) db = .ok m ∧
      exec [record (k + 1) (migrationNames.getD k "") (appliedAt k)] m = .ok m' ∧
      db' = { m' with version := k + 1 } := by
  unfold migrate at h
  rw [migration_eq hk] at h
  split at h
  · cases h
  · rename_i m' hexec
    cases h
    obtain ⟨m, hm, hm'⟩ := exec_append_ok.mp hexec
    exact ⟨m, m', hm, hm', rfl⟩

theorem Good.migrated (h : Good k db) (hk : k < 7)
    (hok : migrate appliedAt k db = .ok db') :
    Good (k + 1) db' ∧ Kept ["schema_migrations"] db db' := by
  obtain ⟨m, m', hm, hm', rfl⟩ := migrate_ok hk hok
  obtain ⟨hs, hw, hschema⟩ := h.changed hk hm
  have hrecords := records_changed h hk hm
  obtain ⟨m'', hrecord, hend⟩ := exec_cons_ok.mp hm'
  cases hend
  have hwf : m.schema.WellFormed :=
    hschema ▸ wellFormed_runtimeSchemaAt (by omega)
  have hfree : ∀ layout ∈ m.schema.tables, layout.name = "schema_migrations" →
      ∀ column ∈ layout.columns, column.references = none := by
    intro layout hlayout hname
    rw [(schemaMigrations_at hk).1 layout (hschema ▸ hlayout) hname]
    decide
  obtain ⟨hs', hkept⟩ := hs.insert hwf hfree hrecord
  obtain ⟨layout, -, -, rfl⟩ := insert_ok hrecord
  refine ⟨⟨rfl, hschema, ⟨hs'.admitted, hs'.referenced⟩, fun _ => ?_⟩, ?_⟩
  · have hrows : Function.update m.rows "schema_migrations"
        (m.rows "schema_migrations" ++ [[.int (k + 1 : Nat),
          .text (migrationNames.getD k ""), .text (appliedAt k)]])
            "schema_migrations" = _ := Function.update_self _ _ _
    refine (congrArg (List.map _) hrows).trans ?_
    rw [List.map_append, recorded_succ hk, ← hrecords]
    rfl
  · exact (hw.kept.mono (List.nil_subset _)).trans hkept

theorem foreignKeyCheck_eq_nil (hs : db.Sound) : db.foreignKeyCheck = [] := by
  simp only [Database.foreignKeyCheck, List.flatMap_eq_nil_iff, List.map_eq_nil_iff,
    Database.dangling, List.filter_eq_nil_iff]
  intro layout hlayout row hrow column hcolumn hdangling
  cases hcase : column.references with
  | none => simp [hcase] at hdangling
  | some reference =>
      simp only [hcase, Option.any_some, Bool.and_eq_true, decide_eq_true_eq,
        Bool.not_eq_true'] at hdangling
      have hpresent := hs.referenced layout hlayout row hrow column hcolumn
        reference hcase hdangling.1
      rw [hpresent] at hdangling
      cases hdangling.2

theorem Good.healthy (h : Good runtimeSchemaVersion db) :
    inspectRuntimeSchemaDb db = [] := by
  have hrecords : RuntimeSchema.records db = recorded 7 := h.records (by decide)
  have htables : operationalTables.filter (fun table =>
      (db.schema.table table).isNone) = [] := by
    rw [h.schema]
    decide
  have hunrecorded : (List.range migrationNames.length).filter (fun i =>
      recordedName db (i + 1) ≠ (migrationNames[i]?).map Cell.text) = [] := by
    simp only [recordedName, hrecords]
    decide
  simp only [inspectRuntimeSchemaDb, h.version, Nat.lt_irrefl, if_false, htables,
    hunrecorded, foreignKeyCheck_eq_nil h.sound]
  split
  all_goals rfl

theorem sound_migrateRuntimeSchema (appliedAt : Nat → String)
    (writable : Nat → Bool) :
    (migrateRuntimeSchema appliedAt writable).Sound Good where
  positive := Nat.succ_pos 6
  version h := h.version
  migrate h hk hok := (h.migrated hk hok).1
  late h := by cases h
  health h := by
    simp only [migrateRuntimeSchema, h.healthy]
  write h hok := by
    simp only [migrateRuntimeSchema] at hok
    split at hok
    · rename_i hallowed
      cases hok
      refine ⟨h.version, h.schema, hallowed.2.2, fun hpos => ?_⟩
      exact (congrArg (List.map _) hallowed.2.1).trans (h.records hpos)
    · cases hok

/-! ## Every run -/

theorem good_empty : Good 0 {} where
  version := rfl
  schema := rfl
  sound := ⟨by simp, by simp⟩
  records h := absurd h (Nat.lt_irrefl 0)

variable {writable : Nat → Bool} {first : Nat}
  {w w' : Opening Database SchemaError}

/--
However many processes open the database at once, and wherever they die, it has
the layouts of its version, sound rows and a record of each migration, and every
migration since it was first opened ran exactly once and in its turn.  Who has
opened it finds it at the last version.
-/
theorem runtime_upgraded (hfirst : first ≤ runtimeSchemaVersion)
    (hw : ((migrateRuntimeSchema appliedAt writable).system
      (Good first)).Reachable w) :
    Good w.store.version w.store ∧ first ≤ w.store.version ∧
      w.applied = List.range' first (w.store.version - first) ∧
      (.opened ∈ w.openers → w.store.version = runtimeSchemaVersion) := by
  obtain ⟨version, hsafe⟩ := (sound_migrateRuntimeSchema appliedAt writable).reachable
    (fun _ h => h) hfirst hw
  have hversion := hsafe.good.version
  refine ⟨hversion.symm ▸ hsafe.good, hversion.symm ▸ hsafe.above,
    hversion.symm ▸ hsafe.applied, fun hopened => ?_⟩
  rw [hversion]
  exact Nat.le_antisymm hsafe.below (hsafe.placed .opened hopened)

/-- Two processes at a database that no version has touched. -/
theorem runtime_upgraded_twice :
    ∃ w, ((migrateRuntimeSchema (fun _ => "t") fun _ => true).system
        (Good 0)).run { store := {} } ([.join, .join] ++
          (List.replicate 15 [.go 0, .go 1]).flatten) = some w ∧
      w.openers = [.opened, .opened] ∧
      Good w.store.version w.store ∧ 0 ≤ w.store.version ∧
      w.applied = List.range' 0 (w.store.version - 0) ∧
      (.opened ∈ w.openers → w.store.version = runtimeSchemaVersion) := by
  have hrun : (((migrateRuntimeSchema (fun _ => "t") fun _ => true).system
      (Good 0)).run { store := {} } ([.join, .join] ++
        (List.replicate 15 [.go 0, .go 1]).flatten)).map (·.openers) =
      some [.opened, .opened] := by
    decide
  obtain ⟨w, hw, hopeners⟩ := System.exists_run_of_map _ hrun
  exact ⟨w, hw, hopeners, runtime_upgraded (by decide)
    (Plan.reachable_of_run good_empty hw)⟩

/-! ## What an upgrade keeps of the rows -/

def Move.writes : Move (String → List Row) → Bool
  | .write _ => true
  | _ => false

theorem kept_self (db : Database) : Kept ["schema_migrations"] db db :=
  fun layout hlayout _ => ⟨layout, hlayout, rfl, fun _ hn => hn, rfl⟩

/-- One step of a process that opens the database loses no row. -/
theorem kept_step {version : Nat} {a : Move (String → List Row)}
    (hsafe : (migrateRuntimeSchema appliedAt writable).Safe Good first version w)
    (hwrites : Move.writes a = false)
    (hstep : (migrateRuntimeSchema appliedAt writable).step w a = some w') :
    Kept ["schema_migrations"] w.store w'.store := by
  have hself := kept_self w.store
  cases a with
  | join =>
      cases hstep
      exact hself
  | die i =>
      cases hstep
      exact hself
  | write rows => cases hwrites
  | go i =>
      simp only [Plan.step] at hstep
      cases hopener : w.openers[i]? with
      | none => simp [hopener] at hstep
      | some opener =>
          rcases hadv : (migrateRuntimeSchema appliedAt writable).advance
            w.store opener with ⟨opener', effect⟩
          simp only [hopener, hadv] at hstep
          rcases (sound_migrateRuntimeSchema appliedAt writable).advance
              hsafe.good hsafe.below
              (hsafe.placed _ (List.mem_of_getElem? hopener)) hadv with
            ⟨rfl, -⟩ | ⟨store', rfl, hlt, hmigrate, -, -⟩
          · cases hstep
            exact hself
          · cases hstep
            exact (hsafe.good.migrated hlt hmigrate).2

/--
While nobody writes, processes that open the database keep every row: read
through the columns it had at first, each table is what it was.
-/
theorem runtime_rows_kept {moves : List (Move (String → List Row))}
    (hfirst : first ≤ runtimeSchemaVersion)
    (hw : ((migrateRuntimeSchema appliedAt writable).system
      (Good first)).Reachable w)
    (hwrites : ∀ a ∈ moves, Move.writes a = false)
    (hrun : ((migrateRuntimeSchema appliedAt writable).system
      (Good first)).run w moves = some w') :
    Kept ["schema_migrations"] w.store w'.store := by
  obtain ⟨version, hsafe⟩ := (sound_migrateRuntimeSchema appliedAt writable).reachable
    (fun _ h => h) hfirst hw
  exact System.along_preserves
    (I := fun v => ∃ version, (migrateRuntimeSchema appliedAt writable).Safe Good
      first version v)
    (P := fun v => Kept ["schema_migrations"] w.store v.store)
    (fun _ _ _ ⟨_, h⟩ hstep =>
      (h.step (sound_migrateRuntimeSchema appliedAt writable) hstep).imp
        fun _ h => h.2)
    (fun _ _ _ ⟨_, h⟩ hkept hok hstep => hkept.trans (kept_step h hok hstep))
    ⟨version, hsafe⟩ (kept_self w.store)
    (System.along_of_run (fun a ha _ => hwrites a ha) hrun) hrun

def oneSession : Database where
  version := 1
  schema := runtimeSchemaAt 1
  rows
    | "schema_migrations" =>
        [[.int 1, .text "initial_operational_tables", .text "t"]]
    | "runs" => [[.text "run-1", .text "task-1", .text "worker", .text "claimed",
        .text "t", .text "t"]]
    | "sessions" => [[.text "session-1", .text "run-1", .text "worker",
        .text "codex", .text "running", .null, .text "t", .text "t"]]
    | _ => []

theorem good_oneSession : Good 1 oneSession where
  version := rfl
  schema := rfl
  sound := by decide
  records _ := rfl

theorem runtime_rows_kept_oneSession :
    ∃ w, ((migrateRuntimeSchema (fun _ => "t") fun _ => true).system
        (Good 1)).run { store := oneSession } (.join ::
          List.replicate 15 (.go 0)) = some w ∧
      w.store.version = 7 ∧ Kept ["schema_migrations"] oneSession w.store := by
  have hrun : (((migrateRuntimeSchema (fun _ => "t") fun _ => true).system
      (Good 1)).run { store := oneSession } (.join ::
        List.replicate 15 (.go 0))).map (·.store.version) = some 7 := by
    decide
  obtain ⟨w, hw, hversion⟩ := System.exists_run_of_map _ hrun
  exact ⟨w, hw, hversion, runtime_rows_kept (by decide)
    (.initial ⟨good_oneSession, rfl, rfl⟩) (by decide) hw⟩

/-! ## Who gets in -/

structure Ready (k : Nat) (db : Database) : Prop where
  good : Good k db
  one : k = 1 → OneRunningEach db

end OrcState.Store.RuntimeSchema
