import OrcState.Foundation.Migrations
import OrcState.Foundation.RelationalRebuild
import OrcState.Foundation.RelationalScript

/-!
# The schema of the runtime database

The operational tables of `events.db` as its seven migrations build them, and the
check that a process makes of them before it uses the database.  The event log
lies in the same file, and no migration names it.
-/

namespace OrcState.Store.RuntimeSchema

open OrcState.Foundation
open OrcState.Foundation.Relational
open OrcState.Foundation.Migrations

def runtimeSchemaVersion : Nat := 7

/-! ## The migrations -/

def optional (name : String) : Column := { name }

def required (name : String) : Column := { name, notNull := true }

def refers (name table target : String) : Column :=
  { name, references := some { table, column := target } }

def belongs (name table target : String) : Column :=
  { refers name table target with notNull := true }

def payload : Column := { required "payload" with check := some .json }

def texts (values : List String) : List Cell := values.map .text

def schemaMigrations : Layout where
  name := "schema_migrations"
  columns := [optional "version", required "name", required "applied_at"]
  uniques := [["version"]]

def record (version : Nat) (name appliedAt : String) : Statement :=
  .insert "schema_migrations" [.int version, .text name, .text appliedAt]

def runs : Layout where
  name := "runs"
  columns := [optional "run_id", required "task_ref", optional "agent_id",
    required "state", required "created_at", required "updated_at"]
  uniques := [["run_id"]]

def sessions : Layout where
  name := "sessions"
  columns := [optional "session_id", belongs "run_id" "runs" "run_id",
    required "agent_id", required "provider", required "state",
    optional "provider_ref", required "started_at", required "updated_at"]
  uniques := [["session_id"]]

def commands : Layout where
  name := "commands"
  columns := [optional "command_id", belongs "run_id" "runs" "run_id",
    refers "session_id" "sessions" "session_id", required "actor_id",
    required "recipient_id", required "idempotency_key", required "kind",
    payload, required "state", required "created_at",
    optional "delivered_at", optional "acknowledged_at"]
  uniques := [["command_id"], ["run_id", "idempotency_key"]]

def messages : Layout where
  name := "messages"
  columns := [optional "message_id", belongs "run_id" "runs" "run_id",
    refers "command_id" "commands" "command_id", required "idempotency_key",
    { required "direction" with
      check := some (.oneOf (texts ["inbound", "outbound"])) },
    required "kind", payload, required "created_at"]
  uniques := [["message_id"], ["idempotency_key"]]

def inputRequests : Layout where
  name := "input_requests"
  columns := [optional "request_id", belongs "run_id" "runs" "run_id",
    refers "message_id" "messages" "message_id", required "idempotency_key",
    required "question", required "state", optional "response",
    required "created_at", optional "answered_at"]
  uniques := [["request_id"], ["message_id"], ["idempotency_key"]]

def offsets : Layout where
  name := "offsets"
  columns := [optional "consumer_id",
    { required "last_event_seq" with
      default := .int 0, check := some (.atLeast 0) },
    required "updated_at"]
  uniques := [["consumer_id"]]

def controlLeases : Layout where
  name := "control_leases"
  columns := [required "resource_type", required "resource_id",
    required "lease_id", refers "session_id" "sessions" "session_id",
    required "owner_id", required "expires_at"]
  uniques := [["resource_type", "resource_id"], ["lease_id"]]

/-- `runs_one_active_task_idx`. -/
def oneActiveTask : Index where
  name := "runs_one_active_task_idx"
  table := "runs"
  columns := ["task_ref"]
  unique := true
  filter := .isIn "state" (texts ["claimed", "in_progress"])

def initialOperationalTables (appliedAt : String) : List Statement :=
  [.createTableIfNotExists schemaMigrations, .createTable runs,
    .createIndex oneActiveTask, .createTable sessions, .createTable commands,
    .createTable messages, .createTable inputRequests, .createTable offsets,
    .createTable controlLeases,
    .createIndex {
      name := "commands_pending_idx", table := "commands"
      columns := ["state", "created_at"] },
    .createIndex {
      name := "messages_run_idx", table := "messages"
      columns := ["run_id", "created_at"] },
    record 1 "initial_operational_tables" appliedAt]

def sessionsV2 : Layout where
  name := "sessions_v2"
  columns := [optional "session_id", refers "run_id" "runs" "run_id",
    required "agent_id", required "provider", required "state",
    optional "provider_ref", required "started_at", required "updated_at"]
  uniques := [["session_id"]]

/-- `sessions_one_running_agent_idx`. -/
def oneRunningAgent : Index where
  name := "sessions_one_running_agent_idx"
  table := "sessions"
  columns := ["agent_id"]
  unique := true
  filter := .isIn "state" (texts ["running"])

def runtimeCutovers : Layout where
  name := "runtime_cutovers"
  columns := [optional "name", required "imported_at"]
  uniques := [["name"]]

def runAuthorityCutover (appliedAt : String) : List Statement :=
  [.addColumn "runs" (optional "claim_json"),
    .createTable sessionsV2,
    .insertSelect "sessions_v2" "sessions" ["session_id", "run_id", "agent_id",
      "provider", "state", "provider_ref", "started_at", "updated_at"],
    .dropTable "sessions",
    .renameTable "sessions_v2" "sessions",
    .createIndex oneRunningAgent,
    .createTable runtimeCutovers,
    record 2 "run_authority_cutover" appliedAt]

def durableCommandDelivery (appliedAt : String) : List Statement :=
  [.addColumn "commands" (refers "actor_session_id" "sessions" "session_id"),
    .addColumn "commands" { required "side_effecting" with
      default := .int 1, check := some (.oneOf [.int 0, .int 1]) },
    .addColumn "commands" { required "attempt_count" with
      default := .int 0, check := some (.atLeast 0) },
    .addColumn "commands" { required "max_attempts" with
      default := .int 3, check := some (.atLeast 1) },
    .addColumn "commands" (optional "next_attempt_at"),
    .addColumn "commands" (optional "deadline_at"),
    .addColumn "commands" (optional "dispatch_started_at"),
    .addColumn "commands" (optional "send_started_at"),
    .addColumn "commands" (optional "terminal_at"),
    .addColumn "commands" (optional "last_error"),
    .createIndex {
      name := "commands_ready_idx", table := "commands"
      columns := ["state", "next_attempt_at", "created_at"] },
    record 3 "durable_command_delivery" appliedAt]

def sessionSupervision (appliedAt : String) : List Statement :=
  [.addColumn "sessions" (optional "transport"),
    .addColumn "sessions" (optional "process_pid"),
    .addColumn "sessions" (optional "process_start"),
    .addColumn "sessions" (optional "owner_id"),
    .addColumn "sessions" (optional "owner_expires_at"),
    .addColumn "sessions" (optional "state_reason"),
    record 4 "session_supervision" appliedAt]

def terminals : Layout where
  name := "terminals"
  columns := [optional "terminal_id", belongs "run_id" "runs" "run_id",
    { required "kind" with
      check := some (.oneOf (texts ["provider", "shell"])) },
    required "handle", required "worktree_path", required "log_path",
    { required "state" with
      check := some (.oneOf (texts ["running", "offline"])) },
    required "created_at", required "updated_at"]
  uniques := [["terminal_id"], ["run_id", "kind"]]

def terminalBroker (appliedAt : String) : List Statement :=
  [.createTable terminals, record 5 "terminal_broker" appliedAt]

def semanticMessageRouting (appliedAt : String) : List Statement :=
  [.addColumn "messages" (optional "sender_id"),
    .addColumn "messages" (optional "sender_session_id"),
    .addColumn "messages" (optional "recipient_id"),
    .addColumn "messages" (optional "recipient_session_id"),
    .addColumn "messages" (refers "recipient_run_id" "runs" "run_id"),
    .addColumn "messages" (refers "parent_message_id" "messages" "message_id"),
    .addColumn "messages" { required "state" with
      default := .text "queued"
      check := some (.oneOf (texts ["queued", "consumed"])) },
    .addColumn "messages" (optional "consumed_at"),
    .createIndex {
      name := "messages_recipient_idx", table := "messages"
      columns := ["recipient_session_id", "state", "created_at"] },
    record 6 "semantic_message_routing" appliedAt]

/-- `sessions_credential_idx`. -/
def oneCredential : Index where
  name := "sessions_credential_idx"
  table := "sessions"
  columns := ["credential_hash"]
  unique := true
  filter := .isNotNull "credential_hash"

def sessionCredentials (appliedAt : String) : List Statement :=
  [.addColumn "sessions" (optional "credential_hash"),
    .createIndex oneCredential, record 7 "session_credentials" appliedAt]

def migration (appliedAt : String) : Nat → List Statement
  | 0 => initialOperationalTables appliedAt
  | 1 => runAuthorityCutover appliedAt
  | 2 => durableCommandDelivery appliedAt
  | 3 => sessionSupervision appliedAt
  | 4 => terminalBroker appliedAt
  | 5 => semanticMessageRouting appliedAt
  | 6 => sessionCredentials appliedAt
  | _ => []

/-! ## The check -/

def operationalTables : List String :=
  ["schema_migrations", "runs", "sessions", "commands", "messages",
    "input_requests", "offsets", "control_leases", "runtime_cutovers",
    "terminals"]

def migrationNames : List String :=
  ["initial_operational_tables", "run_authority_cutover",
    "durable_command_delivery", "session_supervision", "terminal_broker",
    "semantic_message_routing", "session_credentials"]

/-- `SELECT version, name FROM schema_migrations`. -/
def records (db : Database) : List Row :=
  (db.rows "schema_migrations").map
    (schemaMigrations.project ["version", "name"])

/-- `new Map(rows.map(...)).get(version)`: a later record replaces an earlier. -/
def recordedName (db : Database) (version : Nat) : Option Cell :=
  (records db).reverse.findSome? fun row =>
    match row with
    | [version', name] => if version' = .int version then some name else none
    | _ => none

def inspectRuntimeSchemaDb (db : Database) : List String :=
  if runtimeSchemaVersion < db.version then
    [s!"schema version {db.version} is newer than supported version {runtimeSchemaVersion}"]
  else if db.version < runtimeSchemaVersion then
    [s!"schema version {db.version} requires migration to {runtimeSchemaVersion}"]
  else
    let missing := operationalTables.filter fun table =>
      (db.schema.table table).isNone
    let unrecorded :=
      if (db.schema.table "schema_migrations").isSome then
        (List.range migrationNames.length).filter fun i =>
          recordedName db (i + 1) ≠ (migrationNames[i]?).map .text
      else []
    let violations := db.foreignKeyCheck
    missing.map (fun table => s!"missing table {table}") ++
      unrecorded.map (fun i => s!"missing migration record {i + 1}") ++
      (if violations.length > 0 then
        [s!"{violations.length} foreign key violation(s)"] else [])

/-! ## Opening the database -/

inductive SchemaError where
  | thrown (message : String)
  | sqlite (reason : Refusal)
  deriving DecidableEq, Repr

def migrate (appliedAt : Nat → String) (k : Nat) (db : Database) :
    Except SchemaError Database :=
  match exec (migration (appliedAt k) k) db with
  | .error reason => .error (.sqlite reason)
  | .ok db => .ok { db with version := k + 1 }

/--
`migrateRuntimeSchema`.  The operational writes of other processes come between,
at the versions their binaries know; what the database itself refuses does not
happen, and none of them touches the record of migrations.
-/
def migrateRuntimeSchema (appliedAt : Nat → String) (writable : Nat → Bool) :
    Plan Database SchemaError (String → List Row) where
  target := runtimeSchemaVersion
  version := Database.version
  migrate := migrate appliedAt
  rechecks := true
  rereads k := k ≠ 0
  shortcut := true
  tooNew version := .thrown
    s!"events.db schema version {version} is newer than supported version {runtimeSchemaVersion}; use a newer orc binary"
  health db :=
    match inspectRuntimeSchemaDb db with
    | [] => .ok ()
    | messages =>
        let joined := String.intercalate "; " messages
        .error (.thrown s!"events.db schema is inconsistent: {joined}")
  write rows db :=
    if writable db.version ∧
        rows "schema_migrations" = db.rows "schema_migrations" ∧
        ({ db with rows } : Database).Sound then
      some { db with rows }
    else none

/-! ## The layouts of each version -/

def runtimeSchemaAt : Nat → Schema
  | 0 => {}
  | k + 1 => reached (migration "" k) (runtimeSchemaAt k)

def recorded (k : Nat) : List Row :=
  (migrationNames.take k).mapIdx fun i name => [.int (i + 1 : Nat), .text name]

/-- A database as the first `k` migrations leave it, with any sound contents. -/
structure Good (k : Nat) (db : Database) : Prop where
  version : db.version = k
  schema : db.schema = runtimeSchemaAt k
  sound : db.Sound
  records : 0 < k → records db = recorded k

/-- No agent has two running sessions. -/
def OneRunningEach (db : Database) : Prop :=
  oneRunningAgent.holds sessions (db.rows "sessions")

end OrcState.Store.RuntimeSchema
