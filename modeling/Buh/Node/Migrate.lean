import Buh.Node.Spelling

/-! The migration runner of `migrate.rs`, over a database that executes one statement at a
time. Any call may fail, and the process may stop at any call. Of SQL there is what the
migrations are written in: tables and indexes that are created unless they exist. -/

namespace Buh.Node.Migrate
open Buh.Library.Trimming Buh.Node.Spelling

abbrev Text := List Char

def stripCr (line : Text) : Text := if line.getLast? = some '\r' then line.dropLast else line

/-- `str::lines` -/
def lines (text : Text) : List Text :=
  let pieces := text.splitOn '\n'
  pieces.dropLast.map stripCr ++ if pieces.getLast? = some [] then [] else pieces.getLast?.toList

/-- A line up to its `--`. -/
def code : Text → Text
  | '-' :: '-' :: _ => []
  | c :: rest => c :: code rest
  | [] => []

def splitStatements (sql : Text) : List Text :=
  let stripped := ['\n'].intercalate ((lines sql).map code)
  ((stripped.splitOn ';').map (trim isWhitespace)).filter (fun stmt => stmt ≠ [])

/-- An entry of the schema; what a table or an index consists of is kept as words. -/
inductive SchemaObject where
  | table (name : Text) (definition : List Text)
  | index (unique : Bool) (name table : Text) (columns : List Text)
  deriving DecidableEq

def SchemaObject.name : SchemaObject → Text
  | .table name _ => name
  | .index _ name _ _ => name

def words (text : Text) : List Text := (text.splitOnP isWhitespace).filter (fun word => word ≠ [])

/-- What follows the phrase. -/
def following (phrase : String) (text : List Text) : Option (List Text) :=
  let phrase := words phrase.toList
  if phrase.isPrefixOf text then some (text.drop phrase.length) else none

def indexOn (unique : Bool) : List Text → Option SchemaObject
  | name :: on :: table :: columns => if on = "ON".toList then some (.index unique name table columns) else none
  | _ => none

def parse (stmt : Text) : Option SchemaObject :=
  match following "CREATE TABLE IF NOT EXISTS" (words stmt) with
  | some (name :: definition) => some (.table name definition)
  | _ =>
    match following "CREATE INDEX IF NOT EXISTS" (words stmt) with
    | some rest => indexOn false rest
    | none => (following "CREATE UNIQUE INDEX IF NOT EXISTS" (words stmt)).bind (indexOn true)

/-- The schema, and the rows of `schema_version`. -/
structure Database where
  objects : List SchemaObject
  versions : List (Int × Int)
  deriving DecidableEq

def Database.empty : Database := ⟨[], []⟩

def hasTable (objects : List SchemaObject) (name : Text) : Bool :=
  objects.any (fun object =>
    match object with
    | .table other _ => other = name
    | .index .. => false)

/-- Tables and indexes share their names. -/
def create (objects : List SchemaObject) (object : SchemaObject) : Except String (List SchemaObject) :=
  match object, objects.find? (fun other => other.name = object.name) with
  | .table .., some (.table ..) => .ok objects
  | .table .., some (.index ..) => .error "there is already an index of this name"
  | .table .., none => .ok (objects ++ [object])
  | .index .., some (.index ..) => .ok objects
  | .index .., some (.table ..) => .error "there is already a table of this name"
  | .index _ _ table _, none =>
    if hasTable objects table then .ok (objects ++ [object]) else .error "no such table"

def execute (stmt : Text) (db : Database) : Except String (Database × Unit) :=
  match parse stmt with
  | none => .error "syntax error"
  | some object => (create db.objects object).map (fun objects => ({ db with objects }, ()))

def schemaVersion : Text := "schema_version".toList

/-- The `INSERT` of a version, which is the primary key. -/
def record (version now : Int) (db : Database) : Except String (Database × Unit) :=
  if !hasTable db.objects schemaVersion then .error "no such table"
  else if db.versions.any (fun row => row.1 = version) then .error "UNIQUE constraint failed"
  else .ok ({ db with versions := db.versions ++ [(version, now)] }, ())

def isApplied (version : Int) (db : Database) : Except String (Database × Bool) :=
  if !hasTable db.objects schemaVersion then .error "no such table"
  else .ok (db, db.versions.any (fun row => row.1 = version))

/-- Why a run ends early. -/
inductive Interrupt where
  | repo (text : String)
  | stopped

/-- What happens to a call, by its number, in place of its execution. -/
abbrev Cut := Nat → Option Interrupt

/-- A database in the middle of a run, with the number of calls made. -/
abbrev Session := Database × Nat

def attempt {α : Type} (cut : Cut) (session : Session) (call : Database → Except String (Database × α)) :
    Session × Except Interrupt α :=
  match cut session.2 with
  | some interrupt => ((session.1, session.2 + 1), .error interrupt)
  | none =>
    match call session.1 with
    | .error text => ((session.1, session.2 + 1), .error (.repo text))
    | .ok (db, value) => ((db, session.2 + 1), .ok value)

def executeAll (cut : Cut) (session : Session) : List Text → Session × Except Interrupt Unit
  | [] => (session, .ok ())
  | stmt :: rest =>
    match attempt cut session (execute stmt) with
    | (session, .error e) => (session, .error e)
    | (session, .ok ()) => executeAll cut session rest

/-- The loop over the migrations. -/
def applyAll (cut : Cut) (now : Int) (session : Session) : List (Int × Text) → Session × Except Interrupt Unit
  | [] => (session, .ok ())
  | (version, sql) :: rest =>
    match attempt cut session (isApplied version) with
    | (session, .error e) => (session, .error e)
    | (session, .ok true) => applyAll cut now session rest
    | (session, .ok false) =>
      match executeAll cut session (splitStatements sql) with
      | (session, .error e) => (session, .error e)
      | (session, .ok ()) =>
        match attempt cut session (record version now) with
        | (session, .error e) => (session, .error e)
        | (session, .ok ()) => applyAll cut now session rest

def createVersions : Text :=
  "CREATE TABLE IF NOT EXISTS schema_version (version INTEGER PRIMARY KEY, applied_at INTEGER NOT NULL)".toList

def run (plan : List (Int × Text)) (cut : Cut) (now : Int) (db : Database) : Database × Except Interrupt Unit :=
  match attempt cut (db, 0) (execute createVersions) with
  | (session, .error e) => (session.1, .error e)
  | (session, .ok ()) =>
    match applyAll cut now session plan with
    | (session, result) => (session.1, result)

/-- `0001_init.sql`, by its lines. -/
def initSql : List String := [
  "-- buh relay/mailbox schema (Turso / SQLite-compatible).",
  "--",
  "-- The relay stores ONLY queue_id -> envelope_refs, TTL/expiry, and delivery receipts. There",
  "-- are deliberately no users / queues / ownership tables: the relay never learns identities",
  "-- and cannot enumerate a social graph (doc/design.md §3.1). queue_id is an opaque 32-byte",
  "-- capability; envelope payloads are opaque sealed ciphertext.",
  "--",
  "-- Timestamps are epoch milliseconds (INTEGER).",
  "",
  "CREATE TABLE IF NOT EXISTS envelopes (",
  "    id            INTEGER PRIMARY KEY,",
  "    queue_id      BLOB    NOT NULL,",
  "    envelope_id   TEXT    NOT NULL,",
  "    payload       BLOB    NOT NULL,",
  "    received_at   INTEGER NOT NULL,",
  "    expires_at    INTEGER NOT NULL,",
  "    delivered_at  INTEGER",
  ");",
  "",
  "-- Primary access path: live (undelivered) envelopes for a queue, oldest first.",
  "CREATE INDEX IF NOT EXISTS idx_envelopes_queue_live",
  "    ON envelopes (queue_id, delivered_at, received_at);",
  "",
  "-- TTL sweep path.",
  "CREATE INDEX IF NOT EXISTS idx_envelopes_expiry",
  "    ON envelopes (expires_at);",
  "",
  "-- One row per (queue, envelope) — idempotent push / safe ack.",
  "CREATE UNIQUE INDEX IF NOT EXISTS idx_envelopes_uniq",
  "    ON envelopes (queue_id, envelope_id);",
  "",
  "CREATE TABLE IF NOT EXISTS delivery_receipts (",
  "    id           INTEGER PRIMARY KEY,",
  "    queue_id     BLOB    NOT NULL,",
  "    envelope_id  TEXT    NOT NULL,",
  "    pulled_at    INTEGER NOT NULL",
  ");",
  "",
  "CREATE INDEX IF NOT EXISTS idx_receipts_queue",
  "    ON delivery_receipts (queue_id, pulled_at);"]

/-- `0002_peer_trust.sql`, by its lines. -/
def peerTrustSql : List String := [
  "-- Peer-CA trust registry (Phase 6 / doc/design.md §5.1, the decentralised per-node-CA deviation).",
  "--",
  "-- The set of peer-node CA fingerprints this node will accept on a PQ-mTLS handshake. Trust is",
  "-- per-CA: a fingerprint is pinned (lowercase hex SHA-256 of the peer CA cert DER), never a shared",
  "-- root. There is deliberately no peer identity, address, or social graph here — only the opaque",
  "-- fingerprints an operator has chosen to trust, and an optional human note.",
  "",
  "CREATE TABLE IF NOT EXISTS peer_trust (",
  "    ca_fingerprint  TEXT    PRIMARY KEY,   -- lowercase hex SHA-256 of the peer CA cert DER",
  "    note            TEXT,                  -- optional operator note (who/what this CA is)",
  "    trusted_at      INTEGER NOT NULL       -- epoch milliseconds",
  ");"]

def sqlText (file : List String) : Text := (file.map (fun line => line.toList ++ ['\n'])).flatten

/-- `MIGRATIONS` -/
def migrations : List (Int × Text) := [(1, sqlText initSql), (2, sqlText peerTrustSql)]

/-! Creating the objects of a schema that builds from nothing. -/

def versionsTable : SchemaObject :=
  .table schemaVersion (words "(version INTEGER PRIMARY KEY, applied_at INTEGER NOT NULL)".toList)

def objectsOf (migration : Int × Text) : List SchemaObject := (splitStatements migration.2).filterMap parse

def schema (plan : List (Int × Text)) : List SchemaObject := plan.flatMap objectsOf

/-- Each of the objects is new when its turn comes, and the table of an index is there. -/
def builds (built : List SchemaObject) : List SchemaObject → Bool
  | [] => true
  | object :: rest => decide (create built object = .ok (built ++ [object])) && builds (built ++ [object]) rest

/-- What the files of a release promise: their versions differ, the database understands their
statements, and on a new database every statement creates what it names. -/
structure WellFormed (plan : List (Int × Text)) : Prop where
  versions : (plan.map Prod.fst).Nodup
  understood : ∀ migration ∈ plan, ∀ stmt ∈ splitStatements migration.2, (parse stmt).isSome
  creates : builds [] (versionsTable :: schema plan)

theorem builds_append (built first second : List SchemaObject) :
    builds built (first ++ second) = (builds built first && builds (built ++ first) second) := by
  induction first generalizing built with
  | nil => simp [builds]
  | cons object rest ih => simp [builds, ih, Bool.and_assoc]

theorem create_next {built later : List SchemaObject} {object : SchemaObject}
    (creates : builds [] (built ++ object :: later)) : create built object = .ok (built ++ [object]) := by
  rw [builds_append, List.nil_append, Bool.and_eq_true] at creates
  have next := creates.2
  rw [builds, Bool.and_eq_true, decide_eq_true_eq] at next
  exact next.1

/-- Only a name that is still free is taken. -/
theorem create_free {built : List SchemaObject} {object : SchemaObject}
    (created : create built object = .ok (built ++ [object])) : object.name ∉ built.map SchemaObject.name := by
  intro taken
  obtain ⟨other, member, named⟩ := List.mem_map.mp taken
  have found : (built.find? (fun other => other.name = object.name)).isSome :=
    List.find?_isSome.mpr ⟨other, member, by simpa using named⟩
  obtain ⟨first, here⟩ := Option.isSome_iff_exists.mp found
  cases object with
  | table name definition => cases first <;> simp [create, here] at created
  | index unique name table columns => cases first <;> simp [create, here] at created

theorem names_nodup {objects : List SchemaObject} (creates : builds [] objects) :
    (objects.map SchemaObject.name).Nodup := by
  induction objects using List.reverseRecOn with
  | nil => exact List.nodup_nil
  | append_singleton built object ih =>
    have free := create_free (create_next creates)
    rw [builds_append, Bool.and_eq_true] at creates
    rw [List.map_append, List.map_cons, List.map_nil, ← List.concat_eq_append]
    exact (ih creates.1).concat free

theorem create_present {built : List SchemaObject} {object : SchemaObject} (creates : builds [] built)
    (member : object ∈ built) : create built object = .ok built := by
  obtain ⟨first, later, split⟩ := List.append_of_mem member
  have distinct := names_nodup creates
  have found : built.find? (fun other => other.name = object.name) = some object := by
    rw [split] at distinct ⊢
    rw [List.map_append, List.map_cons, List.nodup_append] at distinct
    rw [List.find?_append, List.find?_eq_none.mpr, Option.none_or]
    · simp
    · intro other before named
      exact distinct.2.2 other.name (List.mem_map_of_mem before) object.name List.mem_cons_self (by simpa using named)
  cases object <;> simp [create, found]

/-- The next object of a migration is the first of those that are there, or the first that is not. -/
theorem create_resumes {base begun todo later : List SchemaObject} {object : SchemaObject}
    (creates : builds [] (base ++ (object :: todo ++ later))) (partly : begun <+: object :: todo) :
    ∃ begun', begun <+: object :: begun' ∧ begun' <+: todo ∧
      create (base ++ begun) object = .ok (base ++ [object] ++ begun') := by
  cases begun with
  | nil =>
    refine ⟨[], List.nil_prefix, List.nil_prefix, ?_⟩
    rw [List.append_nil, List.append_nil]
    exact create_next creates
  | cons first begun =>
    obtain ⟨same, inside⟩ := List.cons_prefix_cons.mp partly
    subst same
    refine ⟨begun, List.prefix_rfl, inside, ?_⟩
    obtain ⟨missing, whole⟩ := inside
    have split : base ++ (first :: todo ++ later) = (base ++ first :: begun) ++ (missing ++ later) := by
      simp [← whole]
    rw [split, builds_append, Bool.and_eq_true] at creates
    rw [create_present creates.1 (by simp), List.append_assoc, List.singleton_append]

/-! A run keeps the database at a stage: some migrations are recorded with all their objects,
and of the next one the first few objects may be there. -/

structure Stage (applied rest : List (Int × Text)) (db : Database) : Prop where
  recorded : db.versions.map Prod.fst = applied.map Prod.fst
  built : ∃ begun, begun <+: (rest.head?.elim [] objectsOf) ∧ db.objects = versionsTable :: schema applied ++ begun

/-- Nothing is dropped, and no row of `schema_version` is written again. -/
def Extends (db db' : Database) : Prop := db.objects <+: db'.objects ∧ db.versions <+: db'.versions

theorem Extends.refl (db : Database) : Extends db db := ⟨List.prefix_rfl, List.prefix_rfl⟩

theorem Extends.trans {first second third : Database} (left : Extends first second) (right : Extends second third) :
    Extends first third := ⟨left.1.trans right.1, left.2.trans right.2⟩

variable (cut : Cut)

/-- Carried on from a prefix of its objects, a migration gets to a longer prefix, and to all of
them unless it is cut. -/
theorem executeAll_spec {stmts : List Text} (understood : ∀ stmt ∈ stmts, (parse stmt).isSome)
    {base begun later : List SchemaObject} (creates : builds [] (base ++ (stmts.filterMap parse ++ later)))
    (partly : begun <+: stmts.filterMap parse) (session : Session) (here : session.1.objects = base ++ begun) :
    ∃ more, begun <+: more ∧ more <+: stmts.filterMap parse ∧
      (executeAll cut session stmts).1.1 = ⟨base ++ more, session.1.versions⟩ ∧
      ((executeAll cut session stmts).2 = .ok () → more = stmts.filterMap parse) ∧
      ((∀ call, cut call = none) → (executeAll cut session stmts).2 = .ok ()) := by
  induction stmts generalizing base begun session with
  | nil =>
    have begins : begun = [] := List.prefix_nil.mp partly
    subst begins
    exact ⟨[], List.prefix_rfl, partly, by rw [← here]; rfl, fun _ => rfl, fun _ => rfl⟩
  | cons stmt rest ih =>
    obtain ⟨object, parsed⟩ := Option.isSome_iff_exists.mp (understood stmt List.mem_cons_self)
    rw [List.filterMap_cons_some parsed] at creates partly ⊢
    obtain ⟨begun', longer, inside, created⟩ := create_resumes creates partly
    have executed : execute stmt session.1 = .ok (⟨base ++ [object] ++ begun', session.1.versions⟩, ()) := by
      simp only [execute, parsed, here, created, Except.map]
    rw [executeAll, attempt]
    cases chance : cut session.2 with
    | some interrupt =>
      refine ⟨begun, List.prefix_rfl, partly, by rw [← here], by simp, fun never => ?_⟩
      rw [never] at chance
      cases chance
    | none =>
      have shifted : builds [] (base ++ [object] ++ (rest.filterMap parse ++ later)) := by simpa using creates
      obtain ⟨more, further, within, result, complete, succeeds⟩ :=
        ih (fun stmt member => understood stmt (List.mem_cons_of_mem _ member)) shifted inside
          (⟨base ++ [object] ++ begun', session.1.versions⟩, session.2 + 1) rfl
      simp only [executed]
      refine ⟨object :: more, longer.trans (List.cons_prefix_cons.mpr ⟨rfl, further⟩),
        List.cons_prefix_cons.mpr ⟨rfl, within⟩, ?_, fun ok => by rw [complete ok], succeeds⟩
      rw [result, List.append_assoc, List.singleton_append]

section
variable {plan applied rest : List (Int × Text)} {db : Database}

theorem Stage.hasVersions (stage : Stage applied rest db) : hasTable db.objects schemaVersion = true := by
  obtain ⟨begun, _, built⟩ := stage.built
  simp [built, hasTable, versionsTable]

theorem Stage.rows (stage : Stage applied rest db) (version : Int) :
    db.versions.any (fun row => row.1 = version) = decide (version ∈ applied.map Prod.fst) := by
  rw [← stage.recorded, Bool.eq_iff_iff]
  simp

theorem Stage.isApplied (stage : Stage applied rest db) (version : Int) :
    isApplied version db = .ok (db, decide (version ∈ applied.map Prod.fst)) := by
  rw [Migrate.isApplied, stage.hasVersions, stage.rows]
  rfl

theorem Stage.record (stage : Stage applied rest db) {version : Int} (fresh : version ∉ applied.map Prod.fst)
    (now : Int) : record version now db = .ok (⟨db.objects, db.versions ++ [(version, now)]⟩, ()) := by
  rw [Migrate.record, stage.hasVersions, stage.rows, decide_eq_false fresh]
  rfl

/-- A migration comes to its turn recorded, or first among those that are not. -/
theorem turn (wellFormed : WellFormed plan) (split : plan = applied ++ rest) {front todo : List (Int × Text)}
    {migration : Int × Text} (release : front ++ migration :: todo <+: plan) (done : front <+: applied) :
    (migration.1 ∈ applied.map Prod.fst ∧ front ++ [migration] <+: applied) ∨
      (migration.1 ∉ applied.map Prod.fst ∧ front = applied ∧ rest.head? = some migration) := by
  obtain ⟨beyond, rfl⟩ := done
  rw [split, List.append_assoc, List.prefix_append_right_inj] at release
  cases beyond with
  | nil =>
    rw [List.append_nil] at split ⊢
    refine .inr ⟨fun recorded => ?_, rfl, ?_⟩
    · obtain ⟨other, before, same⟩ := List.mem_map.mp recorded
      obtain ⟨after, whole⟩ := release
      have distinct := wellFormed.versions
      rw [split, ← List.nil_append rest, ← whole, List.map_append, List.nodup_append] at distinct
      exact distinct.2.2 other.1 (List.mem_map_of_mem before) migration.1 (by simp) same
    · obtain ⟨after, whole⟩ := release
      rw [← List.nil_append rest, ← whole]
      rfl
  | cons first beyond =>
    obtain ⟨same, _⟩ := List.cons_prefix_cons.mp release
    subst same
    exact .inl ⟨by simp, by simp⟩

/-- The statements of the next migration leave the database at its stage; once they are all done,
the version may be recorded. -/
theorem Stage.executeAll (session : Session) {migration : Int × Text} (wellFormed : WellFormed plan)
    (split : plan = applied ++ migration :: rest) (stage : Stage applied (migration :: rest) session.1) :
    Stage applied (migration :: rest) (executeAll cut session (splitStatements migration.2)).1.1 ∧
      Extends session.1 (executeAll cut session (splitStatements migration.2)).1.1 ∧
      ((executeAll cut session (splitStatements migration.2)).2 = .ok () → ∀ now : Int,
        Stage (applied ++ [migration]) rest
          ⟨(executeAll cut session (splitStatements migration.2)).1.1.objects,
            (executeAll cut session (splitStatements migration.2)).1.1.versions ++ [(migration.1, now)]⟩) ∧
      ((∀ call, cut call = none) → (executeAll cut session (splitStatements migration.2)).2 = .ok ()) := by
  obtain ⟨begun, partly, built⟩ := stage.built
  have creates := wellFormed.creates
  rw [split, schema, List.flatMap_append, List.flatMap_cons, ← List.cons_append] at creates
  obtain ⟨more, further, within, result, complete, succeeds⟩ :=
    executeAll_spec cut (wellFormed.understood migration (by simp [split])) creates partly session built
  rw [result]
  refine ⟨⟨stage.recorded, more, within, rfl⟩, ⟨?_, List.prefix_rfl⟩,
    fun ok now => ⟨?_, [], List.nil_prefix, ?_⟩, succeeds⟩
  · rw [built]
    exact (List.prefix_append_right_inj _).mpr further
  · rw [List.map_append, List.map_append, stage.recorded]
    rfl
  · rw [complete ok, List.append_nil, schema, List.flatMap_append, List.flatMap_singleton]
    rfl

/-- A run brings the database from one stage to a later one, and past its whole release unless
it is cut. -/
theorem applyAll_spec (wellFormed : WellFormed plan) (now : Int) {todo : List (Int × Text)}
    (front : List (Int × Text)) (session : Session)
    (split : plan = applied ++ rest) (release : front ++ todo <+: plan) (done : front <+: applied)
    (stage : Stage applied rest session.1) :
    ∃ applied' rest', plan = applied' ++ rest' ∧ Stage applied' rest' (applyAll cut now session todo).1.1 ∧
      Extends session.1 (applyAll cut now session todo).1.1 ∧
      ((applyAll cut now session todo).2 = .ok () → front ++ todo <+: applied') ∧
      ((∀ call, cut call = none) → (applyAll cut now session todo).2 = .ok ()) := by
  induction todo generalizing front applied rest session with
  | nil => exact ⟨applied, rest, split, stage, .refl _, fun _ => by rwa [List.append_nil], fun _ => rfl⟩
  | cons migration todo ih =>
    obtain ⟨version, sql⟩ := migration
    have shifted : front ++ [(version, sql)] ++ todo = front ++ (version, sql) :: todo := by simp
    rw [applyAll, attempt]
    cases chance : cut session.2 with
    | some interrupt =>
      refine ⟨applied, rest, split, stage, .refl _, by simp, fun never => ?_⟩
      rw [never] at chance
      cases chance
    | none =>
      rcases turn wellFormed split release done with ⟨recorded, further⟩ | ⟨fresh, rfl, next⟩
      · simp only [stage.isApplied, recorded, decide_true]
        obtain ⟨applied', rest', split', stage', extends', complete, succeeds⟩ :=
          ih (front ++ [(version, sql)]) (session.1, session.2 + 1) split (by rwa [shifted]) further stage
        exact ⟨applied', rest', split', stage', extends', fun ok => shifted ▸ complete ok, succeeds⟩
      · obtain ⟨rest, rfl⟩ : ∃ later, rest = (version, sql) :: later := by
          cases rest with
          | nil => cases next
          | cons first later => exact ⟨later, by rw [Option.some.inj next]⟩
        obtain ⟨stage', extends', finished, succeeds⟩ :=
          Stage.executeAll cut (session.1, session.2 + 1) wellFormed split stage
        simp only [stage.isApplied, fresh, decide_false]
        generalize Migrate.executeAll cut (session.1, session.2 + 1) (splitStatements sql) = executed at *
        obtain ⟨session', outcome⟩ := executed
        cases outcome with
        | error e =>
          exact ⟨front, (version, sql) :: rest, split, stage', extends', by simp, fun never => nomatch succeeds never⟩
        | ok value =>
          simp only [attempt]
          cases chance' : cut session'.2 with
          | some interrupt =>
            refine ⟨front, (version, sql) :: rest, split, stage', extends', by simp, fun never => ?_⟩
            rw [never] at chance'
            cases chance'
          | none =>
            simp only [stage'.record fresh]
            have row : Extends session'.1 ⟨session'.1.objects, session'.1.versions ++ [(version, now)]⟩ :=
              ⟨List.prefix_rfl, List.prefix_append _ _⟩
            obtain ⟨applied', rest', split', stage'', extends'', complete, succeeds'⟩ :=
              ih (front ++ [(version, sql)])
                (⟨session'.1.objects, session'.1.versions ++ [(version, now)]⟩, session'.2 + 1)
                (by rw [split]; simp) (by rwa [shifted]) List.prefix_rfl (finished rfl now)
            exact ⟨applied', rest', split', stage'', (extends'.trans row).trans extends'',
              fun ok => shifted ▸ complete ok, succeeds'⟩

/-- A run past recorded migrations only reads. -/
theorem applyAll_recorded {now : Int} {todo : List (Int × Text)} (session : Session)
    (stage : Stage applied rest session.1)
    (recorded : ∀ migration ∈ todo, migration.1 ∈ applied.map Prod.fst) :
    (applyAll cut now session todo).1.1 = session.1 := by
  induction todo generalizing session with
  | nil => rfl
  | cons migration todo ih =>
    rw [applyAll, attempt]
    cases cut session.2 with
    | some interrupt => rfl
    | none =>
      simp only [stage.isApplied, recorded migration List.mem_cons_self, decide_true]
      exact ih (session.1, session.2 + 1) stage
        (fun other member => recorded other (List.mem_cons_of_mem _ member))

/-! Databases that releases have worked on. A later release has the files of an earlier one, and
possibly more. -/

/-- What any runs of any releases leave of a new database. -/
inductive Reached (plan : List (Int × Text)) : Database → Prop
  | fresh : Reached plan .empty
  | run {db : Database} {release : List (Int × Text)} (reached : Reached plan db) (earlier : release <+: plan)
      (cut : Cut) (now : Int) : Reached plan (run release cut now db).1

def Staged (plan : List (Int × Text)) (db : Database) : Prop :=
  db = .empty ∨ ∃ applied rest, plan = applied ++ rest ∧ Stage applied rest db

theorem execute_createVersions (db : Database) :
    execute createVersions db = (create db.objects versionsTable).map (fun objects => ({ db with objects }, ())) := by
  have parsed : parse createVersions = some versionsTable := by decide +kernel
  rw [execute, parsed]

theorem Stage.opens (stage : Stage applied rest db) : execute createVersions db = .ok (db, ()) := by
  obtain ⟨begun, _, built⟩ := stage.built
  have there : create db.objects versionsTable = .ok db.objects := by
    simp [create, built, versionsTable, SchemaObject.name]
  rw [execute_createVersions, there]
  rfl

/-- The first statement of a run. -/
theorem Staged.opens (staged : Staged plan db) :
    ∃ applied rest db', plan = applied ++ rest ∧ Stage applied rest db' ∧ Extends db db' ∧
      execute createVersions db = .ok (db', ()) := by
  rcases staged with rfl | ⟨applied, rest, split, stage⟩
  · refine ⟨[], plan, ⟨[versionsTable], []⟩, rfl, ⟨rfl, [], List.nil_prefix, rfl⟩,
      ⟨List.nil_prefix, List.nil_prefix⟩, ?_⟩
    rw [execute_createVersions]
    rfl
  · exact ⟨applied, rest, db, split, stage, .refl db, stage.opens⟩

theorem run_spec (wellFormed : WellFormed plan) {release : List (Int × Text)} (earlier : release <+: plan)
    (staged : Staged plan db) (now : Int) :
    Staged plan (run release cut now db).1 ∧ Extends db (run release cut now db).1 ∧
      ((run release cut now db).2 = .ok () → ∃ applied rest, plan = applied ++ rest ∧ release <+: applied ∧
        Stage applied rest (run release cut now db).1) ∧
      ((∀ call, cut call = none) → (run release cut now db).2 = .ok ()) := by
  rw [run, attempt]
  cases chance : cut 0 with
  | some interrupt =>
    refine ⟨staged, .refl db, by simp, fun never => ?_⟩
    rw [never] at chance
    cases chance
  | none =>
    obtain ⟨applied, rest, db', split, stage, extends', opened⟩ := staged.opens
    simp only [opened]
    obtain ⟨applied', rest', split', stage', extends'', complete, succeeds⟩ :=
      applyAll_spec cut wellFormed now [] (db', 1) split earlier List.nil_prefix stage
    exact ⟨.inr ⟨applied', rest', split', stage'⟩, extends'.trans extends'',
      fun ok => ⟨applied', rest', split', complete ok, stage'⟩, succeeds⟩

theorem Reached.staged (wellFormed : WellFormed plan) (reached : Reached plan db) : Staged plan db := by
  induction reached with
  | fresh => exact .inl rfl
  | run reached earlier cut now ih => exact (run_spec cut wellFormed earlier ih now).1

theorem Stage.whole (stage : Stage plan [] db) :
    db.objects = versionsTable :: schema plan ∧ db.versions.map Prod.fst = plan.map Prod.fst := by
  obtain ⟨begun, partly, built⟩ := stage.built
  rw [List.prefix_nil.mp partly, List.append_nil] at built
  exact ⟨built, stage.recorded⟩

/-- A release that is recorded whole has its whole schema, first and in its order. -/
theorem Stage.covers (wellFormed : WellFormed plan) (split : plan = applied ++ rest) (stage : Stage applied rest db)
    {release : List (Int × Text)} (past : release <+: applied) :
    versionsTable :: schema release <+: db.objects ∧ release.map Prod.fst <+: db.versions.map Prod.fst ∧
      (db.versions.map Prod.fst).Nodup := by
  obtain ⟨later, rfl⟩ := past
  obtain ⟨begun, _, built⟩ := stage.built
  refine ⟨⟨schema later ++ begun, ?_⟩, ?_, ?_⟩
  · rw [built, schema, schema, schema, List.flatMap_append, List.cons_append, List.cons_append, List.append_assoc]
  · rw [stage.recorded, List.map_append]
    exact List.prefix_append _ _
  · have distinct := wellFormed.versions
    rw [split, List.map_append, List.nodup_append] at distinct
    rw [stage.recorded]
    exact distinct.1

theorem Stage.complete (wellFormed : WellFormed plan) (split : plan = applied ++ rest) (stage : Stage applied rest db)
    {migration : Int × Text} (member : migration ∈ plan) (recorded : migration.1 ∈ db.versions.map Prod.fst)
    {object : SchemaObject} (mine : object ∈ objectsOf migration) : object ∈ db.objects := by
  have before : migration ∈ applied := by
    by_contra absent
    have later : migration ∈ rest := by
      rw [split, List.mem_append] at member
      exact member.resolve_left absent
    have distinct := wellFormed.versions
    rw [stage.recorded] at recorded
    rw [split, List.map_append, List.nodup_append] at distinct
    exact distinct.2.2 migration.1 recorded migration.1 (List.mem_map_of_mem later) rfl
  obtain ⟨begun, _, built⟩ := stage.built
  have inside : object ∈ schema applied := List.mem_flatMap.mpr ⟨migration, before, mine⟩
  simp [built, inside]

theorem Stage.run_recorded (stage : Stage applied rest db) {release : List (Int × Text)} (past : release <+: applied)
    (now : Int) : (run release cut now db).1 = db := by
  rw [run, attempt]
  cases cut 0 with
  | some interrupt => rfl
  | none =>
    simp only [stage.opens]
    exact applyAll_recorded cut (db, 1) stage
      (fun migration member => List.mem_map_of_mem (past.subset member))

/-- However the runs before it ended, and of whichever releases they were: a run that is left
alone succeeds; a run that succeeds leaves the whole schema of its release, and each of its
migrations recorded once, and of the last release nothing else; no run takes anything away;
what is recorded is complete; and after a run that succeeded, runs of the same or an earlier
release change nothing. -/
theorem migrations_resume (wellFormed : WellFormed plan) (reached : Reached plan db) :
    (∀ release now, release <+: plan → (run release (fun _ => none) now db).2 = .ok ()) ∧
    (∀ release cut now, release <+: plan → (run release cut now db).2 = .ok () →
      versionsTable :: schema release <+: (run release cut now db).1.objects ∧
      release.map Prod.fst <+: (run release cut now db).1.versions.map Prod.fst ∧
      ((run release cut now db).1.versions.map Prod.fst).Nodup) ∧
    (∀ cut now, (run plan cut now db).2 = .ok () →
      (run plan cut now db).1.objects = versionsTable :: schema plan ∧
      (run plan cut now db).1.versions.map Prod.fst = plan.map Prod.fst) ∧
    (∀ release cut now, release <+: plan → Extends db (run release cut now db).1) ∧
    (∀ migration ∈ plan, migration.1 ∈ db.versions.map Prod.fst → ∀ object ∈ objectsOf migration, object ∈ db.objects) ∧
    (∀ release cut now, release <+: plan → (run release cut now db).2 = .ok () →
      ∀ earlier cut' now', earlier <+: release →
        (run earlier cut' now' (run release cut now db).1).1 = (run release cut now db).1) := by
  have staged := reached.staged wellFormed
  refine ⟨fun release now earlier => (run_spec _ wellFormed earlier staged now).2.2.2 (fun _ => rfl),
    fun release cut now earlier ok => ?_, fun cut now ok => ?_,
    fun release cut now earlier => (run_spec cut wellFormed earlier staged now).2.1,
    fun migration member recorded object mine => ?_, fun release cut now prefix_ ok earlier cut' now' past => ?_⟩
  · obtain ⟨applied, rest, split, past, stage⟩ := (run_spec cut wellFormed earlier staged now).2.2.1 ok
    exact stage.covers wellFormed split past
  · obtain ⟨applied, rest, split, beyond, stage⟩ := (run_spec cut wellFormed List.prefix_rfl staged now).2.2.1 ok
    have same : plan = applied := beyond.eq_of_length_le (by rw [split]; simp)
    subst same
    have exhausted : rest = [] := by simpa using split
    subst exhausted
    exact stage.whole
  · rcases staged with rfl | ⟨applied, rest, split, stage⟩
    · cases recorded
    · exact stage.complete wellFormed split member recorded mine
  · obtain ⟨applied, rest, _, beyond, stage⟩ := (run_spec cut wellFormed prefix_ staged now).2.2.1 ok
    exact stage.run_recorded cut' (past.trans beyond) now'

end

theorem migrations_build : (∀ migration ∈ migrations, ∀ stmt ∈ splitStatements migration.2, (parse stmt).isSome) ∧
    builds [] (versionsTable :: schema migrations) := by
  -- the characters of the files are read off here, which evaluation is slow at
  simp only [migrations, sqlText, initSql, peerTrustSql, List.map_cons, List.map_nil]
  repeat rw [String.toList_ofList]
  decide +kernel

theorem migrations_wellFormed : WellFormed migrations :=
  ⟨by decide, migrations_build.1, migrations_build.2⟩

/-- The files of the repository, on a database that was cut off at its fifth call. -/
theorem migrations_resume_sample :
    Reached migrations (run migrations (fun call => if call = 4 then some .stopped else none) 0 .empty).1 ∧
      (run migrations (fun _ => none) 7
        (run migrations (fun call => if call = 4 then some .stopped else none) 0 .empty).1).2 = .ok () :=
  have reached := Reached.run (Reached.fresh : Reached migrations .empty) List.prefix_rfl
    (fun call => if call = 4 then some .stopped else none) 0
  ⟨reached, (migrations_resume migrations_wellFormed reached).1 migrations 7 List.prefix_rfl⟩

end Buh.Node.Migrate
