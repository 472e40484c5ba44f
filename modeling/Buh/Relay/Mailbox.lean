import Buh.Crypto.Primitives
import Buh.Library.RowTable

/-! The relay: `mailbox.rs` over the SQL statements of `turso_mailbox.rs`, on the schema
of `0001_init.sql`. One request is served at a time and takes one reading of the clock.
Instants are milliseconds since the epoch. -/

namespace Buh.Relay.Mailbox
open Buh.Library.RowTable Buh.Wire.Codec Buh.Crypto.Primitives

def i64Min : Int := -2 ^ 63
def i64Max : Int := 2 ^ 63 - 1

/-- The saturation of `i64::saturating_add` and `i64::saturating_mul`. -/
def saturate (value : Int) : Int := if value < i64Min then i64Min else if i64Max < value then i64Max else value

/-- What the relay takes from `chrono`, `uuid` and the database driver. -/
structure Platform where
  /-- Whether `DateTime::from_timestamp_millis` accepts the instant. -/
  representable : Int → Bool
  /-- The calendar ends long before the integers do. -/
  bounded : ∀ {ms}, representable ms = true → -2 ^ 62 ≤ ms ∧ ms < 2 ^ 62
  EnvelopeId : Type
  idEq : DecidableEq EnvelopeId
  idText : EnvelopeId → String
  /-- `FromStr`, with the text of its error. -/
  parseId : String → Except String EnvelopeId
  parse_text : ∀ id, parseId (idText id) = .ok id
  /-- The driver's text when a unique index refuses a row. -/
  conflictText : String

instance (P : Platform) : DecidableEq P.EnvelopeId := P.idEq

inductive EntityError where
  | invalidPayload (what : String)
  deriving DecidableEq

inductive CoreError where
  | validation (error : EntityError)
  | repo (text : String)
  deriving DecidableEq

/-- An error a function returns, or a panic. -/
inductive Failure where
  | error (error : CoreError)
  | panic
  deriving DecidableEq

structure CoreConfig where
  defaultTtlSeconds : Int
  maxTtlSeconds : Int
  maxPayloadBytes : Nat
  maxPullLimit : Int

structure StoredEnvelope (P : Platform) where
  envelopeId : P.EnvelopeId
  payload : Bytes
  receivedAt : Int
  expiresAt : Int

/-- The columns of `envelopes` besides the rowid. -/
structure EnvelopeRow where
  queueId : Bytes
  envelopeId : String
  payload : Bytes
  receivedAt : Int
  expiresAt : Int
  deliveredAt : Option Int
  deriving DecidableEq

/-- The columns of `delivery_receipts` besides the rowid. -/
structure ReceiptRow where
  queueId : Bytes
  envelopeId : String
  pulledAt : Int
  deriving DecidableEq

structure Store where
  envelopes : Table EnvelopeRow
  receipts : Table ReceiptRow

def Store.empty : Store := ⟨.empty, .empty⟩

section
variable (P : Platform)

def msToDt (ms : Int) : Except Failure Int :=
  if P.representable ms then .ok ms
  else .error (.error (.repo ("timestamp out of range: " ++ toString ms)))

def rowToEnvelope (row : EnvelopeRow) : Except Failure (StoredEnvelope P) := do
  let envelopeId ← match P.parseId row.envelopeId with
    | .ok id => .ok id
    | .error e => .error (.error (.repo ("bad envelope_id: " ++ e)))
  let receivedAt ← msToDt P row.receivedAt
  let expiresAt ← msToDt P row.expiresAt
  return { envelopeId, payload := row.payload, receivedAt, expiresAt }

namespace Repo

/-- The statement of `push`; `id` is the identifier it draws. -/
def push (store : Store) (queueId : Bytes32) (payload : Bytes) (ttlSeconds : Int) (id : P.EnvelopeId)
    (now : Int) : Store × Except Failure P.EnvelopeId :=
  let expires := saturate (now + saturate (ttlSeconds * 1000))
  let row : EnvelopeRow := ⟨queueId.toList, P.idText id, payload, now, expires, none⟩
  if store.envelopes.contents.any (fun other => other.queueId = row.queueId ∧ other.envelopeId = row.envelopeId) then
    (store, .error (.error (.repo P.conflictText)))
  else ({ store with envelopes := store.envelopes.insert row }, .ok id)

/-- A row that a pull of the queue at `now` selects. -/
def isLive (queueId : Bytes32) (now : Int) (row : EnvelopeRow) : Bool :=
  row.queueId = queueId.toList ∧ row.deliveredAt = none ∧ now < row.expiresAt

def pull (store : Store) (queueId : Bytes32) (limit : Int) (now : Int) :
    Except Failure (List (StoredEnvelope P)) :=
  (store.envelopes.select (isLive queueId now) EnvelopeRow.receivedAt limit).mapM (rowToEnvelope P)

def isUnacked (queueId : Bytes32) (id : P.EnvelopeId) (row : EnvelopeRow) : Bool :=
  row.queueId = queueId.toList ∧ row.envelopeId = P.idText id ∧ row.deliveredAt = none

def ack (store : Store) (queueId : Bytes32) (id : P.EnvelopeId) (now : Int) : Store × Except Failure Bool :=
  let (envelopes, affected) := store.envelopes.update (isUnacked P queueId id)
    (fun row => { row with deliveredAt := some now })
  if affected = 0 then ({ store with envelopes }, .ok false)
  else
    ({ envelopes, receipts := store.receipts.insert ⟨queueId.toList, P.idText id, now⟩ }, .ok true)

def expire (store : Store) (now : Int) : Store × Except Failure Nat :=
  let (envelopes, removed) := store.envelopes.delete (fun row => row.expiresAt ≤ now)
  ({ store with envelopes }, .ok removed)

end Repo

def clampTtl (config : CoreConfig) (requested : Int) : Int :=
  if requested ≤ 0 then config.defaultTtlSeconds else min requested config.maxTtlSeconds

/-- `i64::clamp`, which panics when the bounds are the wrong way round. -/
def clamp (value low high : Int) : Except Failure Int :=
  if high < low then .error .panic else .ok (max low (min value high))

def push (config : CoreConfig) (store : Store) (queueId : Bytes32) (payload : Bytes) (ttlSeconds : Int)
    (id : P.EnvelopeId) (now : Int) : Store × Except Failure P.EnvelopeId :=
  if payload = [] then (store, .error (.error (.validation (.invalidPayload "empty"))))
  else if config.maxPayloadBytes < payload.length then
    (store, .error (.error (.validation (.invalidPayload "exceeds size limit"))))
  else Repo.push P store queueId payload (clampTtl config ttlSeconds) id now

def pull (config : CoreConfig) (store : Store) (queueId : Bytes32) (limit : Int) (now : Int) :
    Except Failure (List (StoredEnvelope P)) := do
  let limit ← clamp limit 1 config.maxPullLimit
  Repo.pull P store queueId limit now

/-- A request with what it draws. -/
inductive Request where
  | push (queueId : Bytes32) (payload : Bytes) (ttlSeconds : Int) (id : P.EnvelopeId)
  | pull (queueId : Bytes32) (limit : Int)
  | ack (queueId : Bytes32) (id : P.EnvelopeId)
  | sweep

inductive Response where
  | pushed (answer : Except Failure P.EnvelopeId)
  | pulled (answer : Except Failure (List (StoredEnvelope P)))
  | acked (answer : Except Failure Bool)
  | swept (answer : Except Failure Nat)

/-- A request at the clock reading it is served with. -/
structure Event where
  at_ : Int
  request : Request P

/-- A served request. -/
structure Served where
  event : Event P
  response : Response P

variable {P}

def serve (config : CoreConfig) (store : Store) (event : Event P) : Store × Response P :=
  match event.request with
  | .push queueId payload ttlSeconds id =>
    let (store, answer) := push P config store queueId payload ttlSeconds id event.at_
    (store, .pushed answer)
  | .pull queueId limit => (store, .pulled (pull P config store queueId limit event.at_))
  | .ack queueId id =>
    let (store, answer) := Repo.ack P store queueId id event.at_
    (store, .acked answer)
  | .sweep =>
    let (store, answer) := Repo.expire store event.at_
    (store, .swept answer)

def advance (config : CoreConfig) (done : Store × List (Served P)) (event : Event P) :
    Store × List (Served P) :=
  let (store, response) := serve config done.1 event
  (store, done.2 ++ [⟨event, response⟩])

/-- The store and the log after a history. -/
def history (config : CoreConfig) (events : List (Event P)) : Store × List (Served P) :=
  events.foldl (advance config) (.empty, [])

end

end Buh.Relay.Mailbox
