import Buh.Library.Hex
import Buh.Library.PaddedBase64
import Buh.Relay.Sweeping

/-! The relay as its clients meet it: the handlers of `handlers.rs` with the texts of
`queue.rs`, `ids.rs` and `b64.rs`, the answers of `error.rs`, and the refusals of the
extractors that run before a handler. -/

namespace Buh.Relay.Http
open Buh.Library Buh.Library.RowTable Buh.Wire.Codec Buh.Crypto.Primitives Buh.Relay.Mailbox Buh.Relay.Refinement
  Buh.Relay.Sweeping

abbrev Text := List Char

inductive EntityError where
  | invalidQueueId (text : String)
  | invalidTtl (text : String)
  | invalidPayload (text : String)
  | invalidBase64 (text : String)
  | empty (field : String)

def EntityError.display : EntityError → String
  | .invalidQueueId text => "invalid queue id: " ++ text
  | .invalidTtl text => "invalid ttl: " ++ text
  | .invalidPayload text => "invalid payload: " ++ text
  | .invalidBase64 text => "invalid base64: " ++ text
  | .empty field => "field must not be empty: " ++ field

inductive CoreError where
  | notFound
  | conflict (text : String)
  | validation (error : EntityError)
  | repo (text : String)
  | storage (text : String)
  | unimplemented (text : String)
  | internal (text : String)

def CoreError.display : CoreError → String
  | .notFound => "not found"
  | .conflict text => "conflict: " ++ text
  | .validation error => error.display
  | .repo text => "repository error: " ++ text
  | .storage text => "storage error: " ++ text
  | .unimplemented text => "not implemented: " ++ text
  | .internal text => "internal error: " ++ text

/-- The errors of `mailbox.rs` are some of these. -/
def ofMailbox : Mailbox.CoreError → CoreError
  | .validation (.invalidPayload what) => .validation (.invalidPayload what)
  | .repo text => .repo text

/-- A `StoredEnvelope` in JSON. -/
structure EnvelopeJson where
  envelopeId : String
  payload : Text
  receivedAt : String
  expiresAt : String
  deriving DecidableEq

/-- What a response carries; `rejection` is a text of axum's. -/
inductive Body where
  | envelopeAccepted (envelopeId : String)
  | pullResponse (envelopes : List EnvelopeJson)
  | ackAccepted (acknowledged : Bool)
  | error (message : String)
  | rejection
  deriving DecidableEq

structure Response where
  status : Nat
  body : Body
  deriving DecidableEq

/-- `ApiError::into_response` -/
def intoResponse (e : CoreError) : Response :=
  match e with
  | .notFound => ⟨404, .error e.display⟩
  | .validation _ => ⟨400, .error e.display⟩
  | .conflict _ => ⟨409, .error e.display⟩
  | .unimplemented _ => ⟨501, .error e.display⟩
  | .repo _ | .storage _ | .internal _ => ⟨500, .error "internal error"⟩

/-- The answer to a failed call. A handler that panics answers nothing. -/
def failed : Failure → Option Response
  | .error e => some (intoResponse (ofMailbox e))
  | .panic => none

/-- `{:?}` of a byte taken as a character. -/
def debugChar (c : UInt8) : String :=
  let inner : List Char :=
    if c = 0 then ['\\', '0']
    else if c = 0x09 then ['\\', 't']
    else if c = 0x0a then ['\\', 'n']
    else if c = 0x0d then ['\\', 'r']
    else if c = 0x27 then ['\\', '\'']
    else if c = 0x5c then ['\\', '\\']
    else if (0x20 ≤ c ∧ c ≤ 0x7e) ∨ (0xa1 ≤ c ∧ c ≠ 0xad) then [Char.ofNat c.toNat]
    else ['\\', 'u', '\x7b'] ++ Nat.toDigits 16 c.toNat ++ ['\x7d']
  String.ofList (['\''] ++ inner ++ ['\''])

def displayHexError : Hex.FromHexError → String
  | .invalidHexCharacter c index => "Invalid character " ++ debugChar c ++ " at position " ++ toString index
  | .oddLength => "Odd number of digits"

/-- `QueueId::from_slice` -/
def queueFromSlice (bytes : Bytes) : Except EntityError Bytes32 :=
  match toArr 32 bytes with
  | some arr => .ok arr
  | none => .error (.invalidQueueId ("expected 32 bytes, got " ++ toString bytes.length))

/-- `QueueId::from_str` -/
def queueFromStr (text : Text) : Except EntityError Bytes32 :=
  match Hex.ofText text with
  | .error e => .error (.invalidQueueId ("not valid hex: " ++ displayHexError e))
  | .ok bytes => queueFromSlice bytes

/-- `PushEnvelope` as it stands in JSON. -/
structure PushEnvelope where
  payload : Text
  ttlSeconds : Int

/-- Text that is no JSON, and JSON that is no `PushEnvelope`. -/
inductive JsonError where
  | malformed
  | mismatched

/-- The body of a POST: whether its content type says JSON, its length in bytes, and what
the text says. -/
structure Posted where
  isJson : Bool
  size : Nat
  json : Except JsonError PushEnvelope

/-- The limit of axum for a body, which `router.rs` keeps for the JSON routes. -/
def defaultBodyLimit : Nat := 2097152

/-- The extractor `Json<PushEnvelope>`: the payload is decoded while the text is read. -/
def extractJson (body : Posted) : Except Response (Bytes × Int) :=
  if body.isJson = false then .error ⟨415, .rejection⟩
  else if defaultBodyLimit < body.size then .error ⟨413, .rejection⟩
  else
    match body.json with
    | .error .malformed => .error ⟨400, .rejection⟩
    | .error .mismatched => .error ⟨422, .rejection⟩
    | .ok envelope =>
      match PaddedBase64.decode envelope.payload with
      | none => .error ⟨422, .rejection⟩
      | some payload => .ok (payload, envelope.ttlSeconds)

structure PullParams where
  limit : Option Int
  wait : Option Nat

section
variable (P : Platform) (stamp : Int → String)

def envelopeJson (envelope : StoredEnvelope P) : EnvelopeJson :=
  ⟨P.idText envelope.envelopeId, PaddedBase64.encode envelope.payload, stamp envelope.receivedAt,
    stamp envelope.expiresAt⟩

def push (config : CoreConfig) (store : Store) (queueHex : Text) (body : Posted) (id : P.EnvelopeId)
    (now : Int) : Store × Option Response :=
  match extractJson body with
  | .error refused => (store, some refused)
  | .ok (payload, ttlSeconds) =>
    match queueFromStr queueHex with
    | .error e => (store, some (intoResponse (.validation e)))
    | .ok queueId =>
      match Mailbox.push P config store queueId payload ttlSeconds id now with
      | (store, .ok id) => (store, some ⟨200, .envelopeAccepted (P.idText id)⟩)
      | (store, .error failure) => (store, failed failure)

def pulled : Except Failure (List (StoredEnvelope P)) → Option Response
  | .ok envelopes => some ⟨200, .pullResponse (envelopes.map (envelopeJson P stamp))⟩
  | .error failure => failed failure

/-- A query string that is no `PullParams` is refused before the handler. The store and the
clock are those of the first query, and after the wait, unless it ran out, those of the
second. -/
def pull (config : CoreConfig) (first : Store × Int) (queueHex : Text) (query : Option PullParams)
    (woken : Option (Store × Int)) : Option Response :=
  match query with
  | none => some ⟨400, .rejection⟩
  | some params =>
    match queueFromStr queueHex with
    | .error e => some (intoResponse (.validation e))
    | .ok queueId =>
      let limit := params.limit.getD config.maxPullLimit
      let result := Mailbox.pull P config first.1 queueId limit first.2
      match result, params.wait, woken with
      | .ok [], some (_ + 1), some (store, now) => pulled P stamp (Mailbox.pull P config store queueId limit now)
      | result, _, _ => pulled P stamp result

def ack (store : Store) (queueHex : Text) (envelopeId : String) (now : Int) : Store × Option Response :=
  match queueFromStr queueHex with
  | .error e => (store, some (intoResponse (.validation e)))
  | .ok queueId =>
    match P.parseId envelopeId with
    | .error _ => (store, some (intoResponse (.validation (.empty "envelope_id"))))
    | .ok id =>
      match Repo.ack P store queueId id now with
      | (store, .ok acknowledged) => (store, some ⟨200, .ackAccepted acknowledged⟩)
      | (store, .error failure) => (store, failed failure)

/-- A request that may change the store, with what it draws. -/
inductive Request where
  | push (queueHex : Text) (body : Posted) (id : P.EnvelopeId)
  | ack (queueHex : Text) (envelopeId : String)

/-- What the relay does with its store at an instant: serve a request, or sweep. -/
inductive Arrival where
  | request (at_ : Int) (request : Request P)
  | sweep (at_ : Int)

variable {P}

def handle (config : CoreConfig) (store : Store) (now : Int) : Request P → Store × Option Response
  | .push queueHex body id => push P config store queueHex body id now
  | .ack queueHex envelopeId => ack P store queueHex envelopeId now

def arrive (config : CoreConfig) (store : Store) : Arrival P → Store
  | .request at_ request => (handle config store at_ request).1
  | .sweep at_ => (Repo.expire store at_).1

def after (config : CoreConfig) (arrivals : List (Arrival P)) : Store := arrivals.foldl (arrive config) .empty

/-- The request of the store that a request of a client comes to, when its texts are well
formed. -/
def meaning : Request P → Option (Mailbox.Request P)
  | .push queueHex body id =>
    match extractJson body, queueFromStr queueHex with
    | .ok (payload, ttlSeconds), .ok queueId => some (.push queueId payload ttlSeconds id)
    | _, _ => none
  | .ack queueHex envelopeId =>
    match queueFromStr queueHex, P.parseId envelopeId with
    | .ok queueId, .ok id => some (.ack queueId id)
    | _, _ => none

def event : Arrival P → Option (Event P)
  | .request at_ request => (meaning request).map (fun meant => ⟨at_, meant⟩)
  | .sweep at_ => some ⟨at_, .sweep⟩

def events (arrivals : List (Arrival P)) : List (Event P) := arrivals.filterMap event

end

theorem queueFromSlice_eq_ok {bytes : Bytes} {q : Bytes32} : queueFromSlice bytes = .ok q ↔ bytes = q.toList := by
  unfold queueFromSlice toArr
  by_cases size : bytes.length = 32
  · rw [dif_pos size]
    constructor
    · rintro ⟨⟩
      rfl
    · rintro rfl
      rfl
  · rw [dif_neg size]
    constructor
    · rintro ⟨⟩
    · rintro rfl
      exact absurd q.toList_length size

/-- The texts of a queue: its hex digits, in either case. -/
theorem queueFromStr_eq_ok {text : Text} {q : Bytes32} :
    queueFromStr text = .ok q ↔ text.map Char.toLower = Hex.encode q.toList := by
  rw [← Hex.ofText_eq_ok]
  unfold queueFromStr
  cases read : Hex.ofText text with
  | error e => simp
  | ok bytes => simp [queueFromSlice_eq_ok]

/-- A body that says to push `payload`. -/
def Says (body : Posted) (payload : Bytes) (ttlSeconds : Int) : Prop :=
  body.isJson = true ∧ body.size ≤ defaultBodyLimit ∧ body.json = .ok ⟨PaddedBase64.encode payload, ttlSeconds⟩

theorem extractJson_eq_ok {body : Posted} {payload : Bytes} {ttlSeconds : Int} :
    extractJson body = .ok (payload, ttlSeconds) ↔ Says body payload ttlSeconds := by
  obtain ⟨isJson, size, json⟩ := body
  unfold extractJson Says
  dsimp only
  by_cases typed : isJson = false
  · simp [typed]
  by_cases large : defaultBodyLimit < size
  · simp [typed, large]
  rw [if_neg typed, if_neg large]
  rw [Bool.not_eq_false] at typed
  simp only [typed, not_lt.mp large, true_and]
  rcases json with (_ | _) | ⟨text, ttl⟩
  · simp
  · simp
  · dsimp only
    rw [Except.ok.injEq, PushEnvelope.mk.injEq, ← PaddedBase64.decode_eq_some]
    cases PaddedBase64.decode text <;> simp

/-- The statuses with which a request is refused. -/
def refusals : List Nat := [400, 413, 415, 422]

theorem extractJson_error {body : Posted} {refused : Response} (answer : extractJson body = .error refused) :
    refused.status ∈ refusals := by
  unfold extractJson at answer
  split_ifs at answer
  · cases answer
    decide
  · cases answer
    decide
  · split at answer
    · cases answer
      decide
    · cases answer
      decide
    · split at answer
      · cases answer
        decide
      · cases answer

section
variable {P : Platform} {config : CoreConfig}

theorem handle_meaningless {store : Store} {now : Int} {request : Request P} (meant : meaning request = none) :
    (handle config store now request).1 = store ∧
      ∃ response, (handle config store now request).2 = some response ∧ response.status ∈ refusals := by
  have invalid (e : EntityError) : (intoResponse (.validation e)).status ∈ refusals := List.mem_cons_self
  cases request with
  | push queueHex body id =>
    simp only [handle, push, meaning] at meant ⊢
    cases extracted : extractJson body with
    | error refused => exact ⟨rfl, _, rfl, extractJson_error extracted⟩
    | ok said =>
      cases queue : queueFromStr queueHex with
      | error e => exact ⟨rfl, _, rfl, invalid e⟩
      | ok queueId => simp [extracted, queue] at meant
  | ack queueHex envelopeId =>
    simp only [handle, ack, meaning] at meant ⊢
    cases queue : queueFromStr queueHex with
    | error e => exact ⟨rfl, _, rfl, invalid e⟩
    | ok queueId =>
      cases parsed : P.parseId envelopeId with
      | error e => exact ⟨rfl, _, rfl, invalid _⟩
      | ok id => simp [queue, parsed] at meant

/-- The answer to a request of the store. -/
def rendered (P : Platform) : Mailbox.Response P → Option Response
  | .pushed (.ok id) => some ⟨200, .envelopeAccepted (P.idText id)⟩
  | .acked (.ok acknowledged) => some ⟨200, .ackAccepted acknowledged⟩
  | .pushed (.error failure) => failed failure
  | .acked (.error failure) => failed failure
  | .pulled _ => none
  | .swept _ => none

theorem handle_meaningful {store : Store} {now : Int} {request : Request P} {meant : Mailbox.Request P}
    (means : meaning request = some meant) :
    handle config store now request =
      ((serve config store ⟨now, meant⟩).1, rendered P (serve config store ⟨now, meant⟩).2) := by
  cases request with
  | push queueHex body id =>
    simp only [meaning] at means
    split at means
    · next payload ttlSeconds queueId extracted queue =>
      cases means
      simp only [handle, push, extracted, queue, serve]
      cases Mailbox.push P config store queueId payload ttlSeconds id now with
      | mk store answer => cases answer <;> rfl
    · cases means
  | ack queueHex envelopeId =>
    simp only [meaning] at means
    split at means
    · next queueId id queue parsed =>
      cases means
      simp only [handle, ack, queue, parsed, serve]
      cases Repo.ack P store queueId id now with
      | mk store answer => cases answer <;> rfl
    · cases means

theorem arrive_event (store : Store) (arrival : Arrival P) :
    arrive config store arrival = match event arrival with
      | some happened => (serve config store happened).1
      | none => store := by
  cases arrival with
  | sweep at_ => rfl
  | request at_ request =>
    cases means : meaning request with
    | none =>
      simp only [arrive, event, means, Option.map_none]
      exact (handle_meaningless means).1
    | some meant =>
      simp only [arrive, event, means, Option.map_some]
      rw [handle_meaningful means]

theorem after_append (arrivals : List (Arrival P)) (arrival : Arrival P) :
    after config (arrivals ++ [arrival]) = arrive config (after config arrivals) arrival := by
  rw [after, List.foldl_append]
  rfl

theorem events_split (before : List (Arrival P)) (arrival : Arrival P) (rest : List (Arrival P)) :
    events (before ++ arrival :: rest) = events before ++ ((event arrival).toList ++ events rest) := by
  rw [events, List.filterMap_append, List.filterMap_cons]
  cases event arrival <;> rfl

/-- The store after any requests is the one after those that are well formed. -/
theorem after_history (arrivals : List (Arrival P)) :
    after config arrivals = (history config (events arrivals)).1 := by
  induction arrivals using List.reverseRecOn with
  | nil => rfl
  | append_singleton arrivals arrival ih =>
    have nothing : events ([] : List (Arrival P)) = [] := rfl
    rw [after_append, events_split, arrive_event, ih, nothing, List.append_nil]
    cases event arrival with
    | none => rw [Option.toList_none, List.append_nil]
    | some happened =>
      rw [Option.toList_some, history_append]
      rfl

theorem push_invalid {payload : Bytes} (refused : accepted config payload = false) (store : Store) (queueId : Bytes32)
    (ttlSeconds : Int) (id : P.EnvelopeId) (now : Int) :
    ∃ what, Mailbox.push P config store queueId payload ttlSeconds id now =
      (store, .error (.error (.validation (.invalidPayload what)))) := by
  unfold Mailbox.push
  by_cases empty : payload = []
  · exact ⟨_, if_pos empty⟩
  · have long : config.maxPayloadBytes < payload.length := by
      simpa [accepted, empty] using refused
    rw [if_neg empty, if_pos long]
    exact ⟨_, rfl⟩

/-- In a valid history an accepted push is stored. -/
theorem push_valid {all : List (Event P)} {now at_ : Int} {queueId : Bytes32} {payload : Bytes} {ttlSeconds : Int}
    {id : P.EnvelopeId} (valid : Valid config (all ++ [⟨at_, .push queueId payload ttlSeconds id⟩]) now)
    (accepts : accepted config payload = true) :
    (Mailbox.push P config (history config all).1 queueId payload ttlSeconds id at_).2 = .ok id := by
  have tracks := tracks_history config all valid.init
  have member := List.mem_append_right all (List.mem_singleton_self (⟨at_, .push queueId payload ttlSeconds id⟩ : Event P))
  have drawn := valid.ids
  rw [drawnIds_append] at drawn
  have unused : ∀ row ∈ (history config all).1.envelopes.contents, row.envelopeId ≠ P.idText id := by
    intro row inside same
    obtain ⟨id', earlier, text⟩ := tracks.sound.drawn row inside
    obtain rfl := idText_injective (text.symm.trans same)
    exact (List.nodup_append.mp drawn).2.2 id' earlier id' (List.mem_singleton_self id') rfl
  rw [push_accepted queueId accepts unused (valid.readings _ member)
    (valid.expiries _ member queueId payload ttlSeconds id rfl)]

/-- The requests that succeed, by their texts: a queue of 64 hex digits, and a body that says
a payload which is neither empty nor too long, or an identifier. -/
def Admitted (config : CoreConfig) : Request P → Prop
  | .push queueHex body _ => (∃ q : Bytes32, queueHex.map Char.toLower = Hex.encode q.toList) ∧
      ∃ payload ttlSeconds, Says body payload ttlSeconds ∧ accepted config payload = true
  | .ack queueHex envelopeId => (∃ q : Bytes32, queueHex.map Char.toLower = Hex.encode q.toList) ∧
      ∃ id, P.parseId envelopeId = .ok id

theorem admitted_push {queueHex : Text} {body : Posted} {id : P.EnvelopeId} :
    Admitted config (Request.push queueHex body id) ↔ ∃ queueId payload ttlSeconds,
      meaning (Request.push queueHex body id) = some (.push queueId payload ttlSeconds id) ∧
        accepted config payload = true := by
  simp only [Admitted, meaning, ← queueFromStr_eq_ok, ← extractJson_eq_ok]
  constructor
  · rintro ⟨⟨q, queue⟩, payload, ttlSeconds, extracted, accepts⟩
    exact ⟨q, payload, ttlSeconds, by simp only [extracted, queue], accepts⟩
  · rintro ⟨q, payload, ttlSeconds, means, accepts⟩
    split at means
    · next found ttl queueId extracted queue =>
      cases means
      exact ⟨⟨q, queue⟩, payload, ttlSeconds, extracted, accepts⟩
    · cases means

theorem admitted_ack {queueHex : Text} {envelopeId : String} :
    Admitted config (Request.ack (P := P) queueHex envelopeId) ↔ ∃ queueId id,
      meaning (Request.ack (P := P) queueHex envelopeId) = some (.ack queueId id) := by
  simp only [Admitted, meaning, ← queueFromStr_eq_ok]
  constructor
  · rintro ⟨⟨q, queue⟩, id, parsed⟩
    exact ⟨q, id, by simp only [queue, parsed]⟩
  · rintro ⟨q, id, means⟩
    split at means
    · next queueId found queue parsed =>
      cases means
      exact ⟨⟨q, queue⟩, id, parsed⟩
    · cases means

/-- The request to serve next, after a history that is valid with it. -/
theorem handle_answers {all : List (Event P)} (now : Int) {at_ : Int} {request : Request P}
    (valid : Valid config (all ++ ((event (.request at_ request)).toList)) now) :
    ∃ response, (handle config (history config all).1 at_ request).2 = some response ∧
      response.status ∈ 200 :: refusals ∧
      (response.status = 200 ↔ Admitted config request) ∧
      (response.status ≠ 200 → (handle config (history config all).1 at_ request).1 = (history config all).1) := by
  cases means : meaning request with
  | none =>
    obtain ⟨same, response, answer, status⟩ := handle_meaningless means
    have refused : ¬Admitted config request := by
      cases request with
      | push queueHex body id =>
        intro admitted
        obtain ⟨_, _, _, found, _⟩ := admitted_push.mp admitted
        rw [means] at found
        cases found
      | ack queueHex envelopeId =>
        intro admitted
        obtain ⟨_, _, found⟩ := admitted_ack.mp admitted
        rw [means] at found
        cases found
    have failed_ : response.status ≠ 200 := by
      intro success
      rw [success] at status
      exact absurd status (by decide)
    exact ⟨response, answer, List.mem_cons_of_mem _ status, iff_of_false failed_ refused, fun _ => same⟩
  | some meant =>
    rw [handle_meaningful means]
    simp only [event, means, Option.map_some, Option.toList_some] at valid
    cases request with
    | ack queueHex envelopeId =>
      have admitted : Admitted config (Request.ack (P := P) queueHex envelopeId) := by
        simp only [meaning] at means
        split at means
        · next queueId id queue parsed => exact ⟨⟨queueId, queueFromStr_eq_ok.mp queue⟩, id, parsed⟩
        · cases means
      obtain ⟨queueId, id, found⟩ := admitted_ack.mp admitted
      obtain rfl := Option.some.inj (means.symm.trans found)
      simp only [serve, (ack_answers (history config all).1 queueId id at_).2, rendered]
      exact ⟨_, rfl, List.mem_cons_self, iff_of_true rfl admitted, fun other => absurd rfl other⟩
    | push queueHex body id =>
      obtain ⟨queueId, payload, ttlSeconds, rfl⟩ :
          ∃ queueId payload ttlSeconds, meant = .push queueId payload ttlSeconds id := by
        simp only [meaning] at means
        split at means
        · cases means
          exact ⟨_, _, _, rfl⟩
        · cases means
      cases accepts : accepted config payload with
      | true =>
        have answer := push_valid valid accepts
        simp only [serve, answer, rendered]
        exact ⟨_, rfl, List.mem_cons_self, iff_of_true rfl (admitted_push.mpr ⟨_, _, _, means, accepts⟩),
          fun other => absurd rfl other⟩
      | false =>
        obtain ⟨what, answer⟩ := push_invalid accepts (history config all).1 queueId ttlSeconds id at_
        have refused : ¬Admitted config (Request.push queueHex body id) := by
          intro admitted
          obtain ⟨_, _, _, found, accepted_⟩ := admitted_push.mp admitted
          rw [means] at found
          cases found
          rw [accepts] at accepted_
          cases accepted_
        simp only [serve, answer, rendered, failed, intoResponse, ofMailbox]
        exact ⟨_, rfl, List.mem_cons_of_mem _ List.mem_cons_self, iff_of_false (show ¬400 = 200 by decide) refused,
          fun _ => trivial⟩

/-- Whether an arrival is a request that names the queue, in any spelling. -/
def names (q : Bytes32) : Arrival P → Bool
  | .request _ (.push queueHex _ _) => queueHex.map Char.toLower = Hex.encode q.toList
  | .request _ (.ack queueHex _) => queueHex.map Char.toLower = Hex.encode q.toList
  | .sweep _ => false

/-- A text names the one queue it is read as. -/
theorem spelled {text : Text} {q queueId : Bytes32} (queue : queueFromStr text = .ok queueId) :
    text.map Char.toLower = Hex.encode q.toList ↔ queueId = q := by
  rw [← queueFromStr_eq_ok, queue, Except.ok.injEq]

theorem event_concerns (q : Bytes32) {arrival : Arrival P} {happened : Event P} (is : event arrival = some happened) :
    concerns q happened = names q arrival := by
  cases arrival with
  | sweep at_ =>
    cases is
    rfl
  | request at_ request =>
    obtain ⟨meant, means, rfl⟩ := Option.map_eq_some_iff.mp is
    cases request with
    | push queueHex body id =>
      simp only [meaning] at means
      split at means
      · next payload ttlSeconds queueId extracted queue =>
        cases means
        simp only [concerns, names, spelled queue]
      · cases means
    | ack queueHex envelopeId =>
      simp only [meaning] at means
      split at means
      · next queueId id queue parsed =>
        cases means
        simp only [concerns, names, spelled queue]
      · cases means

theorem events_names (q : Bytes32) (arrivals : List (Arrival P)) :
    (events arrivals).filter (concerns q) = events (arrivals.filter (names q)) := by
  induction arrivals with
  | nil => rfl
  | cons arrival arrivals ih =>
    simp only [events] at ih ⊢
    cases is : event arrival with
    | none =>
      rw [List.filterMap_cons_none is, ih]
      cases named : names q arrival with
      | true => rw [List.filter_cons_of_pos named, List.filterMap_cons_none is]
      | false => rw [List.filter_cons_of_neg (Bool.eq_false_iff.mp named)]
    | some happened =>
      have same := event_concerns q is
      rw [List.filterMap_cons_some is]
      cases named : names q arrival with
      | true =>
        rw [List.filter_cons_of_pos (same.trans named), List.filter_cons_of_pos named, List.filterMap_cons_some is, ih]
      | false =>
        rw [List.filter_cons_of_neg (Bool.eq_false_iff.mp (same.trans named)),
          List.filter_cons_of_neg (Bool.eq_false_iff.mp named), ih]

/-- The pulls that succeed, by their texts. -/
def Pullable (queueHex : Text) (query : Option PullParams) : Prop :=
  query.isSome ∧ ∃ q : Bytes32, queueHex.map Char.toLower = Hex.encode q.toList

/-- A pull of queue `q` is a look into the mailbox of `q`, and another one where the first
finds nothing and an arrival ends the wait. -/
def polled (config : CoreConfig) (q : Bytes32) (params : PullParams) (arrivals : List (Arrival P)) (now : Int)
    (woken : Option (List (Arrival P) × Int)) : List (StoredEnvelope P) :=
  let limit := pullLimit config (params.limit.getD config.maxPullLimit)
  match (live now (mailbox config q (events arrivals))).take limit, params.wait, woken with
  | [], some (_ + 1), some (more, later) => (live later (mailbox config q (events (arrivals ++ more)))).take limit
  | found, _, _ => found

theorem polled_none (config : CoreConfig) (q : Bytes32) (params : PullParams) (arrivals : List (Arrival P)) (now : Int) :
    polled config q params arrivals now none = (live now (mailbox config q (events arrivals))).take
      (pullLimit config (params.limit.getD config.maxPullLimit)) := by
  unfold polled
  dsimp only
  split
  · next woken => cases woken
  · rfl

theorem pull_answers (positive : 1 ≤ config.maxPullLimit) {arrivals : List (Arrival P)} {now : Int}
    (valid : Valid config (events arrivals) now) (stamp : Int → String) {q : Bytes32} {queueHex : Text}
    (named : queueHex.map Char.toLower = Hex.encode q.toList) (params : PullParams)
    {woken : Option (List (Arrival P) × Int)}
    (later : ∀ more at_, woken = some (more, at_) → Valid config (events (arrivals ++ more)) at_) :
    pull P stamp config (after config arrivals, now) queueHex (some params)
        (woken.map (fun ended => (after config (arrivals ++ ended.1), ended.2))) =
      some ⟨200, .pullResponse ((polled config q params arrivals now woken).map (envelopeJson P stamp))⟩ := by
  obtain ⟨limit, wait⟩ := params
  have first := (tracks_history config (events arrivals) valid).pull_live positive q (limit.getD config.maxPullLimit)
  simp only [pull, queueFromStr_eq_ok.mpr named, after_history, first, polled]
  cases (live now (mailbox config q (events arrivals))).take (pullLimit config (limit.getD config.maxPullLimit)) with
  | cons envelope rest => rfl
  | nil =>
    rcases wait with _ | _ | seconds
    · rfl
    · rfl
    · rcases woken with _ | ⟨more, at_⟩
      · rfl
      · have second := (tracks_history config (events (arrivals ++ more)) (later more at_ rfl)).pull_live positive q
          (limit.getD config.maxPullLimit)
        simp only [Option.map_some, second]
        rfl

/-- The texts of a pull decide whether it succeeds. -/
theorem pull_status (positive : 1 ≤ config.maxPullLimit) {arrivals : List (Arrival P)} {now : Int}
    (valid : Valid config (events arrivals) now) (stamp : Int → String) (queueHex : Text) (query : Option PullParams)
    {woken : Option (List (Arrival P) × Int)}
    (later : ∀ more at_, woken = some (more, at_) → Valid config (events (arrivals ++ more)) at_) :
    ∃ response, pull P stamp config (after config arrivals, now) queueHex query
        (woken.map (fun ended => (after config (arrivals ++ ended.1), ended.2))) = some response ∧
      (response.status = 200 ∨ response.status = 400) ∧ (response.status = 200 ↔ Pullable queueHex query) := by
  cases query with
  | none => exact ⟨_, rfl, Or.inr rfl, iff_of_false (show ¬400 = 200 by decide) (fun both => nomatch both.1)⟩
  | some params =>
    cases queue : queueFromStr queueHex with
    | error e =>
      have nothing : ¬Pullable queueHex (some params) := by
        rintro ⟨-, q, named⟩
        rw [queueFromStr_eq_ok.mpr named] at queue
        cases queue
      simp only [pull, queue]
      exact ⟨_, rfl, Or.inr rfl, iff_of_false (show ¬400 = 200 by decide) nothing⟩
    | ok q =>
      have named := queueFromStr_eq_ok.mp queue
      rw [pull_answers positive valid stamp named params later]
      exact ⟨_, rfl, Or.inl rfl, iff_of_true rfl ⟨rfl, q, named⟩⟩

end

section

/-- A push that says one byte. -/
def samplePosted : Posted := ⟨true, 33, .ok ⟨['A', 'Q', '=', '='], 60⟩⟩

def samplePush : Request samplePlatform := .push (Hex.encode sampleQueue.toList) samplePosted ("first" : String)

/-- A push to a queue that is no queue, and one that is too long to be read. -/
def sampleStray : Request samplePlatform := .push ['z'] samplePosted ("second" : String)

def sampleHuge : Request samplePlatform :=
  .push ['y'] ⟨true, 3000000, .error .malformed⟩ ("third" : String)

def sampleArrivals : List (Arrival samplePlatform) :=
  [.request 0 samplePush, .request 1 sampleStray, .request 2 sampleHuge]

def samplePushed : List (Event samplePlatform) := [⟨0, .push sampleQueue [1] 60 ("first" : String)⟩]

theorem samplePush_meaning : meaning samplePush = some (.push sampleQueue [1] 60 ("first" : String)) := by
  have said : extractJson samplePosted = .ok ([1], 60) := rfl
  simp only [samplePush, meaning, said, queueFromStr_eq_ok.mpr (Hex.encode_lower sampleQueue.toList)]

theorem sampleArrivals_events : events sampleArrivals = samplePushed := by
  have first := samplePush_meaning
  have second : meaning sampleStray = none := rfl
  have third : meaning sampleHuge = none := rfl
  simp only [events, sampleArrivals, List.filterMap_cons, event, first, second, third, Option.map_some, Option.map_none,
    List.filterMap_nil, samplePushed]

theorem samplePushed_valid : Valid sampleConfig samplePushed 2 where
  clock := List.pairwise_singleton _ _
  past := by simp [samplePushed]
  readings := by
    intro event member
    obtain rfl := List.mem_singleton.mp member
    decide
  expiries := by
    intro event member queueId bytes ttlSeconds id request
    obtain rfl := List.mem_singleton.mp member
    cases request
    decide
  ids := List.nodup_singleton _

end

end Buh.Relay.Http
