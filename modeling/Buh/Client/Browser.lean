import Buh.Client.Ffi
import Buh.Relay.Http

/-! The relay client of `relay.ts`, with the encodings of `bytes.ts`, over the relay's HTTP
API. Text that one side writes is read by the other, so that the two together are the
mailbox. -/

namespace Buh.Client.Browser
open Buh.Library Buh.Wire.Codec Buh.Crypto.Primitives Buh.Client.Ffi Buh.Relay Buh.Relay.Refinement
  Buh.Relay.Sweeping Buh.Relay.Http
open Buh.Relay.Mailbox (Platform CoreConfig Store Event history serve)

/-- `b.toString(16).padStart(2, "0")` for each byte. -/
def toHex (bytes : Bytes) : Text :=
  bytes.flatMap (fun b => (Nat.toDigits 16 b.toNat).leftpad 2 '0')

/-- `btoa` -/
def toBase64 (bytes : Bytes) : Text := PaddedBase64.encode bytes

/-- `atob` -/
def fromBase64 (b64 : Text) : Except JsError Bytes :=
  match PaddedBase64.forgivingDecode b64 with
  | some bytes => .ok bytes
  | none => .error "InvalidCharacterError"

structure StoredEnvelope where
  envelopeId : String
  payload : Bytes
  receivedAt : String
  expiresAt : String

def defaultTtlSeconds : Int := 3600

/-- The body of a response that is `ok`. -/
def received (what : String) : Option Response → Except JsError Body
  | none => .error "Failed to fetch"
  | some response =>
    if 200 ≤ response.status ∧ response.status ≤ 299 then .ok response.body
    else .error ("relay " ++ what ++ " failed: " ++ toString response.status)

/-- A field of the body, undefined where the body has no such field. -/
def envelopeIdOf : Body → Option String
  | .envelopeAccepted id => some id
  | _ => none

def acknowledgedOf : Body → Option Bool
  | .ackAccepted acknowledged => some acknowledged
  | _ => none

def envelopesOf : Body → Except JsError (List EnvelopeJson)
  | .pullResponse envelopes => .ok envelopes
  | _ => .error "TypeError"

def fromJson (envelope : EnvelopeJson) : Except JsError StoredEnvelope := do
  let payload ← fromBase64 envelope.payload
  return ⟨envelope.envelopeId, payload, envelope.receivedAt, envelope.expiresAt⟩

section
variable (P : Platform) (stamp : Int → String)

/-- `JSON.stringify` of the body of a push. -/
def pushText (payload : Bytes) : Text :=
  "\x7b\"payload\":\"".toList ++ toBase64 payload ++ "\",\"ttl_seconds\":3600\x7d".toList

def pushBody (payload : Bytes) : Posted :=
  ⟨true, (Hex.utf8 (pushText payload)).length, .ok ⟨toBase64 payload, defaultTtlSeconds⟩⟩

def pushRequest (queueId payload : Bytes) (id : P.EnvelopeId) : Request P :=
  .push (toHex queueId) (pushBody payload) id

def push (config : CoreConfig) (store : Store) (queueId payload : Bytes) (id : P.EnvelopeId) (now : Int) :
    Store × Except JsError (Option String) :=
  let (store, reply) := handle config store now (pushRequest P queueId payload id)
  (store, (received "push" reply).map envelopeIdOf)

def pullParams (waitSeconds : Nat) : PullParams := ⟨none, if 0 < waitSeconds then some waitSeconds else none⟩

def pull (config : CoreConfig) (first : Store × Int) (queueId : Bytes) (waitSeconds : Nat)
    (woken : Option (Store × Int)) : Except JsError (List StoredEnvelope) := do
  let body ← received "pull" (Http.pull P stamp config first (toHex queueId) (some (pullParams waitSeconds)) woken)
  let envelopes ← envelopesOf body
  envelopes.mapM fromJson

def ackRequest (queueId : Bytes) (envelopeId : String) : Request P := .ack (toHex queueId) envelopeId

def ack (config : CoreConfig) (store : Store) (queueId : Bytes) (envelopeId : String) (now : Int) :
    Store × Except JsError (Option Bool) :=
  let (store, reply) := handle config store now (ackRequest P queueId envelopeId)
  (store, (received "ack" reply).map acknowledgedOf)

end

theorem toHex_eq (bytes : Bytes) : toHex bytes = Hex.encode bytes := by
  have all : ∀ b : Fin 256, (Nat.toDigits 16 b.val).leftpad 2 '0' = [Hex.digit (b.val / 16), Hex.digit (b.val % 16)] := by
    decide +kernel
  rw [toHex, Hex.encode]
  congr 1
  funext b
  exact all ⟨b.toNat, b.toNat_lt⟩

/-- The queue of a client is one that the relay reads. -/
theorem toHex_named (q : Bytes32) : (toHex q.toList).map Char.toLower = Hex.encode q.toList := by
  rw [toHex_eq, Hex.encode_lower]

theorem fromBase64_encode (bytes : Bytes) : fromBase64 (PaddedBase64.encode bytes) = .ok bytes := by
  rw [fromBase64, PaddedBase64.forgivingDecode_encode]

section
variable {P : Platform} {config : CoreConfig}

/-- An envelope as the client returns it. -/
def shown (P : Platform) (stamp : Int → String) (envelope : Relay.Mailbox.StoredEnvelope P) : StoredEnvelope :=
  ⟨P.idText envelope.envelopeId, envelope.payload, stamp envelope.receivedAt, stamp envelope.expiresAt⟩

theorem mapM_fromJson (stamp : Int → String) (envelopes : List (Relay.Mailbox.StoredEnvelope P)) :
    (envelopes.map (envelopeJson P stamp)).mapM fromJson = .ok (envelopes.map (shown P stamp)) := by
  induction envelopes with
  | nil => rfl
  | cons envelope rest ih =>
    have here : fromJson (envelopeJson P stamp envelope) = .ok (shown P stamp envelope) := by
      simp only [fromJson, envelopeJson, fromBase64_encode]
      rfl
    rw [List.map_cons, List.mapM_cons, here, ih]
    rfl

/-- The relay reads the body of a push. -/
def Readable (payload : Bytes) : Prop := (Hex.utf8 (pushText payload)).length ≤ defaultBodyLimit

instance (payload : Bytes) : Decidable (Readable payload) := inferInstanceAs (Decidable (_ ≤ _))

theorem meaning_pushRequest {payload : Bytes} (readable : Readable payload) (q : Bytes32) (id : P.EnvelopeId) :
    meaning (pushRequest P q.toList payload id) = some (.push q payload defaultTtlSeconds id) := by
  have extracted : extractJson (pushBody payload) = .ok (payload, defaultTtlSeconds) :=
    extractJson_eq_ok.mpr ⟨rfl, readable, rfl⟩
  simp only [pushRequest, meaning, extracted, queueFromStr_eq_ok.mpr (toHex_named q)]

theorem extractJson_huge {payload : Bytes} (huge : ¬Readable payload) :
    extractJson (pushBody payload) = .error ⟨413, .rejection⟩ := by
  have typed : ¬(pushBody payload).isJson = false := Bool.noConfusion
  have large : defaultBodyLimit < (pushBody payload).size := Nat.lt_of_not_le huge
  unfold extractJson
  rw [if_neg typed, if_pos large]

theorem meaning_huge {payload : Bytes} (huge : ¬Readable payload) (q : Bytes32) (id : P.EnvelopeId) :
    meaning (pushRequest P q.toList payload id) = none := by
  simp only [pushRequest, meaning, extractJson_huge huge]

theorem meaning_ackRequest (q : Bytes32) (id : P.EnvelopeId) :
    meaning (ackRequest P q.toList (P.idText id)) = some (.ack q id) := by
  simp only [ackRequest, meaning, P.parse_text, queueFromStr_eq_ok.mpr (toHex_named q)]

/-- A client's request in a history, as the mailboxes see it. -/
theorem mailbox_request (arrivals : List (Arrival P)) {request : Request P} {meant : Relay.Mailbox.Request P}
    (means : meaning request = some meant) (now : Int) (other : Bytes32) :
    mailbox config other (events (arrivals ++ [.request now request])) =
      apply config other (mailbox config other (events arrivals)) ⟨now, meant⟩ := by
  have happened : event (.request now request) = some ⟨now, meant⟩ := congrArg (Option.map _) means
  rw [events_split, happened]
  exact mailbox_append config other (events arrivals) _

theorem push_answered {all : List (Event P)} {q : Bytes32} {payload : Bytes} {id : P.EnvelopeId} {now : Int}
    (valid : Valid config (all ++ [⟨now, .push q payload defaultTtlSeconds id⟩]) now) :
    (push P config (history config all).1 q.toList payload id now).2 =
      if Readable payload then
        if accepted config payload then .ok (some (P.idText id)) else .error "relay push failed: 400"
      else .error "relay push failed: 413" := by
  by_cases readable : Readable payload
  · rw [if_pos readable]
    simp only [push, handle_meaningful (meaning_pushRequest readable q id), serve]
    cases accepts : accepted config payload with
    | true =>
      rw [push_valid valid accepts]
      rfl
    | false =>
      obtain ⟨what, answer⟩ := push_invalid accepts (history config all).1 q defaultTtlSeconds id now
      have text : "relay " ++ "push" ++ " failed: " ++ toString 400 = "relay push failed: 400" := by decide
      rw [answer]
      exact congrArg Except.error text
  · have text : "relay " ++ "push" ++ " failed: " ++ toString 413 = "relay push failed: 413" := by decide
    rw [if_neg readable]
    simp only [push, handle, pushRequest, Http.push, extractJson_huge readable]
    exact congrArg Except.error text

theorem pull_polled (positive : 1 ≤ config.maxPullLimit) (stamp : Int → String) {arrivals : List (Arrival P)} {now : Int}
    (valid : Valid config (events arrivals) now) (q : Bytes32) (waitSeconds : Nat)
    {woken : Option (List (Arrival P) × Int)}
    (later : ∀ more at_, woken = some (more, at_) → Valid config (events (arrivals ++ more)) at_) :
    pull P stamp config (after config arrivals, now) q.toList waitSeconds
        (woken.map (fun ended => (after config (arrivals ++ ended.1), ended.2))) =
      .ok ((polled config q (pullParams waitSeconds) arrivals now woken).map (shown P stamp)) := by
  rw [pull, pull_answers positive valid stamp (toHex_named q) (pullParams waitSeconds) later]
  exact mapM_fromJson stamp _

end

section

def sampleAccepted : List (Event samplePlatform) :=
  [⟨0, .push sampleQueue [1] defaultTtlSeconds ("first" : String)⟩]

theorem sampleAccepted_valid : Valid sampleConfig sampleAccepted 0 where
  clock := List.pairwise_singleton _ _
  past := by simp [sampleAccepted]
  readings := by
    intro event member
    obtain rfl := List.mem_singleton.mp member
    decide
  expiries := by
    intro event member queueId bytes ttlSeconds id request
    obtain rfl := List.mem_singleton.mp member
    cases request
    decide
  ids := List.nodup_singleton _

def sampleNothing : List (Arrival samplePlatform) := []

theorem sampleNothing_valid : Valid sampleConfig (events sampleNothing) 0 :=
  ⟨.nil, by rintro _ ⟨⟩, by rintro _ ⟨⟩, by rintro _ ⟨⟩, .nil⟩

end

end Buh.Client.Browser
