import Buh.Client.Attachments

/-! What the nodes can read of files sent as attachments. Relay and blob nodes hold all
ciphertexts; on top of them somebody may learn the content keys of some files, and the
whole state of one party after the messages about them were used. -/

namespace Buh.Client.Leakage
open Buh.Library.Deduction Buh.Wire.Codec Buh.Wire.V1 Buh.Crypto Buh.Crypto.Primitives Buh.Crypto.Media
  Buh.Ratchet.Message Buh.Ratchet.Chain Buh.Ratchet.State Buh.Ratchet.Placement Buh.Ratchet.Session Buh.Ratchet.Secrecy
  Buh.Client.Browser Buh.Client.Attachments

/-- Something one may learn: what the ratchet computes with, or a text. -/
inductive Known (S : Suite) where
  | base (fact : Fact S)
  | text (bytes : Bytes)

section
variable {S : Suite}

/-- The content key that a text tells as a descriptor. -/
def keyIn (S : Suite) (json : Json) (text : Bytes) : Option S.Key := do
  let descriptor ← json.parse text
  let keyMaterial ← (fromBase64 descriptor.keyMaterial).toOption
  let mediaKey ← (MediaKey.fromBytes S keyMaterial).toOption
  return mediaKey.key

/-- The computations of the ratchet, opening a ciphertext that the nodes hold, with any
nonce and additional data, and reading a descriptor. -/
inductive Learn (json : Json) (boxes : Set Bytes) : List (Known S) → Known S → Prop where
  | derive {premises : List (Fact S)} {fact : Fact S} (rule : Rule S premises fact) :
      Learn json boxes (premises.map .base) (.base fact)
  | openBox {key : S.Key} {nonce aad box text : Bytes} (held : box ∈ boxes)
      (opened : S.aeadDecrypt key nonce aad box = some text) : Learn json boxes [.base (.key key)] (.text text)
  | read {text : Bytes} {key : S.Key} (told : keyIn S json text = some key) :
      Learn json boxes [.text text] (.base (.key key))

/-- A file that was sent as an attachment. -/
structure Post (S : Suite) where
  file : Bytes
  drawn : MediaKey S
  ciphertext : Bytes
  /-- The message about it. -/
  sent : Sent S

def boxes (w : World S) (posts : List (Post S)) : Set Bytes :=
  { box | (∃ m ∈ w.sent, ∃ header, parseMessage m.message = .ok (header, box)) ∨ ∃ post ∈ posts, post.ciphertext = box }

/-- A key that is no output of the key schedule and no shared secret. -/
def Drawn (key : S.Key) : Prop :=
  (∀ prk info block, S.hkdfExpand prk info block ≠ key) ∧ ∀ secret pub, S.diffieHellman secret pub ≠ key

/-- The files sent in a session. Each has a content key of its own, and what opens it is
sent in one message only; the files themselves are not sent in any. -/
structure Posted (json : Json) (w : World S) (posts : List (Post S)) : Prop where
  sealed : ∀ post ∈ posts, sealMedia post.drawn post.file = some (post.drawn, post.ciphertext)
  drawn : ∀ post ∈ posts, Drawn post.drawn.key
  keys : ∀ post ∈ posts, ∀ other ∈ posts, post.drawn.key = other.drawn.key → post = other
  files : ∀ post ∈ posts, ∀ other ∈ posts, post.file = other.file → post = other
  sent : ∀ post ∈ posts, post.sent ∈ w.sent ∧ keyIn S json post.sent.plaintext = some post.drawn.key
  told : ∀ m ∈ w.sent, ∀ key, keyIn S json m.plaintext = some key →
    ∃ post ∈ posts, post.sent = m ∧ post.drawn.key = key
  apart : ∀ post ∈ posts, keyIn S json post.file = none ∧ ∀ m ∈ w.sent, m.plaintext ≠ post.file

/-- The whole contents of a state, all public keys, and some content keys. -/
def knowledge (s : RatchetState S) (publics : Set Bytes32) (leaked : List (Post S)) : Set (Known S) :=
  { known | (∃ fact ∈ stateFacts s publics, known = .base fact) ∨
    ∃ post ∈ leaked, known = .base (.key post.drawn.key) }

/-- A file whose message its party has used, and whose key was not leaked. -/
def Closed (w : World S) (p : Party) (leaked : List (Post S)) (post : Post S) : Prop :=
  Consumed w p post.sent.key ∧ post ∉ leaked

/-- The keys to be kept: those behind the state, and those of the closed files. -/
def KeptKey (region : Region) (root : S.Key) (w : World S) (p : Party) (posts leaked : List (Post S)) (key : S.Key) :
    Prop :=
  Fact.key key ∈ region.blocked root (bankedKeys (w.state p)) ∨
    ∃ post ∈ posts, Closed w p leaked post ∧ post.drawn.key = key

/-- With them the closed files, and whatever text tells one of the keys. -/
def kept (json : Json) (region : Region) (root : S.Key) (w : World S) (p : Party) (posts leaked : List (Post S)) :
    Set (Known S) :=
  { known | match known with
    | .base fact => ∃ key, fact = .key key ∧ KeptKey region root w p posts leaked key
    | .text text => (∃ post ∈ posts, Closed w p leaked post ∧ post.file = text) ∨
        ∃ key, keyIn S json text = some key ∧ KeptKey region root w p posts leaked key }

theorem Drawn.not_labelled {key : S.Key} (drawn : Drawn key) (kind : Kind) : ¬Labelled S kind key := by
  rintro ⟨prk, info, block, same, -⟩
  exact drawn.1 prk info block same.symm

/-- No rule of the ratchet computes a content key. -/
theorem Drawn.not_derived {key : S.Key} (drawn : Drawn key) {premises : List (Fact S)} :
    ¬Rule S premises (.key key) := by
  intro rule
  cases rule with
  | share s pub => exact drawn.2 s pub rfl
  | root rk dhOut => exact drawn.1 _ _ _ rfl
  | seed rk dhOut => exact drawn.1 _ _ _ rfl
  | next ck => exact drawn.1 _ _ _ rfl
  | message ck => exact drawn.1 _ _ _ rfl
  | aead mk => exact drawn.1 _ _ _ rfl

end

section
variable {S : Suite} {root : S.Key} {json : Json} {w : World S} {p : Party} {posts leaked : List (Post S)}

theorem Drawn.not_blocked (session : SessionRoot S root) {region : Region} {held : Set S.Key} {key : S.Key}
    (drawn : Drawn key) : Fact.key key ∉ region.blocked root held := by
  rintro ⟨_, kind, ⟨⟩, inside⟩
  exact drawn.not_labelled kind (inside.labelled session)

/-- Every key of a state comes out of the key schedule. -/
theorem held_labelled (session : SessionRoot S root) {s : RatchetState S} {depth sendPos recvPos : Nat}
    (placed : Placed S root s depth sendPos recvPos) {publics : Set Bytes32} {key : S.Key}
    (held : Held s publics (.key key)) : ∃ kind, Labelled S kind key := by
  cases held with
  | rk => exact ⟨_, rootAt_labelled session placed.rk⟩
  | cks chain => exact ⟨_, chainAt_labelled (placed.cks _ chain)⟩
  | ckr chain =>
    obtain ⟨below, -, place⟩ := placed.ckr _ chain
    exact ⟨_, chainAt_labelled place⟩
  | banked found =>
    obtain ⟨d, k, place, -⟩ := placed.bank _ _ found
    exact ⟨_, messageAt_labelled place⟩

variable (ideal : Ideal S)
include ideal

/-- What a message carries opens under its own key, to what was sent. -/
theorem sealed_in_message (recorded : Recorded w) {m : Sent S} (member : m ∈ w.sent) {header : Header}
    {key : S.Key} {nonce aad box text : Bytes} (parsed : parseMessage m.message = .ok (header, box))
    (sealed : S.aeadEncrypt key nonce aad text = some box) : key = (messageKeys S m.key).1 ∧ text = m.plaintext := by
  obtain ⟨header', ciphertext, parsed', own⟩ := recorded.sent m member
  rw [parsed] at parsed'
  cases parsed'
  obtain ⟨keys, -, -, texts⟩ := ideal.encrypt_inj sealed (aeadSeal_eq_ok.mp own)
  exact ⟨keys, texts⟩

theorem sealed_in_post (posted : Posted json w posts) {post : Post S} (member : post ∈ posts) {key : S.Key}
    {nonce aad text : Bytes} (sealed : S.aeadEncrypt key nonce aad text = some post.ciphertext) :
    key = post.drawn.key ∧ text = post.file := by
  obtain ⟨-, own⟩ := sealMedia_eq_some.mp (posted.sealed post member)
  obtain ⟨keys, -, -, texts⟩ := ideal.encrypt_inj sealed own
  exact ⟨keys, texts⟩

variable (session : SessionRoot S root) {depth sendPos recvPos : Nat}
include session

/-- The key that opens a used message lies behind the state. -/
theorem consumed_kept (accounted : Accounted S root w p depth sendPos recvPos) {key : S.Key} (consumed : Consumed w p key) :
    Fact.key key ∈ (behind depth sendPos recvPos).blocked root (bankedKeys (w.state p)) ∧
      Fact.key (messageKeys S key).1 ∈ (behind depth sendPos recvPos).blocked root (bankedKeys (w.state p)) := by
  have spent := consumed_behind ideal session accounted consumed
  exact ⟨⟨key, .message, rfl, spent⟩, ⟨_, .aead, rfl, key, spent, rfl⟩⟩

/-- One case per rule: what is kept comes only from what is kept. -/
theorem kept_guarded (posted : Posted json w posts) (recorded : Recorded w)
    (accounted : Accounted S root w p depth sendPos recvPos) :
    Guarded (Learn json (boxes w posts)) (kept json (behind depth sendPos recvPos) root w p posts leaked) := by
  intro premises known rule inside
  cases rule with
  | derive rule =>
    obtain ⟨key, rfl, blocked | ⟨post, member, -, rfl⟩⟩ := inside
    · obtain ⟨premise, listed, other, kind, rfl, here⟩ := Region.guarded ideal session _ _ rule blocked
      exact ⟨.base (.key other), List.mem_map_of_mem listed, other, rfl, Or.inl ⟨other, kind, rfl, here⟩⟩
    · exact absurd rule (posted.drawn post member).not_derived
  | @openBox key nonce aad box text held opened =>
    have sealed := ideal.encrypt_decrypt opened
    refine ⟨.base (.key key), List.mem_singleton_self _, key, rfl, ?_⟩
    rcases held with ⟨m, sent, header, parsed⟩ | ⟨other, listed, rfl⟩
    · obtain ⟨rfl, rfl⟩ := sealed_in_message ideal recorded sent parsed sealed
      rcases inside with ⟨post, member, -, same⟩ | ⟨told, reads, keeps⟩
      · exact absurd same.symm ((posted.apart post member).2 m sent)
      · obtain ⟨post, member, rfl, rfl⟩ := posted.told m sent told reads
        rcases keeps with blocked | ⟨closed, member', ⟨consumed, -⟩, same⟩
        · exact absurd blocked ((posted.drawn post member).not_blocked session)
        · obtain rfl := posted.keys closed member' post member same
          exact Or.inl (consumed_kept ideal session accounted consumed).2
    · obtain ⟨rfl, rfl⟩ := sealed_in_post ideal posted listed sealed
      rcases inside with ⟨post, member, closed, same⟩ | ⟨told, reads, -⟩
      · obtain rfl := posted.files post member other listed same
        exact Or.inr ⟨post, member, closed, rfl⟩
      · rw [(posted.apart other listed).1] at reads
        cases reads
  | @read text key told =>
    obtain ⟨_, ⟨⟩, keeps⟩ := inside
    exact ⟨.text text, List.mem_singleton_self _, Or.inr ⟨key, told, keeps⟩⟩

/-- Nothing that is kept is known. -/
theorem knowledge_apart (posted : Posted json w posts) (listed : ∀ post ∈ leaked, post ∈ posts)
    (accounted : Accounted S root w p depth sendPos recvPos) (publics : Set Bytes32) :
    ∀ known ∈ knowledge (w.state p) publics leaked,
      known ∉ kept json (behind depth sendPos recvPos) root w p posts leaked := by
  rintro known (⟨fact, held, rfl⟩ | ⟨post, member, rfl⟩) ⟨key, same, keeps⟩
  · rcases keeps with blocked | ⟨post, member, -, rfl⟩
    · exact stateFacts_apart ideal session accounted.placed publics fact held (same ▸ blocked)
    · obtain ⟨kind, labelled⟩ := held_labelled session accounted.placed (same ▸ held)
      exact (posted.drawn post member).not_labelled kind labelled
  · cases same
    rcases keeps with blocked | ⟨other, member', ⟨-, closed⟩, same⟩
    · exact absurd blocked ((posted.drawn post (listed post member)).not_blocked session)
    · obtain rfl := posted.keys other member' post (listed post member) same
      exact closed member

/-- A leaked content key opens one file and nothing else. Somebody who holds all ciphertexts
of the relay and blob nodes, the content keys of some files, and the whole state of a party,
learns of the files whose messages that party has used exactly those whose keys were
leaked, no further content key, and no message key that the party has used. -/
theorem leaked_key_opens_one_file {env : Surroundings S} {signedPrekey generated : Bytes32}
    (run : Run env (World.start root signedPrekey generated) w) (posted : Posted json w posts)
    (listed : ∀ post ∈ leaked, post ∈ posts) (p : Party) (publics : Set Bytes32) :
    (∀ post ∈ posts, Consumed w p post.sent.key →
      (Derivable (Learn json (boxes w posts)) (knowledge (w.state p) publics leaked) (.text post.file) ↔ post ∈ leaked) ∧
      (Derivable (Learn json (boxes w posts)) (knowledge (w.state p) publics leaked) (.base (.key post.drawn.key)) ↔
        post ∈ leaked)) ∧
    ∀ key, Consumed w p key →
      ¬Derivable (Learn json (boxes w posts)) (knowledge (w.state p) publics leaked) (.base (.key key)) := by
  obtain ⟨depth, sendPos, recvPos, accounted⟩ := (ledger_run ideal session (ledger_start signedPrekey generated) run).party p
  have guarded := @kept_guarded _ _ _ _ p _ leaked ideal session _ _ _ posted (recorded_run ideal.toLawful run) accounted
  have secret (known : Known S) (inside : known ∈ kept json (behind depth sendPos recvPos) root w p posts leaked) :=
    guarded.not_derivable (knowledge_apart ideal session posted listed accounted publics) inside
  constructor
  · intro post member consumed
    have key (leak : post ∈ leaked) : Derivable (Learn json (boxes w posts)) (knowledge (w.state p) publics leaked)
        (.base (.key post.drawn.key)) := .known (Or.inr ⟨post, leak, rfl⟩)
    refine ⟨⟨?_, ?_⟩, ⟨?_, key⟩⟩
    · intro derived
      by_contra safe
      exact secret (.text post.file) (Or.inl ⟨post, member, ⟨consumed, safe⟩, rfl⟩) derived
    · intro leak
      obtain ⟨-, sealed⟩ := sealMedia_eq_some.mp (posted.sealed post member)
      have opened := ideal.decrypt_encrypt sealed
      exact .infer (.openBox (Or.inr ⟨post, member, rfl⟩) opened) (List.forall_mem_singleton.mpr (key leak))
    · intro derived
      by_contra safe
      exact secret (.base (.key post.drawn.key)) ⟨_, rfl, Or.inr ⟨post, member, ⟨consumed, safe⟩, rfl⟩⟩ derived
  · intro key consumed
    exact secret (.base (.key key)) ⟨key, rfl, Or.inl (consumed_kept ideal session accounted consumed).1⟩

end

section
variable {S : Suite} {json : Json}

theorem keyIn_describe (lawful : Lawful S) (read : json.Lawful) (locator : Bytes32) (mediaKey : MediaKey S) :
    keyIn S json (json.stringify (describe locator mediaKey.toBytes)) = some mediaKey.key := by
  have decodes : fromBase64 (describe locator mediaKey.toBytes).keyMaterial = .ok mediaKey.toBytes :=
    fromBase64_encode _
  simp only [keyIn, parse_describe read, decodes, MediaKey.fromBytes_toBytes lawful, bind, Option.bind,
    Except.toOption, pure]

end

/-- A content key that begins as no derived key does. -/
theorem drawn_of_head {key : MediaKey Symbolic.suite} {first : UInt8} {rest : Bytes} (shape : key.key = first :: rest)
    (other : 2 ≤ first.toNat) : @Drawn Symbolic.suite key.key := by
  have apart {tag : UInt8} {tail : Bytes} (low : tag.toNat < 2) : tag :: tail ≠ first :: rest := by
    intro same
    rw [← (List.cons.inj same).1] at other
    omega
  constructor
  · intro prk info block same
    exact apart (by decide) (same.trans shape)
  · intro secret pub same
    exact apart (by decide) (same.trans shape)

/-- A second file, sent in the reply. -/
def otherFile : Bytes := [8]

def otherMediaKey : MediaKey Symbolic.suite := ⟨([3] : Bytes), List.Vector.replicate 24 9⟩

def otherMessage : Bytes := sampleJson.stringify (describe sampleLocator otherMediaKey.toBytes)

theorem otherFile_sealed : ∃ ciphertext, sealMedia otherMediaKey otherFile = some (otherMediaKey, ciphertext) := by
  have sealed : Symbolic.encrypt [3] (List.replicate 24 9) mediaAad otherFile =
      some (Symbolic.sealed [3] (List.replicate 24 9) mediaAad otherFile) :=
    Symbolic.encrypt_eq_some.mpr ⟨rfl, by decide⟩
  exact ⟨_, sealMedia_eq_some.mpr ⟨rfl, sealed⟩⟩

theorem forall_mem_pair {α : Type*} {holds : α → Prop} {first second : α} :
    (∀ item ∈ [first, second], holds item) ↔ holds first ∧ holds second := by
  rw [List.forall_mem_cons, List.forall_mem_singleton]

theorem sample_posted {w : World Symbolic.suite} {ciphertext ciphertext' : Bytes} {m m' : Sent Symbolic.suite}
    (encrypted : sealMedia sampleMediaKey sampleFile = some (sampleMediaKey, ciphertext))
    (encrypted' : sealMedia otherMediaKey otherFile = some (otherMediaKey, ciphertext')) (sent : w.sent = [m, m'])
    (tells : m.plaintext = sampleMessage) (tells' : m'.plaintext = otherMessage) :
    Posted sampleJson w [⟨sampleFile, sampleMediaKey, ciphertext, m⟩, ⟨otherFile, otherMediaKey, ciphertext', m'⟩] := by
  have told : keyIn Symbolic.suite sampleJson m.plaintext = some sampleMediaKey.key := by
    rw [tells]
    exact keyIn_describe Symbolic.suite_lawful sampleJson_lawful sampleLocator sampleMediaKey
  have told' : keyIn Symbolic.suite sampleJson m'.plaintext = some otherMediaKey.key := by
    rw [tells']
    exact keyIn_describe Symbolic.suite_lawful sampleJson_lawful sampleLocator otherMediaKey
  have apart : sampleMediaKey.key ≠ otherMediaKey.key := by
    change ([2] : Bytes) ≠ [3]
    decide
  have differ : sampleFile ≠ otherFile := by decide
  constructor
  · exact forall_mem_pair.mpr ⟨encrypted, encrypted'⟩
  · exact forall_mem_pair.mpr ⟨drawn_of_head rfl (by decide), drawn_of_head rfl (by decide)⟩
  · refine forall_mem_pair.mpr ⟨forall_mem_pair.mpr ⟨fun _ => rfl, fun same => absurd same apart⟩,
      forall_mem_pair.mpr ⟨fun same => absurd same.symm apart, fun _ => rfl⟩⟩
  · refine forall_mem_pair.mpr ⟨forall_mem_pair.mpr ⟨fun _ => rfl, fun same => absurd same differ⟩,
      forall_mem_pair.mpr ⟨fun same => absurd same.symm differ, fun _ => rfl⟩⟩
  · rw [sent]
    exact forall_mem_pair.mpr ⟨⟨List.mem_cons_self, told⟩,
      ⟨List.mem_cons_of_mem _ (List.mem_singleton_self _), told'⟩⟩
  · rw [sent]
    refine forall_mem_pair.mpr ⟨fun key reads => ?_, fun key reads => ?_⟩
    · rw [told] at reads
      exact ⟨_, List.mem_cons_self, rfl, Option.some.inj reads⟩
    · rw [told'] at reads
      exact ⟨_, List.mem_cons_of_mem _ (List.mem_singleton_self _), rfl, Option.some.inj reads⟩
  · rw [sent]
    have texts : ∀ text ∈ [sampleMessage, otherMessage], ∀ file ∈ [sampleFile, otherFile], text ≠ file := by
      decide +kernel
    have plain : ∀ m'' ∈ [m, m'], m''.plaintext ∈ [sampleMessage, otherMessage] :=
      forall_mem_pair.mpr ⟨tells ▸ List.mem_cons_self, tells' ▸ List.mem_cons_of_mem _ (List.mem_singleton_self _)⟩
    refine forall_mem_pair.mpr ⟨⟨rfl, fun m'' listed => ?_⟩, ⟨rfl, fun m'' listed => ?_⟩⟩
    · exact texts _ (plain m'' listed) _ List.mem_cons_self
    · exact texts _ (plain m'' listed) _ (List.mem_cons_of_mem _ (List.mem_singleton_self _))

/-- A file comes with a message and another with the reply. The key of the first leaks, and
the state of the party that had both, and the second stays closed. -/
theorem leaked_key_opens_one_file_sample : ∃ (w : World Symbolic.suite) (post other : Post Symbolic.suite),
    Run (anything Symbolic.suite) (World.start sampleRoot samplePrekey sampleGenerated) w ∧
    post.file = sampleFile ∧ other.file = otherFile ∧
    Derivable (Learn sampleJson (boxes w [post, other])) (knowledge (w.state .responder) Set.univ [post])
      (.text post.file) ∧
    ¬Derivable (Learn sampleJson (boxes w [post, other])) (knowledge (w.state .responder) Set.univ [post])
      (.text other.file) := by
  obtain ⟨ciphertext, encrypted, -⟩ := sampleFile_sealed
  obtain ⟨ciphertext', encrypted'⟩ := otherFile_sealed
  obtain ⟨carried, sealed⟩ := sampleMessage_sealed
  obtain ⟨w, m, run, sent, replied, tells, opened⟩ := reply_run sealed
    (show otherMessage.length < 2 ^ 40 by decide +kernel)
  have posted := sample_posted encrypted encrypted' sent rfl tells
  have received : Consumed w .responder (firstKey Symbolic.suite sampleRoot samplePrekey sampleGenerated) :=
    Or.inr ⟨_, by rw [opened]; exact List.mem_singleton_self _, rfl, rfl⟩
  have used : Consumed w .responder m.key :=
    Or.inl ⟨m, by rw [sent]; exact List.mem_cons_of_mem _ (List.mem_singleton_self _), replied, rfl⟩
  have files := (leaked_key_opens_one_file Symbolic.suite_ideal sampleRoot_session run posted
    (fun _ member => List.mem_cons.mpr (Or.inl (List.mem_singleton.mp member))) .responder Set.univ).1
  have first := files _ List.mem_cons_self received
  have second := files _ (List.mem_cons_of_mem _ (List.mem_singleton_self _)) used
  refine ⟨w, _, _, run, rfl, rfl, first.1.mpr (List.mem_singleton_self _), mt second.1.mp ?_⟩
  intro leaked
  have differ : otherFile ≠ sampleFile := by decide
  exact differ (congrArg Post.file (List.mem_singleton.mp leaked))

end Buh.Client.Leakage
