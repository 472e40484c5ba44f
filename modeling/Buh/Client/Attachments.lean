import Buh.Blob.Api
import Buh.Client.Browser
import Buh.Crypto.Media
import Buh.Ratchet.Secrecy

/-! Media files between two parties, in the order of `runMediaPath` of `demo.ts`: the file is
sealed under a key of its own and uploaded under a random locator, and a message tells the
peer where it is and how to open it. -/

namespace Buh.Client.Attachments
open Buh.Library Buh.Library.Deduction Buh.Wire.Codec Buh.Wire.V1 Buh.Crypto
  Buh.Crypto.Primitives Buh.Crypto.Media Buh.Ratchet.Message Buh.Ratchet.State Buh.Ratchet.Session Buh.Ratchet.Secrecy
  Buh.Client.Ffi Buh.Client.Browser Buh.Blob.Api
open Buh.Blob.Store (Limits Disk)
open Buh.Relay.Http (Text)

/-- `SealedMedia` -/
structure SealedMedia where
  keyMaterial : Bytes
  ciphertext : Bytes

section
variable {S : Suite}

/-- `seal_media` of `ffi.rs` -/
def sealFile (drawn : MediaKey S) (plaintext : Bytes) : Option SealedMedia :=
  (sealMedia drawn plaintext).map (fun sealed => ⟨sealed.1.toBytes, sealed.2⟩)

/-- `open_media` of `ffi.rs` -/
def openFile (S : Suite) (keyMaterial ciphertext : Bytes) : Except JsError Bytes := do
  let key ← mapErr (MediaKey.fromBytes S keyMaterial)
  mapErr (openMedia key ciphertext)

/-- What the message says. -/
structure Descriptor where
  bucket : Text
  key : Text
  keyMaterial : Text

/-- `JSON.stringify` of a descriptor, as the bytes that are sent, and `JSON.parse` of such bytes. -/
structure Json where
  stringify : Descriptor → Bytes
  parse : Bytes → Option Descriptor

/-- Characters that JSON writes as they are. -/
def Plain (text : Text) : Prop := ∀ c ∈ text, c ≠ '"' ∧ c ≠ '\\' ∧ 0x20 ≤ c.toNat ∧ c.toNat < 0x7f

instance (text : Text) : Decidable (Plain text) := List.decidableBAll _ text

def Json.Lawful (json : Json) : Prop :=
  ∀ d : Descriptor, Plain d.bucket → Plain d.key → Plain d.keyMaterial → json.parse (json.stringify d) = some d

def bucket : Text := "media".toList

def describe (locator : Bytes32) (keyMaterial : Bytes) : Descriptor :=
  ⟨bucket, toHex locator.toList, toBase64 keyMaterial⟩

/-- The sender's half, up to the text of the message; no result where sealing panics. -/
def upload {limits : Limits} (json : Json) (role : Role) (disk : Disk limits) (drawn : MediaKey S) (locator : Bytes32)
    (plaintext : Bytes) : Option (Disk limits × Except BlobError Bytes) :=
  (sealFile drawn plaintext).map (fun sealed =>
    let (disk, reply) := blobPut role disk (Hex.utf8 bucket) (Hex.utf8 (toHex locator.toList)) sealed.ciphertext
    (disk, (putBlob reply).map (fun _ => json.stringify (describe locator sealed.keyMaterial))))

/-- The recipient's half, from the text of the message. -/
def download {limits : Limits} (S : Suite) (json : Json) (role : Role) (disk : Disk limits) (message : Bytes) :
    Except BlobError Bytes :=
  match json.parse message with
  | none => .error (.error "SyntaxError")
  | some descriptor => do
    let ciphertext ← getBlob (blobGet role disk (Hex.utf8 descriptor.bucket) (Hex.utf8 descriptor.key))
    let keyMaterial ← (fromBase64 descriptor.keyMaterial).mapError .error
    (openFile S keyMaterial ciphertext).mapError .error

end

/-- An upload under a bucket and key. -/
def Uploads (bucket key : Bytes) : Call Bytes → Prop
  | .put bucket' key' _ => bucket' = bucket ∧ key' = key
  | .cutOff bucket' key' _ _ => bucket' = bucket ∧ key' = key
  | .get _ _ => False

theorem utf8_toHex (locator : Bytes32) : Hex.utf8 (toHex locator.toList) = locatorKey locator := by
  rw [toHex_eq, locatorKey]

theorem plain_toHex (bytes : Bytes) : Plain (toHex bytes) := by
  have digits : ∀ value : Fin 16, Hex.digit value ≠ '"' ∧ Hex.digit value ≠ '\\' ∧ 0x20 ≤ (Hex.digit value).toNat ∧
      (Hex.digit value).toNat < 0x7f := by decide
  intro c member
  rw [toHex_eq] at member
  obtain ⟨value, rfl⟩ := Hex.mem_encode member
  exact digits value

theorem plain_toBase64 (bytes : Bytes) : Plain (toBase64 bytes) := by
  have symbols : ∀ value : Fin 64, PaddedBase64.symbol value ≠ '"' ∧ PaddedBase64.symbol value ≠ '\\' ∧
      0x20 ≤ (PaddedBase64.symbol value).toNat ∧ (PaddedBase64.symbol value).toNat < 0x7f := by decide
  intro c member
  rcases PaddedBase64.mem_encode member with rfl | ⟨value, rfl⟩
  · decide
  · exact symbols value

theorem parse_describe {json : Json} (lawful : json.Lawful) (locator : Bytes32) (keyMaterial : Bytes) :
    json.parse (json.stringify (describe locator keyMaterial)) = some (describe locator keyMaterial) :=
  lawful _ (show Plain bucket by decide) (plain_toHex _) (plain_toBase64 _)

section
variable {limits : Limits} {root : UnixPath.Text} {max : Nat} {disk : Disk limits} {bucket : Bytes} {locator : Bytes32}

/-- The key of a locator is no name of a temporary file. -/
theorem locatorKey_ne_append (locator : Bytes32) (last : Bytes) :
    locatorKey locator ≠ last ++ Blob.Resolve.tmpSuffix := by
  intro same
  have digits : ∀ value : Fin 16, Hex.code (Hex.digit value) ≠ UnixPath.dot := by decide
  have member : UnixPath.dot ∈ locatorKey locator := by
    rw [same]
    exact List.mem_append_right last (by decide)
  rw [locatorKey, Hex.utf8_encode, List.mem_map] at member
  obtain ⟨c, inside, isDot⟩ := member
  obtain ⟨value, rfl⟩ := Hex.mem_encode inside
  exact digits value isDot

theorem locator_ne_tmp (directory : List Bytes) (last : Bytes) :
    [bucket, locatorKey locator] ≠ directory ++ [last ++ Blob.Resolve.tmpSuffix] := by
  intro same
  have lists : [bucket].concat (locatorKey locator) = directory.concat (last ++ Blob.Resolve.tmpSuffix) := by
    rw [List.concat_eq_append, List.concat_eq_append]
    exact same
  exact locatorKey_ne_append locator last (List.last_eq_of_concat_eq lists)

theorem locator_ne_names {bucket' key' : Bytes} (other : ¬(bucket' = bucket ∧ key' = locatorKey locator)) :
    [bucket, locatorKey locator] ≠ Blob.Resolve.names bucket' key' := by
  rw [← names_locatorKey]
  intro same
  obtain ⟨buckets, keys⟩ := Blob.Resolve.names_injective same
  exact other ⟨buckets.symm, keys.symm⟩

/-- An upload under another key leaves the object of a locator alone, wherever it stops. -/
theorem stopped_elsewhere (root : UnixPath.Text) (disk : Disk limits) {bucket' key' : Bytes}
    (other : ¬(bucket' = bucket ∧ key' = locatorKey locator)) (body : Bytes) (stop : Stop) :
    (stopped root disk bucket' key' body stop).content [bucket, locatorKey locator] =
      disk.content [bucket, locatorKey locator] := by
  unfold stopped
  split
  · rfl
  · next path resolved =>
    obtain ⟨directory, last, -, -, longer, tmpPlace, parentPath, isParent, -⟩ := Blob.Store.resolve_below resolved
    rw [isParent, longer]
    cases stop with
    | resolved => rfl
    | making count =>
      dsimp only
      split_ifs
      · exact FileTree.Tree.createDirAll_content disk _ _
      · rfl
    | writing count =>
      have made := Blob.Store.createDirAll_content root disk parentPath [bucket, locatorKey locator]
      dsimp only
      split
      · next ready e called => rwa [called] at made
      · next ready called =>
        rw [called] at made
        split
        · exact made
        · next written wrote =>
          unfold Blob.Store.writeFile at wrote
          split_ifs at wrote
          rw [tmpPlace] at wrote
          have apart := @locator_ne_tmp bucket locator directory last
          exact (FileTree.Tree.content_eq ((FileTree.Tree.write_ok wrote).2.2 _ apart)).trans made
    | renamed =>
      exact Blob.Store.put_elsewhere disk body (locator_ne_names other) fun directory last _ => locator_ne_tmp directory last

/-- Requests that do not upload under a locator leave its object alone. -/
theorem perform_elsewhere {call : Call Bytes} (other : ¬Uploads bucket (locatorKey locator) call) (disk : Disk limits) :
    (perform ⟨some root, max⟩ disk call).1.content [bucket, locatorKey locator] =
      disk.content [bucket, locatorKey locator] := by
  cases call with
  | get bucket' key' => rfl
  | put bucket' key' body =>
    have kept := @Blob.Store.put_elsewhere limits root disk _ _ body _ (locator_ne_names other)
      fun directory last _ => locator_ne_tmp directory last
    simp only [perform, blobPut, Blob.Api.put]
    split_ifs
    · rfl
    · rfl
    · rfl
    · cases called : Blob.Store.put root disk bucket' key' body with
      | mk after answer =>
        rw [called] at kept
        cases answer <;> exact kept
  | cutOff bucket' key' body stop =>
    simp only [perform, cutOff]
    split_ifs
    · rfl
    · rfl
    · rfl
    · exact stopped_elsewhere root disk other body stop

theorem run_elsewhere {calls : List (Call Bytes)} (others : ∀ call ∈ calls, ¬Uploads bucket (locatorKey locator) call)
    (disk : Disk limits) (replies : List (Option Reply)) :
    (calls.foldl (step ⟨some root, max⟩) (disk, replies)).1.content [bucket, locatorKey locator] =
      disk.content [bucket, locatorKey locator] := by
  induction calls generalizing disk replies with
  | nil => rfl
  | cons call calls ih =>
    obtain ⟨here, rest⟩ := List.forall_mem_cons.mp others
    rw [List.foldl_cons, step, ih rest, perform_elsewhere here]

/-- An upload that the client takes for done has stored its bytes. -/
theorem blobPut_done {body : Bytes} (done : putBlob (blobPut ⟨some root, max⟩ disk bucket (locatorKey locator) body).2 = .ok ()) :
    Blob.Store.put root disk bucket (locatorKey locator) body =
      ((blobPut ⟨some root, max⟩ disk bucket (locatorKey locator) body).1, .ok ()) := by
  cases outcome : refusal max bucket body with
  | some reply =>
    rw [blobPut_refused outcome] at done
    unfold refusal at outcome
    split_ifs at outcome <;> cases outcome <;> cases done
  | none =>
    obtain ⟨-, called⟩ := @blobPut_accepted limits root disk bucket max (locatorKey locator) body outcome
    rw [called] at done ⊢
    cases stored : Blob.Store.put root disk bucket (locatorKey locator) body with
    | mk after answer =>
      rw [stored] at done
      cases answer with
      | ok nothing => rfl
      | error e =>
        -- no error has a status that counts as success
        rcases e with _ | (_ | _) | _ <;> cases done

/-- What a client has uploaded is served as it was. -/
theorem uploaded_served {body : Bytes}
    (done : putBlob (blobPut ⟨some root, max⟩ disk bucket (locatorKey locator) body).2 = .ok ())
    {after : List (Call Bytes)} (others : ∀ call ∈ after, ¬Uploads bucket (locatorKey locator) call) :
    getBlob (blobGet ⟨some root, max⟩
      (after.foldl (step ⟨some root, max⟩) ((blobPut ⟨some root, max⟩ disk bucket (locatorKey locator) body).1, [])).1
      bucket (locatorKey locator)) = .ok body := by
  obtain ⟨path, resolved, takes, stored⟩ := Blob.Store.put_stored (blobPut_done done)
  have kept := @run_elsewhere limits root max bucket locator after others
    (blobPut ⟨some root, max⟩ disk bucket (locatorKey locator) body).1 []
  rw [Blob.Store.object, names_locatorKey, ← kept, ← names_locatorKey] at stored
  simp only [blobGet, Blob.Api.get, Blob.Store.get_stored resolved takes stored, Except.mapError]
  rfl

end

section
variable {S : Suite}

theorem upload_done {limits : Limits} {json : Json} {role : Role} {disk after : Disk limits} {drawn : MediaKey S} {locator : Bytes32}
    {file message : Bytes} (uploaded : upload json role disk drawn locator file = some (after, .ok message)) :
    ∃ mediaKey ciphertext, sealMedia drawn file = some (mediaKey, ciphertext) ∧
      after = (blobPut role disk (Hex.utf8 bucket) (locatorKey locator) ciphertext).1 ∧
      putBlob (blobPut role disk (Hex.utf8 bucket) (locatorKey locator) ciphertext).2 = .ok () ∧
      message = json.stringify (describe locator mediaKey.toBytes) := by
  obtain ⟨sealedFile, sealed, result⟩ := Option.map_eq_some_iff.mp uploaded
  obtain ⟨⟨mediaKey, ciphertext⟩, encrypted, rfl⟩ := Option.map_eq_some_iff.mp sealed
  rw [utf8_toHex] at result
  refine ⟨mediaKey, ciphertext, encrypted, ?_⟩
  dsimp only at result ⊢
  cases called : blobPut role disk (Hex.utf8 bucket) (locatorKey locator) ciphertext with
  | mk stored reply =>
    rw [called] at result
    obtain ⟨rfl, answered⟩ := Prod.mk.inj result
    cases done : putBlob reply with
    | error e =>
      rw [done] at answered
      cases answered
    | ok nothing =>
      rw [done] at answered
      exact ⟨rfl, rfl, (Except.ok.inj answered).symm⟩

/-- A message opened is the message sent, whichever state opens it. -/
theorem opened_plaintext (ideal : Ideal S) {w : World S} (recorded : Recorded w) {m : Sent S} {o : Opened S}
    (sent : m ∈ w.sent) (opened : o ∈ w.opened) (same : o.message = m.message) : o.plaintext = m.plaintext := by
  obtain ⟨header, ciphertext, parsed, sealed⟩ := recorded.sent m sent
  obtain ⟨header', ciphertext', parsed', openedIt⟩ := recorded.opened o opened
  rw [same, parsed] at parsed'
  cases parsed'
  have own := openMessage_sealMessage ideal.toLawful sealed
  have keys := openMessage_key_unique ideal openedIt own
  rw [keys, own] at openedIt
  exact (Except.ok.inj openedIt).symm

/-- A file whose upload was answered is there for whoever opens the message about it, after
any further requests to the node, under any keys, but uploads under its locator, and
wherever these were cut off. -/
theorem attachment_recovered (ideal : Ideal S) {json : Json} (lawful : json.Lawful) {limits : Limits}
    {root : UnixPath.Text} {max : Nat} {start disk : Disk limits} {after : List (Call Bytes)} {drawn : MediaKey S}
    {locator : Bytes32} {file message : Bytes}
    (uploaded : upload json ⟨some root, max⟩ start drawn locator file = some (disk, .ok message))
    (others : ∀ call ∈ after, ¬Uploads (Hex.utf8 bucket) (locatorKey locator) call) {env : Surroundings S} {rootKey : S.Key}
    {signedPrekey generated : Bytes32} {w : World S} (talk : Run env (World.start rootKey signedPrekey generated) w)
    {m : Sent S} {o : Opened S} (sent : m ∈ w.sent) (tells : m.plaintext = message) (opened : o ∈ w.opened)
    (same : o.message = m.message) :
    download S json ⟨some root, max⟩ (after.foldl (step ⟨some root, max⟩) (disk, [])).1 o.plaintext = .ok file := by
  have recorded := recorded_run ideal.toLawful talk
  rw [opened_plaintext ideal recorded sent opened same, tells]
  obtain ⟨mediaKey, ciphertext, encrypted, rfl, done, rfl⟩ := upload_done uploaded
  have served := uploaded_served done others
  have reads : (describe locator mediaKey.toBytes).key = toHex locator.toList := rfl
  have decodes : fromBase64 (describe locator mediaKey.toBytes).keyMaterial = .ok mediaKey.toBytes :=
    fromBase64_encode _
  have key := mapErr_eq_ok.mpr (MediaKey.fromBytes_toBytes ideal.toLawful mediaKey)
  have content := mapErr_eq_ok.mpr (openMedia_sealMedia ideal.toLawful encrypted)
  have place : (describe locator mediaKey.toBytes).bucket = bucket := rfl
  simp only [download, parse_describe lawful, place, reads, utf8_toHex, decodes, served, openFile, key, content, bind,
    Except.bind, Except.mapError]

/-- What an upload answers that an empty store accepts. -/
theorem upload_accepted {json : Json} {limits : Limits} {root : UnixPath.Text} (roomy : Roomy limits root) {max : Nat}
    {drawn : MediaKey S} {locator : Bytes32} {file ciphertext : Bytes}
    (sealed : sealMedia drawn file = some (drawn, ciphertext))
    (accepted : refusal max (Hex.utf8 bucket) ciphertext = none) :
    ∃ after, upload json ⟨some root, max⟩ (FileTree.Tree.empty : Disk limits) drawn locator file =
      some (after, .ok (json.stringify (describe locator drawn.toBytes))) := by
  have short : limits.short (Hex.utf8 bucket) = true :=
    decide_eq_true ((show (Hex.utf8 bucket).length ≤ 68 by decide).trans roomy.name)
  obtain ⟨replied, -⟩ := (@Shows.empty limits).perform roomy max (.put (Hex.utf8 bucket) locator ciphertext)
  simp only [answer, accepted, if_pos short] at replied
  have created : (blobPut ⟨some root, max⟩ (FileTree.Tree.empty : Disk limits) (Hex.utf8 bucket) (locatorKey locator)
      ciphertext).2 = .created := Option.some.inj replied
  refine ⟨(blobPut ⟨some root, max⟩ FileTree.Tree.empty (Hex.utf8 bucket) (locatorKey locator) ciphertext).1, ?_⟩
  have single : sealFile drawn file = some ⟨drawn.toBytes, ciphertext⟩ := congrArg (Option.map _) sealed
  unfold upload
  rw [single, utf8_toHex]
  cases called : blobPut ⟨some root, max⟩ (FileTree.Tree.empty : Disk limits) (Hex.utf8 bucket) (locatorKey locator)
      ciphertext with
  | mk after reply =>
    rw [called] at created
    simp only [Option.map_some, called]
    obtain rfl : reply = .created := created
    rfl

end

/-- Quoted strings in a row: what JSON makes of a descriptor, split at its quotes. -/
def samplePieces (d : Descriptor) : List (List Char) :=
  [['\x7b'], "bucket".toList, [':'], d.bucket, [','], "key".toList, [':'], d.key, [','], "keyMaterial".toList, [':'],
    d.keyMaterial, ['\x7d']]

/-- JSON on texts without spaces and escapes. -/
def sampleJson : Json where
  stringify d := Hex.utf8 (['"'].intercalate (samplePieces d))
  parse bytes :=
    match (bytes.map (fun byte => Char.ofNat byte.toNat)).splitOn '"' with
    | [_, _, _, bucket, _, _, _, key, _, _, _, keyMaterial, _] =>
      if (bytes.map (fun byte => Char.ofNat byte.toNat)).splitOn '"' = samplePieces ⟨bucket, key, keyMaterial⟩ then
        some ⟨bucket, key, keyMaterial⟩
      else none
    | _ => none

theorem forall_mem_intercalate {α : Type*} {holds : α → Prop} {separator : α} (between : holds separator)
    {pieces : List (List α)} (each : ∀ piece ∈ pieces, ∀ item ∈ piece, holds item) :
    ∀ item ∈ [separator].intercalate pieces, holds item := by
  induction pieces with
  | nil => exact fun _ absent => absurd absent List.not_mem_nil
  | cons first rest ih =>
    obtain ⟨here, others⟩ := List.forall_mem_cons.mp each
    cases rest with
    | nil =>
      rw [List.intercalate_singleton]
      exact here
    | cons second rest =>
      rw [List.intercalate_cons_cons, List.forall_mem_append, List.forall_mem_append, List.forall_mem_singleton]
      exact ⟨⟨here, between⟩, ih others⟩

theorem sampleJson_lawful : sampleJson.Lawful := by
  intro d bucket key keyMaterial
  have texts {text : Text} (plain : Plain text) : ∀ c ∈ text, c ≠ '"' ∧ c.toNat < 128 := by
    intro c member
    obtain ⟨noQuote, -, -, low⟩ := plain c member
    exact ⟨noQuote, low.trans (by decide)⟩
  have pieces : (samplePieces d).Forall Plain :=
    ⟨by decide, by decide, by decide, bucket, by decide, by decide, by decide, key, by decide, by decide, by decide,
      keyMaterial, by decide⟩
  have plain : ∀ piece ∈ samplePieces d, ∀ c ∈ piece, c ≠ '"' ∧ c.toNat < 128 :=
    fun piece listed => texts (List.forall_iff_forall_mem.mp pieces piece listed)
  have chars : ∀ c ∈ ['"'].intercalate (samplePieces d), c.toNat < 128 := by
    have quote : '"'.toNat < 128 := by decide
    exact @forall_mem_intercalate Char (fun c => c.toNat < 128) _ quote _
      (fun piece listed c member => (plain piece listed c member).2)
  have read : (Hex.utf8 (['"'].intercalate (samplePieces d))).map (fun byte => Char.ofNat byte.toNat) =
      ['"'].intercalate (samplePieces d) := by
    rw [Hex.utf8_of_ascii chars, List.map_map]
    exact (List.map_congr_left (fun c member => Hex.ofNat_code (chars c member))).trans (List.map_id _)
  have split : ((Hex.utf8 (['"'].intercalate (samplePieces d))).map (fun byte => Char.ofNat byte.toNat)).splitOn '"' =
      samplePieces d := by
    rw [read]
    exact List.splitOn_intercalate '"' (fun piece listed quote => (plain piece listed _ quote).1 rfl) (List.cons_ne_nil _ _)
  unfold sampleJson
  simp only [split]
  simp only [samplePieces, if_true]

def sampleFile : Bytes := [7]

/-- A content key of the symbolic suite that no derivation spells. -/
def sampleMediaKey : MediaKey Symbolic.suite := ⟨([2] : Bytes), List.Vector.replicate 24 9⟩

def sampleLocator : Bytes32 := List.Vector.replicate 32 5

theorem sampleFile_sealed : ∃ ciphertext, sealMedia sampleMediaKey sampleFile = some (sampleMediaKey, ciphertext) ∧
    refusal 1000 (Hex.utf8 bucket) ciphertext = none := by
  have sealed : Symbolic.encrypt [2] (List.replicate 24 9) mediaAad sampleFile =
      some (Symbolic.sealed [2] (List.replicate 24 9) mediaAad sampleFile) :=
    Symbolic.encrypt_eq_some.mpr ⟨rfl, by decide⟩
  exact ⟨_, sealMedia_eq_some.mpr ⟨rfl, sealed⟩, by decide⟩

/-- The message about the sample file, and its being sent and opened. -/
def sampleMessage : Bytes := sampleJson.stringify (describe sampleLocator sampleMediaKey.toBytes)

theorem sampleMessage_sealed : ∃ ciphertext,
    Ratchet.State.sealMessage Symbolic.suite (firstKey Symbolic.suite sampleRoot samplePrekey sampleGenerated)
      (toAad (firstHeader Symbolic.suite sampleGenerated)) sampleMessage = .ok ciphertext := by
  have size := firstKey_length sampleRoot samplePrekey sampleGenerated
  have short : List.length (α := UInt8) sampleRoot < 2 ^ 32 := by decide
  exact suite_sealMessage _ (by omega) (by decide +kernel)

/-- Requests under keys that no client draws: one that nests, and one that is spelled like
the temporary file of the locator. -/
def sampleStrays : List (Call Bytes) :=
  [.put (Hex.utf8 bucket) [0x61, 0x2f, 0x62] [1],
    .put (Hex.utf8 bucket) (locatorKey sampleLocator ++ Blob.Resolve.tmpSuffix) [2],
    .cutOff (Hex.utf8 bucket) (locatorKey (List.Vector.replicate 32 6)) [3] (.writing 1)]

/-- The file is uploaded to an empty store, and stray requests come after it. -/
theorem attachment_recovered_sample : ∃ (disk : Disk Blob.Store.linux) (w : World Symbolic.suite)
    (o : Opened Symbolic.suite),
    upload sampleJson ⟨some [0x72], 1000⟩ FileTree.Tree.empty sampleMediaKey sampleLocator sampleFile =
      some (disk, .ok sampleMessage) ∧ o ∈ w.opened ∧
    download Symbolic.suite sampleJson ⟨some [0x72], 1000⟩
      (sampleStrays.foldl (step ⟨some [0x72], 1000⟩) (disk, [])).1 o.plaintext = .ok sampleFile := by
  obtain ⟨ciphertext, encrypted, accepted⟩ := sampleFile_sealed
  have roomy : Roomy Blob.Store.linux [0x72] := ⟨by decide, by decide⟩
  obtain ⟨disk, uploaded⟩ := @upload_accepted _ sampleJson Blob.Store.linux [0x72] roomy 1000
    sampleMediaKey sampleLocator _ _ encrypted accepted
  obtain ⟨carried, sealed⟩ := sampleMessage_sealed
  obtain ⟨w, talk, sent, opened⟩ := exchange_run Symbolic.suite_lawful (anything Symbolic.suite)
    (List.Vector.replicate 32 3) sealed (fun _ _ => trivial) (fun _ _ => trivial)
  have others : ∀ call ∈ sampleStrays, ¬Uploads (Hex.utf8 bucket) (locatorKey sampleLocator) call := by
    rw [sampleStrays, List.forall_mem_cons, List.forall_mem_cons, List.forall_mem_singleton]
    exact ⟨fun same => absurd same.2 (by decide), fun same => absurd same.2 (by decide),
      fun same => absurd same.2 (by decide)⟩
  refine ⟨disk, w, _, uploaded, opened ▸ List.mem_singleton_self _, ?_⟩
  exact attachment_recovered Symbolic.suite_ideal sampleJson_lawful uploaded others talk
    (sent ▸ List.mem_singleton_self _) rfl (opened ▸ List.mem_singleton_self _) rfl

end Buh.Client.Attachments
