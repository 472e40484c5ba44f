import Buh.Blob.Store
import Buh.Relay.Http

/-! The blob role over HTTP: `blob.rs` of the core, the blob handlers of `handlers.rs` behind
the body limit of `router.rs`, and the browser client of `blob.ts`. Bucket and key are the
UTF-8 bytes of the two strings that the route takes from the path. -/

namespace Buh.Blob.Api
open Buh.Library Buh.Library.UnixPath Buh.Library.FileTree Buh.Wire.Codec Buh.Crypto.Primitives Buh.Blob.Resolve
  Buh.Blob.Store
open Buh.Relay.Http (Response intoResponse)
open Buh.Wire.V1 (usizeMax)

/-- The errors of `fs_blob.rs` are some of these. -/
def ofBlob : Resolve.CoreError → Relay.Http.CoreError
  | .notFound => .notFound
  | .validation (.empty field) => .validation (.empty field)
  | .validation (.invalidPayload reason) => .validation (.invalidPayload reason)
  | .storage text => .storage text

/-- What `Ctx` holds for the blob role: the root of the object store, on a node that runs it. -/
structure Role where
  root : Option Text
  maxBlobBytes : Nat

/-- The longest body that the route reads: `saturating_add` of a `usize`. -/
def blobLimit (maxBlobBytes : Nat) : Nat :=
  if usizeMax - maxBlobBytes < 64 * 1024 then usizeMax else maxBlobBytes + 64 * 1024

section
variable {limits : Limits}

def noRole : Relay.Http.CoreError := .unimplemented "node does not run the blob role"

def put (role : Role) (disk : Disk limits) (bucket key bytes : Bytes) :
    Disk limits × Except Relay.Http.CoreError Unit :=
  if bytes = [] then (disk, .error (.validation (.invalidPayload "empty")))
  else if role.maxBlobBytes < bytes.length then (disk, .error (.validation (.invalidPayload "exceeds size limit")))
  else
    match role.root with
    | none => (disk, .error noRole)
    | some root =>
      let (disk, answer) := Store.put root disk bucket key bytes
      (disk, answer.mapError ofBlob)

def get (role : Role) (disk : Disk limits) (bucket key : Bytes) : Except Relay.Http.CoreError Bytes :=
  match role.root with
  | none => .error noRole
  | some root => (Store.get root disk bucket key).mapError ofBlob

/-- A response of the blob routes. -/
inductive Reply where
  | created
  | octets (bytes : Bytes)
  | failed (response : Response)
  /-- The refusal of a body by the route. -/
  | tooLarge
  deriving DecidableEq

def Reply.status : Reply → Nat
  | .created => 201
  | .octets _ => 200
  | .failed response => response.status
  | .tooLarge => 413

def blobPut (role : Role) (disk : Disk limits) (bucket key body : Bytes) : Disk limits × Reply :=
  if blobLimit role.maxBlobBytes < body.length then (disk, .tooLarge)
  else
    match put role disk bucket key body with
    | (disk, .ok ()) => (disk, .created)
    | (disk, .error e) => (disk, .failed (intoResponse e))

def blobGet (role : Role) (disk : Disk limits) (bucket key : Bytes) : Reply :=
  match get role disk bucket key with
  | .ok bytes => .octets bytes
  | .error e => .failed (intoResponse e)

inductive BlobError where
  /-- `BlobRoleUnavailable` -/
  | roleUnavailable
  | error (text : String)
  deriving DecidableEq

/-- `putBlob`, from the response. -/
def putBlob (reply : Reply) : Except BlobError Unit :=
  if reply.status = 501 then .error .roleUnavailable
  else if 200 ≤ reply.status ∧ reply.status ≤ 299 then .ok ()
  else .error (.error ("blob put failed: " ++ toString reply.status))

/-- `getBlob`, from the response. -/
def getBlob (reply : Reply) : Except BlobError Bytes :=
  if reply.status = 501 then .error .roleUnavailable
  else if 200 ≤ reply.status ∧ reply.status ≤ 299 then
    match reply with
    | .octets bytes => .ok bytes
    | _ => .ok []
  else .error (.error ("blob get failed: " ++ toString reply.status))

/-- The key of `randomLocator`, by the bytes it draws. -/
def locatorKey (locator : Bytes32) : Bytes := Hex.utf8 (Hex.encode locator.toList)

/-- How far an upload got when the process stopped: to the store, with a number of the
directories on its way made, into the write, or past the rename. -/
inductive Stop where
  | resolved
  | making (count : Nat)
  | writing (count : Nat)
  | renamed

/-- What an upload leaves behind that stopped. -/
def stopped (root : Text) (disk : Disk limits) (bucket key bytes : Bytes) (stop : Stop) : Disk limits :=
  match resolve root bucket key with
  | .error _ => disk
  | .ok path =>
    match parent path with
    | none => disk
    | some directory =>
      match stop with
      | .resolved => disk
      | .making count => if limits.Takes directory then (disk.createDirAll ((below root directory).take count)).1 else disk
      | .writing count =>
        match createDirAll root disk directory with
        | (disk, .error _) => disk
        | (disk, .ok ()) =>
          match writeFile root disk (tmpPath path) (bytes.take count) with
          | .error _ => disk
          | .ok disk => disk
      | .renamed => (Store.put root disk bucket key bytes).1

def cutOff (role : Role) (disk : Disk limits) (bucket key bytes : Bytes) (stop : Stop) : Disk limits :=
  if blobLimit role.maxBlobBytes < bytes.length then disk
  else if bytes = [] then disk
  else if role.maxBlobBytes < bytes.length then disk
  else
    match role.root with
    | none => disk
    | some root => stopped root disk bucket key bytes stop

end

/-- A request to the blob routes, under a key of the node's or a locator of a client's. -/
inductive Call (Key : Type) where
  | put (bucket : Bytes) (key : Key) (body : Bytes)
  | get (bucket : Bytes) (key : Key)
  /-- An upload that the node did not live to answer. -/
  | cutOff (bucket : Bytes) (key : Key) (body : Bytes) (stop : Stop)

def Call.map {Key Other : Type} (f : Key → Other) : Call Key → Call Other
  | .put bucket key body => .put bucket (f key) body
  | .get bucket key => .get bucket (f key)
  | .cutOff bucket key body stop => .cutOff bucket (f key) body stop

section
variable {limits : Limits}

def perform (role : Role) (disk : Disk limits) : Call Bytes → Disk limits × Option Reply
  | .put bucket key body => ((blobPut role disk bucket key body).1, some (blobPut role disk bucket key body).2)
  | .get bucket key => (disk, some (blobGet role disk bucket key))
  | .cutOff bucket key body stop => (cutOff role disk bucket key body stop, none)

def step (role : Role) (done : Disk limits × List (Option Reply)) (call : Call Bytes) :
    Disk limits × List (Option Reply) :=
  ((perform role done.1 call).1, done.2 ++ [(perform role done.1 call).2])

/-- The replies of a run from an empty store. -/
def run (limits : Limits) (role : Role) (calls : List (Call Bytes)) : Disk limits × List (Option Reply) :=
  calls.foldl (step role) (Tree.empty, [])

end

instance (segment : Bytes) : Decidable (Safe segment) := inferInstanceAs (Decidable (_ ∧ _))

/-- What the role is for: a map from buckets and locators to bytes. An upload that comes to
a directory first creates the root. -/
structure Shelf where
  objects : Bytes → Bytes32 → Option Bytes
  founded : Bool

namespace Shelf

def empty : Shelf := ⟨fun _ _ => none, false⟩

def put (shelf : Shelf) (bucket : Bytes) (locator : Bytes32) (body : Bytes) : Shelf :=
  { shelf with
    objects := fun other key => if other = bucket ∧ key = locator then some body else shelf.objects other key }

def found (shelf : Shelf) (limits : Limits) (root : Text) (bucket : Bytes) : Shelf :=
  { shelf with founded := shelf.founded || limits.Takes (push root bucket) }

/-- An upload that stopped counts from its rename on, if it got there. -/
def halted (shelf : Shelf) (limits : Limits) (root : Text) (bucket : Bytes) (locator : Bytes32) (body : Bytes) :
    Stop → Shelf
  | .resolved => shelf
  | .making _ => shelf.found limits root bucket
  | .writing _ => shelf.found limits root bucket
  | .renamed =>
    if limits.short bucket then (shelf.found limits root bucket).put bucket locator body
    else shelf.found limits root bucket

end Shelf

def unsafeComponent : Relay.Http.CoreError := .validation (.invalidPayload "unsafe blob path component")

def nameTooLong : Relay.Http.CoreError := .storage (display .nameTooLong)

/-- Why an upload comes to no directory, if it does not. -/
def refusal (maxBlobBytes : Nat) (bucket body : Bytes) : Option Reply :=
  if blobLimit maxBlobBytes < body.length then some .tooLarge
  else if body = [] then some (.failed (intoResponse (.validation (.invalidPayload "empty"))))
  else if maxBlobBytes < body.length then
    some (.failed (intoResponse (.validation (.invalidPayload "exceeds size limit"))))
  else if Safe bucket then none
  else some (.failed (intoResponse unsafeComponent))

section
variable (limits : Limits) (root : Text) (maxBlobBytes : Nat)

/-- What a map answers. A bucket whose name the file system does not take has no objects. -/
def answer (shelf : Shelf) : Call Bytes32 → Shelf × Option Reply
  | .put bucket locator body =>
    match refusal maxBlobBytes bucket body with
    | some reply => (shelf, some reply)
    | none =>
      if limits.short bucket then ((shelf.found limits root bucket).put bucket locator body, some .created)
      else (shelf.found limits root bucket, some (.failed (intoResponse nameTooLong)))
  | .get bucket locator =>
    if Safe bucket then
      if limits.short bucket then
        match shelf.objects bucket locator with
        | some bytes => (shelf, some (.octets bytes))
        | none => (shelf, some (.failed (intoResponse .notFound)))
      else if shelf.founded = false ∧ limits.Takes (push (push root bucket) (locatorKey locator)) then
        (shelf, some (.failed (intoResponse .notFound)))
      else (shelf, some (.failed (intoResponse nameTooLong)))
    else (shelf, some (.failed (intoResponse unsafeComponent)))
  | .cutOff bucket locator body stop =>
    match refusal maxBlobBytes bucket body with
    | some _ => (shelf, none)
    | none => (shelf.halted limits root bucket locator body stop, none)

def meantStep (done : Shelf × List (Option Reply)) (call : Call Bytes32) : Shelf × List (Option Reply) :=
  ((answer limits root maxBlobBytes done.1 call).1, done.2 ++ [(answer limits root maxBlobBytes done.1 call).2])

def meant (calls : List (Call Bytes32)) : Shelf × List (Option Reply) :=
  calls.foldl (meantStep limits root maxBlobBytes) (.empty, [])

end

theorem locatorKey_injective {locator other : Bytes32} (same : locatorKey locator = locatorKey other) :
    locator = other := by
  have texts : Hex.ofText (Hex.encode locator.toList) = Hex.ofText (Hex.encode other.toList) :=
    congrArg Hex.decode same
  rw [Hex.ofText_encode, Hex.ofText_encode] at texts
  exact List.Vector.toList_injective (Except.ok.inj texts)

theorem locatorKey_length (locator : Bytes32) : (locatorKey locator).length = 64 := by
  rw [locatorKey, Hex.utf8_encode, List.length_map, Hex.encode_length, locator.toList_length]

/-- A locator needs no directory below its bucket, and no check rejects it. -/
theorem locatorKey_safe (locator : Bytes32) : Safe (locatorKey locator) := by
  have digits : ∀ value : Fin 16, Hex.code (Hex.digit value) ∉ [slash, dot, backslash, nul] := by decide
  have free : ∀ byte ∈ locatorKey locator, byte ∉ [slash, dot, backslash, nul] := by
    intro byte member
    rw [locatorKey, Hex.utf8_encode, List.mem_map] at member
    obtain ⟨c, inside, rfl⟩ := member
    obtain ⟨value, rfl⟩ := Hex.mem_encode inside
    exact digits value
  have apart : ∀ byte ∈ [slash, dot, backslash, nul], byte ∉ locatorKey locator :=
    fun byte listed member => free byte member listed
  have long := locatorKey_length locator
  have other {text : Bytes} (short : text.length < 64) : locatorKey locator ≠ text := by
    intro same
    rw [same] at long
    omega
  refine ⟨⟨other (by decide), other (by decide), other (by decide), apart slash (by simp)⟩, ?_, ?_⟩
  · exact apart backslash (by simp)
  · exact apart nul (by simp)

theorem names_locatorKey (bucket : Bytes) (locator : Bytes32) :
    names bucket (locatorKey locator) = [bucket, locatorKey locator] := by
  rw [names, List.splitOn_eq_singleton (locatorKey_safe locator).1.2.2.2]

theorem resolve_locatorKey {bucket : Bytes} (safe : Safe bucket) (root : Text) (locator : Bytes32) :
    ∃ path, resolve root bucket (locatorKey locator) = .ok path := by
  refine ⟨_, resolve_eq_ok.mpr ⟨(locatorKey_safe locator).1.1, ?_, rfl⟩⟩
  rw [names_locatorKey]
  exact List.forall_mem_cons.mpr ⟨safe, List.forall_mem_singleton.mpr (locatorKey_safe locator)⟩

/-- Where the object of a locator is kept. -/
theorem resolve_place {root path : Text} {bucket : Bytes} {locator : Bytes32}
    (resolved : resolve root bucket (locatorKey locator) = .ok path) :
    path = push (push root bucket) (locatorKey locator) ∧ parent path = some (push root bucket) ∧
      tmpPath path = path ++ tmpSuffix ∧ below root path = [bucket, locatorKey locator] ∧
      below root (path ++ tmpSuffix) = [bucket, locatorKey locator ++ tmpSuffix] ∧
      below root (push root bucket) = [bucket] := by
  obtain ⟨directory, last, split, place, longer, tmpPlace, parentPath, isParent, parentPlace, -⟩ := resolve_below resolved
  obtain ⟨-, safe, whole⟩ := resolve_eq_ok.mp resolved
  rw [names_locatorKey] at split safe whole
  obtain ⟨rfl, rfl⟩ : directory = [bucket] ∧ last = locatorKey locator := by
    have lists : directory.concat last = [bucket].concat (locatorKey locator) := by
      rw [List.concat_eq_append, ← split]
      rfl
    exact ⟨List.init_eq_of_concat_eq lists, List.last_eq_of_concat_eq lists⟩
  have texts : path = push (push root bucket) (locatorKey locator) := whole.symm
  have plain : Plain bucket := (safe bucket (by simp)).1
  have isParent' : parent path = some (push root bucket) := by
    rw [texts, parent_push (locatorKey_safe locator).1, trimmed_push plain]
  rw [isParent', Option.some.injEq] at isParent
  rw [← isParent] at parentPlace
  exact ⟨texts, isParent', longer, place, tmpPlace, parentPlace⟩

theorem resolve_refused {bucket : Bytes} (bad : ¬Safe bucket) (root : Text) (key : Bytes) :
    resolve root bucket key = .error (.validation (.invalidPayload "unsafe blob path component")) := by
  unfold resolve
  cases answer : safeSegment bucket with
  | ok same => exact absurd (safeSegment_eq_ok.mp answer).1 bad
  | error e =>
    unfold safeSegment at answer
    split_ifs at answer
    cases answer
    rfl

section
variable {limits : Limits}

/-- Buckets, and files in them. -/
def Flat (disk : Disk limits) : Prop :=
  ∀ path node, disk.node path = some node →
    (node = .directory ∧ path.length ≤ 1) ∨ ((∃ content, node = .file content) ∧ path.length = 2)

theorem Flat.isFile {disk : Disk limits} (flat : Flat disk) {path : List Bytes} (file : disk.isFile path = true) :
    path.length = 2 := by
  obtain ⟨content, found⟩ := Tree.isFile_iff.mp file
  rcases flat path _ found with ⟨directory, -⟩ | ⟨-, deep⟩
  · cases directory
  · exact deep

theorem Flat.not_directory {disk : Disk limits} (flat : Flat disk) (bucket name : Bytes) :
    disk.node [bucket, name] ≠ some .directory := by
  intro found
  rcases flat _ _ found with ⟨-, short⟩ | ⟨⟨content, file⟩, -⟩
  · rw [List.length_cons, List.length_singleton] at short
    omega
  · cases file

/-- No file stands on the way to a place in a bucket. -/
theorem Flat.not_blocked {disk : Disk limits} (flat : Flat disk) {path : List Bytes} (near : path.length ≤ 2) :
    ¬disk.Blocked path := by
  rintro ⟨depth, shorter, file⟩
  have deep := flat.isFile file
  rw [List.length_take] at deep
  omega

/-- The directories on the way to a bucket, or a part of it, leave the store flat. -/
theorem Flat.createDirAll {disk : Disk limits} (flat : Flat disk) {path : List Bytes} (near : path.length ≤ 1) :
    Flat (disk.createDirAll path).1 := by
  intro other node found
  rcases Tree.createDirAll_node disk path other with same | ⟨onTheWay, -, added⟩
  · exact flat other node (same ▸ found)
  · left
    rw [added] at found
    refine ⟨(Option.some.inj found).symm, ?_⟩
    have lengths := congrArg List.length onTheWay
    rw [List.length_take] at lengths
    omega

/-- They create the root, and answer by the length of the bucket's name alone. -/
theorem Flat.createDirAll_answer {disk : Disk limits} (flat : Flat disk) {path : List Bytes} (near : path.length ≤ 1) :
    (disk.createDirAll path).1.node [] = some .directory ∧
      (disk.createDirAll path).2 = if path.all limits.short then .ok () else .error .nameTooLong := by
  have noFile : ¬disk.isFile path = true := by
    intro file
    have := flat.isFile file
    omega
  have free := flat.not_blocked (by omega : path.length ≤ 2)
  unfold Tree.createDirAll
  rw [if_neg noFile, dif_neg free]
  refine ⟨?_, rfl⟩
  change disk.addDirectories _ [] = _
  unfold Tree.addDirectories
  split_ifs with missing
  · rfl
  · cases top : disk.node [] with
    | none => exact absurd ⟨rfl, top⟩ missing
    | some node =>
      rcases flat [] node top with ⟨rfl, -⟩ | ⟨-, deep⟩
      · rfl
      · cases deep

/-- A write in a bucket that is there cannot fail. -/
theorem Flat.write {disk : Disk limits} (flat : Flat disk) {bucket name : Bytes}
    (ready : disk.node [bucket] = some .directory) (short : limits.short name = true) (bytes : Bytes) :
    ∃ written, disk.write [bucket, name] bytes = .ok written ∧ Flat written := by
  have isOpen : disk.Open ([bucket] ++ [name]) :=
    Tree.open_concat.mpr ⟨ready, flat.not_directory bucket name, short⟩
  obtain ⟨written, wrote⟩ : ∃ written, disk.write [bucket, name] bytes = .ok written := ⟨_, dif_pos isOpen⟩
  obtain ⟨-, here, others⟩ := Tree.write_ok wrote
  refine ⟨written, wrote, ?_⟩
  intro path node found
  by_cases place : path = [bucket, name]
  · rw [place, here] at found
    exact Or.inr ⟨⟨bytes, (Option.some.inj found).symm⟩, congrArg List.length place⟩
  · exact flat path node (others path place ▸ found)

/-- Nor can the rename of the file written. -/
theorem Flat.renameFile {disk : Disk limits} (flat : Flat disk) {bucket name target bytes : Bytes}
    (ready : disk.node [bucket] = some .directory) (short : limits.short target = true)
    (apart : [bucket, name] ≠ [bucket, target]) (source : disk.node [bucket, name] = some (.file bytes)) :
    ∃ after, disk.renameFile [bucket, name] [bucket, target] = .ok after ∧ Flat after ∧
      after.node [] = disk.node [] ∧ after.content [bucket, target] = some bytes ∧
      ∀ other, other ≠ [bucket, name] → other ≠ [bucket, target] → after.content other = disk.content other := by
  cases moved : disk.renameFile [bucket, name] [bucket, target] with
  | error e =>
    rcases Tree.renameFile_error moved with noFile | closed
    · exact absurd (Tree.isFile_iff.mpr ⟨bytes, source⟩) noFile
    · exact absurd (Tree.open_concat.mpr ⟨ready, flat.not_directory bucket target, short⟩) closed
  | ok after =>
    obtain ⟨content, found, -, here, gone, rest⟩ := Tree.renameFile_ok moved
    obtain rfl : bytes = content := by
      rw [source] at found
      cases found
      rfl
    refine ⟨after, rfl, ?_, rest [] (by simp) (by simp), ?_,
      fun other notSource notTarget => Tree.content_eq (rest other notSource notTarget)⟩
    · intro path node present
      by_cases place : path = [bucket, target]
      · rw [place, here] at present
        exact Or.inr ⟨⟨bytes, (Option.some.inj present).symm⟩, congrArg List.length place⟩
      · by_cases old : path = [bucket, name]
        · rw [old, gone apart] at present
          cases present
        · exact flat path node (rest path old place ▸ present)
    · rw [Tree.content, here]

/-- A temporary file has no object's name. -/
theorem locatorKey_ne_tmp (bucket bucket' : Bytes) (locator other : Bytes32) :
    [bucket', locatorKey other] ≠ [bucket, locatorKey locator ++ tmpSuffix] := by
  intro same
  have lengths := congrArg List.length (List.cons.inj (List.cons.inj same).2).1
  rw [List.length_append, locatorKey_length, locatorKey_length] at lengths
  have long : tmpSuffix.length = 4 := rfl
  omega

/-- The map that a disk shows. -/
structure Shows (disk : Disk limits) (shelf : Shelf) : Prop where
  flat : Flat disk
  same : ∀ bucket locator, disk.content [bucket, locatorKey locator] = shelf.objects bucket locator
  founded : shelf.founded = disk.isDirectory []

theorem Shows.empty : Shows (Tree.empty : Disk limits) .empty :=
  ⟨fun _ _ found => absurd found nofun, fun _ _ => rfl, rfl⟩

theorem Shows.keep {disk after : Disk limits} {shelf : Shelf} (shows_ : Shows disk shelf) (flat : Flat after)
    (top : after.node [] = disk.node [])
    (kept : ∀ bucket locator, after.content [bucket, locatorKey locator] = disk.content [bucket, locatorKey locator]) :
    Shows after shelf where
  flat := flat
  same bucket locator := (kept bucket locator).trans (shows_.same bucket locator)
  founded := by
    rw [shows_.founded, Tree.isDirectory, Tree.isDirectory, top]

/-- The root leaves room for a bucket, and names for a locator's temporary file. -/
structure Roomy (limits : Limits) (root : Text) : Prop where
  name : 68 ≤ limits.name
  path : root.length + limits.name + 70 < limits.path

variable {root path : Text} {disk : Disk limits} {shelf : Shelf} {bucket : Bytes} {locator : Bytes32}

theorem Roomy.short (roomy : Roomy limits root) (locator : Bytes32) :
    limits.short (locatorKey locator) = true ∧ limits.short (locatorKey locator ++ tmpSuffix) = true := by
  have long := locatorKey_length locator
  have suffix : tmpSuffix.length = 4 := rfl
  have wide := roomy.name
  simp only [Limits.short, decide_eq_true_eq, List.length_append]
  omega

/-- A bucket whose name is short leads to paths that are. -/
theorem Roomy.takes (roomy : Roomy limits root) (safe : Safe bucket) (short : limits.short bucket = true)
    (locator : Bytes32) :
    limits.Takes (push root bucket) ∧ limits.Takes (push (push root bucket) (locatorKey locator)) ∧
      limits.Takes (push (push root bucket) (locatorKey locator) ++ tmpSuffix) := by
  have directory := push_length_le safe.1 root
  have place := push_length_le (locatorKey_safe locator).1 (push root bucket)
  have long := locatorKey_length locator
  have suffix : tmpSuffix.length = 4 := rfl
  have wide := roomy.path
  simp only [Limits.short, decide_eq_true_eq] at short
  simp only [Limits.Takes, List.length_append]
  omega

/-- Directories on the way to a bucket are nobody's objects, and they found the store. -/
theorem Shows.making (shows_ : Shows disk shelf) {part : List Bytes} (near : part.length ≤ 1) :
    Shows (disk.createDirAll part).1 { shelf with founded := true } where
  flat := shows_.flat.createDirAll near
  same other key := (Tree.createDirAll_content disk part _).trans (shows_.same other key)
  founded := (Tree.isDirectory_iff.mpr (shows_.flat.createDirAll_answer near).1).symm

/-- The same by the texts of the paths. -/
theorem Shows.made (shows_ : Shows disk shelf) (place : below root (push root bucket) = [bucket]) :
    Shows (createDirAll root disk (push root bucket)).1 (shelf.found limits root bucket) ∧
      (limits.Takes (push root bucket) → (createDirAll root disk (push root bucket)).2 =
        if limits.short bucket then .ok () else .error .nameTooLong) ∧
      (¬limits.Takes (push root bucket) → (createDirAll root disk (push root bucket)).2 = .error .nameTooLong) := by
  unfold createDirAll Shelf.found
  rw [place]
  by_cases takes : limits.Takes (push root bucket)
  · have single : [bucket].length ≤ 1 := Nat.le_refl 1
    have answered := (shows_.flat.createDirAll_answer single).2
    rw [List.all_cons, List.all_nil, Bool.and_true] at answered
    rw [if_pos takes, decide_eq_true takes, Bool.or_true]
    exact ⟨shows_.making single, fun _ => answered, fun no => absurd takes no⟩
  · rw [if_neg takes, decide_eq_false takes, Bool.or_false]
    exact ⟨shows_, fun yes => absurd yes takes, fun _ => rfl⟩

/-- What was written of a temporary file is nobody's object. -/
theorem Shows.write (shows_ : Shows disk shelf) {name : Bytes} (short : limits.short (locatorKey locator ++ tmpSuffix) = true)
    (ready : disk.node [name] = some .directory) (bytes : Bytes) :
    ∃ written, disk.write [name, locatorKey locator ++ tmpSuffix] bytes = .ok written ∧ Shows written shelf := by
  obtain ⟨written, wrote, flat⟩ := shows_.flat.write ready short bytes
  obtain ⟨-, -, others⟩ := Tree.write_ok wrote
  exact ⟨written, wrote, shows_.keep flat (others [] (by simp))
    (fun _ _ => Tree.content_eq (others _ (locatorKey_ne_tmp _ _ _ _)))⟩

/-- A put in a bucket that is there cannot fail, and sets its object alone. -/
theorem Shows.replace (shows_ : Shows disk shelf) (roomy : Roomy limits root) (safe : Safe bucket)
    (short : limits.short bucket = true)
    (resolved : resolve root bucket (locatorKey locator) = .ok path)
    (ready : disk.node [bucket] = some .directory) (bytes : Bytes) :
    ∃ after, replace root disk (path ++ tmpSuffix) path bytes = (after, .ok ()) ∧
      Shows after (shelf.put bucket locator bytes) := by
  obtain ⟨texts, -, -, place, tmpPlace, -⟩ := resolve_place resolved
  obtain ⟨keyShort, tmpShort⟩ := roomy.short locator
  obtain ⟨-, takes, takesTmp⟩ := roomy.takes safe short locator
  rw [← texts] at takes takesTmp
  obtain ⟨written, wrote, flatWritten⟩ := shows_.flat.write ready tmpShort bytes
  obtain ⟨-, tmpNode, others⟩ := Tree.write_ok wrote
  have still : written.node [bucket] = some .directory := (others [bucket] (by simp)).trans ready
  obtain ⟨after, moved, flat, top, own, rest⟩ :=
    flatWritten.renameFile still keyShort (locatorKey_ne_tmp bucket bucket locator locator).symm tmpNode
  refine ⟨after, ?_, flat, ?_, ?_⟩
  · simp only [Store.replace, writeFile, rename, place, tmpPlace, if_pos takesTmp, if_pos (And.intro takesTmp takes),
      wrote, moved]
  · intro other key
    unfold Shelf.put
    dsimp only
    split_ifs with same
    · rw [same.1, same.2, own]
    · have elsewhere : [other, locatorKey key] ≠ [bucket, locatorKey locator] := by
        intro equal
        exact same ⟨(List.cons.inj equal).1, locatorKey_injective (List.cons.inj (List.cons.inj equal).2).1⟩
      have notTmp := locatorKey_ne_tmp bucket other locator key
      calc after.content [other, locatorKey key]
          = written.content [other, locatorKey key] := rest _ notTmp elsewhere
        _ = disk.content [other, locatorKey key] := Tree.content_eq (others _ notTmp)
        _ = shelf.objects other key := shows_.same other key
  · change shelf.founded = _
    rw [shows_.founded, Tree.isDirectory, Tree.isDirectory, top, others [] (by simp)]

/-- A put under a locator, by the name of its bucket. -/
theorem Shows.put (shows_ : Shows disk shelf) (roomy : Roomy limits root) (safe : Safe bucket)
    (resolved : resolve root bucket (locatorKey locator) = .ok path) (bytes : Bytes) :
    (limits.short bucket = true → ∃ after, Store.put root disk bucket (locatorKey locator) bytes = (after, .ok ()) ∧
        Shows after ((shelf.found limits root bucket).put bucket locator bytes)) ∧
      (limits.short bucket = false → ∃ after, Store.put root disk bucket (locatorKey locator) bytes =
          (after, .error (storage .nameTooLong)) ∧ Shows after (shelf.found limits root bucket)) := by
  obtain ⟨-, isParent, longer, -, -, parentPlace⟩ := resolve_place resolved
  obtain ⟨ready, answered, refused⟩ := shows_.made parentPlace
  simp only [Store.put, resolved, isParent, longer]
  cases made : createDirAll root disk (push root bucket) with
  | mk disk' answer =>
    rw [made] at ready answered refused
    constructor
    · intro short
      obtain ⟨takes, -⟩ := roomy.takes safe short locator
      obtain rfl : answer = .ok () := (answered takes).trans (if_pos short)
      have here : disk'.node [bucket] = some .directory := by
        have done : (disk.createDirAll [bucket]).2 = .ok () := by
          have := congrArg Prod.snd made
          rwa [createDirAll, if_pos takes, parentPlace] at this
        have same : disk' = (disk.createDirAll [bucket]).1 := by
          have := congrArg Prod.fst made
          rw [createDirAll, if_pos takes, parentPlace] at this
          exact this.symm
        rw [same]
        exact Tree.createDirAll_ok done
      exact ready.replace roomy safe short resolved here bytes
    · intro long
      have failed : answer = .error .nameTooLong := by
        by_cases takes : limits.Takes (push root bucket)
        · exact (answered takes).trans (if_neg (by simp [long]))
        · exact refused takes
      subst failed
      exact ⟨disk', rfl, ready⟩

/-- Reading is looking at the map, while the name of the bucket is short. -/
theorem Shows.get (shows_ : Shows disk shelf) (roomy : Roomy limits root) (safe : Safe bucket)
    (short : limits.short bucket = true) (resolved : resolve root bucket (locatorKey locator) = .ok path) :
    Store.get root disk bucket (locatorKey locator) = match shelf.objects bucket locator with
      | some bytes => .ok bytes
      | none => .error .notFound := by
  have clear : Clear root disk (.get bucket (locatorKey locator)) := by
    intro path resolved
    obtain ⟨texts, -, -, place, -⟩ := resolve_place resolved
    rw [place, Tree.isDirectory_iff, texts]
    refine ⟨(roomy.takes safe short locator).2.1, shows_.flat.not_blocked (Nat.le_refl 2), ?_,
      shows_.flat.not_directory bucket _⟩
    exact Tree.not_overlong (List.forall_mem_cons.mpr ⟨short, List.forall_mem_singleton.mpr (roomy.short locator).1⟩)
  have answered := get_spec clear resolved
  rw [object, names_locatorKey, shows_.same] at answered
  exact answered

/-- A bucket with a long name is looked for only where the root is. -/
theorem Shows.get_long (shows_ : Shows disk shelf) (long : limits.short bucket = false)
    (resolved : resolve root bucket (locatorKey locator) = .ok path) :
    Store.get root disk bucket (locatorKey locator) = .error
      (if shelf.founded = false ∧ limits.Takes (push (push root bucket) (locatorKey locator)) then .notFound
        else storage .nameTooLong) := by
  obtain ⟨rfl, -, -, place, -⟩ := resolve_place resolved
  have absent : disk.node [bucket, locatorKey locator] = none := by
    by_contra present
    have short := Tree.all_short present bucket List.mem_cons_self
    rw [long] at short
    cases short
  have overlong : disk.Overlong [bucket, locatorKey locator] ↔ shelf.founded = true := by
    rw [shows_.founded]
    constructor
    · rintro ⟨depth, shorter, directory, -⟩
      rcases depth with _ | depth
      · exact directory
      · -- nothing stands below a name that is too long
        have present := Tree.isDirectory_iff.mp directory
        have short := Tree.all_short (by rw [present]; simp) bucket (by simp)
        rw [long] at short
        cases short
    · intro top
      exact ⟨0, Nat.succ_pos 1, top, long⟩
  simp only [Store.get, resolved, readFile, place]
  by_cases takes : limits.Takes (push (push root bucket) (locatorKey locator))
  · have free : ¬disk.Blocked [bucket, locatorKey locator] := shows_.flat.not_blocked (Nat.le_refl 2)
    rw [if_pos takes, Tree.read, Tree.stat, absent]
    dsimp only
    rw [if_neg free]
    by_cases top : shelf.founded = true
    · rw [if_pos (overlong.mpr top), if_neg (by simp [top])]
    · rw [if_neg (fun found => top (overlong.mp found)), if_pos ⟨Bool.eq_false_iff.mpr top, takes⟩]
  · rw [if_neg takes, if_neg (fun both => takes both.2)]

/-- An upload that stopped has changed nothing that a client can see, or all of it. -/
theorem Shows.stopped (shows_ : Shows disk shelf) (roomy : Roomy limits root) (safe : Safe bucket)
    (resolved : resolve root bucket (locatorKey locator) = .ok path) (bytes : Bytes) (stop : Stop) :
    Shows (stopped root disk bucket (locatorKey locator) bytes stop)
      (shelf.halted limits root bucket locator bytes stop) := by
  obtain ⟨texts, isParent, longer, -, tmpPlace, parentPlace⟩ := resolve_place resolved
  simp only [Api.stopped, resolved, isParent]
  cases stop with
  | resolved => exact shows_
  | making count =>
    unfold Shelf.halted Shelf.found
    dsimp only
    rw [parentPlace]
    by_cases takes : limits.Takes (push root bucket)
    · rw [if_pos takes, decide_eq_true takes, Bool.or_true]
      exact shows_.making (by simp)
    · rw [if_neg takes, decide_eq_false takes, Bool.or_false]
      exact shows_
  | writing count =>
    obtain ⟨ready, answered, refused⟩ := shows_.made parentPlace
    dsimp only
    cases made : createDirAll root disk (push root bucket) with
    | mk disk' answer =>
      rw [made] at ready answered refused
      cases answer with
      | error e => exact ready
      | ok nothing =>
        dsimp only
        rw [longer]
        cases wrote : writeFile root disk' (path ++ tmpSuffix) (bytes.take count) with
        | error e => exact ready
        | ok written =>
          dsimp only
          unfold writeFile at wrote
          split_ifs at wrote with takes
          rw [tmpPlace] at wrote
          obtain ⟨isOpen, -, others⟩ := Tree.write_ok wrote
          obtain ⟨here, -, tmpShort⟩ := (@Tree.open_concat _ _ _ _ [bucket] _).mp isOpen
          obtain ⟨written', wrote', after⟩ := ready.write tmpShort here (bytes.take count)
          rw [wrote, Except.ok.injEq] at wrote'
          exact wrote' ▸ after
  | renamed =>
    obtain ⟨whenShort, whenLong⟩ := shows_.put roomy safe resolved bytes
    unfold Shelf.halted
    by_cases short : limits.short bucket = true
    · obtain ⟨after, answered, done⟩ := whenShort short
      rw [answered, if_pos short]
      exact done
    · obtain ⟨after, answered, done⟩ := whenLong (Bool.eq_false_iff.mpr short)
      rw [answered, if_neg short]
      exact done

theorem blobPut_refused {max : Nat} {key body : Bytes} {reply : Reply} (refused : refusal max bucket body = some reply) :
    blobPut ⟨some root, max⟩ disk bucket key body = (disk, reply) := by
  unfold refusal at refused
  unfold blobPut Api.put
  split_ifs at refused ⊢ with huge empty large safe
  · cases refused
    rfl
  · cases refused
    rfl
  · cases refused
    rfl
  · cases refused
    simp only [put_refused (resolve_refused safe root key)]
    rfl

theorem blobPut_accepted {max : Nat} {key body : Bytes} (accepted : refusal max bucket body = none) :
    Safe bucket ∧ blobPut ⟨some root, max⟩ disk bucket key body =
      match Store.put root disk bucket key body with
      | (after, .ok ()) => (after, .created)
      | (after, .error e) => (after, .failed (intoResponse (ofBlob e))) := by
  unfold refusal at accepted
  unfold blobPut Api.put
  split_ifs at accepted ⊢ with huge empty large safe
  refine ⟨safe, ?_⟩
  dsimp only
  cases Store.put root disk bucket key body with
  | mk after answer => cases answer <;> rfl

theorem cutOff_refused {max : Nat} {key body : Bytes} {reply : Reply} (refused : refusal max bucket body = some reply)
    (stop : Stop) : cutOff ⟨some root, max⟩ disk bucket key body stop = disk := by
  unfold refusal at refused
  unfold cutOff
  split_ifs at refused ⊢ with huge empty large safe
  · rfl
  · rfl
  · rfl
  · simp only [Api.stopped, resolve_refused safe root key]

theorem cutOff_accepted {max : Nat} {key body : Bytes} (accepted : refusal max bucket body = none) (stop : Stop) :
    cutOff ⟨some root, max⟩ disk bucket key body stop = Api.stopped root disk bucket key body stop := by
  unfold refusal at accepted
  unfold cutOff
  split_ifs at accepted ⊢
  rfl

/-- One request, in every case of it. -/
theorem Shows.perform (shows_ : Shows disk shelf) (roomy : Roomy limits root) (max : Nat) (call : Call Bytes32) :
    (perform ⟨some root, max⟩ disk (call.map locatorKey)).2 = (answer limits root max shelf call).2 ∧
      Shows (perform ⟨some root, max⟩ disk (call.map locatorKey)).1 (answer limits root max shelf call).1 := by
  cases call with
  | put bucket locator body =>
    simp only [Call.map, Api.perform, answer]
    cases outcome : refusal max bucket body with
    | some reply =>
      rw [blobPut_refused outcome]
      exact ⟨rfl, shows_⟩
    | none =>
      obtain ⟨safe, called⟩ := blobPut_accepted outcome
      obtain ⟨path, resolved⟩ := resolve_locatorKey safe root locator
      obtain ⟨whenShort, whenLong⟩ := shows_.put roomy safe resolved body
      rw [called]
      by_cases short : limits.short bucket = true
      · obtain ⟨after, answered, done⟩ := whenShort short
        simp only [answered, if_pos short]
        exact ⟨trivial, done⟩
      · obtain ⟨after, answered, done⟩ := whenLong (Bool.eq_false_iff.mpr short)
        simp only [answered, if_neg short]
        exact ⟨rfl, done⟩
  | get bucket locator =>
    simp only [Call.map, Api.perform, blobGet, Api.get, answer]
    by_cases safe : Safe bucket
    · obtain ⟨path, resolved⟩ := resolve_locatorKey safe root locator
      rw [if_pos safe]
      by_cases short : limits.short bucket = true
      · rw [shows_.get roomy safe short resolved, if_pos short]
        cases shelf.objects bucket locator with
        | none => exact ⟨rfl, shows_⟩
        | some bytes => exact ⟨rfl, shows_⟩
      · rw [shows_.get_long (Bool.eq_false_iff.mpr short) resolved, if_neg short]
        by_cases missing : shelf.founded = false ∧ limits.Takes (push (push root bucket) (locatorKey locator))
        · rw [if_pos missing, if_pos missing]
          exact ⟨rfl, shows_⟩
        · rw [if_neg missing, if_neg missing]
          exact ⟨rfl, shows_⟩
    · simp only [if_neg safe, Store.get, resolve_refused safe root, Except.mapError, ofBlob]
      exact ⟨rfl, shows_⟩
  | cutOff bucket locator body stop =>
    simp only [Call.map, Api.perform, answer]
    cases outcome : refusal max bucket body with
    | some reply =>
      rw [cutOff_refused outcome]
      exact ⟨rfl, shows_⟩
    | none =>
      obtain ⟨safe, -⟩ := @blobPut_accepted limits root disk bucket max (locatorKey locator) body outcome
      obtain ⟨path, resolved⟩ := resolve_locatorKey safe root locator
      rw [cutOff_accepted outcome]
      exact ⟨rfl, shows_.stopped roomy safe resolved body stop⟩

/-- Any number of requests, from any state that shows a map. -/
theorem Shows.run (roomy : Roomy limits root) (max : Nat) (calls : List (Call Bytes32)) {disk : Disk limits}
    {shelf : Shelf} (shows_ : Shows disk shelf) (replies : List (Option Reply)) :
    ((calls.map (Call.map locatorKey)).foldl (step ⟨some root, max⟩) (disk, replies)).2 =
        (calls.foldl (meantStep limits root max) (shelf, replies)).2 ∧
      Shows ((calls.map (Call.map locatorKey)).foldl (step ⟨some root, max⟩) (disk, replies)).1
        (calls.foldl (meantStep limits root max) (shelf, replies)).1 := by
  induction calls generalizing disk shelf replies with
  | nil => exact ⟨rfl, shows_⟩
  | cons call calls ih =>
    obtain ⟨same, next⟩ := shows_.perform roomy max call
    rw [List.map_cons, List.foldl_cons, List.foldl_cons, step, meantStep, same]
    exact ih next _

end

/-- A node with the blob role answers the clients as a map from locators would, whatever
they ask, in whatever order, and wherever uploads were cut off: a request is refused for
what it is, a bucket whose name no file system takes is no bucket, and nothing else fails. -/
theorem locators_are_a_map {limits : Limits} {root : Text} (roomy : Roomy limits root) (maxBlobBytes : Nat)
    (calls : List (Call Bytes32)) :
    (run limits ⟨some root, maxBlobBytes⟩ (calls.map (Call.map locatorKey))).2 =
      (meant limits root maxBlobBytes calls).2 :=
  (Shows.run roomy maxBlobBytes calls Shows.empty []).1

def sampleLocator (byte : UInt8) : Bytes32 := List.Vector.replicate 32 byte

/-- An upload is cut off before its rename, repeated, and read; the name of the second bucket
is too long. -/
def sampleCalls : List (Call Bytes32) :=
  [.cutOff [0x62] (sampleLocator 5) [1, 2] (.writing 1), .get [0x62] (sampleLocator 5),
    .put [0x62] (sampleLocator 5) [1, 2], .get [0x62] (sampleLocator 5),
    .put (List.replicate 256 0x62) (sampleLocator 5) [3]]

theorem locators_are_a_map_sample :
    (run linux ⟨some [0x72], 1000⟩ (sampleCalls.map (Call.map locatorKey))).2 =
      [none, some (.failed ⟨404, .error "not found"⟩), some .created, some (.octets [1, 2]),
        some (.failed ⟨500, .error "internal error"⟩)] := by
  have roomy : Roomy linux [0x72] := ⟨by decide, by decide⟩
  exact (locators_are_a_map roomy 1000 sampleCalls).trans (by decide +kernel)

end Buh.Blob.Api
