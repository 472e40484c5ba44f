import Buh.Library.FileTree
import Buh.Blob.Resolve

/-! The object store of `fs_blob.rs` over a healthy file system: `exists`, `put` and `get`
as the file operations they make. The tree is what stands below the root; the root and
the way to it can always be created. -/

namespace Buh.Blob.Store
open Buh.Library.UnixPath Buh.Library.FileTree Buh.Wire.Codec Buh.Blob.Resolve

/-- The text of an `io::Error` on Linux. -/
def display : Failure → String
  | .notFound => "No such file or directory (os error 2)"
  | .alreadyExists => "File exists (os error 17)"
  | .notADirectory => "Not a directory (os error 20)"
  | .isADirectory => "Is a directory (os error 21)"
  | .nameTooLong => "File name too long (os error 36)"

def storage (e : Failure) : CoreError := .storage (display e)

/-- `NAME_MAX` of the file system and `PATH_MAX` of the kernel, which counts the final NUL. -/
structure Limits where
  name : Nat
  path : Nat

def Limits.short (limits : Limits) (name : Bytes) : Bool := name.length ≤ limits.name

/-- The kernel takes the text of the path. -/
def Limits.Takes (limits : Limits) (path : Text) : Prop := path.length < limits.path

instance (limits : Limits) (path : Text) : Decidable (limits.Takes path) :=
  inferInstanceAs (Decidable (path.length < limits.path))

abbrev Disk (limits : Limits) := Tree Bytes Bytes limits.short

def componentName : Component → Option Bytes
  | .normal name => some name
  | _ => none

/-- The names that lead from the root to `path`. -/
def below (root path : Text) : List Bytes := ((components path).drop (components root).length).filterMap componentName

section
variable {limits : Limits}

/-! The file operations on paths below the root. -/

/-- `fs::metadata` -/
def metadata (root : Text) (disk : Disk limits) (path : Text) : Except Failure (Node Bytes) :=
  if limits.Takes path then disk.stat (below root path) else .error .nameTooLong

/-- `fs::read` -/
def readFile (root : Text) (disk : Disk limits) (path : Text) : Except Failure Bytes :=
  if limits.Takes path then disk.read (below root path) else .error .nameTooLong

/-- `fs::create_dir_all`: it starts over from the parent only where something is missing. -/
def createDirAll (root : Text) (disk : Disk limits) (path : Text) : Disk limits × Except Failure Unit :=
  if limits.Takes path then disk.createDirAll (below root path) else (disk, .error .nameTooLong)

/-- `fs::write` -/
def writeFile (root : Text) (disk : Disk limits) (path : Text) (bytes : Bytes) : Except Failure (Disk limits) :=
  if limits.Takes path then disk.write (below root path) bytes else .error .nameTooLong

/-- `fs::rename` -/
def rename (root : Text) (disk : Disk limits) (source target : Text) : Except Failure (Disk limits) :=
  if limits.Takes source ∧ limits.Takes target then disk.renameFile (below root source) (below root target)
  else .error .nameTooLong

/-- `exists` -/
def existsAt (root : Text) (disk : Disk limits) (bucket key : Bytes) : Except CoreError Bool :=
  match resolve root bucket key with
  | .error e => .error e
  | .ok path =>
    match metadata root disk path with
    | .ok .directory => .ok false
    | .ok (.file _) => .ok true
    | .error .notFound => .ok false
    | .error e => .error (storage e)

def get (root : Text) (disk : Disk limits) (bucket key : Bytes) : Except CoreError Bytes :=
  match resolve root bucket key with
  | .error e => .error e
  | .ok path =>
    match readFile root disk path with
    | .ok bytes => .ok bytes
    | .error .notFound => .error .notFound
    | .error e => .error (storage e)

/-- The write and the rename of `put`, with the disk that each leaves behind. -/
def replace (root : Text) (disk : Disk limits) (tmp path : Text) (bytes : Bytes) : Disk limits × Except CoreError Unit :=
  match writeFile root disk tmp bytes with
  | .error e => (disk, .error (storage e))
  | .ok disk =>
    match rename root disk tmp path with
    | .error e => (disk, .error (storage e))
    | .ok disk => (disk, .ok ())

def put (root : Text) (disk : Disk limits) (bucket key bytes : Bytes) : Disk limits × Except CoreError Unit :=
  match resolve root bucket key with
  | .error e => (disk, .error e)
  | .ok path =>
    match parent path with
    | none => replace root disk (tmpPath path) path bytes
    | some directory =>
      match createDirAll root disk directory with
      | (disk, .error e) => (disk, .error (storage e))
      | (disk, .ok ()) => replace root disk (tmpPath path) path bytes

theorem below_of_components {root path : Text} {names : List Bytes}
    (same : components path = components root ++ names.map .normal) : below root path = names := by
  rw [below, same, List.drop_left, List.filterMap_map]
  exact List.filterMap_some

/-- Where an accepted pair is kept: the object, its directory and its temporary file. -/
theorem resolve_below {root path : Text} {bucket key : Bytes} (resolved : resolve root bucket key = .ok path) :
    ∃ directory last, names bucket key = directory ++ [last] ∧ below root path = directory ++ [last] ∧
      tmpPath path = path ++ tmpSuffix ∧ below root (path ++ tmpSuffix) = directory ++ [last ++ tmpSuffix] ∧
      ∃ parentPath, parent path = some parentPath ∧ below root parentPath = directory ∧
        parentPath.length ≤ path.length := by
  obtain ⟨-, safe, rfl⟩ := resolve_eq_ok.mp resolved
  obtain ⟨before, last, split, -⟩ := names_split bucket key
  rw [split] at safe
  have final : Safe last := safe last (by simp)
  have inner := components_foldl_push root (fun name member => safe name (List.mem_append_left _ member))
  have longer : tmpPath ((bucket :: before ++ [last]).foldl push root) =
      (bucket :: before ++ [last]).foldl push root ++ tmpSuffix := by
    obtain absurd_ | ⟨init, name, parts⟩ := List.eq_nil_or_concat' (bucket :: before)
    · cases absurd_
    · rw [parts] at safe ⊢
      exact tmpPath_append root (safe name (by simp)) final
  rw [split]
  refine ⟨bucket :: before, last, rfl, ?_, longer, ?_, ?_⟩
  · exact below_of_components (components_foldl_push root safe)
  · rw [← longer]
    exact below_of_components (components_tmpPath root safe)
  · rw [foldl_push_concat, parent_push final.1]
    refine ⟨_, rfl, below_of_components ((components_trimmed _).trans inner), ?_⟩
    exact (trimmed_isPrefix _).length_le.trans (length_le_push final.1 _)


/-- The object of a bucket and key: the content of the file in its place. -/
def object (disk : Disk limits) (bucket key : Bytes) : Option Bytes := disk.content (names bucket key)

theorem tmp_ne_path (directory : List Bytes) (last : Bytes) : directory ++ [last ++ tmpSuffix] ≠ directory ++ [last] := by
  intro same
  have lengths := congrArg List.length (List.singleton_inj.mp (List.append_cancel_left same))
  rw [List.length_append] at lengths
  have long : tmpSuffix.length = 4 := rfl
  omega

/-- An object after a put with this answer, from the one before. -/
def settled (answer : Except CoreError Unit) (bytes : Bytes) (before : Option Bytes) : Option Bytes :=
  match answer with
  | .ok () => some bytes
  | .error _ => before

/-- A name is shorter than its temporary one. -/
theorem Limits.short_of_tmp {last : Bytes} (tmpShort : limits.short (last ++ tmpSuffix) = true) :
    limits.short last = true := by
  unfold Limits.short at tmpShort ⊢
  rw [decide_eq_true_eq] at tmpShort ⊢
  rw [List.length_append] at tmpShort
  omega

theorem Limits.takes_of_tmp {path : Text} (takes : limits.Takes (path ++ tmpSuffix)) : limits.Takes path := by
  unfold Limits.Takes at takes ⊢
  rw [List.length_append] at takes
  omega

/-- All that the write and the rename can come to: no write, no rename after it, or both. -/
theorem replace_cases {root tmp path : Text} {disk after : Disk limits} {tmpPlace place : List Bytes} {bytes : Bytes}
    {answer : Except CoreError Unit} (tmpBelow : below root tmp = tmpPlace) (below_ : below root path = place)
    (call : replace root disk tmp path bytes = (after, answer)) :
    (after = disk ∧ ∃ e, answer = .error e) ∨
      (limits.Takes tmp ∧ disk.write tmpPlace bytes = .ok after ∧ (¬limits.Takes path ∨ ¬after.Open place) ∧
        ∃ e, answer = .error e) ∨
      ∃ written, disk.write tmpPlace bytes = .ok written ∧ written.renameFile tmpPlace place = .ok after ∧
        limits.Takes path ∧ answer = .ok () := by
  unfold replace writeFile rename at call
  rw [tmpBelow, below_] at call
  by_cases takesTmp : limits.Takes tmp
  · rw [if_pos takesTmp] at call
    split at call
    · cases call
      exact Or.inl ⟨rfl, _, rfl⟩
    · next written wrote =>
      right
      split at call
      · next e failed =>
        cases call
        refine Or.inl ⟨takesTmp, wrote, ?_, _, rfl⟩
        by_cases takes : limits.Takes path
        · rw [if_pos ⟨takesTmp, takes⟩] at failed
          rcases Tree.renameFile_error failed with noFile | closed
          · exact absurd (Tree.isFile_iff.mpr ⟨bytes, (Tree.write_ok wrote).2.1⟩) noFile
          · exact Or.inr closed
        · exact Or.inl takes
      · next renamed moved =>
        cases call
        split_ifs at moved with takes
        exact Or.inr ⟨written, wrote, moved, takes.2, rfl⟩
  · rw [if_neg takesTmp] at call
    cases call
    exact Or.inl ⟨rfl, _, rfl⟩

/-- The write and the rename touch nothing but the object and its temporary file. -/
theorem replace_elsewhere {root tmp path : Text} {disk : Disk limits} {tmpPlace place : List Bytes} {bytes : Bytes}
    (tmpBelow : below root tmp = tmpPlace) (below_ : below root path = place) {other : List Bytes}
    (notTmp : other ≠ tmpPlace) (notPlace : other ≠ place) :
    (replace root disk tmp path bytes).1.content other = disk.content other := by
  rcases replace_cases tmpBelow below_ (Prod.mk.eta (p := replace root disk tmp path bytes)).symm with
    ⟨same, -⟩ | ⟨-, wrote, -⟩ | ⟨written, wrote, moved, -⟩
  · rw [same]
  · exact Tree.content_eq ((Tree.write_ok wrote).2.2 other notTmp)
  · obtain ⟨_, _, _, _, _, others⟩ := Tree.renameFile_ok moved
    exact Tree.content_eq ((others other notTmp notPlace).trans ((Tree.write_ok wrote).2.2 other notTmp))

/-- The write and the rename replace the object and touch nothing else, provided that the
temporary file is nobody's object and the rename will not meet a directory. -/
theorem replace_spec {root path : Text} {disk after : Disk limits} {directory : List Bytes} {last bytes : Bytes}
    {answer : Except CoreError Unit} (tmpBelow : below root (path ++ tmpSuffix) = directory ++ [last ++ tmpSuffix])
    (below_ : below root path = directory ++ [last]) (nobody : ¬disk.isFile (directory ++ [last ++ tmpSuffix]))
    (room : disk.isDirectory (directory ++ [last]) → disk.isDirectory (directory ++ [last ++ tmpSuffix]))
    (call : replace root disk (path ++ tmpSuffix) path bytes = (after, answer)) :
    (∀ other, other ≠ directory ++ [last] → after.content other = disk.content other) ∧
      after.content (directory ++ [last]) = settled answer bytes (disk.content (directory ++ [last])) := by
  have apart := tmp_ne_path directory last
  rcases replace_cases tmpBelow below_ call with
    ⟨rfl, e, rfl⟩ | ⟨takes, wrote, stuck, -⟩ | ⟨written, wrote, moved, -, rfl⟩
  · exact ⟨fun _ _ => rfl, rfl⟩
  · -- what could be written can be renamed
    obtain ⟨isOpen, -, others⟩ := Tree.write_ok wrote
    obtain ⟨parent, tmpLeaf, tmpShort⟩ := Tree.open_concat.mp isOpen
    have notDirectory : disk.node (directory ++ [last]) ≠ some .directory :=
      fun isDirectory => tmpLeaf (Tree.isDirectory_iff.mp (room (Tree.isDirectory_iff.mpr isDirectory)))
    have renamable : after.Open (directory ++ [last]) := by
      rw [Tree.open_concat, others _ apart.symm, others directory (by simp)]
      exact ⟨parent, notDirectory, Limits.short_of_tmp tmpShort⟩
    rcases stuck with long | closed
    · exact absurd (Limits.takes_of_tmp takes) long
    · exact absurd renamable closed
  · obtain ⟨-, tmpNode, others⟩ := Tree.write_ok wrote
    obtain ⟨content, source, -, target, gone, rest⟩ := Tree.renameFile_ok moved
    rw [tmpNode] at source
    cases source
    constructor
    · intro other elsewhere
      by_cases temporary : other = directory ++ [last ++ tmpSuffix]
      · -- the temporary file came and went
        rw [temporary, Tree.content_eq_none.mpr nobody, Tree.content, gone apart]
      · exact Tree.content_eq ((rest other temporary elsewhere).trans (others other temporary))
    · simp [Tree.content, target, settled]

inductive Call where
  | put (bucket key bytes : Bytes)
  | get (bucket key : Bytes)
  | existsAt (bucket key : Bytes)

inductive Answer where
  | put (answer : Except CoreError Unit)
  | get (answer : Except CoreError Bytes)
  | existsAt (answer : Except CoreError Bool)

def perform (root : Text) (disk : Disk limits) : Call → Disk limits × Answer
  | .put bucket key bytes => ((put root disk bucket key bytes).1, .put (put root disk bucket key bytes).2)
  | .get bucket key => (disk, .get (get root disk bucket key))
  | .existsAt bucket key => (disk, .existsAt (existsAt root disk bucket key))

/-- The bytes of the latest put to a bucket and key that returned `Ok`. -/
def latest (bucket key : Bytes) (past : List (Call × Answer)) : Option Bytes :=
  past.foldl (fun found event =>
    match event with
    | (.put bucket' key' bytes, .put (.ok ())) => if bucket' = bucket ∧ key' = key then some bytes else found
    | _ => found) none

/-- What a map from locators to bytes answers after `past`. Pairs that `resolve` refuses
are no locators. -/
def Expected (root : Text) (past : List (Call × Answer)) : Call → Answer → Prop
  | .put bucket key _, answer => ∀ e, resolve root bucket key = .error e → answer = .put (.error e)
  | .get bucket key, answer =>
    (∀ e, resolve root bucket key = .error e → answer = .get (.error e)) ∧
      ∀ path, resolve root bucket key = .ok path →
        answer = .get (match latest bucket key past with
          | some bytes => .ok bytes
          | none => .error .notFound)
  | .existsAt bucket key, answer =>
    (∀ e, resolve root bucket key = .error e → answer = .existsAt (.error e)) ∧
      ∀ path, resolve root bucket key = .ok path → answer = .existsAt (.ok (latest bucket key past).isSome)

/-- The state in which a call does as a map would. For `put`: no object is stored under
the name of its temporary file, and its own place is no directory (or the temporary's is
one too, so that nothing gets written). For `get` and `exists`: no other object stands on
the way, no name on it is longer than its directory takes, and for `get` there is no
directory at the place. -/
def Clear (root : Text) (disk : Disk limits) : Call → Prop
  | .put bucket key _ => ∀ path, resolve root bucket key = .ok path →
      ¬disk.isFile (below root (tmpPath path)) ∧
        (disk.isDirectory (below root path) → disk.isDirectory (below root (tmpPath path)))
  | .get bucket key => ∀ path, resolve root bucket key = .ok path →
      limits.Takes path ∧ ¬disk.Blocked (below root path) ∧ ¬disk.Overlong (below root path) ∧
        ¬disk.isDirectory (below root path)
  | .existsAt bucket key => ∀ path, resolve root bucket key = .ok path →
      limits.Takes path ∧ ¬disk.Blocked (below root path) ∧ ¬disk.Overlong (below root path)

/-- A sequence of calls, with their answers, every one of them made in a state in which
`allowed` holds. -/
inductive History (root : Text) (allowed : Disk limits → Call → Prop) (start : Disk limits) : List (Call × Answer) → Disk limits → Prop where
  | nil : History root allowed start [] start
  | snoc {past : List (Call × Answer)} {disk : Disk limits} (history : History root allowed start past disk) (call : Call)
      (ready : allowed disk call) :
      History root allowed start (past ++ [(call, (perform root disk call).2)]) (perform root disk call).1

theorem put_refused {root : Text} {disk : Disk limits} {bucket key bytes : Bytes} {e : CoreError}
    (refused : resolve root bucket key = .error e) : put root disk bucket key bytes = (disk, .error e) := by
  simp only [put, refused]

theorem createDirAll_content (root : Text) (disk : Disk limits) (path : Text) (other : List Bytes) :
    (createDirAll root disk path).1.content other = disk.content other := by
  unfold createDirAll
  split_ifs
  · exact Tree.createDirAll_content disk _ other
  · rfl

/-- A put touches nothing but its object and its temporary file. -/
theorem put_elsewhere {root : Text} (disk : Disk limits) {bucket key : Bytes} (bytes : Bytes) {other : List Bytes}
    (notPlace : other ≠ names bucket key)
    (notTmp : ∀ directory last, names bucket key = directory ++ [last] → other ≠ directory ++ [last ++ tmpSuffix]) :
    (put root disk bucket key bytes).1.content other = disk.content other := by
  unfold put
  split
  · rfl
  · next path resolved =>
    obtain ⟨directory, last, split, place, longer, tmpPlace, parentPath, isParent, -⟩ := resolve_below resolved
    rw [split] at notPlace
    have made := createDirAll_content root disk parentPath other
    rw [isParent, longer]
    dsimp only
    split
    · next ready e called => rwa [called] at made
    · next ready called =>
      rw [called] at made
      exact (replace_elsewhere tmpPlace place (notTmp directory last split) notPlace).trans made

/-- A put that answers `Ok` has stored its bytes, whatever it found. -/
theorem put_stored {root : Text} {disk after : Disk limits} {bucket key bytes : Bytes}
    (stored : put root disk bucket key bytes = (after, .ok ())) :
    ∃ path, resolve root bucket key = .ok path ∧ limits.Takes path ∧ object after bucket key = some bytes := by
  unfold put at stored
  split at stored
  · cases stored
  · next path resolved =>
    obtain ⟨directory, last, split, place, longer, tmpPlace, parentPath, isParent, -⟩ := resolve_below resolved
    rw [isParent, longer] at stored
    dsimp only at stored
    split at stored
    · cases stored
    · next ready made =>
      rcases replace_cases tmpPlace place stored with ⟨-, e, failed⟩ | ⟨-, -, -, e, failed⟩ | ⟨written, wrote, moved, takes, -⟩
      · cases failed
      · cases failed
      · obtain ⟨-, tmpNode, -⟩ := Tree.write_ok wrote
        obtain ⟨content, source, -, target, -⟩ := Tree.renameFile_ok moved
        rw [tmpNode] at source
        cases source
        refine ⟨path, resolved, takes, ?_⟩
        rw [object, split, Tree.content, target]

/-- What is stored is read. -/
theorem get_stored {root path : Text} {disk : Disk limits} {bucket key bytes : Bytes}
    (resolved : resolve root bucket key = .ok path) (takes : limits.Takes path)
    (stored : object disk bucket key = some bytes) : get root disk bucket key = .ok bytes := by
  obtain ⟨directory, last, split, place, -⟩ := resolve_below resolved
  rw [object, split] at stored
  have found : disk.read (directory ++ [last]) = .ok bytes := by
    rw [Tree.read_eq_ok]
    unfold Tree.content at stored
    split at stored
    · next content present =>
      cases stored
      exact present
    · cases stored
  simp only [get, resolved, readFile, if_pos takes, place, found]

/-- A put in a clear state sets its own object when it answers `Ok`, and nothing else. -/
theorem put_spec {root path : Text} {disk : Disk limits} {bucket key bytes : Bytes}
    (clear : Clear root disk (.put bucket key bytes)) (resolved : resolve root bucket key = .ok path) :
    (∀ other, other ≠ names bucket key → (put root disk bucket key bytes).1.content other = disk.content other) ∧
      object (put root disk bucket key bytes).1 bucket key =
        settled (put root disk bucket key bytes).2 bytes (object disk bucket key) := by
  obtain ⟨directory, last, split, place, longer, tmpPlace, parentPath, isParent, parentPlace, -⟩ := resolve_below resolved
  obtain ⟨nobody, room⟩ := clear path resolved
  rw [longer, tmpPlace] at nobody room
  rw [place] at room
  simp only [put, resolved, isParent, object, split, longer]
  have kept := createDirAll_content root disk parentPath
  -- making the directory puts neither the object nor its temporary file into it
  have inside (name : Bytes) : (createDirAll root disk parentPath).1.node (directory ++ [name]) =
      disk.node (directory ++ [name]) := by
    unfold createDirAll
    rw [parentPlace]
    split_ifs
    · exact Tree.createDirAll_inside disk directory name
    · rfl
  cases made : createDirAll root disk parentPath with
  | mk ready answer =>
    rw [made] at kept inside
    cases answer with
    | error e => exact ⟨fun other _ => kept other, kept _⟩
    | ok nothing =>
      have nobody' : ¬ready.isFile (directory ++ [last ++ tmpSuffix]) := by
        rwa [Tree.isFile, inside]
      have room' : ready.isDirectory (directory ++ [last]) → ready.isDirectory (directory ++ [last ++ tmpSuffix]) := by
        rwa [Tree.isDirectory, Tree.isDirectory, inside, inside]
      dsimp only
      cases replaced : replace root ready (path ++ tmpSuffix) path bytes with
      | mk after answer =>
        obtain ⟨others, own⟩ := replace_spec tmpPlace place nobody' room' replaced
        refine ⟨fun other apart => (others other apart).trans (kept other), ?_⟩
        rw [own, kept]

/-- Reading in a clear state is looking at the object. -/
theorem get_spec {root path : Text} {disk : Disk limits} {bucket key : Bytes}
    (clear : Clear root disk (.get bucket key)) (resolved : resolve root bucket key = .ok path) :
    get root disk bucket key = match object disk bucket key with
      | some bytes => .ok bytes
      | none => .error .notFound := by
  obtain ⟨directory, last, split, place, -⟩ := resolve_below resolved
  obtain ⟨takes, free, short, leaf⟩ := clear path resolved
  rw [place] at free short leaf
  simp only [get, resolved, readFile, if_pos takes, place, object, split]
  rw [Tree.isDirectory_iff] at leaf
  unfold Tree.read Tree.stat Tree.content
  cases found : disk.node (directory ++ [last]) with
  | none => simp [free, short]
  | some node =>
    cases node with
    | directory => exact absurd found leaf
    | file content => rfl

theorem existsAt_spec {root path : Text} {disk : Disk limits} {bucket key : Bytes}
    (clear : Clear root disk (.existsAt bucket key)) (resolved : resolve root bucket key = .ok path) :
    existsAt root disk bucket key = .ok (object disk bucket key).isSome := by
  obtain ⟨directory, last, split, place, -⟩ := resolve_below resolved
  obtain ⟨takes, free, short⟩ := clear path resolved
  rw [place] at free short
  simp only [existsAt, resolved, metadata, if_pos takes, place, object, split]
  unfold Tree.stat Tree.content
  cases found : disk.node (directory ++ [last]) with
  | none => simp [free, short]
  | some node => cases node <;> rfl

theorem latest_snoc (bucket key : Bytes) (past : List (Call × Answer)) (event : Call × Answer) :
    latest bucket key (past ++ [event]) =
      match event with
      | (.put bucket' key' bytes, .put (.ok ())) => if bucket' = bucket ∧ key' = key then some bytes else latest bucket key past
      | _ => latest bucket key past := by
  rw [latest, List.foldl_append]
  rfl

/-- One call in a clear state keeps the objects in step with the history. -/
theorem object_step {root : Text} {disk : Disk limits} {past : List (Call × Answer)} {call : Call} (clear : Clear root disk call)
    (inStep : ∀ bucket key path, resolve root bucket key = .ok path → object disk bucket key = latest bucket key past)
    {bucket key : Bytes} {path : Text} (resolved : resolve root bucket key = .ok path) :
    object (perform root disk call).1 bucket key = latest bucket key (past ++ [(call, (perform root disk call).2)]) := by
  have before := inStep bucket key path resolved
  rw [latest_snoc]
  cases call with
  | get bucket' key' => exact before
  | existsAt bucket' key' => exact before
  | put bucket' key' bytes =>
    change object (put root disk bucket' key' bytes).1 bucket key = _
    dsimp only [perform]
    cases target : resolve root bucket' key' with
    | error e =>
      rw [put_refused target]
      exact before
    | ok path' =>
      obtain ⟨others, own⟩ := put_spec clear target
      by_cases same : bucket' = bucket ∧ key' = key
      · obtain ⟨rfl, rfl⟩ := same
        rw [own]
        cases answered : (put root disk bucket' key' bytes).2 with
        | error e => exact before
        | ok done => simp [settled]
      · have apart : names bucket key ≠ names bucket' key' := by
          intro shared
          obtain ⟨buckets, keys⟩ := names_injective shared
          exact same ⟨buckets.symm, keys.symm⟩
        rw [object, others _ apart, ← object, before]
        cases answered : (put root disk bucket' key' bytes).2 with
        | error e => rfl
        | ok done => simp [same]

theorem history_objects {root : Text} {start disk : Disk limits} {past : List (Call × Answer)}
    (empty : ∀ path, ¬start.isFile path) (history : History root (Clear root) start past disk)
    (bucket key : Bytes) (path : Text) (resolved : resolve root bucket key = .ok path) :
    object disk bucket key = latest bucket key past := by
  induction history generalizing bucket key path with
  | nil => exact Tree.content_eq_none.mpr (empty _)
  | snoc history call clear ih => exact object_step clear ih resolved

/-- As long as every call finds a clear state, the store is the map of the latest puts
that returned `Ok`: every answer is the map's, and a put leaves every other object alone. -/
theorem store_is_map {root : Text} {start disk : Disk limits} {past : List (Call × Answer)}
    (empty : ∀ path, ¬start.isFile path) (history : History root (Clear root) start past disk) (call : Call)
    (clear : Clear root disk call) :
    Expected root past call (perform root disk call).2 ∧
      ∀ bucket key bytes, call = .put bucket key bytes →
        ∀ bucket' key' path, resolve root bucket' key' = .ok path → (bucket', key') ≠ (bucket, key) →
          object (perform root disk call).1 bucket' key' = object disk bucket' key' := by
  have objects := history_objects empty history
  cases call with
  | put bucket key bytes =>
    constructor
    · intro e refused
      simp [perform, put_refused refused]
    · intro bucket₁ key₁ bytes₁ same bucket' key' path resolved different
      cases same
      cases target : resolve root bucket key with
      | error e => simp [perform, put_refused target]
      | ok path' =>
        apply (put_spec clear target).1
        intro shared
        obtain ⟨buckets, keys⟩ := names_injective shared
        exact different (by rw [buckets, keys])
  | get bucket key =>
    refine ⟨⟨?_, ?_⟩, fun _ _ _ other => by cases other⟩
    · intro e refused
      simp [perform, get, refused]
    · intro path resolved
      rw [← objects bucket key path resolved, ← get_spec clear resolved]
      rfl
  | existsAt bucket key =>
    refine ⟨⟨?_, ?_⟩, fun _ _ _ other => by cases other⟩
    · intro e refused
      simp [perform, existsAt, refused]
    · intro path resolved
      rw [← objects bucket key path resolved, ← existsAt_spec clear resolved]
      rfl

end

/-- The limits of Linux, and of its usual file systems. -/
def linux : Limits := ⟨255, 4096⟩

/-- The disk before the first put. -/
def sampleDisk : Disk linux := Tree.empty

theorem store_is_map_sample :
    (perform [] (perform [] sampleDisk (.put [0x62] [0x61] [1])).1 (.get [0x62] [0x61])).2 = .get (.ok [1]) := by
  have first : Clear [] sampleDisk (.put [0x62] [0x61] [1]) := by
    intro path resolved
    cases (show resolve [] [0x62] [0x61] = .ok [0x62, slash, 0x61] from rfl).symm.trans resolved
    exact ⟨by decide, by decide⟩
  have second : Clear [] (perform [] sampleDisk (.put [0x62] [0x61] [1])).1 (.get [0x62] [0x61]) := by
    intro path resolved
    cases (show resolve [] [0x62] [0x61] = .ok [0x62, slash, 0x61] from rfl).symm.trans resolved
    exact ⟨by decide, by decide, by decide, by decide⟩
  have answered := store_is_map Tree.empty_isFile (.snoc .nil (.put [0x62] [0x61] [1]) first) _ second
  exact answered.1.2 _ rfl

/-- The bytes put under `b` and `a.tmp` are gone after a put under `b` and `a`, which used
that name for its temporary file. -/
theorem temporary_name_collides : ∃ past disk, History [] (fun _ _ => True) sampleDisk past disk ∧
    past = [(.put [0x62] ([0x61] ++ tmpSuffix) [1], .put (.ok ())), (.put [0x62] [0x61] [2], .put (.ok ())),
      (.get [0x62] ([0x61] ++ tmpSuffix), .get (.error .notFound))] ∧
    latest [0x62] ([0x61] ++ tmpSuffix) past = some [1] := by
  refine ⟨_, _, .snoc (.snoc (.snoc .nil (.put [0x62] ([0x61] ++ tmpSuffix) [1]) trivial) (.put [0x62] [0x61] [2]) trivial)
    (.get [0x62] ([0x61] ++ tmpSuffix)) trivial, ?_, ?_⟩
  · rfl
  · rfl

end Buh.Blob.Store
