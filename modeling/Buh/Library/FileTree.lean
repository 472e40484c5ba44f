import Mathlib.Data.List.Infix
import Mathlib.Data.List.TakeWhile

/-! A tree of directories and files, by the names that lead from its top to a node, with
the file operations of Unix on a file system that has room and lets the caller do
everything, up to the length of a name. The top itself may still have to be created. -/

namespace Buh.Library.FileTree

inductive Node (Content : Type) where
  | directory
  | file (content : Content)
  deriving DecidableEq

/-- Every node stands in a directory, under a name that the file system takes. -/
structure Tree (Name Content : Type) (short : Name → Bool) where
  node : List Name → Option (Node Content)
  closed : ∀ path name, node (path ++ [name]) ≠ none → node path = some .directory
  named : ∀ path name, node (path ++ [name]) ≠ none → short name = true

/-- The errors that file operations tell apart here, as `std::io::ErrorKind` has them. -/
inductive Failure where
  | notFound
  | alreadyExists
  | notADirectory
  | isADirectory
  /-- `InvalidFilename` -/
  | nameTooLong
  deriving DecidableEq

namespace Tree
variable {Name Content : Type} {short : Name → Bool}

/-- Nothing at all, not even the top. -/
def empty : Tree Name Content short :=
  ⟨fun _ => none, fun _ _ present => absurd rfl present, fun _ _ present => absurd rfl present⟩

def isFile (tree : Tree Name Content short) (path : List Name) : Bool :=
  match tree.node path with
  | some (.file _) => true
  | _ => false

def isDirectory (tree : Tree Name Content short) (path : List Name) : Bool :=
  match tree.node path with
  | some .directory => true
  | _ => false

/-- The content of the file at `path`. -/
def content (tree : Tree Name Content short) (path : List Name) : Option Content :=
  match tree.node path with
  | some (.file content) => some content
  | _ => none

/-- A file stands where the way to `path` would need a directory. -/
def Blocked (tree : Tree Name Content short) (path : List Name) : Prop :=
  ∃ depth < path.length, tree.isFile (path.take depth)

instance (tree : Tree Name Content short) (path : List Name) : Decidable (tree.Blocked path) :=
  inferInstanceAs (Decidable (∃ depth < path.length, tree.isFile (path.take depth)))

/-- The way to `path` comes to a name that its directory does not take. -/
def Overlong (tree : Tree Name Content short) (path : List Name) : Prop :=
  ∃ depth < path.length, tree.isDirectory (path.take depth) ∧ path[depth]?.all short = false

instance (tree : Tree Name Content short) (path : List Name) : Decidable (tree.Overlong path) :=
  inferInstanceAs (Decidable (∃ depth < path.length, tree.isDirectory (path.take depth) ∧ path[depth]?.all short = false))

/-- A file may be put at `path`. -/
def Open (tree : Tree Name Content short) (path : List Name) : Prop :=
  path ≠ [] ∧ tree.isDirectory path.dropLast ∧ ¬tree.isDirectory path ∧ path.getLast?.all short

instance [DecidableEq Name] (tree : Tree Name Content short) (path : List Name) : Decidable (tree.Open path) :=
  inferInstanceAs (Decidable (_ ∧ _))

/-- `fs::metadata`, and the look-up every other operation begins with. -/
def stat (tree : Tree Name Content short) (path : List Name) : Except Failure (Node Content) :=
  match tree.node path with
  | some node => .ok node
  | none =>
    .error (if tree.Blocked path then .notADirectory else if tree.Overlong path then .nameTooLong else .notFound)

/-- `fs::read`: a directory can be opened, but not read. -/
def read (tree : Tree Name Content short) (path : List Name) : Except Failure Content :=
  match tree.stat path with
  | .error e => .error e
  | .ok .directory => .error .isADirectory
  | .ok (.file content) => .ok content

/-- Why no file can be put at `path`. -/
def refusal (tree : Tree Name Content short) (path : List Name) : Failure :=
  match tree.stat path with
  | .error e => e
  | .ok _ => .isADirectory

theorem read_eq_ok {tree : Tree Name Content short} {path : List Name} {content : Content} :
    tree.read path = .ok content ↔ tree.node path = some (.file content) := by
  unfold read stat
  cases tree.node path with
  | none => simp
  | some node => cases node <;> simp

theorem empty_isFile (path : List Name) : ¬(empty : Tree Name Content short).isFile path = true := Bool.false_ne_true

theorem isFile_iff {tree : Tree Name Content short} {path : List Name} :
    tree.isFile path = true ↔ ∃ content, tree.node path = some (.file content) := by
  unfold isFile
  cases tree.node path with
  | none => simp
  | some node => cases node <;> simp

theorem isDirectory_iff {tree : Tree Name Content short} {path : List Name} :
    tree.isDirectory path = true ↔ tree.node path = some .directory := by
  unfold isDirectory
  cases tree.node path with
  | none => simp
  | some node => cases node <;> simp

theorem content_eq {tree after : Tree Name Content short} {path : List Name} (same : after.node path = tree.node path) :
    after.content path = tree.content path := by
  rw [content, content, same]

theorem content_eq_none {tree : Tree Name Content short} {path : List Name} :
    tree.content path = none ↔ ¬tree.isFile path = true := by
  unfold content isFile
  cases tree.node path with
  | none => simp
  | some node => cases node <;> simp

/-- What is in the way of a part is in the way of the whole. -/
theorem Blocked.of_isPrefix {tree : Tree Name Content short} {path part : List Name} (isPrefix : part <+: path)
    (blocked : tree.Blocked part) : tree.Blocked path := by
  obtain ⟨depth, shorter, file⟩ := blocked
  have fewer := isPrefix.length_le
  refine ⟨depth, by omega, ?_⟩
  rwa [List.prefix_iff_eq_take.mp isPrefix, List.take_take, Nat.min_eq_left (by omega)] at file

/-- A path is open exactly when its directory is there and takes its name, and it is no
directory itself. -/
theorem open_concat {tree : Tree Name Content short} {directory : List Name} {name : Name} :
    tree.Open (directory ++ [name]) ↔ tree.node directory = some .directory ∧
      tree.node (directory ++ [name]) ≠ some .directory ∧ short name = true := by
  rw [Open, List.dropLast_concat, isDirectory_iff, isDirectory_iff, List.getLast?_concat]
  simp

/-- The names on the way to a node are short. -/
theorem all_short {tree : Tree Name Content short} {path : List Name} (present : tree.node path ≠ none) :
    ∀ name ∈ path, short name = true := by
  induction path using List.reverseRecOn with
  | nil => exact fun _ absent => absurd absent List.not_mem_nil
  | append_singleton path name ih =>
    have directory := tree.closed path name present
    intro other member
    rcases List.mem_append.mp member with earlier | last
    · exact ih (by simp [directory]) other earlier
    · rw [List.mem_singleton.mp last]
      exact tree.named path name present

theorem not_overlong {tree : Tree Name Content short} {path : List Name} (allShort : ∀ name ∈ path, short name = true) :
    ¬tree.Overlong path := by
  rintro ⟨depth, shorter, -, long⟩
  rw [List.getElem?_eq_getElem shorter, Option.all_some, allShort _ (List.getElem_mem shorter)] at long
  cases long

section
variable [DecidableEq Name]

/-- The nodes of a tree with every missing directory on the way to `path`. -/
def addDirectories (tree : Tree Name Content short) (path : List Name) (other : List Name) : Option (Node Content) :=
  if other = path.take other.length ∧ tree.node other = none then some .directory else tree.node other

theorem addDirectories_closed {tree : Tree Name Content short} {path : List Name} (free : ¬tree.Blocked path)
    (other : List Name) (name : Name) (present : tree.addDirectories path (other ++ [name]) ≠ none) :
    tree.addDirectories path other = some .directory := by
  unfold addDirectories at present ⊢
  split_ifs at present with missing
  · obtain ⟨onTheWay, -⟩ := missing
    have shorter : other.length < path.length := by
      have lengths := congrArg List.length onTheWay
      simp only [List.length_append, List.length_singleton, List.length_take] at lengths
      omega
    have before : other = path.take other.length := by
      have parts := congrArg (List.take other.length) onTheWay
      rwa [List.take_left', List.take_take, Nat.min_eq_left (by simp)] at parts
      rfl
    split_ifs with absent
    · rfl
    · cases found : tree.node other with
      | none => exact absurd ⟨before, found⟩ absent
      | some node =>
        cases node with
        | directory => rfl
        | file content =>
          refine absurd ⟨other.length, shorter, ?_⟩ free
          rw [← before]
          exact isFile_iff.mpr ⟨content, found⟩
  · have directory := tree.closed other name present
    rw [if_neg (by simp [directory]), directory]

theorem addDirectories_named {tree : Tree Name Content short} {path : List Name}
    (allShort : ∀ name ∈ path, short name = true) (other : List Name) (name : Name)
    (present : tree.addDirectories path (other ++ [name]) ≠ none) : short name = true := by
  unfold addDirectories at present
  split_ifs at present with missing
  · apply allShort name
    apply List.mem_of_mem_take
    rw [← missing.1]
    exact List.mem_append_right other (List.mem_singleton_self name)
  · exact tree.named other name present

/-- `fs::create_dir_all`: what is missing on the way to `path` and at its end, up to a name
that is too long. -/
def createDirAll (tree : Tree Name Content short) (path : List Name) : Tree Name Content short × Except Failure Unit :=
  if tree.isFile path then (tree, .error .alreadyExists)
  else if blocked : tree.Blocked path then (tree, .error .notADirectory)
  else
    (⟨tree.addDirectories (path.takeWhile short),
        addDirectories_closed (fun part => blocked (part.of_isPrefix (List.takeWhile_prefix short))),
        addDirectories_named (fun _ member => List.mem_takeWhile_imp member)⟩,
      if path.all short then .ok () else .error .nameTooLong)

/-- The nodes of a tree with a file at `path`. -/
def addFile (tree : Tree Name Content short) (path : List Name) (content : Content) (other : List Name) :
    Option (Node Content) :=
  if other = path then some (.file content) else tree.node other

theorem addFile_closed {tree : Tree Name Content short} {path : List Name} (isOpen : tree.Open path) (content : Content)
    (other : List Name) (name : Name) (present : tree.addFile path content (other ++ [name]) ≠ none) :
    tree.addFile path content other = some .directory := by
  obtain ⟨nonempty, parent, leaf, -⟩ := isOpen
  rw [isDirectory_iff] at parent leaf
  have directory : tree.node other = some .directory := by
    unfold addFile at present
    split_ifs at present with same
    · rwa [← same, List.dropLast_concat] at parent
    · exact tree.closed other name present
  have other_ne : other ≠ path := fun same => leaf (same ▸ directory)
  rw [addFile, if_neg other_ne, directory]

theorem addFile_named {tree : Tree Name Content short} {path : List Name} (isOpen : tree.Open path) (content : Content)
    (other : List Name) (name : Name) (present : tree.addFile path content (other ++ [name]) ≠ none) :
    short name = true := by
  unfold addFile at present
  split_ifs at present with same
  · have last := isOpen.2.2.2
    rwa [← same, List.getLast?_concat, Option.all_some] at last
  · exact tree.named other name present

/-- `fs::write`: create or truncate, then the content. -/
def write (tree : Tree Name Content short) (path : List Name) (content : Content) :
    Except Failure (Tree Name Content short) :=
  if isOpen : tree.Open path then
    .ok ⟨tree.addFile path content, addFile_closed isOpen content, addFile_named isOpen content⟩
  else .error (tree.refusal path)

/-- The nodes of a tree with the file at `source` moved to `target`. -/
def moveFile (tree : Tree Name Content short) (source target : List Name) (content : Content) (other : List Name) :
    Option (Node Content) :=
  if other = target then some (.file content) else if other = source then none else tree.node other

theorem moveFile_closed {tree : Tree Name Content short} {source target : List Name} {content : Content}
    (found : tree.read source = .ok content) (isOpen : tree.Open target) (other : List Name) (name : Name)
    (present : tree.moveFile source target content (other ++ [name]) ≠ none) :
    tree.moveFile source target content other = some .directory := by
  rw [read_eq_ok] at found
  obtain ⟨nonempty, parent, leaf, -⟩ := isOpen
  rw [isDirectory_iff] at parent leaf
  have directory : tree.node other = some .directory := by
    unfold moveFile at present
    split_ifs at present with same gone
    · rwa [← same, List.dropLast_concat] at parent
    · exact absurd rfl present
    · exact tree.closed other name present
  have apart : other ≠ source := by
    intro same
    rw [same, found] at directory
    cases directory
  have other_ne : other ≠ target := fun same => leaf (same ▸ directory)
  rw [moveFile, if_neg other_ne, if_neg apart, directory]

theorem moveFile_named {tree : Tree Name Content short} {source target : List Name} {content : Content}
    (isOpen : tree.Open target) (other : List Name) (name : Name)
    (present : tree.moveFile source target content (other ++ [name]) ≠ none) : short name = true := by
  unfold moveFile at present
  split_ifs at present with same gone
  · have last := isOpen.2.2.2
    rwa [← same, List.getLast?_concat, Option.all_some] at last
  · exact absurd rfl present
  · exact tree.named other name present

/-- `fs::rename` of a file. The store never gets here with a directory. -/
def renameFile (tree : Tree Name Content short) (source target : List Name) : Except Failure (Tree Name Content short) :=
  match found : tree.read source with
  | .error e => .error e
  | .ok content =>
    if isOpen : tree.Open target then
      .ok ⟨tree.moveFile source target content, moveFile_closed found isOpen, moveFile_named isOpen⟩
    else .error (tree.refusal target)

/-! What each operation does, by the nodes it leaves. -/

theorem createDirAll_node (tree : Tree Name Content short) (path other : List Name) :
    (tree.createDirAll path).1.node other = tree.node other ∨
      (other = path.take other.length ∧ tree.node other = none ∧
        (tree.createDirAll path).1.node other = some .directory) := by
  unfold createDirAll
  split_ifs
  · exact Or.inl rfl
  · exact Or.inl rfl
  all_goals
    change tree.addDirectories (path.takeWhile short) other = _ ∨ _ ∧ _ ∧
      tree.addDirectories (path.takeWhile short) other = _
    unfold addDirectories
    split_ifs with missing
    · refine Or.inr ⟨?_, missing.2, rfl⟩
      have isPrefix : other <+: path := by
        rw [missing.1]
        exact (List.take_prefix _ _).trans (List.takeWhile_prefix short)
      exact List.prefix_iff_eq_take.mp isPrefix
    · exact Or.inl rfl

theorem createDirAll_ok {tree : Tree Name Content short} {path : List Name}
    (call : (tree.createDirAll path).2 = .ok ()) : (tree.createDirAll path).1.node path = some .directory := by
  unfold createDirAll at call ⊢
  split_ifs at call ⊢ with file blocked allShort
  change tree.addDirectories (path.takeWhile short) path = _
  rw [List.takeWhile_eq_self_iff.mpr (List.all_eq_true.mp allShort), addDirectories, List.take_length]
  cases found : tree.node path with
  | none => simp
  | some node =>
    cases node with
    | directory => simp
    | file content => exact absurd (isFile_iff.mpr ⟨content, found⟩) file

theorem createDirAll_content (tree : Tree Name Content short) (path other : List Name) :
    (tree.createDirAll path).1.content other = tree.content other := by
  rcases createDirAll_node tree path other with same | ⟨-, missing, added⟩
  · exact content_eq same
  · rw [content, content, missing, added]

/-- Nothing is made inside the directory itself. -/
theorem createDirAll_inside (tree : Tree Name Content short) (path : List Name) (name : Name) :
    (tree.createDirAll path).1.node (path ++ [name]) = tree.node (path ++ [name]) := by
  rcases createDirAll_node tree path (path ++ [name]) with same | ⟨onTheWay, -⟩
  · exact same
  · have lengths := congrArg List.length onTheWay
    simp only [List.length_append, List.length_singleton, List.length_take] at lengths
    omega

theorem write_ok {tree after : Tree Name Content short} {path : List Name} {content : Content}
    (call : tree.write path content = .ok after) :
    tree.Open path ∧ after.node path = some (.file content) ∧
      ∀ other, other ≠ path → after.node other = tree.node other := by
  unfold write at call
  split_ifs at call with isOpen
  cases call
  refine ⟨isOpen, if_pos rfl, fun other apart => if_neg apart⟩

theorem renameFile_ok {tree after : Tree Name Content short} {source target : List Name}
    (call : tree.renameFile source target = .ok after) :
    ∃ content, tree.node source = some (.file content) ∧ tree.Open target ∧
      after.node target = some (.file content) ∧ (source ≠ target → after.node source = none) ∧
      ∀ other, other ≠ source → other ≠ target → after.node other = tree.node other := by
  unfold renameFile at call
  split at call
  · cases call
  · next content found =>
    split_ifs at call with isOpen
    cases call
    refine ⟨content, read_eq_ok.mp found, isOpen, if_pos rfl, ?_, ?_⟩
    · intro apart
      exact (if_neg apart).trans (if_pos rfl)
    · intro other notSource notTarget
      exact (if_neg notTarget).trans (if_neg notSource)

theorem renameFile_error {tree : Tree Name Content short} {source target : List Name} {e : Failure}
    (call : tree.renameFile source target = .error e) :
    ¬tree.isFile source ∨ ¬tree.Open target := by
  unfold renameFile at call
  split at call
  · next found =>
    left
    intro file
    obtain ⟨content, present⟩ := isFile_iff.mp file
    rw [read_eq_ok.mpr present] at found
    cases found
  · split_ifs at call with isOpen
    exact Or.inr isOpen

end

end Tree

end Buh.Library.FileTree
