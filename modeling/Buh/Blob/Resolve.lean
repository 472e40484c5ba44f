import Buh.Library.UnixPath
import Buh.Wire.Codec

/-! Where `fs_blob.rs` keeps an object. Bucket and key are the UTF-8 bytes of the strings
in the request: every byte the checks look for is an ASCII one, which stands there only for
itself. -/

namespace Buh.Blob.Resolve
open Buh.Library.UnixPath Buh.Wire.Codec

inductive EntityError where
  | empty (field : String)
  | invalidPayload (reason : String)
  deriving DecidableEq

inductive CoreError where
  | notFound
  | validation (error : EntityError)
  | storage (text : String)
  deriving DecidableEq

def backslash : UInt8 := 0x5c
def nul : UInt8 := 0

def safeSegment (segment : Bytes) : Except CoreError Bytes :=
  if segment = [] ∨ segment = [dot] ∨ segment = [dot, dot] ∨ slash ∈ segment ∨ backslash ∈ segment ∨ nul ∈ segment then
    .error (.validation (.invalidPayload "unsafe blob path component"))
  else .ok segment

/-- The loop over the segments of the key. -/
def pushSegments (path : Text) : List Bytes → Except CoreError Text
  | [] => .ok path
  | segment :: rest =>
    match safeSegment segment with
    | .error e => .error e
    | .ok segment => pushSegments (push path segment) rest

def resolve (root : Text) (bucket key : Bytes) : Except CoreError Text :=
  match safeSegment bucket with
  | .error e => .error e
  | .ok bucket =>
    if key = [] then .error (.validation (.empty "blob key"))
    else pushSegments (join root bucket) (key.splitOn slash)

/-- `.tmp` -/
def tmpSuffix : Bytes := [0x2e, 0x74, 0x6d, 0x70]

/-- A sibling of `path` with a longer name. -/
def tmpPath (path : Text) : Text := withFileName path ((fileName path).getD [] ++ tmpSuffix)

/-- What `safeSegment` lets through. -/
def Safe (segment : Bytes) : Prop := Plain segment ∧ backslash ∉ segment ∧ nul ∉ segment

theorem safeSegment_eq_ok {segment other : Bytes} : safeSegment segment = .ok other ↔ Safe segment ∧ segment = other := by
  unfold safeSegment Safe Plain
  split_ifs with bad
  · simp only [false_iff]
    tauto
  · simp only [Except.ok.injEq]
    tauto

theorem Safe.tmp {segment : Bytes} (safe : Safe segment) : Safe (segment ++ tmpSuffix) := by
  obtain ⟨⟨nonempty, -, -, noSlash⟩, noBackslash, noNul⟩ := safe
  have long : 5 ≤ (segment ++ tmpSuffix).length := by
    have := List.length_pos_iff.mpr nonempty
    rw [List.length_append, tmpSuffix, List.length_cons, List.length_cons, List.length_cons, List.length_singleton]
    omega
  have apart {text : Bytes} (short : text.length < 5) : segment ++ tmpSuffix ≠ text := by
    intro same
    rw [same] at long
    omega
  refine ⟨⟨apart (by decide), apart (by decide), apart (by decide), ?_⟩, ?_, ?_⟩
  · exact List.not_mem_append noSlash (by decide)
  · exact List.not_mem_append noBackslash (by decide)
  · exact List.not_mem_append noNul (by decide)

theorem pushSegments_eq_ok {segments : List Bytes} {start path : Text} :
    pushSegments start segments = .ok path ↔ (∀ segment ∈ segments, Safe segment) ∧ segments.foldl push start = path := by
  induction segments generalizing start with
  | nil => simp [pushSegments]
  | cons segment rest ih =>
    rw [pushSegments]
    cases answer : safeSegment segment with
    | error e =>
      have refused : ¬Safe segment := by
        intro safe
        rw [safeSegment_eq_ok.mpr ⟨safe, rfl⟩] at answer
        cases answer
      simp [refused]
    | ok same =>
      obtain ⟨safe, rfl⟩ := safeSegment_eq_ok.mp answer
      simp [ih, safe]

/-- The names of an object below the root: its bucket and the segments of its key. -/
def names (bucket key : Bytes) : List Bytes := bucket :: key.splitOn slash

theorem resolve_eq_ok {root path : Text} {bucket key : Bytes} :
    resolve root bucket key = .ok path ↔
      key ≠ [] ∧ (∀ name ∈ names bucket key, Safe name) ∧ (names bucket key).foldl push root = path := by
  rw [resolve]
  cases answer : safeSegment bucket with
  | error e =>
    have refused : ¬Safe bucket := by
      intro safe
      rw [safeSegment_eq_ok.mpr ⟨safe, rfl⟩] at answer
      cases answer
    simp [names, refused]
  | ok same =>
    obtain ⟨safe, rfl⟩ := safeSegment_eq_ok.mp answer
    by_cases empty : key = []
    · simp [empty]
    · simp [empty, pushSegments_eq_ok, names, safe, join]

theorem components_foldl_push (root : Text) {names : List Bytes} (safe : ∀ name ∈ names, Safe name) :
    components (names.foldl push root) = components root ++ names.map .normal := by
  induction names generalizing root with
  | nil => simp
  | cons name rest ih =>
    rw [List.foldl_cons, ih (push root name) (fun other member => safe other (List.mem_cons_of_mem _ member)),
      components_push (safe name List.mem_cons_self).1, List.append_assoc]
    rfl

/-- A path whose last component is a name of the store. -/
theorem foldl_push_concat (root : Text) (names : List Bytes) (last : Bytes) :
    (names ++ [last]).foldl push root = push (names.foldl push root) last := by
  rw [List.foldl_append]
  rfl

theorem components_tmpPath (root : Text) {names : List Bytes} {last : Bytes}
    (safe : ∀ name ∈ names ++ [last], Safe name) :
    components (tmpPath ((names ++ [last]).foldl push root)) =
      components root ++ (names ++ [last ++ tmpSuffix]).map .normal := by
  have final : Safe last := safe last (by simp)
  have inner := components_foldl_push root (fun name member => safe name (List.mem_append_left _ member))
  rw [foldl_push_concat, tmpPath, fileName_push final.1, Option.getD_some,
    components_withFileName final.1 final.tmp.1, inner, List.map_append, List.append_assoc]
  rfl

/-- The temporary file of an object has the object's path, and more. -/
theorem tmpPath_append (root : Text) {names : List Bytes} {name last : Bytes} (plain : Safe name) (final : Safe last) :
    tmpPath ((names ++ [name] ++ [last]).foldl push root) = (names ++ [name] ++ [last]).foldl push root ++ tmpSuffix := by
  rw [foldl_push_concat, foldl_push_concat, tmpPath, fileName_push final.1, Option.getD_some, withFileName_push final.1,
    trimmed_push plain.1, push_append final.1 final.tmp.1]

/-- The names of an object end with a segment of its key, after its bucket. -/
theorem names_split (bucket key : Bytes) :
    ∃ before last, names bucket key = bucket :: before ++ [last] ∧ key.splitOn slash = before ++ [last] := by
  rcases List.eq_nil_or_concat' (key.splitOn slash) with empty | ⟨before, last, split⟩
  · exact absurd empty (List.splitOn_ne_nil slash key)
  · exact ⟨before, last, by rw [names, split]; rfl, split⟩

theorem names_injective {bucket bucket' key key' : Bytes} (same : names bucket key = names bucket' key') :
    bucket = bucket' ∧ key = key' := by
  obtain ⟨buckets, segments⟩ := List.cons.inj same
  refine ⟨buckets, ?_⟩
  calc key = [slash].intercalate (key.splitOn slash) := (List.intercalate_splitOn slash).symm
    _ = [slash].intercalate (key'.splitOn slash) := by rw [segments]
    _ = key' := List.intercalate_splitOn slash

/-- `path` is `directory` followed by at least one name and by nothing else. -/
def StrictlyInside (directory path : Text) : Prop :=
  ∃ below : List Bytes, below ≠ [] ∧ (∀ name ∈ below, Safe name) ∧
    components path = components directory ++ below.map .normal

/-- An object and its temporary file lie below their bucket, and no other bucket and key
lead to the same place, not even through another spelling of the path. -/
theorem resolve_contained (root : Text) (bucket key : Bytes) {path : Text} (resolved : resolve root bucket key = .ok path) :
    Safe bucket ∧ components (join root bucket) = components root ++ [.normal bucket] ∧
      StrictlyInside (join root bucket) path ∧ StrictlyInside (join root bucket) (tmpPath path) ∧
      ∀ bucket' key' path', resolve root bucket' key' = .ok path' → (bucket, key) ≠ (bucket', key') →
        components path ≠ components path' ∧ path ≠ path' := by
  obtain ⟨-, safe, rfl⟩ := resolve_eq_ok.mp resolved
  have bucketSafe : Safe bucket := safe bucket List.mem_cons_self
  have directory : components (join root bucket) = components root ++ [.normal bucket] :=
    components_push bucketSafe.1 root
  obtain ⟨before, last, split, segments⟩ := names_split bucket key
  have safeSplit := safe
  rw [split] at safeSplit
  have lastSafe : Safe last := safeSplit last (by simp)
  have beforeSafe : ∀ name ∈ before, Safe name := by
    intro name member
    apply safeSplit name
    simp [member]
  refine ⟨bucketSafe, directory, ?_, ?_, ?_⟩
  · refine ⟨key.splitOn slash, List.splitOn_ne_nil slash key, fun name member => safe name (List.mem_cons_of_mem _ member), ?_⟩
    rw [components_foldl_push root safe, directory, names, List.append_assoc]
    rfl
  · refine ⟨before ++ [last ++ tmpSuffix], by simp, ?_, ?_⟩
    · intro name member
      rcases List.mem_append.mp member with earlier | final
      · exact beforeSafe name earlier
      · rw [List.mem_singleton.mp final]
        exact lastSafe.tmp
    · rw [split, components_tmpPath root safeSplit, directory, List.append_assoc]
      rfl
  · intro bucket' key' path' resolved' different
    obtain ⟨-, safe', rfl⟩ := resolve_eq_ok.mp resolved'
    have apart : components ((names bucket key).foldl push root) ≠ components ((names bucket' key').foldl push root) := by
      rw [components_foldl_push root safe, components_foldl_push root safe']
      intro same
      have lists := List.map_injective_iff.mpr (fun _ _ => Component.normal.inj) (List.append_cancel_left same)
      obtain ⟨rfl, rfl⟩ := names_injective lists
      exact different rfl
    exact ⟨apart, fun same => apart (congrArg components same)⟩

/-- Bucket `b` and key `a/c` under the root `/r/`. -/
theorem resolve_contained_sample :
    resolve [slash, 0x72, slash] [0x62] [0x61, slash, 0x63] = .ok [slash, 0x72, slash, 0x62, slash, 0x61, slash, 0x63] ∧
      StrictlyInside (join [slash, 0x72, slash] [0x62]) (tmpPath [slash, 0x72, slash, 0x62, slash, 0x61, slash, 0x63]) :=
  ⟨rfl, (resolve_contained [slash, 0x72, slash] [0x62] [0x61, slash, 0x63] rfl).2.2.2.1⟩

end Buh.Blob.Resolve
