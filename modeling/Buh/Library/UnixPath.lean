import Mathlib.Data.List.DropRight

/-! Paths as the bytes of their text, with the operations of Rust's `std::path` on Unix.
Equality of texts is finer than equality of components: `a//b` and `a/./b` have the
components of `a/b`. -/

namespace Buh.Library.UnixPath

abbrev Text := List UInt8

def slash : UInt8 := 0x2f
def dot : UInt8 := 0x2e

inductive Component where
  | rootDir
  | curDir
  | parentDir
  | normal (name : Text)
  deriving DecidableEq

def hasRoot (path : Text) : Bool := path.head? = some slash

/-- A leading `.` is the one that counts as a component. -/
def includeCurDir (path : Text) : Bool := path = [dot] ∨ path.take 2 = [dot, slash]

/-- The bytes in front of the first separated piece: a root, or a leading `.`. -/
def lenBeforeBody (path : Text) : Nat := if hasRoot path ∨ includeCurDir path then 1 else 0

def pieces (path : Text) : List Text := (path.drop (lenBeforeBody path)).splitOn slash

/-- Empty pieces and `.` are passed over. -/
def parseSingleComponent (piece : Text) : Option Component :=
  if piece = [] ∨ piece = [dot] then none
  else if piece = [dot, dot] then some .parentDir
  else some (.normal piece)

def front (path : Text) : List Component :=
  if hasRoot path then [.rootDir] else if includeCurDir path then [.curDir] else []

def components (path : Text) : List Component := front path ++ (pieces path).filterMap parseSingleComponent

def fileName (path : Text) : Option Text :=
  match (components path).getLast? with
  | some (.normal name) => some name
  | _ => none

/-- Drop the pieces at the end that are no components. -/
def trimRight (pieces : List Text) : List Text := pieces.rdropWhile (fun piece => (parseSingleComponent piece).isNone)

/-- The text in front of the last component, without the separators between. -/
def parent (path : Text) : Option Text :=
  match (components path).getLast? with
  | none => none
  | some .rootDir => none
  | some .curDir => some []
  | some _ =>
    some (path.take (lenBeforeBody path) ++ [slash].intercalate (trimRight (trimRight (pieces path)).dropLast))

/-- An absolute path replaces the one it is pushed on; otherwise a separator is put
between where there is none. -/
def push (path other : Text) : Text :=
  if hasRoot other then other
  else if path = [] ∨ path.getLast? = some slash then path ++ other
  else path ++ slash :: other

def join (path other : Text) : Text := push path other

def pop (path : Text) : Text := (parent path).getD path

def withFileName (path name : Text) : Text := if (fileName path).isSome then push (pop path) name else push path name

/-- A name that is one component wherever it stands. -/
def Plain (name : Text) : Prop := name ≠ [] ∧ name ≠ [dot] ∧ name ≠ [dot, dot] ∧ slash ∉ name

instance (name : Text) : Decidable (Plain name) := inferInstanceAs (Decidable (_ ∧ _))

theorem Plain.parses {name : Text} (plain : Plain name) : parseSingleComponent name = some (.normal name) := by
  obtain ⟨nonempty, single, double, -⟩ := plain
  simp [parseSingleComponent, nonempty, single, double]

theorem Plain.hasRoot {name : Text} (plain : Plain name) : hasRoot name = false := by
  obtain ⟨-, -, -, free⟩ := plain
  cases name with
  | nil => rfl
  | cons byte rest =>
    have other : byte ≠ slash := fun same => free (same ▸ List.mem_cons_self)
    simp [UnixPath.hasRoot, other]

theorem Plain.includeCurDir {name : Text} (plain : Plain name) : includeCurDir name = false := by
  obtain ⟨-, single, -, free⟩ := plain
  have pair : name.take 2 ≠ [dot, slash] := by
    intro same
    apply free
    apply List.mem_of_mem_take (i := 2)
    simp [same]
  simp [UnixPath.includeCurDir, single, pair]

/-- What a plain name adds to the text it is pushed on. -/
def added (path name : Text) : Text := if path = [] ∨ path.getLast? = some slash then name else slash :: name

theorem push_plain {name : Text} (plain : Plain name) (path : Text) : push path name = path ++ added path name := by
  rw [push, if_neg (by simp [plain.hasRoot]), added]
  split_ifs <;> rfl

theorem hasRoot_push {name : Text} (plain : Plain name) (path : Text) : hasRoot (push path name) = hasRoot path := by
  rw [push_plain plain]
  cases path with
  | nil => exact plain.hasRoot
  | cons byte rest => rfl

theorem includeCurDir_push {name : Text} (plain : Plain name) (path : Text) :
    includeCurDir (push path name) = includeCurDir path := by
  rw [push_plain plain]
  rcases path with _ | ⟨byte, _ | ⟨next, rest⟩⟩
  · exact plain.includeCurDir
  · by_cases separator : byte = slash
    · simp [includeCurDir, separator, slash, dot]
    · simp [includeCurDir, added, separator]
  · simp [includeCurDir]

theorem front_push {name : Text} (plain : Plain name) (path : Text) : front (push path name) = front path := by
  rw [front, front, hasRoot_push plain, includeCurDir_push plain]

theorem lenBeforeBody_push {name : Text} (plain : Plain name) (path : Text) :
    lenBeforeBody (push path name) = lenBeforeBody path := by
  rw [lenBeforeBody, lenBeforeBody, hasRoot_push plain, includeCurDir_push plain]

theorem lenBeforeBody_le (path : Text) : lenBeforeBody path ≤ path.length := by
  unfold lenBeforeBody
  cases path with
  | nil => simp [hasRoot, includeCurDir]
  | cons byte rest =>
    rw [List.length_cons]
    split_ifs <;> omega

/-- The body of a pushed path is cut at the separator before the name; a separator that
was at the end already has left an empty piece there. -/
theorem pieces_push {name : Text} (plain : Plain name) (path : Text) :
    ∃ kept, pieces (push path name) = kept ++ [name] ∧ (pieces path = kept ∨ pieces path = kept ++ [[]]) := by
  have alone : name.splitOn slash = [name] := List.splitOn_eq_singleton plain.2.2.2
  have body : (push path name).drop (lenBeforeBody (push path name)) =
      path.drop (lenBeforeBody path) ++ added path name := by
    rw [lenBeforeBody_push plain, push_plain plain, List.drop_append_of_le_length (lenBeforeBody_le path)]
  rw [pieces, pieces, body]
  by_cases separated : path = [] ∨ path.getLast? = some slash
  · rw [added, if_pos separated]
    rcases List.eq_nil_or_concat' (path.drop (lenBeforeBody path)) with empty | ⟨before, last, split⟩
    · exact ⟨[], by simp [empty, alone], Or.inr (by simp [empty])⟩
    · have same : last = slash := by
        rcases separated with rfl | ends
        · simp at split
        · rw [← List.take_append_drop (lenBeforeBody path) path, split, ← List.append_assoc, List.getLast?_concat,
            Option.some.injEq] at ends
          exact ends
      subst same
      refine ⟨before.splitOn slash, ?_, Or.inr ?_⟩
      · rw [split, List.append_assoc, List.singleton_append, List.splitOn_append_cons_self, alone]
      · rw [split, List.splitOn_append_cons_self, List.splitOn_nil]
  · rw [added, if_neg separated, List.splitOn_append_cons_self, alone]
    exact ⟨_, rfl, Or.inl rfl⟩

theorem components_push {name : Text} (plain : Plain name) (path : Text) :
    components (push path name) = components path ++ [.normal name] := by
  have blank : parseSingleComponent [] = none := rfl
  obtain ⟨kept, pushed, same | same⟩ := pieces_push plain path
  · rw [components, components, front_push plain, pushed, same, List.filterMap_append, List.append_assoc]
    simp [plain.parses]
  · rw [components, components, front_push plain, pushed, same, List.filterMap_append, List.filterMap_append,
      List.append_assoc]
    simp [plain.parses, blank]

theorem fileName_push {name : Text} (plain : Plain name) (path : Text) : fileName (push path name) = some name := by
  rw [fileName, components_push plain, List.getLast?_concat]

theorem intercalate_isPrefix {sep : Text} {some all : List Text} (isPrefix : some <+: all) :
    sep.intercalate some <+: sep.intercalate all := by
  obtain ⟨rest, rfl⟩ := isPrefix
  induction some with
  | nil => exact List.nil_prefix
  | cons head tail ih =>
    rcases tail with _ | ⟨next, tail⟩
    · rcases rest with _ | ⟨next, rest⟩
      · exact List.prefix_rfl
      · rw [List.singleton_append, List.intercalate_cons_cons, List.intercalate_singleton]
        exact List.prefix_append_of_prefix (List.prefix_append _ _)
    · rw [List.cons_append, List.cons_append, List.intercalate_cons_cons, List.intercalate_cons_cons]
      exact (List.prefix_append_right_inj _).mpr ih

theorem filterMap_trimRight (pieces : List Text) :
    (trimRight pieces).filterMap parseSingleComponent = pieces.filterMap parseSingleComponent := by
  induction pieces using List.reverseRecOn with
  | nil => rfl
  | append_singleton pieces last ih =>
    rw [trimRight, List.rdropWhile_concat]
    split_ifs with skipped
    · rw [List.filterMap_append, ← ih]
      simp [trimRight, Option.isNone_iff_eq_none.mp skipped]
    · rfl

theorem trimRight_concat_nil (pieces : List Text) : trimRight (pieces ++ [[]]) = trimRight pieces :=
  List.rdropWhile_concat_pos _ _ _ rfl

/-- A path without the separators at its end. -/
def trimmed (path : Text) : Text :=
  path.take (lenBeforeBody path) ++ [slash].intercalate (trimRight (pieces path))

theorem trimmed_isPrefix (path : Text) : trimmed path <+: path := by
  have body : [slash].intercalate (pieces path) = path.drop (lenBeforeBody path) := List.intercalate_splitOn slash
  have inner : [slash].intercalate (trimRight (pieces path)) <+: path.drop (lenBeforeBody path) := by
    rw [← body]
    exact intercalate_isPrefix (List.rdropWhile_prefix _ _)
  calc trimmed path
      <+: path.take (lenBeforeBody path) ++ path.drop (lenBeforeBody path) := (List.prefix_append_right_inj _).mpr inner
    _ = path := List.take_append_drop _ _

theorem slash_notMem_of_mem_splitOn (text : Text) {piece : Text} (member : piece ∈ text.splitOn slash) :
    slash ∉ piece := by
  induction text generalizing piece with
  | nil =>
    rw [List.splitOn_nil, List.mem_singleton] at member
    simp [member]
  | cons byte rest ih =>
    obtain ⟨first, others, split⟩ := List.exists_cons_of_ne_nil (List.splitOn_ne_nil slash rest)
    rw [List.splitOn_cons_eq_if_modifyHead, split] at member
    rw [split] at ih
    split_ifs at member with separator
    · rcases List.mem_cons.mp member with rfl | later
      · simp
      · exact ih later
    · rcases List.mem_cons.mp member with rfl | later
      · have inside := ih List.mem_cons_self
        simp only [beq_iff_eq] at separator
        simp [inside, Ne.symm separator]
      · exact ih (List.mem_cons_of_mem _ later)

/-- The pieces of a trimmed path are read back, unless there are none. -/
theorem splitOn_trimRight (path : Text) :
    ([slash].intercalate (trimRight (pieces path))).splitOn slash =
      if trimRight (pieces path) = [] then [[]] else trimRight (pieces path) := by
  split_ifs with empty
  · rw [empty]
    rfl
  · apply List.splitOn_intercalate slash _ empty
    intro piece member
    exact slash_notMem_of_mem_splitOn _ ((List.rdropWhile_prefix _ _).mem member)

/-- A pushed name is the end of the path. -/
theorem trimRight_pieces_push {name : Text} (plain : Plain name) (path : Text) :
    trimRight (pieces (push path name)) = pieces (push path name) := by
  obtain ⟨kept, pushed, -⟩ := pieces_push plain path
  rw [pushed, trimRight, List.rdropWhile_concat_neg _ _ _ (by simp [plain.parses])]

theorem trimmed_push {name : Text} (plain : Plain name) (path : Text) : trimmed (push path name) = push path name := by
  have body : [slash].intercalate (pieces (push path name)) =
      (push path name).drop (lenBeforeBody (push path name)) := List.intercalate_splitOn slash
  rw [trimmed, trimRight_pieces_push plain, body, List.take_append_drop]

theorem parent_push {name : Text} (plain : Plain name) (path : Text) :
    parent (push path name) = some (trimmed path) := by
  have rest : trimRight (pieces (push path name)).dropLast = trimRight (pieces path) := by
    obtain ⟨kept, pushed, same | same⟩ := pieces_push plain path
    · rw [pushed, same, List.dropLast_concat]
    · rw [pushed, same, List.dropLast_concat, trimRight_concat_nil]
  have beginning : (push path name).take (lenBeforeBody path) = path.take (lenBeforeBody path) := by
    rw [push_plain plain, List.take_append_of_le_length (lenBeforeBody_le path)]
  rw [parent, components_push plain, List.getLast?_concat]
  dsimp only
  rw [trimRight_pieces_push plain, rest, lenBeforeBody_push plain, beginning, trimmed]

theorem trimRight_ne_dot (pieces : List Text) : trimRight pieces ≠ [[dot]] := by
  intro same
  rw [trimRight] at same
  have last := List.rdropWhile_last_not (fun piece => (parseSingleComponent piece).isNone) pieces
  simp only [same] at last
  exact last (List.cons_ne_nil _ _) rfl

/-- A path that ends where its last component ends begins as it did. -/
theorem beginning_trimmed (path : Text) :
    hasRoot (trimmed path) = hasRoot path ∧ includeCurDir (trimmed path) = includeCurDir path := by
  obtain ⟨rest, whole⟩ := trimmed_isPrefix path
  by_cases begins : hasRoot path ∨ includeCurDir path
  · obtain ⟨byte, tail, rfl⟩ : ∃ byte tail, path = byte :: tail := by
      cases path with
      | nil => simp [hasRoot, includeCurDir] at begins
      | cons byte tail => exact ⟨byte, tail, rfl⟩
    have shape : trimmed (byte :: tail) =
        byte :: [slash].intercalate (trimRight (pieces (byte :: tail))) := by
      rw [trimmed, lenBeforeBody, if_pos begins]
      rfl
    rw [shape, List.cons_append, List.cons.injEq] at whole
    rw [shape]
    refine ⟨rfl, ?_⟩
    generalize [slash].intercalate (trimRight (pieces (byte :: tail))) = inner at whole
    obtain ⟨-, rfl⟩ := whole
    cases inner with
    | nil =>
      rcases begins with root | cur
      · have separator : byte = slash := by simpa [hasRoot] using root
        simp [includeCurDir, separator, slash, dot]
      · rw [cur]
        have leading : byte = dot := by
          simp only [includeCurDir, List.take_succ_cons, List.cons.injEq, decide_eq_true_eq] at cur
          tauto
        simp [includeCurDir, leading]
    | cons next inner => simp [includeCurDir]
  · have shape : trimmed path = [slash].intercalate (trimRight (pieces path)) := by
      rw [trimmed, lenBeforeBody, if_neg begins]
      rfl
    have single : trimmed path ≠ [dot] := by
      intro same
      have split := splitOn_trimRight path
      rw [← shape, same] at split
      split_ifs at split
      · exact absurd split (by decide)
      · exact trimRight_ne_dot _ split.symm
    simp only [not_or, Bool.not_eq_true] at begins
    obtain ⟨root, cur⟩ := begins
    rw [root, cur]
    generalize trimmed path = begun at whole single
    subst whole
    rcases begun with _ | ⟨byte, _ | ⟨next, begun⟩⟩
    · exact ⟨rfl, rfl⟩
    · exact ⟨root, by simpa [includeCurDir] using single⟩
    · exact ⟨root, by simpa [includeCurDir] using cur⟩

theorem components_trimmed (path : Text) : components (trimmed path) = components path := by
  obtain ⟨root, cur⟩ := beginning_trimmed path
  have beginning : lenBeforeBody (trimmed path) = lenBeforeBody path := by
    rw [lenBeforeBody, lenBeforeBody, root, cur]
  have fronts : front (trimmed path) = front path := by
    rw [front, front, root, cur]
  have body : pieces (trimmed path) =
      if trimRight (pieces path) = [] then [[]] else trimRight (pieces path) := by
    rw [pieces, beginning, trimmed, List.drop_left' (List.length_take_of_le (lenBeforeBody_le path)), splitOn_trimRight]
  rw [components, components, fronts, body, ← filterMap_trimRight (pieces path)]
  split_ifs with empty
  · rw [empty]
    rfl
  · rfl

theorem withFileName_push {name other : Text} (plain : Plain name) (path : Text) :
    withFileName (push path name) other = push (trimmed path) other := by
  have named : (fileName (push path name)).isSome := by
    rw [fileName_push plain]
    rfl
  rw [withFileName, if_pos named, pop, parent_push plain, Option.getD_some]

/-- Another name in place of the last one. -/
theorem components_withFileName {name other : Text} (plain : Plain name) (plain' : Plain other) (path : Text) :
    components (withFileName (push path name) other) = components path ++ [.normal other] := by
  rw [withFileName_push plain, components_push plain', components_trimmed]

/-- A longer name makes a longer path. -/
theorem push_append {name more : Text} (plain : Plain name) (plain' : Plain (name ++ more)) (path : Text) :
    push path (name ++ more) = push path name ++ more := by
  rw [push_plain plain, push_plain plain', added, added, List.append_assoc]
  split_ifs <;> rfl

theorem push_length_le {name : Text} (plain : Plain name) (path : Text) :
    (push path name).length ≤ path.length + 1 + name.length := by
  rw [push_plain plain, added, List.length_append]
  split_ifs
  · omega
  · rw [List.length_cons]
    omega

theorem length_le_push {name : Text} (plain : Plain name) (path : Text) : path.length ≤ (push path name).length := by
  rw [push_plain plain, List.length_append]
  omega

end Buh.Library.UnixPath
