import Buh.Library.Runs
import Buh.Wire.Codec

/-! Concurrent `put` and `get` calls on one object of the store. Two names stand in its
directory, the object's own and the one of its temporary file, each leading to an inode.
`fs::write` opens the temporary name, creating or truncating, and then writes the bytes in
pieces; `fs::rename` moves the name over. An open file stays open whatever happens to its
name. -/

namespace Buh.Blob.Overlap
open Buh.Library Buh.Wire.Codec

/-- Where a `put` stands. -/
inductive Phase where
  | started
  /-- The temporary file is open; so many bytes are written. -/
  | writing (inode : Nat) (offset : Nat)
  | failed
  | stored
  deriving DecidableEq

structure Put where
  bytes : Bytes
  phase : Phase
  deriving DecidableEq

/-- Where a `get` stands. -/
inductive Get where
  | reading (inode : Nat) (collected : Bytes)
  | notFound
  | returned (bytes : Bytes)
  deriving DecidableEq

structure State where
  tmp : Option Nat
  path : Option Nat
  content : Nat → Bytes
  /-- The first inode that was never used. -/
  next : Nat
  puts : Nat → Option Put
  gets : Nat → Option Get

inductive Action where
  | put (id : Nat) (bytes : Bytes)
  | open_ (id : Nat)
  | write (id : Nat) (count : Nat)
  /-- Opening, writing or renaming fails; the put returns the error. -/
  | fail (id : Nat)
  | rename (id : Nat)
  | get (id : Nat)
  | read (id : Nat) (count : Nat)

def State.initial : State := ⟨none, none, fun _ => [], 0, fun _ => none, fun _ => none⟩

/-- The content of a file after `chunk` was written at `offset`; a gap reads as zeros. -/
def writeAt (content : Bytes) (offset : Nat) (chunk : Bytes) : Bytes :=
  content.take offset ++ List.replicate (offset - content.length) 0 ++ chunk ++ content.drop (offset + chunk.length)

def State.setPut (state : State) (id : Nat) (put : Put) : State :=
  { state with puts := Function.update state.puts id (some put) }

def State.setGet (state : State) (id : Nat) (get : Get) : State :=
  { state with gets := Function.update state.gets id (some get) }

section
variable (state : State) (id : Nat) (put : Put) (get : Get)

@[simp] theorem State.setPut_tmp : (state.setPut id put).tmp = state.tmp := rfl
@[simp] theorem State.setPut_path : (state.setPut id put).path = state.path := rfl
@[simp] theorem State.setPut_content : (state.setPut id put).content = state.content := rfl
@[simp] theorem State.setPut_self : (state.setPut id put).puts id = some put := Function.update_self _ _ _

variable {state id put get}

theorem State.setPut_of_ne {other : Nat} (apart : other ≠ id) : (state.setPut id put).puts other = state.puts other :=
  Function.update_of_ne apart _ _

theorem State.setGet_of_ne {other : Nat} (apart : other ≠ id) : (state.setGet id get).gets other = state.gets other :=
  Function.update_of_ne apart _ _

theorem State.setGet_self : (state.setGet id get).gets id = some get := Function.update_self _ _ _

end

/-- Open with `O_CREAT | O_TRUNC`: an existing file is emptied, whoever else has it open. -/
def State.openTmp (state : State) : State × Nat :=
  match state.tmp with
  | some inode => ({ state with content := Function.update state.content inode [] }, inode)
  | none =>
    ({ state with
        tmp := some state.next
        content := Function.update state.content state.next []
        next := state.next + 1 }, state.next)

/-- `none` where the action is not possible. -/
def step (state : State) : Action → Option State
  | .put id bytes =>
    match state.puts id with
    | none => some (state.setPut id ⟨bytes, .started⟩)
    | some _ => none
  | .open_ id =>
    match state.puts id with
    | some ⟨bytes, .started⟩ => some (state.openTmp.1.setPut id ⟨bytes, .writing state.openTmp.2 0⟩)
    | _ => none
  | .write id count =>
    match state.puts id with
    | some ⟨bytes, .writing inode offset⟩ =>
      let chunk := (bytes.drop offset).take count
      some ({ state with
        content := Function.update state.content inode (writeAt (state.content inode) offset chunk) }.setPut id
          ⟨bytes, .writing inode (offset + chunk.length)⟩)
    | _ => none
  | .fail id =>
    match state.puts id with
    | some ⟨bytes, .started⟩ => some (state.setPut id ⟨bytes, .failed⟩)
    | some ⟨bytes, .writing _ _⟩ => some (state.setPut id ⟨bytes, .failed⟩)
    | _ => none
  | .rename id =>
    match state.puts id with
    | some ⟨bytes, .writing _ offset⟩ =>
      if offset = bytes.length then
        match state.tmp with
        | none => some (state.setPut id ⟨bytes, .failed⟩)
        | some inode => some ({ state with tmp := none, path := some inode }.setPut id ⟨bytes, .stored⟩)
      else none
    | _ => none
  | .get id =>
    match state.gets id with
    | none =>
      match state.path with
      | none => some (state.setGet id .notFound)
      | some inode => some (state.setGet id (.reading inode []))
    | some _ => none
  | .read id count =>
    match state.gets id with
    | some (.reading inode collected) =>
      if collected.length < (state.content inode).length then
        some (state.setGet id
          (.reading inode (collected ++ ((state.content inode).drop collected.length).take count)))
      else some (state.setGet id (.returned collected))
    | _ => none

/-- The states that calls can lead to when every step is one that is `allowed`. -/
abbrev Run (allowed : State → Action → Prop) (state : State) : Prop := Runs.Run step allowed (· = .initial) state

/-- A put between opening the temporary file and renaming it. -/
def Writing (state : State) (id : Nat) : Prop :=
  ∃ bytes inode offset, state.puts id = some ⟨bytes, .writing inode offset⟩

/-- A put opens the temporary file only when no other put has it. -/
def Alone (state : State) : Action → Prop
  | .open_ _ => ∀ other, ¬Writing state other
  | _ => True

/-- A file that nobody will write to again, with all the bytes of a put that returned
`Ok`. -/
def Complete (state : State) (inode : Nat) : Prop :=
  inode < state.next ∧ state.tmp ≠ some inode ∧ ∃ id, state.puts id = some ⟨state.content inode, .stored⟩

/-- Only the temporary file is ever written to, by one put at a time, and all others are
complete. -/
structure Kept (state : State) : Prop where
  used : ∀ inode, state.tmp = some inode → inode < state.next
  single : ∀ id id', Writing state id → Writing state id' → id = id'
  writing : ∀ id bytes inode offset, state.puts id = some ⟨bytes, .writing inode offset⟩ →
    state.tmp = some inode ∧ offset ≤ bytes.length ∧ state.content inode = bytes.take offset
  stored : ∀ id bytes, state.puts id = some ⟨bytes, .stored⟩ → state.path ≠ none
  path : ∀ inode, state.path = some inode → Complete state inode
  reading : ∀ id inode collected, state.gets id = some (.reading inode collected) →
    Complete state inode ∧ collected <+: state.content inode
  returned : ∀ id bytes, state.gets id = some (.returned bytes) → ∃ id put, state.puts id = some put ∧ put.bytes = bytes

theorem kept_initial : Kept .initial := by
  constructor <;> simp [State.initial, Writing]

/-- Writing on where the file ends. -/
theorem writeAt_take {bytes : Bytes} {offset count : Nat} (inside : offset ≤ bytes.length) :
    writeAt (bytes.take offset) offset ((bytes.drop offset).take count) =
      bytes.take (offset + ((bytes.drop offset).take count).length) := by
  have full : (bytes.take offset).length = offset := List.length_take_of_le inside
  have chunk : (bytes.drop offset).take ((bytes.drop offset).take count).length = (bytes.drop offset).take count := by
    rw [List.length_take, ← List.take_take, List.take_length]
  have tail : (bytes.take offset).drop (offset + ((bytes.drop offset).take count).length) = [] :=
    List.drop_eq_nil_of_le (by omega)
  rw [writeAt, full, tail, Nat.sub_self, List.replicate_zero, List.append_nil, List.append_nil, List.take_take,
    Nat.min_self, List.take_add, chunk]

/-- What a put may change while the others stand still: the temporary file, and a file
that was never used. -/
structure Moves (state after : State) : Prop where
  later : state.next ≤ after.next
  tmp : ∀ inode, after.tmp = some inode → state.tmp = some inode ∨ inode = state.next
  content : ∀ inode, state.tmp ≠ some inode → inode < state.next → after.content inode = state.content inode
  finished : ∀ id bytes, state.puts id = some ⟨bytes, .stored⟩ → after.puts id = some ⟨bytes, .stored⟩
  issued : ∀ id put, state.puts id = some put → ∃ put', after.puts id = some put' ∧ put'.bytes = put.bytes
  gets : after.gets = state.gets

theorem Moves.complete {state after : State} (moves : Moves state after) {inode : Nat} (complete : Complete state inode) :
    Complete after inode ∧ after.content inode = state.content inode := by
  obtain ⟨used, notTmp, id, put⟩ := complete
  have same := moves.content inode notTmp used
  have later := moves.later
  refine ⟨⟨by omega, ?_, id, ?_⟩, same⟩
  · intro isTmp
    rcases moves.tmp inode isTmp with earlier | fresh
    · exact notTmp earlier
    · omega
  · rw [same]
    exact moves.finished id _ put

theorem Moves.reading {state after : State} (moves : Moves state after) (kept : Kept state) (id inode : Nat)
    (collected : Bytes) (get : after.gets id = some (.reading inode collected)) :
    Complete after inode ∧ collected <+: after.content inode := by
  rw [moves.gets] at get
  obtain ⟨complete, isPrefix⟩ := kept.reading id inode collected get
  obtain ⟨complete, same⟩ := moves.complete complete
  exact ⟨complete, same ▸ isPrefix⟩

theorem Moves.returned {state after : State} (moves : Moves state after) (kept : Kept state) (id : Nat)
    (bytes : Bytes) (get : after.gets id = some (.returned bytes)) :
    ∃ id put, after.puts id = some put ∧ put.bytes = bytes := by
  rw [moves.gets] at get
  obtain ⟨id, put, issued, rfl⟩ := kept.returned id bytes get
  obtain ⟨put', issued, same⟩ := moves.issued id put issued
  exact ⟨id, put', issued, same⟩

/-- What a put that has not stored its bytes yet looks like wherever it is looked up. -/
theorem unfinished {state : State} {id : Nat} {bytes : Bytes} {phase : Phase} (current : state.puts id = some ⟨bytes, phase⟩)
    (going : phase ≠ .stored) (put : Put) (present : state.puts id = some put) : put.bytes = bytes ∧ put.phase ≠ .stored := by
  rw [current] at present
  cases present
  exact ⟨rfl, going⟩

/-- A put that has not finished goes on to its next phase, with its own bytes. -/
theorem moves_setPut {state middle : State} {id : Nat} {bytes : Bytes} (phase : Phase)
    (own : ∀ put, state.puts id = some put → put.bytes = bytes ∧ put.phase ≠ .stored) (later : state.next ≤ middle.next)
    (tmp : ∀ inode, middle.tmp = some inode → state.tmp = some inode ∨ inode = state.next)
    (content : ∀ inode, state.tmp ≠ some inode → inode < state.next → middle.content inode = state.content inode)
    (puts : middle.puts = state.puts) (gets : middle.gets = state.gets) :
    Moves state (middle.setPut id ⟨bytes, phase⟩) where
  later := later
  tmp := tmp
  content := content
  gets := gets
  finished := by
    intro other bytes' put
    have apart : other ≠ id := by
      rintro rfl
      exact (own _ put).2 rfl
    rw [State.setPut_of_ne apart, puts, put]
  issued := by
    intro other put issued
    by_cases same : other = id
    · subst same
      exact ⟨_, State.setPut_self _ _ _, (own put issued).1.symm⟩
    · exact ⟨put, by rw [State.setPut_of_ne same, puts, issued], rfl⟩

/-- Which puts are writing after one of them changed its phase. -/
theorem writing_setPut {state : State} {id other : Nat} {put : Put} (writing : Writing (state.setPut id put) other) :
    (other = id ∧ ∃ bytes inode offset, put = ⟨bytes, .writing inode offset⟩) ∨ (other ≠ id ∧ Writing state other) := by
  by_cases same : other = id
  · subst same
    obtain ⟨bytes, inode, offset, current⟩ := writing
    rw [State.setPut_self, Option.some.injEq] at current
    exact Or.inl ⟨rfl, bytes, inode, offset, current⟩
  · rw [Writing, State.setPut_of_ne same] at writing
    exact Or.inr ⟨same, writing⟩

/-- A put starts or fails: nobody else notices. -/
theorem kept_quiet {state : State} (kept : Kept state) {id : Nat} {bytes : Bytes} {phase : Phase}
    (own : ∀ put, state.puts id = some put → put.bytes = bytes ∧ put.phase ≠ .stored)
    (quiet : phase = .started ∨ phase = .failed) : Kept (state.setPut id ⟨bytes, phase⟩) := by
  have moves : Moves state (state.setPut id ⟨bytes, phase⟩) :=
    moves_setPut phase own le_rfl (fun _ => Or.inl) (fun _ _ _ => rfl) rfl rfl
  have elsewhere {other : Nat} {put : Put} (present : (state.setPut id ⟨bytes, phase⟩).puts other = some put)
      (loud : put.phase ≠ .started ∧ put.phase ≠ .failed) : state.puts other = some put := by
    by_cases same : other = id
    · subst same
      rw [State.setPut_self] at present
      cases present
      rcases quiet with rfl | rfl
      · exact absurd rfl loud.1
      · exact absurd rfl loud.2
    · rwa [State.setPut_of_ne same] at present
  have writers {other : Nat} (writing : Writing (state.setPut id ⟨bytes, phase⟩) other) : Writing state other := by
    obtain ⟨bytes', inode, offset, current⟩ := writing
    exact ⟨bytes', inode, offset, elsewhere current (by simp)⟩
  constructor
  · exact kept.used
  · intro other other' first second
    exact kept.single other other' (writers first) (writers second)
  · intro other bytes' inode offset current
    exact kept.writing other bytes' inode offset (elsewhere current (by simp))
  · intro other bytes' current
    exact kept.stored other bytes' (elsewhere current (by simp))
  · intro inode current
    exact (moves.complete (kept.path inode current)).1
  · exact moves.reading kept
  · exact moves.returned kept

/-- The only put that writes opens the temporary file or writes to it. -/
theorem kept_writing {state middle : State} (kept : Kept state) {id inode offset : Nat} {bytes : Bytes}
    (moves : Moves state (middle.setPut id ⟨bytes, .writing inode offset⟩)) (puts : middle.puts = state.puts)
    (path : middle.path = state.path) (alone : ∀ other, Writing state other → other = id)
    (tmp : middle.tmp = some inode) (used : inode < middle.next) (inside : offset ≤ bytes.length)
    (content : middle.content inode = bytes.take offset) :
    Kept (middle.setPut id ⟨bytes, .writing inode offset⟩) := by
  have writers {other : Nat} (writing : Writing (middle.setPut id ⟨bytes, .writing inode offset⟩) other) : other = id := by
    rcases writing_setPut writing with ⟨same, -⟩ | ⟨-, earlier⟩
    · exact same
    · rw [Writing, puts] at earlier
      exact alone other earlier
  constructor
  · intro inode' current
    rw [State.setPut_tmp, tmp] at current
    cases current
    exact used
  · intro other other' first second
    rw [writers first, writers second]
  · intro other bytes' inode' offset' current
    obtain rfl := writers ⟨bytes', inode', offset', current⟩
    rw [State.setPut_self] at current
    cases current
    exact ⟨tmp, inside, content⟩
  · intro other bytes' current
    have apart : other ≠ id := by
      rintro rfl
      rw [State.setPut_self] at current
      cases current
    rw [State.setPut_of_ne apart, puts] at current
    rw [State.setPut_path, path]
    exact kept.stored other bytes' current
  · intro inode' current
    rw [State.setPut_path, path] at current
    exact (moves.complete (kept.path inode' current)).1
  · exact moves.reading kept
  · exact moves.returned kept

theorem kept_open {state : State} (kept : Kept state) {id : Nat} {bytes : Bytes}
    (current : state.puts id = some ⟨bytes, .started⟩) (alone : ∀ other, ¬Writing state other) :
    Kept (state.openTmp.1.setPut id ⟨bytes, .writing state.openTmp.2 0⟩) := by
  have own := unfinished current (by simp)
  have nobody : ∀ other, Writing state other → other = id := fun other writing => absurd writing (alone other)
  cases found : state.tmp with
  | some inode =>
    simp only [State.openTmp, found]
    refine kept_writing kept ?_ rfl rfl nobody rfl (kept.used inode found) (Nat.zero_le _) (by simp)
    refine moves_setPut _ own le_rfl ?_ ?_ rfl rfl
    · intro other isTmp
      exact Or.inl (found.trans isTmp)
    · intro other notTmp _
      exact Function.update_of_ne (by rintro rfl; exact notTmp found) _ _
  | none =>
    simp only [State.openTmp, found]
    refine kept_writing kept ?_ rfl rfl nobody rfl (Nat.lt_succ_self _) (Nat.zero_le _) (by simp)
    refine moves_setPut _ own (Nat.le_succ _) ?_ ?_ rfl rfl
    · intro inode made
      exact Or.inr (Option.some.inj made).symm
    · intro other _ used
      exact Function.update_of_ne used.ne _ _

theorem kept_write {state : State} (kept : Kept state) {id inode offset : Nat} {bytes : Bytes} (count : Nat)
    (current : state.puts id = some ⟨bytes, .writing inode offset⟩) :
    Kept ({ state with
        content := Function.update state.content inode
          (writeAt (state.content inode) offset ((bytes.drop offset).take count)) }.setPut id
      ⟨bytes, .writing inode (offset + ((bytes.drop offset).take count).length)⟩) := by
  obtain ⟨isTmp, inside, content⟩ := kept.writing id bytes inode offset current
  have own := unfinished current (by simp)
  have alone : ∀ other, Writing state other → other = id :=
    fun other writing => kept.single other id writing ⟨bytes, inode, offset, current⟩
  have reached : offset + ((bytes.drop offset).take count).length ≤ bytes.length := by
    rw [List.length_take, List.length_drop]
    omega
  refine kept_writing kept ?_ rfl rfl alone isTmp (kept.used inode isTmp) reached ?_
  · refine moves_setPut _ own le_rfl (fun _ => Or.inl) ?_ rfl rfl
    intro other notTmp _
    exact Function.update_of_ne (by rintro rfl; exact notTmp isTmp) _ _
  · change Function.update state.content inode _ inode = _
    rw [Function.update_self, content, writeAt_take inside]

theorem kept_rename {state : State} (kept : Kept state) {id inode : Nat} {bytes : Bytes}
    (current : state.puts id = some ⟨bytes, .writing inode bytes.length⟩) :
    Kept ({ state with tmp := none, path := some inode }.setPut id ⟨bytes, .stored⟩) := by
  obtain ⟨isTmp, -, content⟩ := kept.writing id bytes inode _ current
  have own := unfinished current (by simp)
  have moves : Moves state ({ state with tmp := none, path := some inode }.setPut id ⟨bytes, .stored⟩) :=
    moves_setPut _ own le_rfl (by simp) (fun _ _ _ => rfl) rfl rfl
  have nobody (other : Nat) : ¬Writing ({ state with tmp := none, path := some inode }.setPut id ⟨bytes, .stored⟩) other := by
    intro writing
    rcases writing_setPut writing with ⟨-, _, _, _, stored⟩ | ⟨apart, earlier⟩
    · cases stored
    · exact apart (kept.single other id earlier ⟨bytes, inode, _, current⟩)
  constructor
  · simp
  · intro other _ first
    exact absurd first (nobody other)
  · intro other bytes' inode' offset' present
    exact absurd ⟨bytes', inode', offset', present⟩ (nobody other)
  · simp
  · intro inode' named
    obtain rfl := Option.some.inj named
    refine ⟨kept.used inode isTmp, by simp, id, ?_⟩
    rw [State.setPut_self, State.setPut_content, content, List.take_length]
  · exact moves.reading kept
  · exact moves.returned kept

/-- A get changes nothing but where it stands itself. -/
theorem kept_setGet {state : State} (kept : Kept state) {id : Nat} {get : Get}
    (reading : ∀ inode collected, get = .reading inode collected → Complete state inode ∧ collected <+: state.content inode)
    (returned : ∀ bytes, get = .returned bytes → ∃ id put, state.puts id = some put ∧ put.bytes = bytes) :
    Kept (state.setGet id get) := by
  refine ⟨kept.used, kept.single, kept.writing, kept.stored, kept.path, ?_, ?_⟩
  · intro other inode collected current
    by_cases same : other = id
    · subst same
      rw [State.setGet_self, Option.some.injEq] at current
      exact reading inode collected current
    · rw [State.setGet_of_ne same] at current
      exact kept.reading other inode collected current
  · intro other bytes current
    by_cases same : other = id
    · subst same
      rw [State.setGet_self, Option.some.injEq] at current
      exact returned bytes current
    · rw [State.setGet_of_ne same] at current
      exact kept.returned other bytes current

/-- Every step keeps the files in order, if a put opens the temporary file alone. -/
theorem kept_step {state next : State} {action : Action} (kept : Kept state) (alone : Alone state action)
    (stepped : step state action = some next) : Kept next := by
  unfold step at stepped
  split at stepped
  · next id bytes =>
    split at stepped
    · next fresh =>
      cases stepped
      exact kept_quiet kept (by simp [fresh]) (Or.inl rfl)
    · cases stepped
  · next id =>
    split at stepped
    · next bytes current =>
      cases stepped
      exact kept_open kept current alone
    · cases stepped
  · next id count =>
    split at stepped
    · next bytes inode offset current =>
      cases stepped
      exact kept_write kept count current
    · cases stepped
  · next id =>
    split at stepped
    · next bytes current =>
      cases stepped
      exact kept_quiet kept (unfinished current (by simp)) (Or.inr rfl)
    · next bytes inode offset current =>
      cases stepped
      exact kept_quiet kept (unfinished current (by simp)) (Or.inr rfl)
    · cases stepped
  · next id =>
    split at stepped
    · next bytes inode offset current =>
      split_ifs at stepped with complete
      split at stepped
      · cases stepped
        exact kept_quiet kept (unfinished current (by simp)) (Or.inr rfl)
      · next inode' isTmp =>
        cases stepped
        subst complete
        obtain rfl : inode' = inode := by
          have own := (kept.writing id bytes inode _ current).1
          exact Option.some.inj (isTmp.symm.trans own)
        exact kept_rename kept current
    · cases stepped
  · next id =>
    split at stepped
    · split at stepped
      · cases stepped
        exact kept_setGet kept (by simp) (by simp)
      · next inode named =>
        cases stepped
        apply kept_setGet kept _ (by simp)
        rintro inode' collected ⟨⟩
        exact ⟨kept.path inode named, List.nil_prefix⟩
    · cases stepped
  · next id count =>
    split at stepped
    · next inode collected current =>
      obtain ⟨complete, isPrefix⟩ := kept.reading id inode collected current
      split_ifs at stepped with more
      · cases stepped
        apply kept_setGet kept _ (by simp)
        rintro inode' collected' ⟨⟩
        refine ⟨complete, ?_⟩
        obtain ⟨rest, whole⟩ := isPrefix
        rw [← whole, List.drop_left]
        exact (List.prefix_append_right_inj _).mpr (List.take_prefix _ _)
      · cases stepped
        apply kept_setGet kept (by simp)
        rintro bytes ⟨⟩
        obtain ⟨-, -, id, stored⟩ := complete
        refine ⟨id, _, stored, ?_⟩
        exact (isPrefix.eq_of_length_le (by omega)).symm
    · cases stepped

theorem kept_run {state : State} (run : Run Alone state) : Kept state := by
  refine Runs.Run.invariant ?_ (fun _ _ _ kept alone stepped => kept_step kept alone stepped) run
  rintro _ rfl
  exact kept_initial

def Finished (put : Put) : Prop := put.phase = .failed ∨ put.phase = .stored

/-- While puts do not overlap between opening and renaming, a get returns what some put
was given, whole, and what is left at the end is what a put that returned `Ok` was given. -/
theorem gets_whole {state : State} (run : Run Alone state) :
    (∀ id bytes, state.gets id = some (.returned bytes) → ∃ id put, state.puts id = some put ∧ put.bytes = bytes) ∧
      ((∀ id put, state.puts id = some put → Finished put) → (∃ id bytes, state.puts id = some ⟨bytes, .stored⟩) →
        ∃ inode id, state.path = some inode ∧ state.puts id = some ⟨state.content inode, .stored⟩) := by
  have kept := kept_run run
  refine ⟨kept.returned, ?_⟩
  rintro - ⟨id, bytes, stored⟩
  obtain ⟨inode, named⟩ := Option.ne_none_iff_exists'.mp (kept.stored id bytes stored)
  obtain ⟨-, -, id', whole⟩ := kept.path inode named
  exact ⟨inode, id', named, whole⟩

/-- A get opens the first object and reads it while a second put is between opening and renaming. -/
theorem gets_whole_sample : ∃ state, Run Alone state ∧ state.gets 0 = some (.returned [1, 2]) ∧
    (∃ id put, state.puts id = some put ∧ put.bytes = [1, 2]) ∧
      ∃ inode id, state.path = some inode ∧ state.puts id = some ⟨state.content inode, .stored⟩ ∧
        state.content inode = [3, 4, 5] := by
  obtain ⟨state, follows, got, finished, stored, path⟩ : ∃ state, Runs.Follows step Alone .initial
      [.put 0 [1, 2], .put 1 [3, 4, 5], .open_ 0, .write 0 1, .write 0 1, .rename 0, .open_ 1, .write 1 2, .get 0,
        .read 0 1, .write 1 1, .rename 1, .read 0 9, .read 0 9] state ∧ state.gets 0 = some (.returned [1, 2]) ∧
      (∀ id put, state.puts id = some put → Finished put) ∧ state.puts 1 = some ⟨[3, 4, 5], .stored⟩ ∧
      ∃ inode, state.path = some inode ∧ state.content inode = [3, 4, 5] := by
    refine ⟨_, ⟨trivial, _, rfl, trivial, _, rfl, ?_, _, rfl, trivial, _, rfl, trivial, _, rfl, trivial, _, rfl, ?_, _, rfl,
      trivial, _, rfl, trivial, _, rfl, trivial, _, rfl, trivial, _, rfl, trivial, _, rfl, trivial, _, rfl, trivial, _,
      rfl, rfl⟩, rfl, ?_, rfl, _, rfl, rfl⟩
    · rintro (_ | _ | other) ⟨_, _, _, present⟩ <;> cases present
    · rintro (_ | _ | other) ⟨_, _, _, present⟩ <;> cases present
    · rintro (_ | _ | id) put present
      · cases present
        exact Or.inr rfl
      · cases present
        exact Or.inr rfl
      · cases present
  have run : Run Alone state := Runs.Run.follow (.start rfl) follows
  have whole := gets_whole run
  obtain ⟨inode, id, named, left⟩ := whole.2 finished ⟨1, _, stored⟩
  obtain ⟨inode', named', content⟩ := path
  rw [named, Option.some.injEq] at named'
  exact ⟨state, run, got, whole.1 0 [1, 2] got, inode, id, named, left, named' ▸ content⟩

/-- One put has written its bytes and a second one opens the temporary file, which empties
it; the first one renames the empty file, and that is what a get reads. -/
theorem overlapping_puts_tear : ∃ state, Run (fun _ _ => True) state ∧ state.puts 0 = some ⟨[1, 2], .stored⟩ ∧
    state.gets 0 = some (.returned []) ∧ ∀ id put, state.puts id = some put → put.bytes ≠ [] := by
  have follows : Runs.Follows step (fun _ _ => True) .initial
      [.put 0 [1, 2], .put 1 [3], .open_ 0, .write 0 2, .open_ 1, .rename 0, .get 0, .read 0 9] _ :=
    Runs.follows_of_foldlM (fun _ _ _ => trivial) rfl
  refine ⟨_, Runs.Run.follow (.start rfl) follows, rfl, rfl, ?_⟩
  intro id put present
  rcases id with _ | _ | id
  · cases present
    simp
  · cases present
    simp
  · cases present

end Buh.Blob.Overlap
