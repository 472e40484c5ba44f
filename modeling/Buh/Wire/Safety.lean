import Buh.Wire.V1

/-! `Frame::decode` on hostile bytes. The decoder is run again with a log of what it does
to its cursor, its varint and its fields. Forgetting the log gives the decoder back, and
every entry of the log is safe, whatever the bytes. The range of `usize` is a parameter
here, for the decoder also runs on a 32-bit target. -/

namespace Buh.Wire.Safety
open Buh.Wire.Codec Buh.Wire.V1

inductive Event where
  /-- The cursor as a primitive finds it or leaves it; `is_empty` and `remaining` look at it. -/
  | cursor (r : Reader)
  /-- `result |= payload << shift`, with the sum it leaves. -/
  | merge (result payload shift sum : UInt64)
  /-- A completed iteration of the loop, with the field it copied out. -/
  | iteration (before after : Reader) (field : Field)

/-- The cursor is on the buffer and not past its end. -/
def Inside (buf : Bytes) (r : Reader) : Prop := r.buf = buf ∧ r.pos ≤ buf.length

/-- No cursor leaves the buffer, no shift is too far and no bit of a varint is lost, and an
iteration consumes at least two bytes beside the ones it copies. -/
def Event.Safe (buf : Bytes) : Event → Prop
  | .cursor r => Inside buf r
  | .merge result payload shift sum =>
    shift.toNat < 64 ∧ sum.toNat = payload.toNat * 2 ^ shift.toNat + result.toNat
  | .iteration before after field => before.pos + 2 + field.value.length ≤ after.pos

/-- A copied field is charged its bytes, and one each for its tag and its length. -/
def Event.charge : Event → Nat
  | .cursor _ => 0
  | .merge _ _ _ _ => 0
  | .iteration _ _ field => 2 + field.value.length

def charged (log : List Event) : Nat := (log.map Event.charge).sum

def Event.field : Event → Option Field
  | .iteration _ _ field => some field
  | _ => none

/-- A byte of a value that was copied out. -/
def Copied (log : List Event) (p : Nat) : Prop :=
  ∃ before after field, .iteration before after field ∈ log ∧ after.pos ≤ p + field.value.length ∧ p < after.pos

/-- A byte that a primitive found under its cursor. -/
def Found (log : List Event) (p : Nat) : Prop := ∃ r, .cursor r ∈ log ∧ r.pos = p

/-- A byte whose seven bits went into a varint. -/
def Merged (buf : Bytes) (log : List Event) (p : Nat) : Prop :=
  ∃ byte result shift sum, buf[p]? = some byte ∧ .merge result (byte &&& 0x7f).toUInt64 shift sum ∈ log

/-- A byte that the log accounts for: it was copied in a value, or found under the cursor, and
behind magic and version then merged into a varint. -/
def Accounted (buf : Bytes) (log : List Event) (p : Nat) : Prop :=
  Copied log p ∨ Found log p ∧ (2 ≤ p → Merged buf log p)

/-- The log of a decoding that returns a frame leaves nothing out. -/
structure Complete (buf : Bytes) (log : List Event) (frame : Frame) : Prop where
  iterations : log.filterMap Event.field = frame.fields
  bytes : ∀ p < buf.length, Accounted buf log p

abbrev Logged (α : Type) := List Event × Except WireError α

def readU8 (r : Reader) : Logged (UInt8 × Reader) :=
  match r.readU8 with
  | .error e => ([.cursor r], .error e)
  | .ok (byte, after) => ([.cursor r, .cursor after], .ok (byte, after))

def readVarintLoop : Nat → UInt64 → UInt64 → Reader → Logged (UInt64 × Reader)
  | 0, _, _, r => ([.cursor r], .error .varintOverflow)
  | groups + 1, result, shift, r =>
    match readU8 r with
    | (log, .error e) => (log, .error e)
    | (log, .ok (byte, r)) =>
      let payload := (byte &&& 0x7f).toUInt64
      if shift = 63 ∧ 1 < payload then (log, .error .varintOverflow)
      else
        let sum := result ||| (payload <<< shift)
        let log := log ++ [.merge result payload shift sum]
        if byte &&& 0x80 = 0 then (log, .ok (sum, r))
        else (log ++ (readVarintLoop groups sum (shift + 7) r).1, (readVarintLoop groups sum (shift + 7) r).2)

def readVarint (r : Reader) : Logged (UInt64 × Reader) := readVarintLoop maxVarintLen 0 0 r

def readBytes (r : Reader) (len : Nat) : Logged (Bytes × Reader) :=
  match r.readBytes len with
  | .error e => ([.cursor r], .error e)
  | .ok (content, after) => ([.cursor r, .cursor after], .ok (content, after))

/-! Without the log these are the primitives themselves. -/

theorem readU8_erase (r : Reader) : (readU8 r).2 = r.readU8 := by
  unfold readU8
  split <;> next read => rw [read]

theorem readVarintLoop_erase (groups : Nat) (result shift : UInt64) (r : Reader) :
    (readVarintLoop groups result shift r).2 = r.readVarintLoop groups result shift := by
  induction groups generalizing result shift r with
  | zero => rfl
  | succ groups ih =>
    have byte := readU8_erase r
    rw [readVarintLoop, Reader.readVarintLoop, ← byte]
    cases readU8 r with
    | mk log answer =>
      cases answer with
      | error e => rfl
      | ok read =>
        dsimp only
        split_ifs
        · rfl
        · rfl
        · exact ih _ _ _

theorem readVarint_erase (r : Reader) : (readVarint r).2 = r.readVarint := readVarintLoop_erase _ _ _ r

theorem readBytes_erase (r : Reader) (len : Nat) : (readBytes r len).2 = r.readBytes len := by
  unfold readBytes
  split <;> next read => rw [read]

theorem readVarint_of_logged {r : Reader} {log : List Event} {answer : Except WireError (UInt64 × Reader)}
    (read : readVarint r = (log, answer)) : r.readVarint = answer :=
  (readVarint_erase r).symm.trans (congrArg Prod.snd read)

theorem readBytes_of_logged {r : Reader} {len : Nat} {log : List Event} {answer : Except WireError (Bytes × Reader)}
    (read : readBytes r len = (log, answer)) : r.readBytes len = answer :=
  (readBytes_erase r len).symm.trans (congrArg Prod.snd read)

def decodeFields (usizeMax : Nat) (r : Reader) (fields : List Field) : Logged (List Field) :=
  if _nonempty : r.isEmpty then ([.cursor r], .ok fields)
  else
    match _tagRead : readVarint r with
    | (log, .error e) => (log, .error e)
    | (tagLog, .ok (tag, afterTag)) =>
      match _lenRead : readVarint afterTag with
      | (log, .error e) => (tagLog ++ log, .error e)
      | (lenLog, .ok (len, afterLen)) =>
        if usizeMax < len.toNat then (tagLog ++ lenLog, .error .fieldTooLong)
        else if afterLen.remaining < len.toNat then (tagLog ++ lenLog ++ [.cursor afterLen], .error .unexpectedEof)
        else
          match _valueRead : readBytes afterLen len.toNat with
          | (log, .error e) => (tagLog ++ lenLog ++ log, .error e)
          | (valueLog, .ok (value, after)) =>
            let log := tagLog ++ lenLog ++ valueLog ++ [.iteration r after ⟨tag, value⟩]
            (log ++ (decodeFields usizeMax after (fields ++ [⟨tag, value⟩])).1,
              (decodeFields usizeMax after (fields ++ [⟨tag, value⟩])).2)
termination_by r.buf.length - r.pos
decreasing_by
  all_goals
    have first := Reader.readVarint_advances (readVarint_of_logged _tagRead)
    have second := Reader.readVarint_advances (readVarint_of_logged _lenRead)
    have third := Reader.readBytes_advances (readBytes_of_logged _valueRead)
    simp only [Reader.isEmpty, decide_eq_true_eq, not_le] at _nonempty
    rw [third.1, third.2, second.1, first.1]
    omega

def decode (usizeMax : Nat) (buf : Bytes) : Logged Frame :=
  match readU8 (Reader.new buf) with
  | (log, .error e) => (log, .error e)
  | (magicLog, .ok (first, r)) =>
    if first ≠ magic then (magicLog, .error (.badMagic first))
    else
      match readU8 r with
      | (log, .error e) => (magicLog ++ log, .error e)
      | (versionLog, .ok (version, r)) =>
        if version ≠ wireVersion then (magicLog ++ versionLog, .error (.unsupportedVersion version))
        else
          match readVarint r with
          | (log, .error e) => (magicLog ++ versionLog ++ log, .error e)
          | (flagsLog, .ok (flags, r)) =>
            match decodeFields usizeMax r [] with
            | (log, .error e) => (magicLog ++ versionLog ++ flagsLog ++ log, .error e)
            | (log, .ok fields) => (magicLog ++ versionLog ++ flagsLog ++ log, .ok { flags, fields })

theorem decodeFields_erase (r : Reader) (fields : List Field) :
    (decodeFields usizeMax r fields).2 = Frame.decodeFields r fields := by
  fun_induction decodeFields usizeMax r fields with
  | case1 r fields empty => rw [Frame.decodeFields, dif_pos empty]
  | case2 r fields busy log e tagRead =>
    have tagFailed := readVarint_of_logged tagRead
    rw [Frame.decodeFields]
    grind
  | case3 r fields busy tagLog tag afterTag tagRead log e lenRead =>
    have tagFound := readVarint_of_logged tagRead
    have lenFailed := readVarint_of_logged lenRead
    rw [Frame.decodeFields]
    grind
  | case4 r fields busy tagLog tag afterTag tagRead lenLog len afterLen lenRead long =>
    have tagFound := readVarint_of_logged tagRead
    have lenFound := readVarint_of_logged lenRead
    rw [Frame.decodeFields]
    grind
  | case5 r fields busy tagLog tag afterTag tagRead lenLog len afterLen lenRead fits short =>
    have tagFound := readVarint_of_logged tagRead
    have lenFound := readVarint_of_logged lenRead
    rw [Frame.decodeFields]
    grind
  | case6 r fields busy tagLog tag afterTag tagRead lenLog len afterLen lenRead fits enough log e valueRead =>
    have tagFound := readVarint_of_logged tagRead
    have lenFound := readVarint_of_logged lenRead
    have valueFailed := readBytes_of_logged valueRead
    rw [Frame.decodeFields]
    grind
  | case7 r fields busy tagLog tag afterTag tagRead lenLog len afterLen lenRead fits enough valueLog value after valueRead
      log ih =>
    have tagFound := readVarint_of_logged tagRead
    have lenFound := readVarint_of_logged lenRead
    have valueFound := readBytes_of_logged valueRead
    rw [Frame.decodeFields]
    grind

theorem decode_erase (buf : Bytes) : (decode usizeMax buf).2 = Frame.decode buf := by
  rw [decode, Frame.decode, ← readU8_erase]
  generalize readU8 (Reader.new buf) = step
  obtain ⟨magicLog, _ | ⟨first, r⟩⟩ := step
  · rfl
  · dsimp only
    rw [← readU8_erase]
    generalize readU8 r = step
    obtain ⟨versionLog, _ | ⟨version, r⟩⟩ := step
    · split_ifs <;> rfl
    · dsimp only
      rw [← readVarint_erase]
      generalize readVarint r = step
      obtain ⟨flagsLog, _ | ⟨flags, r⟩⟩ := step
      · split_ifs <;> rfl
      · dsimp only
        rw [← decodeFields_erase]
        generalize decodeFields usizeMax r [] = step
        obtain ⟨log, _ | fields⟩ := step <;> split_ifs <;> rfl

/-- A primitive does nothing unsafe, copies no field, and moves the cursor by at least
`least` bytes when it succeeds. -/
structure Moves {α : Type} (buf : Bytes) (r : Reader) (least : Nat) (answer : Logged (α × Reader)) : Prop where
  safe : ∀ event ∈ answer.1, event.Safe buf
  free : charged answer.1 = 0
  moved : ∀ value after, answer.2 = .ok (value, after) → Inside buf after ∧ r.pos + least ≤ after.pos

theorem charged_append (first second : List Event) : charged (first ++ second) = charged first + charged second := by
  simp [charged]

/-- One primitive after the other. -/
theorem Moves.andThen {α β : Type} {buf : Bytes} {r middle : Reader} {least least' : Nat} {log log' : List Event} {value : α}
    {answer : Except WireError (β × Reader)} (first : Moves buf r least (log, .ok (value, middle)))
    (second : Moves buf middle least' (log', answer)) : Moves buf r (least + least') (log ++ log', answer) where
  safe := List.forall_mem_append.mpr ⟨first.safe, second.safe⟩
  free := by rw [charged_append, first.free, second.free]
  moved := by
    intro value after found
    obtain ⟨there, moved⟩ := second.moved value after found
    have before := (first.moved _ _ rfl).2
    exact ⟨there, by omega⟩

theorem Inside.ahead {buf : Bytes} {r : Reader} (inside : Inside buf r) : r.Ahead (r.buf.drop r.pos) :=
  ⟨inside.1 ▸ inside.2, rfl⟩

theorem readU8_moves {buf : Bytes} {r : Reader} (inside : Inside buf r) : Moves buf r 1 (readU8 r) := by
  unfold readU8
  cases read : r.readU8 with
  | error e => exact ⟨by simpa [Event.Safe] using inside, rfl, fun _ _ failed => by cases failed⟩
  | ok answer =>
    obtain ⟨byte, after⟩ := answer
    obtain ⟨same, stepped⟩ := Reader.readU8_advances read
    obtain ⟨rest, -, ahead⟩ := inside.ahead.of_readU8 read
    have next : Inside buf after := ⟨same.trans inside.1, inside.1 ▸ same ▸ ahead.1⟩
    refine ⟨by simpa [Event.Safe] using ⟨inside, next⟩, rfl, ?_⟩
    intro value after' found
    cases found
    exact ⟨next, stepped.ge⟩

theorem readBytes_moves {buf : Bytes} {r : Reader} (len : Nat) (inside : Inside buf r) :
    Moves buf r len (readBytes r len) := by
  unfold readBytes
  cases read : r.readBytes len with
  | error e => exact ⟨by simpa [Event.Safe] using inside, rfl, fun _ _ failed => by cases failed⟩
  | ok answer =>
    obtain ⟨content, after⟩ := answer
    obtain ⟨same, stepped⟩ := Reader.readBytes_advances read
    obtain ⟨rest, -, -, ahead⟩ := inside.ahead.of_readBytes read
    have next : Inside buf after := ⟨same.trans inside.1, inside.1 ▸ same ▸ ahead.1⟩
    refine ⟨by simpa [Event.Safe] using ⟨inside, next⟩, rfl, ?_⟩
    intro value after' found
    cases found
    exact ⟨next, stepped.ge⟩

/-- Group `k` of a varint is shifted by `7 * k`, and what was read before is below that, so
the groups do not overlap; the tenth is checked to fit. -/
theorem readVarintLoop_moves (groups k : Nat) (budget : groups + k = maxVarintLen) {result shift : UInt64}
    (at_k : shift.toNat = 7 * k) (small : result.toNat < 2 ^ (7 * k)) {buf : Bytes} {r : Reader} (inside : Inside buf r) :
    Moves buf r 1 (readVarintLoop groups result shift r) := by
  unfold maxVarintLen at budget
  induction groups generalizing k result shift r with
  | zero => exact ⟨by simpa [readVarintLoop, Event.Safe] using inside, rfl, fun _ _ failed => by cases failed⟩
  | succ groups ih =>
    have first := readU8_moves inside
    rw [readVarintLoop]
    generalize readU8 r = step at first ⊢
    obtain ⟨log, answer⟩ := step
    cases answer with
    | error e => exact ⟨first.safe, first.free, fun _ _ failed => by cases failed⟩
    | ok read =>
      obtain ⟨byte, next⟩ := read
      obtain ⟨there, stepped⟩ := first.moved byte next rfl
      dsimp only
      split_ifs with overflow last
      · exact ⟨first.safe, first.free, fun _ _ failed => by cases failed⟩
      all_goals
        have digit := payload_fits at_k (by omega) overflow
        have merged := merge_toNat result _ shift k at_k (by omega) small digit
        have safe : (Event.merge result (byte &&& 0x7f).toUInt64 shift
            (result ||| ((byte &&& 0x7f).toUInt64 <<< shift))).Safe buf := by
          refine ⟨by omega, ?_⟩
          rw [merged, at_k]
      · refine ⟨?_, by rw [charged_append, first.free]; rfl, ?_⟩
        · intro event member
          rcases List.mem_append.mp member with earlier | here
          · exact first.safe event earlier
          · rw [List.mem_singleton.mp here]
            exact safe
        · intro value after found
          cases found
          exact ⟨there, stepped⟩
      · rw [payload_toNat] at merged
        have rest := ih (k + 1) (by omega) (shift_next at_k (by omega)) (merge_lt merged small) there
        refine ⟨?_, ?_, ?_⟩
        · intro event member
          rcases List.mem_append.mp member with earlier | later
          · rcases List.mem_append.mp earlier with before | here
            · exact first.safe event before
            · rw [List.mem_singleton.mp here]
              exact safe
          · exact rest.safe event later
        · rw [charged_append, charged_append, first.free, rest.free]
          rfl
        · intro value after found
          obtain ⟨ends, moved⟩ := rest.moved value after found
          exact ⟨ends, by omega⟩

theorem readVarint_moves {buf : Bytes} {r : Reader} (inside : Inside buf r) : Moves buf r 1 (readVarint r) :=
  readVarintLoop_moves maxVarintLen 0 rfl rfl (by decide) inside

/-- The bytes from one position up to another are accounted for. -/
def Spans (buf : Bytes) (log : List Event) (first last : Nat) : Prop :=
  ∀ p, first ≤ p → p < last → Accounted buf log p

theorem Accounted.mono {buf : Bytes} {log more : List Event} {p : Nat} (sub : log ⊆ more)
    (accounted : Accounted buf log p) : Accounted buf more p := by
  rcases accounted with ⟨before, after, field, copied, within⟩ | ⟨⟨r, found, here⟩, merged⟩
  · exact Or.inl ⟨before, after, field, sub copied, within⟩
  · refine Or.inr ⟨⟨r, sub found, here⟩, fun late => ?_⟩
    obtain ⟨byte, result, shift, sum, there, merge⟩ := merged late
    exact ⟨byte, result, shift, sum, there, sub merge⟩

theorem Spans.mono {buf : Bytes} {log more : List Event} {first last : Nat} (sub : log ⊆ more)
    (spans : Spans buf log first last) : Spans buf more first last :=
  fun p from_ until_ => (spans p from_ until_).mono sub

theorem Spans.append {buf : Bytes} {log log' : List Event} {first middle last : Nat} (front : Spans buf log first middle)
    (back : Spans buf log' middle last) : Spans buf (log ++ log') first last := by
  intro p from_ until_
  rcases lt_or_ge p middle with early | late
  · exact (front p from_ early).mono (List.subset_append_left _ _)
  · exact (back p late until_).mono (List.subset_append_right _ _)

/-- What copies no field has no iteration in its log. -/
theorem fields_of_free {log : List Event} (free : charged log = 0) : log.filterMap Event.field = [] := by
  rw [List.filterMap_eq_nil_iff]
  intro event member
  have none_ := List.sum_eq_zero_iff.mp free _ (List.mem_map_of_mem member)
  cases event with
  | cursor r => rfl
  | merge result payload shift sum => rfl
  | iteration before after field =>
    simp only [Event.charge] at none_
    omega

/-- The byte that is read stands at the cursor, and is logged there. -/
theorem readU8_found {buf : Bytes} {r after : Reader} {log : List Event} {byte : UInt8} (inside : Inside buf r)
    (read : readU8 r = (log, .ok (byte, after))) :
    Found log r.pos ∧ buf[r.pos]? = some byte ∧ Inside buf after ∧ after.pos = r.pos + 1 := by
  have moves := readU8_moves inside
  rw [read] at moves
  have taken : r.readU8 = .ok (byte, after) := by rw [← readU8_erase, read]
  obtain ⟨rest, drop, -⟩ := inside.ahead.of_readU8 taken
  obtain ⟨-, stepped⟩ := Reader.readU8_advances taken
  have logged : log = [.cursor r, .cursor after] := by
    rw [readU8, taken] at read
    exact (Prod.mk.inj read).1.symm
  refine ⟨⟨r, logged ▸ List.mem_cons_self, rfl⟩, ?_, (moves.moved _ _ rfl).1, stepped⟩
  rw [← inside.1, ← List.head?_drop, drop]
  rfl

theorem readVarintLoop_spans (groups : Nat) {result shift value : UInt64} {buf : Bytes} {r after : Reader}
    {log : List Event} (inside : Inside buf r)
    (read : readVarintLoop groups result shift r = (log, .ok (value, after))) : Spans buf log r.pos after.pos := by
  induction groups generalizing result shift r log with
  | zero => cases read
  | succ groups ih =>
    rw [readVarintLoop] at read
    rcases step : readU8 r with ⟨byteLog, e | ⟨byte, next⟩⟩
    · rw [step] at read
      cases read
    · obtain ⟨found, there, insideNext, stepped⟩ := readU8_found inside step
      rw [step] at read
      have here : Spans buf (byteLog ++ [.merge result (byte &&& 0x7f).toUInt64 shift
          (result ||| ((byte &&& 0x7f).toUInt64 <<< shift))]) r.pos next.pos := by
        intro p from_ until_
        obtain rfl : p = r.pos := by omega
        obtain ⟨at_, logged, here⟩ := found
        refine Or.inr ⟨⟨at_, List.mem_append_left _ logged, here⟩, fun _ => ?_⟩
        exact ⟨byte, result, shift, _, there, List.mem_append_right _ (List.mem_singleton_self _)⟩
      dsimp only at read
      split_ifs at read with overflow last
      · cases read
      · cases read
        exact here
      · obtain ⟨rfl, rest⟩ := Prod.mk.inj read
        exact here.append (ih insideNext (Prod.ext rfl rest))

theorem readVarint_spans {buf : Bytes} {r after : Reader} {log : List Event} {value : UInt64} (inside : Inside buf r)
    (read : readVarint r = (log, .ok (value, after))) : Spans buf log r.pos after.pos :=
  readVarintLoop_spans maxVarintLen inside read

/-- What a whole run of the loop keeps: nothing unsafe, and what is charged for the fields it
copies is paid for by bytes it consumes. -/
structure Paid (buf : Bytes) (r : Reader) (done : List Field) (answer : Logged (List Field)) : Prop where
  safe : ∀ event ∈ answer.1, event.Safe buf
  bounded : r.pos + charged answer.1 ≤ buf.length
  copied : ∀ out, answer.2 = .ok out → out = done ++ answer.1.filterMap Event.field
  spans : ∀ out, answer.2 = .ok out → Spans buf answer.1 r.pos buf.length

/-- An iteration that fails has copied nothing. -/
theorem Paid.failed {buf : Bytes} {r : Reader} {done : List Field} {log : List Event} {e : WireError}
    (inside : Inside buf r) (safe : ∀ event ∈ log, event.Safe buf) (free : charged log = 0) :
    Paid buf r done (log, .error e) :=
  ⟨safe, by rw [free]; exact inside.2, (fun _ failed => by cases failed), fun _ failed => by cases failed⟩

/-- The tag and the length in front of a field. -/
theorem lengths_move {buf : Bytes} {r afterTag : Reader} {tag : UInt64} {tagLog lenLog : List Event}
    {answer : Except WireError (UInt64 × Reader)} (inside : Inside buf r) (tagRead : readVarint r = (tagLog, .ok (tag, afterTag)))
    (lenRead : readVarint afterTag = (lenLog, answer)) : Moves buf r 2 (tagLog ++ lenLog, answer) := by
  have tagMoves := tagRead ▸ readVarint_moves inside
  have lenMoves := lenRead ▸ readVarint_moves (tagMoves.moved tag afterTag rfl).1
  exact tagMoves.andThen lenMoves

theorem decodeFields_paid (usizeMax : Nat) {buf : Bytes} {r : Reader} (done : List Field) (inside : Inside buf r) :
    Paid buf r done (decodeFields usizeMax r done) := by
  fun_induction decodeFields usizeMax r done with
  | case1 r done empty =>
    refine ⟨by simpa [Event.Safe] using inside, inside.2, ?_, ?_⟩
    · intro out found
      cases found
      exact (List.append_nil _).symm
    · intro out _ p from_ until_
      simp only [Reader.isEmpty, decide_eq_true_eq, inside.1] at empty
      omega
  | case2 r done busy log e tagRead =>
    have moves := tagRead ▸ readVarint_moves inside
    exact .failed inside moves.safe moves.free
  | case3 r done busy tagLog tag afterTag tagRead log e lenRead =>
    have moves := lengths_move inside tagRead lenRead
    exact .failed inside moves.safe moves.free
  | case4 r done busy tagLog tag afterTag tagRead lenLog len afterLen lenRead long =>
    have moves := lengths_move inside tagRead lenRead
    exact .failed inside moves.safe moves.free
  | case5 r done busy tagLog tag afterTag tagRead lenLog len afterLen lenRead fits short =>
    have moves := lengths_move inside tagRead lenRead
    have looked : ∀ event ∈ [Event.cursor afterLen], event.Safe buf := by
      simpa [Event.Safe] using (moves.moved _ _ rfl).1
    exact .failed inside (List.forall_mem_append.mpr ⟨moves.safe, looked⟩) (by rw [charged_append, moves.free]; rfl)
  | case6 r done busy tagLog tag afterTag tagRead lenLog len afterLen lenRead fits enough log e valueRead =>
    have lengths := lengths_move inside tagRead lenRead
    have moves := lengths.andThen (valueRead ▸ readBytes_moves len.toNat (lengths.moved _ _ rfl).1)
    exact .failed inside moves.safe moves.free
  | case7 r done busy tagLog tag afterTag tagRead lenLog len afterLen lenRead fits enough valueLog value after valueRead
      log ih =>
    have lengths := lengths_move inside tagRead lenRead
    have moves := lengths.andThen (valueRead ▸ readBytes_moves len.toNat (lengths.moved _ _ rfl).1)
    obtain ⟨there, moved⟩ := moves.moved _ _ rfl
    have length : value.length = len.toNat := by
      obtain ⟨_, -, size, -⟩ := (lengths.moved _ _ rfl).1.ahead.of_readBytes (readBytes_of_logged valueRead)
      exact size
    have consumed : r.pos + 2 + value.length ≤ after.pos := by omega
    have rest := ih there
    have paid : charged log = 2 + value.length := by
      change charged (tagLog ++ lenLog ++ valueLog ++ [Event.iteration r after ⟨tag, value⟩]) = _
      rw [charged_append, moves.free, Nat.zero_add]
      rfl
    refine ⟨?_, ?_, ?_, ?_⟩
    · refine List.forall_mem_append.mpr ⟨List.forall_mem_append.mpr ⟨moves.safe, ?_⟩, rest.safe⟩
      simpa [Event.Safe] using consumed
    · have bounded := rest.bounded
      rw [charged_append, paid]
      omega
    · intro out found
      rw [rest.copied out found, List.append_assoc, List.filterMap_append]
      change _ = done ++ (List.filterMap Event.field (tagLog ++ lenLog ++ valueLog ++
        [Event.iteration r after ⟨tag, value⟩]) ++ _)
      rw [List.filterMap_append, fields_of_free moves.free]
      rfl
    · intro out found
      have tagMoves := tagRead ▸ readVarint_moves inside
      have front := (readVarint_spans inside tagRead).append
        (readVarint_spans (tagMoves.moved _ _ rfl).1 lenRead)
      have stepped := (Reader.readBytes_advances (readBytes_of_logged valueRead)).2
      have copies : Spans buf [.iteration r after ⟨tag, value⟩] afterLen.pos after.pos := by
        intro p from_ until_
        exact Or.inl ⟨r, after, _, List.mem_singleton_self _, by dsimp only; omega, until_⟩
      have here : Spans buf (tagLog ++ lenLog ++ valueLog ++ [.iteration r after ⟨tag, value⟩]) r.pos after.pos :=
        (front.mono (List.subset_append_left _ _)).append copies
      exact here.append (rest.spans out found)

/-- What a whole decoding keeps. -/
structure Bounded (buf : Bytes) (answer : Logged Frame) : Prop where
  safe : ∀ event ∈ answer.1, event.Safe buf
  copied : charged answer.1 ≤ buf.length
  small : ∀ frame, answer.2 = .ok frame → 3 + (frame.fields.map fun field => 2 + field.value.length).sum ≤ buf.length
  complete : ∀ frame, answer.2 = .ok frame → Complete buf answer.1 frame

theorem Bounded.failed {buf : Bytes} {log : List Event} {e : WireError} (safe : ∀ event ∈ log, event.Safe buf)
    (free : charged log = 0) : Bounded buf (log, .error e) :=
  ⟨safe, free ▸ Nat.zero_le _, (fun _ failed => by cases failed), fun _ failed => by cases failed⟩

/-- What is charged is what is copied. -/
theorem charged_fields (log : List Event) :
    charged log = ((log.filterMap Event.field).map fun field => 2 + field.value.length).sum := by
  induction log with
  | nil => rfl
  | cons event log ih =>
    have tail : charged (event :: log) = event.charge + charged log := List.sum_cons
    rw [tail, ih]
    cases event with
    | cursor r => exact Nat.zero_add _
    | merge result payload shift sum => exact Nat.zero_add _
    | iteration before after field => rfl

/-- The prelude goes into no varint. -/
theorem prelude_spans {buf : Bytes} {r₁ r₂ : Reader} {magicLog versionLog : List Event} {first second : UInt8}
    (start : Inside buf (Reader.new buf)) (firstRead : readU8 (Reader.new buf) = (magicLog, .ok (first, r₁)))
    (secondRead : readU8 r₁ = (versionLog, .ok (second, r₂))) : Spans buf (magicLog ++ versionLog) 0 r₂.pos := by
  obtain ⟨⟨at₀, found₀, here₀⟩, -, inside, first⟩ := readU8_found start firstRead
  obtain ⟨⟨at₁, found₁, here₁⟩, -, -, second⟩ := readU8_found inside secondRead
  change r₁.pos = 0 + 1 at first
  change at₀.pos = 0 at here₀
  intro p _ until_
  rcases Nat.lt_succ_iff_lt_or_eq.mp (show p < 1 + 1 by omega) with magic_ | version
  · refine Or.inr ⟨⟨at₀, List.mem_append_left _ found₀, by omega⟩, fun late => by omega⟩
  · refine Or.inr ⟨⟨at₁, List.mem_append_right _ found₁, by omega⟩, fun late => by omega⟩

/-- The prelude and the flags are three bytes at least, and no field is copied before them. -/
theorem decode_bounded (usizeMax : Nat) (buf : Bytes) : Bounded buf (decode usizeMax buf) := by
  have start : Inside buf (Reader.new buf) := ⟨rfl, Nat.zero_le _⟩
  have first := readU8_moves start
  rw [decode]
  generalize firstRead : readU8 (Reader.new buf) = step at first ⊢
  obtain ⟨magicLog, _ | ⟨magic_, r₁⟩⟩ := step
  · exact .failed first.safe first.free
  dsimp only
  split_ifs
  · exact .failed first.safe first.free
  have second := readU8_moves (first.moved _ _ rfl).1
  generalize secondRead : readU8 r₁ = step at second ⊢
  obtain ⟨versionLog, _ | ⟨version, r₂⟩⟩ := step
  · exact .failed (first.andThen second).safe (first.andThen second).free
  have prelude := first.andThen second
  dsimp only
  split_ifs
  · exact .failed prelude.safe prelude.free
  have third := readVarint_moves (prelude.moved _ _ rfl).1
  generalize flagsRead : readVarint r₂ = step at third ⊢
  obtain ⟨flagsLog, _ | ⟨flags, r₃⟩⟩ := step
  · exact .failed (prelude.andThen third).safe (prelude.andThen third).free
  have opening := prelude.andThen third
  obtain ⟨there, moved⟩ := opening.moved _ _ rfl
  have paid := decodeFields_paid usizeMax [] there
  dsimp only
  generalize decodeFields usizeMax r₃ [] = step at paid ⊢
  obtain ⟨log, answer⟩ := step
  have safe := List.forall_mem_append.mpr ⟨opening.safe, paid.safe⟩
  have bounded : r₃.pos + charged log ≤ buf.length := paid.bounded
  have total : charged (magicLog ++ versionLog ++ flagsLog ++ log) = charged log := by
    rw [charged_append, opening.free, Nat.zero_add]
  obtain e | fields := answer
  · exact ⟨safe, by rw [total]; omega, (fun _ failed => by cases failed), fun _ failed => by cases failed⟩
  · have copied : fields = log.filterMap Event.field := paid.copied _ rfl
    refine ⟨safe, by rw [total]; omega, ?_, ?_⟩
    · intro frame found
      cases found
      rw [charged_fields, ← copied] at bounded
      dsimp only
      omega
    · intro frame found
      cases found
      refine ⟨?_, ?_⟩
      · rw [List.filterMap_append, fields_of_free opening.free, copied]
        rfl
      · have opened := (prelude_spans start firstRead secondRead).append
          (readVarint_spans (prelude.moved _ _ rfl).1 flagsRead)
        exact fun p within => (opened.append (paid.spans _ rfl)) p (Nat.zero_le p) within

/-- `Frame::decode` is safe on every byte string. It is the decoder with a log, the log
forgotten; nothing in the log is unsafe, on any target; and the fields are paid for byte by
byte, those of a decoding that fails in the end as well. The log of a decoding that returns a
frame has an iteration for each field of it and accounts for every byte. -/
theorem decode_safe (buf : Bytes) :
    (decode usizeMax buf).2 = Frame.decode buf ∧
      ∀ range, (∀ event ∈ (decode range buf).1, event.Safe buf) ∧ charged (decode range buf).1 ≤ buf.length ∧
        ∀ frame, (decode range buf).2 = .ok frame → Complete buf (decode range buf).1 frame ∧
          3 + (frame.fields.map fun field => 2 + field.value.length).sum ≤ buf.length := by
  refine ⟨decode_erase buf, fun range => ?_⟩
  have bounded := decode_bounded range buf
  exact ⟨bounded.safe, bounded.copied, fun frame found => ⟨bounded.complete frame found, bounded.small frame found⟩⟩

end Buh.Wire.Safety
