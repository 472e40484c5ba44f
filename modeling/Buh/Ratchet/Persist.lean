import Mathlib.Data.Finset.Sort
import Mathlib.Data.Prod.Lex
import Mathlib.Order.Lex
import Buh.Ratchet.State

/-! The versioned blob a session is stored as: `to_bytes` and `from_bytes` of
`ratchet/mod.rs`. -/

namespace Buh.Ratchet.Persist
open Buh.Wire.Codec Buh.Crypto.Primitives Buh.Ratchet.Message Buh.Ratchet.Chain Buh.Ratchet.State

def stateVersion : UInt8 := 1

/-- The sort key of a banked entry: the ratchet key's bytes, then the number. -/
def slotRank (slot : Bytes32 × UInt32) : List Nat ×ₗ Nat :=
  toLex (slot.1.toList.map UInt8.toNat, slot.2.toNat)

def slotLe (first second : Bytes32 × UInt32) : Prop := slotRank first ≤ slotRank second

instance : DecidableRel slotLe := fun first second => inferInstanceAs (Decidable (slotRank first ≤ slotRank second))

theorem slotRank_injective : Function.Injective slotRank := by
  rintro ⟨dh, n⟩ ⟨dh', n'⟩ same
  have parts := Prod.mk.inj (toLex.injective same)
  have bytes := List.map_injective_iff.mpr (fun _ _ => UInt8.toNat_inj.mp) parts.1
  exact Prod.ext (List.Vector.toList_injective bytes) (UInt32.toNat_inj.mp parts.2)

instance : IsTrans _ slotLe := ⟨fun _ _ _ => le_trans (α := List Nat ×ₗ Nat)⟩

instance : Std.Antisymm slotLe := ⟨fun _ _ forward backward => slotRank_injective (le_antisymm forward backward)⟩

instance : Std.Total slotLe := ⟨fun first second => le_total (slotRank first) (slotRank second)⟩

section
variable {S : Suite}

/-- The banked entries in the order they are written. -/
def sortedEntries (skipped : Skipped S) : List ((Bytes32 × UInt32) × S.Key) :=
  (skipped.keys.sort slotLe).filterMap (fun slot => (skipped.lookup slot).map (fun mk => (slot, mk)))

def entryBytes (entry : (Bytes32 × UInt32) × S.Key) : Bytes :=
  entry.1.1.toList ++ u32Bytes entry.1.2 ++ S.keyBytes entry.2

def stateFlags (s : RatchetState S) : UInt8 :=
  (if s.dhr.isSome then 0b001 else 0) ||| (if s.cks.isSome then 0b010 else 0) |||
    (if s.ckr.isSome then 0b100 else 0)

def optionBytes {α : Type} (encode : α → Bytes) : Option α → Bytes
  | none => []
  | some value => encode value

def toBytes (s : RatchetState S) : Bytes :=
  stateVersion :: (s.dhs.toList ++ (stateFlags s :: (optionBytes List.Vector.toList s.dhr ++
    (S.keyBytes s.rk ++ (optionBytes S.keyBytes s.cks ++ (optionBytes S.keyBytes s.ckr ++
    (u32Bytes s.ns ++ (u32Bytes s.nr ++ (u32Bytes s.pn ++ (writeVarint s.skipped.keys.card ++
    (sortedEntries s.skipped).flatMap entryBytes))))))))))

def readU32From (r : Reader) : Except CryptoError (UInt32 × Reader) := do
  let (bytes, r) ← liftWire (r.readBytes 4)
  let value ← readU32 bytes
  return (value, r)

/-- An optional field, read when its flag is set. -/
def readFlagged {α : Type} (flag : UInt8) (read : Reader → Except WireError (α × Reader)) (r : Reader) :
    Except CryptoError (Option α × Reader) :=
  if flag ≠ 0 then do
    let (value, r) ← liftWire (read r)
    return (some value, r)
  else return (none, r)

/-- The `for _ in 0..count` loop over the banked entries. -/
def readEntries : Nat → Reader → Skipped S → Except CryptoError (Skipped S)
  | 0, _, skipped => .ok skipped
  | count + 1, r, skipped => do
    let (dh, r) ← liftWire (read32 r)
    let (n, r) ← readU32From r
    let (mk, r) ← liftWire (S.readKey r)
    readEntries count r (skipped.insert (dh, n) mk)

def fromBytes (S : Suite) (bytes : Bytes) : Except CryptoError (RatchetState S) := do
  let r := Reader.new bytes
  let (version, r) ← liftWire r.readU8
  if version ≠ stateVersion then
    throw (.malformed "ratchet state version")
  let (dhs, r) ← liftWire (read32 r)
  let (flags, r) ← liftWire r.readU8
  let (dhr, r) ← readFlagged (flags &&& 0b001) read32 r
  let (rk, r) ← liftWire (S.readKey r)
  let (cks, r) ← readFlagged (flags &&& 0b010) S.readKey r
  let (ckr, r) ← readFlagged (flags &&& 0b100) S.readKey r
  let (ns, r) ← readU32From r
  let (nr, r) ← readU32From r
  let (pn, r) ← readU32From r
  let (count, r) ← liftWire r.readVarint
  if maxStoredSkipped < count.toNat then
    throw (.malformed "ratchet skipped-key count")
  let skipped ← readEntries count.toNat r ∅
  return { dhs, dhsPub := S.publicKey dhs, dhr, rk, cks, ckr, ns, nr, pn, skipped }

/-- The states a blob can carry: the public ratchet key is recomputed on load, and the
bank has a size limit. -/
structure Storable (s : RatchetState S) : Prop where
  dhsPub : s.dhsPub = S.publicKey s.dhs
  bank : s.skipped.keys.card ≤ maxStoredSkipped

theorem readU32From_ahead {r : Reader} {rest : Bytes} (value : UInt32)
    (ahead : r.Ahead (u32Bytes value ++ rest)) :
    ∃ after, readU32From r = .ok (value, after) ∧ after.Ahead rest := by
  obtain ⟨after, read, further⟩ := Reader.readBytes_ahead ahead
  rw [u32Bytes_length] at read
  refine ⟨after, ?_, further⟩
  simp only [readU32From, read, liftWire, readU32_u32Bytes, bind, Except.bind, pure, Except.pure]

theorem readFlagged_ahead {α : Type} {encode : α → Bytes} {read : Reader → Except WireError (α × Reader)}
    (reads : ∀ {r rest} value, r.Ahead (encode value ++ rest) →
      ∃ after, read r = .ok (value, after) ∧ after.Ahead rest)
    {r : Reader} {rest : Bytes} (field : Option α) {flag : UInt8} (set : flag ≠ 0 ↔ field.isSome)
    (ahead : r.Ahead (optionBytes encode field ++ rest)) :
    ∃ after, readFlagged flag read r = .ok (field, after) ∧ after.Ahead rest := by
  unfold readFlagged
  cases field with
  | none =>
    rw [if_neg (by simpa using set)]
    exact ⟨r, rfl, ahead⟩
  | some value =>
    obtain ⟨after, found, further⟩ := reads value ahead
    rw [if_pos (by simpa using set)]
    exact ⟨after, by simp only [found, liftWire, bind, Except.bind, pure, Except.pure], further⟩

theorem readEntries_ahead (lawful : Lawful S) (entries : List ((Bytes32 × UInt32) × S.Key)) {r : Reader}
    {rest : Bytes} (skipped : Skipped S) (ahead : r.Ahead (entries.flatMap entryBytes ++ rest)) :
    readEntries entries.length r skipped =
      .ok (entries.foldl (fun bank entry => bank.insert entry.1 entry.2) skipped) := by
  induction entries generalizing r skipped with
  | nil => rfl
  | cons entry entries ih =>
    simp only [List.flatMap_cons, entryBytes, List.append_assoc] at ahead
    obtain ⟨r₁, dh, ahead⟩ := read32_ahead _ ahead
    obtain ⟨r₂, n, ahead⟩ := readU32From_ahead _ ahead
    obtain ⟨r₃, mk, ahead⟩ := lawful.read_key _ ahead
    simp only [List.length_cons, readEntries, dh, n, mk, liftWire, bind, Except.bind]
    exact ih _ ahead

theorem mem_sortedEntries {skipped : Skipped S} {slot : Bytes32 × UInt32} {mk : S.Key} :
    (slot, mk) ∈ sortedEntries skipped ↔ skipped.lookup slot = some mk := by
  simp only [sortedEntries, List.mem_filterMap, Finset.mem_sort, Option.map_eq_some_iff, Prod.mk.injEq]
  constructor
  · rintro ⟨_, _, _, found, rfl, rfl⟩
    exact found
  · intro found
    exact ⟨slot, Finmap.mem_keys.mpr (Finmap.mem_of_lookup_eq_some found), mk, found, rfl, rfl⟩

theorem sortedEntries_length (skipped : Skipped S) :
    (sortedEntries skipped).length = skipped.keys.card := by
  rw [sortedEntries, List.length_filterMap_eq_countP, List.countP_eq_length.mpr, Finset.length_sort]
  intro slot member
  rw [Finset.mem_sort, Finmap.mem_keys] at member
  simpa using Finmap.lookup_isSome.mpr member

/-- Entries with distinct slots build the bank they were listed from. -/
theorem foldl_insert_lookup (entries : List ((Bytes32 × UInt32) × S.Key)) (skipped : Skipped S)
    (slot : Bytes32 × UInt32) (functional : ∀ mk mk', (slot, mk) ∈ entries → (slot, mk') ∈ entries → mk = mk') :
    (entries.foldl (fun bank entry => bank.insert entry.1 entry.2) skipped).lookup slot =
      skipped.lookup slot ∧ (∀ mk, (slot, mk) ∉ entries) ∨
    ∃ mk, (slot, mk) ∈ entries ∧
      (entries.foldl (fun bank entry => bank.insert entry.1 entry.2) skipped).lookup slot = some mk := by
  induction entries generalizing skipped with
  | nil => exact Or.inl ⟨rfl, fun _ => List.not_mem_nil⟩
  | cons entry entries ih =>
    obtain ⟨at_, mk⟩ := entry
    have rest := ih (skipped.insert at_ mk)
      (fun a b first second => functional a b (List.mem_cons_of_mem _ first) (List.mem_cons_of_mem _ second))
    rcases rest with ⟨unchanged, absent⟩ | ⟨mk', member, found⟩
    · by_cases same : slot = at_
      · subst same
        rw [Finmap.lookup_insert] at unchanged
        exact Or.inr ⟨mk, List.mem_cons_self, unchanged⟩
      · rw [Finmap.lookup_insert_of_ne _ same] at unchanged
        refine Or.inl ⟨unchanged, fun other member => ?_⟩
        rcases List.mem_cons.mp member with head | tail
        · exact same (congrArg Prod.fst head)
        · exact absent other tail
    · exact Or.inr ⟨mk', List.mem_cons_of_mem _ member, found⟩

theorem rebuild_sortedEntries (skipped : Skipped S) :
    (sortedEntries skipped).foldl (fun bank entry => bank.insert entry.1 entry.2) ∅ = skipped := by
  apply Finmap.ext_lookup
  intro slot
  have functional : ∀ mk mk', (slot, mk) ∈ sortedEntries skipped → (slot, mk') ∈ sortedEntries skipped →
      mk = mk' := by
    intro mk mk' first second
    rw [mem_sortedEntries] at first second
    exact Option.some.inj (first.symm.trans second)
  rcases foldl_insert_lookup (sortedEntries skipped) ∅ slot functional with ⟨empty, absent⟩ | ⟨mk, member, found⟩
  · rw [empty, Finmap.lookup_empty]
    cases held : skipped.lookup slot with
    | none => rfl
    | some mk => exact absurd (mem_sortedEntries.mpr held) (absent mk)
  · rw [found, mem_sortedEntries.mp member]

theorem stateFlags_dhr (s : RatchetState S) : stateFlags s &&& 0b001 ≠ 0 ↔ s.dhr.isSome := by
  unfold stateFlags
  generalize s.dhr.isSome = dhr, s.cks.isSome = cks, s.ckr.isSome = ckr
  revert dhr cks ckr
  decide

theorem stateFlags_cks (s : RatchetState S) : stateFlags s &&& 0b010 ≠ 0 ↔ s.cks.isSome := by
  unfold stateFlags
  generalize s.dhr.isSome = dhr, s.cks.isSome = cks, s.ckr.isSome = ckr
  revert dhr cks ckr
  decide

theorem stateFlags_ckr (s : RatchetState S) : stateFlags s &&& 0b100 ≠ 0 ↔ s.ckr.isSome := by
  unfold stateFlags
  generalize s.dhr.isSome = dhr, s.cks.isSome = cks, s.ckr.isSome = ckr
  revert dhr cks ckr
  decide

/-- A stored session loads as it was. -/
theorem fromBytes_toBytes (lawful : Lawful S) {s : RatchetState S} (storable : Storable s) :
    fromBytes S (toBytes s) = .ok s := by
  have small : s.skipped.keys.card < 2 ^ 64 := by
    have := storable.bank
    unfold maxStoredSkipped at this
    omega
  have count : (UInt64.ofNat s.skipped.keys.card).toNat = s.skipped.keys.card := UInt64.toNat_ofNat_of_lt small
  have ahead := Reader.ahead_new (toBytes s)
  unfold toBytes at ahead
  obtain ⟨r₁, version, ahead⟩ := Reader.readU8_ahead ahead
  obtain ⟨r₂, dhs, ahead⟩ := read32_ahead _ ahead
  obtain ⟨r₃, flags, ahead⟩ := Reader.readU8_ahead ahead
  obtain ⟨r₄, dhr, ahead⟩ := readFlagged_ahead read32_ahead s.dhr (stateFlags_dhr s) ahead
  obtain ⟨r₅, rk, ahead⟩ := lawful.read_key _ ahead
  obtain ⟨r₆, cks, ahead⟩ := readFlagged_ahead lawful.read_key s.cks (stateFlags_cks s) ahead
  obtain ⟨r₇, ckr, ahead⟩ := readFlagged_ahead lawful.read_key s.ckr (stateFlags_ckr s) ahead
  obtain ⟨r₈, ns, ahead⟩ := readU32From_ahead _ ahead
  obtain ⟨r₉, nr, ahead⟩ := readU32From_ahead _ ahead
  obtain ⟨r₁₀, pn, ahead⟩ := readU32From_ahead _ ahead
  rw [← count] at ahead
  obtain ⟨r₁₁, size, ahead⟩ := readVarint_ahead _ ahead
  rw [← List.append_nil ((sortedEntries s.skipped).flatMap entryBytes)] at ahead
  have entries := readEntries_ahead lawful (sortedEntries s.skipped) ∅ ahead
  rw [sortedEntries_length, rebuild_sortedEntries] at entries
  have fits : ¬maxStoredSkipped < s.skipped.keys.card := not_lt.mpr storable.bank
  simp only [fromBytes, toBytes, version, dhs, flags, dhr, rk, cks, ckr, ns, nr, pn, size, count, entries, fits,
    liftWire, bind, Except.bind, pure, Except.pure, ne_eq, not_true_eq_false, if_false, ← storable.dhsPub]

/-! Every call leaves a state that can be stored. -/

theorem storable_initiator (root : S.Key) (remote generated : Bytes32) :
    Storable (RatchetState.initiator root remote generated) := ⟨rfl, Nat.zero_le _⟩

theorem storable_responder (root : S.Key) (ratchetKey : Bytes32) :
    Storable (RatchetState.responder root ratchetKey) := ⟨rfl, Nat.zero_le _⟩

theorem Storable.encrypt {s after : RatchetState S} (storable : Storable s) {plaintext : Bytes}
    {answer : Except CryptoError Bytes} (call : s.encrypt plaintext = (after, answer)) : Storable after := by
  cases answer with
  | ok message =>
    obtain ⟨ck, _, _, rfl, _⟩ := RatchetState.encrypt_ok call
    exact ⟨storable.dhsPub, storable.bank⟩
  | error e =>
    rcases RatchetState.encrypt_error call with rfl | ⟨ck, _, rfl⟩
    · exact storable
    · exact ⟨storable.dhsPub, storable.bank⟩

theorem keys_insert (skipped : Skipped S) (slot : Bytes32 × UInt32) (mk : S.Key) :
    (skipped.insert slot mk).keys = insert slot skipped.keys := by
  ext other
  simp [Finmap.mem_keys]

theorem card_keys_insert_le (skipped : Skipped S) (slot : Bytes32 × UInt32) (mk : S.Key) :
    (skipped.insert slot mk).keys.card ≤ skipped.keys.card + 1 := by
  rw [keys_insert]
  exact Finset.card_insert_le _ _

theorem Storable.skipLoop (dhr : Bytes32) (count : Nat) (ck : S.Key) {s : RatchetState S}
    (storable : Storable s) : Storable (RatchetState.skipLoop dhr count ck s).1 := by
  induction count generalizing s ck with
  | zero => exact storable
  | succ count ih =>
    rw [RatchetState.skipLoop]
    dsimp only
    split_ifs with full
    · exact ⟨storable.dhsPub, storable.bank⟩
    · have grown := card_keys_insert_le s.skipped (dhr, s.nr) (kdfCk S ck).2
      exact ih _ ⟨storable.dhsPub, by dsimp only; omega⟩

theorem Storable.skipMessageKeys {s : RatchetState S} (storable : Storable s) (upto : UInt32) :
    Storable (s.skipMessageKeys upto).1 := by
  unfold RatchetState.skipMessageKeys
  split
  · exact storable
  · split
    · exact storable
    · split_ifs
      · exact storable
      · exact storable.skipLoop _ _ _

theorem Storable.turnIfNew {s : RatchetState S} (storable : Storable s) (header : Header)
    (generated : Bytes32) : Storable (s.turnIfNew header generated).1 := by
  have skipped := storable.skipMessageKeys header.pn
  unfold RatchetState.turnIfNew
  split_ifs
  · exact storable
  · split
    · next failed =>
      rw [failed] at skipped
      exact skipped
    · next done =>
      rw [done] at skipped
      exact ⟨rfl, skipped.bank⟩

theorem Storable.chainKey {s : RatchetState S} (storable : Storable s) (n : UInt32) :
    Storable (s.chainKey n).1 := by
  have skipped := storable.skipMessageKeys n
  unfold RatchetState.chainKey
  split
  · next failed =>
    rw [failed] at skipped
    exact skipped
  · next done =>
    rw [done] at skipped
    split
    · exact skipped
    · exact ⟨skipped.dhsPub, skipped.bank⟩

theorem Storable.receiveKey {s : RatchetState S} (storable : Storable s) (header : Header)
    (generated : Bytes32) : Storable (s.receiveKey header generated).1 := by
  have turned := storable.turnIfNew header generated
  unfold RatchetState.receiveKey
  split
  · refine ⟨storable.dhsPub, le_trans ?_ storable.bank⟩
    exact Finset.card_le_card (by intro slot; simp [Finmap.mem_keys])
  · split
    · next failed =>
      rw [failed] at turned
      exact turned
    · next done =>
      rw [done] at turned
      exact turned.chainKey header.n

theorem Storable.decrypt {s after : RatchetState S} (storable : Storable s) {generated : Bytes32}
    {message : Bytes} {answer : Except CryptoError Bytes}
    (call : s.decrypt generated message = (after, answer)) : Storable after := by
  have state : (s.decrypt generated message).1 = after := by rw [call]
  rcases RatchetState.decrypt_state s generated message with same | ⟨header, same⟩
  · rw [← state, same]
    exact storable
  · rw [← state, same]
    exact storable.receiveKey header generated

end

end Buh.Ratchet.Persist
