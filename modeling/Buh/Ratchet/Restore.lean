import Buh.Ratchet.Receiving
import Buh.Ratchet.Session

/-! Saving and restoring a session over its whole life: whatever it has sent, received or
refused, and however often it went through the key store, what is loaded is what was saved. -/

namespace Buh.Ratchet.Restore
open Buh.Wire.Codec Buh.Crypto Buh.Crypto.Primitives Buh.Ratchet.Message Buh.Ratchet.Chain Buh.Ratchet.State
  Buh.Ratchet.Persist Buh.Ratchet.Receiving Buh.Ratchet.Session

section
variable {S : Suite}

/-- `HashMap::iter`: every banked entry once, in no particular order. -/
structure Lists (skipped : Skipped S) (listed : List ((Bytes32 × UInt32) × S.Key)) : Prop where
  once : listed.Nodup
  entries : ∀ slot mk, (slot, mk) ∈ listed ↔ skipped.lookup slot = some mk

/-- `sort_unstable_by_key`. The slots of a map are distinct, so a stable sort does the same. -/
def sortEntries (listed : List ((Bytes32 × UInt32) × S.Key)) : List ((Bytes32 × UInt32) × S.Key) :=
  listed.mergeSort (fun first second => decide (slotLe first.1 second.1))

/-- `to_bytes` line by line, from the order in which the map happens to be iterated. -/
def toBytesListed (s : RatchetState S) (listed : List ((Bytes32 × UInt32) × S.Key)) : Bytes :=
  stateVersion :: (s.dhs.toList ++ (stateFlags s :: (optionBytes List.Vector.toList s.dhr ++
    (S.keyBytes s.rk ++ (optionBytes S.keyBytes s.cks ++ (optionBytes S.keyBytes s.ckr ++
    (u32Bytes s.ns ++ (u32Bytes s.nr ++ (u32Bytes s.pn ++ (writeVarint listed.length ++
    (sortEntries listed).flatMap entryBytes))))))))))

/-- The states of one session, over any calls and any number of reloads. -/
inductive Reached : RatchetState S → Prop where
  | initiator (root : S.Key) (remoteRatchetKey generated : Bytes32) :
      Reached (.initiator root remoteRatchetKey generated)
  | responder (root : S.Key) (ratchetKey : Bytes32) : Reached (.responder root ratchetKey)
  | encrypt {s : RatchetState S} (reached : Reached s) (plaintext : Bytes) : Reached (s.encrypt plaintext).1
  | decrypt {s : RatchetState S} (reached : Reached s) (generated : Bytes32) (message : Bytes) :
      Reached (s.decrypt generated message).1
  | reload {s loaded : RatchetState S} {listed : List ((Bytes32 × UInt32) × S.Key)} (reached : Reached s)
      (lists : Lists s.skipped listed) (load : fromBytes S (toBytesListed s listed) = .ok loaded) : Reached loaded

theorem sortedEntries_pairwise (skipped : Skipped S) :
    (sortedEntries skipped).Pairwise (fun first second => slotLe first.1 second.1) := by
  rw [sortedEntries, List.pairwise_filterMap]
  have sorted : (skipped.keys.sort slotLe).Pairwise slotLe := Finset.pairwise_sort _ _
  refine sorted.imp fun {first second} le => ?_
  simp only [Option.map_eq_some_iff]
  rintro _ ⟨_, _, rfl⟩ _ ⟨_, _, rfl⟩
  exact le

theorem sortedEntries_lists (skipped : Skipped S) : Lists skipped (sortedEntries skipped) where
  once := by
    rw [sortedEntries]
    refine (Finset.sort_nodup _ _).filterMap fun first second entry held held' => ?_
    simp only [Option.mem_def, Option.map_eq_some_iff] at held held'
    obtain ⟨_, _, rfl⟩ := held
    obtain ⟨_, _, same⟩ := held'
    exact (congrArg Prod.fst same).symm
  entries := fun _ _ => mem_sortedEntries

theorem sortEntries_pairwise (listed : List ((Bytes32 × UInt32) × S.Key)) :
    (sortEntries listed).Pairwise (fun first second => slotLe first.1 second.1) := by
  have transitive (first second third : (Bytes32 × UInt32) × S.Key) :
      decide (slotLe first.1 second.1) = true → decide (slotLe second.1 third.1) = true →
        decide (slotLe first.1 third.1) = true := by
    simp only [decide_eq_true_eq]
    exact IsTrans.trans _ _ _
  have total (first second : (Bytes32 × UInt32) × S.Key) :
      (decide (slotLe first.1 second.1) || decide (slotLe second.1 first.1)) = true := by
    simp only [Bool.or_eq_true, decide_eq_true_eq]
    exact Std.Total.total _ _
  exact (List.pairwise_mergeSort transitive total listed).imp fun le => of_decide_eq_true le

/-- Sorting forgets the order of iteration. -/
theorem sortEntries_eq {skipped : Skipped S} {listed : List ((Bytes32 × UInt32) × S.Key)}
    (lists : Lists skipped listed) : sortEntries listed = sortedEntries skipped := by
  have permuted : (sortEntries listed).Perm listed := List.mergeSort_perm _ _
  have again := sortedEntries_lists skipped
  have same : listed.Perm (sortedEntries skipped) := by
    rw [List.perm_ext_iff_of_nodup lists.once again.once]
    rintro ⟨slot, mk⟩
    rw [lists.entries, again.entries]
  refine List.Perm.eq_of_pairwise (fun first second member member' le ge => ?_) (sortEntries_pairwise listed)
    (sortedEntries_pairwise skipped) (permuted.trans same)
  -- entries with one slot are one entry of the map
  have slots : first.1 = second.1 := antisymm le ge
  have held := (lists.entries first.1 first.2).mp (permuted.mem_iff.mp member)
  have held' := mem_sortedEntries.mp member'
  rw [slots, held'] at held
  exact Prod.ext slots (Option.some.inj held).symm

theorem toBytesListed_eq {s : RatchetState S} {listed : List ((Bytes32 × UInt32) × S.Key)}
    (lists : Lists s.skipped listed) : toBytesListed s listed = toBytes s := by
  have sorted := sortEntries_eq lists
  have size : listed.length = s.skipped.keys.card := by
    rw [← sortedEntries_length, ← sorted]
    exact (List.mergeSort_perm listed _).length_eq.symm
  rw [toBytesListed, toBytes, sorted, size]

theorem reached_storable (lawful : Lawful S) {s : RatchetState S} (reached : Reached s) : Storable s := by
  induction reached with
  | initiator root remoteRatchetKey generated => exact storable_initiator root remoteRatchetKey generated
  | responder root ratchetKey => exact storable_responder root ratchetKey
  | encrypt _ plaintext ih => exact ih.encrypt rfl
  | decrypt _ generated message ih => exact ih.decrypt rfl
  | reload _ lists load ih =>
    rw [toBytesListed_eq lists, fromBytes_toBytes lawful ih] at load
    cases load
    exact ih

/-- A session can be saved and restored exactly at any point of its life, and its blob is
the same for every order in which the banked keys are iterated. -/
theorem reached_saves_exactly (lawful : Lawful S) {s : RatchetState S} (reached : Reached s) :
    s.skipped.keys.card ≤ maxStoredSkipped ∧ s.dhsPub = S.publicKey s.dhs ∧
      (∃ listed, Lists s.skipped listed) ∧
      (∀ listed, Lists s.skipped listed → fromBytes S (toBytesListed s listed) = .ok s) ∧
      ∀ listed listed', Lists s.skipped listed → Lists s.skipped listed' →
        toBytesListed s listed = toBytesListed s listed' := by
  have storable := reached_storable lawful reached
  refine ⟨storable.bank, storable.dhsPub, ⟨_, sortedEntries_lists s.skipped⟩, ?_, ?_⟩
  · intro listed lists
    rw [toBytesListed_eq lists]
    exact fromBytes_toBytes lawful storable
  · intro listed listed' lists lists'
    rw [toBytesListed_eq lists, toBytesListed_eq lists']

end

/-- A responder with two banked keys, behind a message that it did not open. -/
theorem reached_saves_exactly_sample : ∃ s : RatchetState Symbolic.suite,
    Reached s ∧ s.ckr ≠ none ∧ s.nr.toNat = 3 ∧ s.skipped.keys.card = 2 ∧
      ∃ listed, Lists s.skipped listed ∧ listed.length = 2 ∧
        fromBytes Symbolic.suite (toBytesListed s listed) = .ok s := by
  obtain ⟨s, received, _, chain, number, keys, _⟩ := responder_reaches sampleRoot samplePrekey
    (Symbolic.suite.publicKey sampleGenerated) (List.Vector.replicate 32 3) 0 (n := 2) (by decide)
  have parsed := parseMessage_encode ⟨Symbolic.suite.publicKey sampleGenerated, 0, 2⟩
    (show ([] : Bytes).length < 2 ^ 64 by decide)
  have reached : Reached s := by
    have next := (Reached.responder sampleRoot samplePrekey).decrypt (List.Vector.replicate 32 3)
      (messageFrame ⟨Symbolic.suite.publicKey sampleGenerated, 0, 2⟩ []).encode
    rwa [RatchetState.decrypt_parsed parsed, received] at next
  obtain ⟨_, _, ⟨listed, lists⟩, restores, _⟩ := reached_saves_exactly Symbolic.suite_lawful reached
  have two : s.skipped.keys.card = 2 := by
    rw [keys]
    decide
  refine ⟨s, reached, ?_, number, two, listed, lists, ?_, restores listed lists⟩
  · rw [chain]
    exact Option.some_ne_none _
  · have same := congrArg List.length (sortEntries_eq lists)
    rw [sortedEntries_length, two] at same
    rw [← same]
    exact (List.mergeSort_perm listed _).length_eq.symm

end Buh.Ratchet.Restore
