import Buh.Ratchet.Persist

/-! What a successful skip does to the counters and to the bank, and where the key of a
message is taken from. -/

namespace Buh.Ratchet.Skipping
open Buh.Wire.Codec Buh.Crypto.Primitives Buh.Ratchet.Message Buh.Ratchet.Chain Buh.Ratchet.State
  Buh.Ratchet.Persist

/-- `after` is `s` with its receiving chain `count` steps on and the keys of these steps
banked under consecutive numbers; nothing else differs. -/
structure Skips {S : Suite} (s after : RatchetState S) (dhr : Bytes32) (ck : S.Key) (count : Nat) : Prop where
  rest : after = { s with ckr := some (chainIter S ck count), nr := after.nr, skipped := after.skipped }
  nr : after.nr.toNat = s.nr.toNat + count
  banked : ∀ n : UInt32, s.nr.toNat ≤ n.toNat → n.toNat < s.nr.toNat + count →
    after.skipped.lookup (dhr, n) = some (kdfCk S (chainIter S ck (n.toNat - s.nr.toNat))).2
  kept : ∀ slot : Bytes32 × UInt32,
    ¬(slot.1 = dhr ∧ s.nr.toNat ≤ slot.2.toNat ∧ slot.2.toNat < s.nr.toNat + count) →
      after.skipped.lookup slot = s.skipped.lookup slot
  card : after.skipped.keys.card ≤ s.skipped.keys.card + count

/-- The two states agree on the ratchet keys and what is derived from them for sending. -/
structure SameRatchet {S : Suite} (s after : RatchetState S) : Prop where
  dhs : after.dhs = s.dhs
  dhsPub : after.dhsPub = s.dhsPub
  dhr : after.dhr = s.dhr
  rk : after.rk = s.rk
  cks : after.cks = s.cks

section
variable {S : Suite}

theorem toNat_succ (value : UInt32) (fits : value.toNat + 1 < 2 ^ 32) : (value + 1).toNat = value.toNat + 1 := by
  rw [UInt32.toNat_add, UInt32.toNat_one]
  omega

theorem saturatingAdd_toNat (value delta : UInt32) :
    (saturatingAdd value delta).toNat = min (value.toNat + delta.toNat) (2 ^ 32 - 1) := by
  unfold saturatingAdd
  have bound := value.toNat_lt
  split_ifs with fits
  · rw [UInt32.toNat_add]
    omega
  · change 2 ^ 32 - 1 = _
    omega

theorem skipLoop_skips (dhr : Bytes32) (count : Nat) {ck : S.Key} {s : RatchetState S} (chain : s.ckr = some ck)
    (fits : s.nr.toNat + count < 2 ^ 32) (done : (RatchetState.skipLoop dhr count ck s).2 = .ok ()) :
    Skips s (RatchetState.skipLoop dhr count ck s).1 dhr ck count := by
  induction count generalizing s ck with
  | zero =>
    rw [RatchetState.skipLoop]
    exact ⟨by rw [chainIter, ← chain], rfl, by omega, fun _ _ => rfl, le_rfl⟩
  | succ count ih =>
    rw [RatchetState.skipLoop] at done ⊢
    dsimp only at done ⊢
    split_ifs at done ⊢ with full
    have next := toNat_succ s.nr (by omega)
    have grown := card_keys_insert_le s.skipped (dhr, s.nr) (kdfCk S ck).2
    have rest := ih (s := { s with
      ckr := some (kdfCk S ck).1, skipped := s.skipped.insert (dhr, s.nr) (kdfCk S ck).2, nr := s.nr + 1 })
      rfl (by dsimp only; omega) done
    generalize (RatchetState.skipLoop dhr count (kdfCk S ck).1 _).1 = after at rest
    obtain ⟨same, nr, banked, kept, card⟩ := rest
    dsimp only at same nr banked kept card
    rw [next] at nr banked kept
    refine ⟨?_, by omega, ?_, ?_, by omega⟩
    · rw [same, chainIter_succ_left]
    · intro n low high
      by_cases first : n = s.nr
      · -- the key banked by this very iteration, which later ones leave alone
        subst first
        rw [kept (dhr, s.nr) (by dsimp only; omega), Finmap.lookup_insert, Nat.sub_self]
        rfl
      · have further : n.toNat ≠ s.nr.toNat := fun equal => first (UInt32.toNat_inj.mp equal)
        rw [banked n (by omega) (by omega), chainIter_succ_left]
        congr 4
        omega
    · intro slot outside
      have other : slot ≠ (dhr, s.nr) := by
        rintro rfl
        exact outside ⟨rfl, le_rfl, by dsimp only; omega⟩
      rw [kept slot (fun inside => outside ⟨inside.1, by omega, by omega⟩), Finmap.lookup_insert_of_ne _ other]

theorem skipMessageKeys_ok {s after : RatchetState S} {upto : UInt32}
    (call : s.skipMessageKeys upto = (after, .ok ())) :
    ((s.dhr = none ∨ s.ckr = none) ∧ after = s) ∨
      ∃ dhr ck, s.dhr = some dhr ∧ s.ckr = some ck ∧ Skips s after dhr ck (upto.toNat - s.nr.toNat) := by
  unfold RatchetState.skipMessageKeys at call
  split at call
  · next remote =>
    cases call
    exact Or.inl ⟨Or.inl remote, rfl⟩
  · next dhr remote =>
    split at call
    · next ended =>
      cases call
      exact Or.inl ⟨Or.inr ended, rfl⟩
    · next ck chain =>
      split_ifs at call with far
      · cases call
      · have bound := upto.toNat_lt
        have bound' := s.nr.toNat_lt
        have skips := skipLoop_skips dhr (upto.toNat - s.nr.toNat) chain (by omega) (by rw [call])
        rw [call] at skips
        exact Or.inr ⟨dhr, ck, remote, chain, skips⟩

theorem skipMessageKeys_same {s after : RatchetState S} {upto : UInt32}
    (call : s.skipMessageKeys upto = (after, .ok ())) : SameRatchet s after := by
  rcases skipMessageKeys_ok call with ⟨_, rfl⟩ | ⟨dhr, ck, _, _, skips⟩
  · exact ⟨rfl, rfl, rfl, rfl, rfl⟩
  · rw [skips.rest]
    exact ⟨rfl, rfl, rfl, rfl, rfl⟩

theorem chainKey_same {s after : RatchetState S} {n : UInt32} {key : S.Key}
    (call : s.chainKey n = (after, .ok key)) : SameRatchet s after := by
  obtain ⟨middle, ck, skipped, _, _, rfl⟩ := RatchetState.chainKey_ok call
  have same := skipMessageKeys_same skipped
  exact ⟨same.dhs, same.dhsPub, same.dhr, same.rk, same.cks⟩

/-- The chain key that a successful `chainKey` takes its message key from. -/
theorem chainKey_from {s after : RatchetState S} {n : UInt32} {seed key : S.Key} (chain : s.ckr = some seed)
    (call : s.chainKey n = (after, .ok key)) : ∃ count, key = (kdfCk S (chainIter S seed count)).2 := by
  obtain ⟨middle, ck, skipped, current, rfl, _⟩ := RatchetState.chainKey_ok call
  rcases skipMessageKeys_ok skipped with ⟨_, rfl⟩ | ⟨dhr, ck', _, chain', skips⟩
  · rw [chain] at current
    cases current
    exact ⟨0, rfl⟩
  · rw [chain] at chain'
    cases chain'
    rw [skips.rest] at current
    cases current
    exact ⟨_, rfl⟩

/-- `after` has turned its ratchet on the header's key and drawn `generated`; the key it
returned comes from the receiving chain of the turn. -/
structure Turned {S : Suite} (s after : RatchetState S) (header : Header) (generated : Bytes32) (key : S.Key) :
    Prop where
  new : s.dhr ≠ some header.dh
  dhs : after.dhs = generated
  dhsPub : after.dhsPub = S.publicKey generated
  dhr : after.dhr = some header.dh
  rk : after.rk = (s.turnOutputs header generated).2.1
  cks : after.cks = some (s.turnOutputs header generated).2.2
  key : ∃ count, key = (kdfCk S (chainIter S (s.turnOutputs header generated).1.2 count)).2

theorem Turned.moved {s after : RatchetState S} {header : Header} {generated : Bytes32} {key : S.Key}
    (turned : Turned s after header generated key) : s.dhr ≠ after.dhr := by
  rw [turned.dhr]
  exact turned.new

/-- A message key is found with the ratchet where it was, or across one turn of it. -/
theorem receiveKey_turned {s after : RatchetState S} {header : Header} {generated : Bytes32} {key : S.Key}
    (call : s.receiveKey header generated = (after, .ok key)) :
    SameRatchet s after ∨ Turned s after header generated key := by
  rcases RatchetState.receiveKey_ok call with ⟨_, rfl⟩ | ⟨_, _, taken⟩ | ⟨_, other, middle, skipped, taken⟩
  · exact Or.inl ⟨rfl, rfl, rfl, rfl, rfl⟩
  · exact Or.inl (chainKey_same taken)
  · right
    have before := skipMessageKeys_same skipped
    have after_ := chainKey_same taken
    have outputs : middle.turnOutputs header generated = s.turnOutputs header generated := by
      rw [RatchetState.turnOutputs, RatchetState.turnOutputs, before.rk, before.dhs]
    obtain ⟨count, from_⟩ := chainKey_from rfl taken
    exact ⟨other, after_.dhs, after_.dhsPub, after_.dhr, by rw [after_.rk, ← outputs]; rfl,
      by rw [after_.cks, ← outputs]; rfl, count, by rw [from_, ← outputs]⟩

end

end Buh.Ratchet.Skipping
