import Buh.Ratchet.Skipping

/-! Exactly when `decrypt` gets as far as a message key, and which key that is, as a
condition on the state it starts in. -/

namespace Buh.Ratchet.Receiving
open Buh.Wire.Codec Buh.Crypto.Primitives Buh.Ratchet.Message Buh.Ratchet.Chain Buh.Ratchet.State
  Buh.Ratchet.Persist Buh.Ratchet.Skipping

/-- The slots that `count` steps of a receiving chain bank, from the number `nr` on. -/
def chainSlots (dhr : Bytes32) : UInt32 → Nat → Finset (Bytes32 × UInt32)
  | _, 0 => ∅
  | nr, count + 1 => insert (dhr, nr) (chainSlots dhr (nr + 1) count)

/-- A skip from `nr` to `upto` stays within `MAX_SKIP`, and each key it banks finds the
store below `MAX_STORED_SKIPPED`, the keys banked on the way included. -/
structure SkipFits (taken : Finset (Bytes32 × UInt32)) (dhr : Bytes32) (nr upto : UInt32) : Prop where
  near : upto.toNat ≤ nr.toNat + maxSkip.toNat
  room : ∀ i < upto.toNat - nr.toNat, (taken ∪ chainSlots dhr nr i).card < maxStoredSkipped

section
variable {S : Suite}

/-- The slots taken once the current receiving chain is banked up to `upto`. -/
def drainedSlots (s : RatchetState S) (upto : UInt32) : Finset (Bytes32 × UInt32) :=
  match s.dhr, s.ckr with
  | some dhr, some _ => s.skipped.keys ∪ chainSlots dhr s.nr (upto.toNat - s.nr.toNat)
  | _, _ => s.skipped.keys

/-- The key of the current receiving chain for the number `n`. -/
def ChainYields (s : RatchetState S) (header : Header) (key : S.Key) : Prop :=
  s.dhr = some header.dh ∧ SkipFits s.skipped.keys header.dh s.nr header.n ∧
    ∃ ck, s.ckr = some ck ∧ key = (kdfCk S (chainIter S ck (header.n.toNat - s.nr.toNat))).2

/-- The key of the receiving chain that turning the ratchet on the header's key starts. -/
def TurnYields (s : RatchetState S) (header : Header) (key : S.Key) : Prop :=
  s.dhr ≠ some header.dh ∧
    (∀ dhr, s.dhr = some dhr → s.ckr ≠ none → SkipFits s.skipped.keys dhr s.nr header.pn) ∧
    SkipFits (drainedSlots s header.pn) header.dh 0 header.n ∧
    key = (kdfCk S (chainIter S (kdfRk S s.rk (S.diffieHellman s.dhs header.dh)).2 header.n.toNat)).2

/-- The state has `key` banked for the header, or derives it within the limits. -/
def Yields (s : RatchetState S) (header : Header) (key : S.Key) : Prop :=
  s.skipped.lookup (header.dh, header.n) = some key ∨
    s.skipped.lookup (header.dh, header.n) = none ∧ (ChainYields s header key ∨ TurnYields s header key)

theorem mem_chainSlots {dhr : Bytes32} {nr : UInt32} {count : Nat} (fits : nr.toNat + count < 2 ^ 32)
    {slot : Bytes32 × UInt32} :
    slot ∈ chainSlots dhr nr count ↔
      slot.1 = dhr ∧ nr.toNat ≤ slot.2.toNat ∧ slot.2.toNat < nr.toNat + count := by
  induction count generalizing nr with
  | zero =>
    simp only [chainSlots, Finset.notMem_empty, false_iff]
    omega
  | succ count ih =>
    have next := toNat_succ nr (by omega)
    rw [chainSlots, Finset.mem_insert, ih (by omega), next, Prod.ext_iff, ← UInt32.toNat_inj]
    constructor
    · rintro (⟨dh, number⟩ | ⟨dh, low, high⟩)
      · exact ⟨dh, by dsimp only at number; omega, by dsimp only at number; omega⟩
      · exact ⟨dh, by omega, by omega⟩
    · rintro ⟨dh, low, high⟩
      rcases Nat.eq_or_lt_of_le low with same | further
      · exact .inl ⟨dh, same.symm⟩
      · exact .inr ⟨dh, by omega, by omega⟩

theorem card_chainSlots {dhr : Bytes32} {nr : UInt32} {count : Nat} (fits : nr.toNat + count < 2 ^ 32) :
    (chainSlots dhr nr count).card = count := by
  induction count generalizing nr with
  | zero => rfl
  | succ count ih =>
    have next := toNat_succ nr (by omega)
    have new : (dhr, nr) ∉ chainSlots dhr (nr + 1) count := by
      rw [mem_chainSlots (by omega), next]
      dsimp only
      omega
    rw [chainSlots, Finset.card_insert_of_notMem new, ih (by omega)]

/-- Walking a chain from a number that is not in the bank yet fills one slot a step. -/
theorem card_walked {taken : Finset (Bytes32 × UInt32)} {dhr : Bytes32} {nr : UInt32} {count : Nat}
    (fits : nr.toNat + count < 2 ^ 32) (free : ∀ n : UInt32, nr.toNat ≤ n.toNat → (dhr, n) ∉ taken) :
    (taken ∪ chainSlots dhr nr count).card = taken.card + count := by
  have apart : Disjoint taken (chainSlots dhr nr count) := by
    rw [Finset.disjoint_right]
    rintro ⟨dh, n⟩ member
    obtain ⟨rfl, low, _⟩ := (mem_chainSlots fits).mp member
    exact free n low
  rw [Finset.card_union_of_disjoint apart, card_chainSlots fits]

theorem skipFits_iff {taken : Finset (Bytes32 × UInt32)} {dhr : Bytes32} {nr upto : UInt32}
    (bound : taken.card ≤ maxStoredSkipped) (free : ∀ n : UInt32, nr.toNat ≤ n.toNat → (dhr, n) ∉ taken) :
    SkipFits taken dhr nr upto ↔ upto.toNat ≤ nr.toNat + maxSkip.toNat ∧
      taken.card + (upto.toNat - nr.toNat) ≤ maxStoredSkipped := by
  have top := upto.toNat_lt
  have below := nr.toNat_lt
  constructor
  · intro fits
    refine ⟨fits.near, ?_⟩
    by_cases short : upto.toNat - nr.toNat = 0
    · omega
    · -- the last key of the skip is the one that needs the most room
      have last := fits.room (upto.toNat - nr.toNat - 1) (by omega)
      rw [card_walked (by omega) free] at last
      omega
  · rintro ⟨near, room⟩
    refine ⟨near, fun i small => ?_⟩
    rw [card_walked (by omega) free]
    omega

/-- Room for one slot a step is enough, banked numbers or not. -/
theorem skipFits_of_room {taken : Finset (Bytes32 × UInt32)} {dhr : Bytes32} {nr upto : UInt32}
    (near : upto.toNat - nr.toNat ≤ maxSkip.toNat)
    (room : taken.card + (upto.toNat - nr.toNat) ≤ maxStoredSkipped) : SkipFits taken dhr nr upto := by
  have top := upto.toNat_lt
  refine ⟨by omega, fun i small => ?_⟩
  have union := Finset.card_union_le taken (chainSlots dhr nr i)
  have walked : (chainSlots dhr nr i).card = i := card_chainSlots (by omega)
  omega

theorem card_drainedSlots_le (s : RatchetState S) (upto : UInt32) :
    (drainedSlots s upto).card ≤
      s.skipped.keys.card + if s.ckr.isSome then upto.toNat - s.nr.toNat else 0 := by
  have top := upto.toNat_lt
  have below := s.nr.toNat_lt
  rw [drainedSlots]
  split
  · next dhr ck remote chain =>
    have union := Finset.card_union_le s.skipped.keys (chainSlots dhr s.nr (upto.toNat - s.nr.toNat))
    rw [card_chainSlots (by omega)] at union
    rw [chain]
    exact union
  · exact Nat.le_add_right _ _

theorem skipLoop_ok_iff (dhr : Bytes32) (count : Nat) (ck : S.Key) {s : RatchetState S} :
    (RatchetState.skipLoop dhr count ck s).2 = .ok () ↔
      ∀ i < count, (s.skipped.keys ∪ chainSlots dhr s.nr i).card < maxStoredSkipped := by
  induction count generalizing s ck with
  | zero => simp [RatchetState.skipLoop]
  | succ count ih =>
    rw [RatchetState.skipLoop]
    dsimp only
    split_ifs with full
    · -- the first key already finds the store full
      simp only [false_iff, not_forall]
      refine ⟨0, Nat.succ_pos _, ?_⟩
      rw [chainSlots, Finset.union_empty]
      omega
    · have moved (i : Nat) : (s.skipped.insert (dhr, s.nr) (kdfCk S ck).2).keys ∪ chainSlots dhr (s.nr + 1) i =
          s.skipped.keys ∪ chainSlots dhr s.nr (i + 1) := by
        rw [keys_insert, chainSlots, Finset.insert_union, Finset.union_insert]
      rw [ih]
      dsimp only
      constructor
      · intro room i small
        cases i with
        | zero =>
          rw [chainSlots, Finset.union_empty]
          omega
        | succ i =>
          rw [← moved i]
          exact room i (by omega)
      · intro room i small
        rw [moved i]
        exact room (i + 1) (by omega)

theorem skipLoop_keys (dhr : Bytes32) (count : Nat) (ck : S.Key) {s : RatchetState S}
    (done : (RatchetState.skipLoop dhr count ck s).2 = .ok ()) :
    (RatchetState.skipLoop dhr count ck s).1.skipped.keys = s.skipped.keys ∪ chainSlots dhr s.nr count := by
  induction count generalizing s ck with
  | zero => rw [RatchetState.skipLoop, chainSlots, Finset.union_empty]
  | succ count ih =>
    rw [RatchetState.skipLoop] at done ⊢
    dsimp only at done ⊢
    split_ifs at done ⊢ with full
    rw [ih _ done]
    dsimp only
    rw [keys_insert, chainSlots, Finset.insert_union, Finset.union_insert]

/-- Without a receiving chain there is nothing to skip. -/
theorem skipMessageKeys_idle {s : RatchetState S} (upto : UInt32) (idle : s.dhr = none ∨ s.ckr = none) :
    s.skipMessageKeys upto = (s, .ok ()) := by
  unfold RatchetState.skipMessageKeys
  split
  · rfl
  · next dhr remote =>
    rw [remote] at idle
    rw [idle.resolve_left nofun]

theorem skipMessageKeys_loop {s : RatchetState S} {dhr : Bytes32} {ck : S.Key} (remote : s.dhr = some dhr)
    (chain : s.ckr = some ck) (upto : UInt32) :
    s.skipMessageKeys upto = if saturatingAdd s.nr maxSkip < upto then
        (s, .error (.ratchet "too many skipped messages"))
      else RatchetState.skipLoop dhr (upto.toNat - s.nr.toNat) ck s := by
  rw [RatchetState.skipMessageKeys, remote, chain]

theorem skipMessageKeys_ok_iff {s : RatchetState S} {dhr : Bytes32} {ck : S.Key} (remote : s.dhr = some dhr)
    (chain : s.ckr = some ck) {upto : UInt32} :
    (s.skipMessageKeys upto).2 = .ok () ↔ SkipFits s.skipped.keys dhr s.nr upto := by
  have bound := upto.toNat_lt
  have limit : saturatingAdd s.nr maxSkip < upto ↔ s.nr.toNat + maxSkip.toNat < upto.toNat := by
    rw [UInt32.lt_iff_toNat_lt, saturatingAdd_toNat]
    omega
  rw [skipMessageKeys_loop remote chain]
  split_ifs with far
  · simp only [false_iff]
    intro fits
    have near := fits.near
    have beyond := limit.mp far
    omega
  · rw [skipLoop_ok_iff]
    exact ⟨fun room => ⟨not_lt.mp fun beyond => far (limit.mpr beyond), room⟩, SkipFits.room⟩

/-- What is taken after a skip that went through. -/
theorem skipMessageKeys_keys {s after : RatchetState S} {upto : UInt32}
    (call : s.skipMessageKeys upto = (after, .ok ())) : after.skipped.keys = drainedSlots s upto := by
  cases remote : s.dhr with
  | none =>
    rw [skipMessageKeys_idle upto (.inl remote)] at call
    cases call
    rw [drainedSlots, remote]
  | some dhr =>
    cases chain : s.ckr with
    | none =>
      rw [skipMessageKeys_idle upto (.inr chain)] at call
      cases call
      rw [drainedSlots, remote, chain]
    | some ck =>
      rw [skipMessageKeys_loop remote chain] at call
      split_ifs at call with far
      · cases call
      · have keys := skipLoop_keys dhr (upto.toNat - s.nr.toNat) ck (congrArg Prod.snd call)
        rw [call] at keys
        rw [drainedSlots, remote, chain]
        exact keys

/-- The chain key behind a skip that went through. -/
theorem skipMessageKeys_ckr {s after : RatchetState S} {ck : S.Key} {upto : UInt32} (remote : s.dhr ≠ none)
    (chain : s.ckr = some ck) (call : s.skipMessageKeys upto = (after, .ok ())) :
    after.ckr = some (chainIter S ck (upto.toNat - s.nr.toNat)) := by
  rcases skipMessageKeys_ok call with ⟨ended, _⟩ | ⟨_, ck', _, chain', skips⟩
  · rw [chain] at ended
    exact absurd ended (by simp [remote])
  · rw [chain] at chain'
    cases chain'
    exact congrArg RatchetState.ckr skips.rest

theorem chainKey_ok_iff {s : RatchetState S} {dhr : Bytes32} {ck key : S.Key} {n : UInt32}
    (remote : s.dhr = some dhr) (chain : s.ckr = some ck) :
    (∃ after, s.chainKey n = (after, .ok key)) ↔
      SkipFits s.skipped.keys dhr s.nr n ∧ key = (kdfCk S (chainIter S ck (n.toNat - s.nr.toNat))).2 := by
  have present : s.dhr ≠ none := by simp [remote]
  constructor
  · rintro ⟨after, call⟩
    obtain ⟨middle, ck', skipped, current, rfl, _⟩ := RatchetState.chainKey_ok call
    have walked := skipMessageKeys_ckr present chain skipped
    rw [current, Option.some.injEq] at walked
    exact ⟨(skipMessageKeys_ok_iff remote chain).mp (congrArg Prod.snd skipped), by rw [walked]⟩
  · rintro ⟨fits, rfl⟩
    have skipped : s.skipMessageKeys n = ((s.skipMessageKeys n).1, .ok ()) :=
      Prod.ext rfl ((skipMessageKeys_ok_iff remote chain).mpr fits)
    have walked := skipMessageKeys_ckr present chain skipped
    rw [RatchetState.chainKey, skipped]
    dsimp only
    rw [walked]
    exact ⟨_, rfl⟩

/-- The state that taking a key ahead of the counter leaves behind. -/
theorem chainKey_walks {s : RatchetState S} {dhr : Bytes32} {ck : S.Key} {n : UInt32} (remote : s.dhr = some dhr)
    (chain : s.ckr = some ck) (fits : SkipFits s.skipped.keys dhr s.nr n) (ahead : s.nr.toNat ≤ n.toNat)
    (below : n.toNat + 1 < 2 ^ 32) :
    ∃ after, s.chainKey n = (after, .ok (kdfCk S (chainIter S ck (n.toNat - s.nr.toNat))).2) ∧
      after.dhr = some dhr ∧ after.ckr = some (chainIter S ck (n.toNat - s.nr.toNat + 1)) ∧
      after.nr.toNat = n.toNat + 1 ∧
      after.skipped.keys = s.skipped.keys ∪ chainSlots dhr s.nr (n.toNat - s.nr.toNat) := by
  obtain ⟨after, call⟩ := (chainKey_ok_iff remote chain).mpr ⟨fits, rfl⟩
  obtain ⟨middle, ck', skipped, current, _, rfl⟩ := RatchetState.chainKey_ok call
  have walked := skipMessageKeys_ckr (by simp [remote]) chain skipped
  rw [current, Option.some.injEq] at walked
  have keys := skipMessageKeys_keys skipped
  rw [drainedSlots, remote, chain] at keys
  have reached : middle.nr.toNat = n.toNat := by
    rcases skipMessageKeys_ok skipped with ⟨ended, _⟩ | ⟨_, _, _, _, skips⟩
    · rw [remote, chain] at ended
      rcases ended with none | none <;> cases none
    · have := skips.nr
      omega
  refine ⟨_, call, ?_, ?_, ?_, keys⟩
  · exact (skipMessageKeys_same skipped).dhr.trans remote
  · dsimp only
    rw [walked]
    rfl
  · have next := toNat_succ middle.nr (by omega)
    dsimp only
    omega

/-- Draining the current chain goes through when there is none, or when the skip fits. -/
theorem drain_ok_iff {s : RatchetState S} {upto : UInt32} :
    (s.skipMessageKeys upto).2 = .ok () ↔
      ∀ dhr, s.dhr = some dhr → s.ckr ≠ none → SkipFits s.skipped.keys dhr s.nr upto := by
  cases remote : s.dhr with
  | none => simp [skipMessageKeys_idle upto (.inl remote)]
  | some dhr =>
    cases chain : s.ckr with
    | none => simp [skipMessageKeys_idle upto (.inr chain)]
    | some ck => simp [skipMessageKeys_ok_iff remote chain]

theorem current_ok_iff {s : RatchetState S} {header : Header} {key : S.Key} (current : s.dhr = some header.dh) :
    (∃ after, s.chainKey header.n = (after, .ok key)) ↔ ChainYields s header key := by
  cases chain : s.ckr with
  | none =>
    have idle := skipMessageKeys_idle header.n (.inr chain)
    simp [RatchetState.chainKey, idle, chain, ChainYields]
  | some ck =>
    rw [chainKey_ok_iff current chain]
    simp [ChainYields, current, chain]

theorem turn_ok_iff {s : RatchetState S} {header : Header} {key : S.Key} (generated : Bytes32)
    (new : s.dhr ≠ some header.dh) :
    (∃ middle after, s.skipMessageKeys header.pn = (middle, .ok ()) ∧
      (middle.dhRatchet header generated).chainKey header.n = (after, .ok key)) ↔ TurnYields s header key := by
  have seed {middle : RatchetState S} (skipped : s.skipMessageKeys header.pn = (middle, .ok ())) :
      (middle.dhRatchet header generated).ckr = some (kdfRk S s.rk (S.diffieHellman s.dhs header.dh)).2 := by
    have kept := skipMessageKeys_same skipped
    simp only [RatchetState.dhRatchet, RatchetState.turnOutputs, kept.rk, kept.dhs]
  constructor
  · rintro ⟨middle, after, skipped, call⟩
    obtain ⟨fits, taken⟩ := (chainKey_ok_iff rfl (seed skipped)).mp ⟨after, call⟩
    have drained := drain_ok_iff.mp (congrArg Prod.snd skipped)
    refine ⟨new, drained, ?_, taken⟩
    rw [← skipMessageKeys_keys skipped]
    exact fits
  · rintro ⟨_, drained, fits, taken⟩
    have skipped : s.skipMessageKeys header.pn = ((s.skipMessageKeys header.pn).1, .ok ()) :=
      Prod.ext rfl (drain_ok_iff.mpr drained)
    rw [← skipMessageKeys_keys skipped] at fits
    obtain ⟨after, call⟩ := (chainKey_ok_iff (s := RatchetState.dhRatchet _ header generated) rfl
      (seed skipped)).mpr ⟨fits, taken⟩
    exact ⟨_, after, skipped, call⟩

/-- `decrypt` gets as far as a message key exactly when the state yields it. -/
theorem receiveKey_ok_iff {s : RatchetState S} {header : Header} {key : S.Key} (generated : Bytes32) :
    (∃ after, s.receiveKey header generated = (after, .ok key)) ↔ Yields s header key := by
  constructor
  · rintro ⟨after, call⟩
    rcases RatchetState.receiveKey_ok call with ⟨found, _⟩ | ⟨absent, current, call⟩ | ⟨absent, new, middle, skipped, call⟩
    · exact .inl found
    · exact .inr ⟨absent, .inl ((current_ok_iff current).mp ⟨after, call⟩)⟩
    · exact .inr ⟨absent, .inr ((turn_ok_iff generated new).mp ⟨middle, after, skipped, call⟩)⟩
  · rintro (found | ⟨absent, yields | yields⟩)
    · exact ⟨_, by rw [RatchetState.receiveKey, found]⟩
    · obtain ⟨after, call⟩ := (current_ok_iff yields.1).mpr yields
      have stays : s.turnIfNew header generated = (s, .ok ()) := if_pos yields.1
      exact ⟨after, by simp only [RatchetState.receiveKey, absent, stays, call]⟩
    · obtain ⟨middle, after, skipped, call⟩ := (turn_ok_iff generated yields.1).mpr yields
      have turns : s.turnIfNew header generated = (middle.dhRatchet header generated, .ok ()) := by
        simp only [RatchetState.turnIfNew, if_neg yields.1, skipped]
      exact ⟨after, by simp only [RatchetState.receiveKey, absent, turns, call]⟩

theorem decrypt_ok_iff {s : RatchetState S} {generated : Bytes32} {message plaintext ciphertext : Bytes}
    {header : Header} (parsed : parseMessage message = .ok (header, ciphertext)) :
    (s.decrypt generated message).2 = .ok plaintext ↔
      ∃ key, Yields s header key ∧ openMessage S key (toAad header) ciphertext = .ok plaintext := by
  constructor
  · intro opens
    have call : s.decrypt generated message = ((s.decrypt generated message).1, .ok plaintext) := Prod.ext rfl opens
    obtain ⟨header', ciphertext', key, parsed', received, opened, _⟩ := RatchetState.decrypt_ok call
    rw [parsed] at parsed'
    cases parsed'
    exact ⟨key, (receiveKey_ok_iff generated).mp ⟨_, received⟩, opened⟩
  · rintro ⟨key, yields, opened⟩
    obtain ⟨after, received⟩ := (receiveKey_ok_iff generated).mpr yields
    rw [RatchetState.decrypt_received parsed received]
    exact opened

/-- A message within reach opens a fresh responder, and the keys before it are banked. -/
theorem responder_reaches (root : S.Key) (ratchetKey dh drawn : Bytes32) (pn : UInt32) {n : UInt32}
    (near : n.toNat ≤ maxSkip.toNat) :
    ∃ t, (RatchetState.responder root ratchetKey).receiveKey ⟨dh, pn, n⟩ drawn =
        (t, .ok (kdfCk S (chainIter S (kdfRk S root (S.diffieHellman ratchetKey dh)).2 n.toNat)).2) ∧
      t.dhr = some dh ∧ t.ckr = some (chainIter S (kdfRk S root (S.diffieHellman ratchetKey dh)).2 (n.toNat + 1)) ∧
      t.nr.toNat = n.toNat + 1 ∧ t.skipped.keys = chainSlots dh 0 n.toNat ∧
      ∀ k : UInt32, k.toNat < n.toNat →
        t.skipped.lookup (dh, k) =
          some (kdfCk S (chainIter S (kdfRk S root (S.diffieHellman ratchetKey dh)).2 k.toNat)).2 := by
  let turned := (RatchetState.responder root ratchetKey).dhRatchet ⟨dh, pn, n⟩ drawn
  have limit : maxSkip.toNat = 1000 := rfl
  have zero : turned.nr.toNat = 0 := rfl
  have fits : SkipFits turned.skipped.keys dh turned.nr n :=
    skipFits_of_room (by omega) (by change 0 + (n.toNat - 0) ≤ 2000; omega)
  obtain ⟨t, taken, remote, chain, number, keys⟩ := chainKey_walks rfl rfl fits (by omega) (by omega)
  have turns : (RatchetState.responder root ratchetKey).turnIfNew ⟨dh, pn, n⟩ drawn = (turned, .ok ()) := by
    have idle := skipMessageKeys_idle (s := RatchetState.responder root ratchetKey) pn (.inl rfl)
    have new : (RatchetState.responder root ratchetKey).dhr ≠ some dh := (Option.some_ne_none dh).symm
    rw [RatchetState.turnIfNew, if_neg new, idle]
  have empty : (RatchetState.responder root ratchetKey).skipped.lookup (dh, n) = none := Finmap.lookup_empty _
  refine ⟨t, ?_, remote, chain, number, ?_, ?_⟩
  · simp only [RatchetState.receiveKey, empty, turns, taken]
    rfl
  · rw [keys]
    exact Finset.empty_union _
  · intro k small
    obtain ⟨middle, ck, skipped, _, _, rfl⟩ := RatchetState.chainKey_ok taken
    rcases skipMessageKeys_ok skipped with ⟨ended, _⟩ | ⟨dhr, ck', remote', chain', skips⟩
    · rcases ended with none | none <;> cases none
    · cases remote'
      cases chain'
      exact skips.banked k (by omega) (by omega)

end

end Buh.Ratchet.Receiving
