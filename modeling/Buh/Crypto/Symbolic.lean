import Buh.Crypto.Primitives

/-! A suite that satisfies the idealised laws: a secret is the byte string that spells
out how it was derived, and a ciphertext spells out the key, nonce and additional data
it was sealed with. It shows that the laws are consistent. -/

namespace Buh.Crypto.Symbolic
open Buh.Library.PrefixCode Buh.Wire.Codec Buh.Crypto.Primitives

/-- Delimited content: a one before every byte and a zero at the end. -/
def delimit : Bytes → Bytes
  | [] => [0]
  | byte :: rest => 1 :: byte :: delimit rest

def undelimit : Bytes → Option (Bytes × Bytes)
  | [] => none
  | mark :: rest =>
    if mark = 0 then some ([], rest)
    else
      match rest with
      | [] => none
      | byte :: tail =>
        if mark = 1 then (undelimit tail).map (fun found => (byte :: found.1, found.2)) else none

theorem undelimit_delimit (content rest : Bytes) :
    undelimit (delimit content ++ rest) = some (content, rest) := by
  induction content with
  | nil =>
    change undelimit (0 :: rest) = _
    rw [undelimit.eq_def]
    rfl
  | cons byte content ih =>
    change undelimit (1 :: byte :: (delimit content ++ rest)) = _
    rw [undelimit.eq_def]
    simp [ih]

theorem delimit_of_undelimit {bytes content rest : Bytes}
    (found : undelimit bytes = some (content, rest)) : bytes = delimit content ++ rest := by
  fun_induction undelimit bytes generalizing content with
  | case1 => cases found
  | case2 rest' =>
    cases found
    rfl
  | case3 mark zero => cases found
  | case4 zero byte tail ih =>
    simp only [Option.map_eq_some_iff, Prod.exists, Prod.mk.injEq] at found
    obtain ⟨inner, after, tailFound, rfl, rfl⟩ := found
    rw [ih tailFound]
    rfl
  | case5 mark zero byte tail other => cases found

theorem delimit_prefixFree : PrefixFree delimit := by
  intro first second rest other same
  have left := undelimit_delimit first rest
  rw [same, undelimit_delimit] at left
  simp only [Option.some.injEq, Prod.mk.injEq] at left
  exact ⟨left.1.symm, left.2.symm⟩

@[simp] theorem delimit_length (content : Bytes) : (delimit content).length = 2 * content.length + 1 := by
  induction content with
  | nil => rfl
  | cons byte content ih =>
    simp only [delimit, List.length_cons, ih]
    omega

/-- An order on keys, to name an unordered pair of them. -/
def before (first second : Bytes32) : Prop :=
  first.toList.map UInt8.toNat ≤ second.toList.map UInt8.toNat

instance : DecidableRel before := fun _ _ => inferInstanceAs (Decidable (_ ≤ _))

theorem before_antisymm {first second : Bytes32} (forward : before first second)
    (backward : before second first) : first = second := by
  have lists := le_antisymm forward backward
  exact List.Vector.toList_injective (List.map_injective_iff.mpr (fun _ _ => UInt8.toNat_inj.mp) lists)

def shared (first second : Bytes32) : Bytes :=
  1 :: (if before first second then first.toList ++ second.toList else second.toList ++ first.toList)

theorem shared_comm (first second : Bytes32) : shared first second = shared second first := by
  unfold shared
  by_cases forward : before first second <;> by_cases backward : before second first
  · rw [before_antisymm forward backward]
  · rw [if_pos forward, if_neg backward]
  · rw [if_neg forward, if_pos backward]
  · exact absurd (le_total _ _) (not_or.mpr ⟨forward, backward⟩)

theorem shared_length (first second : Bytes32) : (shared first second).length = 65 := by
  unfold shared
  split_ifs <;> simp

private theorem halves {a b c d : Bytes32} (same : a.toList ++ b.toList = c.toList ++ d.toList) :
    a = c ∧ b = d := by
  have lengths : a.toList.length = c.toList.length := by simp
  obtain ⟨left, right⟩ := List.append_inj same lengths
  exact ⟨List.Vector.toList_injective left, List.Vector.toList_injective right⟩

theorem shared_free {first first' second second' : Bytes32}
    (same : shared first second = shared first' second') :
    (first = first' ∧ second = second') ∨ (first = second' ∧ second = first') := by
  simp only [shared, List.cons.injEq, true_and] at same
  split_ifs at same
  · exact Or.inl (halves same)
  · exact Or.inr (halves same)
  · exact Or.inr ((halves same).symm)
  · exact Or.inl ((halves same).symm)

def sealed (key nonce aad message : Bytes) : Bytes :=
  delimit key ++ (delimit nonce ++ (delimit aad ++ message))

/-- Sealing refuses what would not fit a `u64` length. -/
def encrypt (key nonce aad message : Bytes) : Option Bytes :=
  if (sealed key nonce aad message).length < 2 ^ 64 then some (sealed key nonce aad message) else none

def decrypt (key nonce aad ciphertext : Bytes) : Option Bytes :=
  match undelimit ciphertext with
  | none => none
  | some (key', rest) =>
    match undelimit rest with
    | none => none
    | some (nonce', rest) =>
      match undelimit rest with
      | none => none
      | some (aad', message) =>
        if key' = key ∧ nonce' = nonce ∧ aad' = aad ∧ ciphertext.length < 2 ^ 64 then some message else none

def readKey (r : Reader) : Except WireError (Bytes × Reader) :=
  match undelimit (r.buf.drop r.pos) with
  | none => .error .unexpectedEof
  | some (key, rest) => .ok (key, { r with pos := r.buf.length - rest.length })

/-- The public half of a secret, here a secret with every byte turned. -/
def publicKey (secret : Bytes32) : Bytes32 := secret.map (fun byte => ~~~byte)

def suite : Suite where
  Key := Bytes
  keyBytes := delimit
  readKey := readKey
  publicKey := publicKey
  diffieHellman secret pub := shared (publicKey secret) pub
  Prk := Bytes
  hkdfExtract salt ikm := 0 :: (delimit salt ++ delimit ikm)
  hkdfFromPrk key := 1 :: key
  hkdfExpand prk info block := 0 :: (delimit prk ++ (delimit info ++ List.replicate block 0))
  aeadEncrypt := encrypt
  aeadDecrypt := decrypt

theorem suite_seals {key nonce aad message : Bytes} (fits : (sealed key nonce aad message).length < 2 ^ 64) :
    ∃ ciphertext, suite.aeadEncrypt key nonce aad message = some ciphertext :=
  ⟨sealed key nonce aad message, if_pos fits⟩

theorem sealed_inj {key key' nonce nonce' aad aad' message message' : Bytes}
    (same : sealed key nonce aad message = sealed key' nonce' aad' message') :
    key = key' ∧ nonce = nonce' ∧ aad = aad' ∧ message = message' := by
  obtain ⟨keys, same⟩ := delimit_prefixFree same
  obtain ⟨nonces, same⟩ := delimit_prefixFree same
  exact ⟨keys, nonces, delimit_prefixFree same⟩

theorem encrypt_eq_some {key nonce aad message ciphertext : Bytes} :
    encrypt key nonce aad message = some ciphertext ↔
      ciphertext = sealed key nonce aad message ∧ ciphertext.length < 2 ^ 64 := by
  unfold encrypt
  split_ifs with fits
  · constructor
    · rintro ⟨⟩
      exact ⟨rfl, fits⟩
    · rintro ⟨rfl, _⟩
      rfl
  · constructor
    · rintro ⟨⟩
    · rintro ⟨rfl, short⟩
      exact absurd short fits

theorem decrypt_eq_some {key nonce aad message ciphertext : Bytes} :
    decrypt key nonce aad ciphertext = some message ↔
      ciphertext = sealed key nonce aad message ∧ ciphertext.length < 2 ^ 64 := by
  constructor
  · intro opened
    unfold decrypt at opened
    split at opened
    · cases opened
    · next key' rest keyFound =>
      split at opened
      · cases opened
      · next nonce' rest' nonceFound =>
        split at opened
        · cases opened
        · next aad' message' aadFound =>
          split_ifs at opened with match_
          cases opened
          obtain ⟨rfl, rfl, rfl, fits⟩ := match_
          refine ⟨?_, fits⟩
          rw [delimit_of_undelimit keyFound, delimit_of_undelimit nonceFound,
            delimit_of_undelimit aadFound, sealed]
  · rintro ⟨rfl, fits⟩
    unfold sealed at fits ⊢
    simp [decrypt, undelimit_delimit] at fits ⊢
    omega

theorem suite_lawful : Lawful suite where
  read_key := by
    intro r rest key ahead
    have total := ahead.length
    refine ⟨{ r with pos := r.buf.length - rest.length }, ?_, ?_⟩
    · change readKey r = _
      have found : undelimit (r.buf.drop r.pos) = some (key, rest) := by
        rw [ahead.2]
        exact undelimit_delimit key rest
      simp only [readKey, found]
      rfl
    · have advanced := ahead.advance
      rw [List.length_append] at total
      have same : r.pos + (suite.keyBytes key).length = r.buf.length - rest.length := by omega
      rwa [same] at advanced
  dh_comm first second := shared_comm (publicKey first) (publicKey second)
  decrypt_encrypt := by
    intro key nonce aad message ciphertext sealed
    exact decrypt_eq_some.mpr (encrypt_eq_some.mp sealed)
  ciphertext_fits := by
    intro key nonce aad message ciphertext sealed
    exact (encrypt_eq_some.mp sealed).2

theorem suite_ideal : Ideal suite where
  toLawful := suite_lawful
  extract_inj := by
    intro salt salt' ikm ikm' same
    obtain ⟨salts, ikms⟩ := delimit_prefixFree (List.cons.inj same).2
    exact ⟨salts, delimit_prefixFree.injective ikms⟩
  fromPrk_inj := by
    intro key key' same
    exact (List.cons.inj same).2
  expand_inj := by
    intro prk prk' info info' block block' same
    obtain ⟨prks, same⟩ := delimit_prefixFree (List.cons.inj same).2
    obtain ⟨infos, blocks⟩ := delimit_prefixFree same
    have lengths := congrArg List.length blocks
    simp only [List.length_replicate] at lengths
    exact ⟨prks, infos, lengths⟩
  dh_not_expand := by
    intro secret pub prk info block same
    exact absurd (List.cons.inj same).1 (by decide)
  dh_free := shared_free
  encrypt_inj := by
    intro key key' nonce nonce' aad aad' message message' ciphertext first second
    exact sealed_inj ((encrypt_eq_some.mp first).1.symm.trans (encrypt_eq_some.mp second).1)
  encrypt_decrypt := by
    intro key nonce aad ciphertext message opened
    exact encrypt_eq_some.mpr (decrypt_eq_some.mp opened)

/-- The same suite with the derivation of a secret spelled last and not delimited, so that
a chain grows by a fixed length a step and long ones can still be used for sealing. -/
def compact : Suite :=
  { suite with hkdfExpand := fun prk info block => 0 :: (delimit info ++ (List.replicate block 1 ++ 0 :: prk)) }

theorem replicate_zero_inj {block block' : Nat} {rest rest' : Bytes}
    (same : List.replicate block 1 ++ 0 :: rest = List.replicate block' 1 ++ 0 :: rest') :
    block = block' ∧ rest = rest' := by
  induction block generalizing block' with
  | zero =>
    cases block' with
    | zero => exact ⟨rfl, (List.cons.inj same).2⟩
    | succ block' => exact absurd (List.cons.inj same).1 (by decide)
  | succ block ih =>
    cases block' with
    | zero => exact absurd (List.cons.inj same).1 (by decide)
    | succ block' =>
      obtain ⟨blocks, rests⟩ := ih (List.cons.inj same).2
      exact ⟨congrArg Nat.succ blocks, rests⟩

theorem compact_lawful : Lawful compact where
  read_key := suite_lawful.read_key
  dh_comm := suite_lawful.dh_comm
  decrypt_encrypt := suite_lawful.decrypt_encrypt
  ciphertext_fits := suite_lawful.ciphertext_fits

theorem compact_ideal : Ideal compact where
  toLawful := compact_lawful
  extract_inj := suite_ideal.extract_inj
  fromPrk_inj := suite_ideal.fromPrk_inj
  expand_inj := by
    intro prk prk' info info' block block' same
    obtain ⟨infos, same⟩ := delimit_prefixFree (List.cons.inj same).2
    obtain ⟨blocks, prks⟩ := replicate_zero_inj same
    exact ⟨prks, infos, blocks⟩
  dh_not_expand := by
    intro secret pub prk info block same
    exact absurd (List.cons.inj same).1 (by decide)
  dh_free := suite_ideal.dh_free
  encrypt_inj := suite_ideal.encrypt_inj
  encrypt_decrypt := suite_ideal.encrypt_decrypt

/-- Keys as the source has them, 32-byte arrays that `read_32` reads, for examples where the
layout matters and secrecy does not: derivation takes bytes of its input, and the seal is
open. -/
def arrays : Suite where
  Key := Bytes32
  keyBytes := List.Vector.toList
  readKey := read32
  publicKey := id
  diffieHellman first second := first.map₂ (fun a b => a ^^^ b) second
  Prk := Bytes
  hkdfExtract salt ikm := salt ++ ikm
  hkdfFromPrk key := key.toList
  hkdfExpand prk info block := List.Vector.ofFn fun i => (prk ++ info).getD (i + 32 * block) 0
  aeadEncrypt _ _ _ message := if message.length < 2 ^ 64 then some message else none
  aeadDecrypt _ _ _ ciphertext := some ciphertext

theorem arrays_lawful : Lawful arrays where
  read_key key ahead := read32_ahead key ahead
  dh_comm first second := by
    apply List.Vector.ext
    intro i
    change (List.Vector.map₂ _ first second).get i = (List.Vector.map₂ _ second first).get i
    rw [List.Vector.get_map₂, List.Vector.get_map₂, UInt8.xor_comm]
  decrypt_encrypt := by
    intro key nonce aad message ciphertext sealed
    change (if message.length < 2 ^ 64 then some message else none) = some ciphertext at sealed
    split_ifs at sealed
    cases sealed
    rfl
  ciphertext_fits := by
    intro key nonce aad message ciphertext sealed
    change (if message.length < 2 ^ 64 then some message else none) = some ciphertext at sealed
    split_ifs at sealed with short
    cases sealed
    exact short

end Buh.Crypto.Symbolic
