import Buh.Ratchet.Receiving
import Buh.Crypto.Symbolic

/-! Where `encrypt` and `decrypt` could panic. The calls are run again with every `+= 1` on
a counter checked and every `expect` on their way: an overflow panics in a build with
overflow checks, and wraps in one without. A call without a fault is the call itself. The
system generator is taken to answer. -/

namespace Buh.Ratchet.Panics
open Buh.Wire.Codec Buh.Crypto.Primitives Buh.Ratchet.Message Buh.Ratchet.Chain Buh.Ratchet.State
  Buh.Ratchet.Persist Buh.Ratchet.Skipping Buh.Ratchet.Receiving

inductive Fault where
  | overflow
  | expect (text : String)
  deriving DecidableEq, Repr

/-- `+= 1` on a `u32` -/
def increment (counter : UInt32) : Except Fault UInt32 :=
  if counter.toNat + 1 < 2 ^ 32 then .ok (counter + 1) else .error .overflow

/-- An `expect` on a call that fails unless the bound holds. -/
def expects (bound : Prop) [Decidable bound] (text : String) : Except Fault Unit :=
  if bound then .ok () else .error (.expect text)

/-- The output of SHA-256: `from_prk` asks for that many bytes, `expand` gives 255 times it. -/
def hashLen : Nat := 32
def expandMax : Nat := 255 * hashLen

section
variable {S : Suite}

def kdfRk (S : Suite) (rk dhOut : S.Key) : Except Fault (S.Key × S.Key) := do
  expects (64 ≤ expandMax) "64 within HKDF limit"
  return Chain.kdfRk S rk dhOut

def kdfCk (S : Suite) (ck : S.Key) : Except Fault (S.Key × S.Key) := do
  expects (hashLen ≤ 32) "32-byte PRK"
  expects (32 ≤ expandMax) "32 within HKDF limit"
  expects (32 ≤ expandMax) "32 within HKDF limit"
  return Chain.kdfCk S ck

def messageKeys (S : Suite) (mk : S.Key) : Except Fault (S.Key × Bytes) := do
  expects (hashLen ≤ 32) "32-byte PRK"
  expects (32 + nonceLen ≤ expandMax) "key+nonce within HKDF limit"
  return Chain.messageKeys S mk

def encrypt (s : RatchetState S) (plaintext : Bytes) :
    Except Fault (RatchetState S × Except CryptoError Bytes) :=
  match s.cks with
  | none => .ok (s, .error (.ratchet "no sending chain yet"))
  | some ck => do
    let (nextCk, mk) ← kdfCk S ck
    let header := s.nextHeader
    let ns ← increment s.ns
    let (key, nonce) ← messageKeys S mk
    let after := { s with cks := some nextCk, ns }
    match aeadSeal S key nonce (toAad header) plaintext with
    | .error e => return (after, .error e)
    | .ok ciphertext => return (after, .ok (messageFrame header ciphertext).encode)

theorem increment_returns {counter : UInt32} (below : counter.toNat + 1 < 2 ^ 32) :
    increment counter = .ok (counter + 1) := if_pos below

theorem increment_eq_ok {counter next : UInt32} :
    increment counter = .ok next ↔ counter.toNat + 1 < 2 ^ 32 ∧ next = counter + 1 := by
  unfold increment
  split_ifs with below
  · rw [Except.ok.injEq, and_iff_right below, eq_comm]
  · exact iff_of_false (fun failed => by cases failed) (fun both => below both.1)

/-- The `while self.nr < until` loop. -/
def skipLoop (dhr : Bytes32) (upto : UInt32) (s : RatchetState S) :
    Except Fault (RatchetState S × Except CryptoError Unit) :=
  if _below : s.nr < upto then
    match s.ckr with
    | none => .error (.expect "receiving chain present in loop")
    | some ck =>
      match kdfCk S ck with
      | .error fault => .error fault
      | .ok (nextCk, mk) =>
        if maxStoredSkipped ≤ s.skipped.keys.card then
          .ok ({ s with ckr := some nextCk }, .error (.ratchet "skipped-key store full"))
        else
          match _stepped : increment s.nr with
          | .error fault => .error fault
          | .ok nr => skipLoop dhr upto { s with ckr := some nextCk, skipped := s.skipped.insert (dhr, s.nr) mk, nr }
  else .ok (s, .ok ())
termination_by upto.toNat - s.nr.toNat
decreasing_by
  obtain ⟨fits, rfl⟩ := increment_eq_ok.mp _stepped
  have next := toNat_succ s.nr fits
  rw [UInt32.lt_iff_toNat_lt] at _below
  omega

def skipMessageKeys (s : RatchetState S) (upto : UInt32) :
    Except Fault (RatchetState S × Except CryptoError Unit) :=
  match s.dhr with
  | none => .ok (s, .ok ())
  | some dhr =>
    match s.ckr with
    | none => .ok (s, .ok ())
    | some _ =>
      if saturatingAdd s.nr maxSkip < upto then .ok (s, .error (.ratchet "too many skipped messages"))
      else skipLoop dhr upto s

def dhRatchet (s : RatchetState S) (header : Header) (generated : Bytes32) : Except Fault (RatchetState S) := do
  let (rk, ckr) ← kdfRk S s.rk (S.diffieHellman s.dhs header.dh)
  let (rk, cks) ← kdfRk S rk (S.diffieHellman generated header.dh)
  return { s with
    pn := s.ns, ns := 0, nr := 0, dhr := some header.dh, ckr := some ckr, dhs := generated,
    dhsPub := S.publicKey generated, rk, cks := some cks }

/-- Step 2 of `decrypt`. -/
def turnIfNew (s : RatchetState S) (header : Header) (generated : Bytes32) :
    Except Fault (RatchetState S × Except CryptoError Unit) :=
  if s.dhr = some header.dh then .ok (s, .ok ())
  else do
    match ← skipMessageKeys s header.pn with
    | (s, .error e) => return (s, .error e)
    | (s, .ok ()) =>
      let s ← dhRatchet s header generated
      return (s, .ok ())

/-- Steps 3 and 4 of `decrypt`, up to the message key. -/
def chainKey (s : RatchetState S) (n : UInt32) : Except Fault (RatchetState S × Except CryptoError S.Key) := do
  match ← skipMessageKeys s n with
  | (s, .error e) => return (s, .error e)
  | (s, .ok ()) =>
    match s.ckr with
    | none => return (s, .error (.ratchet "no receiving chain"))
    | some ck =>
      let (nextCk, mk) ← kdfCk S ck
      let nr ← increment s.nr
      return ({ s with ckr := some nextCk, nr }, .ok mk)

def receiveKey (s : RatchetState S) (header : Header) (generated : Bytes32) :
    Except Fault (RatchetState S × Except CryptoError S.Key) :=
  match s.skipped.lookup (header.dh, header.n) with
  | some key => .ok ({ s with skipped := s.skipped.erase (header.dh, header.n) }, .ok key)
  | none => do
    match ← turnIfNew s header generated with
    | (s, .error e) => return (s, .error e)
    | (s, .ok ()) => chainKey s header.n

def decrypt (s : RatchetState S) (generated : Bytes32) (message : Bytes) :
    Except Fault (RatchetState S × Except CryptoError Bytes) :=
  match parseMessage message with
  | .error e => .ok (s, .error e)
  | .ok (header, ciphertext) => do
    match ← receiveKey s header generated with
    | (s, .error e) => return (s, .error e)
    | (s, .ok mk) =>
      let (key, nonce) ← messageKeys S mk
      return (s, aeadOpen S key nonce (toAad header) ciphertext)

theorem kdfCk_returns (ck : S.Key) : kdfCk S ck = .ok (Chain.kdfCk S ck) := rfl

theorem messageKeys_returns (mk : S.Key) : messageKeys S mk = .ok (Chain.messageKeys S mk) := rfl

/-- Sending needs a value left for the counter. -/
theorem encrypt_returns {s : RatchetState S} (room : s.cks ≠ none → s.ns.toNat + 1 < 2 ^ 32) (plaintext : Bytes) :
    encrypt s plaintext = .ok (s.encrypt plaintext) := by
  cases chain : s.cks with
  | none => rw [encrypt, RatchetState.encrypt, chain]
  | some ck =>
    have stepped := increment_returns (room (by rw [chain]; exact Option.some_ne_none ck))
    simp only [encrypt, RatchetState.encrypt, sealMessage, chain, kdfCk_returns, stepped, messageKeys_returns, bind,
      Except.bind, pure, Except.pure]
    cases aeadSeal S (Chain.messageKeys S (Chain.kdfCk S ck).2).1 (Chain.messageKeys S (Chain.kdfCk S ck).2).2
      (toAad s.nextHeader) plaintext <;> rfl

theorem encrypt_overflows {s : RatchetState S} {ck : S.Key} (chain : s.cks = some ck) (full : ¬s.ns.toNat + 1 < 2 ^ 32)
    (plaintext : Bytes) : encrypt s plaintext = .error .overflow := by
  have stepped : increment s.ns = .error .overflow := if_neg full
  simp only [encrypt, chain, kdfCk_returns, stepped, bind, Except.bind]

/-- The loop stops before its bound, so its counter has room for every step; and it leaves a
chain key behind for the next one. -/
theorem skipLoop_returns (dhr : Bytes32) (upto : UInt32) (count : Nat) {ck : S.Key} {s : RatchetState S}
    (chain : s.ckr = some ck) (left : upto.toNat - s.nr.toNat = count) :
    skipLoop dhr upto s = .ok (RatchetState.skipLoop dhr count ck s) := by
  have top := upto.toNat_lt
  induction count generalizing s ck with
  | zero =>
    have done : ¬s.nr < upto := by
      rw [UInt32.lt_iff_toNat_lt]
      omega
    rw [skipLoop, dif_neg done, RatchetState.skipLoop]
  | succ count ih =>
    have below : s.nr < upto := by
      rw [UInt32.lt_iff_toNat_lt]
      omega
    have fits : s.nr.toNat + 1 < 2 ^ 32 := by omega
    rw [skipLoop, dif_pos below, RatchetState.skipLoop, chain]
    simp only [kdfCk_returns]
    split_ifs with full
    · rfl
    · split
      · next failed =>
        rw [increment_returns fits] at failed
        cases failed
      · next nr stepped =>
        rw [increment_returns fits] at stepped
        cases stepped
        have next := toNat_succ s.nr fits
        exact ih rfl (by dsimp only; omega)

theorem skipMessageKeys_returns (s : RatchetState S) (upto : UInt32) :
    skipMessageKeys s upto = .ok (s.skipMessageKeys upto) := by
  cases remote : s.dhr with
  | none => rw [skipMessageKeys_idle upto (.inl remote), skipMessageKeys, remote]
  | some dhr =>
    cases chain : s.ckr with
    | none => rw [skipMessageKeys_idle upto (.inr chain), skipMessageKeys, remote, chain]
    | some ck =>
      rw [skipMessageKeys_loop remote chain, skipMessageKeys, remote, chain]
      dsimp only
      split_ifs
      · rfl
      · exact skipLoop_returns dhr upto _ chain rfl

theorem turnIfNew_returns (s : RatchetState S) (header : Header) (generated : Bytes32) :
    turnIfNew s header generated = .ok (s.turnIfNew header generated) := by
  unfold turnIfNew RatchetState.turnIfNew
  split_ifs
  · rfl
  · rw [skipMessageKeys_returns]
    generalize s.skipMessageKeys header.pn = step
    obtain ⟨middle, e | _⟩ := step
    · rfl
    · rfl

/-- `after` is in the same chains as `s`, its counters no further back. -/
structure Onward (s after : RatchetState S) : Prop where
  dhr : after.dhr = s.dhr
  ns : s.ns.toNat ≤ after.ns.toNat
  nr : s.nr.toNat ≤ after.nr.toNat

theorem Onward.refl (s : RatchetState S) : Onward s s := ⟨rfl, le_rfl, le_rfl⟩

theorem Onward.trans {s middle after : RatchetState S} (first : Onward s middle) (second : Onward middle after) :
    Onward s after :=
  ⟨second.dhr.trans first.dhr, first.ns.trans second.ns, first.nr.trans second.nr⟩

theorem le_succ {counter : UInt32} (fits : counter.toNat + 1 < 2 ^ 32) : counter.toNat ≤ (counter + 1).toNat := by
  rw [toNat_succ counter fits]
  exact Nat.le_succ _

theorem skipLoop_onward (dhr : Bytes32) (count : Nat) (ck : S.Key) {s : RatchetState S}
    (fits : s.nr.toNat + count < 2 ^ 32) : Onward s (RatchetState.skipLoop dhr count ck s).1 := by
  induction count generalizing s ck with
  | zero => exact .refl s
  | succ count ih =>
    have stepped : s.nr.toNat + 1 < 2 ^ 32 := by omega
    have next := toNat_succ s.nr stepped
    rw [RatchetState.skipLoop]
    dsimp only
    split_ifs
    · exact ⟨rfl, le_rfl, le_rfl⟩
    · refine Onward.trans ?_ (ih _ (by dsimp only; omega))
      exact ⟨rfl, le_rfl, le_succ stepped⟩

/-- A skip goes forward, also when the store fills up on the way. -/
theorem skipMessageKeys_onward (s : RatchetState S) (upto : UInt32) : Onward s (s.skipMessageKeys upto).1 := by
  have top := upto.toNat_lt
  have below := s.nr.toNat_lt
  unfold RatchetState.skipMessageKeys
  split
  · exact .refl s
  · split
    · exact .refl s
    · split_ifs
      · exact .refl s
      · exact skipLoop_onward _ _ _ (by omega)

/-- The number of the message leaves the counter of the receiving chain room for one more. -/
def ChainRoom (s : RatchetState S) (dhr : Bytes32) (n : UInt32) : Prop :=
  s.ckr ≠ none → SkipFits s.skipped.keys dhr s.nr n → max s.nr.toNat n.toNat + 1 < 2 ^ 32

/-- What a skip leaves in the current chain when it goes through. -/
theorem skipMessageKeys_reaches {s middle : RatchetState S} {dhr : Bytes32} {ck : S.Key} {n : UInt32}
    (remote : s.dhr = some dhr) (current : middle.ckr = some ck) (skipped : s.skipMessageKeys n = (middle, .ok ())) :
    s.ckr ≠ none ∧ SkipFits s.skipped.keys dhr s.nr n ∧ middle.nr.toNat = max s.nr.toNat n.toNat := by
  rcases skipMessageKeys_ok skipped with ⟨idle, rfl⟩ | ⟨dhr', ck', remote', chain, skips⟩
  · rw [remote, current] at idle
    rcases idle with none_ | none_ <;> cases none_
  · rw [remote] at remote'
    cases remote'
    refine ⟨by rw [chain]; exact Option.some_ne_none ck', ?_, ?_⟩
    · exact (skipMessageKeys_ok_iff remote chain).mp (congrArg Prod.snd skipped)
    · have number := skips.nr
      omega

theorem chainKey_returns {s : RatchetState S} {dhr : Bytes32} {n : UInt32} (remote : s.dhr = some dhr)
    (room : ChainRoom s dhr n) : chainKey s n = .ok (s.chainKey n) ∧ Onward s (s.chainKey n).1 := by
  have onward := skipMessageKeys_onward s n
  rw [chainKey, RatchetState.chainKey, skipMessageKeys_returns]
  simp only [bind, Except.bind, pure, Except.pure]
  cases skipped : s.skipMessageKeys n with
  | mk middle answer =>
    rw [skipped] at onward
    cases answer with
    | error e => exact ⟨rfl, onward⟩
    | ok _ =>
      dsimp only
      cases current : middle.ckr with
      | none => exact ⟨rfl, onward⟩
      | some ck =>
        obtain ⟨chain, fits, reached⟩ := skipMessageKeys_reaches remote current skipped
        have left : middle.nr.toNat + 1 < 2 ^ 32 := by
          rw [reached]
          exact room chain fits
        simp only [kdfCk_returns, increment_returns left]
        exact ⟨trivial, onward.trans ⟨rfl, le_rfl, le_succ left⟩⟩

theorem chainKey_overflows {s : RatchetState S} {dhr : Bytes32} {n : UInt32} (remote : s.dhr = some dhr)
    (full : ¬ChainRoom s dhr n) : chainKey s n = .error .overflow := by
  simp only [ChainRoom, Classical.not_imp] at full
  obtain ⟨chain, fits, past⟩ := full
  obtain ⟨ck, chain⟩ := Option.ne_none_iff_exists'.mp chain
  have skipped : s.skipMessageKeys n = ((s.skipMessageKeys n).1, .ok ()) :=
    Prod.ext rfl ((skipMessageKeys_ok_iff remote chain).mpr fits)
  have current := skipMessageKeys_ckr (by simp [remote]) chain skipped
  obtain ⟨-, -, reached⟩ := skipMessageKeys_reaches remote current skipped
  have stepped : increment (s.skipMessageKeys n).1.nr = .error .overflow := if_neg (by rwa [reached])
  rw [chainKey, skipMessageKeys_returns, skipped]
  simp only [bind, Except.bind, current, kdfCk_returns, stepped]

/-- A chain that was just started is far from the end of its counter. -/
theorem dhRatchet_room (s : RatchetState S) (header : Header) (generated : Bytes32) :
    ChainRoom (s.dhRatchet header generated) header.dh header.n := by
  intro _ fits
  have near := fits.near
  have zero : (s.dhRatchet header generated).nr.toNat = 0 := rfl
  have limit : maxSkip.toNat = 1000 := rfl
  omega

/-- The state before, as far as a header looks at it: nothing is banked for the message, it
belongs to the current receiving chain, and the counter of that chain has room. -/
def HeaderRoom (s : RatchetState S) (header : Header) : Prop :=
  s.skipped.lookup (header.dh, header.n) = none → s.dhr = some header.dh → ChainRoom s header.dh header.n

/-- Unless the ratchet turns, the state that a key was looked up in is further on. -/
theorem receiveKey_returns {s : RatchetState S} {header : Header} (room : HeaderRoom s header) (generated : Bytes32) :
    receiveKey s header generated = .ok (s.receiveKey header generated) ∧
      ((s.receiveKey header generated).1.dhr = s.dhr → Onward s (s.receiveKey header generated).1) := by
  unfold receiveKey RatchetState.receiveKey
  cases banked : s.skipped.lookup (header.dh, header.n) with
  | some key => exact ⟨rfl, fun _ => ⟨rfl, le_rfl, le_rfl⟩⟩
  | none =>
    simp only [turnIfNew_returns, bind, Except.bind, pure, Except.pure]
    by_cases current : s.dhr = some header.dh
    · have stays : s.turnIfNew header generated = (s, .ok ()) := if_pos current
      obtain ⟨returns, onward⟩ := chainKey_returns current (room banked current)
      rw [stays]
      exact ⟨returns, fun _ => onward⟩
    · rw [RatchetState.turnIfNew, if_neg current]
      have drained := skipMessageKeys_onward s header.pn
      cases skipped : s.skipMessageKeys header.pn with
      | mk middle answer =>
        rw [skipped] at drained
        cases answer with
        | error e => exact ⟨rfl, fun _ => drained⟩
        | ok _ =>
          have turned : (middle.dhRatchet header generated).dhr = some header.dh := rfl
          obtain ⟨returns, onward⟩ := chainKey_returns turned (dhRatchet_room middle header generated)
          refine ⟨returns, fun same => ?_⟩
          dsimp only at same
          rw [onward.dhr] at same
          exact absurd same.symm current

theorem receiveKey_overflows {s : RatchetState S} {header : Header} (full : ¬HeaderRoom s header) (generated : Bytes32) :
    receiveKey s header generated = .error .overflow := by
  simp only [HeaderRoom, Classical.not_imp] at full
  obtain ⟨banked, current, full⟩ := full
  have stays : s.turnIfNew header generated = (s, .ok ()) := if_pos current
  rw [receiveKey, banked, turnIfNew_returns, stays]
  exact chainKey_overflows current full

/-- What the message asks of the state, if it is one. -/
def ReceiveRoom (s : RatchetState S) (message : Bytes) : Prop :=
  ∀ header ciphertext, parseMessage message = .ok (header, ciphertext) → HeaderRoom s header

/-- The call returns without a fault, with what it returns in either build, and in the same
chains no counter has gone back. -/
def Returns (s : RatchetState S) (checked : Except Fault (RatchetState S × Except CryptoError Bytes))
    (called : RatchetState S × Except CryptoError Bytes) : Prop :=
  checked = .ok called ∧ (called.1.dhr = s.dhr → s.ns.toNat ≤ called.1.ns.toNat ∧ s.nr.toNat ≤ called.1.nr.toNat)

theorem encrypt_returns_iff (s : RatchetState S) (plaintext : Bytes) :
    Returns s (encrypt s plaintext) (s.encrypt plaintext) ↔ (s.cks ≠ none → s.ns.toNat + 1 < 2 ^ 32) := by
  constructor
  · rintro ⟨returned, -⟩ chain
    by_contra full
    obtain ⟨ck, chain⟩ := Option.ne_none_iff_exists'.mp chain
    rw [encrypt_overflows chain full] at returned
    cases returned
  · intro room
    refine ⟨encrypt_returns room plaintext, fun _ => ?_⟩
    rw [RatchetState.encrypt]
    cases chain : s.cks with
    | none => exact ⟨le_rfl, le_rfl⟩
    | some ck =>
      have stepped := le_succ (room (by rw [chain]; exact Option.some_ne_none ck))
      dsimp only
      split <;> exact ⟨stepped, le_rfl⟩

theorem decrypt_returns_iff (s : RatchetState S) (generated : Bytes32) (message : Bytes) :
    Returns s (decrypt s generated message) (s.decrypt generated message) ↔ ReceiveRoom s message := by
  unfold decrypt RatchetState.decrypt ReceiveRoom
  cases parsed : parseMessage message with
  | error e => exact iff_of_true ⟨rfl, fun _ => ⟨le_rfl, le_rfl⟩⟩ (by rintro _ _ ⟨⟩)
  | ok content =>
    obtain ⟨header, ciphertext⟩ := content
    dsimp only
    constructor
    · rintro ⟨returned, -⟩ header' ciphertext' same
      cases same
      by_contra full
      rw [receiveKey_overflows full] at returned
      cases returned
    · intro room
      obtain ⟨returns, onward⟩ := receiveKey_returns (room header ciphertext rfl) generated
      rw [returns]
      generalize s.receiveKey header generated = step at onward
      obtain ⟨after, e | mk⟩ := step
      · exact ⟨rfl, fun same => ⟨(onward same).ns, (onward same).nr⟩⟩
      · exact ⟨rfl, fun same => ⟨(onward same).ns, (onward same).nr⟩⟩

/-- On a restored session, sending returns a result exactly when there is no sending chain
or its counter is below `u32::MAX`. Receiving does so exactly when the message is none, or
has a banked key, or starts a new chain, or is refused for being too far ahead or finding
the store full, or leaves the counter of its chain below `u32::MAX`. -/
theorem session_calls_return_iff {blob : Bytes} {s : RatchetState S} (_restored : fromBytes S blob = .ok s) :
    (∀ plaintext, Returns s (encrypt s plaintext) (s.encrypt plaintext) ↔ (s.cks ≠ none → s.ns.toNat + 1 < 2 ^ 32)) ∧
      ∀ generated message, Returns s (decrypt s generated message) (s.decrypt generated message) ↔
        ∀ header ciphertext, parseMessage message = .ok (header, ciphertext) →
          s.skipped.lookup (header.dh, header.n) = none → s.dhr = some header.dh → s.ckr ≠ none →
          SkipFits s.skipped.keys header.dh s.nr header.n → max s.nr.toNat header.n.toNat + 1 < 2 ^ 32 :=
  ⟨encrypt_returns_iff s, decrypt_returns_iff s⟩

end

section
open Buh.Crypto

/-- A session stored with both counters at the end of their range. -/
def exhausted : RatchetState Symbolic.arrays where
  dhs := List.Vector.replicate 32 7
  dhsPub := List.Vector.replicate 32 7
  dhr := some (List.Vector.replicate 32 5)
  rk := List.Vector.replicate 32 1
  cks := some (List.Vector.replicate 32 2)
  ckr := some (List.Vector.replicate 32 3)
  ns := 0xffffffff
  nr := 0xffffffff
  pn := 0
  skipped := ∅

def fresh : RatchetState Symbolic.arrays := { exhausted with ns := 0, nr := 0 }

theorem exhausted_restored : fromBytes Symbolic.arrays (toBytes exhausted) = .ok exhausted :=
  fromBytes_toBytes Symbolic.arrays_lawful ⟨rfl, Nat.zero_le _⟩

theorem session_calls_return_fresh :
    fromBytes Symbolic.arrays (toBytes fresh) = .ok fresh ∧
      Returns fresh (encrypt fresh [1, 2, 3]) (fresh.encrypt [1, 2, 3]) := by
  have restored := fromBytes_toBytes Symbolic.arrays_lawful (s := fresh) ⟨rfl, Nat.zero_le _⟩
  exact ⟨restored, ((session_calls_return_iff restored).1 [1, 2, 3]).mpr fun _ => by decide⟩

/-- The number of this message is in the past, and nothing of it needs to be authentic. -/
def staleMessage : Bytes := (messageFrame ⟨List.Vector.replicate 32 5, 0, 0⟩ []).encode

theorem exhausted_full : ¬ReceiveRoom exhausted staleMessage := by
  intro room
  have parsed : parseMessage staleMessage = .ok (⟨List.Vector.replicate 32 5, 0, 0⟩, []) :=
    parseMessage_encode _ (by decide)
  have fits : SkipFits exhausted.skipped.keys (List.Vector.replicate 32 5) exhausted.nr 0 := by
    refine ⟨Nat.zero_le _, fun i small => ?_⟩
    rw [UInt32.toNat_zero, Nat.zero_sub] at small
    exact absurd small (Nat.not_lt_zero i)
  have below := room _ _ parsed (Finmap.lookup_empty _) rfl (Option.some_ne_none _) fits
  exact absurd below (by decide)

/-- The stored session is accepted, its sending counter overflows to zero, and so does its
receiving counter on a message that anyone could have made. -/
theorem exhausted_overflows :
    fromBytes Symbolic.arrays (toBytes exhausted) = .ok exhausted ∧
      encrypt exhausted [] = .error .overflow ∧ (exhausted.encrypt []).1.ns = 0 ∧
      ¬Returns exhausted (encrypt exhausted []) (exhausted.encrypt []) ∧
      ¬Returns exhausted (decrypt exhausted (List.Vector.replicate 32 9) staleMessage)
        (exhausted.decrypt (List.Vector.replicate 32 9) staleMessage) := by
  have sending : encrypt exhausted [] = .error .overflow := encrypt_overflows rfl (by decide) []
  refine ⟨exhausted_restored, sending, rfl, ?_, ?_⟩
  · rintro ⟨returned, -⟩
    rw [sending] at returned
    cases returned
  · rw [decrypt_returns_iff]
    exact exhausted_full

end

end Buh.Ratchet.Panics
