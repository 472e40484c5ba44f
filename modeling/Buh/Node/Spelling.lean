import Buh.Library.Trimming
import Buh.Node.Trust

/-! The spellings of a fingerprint in the peer trust registry. What is stored has been
normalised, and every later call normalises its argument again. -/

namespace Buh.Node.Spelling
open Buh.Library.RowTable Buh.Library.Trimming Buh.Node.Trust

/-- `char::is_whitespace`: the Unicode property `White_Space`. -/
def isWhitespace (c : Char) : Bool :=
  decide (0x9 ≤ c.toNat ∧ c.toNat ≤ 0xD) || decide (0x2000 ≤ c.toNat ∧ c.toNat ≤ 0x200A) ||
    [0x20, 0x85, 0xA0, 0x1680, 0x2028, 0x2029, 0x202F, 0x205F, 0x3000].contains c.toNat

/-- What the standard library promises: `trim` takes the whitespace off both ends, and the
lower case of a character is at least one character, in lower case already, with whitespace
for whitespace alone and a colon for the colon alone. -/
structure Laws (unicode : Unicode) : Prop where
  trim : ∀ text, unicode.trim text = trim isWhitespace text
  nonempty : ∀ c, unicode.toLowercase c ≠ []
  lowered : ∀ c, ∀ d ∈ unicode.toLowercase c, unicode.toLowercase d = [d]
  whitespace : ∀ c, ∀ d ∈ unicode.toLowercase c, isWhitespace d = isWhitespace c
  colon : ∀ c, ':' ∈ unicode.toLowercase c → c = ':'

/-- A colon hides whitespace from `trim`: nothing but colons and whitespace stands in front
of it, and something else than whitespace behind it. -/
def Shields (text : List Char) : Prop :=
  ∃ before space after, text = before ++ space :: after ∧ isWhitespace space = true ∧ ':' ∈ before ∧
    (∀ c ∈ before, c = ':' ∨ isWhitespace c = true) ∧ ∃ c ∈ after, isWhitespace c = false

/-- So at neither end. -/
def Tidy (text : List Char) : Prop := ¬Shields text ∧ ¬Shields text.reverse

/-- A call that writes to the registry. -/
inductive Call where
  | trust (caFingerprint : List Char) (note : Option (List Char)) (now : Int)
  | distrust (caFingerprint : List Char)

def Call.apply (unicode : Unicode) (registry : Table TrustedPeer) : Call → Table TrustedPeer
  | .trust caFingerprint note now => Registry.trust unicode registry caFingerprint note now
  | .distrust caFingerprint => (Registry.distrust unicode registry caFingerprint).1

/-- The registry that the calls lead to. -/
def after (unicode : Unicode) (calls : List Call) : Table TrustedPeer := calls.foldl (Call.apply unicode) Table.empty

/-- What is trusted is spelled without hidden whitespace. -/
def Call.Tidy : Call → Prop
  | .trust caFingerprint _ _ => Spelling.Tidy caFingerprint
  | .distrust _ => True

/-! One pass and a second. -/

theorem shielded_of_head {text : List Char}
    (head : ((trim isWhitespace text).filter (fun c => c ≠ ':')).head?.any isWhitespace = true) : Shields text := by
  obtain ⟨front, back, whole, before, behind, clear⟩ := trim_spec (p := isWhitespace) text
  cases kept : (trim isWhitespace text).filter (fun c => c ≠ ':') with
  | nil =>
    rw [kept] at head
    cases head
  | cons space rest =>
    rw [kept] at head
    have white : isWhitespace space = true := head
    obtain ⟨colons, others, parts, dropped, _, _⟩ := List.filter_eq_cons_iff.mp kept
    have colon : ∀ c ∈ colons, c = ':' := fun c member => by simpa using dropped c member
    rw [parts] at whole clear
    refine ⟨front ++ colons, space, others ++ back, ?_, white, ?_, ?_, ?_⟩
    · rw [whole]
      simp only [List.append_assoc, List.cons_append]
    · -- the trimmed text does not begin with the whitespace itself
      cases colons with
      | nil =>
        have first : isWhitespace space = false := clear.1
        rw [white] at first
        cases first
      | cons first rest =>
        obtain rfl := colon first List.mem_cons_self
        exact List.mem_append_right _ List.mem_cons_self
    · intro c member
      rcases List.mem_append.mp member with outer | inner
      · exact .inr (before c outer)
      · exact .inl (colon c inner)
    · -- nor does it end with it
      rcases List.eq_nil_or_concat others with rfl | ⟨rest, last, rfl⟩
      · have ends := clear.2
        rw [List.getLast?_concat, Option.any_some, white] at ends
        cases ends
      · have ends := clear.2
        rw [List.concat_eq_append, ← List.cons_append, ← List.append_assoc, List.getLast?_concat, Option.any_some] at ends
        exact ⟨last, by simp, ends⟩

theorem not_colon_of_white {c : Char} (white : isWhitespace c = true) : c ≠ ':' := by
  rintro rfl
  revert white
  decide

theorem head_of_shielded {text : List Char} (shields : Shields text) :
    ((trim isWhitespace text).filter (fun c => c ≠ ':')).head?.any isWhitespace = true := by
  obtain ⟨before, space, after, whole, white, colon, only, others⟩ := shields
  obtain ⟨front, first, rest, rfl, outer, nonwhite⟩ := split_first (p := isWhitespace) ⟨':', colon, by decide⟩
  obtain ⟨rest', last, back, rfl, behind, nonwhite'⟩ := split_last others
  obtain rfl : first = ':' := by
    rcases only first (by simp) with same | white'
    · exact same
    · rw [nonwhite] at white'
      cases white'
  have clear : Clear isWhitespace (':' :: rest ++ space :: rest' ++ [last]) := by
    refine ⟨nonwhite, ?_⟩
    rw [List.getLast?_concat]
    exact nonwhite'
  have parts : text = front ++ (':' :: rest ++ space :: rest' ++ [last]) ++ back := by
    rw [whole]
    simp only [List.append_assoc, List.cons_append, List.nil_append]
  have space_kept : decide (space ≠ ':') = true := decide_eq_true (not_colon_of_white white)
  rw [parts, trim_surrounded outer behind clear, List.append_assoc, List.filter_append]
  cases kept : (':' :: rest).filter (fun c => c ≠ ':') with
  | nil =>
    rw [List.nil_append, List.cons_append, List.filter_cons, if_pos space_kept]
    exact white
  | cons c more =>
    have member : c ∈ (':' :: rest).filter (fun c => c ≠ ':') := kept ▸ List.mem_cons_self
    obtain ⟨inside, other⟩ := List.mem_filter.mp member
    rcases only c (List.mem_append_right front inside) with same | white'
    · exact absurd same (of_decide_eq_true other)
    · exact white'

theorem head_shielded_iff {text : List Char} :
    ((trim isWhitespace text).filter (fun c => c ≠ ':')).head?.any isWhitespace = true ↔ Shields text :=
  ⟨shielded_of_head, head_of_shielded⟩

theorem kept_clear_iff {text : List Char} :
    Clear isWhitespace ((trim isWhitespace text).filter (fun c => c ≠ ':')) ↔ Tidy text := by
  rw [Clear, Tidy, ← head_shielded_iff, ← head_shielded_iff, trim_reverse, List.filter_reverse, List.head?_reverse,
    Bool.not_eq_true, Bool.not_eq_true]

section
variable {unicode : Unicode} (laws : Laws unicode)
include laws

theorem mem_normalize {text : List Char} {c : Char} (member : c ∈ normalize unicode text) :
    c ≠ ':' ∧ unicode.toLowercase c = [c] := by
  obtain ⟨upper, kept, lower⟩ := List.mem_flatMap.mp member
  obtain ⟨_, other⟩ := List.mem_filter.mp kept
  refine ⟨?_, laws.lowered upper c lower⟩
  rintro rfl
  exact of_decide_eq_true other (laws.colon upper lower)

/-- A second pass only trims. -/
theorem normalize_normalize (text : List Char) :
    normalize unicode (normalize unicode text) = trim isWhitespace (normalize unicode text) := by
  have inside : ∀ c ∈ trim isWhitespace (normalize unicode text), c ≠ ':' ∧ unicode.toLowercase c = [c] := by
    intro c member
    obtain ⟨front, back, whole, _⟩ := trim_spec (p := isWhitespace) (normalize unicode text)
    apply mem_normalize laws
    rw [whole]
    exact List.mem_append_left _ (List.mem_append_right _ member)
  have kept : (trim isWhitespace (normalize unicode text)).filter (fun c => c ≠ ':') =
      trim isWhitespace (normalize unicode text) :=
    List.filter_eq_self.mpr fun c member => decide_eq_true (inside c member).1
  rw [Trust.normalize, laws.trim, kept]
  calc
    _ = (trim isWhitespace (normalize unicode text)).flatMap (fun c => [c]) :=
      List.flatMap_congr fun c member => (inside c member).2
    _ = _ := List.flatMap_singleton' _

/-- Exactly the tidy spellings have a normal form that is its own. -/
theorem normalize_fixed_iff (text : List Char) :
    normalize unicode (normalize unicode text) = normalize unicode text ↔ Tidy text := by
  rw [normalize_normalize laws, trim_eq_self_iff, Trust.normalize, clear_flatMap laws.nonempty laws.whitespace, laws.trim,
    kept_clear_iff]

end

/-! The registry. -/

section
variable {unicode : Unicode}

theorem isTrusted_iff {registry : Table TrustedPeer} {text : List Char} :
    Registry.isTrusted unicode registry text = true ↔ normalize unicode text ∈ fingerprints registry := by
  rw [Registry.isTrusted, List.any_eq_true, mem_fingerprints]
  simp only [decide_eq_true_eq]

theorem distrusted_iff {registry : Table TrustedPeer} {text : List Char} :
    (Registry.distrust unicode registry text).2 = true ↔ normalize unicode text ∈ fingerprints registry := by
  rw [← isTrusted_iff, Registry.isTrusted, List.any_eq_true]
  change decide (0 < registry.contents.countP _) = true ↔ _
  rw [decide_eq_true_eq, List.countP_pos_iff]

/-- One row for each fingerprint. -/
def Distinct (registry : Table TrustedPeer) : Prop := (registry.contents.map TrustedPeer.caFingerprint).Nodup

theorem apply_distinct {registry : Table TrustedPeer} (distinct : Distinct registry) (call : Call) :
    Distinct (call.apply unicode registry) := by
  cases call with
  | trust caFingerprint note now =>
    simp only [Call.apply, Registry.trust, Distinct]
    split_ifs with known
    · rw [Table.contents_update, List.map_map]
      have same : (TrustedPeer.caFingerprint ∘ fun peer : TrustedPeer =>
          if decide (peer.caFingerprint = normalize unicode caFingerprint) = true then { peer with note } else peer) =
          TrustedPeer.caFingerprint := by
        funext peer
        simp only [Function.comp_apply]
        split_ifs <;> rfl
      rw [same]
      exact distinct
    · have fresh : normalize unicode caFingerprint ∉ registry.contents.map TrustedPeer.caFingerprint := by
        intro member
        obtain ⟨peer, stored, named⟩ := List.mem_map.mp member
        exact known (List.any_eq_true.mpr ⟨peer, stored, decide_eq_true named⟩)
      rw [Table.contents_insert, List.map_append, List.map_singleton, ← List.concat_eq_append]
      exact distinct.concat fresh
  | distrust caFingerprint =>
    simp only [Call.apply, Registry.distrust, Distinct]
    rw [Table.contents_delete]
    exact distinct.sublist (List.filter_sublist.map _)

/-- What every step keeps holds after any calls. -/
theorem after_induction {keeps : Table TrustedPeer → Prop} (empty : keeps Table.empty) {calls : List Call}
    (step : ∀ registry, keeps registry → ∀ call ∈ calls, keeps (call.apply unicode registry)) :
    keeps (after unicode calls) := by
  induction calls using List.reverseRecOn with
  | nil => exact empty
  | append_singleton calls call ih =>
    rw [after, List.foldl_concat]
    refine step _ (ih ?_) call (by simp)
    intro registry kept earlier member
    exact step registry kept earlier (List.mem_append_left _ member)

/-- Every fingerprint of the registry is its own normal form. -/
def Fixed (unicode : Unicode) (registry : Table TrustedPeer) : Prop :=
  ∀ fp ∈ fingerprints registry, normalize unicode fp = fp

theorem apply_fixed (laws : Laws unicode) {registry : Table TrustedPeer} (fixed : Fixed unicode registry) {call : Call}
    (tidy : call.Tidy) : Fixed unicode (call.apply unicode registry) := by
  intro fp member
  cases call with
  | trust caFingerprint note now =>
    rw [Call.apply, fingerprints_trust, Finset.mem_insert] at member
    rcases member with rfl | earlier
    · exact (normalize_fixed_iff laws caFingerprint).mpr tidy
    · exact fixed fp earlier
  | distrust caFingerprint =>
    rw [Call.apply, fingerprints_distrust] at member
    exact fixed fp (Finset.mem_of_mem_erase member)

/-- A normal form is final exactly for the tidy spellings. After any calls that trust those
alone, what the registry lists it also trusts, and can be made to distrust, under the name it
lists; after any calls at all, spellings share an entry exactly with their normal form. -/
theorem registry_respects_normal_forms (laws : Laws unicode) :
    (∀ text, normalize unicode (normalize unicode text) = normalize unicode text ↔ Tidy text) ∧
      (∀ calls, (∀ call ∈ calls, call.Tidy) → ∀ peer ∈ Registry.list (after unicode calls),
        Registry.isTrusted unicode (after unicode calls) peer.caFingerprint = true ∧
          (Registry.distrust unicode (after unicode calls) peer.caFingerprint).2 = true ∧
          ∀ other ∈ Registry.list (Registry.distrust unicode (after unicode calls) peer.caFingerprint).1,
            other.caFingerprint ≠ peer.caFingerprint) ∧
      ∀ calls, Distinct (after unicode calls) ∧ ∀ text other,
        (∀ note now, Registry.isTrusted unicode (Registry.trust unicode (after unicode calls) text note now) other = true ↔
          normalize unicode text = normalize unicode other ∨
            Registry.isTrusted unicode (after unicode calls) other = true) ∧
        (Registry.isTrusted unicode (Registry.distrust unicode (after unicode calls) text).1 other = true ↔
          normalize unicode text ≠ normalize unicode other ∧
            Registry.isTrusted unicode (after unicode calls) other = true) := by
  refine ⟨normalize_fixed_iff laws, ?_, ?_⟩
  · intro calls tidy peer listed
    have fixed : Fixed unicode (after unicode calls) := by
      apply after_induction
      · intro fp member
        cases member
      · intro registry kept call member
        exact apply_fixed laws kept (tidy call member)
    have member : peer.caFingerprint ∈ fingerprints (after unicode calls) :=
      mem_fingerprints.mpr ⟨peer, mem_list.mp listed, rfl⟩
    have same := fixed _ member
    refine ⟨isTrusted_iff.mpr ?_, distrusted_iff.mpr ?_, ?_⟩
    · rwa [same]
    · rwa [same]
    · intro other remains named
      have left := mem_fingerprints.mpr ⟨other, mem_list.mp remains, named⟩
      rw [fingerprints_distrust, same] at left
      exact Finset.notMem_erase _ _ left
  · intro calls
    have distinct : Distinct (after unicode calls) :=
      after_induction List.nodup_nil fun registry kept call _ => apply_distinct kept call
    refine ⟨distinct, fun text other => ⟨fun note now => ?_, ?_⟩⟩
    · rw [isTrusted_iff, isTrusted_iff, fingerprints_trust, Finset.mem_insert, eq_comm]
    · rw [isTrusted_iff, isTrusted_iff, fingerprints_distrust, Finset.mem_erase, ne_comm]

end

/-- The full whitespace and the lower case of ASCII. -/
def plainUnicode : Unicode := ⟨trim isWhitespace, fun c => [c.toLower]⟩

theorem toLower_cases (c : Char) :
    c.toLower = c ∨ 65 ≤ c.toNat ∧ c.toNat ≤ 90 ∧ c.toLower.toNat = c.toNat + 32 := by
  unfold Char.toLower
  split
  · next upper =>
    have low : 65 ≤ c.val.toNat := UInt32.le_iff_toNat_le.mp upper.1
    have high : c.val.toNat ≤ 90 := UInt32.le_iff_toNat_le.mp upper.2
    refine .inr ⟨low, high, ?_⟩
    change (c.val + 32).toNat = c.val.toNat + 32
    have step : (32 : UInt32).toNat = 32 := rfl
    rw [UInt32.toNat_add, step]
    omega
  · exact .inl rfl

theorem visible_not_white {c : Char} (low : 33 ≤ c.toNat) (high : c.toNat < 128) : isWhitespace c = false := by
  by_contra white
  rw [Bool.not_eq_false, isWhitespace, Bool.or_eq_true, Bool.or_eq_true, decide_eq_true_iff, decide_eq_true_iff,
    List.contains_iff_mem] at white
  simp only [List.mem_cons, List.not_mem_nil, or_false] at white
  omega

theorem plainUnicode_laws : Laws plainUnicode where
  trim _ := rfl
  nonempty c := List.cons_ne_nil _ _
  lowered := by
    intro c d lower
    obtain rfl := List.mem_singleton.mp lower
    change [c.toLower.toLower] = _
    rcases toLower_cases c with same | ⟨low, high, lowered⟩
    · rw [same, same]
    · rcases toLower_cases c.toLower with same | ⟨_, high', _⟩
      · rw [same]
      · omega
  whitespace := by
    intro c d lower
    obtain rfl := List.mem_singleton.mp lower
    rcases toLower_cases c with same | ⟨low, high, lowered⟩
    · rw [same]
    · rw [visible_not_white (by omega) (by omega), visible_not_white (by omega) (by omega)]
  colon := by
    intro c lower
    have same := List.mem_singleton.mp lower
    rcases toLower_cases c with unchanged | ⟨low, high, lowered⟩
    · rw [← unchanged, same]
    · rw [← same] at lowered
      change 58 = c.toNat + 32 at lowered
      omega

theorem respects_normal_forms_sample :
    Tidy " A:b ".toList ∧ ∃ peer ∈ Registry.list (after plainUnicode [.trust " A:b ".toList none 0]),
      peer.caFingerprint = "ab".toList ∧
        Registry.isTrusted plainUnicode (after plainUnicode [.trust " A:b ".toList none 0]) peer.caFingerprint = true := by
  obtain ⟨projects, respects, _⟩ := registry_respects_normal_forms plainUnicode_laws
  have tidy : Tidy " A:b ".toList := (projects _).mp (by decide)
  have listed : ⟨"ab".toList, none, 0⟩ ∈ Registry.list (after plainUnicode [.trust " A:b ".toList none 0]) :=
    mem_list.mpr (by decide)
  refine ⟨tidy, _, listed, rfl, (respects _ ?_ _ listed).1⟩
  intro call member
  obtain rfl := List.mem_singleton.mp member
  exact tidy

/-- A space behind the first colon is stored, and taken off whatever is looked up. -/
theorem shielded_space_is_lost :
    normalize plainUnicode (normalize plainUnicode ": a".toList) ≠ normalize plainUnicode ": a".toList ∧
      ∃ peer ∈ Registry.list (after plainUnicode [.trust ": a".toList none 0]), peer.caFingerprint = " a".toList ∧
        Registry.isTrusted plainUnicode (after plainUnicode [.trust ": a".toList none 0]) peer.caFingerprint = false ∧
        (Registry.distrust plainUnicode (after plainUnicode [.trust ": a".toList none 0]) peer.caFingerprint).2 = false := by
  have listed : ⟨" a".toList, none, 0⟩ ∈ Registry.list (after plainUnicode [.trust ": a".toList none 0]) :=
    mem_list.mpr (by decide)
  exact ⟨by decide, _, listed, by decide, by decide, by decide⟩

end Buh.Node.Spelling
