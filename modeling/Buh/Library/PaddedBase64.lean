import Buh.Library.Base64

/-! Base64 with padding. The strict reader takes one spelling of each byte string. The
forgiving one, of browsers, takes spaces and does without padding and clean last bits. -/

namespace Buh.Library.PaddedBase64
open Buh.Library.Base64

def alphabet : List Char := Base64.alphabet.take 62 ++ ['+', '/']

def symbol (value : Nat) : Char := alphabet.getD value 'A'

def symbolValue (symbol : Char) : Option Nat := alphabet.findIdx? (fun other => other = symbol)

/-- What fills `length` symbols up to groups of four. -/
def padding (length : Nat) : List Char := List.replicate ((4 - length % 4) % 4) '='

def encode (bytes : List UInt8) : List Char :=
  let body := (sextets bytes).map symbol
  body ++ padding body.length

def decode (text : List Char) : Option (List UInt8) :=
  let body := text.takeWhile (fun c => c ≠ '=')
  if text = body ++ padding body.length then (body.mapM symbolValue).bind unsextets else none

/-- `unsextets`, whatever the bits left over. -/
def unsextetsLoose : List Nat → Option (List UInt8)
  | [] => some []
  | [_] => none
  | [x, y] => some [UInt8.ofNat (x * 4 + y / 16)]
  | [x, y, z] => some [UInt8.ofNat (x * 4 + y / 16), UInt8.ofNat (y % 16 * 16 + z / 4)]
  | x :: y :: z :: w :: rest =>
    (unsextetsLoose rest).map (fun bytes =>
      UInt8.ofNat (x * 4 + y / 16) :: UInt8.ofNat (y % 16 * 16 + z / 4) :: UInt8.ofNat (z % 4 * 64 + w) :: bytes)

def isSpace (c : Char) : Bool := c = '\t' ∨ c = '\n' ∨ c = '\x0c' ∨ c = '\r' ∨ c = ' '

def dropPadding (text : List Char) : List Char :=
  if text.getLast? = some '=' then text.dropLast else text

def forgivingDecode (text : List Char) : Option (List UInt8) :=
  let clean := text.filter (fun c => !isSpace c)
  let body := if clean.length % 4 = 0 then dropPadding (dropPadding clean) else clean
  (body.mapM symbolValue).bind unsextetsLoose

theorem symbol_spec {value : Nat} (small : value < 64) :
    symbolValue (symbol value) = some value ∧ symbol value ≠ '=' ∧ isSpace (symbol value) = false := by
  have all : ∀ value : Fin 64, symbolValue (symbol value) = some value.val ∧ symbol value ≠ '=' ∧
      isSpace (symbol value) = false := by decide
  exact all ⟨value, small⟩

theorem symbol_symbolValue {c : Char} {value : Nat} (read : symbolValue c = some value) :
    value < 64 ∧ symbol value = c := by
  obtain ⟨bound, found, _⟩ := List.findIdx?_eq_some_iff_getElem.mp read
  have long : alphabet.length = 64 := by decide
  refine ⟨long ▸ bound, ?_⟩
  rw [symbol, List.getD_eq_getElem?_getD, List.getElem?_eq_getElem bound]
  exact of_decide_eq_true found

theorem mapM_symbolValue {values : List Nat} (small : ∀ value ∈ values, value < 64) :
    (values.map symbol).mapM symbolValue = some values := by
  induction values with
  | nil => rfl
  | cons value rest ih =>
    have first := (symbol_spec (small value List.mem_cons_self)).1
    have others := ih (fun other member => small other (List.mem_cons_of_mem _ member))
    rw [List.map_cons, List.mapM_cons, first, others]
    rfl

theorem map_symbol_of_mapM {body : List Char} {values : List Nat} (read : body.mapM symbolValue = some values) :
    body = values.map symbol ∧ ∀ value ∈ values, value < 64 := by
  induction body generalizing values with
  | nil =>
    cases read
    exact ⟨rfl, fun _ absent => absurd absent List.not_mem_nil⟩
  | cons c body ih =>
    rw [List.mapM_cons] at read
    obtain ⟨value, here, rest⟩ := Option.bind_eq_some_iff.mp read
    obtain ⟨values, there, done⟩ := Option.bind_eq_some_iff.mp rest
    cases done
    obtain ⟨small, same⟩ := symbol_symbolValue here
    obtain ⟨rfl, others⟩ := ih there
    exact ⟨by rw [List.map_cons, same], List.forall_mem_cons.mpr ⟨small, others⟩⟩

theorem toNat_ofNat_small {value : Nat} (small : value < 256) : (UInt8.ofNat value).toNat = value := by
  rw [UInt8.toNat_ofNat', Nat.mod_eq_of_lt small]

/-- Values that make bytes are the ones the bytes make. -/
theorem sextets_unsextets {values : List Nat} {bytes : List UInt8} (small : ∀ value ∈ values, value < 64)
    (read : unsextets values = some bytes) : sextets bytes = values := by
  induction values using unsextets.induct generalizing bytes with
  | case1 =>
    cases read
    rfl
  | case2 => cases read
  | case3 x y clean =>
    obtain ⟨hx, hy⟩ : x < 64 ∧ y < 64 := by simpa using small
    rw [unsextets, if_pos clean] at read
    cases read
    rw [sextets, toNat_ofNat_small (by omega)]
    congr 1
    · omega
    · congr 1
      omega
  | case4 x y dirty =>
    rw [unsextets, if_neg dirty] at read
    cases read
  | case5 x y z clean =>
    obtain ⟨hx, hy, hz⟩ : x < 64 ∧ y < 64 ∧ z < 64 := by simpa using small
    rw [unsextets, if_pos clean] at read
    cases read
    rw [sextets, toNat_ofNat_small (by omega), toNat_ofNat_small (by omega)]
    congr 1
    · omega
    · congr 1
      · omega
      · congr 1
        omega
  | case6 x y z dirty =>
    rw [unsextets, if_neg dirty] at read
    cases read
  | case7 x y z w rest ih =>
    obtain ⟨hx, hy, hz, hw, others⟩ : x < 64 ∧ y < 64 ∧ z < 64 ∧ w < 64 ∧ ∀ value ∈ rest, value < 64 := by
      simpa using small
    obtain ⟨tail, readRest, rfl⟩ := Option.map_eq_some_iff.mp read
    rw [sextets, toNat_ofNat_small (by omega), toNat_ofNat_small (by omega), toNat_ofNat_small (by omega),
      ih others readRest]
    congr 1
    · omega
    · congr 1
      · omega
      · congr 1
        · omega
        · congr 1
          omega

theorem takeWhile_padding {body : List Char} (plain : ∀ c ∈ body, c ≠ '=') (length : Nat) :
    (body ++ padding length).takeWhile (fun c => c ≠ '=') = body := by
  rw [List.takeWhile_append_of_pos (fun c member => decide_eq_true (plain c member))]
  have none_ : (padding length).takeWhile (fun c => c ≠ '=') = [] := by
    rw [padding]
    cases (4 - length % 4) % 4 <;> simp [List.replicate_succ]
  rw [none_, List.append_nil]

theorem body_plain {values : List Nat} (small : ∀ value ∈ values, value < 64) :
    ∀ c ∈ values.map symbol, c ≠ '=' ∧ isSpace c = false := by
  intro c member
  obtain ⟨value, inside, rfl⟩ := List.mem_map.mp member
  exact (symbol_spec (small value inside)).2

/-- A byte string has one text. -/
theorem decode_eq_some {text : List Char} {bytes : List UInt8} : decode text = some bytes ↔ text = encode bytes := by
  simp only [decode]
  constructor
  · intro read
    split at read
    · next shape =>
      obtain ⟨values, symbols, read⟩ := Option.bind_eq_some_iff.mp read
      obtain ⟨same, small⟩ := map_symbol_of_mapM symbols
      rw [encode, sextets_unsextets small read, ← same]
      exact shape
    · cases read
  · rintro rfl
    have plain := body_plain (sextets_lt bytes)
    have body : (encode bytes).takeWhile (fun c => c ≠ '=') = (sextets bytes).map symbol :=
      takeWhile_padding (fun c member => (plain c member).1) _
    have shape : encode bytes = (sextets bytes).map symbol ++ padding ((sextets bytes).map symbol).length := rfl
    rw [body, if_pos shape, mapM_symbolValue (sextets_lt bytes), Option.bind_some, unsextets_sextets]

theorem unsextetsLoose_of_unsextets {values : List Nat} {bytes : List UInt8} (read : unsextets values = some bytes) :
    unsextetsLoose values = some bytes := by
  induction values using unsextets.induct generalizing bytes with
  | case1 => exact read
  | case2 => exact read
  | case3 x y clean =>
    rw [unsextets, if_pos clean] at read
    exact read
  | case4 x y dirty =>
    rw [unsextets, if_neg dirty] at read
    cases read
  | case5 x y z clean =>
    rw [unsextets, if_pos clean] at read
    exact read
  | case6 x y z dirty =>
    rw [unsextets, if_neg dirty] at read
    cases read
  | case7 x y z w rest ih =>
    obtain ⟨tail, readRest, rfl⟩ := Option.map_eq_some_iff.mp read
    rw [unsextetsLoose, ih readRest]
    rfl

theorem dropPadding_plain {body : List Char} (plain : ∀ c ∈ body, c ≠ '=') : dropPadding body = body := by
  rw [dropPadding, if_neg]
  intro last
  exact plain '=' (List.mem_of_getLast? last) rfl

theorem dropPadding_concat (body : List Char) : dropPadding (body ++ ['=']) = body := by
  rw [dropPadding, if_pos List.getLast?_concat, List.dropLast_concat]

theorem sextets_length (bytes : List UInt8) : (sextets bytes).length % 4 ≠ 1 := by
  fun_induction sextets bytes with
  | case1 => decide
  | case2 a => simp
  | case3 a b => simp
  | case4 a b c rest ih =>
    simp only [List.length_cons]
    omega

/-- At most two symbols of padding are taken off again. -/
theorem dropPadding_padding {body : List Char} (plain : ∀ c ∈ body, c ≠ '=') (length : body.length % 4 ≠ 1) :
    dropPadding (dropPadding (body ++ padding body.length)) = body := by
  have few : (4 - body.length % 4) % 4 = 0 ∨ (4 - body.length % 4) % 4 = 1 ∨ (4 - body.length % 4) % 4 = 2 := by omega
  rw [padding]
  rcases few with none_ | one | two
  · rw [none_, List.replicate_zero, List.append_nil, dropPadding_plain plain, dropPadding_plain plain]
  · rw [one]
    change dropPadding (dropPadding (body ++ ['='])) = body
    rw [dropPadding_concat, dropPadding_plain plain]
  · rw [two]
    change dropPadding (dropPadding (body ++ (['='] ++ ['=']))) = body
    rw [← List.append_assoc, dropPadding_concat, dropPadding_concat]

theorem forgivingDecode_encode (bytes : List UInt8) : forgivingDecode (encode bytes) = some bytes := by
  have plain := body_plain (sextets_lt bytes)
  have body : ((sextets bytes).map symbol).length % 4 ≠ 1 := by
    rw [List.length_map]
    exact sextets_length bytes
  have clean : (encode bytes).filter (fun c => !isSpace c) = encode bytes := by
    rw [List.filter_eq_self]
    intro c member
    rcases List.mem_append.mp member with inBody | inPadding
    · rw [(plain c inBody).2]
      rfl
    · rw [List.eq_of_mem_replicate inPadding]
      rfl
  have whole : (encode bytes).length % 4 = 0 := by
    simp only [encode, padding, List.length_append, List.length_replicate]
    omega
  simp only [forgivingDecode, clean, whole, if_true]
  rw [encode, dropPadding_padding (fun c member => (plain c member).1) body, mapM_symbolValue (sextets_lt bytes),
    Option.bind_some, unsextetsLoose_of_unsextets (unsextets_sextets bytes)]

theorem mem_encode {bytes : List UInt8} {c : Char} (member : c ∈ encode bytes) :
    c = '=' ∨ ∃ value : Fin 64, c = symbol value.val := by
  rcases List.mem_append.mp member with inBody | inPadding
  · obtain ⟨value, inside, rfl⟩ := List.mem_map.mp inBody
    exact Or.inr ⟨⟨value, sextets_lt bytes value inside⟩, rfl⟩
  · exact Or.inl (List.eq_of_mem_replicate inPadding)

end Buh.Library.PaddedBase64
