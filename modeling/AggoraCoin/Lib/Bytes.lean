import Mathlib

abbrev Bytes := List UInt8

/-- A byte string of exactly `n` bytes. -/
abbrev FixedBytes (n : Nat) := { bytes : Bytes // bytes.length = n }

/-- The UTF-8 bytes of a text. -/
def asBytes (text : String) : Bytes := text.toList.flatMap String.utf8EncodeChar

/-- The low `count` bytes of a number, least significant first. -/
def littleEndian : Nat → Nat → Bytes
  | 0, _ => []
  | count + 1, value => UInt8.ofNat value :: littleEndian count (value / 256)

theorem asBytes_append (a b : String) : asBytes (a ++ b) = asBytes a ++ asBytes b := by
  rw [asBytes, String.toList_append, List.flatMap_append]
  rfl

theorem asBytes_injective : Function.Injective asBytes := by
  intro a b same
  have bytes (text : String) : text.toByteArray = (asBytes text).toByteArray := by
    conv_lhs => rw [← String.ofList_toList (s := text), String.toByteArray_ofList]
    rfl
  exact String.toByteArray_inj.mp (by rw [bytes a, bytes b, same])

theorem asBytes_of_ascii {text : String} (ascii : ∀ c ∈ text.toList, c.val ≤ 127) :
    asBytes text = text.toList.map fun c => c.val.toUInt8 := by
  have one : ∀ c ∈ text.toList, String.utf8EncodeChar c = [c.val.toUInt8] := fun c member =>
    String.utf8EncodeChar_eq_singleton (Char.utf8Size_eq_one_iff.mpr (ascii c member))
  rw [asBytes, List.flatMap_congr one, List.map_eq_flatMap]

theorem length_le_utf8 (text : List Char) : text.length ≤ (text.flatMap String.utf8EncodeChar).length := by
  induction text with
  | nil => exact le_rfl
  | cons c rest ih =>
    have one : 0 < (String.utf8EncodeChar c).length := by
      rw [String.length_utf8EncodeChar]
      exact Char.utf8Size_pos c
    rw [List.flatMap_cons, List.length_append, List.length_cons]
    omega

/-- Only a newline has a newline among its bytes: the bytes of a longer character have their high bit set. -/
theorem newline_mem_utf8 {c : Char} (member : (10 : UInt8) ∈ String.utf8EncodeChar c) : c = '\n' := by
  have tagged (low mask : UInt8) {tag : UInt8} (high : 0x80 ≤ tag) : (10 : UInt8) ≠ low &&& mask ||| tag := by
    intro same
    have kept : (low &&& mask ||| tag).toNat = 10 := by rw [← same]; rfl
    have above : tag.toNat ≤ (low &&& mask ||| tag).toNat := by
      rw [UInt8.toNat_or]
      exact Nat.right_le_or
    have big : 0x80 ≤ tag.toNat := UInt8.le_iff_toNat_le.mp high
    omega
  rcases Char.utf8Size_eq c with one | two | three | four
  · rw [String.utf8EncodeChar_eq_singleton one, List.mem_singleton] at member
    have bound : c.val.toNat ≤ 127 := UInt32.le_iff_toNat_le.mp (Char.utf8Size_eq_one_iff.mp one)
    have low : (10 : Nat) = c.val.toUInt8.toNat := congrArg UInt8.toNat member
    rw [UInt32.toNat_toUInt8] at low
    refine Char.ext (UInt32.toNat_inj.mp ?_)
    change _ = 10
    omega
  · rw [String.utf8EncodeChar_eq_cons_cons two] at member
    simp only [List.mem_cons, List.not_mem_nil, or_false] at member
    rcases member with here | here
    all_goals exact absurd here (tagged _ _ (by decide))
  · rw [String.utf8EncodeChar_eq_cons_cons_cons three] at member
    simp only [List.mem_cons, List.not_mem_nil, or_false] at member
    rcases member with here | here | here
    all_goals exact absurd here (tagged _ _ (by decide))
  · rw [String.utf8EncodeChar_eq_cons_cons_cons_cons four] at member
    simp only [List.mem_cons, List.not_mem_nil, or_false] at member
    rcases member with here | here | here | here
    all_goals exact absurd here (tagged _ _ (by decide))

theorem newline_notMem_asBytes {text : String} (plain : '\n' ∉ text.toList) : (10 : UInt8) ∉ asBytes text := by
  intro member
  obtain ⟨c, inText, inBytes⟩ := List.mem_flatMap.mp member
  exact plain (newline_mem_utf8 inBytes ▸ inText)

theorem length_littleEndian (count value : Nat) : (littleEndian count value).length = count := by
  induction count generalizing value with
  | zero => rfl
  | succ count ih => rw [littleEndian, List.length_cons, ih]

theorem littleEndian_inj {count a b : Nat} (small : a < 256 ^ count) (small' : b < 256 ^ count)
    (same : littleEndian count a = littleEndian count b) : a = b := by
  induction count generalizing a b with
  | zero => omega
  | succ count ih =>
    obtain ⟨low, high⟩ := List.cons.inj same
    have lows : a % 256 = b % 256 := by
      have here := congrArg UInt8.toNat low
      rwa [UInt8.toNat_ofNat', UInt8.toNat_ofNat'] at here
    have highs := ih (Nat.div_lt_of_lt_mul (by rw [← Nat.pow_succ']; exact small))
      (Nat.div_lt_of_lt_mul (by rw [← Nat.pow_succ']; exact small')) high
    omega

namespace Hex

def digit (n : Nat) : Char := if n < 10 then Char.ofNat (48 + n) else Char.ofNat (87 + n)

def digitValue (c : Char) : Option Nat :=
  if '0' ≤ c ∧ c ≤ '9' then some (c.toNat - 48)
  else if 'a' ≤ c ∧ c ≤ 'f' then some (c.toNat - 87)
  else if 'A' ≤ c ∧ c ≤ 'F' then some (c.toNat - 55)
  else none

def pair (byte : UInt8) : List Char := [digit (byte.toNat / 16), digit (byte.toNat % 16)]

/-- Lower-case hexadecimal, two digits a byte. -/
def encode (bytes : Bytes) : String := String.ofList (bytes.flatMap pair)

def decode : List Char → Option Bytes
  | [] => some []
  | [_] => none
  | high :: low :: rest => do
    let h ← digitValue high
    let l ← digitValue low
    let bytes ← decode rest
    some (UInt8.ofNat (16 * h + l) :: bytes)

theorem digitValue_digit {n : Nat} (small : n < 16) : digitValue (digit n) = some n := by
  have all : ∀ i : Fin 16, digitValue (digit i.val) = some i.val := by decide
  exact all ⟨n, small⟩

theorem isSome_digitValue_of_mem_pair {byte : UInt8} {c : Char} (member : c ∈ pair byte) :
    (digitValue c).isSome := by
  have bound := byte.toNat_lt
  simp only [pair, List.mem_cons, List.not_mem_nil, or_false] at member
  rcases member with rfl | rfl
  · rw [digitValue_digit (by omega)]; rfl
  · rw [digitValue_digit (by omega)]; rfl

theorem toList_encode (bytes : Bytes) : (encode bytes).toList = bytes.flatMap pair :=
  String.toList_ofList

theorem length_flatMap_pair (bytes : Bytes) : (bytes.flatMap pair).length = 2 * bytes.length := by
  induction bytes with
  | nil => rfl
  | cons b rest ih =>
    simp only [List.flatMap_cons, List.length_append, ih, pair, List.length_cons, List.length_nil]
    omega

@[simp] theorem decode_flatMap_pair (bytes : Bytes) : decode (bytes.flatMap pair) = some bytes := by
  induction bytes with
  | nil => rfl
  | cons b rest ih =>
    have bound := b.toNat_lt
    have joined : UInt8.ofNat (16 * (b.toNat / 16) + b.toNat % 16) = b := by
      rw [Nat.div_add_mod]
      exact UInt8.ofNat_toNat
    simp only [List.flatMap_cons, pair, List.cons_append, List.nil_append, decode,
      digitValue_digit (show b.toNat / 16 < 16 by omega),
      digitValue_digit (show b.toNat % 16 < 16 by omega), Option.bind_eq_bind, Option.bind_some, joined]
    rw [ih]
    rfl

theorem ascii_of_mem_pair {byte : UInt8} {c : Char} (member : c ∈ pair byte) : c.val ≤ 127 := by
  have ascii {n : Nat} (small : n < 16) : (digit n).val ≤ 127 := by
    have all : ∀ i : Fin 16, (digit i.val).val ≤ 127 := by decide
    exact all ⟨n, small⟩
  have bound := byte.toNat_lt
  simp only [pair, List.mem_cons, List.not_mem_nil, or_false] at member
  rcases member with rfl | rfl
  · exact ascii (by omega)
  · exact ascii (by omega)

theorem length_asBytes_encode (bytes : Bytes) : (asBytes (encode bytes)).length = 2 * bytes.length := by
  rw [asBytes_of_ascii, List.length_map, toList_encode, length_flatMap_pair]
  intro c member
  rw [toList_encode] at member
  obtain ⟨byte, _, inPair⟩ := List.mem_flatMap.mp member
  exact ascii_of_mem_pair inPair

theorem encode_injective : Function.Injective encode := by
  intro a b same
  have chars := congrArg String.toList same
  rw [toList_encode, toList_encode] at chars
  have decoded := congrArg decode chars
  simpa only [decode_flatMap_pair, Option.some.injEq] using decoded

end Hex
