import AggoraCoin.Lib.Base64
import AggoraCoin.Types

namespace AggoraCoin

/-- What a struct looks like to `serde_json`: an object keeps its fields in declaration order. -/
inductive Json
  | num (value : Int)
  | float (text : String)
  | str (text : String)
  | arr (items : List Json)
  | obj (fields : List (String × Json))

/-- The third-party primitives: the `blake3`, `serde_json` and `ed25519_dalek` crates. -/
structure Crypto where
  blake3 : Bytes → FixedBytes 32
  /-- `serde_json::to_vec` -/
  toVec : Json → Bytes
  /-- `SigningKey::verifying_key` -/
  verifyingKey : FixedBytes 32 → FixedBytes 32
  sign : FixedBytes 32 → Bytes → FixedBytes 64
  /-- `VerifyingKey::from_bytes` accepts these bytes as a curve point. -/
  validKey : FixedBytes 32 → Bool
  verify : FixedBytes 32 → Bytes → FixedBytes 64 → Bool

/-- The Unicode `White_Space` property, which `str::trim` strips. -/
def isWhitespace (c : Char) : Bool :=
  (9 ≤ c.toNat && c.toNat ≤ 13) || c.toNat = 0x20 || c.toNat = 0x85 || c.toNat = 0xA0 ||
    c.toNat = 0x1680 || (0x2000 ≤ c.toNat && c.toNat ≤ 0x200A) || c.toNat = 0x2028 ||
    c.toNat = 0x2029 || c.toNat = 0x202F || c.toNat = 0x205F || c.toNat = 0x3000

def trim (text : String) : List Char := (text.toList.dropWhile isWhitespace).rdropWhile isWhitespace

def isAsciiHexdigit (c : Char) : Bool := (Hex.digitValue c).isSome

/-- The byte length of the text only matters when every character is a hex digit,
where it is the number of characters. -/
def decodeBytes (input : String) : Except String Bytes :=
  let trimmed := trim input
  if trimmed.isEmpty then .error "empty bytes"
  else if trimmed.length % 2 = 0 ∧ trimmed.all isAsciiHexdigit then
    match Hex.decode trimmed with
    | some bytes => .ok bytes
    | none => .error "hex decode failed"
  else
    match (Base64.decodeStandard trimmed).or (Base64.decodeUrlSafeNoPad trimmed) with
    | some bytes => .ok bytes
    | none => .error "base64 decode failed"

def wrongLength (expected got : Nat) : String :=
  "expected " ++ toString expected ++ " bytes, got " ++ toString got

/-- `fixed_32` and `fixed_64`. -/
def fixedBytes (expected : Nat) (input : String) : Except String (FixedBytes expected) :=
  match decodeBytes input with
  | .error e => .error e
  | .ok bytes =>
    if sized : bytes.length = expected then .ok ⟨bytes, sized⟩
    else .error (wrongLength expected bytes.length)

def fixed32 (input : String) : Except String (FixedBytes 32) := fixedBytes 32 input

def fixed64 (input : String) : Except String (FixedBytes 64) := fixedBytes 64 input

def normalizeBytesToHex (input : String) (expectedLen : Nat) : Except String String :=
  match decodeBytes input with
  | .error e => .error e
  | .ok bytes =>
    if bytes.length = expectedLen then .ok (Hex.encode bytes)
    else .error (wrongLength expectedLen bytes.length)

theorem digit_not_whitespace {n : Nat} (small : n < 16) : isWhitespace (Hex.digit n) = false := by
  have all : ∀ i : Fin 16, isWhitespace (Hex.digit i.val) = false := by decide
  exact all ⟨n, small⟩

theorem not_whitespace_of_mem_pairs {bytes : Bytes} {c : Char} (member : c ∈ bytes.flatMap Hex.pair) :
    isWhitespace c = false := by
  obtain ⟨byte, _, inPair⟩ := List.mem_flatMap.mp member
  have bound := byte.toNat_lt
  simp only [Hex.pair, List.mem_cons, List.not_mem_nil, or_false] at inPair
  rcases inPair with rfl | rfl
  · exact digit_not_whitespace (by omega)
  · exact digit_not_whitespace (by omega)

theorem trim_encode (bytes : Bytes) : trim (Hex.encode bytes) = bytes.flatMap Hex.pair := by
  unfold trim
  rw [Hex.toList_encode]
  have solid : ∀ c ∈ bytes.flatMap Hex.pair, ¬ isWhitespace c = true := by
    intro c member
    simp [not_whitespace_of_mem_pairs member]
  rw [List.dropWhile_eq_self_iff.mpr, List.rdropWhile_eq_self_iff.mpr]
  · exact fun nonempty => solid _ (List.getLast_mem nonempty)
  · exact fun nonempty => solid _ (List.getElem_mem nonempty)

/-- Lower-case hex is read back as the bytes it was written from. -/
@[simp] theorem decodeBytes_encode {bytes : Bytes} (nonempty : bytes ≠ []) :
    decodeBytes (Hex.encode bytes) = .ok bytes := by
  have length := Hex.length_flatMap_pair bytes
  have positive := List.length_pos_iff.mpr nonempty
  have filled : (bytes.flatMap Hex.pair).isEmpty = false := by
    rw [List.isEmpty_eq_false_iff]
    intro empty
    rw [empty, List.length_nil] at length
    omega
  have digits : (bytes.flatMap Hex.pair).all isAsciiHexdigit = true := by
    refine List.all_eq_true.mpr fun c member => ?_
    obtain ⟨byte, _, inPair⟩ := List.mem_flatMap.mp member
    exact Hex.isSome_digitValue_of_mem_pair inPair
  simp only [decodeBytes, trim_encode, filled, Bool.false_eq_true, if_false, length, Nat.mul_mod_right,
    digits, and_self, if_true, Hex.decode_flatMap_pair]

theorem fixedBytes_encode {n : Nat} (bytes : FixedBytes n) (positive : 0 < n) :
    fixedBytes n (Hex.encode bytes.val) = .ok bytes := by
  have nonempty : bytes.val ≠ [] := List.length_pos_iff.mp (by rw [bytes.property]; exact positive)
  simp only [fixedBytes, decodeBytes_encode nonempty, bytes.property, dif_pos]

theorem decodeBytes_of_fixedBytes {n : Nat} {input : String} {bytes : FixedBytes n}
    (read : fixedBytes n input = .ok bytes) : decodeBytes input = .ok bytes.val := by
  unfold fixedBytes at read
  split at read
  · cases read
  · rename_i raw decoded
    split at read
    · cases read
      exact decoded
    · cases read

theorem normalizeBytesToHex_eq_ok_iff {input hex : String} {n : Nat} :
    normalizeBytesToHex input n = .ok hex ↔
      ∃ bytes : FixedBytes n, fixedBytes n input = .ok bytes ∧ hex = Hex.encode bytes.val := by
  unfold normalizeBytesToHex fixedBytes
  cases decodeBytes input with
  | error e => simp
  | ok raw =>
    by_cases sized : raw.length = n
    · simp only [sized, if_true, dif_pos, Except.ok.injEq]
      constructor
      · rintro rfl
        exact ⟨⟨raw, sized⟩, rfl, rfl⟩
      · rintro ⟨bytes, rfl, rfl⟩
        rfl
    · simp [sized]

namespace Crypto

variable (C : Crypto)

def blake3Hex (bytes : Bytes) : String := Hex.encode (C.blake3 bytes).val

/-- `to_vec` does not fail on the payloads of this crate: they hold no maps with
non-string keys and no failing `Serialize`. -/
def hashSerializable (value : Json) : String := C.blake3Hex (C.toVec value)

theorem fixed32_blake3Hex (bytes : Bytes) : fixed32 (C.blake3Hex bytes) = .ok (C.blake3 bytes) :=
  fixedBytes_encode _ (by decide)

theorem length_asBytes_blake3Hex (bytes : Bytes) : (asBytes (C.blake3Hex bytes)).length = 64 := by
  rw [blake3Hex, Hex.length_asBytes_encode, (C.blake3 bytes).property]

theorem blake3Hex_named (bytes : Bytes) : (C.blake3Hex bytes).isEmpty = false := by
  have length := C.length_asBytes_blake3Hex bytes
  by_contra empty
  have none : C.blake3Hex bytes = "" := by simpa using empty
  rw [none] at length
  exact absurd length (by decide)

theorem blake3Hex_inj {a b : Bytes} : C.blake3Hex a = C.blake3Hex b ↔ C.blake3 a = C.blake3 b :=
  ⟨fun same => Subtype.ext (Hex.encode_injective same), fun same => by rw [blake3Hex, same, blake3Hex]⟩

/-- Also `operator_id_from_public_key` and `validator_id_from_public_key`. -/
def walletIdFromPublicKey (publicKey : String) : Except String String :=
  match normalizeBytesToHex publicKey 32 with
  | .error e => .error e
  | .ok pubkeyHex =>
    match Hex.decode pubkeyHex.toList with
    | some pubkeyBytes => .ok (C.blake3Hex pubkeyBytes)
    | none => .error "hex decode failed"

def publicKeyFromSecretHex (secret : String) : Except String String :=
  match fixed32 secret with
  | .error e => .error e
  | .ok secretBytes => .ok (Hex.encode (C.verifyingKey secretBytes).val)

def signWithSecretHex (secret : String) (message : Bytes) : Except String String :=
  match fixed32 secret with
  | .error e => .error e
  | .ok secretBytes => .ok (Hex.encode (C.sign secretBytes message).val)

def verifyEd25519 (publicKey : String) (message : Bytes) (signature : String) : Except String Bool := do
  let publicBytes ← fixed32 publicKey
  let sigBytes ← fixed64 signature
  if C.validKey publicBytes then pure (C.verify publicBytes message sigBytes)
  else throw "invalid Ed25519 public key"

theorem walletIdFromPublicKey_eq_ok_iff {publicKey id : String} :
    C.walletIdFromPublicKey publicKey = .ok id ↔
      ∃ key, fixed32 publicKey = .ok key ∧ id = C.blake3Hex key.val := by
  unfold walletIdFromPublicKey
  cases normalized : normalizeBytesToHex publicKey 32 with
  | error e =>
    simp only [reduceCtorEq, false_iff, not_exists, not_and]
    intro key read
    have ok := normalizeBytesToHex_eq_ok_iff.mpr ⟨key, read, rfl⟩
    rw [normalized] at ok
    cases ok
  | ok hex =>
    obtain ⟨key, read, rfl⟩ := normalizeBytesToHex_eq_ok_iff.mp normalized
    have read' : fixed32 publicKey = .ok key := read
    simp only [Hex.toList_encode, Hex.decode_flatMap_pair, Except.ok.injEq, read']
    constructor
    · rintro rfl
      exact ⟨key, rfl, rfl⟩
    · rintro ⟨_, rfl, rfl⟩
      rfl

theorem verifyEd25519_eq_ok_true_iff {publicKey signature : String} {message : Bytes} :
    C.verifyEd25519 publicKey message signature = .ok true ↔
      ∃ key sig, fixed32 publicKey = .ok key ∧ fixed64 signature = .ok sig ∧
        C.validKey key = true ∧ C.verify key message sig = true := by
  unfold verifyEd25519
  cases fixed32 publicKey with
  | error e => simp [bind, Except.bind]
  | ok key =>
    cases fixed64 signature with
    | error e => simp [bind, Except.bind]
    | ok sig =>
      by_cases valid : C.validKey key = true
      · simp [bind, Except.bind, pure, Except.pure, valid]
      · simp [bind, Except.bind, valid, throw, throwThe, MonadExceptOf.throw]

end Crypto

def txSigningMessage (txIdHex : String) : Except String Bytes :=
  match decodeBytes txIdHex with
  | .error e => .error e
  | .ok bytes => if bytes.length = 32 then .ok bytes else .error "tx id must be 32 bytes"

/-- `METHOD\nPATH\nTIMESTAMP_MS\nBODY` -/
def canonicalRequestMessage (method path : String) (timestampMs : Timestamp) (body : Bytes) : Bytes :=
  asBytes (method.map Char.toUpper ++ "\n" ++ path ++ "\n" ++ toString timestampMs ++ "\n") ++ body

theorem txSigningMessage_blake3Hex (C : Crypto) (bytes : Bytes) :
    txSigningMessage (C.blake3Hex bytes) = .ok (C.blake3 bytes).val := by
  have decoded := decodeBytes_of_fixedBytes (C.fixed32_blake3Hex bytes)
  simp only [txSigningMessage, decoded, (C.blake3 bytes).property, if_true]

end AggoraCoin
