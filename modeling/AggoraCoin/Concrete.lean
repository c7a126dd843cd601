import AggoraCoin.Operations

namespace AggoraCoin

/-- Rational arithmetic without rounding. Only `ln` and `powf` are stand-ins: worked cases use
`ln` in quotients of equal logarithms and leave `powf` switched off. -/
instance : F64 ℚ where
  ofNat n := n
  lit q := q
  add := (· + ·)
  sub := (· - ·)
  mul := (· * ·)
  div := (· / ·)
  neg q := -q
  ln q := q - 1
  powf _ _ := 1
  max a b := if a < b then b else a
  lt a b := decide (a < b)
  le a b := decide (a ≤ b)
  floorU64 q := min (q.num / (q.den : Int)).toNat (Unsigned.maxValue 64)
  jsonText q := toString q.num ++ "/" ++ toString q.den
  reread q := q
  floorU64_le _ := min_le_right _ _

namespace Json

mutual

/-- Compact text; worked cases hold no characters that need an escape. -/
def render : Json → List Char
  | num value => (toString value).toList
  | float text => text.toList
  | str text => '"' :: text.toList ++ ['"']
  | arr items => '[' :: renderItems items ++ [']']
  | obj fields => '\x7b' :: renderFields fields ++ ['\x7d']

def renderItems : List Json → List Char
  | [] => []
  | item :: rest => item.render ++ ',' :: renderItems rest

def renderFields : List (String × Json) → List Char
  | [] => []
  | (name, value) :: rest => name.toList ++ ':' :: value.render ++ ',' :: renderFields rest

end

end Json

namespace Concrete

/-- Adds the bytes up in 31 columns under a leading `0x80`, and leaves 32-byte inputs as they are. -/
def columns : Nat → Bytes → Bytes → Bytes
  | _, sums, [] => sums
  | i, sums, byte :: rest => columns (i + 1) (sums.modify (i % 31) (3 * · + byte)) rest

theorem length_columns (i : Nat) (sums bytes : Bytes) : (columns i sums bytes).length = sums.length := by
  induction bytes generalizing i sums with
  | nil => rfl
  | cons byte rest ih => rw [columns, ih, List.length_modify]

def digest (bytes : Bytes) : FixedBytes 32 :=
  if sized : bytes.length = 32 then ⟨bytes, sized⟩
  else ⟨0x80 :: columns 0 (List.replicate 31 0) bytes, by simp [length_columns]⟩

theorem columns_append (i : Nat) (sums first second : Bytes) :
    columns i sums (first ++ second) = columns (i + first.length) (columns i sums first) second := by
  induction first generalizing i sums with
  | nil => rfl
  | cons byte rest ih =>
    rw [List.cons_append, columns, ih, columns, List.length_cons]
    congr 1
    omega

theorem fold_byte_injective (byte : UInt8) : Function.Injective fun sum : UInt8 => 3 * sum + byte := by
  intro a b same
  have tripled : 3 * a = 3 * b := by simpa using same
  have once (c : UInt8) : c = 171 * (3 * c) := by
    have inverse : (171 : UInt8) * 3 = 1 := rfl
    rw [← mul_assoc, inverse, one_mul]
  rw [once a, once b, tripled]

theorem modify_injective {α : Type} {f : α → α} (injective : Function.Injective f) (n : Nat) :
    Function.Injective fun items : List α => items.modify n f := by
  intro a b same
  refine List.ext_getElem? fun i => ?_
  have here := congrArg (fun items : List α => items[i]?) same
  simp only [List.getElem?_modify] at here
  split at here
  · exact Option.map_injective injective here
  · simpa using here

theorem columns_injective (i : Nat) (bytes : Bytes) : Function.Injective fun sums => columns i sums bytes := by
  induction bytes generalizing i with
  | nil => exact fun _ _ same => same
  | cons byte rest ih =>
    intro a b same
    exact modify_injective (fold_byte_injective byte) _ (ih (i + 1) same)

/-- The digest of a long input notices a change of one byte. -/
theorem digest_ne {first second : Bytes} {x y : UInt8} (different : x ≠ y) (long : 32 ≤ first.length) :
    digest (first ++ x :: second) ≠ digest (first ++ y :: second) := by
  intro same
  have length (z : UInt8) : (first ++ z :: second).length ≠ 32 := by
    rw [List.length_append, List.length_cons]
    omega
  simp only [digest, dif_neg (length _), Subtype.mk.injEq, List.cons.injEq, true_and, columns_append, columns] at same
  have sums := columns_injective _ _ same
  have sized := length_columns 0 (List.replicate 31 0) first
  have slot : (0 + first.length) % 31 < (columns 0 (List.replicate 31 0) first).length := by
    rw [sized, List.length_replicate]
    omega
  have here := congrArg (fun items : Bytes => items[(0 + first.length) % 31]?) sums
  simp only [List.getElem?_modify_eq, List.getElem?_eq_getElem slot, Option.map_eq_map, Option.map_some,
    Option.some.injEq, add_right_inj] at here
  exact different here

/-- Two halves: the hash of the message, and the key that signed it. -/
def mark (key : FixedBytes 32) (message : Bytes) : FixedBytes 64 :=
  ⟨(digest message).val ++ key.val, by rw [List.length_append, (digest message).property, key.property]⟩

/-- A key is its own secret here, and only keys below `0x40` are points of the curve. -/
def crypto : Crypto where
  blake3 := digest
  toVec json := asBytes (String.ofList json.render)
  verifyingKey secret := secret
  sign := mark
  validKey key := key.val.headD 0 < 0x40
  verify key message signature := key.val.headD 0 < 0x40 && signature = mark key message

theorem blake3_eq (input : Bytes) : crypto.blake3 input = digest input := rfl

theorem renderFields_append (before after : List (String × Json)) :
    Json.renderFields (before ++ after) = Json.renderFields before ++ Json.renderFields after := by
  induction before with
  | nil => simp [Json.renderFields]
  | cons field rest ih =>
    obtain ⟨name, value⟩ := field
    simp only [List.cons_append, Json.renderFields, ih, List.append_assoc]

/-- What stands before the value of a field. -/
def textBefore (before : List (String × Json)) (name : String) : List Char :=
  '\x7b' :: Json.renderFields before ++ name.toList ++ [':']

def textAfter (after : List (String × Json)) : List Char := ',' :: Json.renderFields after ++ ['\x7d']

theorem toVec_field (before after : List (String × Json)) (name : String) (value : Int) :
    crypto.toVec (.obj (before ++ (name, .num value) :: after)) =
      (textBefore before name).flatMap String.utf8EncodeChar ++
        (asBytes (toString value) ++ (textAfter after).flatMap String.utf8EncodeChar) := by
  simp only [crypto, Json.render, asBytes, String.toList_ofList, renderFields_append, Json.renderFields, textBefore,
    textAfter, ← List.flatMap_append]
  congr 1
  simp only [List.cons_append, List.append_assoc, List.nil_append]

/-- Two objects that differ in one digit of one field, far enough in, have different digests. -/
theorem digest_toVec_ne (before after : List (String × Json)) (name : String) {v w : Int} {x y : UInt8}
    (one : asBytes (toString v) = [x]) (two : asBytes (toString w) = [y]) (different : x ≠ y)
    (long : 32 ≤ (textBefore before name).length) :
    crypto.blake3 (crypto.toVec (.obj (before ++ (name, .num v) :: after))) ≠
      crypto.blake3 (crypto.toVec (.obj (before ++ (name, .num w) :: after))) := by
  rw [toVec_field, toVec_field, one, two]
  exact digest_ne different (long.trans (length_le_utf8 _))

/-- The default parameters with `powf` switched off and a faucet that opens as many wallets as
there are. -/
def parameters : SystemParameters ℚ :=
  { (SystemParameters.default : SystemParameters ℚ) with
    economy := { (EconomyParameters.default : EconomyParameters ℚ) with inverseBalanceWeight := 0 }
    growth := { (.default : GrowthParameters ℚ) with growthFactorPerIteration := 1 } }

/-- A user's key: one byte, thirty-two times. -/
def key (n : UInt8) : FixedBytes 32 := ⟨List.replicate 32 n, List.length_replicate⟩

def walletId (n : UInt8) : WalletId := crypto.blake3Hex (key n).val

theorem digest_key (n : UInt8) : digest (key n).val = key n := by
  unfold digest
  rw [dif_pos (key n).property]

theorem walletId_ne {m n : UInt8} (different : m ≠ n) : walletId m ≠ walletId n := by
  intro same
  have digests := crypto.blake3Hex_inj.mp same
  rw [blake3_eq, blake3_eq, digest_key, digest_key] at digests
  exact different (congrArg (fun key : FixedBytes 32 => key.val.headD 0) digests)

theorem toVec_eq (json : Json) : crypto.toVec json = json.render.flatMap String.utf8EncodeChar := by
  simp [crypto, asBytes]

def config : NodeConfig ℚ where
  parameters := parameters
  operatorSecret := some devOperatorSecret
  operatorPublicKey := none
  validatorEndpoint := ""

def opened : Except String (CoinState ℚ) × Storage ℚ := openCoinState crypto (fun _ => none) config .empty

/-- A node opened on an empty database with the development secret. -/
def node : CoinState ℚ := opened.1.toOption.get (by decide +kernel)

theorem eq_ok_get {ε α : Type} {x : Except ε α} (some : x.toOption.isSome) : x = .ok (x.toOption.get some) := by
  cases x with
  | error e => cases some
  | ok value => rfl

theorem opened_node : opened.1 = .ok node := eq_ok_get _

attribute [irreducible] node

def operator : Operator where
  id := "op"
  pubkey := "op"
  role := .genesis
  authorizedAt := 0
  authorizedBy := "op"
  revokedAt := none
  metadata := ""

/-- A node without a secret that stores the two wallets `a` and `b`. -/
def pair : CoinState ℚ where
  storage := ⟨[.wallet (.fresh "a" "ka" 10000000 1 0 "op"), .wallet (.fresh "b" "kb" 30000000 2 0 "op")]⟩
  parameters := parameters
  system := { (SystemState.default : SystemState ℚ) with totalSupply := 40000000, nWallets := 2 }
  operatorSecret := none
  operatorPublicKey := ""
  operatorId := "op"
  validatorId := "op"
  seenOperatorSigs := fun _ => none

def walletRequest (key : FixedBytes 32) : WalletCreateRequest where
  publicKey := Hex.encode key.val
  captchaToken := "captcha"
  timestamp := 0

def chargeRequest (amount : MicroAgc) : ChargeRequest where
  toId := "a"
  amount := amount
  eurAmount := 0
  timestamp := 0

end Concrete

end AggoraCoin
