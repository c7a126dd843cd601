import AggoraCoin.Concrete
import AggoraCoin.Lib.Base64Encoding

namespace Hex

/-- The digits, each letter in either case. -/
def SameLetters (text digits : List Char) : Prop := List.Forall₂ (fun c d => c = d ∨ c = d.toUpper) text digits

theorem digitValue_of_sameLetter {c : Char} {n : Nat} (small : n < 16) (same : c = digit n ∨ c = (digit n).toUpper) :
    digitValue c = some n := by
  have upper : ∀ i : Fin 16, digitValue (digit i.val).toUpper = some i.val := by decide
  rcases same with rfl | rfl
  · exact digitValue_digit small
  · exact upper ⟨n, small⟩

/-- The digits of a byte list, whatever the case of their letters. -/
theorem decode_of_sameLetters {bytes : Bytes} {text : List Char}
    (letters : SameLetters text (bytes.flatMap pair)) :
    decode text = some bytes ∧ text.length = 2 * bytes.length ∧ ∀ c ∈ text, (digitValue c).isSome := by
  induction bytes generalizing text with
  | nil =>
    cases letters
    exact ⟨rfl, rfl, by simp⟩
  | cons byte rest ih =>
    have bound := byte.toNat_lt
    rw [List.flatMap_cons, pair, List.cons_append, List.cons_append, List.nil_append] at letters
    cases letters with
    | @cons high _ _ _ highSame letters =>
      cases letters with
      | @cons low _ later _ lowSame letters =>
        obtain ⟨decoded, sized, digits⟩ := ih letters
        have highValue := digitValue_of_sameLetter (by omega) highSame
        have lowValue := digitValue_of_sameLetter (by omega) lowSame
        have joined : UInt8.ofNat (16 * (byte.toNat / 16) + byte.toNat % 16) = byte := Base64.ofNat_eq (by omega)
        refine ⟨?_, ?_, ?_⟩
        · simp only [decode, highValue, lowValue, decoded, Option.bind_eq_bind, Option.bind_some, joined]
        · rw [List.length_cons, List.length_cons, sized, List.length_cons]
          omega
        · simp only [List.forall_mem_cons, highValue, lowValue, Option.isSome_some]
          exact ⟨trivial, trivial, digits⟩

/-- Two digits a byte. -/
theorem length_of_decode {text : List Char} {bytes : Bytes} (decoded : decode text = some bytes) :
    text.length = 2 * bytes.length := by
  induction text using decode.induct generalizing bytes with
  | case1 =>
    cases decoded
    rfl
  | case2 c => cases decoded
  | case3 high low rest ih =>
    simp only [decode, Option.bind_eq_bind, Option.bind_eq_some_iff, Option.some.injEq] at decoded
    obtain ⟨_, _, _, _, later, tail, rfl⟩ := decoded
    have sized := ih tail
    rw [List.length_cons, List.length_cons, sized, List.length_cons]
    omega

theorem isSome_decode {text : List Char} (even : text.length % 2 = 0) (digits : ∀ c ∈ text, (digitValue c).isSome) :
    (decode text).isSome := by
  induction text using decode.induct with
  | case1 => rfl
  | case2 c => cases even
  | case3 high low rest ih =>
    rw [List.length_cons, List.length_cons] at even
    obtain ⟨h, highValue⟩ := Option.isSome_iff_exists.mp (digits high (by simp))
    obtain ⟨l, lowValue⟩ := Option.isSome_iff_exists.mp (digits low (by simp))
    obtain ⟨bytes, decoded⟩ := Option.isSome_iff_exists.mp (ih (by omega) fun c member => digits c (by simp [member]))
    simp only [decode, highValue, lowValue, decoded, Option.bind_eq_bind, Option.bind_some, Option.isSome_some]

end Hex

namespace AggoraCoin

/-- The accepted spellings of a byte string. -/
inductive Spells (bytes : Bytes) : List Char → Prop
  | hex {text : List Char} (letters : Hex.SameLetters text (bytes.flatMap Hex.pair)) : Spells bytes text
  | standard : Spells bytes (Base64.encodeStandard bytes)
  | urlSafe : Spells bytes (Base64.encodeUrlSafeNoPad bytes)

/-- With any whitespace around it. -/
structure Spelt (bytes : Bytes) (input : String) : Prop where
  framed : ∃ before text after, input.toList = before ++ text ++ after ∧
    (∀ c ∈ before, isWhitespace c = true) ∧ (∀ c ∈ after, isWhitespace c = true) ∧ Spells bytes text

theorem trim_framed {input : String} {before text after : List Char} (framed : input.toList = before ++ text ++ after)
    (blank : ∀ c ∈ before, isWhitespace c = true) (blank' : ∀ c ∈ after, isWhitespace c = true)
    (solid : ∀ c ∈ text, isWhitespace c = false) : trim input = text := by
  have kept : ∀ c ∈ text, ¬ isWhitespace c = true := fun c member => by simp [solid c member]
  have nonblank : ∀ rest : List Char, text ≠ [] → (text ++ rest).dropWhile isWhitespace = text ++ rest := by
    intro rest nonempty
    obtain ⟨first, others, rfl⟩ := List.exists_cons_of_ne_nil nonempty
    exact List.dropWhile_cons_of_neg (kept first List.mem_cons_self)
  rw [trim, framed, List.append_assoc, List.dropWhile_append_of_pos blank]
  by_cases nonempty : text = []
  · subst nonempty
    rw [List.nil_append, List.dropWhile_eq_nil_iff.mpr blank', List.rdropWhile_nil]
  · rw [nonblank after nonempty, List.rdropWhile, List.reverse_append,
      List.dropWhile_append_of_pos fun c member => blank' c (List.mem_reverse.mp member)]
    have tail : text.reverse.dropWhile isWhitespace = text.reverse := by
      refine List.dropWhile_eq_self_iff.mpr fun filled => ?_
      exact kept _ (List.mem_reverse.mp (List.getElem_mem filled))
    rw [tail, List.reverse_reverse]

theorem isWhitespace_of_printable {c : Char} (lower : 33 ≤ c.toNat) (upper : c.toNat ≤ 126) :
    isWhitespace c = false := by
  simp only [isWhitespace, Bool.or_eq_false_iff, Bool.and_eq_false_iff, decide_eq_false_iff_not]
  omega

theorem hexdigit_printable {c : Char} (digit : (Hex.digitValue c).isSome) : 33 ≤ c.toNat ∧ c.toNat ≤ 126 := by
  have bounds (low high : Char) (inside : low ≤ c ∧ c ≤ high) : low.toNat ≤ c.toNat ∧ c.toNat ≤ high.toNat := inside
  unfold Hex.digitValue at digit
  split at digit
  · rename_i inside
    have range := bounds '0' '9' inside
    have ends : '0'.toNat = 48 ∧ '9'.toNat = 57 := ⟨rfl, rfl⟩
    omega
  · split at digit
    · rename_i inside
      have range := bounds 'a' 'f' inside
      have ends : 'a'.toNat = 97 ∧ 'f'.toNat = 102 := ⟨rfl, rfl⟩
      omega
    · split at digit
      · rename_i inside
        have range := bounds 'A' 'F' inside
        have ends : 'A'.toNat = 65 ∧ 'F'.toNat = 70 := ⟨rfl, rfl⟩
        omega
      · cases digit

/-- No spelling holds a blank. -/
theorem Spells.solid {bytes : Bytes} {text : List Char} (spells : Spells bytes text) :
    ∀ c ∈ text, isWhitespace c = false := by
  cases spells with
  | hex letters =>
    intro c member
    obtain ⟨lower, upper⟩ := hexdigit_printable ((Hex.decode_of_sameLetters letters).2.2 c member)
    exact isWhitespace_of_printable lower upper
  | standard =>
    intro c member
    rcases List.mem_append.mp member with body | pad
    · have symbols : ∀ n : Fin 64, isWhitespace (Base64.symbol '+' '/' n.val) = false := by decide
      exact Base64.forall_mem_encodeBody (isWhitespace · = false) symbols bytes c body
    · rw [List.eq_of_mem_replicate pad]
      decide
  | urlSafe =>
    have symbols : ∀ n : Fin 64, isWhitespace (Base64.symbol '-' '_' n.val) = false := by decide
    exact Base64.forall_mem_encodeBody (isWhitespace · = false) symbols bytes

theorem Spelt.trim_spells {bytes : Bytes} {input : String} (spelt : Spelt bytes input) : Spells bytes (trim input) := by
  obtain ⟨before, text, after, framed, blank, blank', spells⟩ := spelt.framed
  rw [trim_framed framed blank blank' spells.solid]
  exact spells

section Reading

variable {bytes : Bytes} {input : String}

/-- The decoder takes the text for hex. -/
def LooksLikeHex (text : List Char) : Prop := text.length % 2 = 0 ∧ ∀ c ∈ text, isAsciiHexdigit c = true

theorem decodeBytes_of_looksLikeHex (filled : trim input ≠ []) (looks : LooksLikeHex (trim input)) :
    decodeBytes input = match Hex.decode (trim input) with
      | some bytes => .ok bytes
      | none => .error "hex decode failed" := by
  have some : (trim input).isEmpty = false := List.isEmpty_eq_false_iff.mpr filled
  have digits : (trim input).all isAsciiHexdigit = true := List.all_eq_true.mpr looks.2
  cases read : Hex.decode (trim input) <;>
    simp only [decodeBytes, some, Bool.false_eq_true, if_false, looks.1, digits, and_self, if_true, read]

theorem decodeBytes_of_not_looksLikeHex (filled : trim input ≠ []) (looks : ¬ LooksLikeHex (trim input)) :
    decodeBytes input = match (Base64.decodeStandard (trim input)).or (Base64.decodeUrlSafeNoPad (trim input)) with
      | some bytes => .ok bytes
      | none => .error "base64 decode failed" := by
  have some : (trim input).isEmpty = false := List.isEmpty_eq_false_iff.mpr filled
  have other : ¬ ((trim input).length % 2 = 0 ∧ (trim input).all isAsciiHexdigit = true) := fun both =>
    looks ⟨both.1, List.all_eq_true.mp both.2⟩
  cases read : (Base64.decodeStandard (trim input)).or (Base64.decodeUrlSafeNoPad (trim input)) <;>
    simp only [decodeBytes, some, Bool.false_eq_true, if_false, other, read]

theorem ne_nil_of_length {text : List Char} {n : Nat} (sized : text.length = n) (positive : 0 < n) : text ≠ [] := by
  rintro rfl
  rw [List.length_nil] at sized
  omega

theorem decodeBytes_hex (nonempty : bytes ≠ []) (letters : Hex.SameLetters (trim input) (bytes.flatMap Hex.pair)) :
    decodeBytes input = .ok bytes := by
  obtain ⟨decoded, sized, digits⟩ := Hex.decode_of_sameLetters letters
  have positive := List.length_pos_iff.mpr nonempty
  have looks : LooksLikeHex (trim input) := ⟨by omega, digits⟩
  rw [decodeBytes_of_looksLikeHex (ne_nil_of_length sized (by omega)) looks, decoded]

/-- Padding gives the standard form away. -/
theorem decodeBytes_standard (short : bytes.length % 3 ≠ 0) (written : trim input = Base64.encodeStandard bytes) :
    decodeBytes input = .ok bytes := by
  have body : (Base64.encodeBody '+' '/' bytes).length = (4 * bytes.length + 2) / 3 := Base64.length_encodeBody bytes
  have padded : '=' ∈ trim input := by
    rw [written, Base64.encodeStandard, List.mem_append, Base64.padding, List.mem_replicate]
    exact Or.inr ⟨by omega, rfl⟩
  have other : ¬ LooksLikeHex (trim input) := fun looks => absurd (looks.2 '=' padded) (by decide)
  rw [decodeBytes_of_not_looksLikeHex (List.ne_nil_of_mem padded) other, written,
    Base64.decodeStandard_encodeStandard]
  rfl

/-- The unpadded form is read back unless it can be taken for hex. -/
theorem decodeBytes_urlSafe_iff (short : bytes.length % 3 ≠ 0) (long : 1 < bytes.length)
    (written : trim input = Base64.encodeUrlSafeNoPad bytes) :
    decodeBytes input = .ok bytes ↔ ¬ LooksLikeHex (trim input) := by
  have sized : (trim input).length = (4 * bytes.length + 2) / 3 := by
    rw [written]
    exact Base64.length_encodeBody bytes
  have filled := ne_nil_of_length sized (by omega)
  by_cases looks : LooksLikeHex (trim input)
  · rw [decodeBytes_of_looksLikeHex filled looks, iff_false_right (not_not_intro looks)]
    cases decoded : Hex.decode (trim input) with
    | none => rintro ⟨⟩
    | some read =>
      -- half as many bytes as characters are too few
      intro same
      have half := Hex.length_of_decode decoded
      rw [Except.ok.inj same] at half
      omega
  · have bare : ∀ c ∈ trim input, c ≠ '=' := by
      rw [written]
      exact Base64.forall_mem_encodeBody (· ≠ '=') (by decide) bytes
    rw [decodeBytes_of_not_looksLikeHex filled looks, iff_true_right looks,
      Base64.decodeStandard_of_unpadded bare (by omega), written, Base64.decodeUrlSafeNoPad_encodeUrlSafeNoPad]
    rfl

end Reading

/-- The unpadded URL-safe form of `bytes`, all of whose characters happen to be hex digits. -/
def TakenForHex (bytes : Bytes) (input : String) : Prop :=
  trim input = Base64.encodeUrlSafeNoPad bytes ∧ LooksLikeHex (trim input)

/-- A spelling is read back exactly when it is not the form that can be taken for hex. -/
theorem Spelt.decodeBytes_iff {bytes : Bytes} {input : String} (spelt : Spelt bytes input)
    (short : bytes.length % 3 ≠ 0) (long : 1 < bytes.length) :
    decodeBytes input = .ok bytes ↔ ¬ TakenForHex bytes input := by
  have nonempty : bytes ≠ [] := by
    rintro rfl
    exact short rfl
  have spells := spelt.trim_spells
  have elsewhere (read : decodeBytes input = .ok bytes) : decodeBytes input = .ok bytes ↔ ¬ TakenForHex bytes input := by
    refine iff_of_true read ?_
    rintro ⟨written, looks⟩
    exact (decodeBytes_urlSafe_iff short long written).mp read looks
  generalize same : trim input = text at spells
  cases spells with
  | hex letters =>
    subst same
    exact elsewhere (decodeBytes_hex nonempty letters)
  | standard => exact elsewhere (decodeBytes_standard short same)
  | urlSafe =>
    rw [decodeBytes_urlSafe_iff short long same]
    exact not_congr ⟨fun looks => ⟨same, looks⟩, fun taken => taken.2⟩

/-- What a reader of `n` bytes makes of the input. -/
structure ReadsAs {n : Nat} (bytes : FixedBytes n) (input : String) : Prop where
  decoded : decodeBytes input = .ok bytes.val
  normalized : normalizeBytesToHex input n = .ok (Hex.encode bytes.val)
  fixed : fixedBytes n input = .ok bytes

theorem readsAs_iff {n : Nat} {bytes : FixedBytes n} {input : String} :
    ReadsAs bytes input ↔ decodeBytes input = .ok bytes.val := by
  refine ⟨ReadsAs.decoded, fun decoded => ?_⟩
  have fixed : fixedBytes n input = .ok bytes := by
    simp only [fixedBytes, decoded, bytes.property, dif_pos]
  exact ⟨decoded, normalizeBytesToHex_eq_ok_iff.mpr ⟨bytes, fixed, rfl⟩, fixed⟩

/-- Two characters of a signature taken for hex make one byte: 43 come out. -/
theorem fixed64_of_takenForHex {sig : FixedBytes 64} {input : String} (taken : TakenForHex sig.val input) :
    fixed64 input = .error (wrongLength 64 43) := by
  obtain ⟨written, looks⟩ := taken
  have sized : (trim input).length = 86 := by
    rw [written, Base64.encodeUrlSafeNoPad, Base64.length_encodeBody, sig.property]
  obtain ⟨read, decoded⟩ := Option.isSome_iff_exists.mp (Hex.isSome_decode looks.1 looks.2)
  have half := Hex.length_of_decode decoded
  have short : read.length = 43 := by omega
  have raw : decodeBytes input = .ok read := by
    rw [decodeBytes_of_looksLikeHex (ne_nil_of_length sized (by decide)) looks, decoded]
  have wrong : ¬ read.length = 64 := by omega
  simp only [fixed64, fixedBytes, raw]
  rw [dif_neg wrong, short]

section Verification

variable {C : Crypto} {key : FixedBytes 32} {sig : FixedBytes 64} {publicKey signature : String} {message : Bytes}

theorem verifyEd25519_of_fixed (readKey : fixed32 publicKey = .ok key) (readSig : fixed64 signature = .ok sig) :
    C.verifyEd25519 publicKey message signature =
      if C.validKey key then .ok (C.verify key message sig) else .error "invalid Ed25519 public key" := by
  simp only [Crypto.verifyEd25519, readKey, readSig, bind, Except.bind]
  rfl

theorem verifyEd25519_of_unread {e : String} (readKey : fixed32 publicKey = .ok key)
    (unread : fixed64 signature = .error e) : C.verifyEd25519 publicKey message signature = .error e := by
  simp only [Crypto.verifyEd25519, readKey, unread, bind, Except.bind]

end Verification

/-- Every spelling of a key is read as the key, and so is every spelling of a signature but one: its
unpadded URL-safe form when all of its characters are hex digits, and there verification fails too. -/
theorem spellings_read_alike_iff (C : Crypto) :
    (∀ (key : FixedBytes 32) (input : String), Spelt key.val input →
      ReadsAs key input ∧ C.walletIdFromPublicKey input = .ok (C.blake3Hex key.val)) ∧
    (∀ (sig : FixedBytes 64) (input : String), Spelt sig.val input →
      (ReadsAs sig input ↔ ¬ TakenForHex sig.val input)) ∧
    ∀ (key : FixedBytes 32) (sig : FixedBytes 64) (publicKey signature : String), Spelt key.val publicKey →
      Spelt sig.val signature →
        ((∀ message, C.verifyEd25519 publicKey message signature =
            C.verifyEd25519 (Hex.encode key.val) message (Hex.encode sig.val)) ↔ ¬ TakenForHex sig.val signature) := by
  have keys : ∀ (key : FixedBytes 32) (input : String), Spelt key.val input → ReadsAs key input := by
    intro key input spelt
    have sized := key.property
    refine readsAs_iff.mpr ((spelt.decodeBytes_iff (by omega) (by omega)).mpr ?_)
    rintro ⟨written, looks⟩
    -- 43 characters are not taken for hex
    have odd := looks.1
    rw [written, Base64.encodeUrlSafeNoPad, Base64.length_encodeBody, sized] at odd
    exact absurd odd (by decide)
  have sigs : ∀ (sig : FixedBytes 64) (input : String), Spelt sig.val input →
      (ReadsAs sig input ↔ ¬ TakenForHex sig.val input) := by
    intro sig input spelt
    have sized := sig.property
    exact readsAs_iff.trans (spelt.decodeBytes_iff (by omega) (by omega))
  refine ⟨fun key input spelt => ⟨keys key input spelt, ?_⟩, sigs, ?_⟩
  · exact C.walletIdFromPublicKey_eq_ok_iff.mpr ⟨key, (keys key input spelt).fixed, rfl⟩
  · intro key sig publicKey signature keySpelt sigSpelt
    have readKey : fixed32 publicKey = .ok key := (keys key publicKey keySpelt).fixed
    have hexKey : fixed32 (Hex.encode key.val) = .ok key := fixedBytes_encode key (by decide)
    have hexSig : fixed64 (Hex.encode sig.val) = .ok sig := fixedBytes_encode sig (by decide)
    constructor
    · intro alike taken
      have here := alike []
      rw [verifyEd25519_of_unread readKey (fixed64_of_takenForHex taken), verifyEd25519_of_fixed hexKey hexSig] at here
      split at here
      · cases here
      · exact absurd (Except.error.inj here) (by decide)
    · intro untaken message
      have readSig : fixed64 signature = .ok sig := ((sigs sig signature sigSpelt).mpr untaken).fixed
      rw [verifyEd25519_of_fixed readKey readSig, verifyEd25519_of_fixed hexKey hexSig]

/-- A key of zero bytes in its padded form, with a blank before it, is read. -/
theorem spellings_read_alike_zeros :
    ReadsAs ⟨List.replicate 32 0, List.length_replicate⟩ (String.ofList (' ' :: (List.replicate 43 'A' ++ ['=']))) := by
  have written : Base64.encodeStandard (List.replicate 32 0) = List.replicate 43 'A' ++ ['='] := by decide +kernel
  have blank : ∀ c ∈ [' '], isWhitespace c = true := by simp [isWhitespace]
  refine ((spellings_read_alike_iff Concrete.crypto).1 _ _ ⟨[' '], List.replicate 43 'A' ++ ['='], [], ?_, blank, by simp, ?_⟩).1
  · rw [String.toList_ofList, List.append_nil]
    rfl
  · exact written ▸ .standard

/-- The unpadded URL-safe form of 64 zero bytes is 86 times the letter `A`: it is read as 43 bytes. -/
theorem spelling_misread :
    Spelt (List.replicate 64 0) (String.ofList (List.replicate 86 'A')) ∧
    decodeBytes (String.ofList (List.replicate 86 'A')) = .ok (List.replicate 43 0xAA) ∧
    decodeBytes (String.ofList (List.replicate 86 'A')) ≠ .ok (List.replicate 64 0) := by
  have written : Base64.encodeUrlSafeNoPad (List.replicate 64 0) = List.replicate 86 'A' := by decide +kernel
  have read : decodeBytes (String.ofList (List.replicate 86 'A')) = .ok (List.replicate 43 0xAA) := by decide +kernel
  refine ⟨⟨[], List.replicate 86 'A', [], ?_, by simp, by simp, ?_⟩, read, ?_⟩
  · rw [String.toList_ofList, List.nil_append, List.append_nil]
  · exact written ▸ .urlSafe
  · rw [read]
    intro same
    exact absurd (congrArg List.length (Except.ok.inj same)) (by decide)

end AggoraCoin
