import AggoraCoin.Lib.Base64

namespace Base64

/-- Three bytes to four sextets; the last group is filled up with zero bits. -/
def sextets : Bytes → List Nat
  | [] => []
  | [a] => [a.toNat / 4, a.toNat % 4 * 16]
  | [a, b] => [a.toNat / 4, a.toNat % 4 * 16 + b.toNat / 16, b.toNat % 16 * 4]
  | a :: b :: c :: rest =>
    a.toNat / 4 :: (a.toNat % 4 * 16 + b.toNat / 16) :: (b.toNat % 16 * 4 + c.toNat / 64) :: c.toNat % 64 ::
      sextets rest

/-- The character of a sextet, with `c62` and `c63` as the last two of the alphabet. -/
def symbol (c62 c63 : Char) (n : Nat) : Char :=
  if n < 26 then Char.ofNat (65 + n)
  else if n < 52 then Char.ofNat (71 + n)
  else if n < 62 then Char.ofNat (n - 4)
  else if n = 62 then c62
  else c63

def encodeBody (c62 c63 : Char) (bytes : Bytes) : List Char := (sextets bytes).map (symbol c62 c63)

def padding (body : List Char) : List Char := List.replicate ((4 - body.length % 4) % 4) '='

def encodeStandard (bytes : Bytes) : List Char :=
  encodeBody '+' '/' bytes ++ padding (encodeBody '+' '/' bytes)

def encodeUrlSafeNoPad (bytes : Bytes) : List Char := encodeBody '-' '_' bytes

theorem sextets_lt (bytes : Bytes) : ∀ n ∈ sextets bytes, n < 64 := by
  induction bytes using sextets.induct with
  | case1 => simp [sextets]
  | case2 a =>
    have bound := a.toNat_lt
    simp only [sextets, List.forall_mem_cons, List.not_mem_nil, false_imp_iff, implies_true, and_true]
    omega
  | case3 a b =>
    have bound := a.toNat_lt
    have bound' := b.toNat_lt
    simp only [sextets, List.forall_mem_cons, List.not_mem_nil, false_imp_iff, implies_true, and_true]
    omega
  | case4 a b c rest ih =>
    have bound := a.toNat_lt
    have bound' := b.toNat_lt
    have bound'' := c.toNat_lt
    simp only [sextets, List.forall_mem_cons]
    exact ⟨by omega, by omega, by omega, by omega, ih⟩

theorem length_sextets (bytes : Bytes) : (sextets bytes).length = (4 * bytes.length + 2) / 3 := by
  induction bytes using sextets.induct with
  | case1 => rfl
  | case2 a => simp [sextets]
  | case3 a b => simp [sextets]
  | case4 a b c rest ih =>
    simp only [sextets, List.length_cons, ih]
    omega

theorem ofNat_eq {byte : UInt8} {n : Nat} (same : n % 256 = byte.toNat) : UInt8.ofNat n = byte := by
  apply UInt8.toNat_inj.mp
  rw [UInt8.toNat_ofNat', same]

/-- Joining takes the groups apart again. -/
theorem joinSextets_sextets (bytes : Bytes) : joinSextets (sextets bytes) = some bytes := by
  induction bytes using sextets.induct with
  | case1 => rfl
  | case2 a =>
    have bound := a.toNat_lt
    have whole : a.toNat % 4 * 16 % 16 = 0 := by omega
    have first : UInt8.ofNat (4 * (a.toNat / 4) + a.toNat % 4 * 16 / 16) = a := ofNat_eq (by omega)
    simp only [sextets, joinSextets, whole, if_true, first]
  | case3 a b =>
    have bound := a.toNat_lt
    have bound' := b.toNat_lt
    have whole : b.toNat % 16 * 4 % 4 = 0 := by omega
    have first : UInt8.ofNat (4 * (a.toNat / 4) + (a.toNat % 4 * 16 + b.toNat / 16) / 16) = a := ofNat_eq (by omega)
    have second : UInt8.ofNat (16 * (a.toNat % 4 * 16 + b.toNat / 16) + b.toNat % 16 * 4 / 4) = b :=
      ofNat_eq (by omega)
    simp only [sextets, joinSextets, whole, if_true, first, second]
  | case4 a b c rest ih =>
    have bound := a.toNat_lt
    have bound' := b.toNat_lt
    have bound'' := c.toNat_lt
    have first : UInt8.ofNat (4 * (a.toNat / 4) + (a.toNat % 4 * 16 + b.toNat / 16) / 16) = a := ofNat_eq (by omega)
    have second : UInt8.ofNat (16 * (a.toNat % 4 * 16 + b.toNat / 16) + (b.toNat % 16 * 4 + c.toNat / 64) / 4) = b :=
      ofNat_eq (by omega)
    have third : UInt8.ofNat (64 * (b.toNat % 16 * 4 + c.toNat / 64) + c.toNat % 64) = c := ofNat_eq (by omega)
    simp only [sextets, joinSextets, ih, Option.bind_eq_bind, Option.bind_some, first, second, third]

section Alphabet

variable {c62 c63 : Char}

/-- What an alphabet is asked for: each of its characters names its sextet. -/
def Alphabet (c62 c63 : Char) : Prop := ∀ n : Fin 64, sextet c62 c63 (symbol c62 c63 n.val) = some n.val

theorem alphabet_standard : Alphabet '+' '/' := by unfold Alphabet; decide

theorem alphabet_urlSafe : Alphabet '-' '_' := by unfold Alphabet; decide

theorem decodeBody_encodeBody (alphabet : Alphabet c62 c63) (bytes : Bytes) :
    decodeBody c62 c63 (encodeBody c62 c63 bytes) = some bytes := by
  have read : ∀ ns : List Nat, (∀ n ∈ ns, n < 64) → (ns.map (symbol c62 c63)).mapM (sextet c62 c63) = some ns := by
    intro ns small
    induction ns with
    | nil => rfl
    | cons n rest ih =>
      have here : sextet c62 c63 (symbol c62 c63 n) = some n := alphabet ⟨n, small n List.mem_cons_self⟩
      rw [List.map_cons, List.mapM_cons, here, ih fun m member => small m (List.mem_cons_of_mem n member)]
      rfl
  rw [decodeBody, encodeBody, read _ (sextets_lt bytes), Option.bind_some, joinSextets_sextets]

theorem length_encodeBody (bytes : Bytes) : (encodeBody c62 c63 bytes).length = (4 * bytes.length + 2) / 3 := by
  rw [encodeBody, List.length_map, length_sextets]

/-- What holds of the 64 characters holds of a text. -/
theorem forall_mem_encodeBody (holds : Char → Prop) (each : ∀ n : Fin 64, holds (symbol c62 c63 n.val))
    (bytes : Bytes) : ∀ c ∈ encodeBody c62 c63 bytes, holds c := by
  intro c member
  obtain ⟨n, inside, rfl⟩ := List.mem_map.mp member
  exact each ⟨n, sextets_lt bytes n inside⟩

end Alphabet

theorem encodeStandard_ne_pad (bytes : Bytes) : ∀ c ∈ encodeBody '+' '/' bytes, c ≠ '=' :=
  forall_mem_encodeBody (· ≠ '=') (by decide) bytes

theorem decodeStandard_encodeStandard (bytes : Bytes) : decodeStandard (encodeStandard bytes) = some bytes := by
  have solid : ∀ c ∈ encodeBody '+' '/' bytes, decide (c ≠ '=') = true := fun c member =>
    decide_eq_true (encodeStandard_ne_pad bytes c member)
  have stops (count : Nat) : (List.replicate count '=').takeWhile (· ≠ '=') = [] ∧
      (List.replicate count '=').dropWhile (· ≠ '=') = List.replicate count '=' := by
    cases count with
    | zero => exact ⟨rfl, rfl⟩
    | succ count => simp [List.replicate_succ]
  have body : (encodeStandard bytes).takeWhile (· ≠ '=') = encodeBody '+' '/' bytes := by
    rw [encodeStandard, List.takeWhile_append_of_pos solid, padding, (stops _).1, List.append_nil]
  have rest : (encodeStandard bytes).dropWhile (· ≠ '=') = padding (encodeBody '+' '/' bytes) := by
    rw [encodeStandard, List.dropWhile_append_of_pos solid, padding, (stops _).2]
  have filled : padding (encodeBody '+' '/' bytes) =
      List.replicate ((4 - (encodeBody '+' '/' bytes).length % 4) % 4) '=' := rfl
  simp only [decodeStandard, body, rest]
  rw [if_pos filled, decodeBody_encodeBody alphabet_standard]

theorem decodeUrlSafeNoPad_encodeUrlSafeNoPad (bytes : Bytes) :
    decodeUrlSafeNoPad (encodeUrlSafeNoPad bytes) = some bytes :=
  decodeBody_encodeBody alphabet_urlSafe bytes

/-- A text whose last group is short is not read without padding. -/
theorem decodeStandard_of_unpadded {text : List Char} (bare : ∀ c ∈ text, c ≠ '=') (short : text.length % 4 ≠ 0) :
    decodeStandard text = none := by
  have solid : ∀ c ∈ text, decide (c ≠ '=') = true := fun c member => decide_eq_true (bare c member)
  have body : text.takeWhile (· ≠ '=') = text := List.takeWhile_eq_self_iff.mpr solid
  have rest : text.dropWhile (· ≠ '=') = [] := List.dropWhile_eq_nil_iff.mpr solid
  have wanted : [] ≠ List.replicate ((4 - text.length % 4) % 4) '=' := by
    intro same
    have none := congrArg List.length same
    rw [List.length_nil, List.length_replicate] at none
    omega
  simp only [decodeStandard, body, rest]
  rw [if_neg wanted]

end Base64
