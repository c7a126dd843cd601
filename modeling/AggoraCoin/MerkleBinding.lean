import AggoraCoin.Lib.PairedLayers
import AggoraCoin.TamperEvidence

namespace AggoraCoin

open PairedLayers

/-- Sixty-four lower-case hex digits. -/
structure CanonicalId (id : Hash) : Prop where
  length_eq : id.toList.length = 64
  digits : ∀ c ∈ id.toList, '0' ≤ c ∧ c ≤ '9' ∨ 'a' ≤ c ∧ c ≤ 'f'

theorem exists_digit {c : Char} (digit : '0' ≤ c ∧ c ≤ '9' ∨ 'a' ≤ c ∧ c ≤ 'f') : ∃ n < 16, Hex.digit n = c := by
  rcases digit with ⟨low, high⟩ | ⟨low, high⟩
  · have above : 48 ≤ c.toNat := UInt32.le_iff_toNat_le.mp low
    have below : c.toNat ≤ 57 := UInt32.le_iff_toNat_le.mp high
    refine ⟨c.toNat - 48, by omega, ?_⟩
    rw [Hex.digit, if_pos (by omega), Nat.add_sub_cancel' above, Char.ofNat_toNat]
  · have above : 97 ≤ c.toNat := UInt32.le_iff_toNat_le.mp low
    have below : c.toNat ≤ 102 := UInt32.le_iff_toNat_le.mp high
    refine ⟨c.toNat - 87, by omega, ?_⟩
    rw [Hex.digit, if_neg (by omega), Nat.add_sub_cancel' (by omega), Char.ofNat_toNat]

theorem exists_pair {high low : Char} (first : '0' ≤ high ∧ high ≤ '9' ∨ 'a' ≤ high ∧ high ≤ 'f')
    (second : '0' ≤ low ∧ low ≤ '9' ∨ 'a' ≤ low ∧ low ≤ 'f') : ∃ byte, Hex.pair byte = [high, low] := by
  obtain ⟨h, small, rfl⟩ := exists_digit first
  obtain ⟨l, small', rfl⟩ := exists_digit second
  refine ⟨UInt8.ofNat (16 * h + l), ?_⟩
  have value : (UInt8.ofNat (16 * h + l)).toNat = 16 * h + l := by
    rw [UInt8.toNat_ofNat', Nat.mod_eq_of_lt]
    omega
  rw [Hex.pair, value]
  congr 2
  · omega
  · congr 1
    omega

theorem exists_flatMap_pair {count : Nat} {text : List Char} (sized : text.length = 2 * count)
    (digits : ∀ c ∈ text, '0' ≤ c ∧ c ≤ '9' ∨ 'a' ≤ c ∧ c ≤ 'f') :
    ∃ bytes : Bytes, bytes.length = count ∧ bytes.flatMap Hex.pair = text := by
  induction count generalizing text with
  | zero => exact ⟨[], rfl, (List.length_eq_zero_iff.mp sized).symm⟩
  | succ count ih =>
    match text, sized with
    | high :: low :: rest, sized =>
      obtain ⟨byte, here⟩ := exists_pair (digits high (by simp)) (digits low (by simp))
      have shorter : rest.length = 2 * count := by
        simp only [List.length_cons] at sized
        omega
      obtain ⟨bytes, length, text⟩ := ih shorter fun c member => digits c (by simp [member])
      exact ⟨byte :: bytes, by rw [List.length_cons, length], by simp [here, text]⟩

/-- A canonical id is the hex of 32 bytes. -/
theorem CanonicalId.exists_bytes {id : Hash} (canonical : CanonicalId id) :
    ∃ bytes : FixedBytes 32, id = Hex.encode bytes.val := by
  have sized : id.toList.length = 2 * 32 := canonical.length_eq
  obtain ⟨bytes, sized, text⟩ := exists_flatMap_pair sized canonical.digits
  exact ⟨⟨bytes, sized⟩, by rw [Hex.encode, text, String.ofList_toList]⟩

theorem canonicalId_encode (bytes : FixedBytes 32) : CanonicalId (Hex.encode bytes.val) := by
  constructor
  · rw [Hex.toList_encode, Hex.length_flatMap_pair, bytes.property]
  · intro c member
    rw [Hex.toList_encode] at member
    obtain ⟨byte, _, inPair⟩ := List.mem_flatMap.mp member
    have digit : ∀ n : Fin 16, '0' ≤ Hex.digit n.val ∧ Hex.digit n.val ≤ '9' ∨
        'a' ≤ Hex.digit n.val ∧ Hex.digit n.val ≤ 'f' := by decide
    have bound := byte.toNat_lt
    simp only [Hex.pair, List.mem_cons, List.not_mem_nil, or_false] at inPair
    rcases inPair with rfl | rfl
    · exact digit ⟨byte.toNat / 16, by omega⟩
    · exact digit ⟨byte.toNat % 16, by omega⟩

theorem CanonicalId.length_asBytes {id : Hash} (canonical : CanonicalId id) : (asBytes id).length = 64 := by
  obtain ⟨bytes, rfl⟩ := canonical.exists_bytes
  rw [Hex.length_asBytes_encode, bytes.property]

/-- A list of canonical ids is read as one list of 32-byte strings. -/
theorem exists_decoded {ids : List Hash} (canonical : ∀ id ∈ ids, CanonicalId id) :
    ∃ decoded : List (FixedBytes 32), ids = decoded.map (fun bytes => Hex.encode bytes.val) ∧
      ids.mapM decodeBytes = .ok (decoded.map Subtype.val) := by
  induction ids with
  | nil => exact ⟨[], rfl, rfl⟩
  | cons id rest ih =>
    obtain ⟨bytes, rfl⟩ := (canonical id (by simp)).exists_bytes
    obtain ⟨decoded, rfl, read⟩ := ih fun id member => canonical id (by simp [member])
    have head := decodeBytes_of_fixedBytes (fixedBytes_encode bytes (by decide))
    refine ⟨bytes :: decoded, rfl, ?_⟩
    rw [List.mapM_cons, head, read]
    rfl

namespace Crypto

variable (C : Crypto)

theorem nextLayer_eq_pairUp (layer : List Bytes) : C.nextLayer layer = pairUp C.merkleNode layer := by
  induction layer using pairs.induct with
  | case1 => rfl
  | case2 left => rfl
  | case3 left right rest ih => rw [nextLayer, ih]; rfl

theorem merkleLoop_eq_collapse (fuel : Nat) (layer : List Bytes) :
    C.merkleLoop fuel layer = collapse C.merkleNode fuel layer := by
  induction fuel generalizing layer with
  | zero => rfl
  | succ fuel ih => rw [merkleLoop, collapse, ih, nextLayer_eq_pairUp]

theorem nodeInputs_eq (layer : List Bytes) :
    nodeInputs layer = (pairs layer).map fun pair => 0x01 :: (pair.1 ++ pair.2) := by
  induction layer using pairs.induct with
  | case1 => rfl
  | case2 left => rfl
  | case3 left right rest ih => rw [nodeInputs, ih]; rfl

theorem loopInputs_eq (fuel : Nat) (layer : List Bytes) :
    C.loopInputs fuel layer = (allPairs C.merkleNode fuel layer).map fun pair => 0x01 :: (pair.1 ++ pair.2) := by
  induction fuel generalizing layer with
  | zero => rfl
  | succ fuel ih =>
    rw [loopInputs, allPairs]
    split
    · rw [List.map_append, ← nodeInputs_eq, ih, nextLayer_eq_pairUp]
    · rfl

/-- The hash of a leaf whose input is listed. -/
def LeafHash (inputs : Set Bytes) (leaf value : Bytes) : Prop :=
  0x00 :: leaf ∈ inputs ∧ value = C.merkleLeaf leaf

/-- The hash of a node over two hashes, its input listed. -/
def NodeHash (inputs : Set Bytes) (left right value : Bytes) : Prop :=
  0x01 :: (left ++ right) ∈ inputs ∧ left.length = 32 ∧ right.length = 32 ∧ value = C.merkleNode left right

variable {C} {inputs : Set Bytes}

theorem length_of_built {height : Nat} {block : List Bytes} {value : Bytes}
    (built : Built (C.LeafHash inputs) (C.NodeHash inputs) height block value) : value.length = 32 := by
  cases built with
  | leaf stands =>
    rw [stands.2]
    exact (C.blake3 _).property
  | node _ _ stands =>
    rw [stands.2.2.2]
    exact (C.blake3 _).property

/-- The root of a nonempty list stands over its completion. -/
theorem merkleRootHex_built {ids : List Hash} {decoded : List Bytes} (nonempty : ids ≠ [])
    (read : ids.mapM decodeBytes = .ok decoded) (listed : ∀ input ∈ C.merkleInputs ids, input ∈ inputs) :
    ∃ height value, C.merkleRootHex ids = .ok (Hex.encode value) ∧
      Built (C.LeafHash inputs) (C.NodeHash inputs) height (completed decoded) value := by
  have hashed : C.merkleInputs ids = decoded.map (0x00 :: ·) ++ C.loopInputs decoded.length (decoded.map C.merkleLeaf) := by
    rw [merkleInputs, read]
  have filled : decoded ≠ [] := by
    rintro rfl
    cases decoded_of_mapM read
    exact nonempty rfl
  have leaves : ∀ leaf ∈ decoded, C.LeafHash inputs leaf (C.merkleLeaf leaf) := by
    intro leaf member
    refine ⟨listed _ ?_, rfl⟩
    rw [hashed]
    exact List.mem_append_left _ (List.mem_map_of_mem member)
  have nodes : ∀ pair ∈ allPairs C.merkleNode decoded.length (decoded.map C.merkleLeaf), ∀ height block block',
      Built (C.LeafHash inputs) (C.NodeHash inputs) height block pair.1 →
      Built (C.LeafHash inputs) (C.NodeHash inputs) height block' pair.2 →
        C.NodeHash inputs pair.1 pair.2 (C.merkleNode pair.1 pair.2) := by
    intro pair member height block block' first second
    refine ⟨listed _ ?_, length_of_built first, length_of_built second, rfl⟩
    rw [hashed, loopInputs_eq]
    exact List.mem_append_right _ (List.mem_map_of_mem member)
  obtain ⟨height, value, root, built⟩ := Built.completed filled leaves nodes
  refine ⟨height, value, ?_, built⟩
  have some : ids.isEmpty = false := List.isEmpty_eq_false_iff.mpr nonempty
  simp only [merkleRootHex, some, Bool.false_eq_true, if_false, read, List.length_map, merkleLoop_eq_collapse, root,
    List.headD_cons]

/-- Two nonempty lists have one root exactly when their completions are one. -/
theorem root_eq_iff_of_nonempty {ids ids' : List Hash} {decoded decoded' : List Bytes} (free : C.TamperFree inputs)
    (nonempty : ids ≠ []) (nonempty' : ids' ≠ []) (read : ids.mapM decodeBytes = .ok decoded)
    (read' : ids'.mapM decodeBytes = .ok decoded') (listed : ∀ input ∈ C.merkleInputs ids, input ∈ inputs)
    (listed' : ∀ input ∈ C.merkleInputs ids', input ∈ inputs) :
    C.merkleRootHex ids = C.merkleRootHex ids' ↔ completed decoded = completed decoded' := by
  obtain ⟨height, value, root, built⟩ := merkleRootHex_built nonempty read listed
  obtain ⟨height', value', root', built'⟩ := merkleRootHex_built nonempty' read' listed'
  rw [root, root', Except.ok.injEq]
  constructor
  · intro same
    obtain rfl := Hex.encode_injective same
    refine (built.unique ?_ ?_ ?_ built').2
    · rintro a b value ⟨member, rfl⟩ ⟨member', same⟩
      exact (List.cons.inj (free.blake3 member member' (Subtype.ext same))).2
    · rintro l r l' r' value ⟨member, sized, _, rfl⟩ ⟨member', sized', _, same⟩
      have whole := (List.cons.inj (free.blake3 member member' (Subtype.ext same))).2
      exact List.append_inj whole (sized.trans sized'.symm)
    · -- a leaf and a node are hashed under different tags
      rintro a l r value ⟨member, rfl⟩ ⟨member', _, _, same⟩
      have tags := (List.cons.inj (free.blake3 member member' (Subtype.ext same))).1
      exact absurd tags (by decide)
  · intro same
    rw [same] at built
    congr 1
    refine built.functional ?_ ?_ built'
    · rintro a value value' ⟨_, rfl⟩ ⟨_, rfl⟩
      rfl
    · rintro l r value value' ⟨_, _, _, rfl⟩ ⟨_, _, _, rfl⟩
      rfl

/-- The root of a nonempty list is a hash, which the root of no id is not. -/
theorem merkleRootHex_ne_zero {ids : List Hash} (free : C.TamperFree inputs) (nonempty : ids ≠ [])
    (listed : ∀ input ∈ C.merkleInputs ids, input ∈ inputs) : C.merkleRootHex ids ≠ .ok zeroHashHex := by
  intro zero
  have apart {input : Bytes} (member : input ∈ inputs) (same : zeroHashHex = C.blake3Hex input) : False := by
    rw [zeroHashHex_eq] at same
    exact free.nonzero _ member (Hex.encode_injective same.symm)
  rcases merkleRootHex_cases zero with ⟨none, _⟩ | ⟨_, _, _, _, member, same⟩ | ⟨input, member, _, same⟩
  · exact nonempty none
  · exact apart (listed _ member) same
  · exact apart (listed _ member) same

end Crypto

section Binding

variable {C : Crypto} {inputs : Set Bytes} {ids ids' : List Hash}

/-- What the hashing of a list of ids is asked for. -/
structure Anchorable (C : Crypto) (inputs : Set Bytes) (ids : List Hash) : Prop where
  canonical : ∀ id ∈ ids, CanonicalId id
  listed : ∀ input ∈ C.merkleInputs ids, input ∈ inputs

theorem Anchorable.root_eq_iff (anchorable : Anchorable C inputs ids) (anchorable' : Anchorable C inputs ids')
    (free : C.TamperFree inputs) : C.merkleRootHex ids = C.merkleRootHex ids' ↔ completed ids = completed ids' := by
  have zero : C.merkleRootHex [] = .ok zeroHashHex := rfl
  have hollow : completed ([] : List Hash) = [] := rfl
  by_cases nonempty : ids = []
  · subst nonempty
    by_cases nonempty' : ids' = []
    · subst nonempty'
      exact iff_of_true rfl rfl
    · have filled := mt completed_eq_nil_iff.mp nonempty'
      rw [zero, hollow]
      exact iff_of_false (Crypto.merkleRootHex_ne_zero free nonempty' anchorable'.listed).symm (Ne.symm filled)
  · by_cases nonempty' : ids' = []
    · subst nonempty'
      have filled := mt completed_eq_nil_iff.mp nonempty
      rw [zero, hollow]
      exact iff_of_false (Crypto.merkleRootHex_ne_zero free nonempty anchorable.listed) filled
    · obtain ⟨decoded, text, read⟩ := exists_decoded anchorable.canonical
      obtain ⟨decoded', text', read'⟩ := exists_decoded anchorable'.canonical
      rw [Crypto.root_eq_iff_of_nonempty free nonempty nonempty' read read' anchorable.listed anchorable'.listed, text,
        text', completed_map, completed_map, completed_map, completed_map]
      have spelled : Function.Injective fun bytes : FixedBytes 32 => Hex.encode bytes.val :=
        fun a b same => Subtype.ext (Hex.encode_injective same)
      rw [(List.map_injective_iff.mpr Subtype.val_injective).eq_iff, (List.map_injective_iff.mpr spelled).eq_iff]

theorem Anchorable.isOk (anchorable : Anchorable C inputs ids) : ∃ root, C.merkleRootHex ids = .ok root := by
  obtain ⟨decoded, _, read⟩ := exists_decoded anchorable.canonical
  unfold Crypto.merkleRootHex
  split
  · exact ⟨_, rfl⟩
  · rw [read]
    exact ⟨_, rfl⟩

/-- A root fixes the list up to completion: it fixes lists of one length, and lists without repeats. -/
theorem eq_of_completed_eq (same : completed ids = completed ids')
    (told : ids.length = ids'.length ∨ ids.Nodup ∧ ids'.Nodup) : ids = ids' := by
  rcases told with sized | ⟨distinct, distinct'⟩
  · exact eq_of_completed_of_length same sized
  · exact eq_of_completed_of_nodup same distinct distinct'

/-- What verifying an entry is asked for. -/
structure Checkable (C : Crypto) (inputs : Set Bytes) (entry : PohEntry) : Prop where
  anchorable : Anchorable C inputs entry.txIds
  digest : Crypto.pohInput entry.prevHash entry.tick entry.txRoot entry.leaderId ∈ inputs
  prevHash : CanonicalId entry.prevHash
  tick : entry.tick ≤ u64Max

theorem Checkable.root_eq {entry entry' : PohEntry} {before before' : Hash} (checkable : Checkable C inputs entry)
    (checkable' : Checkable C inputs entry') (free : C.TamperFree inputs)
    (verified : C.verifyChain before entry = .ok true) (verified' : C.verifyChain before' entry' = .ok true)
    (same : entry.hash = entry'.hash) : C.merkleRootHex entry.txIds = C.merkleRootHex entry'.txIds := by
  obtain ⟨_, rooted, digest⟩ := Crypto.verifyChain_eq_ok_true_iff.mp verified
  obtain ⟨_, rooted', digest'⟩ := Crypto.verifyChain_eq_ok_true_iff.mp verified'
  rw [digest, digest', C.blake3Hex_inj] at same
  have inputsSame := free.blake3 checkable.digest checkable'.digest same
  obtain ⟨_, _, roots, _⟩ := Crypto.pohInput_inj checkable.prevHash.length_asBytes checkable'.prevHash.length_asBytes
    (Crypto.length_asBytes_root rooted) (Crypto.length_asBytes_root rooted') checkable.tick checkable'.tick inputsSame
  rw [rooted, rooted', roots]

end Binding

/-- Two lists of canonical ids have one root exactly when they agree once completed the way the tree
does it, and so only when they are equal if they have one length or repeat no id; and so it is with
the ids of two verified entries with one hash. -/
theorem merkle_root_binds {C : Crypto} {inputs : Set Bytes} (free : C.TamperFree inputs) :
    (∀ ids ids' : List Hash, Anchorable C inputs ids → Anchorable C inputs ids' →
      (∃ root, C.merkleRootHex ids = .ok root) ∧
      (C.merkleRootHex ids = C.merkleRootHex ids' ↔ completed ids = completed ids') ∧
      (C.merkleRootHex ids = C.merkleRootHex ids' →
        ids.length = ids'.length ∨ ids.Nodup ∧ ids'.Nodup → ids = ids')) ∧
    ∀ (entry entry' : PohEntry) (before before' : Hash), Checkable C inputs entry → Checkable C inputs entry' →
      C.verifyChain before entry = .ok true → C.verifyChain before' entry' = .ok true → entry.hash = entry'.hash →
        completed entry.txIds = completed entry'.txIds ∧
        (entry.txIds.length = entry'.txIds.length ∨ entry.txIds.Nodup ∧ entry'.txIds.Nodup →
          entry.txIds = entry'.txIds) := by
  constructor
  · intro ids ids' anchorable anchorable'
    have roots := anchorable.root_eq_iff anchorable' free
    exact ⟨anchorable.isOk, roots, fun same told => eq_of_completed_eq (roots.mp same) told⟩
  · intro entry entry' before before' checkable checkable' verified verified' same
    have roots := checkable.root_eq checkable' free verified verified' same
    have lists := (checkable.anchorable.root_eq_iff checkable'.anchorable free).mp roots
    exact ⟨lists, eq_of_completed_eq lists⟩

namespace Concrete

/-- A digest that shows the length and the second byte of its input. -/
def peeking : Crypto :=
  { crypto with blake3 := fun bytes => ⟨UInt8.ofNat bytes.length :: bytes.getD 1 0 :: List.replicate 30 1, by simp⟩ }

def sevenId : Hash := Hex.encode (key 7).val

theorem sevenId_read : decodeBytes sevenId = .ok (key 7).val :=
  decodeBytes_of_fixedBytes (fixedBytes_encode (key 7) (by decide))

def sevenLeaf : Bytes := 0x00 :: (key 7).val

def sevenNode (C : Crypto) : Bytes := 0x01 :: (C.merkleLeaf (key 7).val ++ C.merkleLeaf (key 7).val)

def sevenTop (C : Crypto) : Bytes := 0x01 :: ((C.blake3 (sevenNode C)).val ++ (C.blake3 (sevenNode C)).val)

/-- The fourth id adds nothing: the third is paired with itself anyway. -/
theorem sevens_inputs (C : Crypto) :
    C.merkleInputs [sevenId, sevenId, sevenId] =
      [sevenLeaf, sevenLeaf, sevenLeaf, sevenNode C, sevenNode C, sevenTop C] ∧
    C.merkleInputs [sevenId, sevenId, sevenId, sevenId] =
      [sevenLeaf, sevenLeaf, sevenLeaf, sevenLeaf, sevenNode C, sevenNode C, sevenTop C] := by
  simp [Crypto.merkleInputs, sevenId_read, bind, Except.bind, pure, Except.pure, Crypto.loopInputs, Crypto.nodeInputs,
    Crypto.nextLayer, sevenLeaf, sevenNode, sevenTop, Crypto.merkleNode]

theorem sevens_root (C : Crypto) :
    C.merkleRootHex [sevenId, sevenId, sevenId] = .ok (C.blake3Hex (sevenTop C)) ∧
    C.merkleRootHex [sevenId, sevenId, sevenId, sevenId] = .ok (C.blake3Hex (sevenTop C)) := by
  simp [Crypto.merkleRootHex, sevenId_read, bind, Except.bind, pure, Except.pure, Crypto.merkleLoop,
    Crypto.nextLayer, sevenNode, sevenTop, Crypto.merkleNode, Crypto.blake3Hex]

/-- An entry whose digest is computed from what it says. -/
def sealedEntry (C : Crypto) (prevHash : Hash) (tick : Tick) (txIds : List Hash) (txRoot : Hash) (leaderId : ValidatorId) :
    PohEntry where
  tick := tick
  prevHash := prevHash
  hash := C.blake3Hex (Crypto.pohInput prevHash tick txRoot leaderId)
  txRoot := txRoot
  txIds := txIds
  leaderId := leaderId
  leaderSig := ""
  wallClock := 0

theorem verifyChain_sealedEntry {C : Crypto} {prevHash : Hash} {tick : Tick} {txIds : List Hash} {txRoot : Hash}
    {leaderId : ValidatorId} (rooted : C.merkleRootHex txIds = .ok txRoot) :
    C.verifyChain prevHash (sealedEntry C prevHash tick txIds txRoot leaderId) = .ok true :=
  Crypto.verifyChain_eq_ok_true_iff.mpr ⟨rfl, rooted, rfl⟩

def sevenDigest : Bytes := Crypto.pohInput zeroHashHex 1 (peeking.blake3Hex (sevenTop peeking)) ""

def sevenInputs : Set Bytes := {sevenLeaf, sevenNode peeking, sevenTop peeking, sevenDigest}

theorem length_sevenDigest : sevenDigest.length = 136 := by
  have leader : (asBytes "").length = 0 := rfl
  have root : (asBytes (peeking.blake3Hex (sevenTop peeking))).length = 64 := Crypto.length_asBytes_blake3Hex _ _
  rw [sevenDigest, Crypto.pohInput, List.length_append, List.length_append, List.length_append,
    Crypto.length_asBytes_zeroHashHex, length_littleEndian, root, leader]

theorem sevens_free : peeking.TamperFree sevenInputs := by
  have shown {a b : Bytes} (same : peeking.blake3 a = peeking.blake3 b) :
      UInt8.ofNat a.length = UInt8.ofNat b.length ∧ a.getD 1 0 = b.getD 1 0 := by
    have heads := congrArg Subtype.val same
    exact ⟨(List.cons.inj heads).1, (List.cons.inj (List.cons.inj heads).2).1⟩
  have long := length_sevenDigest
  have lengths : sevenLeaf.length = 33 ∧ (sevenNode peeking).length = 65 ∧ (sevenTop peeking).length = 65 := by decide
  have seconds : (sevenNode peeking).getD 1 0 ≠ (sevenTop peeking).getD 1 0 := by decide
  constructor
  · intro a member b member' same
    obtain ⟨sized, second⟩ := shown same
    simp only [sevenInputs, Set.mem_insert_iff, Set.mem_singleton_iff] at member member'
    rcases member with rfl | rfl | rfl | rfl <;> rcases member' with rfl | rfl | rfl | rfl
    all_goals
      first
        | rfl
        | exact absurd second seconds
        | exact absurd second.symm seconds
        | simp [lengths, long] at sized
  · intro input _ zero
    have third : (peeking.blake3 input).val.getD 2 0 = 1 := rfl
    rw [zero] at third
    exact absurd third (by decide)

theorem sevens_anchorable : Anchorable peeking sevenInputs [sevenId, sevenId, sevenId] ∧
    Anchorable peeking sevenInputs [sevenId, sevenId, sevenId, sevenId] := by
  have canonical : CanonicalId sevenId := canonicalId_encode (key 7)
  obtain ⟨three, four⟩ := sevens_inputs peeking
  refine ⟨⟨by simp [canonical], ?_⟩, ⟨by simp [canonical], ?_⟩⟩
  · rw [three]
    simp [sevenInputs]
  · rw [four]
    simp [sevenInputs]

def sevensEntry (txIds : List Hash) : PohEntry :=
  sealedEntry peeking zeroHashHex 1 txIds (peeking.blake3Hex (sevenTop peeking)) ""

theorem sevens_checkable {txIds : List Hash} (anchorable : Anchorable peeking sevenInputs txIds) :
    Checkable peeking sevenInputs (sevensEntry txIds) := by
  have zeros : CanonicalId zeroHashHex := by
    rw [Crypto.zeroHashHex_eq]
    exact canonicalId_encode ⟨List.replicate 32 0, List.length_replicate⟩
  refine ⟨anchorable, ?_, zeros, ?_⟩
  · have digest : Crypto.pohInput zeroHashHex 1 (peeking.blake3Hex (sevenTop peeking)) "" ∈ sevenInputs := by
      simp [sevenInputs, sevenDigest]
    exact digest
  · have small : 1 ≤ u64Max := by decide
    exact small

def eightNulls : String := String.ofList (List.replicate 8 '\x00')

/-- The digest does not say where the previous hash ends: an entry over no id and an entry over one
id have one hash when the second names a longer previous hash. -/
theorem shifted_digest (C : Crypto) : Crypto.pohInput zeroHashHex 0 zeroHashHex (eightNulls ++ C.blake3Hex sevenLeaf) =
    Crypto.pohInput (zeroHashHex ++ eightNulls ++ zeroHashHex) 0 (C.blake3Hex sevenLeaf) "" := by
  have tick : littleEndian 8 0 = asBytes eightNulls := by decide
  have leader : asBytes "" = [] := rfl
  rw [Crypto.pohInput, Crypto.pohInput, tick, leader]
  simp only [asBytes_append, List.append_assoc, List.append_nil]

end Concrete

/-- Three equal ids and four have one root, also inside verified entries; and where the previous hash
may be any text, entries over no id and over one have one hash, whatever BLAKE3 is. -/
theorem merkle_root_ambiguous :
    (∃ (C : Crypto) (inputs : Set Bytes) (ids ids' : List Hash), C.TamperFree inputs ∧ Anchorable C inputs ids ∧
      Anchorable C inputs ids' ∧ C.merkleRootHex ids = C.merkleRootHex ids' ∧ ids ≠ ids') ∧
    (∃ (C : Crypto) (inputs : Set Bytes) (entry entry' : PohEntry), C.TamperFree inputs ∧ Checkable C inputs entry ∧
      Checkable C inputs entry' ∧ C.verifyChain zeroHashHex entry = .ok true ∧
      C.verifyChain zeroHashHex entry' = .ok true ∧ entry.hash = entry'.hash ∧ entry.txIds ≠ entry'.txIds) ∧
    ∀ C : Crypto, ∃ entry entry' : PohEntry, C.verifyChain entry.prevHash entry = .ok true ∧
      C.verifyChain entry'.prevHash entry' = .ok true ∧ entry.hash = entry'.hash ∧ entry.txIds = [] ∧
      ∃ id, CanonicalId id ∧ entry'.txIds = [id] := by
  obtain ⟨anchorable, anchorable'⟩ := Concrete.sevens_anchorable
  obtain ⟨root, root'⟩ := Concrete.sevens_root Concrete.peeking
  have different : [Concrete.sevenId, Concrete.sevenId, Concrete.sevenId] ≠
      [Concrete.sevenId, Concrete.sevenId, Concrete.sevenId, Concrete.sevenId] := by simp
  refine ⟨⟨Concrete.peeking, Concrete.sevenInputs, _, _, Concrete.sevens_free, anchorable, anchorable',
    root.trans root'.symm, different⟩, ⟨Concrete.peeking, Concrete.sevenInputs, Concrete.sevensEntry _,
    Concrete.sevensEntry _, Concrete.sevens_free, Concrete.sevens_checkable anchorable,
    Concrete.sevens_checkable anchorable', Concrete.verifyChain_sealedEntry root,
    Concrete.verifyChain_sealedEntry root', rfl, different⟩, fun C => ?_⟩
  have single : C.merkleRootHex [Concrete.sevenId] = .ok (C.blake3Hex Concrete.sevenLeaf) := by
    simp [Crypto.merkleRootHex, Concrete.sevenId_read, bind, Except.bind, pure, Except.pure, Crypto.merkleLoop,
      Crypto.merkleLeaf, Concrete.sevenLeaf, Crypto.blake3Hex]
  have digests := congrArg C.blake3Hex (Concrete.shifted_digest C)
  exact ⟨Concrete.sealedEntry C _ 0 [] zeroHashHex _, Concrete.sealedEntry C _ 0 [Concrete.sevenId] _ "",
    Concrete.verifyChain_sealedEntry rfl, Concrete.verifyChain_sealedEntry single, digests, rfl, _,
    canonicalId_encode (Concrete.key 7), rfl⟩

/-- Three copies of one id have the root of four exactly when the completed lists agree. -/
theorem merkle_root_binds_sevens :
    Concrete.peeking.merkleRootHex [Concrete.sevenId, Concrete.sevenId, Concrete.sevenId] =
        Concrete.peeking.merkleRootHex [Concrete.sevenId, Concrete.sevenId, Concrete.sevenId, Concrete.sevenId] ↔
      completed [Concrete.sevenId, Concrete.sevenId, Concrete.sevenId] =
        completed [Concrete.sevenId, Concrete.sevenId, Concrete.sevenId, Concrete.sevenId] :=
  ((merkle_root_binds Concrete.sevens_free).1 _ _ Concrete.sevens_anchorable.1 Concrete.sevens_anchorable.2).2.1

end AggoraCoin
