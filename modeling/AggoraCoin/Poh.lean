import AggoraCoin.Crypto

namespace AggoraCoin

namespace Crypto

variable (C : Crypto)

def merkleLeaf (bytes : Bytes) : Bytes := (C.blake3 (0x00 :: bytes)).val

def merkleNode (left right : Bytes) : Bytes := (C.blake3 (0x01 :: (left ++ right))).val

/-- One pass over `layer.chunks(2)`; an odd last node is paired with itself. -/
def nextLayer : List Bytes → List Bytes
  | [] => []
  | [left] => [C.merkleNode left left]
  | left :: right :: rest => C.merkleNode left right :: nextLayer rest

/-- The `while layer.len() > 1` loop. Every pass at least halves a layer of two or more,
so the length of the first layer is fuel enough. -/
def merkleLoop : Nat → List Bytes → List Bytes
  | 0, layer => layer
  | fuel + 1, layer => if 1 < layer.length then merkleLoop fuel (C.nextLayer layer) else layer

def merkleRootHex (txIds : List String) : Except String String :=
  if txIds.isEmpty then .ok zeroHashHex
  else
    match txIds.mapM decodeBytes with
    | .error e => .error e
    | .ok decoded =>
      let leaves := decoded.map C.merkleLeaf
      .ok (Hex.encode ((C.merkleLoop leaves.length leaves).headD []))

def pohHash (prevHash : Hash) (tick : Tick) (txRoot : Hash) (leaderId : ValidatorId) : Hash :=
  C.blake3Hex (asBytes prevHash ++ littleEndian 8 tick ++ asBytes txRoot ++ asBytes leaderId)

def leaderSignature (secret : Option String) (message : Bytes) : Except String Signature :=
  match secret with
  | some secret => C.signWithSecretHex secret message
  | none => .ok ""

def buildEntry (tick : Tick) (prevHash : Hash) (txIds : List Hash) (leaderId : ValidatorId)
    (leaderSecretHex : Option String) (now : Timestamp) : Except String PohEntry := do
  let txRoot ← C.merkleRootHex txIds
  let hash := C.pohHash prevHash tick txRoot leaderId
  let signingPayload := asBytes (toString tick ++ ":" ++ hash ++ ":" ++ txRoot)
  let leaderSig ← C.leaderSignature leaderSecretHex signingPayload
  pure { tick, prevHash, hash, txRoot, txIds, leaderId, leaderSig, wallClock := now }

def verifyChain (prevHash : Hash) (entry : PohEntry) : Except String Bool := do
  if entry.prevHash ≠ prevHash then pure false
  else
    let expectedRoot ← C.merkleRootHex entry.txIds
    if expectedRoot ≠ entry.txRoot then pure false
    else pure (C.pohHash entry.prevHash entry.tick entry.txRoot entry.leaderId = entry.hash)

/-- The secret can sign: it is absent, or it decodes to 32 bytes. -/
def WellFormedSecret : Option String → Prop
  | none => True
  | some secret => ∃ key, fixed32 secret = .ok key

theorem leaderSignature_ok_iff {secret : Option String} {message : Bytes} :
    (∃ sig, C.leaderSignature secret message = .ok sig) ↔ WellFormedSecret secret := by
  cases secret with
  | none => simp [leaderSignature, WellFormedSecret]
  | some secret =>
    simp only [leaderSignature, signWithSecretHex, WellFormedSecret]
    cases fixed32 secret <;> simp

/-- The root over the single transaction that every entry of this node anchors. -/
def singleRoot (bytes : Bytes) : Hash := Hex.encode (C.merkleLeaf (C.blake3 bytes).val)

theorem merkleRootHex_single (bytes : Bytes) :
    C.merkleRootHex [C.blake3Hex bytes] = .ok (C.singleRoot bytes) := by
  have decoded := decodeBytes_of_fixedBytes (C.fixed32_blake3Hex bytes)
  simp [merkleRootHex, decoded, merkleLoop, bind, Except.bind, pure, Except.pure, singleRoot]

/-- What an entry anchoring one transaction id holds, apart from its signature and clock. -/
structure Anchors (prevHash : Hash) (tick : Tick) (bytes : Bytes) (leader : ValidatorId)
    (entry : PohEntry) : Prop where
  tick_eq : entry.tick = tick
  prevHash_eq : entry.prevHash = prevHash
  txIds_eq : entry.txIds = [C.blake3Hex bytes]
  txRoot_eq : entry.txRoot = C.singleRoot bytes
  leaderId_eq : entry.leaderId = leader
  hash_eq : entry.hash = C.pohHash prevHash tick (C.singleRoot bytes) leader

section Single

variable {tick : Tick} {prevHash : Hash} {bytes : Bytes} {leader : ValidatorId} {secret : Option String}
  {now : Timestamp}

/-- Anchoring one transaction id succeeds when the secret can sign. -/
theorem buildEntry_single (formed : WellFormedSecret secret) :
    ∃ entry, C.buildEntry tick prevHash [C.blake3Hex bytes] leader secret now = .ok entry ∧
      C.Anchors prevHash tick bytes leader entry := by
  obtain ⟨sig, signed⟩ : ∃ sig, C.leaderSignature secret (asBytes (toString tick ++ ":" ++
      C.pohHash prevHash tick (C.singleRoot bytes) leader ++ ":" ++ C.singleRoot bytes)) = .ok sig :=
    C.leaderSignature_ok_iff.mpr formed
  refine ⟨⟨tick, prevHash, C.pohHash prevHash tick (C.singleRoot bytes) leader, C.singleRoot bytes,
    [C.blake3Hex bytes], leader, sig, now⟩, ?_, rfl, rfl, rfl, rfl, rfl, rfl⟩
  simp only [buildEntry, merkleRootHex_single, bind, Except.bind, pure, Except.pure, signed]

/-- And fails when the secret cannot, whatever else is in the entry. -/
theorem buildEntry_single_error (malformed : ¬ WellFormedSecret secret) :
    ∃ e, C.buildEntry tick prevHash [C.blake3Hex bytes] leader secret now = .error e := by
  simp only [buildEntry, merkleRootHex_single, bind, Except.bind, pure, Except.pure]
  split
  · exact ⟨_, rfl⟩
  · rename_i sig signed
    exact absurd (C.leaderSignature_ok_iff.mp ⟨sig, signed⟩) malformed

theorem Anchors.verifyChain {entry : PohEntry} (anchored : C.Anchors prevHash tick bytes leader entry) :
    C.verifyChain prevHash entry = .ok true := by
  simp only [Crypto.verifyChain, anchored.prevHash_eq, anchored.txIds_eq, anchored.txRoot_eq,
    anchored.tick_eq, anchored.leaderId_eq, anchored.hash_eq, merkleRootHex_single, ne_eq,
    not_true_eq_false, if_false, bind, Except.bind, pure, Except.pure, decide_true]

end Single

end Crypto

end AggoraCoin
