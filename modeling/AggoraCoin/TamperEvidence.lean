import AggoraCoin.PohLog

namespace AggoraCoin

namespace Crypto

variable (C : Crypto)

/-- The inputs of one pass over a layer. -/
def nodeInputs : List Bytes → List Bytes
  | [] => []
  | [left] => [0x01 :: (left ++ left)]
  | left :: right :: rest => (0x01 :: (left ++ right)) :: nodeInputs rest

def loopInputs : Nat → List Bytes → List Bytes
  | 0, _ => []
  | fuel + 1, layer =>
    if 1 < layer.length then nodeInputs layer ++ loopInputs fuel (C.nextLayer layer) else []

def merkleInputs (txIds : List Hash) : List Bytes :=
  match txIds.mapM decodeBytes with
  | .error _ => []
  | .ok decoded => decoded.map (0x00 :: ·) ++ C.loopInputs decoded.length (decoded.map C.merkleLeaf)

def pohInput (prevHash : Hash) (tick : Tick) (txRoot : Hash) (leaderId : ValidatorId) : Bytes :=
  asBytes prevHash ++ littleEndian 8 tick ++ asBytes txRoot ++ asBytes leaderId

def verifyInputs (entry : PohEntry) : List Bytes :=
  pohInput entry.prevHash entry.tick entry.txRoot entry.leaderId :: C.merkleInputs entry.txIds

/-- BLAKE3 on these inputs: no collision, and never the hash that stands for the empty chain. -/
structure TamperFree (inputs : Set Bytes) : Prop where
  blake3 : Set.InjOn C.blake3 inputs
  nonzero : ∀ input ∈ inputs, (C.blake3 input).val ≠ List.replicate 32 0

theorem nextLayer_eq (layer : List Bytes) :
    C.nextLayer layer = (nodeInputs layer).map fun input => (C.blake3 input).val := by
  induction layer using nodeInputs.induct with
  | case1 => rfl
  | case2 left => rfl
  | case3 left right rest ih => rw [nextLayer, nodeInputs, List.map_cons, ih]; rfl

theorem length_nodeInputs (layer : List Bytes) : (nodeInputs layer).length = (layer.length + 1) / 2 := by
  induction layer using nodeInputs.induct with
  | case1 => rfl
  | case2 left => simp [nodeInputs]
  | case3 left right rest ih =>
    rw [nodeInputs, List.length_cons, ih, List.length_cons, List.length_cons]
    omega

theorem head_nodeInputs {layer : List Bytes} {input : Bytes} (member : input ∈ nodeInputs layer) :
    input.head? = some 0x01 := by
  induction layer using nodeInputs.induct with
  | case1 => cases member
  | case2 left =>
    rw [List.mem_singleton.mp member]
    rfl
  | case3 left right rest ih =>
    rcases List.mem_cons.mp member with rfl | later
    · rfl
    · exact ih later

theorem merkleLoop_single (fuel : Nat) (leaf : Bytes) : C.merkleLoop fuel [leaf] = [leaf] := by
  cases fuel with
  | zero => rfl
  | succ fuel => exact if_neg (by simp)

/-- A layer of two or more ends in the hash of a node. -/
theorem merkleLoop_node {fuel : Nat} {layer : List Bytes} (several : 1 < layer.length) (enough : layer.length ≤ fuel) :
    ∃ input ∈ C.loopInputs fuel layer, input.head? = some 0x01 ∧
      C.merkleLoop fuel layer = [(C.blake3 input).val] := by
  induction fuel generalizing layer with
  | zero => omega
  | succ fuel ih =>
    have sized : (C.nextLayer layer).length = (layer.length + 1) / 2 := by
      rw [nextLayer_eq, List.length_map, length_nodeInputs]
    rw [merkleLoop, loopInputs, if_pos several, if_pos several]
    by_cases last : layer.length = 2
    · -- the pass leaves one node, the root
      have one : (nodeInputs layer).length = 1 := by rw [length_nodeInputs, last]
      obtain ⟨input, only⟩ := List.length_eq_one_iff.mp one
      have member : input ∈ nodeInputs layer := only ▸ List.mem_singleton_self input
      refine ⟨input, List.mem_append_left _ member, head_nodeInputs member, ?_⟩
      rw [nextLayer_eq, only]
      exact C.merkleLoop_single fuel _
    · have several' : 1 < (C.nextLayer layer).length := by omega
      obtain ⟨input, member, head, root⟩ := ih several' (by omega)
      exact ⟨input, List.mem_append_right _ member, head, root⟩

theorem zeroHashHex_eq : zeroHashHex = Hex.encode (List.replicate 32 0) := by decide

theorem decoded_of_mapM {txIds : List Hash} {decoded : List Bytes} (read : txIds.mapM decodeBytes = .ok decoded) :
    List.Forall₂ (fun txId bytes => decodeBytes txId = .ok bytes) txIds decoded := by
  induction txIds generalizing decoded with
  | nil =>
    cases read
    exact .nil
  | cons txId rest ih =>
    rw [List.mapM_cons] at read
    cases head : decodeBytes txId with
    | error e => simp [head, bind, Except.bind] at read
    | ok bytes =>
      cases tail : rest.mapM decodeBytes with
      | error e => simp [head, tail, bind, Except.bind] at read
      | ok others =>
        simp only [head, tail, bind, Except.bind, pure, Except.pure, Except.ok.injEq] at read
        rw [← read]
        exact .cons head (ih tail)

variable {C} {inputs : Set Bytes} {txIds : List Hash} {root : Hash}

/-- The root of no id is the zero hash, the root of one id hashes a leaf, any other hashes a node. -/
theorem merkleRootHex_cases (rooted : C.merkleRootHex txIds = .ok root) :
    (txIds = [] ∧ root = zeroHashHex) ∨
    (∃ txId leaf, txIds = [txId] ∧ decodeBytes txId = .ok leaf ∧ 0x00 :: leaf ∈ C.merkleInputs txIds ∧
      root = C.blake3Hex (0x00 :: leaf)) ∨
    ∃ input ∈ C.merkleInputs txIds, input.head? = some 0x01 ∧ root = C.blake3Hex input := by
  unfold merkleRootHex at rooted
  split at rooted
  · rename_i empty
    exact Or.inl ⟨List.isEmpty_iff.mp empty, (Except.ok.inj rooted).symm⟩
  rename_i nonempty
  cases read : txIds.mapM decodeBytes with
  | error e => rw [read] at rooted; cases rooted
  | ok decoded =>
    simp only [read, Except.ok.injEq, List.length_map] at rooted
    have listed : C.merkleInputs txIds =
        decoded.map (0x00 :: ·) ++ C.loopInputs decoded.length (decoded.map C.merkleLeaf) := by
      rw [merkleInputs, read]
    cases decoded_of_mapM read with
    | nil => exact absurd rfl nonempty
    | @cons txId leaf txIds leaves head tail =>
      cases tail with
      | nil =>
        refine Or.inr (Or.inl ⟨txId, leaf, rfl, head, ?_, ?_⟩)
        · rw [listed]
          exact List.mem_append_left _ (List.mem_cons_self ..)
        · rw [← rooted, List.map_cons, List.map_nil, merkleLoop_single]
          rfl
      | @cons _ second _ others _ _ =>
        have several : 1 < ((leaf :: second :: others).map C.merkleLeaf).length := by simp
        obtain ⟨input, member, tag, node⟩ := C.merkleLoop_node several (List.length_map _).le
        refine Or.inr (Or.inr ⟨input, ?_, tag, ?_⟩)
        · rw [listed]
          exact List.mem_append_right _ member
        · rw [← rooted, node]
          rfl

/-- The root of one id has one preimage: the list of that id, in some spelling. -/
theorem merkleRootHex_inv (free : C.TamperFree inputs) {bytes : Bytes} (single : 0x00 :: bytes ∈ inputs)
    (listed : ∀ input ∈ C.merkleInputs txIds, input ∈ inputs)
    (rooted : C.merkleRootHex txIds = .ok (C.blake3Hex (0x00 :: bytes))) :
    ∃ txId, txIds = [txId] ∧ decodeBytes txId = .ok bytes := by
  rcases merkleRootHex_cases rooted with ⟨_, zero⟩ | ⟨txId, leaf, one, read, member, top⟩ | ⟨input, member, tag, top⟩
  · rw [zeroHashHex_eq] at zero
    exact absurd (Hex.encode_injective zero) (free.nonzero _ single)
  · have same := free.blake3 single (listed _ member) (C.blake3Hex_inj.mp top)
    exact ⟨txId, one, (List.cons.inj same).2 ▸ read⟩
  · -- a node starts with another tag than a leaf
    have same := free.blake3 single (listed _ member) (C.blake3Hex_inj.mp top)
    rw [← same] at tag
    cases tag

theorem length_asBytes_zeroHashHex : (asBytes zeroHashHex).length = 64 := by
  rw [zeroHashHex_eq, Hex.length_asBytes_encode, List.length_replicate]

theorem length_asBytes_root (rooted : C.merkleRootHex txIds = .ok root) : (asBytes root).length = 64 := by
  rcases merkleRootHex_cases rooted with ⟨_, rfl⟩ | ⟨_, _, _, _, _, rfl⟩ | ⟨_, _, _, rfl⟩
  · exact length_asBytes_zeroHashHex
  · exact length_asBytes_blake3Hex _ _
  · exact length_asBytes_blake3Hex _ _

/-- The parts before the leader id have fixed widths, so the digest input is read in one way. -/
theorem pohInput_inj {prevHash prevHash' txRoot txRoot' : Hash} {tick tick' : Tick} {leaderId leaderId' : ValidatorId}
    (prevSized : (asBytes prevHash).length = 64) (prevSized' : (asBytes prevHash').length = 64)
    (rootSized : (asBytes txRoot).length = 64) (rootSized' : (asBytes txRoot').length = 64)
    (small : tick ≤ u64Max) (small' : tick' ≤ u64Max)
    (same : pohInput prevHash tick txRoot leaderId = pohInput prevHash' tick' txRoot' leaderId') :
    prevHash = prevHash' ∧ tick = tick' ∧ txRoot = txRoot' ∧ leaderId = leaderId' := by
  unfold pohInput at same
  simp only [List.append_assoc] at same
  obtain ⟨prevs, same⟩ := List.append_inj same (prevSized.trans prevSized'.symm)
  obtain ⟨ticks, same⟩ := List.append_inj same (by rw [length_littleEndian, length_littleEndian])
  obtain ⟨roots, leaders⟩ := List.append_inj same (rootSized.trans rootSized'.symm)
  refine ⟨asBytes_injective prevs, ?_, asBytes_injective roots, asBytes_injective leaders⟩
  exact littleEndian_inj (Nat.lt_of_le_of_lt small (by decide)) (Nat.lt_of_le_of_lt small' (by decide)) ticks

theorem verifyChain_eq_ok_true_iff {prevHash : Hash} {entry : PohEntry} :
    C.verifyChain prevHash entry = .ok true ↔ entry.prevHash = prevHash ∧
      C.merkleRootHex entry.txIds = .ok entry.txRoot ∧
        entry.hash = C.blake3Hex (pohInput entry.prevHash entry.tick entry.txRoot entry.leaderId) := by
  unfold verifyChain
  by_cases linked : entry.prevHash = prevHash
  · cases rooted : C.merkleRootHex entry.txIds with
    | error e => simp [linked, bind, Except.bind]
    | ok expected =>
      by_cases matching : expected = entry.txRoot
      · subst linked
        simp only [matching, bind, Except.bind, pure, Except.pure, ne_eq, not_true_eq_false, if_false,
          Except.ok.injEq, decide_eq_true_eq, true_and]
        exact eq_comm
      · simp [linked, matching, bind, Except.bind, pure, Except.pure]
  · simp [linked, pure, Except.pure]

variable (C) in
/-- Every entry passes `verify_chain` after the hash of the one before it. -/
def Verifies : Hash → List PohEntry → Prop
  | _, [] => True
  | prevHash, entry :: rest => C.verifyChain prevHash entry = .ok true ∧ Verifies entry.hash rest

theorem Verifies.forall {prevHash : Hash} {entries : List PohEntry} (verifies : C.Verifies prevHash entries) :
    ∀ entry ∈ entries, ∃ before, C.verifyChain before entry = .ok true := by
  induction entries generalizing prevHash with
  | nil => simp
  | cons entry rest ih =>
    intro found member
    rcases List.mem_cons.mp member with rfl | later
    · exact ⟨prevHash, verifies.1⟩
    · exact ih verifies.2 found later

theorem Verifies.linked {genesis prevHash : Hash} {before entries : List PohEntry}
    (linked : HashChain.Linked PohEntry.prevHash PohEntry.hash genesis before prevHash)
    (verifies : C.Verifies prevHash entries) : ∃ tip,
      HashChain.Linked PohEntry.prevHash PohEntry.hash genesis (before ++ entries) tip := by
  induction entries generalizing prevHash before with
  | nil => exact ⟨prevHash, by rwa [List.append_nil]⟩
  | cons entry rest ih =>
    obtain ⟨tip, whole⟩ := ih (.snoc linked (verifyChain_eq_ok_true_iff.mp verifies.1).1) verifies.2
    exact ⟨tip, by rwa [List.append_assoc] at whole⟩

end Crypto

/-- What a verified chain cannot change about an entry: all that its hash covers. -/
structure SameEntry (entry other : PohEntry) : Prop where
  tick_eq : other.tick = entry.tick
  prevHash_eq : other.prevHash = entry.prevHash
  hash_eq : other.hash = entry.hash
  txRoot_eq : other.txRoot = entry.txRoot
  leaderId_eq : other.leaderId = entry.leaderId
  txId_eq : ∃ txId txId' bytes, entry.txIds = [txId] ∧ other.txIds = [txId'] ∧
    decodeBytes txId = .ok bytes ∧ decodeBytes txId' = .ok bytes

section Chains

variable {F : Type} {C : Crypto} {state : CoinState F} {inputs : Set Bytes} {genesis : Hash} {es : List PohEntry}

/-- Two verified entries with one hash hold the same, when one of them anchors a single id. -/
theorem sameEntry_of_hash_eq (free : C.TamperFree inputs) {entry other : PohEntry} {prevHash : Hash} {tick : Tick}
    {bytes : Bytes} {leader : ValidatorId} (anchors : C.Anchors prevHash tick bytes leader entry)
    (verified : ∃ before, C.verifyChain before other = .ok true)
    (sized : (asBytes entry.prevHash).length = 64) (sized' : (asBytes other.prevHash).length = 64)
    (small : entry.tick ≤ u64Max) (small' : other.tick ≤ u64Max)
    (listed : ∀ input ∈ C.verifyInputs entry, input ∈ inputs)
    (listed' : ∀ input ∈ C.verifyInputs other, input ∈ inputs) (same : entry.hash = other.hash) :
    entry.prevHash = other.prevHash ∧ SameEntry entry other := by
  obtain ⟨_, rooted, digest⟩ := Crypto.verifyChain_eq_ok_true_iff.mp anchors.verifyChain
  obtain ⟨_, _, rooted', digest'⟩ := verified.imp fun _ => Crypto.verifyChain_eq_ok_true_iff.mp
  rw [digest, digest', C.blake3Hex_inj] at same
  have inputsSame := free.blake3 (listed _ (List.mem_cons_self ..)) (listed' _ (List.mem_cons_self ..)) same
  obtain ⟨prevs, ticks, roots, leaders⟩ := Crypto.pohInput_inj sized sized' (Crypto.length_asBytes_root rooted)
    (Crypto.length_asBytes_root rooted') small small' inputsSame
  have decoded := decodeBytes_of_fixedBytes (C.fixed32_blake3Hex bytes)
  have leafListed : 0x00 :: (C.blake3 bytes).val ∈ inputs := by
    refine listed _ (List.mem_cons_of_mem _ ?_)
    simp [Crypto.merkleInputs, anchors.txIds_eq, decoded, bind, Except.bind, pure, Except.pure]
  have single : C.merkleRootHex other.txIds = .ok (C.blake3Hex (0x00 :: (C.blake3 bytes).val)) := by
    rw [rooted', ← roots, anchors.txRoot_eq]
    rfl
  obtain ⟨txId, only, read⟩ := Crypto.merkleRootHex_inv free leafListed
    (fun input member => listed' input (List.mem_cons_of_mem _ member)) single
  refine ⟨prevs, ticks.symm, prevs.symm, ?_, roots.symm, leaders.symm, _, txId, _, anchors.txIds_eq, only, decoded, read⟩
  rw [digest, digest', inputsSame]

/-- A chain of verified entries names nothing but 64-digit hashes, none of them the genesis. -/
theorem hashes_of_verified (free : C.TamperFree inputs)
    (verified : ∀ entry ∈ es, ∃ before, C.verifyChain before entry = .ok true)
    (listed : ∀ entry ∈ es, ∀ input ∈ C.verifyInputs entry, input ∈ inputs) :
    ∀ entry ∈ es, (asBytes entry.hash).length = 64 ∧ entry.hash ≠ zeroHashHex := by
  intro entry member
  obtain ⟨before, ok⟩ := verified entry member
  rw [(Crypto.verifyChain_eq_ok_true_iff.mp ok).2.2]
  refine ⟨Crypto.length_asBytes_blake3Hex _ _, fun zero => ?_⟩
  rw [Crypto.zeroHashHex_eq] at zero
  exact free.nonzero _ (listed entry member _ (List.mem_cons_self ..)) (Hex.encode_injective zero)

theorem CoinState.Logged.tamperEvident (logged : state.Logged C) (free : C.TamperFree inputs) {other : List PohEntry}
    (verifies : C.Verifies zeroHashHex other)
    (ends : HashChain.tipOf PohEntry.hash zeroHashHex other = state.system.lastPohHash)
    (typed : ∀ entry ∈ state.log ++ other, entry.tick ≤ u64Max)
    (listed : ∀ entry ∈ state.log ++ other, ∀ input ∈ C.verifyInputs entry, input ∈ inputs) :
    List.Forall₂ SameEntry state.log other := by
  have anchored : ∀ entry ∈ state.log, ∃ tick bytes, C.Anchors entry.prevHash tick bytes state.validatorId entry := by
    intro entry member
    obtain ⟨i, inside, here⟩ := List.getElem_of_mem member
    obtain ⟨_, bytes, _, _, anchors⟩ := logged.anchored i entry (List.getElem?_eq_some_iff.mpr ⟨inside, here⟩)
    exact ⟨i + 1, bytes, anchors⟩
  have verified : ∀ entry ∈ state.log, ∃ before, C.verifyChain before entry = .ok true := by
    intro entry member
    obtain ⟨_, _, anchors⟩ := anchored entry member
    exact ⟨_, anchors.verifyChain⟩
  have inLog {entry : PohEntry} (member : entry ∈ state.log) := List.mem_append_left other member
  have inOther {entry : PohEntry} (member : entry ∈ other) := List.mem_append_right state.log member
  have hashes := hashes_of_verified free verified fun entry member => listed entry (inLog member)
  have hashes' := hashes_of_verified free verifies.forall fun entry member => listed entry (inOther member)
  obtain ⟨tip, linked⟩ : ∃ tip, HashChain.Linked PohEntry.prevHash PohEntry.hash zeroHashHex ([] ++ other) tip :=
    verifies.linked .nil
  rw [List.nil_append] at linked
  have tips : tip = state.system.lastPohHash := linked.tip_eq.trans ends
  have sized := (logged.linked.forall_prev (P := fun hash => (asBytes hash).length = 64)
    Crypto.length_asBytes_zeroHashHex fun entry member => (hashes entry member).1).2
  have sized' := (linked.forall_prev (P := fun hash => (asBytes hash).length = 64)
    Crypto.length_asBytes_zeroHashHex fun entry member => (hashes' entry member).1).2
  refine logged.linked.agree (tips ▸ linked) ?_ (fun entry member => (hashes entry member).2)
    (fun entry member => (hashes' entry member).2)
  intro entry member found member' same
  obtain ⟨_, _, anchors⟩ := anchored entry member
  exact sameEntry_of_hash_eq free anchors (verifies.forall found member') (sized entry member) (sized' found member')
    (typed entry (inLog member)) (typed found (inOther member')) (listed entry (inLog member))
    (listed found (inOther member')) same

end Chains

/-- Whatever chain verifies from the zero hash up to the tip of a node is, entry by entry, its log. -/
theorem pohLog_tamperEvident {F : Type} [F64 F] {C : Crypto} {env : String → Option String} {config : NodeConfig F}
    {start state : CoinState F} {inputs : Set Bytes} (free : C.TamperFree inputs)
    (opened : (openCoinState C env config .empty).1 = .ok start)
    (formed : Crypto.WellFormedSecret start.operatorSecret)
    (reach : Reach (fun state call => Call.next C call state) (fun _ _ => True) start state)
    {other : List PohEntry} (verifies : C.Verifies zeroHashHex other)
    (ends : HashChain.tipOf PohEntry.hash zeroHashHex other = state.system.lastPohHash)
    (typed : ∀ entry ∈ state.trees.pohLog.entries ++ other, entry.tick ≤ u64Max)
    (listed : ∀ entry ∈ state.trees.pohLog.entries ++ other, ∀ input ∈ C.verifyInputs entry, input ∈ inputs) :
    List.Forall₂ SameEntry state.trees.pohLog.entries other := by
  have steps := steps_of_reach (fun _ _ _ => True) reach fun _ _ _ _ _ _ _ => trivial
  have logged := logged_of_steps formed (OpenedEmpty.logged opened) steps
  rw [logged.entries_eq] at typed listed ⊢
  exact logged.tamperEvident free verifies ends typed listed

namespace Concrete

/-- A digest that tells inputs of different length apart. -/
def measured : Crypto :=
  { crypto with blake3 := fun bytes => ⟨UInt8.ofNat bytes.length :: List.replicate 31 1, by simp⟩ }

theorem measured_opens : ∃ state, (openCoinState measured (fun _ => none) config .empty).1 = .ok state := by
  have read : ∃ key, fixed32 devOperatorSecret = .ok key := ⟨_, eq_ok_get (by decide +kernel)⟩
  obtain ⟨key, read⟩ := read
  have configured : config.operatorSecret = Option.some devOperatorSecret := rfl
  obtain ⟨state, opened, _⟩ := openCoinState_of_secret measured (fun _ => none) .empty configured read rfl fun _ => rfl
  exact ⟨state, opened⟩

theorem isSome_measured : (openCoinState measured (fun _ => none) config .empty).1.toOption.isSome := by
  obtain ⟨state, opened⟩ := measured_opens
  rw [opened]
  rfl

def measuredNode : CoinState ℚ :=
  (openCoinState measured (fun _ => none) config .empty).1.toOption.get isSome_measured

theorem opened_measuredNode : (openCoinState measured (fun _ => none) config .empty).1 = .ok measuredNode :=
  eq_ok_get _

attribute [irreducible] measuredNode

theorem measuredNode_formed : Crypto.WellFormedSecret measuredNode.operatorSecret := by
  rw [(openCoinState_opened opened_measuredNode).secret_eq devOperatorSecret rfl]
  exact ⟨_, eq_ok_get (by decide +kernel)⟩

def measuredFirst : CoinState ℚ := (firstCall (key 7)).next measured measuredNode

theorem measuredFirst_logged : measuredFirst.Logged measured := by
  exact logged_of_steps measuredNode_formed (OpenedEmpty.logged opened_measuredNode) (firstCall (key 7)).steps

theorem firstCall_measured (key : FixedBytes 32) : ∃ tx entry, (firstCall key).next measured measuredNode =
    (measuredNode.posted [firstWallet measured parameters operator key]
      (measuredNode.system.mint (microSeed parameters)) tx entry).storeState := by
  have captcha : (trim "captcha").isEmpty = false := by decide +kernel
  have read : fixed32 (walletRequest key).publicKey = .ok key := fixedBytes_encode key (by decide)
  have solved : (trim (walletRequest key).captchaToken).isEmpty = false := captcha
  obtain ⟨reply, tx, entry, ran⟩ := (openCoinState_empty opened_measuredNode).createWallet measuredNode_formed parameters
    read solved operator "" 0
  refine ⟨tx, entry, ?_⟩
  simp only [firstCall, Call.next, Call.run, ran]

theorem measuredFirst_log : ∃ entry, measuredFirst.log = [entry] ∧
    measuredFirst.validatorId = measuredNode.validatorId := by
  obtain ⟨tx, entry, same⟩ := firstCall_measured (key 7)
  have empty := (openCoinState_empty_past opened_measuredNode).2.1
  refine ⟨entry, ?_, ?_⟩
  · rw [measuredFirst, same, (Quiet.storeState _).past.2.1, CoinState.log_posted, empty, List.nil_append]
  · rw [measuredFirst, same]
    rfl

/-- An entry whose signature and clock were replaced. -/
def resigned (entry : PohEntry) : PohEntry := { entry with leaderSig := "", wallClock := 1 }

def measuredInputs : Set Bytes :=
  {input | ∃ entry ∈ measuredFirst.trees.pohLog.entries, input ∈ measured.verifyInputs entry}

/-- The entry of one id hashes a leaf of 33 bytes and a digest input of 200. -/
theorem measured_lengths {prevHash : Hash} {tick : Tick} {bytes : Bytes} {leader : ValidatorId} {entry : PohEntry}
    (anchors : measured.Anchors prevHash tick bytes leader entry) (prevSized : (asBytes prevHash).length = 64)
    (leaderSized : (asBytes leader).length = 64) :
    ∃ leaf digest : Bytes, measured.verifyInputs entry = [digest, leaf] ∧ leaf.length = 33 ∧ digest.length = 200 := by
  have decoded := decodeBytes_of_fixedBytes (measured.fixed32_blake3Hex bytes)
  refine ⟨0x00 :: (measured.blake3 bytes).val, Crypto.pohInput entry.prevHash entry.tick entry.txRoot entry.leaderId,
    ?_, ?_, ?_⟩
  · simp [Crypto.verifyInputs, Crypto.merkleInputs, anchors.txIds_eq, decoded, Crypto.loopInputs, bind, Except.bind,
      pure, Except.pure]
  · rw [List.length_cons, (measured.blake3 bytes).property]
  · have rootSized : (asBytes (measured.singleRoot bytes)).length = 64 := Crypto.length_asBytes_blake3Hex _ _
    rw [Crypto.pohInput, List.length_append, List.length_append, List.length_append, length_littleEndian,
      anchors.prevHash_eq, anchors.txRoot_eq, anchors.leaderId_eq, prevSized, rootSized, leaderSized]

theorem measuredFirst_entry : ∃ entry leaf digest, measuredFirst.trees.pohLog.entries = [entry] ∧ entry.tick = 1 ∧
    measured.verifyChain zeroHashHex entry = .ok true ∧ entry.hash = measuredFirst.system.lastPohHash ∧
      measured.verifyInputs entry = [digest, leaf] ∧ leaf.length = 33 ∧ digest.length = 200 := by
  obtain ⟨entry, log, leader⟩ := measuredFirst_log
  have logged := measuredFirst_logged
  have here : measuredFirst.log[0]? = some entry := by rw [log]; rfl
  obtain ⟨_, bytes, _, _, anchors⟩ := logged.anchored 0 entry here
  have first : entry.prevHash = zeroHashHex := logged.linked.prev_eq here
  have tip := logged.linked.tip_eq
  rw [log] at tip
  have leaderSized : (asBytes measuredFirst.validatorId).length = 64 := by
    have opened := openCoinState_opened opened_measuredNode
    obtain ⟨key, _, named⟩ := measured.walletIdFromPublicKey_eq_ok_iff.mp opened.operatorId_eq
    rw [leader, opened.validatorId_eq, named]
    exact Crypto.length_asBytes_blake3Hex _ _
  obtain ⟨leaf, digest, listed⟩ := measured_lengths anchors (first ▸ Crypto.length_asBytes_zeroHashHex) leaderSized
  refine ⟨entry, leaf, digest, ?_, logged.tick_eq here, first ▸ anchors.verifyChain, tip.symm, listed⟩
  rw [logged.entries_eq, log]

theorem measured_free : measured.TamperFree measuredInputs := by
  obtain ⟨entry, leaf, digest, log, _, _, _, listed, leafSized, digestSized⟩ := measuredFirst_entry
  have cases_of {input : Bytes} (member : input ∈ measuredInputs) : input = digest ∨ input = leaf := by
    obtain ⟨found, inLog, listedHere⟩ := member
    rw [log, List.mem_singleton] at inLog
    rw [inLog, listed] at listedHere
    simpa using listedHere
  have heads (input : Bytes) : (measured.blake3 input).val.head? = some (UInt8.ofNat input.length) := rfl
  constructor
  · intro a member b member' same
    have head := congrArg (fun digest : FixedBytes 32 => digest.val.head?) same
    simp only [heads, Option.some.injEq] at head
    rcases cases_of member with rfl | rfl <;> rcases cases_of member' with rfl | rfl
    · rfl
    · rw [digestSized, leafSized] at head
      exact absurd head (by decide)
    · rw [digestSized, leafSized] at head
      exact absurd head (by decide)
    · rfl
  · intro input member zero
    have head := heads input
    rw [zero] at head
    rcases cases_of member with rfl | rfl
    · rw [digestSized] at head
      exact absurd head (by decide)
    · rw [leafSized] at head
      exact absurd head (by decide)

end Concrete

/-- Replacing signatures and clocks leaves a chain that verifies and holds the same entries. -/
theorem pohLog_tamperEvident_resigned :
    List.Forall₂ SameEntry Concrete.measuredFirst.trees.pohLog.entries
      (Concrete.measuredFirst.trees.pohLog.entries.map Concrete.resigned) := by
  obtain ⟨entry, leaf, digest, log, tick, verified, tip, _⟩ := Concrete.measuredFirst_entry
  have reached : Reach (fun state call => Call.next Concrete.measured call state) (fun _ _ => True)
      Concrete.measuredNode Concrete.measuredFirst := .next (i := Concrete.firstCall (Concrete.key 7)) .start trivial
  refine pohLog_tamperEvident Concrete.measured_free Concrete.opened_measuredNode Concrete.measuredNode_formed reached
    ?_ ?_ ?_ ?_
  · rw [log]
    exact ⟨verified, trivial⟩
  · rw [log]
    exact tip
  · rw [log]
    simp [Concrete.resigned, tick, Unsigned.maxValue]
  · intro found member input hashed
    rcases List.mem_append.mp member with own | replaced
    · exact ⟨found, own, hashed⟩
    · obtain ⟨original, own, rfl⟩ := List.mem_map.mp replaced
      exact ⟨original, own, hashed⟩

end AggoraCoin
