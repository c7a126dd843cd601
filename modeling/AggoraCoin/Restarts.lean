import AggoraCoin.Opening
import AggoraCoin.OperatorAuth
import AggoraCoin.Scripts

namespace AggoraCoin

variable {F : Type} [F64 F]

/-- The database, the node that has it open, and the operator keys that opened it so far. -/
structure Host (F : Type) where
  storage : Storage F
  node : Option (CoinState F)
  opened : List PublicKey

inductive Event (F : Type)
  | restart (env : String → Option String) (config : NodeConfig F)
  | call (call : Call F)

namespace Host

def empty : Host F := ⟨.empty, none, []⟩

variable (C : Crypto)

def next (host : Host F) : Event F → Host F
  | .restart env config =>
    match openCoinState C env config host.storage with
    | (.ok state, storage) => ⟨storage, some state, host.opened ++ [state.operatorPublicKey]⟩
    | (.error _, storage) => ⟨storage, none, host.opened⟩
  | .call call =>
    match host.node with
    | some state => ⟨(call.next C state).storage, some (call.next C state), host.opened⟩
    | none => host

variable {C} {host : Host F}

theorem next_restart {env : String → Option String} {config : NodeConfig F} {state : CoinState F} {left : Storage F}
    (opened : openCoinState C env config host.storage = (.ok state, left)) :
    host.next C (.restart env config) = ⟨left, some state, host.opened ++ [state.operatorPublicKey]⟩ := by
  simp only [next, opened]

theorem next_restart_error {env : String → Option String} {config : NodeConfig F} {e : String} {left : Storage F}
    (failed : openCoinState C env config host.storage = (.error e, left)) :
    host.next C (.restart env config) = ⟨left, none, host.opened⟩ := by
  simp only [next, failed]

theorem next_call {call : Call F} {state : CoinState F} (running : host.node = some state) :
    host.next C (.call call) = ⟨(call.next C state).storage, some (call.next C state), host.opened⟩ := by
  simp only [next, running]

theorem next_call_none {call : Call F} (down : host.node = none) : host.next C (.call call) = host := by
  simp only [next, down]

variable (C) in
/-- A run of the database from the day it was empty. -/
abbrev Run (allowed : Host F → Event F → Prop) : Host F → Prop := Reach (next C) allowed empty

end Host

/-- The record `open` stores for an operator. -/
def genesisRecord (id : OperatorId) (publicKey : PublicKey) : Operator :=
  { id, pubkey := publicKey, role := .genesis, authorizedAt := 0, authorizedBy := id, revokedAt := none,
    metadata := "Aggora Coin Genesis Operator" }

variable {C : Crypto} {host : Host F} {state : CoinState F}

/-- A successful open stores the record of the key it was configured with. -/
theorem openCoinState_registry {env : String → Option String} {config : NodeConfig F} {storage left : Storage F}
    (opened : openCoinState C env config storage = (.ok state, left)) :
    state.storage = left ∧ state.trees.operators =
      storage.trees.operators.put (genesisRecord state.operatorId state.operatorPublicKey) ∧
    C.walletIdFromPublicKey state.operatorPublicKey = .ok state.operatorId := by
  unfold openCoinState at opened
  dsimp only at opened
  split at opened
  · cases opened
  split at opened
  · cases opened
  split at opened
  · cases opened
  rename_i operatorId named
  cases opened
  refine ⟨rfl, ?_, named⟩
  rw [CoinState.trees, Storage.trees_writeAll, Storage.trees_writeAll]
  rfl

/-- A failed open has written the parameters and nothing else. -/
theorem openCoinState_error {env : String → Option String} {config : NodeConfig F} {storage left : Storage F} {e : String}
    (failed : openCoinState C env config storage = (.error e, left)) :
    ∃ parameters, left = storage.writeAll [.parameters parameters] := by
  unfold openCoinState at failed
  dsimp only at failed
  split at failed
  · cases failed
    exact ⟨_, rfl⟩
  split at failed
  · cases failed
    exact ⟨_, rfl⟩
  split at failed
  · cases failed
    exact ⟨_, rfl⟩
  · cases failed

/-- Every operator that ever opened the database is stored, active and genesis; nothing else is. -/
structure Host.Registered (C : Crypto) (host : Host F) : Prop where
  stored : ∀ operator ∈ host.storage.trees.operators.entries, ∃ key ∈ host.opened,
    C.walletIdFromPublicKey key = .ok operator.id ∧ operator = genesisRecord operator.id operator.pubkey
  kept : ∀ key ∈ host.opened, ∃ operator ∈ host.storage.trees.operators.entries,
    C.walletIdFromPublicKey key = .ok operator.id
  running : ∀ state, host.node = some state → state.storage = host.storage ∧
    host.opened.getLast? = some state.operatorPublicKey ∧
    C.walletIdFromPublicKey state.operatorPublicKey = .ok state.operatorId ∧
    state.getOperator state.operatorId = some (genesisRecord state.operatorId state.operatorPublicKey)

omit [F64 F] in
theorem Host.Registered.empty : (Host.empty : Host F).Registered C := by
  constructor
  · intro operator member
    cases member
  · intro key member
    cases member
  · intro state running
    cases running

theorem Host.Registered.call (registered : host.Registered C) (running : host.node = some state) (call : Call F) :
    (host.next C (.call call)).Registered C := by
  obtain ⟨same, last, named, found⟩ := registered.running state running
  have registry := call.registry_eq (C := C) state
  have keys := call.sameKeys (C := C) state
  have operators : (call.next C state).storage.trees.operators = host.storage.trees.operators := by
    rw [← same]
    exact registry
  rw [next_call running]
  constructor
  · rw [operators]
    exact registered.stored
  · rw [operators]
    exact registered.kept
  · rintro after ⟨⟩
    refine ⟨rfl, ?_, ?_, ?_⟩
    · rw [keys.operatorPublicKey_eq]
      exact last
    · rw [keys.operatorPublicKey_eq, keys.operatorId_eq]
      exact named
    · rw [CoinState.getOperator, registry, keys.operatorPublicKey_eq, keys.operatorId_eq]
      exact found

theorem Host.Registered.restart (registered : host.Registered C) {env : String → Option String} {config : NodeConfig F}
    {left : Storage F} (opened : openCoinState C env config host.storage = (.ok state, left)) :
    (host.next C (.restart env config)).Registered C := by
  obtain ⟨same, operators, named⟩ := openCoinState_registry opened
  have left_operators : left.trees.operators =
      host.storage.trees.operators.put (genesisRecord state.operatorId state.operatorPublicKey) := by
    rw [← same]
    exact operators
  rw [next_restart opened]
  constructor
  · rw [left_operators]
    intro operator member
    rcases KeyedTree.mem_put_iff.mp member with rfl | ⟨old, _⟩
    · exact ⟨state.operatorPublicKey, by simp, named, rfl⟩
    · obtain ⟨key, listed, earlier, record⟩ := registered.stored operator old
      exact ⟨key, List.mem_append_left _ listed, earlier, record⟩
  · rw [left_operators]
    intro key member
    rcases List.mem_append.mp member with old | new
    · obtain ⟨operator, stored, earlier⟩ := registered.kept key old
      by_cases again : operator.id = state.operatorId
      · -- the same operator opened it before: its record is written over
        exact ⟨_, KeyedTree.mem_put_iff.mpr (Or.inl rfl), again ▸ earlier⟩
      · exact ⟨operator, KeyedTree.mem_put_iff.mpr (Or.inr ⟨stored, again⟩), earlier⟩
    · rw [List.mem_singleton.mp new]
      exact ⟨_, KeyedTree.mem_put_iff.mpr (Or.inl rfl), named⟩
  · rintro after ⟨⟩
    refine ⟨same, List.getLast?_concat, named, ?_⟩
    rw [CoinState.getOperator, operators]
    exact KeyedTree.get_put_self _ _

theorem Host.Registered.next (registered : host.Registered C) (event : Event F) : (host.next C event).Registered C := by
  cases event with
  | call call =>
    cases running : host.node with
    | none => rwa [next_call_none running]
    | some state => exact registered.call running call
  | restart env config =>
    cases ran : openCoinState C env config host.storage with
    | mk outcome left =>
      cases outcome with
      | ok state => exact registered.restart ran
      | error e =>
        obtain ⟨parameters, rfl⟩ := openCoinState_error ran
        rw [next_restart_error ran]
        constructor
        · rw [Storage.trees_writeAll]
          exact registered.stored
        · rw [Storage.trees_writeAll]
          exact registered.kept
        · rintro after ⟨⟩

theorem Host.registered_of_run {allowed : Host F → Event F → Prop} (run : Host.Run C allowed host) :
    host.Registered C :=
  run.invariant (Host.Registered C) .empty fun _ event registered _ => registered.next event

/-- One stored operator is genesis and active, the one of the configured key, and a request that
presents another key that was configured before is rejected. -/
structure SoleOperator (C : Crypto) (opened : List PublicKey) (state : CoinState F) : Prop where
  genesis : (state.trees.operators.entries.filter fun operator => operator.role = .genesis ∧ operator.active) =
    [genesisRecord state.operatorId state.operatorPublicKey]
  rejects : ∀ security : SecurityParameters, security.devAuthBypass = false →
    ∀ (method path : String) (body : Bytes) (headers : OperatorHeaders) (adminOnly : Bool) (now : Timestamp),
      ∀ key ∈ opened, key ≠ state.operatorPublicKey → presentedKey state headers = .ok key →
        ∃ e, verifyOperatorRequest C security method path body headers adminOnly now state = .error e

section Sole

variable {allowed : Host F → Event F → Prop}

omit [F64 F] in
theorem Host.Registered.mem_filter (registered : host.Registered C) (running : host.node = some state)
    {operator : Operator} (member : operator ∈ state.trees.operators.entries) :
    operator ∈ state.trees.operators.entries.filter fun operator => operator.role = .genesis ∧ operator.active := by
  obtain ⟨same, _⟩ := registered.running state running
  rw [CoinState.trees, same] at member ⊢
  obtain ⟨_, _, _, record⟩ := registered.stored operator member
  rw [List.mem_filter, record]
  exact ⟨record ▸ member, rfl⟩

omit [F64 F] in
/-- The only record left is that of the key in use. -/
theorem Host.Registered.entries_eq (registered : host.Registered C) (running : host.node = some state)
    (one : ∀ key ∈ host.opened, C.walletIdFromPublicKey key = .ok state.operatorId) :
    state.trees.operators.entries = [genesisRecord state.operatorId state.operatorPublicKey] := by
  obtain ⟨same, _, _, found⟩ := registered.running state running
  have ids : ∀ operator ∈ state.trees.operators.entries, operator.id = state.operatorId := by
    intro operator member
    rw [CoinState.trees, same] at member
    obtain ⟨key, listed, named, _⟩ := registered.stored operator member
    exact Except.ok.inj (named.symm.trans (one key listed))
  have records : ∀ operator ∈ state.trees.operators.entries,
      operator = genesisRecord state.operatorId state.operatorPublicKey := by
    intro operator member
    have here := KeyedTree.get_of_mem member
    rw [ids operator member] at here
    exact Option.some.inj (here.symm.trans found)
  have nodup : state.trees.operators.entries.Nodup := (KeyedTree.keys_nodup _).of_map _
  have inside := KeyedTree.mem_of_get found
  generalize state.trees.operators.entries = entries at *
  cases entries with
  | nil => cases inside
  | cons first rest =>
    cases rest with
    | nil => rw [records first (List.mem_singleton_self first)]
    | cons second rest =>
      have repeated : first = second :=
        (records first (List.mem_cons_self ..)).trans (records second (by simp)).symm
      rw [repeated] at nodup
      simp at nodup

/-- After any history of restarts the configured key alone is authorised if and only if every open
so far was of the operator that runs the node now. -/
theorem soleOperator_iff (run : Host.Run C allowed host) (running : host.node = some state) :
    SoleOperator C host.opened state ↔
      ∀ key ∈ host.opened, C.walletIdFromPublicKey key = .ok state.operatorId := by
  have registered := Host.registered_of_run run
  obtain ⟨same, _, _, found⟩ := registered.running state running
  constructor
  · intro sole key listed
    obtain ⟨operator, stored, named⟩ := registered.kept key listed
    have member : operator ∈ state.trees.operators.entries := by rwa [CoinState.trees, same]
    have only := registered.mem_filter running member
    rw [sole.genesis, List.mem_singleton] at only
    rw [named, only]
    rfl
  · intro one
    have entries := registered.entries_eq running one
    constructor
    · rw [entries]
      rfl
    · intro security checked method path body headers adminOnly now key listed other presented
      cases outcome : verifyOperatorRequest C security method path body headers adminOnly now state with
      | error e => exact ⟨e, rfl⟩
      | ok operator =>
        obtain ⟨timestamp, signature, authorized⟩ := (verifyOperatorRequest_eq_ok_iff checked).mp outcome
        obtain ⟨operatorId, _, stored, _⟩ := authorized.named
        have member := KeyedTree.mem_of_get stored
        rw [entries, List.mem_singleton] at member
        have key_eq : operator.pubkey = key := Except.ok.inj (authorized.presented.symm.trans presented)
        rw [member] at key_eq
        exact absurd key_eq.symm other

end Sole

/-- A configured key that decodes opens any database. -/
theorem openCoinState_of_key (C : Crypto) (env : String → Option String) {config : NodeConfig F} (storage : Storage F)
    {publicKey : PublicKey} {key : FixedBytes 32} (configured : config.operatorPublicKey = some publicKey)
    (read : fixed32 publicKey = .ok key) :
    ∃ state left, openCoinState C env config storage = (.ok state, left) ∧
      state.operatorPublicKey = Hex.encode key.val ∧ state.operatorId = C.blake3Hex key.val := by
  have hex : normalizeBytesToHex publicKey 32 = .ok (Hex.encode key.val) :=
    normalizeBytesToHex_eq_ok_iff.mpr ⟨key, read, rfl⟩
  have named : C.walletIdFromPublicKey (Hex.encode key.val) = .ok (C.blake3Hex key.val) :=
    C.walletIdFromPublicKey_eq_ok_iff.mpr ⟨key, fixedBytes_encode key (by decide), rfl⟩
  simp [openCoinState, configured, hex, named]

namespace Concrete

/-- A node configured with an operator key. -/
def keyConfig (key : FixedBytes 32) : NodeConfig ℚ where
  parameters := parameters
  operatorSecret := none
  operatorPublicKey := some (Hex.encode key.val)
  validatorEndpoint := ""

/-- A request that the holder of `key` signs at time zero. -/
def signedHeaders (key : FixedBytes 32) (method path : String) (body : Bytes) : OperatorHeaders where
  timestamp := some 0
  signature := some (Hex.encode (mark key (canonicalRequestMessage method path 0 body)).val)
  operatorId := none
  operatorPublicKey := some (Hex.encode key.val)

/-- An operator that is still registered is still obeyed. -/
theorem signedHeaders_accepted {state : CoinState ℚ} {key : FixedBytes 32} (low : key.val.headD 0 < 0x40)
    (registered : state.getOperator (crypto.blake3Hex key.val) =
      some (genesisRecord (crypto.blake3Hex key.val) (Hex.encode key.val))) (method path : String) (body : Bytes) :
    verifyOperatorRequest crypto .default method path body (signedHeaders key method path body) false 0 state =
      .ok (genesisRecord (crypto.blake3Hex key.val) (Hex.encode key.val)) := by
  have read : fixed32 (Hex.encode key.val) = .ok key := fixedBytes_encode key (by decide)
  have sigRead : fixed64 (Hex.encode (mark key (canonicalRequestMessage method path 0 body)).val) =
      .ok (mark key (canonicalRequestMessage method path 0 body)) := fixedBytes_encode _ (by decide)
  refine (verifyOperatorRequest_eq_ok_iff rfl).mpr ⟨0, _, ⟨rfl, by decide, rfl, ?_, ?_, rfl, by simp, ?_⟩⟩
  · have hex : normalizeBytesToHex (Hex.encode key.val) 32 = .ok (Hex.encode key.val) :=
      normalizeBytesToHex_eq_ok_iff.mpr ⟨key, read, rfl⟩
    simp [presentedKey, signedHeaders, hex, mapErr, genesisRecord]
  · refine ⟨_, crypto.walletIdFromPublicKey_eq_ok_iff.mpr ⟨key, read, rfl⟩, registered, ?_⟩
    simp [signedHeaders]
  · refine crypto.verifyEd25519_eq_ok_true_iff.mpr ⟨key, _, read, sigRead, ?_, ?_⟩
    · simpa [crypto] using low
    · simpa [crypto] using low

end Concrete

/-- After the operator key is replaced the old one stays registered, and a request signed with it
is accepted. -/
theorem soleOperator_rotated :
    ∃ (host : Host ℚ) (state : CoinState ℚ), Host.Run Concrete.crypto (fun _ _ => True) host ∧ host.node = some state ∧
      ¬ SoleOperator Concrete.crypto host.opened state ∧
      ∃ headers operator, verifyOperatorRequest Concrete.crypto .default "POST" "/api/v1/charge" [] headers false 0
          state = .ok operator ∧
        operator.pubkey ∈ host.opened ∧ operator.pubkey ≠ state.operatorPublicKey := by
  have oldKey : (Concrete.keyConfig (Concrete.key 1)).operatorPublicKey = some (Hex.encode (Concrete.key 1).val) := rfl
  have newKey : (Concrete.keyConfig (Concrete.key 2)).operatorPublicKey = some (Hex.encode (Concrete.key 2).val) := rfl
  have readable (key : FixedBytes 32) : fixed32 (Hex.encode key.val) = .ok key := fixedBytes_encode key (by decide)
  obtain ⟨first, disk, firstOpened, firstKey, firstId⟩ :=
    openCoinState_of_key Concrete.crypto (fun _ => none) (Host.empty : Host ℚ).storage oldKey (readable _)
  obtain ⟨second, disk', secondOpened, secondKey, secondId⟩ :=
    openCoinState_of_key Concrete.crypto (fun _ => none) disk newKey (readable _)
  have keysApart : Hex.encode (Concrete.key 1).val ≠ Hex.encode (Concrete.key 2).val := by
    intro same
    exact absurd (congrArg List.head? (Hex.encode_injective same)) (by decide)
  have idsApart : Concrete.crypto.blake3Hex (Concrete.key 1).val ≠ Concrete.crypto.blake3Hex (Concrete.key 2).val := by
    intro same
    have digests := Concrete.crypto.blake3Hex_inj.mp same
    rw [Concrete.blake3_eq, Concrete.blake3_eq, Concrete.digest, Concrete.digest, dif_pos (Concrete.key 1).property,
      dif_pos (Concrete.key 2).property] at digests
    exact keysApart (congrArg (fun key : FixedBytes 32 => Hex.encode key.val) digests)
  -- the record of the first key is still there
  have registered : second.getOperator (Concrete.crypto.blake3Hex (Concrete.key 1).val) =
      some (genesisRecord (Concrete.crypto.blake3Hex (Concrete.key 1).val) (Hex.encode (Concrete.key 1).val)) := by
    obtain ⟨same, stored, _⟩ := openCoinState_registry firstOpened
    obtain ⟨_, storedToo, _⟩ := openCoinState_registry secondOpened
    have disk_operators : disk.trees.operators = first.trees.operators := by rw [← same]; rfl
    rw [CoinState.getOperator, storedToo, disk_operators, stored, firstKey, firstId, secondKey, secondId]
    have apart : (genesisRecord (Concrete.crypto.blake3Hex (Concrete.key 2).val)
        (Hex.encode (Concrete.key 2).val)).id ≠ Concrete.crypto.blake3Hex (Concrete.key 1).val := idsApart.symm
    rw [KeyedTree.get_put_of_ne _ apart]
    exact KeyedTree.get_put_self _ _
  have run : Host.Run Concrete.crypto (fun _ _ => True) (Host.next Concrete.crypto
      (Host.next Concrete.crypto Host.empty (.restart (fun _ => none) (Concrete.keyConfig (Concrete.key 1))))
      (.restart (fun _ => none) (Concrete.keyConfig (Concrete.key 2)))) := .next (.next .start trivial) trivial
  rw [Host.next_restart firstOpened, Host.next_restart secondOpened] at run
  have accepted := Concrete.signedHeaders_accepted (by decide) registered "POST" "/api/v1/charge" []
  refine ⟨_, second, run, rfl, fun sole => ?_, _, _, accepted, ?_, ?_⟩
  · have inside := (Host.registered_of_run run).mem_filter rfl (KeyedTree.mem_of_get registered)
    rw [sole.genesis, List.mem_singleton, secondId] at inside
    exact idsApart (congrArg Operator.id inside)
  · rw [firstKey]
    simp [genesisRecord]
  · rw [secondKey]
    exact keysApart

/-- A node opened twice with one key has one operator. -/
theorem soleOperator_iff_twice :
    ∃ (host : Host ℚ) (state : CoinState ℚ), Host.Run Concrete.crypto (fun _ _ => True) host ∧ host.node = some state ∧
      host.opened.length = 2 ∧ SoleOperator Concrete.crypto host.opened state := by
  have configured : (Concrete.keyConfig (Concrete.key 1)).operatorPublicKey = some (Hex.encode (Concrete.key 1).val) := rfl
  have readable : fixed32 (Hex.encode (Concrete.key 1).val) = .ok (Concrete.key 1) := fixedBytes_encode _ (by decide)
  obtain ⟨first, disk, firstOpened, firstKey, _⟩ := openCoinState_of_key Concrete.crypto (fun _ => none)
    (Host.empty : Host ℚ).storage configured readable
  obtain ⟨second, disk', secondOpened, secondKey, _⟩ :=
    openCoinState_of_key Concrete.crypto (fun _ => none) disk configured readable
  have run : Host.Run Concrete.crypto (fun _ _ => True) (Host.next Concrete.crypto
      (Host.next Concrete.crypto Host.empty (.restart (fun _ => none) (Concrete.keyConfig (Concrete.key 1))))
      (.restart (fun _ => none) (Concrete.keyConfig (Concrete.key 1)))) := .next (.next .start trivial) trivial
  rw [Host.next_restart firstOpened, Host.next_restart secondOpened] at run
  obtain ⟨_, _, named⟩ := openCoinState_registry secondOpened
  refine ⟨_, second, run, rfl, rfl, (soleOperator_iff run rfl).mpr fun publicKey member => ?_⟩
  have only : publicKey = second.operatorPublicKey := by
    rcases List.mem_pair.mp member with rfl | rfl
    · exact firstKey.trans secondKey.symm
    · rfl
  rw [only]
  exact named

end AggoraCoin
