import AggoraCoin.OperatorRequests

namespace AggoraCoin

open Concrete (headerValue headerStr_headerValue visible_encode)

theorem parseDigits_toDigits (n : Nat) : parseDigits (Nat.toDigits 10 n) = some n := by
  have digits : (Nat.toDigits 10 n).all Char.isDigit = true := by
    rw [List.all_eq_true]
    exact fun c member => Nat.isDigit_of_mem_toDigits (by decide) (by decide) member
  rw [parseDigits, if_pos ⟨Nat.toDigits_ne_nil, digits⟩, Nat.ofDigitChars_ten_toDigits]

theorem toList_ofNat (n : Nat) : (toString (Int.ofNat n)).toList = Nat.toDigits 10 n := by
  change (toString n).toList = _
  rw [Nat.toString_eq_ofList_toDigits, String.toList_ofList]

theorem toList_negSucc (n : Nat) : (toString (Int.negSucc n)).toList = '-' :: Nat.toDigits 10 (n + 1) := by
  have digits : (toString (n + 1)).toList = Nat.toDigits 10 (n + 1) := toList_ofNat (n + 1)
  change ("-" ++ toString (n + 1)).toList = _
  rw [String.toList_append, digits]
  simp

/-- A printed `i64` is read back. -/
theorem parseI64_toString {n : Int} (range : -2 ^ 63 ≤ n ∧ n < 2 ^ 63) : parseI64 (toString n) = some n := by
  unfold parseI64
  dsimp only
  cases n with
  | ofNat n =>
    have digit {c : Char} {rest : List Char} (starts : Nat.toDigits 10 n = c :: rest) : c.isDigit = true :=
      Nat.isDigit_of_mem_toDigits (by decide) (by decide) (starts ▸ List.mem_cons_self ..)
    rw [toList_ofNat]
    split
    · rename_i starts
      cases digit starts
    · rename_i starts
      cases digit starts
    · have small : n < 9223372036854775808 := by lia
      simp [parseDigits_toDigits, Option.filter_some, small]
  | negSucc n =>
    rw [toList_negSucc]
    have bounds : -9223372036854775808 ≤ Int.negSucc n ∧ Int.negSucc n < 9223372036854775808 := range
    have value : -1 + -(n : Int) = Int.negSucc n := by lia
    simp [parseDigits_toDigits, value, bounds]

theorem visible_toString (n : Int) : ∀ c ∈ (toString n).toList, 32 ≤ c.toNat ∧ c.toNat < 127 := by
  have digits {m : Nat} {c : Char} (member : c ∈ Nat.toDigits 10 m) : 32 ≤ c.toNat ∧ c.toNat < 127 := by
    have digit : c.isDigit = true := Nat.isDigit_of_mem_toDigits (by decide) (by decide) member
    have bounds : 48 ≤ c.toNat ∧ c.toNat ≤ 57 := by
      simpa [Char.isDigit, UInt32.le_iff_toNat_le] using digit
    omega
  intro c member
  cases n with
  | ofNat n =>
    rw [toList_ofNat] at member
    exact digits member
  | negSucc n =>
    rw [toList_negSucc] at member
    rcases List.mem_cons.mp member with rfl | member
    · decide
    · exact digits member

/-- The four lines `sign-request` prints. -/
structure SignedRequest where
  id : OperatorId
  publicKey : PublicKey
  timestamp : Timestamp
  signature : Signature

def signRequest (C : Crypto) (secret method path : String) (timestamp : Timestamp) (body : String) :
    Except String SignedRequest := do
  let publicKey ← C.publicKeyFromSecretHex secret
  let id ← C.walletIdFromPublicKey publicKey
  let message := canonicalRequestMessage method path timestamp (asBytes body)
  let signature ← C.signWithSecretHex secret message
  pure { id, publicKey, timestamp, signature }

/-- The lines, sent as the headers they name. -/
def SignedRequest.headers (request : SignedRequest) : HeaderMap
  | "x-operator-id" => [headerValue request.id]
  | "x-operator-public-key" => [headerValue request.publicKey]
  | "x-operator-timestamp" => [headerValue (toString request.timestamp)]
  | "x-operator-signature" => [headerValue request.signature]
  | _ => []

variable {C : Crypto} {secret method asked path body : String} {timestamp : Timestamp} {request : SignedRequest}

theorem signRequest_eq_ok_iff : signRequest C secret method path timestamp body = .ok request ↔
    ∃ key, fixed32 secret = .ok key ∧ request =
      { id := C.blake3Hex (C.verifyingKey key).val
        publicKey := Hex.encode (C.verifyingKey key).val
        timestamp
        signature := Hex.encode (C.sign key (canonicalRequestMessage method path timestamp (asBytes body))).val } := by
  unfold signRequest Crypto.publicKeyFromSecretHex Crypto.signWithSecretHex
  cases fixed32 secret with
  | error e => simp [bind, Except.bind]
  | ok key =>
    have named : C.walletIdFromPublicKey (Hex.encode (C.verifyingKey key).val) =
        .ok (C.blake3Hex (C.verifyingKey key).val) :=
      C.walletIdFromPublicKey_eq_ok_iff.mpr ⟨_, fixedBytes_encode _ (by decide), rfl⟩
    simp only [bind, Except.bind, pure, Except.pure, named, Except.ok.injEq, exists_eq_left']
    exact eq_comm

/-- The node reads off the headers what was printed. -/
theorem operatorHeaders_signed (range : -2 ^ 63 ≤ timestamp ∧ timestamp < 2 ^ 63)
    (signed : signRequest C secret method path timestamp body = .ok request) :
    operatorHeaders request.headers =
      { timestamp := some timestamp
        signature := some request.signature
        operatorId := some request.id
        operatorPublicKey := some request.publicKey } := by
  obtain ⟨key, _, shown⟩ := signRequest_eq_ok_iff.mp signed
  have timestamp_eq : request.timestamp = timestamp := by rw [shown]
  have sentTimestamp : headerStr request.headers "x-operator-timestamp" = some (toString request.timestamp) :=
    headerStr_headerValue (visible_toString _) (by simp [SignedRequest.headers])
  have sentSignature : headerStr request.headers "x-operator-signature" = some request.signature :=
    headerStr_headerValue (by rw [shown]; exact visible_encode _) (by simp [SignedRequest.headers])
  have sentKey : headerStr request.headers "x-operator-public-key" = some request.publicKey :=
    headerStr_headerValue (by rw [shown]; exact visible_encode _) (by simp [SignedRequest.headers])
  have sentId : headerStr request.headers "x-operator-id" = some request.id :=
    headerStr_headerValue (by rw [shown]; exact visible_encode _) (by simp [SignedRequest.headers])
  rw [operatorHeaders, sentTimestamp, sentSignature, sentKey, sentId, Option.bind_some, timestamp_eq,
    parseI64_toString range]

section Record

variable {F : Type} [F64 F] {host : Host F} {state : CoinState F}

/-- `open` spells the operator's key in lower-case hex. -/
theorem openCoinState_key {env : String → Option String} {config : NodeConfig F} {storage : Storage F}
    (opened : (openCoinState C env config storage).1 = .ok state) :
    ∃ key : FixedBytes 32, state.operatorPublicKey = Hex.encode key.val := by
  unfold openCoinState at opened
  dsimp only at opened
  split at opened
  · cases opened
  split at opened
  · cases opened
  rename_i normalized
  split at opened
  · cases opened
  cases opened
  obtain ⟨key, _, hex⟩ := normalizeBytesToHex_eq_ok_iff.mp normalized
  exact ⟨key, hex⟩

variable (C) in
/-- Every operator on record opened the database and has the record `open` stores. -/
def Host.Recorded (host : Host F) : Prop :=
  ∀ operator ∈ host.storage.trees.operators.entries, operator.pubkey ∈ host.opened ∧
    operator = genesisRecord operator.id operator.pubkey ∧
    ∃ key : FixedBytes 32, operator.pubkey = Hex.encode key.val ∧ operator.id = C.blake3Hex key.val

theorem Host.Recorded.next (recorded : host.Recorded C) (registered : host.Registered C) (event : Event F) :
    (host.next C event).Recorded C := by
  cases event with
  | call call =>
    cases running : host.node with
    | none => rwa [next_call_none running]
    | some state =>
      have registry : (call.next C state).storage.trees.operators = host.storage.trees.operators := by
        rw [← (registered.running state running).1]
        exact call.registry_eq state
      rw [next_call running, Host.Recorded, registry]
      exact recorded
  | restart env config =>
    cases ran : openCoinState C env config host.storage with
    | mk outcome left =>
      cases outcome with
      | error e =>
        obtain ⟨parameters, rfl⟩ := openCoinState_error ran
        rw [next_restart_error ran, Host.Recorded, Storage.trees_writeAll]
        exact recorded
      | ok state =>
        obtain ⟨same, operators, named⟩ := openCoinState_registry ran
        obtain ⟨key, hex⟩ := openCoinState_key (congrArg Prod.fst ran)
        have left_operators : left.trees.operators =
            host.storage.trees.operators.put (genesisRecord state.operatorId state.operatorPublicKey) := by
          rw [← same]
          exact operators
        rw [next_restart ran, Host.Recorded, left_operators]
        intro operator member
        rcases KeyedTree.mem_put_iff.mp member with rfl | ⟨old, _⟩
        · refine ⟨by simp [genesisRecord], rfl, key, hex, ?_⟩
          rw [hex] at named
          obtain ⟨key', read, hashed⟩ := C.walletIdFromPublicKey_eq_ok_iff.mp named
          have again : fixed32 (Hex.encode key.val) = .ok key := fixedBytes_encode key (by decide)
          cases Except.ok.inj (again.symm.trans read)
          exact hashed
        · obtain ⟨listed, record⟩ := recorded operator old
          exact ⟨List.mem_append_left _ listed, record⟩

theorem Host.recorded_of_run {allowed : Host F → Event F → Prop} (run : Host.Run C allowed host) :
    host.Registered C ∧ host.Recorded C := by
  refine run.invariant (fun host => host.Registered C ∧ host.Recorded C) ⟨.empty, ?_⟩ ?_
  · intro operator member
    cases member
  · rintro before event ⟨registered, recorded⟩ _
    exact ⟨registered.next event, recorded.next registered event⟩

namespace Host.Recorded

omit [F64 F] in
theorem mem_entries (registered : host.Registered C) (running : host.node = some state) {id : OperatorId}
    {operator : Operator} (found : state.getOperator id = some operator) :
    operator ∈ host.storage.trees.operators.entries := by
  rw [← (registered.running state running).1]
  exact KeyedTree.mem_of_get found

omit [F64 F] in
theorem onRecord (recorded : host.Recorded C) (registered : host.Registered C) (running : host.node = some state) :
    state.Registered C := by
  intro id operator found
  exact (recorded operator (mem_entries registered running found)).2.2

omit [F64 F] in
/-- A key that opened the database has its record, if no other key that did has its hash. -/
theorem getOperator_opened (recorded : host.Recorded C) (registered : host.Registered C)
    (running : host.node = some state) {key : FixedBytes 32} (opened : Hex.encode key.val ∈ host.opened)
    (apart : ∀ other ∈ host.opened, C.walletIdFromPublicKey other = .ok (C.blake3Hex key.val) →
      other = Hex.encode key.val) :
    state.getOperator (C.blake3Hex key.val) = some (genesisRecord (C.blake3Hex key.val) (Hex.encode key.val)) := by
  obtain ⟨operator, member, named⟩ := registered.kept _ opened
  obtain ⟨listed, record, own, hex, hashed⟩ := recorded operator member
  have id_eq : operator.id = C.blake3Hex key.val := by
    have read : C.walletIdFromPublicKey (Hex.encode key.val) = .ok (C.blake3Hex key.val) :=
      C.walletIdFromPublicKey_eq_ok_iff.mpr ⟨key, fixedBytes_encode key (by decide), rfl⟩
    exact Except.ok.inj (named.symm.trans read)
  have ownNamed : C.walletIdFromPublicKey operator.pubkey = .ok (C.blake3Hex key.val) := by
    rw [hex, ← id_eq, hashed]
    exact C.walletIdFromPublicKey_eq_ok_iff.mpr ⟨own, fixedBytes_encode own (by decide), rfl⟩
  rw [id_eq, apart _ listed ownNamed] at record
  rw [CoinState.getOperator, CoinState.trees, (registered.running state running).1, ← record]
  exact KeyedTree.get_eq_some_iff.mpr ⟨member, id_eq⟩

end Host.Recorded

/-- A request signed by `sign-request` for the path and body that are then sent is let in if and only if
its timestamp is within the drift of the clock and the key of the secret has opened the database at some
time. Assumed of Ed25519 is that it verifies its own signatures, and of BLAKE3 that no other key that
opened the database has the same hash. -/
theorem signed_requests_admitted {allowed : Host F → Event F → Prop} (run : Host.Run C allowed host)
    (running : host.node = some state) {security : SecurityParameters} (checked : security.devAuthBypass = false)
    (range : -2 ^ 63 ≤ timestamp ∧ timestamp < 2 ^ 63)
    (signed : signRequest C secret method path timestamp body = .ok request)
    (same : asked.map Char.toUpper = method.map Char.toUpper)
    (correct : ∀ key, fixed32 secret = .ok key → C.validKey (C.verifyingKey key) = true ∧
      ∀ message, C.verify (C.verifyingKey key) message (C.sign key message) = true)
    (apart : ∀ other ∈ host.opened, C.walletIdFromPublicKey other = .ok request.id → other = request.publicKey)
    (adminOnly : Bool) (now : Timestamp) :
    (∃ operator, verifyOperatorRequest C security asked path (asBytes body) (operatorHeaders request.headers) adminOnly
        now state = .ok operator) ↔
      i64Distance now timestamp ≤ security.timestampDriftMs ∧ request.publicKey ∈ host.opened := by
  obtain ⟨registered, recorded⟩ := Host.recorded_of_run run
  have onRecord := recorded.onRecord registered running
  rw [operatorHeaders_signed range signed]
  obtain ⟨key, read, rfl⟩ := signRequest_eq_ok_iff.mp signed
  have keyRead : fixed32 (Hex.encode (C.verifyingKey key).val) = .ok (C.verifyingKey key) :=
    fixedBytes_encode _ (by decide)
  have normalized : normalizeBytesToHex (Hex.encode (C.verifyingKey key).val) 32 =
      .ok (Hex.encode (C.verifyingKey key).val) := normalizeBytesToHex_eq_ok_iff.mpr ⟨_, keyRead, rfl⟩
  constructor
  · rintro ⟨operator, passed⟩
    obtain ⟨_, _, authorized⟩ := (verifyOperatorRequest_eq_ok_iff checked).mp passed
    obtain ⟨fresh, presents⟩ := (authorized_iff onRecord).mp authorized
    cases presents.timestamp_eq
    have pubkey := presents.agrees_key _ rfl
    rw [normalized] at pubkey
    refine ⟨fresh, ?_⟩
    rw [Except.ok.inj pubkey]
    exact (recorded operator (Host.Recorded.mem_entries registered running presents.stored)).1
  · rintro ⟨fresh, opened⟩
    have stored := recorded.getOperator_opened registered running opened apart
    obtain ⟨valid, verifies⟩ := correct key read
    have message : canonicalRequestMessage asked path timestamp (asBytes body) =
        canonicalRequestMessage method path timestamp (asBytes body) := by
      rw [canonicalRequestMessage, canonicalRequestMessage, same]
    refine ⟨genesisRecord _ _, (verifyOperatorRequest_eq_ok_iff checked).mpr ⟨timestamp, _,
      (authorized_iff onRecord).mpr ⟨fresh, rfl, rfl, Or.inl rfl, ?_, ?_, stored, rfl, fun _ => rfl, ?_⟩⟩⟩
    · rintro headerId ⟨⟩
      rfl
    · rintro headerKey ⟨⟩
      exact normalized
    · rw [message]
      exact C.verifyEd25519_eq_ok_true_iff.mpr ⟨_, _, keyRead, fixedBytes_encode _ (by decide), valid, verifies _⟩

end Record

/-- The holder of the key that opened the database signs a request and is let in. -/
theorem signed_requests_admitted_first :
    ∃ (host : Host ℚ) (state : CoinState ℚ) (request : SignedRequest) (operator : Operator),
      Host.Run Concrete.crypto (fun _ _ => True) host ∧ host.node = some state ∧
      signRequest Concrete.crypto (Hex.encode (Concrete.key 1).val) "post" "/api/v1/charge" 0 "" = .ok request ∧
      verifyOperatorRequest Concrete.crypto .default "POST" "/api/v1/charge" (asBytes "")
        (operatorHeaders request.headers) false 0 state = .ok operator := by
  have readable : fixed32 (Hex.encode (Concrete.key 1).val) = .ok (Concrete.key 1) := fixedBytes_encode _ (by decide)
  have configured : (Concrete.keyConfig (Concrete.key 1)).operatorPublicKey =
      some (Hex.encode (Concrete.key 1).val) := rfl
  obtain ⟨state, disk, opened, key, _⟩ := openCoinState_of_key Concrete.crypto (fun _ => none)
    (Host.empty : Host ℚ).storage configured readable
  have run : Host.Run Concrete.crypto (fun _ _ => True)
      (Host.next Concrete.crypto Host.empty (.restart (fun _ => none) (Concrete.keyConfig (Concrete.key 1)))) :=
    .next .start trivial
  rw [Host.next_restart opened] at run
  obtain ⟨request, signed, shown⟩ : ∃ request, signRequest Concrete.crypto (Hex.encode (Concrete.key 1).val) "post"
      "/api/v1/charge" 0 "" = .ok request ∧ request.publicKey = state.operatorPublicKey :=
    ⟨_, signRequest_eq_ok_iff.mpr ⟨Concrete.key 1, readable, rfl⟩, key.symm⟩
  have listed : request.publicKey ∈ (Host.empty : Host ℚ).opened ++ [state.operatorPublicKey] := by
    rw [shown]
    exact List.mem_append_right _ (List.mem_singleton_self _)
  have checked : SecurityParameters.default.devAuthBypass = false := rfl
  have same : "POST".map Char.toUpper = "post".map Char.toUpper := by
    rw [← String.toList_inj, String.toList_map, String.toList_map]
    decide
  have correct (other : FixedBytes 32) (read : fixed32 (Hex.encode (Concrete.key 1).val) = .ok other) :
      Concrete.crypto.validKey (Concrete.crypto.verifyingKey other) = true ∧
        ∀ message, Concrete.crypto.verify (Concrete.crypto.verifyingKey other) message
          (Concrete.crypto.sign other message) = true := by
    cases Except.ok.inj (readable.symm.trans read)
    have low : (Concrete.key 1).val.headD 0 < 0x40 := by decide
    simpa [Concrete.crypto] using low
  have apart : ∀ other ∈ (Host.empty : Host ℚ).opened ++ [state.operatorPublicKey],
      Concrete.crypto.walletIdFromPublicKey other = .ok request.id → other = request.publicKey := by
    intro other member _
    rw [shown]
    exact List.mem_singleton.mp member
  obtain ⟨operator, passed⟩ := (signed_requests_admitted run rfl checked (by decide) signed same correct apart
    false 0).mpr ⟨by decide, listed⟩
  exact ⟨_, state, request, operator, run, rfl, signed, passed⟩

end AggoraCoin
