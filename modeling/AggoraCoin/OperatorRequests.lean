import AggoraCoin.Restarts

namespace AggoraCoin

/-- The values sent under each name, in order. -/
abbrev HeaderMap := String → List Bytes

def isVisibleAscii (byte : UInt8) : Bool := (32 ≤ byte && byte < 127) || byte = 9

/-- `HeaderValue::to_str`. -/
def headerText (value : Bytes) : Option String :=
  if value.all isVisibleAscii then some (String.ofList (value.map fun byte => Char.ofNat byte.toNat)) else none

/-- `HeaderMap::get` gives the first value, and one that is not text counts as none. -/
def headerStr (headers : HeaderMap) (name : String) : Option String := (headers name).head?.bind headerText

/-- One or more decimal digits. -/
def parseDigits (digits : List Char) : Option Nat :=
  if digits ≠ [] ∧ digits.all Char.isDigit then some (Nat.ofDigitChars 10 digits 0) else none

/-- `str::parse::<i64>`: an optional sign and digits, in the range of the type. -/
def parseI64 (text : String) : Option Int :=
  let value : Option Int :=
    match text.toList with
    | '-' :: digits => (parseDigits digits).map fun n => -(n : Int)
    | '+' :: digits => (parseDigits digits).map fun n => (n : Int)
    | digits => (parseDigits digits).map fun n => (n : Int)
  value.filter fun n => -2 ^ 63 ≤ n ∧ n < 2 ^ 63

/-- The headers as `operator_auth` reads them. -/
def operatorHeaders (headers : HeaderMap) : OperatorHeaders where
  timestamp := (headerStr headers "x-operator-timestamp").bind parseI64
  signature := headerStr headers "x-operator-signature"
  operatorId := headerStr headers "x-operator-id"
  operatorPublicKey := headerStr headers "x-operator-public-key"

variable {F : Type} {C : Crypto} {state : CoinState F} {security : SecurityParameters} {method path : String}
  {body : Bytes} {adminOnly : Bool} {now : Timestamp}

/-- Every operator on record is named by the hash of its key, and its key is in lower-case hex. -/
def CoinState.Registered (C : Crypto) (state : CoinState F) : Prop :=
  ∀ id operator, state.getOperator id = some operator →
    ∃ key : FixedBytes 32, operator.pubkey = Hex.encode key.val ∧ operator.id = C.blake3Hex key.val

/-- What a request must show, its age apart. Where a header is sent more than once, its timestamp and
signature are the first ones, and every id and key counts. -/
structure Presents (C : Crypto) (state : CoinState F) (method path : String) (body : Bytes) (headers : HeaderMap)
    (adminOnly : Bool) (operator : Operator) (timestamp : Timestamp) (signature : String) : Prop where
  timestamp_eq : (headerStr headers "x-operator-timestamp").bind parseI64 = some timestamp
  signature_eq : headerStr headers "x-operator-signature" = some signature
  selects : headers "x-operator-id" ≠ [] ∨ headers "x-operator-public-key" ≠ []
  agrees_id : ∀ value ∈ headers "x-operator-id", headerText value = some operator.id
  agrees_key : ∀ value ∈ headers "x-operator-public-key",
    ∃ text, headerText value = some text ∧ normalizeBytesToHex text 32 = .ok operator.pubkey
  stored : state.getOperator operator.id = some operator
  active : operator.active = true
  admin : adminOnly = true → operator.role = .genesis
  signed : C.verifyEd25519 operator.pubkey (canonicalRequestMessage method path timestamp body) signature = .ok true

/-- The same, of the headers as `operator_auth` reads them. -/
structure PresentsRead (C : Crypto) (state : CoinState F) (method path : String) (body : Bytes)
    (headers : OperatorHeaders) (adminOnly : Bool) (operator : Operator) (timestamp : Timestamp) (signature : String) :
    Prop where
  timestamp_eq : headers.timestamp = some timestamp
  signature_eq : headers.signature = some signature
  selects : headers.operatorId.isSome ∨ headers.operatorPublicKey.isSome
  agrees_id : ∀ headerId ∈ headers.operatorId, headerId = operator.id
  agrees_key : ∀ headerKey ∈ headers.operatorPublicKey, normalizeBytesToHex headerKey 32 = .ok operator.pubkey
  stored : state.getOperator operator.id = some operator
  active : operator.active = true
  admin : adminOnly = true → operator.role = .genesis
  signed : C.verifyEd25519 operator.pubkey (canonicalRequestMessage method path timestamp body) signature = .ok true

/-- An id or key header is sent that is not text or is another operator's. -/
def Disagrees (headers : HeaderMap) (operator : Operator) : Prop :=
  (∃ value ∈ headers "x-operator-id", headerText value ≠ some operator.id) ∨
    ∃ value ∈ headers "x-operator-public-key",
      ∀ text, headerText value = some text → normalizeBytesToHex text 32 ≠ .ok operator.pubkey

theorem headerStr_isSome {headers : HeaderMap} {name : String} {read : Bytes → Prop}
    (sent : headers name ≠ []) (readable : ∀ value ∈ headers name, read value)
    (text : ∀ value, read value → (headerText value).isSome) : (headerStr headers name).isSome := by
  unfold headerStr
  cases values : headers name with
  | nil => exact absurd values sent
  | cons value rest =>
    rw [values] at readable
    exact text value (readable value List.mem_cons_self)

theorem exists_headerText {headers : HeaderMap} {name text : String} (read : headerStr headers name = some text) :
    ∃ value ∈ headers name, headerText value = some text := by
  obtain ⟨value, first, same⟩ := Option.bind_eq_some_iff.mp read
  exact ⟨value, List.mem_of_mem_head? first, same⟩

/-- `operator_auth` reads less than is sent: it misses what disagrees. -/
theorem presents_iff {headers : HeaderMap} {operator : Operator} {timestamp : Timestamp} {signature : String} :
    Presents C state method path body headers adminOnly operator timestamp signature ↔
      PresentsRead C state method path body (operatorHeaders headers) adminOnly operator timestamp signature ∧
        ¬ Disagrees headers operator := by
  constructor
  · intro presents
    refine ⟨⟨presents.timestamp_eq, presents.signature_eq, ?_, ?_, ?_, presents.stored, presents.active, presents.admin,
      presents.signed⟩, ?_⟩
    · refine presents.selects.imp (fun sent => ?_) fun sent => ?_
      · exact headerStr_isSome sent presents.agrees_id fun _ same => same ▸ rfl
      · exact headerStr_isSome sent presents.agrees_key fun _ ⟨_, same, _⟩ => same ▸ rfl
    · intro headerId read
      obtain ⟨value, member, same⟩ := exists_headerText read
      exact Option.some.inj (same.symm.trans (presents.agrees_id value member))
    · intro headerKey read
      obtain ⟨value, member, same⟩ := exists_headerText read
      obtain ⟨text, again, normalized⟩ := presents.agrees_key value member
      cases same.symm.trans again
      exact normalized
    · rintro (⟨value, member, other⟩ | ⟨value, member, other⟩)
      · exact other (presents.agrees_id value member)
      · obtain ⟨text, same, normalized⟩ := presents.agrees_key value member
        exact other text same normalized
  · rintro ⟨read, agrees⟩
    obtain ⟨ids, keys⟩ := not_or.mp agrees
    refine ⟨read.timestamp_eq, read.signature_eq, ?_, ?_, ?_, read.stored, read.active, read.admin, read.signed⟩
    · refine read.selects.imp (fun sent => ?_) fun sent => ?_
      · obtain ⟨text, found⟩ := Option.isSome_iff_exists.mp sent
        obtain ⟨_, member, _⟩ := exists_headerText found
        exact List.ne_nil_of_mem member
      · obtain ⟨text, found⟩ := Option.isSome_iff_exists.mp sent
        obtain ⟨_, member, _⟩ := exists_headerText found
        exact List.ne_nil_of_mem member
    · intro value member
      by_contra other
      exact ids ⟨value, member, other⟩
    · intro value member
      by_contra other
      exact keys ⟨value, member, fun text same normalized => other ⟨text, same, normalized⟩⟩

/-- So far back that the subtraction wraps, to the smallest value, which is its own absolute
value, or to a distance within the drift. -/
def WrapsInto (drift now ts : Int) : Prop :=
  now - ts = 2 ^ 63 ∨ 2 ^ 63 < now - ts ∧ 2 ^ 64 - (now - ts) ≤ drift

theorem parseI64_range {text : String} {n : Int} (read : parseI64 text = some n) : -2 ^ 63 ≤ n ∧ n < 2 ^ 63 := by
  simpa using (Option.filter_eq_some_iff.mp read).2

/-- Between a reading of the clock and any `i64`, only a timestamp far in the past wraps. -/
theorem i64Distance_le_iff {now ts drift : Int} (clock : 0 ≤ now ∧ now ≤ 2 ^ 62) (range : -2 ^ 63 ≤ ts ∧ ts < 2 ^ 63)
    (allowed : 0 ≤ drift ∧ drift < 2 ^ 63) :
    i64Distance now ts ≤ drift ↔ |now - ts| ≤ drift ∨ WrapsInto drift now ts := by
  unfold i64Distance WrapsInto
  by_cases far : 2 ^ 63 ≤ now - ts
  · have wrapped : Int.bmod (now - ts) (2 ^ 64) = now - ts - 2 ^ 64 := by
      have turn : Int.bmod (now - ts - 2 ^ 64 + 1 * (2 ^ 64 : Nat)) (2 ^ 64) = Int.bmod (now - ts - 2 ^ 64) (2 ^ 64) :=
        Int.add_mul_bmod_self_right ..
      rw [one_mul, Nat.cast_pow, Nat.cast_ofNat, Int.sub_add_cancel] at turn
      exact turn.trans (Int.bmod_eq_of_le (by omega) (by omega))
    rw [wrapped, abs_of_nonpos (by omega : now - ts - 2 ^ 64 ≤ 0), abs_of_nonneg (by omega : 0 ≤ now - ts), neg_sub]
    by_cases edge : now - ts = 2 ^ 63
    · have least : Int.bmod (2 ^ 64 - 2 ^ 63) (2 ^ 64) = -2 ^ 63 := by decide
      rw [edge, least]
      omega
    · rw [Int.bmod_eq_of_le (by omega) (by omega)]
      omega
  · have near : |now - ts| < 2 ^ 63 := abs_lt.mpr ⟨by omega, by omega⟩
    have nonneg : 0 ≤ |now - ts| := abs_nonneg _
    have plain : Int.bmod (now - ts) (2 ^ 64) = now - ts := Int.bmod_eq_of_le (by omega) (by omega)
    rw [plain, Int.bmod_eq_of_le (by omega) (by omega)]
    omega

theorem WrapsInto.not_near {drift now ts : Int} (wraps : WrapsInto drift now ts) (small : drift < 2 ^ 63) :
    ¬ |now - ts| ≤ drift := by
  intro near
  have below := (le_abs_self (now - ts)).trans near
  rcases wraps with edge | ⟨far, _⟩
  · omega
  · omega

/-- Over a registry in order the checks of the code ask for the same as the request must show. -/
theorem authorized_iff {headers : OperatorHeaders} {operator : Operator} {timestamp : Timestamp} {signature : String}
    (registered : state.Registered C) :
    Authorized C state security method path body headers adminOnly now operator timestamp signature ↔
      i64Distance now timestamp ≤ security.timestampDriftMs ∧
        PresentsRead C state method path body headers adminOnly operator timestamp signature := by
  constructor
  · intro authorized
    obtain ⟨operatorId, named, stored, sameId⟩ := authorized.named
    obtain ⟨key, hex, hashed⟩ := registered operatorId operator stored
    have own : operator.id = operatorId := KeyedTree.key_of_get stored
    refine ⟨authorized.fresh, authorized.timestamp_eq, authorized.signature_eq, ?_, ?_, ?_, own ▸ stored,
      authorized.active, authorized.admin, authorized.signed⟩
    · have presented := authorized.presented
      unfold presentedKey at presented
      cases given : headers.operatorPublicKey with
      | some _ => exact Or.inr rfl
      | none =>
        cases named : headers.operatorId with
        | some _ => exact Or.inl rfl
        | none =>
          rw [given, named] at presented
          cases presented
    · exact fun headerId member => (sameId headerId member).trans own.symm
    · intro headerKey member
      have presented := authorized.presented
      unfold presentedKey at presented
      rw [Option.mem_def.mp member] at presented
      exact mapErr_eq_ok_iff.mp presented
  · rintro ⟨fresh, presents⟩
    obtain ⟨key, hex, hashed⟩ := registered operator.id operator presents.stored
    have read : fixed32 operator.pubkey = .ok key := hex ▸ fixedBytes_encode key (by decide)
    refine ⟨presents.timestamp_eq, fresh, presents.signature_eq, ?_, ?_, presents.active, presents.admin,
      presents.signed⟩
    · unfold presentedKey
      cases given : headers.operatorPublicKey with
      | some headerKey => exact mapErr_eq_ok_iff.mpr (presents.agrees_key headerKey given)
      | none =>
        cases named : headers.operatorId with
        | some headerId =>
          have same : headerId = operator.id := presents.agrees_id headerId named
          simp only [same, presents.stored, okOr]
          rfl
        | none =>
          have selects := presents.selects
          rw [given, named] at selects
          simp at selects
    · exact ⟨operator.id, C.walletIdFromPublicKey_eq_ok_iff.mpr ⟨key, read, hashed⟩, presents.stored,
        presents.agrees_id⟩

/-- Requests are let in as they should be unless the one at hand, as `operator_auth` reads it, is in
order and its timestamp wraps, or is fresh while a header that is not read disagrees. -/
theorem verifyOperatorRequest_exact_iff (registered : state.Registered C) (checked : security.devAuthBypass = false)
    (clock : 0 ≤ now ∧ now ≤ 2 ^ 62) (allowed : 0 ≤ security.timestampDriftMs ∧ security.timestampDriftMs < 2 ^ 63)
    (headers : HeaderMap) :
    (∀ operator, verifyOperatorRequest C security method path body (operatorHeaders headers) adminOnly now state =
        .ok operator ↔
      ∃ timestamp signature, |now - timestamp| ≤ security.timestampDriftMs ∧
        Presents C state method path body headers adminOnly operator timestamp signature) ↔
    ¬ ∃ timestamp operator signature,
      PresentsRead C state method path body (operatorHeaders headers) adminOnly operator timestamp signature ∧
        (WrapsInto security.timestampDriftMs now timestamp ∨
          |now - timestamp| ≤ security.timestampDriftMs ∧ Disagrees headers operator) := by
  have judged (operator : Operator) :
      verifyOperatorRequest C security method path body (operatorHeaders headers) adminOnly now state = .ok operator ↔
        ∃ timestamp signature, (|now - timestamp| ≤ security.timestampDriftMs ∨
            WrapsInto security.timestampDriftMs now timestamp) ∧
          PresentsRead C state method path body (operatorHeaders headers) adminOnly operator timestamp signature := by
    rw [verifyOperatorRequest_eq_ok_iff checked]
    refine exists_congr fun timestamp => exists_congr fun signature => ?_
    rw [authorized_iff registered]
    refine and_congr_left fun presents => ?_
    have range : -2 ^ 63 ≤ timestamp ∧ timestamp < 2 ^ 63 := by
      obtain ⟨text, _, read⟩ := Option.bind_eq_some_iff.mp presents.timestamp_eq
      exact parseI64_range read
    exact i64Distance_le_iff clock range allowed
  constructor
  · rintro exact_ ⟨timestamp, operator, signature, read, astray⟩
    have passes := astray.symm.imp_left And.left
    obtain ⟨timestamp', _, near, presents⟩ :=
      (exact_ operator).mp ((judged operator).mpr ⟨timestamp, signature, passes, read⟩)
    obtain ⟨_, agrees⟩ := presents_iff.mp presents
    have same : timestamp' = timestamp := Option.some.inj (presents.timestamp_eq.symm.trans read.timestamp_eq)
    rw [same] at near
    rcases astray with wraps | ⟨_, disagrees⟩
    · exact wraps.not_near allowed.2 near
    · exact agrees disagrees
  · intro straight operator
    rw [judged]
    refine exists_congr fun timestamp => exists_congr fun signature => ?_
    rw [presents_iff]
    constructor
    · rintro ⟨near | wraps, read⟩
      · exact ⟨near, read, fun disagrees => straight ⟨timestamp, operator, signature, read, Or.inr ⟨near, disagrees⟩⟩⟩
      · exact absurd ⟨timestamp, operator, signature, read, Or.inl wraps⟩ straight
    · rintro ⟨near, read, _⟩
      exact ⟨Or.inl near, read⟩

namespace Concrete

/-- The header value of a plain text. -/
def headerValue (text : String) : Bytes := text.toList.map fun c => UInt8.ofNat c.toNat

theorem headerText_headerValue {text : String} (visible : ∀ c ∈ text.toList, 32 ≤ c.toNat ∧ c.toNat < 127) :
    headerText (headerValue text) = some text := by
  have byte {c : Char} (member : c ∈ text.toList) : (UInt8.ofNat c.toNat).toNat = c.toNat := by
    have small : c.toNat < 256 := (visible c member).2.trans (by decide)
    rw [UInt8.toNat_ofNat', Nat.mod_eq_of_lt small]
  have allVisible : (headerValue text).all isVisibleAscii = true := by
    rw [headerValue, List.all_map, List.all_eq_true]
    intro c member
    have bounds := visible c member
    have printable : 32 ≤ UInt8.ofNat c.toNat ∧ UInt8.ofNat c.toNat < 127 := by
      rw [UInt8.le_iff_toNat_le, UInt8.lt_iff_toNat_lt, byte member]
      exact bounds
    simp [isVisibleAscii, printable]
  have same : (headerValue text).map (fun byte => Char.ofNat byte.toNat) = text.toList := by
    rw [headerValue, List.map_map]
    refine (List.map_congr_left fun c member => ?_).trans (List.map_id _)
    rw [Function.comp_apply, byte member, Char.ofNat_toNat, id]
  rw [headerText, if_pos allVisible, same, String.ofList_toList]

theorem headerStr_headerValue {headers : HeaderMap} {name text : String}
    (visible : ∀ c ∈ text.toList, 32 ≤ c.toNat ∧ c.toNat < 127)
    (sent : (headers name).head? = some (headerValue text)) : headerStr headers name = some text := by
  rw [headerStr, sent, Option.bind_some, headerText_headerValue visible]

theorem visible_encode (bytes : Bytes) : ∀ c ∈ (Hex.encode bytes).toList, 32 ≤ c.toNat ∧ c.toNat < 127 := by
  have digits {n : Nat} (small : n < 16) : 32 ≤ (Hex.digit n).toNat ∧ (Hex.digit n).toNat < 127 := by
    have all : ∀ i : Fin 16, 32 ≤ (Hex.digit i.val).toNat ∧ (Hex.digit i.val).toNat < 127 := by decide
    exact all ⟨n, small⟩
  intro c member
  rw [Hex.toList_encode] at member
  obtain ⟨byte, _, inPair⟩ := List.mem_flatMap.mp member
  have bound := byte.toNat_lt
  simp only [Hex.pair, List.mem_cons, List.not_mem_nil, or_false] at inPair
  rcases inPair with rfl | rfl
  · exact digits (by omega)
  · exact digits (by omega)

/-- A request that the holder of `key` signs over a timestamp. -/
def requestHeaders (key : FixedBytes 32) (text : String) (timestamp : Timestamp) : HeaderMap
  | "x-operator-timestamp" => [headerValue text]
  | "x-operator-signature" =>
    [headerValue (Hex.encode (mark key (canonicalRequestMessage "POST" "/api/v1/charge" timestamp [])).val)]
  | "x-operator-public-key" => [headerValue (Hex.encode key.val)]
  | _ => []

theorem operatorHeaders_requestHeaders {key : FixedBytes 32} {text : String} {timestamp : Timestamp}
    (visible : ∀ c ∈ text.toList, 32 ≤ c.toNat ∧ c.toNat < 127) (read : parseI64 text = some timestamp) :
    operatorHeaders (requestHeaders key text timestamp) =
      { timestamp := some timestamp
        signature := some (Hex.encode (mark key (canonicalRequestMessage "POST" "/api/v1/charge" timestamp [])).val)
        operatorId := none
        operatorPublicKey := some (Hex.encode key.val) } := by
  have sentTimestamp : headerStr (requestHeaders key text timestamp) "x-operator-timestamp" = some text :=
    headerStr_headerValue visible (by simp [requestHeaders])
  have sentSignature := headerStr_headerValue (visible_encode (mark key
    (canonicalRequestMessage "POST" "/api/v1/charge" timestamp [])).val)
    (show (requestHeaders key text timestamp "x-operator-signature").head? = _ by simp [requestHeaders])
  have sentKey := headerStr_headerValue (visible_encode key.val)
    (show (requestHeaders key text timestamp "x-operator-public-key").head? = _ by simp [requestHeaders])
  have sentId : headerStr (requestHeaders key text timestamp) "x-operator-id" = none := by
    simp [headerStr, requestHeaders]
  rw [operatorHeaders, sentTimestamp, sentSignature, sentKey, sentId, Option.bind_some, read]

/-- A node with one operator on record. -/
def registry (key : FixedBytes 32) : CoinState ℚ :=
  { pair with storage := ⟨[.operator (genesisRecord (crypto.blake3Hex key.val) (Hex.encode key.val))]⟩ }

theorem getOperator_registry (key : FixedBytes 32) (id : OperatorId) : (registry key).getOperator id =
    if crypto.blake3Hex key.val = id then some (genesisRecord (crypto.blake3Hex key.val) (Hex.encode key.val))
    else none := by
  have operators : (registry key).trees.operators =
      KeyedTree.empty.put (genesisRecord (crypto.blake3Hex key.val) (Hex.encode key.val)) := rfl
  rw [CoinState.getOperator, operators]
  by_cases same : crypto.blake3Hex key.val = id
  · rw [if_pos same, ← same]
    exact KeyedTree.get_put_self _ _
  · rw [if_neg same]
    exact KeyedTree.get_put_of_ne _ same

theorem registry_registered (key : FixedBytes 32) : (registry key).Registered crypto := by
  intro id operator found
  rw [getOperator_registry] at found
  split at found
  · cases found
    exact ⟨key, rfl, rfl⟩
  · cases found

theorem registry_presentsRead {key : FixedBytes 32} (low : key.val.headD 0 < 0x40) {headers : OperatorHeaders}
    {timestamp : Timestamp} (timed : headers.timestamp = some timestamp)
    (signed : headers.signature =
      some (Hex.encode (mark key (canonicalRequestMessage "POST" "/api/v1/charge" timestamp [])).val))
    (selects : headers.operatorId.isSome ∨ headers.operatorPublicKey.isSome)
    (ids : ∀ headerId ∈ headers.operatorId, headerId = crypto.blake3Hex key.val)
    (keys : ∀ headerKey ∈ headers.operatorPublicKey, headerKey = Hex.encode key.val) :
    PresentsRead crypto (registry key) "POST" "/api/v1/charge" [] headers true
      (genesisRecord (crypto.blake3Hex key.val) (Hex.encode key.val)) timestamp
      (Hex.encode (mark key (canonicalRequestMessage "POST" "/api/v1/charge" timestamp [])).val) := by
  have keyRead : fixed32 (Hex.encode key.val) = .ok key := fixedBytes_encode key (by decide)
  refine ⟨timed, signed, selects, ids, ?_, ?_, rfl, fun _ => rfl, ?_⟩
  · intro headerKey member
    rw [keys headerKey member]
    exact normalizeBytesToHex_eq_ok_iff.mpr ⟨key, keyRead, rfl⟩
  · rw [getOperator_registry]
    exact if_pos rfl
  · refine crypto.verifyEd25519_eq_ok_true_iff.mpr ⟨key, _, keyRead, fixedBytes_encode _ (by decide), ?_, ?_⟩
    · simpa [crypto] using low
    · simpa [crypto] using low

theorem requestHeaders_read {key : FixedBytes 32} (low : key.val.headD 0 < 0x40) {text : String}
    {timestamp : Timestamp} (visible : ∀ c ∈ text.toList, 32 ≤ c.toNat ∧ c.toNat < 127)
    (read : parseI64 text = some timestamp) :
    PresentsRead crypto (registry key) "POST" "/api/v1/charge" [] (operatorHeaders (requestHeaders key text timestamp))
      true (genesisRecord (crypto.blake3Hex key.val) (Hex.encode key.val)) timestamp
      (Hex.encode (mark key (canonicalRequestMessage "POST" "/api/v1/charge" timestamp [])).val) := by
  rw [operatorHeaders_requestHeaders visible read]
  refine registry_presentsRead low rfl rfl (Or.inr rfl) (by simp) ?_
  rintro headerKey ⟨⟩
  rfl

theorem requestHeaders_agree {key : FixedBytes 32} {text : String} {timestamp : Timestamp} (operatorId : OperatorId) :
    ¬ Disagrees (requestHeaders key text timestamp) (genesisRecord operatorId (Hex.encode key.val)) := by
  have keyRead : fixed32 (Hex.encode key.val) = .ok key := fixedBytes_encode key (by decide)
  rintro (⟨value, member, _⟩ | ⟨value, member, other⟩)
  · simp [requestHeaders] at member
  · have sent : value = headerValue (Hex.encode key.val) := by simpa [requestHeaders] using member
    refine other (Hex.encode key.val) ?_ (normalizeBytesToHex_eq_ok_iff.mpr ⟨key, keyRead, rfl⟩)
    rw [sent]
    exact headerText_headerValue (visible_encode key.val)

/-- A request at time zero that names the operator by id, beside a key header that is not text. -/
def strayHeaders (key : FixedBytes 32) : HeaderMap
  | "x-operator-timestamp" => [headerValue "0"]
  | "x-operator-signature" =>
    [headerValue (Hex.encode (mark key (canonicalRequestMessage "POST" "/api/v1/charge" 0 [])).val)]
  | "x-operator-id" => [headerValue (crypto.blake3Hex key.val)]
  | "x-operator-public-key" => [[0xff]]
  | _ => []

theorem operatorHeaders_strayHeaders (key : FixedBytes 32) :
    operatorHeaders (strayHeaders key) =
      { timestamp := some 0
        signature := some (Hex.encode (mark key (canonicalRequestMessage "POST" "/api/v1/charge" 0 [])).val)
        operatorId := some (crypto.blake3Hex key.val)
        operatorPublicKey := none } := by
  have read : parseI64 "0" = some 0 := by decide
  have sentTimestamp : headerStr (strayHeaders key) "x-operator-timestamp" = some "0" :=
    headerStr_headerValue (by simp) (by simp [strayHeaders])
  have sentSignature := headerStr_headerValue (visible_encode (mark key
    (canonicalRequestMessage "POST" "/api/v1/charge" 0 [])).val)
    (show (strayHeaders key "x-operator-signature").head? = _ by simp [strayHeaders])
  have sentId : headerStr (strayHeaders key) "x-operator-id" = some (crypto.blake3Hex key.val) :=
    headerStr_headerValue (visible_encode _) (by simp [strayHeaders])
  have sentKey : headerStr (strayHeaders key) "x-operator-public-key" = none := by
    have unread : headerText [0xff] = none := by decide
    simp [headerStr, strayHeaders, unread]
  rw [operatorHeaders, sentTimestamp, sentSignature, sentKey, sentId, Option.bind_some, read]

theorem strayHeaders_read {key : FixedBytes 32} (low : key.val.headD 0 < 0x40) :
    PresentsRead crypto (registry key) "POST" "/api/v1/charge" [] (operatorHeaders (strayHeaders key)) true
      (genesisRecord (crypto.blake3Hex key.val) (Hex.encode key.val)) 0
      (Hex.encode (mark key (canonicalRequestMessage "POST" "/api/v1/charge" 0 [])).val) := by
  rw [operatorHeaders_strayHeaders]
  refine registry_presentsRead low rfl rfl (Or.inl rfl) ?_ (by simp)
  rintro headerId ⟨⟩
  rfl

end Concrete

/-- Signed over the earliest timestamp there is, a request stays fresh at time zero. -/
theorem verifyOperatorRequest_wrapped :
    ∃ (state : CoinState ℚ) (headers : HeaderMap) (operator : Operator), state.Registered Concrete.crypto ∧
      verifyOperatorRequest Concrete.crypto .default "POST" "/api/v1/charge" [] (operatorHeaders headers) true 0 state =
        .ok operator ∧
      ¬ ∃ timestamp signature, |0 - timestamp| ≤ SecurityParameters.default.timestampDriftMs ∧
        Presents Concrete.crypto state "POST" "/api/v1/charge" [] headers true operator timestamp signature := by
  have read : parseI64 "-9223372036854775808" = some (-2 ^ 63) := by decide
  have visible : ∀ c ∈ "-9223372036854775808".toList, 32 ≤ c.toNat ∧ c.toNat < 127 := by simp
  have registered := Concrete.registry_registered (Concrete.key 1)
  have low : (Concrete.key 1).val.headD 0 < 0x40 := by decide
  have presents := Concrete.requestHeaders_read low visible read
  refine ⟨_, _, _, registered, (verifyOperatorRequest_eq_ok_iff rfl).mpr ⟨_, _, (authorized_iff registered).mpr
    ⟨by decide, presents⟩⟩, ?_⟩
  rintro ⟨timestamp, signature, near, presents'⟩
  have same : timestamp = -2 ^ 63 := Option.some.inj (presents'.timestamp_eq.symm.trans presents.timestamp_eq)
  rw [same] at near
  exact absurd near (by decide)

/-- And a key header that is not text is passed over. -/
theorem verifyOperatorRequest_unread :
    ∃ (state : CoinState ℚ) (headers : HeaderMap) (operator : Operator), state.Registered Concrete.crypto ∧
      verifyOperatorRequest Concrete.crypto .default "POST" "/api/v1/charge" [] (operatorHeaders headers) true 0 state =
        .ok operator ∧
      ¬ ∃ timestamp signature, |0 - timestamp| ≤ SecurityParameters.default.timestampDriftMs ∧
        Presents Concrete.crypto state "POST" "/api/v1/charge" [] headers true operator timestamp signature := by
  have registered := Concrete.registry_registered (Concrete.key 1)
  have low : (Concrete.key 1).val.headD 0 < 0x40 := by decide
  refine ⟨_, _, _, registered, (verifyOperatorRequest_eq_ok_iff rfl).mpr ⟨_, _, (authorized_iff registered).mpr
    ⟨by decide, Concrete.strayHeaders_read low⟩⟩, ?_⟩
  rintro ⟨_, _, _, presents⟩
  have unread : headerText [0xff] = none := by decide
  obtain ⟨text, read, _⟩ := presents.agrees_key [0xff] (by simp [Concrete.strayHeaders])
  rw [unread] at read
  cases read

/-- A request signed over the reading of the clock. -/
theorem verifyOperatorRequest_exact_now :
    verifyOperatorRequest Concrete.crypto .default "POST" "/api/v1/charge" []
        (operatorHeaders (Concrete.requestHeaders (Concrete.key 1) "0" 0)) true 0 (Concrete.registry (Concrete.key 1)) =
      .ok (genesisRecord (Concrete.crypto.blake3Hex (Concrete.key 1).val) (Hex.encode (Concrete.key 1).val)) := by
  have registered := Concrete.registry_registered (Concrete.key 1)
  have read : parseI64 "0" = some 0 := by decide
  have visible : ∀ c ∈ "0".toList, 32 ≤ c.toNat ∧ c.toNat < 127 := by simp
  have low : (Concrete.key 1).val.headD 0 < 0x40 := by decide
  have presents := Concrete.requestHeaders_read low visible read
  refine ((verifyOperatorRequest_exact_iff registered rfl (by decide) (by decide) _).mpr ?_ _).mpr
    ⟨0, _, by decide, presents_iff.mpr ⟨presents, Concrete.requestHeaders_agree _⟩⟩
  rintro ⟨timestamp, operator, _, other, astray⟩
  cases presents.timestamp_eq.symm.trans other.timestamp_eq
  rcases astray with wraps | ⟨_, disagrees⟩
  · rcases wraps with edge | ⟨far, _⟩
    · cases edge
    · exact absurd far (by decide)
  · have stored := other.stored
    rw [Concrete.getOperator_registry] at stored
    split at stored
    · cases stored
      exact Concrete.requestHeaders_agree _ disagrees
    · cases stored

end AggoraCoin
