import AggoraCoin.Lib.Delimited
import AggoraCoin.Operations

namespace AggoraCoin

/-- The routes whose handlers ask `operator_auth`, with the method and path they pass to it. -/
def operatorRoutes : List (String × String) :=
  [("POST", "/api/v1/wallet"), ("POST", "/api/v1/charge"), ("GET", "/admin/parameters"),
    ("PUT", "/admin/parameters"), ("POST", "/admin/simulation/start"), ("POST", "/admin/simulation/stop"),
    ("POST", "/admin/snapshot"), ("POST", "/admin/operator")]

/-- What `build_entry` signs. -/
def leaderPayload (tick : Tick) (hash txRoot : Hash) : Bytes :=
  asBytes (toString tick ++ ":" ++ hash ++ ":" ++ txRoot)

/-- 64 hex digits, in either case. -/
structure HexHash (hash : Hash) : Prop where
  length_eq : hash.toList.length = 64
  digits : ∀ c ∈ hash.toList, isAsciiHexdigit c = true

theorem newline_notMem_nat (n : Nat) : '\n' ∉ (toString n).toList := by
  intro member
  rw [Nat.toString_eq_ofList_toDigits, String.toList_ofList] at member
  have digit := Nat.isDigit_of_mem_toDigits (by decide) (by decide) member
  exact absurd digit (by decide)

theorem newline_notMem_int (n : Int) : '\n' ∉ (toString n).toList := by
  cases n with
  | ofNat n => exact newline_notMem_nat n
  | negSucc n =>
    intro member
    have signed : (toString (Int.negSucc n)).toList = '-' :: (toString (n + 1)).toList := String.toList_append
    rw [signed, List.mem_cons] at member
    rcases member with dash | digits
    · exact absurd dash (by decide)
    · exact newline_notMem_nat (n + 1) digits

theorem toUpper_eq_newline {c : Char} (upper : c.toUpper = '\n') : c = '\n' := by
  unfold Char.toUpper at upper
  split at upper
  · rename_i lower
    have value : (c.val + ('A'.val - 'a'.val)).toNat = 10 := by
      have here := congrArg (fun c : Char => c.val.toNat) upper
      simpa using here
    have low : 97 ≤ c.val.toNat := UInt32.le_iff_toNat_le.mp lower.1
    have high : c.val.toNat ≤ 122 := UInt32.le_iff_toNat_le.mp lower.2
    have shift : ('A'.val - 'a'.val).toNat = 4294967264 := by decide
    rw [UInt32.toNat_add, shift] at value
    omega
  · exact upper

theorem newline_notMem_upper {method : String} (plain : '\n' ∉ method.toList) :
    '\n' ∉ (method.map Char.toUpper).toList := by
  intro member
  rw [String.toList_map] at member
  obtain ⟨c, inMethod, upper⟩ := List.mem_map.mp member
  exact plain (toUpper_eq_newline upper ▸ inMethod)

theorem HexHash.newline_notMem {hash : Hash} (hex : HexHash hash) : '\n' ∉ hash.toList := by
  intro member
  exact absurd (hex.digits _ member) (by decide)

/-- The three parts before the body each end at the next newline. -/
theorem canonicalRequestMessage_eq (method path : String) (timestamp : Timestamp) (body : Bytes) :
    canonicalRequestMessage method path timestamp body = asBytes (method.map Char.toUpper) ++
      10 :: (asBytes path ++ 10 :: (asBytes (toString timestamp) ++ 10 :: body)) := by
  have newline : asBytes "\n" = [10] := by decide
  simp only [canonicalRequestMessage, asBytes_append, newline, List.append_assoc, List.cons_append, List.nil_append]

theorem canonicalRequestMessage_inj {method method' path path' : String} {timestamp timestamp' : Timestamp}
    {body body' : Bytes} (plain : '\n' ∉ method.toList) (plain' : '\n' ∉ method'.toList)
    (pathPlain : '\n' ∉ path.toList) (pathPlain' : '\n' ∉ path'.toList)
    (same : canonicalRequestMessage method path timestamp body =
      canonicalRequestMessage method' path' timestamp' body') :
    method.map Char.toUpper = method'.map Char.toUpper ∧ path = path' ∧ timestamp = timestamp' ∧ body = body' := by
  rw [canonicalRequestMessage_eq, canonicalRequestMessage_eq] at same
  obtain ⟨methods, same⟩ := Delimited.split (newline_notMem_asBytes (newline_notMem_upper plain))
    (newline_notMem_asBytes (newline_notMem_upper plain')) same
  obtain ⟨paths, same⟩ := Delimited.split (newline_notMem_asBytes pathPlain) (newline_notMem_asBytes pathPlain') same
  obtain ⟨times, bodies⟩ := Delimited.split (newline_notMem_asBytes (newline_notMem_int timestamp))
    (newline_notMem_asBytes (newline_notMem_int timestamp')) same
  exact ⟨asBytes_injective methods, asBytes_injective paths, Int.repr_inj.mp (asBytes_injective times), bodies⟩

theorem newline_mem_canonical (method path : String) (timestamp : Timestamp) (body : Bytes) :
    10 ∈ canonicalRequestMessage method path timestamp body := by
  rw [canonicalRequestMessage_eq]
  exact List.mem_append_right _ (List.mem_cons_self ..)

theorem newline_notMem_leaderPayload (tick : Tick) {hash txRoot : Hash} (hex : HexHash hash) (hex' : HexHash txRoot) :
    10 ∉ leaderPayload tick hash txRoot := by
  refine newline_notMem_asBytes fun member => ?_
  have colon : '\n' ∉ (":" : String).toList := by decide
  simp only [String.toList_append, List.mem_append] at member
  rcases member with (((inTick | sep) | inHash) | sep) | inRoot
  · exact newline_notMem_nat tick inTick
  · exact colon sep
  · exact hex.newline_notMem inHash
  · exact colon sep
  · exact hex'.newline_notMem inRoot

theorem length_leaderPayload (tick : Tick) {hash : Hash} (hex : HexHash hash) (txRoot : Hash) :
    64 < (leaderPayload tick hash txRoot).length := by
  have text := length_le_utf8 (toString tick ++ ":" ++ hash ++ ":" ++ txRoot).toList
  have colon : (":" : String).toList.length = 1 := by decide
  have sized := hex.length_eq
  simp only [String.toList_append, List.length_append, colon, sized] at text
  unfold leaderPayload asBytes
  simp only [String.toList_append] at text ⊢
  omega

theorem length_txSigningMessage {txId : Hash} {message : Bytes} (signed : txSigningMessage txId = .ok message) :
    message.length = 32 := by
  unfold txSigningMessage at signed
  split at signed
  · cases signed
  · split at signed
    · rename_i sized
      cases signed
      exact sized
    · cases signed

theorem length_toString_int {n : Int} (wide : 10 ^ 12 ≤ n.natAbs) : 13 ≤ (toString n).toList.length := by
  have digits (m : Nat) (wide : 10 ^ 12 ≤ m) : 13 ≤ (toString m).toList.length := by
    rw [Nat.toString_eq_ofList_toDigits, String.toList_ofList]
    by_contra short
    have small := (Nat.length_toDigits_le_iff (by decide) (by decide)).mp (by omega : (Nat.toDigits 10 m).length ≤ 12)
    omega
  cases n with
  | ofNat n => exact digits n wide
  | negSucc n =>
    have signed : (toString (Int.negSucc n)).toList = '-' :: (toString (n + 1)).toList := String.toList_append
    have counted := digits (n + 1) wide
    rw [signed, List.length_cons]
    omega

/-- The method and path of every operator route are so long that no body makes the message short. -/
theorem length_canonical {route : String × String} (listed : route ∈ operatorRoutes) {timestamp : Timestamp}
    (wide : 10 ^ 12 ≤ timestamp.natAbs) (body : Bytes) :
    32 < (canonicalRequestMessage route.1 route.2 timestamp body).length := by
  have parts : 18 ≤ route.1.toList.length + route.2.toList.length := by
    have all : ∀ route ∈ operatorRoutes, 18 ≤ route.1.toList.length + route.2.toList.length := by decide
    exact all route listed
  have methodLong := length_le_utf8 (route.1.map Char.toUpper).toList
  have pathLong := length_le_utf8 route.2.toList
  have clock := (length_toString_int wide).trans (length_le_utf8 _)
  rw [String.toList_map, List.length_map] at methodLong
  rw [canonicalRequestMessage_eq]
  simp only [List.length_append, List.length_cons]
  unfold asBytes
  rw [String.toList_map]
  omega

/-- The bytes that are signed tell which role they were signed in, and what for: request messages
are read in one way, and no leader payload, request message and transaction id coincide. -/
theorem signed_messages_unambiguous :
    (∀ (method method' path path' : String) (timestamp timestamp' : Timestamp) (body body' : Bytes),
      '\n' ∉ method.toList → '\n' ∉ method'.toList → '\n' ∉ path.toList → '\n' ∉ path'.toList →
        canonicalRequestMessage method path timestamp body = canonicalRequestMessage method' path' timestamp' body' →
          method.map Char.toUpper = method'.map Char.toUpper ∧ path = path' ∧ timestamp = timestamp' ∧ body = body') ∧
    (∀ (tick : Tick) (hash txRoot : Hash), HexHash hash → HexHash txRoot →
      (∀ (method path : String) (timestamp : Timestamp) (body : Bytes),
        leaderPayload tick hash txRoot ≠ canonicalRequestMessage method path timestamp body) ∧
      ∀ txId message, txSigningMessage txId = .ok message → leaderPayload tick hash txRoot ≠ message) ∧
    ∀ route ∈ operatorRoutes, ∀ timestamp : Timestamp, 10 ^ 12 ≤ timestamp.natAbs → ∀ (body : Bytes) txId message,
      txSigningMessage txId = .ok message → canonicalRequestMessage route.1 route.2 timestamp body ≠ message := by
  refine ⟨?_, fun tick hash txRoot hex hex' => ⟨?_, ?_⟩, ?_⟩
  · intro method method' path path' timestamp timestamp' body body' plain plain' pathPlain pathPlain' same
    exact canonicalRequestMessage_inj plain plain' pathPlain pathPlain' same
  · intro method path timestamp body same
    exact newline_notMem_leaderPayload tick hex hex' (same ▸ newline_mem_canonical method path timestamp body)
  · intro txId message signed same
    have long := length_leaderPayload tick hex txRoot
    rw [same, length_txSigningMessage signed] at long
    omega
  · intro route listed timestamp wide body txId message signed same
    have long := length_canonical listed wide body
    rw [same, length_txSigningMessage signed] at long
    omega

theorem hexHash_zero : HexHash zeroHashHex := by
  have text : zeroHashHex.toList = List.replicate 64 '0' := String.toList_ofList
  refine ⟨by rw [text, List.length_replicate], fun c member => ?_⟩
  rw [text] at member
  rw [(List.mem_replicate.mp member).2]
  decide

/-- A charge of one millisecond is not the charge of the next, nor an entry, nor a transaction. -/
theorem signed_messages_unambiguous_charge :
    canonicalRequestMessage "POST" "/api/v1/charge" 1700000000000 [] ≠
      canonicalRequestMessage "POST" "/api/v1/charge" 1700000000001 [] ∧
    leaderPayload 1 zeroHashHex zeroHashHex ≠ canonicalRequestMessage "POST" "/api/v1/charge" 1700000000000 [] ∧
    canonicalRequestMessage "POST" "/api/v1/charge" 1700000000000 [] ≠ List.replicate 32 0 := by
  obtain ⟨injective, leader, routes⟩ := signed_messages_unambiguous
  have method : '\n' ∉ ("POST" : String).toList := by decide
  have path : '\n' ∉ ("/api/v1/charge" : String).toList := by decide
  have zeroSigned : txSigningMessage zeroHashHex = .ok (List.replicate 32 0) := by
    have decoded : decodeBytes (Hex.encode (List.replicate 32 0)) = .ok (List.replicate 32 0) :=
      decodeBytes_encode (by decide)
    have encoded : zeroHashHex = Hex.encode (List.replicate 32 0) := by decide
    simp only [txSigningMessage, encoded, decoded, List.length_replicate, if_true]
  refine ⟨fun same => ?_, (leader 1 _ _ hexHash_zero hexHash_zero).1 _ _ _ _, ?_⟩
  · have times := (injective _ _ _ _ _ _ _ _ method method path path same).2.2.1
    exact absurd times (by decide)
  · exact routes ("POST", "/api/v1/charge") (by decide) 1700000000000 (by decide) [] zeroHashHex _ zeroSigned

/-- The signature of an entry is over its leader payload. -/
theorem buildEntry_leaderSig {C : Crypto} {tick : Tick} {prevHash : Hash} {txIds : List Hash} {leader : ValidatorId}
    {secret : String} {now : Timestamp} {entry : PohEntry}
    (built : C.buildEntry tick prevHash txIds leader (some secret) now = .ok entry) :
    C.signWithSecretHex secret (leaderPayload entry.tick entry.hash entry.txRoot) = .ok entry.leaderSig := by
  unfold Crypto.buildEntry at built
  cases rooted : C.merkleRootHex txIds with
  | error e => simp [rooted, bind, Except.bind] at built
  | ok txRoot =>
    simp only [rooted, bind, Except.bind, pure, Except.pure] at built
    split at built
    · cases built
    · rename_i sig signed
      cases built
      exact signed

end AggoraCoin
