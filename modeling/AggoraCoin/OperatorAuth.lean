import AggoraCoin.Plans

namespace AggoraCoin

variable {F : Type} {C : Crypto} {state : CoinState F} {security : SecurityParameters} {method path : String} {body : Bytes}
  {headers : OperatorHeaders} {adminOnly : Bool} {now : Timestamp} {operator : Operator}

/-- The key a request is checked against: the one it carries, else the stored key of the operator it names. -/
def presentedKey (state : CoinState F) (headers : OperatorHeaders) : Except StateError PublicKey :=
  match headers.operatorPublicKey, headers.operatorId with
  | some publicKey, _ => mapErr (fun _ => .invalidSignature) (normalizeBytesToHex publicKey 32)
  | none, some operatorId => (okOr (state.getOperator operatorId) .operatorUnauthorized).map Operator.pubkey
  | none, none => .error .operatorUnauthorized

/-- What the checks of a request establish when the bypass is off. -/
structure Authorized (C : Crypto) (state : CoinState F) (security : SecurityParameters) (method path : String) (body : Bytes)
    (headers : OperatorHeaders) (adminOnly : Bool) (now : Timestamp) (operator : Operator) (timestamp : Timestamp)
    (signature : String) : Prop where
  timestamp_eq : headers.timestamp = some timestamp
  fresh : i64Distance now timestamp ≤ security.timestampDriftMs
  signature_eq : headers.signature = some signature
  presented : presentedKey state headers = .ok operator.pubkey
  named : ∃ operatorId, C.walletIdFromPublicKey operator.pubkey = .ok operatorId ∧
    state.getOperator operatorId = some operator ∧ ∀ headerId ∈ headers.operatorId, headerId = operatorId
  active : operator.active = true
  admin : adminOnly = true → operator.role = .genesis
  signed : C.verifyEd25519 operator.pubkey (canonicalRequestMessage method path timestamp body) signature = .ok true

/-- The checks in the order the source makes them, on the key the request presents. -/
theorem verifyOperatorRequest_eq (checked : security.devAuthBypass = false) :
    verifyOperatorRequest C security method path body headers adminOnly now state = (do
      let timestamp ← okOr headers.timestamp .invalidSignature
      rejectIf (i64Distance now timestamp > security.timestampDriftMs) .invalidSignature
      let signature ← okOr headers.signature .invalidSignature
      let publicKey ← presentedKey state headers
      let operatorId ← mapErr (fun _ => .invalidSignature) (C.walletIdFromPublicKey publicKey)
      rejectIf (∃ headerId ∈ headers.operatorId, headerId ≠ operatorId) .operatorUnauthorized
      let operator ← okOr (state.getOperator operatorId) .operatorUnauthorized
      rejectIf (operator.active = false ∨ operator.pubkey ≠ publicKey) .operatorUnauthorized
      rejectIf (adminOnly = true ∧ operator.role ≠ .genesis) .operatorUnauthorized
      let valid ← mapErr (fun _ => .invalidSignature)
        (C.verifyEd25519 publicKey (canonicalRequestMessage method path timestamp body) signature)
      rejectIf (valid = false) .invalidSignature
      pure operator) := by
  obtain ⟨timestamp, signature, operatorId, publicKey⟩ := headers
  have open_ : ¬ (security.devAuthBypass = true ∧ signature.isNone = true) := by simp [checked]
  unfold verifyOperatorRequest presentedKey
  rw [if_neg open_]
  cases publicKey with
  | some publicKey => rfl
  | none =>
    cases operatorId with
    | some operatorId => rfl
    | none => rfl

theorem verifyOperatorRequest_eq_ok_iff (checked : security.devAuthBypass = false) :
    verifyOperatorRequest C security method path body headers adminOnly now state = .ok operator ↔
      ∃ timestamp signature,
        Authorized C state security method path body headers adminOnly now operator timestamp signature := by
  simp only [verifyOperatorRequest_eq checked, bind_eq_ok_iff, rejectIf_eq_ok_iff, okOr_eq_ok_iff, mapErr_eq_ok_iff,
    pure_eq_ok_iff]
  constructor
  · rintro ⟨timestamp, timed, _, fresh, signature, given, key, presented, operatorId, named, _, headerSame, found, stored,
      _, live, _, admin, valid, verified, _, accepted, rfl⟩
    obtain ⟨active, same⟩ := not_or.mp live
    have key_eq : found.pubkey = key := not_not.mp same
    subst key_eq
    refine ⟨timestamp, signature, timed, not_lt.mp fresh, given, presented, ⟨operatorId, named, stored, ?_⟩, ?_, ?_, ?_⟩
    · intro headerId member
      by_contra other
      exact headerSame ⟨headerId, member, other⟩
    · simpa using active
    · intro demanded
      by_contra other
      exact admin ⟨demanded, other⟩
    · have holds : valid = true := by simpa using accepted
      exact holds ▸ verified
  · rintro ⟨timestamp, signature, authorized⟩
    obtain ⟨operatorId, named, stored, headerSame⟩ := authorized.named
    refine ⟨timestamp, authorized.timestamp_eq, (), not_lt.mpr authorized.fresh, signature, authorized.signature_eq,
      operator.pubkey, authorized.presented, operatorId, named, (), ?_, operator, stored, (), ?_, (), ?_, true,
      authorized.signed, (), by simp, rfl⟩
    · rintro ⟨headerId, member, other⟩
      exact other (headerSame headerId member)
    · simp [authorized.active]
    · rintro ⟨demanded, other⟩
      exact other (authorized.admin demanded)

end AggoraCoin
