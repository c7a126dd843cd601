import AggoraCoin.Lib.Delimited
import AggoraCoin.Owners
import AggoraCoin.PohLog
import AggoraCoin.Spending

namespace AggoraCoin

variable {F : Type} [F64 F] {C : Crypto} {state : CoinState F} {inputs : Set Bytes} {values : Set Json}

inductive Slot
  | tick (n : Tick)
  | spend (fromId : WalletId) (nonce : Nonce)
  | iteration (n : IterationId)

def Payload.slot : Payload F → Slot
  | mint p => .tick p.nonce
  | transfer p => .spend p.fromId p.nonce
  | burn p => .spend p.fromId p.nonce
  | commit c => .iteration c.iterationId

def Transaction.slot : Transaction F → Option Slot
  | mint tx => some (.tick tx.nonce)
  | transfer tx => some (.spend tx.fromId tx.nonce)
  | burn tx => some (.spend tx.fromId tx.nonce)
  | iterationCommit tx => some (.iteration tx.iterationId)
  | operatorChange _ => none

/-- Two payloads that serialise alike take the same slot. -/
theorem Payload.slot_eq {p q : Payload F} (same : p.toJson = q.toJson) : p.slot = q.slot := by
  cases p <;> cases q <;>
    simp [Payload.toJson, MintPayload.toJson, TransferPayload.toJson, BurnPayload.toJson, IterationCommit.toJson] at same
  all_goals simp [Payload.slot, same]

/-- A slot the run has gone past. -/
def Slot.Past (state : CoinState F) : Slot → Prop
  | tick n => n ≤ state.system.currentTick
  | spend fromId nonce => nonce < state.nonceOf fromId
  | iteration n => n ≤ state.system.currentIteration

theorem Books.slot {booking : Booking F} {sheet : Sheet F} (books : Books C state booking sheet) :
    sheet.tx.slot = some sheet.payload.slot ∧ ¬ sheet.payload.slot.Past state := by
  cases books with
  | create planned =>
    have valid := (planCreateWallet_ok planned).2.1
    simp [Transaction.slot, Payload.slot, Slot.Past, valid.payload_nonce, valid.tx_nonce]
  | seed planned =>
    have valid := (planSeedWallet_ok planned).1
    simp [Transaction.slot, Payload.slot, Slot.Past, valid.payload_nonce, valid.tx_nonce]
  | charge planned =>
    obtain ⟨_, wallet, valid⟩ := planCharge_ok planned
    simp [Transaction.slot, Payload.slot, Slot.Past, valid.payload_nonce, valid.tx_nonce]
  | transfer valid =>
    have nonce := (nonceOf_of_stored valid.stored_from).trans valid.nonce_eq
    simp [Transaction.slot, Payload.slot, Slot.Past, TransferRequest.payload, valid.tx_eq, nonce]
  | burn valid =>
    have nonce := (nonceOf_of_stored valid.stored).trans valid.nonce_eq
    simp [Transaction.slot, Payload.slot, Slot.Past, BurnRequest.payload, valid.tx_eq, nonce]
  | commit valid => simp [Transaction.slot, Payload.slot, Slot.Past, valid.iterationId_eq]

/-- What the run hashes does not collide. -/
structure CollisionFree (C : Crypto) (inputs : Set Bytes) (values : Set Json) : Prop where
  blake3 : Set.InjOn C.blake3 inputs
  toVec : Set.InjOn C.toVec values

/-- The id of a payload that was hashed. -/
structure Hashed (C : Crypto) (inputs : Set Bytes) (values : Set Json) (txId : Hash) (payload : Payload F) : Prop where
  named : txId = C.blake3Hex (payload.bytes C)
  value : payload.toJson ∈ values
  input : payload.bytes C ∈ inputs

theorem Hashed.slot_eq {txId : Hash} {p q : Payload F} (free : CollisionFree C inputs values)
    (first : Hashed C inputs values txId p) (second : Hashed C inputs values txId q) : p.slot = q.slot := by
  have hashes := C.blake3Hex_inj.mp (first.named.symm.trans second.named)
  have bytes := free.blake3 first.input second.input hashes
  exact Payload.slot_eq (free.toVec first.value second.value bytes)

/-- What is known of every record of the past. -/
structure CoinState.Recorded (C : Crypto) (inputs : Set Bytes) (values : Set Json) (state : CoinState F) : Prop where
  logged : state.Logged C
  disciplined : state.Disciplined C inputs
  hashed : ∀ tx ∈ state.history, ∃ payload : Payload F, tx.slot = some payload.slot ∧
    Hashed C inputs values tx.txId payload
  ticked : ∀ (i : Nat) (tx : MintTx), state.history[i]? = some (.mint tx) → tx.nonce = i + 1
  iterated : ∀ commit, Transaction.iterationCommit commit ∈ state.history →
    commit.iterationId ≤ state.system.currentIteration
  distinct : (state.history.map Transaction.txId).Nodup

/-- The slot of an accepted transaction is past. -/
theorem CoinState.Recorded.past (recorded : state.Recorded C inputs values) {tx : Transaction F}
    (member : tx ∈ state.history) {slot : Slot} (taken : tx.slot = some slot) : slot.Past state := by
  cases tx with
  | mint tx =>
    cases taken
    obtain ⟨i, inside, here⟩ := List.getElem_of_mem member
    have nonce := recorded.ticked i tx (List.getElem?_eq_some_iff.mpr ⟨inside, here⟩)
    have ticks := recorded.logged.ticked
    have matched := recorded.logged.matched
    change tx.nonce ≤ state.system.currentTick
    omega
  | transfer tx =>
    cases taken
    exact recorded.disciplined.ordered.lt_nonceOf member (Eq.refl (some (tx.fromId, tx.nonce)))
  | burn tx =>
    cases taken
    exact recorded.disciplined.ordered.lt_nonceOf member (Eq.refl (some (tx.fromId, tx.nonce)))
  | iterationCommit commit =>
    cases taken
    exact recorded.iterated commit member
  | operatorChange tx => cases taken

theorem Books.recorded {booking : Booking F} {sheet : Sheet F} {entry : PohEntry}
    (books : Books C state booking sheet) (free : CollisionFree C inputs values) (unsigned : FaucetUnsigned C)
    (checked : booking.Authenticated) (hashed : ∀ input ∈ booking.hashes C state, input ∈ inputs)
    (value : sheet.payload.toJson ∈ values) (input : sheet.payload.bytes C ∈ inputs)
    (anchors : C.Anchors sheet.system.lastPohHash (sheet.system.currentTick + 1) (sheet.payload.bytes C)
      state.validatorId entry)
    (recorded : state.Recorded C inputs values) : (state.enter sheet entry).Recorded C inputs values := by
  obtain ⟨taken, fresh⟩ := books.slot
  have own : Hashed C inputs values sheet.tx.txId sheet.payload := ⟨books.named, value, input⟩
  constructor
  case logged => exact books.logged anchors recorded.logged
  case disciplined => exact books.disciplined free.blake3 unsigned checked hashed recorded.disciplined
  case hashed =>
    intro tx member
    rw [CoinState.enter_history, List.mem_append, List.mem_singleton] at member
    rcases member with old | rfl
    · exact recorded.hashed tx old
    · exact ⟨sheet.payload, taken, own⟩
  case ticked =>
    intro i tx here
    rw [CoinState.enter_history] at here
    rcases getElem?_snoc_cases here with old | ⟨place, same⟩
    · exact recorded.ticked i tx old
    · have ticks := recorded.logged.ticked
      have matched := recorded.logged.matched
      cases books with
      | create planned =>
        cases same
        rw [(planCreateWallet_ok planned).2.1.tx_nonce]
        omega
      | seed planned =>
        cases same
        rw [(planSeedWallet_ok planned).1.tx_nonce]
        omega
      | charge planned =>
        cases same
        obtain ⟨_, wallet, valid⟩ := planCharge_ok planned
        rw [valid.tx_nonce]
        omega
      | transfer => cases same
      | burn => cases same
      | commit => cases same
  case iterated =>
    have later : state.system.currentIteration ≤ (state.enter sheet entry).system.currentIteration := by
      cases books with
      | commit valid => exact (Nat.le_succ _).trans_eq valid.iterationId_eq.symm
      | _ => exact le_rfl
    intro commit member
    rw [CoinState.enter_history, List.mem_append, List.mem_singleton] at member
    rcases member with old | same
    · exact (recorded.iterated commit old).trans later
    · cases books with
      | commit valid =>
        cases same
        exact le_rfl
      | _ => cases same
  case distinct =>
    rw [CoinState.enter_history, List.map_append, List.map_cons, List.map_nil]
    refine List.nodup_append.mpr ⟨recorded.distinct, List.nodup_singleton _, ?_⟩
    intro txId member other same
    rw [List.mem_singleton] at same
    subst same
    rintro rfl
    -- the old record would take a slot that is not past yet
    obtain ⟨tx, old, collides⟩ := List.mem_map.mp member
    obtain ⟨payload, oldTaken, oldHashed⟩ := recorded.hashed tx old
    rw [collides] at oldHashed
    have past := recorded.past old oldTaken
    rw [oldHashed.slot_eq free own] at past
    exact fresh past

/-- What the runs below are asked for: signatures are checked, and all that is hashed or
serialised is among `inputs` and `values`. -/
structure Call.Collected (C : Crypto) (inputs : Set Bytes) (values : Set Json) (call : Call F) (state : CoinState F) :
    Prop extends call.Checked C inputs state where
  listed : ∀ payload ∈ call.payloads C state, payload.toJson ∈ values ∧ payload.bytes C ∈ inputs

/-- The entries of such a run. -/
structure Booking.Collected (C : Crypto) (inputs : Set Bytes) (values : Set Json) (state : CoinState F)
    (booking : Booking F) (sheet : Sheet F) : Prop where
  authenticated : booking.Authenticated
  hashed : ∀ input ∈ booking.hashes C state, input ∈ inputs
  value : sheet.payload.toJson ∈ values
  input : sheet.payload.bytes C ∈ inputs

theorem Call.Collected.booking {call : Call F} (collected : call.Collected C inputs values state)
    {during : CoinState F} {booking : Booking F} {sheet : Sheet F}
    (admitted : call.Admits C state during booking sheet) : booking.Collected C inputs values during sheet :=
  ⟨admitted.authenticated collected.authenticated, fun input member => collected.hashed input (admitted.hashed input member),
    (collected.listed _ admitted.listed).1, (collected.listed _ admitted.listed).2⟩

theorem OpenedEmpty.recorded {env : String → Option String} {config : NodeConfig F} {start : CoinState F}
    (opened : (openCoinState C env config .empty).1 = .ok start) : start.Recorded C inputs values := by
  have past := (openCoinState_empty_past opened).1
  refine ⟨OpenedEmpty.logged opened, OpenedEmpty.disciplined opened, ?_, ?_, ?_, ?_⟩
  all_goals
    rw [past]
    simp

theorem injOn_triple {α β : Type} {f : α → β} {a b c : α} (first : f a ≠ f b) (second : f a ≠ f c)
    (third : f b ≠ f c) : Set.InjOn f {a, b, c} := by
  have rest : Set.InjOn f {b, c} := Set.injOn_pair.mpr fun same => absurd same third
  have apart : a ∉ ({b, c} : Set α) := by
    rintro (rfl | rfl)
    · exact first rfl
    · exact second rfl
  refine (Set.injOn_insert apart).mpr ⟨rest, ?_⟩
  rintro ⟨x, rfl | rfl, same⟩
  · exact first same.symm
  · exact second same.symm

namespace Concrete

/-- What is hashed while the first wallet is created and burns one unit. -/
def firstMint : Payload ℚ := .mint (firstPayload crypto parameters (walletRequest (key 7)) operator (key 7))

def firstBurn : Payload ℚ := .burn ((ownBurn 1).payload (Hex.encode (key 7).val))

def ledgerInputs : Set Bytes := {(key 7).val, firstMint.bytes crypto, firstBurn.bytes crypto}

def ledgerValues : Set Json := {firstMint.toJson, firstBurn.toJson}

theorem firstCall_payloads : (firstCall (key 7)).payloads crypto node = [firstMint] := by
  obtain ⟨plan, planned, -, hashed⟩ :=
    node_opened.planCreateWallet parameters (walletRequest_read (key 7)) captcha_solved operator ""
  simp only [firstCall, Call.payloads, planned, hashed]
  rfl

theorem burnCall_payloads (state : CoinState ℚ) : burnCall.payloads crypto state = [firstBurn] := by
  have hex : normalizeBytesToHex (ownBurn 1).senderPubkey 32 = .ok (Hex.encode (key 7).val) :=
    normalizeBytesToHex_eq_ok_iff.mpr ⟨key 7, ownBurn_read 1, rfl⟩
  simp only [burnCall, Call.payloads, hex]
  rfl

theorem firstMint_hash : crypto.blake3 (key 7).val ≠ crypto.blake3 (firstMint.bytes crypto) := by
  rw [blake3_eq, blake3_eq, digest_key, Payload.bytes, toVec_eq]
  simp only [firstMint, Payload.toJson, MintPayload.toJson, firstPayload, Crypto.blake3Hex, Json.render,
    Json.renderFields, Hex.toList_encode]
  decide +kernel

theorem firstBurn_hash : crypto.blake3 (key 7).val ≠ crypto.blake3 (firstBurn.bytes crypto) := by
  rw [blake3_eq, blake3_eq, digest_key, Payload.bytes, toVec_eq]
  simp only [firstBurn, Payload.toJson, BurnPayload.toJson, ownBurn, BurnRequest.payload, walletId, Crypto.blake3Hex,
    Json.render, Json.renderFields, Hex.toList_encode]
  decide +kernel

theorem payload_hashes : crypto.blake3 (firstMint.bytes crypto) ≠ crypto.blake3 (firstBurn.bytes crypto) := by
  rw [blake3_eq, blake3_eq, Payload.bytes, Payload.bytes, toVec_eq, toVec_eq]
  simp only [firstMint, firstBurn, Payload.toJson, MintPayload.toJson, BurnPayload.toJson, firstPayload, ownBurn,
    BurnRequest.payload, walletId, Crypto.blake3Hex, Json.render, Json.renderFields, Hex.toList_encode]
  decide +kernel

/-- The three inputs have three digests. -/
theorem ledger_free : CollisionFree crypto ledgerInputs ledgerValues := by
  have texts : firstMint.bytes crypto ≠ firstBurn.bytes crypto := fun same =>
    payload_hashes (congrArg crypto.blake3 same)
  constructor
  · exact injOn_triple firstMint_hash firstBurn_hash payload_hashes
  · exact Set.injOn_pair.mpr fun same => absurd same texts

theorem firstCall_collected : (firstCall (key 7)).Collected crypto ledgerInputs ledgerValues node := by
  have checked := firstCall_checked (key 7) node
  refine ⟨⟨checked.authenticated, fun input member => Or.inl (checked.hashed input member)⟩, fun payload member => ?_⟩
  rw [firstCall_payloads, List.mem_singleton] at member
  subst member
  exact ⟨Or.inl rfl, Or.inr (Or.inl rfl)⟩

theorem burnCall_collected (state : CoinState ℚ) : burnCall.Collected crypto ledgerInputs ledgerValues state := by
  have checked := burnCall_checked state
  refine ⟨⟨checked.authenticated, fun input member => Or.inl (checked.hashed input member)⟩, fun payload member => ?_⟩
  rw [burnCall_payloads, List.mem_singleton] at member
  subst member
  exact ⟨Or.inr rfl, Or.inr (Or.inr rfl)⟩

end Concrete

end AggoraCoin
