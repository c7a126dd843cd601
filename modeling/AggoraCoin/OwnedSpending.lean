import AggoraCoin.Archive
import AggoraCoin.SupplyRoom

namespace AggoraCoin

/-- What `transfer` and `burn` are asked for. -/
inductive SpendRequest
  | transfer (request : TransferRequest)
  | burn (request : BurnRequest)

namespace SpendRequest

def fromId : SpendRequest → WalletId
  | transfer request => request.fromId
  | burn request => request.fromId

def amount : SpendRequest → MicroAgc
  | transfer request => request.amount
  | burn request => request.amount

def senderPubkey : SpendRequest → PublicKey
  | transfer request => request.senderPubkey
  | burn request => request.senderPubkey

def userSig : SpendRequest → Signature
  | transfer request => request.userSig
  | burn request => request.userSig

/-- `transfer_tx_id` or `burn_tx_id`. -/
def txId (C : Crypto) : SpendRequest → Except StateError Hash
  | transfer request => transferTxId C request
  | burn request => burnTxId C request

/-- The payload that is hashed, under the normalised key. -/
def toJson (senderPubkey : String) : SpendRequest → Json
  | transfer request => (request.payload senderPubkey).toJson
  | burn request => (request.payload senderPubkey).toJson

/-- A signature over `message` is what the request needs. -/
def Serves (C : Crypto) (message : Bytes) (request : SpendRequest) : Prop :=
  ∃ txId, request.txId C = .ok txId ∧ txSigningMessage txId = .ok message

/-- One transaction, whatever the spelling of the key and the signature. -/
def Same : SpendRequest → SpendRequest → Prop
  | transfer a, transfer b => a.fromId = b.fromId ∧ a.toId = b.toId ∧ a.amount = b.amount ∧ a.nonce = b.nonce ∧
      a.timestamp = b.timestamp ∧ ∃ key, fixed32 a.senderPubkey = .ok key ∧ fixed32 b.senderPubkey = .ok key
  | burn a, burn b => a.fromId = b.fromId ∧ a.amount = b.amount ∧ a.nonce = b.nonce ∧ a.timestamp = b.timestamp ∧
      ∃ key, fixed32 a.senderPubkey = .ok key ∧ fixed32 b.senderPubkey = .ok key
  | _, _ => False

/-- What hashing the payload of the request reads. -/
structure Listed (C : Crypto) (inputs : Set Bytes) (values : Set Json) (request : SpendRequest) : Prop where
  value : ∀ key, fixed32 request.senderPubkey = .ok key → request.toJson (Hex.encode key.val) ∈ values
  input : ∀ key, fixed32 request.senderPubkey = .ok key → C.toVec (request.toJson (Hex.encode key.val)) ∈ inputs

variable {C : Crypto}

theorem txId_eq_ok_iff {request : SpendRequest} {txId : Hash} :
    request.txId C = .ok txId ↔ ∃ key, fixed32 request.senderPubkey = .ok key ∧
      txId = C.hashSerializable (request.toJson (Hex.encode key.val)) := by
  cases request with
  | transfer request => exact transferTxId_eq_ok_iff
  | burn request => exact burnTxId_eq_ok_iff

/-- The bytes to sign are the hash itself. -/
theorem serves_iff {message : Bytes} {request : SpendRequest} :
    request.Serves C message ↔ ∃ key, fixed32 request.senderPubkey = .ok key ∧
      message = (C.blake3 (C.toVec (request.toJson (Hex.encode key.val)))).val := by
  constructor
  · rintro ⟨txId, named, signed⟩
    obtain ⟨key, read, rfl⟩ := txId_eq_ok_iff.mp named
    have bytes := signed.symm.trans (txSigningMessage_blake3Hex C _)
    exact ⟨key, read, Except.ok.inj bytes⟩
  · rintro ⟨key, read, rfl⟩
    exact ⟨_, txId_eq_ok_iff.mpr ⟨key, read, rfl⟩, txSigningMessage_blake3Hex C _⟩

theorem same_of_toJson {first second : SpendRequest} {key key' : FixedBytes 32}
    (read : fixed32 first.senderPubkey = .ok key) (read' : fixed32 second.senderPubkey = .ok key')
    (equal : first.toJson (Hex.encode key.val) = second.toJson (Hex.encode key'.val)) : first.Same second := by
  cases first with
  | transfer a =>
    cases second with
    | transfer b =>
      have payloads := TransferPayload.toJson_injective equal
      simp only [TransferRequest.payload, TransferPayload.mk.injEq] at payloads
      obtain ⟨sender, receiver, amount, nonce, time, keys⟩ := payloads
      have owner : key = key' := Subtype.ext (Hex.encode_injective keys)
      exact ⟨sender, receiver, amount, nonce, time, key, read, owner ▸ read'⟩
    | burn b => simp [toJson, TransferPayload.toJson, BurnPayload.toJson] at equal
  | burn a =>
    cases second with
    | transfer b => simp [toJson, TransferPayload.toJson, BurnPayload.toJson] at equal
    | burn b =>
      have payloads := BurnPayload.toJson_injective equal
      simp only [BurnRequest.payload, BurnPayload.mk.injEq] at payloads
      obtain ⟨sender, amount, nonce, time, keys⟩ := payloads
      have owner : key = key' := Subtype.ext (Hex.encode_injective keys)
      exact ⟨sender, amount, nonce, time, key, read, owner ▸ read'⟩

/-- A message serves one transaction. -/
theorem same_of_serves {inputs : Set Bytes} {values : Set Json} {first second : SpendRequest} {message : Bytes}
    (free : CollisionFree C inputs values) (listed : first.Listed C inputs values)
    (listed' : second.Listed C inputs values) (serves : first.Serves C message) (serves' : second.Serves C message) :
    first.Same second := by
  obtain ⟨key, read, rfl⟩ := serves_iff.mp serves
  obtain ⟨key', read', hashes⟩ := serves_iff.mp serves'
  have bytes := free.blake3 (listed.input key read) (listed'.input key' read') (Subtype.ext hashes)
  have payloads := free.toVec (listed.value key read) (listed'.value key' read') bytes
  exact same_of_toJson read read' payloads

end SpendRequest

variable {F : Type} [F64 F] {C : Crypto} {state : CoinState F} {inputs : Set Bytes} {values : Set Json}

/-- Every stored balance is a `u64`. -/
def CoinState.WordSized (state : CoinState F) : Prop :=
  ∀ id wallet, state.getWallet id = some wallet → wallet.balance ≤ u64Max

def Call.spendRequest : Call F → Option SpendRequest
  | .transfer _ request _ => some (.transfer request)
  | .burn _ request _ => some (.burn request)
  | _ => none

/-- The amounts a seed file states are `u64`s. -/
def Booking.WordSized : Booking F → Prop
  | .seed _ wallet _ _ => ∀ amount ∈ wallet.initialBalance, amount ≤ u64Max
  | _ => True

def Call.WordSized : Call F → Prop
  | .installSeed _ seed _ => ∀ wallet ∈ seed.initialWallets, ∀ amount ∈ wallet.initialBalance, amount ≤ u64Max
  | _ => True

/-- What the runs below are asked for: amounts are `u64`s, and the keys hashed are in `inputs`. -/
structure Call.Sourced (C : Crypto) (inputs : Set Bytes) (call : Call F) (state : CoinState F) : Prop where
  sized : call.WordSized
  hashed : ∀ input ∈ call.hashes C state, input ∈ inputs

theorem Call.Admits.wordSized {call : Call F} {during : CoinState F} {booking : Booking F} {sheet : Sheet F}
    (admitted : call.Admits C state during booking sheet) (sized : call.WordSized) : booking.WordSized := by
  have booked := admitted.booked
  cases call with
  | installSeed parameters seed clock =>
    obtain ⟨wallet, member, installed, _, rfl⟩ := booked
    exact sized wallet member
  | updateParameters parameters => exact booked.elim
  | _ =>
    cases booked
    trivial

section WordSized

omit [F64 F] in
theorem microSeed_le (parameters : SystemParameters F) : microSeed parameters ≤ u64Max :=
  Unsigned.saturatingMul_le _ _

omit [F64 F] in
theorem CoinState.WordSized.put (sized : state.WordSized) {wallet : Wallet F} (small : wallet.balance ≤ u64Max) :
    ∀ id found, (state.trees.wallets.put wallet).get id = some found → found.balance ≤ u64Max := by
  intro id found here
  rw [KeyedTree.get_put] at here
  split at here
  · cases here
    exact small
  · exact sized id found here

theorem Books.wordSized {booking : Booking F} {sheet : Sheet F} (books : Books C state booking sheet)
    (typed : booking.WordSized) (sized : state.WordSized) :
    ∀ id wallet, (state.trees.wallets.putAll sheet.wallets).get id = some wallet → wallet.balance ≤ u64Max := by
  cases books with
  | create planned =>
    refine sized.put ?_
    rw [(planCreateWallet_ok planned).2.2]
    exact microSeed_le _
  | @seed parameters wallet hashed stored plan planned =>
    refine sized.put ?_
    rw [(planSeedWallet_ok planned).2]
    have stated : ∀ amount ∈ wallet.initialBalance, amount ≤ u64Max := typed
    cases given : wallet.initialBalance with
    | none =>
      rw [Option.getD_none]
      exact microSeed_le parameters
    | some amount =>
      rw [Option.getD_some]
      exact stated amount given
  | charge planned =>
    obtain ⟨_, wallet, valid⟩ := planCharge_ok planned
    have charged := congrArg Wallet.balance valid.wallet_eq
    refine sized.put ?_
    rw [charged]
    exact Unsigned.saturatingAdd_le _ _
  | @transfer security request key fromWallet toWallet plan valid =>
    have sent : plan.fromWallet.balance = fromWallet.balance - request.amount := by
      rw [valid.fromWallet_eq]
      rfl
    have left : plan.fromWallet.balance ≤ u64Max := by
      rw [sent]
      exact (Nat.sub_le _ _).trans (sized _ fromWallet valid.stored_from)
    have taken : plan.toWallet.balance = Unsigned.saturatingAdd 64 toWallet.balance request.amount := by
      rw [valid.toWallet_eq]
      rfl
    have received : plan.toWallet.balance ≤ u64Max := by
      rw [taken]
      exact Unsigned.saturatingAdd_le _ _
    intro id found here
    simp only [KeyedTree.putAll_cons, KeyedTree.putAll_nil] at here
    rw [KeyedTree.get_put] at here
    split at here
    · cases here
      exact received
    · exact sized.put left id found here
  | @burn security request key wallet plan valid =>
    have spent : plan.wallet.balance = wallet.balance - request.amount := by
      rw [valid.wallet_eq]
      rfl
    refine sized.put ?_
    rw [spent]
    exact (Nat.sub_le _ _).trans (sized _ wallet valid.stored)
  | @commit parameters beta result valid =>
    intro id wallet here
    have outcome := valid.keyOutcome id
    rw [here] at outcome
    cases outcome with
    | opened idx planned named =>
      have seeded : (plannedWallet C parameters state.system state.operatorId idx).balance = microSeed parameters := rfl
      rw [seeded]
      exact microSeed_le parameters
    | @settled old penalty reward stored =>
      have settled : (rewardWallet (chargeWallet parameters.economy old penalty) reward).balance =
          Unsigned.saturatingAdd 64 (chargeWallet parameters.economy old penalty).balance reward := rfl
      rw [settled]
      exact Unsigned.saturatingAdd_le _ _

theorem wordSized_of_steps {admits : CoinState F → Booking F → Sheet F → Prop} {start : CoinState F}
    (typed : ∀ during booking sheet, admits during booking sheet → booking.WordSized) (initial : start.WordSized)
    (steps : Steps C admits start state) : state.WordSized := by
  refine steps.invariant CoinState.WordSized initial fun before after step sized id wallet here => ?_
  cases step with
  | enter books admitted _ _ =>
    rw [CoinState.getWallet, CoinState.enter_wallets] at here
    exact books.wordSized (typed _ _ _ admitted) sized id wallet here
  | strand books admitted _ =>
    rw [CoinState.getWallet, CoinState.stranded_wallets] at here
    exact books.wordSized (typed _ _ _ admitted) sized id wallet here
  | quiet quiet =>
    rw [CoinState.getWallet, quiet.ledger.wallets_eq] at here
    exact sized id wallet here

theorem OpenedEmpty.wordSized {config : NodeConfig F} {start : CoinState F} (opened : OpenedEmpty C config start) :
    start.WordSized := by
  intro id wallet here
  rw [opened.getWallet] at here
  cases here

end WordSized

/-- An entry that takes from no wallet. -/
def Booking.Credits : Booking F → Prop
  | .transfer _ _ => False
  | .burn _ _ => False
  | .commit _ => False
  | _ => True

theorem Call.Admits.credits {call : Call F} {during : CoinState F} {booking : Booking F} {sheet : Sheet F}
    (admitted : call.Admits C state during booking sheet) (operation : call.Operation)
    (gives : call.spendRequest = none) : booking.Credits := by
  have booked := admitted.booked
  cases call with
  | installSeed parameters seed clock =>
    obtain ⟨wallet, _, installed, _, rfl⟩ := booked
    trivial
  | transfer => cases gives
  | burn => cases gives
  | executeIterationNow => exact operation.elim
  | updateParameters => exact booked.elim
  | _ =>
    cases booked
    trivial

omit [F64 F] in
theorem balanceOf_of_absent {id : WalletId} (absent : state.getWallet id = none) : state.balanceOf id = 0 := by
  rw [CoinState.balanceOf, absent]
  rfl

omit [F64 F] in
theorem balanceOf_congr {state' : CoinState F} (wallets : state'.trees.wallets = state.trees.wallets) (id : WalletId) :
    state'.balanceOf id = state.balanceOf id := by
  rw [CoinState.balanceOf, CoinState.getWallet, wallets]
  rfl

omit [F64 F] in
/-- A wallet written back with no less than it had. -/
theorem balanceOf_le_put {wallet : Wallet F} (more : state.balanceOf wallet.id ≤ wallet.balance) (id : WalletId) :
    state.balanceOf id ≤ (((state.trees.wallets.put wallet).get id).map Wallet.balance).getD 0 := by
  by_cases here : wallet.id = id
  · subst here
    rw [KeyedTree.get_put_self]
    exact more
  · rw [KeyedTree.get_put_of_ne _ here]
    exact le_rfl

theorem MintPlan.Valid.balanceOf_le {operatorId : OperatorId} {plan : MintPlan F} (valid : plan.Valid C operatorId state)
    (id : WalletId) :
    state.balanceOf id ≤ (((state.trees.wallets.put plan.wallet).get id).map Wallet.balance).getD 0 := by
  refine balanceOf_le_put ?_ id
  rw [balanceOf_of_absent valid.absent]
  exact Nat.zero_le _

theorem Books.balanceOf_le {booking : Booking F} {sheet : Sheet F} (books : Books C state booking sheet)
    (credits : booking.Credits) (sized : state.WordSized) (id : WalletId) :
    state.balanceOf id ≤ (((state.trees.wallets.putAll sheet.wallets).get id).map Wallet.balance).getD 0 := by
  cases books with
  | create planned => exact (planCreateWallet_ok planned).2.1.balanceOf_le id
  | seed planned => exact (planSeedWallet_ok planned).1.balanceOf_le id
  | charge planned =>
    obtain ⟨_, wallet, valid⟩ := planCharge_ok planned
    have named : wallet.id = _ := KeyedTree.key_of_get valid.stored
    refine balanceOf_le_put ?_ id
    have stored : state.getWallet wallet.id = some wallet := named ▸ valid.stored
    rw [valid.wallet_eq, balanceOf_eq stored]
    exact Unsigned.le_saturatingAdd (sized _ wallet stored) _
  | transfer => exact credits.elim
  | burn => exact credits.elim
  | commit => exact credits.elim

/-- Along entries that only credit, no balance falls. -/
theorem balanceOf_le_of_steps {admits : CoinState F → Booking F → Sheet F → Prop} {start : CoinState F}
    (typed : ∀ during booking sheet, admits during booking sheet → booking.WordSized ∧ booking.Credits)
    (initial : start.WordSized) (steps : Steps C admits start state) (id : WalletId) :
    start.balanceOf id ≤ state.balanceOf id := by
  induction steps with
  | refl => exact le_rfl
  | @tail before after steps step ih =>
    have sized := wordSized_of_steps (fun during booking sheet admitted => (typed _ _ _ admitted).1) initial steps
    refine ih.trans ?_
    cases step with
    | @enter booking sheet entry books admitted _ _ =>
      have here := books.balanceOf_le (typed _ _ _ admitted).2 sized id
      rwa [← @CoinState.enter_wallets _ _ entry _] at here
    | strand books admitted _ =>
      have here := books.balanceOf_le (typed _ _ _ admitted).2 sized id
      rwa [← CoinState.stranded_wallets] at here
    | quiet quiet => exact (balanceOf_congr quiet.ledger.wallets_eq id).ge

omit [F64 F] in
/-- A transfer takes its amount from the sender, and from nobody else. -/
theorem TransferPlan.Valid.balance_falls {security : SecurityParameters} {request : TransferRequest}
    {key : FixedBytes 32} {fromWallet toWallet : Wallet F} {plan : TransferPlan F}
    (valid : plan.Valid C security request state key fromWallet toWallet) (sized : state.WordSized) {id : WalletId}
    (less : (((state.trees.wallets.putAll [plan.fromWallet, plan.toWallet]).get id).map Wallet.balance).getD 0 <
      state.balanceOf id) :
    request.fromId = id ∧
      (((state.trees.wallets.putAll [plan.fromWallet, plan.toWallet]).get id).map Wallet.balance).getD 0 +
        request.amount = state.balanceOf id := by
  simp only [KeyedTree.putAll_cons, KeyedTree.putAll_nil] at less ⊢
  have receiver := balanceOf_eq valid.stored_to
  by_cases taker : request.toId = id
  · subst taker
    have here := KeyedTree.get_put_self (state.trees.wallets.put plan.fromWallet) plan.toWallet
    rw [valid.toKey] at here
    have more := Unsigned.le_saturatingAdd (sized _ toWallet valid.stored_to) request.amount
    rw [here, Option.map_some, Option.getD_some, valid.toWallet_eq, receiver] at less
    exact absurd more (not_le_of_gt less)
  · have other : plan.toWallet.id ≠ id := by rwa [valid.toKey]
    rw [KeyedTree.get_put_of_ne _ other] at less ⊢
    by_cases sender : request.fromId = id
    · subst sender
      have here := KeyedTree.get_put_self state.trees.wallets plan.fromWallet
      rw [valid.fromKey] at here
      have covered := valid.covered
      refine ⟨rfl, ?_⟩
      rw [here, Option.map_some, Option.getD_some, valid.fromWallet_eq, balanceOf_eq valid.stored_from]
      exact Nat.sub_add_cancel covered
    · have another : plan.fromWallet.id ≠ id := by rwa [valid.fromKey]
      rw [KeyedTree.get_put_of_ne _ another] at less
      exact absurd less (lt_irrefl _)

omit [F64 F] in
theorem BurnPlan.Valid.balance_falls {security : SecurityParameters} {request : BurnRequest} {key : FixedBytes 32}
    {wallet : Wallet F} {plan : BurnPlan F} (valid : plan.Valid C security request state key wallet) {id : WalletId}
    (less : (((state.trees.wallets.putAll [plan.wallet]).get id).map Wallet.balance).getD 0 < state.balanceOf id) :
    request.fromId = id ∧
      (((state.trees.wallets.putAll [plan.wallet]).get id).map Wallet.balance).getD 0 + request.amount =
        state.balanceOf id := by
  simp only [KeyedTree.putAll_cons, KeyedTree.putAll_nil] at less ⊢
  by_cases sender : request.fromId = id
  · subst sender
    have here := KeyedTree.get_put_self state.trees.wallets plan.wallet
    rw [valid.key_eq] at here
    refine ⟨rfl, ?_⟩
    rw [here, Option.map_some, Option.getD_some, valid.wallet_eq, balanceOf_eq valid.stored]
    exact Nat.sub_add_cancel valid.covered
  · have another : plan.wallet.id ≠ id := by rwa [valid.key_eq]
    rw [KeyedTree.get_put_of_ne _ another] at less
    exact absurd less (lt_irrefl _)

/-- The owner of the key behind `id` has signed for what left the wallet, and no more left it. -/
structure OwnerSpent (C : Crypto) (state after : CoinState F) (id : WalletId) (request : SpendRequest) : Prop where
  from_eq : request.fromId = id
  fell : after.balanceOf id + request.amount = state.balanceOf id
  signed : ∃ wallet key sig message, state.getWallet id = some wallet ∧ fixed32 wallet.pubkey = .ok key ∧
    fixed32 request.senderPubkey = .ok key ∧ id = C.blake3Hex key.val ∧ request.Serves C message ∧
    fixed64 request.userSig = .ok sig ∧ C.validKey key = true ∧ C.verify key message sig = true

omit [F64 F] in
/-- The stored key and the key of the request have one hash, so they are one key. -/
theorem CoinState.Keyed.stored_key (keyed : state.Keyed C inputs) (free : Set.InjOn C.blake3 inputs) {id : WalletId}
    {wallet : Wallet F} (stored : state.getWallet id = some wallet) {key : FixedBytes 32} (listed : key.val ∈ inputs)
    (named : id = C.blake3Hex key.val) : fixed32 wallet.pubkey = .ok key := by
  obtain ⟨own, member, pubkey, hash⟩ := keyed id wallet stored
  have ids : wallet.id = id := KeyedTree.key_of_get stored
  have hashes := C.blake3Hex_inj.mp (hash.symm.trans (ids.trans named))
  have same : own = key := Subtype.ext (free member listed hashes)
  rw [pubkey, same]
  exact fixedBytes_encode key (by decide)

omit [F64 F] in
/-- What the checks of a transfer and of a burn have in common. -/
theorem OwnerSpent.of_checks (request : SpendRequest) {security : SecurityParameters} {key : FixedBytes 32}
    {wallet : Wallet F} {after : CoinState F} (free : Set.InjOn C.blake3 inputs) (keyed : state.Keyed C inputs)
    (checked : security.devAuthBypass = false) (stored : state.getWallet request.fromId = some wallet)
    (read : fixed32 request.senderPubkey = .ok key) (listed : key.val ∈ inputs)
    (named : request.fromId = C.blake3Hex key.val)
    (signed : verifyUserSignature C security request.senderPubkey
      (C.hashSerializable (request.toJson (Hex.encode key.val))) request.userSig = .ok ())
    (fell : after.balanceOf request.fromId + request.amount = state.balanceOf request.fromId) :
    OwnerSpent C state after request.fromId request := by
  obtain ⟨key', sig, again, signature, point, verified⟩ := verifyUserSignature_ok checked signed
  cases Except.ok.inj (read.symm.trans again)
  have serves : request.Serves C (C.blake3 (C.toVec (request.toJson (Hex.encode key.val)))).val :=
    SpendRequest.serves_iff.mpr ⟨key, read, rfl⟩
  have owned := keyed.stored_key free stored listed named
  exact ⟨rfl, fell, wallet, key, sig, _, stored, owned, read, named, serves, signature, point, verified⟩

theorem Call.ownerSpent {call : Call F} (free : Set.InjOn C.blake3 inputs) (keyed : state.Keyed C inputs)
    (sized : state.WordSized) (operation : call.Operation) (checked : call.Authenticated)
    (sourced : call.Sourced C inputs state) {id : WalletId}
    (less : (call.next C state).balanceOf id < state.balanceOf id) :
    ∃ request, call.spendRequest = some request ∧ OwnerSpent C state (call.next C state) id request := by
  cases call with
  | transfer parameters request now =>
    refine ⟨.transfer request, rfl, ?_⟩
    have reads := sourced.hashed
    simp only [Call.next, Call.run] at less ⊢
    rcases transfer_cases C state parameters request now with
      ⟨e, _, ran⟩ | ⟨plan, key, fromWallet, toWallet, reply, planned, valid, posts⟩
    · rw [ran] at less
      exact absurd less (lt_irrefl _)
    · have written := congrArg (fun tree => ((KeyedTree.get tree id).map Wallet.balance).getD 0) posts.wallets_eq
      change CoinState.balanceOf _ id = _ at written
      rw [written] at less
      obtain ⟨rfl, fell⟩ := valid.balance_falls sized less
      have listed : key.val ∈ inputs := reads _ (mem_keyBytes valid.sender_key)
      exact .of_checks (.transfer request) free keyed checked valid.stored_from valid.sender_key listed valid.sender_id
        valid.signed (written ▸ fell)
  | burn parameters request now =>
    refine ⟨.burn request, rfl, ?_⟩
    have reads := sourced.hashed
    simp only [Call.next, Call.run] at less ⊢
    rcases burn_cases C state parameters request now with
      ⟨e, _, ran⟩ | ⟨plan, key, wallet, reply, planned, valid, posts⟩
    · rw [ran] at less
      exact absurd less (lt_irrefl _)
    · have written := congrArg (fun tree => ((KeyedTree.get tree id).map Wallet.balance).getD 0) posts.wallets_eq
      change CoinState.balanceOf _ id = _ at written
      rw [written] at less
      obtain ⟨rfl, fell⟩ := valid.balance_falls less
      have listed : key.val ∈ inputs := reads _ (mem_keyBytes valid.sender_key)
      exact .of_checks (.burn request) free keyed checked valid.stored valid.sender_key listed valid.sender_id
        valid.signed (written ▸ fell)
  | _ =>
    refine absurd less (not_lt_of_ge (balanceOf_le_of_steps ?_ sized (Call.steps _) id))
    intro during booking sheet admitted
    exact ⟨admitted.wordSized sourced.sized, admitted.credits operation rfl⟩

/-- In every reachable state a call other than an iteration lowers a balance only when the owner
of its key has signed for that amount; and a message that is signed serves one transaction. -/
theorem only_owner_spends {env : String → Option String} {config : NodeConfig F} {start : CoinState F}
    (free : CollisionFree C inputs values) (opened : (openCoinState C env config .empty).1 = .ok start)
    (reach : Reach (fun state call => Call.next C call state) (fun state call => call.Sourced C inputs state) start
      state) :
    (∀ call : Call F, call.Operation → call.Authenticated → call.Sourced C inputs state →
      ∀ id, (call.next C state).balanceOf id < state.balanceOf id →
        ∃ request, call.spendRequest = some request ∧ OwnerSpent C state (call.next C state) id request) ∧
    ∀ first second : SpendRequest, first.Listed C inputs values → second.Listed C inputs values →
      ∀ message, first.Serves C message → second.Serves C message → first.Same second := by
  have empty := openCoinState_empty opened
  have steps := steps_of_reach (fun during booking _ => booking.WordSized ∧
    ∀ input ∈ booking.hashes C during, input ∈ inputs) reach fun before call sourced during booking sheet admitted =>
      ⟨admitted.wordSized sourced.sized, fun input member => sourced.hashed input (admitted.hashed input member)⟩
  have keyed := keyed_of_steps (fun _ _ _ admitted => admitted.2) empty.keyed steps
  have sized := wordSized_of_steps (fun _ _ _ admitted => admitted.1) empty.wordSized steps
  constructor
  · intro call operation checked sourced id less
    exact call.ownerSpent free.blake3 keyed sized operation checked sourced less
  · intro first second listed listed' message serves serves'
    exact SpendRequest.same_of_serves free listed listed' serves serves'

/-- A burn that passes its checks lowers the balance it is taken from. -/
theorem burn_less {parameters : SystemParameters F} {request : BurnRequest} {plan : BurnPlan F}
    (planned : planBurn C parameters.security request state = .ok plan) (now : Timestamp) :
    ((Call.burn parameters request now).next C state).balanceOf request.fromId < state.balanceOf request.fromId := by
  simp only [Call.next, Call.run]
  rcases burn_cases C state parameters request now with
    ⟨e, refused, _⟩ | ⟨plan', key, wallet, reply, again, valid, posts⟩
  · cases planned.symm.trans refused
  · have here := KeyedTree.get_put_self state.trees.wallets plan'.wallet
    rw [valid.key_eq] at here
    have written : (burn C parameters request now state).2.getWallet request.fromId = some plan'.wallet := by
      rw [CoinState.getWallet, posts.wallets_eq]
      exact here
    rw [balanceOf_eq written, balanceOf_eq valid.stored, valid.wallet_eq]
    exact Nat.sub_lt (valid.positive.trans_le valid.covered) valid.positive

namespace Concrete

/-- The key and the two payloads that are hashed below. -/
def burnInputs : Set Bytes := {(key 7).val, crypto.toVec (burnJson 1), crypto.toVec (burnJson 2)}

def burnValues : Set Json := {burnJson 1, burnJson 2}

theorem long_textBefore : 33 ≤ (textBefore [("from", .str (walletId 7))] "amount").length := by
  have hex : (walletId 7).toList.length = 64 := by
    rw [walletId, Crypto.blake3Hex, Hex.toList_encode, Hex.length_flatMap_pair, (crypto.blake3 (key 7).val).property]
  simp [textBefore, Json.renderFields, Json.render]
  omega

theorem toVec_burnJson (amount : MicroAgc) : crypto.toVec (burnJson amount) =
    crypto.toVec (.obj ([("from", .str (walletId 7))] ++ ("amount", .num amount) ::
      [("nonce", .num 0), ("timestamp", .num 0), ("sender_pubkey", .str (Hex.encode (key 7).val))])) := rfl

theorem burnJson_hashes : crypto.blake3 (crypto.toVec (burnJson 1)) ≠ crypto.blake3 (crypto.toVec (burnJson 2)) := by
  have one : asBytes (toString ((1 : Nat) : Int)) = [49] := by decide
  have two : asBytes (toString ((2 : Nat) : Int)) = [50] := by decide
  have long := (by decide : 32 ≤ 33).trans long_textBefore
  rw [toVec_burnJson, toVec_burnJson]
  exact digest_toVec_ne _ _ "amount" one two (by decide) long

/-- A payload is too long to be its own digest. -/
theorem burnJson_key (amount : MicroAgc) :
    crypto.blake3 (key 7).val ≠ crypto.blake3 (crypto.toVec (burnJson amount)) := by
  have long : (crypto.toVec (burnJson amount)).length ≠ 32 := by
    have part := long_textBefore.trans (length_le_utf8 _)
    rw [toVec_burnJson, toVec_field, List.length_append]
    omega
  intro same
  have heads := congrArg (fun digest : FixedBytes 32 => digest.val.headD 0) same
  rw [blake3_eq, blake3_eq, digest, digest, dif_pos (key 7).property, dif_neg long] at heads
  change (7 : UInt8) = 0x80 at heads
  exact absurd heads (by decide)

theorem burn_free : CollisionFree crypto burnInputs burnValues := by
  have texts : crypto.toVec (burnJson 1) ≠ crypto.toVec (burnJson 2) := fun same =>
    burnJson_hashes (congrArg crypto.blake3 same)
  have values : Set.InjOn crypto.toVec burnValues := Set.injOn_pair.mpr fun same => absurd same texts
  have inputs := injOn_triple (burnJson_key 1) (burnJson_key 2) burnJson_hashes
  constructor
  · exact inputs
  · exact values

theorem burnCall_sourced : burnCall.Sourced crypto burnInputs (firstNode (key 7)) := by
  refine ⟨trivial, fun input member => ?_⟩
  have listed : input ∈ keyBytes (ownBurn 1).senderPubkey := member
  rw [keyBytes, ownBurn_read] at listed
  exact Or.inl (List.mem_singleton.mp listed)

theorem firstCall_sourced : (firstCall (key 7)).Sourced crypto burnInputs node := by
  refine ⟨trivial, fun input member => ?_⟩
  rw [firstCall_hashes, List.mem_singleton] at member
  exact Or.inl member

theorem ownBurn_listed {amount : MicroAgc} (value : burnJson amount ∈ burnValues)
    (input : crypto.toVec (burnJson amount) ∈ burnInputs) :
    (SpendRequest.burn (ownBurn amount)).Listed crypto burnInputs burnValues := by
  constructor
  · intro found read
    cases Except.ok.inj ((ownBurn_read amount).symm.trans read)
    exact value
  · intro found read
    cases Except.ok.inj ((ownBurn_read amount).symm.trans read)
    exact input

theorem ownBurn_listed_one : (SpendRequest.burn (ownBurn 1)).Listed crypto burnInputs burnValues := by
  apply ownBurn_listed
  · exact Set.mem_insert _ _
  · exact Set.mem_insert_of_mem _ (Set.mem_insert _ _)

theorem ownBurn_listed_two : (SpendRequest.burn (ownBurn 2)).Listed crypto burnInputs burnValues := by
  apply ownBurn_listed
  · exact Set.mem_insert_of_mem _ (Set.mem_singleton _)
  · exact Set.mem_insert_of_mem _ (Set.mem_insert_of_mem _ (Set.mem_singleton _))

end Concrete

/-- The first wallet burns one unit, and what its owner signed for that burns no second one. -/
theorem only_owner_spends_burn :
    (∃ request, Concrete.burnCall.spendRequest = some request ∧
      OwnerSpent Concrete.crypto (Concrete.firstNode (Concrete.key 7))
        (Concrete.burnCall.next Concrete.crypto (Concrete.firstNode (Concrete.key 7))) (Concrete.ownBurn 1).fromId
          request) ∧
    ¬ ∃ message, (SpendRequest.burn (Concrete.ownBurn 1)).Serves Concrete.crypto message ∧
      (SpendRequest.burn (Concrete.ownBurn 2)).Serves Concrete.crypto message := by
  have reach : Reach (fun state call => Call.next Concrete.crypto call state)
      (fun state call => call.Sourced Concrete.crypto Concrete.burnInputs state) Concrete.node
      (Concrete.firstNode (Concrete.key 7)) := .next .start Concrete.firstCall_sourced
  obtain ⟨spends, serves⟩ := only_owner_spends Concrete.burn_free Concrete.opened_node reach
  obtain ⟨plan, planned⟩ := Concrete.burnCall_planned
  constructor
  · exact spends Concrete.burnCall trivial rfl Concrete.burnCall_sourced _ (burn_less planned 0)
  · rintro ⟨message, one, two⟩
    have same := serves _ _ Concrete.ownBurn_listed_one Concrete.ownBurn_listed_two message one two
    have amounts : (1 : Nat) = 2 := same.2.1
    exact absurd amounts (by decide)

end AggoraCoin
