import AggoraCoin.CallSteps
import AggoraCoin.Iteration.Stored
import AggoraCoin.Opening

namespace AggoraCoin

variable {F : Type} [F64 F] {C : Crypto} {state : CoinState F} {inputs : Set Bytes}

/-- The wallet a transaction spends from and the nonce it takes. -/
def Transaction.spends : Transaction F → Option (WalletId × Nonce)
  | transfer tx => some (tx.fromId, tx.nonce)
  | burn tx => some (tx.fromId, tx.nonce)
  | _ => none

/-- The nonce a transaction takes from `id`, when it spends from it. -/
def Transaction.outgoing (id : WalletId) (tx : Transaction F) : Option Nonce :=
  tx.spends.bind fun spent => if spent.1 = id then some spent.2 else none

/-- The stored nonce; a wallet that is not stored has spent nothing. -/
def CoinState.nonceOf (state : CoinState F) (id : WalletId) : Nonce :=
  ((state.getWallet id).map Wallet.nonce).getD 0

/-- The nonces spent from each wallet so far are `0, 1, …` up to the stored one. -/
def CoinState.SpentInOrder (state : CoinState F) : Prop :=
  ∀ id, state.history.filterMap (Transaction.outgoing id) = List.range (state.nonceOf id)

/-- No signature verifies under a synthetic faucet key. -/
def FaucetUnsigned (C : Crypto) : Prop :=
  ∀ iterationId idx message sig, ¬ (C.validKey (faucetKey C iterationId idx) = true ∧
    C.verify (faucetKey C iterationId idx) message sig = true)

/-- Somebody signed for the key the id is the hash of. -/
def Signed (C : Crypto) (inputs : Set Bytes) (id : WalletId) : Prop :=
  ∃ key : FixedBytes 32, key.val ∈ inputs ∧ id = C.blake3Hex key.val ∧
    ∃ message sig, C.validKey key = true ∧ C.verify key message sig = true

/-- A wallet the faucet opens has no signer. -/
theorem Signed.not_faucet {iterationId : IterationId} {idx : Nat} {id : WalletId} (signed : Signed C inputs id)
    (free : Set.InjOn C.blake3 inputs) (unsigned : FaucetUnsigned C)
    (hashed : (faucetKey C iterationId idx).val ∈ inputs)
    (named : id = C.blake3Hex (faucetKey C iterationId idx).val) : False := by
  obtain ⟨key, member, same, message, sig, valid, verified⟩ := signed
  have hashes := C.blake3Hex_inj.mp (same.symm.trans named)
  have keys : key = faucetKey C iterationId idx := Subtype.ext (free member hashed hashes)
  exact unsigned iterationId idx message sig ⟨keys ▸ valid, keys ▸ verified⟩

omit [F64 F] in
theorem Transaction.outgoing_eq {tx : Transaction F} {fromId : WalletId} {nonce : Nonce}
    (spends : tx.spends = some (fromId, nonce)) (id : WalletId) :
    tx.outgoing id = if fromId = id then some nonce else none := by
  simp only [Transaction.outgoing, spends, Option.bind_some]

/-- What an entry does to the nonce of a wallet. -/
inductive NonceStep (C : Crypto) (state : CoinState F) (booking : Booking F) (tx : Transaction F) (id : WalletId)
    (after : Nonce) : Prop
  | spent (taken : tx.outgoing id = some (state.nonceOf id)) (moved : after = state.nonceOf id + 1)
  | kept (idle : tx.outgoing id = none) (same : after = state.nonceOf id)
  | reopened (idle : tx.outgoing id = none) (idx : Nat)
      (named : id = C.blake3Hex (faucetKey C (state.system.currentIteration + 1) idx).val)
      (listed : (faucetKey C (state.system.currentIteration + 1) idx).val ∈ booking.hashes C state) (reset : after = 0)

omit [F64 F] in
variable (state) in
theorem nonceOf_put_self (wallet : Wallet F) :
    (((state.trees.wallets.put wallet).get wallet.id).map Wallet.nonce).getD 0 = wallet.nonce := by
  rw [KeyedTree.get_put_self]
  rfl

omit [F64 F] in
/-- A wallet written back with its nonce unchanged. -/
theorem nonceOf_put_kept {wallet : Wallet F} (same : wallet.nonce = state.nonceOf wallet.id) (id : WalletId) :
    (((state.trees.wallets.put wallet).get id).map Wallet.nonce).getD 0 = state.nonceOf id := by
  by_cases here : wallet.id = id
  · rw [← here, nonceOf_put_self, same]
  · rw [KeyedTree.get_put_of_ne _ here]
    rfl

omit [F64 F] in
theorem nonceOf_of_stored {id : WalletId} {wallet : Wallet F} (stored : state.getWallet id = some wallet) :
    state.nonceOf id = wallet.nonce := by
  rw [CoinState.nonceOf, stored]
  rfl

omit [F64 F] in
theorem nonceOf_of_absent {id : WalletId} (absent : state.getWallet id = none) : state.nonceOf id = 0 := by
  rw [CoinState.nonceOf, absent]
  rfl

theorem MintPlan.Valid.nonce {operatorId : OperatorId} {plan : MintPlan F} (valid : plan.Valid C operatorId state) :
    plan.wallet.nonce = state.nonceOf plan.wallet.id := by
  obtain ⟨key, same⟩ := valid.wallet_eq
  rw [nonceOf_of_absent valid.absent, same]
  rfl

theorem Books.nonceStep {booking : Booking F} {sheet : Sheet F} (books : Books C state booking sheet) (id : WalletId) :
    NonceStep C state booking sheet.tx id (((state.trees.wallets.putAll sheet.wallets).get id).map Wallet.nonce |>.getD 0) := by
  cases books with
  | create planned => exact .kept rfl (nonceOf_put_kept (planCreateWallet_ok planned).2.1.nonce id)
  | seed planned => exact .kept rfl (nonceOf_put_kept (planSeedWallet_ok planned).1.nonce id)
  | charge planned =>
    obtain ⟨_, wallet, valid⟩ := planCharge_ok planned
    refine .kept rfl (nonceOf_put_kept ?_ id)
    have stored : state.getWallet _ = _ := valid.key
    rw [nonceOf_of_stored stored, valid.wallet_eq]
  | @transfer security request key fromWallet toWallet plan valid =>
    have nonce := nonceOf_of_stored valid.stored_from
    have spends : (Transaction.transfer plan.tx : Transaction F).spends = some (request.fromId, request.nonce) := by
      rw [valid.tx_eq]
      rfl
    have outgoing := Transaction.outgoing_eq spends id
    -- the receiver is written last, under another key than the sender
    have receiver : plan.toWallet.nonce = state.nonceOf plan.toWallet.id := by
      rw [valid.toKey, nonceOf_of_stored valid.stored_to, valid.toWallet_eq]
      rfl
    simp only [KeyedTree.putAll_cons, KeyedTree.putAll_nil]
    by_cases sender : request.fromId = id
    · subst sender
      rw [if_pos rfl] at outgoing
      refine .spent (outgoing.trans (congrArg some (nonce.trans valid.nonce_eq).symm)) ?_
      have other : plan.toWallet.id ≠ request.fromId := by
        rw [valid.toKey]
        exact valid.distinct.symm
      have here := nonceOf_put_self state plan.fromWallet
      rw [valid.fromKey] at here
      rw [KeyedTree.get_put_of_ne _ other, here, nonce, valid.fromWallet_eq]
      rfl
    · rw [if_neg sender] at outgoing
      refine .kept outgoing ?_
      by_cases here : plan.toWallet.id = id
      · rw [← here, KeyedTree.get_put_self]
        exact receiver
      · rw [KeyedTree.get_put_of_ne _ here, KeyedTree.get_put_of_ne _ (by rwa [valid.fromKey])]
        rfl
  | @burn security request key wallet plan valid =>
    have nonce := nonceOf_of_stored valid.stored
    have spends : (Transaction.burn plan.tx : Transaction F).spends = some (request.fromId, request.nonce) := by
      rw [valid.tx_eq]
      rfl
    have outgoing := Transaction.outgoing_eq spends id
    simp only [KeyedTree.putAll_cons, KeyedTree.putAll_nil]
    by_cases sender : request.fromId = id
    · subst sender
      rw [if_pos rfl] at outgoing
      refine .spent (outgoing.trans (congrArg some (nonce.trans valid.nonce_eq).symm)) ?_
      have here := nonceOf_put_self state plan.wallet
      rw [valid.key_eq] at here
      rw [here, nonce, valid.wallet_eq]
      rfl
    · rw [if_neg sender] at outgoing
      refine .kept outgoing ?_
      rw [KeyedTree.get_put_of_ne _ (by rwa [valid.key_eq])]
      rfl
  | commit valid =>
    have outcome := valid.keyOutcome id
    simp only
    generalize (state.trees.wallets.putAll _).get id = found at outcome ⊢
    cases outcome with
    | opened idx planned named =>
      refine .reopened rfl idx named ?_ rfl
      exact List.mem_flatMap.mpr ⟨idx, List.mem_range.mpr planned, by simp⟩
    | settled penalty reward stored => exact .kept rfl (nonceOf_of_stored stored).symm
    | absent missing => exact .kept rfl (nonceOf_of_absent missing).symm

/-- Signatures are checked. -/
def Booking.Authenticated : Booking F → Prop
  | .transfer security _ => security.devAuthBypass = false
  | .burn security _ => security.devAuthBypass = false
  | _ => True

def Call.Authenticated : Call F → Prop
  | .transfer parameters _ _ => parameters.security.devAuthBypass = false
  | .burn parameters _ _ => parameters.security.devAuthBypass = false
  | _ => True

theorem Call.Admits.authenticated {call : Call F} {during : CoinState F} {booking : Booking F} {sheet : Sheet F}
    (admitted : call.Admits C state during booking sheet) (checked : call.Authenticated) : booking.Authenticated := by
  have booked := admitted.booked
  cases call with
  | installSeed parameters seed clock =>
    obtain ⟨wallet, _, installed, _, rfl⟩ := booked
    trivial
  | updateParameters parameters => exact booked.elim
  | _ =>
    cases booked
    exact checked

/-- The spender of an accepted transaction has signed. -/
theorem Books.signed {booking : Booking F} {sheet : Sheet F} (books : Books C state booking sheet)
    (checked : booking.Authenticated) (hashed : ∀ input ∈ booking.hashes C state, input ∈ inputs) :
    ∀ spent, sheet.tx.spends = some spent → Signed C inputs spent.1 := by
  have listed {publicKey : PublicKey} {key : FixedBytes 32} (read : fixed32 publicKey = .ok key) :
      key.val ∈ keyBytes publicKey := by
    simp [keyBytes, read, Except.toOption]
  rintro ⟨fromId, nonce⟩ spends
  cases books with
  | create => cases spends
  | seed => cases spends
  | charge => cases spends
  | @transfer security request key fromWallet toWallet plan valid =>
    rw [valid.tx_eq] at spends
    cases spends
    obtain ⟨key', sig, read, _, point, verified⟩ := verifyUserSignature_ok checked valid.signed
    cases Except.ok.inj (valid.sender_key.symm.trans read)
    exact ⟨key, hashed _ (listed valid.sender_key), valid.sender_id, _, sig, point, verified⟩
  | @burn security request key wallet plan valid =>
    rw [valid.tx_eq] at spends
    cases spends
    obtain ⟨key', sig, read, _, point, verified⟩ := verifyUserSignature_ok checked valid.signed
    cases Except.ok.inj (valid.sender_key.symm.trans read)
    exact ⟨key, hashed _ (listed valid.sender_key), valid.sender_id, _, sig, point, verified⟩
  | commit => cases spends

/-- Nonces are spent in order, and only by signers. -/
structure CoinState.Disciplined (C : Crypto) (inputs : Set Bytes) (state : CoinState F) : Prop where
  ordered : state.SpentInOrder
  signed : ∀ tx ∈ state.history, ∀ spent, tx.spends = some spent → Signed C inputs spent.1

omit [F64 F] in
/-- A wallet without a signer has spent nothing. -/
theorem CoinState.Disciplined.idle (disciplined : state.Disciplined C inputs) {id : WalletId}
    (unsigned : ¬ Signed C inputs id) : state.history.filterMap (Transaction.outgoing id) = [] := by
  refine List.filterMap_eq_nil_iff.mpr fun tx member => ?_
  cases spends : tx.spends with
  | none => simp [Transaction.outgoing, spends]
  | some spent =>
    have signer := disciplined.signed tx member spent spends
    have other : spent.1 ≠ id := fun same => unsigned (same ▸ signer)
    simp [Transaction.outgoing, spends, other]

theorem Books.disciplined {booking : Booking F} {sheet : Sheet F} {entry : PohEntry}
    (books : Books C state booking sheet) (free : Set.InjOn C.blake3 inputs) (unsigned : FaucetUnsigned C)
    (checked : booking.Authenticated) (hashed : ∀ input ∈ booking.hashes C state, input ∈ inputs)
    (disciplined : state.Disciplined C inputs) : (state.enter sheet entry).Disciplined C inputs := by
  constructor
  case ordered =>
    intro id
    have before := disciplined.ordered id
    have after : (state.enter sheet entry).nonceOf id =
        (((state.trees.wallets.putAll sheet.wallets).get id).map Wallet.nonce).getD 0 := by
      rw [CoinState.nonceOf, CoinState.getWallet, CoinState.enter_wallets]
    rw [CoinState.enter_history, List.filterMap_append, before, after]
    cases books.nonceStep id with
    | spent taken moved => simp [taken, moved, List.range_succ]
    | kept idle same => simp [idle, same]
    | reopened idle idx named listed reset =>
      have nobody : ¬ Signed C inputs id := fun signed => signed.not_faucet free unsigned (hashed _ listed) named
      rw [← before, disciplined.idle nobody]
      simp [idle, reset]
  case signed =>
    intro tx member spent spends
    rw [CoinState.enter_history, List.mem_append, List.mem_singleton] at member
    rcases member with old | rfl
    · exact disciplined.signed tx old spent spends
    · exact books.signed checked hashed spent spends

omit [F64 F] in
theorem Quiet.disciplined {after : CoinState F} (quiet : Quiet state after) (disciplined : state.Disciplined C inputs) :
    after.Disciplined C inputs := by
  have nonces : ∀ id, after.nonceOf id = state.nonceOf id := by
    intro id
    rw [CoinState.nonceOf, CoinState.getWallet, quiet.ledger.wallets_eq]
    rfl
  constructor
  · intro id
    rw [quiet.past.1, nonces]
    exact disciplined.ordered id
  · rw [quiet.past.1]
    exact disciplined.signed

/-- What the runs below are asked for: signatures are checked, and everything hashed is in `inputs`. -/
structure Call.Checked (C : Crypto) (inputs : Set Bytes) (call : Call F) (state : CoinState F) : Prop where
  authenticated : call.Authenticated
  hashed : ∀ input ∈ call.hashes C state, input ∈ inputs

theorem disciplined_of_reach {start : CoinState F} (free : Set.InjOn C.blake3 inputs) (unsigned : FaucetUnsigned C)
    (formed : Crypto.WellFormedSecret start.operatorSecret) (initial : start.Disciplined C inputs)
    (reach : Reach (fun state call => Call.next C call state) (fun state call => call.Checked C inputs state) start
      state) :
    state.Disciplined C inputs := by
  have steps := steps_of_reach (fun during booking _ => booking.Authenticated ∧
    ∀ input ∈ booking.hashes C during, input ∈ inputs) reach fun before call checked during booking sheet admitted =>
      ⟨admitted.authenticated checked.authenticated, fun input member =>
        checked.hashed input (admitted.hashed input member)⟩
  refine steps.invariant_of_formed (CoinState.Disciplined C inputs) formed initial ?_ ?_
  · rintro before booking sheet entry books ⟨checked, hashed⟩ _ disciplined
    exact books.disciplined free unsigned checked hashed disciplined
  · intro before after quiet disciplined
    exact quiet.disciplined disciplined

theorem OpenedEmpty.disciplined {env : String → Option String} {config : NodeConfig F} {start : CoinState F}
    (opened : (openCoinState C env config .empty).1 = .ok start) : start.Disciplined C inputs := by
  have past := (openCoinState_empty_past opened).1
  constructor
  · intro id
    rw [past, nonceOf_of_absent ((openCoinState_empty opened).getWallet id)]
    rfl
  · rw [past]
    simp

/-- The nonce a transfer or burn asks to spend. -/
def Call.spends : Call F → Option (WalletId × Nonce)
  | .transfer _ request _ => some (request.fromId, request.nonce)
  | .burn _ request _ => some (request.fromId, request.nonce)
  | _ => none

omit [F64 F] in
theorem Posts.history {α : Type} {wallets : List (Wallet F)} {system : SystemState F} {tx : Transaction F}
    {bytes : Bytes} {after : SystemState F → SystemState F} {reply : α} {ran : Outcome α × CoinState F}
    (posts : Posts C state wallets system tx bytes after reply ran) :
    (ran.1.isOk = true ∧ ran.2.history = state.history ++ [tx]) ∨
      (ran.1.isOk = false ∧ ran.2.history = state.history) := by
  cases posts with
  | accepted formed anchored =>
    refine Or.inl ⟨rfl, (Quiet.storeState _).past.1.trans ?_⟩
    rw [CoinState.history_withSystem, CoinState.history_posted]
  | stranded malformed => exact Or.inr ⟨rfl, CoinState.history_stranded⟩

variable (C state) in
/-- A spend that is accepted is recorded, under the nonce the wallet was at; one that is not
leaves no record. -/
theorem Call.spends_cases {call : Call F} {spent : WalletId × Nonce} (spends : call.spends = some spent) :
    (call.accepted C state = true ∧ state.nonceOf spent.1 = spent.2 ∧
      ∃ tx, tx.spends = some spent ∧ (call.next C state).history = state.history ++ [tx]) ∨
    (call.accepted C state = false ∧ (call.next C state).history = state.history) := by
  cases call with
  | transfer parameters request now =>
    cases spends
    simp only [Call.accepted, Call.next, Call.run]
    rcases transfer_cases C state parameters request now with
      ⟨e, _, ran⟩ | ⟨plan, key, fromWallet, toWallet, reply, _, valid, posts⟩
    · rw [ran]
      exact Or.inr ⟨rfl, rfl⟩
    · rcases posts.history with ⟨ok, grown⟩ | ⟨failed, same⟩
      · refine Or.inl ⟨ok, (nonceOf_of_stored valid.stored_from).trans valid.nonce_eq, _, ?_, grown⟩
        rw [valid.tx_eq]
        rfl
      · exact Or.inr ⟨failed, same⟩
  | burn parameters request now =>
    cases spends
    simp only [Call.accepted, Call.next, Call.run]
    rcases burn_cases C state parameters request now with
      ⟨e, _, ran⟩ | ⟨plan, key, wallet, reply, _, valid, posts⟩
    · rw [ran]
      exact Or.inr ⟨rfl, rfl⟩
    · rcases posts.history with ⟨ok, grown⟩ | ⟨failed, same⟩
      · refine Or.inl ⟨ok, (nonceOf_of_stored valid.stored).trans valid.nonce_eq, _, ?_, grown⟩
        rw [valid.tx_eq]
        rfl
      · exact Or.inr ⟨failed, same⟩
  | _ => cases spends

/-- The past is only ever extended. -/
theorem Steps.history_grows {admits : CoinState F → Booking F → Sheet F → Prop} {state' : CoinState F}
    (steps : Steps C admits state state') : state.history <+: state'.history := by
  refine steps.invariant (fun s => state.history <+: s.history) List.prefix_rfl fun before after step older => ?_
  cases step with
  | enter _ _ _ _ =>
    rw [CoinState.enter_history]
    exact older.trans (List.prefix_append _ _)
  | strand _ _ _ => rwa [CoinState.history_stranded]
  | quiet quiet => rwa [quiet.past.1]

theorem history_grows_of_reach {allowed : CoinState F → Call F → Prop} {start : CoinState F}
    (reach : Reach (fun state call => Call.next C call state) allowed start state) :
    start.history <+: state.history :=
  (steps_of_reach (fun _ _ _ => True) reach fun _ _ _ _ _ _ _ => trivial).history_grows

omit [F64 F] in
/-- A nonce once spent is behind the wallet for good. -/
theorem CoinState.SpentInOrder.lt_nonceOf (ordered : state.SpentInOrder) {tx : Transaction F} (member : tx ∈ state.history)
    {spent : WalletId × Nonce} (spends : tx.spends = some spent) : spent.2 < state.nonceOf spent.1 := by
  have listed : spent.2 ∈ state.history.filterMap (Transaction.outgoing spent.1) := by
    refine List.mem_filterMap.mpr ⟨tx, member, ?_⟩
    have outgoing := Transaction.outgoing_eq spends spent.1
    rw [outgoing, if_pos rfl]
  rw [ordered spent.1] at listed
  exact List.mem_range.mp listed

/-- In every run the accepted spends of each wallet carry the nonces `0, 1, …` up to the stored
one, an accepted spend is recorded under the nonce it asked for, and nothing spends that nonce of
that wallet again in any later state. -/
theorem nonces_spent_in_order {env : String → Option String} {config : NodeConfig F} {start : CoinState F}
    (free : Set.InjOn C.blake3 inputs) (unsigned : FaucetUnsigned C)
    (opened : (openCoinState C env config .empty).1 = .ok start)
    (formed : Crypto.WellFormedSecret start.operatorSecret)
    (reach : Reach (fun state call => Call.next C call state) (fun state call => call.Checked C inputs state) start
      state) :
    state.SpentInOrder ∧
      ∀ call : Call F, call.Checked C inputs state → ∀ spent, call.spends = some spent →
        call.accepted C state = true →
          (∃ tx, tx.spends = some spent ∧ (call.next C state).history = state.history ++ [tx]) ∧
          ∀ later, Reach (fun state call => Call.next C call state) (fun state call => call.Checked C inputs state)
            (call.next C state) later →
              ∀ again : Call F, again.spends = some spent → again.accepted C later = false := by
  have start_disciplined : start.Disciplined C inputs := OpenedEmpty.disciplined opened
  have disciplined := disciplined_of_reach free unsigned formed start_disciplined reach
  refine ⟨disciplined.ordered, fun call checked spent spends accepted => ?_⟩
  rcases call.spends_cases C state spends with ⟨_, _, tx, taken, grown⟩ | ⟨refused, _⟩
  · refine ⟨⟨tx, taken, grown⟩, fun later onward again repeated => ?_⟩
    have whole := (reach.next checked).trans onward
    have then_disciplined := disciplined_of_reach free unsigned formed start_disciplined whole
    have recorded : tx ∈ later.history := by
      refine (history_grows_of_reach onward).subset ?_
      rw [grown]
      simp
    have behind := then_disciplined.ordered.lt_nonceOf recorded taken
    rcases again.spends_cases C later repeated with ⟨_, at_nonce, _⟩ | ⟨refused, _⟩
    · exact absurd at_nonce behind.ne'
    · exact refused
  · rw [refused] at accepted
    cases accepted

namespace Concrete

/-- Synthetic keys start with `0x80`, or with the `a` of their label: no point of the curve does. -/
theorem faucet_unsigned : FaucetUnsigned crypto := by
  rintro iterationId idx message sig ⟨point, _⟩
  obtain ⟨rest, label⟩ : ∃ rest, faucetLabel iterationId idx = 0x61 :: rest := by
    have text : ("aggora-faucet:" ++ toString iterationId ++ ":" ++ toString idx).toList =
        'a' :: ("ggora-faucet:" ++ toString iterationId ++ ":" ++ toString idx).toList := by simp
    exact ⟨_, congrArg (List.flatMap String.utf8EncodeChar) text⟩
  have key : faucetKey crypto iterationId idx = crypto.blake3 (faucetLabel iterationId idx) := rfl
  rw [label, blake3_eq] at key
  have high : (digest (0x61 :: rest)).val.headD 0 = 0x61 ∨ (digest (0x61 :: rest)).val.headD 0 = 0x80 := by
    unfold digest
    split
    · exact Or.inl rfl
    · exact Or.inr rfl
  have low : (digest (0x61 :: rest)).val.headD 0 < 0x40 := by
    rw [key] at point
    simpa [crypto] using point
  rcases high with at_a | at_top
  · rw [at_a] at low
    exact absurd low (by decide)
  · rw [at_top] at low
    exact absurd low (by decide)

theorem firstCall_hashes (key : FixedBytes 32) (state : CoinState ℚ) : (firstCall key).hashes crypto state = [key.val] := by
  have read : fixed32 (Hex.encode key.val) = .ok key := fixedBytes_encode key (by decide)
  simp [Call.hashes, firstCall, Booking.hashes, walletRequest, keyBytes, read, Except.toOption]

theorem firstCall_checked (key : FixedBytes 32) (state : CoinState ℚ) :
    (firstCall key).Checked crypto {key.val} state := by
  constructor
  case authenticated => exact trivial
  case hashed =>
    intro input member
    rw [firstCall_hashes] at member
    exact List.mem_singleton.mp member

theorem burnCall_checked (state : CoinState ℚ) : burnCall.Checked crypto {(key 7).val} state := by
  constructor
  case authenticated => exact rfl
  case hashed =>
    intro input member
    have listed : input ∈ keyBytes (ownBurn 1).senderPubkey := member
    rw [keyBytes, ownBurn_read] at listed
    exact List.mem_singleton.mp listed

end Concrete

open Concrete in
/-- A burn spends the first nonce of the first wallet, and is refused when it comes again. -/
theorem nonces_spent_in_order_burn :
    burntNode.SpentInOrder ∧
      (∃ tx, tx.spends = some (walletId 7, 0) ∧ burntNode.history = (firstNode (key 7)).history ++ [tx]) ∧
      burnCall.accepted crypto burntNode = false := by
  have first : Reach (fun state call => Call.next crypto call state)
      (fun state call => call.Checked crypto {(key 7).val} state) node (firstNode (key 7)) :=
    .next .start (firstCall_checked (key 7) node)
  have checked := burnCall_checked (firstNode (key 7))
  have spends :=
    (nonces_spent_in_order (Set.injOn_singleton _ _) faucet_unsigned opened_node node_formed first).2
  obtain ⟨recorded, refused⟩ := spends burnCall checked (walletId 7, 0) rfl burnCall_accepted
  have ordered :=
    (nonces_spent_in_order (Set.injOn_singleton _ _) faucet_unsigned opened_node node_formed (first.next checked)).1
  exact ⟨ordered, recorded, refused burntNode .start burnCall rfl⟩

end AggoraCoin
