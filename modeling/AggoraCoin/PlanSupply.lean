import AggoraCoin.Plans

namespace AggoraCoin

variable {F : Type} [F64 F] {C : Crypto} {state : CoinState F}

theorem MintPlan.Valid.total {operatorId : OperatorId} {plan : MintPlan F} (valid : plan.Valid C operatorId state) :
    (state.trees.wallets.put plan.wallet).total Wallet.balance = state.storedSupply + plan.wallet.balance :=
  KeyedTree.total_put_fresh _ valid.absent

omit [F64 F]

theorem ChargePlan.Valid.key {request : ChargeRequest} {wallet : Wallet F} {plan : ChargePlan F}
    (valid : plan.Valid C request state wallet) : state.trees.wallets.get plan.wallet.id = some wallet := by
  have named := KeyedTree.key_of_get valid.stored
  rw [valid.wallet_eq]
  exact named.symm ▸ valid.stored

theorem ChargePlan.Valid.total {request : ChargeRequest} {wallet : Wallet F} {plan : ChargePlan F}
    (valid : plan.Valid C request state wallet) (fits : wallet.balance + request.amount ≤ u64Max) :
    (state.trees.wallets.put plan.wallet).total Wallet.balance = state.storedSupply + request.amount := by
  have replaced := KeyedTree.total_put_of_get Wallet.balance valid.key
  have balance : plan.wallet.balance = wallet.balance + request.amount := by
    rw [valid.wallet_eq]
    exact Unsigned.saturatingAdd_of_le fits
  rw [CoinState.storedSupply]
  lia

section Transfer

variable {security : SecurityParameters} {request : TransferRequest} {key : FixedBytes 32}
  {fromWallet toWallet : Wallet F} {plan : TransferPlan F}

theorem TransferPlan.Valid.fromKey (valid : plan.Valid C security request state key fromWallet toWallet) :
    plan.fromWallet.id = request.fromId := by
  rw [valid.fromWallet_eq]
  exact (KeyedTree.key_of_get valid.stored_from : fromWallet.id = _)

theorem TransferPlan.Valid.toKey (valid : plan.Valid C security request state key fromWallet toWallet) :
    plan.toWallet.id = request.toId := by
  rw [valid.toWallet_eq]
  exact (KeyedTree.key_of_get valid.stored_to : toWallet.id = _)

/-- The two wallets are distinct, so together they hold no more than the supply. -/
theorem TransferPlan.Valid.fits (valid : plan.Valid C security request state key fromWallet toWallet)
    (bound : state.storedSupply ≤ u64Max) : toWallet.balance + request.amount ≤ u64Max := by
  have pair := KeyedTree.add_le_total_of_get Wallet.balance valid.distinct valid.stored_from valid.stored_to
  have covered := valid.covered
  rw [CoinState.storedSupply] at bound
  lia

theorem TransferPlan.Valid.sender (valid : plan.Valid C security request state key fromWallet toWallet) :
    state.trees.wallets.get plan.fromWallet.id = some fromWallet := valid.fromKey ▸ valid.stored_from

/-- Writing the sender does not disturb the receiver. -/
theorem TransferPlan.Valid.receiver (valid : plan.Valid C security request state key fromWallet toWallet) :
    (state.trees.wallets.put plan.fromWallet).get plan.toWallet.id = some toWallet := by
  have different : plan.fromWallet.id ≠ plan.toWallet.id := by
    rw [valid.fromKey, valid.toKey]
    exact valid.distinct
  rw [KeyedTree.get_put_of_ne _ different, valid.toKey]
  exact valid.stored_to

theorem TransferPlan.Valid.size (valid : plan.Valid C security request state key fromWallet toWallet) :
    ((state.trees.wallets.put plan.fromWallet).put plan.toWallet).size = state.trees.wallets.size :=
  (KeyedTree.size_put_of_get valid.receiver).trans (KeyedTree.size_put_of_get valid.sender)

theorem TransferPlan.Valid.total (valid : plan.Valid C security request state key fromWallet toWallet)
    (fits : toWallet.balance + request.amount ≤ u64Max) :
    ((state.trees.wallets.put plan.fromWallet).put plan.toWallet).total Wallet.balance = state.storedSupply := by
  have first := KeyedTree.total_put_of_get Wallet.balance valid.sender
  have second := KeyedTree.total_put_of_get Wallet.balance valid.receiver
  have spent : plan.fromWallet.balance = fromWallet.balance - request.amount := by
    rw [valid.fromWallet_eq]
    rfl
  have received : plan.toWallet.balance = toWallet.balance + request.amount := by
    rw [valid.toWallet_eq]
    exact Unsigned.saturatingAdd_of_le fits
  have covered := valid.covered
  rw [CoinState.storedSupply]
  lia

end Transfer

section Burn

variable {security : SecurityParameters} {request : BurnRequest} {key : FixedBytes 32} {wallet : Wallet F}
  {plan : BurnPlan F}

theorem BurnPlan.Valid.key_eq (valid : plan.Valid C security request state key wallet) :
    plan.wallet.id = request.fromId := by
  rw [valid.wallet_eq]
  exact (KeyedTree.key_of_get valid.stored : wallet.id = _)

theorem BurnPlan.Valid.sender (valid : plan.Valid C security request state key wallet) :
    state.trees.wallets.get plan.wallet.id = some wallet := valid.key_eq ▸ valid.stored

theorem BurnPlan.Valid.size (valid : plan.Valid C security request state key wallet) :
    (state.trees.wallets.put plan.wallet).size = state.trees.wallets.size :=
  KeyedTree.size_put_of_get valid.sender

theorem BurnPlan.Valid.total (valid : plan.Valid C security request state key wallet) :
    (state.trees.wallets.put plan.wallet).total Wallet.balance + request.amount = state.storedSupply := by
  have replaced := KeyedTree.total_put_of_get Wallet.balance valid.sender
  have spent : plan.wallet.balance = wallet.balance - request.amount := by
    rw [valid.wallet_eq]
    rfl
  have covered := valid.covered
  rw [CoinState.storedSupply]
  lia

end Burn

end AggoraCoin
