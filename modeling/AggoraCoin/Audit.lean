import AggoraCoin.Archive
import AggoraCoin.Index

namespace AggoraCoin

variable {F : Type} [F64 F] {C : Crypto} {state : CoinState F} {inputs : Set Bytes} {values : Set Json}

section Runs

variable {env : String → Option String} {config : NodeConfig F} {start : CoinState F}

end Runs

/-- The tick and the id a call reports to its caller. -/
def Call.receipt (C : Crypto) (call : Call F) (state : CoinState F) : Option (Tick × Hash) :=
  match call with
  | createWallet parameters request operator operatorSig now =>
    match (AggoraCoin.createWallet C parameters request operator operatorSig now state).1 with
    | .ok reply => some (reply.createdAtTick, reply.txId)
    | _ => none
  | charge parameters request operator operatorSig guardNow now =>
    match (AggoraCoin.charge C parameters request operator operatorSig guardNow now state).1 with
    | .ok reply => some (reply.tick, reply.txId)
    | _ => none
  | transfer parameters request now =>
    match (AggoraCoin.transfer C parameters request now state).1 with
    | .ok reply => some (reply.tick, reply.txId)
    | _ => none
  | burn parameters request now =>
    match (AggoraCoin.burn C parameters request now state).1 with
    | .ok reply => some (reply.tick, reply.txId)
    | _ => none
  | _ => none

theorem createWallet_reply {parameters : SystemParameters F} {request : WalletCreateRequest} {operator : Operator}
    {operatorSig : String} {now : Timestamp} {reply : WalletCreateResponse}
    (returned : (createWallet C parameters request operator operatorSig now state).1 = .ok reply) :
    ∃ plan, planCreateWallet C parameters request operator operatorSig state = .ok plan ∧
      reply.createdAtTick = plan.wallet.createdAtTick ∧ reply.txId = plan.tx.txId := by
  unfold createWallet at returned
  split at returned
  · cases returned
  rename_i plan planned
  refine ⟨plan, planned, ?_⟩
  split at returned
  · cases returned
  · cases returned
    exact ⟨rfl, rfl⟩

omit [F64 F] in
theorem chargeLocked_reply {request : ChargeRequest} {operator : Operator} {operatorSig : String} {now : Timestamp}
    {reply : TxAcceptedResponse} (returned : (chargeLocked C request operator operatorSig now state).1 = .ok reply) :
    ∃ plan, planCharge C request operator operatorSig state = .ok plan ∧
      reply.tick = state.system.currentTick + 1 ∧ reply.txId = plan.tx.txId := by
  unfold chargeLocked at returned
  split at returned
  · cases returned
  rename_i plan planned
  refine ⟨plan, planned, ?_⟩
  dsimp only at returned
  split at returned
  · cases returned
  · cases returned
    exact ⟨rfl, rfl⟩

omit [F64 F] in
theorem transfer_reply {parameters : SystemParameters F} {request : TransferRequest} {now : Timestamp}
    {reply : TxAcceptedResponse} (returned : (transfer C parameters request now state).1 = .ok reply) :
    ∃ plan, planTransfer C parameters.security request state = .ok plan ∧
      reply.tick = state.system.currentTick + 1 ∧ reply.txId = plan.tx.txId := by
  unfold transfer at returned
  split at returned
  · cases returned
  rename_i plan planned
  refine ⟨plan, planned, ?_⟩
  dsimp only at returned
  split at returned
  · cases returned
  · cases returned
    exact ⟨rfl, rfl⟩

omit [F64 F] in
theorem burn_reply {parameters : SystemParameters F} {request : BurnRequest} {now : Timestamp}
    {reply : TxAcceptedResponse} (returned : (burn C parameters request now state).1 = .ok reply) :
    ∃ plan, planBurn C parameters.security request state = .ok plan ∧
      reply.tick = state.system.currentTick + 1 ∧ reply.txId = plan.tx.txId := by
  unfold burn at returned
  split at returned
  · cases returned
  rename_i plan planned
  refine ⟨plan, planned, ?_⟩
  dsimp only at returned
  split at returned
  · cases returned
  · cases returned
    exact ⟨rfl, rfl⟩

end AggoraCoin
