import AggoraCoin.Restarts

namespace AggoraCoin

variable {F : Type} [F64 F] {C : Crypto} {state : CoinState F}

namespace Call

/-- The calls that make or move a balance on request. -/
def isRequest : Call F → Bool
  | createWallet .. => true
  | charge .. => true
  | transfer .. => true
  | burn .. => true
  | installSeed .. => false
  | executeIterationNow .. => false
  | updateParameters .. => false

variable (C) in
/-- No check of the call refuses it. -/
def Passes (call : Call F) (state : CoinState F) : Prop :=
  match call with
  | createWallet parameters request operator operatorSig _ =>
    ∃ plan, planCreateWallet C parameters request operator operatorSig state = .ok plan
  | charge parameters request operator operatorSig guardNow _ =>
    request.amount ≠ 0 ∧
      (guardOperatorReplay parameters.security operatorSig request.timestamp guardNow state).1 = .ok () ∧
      ∃ plan, planCharge C request operator operatorSig state = .ok plan
  | transfer parameters request _ => ∃ plan, planTransfer C parameters.security request state = .ok plan
  | burn parameters request _ => ∃ plan, planBurn C parameters.security request state = .ok plan
  | _ => True

end Call

/-- The system state and the trees a call writes are as they were. -/
structure NoTrace (state after : CoinState F) : Prop where
  system_eq : after.system = state.system
  wallets_eq : after.trees.wallets = state.trees.wallets
  transactions_eq : after.trees.transactions = state.trees.transactions
  txByWallet_eq : after.trees.txByWallet = state.trees.txByWallet
  pohLog_eq : after.trees.pohLog = state.trees.pohLog
  iterations_eq : after.trees.iterations = state.trees.iterations
  state_eq : after.trees.state = state.trees.state
  parameters_eq : after.trees.parameters = state.trees.parameters

variable (C state) in
/-- The two ways a request is rejected: by a check, or at the signature of its PoH entry. -/
inductive Rejected (call : Call F) : Prop
  | checked (seen : String → Option Timestamp) (left : call.next C state = state.remembering seen)
      (stopped : ¬ call.Passes C state)
  | unsigned (tick : (call.next C state).system.currentTick = state.system.currentTick + 1)
      (passed : call.Passes C state) (malformed : ¬ Crypto.WellFormedSecret state.operatorSecret)

omit [F64 F] in
/-- A posting that fails has bumped the tick. -/
theorem Posts.rejected {α : Type} {wallets : List (Wallet F)} {system : SystemState F} {tx : Transaction F}
    {bytes : Bytes} {after : SystemState F → SystemState F} {reply : α} {ran : Outcome α × CoinState F}
    (posts : Posts C state wallets system tx bytes after reply ran) (failed : ran.1.isOk = false) :
    ran.2.system.currentTick = system.currentTick + 1 ∧ ¬ Crypto.WellFormedSecret state.operatorSecret := by
  cases posts with
  | accepted => cases failed
  | stranded malformed => exact ⟨rfl, malformed⟩

theorem Call.rejected {call : Call F} (requested : call.isRequest = true) (failed : call.accepted C state = false) :
    Rejected C state call := by
  cases call with
  | createWallet parameters request operator operatorSig now =>
    rcases createWallet_cases C state parameters request operator operatorSig now with
      ⟨e, refused, ran⟩ | ⟨plan, reply, planned, _, posts⟩
    · refine .checked state.seenOperatorSigs (congrArg Prod.snd ran) ?_
      rintro ⟨plan, planned⟩
      cases refused.symm.trans planned
    · obtain ⟨tick, malformed⟩ := posts.rejected failed
      exact .unsigned tick ⟨plan, planned⟩ malformed
  | charge parameters request operator operatorSig guardNow now =>
    rcases charge_cases C state parameters request operator operatorSig guardNow now with
      ⟨seen, e, ran, stopped⟩ | ⟨seen, plan, wallet, reply, positive, guarded, planned, _, posts⟩
    · exact .checked seen (congrArg Prod.snd ran) stopped
    · obtain ⟨tick, malformed⟩ := posts.rejected failed
      exact .unsigned tick ⟨positive, guarded, plan, planned⟩ malformed
  | transfer parameters request now =>
    rcases transfer_cases C state parameters request now with
      ⟨e, refused, ran⟩ | ⟨plan, key, fromWallet, toWallet, reply, planned, _, posts⟩
    · refine .checked state.seenOperatorSigs (congrArg Prod.snd ran) ?_
      rintro ⟨plan, planned⟩
      cases refused.symm.trans planned
    · obtain ⟨tick, malformed⟩ := posts.rejected failed
      exact .unsigned tick ⟨plan, planned⟩ malformed
  | burn parameters request now =>
    rcases burn_cases C state parameters request now with
      ⟨e, refused, ran⟩ | ⟨plan, key, wallet, reply, planned, _, posts⟩
    · refine .checked state.seenOperatorSigs (congrArg Prod.snd ran) ?_
      rintro ⟨plan, planned⟩
      cases refused.symm.trans planned
    · obtain ⟨tick, malformed⟩ := posts.rejected failed
      exact .unsigned tick ⟨plan, planned⟩ malformed
  | installSeed => cases requested
  | executeIterationNow => cases requested
  | updateParameters => cases requested

/-- A rejected request leaves no trace if and only if the secret can sign or a check refused it. -/
theorem Call.noTrace_iff {call : Call F} (requested : call.isRequest = true) (failed : call.accepted C state = false) :
    NoTrace state (call.next C state) ↔ Crypto.WellFormedSecret state.operatorSecret ∨ ¬ call.Passes C state := by
  cases call.rejected requested failed with
  | checked seen left stopped =>
    rw [left]
    exact ⟨fun _ => Or.inr stopped, fun _ => ⟨rfl, rfl, rfl, rfl, rfl, rfl, rfl, rfl⟩⟩
  | unsigned tick passed malformed =>
    constructor
    · intro unchanged
      have same := congrArg SystemState.currentTick unchanged.system_eq
      rw [tick] at same
      exact absurd same (Nat.succ_ne_self _)
    · rintro (formed | stopped)
      · exact absurd formed malformed
      · exact absurd passed stopped

/-- The operator secret as `open` resolves it. -/
def openingSecret (env : String → Option String) (config : NodeConfig F) (storage : Storage F) : Option String :=
  let parameters := storage.loadParameters.getD config.parameters
  config.operatorSecret
    |>.or (env parameters.security.operatorSecretEnv)
    |>.or (env "AGGORA_COIN_OPERATOR_SECRET")
    |>.or (some devOperatorSecret)

theorem openCoinState_secret {env : String → Option String} {config : NodeConfig F} {storage : Storage F}
    (opened : (openCoinState C env config storage).1 = .ok state) :
    state.operatorSecret = openingSecret env config storage := by
  unfold openCoinState at opened
  dsimp only at opened
  split at opened
  · cases opened
  split at opened
  · cases opened
  split at opened
  · cases opened
  cases opened
  rfl

/-- No call replaces the secret. -/
theorem operatorSecret_of_reach {allowed : CoinState F → Call F → Prop} {start : CoinState F}
    (reach : Reach (fun state call => Call.next C call state) allowed start state) :
    state.operatorSecret = start.operatorSecret := by
  induction reach with
  | start => rfl
  | @next before call _ _ ih => exact (call.sameKeys (C := C) before).operatorSecret_eq.trans ih

/-- On every node that opens, whatever was called before, a rejected request leaves no trace if and
only if the configured secret can sign or one of the request's checks refused it. -/
theorem rejected_leaves_no_trace {env : String → Option String} {config : NodeConfig F} {storage : Storage F}
    {start : CoinState F} (opened : (openCoinState C env config storage).1 = .ok start)
    {allowed : CoinState F → Call F → Prop}
    (reach : Reach (fun state call => Call.next C call state) allowed start state) {call : Call F}
    (requested : call.isRequest = true) (failed : call.accepted C state = false) :
    NoTrace state (call.next C state) ↔
      Crypto.WellFormedSecret (openingSecret env config storage) ∨ ¬ call.Passes C state := by
  have secret := (operatorSecret_of_reach reach).trans (openCoinState_secret opened)
  rw [← secret]
  exact Call.noTrace_iff requested failed

namespace Concrete

/-- A charge of nothing. -/
def emptyCharge : Call ℚ :=
  .charge parameters { toId := "", amount := 0, eurAmount := 0, timestamp := 0 } operator "" 0 0

/-- A charge of nothing is rejected, and leaves no trace. -/
theorem rejected_leaves_no_trace_charge : emptyCharge.accepted crypto node = false ∧
    NoTrace node (emptyCharge.next crypto node) := by
  have failed : emptyCharge.accepted crypto node = false := rfl
  have stopped : ¬ emptyCharge.Passes crypto node := fun passed => passed.1 rfl
  have reach : Reach (fun state call => Call.next crypto call state) (fun _ _ => True) node node := .start
  exact ⟨failed, (rejected_leaves_no_trace opened_node reach rfl failed).mpr (Or.inr stopped)⟩

/-- An operator key that decodes next to a secret that does not. -/
def unsignableConfig : NodeConfig ℚ := { keyConfig (key 1) with operatorSecret := some "zz" }

/-- Such a node opens, refuses to create a wallet, and keeps the wallet it refused. -/
theorem rejected_leaves_trace :
    ∃ start, (openCoinState crypto (fun _ => none) unsignableConfig .empty).1 = .ok start ∧
      (firstCall (key 2)).isRequest = true ∧ (firstCall (key 2)).accepted crypto start = false ∧
      ¬ NoTrace start ((firstCall (key 2)).next crypto start) := by
  have configured : unsignableConfig.operatorPublicKey = some (Hex.encode (key 1).val) := rfl
  obtain ⟨start, left, ran, _⟩ := openCoinState_of_key crypto (fun _ => none) .empty configured
    (fixedBytes_encode (key 1) (by decide))
  have opened : (openCoinState crypto (fun _ => none) unsignableConfig .empty).1 = .ok start := congrArg Prod.fst ran
  have malformed : ¬ Crypto.WellFormedSecret start.operatorSecret := by
    rw [openCoinState_secret opened]
    rintro ⟨key, read⟩
    have unread : (fixed32 "zz").toOption = none := by decide +kernel
    have read' : fixed32 "zz" = .ok key := read
    rw [read'] at unread
    cases unread
  have captcha : (trim (walletRequest (key 2)).captchaToken).isEmpty = false := by decide +kernel
  have read : fixed32 (walletRequest (key 2)).publicKey = .ok (key 2) := fixedBytes_encode (key 2) (by decide)
  obtain ⟨plan, planned, _⟩ := (openCoinState_empty opened).planCreateWallet parameters read captcha operator ""
  have passed : (firstCall (key 2)).Passes crypto start := ⟨plan, planned⟩
  have failed : (firstCall (key 2)).accepted crypto start = false := by
    rcases createWallet_cases crypto start parameters (walletRequest (key 2)) operator "" 0 with
      ⟨e, refused, _⟩ | ⟨plan, reply, _, _, posts⟩
    · cases refused.symm.trans planned
    · change (createWallet crypto parameters (walletRequest (key 2)) operator "" 0 start).1.isOk = false
      generalize createWallet crypto parameters (walletRequest (key 2)) operator "" 0 start = finished at *
      cases posts with
      | accepted formed => exact absurd formed malformed
      | stranded => rfl
  refine ⟨start, opened, rfl, failed, fun unchanged => ?_⟩
  rcases (Call.noTrace_iff rfl failed).mp unchanged with formed | stopped
  · exact malformed formed
  · exact stopped passed

end Concrete

end AggoraCoin
