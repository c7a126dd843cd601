import AggoraCoin.Activity
import AggoraCoin.Owners
import AggoraCoin.Reports

namespace AggoraCoin

variable {F : Type}

/-- The wallets a transaction opens. -/
def Transaction.opens : Transaction F → List WalletId
  | .mint tx => if tx.category = "wallet_seed" ∨ tx.category = "seed_bootstrap" then [tx.toId] else []
  | .iterationCommit commit => commit.newWallets
  | _ => []

/-- The transaction opened the wallet, as its record says. An iteration opens its wallets under the
tick it was triggered at, one before its own. -/
inductive Wallet.Opening (wallet : Wallet F) (place : Nat) : Transaction F → Prop
  | minted {tx : MintTx} (listed : wallet.id ∈ Transaction.opens (.mint tx : Transaction F))
      (tick : wallet.createdAtTick = place + 1) (operator : wallet.createdByOperator = tx.operatorId) :
      Wallet.Opening wallet place (.mint tx)
  | faucet {commit : IterationCommit F} (listed : wallet.id ∈ Transaction.opens (.iterationCommit commit))
      (tick : wallet.createdAtTick = place) (iteration : wallet.createdAtIteration = commit.iterationId) :
      Wallet.Opening wallet place (.iterationCommit commit)

theorem Wallet.Opening.listed_opens {wallet : Wallet F} {place : Nat} {tx : Transaction F}
    (opening : wallet.Opening place tx) : wallet.id ∈ tx.opens := by
  cases opening with
  | minted listed => exact listed
  | faucet listed => exact listed

/-- What a record says of where it comes from. -/
structure Wallet.KeepsOrigin (old new : Wallet F) : Prop where
  id_eq : new.id = old.id
  pubkey_eq : new.pubkey = old.pubkey
  createdAtTick_eq : new.createdAtTick = old.createdAtTick
  createdAtIteration_eq : new.createdAtIteration = old.createdAtIteration
  createdByOperator_eq : new.createdByOperator = old.createdByOperator

namespace Wallet.KeepsOrigin

variable {old middle new : Wallet F}

theorem refl (wallet : Wallet F) : wallet.KeepsOrigin wallet := ⟨rfl, rfl, rfl, rfl, rfl⟩

theorem trans (first : old.KeepsOrigin middle) (second : middle.KeepsOrigin new) : old.KeepsOrigin new :=
  ⟨second.id_eq.trans first.id_eq, second.pubkey_eq.trans first.pubkey_eq,
    second.createdAtTick_eq.trans first.createdAtTick_eq,
    second.createdAtIteration_eq.trans first.createdAtIteration_eq,
    second.createdByOperator_eq.trans first.createdByOperator_eq⟩

theorem opening {place : Nat} {tx : Transaction F} (same : old.KeepsOrigin new) (opening : old.Opening place tx) :
    new.Opening place tx := by
  cases opening with
  | minted listed tick operator =>
    exact .minted (same.id_eq ▸ listed) (same.createdAtTick_eq.trans tick) (same.createdByOperator_eq.trans operator)
  | faucet listed tick iteration =>
    exact .faucet (same.id_eq ▸ listed) (same.createdAtTick_eq.trans tick)
      (same.createdAtIteration_eq.trans iteration)

end Wallet.KeepsOrigin

/-- Where the wallet under `id` comes from when `tx` is entered. -/
inductive Comes (before : CoinState F) (tx : Transaction F) (id : WalletId) (wallet : Wallet F) : Prop
  | kept {old : Wallet F} (stored : before.getWallet id = some old) (same : old.KeepsOrigin wallet)
  | minted (absent : before.getWallet id = none) (opening : wallet.Opening before.system.currentTick tx)
  /-- The faucet opens a wallet under it, whatever was there. -/
  | faucet {commit : IterationCommit F} (commits : tx = .iterationCommit commit)
      (opening : wallet.Opening before.system.currentTick tx)

section Calls

variable [F64 F] {C : Crypto} {before after node later : CoinState F}

theorem planCreateWallet_createdBy {parameters : SystemParameters F} {request : WalletCreateRequest}
    {operator : Operator} {operatorSig : String} {plan : MintPlan F}
    (planned : planCreateWallet C parameters request operator operatorSig before = .ok plan) :
    plan.wallet.createdByOperator = plan.tx.operatorId := by
  simp only [planCreateWallet, bind_eq_ok_iff, mapErr_eq_ok_iff, rejectIf_eq_ok_iff, pure_eq_ok_iff] at planned
  obtain ⟨_, _, _, _, _, _, _, _, _, _, rfl⟩ := planned
  rfl

theorem planSeedWallet_createdBy {parameters : SystemParameters F} {entry : SeedWallet} {hashed stored : Timestamp}
    {plan : MintPlan F} (planned : planSeedWallet C parameters entry hashed stored before = .ok (some plan)) :
    plan.wallet.createdByOperator = plan.tx.operatorId := by
  simp only [planSeedWallet, bind_eq_ok_iff, mapErr_eq_ok_iff] at planned
  obtain ⟨_, _, _, _, planned⟩ := planned
  split at planned
  · simp only [pure_eq_ok_iff, reduceCtorEq] at planned
  · simp only [pure_eq_ok_iff, Option.some.injEq] at planned
    subst planned
    rfl

/-- A mint that opens a wallet. -/
theorem MintPlan.Valid.comes {operatorId : OperatorId} {plan : MintPlan F} (valid : plan.Valid C operatorId before)
    (category : plan.tx.category = "wallet_seed" ∨ plan.tx.category = "seed_bootstrap")
    (operator : plan.wallet.createdByOperator = plan.tx.operatorId) {id : WalletId} {wallet : Wallet F}
    (here : (before.trees.wallets.put plan.wallet).get id = some wallet) :
    Comes before (.mint plan.tx) id wallet := by
  rw [KeyedTree.get_put] at here
  split at here
  · rename_i named
    cases here
    subst named
    obtain ⟨key, recorded⟩ := valid.wallet_eq
    have listed : plan.wallet.id ∈ Transaction.opens (.mint plan.tx : Transaction F) := by
      rw [Transaction.opens, if_pos category, valid.tx_toId]
      exact List.mem_singleton.mpr rfl
    refine .minted valid.absent (.minted listed ?_ operator)
    rw [recorded]
    rfl
  · exact .kept here (.refl wallet)

omit [F64 F] in
/-- A wallet that is written back with the origin it had. -/
theorem Comes.of_put {tx : Transaction F} {id : WalletId} {old written wallet : Wallet F}
    (stored : before.getWallet old.id = some old) (same : old.KeepsOrigin written)
    (here : (before.trees.wallets.put written).get id = some wallet) : Comes before tx id wallet := by
  rw [KeyedTree.get_put] at here
  split at here
  · rename_i named
    cases here
    subst named
    exact .kept (same.id_eq ▸ stored) same
  · exact .kept here (.refl wallet)

theorem Books.comes {booking : Booking F} {sheet : Sheet F} (books : Books C before booking sheet) {id : WalletId}
    {wallet : Wallet F} (here : (before.trees.wallets.putAll sheet.wallets).get id = some wallet) :
    Comes before sheet.tx id wallet := by
  cases books with
  | create planned =>
    exact (planCreateWallet_ok planned).2.1.comes (Or.inl (planCreateWallet_category planned))
      (planCreateWallet_createdBy planned) here
  | seed planned =>
    exact (planSeedWallet_ok planned).1.comes (Or.inr (planSeedWallet_category planned))
      (planSeedWallet_createdBy planned) here
  | @charge request operator operatorSig plan planned =>
    obtain ⟨_, old, valid⟩ := planCharge_ok planned
    have named : old.id = request.toId := KeyedTree.key_of_get valid.stored
    refine .of_put (named ▸ valid.stored) ?_ here
    rw [valid.wallet_eq]
    exact ⟨rfl, rfl, rfl, rfl, rfl⟩
  | @transfer security request key fromWallet toWallet plan valid =>
    have namedFrom : fromWallet.id = request.fromId := KeyedTree.key_of_get valid.stored_from
    have namedTo : toWallet.id = request.toId := KeyedTree.key_of_get valid.stored_to
    have sender : fromWallet.KeepsOrigin plan.fromWallet := by
      rw [valid.fromWallet_eq]
      exact ⟨rfl, rfl, rfl, rfl, rfl⟩
    have receiver : toWallet.KeepsOrigin plan.toWallet := by
      rw [valid.toWallet_eq]
      exact ⟨rfl, rfl, rfl, rfl, rfl⟩
    simp only [KeyedTree.putAll_cons, KeyedTree.putAll_nil] at here
    rw [KeyedTree.get_put] at here
    split at here
    · rename_i named
      cases here
      subst named
      have stored : before.getWallet plan.toWallet.id = some toWallet := by
        rw [receiver.id_eq, namedTo]
        exact valid.stored_to
      exact .kept stored receiver
    · exact .of_put (namedFrom ▸ valid.stored_from) sender here
  | @burn security request key old plan valid =>
    have named : old.id = request.fromId := KeyedTree.key_of_get valid.stored
    refine .of_put (named ▸ valid.stored) ?_ here
    rw [valid.wallet_eq]
    exact ⟨rfl, rfl, rfl, rfl, rfl⟩
  | @commit parameters beta result valid =>
    have outcome := valid.keyOutcome id
    rw [here] at outcome
    cases outcome with
    | opened idx planned named =>
      refine .faucet rfl (.faucet ?_ rfl valid.iterationId_eq.symm)
      rw [Transaction.opens, valid.newWallets_eq]
      exact List.mem_map_of_mem (List.mem_map_of_mem (List.mem_range.mpr planned))
    | settled penalty reward stored => exact .kept stored ⟨rfl, rfl, rfl, rfl, rfl⟩

/-- A wallet that the transaction opens is stored with it. -/
theorem Books.opened {booking : Booking F} {sheet : Sheet F} (books : Books C before booking sheet) {id : WalletId}
    (opens : id ∈ sheet.tx.opens) : ((before.trees.wallets.putAll sheet.wallets).get id).isSome = true := by
  refine KeyedTree.isSome_get_putAll.mpr (Or.inr ?_)
  cases books with
  | create planned =>
    have toId := (planCreateWallet_ok planned).2.1.tx_toId
    rw [Transaction.opens, if_pos (Or.inl (planCreateWallet_category planned)), toId] at opens
    exact opens
  | seed planned =>
    have toId := (planSeedWallet_ok planned).1.tx_toId
    rw [Transaction.opens, if_pos (Or.inr (planSeedWallet_category planned)), toId] at opens
    exact opens
  | charge planned =>
    simp [Transaction.opens, planCharge_category planned] at opens
  | transfer => cases opens
  | burn => cases opens
  | commit valid =>
    rw [Transaction.opens, valid.newWallets_eq] at opens
    rw [valid.wallets_eq, List.map_append]
    exact List.mem_append_right _ opens

/-- The stored wallets are those the archive opened. -/
structure CoinState.Populated (node : CoinState F) : Prop where
  ticked : node.history.length = node.system.currentTick
  opened : ∀ id wallet, node.getWallet id = some wallet →
    ∃ place tx, node.history[place]? = some tx ∧ wallet.Opening place tx
  kept : ∀ tx ∈ node.history, ∀ id ∈ tx.opens, (node.getWallet id).isSome = true

namespace CoinState.Populated

theorem enter (populated : before.Populated) {booking : Booking F} {sheet : Sheet F} {entry : PohEntry}
    (books : Books C before booking sheet) : (before.enter sheet entry).Populated := by
  have found {id : WalletId} : (before.enter sheet entry).getWallet id =
      (before.trees.wallets.putAll sheet.wallets).get id := by
    rw [CoinState.getWallet, CoinState.enter_wallets]
  have newest : (before.history ++ [sheet.tx])[before.system.currentTick]? = some sheet.tx := by
    rw [← populated.ticked, List.getElem?_concat_length]
  constructor
  case ticked =>
    rw [CoinState.enter_history, List.length_append, populated.ticked]
    exact congrArg (· + 1) books.currentTick_eq.symm
  case opened =>
    intro id wallet here
    rw [found] at here
    rw [CoinState.enter_history]
    cases books.comes here with
    | kept stored same =>
      obtain ⟨place, tx, placed, opening⟩ := populated.opened id _ stored
      have inside := (List.getElem?_eq_some_iff.mp placed).choose
      refine ⟨place, tx, ?_, same.opening opening⟩
      rw [List.getElem?_append_left inside]
      exact placed
    | minted _ opening => exact ⟨_, _, newest, opening⟩
    | faucet _ opening => exact ⟨_, _, newest, opening⟩
  case kept =>
    intro tx member id opens
    rw [CoinState.enter_history] at member
    rw [found]
    rcases List.mem_append.mp member with old | new
    · exact KeyedTree.isSome_get_putAll.mpr (Or.inl (populated.kept tx old id opens))
    · rw [List.mem_singleton.mp new] at opens
      exact books.opened opens

omit [F64 F] in
theorem quiet (populated : before.Populated) (quiet : Quiet before after) : after.Populated := by
  have past := quiet.past.1
  have found (id : WalletId) : after.getWallet id = before.getWallet id :=
    congrArg (fun tree => tree.get id) quiet.ledger.wallets_eq
  obtain ⟨lock, system⟩ := quiet.system
  constructor
  case ticked =>
    rw [past, system]
    exact populated.ticked
  case opened =>
    intro id wallet here
    rw [found] at here
    rw [past]
    exact populated.opened id wallet here
  case kept =>
    intro tx member id opens
    rw [past] at member
    rw [found]
    exact populated.kept tx member id opens

end CoinState.Populated

/-- Since `node`, a wallet kept its origin or was opened again by an iteration. -/
structure CoinState.KeepsOrigins (node later : CoinState F) : Prop where
  grown : node.history <+: later.history
  wallets : ∀ id wallet, node.getWallet id = some wallet → ∃ kept, later.getWallet id = some kept ∧
    (wallet.KeepsOrigin kept ∨ ∃ commit, .iterationCommit commit ∈ later.history.drop node.history.length ∧
      id ∈ commit.newWallets)

namespace CoinState.KeepsOrigins

omit [F64 F] in
theorem refl (node : CoinState F) : node.KeepsOrigins node :=
  ⟨List.prefix_rfl, fun _ wallet here => ⟨wallet, here, Or.inl (.refl wallet)⟩⟩

theorem enter (keeps : node.KeepsOrigins before) {booking : Booking F} {sheet : Sheet F} {entry : PohEntry}
    (books : Books C before booking sheet) : node.KeepsOrigins (before.enter sheet entry) := by
  obtain ⟨more, same⟩ := keeps.grown
  have since : (before.history ++ [sheet.tx]).drop node.history.length = more ++ [sheet.tx] := by
    rw [← same, List.append_assoc, List.drop_left]
  have before_since : before.history.drop node.history.length = more := by
    rw [← same, List.drop_left]
  refine ⟨?_, fun id wallet stored => ?_⟩
  · rw [CoinState.enter_history]
    exact keeps.grown.trans (List.prefix_append _ _)
  · rw [CoinState.getWallet, CoinState.enter_wallets, CoinState.enter_history, since]
    obtain ⟨old, held, origin⟩ := keeps.wallets id wallet stored
    rw [before_since] at origin
    have lasting : ((before.trees.wallets.putAll sheet.wallets).get id).isSome = true :=
      KeyedTree.isSome_get_putAll.mpr (Or.inl (Option.isSome_of_eq_some held))
    obtain ⟨kept, here⟩ := Option.isSome_iff_exists.mp lasting
    refine ⟨kept, here, ?_⟩
    have named : kept.id = id := KeyedTree.key_of_get here
    cases books.comes here with
    | kept held' same' =>
      cases Option.some.inj (held.symm.trans held')
      rcases origin with unchanged | ⟨commit, reopened, listed⟩
      · exact Or.inl (unchanged.trans same')
      · exact Or.inr ⟨commit, List.mem_append_left _ reopened, listed⟩
    | minted absent _ =>
      rw [held] at absent
      cases absent
    | faucet commits opening =>
      have opens := opening.listed_opens
      rw [commits, named] at opens
      rw [commits]
      exact Or.inr ⟨_, List.mem_append_right _ (List.mem_singleton.mpr rfl), opens⟩

omit [F64 F] in
theorem quiet (keeps : node.KeepsOrigins before) (quiet : Quiet before after) : node.KeepsOrigins after := by
  have past := quiet.past.1
  have found (id : WalletId) : after.getWallet id = before.getWallet id :=
    congrArg (fun tree => tree.get id) quiet.ledger.wallets_eq
  refine ⟨past ▸ keeps.grown, fun id wallet stored => ?_⟩
  rw [found, past]
  exact keeps.wallets id wallet stored

end CoinState.KeepsOrigins

theorem OpenedEmpty.populated {config : NodeConfig F} (opened : OpenedEmpty C config node) (past : node.history = []) :
    node.Populated := by
  constructor
  case ticked =>
    rw [past, opened.default_eq]
    rfl
  case opened =>
    intro id wallet here
    rw [opened.getWallet] at here
    cases here
  case kept =>
    rw [past]
    simp

/-- In every run that starts from an empty database with a secret that can sign: the wallets stored are
those that a transaction of the archive opened; each is stored under the hash of its own key, and one
transaction of the archive opened it at the tick and for the operator or iteration its record names;
and it is never lost: in every later state it has the same origin, or the faucet of a later iteration
has opened it again. -/
theorem wallets_accounted {env : String → Option String} {config : NodeConfig F} {start : CoinState F}
    (opened : (openCoinState C env config .empty).1 = .ok start)
    (formed : Crypto.WellFormedSecret start.operatorSecret)
    (reach : Reach (fun state call => Call.next C call state) (fun _ _ => True) start node)
    (onward : Reach (fun state call => Call.next C call state) (fun _ _ => True) node later) (id : WalletId) :
    ((node.getWallet id).isSome = true ↔ ∃ tx ∈ node.history, id ∈ tx.opens) ∧
      ∀ wallet, node.getWallet id = some wallet →
        C.walletIdFromPublicKey wallet.pubkey = .ok id ∧
        (∃ place tx, node.history[place]? = some tx ∧ wallet.Opening place tx) ∧
        ∃ kept, later.getWallet id = some kept ∧ (wallet.KeepsOrigin kept ∨
          ∃ commit, .iterationCommit commit ∈ later.history.drop node.history.length ∧ id ∈ commit.newWallets) := by
  have fresh := openCoinState_empty opened
  have steps : Steps C (fun _ _ _ => True) start node :=
    steps_of_reach _ reach fun _ _ _ _ _ _ _ => trivial
  have more : Steps C (fun _ _ _ => True) node later :=
    steps_of_reach _ onward fun _ _ _ _ _ _ _ => trivial
  have populated : node.Populated :=
    steps.invariant_of_formed CoinState.Populated formed (fresh.populated (openCoinState_empty_past opened).1)
      (fun _ _ _ _ books _ _ populated => populated.enter books) fun _ _ quiet populated => populated.quiet quiet
  have signs : Crypto.WellFormedSecret node.operatorSecret := by
    rw [steps.operatorSecret_eq]
    exact formed
  have keeps : node.KeepsOrigins later :=
    more.invariant_of_formed node.KeepsOrigins signs (.refl node) (fun _ _ _ _ books _ _ keeps => keeps.enter books)
      fun _ _ quiet keeps => keeps.quiet quiet
  have keyed : node.Keyed C Set.univ := keyed_of_steps (fun _ _ _ _ _ _ => trivial) fresh.keyed steps
  refine ⟨⟨fun stored => ?_, ?_⟩, fun wallet stored => ⟨?_, populated.opened id wallet stored,
    keeps.wallets id wallet stored⟩⟩
  · obtain ⟨wallet, here⟩ := Option.isSome_iff_exists.mp stored
    obtain ⟨place, tx, placed, opening⟩ := populated.opened id wallet here
    have named : wallet.id = id := KeyedTree.key_of_get here
    exact ⟨tx, List.mem_of_getElem? placed, named ▸ opening.listed_opens⟩
  · rintro ⟨tx, member, opens⟩
    exact populated.kept tx member id opens
  · obtain ⟨key, _, pubkey, hashed⟩ := keyed id wallet stored
    have named : wallet.id = id := KeyedTree.key_of_get stored
    rw [pubkey]
    exact C.walletIdFromPublicKey_eq_ok_iff.mpr ⟨key, fixedBytes_encode key (by decide), named ▸ hashed⟩

end Calls

/-- The first wallet of a node is in its archive, and is there after the second. -/
theorem wallets_accounted_first :
    (∃ tx ∈ (Concrete.firstNode (Concrete.key 1)).history, Concrete.walletId 1 ∈ tx.opens) ∧
      (((Concrete.firstCall (Concrete.key 2)).next Concrete.crypto
        (Concrete.firstNode (Concrete.key 1))).getWallet (Concrete.walletId 1)).isSome = true := by
  have reach : Reach (fun state call => Call.next Concrete.crypto call state) (fun _ _ => True) Concrete.node
      (Concrete.firstNode (Concrete.key 1)) := .next .start trivial
  have onward : Reach (fun state call => Call.next Concrete.crypto call state) (fun _ _ => True)
      (Concrete.firstNode (Concrete.key 1))
      ((Concrete.firstCall (Concrete.key 2)).next Concrete.crypto (Concrete.firstNode (Concrete.key 1))) :=
    .next .start trivial
  have stored : (Concrete.firstNode (Concrete.key 1)).getWallet (Concrete.walletId 1) =
      some (firstWallet Concrete.crypto Concrete.parameters Concrete.operator (Concrete.key 1)) := by
    rw [CoinState.getWallet, Concrete.firstNode_wallets]
    exact KeyedTree.get_put_self _ _
  obtain ⟨listed, accounted⟩ := wallets_accounted Concrete.opened_node Concrete.node_formed reach onward
    (Concrete.walletId 1)
  obtain ⟨_, _, kept, here, _⟩ := accounted _ stored
  exact ⟨listed.mp (Option.isSome_of_eq_some stored), Option.isSome_of_eq_some here⟩

end AggoraCoin
