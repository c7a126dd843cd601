import AggoraCoin.GatewayRuns

namespace AggoraCoin

namespace Deployment

variable {F : Type} [F64 F] {D : Deployment F} {request : HttpRequest} {allowed : List (Tick × Transaction F) → Prop}

/-- A call that enters one transaction or none, as its outcome says. -/
def Lands {α : Type} (D : Deployment F) (request : HttpRequest) (names : α → Tick × Hash) (before : Service F)
    (ran : Outcome α × CoinState F) : Prop :=
  D.Advances before { before with node := ran.2 } ∧ ∃ more, ran.2.ticked = before.node.ticked ++ more ∧
    (∀ placed ∈ more, D.Justified request before.node placed) ∧
      ∀ entries, entries = [] → Landed names ran.1 (entries ++ more)

/-- A plan that passed is posted. -/
theorem Lands.posts {α : Type} {booking : Booking F} (sheet : Sheet F) {reply : α}
    {ran : Outcome α × CoinState F} {names : α → Tick × Hash} {before : Service F} (ready : D.Ready before)
    (posts : Posts D.crypto before.node sheet.wallets sheet.system sheet.tx (sheet.payload.bytes D.crypto)
      (SystemState.activate sheet.activated) reply ran)
    (books : Books D.crypto before.node booking sheet) (based : booking.base before.node = before.node)
    (admitted : D.admitted request)
    (requested : D.Requested request booking)
    (named : ∀ value, ran.1 = .ok value → names value = (before.node.system.currentTick + 1, sheet.tx.txId)) :
    D.Lands request names before ran := by
  have registry : ran.2.trees.operators = before.node.trees.operators := by
    have booked : booking ∈ ({booking} : Set (Booking F)) := rfl
    obtain ⟨writes, script⟩ := Posts.script before.node.seenOperatorSigs sheet posts books booked
    rw [CoinState.trees, script.storage_eq, Storage.trees_writeAll]
    exact operators_applyAll script.registers _
  have parameters : ran.2.parameters = before.node.parameters := by
    cases posts with
    | accepted => rfl
    | stranded => rfl
  have steps : Steps D.crypto (fun _ booking _ => ∃ request, D.admitted request ∧ D.Requested request booking)
      before.node ran.2 := posts.steps sheet books ⟨request, admitted, requested⟩
  refine ⟨⟨steps, registry, fun settled => parameters ▸ settled⟩, ?_⟩
  have grown := posts.history
  cases posts with
  | accepted =>
    rcases grown with ⟨_, grown⟩ | ⟨failed, _⟩
    case inr => cases failed
    have longer := CoinState.ticked_of_one grown
    rw [ready.logged.matched, ready.logged.ticked] at longer
    refine ⟨_, longer, ?_, ?_⟩
    · intro placed member
      rw [List.mem_singleton.mp member]
      exact ⟨booking, sheet, requested, based.symm ▸ books, rfl⟩
    · rintro _ rfl
      have same := named reply rfl
      refine ⟨sheet.tx, ?_, ?_⟩
      · rw [same]
        rfl
      · rw [same]
  | stranded malformed => exact absurd ready.formed malformed

theorem Lands.refused {α : Type} {names : α → Tick × Hash} {before : Service F} {ran : Outcome α × CoinState F}
    {e : StateError} (left : ran = (.err e, before.node)) : D.Lands request names before ran := by
  subst left
  exact ⟨.refl _, [], (List.append_nil _).symm, fun _ member => (by cases member), fun _ none => by rw [none]; rfl⟩

/-- One such call under the system lock. -/
theorem Honours.landing {α : Type} {names : α → Tick × Hash}
    {run : (Nat → Timestamp) → CoinState F → Outcome α × CoinState F}
    (lands : ∀ clock before, D.Ready before → D.Lands request names before (run clock before.node)) :
    D.Honours request (fun outcome => D.Known request (Landed names outcome)) (D.Unspent request)
      (Handler.locked run) := .locked lands

/-- The tick and the id of an accepted transaction. -/
def acceptance (response : TxAcceptedResponse) : Tick × Hash := (response.tick, response.txId)

def creation (response : WalletCreateResponse) : Tick × Hash := (response.createdAtTick, response.txId)

/-- The replay guard enters nothing. -/
theorem Honours.guarded {security : SecurityParameters} {signature : String} {timestamp now : Timestamp} :
    D.Honours request (fun _ => D.Unspent request) (D.Unspent request)
      (Handler.locked fun _ => guardOperatorReplay security signature timestamp now) := by
  refine .quiet fun _ before => ?_
  obtain ⟨seen, kept⟩ := guardOperatorReplay_keeps before.node security signature timestamp now
  refine ⟨?_, ?_, ?_⟩
  · rw [kept]
    exact ⟨⟨[], by simp, by simp [Storage.writeAll]⟩, ⟨_, rfl⟩, rfl, rfl, rfl⟩
  · rw [kept]
    rfl
  · rw [kept]
    exact id

section Calls

variable (admitted : D.admitted request)

include admitted

theorem Honours.createWallet {body : WalletCreateRequest} {operator : Operator} {signature : String}
    (route : request.route = .createWallet) (read : D.decode.walletCreate request.body = .ok body)
    (signed : D.SignedBy request operator signature) :
    D.Honours request (fun outcome => D.Known request (Landed creation outcome)) (D.Unspent request)
      (Async.createWallet D.crypto body operator signature) := by
  refine Process.Meets.bind Honours.parameters fun parameters => .given fun settled => ?_
  refine Honours.landing fun clock before ready => ?_
  rcases createWallet_cases D.crypto before.node parameters body operator signature (clock 0) with
    ⟨e, _, ran⟩ | ⟨plan, reply, planned, valid, posts⟩
  · exact .refused ran
  · refine .posts ⟨_, _, _, _, 0⟩ ready posts (.create planned) rfl admitted (.create route read settled signed) ?_
    intro value returned
    obtain ⟨plan', planned', ticked, named⟩ := createWallet_reply returned
    cases planned.symm.trans planned'
    obtain ⟨key, fresh⟩ := valid.wallet_eq
    rw [creation, ticked, named, fresh]
    rfl

theorem Honours.charge {body : ChargeRequest} {operator : Operator} {signature : String}
    (route : request.route = .charge) (read : D.decode.charge request.body = .ok body)
    (signed : D.SignedBy request operator signature) :
    D.Honours request (fun outcome => D.Known request (Landed acceptance outcome)) (D.Unspent request)
      (Async.charge D.crypto body operator signature) := by
  have refusal (e : StateError) : D.Honours request (fun outcome => D.Known request (Landed acceptance outcome))
      (D.Unspent request) (pure (.err e)) :=
    .pure (fun _ _ known => known.along) fun _ _ known => known
  unfold Async.charge
  split
  · exact refusal _
  refine Process.Meets.bind Honours.parameters fun parameters => .given fun _ => ?_
  refine Process.Meets.bind Honours.now fun now => ?_
  refine Process.Meets.bind Honours.guarded fun verdict => ?_
  cases verdict with
  | error e => exact refusal e
  | ok _ =>
    refine Honours.landing fun clock before ready => ?_
    rcases chargeLocked_cases D.crypto before.node body operator signature (clock 0) with
      ⟨e, _, ran⟩ | ⟨plan, wallet, reply, planned, valid, posts⟩
    · exact .refused ran
    · refine .posts ⟨_, _, _, _, 0⟩ ready posts (.charge planned) rfl admitted (.charge route read signed) ?_
      intro value returned
      obtain ⟨plan', planned', ticked, named⟩ := chargeLocked_reply returned
      cases planned.symm.trans planned'
      rw [acceptance, ticked, named]
      rfl

theorem Honours.transfer {body : TransferRequest} (route : request.route = .transfer)
    (read : D.decode.transfer request.body = .ok body) :
    D.Honours request (fun outcome => D.Known request (Landed acceptance outcome)) (D.Unspent request)
      (Async.transfer D.crypto body) := by
  refine Process.Meets.bind Honours.parameters fun parameters => .given fun settled => ?_
  refine Honours.landing fun clock before ready => ?_
  rcases transfer_cases D.crypto before.node parameters body (clock 0) with
    ⟨e, _, ran⟩ | ⟨plan, key, fromWallet, toWallet, reply, planned, valid, posts⟩
  · exact .refused ran
  · refine .posts ⟨_, _, _, _, _⟩ ready posts (.transfer valid) rfl admitted (.transfer route read settled) ?_
    intro value returned
    obtain ⟨plan', planned', ticked, named⟩ := transfer_reply returned
    cases planned.symm.trans planned'
    rw [acceptance, ticked, named]
    rfl

theorem Honours.burn {body : BurnRequest} (route : request.route = .burn)
    (read : D.decode.burn request.body = .ok body) :
    D.Honours request (fun outcome => D.Known request (Landed acceptance outcome)) (D.Unspent request)
      (Async.burn D.crypto body) := by
  refine Process.Meets.bind Honours.parameters fun parameters => .given fun settled => ?_
  refine Honours.landing fun clock before ready => ?_
  rcases burn_cases D.crypto before.node parameters body (clock 0) with
    ⟨e, _, ran⟩ | ⟨plan, key, wallet, reply, planned, valid, posts⟩
  · exact .refused ran
  · refine .posts ⟨_, _, _, _, _⟩ ready posts (.burn valid) rfl admitted (.burn route read settled) ?_
    intro value returned
    obtain ⟨plan', planned', ticked, named⟩ := burn_reply returned
    cases planned.symm.trans planned'
    rw [acceptance, ticked, named]
    rfl

end Calls

/-- A handler that may have entered several transactions. -/
abbrev Spent (D : Deployment F) (request : HttpRequest) : Assertion (Service F) := D.Known request fun _ => True

omit [F64 F] in
theorem parameters_of_iterates {C : Crypto} [F64 F] {parameters : SystemParameters F} {state : CoinState F}
    {ran : Outcome (IterationCommit F) × CoinState F} (iterates : Iterates C parameters state ran) :
    ran.2.parameters = state.parameters := by
  cases iterates with
  | panicked => rfl
  | committed => rfl
  | stranded => rfl

theorem Honours.executeIterationNow {operator : Operator} {signature : String} (admitted : D.admitted request)
    (route : request.route = .simulationStart) (signed : D.SignedBy request operator signature) :
    D.Honours request (fun _ => D.Spent request) (D.Spent request) (Async.executeIterationNow D.crypto) := by
  refine Process.Meets.bind Honours.parameters fun parameters => .given fun settled => ?_
  refine Honours.locked fun clock before ready => ?_
  have requested : D.Requested request (.commit parameters) := .commit route settled signed
  have steps : Steps D.crypto (fun _ booking _ => ∃ request, D.admitted request ∧ D.Requested request booking)
      before.node (AggoraCoin.executeIterationNow D.crypto parameters (clock 0) (clock 1) before.node).2 := by
    refine (executeIterationNow_steps (clock 0) (clock 1)).mono fun _ booking _ admits => ?_
    have asked : booking = .commit parameters := admits.booked
    exact ⟨request, admitted, asked ▸ requested⟩
  have registry := (Call.executeIterationNow parameters (clock 0) (clock 1)).registry_eq (C := D.crypto) before.node
  rcases executeIterationNow_cases D.crypto before.node parameters (clock 0) (clock 1) with
    ⟨_, ran⟩ | ⟨unlocked, iterates⟩
  · rw [ran]
    exact ⟨.refl _, [], (List.append_nil _).symm, fun _ member => (by cases member), fun _ _ => trivial⟩
  · refine ⟨⟨steps, registry, fun settled => parameters_of_iterates iterates ▸ settled⟩, ?_⟩
    clear steps registry
    generalize AggoraCoin.executeIterationNow D.crypto parameters (clock 0) (clock 1) before.node = ran at iterates
    cases iterates with
    | panicked =>
      refine ⟨[], ?_, fun _ member => (by cases member), fun _ _ => trivial⟩
      rw [List.append_nil]
      exact CoinState.ticked_of_same (Quiet.locked before.node).past.1
    | @committed beta result entry closing finished valid formed anchored closes =>
      rw [← CoinState.listWallets_locked before.node] at valid
      have past := (Quiet.locked before.node).past
      have closed : ∀ write ∈ (.iteration result.commit :: .state (CoinState.anchoredSystem (commitSystem
          before.node.locked.system result) entry) :: closing), write.aside = true := by
        simpa [Write.aside] using closes.aside
      have grown : (before.node.locked.posted result.wallets (commitSystem before.node.locked.system result)
          (.iterationCommit result.commit) entry).history =
            before.node.history ++ [.iterationCommit result.commit] := by
        rw [CoinState.history_posted, past.1]
      have longer := CoinState.ticked_of_one ((CoinState.past_writeAside _ closed).1.trans grown)
      rw [ready.logged.matched, ready.logged.ticked] at longer
      refine ⟨_, longer, fun placed member => ?_, fun _ _ => trivial⟩
      rw [List.mem_singleton.mp member]
      exact ⟨.commit parameters, _, requested, .commit valid, rfl⟩
    | stranded _ _ malformed => exact absurd ready.formed malformed

/-- Whatever the outcome of each iteration, the loop enters no more than was asked for. -/
theorem Honours.simulationLoop {operator : Operator} {signature : String} (admitted : D.admitted request)
    (route : request.route = .simulationStart) (signed : D.SignedBy request operator signature) (iterations : Nat) :
    D.Honours request (fun _ => D.Spent request) (D.Spent request)
      (Async.simulationLoop D.crypto iterations) := by
  have stops (outcome : Outcome SimulationStatus) :
      D.Honours request (fun _ => D.Spent request) (D.Spent request) (pure outcome) :=
    .pure (fun _ _ known => known.along) fun _ _ known => known
  induction iterations with
  | zero => exact Process.Meets.bind Honours.setStatus fun status => stops _
  | succ more ih =>
    refine Process.Meets.bind (Honours.executeIterationNow admitted route signed) fun outcome => ?_
    cases outcome with
    | ok commit => exact Process.Meets.bind Honours.setStatus fun _ => ih
    | err e => exact stops _
    | panic => exact stops _

/-- The envelope at the end of a simulation, whatever it has entered. -/
theorem Honours.simulated {outcome : Outcome SimulationStatus} (route : request.route = .simulationStart) :
    D.Honours request (D.Answered request) (D.Spent request)
      (Rest.conclude outcome fun status => Rest.ok 202 (.simulation status)) := by
  have accounts (response : ApiResponse F) (entries : List (Tick × Transaction F)) :
      response.Accounts request entries := by
    constructor
    · intro _ posts
      rw [route] at posts
      cases posts
    · intro _ other
      exact absurd route other
  cases outcome with
  | ok status => exact .envelope fun entries _ _ _ => accounts _ entries
  | err e => exact .envelope fun entries _ _ _ => accounts _ entries
  | panic =>
    refine .pure (fun _ _ known => known.along) fun own service known => ?_
    exact ⟨known, fun _ sent => (nomatch sent), fun _ => route⟩

theorem Honours.checkWalletRateLimit {ip : IpAddr} :
    D.Honours request (fun _ => D.Unspent request) (D.Unspent request) (Async.checkWalletRateLimit ip) := by
  refine Process.Meets.bind (Honours.reading _) fun parameters => Process.Meets.bind Honours.now fun now => ?_
  exact Honours.quiet fun _ _ => .of_node rfl

theorem Honours.checkTransferRateLimit {walletId : WalletId} :
    D.Honours request (fun _ => D.Unspent request) (D.Unspent request) (Async.checkTransferRateLimit walletId) := by
  refine Process.Meets.bind (Honours.reading _) fun parameters => Process.Meets.bind Honours.now fun now => ?_
  exact Honours.quiet fun _ _ => .of_node rfl

/-- The new parameters are stored, then they are those the node runs under. -/
theorem Honours.updateParameters {parameters : SystemParameters F} (settled : parameters ∈ D.settings) :
    D.Honours request (fun _ => D.Unspent request) (D.Unspent request) (Async.updateParameters parameters) := by
  have stored : D.Honours request (fun _ => D.Unspent request) (D.Unspent request)
      (Handler.locked fun _ node => ((), node.writeAll [.parameters parameters])) := by
    refine .quiet fun _ before => ⟨?_, ?_, id⟩
    · exact .writeAll (by simp [Write.aside]) before.node
    · rw [CoinState.trees_writeAll]
      exact operators_applyAll (by simp [Write.registers]) _
  refine stored.bind fun _ => ?_
  refine Honours.quiet fun _ before => ⟨?_, rfl, fun _ => settled⟩
  exact ⟨⟨[], by simp, by simp [Storage.writeAll]⟩, ⟨_, rfl⟩, rfl, rfl, rfl⟩

theorem Honours.createManualSnapshot :
    D.Honours request (fun _ => D.Unspent request) (D.Unspent request) (Async.createManualSnapshot (F := F)) := by
  refine Process.Meets.bind (Honours.reading _) fun system => ?_
  refine Process.Meets.bind (Honours.reading _) fun parameters => ?_
  refine Process.Meets.bind (Honours.reading _) fun wallets => Process.Meets.bind Honours.now fun now => ?_
  exact .pure (fun _ _ known => known.along) fun _ _ known => known

/-- The answer of a call that enters one transaction. -/
theorem Honours.accepted (posts : request.route.posts = true) (outcome : Outcome TxAcceptedResponse) :
    D.Honours request (D.Answered request) (D.Known request (Landed acceptance outcome))
      (Rest.conclude outcome fun response => Rest.ok 202 (.txAccepted response)) :=
  .conclude (fun _ => .receipt posts fun _ data => Or.inr data) outcome

/-- A read, and what it found. -/
theorem Honours.reads {α : Type} {read : CoinState F → α} {status : α → Nat} {data : α → ApiData F}
    (reads : request.route.posts = false) :
    D.Honours request (D.Answered request) (D.Unspent request)
      (Handler.reading read >>= fun found => Rest.ok (status found) (data found)) :=
  Process.Meets.bind (Honours.reading read) fun _ => Honours.ok reads

section Handlers

variable (checked : D.Checked) (admitted : D.admitted request)

include checked admitted

theorem createWallet_honours (route : request.route = .createWallet) :
    D.Honours request (D.Answered request) (D.Unspent request) (Rest.createWallet D.crypto D.decode request) := by
  refine Honours.parsed fun body read => ?_
  refine Process.Meets.bind Honours.checkWalletRateLimit fun verdict => ?_
  cases verdict with
  | error e => exact Honours.error
  | ok _ =>
    refine Honours.operatorAuth checked (congrArg Route.guarded route) fun operator signature signed => ?_
    refine Process.Meets.bind (Honours.createWallet admitted route read signed) fun outcome => ?_
    refine Honours.conclude (fun response => Honours.receipt (congrArg Route.posts route) ?_) outcome
    exact fun answer data => Or.inl ⟨response, data, rfl, rfl⟩

theorem charge_honours (route : request.route = .charge) :
    D.Honours request (D.Answered request) (D.Unspent request) (Rest.charge D.crypto D.decode request) := by
  refine Honours.parsed fun body read => ?_
  refine Honours.operatorAuth checked (congrArg Route.guarded route) fun operator signature signed => ?_
  refine Process.Meets.bind (Honours.charge admitted route read signed) fun outcome => ?_
  exact Honours.accepted (congrArg Route.posts route) outcome

omit checked in
theorem transfer_honours (route : request.route = .transfer) :
    D.Honours request (D.Answered request) (D.Unspent request) (Rest.transfer D.crypto D.decode request) := by
  refine Honours.parsed fun body read => ?_
  refine Process.Meets.bind Honours.checkTransferRateLimit fun verdict => ?_
  cases verdict with
  | error e => exact Honours.error
  | ok _ =>
    refine Process.Meets.bind (Honours.transfer admitted route read) fun outcome => ?_
    exact Honours.accepted (congrArg Route.posts route) outcome

omit checked in
theorem burn_honours (route : request.route = .burn) :
    D.Honours request (D.Answered request) (D.Unspent request) (Rest.burn D.crypto D.decode request) := by
  refine Honours.parsed fun body read => ?_
  refine Process.Meets.bind (Honours.burn admitted route read) fun outcome => ?_
  exact Honours.accepted (congrArg Route.posts route) outcome

theorem simulationStart_honours (route : request.route = .simulationStart) :
    D.Honours request (D.Answered request) (D.Unspent request) (Rest.simulationStart D.crypto D.decode request) := by
  refine Honours.parsed fun iterations _ => ?_
  refine Honours.operatorAuth checked (congrArg Route.guarded route) fun operator signature signed => ?_
  have begun : D.Honours request (fun _ => D.Spent request) (D.Unspent request)
      (Handler.setStatus (setSimulationRunning true "manual")) :=
    Honours.setStatus.relax fun _ _ _ known => ⟨known.ready, known.along, trivial, known.placed⟩
  refine Process.Meets.bind (begun.bind fun _ => Honours.simulationLoop admitted route signed _) fun outcome => ?_
  exact Honours.simulated route

theorem updateParameters_honours (route : request.route = .updateParameters) :
    D.Honours request (D.Answered request) (D.Unspent request) (Rest.updateParameters D.crypto D.decode request) := by
  refine Honours.parsed fun parameters read => ?_
  refine Honours.operatorAuth checked (congrArg Route.guarded route) fun operator signature signed => ?_
  have settled := checked.swaps request admitted route operator signature signed parameters read
  refine Process.Meets.bind (Honours.updateParameters settled) fun _ => ?_
  exact Process.Meets.bind (Honours.reading _) fun _ => Honours.ok (congrArg Route.posts route)

/-- Whatever the request, its handler keeps the contract. -/
theorem router_honours :
    D.Honours request (D.Answered request) (D.Unspent request) (Rest.router D.crypto D.decode request) := by
  unfold Rest.router
  cases route : request.route with
  | createWallet => exact createWallet_honours checked admitted route
  | charge => exact charge_honours checked admitted route
  | transfer => exact transfer_honours admitted route
  | burn => exact burn_honours admitted route
  | simulationStart => exact simulationStart_honours checked admitted route
  | updateParameters => exact updateParameters_honours checked admitted route
  | healthz => exact Honours.ok (congrArg Route.posts route)
  | genesisOperator => exact Honours.reads (congrArg Route.posts route)
  | getWallet id =>
    refine Process.Meets.bind (Honours.reading _) fun found => ?_
    cases found with
    | some wallet => exact Honours.ok (congrArg Route.posts route)
    | none => exact Honours.error
  | walletTransactions id => exact Honours.reads (congrArg Route.posts route)
  | getTransaction id =>
    refine Process.Meets.bind (Honours.reading _) fun found => ?_
    cases found with
    | some tx => exact Honours.ok (congrArg Route.posts route)
    | none => exact Honours.error
  | currentIteration =>
    refine Process.Meets.bind (Honours.reading _) fun system => ?_
    split
    · exact Honours.ok (congrArg Route.posts route)
    refine Process.Meets.bind (Honours.reading _) fun found => ?_
    cases found with
    | some commit => exact Honours.ok (congrArg Route.posts route)
    | none => exact Honours.ok (congrArg Route.posts route)
  | getIteration id =>
    refine Process.Meets.bind (Honours.reading _) fun found => ?_
    cases found with
    | some commit => exact Honours.ok (congrArg Route.posts route)
    | none => exact Honours.error
  | stats => exact Honours.reads (congrArg Route.posts route)
  | giniHistory => exact Honours.reads (congrArg Route.posts route)
  | supplyHistory => exact Honours.reads (congrArg Route.posts route)
  | adminParameters =>
    refine Honours.operatorAuth checked (congrArg Route.guarded route) fun _ _ _ => ?_
    exact Honours.reads (congrArg Route.posts route)
  | simulationStop =>
    refine Honours.operatorAuth checked (congrArg Route.guarded route) fun _ _ _ => ?_
    refine Process.Meets.bind Honours.setStatus fun _ => ?_
    exact Honours.ok (congrArg Route.posts route)
  | simulationStatus =>
    refine Process.Meets.bind (Honours.quiet fun _ _ => .of_node rfl) fun status => ?_
    exact Honours.ok (congrArg Route.posts route)
  | adminSnapshot =>
    refine Honours.operatorAuth checked (congrArg Route.guarded route) fun _ _ _ => ?_
    exact Process.Meets.bind Honours.createManualSnapshot fun _ => Honours.ok (congrArg Route.posts route)
  | adminOperator =>
    exact Honours.operatorAuth checked (congrArg Route.guarded route) fun _ _ _ => Honours.error

end Handlers

/-- The terms on which the gateway starts handlers. -/
theorem terms (checked : D.Checked) :
    Pool.Terms (fun request => Rest.router D.crypto D.decode request) D.admitted D.Advances
      (fun request => D.Along request) (fun request => D.Answered request) D.Ready where
  stays _ _ advances ready := advances.ready ready
  meets request admitted := by
    refine (router_honours checked admitted).weaken ?_
    rintro own service ⟨rfl, ready⟩
    exact ⟨ready, fun _ member => (by cases member), rfl, fun _ member => by cases member⟩

end Deployment

end AggoraCoin
