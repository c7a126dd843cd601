import AggoraCoin.Handlers
import AggoraCoin.OwnedSpending

namespace AggoraCoin

variable {F : Type}

/-- The object that a route asks for by its key is in the database. -/
def Trees.Holds (trees : Trees F) : Route → Prop
  | .getWallet id => (trees.wallets.get id).isSome
  | .getTransaction id => (trees.transactions.get id).isSome
  | .getIteration id => (trees.iterations.get id).isSome
  | _ => False

/-- Success, with the object that the route asks for. -/
def ApiResponse.Finds (response : ApiResponse F) (route : Route) : Prop :=
  response.success = true ∧
    match route with
    | .getWallet id => ∃ wallet, response.data = some (.wallet wallet) ∧ wallet.id = id
    | .getTransaction id => ∃ tx, response.data = some (.transaction tx) ∧ tx.txId = id
    | .getIteration id => ∃ commit, response.data = some (.iteration commit) ∧ commit.iterationId = id
    | _ => False

theorem isSome_get_put {K V : Type} [LinearOrder K] {key : V → K} {tree : KeyedTree key} {k : K} (v : V)
    (found : (tree.get k).isSome) : ((tree.put v).get k).isSome := by
  have one : tree.put v = tree.putAll [v] := rfl
  rw [one]
  exact KeyedTree.isSome_get_putAll.mpr (Or.inl found)

/-- No write takes an object away. -/
theorem Trees.Holds.apply {trees : Trees F} {route : Route} (holds : trees.Holds route) (write : Write F) :
    (trees.apply write).Holds route := by
  cases route with
  | getWallet id =>
    cases write with
    | wallet wallet => exact isSome_get_put wallet holds
    | _ => exact holds
  | getTransaction id =>
    cases write with
    | transaction tx => exact isSome_get_put tx holds
    | _ => exact holds
  | getIteration id =>
    cases write with
    | iteration commit => exact isSome_get_put commit holds
    | _ => exact holds
  | _ => exact holds

theorem Trees.Holds.applyAll {trees : Trees F} {route : Route} (holds : trees.Holds route) (writes : List (Write F)) :
    (trees.applyAll writes).Holds route := by
  induction writes generalizing trees with
  | nil => exact holds
  | cons write rest ih => exact ih (holds.apply write)

variable [F64 F]

theorem Steps.holds {C : Crypto} {admits : CoinState F → Booking F → Sheet F → Prop} {before after : CoinState F}
    (steps : Steps C admits before after) {route : Route} (holds : before.trees.Holds route) :
    after.trees.Holds route := by
  refine steps.invariant (fun node => node.trees.Holds route) holds fun one two step held => ?_
  cases step with
  | @enter booking sheet entry =>
    rw [CoinState.trees, CoinState.storage_enter, Storage.trees_writeAll]
    exact held.applyAll _
  | strand =>
    rw [CoinState.trees, CoinState.storage_stranded, Storage.trees_writeAll]
    exact held.applyAll _
  | quiet quiet =>
    obtain ⟨writes, _, same⟩ := quiet.writes
    rw [CoinState.trees, same, Storage.trees_writeAll]
    exact held.applyAll _

namespace Deployment

variable {D : Deployment F} {request : HttpRequest}

/-- A read of what is known to be there. -/
theorem Honours.finds {α : Type} {read : CoinState F → α} {route : Route} (fact : α → Prop)
    (found : ∀ node : CoinState F, node.trees.Holds route → fact (read node)) :
    D.Honours request (fun result own service => fact result ∧ D.Unspent request own service)
      (fun own service => service.node.trees.Holds route ∧ D.Unspent request own service) (Handler.reading read) :=
  .learns (fun result _ => fact result) (fun _ _ known => known.2)
    fun _ _ before known => ⟨.of_node rfl, found before.node known.1⟩

/-- The answer to a read, with what it holds. -/
theorem Honours.shows {status : Nat} {data : ApiData F} {route : Route} (reads : request.route.posts = false)
    (finds : ∀ response : ApiResponse F, response.success = true → response.data = some data → response.Finds route) :
    D.Honours request
      (fun reply own service => D.Answered request reply own service ∧
        ∃ response, reply = some response ∧ response.Finds route)
      (D.Unspent request) (Rest.ok status data) := by
  have step : D.Honours request
      (fun reply own service => (∃ system : SystemState F, reply = some {
          status, success := true, data := some data, error := none, tick := system.currentTick,
          iteration := system.currentIteration }) ∧ D.Answered request reply own service)
      (D.Unspent request) (Rest.ok status data) :=
    .responds fun _ _ none _ => none ▸ .of_nil _ reads
  refine step.relax fun reply own service known => ⟨known.2, ?_⟩
  obtain ⟨⟨system, rfl⟩, _⟩ := known
  exact ⟨_, rfl, finds _ rfl rfl⟩

/-- A handler that looks for what is there answers with it. -/
theorem router_finds {route : Route} (asked : request.route = route) :
    D.Honours request
      (fun reply own service => D.Answered request reply own service ∧
        ∃ response, reply = some response ∧ response.Finds route)
      (fun own service => service.node.trees.Holds route ∧ D.Unspent request own service)
      (Rest.router D.crypto D.decode request) := by
  unfold Rest.router
  subst asked
  cases route : request.route with
  | getWallet id =>
    refine Process.Meets.bind (Honours.finds (fun found => ∃ wallet : Wallet F, found = some wallet ∧ wallet.id = id)
      fun node held => ?_) fun found => .given ?_
    · obtain ⟨wallet, here⟩ := Option.isSome_iff_exists.mp held
      exact ⟨wallet, here, KeyedTree.key_of_get here⟩
    · rintro ⟨wallet, rfl, named⟩
      exact Honours.shows (congrArg Route.posts route) fun _ success data => ⟨success, wallet, data, named⟩
  | getTransaction id =>
    refine Process.Meets.bind (Honours.finds (fun found => ∃ tx : Transaction F, found = some tx ∧ tx.txId = id)
      fun node held => ?_) fun found => .given ?_
    · obtain ⟨tx, here⟩ := Option.isSome_iff_exists.mp held
      have key : tx.txId = id := KeyedTree.key_of_get here
      exact ⟨tx.reread, congrArg (Option.map Transaction.reread) here, tx.txId_reread.trans key⟩
    · rintro ⟨tx, rfl, named⟩
      exact Honours.shows (congrArg Route.posts route) fun _ success data => ⟨success, tx, data, named⟩
  | getIteration id =>
    refine Process.Meets.bind (Honours.finds
      (fun found => ∃ commit : IterationCommit F, found = some commit ∧ commit.iterationId = id)
      fun node held => ?_) fun found => .given ?_
    · obtain ⟨commit, here⟩ := Option.isSome_iff_exists.mp held
      have key : commit.iterationId = id := KeyedTree.key_of_get here
      exact ⟨commit.reread, congrArg (Option.map IterationCommit.reread) here, key⟩
    · rintro ⟨commit, rfl, named⟩
      exact Honours.shows (congrArg Route.posts route) fun _ success data => ⟨success, commit, data, named⟩
  | _ => exact .vacuous fun _ _ known => known.1

/-- A node was opened on an empty database, has served any calls, and runs under allowed parameters now. -/
structure Started (D : Deployment F) (env : String → Option String) (config : NodeConfig F) (first : CoinState F) :
    Prop where
  opened : (openCoinState D.crypto env config .empty).1 = .ok first
  formed : Crypto.WellFormedSecret first.operatorSecret
  served : Reach (fun state call => Call.next D.crypto call state) (fun _ _ => True) first D.start
  settled : D.start.parameters ∈ D.settings

variable (D) in
/-- The handlers at work, and the state they share. -/
abbrev Handlers (_ : Deployment F) : Type := Pool HttpRequest (Nat → Timestamp) (Service F) (Reply F)

/-- Requests arrive and handlers take steps, in any order. -/
def Serving (D : Deployment F) : Handlers D → Handlers D → Prop :=
  Reach (Pool.next fun request => Rest.router D.crypto D.decode request) (Pool.Spawns D.admitted)

/-- The gateway as it comes up. -/
def up (D : Deployment F) : Handlers D := Pool.idle (Service.idle D.start)

section Runs

variable {env : String → Option String} {config : NodeConfig F} {first : CoinState F} {before after : Handlers D}

theorem Started.steps (started : D.Started env config first) : Steps D.crypto (fun _ _ _ => True) first D.start :=
  steps_of_reach _ started.served fun _ _ _ _ _ _ _ => trivial

theorem Started.ready (started : D.Started env config first) : D.Ready (Service.idle D.start) where
  formed := started.steps.operatorSecret_eq ▸ started.formed
  logged := logged_of_steps started.formed (OpenedEmpty.logged started.opened) started.steps
  registry := rfl
  settled := started.settled

theorem Started.sound (started : D.Started env config first) (checked : D.Checked) (serving : D.Serving D.up before) :
    before.Sound D.Advances (fun request => D.Along request) (fun request => D.Answered request) D.Ready :=
  Pool.Sound.run (.idle started.ready) (terms checked) serving

theorem Started.advances (started : D.Started env config first) (checked : D.Checked)
    (serving : D.Serving D.up before) (later : D.Serving before after) : D.Advances before.state after.state :=
  (started.sound checked serving).onward (terms checked) .refl (fun _ _ _ => .trans) later

theorem Started.indexed (started : D.Started env config first) (checked : D.Checked) (serving : D.Serving D.up after) :
    after.state.node.Indexed D.crypto := by
  have onward := (started.advances checked .start serving).steps.mono fun _ _ _ _ => trivial
  exact indexed_of_steps started.formed (OpenedEmpty.indexed started.opened) (started.steps.trans onward)

end Runs

end Deployment

/-- An honest burn that is served alone succeeds. -/
theorem Deployment.burn_served {D : Deployment F} {request : HttpRequest} {body : BurnRequest} {plan : BurnPlan F}
    (route : request.route = .burn) (admitted : D.admitted request) (read : D.decode.burn request.body = .ok body)
    (formed : Crypto.WellFormedSecret D.start.operatorSecret)
    (planned : planBurn D.crypto D.start.parameters.security body D.start = .ok plan) :
    ∃ (after : D.Handlers) (response : ApiResponse F) (own : List (Service F × Service F)),
      D.Serving D.up after ∧ after.threads = [⟨request, .done (some response), own⟩] ∧ response.success = true := by
  obtain ⟨reply, left, ran⟩ : ∃ reply left, burn D.crypto D.start.parameters body 0 D.start = (.ok reply, left) := by
    rcases burn_cases D.crypto D.start D.start.parameters body 0 with
      ⟨e, refused, _⟩ | ⟨plan', key, wallet, reply, again, valid, posts⟩
    · cases planned.symm.trans refused
    · generalize burn D.crypto D.start.parameters body 0 D.start = ran at posts
      cases posts with
      | accepted => exact ⟨_, _, rfl⟩
      | stranded malformed => exact absurd formed malformed
  have handler : Rest.router D.crypto D.decode request = (Async.burn D.crypto body >>= fun outcome =>
      Rest.conclude outcome fun response => Rest.ok 202 (.txAccepted response)) := by
    simp only [Rest.router, route, Rest.burn, read, Rest.parsed]
  -- the steps of the handler: the parameters, the call, the envelope
  let conclusion : Outcome TxAcceptedResponse → Handler F (Reply F) := fun outcome =>
    Rest.conclude outcome fun response => Rest.ok 202 (.txAccepted response)
  let idle := Service.idle D.start
  let call : Handler F (Outcome TxAcceptedResponse) :=
    Handler.locked fun clock => burn D.crypto D.start.parameters body (clock 0)
  let program := fun request => Rest.router D.crypto D.decode request
  have spawned : D.Serving D.up ⟨idle, [⟨request, program request, []⟩]⟩ :=
    Reach.next (i := Turn.spawn request) Reach.start admitted
  have one : Pool.next program ⟨idle, [⟨request, program request, []⟩]⟩ (.run 0 fun _ => 0) =
      ⟨idle, [⟨request, call >>= conclusion, [(idle, idle)]⟩]⟩ := by
    have opened : program request = (Async.burn D.crypto body >>= conclusion) := handler
    rw [opened]
    rfl
  have two : Pool.next program ⟨idle, [⟨request, call >>= conclusion, [(idle, idle)]⟩]⟩ (.run 0 fun _ => 0) =
      ⟨{ idle with node := (burn D.crypto D.start.parameters body 0 D.start).2 }, [⟨request,
        conclusion (burn D.crypto D.start.parameters body 0 D.start).1,
        [(idle, idle), (idle, { idle with node := (burn D.crypto D.start.parameters body 0 D.start).2 })]⟩]⟩ := rfl
  have prepared : D.Serving D.up _ := Reach.next (i := Turn.run 0 fun _ => 0) spawned trivial
  rw [one] at prepared
  have called : D.Serving D.up _ := Reach.next (i := Turn.run 0 fun _ => 0) prepared trivial
  rw [two, ran] at called
  exact ⟨_, _, _, Reach.next (i := Turn.run 0 fun _ => 0) called trivial, rfl, rfl⟩

omit [F64 F] in
/-- A swap of the parameters leaves the wallets alone. -/
theorem wallets_updateParameters (parameters : SystemParameters F) (state : CoinState F) :
    (updateParameters parameters state).trees.wallets = state.trees.wallets := by
  have aside : ∀ write ∈ [Write.parameters parameters], write.aside = true := by simp [Write.aside]
  exact (Quiet.writeAll aside state).ledger.wallets_eq

omit [F64 F] in
theorem system_updateParameters (parameters : SystemParameters F) (state : CoinState F) :
    (updateParameters parameters state).system = state.system := rfl

namespace Concrete

/-- The node with one wallet, whose owner may burn. -/
def burnDeployment : Deployment ℚ where
  crypto := crypto
  decode :=
    { walletCreate := fun _ => .error ""
      charge := fun _ => .error ""
      transfer := fun _ => .error ""
      burn := fun _ => .ok (ownBurn 1)
      parameters := fun _ => .error ""
      simulationStart := fun _ => .error "" }
  start := updateParameters parameters (firstNode (key 7))
  settings := {parameters}
  admitted := fun request => request.route.guarded = none

def httpRequest (route : Route) : HttpRequest := ⟨route, .v4 0, fun _ => [], []⟩

theorem burnDeployment_started : burnDeployment.Started (fun _ => none) config node := by
  have first : Reach (fun state call => Call.next crypto call state) (fun _ _ => True) node (firstNode (key 7)) :=
    .next .start trivial
  have second : Reach (fun state call => Call.next crypto call state) (fun _ _ => True) node
      (Call.next crypto (.updateParameters parameters) (firstNode (key 7))) := .next first trivial
  exact ⟨opened_node, node_formed, second, rfl⟩

theorem burnDeployment_unsigned {request : HttpRequest} (admitted : burnDeployment.admitted request)
    (operator : Operator) (signature : String) : ¬ burnDeployment.SignedBy request operator signature := by
  rintro ⟨method, path, adminOnly, _, _, guarded, _⟩
  have unguarded : request.route.guarded = none := admitted
  rw [unguarded] at guarded
  cases guarded

theorem burnDeployment_checked : burnDeployment.Checked where
  bypass parameters settled := by
    rw [Set.mem_singleton_iff.mp settled]
    rfl
  swaps request admitted _ operator signature signed := absurd signed (burnDeployment_unsigned admitted _ _)

theorem burnDeployment_stored :
    burnDeployment.start.getWallet (walletId 7) = some (firstWallet crypto parameters operator (key 7)) :=
  (congrArg (fun tree => tree.get (walletId 7)) (wallets_updateParameters parameters (firstNode (key 7)))).trans
    firstNode_stored

theorem burnDeployment_unlocked : burnDeployment.start.system.iterationLock = false :=
  (congrArg SystemState.iterationLock (system_updateParameters parameters (firstNode (key 7)))).trans
    (firstNode_system (key 7)).1

theorem burnDeployment_planned :
    ∃ plan, planBurn crypto parameters.security (ownBurn 1) burnDeployment.start = .ok plan := by
  have covered : ¬ (firstWallet crypto parameters operator (key 7)).balance < (ownBurn 1).amount := by
    have balance : (firstWallet crypto parameters operator (key 7)).balance = microSeed parameters := rfl
    rw [balance, microSeed_parameters]
    decide
  exact planBurn_of_checks (by decide) (ownBurn_read 1) rfl burnCall_signed burnDeployment_unlocked
    burnDeployment_stored rfl covered

/-- The owner's burn, served alone. -/
theorem burnDeployment_served : ∃ (after : burnDeployment.Handlers) (response : ApiResponse ℚ)
    (own : List (Service ℚ × Service ℚ)), burnDeployment.Serving burnDeployment.up after ∧
      after.threads = [⟨httpRequest .burn, .done (some response), own⟩] ∧ response.success = true := by
  obtain ⟨plan, planned⟩ := burnDeployment_planned
  exact burnDeployment.burn_served rfl rfl rfl burnDeployment_started.ready.formed planned

end Concrete

open Concrete

variable {D : Deployment F} {env : String → Option String} {config : NodeConfig F} {first : CoinState F}
  {before after : D.Handlers}

/-- Whatever requests arrive and however their handlers interleave, the archive grows by what the handlers
entered, each transaction for one request that asked for it; and each answer says what its handler entered. -/
theorem answers_account_for_archive (started : D.Started env config first) (checked : D.Checked)
    (serving : D.Serving D.up after) :
    (∃ entries, after.state.node.ticked = D.start.ticked ++ entries ∧
      entries.Perm (after.threads.flatMap fun thread => entered thread.own)) ∧
    ∀ thread ∈ after.threads,
      (∀ step ∈ thread.own, ∀ placed ∈ entered [step], D.Justified thread.label step.1.node placed) ∧
      ∀ reply, thread.process = .done reply →
        (∀ response, reply = some response → response.Accounts thread.label (entered thread.own)) ∧
        (reply = none → thread.label.route = .simulationStart) := by
  refine ⟨?_, fun thread member => ?_⟩
  · have grows (before after : Service F) (advances : D.Advances before after) := advances.grows
    exact Pool.added_of_run (Deployment.terms checked) started.ready grows serving
  · have sound := started.sound checked serving
    refine ⟨sound.steps member, fun reply finished => ?_⟩
    have answered := sound.ended member finished
    exact ⟨answered.accounts, answered.aborted⟩

/-- The archive of a node that has served one burn. -/
theorem answers_account_for_archive_burn :
    ∃ (after : burnDeployment.Handlers) (response : ApiResponse ℚ) (own : List (Service ℚ × Service ℚ)),
      after.threads = [⟨httpRequest .burn, .done (some response), own⟩] ∧
      (∃ entries, after.state.node.ticked = burnDeployment.start.ticked ++ entries ∧
        entries.Perm (after.threads.flatMap fun thread => entered thread.own)) ∧
      ∀ thread ∈ after.threads, ∀ step ∈ thread.own, ∀ placed ∈ entered [step],
        burnDeployment.Justified thread.label step.1.node placed := by
  obtain ⟨after, response, own, serving, threads, _⟩ := burnDeployment_served
  have accounts := answers_account_for_archive burnDeployment_started burnDeployment_checked serving
  exact ⟨after, response, own, threads, accounts.1, fun thread member => (accounts.2 thread member).1⟩

/-- What an answer has acknowledged stays archived, anchored and indexed under the names the answer gave. -/
theorem acknowledged_kept (started : D.Started env config first) (checked : D.Checked)
    (serving : D.Serving D.up before) (later : D.Serving before after)
    {thread : Thread HttpRequest (Nat → Timestamp) (Service F) (Reply F)} (member : thread ∈ before.threads)
    {response : ApiResponse F} (answered : thread.process = .done (some response))
    (success : response.success = true) (posts : thread.label.route.posts = true) :
    ∃ tick tx, response.Names tick tx.txId ∧
      (∃ step ∈ thread.own, D.Justified thread.label step.1.node (tick, tx)) ∧
      (tick, tx) ∈ after.state.node.ticked ∧
      after.state.node.trees.Holds (.getTransaction tx.txId) ∧
      (∃ entry, after.state.node.trees.pohLog.get tick = some entry ∧ entry.txIds = [tx.txId]) ∧
      ∀ walletId ∈ tx.walletIds, (after.state.node.trees.txByWallet.get (indexKey walletId tick tx.txId)).isSome := by
  have sound := started.sound checked serving
  have reply := sound.ended member answered
  obtain ⟨tick, tx, entries, names, _⟩ := (reply.accounts response rfl).posted success posts
  have listed : (tick, tx) ∈ entered thread.own := by
    rw [entries]
    exact List.mem_singleton_self _
  have kept : (tick, tx) ∈ after.state.node.ticked :=
    (started.advances checked serving later).grows.subset (reply.known.placed _ listed)
  have ready := (sound.run (Deployment.terms checked) later).ready
  obtain ⟨i, rfl, here⟩ := CoinState.mem_ticked_iff.mp kept
  obtain ⟨step, taken, inStep⟩ := mem_entered_iff.mp listed
  refine ⟨i + 1, tx, names, ⟨step, taken, sound.steps member step taken _ inStep⟩, kept, ?_, ?_, ?_⟩
  · have archived : ((KeyedTree.empty.putAll after.state.node.history).get tx.txId).isSome :=
      KeyedTree.isSome_get_putAll.mpr (Or.inr (List.mem_map_of_mem (List.mem_of_getElem? here)))
    rw [← CoinState.transactions_eq] at archived
    exact archived
  · have inside : i < after.state.node.log.length := by
      rw [← ready.logged.matched]
      exact (List.getElem?_eq_some_iff.mp here).1
    have atEntry := List.getElem?_eq_getElem inside
    obtain ⟨tx', bytes, there, named, anchored⟩ := ready.logged.anchored i _ atEntry
    cases Option.some.inj (here.symm.trans there)
    exact ⟨_, ready.logged.get_eq atEntry, named ▸ anchored.txIds_eq⟩
  · intro walletId touched
    have indexed := started.indexed checked (serving.trans later)
    exact (indexed.isSome_get_iff walletId (i + 1) tx.txId).mpr ⟨i, tx, rfl, here, rfl, touched⟩

/-- The burn stays on record while other requests come and are served. -/
theorem acknowledged_kept_burn :
    ∃ (before after : burnDeployment.Handlers) (response : ApiResponse ℚ) (tick : Tick) (tx : Transaction ℚ),
      before.threads.length = 1 ∧ after.threads.length = 3 ∧ response.success = true ∧ response.Names tick tx.txId ∧
        (tick, tx) ∈ after.state.node.ticked ∧ after.state.node.trees.Holds (.getTransaction tx.txId) := by
  obtain ⟨before, response, own, serving, threads, success⟩ := burnDeployment_served
  have member : (⟨httpRequest .burn, .done (some response), own⟩ :
      Thread HttpRequest (Nat → Timestamp) (Service ℚ) (Reply ℚ)) ∈ before.threads := by
    rw [threads]
    exact List.mem_singleton_self _
  have unguarded : burnDeployment.admitted (httpRequest .burn) := rfl
  have asked : burnDeployment.admitted (httpRequest (.getWallet (walletId 7))) := rfl
  have spawned : burnDeployment.Serving before _ := Reach.next (i := Turn.spawn (httpRequest (.getWallet (walletId 7))))
    (.next (i := Turn.spawn (httpRequest .burn)) .start unguarded) asked
  have later : burnDeployment.Serving before _ := Reach.next (i := Turn.run 1 fun _ => 0)
    (.next (i := Turn.run 2 fun _ => 0) (.next (i := Turn.run 1 fun _ => 0) spawned trivial) trivial) trivial
  obtain ⟨tick, tx, names, _, placed, holds, _⟩ := acknowledged_kept burnDeployment_started
    burnDeployment_checked serving later member rfl success rfl
  have one : before.threads.length = 1 := by
    rw [threads]
    rfl
  refine ⟨before, _, response, tick, tx, one, ?_, success, names, placed, holds⟩
  rw [Pool.length_threads_run, Pool.length_threads_run, Pool.length_threads_run, Pool.length_threads_spawn,
    Pool.length_threads_spawn, one]

/-- What is in the database is found by every request for it that arrives from then on. -/
theorem held_found (started : D.Started env config first) (checked : D.Checked)
    (serving : D.Serving D.up before) (later : D.Serving before after) {route : Route}
    (holds : before.state.node.trees.Holds route) :
    ∀ thread ∈ after.threads.drop before.threads.length, thread.label.route = route →
      ∀ reply, thread.process = .done reply → ∃ response, reply = some response ∧ response.Finds route := by
  have sound := started.sound checked serving
  have finders : Pool.Terms (fun request => Rest.router D.crypto D.decode request) D.admitted D.Advances
      (fun request => D.Along request)
      (fun request reply own service => D.Answered request reply own service ∧
        (request.route = route → ∃ response, reply = some response ∧ response.Finds route))
      (fun service => D.Ready service ∧ service.node.trees.Holds route) := by
    constructor
    case stays => exact fun _ _ advances ready => ⟨advances.ready ready.1, advances.steps.holds ready.2⟩
    case meets =>
      intro request admitted
      by_cases asked : request.route = route
      · refine ((Deployment.router_finds asked).relax fun _ _ _ answered => ⟨answered.1, fun _ => answered.2⟩).weaken ?_
        rintro own service ⟨rfl, ready, held⟩
        refine ⟨held, ready, ?_, rfl, ?_⟩
        · intro step member
          cases member
        · intro placed member
          cases member
      · refine (((Deployment.terms checked).meets request admitted).relax fun _ _ _ answered =>
          ⟨answered, fun same => absurd same asked⟩).weaken ?_
        rintro own service ⟨rfl, ready, _⟩
        exact ⟨rfl, ready⟩
  obtain ⟨_, late, _⟩ := sound.later (Deployment.terms checked) finders ⟨sound.ready, holds⟩ later
  intro thread member asked reply finished
  exact (late.ended member finished).2 asked

/-- The first wallet is found by whoever asks for it after the burn. -/
theorem held_found_burn :
    ∃ before : burnDeployment.Handlers, before.threads.length = 1 ∧
      ∀ after, burnDeployment.Serving before after → ∀ thread ∈ after.threads.drop 1,
        thread.label.route = .getWallet (walletId 7) → ∀ reply, thread.process = .done reply →
          ∃ response, reply = some response ∧ response.Finds (.getWallet (walletId 7)) := by
  obtain ⟨before, response, own, serving, threads, _⟩ := burnDeployment_served
  have stored : burnDeployment.start.trees.Holds (.getWallet (walletId 7)) :=
    Option.isSome_iff_exists.mpr ⟨_, burnDeployment_stored⟩
  have holds := (burnDeployment_started.advances burnDeployment_checked .start serving).steps.holds stored
  have length : before.threads.length = 1 := by rw [threads]; rfl
  refine ⟨before, length, fun after later thread member => ?_⟩
  rw [← length] at member
  exact held_found burnDeployment_started burnDeployment_checked serving later holds thread member

end AggoraCoin
