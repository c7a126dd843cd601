import AggoraCoin.Audit
import AggoraCoin.Gateway

namespace AggoraCoin

variable {F : Type}

/-- What a request must show depends on no more of the node than its registry. -/
theorem Authorized.of_registry {C : Crypto} {before after : CoinState F} {security : SecurityParameters}
    {method path : String} {body : Bytes} {headers : OperatorHeaders} {adminOnly : Bool} {now timestamp : Timestamp}
    {operator : Operator} {signature : String} (same : after.trees.operators = before.trees.operators)
    (authorized : Authorized C after security method path body headers adminOnly now operator timestamp signature) :
    Authorized C before security method path body headers adminOnly now operator timestamp signature := by
  have found (id : OperatorId) : after.getOperator id = before.getOperator id := congrArg (fun tree => tree.get id) same
  obtain ⟨timed, fresh, given, presented, named, active, admin, signed⟩ := authorized
  simp only [presentedKey, found] at presented named
  exact ⟨timed, fresh, given, presented, named, active, admin, signed⟩

/-- The transactions accepted so far, each at its tick. -/
def CoinState.ticked (state : CoinState F) : List (Tick × Transaction F) :=
  state.history.zipIdx.map fun placed => (placed.2 + 1, placed.1)

namespace CoinState

variable {before after : CoinState F}

theorem ticked_of_grown {more : List (Transaction F)} (grown : after.history = before.history ++ more) :
    after.ticked = before.ticked ++
      (more.zipIdx before.history.length).map fun placed => (placed.2 + 1, placed.1) := by
  rw [ticked, grown, List.zipIdx_append, List.map_append, Nat.zero_add]
  rfl

theorem ticked_of_same (same : after.history = before.history) : after.ticked = before.ticked := by
  rw [ticked, same]
  rfl

theorem ticked_of_one {tx : Transaction F} (grown : after.history = before.history ++ [tx]) :
    after.ticked = before.ticked ++ [(before.history.length + 1, tx)] := ticked_of_grown grown

theorem ticked_grows (grows : before.history <+: after.history) : before.ticked <+: after.ticked := by
  obtain ⟨more, grown⟩ := grows
  exact ⟨_, (ticked_of_grown grown.symm).symm⟩

theorem mem_ticked_iff {state : CoinState F} {tick : Tick} {tx : Transaction F} :
    (tick, tx) ∈ state.ticked ↔ ∃ i, tick = i + 1 ∧ state.history[i]? = some tx := by
  simp only [ticked, List.mem_map, Prod.mk.injEq, Prod.exists]
  constructor
  · rintro ⟨tx', i, listed, rfl, rfl⟩
    exact ⟨i, rfl, List.mem_zipIdx_iff_getElem?.mp listed⟩
  · rintro ⟨i, rfl, here⟩
    exact ⟨tx, i, List.mem_zipIdx_iff_getElem?.mpr here, rfl, rfl⟩

end CoinState

/-- What a program of the gateway has entered so far. -/
def entered (own : List (Service F × Service F)) : List (Tick × Transaction F) :=
  added (fun service => service.node.ticked) own

theorem entered_one {before after : Service F} {more : List (Tick × Transaction F)}
    (grown : after.node.ticked = before.node.ticked ++ more) : entered [(before, after)] = more := by
  simp [entered, added, grown]

theorem mem_entered_iff {own : List (Service F × Service F)} {placed : Tick × Transaction F} :
    placed ∈ entered own ↔ ∃ step ∈ own, placed ∈ entered [step] := by
  simp only [entered, added, List.mem_flatMap, List.flatMap_cons, List.flatMap_nil, List.append_nil]

/-- The state a booking is made in; an iteration takes its lock first. -/
def Booking.base (met : CoinState F) : Booking F → CoinState F
  | .commit _ => met.locked
  | _ => met

/-- The method and the path that an operator signs, and whether only a genesis operator will do. -/
def Route.guarded : Route → Option (String × String × Bool)
  | .createWallet => some ("POST", "/api/v1/wallet", false)
  | .charge => some ("POST", "/api/v1/charge", false)
  | .adminParameters => some ("GET", "/admin/parameters", true)
  | .updateParameters => some ("PUT", "/admin/parameters", true)
  | .simulationStart => some ("POST", "/admin/simulation/start", true)
  | .simulationStop => some ("POST", "/admin/simulation/stop", true)
  | .adminSnapshot => some ("POST", "/admin/snapshot", true)
  | .adminOperator => some ("POST", "/admin/operator", true)
  | _ => none

/-- The routes that enter one transaction. -/
def Route.posts : Route → Bool
  | .createWallet => true
  | .charge => true
  | .transfer => true
  | .burn => true
  | _ => false

/-- The answer names the transaction. -/
def ApiResponse.Names (response : ApiResponse F) (tick : Tick) (txId : Hash) : Prop :=
  (∃ wallet, response.data = some (.walletCreated wallet) ∧ wallet.createdAtTick = tick ∧ wallet.txId = txId) ∨
    response.data = some (.txAccepted ⟨txId, tick⟩)

/-- What an answer says was entered: one transaction on success at a posting route, which the answer
names, and nothing else. A simulation is apart: it commits as it goes. -/
structure ApiResponse.Accounts (request : HttpRequest) (response : ApiResponse F)
    (entries : List (Tick × Transaction F)) : Prop where
  posted : response.success = true → request.route.posts = true →
    ∃ tick tx, entries = [(tick, tx)] ∧ response.Names tick tx.txId ∧ tick ≤ response.tick
  nothing : response.success = false ∨ request.route.posts = false → request.route ≠ .simulationStart → entries = []

/-- A route that enters nothing may answer anything. -/
theorem ApiResponse.Accounts.of_nil {request : HttpRequest} (response : ApiResponse F)
    (reads : request.route.posts = false) : response.Accounts request [] := by
  refine ⟨fun _ posts => ?_, fun _ _ => rfl⟩
  rw [reads] at posts
  cases posts

/-- A node behind the gateway: as it was when the gateway came up, the parameters it may come to run
under and the requests it may receive. -/
structure Deployment (F : Type) where
  crypto : Crypto
  decode : Decoders F
  start : CoinState F
  settings : Set (SystemParameters F)
  admitted : HttpRequest → Prop

/-- What a call that enters one transaction has entered, by its outcome. -/
def Landed {α : Type} (names : α → Tick × Hash) (outcome : Outcome α) (entries : List (Tick × Transaction F)) : Prop :=
  match outcome with
  | .ok value => ∃ tx, entries = [((names value).1, tx)] ∧ tx.txId = (names value).2
  | .err _ => entries = []
  | .panic => False

namespace Deployment

variable (D : Deployment F) (request : HttpRequest)

/-- An operator on record signed the request: its method, its path, its timestamp and its body. -/
def SignedBy (operator : Operator) (signature : String) : Prop :=
  ∃ method path adminOnly now timestamp, request.route.guarded = some (method, path, adminOnly) ∧
    ∃ parameters ∈ D.settings, Authorized D.crypto D.start parameters.security method path request.body
      (operatorHeaders request.headers) adminOnly now operator timestamp signature

/-- The entries a request may lead to. -/
inductive Requested : Booking F → Prop
  | create {parameters : SystemParameters F} {body : WalletCreateRequest} {operator : Operator} {signature : String}
      (route : request.route = .createWallet) (read : D.decode.walletCreate request.body = .ok body)
      (settled : parameters ∈ D.settings) (signed : D.SignedBy request operator signature) :
      Requested (.create parameters body operator signature)
  | charge {body : ChargeRequest} {operator : Operator} {signature : String}
      (route : request.route = .charge) (read : D.decode.charge request.body = .ok body)
      (signed : D.SignedBy request operator signature) : Requested (.charge body operator signature)
  | transfer {parameters : SystemParameters F} {body : TransferRequest} (route : request.route = .transfer)
      (read : D.decode.transfer request.body = .ok body) (settled : parameters ∈ D.settings) :
      Requested (.transfer parameters.security body)
  | burn {parameters : SystemParameters F} {body : BurnRequest} (route : request.route = .burn)
      (read : D.decode.burn request.body = .ok body) (settled : parameters ∈ D.settings) :
      Requested (.burn parameters.security body)
  | commit {parameters : SystemParameters F} {operator : Operator} {signature : String}
      (route : request.route = .simulationStart) (settled : parameters ∈ D.settings)
      (signed : D.SignedBy request operator signature) : Requested (.commit parameters)

/-- The bypass is off under every parameters, and a signed swap stays among them. -/
structure Checked : Prop where
  bypass : ∀ parameters ∈ D.settings, parameters.security.devAuthBypass = false
  swaps : ∀ request, D.admitted request → request.route = .updateParameters →
    ∀ operator signature, D.SignedBy request operator signature →
      ∀ parameters, D.decode.parameters request.body = .ok parameters → parameters ∈ D.settings

variable [F64 F]

/-- In the state it met, the request led to this transaction at this tick. -/
def Justified (met : CoinState F) (placed : Tick × Transaction F) : Prop :=
  ∃ (booking : Booking F) (sheet : Sheet F), D.Requested request booking ∧
    Books D.crypto (booking.base met) booking sheet ∧ placed = (met.system.currentTick + 1, sheet.tx)

/-- What every handler may count on of a step of another. -/
structure Advances (before after : Service F) : Prop where
  steps : Steps D.crypto (fun _ booking _ => ∃ request, D.admitted request ∧ D.Requested request booking)
    before.node after.node
  registry : after.node.trees.operators = before.node.trees.operators
  settled : before.node.parameters ∈ D.settings → after.node.parameters ∈ D.settings

structure Ready (service : Service F) : Prop where
  formed : Crypto.WellFormedSecret service.node.operatorSecret
  logged : service.node.Logged D.crypto
  registry : service.node.trees.operators = D.start.trees.operators
  settled : service.node.parameters ∈ D.settings

/-- Whatever a step entered was asked for, and passed the checks in the state the step met. -/
def Along (own : List (Service F × Service F)) : Prop :=
  ∀ step ∈ own, ∀ placed ∈ entered [step], D.Justified request step.1.node placed

/-- What a handler has entered was asked for, is among `allowed`, and is in the archive. -/
structure Known (allowed : List (Tick × Transaction F) → Prop) (own : List (Service F × Service F))
    (service : Service F) : Prop where
  ready : D.Ready service
  along : D.Along request own
  allowed : allowed (entered own)
  placed : ∀ placed ∈ entered own, placed ∈ service.node.ticked

/-- A handler has finished as its contract says. Only a simulation may panic. -/
structure Answered (reply : Reply F) (own : List (Service F × Service F)) (service : Service F) : Prop where
  known : D.Known request (fun _ => True) own service
  accounts : ∀ response, reply = some response → response.Accounts request (entered own)
  aborted : reply = none → request.route = .simulationStart

/-- A handler that has entered nothing so far. -/
abbrev Unspent : Assertion (Service F) := D.Known request fun entries => entries = []

/-- A handler, or a part of one, that keeps its contract. -/
abbrev Honours {α : Type} (ends : α → Assertion (Service F)) (known : Assertion (Service F)) (program : Handler F α) :
    Prop := Process.Meets D.Advances (D.Along request) ends known program

end Deployment

namespace Deployment

variable {D : Deployment F} {request : HttpRequest} [F64 F] {allowed : List (Tick × Transaction F) → Prop}

theorem Advances.refl (service : Service F) : D.Advances service service := ⟨.refl, rfl, id⟩

theorem Advances.trans {first second third : Service F} (one : D.Advances first second)
    (two : D.Advances second third) :
    D.Advances first third :=
  ⟨one.steps.trans two.steps, two.registry.trans one.registry, two.settled ∘ one.settled⟩

theorem Advances.grows {before after : Service F} (advances : D.Advances before after) :
    before.node.ticked <+: after.node.ticked := CoinState.ticked_grows advances.steps.history_grows

theorem Advances.ready {before after : Service F} (advances : D.Advances before after) (ready : D.Ready before) :
    D.Ready after where
  formed := advances.steps.operatorSecret_eq ▸ ready.formed
  logged := logged_of_steps ready.formed ready.logged advances.steps
  registry := advances.registry.trans ready.registry
  settled := advances.settled ready.settled

theorem Known.stable : Assertion.Stable D.Advances (D.Known request allowed) := by
  intro own before after advances known
  exact ⟨advances.ready known.ready, known.along, known.allowed,
    fun placed member => advances.grows.subset (known.placed placed member)⟩

theorem Along.snoc {own : List (Service F × Service F)} (along : D.Along request own) {before after : Service F}
    {more : List (Tick × Transaction F)} (grown : after.node.ticked = before.node.ticked ++ more)
    (justified : ∀ placed ∈ more, D.Justified request before.node placed) :
    D.Along request (own ++ [(before, after)]) := by
  intro step member
  rcases List.mem_append.mp member with old | new
  · exact along step old
  · rw [List.mem_singleton.mp new, entered_one grown]
    exact justified

omit [F64 F] in
/-- An entry of the archive is not past the current tick. -/
theorem Ready.tick_le {service : Service F} (ready : D.Ready service) {placed : Tick × Transaction F}
    (member : placed ∈ service.node.ticked) : placed.1 ≤ service.node.system.currentTick := by
  obtain ⟨tick, tx⟩ := placed
  obtain ⟨i, rfl, here⟩ := CoinState.mem_ticked_iff.mp member
  have inside := (List.getElem?_eq_some_iff.mp here).1
  exact (Nat.succ_le_of_lt inside).trans_eq (ready.logged.matched.trans ready.logged.ticked)

/-- A step that enters nothing. -/
structure Silent (D : Deployment F) (before after : Service F) : Prop where
  quiet : Quiet before.node after.node
  registry : after.node.trees.operators = before.node.trees.operators
  settled : before.node.parameters ∈ D.settings → after.node.parameters ∈ D.settings

omit [F64 F] in
theorem Silent.of_node {before after : Service F} (same : after.node = before.node) : D.Silent before after := by
  refine ⟨?_, congrArg (fun node => node.trees.operators) same, fun settled => same ▸ settled⟩
  rw [same]
  exact .refl _

theorem Silent.advances {before after : Service F} (silent : D.Silent before after) : D.Advances before after :=
  ⟨.single (.quiet silent.quiet), silent.registry, silent.settled⟩

omit [F64 F] in
theorem Silent.ticked_eq {before after : Service F} (silent : D.Silent before after) :
    after.node.ticked = before.node.ticked := CoinState.ticked_of_same silent.quiet.past.1

/-- A step that enters nothing, and what is learnt by it from what was known. -/
theorem Honours.learns {α : Type} {known : Assertion (Service F)} {run : (Nat → Timestamp) → Service F → α × Service F}
    (value : α → List (Tick × Transaction F) → Prop)
    (implied : ∀ own service, known own service → D.Known request allowed own service)
    (silent : ∀ clock own before, known own before →
      D.Silent before (run clock before).2 ∧ value (run clock before).1 (entered own)) :
    D.Honours request (fun result own service => value result (entered own) ∧ D.Known request allowed own service)
      known (Process.atomic run) := by
  refine .atomic ?_ ?_ ?_ ?_
  · intro result own before after advances known
    exact ⟨known.1, Known.stable own before after advances known.2⟩
  · exact fun own service known => (implied own service known).along
  · exact fun result own service known => known.2.along
  · intro clock own before holds
    have known := implied own before holds
    obtain ⟨quiet, learnt⟩ := silent clock own before holds
    have still : (run clock before).2.node.ticked = before.node.ticked ++ [] := by
      rw [quiet.ticked_eq, List.append_nil]
    have same : entered (own ++ [(before, (run clock before).2)]) = entered own := by
      rw [entered, added_snoc own still, List.append_nil]
      rfl
    refine ⟨quiet.advances, same.symm ▸ learnt, quiet.advances.ready known.ready, ?_, same.symm ▸ known.allowed, ?_⟩
    · exact known.along.snoc still fun _ member => by cases member
    · rw [same, quiet.ticked_eq]
      exact known.placed

theorem Honours.silent {α : Type} {run : (Nat → Timestamp) → Service F → α × Service F}
    (value : α → List (Tick × Transaction F) → Prop)
    (silent : ∀ clock own before, D.Known request allowed own before →
      D.Silent before (run clock before).2 ∧ value (run clock before).1 (entered own)) :
    D.Honours request (fun result own service => value result (entered own) ∧ D.Known request allowed own service)
      (D.Known request allowed) (Process.atomic run) :=
  .learns value (fun _ _ known => known) silent

/-- A call under the system lock, and what it may have entered. -/
theorem Honours.locked {α : Type} {run : (Nat → Timestamp) → CoinState F → α × CoinState F}
    {allowed' : α → List (Tick × Transaction F) → Prop}
    (lands : ∀ clock before, D.Ready before →
      D.Advances before { before with node := (run clock before.node).2 } ∧
        ∃ more, (run clock before.node).2.ticked = before.node.ticked ++ more ∧
          (∀ placed ∈ more, D.Justified request before.node placed) ∧
          ∀ entries, allowed entries → allowed' (run clock before.node).1 (entries ++ more)) :
    D.Honours request (fun result => D.Known request (allowed' result)) (D.Known request allowed)
      (Handler.locked run) := by
  refine .atomic (fun _ => Known.stable) ?_ ?_ ?_
  · exact fun own service known => known.along
  · exact fun result own service known => known.along
  · intro clock own before known
    obtain ⟨advances, more, grown, justified, allows⟩ := lands clock before known.ready
    have longer : entered (own ++ [(before, { before with node := (run clock before.node).2 })]) =
        entered own ++ more := added_snoc own grown
    refine ⟨advances, advances.ready known.ready, known.along.snoc grown justified, ?_, ?_⟩
    · exact longer ▸ allows _ known.allowed
    · intro placed member
      have listed : placed ∈ entered own ++ more := longer ▸ member
      change placed ∈ (run clock before.node).2.ticked
      rw [grown]
      rcases List.mem_append.mp listed with old | new
      · exact List.mem_append_left _ (known.placed placed old)
      · exact List.mem_append_right _ new

/-- A step that enters nothing, from a handler that has entered nothing. -/
theorem Honours.idle {α : Type} {run : (Nat → Timestamp) → Service F → α × Service F} {value : α → Prop}
    (silent : ∀ clock before, D.Ready before → D.Silent before (run clock before).2 ∧ value (run clock before).1) :
    D.Honours request (fun result own service => value result ∧ D.Unspent request own service) (D.Unspent request)
      (Process.atomic run) :=
  .silent (fun result _ => value result) fun clock _ before known => silent clock before known.ready

/-- A step that enters nothing, wherever it stands. -/
theorem Honours.quiet {α : Type} {run : (Nat → Timestamp) → Service F → α × Service F}
    (silent : ∀ clock before, D.Silent before (run clock before).2) :
    D.Honours request (fun _ => D.Known request allowed) (D.Known request allowed) (Process.atomic run) := by
  have step : D.Honours request (fun _ own service => True ∧ D.Known request allowed own service)
      (D.Known request allowed) (Process.atomic run) :=
    .silent (fun _ _ => True) fun clock _ before _ => ⟨silent clock before, trivial⟩
  exact step.relax fun _ _ _ known => known.2

theorem Honours.reading {α : Type} (read : CoinState F → α) :
    D.Honours request (fun _ => D.Unspent request) (D.Unspent request) (Handler.reading read) :=
  .quiet fun _ _ => .of_node rfl

theorem Honours.now : D.Honours request (fun _ => D.Unspent request) (D.Unspent request) Handler.now :=
  .quiet fun _ _ => .of_node rfl

theorem Honours.setStatus {change : SimulationStatus → SimulationStatus} :
    D.Honours request (fun _ => D.Known request allowed) (D.Known request allowed) (Handler.setStatus change) :=
  .quiet fun _ _ => .of_node rfl

/-- The parameters that a handler reads are among those the node may run under. -/
theorem Honours.parameters :
    D.Honours request (fun parameters own service => parameters ∈ D.settings ∧ D.Known request allowed own service)
      (D.Known request allowed) (Handler.reading CoinState.parameters) :=
  .silent (fun parameters _ => parameters ∈ D.settings) fun _ _ _ known => ⟨.of_node rfl, known.ready.settled⟩

/-- The tick of an envelope is not before anything the handler has entered. -/
theorem Honours.responds {respond : SystemState F → ApiResponse F}
    (accounts : ∀ entries system, allowed entries → (∀ placed ∈ entries, placed.1 ≤ system.currentTick) →
      (respond system).Accounts request entries) :
    D.Honours request
      (fun reply own service => (∃ system, reply = some (respond system)) ∧ D.Answered request reply own service)
      (D.Known request allowed) (Handler.reading CoinState.system >>= fun system => pure (some (respond system))) := by
  have step : D.Honours request (fun system own service =>
      (∀ placed ∈ entered own, placed.1 ≤ system.currentTick) ∧ D.Known request allowed own service)
      (D.Known request allowed) (Handler.reading CoinState.system) :=
    .silent (fun (system : SystemState F) entries => ∀ placed ∈ entries, placed.1 ≤ system.currentTick)
      fun _ _ before known => ⟨.of_node rfl, fun placed member => known.ready.tick_le (known.placed placed member)⟩
  refine step.bind fun system => .pure ?_ ?_
  · exact fun own service known => known.2.along
  · intro own service known
    refine ⟨⟨system, rfl⟩, ⟨known.2.ready, known.2.along, trivial, known.2.placed⟩, ?_, fun aborted => nomatch aborted⟩
    intro response sent
    cases sent
    exact accounts _ _ known.2.allowed known.1

theorem Honours.envelope {respond : SystemState F → ApiResponse F}
    (accounts : ∀ entries system, allowed entries → (∀ placed ∈ entries, placed.1 ≤ system.currentTick) →
      (respond system).Accounts request entries) :
    D.Honours request (D.Answered request) (D.Known request allowed)
      (Handler.reading CoinState.system >>= fun system => pure (some (respond system))) :=
  (Honours.responds accounts).relax fun _ _ _ answered => answered.2

/-- A route that enters nothing succeeds with whatever it has read. -/
theorem Honours.ok {status : Nat} {data : ApiData F} (reads : request.route.posts = false) :
    D.Honours request (D.Answered request) (D.Unspent request) (Rest.ok status data) :=
  .envelope fun _ _ none _ => none ▸ .of_nil _ reads

theorem Honours.error {status : Nat} {code message : String} :
    D.Honours request (D.Answered request) (D.Unspent request) (Rest.error status code message) :=
  .envelope fun _ _ none _ => ⟨fun success => absurd success Bool.false_ne_true, fun _ _ => none⟩

/-- Success at a posting route, with data that names the entry. -/
theorem Honours.receipt {α : Type} {names : α → Tick × Hash} {value : α} {status : Nat} {data : ApiData F}
    (posts : request.route.posts = true)
    (named : ∀ response : ApiResponse F, response.data = some data → response.Names (names value).1 (names value).2) :
    D.Honours request (D.Answered request) (D.Known request (Landed names (.ok value))) (Rest.ok status data) := by
  refine .envelope fun entries system landed within => ?_
  obtain ⟨tx, rfl, same⟩ := landed
  constructor
  · intro _ _
    exact ⟨_, tx, rfl, same ▸ named _ rfl, within _ (List.mem_singleton_self _)⟩
  · rintro (failed | reads) _
    · cases failed
    · rw [posts] at reads
      cases reads

/-- A handler that must be signed goes on only once an operator on record is found to have signed it. -/
theorem Honours.operatorAuth {method path : String} {adminOnly : Bool}
    {next : Operator → String → Handler F (Reply F)} (checked : D.Checked)
    (guarded : request.route.guarded = some (method, path, adminOnly))
    (rest : ∀ operator signature, D.SignedBy request operator signature →
      D.Honours request (D.Answered request) (D.Unspent request) (next operator signature)) :
    D.Honours request (D.Answered request) (D.Unspent request)
      (Rest.operatorAuth D.crypto request method path adminOnly next) := by
  have verified : D.Honours request (fun result own service => (∀ operator, result = .ok operator →
      D.SignedBy request operator ((operatorHeaders request.headers).signature.getD "")) ∧ D.Unspent request own service)
      (D.Unspent request) (Async.verifyOperatorRequest D.crypto method path request.body (operatorHeaders request.headers)
        adminOnly) := by
    refine Process.Meets.bind Honours.parameters fun parameters => .given fun settled => ?_
    refine Honours.idle fun clock before ready => ⟨.of_node rfl, fun operator accepted => ?_⟩
    obtain ⟨timestamp, signature, authorized⟩ :=
      (verifyOperatorRequest_eq_ok_iff (checked.bypass parameters settled)).mp accepted
    rw [authorized.signature_eq, Option.getD_some]
    exact ⟨method, path, adminOnly, clock 0, timestamp, guarded, parameters, settled,
      authorized.of_registry ready.registry⟩
  refine verified.bind fun result => .given fun accepted => ?_
  cases result with
  | error e => exact Honours.error
  | ok operator => exact rest operator _ (accepted operator rfl)

theorem Honours.parsed {α : Type} {body : Except String α} {next : α → Handler F (Reply F)}
    (rest : ∀ value, body = .ok value → D.Honours request (D.Answered request) (D.Unspent request) (next value)) :
    D.Honours request (D.Answered request) (D.Unspent request) (Rest.parsed body next) := by
  cases body with
  | error e => exact Honours.error
  | ok value => exact rest value rfl

theorem Honours.conclude {α : Type} {names : α → Tick × Hash} {next : α → Handler F (Reply F)}
    (accepted : ∀ value, D.Honours request (D.Answered request) (D.Known request (Landed names (.ok value)))
      (next value)) (outcome : Outcome α) :
    D.Honours request (D.Answered request) (D.Known request (Landed names outcome))
      (Rest.conclude outcome next) := by
  cases outcome with
  | ok value => exact accepted value
  | err e => exact Honours.error
  | panic => exact .vacuous fun _ _ known => known.allowed

end Deployment

end AggoraCoin
