import AggoraCoin.IterationLock
import AggoraCoin.RateLimits

namespace AggoraCoin

variable {F : Type}

/-- A transfer request with the reading the limiter takes and the one the PoH entry takes. -/
structure Arrival where
  request : TransferRequest
  arrivedAt : Timestamp
  now : Timestamp

/-- The node behind the gateway, and its table of outgoing transfers. -/
structure Gateway (F : Type) where
  state : CoinState F
  rates : RateTable WalletId

structure Answer where
  arrival : Arrival
  /-- The limiter let it through. -/
  admitted : Bool
  outcome : Outcome TxAcceptedResponse

variable (C : Crypto)

/-- The handler of `POST /api/v1/transaction`, once the body has parsed. -/
def postTransaction [F64 F] (arrival : Arrival) (gateway : Gateway F) : Answer × Gateway F :=
  match checkTransferRateLimit gateway.state.parameters.security arrival.request.fromId arrival.arrivedAt gateway.rates with
  | (.error e, rates) => (⟨arrival, false, .err e⟩, { gateway with rates })
  | (.ok _, rates) =>
    let ran := transfer C gateway.state.parameters arrival.request arrival.now gateway.state
    (⟨arrival, true, ran.1⟩, ⟨ran.2, rates⟩)

def serve [F64 F] (gateway : Gateway F) : List Arrival → List Answer × Gateway F
  | [] => ([], gateway)
  | arrival :: rest =>
    let one := postTransaction C arrival gateway
    let later := serve one.2 rest
    (one.1 :: later.1, later.2)

/-- The request names `walletId` as its sender, and its signature verifies under that wallet's key. -/
def SignedFor (walletId : WalletId) (request : TransferRequest) : Prop :=
  request.fromId = walletId ∧ ∃ key sig, fixed32 request.senderPubkey = .ok key ∧ walletId = C.blake3Hex key.val ∧
    fixed64 request.userSig = .ok sig ∧ C.validKey key = true ∧
    C.verify key (C.blake3 (C.toVec (request.payload (Hex.encode key.val)).toJson)).val sig = true

/-- A request that names `walletId` without its key. -/
def Forged (walletId : WalletId) (request : TransferRequest) : Prop :=
  request.fromId = walletId ∧ ¬ SignedFor C walletId request

section Table

variable {κ : Type} [DecidableEq κ] {limit : Nat} {windowMs : Int} {key : κ} {now : Timestamp} {table other : RateTable κ}

/-- A call touches the queue of its own key only. -/
theorem slideWindow_other {another : κ} (different : another ≠ key) :
    (slideWindow limit windowMs key now table).2 another = table another := by
  unfold slideWindow
  split
  · rfl
  dsimp only
  split
  · exact Function.update_of_ne different _ _
  · exact Function.update_of_ne different _ _

/-- And it reads no other. -/
theorem slideWindow_congr (same : table key = other key) :
    (slideWindow limit windowMs key now table).1 = (slideWindow limit windowMs key now other).1 ∧
      (slideWindow limit windowMs key now table).2 key = (slideWindow limit windowMs key now other).2 key := by
  unfold slideWindow
  by_cases off : limit = 0
  · rw [if_pos off, if_pos off]
    exact ⟨rfl, same⟩
  rw [if_neg off, if_neg off, same]
  dsimp only
  split
  · simp
  · simp

theorem slideWindow_error {e : StateError} {after : RateTable κ}
    (refused : slideWindow limit windowMs key now table = (.error e, after)) : e = .rateLimitExceeded := by
  unfold slideWindow at refused
  split at refused
  · cases refused
  dsimp only at refused
  split at refused
  · cases refused
    rfl
  · cases refused

end Table

section Interference

variable {C} [F64 F] {gateway : Gateway F} {walletId : WalletId} {arrival : Arrival}

omit [F64 F] in
/-- With the bypass off a transfer that passes its checks was signed by the sender's key. -/
theorem signedFor_of_planTransfer {security : SecurityParameters} {request : TransferRequest} {state : CoinState F}
    {plan : TransferPlan F} (checked : security.devAuthBypass = false)
    (planned : planTransfer C security request state = .ok plan) : SignedFor C request.fromId request := by
  obtain ⟨_, key, fromWallet, toWallet, valid⟩ := planTransfer_ok planned
  obtain ⟨key', sig, read, sigRead, point, verified⟩ := verifyUserSignature_ok checked valid.signed
  cases Except.ok.inj (valid.sender_key.symm.trans read)
  exact ⟨rfl, key, sig, read, valid.sender_id, sigRead, point, verified⟩

/-- A forged transfer is refused and changes nothing. -/
theorem transfer_forged {parameters : SystemParameters F} {request : TransferRequest} {now : Timestamp}
    {state : CoinState F} (checked : parameters.security.devAuthBypass = false)
    (forged : Forged C walletId request) : (transfer C parameters request now state).2 = state := by
  rcases transfer_cases C state parameters request now with
    ⟨e, _, ran⟩ | ⟨plan, key, fromWallet, toWallet, reply, planned, _, _⟩
  · rw [ran]
  · have signed := signedFor_of_planTransfer checked planned
    rw [forged.1] at signed
    exact absurd signed forged.2

/-- No check of a transfer answers with the limiter's error. -/
theorem transfer_unlimited {parameters : SystemParameters F} {request : TransferRequest} {now : Timestamp}
    {state : CoinState F} : (transfer C parameters request now state).1.error? ≠ some .rateLimitExceeded := by
  rcases transfer_cases C state parameters request now with
    ⟨e, refused, ran⟩ | ⟨plan, key, fromWallet, toWallet, reply, _, _, posts⟩
  · rw [ran]
    rintro ⟨⟩
    have named : transferTxId C request ≠ .error .rateLimitExceeded := fun failed => by cases transferTxId_error failed
    have signed (txId : Hash) : verifyUserSignature C parameters.security request.senderPubkey txId request.userSig ≠
        .error .rateLimitExceeded := fun failed => by cases verifyUserSignature_error failed
    simp only [planTransfer, bind_eq_error_iff, rejectIf_eq_error_iff, okOr_eq_error_iff, mapErr_eq_error_iff,
      pure_ne_error, named, signed, reduceCtorEq, and_false, or_self, exists_false] at refused
  · generalize transfer C parameters request now state = finished at *
    cases posts with
    | accepted => rintro ⟨⟩
    | stranded => rintro ⟨⟩

theorem parameters_transfer {parameters : SystemParameters F} {request : TransferRequest} {now : Timestamp}
    {state : CoinState F} : (transfer C parameters request now state).2.parameters = state.parameters := by
  rcases transfer_cases C state parameters request now with
    ⟨e, _, ran⟩ | ⟨plan, key, fromWallet, toWallet, reply, _, _, posts⟩
  · rw [ran]
  · generalize transfer C parameters request now state = finished at *
    cases posts with
    | accepted => rfl
    | stranded => rfl

variable (C) in
/-- The handler of a transfer out of a wallet whose quota is ruled on elsewhere. -/
def postRuled (admitted : Bool) (arrival : Arrival) (gateway : Gateway F) : Answer × Gateway F :=
  if admitted then
    let ran := transfer C gateway.state.parameters arrival.request arrival.now gateway.state
    (⟨arrival, true, ran.1⟩, { gateway with state := ran.2 })
  else (⟨arrival, false, .err .rateLimitExceeded⟩, gateway)

variable (C) in
/-- The run in which `admissions` says which transfers out of `walletId` get past the limiter. -/
def serveRuled (walletId : WalletId) (gateway : Gateway F) (admissions : List Bool) : List Arrival → List Answer
  | [] => []
  | arrival :: rest =>
    if arrival.request.fromId = walletId then
      let one := postRuled C (admissions.headD false) arrival gateway
      one.1 :: serveRuled walletId one.2 admissions.tail rest
    else
      let one := postTransaction C arrival gateway
      one.1 :: serveRuled walletId one.2 admissions rest

/-- The same node, and the same queues but for one wallet's. -/
structure AgreeBut (walletId : WalletId) (gateway other : Gateway F) : Prop where
  state_eq : gateway.state = other.state
  rates_eq : ∀ key, key ≠ walletId → gateway.rates key = other.rates key

variable {other : Gateway F}

variable (C gateway arrival) in
/-- The limiter refuses the request, or the transfer is tried. -/
theorem postTransaction_cases :
    (postTransaction C arrival gateway = (⟨arrival, false, .err .rateLimitExceeded⟩,
      { gateway with rates := (checkTransferRateLimit gateway.state.parameters.security arrival.request.fromId
        arrival.arrivedAt gateway.rates).2 })) ∨
    ((checkTransferRateLimit gateway.state.parameters.security arrival.request.fromId arrival.arrivedAt
        gateway.rates).1 = .ok () ∧
      postTransaction C arrival gateway =
        (⟨arrival, true, (transfer C gateway.state.parameters arrival.request arrival.now gateway.state).1⟩,
          ⟨(transfer C gateway.state.parameters arrival.request arrival.now gateway.state).2,
            (checkTransferRateLimit gateway.state.parameters.security arrival.request.fromId arrival.arrivedAt
              gateway.rates).2⟩)) := by
  unfold postTransaction
  cases checked : checkTransferRateLimit gateway.state.parameters.security arrival.request.fromId arrival.arrivedAt
    gateway.rates with
  | mk verdict rates =>
    cases verdict with
    | error e =>
      rw [slideWindow_error checked]
      exact Or.inl rfl
    | ok _ => exact Or.inr ⟨rfl, rfl⟩

theorem admitted_postTransaction : (postTransaction C arrival gateway).1.admitted =
    accepts (checkTransferRateLimit gateway.state.parameters.security arrival.request.fromId arrival.arrivedAt
      gateway.rates).1 := by
  unfold postTransaction
  cases checkTransferRateLimit gateway.state.parameters.security arrival.request.fromId arrival.arrivedAt
    gateway.rates with
  | mk verdict rates =>
    cases verdict with
    | error e => rfl
    | ok _ => rfl

theorem rates_postTransaction_eq : (postTransaction C arrival gateway).2.rates =
    (checkTransferRateLimit gateway.state.parameters.security arrival.request.fromId arrival.arrivedAt
      gateway.rates).2 := by
  rcases postTransaction_cases C gateway arrival with ran | ⟨_, ran⟩
  all_goals rw [ran]

theorem rates_postTransaction {key : WalletId} (different : key ≠ arrival.request.fromId) :
    (postTransaction C arrival gateway).2.rates key = gateway.rates key := by
  rw [rates_postTransaction_eq]
  exact slideWindow_other different

theorem parameters_postTransaction :
    (postTransaction C arrival gateway).2.state.parameters = gateway.state.parameters := by
  rcases postTransaction_cases C gateway arrival with ran | ⟨_, ran⟩
  · rw [ran]
  · rw [ran]
    exact parameters_transfer

/-- A forged request changes the queue of the wallet it names and nothing else. -/
theorem AgreeBut.forged (agree : AgreeBut walletId gateway other)
    (checked : gateway.state.parameters.security.devAuthBypass = false) (forged : Forged C walletId arrival.request) :
    AgreeBut walletId (postTransaction C arrival gateway).2 other := by
  constructor
  · rcases postTransaction_cases C gateway arrival with ran | ⟨_, ran⟩
    · rw [ran]
      exact agree.state_eq
    · rw [ran]
      exact (transfer_forged checked forged).trans agree.state_eq
  · intro key different
    rw [rates_postTransaction (forged.1 ▸ different)]
    exact agree.rates_eq key different

/-- A request from another wallet is answered the same. -/
theorem AgreeBut.another (agree : AgreeBut walletId gateway other) (different : arrival.request.fromId ≠ walletId) :
    (postTransaction C arrival gateway).1 = (postTransaction C arrival other).1 ∧
      AgreeBut walletId (postTransaction C arrival gateway).2 (postTransaction C arrival other).2 := by
  obtain ⟨state, rates⟩ := gateway
  obtain ⟨state', rates'⟩ := other
  obtain ⟨rfl, kept⟩ := agree
  have verdict : (checkTransferRateLimit state.parameters.security arrival.request.fromId arrival.arrivedAt rates).1 =
      (checkTransferRateLimit state.parameters.security arrival.request.fromId arrival.arrivedAt rates').1 :=
    (slideWindow_congr (kept _ different)).1
  have untouched (table : RateTable WalletId) {key : WalletId} (different : key ≠ arrival.request.fromId) :
      (checkTransferRateLimit state.parameters.security arrival.request.fromId arrival.arrivedAt table).2 key = table key :=
    slideWindow_other different
  have tables : ∀ key, key ≠ walletId →
      (checkTransferRateLimit state.parameters.security arrival.request.fromId arrival.arrivedAt rates).2 key =
        (checkTransferRateLimit state.parameters.security arrival.request.fromId arrival.arrivedAt rates').2 key := by
    intro key elsewhere
    by_cases own : key = arrival.request.fromId
    · rw [own]
      exact (slideWindow_congr (kept _ different)).2
    · rw [untouched rates own, untouched rates' own]
      exact kept key elsewhere
  unfold postTransaction
  dsimp only
  cases one : checkTransferRateLimit state.parameters.security arrival.request.fromId arrival.arrivedAt rates with
  | mk first left =>
    cases two : checkTransferRateLimit state.parameters.security arrival.request.fromId arrival.arrivedAt rates' with
    | mk second right =>
      rw [one, two] at verdict tables
      have same : first = second := verdict
      subst same
      cases first with
      | error e => exact ⟨rfl, rfl, tables⟩
      | ok _ => exact ⟨rfl, rfl, tables⟩

/-- A request of the wallet itself is answered as the limiter ruled on it. -/
theorem AgreeBut.own (agree : AgreeBut walletId gateway other) (own : arrival.request.fromId = walletId) :
    (postTransaction C arrival gateway).1 =
        (postRuled C (postTransaction C arrival gateway).1.admitted arrival other).1 ∧
      AgreeBut walletId (postTransaction C arrival gateway).2
        (postRuled C (postTransaction C arrival gateway).1.admitted arrival other).2 := by
  have kept {key : WalletId} (different : key ≠ walletId) :
      (postTransaction C arrival gateway).2.rates key = other.rates key := by
    rw [rates_postTransaction (own ▸ different)]
    exact agree.rates_eq key different
  rcases postTransaction_cases C gateway arrival with ran | ⟨_, ran⟩
  · rw [ran] at kept ⊢
    exact ⟨rfl, agree.state_eq, fun key different => kept different⟩
  · rw [ran] at kept ⊢
    rw [agree.state_eq] at kept ⊢
    exact ⟨rfl, rfl, fun key different => kept different⟩

open Classical in
/-- A sequence without the requests that name the wallet and are not its own. -/
noncomputable def genuine (C : Crypto) (walletId : WalletId) (arrivals : List Arrival) : List Arrival :=
  arrivals.filter fun arrival => ¬ Forged C walletId arrival.request

open Classical in
noncomputable def genuineAnswers (C : Crypto) (walletId : WalletId) (answers : List Answer) : List Answer :=
  answers.filter fun answer => ¬ Forged C walletId answer.arrival.request

open Classical in
/-- The answers to the wallet's own requests. -/
noncomputable def signedAnswers (C : Crypto) (walletId : WalletId) (answers : List Answer) : List Answer :=
  answers.filter fun answer => SignedFor C walletId answer.arrival.request

omit [F64 F] in
theorem signedAnswers_genuineAnswers (answers : List Answer) :
    signedAnswers C walletId (genuineAnswers C walletId answers) = signedAnswers C walletId answers := by
  unfold signedAnswers genuineAnswers
  rw [List.filter_filter]
  refine List.filter_congr fun answer _ => ?_
  by_cases signed : SignedFor C walletId answer.arrival.request
  · have real : ¬ Forged C walletId answer.arrival.request := fun forged => forged.2 signed
    simp [signed, real]
  · simp [signed]

theorem arrival_postTransaction : (postTransaction C arrival gateway).1.arrival = arrival := by
  rcases postTransaction_cases C gateway arrival with ran | ⟨_, ran⟩
  all_goals rw [ran]

/-- The genuine requests are answered as if the forged ones had never come, but for what the
limiter made of the wallet's own. -/
theorem genuineAnswers_serve (arrivals : List Arrival) (agree : AgreeBut walletId gateway other)
    (checked : gateway.state.parameters.security.devAuthBypass = false) :
    genuineAnswers C walletId (serve C gateway arrivals).1 =
      serveRuled C walletId other ((signedAnswers C walletId (serve C gateway arrivals).1).map Answer.admitted)
        (genuine C walletId arrivals) := by
  induction arrivals generalizing gateway other with
  | nil => rfl
  | cons arrival rest ih =>
    have still : (postTransaction C arrival gateway).2.state.parameters.security.devAuthBypass = false := by
      rw [parameters_postTransaction]
      exact checked
    have about : (postTransaction C arrival gateway).1.arrival = arrival := arrival_postTransaction
    rw [serve, genuineAnswers, genuine, signedAnswers]
    by_cases forged : Forged C walletId arrival.request
    · have unsigned := forged.2
      rw [List.filter_cons_of_neg (by simpa [about] using forged),
        List.filter_cons_of_neg (by simpa [about] using unsigned), List.filter_cons_of_neg (by simpa using forged)]
      exact ih (agree.forged checked forged) still
    rw [List.filter_cons_of_pos (by simpa [about] using forged)]
    by_cases own : arrival.request.fromId = walletId
    · have signed : SignedFor C walletId arrival.request := by
        by_contra unsigned
        exact forged ⟨own, unsigned⟩
      have step := agree.own (C := C) own
      rw [List.filter_cons_of_pos (by simpa [about] using signed), List.filter_cons_of_pos (by simpa using forged),
        List.map_cons, serveRuled, if_pos own, List.headD_cons, List.tail_cons]
      exact congrArg₂ List.cons step.1 (ih step.2 still)
    · have unsigned : ¬ SignedFor C walletId arrival.request := fun signed => own signed.1
      have step := agree.another (C := C) own
      rw [List.filter_cons_of_neg (by simpa [about] using unsigned), List.filter_cons_of_pos (by simpa using forged),
        serveRuled, if_neg own]
      exact congrArg₂ List.cons step.1 (ih step.2 still)

/-- An answer shows whether the limiter let the request through. -/
theorem Answer.admitted_serve (arrivals : List Arrival) : ∀ answer ∈ (serve C gateway arrivals).1,
    answer.admitted = decide (answer.outcome.error? ≠ some .rateLimitExceeded) := by
  induction arrivals generalizing gateway with
  | nil => exact fun _ absent => absurd absent List.not_mem_nil
  | cons arrival rest ih =>
    intro answer member
    rcases List.mem_cons.mp member with rfl | later
    · rcases postTransaction_cases C gateway arrival with ran | ⟨_, ran⟩
      · rw [ran]
        rfl
      · rw [ran]
        exact (decide_eq_true transfer_unlimited).symm
    · exact ih answer later

/-- So the outcomes tell the admissions. -/
theorem admissions_of_outcomes {first second : List Arrival}
    (outcomes : (signedAnswers C walletId (serve C gateway first).1).map Answer.outcome =
      (signedAnswers C walletId (serve C gateway second).1).map Answer.outcome) :
    (signedAnswers C walletId (serve C gateway first).1).map Answer.admitted =
      (signedAnswers C walletId (serve C gateway second).1).map Answer.admitted := by
  have shown (arrivals : List Arrival) :
      (signedAnswers C walletId (serve C gateway arrivals).1).map Answer.admitted =
        ((signedAnswers C walletId (serve C gateway arrivals).1).map Answer.outcome).map
          fun outcome => decide (outcome.error? ≠ some .rateLimitExceeded) := by
    rw [List.map_map]
    exact List.map_congr_left fun answer member => Answer.admitted_serve arrivals answer (List.mem_filter.mp member).1
  rw [shown, shown, outcomes]

/-- Two sequences that differ in forged requests only answer the wallet's own requests alike
exactly when the limiter admits the same of them. -/
theorem transfer_interference (gateway : Gateway F) (walletId : WalletId) (first second : List Arrival)
    (checked : gateway.state.parameters.security.devAuthBypass = false)
    (same : genuine C walletId first = genuine C walletId second) :
    (signedAnswers C walletId (serve C gateway first).1).map Answer.outcome =
        (signedAnswers C walletId (serve C gateway second).1).map Answer.outcome ↔
      (signedAnswers C walletId (serve C gateway first).1).map Answer.admitted =
        (signedAnswers C walletId (serve C gateway second).1).map Answer.admitted := by
  constructor
  · exact admissions_of_outcomes
  · intro admissions
    have agree : AgreeBut walletId gateway gateway := ⟨rfl, fun _ _ => rfl⟩
    have answers : genuineAnswers C walletId (serve C gateway first).1 =
        genuineAnswers C walletId (serve C gateway second).1 := by
      rw [genuineAnswers_serve first agree checked, genuineAnswers_serve second agree checked, same, admissions]
    rw [← signedAnswers_genuineAnswers, answers, signedAnswers_genuineAnswers]

end Interference

namespace Concrete

def meteredParameters (limit : Nat) : SystemParameters ℚ :=
  { parameters with security := { parameters.security with rateLimitTxPerWalletPerMinute := limit } }

/-- A node with one wallet behind a fresh limiter. -/
def gateway (limit : Nat) : Gateway ℚ := ⟨updateParameters (meteredParameters limit) (firstNode (key 7)), fun _ => []⟩

def payment (key : FixedBytes 32) (userSig : Signature) : TransferRequest where
  fromId := crypto.blake3Hex key.val
  toId := walletId 8
  amount := 1
  nonce := 0
  timestamp := 0
  senderPubkey := Hex.encode key.val
  userSig := userSig

/-- The payment as the holder of `key` sends it. -/
def signedPayment (key : FixedBytes 32) : TransferRequest :=
  payment key (Hex.encode (mark key (crypto.blake3
    (crypto.toVec ((payment key "").payload (Hex.encode key.val)).toJson)).val).val)

theorem signedFor_signedPayment {key : FixedBytes 32} (low : key.val.headD 0 < 0x40) :
    SignedFor crypto (crypto.blake3Hex key.val) (signedPayment key) := by
  refine ⟨rfl, key, _, fixedBytes_encode key (by decide), rfl, fixedBytes_encode _ (by decide), ?_, ?_⟩
  · simpa [crypto] using low
  · simpa [crypto, signedPayment, payment, TransferRequest.payload] using low

def ownPayment : Arrival := ⟨signedPayment (key 7), 1, 1⟩

/-- The same request without a signature, a moment earlier. -/
def strangerPayment : Arrival := ⟨payment (key 7) "", 0, 0⟩

theorem signedFor_ownPayment : SignedFor crypto (walletId 7) ownPayment.request :=
  signedFor_signedPayment (by decide)

theorem forged_strangerPayment : Forged crypto (walletId 7) strangerPayment.request := by
  refine ⟨rfl, ?_⟩
  rintro ⟨_, _, sig, _, _, read, _⟩
  have unreadable : (fixed64 "").toOption = none := by decide
  rw [show strangerPayment.request.userSig = "" from rfl] at read
  rw [read] at unreadable
  cases unreadable

theorem genuine_stranger : genuine crypto (walletId 7) [ownPayment] = [ownPayment] ∧
    genuine crypto (walletId 7) [strangerPayment, ownPayment] = [ownPayment] := by
  have real : ¬ Forged crypto (walletId 7) ownPayment.request := fun forged => forged.2 signedFor_ownPayment
  simp [genuine, real, forged_strangerPayment]

/-- What the limiter says of the owner's payment, alone and after the stranger's. -/
theorem admitted_ownPayment (limit : Nat) (on : limit ≠ 0) :
    (signedAnswers crypto (walletId 7) (serve crypto (gateway limit) [ownPayment]).1).map Answer.admitted = [true] ∧
      (signedAnswers crypto (walletId 7) (serve crypto (gateway limit) [strangerPayment, ownPayment]).1).map
        Answer.admitted = [decide (1 < limit)] := by
  have stranger : ¬ SignedFor crypto (walletId 7) strangerPayment.request := forged_strangerPayment.2
  have parameters : (gateway limit).state.parameters.security.rateLimitTxPerWalletPerMinute = limit := rfl
  have rates : (gateway limit).rates = fun _ => [] := rfl
  generalize gateway limit = start at parameters rates ⊢
  have first : accepts (slideWindow limit (60 * 1000) (walletId 7) 1 start.rates).1 = true := by
    simp [slideWindow, on, accepts, rates, Except.toOption]
  have table : (slideWindow limit (60 * 1000) (walletId 7) 0 start.rates).2 (walletId 7) = [0] := by
    simp [slideWindow, on, rates]
  have second (queues : RateTable WalletId) (queue : queues (walletId 7) = [0]) :
      accepts (slideWindow limit (60 * 1000) (walletId 7) 1 queues).1 = decide (1 < limit) := by
    by_cases full : limit ≤ 1
    · have none : ¬ 1 < limit := not_lt.mpr full
      simp [slideWindow, on, queue, full, none, accepts, Except.toOption]
    · have room : 1 < limit := not_le.mp full
      simp [slideWindow, on, queue, full, room, accepts, Except.toOption]
  constructor
  · simp only [serve, signedAnswers, List.filter_cons, arrival_postTransaction, signedFor_ownPayment, decide_true,
      if_true, List.filter_nil, List.map_cons, List.map_nil, admitted_postTransaction, checkTransferRateLimit,
      parameters]
    exact congrArg (fun one => [one]) first
  · simp only [serve, signedAnswers, List.filter_cons, arrival_postTransaction, signedFor_ownPayment, stranger,
      decide_true, decide_false, if_true, Bool.false_eq_true, if_false, List.filter_nil, List.map_cons, List.map_nil,
      admitted_postTransaction, checkTransferRateLimit, parameters, parameters_postTransaction,
      rates_postTransaction_eq]
    exact congrArg (fun one => [one]) (second _ table)

end Concrete

/-- With one transfer a minute, a request that nobody signed costs the owner the payment. -/
theorem transfer_quota_consumed :
    ∃ (gateway : Gateway ℚ) (walletId : WalletId) (first second : List Arrival),
      gateway.state.parameters.security.devAuthBypass = false ∧
      genuine Concrete.crypto walletId first = genuine Concrete.crypto walletId second ∧
      (signedAnswers Concrete.crypto walletId (serve Concrete.crypto gateway first).1).map Answer.outcome ≠
        (signedAnswers Concrete.crypto walletId (serve Concrete.crypto gateway second).1).map Answer.outcome := by
  obtain ⟨own, mixed⟩ := Concrete.admitted_ownPayment 1 (by decide)
  obtain ⟨same, same'⟩ := Concrete.genuine_stranger
  refine ⟨Concrete.gateway 1, Concrete.walletId 7, [Concrete.ownPayment],
    [Concrete.strangerPayment, Concrete.ownPayment], rfl, same.trans same'.symm, fun outcomes => ?_⟩
  have admissions := admissions_of_outcomes outcomes
  rw [own, mixed] at admissions
  cases admissions

/-- With room for both, the stranger's request makes no difference. -/
theorem transfer_interference_room :
    (signedAnswers Concrete.crypto (Concrete.walletId 7)
        (serve Concrete.crypto (Concrete.gateway 60) [Concrete.ownPayment]).1).map Answer.outcome =
      (signedAnswers Concrete.crypto (Concrete.walletId 7)
        (serve Concrete.crypto (Concrete.gateway 60) [Concrete.strangerPayment, Concrete.ownPayment]).1).map
          Answer.outcome := by
  obtain ⟨own, mixed⟩ := Concrete.admitted_ownPayment 60 (by decide)
  obtain ⟨same, same'⟩ := Concrete.genuine_stranger
  refine (transfer_interference (Concrete.gateway 60) (Concrete.walletId 7) [Concrete.ownPayment]
    [Concrete.strangerPayment, Concrete.ownPayment] rfl (same.trans same'.symm)).mpr ?_
  rw [own, mixed]
  rfl

end AggoraCoin
