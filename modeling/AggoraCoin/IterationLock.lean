import AggoraCoin.Restarts

namespace AggoraCoin

variable {F : Type} [F64 F] {C : Crypto} {state : CoinState F}

namespace Write

omit [F64 F] in
def stateOf : Write F → Option (SystemState F)
  | .state stored => some stored
  | _ => none

end Write

omit [F64 F] in
/-- The stored system state is the last one written. -/
theorem Trees.applyAll_state (t : Trees F) (writes : List (Write F)) :
    (t.applyAll writes).state = (writes.filterMap Write.stateOf).getLast?.or t.state := by
  induction writes generalizing t with
  | nil => rfl
  | cons write rest ih =>
    rw [applyAll_cons, ih]
    cases write with
    | state stored =>
      have grown : (Write.state stored :: rest).filterMap Write.stateOf =
        stored :: rest.filterMap Write.stateOf := rfl
      rw [grown, List.getLast?_cons]
      cases (rest.filterMap Write.stateOf).getLast? <;> rfl
    | _ => rfl

omit [F64 F] in
theorem stateOf_postingWrites (wallets : List (Wallet F)) (system : SystemState F) (tx : Transaction F)
    (entry : PohEntry) : (CoinState.postingWrites wallets system tx entry).filterMap Write.stateOf = [] := by
  refine List.filterMap_eq_nil_iff.mpr fun write member => ?_
  simp only [CoinState.postingWrites, transactionWrites, List.mem_append, List.mem_map, List.mem_cons,
    List.not_mem_nil, or_false] at member
  rcases member with ⟨wallet, _, rfl⟩ | (rfl | ⟨indexed, _, rfl⟩) | rfl
  all_goals rfl

omit [F64 F] in
theorem stateOf_entryWrites (sheet : Sheet F) (entry : PohEntry) :
    (CoinState.entryWrites sheet entry).filterMap Write.stateOf = [] :=
  stateOf_postingWrites sheet.wallets sheet.system sheet.tx entry

theorem Installs.stateOf {bookings : Set (Booking F)} {writes : List (Write F)} {after : CoinState F}
    (installs : Installs C bookings state writes after) : writes.filterMap Write.stateOf = [] := by
  induction installs with
  | none => rfl
  | entry _ _ _ _ _ ih => rw [List.filterMap_append, stateOf_entryWrites, ih, List.nil_append]

omit [F64 F] in
theorem CoinState.stored_storeState (state : CoinState F) : state.storeState.trees.state = some state.system := by
  rw [storeState, trees_writeAll]
  rfl

/-- The lock is free in memory and in the stored system state. -/
structure Released (state : CoinState F) : Prop where
  unlocked : state.system.iterationLock = false
  stored : ∃ stored, state.trees.state = some stored ∧ stored.iterationLock = false

/-- No entry takes the lock. -/
theorem Books.unlocked {booking : Booking F} {sheet : Sheet F} (books : Books C state booking sheet)
    (unlocked : state.system.iterationLock = false) : sheet.system.iterationLock = false := by
  cases books with
  | commit => rfl
  | _ => exact unlocked

theorem Installs.unlocked {bookings : Set (Booking F)} {writes : List (Write F)} {after : CoinState F}
    (installs : Installs C bookings state writes after) (unlocked : state.system.iterationLock = false) :
    after.system.iterationLock = false := by
  induction installs with
  | none => exact unlocked
  | entry books _ _ _ _ ih => exact ih (books.unlocked unlocked)

/-- What the parameters of an iteration and the secret must allow for it to finish. -/
structure Finishes (parameters : SystemParameters F) (state : CoinState F) : Prop where
  ordered : F64.le parameters.economy.burnMin parameters.economy.burnMax = true
  formed : Crypto.WellFormedSecret state.operatorSecret

/-- The lock stays free across every script, but for an iteration that cannot finish. -/
theorem Script.released {bookings : Set (Booking F)} {writes : List (Write F)} {after : CoinState F}
    (script : Script C bookings state writes after) (released : Released state)
    (finishes : ∀ parameters, Booking.commit parameters ∈ bookings → Finishes parameters state) : Released after := by
  have left : after.trees.state = (writes.filterMap Write.stateOf).getLast?.or state.trees.state := by
    rw [CoinState.trees, script.storage_eq, Storage.trees_writeAll]
    exact Trees.applyAll_state _ _
  obtain ⟨stored, found, free⟩ := released.stored
  rw [found] at left
  cases script with
  | refused => exact ⟨released.unlocked, stored, found, free⟩
  | parameters => exact ⟨released.unlocked, stored, left, free⟩
  | accepted seen books =>
    rw [List.filterMap_append, stateOf_entryWrites] at left
    have unlocked := books.unlocked released.unlocked
    exact ⟨unlocked, _, left, unlocked⟩
  | stranded seen books =>
    rw [CoinState.filterMap_wallet Write.stateOf fun _ => rfl] at left
    exact ⟨books.unlocked released.unlocked, stored, left, free⟩
  | @seeded final _ installs =>
    rw [List.filterMap_append, installs.stateOf] at left
    have unlocked := installs.unlocked released.unlocked
    exact ⟨unlocked, _, left, unlocked⟩
  | seedRefused installs =>
    rw [installs.stateOf] at left
    exact ⟨installs.unlocked released.unlocked, stored, left, free⟩
  | panicked parameters booked unordered =>
    rw [(finishes parameters booked).ordered] at unordered
    cases unordered
  | @committed parameters sheet entry commit closing _ books _ _ _ _ closes =>
    have unlocked : sheet.system.iterationLock = false := by
      cases books
      rfl
    have last : (Write.state state.locked.system :: (CoinState.entryWrites sheet entry ++
        (.iteration commit :: .state (state.locked.enter sheet entry).system :: closing))).filterMap Write.stateOf =
        [state.locked.system, (state.locked.enter sheet entry).system] := by
      have nothing : closing.filterMap Write.stateOf = [] := by
        rcases closes with rfl | ⟨taken, rfl⟩
        all_goals rfl
      simp only [List.filterMap_cons, List.filterMap_append, stateOf_entryWrites, nothing, Write.stateOf,
        List.nil_append]
    rw [last] at left
    exact ⟨unlocked, _, left, unlocked⟩
  | commitStranded books booked malformed => exact absurd (finishes _ booked).formed malformed

variable (C) in
/-- Whatever way the iteration ends the lock is free, and one that fails has changed neither the
iteration count nor a balance. -/
structure Releases (parameters : SystemParameters F) (now snapshotNow : Timestamp) (state : CoinState F) : Prop where
  released : Released (executeIterationNow C parameters now snapshotNow state).2
  rolledBack : (executeIterationNow C parameters now snapshotNow state).1.isOk = false →
    (executeIterationNow C parameters now snapshotNow state).2.system.currentIteration = state.system.currentIteration ∧
    ∀ walletId, ((executeIterationNow C parameters now snapshotNow state).2.getWallet walletId).map Wallet.balance =
      (state.getWallet walletId).map Wallet.balance

/-- An iteration that finds the lock free releases it if and only if it can finish. -/
theorem releases_iff {parameters : SystemParameters F} {now snapshotNow : Timestamp} (released : Released state) :
    Releases C parameters now snapshotNow state ↔ Finishes parameters state := by
  rcases executeIterationNow_cases C state parameters now snapshotNow with ⟨busy, _⟩ | ⟨_, iterates⟩
  · rw [released.unlocked] at busy
    cases busy
  constructor
  · intro releases
    have free := releases.released
    generalize executeIterationNow C parameters now snapshotNow state = finished at *
    cases iterates with
    | panicked => cases free.unlocked
    | committed ran valid formed =>
      have rated := Option.isSome_of_eq_some valid.rate
      exact ⟨(isSome_burnRate_iff _ _).mp rated, formed⟩
    | @stranded beta result e ran valid malformed =>
      -- the wallets are written over the stored lock
      obtain ⟨stored, found, unlocked⟩ := free.stored
      have kept : (state.locked.stranded result.wallets (commitSystem state.locked.system result)).trees.state =
          some state.locked.system := by
        rw [CoinState.trees_stranded]
        exact CoinState.stored_storeState _
      rw [← Option.some.inj (kept.symm.trans found)] at unlocked
      cases unlocked
  · intro finishes
    have script := Call.script_writes C state (.executeIterationNow parameters now snapshotNow)
    have free := script.released released fun other booked => by
      have same : Booking.commit other = Booking.commit parameters := booked
      cases same
      exact finishes
    refine ⟨free, fun failed => ?_⟩
    generalize executeIterationNow C parameters now snapshotNow state = finished at *
    cases iterates with
    | panicked unordered =>
      rw [finishes.ordered] at unordered
      cases unordered
    | committed => cases failed
    | stranded _ _ malformed => exact absurd finishes.formed malformed

/-- The error a call is answered with. -/
def Outcome.error? {α : Type} : Outcome α → Option StateError
  | .ok _ => none
  | .err e => some e
  | .panic => none

variable (C) in
def Call.error? (call : Call F) (state : CoinState F) : Option StateError :=
  match call with
  | .createWallet parameters request operator operatorSig now =>
    (AggoraCoin.createWallet C parameters request operator operatorSig now state).1.error?
  | .charge parameters request operator operatorSig guardNow now =>
    (AggoraCoin.charge C parameters request operator operatorSig guardNow now state).1.error?
  | .transfer parameters request now => (AggoraCoin.transfer C parameters request now state).1.error?
  | .burn parameters request now => (AggoraCoin.burn C parameters request now state).1.error?
  | .installSeed parameters seed clock => (AggoraCoin.installSeed C parameters seed clock state).1.error?
  | .executeIterationNow parameters now snapshotNow =>
    (AggoraCoin.executeIterationNow C parameters now snapshotNow state).1.error?
  | .updateParameters _ => none

theorem bind_eq_error_iff {ε α β : Type} {x : Except ε α} {f : α → Except ε β} {e : ε} :
    (x >>= f) = .error e ↔ x = .error e ∨ ∃ a, x = .ok a ∧ f a = .error e := by
  cases x <;> simp [bind, Except.bind]

theorem pure_ne_error {ε α : Type} {a : α} {e : ε} : (pure a : Except ε α) ≠ .error e := by
  simp [pure, Except.pure]

theorem rejectIf_eq_error_iff {rejected : Prop} [Decidable rejected] {e e' : StateError} :
    rejectIf rejected e = .error e' ↔ rejected ∧ e = e' := by
  unfold rejectIf
  split <;> simp_all

theorem okOr_eq_error_iff {α : Type} {found : Option α} {e e' : StateError} :
    okOr found e = .error e' ↔ found = none ∧ e = e' := by
  cases found <;> simp [okOr]

theorem mapErr_eq_error_iff {α : Type} {f : String → StateError} {x : Except String α} {e : StateError} :
    mapErr f x = .error e ↔ ∃ message, x = .error message ∧ f message = e := by
  cases x <;> simp [mapErr]

omit [F64 F] in
/-- A posting that fails could not sign. -/
theorem Posts.free {α : Type} {wallets : List (Wallet F)} {system : SystemState F} {tx : Transaction F} {bytes : Bytes}
    {after : SystemState F → SystemState F} {reply : α} {ran : Outcome α × CoinState F}
    (posts : Posts C state wallets system tx bytes after reply ran) : ran.1.error? ≠ some .iterationInProgress := by
  cases posts with
  | accepted => rintro ⟨⟩
  | stranded => rintro ⟨⟩

theorem verifyUserSignature_error {security : SecurityParameters} {publicKey : String} {txId : Hash} {signature : String}
    {e : StateError} (failed : verifyUserSignature C security publicKey txId signature = .error e) :
    e = .invalidSignature := by
  unfold verifyUserSignature at failed
  split at failed
  · cases failed
  simp only [bind_eq_error_iff, mapErr_eq_error_iff, rejectIf_eq_error_iff] at failed
  rcases failed with ⟨_, _, same⟩ | ⟨_, _, ⟨_, _, same⟩ | ⟨_, _, _, same⟩⟩
  all_goals exact same.symm

theorem transferTxId_error {request : TransferRequest} {e : StateError} (failed : transferTxId C request = .error e) :
    e = .invalidSignature := by
  unfold transferTxId at failed
  split at failed
  · exact (Except.error.inj failed).symm
  · cases failed

theorem burnTxId_error {request : BurnRequest} {e : StateError} (failed : burnTxId C request = .error e) :
    e = .invalidSignature := by
  unfold burnTxId at failed
  split at failed
  · exact (Except.error.inj failed).symm
  · cases failed

omit [F64 F] in
theorem guardOperatorReplay_error {security : SecurityParameters} {signature : String} {timestamp now : Timestamp}
    {e : StateError} {after : CoinState F}
    (failed : guardOperatorReplay security signature timestamp now state = (.error e, after)) :
    e = .invalidSignature := by
  unfold guardOperatorReplay at failed
  dsimp only at failed
  split at failed
  · cases failed
    rfl
  · cases failed

section Free

variable (unlocked : state.system.iterationLock = false) {parameters : SystemParameters F}
include unlocked

theorem createWallet_free {request : WalletCreateRequest} {operator : Operator} {operatorSig : String}
    {now : Timestamp} :
    (createWallet C parameters request operator operatorSig now state).1.error? ≠ some .iterationInProgress := by
  rcases createWallet_cases C state parameters request operator operatorSig now with
    ⟨e, refused, ran⟩ | ⟨plan, reply, _, _, posts⟩
  · rw [ran]
    rintro ⟨⟩
    simp only [planCreateWallet, bind_eq_error_iff, rejectIf_eq_error_iff, mapErr_eq_error_iff, pure_ne_error,
      unlocked, reduceCtorEq, Bool.false_eq_true, and_false, false_and, or_self, exists_false] at refused
  · exact posts.free

theorem charge_free {request : ChargeRequest} {operator : Operator} {operatorSig : String} {guardNow now : Timestamp} :
    (charge C parameters request operator operatorSig guardNow now state).1.error? ≠ some .iterationInProgress := by
  unfold charge
  split
  · rintro ⟨⟩
  obtain ⟨seen, guarded⟩ := guardOperatorReplay_keeps state parameters.security operatorSig request.timestamp guardNow
  cases checked : guardOperatorReplay parameters.security operatorSig request.timestamp guardNow state with
  | mk verdict after =>
    rw [checked] at guarded
    have left : after = state.remembering seen := guarded
    subst left
    cases verdict with
    | error e =>
      rw [guardOperatorReplay_error checked]
      rintro ⟨⟩
    | ok _ =>
      have free : (state.remembering seen).system.iterationLock = false := unlocked
      rcases chargeLocked_cases C (state.remembering seen) request operator operatorSig now with
        ⟨e, refused, ran⟩ | ⟨plan, wallet, reply, _, _, posts⟩
      · simp only [ran]
        rintro ⟨⟩
        simp only [planCharge, bind_eq_error_iff, rejectIf_eq_error_iff, okOr_eq_error_iff, pure_ne_error,
          free, reduceCtorEq, Bool.false_eq_true, and_false, false_and, or_self, exists_false] at refused
      · exact posts.free

theorem transfer_free {request : TransferRequest} {now : Timestamp} :
    (transfer C parameters request now state).1.error? ≠ some .iterationInProgress := by
  rcases transfer_cases C state parameters request now with
    ⟨e, refused, ran⟩ | ⟨plan, key, fromWallet, toWallet, reply, _, _, posts⟩
  · rw [ran]
    rintro ⟨⟩
    have named : transferTxId C request ≠ .error .iterationInProgress := fun failed => by cases transferTxId_error failed
    have signed (txId : Hash) : verifyUserSignature C parameters.security request.senderPubkey txId request.userSig ≠
        .error .iterationInProgress := fun failed => by cases verifyUserSignature_error failed
    simp only [planTransfer, bind_eq_error_iff, rejectIf_eq_error_iff, okOr_eq_error_iff, mapErr_eq_error_iff,
      pure_ne_error, named, signed, unlocked, reduceCtorEq, Bool.false_eq_true, and_false, false_and, or_self,
      exists_false] at refused
  · exact posts.free

theorem burn_free {request : BurnRequest} {now : Timestamp} :
    (burn C parameters request now state).1.error? ≠ some .iterationInProgress := by
  rcases burn_cases C state parameters request now with
    ⟨e, refused, ran⟩ | ⟨plan, key, wallet, reply, _, _, posts⟩
  · rw [ran]
    rintro ⟨⟩
    have named : burnTxId C request ≠ .error .iterationInProgress := fun failed => by cases burnTxId_error failed
    have signed (txId : Hash) : verifyUserSignature C parameters.security request.senderPubkey txId request.userSig ≠
        .error .iterationInProgress := fun failed => by cases verifyUserSignature_error failed
    simp only [planBurn, bind_eq_error_iff, rejectIf_eq_error_iff, okOr_eq_error_iff, mapErr_eq_error_iff,
      pure_ne_error, named, signed, unlocked, reduceCtorEq, Bool.false_eq_true, and_false, false_and, or_self,
      exists_false] at refused
  · exact posts.free

omit unlocked in
/-- The loop of a seed file asks for no lock. -/
theorem installEntries_free {clock : Nat → Timestamp} (entries : List SeedWallet) (installed : Nat) :
    (installEntries C parameters clock entries installed state).1.error? ≠ some .iterationInProgress := by
  induction entries generalizing installed state with
  | nil => rintro ⟨⟩
  | cons wallet rest ih =>
    unfold installEntries
    cases planned : planSeedWallet C parameters wallet (clock (3 * installed)) (clock (3 * installed + 1)) state with
    | error e =>
      rintro ⟨⟩
      simp only [planSeedWallet, bind_eq_error_iff, mapErr_eq_error_iff, reduceCtorEq, and_false, exists_false,
        false_or] at planned
      obtain ⟨_, _, _, _, planned⟩ := planned
      split at planned
      all_goals cases planned
    | ok found =>
      cases found with
      | none => exact ih installed
      | some plan =>
        rcases insertMinted_cases (planSeedWallet_ok planned).1 (clock (3 * installed + 2)) with
          ⟨entry, _, _, ran⟩ | ⟨e, _, ran⟩
        · simp only [ran]
          exact ih (installed + 1)
        · simp only [ran]
          rintro ⟨⟩

theorem installSeed_free {seed : SeedFile} {clock : Nat → Timestamp} :
    (installSeed C parameters seed clock state).1.error? ≠ some .iterationInProgress := by
  unfold installSeed
  rw [if_neg (by simp [unlocked])]
  have loop : (installEntries C parameters clock seed.initialWallets 0 state).1.error? ≠ some .iterationInProgress :=
    installEntries_free seed.initialWallets 0
  cases ran : installEntries C parameters clock seed.initialWallets 0 state with
  | mk outcome after =>
    rw [ran] at loop
    cases outcome with
    | ok => rintro ⟨⟩
    | err e => exact loop
    | panic => rintro ⟨⟩

theorem executeIterationNow_free {now snapshotNow : Timestamp} :
    (executeIterationNow C parameters now snapshotNow state).1.error? ≠ some .iterationInProgress := by
  rcases executeIterationNow_cases C state parameters now snapshotNow with ⟨busy, _⟩ | ⟨_, iterates⟩
  · rw [unlocked] at busy
    cases busy
  generalize executeIterationNow C parameters now snapshotNow state = finished at *
  cases iterates with
  | panicked => rintro ⟨⟩
  | committed => rintro ⟨⟩
  | stranded => rintro ⟨⟩

/-- A free lock refuses no call. -/
theorem Call.free (call : Call F) : call.error? C state ≠ some .iterationInProgress := by
  cases call with
  | createWallet => exact createWallet_free unlocked
  | charge => exact charge_free unlocked
  | transfer => exact transfer_free unlocked
  | burn => exact burn_free unlocked
  | installSeed => exact installSeed_free unlocked
  | executeIterationNow => exact executeIterationNow_free unlocked
  | updateParameters => rintro ⟨⟩

end Free

/-- The lock is free on the disk, and in the node that has it open. -/
structure Host.Unlocked (host : Host F) : Prop where
  stored : ∀ stored, host.storage.trees.state = some stored → stored.iterationLock = false
  running : ∀ state, host.node = some state → state.storage = host.storage ∧ Released state

/-- An iteration is asked for only where it can finish. -/
def Event.Finishes (host : Host F) : Event F → Prop
  | .call (.executeIterationNow parameters _ _) =>
    ∀ state, host.node = some state → AggoraCoin.Finishes parameters state
  | _ => True

omit [F64 F] in
theorem Host.Unlocked.empty : (Host.empty : Host F).Unlocked := by
  constructor
  · intro stored found
    cases found
  · intro state running
    cases running

theorem Host.Unlocked.next {host : Host F} (unlocked : host.Unlocked) {event : Event F}
    (finishes : event.Finishes host) : (host.next C event).Unlocked := by
  cases event with
  | call call =>
    cases running : host.node with
    | none => rwa [next_call_none running]
    | some state =>
      obtain ⟨same, released⟩ := unlocked.running state running
      have free : Released (call.next C state) := (call.script_writes C state).released released fun parameters booked => by
        cases call with
        | executeIterationNow own now snapshotNow =>
          have here : Booking.commit parameters = Booking.commit own := booked
          cases here
          exact finishes state running
        | installSeed own seed clock =>
          obtain ⟨_, _, _, _, other⟩ := booked
          cases other
        | updateParameters => cases booked
        | _ => cases Set.mem_singleton_iff.mp booked
      rw [next_call running]
      constructor
      · intro stored found
        obtain ⟨kept, here, clear⟩ := free.stored
        rw [← Option.some.inj (here.symm.trans found)]
        exact clear
      · rintro after ⟨⟩
        exact ⟨rfl, free⟩
  | restart env config =>
    cases ran : openCoinState C env config host.storage with
    | mk outcome left =>
      cases outcome with
      | error e =>
        obtain ⟨parameters, rfl⟩ := openCoinState_error ran
        rw [next_restart_error ran]
        constructor
        · rw [Storage.trees_writeAll]
          exact unlocked.stored
        · rintro after ⟨⟩
      | ok state =>
        have opened : (openCoinState C env config host.storage).1 = .ok state := congrArg Prod.fst ran
        have start := openCoinState_opened opened
        obtain ⟨same, _⟩ := openCoinState_registry ran
        have free : state.system.iterationLock = false := by
          rw [start.system_eq, recoveredSystem_iterationLock]
          cases found : host.storage.trees.state with
          | none => rfl
          | some stored => exact unlocked.stored stored found
        rw [next_restart ran]
        constructor
        · intro stored found
          have here : state.trees.state = some stored := by rwa [CoinState.trees, same]
          rw [← Option.some.inj (start.stored_eq.symm.trans here)]
          exact free
        · rintro after ⟨⟩
          exact ⟨same, free, state.system, start.stored_eq, free⟩

/-- In every run in which iterations are asked for only where they can finish, the lock is free in
memory and on the disk and no call is refused for it; and the next iteration, whatever way it ends,
releases the lock and rolls back if and only if it can finish. -/
theorem iteration_lock_released {host : Host F} (run : Host.Run C (fun host event => event.Finishes host) host)
    (running : host.node = some state) :
    Released state ∧ (∀ call : Call F, call.error? C state ≠ some .iterationInProgress) ∧
      ∀ (parameters : SystemParameters F) (now snapshotNow : Timestamp),
        Releases C parameters now snapshotNow state ↔ Finishes parameters state := by
  have unlocked : host.Unlocked := run.invariant Host.Unlocked .empty fun _ _ before finishes => before.next finishes
  obtain ⟨_, released⟩ := unlocked.running state running
  exact ⟨released, Call.free released.unlocked, fun _ _ _ => releases_iff released⟩

namespace Concrete

theorem node_released : Released node :=
  ⟨by rw [node_opened.default_eq]; rfl, node.system, node_opened.stored_eq, by rw [node_opened.default_eq]; rfl⟩

theorem parameters_ordered : F64.le parameters.economy.burnMin parameters.economy.burnMax = true := by decide +kernel

/-- After a restart and an iteration over no wallets the next iteration releases the lock too. -/
theorem iteration_lock_released_twice :
    ∃ state, Host.Run crypto (fun host event => event.Finishes host)
        (Host.next crypto (Host.next crypto Host.empty (.restart (fun _ => none) config))
          (.call (.executeIterationNow parameters 0 0))) ∧
      Released state ∧ Releases crypto parameters 0 0 state := by
  have opened : openCoinState crypto (fun _ => none) config (Host.empty : Host ℚ).storage = (.ok node, opened.2) :=
    Prod.ext opened_node rfl
  have finishes : Finishes parameters node := ⟨parameters_ordered, node_formed⟩
  have first : Host.Run crypto (fun host event => event.Finishes host)
      (Host.next crypto Host.empty (.restart (fun _ => none) config)) := .next .start trivial
  have here := Host.next_restart opened
  have second : Host.Run crypto (fun host event => event.Finishes host)
      (Host.next crypto (Host.next crypto Host.empty (.restart (fun _ => none) config))
        (.call (.executeIterationNow parameters 0 0))) := by
    refine .next first fun state running => ?_
    rw [here] at running
    cases running
    exact finishes
  have running : (Host.next crypto (Host.next crypto Host.empty (.restart (fun _ => none) config))
      (.call (.executeIterationNow parameters 0 0))).node =
        some ((Call.executeIterationNow parameters 0 0).next crypto node) := by
    rw [here, Host.next_call rfl]
  obtain ⟨released, _, releases⟩ := iteration_lock_released second running
  have formed : Crypto.WellFormedSecret ((Call.executeIterationNow parameters 0 0).next crypto node).operatorSecret := by
    rw [(Call.sameKeys (C := crypto) node _).operatorSecret_eq]
    exact node_formed
  exact ⟨_, second, released, (releases parameters 0 0).mpr ⟨parameters_ordered, formed⟩⟩

/-- Parameters under which the clamp of the burn rate panics. -/
def invertedParameters : SystemParameters ℚ :=
  { parameters with economy := { parameters.economy with burnMin := 1, burnMax := 0 } }

/-- An iteration under such parameters panics, and from then on every wallet is refused. -/
theorem iteration_lock_kept :
    let state := (Call.updateParameters invertedParameters).next crypto node
    let after := (Call.executeIterationNow invertedParameters 0 0).next crypto state
    ¬ Released after ∧ (firstCall (key 1)).error? crypto after = some .iterationInProgress := by
  intro state after
  have free : state.system.iterationLock = false := node_released.unlocked
  have unordered : F64.le invertedParameters.economy.burnMin invertedParameters.economy.burnMax = false := by decide
  have busy : after.system.iterationLock = true := by
    change (executeIterationNow crypto invertedParameters 0 0 state).2.system.iterationLock = true
    rcases executeIterationNow_cases crypto state invertedParameters 0 0 with ⟨busy, _⟩ | ⟨_, iterates⟩
    · rw [free] at busy
      cases busy
    have ordered {result : IterationResult ℚ} {beta : ℚ} (valid : result.Valid crypto invertedParameters
        state.locked.system state.operatorId state.listWallets beta) :
        F64.le invertedParameters.economy.burnMin invertedParameters.economy.burnMax = true :=
      (isSome_burnRate_iff _ _).mp (Option.isSome_of_eq_some valid.rate)
    generalize executeIterationNow crypto invertedParameters 0 0 state = finished at *
    cases iterates with
    | panicked => rfl
    | committed _ valid =>
      rw [unordered] at ordered
      cases ordered valid
    | stranded _ valid =>
      rw [unordered] at ordered
      cases ordered valid
  refine ⟨fun released => ?_, ?_⟩
  · rw [released.unlocked] at busy
    cases busy
  · have captcha : (trim (walletRequest (key 1)).captchaToken).isEmpty = false := by decide +kernel
    have hex : normalizeBytesToHex (walletRequest (key 1)).publicKey 32 = .ok (Hex.encode (key 1).val) :=
      normalizeBytesToHex_eq_ok_iff.mpr ⟨key 1, fixedBytes_encode (key 1) (by decide), rfl⟩
    have named : crypto.walletIdFromPublicKey (Hex.encode (key 1).val) = .ok (crypto.blake3Hex (key 1).val) :=
      crypto.walletIdFromPublicKey_eq_ok_iff.mpr ⟨key 1, fixedBytes_encode (key 1) (by decide), rfl⟩
    have refused : planCreateWallet crypto parameters (walletRequest (key 1)) operator "" after =
        .error .iterationInProgress := by
      simp only [planCreateWallet, mapErr, hex, named, captcha, busy, rejectIf, Bool.false_eq_true, and_false,
        if_false, if_true, bind, Except.bind]
    simp only [Call.error?, firstCall, createWallet, refused, Outcome.error?]

end Concrete

end AggoraCoin
