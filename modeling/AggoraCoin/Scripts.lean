import AggoraCoin.CallSteps

namespace AggoraCoin

variable {F : Type} [F64 F] {C : Crypto} {state : CoinState F}

namespace CoinState

/-- The writes of one entry, in program order. -/
def entryWrites (sheet : Sheet F) (entry : PohEntry) : List (Write F) :=
  postingWrites sheet.wallets sheet.system sheet.tx entry

/-- The replay guard's memory is replaced. -/
def remembering (seen : String → Option Timestamp) (state : CoinState F) : CoinState F :=
  { state with seenOperatorSigs := seen }

omit [F64 F] in
theorem storage_enter (sheet : Sheet F) (entry : PohEntry) (state : CoinState F) :
    (state.enter sheet entry).storage = state.storage.writeAll (entryWrites sheet entry) := rfl

omit [F64 F] in
theorem storage_stranded (wallets : List (Wallet F)) (system : SystemState F) (state : CoinState F) :
    (state.stranded wallets system).storage = state.storage.writeAll (wallets.map .wallet) := rfl

end CoinState

open CoinState

variable (C) in
/-- The entries of a seed file that were installed. -/
inductive Installs (bookings : Set (Booking F)) : CoinState F → List (Write F) → CoinState F → Prop
  | none {state : CoinState F} : Installs bookings state [] state
  | entry {state after : CoinState F} {parameters : SystemParameters F} {wallet : SeedWallet}
      {hashed stored : Timestamp} {sheet : Sheet F} {entry : PohEntry} {writes : List (Write F)}
      (books : Books C state (.seed parameters wallet hashed stored) sheet)
      (booked : .seed parameters wallet hashed stored ∈ bookings)
      (formed : Crypto.WellFormedSecret state.operatorSecret)
      (anchored : C.Anchors sheet.system.lastPohHash (sheet.system.currentTick + 1) (sheet.payload.bytes C)
        state.validatorId entry)
      (rest : Installs bookings (state.enter sheet entry) writes after) :
      Installs bookings state (entryWrites sheet entry ++ writes) after

variable (C) in
/-- The ways a call can end, with what it has written by then. -/
inductive Script (bookings : Set (Booking F)) (state : CoinState F) : List (Write F) → CoinState F → Prop
  | refused (seen : String → Option Timestamp) : Script bookings state [] (state.remembering seen)
  | parameters (parameters : SystemParameters F) :
      Script bookings state [.parameters parameters] (updateParameters parameters state)
  | accepted (seen : String → Option Timestamp) {booking : Booking F} {sheet : Sheet F} {entry : PohEntry}
      (books : Books C (state.remembering seen) booking sheet) (booked : booking ∈ bookings)
      (formed : Crypto.WellFormedSecret state.operatorSecret)
      (anchored : C.Anchors sheet.system.lastPohHash (sheet.system.currentTick + 1) (sheet.payload.bytes C)
        state.validatorId entry) :
      Script bookings state
        (entryWrites sheet entry ++ [.state ((state.remembering seen).enter sheet entry).system])
        ((state.remembering seen).enter sheet entry).storeState
  | stranded (seen : String → Option Timestamp) {booking : Booking F} {sheet : Sheet F}
      (books : Books C (state.remembering seen) booking sheet) (booked : booking ∈ bookings)
      (malformed : ¬ Crypto.WellFormedSecret state.operatorSecret) :
      Script bookings state (sheet.wallets.map .wallet)
        ((state.remembering seen).stranded sheet.wallets sheet.system)
  | seeded {after : CoinState F} {writes : List (Write F)} (installs : Installs C bookings state writes after) :
      Script bookings state (writes ++ [.state after.system]) after.storeState
  /-- A later entry of the seed file does not parse. -/
  | seedRefused {after : CoinState F} {writes : List (Write F)} (installs : Installs C bookings state writes after) :
      Script bookings state writes after
  | panicked (parameters : SystemParameters F) (booked : Booking.commit parameters ∈ bookings)
      (unordered : F64.le parameters.economy.burnMin parameters.economy.burnMax = false) :
      Script bookings state [.state state.locked.system] state.locked
  | committed {parameters : SystemParameters F} {sheet : Sheet F} {entry : PohEntry} {commit : IterationCommit F}
      {closing : List (Write F)} (unlocked : state.system.iterationLock = false)
      (books : Books C state.locked (.commit parameters) sheet) (booked : .commit parameters ∈ bookings)
      (commits : sheet.tx = .iterationCommit commit) (formed : Crypto.WellFormedSecret state.operatorSecret)
      (anchored : C.Anchors sheet.system.lastPohHash (sheet.system.currentTick + 1) (sheet.payload.bytes C)
        state.validatorId entry) (closes : Closing closing) :
      Script bookings state
        (.state state.locked.system :: (entryWrites sheet entry ++
          (.iteration commit :: .state (state.locked.enter sheet entry).system :: closing)))
        ((state.locked.enter sheet entry).writeAll
          (.iteration commit :: .state (state.locked.enter sheet entry).system :: closing))
  | commitStranded {parameters : SystemParameters F} {sheet : Sheet F}
      (books : Books C state.locked (.commit parameters) sheet) (booked : .commit parameters ∈ bookings)
      (malformed : ¬ Crypto.WellFormedSecret state.operatorSecret) :
      Script bookings state (.state state.locked.system :: sheet.wallets.map .wallet)
        (state.locked.stranded sheet.wallets sheet.system)

omit [F64 F] in
theorem Storage.writeAll_append (storage : Storage F) (ws vs : List (Write F)) :
    (storage.writeAll ws).writeAll vs = storage.writeAll (ws ++ vs) := by
  simp only [Storage.writeAll, List.append_assoc]

theorem Installs.storage_eq {bookings : Set (Booking F)} {writes : List (Write F)} {after : CoinState F}
    (installs : Installs C bookings state writes after) : after.storage = state.storage.writeAll writes := by
  induction installs with
  | none => exact (congrArg Storage.mk (List.append_nil _)).symm
  | entry _ _ _ _ _ ih => rw [ih, storage_enter, Storage.writeAll_append]

/-- Nothing but the script is written. -/
theorem Script.storage_eq {bookings : Set (Booking F)} {writes : List (Write F)} {after : CoinState F}
    (script : Script C bookings state writes after) : after.storage = state.storage.writeAll writes := by
  cases script with
  | refused => exact (congrArg Storage.mk (List.append_nil _)).symm
  | parameters => rfl
  | accepted => exact Storage.writeAll_append _ _ _
  | stranded => rfl
  | seeded installs =>
    rw [← Storage.writeAll_append, ← installs.storage_eq]
    rfl
  | seedRefused installs => exact installs.storage_eq
  | panicked => rfl
  | committed =>
    have locking : state.locked.storage = state.storage.writeAll [.state state.locked.system] := rfl
    rw [writeAll, storage_enter, locking, Storage.writeAll_append, Storage.writeAll_append]
    rfl
  | commitStranded => exact Storage.writeAll_append _ [_] _

section Calls

variable {bookings : Set (Booking F)} {parameters : SystemParameters F}

theorem Posts.script {α : Type} (seen : String → Option Timestamp) {booking : Booking F} (sheet : Sheet F) {reply : α}
    {ran : Outcome α × CoinState F}
    (posts : Posts C (state.remembering seen) sheet.wallets sheet.system sheet.tx (sheet.payload.bytes C)
      (SystemState.activate sheet.activated) reply ran)
    (books : Books C (state.remembering seen) booking sheet) (booked : booking ∈ bookings) :
    ∃ writes, Script C bookings state writes ran.2 := by
  cases posts with
  | accepted formed anchored => exact ⟨_, .accepted seen books booked formed anchored⟩
  | stranded malformed => exact ⟨_, .stranded seen books booked malformed⟩

theorem createWallet_script (request : WalletCreateRequest) (operator : Operator) (operatorSig : String)
    (now : Timestamp) :
    ∃ writes, Script C ((Call.createWallet parameters request operator operatorSig now).bookings C state) state writes
      (createWallet C parameters request operator operatorSig now state).2 := by
  rcases createWallet_cases C state parameters request operator operatorSig now with
    ⟨e, _, ran⟩ | ⟨plan, reply, planned, valid, posts⟩
  · rw [ran]
    exact ⟨[], .refused state.seenOperatorSigs⟩
  · exact Posts.script state.seenOperatorSigs ⟨_, _, _, _, 0⟩ posts (.create planned) rfl

variable (C state parameters) in
/-- A charge that gets past the replay guard is posted in the state the guard leaves. -/
theorem charge_cases (request : ChargeRequest) (operator : Operator) (operatorSig : String)
    (guardNow now : Timestamp) :
    (∃ seen e, charge C parameters request operator operatorSig guardNow now state = (.err e, state.remembering seen) ∧
      ¬ (request.amount ≠ 0 ∧
        (guardOperatorReplay parameters.security operatorSig request.timestamp guardNow state).1 = .ok () ∧
        ∃ plan, planCharge C request operator operatorSig state = .ok plan)) ∨
    ∃ seen plan wallet reply, request.amount ≠ 0 ∧
      (guardOperatorReplay parameters.security operatorSig request.timestamp guardNow state).1 = .ok () ∧
      planCharge C request operator operatorSig (state.remembering seen) = .ok plan ∧
      plan.Valid C request (state.remembering seen) wallet ∧
      Posts C (state.remembering seen) [plan.wallet] (state.system.credit request.amount) (.mint plan.tx)
        ((Payload.mint plan.payload : Payload F).bytes C) (SystemState.activate 0) reply
        (charge C parameters request operator operatorSig guardNow now state) := by
  unfold charge
  by_cases zero : request.amount = 0
  · rw [if_pos zero]
    exact Or.inl ⟨state.seenOperatorSigs, _, rfl, fun passed => passed.1 zero⟩
  rw [if_neg zero]
  obtain ⟨seen, guarded⟩ := guardOperatorReplay_keeps state parameters.security operatorSig request.timestamp guardNow
  cases checked : guardOperatorReplay parameters.security operatorSig request.timestamp guardNow state with
  | mk verdict after =>
    rw [checked] at guarded
    have left : after = state.remembering seen := guarded
    subst left
    cases verdict with
    | error e => exact Or.inl ⟨seen, e, rfl, fun passed => by cases passed.2.1⟩
    | ok _ =>
      rcases chargeLocked_cases C (state.remembering seen) request operator operatorSig now with
        ⟨e, refused, ran⟩ | ⟨plan, wallet, reply, planned, valid, posts⟩
      · refine Or.inl ⟨seen, e, ran, ?_⟩
        rintro ⟨_, _, plan, planned⟩
        have same : planCharge C request operator operatorSig state = .error e := refused
        cases same.symm.trans planned
      · exact Or.inr ⟨seen, plan, wallet, reply, zero, rfl, planned, valid, posts⟩

theorem charge_script (request : ChargeRequest) (operator : Operator) (operatorSig : String)
    (guardNow now : Timestamp) :
    ∃ writes, Script C ((Call.charge parameters request operator operatorSig guardNow now).bookings C state) state
      writes (charge C parameters request operator operatorSig guardNow now state).2 := by
  rcases charge_cases C state parameters request operator operatorSig guardNow now with
    ⟨seen, e, ran, _⟩ | ⟨seen, plan, wallet, reply, _, _, planned, _, posts⟩
  · rw [ran]
    exact ⟨[], .refused seen⟩
  · exact Posts.script seen ⟨_, _, _, _, 0⟩ posts (.charge planned) rfl

theorem transfer_script (request : TransferRequest) (now : Timestamp) :
    ∃ writes, Script C ((Call.transfer parameters request now).bookings C state) state writes
      (transfer C parameters request now state).2 := by
  rcases transfer_cases C state parameters request now with
    ⟨e, _, ran⟩ | ⟨plan, key, fromWallet, toWallet, reply, planned, valid, posts⟩
  · rw [ran]
    exact ⟨[], .refused state.seenOperatorSigs⟩
  · exact Posts.script state.seenOperatorSigs ⟨_, _, _, _, _⟩ posts (.transfer valid) rfl

theorem burn_script (request : BurnRequest) (now : Timestamp) :
    ∃ writes, Script C ((Call.burn parameters request now).bookings C state) state writes
      (burn C parameters request now state).2 := by
  rcases burn_cases C state parameters request now with
    ⟨e, _, ran⟩ | ⟨plan, key, wallet, reply, planned, valid, posts⟩
  · rw [ran]
    exact ⟨[], .refused state.seenOperatorSigs⟩
  · exact Posts.script state.seenOperatorSigs ⟨_, _, _, _, _⟩ posts (.burn valid) rfl

/-- With a secret that cannot sign, the first wallet to install strands; else the entries of a
seed file are installed up to the first that does not parse. -/
theorem installEntries_script {clock : Nat → Timestamp} (entries : List SeedWallet) (installed : Nat)
    (booked : ∀ wallet ∈ entries, ∀ count,
      count < installed + (Call.seedPayloads C parameters clock entries installed state).length →
        Booking.seed parameters wallet (clock (3 * count)) (clock (3 * count + 1)) ∈ bookings) :
    (∃ writes, Installs C bookings state writes (installEntries C parameters clock entries installed state).2) ∨
    ∃ booking sheet, Books C state booking sheet ∧ booking ∈ bookings ∧ ¬ Crypto.WellFormedSecret state.operatorSecret ∧
      (installEntries C parameters clock entries installed state).2 = state.stranded sheet.wallets sheet.system ∧
        ∃ e, (installEntries C parameters clock entries installed state).1 = .err e := by
  induction entries generalizing installed state with
  | nil => exact Or.inl ⟨[], .none⟩
  | cons wallet rest ih =>
    unfold installEntries
    unfold Call.seedPayloads at booked
    cases planned : planSeedWallet C parameters wallet (clock (3 * installed)) (clock (3 * installed + 1)) state with
    | error e => exact Or.inl ⟨[], .none⟩
    | ok found =>
      rw [planned] at booked
      cases found with
      | none => exact ih installed fun later member => booked later (List.mem_cons_of_mem _ member)
      | some plan =>
        have valid := (planSeedWallet_ok planned).1
        have first := booked wallet (List.mem_cons_self ..) installed (by rw [List.length_cons]; omega)
        rcases insertMinted_cases valid (clock (3 * installed + 2)) with
          ⟨anchor, formed, anchored, ran⟩ | ⟨e, malformed, ran⟩
        · simp only [ran] at booked ⊢
          have later : ∀ wallet ∈ rest, ∀ count, count < installed + 1 + (Call.seedPayloads C parameters clock rest
              (installed + 1) (state.posted [plan.wallet] (state.system.mint plan.wallet.balance) (.mint plan.tx)
                anchor)).length →
              Booking.seed parameters wallet (clock (3 * count)) (clock (3 * count + 1)) ∈ bookings := by
            intro wallet member count before
            refine booked wallet (List.mem_cons_of_mem _ member) count ?_
            rw [List.length_cons]
            omega
          rcases ih (installed + 1) later with ⟨writes, installs⟩ | ⟨_, _, _, _, malformed, _⟩
          · exact Or.inl ⟨_, .entry (.seed planned) first formed anchored installs⟩
          · exact absurd formed malformed
        · simp only [ran]
          exact Or.inr ⟨_, _, .seed planned, first, malformed, rfl, _, rfl⟩

theorem installSeed_script (seed : SeedFile) (clock : Nat → Timestamp) :
    ∃ writes, Script C ((Call.installSeed parameters seed clock).bookings C state) state writes
      (installSeed C parameters seed clock state).2 := by
  unfold installSeed
  by_cases busy : state.system.iterationLock = true
  · rw [if_pos busy]
    exact ⟨[], .refused state.seenOperatorSigs⟩
  rw [if_neg busy]
  have booked : ∀ wallet ∈ seed.initialWallets, ∀ count,
      count < 0 + (Call.seedPayloads C parameters clock seed.initialWallets 0 state).length →
        Booking.seed parameters wallet (clock (3 * count)) (clock (3 * count + 1)) ∈
          (Call.installSeed parameters seed clock).bookings C state :=
    fun wallet member count before => ⟨wallet, member, count, by omega, rfl⟩
  have loop := installEntries_script seed.initialWallets 0 booked
  cases ran : installEntries C parameters clock seed.initialWallets 0 state with
  | mk outcome after =>
    rw [ran] at loop
    rcases loop with ⟨writes, installs⟩ | ⟨booking, sheet, books, booked, malformed, left, e, failed⟩
    · cases outcome with
      | ok installed => exact ⟨_, .seeded installs⟩
      | err e => exact ⟨_, .seedRefused installs⟩
      | panic => exact ⟨_, .seedRefused installs⟩
    · have outcomes : outcome = .err e := failed
      have afters : after = state.stranded sheet.wallets sheet.system := left
      rw [outcomes, afters]
      exact ⟨_, .stranded state.seenOperatorSigs books booked malformed⟩

theorem executeIterationNow_script (now snapshotNow : Timestamp) :
    ∃ writes, Script C ((Call.executeIterationNow parameters now snapshotNow).bookings C state) state writes
      (executeIterationNow C parameters now snapshotNow state).2 := by
  have scan := CoinState.listWallets_locked state
  rcases executeIterationNow_cases C state parameters now snapshotNow with ⟨_, ran⟩ | ⟨unlocked, iterates⟩
  · rw [ran]
    exact ⟨[], .refused state.seenOperatorSigs⟩
  generalize executeIterationNow C parameters now snapshotNow state = finished at *
  cases iterates with
  | panicked unordered => exact ⟨_, .panicked parameters rfl unordered⟩
  | committed ran valid formed anchored closes =>
    rw [← scan] at valid
    exact ⟨_, .committed unlocked (.commit valid) rfl rfl formed anchored closes⟩
  | stranded ran valid malformed =>
    rw [← scan] at valid
    exact ⟨_, .commitStranded (.commit valid) rfl malformed⟩

end Calls

variable (C state) in
theorem Call.script (call : Call F) : ∃ writes, Script C (call.bookings C state) state writes (call.next C state) := by
  cases call with
  | createWallet => exact createWallet_script _ _ _ _
  | charge => exact charge_script _ _ _ _ _
  | transfer => exact transfer_script _ _
  | burn => exact burn_script _ _
  | installSeed => exact installSeed_script _ _
  | executeIterationNow => exact executeIterationNow_script _ _
  | updateParameters parameters => exact ⟨_, .parameters parameters⟩

/-- The key writes of a call, in program order. -/
def Call.writes (C : Crypto) (call : Call F) (state : CoinState F) : List (Write F) :=
  (call.next C state).storage.journal.drop state.storage.journal.length

variable (C state) in
theorem Call.script_writes (call : Call F) :
    Script C (call.bookings C state) state (call.writes C state) (call.next C state) := by
  obtain ⟨writes, script⟩ := call.script C state
  have same : call.writes C state = writes := by
    rw [Call.writes, script.storage_eq, Storage.journal_writeAll, List.drop_left]
  rwa [same]

theorem Call.storage_eq (call : Call F) :
    (call.next C state).storage = state.storage.writeAll (call.writes C state) :=
  (call.script_writes C state).storage_eq

omit [F64 F] in
/-- One entry writes wallets, its transaction with the index keys, and its place in the log. -/
theorem mem_entryWrites {sheet : Sheet F} {entry : PohEntry} {write : Write F}
    (member : write ∈ entryWrites sheet entry) :
    (∃ wallet ∈ sheet.wallets, write = .wallet wallet) ∨ write = .transaction sheet.tx ∨
      (∃ key txId, write = .txByWallet key txId) ∨ write = .pohEntry entry := by
  simp only [entryWrites, postingWrites, transactionWrites, List.mem_append, List.mem_map, List.mem_cons,
    List.not_mem_nil, or_false] at member
  rcases member with ⟨wallet, listed, rfl⟩ | (rfl | ⟨key, _, rfl⟩) | rfl
  · exact Or.inl ⟨wallet, listed, rfl⟩
  · exact Or.inr (Or.inl rfl)
  · exact Or.inr (Or.inr (Or.inl ⟨_, _, rfl⟩))
  · exact Or.inr (Or.inr (Or.inr rfl))

/-- The registry of operators and validators. -/
def Write.registers : Write F → Bool
  | .operator _ => true
  | .validator _ => true
  | _ => false

omit [F64 F] in
theorem entryWrites_registers {sheet : Sheet F} {entry : PohEntry} :
    ∀ write ∈ entryWrites sheet entry, write.registers = false := by
  intro write member
  rcases mem_entryWrites member with ⟨wallet, _, rfl⟩ | rfl | ⟨key, txId, rfl⟩ | rfl
  all_goals rfl

omit [F64 F] in
theorem walletWrites_registers {wallets : List (Wallet F)} :
    ∀ write ∈ wallets.map Write.wallet, write.registers = false := by
  intro write member
  obtain ⟨wallet, _, rfl⟩ := List.mem_map.mp member
  rfl

theorem Installs.registers {bookings : Set (Booking F)} {writes : List (Write F)} {after : CoinState F}
    (installs : Installs C bookings state writes after) : ∀ write ∈ writes, write.registers = false := by
  induction installs with
  | none => simp
  | entry _ _ _ _ _ ih =>
    intro write member
    exact (List.mem_append.mp member).elim (entryWrites_registers write) (ih write)

theorem Script.registers {bookings : Set (Booking F)} {writes : List (Write F)} {after : CoinState F}
    (script : Script C bookings state writes after) : ∀ write ∈ writes, write.registers = false := by
  have single {write : Write F} (plain : write.registers = false) : ∀ w ∈ [write], w.registers = false := by
    simpa using plain
  intro write member
  cases script with
  | refused => cases member
  | parameters => exact single rfl write member
  | accepted => exact (List.mem_append.mp member).elim (entryWrites_registers write) (single rfl write)
  | stranded => exact walletWrites_registers write member
  | seeded installs => exact (List.mem_append.mp member).elim (installs.registers write) (single rfl write)
  | seedRefused installs => exact installs.registers write member
  | panicked => exact single rfl write member
  | committed _ _ _ _ _ _ closes =>
    rcases List.mem_cons.mp member with rfl | member
    · rfl
    rcases List.mem_append.mp member with entered | member
    · exact entryWrites_registers write entered
    rcases List.mem_cons.mp member with rfl | member
    · rfl
    rcases List.mem_cons.mp member with rfl | member
    · rfl
    rcases closes with rfl | ⟨taken, rfl⟩
    · cases member
    · exact single rfl write member
  | commitStranded =>
    rcases List.mem_cons.mp member with rfl | member
    · rfl
    · exact walletWrites_registers write member

omit [F64 F] in
theorem operators_applyAll {writes : List (Write F)} (plain : ∀ write ∈ writes, write.registers = false) (t : Trees F) :
    (t.applyAll writes).operators = t.operators := by
  induction writes generalizing t with
  | nil => rfl
  | cons write rest ih =>
    rw [Trees.applyAll_cons, ih fun w member => plain w (List.mem_cons_of_mem _ member)]
    have here := plain write (List.mem_cons_self ..)
    cases write with
    | operator => cases here
    | _ => rfl

/-- The keys a node was opened with. -/
structure SameKeys (state after : CoinState F) : Prop where
  operatorSecret_eq : after.operatorSecret = state.operatorSecret
  operatorPublicKey_eq : after.operatorPublicKey = state.operatorPublicKey
  operatorId_eq : after.operatorId = state.operatorId
  validatorId_eq : after.validatorId = state.validatorId

theorem Installs.sameKeys {bookings : Set (Booking F)} {writes : List (Write F)} {after : CoinState F}
    (installs : Installs C bookings state writes after) : SameKeys state after := by
  induction installs with
  | none => exact ⟨rfl, rfl, rfl, rfl⟩
  | entry _ _ _ _ _ ih => exact ⟨ih.operatorSecret_eq, ih.operatorPublicKey_eq, ih.operatorId_eq, ih.validatorId_eq⟩

theorem Script.sameKeys {bookings : Set (Booking F)} {writes : List (Write F)} {after : CoinState F}
    (script : Script C bookings state writes after) : SameKeys state after := by
  cases script with
  | seeded installs =>
    have same := installs.sameKeys
    exact ⟨same.operatorSecret_eq, same.operatorPublicKey_eq, same.operatorId_eq, same.validatorId_eq⟩
  | seedRefused installs => exact installs.sameKeys
  | _ => exact ⟨rfl, rfl, rfl, rfl⟩

variable (state) in
theorem Call.sameKeys (call : Call F) : SameKeys state (call.next C state) := by
  exact (call.script_writes C state).sameKeys

variable (state) in
/-- No call changes the operator registry. -/
theorem Call.registry_eq (call : Call F) : (call.next C state).trees.operators = state.trees.operators := by
  rw [CoinState.trees, call.storage_eq, Storage.trees_writeAll]
  exact operators_applyAll (call.script_writes C state).registers _

end AggoraCoin
