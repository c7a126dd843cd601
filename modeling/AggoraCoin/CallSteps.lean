import AggoraCoin.Bookings
import AggoraCoin.CallMoves
import AggoraCoin.Lib.Reach

namespace AggoraCoin

variable {F : Type} [F64 F] {C : Crypto} {state : CoinState F}

/-- The text a synthetic faucet key is the hash of. -/
def faucetLabel (iterationId : IterationId) (idx : Nat) : Bytes :=
  asBytes ("aggora-faucet:" ++ toString iterationId ++ ":" ++ toString idx)

/-- The bytes of a key that decodes. -/
def keyBytes (publicKey : PublicKey) : List Bytes := (fixed32 publicKey).toOption.toList.map Subtype.val

variable (C) in
/-- What an entry hashes besides its payload: the key of the wallet it creates or spends from, and
the labels and keys of the faucet. -/
def Booking.hashes (state : CoinState F) : Booking F → List Bytes
  | .create _ request _ _ => keyBytes request.publicKey
  | .seed _ wallet _ _ => keyBytes wallet.publicKey
  | .charge _ _ _ => []
  | .transfer _ request => keyBytes request.senderPubkey
  | .burn _ request => keyBytes request.senderPubkey
  | .commit parameters =>
    (List.range (plannedNewWallets parameters.growth state.listWallets.length)).flatMap fun idx =>
      [faucetLabel (state.system.currentIteration + 1) idx,
        (faucetKey C (state.system.currentIteration + 1) idx).val]

namespace Call

variable (C) in
/-- The entries a call asks for. A seed file asks for one with each pair of clock readings it takes. -/
def bookings (call : Call F) (state : CoinState F) : Set (Booking F) :=
  match call with
  | createWallet parameters request operator operatorSig _ => {.create parameters request operator operatorSig}
  | charge _ request operator operatorSig _ _ => {.charge request operator operatorSig}
  | transfer parameters request _ => {.transfer parameters.security request}
  | burn parameters request _ => {.burn parameters.security request}
  | installSeed parameters seed clock => {booking | ∃ wallet ∈ seed.initialWallets,
      ∃ installed < (seedPayloads C parameters clock seed.initialWallets 0 state).length,
        booking = .seed parameters wallet (clock (3 * installed)) (clock (3 * installed + 1))}
  | executeIterationNow parameters _ _ => {.commit parameters}
  | updateParameters _ => ∅

variable (C) in
def hashes (call : Call F) (state : CoinState F) : List Bytes :=
  match call with
  | createWallet parameters request operator operatorSig _ =>
    (Booking.create parameters request operator operatorSig).hashes C state
  | transfer parameters request _ => (Booking.transfer parameters.security request).hashes C state
  | burn parameters request _ => (Booking.burn parameters.security request).hashes C state
  | installSeed _ seed _ => seed.initialWallets.flatMap fun wallet => keyBytes wallet.publicKey
  | executeIterationNow parameters _ _ => (Booking.commit parameters).hashes C state
  | _ => []

variable (C) in
/-- The entries of a call: what it asks for, over payloads and inputs that it hashes. -/
structure Admits (call : Call F) (state : CoinState F) (during : CoinState F) (booking : Booking F)
    (sheet : Sheet F) : Prop where
  booked : booking ∈ call.bookings C state
  listed : sheet.payload ∈ call.payloads C state
  hashed : ∀ input ∈ booking.hashes C during, input ∈ call.hashes C state

end Call

variable {admits : CoinState F → Booking F → Sheet F → Prop} {parameters : SystemParameters F}

theorem Posts.steps {α : Type} {booking : Booking F} (sheet : Sheet F) {reply : α} {ran : Outcome α × CoinState F}
    (posts : Posts C state sheet.wallets sheet.system sheet.tx (sheet.payload.bytes C)
      (SystemState.activate sheet.activated) reply ran)
    (books : Books C state booking sheet) (admitted : admits state booking sheet) : Steps C admits state ran.2 := by
  cases posts with
  | @accepted entry formed anchored =>
    exact .tail (.single (.enter books admitted formed anchored)) (.quiet (.storeState _))
  | stranded malformed => exact .single (.strand books admitted malformed)

theorem createWallet_steps (request : WalletCreateRequest) (operator : Operator) (operatorSig : String)
    (now : Timestamp) :
    Steps C ((Call.createWallet parameters request operator operatorSig now).Admits C state) state
      (createWallet C parameters request operator operatorSig now state).2 := by
  rcases createWallet_cases C state parameters request operator operatorSig now with
    ⟨e, _, ran⟩ | ⟨plan, reply, planned, valid, posts⟩
  · rw [ran]
  · have listed : Payload.mint plan.payload ∈
        (Call.createWallet parameters request operator operatorSig now).payloads C state := by
      simp [Call.payloads, planned]
    exact posts.steps ⟨_, _, _, _, 0⟩ (.create planned) ⟨rfl, listed, fun _ member => member⟩

theorem charge_steps (request : ChargeRequest) (operator : Operator) (operatorSig : String)
    (guardNow now : Timestamp) :
    Steps C ((Call.charge parameters request operator operatorSig guardNow now).Admits C state) state
      (charge C parameters request operator operatorSig guardNow now state).2 := by
  unfold charge
  split
  · exact .refl
  obtain ⟨seen, guarded⟩ := guardOperatorReplay_keeps state parameters.security operatorSig request.timestamp guardNow
  cases checked : guardOperatorReplay parameters.security operatorSig request.timestamp guardNow state with
  | mk verdict after =>
    rw [checked] at guarded
    subst guarded
    have kept : Quiet state { state with seenOperatorSigs := seen } :=
      ⟨⟨[], by simp, by simp [Storage.writeAll]⟩, ⟨_, rfl⟩, rfl, rfl, rfl⟩
    cases verdict with
    | error e => exact .single (.quiet kept)
    | ok _ =>
      refine .head (.quiet kept) ?_
      rcases chargeLocked_cases C { state with seenOperatorSigs := seen } request operator operatorSig now with
        ⟨e, _, ran⟩ | ⟨plan, wallet, reply, planned, valid, posts⟩
      · simp only [ran]
        exact .refl
      · have listed : Payload.mint plan.payload ∈
            (Call.charge parameters request operator operatorSig guardNow now).payloads C state := by
          have same : planCharge C request operator operatorSig state = .ok plan := planned
          simp [Call.payloads, same]
        exact posts.steps ⟨_, _, _, _, 0⟩ (.charge planned) ⟨rfl, listed, by simp [Booking.hashes]⟩

theorem transfer_steps (request : TransferRequest) (now : Timestamp) :
    Steps C ((Call.transfer parameters request now).Admits C state) state
      (transfer C parameters request now state).2 := by
  rcases transfer_cases C state parameters request now with
    ⟨e, _, ran⟩ | ⟨plan, key, fromWallet, toWallet, reply, planned, valid, posts⟩
  · rw [ran]
  · have listed : Payload.transfer (request.payload (Hex.encode key.val)) ∈
        (Call.transfer parameters request now).payloads C state := by
      have hex := normalizeBytesToHex_eq_ok_iff.mpr ⟨key, valid.sender_key, rfl⟩
      simp [Call.payloads, hex]
    exact posts.steps ⟨_, _, _, _, _⟩ (.transfer valid) ⟨rfl, listed, fun _ member => member⟩

theorem burn_steps (request : BurnRequest) (now : Timestamp) :
    Steps C ((Call.burn parameters request now).Admits C state) state (burn C parameters request now state).2 := by
  rcases burn_cases C state parameters request now with
    ⟨e, _, ran⟩ | ⟨plan, key, wallet, reply, planned, valid, posts⟩
  · rw [ran]
  · have listed : Payload.burn (request.payload (Hex.encode key.val)) ∈
        (Call.burn parameters request now).payloads C state := by
      have hex := normalizeBytesToHex_eq_ok_iff.mpr ⟨key, valid.sender_key, rfl⟩
      simp [Call.payloads, hex]
    exact posts.steps ⟨_, _, _, _, _⟩ (.burn valid) ⟨rfl, listed, fun _ member => member⟩

variable {clock : Nat → Timestamp}

/-- The entries still to come are those of a suffix of the seed file, and the readings they take
are counted by the wallets installed. -/
theorem installEntries_steps (entries : List SeedWallet) (installed : Nat)
    (admitted : ∀ (during : CoinState F) (sheet : Sheet F) (wallet : SeedWallet) (count : Nat), wallet ∈ entries →
      count < installed + (Call.seedPayloads C parameters clock entries installed state).length →
      sheet.payload ∈ Call.seedPayloads C parameters clock entries installed state →
      admits during (.seed parameters wallet (clock (3 * count)) (clock (3 * count + 1))) sheet) :
    Steps C admits state (installEntries C parameters clock entries installed state).2 := by
  induction entries generalizing installed state with
  | nil => exact .refl
  | cons wallet rest ih =>
    unfold installEntries
    unfold Call.seedPayloads at admitted
    cases planned : planSeedWallet C parameters wallet (clock (3 * installed)) (clock (3 * installed + 1)) state with
    | error e => exact .refl
    | ok found =>
      rw [planned] at admitted
      cases found with
      | none =>
        refine ih installed fun during sheet later count member before listed => ?_
        exact admitted during sheet later count (List.mem_cons_of_mem _ member) before listed
      | some plan =>
        have valid := (planSeedWallet_ok planned).1
        have first := admitted state ⟨[plan.wallet], state.system.mint plan.wallet.balance, .mint plan.tx,
          .mint plan.payload, 0⟩ wallet installed (List.mem_cons_self ..) (by rw [List.length_cons]; omega)
          (List.mem_cons_self ..)
        rcases insertMinted_cases valid (clock (3 * installed + 2)) with
          ⟨anchor, formed, anchored, ran⟩ | ⟨e, malformed, ran⟩
        · simp only [ran] at admitted ⊢
          refine .head (.enter (.seed planned) first formed anchored) (ih (installed + 1) ?_)
          intro during sheet later count member before listed
          have bound : count < installed + 1 + (Call.seedPayloads C parameters clock rest (installed + 1)
              (state.posted [plan.wallet] (state.system.mint plan.wallet.balance) (.mint plan.tx) anchor)).length := before
          refine admitted during sheet later count (List.mem_cons_of_mem _ member) ?_ (List.mem_cons_of_mem _ listed)
          rw [List.length_cons]
          omega
        · simp only [ran]
          exact .single (.strand (.seed planned) first malformed)

theorem installSeed_steps (seed : SeedFile) :
    Steps C ((Call.installSeed parameters seed clock).Admits C state) state
      (installSeed C parameters seed clock state).2 := by
  unfold installSeed
  by_cases busy : state.system.iterationLock = true
  · simp only [busy, if_true]
    exact .refl
  · simp only [busy]
    have loop : Steps C ((Call.installSeed parameters seed clock).Admits C state) state
        (installEntries C parameters clock seed.initialWallets 0 state).2 := by
      refine installEntries_steps seed.initialWallets 0 fun during sheet wallet count member before listed => ?_
      refine ⟨⟨wallet, member, count, by omega, rfl⟩, ?_, fun input hashed => ?_⟩
      · simpa [Call.payloads, busy] using listed
      · exact List.mem_flatMap.mpr ⟨wallet, member, hashed⟩
    cases ran : installEntries C parameters clock seed.initialWallets 0 state with
    | mk outcome after =>
      rw [ran] at loop
      cases outcome with
      | ok installed => exact .tail loop (.quiet (.storeState after))
      | err e => exact loop
      | panic => exact loop

theorem executeIterationNow_steps (now snapshotNow : Timestamp) :
    Steps C ((Call.executeIterationNow parameters now snapshotNow).Admits C state) state
      (executeIterationNow C parameters now snapshotNow state).2 := by
  have scan := CoinState.listWallets_locked state
  rcases executeIterationNow_cases C state parameters now snapshotNow with ⟨_, ran⟩ | ⟨unlocked, iterates⟩
  · rw [ran]
  generalize executeIterationNow C parameters now snapshotNow state = finished at *
  have admitted {result : IterationResult F}
      (ran : executeIteration C state.listWallets parameters state.locked.system state.operatorId = .ok result) :
      (Call.executeIterationNow parameters now snapshotNow).Admits C state state.locked (.commit parameters)
        ⟨result.wallets, commitSystem state.locked.system result, .iterationCommit result.commit,
          .commit result.commit, 0⟩ := by
    refine ⟨rfl, ?_, fun input hashed => ?_⟩
    · simp [Call.payloads, unlocked, ran]
    · simp only [Booking.hashes, scan] at hashed
      exact hashed
  cases iterates with
  | panicked => exact .single (.quiet (.locked state))
  | committed ran valid formed anchored closes =>
    rw [← scan] at valid
    refine .head (.quiet (.locked state)) (.tail (.single (.enter (.commit valid) (admitted ran) formed anchored))
      (.quiet (.writeAll ?_ _)))
    simpa [Write.aside] using closes.aside
  | stranded ran valid malformed =>
    rw [← scan] at valid
    exact .head (.quiet (.locked state)) (.single (.strand (.commit valid) (admitted ran) malformed))

theorem Call.steps (call : Call F) : Steps C (call.Admits C state) state (call.next C state) := by
  cases call with
  | createWallet => exact createWallet_steps _ _ _ _
  | charge => exact charge_steps _ _ _ _ _
  | transfer => exact transfer_steps _ _
  | burn => exact burn_steps _ _
  | installSeed => exact installSeed_steps _
  | executeIterationNow => exact executeIterationNow_steps _ _
  | updateParameters parameters =>
    refine .single (.quiet ⟨⟨[.parameters parameters], ?_, rfl⟩, ⟨_, rfl⟩, rfl, rfl, rfl⟩)
    simp [Write.aside]

variable (admits) in
/-- A run whose calls are all allowed is one chain of the steps those calls admit. -/
theorem steps_of_reach {allowed : CoinState F → Call F → Prop} {start : CoinState F}
    (reach : Reach (fun state call => Call.next C call state) allowed start state)
    (implied : ∀ state call, allowed state call → ∀ during booking sheet,
      call.Admits C state during booking sheet → admits during booking sheet) : Steps C admits start state := by
  induction reach with
  | start => exact .refl
  | @next before call _ admitted ih => exact ih.trans (call.steps.mono (implied before call admitted))

end AggoraCoin
