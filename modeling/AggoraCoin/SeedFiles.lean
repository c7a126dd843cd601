import AggoraCoin.CachedSupply
import AggoraCoin.CommitAgreement
import AggoraCoin.Rejections
import AggoraCoin.IterationLock

namespace AggoraCoin

variable {F : Type} [F64 F] {C : Crypto} {state : CoinState F} {parameters : SystemParameters F}
  {clock : Nat → Timestamp}

/-- The public key of the entry decodes to 32 bytes. -/
def SeedWallet.Decodes (entry : SeedWallet) : Prop := ∃ key, fixed32 entry.publicKey = .ok key

/-- The entry decodes, and its wallet is stored already. -/
def SeedWallet.Present (C : Crypto) (state : CoinState F) (entry : SeedWallet) : Prop :=
  ∃ key, fixed32 entry.publicKey = .ok key ∧ (state.getWallet (C.blake3Hex key.val)).isSome

/-- Every entry before the first one that does not decode names a stored wallet. -/
def Untouched (C : Crypto) (state : CoinState F) : List SeedWallet → Prop
  | [] => True
  | entry :: rest => ¬ entry.Decodes ∨ entry.Present C state ∧ Untouched C state rest

/-- Where a seed file cannot leave half of its work behind. -/
def SeedSafe (C : Crypto) (state : CoinState F) (seed : SeedFile) : Prop :=
  state.system.iterationLock = true ∨
    (Crypto.WellFormedSecret state.operatorSecret ∧ ∀ entry ∈ seed.initialWallets, entry.Decodes) ∨
    Untouched C state seed.initialWallets

omit [F64 F] in
theorem SeedWallet.Present.decodes {entry : SeedWallet} (present : entry.Present C state) : entry.Decodes := by
  obtain ⟨key, read, _⟩ := present
  exact ⟨key, read⟩

variable (C state parameters) in
/-- An entry does not decode, is skipped, or is installed. -/
theorem planSeedWallet_cases (entry : SeedWallet) (hashed stored : Timestamp) :
    (¬ entry.Decodes ∧ ∃ e, planSeedWallet C parameters entry hashed stored state = .error e) ∨
    (entry.Present C state ∧ planSeedWallet C parameters entry hashed stored state = .ok none) ∨
    (entry.Decodes ∧ ¬ entry.Present C state ∧
      ∃ plan, planSeedWallet C parameters entry hashed stored state = .ok (some plan)) := by
  unfold planSeedWallet
  cases read : fixed32 entry.publicKey with
  | error e =>
    have unread : ∀ hex, normalizeBytesToHex entry.publicKey 32 ≠ .ok hex := by
      intro hex normalized
      obtain ⟨key, read', _⟩ := normalizeBytesToHex_eq_ok_iff.mp normalized
      have same : fixed32 entry.publicKey = .ok key := read'
      cases read.symm.trans same
    cases normalized : normalizeBytesToHex entry.publicKey 32 with
    | error message =>
      refine Or.inl ⟨?_, _, rfl⟩
      rintro ⟨key, read'⟩
      rw [read] at read'
      cases read'
    | ok hex => exact absurd normalized (unread hex)
  | ok key =>
    have hex : normalizeBytesToHex entry.publicKey 32 = .ok (Hex.encode key.val) :=
      normalizeBytesToHex_eq_ok_iff.mpr ⟨key, read, rfl⟩
    have named : C.walletIdFromPublicKey (Hex.encode key.val) = .ok (C.blake3Hex key.val) :=
      C.walletIdFromPublicKey_eq_ok_iff.mpr ⟨key, fixedBytes_encode key (by decide), rfl⟩
    rw [hex]
    simp only [mapErr, named, bind, Except.bind]
    by_cases present : (state.getWallet (C.blake3Hex key.val)).isSome
    · rw [if_pos present]
      exact Or.inr (Or.inl ⟨⟨key, read, present⟩, rfl⟩)
    · rw [if_neg present]
      refine Or.inr (Or.inr ⟨⟨key, read⟩, ?_, _, rfl⟩)
      rintro ⟨key', read', present'⟩
      cases read.symm.trans read'
      exact present present'

/-- The loop ends early at the first entry that does not decode, and without a secret that can
sign at the first it would install. -/
theorem installEntries_isErr {entries : List SeedWallet} {installed : Nat}
    (failed : (installEntries C parameters clock entries installed state).1.isErr = true) :
    ¬ Crypto.WellFormedSecret state.operatorSecret ∨ ∃ entry ∈ entries, ¬ entry.Decodes := by
  induction entries generalizing installed state with
  | nil => cases failed
  | cons entry rest ih =>
    unfold installEntries at failed
    rcases planSeedWallet_cases C state parameters entry (clock (3 * installed)) (clock (3 * installed + 1)) with
      ⟨unread, _⟩ | ⟨_, planned⟩ | ⟨_, _, plan, planned⟩
    · exact Or.inr ⟨entry, List.mem_cons_self .., unread⟩
    · rw [planned] at failed
      rcases ih failed with malformed | ⟨bad, member, unread⟩
      · exact Or.inl malformed
      · exact Or.inr ⟨bad, List.mem_cons_of_mem _ member, unread⟩
    · rw [planned] at failed
      rcases insertMinted_cases (planSeedWallet_ok planned).1 (clock (3 * installed + 2)) with
        ⟨anchor, _, _, ran⟩ | ⟨e, malformed, _⟩
      · simp only [ran] at failed
        rcases ih failed with malformed | ⟨bad, member, unread⟩
        · exact Or.inl malformed
        · exact Or.inr ⟨bad, List.mem_cons_of_mem _ member, unread⟩
      · exact Or.inl malformed

theorem installEntries_isErr_of_bad {entries : List SeedWallet} {installed : Nat}
    (bad : ∃ entry ∈ entries, ¬ entry.Decodes) :
    (installEntries C parameters clock entries installed state).1.isErr = true := by
  induction entries generalizing installed state with
  | nil =>
    obtain ⟨_, member, _⟩ := bad
    cases member
  | cons entry rest ih =>
    have later (read : entry.Decodes) : ∃ entry ∈ rest, ¬ entry.Decodes := by
      obtain ⟨worse, member, unread⟩ := bad
      rcases List.mem_cons.mp member with rfl | behind
      · exact absurd read unread
      · exact ⟨worse, behind, unread⟩
    unfold installEntries
    rcases planSeedWallet_cases C state parameters entry (clock (3 * installed)) (clock (3 * installed + 1)) with
      ⟨_, e, planned⟩ | ⟨present, planned⟩ | ⟨read, _, plan, planned⟩
    · rw [planned]
      rfl
    · rw [planned]
      exact ih (later present.decodes)
    · rw [planned]
      rcases insertMinted_cases (planSeedWallet_ok planned).1 (clock (3 * installed + 2)) with
        ⟨anchor, _, _, ran⟩ | ⟨e, _, ran⟩
      · simp only [ran]
        exact ih (later read)
      · simp only [ran]
        rfl

theorem installEntries_ne_panic (entries : List SeedWallet) (installed : Nat) :
    (installEntries C parameters clock entries installed state).1 ≠ .panic := by
  induction entries generalizing installed state with
  | nil => rintro ⟨⟩
  | cons entry rest ih =>
    unfold installEntries
    rcases planSeedWallet_cases C state parameters entry (clock (3 * installed)) (clock (3 * installed + 1)) with
      ⟨_, e, planned⟩ | ⟨_, planned⟩ | ⟨_, _, plan, planned⟩
    · rw [planned]
      rintro ⟨⟩
    · rw [planned]
      exact ih _
    · rw [planned]
      rcases insertMinted_cases (planSeedWallet_ok planned).1 (clock (3 * installed + 2)) with
        ⟨anchor, _, _, ran⟩ | ⟨e, _, ran⟩
      · simp only [ran]
        exact ih _
      · simp only [ran]
        rintro ⟨⟩

variable (C parameters clock state) in
/-- The loop never turns the tick back. -/
theorem currentTick_le_installEntries (entries : List SeedWallet) (installed : Nat) :
    state.system.currentTick ≤ (installEntries C parameters clock entries installed state).2.system.currentTick := by
  induction entries generalizing installed state with
  | nil => exact le_rfl
  | cons entry rest ih =>
    unfold installEntries
    rcases planSeedWallet_cases C state parameters entry (clock (3 * installed)) (clock (3 * installed + 1)) with
      ⟨_, e, planned⟩ | ⟨_, planned⟩ | ⟨_, _, plan, planned⟩
    · rw [planned]
    · rw [planned]
      exact ih state installed
    · rw [planned]
      rcases insertMinted_cases (planSeedWallet_ok planned).1 (clock (3 * installed + 2)) with
        ⟨anchor, _, _, ran⟩ | ⟨e, _, ran⟩
      · simp only [ran]
        have later := ih (state.posted [plan.wallet] (state.system.mint plan.wallet.balance) (.mint plan.tx) anchor)
          (installed + 1)
        exact (Nat.le_succ _).trans later
      · simp only [ran]
        exact Nat.le_succ _

theorem installEntries_of_untouched {entries : List SeedWallet} (untouched : Untouched C state entries)
    (installed : Nat) :
    (installEntries C parameters clock entries installed state).2 = state := by
  induction entries generalizing installed with
  | nil => rfl
  | cons entry rest ih =>
    unfold installEntries
    rcases planSeedWallet_cases C state parameters entry (clock (3 * installed)) (clock (3 * installed + 1)) with
      ⟨_, e, planned⟩ | ⟨present, planned⟩ | ⟨read, absent, _⟩
    · rw [planned]
    · rw [planned]
      rcases untouched with unread | ⟨_, later⟩
      · exact absurd present.decodes unread
      · exact ih later _
    · rcases untouched with unread | ⟨present, _⟩
      · exact absurd read unread
      · exact absurd present absent

theorem currentTick_lt_installEntries {entries : List SeedWallet} (touched : ¬ Untouched C state entries)
    (installed : Nat) :
    state.system.currentTick < (installEntries C parameters clock entries installed state).2.system.currentTick := by
  induction entries generalizing installed with
  | nil => exact absurd trivial touched
  | cons entry rest ih =>
    obtain ⟨read, further⟩ := not_or.mp touched
    unfold installEntries
    rcases planSeedWallet_cases C state parameters entry (clock (3 * installed)) (clock (3 * installed + 1)) with
      ⟨unread, _⟩ | ⟨present, planned⟩ | ⟨_, _, plan, planned⟩
    · exact absurd unread read
    · rw [planned]
      exact ih (fun later => further ⟨present, later⟩) _
    · rw [planned]
      rcases insertMinted_cases (planSeedWallet_ok planned).1 (clock (3 * installed + 2)) with
        ⟨anchor, _, _, ran⟩ | ⟨e, _, ran⟩
      · simp only [ran]
        have later := currentTick_le_installEntries C
          (state.posted [plan.wallet] (state.system.mint plan.wallet.balance) (.mint plan.tx) anchor) parameters clock
          rest (installed + 1)
        exact (Nat.lt_succ_self _).trans_le later
      · simp only [ran]
        exact Nat.lt_succ_self _

variable {seed : SeedFile}

variable (C state parameters clock seed) in
/-- A call finds the lock taken, gets through the file, or leaves what its loop left. -/
theorem installSeed_cases :
    (state.system.iterationLock = true ∧ (installSeed C parameters seed clock state).2 = state) ∨
    (state.system.iterationLock = false ∧ (installSeed C parameters seed clock state).1.isErr = false ∧
      (installEntries C parameters clock seed.initialWallets 0 state).1.isErr = false ∧
      (installSeed C parameters seed clock state).2 =
        (installEntries C parameters clock seed.initialWallets 0 state).2.storeState) ∨
    (state.system.iterationLock = false ∧
      (installEntries C parameters clock seed.initialWallets 0 state).1.isErr = true ∧
      (installSeed C parameters seed clock state).1 =
        (installEntries C parameters clock seed.initialWallets 0 state).1 ∧
      (installSeed C parameters seed clock state).2 =
        (installEntries C parameters clock seed.initialWallets 0 state).2) := by
  unfold installSeed
  cases busy : state.system.iterationLock with
  | true => exact Or.inl ⟨rfl, rfl⟩
  | false =>
    rw [if_neg Bool.false_ne_true]
    cases ran : installEntries C parameters clock seed.initialWallets 0 state with
    | mk outcome after =>
      cases outcome with
      | ok installed => exact Or.inr (Or.inl ⟨rfl, rfl, rfl, rfl⟩)
      | err e => exact Or.inr (Or.inr ⟨rfl, rfl, rfl, rfl⟩)
      | panic => exact absurd (congrArg Prod.fst ran) (installEntries_ne_panic _ _)

omit [F64 F] in
theorem NoTrace.refl (state : CoinState F) : NoTrace state state := ⟨rfl, rfl, rfl, rfl, rfl, rfl, rfl, rfl⟩

/-- Where the file is safe, a call that fails leaves the node as it was. -/
theorem installSeed_unchanged (failed : (installSeed C parameters seed clock state).1.isErr = true)
    (safe : SeedSafe C state seed) : (installSeed C parameters seed clock state).2 = state := by
  rcases installSeed_cases C state parameters clock seed with ⟨_, left⟩ | ⟨_, passed, _⟩ | ⟨free, _, outcome, left⟩
  · exact left
  · rw [passed] at failed
    cases failed
  · rw [left]
    rcases safe with busy | ⟨formed, decode⟩ | untouched
    · rw [free] at busy
      cases busy
    · rw [outcome] at failed
      rcases installEntries_isErr failed with malformed | ⟨entry, member, unread⟩
      · exact absurd formed malformed
      · exact absurd (decode entry member) unread
    · exact installEntries_of_untouched untouched 0

/-- A call that fails leaves no trace if and only if the file was safe. -/
theorem installSeed_noTrace_iff (failed : (installSeed C parameters seed clock state).1.isErr = true) :
    NoTrace state (installSeed C parameters seed clock state).2 ↔ SeedSafe C state seed := by
  constructor
  · intro unchanged
    rcases installSeed_cases C state parameters clock seed with ⟨busy, _⟩ | ⟨_, passed, _⟩ | ⟨_, _, _, left⟩
    · exact Or.inl busy
    · rw [passed] at failed
      cases failed
    · by_contra unsafe_
      have touched : ¬ Untouched C state seed.initialWallets := fun untouched => unsafe_ (Or.inr (Or.inr untouched))
      have advanced : state.system.currentTick <
          (installEntries C parameters clock seed.initialWallets 0 state).2.system.currentTick :=
        currentTick_lt_installEntries touched 0
      rw [left] at unchanged
      rw [unchanged.system_eq] at advanced
      exact lt_irrefl _ advanced
  · intro safe
    rw [installSeed_unchanged failed safe]
    exact .refl state

/-- The stored system state is the one in memory, its supply is that of the wallets stored, and
the log has one entry for each tick. -/
structure CoinState.Sound (state : CoinState F) : Prop where
  stored : state.trees.state = some state.system
  supply : state.system.totalSupply = state.storedSupply
  count : state.system.nWallets = state.trees.wallets.size
  ticks : state.trees.pohLog.entries.map PohEntry.tick = List.range' 1 state.system.currentTick

/-- The stored system state is the one in memory, its cached supply is exact, and the log has one
entry for each tick: what a restart and every call that signs keep. -/
structure CoinState.InStep (state : CoinState F) : Prop where
  stored : state.trees.state = some state.system
  cached : state.Cached
  bound : state.storedSupply ≤ u64Max
  ticks : state.log.map PohEntry.tick = List.range' 1 state.system.currentTick
  formed : Crypto.WellFormedSecret state.operatorSecret

omit [F64 F] in
theorem entries_of_ticks {n : Nat} (ticks : state.log.map PohEntry.tick = List.range' 1 n) :
    state.trees.pohLog.entries = state.log := by
  rw [state.pohLog_eq, KeyedTree.entries_putAll_ascending]
  · rfl
  · have ascending : (state.log.map PohEntry.tick).Pairwise (· < ·) := by
      rw [ticks]
      exact List.pairwise_lt_range'
    exact List.pairwise_map.mp ascending

omit [F64 F] in
theorem CoinState.InStep.sound (inStep : state.InStep) : state.Sound := by
  refine ⟨inStep.stored, inStep.cached.supply, inStep.cached.count, ?_⟩
  rw [entries_of_ticks inStep.ticks]
  exact inStep.ticks

/-- An entry extends the log by its tick. -/
theorem Books.ticks {booking : Booking F} {sheet : Sheet F} {entry : PohEntry} (books : Books C state booking sheet)
    (anchored : C.Anchors sheet.system.lastPohHash (sheet.system.currentTick + 1) (sheet.payload.bytes C)
      state.validatorId entry)
    (ticks : state.log.map PohEntry.tick = List.range' 1 state.system.currentTick) :
    (state.enter sheet entry).log.map PohEntry.tick =
      List.range' 1 (state.enter sheet entry).system.currentTick := by
  have next : (state.enter sheet entry).system.currentTick = state.system.currentTick + 1 :=
    congrArg (· + 1) books.currentTick_eq
  rw [CoinState.enter_log, List.map_append, ticks, next, List.range'_concat, List.map_singleton, anchored.tick_eq,
    books.currentTick_eq, one_mul, Nat.add_comm 1]

theorem Installs.ticks {bookings : Set (Booking F)} {writes : List (Write F)} {after : CoinState F}
    (installs : Installs C bookings state writes after)
    (ticks : state.log.map PohEntry.tick = List.range' 1 state.system.currentTick) :
    after.log.map PohEntry.tick = List.range' 1 after.system.currentTick := by
  induction installs with
  | none => exact ticks
  | entry books _ _ anchored _ ih => exact ih (books.ticks anchored ticks)

omit [F64 F] in
theorem log_storeState (state : CoinState F) : state.storeState.log = state.log := by
  rw [CoinState.storeState, CoinState.log_writeAll]
  exact List.append_nil _

/-- Whatever a call does with a secret that can sign, the log has one entry for each tick. -/
theorem Script.ticks {bookings : Set (Booking F)} {writes : List (Write F)} {after : CoinState F}
    (script : Script C bookings state writes after) (formed : Crypto.WellFormedSecret state.operatorSecret)
    (ticks : state.log.map PohEntry.tick = List.range' 1 state.system.currentTick) :
    after.log.map PohEntry.tick = List.range' 1 after.system.currentTick := by
  have locked : state.locked.log.map PohEntry.tick = List.range' 1 state.locked.system.currentTick := by
    rw [CoinState.locked, log_storeState]
    exact ticks
  cases script with
  | refused => exact ticks
  | parameters own =>
    have same : (updateParameters own state).log = state.log := CoinState.log_writeAll.trans (List.append_nil _)
    rw [same]
    exact ticks
  | accepted seen books _ _ anchored =>
    rw [log_storeState]
    exact books.ticks anchored ticks
  | stranded _ _ _ malformed => exact absurd formed malformed
  | seeded installs =>
    rw [log_storeState]
    exact installs.ticks ticks
  | seedRefused installs => exact installs.ticks ticks
  | panicked => exact locked
  | committed _ books _ _ _ anchored closes =>
    have entered := books.ticks anchored locked
    rw [CoinState.log_writeAll, List.append_right_eq_self.mpr]
    · exact entered
    · rcases closes with rfl | ⟨taken, rfl⟩
      all_goals rfl
  | commitStranded _ _ malformed => exact absurd formed malformed

/-- Unless it is a seed file that fails, a call that can sign stores the system state it leaves. -/
theorem Script.stored {bookings : Set (Booking F)} {writes : List (Write F)} {after : CoinState F}
    (script : Script C bookings state writes after) (formed : Crypto.WellFormedSecret state.operatorSecret)
    (seedless : ∀ booking ∈ bookings, ∀ parameters wallet hashed stored,
      booking ≠ .seed parameters wallet hashed stored)
    (stored : state.trees.state = some state.system) : after.trees.state = some after.system := by
  cases script with
  | refused => exact stored
  | parameters own =>
    have same : (updateParameters own state).trees.state = state.trees.state := by
      change (state.writeAll [.parameters own]).trees.state = state.trees.state
      rw [CoinState.trees_writeAll]
      rfl
    rw [same]
    exact stored
  | accepted => exact CoinState.stored_storeState _
  | stranded _ _ _ malformed => exact absurd formed malformed
  | seeded => exact CoinState.stored_storeState _
  | seedRefused installs =>
    cases installs with
    | none => exact stored
    | entry _ booked => exact absurd rfl (seedless _ booked _ _ _ _)
  | panicked => exact CoinState.stored_storeState _
  | @committed _ sheet entry commit closing _ _ _ _ _ _ closes =>
    rw [CoinState.trees_writeAll, Trees.applyAll_state]
    rcases closes with rfl | ⟨taken, rfl⟩
    all_goals rfl
  | commitStranded _ _ malformed => exact absurd formed malformed

/-- An iteration keeps the cached supply exact where the faucet's ids are free. -/
theorem executeIterationNow_cached {now snapshotNow : Timestamp} (cached : state.Cached)
    (formed : Crypto.WellFormedSecret state.operatorSecret)
    (fits : (Call.executeIterationNow parameters now snapshotNow).Fits C state)
    (free : FaucetIdsFree C parameters state) :
    (executeIterationNow C parameters now snapshotNow state).2.Cached := by
  have agreed {commit : IterationCommit F}
      (returned : (executeIterationNow C parameters now snapshotNow state).1 = .ok commit) :
      (executeIterationNow C parameters now snapshotNow state).2.Cached := by
    have agrees := executeIterationNow_agrees fits returned free
    exact ⟨agrees.supply.trans agrees.stored, agrees.count⟩
  rcases executeIterationNow_cases C state parameters now snapshotNow with ⟨_, ran⟩ | ⟨_, iterates⟩
  · rw [ran]
    exact cached
  generalize executeIterationNow C parameters now snapshotNow state = finished at *
  cases iterates with
  | panicked =>
    have wallets := (CoinState.sameLedger_locked state).wallets_eq
    constructor
    · rw [CoinState.storedSupply, wallets]
      exact cached.supply
    · rw [wallets]
      exact cached.count
  | committed => exact agreed rfl
  | stranded _ _ malformed => exact absurd formed malformed

/-- What a call needs beyond a secret that can sign to leave the node in step. -/
def Call.Careful (C : Crypto) (call : Call F) (state : CoinState F) : Prop :=
  call.Fits C state ∧
    match call with
    | .installSeed _ seed _ => SeedSafe C state seed
    | .executeIterationNow parameters _ _ => FaucetIdsFree C parameters state
    | _ => True

theorem Call.inStep {call : Call F} (careful : call.Careful C state) (inStep : state.InStep) :
    (call.next C state).InStep := by
  obtain ⟨fits, condition⟩ := careful
  have script := call.script_writes C state
  have bound := (call.moves fits inStep.bound).storedSupply_le inStep.bound
  have ticks := script.ticks inStep.formed inStep.ticks
  have formed : Crypto.WellFormedSecret (call.next C state).operatorSecret := by
    rw [(Call.sameKeys (C := C) state call).operatorSecret_eq]
    exact inStep.formed
  have operated (operation : call.Operation) : (call.next C state).Cached :=
    (call.moves_of_operation operation fits inStep.bound).invariant CoinState.Cached inStep.cached
      fun _ _ move => move.cached
  cases call with
  | installSeed parameters seed clock =>
    refine ⟨?_, operated trivial, bound, ticks, formed⟩
    change (AggoraCoin.installSeed C parameters seed clock state).2.trees.state =
      some (AggoraCoin.installSeed C parameters seed clock state).2.system
    cases failed : (AggoraCoin.installSeed C parameters seed clock state).1.isErr with
    | true =>
      rw [installSeed_unchanged failed condition]
      exact inStep.stored
    | false =>
      rcases installSeed_cases C state parameters clock seed with ⟨_, left⟩ | ⟨_, _, _, left⟩ |
        ⟨_, stopped, outcome, _⟩
      · rw [left]
        exact inStep.stored
      · rw [left]
        exact CoinState.stored_storeState _
      · rw [outcome, stopped] at failed
        cases failed
  | executeIterationNow parameters now snapshotNow =>
    refine ⟨script.stored inStep.formed ?_ inStep.stored,
      executeIterationNow_cached inStep.cached inStep.formed fits condition, bound, ticks, formed⟩
    rintro booking booked _ _ _ _ rfl
    cases Set.mem_singleton_iff.mp booked
  | _ =>
    refine ⟨script.stored inStep.formed ?_ inStep.stored, operated trivial, bound, ticks, formed⟩
    rintro booking booked _ _ _ _ rfl
    first | cases Set.mem_singleton_iff.mp booked | cases booked

/-- The disk holds what a node in step with it would hold. -/
structure Host.InStep (host : Host F) : Prop where
  supply : (host.storage.trees.state.getD .default).totalSupply = host.storage.trees.wallets.total Wallet.balance
  count : (host.storage.trees.state.getD .default).nWallets = host.storage.trees.wallets.size
  bound : host.storage.trees.wallets.total Wallet.balance ≤ u64Max
  ticks : (host.storage.journal.filterMap Write.logged).map PohEntry.tick =
    List.range' 1 (host.storage.trees.state.getD .default).currentTick
  running : ∀ state, host.node = some state → state.storage = host.storage ∧ state.InStep

theorem CoinState.InStep.host {opened : List PublicKey} (inStep : state.InStep) :
    Host.InStep ⟨state.storage, some state, opened⟩ := by
  have stored : state.storage.trees.state.getD .default = state.system := by
    rw [show state.storage.trees.state = some state.system from inStep.stored]
    rfl
  refine ⟨stored ▸ inStep.cached.supply, stored ▸ inStep.cached.count, inStep.bound, stored ▸ inStep.ticks, ?_⟩
  rintro running ⟨⟩
  exact ⟨rfl, inStep⟩

/-- The database is opened with a secret that can sign, and calls are made with care. -/
def Event.Careful (C : Crypto) (host : Host F) : Event F → Prop
  | .restart env config => Crypto.WellFormedSecret (openingSecret env config host.storage)
  | .call asked => ∀ state, host.node = some state → asked.Careful C state

theorem Host.InStep.empty : (Host.empty : Host F).InStep := by
  refine ⟨rfl, rfl, Nat.zero_le _, rfl, ?_⟩
  intro state running
  cases running

theorem Host.InStep.next {host : Host F} (inStep : host.InStep) {event : Event F} (careful : event.Careful C host) :
    (host.next C event).InStep := by
  cases event with
  | call call =>
    cases running : host.node with
    | none => rwa [next_call_none running]
    | some state =>
      rw [next_call running]
      exact (Call.inStep (careful state running) (inStep.running state running).2).host
  | restart env config =>
    cases ran : openCoinState C env config host.storage with
    | mk outcome left =>
      cases outcome with
      | error e =>
        obtain ⟨parameters, rfl⟩ := openCoinState_error ran
        rw [next_restart_error ran]
        have logs : (host.storage.writeAll [.parameters parameters]).journal.filterMap Write.logged =
            host.storage.journal.filterMap Write.logged := by
          rw [Storage.journal_writeAll, List.filterMap_append]
          exact List.append_nil _
        constructor
        case supply =>
          rw [Storage.trees_writeAll]
          exact inStep.supply
        case count =>
          rw [Storage.trees_writeAll]
          exact inStep.count
        case bound =>
          rw [Storage.trees_writeAll]
          exact inStep.bound
        case ticks =>
          rw [logs, Storage.trees_writeAll]
          exact inStep.ticks
        case running => rintro after ⟨⟩
      | ok state =>
        have opened : (openCoinState C env config host.storage).1 = .ok state := congrArg Prod.fst ran
        have start := openCoinState_opened opened
        obtain ⟨same, _⟩ := openCoinState_registry ran
        rw [next_restart ran, ← same]
        refine CoinState.InStep.host ⟨start.stored_eq, ⟨?_, ?_⟩, ?_, ?_, ?_⟩
        · rw [start.system_eq, recoveredSystem_totalSupply, CoinState.storedSupply, start.ledger.wallets_eq]
          exact inStep.supply
        · rw [start.system_eq, recoveredSystem_nWallets, start.ledger.wallets_eq]
          exact inStep.count
        · rw [CoinState.storedSupply, start.ledger.wallets_eq]
          exact inStep.bound
        · rw [(openCoinState_past opened).2.1, start.system_eq, recoveredSystem_currentTick]
          exact inStep.ticks
        · rw [openCoinState_secret opened]
          exact careful

/-- A seed file that fails leaves no trace if and only if it was safe; and through any run made with
care, restarts and failed seed files included, the node and the disk stay in step. -/
theorem installSeed_all_or_nothing (C : Crypto) :
    (∀ (state : CoinState F) (parameters : SystemParameters F) (seed : SeedFile) (clock : Nat → Timestamp),
      (installSeed C parameters seed clock state).1.isErr = true →
        (NoTrace state (installSeed C parameters seed clock state).2 ↔ SeedSafe C state seed)) ∧
    ∀ (host : Host F) (state : CoinState F), Host.Run C (fun host event => event.Careful C host) host →
      host.node = some state → state.Sound := by
  refine ⟨fun state parameters seed clock failed => installSeed_noTrace_iff failed, fun host state run running => ?_⟩
  have inStep : host.InStep := run.invariant Host.InStep .empty fun _ _ before careful => before.next careful
  exact (inStep.running state running).2.sound

namespace Concrete

/-- A seed file of one entry that does not decode. -/
def badSeed : SeedFile := ⟨[⟨"zz", none⟩]⟩

/-- A wallet for `key`, and after it an entry that does not decode. -/
def halfSeed (key : FixedBytes 32) : SeedFile := ⟨[⟨Hex.encode key.val, some 5⟩, ⟨"zz", none⟩]⟩

theorem not_decodes (balance : Option MicroAgc) : ¬ (⟨"zz", balance⟩ : SeedWallet).Decodes := by
  rintro ⟨key, read⟩
  have unread : (fixed32 "zz").toOption = none := by decide +kernel
  have read' : fixed32 "zz" = .ok key := read
  rw [read'] at unread
  cases unread

theorem node_free : node.system.iterationLock = false := by
  rw [node_opened.default_eq]
  rfl

theorem installSeed_isErr (seed : SeedFile) (bad : ∃ entry ∈ seed.initialWallets, ¬ entry.Decodes) :
    (installSeed crypto Concrete.parameters seed (fun _ => 0) node).1.isErr = true := by
  have stops : (installEntries crypto Concrete.parameters (fun _ => 0) seed.initialWallets 0 node).1.isErr = true :=
    installEntries_isErr_of_bad bad
  rcases installSeed_cases crypto node Concrete.parameters (fun _ => 0) seed with ⟨busy, _⟩ | ⟨_, _, passed, _⟩ |
    ⟨_, _, outcome, _⟩
  · rw [node_free] at busy
    cases busy
  · rw [passed] at stops
    cases stops
  · rw [outcome]
    exact stops

end Concrete

/-- The first entry of the file is installed before the second is found not to decode: the wallet
and its PoH entry stay, and the stored system state knows of neither. -/
theorem installSeed_leaves_half :
    (installSeed Concrete.crypto Concrete.parameters (Concrete.halfSeed (Concrete.key 1)) (fun _ => 0)
        Concrete.node).1.isErr = true ∧
      ¬ NoTrace Concrete.node (installSeed Concrete.crypto Concrete.parameters (Concrete.halfSeed (Concrete.key 1))
        (fun _ => 0) Concrete.node).2 := by
  have failed := Concrete.installSeed_isErr (Concrete.halfSeed (Concrete.key 1))
    ⟨_, List.mem_cons_of_mem _ (List.mem_cons_self ..), Concrete.not_decodes none⟩
  refine ⟨failed, fun unchanged => ?_⟩
  have readable : (⟨Hex.encode (Concrete.key 1).val, some 5⟩ : SeedWallet).Decodes :=
    ⟨Concrete.key 1, fixedBytes_encode (Concrete.key 1) (by decide)⟩
  rcases (installSeed_noTrace_iff failed).mp unchanged with busy | ⟨_, decode⟩ | untouched
  · rw [Concrete.node_free] at busy
    cases busy
  · exact Concrete.not_decodes none (decode _ (List.mem_cons_of_mem _ (List.mem_cons_self ..)))
  · rcases untouched with unread | ⟨⟨key, _, present⟩, _⟩
    · exact unread readable
    · rw [Concrete.node_opened.getWallet] at present
      cases present

/-- The file without the first entry leaves no trace, and the node stays in step. -/
theorem installSeed_all_or_nothing_bad :
    NoTrace Concrete.node (installSeed Concrete.crypto Concrete.parameters Concrete.badSeed (fun _ => 0)
        Concrete.node).2 ∧
      (installSeed Concrete.crypto Concrete.parameters Concrete.badSeed (fun _ => 0) Concrete.node).2.Sound := by
  have failed := Concrete.installSeed_isErr Concrete.badSeed
    ⟨_, List.mem_cons_self .., Concrete.not_decodes none⟩
  have safe : SeedSafe Concrete.crypto Concrete.node Concrete.badSeed :=
    Or.inr (Or.inr (Or.inl (Concrete.not_decodes none)))
  obtain ⟨unchanged, inStep⟩ := installSeed_all_or_nothing (F := ℚ) Concrete.crypto
  refine ⟨(unchanged Concrete.node Concrete.parameters Concrete.badSeed (fun _ => 0) failed).mpr safe, ?_⟩
  have opened : openCoinState Concrete.crypto (fun _ => none) Concrete.config (Host.empty : Host ℚ).storage =
      (.ok Concrete.node, Concrete.opened.2) := Prod.ext Concrete.opened_node rfl
  have formed : Crypto.WellFormedSecret
      (openingSecret (fun _ => none) Concrete.config (Host.empty : Host ℚ).storage) := by
    have secret := openCoinState_secret Concrete.opened_node
    exact secret ▸ Concrete.node_formed
  have first : Host.Run Concrete.crypto (fun host event => event.Careful Concrete.crypto host)
      (Host.next Concrete.crypto Host.empty (.restart (fun _ => none) Concrete.config)) := .next .start formed
  have here := Host.next_restart opened
  have second : Host.Run Concrete.crypto (fun host event => event.Careful Concrete.crypto host)
      (Host.next Concrete.crypto (Host.next Concrete.crypto Host.empty (.restart (fun _ => none) Concrete.config))
        (.call (.installSeed Concrete.parameters Concrete.badSeed fun _ => 0))) := by
    refine .next first fun state running => ?_
    rw [here] at running
    cases running
    refine ⟨?_, safe⟩
    change (installSeed Concrete.crypto Concrete.parameters Concrete.badSeed (fun _ => 0)
      Concrete.node).2.storedSupply ≤ u64Max
    rw [installSeed_unchanged failed safe, Concrete.node_opened.storedSupply]
    exact Nat.zero_le _
  refine inStep _ _ second ?_
  rw [here, Host.next_call rfl]
  rfl

end AggoraCoin
