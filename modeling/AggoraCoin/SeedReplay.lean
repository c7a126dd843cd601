import AggoraCoin.Owners
import AggoraCoin.SeedFiles

namespace AggoraCoin

variable {F : Type} [F64 F] {C : Crypto} {inputs : Set Bytes} {state after : CoinState F}
  {parameters : SystemParameters F} {entries : List SeedWallet}

/-- A key and the balance it starts with. -/
structure SeedMint where
  key : FixedBytes 32
  amount : MicroAgc

namespace SeedMint

/-- The entry that leads to the mint. -/
def of (parameters : SystemParameters F) (entry : SeedWallet) (key : FixedBytes 32) : SeedMint where
  key := key
  amount := entry.initialBalance.getD (microSeed parameters)

def id (C : Crypto) (mint : SeedMint) : WalletId := C.blake3Hex mint.key.val

def wallet (C : Crypto) (state : CoinState F) (mint : SeedMint) : Wallet F :=
  .fresh (mint.id C) (Hex.encode mint.key.val) mint.amount (state.system.currentTick + 1)
    state.system.currentIteration state.operatorId

end SeedMint

variable (C parameters) in
/-- The course of the loop over a file all of whose entries decode. -/
inductive Mints : CoinState F → List SeedWallet → List SeedMint → CoinState F → Prop
  | done {state : CoinState F} : Mints state [] [] state
  | skip {state after : CoinState F} {entry : SeedWallet} {rest : List SeedWallet} {mints : List SeedMint}
      {key : FixedBytes 32} (read : fixed32 entry.publicKey = .ok key)
      (present : (state.getWallet (C.blake3Hex key.val)).isSome) (later : Mints state rest mints after) :
      Mints state (entry :: rest) mints after
  | mint {state after : CoinState F} {entry : SeedWallet} {rest : List SeedWallet} {mints : List SeedMint}
      {key : FixedBytes 32} {tx : Transaction F} {anchor : PohEntry} (read : fixed32 entry.publicKey = .ok key)
      (absent : state.getWallet (C.blake3Hex key.val) = none)
      (later : Mints (state.posted [(SeedMint.of parameters entry key).wallet C state]
        (state.system.mint (SeedMint.of parameters entry key).amount) tx anchor) rest mints after) :
      Mints state (entry :: rest) (SeedMint.of parameters entry key :: mints) after

theorem planSeedWallet_mint {entry : SeedWallet} {hashed stored : Timestamp} {plan : MintPlan F}
    (planned : planSeedWallet C parameters entry hashed stored state = .ok (some plan)) :
    ∃ key, fixed32 entry.publicKey = .ok key ∧ state.getWallet (C.blake3Hex key.val) = none ∧
      plan.wallet = (SeedMint.of parameters entry key).wallet C state := by
  obtain ⟨valid, amount⟩ := planSeedWallet_ok planned
  obtain ⟨key, read, pubkey, named⟩ := planSeedWallet_key planned
  obtain ⟨key', recorded⟩ := valid.wallet_eq
  have absent := valid.absent
  rw [recorded] at pubkey
  have same : key' = key := Subtype.ext (Hex.encode_injective pubkey)
  subst same
  refine ⟨key', read, named ▸ absent, ?_⟩
  rw [recorded, amount]
  rfl

theorem installEntries_mints {clock : Nat → Timestamp} {installed count : Nat}
    (ran : installEntries C parameters clock entries installed state = (.ok count, after)) :
    ∃ mints, Mints C parameters state entries mints after ∧ count = installed + mints.length := by
  induction entries generalizing installed state with
  | nil =>
    cases ran
    exact ⟨[], .done, rfl⟩
  | cons entry rest ih =>
    unfold installEntries at ran
    rcases planSeedWallet_cases C state parameters entry (clock (3 * installed)) (clock (3 * installed + 1)) with
      ⟨_, e, planned⟩ | ⟨⟨key, read, present⟩, planned⟩ | ⟨_, _, plan, planned⟩
    · rw [planned] at ran
      cases ran
    · rw [planned] at ran
      obtain ⟨mints, later, total⟩ := ih ran
      exact ⟨mints, .skip read present later, total⟩
    · rw [planned] at ran
      obtain ⟨key, read, absent, recorded⟩ := planSeedWallet_mint planned
      rcases insertMinted_cases (planSeedWallet_ok planned).1 (clock (3 * installed + 2)) with
        ⟨anchor, _, _, inserted⟩ | ⟨e, _, inserted⟩
      · simp only [inserted, recorded] at ran
        obtain ⟨mints, later, total⟩ := ih ran
        refine ⟨SeedMint.of parameters entry key :: mints, .mint read absent later, ?_⟩
        rw [List.length_cons]
        omega
      · simp only [inserted] at ran
        cases ran

section Posted

variable {mint : SeedMint} {system : SystemState F} {tx : Transaction F} {anchor : PohEntry}

omit [F64 F] in
theorem getWallet_posted (wallet : Wallet F) (id : WalletId) :
    (state.posted [wallet] system tx anchor).getWallet id =
      if wallet.id = id then some wallet else state.getWallet id := by
  rw [CoinState.getWallet, CoinState.posted_wallets, KeyedTree.putAll_cons, KeyedTree.putAll_nil, KeyedTree.get_put]
  rfl

theorem getWallet_minted :
    (state.posted [mint.wallet C state] system tx anchor).getWallet (mint.id C) = some (mint.wallet C state) := by
  rw [getWallet_posted]
  exact if_pos rfl

theorem getWallet_minted_of_ne {id : WalletId} (other : mint.id C ≠ id) :
    (state.posted [mint.wallet C state] system tx anchor).getWallet id = state.getWallet id := by
  rw [getWallet_posted]
  exact if_neg other

end Posted

namespace Mints

variable {mints : List SeedMint}

/-- A stored wallet stays as it is. -/
theorem kept (course : Mints C parameters state entries mints after) {id : WalletId} {wallet : Wallet F}
    (stored : state.getWallet id = some wallet) : after.getWallet id = some wallet := by
  induction course with
  | done => exact stored
  | skip _ _ _ ih => exact ih stored
  | @mint state after entry rest mints key tx anchor read absent _ ih =>
    apply ih
    by_cases same : (SeedMint.of parameters entry key).id C = id
    · have missing : state.getWallet ((SeedMint.of parameters entry key).id C) = none := absent
      rw [same, stored] at missing
      cases missing
    · rw [getWallet_minted_of_ne same]
      exact stored

/-- The minted ids were free, and none is minted twice. -/
theorem fresh (course : Mints C parameters state entries mints after) :
    (∀ mint ∈ mints, state.getWallet (mint.id C) = none) ∧ (mints.map (SeedMint.id C)).Nodup := by
  induction course with
  | done => exact ⟨by simp, List.nodup_nil⟩
  | skip _ _ _ ih => exact ih
  | @mint state after entry rest mints key tx anchor read absent _ ih =>
    obtain ⟨free, distinct⟩ := ih
    have apart : ∀ mint ∈ mints, (SeedMint.of parameters entry key).id C ≠ mint.id C := by
      intro mint member same
      have here := free mint member
      rw [← same, getWallet_minted] at here
      cases here
    constructor
    · intro mint member
      rcases List.mem_cons.mp member with rfl | behind
      · exact absent
      · have here := free mint behind
        rwa [getWallet_minted_of_ne (apart mint behind)] at here
    · rw [List.map_cons, List.nodup_cons]
      refine ⟨fun member => ?_, distinct⟩
      obtain ⟨mint, inside, same⟩ := List.mem_map.mp member
      exact apart mint inside same.symm

/-- Each minted key has its wallet, with the balance of the mint. -/
theorem added (course : Mints C parameters state entries mints after) :
    ∀ mint ∈ mints, ∃ wallet, after.getWallet (mint.id C) = some wallet ∧
      wallet.pubkey = Hex.encode mint.key.val ∧ wallet.balance = mint.amount ∧ wallet.nonce = 0 := by
  induction course with
  | done => simp
  | skip _ _ _ ih => exact ih
  | @mint state after entry rest mints key tx anchor read absent later ih =>
    intro mint member
    rcases List.mem_cons.mp member with rfl | behind
    · exact ⟨_, later.kept getWallet_minted, rfl, rfl, rfl⟩
    · exact ih mint behind

theorem untouched (course : Mints C parameters state entries mints after) {id : WalletId}
    (other : id ∉ mints.map (SeedMint.id C)) : after.getWallet id = state.getWallet id := by
  induction course with
  | done => rfl
  | skip _ _ _ ih => exact ih other
  | @mint state after entry rest mints key tx anchor read absent _ ih =>
    rw [List.map_cons, List.mem_cons, not_or] at other
    rw [ih other.2, getWallet_minted_of_ne (Ne.symm other.1)]

theorem size_eq (course : Mints C parameters state entries mints after) :
    after.trees.wallets.size = state.trees.wallets.size + mints.length := by
  induction course with
  | done => rfl
  | skip _ _ _ ih => exact ih
  | @mint state after entry rest mints key tx anchor read absent _ ih =>
    have free : state.trees.wallets.get ((SeedMint.of parameters entry key).wallet C state).id = none := absent
    rw [ih, CoinState.posted_wallets, KeyedTree.putAll_cons, KeyedTree.putAll_nil, KeyedTree.size_put_fresh free,
      List.length_cons]
    omega

/-- While the supply fits it grows by what is minted. -/
theorem totalSupply_eq (course : Mints C parameters state entries mints after)
    (fits : state.system.totalSupply + (mints.map SeedMint.amount).sum ≤ u64Max) :
    after.system.totalSupply = state.system.totalSupply + (mints.map SeedMint.amount).sum := by
  induction course with
  | done => rfl
  | skip _ _ _ ih => exact ih fits
  | @mint state after entry rest mints key tx anchor read absent _ ih =>
    rw [List.map_cons, List.sum_cons] at fits ⊢
    have first : state.system.totalSupply + (SeedMint.of parameters entry key).amount ≤ u64Max :=
      (Nat.add_le_add_left (Nat.le_add_right _ _) _).trans fits
    have grown : (state.posted [(SeedMint.of parameters entry key).wallet C state]
        (state.system.mint (SeedMint.of parameters entry key).amount) tx anchor).system.totalSupply =
          state.system.totalSupply + (SeedMint.of parameters entry key).amount :=
      Unsigned.saturatingAdd_of_le first
    rw [grown, Nat.add_assoc] at ih
    exact ih fits

/-- A mint comes from the first entry that names its key. -/
theorem first (course : Mints C parameters state entries mints after) :
    ∀ mint ∈ mints, ∃ before entry rest, entries = before ++ entry :: rest ∧
      fixed32 entry.publicKey = .ok mint.key ∧ (∀ earlier ∈ before, fixed32 earlier.publicKey ≠ .ok mint.key) ∧
      mint = .of parameters entry mint.key := by
  induction course with
  | done => simp
  | @skip state after entry rest mints key read present later ih =>
    intro mint member
    obtain ⟨before, found, behind, split, named, earliest, taken⟩ := ih mint member
    refine ⟨entry :: before, found, behind, by rw [split]; rfl, named, ?_, taken⟩
    intro earlier inside same
    rcases List.mem_cons.mp inside with rfl | old
    · -- the skipped entry names a stored wallet
      cases Except.ok.inj (read.symm.trans same)
      have free : state.getWallet (C.blake3Hex mint.key.val) = none := later.fresh.1 mint member
      rw [free] at present
      cases present
    · exact earliest earlier old same
  | @mint state after entry rest mints key tx anchor read absent later ih =>
    intro mint member
    rcases List.mem_cons.mp member with rfl | behind
    · exact ⟨[], entry, rest, rfl, read, by simp, rfl⟩
    · obtain ⟨before, found, tail, split, named, earliest, taken⟩ := ih mint behind
      refine ⟨entry :: before, found, tail, by rw [split]; rfl, named, ?_, taken⟩
      intro earlier inside same
      rcases List.mem_cons.mp inside with rfl | old
      · -- the key of the first entry has its wallet by now
        cases Except.ok.inj (read.symm.trans same)
        have free := later.fresh.1 mint behind
        have minted : (SeedMint.of parameters earlier mint.key).id C = mint.id C := rfl
        rw [← minted, getWallet_minted] at free
        cases free
      · exact earliest earlier old same

/-- Among keys that BLAKE3 tells apart every key without a wallet is minted. -/
theorem complete (course : Mints C parameters state entries mints after) (free : Set.InjOn C.blake3 inputs)
    (listed : ∀ entry ∈ entries, ∀ key, fixed32 entry.publicKey = .ok key → key.val ∈ inputs) :
    ∀ entry ∈ entries, ∀ key, fixed32 entry.publicKey = .ok key → state.getWallet (C.blake3Hex key.val) = none →
      key ∈ mints.map SeedMint.key := by
  induction course with
  | done => simp
  | @skip state after entry rest mints key read present later ih =>
    intro named member own ownRead missing
    rcases List.mem_cons.mp member with rfl | behind
    · cases Except.ok.inj (read.symm.trans ownRead)
      rw [missing] at present
      cases present
    · exact ih (fun e inside => listed e (List.mem_cons_of_mem _ inside)) named behind own ownRead missing
  | @mint state after entry rest mints key tx anchor read absent later ih =>
    intro named member own ownRead missing
    rw [List.map_cons, List.mem_cons]
    by_cases same : own = key
    · exact Or.inl same
    · right
      rcases List.mem_cons.mp member with rfl | behind
      · exact absurd (Except.ok.inj (ownRead.symm.trans read)) same
      · refine ih (fun e inside => listed e (List.mem_cons_of_mem _ inside)) named behind own ownRead ?_
        rw [getWallet_minted_of_ne]
        · exact missing
        · intro collide
          have keyInside := listed entry List.mem_cons_self key read
          have ownInside := listed named member own ownRead
          exact same (Subtype.ext (free ownInside keyInside (C.blake3Hex_inj.mp collide.symm)))

theorem iterationLock_eq (course : Mints C parameters state entries mints after) :
    after.system.iterationLock = state.system.iterationLock := by
  induction course with
  | done => rfl
  | skip _ _ _ ih => exact ih
  | mint _ _ _ ih => exact ih

/-- In the end every entry names a stored wallet. -/
theorem present (course : Mints C parameters state entries mints after) :
    ∀ entry ∈ entries, entry.Present C after := by
  induction course with
  | done => simp
  | @skip state after entry rest mints key read present later ih =>
    intro named member
    rcases List.mem_cons.mp member with rfl | behind
    · obtain ⟨wallet, stored⟩ := Option.isSome_iff_exists.mp present
      exact ⟨key, read, Option.isSome_iff_exists.mpr ⟨wallet, later.kept stored⟩⟩
    · exact ih named behind
  | @mint state after entry rest mints key tx anchor read absent later ih =>
    intro named member
    rcases List.mem_cons.mp member with rfl | behind
    · exact ⟨key, read, Option.isSome_iff_exists.mpr ⟨_, later.kept getWallet_minted⟩⟩
    · exact ih named behind

end Mints

/-- Where every entry names a stored wallet the loop installs nothing. -/
theorem installEntries_of_present {clock : Nat → Timestamp} (present : ∀ entry ∈ entries, entry.Present C state)
    (installed : Nat) : installEntries C parameters clock entries installed state = (.ok installed, state) := by
  induction entries with
  | nil => rfl
  | cons entry rest ih =>
    have here := present entry List.mem_cons_self
    unfold installEntries
    rcases planSeedWallet_cases C state parameters entry (clock (3 * installed)) (clock (3 * installed + 1)) with
      ⟨unread, _⟩ | ⟨_, planned⟩ | ⟨_, absent, _⟩
    · exact absurd here.decodes unread
    · rw [planned]
      exact ih fun later member => present later (List.mem_cons_of_mem _ member)
    · exact absurd here absent

theorem installSeed_of_present {clock : Nat → Timestamp} {seed : SeedFile}
    (free : state.system.iterationLock = false)
    (present : ∀ entry ∈ seed.initialWallets, entry.Present C state) :
    installSeed C parameters seed clock state = (.ok 0, state.storeState) := by
  rw [installSeed, free, if_neg Bool.false_ne_true, installEntries_of_present present]

omit [F64 F] in
/-- Storing the state that is stored already changes no tree. -/
theorem trees_storeState_of_stored (stored : state.trees.state = some state.system) :
    state.storeState.trees = state.trees := by
  have one : state.storeState.trees = { state.trees with state := some state.system } := by
    rw [CoinState.storeState, CoinState.trees_writeAll]
    rfl
  rw [one, ← stored]

/-- A node that serves the file again: it installs nothing and changes nothing. -/
def SeedsNothing (C : Crypto) (seed : SeedFile) (state : CoinState F) : Prop :=
  ∀ (parameters : SystemParameters F) (clock : Nat → Timestamp),
    (installSeed C parameters seed clock state).1 = .ok 0 ∧
    (installSeed C parameters seed clock state).2.system = state.system ∧
    (installSeed C parameters seed clock state).2.trees = state.trees

theorem seedsNothing_of_present {seed : SeedFile} (free : state.system.iterationLock = false)
    (stored : state.trees.state = some state.system)
    (present : ∀ entry ∈ seed.initialWallets, entry.Present C state) : SeedsNothing C seed state := by
  intro parameters clock
  rw [installSeed_of_present free present]
  exact ⟨rfl, rfl, trees_storeState_of_stored stored⟩

theorem installSeed_ok {seed : SeedFile} {clock : Nat → Timestamp} {count : Nat}
    (ran : installSeed C parameters seed clock state = (.ok count, after)) :
    state.system.iterationLock = false ∧ ∃ left mints, Mints C parameters state seed.initialWallets mints left ∧
      count = mints.length ∧ after = left.storeState := by
  unfold installSeed at ran
  cases busy : state.system.iterationLock with
  | true =>
    rw [busy, if_pos rfl] at ran
    cases ran
  | false =>
    rw [busy, if_neg Bool.false_ne_true] at ran
    cases loop : installEntries C parameters clock seed.initialWallets 0 state with
    | mk outcome left =>
      rw [loop] at ran
      cases outcome with
      | ok installed =>
        cases ran
        obtain ⟨mints, course, total⟩ := installEntries_mints loop
        exact ⟨rfl, left, mints, course, by omega, rfl⟩
      | err e => cases ran
      | panic => cases ran

/-- A node that can sign gets through any file that decodes. -/
theorem installSeed_accepts {seed : SeedFile} (clock : Nat → Timestamp) (free : state.system.iterationLock = false)
    (formed : Crypto.WellFormedSecret state.operatorSecret) (decode : ∀ entry ∈ seed.initialWallets, entry.Decodes) :
    ∃ count after, installSeed C parameters seed clock state = (.ok count, after) := by
  rw [installSeed, free, if_neg Bool.false_ne_true]
  cases loop : installEntries C parameters clock seed.initialWallets 0 state with
  | mk outcome left =>
    cases outcome with
    | ok installed => exact ⟨_, _, rfl⟩
    | err e =>
      rcases installEntries_isErr (congrArg (fun ran => ran.1.isErr) loop) with malformed | ⟨entry, member, unread⟩
      · exact absurd formed malformed
      · exact absurd (decode entry member) unread
    | panic => exact absurd (congrArg Prod.fst loop) (installEntries_ne_panic _ _)

/-- A call that hashes listed inputs only. -/
def Event.Hashes (C : Crypto) (inputs : Set Bytes) (host : Host F) : Event F → Prop
  | .restart _ _ => True
  | .call asked => ∀ state, host.node = some state → ∀ input ∈ asked.hashes C state, input ∈ inputs

/-- Wallets on the disk are stored under the hashes of their keys, and a running node has a log to
go on from. -/
structure Host.Keyed (C : Crypto) (inputs : Set Bytes) (host : Host F) : Prop where
  stored : ∀ id wallet, host.storage.trees.wallets.get id = some wallet → wallet.Keyed C inputs
  running : ∀ state, host.node = some state →
    state.storage = host.storage ∧ state.system.lastPohHash.isEmpty = false

/-- The last hash of the log is never lost. -/
theorem Steps.lastPohHash_nonempty {admits : CoinState F → Booking F → Sheet F → Prop}
    (steps : Steps C admits state after) (initial : state.system.lastPohHash.isEmpty = false) :
    after.system.lastPohHash.isEmpty = false := by
  refine steps.invariant (fun s => s.system.lastPohHash.isEmpty = false) initial fun before next step holds => ?_
  cases step with
  | @enter booking sheet entry books _ _ anchored =>
    have tip : (before.enter sheet entry).system.lastPohHash = entry.hash := rfl
    rw [tip, anchored.hash_eq]
    exact C.blake3Hex_named _
  | @strand booking sheet books _ _ =>
    have tip : (before.stranded sheet.wallets sheet.system).system.lastPohHash = sheet.system.lastPohHash := rfl
    rw [tip, books.lastPohHash_eq]
    exact holds
  | quiet quiet =>
    obtain ⟨lock, same⟩ := quiet.system
    rw [same]
    exact holds

namespace Host.Keyed

variable {host : Host F}

omit [F64 F] in
theorem empty : (Host.empty : Host F).Keyed C inputs := by
  constructor
  · intro id wallet stored
    cases stored
  · intro state running
    cases running

omit [F64 F] in
theorem node (keyed : host.Keyed C inputs) (running : host.node = some state) : state.Keyed C inputs := by
  intro id wallet stored
  rw [CoinState.getWallet, CoinState.trees, (keyed.running state running).1] at stored
  exact keyed.stored id wallet stored

theorem next (keyed : host.Keyed C inputs) {event : Event F} (hashes : event.Hashes C inputs host) :
    (host.next C event).Keyed C inputs := by
  cases event with
  | call asked =>
    cases running : host.node with
    | none => rwa [next_call_none running]
    | some state =>
      have steps : Steps C (asked.Admits C state) state (asked.next C state) := asked.steps
      rw [next_call running]
      constructor
      · intro id wallet stored
        refine keyed_of_steps (fun during booking sheet admitted input member => ?_) (keyed.node running) steps id wallet
          stored
        exact hashes state running input (admitted.hashed input member)
      · rintro ran ⟨⟩
        exact ⟨rfl, steps.lastPohHash_nonempty (keyed.running state running).2⟩
  | restart env config =>
    cases ran : openCoinState C env config host.storage with
    | mk outcome left =>
      cases outcome with
      | error e =>
        obtain ⟨parameters, rfl⟩ := openCoinState_error ran
        rw [next_restart_error ran]
        constructor
        · intro id wallet stored
          rw [Storage.trees_writeAll] at stored
          exact keyed.stored id wallet stored
        · rintro state ⟨⟩
      | ok state =>
        have opened := openCoinState_opened (congrArg Prod.fst ran)
        obtain ⟨same, _⟩ := openCoinState_registry ran
        rw [next_restart ran]
        constructor
        · intro id wallet stored
          rw [← same] at stored
          have ledger : state.storage.trees.wallets = host.storage.trees.wallets := opened.ledger.wallets_eq
          rw [ledger] at stored
          exact keyed.stored id wallet stored
        · rintro node ⟨⟩
          refine ⟨same, ?_⟩
          rw [opened.system_eq]
          exact recoveredSystem_named _

end Host.Keyed

/-- No stored wallet has the key. -/
def NewKey (state : CoinState F) (key : FixedBytes 32) : Prop :=
  ∀ id wallet, state.getWallet id = some wallet → wallet.pubkey ≠ Hex.encode key.val

omit [F64 F] in
theorem getWallet_eq_none_iff_newKey {key : FixedBytes 32} (keyed : state.Keyed C inputs)
    (free : Set.InjOn C.blake3 inputs) (listed : key.val ∈ inputs) :
    state.getWallet (C.blake3Hex key.val) = none ↔ NewKey state key := by
  constructor
  · intro absent id wallet stored same
    obtain ⟨own, _, pubkey, named⟩ := keyed id wallet stored
    rw [pubkey] at same
    have wallet_id : wallet.id = id := KeyedTree.key_of_get stored
    rw [named, Hex.encode_injective same] at wallet_id
    rw [← wallet_id, absent] at stored
    cases stored
  · intro fresh
    cases stored : state.getWallet (C.blake3Hex key.val) with
    | none => rfl
    | some wallet =>
      obtain ⟨own, inside, pubkey, named⟩ := keyed _ wallet stored
      have wallet_id : wallet.id = C.blake3Hex key.val := KeyedTree.key_of_get stored
      rw [named] at wallet_id
      have keys : own.val = key.val := free inside listed (C.blake3Hex_inj.mp wallet_id)
      rw [keys] at pubkey
      exact absurd pubkey (fresh _ wallet stored)

/-- What an accepted seed file does: it mints one wallet for each new key that it names, with the
balance of the first entry that names it, and touches no other. -/
structure SeedInstalled (C : Crypto) (parameters : SystemParameters F) (seed : SeedFile) (state : CoinState F)
    (mints : List SeedMint) (after : CoinState F) : Prop where
  distinct : (mints.map SeedMint.key).Nodup
  keys : ∀ key, key ∈ mints.map SeedMint.key ↔
    (∃ entry ∈ seed.initialWallets, fixed32 entry.publicKey = .ok key) ∧ NewKey state key
  first : ∀ mint ∈ mints, ∃ before entry rest, seed.initialWallets = before ++ entry :: rest ∧
    fixed32 entry.publicKey = .ok mint.key ∧ (∀ earlier ∈ before, fixed32 earlier.publicKey ≠ .ok mint.key) ∧
    mint.amount = entry.initialBalance.getD (microSeed parameters)
  added : ∀ mint ∈ mints, ∃ wallet, after.getWallet (mint.id C) = some wallet ∧
    wallet.pubkey = Hex.encode mint.key.val ∧ wallet.balance = mint.amount ∧ wallet.nonce = 0
  size : after.trees.wallets.size = state.trees.wallets.size + mints.length
  kept : ∀ id wallet, state.getWallet id = some wallet → after.getWallet id = some wallet
  untouched : ∀ id, id ∉ mints.map (SeedMint.id C) → after.getWallet id = state.getWallet id
  supply : state.system.totalSupply + (mints.map SeedMint.amount).sum ≤ u64Max →
    after.system.totalSupply = state.system.totalSupply + (mints.map SeedMint.amount).sum

theorem Mints.installed {seed : SeedFile} {mints : List SeedMint} {left : CoinState F}
    (course : Mints C parameters state seed.initialWallets mints left) (keyed : state.Keyed C inputs)
    (free : Set.InjOn C.blake3 inputs)
    (listed : ∀ entry ∈ seed.initialWallets, ∀ key, fixed32 entry.publicKey = .ok key → key.val ∈ inputs) :
    SeedInstalled C parameters seed state mints left.storeState := by
  have wallets : left.storeState.trees.wallets = left.trees.wallets :=
    (CoinState.sameLedger_storeState left).wallets_eq
  have found : ∀ id, left.storeState.getWallet id = left.getWallet id := by
    intro id
    rw [CoinState.getWallet, wallets, CoinState.getWallet]
  obtain ⟨absent, distinct⟩ := course.fresh
  constructor
  case distinct =>
    have ids : mints.map (SeedMint.id C) = (mints.map SeedMint.key).map fun key => C.blake3Hex key.val := by
      rw [List.map_map]
      rfl
    rw [ids] at distinct
    exact distinct.of_map _
  case keys =>
    intro key
    constructor
    · intro member
      obtain ⟨mint, inside, rfl⟩ := List.mem_map.mp member
      obtain ⟨before, entry, rest, split, read, _⟩ := course.first mint inside
      have named : entry ∈ seed.initialWallets := by
        rw [split]
        exact List.mem_append_right _ List.mem_cons_self
      have key_listed := listed entry named mint.key read
      exact ⟨⟨entry, named, read⟩, (getWallet_eq_none_iff_newKey keyed free key_listed).mp (absent mint inside)⟩
    · rintro ⟨⟨entry, named, read⟩, fresh⟩
      have missing := (getWallet_eq_none_iff_newKey keyed free (listed entry named key read)).mpr fresh
      exact course.complete free listed entry named key read missing
  case first =>
    intro mint member
    obtain ⟨before, entry, rest, split, read, earliest, taken⟩ := course.first mint member
    exact ⟨before, entry, rest, split, read, earliest, congrArg SeedMint.amount taken⟩
  case added =>
    intro mint member
    rw [found]
    exact course.added mint member
  case size => rw [wallets, course.size_eq]
  case kept =>
    intro id wallet stored
    rw [found]
    exact course.kept stored
  case untouched =>
    intro id other
    rw [found]
    exact course.untouched other
  case supply => exact course.totalSupply_eq

/-- A node that opens the database holds what its predecessor stored last. -/
theorem openCoinState_resumes {env : String → Option String} {config : NodeConfig F} {again : CoinState F}
    {left : Storage F} (opened : openCoinState C env config state.storage = (.ok again, left))
    (stored : state.trees.state = some state.system) (full : state.system.lastPohHash.isEmpty = false) :
    again.system = state.system.reread ∧ again.trees.state = some again.system ∧
      ∀ id, again.getWallet id = state.getWallet id := by
  have start := openCoinState_opened (congrArg Prod.fst opened)
  have recovered : recoveredSystem state.storage.trees.state = state.system.reread := by
    have same : state.storage.trees.state = some state.system := stored
    rw [same, recoveredSystem_of_named full]
  refine ⟨start.system_eq.trans recovered, start.stored_eq, fun id => ?_⟩
  have ledger : again.trees.wallets = state.trees.wallets := start.ledger.wallets_eq
  rw [CoinState.getWallet, ledger, CoinState.getWallet]

/-- An accepted seed file mints one wallet for each new key it names and nothing else; served again,
by the same node or by one that opened the database since, it mints nothing and changes nothing. -/
theorem install_seed_idempotent (free : Set.InjOn C.blake3 inputs) {host : Host F}
    (run : Host.Run C (fun host event => event.Hashes C inputs host) host) (running : host.node = some state)
    {seed : SeedFile} {clock : Nat → Timestamp}
    (listed : ∀ input ∈ (Call.installSeed parameters seed clock).hashes C state, input ∈ inputs) {count : Nat}
    (accepted : installSeed C parameters seed clock state = (.ok count, after)) :
    (∃ mints, count = mints.length ∧ SeedInstalled C parameters seed state mints after) ∧
    SeedsNothing C seed after ∧
    ∀ (env : String → Option String) (config : NodeConfig F) (again : CoinState F) (left : Storage F),
      openCoinState C env config after.storage = (.ok again, left) →
        again.system = after.system.reread ∧ SeedsNothing C seed again := by
  have keyed : host.Keyed C inputs := run.invariant (Host.Keyed C inputs) .empty fun _ _ before hashes =>
    before.next hashes
  have keys : ∀ entry ∈ seed.initialWallets, ∀ key, fixed32 entry.publicKey = .ok key → key.val ∈ inputs := by
    intro entry member key read
    exact listed _ (List.mem_flatMap.mpr ⟨entry, member, mem_keyBytes read⟩)
  have full : after.system.lastPohHash.isEmpty = false := by
    have steps : Steps C ((Call.installSeed parameters seed clock).Admits C state) state
        (installSeed C parameters seed clock state).2 := installSeed_steps seed
    rw [accepted] at steps
    exact steps.lastPohHash_nonempty (keyed.running state running).2
  obtain ⟨unlocked, last, mints, course, total, rfl⟩ := installSeed_ok accepted
  have stored : last.storeState.trees.state = some last.storeState.system := by
    rw [CoinState.storeState, CoinState.trees_writeAll]
    rfl
  have still : last.storeState.system.iterationLock = false := course.iterationLock_eq.trans unlocked
  have present : ∀ entry ∈ seed.initialWallets, entry.Present C last.storeState := by
    intro entry member
    obtain ⟨key, read, found⟩ := course.present entry member
    refine ⟨key, read, ?_⟩
    rw [CoinState.getWallet, (CoinState.sameLedger_storeState last).wallets_eq]
    exact found
  refine ⟨⟨mints, total, course.installed (keyed.node running) free keys⟩,
    seedsNothing_of_present still stored present, fun env config again left opened => ?_⟩
  obtain ⟨same, kept, found⟩ := openCoinState_resumes opened stored full
  refine ⟨same, seedsNothing_of_present (by rw [same]; exact still) kept fun entry member => ?_⟩
  obtain ⟨key, read, held⟩ := present entry member
  exact ⟨key, read, by rw [found]; exact held⟩

namespace Concrete

/-- One key twice, with two balances. -/
def twinSeed : SeedFile := ⟨[⟨Hex.encode (key 7).val, some 5⟩, ⟨Hex.encode (key 7).val, some 9⟩]⟩

theorem twinSeed_read {entry : SeedWallet} (member : entry ∈ twinSeed.initialWallets) :
    fixed32 entry.publicKey = .ok (key 7) := by
  have read : fixed32 (Hex.encode (key 7).val) = .ok (key 7) := fixedBytes_encode (key 7) (by decide)
  have both : entry = ⟨Hex.encode (key 7).val, some 5⟩ ∨ entry = ⟨Hex.encode (key 7).val, some 9⟩ := by
    simpa [twinSeed] using member
  rcases both with rfl | rfl
  · exact read
  · exact read

def freshHost : Host ℚ := Host.next crypto Host.empty (.restart (fun _ => none) config)

theorem freshHost_node : freshHost.node = some node := by
  have opened : openCoinState crypto (fun _ => none) config (Host.empty : Host ℚ).storage = (.ok node, opened.2) :=
    Prod.ext opened_node rfl
  rw [freshHost, Host.next_restart opened]

end Concrete

/-- A key that a file names twice is minted once, and the file served again changes nothing. -/
theorem install_seed_idempotent_twin :
    ∃ after, installSeed Concrete.crypto Concrete.parameters Concrete.twinSeed (fun _ => 0) Concrete.node =
        (.ok 1, after) ∧ SeedsNothing Concrete.crypto Concrete.twinSeed after := by
  have accepts : ∃ count after, installSeed Concrete.crypto Concrete.parameters Concrete.twinSeed (fun _ => 0)
      Concrete.node = (.ok count, after) :=
    installSeed_accepts _ Concrete.node_free Concrete.node_formed fun entry member => ⟨_, Concrete.twinSeed_read member⟩
  obtain ⟨count, after, accepted⟩ := accepts
  have free : Set.InjOn Concrete.crypto.blake3 {(Concrete.key 7).val} := Set.injOn_singleton _ _
  have run : Host.Run Concrete.crypto
      (fun host event => event.Hashes Concrete.crypto {(Concrete.key 7).val} host) Concrete.freshHost :=
    .next .start trivial
  have listed : ∀ input ∈ (Call.installSeed Concrete.parameters Concrete.twinSeed fun _ => 0).hashes Concrete.crypto
      Concrete.node, input ∈ ({(Concrete.key 7).val} : Set Bytes) := by
    intro input member
    obtain ⟨entry, inside, hashed⟩ := List.mem_flatMap.mp member
    rw [keyBytes, Concrete.twinSeed_read inside] at hashed
    exact List.mem_singleton.mp hashed
  obtain ⟨⟨mints, total, installed⟩, again, _⟩ :=
    install_seed_idempotent free run Concrete.freshHost_node listed accepted
  have keys : ∀ key, key ∈ mints.map SeedMint.key ↔ key = Concrete.key 7 := by
    intro key
    rw [installed.keys]
    constructor
    · rintro ⟨⟨entry, member, read⟩, _⟩
      exact Except.ok.inj (read.symm.trans (Concrete.twinSeed_read member))
    · rintro rfl
      refine ⟨⟨_, List.mem_cons_self, Concrete.twinSeed_read List.mem_cons_self⟩, fun id wallet stored => ?_⟩
      rw [Concrete.node_opened.getWallet] at stored
      cases stored
  have single : (mints.map SeedMint.key).length = 1 := by
    have perm := (List.perm_ext_iff_of_nodup installed.distinct (List.nodup_singleton (Concrete.key 7))).mpr
      fun key => (keys key).trans List.mem_singleton.symm
    exact perm.length_eq
  rw [List.length_map] at single
  rw [single] at total
  subst total
  exact ⟨after, accepted, again⟩

end AggoraCoin
