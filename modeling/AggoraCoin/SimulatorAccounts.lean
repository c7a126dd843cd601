import AggoraCoin.Iteration.Balance
import AggoraCoin.SimulatorRounds

namespace AggoraCoin

open F64 Unsigned

variable {F : Type}

section Reidentify

variable [F64 F] (C : Crypto) (iterationId : IterationId)

theorem reidentify_supply (wallets : List (Wallet F)) (next : Nat) :
    supplyOf (reidentify C iterationId wallets next).1 = supplyOf wallets := by
  induction wallets generalizing next with
  | nil => rfl
  | cons wallet rest ih =>
    unfold reidentify
    split
    · exact congrArg (wallet.balance + ·) (ih _)
    · exact congrArg (wallet.balance + ·) (ih _)

theorem reidentify_length (wallets : List (Wallet F)) (next : Nat) :
    (reidentify C iterationId wallets next).1.length = wallets.length := by
  induction wallets generalizing next with
  | nil => rfl
  | cons wallet rest ih =>
    unfold reidentify
    split
    · exact congrArg (· + 1) (ih _)
    · exact congrArg (· + 1) (ih _)

variable {C iterationId}

theorem reidentify_append {old : List (Wallet F)} (fresh : List (Wallet F))
    (others : ∀ wallet ∈ old, wallet.createdAtIteration ≠ iterationId) (next : Nat) :
    reidentify C iterationId (old ++ fresh) next =
      (old ++ (reidentify C iterationId fresh next).1, (reidentify C iterationId fresh next).2) := by
  induction old with
  | nil => rfl
  | cons wallet rest ih =>
    have here := others wallet List.mem_cons_self
    rw [List.cons_append, reidentify, if_neg here, ih fun other member => others other (List.mem_cons_of_mem wallet member)]
    rfl

/-- The faucet wallets of an iteration continue the numbering. -/
theorem reidentify_numbered {old fresh : List (Wallet F)} {next : Nat}
    (opened : ∀ wallet ∈ fresh, wallet.createdAtIteration = iterationId) (numbered : Numbered C old)
    (position : next = old.length) (fits : old.length + fresh.length ≤ u64Max) :
    Numbered C (old ++ (reidentify C iterationId fresh next).1) ∧
      (reidentify C iterationId fresh next).2 = old.length + fresh.length := by
  induction fresh generalizing old next with
  | nil =>
    rw [reidentify, List.append_nil]
    exact ⟨numbered, position⟩
  | cons wallet rest ih =>
    rw [List.length_cons] at fits
    have room : next + 1 ≤ u64Max := by omega
    have following : wrappingAdd 64 next 1 = next + 1 := wrappingAdd_of_le room
    have here := opened wallet List.mem_cons_self
    subst position
    have later := @ih (old ++ [simWallet C old.length wallet.balance]) (old.length + 1)
      (fun other member => opened other (List.mem_cons_of_mem wallet member)) (numbered.append wallet.balance)
      (by rw [List.length_append, List.length_singleton])
      (by rw [List.length_append, List.length_singleton]; omega)
    rw [List.append_assoc, List.length_append, List.length_singleton] at later
    rw [reidentify, if_pos here, following, List.length_cons]
    refine ⟨later.1, ?_⟩
    rw [later.2]
    omega

end Reidentify

section Births

variable [F64 F]

/-- The iteration engine keeps every wallet in its place, under its id. -/
theorem settleIteration_births (parameters : SystemParameters F) (beta : F) (wallets : List (Wallet F)) :
    (settleIteration parameters beta wallets).wallets.map Wallet.birth = wallets.map Wallet.birth := by
  have penalties := settleIteration_penalties_length parameters beta wallets
  have rewards := settleIteration_rewards_length parameters beta wallets
  have rewarded (wallet : Wallet F) (reward : MicroAgc) : (rewardWallet wallet reward).birth = wallet.birth := by
    simp only [Wallet.birth, rewardWallet]
  have charged (wallet : Wallet F) (penalty : MicroAgc) :
      (chargeWallet parameters.economy wallet penalty).birth = wallet.birth := by
    simp only [Wallet.birth, chargeWallet]
  rw [settleIteration_wallets, map_zipWith_left rewardWallet Wallet.birth Wallet.birth rewarded,
    map_zipWith_left (chargeWallet parameters.economy) Wallet.birth Wallet.birth charged]
  · exact penalties.symm
  · simp [penalties, rewards]

/-- After the pass over the ids the faucet wallets are numbered like all others. -/
theorem IterationResult.Valid.renumbered {C : Crypto} {parameters : SystemParameters F} {state : SystemState F}
    {operatorId : OperatorId} {wallets : List (Wallet F)} {beta : F} {result : IterationResult F}
    (valid : result.Valid C parameters state operatorId wallets beta) (numbered : Numbered C wallets)
    (fits : wallets.length + plannedNewWallets parameters.growth wallets.length ≤ u64Max) :
    Numbered C (reidentify C result.commit.iterationId result.wallets wallets.length).1 ∧
      (reidentify C result.commit.iterationId result.wallets wallets.length).2 =
        wallets.length + plannedNewWallets parameters.growth wallets.length ∧
      (reidentify C result.commit.iterationId result.wallets wallets.length).1.length =
        wallets.length + plannedNewWallets parameters.growth wallets.length := by
  have settled := numbered.of_births (settleIteration_births parameters beta wallets)
  have length := settleIteration_wallets_length parameters beta wallets
  have planned : (plannedWallets C parameters state operatorId wallets.length).length =
      plannedNewWallets parameters.growth wallets.length := by
    rw [plannedWallets, List.length_map, List.length_range]
  have old : ∀ wallet ∈ (settleIteration parameters beta wallets).wallets,
      wallet.createdAtIteration ≠ result.commit.iterationId := by
    intro wallet member
    rw [settled.created member, valid.iterationId_eq]
    exact (Nat.succ_ne_zero _).symm
  have opened : ∀ wallet ∈ plannedWallets C parameters state operatorId wallets.length,
      wallet.createdAtIteration = result.commit.iterationId := by
    intro wallet member
    obtain ⟨idx, _, rfl⟩ := List.mem_map.mp member
    exact valid.iterationId_eq.symm
  have whole := reidentify_numbered opened settled length.symm (by rwa [length, planned])
  rw [length, planned] at whole
  have size : (reidentify C result.commit.iterationId result.wallets wallets.length).1.length =
      wallets.length + plannedNewWallets parameters.growth wallets.length := by
    rw [reidentify_length, valid.wallets_eq, List.length_append, length, planned]
  have split := reidentify_append (C := C) (plannedWallets C parameters state operatorId wallets.length) old wallets.length
  rw [← valid.wallets_eq] at split
  refine ⟨?_, ?_, size⟩
  · rw [split]
    exact whole.1
  · rw [split]
    exact whole.2

end Births

/-- The number of wallets after so many iterations, which no draw decides. -/
def populationAfter [F64 F] (parameters : SystemParameters F) (config : SimConfig F) : Nat → Nat
  | 0 => config.initialWallets
  | k + 1 =>
    let crowd := populationAfter parameters config k + spawnedWallets (k + 1) config.scriptedEvents
    crowd + plannedNewWallets parameters.growth crowd

section Rows

/-- Each row continues the supply of the row before; the first one continues the initial
supply. -/
def RowsAccount (issued : Nat → MicroAgc) (initial : MicroAgc) (rows : List (SimMetrics F)) : Prop :=
  ∀ k row previous, rows[k]? = some row → (initial :: rows.map SimMetrics.supply)[k]? = some previous →
    row.iteration = k + 1 ∧ row.supply + row.burned = previous + issued k + row.faucetFromMint

variable {issued : Nat → MicroAgc} {initial : MicroAgc} {rows : List (SimMetrics F)}

theorem RowsAccount.append (account : RowsAccount issued initial rows) {row : SimMetrics F} {previous : MicroAgc}
    (last : (initial :: rows.map SimMetrics.supply)[rows.length]? = some previous)
    (named : row.iteration = rows.length + 1)
    (balanced : row.supply + row.burned = previous + issued rows.length + row.faucetFromMint) :
    RowsAccount issued initial (rows ++ [row]) := by
  intro k other before found earlier
  have bound : k < rows.length + 1 := by simpa using (List.getElem?_eq_some_iff.mp found).choose
  have kept : (initial :: (rows ++ [row]).map SimMetrics.supply)[k]? = (initial :: rows.map SimMetrics.supply)[k]? := by
    rw [List.map_append, ← List.cons_append, List.getElem?_append_left (by simpa using bound)]
  rw [kept] at earlier
  rcases Nat.lt_or_ge k rows.length with old | new
  · rw [List.getElem?_append_left old] at found
    exact account k other before found earlier
  · have at_end : k = rows.length := by omega
    subst at_end
    rw [List.getElem?_concat_length] at found
    cases found
    rw [last] at earlier
    cases earlier
    exact ⟨named, balanced⟩

/-- Rows that account for one issue account for another one only if the two are the same in every
iteration. -/
theorem RowsAccount.iff_issued (account : RowsAccount issued initial rows) (other : Nat → MicroAgc) :
    RowsAccount other initial rows ↔ ∀ k < rows.length, issued k = other k := by
  have previous_at {k : Nat} (inside : k < rows.length) :
      ∃ previous, (initial :: rows.map SimMetrics.supply)[k]? = some previous :=
    ⟨_, List.getElem?_eq_getElem (by rw [List.length_cons, List.length_map]; omega)⟩
  constructor
  · intro claimed k inside
    obtain ⟨previous, earlier⟩ := previous_at inside
    have found := List.getElem?_eq_getElem inside
    have first := (account k _ previous found earlier).2
    have second := (claimed k _ previous found earlier).2
    exact Nat.add_left_cancel (Nat.add_right_cancel (first.symm.trans second))
  · intro same k row previous found earlier
    have inside := (List.getElem?_eq_some_iff.mp found).choose
    have balanced := account k row previous found earlier
    rwa [same k inside] at balanced

end Rows

section Run

variable [SampleF64 F] (C : Crypto) (R : Rng F) (parameters : SystemParameters F) (config : SimConfig F) (fuel : Nat)

/-- What the events of iteration `k + 1` put on wallets. -/
def issuedIn (k : Nat) : MicroAgc :=
  spawnedSupply (k + 1) (microSeed parameters) config.scriptedEvents +
    creditedSupply (k + 1) (populationAfter parameters config k) config.scriptedEvents

/-- What they say they issue. -/
def announcedIn (k : Nat) : MicroAgc :=
  spawnedSupply (k + 1) (microSeed parameters) config.scriptedEvents +
    chargedSupply (k + 1) (populationAfter parameters config k) config.scriptedEvents

def initialSupply : MicroAgc := supplyOf (simStart C R parameters config).wallets

variable {R}

/-- The sums of one iteration fit in `u64`, and its floored rewards in their pool. -/
structure RoundFits (k : Nat) (before : SimState F R) : Prop where
  issued : supplyOf before.wallets + issuedIn parameters config k ≤ u64Max
  iteration : ∀ round beta, beforeIteration C parameters config fuel before = some round →
    burnRate parameters.economy (measuredInflation before.state) = some beta →
      IterationFits parameters beta round.wallets

/-- The state of the loop after `rounds` passes. -/
structure SimState.Sound (rounds : Nat) (state : SimState F R) : Prop where
  numbered : Numbered C state.wallets
  next : state.nextWalletIdx = state.wallets.length
  population : state.wallets.length = populationAfter parameters config rounds
  iteration : state.state.currentIteration = rounds
  length : state.metrics.length = rounds
  supply : (initialSupply C R parameters config :: state.metrics.map SimMetrics.supply)[rounds]? =
    some (supplyOf state.wallets)
  account : RowsAccount (issuedIn parameters config) (initialSupply C R parameters config) state.metrics

theorem initialWallets_births (seed : MicroAgc) (i remaining : Nat) (rng : R.State) :
    (initialWallets C R config seed i remaining rng).1.map Wallet.birth =
      (List.range' i remaining).map fun idx => (simWalletId C idx, 0) := by
  induction remaining generalizing i rng with
  | zero => rfl
  | succ remaining ih =>
    have later := ih (i + 1) (initialBalance R config.initialWealthSigma seed rng).2
    rw [List.range'_succ, List.map_cons, ← later, initialWallets]
    rfl

variable {C parameters config fuel}

theorem simStart_sound : (simStart C R parameters config).Sound C parameters config 0 := by
  have births := initialWallets_births C config (microSeed parameters) 0 config.initialWallets
    (R.seedFromU64 config.rngSeed)
  have length : (simStart C R parameters config).wallets.length = config.initialWallets := by
    have sizes := congrArg List.length births
    rwa [List.length_map, List.length_map, List.length_range'] at sizes
  constructor
  case numbered =>
    unfold Numbered
    rw [length, List.range_eq_range']
    exact births
  case next => exact length.symm
  case population => exact length
  case iteration => rfl
  case length => rfl
  case supply => rfl
  case account =>
    intro k row previous found
    cases found

theorem beforeIteration_grows {k : Nat} {before : SimState F R} {round : SimRound F R}
    (sound : before.Sound C parameters config k) (fits : RoundFits C parameters config fuel k before)
    (prepared : beforeIteration C parameters config fuel before = some round) :
    SimRound.Grows C (spawnedWallets (k + 1) config.scriptedEvents) (issuedIn parameters config k)
      { wallets := before.wallets, nextWalletIdx := before.nextWalletIdx, rng := before.rng, nTxs := 0 } round := by
  have room := fits.issued
  unfold beforeIteration at prepared
  unfold issuedIn at room ⊢
  rw [← sound.population] at room ⊢
  rw [sound.iteration] at prepared
  generalize start_eq : (SimRound.mk before.wallets before.nextWalletIdx before.rng 0 : SimRound F R) = start at prepared ⊢
  have sized : before.wallets.length = start.wallets.length := by rw [← start_eq]
  have held : supplyOf before.wallets = start.total := by rw [← start_eq, SimRound.total]
  rw [sized] at room ⊢
  rw [held] at room
  have events := SimRound.applyScriptedEvents_grows (C := C) config.transferFractionMean room
  refine events.trans (SimRound.syntheticActivity_grows ?_ prepared)
  rw [events.supply]
  exact room

/-- One pass of the loop keeps the books. -/
theorem SimState.Sound.step {k : Nat} {before : SimState F R} {round : SimRound F R} {beta : F}
    {result : IterationResult F} (sound : before.Sound C parameters config k)
    (fits : RoundFits C parameters config fuel k before)
    (prepared : beforeIteration C parameters config fuel before = some round)
    (valid : result.Valid C parameters before.state "sim-operator" round.wallets beta)
    (crowd : populationAfter parameters config (k + 1) ≤ u64Max) :
    (afterIteration C before round result).Sound C parameters config (k + 1) := by
  have grows := beforeIteration_grows sound fits prepared
  have accounts := valid.accounts (fits.iteration round beta prepared valid.rate)
  have people : round.wallets.length =
      populationAfter parameters config k + spawnedWallets (k + 1) config.scriptedEvents := by
    rw [grows.population, ← sound.population]
  have planned : populationAfter parameters config (k + 1) =
      round.wallets.length + plannedNewWallets parameters.growth round.wallets.length := by
    rw [people]
    rfl
  have numbered := grows.numbered (by
    rw [sound.population, ← people]
    exact (Nat.le_add_right _ _).trans (planned.symm.le.trans crowd)) ⟨sound.numbered, sound.next⟩
  have renumbered := valid.renumbered numbered.wallets (planned.symm.le.trans crowd)
  rw [← numbered.next] at renumbered
  have held := reidentify_supply C result.commit.iterationId result.wallets round.nextWalletIdx
  have named : result.commit.iterationId = before.metrics.length + 1 := by
    rw [valid.iterationId_eq, sound.iteration, sound.length]
  have last := sound.supply
  have issued : (round.wallets.map Wallet.balance).sum = supplyOf before.wallets + issuedIn parameters config k :=
    grows.supply
  have balanced : result.commit.postSupply + result.commit.burned =
      supplyOf before.wallets + issuedIn parameters config k + result.commit.faucetFromMint := by
    have below := accounts.burned_le_snapshot
    rw [accounts.post, ← issued, ← accounts.snapshot]
    exact (Nat.add_right_comm _ _ _).trans (congrArg (· + result.commit.faucetFromMint) (Nat.sub_add_cancel below))
  constructor
  case numbered => exact renumbered.1
  case next => exact renumbered.2.1.trans renumbered.2.2.symm
  case population =>
    rw [planned, ← numbered.next]
    exact renumbered.2.2
  case iteration =>
    rw [← sound.length]
    exact named
  case length => exact List.length_append.trans (congrArg (· + 1) sound.length)
  case supply =>
    have at_end (row : SimMetrics F) : (before.metrics ++ [row])[k]? = some row := by
      rw [← sound.length]
      exact List.getElem?_concat_length
    refine (List.getElem?_map.trans (congrArg _ (at_end _))).trans (congrArg some ?_)
    exact accounts.post_exact.trans held.symm
  case account =>
    rw [← sound.length] at last
    refine sound.account.append last named ?_
    rw [sound.length]
    exact balanced

theorem isSome_simIteration {before : SimState F R}
    (prepared : (beforeIteration C parameters config fuel before).isSome) :
    (simIteration C parameters config fuel before).isSome := by
  obtain ⟨round, ready⟩ := Option.isSome_iff_exists.mp prepared
  unfold simIteration
  rw [ready]
  dsimp only
  split <;> rfl

/-- With `burn_min <= burn_max` a pass of the loop returns, unless a Poisson draw does not end. -/
theorem simIteration_cases (ordered : le parameters.economy.burnMin parameters.economy.burnMax = true)
    (before : SimState F R) :
    simIteration C parameters config fuel before = none ∨
      ∃ round beta result, beforeIteration C parameters config fuel before = some round ∧
        result.Valid C parameters before.state "sim-operator" round.wallets beta ∧
        simIteration C parameters config fuel before = some (.ok (afterIteration C before round result)) := by
  unfold simIteration
  cases prepared : beforeIteration C parameters config fuel before with
  | none => exact Or.inl rfl
  | some round =>
    rcases executeIteration_cases C parameters before.state "sim-operator" round.wallets with
      ⟨panics, _⟩ | ⟨beta, result, returned, valid⟩
    · have clamped := (isSome_burnRate_iff _ (measuredInflation before.state)).mpr ordered
      rw [panics] at clamped
      cases clamped
    · refine Or.inr ⟨round, beta, result, rfl, valid, ?_⟩
      simp only [returned]

end Run

section Accounts

variable [SampleF64 F] (C : Crypto) (R : Rng F) (parameters : SystemParameters F) (config : SimConfig F) (fuel : Nat)

theorem populationAfter_mono {j k : Nat} (earlier : j ≤ k) :
    populationAfter parameters config j ≤ populationAfter parameters config k := by
  induction earlier with
  | refl => exact le_rfl
  | step _ ih => exact ih.trans ((Nat.le_add_right _ _).trans (Nat.le_add_right _ _))

/-- The sums of each of the first iterations fit. -/
def SimFits (rounds : Nat) : Prop :=
  ∀ k < rounds, ∀ before, simAfter C R parameters config fuel k = some (.ok before) →
    RoundFits C parameters config fuel k before

variable {C R parameters config fuel}

theorem simAfter_sound {rounds : Nat} (ordered : le parameters.economy.burnMin parameters.economy.burnMax = true)
    (crowd : populationAfter parameters config rounds ≤ u64Max) (fits : SimFits C R parameters config fuel rounds) :
    simAfter C R parameters config fuel rounds = none ∨
      ∃ last, simAfter C R parameters config fuel rounds = some (.ok last) ∧ last.Sound C parameters config rounds := by
  induction rounds with
  | zero => exact Or.inr ⟨_, rfl, simStart_sound⟩
  | succ k ih =>
    have fewer := (populationAfter_mono parameters config (Nat.le_succ k)).trans crowd
    have earlier : SimFits C R parameters config fuel k := fun j before => fits j (before.trans (Nat.lt_succ_self k))
    unfold simAfter
    rcases ih fewer earlier with endless | ⟨before, reached, sound⟩
    · rw [endless]
      exact Or.inl rfl
    · rw [reached]
      rcases simIteration_cases ordered before with endless | ⟨round, beta, result, prepared, valid, returned⟩
      · exact Or.inl endless
      · exact Or.inr ⟨_, returned, sound.step (fits k (Nat.lt_succ_self k) before reached) prepared valid crowd⟩

variable (C R parameters config fuel)

/-- What the simulator accounts for after `rounds` iterations, with the events taken at their
word. -/
structure SimAccounts (rounds : Nat) (last : SimState F R) : Prop where
  distinct : ∀ k ≤ rounds, ∀ state, simAfter C R parameters config fuel k = some (.ok state) →
    (state.wallets.map Wallet.id).Nodup
  synthetic : ∀ (round after : SimRound F R) currentIteration, round.total ≤ u64Max →
    round.syntheticActivity fuel config currentIteration = some after → after.total = round.total
  transferBurst : ∀ (round : SimRound F R) iterId seed mean atIteration nTxs fraction, round.total ≤ u64Max →
    (round.applyEvent C iterId seed mean (.transferBurst atIteration nTxs fraction)).total = round.total
  wealthShock : ∀ (round : SimRound F R) iterId seed mean atIteration fraction, round.total ≤ u64Max →
    (round.applyEvent C iterId seed mean (.wealthShock atIteration fraction)).total = round.total
  length : last.metrics.length = rounds
  rows : RowsAccount (announcedIn parameters config) (initialSupply C R parameters config) last.metrics

variable {C R parameters config fuel}

theorem issuedIn_eq_iff {k : Nat} : issuedIn parameters config k = announcedIn parameters config k ↔
    BurstsSplitEvenly (k + 1) (populationAfter parameters config k) config.scriptedEvents := by
  unfold issuedIn announcedIn
  rw [Nat.add_left_cancel_iff]
  exact creditedSupply_eq_iff

variable (C R parameters config fuel)

/-- Whatever the generator draws, the simulator accounts for every unit that its events announce
exactly when every charge burst splits its amount evenly. `run_simulation` returns the rows of the
state after its last iteration. -/
theorem simulator_accounts_iff (rounds : Nat) (ordered : le parameters.economy.burnMin parameters.economy.burnMax = true)
    (crowd : populationAfter parameters config rounds ≤ u64Max) (fits : SimFits C R parameters config fuel rounds)
    (free : Set.InjOn C.blake3 (simWalletLabels (populationAfter parameters config rounds))) :
    simAfter C R parameters config fuel rounds = none ∨
      ∃ last, simAfter C R parameters config fuel rounds = some (.ok last) ∧
        (rounds = config.iterations → runSimulation C R parameters config fuel = some (.ok last.metrics)) ∧
        (SimAccounts C R parameters config fuel rounds last ↔
          ∀ k < rounds, BurstsSplitEvenly (k + 1) (populationAfter parameters config k) config.scriptedEvents) := by
  rcases simAfter_sound ordered crowd fits with endless | ⟨last, reached, sound⟩
  · exact Or.inl endless
  refine Or.inr ⟨last, reached, ?_, ?_⟩
  · rintro rfl
    simp only [runSimulation, reached]
  have account := sound.account.iff_issued (announcedIn parameters config)
  rw [sound.length] at account
  constructor
  · intro accounts k inside
    exact issuedIn_eq_iff.mp (account.mp accounts.rows k inside)
  · intro even
    constructor
    case distinct =>
      intro k earlier state found
      have fewer := populationAfter_mono parameters config earlier
      have part : SimFits C R parameters config fuel k := fun j before => fits j (before.trans_le earlier)
      rcases simAfter_sound ordered (fewer.trans crowd) part with endless | ⟨state', found', sound'⟩
      · rw [found] at endless
        cases endless
      · rw [found] at found'
        cases found'
        exact sound'.numbered.nodup (sound'.population.trans_le fewer) free
    case synthetic =>
      intro round after currentIteration room ran
      exact (SimRound.syntheticActivity_grows (C := C) room ran).supply
    case transferBurst =>
      intro round iterId seed mean atIteration nTxs fraction room
      exact (SimRound.applyEvent_grows (C := C) seed mean (.transferBurst atIteration nTxs fraction) room).supply
    case wealthShock =>
      intro round iterId seed mean atIteration fraction room
      exact (SimRound.applyEvent_grows (C := C) seed mean (.wealthShock atIteration fraction) room).supply
    case length => exact sound.length
    case rows => exact account.mpr fun k inside => issuedIn_eq_iff.mpr (even k inside)

end Accounts

/-- Rational stand-ins for the functions the draws use. -/
instance : SampleF64 ℚ where
  exp q := 1 / (1 - q)
  sqrt q := q
  cos _ := 1
  tau := 6
  minPositive := 1 / 1000
  roundU64 q := floorU64 (q + 1 / 2)
  ceilUsize q := floorU64 q + 1
  roundU64_le _ := floorU64_le _

namespace Concrete

/-- A generator that counts its draws. -/
def rng : Rng ℚ where
  State := Nat
  seedFromU64 seed := seed
  gen drawn := (1 / 2, drawn + 1)
  genRange n drawn := (drawn % n, drawn + 1)
  genRange_lt _ inhabited := Nat.mod_lt _ inhabited

/-- Two wallets, and one event of each kind in the only iteration. -/
def simConfig (amount : MicroAgc) : SimConfig ℚ where
  initialWallets := 2
  initialWealthSigma := 0
  iterations := 1
  txPerWalletMean := 1
  transferFractionMean := 1 / 20
  rngSeed := 1
  scriptedEvents := [.spawnWallets 1 1 (some 5000000), .chargeBurst 1 amount 3, .transferBurst 1 1 (some (1 / 2)),
    .wealthShock 1 (1 / 4)]

theorem simLabels_free {population : Nat} (six : population = 6) :
    Set.InjOn crypto.blake3 (simWalletLabels population) := by
  subst six
  have apart : ∀ i < 6, ∀ j < 6, digest (simWalletLabel i) = digest (simWalletLabel j) →
      simWalletLabel i = simWalletLabel j := by decide +kernel
  rintro _ ⟨i, low, rfl⟩ _ ⟨j, small, rfl⟩ same
  rw [blake3_eq, blake3_eq] at same
  exact apart i low j small same

/-- The first iteration of a configuration fits when its sums do. -/
theorem simFits_one {config : SimConfig ℚ}
    (issued : supplyOf (simStart crypto rng parameters config).wallets + issuedIn parameters config 0 ≤ u64Max)
    (sums : ∀ round ∈ beforeIteration crypto parameters config 5 (simStart crypto rng parameters config),
      (round.wallets.map Wallet.balance).sum ≤ u64Max ∧
      plannedNewWallets parameters.growth round.wallets.length * microSeed parameters ≤ u64Max ∧
      (settleIteration parameters (9 / 100) round.wallets).shares.sum ≤
        (settleIteration parameters (9 / 100) round.wallets).allocation.redistributionPool ∧
      (round.wallets.map Wallet.balance).sum - (settleIteration parameters (9 / 100) round.wallets).burned +
        (settleIteration parameters (9 / 100) round.wallets).allocation.faucetFromMint ≤ u64Max) :
    SimFits crypto rng parameters config 5 1 := by
  intro k first before reached
  have start : k = 0 := by omega
  subst start
  cases reached
  refine ⟨issued, fun round beta prepared rate => ?_⟩
  have nine : burnRate parameters.economy (measuredInflation .default) = some (9 / 100) := by decide +kernel
  cases nine.symm.trans rate
  obtain ⟨pre, faucet, shares, post⟩ := sums round prepared
  exact ⟨pre, faucet, shares, post⟩

end Concrete

open Concrete in
/-- A burst of twelve over three wallets is accounted for. -/
theorem simulator_accounts_even :
    ∃ last, simAfter crypto rng parameters (simConfig 12) 5 1 = some (.ok last) ∧
      SimAccounts crypto rng parameters (simConfig 12) 5 1 last := by
  rcases simulator_accounts_iff crypto rng parameters (simConfig 12) 5 1 (by decide +kernel) (by decide +kernel)
    (simFits_one (by decide +kernel) (by decide +kernel)) (simLabels_free (by decide +kernel)) with
    endless | ⟨last, reached, -, accounts⟩
  · have returns : (simAfter crypto rng parameters (simConfig 12) 5 1).isSome := isSome_simIteration (by decide +kernel)
    rw [endless] at returns
    cases returns
  · refine ⟨last, reached, accounts.mpr fun k inside => ?_⟩
    have start : k = 0 := by omega
    subst start
    exact issuedIn_eq_iff.mp (by decide +kernel)

open Concrete in
/-- A burst of ten over three wallets credits nine. -/
theorem simulator_accounts_uneven :
    le parameters.economy.burnMin parameters.economy.burnMax = true ∧
      populationAfter parameters (simConfig 10) 1 ≤ u64Max ∧ SimFits crypto rng parameters (simConfig 10) 5 1 ∧
      Set.InjOn crypto.blake3 (simWalletLabels (populationAfter parameters (simConfig 10) 1)) ∧
      ∃ last, simAfter crypto rng parameters (simConfig 10) 5 1 = some (.ok last) ∧
        ¬ SimAccounts crypto rng parameters (simConfig 10) 5 1 last := by
  have ordered : le parameters.economy.burnMin parameters.economy.burnMax = true := by decide +kernel
  have crowd : populationAfter parameters (simConfig 10) 1 ≤ u64Max := by decide +kernel
  have fits : SimFits crypto rng parameters (simConfig 10) 5 1 := simFits_one (by decide +kernel) (by decide +kernel)
  refine ⟨ordered, crowd, fits, simLabels_free (by decide +kernel), ?_⟩
  rcases simAfter_sound ordered crowd fits with endless | ⟨last, reached, sound⟩
  · have returns : (simAfter crypto rng parameters (simConfig 10) 5 1).isSome := isSome_simIteration (by decide +kernel)
    rw [endless] at returns
    cases returns
  · refine ⟨last, reached, fun accounts => ?_⟩
    have same := ((sound.account.iff_issued _).mp accounts.rows) 0 (by rw [sound.length]; exact Nat.one_pos)
    have short : issuedIn parameters (simConfig 10) 0 ≠ announcedIn parameters (simConfig 10) 0 := by decide +kernel
    exact short same

end AggoraCoin
