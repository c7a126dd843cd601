import AggoraCoin.Lib.Tally
import AggoraCoin.Simulator

namespace AggoraCoin

open F64 Unsigned

variable {F : Type}

/-- What the id of a wallet depends on. -/
def Wallet.birth (wallet : Wallet F) : WalletId × IterationId := (wallet.id, wallet.createdAtIteration)

@[simp] theorem Wallet.birth_countTx (wallet : Wallet F) (counterparty : WalletId) :
    (wallet.countTx counterparty).birth = wallet.birth := by simp only [birth, countTx]

@[simp] theorem Wallet.birth_credited (wallet : Wallet F) (amount : MicroAgc) :
    (wallet.credited amount).birth = wallet.birth := by simp only [birth, credited]

abbrev supplyOf (wallets : List (Wallet F)) : Nat := Tally.total Wallet.balance wallets

/-- Crediting one wallet credits the supply. -/
theorem supplyOf_modify_credit {f : Wallet F → Wallet F} {wallets : List (Wallet F)} {i : Nat} {wallet : Wallet F}
    {amount : MicroAgc} (found : wallets[i]? = some wallet)
    (credits : (f wallet).balance = saturatingAdd 64 wallet.balance amount)
    (fits : supplyOf wallets + amount ≤ u64Max) : supplyOf (wallets.modify i f) = supplyOf wallets + amount := by
  have traded : supplyOf (wallets.modify i f) + wallet.balance = supplyOf wallets + (f wallet).balance :=
    Tally.total_modify Wallet.balance f found
  have own : wallet.balance ≤ supplyOf wallets := Tally.le_total found
  have room : wallet.balance + amount ≤ u64Max := (Nat.add_le_add_right own amount).trans fits
  rw [credits, saturatingAdd_of_le room] at traded
  omega

/-- Wallet `i` carries id `i` of the simulator. -/
def Numbered (C : Crypto) (wallets : List (Wallet F)) : Prop :=
  wallets.map Wallet.birth = (List.range wallets.length).map fun i => (simWalletId C i, 0)

theorem Numbered.ids {C : Crypto} {wallets : List (Wallet F)} (numbered : Numbered C wallets) :
    wallets.map Wallet.id = (List.range wallets.length).map (simWalletId C) := by
  have names := congrArg (List.map Prod.fst) numbered
  rwa [List.map_map, List.map_map] at names

theorem Numbered.created {C : Crypto} {wallets : List (Wallet F)} (numbered : Numbered C wallets) {wallet : Wallet F}
    (member : wallet ∈ wallets) : wallet.createdAtIteration = 0 := by
  have listed : wallet.birth ∈ wallets.map Wallet.birth := List.mem_map_of_mem member
  rw [numbered] at listed
  obtain ⟨i, _, same⟩ := List.mem_map.mp listed
  exact (congrArg Prod.snd same).symm

theorem Numbered.of_births {C : Crypto} {before after : List (Wallet F)} (numbered : Numbered C before)
    (same : after.map Wallet.birth = before.map Wallet.birth) : Numbered C after := by
  have length : after.length = before.length := by simpa using congrArg List.length same
  unfold Numbered
  rw [same, length]
  exact numbered

theorem Numbered.append {C : Crypto} [F64 F] {wallets : List (Wallet F)} (numbered : Numbered C wallets)
    (balance : MicroAgc) : Numbered C (wallets ++ [simWallet C wallets.length balance]) := by
  unfold Numbered at numbered ⊢
  rw [List.map_append, numbered, List.length_append, List.length_singleton, List.range_succ, List.map_append]
  rfl

/-- The labels that the ids of so many wallets are hashes of. -/
def simWalletLabels (population : Nat) : Set Bytes := {label | ∃ idx < population, label = simWalletLabel idx}

theorem Numbered.nodup {C : Crypto} {wallets : List (Wallet F)} (numbered : Numbered C wallets) {population : Nat}
    (few : wallets.length ≤ population) (free : Set.InjOn C.blake3 (simWalletLabels population)) :
    (wallets.map Wallet.id).Nodup := by
  rw [numbered.ids]
  refine List.nodup_range.map_on fun i first j second same => ?_
  have inside {idx : Nat} (listed : idx ∈ List.range wallets.length) : simWalletLabel idx ∈ simWalletLabels population :=
    ⟨idx, (List.mem_range.mp listed).trans_le few, rfl⟩
  have labels := free (inside first) (inside second) (C.blake3Hex_inj.mp same)
  unfold simWalletLabel at labels
  rw [asBytes_append, asBytes_append _ (toString j)] at labels
  exact Nat.repr_inj.mp (asBytes_injective (List.append_cancel_left labels))

namespace ScriptedEvent

variable (iterId : IterationId) (seed : MicroAgc) (population : Nat)

/-- The wallets an event of this iteration opens. -/
def spawned : ScriptedEvent F → Nat
  | spawnWallets atIteration count _ => if atIteration = iterId then count else 0
  | _ => 0

def spawnedSupply : ScriptedEvent F → Nat
  | spawnWallets atIteration count balance => if atIteration = iterId then count * balance.getD seed else 0
  | _ => 0

/-- The event is a charge burst of this iteration that finds someone to charge. -/
def Charges : ScriptedEvent F → Prop
  | chargeBurst atIteration _ nTargets => atIteration = iterId ∧ 0 < nTargets ∧ 0 < population
  | _ => False

instance (event : ScriptedEvent F) : Decidable (event.Charges iterId population) := by
  cases event <;> unfold Charges <;> infer_instance

/-- `amount`, the total of a charge burst by its description. -/
def amount : ScriptedEvent F → MicroAgc
  | chargeBurst _ amount _ => amount
  | _ => 0

def nTargets : ScriptedEvent F → Nat
  | chargeBurst _ _ nTargets => nTargets
  | _ => 0

def charged (event : ScriptedEvent F) : MicroAgc := if event.Charges iterId population then event.amount else 0

/-- What the targets of a charge burst get together. -/
def credited (event : ScriptedEvent F) : MicroAgc :=
  if event.Charges iterId population then event.nTargets * (event.amount / event.nTargets) else 0

/-- The event is no charge burst of this iteration, or its amount splits evenly. -/
def SplitsEvenly (event : ScriptedEvent F) : Prop := event.Charges iterId population → event.nTargets ∣ event.amount

variable {iterId population}

theorem credited_le (event : ScriptedEvent F) : event.credited iterId population ≤ event.charged iterId population := by
  unfold credited charged
  split
  · exact Nat.mul_div_le _ _
  · exact le_rfl

/-- The targets get the whole amount exactly when it splits evenly. -/
theorem credited_eq_iff {event : ScriptedEvent F} :
    event.credited iterId population = event.charged iterId population ↔ event.SplitsEvenly iterId population := by
  unfold credited charged SplitsEvenly
  by_cases charges : event.Charges iterId population
  · rw [if_pos charges, if_pos charges]
    constructor
    · intro whole _
      exact Dvd.intro _ whole
    · intro even
      exact Nat.mul_div_cancel' (even charges)
  · rw [if_neg charges, if_neg charges]
    exact ⟨fun _ dispatched => absurd dispatched charges, fun _ => rfl⟩

end ScriptedEvent

section Dispatches

variable (iterId : IterationId)

/-- The events of a list, each with the number of wallets that it finds. -/
def withPopulation : Nat → List (ScriptedEvent F) → List (Nat × ScriptedEvent F)
  | _, [] => []
  | population, event :: rest => (population, event) :: withPopulation (population + event.spawned iterId) rest

variable (seed : MicroAgc) (population : Nat) (events : List (ScriptedEvent F))

def spawnedWallets : Nat := Tally.total (ScriptedEvent.spawned iterId) events

def spawnedSupply : MicroAgc := Tally.total (ScriptedEvent.spawnedSupply iterId seed) events

def chargedSupply : MicroAgc :=
  Tally.total (fun found => found.2.charged iterId found.1) (withPopulation iterId population events)

def creditedSupply : MicroAgc :=
  Tally.total (fun found => found.2.credited iterId found.1) (withPopulation iterId population events)

/-- Every charge burst that finds someone to charge has a number of targets that divides its
amount. -/
def BurstsSplitEvenly : Prop :=
  ∀ found ∈ withPopulation iterId population events, found.2.SplitsEvenly iterId found.1

variable {iterId population events}

theorem creditedSupply_eq_iff :
    creditedSupply iterId population events = chargedSupply iterId population events ↔
      BurstsSplitEvenly iterId population events := by
  unfold creditedSupply chargedSupply BurstsSplitEvenly
  refine (Tally.total_eq_total_iff fun found : Nat × ScriptedEvent F => found.2.credited_le).trans ?_
  exact forall₂_congr fun found _ => ScriptedEvent.credited_eq_iff

end Dispatches

namespace SimRound

variable {R : Rng F}

def total (round : SimRound F R) : Nat := supplyOf round.wallets

/-- The wallets carry the ids of the simulator in order, and the next index is unused. -/
structure WellNumbered (C : Crypto) (round : SimRound F R) : Prop where
  wallets : Numbered C round.wallets
  next : round.nextWalletIdx = round.wallets.length

/-- The step opened `spawned` wallets and issued `minted`, and kept the numbering. -/
structure Grows (C : Crypto) (spawned minted : Nat) (before after : SimRound F R) : Prop where
  numbered : before.wallets.length + spawned ≤ u64Max → before.WellNumbered C → after.WellNumbered C
  population : after.wallets.length = before.wallets.length + spawned
  supply : after.total = before.total + minted

namespace Grows

variable {C : Crypto} {before middle after : SimRound F R}

theorem refl (round : SimRound F R) : Grows C 0 0 round round := ⟨fun _ numbered => numbered, rfl, rfl⟩

theorem trans {s t m n : Nat} (first : Grows C s m before middle) (second : Grows C t n middle after) :
    Grows C (s + t) (m + n) before after := by
  have population := first.population
  have supply := first.supply
  constructor
  case numbered =>
    intro fits numbered
    exact second.numbered (by omega) (first.numbered (by omega) numbered)
  case population => rw [second.population, population, Nat.add_assoc]
  case supply => rw [second.supply, supply, Nat.add_assoc]

/-- A step that rewrites wallets in place. -/
theorem in_place {m : Nat} (births : after.wallets.map Wallet.birth = before.wallets.map Wallet.birth)
    (next : after.nextWalletIdx = before.nextWalletIdx) (supply : after.total = before.total + m) :
    Grows C 0 m before after := by
  have length : after.wallets.length = before.wallets.length := by simpa using congrArg List.length births
  refine ⟨fun _ numbered => ⟨numbered.wallets.of_births births, ?_⟩, length, supply⟩
  rw [next, numbered.next, length]

/-- A draw changes the generator only. -/
theorem drawn (round : SimRound F R) (rng : R.State) : Grows C 0 0 round { round with rng } := in_place rfl rfl rfl

end Grows

section Transfers

/-- What a caller writes besides the transfer is neither a balance nor an id. -/
structure Touches (touch : Wallet F → Wallet F) : Prop where
  birth : ∀ wallet, (touch wallet).birth = wallet.birth
  balance : ∀ wallet, (touch wallet).balance = wallet.balance

theorem touches_id : Touches (id : Wallet F → Wallet F) := ⟨fun _ => rfl, fun _ => rfl⟩

variable {touch : Wallet F → Wallet F}

theorem simTransfer_births (touches : Touches touch) (sender recipient : Nat) (amount : MicroAgc)
    (wallets : List (Wallet F)) :
    (simTransfer touch sender recipient amount wallets).map Wallet.birth = wallets.map Wallet.birth := by
  unfold simTransfer
  split
  · rename_i receiver payer _ _
    have paid (wallet : Wallet F) : (wallet.sending touch receiver.id amount).birth = wallet.birth := by
      simp only [Wallet.sending, touches.birth, Wallet.birth_countTx]
      simp only [Wallet.birth]
    have gotten (wallet : Wallet F) : (wallet.receiving touch payer.id amount).birth = wallet.birth := by
      simp only [Wallet.receiving, touches.birth, Wallet.birth_countTx, Wallet.birth_credited]
    rw [Tally.map_modify gotten, Tally.map_modify paid]
  · rfl

theorem simTransfer_supply (touches : Touches touch) {sender recipient : Nat} {amount : MicroAgc}
    {wallets : List (Wallet F)} (apart : sender ≠ recipient) (fits : supplyOf wallets ≤ u64Max)
    (covered : amount ≤ balanceAt wallets sender) :
    supplyOf (simTransfer touch sender recipient amount wallets) = supplyOf wallets := by
  unfold simTransfer
  split
  · rename_i receiver payer atRecipient atSender
    have held : balanceAt wallets sender = payer.balance := by rw [balanceAt, atSender]; rfl
    have own : payer.balance ≤ u64Max := (Tally.le_total atSender).trans fits
    have both : receiver.balance + payer.balance ≤ u64Max := (Tally.add_le_total apart.symm atRecipient atSender).trans fits
    have below : amount ≤ payer.balance := held ▸ covered
    apply Tally.total_move apart atSender atRecipient
    · have paid : (payer.sending touch receiver.id amount).balance = wrappingSub 64 payer.balance amount :=
        touches.balance _
      rw [paid, wrappingSub_of_le own below, Nat.sub_add_cancel below]
    · have gotten : (receiver.receiving touch payer.id amount).balance = saturatingAdd 64 receiver.balance amount :=
        touches.balance _
      exact gotten.trans (saturatingAdd_of_le ((Nat.add_le_add_left below _).trans both))
  · rfl

end Transfers

section Draws

variable {n sender : Nat}

theorem drawRecipient_ne (two : 2 ≤ n) (inside : sender < n) (rng : R.State) :
    sender ≠ (drawRecipient R n sender rng).1 := by
  unfold drawRecipient
  dsimp only
  split
  · rename_i same
    rw [same]
    rcases Nat.lt_or_ge (sender + 1) n with before | last
    · rw [Nat.mod_eq_of_lt before]
      omega
    · have wraps : sender + 1 = n := by omega
      rw [wraps, Nat.mod_self]
      omega
  · rename_i different
    exact fun same => different same.symm

theorem chargeTargets_grows {C : Crypto} {round : SimRound F R} {perTarget : MicroAgc} {targets : Nat}
    (sized : round.wallets.length = n)
    (inhabited : 0 < n) (fits : round.total + targets * perTarget ≤ u64Max) :
    Grows C 0 (targets * perTarget) round (chargeTargets perTarget n targets round) := by
  induction targets generalizing round with
  | zero =>
    rw [Nat.zero_mul]
    exact .refl round
  | succ targets ih =>
    unfold chargeTargets
    dsimp only
    have inside : (R.genRange n round.rng).1 < round.wallets.length := by
      rw [sized]
      exact R.genRange_lt _ inhabited
    generalize (R.genRange n round.rng).1 = idx at inside ⊢
    generalize (R.genRange n round.rng).2 = rng
    rw [Nat.succ_mul] at fits ⊢
    have room : round.total + perTarget ≤ u64Max := by omega
    have first : Grows C 0 perTarget round
        { round with wallets := round.wallets.modify idx (Wallet.credited · perTarget), rng } :=
      .in_place (Tally.map_modify (fun wallet => wallet.birth_credited perTarget) _ _) rfl
        (supplyOf_modify_credit (List.getElem?_eq_getElem inside) rfl room)
    have both := first.trans (ih ?_ ?_)
    · rwa [Nat.add_comm perTarget] at both
    · rw [List.length_modify, sized]
    · rw [first.supply]
      omega

end Draws

variable [SampleF64 F] {C : Crypto}

section Rounds

variable {touch : Wallet F → Wallet F} {mean : F} {n sender : Nat} {round : SimRound F R}

theorem fractionOf_le (balance : MicroAgc) (fraction : F) : fractionOf balance fraction ≤ balance :=
  Nat.min_le_right _ _

theorem sendFraction_grows (touches : Touches touch) (two : 2 ≤ n) (inside : sender < n)
    (fits : round.total ≤ u64Max) : Grows C 0 0 round (sendFraction touch mean n sender round) := by
  unfold sendFraction
  dsimp only
  split
  · exact .drawn round _
  · have apart := drawRecipient_ne two inside round.rng
    exact .in_place (simTransfer_births touches _ _ _ _) rfl
      (simTransfer_supply touches apart fits (fractionOf_le _ _))

theorem burstTransfer_grows (two : 2 ≤ n) (fits : round.total ≤ u64Max) :
    Grows C 0 0 round (burstTransfer mean n round) := by
  have inside : (R.genRange n round.rng).1 < n := R.genRange_lt _ (by omega)
  unfold burstTransfer
  dsimp only
  split
  · exact .drawn round _
  · exact (Grows.drawn round (R.genRange n round.rng).2).trans (sendFraction_grows touches_id two inside fits)

/-- A burst is a sequence of transfers; each leaves the supply that the next one starts with. -/
theorem iterate_burstTransfer_grows (two : 2 ≤ n) (k : Nat) (fits : round.total ≤ u64Max) :
    Grows C 0 0 round ((burstTransfer mean n)^[k] round) := by
  induction k generalizing round with
  | zero => exact .refl round
  | succ k ih =>
    have first : Grows C 0 0 round (burstTransfer mean n round) := burstTransfer_grows two fits
    have still : (burstTransfer mean n round).total ≤ u64Max := by rwa [first.supply]
    exact first.trans (ih still)

theorem senderTransfers_grows (touches : Touches touch) (two : 2 ≤ n) (inside : sender < n) (k : Nat)
    (fits : round.total ≤ u64Max) : Grows C 0 0 round (senderTransfers touch mean n sender k round) := by
  induction k generalizing round with
  | zero => exact .refl round
  | succ k ih =>
    unfold senderTransfers
    split
    · exact .refl round
    · have first : Grows C 0 0 round (sendFraction touch mean n sender round) :=
        sendFraction_grows touches two inside fits
      have still : (sendFraction touch mean n sender round).total ≤ u64Max := by rwa [first.supply]
      exact first.trans (ih still)

theorem foldlM_senderActivity_grows {fuel : Nat} {config : SimConfig F} {currentIteration : IterationId}
    {senders : List Nat} {after : SimRound F R} (two : 2 ≤ n) (inside : ∀ sender ∈ senders, sender < n)
    (fits : round.total ≤ u64Max)
    (ran : senders.foldlM (senderActivity fuel config currentIteration n) round = some after) :
    Grows C 0 0 round after := by
  induction senders generalizing round with
  | nil =>
    cases ran
    exact .refl _
  | cons sender rest ih =>
    obtain ⟨middle, acted, later⟩ := Option.bind_eq_some_iff.mp ran
    unfold senderActivity at acted
    split at acted
    · cases acted
    · cases acted
      rename_i k rng _
      have touches : Touches fun wallet : Wallet F => { wallet with lastActiveIteration := currentIteration } :=
        ⟨fun _ => rfl, fun _ => rfl⟩
      have sent : Grows C 0 0 { round with rng }
          (senderTransfers _ config.transferFractionMean n sender k { round with rng }) :=
        senderTransfers_grows touches two (inside sender List.mem_cons_self) k fits
      have first := (Grows.drawn round rng).trans sent
      refine first.trans (ih (fun other member => inside other (List.mem_cons_of_mem sender member)) ?_ later)
      rwa [first.supply]

/-- Synthetic activity moves balances and opens no wallet. -/
theorem syntheticActivity_grows {fuel : Nat} {config : SimConfig F} {currentIteration : IterationId}
    {after : SimRound F R} (fits : round.total ≤ u64Max)
    (ran : syntheticActivity fuel config currentIteration round = some after) : Grows C 0 0 round after := by
  unfold syntheticActivity at ran
  split at ran
  · rename_i two
    exact foldlM_senderActivity_grows two (fun sender member => List.mem_range.mp member) fits ran
  · cases ran
    exact .refl _

theorem spawn_grows (balance : MicroAgc) (count : Nat) (round : SimRound F R) :
    Grows C count (count * balance) round (spawn C balance count round) := by
  induction count generalizing round with
  | zero =>
    rw [Nat.zero_mul]
    exact .refl round
  | succ count ih =>
    have first : Grows C 1 balance round { round with
        wallets := round.wallets ++ [simWallet C round.nextWalletIdx balance]
        nextWalletIdx := wrappingAdd 64 round.nextWalletIdx 1 } := by
      constructor
      case numbered =>
        intro fits numbered
        refine ⟨?_, ?_⟩
        · rw [numbered.next]
          exact numbered.wallets.append balance
        · rw [numbered.next, List.length_append, List.length_singleton]
          exact wrappingAdd_of_le fits
      case population => rw [List.length_append, List.length_singleton]
      case supply =>
        rw [total, supplyOf, Tally.total_append]
        rfl
    have both := first.trans (ih _)
    rwa [Nat.add_comm 1 count, Nat.add_comm balance, ← Nat.succ_mul] at both

end Rounds

section Shock

variable (target : Nat) (fraction : F) (wallets : List (Wallet F))

theorem shockWallets_births : (shockWallets target fraction wallets).map Wallet.birth = wallets.map Wallet.birth := by
  unfold shockWallets
  split
  · dsimp only
    rw [Tally.map_modify, Tally.map_mapIdx]
    · intro i wallet
      split
      · rfl
      · rw [Wallet.birth_countTx]
        simp only [Wallet.birth]
    · intro wallet
      simp only [Wallet.birth, Wallet.credited]
  · rfl

variable {wallets}

/-- The target gets what the others lose. -/
theorem supplyOf_shockWallets (fits : supplyOf wallets ≤ u64Max) :
    supplyOf (shockWallets target fraction wallets) = supplyOf wallets := by
  unfold shockWallets
  split
  · rename_i richest found
    dsimp only
    generalize shocked_eq : wallets.mapIdx (fun i wallet => if i = target then wallet else
      { wallet with balance := wrappingSub 64 wallet.balance (fractionOf wallet.balance fraction) }.countTx richest.id) =
        shocked
    have taken : supplyOf shocked + (shockTakes target fraction wallets).sum = supplyOf wallets := by
      rw [← shocked_eq]
      refine Tally.total_mapIdx_take fun i wallet member => ?_
      by_cases spared : i = target
      · rw [if_pos spared, if_pos spared, Nat.add_zero]
      · obtain ⟨place, at_place⟩ := List.getElem?_of_mem member
        have own : wallet.balance ≤ u64Max := (Tally.le_total at_place).trans fits
        have left : wrappingSub 64 wallet.balance (fractionOf wallet.balance fraction) =
            wallet.balance - fractionOf wallet.balance fraction := wrappingSub_of_le own (fractionOf_le _ _)
        rw [if_neg spared, if_neg spared, Wallet.countTx, left]
        exact Nat.sub_add_cancel (fractionOf_le _ _)
    have part : (shockTakes target fraction wallets).sum ≤ u64Max := (Nat.le_add_left _ _).trans (taken.le.trans fits)
    have moved : (shockTakes target fraction wallets).foldl (saturatingAdd 64) 0 =
        (shockTakes target fraction wallets).sum := by
      rw [foldl_saturatingAdd _ (Nat.zero_le _), Nat.zero_add]
      exact min_eq_left part
    have still : shocked[target]? = some richest := by
      rw [← shocked_eq, List.getElem?_mapIdx, found, Option.map_some, if_pos rfl]
    rw [moved, supplyOf_modify_credit still rfl (taken.le.trans fits), taken]
  · rfl

end Shock

section Events

variable {iterId : IterationId} (seed : MicroAgc) (mean : F) {round : SimRound F R}

theorem applyEvent_grows (event : ScriptedEvent F)
    (fits : round.total + (event.spawnedSupply iterId seed + event.credited iterId round.wallets.length) ≤ u64Max) :
    Grows C (event.spawned iterId) (event.spawnedSupply iterId seed + event.credited iterId round.wallets.length)
      round (applyEvent C iterId seed mean round event) := by
  have held : round.total ≤ u64Max := (Nat.le_add_right _ _).trans fits
  cases event with
  | spawnWallets atIteration count balance =>
    simp only [applyEvent, ScriptedEvent.spawned, ScriptedEvent.spawnedSupply]
    split
    · exact spawn_grows _ _ _
    · exact .refl round
  | transferBurst atIteration nTxs fraction =>
    simp only [applyEvent]
    split
    · split
      · exact .refl round
      · exact iterate_burstTransfer_grows (by omega) nTxs held
    · exact .refl round
  | chargeBurst atIteration amount nTargets =>
    have opens : (ScriptedEvent.chargeBurst atIteration amount nTargets : ScriptedEvent F).spawnedSupply iterId seed = 0 :=
      rfl
    rw [opens, Nat.zero_add] at fits ⊢
    simp only [applyEvent]
    by_cases charges : (ScriptedEvent.chargeBurst atIteration amount nTargets : ScriptedEvent F).Charges iterId
      round.wallets.length
    · have credited : (ScriptedEvent.chargeBurst atIteration amount nTargets : ScriptedEvent F).credited iterId
          round.wallets.length = nTargets * (amount / nTargets) := if_pos charges
      obtain ⟨now, targeted, inhabited⟩ := charges
      have filled : ¬ (round.wallets.isEmpty ∨ nTargets = 0) := by
        rw [List.isEmpty_iff_length_eq_zero]
        omega
      have positive : Nat.max nTargets 1 = nTargets := Nat.max_eq_left targeted
      rw [credited] at fits ⊢
      rw [if_pos now, if_neg filled, positive]
      exact chargeTargets_grows rfl inhabited fits
    · have credited : (ScriptedEvent.chargeBurst atIteration amount nTargets : ScriptedEvent F).credited iterId
          round.wallets.length = 0 := if_neg charges
      rw [credited]
      split
      · rename_i now
        have nobody : round.wallets.isEmpty ∨ nTargets = 0 := by
          rw [List.isEmpty_iff_length_eq_zero]
          by_contra both
          exact charges ⟨now, by omega, by omega⟩
        rw [if_pos nobody]
        exact .refl round
      · exact .refl round
  | wealthShock atIteration fraction =>
    simp only [applyEvent]
    split
    · split
      · exact .refl round
      · exact .in_place (shockWallets_births _ _ _) rfl (supplyOf_shockWallets _ _ held)
    · exact .refl round
  | unknown => exact .refl round

variable {seed}

/-- Events are dispatched in their order, each over the wallets that the ones before it left. -/
theorem applyScriptedEvents_grows {events : List (ScriptedEvent F)}
    (fits : round.total + (spawnedSupply iterId seed events +
      creditedSupply iterId round.wallets.length events) ≤ u64Max) :
    Grows C (spawnedWallets iterId events)
      (spawnedSupply iterId seed events + creditedSupply iterId round.wallets.length events)
      round (applyScriptedEvents C events iterId seed mean round) := by
  induction events generalizing round with
  | nil => exact .refl round
  | cons event rest ih =>
    simp only [spawnedSupply, creditedSupply, spawnedWallets, withPopulation, Tally.total_cons] at fits ih ⊢
    have first : Grows C (event.spawned iterId)
        (event.spawnedSupply iterId seed + event.credited iterId round.wallets.length) round
        (applyEvent C iterId seed mean round event) := applyEvent_grows seed mean event (by omega)
    have room : (applyEvent C iterId seed mean round event).total + (spawnedSupply iterId seed rest +
        creditedSupply iterId (applyEvent C iterId seed mean round event).wallets.length rest) ≤ u64Max := by
      rw [first.supply, first.population]
      simp only [spawnedSupply, creditedSupply]
      omega
    have later := ih room
    rw [first.population] at later
    have both := first.trans later
    rwa [Nat.add_add_add_comm] at both

end Events

end SimRound

end AggoraCoin
