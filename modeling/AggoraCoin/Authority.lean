import AggoraCoin.Acknowledgements
import AggoraCoin.PlanSupply

namespace AggoraCoin

variable {F : Type}

/-- What a transaction takes out of the supply. -/
def Transaction.burnt : Transaction F → MicroAgc
  | .burn tx => tx.amount
  | _ => 0

/-- Wallets spent, and nothing else happened: no coin and no wallet was made, and no iteration was run. -/
structure CoinState.OnlySpent (start : CoinState F) (entries : List (Transaction F)) (node : CoinState F) : Prop where
  grown : node.history = start.history ++ entries
  spends : ∀ tx ∈ entries, tx.spends.isSome
  supply : node.storedSupply + (entries.map Transaction.burnt).sum = start.storedSupply
  wallets : ∀ id, (node.getWallet id).isSome = (start.getWallet id).isSome
  counted : node.system.nWallets = start.system.nWallets
  iteration : node.system.currentIteration = start.system.currentIteration

variable [F64 F] {C : Crypto} {start before : CoinState F} {entries : List (Transaction F)}

/-- A transfer or a burn. -/
def Booking.Spends : Booking F → Prop
  | .transfer _ _ => True
  | .burn _ _ => True
  | _ => False

/-- A spend takes no more out of the supply than it burns, and writes to wallets that exist. -/
theorem Books.spends {booking : Booking F} {sheet : Sheet F} (books : Books C before booking sheet)
    (spends : booking.Spends) (bound : before.storedSupply ≤ u64Max) :
    sheet.tx.spends.isSome ∧
      (before.trees.wallets.putAll sheet.wallets).total Wallet.balance + sheet.tx.burnt = before.storedSupply ∧
      (∀ wallet ∈ sheet.wallets, (before.getWallet wallet.id).isSome) ∧
      sheet.system.nWallets = before.system.nWallets ∧
      sheet.system.currentIteration = before.system.currentIteration := by
  cases books with
  | transfer valid =>
    refine ⟨rfl, ?_, ?_, rfl, rfl⟩
    · exact valid.total (valid.fits bound)
    · intro wallet member
      rcases List.mem_pair.mp member with rfl | rfl
      · rw [CoinState.getWallet, valid.sender]
        rfl
      · have there : before.getWallet _ = some _ := valid.stored_to
        rw [valid.toKey, there]
        rfl
  | burn valid =>
    refine ⟨rfl, ?_, ?_, rfl, rfl⟩
    · have taken : (Transaction.burn _ : Transaction F).burnt = _ := congrArg BurnTx.amount valid.tx_eq
      rw [taken]
      exact valid.total
    · intro wallet member
      rw [List.mem_singleton.mp member, CoinState.getWallet, valid.sender]
      rfl
  | _ => exact spends.elim

namespace CoinState.OnlySpent

omit [F64 F] in
theorem refl (start : CoinState F) : start.OnlySpent [] start :=
  ⟨(List.append_nil _).symm, fun _ member => (by cases member), rfl, fun _ => rfl, rfl, rfl⟩

omit [F64 F] in
theorem quiet {after : CoinState F} (only : start.OnlySpent entries before) (quiet : Quiet before after) :
    start.OnlySpent entries after := by
  have wallets := quiet.ledger.wallets_eq
  obtain ⟨lock, system⟩ := quiet.system
  constructor
  case grown => rw [quiet.past.1, only.grown]
  case spends => exact only.spends
  case supply =>
    rw [CoinState.storedSupply, wallets]
    exact only.supply
  case wallets =>
    intro id
    rw [CoinState.getWallet, wallets]
    exact only.wallets id
  case counted =>
    rw [system]
    exact only.counted
  case iteration =>
    rw [system]
    exact only.iteration

theorem enter {booking : Booking F} {sheet : Sheet F} {entry : PohEntry} (only : start.OnlySpent entries before)
    (bound : start.storedSupply ≤ u64Max) (books : Books C before booking sheet) (spends : booking.Spends) :
    start.OnlySpent (entries ++ [sheet.tx]) (before.enter sheet entry) := by
  have within : before.storedSupply ≤ u64Max := (Nat.le_of_add_right_le only.supply.le).trans bound
  obtain ⟨isSpend, taken, known, counted, iteration⟩ := books.spends spends within
  constructor
  case grown => rw [CoinState.enter_history, only.grown, List.append_assoc]
  case spends =>
    intro tx member
    rcases List.mem_append.mp member with old | new
    · exact only.spends tx old
    · rw [List.mem_singleton.mp new]
      exact isSpend
  case supply =>
    rw [CoinState.storedSupply, CoinState.enter_wallets, List.map_append, List.sum_append]
    have sum := only.supply
    simp only [List.map_cons, List.map_nil, List.sum_singleton]
    omega
  case wallets =>
    intro id
    rw [← only.wallets id, CoinState.getWallet, CoinState.enter_wallets, Bool.eq_iff_iff, KeyedTree.isSome_get_putAll]
    refine or_iff_left_of_imp fun listed => ?_
    obtain ⟨wallet, member, rfl⟩ := List.mem_map.mp listed
    exact known wallet member
  case counted => exact counted.trans only.counted
  case iteration => exact iteration.trans only.iteration

end CoinState.OnlySpent

variable {D : Deployment F} {env : String → Option String} {config : NodeConfig F} {first : CoinState F}
  {after : D.Handlers}

/-- As long as no operator signs a request, requests can do no more than spend: every coin that leaves
the supply was burned, and the parameters, the iterations, the wallets and the registry stay as they are. -/
theorem unsigned_requests_only_spend (started : D.Started env config first)
    (settings : D.settings = {D.start.parameters}) (checked : D.start.parameters.security.devAuthBypass = false)
    (unsigned : ∀ request, D.admitted request → ∀ operator signature, ¬ D.SignedBy request operator signature)
    (bound : D.start.storedSupply ≤ u64Max) (serving : D.Serving D.up after) :
    (∃ entries, D.start.OnlySpent entries after.state.node) ∧
      after.state.node.parameters = D.start.parameters ∧
      after.state.node.trees.operators = D.start.trees.operators := by
  have guarded : D.Checked := by
    constructor
    case bypass =>
      intro parameters settled
      rw [settings] at settled
      rw [settled]
      exact checked
    case swaps => exact fun request admitted _ _ _ signed => absurd signed (unsigned request admitted _ _)
  have advances := started.advances guarded .start serving
  have ready := (started.sound guarded serving).ready
  refine ⟨?_, ?_, advances.registry⟩
  · refine advances.steps.invariant_of_formed (fun node => ∃ entries, D.start.OnlySpent entries node)
      started.ready.formed ⟨[], .refl _⟩ ?_ ?_
    · rintro before booking sheet entry books ⟨request, admitted, requested⟩ _ ⟨entries, only⟩
      refine ⟨entries ++ [sheet.tx], only.enter bound books ?_⟩
      cases requested with
      | transfer => trivial
      | burn => trivial
      | create _ _ _ signed => exact absurd signed (unsigned request admitted _ _)
      | charge _ _ signed => exact absurd signed (unsigned request admitted _ _)
      | commit _ _ signed => exact absurd signed (unsigned request admitted _ _)
    · rintro before after quiet ⟨entries, only⟩
      exact ⟨entries, only.quiet quiet⟩
  · have settled := ready.settled
    rw [settings] at settled
    exact settled

open Concrete

/-- The burn of the first wallet is all that happens to the supply. -/
theorem unsigned_requests_only_spend_burn :
    ∃ after : burnDeployment.Handlers, after.threads.length = 1 ∧
      (∃ entries, burnDeployment.start.OnlySpent entries after.state.node) ∧
      after.state.node.parameters = burnDeployment.start.parameters := by
  obtain ⟨after, response, own, serving, threads, _⟩ := burnDeployment_served
  have bound : burnDeployment.start.storedSupply ≤ u64Max := by
    have supply : burnDeployment.start.storedSupply = (firstNode (key 7)).storedSupply :=
      congrArg (KeyedTree.total Wallet.balance) (wallets_updateParameters parameters (firstNode (key 7)))
    rw [supply, firstNode_storedSupply]
    decide
  have length : after.threads.length = 1 := by
    rw [threads]
    rfl
  obtain ⟨spent, settings, _⟩ := unsigned_requests_only_spend burnDeployment_started rfl rfl
    (fun _ admitted => burnDeployment_unsigned admitted) bound serving
  exact ⟨after, length, spent, settings⟩

end AggoraCoin
