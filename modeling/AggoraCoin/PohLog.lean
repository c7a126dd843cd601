import AggoraCoin.CallSteps
import AggoraCoin.Lib.HashChain
import AggoraCoin.Opening

namespace AggoraCoin

variable {F : Type} [F64 F] {C : Crypto} {state : CoinState F}

/-- The log is a chain over the history, one entry to a transaction. -/
structure CoinState.Logged (C : Crypto) (state : CoinState F) : Prop where
  linked : HashChain.Linked PohEntry.prevHash PohEntry.hash zeroHashHex state.log state.system.lastPohHash
  ticked : state.log.length = state.system.currentTick
  matched : state.history.length = state.log.length
  anchored : ∀ (i : Nat) (entry : PohEntry), state.log[i]? = some entry → ∃ tx bytes, state.history[i]? = some tx ∧
    tx.txId = C.blake3Hex bytes ∧ C.Anchors entry.prevHash (i + 1) bytes state.validatorId entry

omit [F64 F] in
/-- The last place of a list that was just appended to. -/
theorem getElem?_snoc_cases {α : Type} {items : List α} {last found : α} {i : Nat}
    (here : (items ++ [last])[i]? = some found) :
    items[i]? = some found ∨ i = items.length ∧ found = last := by
  by_cases inside : i < items.length
  · rw [List.getElem?_append_left inside] at here
    exact Or.inl here
  · have bound := (List.getElem?_eq_some_iff.mp here).1
    rw [List.length_append, List.length_singleton] at bound
    have place : i = items.length := by omega
    subst place
    rw [List.getElem?_concat_length] at here
    exact Or.inr ⟨rfl, (Option.some.inj here).symm⟩

theorem Books.logged {booking : Booking F} {sheet : Sheet F} {entry : PohEntry} (books : Books C state booking sheet)
    (anchors : C.Anchors sheet.system.lastPohHash (sheet.system.currentTick + 1) (sheet.payload.bytes C)
      state.validatorId entry)
    (logged : state.Logged C) : (state.enter sheet entry).Logged C := by
  rw [books.lastPohHash_eq, books.currentTick_eq] at anchors
  constructor
  case linked =>
    rw [CoinState.enter_log]
    exact .snoc logged.linked anchors.prevHash_eq
  case ticked =>
    rw [CoinState.enter_log, List.length_append, List.length_singleton, logged.ticked, ← books.currentTick_eq]
    rfl
  case matched =>
    rw [CoinState.enter_log, CoinState.enter_history, List.length_append, List.length_append, logged.matched]
    rfl
  case anchored =>
    intro i found here
    rw [CoinState.enter_log] at here
    rw [CoinState.enter_history]
    rcases getElem?_snoc_cases here with old | ⟨rfl, rfl⟩
    · obtain ⟨tx, bytes, accepted, named, anchored⟩ := logged.anchored i found old
      refine ⟨tx, bytes, ?_, named, anchored⟩
      rw [List.getElem?_append_left (List.getElem?_eq_some_iff.mp accepted).1]
      exact accepted
    · refine ⟨sheet.tx, sheet.payload.bytes C, ?_, books.named, ?_⟩
      · rw [← logged.matched]
        exact List.getElem?_concat_length
      · rw [logged.ticked]
        exact anchors.prevHash_eq ▸ anchors

omit [F64 F] in
theorem Quiet.logged {after : CoinState F} (quiet : Quiet state after) (logged : state.Logged C) : after.Logged C := by
  obtain ⟨lock, system⟩ := quiet.system
  obtain ⟨history, log, _⟩ := quiet.past
  constructor
  · rw [log, system]
    exact logged.linked
  · rw [log, system]
    exact logged.ticked
  · rw [log, history]
    exact logged.matched
  · rw [log, history, quiet.validatorId_eq]
    exact logged.anchored

theorem logged_of_steps {admits : CoinState F → Booking F → Sheet F → Prop} {start : CoinState F}
    (formed : Crypto.WellFormedSecret start.operatorSecret) (initial : start.Logged C)
    (steps : Steps C admits start state) : state.Logged C := by
  refine steps.invariant_of_formed (CoinState.Logged C) formed initial ?_ ?_
  · intro before booking sheet entry books _ anchors logged
    exact books.logged anchors logged
  · intro before after quiet logged
    exact quiet.logged logged

theorem OpenedEmpty.logged {env : String → Option String} {config : NodeConfig F} {start : CoinState F}
    (opened : (openCoinState C env config .empty).1 = .ok start) : start.Logged C := by
  obtain ⟨history, log, _⟩ := openCoinState_empty_past opened
  have default_eq := (openCoinState_empty opened).default_eq
  constructor
  · rw [log, default_eq]
    exact .nil
  · rw [log, default_eq]
    rfl
  · rw [log, history]
    rfl
  · rw [log]
    simp

omit [F64 F]

theorem CoinState.Logged.tick_eq (logged : state.Logged C) {i : Nat} {entry : PohEntry}
    (here : state.log[i]? = some entry) : entry.tick = i + 1 := by
  obtain ⟨_, _, _, _, anchored⟩ := logged.anchored i entry here
  exact anchored.tick_eq

theorem CoinState.Logged.ticks (logged : state.Logged C) :
    state.log.map PohEntry.tick = List.range' 1 state.system.currentTick := by
  refine List.ext_getElem? fun i => ?_
  rw [List.getElem?_map, ← logged.ticked]
  by_cases inside : i < state.log.length
  · have here := List.getElem?_eq_getElem inside
    rw [here, List.getElem?_range' inside, Option.map_some, logged.tick_eq here, one_mul, Nat.add_comm]
  · have outside : state.log.length ≤ i := not_lt.mp inside
    rw [List.getElem?_eq_none outside, List.getElem?_eq_none (by rwa [List.length_range'])]
    rfl

/-- Scanning the tree gives the entries in the order they were made. -/
theorem CoinState.Logged.entries_eq (logged : state.Logged C) : state.trees.pohLog.entries = state.log := by
  rw [state.pohLog_eq, KeyedTree.entries_putAll_ascending]
  · rfl
  · have ascending : (state.log.map PohEntry.tick).Pairwise (· < ·) := by
      rw [logged.ticks]
      exact List.pairwise_lt_range'
    exact List.pairwise_map.mp ascending

theorem CoinState.Logged.get_eq (logged : state.Logged C) {i : Nat} {entry : PohEntry}
    (here : state.log[i]? = some entry) : state.trees.pohLog.get (i + 1) = some entry := by
  refine KeyedTree.get_eq_some_iff.mpr ⟨?_, logged.tick_eq here⟩
  rw [logged.entries_eq]
  exact List.mem_of_getElem? here

end AggoraCoin
