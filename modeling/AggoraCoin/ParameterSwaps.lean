import AggoraCoin.Lib.Reach
import AggoraCoin.Opening

namespace AggoraCoin

variable {F : Type}

/-- A call that has written its parameters and not yet replaced those in memory. `serial` counts
the storage writes. -/
structure PendingUpdate (F : Type) where
  serial : Nat
  parameters : SystemParameters F

/-- A node with the updates in progress. -/
structure SwapState (F : Type) where
  node : CoinState F
  inProgress : List (PendingUpdate F)
  written : Nat

inductive SwapStep (F : Type)
  | store (parameters : SystemParameters F)
  /-- The call at this place among those in progress takes the lock and returns. -/
  | replace (place : Nat)

namespace SwapState

def ofNode (node : CoinState F) : SwapState F := ⟨node, [], 0⟩

def next (state : SwapState F) : SwapStep F → SwapState F
  | .store parameters =>
    { node := state.node.writeAll [.parameters parameters]
      inProgress := state.inProgress ++ [⟨state.written + 1, parameters⟩]
      written := state.written + 1 }
  | .replace place =>
    match state.inProgress[place]? with
    | some update =>
      { state with
        node := { state.node with parameters := update.parameters }
        inProgress := state.inProgress.eraseIdx place }
    | none => state

theorem next_replace {state : SwapState F} {place : Nat} {update : PendingUpdate F}
    (here : state.inProgress[place]? = some update) :
    state.next (.replace place) =
      ⟨{ state.node with parameters := update.parameters }, state.inProgress.eraseIdx place, state.written⟩ := by
  simp only [next, here]

/-- A call that nothing comes between is `update_parameters`. -/
theorem uninterrupted (node : CoinState F) (parameters : SystemParameters F) :
    (((ofNode node).next (.store parameters)).next (.replace 0)).node = updateParameters parameters node := rfl

variable [F64 F]

/-- The call that finishes last is the one that wrote last, and its numbers survive their text. -/
def LastWriterLast (state : SwapState F) : SwapStep F → Prop
  | .store _ => True
  | .replace place => ∀ update, state.inProgress[place]? = some update → state.inProgress.length = 1 →
      update.serial = state.written ∧ update.parameters.reread = update.parameters

/-- The parameters in memory are the ones `load_parameters` returns. -/
def Agrees (node : CoinState F) : Prop := node.storage.loadParameters = some node.parameters

/-- What the stored parameters are while updates are in progress. -/
structure Tracked (state : SwapState F) : Prop where
  idle : state.inProgress = [] → Agrees state.node
  latest : ∀ update ∈ state.inProgress, update.serial = state.written →
    state.node.trees.parameters = some update.parameters
  serial_le : ∀ update ∈ state.inProgress, update.serial ≤ state.written

omit [F64 F] in
theorem trees_store (node : CoinState F) (parameters : SystemParameters F) :
    (node.writeAll [.parameters parameters]).trees.parameters = some parameters := by
  rw [CoinState.trees_writeAll]
  rfl

theorem agrees_iff_of_stored {node : CoinState F} (stored : node.trees.parameters = some node.parameters) :
    Agrees node ↔ node.parameters.reread = node.parameters := by
  have same : node.storage.trees.parameters = some node.parameters := stored
  rw [Agrees, Storage.loadParameters, same, Option.map_some, Option.some_inj]

/-- So a single call already disagrees with the store where a number does not survive its text. -/
theorem agrees_updateParameters_iff (node : CoinState F) (parameters : SystemParameters F) :
    Agrees (updateParameters parameters node) ↔ parameters.reread = parameters :=
  agrees_iff_of_stored (trees_store node parameters)

theorem Tracked.store {state : SwapState F} (tracked : state.Tracked) (parameters : SystemParameters F) :
    (state.next (.store parameters)).Tracked := by
  constructor
  · intro none_left
    exact absurd none_left (by simp [next])
  · intro update member serial
    rcases List.mem_append.mp member with old | new
    · have bound := tracked.serial_le update old
      have new_serial : update.serial = state.written + 1 := serial
      omega
    · rw [List.mem_singleton.mp new]
      exact trees_store _ _
  · intro update member
    rcases List.mem_append.mp member with old | new
    · exact (tracked.serial_le update old).trans (Nat.le_succ _)
    · rw [List.mem_singleton.mp new]
      exact le_rfl

theorem Tracked.replace {state : SwapState F} (tracked : state.Tracked) {place : Nat}
    (ordered : state.LastWriterLast (.replace place)) : (state.next (.replace place)).Tracked := by
  cases here : state.inProgress[place]? with
  | none =>
    have still : state.next (.replace place) = state := by simp only [SwapState.next, here]
    rwa [still]
  | some update =>
    rw [next_replace here]
    obtain ⟨inside, same⟩ := List.getElem?_eq_some_iff.mp here
    have member : update ∈ state.inProgress := same ▸ List.getElem_mem inside
    constructor
    · -- the last call in progress is the last writer, so what it puts in memory is what is stored
      intro none_left
      have counted := List.length_eraseIdx_of_lt inside
      have nothing : (state.inProgress.eraseIdx place).length = 0 := List.length_eq_zero_iff.mpr none_left
      have alone : state.inProgress.length = 1 := by omega
      obtain ⟨last, kept⟩ := ordered update here alone
      exact (agrees_iff_of_stored (tracked.latest update member last)).mpr kept
    · intro other left serial
      exact tracked.latest other (List.mem_of_mem_eraseIdx left) serial
    · intro other left
      exact tracked.serial_le other (List.mem_of_mem_eraseIdx left)

theorem Tracked.next {state : SwapState F} (tracked : state.Tracked) {step : SwapStep F}
    (ordered : state.LastWriterLast step) : (state.next step).Tracked := by
  cases step with
  | store parameters => exact tracked.store parameters
  | replace place => exact tracked.replace ordered

end SwapState

variable [F64 F] {C : Crypto}

theorem openCoinState_parameters {env : String → Option String} {config : NodeConfig F} {storage : Storage F}
    {state : CoinState F} (opened : (openCoinState C env config storage).1 = .ok state) :
    state.trees.parameters = some state.parameters ∧
      state.parameters = storage.loadParameters.getD config.parameters := by
  unfold openCoinState at opened
  dsimp only at opened
  split at opened
  · cases opened
  split at opened
  · cases opened
  split at opened
  · cases opened
  cases opened
  refine ⟨?_, rfl⟩
  rw [CoinState.trees, Storage.trees_writeAll, Storage.trees_writeAll]
  rfl

/-- In every interleaving in which the call that finishes last is the one that wrote last, and its
parameters are read back as they were written, the parameters in memory are the ones
`load_parameters` returns whenever no update is in progress, and a node that is then opened on the
database works under the same parameters. -/
theorem parameters_persisted {env : String → Option String} {config : NodeConfig F} {storage : Storage F}
    {start : CoinState F} {state : SwapState F} (opened : (openCoinState C env config storage).1 = .ok start)
    (kept : start.parameters.reread = start.parameters)
    (reach : Reach SwapState.next SwapState.LastWriterLast (.ofNode start) state) (idle : state.inProgress = []) :
    state.node.storage.loadParameters = some state.node.parameters ∧
      ∀ env config reopened, (openCoinState C env config state.node.storage).1 = .ok reopened →
        reopened.parameters = state.node.parameters := by
  have tracked : state.Tracked := by
    have agrees := (SwapState.agrees_iff_of_stored (openCoinState_parameters opened).1).mpr kept
    refine reach.invariant SwapState.Tracked ⟨fun _ => agrees, ?_, ?_⟩ fun _ _ tracked ordered => tracked.next ordered
    · intro update member
      cases member
    · intro update member
      cases member
  have agrees := tracked.idle idle
  refine ⟨agrees, fun env config reopened again => ?_⟩
  have loaded : state.node.storage.loadParameters = some state.node.parameters := agrees
  rw [(openCoinState_parameters again).2, loaded]
  rfl

/-- The parameters of the worked node without the signature check. -/
def Concrete.lax : SystemParameters ℚ :=
  { Concrete.parameters with security := { Concrete.parameters.security with devAuthBypass := true } }

/-- Two calls that finish in the other order than they wrote: the second one's parameters are
stored and the first one's are in force, until a restart brings the second one's back. -/
theorem parameters_crossed :
    ∃ state : SwapState ℚ, Reach SwapState.next (fun _ _ => True) (.ofNode Concrete.node) state ∧
      state.inProgress = [] ∧ state.node.parameters.security.devAuthBypass = false ∧
      ∃ loaded, state.node.storage.loadParameters = some loaded ∧ loaded.security.devAuthBypass = true := by
  have run : Reach SwapState.next (fun _ _ => True) (.ofNode Concrete.node)
      (((((SwapState.ofNode Concrete.node).next (.store Concrete.parameters)).next (.store Concrete.lax)).next
        (.replace 1)).next (.replace 0)) := .next (.next (.next (.next .start trivial) trivial) trivial) trivial
  refine ⟨_, run, rfl, rfl, Concrete.lax, ?_, rfl⟩
  have stored := SwapState.trees_store ((SwapState.ofNode Concrete.node).next (.store Concrete.parameters)).node
    Concrete.lax
  exact congrArg (Option.map SystemParameters.reread) stored

/-- Two updates of which the one that wrote first finishes first. -/
theorem parameters_persisted_twice :
    (SwapState.ofNode Concrete.node |>.next (.store Concrete.lax) |>.next (.store Concrete.parameters) |>.next
      (.replace 0) |>.next (.replace 0)).node.storage.loadParameters = some Concrete.parameters := by
  have run : Reach SwapState.next SwapState.LastWriterLast (.ofNode Concrete.node)
      (((((SwapState.ofNode Concrete.node).next (.store Concrete.lax)).next (.store Concrete.parameters)).next
        (.replace 0)).next (.replace 0)) := by
    refine .next (.next (.next (.next .start trivial) trivial) fun update here alone => ?_) fun update here _ => ?_
    · cases alone
    · cases here
      exact ⟨rfl, rfl⟩
  exact (parameters_persisted Concrete.opened_node rfl run rfl).1

end AggoraCoin
