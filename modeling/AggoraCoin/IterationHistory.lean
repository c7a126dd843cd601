import AggoraCoin.Reopening
import AggoraCoin.Reports

namespace AggoraCoin

variable {F : Type}

/-- The commit a transaction carries. -/
def Transaction.commit? : Transaction F → Option (IterationCommit F)
  | .iterationCommit commit => some commit
  | _ => none

section Chronicle

variable [F64 F]

/-- What an iteration did to the supply, as the next one finds it. -/
def IterationCommit.growth (commit : IterationCommit F) : F :=
  if commit.snapshotSupply > 0 then
    F64.div (F64.sub (F64.ofNat commit.postSupply) (F64.ofNat commit.snapshotSupply))
      (F64.ofNat commit.snapshotSupply)
  else F64.lit 0

omit [F64 F] in
/-- The system state still shows the commit as the latest. -/
structure IterationCommit.Latest (commit : IterationCommit F) (system : SystemState F) : Prop where
  snapshotSupply_eq : system.previousIterationStartSupply = commit.snapshotSupply
  postSupply_eq : system.previousIterationSupply = commit.postSupply
  inflation_eq : system.lastInflation = commit.inflation
  triggeredAtTick_eq : system.iterationStartedAt = commit.triggeredAtTick

omit [F64 F] in
/-- The commits under their numbers, as they were written. -/
def CoinState.committed (node : CoinState F) : List (IterationCommit F) := node.trees.iterations.entries

/-- What the iterations of a node have to do with its archive, its counters and one another. -/
structure CoinState.Chronicled (node : CoinState F) : Prop where
  numbered : node.committed.map IterationCommit.iterationId = List.range' 1 node.system.currentIteration
  archived : node.history.filterMap Transaction.commit? = node.committed
  ticked : node.history.length = node.system.currentTick
  placed : ∀ commit ∈ node.committed,
    node.history[commit.triggeredAtTick]? = some (.iterationCommit commit)
  unmeasured : node.committed = [] → node.system.previousIterationStartSupply = 0
  latest : ∀ commit ∈ node.committed.getLast?, commit.Latest node.system
  first : ∀ commit ∈ node.committed.head?, commit.inflation = F64.lit 0
  chained : node.committed.IsChain fun earlier commit => commit.inflation = earlier.growth

end Chronicle

/-- Nothing was entered but transactions that commit no iteration. -/
structure CoinState.Idles (before after : CoinState F) : Prop where
  iterations_eq : after.trees.iterations = before.trees.iterations
  grown : ∃ more, after.history = before.history ++ more ∧ more.filterMap Transaction.commit? = [] ∧
    after.system.currentTick = before.system.currentTick + more.length
  currentIteration_eq : after.system.currentIteration = before.system.currentIteration
  previousIterationStartSupply_eq :
    after.system.previousIterationStartSupply = before.system.previousIterationStartSupply
  previousIterationSupply_eq : after.system.previousIterationSupply = before.system.previousIterationSupply
  lastInflation_eq : after.system.lastInflation = before.system.lastInflation
  iterationStartedAt_eq : after.system.iterationStartedAt = before.system.iterationStartedAt

namespace CoinState.Idles

variable {before middle after : CoinState F}

/-- Writes aside that are no iterations, and at most a turn of the lock. -/
theorem of_quiet (quiet : Quiet before after) (iterations : after.trees.iterations = before.trees.iterations) :
    before.Idles after := by
  obtain ⟨lock, system⟩ := quiet.system
  refine ⟨iterations, ⟨[], ?_, rfl, ?_⟩, ?_, ?_, ?_, ?_, ?_⟩
  · rw [quiet.past.1, List.append_nil]
  · rw [system]
    rfl
  all_goals rw [system]

theorem refl (state : CoinState F) : state.Idles state := of_quiet (.refl state) rfl

theorem trans (first : before.Idles middle) (second : middle.Idles after) : before.Idles after := by
  obtain ⟨some, grownFirst, plainFirst, tickFirst⟩ := first.grown
  obtain ⟨more, grownSecond, plainSecond, tickSecond⟩ := second.grown
  constructor
  case iterations_eq => exact second.iterations_eq.trans first.iterations_eq
  case grown =>
    refine ⟨some ++ more, ?_, ?_, ?_⟩
    · rw [grownSecond, grownFirst, List.append_assoc]
    · rw [List.filterMap_append, plainFirst, plainSecond, List.append_nil]
    · rw [tickSecond, tickFirst, List.length_append, Nat.add_assoc]
  case currentIteration_eq => exact second.currentIteration_eq.trans first.currentIteration_eq
  case previousIterationStartSupply_eq =>
    exact second.previousIterationStartSupply_eq.trans first.previousIterationStartSupply_eq
  case previousIterationSupply_eq => exact second.previousIterationSupply_eq.trans first.previousIterationSupply_eq
  case lastInflation_eq => exact second.lastInflation_eq.trans first.lastInflation_eq
  case iterationStartedAt_eq => exact second.iterationStartedAt_eq.trans first.iterationStartedAt_eq

theorem storeState (state : CoinState F) : state.Idles state.storeState := by
  refine of_quiet (.storeState state) ?_
  rw [CoinState.storeState, CoinState.trees_writeAll]
  rfl

theorem locked (state : CoinState F) : state.Idles state.locked := by
  refine of_quiet (.locked state) ?_
  rw [CoinState.locked, CoinState.storeState, CoinState.trees_writeAll]
  rfl

end CoinState.Idles

section Calls

variable [F64 F] {C : Crypto} {before after : CoinState F}

/-- An entry that is no iteration. -/
theorem Books.idles {booking : Booking F} {sheet : Sheet F} (books : Books C before booking sheet)
    (commitless : ∀ parameters, booking ≠ .commit parameters) (entry : PohEntry) :
    before.Idles (before.enter sheet entry) := by
  have trees : (before.enter sheet entry).trees.iterations = before.trees.iterations := by
    rw [CoinState.enter, CoinState.trees_withSystem, CoinState.trees_posted]
  have tick : (before.enter sheet entry).system.currentTick = before.system.currentTick + 1 :=
    congrArg (· + 1) books.currentTick_eq
  have grown : (before.enter sheet entry).history = before.history ++ [sheet.tx] := CoinState.enter_history
  cases books with
  | commit => exact absurd rfl (commitless _)
  | _ => exact ⟨trees, ⟨_, grown, rfl, tick⟩, rfl, rfl, rfl, rfl, rfl⟩

theorem Installs.idles {bookings : Set (Booking F)} {writes : List (Write F)}
    (installs : Installs C bookings before writes after) : before.Idles after := by
  induction installs with
  | none => exact .refl _
  | entry books _ _ _ _ ih => exact (books.idles (fun _ same => nomatch same) _).trans ih

/-- A call that asks for no iteration. -/
theorem Script.idles {bookings : Set (Booking F)} {writes : List (Write F)}
    (script : Script C bookings before writes after) (formed : Crypto.WellFormedSecret before.operatorSecret)
    (commitless : ∀ booking ∈ bookings, ∀ parameters, booking ≠ .commit parameters) : before.Idles after := by
  have remembering (seen : String → Option Timestamp) : before.Idles (before.remembering seen) :=
    .of_quiet ⟨⟨[], by simp, by simp [Storage.writeAll, CoinState.remembering]⟩, ⟨_, rfl⟩, rfl, rfl, rfl⟩ rfl
  cases script with
  | refused seen => exact remembering seen
  | parameters parameters =>
    refine .of_quiet ⟨⟨[.parameters parameters], by simp [Write.aside], rfl⟩, ⟨_, rfl⟩, rfl, rfl, rfl⟩ ?_
    change (before.writeAll [.parameters parameters]).trees.iterations = before.trees.iterations
    rw [CoinState.trees_writeAll]
    rfl
  | accepted seen books booked =>
    exact ((remembering seen).trans (books.idles (commitless _ booked) _)).trans (.storeState _)
  | stranded _ _ _ malformed => exact absurd formed malformed
  | seeded installs => exact installs.idles.trans (.storeState _)
  | seedRefused installs => exact installs.idles
  | panicked => exact .locked before
  | committed _ _ booked => exact absurd rfl (commitless _ booked _)
  | commitStranded _ _ malformed => exact absurd formed malformed

end Calls

section Commits

variable [F64 F] {C : Crypto} {before after node : CoinState F}

/-- What a committed iteration leaves of itself. -/
structure CoinState.Commits (before : CoinState F) (commit : IterationCommit F) (after : CoinState F) : Prop where
  iterations_eq : after.trees.iterations = before.trees.iterations.put commit
  history_eq : after.history = before.history ++ [.iterationCommit commit]
  currentTick_eq : after.system.currentTick = before.system.currentTick + 1
  currentIteration_eq : after.system.currentIteration = before.system.currentIteration + 1
  iterationId_eq : commit.iterationId = before.system.currentIteration + 1
  triggeredAtTick_eq : commit.triggeredAtTick = before.system.currentTick
  inflation_eq : commit.inflation = measuredInflation before.system
  latest : commit.Latest after.system

theorem executeIteration_reads {wallets : List (Wallet F)} {parameters : SystemParameters F} {system : SystemState F}
    {operatorId : OperatorId} {result : IterationResult F}
    (ran : executeIteration C wallets parameters system operatorId = .ok result) :
    result.commit.inflation = measuredInflation system ∧ result.commit.triggeredAtTick = system.currentTick := by
  unfold executeIteration at ran
  dsimp only at ran
  split at ran
  · cases ran
  split at ran
  · cases ran
  cases ran
  exact ⟨rfl, rfl⟩

/-- With a secret that can sign, an iteration answers with what it committed, or enters nothing. -/
theorem executeIterationNow_commits (formed : Crypto.WellFormedSecret before.operatorSecret)
    (parameters : SystemParameters F) (now snapshotNow : Timestamp) :
    (executeIterationNow C parameters now snapshotNow before).1.isOk = false ∧
        before.Idles (executeIterationNow C parameters now snapshotNow before).2 ∨
      ∃ commit, (executeIterationNow C parameters now snapshotNow before).1 = .ok commit ∧
        before.Commits commit (executeIterationNow C parameters now snapshotNow before).2 := by
  rcases executeIterationNow_cases C before parameters now snapshotNow with ⟨_, ran⟩ | ⟨_, iterates⟩
  · rw [ran]
    exact Or.inl ⟨rfl, .refl before⟩
  generalize executeIterationNow C parameters now snapshotNow before = finished at *
  cases iterates with
  | panicked => exact Or.inl ⟨rfl, .locked before⟩
  | stranded _ _ malformed => exact absurd formed malformed
  | @committed beta result entry closing ran valid _ _ closes =>
    obtain ⟨inflation, triggered⟩ := executeIteration_reads ran
    have iterations : (before.locked.posted result.wallets (commitSystem before.locked.system result)
        (.iterationCommit result.commit) entry).trees.iterations = before.trees.iterations :=
      (congrArg Trees.iterations CoinState.trees_posted).trans (CoinState.Idles.locked before).iterations_eq
    have history : (before.locked.posted result.wallets (commitSystem before.locked.system result)
        (.iterationCommit result.commit) entry).history = before.history ++ [.iterationCommit result.commit] := by
      rw [CoinState.history_posted, (Quiet.locked before).past.1]
    refine Or.inr ⟨result.commit, rfl, ?_, ?_, rfl, valid.iterationId_eq, valid.iterationId_eq, triggered, inflation,
      ⟨rfl, rfl, rfl, triggered.symm⟩⟩
    · rw [CoinState.trees_writeAll, ← iterations]
      rcases closes with rfl | ⟨taken, rfl⟩
      all_goals rfl
    · have aside : ∀ write ∈ Write.iteration result.commit ::
          .state (CoinState.anchoredSystem (commitSystem before.locked.system result) entry) :: closing,
          write.aside = true := by
        intro write member
        rcases List.mem_cons.mp member with rfl | member
        · rfl
        rcases List.mem_cons.mp member with rfl | member
        · rfl
        exact closes.aside write member
      exact (CoinState.past_writeAside _ aside).1.trans history

namespace CoinState.Chronicled

/-- What the next iteration will measure. -/
theorem measured (chronicled : node.Chronicled) :
    measuredInflation node.system =
      (node.committed.getLast?.map IterationCommit.growth).getD (F64.lit 0) := by
  cases last : node.committed.getLast? with
  | none =>
    have start := chronicled.unmeasured (List.getLast?_eq_none_iff.mp last)
    simp [measuredInflation, start]
  | some commit =>
    have latest := chronicled.latest commit last
    rw [measuredInflation, latest.snapshotSupply_eq, latest.postSupply_eq]
    rfl

theorem idles (chronicled : before.Chronicled) (idles : before.Idles after) : after.Chronicled := by
  have same : after.committed = before.committed :=
    congrArg KeyedTree.entries idles.iterations_eq
  obtain ⟨more, grown, plain, tick⟩ := idles.grown
  constructor
  case numbered =>
    rw [same, idles.currentIteration_eq]
    exact chronicled.numbered
  case archived =>
    rw [same, grown, List.filterMap_append, plain, List.append_nil]
    exact chronicled.archived
  case ticked => rw [grown, List.length_append, chronicled.ticked, tick]
  case placed =>
    intro commit member
    rw [same] at member
    have old := chronicled.placed commit member
    have inside := (List.getElem?_eq_some_iff.mp old).choose
    rw [grown, List.getElem?_append_left inside]
    exact old
  case unmeasured =>
    rw [same, idles.previousIterationStartSupply_eq]
    exact chronicled.unmeasured
  case latest =>
    rw [same]
    intro commit last
    have latest := chronicled.latest commit last
    exact ⟨idles.previousIterationStartSupply_eq.trans latest.snapshotSupply_eq,
      idles.previousIterationSupply_eq.trans latest.postSupply_eq, idles.lastInflation_eq.trans latest.inflation_eq,
      idles.iterationStartedAt_eq.trans latest.triggeredAtTick_eq⟩
  case first =>
    rw [same]
    exact chronicled.first
  case chained =>
    rw [same]
    exact chronicled.chained

theorem commits (chronicled : before.Chronicled) {commit : IterationCommit F} (commits : before.Commits commit after) :
    after.Chronicled := by
  have listed : after.committed = before.committed ++ [commit] := by
    refine (congrArg KeyedTree.entries commits.iterations_eq).trans (KeyedTree.entries_put_last fun other member => ?_)
    have number : other.iterationId ∈ before.committed.map IterationCommit.iterationId :=
      List.mem_map_of_mem member
    rw [chronicled.numbered, List.mem_range'_1] at number
    rw [commits.iterationId_eq]
    exact number.2.trans_eq (Nat.add_comm _ _)
  have last : (before.committed ++ [commit]).getLast? = some commit := List.getLast?_concat
  have tick : before.history.length = commit.triggeredAtTick := chronicled.ticked.trans commits.triggeredAtTick_eq.symm
  have inflation := commits.inflation_eq.trans chronicled.measured
  constructor
  case numbered =>
    rw [listed, List.map_append, chronicled.numbered, commits.currentIteration_eq, List.range'_1_concat,
      List.map_singleton, commits.iterationId_eq, Nat.add_comm 1]
  case archived =>
    rw [listed, commits.history_eq, List.filterMap_append, chronicled.archived]
    rfl
  case ticked =>
    rw [commits.history_eq, List.length_append, chronicled.ticked, commits.currentTick_eq]
    rfl
  case placed =>
    intro other member
    rw [listed] at member
    rw [commits.history_eq]
    rcases List.mem_append.mp member with old | new
    · have found := chronicled.placed other old
      have inside := (List.getElem?_eq_some_iff.mp found).choose
      rw [List.getElem?_append_left inside]
      exact found
    · rw [List.mem_singleton.mp new, ← tick, List.getElem?_concat_length]
  case unmeasured =>
    intro none
    rw [listed] at none
    exact absurd none (by simp)
  case latest =>
    rw [listed, last]
    rintro other ⟨⟩
    exact commits.latest
  case first =>
    rw [listed, List.head?_append]
    intro other head
    cases earlier : before.committed.head? with
    | some found =>
      rw [earlier] at head
      exact chronicled.first other (earlier.trans head)
    | none =>
      rw [earlier] at head
      cases head
      have empty := List.head?_eq_none_iff.mp earlier
      rw [inflation, empty]
      rfl
  case chained =>
    rw [listed, List.isChain_append]
    refine ⟨chronicled.chained, List.isChain_singleton _, fun earlier member other head => ?_⟩
    cases head
    rw [inflation, show before.committed.getLast? = some earlier from member]
    rfl

theorem next (chronicled : node.Chronicled) (formed : Crypto.WellFormedSecret node.operatorSecret) (call : Call F) :
    (call.next C node).Chronicled := by
  have script := call.script_writes C node
  cases call with
  | executeIterationNow parameters now snapshotNow =>
    rcases executeIterationNow_commits formed parameters now snapshotNow with ⟨_, idle⟩ | ⟨commit, _, committed⟩
    · exact chronicled.idles idle
    · exact chronicled.commits committed
  | updateParameters =>
    refine chronicled.idles (script.idles formed ?_)
    rintro booking ⟨⟩
  | installSeed =>
    refine chronicled.idles (script.idles formed ?_)
    rintro booking ⟨_, _, _, _, rfl⟩ _ ⟨⟩
  | _ =>
    refine chronicled.idles (script.idles formed ?_)
    rintro booking booked parameters rfl
    cases Set.mem_singleton_iff.mp booked

end CoinState.Chronicled

/-- A new database has no iterations. -/
theorem CoinState.Chronicled.opened {env : String → Option String} {config : NodeConfig F}
    (opened : (openCoinState C env config .empty).1 = .ok node) : node.Chronicled := by
  have past := (openCoinState_empty_past opened).1
  have start := (openCoinState_empty opened).default_eq
  obtain ⟨validators, trees⟩ := openCoinState_trees opened
  have nothing : node.committed = [] :=
    congrArg KeyedTree.entries (congrArg Trees.iterations trees)
  constructor
  case unmeasured =>
    rw [start]
    exact fun _ => rfl
  case archived =>
    rw [nothing, past]
    rfl
  case ticked =>
    rw [past, start]
    rfl
  case numbered =>
    rw [nothing, start]
    rfl
  all_goals
    rw [nothing]
    simp

/-- In every run that starts from an empty database with a secret that can sign: the commits of the
archive carry the numbers from one to the current one in order, each stands under the tick that follows
the one it was triggered at, and its inflation is the growth of the supply in the one before it. The
iterations reported are these commits, as they are read back. -/
theorem iterations_chronicled {env : String → Option String} {config : NodeConfig F} {start : CoinState F}
    (opened : (openCoinState C env config .empty).1 = .ok start)
    (formed : Crypto.WellFormedSecret start.operatorSecret)
    (reach : Reach (fun state call => Call.next C call state) (fun _ _ => True) start node) :
    node.Chronicled ∧
      node.storage.listIterations = (node.history.filterMap Transaction.commit?).map IterationCommit.reread ∧
      node.storage.supplyHistory.map SupplyPoint.iteration = List.range' 1 node.system.currentIteration ∧
      node.storage.giniHistory.map GiniPoint.iteration = List.range' 1 node.system.currentIteration ∧
      ∀ id, (node.storage.getIteration id).isSome = true ↔ 1 ≤ id ∧ id ≤ node.system.currentIteration := by
  obtain ⟨_, chronicled⟩ : Crypto.WellFormedSecret node.operatorSecret ∧ node.Chronicled := by
    refine reach.invariant (fun node => Crypto.WellFormedSecret node.operatorSecret ∧ node.Chronicled)
      ⟨formed, .opened opened⟩ ?_
    rintro state call ⟨signs, chronicled⟩ _
    exact ⟨(Call.sameKeys (C := C) state call).operatorSecret_eq ▸ signs, chronicled.next signs call⟩
  have reported : node.storage.listIterations = node.committed.map IterationCommit.reread := rfl
  refine ⟨chronicled, ?_, ?_, ?_, fun id => ?_⟩
  · rw [reported, chronicled.archived]
  · rw [← chronicled.numbered, Storage.supplyHistory, reported, List.map_map, List.map_map]
    rfl
  · rw [← chronicled.numbered, Storage.giniHistory, reported, List.map_map, List.map_map]
    rfl
  · have listed : (node.storage.getIteration id).isSome = true ↔
        id ∈ node.committed.map IterationCommit.iterationId := by
      rw [Storage.getIteration, Option.isSome_map, Option.isSome_iff_exists, List.mem_map]
      exact exists_congr fun commit => KeyedTree.get_eq_some_iff
    rw [listed, chronicled.numbered, List.mem_range'_1]
    lia

/-- The first iteration that commits is number one. -/
theorem currentIteration_first {parameters : SystemParameters F} {now snapshotNow : Timestamp}
    {commit : IterationCommit F} (formed : Crypto.WellFormedSecret node.operatorSecret)
    (start : node.system.currentIteration = 0)
    (returned : (executeIterationNow C parameters now snapshotNow node).1 = .ok commit) :
    ((Call.executeIterationNow parameters now snapshotNow).next C node).system.currentIteration = 1 := by
  rcases executeIterationNow_commits (C := C) formed parameters now snapshotNow with
    ⟨failed, _⟩ | ⟨committed, _, commits⟩
  · rw [returned] at failed
    cases failed
  · have current := commits.currentIteration_eq
    rw [start] at current
    exact current

end Commits

/-- The first iteration of a node with one wallet. -/
theorem iterations_chronicled_first :
    ((Call.executeIterationNow Concrete.parameters 0 0).next Concrete.crypto
      (Concrete.firstNode (Concrete.key 1))).storage.supplyHistory.map SupplyPoint.iteration = [1] ∧
    ((Call.executeIterationNow Concrete.parameters 0 0).next Concrete.crypto
      (Concrete.firstNode (Concrete.key 1))).Chronicled := by
  obtain ⟨_, result, returned, _⟩ := Concrete.firstCommit (Concrete.key 1)
  obtain ⟨_, start, _, secret⟩ := Concrete.firstNode_system (Concrete.key 1)
  have formed : Crypto.WellFormedSecret (Concrete.firstNode (Concrete.key 1)).operatorSecret := by
    rw [secret]
    exact Concrete.node_formed
  have first : Reach (fun state call => Call.next Concrete.crypto call state) (fun _ _ => True) Concrete.node
      (Concrete.firstNode (Concrete.key 1)) := (Concrete.firstNode_reach (Concrete.key 1)).mono fun _ _ _ => trivial
  have run : Reach (fun state call => Call.next Concrete.crypto call state) (fun _ _ => True) Concrete.node
      ((Call.executeIterationNow Concrete.parameters 0 0).next Concrete.crypto (Concrete.firstNode (Concrete.key 1))) :=
    .next first trivial
  obtain ⟨chronicled, _, numbers, _⟩ := iterations_chronicled Concrete.opened_node Concrete.node_formed run
  rw [currentIteration_first formed start returned] at numbers
  exact ⟨numbers, chronicled⟩

end AggoraCoin
