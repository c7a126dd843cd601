import AggoraCoin.IterationLock
import AggoraCoin.ParameterSwaps

namespace AggoraCoin

variable {F : Type} [F64 F]

structure SimulationStatus where
  running : Bool
  mode : String
  iterationsExecuted : Nat
  deriving DecidableEq

/-- `set_simulation_running` -/
def setSimulationRunning (running : Bool) (mode : String) (status : SimulationStatus) : SimulationStatus :=
  { status with running, mode }

namespace Simulation

/-- Where `run_simulation_iterations` stands. `more` counts the iterations after the one at hand. -/
inductive Phase
  | requested (iterations : Nat)
  | attempting (more : Nat)
  | counting (more : Nat)
  | clearing
  | finished (status : SimulationStatus)
  | ended (error : Option StateError)
  deriving DecidableEq

namespace Phase

/-- The head of `for _ in 0..iterations`. -/
def loop : Nat → Phase
  | 0 => clearing
  | more + 1 => attempting more

/-- The flag was set for the run, and the run is not over. -/
def inProgress : Phase → Bool
  | attempting _ => true
  | counting _ => true
  | clearing => true
  | _ => false

/-- The iterations it has yet to commit. -/
def remaining : Phase → Nat
  | attempting more => more + 1
  | counting more => more
  | _ => 0

/-- Of these, the one in progress: none when it was committed already. -/
def atHand : Phase → Nat
  | attempting _ => 1
  | _ => 0

end Phase

/-- A run, and what is remembered of it to speak about the whole course: once a stop was served
while it was in progress, the iteration it had at hand then and what it committed since; and when it
reported, how many other runs had iterations to commit. -/
structure Run where
  phase : Phase
  granted : Option Nat
  since : Nat
  overlapped : Nat

namespace Run

def requested (iterations : Nat) : Run := ⟨.requested iterations, none, 0, 0⟩

def commit (more : Nat) (run : Run) : Run := { run with phase := .counting more, since := run.since + 1 }

/-- A stop is served: the first one counts. -/
def halt (run : Run) : Run :=
  if run.phase.inProgress ∧ run.granted = none then { run with granted := some run.phase.atHand, since := 0 } else run

end Run

structure Server (F : Type) where
  node : CoinState F
  status : SimulationStatus
  runs : List Run

inductive Input (F : Type)
  | request (iterations : Nat)
  | begin (i : Nat)
  | attempt (i : Nat) (now snapshotNow : Timestamp)
  | count (i : Nat)
  | clear (i : Nat)
  | stop
  | call (call : Call F)

namespace Server

/-- A server that has just opened its database. -/
def idle (node : CoinState F) : Server F := ⟨node, ⟨false, "idle", 0⟩, []⟩

/-- The other runs. -/
def others (i : Nat) (server : Server F) : List Run := server.runs.eraseIdx i

def place (i : Nat) (run : Run) (server : Server F) : Server F := { server with runs := server.runs.set i run }

variable (C : Crypto)

/-- One iteration of the loop: an error or a panic ends the run where it stands. -/
def attempt (i : Nat) (run : Run) (more : Nat) (now snapshotNow : Timestamp) (server : Server F) : Server F :=
  match executeIterationNow C server.node.parameters now snapshotNow server.node with
  | (.ok _, node) => { server.place i (run.commit more) with node }
  | (.err e, node) => { server.place i { run with phase := .ended (some e) } with node }
  | (.panic, node) => { server.place i { run with phase := .ended none } with node }

/-- A step; one that a run cannot take where it stands changes nothing. -/
def next (server : Server F) : Input F → Server F
  | .request iterations => { server with runs := server.runs ++ [.requested iterations] }
  | .begin i =>
    match server.runs[i]? with
    | some ⟨.requested iterations, granted, since, overlapped⟩ =>
      { server.place i ⟨.loop iterations, granted, since, overlapped⟩ with
        status := setSimulationRunning true "manual" server.status }
    | _ => server
  | .attempt i now snapshotNow =>
    match server.runs[i]? with
    | some ⟨.attempting more, granted, since, overlapped⟩ =>
      server.attempt C i ⟨.attempting more, granted, since, overlapped⟩ more now snapshotNow
    | _ => server
  | .count i =>
    match server.runs[i]? with
    | some ⟨.counting more, granted, since, overlapped⟩ =>
      { server.place i ⟨.loop more, granted, since, overlapped⟩ with
        status := { server.status with
          iterationsExecuted := Unsigned.wrappingAdd 64 server.status.iterationsExecuted 1 } }
    | _ => server
  | .clear i =>
    match server.runs[i]? with
    | some ⟨.clearing, granted, since, _⟩ =>
      let status := { server.status with running := false }
      { server.place i ⟨.finished status, granted, since, (server.others i).countP (0 < ·.phase.remaining)⟩ with status }
    | _ => server
  | .stop =>
    { server with
      status := setSimulationRunning false "stopped" server.status
      runs := server.runs.map Run.halt }
  | .call call => { server with node := call.next C server.node }

end Server

/-- After a stop a run commits the iteration it had at hand and no other; the flag is clear while no
run is in progress; and no run reports the flag clear while another has iterations to commit. -/
structure Server.Truthful (server : Server F) : Prop where
  stopped : ∀ run ∈ server.runs, ∀ granted, run.granted = some granted → run.since ≤ granted
  idle : (∀ run ∈ server.runs, run.phase.inProgress = false) → server.status.running = false
  reported : ∀ run ∈ server.runs, ∀ status, run.phase = .finished status → status.running = false →
    run.overlapped = 0

/-- The lock is free, the secret can sign and the burn rates are in order. -/
structure CanCommit (node : CoinState F) : Prop where
  unlocked : node.system.iterationLock = false
  finishes : Finishes node.parameters node

/-- A stop finds every run on its last iteration; an iteration that cannot be committed is attempted
only while another run is in progress or the flag is clear already; and a run clears the flag when no
other run has iterations to commit. -/
def Orderly (server : Server F) : Input F → Prop
  | .stop => ∀ run ∈ server.runs, run.phase.remaining ≤ run.phase.atHand
  | .attempt i _ _ => ∀ run more, server.runs[i]? = some run → run.phase = .attempting more →
      CanCommit server.node ∨ server.status.running = false ∨
        ∃ other ∈ server.others i, other.phase.inProgress = true
  | .clear i => ∀ run, server.runs[i]? = some run → run.phase = .clearing →
      ∀ other ∈ server.others i, other.phase.remaining = 0
  | _ => True

variable {C : Crypto}

/-- An iteration is committed exactly where it can be. -/
theorem executeIterationNow_isOk_iff (node : CoinState F) (now snapshotNow : Timestamp) :
    (executeIterationNow C node.parameters now snapshotNow node).1.isOk = true ↔ CanCommit node := by
  rcases executeIterationNow_cases C node node.parameters now snapshotNow with ⟨busy, ran⟩ | ⟨unlocked, iterates⟩
  · rw [ran]
    constructor
    · rintro ⟨⟩
    · intro can
      rw [can.unlocked] at busy
      cases busy
  · generalize executeIterationNow C node.parameters now snapshotNow node = finished at *
    cases iterates with
    | panicked unordered =>
      constructor
      · rintro ⟨⟩
      · intro can
        rw [can.finishes.ordered] at unordered
        cases unordered
    | committed ran valid formed =>
      have rated := Option.isSome_of_eq_some valid.rate
      exact iff_of_true rfl ⟨unlocked, (isSome_burnRate_iff _ _).mp rated, formed⟩
    | stranded ran valid malformed =>
      constructor
      · rintro ⟨⟩
      · intro can
        exact absurd can.finishes.formed malformed

/-- After a committed iteration the next one can be committed. -/
theorem CanCommit.next {node after : CoinState F} {now snapshotNow : Timestamp} {commit : IterationCommit F}
    (can : CanCommit node)
    (ran : executeIterationNow C node.parameters now snapshotNow node = (.ok commit, after)) : CanCommit after := by
  rcases executeIterationNow_cases C node node.parameters now snapshotNow with ⟨busy, _⟩ | ⟨_, iterates⟩
  · rw [can.unlocked] at busy
    cases busy
  · rw [ran] at iterates
    cases iterates with
    | committed => exact ⟨rfl, can.finishes.ordered, can.finishes.formed⟩

/-- What a single run keeps to. -/
structure Run.Sound (run : Run) : Prop where
  fresh : ∀ iterations, run.phase = .requested iterations → run.granted = none
  bound : ∀ granted, run.granted = some granted → run.since + run.phase.remaining ≤ granted
  reported : ∀ status, run.phase = .finished status → run.overlapped = 0

structure Server.InHand (server : Server F) : Prop where
  sound : ∀ run ∈ server.runs, run.Sound
  idle : (∀ run ∈ server.runs, run.phase.inProgress = false) → server.status.running = false

namespace Server

variable {server : Server F}

omit [F64 F] in
theorem InHand.truthful (inHand : server.InHand) : server.Truthful := by
  refine ⟨fun run member granted stopped => ?_, inHand.idle, fun run member status phase _ => ?_⟩
  · exact (Nat.le_add_right _ _).trans ((inHand.sound run member).bound granted stopped)
  · exact (inHand.sound run member).reported status phase

omit [F64 F] in
theorem inHand_idle (node : CoinState F) : (idle node).InHand := by
  constructor
  · intro run member
    cases member
  · exact fun _ => rfl

omit [F64 F] in
/-- A run is moved on: the others stay as they are. -/
theorem InHand.place (inHand : server.InHand) {i : Nat} {before run : Run} {node : CoinState F}
    {status : SimulationStatus} (found : server.runs[i]? = some before) (sound : run.Sound)
    (idle : run.phase.inProgress = false → (∀ other ∈ server.others i, other.phase.inProgress = false) →
      status.running = false) : InHand { server.place i run with node, status } := by
  obtain ⟨inside, _⟩ := List.getElem?_eq_some_iff.mp found
  constructor
  · intro other member
    rcases List.mem_or_eq_of_mem_set member with old | rfl
    · exact inHand.sound other old
    · exact sound
  · intro none
    refine idle (none run (List.mem_set inside run)) fun other member => none other ?_
    obtain ⟨j, apart, here⟩ := List.mem_eraseIdx_iff_getElem?.mp member
    have kept : (server.runs.set i run)[j]? = some other := by
      rw [List.getElem?_set_ne (Ne.symm apart)]
      exact here
    exact List.mem_of_getElem? kept

omit [F64 F] in
theorem InHand.begin (inHand : server.InHand) {i iterations : Nat} {granted : Option Nat} {since overlapped : Nat}
    (found : server.runs[i]? = some ⟨.requested iterations, granted, since, overlapped⟩) (mode : String) :
    InHand { server.place i ⟨.loop iterations, granted, since, overlapped⟩ with
      status := setSimulationRunning true mode server.status } := by
  have fresh := (inHand.sound _ (List.mem_of_getElem? found)).fresh iterations rfl
  have started : (Phase.loop iterations).inProgress = true := by cases iterations <;> rfl
  refine inHand.place found ⟨?_, ?_, ?_⟩ ?_
  · intro _ _
    exact fresh
  · intro allowed stopped
    have none : some allowed = (Option.none : Option Nat) := stopped.symm.trans fresh
    cases none
  · intro status reported
    cases iterations <;> cases reported
  · intro still
    rw [started] at still
    cases still

omit [F64 F] in
theorem InHand.count (inHand : server.InHand) {i more : Nat} {granted : Option Nat} {since overlapped : Nat}
    (found : server.runs[i]? = some ⟨.counting more, granted, since, overlapped⟩) (status : SimulationStatus) :
    InHand { server.place i ⟨.loop more, granted, since, overlapped⟩ with status } := by
  have sound := inHand.sound _ (List.mem_of_getElem? found)
  have going : (Phase.loop more).inProgress = true := by cases more <;> rfl
  have left : (Phase.loop more).remaining = more := by cases more <;> rfl
  refine inHand.place found ⟨?_, ?_, ?_⟩ ?_
  · intro iterations waiting
    cases more <;> cases waiting
  · intro allowed stopped
    have bound : since + (Phase.loop more).remaining ≤ allowed := by
      rw [left]
      exact sound.bound allowed stopped
    exact bound
  · intro status reported
    cases more <;> cases reported
  · intro still
    rw [going] at still
    cases still

omit [F64 F] in
theorem InHand.commit (inHand : server.InHand) {i more : Nat} {granted : Option Nat} {since overlapped : Nat}
    (found : server.runs[i]? = some ⟨.attempting more, granted, since, overlapped⟩) (node : CoinState F) :
    InHand { server.place i (Run.commit more ⟨.attempting more, granted, since, overlapped⟩) with node } := by
  have sound := inHand.sound _ (List.mem_of_getElem? found)
  refine inHand.place found ⟨?_, ?_, ?_⟩ ?_
  · rintro iterations ⟨⟩
  · intro allowed stopped
    have bound : since + (more + 1) ≤ allowed := sound.bound allowed stopped
    have grown : since + 1 + more ≤ allowed := by omega
    exact grown
  · rintro status ⟨⟩
  · rintro ⟨⟩

omit [F64 F] in
/-- An iteration that fails ends its run; the flag stays as it is. -/
theorem InHand.fail (inHand : server.InHand) {i more : Nat} {granted : Option Nat} {since overlapped : Nat}
    {error : Option StateError} (found : server.runs[i]? = some ⟨.attempting more, granted, since, overlapped⟩)
    (node : CoinState F)
    (covered : server.status.running = false ∨ ∃ other ∈ server.others i, other.phase.inProgress = true) :
    InHand { server.place i ⟨.ended error, granted, since, overlapped⟩ with node } := by
  have sound := inHand.sound _ (List.mem_of_getElem? found)
  refine inHand.place found ⟨?_, ?_, ?_⟩ ?_
  · rintro iterations ⟨⟩
  · intro allowed stopped
    have bound : since + (more + 1) ≤ allowed := sound.bound allowed stopped
    have kept : since + 0 ≤ allowed := by omega
    exact kept
  · rintro status ⟨⟩
  · intro _ none
    rcases covered with clear | ⟨other, member, going⟩
    · exact clear
    · rw [none other member] at going
      cases going

omit [F64 F] in
theorem InHand.clear (inHand : server.InHand) {i : Nat} {granted : Option Nat} {since overlapped : Nat}
    (found : server.runs[i]? = some ⟨.clearing, granted, since, overlapped⟩)
    (alone : ∀ other ∈ server.others i, other.phase.remaining = 0) (mode : String) (executed : Nat) :
    InHand { server.place i ⟨.finished ⟨false, mode, executed⟩, granted, since,
      (server.others i).countP (0 < ·.phase.remaining)⟩ with status := ⟨false, mode, executed⟩ } := by
  have sound := inHand.sound _ (List.mem_of_getElem? found)
  refine inHand.place found ⟨?_, ?_, ?_⟩ ?_
  · rintro iterations ⟨⟩
  · exact sound.bound
  · intro status _
    refine List.countP_eq_zero.mpr fun other member busy => ?_
    have positive : 0 < other.phase.remaining := of_decide_eq_true busy
    rw [alone other member] at positive
    exact lt_irrefl _ positive
  · exact fun _ _ => rfl

omit [F64 F] in
/-- A stop that finds every run on its last iteration grants each what it has left. -/
theorem InHand.stop (inHand : server.InHand) (last : ∀ run ∈ server.runs, run.phase.remaining ≤ run.phase.atHand)
    (mode : String) : InHand { server with
      status := setSimulationRunning false mode server.status, runs := server.runs.map Run.halt } := by
  constructor
  · intro run member
    obtain ⟨before, inside, rfl⟩ := List.mem_map.mp member
    have sound := inHand.sound before inside
    unfold Run.halt
    split
    · rename_i first
      refine ⟨fun iterations requested => ?_, fun granted same => ?_, sound.reported⟩
      · have waiting : before.phase = .requested iterations := requested
        rw [waiting] at first
        cases first.1
      · cases same
        have bound : 0 + before.phase.remaining ≤ before.phase.atHand := by
          rw [Nat.zero_add]
          exact last before inside
        exact bound
    · exact sound
  · exact fun _ => rfl

variable (C) in
theorem InHand.next (inHand : server.InHand) {input : Input F} (orderly : Orderly server input) :
    (server.next C input).InHand := by
  cases input with
  | request iterations =>
    constructor
    · intro run member
      rcases List.mem_append.mp member with old | new
      · exact inHand.sound run old
      · rw [List.mem_singleton.mp new]
        exact ⟨fun _ _ => rfl, by rintro granted ⟨⟩, by rintro status ⟨⟩⟩
    · intro none
      exact inHand.idle fun run member => none run (List.mem_append_left _ member)
  | begin i =>
    dsimp only [Server.next]
    split
    · rename_i found
      exact inHand.begin found "manual"
    · exact inHand
  | attempt i now snapshotNow =>
    dsimp only [Server.next]
    split
    · rename_i more granted since overlapped found
      have covered := orderly _ more found rfl
      have succeeds := executeIterationNow_isOk_iff (C := C) server.node now snapshotNow
      unfold Server.attempt
      cases ran : executeIterationNow C server.node.parameters now snapshotNow server.node with
      | mk outcome node =>
        rw [ran] at succeeds
        cases outcome with
        | ok commit => exact inHand.commit found node
        | err e => exact inHand.fail found node (covered.resolve_left fun can => by cases succeeds.mpr can)
        | panic => exact inHand.fail found node (covered.resolve_left fun can => by cases succeeds.mpr can)
    · exact inHand
  | count i =>
    dsimp only [Server.next]
    split
    · rename_i found
      exact inHand.count found _
    · exact inHand
  | clear i =>
    dsimp only [Server.next]
    split
    · rename_i found
      exact inHand.clear found (orderly _ found rfl) _ _
    · exact inHand
  | stop => exact inHand.stop orderly "stopped"
  | call call => exact ⟨inHand.sound, inHand.idle⟩

end Server

variable (C) in
/-- Any number of steps in any order, each of them orderly. -/
abbrev Server.OrderlyCourse (start : Server F) : Server F → Prop := Reach (Server.next C) Orderly start

theorem Server.OrderlyCourse.step {start server : Server F} (course : Server.OrderlyCourse C start server)
    (input : Input F) (orderly : Orderly server input) : Server.OrderlyCourse C start (server.next C input) :=
  .next course orderly

/-- In every course whose steps are orderly the status stays truthful. -/
theorem simulation_control_truthful (C : Crypto) (node : CoinState F) {server : Server F}
    (course : Server.OrderlyCourse C (Server.idle node) server) : server.Truthful := by
  have inHand : server.InHand := course.invariant Server.InHand (Server.inHand_idle node)
    fun before input holds orderly => holds.next C orderly
  exact inHand.truthful

section Untruthful

variable (C) in
/-- Any steps, in any order. -/
abbrev Server.Course (start : Server F) : Server F → Prop := Reach (Server.next C) (fun _ _ => True) start

theorem Server.Course.step {start server : Server F} (course : Server.Course C start server) (input : Input F) :
    Server.Course C start (server.next C input) := .next course trivial

variable {node after : CoinState F} {status : SimulationStatus} {runs : List Run} {i more : Nat} {granted : Option Nat}
  {since overlapped : Nat} {now snapshotNow : Timestamp}

theorem next_attempt_ok {commit : IterationCommit F}
    (found : runs[i]? = some ⟨.attempting more, granted, since, overlapped⟩)
    (ran : executeIterationNow C node.parameters now snapshotNow node = (.ok commit, after)) :
    Server.next C ⟨node, status, runs⟩ (.attempt i now snapshotNow) =
      ⟨after, status, runs.set i ⟨.counting more, granted, since + 1, overlapped⟩⟩ := by
  simp only [Server.next, found, Server.attempt, ran, Server.place, Run.commit]

theorem next_attempt_err {e : StateError} (found : runs[i]? = some ⟨.attempting more, granted, since, overlapped⟩)
    (ran : executeIterationNow C node.parameters now snapshotNow node = (.err e, after)) :
    Server.next C ⟨node, status, runs⟩ (.attempt i now snapshotNow) =
      ⟨after, status, runs.set i ⟨.ended (some e), granted, since, overlapped⟩⟩ := by
  simp only [Server.next, found, Server.attempt, ran, Server.place]

theorem CanCommit.commits (can : CanCommit node) (now snapshotNow : Timestamp) :
    ∃ commit after, executeIterationNow C node.parameters now snapshotNow node = (.ok commit, after) ∧
      CanCommit after := by
  have succeeds := (executeIterationNow_isOk_iff (C := C) node now snapshotNow).mpr can
  cases ran : executeIterationNow C node.parameters now snapshotNow node with
  | mk outcome after =>
    rw [ran] at succeeds
    cases outcome with
    | ok commit => exact ⟨commit, after, rfl, can.next ran⟩
    | err e => cases succeeds
    | panic => cases succeeds

/-- A run of three iterations goes on after a stop that was served during its first. -/
theorem stop_unheeded (C : Crypto) (can : CanCommit node) :
    ∃ server : Server F, Server.Course C (Server.idle node) server ∧
      ∃ run ∈ server.runs, ∃ granted, run.granted = some granted ∧ granted < run.since := by
  obtain ⟨commit, first, ran, can'⟩ := can.commits (C := C) 0 0
  obtain ⟨commit', second, ran', _⟩ := can'.commits (C := C) 0 0
  have stopped : Server.Course C (Server.idle node)
      ⟨node, ⟨false, "stopped", 0⟩, [⟨.attempting 2, some 1, 0, 0⟩]⟩ :=
    ((Server.Course.step .start (.request 3)).step (.begin 0)).step .stop
  have once := stopped.step (.attempt 0 0 0)
  rw [next_attempt_ok rfl ran] at once
  have counted : Server.Course C (Server.idle node)
      ⟨first, ⟨false, "stopped", Unsigned.wrappingAdd 64 0 1⟩, [⟨.attempting 1, some 1, 1, 0⟩]⟩ :=
    Server.Course.step once (.count 0)
  have twice := counted.step (.attempt 0 0 0)
  rw [next_attempt_ok rfl ran'] at twice
  exact ⟨_, twice, _, List.mem_singleton_self _, 1, rfl, by decide⟩

/-- A run that an error ends leaves the flag set. -/
theorem error_leaves_flag (C : Crypto) {e : StateError}
    (ran : executeIterationNow C node.parameters 0 0 node = (.err e, after)) :
    ∃ server : Server F, Server.Course C (Server.idle node) server ∧
      (∀ run ∈ server.runs, run.phase.inProgress = false) ∧ server.status.running = true := by
  have started : Server.Course C (Server.idle node)
      ⟨node, ⟨true, "manual", 0⟩, [⟨.attempting 0, none, 0, 0⟩]⟩ :=
    (Server.Course.step .start (.request 1)).step (.begin 0)
  have failed := started.step (.attempt 0 0 0)
  rw [next_attempt_err rfl ran] at failed
  refine ⟨_, failed, fun run member => ?_, rfl⟩
  rw [List.mem_singleton.mp member]
  rfl

/-- Of two runs the one that finishes first reports the flag clear. -/
theorem finish_clears_flag (C : Crypto) (can : CanCommit node) :
    ∃ server : Server F, Server.Course C (Server.idle node) server ∧
      ∃ run ∈ server.runs, ∃ status, run.phase = .finished status ∧ status.running = false ∧ 0 < run.overlapped := by
  obtain ⟨commit, first, ran, _⟩ := can.commits (C := C) 0 0
  have started : Server.Course C (Server.idle node)
      ⟨node, ⟨true, "manual", 0⟩, [⟨.attempting 0, none, 0, 0⟩, ⟨.attempting 1, none, 0, 0⟩]⟩ :=
    (((Server.Course.step .start (.request 1)).step (.request 2)).step (.begin 0)).step (.begin 1)
  have once := started.step (.attempt 0 0 0)
  rw [next_attempt_ok rfl ran] at once
  have cleared : Server.Course C (Server.idle node)
      ⟨first, ⟨false, "manual", Unsigned.wrappingAdd 64 0 1⟩,
        [⟨.finished ⟨false, "manual", Unsigned.wrappingAdd 64 0 1⟩, none, 1, 1⟩, ⟨.attempting 1, none, 0, 0⟩]⟩ :=
    (Server.Course.step once (.count 0)).step (.clear 0)
  exact ⟨_, cleared, _, List.mem_cons_self, _, rfl, rfl, by decide⟩

end Untruthful

end Simulation

namespace Concrete

open Simulation

theorem node_canCommit : CanCommit node := by
  have swapped := (openCoinState_parameters opened_node).2
  have same : node.parameters = parameters := swapped
  refine ⟨node_released.unlocked, ?_, node_formed⟩
  rw [same]
  exact parameters_ordered

/-- A node configured with a key, and with a secret that is not one. -/
def muteConfig : NodeConfig ℚ := { keyConfig (key 1) with operatorSecret := some "zz" }

theorem malformed_zz : ¬ Crypto.WellFormedSecret (some "zz") := by
  rintro ⟨key, read⟩
  have unread : (fixed32 "zz").toOption = none := by decide +kernel
  rw [read] at unread
  cases unread

theorem mute_fails {mute : CoinState ℚ} (empty : OpenedEmpty crypto muteConfig mute)
    (same : mute.parameters = parameters) :
    ∃ e after, executeIterationNow crypto mute.parameters 0 0 mute = (.err e, after) := by
  have secret : mute.operatorSecret = some "zz" := empty.secret_eq "zz" rfl
  have ordered : F64.le mute.parameters.economy.burnMin mute.parameters.economy.burnMax = true := by
    rw [same]
    exact parameters_ordered
  have free : mute.system.iterationLock = false := by
    rw [empty.default_eq]
    rfl
  rcases executeIterationNow_cases crypto mute mute.parameters 0 0 with ⟨busy, _⟩ | ⟨_, iterates⟩
  · rw [free] at busy
    cases busy
  · generalize executeIterationNow crypto mute.parameters 0 0 mute = finished at *
    cases iterates with
    | panicked unordered =>
      rw [ordered] at unordered
      cases unordered
    | committed _ _ formed => exact absurd (secret ▸ formed) malformed_zz
    | stranded => exact ⟨_, _, rfl⟩

end Concrete

/-- From a node just opened: a stop that is not heeded, an error after which the flag stays set, and
a run that reports the flag clear while another goes on. -/
theorem simulation_control_untruthful :
    (∃ server : Simulation.Server ℚ, Simulation.Server.Course Concrete.crypto (.idle Concrete.node) server ∧
      ∃ run ∈ server.runs, ∃ granted, run.granted = some granted ∧ granted < run.since) ∧
    (∃ (mute : CoinState ℚ) (server : Simulation.Server ℚ), OpenedEmpty Concrete.crypto Concrete.muteConfig mute ∧
      Simulation.Server.Course Concrete.crypto (.idle mute) server ∧
      (∀ run ∈ server.runs, run.phase.inProgress = false) ∧ server.status.running = true) ∧
    ∃ server : Simulation.Server ℚ, Simulation.Server.Course Concrete.crypto (.idle Concrete.node) server ∧
      ∃ run ∈ server.runs, ∃ status, run.phase = .finished status ∧ status.running = false ∧ 0 < run.overlapped := by
  have configured : Concrete.muteConfig.operatorPublicKey = some (Hex.encode (Concrete.key 1).val) := rfl
  obtain ⟨mute, disk, opened, _⟩ := openCoinState_of_key Concrete.crypto (fun _ => none) (Storage.empty : Storage ℚ)
    configured (fixedBytes_encode (Concrete.key 1) (by decide))
  have empty : OpenedEmpty Concrete.crypto Concrete.muteConfig mute :=
    openCoinState_empty (congrArg Prod.fst opened)
  have swapped := (openCoinState_parameters (congrArg Prod.fst opened)).2
  obtain ⟨e, after, failed⟩ := Concrete.mute_fails empty swapped
  obtain ⟨server, course, ended, flag⟩ := Simulation.error_leaves_flag Concrete.crypto failed
  exact ⟨Simulation.stop_unheeded Concrete.crypto Concrete.node_canCommit, ⟨mute, server, empty, course, ended, flag⟩,
    Simulation.finish_clears_flag Concrete.crypto Concrete.node_canCommit⟩

open Simulation Concrete in
/-- Two runs, stopped on the last iteration of each: both commit it and report. -/
theorem simulation_control_truthful_stopped :
    ∃ server : Server ℚ, server.Truthful ∧ server.status = ⟨false, "stopped", 3⟩ ∧
      server.runs.map (fun run => (run.granted, run.since)) = [(some 1, 1), (some 1, 1)] := by
  obtain ⟨_, first, ran, can⟩ := node_canCommit.commits (C := crypto) 0 0
  obtain ⟨_, second, ran', can'⟩ := can.commits (C := crypto) 0 0
  obtain ⟨_, third, ran'', _⟩ := can'.commits (C := crypto) 0 0
  have started : Server.OrderlyCourse crypto (.idle node)
      ⟨node, ⟨true, "manual", 0⟩, [⟨.attempting 1, none, 0, 0⟩, ⟨.attempting 0, none, 0, 0⟩]⟩ :=
    (((Server.OrderlyCourse.step .start (.request 2) trivial).step (.request 1) trivial).step (.begin 0) trivial).step
      (.begin 1) trivial
  have once := started.step (.attempt 0 0 0) fun _ _ _ _ => Or.inl node_canCommit
  rw [next_attempt_ok rfl ran] at once
  have counted : Server.OrderlyCourse crypto (.idle node)
      ⟨first, ⟨true, "manual", 1⟩, [⟨.attempting 0, none, 1, 0⟩, ⟨.attempting 0, none, 0, 0⟩]⟩ :=
    Server.OrderlyCourse.step once (.count 0) trivial
  -- each run is on its last iteration
  have stopped : Server.OrderlyCourse crypto (.idle node)
      ⟨first, ⟨false, "stopped", 1⟩, [⟨.attempting 0, some 1, 0, 0⟩, ⟨.attempting 0, some 1, 0, 0⟩]⟩ := by
    refine counted.step .stop fun run member => ?_
    rcases List.mem_pair.mp member with rfl | rfl <;> exact le_rfl
  have twice := stopped.step (.attempt 0 0 0) fun _ _ _ _ => Or.inl can
  rw [next_attempt_ok rfl ran'] at twice
  have oneCleared : Server.OrderlyCourse crypto (.idle node)
      ⟨second, ⟨false, "stopped", 2⟩, [⟨.clearing, some 1, 1, 0⟩, ⟨.attempting 0, some 1, 0, 0⟩]⟩ :=
    Server.OrderlyCourse.step twice (.count 0) trivial
  have thrice := oneCleared.step (.attempt 1 0 0) fun _ _ _ _ => Or.inl can'
  rw [next_attempt_ok rfl ran''] at thrice
  have bothClearing : Server.OrderlyCourse crypto (.idle node)
      ⟨third, ⟨false, "stopped", 3⟩, [⟨.clearing, some 1, 1, 0⟩, ⟨.clearing, some 1, 1, 0⟩]⟩ :=
    Server.OrderlyCourse.step thrice (.count 1) trivial
  have reported := bothClearing.step (.clear 0) fun run _ _ other member => by
    rw [List.mem_singleton.mp member]
    rfl
  have ended := reported.step (.clear 1) fun run _ _ other member => by
    rw [List.mem_singleton.mp member]
    rfl
  exact ⟨_, simulation_control_truthful crypto node ended, rfl, rfl⟩

end AggoraCoin
