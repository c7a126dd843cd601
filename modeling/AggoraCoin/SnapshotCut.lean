import AggoraCoin.CachedSupply
import AggoraCoin.Opening
import AggoraCoin.Scripts

namespace AggoraCoin

variable {F : Type}

def Write.ofWallet : Write F → Bool
  | .wallet _ => true
  | _ => false

def Call.isTransfer : Call F → Bool
  | .transfer _ _ _ => true
  | _ => false

/-- The wallet tree is what the wallet writes make it. -/
theorem Trees.applyAll_wallets_eq {writes : List (Write F)} (elsewhere : ∀ write ∈ writes, write.ofWallet = false)
    (t : Trees F) : (t.applyAll writes).wallets = t.wallets := by
  induction writes generalizing t with
  | nil => rfl
  | cons write rest ih =>
    rw [applyAll_cons, ih fun w member => elsewhere w (List.mem_cons_of_mem _ member)]
    have here := elsewhere write (List.mem_cons_self ..)
    cases write with
    | wallet => cases here
    | _ => rfl

theorem transactionWrites_elsewhere (tx : Transaction F) (tick : Tick) :
    ∀ write ∈ transactionWrites tx tick, write.ofWallet = false := by
  intro write member
  rcases List.mem_cons.mp member with rfl | indexed
  · rfl
  · obtain ⟨entry, _, rfl⟩ := List.mem_map.mp indexed
    rfl

section Calls

variable [F64 F] {C : Crypto} {node : CoinState F}

variable (C node) in
/-- A transfer writes nothing, or its two wallets and then no other. -/
theorem transfer_writes (parameters : SystemParameters F) (request : TransferRequest) (now : Timestamp) :
    (Call.transfer parameters request now).writes C node = [] ∨
    ∃ (key : FixedBytes 32) (fromWallet toWallet : Wallet F) (plan : TransferPlan F) (rest : List (Write F)),
      plan.Valid C parameters.security request node key fromWallet toWallet ∧
      (∀ write ∈ rest, write.ofWallet = false) ∧
      (Call.transfer parameters request now).writes C node = .wallet plan.fromWallet :: .wallet plan.toWallet :: rest := by
  have ran : (Call.transfer parameters request now).next C node = (transfer C parameters request now node).2 := rfl
  rcases transfer_cases C node parameters request now with
    ⟨e, _, left⟩ | ⟨plan, key, fromWallet, toWallet, reply, _, valid, posts⟩
  · rw [Call.writes, ran, left]
    exact Or.inl (List.drop_length ..)
  · refine Or.inr ⟨key, fromWallet, toWallet, plan, ?_⟩
    rw [Call.writes, ran]
    generalize transfer C parameters request now node = finished at *
    cases posts with
    | @accepted entry formed anchored =>
      refine ⟨transactionWrites (.transfer plan.tx) (node.system.currentTick + 1) ++ [.pohEntry entry] ++
        [.state (SystemState.activate plan.newlyActive (CoinState.anchoredSystem node.system entry))], valid, ?_, ?_⟩
      · intro write member
        rw [List.append_assoc, List.mem_append] at member
        rcases member with archived | last
        · exact transactionWrites_elsewhere _ _ write archived
        · rcases List.mem_cons.mp last with rfl | last
          · rfl
          · rw [List.mem_singleton.mp last]
            rfl
      · simp only [CoinState.storeState, CoinState.posted, CoinState.withSystem, CoinState.writeAll, Storage.writeAll,
          List.append_assoc, List.drop_left]
        rfl
    | stranded malformed =>
      exact ⟨[], valid, by simp, List.drop_left⟩

variable (C) in
/-- An iteration that gets past its computation, and so settles the wallets. -/
def Call.commits (call : Call F) (state : CoinState F) : Bool :=
  match call with
  | .executeIterationNow parameters _ _ =>
    !state.system.iterationLock &&
      (executeIteration C state.listWallets parameters state.locked.system state.operatorId).isOk
  | _ => false

theorem currentIteration_steps {admits : CoinState F → Booking F → Sheet F → Prop} {after : CoinState F}
    (steps : Steps C admits node after)
    (settles : ∀ during booking sheet, admits during booking sheet → ∀ parameters, booking ≠ .commit parameters) :
    after.system.currentIteration = node.system.currentIteration := by
  have entered {before : CoinState F} {booking : Booking F} {sheet : Sheet F} (books : Books C before booking sheet)
      (admitted : admits before booking sheet) :
      sheet.system.currentIteration = before.system.currentIteration := by
    cases books with
    | commit => exact absurd rfl (settles _ _ _ admitted _)
    | _ => rfl
  refine steps.invariant (fun s => s.system.currentIteration = node.system.currentIteration) rfl ?_
  intro before later step same
  cases step with
  | enter books admitted => exact (entered books admitted).trans same
  | strand books admitted => exact (entered books admitted).trans same
  | quiet quiet =>
    obtain ⟨lock, unchanged⟩ := quiet.system
    rw [unchanged]
    exact same

variable (C node) in
/-- The iteration number counts the iterations that settled the wallets. -/
theorem Call.currentIteration_next (call : Call F) :
    (call.next C node).system.currentIteration =
      node.system.currentIteration + if call.commits C node = true then 1 else 0 := by
  cases call with
  | executeIterationNow parameters now snapshotNow =>
    have ran : (Call.executeIterationNow parameters now snapshotNow).next C node =
        (AggoraCoin.executeIterationNow C parameters now snapshotNow node).2 := rfl
    rw [ran]
    rcases executeIterationNow_cases C node parameters now snapshotNow with ⟨busy, left⟩ | ⟨unlocked, iterates⟩
    · rw [left]
      simp [commits, busy]
    generalize AggoraCoin.executeIterationNow C parameters now snapshotNow node = finished at *
    cases iterates with
    | panicked unordered =>
      have clamped : executeIteration C node.listWallets parameters node.locked.system node.operatorId = .panic := by
        rcases executeIteration_cases C parameters node.locked.system node.operatorId node.listWallets with
          ⟨_, ran⟩ | ⟨beta, _, _, valid⟩
        · exact ran
        · have ordered := (isSome_burnRate_iff parameters.economy (measuredInflation node.locked.system)).mp
            (by rw [valid.rate]; rfl)
          rw [ordered] at unordered
          cases unordered
      simp only [commits, clamped, Outcome.isOk, Bool.and_false, Bool.false_eq_true, if_false]
      rfl
    | committed settled valid =>
      simp only [commits, unlocked, settled, Outcome.isOk, Bool.not_false, Bool.and_self, if_true]
      exact valid.iterationId_eq
    | stranded settled valid =>
      simp only [commits, unlocked, settled, Outcome.isOk, Bool.not_false, Bool.and_self, if_true]
      exact valid.iterationId_eq
  | _ =>
    refine currentIteration_steps (Call.steps _) fun during booking sheet admitted parameters same => ?_
    have booked := admitted.booked
    subst same
    simp [Call.bookings] at booked

/-- The cached supply is a `u64`. -/
theorem totalSupply_le {admits : CoinState F → Booking F → Sheet F → Prop} {after : CoinState F}
    (steps : Steps C admits node after) (bound : node.system.totalSupply ≤ u64Max) :
    after.system.totalSupply ≤ u64Max := by
  have entered {before : CoinState F} {booking : Booking F} {sheet : Sheet F} (books : Books C before booking sheet)
      (bound : before.system.totalSupply ≤ u64Max) : sheet.system.totalSupply ≤ u64Max := by
    cases books with
    | create => exact Unsigned.saturatingAdd_le _ _
    | seed => exact Unsigned.saturatingAdd_le _ _
    | charge => exact Unsigned.saturatingAdd_le _ _
    | transfer => exact bound
    | burn => exact (Nat.sub_le _ _).trans bound
    | commit valid =>
      have post := valid.postSupply_eq
      exact post.trans_le (Unsigned.wrappingSum_le _)
  refine steps.invariant (fun s => s.system.totalSupply ≤ u64Max) bound fun before later step bound => ?_
  cases step with
  | enter books => exact entered books bound
  | strand books => exact entered books bound
  | quiet quiet =>
    obtain ⟨lock, unchanged⟩ := quiet.system
    rw [unchanged]
    exact bound

end Calls

/-- What `create_manual_snapshot` returns and writes to its file. -/
structure ManualSnapshot (F : Type) where
  iterationId : IterationId
  tick : Tick
  timestamp : Timestamp
  parameters : SystemParameters F
  systemState : SystemState F
  wallets : List (Wallet F)

/-- How far the snapshot has come. `settled` counts the iterations that had settled the wallets
when they were scanned. -/
inductive Reading (F : Type)
  | waiting
  | readSystem (system : SystemState F)
  | readParameters (system : SystemState F) (parameters : SystemParameters F)
  | taken (snapshot : ManualSnapshot F) (settled : Nat)

/-- The system state in hand, until the wallets are scanned. -/
def Reading.pending : Reading F → Option (SystemState F)
  | .waiting => none
  | .readSystem system => some system
  | .readParameters system _ => some system
  | .taken _ _ => none

/-- A call that holds the system lock. -/
structure Writer (F : Type) where
  call : Call F
  written : List (Write F)
  rest : List (Write F)

/-- The node as the last finished call left it, the call at work and the snapshot in progress. -/
structure CutState (F : Type) where
  node : CoinState F
  writer : Option (Writer F)
  settled : Nat
  reading : Reading F

inductive CutStep (F : Type)
  | acquire (call : Call F)
  | write
  | release
  | readSystem
  | readParameters
  | scanWallets (now : Timestamp)

namespace CutState

variable [F64 F] {C : Crypto}

def ofNode (node : CoinState F) : CutState F := ⟨node, none, 0, .waiting⟩

/-- The database at this moment. -/
def storage (state : CutState F) : Storage F :=
  match state.writer with
  | none => state.node.storage
  | some writer => state.node.storage.writeAll writer.written

/-- A step that has to wait leaves everything as it is. -/
def next (C : Crypto) (state : CutState F) (step : CutStep F) : CutState F :=
  match step, state.writer, state.reading with
  | .acquire call, none, _ => { state with writer := some ⟨call, [], call.writes C state.node⟩ }
  | .write, some ⟨call, written, write :: rest⟩, _ =>
    { state with writer := some ⟨call, written ++ [write], rest⟩ }
  | .release, some ⟨call, _, []⟩, _ =>
    { state with
      node := call.next C state.node
      writer := none
      settled := state.settled + if call.commits C state.node then 1 else 0 }
  | .readSystem, none, .waiting => { state with reading := .readSystem state.node.system }
  | .readParameters, _, .readSystem system =>
    { state with reading := .readParameters system state.node.parameters }
  | .scanWallets now, _, .readParameters system parameters =>
    { state with
      reading := .taken {
        iterationId := system.currentIteration, tick := system.currentTick, timestamp := now, parameters,
        systemState := system, wallets := state.storage.trees.wallets.entries } state.settled }
  | _, _, _ => state

/-- Nothing but a transfer comes between the two reads, and no transfer is cut in half: while the
snapshot holds a system state it has not yet scanned the wallets for, only transfers write wallets
and no iteration that settles them finishes, and the scan does not fall between the two wallets of
a transfer. -/
def Undisturbed (C : Crypto) (state : CutState F) : CutStep F → Prop
  | .write => state.reading.pending.isSome → ∀ writer ∈ state.writer, ∀ write ∈ writer.rest.head?,
      write.ofWallet = true → writer.call.isTransfer = true
  | .release => state.reading.pending.isSome → ∀ writer ∈ state.writer, writer.call.commits C state.node = false
  | .scanWallets _ => ∀ writer ∈ state.writer, writer.call.isTransfer = true → writer.written.length ≠ 1
  | _ => True

/-- The snapshot starts where the cached supply and wallet count are exact. -/
def StartsExact (state : CutState F) : CutStep F → Prop
  | .readSystem => state.node.Cached
  | _ => True

/-- The figures of a system state are those of the wallets stored. -/
structure Figures (system : SystemState F) (node : CoinState F) : Prop where
  supply : node.storedSupply = system.totalSupply
  count : node.trees.wallets.size = system.nWallets
  iteration : node.system.currentIteration = system.currentIteration
  bounded : system.totalSupply ≤ u64Max

/-- A snapshot that agrees with itself. -/
structure Consistent (snapshot : ManualSnapshot F) (settled : Nat) : Prop where
  supply : (snapshot.wallets.map Wallet.balance).sum = snapshot.systemState.totalSupply
  count : snapshot.wallets.length = snapshot.systemState.nWallets
  iteration : snapshot.iterationId = settled

structure Tracked (C : Crypto) (state : CutState F) : Prop where
  script : ∀ writer ∈ state.writer, writer.written ++ writer.rest = writer.call.writes C state.node
  counted : state.node.system.currentIteration = state.settled
  bounded : state.node.system.totalSupply ≤ u64Max
  figures : ∀ system ∈ state.reading.pending, Figures system state.node
  elsewhere : state.reading.pending.isSome → ∀ writer ∈ state.writer, writer.call.isTransfer = false →
    ∀ write ∈ writer.written, write.ofWallet = false
  taken : ∀ snapshot settled, state.reading = .taken snapshot settled → Consistent snapshot settled

variable {node : CoinState F}

/-- A transfer that has written none or both of its wallets, like any call that has written no
wallet, leaves the supply and the number of wallets as they were. -/
theorem wallets_midway {call : Call F} {written rest : List (Write F)}
    (script : written ++ rest = call.writes C node) (bound : node.storedSupply ≤ u64Max)
    (elsewhere : call.isTransfer = false → ∀ write ∈ written, write.ofWallet = false)
    (whole : call.isTransfer = true → written.length ≠ 1) :
    (node.storage.writeAll written).trees.wallets.total Wallet.balance = node.storedSupply ∧
      (node.storage.writeAll written).trees.wallets.size = node.trees.wallets.size := by
  rw [Storage.trees_writeAll]
  cases kind : call.isTransfer with
  | false =>
    rw [Trees.applyAll_wallets_eq (elsewhere kind)]
    exact ⟨rfl, rfl⟩
  | true =>
    cases call with
    | transfer parameters request now =>
      rcases transfer_writes C node parameters request now with
        nothing | ⟨key, fromWallet, toWallet, plan, last, valid, lastElsewhere, both⟩
      · rw [nothing] at script
        rw [(List.append_eq_nil_iff.mp script).1]
        exact ⟨rfl, rfl⟩
      · rw [both] at script
        match written, script with
        | [], _ => exact ⟨rfl, rfl⟩
        | [_], _ => exact absurd rfl (whole rfl)
        | first :: second :: more, script =>
          simp only [List.cons_append, List.cons.injEq] at script
          obtain ⟨rfl, rfl, split⟩ := script
          have moreElsewhere : ∀ write ∈ more, write.ofWallet = false := fun write member =>
            lastElsewhere write (split ▸ List.mem_append_left rest member)
          rw [Trees.applyAll_cons, Trees.applyAll_cons, Trees.applyAll_wallets_eq moreElsewhere]
          exact ⟨valid.total (valid.fits bound), valid.size⟩
    | _ => cases kind

omit [F64 F] in
theorem Figures.storedSupply_le {system : SystemState F} (figures : Figures system node) : node.storedSupply ≤ u64Max :=
  figures.supply.trans_le figures.bounded

theorem Figures.next {system : SystemState F} {call : Call F} (figures : Figures system node)
    (elsewhere : call.isTransfer = false → ∀ write ∈ call.writes C node, write.ofWallet = false)
    (unsettled : call.commits C node = false) : Figures system (call.next C node) := by
  have whole : call.isTransfer = true → (call.writes C node).length ≠ 1 := by
    intro kind
    cases call with
    | transfer parameters request now =>
      rcases transfer_writes C node parameters request now with nothing | ⟨_, _, _, _, _, _, _, both⟩
      · rw [nothing]
        exact Nat.zero_ne_one
      · rw [both]
        simp
    | _ => cases kind
  obtain ⟨total, size⟩ := wallets_midway (List.append_nil _) figures.storedSupply_le elsewhere whole
  rw [← call.storage_eq] at total size
  constructor
  case supply => exact Eq.trans total figures.supply
  case count => exact Eq.trans size figures.count
  case iteration =>
    rw [call.currentIteration_next, unsettled]
    exact figures.iteration
  case bounded => exact figures.bounded

/-- The scan finds the figures of the system state that was read. -/
theorem Tracked.consistent {state : CutState F} (tracked : state.Tracked C) {system : SystemState F}
    {parameters : SystemParameters F} (reading : state.reading = .readParameters system parameters)
    {now : Timestamp} (undisturbed : state.Undisturbed C (.scanWallets now)) :
    Consistent {
      iterationId := system.currentIteration, tick := system.currentTick, timestamp := now, parameters,
      systemState := system, wallets := state.storage.trees.wallets.entries } state.settled := by
  have pending : state.reading.pending = some system := by rw [reading]; rfl
  have figures := tracked.figures system pending
  have scanned : state.storage.trees.wallets.total Wallet.balance = state.node.storedSupply ∧
      state.storage.trees.wallets.size = state.node.trees.wallets.size := by
    unfold storage
    cases at_work : state.writer with
    | none => exact ⟨rfl, rfl⟩
    | some writer =>
      exact wallets_midway (tracked.script writer at_work) figures.storedSupply_le
        (tracked.elsewhere (by rw [pending]; rfl) writer at_work) (undisturbed writer at_work)
  exact ⟨scanned.1.trans figures.supply, scanned.2.trans figures.count, figures.iteration.symm.trans tracked.counted⟩

section Steps

variable {settled : Nat} {reading : Reading F} {call : Call F} {written rest : List (Write F)} {first : Write F}

theorem Tracked.acquire (tracked : Tracked C ⟨node, none, settled, reading⟩) :
    Tracked C ⟨node, some ⟨call, [], call.writes C node⟩, settled, reading⟩ := by
  refine ⟨?_, tracked.counted, tracked.bounded, tracked.figures, ?_, tracked.taken⟩
  · rintro writer ⟨⟩
    rfl
  · rintro _ writer ⟨⟩ _ write member
    cases member

theorem Tracked.write (tracked : Tracked C ⟨node, some ⟨call, written, first :: rest⟩, settled, reading⟩)
    (undisturbed : Undisturbed C ⟨node, some ⟨call, written, first :: rest⟩, settled, reading⟩ .write) :
    Tracked C ⟨node, some ⟨call, written ++ [first], rest⟩, settled, reading⟩ := by
  refine ⟨?_, tracked.counted, tracked.bounded, tracked.figures, ?_, tracked.taken⟩
  · rintro writer ⟨⟩
    rw [← tracked.script _ rfl]
    exact List.append_assoc _ _ _
  · rintro pending writer ⟨⟩ kind w member
    rcases List.mem_append.mp member with earlier | now
    · exact tracked.elsewhere pending _ rfl kind w earlier
    · rw [List.mem_singleton.mp now]
      have transfers := undisturbed pending _ rfl first rfl
      refine Bool.eq_false_iff.mpr fun wallet => ?_
      rw [transfers wallet] at kind
      cases kind

theorem Tracked.release (tracked : Tracked C ⟨node, some ⟨call, written, []⟩, settled, reading⟩)
    (undisturbed : Undisturbed C ⟨node, some ⟨call, written, []⟩, settled, reading⟩ .release) :
    Tracked C ⟨call.next C node, none, settled + if call.commits C node then 1 else 0, reading⟩ := by
  have counted : node.system.currentIteration = settled := tracked.counted
  have script : written = call.writes C node := (List.append_nil written).symm.trans (tracked.script _ rfl)
  refine ⟨?_, ?_, totalSupply_le call.steps tracked.bounded, ?_, ?_, tracked.taken⟩
  · rintro writer ⟨⟩
  · rw [call.currentIteration_next, counted]
  · intro system pending
    have held : reading.pending.isSome := Option.isSome_of_mem pending
    refine (tracked.figures system pending).next ?_ (undisturbed held _ rfl)
    rw [← script]
    exact tracked.elsewhere held _ rfl
  · rintro _ writer ⟨⟩

theorem Tracked.readSystem (tracked : Tracked C ⟨node, none, settled, .waiting⟩) (starts : node.Cached) :
    Tracked C ⟨node, none, settled, .readSystem node.system⟩ := by
  refine ⟨?_, tracked.counted, tracked.bounded, ?_, ?_, ?_⟩
  · rintro writer ⟨⟩
  · rintro system ⟨⟩
    exact ⟨starts.supply.symm, starts.count.symm, rfl, tracked.bounded⟩
  · rintro _ writer ⟨⟩
  · rintro snapshot count ⟨⟩

theorem Tracked.readParameters {writer : Option (Writer F)} {system : SystemState F} {parameters : SystemParameters F}
    (tracked : Tracked C ⟨node, writer, settled, .readSystem system⟩) :
    Tracked C ⟨node, writer, settled, .readParameters system parameters⟩ := by
  refine ⟨tracked.script, tracked.counted, tracked.bounded, tracked.figures, tracked.elsewhere, ?_⟩
  rintro snapshot count ⟨⟩

theorem Tracked.scan {writer : Option (Writer F)} {system : SystemState F} {parameters : SystemParameters F}
    {now : Timestamp} (tracked : Tracked C ⟨node, writer, settled, .readParameters system parameters⟩)
    (undisturbed : Undisturbed C ⟨node, writer, settled, .readParameters system parameters⟩ (.scanWallets now)) :
    Tracked C (CutState.next C ⟨node, writer, settled, .readParameters system parameters⟩ (.scanWallets now)) := by
  have consistent := tracked.consistent rfl undisturbed
  refine ⟨tracked.script, tracked.counted, tracked.bounded, ?_, ?_, ?_⟩
  · rintro system ⟨⟩
  · intro pending
    cases pending
  · rintro snapshot count ⟨⟩
    exact consistent

end Steps

theorem Tracked.next {state : CutState F} (tracked : state.Tracked C) {step : CutStep F}
    (undisturbed : state.Undisturbed C step) (starts : state.StartsExact step) : (state.next C step).Tracked C := by
  obtain ⟨node, writer, settled, reading⟩ := state
  cases step with
  | acquire call =>
    cases writer with
    | none => exact tracked.acquire
    | some writer => exact tracked
  | write =>
    match writer with
    | none => exact tracked
    | some ⟨call, written, []⟩ => exact tracked
    | some ⟨call, written, write :: rest⟩ => exact tracked.write undisturbed
  | release =>
    match writer with
    | none => exact tracked
    | some ⟨call, written, []⟩ => exact tracked.release undisturbed
    | some ⟨call, written, write :: rest⟩ => exact tracked
  | readSystem =>
    match writer, reading with
    | none, .waiting => exact tracked.readSystem starts
    | none, .readSystem _ => exact tracked
    | none, .readParameters _ _ => exact tracked
    | none, .taken _ _ => exact tracked
    | some _, _ => exact tracked
  | readParameters =>
    cases reading with
    | readSystem system => exact tracked.readParameters
    | _ => exact tracked
  | scanWallets now =>
    cases reading with
    | readParameters system parameters => exact tracked.scan undisturbed
    | _ => exact tracked

/-- A call that nothing comes between. -/
theorem uninterrupted {allowed : CutState F → CutStep F → Prop} {call : Call F} {settled : Nat} {reading : Reading F}
    (acquires : allowed ⟨node, none, settled, reading⟩ (.acquire call))
    (writes : ∀ written rest, allowed ⟨node, some ⟨call, written, rest⟩, settled, reading⟩ .write)
    (releases : ∀ written, allowed ⟨node, some ⟨call, written, []⟩, settled, reading⟩ .release) :
    Reach (CutState.next C) allowed ⟨node, none, settled, reading⟩
      ⟨call.next C node, none, settled + if call.commits C node then 1 else 0, reading⟩ := by
  have writing (rest : List (Write F)) (written : List (Write F)) :
      Reach (CutState.next C) allowed ⟨node, some ⟨call, written, rest⟩, settled, reading⟩
        ⟨node, some ⟨call, written ++ rest, []⟩, settled, reading⟩ := by
    induction rest generalizing written with
    | nil =>
      rw [List.append_nil]
      exact .start
    | cons first rest ih =>
      have after := ih (written ++ [first])
      rw [List.append_assoc] at after
      exact Reach.trans (.next .start (writes _ _)) after
  have acquired : Reach (CutState.next C) allowed ⟨node, none, settled, reading⟩
      ⟨node, some ⟨call, [], call.writes C node⟩, settled, reading⟩ := .next .start acquires
  exact .next (acquired.trans (writing (call.writes C node) [])) (releases _)

variable (C) in
/-- A call that runs whole between the two reads. -/
theorem interrupted (call : Call F) (starts : node.Cached) :
    ∃ state, Reach (CutState.next C) (fun state step => state.StartsExact step) (.ofNode node) state ∧
      ∃ snapshot settled, state.reading = .taken snapshot settled ∧ snapshot.systemState = node.system ∧
        snapshot.wallets = (call.next C node).listWallets := by
  have read : Reach (CutState.next C) (fun state step => state.StartsExact step) (.ofNode node)
      ⟨node, none, 0, .readSystem node.system⟩ := .next (i := CutStep.readSystem) .start starts
  have ran : Reach (CutState.next C) (fun state step => state.StartsExact step)
      ⟨node, none, 0, .readSystem node.system⟩
      ⟨call.next C node, none, 0 + if call.commits C node then 1 else 0, .readSystem node.system⟩ :=
    uninterrupted trivial (fun _ _ => trivial) fun _ => trivial
  have parameters := Reach.next (i := CutStep.readParameters) (read.trans ran) trivial
  exact ⟨_, .next (i := CutStep.scanWallets 0) parameters trivial, _, _, rfl, rfl, rfl⟩

variable (C node) in
/-- Calls that settle nothing may run one after another while no snapshot is taken. -/
theorem waited (call : Call F) (idle : call.commits C node = false) :
    Reach (CutState.next C) (fun state step => state.Undisturbed C step ∧ state.StartsExact step)
      ⟨node, none, 0, .waiting⟩ ⟨call.next C node, none, 0, .waiting⟩ := by
  have ran : Reach (CutState.next C) (fun state step => state.Undisturbed C step ∧ state.StartsExact step)
      ⟨node, none, 0, .waiting⟩ ⟨call.next C node, none, 0 + if call.commits C node then 1 else 0, .waiting⟩ :=
    uninterrupted ⟨trivial, trivial⟩ (fun _ _ => ⟨nofun, trivial⟩) fun _ => ⟨nofun, trivial⟩
  rw [idle] at ran
  exact ran

variable (C) in
/-- A transfer that runs whole between the two reads. -/
theorem transferred (parameters : SystemParameters F) (request : TransferRequest) (now : Timestamp)
    (starts : node.Cached) :
    ∃ state, Reach (CutState.next C) (fun state step => state.Undisturbed C step ∧ state.StartsExact step)
        ⟨node, none, 0, .waiting⟩ state ∧
      ∃ snapshot, state.reading = .taken snapshot 0 ∧ snapshot.systemState = node.system ∧
        snapshot.wallets = ((Call.transfer parameters request now).next C node).listWallets := by
  have read : Reach (CutState.next C) (fun state step => state.Undisturbed C step ∧ state.StartsExact step)
      ⟨node, none, 0, .waiting⟩ ⟨node, none, 0, .readSystem node.system⟩ :=
    .next (i := CutStep.readSystem) .start ⟨trivial, starts⟩
  have paid : Reach (CutState.next C) (fun state step => state.Undisturbed C step ∧ state.StartsExact step)
      ⟨node, none, 0, .readSystem node.system⟩
      ⟨(Call.transfer parameters request now).next C node, none, 0, .readSystem node.system⟩ := by
    refine uninterrupted ⟨trivial, trivial⟩ (fun written rest => ⟨?_, trivial⟩) fun written => ⟨?_, trivial⟩
    · rintro - writer ⟨⟩ write - -
      rfl
    · rintro - writer ⟨⟩
      rfl
  have parameters := Reach.next (i := CutStep.readParameters) (read.trans paid) ⟨trivial, trivial⟩
  have idle : ∀ writer ∈ (none : Option (Writer F)), writer.call.isTransfer = true → writer.written.length ≠ 1 := by
    rintro writer ⟨⟩
  exact ⟨_, .next (i := CutStep.scanWallets 0) parameters ⟨idle, trivial⟩, _, rfl, rfl, rfl⟩

end CutState

open CutState

/-- In every interleaving of one snapshot with the writers in which nothing but whole transfers
comes between the read of the system state and the scan of the wallets, the snapshot agrees with
itself. -/
theorem snapshot_consistent [F64 F] {C : Crypto} {env : String → Option String} {config : NodeConfig F}
    {start : CoinState F} {state : CutState F} (opened : (openCoinState C env config .empty).1 = .ok start)
    (reach : Reach (CutState.next C) (fun state step => state.Undisturbed C step ∧ state.StartsExact step)
      (.ofNode start) state) {snapshot : ManualSnapshot F} {settled : Nat}
    (taken : state.reading = .taken snapshot settled) : Consistent snapshot settled := by
  have system := (openCoinState_empty opened).default_eq
  have tracked : state.Tracked C := by
    refine reach.invariant (CutState.Tracked C) ⟨?_, ?_, ?_, ?_, ?_, ?_⟩ fun _ _ tracked admitted =>
      tracked.next admitted.1 admitted.2
    · rintro writer ⟨⟩
    · exact congrArg SystemState.currentIteration system
    · have supply : start.system.totalSupply = 0 := congrArg SystemState.totalSupply system
      exact supply.trans_le (Nat.zero_le _)
    · rintro read ⟨⟩
    · intro pending
      cases pending
    · rintro snapshot settled ⟨⟩
  exact tracked.taken snapshot settled taken

namespace Concrete

theorem node_cached : node.Cached := by
  have opened := node_opened
  constructor
  · rw [opened.storedSupply, opened.default_eq]
    rfl
  · rw [opened.default_eq, opened.wallets_eq]
    rfl

theorem firstNode_cached (key : FixedBytes 32) : (firstNode key).Cached := by
  have bound : node.storedSupply ≤ u64Max := node_opened.storedSupply ▸ Nat.zero_le _
  exact cached_of_reach node_cached bound (.next .start ⟨trivial, firstCall_fits key⟩)

/-- A wallet is created between the two reads: the snapshot holds one wallet and counts none. -/
theorem snapshot_torn :
    ∃ state, Reach (CutState.next crypto) (fun state step => state.StartsExact step) (.ofNode node) state ∧
      ∃ snapshot settled, state.reading = .taken snapshot settled ∧ ¬ Consistent snapshot settled := by
  obtain ⟨key⟩ : Nonempty (FixedBytes 32) := ⟨key 7⟩
  obtain ⟨state, run, snapshot, settled, taken, system, wallets⟩ := interrupted crypto (firstCall key) node_cached
  refine ⟨state, run, snapshot, settled, taken, fun consistent => ?_⟩
  have one : ((firstCall key).next crypto node).listWallets = [firstWallet crypto parameters operator key] :=
    firstNode_listWallets key
  have count := consistent.count
  rw [wallets, one, system, node_opened.default_eq] at count
  cases count

theorem pairNode_cached : pairNode.Cached := by
  obtain ⟨wallet, named, balance, wallets⟩ := pairNode_wallets
  have absent : (firstNode (key 7)).trees.wallets.get wallet.id = none := named ▸ firstNode_absent
  have stored : pairNode.storedSupply = 20000000 := by
    have first : (firstNode (key 7)).trees.wallets.total Wallet.balance = 10000000 := firstNode_storedSupply (key 7)
    rw [CoinState.storedSupply, wallets, KeyedTree.total_put_fresh _ absent, first, balance]
  have fits : (firstCall (key 8)).Fits crypto (firstNode (key 7)) := stored.trans_le (by decide)
  have bound : (firstNode (key 7)).storedSupply ≤ u64Max := (firstNode_storedSupply (key 7)).trans_le (by decide)
  exact cached_of_reach (firstNode_cached (key 7)) bound (.next .start ⟨trivial, fits⟩)

/-- Two wallets, and a transfer between them that falls between the two reads of the snapshot. -/
theorem snapshot_consistent_transfer :
    transferCall.accepted crypto pairNode = true ∧
      ∃ snapshot : ManualSnapshot ℚ, snapshot.systemState = pairNode.system ∧
        snapshot.wallets = paidNode.listWallets ∧ Consistent snapshot 0 := by
  have first := waited crypto node (firstCall (key 7)) rfl
  have second := waited crypto (firstNode (key 7)) (firstCall (key 8)) rfl
  obtain ⟨state, run, snapshot, taken, system, wallets⟩ := transferred crypto parameters ownTransfer 0 pairNode_cached
  exact ⟨transferCall_accepted, snapshot, system, wallets,
    snapshot_consistent opened_node ((first.trans second).trans run) taken⟩

end Concrete

end AggoraCoin
