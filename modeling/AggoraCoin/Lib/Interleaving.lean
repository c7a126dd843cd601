import AggoraCoin.Lib.Reach

namespace AggoraCoin

/-- A program. A step sees the shared state and an input of its own. -/
inductive Process (τ σ α : Type)
  | done (result : α)
  | step (effect : τ → σ → σ) (next : τ → σ → Process τ σ α)

variable {τ σ α β ι ω : Type}

namespace Process

def bind : Process τ σ α → (α → Process τ σ β) → Process τ σ β
  | done result, f => f result
  | step effect next, f => step effect fun input state => (next input state).bind f

instance : Monad (Process τ σ) where
  pure := done
  bind := bind

/-- One step. -/
def atomic (run : τ → σ → α × σ) : Process τ σ α :=
  step (fun input state => (run input state).2) fun input state => done (run input state).1

end Process

/-- What is known of the steps a program has taken, each as the states before and after it, and of the
shared state. -/
abbrev Assertion (σ : Type) := List (σ × σ) → σ → Prop

/-- The steps of others keep it. -/
def Assertion.Stable (guarantee : σ → σ → Prop) (known : Assertion σ) : Prop :=
  ∀ own before after, guarantee before after → known own before → known own after

/-- From `known` on the program guarantees each of its steps, `always` holds of them, and its result is as `ends`
says. -/
inductive Process.Meets (guarantee : σ → σ → Prop) (always : List (σ × σ) → Prop) (ends : α → Assertion σ) :
    Assertion σ → Process τ σ α → Prop
  | done {known : Assertion σ} {result : α} (along : ∀ own state, known own state → always own)
      (ended : ∀ own state, known own state → ends result own state) : Meets guarantee always ends known (.done result)
  | step {known : Assertion σ} {effect : τ → σ → σ} {next : τ → σ → Process τ σ α} (then_ : τ → σ → Assertion σ)
      (along : ∀ own state, known own state → always own)
      (stable : ∀ input before, (then_ input before).Stable guarantee)
      (guaranteed : ∀ input own before, known own before → guarantee before (effect input before) ∧
        then_ input before (own ++ [(before, effect input before)]) (effect input before))
      (rest : ∀ input own before, known own before →
        Meets guarantee always ends (then_ input before) (next input before)) :
      Meets guarantee always ends known (.step effect next)

namespace Process.Meets

variable {guarantee : σ → σ → Prop} {always : List (σ × σ) → Prop} {ends : α → Assertion σ} {known : Assertion σ}
  {program : Process τ σ α}

theorem along (meets : Meets guarantee always ends known program) {own : List (σ × σ)} {state : σ}
    (holds : known own state) : always own := by
  cases meets with
  | done along _ => exact along own state holds
  | step _ along _ _ _ => exact along own state holds

theorem weaken {stronger : Assertion σ} (meets : Meets guarantee always ends known program)
    (implied : ∀ own state, stronger own state → known own state) : Meets guarantee always ends stronger program := by
  cases meets with
  | done along ended =>
    exact .done (fun own state holds => along own state (implied own state holds))
      fun own state holds => ended own state (implied own state holds)
  | step then_ along stable guaranteed rest =>
    exact .step then_ (fun own state holds => along own state (implied own state holds)) stable
      (fun input own before holds => guaranteed input own before (implied own before holds))
      fun input own before holds => rest input own before (implied own before holds)

/-- From what cannot be, anything goes. -/
theorem vacuous (impossible : ∀ own state, ¬ known own state) : Meets guarantee always ends known program := by
  induction program generalizing known with
  | done result =>
    exact .done (fun own state holds => absurd holds (impossible own state))
      fun own state holds => absurd holds (impossible own state)
  | step effect next ih =>
    refine .step (fun _ _ _ _ => False) ?_ (fun _ _ _ _ _ _ never => never) ?_ fun input own before _ => ih _ _ ?_
    · exact fun own state holds => absurd holds (impossible own state)
    · exact fun input own before holds => absurd holds (impossible own before)
    · exact fun _ _ never => never

/-- A fact that no step can change may be taken out of what is known. -/
theorem given {fact : Prop} (rest : fact → Meets guarantee always ends known program) :
    Meets guarantee always ends (fun own state => fact ∧ known own state) program := by
  by_cases holds : fact
  · exact (rest holds).weaken fun _ _ both => both.2
  · exact vacuous fun _ _ both => holds both.1

/-- Less is promised of the result. -/
theorem relax {ends' : α → Assertion σ} (meets : Meets guarantee always ends known program)
    (implied : ∀ result own state, ends result own state → ends' result own state) :
    Meets guarantee always ends' known program := by
  induction meets with
  | done along ended => exact .done along fun own state holds => implied _ own state (ended own state holds)
  | step then_ along stable guaranteed _ ih => exact .step then_ along stable guaranteed ih

/-- One program after another. -/
theorem bind {ends' : β → Assertion σ} {f : α → Process τ σ β} (first : Meets guarantee always ends known program)
    (second : ∀ result, Meets guarantee always ends' (ends result) (f result)) :
    Meets guarantee always ends' known (program >>= f) := by
  induction first with
  | done _ ended => exact (second _).weaken ended
  | step then_ along stable guaranteed _ ih => exact .step then_ along stable guaranteed ih

theorem pure {result : α} (along : ∀ own state, known own state → always own)
    (ended : ∀ own state, known own state → ends result own state) :
    Meets guarantee always ends known (Pure.pure result : Process τ σ α) := .done along ended

theorem atomic {run : τ → σ → α × σ} (stable : ∀ result, (ends result).Stable guarantee)
    (along : ∀ own state, known own state → always own)
    (settles : ∀ result own state, ends result own state → always own)
    (guaranteed : ∀ input own before, known own before → guarantee before (run input before).2 ∧
      ends (run input before).1 (own ++ [(before, (run input before).2)]) (run input before).2) :
    Meets guarantee always ends known (Process.atomic run) := by
  refine .step (fun input before => ends (run input before).1) along (fun input before => stable _) guaranteed ?_
  intro input own before _
  exact .done (settles _) fun _ _ holds => holds

end Process.Meets

/-- A program at work for `label`, and the steps it has taken. -/
structure Thread (ι τ σ α : Type) where
  label : ι
  process : Process τ σ α
  own : List (σ × σ)

structure Pool (ι τ σ α : Type) where
  state : σ
  threads : List (Thread ι τ σ α)

/-- The next thing to happen: a program is started, or one takes a step. -/
inductive Turn (ι τ : Type)
  | spawn (label : ι)
  | run (i : Nat) (input : τ)

namespace Pool

def idle (state : σ) : Pool ι τ σ α := ⟨state, []⟩

variable (program : ι → Process τ σ α)

/-- A turn of a program that is done changes nothing. -/
def next (pool : Pool ι τ σ α) : Turn ι τ → Pool ι τ σ α
  | .spawn label => { pool with threads := pool.threads ++ [⟨label, program label, []⟩] }
  | .run i input =>
    match pool.threads[i]? with
    | some ⟨label, .step effect next, own⟩ =>
      ⟨effect input pool.state, pool.threads.set i
        ⟨label, next input pool.state, own ++ [(pool.state, effect input pool.state)]⟩⟩
    | _ => pool

/-- Only programs for the labels of `admitted` are started. -/
def Spawns (admitted : ι → Prop) (_ : Pool ι τ σ α) : Turn ι τ → Prop
  | .spawn label => admitted label
  | .run _ _ => True

variable {program} {pool : Pool ι τ σ α}

variable (program pool) in
/-- A turn changes nothing, starts a program, or is a step of one of them. -/
theorem next_cases (turn : Turn ι τ) :
    pool.next program turn = pool ∨
    (∃ label, turn = .spawn label ∧
      pool.next program turn = { pool with threads := pool.threads ++ [⟨label, program label, []⟩] }) ∨
    ∃ i input label effect then_ own, turn = .run i input ∧ pool.threads[i]? = some ⟨label, .step effect then_, own⟩ ∧
      pool.next program turn = ⟨effect input pool.state, pool.threads.set i
        ⟨label, then_ input pool.state, own ++ [(pool.state, effect input pool.state)]⟩⟩ := by
  cases turn with
  | spawn label => exact Or.inr (Or.inl ⟨label, rfl, rfl⟩)
  | run i input =>
    cases found : pool.threads[i]? with
    | none => exact Or.inl (by simp only [next, found])
    | some thread =>
      obtain ⟨label, process, own⟩ := thread
      cases process with
      | done result => exact Or.inl (by simp only [next, found])
      | step effect then_ =>
        exact Or.inr (Or.inr ⟨i, input, label, effect, then_, own, rfl, found, by simp only [next, found]⟩)

variable (program pool) in
theorem length_threads_spawn (label : ι) :
    (pool.next program (.spawn label)).threads.length = pool.threads.length + 1 := List.length_append

variable (program pool) in
theorem length_threads_run (i : Nat) (input : τ) :
    (pool.next program (.run i input)).threads.length = pool.threads.length := by
  rcases next_cases program pool (.run i input) with same | ⟨_, spawned, _⟩ | ⟨_, _, _, _, _, _, _, _, same⟩
  · rw [same]
  · cases spawned
  · rw [same, List.length_set]

/-- Every program is where its contract says. -/
structure Sound (guarantee : σ → σ → Prop) (always : ι → List (σ × σ) → Prop) (ends : ι → α → Assertion σ)
    (ready : σ → Prop) (pool : Pool ι τ σ α) : Prop where
  ready : ready pool.state
  each : ∀ thread ∈ pool.threads, ∃ known : Assertion σ, known.Stable guarantee ∧ known thread.own pool.state ∧
    Process.Meets guarantee (always thread.label) (ends thread.label) known thread.process

variable {guarantee : σ → σ → Prop} {always : ι → List (σ × σ) → Prop} {ends : ι → α → Assertion σ}
  {ready : σ → Prop}

namespace Sound

theorem steps (sound : pool.Sound guarantee always ends ready) {thread : Thread ι τ σ α}
    (member : thread ∈ pool.threads) : always thread.label thread.own := by
  obtain ⟨_, _, holds, meets⟩ := sound.each thread member
  exact meets.along holds

/-- A result is as promised, now and later. -/
theorem ended (sound : pool.Sound guarantee always ends ready) {thread : Thread ι τ σ α}
    (member : thread ∈ pool.threads)
    {result : α} (finished : thread.process = .done result) : ends thread.label result thread.own pool.state := by
  obtain ⟨label, process, own⟩ := thread
  subst finished
  obtain ⟨_, _, holds, meets⟩ := sound.each _ member
  cases meets with
  | done _ ended => exact ended own pool.state holds

end Sound

/-- The terms every program is started on. -/
structure Terms (program : ι → Process τ σ α) (admitted : ι → Prop) (guarantee : σ → σ → Prop)
    (always : ι → List (σ × σ) → Prop) (ends : ι → α → Assertion σ) (ready : σ → Prop) : Prop where
  stays : ∀ before after, guarantee before after → ready before → ready after
  meets : ∀ label, admitted label → Process.Meets guarantee (always label) (ends label)
    (fun own state => own = [] ∧ ready state) (program label)

variable {admitted : ι → Prop}

/-- A turn keeps all contracts, and any change of the state is guaranteed. -/
theorem Sound.next (sound : pool.Sound guarantee always ends ready)
    (terms : Terms program admitted guarantee always ends ready) {turn : Turn ι τ}
    (spawns : pool.Spawns admitted turn) :
    (pool.next program turn).Sound guarantee always ends ready ∧
      ((pool.next program turn).state = pool.state ∨ guarantee pool.state (pool.next program turn).state) := by
  rcases pool.next_cases program turn with
    same | ⟨label, rfl, started⟩ | ⟨i, input, label, effect, then_, own, rfl, found, ran⟩
  · rw [same]
    exact ⟨sound, Or.inl rfl⟩
  · rw [started]
    refine ⟨⟨sound.ready, ?_⟩, Or.inl rfl⟩
    intro thread member
    rcases List.mem_append.mp member with old | new
    · exact sound.each thread old
    · rw [List.mem_singleton.mp new]
      refine ⟨_, ?_, ⟨rfl, sound.ready⟩, terms.meets label spawns⟩
      intro own before after step holds
      exact ⟨holds.1, terms.stays before after step holds.2⟩
  · obtain ⟨known, _, holds, meets⟩ := sound.each _ (List.mem_of_getElem? found)
    cases meets with
    | step settled along stable guaranteed rest =>
      obtain ⟨step, after⟩ := guaranteed input own pool.state holds
      rw [ran]
      refine ⟨⟨terms.stays _ _ step sound.ready, ?_⟩, Or.inr step⟩
      intro thread member
      rcases List.mem_or_eq_of_mem_set member with old | rfl
      · obtain ⟨known', stable', holds', meets'⟩ := sound.each thread old
        exact ⟨known', stable', stable' _ _ _ step holds', meets'⟩
      · exact ⟨_, stable input pool.state, after, rest input own pool.state holds⟩

theorem Sound.idle {state : σ} (initial : ready state) :
    (idle state : Pool ι τ σ α).Sound guarantee always ends ready := by
  refine ⟨initial, fun thread member => ?_⟩
  cases member

/-- However the turns fall, every program keeps its contract. -/
theorem Sound.run {after : Pool ι τ σ α} (sound : pool.Sound guarantee always ends ready)
    (terms : Terms program admitted guarantee always ends ready)
    (run : Reach (Pool.next program) (Spawns admitted) pool after) : after.Sound guarantee always ends ready :=
  run.invariant _ sound fun _ _ sound spawns => (sound.next terms spawns).1

/-- And what all guarantee, and is kept by doing nothing and by doing more, holds from one pool to the next. -/
theorem Sound.onward {after : Pool ι τ σ α} (sound : pool.Sound guarantee always ends ready)
    (terms : Terms program admitted guarantee always ends ready) (nothing : ∀ state, guarantee state state)
    (more : ∀ first second third, guarantee first second → guarantee second third → guarantee first third)
    (run : Reach (Pool.next program) (Spawns admitted) pool after) : guarantee pool.state after.state := by
  have both : after.Sound guarantee always ends ready ∧ guarantee pool.state after.state := by
    refine run.invariant (fun now => now.Sound guarantee always ends ready ∧ guarantee pool.state now.state)
      ⟨sound, nothing pool.state⟩ ?_
    rintro now turn ⟨sound, behind⟩ spawns
    obtain ⟨after, change⟩ := sound.next terms spawns
    refine ⟨after, ?_⟩
    rcases change with same | step
    · rw [same]
      exact behind
    · exact more _ _ _ behind step
  exact both.2

/-- Contracts outlast the steps of others. -/
theorem Sound.interfere (sound : pool.Sound guarantee always ends ready)
    (stays : ∀ before after, guarantee before after → ready before → ready after) {state : σ}
    (step : guarantee pool.state state) : Sound guarantee always ends ready ⟨state, pool.threads⟩ := by
  refine ⟨stays _ _ step sound.ready, fun thread member => ?_⟩
  obtain ⟨known, stable, holds, meets⟩ := sound.each thread member
  exact ⟨known, stable, stable _ _ _ step holds, meets⟩

/-- Programs started from now on may be held to further terms, over a state that is ready for them: the steps
of those at work already are guaranteed all the same. -/
theorem Sound.later {always' : ι → List (σ × σ) → Prop} {ends' : ι → α → Assertion σ} {ready' : σ → Prop}
    {after : Pool ι τ σ α} (sound : pool.Sound guarantee always ends ready)
    (terms : Terms program admitted guarantee always ends ready)
    (terms' : Terms program admitted guarantee always' ends' ready') (initial : ready' pool.state)
    (run : Reach (Pool.next program) (Spawns admitted) pool after) :
    after.Sound guarantee always ends ready ∧
      Sound guarantee always' ends' ready' ⟨after.state, after.threads.drop pool.threads.length⟩ ∧
        pool.threads.length ≤ after.threads.length := by
  refine run.invariant (fun now => now.Sound guarantee always ends ready ∧
    Sound guarantee always' ends' ready' ⟨now.state, now.threads.drop pool.threads.length⟩ ∧
      pool.threads.length ≤ now.threads.length) ⟨sound, ?_, le_refl _⟩ ?_
  · refine ⟨initial, fun thread member => ?_⟩
    rw [List.drop_length] at member
    cases member
  rintro now turn ⟨sound, late, longer⟩ spawns
  obtain ⟨kept, change⟩ := sound.next terms spawns
  refine ⟨kept, ?_⟩
  rcases now.next_cases program turn with
    same | ⟨label, rfl, started⟩ | ⟨i, input, label, effect, then_, own, rfl, found, ran⟩
  · rw [same]
    exact ⟨late, longer⟩
  · have allowed : Spawns admitted (⟨now.state, now.threads.drop pool.threads.length⟩ : Pool ι τ σ α) (.spawn label) :=
      spawns
    have spawned := (late.next terms' allowed).1
    rw [started]
    refine ⟨?_, ?_⟩
    · rw [List.drop_append_of_le_length longer]
      exact spawned
    · rw [List.length_append]
      exact longer.trans (Nat.le_add_right _ _)
  · rw [ran] at change ⊢
    refine ⟨?_, by rwa [List.length_set]⟩
    by_cases early : i < pool.threads.length
    · rw [List.drop_set_of_lt early]
      rcases change with same | step
      · have kept : effect input now.state = now.state := same
        rw [kept]
        exact late
      · exact late.interfere terms'.stays step
    · have allowed : Spawns admitted (⟨now.state, now.threads.drop pool.threads.length⟩ : Pool ι τ σ α)
          (.run (i - pool.threads.length) input) := trivial
      have mine := (late.next terms' allowed).1
      have place : pool.threads.length + (i - pool.threads.length) = i := Nat.add_sub_cancel' (not_lt.mp early)
      have here : (now.threads.drop pool.threads.length)[i - pool.threads.length]? =
          some ⟨label, .step effect then_, own⟩ := by rw [List.getElem?_drop, place, found]
      rw [List.drop_set, if_neg early]
      simpa only [Pool.next, here] using mine

end Pool

/-- What some steps added to a list that only grows. -/
def added (observe : σ → List ω) (own : List (σ × σ)) : List ω :=
  own.flatMap fun step => (observe step.2).drop (observe step.1).length

theorem added_snoc {observe : σ → List ω} {before after : σ} {more : List ω} (own : List (σ × σ))
    (grown : observe after = observe before ++ more) :
    added observe (own ++ [(before, after)]) = added observe own ++ more := by
  simp only [added, List.flatMap_append, List.flatMap_singleton, grown, List.drop_left]

namespace Pool

variable {program : ι → Process τ σ α} {guarantee : σ → σ → Prop} {always : ι → List (σ × σ) → Prop}
  {ends : ι → α → Assertion σ} {ready : σ → Prop} {admitted : ι → Prop} {pool : Pool ι τ σ α} {observe : σ → List ω}

/-- One thread of many is rewritten. -/
theorem flatMap_set {γ : Type} {items : List γ} {i : Nat} {item : γ} (found : items[i]? = some item) (f : γ → List ω)
    {item' : γ} {more : List ω} (grown : f item' = f item ++ more) :
    ((items.set i item').flatMap f).Perm (items.flatMap f ++ more) := by
  induction items generalizing i with
  | nil => cases found
  | cons first rest ih =>
    cases i with
    | zero =>
      cases found
      rw [List.set_cons_zero, List.flatMap_cons, List.flatMap_cons, grown, List.append_assoc, List.append_assoc]
      exact List.Perm.append_left _ List.perm_append_comm
    | succ i =>
      rw [List.set_cons_succ, List.flatMap_cons, List.flatMap_cons, List.append_assoc]
      exact List.Perm.append_left _ (ih found)

/-- Nothing is lost and nothing is counted twice: what has been added since the start is what the
programs added, one by one. -/
theorem added_of_run {start : σ} (terms : Terms program admitted guarantee always ends ready) (initial : ready start)
    (grows : ∀ before after, guarantee before after → observe before <+: observe after)
    (run : Reach (next program) (Spawns admitted) (idle start) pool) :
    ∃ rest, observe pool.state = observe start ++ rest ∧
      rest.Perm (pool.threads.flatMap fun thread => added observe thread.own) := by
  have both : pool.Sound guarantee always ends ready ∧ ∃ rest, observe pool.state = observe start ++ rest ∧
      rest.Perm (pool.threads.flatMap fun thread => added observe thread.own) := by
    refine run.invariant (fun pool => pool.Sound guarantee always ends ready ∧ ∃ rest,
      observe pool.state = observe start ++ rest ∧
        rest.Perm (pool.threads.flatMap fun thread => added observe thread.own))
      ⟨.idle initial, [], (List.append_nil _).symm, .nil⟩ ?_
    rintro pool turn ⟨sound, rest, split, matched⟩ spawns
    obtain ⟨after, change⟩ := sound.next terms spawns
    refine ⟨after, ?_⟩
    rcases pool.next_cases program turn with
      same | ⟨label, rfl, started⟩ | ⟨i, input, label, effect, then_, own, rfl, found, ran⟩
    · rw [same]
      exact ⟨rest, split, matched⟩
    · rw [started]
      refine ⟨rest, split, ?_⟩
      rw [List.flatMap_append]
      simpa [added] using matched
    · rw [ran] at change ⊢
      obtain ⟨more, grown⟩ : observe pool.state <+: observe (effect input pool.state) := by
        rcases change with same | step
        · have kept : effect input pool.state = pool.state := same
          rw [kept]
        · exact grows _ _ step
      refine ⟨rest ++ more, ?_, ?_⟩
      · rw [← grown, split, List.append_assoc]
      · refine (matched.append_right more).trans (flatMap_set found (fun thread => added observe thread.own) ?_).symm
        exact added_snoc own grown.symm
  exact both.2

end Pool

end AggoraCoin
