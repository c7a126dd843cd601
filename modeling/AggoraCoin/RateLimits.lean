import AggoraCoin.Lib.SlidingWindow
import AggoraCoin.Operations

namespace AggoraCoin

inductive IpAddr
  | v4 (bits : BitVec 32)
  | v6 (bits : BitVec 128)
  deriving DecidableEq, Repr

/-- The queue of each key, the oldest reading in front. -/
abbrev RateTable (κ : Type) := κ → List Timestamp

variable {κ : Type} [DecidableEq κ]

/-- What both limiters do: prune the front, compare the length with the limit, push. A limit of
zero switches the limiter off. -/
def slideWindow (limit : Nat) (windowMs : Int) (key : κ) (now : Timestamp) (table : RateTable κ) :
    Except StateError Unit × RateTable κ :=
  if limit = 0 then (.ok (), table)
  else
    let queue := (table key).dropWhile fun ts => Int.bmod (now - ts) (2 ^ 64) > windowMs
    if queue.length ≥ limit then (.error .rateLimitExceeded, Function.update table key queue)
    else (.ok (), Function.update table key (queue ++ [now]))

def checkWalletRateLimit (security : SecurityParameters) (ip : Option IpAddr) (now : Timestamp)
    (table : RateTable IpAddr) : Except StateError Unit × RateTable IpAddr :=
  match ip with
  | none => (.ok (), table)
  | some ip => slideWindow security.rateLimitWalletPerIpPerDay (24 * 60 * 60 * 1000) ip now table

def checkTransferRateLimit (security : SecurityParameters) (walletId : WalletId) (now : Timestamp)
    (table : RateTable WalletId) : Except StateError Unit × RateTable WalletId :=
  slideWindow security.rateLimitTxPerWalletPerMinute (60 * 1000) walletId now table

/-- One call of a limiter, and whether it was accepted. -/
structure RateCall (κ : Type) where
  key : κ
  now : Timestamp
  accepted : Bool

def accepts (verdict : Except StateError Unit) : Bool := verdict.toOption.isSome

/-- The calls made of a limiter since it was empty, with the table they leave. -/
inductive Limited (check : κ → Timestamp → RateTable κ → Except StateError Unit × RateTable κ) :
    List (RateCall κ) → RateTable κ → Prop
  | start : Limited check [] fun _ => []
  | call {calls : List (RateCall κ)} {table : RateTable κ} (before : Limited check calls table) (key : κ)
      (now : Timestamp) :
      Limited check (calls ++ [⟨key, now, accepts (check key now table).1⟩]) (check key now table).2

/-- Readings of the clock, milliseconds since the epoch in an `i64`, that never go backwards. -/
structure Clocked (calls : List (RateCall κ)) : Prop where
  ordered : (calls.map RateCall.now).Pairwise (· ≤ ·)
  reading : ∀ call ∈ calls, 0 ≤ call.now ∧ call.now < 2 ^ 63

/-- The readings at which calls for a key were accepted. -/
def acceptedOf (key : κ) (calls : List (RateCall κ)) : List Timestamp :=
  (calls.filter fun call => call.key = key ∧ call.accepted = true).map RateCall.now

/-- The accepted readings for a key from `low` to `high`. -/
def acceptedWithin (key : κ) (low high : Timestamp) (calls : List (RateCall κ)) : Nat :=
  ((acceptedOf key calls).filter fun ts => low ≤ ts ∧ ts ≤ high).length

/-- A limiter that counts the accepted calls of a sliding window. -/
structure SlidingWindowLimit (limit : Nat) (windowMs : Int) (calls : List (RateCall κ)) (table : RateTable κ) : Prop where
  exact : ∀ before call after, calls = before ++ call :: after →
    (call.accepted = true ↔ acceptedWithin call.key (call.now - windowMs) call.now before < limit)
  bounded : ∀ key low, acceptedWithin key low (low + windowMs) calls ≤ limit
  sorted : ∀ key, (table key).Pairwise (· ≤ ·)
  length_le : ∀ key, (table key).length ≤ limit

theorem acceptedOf_snoc (key : κ) (calls : List (RateCall κ)) (call : RateCall κ) :
    acceptedOf key (calls ++ [call]) =
      if call.key = key ∧ call.accepted = true then acceptedOf key calls ++ [call.now] else acceptedOf key calls := by
  unfold acceptedOf
  rw [List.filter_append]
  by_cases counted : call.key = key ∧ call.accepted = true
  · rw [if_pos counted, List.filter_cons_of_pos (by simpa using counted), List.filter_nil, List.map_append]
    rfl
  · rw [if_neg counted, List.filter_cons_of_neg (by simpa using counted), List.filter_nil, List.append_nil]

theorem mem_acceptedOf {key : κ} {calls : List (RateCall κ)} {ts : Timestamp} (member : ts ∈ acceptedOf key calls) :
    ts ∈ calls.map RateCall.now := by
  obtain ⟨call, kept, rfl⟩ := List.mem_map.mp member
  exact List.mem_map_of_mem (List.mem_filter.mp kept).1

/-- The subtraction of two readings does not wrap. -/
theorem bmod_readings {now ts : Int} (reading : 0 ≤ now ∧ now < 2 ^ 63) (past : 0 ≤ ts ∧ ts < 2 ^ 63) :
    Int.bmod (now - ts) (2 ^ 64) = now - ts := by
  apply Int.bmod_eq_of_le
  all_goals omega

variable {limit : Nat} {windowMs : Int} {calls : List (RateCall κ)} {table : RateTable κ}

/-- The invariant of a limiter in use: at each reading from the last one on, the queue of a key is
what its window still sees of the accepted readings. -/
structure Tracking (limit : Nat) (windowMs : Int) (calls : List (RateCall κ)) (table : RateTable κ) : Prop where
  tracks : ∀ key now, (∀ ts ∈ calls.map RateCall.now, ts ≤ now) →
    SlidingWindow.Tracks (now - windowMs) (table key) (acceptedOf key calls)
  length_le : ∀ key, (table key).length ≤ limit
  spaced : ∀ key, SlidingWindow.Spaced limit windowMs (acceptedOf key calls)

/-- The queue that a call prunes before it looks at the length. -/
theorem Tracking.prune (tracking : Tracking limit windowMs calls table) (key : κ) {now : Timestamp}
    (last : ∀ ts ∈ calls.map RateCall.now, ts ≤ now) (readings : ∀ ts ∈ calls.map RateCall.now, 0 ≤ ts ∧ ts < 2 ^ 63)
    (reading : 0 ≤ now ∧ now < 2 ^ 63) :
    (table key).dropWhile (fun ts => decide (Int.bmod (now - ts) (2 ^ 64) > windowMs)) =
      (acceptedOf key calls).filter fun ts => decide (now - windowMs ≤ ts) := by
  have tracks := tracking.tracks key now last
  rw [← tracks.prune]
  have inside : ∀ ts ∈ table key, ts ∈ calls.map RateCall.now := by
    obtain ⟨cut, _, same⟩ := tracks.kept
    intro ts member
    rw [same] at member
    exact mem_acceptedOf (List.mem_filter.mp member).1
  have expired : ∀ ts ∈ table key, decide (Int.bmod (now - ts) (2 ^ 64) > windowMs) = decide (ts < now - windowMs) := by
    intro ts member
    rw [bmod_readings reading (readings ts (inside ts member)), decide_eq_decide]
    exact lt_sub_comm
  generalize table key = queue at expired
  induction queue with
  | nil => rfl
  | cons first rest ih =>
    have here := expired first (List.mem_cons_self ..)
    rw [List.dropWhile_cons, List.dropWhile_cons, here, ih fun ts member => expired ts (List.mem_cons_of_mem _ member)]

theorem acceptedWithin_eq {key : κ} {now : Timestamp} (last : ∀ ts ∈ calls.map RateCall.now, ts ≤ now) :
    acceptedWithin key (now - windowMs) now calls =
      ((acceptedOf key calls).filter fun ts => decide (now - windowMs ≤ ts)).length := by
  unfold acceptedWithin
  congr 1
  refine List.filter_congr fun ts member => ?_
  have before : ts ≤ now := last ts (mem_acceptedOf member)
  simp [before]

/-- What a call of `key` must leave of that key's queue; the others it leaves alone. -/
theorem Tracking.snoc (tracking : Tracking limit windowMs calls table) {call : RateCall κ} {queue : List Timestamp}
    (tracks : SlidingWindow.Tracks (call.now - windowMs) queue (acceptedOf call.key (calls ++ [call])))
    (length_le : queue.length ≤ limit)
    (spaced : SlidingWindow.Spaced limit windowMs (acceptedOf call.key (calls ++ [call]))) :
    Tracking limit windowMs (calls ++ [call]) (Function.update table call.key queue) := by
  have others {key : κ} (other : key ≠ call.key) : acceptedOf key (calls ++ [call]) = acceptedOf key calls := by
    rw [acceptedOf_snoc, if_neg fun counted => other counted.1.symm]
  constructor
  · intro key final ends
    rw [List.map_append] at ends
    by_cases same : key = call.key
    · have here : call.now ≤ final := ends call.now (by simp)
      rw [same, Function.update_self]
      exact tracks.mono (Int.sub_le_sub_right here _)
    · rw [Function.update_of_ne same, others same]
      exact tracking.tracks key final fun ts member => ends ts (List.mem_append_left _ member)
  · intro key
    by_cases same : key = call.key
    · rw [same, Function.update_self]
      exact length_le
    · rw [Function.update_of_ne same]
      exact tracking.length_le key
  · intro key
    by_cases same : key = call.key
    · rw [same]
      exact spaced
    · rw [others same]
      exact tracking.spaced key

/-- One call keeps the invariant, and is accepted exactly when its window has room. -/
theorem Tracking.call (tracking : Tracking limit windowMs calls table) (on : limit ≠ 0) (width : 0 ≤ windowMs)
    (key : κ) {now : Timestamp} (last : ∀ ts ∈ calls.map RateCall.now, ts ≤ now)
    (readings : ∀ ts ∈ calls.map RateCall.now, 0 ≤ ts ∧ ts < 2 ^ 63) (reading : 0 ≤ now ∧ now < 2 ^ 63) :
    Tracking limit windowMs (calls ++ [⟨key, now, accepts (slideWindow limit windowMs key now table).1⟩])
        (slideWindow limit windowMs key now table).2 ∧
      (accepts (slideWindow limit windowMs key now table).1 = true ↔
        acceptedWithin key (now - windowMs) now calls < limit) := by
  have pruned := tracking.prune key last readings reading
  have tracks := tracking.tracks key now last
  have spaced := tracking.spaced key
  have still := tracks.pruned
  rw [tracks.prune, ← pruned] at still
  have shorter : ((table key).dropWhile fun ts => decide (Int.bmod (now - ts) (2 ^ 64) > windowMs)).length ≤ limit :=
    (List.dropWhile_sublist _).length_le.trans (tracking.length_le key)
  rw [acceptedWithin_eq last, ← pruned]
  unfold slideWindow
  rw [if_neg on]
  dsimp only
  generalize (table key).dropWhile (fun ts => decide (Int.bmod (now - ts) (2 ^ 64) > windowMs)) = queue at *
  by_cases full : queue.length ≥ limit
  · rw [if_pos full]
    have log : acceptedOf key (calls ++ [⟨key, now, false⟩]) = acceptedOf key calls := by
      rw [acceptedOf_snoc, if_neg (by simp)]
    have kept : Tracking limit windowMs (calls ++ [⟨key, now, false⟩]) (Function.update table key queue) := by
      refine Tracking.snoc tracking ?_ shorter ?_
      · rwa [log]
      · rwa [log]
    exact ⟨kept, by simpa [accepts, Except.toOption] using full⟩
  · rw [if_neg full]
    have room : queue.length < limit := not_le.mp full
    have log : acceptedOf key (calls ++ [⟨key, now, true⟩]) = acceptedOf key calls ++ [now] := by
      rw [acceptedOf_snoc, if_pos ⟨rfl, rfl⟩]
    have kept : Tracking limit windowMs (calls ++ [⟨key, now, true⟩]) (Function.update table key (queue ++ [now])) := by
      refine Tracking.snoc tracking ?_ ?_ ?_
      · rw [log]
        exact still.push (fun ts member => last ts (mem_acceptedOf member)) (Int.sub_le_self _ width)
      · rw [List.length_append]
        exact room
      · rw [log]
        exact spaced.snoc (pruned ▸ room)
    exact ⟨kept, by simpa [accepts, Except.toOption] using room⟩

omit [DecidableEq κ] in
theorem Clocked.snoc {call : RateCall κ} (clocked : Clocked (calls ++ [call])) :
    Clocked calls ∧ (∀ ts ∈ calls.map RateCall.now, ts ≤ call.now) ∧
      (∀ ts ∈ calls.map RateCall.now, 0 ≤ ts ∧ ts < 2 ^ 63) ∧ 0 ≤ call.now ∧ call.now < 2 ^ 63 := by
  have ordered := clocked.ordered
  rw [List.map_append, List.pairwise_append] at ordered
  have earlier : ∀ one ∈ calls, 0 ≤ one.now ∧ one.now < 2 ^ 63 := fun one member =>
    clocked.reading one (List.mem_append_left _ member)
  refine ⟨⟨ordered.1, earlier⟩, fun ts member => ordered.2.2 ts member call.now (by simp), fun ts member => ?_,
    clocked.reading call (by simp)⟩
  obtain ⟨one, listed, rfl⟩ := List.mem_map.mp member
  exact earlier one listed

theorem slidingWindowLimit_of_limited (on : limit ≠ 0) (width : 0 ≤ windowMs)
    (limited : Limited (slideWindow (κ := κ) limit windowMs) calls table) (clocked : Clocked calls) :
    SlidingWindowLimit limit windowMs calls table := by
  suffices both : Tracking limit windowMs calls table ∧ ∀ before call after, calls = before ++ call :: after →
      (call.accepted = true ↔ acceptedWithin call.key (call.now - windowMs) call.now before < limit) by
    obtain ⟨tracking, exact⟩ := both
    obtain ⟨final, last⟩ : ∃ final, ∀ ts ∈ calls.map RateCall.now, ts ≤ final := ⟨2 ^ 63, fun ts member => by
      obtain ⟨call, listed, rfl⟩ := List.mem_map.mp member
      exact (clocked.reading call listed).2.le⟩
    have tracks key := tracking.tracks key final last
    refine ⟨exact, fun key low => ?_, fun key => (tracks key).queue_sorted, tracking.length_le⟩
    exact (tracking.spaced key).length_le (tracks key).sorted low
  induction limited with
  | start =>
    refine ⟨⟨fun key now _ => .nil _, fun key => Nat.zero_le _, fun key => .nil⟩, ?_⟩
    intro before call after split
    simp at split
  | @call calls table _ key now ih =>
    obtain ⟨earlier, last, readings, reading⟩ := clocked.snoc
    obtain ⟨tracking, exact⟩ := ih earlier
    obtain ⟨kept, here⟩ := tracking.call on width key last readings reading
    refine ⟨kept, fun before call after split => ?_⟩
    rcases List.append_eq_append_iff.mp split with ⟨middle, rfl, rest⟩ | ⟨middle, rfl, rest⟩
    · cases middle with
      | nil =>
        have same : (⟨key, now, accepts (slideWindow limit windowMs key now table).1⟩ : RateCall κ) = call := by
          simpa using congrArg List.head? rest
        rw [List.append_nil, ← same]
        exact here
      | cons => simp at rest
    · cases middle with
      | nil =>
        have same : call = ⟨key, now, accepts (slideWindow limit windowMs key now table).1⟩ := by
          simpa using congrArg List.head? rest
        rw [List.append_nil] at here
        rw [same]
        exact here
      | cons first middle =>
        have same : call = first := by simpa using congrArg List.head? rest
        exact exact before call middle (by rw [same])

/-- Both limiters are exact sliding windows, whatever was asked of them before. -/
theorem rate_limiters_exact (security : SecurityParameters) :
    (security.rateLimitTxPerWalletPerMinute ≠ 0 → ∀ (calls : List (RateCall WalletId)) (table : RateTable WalletId),
      Limited (checkTransferRateLimit security) calls table → Clocked calls →
        SlidingWindowLimit security.rateLimitTxPerWalletPerMinute 60000 calls table) ∧
    (security.rateLimitWalletPerIpPerDay ≠ 0 → ∀ (calls : List (RateCall IpAddr)) (table : RateTable IpAddr),
      Limited (fun ip => checkWalletRateLimit security (some ip)) calls table → Clocked calls →
        SlidingWindowLimit security.rateLimitWalletPerIpPerDay 86400000 calls table) := by
  constructor
  · intro on calls table limited clocked
    exact slidingWindowLimit_of_limited on (by decide) limited clocked
  · intro on calls table limited clocked
    exact slidingWindowLimit_of_limited on (by decide) limited clocked

/-- One transfer a minute: the reading that closes the window is still refused. -/
theorem rate_limiters_exact_minute :
    let security : SecurityParameters := { SecurityParameters.default with rateLimitTxPerWalletPerMinute := 1 }
    ∃ table, Limited (checkTransferRateLimit security)
        [⟨"w", 0, true⟩, ⟨"w", 60000, false⟩, ⟨"v", 60000, true⟩, ⟨"w", 60001, true⟩] table ∧
      SlidingWindowLimit 1 60000
        [⟨"w", 0, true⟩, ⟨"w", 60000, false⟩, ⟨"v", 60000, true⟩, ⟨"w", 60001, true⟩] table := by
  intro security
  have fresh : Limited (checkTransferRateLimit security) [] fun _ => [] := .start
  have limited := (((fresh.call "w" 0).call "w" 60000).call "v" 60000).call "w" 60001
  have clocked : Clocked ([⟨"w", 0, true⟩, ⟨"w", 60000, false⟩, ⟨"v", 60000, true⟩, ⟨"w", 60001, true⟩] :
      List (RateCall WalletId)) := ⟨by decide, by decide⟩
  exact ⟨_, limited, (rate_limiters_exact security).1 (by decide) _ _ limited clocked⟩

end AggoraCoin
