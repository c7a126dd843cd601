import Mathlib

namespace SlidingWindow

section Order

variable {τ : Type*} [LinearOrder τ]

/-- Pruning the front of a sorted queue is filtering it. -/
theorem dropWhile_eq_filter {queue : List τ} (sorted : queue.Pairwise (· ≤ ·)) (low : τ) :
    queue.dropWhile (fun instant => decide (instant < low)) = queue.filter fun instant => decide (low ≤ instant) := by
  induction queue with
  | nil => rfl
  | cons first rest ih =>
    obtain ⟨below, ordered⟩ := List.pairwise_cons.mp sorted
    by_cases early : first < low
    · rw [List.dropWhile_cons_of_pos (by simpa using early), ih ordered,
        List.filter_cons_of_neg (by simpa using early)]
    · have from_low : low ≤ first := not_lt.mp early
      have all : ∀ instant ∈ first :: rest, decide (low ≤ instant) = true := by
        intro instant member
        rcases List.mem_cons.mp member with rfl | later
        · simpa using from_low
        · simpa using from_low.trans (below instant later)
      rw [List.dropWhile_cons_of_neg (by simpa using early), List.filter_eq_self.mpr all]

/-- The queue holds the log from some instant on that is not past `low`. -/
structure Tracks (low : τ) (queue log : List τ) : Prop where
  sorted : log.Pairwise (· ≤ ·)
  kept : ∃ cut ≤ low, queue = log.filter fun instant => decide (cut ≤ instant)

variable {low later : τ} {queue log : List τ}

theorem Tracks.nil (low : τ) : Tracks low ([] : List τ) [] := ⟨.nil, low, le_rfl, rfl⟩

theorem Tracks.mono (tracks : Tracks low queue log) (le : low ≤ later) : Tracks later queue log := by
  obtain ⟨cut, below, same⟩ := tracks.kept
  exact ⟨tracks.sorted, cut, below.trans le, same⟩

theorem Tracks.queue_sorted (tracks : Tracks low queue log) : queue.Pairwise (· ≤ ·) := by
  obtain ⟨cut, _, rfl⟩ := tracks.kept
  exact tracks.sorted.filter _

/-- What pruning leaves is what the window sees of the log. -/
theorem Tracks.prune (tracks : Tracks low queue log) :
    queue.dropWhile (fun instant => decide (instant < low)) = log.filter fun instant => decide (low ≤ instant) := by
  rw [dropWhile_eq_filter tracks.queue_sorted]
  obtain ⟨cut, below, rfl⟩ := tracks.kept
  rw [List.filter_filter]
  refine List.filter_congr fun instant _ => ?_
  by_cases seen : low ≤ instant
  · simp [seen, below.trans seen]
  · simp [seen]

theorem Tracks.pruned (tracks : Tracks low queue log) :
    Tracks low (queue.dropWhile fun instant => decide (instant < low)) log :=
  ⟨tracks.sorted, low, le_rfl, tracks.prune⟩

theorem Tracks.push (tracks : Tracks low queue log) {now : τ} (last : ∀ instant ∈ log, instant ≤ now)
    (inside : low ≤ now) : Tracks low (queue ++ [now]) (log ++ [now]) := by
  obtain ⟨cut, below, rfl⟩ := tracks.kept
  refine ⟨List.pairwise_append.mpr ⟨tracks.sorted, List.pairwise_singleton _ _, ?_⟩, cut, below, ?_⟩
  · intro instant member one here
    rw [List.mem_singleton.mp here]
    exact last instant member
  · rw [List.filter_append, List.filter_cons_of_pos (by simpa using below.trans inside), List.filter_nil]

end Order

section Bound

variable {τ : Type*} [AddCommGroup τ] [LinearOrder τ] [IsOrderedAddMonoid τ]

/-- Every instant of the log found fewer than `limit` before it in its window. -/
def Spaced (limit : Nat) (window : τ) (log : List τ) : Prop :=
  ∀ before now after, log = before ++ now :: after →
    (before.filter fun instant => decide (now - window ≤ instant)).length < limit

variable {limit : Nat} {window : τ} {log : List τ}

omit [IsOrderedAddMonoid τ] in
theorem Spaced.nil : Spaced limit window ([] : List τ) := by
  intro before now after split
  simp at split

omit [IsOrderedAddMonoid τ] in
theorem Spaced.snoc (spaced : Spaced limit window log) {now : τ}
    (room : (log.filter fun instant => decide (now - window ≤ instant)).length < limit) :
    Spaced limit window (log ++ [now]) := by
  intro before instant after split
  rcases List.append_eq_append_iff.mp split with ⟨middle, rfl, rest⟩ | ⟨middle, rfl, rest⟩
  · cases middle with
    | nil =>
      have same : now = instant := by simpa using congrArg List.head? rest
      rw [List.append_nil, ← same]
      exact room
    | cons => simp at rest
  · cases middle with
    | nil =>
      have same : instant = now := by simpa using congrArg List.head? rest
      rw [List.append_nil] at room
      rw [same]
      exact room
    | cons first middle =>
      have same : instant = first := by simpa using congrArg List.head? rest
      exact spaced before instant middle (by rw [same])

/-- No closed window of that length ever holds more than `limit` of a spaced log. -/
theorem Spaced.length_le (spaced : Spaced limit window log) (sorted : log.Pairwise (· ≤ ·)) (low : τ) :
    (log.filter fun instant => decide (low ≤ instant ∧ instant ≤ low + window)).length ≤ limit := by
  induction log using List.reverseRecOn with
  | nil => exact Nat.zero_le _
  | append_singleton earlier now ih =>
    obtain ⟨ordered, _, last⟩ := List.pairwise_append.mp sorted
    have before := ih (fun before instant after split => spaced before instant (after ++ [now]) (by simp [split])) ordered
    rw [List.filter_append]
    by_cases inside : low ≤ now ∧ now ≤ low + window
    · -- everything of the window that is already there is in the window of `now`
      have room := spaced earlier now [] rfl
      have fewer : (earlier.filter fun instant => decide (low ≤ instant ∧ instant ≤ low + window)).length ≤
          (earlier.filter fun instant => decide (now - window ≤ instant)).length := by
        refine (List.monotone_filter_right earlier fun instant seen => ?_).length_le
        have from_low : low ≤ instant := (of_decide_eq_true seen).1
        exact decide_eq_true ((sub_le_iff_le_add.mpr inside.2).trans from_low)
      have one : ([now].filter fun instant => decide (low ≤ instant ∧ instant ≤ low + window)).length ≤ 1 :=
        List.length_filter_le _ _
      rw [List.length_append]
      omega
    · rw [List.filter_cons_of_neg (by simpa using inside), List.filter_nil, List.append_nil]
      exact before

end Bound

end SlidingWindow
