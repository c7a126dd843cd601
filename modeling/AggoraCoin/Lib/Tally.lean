import Mathlib

namespace Tally

variable {α β : Type}

def total (measure : α → Nat) (items : List α) : Nat := (items.map measure).sum

/-- What a rewrite of one record leaves alone, it leaves alone in the list. -/
theorem map_modify {g : α → β} {f : α → α} (frame : ∀ a, g (f a) = g a) (items : List α) (i : Nat) :
    (items.modify i f).map g = items.map g := by
  induction items generalizing i with
  | nil => rw [List.modify_nil]
  | cons a rest ih =>
    cases i with
    | zero => simp [frame]
    | succ i => simp [ih]

theorem map_mapIdx {g : α → β} {f : Nat → α → α} (frame : ∀ i a, g (f i a) = g a) (items : List α) :
    (items.mapIdx f).map g = items.map g := by
  induction items generalizing f with
  | nil => rfl
  | cons a rest ih => simp only [List.mapIdx_cons, List.map_cons, frame, ih fun i a => frame (i + 1) a]

variable {measure : α → Nat}

@[simp] theorem total_nil : total measure [] = 0 := rfl

@[simp] theorem total_cons (a : α) (rest : List α) : total measure (a :: rest) = measure a + total measure rest :=
  List.sum_cons

@[simp] theorem total_append (first second : List α) :
    total measure (first ++ second) = total measure first + total measure second := by
  simp [total]

theorem le_total {items : List α} {i : Nat} {a : α} (found : items[i]? = some a) : measure a ≤ total measure items :=
  List.single_le_sum (fun _ _ => Nat.zero_le _) _ (List.mem_map_of_mem (List.mem_of_getElem? found))

/-- Of two measures, one never above the other, the totals agree only when they agree everywhere. -/
theorem total_eq_total_iff {smaller larger : α → Nat} {items : List α} (below : ∀ a, smaller a ≤ larger a) :
    total smaller items = total larger items ↔ ∀ a ∈ items, smaller a = larger a := by
  induction items with
  | nil => simp
  | cons a rest ih =>
    have here := below a
    have later : total smaller rest ≤ total larger rest := List.sum_le_sum fun b _ => below b
    rw [total_cons, total_cons, List.forall_mem_cons, ← ih]
    omega

/-- Rewriting one record trades its old measure for the new one. -/
theorem total_modify (measure : α → Nat) (f : α → α) {items : List α} {i : Nat} {a : α} (found : items[i]? = some a) :
    total measure (items.modify i f) + measure a = total measure items + measure (f a) := by
  induction items generalizing i with
  | nil => simp at found
  | cons b rest ih =>
    cases i with
    | zero =>
      have same : b = a := by simpa using found
      subst same
      simp only [List.modify_zero_cons, total_cons]
      omega
    | succ i =>
      have later := ih (i := i) (by simpa using found)
      simp only [List.modify_succ_cons, total_cons]
      omega

/-- What one record gives and another gets does not change the total. -/
theorem total_move {give get : α → α} {items : List α} {i j amount : Nat} {a b : α} (apart : i ≠ j)
    (payer : items[i]? = some a) (receiver : items[j]? = some b) (given : measure (give a) + amount = measure a)
    (gotten : measure (get b) = measure b + amount) :
    total measure ((items.modify i give).modify j get) = total measure items := by
  have still : (items.modify i give)[j]? = some b := by rw [List.getElem?_modify_ne _ _ apart, receiver]
  have second := total_modify measure get still
  have first := total_modify measure give payer
  omega

/-- The total before is the total after with what was taken from each record. -/
theorem total_mapIdx_take {f : Nat → α → α} {take : Nat → α → Nat} {items : List α}
    (taken : ∀ i, ∀ a ∈ items, measure (f i a) + take i a = measure a) :
    total measure (items.mapIdx f) + (items.mapIdx take).sum = total measure items := by
  induction items generalizing f take with
  | nil => rfl
  | cons a rest ih =>
    have here := taken 0 a (List.mem_cons_self ..)
    have later := @ih (fun i => f (i + 1)) (fun i => take (i + 1))
      fun i b member => taken (i + 1) b (List.mem_cons_of_mem a member)
    simp only [List.mapIdx_cons, total_cons, List.sum_cons]
    omega

/-- Two records of one place can not hold more than the total. -/
theorem add_le_total {items : List α} {i j : Nat} {a b : α} (apart : i ≠ j) (first : items[i]? = some a)
    (second : items[j]? = some b) : measure a + measure b ≤ total measure items := by
  induction items generalizing i j with
  | nil => simp at first
  | cons c rest ih =>
    cases i with
    | zero =>
      cases j with
      | zero => exact absurd rfl apart
      | succ j =>
        have same : c = a := by simpa using first
        have rest_le : measure b ≤ total measure rest := le_total (by simpa using second)
        simp only [same, total_cons]
        omega
    | succ i =>
      cases j with
      | zero =>
        have same : c = b := by simpa using second
        have rest_le : measure a ≤ total measure rest := le_total (by simpa using first)
        simp only [same, total_cons]
        omega
      | succ j =>
        have rest_le := ih (i := i) (j := j) (by omega) (by simpa using first) (by simpa using second)
        simp only [total_cons]
        omega

end Tally
