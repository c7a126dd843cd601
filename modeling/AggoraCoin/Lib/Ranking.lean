import Mathlib

namespace Ranking

variable {α : Type*} [LinearOrder α]

def descending (items : List α) : List α := (items.mergeSort fun a b => decide (a ≤ b)).reverse

/-- Each of the first `limit` entries is above everything behind it. -/
def Leads : Nat → List α → Prop
  | 0, _ => True
  | _, [] => True
  | limit + 1, first :: rest => (∀ later ∈ rest, later < first) ∧ Leads limit rest

theorem descending_perm (items : List α) : (descending items).Perm items :=
  (List.reverse_perm _).trans (List.mergeSort_perm items _)

theorem descending_sorted (items : List α) : (descending items).Pairwise (· ≥ ·) := by
  have ascending : (items.mergeSort fun a b => decide (a ≤ b)).Pairwise fun a b => decide (a ≤ b) = true := by
    refine List.pairwise_mergeSort ?_ ?_ items
    · intro a b c first second
      exact decide_eq_true ((of_decide_eq_true first).trans (of_decide_eq_true second))
    · intro a b
      rw [Bool.or_eq_true, decide_eq_true_eq, decide_eq_true_eq]
      exact le_total a b
  exact List.pairwise_reverse.mpr (ascending.imp of_decide_eq_true)

/-- Lists with the same entries rank alike. -/
theorem descending_congr {items others : List α} (same : items.Perm others) : descending items = descending others := by
  have mixed : (descending items).Perm (descending others) :=
    (descending_perm items).trans (same.trans (descending_perm others).symm)
  exact mixed.eq_of_pairwise (fun _ _ _ _ down up => le_antisymm up down) (descending_sorted items)
    (descending_sorted others)

/-- An entry above all others comes first. -/
theorem descending_cons {first : α} {rest : List α} (above : ∀ later ∈ rest, later < first) :
    descending (first :: rest) = first :: descending rest := by
  have mixed : (descending (first :: rest)).Perm (first :: descending rest) :=
    (descending_perm _).trans ((descending_perm rest).symm.cons first)
  refine mixed.eq_of_pairwise (fun _ _ _ _ down up => le_antisymm up down) (descending_sorted _) ?_
  refine List.pairwise_cons.mpr ⟨fun later member => ?_, descending_sorted rest⟩
  exact (above later ((descending_perm rest).mem_iff.mp member)).le

theorem take_descending_eq_iff {limit : Nat} {items : List α} (distinct : items.Nodup) :
    (descending items).take limit = items.take limit ↔ Leads limit items := by
  induction limit generalizing items with
  | zero => simp [Leads]
  | succ limit ih =>
    cases items with
    | nil => simp [Leads, descending]
    | cons first rest =>
      obtain ⟨fresh, others⟩ := List.nodup_cons.mp distinct
      constructor
      · intro front
        obtain ⟨tail, ranked⟩ : ∃ tail, descending (first :: rest) = first :: tail := by
          cases ranked : descending (first :: rest) with
          | nil =>
            rw [ranked] at front
            cases front
          | cons head tail =>
            rw [ranked] at front
            exact ⟨tail, congrArg (· :: tail) (List.cons.inj front).1⟩
        have sorted := descending_sorted (first :: rest)
        rw [ranked, List.pairwise_cons] at sorted
        have above : ∀ later ∈ rest, later < first := by
          intro later member
          have inside : later ∈ descending (first :: rest) :=
            (descending_perm _).mem_iff.mpr (List.mem_cons_of_mem _ member)
          have different : later ≠ first := fun same => fresh (same ▸ member)
          rw [ranked] at inside
          rcases List.mem_cons.mp inside with same | behind
          · exact absurd same different
          · exact lt_of_le_of_ne (sorted.1 later behind) different
        rw [descending_cons above, List.take_succ_cons, List.take_succ_cons] at front
        exact ⟨above, (ih others).mp (List.cons.inj front).2⟩
      · rintro ⟨above, leads⟩
        rw [descending_cons above, List.take_succ_cons, List.take_succ_cons, (ih others).mpr leads]

end Ranking
