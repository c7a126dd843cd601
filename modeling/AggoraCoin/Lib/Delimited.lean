import Mathlib

namespace Delimited

variable {α : Type*}

/-- The first delimiter ends the first part. -/
theorem split {d : α} {a b s t : List α} (plainLeft : d ∉ a) (plainRight : d ∉ b)
    (same : a ++ d :: s = b ++ d :: t) : a = b ∧ s = t := by
  induction a generalizing b with
  | nil =>
    cases b with
    | nil => exact ⟨rfl, (List.cons.inj same).2⟩
    | cons x rest =>
      have head := (List.cons.inj same).1
      exact absurd (head ▸ List.mem_cons_self ..) plainRight
  | cons x rest ih =>
    cases b with
    | nil =>
      have head := (List.cons.inj same).1
      exact absurd (head ▸ List.mem_cons_self ..) plainLeft
    | cons y others =>
      obtain ⟨head, tail⟩ := List.cons.inj same
      obtain ⟨parts, rests⟩ := ih (fun member => plainLeft (List.mem_cons_of_mem _ member))
        (fun member => plainRight (List.mem_cons_of_mem _ member)) tail
      exact ⟨by rw [head, parts], rests⟩

/-- A decimal numeral, filled up with zeros on the left. -/
def padded (width n : Nat) : List Char := List.replicate (width - (Nat.toDigits 10 n).length) '0' ++ Nat.toDigits 10 n

theorem padded_injective (width : Nat) : Function.Injective (padded width) := by
  intro m n same
  have value (k : Nat) : Nat.ofDigitChars 10 (padded width k) 0 = k := by
    rw [padded, Nat.ofDigitChars_append, Nat.ofDigitChars_replicate_zero, Nat.mul_zero, Nat.ofDigitChars_ten_toDigits]
  rw [← value m, ← value n, same]

theorem isDigit_of_mem_padded {width n : Nat} {c : Char} (member : c ∈ padded width n) : c.isDigit = true := by
  rcases List.mem_append.mp member with zeros | digits
  · rw [(List.mem_replicate.mp zeros).2]
    rfl
  · exact Nat.isDigit_of_mem_toDigits (by decide) (by decide) digits

theorem colon_notMem_padded (width n : Nat) : ':' ∉ padded width n := by
  intro member
  exact absurd (isDigit_of_mem_padded member) (by decide)

end Delimited
