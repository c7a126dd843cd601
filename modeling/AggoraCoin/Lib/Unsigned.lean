import Mathlib

namespace Unsigned

variable (w : Nat)

def maxValue : Nat := 2 ^ w - 1

def saturatingAdd (a b : Nat) : Nat := min (a + b) (maxValue w)

def saturatingSub (a b : Nat) : Nat := a - b

def saturatingMul (a b : Nat) : Nat := min (a * b) (maxValue w)

def wrappingAdd (a b : Nat) : Nat := (a + b) % 2 ^ w

def wrappingSub (a b : Nat) : Nat := (a + 2 ^ w - b) % 2 ^ w

/-- Repeated `wrappingAdd` over a list. -/
def wrappingSum (values : List Nat) : Nat := values.sum % 2 ^ w

variable {w}

theorem lt_pow_iff_le_maxValue {a : Nat} : a < 2 ^ w ↔ a ≤ maxValue w := by
  have positive := Nat.two_pow_pos w
  unfold maxValue
  omega

@[simp] theorem saturatingAdd_of_le {a b : Nat} (fits : a + b ≤ maxValue w) :
    saturatingAdd w a b = a + b := min_eq_left fits

@[simp] theorem saturatingMul_of_le {a b : Nat} (fits : a * b ≤ maxValue w) :
    saturatingMul w a b = a * b := min_eq_left fits

theorem saturatingAdd_le (a b : Nat) : saturatingAdd w a b ≤ maxValue w := min_le_right _ _

theorem saturatingMul_le (a b : Nat) : saturatingMul w a b ≤ maxValue w := min_le_right _ _

theorem le_saturatingAdd {a : Nat} (bound : a ≤ maxValue w) (b : Nat) : a ≤ saturatingAdd w a b :=
  le_min (Nat.le_add_right a b) bound

theorem wrappingAdd_of_le {a b : Nat} (fits : a + b ≤ maxValue w) : wrappingAdd w a b = a + b :=
  Nat.mod_eq_of_lt (lt_pow_iff_le_maxValue.mpr fits)

theorem wrappingSum_of_le {values : List Nat} (fits : values.sum ≤ maxValue w) :
    wrappingSum w values = values.sum :=
  Nat.mod_eq_of_lt (lt_pow_iff_le_maxValue.mpr fits)

theorem wrappingSum_le (values : List Nat) : wrappingSum w values ≤ maxValue w :=
  lt_pow_iff_le_maxValue.mp (Nat.mod_lt _ (Nat.two_pow_pos w))

/-- A subtraction that does not underflow is exact. -/
theorem wrappingSub_of_le {a b : Nat} (bound : a ≤ maxValue w) (below : b ≤ a) :
    wrappingSub w a b = a - b := by
  have small := lt_pow_iff_le_maxValue.mpr bound
  have shifted : a + 2 ^ w - b = (a - b) + 2 ^ w := by omega
  rw [wrappingSub, shifted, Nat.add_mod_right, Nat.mod_eq_of_lt (by omega)]

/-- Accumulating with saturation gives the exact sum, or the largest value. -/
theorem foldl_saturatingAdd (values : List Nat) {a : Nat} (bound : a ≤ maxValue w) :
    values.foldl (saturatingAdd w) a = min (a + values.sum) (maxValue w) := by
  induction values generalizing a with
  | nil => simpa using bound
  | cons v rest ih =>
    rw [List.foldl_cons, ih (saturatingAdd_le a v), List.sum_cons, saturatingAdd]
    omega

theorem saturatingAdd_assoc (a b c : Nat) :
    saturatingAdd w (saturatingAdd w a b) c = saturatingAdd w a (saturatingAdd w b c) := by
  unfold saturatingAdd
  omega

section Columns

theorem sum_zipWith_saturatingAdd {as bs : List Nat} (aligned : as.length = bs.length)
    (fits : as.sum + bs.sum ≤ maxValue w) : (as.zipWith (saturatingAdd w) bs).sum = as.sum + bs.sum := by
  induction as generalizing bs with
  | nil =>
    rw [List.eq_nil_of_length_eq_zero aligned.symm]
    rfl
  | cons a rest ih =>
    cases bs with
    | nil => simp at aligned
    | cons b later =>
      simp only [List.sum_cons] at fits
      have tail := ih (Nat.succ.inj aligned) (by omega)
      simp only [List.zipWith_cons_cons, List.sum_cons, tail, saturatingAdd_of_le (show a + b ≤ maxValue w by omega)]
      omega

theorem sum_zipWith_sub {as bs : List Nat} (below : List.Forall₂ (· ≤ ·) bs as) :
    (as.zipWith saturatingSub bs).sum + bs.sum = as.sum := by
  induction below with
  | nil => rfl
  | cons le _ ih =>
    simp only [List.zipWith_cons_cons, List.sum_cons, saturatingSub]
    omega

end Columns

end Unsigned
