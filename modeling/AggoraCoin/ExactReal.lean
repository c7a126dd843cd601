import AggoraCoin.Float64

namespace AggoraCoin

/-- What exact arithmetic leaves open: the function that stands for `ln`, and the decimal text. -/
class RealOps where
  ln : ℝ → ℝ
  jsonText : ℝ → String

namespace NaturalLog

/-- Opening this namespace takes `ln` to be the natural logarithm. -/
noncomputable scoped instance natural : RealOps where
  ln := Real.log
  jsonText _ := ""

end NaturalLog

variable [RealOps]

noncomputable instance : F64 ℝ where
  ofNat n := n
  lit q := q
  add := (· + ·)
  sub := (· - ·)
  mul := (· * ·)
  div := (· / ·)
  neg x := -x
  ln := RealOps.ln
  powf := (· ^ ·)
  max := max
  lt x y := decide (x < y)
  le x y := decide (x ≤ y)
  floorU64 x := min ⌊x⌋₊ (Unsigned.maxValue 64)
  jsonText := RealOps.jsonText
  reread x := x
  floorU64_le _ := min_le_right _ _

namespace F64

@[simp] theorem ofNat_real (n : Nat) : (ofNat n : ℝ) = n := rfl
@[simp] theorem lit_real (q : ℚ) : (lit q : ℝ) = q := rfl
@[simp] theorem add_real (x y : ℝ) : add x y = x + y := rfl
@[simp] theorem sub_real (x y : ℝ) : sub x y = x - y := rfl
@[simp] theorem mul_real (x y : ℝ) : mul x y = x * y := rfl
@[simp] theorem div_real (x y : ℝ) : div x y = x / y := rfl
@[simp] theorem neg_real (x : ℝ) : neg x = -x := rfl
@[simp] theorem ln_real (x : ℝ) : ln x = RealOps.ln x := rfl
@[simp] theorem powf_real (x y : ℝ) : powf x y = x ^ y := rfl
@[simp] theorem max_real (x y : ℝ) : F64.max x y = Max.max x y := rfl
@[simp] theorem lt_real (x y : ℝ) : lt x y = true ↔ x < y := decide_eq_true_iff
@[simp] theorem le_real (x y : ℝ) : le x y = true ↔ x ≤ y := decide_eq_true_iff

theorem floorU64_real (x : ℝ) : floorU64 x = min ⌊x⌋₊ (Unsigned.maxValue 64) := rfl

theorem floorU64_mono {x y : ℝ} (below : x ≤ y) : floorU64 x ≤ floorU64 y :=
  min_le_min_right _ (Nat.floor_mono below)

theorem floorU64_le_floor (x : ℝ) : floorU64 x ≤ ⌊x⌋₊ := min_le_left _ _

/-- The cast only saturates above the largest word. -/
theorem floorU64_of_le {x : ℝ} {n : Nat} (below : x ≤ n) (bound : n ≤ Unsigned.maxValue 64) :
    floorU64 x = ⌊x⌋₊ :=
  min_eq_left ((Nat.floor_le_of_le below).trans bound)

theorem floorU64_eq {x : ℝ} {n : Nat} (lower : n ≤ x) (upper : x < n + 1) (bound : n ≤ Unsigned.maxValue 64) :
    floorU64 x = n := by
  rw [floorU64_real, (Nat.floor_eq_iff ((Nat.cast_nonneg n).trans lower)).mpr ⟨lower, upper⟩]
  exact min_eq_left bound

theorem clampUnit_real (x : ℝ) : clampUnit x = min (Max.max x 0) 1 := by
  simp only [clampUnit, lt_real, lit_real, Rat.cast_zero, Rat.cast_one]
  rcases lt_or_ge x 0 with negative | nonneg
  · rw [if_pos negative, if_neg (by norm_num), max_eq_right negative.le, min_eq_left (by norm_num)]
  · rw [if_neg nonneg.not_gt, max_eq_left nonneg]
    rcases lt_or_ge 1 x with above | below
    · rw [if_pos above, min_eq_right above.le]
    · rw [if_neg below.not_gt, min_eq_left below]

theorem clampUnit_mono {x y : ℝ} (below : x ≤ y) : clampUnit x ≤ clampUnit y := by
  rw [clampUnit_real, clampUnit_real]
  exact min_le_min_right 1 (max_le_max_right 0 below)

/-- Without rounding a left-to-right sum is the sum. -/
theorem sum_real (values : List ℝ) : F64.sum values = values.sum := by
  have start : ∀ initial : ℝ, values.foldl add initial = initial + values.sum := by
    induction values with
    | nil => exact fun initial => (add_zero initial).symm
    | cons value rest ih =>
      intro initial
      rw [List.foldl_cons, ih, add_real, List.sum_cons, add_assoc]
  rw [F64.sum, start, lit_real, Rat.cast_zero, zero_add]

end F64

end AggoraCoin
