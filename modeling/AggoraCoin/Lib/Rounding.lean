import AggoraCoin.Lib.FloorSums

namespace Rounding

/-- The nearest integer, and of two the even one. -/
def nearestEven (x : ℚ) : ℤ :=
  if x - ⌊x⌋ < 1 / 2 then ⌊x⌋
  else if 1 / 2 < x - ⌊x⌋ then ⌊x⌋ + 1
  else if ⌊x⌋ % 2 = 0 then ⌊x⌋
  else ⌊x⌋ + 1

theorem nearestEven_floor (x : ℚ) :
    (nearestEven x = ⌊x⌋ ∧ x - ⌊x⌋ ≤ 1 / 2) ∨ (nearestEven x = ⌊x⌋ + 1 ∧ 1 / 2 ≤ x - ⌊x⌋) := by
  unfold nearestEven
  split
  · rename_i low
    exact Or.inl ⟨rfl, low.le⟩
  · rename_i high
    split
    · rename_i above
      exact Or.inr ⟨rfl, above.le⟩
    · rename_i tie
      split
      · exact Or.inl ⟨rfl, not_lt.mp tie⟩
      · exact Or.inr ⟨rfl, not_lt.mp high⟩

theorem abs_nearestEven_sub_le_half (x : ℚ) : |(nearestEven x : ℚ) - x| ≤ 1 / 2 := by
  have floor := Int.floor_le x
  have next := Int.lt_floor_add_one x
  rw [abs_le]
  rcases nearestEven_floor x with ⟨low, near⟩ | ⟨high, near⟩
  · rw [low]
    constructor <;> linarith
  · rw [high]
    push_cast
    constructor <;> linarith

/-- No integer is nearer. -/
theorem abs_nearestEven_sub_le (x : ℚ) (n : ℤ) : |(nearestEven x : ℚ) - x| ≤ |(n : ℚ) - x| := by
  have half := abs_nearestEven_sub_le_half x
  have floor := Int.floor_le x
  have next := Int.lt_floor_add_one x
  rcases le_or_gt n ⌊x⌋ with below | above
  · have cast : (n : ℚ) ≤ ⌊x⌋ := Int.cast_le.mpr below
    rw [abs_of_nonpos (show (n : ℚ) - x ≤ 0 by linarith)]
    rcases nearestEven_floor x with ⟨low, near⟩ | ⟨high, near⟩
    · rw [low, abs_of_nonpos (by linarith)]
      linarith
    · linarith
  · have cast : (⌊x⌋ : ℚ) + 1 ≤ n := by exact_mod_cast above
    rw [abs_of_nonneg (show 0 ≤ (n : ℚ) - x by linarith)]
    rcases nearestEven_floor x with ⟨low, near⟩ | ⟨high, near⟩
    · linarith
    · rw [high, abs_of_nonneg (by push_cast; linarith)]
      push_cast
      linarith

/-- A bound that is an integer survives the rounding. -/
theorem abs_nearestEven_le {x : ℚ} {n : ℕ} (bound : |x| ≤ n) : |nearestEven x| ≤ n := by
  have toTop := abs_nearestEven_sub_le x n
  have toBottom := abs_nearestEven_sub_le x (-n)
  obtain ⟨lower, upper⟩ := abs_le.mp bound
  rw [abs_of_nonneg (show (0 : ℚ) ≤ ((n : ℤ) : ℚ) - x by push_cast; linarith), abs_le] at toTop
  rw [abs_of_nonpos (show ((-(n : ℤ) : ℤ) : ℚ) - x ≤ 0 by push_cast; linarith), abs_le] at toBottom
  push_cast at toTop toBottom
  have below : (nearestEven x : ℚ) ≤ n := by linarith
  have above : -(n : ℚ) ≤ nearestEven x := by linarith
  rw [abs_le]
  exact ⟨by exact_mod_cast above, by exact_mod_cast below⟩

variable (p : ℕ)

/-- The exponent of the last bit that is kept. -/
def lastBit (x : ℚ) : ℤ := Int.log 2 |x| + 1 - p

/-- The nearest number with a significand of `p` bits, of two the even one. The exponent is unbounded. -/
def toNearest (x : ℚ) : ℚ := nearestEven (x / 2 ^ lastBit p x) * 2 ^ lastBit p x

/-- A number with a significand of `p` bits. -/
def Representable (x : ℚ) : Prop := ∃ m e : ℤ, |m| < 2 ^ p ∧ x = m * 2 ^ e

section Scale

variable {p} {x : ℚ}

theorem lt_scale (x : ℚ) : |x| < 2 ^ p * 2 ^ lastBit p x := by
  have above := Int.lt_zpow_succ_log_self (b := 2) one_lt_two |x|
  have exponent : (2 : ℚ) ^ p * 2 ^ lastBit p x = ((2 : ℕ) : ℚ) ^ (Int.log 2 |x| + 1) := by
    rw [← zpow_natCast, ← zpow_add₀ two_ne_zero, lastBit]
    push_cast
    congr 1
    ring
  rwa [exponent]

theorem scale_le (nonzero : x ≠ 0) : 2 ^ p * 2 ^ lastBit p x ≤ 2 * |x| := by
  have below := Int.zpow_log_le_self (b := 2) one_lt_two (abs_pos.mpr nonzero)
  have exponent : (2 : ℚ) ^ p * 2 ^ lastBit p x = 2 * ((2 : ℕ) : ℚ) ^ Int.log 2 |x| := by
    rw [← zpow_natCast, ← zpow_add₀ two_ne_zero, lastBit]
    push_cast
    rw [← zpow_one_add₀ two_ne_zero]
    congr 1
    ring
  rw [exponent]
  linarith

theorem scale_pos (e : ℤ) : (0 : ℚ) < 2 ^ e := zpow_pos two_pos e

/-- The error in units of the last bit. -/
theorem toNearest_sub (x : ℚ) :
    toNearest p x - x = (nearestEven (x / 2 ^ lastBit p x) - x / 2 ^ lastBit p x) * 2 ^ lastBit p x := by
  rw [toNearest, sub_mul, div_mul_cancel₀ _ (scale_pos _).ne']

theorem abs_toNearest_sub (x : ℚ) :
    |toNearest p x - x| =
      |(nearestEven (x / 2 ^ lastBit p x) : ℚ) - x / 2 ^ lastBit p x| * 2 ^ lastBit p x := by
  rw [toNearest_sub, abs_mul, abs_of_pos (scale_pos (lastBit p x))]

end Scale

section Nearest

variable {p} {x y r : ℚ}

theorem representable_zero : Representable p 0 := ⟨0, 0, by simp, by simp⟩

/-- A whole number of last bits, of which `2 ^ p` is the most there can be. -/
theorem representable_of_abs_le (positive : 0 < p) {n : ℤ} (bound : |n| ≤ 2 ^ p) (e : ℤ) :
    Representable p ((n : ℚ) * 2 ^ e) := by
  rcases bound.lt_or_eq with below | top
  · exact ⟨n, e, below, rfl⟩
  · obtain ⟨q, rfl⟩ : ∃ q, p = q + 1 := ⟨p - 1, by omega⟩
    have split : n = n.sign * 2 ^ q * 2 := by
      rw [mul_assoc, ← pow_succ, ← top, Int.sign_mul_abs]
    refine ⟨n.sign * 2 ^ q, e + 1, ?_, ?_⟩
    · have nonzero : n ≠ 0 := by
        rintro rfl
        rw [abs_zero] at top
        exact (pow_pos two_pos (q + 1)).ne top
      rw [abs_mul, Int.abs_sign_of_ne_zero nonzero, one_mul, abs_of_pos (pow_pos two_pos q)]
      exact pow_lt_pow_right₀ one_lt_two (Nat.lt_succ_self q)
    · rw [zpow_add_one₀ two_ne_zero]
      nth_rewrite 1 [split]
      push_cast
      ring

theorem toNearest_representable (positive : 0 < p) (x : ℚ) : Representable p (toNearest p x) := by
  refine representable_of_abs_le positive ?_ _
  have bound : |x / 2 ^ lastBit p x| ≤ (2 ^ p : ℕ) := by
    rw [abs_div, abs_of_pos (scale_pos _), div_le_iff₀ (scale_pos _)]
    push_cast
    exact (lt_scale x).le
  exact_mod_cast abs_nearestEven_le bound

/-- A number as large as the rounded one is a whole number of its last bits. -/
theorem Representable.eq_mul (representable : Representable p r)
    (large : 2 ^ p * 2 ^ lastBit p x ≤ 2 * |r|) : ∃ n : ℤ, r = n * 2 ^ lastBit p x := by
  obtain ⟨m, e, small, rfl⟩ := representable
  have above : lastBit p x < e + 1 := by
    have cast : (|(m : ℚ)|) < 2 ^ p := by exact_mod_cast small
    rw [abs_mul, abs_of_pos (scale_pos e)] at large
    have strict : (2 : ℚ) ^ p * 2 ^ lastBit p x < 2 ^ p * 2 ^ (e + 1) := by
      calc (2 : ℚ) ^ p * 2 ^ lastBit p x ≤ 2 * (|(m : ℚ)| * 2 ^ e) := large
        _ < 2 * (2 ^ p * 2 ^ e) := by
          have scaled := mul_lt_mul_of_pos_right cast (scale_pos e)
          linarith
        _ = 2 ^ p * 2 ^ (e + 1) := by
          rw [zpow_add_one₀ two_ne_zero]
          ring
    have powers := lt_of_mul_lt_mul_left strict (pow_pos two_pos p).le
    exact (zpow_lt_zpow_iff_right₀ one_lt_two).mp powers
  refine ⟨m * 2 ^ (e - lastBit p x).toNat, ?_⟩
  have exponent : (2 : ℚ) ^ e = 2 ^ (e - lastBit p x).toNat * 2 ^ lastBit p x := by
    rw [← zpow_natCast, ← zpow_add₀ two_ne_zero]
    congr 1
    omega
  rw [exponent]
  push_cast
  ring

/-- No representable number is nearer. -/
theorem abs_toNearest_sub_le (positive : 0 < p) (x : ℚ) (representable : Representable p r) :
    |toNearest p x - x| ≤ |r - x| := by
  rcases eq_or_ne x 0 with rfl | nonzero
  · have zero : toNearest p 0 = 0 := by simp [toNearest, nearestEven]
    rw [zero, sub_zero, abs_zero]
    exact abs_nonneg _
  rw [abs_toNearest_sub]
  have scaled (n : ℤ) : |(nearestEven (x / 2 ^ lastBit p x) : ℚ) - x / 2 ^ lastBit p x| * 2 ^ lastBit p x ≤
      |(n : ℚ) * 2 ^ lastBit p x - x| := by
    have whole : (n : ℚ) * 2 ^ lastBit p x - x = (n - x / 2 ^ lastBit p x) * 2 ^ lastBit p x := by
      rw [sub_mul, div_mul_cancel₀ _ (scale_pos _).ne']
    rw [whole, abs_mul, abs_of_pos (scale_pos (lastBit p x))]
    exact mul_le_mul_of_nonneg_right (abs_nearestEven_sub_le _ n) (scale_pos _).le
  rcases le_or_gt (2 ^ p * 2 ^ lastBit p x) (2 * |r|) with large | small
  · obtain ⟨n, rfl⟩ := representable.eq_mul large
    exact scaled n
  · -- a shorter number lies beyond the power of two that ends the binade
    obtain ⟨q, rfl⟩ : ∃ q, p = q + 1 := ⟨p - 1, by omega⟩
    have binade := scale_le (p := q + 1) nonzero
    rw [pow_succ] at small binade
    have far : |r| < 2 ^ q * 2 ^ lastBit (q + 1) x := by linarith
    have near : 2 ^ q * 2 ^ lastBit (q + 1) x ≤ |x| := by linarith
    rcases lt_or_gt_of_ne nonzero with negative | above
    · refine (scaled (-2 ^ q)).trans ?_
      rw [abs_of_neg negative] at near
      have lower := (abs_lt.mp far).1
      push_cast
      rw [abs_of_nonneg (by linarith), abs_of_nonneg (by linarith)]
      linarith
    · refine (scaled (2 ^ q)).trans ?_
      rw [abs_of_pos above] at near
      have upper := (abs_lt.mp far).2
      push_cast
      rw [abs_of_nonpos (by linarith), abs_of_nonpos (by linarith)]
      linarith

theorem toNearest_of_representable (positive : 0 < p) (representable : Representable p x) : toNearest p x = x := by
  have error := abs_toNearest_sub_le positive x representable
  rw [sub_self, abs_zero] at error
  exact sub_eq_zero.mp (abs_nonpos_iff.mp error)

theorem add_le_of_nearer {high low : ℚ} (order : low < high) (near : |high - x| ≤ |low - x|) : high + low ≤ 2 * x := by
  have squares := sq_le_sq.mpr near
  have apart := sub_pos.mpr order
  nlinarith

theorem le_add_of_nearer {high low : ℚ} (order : low < high) (near : |low - x| ≤ |high - x|) : 2 * x ≤ high + low := by
  have squares := sq_le_sq.mpr near
  have apart := sub_pos.mpr order
  nlinarith

/-- Two numbers are never rounded past each other. -/
theorem toNearest_mono (positive : 0 < p) (below : x ≤ y) : toNearest p x ≤ toNearest p y := by
  rcases below.eq_or_lt with rfl | apart
  · exact le_rfl
  by_contra crossed
  have order := not_le.mp crossed
  have fromX := add_le_of_nearer order (abs_toNearest_sub_le positive x (toNearest_representable positive y))
  have fromY := le_add_of_nearer order (abs_toNearest_sub_le positive y (toNearest_representable positive x))
  linarith

theorem toNearest_nonneg (positive : 0 < p) (nonneg : 0 ≤ x) : 0 ≤ toNearest p x := by
  rw [← toNearest_of_representable positive (representable_zero (p := p))]
  exact toNearest_mono positive nonneg

theorem le_toNearest (positive : 0 < p) (representable : Representable p r) (below : r ≤ x) : r ≤ toNearest p x := by
  rw [← toNearest_of_representable positive representable]
  exact toNearest_mono positive below

/-- Half a last bit is at most the `2 ^ p`-th part of the number. -/
theorem abs_toNearest_sub_le_div (x : ℚ) : |toNearest p x - x| ≤ |x| / 2 ^ p := by
  rcases eq_or_ne x 0 with rfl | nonzero
  · simp [toNearest, nearestEven]
  have half := mul_le_mul_of_nonneg_right (abs_nearestEven_sub_le_half (x / 2 ^ lastBit p x))
    (scale_pos (lastBit p x)).le
  have large := scale_le (p := p) nonzero
  rw [abs_toNearest_sub, le_div_iff₀ (pow_pos two_pos p)]
  have power : (0 : ℚ) < 2 ^ p := pow_pos two_pos p
  have scaled := mul_le_mul_of_nonneg_right half power.le
  linarith

theorem toNearest_le (nonneg : 0 ≤ x) : toNearest p x ≤ x * (1 + 1 / 2 ^ p) := by
  have error := (abs_le.mp (abs_toNearest_sub_le_div (p := p) x)).2
  rw [abs_of_nonneg nonneg] at error
  have split : x * (1 + 1 / 2 ^ p) = x + x / 2 ^ p := by ring
  linarith

/-- Measured by the rounded number itself the error is as small. -/
theorem le_toNearest_mul (positive : 0 < p) (nonneg : 0 ≤ x) : x ≤ toNearest p x * (1 + 1 / 2 ^ p) := by
  rcases eq_or_ne x 0 with rfl | nonzero
  · simp [toNearest, nearestEven]
  obtain ⟨q, rfl⟩ : ∃ q, p = q + 1 := ⟨p - 1, by omega⟩
  have half := mul_le_mul_of_nonneg_right (abs_nearestEven_sub_le_half (x / 2 ^ lastBit (q + 1) x))
    (scale_pos (lastBit (q + 1) x)).le
  have large := scale_le (p := q + 1) nonzero
  rw [← abs_toNearest_sub] at half
  have error := (abs_le.mp half).1
  rw [abs_of_nonneg nonneg, pow_succ] at large
  -- the number is at least `2 ^ q` last bits, and so is what it is rounded to
  have reached : 2 ^ q * 2 ^ lastBit (q + 1) x ≤ toNearest (q + 1) x := by
    refine le_toNearest positive ?_ (by linarith)
    have power : Representable (q + 1) (((2 ^ q : ℤ) : ℚ) * 2 ^ lastBit (q + 1) x) := by
      refine ⟨2 ^ q, lastBit (q + 1) x, ?_, rfl⟩
      rw [abs_of_pos (pow_pos two_pos q)]
      exact pow_lt_pow_right₀ one_lt_two (Nat.lt_succ_self q)
    exact_mod_cast power
  have share : 1 / 2 * 2 ^ lastBit (q + 1) x ≤ toNearest (q + 1) x / 2 ^ (q + 1) := by
    rw [le_div_iff₀ (pow_pos two_pos _), pow_succ]
    linarith
  have split : toNearest (q + 1) x * (1 + 1 / 2 ^ (q + 1)) =
      toNearest (q + 1) x + toNearest (q + 1) x / 2 ^ (q + 1) := by ring
  linarith

end Nearest

/-- A sum from the left, rounded after every addition. -/
def roundedSum (start : ℚ) (values : List ℚ) : ℚ := values.foldl (fun sum value => toNearest p (sum + value)) start

section Sums

variable {p} {start : ℚ} {values : List ℚ}

@[simp] theorem roundedSum_nil : roundedSum p start [] = start := rfl

@[simp] theorem roundedSum_cons (value : ℚ) (rest : List ℚ) :
    roundedSum p start (value :: rest) = roundedSum p (toNearest p (start + value)) rest := rfl

/-- Each addition loses at most one rounding of the sum that comes out. -/
theorem add_sum_le_roundedSum (positive : 0 < p) (startNonneg : 0 ≤ start) (nonneg : ∀ value ∈ values, 0 ≤ value) :
    start + values.sum ≤ roundedSum p start values * (1 + 1 / 2 ^ p) ^ values.length := by
  induction values generalizing start with
  | nil => simp
  | cons value rest ih =>
    have first := nonneg value List.mem_cons_self
    have others : ∀ later ∈ rest, 0 ≤ later := fun later member => nonneg later (List.mem_cons_of_mem value member)
    have sumNonneg := add_nonneg startNonneg first
    have rounded := le_toNearest_mul positive sumNonneg
    have tail := ih (toNearest_nonneg positive sumNonneg) others
    have factor : (1 : ℚ) ≤ 1 + 1 / 2 ^ p := le_add_of_nonneg_right (by positivity)
    have restNonneg := List.sum_nonneg others
    rw [roundedSum_cons, List.sum_cons, List.length_cons, pow_succ, ← mul_assoc]
    calc start + (value + rest.sum) = (start + value) + rest.sum := by ring
      _ ≤ toNearest p (start + value) * (1 + 1 / 2 ^ p) + rest.sum * (1 + 1 / 2 ^ p) :=
        add_le_add rounded (le_mul_of_one_le_right restNonneg factor)
      _ = (toNearest p (start + value) + rest.sum) * (1 + 1 / 2 ^ p) := by ring
      _ ≤ _ := mul_le_mul_of_nonneg_right tail (zero_le_one.trans factor)

/-- Leaving terms out does not make a rounded sum larger. -/
theorem roundedSum_sublist (positive : 0 < p) {part : List ℚ} (sub : part.Sublist values)
    (nonneg : ∀ value ∈ values, 0 ≤ value) {low : ℚ} (below : low ≤ start) (representable : Representable p start) :
    roundedSum p low part ≤ roundedSum p start values := by
  induction sub generalizing low start with
  | slnil => exact below
  | cons value _ ih =>
    have first := nonneg value List.mem_cons_self
    have kept : start ≤ toNearest p (start + value) :=
      le_toNearest positive representable (le_add_of_nonneg_right first)
    exact ih (fun later member => nonneg later (List.mem_cons_of_mem value member)) (below.trans kept)
      (toNearest_representable positive _)
  | cons_cons value _ ih =>
    exact ih (fun later member => nonneg later (List.mem_cons_of_mem value member))
      (toNearest_mono positive (add_le_add_left below value)) (toNearest_representable positive _)

theorem roundedSum_nonneg (positive : 0 < p) (nonneg : ∀ value ∈ values, 0 ≤ value) : 0 ≤ roundedSum p 0 values :=
  roundedSum_sublist positive (List.nil_sublist values) nonneg le_rfl representable_zero

/-- Zeros do not count. -/
theorem roundedSum_filter (positive : 0 < p) (nonneg : ∀ value ∈ values, 0 ≤ value) (representable : Representable p start) :
    roundedSum p start (values.filter (0 < ·)) = roundedSum p start values := by
  induction values generalizing start with
  | nil => rfl
  | cons value rest ih =>
    have later := fun other member => nonneg other (List.mem_cons_of_mem value member)
    rw [roundedSum_cons, ← ih later (toNearest_representable positive _)]
    rcases (nonneg value List.mem_cons_self).lt_or_eq with above | zero
    · rw [List.filter_cons_of_pos (by simpa using above), roundedSum_cons]
    · rw [List.filter_cons_of_neg (by simp [← zero]), ← zero, add_zero, toNearest_of_representable positive representable]

/-- A sum whose parts are all representable is not rounded. -/
theorem roundedSum_of_exact (positive : 0 < p)
    (exact_ : ∀ part, part <+: values → Representable p (start + part.sum)) :
    roundedSum p start values = start + values.sum := by
  induction values generalizing start with
  | nil => simp
  | cons value rest ih =>
    have first := exact_ [value] (by simp)
    rw [List.sum_singleton] at first
    rw [roundedSum_cons, toNearest_of_representable positive first, List.sum_cons, ← add_assoc]
    refine ih fun part initial => ?_
    have longer := exact_ (value :: part) ((List.prefix_cons_inj value).mpr initial)
    rwa [List.sum_cons, ← add_assoc] at longer

end Sums

/-- The whole part of `pool * weight / total`, rounded after each operation. -/
def roundedShare (pool total weight : ℚ) : ℕ := ⌊toNearest p (toNearest p (pool * weight) / total)⌋₊

section Shares

variable {p}

section Bounds

variable {pool : ℚ}

/-- Two roundings up, at the worst. -/
theorem roundedShare_le (positive : 0 < p) (poolNonneg : 0 ≤ pool) {total weight : ℚ} (totalNonneg : 0 ≤ total)
    (nonneg : 0 ≤ weight) : (roundedShare p pool total weight : ℚ) ≤ pool * weight / total * (1 + 1 / 2 ^ p) ^ 2 := by
  have factor : (0 : ℚ) ≤ 1 + 1 / 2 ^ p := by positivity
  have product : (0 : ℚ) ≤ pool * weight := mul_nonneg poolNonneg nonneg
  have scaled := toNearest_nonneg positive product
  have quotient := div_nonneg scaled totalNonneg
  calc (roundedShare p pool total weight : ℚ) ≤ toNearest p (toNearest p (pool * weight) / total) :=
        Nat.floor_le (toNearest_nonneg positive quotient)
    _ ≤ toNearest p (pool * weight) / total * (1 + 1 / 2 ^ p) := toNearest_le quotient
    _ ≤ pool * weight * (1 + 1 / 2 ^ p) / total * (1 + 1 / 2 ^ p) :=
        mul_le_mul_of_nonneg_right (div_le_div_of_nonneg_right (toNearest_le product) totalNonneg) factor
    _ = pool * weight / total * (1 + 1 / 2 ^ p) ^ 2 := by ring

theorem sum_roundedShare_le_div (positive : 0 < p) (poolNonneg : 0 ≤ pool) {total : ℚ} (totalNonneg : 0 ≤ total)
    {weights : List ℚ} (nonneg : ∀ weight ∈ weights, 0 ≤ weight) :
    ((weights.map (roundedShare p pool total)).sum : ℚ) ≤ pool * weights.sum / total * (1 + 1 / 2 ^ p) ^ 2 := by
  induction weights with
  | nil => simp
  | cons weight rest ih =>
    have here := roundedShare_le positive poolNonneg totalNonneg (nonneg weight List.mem_cons_self)
    have later := ih fun other member => nonneg other (List.mem_cons_of_mem weight member)
    rw [List.map_cons, List.sum_cons, List.sum_cons, Nat.cast_add]
    calc (roundedShare p pool total weight : ℚ) + ((rest.map (roundedShare p pool total)).sum : ℕ)
        ≤ pool * weight / total * (1 + 1 / 2 ^ p) ^ 2 + pool * rest.sum / total * (1 + 1 / 2 ^ p) ^ 2 :=
          add_le_add here later
      _ = pool * (weight + rest.sum) / total * (1 + 1 / 2 ^ p) ^ 2 := by ring

/-- One rounding for each weight and two more bound what all shares gain. -/
theorem sum_roundedShare_le_pow (positive : 0 < p) (poolNonneg : 0 ≤ pool) {weights : List ℚ}
    (nonneg : ∀ weight ∈ weights, 0 ≤ weight) :
    ((weights.map (roundedShare p pool (roundedSum p 0 weights))).sum : ℚ) ≤
      pool * (1 + 1 / 2 ^ p) ^ (weights.length + 2) := by
  have totalNonneg := roundedSum_nonneg positive nonneg
  have spent := sum_roundedShare_le_div positive poolNonneg totalNonneg nonneg
  refine spent.trans ?_
  rcases totalNonneg.eq_or_lt with nothing | something
  · rw [← nothing, div_zero, zero_mul]
    positivity
  have lower := add_sum_le_roundedSum positive le_rfl nonneg
  rw [zero_add] at lower
  have share : weights.sum / roundedSum p 0 weights ≤ (1 + 1 / 2 ^ p) ^ weights.length := by
    rw [div_le_iff₀ something, mul_comm]
    exact lower
  calc pool * weights.sum / roundedSum p 0 weights * (1 + 1 / 2 ^ p) ^ 2
      = weights.sum / roundedSum p 0 weights * (pool * (1 + 1 / 2 ^ p) ^ 2) := by ring
    _ ≤ (1 + 1 / 2 ^ p) ^ weights.length * (pool * (1 + 1 / 2 ^ p) ^ 2) :=
      mul_le_mul_of_nonneg_right share (by positivity)
    _ = pool * (1 + 1 / 2 ^ p) ^ (weights.length + 2) := by ring

theorem sum_roundedShare_filter (positive : 0 < p) (total : ℚ) {weights : List ℚ}
    (nonneg : ∀ weight ∈ weights, 0 ≤ weight) :
    ((weights.filter (0 < ·)).map (roundedShare p pool total)).sum = (weights.map (roundedShare p pool total)).sum := by
  have zero : toNearest p 0 = 0 := toNearest_of_representable positive representable_zero
  induction weights with
  | nil => rfl
  | cons weight rest ih =>
    have later := ih fun other member => nonneg other (List.mem_cons_of_mem weight member)
    rw [List.map_cons, List.sum_cons, ← later]
    rcases (nonneg weight List.mem_cons_self).lt_or_eq with above | none
    · rw [List.filter_cons_of_pos (by simpa using above), List.map_cons, List.sum_cons]
    · have nothing : roundedShare p pool total 0 = 0 := by
        rw [roundedShare, mul_zero, zero, zero_div, zero, Nat.floor_zero]
      rw [List.filter_cons_of_neg (by simp [← none]), ← none, nothing, zero_add]

end Bounds

variable {pool : ℕ}

/-- Where nothing has to be rounded the shares stay within the pool. -/
theorem sum_roundedShare_le_of_exact (positive : 0 < p) {weights : List ℚ} (nonneg : ∀ weight ∈ weights, 0 ≤ weight)
    (sums : ∀ part, part <+: weights → Representable p part.sum)
    (products : ∀ weight ∈ weights, Representable p (pool * weight))
    (quotients : ∀ weight ∈ weights, Representable p (pool * weight / weights.sum)) :
    (weights.map (roundedShare p pool (roundedSum p 0 weights))).sum ≤ pool := by
  have total : roundedSum p 0 weights = weights.sum := by
    rw [roundedSum_of_exact positive fun part initial => by rw [zero_add]; exact sums part initial, zero_add]
  have shares : weights.map (roundedShare p pool (roundedSum p 0 weights)) =
      (weights.map fun weight => pool * weight / weights.sum).map Nat.floor := by
    rw [List.map_map]
    refine List.map_congr_left fun weight member => ?_
    rw [roundedShare, total, toNearest_of_representable positive (products weight member),
      toNearest_of_representable positive (quotients weight member)]
    rfl
  have totalNonneg := List.sum_nonneg nonneg
  have quotientNonneg : ∀ x ∈ weights.map fun weight => (pool : ℚ) * weight / weights.sum, 0 ≤ x := by
    intro x member
    obtain ⟨weight, inside, rfl⟩ := List.mem_map.mp member
    exact div_nonneg (mul_nonneg (Nat.cast_nonneg pool) (nonneg weight inside)) totalNonneg
  have spent : (weights.map fun weight => (pool : ℚ) * weight / weights.sum).sum ≤ pool := by
    have scaled : (weights.map fun weight => (pool : ℚ) * weight / weights.sum) =
        weights.map fun weight => pool / weights.sum * weight := List.map_congr_left fun weight _ => by ring
    rw [scaled, List.sum_map_mul_left, List.map_id']
    rcases totalNonneg.eq_or_lt with nothing | something
    · rw [← nothing, mul_zero]
      exact Nat.cast_nonneg pool
    · rw [div_mul_cancel₀ _ something.ne']
  rw [shares]
  exact_mod_cast (FloorSums.total_le quotientNonneg).trans spent

/-- Few roundings of a small pool do not add up to a unit. -/
theorem pow_mul_lt {n : ℕ} (small : n * (pool + 1) < 2 ^ p) : (1 + 1 / 2 ^ p : ℚ) ^ n * pool < pool + 1 := by
  have power : (0 : ℚ) < 2 ^ p := pow_pos two_pos p
  have cast : (n : ℚ) * (pool + 1) < 2 ^ p := by exact_mod_cast small
  have grown : (0 : ℚ) < (1 + 1 / 2 ^ p) ^ n := by positivity
  have bernoulli : 1 - (n : ℚ) / 2 ^ p ≤ (1 - 1 / 2 ^ p) ^ n := by
    have unit : (1 : ℚ) / 2 ^ p ≤ 1 := by
      rw [div_le_one power]
      exact one_le_pow₀ one_le_two
    have expanded := one_add_mul_le_pow (a := -(1 / 2 ^ p : ℚ)) (by linarith) n
    calc 1 - (n : ℚ) / 2 ^ p = 1 + n * -(1 / 2 ^ p) := by ring
      _ ≤ (1 + -(1 / 2 ^ p)) ^ n := expanded
      _ = (1 - 1 / 2 ^ p) ^ n := by ring
  have product : (1 + 1 / 2 ^ p : ℚ) ^ n * (1 - 1 / 2 ^ p) ^ n ≤ 1 := by
    rw [← mul_pow]
    refine pow_le_one₀ ?_ ?_
    · have unit : (1 : ℚ) / 2 ^ p ≤ 1 := by
        rw [div_le_one power]
        exact one_le_pow₀ one_le_two
      exact mul_nonneg (by positivity) (by linarith)
    · have square : (0 : ℚ) ≤ (1 / 2 ^ p) ^ 2 := by positivity
      linarith [show (1 + 1 / 2 ^ p : ℚ) * (1 - 1 / 2 ^ p) = 1 - (1 / 2 ^ p) ^ 2 by ring]
  have room : (pool : ℚ) < (pool + 1) * (1 - n / 2 ^ p) := by
    have part : (n : ℚ) * (pool + 1) / 2 ^ p < 1 := (div_lt_one power).mpr cast
    have split : ((pool : ℚ) + 1) * (1 - n / 2 ^ p) = pool + 1 - n * (pool + 1) / 2 ^ p := by ring
    linarith
  calc (1 + 1 / 2 ^ p : ℚ) ^ n * pool < (1 + 1 / 2 ^ p) ^ n * ((pool + 1) * (1 - n / 2 ^ p)) :=
        mul_lt_mul_of_pos_left room grown
    _ = (pool + 1) * ((1 + 1 / 2 ^ p) ^ n * (1 - n / 2 ^ p)) := by ring
    _ ≤ (pool + 1) * ((1 + 1 / 2 ^ p) ^ n * (1 - 1 / 2 ^ p) ^ n) :=
        mul_le_mul_of_nonneg_left (mul_le_mul_of_nonneg_left bernoulli grown.le) (by positivity)
    _ ≤ (pool + 1) * 1 := mul_le_mul_of_nonneg_left product (by positivity)
    _ = pool + 1 := mul_one _

/-- The shares of a few of the weights stay within the pool. -/
theorem sum_roundedShare_part_le (positive : 0 < p) {weights part : List ℚ} (sub : part.Sublist weights)
    (nonneg : ∀ weight ∈ weights, 0 ≤ weight) (representable : ∀ weight ∈ weights, Representable p weight)
    (small : (part.length + 1) * (pool + 1) < 2 ^ p) :
    (part.map (roundedShare p pool (roundedSum p 0 weights))).sum ≤ pool := by
  have partNonneg : ∀ weight ∈ part, 0 ≤ weight := fun weight member => nonneg weight (sub.subset member)
  have fromPart := roundedSum_sublist positive sub nonneg le_rfl representable_zero
  have totalNonneg := roundedSum_nonneg positive nonneg
  have spent := sum_roundedShare_le_div positive (Nat.cast_nonneg pool) totalNonneg partNonneg
  rcases totalNonneg.eq_or_lt with nothing | something
  · rw [← nothing, div_zero, zero_mul] at spent
    rw [← nothing]
    exact_mod_cast spent.trans (Nat.cast_nonneg pool)
  cases part with
  | nil => exact Nat.zero_le _
  | cons weight rest =>
    have first := representable weight (sub.subset List.mem_cons_self)
    have exactFirst : toNearest p (0 + weight) = weight := by
      rw [zero_add, toNearest_of_representable positive first]
    have lower := add_sum_le_roundedSum positive (partNonneg weight List.mem_cons_self)
      fun other member => partNonneg other (List.mem_cons_of_mem weight member)
    rw [roundedSum_cons, exactFirst] at fromPart
    have factor : (0 : ℚ) ≤ (1 + 1 / 2 ^ p) ^ rest.length := by positivity
    have share : (weight :: rest).sum / roundedSum p 0 weights ≤ (1 + 1 / 2 ^ p) ^ rest.length := by
      rw [div_le_iff₀ something, List.sum_cons]
      calc weight + rest.sum ≤ roundedSum p weight rest * (1 + 1 / 2 ^ p) ^ rest.length := lower
        _ ≤ roundedSum p 0 weights * (1 + 1 / 2 ^ p) ^ rest.length := mul_le_mul_of_nonneg_right fromPart factor
        _ = (1 + 1 / 2 ^ p) ^ rest.length * roundedSum p 0 weights := mul_comm _ _
    have bound : (((weight :: rest).map (roundedShare p pool (roundedSum p 0 weights))).sum : ℚ) < pool + 1 := by
      calc (((weight :: rest).map (roundedShare p pool (roundedSum p 0 weights))).sum : ℚ)
          ≤ pool * (weight :: rest).sum / roundedSum p 0 weights * (1 + 1 / 2 ^ p) ^ 2 := spent
        _ = (weight :: rest).sum / roundedSum p 0 weights * (pool * (1 + 1 / 2 ^ p) ^ 2) := by ring
        _ ≤ (1 + 1 / 2 ^ p) ^ rest.length * (pool * (1 + 1 / 2 ^ p) ^ 2) :=
          mul_le_mul_of_nonneg_right share (by positivity)
        _ = (1 + 1 / 2 ^ p) ^ ((weight :: rest).length + 1) * pool := by
          rw [List.length_cons]
          ring
        _ < pool + 1 := pow_mul_lt small
    exact Nat.lt_add_one_iff.mp (by exact_mod_cast bound)

/-- Where the shares overspend, a few of them do. -/
theorem exists_sublist_lt_sum {α : Type} (share : α → ℕ) (weights : List α) {bound : ℕ}
    (exceeds : bound < (weights.map share).sum) :
    ∃ part : List α, part.Sublist weights ∧ part.length ≤ bound + 1 ∧ bound < (part.map share).sum := by
  induction weights generalizing bound with
  | nil => simp at exceeds
  | cons weight rest ih =>
    rw [List.map_cons, List.sum_cons] at exceeds
    rcases Nat.eq_zero_or_pos (share weight) with nothing | something
    · obtain ⟨part, sub, short, above⟩ := ih (show bound < (rest.map share).sum by omega)
      exact ⟨part, sub.cons weight, short, above⟩
    · rcases lt_or_ge bound (share weight) with alone | together
      · exact ⟨[weight], List.singleton_sublist.mpr List.mem_cons_self, by simp, by simpa using alone⟩
      · obtain ⟨part, sub, short, above⟩ := ih (show bound - share weight < (rest.map share).sum by omega)
        refine ⟨weight :: part, sub.cons_cons weight, ?_, ?_⟩
        · rw [List.length_cons]
          omega
        · rw [List.map_cons, List.sum_cons]
          omega

/-- Rounded shares never overspend a pool that is small for the precision. Only weights that are not zero
and shares of at least one unit count, so no more than `pool + 1` roundings of the total matter. -/
theorem sum_roundedShare_le_of_small (positive : 0 < p) {weights : List ℚ} (nonneg : ∀ weight ∈ weights, 0 ≤ weight)
    (representable : ∀ weight ∈ weights, Representable p weight)
    (small : (min (weights.countP (0 < ·)) (pool + 1) + 1) * (pool + 1) < 2 ^ p) :
    (weights.map (roundedShare p pool (roundedSum p 0 weights))).sum ≤ pool := by
  rw [← sum_roundedShare_filter positive _ nonneg, ← roundedSum_filter positive nonneg representable_zero]
  by_contra exceeds
  obtain ⟨part, sub, short, above⟩ := exists_sublist_lt_sum _ (weights.filter (0 < ·)) (not_le.mp exceeds)
  have length := sub.length_le
  rw [← List.countP_eq_length_filter] at length
  have count : part.length ≤ min (weights.countP (0 < ·)) (pool + 1) := le_min length short
  have within := Nat.mul_le_mul_right (pool + 1) (Nat.add_le_add_right count 1)
  have kept := sum_roundedShare_part_le positive sub (fun weight member => nonneg weight (List.mem_filter.mp member).1)
    (fun weight member => representable weight (List.mem_filter.mp member).1) (within.trans_lt small)
  exact absurd kept (not_le.mpr above)

end Shares

end Rounding
