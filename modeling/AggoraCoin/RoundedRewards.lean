import AggoraCoin.Concrete
import AggoraCoin.Lib.Rounding
import AggoraCoin.Iteration.Pointwise

namespace AggoraCoin

open F64 Unsigned Rounding

/-- A double. The range of the exponent is not modelled, nor are infinities and NaN. -/
structure Binary64 where
  val : ℚ
  representable : Representable 53 val

theorem bits_pos : 0 < 53 := by norm_num

namespace Binary64

/-- The double nearest to a rational. -/
def round (x : ℚ) : Binary64 := ⟨toNearest 53 x, toNearest_representable bits_pos x⟩

theorem representable_natCast {n : Nat} (small : n < 2 ^ 53) : Representable 53 n := by
  refine ⟨n, 0, ?_, by simp⟩
  rw [Nat.abs_cast]
  exact_mod_cast small

/-- The functions of the standard library that the iteration uses. -/
class Ops where
  ln : Binary64 → Binary64
  powf : Binary64 → Binary64 → Binary64
  powf_nonneg : ∀ x y, 0 ≤ (powf x y).val
  jsonText : Binary64 → String
  reread : Binary64 → Binary64

end Binary64

open Binary64

instance [Ops] : F64 Binary64 where
  ofNat n := round n
  lit q := round q
  add x y := round (x.val + y.val)
  sub x y := round (x.val - y.val)
  mul x y := round (x.val * y.val)
  div x y := round (x.val / y.val)
  neg x := round (-x.val)
  ln := Ops.ln
  powf := Ops.powf
  max x y := if x.val < y.val then y else x
  lt x y := decide (x.val < y.val)
  le x y := decide (x.val ≤ y.val)
  floorU64 x := min ⌊x.val⌋₊ (maxValue 64)
  jsonText := Ops.jsonText
  reread := Ops.reread
  floorU64_le _ := min_le_right _ _

section Rewards

variable [Ops]

theorem val_zero : (lit 0 : Binary64).val = 0 := toNearest_of_representable bits_pos representable_zero

/-- The total weight is a rounded sum from the left. -/
theorem val_sum (weights : List Binary64) : (F64.sum weights).val = roundedSum 53 0 (weights.map Binary64.val) := by
  have from_start : ∀ start : Binary64,
      (weights.foldl add start).val = roundedSum 53 start.val (weights.map Binary64.val) := by
    induction weights with
    | nil => exact fun _ => rfl
    | cons weight rest ih => exact fun start => ih (add start weight)
  rw [F64.sum, from_start, val_zero]

theorem flooredReward_le (pool : Nat) (total weight : Binary64) :
    flooredReward pool total weight ≤ roundedShare 53 (toNearest 53 pool) total.val weight.val := by
  unfold flooredReward
  split
  · exact min_le_left _ _
  · exact Nat.zero_le _

/-- The pool is converted, and then shared. -/
theorem flooredRewards_sum_le_rounded (pool : MicroAgc) (weights : List Binary64) :
    (flooredRewards pool weights).sum ≤
      ((weights.map Binary64.val).map
        (roundedShare 53 (toNearest 53 pool) (roundedSum 53 0 (weights.map Binary64.val)))).sum := by
  rw [flooredRewards_eq_map, List.map_map, ← val_sum]
  exact List.sum_le_sum fun weight _ => flooredReward_le pool _ _

/-- Why no excess comes of a pool and weights: the roundings are too few for a unit, no weight counts, or
nothing has to be rounded. -/
inductive RoundsSafely (pool : MicroAgc) (weights : List Binary64) : Prop
  | small (few : (min (weights.countP fun weight => 0 < weight.val) (pool + 1) + 1) * (pool + 1) < 2 ^ 53)
  | weightless (zero : ∀ weight ∈ weights, weight.val = 0)
  | unrounded (whole : Representable 53 pool)
      (sums : ∀ part, part <+: weights → Representable 53 (part.map Binary64.val).sum)
      (products : ∀ weight ∈ weights, Representable 53 (pool * weight.val))
      (quotients : ∀ weight ∈ weights, Representable 53 (pool * weight.val / (weights.map Binary64.val).sum))

section Lists

variable {pool : MicroAgc} {weights : List Binary64}

omit [Ops] in
theorem val_nonneg (nonneg : ∀ weight ∈ weights, 0 ≤ weight.val) : ∀ value ∈ weights.map Binary64.val, 0 ≤ value := by
  intro value member
  obtain ⟨weight, inside, rfl⟩ := List.mem_map.mp member
  exact nonneg weight inside

/-- Then the rewards stay within the pool. -/
theorem flooredRewards_sum_le_of_safe (nonneg : ∀ weight ∈ weights, 0 ≤ weight.val)
    (safely : RoundsSafely pool weights) : (flooredRewards pool weights).sum ≤ pool := by
  have values := val_nonneg nonneg
  cases safely with
  | small few =>
    have below : pool < 2 ^ 53 := by
      refine lt_of_lt_of_le (Nat.lt_succ_self pool) (le_trans ?_ few.le)
      exact Nat.le_mul_of_pos_left _ (Nat.succ_pos _)
    have representable : ∀ value ∈ weights.map Binary64.val, Representable 53 value := by
      intro value member
      obtain ⟨weight, _, rfl⟩ := List.mem_map.mp member
      exact weight.representable
    have count : (min ((weights.map Binary64.val).countP (0 < ·)) (pool + 1) + 1) * (pool + 1) < 2 ^ 53 := by
      rwa [List.countP_map]
    have shared := flooredRewards_sum_le_rounded pool weights
    rw [toNearest_of_representable bits_pos (representable_natCast below)] at shared
    exact shared.trans (sum_roundedShare_le_of_small bits_pos values representable count)
  | weightless zero =>
    have total : (F64.sum weights).val = 0 := by
      have none : (weights.map Binary64.val).filter (0 < ·) = [] := by
        rw [List.filter_eq_nil_iff]
        intro value member
        obtain ⟨weight, inside, rfl⟩ := List.mem_map.mp member
        simp [zero weight inside]
      rw [val_sum, ← roundedSum_filter bits_pos values representable_zero, none, roundedSum_nil]
    have unshared (weight : Binary64) : flooredReward pool (F64.sum weights) weight = 0 := by
      refine if_neg fun shares => ?_
      have above : (lit 0 : Binary64).val < (F64.sum weights).val := of_decide_eq_true shares.2
      rw [val_zero, total] at above
      exact absurd above (lt_irrefl 0)
    rw [flooredRewards_eq_map, List.map_congr_left fun weight _ => unshared weight]
    simp
  | unrounded whole sums products quotients =>
    have shared := flooredRewards_sum_le_rounded pool weights
    rw [toNearest_of_representable bits_pos whole] at shared
    refine shared.trans (sum_roundedShare_le_of_exact bits_pos values (fun part initial => ?_) (fun value member => ?_)
      fun value member => ?_)
    · obtain ⟨before, first, rfl⟩ := (List.prefix_map_iff).mp initial
      exact sums before first
    · obtain ⟨weight, inside, rfl⟩ := List.mem_map.mp member
      exact products weight inside
    · obtain ⟨weight, inside, rfl⟩ := List.mem_map.mp member
      exact quotients weight inside

/-- In any case the excess is no more than the roundings of the conversion, of the sum, of a product and of
a quotient can add up to. -/
theorem flooredRewards_sum_le_pow (nonneg : ∀ weight ∈ weights, 0 ≤ weight.val) :
    ((flooredRewards pool weights).sum : ℚ) ≤ pool * (1 + 1 / 2 ^ 53) ^ (weights.length + 3) := by
  have poolNonneg : (0 : ℚ) ≤ pool := Nat.cast_nonneg pool
  have spent := sum_roundedShare_le_pow bits_pos (toNearest_nonneg bits_pos poolNonneg) (val_nonneg nonneg)
  rw [List.length_map] at spent
  calc ((flooredRewards pool weights).sum : ℚ)
      ≤ toNearest 53 pool * (1 + 1 / 2 ^ 53) ^ (weights.length + 2) :=
        (Nat.cast_le.mpr (flooredRewards_sum_le_rounded pool weights)).trans spent
    _ ≤ pool * (1 + 1 / 2 ^ 53) * (1 + 1 / 2 ^ 53) ^ (weights.length + 2) :=
        mul_le_mul_of_nonneg_right (toNearest_le poolNonneg) (by positivity)
    _ = pool * (1 + 1 / 2 ^ 53) ^ (weights.length + 3) := by ring

end Lists

/-- The weights of an iteration are not negative. -/
theorem redistributionWeight_val_nonneg (economy : EconomyParameters Binary64) (wallet : Wallet Binary64) :
    0 ≤ (redistributionWeight economy wallet).val := by
  have alpha (x : Binary64) : 0 ≤ (F64.max x (lit 0)).val := by
    change 0 ≤ (if x.val < (lit 0 : Binary64).val then lit 0 else x).val
    split
    · exact val_zero.ge
    · rename_i above
      rw [val_zero] at above
      exact not_lt.mp above
  have one : 0 ≤ (lit 1 : Binary64).val := toNearest_nonneg bits_pos zero_le_one
  refine toNearest_nonneg bits_pos (mul_nonneg (alpha _) ?_)
  split
  · exact Ops.powf_nonneg _ _
  · exact one

theorem settleIteration_shares_eq_flooredRewards (parameters : SystemParameters Binary64) (beta : Binary64)
    (wallets : List (Wallet Binary64)) : (settleIteration parameters beta wallets).shares =
      flooredRewards (sharedPool parameters beta wallets) (wallets.map (chargedWeight parameters wallets)) := by
  rw [settleIteration_shares_eq_map, flooredRewards_eq_map, List.map_map]
  rfl

theorem chargedWeight_val_nonneg (parameters : SystemParameters Binary64) (wallets : List (Wallet Binary64)) :
    ∀ weight ∈ wallets.map (chargedWeight parameters wallets), 0 ≤ weight.val := by
  intro weight member
  obtain ⟨wallet, -, rfl⟩ := List.mem_map.mp member
  exact redistributionWeight_val_nonneg _ _

/-- So the residual of an iteration is then really there. -/
theorem settleIteration_shares_sum_le_of_safe (parameters : SystemParameters Binary64) (beta : Binary64)
    (wallets : List (Wallet Binary64))
    (safely : RoundsSafely (sharedPool parameters beta wallets) (wallets.map (chargedWeight parameters wallets))) :
    (settleIteration parameters beta wallets).shares.sum ≤ sharedPool parameters beta wallets := by
  rw [settleIteration_shares_eq_flooredRewards]
  exact flooredRewards_sum_le_of_safe (chargedWeight_val_nonneg parameters wallets) safely

end Rewards

namespace Overspent

/-- Stand-ins: the case below takes logarithms in a quotient of equal ones, and no powers. -/
scoped instance : Ops where
  ln x := round (x.val - 1)
  powf _ _ := round 1
  powf_nonneg _ _ := toNearest_nonneg bits_pos zero_le_one
  jsonText x := toString x.val.num ++ "/" ++ toString x.val.den
  reread x := x

/-- The default parameters without the inverse-balance weight. -/
def parameters : SystemParameters Binary64 :=
  { (SystemParameters.default : SystemParameters Binary64) with
    economy := { (EconomyParameters.default : EconomyParameters Binary64) with inverseBalanceWeight := lit 0 } }

def wallet : Wallet Binary64 := .fresh "a" "a" 200000000000000220 1 0 "op"

def beta : Binary64 := (burnRate parameters.economy (measuredInflation .default)).getD (lit 0)

theorem sharedPool_eq : sharedPool parameters beta [wallet] = 9100000000000011 := by decide +kernel

theorem shares_eq : (settleIteration parameters beta [wallet]).shares = [9100000000000012] := by decide +kernel

/-- One wallet, the default parameters: it is paid one unit more than the pool, and the supply grows
by a unit that no field of the commit records. -/
theorem executeIteration_overspends :
    ∃ result, executeIteration Concrete.crypto [wallet] parameters .default "op" = .ok result ∧
      burnRate parameters.economy (measuredInflation .default) = some beta ∧
      sharedPool parameters beta [wallet] < (settleIteration parameters beta [wallet]).shares.sum ∧
      result.commit.postSupply + result.commit.burned =
        result.commit.snapshotSupply + result.commit.faucetFromMint + 1 := by
  have rated : (burnRate parameters.economy (measuredInflation .default)).isSome := by decide +kernel
  obtain ⟨none, -⟩ | ⟨rate, result, ran, valid⟩ :=
    executeIteration_cases Concrete.crypto parameters .default "op" [wallet]
  · rw [none] at rated
    cases rated
  have same : beta = rate := by rw [beta, valid.rate, Option.getD_some]
  subst same
  refine ⟨result, ran, valid.rate, ?_, ?_⟩
  · rw [sharedPool_eq, shares_eq]
    decide
  · have faucet : plannedWallets Concrete.crypto parameters .default "op" [wallet].length = [] := by decide +kernel
    rw [valid.postSupply_eq, valid.wallets_eq, valid.burned_eq, valid.snapshotSupply_eq, valid.faucetFromMint_eq, faucet]
    decide +kernel

/-- Two wallets share a pool of ten coins. -/
theorem flooredRewards_ten : (flooredRewards 10000000 [Binary64.round 1, Binary64.round (3 / 2)]).sum ≤ 10000000 := by
  have few : (min ([Binary64.round 1, Binary64.round (3 / 2)].countP fun weight => 0 < weight.val) (10000000 + 1) + 1) *
      (10000000 + 1) < 2 ^ 53 := by decide +kernel
  refine flooredRewards_sum_le_of_safe (fun weight member => ?_) (.small few)
  rcases List.mem_pair.mp member with rfl | rfl
  · exact toNearest_nonneg bits_pos (by norm_num)
  · exact toNearest_nonneg bits_pos (by norm_num)

end Overspent

end AggoraCoin
