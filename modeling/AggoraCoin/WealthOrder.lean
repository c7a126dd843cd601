import AggoraCoin.Calibration

namespace AggoraCoin

open F64 Unsigned

open NaturalLog

section Curve

variable (balances : List MicroAgc)

/-- The logarithm of a balance, in seeds of ten coins. -/
noncomputable def curveLog (balance : MicroAgc) : ℝ := Real.log (1 + (balance : ℝ) / 10000000)

/-- The penalty curve of a population with the default rate, before any calibration. -/
noncomputable def curve (balance : MicroAgc) : MicroAgc :=
  ⌊(balance : ℝ) / 20 * (curveLog balance / curveLog (largestBalance balances))⌋₊

/-- The curve over a population, as the `u64` sum it is added up in. -/
noncomputable def curveTotal : MicroAgc := wrappingSum 64 (balances.map (curve balances))

/-- A twentieth of the supply. -/
def supplyTarget : MicroAgc := wrappingSum 64 balances / 20

theorem curveLog_nonneg (balance : MicroAgc) : 0 ≤ curveLog balance :=
  Real.log_nonneg (le_add_of_nonneg_right (by positivity))

theorem curveLog_mono {poorer richer : MicroAgc} (below : poorer ≤ richer) : curveLog poorer ≤ curveLog richer := by
  have cast : (poorer : ℝ) ≤ richer := Nat.cast_le.mpr below
  refine Real.log_le_log (by positivity) ?_
  gcongr

theorem curveLog_pos {balance : MicroAgc} (inhabited : 0 < balance) : 0 < curveLog balance := by
  have cast : (0 : ℝ) < balance := Nat.cast_pos.mpr inhabited
  refine Real.log_pos (lt_add_of_pos_right 1 ?_)
  positivity

variable {balances}

/-- The logarithms of a population are at most that of the largest balance. -/
theorem curve_ratio_le {balance : MicroAgc} (member : balance ∈ balances) :
    curveLog balance / curveLog (largestBalance balances) ≤ 1 :=
  div_le_one_of_le₀ (curveLog_mono (le_largestBalance member)) (curveLog_nonneg _)

variable (balances) in
theorem curve_ratio_nonneg (balance : MicroAgc) : 0 ≤ curveLog balance / curveLog (largestBalance balances) :=
  div_nonneg (curveLog_nonneg _) (curveLog_nonneg _)

/-- The curve stays below a twentieth of the balance. -/
theorem curve_exact_le {balance : MicroAgc} (member : balance ∈ balances) :
    (balance : ℝ) / 20 * (curveLog balance / curveLog (largestBalance balances)) ≤ balance := by
  have ratio := curve_ratio_le member
  have part : (0 : ℝ) ≤ (balance : ℝ) / 20 := by positivity
  have cut := mul_le_of_le_one_right part ratio
  linarith

/-- `y ln (1 + y) - x ln (1 + x)` grows at most twice as fast as `y - x`, in units of the largest
logarithm: the chord of the logarithm is below its tangent at `x`, which is below the logarithm. -/
theorem mul_curveLog_sub_le {poorer richer : MicroAgc} (below : poorer ≤ richer) :
    (richer : ℝ) * curveLog richer - poorer * curveLog poorer ≤ 2 * ((richer : ℝ) - poorer) * curveLog richer := by
  have cast : (poorer : ℝ) ≤ richer := Nat.cast_le.mpr below
  have nonneg : (0 : ℝ) ≤ poorer := Nat.cast_nonneg _
  have low : (0 : ℝ) < 1 + (poorer : ℝ) / 10000000 := by positivity
  have high : (0 : ℝ) < 1 + (richer : ℝ) / 10000000 := by positivity
  have chord : curveLog richer - curveLog poorer ≤
      (1 + (richer : ℝ) / 10000000) / (1 + (poorer : ℝ) / 10000000) - 1 := by
    rw [curveLog, curveLog, ← Real.log_div high.ne' low.ne']
    exact Real.log_le_sub_one_of_pos (div_pos high low)
  have tangent : (poorer : ℝ) * ((1 + (richer : ℝ) / 10000000) / (1 + (poorer : ℝ) / 10000000) - 1) =
      ((richer : ℝ) - poorer) * (1 - (1 + (poorer : ℝ) / 10000000)⁻¹) := by
    field_simp
    ring
  have under : 1 - (1 + (poorer : ℝ) / 10000000)⁻¹ ≤ curveLog poorer := Real.one_sub_inv_le_log_of_pos low
  have ordered := curveLog_mono below
  have gap : 0 ≤ (richer : ℝ) - poorer := sub_nonneg.mpr cast
  have scaled := mul_le_mul_of_nonneg_left chord nonneg
  have bounded := mul_le_mul_of_nonneg_left (under.trans ordered) gap
  rw [tangent] at scaled
  calc (richer : ℝ) * curveLog richer - poorer * curveLog poorer
      = ((richer : ℝ) - poorer) * curveLog richer + poorer * (curveLog richer - curveLog poorer) := by ring
    _ ≤ ((richer : ℝ) - poorer) * curveLog richer + ((richer : ℝ) - poorer) * curveLog richer := by linarith
    _ = 2 * ((richer : ℝ) - poorer) * curveLog richer := by ring

/-- Before calibration the curve never takes more from the richer of two than what is between them. -/
theorem curve_le_add {poorer richer : Nat} (member : richer ∈ balances) (below : poorer ≤ richer) :
    curve balances richer ≤ curve balances poorer + (richer - poorer) := by
  rcases below.eq_or_lt with rfl | apart
  · exact Nat.le_add_right _ _
  have largest : 0 < curveLog (largestBalance balances) :=
    curveLog_pos ((Nat.zero_le _).trans_lt (apart.trans_le (le_largestBalance member)))
  have gap : (poorer : ℝ) < richer := Nat.cast_lt.mpr apart
  have ordered := curveLog_mono (le_largestBalance member)
  have slope : (richer : ℝ) / 20 * (curveLog richer / curveLog (largestBalance balances)) -
      poorer / 20 * (curveLog poorer / curveLog (largestBalance balances)) ≤ richer - poorer := by
    have growth := mul_curveLog_sub_le below
    have capped := mul_le_mul_of_nonneg_left ordered (sub_nonneg.mpr gap.le)
    have both : (richer : ℝ) / 20 * (curveLog richer / curveLog (largestBalance balances)) -
        poorer / 20 * (curveLog poorer / curveLog (largestBalance balances)) =
        (richer * curveLog richer - poorer * curveLog poorer) / (20 * curveLog (largestBalance balances)) := by
      field_simp
    rw [both, div_le_iff₀ (by positivity)]
    have room : 0 ≤ ((richer : ℝ) - poorer) * curveLog (largestBalance balances) :=
      mul_nonneg (sub_nonneg.mpr gap.le) largest.le
    linarith
  have upper := Nat.floor_le (mul_nonneg (show (0 : ℝ) ≤ (richer : ℝ) / 20 by positivity)
    (curve_ratio_nonneg balances richer))
  have lower := Nat.lt_floor_add_one ((poorer : ℝ) / 20 * (curveLog poorer / curveLog (largestBalance balances)))
  have close : (curve balances richer : ℝ) < (curve balances poorer + (richer - poorer) + 1 : Nat) := by
    push_cast [Nat.cast_sub below]
    unfold curve
    linarith
  exact Nat.lt_add_one_iff.mp (Nat.cast_lt.mp close)

end Curve

section Code

variable {balances : List MicroAgc}

theorem largestBalance_pos {balance : MicroAgc} (member : balance ∈ balances) (full : 0 < balance) :
    0 < largestBalance balances := full.trans_le (le_largestBalance member)

theorem logarithm_eq_curveLog (balance : MicroAgc) : logarithm 10000000 balance = curveLog balance := by
  have divisor : Nat.max 10000000 1 = 10000000 := rfl
  rw [logarithm, divisor, curveLog]
  norm_num [RealOps.ln]

/-- The raw penalty of a `u64` balance is the curve. -/
theorem rawPenalty_eq_curve {balance : MicroAgc} (member : balance ∈ balances) (bound : balance ≤ u64Max) :
    rawPenalty (EconomyParameters.default : EconomyParameters ℝ) 10000000 balances balance = curve balances balance := by
  rcases Nat.eq_zero_or_pos balance with rfl | full
  · simp [curve]
  · have inhabited := largestBalance_pos member full
    have large := natural_large inhabited
    have denominator : penaltyDenominator 10000000 (largestBalance balances) = curveLog (largestBalance balances) := by
      rw [← logarithm_eq_curveLog, penaltyDenominator_real _ (by norm_num) inhabited]
    rw [logarithm_eq_curveLog] at large
    have exactValue : (EconomyParameters.default : EconomyParameters ℝ).penaltyRate * balance *
        logarithm 10000000 balance / curveLog (largestBalance balances) =
        (balance : ℝ) / 20 * (curveLog balance / curveLog (largestBalance balances)) := by
      have rate : (EconomyParameters.default : EconomyParameters ℝ).penaltyRate = 1 / 20 := by
        norm_num [EconomyParameters.default]
      rw [rate, logarithm_eq_curveLog]
      ring
    have below := curve_exact_le member
    rw [rawPenalty, denominator, basePenalty_real _ _ large, if_neg full.ne', exactValue, floorU64_of_le below bound]
    exact min_eq_left (Nat.floor_le_of_le below)

variable (bounded : ∀ balance ∈ balances, balance ≤ u64Max)

include bounded

theorem rawTotal_eq_curveTotal :
    rawTotal (EconomyParameters.default : EconomyParameters ℝ) 10000000 balances = curveTotal balances := by
  rw [rawTotal, curveTotal,
    List.map_congr_left fun balance member => rawPenalty_eq_curve member (bounded balance member)]

omit bounded in
theorem targetPenalty_eq_supplyTarget :
    targetPenalty (EconomyParameters.default : EconomyParameters ℝ) balances = supplyTarget balances := by
  have value : mul (EconomyParameters.default : EconomyParameters ℝ).targetPenaltyShareOfSupply
      (ofNat (wrappingSum 64 balances)) = (wrappingSum 64 balances : ℝ) / (20 : Nat) := by
    norm_num [EconomyParameters.default]
    ring
  have floored : ⌊(wrappingSum 64 balances : ℝ) / (20 : Nat)⌋₊ = supplyTarget balances := Nat.floor_div_eq_div _ _
  rw [targetPenalty, value, floorU64_real, floored]
  exact min_eq_left ((Nat.div_le_self _ _).trans (wrappingSum_le _))

/-- Scaling and rounding down is a division of words. -/
theorem finalPenalty_scaled (rescales : Rescales (EconomyParameters.default : EconomyParameters ℝ) 10000000 balances)
    {balance : MicroAgc} (member : balance ∈ balances) :
    finalPenalty (EconomyParameters.default : EconomyParameters ℝ) 10000000 balances balance =
      min (curve balances balance * supplyTarget balances / curveTotal balances) balance := by
  have raw := rawPenalty_eq_curve member (bounded balance member)
  have scaled : (curve balances balance : ℝ) * penaltyScale EconomyParameters.default 10000000 balances =
      (curve balances balance * supplyTarget balances : Nat) / (curveTotal balances : Nat) := by
    rw [penaltyScale_real, targetPenalty_eq_supplyTarget, rawTotal_eq_curveTotal bounded]
    push_cast
    ring
  rw [finalPenalty_rescaled rescales, raw, scaled, floorU64_real, Nat.floor_div_eq_div]
  exact (min_assoc _ _ _).trans (congrArg _ (min_eq_right (bounded balance member)))

theorem finalPenalty_unscaled
    (kept : ¬ Rescales (EconomyParameters.default : EconomyParameters ℝ) 10000000 balances)
    {balance : MicroAgc} (member : balance ∈ balances) :
    finalPenalty (EconomyParameters.default : EconomyParameters ℝ) 10000000 balances balance =
      curve balances balance := by
  rw [finalPenalty_kept kept, rawPenalty_eq_curve member (bounded balance member)]

end Code

section Order

variable (balances : List MicroAgc)

/-- No wallet falls behind a poorer one. -/
def KeepsOrder (charge : MicroAgc → MicroAgc) : Prop :=
  ∀ poorer ∈ balances, ∀ richer ∈ balances, poorer ≤ richer → poorer - charge poorer ≤ richer - charge richer

/-- The curve brings in at least four fifths of the target, so calibration scales nothing up. -/
def NotScaledUp : Prop := curveTotal balances = 0 ∨ 4 * supplyTarget balances ≤ 5 * curveTotal balances

/-- Scaled up to the target, the curve takes no more from the richer of two than what is between
them, wherever it leaves the poorer one something. -/
def Spaced : Prop :=
  ∀ poorer ∈ balances, ∀ richer ∈ balances, poorer ≤ richer →
    curve balances poorer * supplyTarget balances / curveTotal balances < poorer →
    curve balances richer * supplyTarget balances / curveTotal balances ≤
      curve balances poorer * supplyTarget balances / curveTotal balances + (richer - poorer)

/-- Scaling down and rounding down brings two penalties no further apart. -/
theorem scaledDown_le_add {less more gap target total : Nat} (apart : more ≤ less + gap) (down : target ≤ total)
    (positive : 0 < total) : more * target / total ≤ less * target / total + gap := by
  calc more * target / total ≤ (less * target + gap * total) / total := by
        refine Nat.div_le_div_right ?_
        calc more * target ≤ (less + gap) * target := Nat.mul_le_mul_right _ apart
          _ = less * target + gap * target := Nat.add_mul _ _ _
          _ ≤ less * target + gap * total := Nat.add_le_add_left (Nat.mul_le_mul_left _ down) _
    _ = less * target / total + gap := Nat.add_mul_div_right _ _ positive

/-- Two charges no further apart than the balances keep the order. -/
theorem sub_le_sub_of_le_add {poorer richer less more : Nat} (below : poorer ≤ richer)
    (apart : more ≤ less + (richer - poorer)) : poorer - less ≤ richer - more := by
  omega

/-- Capped at the balances, they keep it also where the poorer one pays everything. -/
theorem sub_min_le_iff {poorer richer less more : Nat} (below : poorer ≤ richer) :
    poorer - min less poorer ≤ richer - min more richer ↔ (less < poorer → more ≤ less + (richer - poorer)) := by
  omega

variable {balances} (bounded : ∀ balance ∈ balances, balance ≤ u64Max)

include bounded

/-- Where the second pass runs and only scales down, the penalties keep the order. -/
theorem keepsOrder_of_notScaledUp (calm : NotScaledUp balances) :
    KeepsOrder balances (finalPenalty (EconomyParameters.default : EconomyParameters ℝ) 10000000 balances) := by
  intro poorer poor richer rich below
  have apart := curve_le_add rich below
  by_cases rescales : Rescales (EconomyParameters.default : EconomyParameters ℝ) 10000000 balances
  · rw [finalPenalty_scaled bounded rescales poor, finalPenalty_scaled bounded rescales rich]
    rw [rescales_iff, rawTotal_eq_curveTotal bounded, targetPenalty_eq_supplyTarget] at rescales
    obtain ⟨something, wanted, far⟩ := rescales
    have near : 4 * supplyTarget balances ≤ 5 * curveTotal balances := calm.resolve_left something.ne'
    have down : supplyTarget balances ≤ curveTotal balances := by
      by_contra up
      have above : (curveTotal balances : ℝ) < supplyTarget balances := Nat.cast_lt.mpr (not_le.mp up)
      have close : (4 : ℝ) * supplyTarget balances ≤ 5 * curveTotal balances := by exact_mod_cast near
      rw [abs_of_neg (sub_neg.mpr above)] at far
      linarith
    exact (sub_min_le_iff below).mpr fun _ => scaledDown_le_add apart down something
  · rw [finalPenalty_unscaled bounded rescales poor, finalPenalty_unscaled bounded rescales rich]
    exact sub_le_sub_of_le_add below apart

/-- Where the second pass scales up, the order is kept exactly by a population that is spaced. -/
theorem keepsOrder_iff_spaced (up : ¬ NotScaledUp balances) :
    KeepsOrder balances (finalPenalty (EconomyParameters.default : EconomyParameters ℝ) 10000000 balances) ↔
      Spaced balances := by
  obtain ⟨something, short⟩ := not_or.mp up
  have rescales : Rescales (EconomyParameters.default : EconomyParameters ℝ) 10000000 balances := by
    rw [rescales_iff, rawTotal_eq_curveTotal bounded, targetPenalty_eq_supplyTarget]
    have cast : (5 : ℝ) * curveTotal balances < 4 * supplyTarget balances := by exact_mod_cast not_le.mp short
    have total : (0 : ℝ) ≤ curveTotal balances := Nat.cast_nonneg _
    refine ⟨Nat.pos_of_ne_zero something, ?_, ?_⟩
    · have wanted : (0 : ℝ) < supplyTarget balances := by linarith
      exact_mod_cast wanted
    rw [abs_of_neg (by linarith)]
    linarith
  refine forall₂_congr fun poorer poor => forall₂_congr fun richer rich => forall_congr' fun below => ?_
  rw [finalPenalty_scaled bounded rescales poor, finalPenalty_scaled bounded rescales rich]
  exact sub_min_le_iff below

theorem keepsOrder_iff :
    KeepsOrder balances (finalPenalty (EconomyParameters.default : EconomyParameters ℝ) 10000000 balances) ↔
      NotScaledUp balances ∨ Spaced balances := by
  by_cases calm : NotScaledUp balances
  · exact iff_of_true (keepsOrder_of_notScaledUp bounded calm) (Or.inl calm)
  · rw [keepsOrder_iff_spaced bounded calm]
    exact ⟨Or.inr, fun either => either.resolve_left calm⟩

end Order

section Commit

/-- By the penalties a commit lists, no wallet is left with less than a poorer one. -/
def IterationResult.KeepsWealthOrder (result : IterationResult ℝ) (wallets : List (Wallet ℝ)) : Prop :=
  ∀ (i j : Nat) (poorer richer : Wallet ℝ) (penalty penaltyRicher : MicroAgc),
    wallets[i]? = some poorer → wallets[j]? = some richer →
    result.commit.penalties[i]? = some (poorer.id, penalty) →
    result.commit.penalties[j]? = some (richer.id, penaltyRicher) →
    poorer.balance ≤ richer.balance → poorer.balance - penalty ≤ richer.balance - penaltyRicher

variable {C : Crypto} {parameters : SystemParameters ℝ} {state : SystemState ℝ} {operatorId : OperatorId}
  {wallets : List (Wallet ℝ)} {beta : ℝ} {result : IterationResult ℝ}

theorem microSeed_default (default : parameters.economy = .default) : microSeed parameters = 10000000 := by
  have seed : parameters.economy.initialSeedAgc = 10 := by rw [default]; rfl
  have fits : 10 * microAgcPerAgc ≤ maxValue 64 := by norm_num [microAgcPerAgc, maxValue]
  rw [microSeed, seed]
  exact saturatingMul_of_le fits

theorem IterationResult.Valid.penalty_getElem (valid : result.Valid C parameters state operatorId wallets beta)
    (default : parameters.economy = .default) {i : Nat} {wallet : Wallet ℝ} (found : wallets[i]? = some wallet) :
    result.commit.penalties[i]? = some (wallet.id,
      finalPenalty (EconomyParameters.default : EconomyParameters ℝ) 10000000 (wallets.map Wallet.balance)
        wallet.balance) := by
  rw [valid.penalties_eq, settleIteration_penalties_eq_map, List.zip_map', List.getElem?_map, found,
    microSeed_default default, default]
  rfl

theorem IterationResult.Valid.keepsWealthOrder_iff (valid : result.Valid C parameters state operatorId wallets beta)
    (default : parameters.economy = .default) :
    result.KeepsWealthOrder wallets ↔
      KeepsOrder (wallets.map Wallet.balance)
        (finalPenalty (EconomyParameters.default : EconomyParameters ℝ) 10000000 (wallets.map Wallet.balance)) := by
  constructor
  · intro kept poorer poor richer rich below
    obtain ⟨low, lowIn, rfl⟩ := List.mem_map.mp poor
    obtain ⟨high, highIn, rfl⟩ := List.mem_map.mp rich
    obtain ⟨i, atLow⟩ := List.mem_iff_getElem?.mp lowIn
    obtain ⟨j, atHigh⟩ := List.mem_iff_getElem?.mp highIn
    exact kept i j low high _ _ atLow atHigh (valid.penalty_getElem default atLow) (valid.penalty_getElem default atHigh)
      below
  · intro kept i j poorer richer penalty penaltyRicher atPoorer atRicher listed listedRicher below
    rw [valid.penalty_getElem default atPoorer] at listed
    rw [valid.penalty_getElem default atRicher] at listedRicher
    rw [← (Prod.mk.inj (Option.some.inj listed)).2, ← (Prod.mk.inj (Option.some.inj listedRicher)).2]
    exact kept _ (List.mem_map_of_mem (List.mem_of_getElem? atPoorer)) _
      (List.mem_map_of_mem (List.mem_of_getElem? atRicher)) below

/-- Under the default economy the penalties of a commit keep the wealth order exactly where
calibration scales nothing up, or the population is spaced. -/
theorem executeIteration_keepsWealthOrder_iff (C : Crypto) (parameters : SystemParameters ℝ) (state : SystemState ℝ)
    (operatorId : OperatorId) (wallets : List (Wallet ℝ)) {result : IterationResult ℝ}
    (default : parameters.economy = .default) (bounded : ∀ wallet ∈ wallets, wallet.balance ≤ u64Max)
    (ran : executeIteration C wallets parameters state operatorId = .ok result) :
    result.KeepsWealthOrder wallets ↔
      NotScaledUp (wallets.map Wallet.balance) ∨ Spaced (wallets.map Wallet.balance) := by
  obtain ⟨beta, valid⟩ := IterationResult.valid_of_ran ran
  rw [valid.keepsWealthOrder_iff default]
  exact keepsOrder_iff (by simpa using bounded)

/-- Where the balances bring in four fifths of the target by themselves, no wallet falls behind a poorer
one. -/
theorem executeIteration_keepsWealthOrder (C : Crypto) (parameters : SystemParameters ℝ) (state : SystemState ℝ)
    (operatorId : OperatorId) (wallets : List (Wallet ℝ)) {result : IterationResult ℝ}
    (default : parameters.economy = .default) (bounded : ∀ wallet ∈ wallets, wallet.balance ≤ u64Max)
    (calm : NotScaledUp (wallets.map Wallet.balance))
    (ran : executeIteration C wallets parameters state operatorId = .ok result) : result.KeepsWealthOrder wallets := by
  obtain ⟨beta, valid⟩ := IterationResult.valid_of_ran ran
  exact (valid.keepsWealthOrder_iff default).mpr (keepsOrder_of_notScaledUp (by simpa using bounded) calm)

end Commit

namespace Crushed

noncomputable def rich : Wallet ℝ := .fresh "rich" "rich" 20 1 0 "op"

noncomputable def poor (n : Nat) : Wallet ℝ := .fresh (toString n) (toString n) 19 1 0 "op"

noncomputable def wallets : List (Wallet ℝ) := rich :: (List.range 20).map poor

def balances : List MicroAgc := 20 :: List.replicate 20 19

theorem balances_eq : wallets.map Wallet.balance = balances := by
  rw [wallets, List.map_cons, List.map_map]
  rfl

theorem largest_eq : largestBalance balances = 20 := rfl

theorem curve_rich : curve balances 20 = 1 := by
  have logs : curveLog 20 ≠ 0 := (curveLog_pos (by norm_num)).ne'
  rw [curve, largest_eq, div_self logs]
  norm_num

theorem curve_poor : curve balances 19 = 0 := by
  have ratio := curve_ratio_le (show 19 ∈ balances by simp [balances])
  rw [curve, Nat.floor_eq_zero]
  have part := mul_le_mul_of_nonneg_left ratio (show (0 : ℝ) ≤ 19 / 20 by norm_num)
  push_cast
  linarith

theorem curveTotal_eq : curveTotal balances = 1 := by
  have each : balances.map (curve balances) = 1 :: List.replicate 20 0 := by
    rw [balances, List.map_cons, List.map_replicate, ← balances, curve_rich, curve_poor]
  rw [curveTotal, each]
  rfl

theorem supplyTarget_eq : supplyTarget balances = 20 := rfl

theorem bounded : ∀ balance ∈ balances, balance ≤ u64Max := by
  intro balance member
  have small : balance ≤ 20 := le_largestBalance member
  exact small.trans (by norm_num [maxValue])

theorem rescales : Rescales (EconomyParameters.default : EconomyParameters ℝ) 10000000 balances := by
  rw [rescales_iff, rawTotal_eq_curveTotal bounded, targetPenalty_eq_supplyTarget, curveTotal_eq, supplyTarget_eq]
  norm_num

theorem finalPenalty_rich :
    finalPenalty (EconomyParameters.default : EconomyParameters ℝ) 10000000 balances 20 = 20 := by
  rw [finalPenalty_scaled bounded rescales (by simp [balances]), curve_rich, curveTotal_eq, supplyTarget_eq]
  rfl

theorem finalPenalty_poor :
    finalPenalty (EconomyParameters.default : EconomyParameters ℝ) 10000000 balances 19 = 0 := by
  rw [finalPenalty_scaled bounded rescales (by simp [balances]), curve_poor, curveTotal_eq, supplyTarget_eq]
  rfl

/-- The richest wallet pays all of its 20 units; the twenty wallets of 19 pay nothing. -/
theorem executeIteration_crushes :
    ∃ result, executeIteration Concrete.crypto wallets .default .default "op" = .ok result ∧
      result.commit.penalties[0]? = some ("rich", 20) ∧ result.commit.penalties[1]? = some ("0", 0) ∧
      ¬ result.KeepsWealthOrder wallets := by
  obtain ⟨beta, result, ran, valid⟩ := executeIteration_returns Concrete.crypto .default .default "op" wallets default_bounds
  have atRich : wallets[0]? = some rich := rfl
  have atPoor : wallets[1]? = some (poor 0) := rfl
  have charged := valid.penalty_getElem rfl atRich
  have spared := valid.penalty_getElem rfl atPoor
  rw [balances_eq] at charged spared
  rw [show rich.balance = 20 from rfl, finalPenalty_rich] at charged
  rw [show (poor 0).balance = 19 from rfl, finalPenalty_poor] at spared
  refine ⟨result, ran, charged, spared, fun kept => ?_⟩
  have behind := kept 1 0 (poor 0) rich 0 20 atPoor atRich spared charged (show 19 ≤ 20 by norm_num)
  exact absurd behind (show ¬ 19 - 0 ≤ 20 - 20 by norm_num)

/-- Beside a wallet of ten coins the one of 20 units scales nothing up. -/
theorem notScaledUp_saver : NotScaledUp [10000000, 20] := by
  have largest : largestBalance [10000000, 20] = 10000000 := rfl
  have logs : curveLog 10000000 ≠ 0 := (curveLog_pos (by norm_num)).ne'
  have most : curve [10000000, 20] 10000000 = 500000 := by
    rw [curve, largest, div_self logs]
    norm_num
  have rest : curve [10000000, 20] 20 ≤ 20 := Nat.floor_le_of_le (curve_exact_le (by simp))
  have total : curveTotal [10000000, 20] = 500000 + curve [10000000, 20] 20 := by
    rw [curveTotal, List.map_cons, List.map_singleton, most]
    exact wrappingSum_of_le ((Nat.add_le_add_left rest _).trans (by norm_num [maxValue]))
  have target : supplyTarget [10000000, 20] = 500001 := rfl
  have enough : 4 * 500001 ≤ 5 * 500000 := by norm_num
  refine Or.inr ?_
  rw [total, target]
  exact enough.trans (Nat.mul_le_mul_left 5 (Nat.le_add_right _ _))

noncomputable def saver : Wallet ℝ := .fresh "saver" "saver" 10000000 1 0 "op"

theorem executeIteration_keeps :
    ∃ result, executeIteration Concrete.crypto [saver, rich] .default .default "op" = .ok result ∧
      result.KeepsWealthOrder [saver, rich] := by
  obtain ⟨beta, result, ran, -⟩ :=
    executeIteration_returns Concrete.crypto .default .default "op" [saver, rich] default_bounds
  have small : ∀ wallet ∈ [saver, rich], wallet.balance ≤ u64Max := by
    intro wallet member
    rcases List.mem_pair.mp member with rfl | rfl
    · exact (show 10000000 ≤ maxValue 64 by norm_num [maxValue])
    · exact (show 20 ≤ maxValue 64 by norm_num [maxValue])
  exact ⟨result, ran, executeIteration_keepsWealthOrder _ _ _ _ _ rfl small notScaledUp_saver ran⟩

end Crushed

end AggoraCoin
