import AggoraCoin.Lib.Unsigned

namespace AggoraCoin

/-- The operations of `f64` that the node uses, over any carrier. Nothing is assumed about
rounding, infinities or NaN, only the range of the `as u64` cast is. -/
class F64 (F : Type) where
  /-- `x as f64` from an unsigned integer. -/
  ofNat : Nat → F
  /-- A decimal literal of the source. -/
  lit : ℚ → F
  add : F → F → F
  sub : F → F → F
  mul : F → F → F
  div : F → F → F
  neg : F → F
  ln : F → F
  powf : F → F → F
  max : F → F → F
  lt : F → F → Bool
  le : F → F → Bool
  /-- `x.floor() as u64`, saturating at both ends. -/
  floorU64 : F → Nat
  /-- The text `serde_json` writes for the number. -/
  jsonText : F → String
  /-- What `serde_json` reads of that text: without its `float_roundtrip` feature, not always the
  number that was written. -/
  reread : F → F
  floorU64_le : ∀ x, floorU64 x ≤ Unsigned.maxValue 64

namespace F64

variable {F : Type} [F64 F]

/-- `f64::clamp`, which panics (`none`) unless `low <= high`. -/
def clamp (x low high : F) : Option F :=
  if le low high then
    let x := if lt x low then low else x
    some (if lt high x then high else x)
  else none

/-- `.clamp(0.0, 1.0)`: the bounds are literals in order, so this one never panics. -/
def clampUnit (x : F) : F :=
  let x := if lt x (lit 0) then lit 0 else x
  if lt (lit 1) x then lit 1 else x

theorem isSome_clamp_iff {x low high : F} : (clamp x low high).isSome ↔ le low high = true := by
  unfold clamp
  split <;> simp_all

/-- `iter().sum()` over floats. -/
def sum (values : List F) : F := values.foldl add (lit 0)

/-- `f64::EPSILON`. -/
def epsilon : F := lit (1 / 2 ^ 52)

end F64

end AggoraCoin
