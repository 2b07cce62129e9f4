import Mathlib.Algebra.Order.Field.Rat
import Mathlib.Algebra.Order.Floor.Ring
import Mathlib.Data.Nat.Log
import Mathlib.Data.Rat.Floor
import Mathlib.Tactic.FieldSimp
import Mathlib.Tactic.Linarith
import Mathlib.Tactic.Positivity
import Mathlib.Tactic.Ring

/-!
# Rounding to a binary floating-point format

A format holds the numbers `m * 2^e` with a bounded integer significand and a bounded
exponent.  A rational is rounded to a nearest such number, ties going to the even
significand, or to an infinity beyond the largest one.  The one fact comparisons need
is that no number of the format lies between a rational and its rounding.
-/

namespace LakehouseEngine.BinaryFloat

/-- A power of two. -/
def pow2 (exponent : ℤ) : ℚ :=
  if 0 ≤ exponent then 2 ^ exponent.toNat else 1 / 2 ^ (-exponent).toNat

theorem pow2_eq_zpow (exponent : ℤ) : pow2 exponent = (2 : ℚ) ^ exponent := by
  unfold pow2
  split
  · next nonneg =>
      conv_rhs => rw [← Int.toNat_of_nonneg nonneg]
      rw [zpow_natCast]
  · next negative =>
      have positive : 0 ≤ -exponent := by omega
      conv_rhs => rw [show exponent = -((-exponent).toNat : ℤ) by omega]
      rw [zpow_neg, zpow_natCast, one_div]

theorem pow2_pos (exponent : ℤ) : 0 < pow2 exponent := by
  rw [pow2_eq_zpow]
  exact zpow_pos (by norm_num) _

theorem pow2_add (left right : ℤ) : pow2 (left + right) = pow2 left * pow2 right := by
  simp only [pow2_eq_zpow]
  exact zpow_add₀ (by norm_num) left right

theorem pow2_le_pow2 {left right : ℤ} (le : left ≤ right) : pow2 left ≤ pow2 right := by
  simp only [pow2_eq_zpow]
  exact zpow_le_zpow_right₀ (by norm_num) le

theorem pow2_natCast (exponent : Nat) : pow2 exponent = 2 ^ exponent := by
  rw [pow2_eq_zpow, zpow_natCast]

/-- The binary logarithm of a positive rational, rounded down. -/
def floorLog2 (value : ℚ) : ℤ :=
  let estimate := (value.num.natAbs.log2 : ℤ) - value.den.log2
  if pow2 estimate ≤ value then estimate else estimate - 1

theorem log2_bounds (value : Nat) (positive : value ≠ 0) :
    pow2 value.log2 ≤ value ∧ (value : ℚ) < pow2 (value.log2 + 1) := by
  constructor
  · rw [pow2_natCast]
    exact_mod_cast Nat.log2_self_le positive
  · rw [show (value.log2 : ℤ) + 1 = ((value.log2 + 1 : ℕ) : ℤ) by push_cast; rfl, pow2_natCast]
    exact_mod_cast Nat.lt_log2_self

theorem floorLog2_spec {value : ℚ} (positive : 0 < value) :
    pow2 (floorLog2 value) ≤ value ∧ value < pow2 (floorLog2 value + 1) := by
  have numerator : 0 < value.num := Rat.num_pos.mpr positive
  have numCast : (value.num.natAbs : ℚ) = value.num := by
    rw [Nat.cast_natAbs, abs_of_pos numerator]
  have ratio : value * value.den = value.num.natAbs := by rw [numCast, Rat.mul_den_eq_num]
  obtain ⟨numLow, numHigh⟩ := log2_bounds value.num.natAbs (by omega)
  obtain ⟨denLow, denHigh⟩ := log2_bounds value.den value.den_ne_zero
  have denPos : (0 : ℚ) < value.den := by exact_mod_cast value.den_pos
  set a : ℤ := (value.num.natAbs.log2 : ℤ) with aDef
  set b : ℤ := (value.den.log2 : ℤ) with bDef
  have upper : value < pow2 (a - b + 1) := by
    have split : pow2 (a + 1) = pow2 (a - b + 1) * pow2 b := by rw [← pow2_add]; congr 1; ring
    have : value * value.den < pow2 (a - b + 1) * value.den :=
      calc value * value.den < pow2 (a - b + 1) * pow2 b := by rw [ratio, ← split]; exact numHigh
        _ ≤ pow2 (a - b + 1) * value.den := mul_le_mul_of_nonneg_left denLow (pow2_pos _).le
    exact lt_of_mul_lt_mul_right this denPos.le
  have lower : pow2 (a - b - 1) ≤ value := by
    have split : pow2 a = pow2 (a - b - 1) * pow2 (b + 1) := by rw [← pow2_add]; congr 1; ring
    have : pow2 (a - b - 1) * value.den ≤ value * value.den :=
      calc pow2 (a - b - 1) * value.den ≤ pow2 (a - b - 1) * pow2 (b + 1) :=
            mul_le_mul_of_nonneg_left denHigh.le (pow2_pos _).le
        _ ≤ value * value.den := by rw [ratio, ← split]; exact numLow
    exact le_of_mul_le_mul_right this denPos
  simp only [floorLog2, ← aDef, ← bDef]
  split
  · next fits => exact ⟨fits, upper⟩
  · next exceeds =>
      refine ⟨lower, ?_⟩
      rw [sub_add_cancel]
      exact not_le.mp exceeds

/-- The nearest integer, ties going to the even one. -/
def roundEven (value : ℚ) : ℤ :=
  let below := ⌊value⌋
  let rest := value - below
  if rest < 1 / 2 ∨ (rest = 1 / 2 ∧ below % 2 = 0) then below else below + 1

theorem roundEven_error (value : ℚ) : |value - roundEven value| ≤ 1 / 2 := by
  have low := Int.floor_le value
  have high := Int.lt_floor_add_one value
  unfold roundEven
  dsimp only
  split
  · next down =>
      rw [abs_of_nonneg (by linarith)]
      rcases down with less | ⟨equal, -⟩ <;> linarith
  · next up =>
      have half : 1 / 2 ≤ value - ⌊value⌋ := by
        by_contra less
        exact up (.inl (not_le.mp less))
      push_cast
      rw [abs_of_nonpos (by linarith)]
      linarith

theorem roundEven_nearest (value : ℚ) (other : ℤ) :
    |value - roundEven value| ≤ |value - other| := by
  have error := roundEven_error value
  rcases eq_or_ne other (roundEven value) with same | different
  · rw [same]
  · have apart : (1 : ℚ) ≤ |(roundEven value : ℚ) - other| := by
      have : 1 ≤ |roundEven value - other| :=
        Int.one_le_abs (sub_ne_zero.mpr different.symm)
      exact_mod_cast this
    have triangle := abs_sub_le (roundEven value : ℚ) value other
    rw [abs_sub_comm (roundEven value : ℚ) value] at triangle
    linarith

/-- A binary format: the bits of its significand and the range of its exponent. -/
structure Format where
  precision : Nat
  minExponent : ℤ
  maxExponent : ℤ
  valid : 1 ≤ precision ∧ minExponent ≤ maxExponent

/-- The 32-bit format. -/
def binary32 : Format := ⟨24, -149, 104, by decide⟩

/-- The 64-bit format. -/
def binary64 : Format := ⟨53, -1074, 971, by decide⟩

/-- A rational after rounding. -/
inductive Rounded where
  | finite (value : ℚ)
  | positiveInfinity
  | negativeInfinity
  deriving DecidableEq

namespace Format

variable (format : Format)

/-- The numbers a format holds if its exponent had no upper bound. -/
def IsUnbounded (value : ℚ) : Prop :=
  ∃ significand exponent : ℤ, format.minExponent ≤ exponent ∧
    |significand| < 2 ^ format.precision ∧ value = significand * pow2 exponent

/-- The numbers a format holds. -/
def IsValue (value : ℚ) : Prop :=
  ∃ significand exponent : ℤ, format.minExponent ≤ exponent ∧ exponent ≤ format.maxExponent ∧
    |significand| < 2 ^ format.precision ∧ value = significand * pow2 exponent

/-- The largest number of a format. -/
def largest : ℚ := (2 ^ format.precision - 1) * pow2 format.maxExponent

/-- The exponent of the unit in the last place of a number near `value`. -/
def quantum (value : ℚ) : ℤ :=
  max format.minExponent (floorLog2 |value| - (format.precision - 1))

/-- Rounding with no upper bound on the exponent. -/
def roundUnbounded (value : ℚ) : ℚ :=
  if value = 0 then 0
  else roundEven (value / pow2 (format.quantum value)) * pow2 (format.quantum value)

/-- Rounding to a nearest number of the format. -/
def round (value : ℚ) : Rounded :=
  let rounded := format.roundUnbounded value
  if format.largest < rounded then .positiveInfinity
  else if rounded < -format.largest then .negativeInfinity
  else .finite rounded

variable {format}

variable {value : ℚ}

theorem IsValue.unbounded (isValue : format.IsValue value) :
    format.IsUnbounded value := by
  obtain ⟨significand, exponent, low, -, bounded, equal⟩ := isValue
  exact ⟨significand, exponent, low, bounded, equal⟩

theorem IsValue.le_largest (isValue : format.IsValue value) :
    |value| ≤ format.largest := by
  obtain ⟨significand, exponent, -, high, bounded, rfl⟩ := isValue
  rw [abs_mul, abs_of_pos (pow2_pos exponent), largest]
  have significandLe : |(significand : ℚ)| ≤ 2 ^ format.precision - 1 := by
    have : |significand| ≤ 2 ^ format.precision - 1 := by omega
    exact_mod_cast this
  have nonneg : (0 : ℚ) ≤ 2 ^ format.precision - 1 := le_trans (abs_nonneg _) significandLe
  exact mul_le_mul significandLe (pow2_le_pow2 high) (pow2_pos _).le nonneg

/-- Rounding without an upper bound gives a nearest number. -/
theorem roundUnbounded_nearest (value : ℚ) {other : ℚ} (isOther : format.IsUnbounded other) :
    |value - format.roundUnbounded value| ≤ |value - other| := by
  unfold roundUnbounded
  split
  · next zero => simp [zero]
  · next nonzero =>
      set unit := pow2 (format.quantum value) with unitDef
      have unitPos : 0 < unit := pow2_pos _
      -- Multiples of the unit are no closer than the rounded one.
      have multiple (n : ℤ) :
          |value - roundEven (value / unit) * unit| ≤ |value - n * unit| := by
        have nearest := roundEven_nearest (value / unit) n
        have scaled (m : ℤ) : value - m * unit = (value / unit - m) * unit := by
          field_simp
        rw [scaled, scaled, abs_mul, abs_mul]
        exact mul_le_mul_of_nonneg_right nearest (abs_nonneg _)
      obtain ⟨significand, exponent, low, bounded, rfl⟩ := isOther
      rcases le_or_gt (format.quantum value) exponent with fine | coarse
      · -- A coarser number is a multiple of the unit.
        have isMultiple : (significand : ℚ) * pow2 exponent =
            ((significand * 2 ^ (exponent - format.quantum value).toNat : ℤ) : ℚ) * unit := by
          push_cast
          rw [mul_assoc, ← pow2_natCast, unitDef, ← pow2_add]
          congr 2
          omega
        rw [isMultiple]
        exact multiple _
      · -- A finer number lies on the far side of the least normal number of this unit.
        have normal : format.quantum value = floorLog2 |value| - (format.precision - 1) := by
          unfold quantum at coarse ⊢
          omega
        have leastLe : 2 ^ (format.precision - 1) * unit ≤ |value| := by
          have spec := (floorLog2_spec (abs_pos.mpr nonzero)).1
          have split : floorLog2 |value| =
              ((format.precision - 1 : ℕ) : ℤ) + format.quantum value := by
            have := format.valid.1
            omega
          rwa [split, pow2_add, pow2_natCast] at spec
        have otherLe : |(significand : ℚ) * pow2 exponent| ≤ 2 ^ (format.precision - 1) * unit := by
          rw [abs_mul, abs_of_pos (pow2_pos exponent)]
          have significandLe : |(significand : ℚ)| ≤ 2 ^ format.precision := by
            exact_mod_cast bounded.le
          have unitSplit : unit = 2 * pow2 (format.quantum value - 1) := by
            rw [unitDef, show (2 : ℚ) = pow2 1 from rfl, ← pow2_add]
            congr 1
            ring
          have powerSplit : (2 : ℚ) ^ format.precision = 2 ^ (format.precision - 1) * 2 := by
            rw [← pow_succ, Nat.sub_add_cancel format.valid.1]
          calc |(significand : ℚ)| * pow2 exponent
              ≤ 2 ^ format.precision * pow2 (format.quantum value - 1) :=
                mul_le_mul significandLe (pow2_le_pow2 (by omega)) (pow2_pos _).le (by positivity)
            _ = 2 ^ (format.precision - 1) * unit := by rw [powerSplit, unitSplit]; ring
        have reverse := abs_sub_abs_le_abs_sub value ((significand : ℚ) * pow2 exponent)
        rcases lt_or_gt_of_ne nonzero with negative | positive
        · refine le_trans (multiple (-2 ^ (format.precision - 1))) ?_
          rw [abs_of_neg negative] at leastLe reverse
          push_cast
          rw [abs_of_nonpos (by linarith)]
          linarith
        · refine le_trans (multiple (2 ^ (format.precision - 1))) ?_
          rw [abs_of_pos positive] at leastLe reverse
          push_cast
          rw [abs_of_nonneg (by linarith)]
          linarith

/-- What comparing with a rounded number needs: no number of the format lies between the
original and the rounded one, and an infinity lies beyond all of them. -/
def Separates (format : Format) (value : ℚ) : Rounded → Prop
  | .finite rounded => format.IsValue rounded ∧ ∀ other, format.IsValue other →
      (other < rounded → other < value) ∧ (rounded < other → value < other)
  | .positiveInfinity => ∀ other, format.IsValue other → other < value
  | .negativeInfinity => ∀ other, format.IsValue other → value < other

theorem lt_of_lt_nearest {rounded other : ℚ}
    (nearest : |value - rounded| ≤ |value - other|) (less : other < rounded) : other < value := by
  by_contra notLess
  have low := not_lt.mp notLess
  rw [abs_of_nonpos (by linarith), abs_of_nonpos (by linarith)] at nearest
  linarith

theorem lt_of_nearest_lt {rounded other : ℚ}
    (nearest : |value - rounded| ≤ |value - other|) (less : rounded < other) : value < other := by
  by_contra notLess
  have high := not_lt.mp notLess
  rw [abs_of_nonneg (by linarith), abs_of_nonneg (by linarith)] at nearest
  linarith

theorem abs_roundEven_le {bound : ℤ} (le : |value| ≤ bound) :
    |roundEven value| ≤ bound := by
  obtain ⟨low, high⟩ := abs_le.mp le
  refine abs_le.mpr ⟨?_, ?_⟩
  · by_contra less
    have := lt_of_nearest_lt (roundEven_nearest value (-bound))
      (by exact_mod_cast not_le.mp less)
    push_cast at this
    linarith
  · by_contra greater
    have := lt_of_lt_nearest (roundEven_nearest value bound)
      (by exact_mod_cast not_le.mp greater)
    linarith

theorem le_abs_roundEven {bound : ℤ} (le : bound ≤ |value|) :
    bound ≤ |roundEven value| := by
  by_contra less
  obtain ⟨low, high⟩ := abs_lt.mp (not_le.mp less)
  rcases le_abs.mp le with above | below
  · have := lt_of_nearest_lt (roundEven_nearest value bound) (by exact_mod_cast high)
    linarith
  · have := lt_of_lt_nearest (roundEven_nearest value (-bound)) (by exact_mod_cast low)
    push_cast at this
    linarith

theorem largest_lt (format : Format) :
    format.largest < 2 ^ format.precision * pow2 format.maxExponent := by
  unfold largest
  nlinarith [pow2_pos format.maxExponent]

/-- The scaled number has at most `precision` bits before its point. -/
theorem abs_div_quantum_le (format : Format) (nonzero : value ≠ 0) :
    |value / pow2 (format.quantum value)| ≤ ((2 ^ format.precision : ℤ) : ℚ) := by
  rw [abs_div, abs_of_pos (pow2_pos _), div_le_iff₀ (pow2_pos _)]
  refine le_trans (floorLog2_spec (abs_pos.mpr nonzero)).2.le ?_
  push_cast
  rw [← pow2_natCast, ← pow2_add]
  apply pow2_le_pow2
  unfold quantum
  omega

/-- Above the least exponent the scaled number uses all `precision` bits. -/
theorem le_abs_div_quantum (format : Format) (nonzero : value ≠ 0)
    (normal : format.minExponent < format.quantum value) :
    ((2 ^ (format.precision - 1) : ℤ) : ℚ) ≤ |value / pow2 (format.quantum value)| := by
  rw [abs_div, abs_of_pos (pow2_pos _), le_div_iff₀ (pow2_pos _)]
  refine le_trans ?_ (floorLog2_spec (abs_pos.mpr nonzero)).1
  push_cast
  rw [← pow2_natCast, ← pow2_add]
  apply pow2_le_pow2
  have := format.valid.1
  unfold quantum at normal ⊢
  omega

theorem isValue_roundUnbounded (bounded : |format.roundUnbounded value| ≤ format.largest) :
    format.IsValue (format.roundUnbounded value) := by
  unfold roundUnbounded at bounded ⊢
  split at bounded
  · next zero =>
      exact ⟨0, format.minExponent, le_rfl, format.valid.2, by simp, by simp [zero]⟩
  · next nonzero =>
      rw [if_neg nonzero]
      have minLe : format.minExponent ≤ format.quantum value := le_max_left _ _
      have atMost := abs_roundEven_le (abs_div_quantum_le format nonzero)
      rw [abs_mul, abs_of_pos (pow2_pos _)] at bounded
      have below := lt_of_le_of_lt bounded (largest_lt format)
      have halfPower : (2 : ℚ) ^ format.precision = 2 ^ (format.precision - 1) * 2 := by
        rw [← pow_succ, Nat.sub_add_cancel format.valid.1]
      rcases lt_or_eq_of_le atMost with fits | carry
      · refine ⟨_, format.quantum value, minLe, ?_, fits, rfl⟩
        by_contra exceeds
        have high : format.maxExponent + 1 ≤ format.quantum value := by omega
        have atLeast := le_abs_roundEven
          (le_abs_div_quantum format nonzero (lt_of_le_of_lt format.valid.2 (by omega)))
        have : (2 : ℚ) ^ format.precision * pow2 format.maxExponent ≤
            |(roundEven (value / pow2 (format.quantum value)) : ℚ)| *
              pow2 (format.quantum value) := by
          have step : pow2 format.maxExponent * 2 ≤ pow2 (format.quantum value) := by
            rw [show (2 : ℚ) = pow2 1 from rfl, ← pow2_add]
            exact pow2_le_pow2 high
          have atLeastRat : (2 : ℚ) ^ (format.precision - 1) ≤
              |(roundEven (value / pow2 (format.quantum value)) : ℚ)| := by
            exact_mod_cast atLeast
          calc (2 : ℚ) ^ format.precision * pow2 format.maxExponent
              = 2 ^ (format.precision - 1) * (pow2 format.maxExponent * 2) := by
                rw [halfPower]; ring
            _ ≤ _ := mul_le_mul atLeastRat step
                (mul_nonneg (pow2_pos _).le (by norm_num)) (abs_nonneg _)
        linarith
      · -- The significand was rounded up to the next power of two.
        have carryRat : |(roundEven (value / pow2 (format.quantum value)) : ℚ)| =
            2 ^ format.precision := by exact_mod_cast carry
        have room : format.quantum value + 1 ≤ format.maxExponent := by
          by_contra exceeds
          have high : format.maxExponent ≤ format.quantum value := by omega
          rw [carryRat] at below
          have := mul_le_mul_of_nonneg_left (pow2_le_pow2 high)
            (show (0 : ℚ) ≤ 2 ^ format.precision by positivity)
          linarith
        have halved (sign : ℤ) : (sign * 2 ^ format.precision : ℚ) * pow2 (format.quantum value) =
            ((sign * 2 ^ (format.precision - 1) : ℤ) : ℚ) * pow2 (format.quantum value + 1) := by
          rw [pow2_add, show pow2 1 = 2 from rfl, halfPower]
          push_cast
          ring
        have significandLt : (2 : ℤ) ^ (format.precision - 1) < 2 ^ format.precision :=
          pow_lt_pow_right₀ (by norm_num) (Nat.sub_lt format.valid.1 (by norm_num))
        rcases abs_eq (by positivity) |>.mp carryRat with positive | negative
        · refine ⟨1 * 2 ^ (format.precision - 1), format.quantum value + 1, by omega, room, ?_, ?_⟩
          · rwa [one_mul, abs_of_pos (by positivity)]
          · rw [positive, ← halved 1]
            push_cast
            ring
        · refine ⟨-1 * 2 ^ (format.precision - 1), format.quantum value + 1, by omega, room, ?_, ?_⟩
          · rwa [neg_one_mul, abs_neg, abs_of_pos (by positivity)]
          · rw [negative, ← halved (-1)]
            push_cast
            ring

theorem round_separates (value : ℚ) : format.Separates value (format.round value) := by
  have nearest {other : ℚ} (isValue : format.IsValue other) :=
    roundUnbounded_nearest value isValue.unbounded
  unfold round
  dsimp only
  split
  · next above =>
      intro other isValue
      have le := (abs_le.mp isValue.le_largest).2
      exact lt_of_lt_nearest (nearest isValue) (lt_of_le_of_lt le above)
  · next notAbove =>
      split
      · next below =>
          intro other isValue
          have ge := (abs_le.mp isValue.le_largest).1
          exact lt_of_nearest_lt (nearest isValue) (lt_of_lt_of_le below ge)
      · next notBelow =>
          refine ⟨isValue_roundUnbounded (abs_le.mpr ⟨not_lt.mp notBelow, not_lt.mp notAbove⟩), ?_⟩
          exact fun other isValue =>
            ⟨lt_of_lt_nearest (nearest isValue), lt_of_nearest_lt (nearest isValue)⟩

end Format

end LakehouseEngine.BinaryFloat
