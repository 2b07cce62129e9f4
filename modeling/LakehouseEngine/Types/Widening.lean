import LakehouseEngine.Data.RunningMaximum
import LakehouseEngine.Types.ArrowType

/-!
# Supported widenings

The pairs of Arrow types of which the first may be read as the second.  Together with
equality they order the types.
-/

namespace LakehouseEngine

/-- Every integer stored in 32 bits shares this decimal target. -/
def int32SourceDecimalPrecision : ℕ := 10

def int64SourceDecimalPrecision : ℕ := 20

/-- Neither the fraction digits nor the integral ones shrink. -/
def widensDecimal (source target : ℕ × ℤ) : Bool :=
  let precisionGrowth : ℤ := target.1 - source.1
  let scaleGrowth := target.2 - source.2
  0 ≤ scaleGrowth && scaleGrowth ≤ precisionGrowth

def widensTo (source target : ArrowType) : Bool :=
  match source, target with
  | .integer 8 true, .integer 32 true | .integer 8 true, .integer 64 true => true
  | .integer 16 true, .integer 32 true | .integer 16 true, .integer 64 true => true
  | .integer 32 true, .integer 64 true => true
  | .float32, .float64 => true
  | .integer 8 true, .float64 | .integer 16 true, .float64 | .integer 32 true, .float64 => true
  | .decimal128 precision scale, .decimal128 wider finer =>
      widensDecimal (precision, scale) (wider, finer)
  | .integer 8 true, .decimal128 wider finer | .integer 16 true, .decimal128 wider finer
  | .integer 32 true, .decimal128 wider finer =>
      widensDecimal (int32SourceDecimalPrecision, 0) (wider, finer)
  | .integer 64 true, .decimal128 wider finer =>
      widensDecimal (int64SourceDecimalPrecision, 0) (wider, finer)
  | .date32, .timestamp .microsecond none => true
  | _, _ => false

/-- The wider of two types, if either widens to the other. -/
def widen (left right : ArrowType) : Option ArrowType :=
  if left = right then some left
  else if widensTo left right then some right
  else if widensTo right left then some left
  else none

theorem widensDecimal_iff {source target : ℕ × ℤ} : widensDecimal source target = true ↔
    source.2 ≤ target.2 ∧ target.2 - source.2 ≤ (target.1 : ℤ) - source.1 := by
  simp [widensDecimal]

theorem widensDecimal_trans {first second third : ℕ × ℤ}
    (left : widensDecimal first second = true) (right : widensDecimal second third = true) :
    widensDecimal first third = true := by
  rw [widensDecimal_iff] at *
  omega

/-- What each widening is. -/
inductive Widens : ArrowType → ArrowType → Prop where
  | integer {narrow wide : ℕ} (narrower : narrow ∈ [8, 16, 32]) (wider : wide ∈ [32, 64])
      (grows : narrow < wide) : Widens (.integer narrow true) (.integer wide true)
  | float : Widens .float32 .float64
  | integerToFloat {bits : ℕ} (narrow : bits ∈ [8, 16, 32]) : Widens (.integer bits true) .float64
  | decimal {precision wider : ℕ} {scale finer : ℤ}
      (fits : widensDecimal (precision, scale) (wider, finer) = true) :
      Widens (.decimal128 precision scale) (.decimal128 wider finer)
  | integerToDecimal {bits wider : ℕ} {finer : ℤ} (narrow : bits ∈ [8, 16, 32])
      (fits : widensDecimal (int32SourceDecimalPrecision, 0) (wider, finer) = true) :
      Widens (.integer bits true) (.decimal128 wider finer)
  | longToDecimal {wider : ℕ} {finer : ℤ}
      (fits : widensDecimal (int64SourceDecimalPrecision, 0) (wider, finer) = true) :
      Widens (.integer 64 true) (.decimal128 wider finer)
  | date : Widens .date32 (.timestamp .microsecond none)

theorem widensTo_iff {source target : ArrowType} : widensTo source target = true ↔
    Widens source target := by
  constructor
  · intro widens
    unfold widensTo at widens
    split at widens
    · exact .integer (by decide) (by decide) (by decide)
    · exact .integer (by decide) (by decide) (by decide)
    · exact .integer (by decide) (by decide) (by decide)
    · exact .integer (by decide) (by decide) (by decide)
    · exact .integer (by decide) (by decide) (by decide)
    · exact .float
    · exact .integerToFloat (by decide)
    · exact .integerToFloat (by decide)
    · exact .integerToFloat (by decide)
    · exact .decimal widens
    · exact .integerToDecimal (by decide) widens
    · exact .integerToDecimal (by decide) widens
    · exact .integerToDecimal (by decide) widens
    · exact .longToDecimal widens
    · exact .date
    · cases widens
  · intro widens
    cases widens with
    | integer narrower wider grows =>
        simp only [List.mem_cons, List.not_mem_nil, or_false] at narrower wider
        rcases narrower with rfl | rfl | rfl <;> rcases wider with rfl | rfl <;>
          first | rfl | exact absurd grows (by decide)
    | integerToFloat narrow =>
        simp only [List.mem_cons, List.not_mem_nil, or_false] at narrow
        rcases narrow with rfl | rfl | rfl <;> rfl
    | integerToDecimal narrow fits =>
        simp only [List.mem_cons, List.not_mem_nil, or_false] at narrow
        rcases narrow with rfl | rfl | rfl <;> exact fits
    | decimal fits | longToDecimal fits => exact fits
    | float | date => rfl

theorem Widens.trans {first second third : ArrowType} (left : Widens first second)
    (right : Widens second third) : Widens first third := by
  have fromLong {wider : ℕ} {finer : ℤ}
      (fits : widensDecimal (int64SourceDecimalPrecision, 0) (wider, finer) = true) :
      widensDecimal (int32SourceDecimalPrecision, 0) (wider, finer) = true :=
    widensDecimal_trans (by decide) fits
  cases left with
  | integer narrower wider grows =>
      cases right with
      | integer _ widest grows' => exact .integer narrower widest (grows.trans grows')
      | integerToFloat => exact .integerToFloat narrower
      | integerToDecimal _ fits => exact .integerToDecimal narrower fits
      | longToDecimal fits => exact .integerToDecimal narrower (fromLong fits)
  | decimal fits =>
      cases right with
      | decimal fits' => exact .decimal (widensDecimal_trans fits fits')
  | integerToDecimal narrow fits =>
      cases right with
      | decimal fits' => exact .integerToDecimal narrow (widensDecimal_trans fits fits')
  | longToDecimal fits =>
      cases right with
      | decimal fits' => exact .longToDecimal (widensDecimal_trans fits fits')
  | float | integerToFloat | date => cases right

/-- Two types that widen to each other are one type. -/
theorem Widens.antisymm {left right : ArrowType} (there : Widens left right)
    (back : Widens right left) : left = right := by
  cases there with
  | integer _ _ grows =>
      cases back with
      | integer _ _ shrinks => exact absurd (grows.trans shrinks) (lt_irrefl _)
  | decimal fits =>
      cases back with
      | decimal fits' =>
          rw [widensDecimal_iff] at fits fits'
          rw [ArrowType.decimal128.injEq]
          omega
  | float | integerToFloat | integerToDecimal | longToDecimal | date => cases back

/-- The order of the supported widenings. -/
instance : PartialOrder ArrowType where
  le left right := left = right ∨ widensTo left right = true
  le_refl _ := .inl rfl
  le_trans first second third left right := by
    rcases left with rfl | left
    · exact right
    · rcases right with rfl | right
      · exact .inr left
      · exact .inr (widensTo_iff.mpr ((widensTo_iff.mp left).trans (widensTo_iff.mp right)))
  le_antisymm left right there back := by
    rcases there with rfl | there
    · rfl
    · rcases back with rfl | back
      · rfl
      · exact (widensTo_iff.mp there).antisymm (widensTo_iff.mp back)

instance : DecidableLE ArrowType := fun _ _ => inferInstanceAs (Decidable (_ ∨ _))

theorem ArrowType.le_iff {left right : ArrowType} :
    left ≤ right ↔ left = right ∨ widensTo left right = true := Iff.rfl

theorem widen_eq_join (left right : ArrowType) :
    widen left right = RunningMaximum.join left right := by
  unfold widen RunningMaximum.join
  simp only [ArrowType.le_iff]
  by_cases same : left = right
  · simp [same]
  · simp [same, Ne.symm same]

end LakehouseEngine
