import LakehouseEngine.Expression.Semantics
import LakehouseEngine.Numeric.BinaryFloat
import Mathlib.Order.WithBot

/-!
# Bounds from literals

How the file-pruning translators read a numeric literal as a machine number.  An integer
is exact or refused, a floating-point number is rounded.  No value of the column lies
between a literal and the bound it is rounded to, so the comparison with the bound tells
the comparison with the literal, up to the side on which the literal lies.
-/

namespace LakehouseEngine

open BinaryFloat

/-- The exact value of a numeric literal's text. -/
def JsonScalar.exactNumber (value : JsonScalar) : Option ℚ :=
  Text.numeralValue (WhiteSpace.trim value.toText.toList)

/-- `literal_exactnumeric` and `literal_double`. -/
def LiteralKind.isNumeric : LiteralKind → Bool
  | .exactnumeric | .double => true
  | _ => false

theorem numeric_literal (reading : Reading) {lit : Literal} (numeric : lit.kind.isNumeric = true)
    (notNull : lit.value ≠ .null) :
    lit.isNull = false ∧
      reading.literal lit = (lit.value.exactNumber.map Value.num).getD .null := by
  obtain ⟨kind, value, width⟩ := lit
  have present : value ≠ .null := notNull
  cases kind with
  | exactnumeric => simp [Reading.literal, Literal.isNull, JsonScalar.exactNumber, present]
  | double => simp [Reading.literal, Literal.isNull, JsonScalar.exactNumber, present]
  | _ => simp [LiteralKind.isNumeric] at numeric

theorem literal_of_exactNumber (reading : Reading) {lit : Literal}
    (numeric : lit.kind.isNumeric = true) {exact : ℚ}
    (number : lit.value.exactNumber = some exact) :
    lit.isNull = false ∧ reading.literal lit = .num exact := by
  have notNull : lit.value ≠ .null := by
    intro null
    have empty : JsonScalar.null.exactNumber = none := by decide +kernel
    rw [null, empty] at number
    simp at number
  obtain ⟨present, value⟩ := numeric_literal reading numeric notNull
  exact ⟨present, by rw [value, number]; rfl⟩

/-- A readable numeric literal has an exact number. -/
theorem exactNumber_of_readable {reading : Reading} {lit : Literal}
    (numeric : lit.kind.isNumeric = true) (notNull : lit.value ≠ .null)
    (readable : lit.isNull = false → reading.literal lit ≠ .null) :
    ∃ exact, lit.value.exactNumber = some exact := by
  obtain ⟨present, value⟩ := numeric_literal reading numeric notNull
  cases number : lit.value.exactNumber with
  | none =>
      rw [number] at value
      exact absurd value (readable present)
  | some exact => exact ⟨exact, rfl⟩

/-- The range of a signed integer of `bits` bits. -/
def fitsInt (bits : Nat) (value : ℤ) : Bool := -2 ^ (bits - 1) ≤ value ∧ value < 2 ^ (bits - 1)

/-- `parse_i64`, and its narrower forms. -/
def parseInt (bits : Nat) : JsonScalar → Option ℤ
  | .number number => number.asI64.filter (fitsInt bits)
  | .string text => (Text.integerValue (WhiteSpace.trim text.toList)).filter (fitsInt bits)
  | _ => none

/-- `parse_f64`.  A JSON number converts from its own value, a text is parsed; both round
to nearest.  The texts `inf` and `nan` are left out. -/
def parseF64 : JsonScalar → Option Rounded
  | .number (.int value) => some (binary64.round value)
  | .number (.float text) => (Text.numeralValue (WhiteSpace.trim text.toList)).map binary64.round
  | .string text => (Text.numeralValue (WhiteSpace.trim text.toList)).map binary64.round
  | _ => none

/-- The cast of a 64-bit number to 32 bits. -/
def toF32 : Rounded → Rounded
  | .finite value => binary32.round value
  | infinity => infinity

theorem parseInt_exact {bits : Nat} {value : JsonScalar} {number : ℤ}
    (parsed : parseInt bits value = some number) : value.exactNumber = some (number : ℚ) := by
  cases value with
  | number json =>
      obtain ⟨found, -⟩ := Option.filter_eq_some_iff.mp parsed
      cases json with
      | int exact =>
          simp only [JsonNumber.asI64] at found
          split at found
          · cases found
            obtain ⟨read, trimmed⟩ := Text.numeralValue_toString number
            change Text.numeralValue (WhiteSpace.trim (toString number).toList) = _
            rw [trimmed, read]
          · simp at found
      | float text => simp [JsonNumber.asI64] at found
  | string text =>
      obtain ⟨found, -⟩ := Option.filter_eq_some_iff.mp parsed
      exact Text.numeralValue_of_integerValue found
  | _ => simp [parseInt] at parsed

theorem parseInt_fits {bits : Nat} {value : JsonScalar} {number : ℤ}
    (parsed : parseInt bits value = some number) : fitsInt bits number = true := by
  cases value with
  | number json => exact (Option.filter_eq_some_iff.mp parsed).2
  | string text => exact (Option.filter_eq_some_iff.mp parsed).2
  | _ => simp [parseInt] at parsed

theorem parseF64_rounds {value : JsonScalar} {rounded : Rounded}
    (parsed : parseF64 value = some rounded) :
    ∃ exact, value.exactNumber = some exact ∧ rounded = binary64.round exact := by
  cases value with
  | number json =>
      cases json with
      | int exact =>
          cases parsed
          obtain ⟨read, trimmed⟩ := Text.numeralValue_toString exact
          refine ⟨exact, ?_, rfl⟩
          change Text.numeralValue (WhiteSpace.trim (toString exact).toList) = _
          rw [trimmed, read]
      | float text =>
          obtain ⟨exact, read, rfl⟩ := Option.map_eq_some_iff.mp parsed
          exact ⟨exact, read, rfl⟩
  | string text =>
      obtain ⟨exact, read, rfl⟩ := Option.map_eq_some_iff.mp parsed
      exact ⟨exact, read, rfl⟩
  | _ => simp [parseF64] at parsed

theorem binary64_of_binary32 {value : ℚ} (isValue : binary32.IsValue value) :
    binary64.IsValue value := by
  obtain ⟨significand, exponent, low, high, bounded, equal⟩ := isValue
  refine ⟨significand, exponent, le_trans (by decide) low, le_trans high (by decide), ?_, equal⟩
  exact lt_of_lt_of_le bounded (by decide)

/-- Rounding twice still crosses no 32-bit number. -/
theorem toF32_separates {value : ℚ} {wide : Rounded} (separates : binary64.Separates value wide) :
    binary32.Separates value (toF32 wide) := by
  cases wide with
  | positiveInfinity => exact fun other isValue => separates other (binary64_of_binary32 isValue)
  | negativeInfinity => exact fun other isValue => separates other (binary64_of_binary32 isValue)
  | finite middle =>
      -- a 32-bit number is a 64-bit one, so it lies on the same side of the first rounding
      have first {other : ℚ} (isValue : binary32.IsValue other) :=
        separates.2 other (binary64_of_binary32 isValue)
      have second : binary32.Separates middle (binary32.round middle) :=
        Format.round_separates middle
      change binary32.Separates value (binary32.round middle)
      cases rounded : binary32.round middle with
      | positiveInfinity =>
          rw [rounded] at second
          exact fun other isValue => (first isValue).1 (second other isValue)
      | negativeInfinity =>
          rw [rounded] at second
          exact fun other isValue => (first isValue).2 (second other isValue)
      | finite final =>
          rw [rounded] at second
          refine ⟨second.1, fun other isValue => ⟨?_, ?_⟩⟩
          · intro less
            exact (first isValue).1 ((second.2 other isValue).1 less)
          · intro greater
            exact (first isValue).2 ((second.2 other isValue).2 greater)

/-- The order of a row against a literal, given the literal's order against the bound that
stands for it and the row's order against that bound. -/
def viewed : Ordering → Ordering → Ordering
  | .eq, seen => seen
  | .lt, .lt => .lt
  | .lt, _ => .gt
  | .gt, .gt => .gt
  | .gt, _ => .lt

/-- A bound that no row lies between and the literal orders the rows as `viewed` says. -/
theorem compare_viewed {α : Type*} [LinearOrder α] {row literal bound : α}
    (below : row < bound → row < literal) (above : bound < row → literal < row) :
    compare row literal = viewed (compare literal bound) (compare row bound) := by
  rcases lt_trichotomy literal bound with less | rfl | greater
  · rw [compare_lt_iff_lt.mpr less]
    rcases lt_or_ge row bound with rowLess | rowGe
    · rw [compare_lt_iff_lt.mpr rowLess, compare_lt_iff_lt.mpr (below rowLess)]
      rfl
    · rw [compare_gt_iff_gt.mpr (lt_of_lt_of_le less rowGe)]
      rcases eq_or_lt_of_le rowGe with rfl | rowGreater
      · rw [compare_eq_iff_eq.mpr rfl]
        rfl
      · rw [compare_gt_iff_gt.mpr rowGreater]
        rfl
  · rw [compare_eq_iff_eq.mpr (rfl : literal = literal)]
    rfl
  · rw [compare_gt_iff_gt.mpr greater]
    rcases lt_or_ge bound row with rowGreater | rowLe
    · rw [compare_gt_iff_gt.mpr rowGreater, compare_gt_iff_gt.mpr (above rowGreater)]
      rfl
    · rw [compare_lt_iff_lt.mpr (lt_of_le_of_lt rowLe greater)]
      rcases eq_or_lt_of_le rowLe with rfl | rowLess
      · rw [compare_eq_iff_eq.mpr rfl]
        rfl
      · rw [compare_lt_iff_lt.mpr rowLess]
        rfl

namespace Value

/-- The place of a number among the numbers and the infinities. -/
def number : Value → Option (WithBot (WithTop ℚ))
  | .num value => some ((value : WithTop ℚ) : WithBot (WithTop ℚ))
  | .infinite true => some ⊤
  | .infinite false => some ⊥
  | _ => none

def isNumber : Value → Bool
  | .num _ | .infinite _ => true
  | _ => false

theorem exists_number {value : Value} (isNumber : value.isNumber = true) :
    ∃ place, value.number = some place := by
  cases value with
  | num value => exact ⟨_, rfl⟩
  | infinite positive => cases positive <;> exact ⟨_, rfl⟩
  | _ => simp [Value.isNumber] at isNumber

theorem order_number {left right : Value} {leftNumber rightNumber : WithBot (WithTop ℚ)}
    (leftIs : left.number = some leftNumber) (rightIs : right.number = some rightNumber) :
    left.order right = some (compare leftNumber rightNumber) := by
  have belowTop (value : ℚ) : ((value : WithTop ℚ) : WithBot (WithTop ℚ)) < ⊤ :=
    WithBot.coe_lt_coe.mpr (WithTop.coe_lt_top value)
  have aboveBottom (value : ℚ) : (⊥ : WithBot (WithTop ℚ)) < (value : WithTop ℚ) :=
    WithBot.bot_lt_coe _
  have bottomTop : (⊥ : WithBot (WithTop ℚ)) < ⊤ := WithBot.bot_lt_coe _
  cases left with
  | num left =>
      cases right with
      | num right =>
          cases leftIs
          cases rightIs
          change some (compare left right) = _
          rcases lt_trichotomy left right with less | rfl | greater
          · rw [compare_lt_iff_lt.mpr less, compare_lt_iff_lt.mpr]
            exact WithBot.coe_lt_coe.mpr (WithTop.coe_lt_coe.mpr less)
          · rw [compare_eq_iff_eq.mpr rfl, compare_eq_iff_eq.mpr rfl]
          · rw [compare_gt_iff_gt.mpr greater, compare_gt_iff_gt.mpr]
            exact WithBot.coe_lt_coe.mpr (WithTop.coe_lt_coe.mpr greater)
      | infinite positive =>
          cases leftIs
          cases positive <;> cases rightIs
          · rw [compare_gt_iff_gt.mpr (aboveBottom left)]
            rfl
          · rw [compare_lt_iff_lt.mpr (belowTop left)]
            rfl
      | _ => simp [number] at rightIs
  | infinite positive =>
      cases right with
      | num right =>
          cases rightIs
          cases positive <;> cases leftIs
          · rw [compare_lt_iff_lt.mpr (aboveBottom right)]
            rfl
          · rw [compare_gt_iff_gt.mpr (belowTop right)]
            rfl
      | infinite other =>
          cases positive <;> cases leftIs <;> cases other <;> cases rightIs
          · rw [compare_eq_iff_eq.mpr rfl]
            rfl
          · rw [compare_lt_iff_lt.mpr bottomTop]
            rfl
          · rw [compare_gt_iff_gt.mpr bottomTop]
            rfl
          · rw [compare_eq_iff_eq.mpr rfl]
            rfl
      | _ => simp [number] at rightIs
  | _ => simp [number] at leftIs

theorem order_isLE_trans {first second third : Value} {low high both : Ordering}
    (lowIs : first.order second = some low) (highIs : second.order third = some high)
    (bothIs : first.order third = some both) (lowLe : low.isLE) (highLe : high.isLE) :
    both.isLE := by
  by_cases numeric : (first.isNumber ∧ second.isNumber) ∧ third.isNumber
  · obtain ⟨firstPlace, firstIs⟩ := exists_number numeric.1.1
    obtain ⟨secondPlace, secondIs⟩ := exists_number numeric.1.2
    obtain ⟨thirdPlace, thirdIs⟩ := exists_number numeric.2
    rw [order_number firstIs secondIs] at lowIs
    rw [order_number secondIs thirdIs] at highIs
    rw [order_number firstIs thirdIs] at bothIs
    cases lowIs
    cases highIs
    cases bothIs
    exact Std.TransCmp.isLE_trans lowLe highLe
  · cases first <;> cases second <;> simp only [order, compareWith, reduceCtorEq] at lowIs <;>
      cases third <;> simp only [order, compareWith, reduceCtorEq] at highIs
    all_goals first
      | exact absurd ⟨⟨rfl, rfl⟩, rfl⟩ numeric
      | (cases lowIs
         cases highIs
         cases bothIs
         exact Std.TransCmp.isLE_trans lowLe highLe)

end Value

/-- The value of a rounded number. -/
def BinaryFloat.Rounded.value : Rounded → Value
  | .finite value => .num value
  | .positiveInfinity => .infinite true
  | .negativeInfinity => .infinite false

/-- The values of a floating-point column.  A NaN is not among them: it reaches Exasol as
NULL. -/
def IsFloat (format : Format) : Value → Prop
  | .num value => format.IsValue value
  | .infinite _ => True
  | _ => False

/-- No number of the format, infinities included, lies between a number and what it is
rounded to. -/
theorem separates_number {format : Format} {literal : ℚ} {rounded : Rounded}
    (separates : format.Separates literal rounded) {row : Value} (isFloat : IsFloat format row)
    {place bound : WithBot (WithTop ℚ)} (placeIs : row.number = some place)
    (boundIs : rounded.value.number = some bound) :
    (place < bound → place < (literal : WithTop ℚ)) ∧
      (bound < place → (literal : WithTop ℚ) < place) := by
  cases row with
  | num value =>
      cases placeIs
      cases rounded with
      | finite middle =>
          cases boundIs
          simp only [WithBot.coe_lt_coe, WithTop.coe_lt_coe]
          exact separates.2 value isFloat
      | positiveInfinity =>
          cases boundIs
          simp only [WithBot.coe_lt_coe, WithTop.coe_lt_coe, not_top_lt, IsEmpty.forall_iff,
            and_true]
          exact fun _ => separates value isFloat
      | negativeInfinity =>
          cases boundIs
          simp only [WithBot.coe_lt_coe, WithTop.coe_lt_coe, not_lt_bot, IsEmpty.forall_iff,
            true_and]
          exact fun _ => separates value isFloat
  | infinite positive =>
      cases positive with
      | true =>
          cases placeIs
          exact ⟨fun less => absurd less not_top_lt,
            fun _ => WithBot.coe_lt_coe.mpr (WithTop.coe_lt_top literal)⟩
      | false =>
          cases placeIs
          exact ⟨fun _ => WithBot.bot_lt_coe _, fun greater => absurd greater not_lt_bot⟩
  | _ => exact isFloat.elim

/-- `bound` stands for `literal` in comparisons with values of a column type: it is such a
value itself, and `shift` is where the literal lies from it. -/
structure StandsFor (typed : Value → Prop) (literal bound : Value) (shift : Ordering) : Prop where
  isTyped : typed bound
  shifted : literal.order bound = some shift
  view : ∀ row, typed row →
    ∃ seen, row.order bound = some seen ∧ row.order literal = some (viewed shift seen)

/-- A rounded number stands for the number it rounds. -/
theorem standsFor_of_separates {format : Format} {literal : ℚ} {rounded : Rounded}
    (separates : format.Separates literal rounded) :
    ∃ shift, StandsFor (IsFloat format) (.num literal) rounded.value shift := by
  obtain ⟨bound, boundIs⟩ : ∃ bound, rounded.value.number = some bound :=
    Value.exists_number (by cases rounded <;> rfl)
  have literalIs : (Value.num literal).number = some ((literal : WithTop ℚ) : WithBot _) := rfl
  refine ⟨_, ?_, Value.order_number literalIs boundIs, fun row isFloat => ?_⟩
  · cases rounded with
    | finite value => exact separates.1
    | _ => trivial
  · have isNumber : row.isNumber = true := by
      cases row with
      | num value => rfl
      | infinite positive => rfl
      | _ => exact isFloat.elim
    obtain ⟨place, placeIs⟩ := Value.exists_number isNumber
    obtain ⟨below, above⟩ := separates_number separates isFloat placeIs boundIs
    refine ⟨_, Value.order_number placeIs boundIs, ?_⟩
    rw [Value.order_number placeIs literalIs, compare_viewed below above]

theorem standsFor_self {typed : Value → Prop} {bound : Value} (isTyped : typed bound)
    (comparable : ∀ row, typed row → ∃ seen, row.order bound = some seen)
    (reflexive : bound.order bound = some .eq) : StandsFor typed bound bound .eq := by
  refine ⟨isTyped, reflexive, fun row typedRow => ?_⟩
  obtain ⟨seen, ordered⟩ := comparable row typedRow
  exact ⟨seen, ordered, ordered⟩

namespace Comparison

/-- Whether a comparison with the bound is implied by the one with the literal. -/
def soundUnder : Comparison → Ordering → Bool
  | .less, shift => shift != .gt
  | .greater, shift => shift != .lt
  | .notEqual, shift => shift == .eq
  | _, _ => true

/-- Whether the two comparisons are equivalent. -/
def exactUnder : Comparison → Ordering → Bool
  | .equal, shift | .notEqual, shift => shift == .eq
  | .less, shift | .greaterEqual, shift => shift != .gt
  | .lessEqual, shift | .greater, shift => shift != .lt

theorem holds_of_viewed {op : Comparison} {shift : Ordering} (sound : op.soundUnder shift = true)
    {seen : Ordering} (holds : op.holds (viewed shift seen) = true) : op.holds seen = true := by
  cases op <;> cases shift <;> cases seen <;>
    first | rfl | exact absurd sound (by decide) | exact absurd holds (by decide)

theorem holds_viewed {op : Comparison} {shift : Ordering} (exact : op.exactUnder shift = true)
    (seen : Ordering) : op.holds (viewed shift seen) = op.holds seen := by
  cases op <;> cases shift <;> first | (cases seen <;> rfl) | exact absurd exact (by decide)

/-- A bound that is not sound is refuted by the row that equals it. -/
theorem soundUnder_of_bound {op : Comparison} {shift : Ordering}
    (kept : op.holds (viewed shift .eq) = true → op.holds .eq = true) :
    op.soundUnder shift = true := by
  cases op <;> cases shift <;> first | rfl | exact absurd (kept rfl) (by decide)

theorem exactUnder_of_bound {op : Comparison} {shift : Ordering}
    (same : op.holds (viewed shift .eq) = op.holds .eq) : op.exactUnder shift = true := by
  cases op <;> cases shift <;> first | rfl | exact absurd same (by decide)

end Comparison

/-- What a row shows of a literal through its bound: nothing when it is NULL, else both
orders. -/
inductive BoundView (reading : Reading) (row literal bound : Value) (shift : Ordering) : Prop where
  | null (unseen : row.order bound = none) (forward : reading.compare row literal = none)
      (backward : reading.compare literal row = none)
  | seen (ordering : Ordering) (seen : row.order bound = some ordering)
      (forward : reading.compare row literal = some (viewed shift ordering))
      (backward : reading.compare literal row = some (viewed shift ordering).swap)

section Views

variable {typed : Value → Prop} {reading : Reading} {row literal bound : Value} {shift : Ordering}

theorem StandsFor.boundView (stands : StandsFor typed literal bound shift)
    (present : row = .null ∨ typed row) : BoundView reading row literal bound shift := by
  rcases present with rfl | rowTyped
  · refine .null rfl rfl ?_
    cases literal <;> rfl
  · obtain ⟨seen, ordered, literalOrdered⟩ := stands.view row rowTyped
    obtain ⟨forward, backward⟩ := Value.compareWith_same_kind literalOrdered reading.mixed
    exact .seen seen ordered forward backward

theorem BoundView.implied (view : BoundView reading row literal bound shift) {op : Comparison}
    (sound : op.soundUnder shift = true)
    (isTrue : reading.comparison op row literal = some true) :
    (row.order bound).map op.holds = some true := by
  cases view with
  | null unseen forward backward => simp [Reading.comparison, forward] at isTrue
  | seen ordering seen forward backward =>
      simp only [Reading.comparison, forward, Option.map_some, Option.some.injEq] at isTrue
      rw [seen, Option.map_some, Comparison.holds_of_viewed sound isTrue]

theorem BoundView.equal (view : BoundView reading row literal bound shift) {op : Comparison}
    (exact : op.exactUnder shift = true) :
    (row.order bound).map op.holds = reading.comparison op row literal := by
  cases view with
  | null unseen forward backward => simp [Reading.comparison, forward, unseen]
  | seen ordering seen forward backward =>
      simp [Reading.comparison, forward, seen, Comparison.holds_viewed exact]

/-- The comparison written with the literal on the left. -/
theorem BoundView.comparison_swapped (view : BoundView reading row literal bound shift)
    (op : Comparison) :
    reading.comparison op literal row = reading.comparison op.withOperandsSwapped row literal := by
  cases view with
  | null unseen forward backward => simp [Reading.comparison, forward, backward]
  | seen ordering seen forward backward =>
      simp only [Reading.comparison, forward, backward, Option.map_some]
      rw [← op.withOperandsSwapped.holds_withOperandsSwapped, Comparison.withOperandsSwapped_swap]

/-- The row that equals the bound sees the literal where it lies. -/
theorem StandsFor.at_bound (stands : StandsFor typed literal bound shift) (reading : Reading)
    (op : Comparison) :
    reading.comparison op bound literal = some (op.holds (viewed shift .eq)) ∧
      (bound.order bound).map op.holds = some (op.holds .eq) := by
  obtain ⟨seen, ordered, literalOrdered⟩ := stands.view bound stands.isTyped
  have present : bound ≠ .null := by
    rintro rfl
    simp [Value.order, Value.compareWith] at ordered
  rw [Value.order_self present] at ordered ⊢
  cases ordered
  obtain ⟨forward, -⟩ := Value.compareWith_same_kind literalOrdered reading.mixed
  exact ⟨by simp only [Reading.comparison, Reading.compare, forward, Option.map_some], rfl⟩

end Views

end LakehouseEngine
