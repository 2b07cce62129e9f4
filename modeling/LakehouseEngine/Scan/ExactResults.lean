import LakehouseEngine.Scan.ExactArithmetic
import Mathlib.Tactic.NormNum

/-!
# Exact arithmetic never wraps

A sub-result whose declared precision is below the cap has no more digits than
declared.  One at the cap may have more, but every call on it then has a result type
past the cap, and checks.  So the unchecked branch only ever sees operands that fit, and
a tree is refused only if its scale is too big or a number it forms leaves 128 bits.
-/

namespace LakehouseEngine.ExactArithmetic

open FixedPoint

/-! ## One call on one row -/

/-- The operators that exact calls take the place of. -/
inductive Arith where
  | plus | minus | times
  deriving DecidableEq

namespace Arith

def operator : Arith → Operator
  | .plus => .plus
  | .minus => .minus
  | .times => .multiply

def udf : Arith → ExactOp
  | .plus => .add
  | .minus => .sub
  | .times => .mul

theorem operator_udf (op : Arith) : op.operator.udf = some op.udf := by
  cases op <;> rfl

/-- The operation on numbers. -/
def onWorth : Arith → ℚ → ℚ → ℚ
  | .plus, left, right => left + right
  | .minus, left, right => left - right
  | .times, left, right => left * right

/-- The scale of a result. -/
def scale : Arith → ℤ → ℤ → ℤ
  | .plus, a, b | .minus, a, b => max a b
  | .times, a, b => a + b

/-- The result as a whole number at its scale, of whole numbers at scales `a` and `b`. -/
def result (op : Arith) (a b x y : ℤ) : ℤ :=
  match op with
  | .plus => x * 10 ^ (max a b - a).toNat + y * 10 ^ (max a b - b).toNat
  | .minus => x * 10 ^ (max a b - a).toNat - y * 10 ^ (max a b - b).toNat
  | .times => x * y

/-- Every product and sum that is formed for a result. -/
def formed (op : Arith) (a b x y : ℤ) : List ℤ :=
  match op with
  | .plus | .minus =>
      [x * 10 ^ (max a b - a).toNat, y * 10 ^ (max a b - b).toNat, op.result a b x y]
  | .times => [op.result a b x y]

theorem result_mem_formed (op : Arith) (a b x y : ℤ) : op.result a b x y ∈ op.formed a b x y := by
  cases op <;> simp [formed]

theorem applyWrapping_eq (op : Arith) {a b x y : ℤ}
    (held : ∀ number ∈ op.formed a b x y, InRange 128 number) :
    op.udf.applyWrapping x y (op.udf.factors a b).1 (op.udf.factors a b).2 =
      op.result a b x y := by
  cases op <;>
    simp_all [udf, ExactOp.applyWrapping, ExactOp.factors, formed, result, wrap_of_inRange]

/-- The checked call gives the result if 128 bits hold all that it forms, else nothing. -/
theorem applyChecked_eq (op : Arith) (a b x y : ℤ) :
    op.udf.applyChecked x y (op.udf.factors a b).1 (op.udf.factors a b).2 =
      if ∀ number ∈ op.formed a b x y, InRange 128 number then some (op.result a b x y)
      else none := by
  have sum (f : ℤ → ℤ → ℤ) (left right : ℤ) :
      ((checked 128 left).bind fun x => (checked 128 right).bind fun y => checked 128 (f x y)) =
        if ∀ number ∈ [left, right, f left right], InRange 128 number then some (f left right)
        else none := by
    by_cases first : InRange 128 left <;> by_cases second : InRange 128 right <;>
      simp [checked, first, second]
  cases op with
  | times => simp [udf, ExactOp.applyChecked, formed, result, checked]
  | plus => exact sum (· + ·) _ _
  | minus => exact sum (· - ·) _ _

end Arith

section Digits

variable {op : Arith} {a b : ℕ × ℤ}

theorem Arith.resultType_scale : (op.udf.resultType a b).2 = op.scale a.2 b.2 := by
  cases op <;> rfl

theorem Arith.worth_result (op : Arith) (a b x y : ℤ) :
    worth (op.scale a b) (op.result a b x y) = op.onWorth (worth a x) (worth b y) := by
  cases op with
  | plus =>
      refine (worth_add _ _).trans ?_
      exact congrArg₂ (· + ·) (worth_shift x (le_max_left ..)) (worth_shift y (le_max_right ..))
  | minus =>
      refine (worth_sub _ _).trans ?_
      exact congrArg₂ (· - ·) (worth_shift x (le_max_left ..)) (worth_shift y (le_max_right ..))
  | times => exact worth_mul x y b

/-- The precisions and scales of the arrays a call works on. -/
structure Bounded (ps : ℕ × ℤ) : Prop where
  digits : 1 ≤ ps.1
  capped : ps.1 ≤ decimal128MaxPrecision
  nonneg : 0 ≤ ps.2
  scaled : ps.2 ≤ exasolMaxScale
  integral : ps.2 ≤ ps.1

variable (left : Bounded a) (right : Bounded b)

include left right

/-- The digits of a sum's result type, with no wrap of the cast. -/
theorem sum_digits : (((max ((a.1 : ℤ) - a.2) (b.1 - b.2) + max a.2 b.2 + 1) % 65536).toNat : ℤ) =
    max ((a.1 : ℤ) - a.2) (b.1 - b.2) + max a.2 b.2 + 1 := by
  have := left.capped
  have := right.capped
  have := left.nonneg
  have := right.nonneg
  have := left.scaled
  have := right.scaled
  have := left.integral
  simp only [decimal128MaxPrecision, exasolMaxScale] at *
  omega

/-- An operand at the cap makes a call check. -/
theorem Arith.below_cap (unchecked : (op.udf.resultType a b).1 ≤ decimal128MaxPrecision) :
    a.1 < decimal128MaxPrecision ∧ b.1 < decimal128MaxPrecision := by
  have := left.digits
  have := right.digits
  have digits := sum_digits left right
  cases op with
  | times =>
      simp only [Arith.udf, ExactOp.resultType] at unchecked
      omega
  | plus | minus =>
      simp only [Arith.udf, ExactOp.resultType] at unchecked
      omega

/-- Both sides of a sum, at the common scale, stay a digit below its result type. -/
theorem sides_fit {x y : ℤ} (first : Fits a.1 x) (second : Fits b.1 y) :
    ∃ digits, (((max ((a.1 : ℤ) - a.2) (b.1 - b.2) + max a.2 b.2 + 1) % 65536).toNat) =
        digits + 1 ∧
      Fits digits (x * 10 ^ (max a.2 b.2 - a.2).toNat) ∧
      Fits digits (y * 10 ^ (max a.2 b.2 - b.2).toNat) := by
  have total := sum_digits left right
  refine ⟨(max ((a.1 : ℤ) - a.2) (b.1 - b.2) + max a.2 b.2).toNat, by omega, ?_, ?_⟩
  · exact (first.shift _).mono (by omega)
  · exact (second.shift _).mono (by omega)

/-- Nothing a call forms has more digits than its result type. -/
theorem Arith.formed_fit {x y : ℤ} (first : Fits a.1 x) (second : Fits b.1 y) :
    ∀ number ∈ op.formed a.2 b.2 x y, Fits (op.udf.resultType a b).1 number := by
  obtain ⟨digits, total, firstSide, secondSide⟩ := sides_fit left right first second
  cases op with
  | times =>
      intro number member
      rw [List.mem_singleton.mp member]
      exact first.mul second
  | plus =>
      simp only [Arith.udf, ExactOp.resultType, total, Arith.formed, Arith.result,
        List.forall_mem_cons]
      exact ⟨firstSide.mono (by omega), secondSide.mono (by omega), firstSide.add secondSide,
        List.forall_mem_nil _⟩
  | minus =>
      simp only [Arith.udf, ExactOp.resultType, total, Arith.formed, Arith.result,
        List.forall_mem_cons]
      exact ⟨firstSide.mono (by omega), secondSide.mono (by omega), firstSide.sub secondSide,
        List.forall_mem_nil _⟩

variable (op) in
theorem Arith.resultType_bounds :
    1 ≤ (op.udf.resultType a b).1 ∧ 0 ≤ (op.udf.resultType a b).2 ∧
      (op.udf.resultType a b).2 ≤ (op.udf.resultType a b).1 := by
  have := left.digits
  have := left.nonneg
  have := right.nonneg
  have := left.integral
  have := right.integral
  have total := sum_digits left right
  cases op with
  | times =>
      simp only [Arith.udf, ExactOp.resultType]
      omega
  | plus | minus =>
      simp only [Arith.udf, ExactOp.resultType]
      omega

variable (op) in
/-- The type a call returns, or the refusal of its scale. -/
theorem returnType_ends {first second : ArrowType}
    (leftType : exactPs first = .ok a) (rightType : exactPs second = .ok b) :
    Ends (fun failure => failure = Failure.tooBigScale ∧ exasolMaxScale < op.scale a.2 b.2)
      (fun type =>
        type = .decimal128 (min (op.udf.resultType a b).1 decimal128MaxPrecision)
          (op.scale a.2 b.2) ∧
        Bounded (min (op.udf.resultType a b).1 decimal128MaxPrecision, op.scale a.2 b.2))
      (returnType op.udf [first, second]) := by
  have refusal : returnType op.udf [first, second] =
      if op.scale a.2 b.2 > exasolMaxScale then .error .tooBigScale
      else .ok (.decimal128 (min (op.udf.resultType a b).1 decimal128MaxPrecision)
        (op.scale a.2 b.2)) := by
    simp only [returnType, leftType, rightType, ← Arith.resultType_scale]
    rfl
  rw [refusal]
  split
  · next tooBig => exact ⟨rfl, tooBig⟩
  · next scaled =>
      obtain ⟨digits, nonneg, integral⟩ := Arith.resultType_bounds op left right
      rw [Arith.resultType_scale] at nonneg integral
      refine ⟨rfl, ?_, Nat.min_le_right .., nonneg, not_lt.mp scaled, ?_⟩
      · exact Nat.le_min.mpr ⟨digits, by decide⟩
      · simp only [decimal128MaxPrecision, exasolMaxScale] at *
        omega

end Digits

/-- A word of 128 bits holds 38 digits. -/
theorem inRange_of_fits {number : ℤ} (fits : Fits decimal128MaxPrecision number) :
    InRange 128 number :=
  fits.inRange (by norm_num [decimal128MaxPrecision])

/-! ## One call on a batch -/

section Batch

variable {rows : ℕ}

theorem Operand.intoWide_of (value : Columnar rows) :
    (Operand.of value).intoWide = asI128 value := by
  fun_cases Operand.of value <;> rfl

/-- The kernels differ in the arrays they build, not in the rows. -/
theorem Operand.unchecked_eq (f : ℤ → ℤ → ℤ) (left right : Operand rows) :
    Operand.unchecked f left right = binary left.intoWide right.intoWide f := by
  funext row
  cases left <;> cases right <;> simp [Operand.unchecked, Operand.intoWide, unary, binary]

theorem binary_congr {left right : Slots rows} {f g : ℤ → ℤ → ℤ}
    (agree : ∀ row x y, left row = some x → right row = some y → f x y = g x y) :
    binary left right f = binary left right g := by
  funext row
  unfold binary
  cases leftValue : left row with
  | none => rfl
  | some x =>
      cases rightValue : right row with
      | none => rfl
      | some y => exact congrArg some (agree row x y leftValue rightValue)

/-- A batch fails exactly if a row does, and else holds the value of every row. -/
theorem tryBinary_eq {left right : Slots rows} {f : ℤ → ℤ → Option ℤ} {g : ℤ → ℤ → ℤ}
    {passes : ℤ → ℤ → Prop} [∀ x y, Decidable (passes x y)]
    (checks : ∀ x y, f x y = if passes x y then some (g x y) else none) :
    (∀ row x y, left row = some x → right row = some y → passes x y) ∧
        tryBinary left right f = some (binary left right g) ∨
      (∃ row x y, left row = some x ∧ right row = some y ∧ ¬ passes x y) ∧
        tryBinary left right f = none := by
  by_cases all : ∀ row x y, left row = some x → right row = some y → passes x y
  · refine .inl ⟨all, ?_⟩
    have here (row : Fin rows) :
        Option.map₂ f (left row) (right row) = (binary left right g row).map some := by
      unfold binary
      cases leftValue : left row with
      | none => rfl
      | some x =>
          cases rightValue : right row with
          | none => rfl
          | some y =>
              exact congrArg some ((checks x y).trans (if_pos (all row x y leftValue rightValue)))
    unfold tryBinary
    simp only [here]
    rw [if_neg]
    · congr 1
      funext row
      cases binary left right g row <;> rfl
    · rintro ⟨row, failed⟩
      cases value : binary left right g row <;> simp [value] at failed
  · push Not at all
    obtain ⟨row, x, y, leftValue, rightValue, fails⟩ := all
    refine .inr ⟨⟨row, x, y, leftValue, rightValue, fails⟩, if_pos ⟨row, ?_⟩⟩
    rw [leftValue, rightValue]
    exact congrArg some ((checks x y).trans (if_neg fails))

/-- An array of a type that can be worked on. -/
structure Sound (value : Columnar rows) (ps : ℕ × ℤ) : Prop where
  typed : exactPs value.dataType = .ok ps
  bounded : Bounded ps
  fits : ps.1 < decimal128MaxPrecision →
    ∀ row number, asI128 value row = some number → Fits ps.1 number

variable {op : Arith} {left right : Columnar rows} {a b : ℕ × ℤ}

theorem combine_eq {op : ExactOp} (leftType : exactPs left.dataType = .ok a)
    (rightType : exactPs right.dataType = .ok b) :
    combine op [left, right] =
      if (op.resultType a b).1 ≤ decimal128MaxPrecision then
        .ok (binary (asI128 left) (asI128 right) fun x y =>
          op.applyWrapping x y (op.factors a.2 b.2).1 (op.factors a.2 b.2).2)
      else
        match tryBinary (asI128 left) (asI128 right) fun x y =>
            op.applyChecked x y (op.factors a.2 b.2).1 (op.factors a.2 b.2).2 with
        | some values => .ok values
        | none => .error (.overflow op) := by
  simp only [combine, leftType, rightType, Operand.unchecked_eq, Operand.intoWide_of]
  rfl

variable (op left right a b) in
/-- On every row 128 bits hold all that the call forms. -/
def FormsInRange : Prop :=
  ∀ row x y, asI128 left row = some x → asI128 right row = some y →
    ∀ number ∈ op.formed a.2 b.2 x y, InRange 128 number

variable (first : Sound left a) (second : Sound right b)

include first second

/-- Operands of the unchecked branch are below the cap, so nothing the call forms has
more digits than its result type. -/
theorem Sound.formed_fit (unchecked : (op.udf.resultType a b).1 ≤ decimal128MaxPrecision)
    {row : Fin rows} {x y : ℤ}
    (leftValue : asI128 left row = some x) (rightValue : asI128 right row = some y) :
    ∀ number ∈ op.formed a.2 b.2 x y, Fits (op.udf.resultType a b).1 number := by
  obtain ⟨leftBelow, rightBelow⟩ := Arith.below_cap first.bounded second.bounded unchecked
  exact Arith.formed_fit first.bounded second.bounded
    (first.fits leftBelow row x leftValue) (second.fits rightBelow row y rightValue)

theorem Sound.formsInRange (unchecked : (op.udf.resultType a b).1 ≤ decimal128MaxPrecision) :
    FormsInRange op left right a b := by
  intro row x y leftValue rightValue number member
  have fits := first.formed_fit second unchecked leftValue rightValue number member
  exact inRange_of_fits (fits.mono unchecked)

/-- Either branch forms the exact integers, or one that the call forms leaves 128 bits. -/
theorem combine_ends :
    Ends (fun failure => failure = Failure.overflow op.udf ∧ ¬ FormsInRange op left right a b)
      (fun values => values = binary (asI128 left) (asI128 right) (op.result a.2 b.2) ∧
        FormsInRange op left right a b)
      (combine op.udf [left, right]) := by
  rw [combine_eq first.typed second.typed]
  split
  · next unchecked =>
      have held : FormsInRange op left right a b := first.formsInRange second unchecked
      refine ⟨binary_congr ?_, held⟩
      intro row x y leftValue rightValue
      exact op.applyWrapping_eq (held row x y leftValue rightValue)
  · obtain ⟨all, passed⟩ | ⟨⟨row, x, y, leftValue, rightValue, leaves⟩, failed⟩ :=
      @tryBinary_eq _ (asI128 left) (asI128 right) _ _ _ _ (op.applyChecked_eq a.2 b.2)
    · rw [passed]
      exact ⟨rfl, all⟩
    · rw [failed]
      exact ⟨rfl, fun all => leaves (all row x y leftValue rightValue)⟩

/-- An array of exact results, at the declared type. -/
theorem Sound.call
    (bounded : Bounded (min (op.udf.resultType a b).1 decimal128MaxPrecision, op.scale a.2 b.2)) :
    Sound (.array (.decimal128 (min (op.udf.resultType a b).1 decimal128MaxPrecision)
        (op.scale a.2 b.2))
        (binary (asI128 left) (asI128 right) (op.result a.2 b.2)))
      (min (op.udf.resultType a b).1 decimal128MaxPrecision, op.scale a.2 b.2) where
  typed := rfl
  bounded := bounded
  fits below row number value := by
    have unchecked : (op.udf.resultType a b).1 ≤ decimal128MaxPrecision := by
      simp only at below
      omega
    obtain ⟨x, y, leftValue, rightValue, same⟩ := Option.map₂_eq_some_iff.mp value
    rw [Nat.min_eq_left unchecked, ← same]
    exact first.formed_fit second unchecked leftValue rightValue _ (op.result_mem_formed ..)

omit first second in
theorem invokeWithArgs_eq (precision : ℕ) (scale : ℤ) :
    invokeWithArgs op.udf [left, right] (.decimal128 precision scale) =
      combine op.udf [left, right] >>= fun values =>
        withPrecisionAndScale values precision scale := by
  cases op <;> rfl

omit first second in
theorem Bounded.withPrecisionAndScale {precision : ℕ} {scale : ℤ}
    (bounded : Bounded (precision, scale)) (values : Slots rows) :
    withPrecisionAndScale values precision scale =
      .ok (.array (.decimal128 precision scale) values) := by
  have digits := bounded.digits
  have capped := bounded.capped
  have scaled := bounded.scaled
  have integral := bounded.integral
  simp only [decimal128MaxPrecision, exasolMaxScale] at *
  apply if_neg
  omega

variable (op) in
/-- A call on sound operands is refused for its scale or an overflow, or gives a sound array
of the exact results. -/
theorem call_ends :
    Ends (fun failure => failure = .tooBigScale ∧ exasolMaxScale < op.scale a.2 b.2 ∨
        failure = .overflow op.udf ∧ ¬ FormsInRange op left right a b)
      (fun value => ∃ ps, Sound value ps ∧ ps.2 = op.scale a.2 b.2 ∧
        asI128 value = binary (asI128 left) (asI128 right) (op.result a.2 b.2) ∧
        FormsInRange op left right a b)
      (returnType op.udf [left.dataType, right.dataType] >>= invokeWithArgs op.udf
        [left, right]) := by
  have planned := returnType_ends op first.bounded second.bounded first.typed second.typed
  apply (planned.imp (fun _ => .inl) fun _ => id).bind
  rintro type ⟨rfl, bounded⟩
  rw [invokeWithArgs_eq]
  apply ((combine_ends first second).imp (fun _ => .inr) fun _ => id).bind
  rintro values ⟨rfl, inRange⟩
  rw [bounded.withPrecisionAndScale]
  exact ⟨_, first.call second bounded, rfl, rfl, inRange⟩

end Batch

/-! ## Whole trees -/

/-- The values of a type: an integer of its width, a decimal of its precision. -/
def Holds : ArrowType → ℤ → Prop
  | .integer bits true, number => InRange bits number
  | .integer bits false, number => 0 ≤ number ∧ number < 2 ^ bits
  | .decimal128 precision _, number => Fits precision number
  | _, _ => False

/-- The integer and decimal types a column can have. -/
def Declared : ArrowType → Prop
  | .integer bits _ => bits ∈ [8, 16, 32, 64]
  | .decimal128 precision scale => Bounded (precision, scale)
  | _ => False

structure Schema where
  type : String → ArrowType
  declared : ∀ name, Declared (type name)

structure Batch (schema : Schema) (rows : ℕ) where
  column : String → Slots rows
  holds : ∀ name row number, column name row = some number → Holds (schema.type name) number

structure IntegerLiteral where
  bits : ℕ
  signed : Bool
  value : Option ℤ
  standard : bits ∈ [8, 16, 32, 64]
  holds : ∀ number, value = some number → Holds (.integer bits signed) number

/-- Sums, differences and products of columns and integer literals. -/
inductive Tree where
  | column (name : String)
  | literal (constant : IntegerLiteral)
  | node (op : Arith) (left right : Tree)

def Tree.expr : Tree → Expr
  | .column name => .column name
  | .literal constant => .literal (.integer constant.bits constant.signed) constant.value
  | .node op left right => .binary op.operator left.expr right.expr

/-- The number a row of an exact array stands for. -/
def rational (type : ArrowType) (number : ℤ) : ℚ := worth (type.scale.getD 0) number

theorem scale_of_exactPs {type : ArrowType} {ps : ℕ × ℤ} (counted : exactPs type = .ok ps) :
    type.scale = some ps.2 := by
  cases type with
  | decimal128 precision scale =>
      cases counted
      rfl
  | integer bits signed =>
      simp only [exactPs] at counted
      split at counted
      · cases counted
        rfl
      · cases counted
  | _ => cases counted

theorem scale_eq_of_exactPs {type : ArrowType} {ps : ℕ × ℤ} (counted : exactPs type = .ok ps) :
    ps.2 = type.scale.getD 0 := by
  rw [scale_of_exactPs counted]
  rfl

section Meaning

variable (schema : Schema) (row : String → Option ℤ)

/-- The exact value of a tree on a row, NULL if a column or literal in it is NULL. -/
def Tree.exact : Tree → Option ℚ
  | .column name => (row name).map (rational (schema.type name))
  | .literal constant => constant.value.map fun number : ℤ => (number : ℚ)
  | .node op left right => Option.map₂ op.onWorth left.exact right.exact

/-- The scale of a tree's result. -/
def Tree.scale : Tree → ℤ
  | .column name => (schema.type name).scale.getD 0
  | .literal _ => 0
  | .node op left right => op.scale left.scale right.scale

/-- The exact value of a tree as a whole number at its scale. -/
def Tree.number : Tree → Option ℤ
  | .column name => row name
  | .literal constant => constant.value
  | .node op left right =>
      Option.map₂ (op.result (left.scale schema) (right.scale schema)) left.number right.number

/-- Every product and sum that is formed for a tree on a row. -/
def Tree.formed : Tree → List ℤ
  | .column _ | .literal _ => []
  | .node op left right =>
      left.formed ++ (right.formed ++
        ((Option.map₂ (op.formed (left.scale schema) (right.scale schema))
          (left.number schema row) (right.number schema row)).getD []))

theorem Tree.exact_eq (tree : Tree) :
    tree.exact schema row = (tree.number schema row).map (worth (tree.scale schema)) := by
  induction tree with
  | column name => rfl
  | literal constant =>
      exact Option.map_congr fun number _ => (worth_zero number).symm
  | node op left right leftIH rightIH =>
      simp only [Tree.exact, Tree.number, Tree.scale, Option.map_map₂, Arith.worth_result]
      rw [leftIH, rightIH, Option.map₂_map_left, Option.map₂_map_right]

end Meaning

theorem fits_of_unsigned {bits digits : ℕ} {number : ℤ} (held : 0 ≤ number ∧ number < 2 ^ bits)
    (room : (2 ^ bits : ℤ) ≤ 10 ^ digits) : Fits digits number := by
  unfold Fits
  rw [abs_of_nonneg held.1]
  exact lt_of_lt_of_le held.2 room

theorem bounded_integer {precision : ℕ} (digits : 1 ≤ precision)
    (capped : precision ≤ decimal128MaxPrecision) : Bounded (precision, 0) where
  digits := digits
  capped := capped
  nonneg := le_refl 0
  scaled := show (0 : ℤ) ≤ 36 by decide
  integral := Int.natCast_nonneg precision

/-- The digits counted for an integer type cover its range. -/
theorem integer_digits {bits : ℕ} {signed : Bool} (standard : bits ∈ [8, 16, 32, 64]) :
    ∃ digits, integerPrecision (.integer bits signed) = some digits ∧ 1 ≤ digits ∧
      digits ≤ decimal128MaxPrecision ∧
      ∀ number, Holds (.integer bits signed) number → Fits digits number := by
  have signedFits (bits digits : ℕ) (room : (2 ^ bits : ℤ) < 2 * 10 ^ digits) (number : ℤ)
      (held : Holds (.integer bits true) number) : Fits digits number := InRange.fits held room
  have unsignedFits (bits digits : ℕ) (room : (2 ^ bits : ℤ) ≤ 10 ^ digits) (number : ℤ)
      (held : Holds (.integer bits false) number) : Fits digits number := fits_of_unsigned held room
  simp only [List.mem_cons, List.not_mem_nil, or_false] at standard
  rcases standard with rfl | rfl | rfl | rfl <;> cases signed
  · exact ⟨3, rfl, by decide, by decide, unsignedFits 8 3 (by norm_num)⟩
  · exact ⟨3, rfl, by decide, by decide, signedFits 8 3 (by norm_num)⟩
  · exact ⟨5, rfl, by decide, by decide, unsignedFits 16 5 (by norm_num)⟩
  · exact ⟨5, rfl, by decide, by decide, signedFits 16 5 (by norm_num)⟩
  · exact ⟨10, rfl, by decide, by decide, unsignedFits 32 10 (by norm_num)⟩
  · exact ⟨10, rfl, by decide, by decide, signedFits 32 10 (by norm_num)⟩
  · exact ⟨20, rfl, by decide, by decide, unsignedFits 64 20 (by norm_num)⟩
  · exact ⟨19, rfl, by decide, by decide, signedFits 64 19 (by norm_num)⟩

/-- The declared precision of a type bounds its values. -/
theorem Declared.exactPs {type : ArrowType} (declared : Declared type) :
    ∃ ps, exactPs type = .ok ps ∧ Bounded ps ∧ ∀ number, Holds type number → Fits ps.1 number := by
  cases type with
  | decimal128 precision scale => exact ⟨(precision, scale), rfl, declared, fun _ held => held⟩
  | integer bits signed =>
      obtain ⟨digits, counted, positive, capped, fits⟩ := @integer_digits bits signed declared
      refine ⟨(digits, 0), ?_, bounded_integer positive capped, fits⟩
      simp only [ExactArithmetic.exactPs, counted]
  | _ => exact declared.elim

theorem Tree.scale_nonneg (schema : Schema) (tree : Tree) : 0 ≤ tree.scale schema := by
  induction tree with
  | column name =>
      have declared := schema.declared name
      unfold Tree.scale
      cases type : schema.type name with
      | decimal128 precision scale =>
          rw [type] at declared
          exact Bounded.nonneg declared
      | integer bits signed => exact le_refl 0
      | _ =>
          rw [type] at declared
          exact declared.elim
  | literal constant => exact le_refl 0
  | node op left right leftIH rightIH =>
      cases op with
      | plus | minus => exact le_max_of_le_left leftIH
      | times => exact add_nonneg leftIH rightIH

theorem Tree.scale_le_node (schema : Schema) (op : Arith) (left right : Tree) :
    left.scale schema ≤ (Tree.node op left right).scale schema ∧
      right.scale schema ≤ (Tree.node op left right).scale schema := by
  have leftScale := left.scale_nonneg schema
  have rightScale := right.scale_nonneg schema
  cases op <;> simp only [Tree.scale, Arith.scale] <;> omega

/-- The calls a tree is rewritten to. -/
def Tree.planned : Tree → Expr
  | .column name => .column name
  | .literal constant => .literal (.integer constant.bits constant.signed) constant.value
  | .node op left right =>
      .call op.udf (tightenLiteral left.planned) (tightenLiteral right.planned)

/-- A literal's digits cover it. -/
theorem fits_digits (number : ℤ) : Fits (Nat.log 10 number.natAbs + 1) number := by
  have below := Nat.lt_pow_succ_log_self (b := 10) (by decide) number.natAbs
  unfold Fits
  rw [Int.abs_eq_natAbs]
  exact_mod_cast below

theorem IntegerLiteral.bounded (constant : IntegerLiteral) {number : ℤ}
    (value : constant.value = some number) : Bounded (Nat.log 10 number.natAbs + 1, 0) := by
  obtain ⟨digits, -, positive, capped, fits⟩ :=
    @integer_digits constant.bits constant.signed constant.standard
  have below : number.natAbs < 10 ^ digits := by
    have := fits number (constant.holds number value)
    rw [Fits, Int.abs_eq_natAbs] at this
    exact_mod_cast this
  have log : Nat.log 10 number.natAbs < digits := Nat.log_lt_of_lt_pow' (by omega) below
  exact bounded_integer (by omega) (by omega)

section Plans

variable (engine : Engine) (schema : Schema)

/-- The refusal of a tree's scale. -/
def ScaleRefused (tree : Tree) (failure : Failure) : Prop :=
  failure = .tooBigScale ∧ exasolMaxScale < tree.scale schema

/-- The type of a planned tree can be worked on and has the tree's scale. -/
def Typed (tree : Tree) (expr : Expr) : Prop :=
  Ends (ScaleRefused schema tree)
    (fun type => ∃ ps, exactPs type = .ok ps ∧ Bounded ps ∧ ps.2 = tree.scale schema)
    (getType engine schema.type expr)

variable {engine schema}

theorem ScaleRefused.left {op : Arith} {left : Tree} {failure : Failure}
    (refused : ScaleRefused schema left failure) (right : Tree) :
    ScaleRefused schema (.node op left right) failure :=
  ⟨refused.1, lt_of_lt_of_le refused.2 (Tree.scale_le_node schema op left right).1⟩

theorem ScaleRefused.right {op : Arith} {right : Tree} {failure : Failure}
    (refused : ScaleRefused schema right failure) (left : Tree) :
    ScaleRefused schema (.node op left right) failure :=
  ⟨refused.1, lt_of_lt_of_le refused.2 (Tree.scale_le_node schema op left right).2⟩

theorem Typed.call {op : Arith} {left right : Tree} {first second : Expr}
    (leftTyped : Typed engine schema left first) (rightTyped : Typed engine schema right second) :
    Typed engine schema (.node op left right) (.call op.udf first second) := by
  refine Ends.bind (leftTyped.imp (fun _ refused => refused.left right) fun _ => id) ?_
  rintro leftType ⟨a, leftPs, leftBounded, leftScale⟩
  refine Ends.bind (rightTyped.imp (fun _ refused => refused.right left) fun _ => id) ?_
  rintro rightType ⟨b, rightPs, rightBounded, rightScale⟩
  have ends := returnType_ends op leftBounded rightBounded leftPs rightPs
  rw [leftScale, rightScale] at ends
  refine ends.imp (fun _ => id) ?_
  rintro type ⟨rfl, bounded⟩
  exact ⟨_, rfl, bounded, rfl⟩

theorem Tree.typed_tight {tree : Tree} (typed : Typed engine schema tree tree.planned) :
    Typed engine schema tree (tightenLiteral tree.planned) := by
  cases tree with
  | column | node => exact typed
  | literal constant =>
      cases value : constant.value with
      | none =>
          simp only [Tree.planned, value] at *
          exact typed
      | some number =>
          simp only [Tree.planned, value]
          exact ⟨_, rfl, constant.bounded value, rfl⟩

theorem Tree.typed (tree : Tree) : Typed engine schema tree tree.planned := by
  induction tree with
  | column name =>
      obtain ⟨ps, counted, bounded, -⟩ := (schema.declared name).exactPs
      exact ⟨ps, counted, bounded, scale_eq_of_exactPs counted⟩
  | literal constant =>
      have declared : Declared (.integer constant.bits constant.signed) := constant.standard
      obtain ⟨ps, counted, bounded, -⟩ := declared.exactPs
      exact ⟨ps, counted, bounded, scale_eq_of_exactPs counted⟩
  | node op left right leftIH rightIH => exact .call (typed_tight leftIH) (typed_tight rightIH)

theorem isExact_of_exactPs {type : ArrowType} {ps : ℕ × ℤ} (counted : exactPs type = .ok ps) :
    isExact type = true := by
  cases type with
  | integer | decimal128 => rfl
  | _ => cases counted

/-- Operands of exact types become the operands of a call. -/
theorem rewriteBinary_ends {op : Arith} {left right : Tree} {first second : Expr}
    (leftTyped : Typed engine schema left first) (rightTyped : Typed engine schema right second) :
    Ends (ScaleRefused schema (.node op left right))
      (· = .call op.udf (tightenLiteral first) (tightenLiteral second))
      (rewriteBinary engine schema.type op.operator first second) := by
  unfold rewriteBinary
  rw [op.operator_udf]
  refine Ends.bind (leftTyped.imp (fun _ refused => refused.left right) fun _ => id) ?_
  rintro leftType ⟨a, leftPs, -⟩
  rw [if_pos (isExact_of_exactPs leftPs)]
  refine Ends.bind (rightTyped.imp (fun _ refused => refused.right left) fun _ => id) ?_
  rintro rightType ⟨b, rightPs, -⟩
  rw [if_pos (isExact_of_exactPs rightPs)]
  rfl

theorem Tree.rewrite_ends (tree : Tree) :
    Ends (ScaleRefused schema tree) (· = tree.planned)
      (rewriteExpr engine schema.type tree.expr) := by
  induction tree with
  | column name => rfl
  | literal constant => rfl
  | node op left right leftIH rightIH =>
      refine Ends.bind (leftIH.imp (fun _ refused => refused.left right) fun _ => id) ?_
      rintro _ rfl
      refine Ends.bind (rightIH.imp (fun _ refused => refused.right left) fun _ => id) ?_
      rintro _ rfl
      exact rewriteBinary_ends left.typed right.typed

variable (schema) {rows : ℕ} (batch : Batch schema rows)

/-- On every row 128 bits hold all that is formed for a tree. -/
def Tree.AllInRange (tree : Tree) : Prop :=
  ∀ row, ∀ number ∈ tree.formed schema (batch.column · row), InRange 128 number

/-- The two errors of exact arithmetic, each with its cause. -/
def Refused (tree : Tree) (failure : Failure) : Prop :=
  ScaleRefused schema tree failure ∨ ∃ op, failure = .overflow op ∧ ¬ tree.AllInRange schema batch

/-- The exact numbers of a tree, none of whose parts left 128 bits. -/
structure Computed (tree : Tree) (value : Columnar rows) (ps : ℕ × ℤ) : Prop where
  sound : Sound value ps
  scale : ps.2 = tree.scale schema
  numbers : ∀ row, asI128 value row = tree.number schema (batch.column · row)
  inRange : tree.AllInRange schema batch

variable (engine) in
/-- An expression that is refused or gives the exact value of a tree on every row. -/
def Evaluates (tree : Tree) (expr : Expr) : Prop :=
  Ends (Refused schema batch tree) (fun value => ∃ ps, Computed schema batch tree value ps)
    (evaluate engine schema.type batch.column expr)

variable {schema batch}

/-- What is formed for a node is formed for its operands or by its call. -/
theorem Computed.node_inRange_iff (op : Arith) {left right : Tree}
    {leftValue rightValue : Columnar rows} {a b : ℕ × ℤ}
    (first : Computed schema batch left leftValue a)
    (second : Computed schema batch right rightValue b) :
    (Tree.node op left right).AllInRange schema batch ↔
      FormsInRange op leftValue rightValue a b := by
  constructor
  · intro all row x y atLeft atRight number member
    refine all row number (List.mem_append_right _ (List.mem_append_right _ ?_))
    rw [← first.numbers row, ← second.numbers row, ← first.scale, ← second.scale, atLeft, atRight]
    exact member
  · intro formed row number member
    rcases List.mem_append.mp member with below | member
    · exact first.inRange row number below
    rcases List.mem_append.mp member with below | here
    · exact second.inRange row number below
    · rw [← first.numbers row, ← second.numbers row, ← first.scale, ← second.scale] at here
      cases atLeft : asI128 leftValue row with
      | none => simp [atLeft] at here
      | some x =>
          cases atRight : asI128 rightValue row with
          | none => simp [atRight] at here
          | some y =>
              rw [atLeft, atRight] at here
              exact formed row x y atLeft atRight number here

theorem Refused.left {op : Arith} {left : Tree} {failure : Failure}
    (refused : Refused schema batch left failure) (right : Tree) :
    Refused schema batch (.node op left right) failure := by
  rcases refused with scale | ⟨udf, same, leaves⟩
  · exact .inl (scale.left right)
  · exact .inr ⟨udf, same, fun all => leaves fun row number member =>
      all row number (List.mem_append_left _ member)⟩

theorem Refused.right {op : Arith} {right : Tree} {failure : Failure}
    (refused : Refused schema batch right failure) (left : Tree) :
    Refused schema batch (.node op left right) failure := by
  rcases refused with scale | ⟨udf, same, leaves⟩
  · exact .inl (scale.right left)
  · exact .inr ⟨udf, same, fun all => leaves fun row number member =>
      all row number (List.mem_append_right _ (List.mem_append_left _ member))⟩

theorem Evaluates.call {op : Arith} {left right : Tree} {first second : Expr}
    (leftEvaluates : Evaluates engine schema batch left first)
    (rightEvaluates : Evaluates engine schema batch right second) :
    Evaluates engine schema batch (.node op left right) (.call op.udf first second) := by
  refine Ends.bind (leftEvaluates.imp (fun _ refused => refused.left right) fun _ => id) ?_
  rintro leftValue ⟨a, leftComputed⟩
  refine Ends.bind (rightEvaluates.imp (fun _ refused => refused.right left) fun _ => id) ?_
  rintro rightValue ⟨b, rightComputed⟩
  have inRange := leftComputed.node_inRange_iff op rightComputed
  refine (call_ends op leftComputed.sound rightComputed.sound).imp ?_ ?_
  · rintro failure (⟨rfl, tooBig⟩ | ⟨rfl, leaves⟩)
    · rw [leftComputed.scale, rightComputed.scale] at tooBig
      exact .inl ⟨rfl, tooBig⟩
    · exact .inr ⟨_, rfl, mt inRange.mp leaves⟩
  · rintro value ⟨ps, sound, scale, numbers, held⟩
    rw [leftComputed.scale, rightComputed.scale] at scale
    refine ⟨ps, sound, scale, fun row => ?_, inRange.mpr held⟩
    rw [numbers, leftComputed.scale, rightComputed.scale, binary, leftComputed.numbers,
      rightComputed.numbers]
    rfl

theorem Tree.evaluates_tight {tree : Tree}
    (evaluates : Evaluates engine schema batch tree tree.planned) :
    Evaluates engine schema batch tree (tightenLiteral tree.planned) := by
  cases tree with
  | column | node => exact evaluates
  | literal constant =>
      cases value : constant.value with
      | none =>
          simp only [Tree.planned, value] at *
          exact evaluates
      | some number =>
          simp only [Tree.planned, value]
          refine ⟨_, ⟨rfl, constant.bounded value, ?_⟩, rfl, fun row => ?_,
            fun _ => List.forall_mem_nil _⟩
          · intro _ row other same
            cases same
            exact fits_digits number
          · simp [Tree.number, value]

theorem Tree.evaluates (tree : Tree) : Evaluates engine schema batch tree tree.planned := by
  induction tree with
  | column name =>
      obtain ⟨ps, counted, bounded, fits⟩ := (schema.declared name).exactPs
      refine ⟨ps, ⟨counted, bounded, fun _ row number value => ?_⟩,
        scale_eq_of_exactPs counted, fun _ => rfl, fun _ => List.forall_mem_nil _⟩
      exact fits number (batch.holds name row number value)
  | literal constant =>
      have declared : Declared (.integer constant.bits constant.signed) := constant.standard
      obtain ⟨ps, counted, bounded, fits⟩ := declared.exactPs
      refine ⟨ps, ⟨counted, bounded, fun _ row number value => ?_⟩,
        scale_eq_of_exactPs counted, fun _ => rfl, fun _ => List.forall_mem_nil _⟩
      exact fits number (constant.holds number value)
  | node op left right leftIH rightIH =>
      exact .call (evaluates_tight leftIH) (evaluates_tight rightIH)

/-! ## The unchecked branch -/

def Expr.calls : Expr → List (ExactOp × Expr × Expr)
  | .column _ | .literal _ _ => []
  | .binary _ left right => left.calls ++ right.calls
  | .call op left right => (op, left, right) :: (left.calls ++ right.calls)

variable (engine schema batch) in
/-- A call that takes the unchecked branch keeps every product and sum in 128 bits. -/
def Unwrapped (op : Arith) (first second : Expr) : Prop :=
  ∀ left right a b,
    evaluate engine schema.type batch.column first = .ok left →
    evaluate engine schema.type batch.column second = .ok right →
    exactPs left.dataType = .ok a → exactPs right.dataType = .ok b →
    (op.udf.resultType a b).1 ≤ decimal128MaxPrecision →
    FormsInRange op left right a b

theorem Evaluates.unwrapped (op : Arith) {left right : Tree} {first second : Expr}
    (leftEvaluates : Evaluates engine schema batch left first)
    (rightEvaluates : Evaluates engine schema batch right second) :
    Unwrapped engine schema batch op first second := by
  intro leftValue rightValue a b leftRun rightRun leftType rightType unchecked
  unfold Evaluates at leftEvaluates rightEvaluates
  rw [leftRun] at leftEvaluates
  rw [rightRun] at rightEvaluates
  obtain ⟨_, leftComputed⟩ := leftEvaluates
  obtain ⟨_, rightComputed⟩ := rightEvaluates
  cases leftType.symm.trans leftComputed.sound.typed
  cases rightType.symm.trans rightComputed.sound.typed
  exact leftComputed.sound.formsInRange rightComputed.sound unchecked

theorem calls_tighten (expr : Expr) : (tightenLiteral expr).calls = expr.calls := by
  fun_cases tightenLiteral expr <;> rfl

/-- Every call of a planned tree is one of the three operations and keeps to 128 bits where it
does not check. -/
theorem Tree.calls_unwrapped (tree : Tree) :
    ∀ call ∈ tree.planned.calls, ∃ op : Arith, call.1 = op.udf ∧
      Unwrapped engine schema batch op call.2.1 call.2.2 := by
  induction tree with
  | column | literal => exact List.forall_mem_nil _
  | node op left right leftIH rightIH =>
      intro call member
      simp only [Tree.planned, Expr.calls, calls_tighten, List.mem_cons, List.mem_append] at member
      rcases member with rfl | member | member
      · exact ⟨op, rfl, Evaluates.unwrapped op (evaluates_tight left.evaluates)
          (evaluates_tight right.evaluates)⟩
      · exact leftIH call member
      · exact rightIH call member

end Plans

/-- A tree is refused for a scale above the limit, or for a number it forms that leaves 128
bits, or else every row holds its exact value at the scale of the result; and no call that does
not check forms a number outside 128 bits. -/
theorem run_exact_or_refused (engine : Engine) (schema : Schema) {rows : ℕ}
    (batch : Batch schema rows) (tree : Tree) :
    ((∃ value, run engine schema.type batch.column tree.expr = .ok value ∧
        tree.scale schema ≤ exasolMaxScale ∧ tree.AllInRange schema batch ∧
        value.dataType.scale = some (tree.scale schema) ∧
        ∀ row, (asI128 value row).map (rational value.dataType) =
          tree.exact schema (batch.column · row)) ∨
      run engine schema.type batch.column tree.expr = .error .tooBigScale ∧
        exasolMaxScale < tree.scale schema ∨
      ∃ op, run engine schema.type batch.column tree.expr = .error (.overflow op) ∧
        tree.scale schema ≤ exasolMaxScale ∧ ¬ tree.AllInRange schema batch) ∧
    ∀ rewritten, rewriteExpr engine schema.type tree.expr = .ok rewritten →
      ∀ call ∈ rewritten.calls, ∃ op : Arith, call.1 = op.udf ∧
        Unwrapped engine schema batch op call.2.1 call.2.2 := by
  have rewrites := @Tree.rewrite_ends engine schema tree
  constructor
  · have ends : Ends (fun failure => ScaleRefused schema tree failure ∨
          tree.scale schema ≤ exasolMaxScale ∧ Refused schema batch tree failure)
        (fun value => tree.scale schema ≤ exasolMaxScale ∧
          ∃ ps, Computed schema batch tree value ps)
        (run engine schema.type batch.column tree.expr) := by
      refine Ends.bind (rewrites.imp (fun _ => .inl) fun _ => id) ?_
      rintro _ rfl
      refine Ends.bind (tree.typed.imp (fun _ => .inl) fun _ => id) ?_
      -- The plan has a type, so the scale is within the limit.
      rintro type ⟨ps, -, bounded, scale⟩
      have scaled : tree.scale schema ≤ exasolMaxScale := scale ▸ bounded.scaled
      exact tree.evaluates.imp (fun _ refused => .inr ⟨scaled, refused⟩) fun _ => .intro scaled
    cases outcome : run engine schema.type batch.column tree.expr with
    | error failure =>
        rw [outcome] at ends
        rcases ends with ⟨rfl, tooBig⟩ | ⟨scaled, ⟨rfl, tooBig⟩ | ⟨op, rfl, leaves⟩⟩
        · exact .inr (.inl ⟨rfl, tooBig⟩)
        · exact .inr (.inl ⟨rfl, tooBig⟩)
        · exact .inr (.inr ⟨op, rfl, scaled, leaves⟩)
    | ok value =>
        rw [outcome] at ends
        obtain ⟨scaled, ps, computed⟩ := ends
        have typed := scale_of_exactPs computed.sound.typed
        refine .inl ⟨value, rfl, scaled, computed.inRange, ?_, fun row => ?_⟩
        · rw [typed, computed.scale]
        · rw [computed.numbers row, tree.exact_eq, ← computed.scale]
          exact congrArg (Option.map · _) (funext fun number => by rw [rational, typed]; rfl)
  · intro rewritten planned
    rw [planned] at rewrites
    cases rewrites
    exact tree.calls_unwrapped

section Instances

/-- An engine that refuses whatever is left to it. -/
def noEngine : Engine where
  binaryType _ _ _ := .error (.plan "no engine")
  binary _ _ _ := .error (.execution "no engine")

/-- A column of 36 fraction digits, one without any, and whole numbers of 64 bits. -/
def threeColumns : Schema where
  type name :=
    if name = "fine" then .decimal128 38 36
    else if name = "wide" then .decimal128 38 0
    else .integer 64 true
  declared name := by
    split
    · exact ⟨by decide, by decide, by decide, by decide, by decide⟩
    · split
      · exact ⟨by decide, by decide, by decide, by decide, by decide⟩
      · exact List.mem_of_elem_eq_true rfl

/-- One row with the largest whole number and 38 digits in the others. -/
def oneRow : Batch threeColumns 1 where
  column name _ :=
    some (if name = "fine" ∨ name = "wide" then 99999999999999999999999999999999999999
      else 9223372036854775807)
  holds name row number value := by
    have digits : Fits 38 99999999999999999999999999999999999999 := by decide
    have whole : InRange 64 9223372036854775807 := by decide
    cases value
    by_cases fine : name = "fine"
    · simpa [threeColumns, Holds, fine] using digits
    · by_cases wide : name = "wide"
      · simpa [threeColumns, Holds, fine, wide] using digits
      · simpa [threeColumns, Holds, fine, wide] using whole

/-- The sum of the largest whole number with itself, and two products that are refused. -/
theorem run_exact_or_refused_row :
    (∃ value, run noEngine threeColumns.type oneRow.column
        (Tree.node .plus (.column "id") (.column "id")).expr = .ok value ∧
      (asI128 value 0).map (rational value.dataType) = some 18446744073709551614) ∧
    run noEngine threeColumns.type oneRow.column
      (Tree.node .times (.column "fine") (.column "fine")).expr = .error .tooBigScale ∧
    ∃ op, run noEngine threeColumns.type oneRow.column
      (Tree.node .times (.column "wide") (.column "wide")).expr = .error (.overflow op) := by
  refine ⟨?_, ?_, ?_⟩
  · obtain ⟨value, ran, -, -, -, exact⟩ | ⟨-, tooBig⟩ | ⟨-, -, -, leaves⟩ :=
      (run_exact_or_refused noEngine threeColumns oneRow
        (.node .plus (.column "id") (.column "id"))).1
    · refine ⟨value, ran, (exact 0).trans ?_⟩
      decide +kernel
    · exact absurd tooBig (by decide)
    · exact absurd (by unfold Tree.AllInRange; decide) leaves
  · obtain ⟨-, -, scaled, -⟩ | ⟨refused, -⟩ | ⟨-, -, scaled, -⟩ :=
      (run_exact_or_refused noEngine threeColumns oneRow
        (.node .times (.column "fine") (.column "fine"))).1
    · exact absurd scaled (by decide)
    · exact refused
    · exact absurd scaled (by decide)
  · obtain ⟨-, -, -, held, -⟩ | ⟨-, tooBig⟩ | ⟨op, refused, -⟩ :=
      (run_exact_or_refused noEngine threeColumns oneRow
        (.node .times (.column "wide") (.column "wide"))).1
    · exact absurd held (by unfold Tree.AllInRange; decide)
    · exact absurd tooBig (by decide)
    · exact ⟨op, refused⟩

end Instances

end LakehouseEngine.ExactArithmetic
