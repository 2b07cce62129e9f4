import LakehouseEngine.Numeric.FixedPoint
import LakehouseEngine.Types.ArrowType
import LakehouseEngine.Data.Fallible
import Mathlib.Data.Nat.Log

/-!
# Exact arithmetic of a scan

Before type coercion, `+`, `-` and `*` over integers and decimals are replaced by calls
that work on 128-bit integers at Exasol's result type.  A call whose result type has at
most 38 digits wraps, any other one checks; the declared precision is capped at 38, so
a checked result may hold more digits than its type says.
-/

namespace LakehouseEngine.ExactArithmetic

open FixedPoint

def exasolMaxScale : ℤ := 36

def decimal128MaxPrecision : ℕ := 38

inductive ExactOp where
  | widen | add | sub | mul
  deriving DecidableEq

def ExactOp.name : ExactOp → String
  | .widen => "exa_widen"
  | .add => "exa_add"
  | .sub => "exa_sub"
  | .mul => "exa_mul"

inductive Failure where
  | plan (message : String)
  | execution (message : String)
  /-- Exact arithmetic over a type that is not exact. -/
  | inexact (type : ArrowType)
  /-- A decimal type Arrow has no arrays of. -/
  | invalidDecimal (precision : ℕ) (scale : ℤ)
  deriving DecidableEq

def numericOverflow (detail : String) : String :=
  "data exception - numeric value out of range: " ++ detail

def Failure.overflow (op : ExactOp) : Failure :=
  .execution (numericOverflow (op.name ++ " exceeds the 128-bit internal number representation"))

def Failure.tooBigScale : Failure :=
  .plan "data exception - An exact numeric operation needs a too big scale"

/-! ## Types -/

def isInteger : ArrowType → Bool
  | .integer _ _ => true
  | _ => false

def isExact : ArrowType → Bool
  | .integer _ _ | .decimal128 _ _ => true
  | _ => false

def integerPrecision : ArrowType → Option ℕ
  | .integer 8 _ => some 3
  | .integer 16 _ => some 5
  | .integer 32 _ => some 10
  | .integer 64 true => some 19
  | .integer 64 false => some 20
  | _ => none

def exactPs (type : ArrowType) : Except Failure (ℕ × ℤ) :=
  match type with
  | .decimal128 precision scale => .ok (precision, scale)
  | _ =>
      match integerPrecision type with
      | some precision => .ok (precision, 0)
      | none => .error (.inexact type)

/-- Exasol's result type, before the cap on its digits. -/
def ExactOp.resultType (op : ExactOp) (a b : ℕ × ℤ) : ℕ × ℤ :=
  match op with
  | .widen => a
  | .mul => (a.1 + b.1, a.2 + b.2)
  | .add | .sub =>
      let scale := max a.2 b.2
      let integerDigits := max (a.1 - a.2) (b.1 - b.2)
      -- The sum is cast to `u16`.
      (((integerDigits + scale + 1) % 65536).toNat, scale)

def returnType (op : ExactOp) (args : List ArrowType) : Except Failure ArrowType :=
  match args with
  | [] => .error (.execution (op.name ++ " takes an argument"))
  | first :: others => do
      let a ← exactPs first
      let b ← match others with
        | second :: _ => exactPs second
        | [] => pure a
      let result := op.resultType a b
      if result.2 > exasolMaxScale then .error .tooBigScale
      else return .decimal128 (min result.1 decimal128MaxPrecision) result.2

/-! ## One row -/

def ExactOp.applyWrapping (op : ExactOp) (x y fx fy : ℤ) : ℤ :=
  match op with
  | .add => wrap 128 (wrap 128 (x * fx) + wrap 128 (y * fy))
  | .sub => wrap 128 (wrap 128 (x * fx) - wrap 128 (y * fy))
  | .mul | .widen => wrap 128 (x * y)

def ExactOp.applyChecked (op : ExactOp) (x y fx fy : ℤ) : Option ℤ :=
  match op with
  | .add => do
      let left ← checked 128 (x * fx)
      let right ← checked 128 (y * fy)
      checked 128 (left + right)
  | .sub => do
      let left ← checked 128 (x * fx)
      let right ← checked 128 (y * fy)
      checked 128 (left - right)
  | .mul | .widen => checked 128 (x * y)

/-- The powers of ten that bring both sides of a sum to one scale. -/
def ExactOp.factors (op : ExactOp) (a b : ℤ) : ℤ × ℤ :=
  match op with
  | .add | .sub => (10 ^ (max a b - a).toNat, 10 ^ (max a b - b).toNat)
  | .mul | .widen => (1, 1)

/-! ## Batches -/

section Batch

variable {rows : ℕ}

/-- The rows of one array, NULL or an integer. -/
abbrev Slots (rows : ℕ) := Fin rows → Option ℤ

inductive Columnar (rows : ℕ) where
  | scalar (dataType : ArrowType) (value : Option ℤ)
  | array (dataType : ArrowType) (values : Slots rows)

def Columnar.dataType : Columnar rows → ArrowType
  | .scalar dataType _ | .array dataType _ => dataType

/-- `to_array`, which repeats a scalar.  Every integer type goes to `i128` unchanged. -/
def asI128 : Columnar rows → Slots rows
  | .scalar _ value => fun _ => value
  | .array _ values => values

@[simp] theorem asI128_scalar (type : ArrowType) (value : Option ℤ) (row : Fin rows) :
    asI128 (.scalar type value) row = value := rfl

@[simp] theorem asI128_array (type : ArrowType) (values : Slots rows) :
    asI128 (.array type values) = values := rfl

inductive Operand (rows : ℕ) where
  | scalar (value : ℤ)
  | int64 (values : Slots rows)
  | wide (values : Slots rows)

def Operand.of : Columnar rows → Operand rows
  | .scalar (.decimal128 _ _) (some value) => .scalar value
  | .scalar (.integer 64 true) (some value) => .scalar value
  | .array (.integer _ true) values => .int64 values
  | value => .wide (asI128 value)

def Operand.intoWide : Operand rows → Slots rows
  | .scalar value => fun _ => some value
  | .int64 values | .wide values => values

def unary (values : Slots rows) (f : ℤ → ℤ) : Slots rows := fun row => (values row).map f

def binary (left right : Slots rows) (f : ℤ → ℤ → ℤ) : Slots rows :=
  fun row => Option.map₂ f (left row) (right row)

/-- NULL slots are skipped; the first row that fails ends the batch. -/
def tryBinary (left right : Slots rows) (f : ℤ → ℤ → Option ℤ) : Option (Slots rows) :=
  if ∃ row, Option.map₂ f (left row) (right row) = some none then none
  else some fun row => (Option.map₂ f (left row) (right row)).join

/-- The kernels of the unchecked branch, one for each pair of operand shapes. -/
def Operand.unchecked (f : ℤ → ℤ → ℤ) : Operand rows → Operand rows → Slots rows
  | .int64 x, .int64 y => binary x y f
  | .int64 x, .scalar c => unary x fun x => f x c
  | .scalar c, .int64 y => unary y fun y => f c y
  | .wide x, .scalar c => unary x fun x => f x c
  | .scalar c, .wide y => unary y fun y => f c y
  | left, right => binary left.intoWide right.intoWide f

def combine (op : ExactOp) (args : List (Columnar rows)) : Except Failure (Slots rows) :=
  match args with
  | [left, right] => do
      let a ← exactPs left.dataType
      let b ← exactPs right.dataType
      let (fa, fb) := op.factors a.2 b.2
      if (op.resultType a b).1 ≤ decimal128MaxPrecision then
        return Operand.unchecked (fun x y => op.applyWrapping x y fa fb) (Operand.of left)
          (Operand.of right)
      else
        match tryBinary (Operand.of left).intoWide (Operand.of right).intoWide
            fun x y => op.applyChecked x y fa fb with
        | some values => return values
        | none => .error (.overflow op)
  | _ => .error (.execution (op.name ++ " takes two arguments"))

/-- Arrow checks the type, not the values. -/
def withPrecisionAndScale (values : Slots rows) (precision : ℕ) (scale : ℤ) :
    Except Failure (Columnar rows) :=
  if precision = 0 ∨ precision > 38 ∨ scale > 38 ∨ (scale > 0 ∧ scale > precision) then
    .error (.invalidDecimal precision scale)
  else .ok (.array (.decimal128 precision scale) values)

def invokeWithArgs (op : ExactOp) (args : List (Columnar rows)) (returnField : ArrowType) :
    Except Failure (Columnar rows) :=
  match returnField with
  | .decimal128 precision scale => do
      let values ← match op, args with
        | .widen, value :: _ => pure (asI128 value)
        | _, _ => combine op args
      withPrecisionAndScale values precision scale
  | _ => .error (.execution (op.name ++ " must return Decimal128"))

end Batch

/-! ## The rule -/

inductive Operator where
  | plus | minus | multiply | divide | modulo
  deriving DecidableEq

/-- The call that takes an operator's place. -/
def Operator.udf : Operator → Option ExactOp
  | .plus => some .add
  | .minus => some .sub
  | .multiply => some .mul
  | .divide | .modulo => none

inductive Expr where
  | column (name : String)
  | literal (type : ArrowType) (value : Option ℤ)
  | binary (op : Operator) (left right : Expr)
  | call (op : ExactOp) (left right : Expr)

/-- What DataFusion does with an operator the rule leaves alone. -/
structure Engine where
  binaryType : Operator → ArrowType → ArrowType → Except Failure ArrowType
  binary : {rows : ℕ} → Operator → Columnar rows → Columnar rows → Except Failure (Columnar rows)

/-- An integer literal is typed by its digits. -/
def tightenLiteral : Expr → Expr
  | .literal type (some value) =>
      if isInteger type then
        .literal (.decimal128 (Nat.log 10 value.natAbs + 1) 0) (some value)
      else .literal type (some value)
  | expr => expr

section Rule

variable (engine : Engine) (types : String → ArrowType)

def getType : Expr → Except Failure ArrowType
  | .column name => .ok (types name)
  | .literal type _ => .ok type
  | .binary op left right => do
      let leftType ← getType left
      let rightType ← getType right
      engine.binaryType op leftType rightType
  | .call op left right => do
      let leftType ← getType left
      let rightType ← getType right
      returnType op [leftType, rightType]

def rewriteBinary (op : Operator) (left right : Expr) : Except Failure Expr :=
  match op.udf with
  | none => .ok (.binary op left right)
  | some udf => do
      let leftType ← getType engine types left
      if isExact leftType then
        let rightType ← getType engine types right
        if isExact rightType then
          return .call udf (tightenLiteral left) (tightenLiteral right)
        else return .binary op left right
      else return .binary op left right

/-- The operands are rewritten first. -/
def rewriteExpr : Expr → Except Failure Expr
  | .binary op left right => do
      let left ← rewriteExpr left
      let right ← rewriteExpr right
      rewriteBinary engine types op left right
  | .call op left right => do
      let left ← rewriteExpr left
      let right ← rewriteExpr right
      return .call op left right
  | expr => .ok expr

variable {rows : ℕ} (columns : String → Slots rows)

def evaluate : Expr → Except Failure (Columnar rows)
  | .column name => .ok (.array (types name) (columns name))
  | .literal type value => .ok (.scalar type value)
  | .binary op left right => do
      let left ← evaluate left
      let right ← evaluate right
      engine.binary op left right
  | .call op left right => do
      let left ← evaluate left
      let right ← evaluate right
      let returnField ← returnType op [left.dataType, right.dataType]
      invokeWithArgs op [left, right] returnField

/-- A query plans an expression, and its type with it, before it reads a row. -/
def run (expr : Expr) : Except Failure (Columnar rows) := do
  let rewritten ← rewriteExpr engine types expr
  let _ ← getType engine types rewritten
  evaluate engine types columns rewritten

end Rule

end LakehouseEngine.ExactArithmetic
