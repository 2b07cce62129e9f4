import LakehouseEngine.Expression.Node
import LakehouseEngine.Text.Numeral
import Mathlib.Data.String.Basic
import Mathlib.Order.Defs.LinearOrder

/-!
# Meaning of a request tree

A tree denotes an SQL value on a row, under three-valued logic.  The comparison
predicates, the connectives, `IN`, `BETWEEN`, `IS NULL` and `CASE` are fixed by SQL.
What an engine's scalar functions, casts and `LIKE` compute, and how a calendar text
is read, are the fields of a `Reading`, so every result holds for each of them.
-/

namespace LakehouseEngine

/-- An SQL value.  Numbers are exact, a floating-point column may also hold an infinity,
a date counts days and a timestamp counts seconds from one common origin. -/
inductive Value where
  | null
  | bool (value : Bool)
  | num (value : ℚ)
  | infinite (positive : Bool)
  | text (value : String)
  | date (days : ℤ)
  | timestamp (seconds : ℚ)
  | bytes (value : List Nat)
  deriving DecidableEq

namespace Value

def ofTruth : Truth → Value
  | some value => .bool value
  | none => .null

/-- The reading of a value in a condition. -/
def truth : Value → Truth
  | .bool value => some value
  | _ => none

@[simp] theorem truth_ofTruth (value : Truth) : (ofTruth value).truth = value := by
  cases value <;> rfl

@[simp] theorem ofTruth_inj {left right : Truth} : ofTruth left = ofTruth right ↔ left = right :=
  ⟨fun equal => by simpa using congrArg truth equal, fun equal => by rw [equal]⟩

def isNull (value : Value) : Bool := value == .null

/-- Values of one kind compare in that kind's order.  NULL compares with nothing, and
`mixed` orders two values of different kinds. -/
def compareWith (mixed : Value → Value → Option Ordering) : Value → Value → Option Ordering
  | .null, _ | _, .null => none
  | .bool left, .bool right => some (compare left right)
  | .num left, .num right => some (compare left right)
  | .num _, .infinite positive => some (if positive then .lt else .gt)
  | .infinite positive, .num _ => some (if positive then .gt else .lt)
  | .infinite left, .infinite right => some (compare left right)
  | .text left, .text right => some (compare left right)
  | .date left, .date right => some (compare left right)
  | .timestamp left, .timestamp right => some (compare left right)
  | .bytes left, .bytes right => some (compare left right)
  | left, right => mixed left right

/-- The order of two values of one kind. -/
abbrev order : Value → Value → Option Ordering := compareWith fun _ _ => none

/-- Where two values compare without `mixed`, they do so under every `mixed`, and the
other way round once swapped. -/
theorem compareWith_same_kind {left right : Value} {ordering : Ordering}
    (same : order left right = some ordering)
    (mixed : Value → Value → Option Ordering) :
    compareWith mixed left right = some ordering ∧
      compareWith mixed right left = some ordering.swap := by
  cases left <;> cases right <;> simp only [compareWith, reduceCtorEq] at same
  case num.infinite _ positive =>
    cases same
    cases positive <;> exact ⟨rfl, rfl⟩
  case infinite.num positive _ =>
    cases same
    cases positive <;> exact ⟨rfl, rfl⟩
  all_goals
    cases same
    exact ⟨rfl, congrArg some Std.OrientedCmp.eq_swap⟩

theorem order_swap {left right : Value} {ordering : Ordering}
    (ordered : left.order right = some ordering) : right.order left = some ordering.swap :=
  (compareWith_same_kind ordered fun _ _ => none).2

theorem order_self {value : Value} (present : value ≠ .null) :
    value.order value = some .eq := by
  cases value with
  | null => exact absurd rfl present
  | _ => exact congrArg some Std.ReflCmp.compare_self

theorem eq_of_order_eq {left right : Value} (equal : left.order right = some .eq) :
    left = right := by
  cases left <;> cases right <;>
    simp only [order, compareWith, reduceCtorEq, Option.some.injEq] at equal
  case num.infinite _ positive => cases positive <;> simp at equal
  case infinite.num positive _ => cases positive <;> simp at equal
  all_goals exact congrArg _ (Std.LawfulEqCmp.eq_of_compare equal)

end Value

/-- An operation whose result the engine defines. -/
inductive Operation where
  | scalar (name : String) (dataType : Option ExasolType)
  | extract (toExtract : String)
  | cast (dataType : Option ExasolType)
  | decimalToVarcharExasol
  | like (escapeChar : Option String)
  | unsupported (kind : String)
  deriving DecidableEq

/-- The parts of an evaluation that belong to the engine and its calendar. -/
structure Reading where
  /-- Days of a date text. -/
  date : List Char → Option ℤ
  /-- Seconds of a timestamp text without its fraction. -/
  instant : List Char → Option ℤ
  apply : Operation → List Value → Value
  mixed : Value → Value → Option Ordering

namespace Reading

/-- Seconds of a timestamp text, at the text's full precision. -/
def timestamp (reading : Reading) (text : List Char) : Option ℚ :=
  match Text.splitOnce '.' text with
  | none => (reading.instant text).map fun (seconds : ℤ) => (seconds : ℚ)
  | some (instant, fraction) =>
      if Text.allDigits fraction then
        (reading.instant instant).map fun (seconds : ℤ) =>
          (seconds : ℚ) + Text.fractionValue fraction
      else
        none

/-- A literal at its exact written value.  A text its kind cannot read is NULL. -/
def literal (reading : Reading) (lit : Literal) : Value :=
  if lit.isNull then
    .null
  else
    let text := lit.value.toText
    match lit.kind with
    | .null => .null
    | .bool => (lit.value.asBool.map Value.bool).getD .null
    | .string => .text text
    | .exactnumeric | .double =>
        ((Text.numeralValue (WhiteSpace.trim text.toList)).map Value.num).getD .null
    | .date => ((reading.date text.toList).map Value.date).getD .null
    | .timestamp | .timestampUtc | .timestamputc =>
        ((reading.timestamp text.toList).map Value.timestamp).getD .null
    | .binary => ((Text.hexDecode text.toList).map Value.bytes).getD .null

def compare (reading : Reading) : Value → Value → Option Ordering :=
  Value.compareWith reading.mixed

/-- A comparison predicate.  NULL on either side gives NULL. -/
def comparison (reading : Reading) (op : Comparison) (left right : Value) : Truth :=
  (reading.compare left right).map op.holds

theorem comparison_null_left (reading : Reading) (op : Comparison) (value : Value) :
    reading.comparison op .null value = none := rfl

theorem comparison_null_right (reading : Reading) (op : Comparison) (value : Value) :
    reading.comparison op value .null = none := by
  cases value <;> rfl

theorem comparison_timestamp (reading : Reading) (op : Comparison) (left right : ℚ) :
    reading.comparison op (.timestamp left) (.timestamp right) =
      some (op.holds (Ord.compare left right)) := rfl

theorem comparison_timestamp_swapped (reading : Reading) (op : Comparison) (left right : ℚ) :
    reading.comparison op.withOperandsSwapped (.timestamp right) (.timestamp left) =
      reading.comparison op (.timestamp left) (.timestamp right) := by
  rw [comparison_timestamp, comparison_timestamp, ← op.holds_withOperandsSwapped,
    ← Std.OrientedCmp.eq_swap]

theorem literal_of_isNull (reading : Reading) {lit : Literal} (null : lit.isNull = true) :
    reading.literal lit = .null := by
  simp [literal, null]

end Reading

/-- A calendar that knows no day. -/
def noCalendar : Reading where
  date _ := none
  instant _ := none
  apply _ _ := .null
  mixed _ _ := none

/-- What a tree reads beside its literals: one value for each column, and one for each
aggregate node. -/
structure Env where
  column : ColumnNode → Value
  aggregate : String → Bool → List Node → Value

/-- The result of the first TRUE condition, else the one past them, else NULL. -/
def caseSelect : List Truth → List Value → Value
  | some true :: _, result :: _ => result
  | _ :: conditions, _ :: results => caseSelect conditions results
  | [], result :: _ => result
  | _, [] => .null

/-- The entries of an `IN` list that take part in it: Exasol ignores NULL literals. -/
def listedValues : List Node → List Value → List Value
  | node :: nodes, value :: values =>
      if node.isNullLiteral then
        listedValues nodes values
      else
        value :: listedValues nodes values
  | _, _ => []

namespace Node

mutual

/-- The value of a tree. -/
def eval (reading : Reading) (env : Env) : Node → Value
  | .absent => .null
  | .literal lit => reading.literal lit
  | .column col => env.column col
  | .comparison op left right =>
      .ofTruth (reading.comparison op (eval reading env left) (eval reading env right))
  | .predicateAnd expressions =>
      .ofTruth (.all ((evalEach reading env expressions).map Value.truth))
  | .predicateOr expressions =>
      .ofTruth (.any ((evalEach reading env expressions).map Value.truth))
  | .predicateNot expression => .ofTruth (.not (eval reading env expression).truth)
  | .predicateIsNull expression => .bool (eval reading env expression).isNull
  | .predicateIsNotNull expression => .bool (!(eval reading env expression).isNull)
  | .predicateInConstlist expression arguments =>
      let entries := listedValues arguments (evalEach reading env arguments)
      .ofTruth (.any (entries.map (reading.comparison .equal (eval reading env expression))))
  | .predicateBetween expression left right =>
      let value := eval reading env expression
      .ofTruth (.and
        (reading.comparison .greaterEqual value (eval reading env left))
        (reading.comparison .lessEqual value (eval reading env right)))
  | .predicateLike expression pattern escapeChar =>
      reading.apply (.like escapeChar) [eval reading env expression, eval reading env pattern]
  | .functionScalarExtract toExtract arguments =>
      reading.apply (.extract toExtract) (evalEach reading env arguments)
  | .functionScalarCase basis arguments results =>
      let conditions := match basis with
        | .absent => (evalEach reading env arguments).map Value.truth
        | basis =>
            (evalEach reading env arguments).map
              (reading.comparison .equal (eval reading env basis))
      caseSelect conditions (evalEach reading env results)
  | .functionScalarCast arguments dataType =>
      reading.apply (.cast dataType) (evalEach reading env arguments)
  | .decimalToVarcharExasol arguments =>
      reading.apply .decimalToVarcharExasol (evalEach reading env arguments)
  | .functionScalar name arguments dataType =>
      reading.apply (.scalar name dataType) (evalEach reading env arguments)
  | .functionAggregate name distinct arguments => env.aggregate name distinct arguments
  | .unsupported kind children =>
      reading.apply (.unsupported kind) (evalEach reading env children)

def evalEach (reading : Reading) (env : Env) : List Node → List Value
  | [] => []
  | node :: nodes => eval reading env node :: evalEach reading env nodes

end

/-- A literal that is not NULL has a value. -/
def Readable (reading : Reading) (node : Node) : Prop :=
  ∀ lit, node = .literal lit → lit.isNull = false → reading.literal lit ≠ .null

/-- Every literal of the tree is readable. -/
def Reads (reading : Reading) (node : Node) : Prop :=
  ∀ inner, Within inner node → Readable reading inner

theorem Reads.child {reading : Reading} {node child : Node} (reads : Reads reading node)
    (member : child ∈ node.children) : Reads reading child :=
  fun inner within => reads inner (.child member within)

/-- The truth value of a condition. -/
def truth (reading : Reading) (env : Env) (node : Node) : Truth :=
  (node.eval reading env).truth

attribute [local simp] eval evalEach

variable (reading : Reading) (env : Env)

@[simp] theorem evalEach_eq_map (nodes : List Node) :
    evalEach reading env nodes = nodes.map (eval reading env) := by
  induction nodes with
  | nil => rfl
  | cons node nodes ih => simp [evalEach, ih]

/-- The entries of an `IN` list that are not NULL literals, evaluated. -/
theorem listedValues_map (nodes : List Node) (value : Node → Value) :
    listedValues nodes (nodes.map value) =
      (nodes.filter fun node => !node.isNullLiteral).map value := by
  induction nodes with
  | nil => rfl
  | cons node nodes ih =>
      cases literal : node.isNullLiteral <;> simp [listedValues, literal, ih]

@[simp] theorem truth_comparison (op : Comparison) (left right : Node) :
    (Node.comparison op left right).truth reading env =
      reading.comparison op (left.eval reading env) (right.eval reading env) := by
  simp [truth, eval]

@[simp] theorem truth_predicateAnd (expressions : List Node) :
    (Node.predicateAnd expressions).truth reading env =
      .all (expressions.map (truth reading env)) := by
  simp only [truth, eval, evalEach_eq_map, Value.truth_ofTruth, List.map_map]
  rfl

@[simp] theorem truth_predicateOr (expressions : List Node) :
    (Node.predicateOr expressions).truth reading env =
      .any (expressions.map (truth reading env)) := by
  simp only [truth, eval, evalEach_eq_map, Value.truth_ofTruth, List.map_map]
  rfl

@[simp] theorem truth_predicateNot (expression : Node) :
    (Node.predicateNot expression).truth reading env = (expression.truth reading env).not := by
  simp [truth, eval]

@[simp] theorem truth_predicateIsNull (expression : Node) :
    (Node.predicateIsNull expression).truth reading env =
      some (expression.eval reading env).isNull := by
  simp [truth, eval, Value.truth]

@[simp] theorem truth_predicateIsNotNull (expression : Node) :
    (Node.predicateIsNotNull expression).truth reading env =
      some (!(expression.eval reading env).isNull) := by
  simp [truth, eval, Value.truth]

@[simp] theorem truth_predicateInConstlist (expression : Node) (arguments : List Node) :
    (Node.predicateInConstlist expression arguments).truth reading env =
      .any ((arguments.filter fun node => !node.isNullLiteral).map fun node =>
        reading.comparison .equal (expression.eval reading env) (node.eval reading env)) := by
  simp [truth, eval, listedValues_map, Function.comp_def]

@[simp] theorem truth_predicateBetween (expression left right : Node) :
    (Node.predicateBetween expression left right).truth reading env =
      .and
        (reading.comparison .greaterEqual (expression.eval reading env) (left.eval reading env))
        (reading.comparison .lessEqual (expression.eval reading env)
          (right.eval reading env)) := by
  simp [truth, eval]

end Node

end LakehouseEngine
