import LakehouseEngine.Pushdown.ColumnTypes
import LakehouseEngine.Types.Mapping

/-!
# Type-aware rewrites of a pushed tree

A tree that the scan evaluates in DataFusion is first rewritten against the column
types, so that the scan answers as Exasol would.  Every rewrite is one function on a
node, applied bottom-up by `rewriteExprTree`.  A node for which it returns `none`
declines the whole tree.
-/

namespace LakehouseEngine

section Walker

/-- A single child that is no node stays as it is. -/
def orAbsent (child : Node) (rewritten : Option Node) : Option Node :=
  if child.isAbsent then some child else rewritten

mutual

/-- Applies `f` to every node whose children are already rewritten.  A child that is
no node is left alone, except as an element of an array. -/
def rewriteExprTree (f : Node → Option Node) : Node → Option Node
  | .absent => f .absent
  | .literal lit => f (.literal lit)
  | .column col => f (.column col)
  | .comparison op left right => do
      let left ← orAbsent left (rewriteExprTree f left)
      let right ← orAbsent right (rewriteExprTree f right)
      f (.comparison op left right)
  | .predicateAnd expressions => do f (.predicateAnd (← rewriteEach f expressions))
  | .predicateOr expressions => do f (.predicateOr (← rewriteEach f expressions))
  | .predicateNot expression => do
      let expression ← orAbsent expression (rewriteExprTree f expression)
      f (.predicateNot expression)
  | .predicateIsNull expression => do
      let expression ← orAbsent expression (rewriteExprTree f expression)
      f (.predicateIsNull expression)
  | .predicateIsNotNull expression => do
      let expression ← orAbsent expression (rewriteExprTree f expression)
      f (.predicateIsNotNull expression)
  | .predicateInConstlist expression arguments => do
      let arguments ← rewriteEach f arguments
      let expression ← orAbsent expression (rewriteExprTree f expression)
      f (.predicateInConstlist expression arguments)
  | .predicateBetween expression left right => do
      let expression ← orAbsent expression (rewriteExprTree f expression)
      let left ← orAbsent left (rewriteExprTree f left)
      let right ← orAbsent right (rewriteExprTree f right)
      f (.predicateBetween expression left right)
  | .predicateLike expression pattern escapeChar => do
      let expression ← orAbsent expression (rewriteExprTree f expression)
      let pattern ← orAbsent pattern (rewriteExprTree f pattern)
      f (.predicateLike expression pattern escapeChar)
  | .functionScalarExtract toExtract arguments => do
      f (.functionScalarExtract toExtract (← rewriteEach f arguments))
  | .functionScalarCase basis arguments results => do
      let arguments ← rewriteEach f arguments
      let results ← rewriteEach f results
      let basis ← orAbsent basis (rewriteExprTree f basis)
      f (.functionScalarCase basis arguments results)
  | .functionScalarCast arguments dataType => do
      f (.functionScalarCast (← rewriteEach f arguments) dataType)
  | .decimalToVarcharExasol arguments => do
      f (.decimalToVarcharExasol (← rewriteEach f arguments))
  | .functionScalar name arguments dataType => do
      f (.functionScalar name (← rewriteEach f arguments) dataType)
  | .functionAggregate name distinct arguments => do
      f (.functionAggregate name distinct (← rewriteEach f arguments))
  | .unsupported kind children => do f (.unsupported kind (← rewriteEach f children))

def rewriteEach (f : Node → Option Node) : List Node → Option (List Node)
  | [] => some []
  | node :: nodes => do
      let node ← rewriteExprTree f node
      let nodes ← rewriteEach f nodes
      return node :: nodes

end

end Walker

variable [Unicode]

section TimestampPrecision

/-- A literal finer than the column's declared precision, cut to that precision.
`none` when the literal fits. -/
def timestampLiteralFloor (types : ColumnTypes) (column literal : Node) : Option Literal :=
  match column, literal with
  | .column col, .literal ⟨.timestamp, .string value, _⟩ => do
      let digits ← (← columnExaType (.column col) types).fractionalDigits
      if timestampLiteralDigits value.toList ≤ digits then
        none
      else
        let (instant, fraction) ← Text.splitOnce '.' value.toList
        let floor := match digits with
          | 0 => instant
          | d => instant ++ '.' :: fraction.take d
        some ⟨.timestamp, .string (String.ofList floor), none⟩
  | _, _ => none

/-- A comparison of a column with a literal between two representable values, as one
against the value below it.  `column <> column` and `column = column` keep a NULL
column NULL. -/
def compareWithFloor (op : Comparison) (column : Node) (floor : Literal) : Node :=
  match op with
  | .equal => .comparison .notEqual column column
  | .notEqual => .comparison .equal column column
  | .less | .lessEqual => .comparison .lessEqual column (.literal floor)
  | .greater | .greaterEqual => .comparison .greater column (.literal floor)

/-- The comparison arm of `rewrite_timestamp_comparison`: the literal stands on
either side. -/
def rewriteComparison (types : ColumnTypes) (op : Comparison) (left right : Node) :
    Option Node :=
  match timestampLiteralFloor types left right with
  | some floor => some (compareWithFloor op left floor)
  | none => do
      let floor ← timestampLiteralFloor types right left
      return compareWithFloor op.withOperandsSwapped right floor

/-- A comparison rewritten where it applies. -/
def compareTimestamp (types : ColumnTypes) (op : Comparison) (column literal : Node) : Node :=
  (rewriteComparison types op column literal).getD (.comparison op column literal)

/-- `rewrite_timestamp_comparison`.  `none` leaves the node unchanged. -/
def rewriteTimestampComparison (types : ColumnTypes) : Node → Option Node
  | .predicateBetween column low high => do
      let _ ← (timestampLiteralFloor types column low).or (timestampLiteralFloor types column high)
      return .predicateAnd
        [compareTimestamp types .greaterEqual column low,
          compareTimestamp types .lessEqual column high]
  | .predicateInConstlist column values => do
      let _ ← values.findSome? (timestampLiteralFloor types column)
      return .predicateOr (values.map (compareTimestamp types .equal column))
  | .comparison op left right => rewriteComparison types op left right
  | _ => none

def rewriteOverpreciseTimestampComparisons (types : ColumnTypes) : Node → Option Node :=
  rewriteExprTree fun out => some ((rewriteTimestampComparison types out).getD out)

end TimestampPrecision

end LakehouseEngine
