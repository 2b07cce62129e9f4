import LakehouseEngine.Types.ExasolType
import Mathlib.Algebra.Ring.Int.Defs

/-!
# Pushdown request trees

Exasol sends every expression as a JSON tree whose nodes carry a `type` tag.  `Node`
has one constructor for each tag the adapter reads.  A child that is missing or JSON
`null` is `Node.absent`.  A node whose tag no translator knows, or that lacks an array
its tag requires, is `Node.unsupported`, which keeps its operands because the tree
walkers visit them.
-/

namespace LakehouseEngine

/-- The full Unicode upper-casing table of the standard library: a character may
become several (`ß` becomes `SS`).  The results hold for every table. -/
class Unicode where
  toUppercase : Char → List Char

/-- Full-Unicode uppercase of a text. -/
def upper [Unicode] (text : String) : String :=
  String.ofList (text.toList.flatMap Unicode.toUppercase)

/-- The table on ASCII text. -/
@[reducible] def Unicode.ascii : Unicode := ⟨fun c => [c.toUpper]⟩

def asciiLowercase (text : String) : List Char := text.toList.map Char.toLower

def eqIgnoreAsciiCase (left right : String) : Bool := asciiLowercase left == asciiLowercase right

/-- A JSON number as the parser holds it: an integer, or a float under its shortest
text. -/
inductive JsonNumber where
  | int (value : Int)
  | float (text : String)
  deriving DecidableEq

namespace JsonNumber

def text : JsonNumber → String
  | .int value => toString value
  | .float text => text

/-- The 64-bit signed reading.  A float has none. -/
def asI64 : JsonNumber → Option Int
  | .int value => if -2 ^ 63 ≤ value ∧ value < 2 ^ 63 then some value else none
  | .float _ => none

end JsonNumber

/-- A literal node's `value`.  An absent key reads as `null` in every consumer. -/
inductive JsonScalar where
  | null
  | bool (value : Bool)
  | number (value : JsonNumber)
  | string (value : String)
  deriving DecidableEq

namespace JsonScalar

def asStr : JsonScalar → Option String
  | .string value => some value
  | _ => none

/-- `json_scalar_to_string`. -/
def toText : JsonScalar → String
  | .string value => value
  | .number value => value.text
  | .bool value => if value then "true" else "false"
  | .null => ""

/-- The boolean a `literal_bool` value spells, if it spells one. -/
def asBool : JsonScalar → Option Bool
  | .bool value => some value
  | .string value =>
      if value = "true" ∨ value = "TRUE" then some true
      else if value = "false" ∨ value = "FALSE" then some false
      else none
  | .number value =>
      if value.asI64 = some 1 then some true
      else if value.asI64 = some 0 then some false
      else none
  | .null => none

/-- The values the renderer reads as TRUE. -/
def truthy : JsonScalar → Bool
  | .bool value => value
  | .string value => value == "true" || value == "TRUE"
  | .number value => value.asI64 == some 1
  | .null => false

theorem truthy_of_asBool {value : JsonScalar} {flag : Bool} (spelled : value.asBool = some flag) :
    value.truthy = flag := by
  cases value with
  | string text =>
      simp only [asBool] at spelled
      split at spelled
      · next isTrue =>
          cases spelled
          simpa [truthy] using isTrue
      · next notTrue =>
          split at spelled
          · cases spelled
            simpa [truthy] using notTrue
          · simp at spelled
  | number number =>
      simp only [asBool] at spelled
      split at spelled
      · next isOne =>
          cases spelled
          simp [truthy, isOne]
      · next notOne =>
          split at spelled
          · cases spelled
            simpa [truthy] using notOne
          · simp at spelled
  | bool value => simpa [asBool, truthy] using spelled
  | null => simp [asBool] at spelled

end JsonScalar

/-- The `literal_*` node types. -/
inductive LiteralKind where
  | null | bool | string | exactnumeric | double | date | timestamp
  /-- `literal_timestamp_utc` -/
  | timestampUtc
  /-- `literal_timestamputc`, Exasol's own name for a zoned literal -/
  | timestamputc
  /-- Synthesized by the adapter for a binary column, never sent by Exasol. -/
  | binary
  deriving DecidableEq

/-- A literal node.  Only a binary literal carries a `width`. -/
structure Literal where
  kind : LiteralKind
  value : JsonScalar
  width : Option Nat := none
  deriving DecidableEq

/-- `is_null_literal` on a literal node. -/
def Literal.isNull (literal : Literal) : Bool :=
  literal.kind == .null || literal.value == .null

/-- The six comparison predicates. -/
inductive Comparison where
  | equal | notEqual | less | lessEqual | greater | greaterEqual
  deriving DecidableEq

namespace Comparison

def withOperandsSwapped : Comparison → Comparison
  | .less => .greater
  | .lessEqual => .greaterEqual
  | .greater => .less
  | .greaterEqual => .lessEqual
  | symmetric => symmetric

def holds : Comparison → Ordering → Bool
  | .equal, ordering => ordering == .eq
  | .notEqual, ordering => ordering != .eq
  | .less, ordering => ordering == .lt
  | .lessEqual, ordering => ordering != .gt
  | .greater, ordering => ordering == .gt
  | .greaterEqual, ordering => ordering != .lt

def negated : Comparison → Comparison
  | .equal => .notEqual
  | .notEqual => .equal
  | .less => .greaterEqual
  | .lessEqual => .greater
  | .greater => .lessEqual
  | .greaterEqual => .less

theorem holds_negated (op : Comparison) (ordering : Ordering) :
    op.negated.holds ordering = !op.holds ordering := by
  cases op <;> cases ordering <;> rfl

@[simp] theorem withOperandsSwapped_swap (op : Comparison) :
    op.withOperandsSwapped.withOperandsSwapped = op := by
  cases op <;> rfl

theorem holds_withOperandsSwapped (op : Comparison) (ordering : Ordering) :
    op.withOperandsSwapped.holds ordering.swap = op.holds ordering := by
  cases op <;> cases ordering <;> rfl

end Comparison

/-- A `column` node's keys. -/
structure ColumnNode where
  name : String
  tableName : Option String := none
  tableAlias : Option String := none
  deriving DecidableEq

def ColumnNode.upperName [Unicode] (column : ColumnNode) : String := upper column.name

/-- A request tree. -/
inductive Node where
  | absent
  | literal (lit : Literal)
  | column (col : ColumnNode)
  | comparison (op : Comparison) (left right : Node)
  | predicateAnd (expressions : List Node)
  | predicateOr (expressions : List Node)
  | predicateNot (expression : Node)
  | predicateIsNull (expression : Node)
  | predicateIsNotNull (expression : Node)
  | predicateInConstlist (expression : Node) (arguments : List Node)
  | predicateBetween (expression left right : Node)
  | predicateLike (expression pattern : Node) (escapeChar : Option String)
  | functionScalarExtract (toExtract : String) (arguments : List Node)
  | functionScalarCase (basis : Node) (arguments results : List Node)
  | functionScalarCast (arguments : List Node) (dataType : Option ExasolType)
  /-- Synthesized by the adapter around a DECIMAL column that is being stringified. -/
  | decimalToVarcharExasol (arguments : List Node)
  | functionScalar (name : String) (arguments : List Node) (dataType : Option ExasolType)
  | functionAggregate (name : String) (distinct : Bool) (arguments : List Node)
  | unsupported (kind : String) (children : List Node)

namespace Node

/-- `is_null_literal`: an untyped NULL, or a typed literal without a value. -/
def isNullLiteral : Node → Bool
  | .literal lit => lit.isNull
  | _ => false

def isAbsent : Node → Bool
  | .absent => true
  | _ => false

/-- The direct children, in field order. -/
def children : Node → List Node
  | .absent | .literal _ | .column _ => []
  | .comparison _ left right => [left, right]
  | .predicateAnd expressions | .predicateOr expressions => expressions
  | .predicateNot expression | .predicateIsNull expression
  | .predicateIsNotNull expression => [expression]
  | .predicateInConstlist expression arguments => expression :: arguments
  | .predicateBetween expression left right => [expression, left, right]
  | .predicateLike expression pattern _ => [expression, pattern]
  | .functionScalarExtract _ arguments => arguments
  | .functionScalarCase basis arguments results => basis :: (arguments ++ results)
  | .functionScalarCast arguments _ => arguments
  | .decimalToVarcharExasol arguments => arguments
  | .functionScalar _ arguments _ => arguments
  | .functionAggregate _ _ arguments => arguments
  | .unsupported _ children => children

/-- Induction on a tree, with one hypothesis for each direct child. -/
theorem inductOnChildren {motive : Node → Prop}
    (step : ∀ node : Node, (∀ child ∈ node.children, motive child) → motive node)
    (node : Node) : motive node := by
  -- The list motive collects the hypotheses of the nested occurrences.
  refine Node.rec (motive_1 := motive)
    (motive_2 := fun nodes => ∀ child ∈ nodes, motive child)
    ?_ ?_ ?_ ?_ ?_ ?_ ?_ ?_ ?_ ?_ ?_ ?_ ?_ ?_ ?_ ?_ ?_ ?_ ?_ ?_ ?_ node
  case refine_20 => simp
  case refine_21 =>
    intro head tail headHolds tailHolds child member
    rcases List.mem_cons.mp member with rfl | member
    · exact headHolds
    · exact tailHolds child member
  all_goals
    intros
    apply step
    intro child member
    simp only [children, List.mem_cons, List.mem_append, List.not_mem_nil,
      or_false] at member
    all_goals grind

mutual

/-- `contains_aggregate_node`: an aggregate at any depth. -/
def containsAggregate : Node → Bool
  | .absent | .literal _ | .column _ => false
  | .comparison _ left right => left.containsAggregate || right.containsAggregate
  | .predicateAnd expressions | .predicateOr expressions => anyContainsAggregate expressions
  | .predicateNot expression | .predicateIsNull expression
  | .predicateIsNotNull expression => expression.containsAggregate
  | .predicateInConstlist expression arguments =>
      expression.containsAggregate || anyContainsAggregate arguments
  | .predicateBetween expression left right =>
      expression.containsAggregate || left.containsAggregate || right.containsAggregate
  | .predicateLike expression pattern _ =>
      expression.containsAggregate || pattern.containsAggregate
  | .functionScalarExtract _ arguments => anyContainsAggregate arguments
  | .functionScalarCase basis arguments results =>
      basis.containsAggregate || anyContainsAggregate arguments || anyContainsAggregate results
  | .functionScalarCast arguments _ => anyContainsAggregate arguments
  | .decimalToVarcharExasol arguments => anyContainsAggregate arguments
  | .functionScalar _ arguments _ => anyContainsAggregate arguments
  | .functionAggregate _ _ _ => true
  | .unsupported _ children => anyContainsAggregate children

def anyContainsAggregate : List Node → Bool
  | [] => false
  | node :: nodes => node.containsAggregate || anyContainsAggregate nodes

end

theorem anyContainsAggregate_eq_any (nodes : List Node) :
    anyContainsAggregate nodes = nodes.any containsAggregate := by
  induction nodes with
  | nil => rfl
  | cons node nodes ih => simp [anyContainsAggregate, ih]

theorem containsAggregate_child {node child : Node} (free : node.containsAggregate = false)
    (member : child ∈ node.children) : child.containsAggregate = false := by
  cases node with
  | functionAggregate name distinct arguments => simp [containsAggregate] at free
  | _ =>
      simp only [children, containsAggregate, anyContainsAggregate_eq_any, Bool.or_eq_false_iff,
        List.any_eq_false, Bool.not_eq_true] at free member
      grind

/-- A tree and everything below it. -/
inductive Within : Node → Node → Prop where
  | refl (node : Node) : Within node node
  | child {inner node child : Node} :
      child ∈ node.children → Within inner child → Within inner node

theorem Within.trans {first second third : Node} (lower : Within first second)
    (upper : Within second third) : Within first third := by
  induction upper with
  | refl => exact lower
  | child member _ ih => exact .child member ih

theorem containsAggregate_within {inner node : Node} (free : node.containsAggregate = false)
    (within : Within inner node) : inner.containsAggregate = false := by
  induction within with
  | refl => exact free
  | child member _ ih => exact ih (containsAggregate_child free member)

theorem Within.of_mem {child node : Node} (member : child ∈ node.children) :
    Within child node :=
  .child member (.refl child)

end Node

end LakehouseEngine
