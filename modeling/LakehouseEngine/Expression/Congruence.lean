import LakehouseEngine.Data.ListRelation
import LakehouseEngine.Expression.Semantics

/-!
# Evaluation is a congruence

Replacing every child of a node by one of equal value leaves the node's value
unchanged.  `IN` and `CASE` look at the form of a child besides its value, so the
replacement must also keep the leaves of the tree.
-/

namespace LakehouseEngine

namespace Node

/-- A child that some node reads by its form: an absent one, a literal or a column. -/
def isLeaf : Node → Bool
  | .absent | .literal _ | .column _ => true
  | _ => false

/-- Two nodes of one form whose children are related one by one. -/
inductive Lifted (related : Node → Node → Prop) : Node → Node → Prop where
  | absent : Lifted related .absent .absent
  | literal (lit : Literal) : Lifted related (.literal lit) (.literal lit)
  | column (col : ColumnNode) : Lifted related (.column col) (.column col)
  | comparison (op : Comparison) {left right left' right' : Node} :
      related left left' → related right right' →
      Lifted related (.comparison op left right) (.comparison op left' right')
  | predicateAnd {expressions expressions' : List Node} :
      List.Forall₂ related expressions expressions' →
      Lifted related (.predicateAnd expressions) (.predicateAnd expressions')
  | predicateOr {expressions expressions' : List Node} :
      List.Forall₂ related expressions expressions' →
      Lifted related (.predicateOr expressions) (.predicateOr expressions')
  | predicateNot {expression expression' : Node} : related expression expression' →
      Lifted related (.predicateNot expression) (.predicateNot expression')
  | predicateIsNull {expression expression' : Node} : related expression expression' →
      Lifted related (.predicateIsNull expression) (.predicateIsNull expression')
  | predicateIsNotNull {expression expression' : Node} : related expression expression' →
      Lifted related (.predicateIsNotNull expression) (.predicateIsNotNull expression')
  | predicateInConstlist {expression expression' : Node} {arguments arguments' : List Node} :
      related expression expression' → List.Forall₂ related arguments arguments' →
      Lifted related (.predicateInConstlist expression arguments)
        (.predicateInConstlist expression' arguments')
  | predicateBetween {expression left right expression' left' right' : Node} :
      related expression expression' → related left left' → related right right' →
      Lifted related (.predicateBetween expression left right)
        (.predicateBetween expression' left' right')
  | predicateLike {expression pattern expression' pattern' : Node}
      (escapeChar : Option String) : related expression expression' → related pattern pattern' →
      Lifted related (.predicateLike expression pattern escapeChar)
        (.predicateLike expression' pattern' escapeChar)
  | functionScalarExtract (toExtract : String) {arguments arguments' : List Node} :
      List.Forall₂ related arguments arguments' →
      Lifted related (.functionScalarExtract toExtract arguments)
        (.functionScalarExtract toExtract arguments')
  | functionScalarCase {basis basis' : Node} {arguments arguments' results results' : List Node} :
      related basis basis' → List.Forall₂ related arguments arguments' →
      List.Forall₂ related results results' →
      Lifted related (.functionScalarCase basis arguments results)
        (.functionScalarCase basis' arguments' results')
  | functionScalarCast (dataType : Option ExasolType) {arguments arguments' : List Node} :
      List.Forall₂ related arguments arguments' →
      Lifted related (.functionScalarCast arguments dataType)
        (.functionScalarCast arguments' dataType)
  | decimalToVarcharExasol {arguments arguments' : List Node} :
      List.Forall₂ related arguments arguments' →
      Lifted related (.decimalToVarcharExasol arguments) (.decimalToVarcharExasol arguments')
  | functionScalar (name : String) (dataType : Option ExasolType)
      {arguments arguments' : List Node} : List.Forall₂ related arguments arguments' →
      Lifted related (.functionScalar name arguments dataType)
        (.functionScalar name arguments' dataType)
  | functionAggregate (name : String) (distinct : Bool) {arguments arguments' : List Node} :
      List.Forall₂ related arguments arguments' →
      Lifted related (.functionAggregate name distinct arguments)
        (.functionAggregate name distinct arguments')
  | unsupported (kind : String) {children children' : List Node} :
      List.Forall₂ related children children' →
      Lifted related (.unsupported kind children) (.unsupported kind children')

theorem Lifted.children {related : Node → Node → Prop} {before after : Node}
    (lifted : Lifted related before after) :
    List.Forall₂ related before.children after.children := by
  cases lifted with
  | functionScalarCase basis arguments results =>
      exact .cons basis (List.rel_append arguments results)
  | _ =>
      simp only [Node.children]
      first
        | assumption
        | repeat' first | assumption | constructor

theorem Lifted.isLeaf {related : Node → Node → Prop} {before after : Node}
    (lifted : Lifted related before after) : after.isLeaf = before.isLeaf := by
  cases lifted <;> rfl

/-- A replacement of equal value that keeps every leaf and makes no new one. -/
structure Agree (reading : Reading) (env : Env) (before after : Node) : Prop where
  eval : after.eval reading env = before.eval reading env
  leaf : before.isLeaf = true ∨ after.isLeaf = true → after = before

variable {reading : Reading} {env : Env}

theorem Agree.refl (node : Node) : Agree reading env node node := ⟨rfl, fun _ => rfl⟩

theorem Agree.isNullLiteral {before after : Node} (agree : Agree reading env before after) :
    after.isNullLiteral = before.isNullLiteral := by
  by_cases leaf : before.isLeaf = true ∨ after.isLeaf = true
  · rw [agree.leaf leaf]
  · cases before <;> cases after <;> simp_all [isLeaf, Node.isNullLiteral]

theorem Agree.map_eval {before after : List Node}
    (agree : List.Forall₂ (Agree reading env) before after) :
    after.map (Node.eval reading env) = before.map (Node.eval reading env) := by
  induction agree with
  | nil => rfl
  | cons head _ ih => simp [head.eval, ih]

/-- The entries an `IN` list compares with are the same on both sides. -/
theorem Agree.listedValues {before after : List Node}
    (agree : List.Forall₂ (Agree reading env) before after) :
    listedValues after (after.map (Node.eval reading env)) =
      LakehouseEngine.listedValues before (before.map (Node.eval reading env)) := by
  induction agree with
  | nil => rfl
  | cons head _ ih =>
      simp only [List.map_cons, LakehouseEngine.listedValues, head.isNullLiteral, head.eval, ih]

theorem Agree.isAbsent {before after : Node} (agree : Agree reading env before after) :
    after.isAbsent = before.isAbsent := by
  by_cases leaf : before.isLeaf = true ∨ after.isLeaf = true
  · rw [agree.leaf leaf]
  · cases before <;> cases after <;> simp_all [isLeaf, Node.isAbsent]

theorem eval_functionScalarCase (basis : Node) (arguments results : List Node) :
    (Node.functionScalarCase basis arguments results).eval reading env =
      caseSelect
        ((arguments.map (eval reading env)).map
          (if basis.isAbsent then Value.truth
            else reading.comparison .equal (basis.eval reading env)))
        (results.map (eval reading env)) := by
  cases basis <;> simp [eval, Node.isAbsent]

/-- A node keeps its value when its children do.  An aggregate is excluded because its
value is not a function of its arguments' values on one row. -/
theorem eval_lifted {before after : Node} (lifted : Lifted (Agree reading env) before after)
    (row : before.containsAggregate = false) :
    after.eval reading env = before.eval reading env := by
  cases lifted with
  | absent | literal | column => rfl
  | comparison op left right => simp [eval, left.eval, right.eval]
  | predicateAnd expressions | predicateOr expressions =>
      simp only [eval, evalEach_eq_map, Agree.map_eval expressions]
  | predicateNot expression | predicateIsNull expression | predicateIsNotNull expression =>
      simp only [eval, expression.eval]
  | predicateInConstlist expression arguments =>
      simp only [eval, evalEach_eq_map, expression.eval, Agree.listedValues arguments]
  | predicateBetween expression left right =>
      simp only [eval, expression.eval, left.eval, right.eval]
  | predicateLike escapeChar expression pattern =>
      simp only [eval, expression.eval, pattern.eval]
  | functionScalarCase basis arguments results =>
      rw [eval_functionScalarCase, eval_functionScalarCase, basis.isAbsent, basis.eval,
        Agree.map_eval arguments, Agree.map_eval results]
  | functionScalarExtract _ arguments | functionScalarCast _ arguments
  | decimalToVarcharExasol arguments | functionScalar _ _ arguments
  | unsupported _ arguments =>
      simp only [eval, evalEach_eq_map, Agree.map_eval arguments]
  | functionAggregate name distinct arguments => simp [containsAggregate] at row

end Node

end LakehouseEngine
