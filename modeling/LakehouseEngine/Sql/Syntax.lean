import LakehouseEngine.Expression.Semantics

/-!
# SQL expressions

The expressions a planner writes into SQL text, with the brackets it writes, and their
value under three-valued logic.  The predicates, connectives and `CASE` are fixed by
SQL.  What an engine's literals, operators, functions and casts compute are the fields
of an `Engine`, so every result holds for each of them.
-/

namespace LakehouseEngine

inductive Symbol where
  | leftParen | rightParen | comma | dot | plus | minus | star | slash | percent | bars
  | equal | notEqual | less | lessEqual | greater | greaterEqual
  deriving DecidableEq

/-- A lexical unit, with a quoted text at its meaning. -/
inductive Token where
  | word (text : List Char)
  | number (text : List Char)
  | string (value : List Char)
  | quoted (name : List Char)
  | symbol (symbol : Symbol)
  deriving DecidableEq

inductive BinaryOp where
  | or | and
  | comparison (op : Comparison)
  | add | subtract | concat
  | multiply | divide | modulo
  deriving DecidableEq

/-- An SQL expression.  A part that is not written, such as the operand of a searched
`CASE` or a missing `ELSE`, is `omitted`. -/
inductive Sql where
  | omitted
  | null
  | bool (value : Bool)
  | number (text : String)
  | string (value : String)
  /-- `DATE '…'`, and `DATE NULL` where there is no value. -/
  | typed (keyword : String) (value : Option String)
  /-- `X'…'` -/
  | hex (digits : String)
  /-- A fragment spliced in as it is. -/
  | verbatim (text : String)
  /-- A value the session fixes, such as `SESSIONTIMEZONE`. -/
  | word (name : String)
  | column (relation : Option String) (name : String)
  | paren (inner : Sql)
  | binary (op : BinaryOp) (left right : Sql)
  | negate (operand : Sql)
  | not (operand : Sql)
  | isNull (operand : Sql) (negated : Bool)
  | inList (operand : Sql) (items : List Sql)
  | between (operand low high : Sql)
  | like (operand pattern : Sql) (escape : Option String)
  | call (name : String) (arguments : List Sql)
  /-- `COUNT(*)` -/
  | callStar (name : String)
  | callDistinct (name : String) (arguments : List Sql)
  | cast (operand : Sql) (target : List Token)
  | extract (field : String) (source : Sql)
  | case (basis : Sql) (whens thens : List Sql) (otherwise : Sql)

namespace Sql

def isOmitted : Sql → Bool
  | .omitted => true
  | _ => false

end Sql

/-- What an engine computes. -/
structure Engine where
  number : String → Value
  typed : String → String → Value
  hex : String → Value
  word : String → Value
  mixed : Value → Value → Option Ordering
  negate : Value → Value
  arithmetic : BinaryOp → Value → Value → Value
  like : Option String → Value → Value → Value
  call : String → List Value → Value
  cast : List Token → Value → Value
  extract : String → Value → Value

/-- What an expression reads beside its literals: its columns, the fragments spliced into
it, and the calls that a surrounding query evaluates over many rows. -/
structure Scope where
  column : Option String → String → Value
  verbatim : String → Value := fun _ => .null
  aggregate : String → List Sql → Option Value := fun _ _ => none
  countStar : Value := .null

namespace Engine

def comparison (engine : Engine) (op : Comparison) (left right : Value) : Truth :=
  (Value.compareWith engine.mixed left right).map op.holds

def binary (engine : Engine) : BinaryOp → Value → Value → Value
  | .or, left, right => .ofTruth (.or left.truth right.truth)
  | .and, left, right => .ofTruth (.and left.truth right.truth)
  | .comparison op, left, right => .ofTruth (engine.comparison op left right)
  | op, left, right => engine.arithmetic op left right

end Engine

namespace Sql

variable (engine : Engine) (scope : Scope)

mutual

/-- The value of an expression. -/
def eval : Sql → Value
  | .omitted | .null => .null
  | .bool value => .bool value
  | .number text => engine.number text
  | .string value => .text value
  | .typed kind (some value) => engine.typed kind value
  | .typed _ none => .null
  | .hex digits => engine.hex digits
  | .verbatim text => scope.verbatim text
  | .word name => engine.word name
  | .column relation name => scope.column relation name
  | .paren inner => eval inner
  | .binary op left right => engine.binary op (eval left) (eval right)
  | .negate operand => engine.negate (eval operand)
  | .not operand => .ofTruth (.not (eval operand).truth)
  | .isNull operand negated => .bool (xor negated (eval operand).isNull)
  | .inList operand items =>
      .ofTruth (.any ((evalEach items).map (engine.comparison .equal (eval operand))))
  | .between operand low high =>
      .ofTruth (.and
        (engine.comparison .greaterEqual (eval operand) (eval low))
        (engine.comparison .lessEqual (eval operand) (eval high)))
  | .like operand pattern escape => engine.like escape (eval operand) (eval pattern)
  | .call name arguments =>
      (scope.aggregate name arguments).getD (engine.call name (evalEach arguments))
  | .callStar _ => scope.countStar
  | .callDistinct name arguments => engine.call name (evalEach arguments)
  | .cast operand target => engine.cast target (eval operand)
  | .extract field source => engine.extract field (eval source)
  | .case basis whens thens otherwise =>
      let conditions :=
        if basis.isOmitted then (evalEach whens).map Value.truth
        else (evalEach whens).map (engine.comparison .equal (eval basis))
      caseSelect conditions (evalEach thens ++ [eval otherwise])

def evalEach : List Sql → List Value
  | [] => []
  | sql :: rest => eval sql :: evalEach rest

end

attribute [local simp] eval evalEach

end Sql

end LakehouseEngine
