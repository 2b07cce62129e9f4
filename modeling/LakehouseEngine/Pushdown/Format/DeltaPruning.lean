import LakehouseEngine.Pushdown.Format.DeltaPredicate

/-!
# Delta file pruning

Every literal placed in the predicate has its written value, with one exception: a
literal of a floating-point column is first rounded to 64 bits, and that rounding is not
checked.  With exact literals the predicate has the truth value of the condition it
stands for, or is implied by it where a conjunct was dropped.
-/

namespace LakehouseEngine

namespace Delta

open Node BinaryFloat

section Literals

variable {parser : ScalarParser} {reading : Reading}

theorem PrimitiveType.Holds.comparable {prim : PrimitiveType} {left right : Value}
    (leftHolds : prim.Holds left) (rightHolds : prim.Holds right) :
    ∃ seen, left.order right = some seen := by
  cases prim <;> cases left <;> first
    | exact leftHolds.elim
    | (cases right <;> first | exact ⟨_, rfl⟩ | exact rightHolds.elim)

/-- A literal of a floating-point column is rounded to 64 bits, which a 32-bit column
must hold. -/
theorem scalarOf_rounded {lit : Literal} {prim : PrimitiveType} {scalar : Scalar}
    (found : scalarOf parser lit prim = some scalar) (isFloat : prim.isFloat = true) :
    ∃ exact, lit.isNull = false ∧ reading.literal lit = .num exact ∧
      scalar.value = (binary64.round exact).value ∧ prim.Holds scalar.value := by
  have typed {format : Format} {literal : ℚ} {rounded : Rounded}
      (separates : format.Separates literal rounded) : IsFloat format rounded.value := by
    obtain ⟨shift, stands⟩ := standsFor_of_separates separates
    exact stands.isTyped
  cases prim with
  | float =>
      simp only [scalarOf] at found
      split at found
      · next numeric =>
          obtain ⟨wide, parsed, narrowed⟩ := Option.bind_eq_some_iff.mp found
          obtain ⟨exact, number, rfl⟩ := parseF64_rounds parsed
          obtain ⟨present, value⟩ := literal_of_exactNumber reading numeric number
          split at narrowed
          · next same =>
              cases narrowed
              refine ⟨exact, present, value, congrArg Rounded.value same, ?_⟩
              exact typed (toF32_separates (Format.round_separates exact))
          · simp at narrowed
      · simp at found
  | double =>
      simp only [scalarOf] at found
      split at found
      · next numeric =>
          obtain ⟨wide, parsed, rfl⟩ := Option.map_eq_some_iff.mp found
          obtain ⟨exact, number, rfl⟩ := parseF64_rounds parsed
          obtain ⟨present, value⟩ := literal_of_exactNumber reading numeric number
          exact ⟨exact, present, value, rfl, typed (Format.round_separates exact)⟩
      · simp at found
  | _ => simp [PrimitiveType.isFloat] at isFloat

/-- The written value of a floating-point literal is a 64-bit number. -/
def Representable (reading : Reading) (literal : Node) : Prop :=
  ∃ exact, literalValue reading literal = .num exact ∧ binary64.round exact = .finite exact

theorem literalToScalar_spec (exact : parser.Exact reading) {literal : Node}
    {prim : PrimitiveType} {scalar : Scalar}
    (found : literalToScalar parser literal prim = some scalar)
    (readable : Readable reading literal) :
    literal.isNullLiteral = false ∧
      (∀ env, literal.eval reading env = literalValue reading literal) ∧
      prim.Holds scalar.value ∧
      (scalar.value = literalValue reading literal ↔
        (prim.isFloat = true → Representable reading literal)) := by
  cases literal with
  | literal lit =>
      cases isFloat : prim.isFloat with
      | false =>
          obtain ⟨present, value, typed⟩ := scalarOf_exact exact found (readable lit rfl) isFloat
          exact ⟨present, fun _ => rfl, typed, iff_of_true value.symm (by simp)⟩
      | true =>
          obtain ⟨number, present, value, rounded, typed⟩ := scalarOf_rounded found isFloat
          refine ⟨present, fun _ => rfl, typed, ?_⟩
          have written : literalValue reading (.literal lit) = .num number := value
          rw [written, rounded]
          constructor
          · intro same _
            refine ⟨number, written, ?_⟩
            cases result : binary64.round number with
            | finite _ =>
                rw [result] at same
                cases same
                rfl
            | _ =>
                rw [result] at same
                cases same
          · intro representable
            obtain ⟨other, same, rounds⟩ := representable rfl
            cases written.symm.trans same
            rw [rounds]
            rfl
  | _ => simp [literalToScalar] at found

end Literals

section Soundness

variable [Unicode]

/-- A row of the table as the filter sees it: each column holds its field's value, NULL or
one of the field's type. -/
def Agrees (columns : FilterColumns) (row : String → Value) (env : Env) : Prop :=
  ∀ (col : ColumnNode) name prim, resolveColumn columns col.name = some (name, prim) →
    env.column col = row name ∧ (row name = .null ∨ prim.Holds (row name))

/-- The literals a leaf places in its predicate, with the type of the column each is
compared with. -/
inductive PlacedLiteral (columns : FilterColumns) : Node → Node → PrimitiveType → Prop where
  | operand {op op' : Comparison} {left right literal : Node} {column name : String}
      {prim : PrimitiveType}
      (operands : comparisonOperands left right op = some (column, literal, op'))
      (resolved : resolveColumn columns column = some (name, prim)) :
      PlacedLiteral columns (.comparison op left right) literal prim
  | entry {col : ColumnNode} {arguments : List Node} {argument : Node} {name : String}
      {prim : PrimitiveType} (resolved : resolveColumn columns col.name = some (name, prim))
      (member : argument ∈ arguments) :
      PlacedLiteral columns (.predicateInConstlist (.column col) arguments) argument prim
  | low {col : ColumnNode} {left right : Node} {name : String} {prim : PrimitiveType}
      (resolved : resolveColumn columns col.name = some (name, prim)) :
      PlacedLiteral columns (.predicateBetween (.column col) left right) left prim
  | high {col : ColumnNode} {left right : Node} {name : String} {prim : PrimitiveType}
      (resolved : resolveColumn columns col.name = some (name, prim)) :
      PlacedLiteral columns (.predicateBetween (.column col) left right) right prim

section Leaves

variable {parser : ScalarParser} {reading : Reading} {columns : FilterColumns}
  {row : String → Value} {env : Env}

omit [Unicode] in
/-- A comparison with an exact scalar has the truth value of the one with the literal. -/
theorem exact_comparison {prim : PrimitiveType} {name : String} {literal : Node}
    {scalar : Scalar} (typed : row name = .null ∨ prim.Holds (row name))
    (holds : prim.Holds scalar.value) (same : scalar.value = literalValue reading literal)
    (op : Comparison) :
    (Predicate.compare op name scalar).holds row =
        reading.comparison op (row name) (literalValue reading literal) ∧
      reading.comparison op (literalValue reading literal) (row name) =
        reading.comparison op.withOperandsSwapped (row name) (literalValue reading literal) := by
  have present : scalar.value ≠ .null := by
    intro null
    rw [null] at holds
    cases prim <;> exact holds
  have stands : StandsFor prim.Holds scalar.value scalar.value .eq :=
    standsFor_self holds (fun _ rowHolds => rowHolds.comparable holds) (Value.order_self present)
  have view : BoundView reading (row name) scalar.value scalar.value .eq := stands.boundView typed
  rw [← same]
  exact ⟨view.equal (by cases op <;> rfl), view.comparison_swapped op⟩

variable {translated : Translated Predicate}

omit [Unicode] in
/-- One bound of a `BETWEEN`, or one entry of an `IN`, on a row. -/
theorem bound_covers (exact : parser.Exact reading) {literal : Node}
    (readable : Readable reading literal) {prim : PrimitiveType} {name : String}
    (typed : row name = .null ∨ prim.Holds (row name))
    (same : ∀ scalar, literalToScalar parser literal prim = some scalar →
      scalar.value = literalValue reading literal)
    (op : Comparison) (env : Env) (strict : Bool)
    (found : (literalToScalar parser literal prim).map (fun scalar =>
      Translated.ofExact (Predicate.compare op name scalar)) = some translated) :
    translated.Covers (Predicate.holds row) strict
      (reading.comparison op (row name) (literal.eval reading env)) := by
  obtain ⟨scalar, converted, rfl⟩ := Option.map_eq_some_iff.mp found
  obtain ⟨-, evals, holds, -⟩ := literalToScalar_spec exact converted readable
  rw [evals]
  exact .of_eq (exact_comparison typed holds (same scalar converted) op).1

end Leaves

theorem PlacedLiteral.within {columns : FilterColumns} {node literal : Node}
    {prim : PrimitiveType} (placed : PlacedLiteral columns node literal prim) :
    Within literal node := by
  cases placed with
  | operand operands resolved =>
      unfold comparisonOperands at operands
      split at operands
      · cases operands
        exact .of_mem (by simp [children])
      · simp only [Option.bind_eq_bind, Option.bind_eq_some_iff, Option.pure_def,
          Option.some.injEq, Prod.mk.injEq] at operands
        obtain ⟨column, named, rfl, rfl, rfl⟩ := operands
        exact .of_mem (by simp [children])
  | entry resolved member => exact .of_mem (by simp [children, member])
  | low resolved => exact .of_mem (by simp [children])
  | high resolved => exact .of_mem (by simp [children])

end Soundness

section Instances

local instance deltaUnicode : Unicode := Unicode.ascii

/-- A parser that accepts no calendar text. -/
def noDates : ScalarParser := ⟨fun _ => none, fun _ => none, fun _ => none⟩

theorem noDates_exact : noDates.Exact noCalendar where
  date _ _ _ parsed := by cases parsed
  timestamp _ _ _ parsed := by cases parsed
  timestampNtz _ _ _ parsed := by cases parsed

def tenth : Node := .literal ⟨.exactnumeric, .string "0.1", none⟩

end Instances

end Delta

end LakehouseEngine
