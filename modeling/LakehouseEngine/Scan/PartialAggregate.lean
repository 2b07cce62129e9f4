import LakehouseEngine.Sql.Aggregate

/-!
# Partial aggregates of a shard

Each shard computes one row of partial values for its aggregates.  A count or a sum is
its own partial, an average is a sum and a count, and the variance family is a count, a
mean and a sum of squared deviations.
-/

namespace LakehouseEngine

inductive AggKind where
  | count | countCol | sum | min | max | avg | varPop | varSamp
  /-- 0 for one value, where `varSamp` is NULL. -/
  | variance
  | stddevPop | stddevSamp
  /-- 0 for one value, where `stddevSamp` is NULL. -/
  | stddev
  deriving DecidableEq

/-- One column of a shard's partial row. -/
inductive PartialAggColumn where
  | countStar | countArg | sum | min | max | avgSum | avgCnt | statCnt | statMean | statM2
  deriving DecidableEq

namespace PartialAggColumn

/-- A counter contributes 0 for an empty shard, a value column NULL. -/
def isCounter : PartialAggColumn → Bool
  | .countStar | .countArg | .avgCnt | .statCnt => true
  | .sum | .min | .max | .avgSum | .statMean | .statM2 => false

def role : PartialAggColumn → String
  | .countStar | .countArg => "count"
  | .sum => "sum"
  | .min => "min"
  | .max => "max"
  | .avgSum => "avg_sum"
  | .avgCnt => "avg_cnt"
  | .statCnt => "stat_cnt"
  | .statMean => "stat_mean"
  | .statM2 => "stat_m2"

end PartialAggColumn

/-- `partial_column_name`: the name that the scan, its `EMITS` clause and the merge share. -/
def partialColumnName (column : PartialAggColumn) (ordinal : ℕ) : String :=
  "PARTIAL_" ++ column.role ++ "_" ++ toString ordinal

namespace AggKind

def isStat : AggKind → Bool
  | .varPop | .varSamp | .variance | .stddevPop | .stddevSamp | .stddev => true
  | _ => false

/-- The columns of a plan, in the order they are emitted. -/
def partialColumns : AggKind → List PartialAggColumn
  | .count => [.countStar]
  | .countCol => [.countArg]
  | .sum => [.sum]
  | .min => [.min]
  | .max => [.max]
  | .avg => [.avgSum, .avgCnt]
  | .varPop | .varSamp | .variance | .stddevPop | .stddevSamp | .stddev =>
      [.statCnt, .statMean, .statM2]

end AggKind

/-- An aggregate of the request.  `argExpr` is the rendered text of an argument that is
no bare column. -/
structure AggregatePlan where
  kind : AggKind
  column : Option String := none
  argExpr : Option String := none
  deriving DecidableEq

/-- `agg_arg_sql`. -/
def AggregatePlan.argument (plan : AggregatePlan) : Sql :=
  match plan.argExpr with
  | some expr => .verbatim expr
  | none => .column none (plan.column.getD "__MISSING_AGG_ARGUMENT__")

/-- The type name of DataFusion's 64-bit float. -/
def doubleType : List Token := [.word "DOUBLE".toList]

/-- `partial_select_items`: the expression of each column, under the column's name. -/
def partialColumnSql (argument : Sql) : PartialAggColumn → Sql
  | .countStar => .callStar "COUNT"
  | .countArg | .avgCnt | .statCnt => .call "COUNT" [argument]
  | .sum | .avgSum => .call "SUM" [argument]
  | .min => .call "MIN" [argument]
  | .max => .call "MAX" [argument]
  | .statMean =>
      .case .omitted
        [.binary (.comparison .equal) (.call "MIN" [argument]) (.call "MAX" [argument])]
        [.cast (.call "MIN" [argument]) doubleType]
        (.call "AVG" [.cast argument doubleType])
  | .statM2 =>
      .case .omitted
        [.binary (.comparison .equal) (.call "MIN" [argument]) (.call "MAX" [argument])]
        [.number "0.0"]
        (.binary .multiply (.call "VAR_POP" [.cast argument doubleType])
          (.call "COUNT" [argument]))

def partialSelectItems (plan : AggregatePlan) (ordinal : ℕ) : List (String × Sql) :=
  plan.kind.partialColumns.map fun column =>
    (partialColumnName column ordinal, partialColumnSql plan.argument column)

/-- A row of named values. -/
abbrev NamedRow := List (String × Value)

/-- The value under a name. -/
def NamedRow.scope (row : NamedRow) : Scope where
  column _ name := (row.lookup name).getD .null

/-- The row a shard emits for its plans. -/
def partialRow (engine : Engine) (plans : List AggregatePlan) (rows : List Scope) : NamedRow :=
  plans.zipIdx.flatMap fun (plan, ordinal) =>
    (partialSelectItems plan ordinal).map fun (name, item) =>
      (name, item.eval engine (overRows engine rows))

/-- The row a shard without a result batch emits. -/
def nullPartialRow (plans : List AggregatePlan) : NamedRow :=
  plans.zipIdx.flatMap fun (plan, ordinal) =>
    plan.kind.partialColumns.map fun column =>
      (partialColumnName column ordinal, if column.isCounter then .num 0 else .null)

/-! ## Names -/

/-- A column's name tells its role and its plan. -/
theorem partialColumnName_inj {column column' : PartialAggColumn} {ordinal ordinal' : ℕ}
    (same : partialColumnName column ordinal = partialColumnName column' ordinal') :
    column.role = column'.role ∧ ordinal = ordinal' := by
  have chars := congrArg String.toList same
  simp only [partialColumnName, String.toList_append, List.append_assoc,
    List.append_cancel_left_eq] at chars
  obtain ⟨role, digits⟩ := Text.append_separator_inj (Text.not_mem_toString (by decide) ordinal)
    (Text.not_mem_toString (by decide) ordinal') chars
  exact ⟨String.toList_inj.mp role, Text.natToString_inj (String.toList_inj.mp digits)⟩

/-- The columns of one plan have distinct roles. -/
theorem AggKind.role_injOn (kind : AggKind) {column column' : PartialAggColumn}
    (member : column ∈ kind.partialColumns) (member' : column' ∈ kind.partialColumns)
    (same : column.role = column'.role) : column = column' := by
  cases kind <;> simp only [partialColumns, List.mem_cons, List.not_mem_nil, or_false] at * <;>
    grind [PartialAggColumn.role]

/-! ## Values -/

/-- What a column holds for a shard with this many rows and these argument numbers. -/
def PartialAggColumn.value (rowCount : ℕ) (numbers : List ℚ) : PartialAggColumn → Value
  | .countStar => .num rowCount
  | .countArg | .avgCnt | .statCnt => .num numbers.length
  | .sum | .avgSum => Aggregate.orNull numbers numbers.sum
  | .min => Aggregate.orNull numbers (numbers.min?.getD 0)
  | .max => Aggregate.orNull numbers (numbers.max?.getD 0)
  | .statMean => Aggregate.orNull numbers (Moments.mean numbers)
  | .statM2 => Aggregate.orNull numbers (Moments.m2 numbers)

/-- The arguments of a plan in some rows. -/
def AggregatePlan.arguments (engine : Engine) (plan : AggregatePlan) (rows : List Scope) :
    List Value :=
  rows.map (plan.argument.eval engine)

/-- Every argument is a number or NULL.  `COUNT(*)` reads none. -/
def AggregatePlan.ExactOn (root : ℚ → ℚ) (plan : AggregatePlan) (rows : List Scope) : Prop :=
  plan.kind = .count ∨ ∀ row ∈ rows, (plan.argument.eval (exactEngine root) row).IsExact

/-- A `CASE` on equal extremes takes its branch for a constant column only. -/
theorem caseSelect_extremes (root : ℚ → ℚ) (numbers : List ℚ) (constant other : Value)
    (onConstant : numbers ≠ [] → (∀ number ∈ numbers, number = numbers.min?.getD 0) →
      constant = other) :
    caseSelect [((exactEngine root).binary (.comparison .equal)
        (Aggregate.orNull numbers (numbers.min?.getD 0))
        (Aggregate.orNull numbers (numbers.max?.getD 0))).truth] [constant, other] = other := by
  by_cases empty : numbers = []
  · subst empty
    rfl
  · simp only [Aggregate.orNull, if_neg empty, Engine.binary, Engine.comparison,
      Value.compareWith, Option.map_some, Value.truth_ofTruth, Comparison.holds]
    by_cases same : numbers.min?.getD 0 = numbers.max?.getD 0
    · have tied : compare (numbers.max?.getD 0) (numbers.max?.getD 0) = .eq :=
        Std.ReflCmp.compare_self
      rw [same, tied]
      exact onConstant empty (Aggregate.constant_of_min_eq_max empty same)
    · have differ : (compare (numbers.min?.getD 0) (numbers.max?.getD 0) == Ordering.eq) =
        false := by
        rw [beq_eq_false_iff_ne]
        exact fun tied => same (Std.LawfulEqCmp.eq_of_compare tied)
      rw [differ]
      rfl

theorem varPop_mul_count (root : ℚ → ℚ) (values : List Value) :
    (exactEngine root).binary .multiply (Aggregate.varPop values)
        (.num (Aggregate.numbers values).length) =
      Aggregate.orNull (Aggregate.numbers values) (Moments.m2 (Aggregate.numbers values)) := by
  unfold Aggregate.varPop Aggregate.orNull
  by_cases empty : Aggregate.numbers values = []
  · rw [if_pos empty, if_pos empty]
    rfl
  · rw [if_neg empty, if_neg empty]
    have size : ((Aggregate.numbers values).length : ℚ) ≠ 0 :=
      Nat.cast_ne_zero.mpr fun zero => empty (List.length_eq_zero_iff.mp zero)
    exact congrArg Value.num (div_mul_cancel₀ _ size)

/-- The scan's expression for a column computes the column's value. -/
theorem eval_partialColumnSql (root : ℚ → ℚ) (argument : Sql) (rows : List Scope)
    (column : PartialAggColumn) (exact : column = .countStar ∨
      ∀ row ∈ rows, (argument.eval (exactEngine root) row).IsExact) :
    (partialColumnSql argument column).eval (exactEngine root)
        (overRows (exactEngine root) rows) =
      column.value rows.length
        (Aggregate.numbers (rows.map (argument.eval (exactEngine root)))) := by
  rcases exact with rfl | exact
  · rfl
  have counted : Aggregate.count (rows.map (argument.eval (exactEngine root))) =
      .num (Aggregate.numbers (rows.map (argument.eval (exactEngine root)))).length := by
    apply Aggregate.count_eq
    intro value member
    obtain ⟨row, found, rfl⟩ := List.mem_map.mp member
    exact exact row found
  cases column with
  | countStar => rfl
  | countArg => exact counted
  | avgCnt => exact counted
  | statCnt => exact counted
  | sum => rfl
  | avgSum => rfl
  | min => rfl
  | max => rfl
  | statMean =>
      refine caseSelect_extremes root _ _ _ ?_
      intro nonempty constant
      exact congrArg (Aggregate.orNull _) (Moments.mean_of_constant nonempty constant).symm
  | statM2 =>
      have product : (exactEngine root).binary .multiply
          (Aggregate.varPop (rows.map (argument.eval (exactEngine root))))
          (Aggregate.count (rows.map (argument.eval (exactEngine root)))) =
          PartialAggColumn.value rows.length
            (Aggregate.numbers (rows.map (argument.eval (exactEngine root)))) .statM2 := by
        rw [counted]
        exact varPop_mul_count root _
      refine (caseSelect_extremes root _ _ _ ?_).trans product
      intro nonempty constant
      refine Eq.trans ?_ product.symm
      rw [PartialAggColumn.value, Aggregate.orNull, if_neg nonempty,
        Moments.m2_of_constant constant]
      exact exactEngine_number root (by decide +kernel)

/-! ## Rows -/

theorem lookup_of_unique {row : NamedRow} {name : String} {value : Value}
    (member : (name, value) ∈ row) (unique : ∀ other, (name, other) ∈ row → other = value) :
    row.lookup name = some value := by
  induction row with
  | nil => cases member
  | cons entry row ih =>
      obtain ⟨first, firstValue⟩ := entry
      by_cases same : name = first
      · subst same
        rw [List.lookup_cons_self, unique firstValue List.mem_cons_self]
      · have differ : (name == first) = false := beq_false_of_ne same
        have later : (name, value) ∈ row := by
          rcases List.mem_cons.mp member with here | later
          · exact absurd (Prod.mk.inj here).1 same
          · exact later
        rw [List.lookup_cons, differ]
        exact ih later fun other found => unique other (List.mem_cons_of_mem _ found)

/-- A partial row holds each column's value under the column's name. -/
theorem lookup_partialRow (root : ℚ → ℚ) {plans : List AggregatePlan} {rows : List Scope}
    {plan : AggregatePlan} {ordinal : ℕ} (planned : plans[ordinal]? = some plan)
    (exact : plan.ExactOn root rows)
    {column : PartialAggColumn} (member : column ∈ plan.kind.partialColumns) :
    (partialRow (exactEngine root) plans rows).lookup (partialColumnName column ordinal) =
      some (column.value rows.length
        (Aggregate.numbers (plan.arguments (exactEngine root) rows))) := by
  have shape : ∀ name value, (name, value) ∈ partialRow (exactEngine root) plans rows ↔
      ∃ other ordinal', plans[ordinal']? = some other ∧
        ∃ column' ∈ other.kind.partialColumns, name = partialColumnName column' ordinal' ∧
          value = (partialColumnSql other.argument column').eval (exactEngine root)
            (overRows (exactEngine root) rows) := by
    intro name value
    simp only [partialRow, partialSelectItems, List.map_map, List.mem_flatMap, List.mem_map,
      Prod.exists, List.mem_zipIdx_iff_getElem?, Function.comp_apply, Prod.mk.injEq]
    grind
  have star : plan.kind = .count → column = .countStar := by
    intro star
    simpa [star, AggKind.partialColumns] using member
  have value := eval_partialColumnSql root plan.argument rows column (exact.imp_left star)
  rw [AggregatePlan.arguments, ← value]
  refine lookup_of_unique ((shape _ _).mpr ⟨plan, ordinal, planned, column, member, rfl, rfl⟩) ?_
  intro found entry
  obtain ⟨other, ordinal', planned', column', member', named, rfl⟩ := (shape _ _).mp entry
  obtain ⟨role, rfl⟩ := partialColumnName_inj named
  rw [planned] at planned'
  cases planned'
  rw [plan.kind.role_injOn member member' role]

/-- A shard without rows emits the row that a shard without a batch emits. -/
theorem partialRow_nil (root : ℚ → ℚ) (plans : List AggregatePlan) :
    partialRow (exactEngine root) plans [] = nullPartialRow plans := by
  unfold partialRow nullPartialRow
  congr 1
  funext ⟨plan, ordinal⟩
  simp only [partialSelectItems, List.map_map]
  apply List.map_congr_left
  intro column _
  have value := eval_partialColumnSql root plan.argument [] column (Or.inr (by simp))
  simp only [Function.comp_apply, value]
  cases column <;> rfl

end LakehouseEngine
