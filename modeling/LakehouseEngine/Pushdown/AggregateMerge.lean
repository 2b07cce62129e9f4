import LakehouseEngine.Scan.PartialAggregate

/-!
# Merging partial aggregates

Exasol merges the shards' partial rows into the aggregates of the whole table.  The
variance family is merged from counts, means and squared deviations, around a grand
mean that window functions add to every partial row.
-/

namespace LakehouseEngine

/-! ## The merge query -/

def partialColumn (column : PartialAggColumn) (ordinal : ℕ) : Sql :=
  .column none (partialColumnName column ordinal)

def statRefName (ordinal : ℕ) : String := "STAT_REF_" ++ toString ordinal

def statGrandMeanName (ordinal : ℕ) : String := "STAT_GMEAN_" ++ toString ordinal

/-- One shard's mean, to which the others are taken relative. -/
def statRefSql (ordinal : ℕ) : Sql := .call "MIN" [partialColumn .statMean ordinal]

def statGrandMeanSql (ordinal : ℕ) : Sql :=
  let shift := Sql.column none (statRefName ordinal)
  let cnt := partialColumn .statCnt ordinal
  .binary .add shift
    (.binary .divide
      (.call "SUM" [.binary .multiply cnt
        (.paren (.binary .subtract (partialColumn .statMean ordinal) shift))])
      (.call "NULLIF" [.call "SUM" [cnt], .number "0"]))

/-- The ordinals of the plans that need a grand mean. -/
def statOrdinals (plans : List AggregatePlan) : List ℕ :=
  (plans.zipIdx.filter fun (plan, _) => plan.kind.isStat).map Prod.snd

/-- `SELECT r.*, <items> FROM rows r` in one of the rows, where each item may aggregate over
all of them. -/
def windowRow (engine : Engine) (items : List (String × Sql)) (rows : List NamedRow)
    (row : NamedRow) : NamedRow :=
  row ++ items.map fun (name, item) =>
    (name, item.eval engine (overWindow engine (rows.map NamedRow.scope) row.scope))

def addWindowColumns (engine : Engine) (items : List (String × Sql)) (rows : List NamedRow) :
    List NamedRow :=
  rows.map (windowRow engine items rows)

/-- `with_stat_grand_means`, on the partial rows of one group. -/
def withStatGrandMeans (engine : Engine) (plans : List AggregatePlan) (rows : List NamedRow) :
    List NamedRow :=
  let stats := statOrdinals plans
  addWindowColumns engine (stats.map fun i => (statGrandMeanName i, statGrandMeanSql i))
    (addWindowColumns engine (stats.map fun i => (statRefName i, statRefSql i)) rows)

/-- `SUM` of a partial column. -/
def sumOf (column : PartialAggColumn) (ordinal : ℕ) : Sql :=
  .call "SUM" [partialColumn column ordinal]

/-- The squared deviations of all rows. -/
def statM2Sql (ordinal : ℕ) : Sql :=
  let distance := Sql.paren (.binary .subtract (partialColumn .statMean ordinal)
    (.column none (statGrandMeanName ordinal)))
  .paren (.binary .add (sumOf .statM2 ordinal)
    (.call "SUM" [.binary .multiply
      (.binary .multiply (partialColumn .statCnt ordinal) distance) distance]))

def varPopSql (ordinal : ℕ) : Sql :=
  .binary .divide (statM2Sql ordinal) (.call "NULLIF" [sumOf .statCnt ordinal, .number "0"])

def varSampSql (ordinal : ℕ) : Sql :=
  .binary .divide (statM2Sql ordinal)
    (.case .omitted
      [.binary (.comparison .lessEqual) (sumOf .statCnt ordinal) (.number "1")]
      [.null]
      (.binary .subtract (sumOf .statCnt ordinal) (.number "1")))

def varianceSql (ordinal : ℕ) : Sql :=
  .case .omitted
    [.binary (.comparison .equal) (sumOf .statCnt ordinal) (.number "1")]
    [.number "0"]
    (.binary .divide (statM2Sql ordinal)
      (.paren (.binary .subtract (sumOf .statCnt ordinal) (.number "1"))))

/-- `merge_select_items` and `stat_merge`, for one plan. -/
def mergeSelectItem (kind : AggKind) (ordinal : ℕ) : Sql :=
  match kind with
  | .count => sumOf .countStar ordinal
  | .countCol => sumOf .countArg ordinal
  | .sum => sumOf .sum ordinal
  | .min => .call "MIN" [partialColumn .min ordinal]
  | .max => .call "MAX" [partialColumn .max ordinal]
  | .avg =>
      .binary .divide (sumOf .avgSum ordinal)
        (.call "NULLIF" [sumOf .avgCnt ordinal, .number "0"])
  | .varPop => varPopSql ordinal
  | .varSamp => varSampSql ordinal
  | .variance => varianceSql ordinal
  | .stddevPop => .call "SQRT" [varPopSql ordinal]
  | .stddevSamp => .call "SQRT" [varSampSql ordinal]
  | .stddev => .call "SQRT" [varianceSql ordinal]

def mergeSelectItems (plans : List AggregatePlan) : List Sql :=
  plans.zipIdx.map fun (plan, ordinal) => mergeSelectItem plan.kind ordinal

/-- The merge of one group's partial rows. -/
def mergeRows (engine : Engine) (plans : List AggregatePlan) (rows : List NamedRow) :
    List Value :=
  (mergeSelectItems plans).map fun item =>
    item.eval engine (overRows engine
      ((withStatGrandMeans engine plans rows).map NamedRow.scope))

/-! ## The aggregates of the whole table -/

/-- What an aggregate is, over all rows and all argument values. -/
def AggKind.whole (root : ℚ → ℚ) (rowCount : ℕ) (values : List Value) : AggKind → Value
  | .count => .num rowCount
  | .countCol => Aggregate.count values
  | .sum => Aggregate.sum values
  | .min => Aggregate.min values
  | .max => Aggregate.max values
  | .avg => Aggregate.avg values
  | .varPop => Aggregate.varPop values
  | .varSamp => Aggregate.varSamp values
  | .variance => Aggregate.variance values
  | .stddevPop => (Aggregate.varPop values).sqrt root
  | .stddevSamp => (Aggregate.varSamp values).sqrt root
  | .stddev => (Aggregate.variance values).sqrt root

/-! ## The columns of the merged rows -/

theorem lookup_windowRow_of_some {engine : Engine} {items : List (String × Sql)}
    {rows : List NamedRow} {row : NamedRow} {name : String} {value : Value}
    (found : row.lookup name = some value) :
    (windowRow engine items rows row).lookup name = some value := by
  rw [windowRow, List.lookup_append, found]
  rfl

/-- A window column is read under its name, when the row has no other column of that name. -/
theorem lookup_windowRow (engine : Engine) {name : ℕ → String} (distinct : name.Injective)
    (item : ℕ → Sql) {ordinals : List ℕ} {ordinal : ℕ} (member : ordinal ∈ ordinals)
    (rows : List NamedRow) {row : NamedRow} (absent : row.lookup (name ordinal) = none) :
    (windowRow engine (ordinals.map fun i => (name i, item i)) rows row).lookup (name ordinal) =
      some ((item ordinal).eval engine
        (overWindow engine (rows.map NamedRow.scope) row.scope)) := by
  rw [windowRow, List.lookup_append, absent, Option.none_or]
  apply lookup_of_unique
  · exact List.mem_map.mpr ⟨_, List.mem_map.mpr ⟨ordinal, member, rfl⟩, rfl⟩
  · intro other found
    obtain ⟨_, listed, same⟩ := List.mem_map.mp found
    obtain ⟨position, _, rfl⟩ := List.mem_map.mp listed
    obtain ⟨sameName, rfl⟩ := Prod.mk.inj same
    rw [distinct sameName]

theorem statRefName_injective : statRefName.Injective := by
  intro left right same
  have chars := congrArg String.toList same
  simp only [statRefName, String.toList_append, List.append_cancel_left_eq] at chars
  exact Text.natToString_inj (String.toList_inj.mp chars)

theorem statGrandMeanName_injective : statGrandMeanName.Injective := by
  intro left right same
  have chars := congrArg String.toList same
  simp only [statGrandMeanName, String.toList_append, List.append_cancel_left_eq] at chars
  exact Text.natToString_inj (String.toList_inj.mp chars)

/-- A name that does not start as the partial columns do is not among them. -/
theorem lookup_partialRow_eq_none (engine : Engine) (plans : List AggregatePlan)
    (rows : List Scope) {name : String}
    (foreign : ∀ column ordinal, name ≠ partialColumnName column ordinal) :
    (partialRow engine plans rows).lookup name = none := by
  rw [List.lookup_eq_none_iff]
  rintro ⟨other, value⟩ member
  obtain ⟨⟨plan, ordinal⟩, _, inside⟩ := List.mem_flatMap.mp member
  obtain ⟨item, listed, same⟩ := List.mem_map.mp inside
  obtain ⟨column, _, rfl⟩ := List.mem_map.mp listed
  obtain ⟨rfl, _⟩ := Prod.mk.inj same
  exact bne_iff_ne.mpr (foreign column ordinal)

/-! ## Arithmetic on the merged columns -/

section Arithmetic

open Aggregate

variable (root : ℚ → ℚ)

theorem orNull_add (numbers : List ℚ) (left right : ℚ) :
    (exactEngine root).binary .add (orNull numbers left) (orNull numbers right) =
      orNull numbers (left + right) := by
  unfold orNull
  split <;> rfl

/-- The quotient by a count is NULL over no number, and never divides by zero. -/
theorem orNull_divide_count (numbers : List ℚ) (total : ℚ) :
    (exactEngine root).binary .divide (orNull numbers total)
        ((exactEngine root).call "NULLIF" [.num numbers.length, (exactEngine root).number "0"]) =
      orNull numbers (total / numbers.length) := by
  rw [exactEngine_number root (show _ = some 0 by decide +kernel)]
  unfold orNull
  by_cases empty : numbers = []
  · rw [if_pos empty, if_pos empty]
    rfl
  · have size : (numbers.length : ℚ) ≠ 0 :=
      Nat.cast_ne_zero.mpr fun zero => empty (List.length_eq_zero_iff.mp zero)
    have kept : (exactEngine root).call "NULLIF" [.num numbers.length, .num 0] =
        .num numbers.length := if_neg fun same => size (Value.num.inj same)
    rw [if_neg empty, if_neg empty, kept]
    exact if_neg size

/-- A part's distance from a point that is NULL only when every part is empty. -/
theorem orNull_subtract {part whole : List ℚ} (inside : part ≠ [] → whole ≠ []) (left right : ℚ) :
    (exactEngine root).binary .subtract (orNull part left) (orNull whole right) =
      orNull part (left - right) := by
  unfold orNull
  by_cases empty : part = []
  · rw [if_pos empty, if_pos empty]
    rfl
  · rw [if_neg empty, if_neg empty, if_neg (inside empty)]
    rfl

theorem count_multiply_orNull (part : List ℚ) (value : ℚ) :
    (exactEngine root).binary .multiply (.num part.length) (orNull part value) =
      orNull part (part.length * value) := by
  unfold orNull
  split <;> rfl

theorem orNull_multiply (part : List ℚ) (left right : ℚ) :
    (exactEngine root).binary .multiply (orNull part left) (orNull part right) =
      orNull part (left * right) := by
  unfold orNull
  split <;> rfl

theorem flatten_ne_nil_of_mem {parts : List (List ℚ)} {part : List ℚ} (member : part ∈ parts)
    (nonempty : part ≠ []) : parts.flatten ≠ [] := by
  intro empty
  exact nonempty (List.flatten_eq_nil_iff.mp empty part member)

/-- The reference, the parts' weighted distances from it and the counts give the mean. -/
theorem grandMean_eq {parts : List (List ℚ)} (shards : parts ≠ []) (reference : ℚ) :
    (exactEngine root).binary .add (orNull parts.flatten reference)
        ((exactEngine root).binary .divide
          (sum (parts.map fun part => (exactEngine root).binary .multiply (.num part.length)
            ((exactEngine root).binary .subtract (orNull part (Moments.mean part))
              (orNull parts.flatten reference))))
          ((exactEngine root).call "NULLIF"
            [sum (parts.map fun part => .num part.length), (exactEngine root).number "0"])) =
      orNull parts.flatten (Moments.mean parts.flatten) := by
  have distances : (parts.map fun part => (exactEngine root).binary .multiply (.num part.length)
      ((exactEngine root).binary .subtract (orNull part (Moments.mean part))
        (orNull parts.flatten reference))) =
      parts.map fun part => orNull part (part.length * (Moments.mean part - reference)) := by
    apply List.map_congr_left
    intro part member
    rw [orNull_subtract root (flatten_ne_nil_of_mem member), count_multiply_orNull]
  rw [distances, sum_orNull, sum_counts shards, orNull_divide_count, orNull_add]
  by_cases empty : parts.flatten = []
  · rw [orNull, orNull, if_pos empty, if_pos empty]
  · have count : (parts.flatten.length : ℚ) =
        ((present parts).map fun part => (part.length : ℚ)).sum := by
      rw [← flatten_present, List.length_flatten, Nat.cast_list_sum, List.map_map]
      rfl
    rw [← flatten_present] at empty
    have merged := Moments.mean_flatten reference empty
    rw [flatten_present] at merged
    rw [merged, count]

/-- The parts' squared deviations and their distances from the mean give the whole's. -/
theorem squaredDeviations_eq (parts : List (List ℚ)) :
    (exactEngine root).binary .add
        (sum (parts.map fun part => orNull part (Moments.m2 part)))
        (sum (parts.map fun part => (exactEngine root).binary .multiply
          ((exactEngine root).binary .multiply (.num part.length)
            ((exactEngine root).binary .subtract (orNull part (Moments.mean part))
              (orNull parts.flatten (Moments.mean parts.flatten))))
          ((exactEngine root).binary .subtract (orNull part (Moments.mean part))
            (orNull parts.flatten (Moments.mean parts.flatten))))) =
      orNull parts.flatten (Moments.m2 parts.flatten) := by
  have distances : (parts.map fun part => (exactEngine root).binary .multiply
      ((exactEngine root).binary .multiply (.num part.length)
        ((exactEngine root).binary .subtract (orNull part (Moments.mean part))
          (orNull parts.flatten (Moments.mean parts.flatten))))
      ((exactEngine root).binary .subtract (orNull part (Moments.mean part))
        (orNull parts.flatten (Moments.mean parts.flatten)))) =
      parts.map fun part => orNull part
        (part.length * ((Moments.mean part - Moments.mean parts.flatten) *
          (Moments.mean part - Moments.mean parts.flatten))) := by
    apply List.map_congr_left
    intro part member
    rw [orNull_subtract root (flatten_ne_nil_of_mem member), count_multiply_orNull,
      orNull_multiply, mul_assoc]
  have merged := Moments.m2_flatten (present parts)
  rw [flatten_present] at merged
  rw [distances, sum_orNull, sum_orNull, orNull_add, merged]

/-- A condition on counts picks the branch that holds of them. -/
theorem lessEqual_num (left right : ℕ) :
    ((exactEngine root).binary (.comparison .lessEqual) (.num left) (.num right)).truth =
      some (decide (left ≤ right)) := by
  refine (Value.truth_ofTruth _).trans (congrArg some ?_)
  have ordered : Comparison.lessEqual.holds (compare (left : ℚ) right) = true ↔ left ≤ right := by
    rw [Comparison.holds, bne_iff_ne, ne_eq, compare_gt_iff_gt, not_lt, Nat.cast_le]
  rw [Bool.eq_iff_iff, ordered, decide_eq_true_iff]

theorem equal_num (left right : ℕ) :
    ((exactEngine root).binary (.comparison .equal) (.num left) (.num right)).truth =
      some (decide (left = right)) := by
  refine (Value.truth_ofTruth _).trans (congrArg some ?_)
  have tied : Comparison.equal.holds (compare (left : ℚ) right) = true ↔ left = right := by
    rw [Comparison.holds, beq_iff_eq, compare_eq_iff_eq, Nat.cast_inj]
  rw [Bool.eq_iff_iff, tied, decide_eq_true_iff]

theorem exactEngine_one : (exactEngine root).number "1" = .num (1 : ℕ) := by
  rw [Nat.cast_one]
  exact exactEngine_number root (by decide +kernel)

theorem orNull_divide_pred {numbers : List ℚ} (several : ¬ numbers.length ≤ 1) (total : ℚ) :
    (exactEngine root).binary .divide (orNull numbers total)
        ((exactEngine root).binary .subtract (.num numbers.length) (.num (1 : ℕ))) =
      .num (total / (numbers.length - 1)) := by
  have size : (numbers.length : ℚ) - (1 : ℕ) ≠ 0 := by
    rw [sub_ne_zero]
    exact_mod_cast (not_le.mp several).ne'
  have nonempty : numbers ≠ [] := by
    rintro rfl
    exact several (Nat.zero_le 1)
  rw [orNull, if_neg nonempty, ← Nat.cast_one]
  exact if_neg size

theorem varSamp_eq (numbers : List ℚ) :
    (exactEngine root).binary .divide (orNull numbers (Moments.m2 numbers))
        (caseSelect
          [((exactEngine root).binary (.comparison .lessEqual) (.num numbers.length)
            ((exactEngine root).number "1")).truth]
          [.null, (exactEngine root).binary .subtract (.num numbers.length)
            ((exactEngine root).number "1")]) =
      if numbers.length ≤ 1 then .null else .num (Moments.m2 numbers / (numbers.length - 1)) := by
  rw [exactEngine_one, lessEqual_num]
  by_cases few : numbers.length ≤ 1
  · rw [if_pos few, decide_eq_true few]
    unfold orNull
    split <;> rfl
  · rw [if_neg few, decide_eq_false few]
    exact orNull_divide_pred root few _

theorem variance_eq (numbers : List ℚ) :
    caseSelect
        [((exactEngine root).binary (.comparison .equal) (.num numbers.length)
          ((exactEngine root).number "1")).truth]
        [(exactEngine root).number "0",
          (exactEngine root).binary .divide (orNull numbers (Moments.m2 numbers))
            ((exactEngine root).binary .subtract (.num numbers.length)
              ((exactEngine root).number "1"))] =
      if numbers.length = 1 then .num 0
      else if numbers.length ≤ 1 then .null
      else .num (Moments.m2 numbers / (numbers.length - 1)) := by
  rw [exactEngine_one, equal_num]
  by_cases single : numbers.length = 1
  · rw [if_pos single, decide_eq_true single]
    exact exactEngine_number root (by decide +kernel)
  · rw [if_neg single, decide_eq_false single]
    by_cases few : numbers.length ≤ 1
    · have empty : numbers = [] := List.length_eq_zero_iff.mp (by omega)
      rw [if_pos few, empty]
      rfl
    · rw [if_neg few]
      exact orNull_divide_pred root few _

end Arithmetic

/-! ## The rows that the merge reads -/

section Rows

variable (root : ℚ → ℚ) (plans : List AggregatePlan) (shards : List (List Scope))

/-- A shard's partial row with the reference means. -/
def refRow (shard : List Scope) : NamedRow :=
  windowRow (exactEngine root) ((statOrdinals plans).map fun i => (statRefName i, statRefSql i))
    (shards.map (partialRow (exactEngine root) plans)) (partialRow (exactEngine root) plans shard)

/-- A shard's partial row with the reference means and the grand means. -/
def mergedRow (shard : List Scope) : NamedRow :=
  windowRow (exactEngine root)
    ((statOrdinals plans).map fun i => (statGrandMeanName i, statGrandMeanSql i))
    (shards.map (refRow root plans shards)) (refRow root plans shards shard)

theorem withStatGrandMeans_eq :
    withStatGrandMeans (exactEngine root) plans (shards.map (partialRow (exactEngine root) plans)) =
      shards.map (mergedRow root plans shards) := by
  have refs : addWindowColumns (exactEngine root)
      ((statOrdinals plans).map fun i => (statRefName i, statRefSql i))
      (shards.map (partialRow (exactEngine root) plans)) =
      shards.map (refRow root plans shards) := List.map_map
  rw [withStatGrandMeans, refs]
  exact List.map_map

variable {plans} {plan : AggregatePlan} {ordinal : ℕ} (planned : plans[ordinal]? = some plan)

/-- The numbers of each shard. -/
def AggregatePlan.parts (plan : AggregatePlan) : List (List ℚ) :=
  shards.map fun shard => Aggregate.numbers (plan.arguments (exactEngine root) shard)

/-- An aggregate call over one row of each shard, in a query over the rows or in a window. -/
theorem eval_aggregate {name : String} {aggregate : List Value → Value}
    (named : Aggregate.named name = some aggregate) {argument : Sql} {scope : Scope}
    {row : List Scope → NamedRow} {value : List Scope → Value}
    (ranging : scope.aggregate =
      (overRows (exactEngine root) ((shards.map row).map NamedRow.scope)).aggregate)
    (each : ∀ shard ∈ shards, argument.eval (exactEngine root) (row shard).scope = value shard) :
    (Sql.call name [argument]).eval (exactEngine root) scope = aggregate (shards.map value) := by
  have column : ((shards.map row).map NamedRow.scope).map (argument.eval (exactEngine root)) =
      shards.map value := by
    rw [List.map_map, List.map_map]
    exact List.map_congr_left each
  rw [← column]
  simp only [Sql.eval, ranging, overRows, named, Option.getD_some]

/-- The same where each row's value comes from its shard's numbers. -/
theorem eval_aggregate_parts {name : String} {aggregate : List Value → Value}
    (named : Aggregate.named name = some aggregate) {argument : Sql} {scope : Scope}
    {row : List Scope → NamedRow} {value : List ℚ → Value}
    (ranging : scope.aggregate =
      (overRows (exactEngine root) ((shards.map row).map NamedRow.scope)).aggregate)
    (each : ∀ shard ∈ shards, argument.eval (exactEngine root) (row shard).scope =
      value (Aggregate.numbers (plan.arguments (exactEngine root) shard))) :
    (Sql.call name [argument]).eval (exactEngine root) scope =
      aggregate ((plan.parts root shards).map value) := by
  rw [eval_aggregate root shards named ranging each, AggregatePlan.parts, List.map_map]
  rfl

theorem AggregatePlan.flatten_parts (plan : AggregatePlan) :
    Aggregate.numbers (plan.arguments (exactEngine root) shards.flatten) =
      (plan.parts root shards).flatten := by
  rw [AggregatePlan.arguments, List.map_flatten, Aggregate.numbers_flatten, List.map_map]
  rfl

theorem AggregatePlan.parts_ne_nil (plan : AggregatePlan) (nonempty : shards ≠ []) :
    plan.parts root shards ≠ [] := by
  simpa [AggregatePlan.parts] using nonempty

include planned in
theorem mem_statOrdinals (stat : plan.kind.isStat) : ordinal ∈ statOrdinals plans := by
  refine List.mem_map.mpr ⟨(plan, ordinal), List.mem_filter.mpr ⟨?_, stat⟩, rfl⟩
  exact List.mem_zipIdx_iff_getElem?.mpr planned

section Columns

variable {shard : List Scope}
  (exact : plan.ExactOn root shard)
  {column : PartialAggColumn} (member : column ∈ plan.kind.partialColumns)

include planned exact member

theorem lookup_refRow :
    (refRow root plans shards shard).lookup (partialColumnName column ordinal) =
      some (column.value shard.length
        (Aggregate.numbers (plan.arguments (exactEngine root) shard))) :=
  lookup_windowRow_of_some (lookup_partialRow root planned exact member)

/-- The merge reads each column at its shard's value. -/
theorem eval_partialColumn :
    (partialColumn column ordinal).eval (exactEngine root)
        (mergedRow root plans shards shard).scope =
      column.value shard.length
        (Aggregate.numbers (plan.arguments (exactEngine root) shard)) :=
  congrArg (·.getD .null)
    (lookup_windowRow_of_some (lookup_refRow root shards planned exact member))

end Columns

theorem statRefName_foreign (ordinal : ℕ) (column : PartialAggColumn) (other : ℕ) :
    statRefName ordinal ≠ partialColumnName column other := by
  intro same
  have chars := congrArg String.toList same
  simp [statRefName, partialColumnName, String.toList_append] at chars

theorem statGrandMeanName_foreign (ordinal : ℕ) (column : PartialAggColumn) (other : ℕ) :
    statGrandMeanName ordinal ≠ partialColumnName column other := by
  intro same
  have chars := congrArg String.toList same
  simp [statGrandMeanName, partialColumnName, String.toList_append] at chars

theorem statGrandMeanName_ne_statRefName (ordinal other : ℕ) :
    statGrandMeanName ordinal ≠ statRefName other := by
  intro same
  have chars := congrArg String.toList same
  simp [statGrandMeanName, statRefName, String.toList_append] at chars

theorem lookup_refRow_eq_none (shard : List Scope) (ordinal : ℕ) :
    (refRow root plans shards shard).lookup (statGrandMeanName ordinal) = none := by
  rw [refRow, windowRow, List.lookup_append,
    lookup_partialRow_eq_none _ _ _ (statGrandMeanName_foreign ordinal), Option.none_or,
    List.lookup_eq_none_iff]
  intro entry member
  obtain ⟨_, listed, rfl⟩ := List.mem_map.mp member
  obtain ⟨other, _, rfl⟩ := List.mem_map.mp listed
  exact bne_iff_ne.mpr (statGrandMeanName_ne_statRefName ordinal other)

section Stat

variable (exact : ∀ shard ∈ shards, plan.ExactOn root shard) (stat : plan.kind.isStat)

theorem AggKind.partialColumns_of_isStat {kind : AggKind} (stat : kind.isStat) :
    kind.partialColumns = [.statCnt, .statMean, .statM2] := by
  cases kind <;> first | rfl | cases stat

include planned exact stat

/-- Every row holds the same reference, NULL only when no shard has a number. -/
theorem lookup_statRef :
    ∃ reference, ∀ shard, (refRow root plans shards shard).lookup (statRefName ordinal) =
      some (Aggregate.orNull (plan.parts root shards).flatten reference) := by
  have mean : PartialAggColumn.statMean ∈ plan.kind.partialColumns := by
    simp [AggKind.partialColumns_of_isStat stat]
  refine ⟨((Aggregate.present (plan.parts root shards)).map Moments.mean).min?.getD 0, ?_⟩
  intro shard
  rw [← Aggregate.orNull_present _ Moments.mean, ← Aggregate.numbers_orNull]
  refine (lookup_windowRow (exactEngine root) statRefName_injective statRefSql
    (mem_statOrdinals planned stat) _
    (lookup_partialRow_eq_none _ _ _ (statRefName_foreign ordinal))).trans (congrArg some ?_)
  refine eval_aggregate_parts root shards
    (show Aggregate.named "MIN" = some Aggregate.min from rfl) rfl ?_
  intro shard member
  exact congrArg (·.getD .null) (lookup_partialRow root planned (exact shard member) mean)

/-- Every row holds the mean of all numbers. -/
theorem lookup_statGrandMean (nonempty : shards ≠ []) (shard : List Scope) :
    (mergedRow root plans shards shard).lookup (statGrandMeanName ordinal) =
      some (Aggregate.orNull (plan.parts root shards).flatten
        (Moments.mean (plan.parts root shards).flatten)) := by
  obtain ⟨reference, refs⟩ := lookup_statRef root shards planned exact stat
  have counter : PartialAggColumn.statCnt ∈ plan.kind.partialColumns := by
    simp [AggKind.partialColumns_of_isStat stat]
  have mean : PartialAggColumn.statMean ∈ plan.kind.partialColumns := by
    simp [AggKind.partialColumns_of_isStat stat]
  have total := @eval_aggregate_parts root shards plan "SUM" Aggregate.sum rfl
  rw [← grandMean_eq root (plan.parts_ne_nil root shards nonempty) reference]
  refine (lookup_windowRow (exactEngine root) statGrandMeanName_injective statGrandMeanSql
    (mem_statOrdinals planned stat) _
    (lookup_refRow_eq_none root shards shard ordinal)).trans (congrArg some ?_)
  refine congrArg₂ ((exactEngine root).binary .add) (congrArg (·.getD .null) (refs shard))
    (congrArg₂ ((exactEngine root).binary .divide) (total rfl ?distances)
      (congrArg (fun count => (exactEngine root).call "NULLIF" [count, _]) (total rfl ?counts)))
  case counts =>
    intro shard member
    exact congrArg (·.getD .null) (lookup_refRow root shards planned (exact shard member) counter)
  case distances =>
    intro shard member
    have cnt := lookup_refRow root shards planned (exact shard member) counter
    have center := lookup_refRow root shards planned (exact shard member) mean
    simp [partialColumn, Sql.eval, NamedRow.scope, cnt, center, refs shard, PartialAggColumn.value]

theorem eval_sumOf_statCnt (nonempty : shards ≠ []) {scope : Scope}
    (ranging : scope.aggregate = (overRows (exactEngine root)
      ((shards.map (mergedRow root plans shards)).map NamedRow.scope)).aggregate) :
    (sumOf .statCnt ordinal).eval (exactEngine root) scope =
      .num (plan.parts root shards).flatten.length := by
  rw [← Aggregate.sum_counts (plan.parts_ne_nil root shards nonempty)]
  refine eval_aggregate_parts root shards
    (show Aggregate.named "SUM" = some Aggregate.sum from rfl) ranging ?_
  intro shard member
  exact eval_partialColumn root shards planned (exact shard member)
    (by simp [AggKind.partialColumns_of_isStat stat])

/-- The squared deviations of all numbers. -/
theorem eval_statM2Sql (nonempty : shards ≠ []) {scope : Scope}
    (ranging : scope.aggregate = (overRows (exactEngine root)
      ((shards.map (mergedRow root plans shards)).map NamedRow.scope)).aggregate) :
    (statM2Sql ordinal).eval (exactEngine root) scope =
      Aggregate.orNull (plan.parts root shards).flatten
        (Moments.m2 (plan.parts root shards).flatten) := by
  have columns := AggKind.partialColumns_of_isStat stat
  have read : ∀ column ∈ [PartialAggColumn.statCnt, .statMean, .statM2], ∀ shard ∈ shards,
      (partialColumn column ordinal).eval (exactEngine root)
        (mergedRow root plans shards shard).scope = column.value shard.length
          (Aggregate.numbers (plan.arguments (exactEngine root) shard)) := by
    intro column listed shard member
    exact eval_partialColumn root shards planned (exact shard member) (columns ▸ listed)
  have total := @eval_aggregate_parts root shards plan "SUM" Aggregate.sum rfl
  rw [← squaredDeviations_eq root]
  refine congrArg₂ ((exactEngine root).binary .add) (total ranging (read .statM2 (by simp)))
    (total ranging ?distances)
  intro shard member
  have grand : (Sql.column none (statGrandMeanName ordinal)).eval (exactEngine root)
      (mergedRow root plans shards shard).scope = Aggregate.orNull (plan.parts root shards).flatten
        (Moments.mean (plan.parts root shards).flatten) :=
    congrArg (·.getD .null) (lookup_statGrandMean root shards planned exact stat nonempty shard)
  have distance := congrArg₂ ((exactEngine root).binary .subtract)
    (read .statMean (by simp) shard member) grand
  exact congrArg₂ ((exactEngine root).binary .multiply)
    (congrArg₂ ((exactEngine root).binary .multiply) (read .statCnt (by simp) shard member)
      distance) distance

section Variance

variable (nonempty : shards ≠ []) {scope : Scope}
  (ranging : scope.aggregate = (overRows (exactEngine root)
    ((shards.map (mergedRow root plans shards)).map NamedRow.scope)).aggregate)

include nonempty ranging

theorem eval_varPopSql :
    (varPopSql ordinal).eval (exactEngine root) scope =
      Aggregate.varPop (plan.arguments (exactEngine root) shards.flatten) := by
  have deviations := eval_statM2Sql root shards planned exact stat nonempty ranging
  have count := eval_sumOf_statCnt root shards planned exact stat nonempty ranging
  have nullif : scope.aggregate "NULLIF" [sumOf .statCnt ordinal, .number "0"] = none := by
    rw [ranging]
    rfl
  rw [Aggregate.varPop, AggregatePlan.flatten_parts, ← orNull_divide_count root]
  simp only [varPopSql, Sql.eval, Sql.evalEach, nullif, deviations, count, Option.getD_none]

theorem eval_varSampSql :
    (varSampSql ordinal).eval (exactEngine root) scope =
      Aggregate.varSamp (plan.arguments (exactEngine root) shards.flatten) := by
  have deviations := eval_statM2Sql root shards planned exact stat nonempty ranging
  have count := eval_sumOf_statCnt root shards planned exact stat nonempty ranging
  rw [Aggregate.varSamp, AggregatePlan.flatten_parts, ← varSamp_eq root]
  simp only [varSampSql, Sql.eval, Sql.evalEach, Sql.isOmitted, deviations, count]
  rfl

theorem eval_varianceSql :
    (varianceSql ordinal).eval (exactEngine root) scope =
      Aggregate.variance (plan.arguments (exactEngine root) shards.flatten) := by
  have deviations := eval_statM2Sql root shards planned exact stat nonempty ranging
  have count := eval_sumOf_statCnt root shards planned exact stat nonempty ranging
  rw [Aggregate.variance, Aggregate.varSamp, AggregatePlan.flatten_parts, ← variance_eq root]
  simp only [varianceSql, Sql.eval, Sql.evalEach, Sql.isOmitted, deviations, count]
  rfl

end Variance

end Stat

include planned in
/-- The merge of one plan computes its aggregate over all rows. -/
theorem eval_mergeSelectItem (nonempty : shards ≠ [])
    (exact : ∀ shard ∈ shards, plan.ExactOn root shard) :
    (mergeSelectItem plan.kind ordinal).eval (exactEngine root)
        (overRows (exactEngine root)
          ((shards.map (mergedRow root plans shards)).map NamedRow.scope)) =
      plan.kind.whole root shards.flatten.length
        (plan.arguments (exactEngine root) shards.flatten) := by
  have parts := plan.parts_ne_nil root shards nonempty
  have numbers := plan.flatten_parts root shards
  have read : ∀ column ∈ plan.kind.partialColumns, ∀ shard ∈ shards,
      (partialColumn column ordinal).eval (exactEngine root)
        (mergedRow root plans shards shard).scope = column.value shard.length
          (Aggregate.numbers (plan.arguments (exactEngine root) shard)) :=
    fun column listed shard member =>
      eval_partialColumn root shards planned (exact shard member) listed
  have total := @eval_aggregate_parts root shards plan "SUM" Aggregate.sum rfl
  cases kind : plan.kind with
  | count =>
      rw [AggKind.whole, ← Aggregate.sum_counts nonempty]
      exact eval_aggregate root shards (show Aggregate.named "SUM" = some Aggregate.sum from rfl)
        rfl (read .countStar (by simp [kind, AggKind.partialColumns]))
  | countCol =>
      have counted : Aggregate.count (plan.arguments (exactEngine root) shards.flatten) =
          .num (plan.parts root shards).flatten.length := by
        rw [← numbers]
        apply Aggregate.count_eq
        intro value member
        obtain ⟨row, found, rfl⟩ := List.mem_map.mp member
        obtain ⟨shard, listed, inside⟩ := List.mem_flatten.mp found
        exact (exact shard listed).resolve_left (by simp [kind]) row inside
      rw [AggKind.whole, counted, ← Aggregate.sum_counts parts]
      exact total rfl (read .countArg (by simp [kind, AggKind.partialColumns]))
  | sum =>
      rw [AggKind.whole, Aggregate.sum, numbers, ← Aggregate.sum_sums]
      exact total rfl (read .sum (by simp [kind, AggKind.partialColumns]))
  | min =>
      rw [AggKind.whole, Aggregate.min, numbers, ← Aggregate.minimum.flatten]
      exact eval_aggregate_parts root shards
        (show Aggregate.named "MIN" = some Aggregate.min from rfl) rfl
        (read .min (by simp [kind, AggKind.partialColumns]))
  | max =>
      rw [AggKind.whole, Aggregate.max, numbers, ← Aggregate.maximum.flatten]
      exact eval_aggregate_parts root shards
        (show Aggregate.named "MAX" = some Aggregate.max from rfl) rfl
        (read .max (by simp [kind, AggKind.partialColumns]))
  | avg =>
      rw [AggKind.whole, Aggregate.avg, numbers, Moments.mean, ← orNull_divide_count root,
        ← Aggregate.sum_sums, ← Aggregate.sum_counts parts]
      exact congrArg₂ ((exactEngine root).binary .divide)
        (total rfl (read .avgSum (by simp [kind, AggKind.partialColumns])))
        (congrArg (fun count => (exactEngine root).call "NULLIF" [count, _])
          (total rfl (read .avgCnt (by simp [kind, AggKind.partialColumns]))))
  | varPop => exact eval_varPopSql root shards planned exact (by rw [kind]; rfl) nonempty rfl
  | varSamp => exact eval_varSampSql root shards planned exact (by rw [kind]; rfl) nonempty rfl
  | variance => exact eval_varianceSql root shards planned exact (by rw [kind]; rfl) nonempty rfl
  | stddevPop =>
      exact congrArg (Value.sqrt root)
        (eval_varPopSql root shards planned exact (by rw [kind]; rfl) nonempty rfl)
  | stddevSamp =>
      exact congrArg (Value.sqrt root)
        (eval_varSampSql root shards planned exact (by rw [kind]; rfl) nonempty rfl)
  | stddev =>
      exact congrArg (Value.sqrt root)
        (eval_varianceSql root shards planned exact (by rw [kind]; rfl) nonempty rfl)

end Rows

/-- An aggregate does not depend on the order of its rows. -/
theorem AggKind.whole_perm (root : ℚ → ℚ) (rowCount : ℕ) {left right : List Value}
    (perm : left.Perm right) (kind : AggKind) :
    kind.whole root rowCount left = kind.whole root rowCount right := by
  have numbers := Aggregate.numbers_perm perm
  have empty : Aggregate.numbers left = [] ↔ Aggregate.numbers right = [] := by
    rw [← List.length_eq_zero_iff, ← List.length_eq_zero_iff, numbers.length_eq]
  have mean : Moments.mean (Aggregate.numbers left) = Moments.mean (Aggregate.numbers right) := by
    rw [Moments.mean, Moments.mean, numbers.sum_eq, numbers.length_eq]
  have squares : Moments.m2 (Aggregate.numbers left) = Moments.m2 (Aggregate.numbers right) := by
    rw [Moments.m2, Moments.m2, mean]
    exact (numbers.map _).sum_eq
  cases kind <;>
    simp only [whole, Aggregate.count, Aggregate.sum, Aggregate.min, Aggregate.max, Aggregate.avg,
      Aggregate.varPop, Aggregate.varSamp, Aggregate.variance, Aggregate.orNull, empty, mean,
      squares, numbers.length_eq, numbers.sum_eq, Aggregate.minimum.perm numbers,
      Aggregate.maximum.perm numbers, (perm.filter _).length_eq]

/-! ## Groups -/

section Groups

variable {κ : Type*} [DecidableEq κ] (key : Scope → κ)

/-- The group keys of some rows, each once. -/
def groupKeys (rows : List Scope) : List κ := (rows.map key).dedup

def groupRows (rows : List Scope) (group : κ) : List Scope := rows.filter fun row => key row = group

/-- A shard of a grouped scan emits one partial row for each group it has a row of. -/
def groupedPartialRows (engine : Engine) (plans : List AggregatePlan) (shard : List Scope) :
    List (κ × NamedRow) :=
  (groupKeys key shard).map fun group =>
    (group, partialRow engine plans (groupRows key shard group))

/-- `GROUP BY` the keys.  The windows of the grand means partition by them too, so a group is
merged on its own rows. -/
def mergeGroups (engine : Engine) (plans : List AggregatePlan) (rows : List (κ × NamedRow)) :
    List (κ × List Value) :=
  (rows.map Prod.fst).dedup.map fun group =>
    (group, mergeRows engine plans ((rows.filter fun row => row.1 = group).map Prod.snd))

theorem mem_groupKeys {rows : List Scope} {group : κ} :
    group ∈ groupKeys key rows ↔ ∃ row ∈ rows, key row = group := by
  rw [groupKeys, List.mem_dedup, List.mem_map]

/-- The partial rows of one group come from the shards that have a row of it. -/
theorem filter_groupedPartialRows (engine : Engine) (plans : List AggregatePlan)
    (shards : List (List Scope)) (group : κ) :
    ((shards.flatMap (groupedPartialRows key engine plans)).filter fun row => row.1 = group).map
        Prod.snd =
      ((shards.map fun shard => groupRows key shard group).filter fun part => !part.isEmpty).map
        (partialRow engine plans) := by
  induction shards with
  | nil => rfl
  | cons shard shards ih =>
      have own : ((groupedPartialRows key engine plans shard).filter fun row => row.1 = group) =
          ((groupKeys key shard).filter fun other => other = group).map fun other =>
            (other, partialRow engine plans (groupRows key shard other)) := List.filter_map
      have single : ((groupKeys key shard).filter fun other => other = group) =
          if groupRows key shard group = [] then [] else [group] := by
        rw [List.filter_eq, groupKeys, List.count_dedup]
        have occurs : group ∈ shard.map key ↔ groupRows key shard group ≠ [] := by
          simp [groupRows, List.filter_eq_nil_iff]
        simp only [occurs, ne_eq, ite_not]
        split <;> rfl
      rw [List.flatMap_cons, List.filter_append, List.map_append, ih, own, single, List.map_cons]
      by_cases empty : groupRows key shard group = []
      · simp [empty]
      · simp [empty]

/-- The rows of a group are those its shards hold. -/
theorem flatten_groupRows {shards : List (List Scope)} {rows : List Scope}
    (split : shards.flatten.Perm rows) (group : κ) :
    ((shards.map fun shard => groupRows key shard group).filter fun part =>
      !part.isEmpty).flatten.Perm (groupRows key rows group) := by
  have all : (shards.map fun shard => groupRows key shard group).flatten =
      groupRows key shards.flatten group := List.filter_flatten.symm
  rw [List.flatten_filter_not_isEmpty, all]
  exact split.filter _

theorem groupKeys_perm (engine : Engine) (plans : List AggregatePlan)
    {shards : List (List Scope)} {rows : List Scope} (split : shards.flatten.Perm rows) :
    (((shards.flatMap (groupedPartialRows key engine plans)).map Prod.fst).dedup).Perm
      (groupKeys key rows) := by
  rw [groupKeys, List.perm_ext_iff_of_nodup (List.nodup_dedup _) (List.nodup_dedup _)]
  intro group
  rw [List.mem_dedup, List.mem_dedup, ← (split.map key).mem_iff]
  constructor
  · intro found
    obtain ⟨row, member, rfl⟩ := List.mem_map.mp found
    obtain ⟨shard, listed, inside⟩ := List.mem_flatMap.mp member
    obtain ⟨group, grouped, rfl⟩ := List.mem_map.mp inside
    obtain ⟨source, held, keyed⟩ := (mem_groupKeys key).mp grouped
    exact List.mem_map.mpr ⟨source, List.mem_flatten.mpr ⟨shard, listed, held⟩, keyed⟩
  · intro found
    obtain ⟨source, member, keyed⟩ := List.mem_map.mp found
    obtain ⟨shard, listed, held⟩ := List.mem_flatten.mp member
    refine List.mem_map.mpr ⟨_, List.mem_flatMap.mpr ⟨shard, listed, List.mem_map.mpr
      ⟨group, (mem_groupKeys key).mpr ⟨source, held, keyed⟩, rfl⟩⟩, rfl⟩

end Groups

/-! ## The merge is the aggregate -/

/-- The aggregates of some rows, computed at once. -/
def wholeRow (root : ℚ → ℚ) (plans : List AggregatePlan) (rows : List Scope) : List Value :=
  plans.map fun plan => plan.kind.whole root rows.length (plan.arguments (exactEngine root) rows)

theorem mergeRows_eq (root : ℚ → ℚ) {plans : List AggregatePlan} {shards : List (List Scope)}
    {rows : List Scope} (nonempty : shards ≠ []) (split : shards.flatten.Perm rows)
    (exact : ∀ plan ∈ plans, plan.ExactOn root rows) :
    mergeRows (exactEngine root) plans (shards.map (partialRow (exactEngine root) plans)) =
      wholeRow root plans rows := by
  rw [mergeRows, withStatGrandMeans_eq, mergeSelectItems, List.map_map, wholeRow]
  apply List.ext_getElem?
  intro ordinal
  rw [List.getElem?_map, List.getElem?_zipIdx, List.getElem?_map, Option.map_map, Nat.zero_add]
  cases planned : plans[ordinal]? with
  | none => rfl
  | some plan =>
      refine congrArg some ?_
      have inRows : ∀ shard ∈ shards, plan.ExactOn root shard := by
        intro shard listed
        refine (exact plan (List.mem_of_getElem? planned)).imp_right ?_
        intro all row held
        exact all row (split.mem_iff.mp (List.mem_flatten.mpr ⟨shard, listed, held⟩))
      refine (eval_mergeSelectItem root shards planned nonempty inRows).trans ?_
      rw [split.length_eq]
      exact plan.kind.whole_perm root _ (split.map _)

/-- The row a shard sends to the merge.  The row of counters and NULLs is the scan's fallback
for a query that returns no batch, which only an empty shard can. -/
def EmitsPartialRow (engine : Engine) (plans : List AggregatePlan) (shard : List Scope)
    (row : NamedRow) : Prop :=
  row = partialRow engine plans shard ∨ shard = [] ∧ row = nullPartialRow plans

theorem emitted_eq (root : ℚ → ℚ) {plans : List AggregatePlan} {shards : List (List Scope)}
    {partials : List NamedRow}
    (emitted : List.Forall₂ (EmitsPartialRow (exactEngine root) plans) shards partials) :
    partials = shards.map (partialRow (exactEngine root) plans) := by
  induction emitted with
  | nil => rfl
  | cons row _ ih =>
      rw [List.map_cons, ← ih]
      rcases row with rfl | ⟨rfl, rfl⟩
      · rfl
      · rw [partialRow_nil]

/-- However the rows are split over the shards, merging the shards' partial rows gives the
aggregates of all rows, and with group keys those of each group's rows. -/
theorem merge_eq_whole (root : ℚ → ℚ) (plans : List AggregatePlan) (shards : List (List Scope))
    (rows : List Scope) (nonempty : shards ≠ []) (split : shards.flatten.Perm rows)
    (exact : ∀ plan ∈ plans, plan.ExactOn root rows) :
    (∀ partials, List.Forall₂ (EmitsPartialRow (exactEngine root) plans) shards partials →
        mergeRows (exactEngine root) plans partials = wholeRow root plans rows) ∧
      ∀ {κ : Type} [DecidableEq κ] (key : Scope → κ),
        (mergeGroups (exactEngine root) plans
          (shards.flatMap (groupedPartialRows key (exactEngine root) plans))).Perm
          ((groupKeys key rows).map fun group =>
            (group, wholeRow root plans (groupRows key rows group))) := by
  constructor
  · intro partials emitted
    rw [emitted_eq root emitted]
    exact mergeRows_eq root nonempty split exact
  · intro κ _ key
    refine (List.Perm.map _ (groupKeys_perm key _ plans split)).trans (List.Perm.of_eq ?_)
    apply List.map_congr_left
    intro group member
    refine congrArg (Prod.mk group) ?_
    rw [filter_groupedPartialRows]
    have held := flatten_groupRows key split group
    refine mergeRows_eq root ?_ held ?_
    · -- A group's key comes from one of its rows, so some shard holds one.
      intro none
      obtain ⟨row, listed, keyed⟩ := (mem_groupKeys key).mp member
      have inGroup : row ∈ groupRows key rows group :=
        List.mem_filter.mpr ⟨listed, by simpa using keyed⟩
      rw [none] at held
      simpa using held.mem_iff.mpr inGroup
    · intro plan planned
      refine (exact plan planned).imp_right ?_
      intro all row inGroup
      exact all row (List.mem_of_mem_filter inGroup)

/-- The numbers 1, 3, 5 and a NULL over three shards, one of them empty. -/
theorem merge_eq_whole_spread :
    let row := fun value => NamedRow.scope [("X", value)]
    let plans : List AggregatePlan :=
      [⟨.count, none, none⟩, ⟨.avg, some "X", none⟩, ⟨.variance, some "X", none⟩]
    let shards := [[row (.num 1), row .null], [], [row (.num 5), row (.num 3)]]
    mergeRows (exactEngine id) plans (shards.map (partialRow (exactEngine id) plans)) =
        [.num 4, .num 3, .num 4] := by
  intro row plans shards
  have exact : ∀ plan ∈ plans, plan.ExactOn id shards.flatten := by
    intro plan planned
    refine Or.inr fun scope member => ?_
    simp only [plans, List.mem_cons, List.not_mem_nil, or_false] at planned
    simp only [shards, List.flatten_cons, List.flatten_nil, List.cons_append, List.nil_append,
      List.append_nil, List.mem_cons, List.not_mem_nil, or_false] at member
    rcases planned with rfl | rfl | rfl <;> rcases member with rfl | rfl | rfl | rfl <;>
      simp [AggregatePlan.argument, Sql.eval, row, NamedRow.scope, Value.IsExact, List.lookup_cons]
  refine ((merge_eq_whole id plans shards shards.flatten (by simp [shards]) (List.Perm.refl _)
    exact).1 _ ?_).trans ?_
  · rw [List.forall₂_map_right_iff]
    exact List.forall₂_same.mpr fun _ _ => Or.inl rfl
  · decide +kernel

end LakehouseEngine
