import LakehouseEngine.Expression.Congruence
import LakehouseEngine.Pushdown.TypeRewrites

/-!
# Timestamp literals finer than their column

DataFusion truncates a timestamp literal to its column's unit, Exasol compares at the
literal's full precision.  `rewriteOverpreciseTimestampComparisons` replaces each such
comparison by one the truncation cannot disturb.  The results say when the replaced
tree has the truth value of the original: the comparisons and `BETWEEN` always, an
`IN` list exactly when it holds no NULL entry.
-/

namespace LakehouseEngine

open Node

section Walker

variable {f : Node → Option Node} {related : Node → Node → Prop}

theorem rewriteEach_related (nodes : List Node)
    (each : ∀ node ∈ nodes, ∃ out, rewriteExprTree f node = some out ∧ related node out) :
    ∃ outs, rewriteEach f nodes = some outs ∧ List.Forall₂ related nodes outs := by
  induction nodes with
  | nil => exact ⟨[], rfl, .nil⟩
  | cons node nodes ih =>
      obtain ⟨out, rewritten, holds⟩ := each node (by simp)
      obtain ⟨outs, rewrittenRest, holdsRest⟩ := ih fun node member => each node (by simp [member])
      exact ⟨out :: outs, by simp [rewriteEach, rewritten, rewrittenRest], .cons holds holdsRest⟩

theorem rewriteChild_related {child : Node} (absent : related .absent .absent)
    (rewrites : ∃ out, rewriteExprTree f child = some out ∧ related child out) :
    ∃ out, orAbsent child (rewriteExprTree f child) = some out ∧ related child out := by
  cases child with
  | absent => exact ⟨.absent, rfl, absent⟩
  | _ => simpa [orAbsent, isAbsent] using rewrites

/-- The walker hands `f` the node with every child replaced by its rewritten form. -/
theorem rewriteExprTree_lifted {node : Node} (absent : related .absent .absent)
    (each : ∀ child ∈ node.children, ∃ out, rewriteExprTree f child = some out ∧
      related child out) :
    ∃ out, Lifted related node out ∧ rewriteExprTree f node = f out := by
  cases node with
  | absent => exact ⟨_, .absent, rfl⟩
  | literal lit => exact ⟨_, .literal lit, rfl⟩
  | column col => exact ⟨_, .column col, rfl⟩
  | comparison op left right =>
      obtain ⟨left', leftOut, leftRelated⟩ :=
        rewriteChild_related absent (each left (by simp [children]))
      obtain ⟨right', rightOut, rightRelated⟩ :=
        rewriteChild_related absent (each right (by simp [children]))
      exact ⟨_, .comparison op leftRelated rightRelated,
        by simp [rewriteExprTree, leftOut, rightOut]⟩
  | predicateAnd expressions =>
      obtain ⟨outs, rewritten, holds⟩ := rewriteEach_related expressions each
      exact ⟨_, .predicateAnd holds, by simp [rewriteExprTree, rewritten]⟩
  | predicateOr expressions =>
      obtain ⟨outs, rewritten, holds⟩ := rewriteEach_related expressions each
      exact ⟨_, .predicateOr holds, by simp [rewriteExprTree, rewritten]⟩
  | predicateNot expression =>
      obtain ⟨out, rewritten, holds⟩ :=
        rewriteChild_related absent (each expression (by simp [children]))
      exact ⟨_, .predicateNot holds, by simp [rewriteExprTree, rewritten]⟩
  | predicateIsNull expression =>
      obtain ⟨out, rewritten, holds⟩ :=
        rewriteChild_related absent (each expression (by simp [children]))
      exact ⟨_, .predicateIsNull holds, by simp [rewriteExprTree, rewritten]⟩
  | predicateIsNotNull expression =>
      obtain ⟨out, rewritten, holds⟩ :=
        rewriteChild_related absent (each expression (by simp [children]))
      exact ⟨_, .predicateIsNotNull holds, by simp [rewriteExprTree, rewritten]⟩
  | predicateInConstlist expression arguments =>
      obtain ⟨out, rewritten, holds⟩ :=
        rewriteChild_related absent (each expression (by simp [children]))
      obtain ⟨outs, rewrittenEach, holdsEach⟩ :=
        rewriteEach_related arguments fun node member => each node (by simp [children, member])
      exact ⟨_, .predicateInConstlist holds holdsEach,
        by simp [rewriteExprTree, rewritten, rewrittenEach]⟩
  | predicateBetween expression left right =>
      obtain ⟨out, rewritten, holds⟩ :=
        rewriteChild_related absent (each expression (by simp [children]))
      obtain ⟨left', leftOut, leftRelated⟩ :=
        rewriteChild_related absent (each left (by simp [children]))
      obtain ⟨right', rightOut, rightRelated⟩ :=
        rewriteChild_related absent (each right (by simp [children]))
      exact ⟨_, .predicateBetween holds leftRelated rightRelated,
        by simp [rewriteExprTree, rewritten, leftOut, rightOut]⟩
  | predicateLike expression pattern escapeChar =>
      obtain ⟨out, rewritten, holds⟩ :=
        rewriteChild_related absent (each expression (by simp [children]))
      obtain ⟨pattern', patternOut, patternRelated⟩ :=
        rewriteChild_related absent (each pattern (by simp [children]))
      exact ⟨_, .predicateLike escapeChar holds patternRelated,
        by simp [rewriteExprTree, rewritten, patternOut]⟩
  | functionScalarExtract toExtract arguments =>
      obtain ⟨outs, rewritten, holds⟩ := rewriteEach_related arguments each
      exact ⟨_, .functionScalarExtract toExtract holds, by simp [rewriteExprTree, rewritten]⟩
  | functionScalarCase basis arguments results =>
      obtain ⟨out, rewritten, holds⟩ :=
        rewriteChild_related absent (each basis (by simp [children]))
      obtain ⟨whens, whensOut, whensRelated⟩ :=
        rewriteEach_related arguments fun node member => each node (by simp [children, member])
      obtain ⟨thens, thensOut, thensRelated⟩ :=
        rewriteEach_related results fun node member => each node (by simp [children, member])
      exact ⟨_, .functionScalarCase holds whensRelated thensRelated,
        by simp [rewriteExprTree, rewritten, whensOut, thensOut]⟩
  | functionScalarCast arguments dataType =>
      obtain ⟨outs, rewritten, holds⟩ := rewriteEach_related arguments each
      exact ⟨_, .functionScalarCast dataType holds, by simp [rewriteExprTree, rewritten]⟩
  | decimalToVarcharExasol arguments =>
      obtain ⟨outs, rewritten, holds⟩ := rewriteEach_related arguments each
      exact ⟨_, .decimalToVarcharExasol holds, by simp [rewriteExprTree, rewritten]⟩
  | functionScalar name arguments dataType =>
      obtain ⟨outs, rewritten, holds⟩ := rewriteEach_related arguments each
      exact ⟨_, .functionScalar name dataType holds, by simp [rewriteExprTree, rewritten]⟩
  | functionAggregate name distinct arguments =>
      obtain ⟨outs, rewritten, holds⟩ := rewriteEach_related arguments each
      exact ⟨_, .functionAggregate name distinct holds, by simp [rewriteExprTree, rewritten]⟩
  | unsupported kind operands =>
      obtain ⟨outs, rewritten, holds⟩ := rewriteEach_related operands each
      exact ⟨_, .unsupported kind holds, by simp [rewriteExprTree, rewritten]⟩

end Walker

variable {types : ColumnTypes} {reading : Reading} {env : Env}

section Assumptions

/-- Every column declared with `digits` fractional digits holds such a timestamp, or
NULL. -/
def Fits [Unicode] (types : ColumnTypes) (env : Env) : Prop :=
  ∀ col digits, (columnExaType (.column col) types).bind ExasolType.fractionalDigits = some digits →
    env.column col = .null ∨
      ∃ seconds, env.column col = .timestamp seconds ∧ Text.HasDigits digits seconds

theorem Node.Readable.of_agree {before after : Node} (readable : Readable reading before)
    (agree : Agree reading env before after) : Readable reading after := by
  rintro lit rfl
  exact readable lit (agree.leaf (.inr rfl)).symm

end Assumptions

section Rewrite

variable [Unicode]

section Floor

/-- What a found floor says about the two operands. -/
theorem timestampLiteralFloor_cases {column literal : Node} {floor : Literal}
    (found : timestampLiteralFloor types column literal = some floor) :
    ∃ col digits value width instant fraction,
      column = .column col ∧
      literal = .literal ⟨.timestamp, .string value, width⟩ ∧
      (columnExaType (.column col) types).bind ExasolType.fractionalDigits = some digits ∧
      Text.splitOnce '.' value.toList = some (instant, fraction) ∧
      digits < (Text.trimEndMatches '0' fraction).length ∧
      floor = ⟨.timestamp, .string (String.ofList
        (if digits = 0 then instant else instant ++ '.' :: fraction.take digits)), none⟩ := by
  unfold timestampLiteralFloor at found
  split at found
  · next col value width =>
      simp only [Option.bind_eq_bind, Option.bind_eq_some_iff] at found
      obtain ⟨exaType, typed, digits, precision, found⟩ := found
      split at found
      · simp at found
      · next finer =>
          simp only [Option.bind_eq_some_iff, Option.some.injEq] at found
          obtain ⟨⟨instant, fraction⟩, split, rfl⟩ := found
          refine ⟨col, digits, value, width, instant, fraction, rfl, rfl, ?_, split, ?_, ?_⟩
          · rw [typed]
            exact precision
          · simpa [timestampLiteralDigits, split] using finer
          · cases digits <;> simp
  · simp at found

/-- The floor of a literal is the representable value just below it. -/
theorem timestampLiteralFloor_value (env : Env) {column literal : Node} {floor : Literal}
    (found : timestampLiteralFloor types column literal = some floor)
    (readable : Readable reading literal) :
    ∃ col digits bound low,
      column = .column col ∧
      (columnExaType (.column col) types).bind ExasolType.fractionalDigits = some digits ∧
      literal.eval reading env = .timestamp bound ∧
      reading.literal floor = .timestamp low ∧
      Text.HasDigits digits low ∧ low < bound ∧ bound < low + 1 / 10 ^ digits := by
  obtain ⟨col, digits, value, width, instant, fraction, rfl, rfl, precision, split, finer, rfl⟩ :=
    timestampLiteralFloor_cases found
  have value_ne := readable _ rfl rfl
  have value_eq : reading.literal ⟨.timestamp, .string value, width⟩ =
      ((reading.timestamp value.toList).map Value.timestamp).getD .null := rfl
  rw [value_eq] at value_ne
  simp only [Reading.timestamp, split] at value_ne
  split at value_ne
  · next valid =>
      cases start : reading.instant instant with
      | none => simp [start] at value_ne
      | some seconds =>
          obtain ⟨cutDigits, above, below⟩ := Text.fractionValue_take valid finer
          have fresh := (Text.splitOnce_spec split).2
          refine ⟨col, digits, seconds + Text.fractionValue fraction,
            seconds + Text.fractionValue (fraction.take digits), rfl, precision, ?_, ?_, ?_, ?_, ?_⟩
          · simp [eval, value_eq, Reading.timestamp, split, valid, start]
          · simp only [Reading.literal, Literal.isNull, JsonScalar.toText, String.toList_ofList]
            by_cases whole : digits = 0
            · simp [whole, Reading.timestamp, Text.splitOnce_eq_none.mpr fresh, start,
                Text.fractionValue, Text.natValue]
            · have cutValid : Text.allDigits (fraction.take digits) = true :=
                List.all_eq_true.mpr fun c member =>
                  List.all_eq_true.mp valid c (List.mem_of_mem_take member)
              simp [whole, Reading.timestamp, Text.splitOnce_of_not_mem _ fresh, cutValid, start]
          · obtain ⟨units, equal⟩ := Text.hasDigits_intCast digits seconds
            obtain ⟨cutUnits, cutEqual⟩ := cutDigits
            exact ⟨units + cutUnits, by rw [add_mul, equal, cutEqual]; push_cast; rfl⟩
          · linarith
          · linarith
  · simp at value_ne

end Floor

section Step

/-- A comparison with the floor decides as one with the literal does, for a NULL column
too. -/
theorem compareWithFloor_eval (op : Comparison) {column literal : Node} {floor : Literal}
    (found : timestampLiteralFloor types column literal = some floor)
    (readable : Readable reading literal) (fits : Fits types env) :
    (compareWithFloor op column floor).eval reading env =
      .ofTruth (reading.comparison op (column.eval reading env) (literal.eval reading env)) := by
  obtain ⟨col, digits, bound, low, rfl, precision, literalValue, floorValue, lowDigits, above,
    below⟩ := timestampLiteralFloor_value env found readable
  rw [literalValue]
  rcases fits col digits precision with null | ⟨seconds, value, secondsDigits⟩
  · cases op <;> simp [compareWithFloor, eval, null, Reading.comparison_null_left]
  · have order := secondsDigits.compare_between lowDigits above below
    rcases le_or_gt seconds low with le | gt
    · have notGreater : compare seconds low ≠ .gt := compare_le_iff_le.mpr le
      rw [if_pos le] at order
      cases op <;>
        simp [compareWithFloor, eval, value, floorValue, Reading.comparison_timestamp, order,
          Comparison.holds, bne_iff_ne.mpr notGreater, notGreater]
    · have greater : compare seconds low = .gt := compare_gt_iff_gt.mpr gt
      rw [if_neg (not_le.mpr gt)] at order
      cases op <;>
        simp [compareWithFloor, eval, value, floorValue, Reading.comparison_timestamp, order,
          Comparison.holds, greater]

theorem rewriteComparison_eval {op : Comparison} {left right out : Node}
    (rewritten : rewriteComparison types op left right = some out)
    (leftReadable : Readable reading left)
    (rightReadable : Readable reading right) (fits : Fits types env) :
    out.eval reading env = (Node.comparison op left right).eval reading env := by
  unfold rewriteComparison at rewritten
  split at rewritten
  · next floor found =>
      cases rewritten
      rw [compareWithFloor_eval op found rightReadable fits, eval]
  · simp only [Option.bind_eq_bind, Option.bind_eq_some_iff, Option.pure_def,
      Option.some.injEq] at rewritten
    obtain ⟨floor, found, rfl⟩ := rewritten
    rw [compareWithFloor_eval _ found leftReadable fits, eval]
    obtain ⟨col, digits, bound, low, rfl, precision, literalValue, -⟩ :=
      timestampLiteralFloor_value env found leftReadable
    rw [literalValue]
    rcases fits col digits precision with null | ⟨seconds, value, -⟩
    · simp only [eval, null, Reading.comparison_null_left]
      rfl
    · rw [eval, value, Reading.comparison_timestamp_swapped]

theorem compareTimestamp_eval (op : Comparison) {column literal : Node}
    (columnReadable : Readable reading column) (literalReadable : Readable reading literal)
    (fits : Fits types env) :
    (compareTimestamp types op column literal).eval reading env =
      (Node.comparison op column literal).eval reading env := by
  unfold compareTimestamp
  cases rewritten : rewriteComparison types op column literal with
  | none => rfl
  | some out => exact rewriteComparison_eval rewritten columnReadable literalReadable fits

theorem rewriteComparison_not_leaf {op : Comparison} {left right out : Node}
    (rewritten : rewriteComparison types op left right = some out) : out.isLeaf = false := by
  unfold rewriteComparison at rewritten
  split at rewritten
  · cases rewritten
    cases op <;> rfl
  · simp only [Option.bind_eq_bind, Option.bind_eq_some_iff, Option.pure_def,
      Option.some.injEq] at rewritten
    obtain ⟨floor, -, rfl⟩ := rewritten
    cases op <;> rfl

/-- An `IN` list over `column` that the rewrite turns into a disjunction. -/
def expands (types : ColumnTypes) (column : Node) (values : List Node) : Bool :=
  (values.findSome? (timestampLiteralFloor types column)).isSome

/-- One rewritten node has the value of the original, and neither is a leaf. -/
theorem rewriteTimestampComparison_eval {node out : Node}
    (rewritten : rewriteTimestampComparison types node = some out)
    (readable : ∀ child ∈ node.children, Readable reading child) (fits : Fits types env)
    (nullFree : ∀ column values, node = .predicateInConstlist column values →
      ∀ value ∈ values, value.isNullLiteral = false) :
    out.eval reading env = node.eval reading env ∧ node.isLeaf = false ∧ out.isLeaf = false := by
  cases node with
  | predicateBetween column low high =>
      simp only [rewriteTimestampComparison, Option.bind_eq_bind, Option.bind_eq_some_iff,
        Option.pure_def, Option.some.injEq] at rewritten
      obtain ⟨-, -, rfl⟩ := rewritten
      have columnReadable := readable column (by simp [children])
      have lowReadable := readable low (by simp [children])
      have highReadable := readable high (by simp [children])
      refine ⟨?_, rfl, rfl⟩
      simp [eval, compareTimestamp_eval _ columnReadable lowReadable fits,
        compareTimestamp_eval _ columnReadable highReadable fits]
  | predicateInConstlist column values =>
      simp only [rewriteTimestampComparison, Option.bind_eq_bind, Option.bind_eq_some_iff,
        Option.pure_def, Option.some.injEq] at rewritten
      obtain ⟨-, -, rfl⟩ := rewritten
      have columnReadable := readable column (by simp [children])
      have present := nullFree column values rfl
      have kept : (values.filter fun value => !value.isNullLiteral) = values :=
        List.filter_eq_self.mpr fun value member => by simp [present value member]
      refine ⟨?_, rfl, rfl⟩
      simp only [eval, evalEach_eq_map, listedValues_map, kept, List.map_map]
      congr 2
      apply List.map_congr_left
      intro value member
      have valueReadable := readable value (by simp [children, member])
      simp [compareTimestamp_eval _ columnReadable valueReadable fits, eval]
  | comparison op left right =>
      have leftReadable := readable left (by simp [children])
      have rightReadable := readable right (by simp [children])
      exact ⟨rewriteComparison_eval rewritten leftReadable rightReadable fits, rfl,
        rewriteComparison_not_leaf rewritten⟩
  | _ => simp [rewriteTimestampComparison] at rewritten

end Step

section Run

/-- No `IN` list that the rewrite turns into a disjunction holds a NULL entry. -/
def NullFreeExpansions (types : ColumnTypes) (node : Node) : Prop :=
  ∀ column values, Within (.predicateInConstlist column values) node →
    expands types column values = true → ∀ value ∈ values, value.isNullLiteral = false

/-- The operands of an expanded `IN` list are the original ones: a rewritten child is
never a column or a literal. -/
theorem expands_of_agree {column column' : Node} {values values' : List Node}
    (columnAgree : Agree reading env column column')
    (valuesAgree : List.Forall₂ (Agree reading env) values values')
    (expanded : expands types column' values' = true) : expands types column values = true := by
  simp only [expands, List.findSome?_isSome_iff] at expanded ⊢
  obtain ⟨value', member', found'⟩ := expanded
  obtain ⟨floor, found⟩ := Option.isSome_iff_exists.mp found'
  obtain ⟨col, -, text, width, -, -, rfl, rfl, -⟩ := timestampLiteralFloor_cases found
  obtain ⟨value, member, agree⟩ := exists_related_of_mem valuesAgree member'
  refine ⟨value, member, ?_⟩
  rw [← agree.leaf (.inr rfl), ← columnAgree.leaf (.inr rfl)]
  exact found'

/-- The rewrite never declines, and where its expanded lists are free of NULL entries
the rewritten tree has the value of the original. -/
theorem rewriteOverpreciseTimestampComparisons_agree (fits : Fits types env) (node : Node) :
    node.containsAggregate = false → Reads reading node → NullFreeExpansions types node →
    ∃ out, rewriteOverpreciseTimestampComparisons types node = some out ∧
      Agree reading env node out := by
  induction node using Node.inductOnChildren with
  | step node ih =>
      intro row reads nullFree
      obtain ⟨mid, lifted, handed⟩ := rewriteExprTree_lifted (Agree.refl .absent)
        fun child member => ih child member (containsAggregate_child row member)
          (reads.child member) fun column values within =>
            nullFree column values (.child member within)
      refine ⟨_, handed, ?_⟩
      have midEval := eval_lifted lifted row
      cases rewritten : rewriteTimestampComparison types mid with
      | none =>
          rw [Option.getD_none]
          refine ⟨midEval, fun leaf => ?_⟩
          cases lifted <;> first | rfl | simp [isLeaf] at leaf
      | some out =>
          rw [Option.getD_some]
          have readable : ∀ child ∈ mid.children, Readable reading child := by
            intro child member
            obtain ⟨origin, found, agree⟩ := exists_related_of_mem lifted.children member
            exact (reads origin (.of_mem found)).of_agree agree
          have midNullFree : ∀ column values, mid = .predicateInConstlist column values →
              ∀ value ∈ values, value.isNullLiteral = false := by
            rintro column' values' rfl value' member'
            have expanded : expands types column' values' = true := by
              simp only [rewriteTimestampComparison, Option.bind_eq_bind] at rewritten
              cases found : values'.findSome? (timestampLiteralFloor types column') with
              | none => simp [found] at rewritten
              | some floor => simp [expands, found]
            cases lifted with
            | predicateInConstlist columnAgree valuesAgree =>
                obtain ⟨value, member, agree⟩ := exists_related_of_mem valuesAgree member'
                rw [agree.isNullLiteral]
                exact nullFree _ _ (.refl _) (expands_of_agree columnAgree valuesAgree expanded)
                  value member
          obtain ⟨outEval, midLeaf, outLeaf⟩ :=
            rewriteTimestampComparison_eval rewritten readable fits midNullFree
          refine ⟨outEval.trans midEval, fun leaf => ?_⟩
          rw [← lifted.isLeaf, midLeaf, outLeaf] at leaf
          simp at leaf

end Run

section NullEntry

/-- A constant list holds literals only. -/
def ConstLists (node : Node) : Prop :=
  ∀ column values, Within (.predicateInConstlist column values) node →
    ∀ value ∈ values, ∃ lit, value = .literal lit

/-- A row whose columns all hold one instant. -/
def constantRow (seconds : ℤ) : Env where
  column _ := .timestamp seconds
  aggregate _ _ _ := .null

theorem constantRow_fits (types : ColumnTypes) (seconds : ℤ) :
    Fits types (constantRow seconds) :=
  fun _ digits _ => .inr ⟨seconds, rfl, Text.hasDigits_intCast digits seconds⟩

omit [Unicode] in
theorem exists_later_instant (values : List Node) (value : Node → Value) :
    ∃ later : ℤ, ∀ node ∈ values, ∀ seconds, value node = .timestamp seconds → seconds < later := by
  induction values with
  | nil => exact ⟨0, by simp⟩
  | cons head rest ih =>
      obtain ⟨later, after⟩ := ih
      obtain ⟨latest, afterHead⟩ :
          ∃ latest : ℤ, ∀ seconds, value head = .timestamp seconds → seconds < latest := by
        cases value head with
        | timestamp seconds =>
            exact ⟨⌊seconds⌋ + 1, fun _ equal => by
              cases equal
              exact_mod_cast Int.lt_floor_add_one seconds⟩
        | _ => exact ⟨0, by simp⟩
      refine ⟨max later latest, fun node member seconds equal => ?_⟩
      rw [Int.cast_max, lt_max_iff]
      rcases List.mem_cons.mp member with rfl | member
      · exact .inr (afterHead seconds equal)
      · exact .inl (after node member seconds equal)

omit [Unicode] in
/-- An instant equals no entry of another kind, nor an earlier one. -/
theorem comparison_equal_later {later : ℤ} {value : Value}
    (ordered : ∀ left right, reading.mixed left right = some .lt) (present : value ≠ .null)
    (after : ∀ seconds, value = .timestamp seconds → seconds < later) :
    reading.comparison .equal (.timestamp later) value = some false := by
  cases value with
  | null => exact absurd rfl present
  | timestamp seconds =>
      rw [Reading.comparison_timestamp, compare_gt_iff_gt.mpr (after seconds rfl)]
      rfl
  | _ =>
      simp only [Reading.comparison, Reading.compare, Value.compareWith, ordered]
      rfl

theorem timestampLiteralFloor_null {column : Node} {lit : Literal} (null : lit.isNull = true) :
    timestampLiteralFloor types column (.literal lit) = none := by
  cases found : timestampLiteralFloor types column (.literal lit) with
  | none => rfl
  | some floor =>
      obtain ⟨_, _, _, _, _, _, -, equal, -⟩ := timestampLiteralFloor_cases found
      cases equal
      simp [Literal.isNull] at null

theorem rewriteEach_literals {values : List Node}
    (literals : ∀ value ∈ values, ∃ lit, value = .literal lit) :
    rewriteEach (fun out => some ((rewriteTimestampComparison types out).getD out)) values =
      some values := by
  induction values with
  | nil => rfl
  | cons value values ih =>
      obtain ⟨lit, rfl⟩ := literals value (by simp)
      rw [rewriteEach, ih fun value member => literals value (by simp [member])]
      rfl

/-- An expanded constant list becomes the disjunction of its equalities. -/
theorem rewrite_expanded {column : Node} {values : List Node}
    (literals : ∀ value ∈ values, ∃ lit, value = .literal lit)
    (expanded : expands types column values = true) :
    rewriteOverpreciseTimestampComparisons types (.predicateInConstlist column values) =
      some (.predicateOr (values.map (compareTimestamp types .equal column))) := by
  obtain ⟨floor, found⟩ := Option.isSome_iff_exists.mp expanded
  obtain ⟨_, -, foundAt⟩ := List.exists_of_findSome?_eq_some found
  obtain ⟨col, _, _, _, _, _, rfl, -⟩ := timestampLiteralFloor_cases foundAt
  have disjunction : rewriteTimestampComparison types (.predicateInConstlist (.column col) values) =
      some (.predicateOr (values.map (compareTimestamp types .equal (.column col)))) := by
    simp [rewriteTimestampComparison, found]
  rw [rewriteOverpreciseTimestampComparisons, rewriteExprTree, rewriteEach_literals literals]
  change some ((rewriteTimestampComparison types
    (.predicateInConstlist (.column col) values)).getD _) = _
  rw [disjunction, Option.getD_some]

/-- An expanded list with a NULL entry: a later instant than every entry is not in the
list, but the disjunction holds `column = NULL`. -/
theorem expanded_null_differs {column : Node} {values : List Node}
    (literals : ∀ value ∈ values, ∃ lit, value = .literal lit)
    (reads : ∀ value ∈ values, Readable reading value)
    (ordered : ∀ left right, reading.mixed left right = some .lt)
    (expanded : expands types column values = true)
    (null : ∃ value ∈ values, value.isNullLiteral = true) :
    ∃ env out, Fits types env ∧
      rewriteOverpreciseTimestampComparisons types (.predicateInConstlist column values) =
        some out ∧
      out.truth reading env ≠ (Node.predicateInConstlist column values).truth reading env := by
  obtain ⟨later, after⟩ := exists_later_instant values
    (Node.eval reading (constantRow 0))
  obtain ⟨floor, found⟩ := Option.isSome_iff_exists.mp expanded
  obtain ⟨_, -, foundAt⟩ := List.exists_of_findSome?_eq_some found
  obtain ⟨col, _, _, _, _, _, rfl, -⟩ := timestampLiteralFloor_cases foundAt
  refine ⟨constantRow later, _, constantRow_fits types later,
    rewrite_expanded literals expanded, ?_⟩
  have original : (Node.predicateInConstlist (.column col) values).truth reading
      (constantRow later) = some false := by
    rw [truth_predicateInConstlist, Truth.any_eq_false]
    intro equality member
    obtain ⟨value, kept, rfl⟩ := List.mem_map.mp member
    obtain ⟨listed, notNull⟩ := List.mem_filter.mp kept
    obtain ⟨lit, rfl⟩ := literals value listed
    exact comparison_equal_later ordered
      (reads _ listed lit rfl (by simpa [isNullLiteral] using notNull)) (after _ listed)
  have rewritten : none ∈ (values.map (compareTimestamp types .equal (.column col))).map
      (truth reading (constantRow later)) := by
    obtain ⟨value, listed, isNull⟩ := null
    obtain ⟨lit, rfl⟩ := literals value listed
    refine List.mem_map.mpr ⟨_, List.mem_map.mpr ⟨_, listed, rfl⟩, ?_⟩
    have unchanged : rewriteComparison types .equal (.column col) (.literal lit) = none := by
      rw [rewriteComparison, timestampLiteralFloor_null isNull]
      rfl
    rw [compareTimestamp, unchanged, Option.getD_none, truth_comparison]
    rw [show (Node.literal lit).eval reading (constantRow later) = .null from
      reading.literal_of_isNull isNull, Reading.comparison_null_right]
  rw [original, truth_predicateOr]
  intro decided
  cases Truth.any_eq_false.mp decided none rewritten

/-- The rewrite keeps the truth value of every condition of a tree, on every row, exactly
when no expanded `IN` list holds a NULL entry. -/
theorem overprecise_rewrite_keeps_truth_iff (types : ColumnTypes) (node : Node)
    (row : node.containsAggregate = false) (constants : ConstLists node)
    (readable : ∃ reading, Reads reading node) :
    (∀ reading env, Reads reading node → Fits types env → ∀ inner, Within inner node →
      ∃ out, rewriteOverpreciseTimestampComparisons types inner = some out ∧
        out.truth reading env = inner.truth reading env) ↔
      NullFreeExpansions types node := by
  constructor
  · intro keeps column values within expanded value member
    by_contra null
    obtain ⟨reading, reads⟩ := readable
    -- Values of different kinds are never equal under this ordering.
    let apart : Reading := { reading with mixed := fun _ _ => some .lt }
    have readsApart : Reads apart node := reads
    obtain ⟨env, out, fits, rewritten, differs⟩ :=
      expanded_null_differs (constants column values within)
        (fun value member => readsApart value
          (.trans (.of_mem (by simp [children, member])) within))
        (fun _ _ => rfl) expanded ⟨value, member, by simpa using null⟩
    obtain ⟨out', rewritten', equal⟩ := keeps apart env readsApart fits _ within
    rw [rewritten] at rewritten'
    cases rewritten'
    exact differs equal
  · intro nullFree reading env reads fits inner within
    obtain ⟨out, rewritten, agree⟩ := rewriteOverpreciseTimestampComparisons_agree fits inner
      (containsAggregate_within row within)
      (fun deeper below => reads deeper (below.trans within))
      (fun column values below => nullFree column values (below.trans within))
    exact ⟨out, rewritten, by rw [Node.truth, agree.eval, Node.truth]⟩

end NullEntry

end Rewrite

section Instances

local instance timestampUnicode : Unicode := Unicode.ascii

/-- One column `TS` declared `TIMESTAMP(3)`. -/
def millisecondColumn : ColumnTypes := [(⟨none, "TS"⟩, ⟨.timestamp 3, none⟩)]

/-- `TS IN (TIMESTAMP '2024-01-01 00:00:00.1234', …)`. -/
def overpreciseList (rest : List Node) : Node :=
  .predicateInConstlist (.column ⟨"ts", none, none⟩)
    (.literal ⟨.timestamp, .string "2024-01-01 00:00:00.1234", none⟩ :: rest)

/-- The calendar of the one day the instances name. -/
def newYear : Reading where
  date _ := none
  instant text := if text = "2024-01-01 00:00:00".toList then some 1704067200 else none
  apply _ _ := .null
  mixed _ _ := none

theorem within_overpreciseList {inner : Node} (within : Within inner (overpreciseList [])) :
    inner = overpreciseList [] ∨ inner = .column ⟨"ts", none, none⟩ ∨
      inner = .literal ⟨.timestamp, .string "2024-01-01 00:00:00.1234", none⟩ := by
  cases within with
  | refl => exact .inl rfl
  | child member below =>
      simp only [overpreciseList, children, List.mem_cons, List.not_mem_nil, or_false] at member
      rcases member with rfl | rfl <;> cases below with
      | refl => simp
      | child deeper => simp [children] at deeper

theorem newYear_reads : Reads newYear (overpreciseList []) := by
  rintro inner within lit rfl -
  rcases within_overpreciseList within with equal | equal | equal
  · simp [overpreciseList] at equal
  · simp at equal
  · cases equal
    decide +kernel

theorem overprecise_rewrite_keeps_truth_newYear :
    ∃ out, rewriteOverpreciseTimestampComparisons millisecondColumn (overpreciseList []) =
        some out ∧
      out.truth newYear (constantRow 0) = (overpreciseList []).truth newYear (constantRow 0) := by
  have literals : ConstLists (overpreciseList []) := by
    intro column values within value member
    rcases within_overpreciseList within with equal | equal | equal
    · cases equal
      exact ⟨_, List.mem_singleton.mp member⟩
    · simp at equal
    · simp at equal
  have nullFree : NullFreeExpansions millisecondColumn (overpreciseList []) := by
    intro column values within _ value member
    rcases within_overpreciseList within with equal | equal | equal
    · cases equal
      rw [List.mem_singleton.mp member]
      rfl
    · simp at equal
    · simp at equal
  exact (overprecise_rewrite_keeps_truth_iff millisecondColumn (overpreciseList []) rfl literals
    ⟨newYear, newYear_reads⟩).mpr nullFree newYear (constantRow 0) newYear_reads
    (constantRow_fits _ 0) _ (.refl _)

/-- `TS NOT IN (TIMESTAMP '2024-01-01 00:00:00.1234', NULL)` is TRUE on another instant,
and NULL once rewritten. -/
theorem overprecise_rewrite_null_entry :
    Fits millisecondColumn (constantRow 0) ∧
      (Node.predicateNot (overpreciseList [.literal ⟨.null, .null, none⟩])).truth newYear
        (constantRow 0) = some true ∧
      (rewriteOverpreciseTimestampComparisons millisecondColumn
        (.predicateNot (overpreciseList [.literal ⟨.null, .null, none⟩]))).map
          (Node.truth newYear (constantRow 0)) = some none :=
  ⟨constantRow_fits _ 0, by decide +kernel, by decide +kernel⟩

end Instances

end LakehouseEngine
