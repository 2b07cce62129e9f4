import LakehouseEngine.Pushdown.Format.IcebergPredicate

/-!
# Iceberg file pruning

The translated predicate is implied by the user's filter, and exact under a negation, as
long as every literal that is rounded to a float falls on the harmless side of its bound.
A row that equals such a bound refutes any other placement.
-/

namespace LakehouseEngine

namespace Iceberg

open Node

section Soundness

variable [Unicode]

/-- A row of the table as the filter sees it: each column holds the scanned field's value,
NULL or one of the field's type. -/
def Agrees (columns : FilterColumns) (row : String → Value) (env : Env) : Prop :=
  ∀ col name prim, columns.resolve (.column col) = some (name, prim) →
    env.column col = row name ∧ (row name = .null ∨ prim.Holds (row name))

section Leaves

variable {parser : DatumParser} {reading : Reading} {columns : FilterColumns}

omit [Unicode] in
/-- A converted literal node is not NULL, and its bound stands for it. -/
theorem literalToDatum_standsFor (exact : parser.Exact reading) {node : Node}
    {prim : PrimitiveType} {datum : Datum}
    (found : literalToDatum parser node prim = some datum)
    (readable : Node.Readable reading node) :
    node.isNullLiteral = false ∧ (∀ env, node.eval reading env = literalValue reading node) ∧
      ∃ shift, StandsFor prim.Holds (literalValue reading node) datum.value shift := by
  cases node with
  | literal lit =>
      obtain ⟨present, stands⟩ := datumOf_standsFor exact found (readable lit rfl)
      exact ⟨present, fun env => rfl, stands⟩
  | _ => simp [literalToDatum] at found

theorem resolve_eq_some {node : Node} {column : String × PrimitiveType}
    (found : columns.resolve node = some column) : ∃ col, node = .column col := by
  cases node with
  | column col => exact ⟨col, rfl⟩
  | _ => simp [FilterColumns.resolve] at found

variable {name : String}

theorem resolve_field {node : Node} {prim : PrimitiveType}
    (found : columns.resolve node = some (name, prim)) :
    ∃ field ∈ columns.scanned.fields, field.name = name ∧ field.primitive = some prim := by
  obtain ⟨col, rfl⟩ := resolve_eq_some found
  simp only [FilterColumns.resolve, FilterColumns.field, Option.bind_eq_bind,
    Option.bind_eq_some_iff, Option.pure_def, Option.some.injEq, Prod.mk.injEq] at found
  obtain ⟨field, ⟨declared, -, fieldId, -, scanned⟩, prim, primitive, rfl, rfl⟩ := found
  exact ⟨field, List.mem_of_find?_eq_some scanned, rfl, primitive⟩

/-- The scanned fields' names tell their types. -/
theorem resolve_type_unique {left right : Node} {leftPrim rightPrim : PrimitiveType}
    (leftFound : columns.resolve left = some (name, leftPrim))
    (rightFound : columns.resolve right = some (name, rightPrim)) : leftPrim = rightPrim := by
  obtain ⟨leftField, leftMember, leftName, leftPrimitive⟩ := resolve_field leftFound
  obtain ⟨rightField, rightMember, rightName, rightPrimitive⟩ := resolve_field rightFound
  have same := List.inj_on_of_nodup_map columns.scanned.distinct leftMember rightMember
    (leftName.trans rightName.symm)
  rw [same, rightPrimitive] at leftPrimitive
  exact (Option.some.inj leftPrimitive).symm

/-- Any value of a scanned field's type is that of some row. -/
theorem exists_row {node : Node} {prim : PrimitiveType} {value : Value}
    (found : columns.resolve node = some (name, prim)) (holds : prim.Holds value) :
    ∃ row env, Agrees columns row env ∧ row name = value := by
  let row : String → Value := fun field => if field = name then value else .null
  refine ⟨row,
    ⟨fun col => ((columns.resolve (.column col)).map fun found => row found.1).getD .null,
    fun _ _ _ => .null⟩, ?_, if_pos rfl⟩
  intro col field fieldPrim fieldFound
  refine ⟨by simp [fieldFound], ?_⟩
  by_cases same : field = name
  · subst same
    obtain rfl := resolve_type_unique found fieldFound
    exact .inr (by simpa [row] using holds)
  · exact .inl (if_neg same)

/-- The condition under which a leaf's predicate may be placed.  A literal and the bound it
is rounded to must lie so that `<` and `>` stay implied, and under a negation so that no
row tells them apart. -/
def Faithful (parser : DatumParser) (columns : FilterColumns) (reading : Reading)
    (strict : Bool) : Node → Prop
  | .comparison op left right => ∀ name prim literal op' datum shift,
      binaryOperands columns op left right = some ((name, prim), literal, op') →
      literalToDatum parser literal prim = some datum →
      (literalValue reading literal).order datum.value = some shift →
      op'.soundUnder shift = true ∧ (strict = true → op'.exactUnder shift = true)
  | .predicateInConstlist expression arguments => strict = true → ∀ name prim,
      columns.resolve expression = some (name, prim) →
      ∀ argument ∈ arguments, ∀ datum, literalToDatum parser argument prim = some datum →
        ∃ other ∈ arguments, literalValue reading other = datum.value
  | .predicateBetween expression left right => strict = true → ∀ name prim low high,
      columns.resolve expression = some (name, prim) →
      literalToDatum parser left prim = some low → literalToDatum parser right prim = some high →
      low.value.order high.value ≠ some .gt →
        (literalValue reading left).order low.value ≠ some .gt ∧
          (literalValue reading right).order high.value ≠ some .lt
  | _ => True

/-- A column's values against a literal are seen through the literal's bound. -/
theorem column_view {row : String → Value} {env : Env} (agrees : Agrees columns row env)
    {col : ColumnNode} {prim : PrimitiveType}
    (found : columns.resolve (.column col) = some (name, prim)) {literal bound : Value}
    {shift : Ordering} (stands : StandsFor prim.Holds literal bound shift) :
    env.column col = row name ∧ BoundView reading (row name) literal bound shift :=
  ⟨(agrees col name prim found).1, stands.boundView (agrees col name prim found).2⟩

omit [Unicode] in
theorem flipOperator_eq_some {op flipped : Comparison} (found : flipOperator op = some flipped) :
    flipped = op.withOperandsSwapped := by
  cases op with
  | notEqual => simp [flipOperator] at found
  | _ => exact (Option.some.inj found).symm

theorem binaryOperands_cases {op op' : Comparison} {left right literal : Node}
    {prim : PrimitiveType}
    (operands : binaryOperands columns op left right = some ((name, prim), literal, op')) :
    (columns.resolve left = some (name, prim) ∧ literal = right ∧ op' = op) ∨
      (columns.resolve right = some (name, prim) ∧ literal = left ∧
        op' = op.withOperandsSwapped) := by
  unfold binaryOperands at operands
  split at operands
  · next column onLeft =>
      cases operands
      exact .inl ⟨onLeft, rfl, rfl⟩
  · simp only [Option.bind_eq_bind, Option.bind_eq_some_iff, Option.pure_def, Option.some.injEq,
      Prod.mk.injEq] at operands
    obtain ⟨column, onRight, flipped, swapped, rfl, rfl, rfl⟩ := operands
    exact .inr ⟨onRight, rfl, flipOperator_eq_some swapped⟩

theorem comparison_truth {op op' : Comparison} {left right literal : Node}
    {prim : PrimitiveType} {bound : Value} {shift : Ordering}
    (operands : binaryOperands columns op left right = some ((name, prim), literal, op'))
    (evals : ∀ env, literal.eval reading env = literalValue reading literal)
    (stands : StandsFor prim.Holds (literalValue reading literal) bound shift)
    {row : String → Value} {env : Env} (agrees : Agrees columns row env) :
    BoundView reading (row name) (literalValue reading literal) bound shift ∧
      (Node.comparison op left right).truth reading env =
        reading.comparison op' (row name) (literalValue reading literal) := by
  rw [truth_comparison]
  rcases binaryOperands_cases operands with ⟨onLeft, rfl, rfl⟩ | ⟨onRight, rfl, rfl⟩
  · obtain ⟨col, rfl⟩ := resolve_eq_some onLeft
    obtain ⟨same, view⟩ := column_view agrees onLeft stands
    refine ⟨view, ?_⟩
    rw [evals, ← same]
    rfl
  · obtain ⟨col, rfl⟩ := resolve_eq_some onRight
    obtain ⟨same, view⟩ := column_view agrees onRight stands
    refine ⟨view, ?_⟩
    rw [evals, ← view.comparison_swapped, ← same]
    rfl

/-- A leaf comparison may stand for its condition exactly when it is faithful. -/
theorem comparison_covers_iff (exact : parser.Exact reading) {op : Comparison} {left right : Node}
    (readable : Readable reading left ∧ Readable reading right) {strict : Bool}
    {translated : Translated Predicate}
    (found : translateBinary parser columns op left right = some translated) :
    (∀ row env, Agrees columns row env →
      translated.Covers (Predicate.holds row) strict
        ((Node.comparison op left right).truth reading env)) ↔
      Faithful parser columns reading strict (.comparison op left right) := by
  simp only [translateBinary, Option.bind_eq_bind, Option.bind_eq_some_iff, Option.pure_def,
    Option.some.injEq] at found
  obtain ⟨⟨⟨name, prim⟩, literal, op'⟩, operands, datum, converted, rfl⟩ := found
  have literalReadable : Readable reading literal := by
    rcases binaryOperands_cases operands with ⟨-, rfl, -⟩ | ⟨-, rfl, -⟩
    · exact readable.2
    · exact readable.1
  obtain ⟨-, evals, shift, stands⟩ := literalToDatum_standsFor exact converted literalReadable
  constructor
  · intro covers name' prim' literal' op'' datum' shift' operands' converted' shifted
    cases operands.symm.trans operands'
    cases converted.symm.trans converted'
    cases stands.shifted.symm.trans shifted
    obtain ⟨node, resolved⟩ : ∃ node, columns.resolve node = some (name, prim) := by
      rcases binaryOperands_cases operands with ⟨onLeft, -⟩ | ⟨onRight, -⟩
      · exact ⟨left, onLeft⟩
      · exact ⟨right, onRight⟩
    obtain ⟨row, env, agrees, value⟩ := exists_row resolved stands.isTyped
    have cover := covers row env agrees
    obtain ⟨atLiteral, atBound⟩ := stands.at_bound reading op'
    have conditionTruth := (comparison_truth operands evals stands agrees).2
    rw [value, atLiteral] at conditionTruth
    have predicateTruth : (Predicate.binary op' name datum).holds row = some (op'.holds .eq) := by
      rw [Predicate.holds, value, atBound]
    rw [conditionTruth] at cover
    refine ⟨Comparison.soundUnder_of_bound fun holds => ?_, fun isStrict =>
      Comparison.exactUnder_of_bound ?_⟩
    · have kept := predicateTruth.symm.trans (cover.ofTrue (congrArg some holds))
      exact Option.some.inj kept
    · have same := predicateTruth.symm.trans (cover.ofStrict isStrict rfl)
      exact (Option.some.inj same).symm
  · intro faithful row env agrees
    obtain ⟨sound, whenStrict⟩ :=
      faithful name prim literal op' datum shift operands converted stands.shifted
    obtain ⟨view, conditionTruth⟩ := comparison_truth operands evals stands agrees
    rw [conditionTruth]
    exact ⟨view.implied sound, fun isStrict _ => view.equal (whenStrict isStrict)⟩

section InList

variable {col : ColumnNode} {name : String} {prim : PrimitiveType} {arguments : List Node}
  {datums : List Datum}

/-- The entries of a converted `IN` list, none of which is NULL, each with its bound. -/
structure Entries (parser : DatumParser) (reading : Reading) (prim : PrimitiveType)
    (arguments : List Node) (datums : List Datum) : Prop where
  exact : parser.Exact reading
  readable : ∀ argument ∈ arguments, Readable reading argument
  converted : List.Forall₂ (fun argument datum => literalToDatum parser argument prim = some datum)
    arguments datums

namespace Entries

omit [Unicode]

variable (entries : Entries parser reading prim arguments datums)

include entries

theorem standsFor {argument : Node} (member : argument ∈ arguments) :
    argument.isNullLiteral = false ∧
      (∀ env, argument.eval reading env = literalValue reading argument) ∧
      ∃ datum ∈ datums, literalToDatum parser argument prim = some datum ∧
        ∃ shift, StandsFor prim.Holds (literalValue reading argument) datum.value shift := by
  obtain ⟨datum, listed, converted⟩ := exists_related_of_mem entries.converted.flip member
  obtain ⟨present, evals, stands⟩ :=
    literalToDatum_standsFor entries.exact converted (entries.readable argument member)
  exact ⟨present, evals, datum, listed, converted, stands⟩

theorem of_datum {datum : Datum} (listed : datum ∈ datums) :
    ∃ argument ∈ arguments, literalToDatum parser argument prim = some datum :=
  exists_related_of_mem entries.converted listed

end Entries

omit [Unicode] in
theorem in_truth (entries : Entries parser reading prim arguments datums) {value : Value}
    {env : Env} (column : env.column col = value) :
    (Node.predicateInConstlist (.column col) arguments).truth reading env =
      .any (arguments.map fun argument =>
        reading.comparison .equal value (literalValue reading argument)) := by
  rw [truth_predicateInConstlist]
  have all : (arguments.filter fun node => !node.isNullLiteral) = arguments :=
    List.filter_eq_self.mpr fun argument member => by simp [(entries.standsFor member).1]
  rw [all]
  congr 1
  refine List.map_congr_left fun argument member => ?_
  rw [(entries.standsFor member).2.1, ← column]
  rfl

omit [Unicode] in
/-- A row that matches a literal matches its bound. -/
theorem in_implied (entries : Entries parser reading prim arguments datums) {value : Value}
    (typed : value = .null ∨ prim.Holds value)
    (isTrue : Truth.any (arguments.map fun argument =>
      reading.comparison .equal value (literalValue reading argument)) = some true) :
    Truth.any (datums.map fun datum => (value.order datum.value).map Comparison.equal.holds) =
      some true := by
  rw [Truth.any_eq_true] at isTrue ⊢
  obtain ⟨argument, member, holds⟩ := List.mem_map.mp isTrue
  obtain ⟨-, -, datum, listed, -, shift, stands⟩ := entries.standsFor member
  exact List.mem_map.mpr ⟨datum, listed, (stands.boundView typed).implied rfl holds⟩

omit [Unicode] in
/-- When every bound is itself a listed value, the two lists match the same rows. -/
theorem in_equal (entries : Entries parser reading prim arguments datums) {value : Value}
    (typed : value = .null ∨ prim.Holds value)
    (listedValue : ∀ datum ∈ datums, ∃ other ∈ arguments,
      literalValue reading other = datum.value) :
    Truth.any (datums.map fun datum => (value.order datum.value).map Comparison.equal.holds) =
      Truth.any (arguments.map fun argument =>
        reading.comparison .equal value (literalValue reading argument)) := by
  rcases typed with rfl | holds
  · have length := entries.converted.length_eq
    have unseen (datum : Datum) :
        (Value.null.order datum.value).map Comparison.equal.holds = none := rfl
    simp only [unseen, Reading.comparison_null_left, List.map_const', length]
  · refine Truth.eq_of_true_iff (Truth.any_ne_none ?_) (Truth.any_ne_none ?_) ⟨fun isTrue => ?_,
      in_implied entries (.inr holds)⟩
    · intro truth member
      obtain ⟨datum, listed, rfl⟩ := List.mem_map.mp member
      obtain ⟨argument, argumentMember, converted⟩ := entries.of_datum listed
      obtain ⟨-, -, shift, stands⟩ := literalToDatum_standsFor entries.exact converted
        (entries.readable argument argumentMember)
      obtain ⟨seen, ordered, -⟩ := stands.view value holds
      simp [ordered]
    · intro truth member
      obtain ⟨argument, argumentMember, rfl⟩ := List.mem_map.mp member
      obtain ⟨-, -, datum, -, -, shift, stands⟩ := entries.standsFor argumentMember
      obtain ⟨seen, -, ordered⟩ := stands.view value holds
      simp [Reading.comparison, Reading.compare,
        (Value.compareWith_same_kind ordered reading.mixed).1]
    · rw [Truth.any_eq_true] at isTrue ⊢
      obtain ⟨datum, listed, seen⟩ := List.mem_map.mp isTrue
      obtain ⟨ordering, ordered, equal⟩ := Option.map_eq_some_iff.mp seen
      have isEq : ordering = .eq := by cases ordering <;> first | rfl | cases equal
      rw [isEq] at ordered
      obtain ⟨other, member, sameValue⟩ := listedValue datum listed
      refine List.mem_map.mpr ⟨other, member, ?_⟩
      rw [sameValue]
      simp [Reading.comparison, Reading.compare,
        (Value.compareWith_same_kind ordered reading.mixed).1, Comparison.holds]

omit [Unicode] in
/-- A bound that the original list matches is one of its values. -/
theorem in_listed (entries : Entries parser reading prim arguments datums) {bound : Value}
    (holds : prim.Holds bound)
    (isTrue : Truth.any (arguments.map fun argument =>
      reading.comparison .equal bound (literalValue reading argument)) = some true) :
    ∃ other ∈ arguments, literalValue reading other = bound := by
  rw [Truth.any_eq_true] at isTrue
  obtain ⟨other, member, matched⟩ := List.mem_map.mp isTrue
  obtain ⟨-, -, datum, -, -, shift, stands⟩ := entries.standsFor member
  obtain ⟨seen, -, ordered⟩ := stands.view bound holds
  refine ⟨other, member, (Value.eq_of_order_eq (ordered.trans (congrArg some ?_))).symm⟩
  rw [Reading.comparison, Reading.compare, (Value.compareWith_same_kind ordered reading.mixed).1]
    at matched
  cases order : viewed shift seen <;> rw [order] at matched <;> first | rfl | cases matched

theorem in_covers_iff (exact : parser.Exact reading) {expression : Node}
    (readable : ∀ argument ∈ arguments, Readable reading argument) {strict : Bool}
    {translated : Translated Predicate}
    (found : translateIn parser columns expression arguments = some translated) :
    (∀ row env, Agrees columns row env →
      translated.Covers (Predicate.holds row) strict
        ((Node.predicateInConstlist expression arguments).truth reading env)) ↔
      Faithful parser columns reading strict (.predicateInConstlist expression arguments) := by
  simp only [translateIn, Option.bind_eq_bind, Option.bind_eq_some_iff, Option.pure_def,
    Option.some.injEq] at found
  obtain ⟨⟨name, prim⟩, resolved, listed, present, datums, all, rfl⟩ := found
  obtain rfl := nonEmpty_eq_some present
  obtain ⟨col, rfl⟩ := resolve_eq_some resolved
  have entries : Entries parser reading prim arguments datums :=
    ⟨exact, readable, forall₂_of_mapM all⟩
  constructor
  · intro covers isStrict name' prim' resolved' argument member datum converted
    cases resolved.symm.trans resolved'
    obtain ⟨datum', listed, converted', shift, stands⟩ := (entries.standsFor member).2.2
    cases converted.symm.trans converted'
    obtain ⟨row, env, agrees, value⟩ := exists_row resolved stands.isTyped
    have same := (covers row env agrees).ofStrict isStrict rfl
    have column : env.column col = datum.value := (agrees col name prim resolved).1.trans value
    rw [in_truth entries column] at same
    refine in_listed entries stands.isTyped (same.symm.trans ?_)
    change Truth.any (datums.map fun datum => _) = _
    rw [value, Truth.any_eq_true]
    exact List.mem_map.mpr ⟨datum, listed, (stands.at_bound reading .equal).2⟩
  · intro faithful row env agrees
    obtain ⟨column, typed⟩ := agrees col name prim resolved
    rw [in_truth entries column]
    refine ⟨in_implied entries typed, fun isStrict _ => in_equal entries typed ?_⟩
    intro datum listed
    obtain ⟨argument, member, converted⟩ := entries.of_datum listed
    exact faithful isStrict name prim resolved argument member datum converted

end InList

section Between

variable {col : ColumnNode} {name : String} {prim : PrimitiveType}

omit [Unicode] in
/-- Bounds in reverse order permit no row. -/
theorem between_reversed {value low high : Value} {seenLow seenHigh : Ordering}
    (reversed : low.order high = some .gt) (lowSeen : value.order low = some seenLow)
    (highSeen : value.order high = some seenHigh) :
    Truth.and (some (Comparison.greaterEqual.holds seenLow))
      (some (Comparison.lessEqual.holds seenHigh)) ≠ some true := by
  intro isTrue
  obtain ⟨above, below⟩ := Truth.and_eq_true.mp isTrue
  have swapped := Value.order_swap lowSeen
  have lowLe : seenLow.swap.isLE := by cases seenLow <;> first | rfl | cases above
  have highLe : seenHigh.isLE := by cases seenHigh <;> first | rfl | cases below
  exact absurd (Value.order_isLE_trans swapped highSeen reversed lowLe highLe) (by decide)

omit [Unicode] in
/-- Two bounds agree with their literals on every row, unless they permit one the literals
do not. -/
theorem between_equal {value low high lowBound highBound : Value} {lowShift highShift : Ordering}
    (lowStands : StandsFor prim.Holds low lowBound lowShift)
    (highStands : StandsFor prim.Holds high highBound highShift)
    (typed : value = .null ∨ prim.Holds value)
    (faithful : lowBound.order highBound ≠ some .gt → lowShift ≠ .gt ∧ highShift ≠ .lt) :
    Truth.and ((value.order lowBound).map Comparison.greaterEqual.holds)
        ((value.order highBound).map Comparison.lessEqual.holds) =
      Truth.and (reading.comparison .greaterEqual value low)
        (reading.comparison .lessEqual value high) := by
  have lowView : BoundView reading value low lowBound lowShift := lowStands.boundView typed
  have highView : BoundView reading value high highBound highShift := highStands.boundView typed
  by_cases reversed : lowBound.order highBound = some .gt
  · rcases typed with rfl | holds
    · rfl
    · obtain ⟨seenLow, lowSeen, lowOrdered⟩ := lowStands.view value holds
      obtain ⟨seenHigh, highSeen, highOrdered⟩ := highStands.view value holds
      have never := between_reversed reversed lowSeen highSeen
      have implied (isTrue : Truth.and (reading.comparison .greaterEqual value low)
          (reading.comparison .lessEqual value high) = some true) :
          Truth.and (some (Comparison.greaterEqual.holds seenLow))
            (some (Comparison.lessEqual.holds seenHigh)) = some true := by
        rw [Truth.and_eq_true] at isTrue ⊢
        have lowHolds := lowView.implied rfl isTrue.1
        have highHolds := highView.implied rfl isTrue.2
        rw [lowSeen] at lowHolds
        rw [highSeen] at highHolds
        exact ⟨lowHolds, highHolds⟩
      have lowCompare := (Value.compareWith_same_kind lowOrdered reading.mixed).1
      have highCompare := (Value.compareWith_same_kind highOrdered reading.mixed).1
      rw [lowSeen, highSeen]
      refine Truth.eq_of_true_iff (Truth.and_ne_none (by simp) (by simp)) (Truth.and_ne_none ?_ ?_)
        ⟨fun isTrue => absurd isTrue never, implied⟩
      · simp [Reading.comparison, Reading.compare, lowCompare]
      · simp [Reading.comparison, Reading.compare, highCompare]
  · obtain ⟨lowFaithful, highFaithful⟩ := faithful reversed
    have lowExact : Comparison.greaterEqual.exactUnder lowShift = true := by
      simpa [Comparison.exactUnder] using lowFaithful
    have highExact : Comparison.lessEqual.exactUnder highShift = true := by
      simpa [Comparison.exactUnder] using highFaithful
    rw [lowView.equal lowExact, highView.equal highExact]

omit [Unicode] in
/-- A row equal to one of two bounds in order shows that the literal lies not beyond it. -/
theorem between_faithful (reading : Reading) {low high lowBound highBound : Value}
    {lowShift highShift : Ordering}
    (lowStands : StandsFor prim.Holds low lowBound lowShift)
    (highStands : StandsFor prim.Holds high highBound highShift)
    (same : ∀ value, prim.Holds value →
      Truth.and ((value.order lowBound).map Comparison.greaterEqual.holds)
          ((value.order highBound).map Comparison.lessEqual.holds) =
        Truth.and (reading.comparison .greaterEqual value low)
          (reading.comparison .lessEqual value high))
    (ordered : lowBound.order highBound ≠ some .gt) : lowShift ≠ .gt ∧ highShift ≠ .lt := by
  obtain ⟨between, betweenIs, -⟩ := highStands.view lowBound lowStands.isTyped
  have swapped := Value.order_swap betweenIs
  have notGt : between ≠ .gt := fun isGt => ordered (betweenIs.trans (congrArg some isGt))
  obtain ⟨lowLiteral, lowSelf⟩ := lowStands.at_bound reading .greaterEqual
  obtain ⟨highLiteral, highSelf⟩ := highStands.at_bound reading .lessEqual
  constructor
  · rintro rfl
    have both := same lowBound lowStands.isTyped
    have isTrue : Truth.and ((lowBound.order lowBound).map Comparison.greaterEqual.holds)
        ((lowBound.order highBound).map Comparison.lessEqual.holds) = some true := by
      rw [lowSelf, betweenIs]
      cases between <;> first | rfl | exact absurd rfl notGt
    rw [both, Truth.and_eq_true, lowLiteral] at isTrue
    exact absurd isTrue.1 (by decide)
  · rintro rfl
    have both := same highBound highStands.isTyped
    have isTrue : Truth.and ((highBound.order lowBound).map Comparison.greaterEqual.holds)
        ((highBound.order highBound).map Comparison.lessEqual.holds) = some true := by
      rw [highSelf, swapped]
      cases between <;> first | rfl | exact absurd rfl notGt
    rw [both, Truth.and_eq_true, highLiteral] at isTrue
    exact absurd isTrue.2 (by decide)

omit [Unicode] in
/-- One bound of a `BETWEEN`, on a row. -/
theorem bound_covers (exact : parser.Exact reading) {literal : Node}
    (readable : Readable reading literal) {op : Comparison} (sound : ∀ shift, op.soundUnder shift)
    {row : String → Value} (env : Env) (typed : row name = .null ∨ prim.Holds (row name))
    {translated : Translated Predicate}
    (found : (literalToDatum parser literal prim).map (fun datum =>
      Translated.ofExact (Predicate.binary op name datum)) = some translated) :
    translated.Covers (Predicate.holds row) false
      (reading.comparison op (row name) (literal.eval reading env)) := by
  obtain ⟨datum, converted, rfl⟩ := Option.map_eq_some_iff.mp found
  obtain ⟨-, evals, shift, stands⟩ := literalToDatum_standsFor exact converted readable
  rw [evals]
  exact ⟨(stands.boundView typed).implied (sound shift), fun isStrict => by simp at isStrict⟩

omit [Unicode] in
theorem foldBounds_cases {left right : Option Datum} {below above : Datum → Predicate}
    {translated : Translated Predicate}
    (folded : Translated.foldAnd (Predicate.reduce .and)
      [left.map fun datum => Translated.ofExact (below datum),
        right.map fun datum => Translated.ofExact (above datum)] = some translated) :
    (translated.exact = false ∧ (left = none ∨ right = none)) ∨
      ∃ low high, left = some low ∧ right = some high ∧
        translated = .ofExact (.and (below low) (above high)) := by
  cases left with
  | none =>
      cases right with
      | none => simp [Translated.foldAnd, Predicate.reduce] at folded
      | some high =>
          cases folded
          exact .inl ⟨rfl, .inl rfl⟩
  | some low =>
      cases right with
      | none =>
          cases folded
          exact .inl ⟨rfl, .inr rfl⟩
      | some high =>
          cases folded
          exact .inr ⟨low, high, rfl, rfl, rfl⟩

theorem between_covers_iff (exact : parser.Exact reading) {expression left right : Node}
    (readable : Readable reading left ∧ Readable reading right) {strict : Bool}
    {translated : Translated Predicate}
    (found : translateBetween parser columns expression left right = some translated) :
    (∀ row env, Agrees columns row env →
      translated.Covers (Predicate.holds row) strict
        ((Node.predicateBetween expression left right).truth reading env)) ↔
      Faithful parser columns reading strict (.predicateBetween expression left right) := by
  simp only [translateBetween, Option.bind_eq_bind, Option.bind_eq_some_iff] at found
  obtain ⟨⟨name, prim⟩, resolved, folded⟩ := found
  obtain ⟨col, rfl⟩ := resolve_eq_some resolved
  have implied {row : String → Value} {env : Env} (agrees : Agrees columns row env) :
      translated.Covers (Predicate.holds row) false
        ((Node.predicateBetween (.column col) left right).truth reading env) := by
    obtain ⟨column, typed⟩ := agrees col name prim resolved
    rw [truth_predicateBetween, eval, column]
    have covers := Translated.foldAnd_covers (translator_lawful parser columns row).conjoin
      (.cons (fun _ => bound_covers exact readable.1 (by decide) env typed)
        (.cons (fun _ => bound_covers exact readable.2 (by decide) env typed) .nil)) folded
    simpa using covers
  rcases foldBounds_cases folded with ⟨inexact, missing⟩ | ⟨low, high, lowIs, highIs, rfl⟩
  · refine ⟨fun _ _ name' prim' low high resolved' lowIs highIs => ?_, fun _ row env agrees => ?_⟩
    · cases resolved.symm.trans resolved'
      rcases missing with noLow | noHigh
      · simp [noLow] at lowIs
      · simp [noHigh] at highIs
    · exact ⟨(implied agrees).ofTrue, fun _ isExact => by simp [inexact] at isExact⟩
  · obtain ⟨-, lowEvals, lowShift, lowStands⟩ := literalToDatum_standsFor exact lowIs readable.1
    obtain ⟨-, highEvals, highShift, highStands⟩ :=
      literalToDatum_standsFor exact highIs readable.2
    have conditionTruth {row : String → Value} {env : Env} (agrees : Agrees columns row env) :
        (Node.predicateBetween (.column col) left right).truth reading env =
          .and (reading.comparison .greaterEqual (row name) (literalValue reading left))
            (reading.comparison .lessEqual (row name) (literalValue reading right)) := by
      rw [truth_predicateBetween, lowEvals, highEvals, eval, (agrees col name prim resolved).1]
    constructor
    · intro covers isStrict name' prim' low' high' resolved' lowIs' highIs' ordered
      cases resolved.symm.trans resolved'
      cases lowIs.symm.trans lowIs'
      cases highIs.symm.trans highIs'
      have faithful := between_faithful reading lowStands highStands
        (fun value holds => ?_) ordered
      · rw [lowStands.shifted, highStands.shifted]
        simpa using faithful
      · obtain ⟨row, env, agrees, valueIs⟩ := exists_row resolved holds
        have same := (covers row env agrees).ofStrict isStrict rfl
        rw [conditionTruth agrees, valueIs] at same
        rw [← same, ← valueIs]
        rfl
    · intro faithful row env agrees
      refine ⟨(implied agrees).ofTrue, fun isStrict _ => ?_⟩
      rw [conditionTruth agrees]
      refine between_equal lowStands highStands (agrees col name prim resolved).2 fun ordered => ?_
      have sides := faithful isStrict name prim low high resolved lowIs highIs ordered
      rw [lowStands.shifted, highStands.shifted] at sides
      simpa using sides

end Between

/-- A leaf's predicate may stand for it exactly when the leaf is faithful. -/
theorem leaf_covers_iff (exact : parser.Exact reading) {node : Node}
    (reads : Reads reading node) {strict : Bool} {translated : Translated Predicate}
    (found : translateLeaf parser columns node = some translated) :
    (∀ row env, Agrees columns row env →
      translated.Covers (Predicate.holds row) strict (node.truth reading env)) ↔
      Faithful parser columns reading strict node := by
  have readable (child : Node) (member : child ∈ node.children) : Readable reading child :=
    reads child (.of_mem member)
  cases node with
  | comparison op left right =>
      have operands : Readable reading left ∧ Readable reading right :=
        ⟨readable left (by simp [children]), readable right (by simp [children])⟩
      cases op with
      | notEqual => simp [translateLeaf] at found
      | _ => exact comparison_covers_iff exact operands found
  | predicateIsNull expression =>
      simp only [translateLeaf, Option.bind_eq_bind, Option.bind_eq_some_iff, Option.pure_def,
        Option.some.injEq] at found
      obtain ⟨⟨name, prim⟩, resolved, rfl⟩ := found
      obtain ⟨col, rfl⟩ := resolve_eq_some resolved
      refine iff_of_true (fun row env agrees => .of_eq ?_) trivial
      rw [truth_predicateIsNull, eval, (agrees col name prim resolved).1]
      rfl
  | predicateIsNotNull expression =>
      simp only [translateLeaf, Option.bind_eq_bind, Option.bind_eq_some_iff, Option.pure_def,
        Option.some.injEq] at found
      obtain ⟨⟨name, prim⟩, resolved, rfl⟩ := found
      obtain ⟨col, rfl⟩ := resolve_eq_some resolved
      refine iff_of_true (fun row env agrees => .of_eq ?_) trivial
      rw [truth_predicateIsNotNull, eval, (agrees col name prim resolved).1]
      rfl
  | predicateInConstlist expression arguments =>
      exact in_covers_iff exact
        (fun argument member => readable argument (by simp [children, member])) found
  | predicateBetween expression left right =>
      exact between_covers_iff exact
        ⟨readable left (by simp [children]), readable right (by simp [children])⟩ found
  | _ => simp [translateLeaf] at found

end Leaves

/-- An evaluator of a file's metrics that never skips a file with a row on which the
predicate is TRUE. -/
structure MetricsEvaluator where
  keeps : List (String → Value) → Predicate → Bool
  correct : ∀ rows predicate row, row ∈ rows → predicate.holds row = some true →
    keeps rows predicate = true

/-- What pruning by `predicate` needs of the condition it stands for: every matching row
satisfies it, it is exact under a negation, and no file with a matching row is skipped. -/
structure Prunes (columns : FilterColumns) (reading : Reading) (strict : Bool)
    (predicate : Predicate) (condition : Node) : Prop where
  implied : ∀ row env, Agrees columns row env → condition.truth reading env = some true →
    predicate.holds row = some true
  exact : strict = true → ∀ row env, Agrees columns row env →
    predicate.holds row = condition.truth reading env
  keeps : ∀ (evaluator : MetricsEvaluator) rows row env, row ∈ rows → Agrees columns row env →
    condition.truth reading env = some true → evaluator.keeps rows predicate = true

theorem Prunes.of_covers {columns : FilterColumns} {reading : Reading} {strict : Bool}
    {translated : Translated Predicate} {condition : Node}
    (isExact : strict = true → translated.exact = true)
    (covers : ∀ row env, Agrees columns row env →
      translated.Covers (Predicate.holds row) strict (condition.truth reading env)) :
    Prunes columns reading strict translated.predicate condition where
  implied row env agrees := (covers row env agrees).ofTrue
  exact isStrict row env agrees := (covers row env agrees).ofStrict isStrict (isExact isStrict)
  keeps evaluator rows row env member agrees isTrue :=
    evaluator.correct rows _ row member ((covers row env agrees).ofTrue isTrue)

theorem Prunes.covers {columns : FilterColumns} {reading : Reading} {strict : Bool}
    {translated : Translated Predicate} {condition : Node}
    (prunes : Prunes columns reading strict translated.predicate condition)
    (row : String → Value) (env : Env) (agrees : Agrees columns row env) :
    translated.Covers (Predicate.holds row) strict (condition.truth reading env) :=
  ⟨prunes.implied row env agrees, fun isStrict _ => prunes.exact isStrict row env agrees⟩

/-- Pruning is sound for a filter, and for every condition placed inside its predicate,
exactly when each placed leaf is faithful. -/
theorem pruning_sound_iff (parser : DatumParser) (reading : Reading)
    (exact : parser.Exact reading) (columns : FilterColumns) (filter : Node)
    (reads : Reads reading filter) (predicate : Predicate)
    (found : toIcebergPredicate parser columns filter = some predicate) :
    (∀ strict inner, (translator parser columns).Placed false filter strict inner →
      ∃ translated, (translator parser columns).translate inner = some translated ∧
        Prunes columns reading strict translated.predicate inner) ↔
      ∀ strict inner, (translator parser columns).Placed false filter strict inner →
        Faithful parser columns reading strict inner := by
  obtain ⟨root, rootIs, -⟩ := Option.map_eq_some_iff.mp found
  have readsInner {strict : Bool} {inner : Node}
      (placed : (translator parser columns).Placed false filter strict inner) :
      Reads reading inner :=
    fun deeper below => reads deeper (below.trans placed.within)
  constructor
  · intro prunes strict inner placed
    cases leaf : Translator.isLeaf inner with
    | false => cases inner <;> trivial
    | true =>
        obtain ⟨translated, translatedIs, covered⟩ := prunes strict inner placed
        rw [Translator.translate_leaf _ leaf] at translatedIs
        exact (leaf_covers_iff exact (readsInner placed) translatedIs).mp covered.covers
  · intro faithful strict inner placed
    obtain ⟨translated, translatedIs, isExact⟩ := placed.found rootIs (by simp)
    refine ⟨translated, translatedIs, .of_covers isExact fun row env agrees => ?_⟩
    refine Translator.translate_covers (translator_lawful parser columns row) reading env inner
      (fun strict' leaf below isLeaf part partIs => ?_) translatedIs
    have placedLeaf := placed.trans below
    exact (leaf_covers_iff exact (readsInner placedLeaf) partIs).mpr
      (faithful strict' leaf placedLeaf) row env agrees

end Soundness

section Instances

local instance icebergUnicode : Unicode := Unicode.ascii

/-- A parser that accepts no calendar text. -/
def noDates : DatumParser := ⟨fun _ => none, fun _ => none, fun _ => none⟩

theorem noDates_exact : noDates.Exact noCalendar where
  date _ _ _ parsed := by cases parsed
  timestamp _ _ _ parsed := by cases parsed
  timestamptz _ _ _ parsed := by cases parsed

/-- One `float` column `score`. -/
def scores : FilterColumns where
  declared := [⟨"score", some 1⟩]
  scanned := ⟨[⟨1, "score", some .float⟩], by simp⟩

/-- A comparison of the column with a numeral. -/
def scoreFilter (op : Comparison) (numeral : String) : Node :=
  .comparison op (.column ⟨"SCORE", none, none⟩) (.literal ⟨.exactnumeric, .string numeral, none⟩)

/-- The 32-bit number closest to 0.1, which is above it. -/
def tenth : ℚ := 13421773 / 134217728

theorem scores_agree : Agrees scores (fun _ => .num tenth)
    ⟨fun _ => .num tenth, fun _ _ _ => .null⟩ := by
  intro col name prim found
  obtain ⟨field, member, -, primitive⟩ := resolve_field found
  obtain rfl := List.mem_singleton.mp member
  cases primitive
  refine ⟨rfl, .inr ?_⟩
  exact ⟨13421773, -27, by decide, by decide, by decide, by decide +kernel⟩

theorem scoreFilter_reads : Reads noCalendar (scoreFilter .greater "0.5") := by
  rintro inner within lit rfl -
  cases within with
  | child member below =>
      simp only [scoreFilter, children, List.mem_cons, List.not_mem_nil, or_false] at member
      rcases member with rfl | rfl
      · cases below with
        | child deeper => simp [children] at deeper
      · cases below with
        | refl => decide +kernel
        | child deeper => simp [children] at deeper

theorem pruning_sound_half :
    ∃ translated, (translator noDates scores).translate (scoreFilter .greater "0.5") =
        some translated ∧
      Prunes scores noCalendar false translated.predicate (scoreFilter .greater "0.5") := by
  obtain ⟨predicate, found⟩ : ∃ predicate,
      toIcebergPredicate noDates scores (scoreFilter .greater "0.5") = some predicate :=
    Option.isSome_iff_exists.mp (by decide +kernel)
  refine (pruning_sound_iff noDates noCalendar noDates_exact scores _ scoreFilter_reads predicate
    found).mpr (fun strict inner placed => ?_) false _ (.here _ _)
  cases placed
  intro name prim literal op datum shift operands converted shifted
  rcases binaryOperands_cases operands with ⟨onLeft, rfl, rfl⟩ | ⟨onRight, -⟩
  · obtain ⟨field, member, -, primitive⟩ := resolve_field onLeft
    obtain rfl := List.mem_singleton.mp member
    cases primitive
    have exactBound : (literalToDatum noDates
        (.literal ⟨.exactnumeric, .string "0.5", none⟩) .float).bind (fun datum =>
          (literalValue noCalendar
            (.literal ⟨.exactnumeric, .string "0.5", none⟩)).order datum.value) = some .eq := by
      decide +kernel
    rw [converted, Option.bind_some, shifted] at exactBound
    cases exactBound
    decide
  · simp [FilterColumns.resolve] at onRight

/-- `score > 0.1` is TRUE on the closest 32-bit number above 0.1.  Its predicate compares
with that number and is FALSE on the row, so the file may be skipped. -/
theorem rounded_bound_skips_file :
    Agrees scores (fun _ => .num tenth) ⟨fun _ => .num tenth, fun _ _ _ => .null⟩ ∧
      (scoreFilter .greater "0.1").truth noCalendar ⟨fun _ => .num tenth, fun _ _ _ => .null⟩ =
        some true ∧
      (toIcebergPredicate noDates scores (scoreFilter .greater "0.1")).map
        (Predicate.holds fun _ => .num tenth) = some (some false) :=
  ⟨scores_agree, by decide +kernel, by decide +kernel⟩

end Instances

end Iceberg

end LakehouseEngine
