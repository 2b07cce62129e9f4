import LakehouseEngine.Expression.Congruence
import LakehouseEngine.Pushdown.BinaryFilter

/-!
# Binary columns in file pruning

File pruning reads the raw bytes of a binary column.  For it, every hexadecimal literal that a
binary column is compared with becomes a binary literal, at any depth.  The bytes differ from the
text only on an empty value, which the text reads as NULL, so a retyped comparison knows at least
what the comparison of the text knows.  A test for NULL has no literal to retype: it reads an
empty value as present, where the text is NULL.
-/

namespace LakehouseEngine

section Pruning

variable [Unicode]

section Retype

/-- `retype_literal` -/
def retypeLiteral (layout : BinaryLayout) (node : Node) : Node :=
  ((byteLiteral node layout).map Node.literal).getD node

/-- The layout of the first binary column among the operands. -/
def firstLayout (columns : ColumnTypes) (operands : List Node) : Option BinaryLayout :=
  operands.findSome? fun operand => (binaryColumn columns operand).map Prod.snd

/-- `retype_binary_literals` on one operand, given the layout that was found. -/
def retypeOperand (layout : Option BinaryLayout) (node : Node) : Node :=
  match layout with
  | some layout => retypeLiteral layout node
  | none => node

omit [Unicode] in
/-- An operand stays as it is, or is a literal that becomes a binary one. -/
theorem retypeOperand_cases (layout : Option BinaryLayout) (node : Node) :
    retypeOperand layout node = node ∨ ∃ found value, byteLiteral node found = some value ∧
      retypeOperand layout node = .literal value := by
  cases layout with
  | none => exact .inl rfl
  | some layout =>
      have retyped : retypeOperand (some layout) node =
          ((byteLiteral node layout).map Node.literal).getD node := rfl
      cases found : byteLiteral node layout with
      | none =>
          rw [found] at retyped
          exact .inl retyped
      | some value =>
          rw [found] at retyped
          exact .inr ⟨layout, value, found, retyped⟩

omit [Unicode] in
theorem isNullLiteral_retypeOperand (layout : Option BinaryLayout) (node : Node) :
    (retypeOperand layout node).isNullLiteral = node.isNullLiteral := by
  rcases retypeOperand_cases layout node with same | ⟨found, value, bytesOf, retyped⟩
  · rw [same]
  · obtain ⟨_, -, -, -, present, valued, -⟩ :=
      byteLiteral_eq_some noCalendar ⟨fun _ => .null, fun _ _ _ => .null⟩ bytesOf
    rw [retyped, present]
    exact valued

mutual

/-- Retypes each hexadecimal literal a binary column is compared with. -/
def withBinaryLiterals (columns : ColumnTypes) : Node → Node
  | .predicateAnd expressions => .predicateAnd (retypeEach columns expressions)
  | .predicateOr expressions => .predicateOr (retypeEach columns expressions)
  | .predicateNot expression => .predicateNot (withBinaryLiterals columns expression)
  | .predicateInConstlist expression arguments =>
      let layout := firstLayout columns [expression]
      .predicateInConstlist (retypeOperand layout expression) (arguments.map (retypeOperand layout))
  | .predicateBetween expression left right =>
      let layout := firstLayout columns [expression, left, right]
      .predicateBetween (retypeOperand layout expression) (retypeOperand layout left)
        (retypeOperand layout right)
  | .comparison op left right =>
      let layout := firstLayout columns [left, right]
      .comparison op (retypeOperand layout left) (retypeOperand layout right)
  | node => node

def retypeEach (columns : ColumnTypes) : List Node → List Node
  | [] => []
  | node :: nodes => withBinaryLiterals columns node :: retypeEach columns nodes

end

theorem withBinaryLiterals_isNull (columns : ColumnTypes) (expression : Node) :
    withBinaryLiterals columns (.predicateIsNull expression) = .predicateIsNull expression := by
  simp [withBinaryLiterals]

theorem withBinaryLiterals_isNotNull (columns : ColumnTypes) (expression : Node) :
    withBinaryLiterals columns (.predicateIsNotNull expression) =
      .predicateIsNotNull expression := by
  simp [withBinaryLiterals]

theorem retypeEach_eq_map (columns : ColumnTypes) (nodes : List Node) :
    retypeEach columns nodes = nodes.map (withBinaryLiterals columns) := by
  induction nodes with
  | nil => rfl
  | cons node nodes ih => rw [retypeEach, ih, List.map_cons]

end Retype

/-! ## Bytes and text -/

section Bytes

omit [Unicode]

/-- A byte string as its text. -/
def Value.hexed : Value → Value
  | .bytes value => (hexText (some value)).elim .null .text
  | value => value

/-- A byte string compares with a value of another kind as its text does. -/
def Reading.overBytes (reading : Reading) : Reading :=
  { reading with mixed := fun left right => Value.compareWith reading.mixed left.hexed right.hexed }

theorem Value.compareWith_null_right (mixed : Value → Value → Option Ordering) (value : Value) :
    Value.compareWith mixed value .null = none := by
  cases value <;> rfl

/-- Bytes that are bytes, if the value is a byte string. -/
def Value.WellFormed (value : Value) : Prop := ∀ bytes, value = .bytes bytes → Text.IsBytes bytes

theorem Value.wellFormed_null : Value.null.WellFormed := fun _ same => absurd same (by simp)

theorem Value.wellFormed_bool (value : Bool) : (Value.bool value).WellFormed :=
  fun _ same => absurd same (by simp)

theorem Value.wellFormed_ofTruth (value : Truth) : (Value.ofTruth value).WellFormed := by
  cases value with
  | none => exact Value.wellFormed_null
  | some value => exact Value.wellFormed_bool value

theorem Value.wellFormed_text (value : String) : (Value.text value).WellFormed :=
  fun _ same => absurd same (by simp)

/-- A value that is read or NULL. -/
theorem Value.wellFormed_getD {α : Type} {build : α → Value} {read : Option α}
    (built : ∀ value, read = some value → (build value).WellFormed) :
    ((read.map build).getD .null).WellFormed := by
  cases read with
  | none => exact Value.wellFormed_null
  | some value => exact built value rfl

theorem Reading.literal_wellFormed (reading : Reading) (lit : Literal) :
    (reading.literal lit).WellFormed := by
  unfold Reading.literal
  split
  · exact Value.wellFormed_null
  · obtain ⟨kind, value, width⟩ := lit
    cases kind with
    | null => exact Value.wellFormed_null
    | string => exact Value.wellFormed_text _
    | binary =>
        refine Value.wellFormed_getD fun bytes decoded => ?_
        rintro _ ⟨⟩
        exact Text.isBytes_of_hexDecode decoded
    | _ => exact Value.wellFormed_getD fun _ _ _ same => absurd same (by simp)

/-- A CASE selects one of its results, or NULL. -/
theorem caseSelect_wellFormed {conditions : List Truth} {results : List Value}
    (each : ∀ result ∈ results, result.WellFormed) :
    (caseSelect conditions results).WellFormed := by
  induction conditions, results using caseSelect.induct with
  | case1 conditions result results => exact each result List.mem_cons_self
  | case2 condition conditions result results skipped ih =>
      rw [caseSelect.eq_2 _ _ _ _ skipped]
      exact ih fun other member => each other (List.mem_cons_of_mem _ member)
  | case3 result results => exact each result List.mem_cons_self
  | case4 conditions =>
      rw [caseSelect.eq_4]
      exact Value.wellFormed_null

/-- Unless both are byte strings, two values compare as their texts do. -/
theorem Reading.compare_overBytes (reading : Reading) {left right : Value}
    (one : ∀ first second, left = .bytes first → right ≠ .bytes second) :
    reading.overBytes.compare left right = Value.compareWith reading.mixed left.hexed
      right.hexed := by
  cases left with
  | bytes first =>
      cases right with
      | bytes second => exact absurd rfl (one first second rfl)
      | null => exact (Value.compareWith_null_right _ _).symm
      | _ => rfl
  | _ => cases right <;> rfl

/-- Two byte strings compare as their texts do, where both have a text. -/
theorem Reading.compare_bytes_of_hexed (reading : Reading) {first second : List ℕ}
    {ordering : Ordering}
    (isBytes : Text.IsBytes first) (others : Text.IsBytes second)
    (compared : Value.compareWith reading.mixed (Value.bytes first).hexed
      (Value.bytes second).hexed =
      some ordering) :
    reading.overBytes.compare (.bytes first) (.bytes second) = some ordering := by
  cases first with
  | nil => exact absurd compared (by simp [Value.hexed, hexText, Value.compareWith])
  | cons byte rest =>
      cases second with
      | nil =>
          rw [show (Value.bytes []).hexed = .null from rfl,
            Value.compareWith_null_right] at compared
          exact absurd compared (by simp)
      | cons other later =>
          rw [← compared]
          exact congrArg some (Text.compare_hexEncode isBytes others).symm

/-- The raw value of an operand: the value itself, or the bytes it is the text of. -/
def RawOf (value raw : Value) : Prop :=
  raw = value ∨ ∃ bytes, raw = .bytes bytes ∧ value = (hexText (some bytes)).elim .null .text

theorem RawOf.hexed {value raw : Value} (rawOf : RawOf value raw) : raw.hexed = value.hexed := by
  rcases rawOf with rfl | ⟨bytes, rfl, rfl⟩
  · rfl
  · cases bytes <;> rfl

/-- A byte string is its own raw value. -/
theorem RawOf.eq_of_bytes {bytes : List ℕ} {raw : Value} (rawOf : RawOf (.bytes bytes) raw) :
    raw = .bytes bytes := by
  rcases rawOf with rfl | ⟨list, -, text⟩
  · rfl
  · cases list <;> exact absurd text (by simp [hexText])

/-- A comparison of raw values knows what the comparison of the values knows. -/
theorem Reading.comparison_refines (reading : Reading) (op : Comparison)
    {left right rawLeft rawRight : Value}
    (leftOf : RawOf left rawLeft) (rightOf : RawOf right rawRight) (leftFormed : rawLeft.WellFormed)
    (rightFormed : rawRight.WellFormed) :
    Truth.Refines (reading.overBytes.comparison op left right)
      (reading.overBytes.comparison op rawLeft rawRight) := by
  intro known result
  obtain ⟨ordering, compared, rfl⟩ := Option.map_eq_some_iff.mp result
  refine Option.map_eq_some_iff.mpr ⟨ordering, ?_, rfl⟩
  by_cases both : ∃ first second, left = .bytes first ∧ right = .bytes second
  · obtain ⟨first, second, rfl, rfl⟩ := both
    rwa [leftOf.eq_of_bytes, rightOf.eq_of_bytes]
  · rw [reading.compare_overBytes fun first second isFirst isSecond =>
      both ⟨first, second, isFirst, isSecond⟩, ← leftOf.hexed, ← rightOf.hexed] at compared
    by_cases rawBoth : ∃ first second, rawLeft = .bytes first ∧ rawRight = .bytes second
    · obtain ⟨first, second, rfl, rfl⟩ := rawBoth
      exact reading.compare_bytes_of_hexed (leftFormed first rfl) (rightFormed second rfl) compared
    · rwa [reading.compare_overBytes fun first second isFirst isSecond =>
        rawBoth ⟨first, second, isFirst, isSecond⟩]

end Bytes

/-! ## What pruning reads -/

/-- A row of the scan under a reading all of whose byte strings are byte strings. -/
structure PruningRow (columns : ColumnTypes) extends BinaryRow columns where
  reading : Reading
  apply_wellFormed : ∀ operation values, (reading.apply operation values).WellFormed
  column_wellFormed : ∀ col, (env.column col).WellFormed
  aggregate_wellFormed : ∀ name distinct arguments,
    (env.aggregate name distinct arguments).WellFormed

namespace PruningRow

variable {columns : ColumnTypes} (row : PruningRow columns)

/-- The truth of a filter over the text of the binary columns. -/
def textTruth (node : Node) : Truth := node.truth row.reading.overBytes row.env

/-- The raw bytes of a binary column, and the bytes of a binary literal. -/
def rawOperand (node : Node) : Option Value :=
  match binaryColumn columns node, node with
  | some (column, _), _ => some ((row.bytes column).elim .null .bytes)
  | none, .literal lit => if lit.kind = .binary then some (row.reading.literal lit) else none
  | none, _ => none

/-- A comparison of two operands with raw bytes compares these; every other one compares the
values. -/
def rawComparison (op : Comparison) (left right : Node) : Truth :=
  match row.rawOperand left, row.rawOperand right with
  | some left, some right => row.reading.overBytes.comparison op left right
  | _, _ =>
      row.reading.overBytes.comparison op (left.eval row.reading.overBytes row.env)
        (right.eval row.reading.overBytes row.env)

/-- Whether an operand is NULL as it is stored. -/
def rawIsNull (node : Node) : Bool :=
  ((row.rawOperand node).getD (node.eval row.reading.overBytes row.env)).isNull

mutual

/-- The truth of a filter over the stored values, as file pruning reads them. -/
def rawTruth : Node → Truth
  | .predicateAnd expressions => .all (rawEach expressions)
  | .predicateOr expressions => .any (rawEach expressions)
  | .predicateNot expression => .not (rawTruth expression)
  | .predicateIsNull expression => some (row.rawIsNull expression)
  | .predicateIsNotNull expression => some (!row.rawIsNull expression)
  | .predicateInConstlist expression arguments =>
      .any ((arguments.filter fun argument => !argument.isNullLiteral).map
        (row.rawComparison .equal expression))
  | .predicateBetween expression left right =>
      .and (row.rawComparison .greaterEqual expression left)
        (row.rawComparison .lessEqual expression right)
  | .comparison op left right => row.rawComparison op left right
  | node => row.textTruth node

def rawEach : List Node → List Truth
  | [] => []
  | node :: nodes => rawTruth node :: rawEach nodes

end

theorem rawEach_eq_map (nodes : List Node) : row.rawEach nodes = nodes.map row.rawTruth := by
  induction nodes with
  | nil => rfl
  | cons node nodes ih => rw [rawEach, ih, List.map_cons]

/-! ## Operands -/

theorem eval_wellFormed (node : Node) :
    (node.eval row.reading.overBytes row.env).WellFormed := by
  induction node using Node.inductOnChildren with
  | step node ih =>
      cases node with
      | absent => exact Value.wellFormed_null
      | literal lit => exact Reading.literal_wellFormed _ lit
      | column col => exact row.column_wellFormed col
      | comparison | predicateAnd | predicateOr | predicateNot | predicateInConstlist
      | predicateBetween => exact Value.wellFormed_ofTruth _
      | predicateIsNull | predicateIsNotNull => exact Value.wellFormed_bool _
      | functionScalarCase basis arguments results =>
          rw [Node.eval_functionScalarCase]
          apply caseSelect_wellFormed
          intro value member
          obtain ⟨result, listed, rfl⟩ := List.mem_map.mp member
          exact ih result (List.mem_cons_of_mem _ (List.mem_append_right _ listed))
      | functionAggregate name distinct arguments =>
          exact row.aggregate_wellFormed name distinct arguments
      | predicateLike | functionScalarExtract | functionScalarCast | decimalToVarcharExasol
      | functionScalar | unsupported => exact row.apply_wellFormed _ _

/-- A retyped operand reads as the raw form of the operand. -/
theorem rawOf_retypeOperand (layout : Option BinaryLayout) (node : Node) :
    RawOf (node.eval row.reading.overBytes row.env)
        ((retypeOperand layout node).eval row.reading.overBytes row.env) ∧
      ∀ raw ∈ row.rawOperand (retypeOperand layout node),
        RawOf (node.eval row.reading.overBytes row.env) raw ∧ raw.WellFormed := by
  have unchanged : ∀ raw ∈ row.rawOperand node,
      RawOf (node.eval row.reading.overBytes row.env) raw ∧ raw.WellFormed := by
    intro raw isRaw
    unfold rawOperand at isRaw
    split at isRaw
    · next column layout found =>
        cases Option.mem_some.mp isRaw
        rw [row.eval_column row.reading.overBytes found]
        cases present : row.bytes column with
        | none => exact ⟨.inl rfl, Value.wellFormed_null⟩
        | some bytes =>
            refine ⟨.inr ⟨bytes, rfl, rfl⟩, ?_⟩
            rintro _ ⟨⟩
            exact row.isBytes column bytes present
    · split at isRaw
      · cases Option.mem_some.mp isRaw
        exact ⟨.inl rfl, Reading.literal_wellFormed _ _⟩
      · exact absurd isRaw (by simp)
    · exact absurd isRaw (by simp)
  rcases retypeOperand_cases layout node with same | ⟨found, value, bytesOf, retyped⟩
  · rw [same]
    exact ⟨.inl rfl, unchanged⟩
  · obtain ⟨bytes, -, nonempty, text, -, -, binary, -⟩ :=
      byteLiteral_eq_some row.reading.overBytes row.env bytesOf
    have rawOf : RawOf (node.eval row.reading.overBytes row.env)
        (row.reading.overBytes.literal value) := by
      rw [text, binary]
      cases bytes with
      | nil => exact absurd rfl nonempty
      | cons byte rest => exact .inr ⟨byte :: rest, rfl, rfl⟩
    rw [retyped]
    refine ⟨rawOf, ?_⟩
    intro raw isRaw
    change raw ∈ (if value.kind = .binary then some (row.reading.literal value) else none) at isRaw
    split at isRaw
    · cases Option.mem_some.mp isRaw
      exact ⟨rawOf, Reading.literal_wellFormed _ value⟩
    · exact absurd isRaw (by simp)

/-- A comparison of retyped operands knows what the comparison of the operands knows. -/
theorem rawComparison_refines (op : Comparison) (layout : Option BinaryLayout) (left right : Node) :
    Truth.Refines
      (row.reading.overBytes.comparison op (left.eval row.reading.overBytes row.env)
        (right.eval row.reading.overBytes row.env))
      (row.rawComparison op (retypeOperand layout left) (retypeOperand layout right)) := by
  obtain ⟨leftOf, leftRaw⟩ := row.rawOf_retypeOperand layout left
  obtain ⟨rightOf, rightRaw⟩ := row.rawOf_retypeOperand layout right
  have values := row.reading.comparison_refines op leftOf rightOf (row.eval_wellFormed _)
    (row.eval_wellFormed _)
  unfold rawComparison
  cases isLeft : row.rawOperand (retypeOperand layout left) with
  | none => exact values
  | some rawLeft =>
      cases isRight : row.rawOperand (retypeOperand layout right) with
      | none => exact values
      | some rawRight =>
          obtain ⟨leftIs, leftFormed⟩ := leftRaw rawLeft isLeft
          obtain ⟨rightIs, rightFormed⟩ := rightRaw rawRight isRight
          exact row.reading.comparison_refines op leftIs rightIs leftFormed rightFormed

/-! ## The retyped filter -/

/-- The conditions a filter reaches through AND, OR and NOT. -/
inductive Reached : Node → Node → Prop where
  | refl (node : Node) : Reached node node
  | predicateAnd {inner child : Node} {expressions : List Node} :
      child ∈ expressions → Reached inner child → Reached inner (.predicateAnd expressions)
  | predicateOr {inner child : Node} {expressions : List Node} :
      child ∈ expressions → Reached inner child → Reached inner (.predicateOr expressions)
  | predicateNot {inner expression : Node} :
      Reached inner expression → Reached inner (.predicateNot expression)

omit [Unicode] in
theorem Reached.trans {first second third : Node} (lower : Reached first second)
    (upper : Reached second third) : Reached first third := by
  induction upper with
  | refl => exact lower
  | predicateAnd member _ ih => exact .predicateAnd member ih
  | predicateOr member _ ih => exact .predicateOr member ih
  | predicateNot _ ih => exact .predicateNot ih

/-- The condition tests a binary column for NULL that holds the empty value. -/
def TestsEmpty (node : Node) : Prop :=
  ∃ expression column layout,
    (node = .predicateIsNull expression ∨ node = .predicateIsNotNull expression) ∧
      binaryColumn columns expression = some (column, layout) ∧ row.bytes column = some []

/-- A test for NULL reads a stored value as the text does, unless the value is empty. -/
theorem rawIsNull_eq {expression : Node}
    (present : ∀ column layout, binaryColumn columns expression = some (column, layout) →
      row.bytes column ≠ some []) :
    row.rawIsNull expression = (expression.eval row.reading.overBytes row.env).isNull := by
  unfold rawIsNull rawOperand
  split
  · next column layout found =>
      rw [row.eval_column row.reading.overBytes found]
      cases stored : row.bytes column with
      | none => rfl
      | some bytes =>
          cases bytes with
          | nil => exact absurd stored (present column layout found)
          | cons byte rest => rfl
  · split <;> rfl
  · rfl

/-- A test for NULL reads an empty stored value as present, where the text is NULL. -/
theorem rawIsNull_empty {expression : Node} {column : ColumnRef} {layout : BinaryLayout}
    (found : binaryColumn columns expression = some (column, layout))
    (empty : row.bytes column = some []) :
    row.rawIsNull expression = false ∧
      (expression.eval row.reading.overBytes row.env).isNull = true := by
  constructor
  · unfold rawIsNull rawOperand
    rw [found]
    dsimp only
    rw [empty]
    rfl
  · rw [row.eval_column row.reading.overBytes found, empty]
    rfl

/-- The retyped filter knows over the stored values what the filter knows over the text. -/
theorem rawTruth_refines (node : Node) (present : ∀ inner, Reached inner node →
    ¬ row.TestsEmpty inner) :
    Truth.Refines (row.textTruth node) (row.rawTruth (withBinaryLiterals columns node)) := by
  induction node using Node.inductOnChildren with
  | step node ih =>
      unfold textTruth
      cases node with
      | predicateAnd expressions =>
          rw [withBinaryLiterals, rawTruth, rawEach_eq_map, retypeEach_eq_map, List.map_map,
            Node.truth_predicateAnd]
          exact .all fun child member =>
            ih child member fun inner reached => present inner (.predicateAnd member reached)
      | predicateOr expressions =>
          rw [withBinaryLiterals, rawTruth, rawEach_eq_map, retypeEach_eq_map, List.map_map,
            Node.truth_predicateOr]
          exact .any fun child member =>
            ih child member fun inner reached => present inner (.predicateOr member reached)
      | predicateNot expression =>
          rw [withBinaryLiterals, rawTruth, Node.truth_predicateNot]
          exact (ih expression List.mem_cons_self fun inner reached =>
            present inner (.predicateNot reached)).not
      | predicateIsNull expression =>
          rw [withBinaryLiterals_isNull, rawTruth, Node.truth_predicateIsNull, row.rawIsNull_eq]
          · exact .refl _
          · intro column layout found empty
            exact present _ (.refl _) ⟨expression, column, layout, .inl rfl, found, empty⟩
      | predicateIsNotNull expression =>
          rw [withBinaryLiterals_isNotNull, rawTruth, Node.truth_predicateIsNotNull,
            row.rawIsNull_eq]
          · exact .refl _
          · intro column layout found empty
            exact present _ (.refl _) ⟨expression, column, layout, .inr rfl, found, empty⟩
      | predicateInConstlist expression arguments =>
          rw [withBinaryLiterals, rawTruth, Node.truth_predicateInConstlist, List.filter_map,
            List.map_map]
          have same : ((fun argument => !argument.isNullLiteral) ∘
              retypeOperand (firstLayout columns [expression])) = fun argument : Node =>
                !argument.isNullLiteral := by
            funext argument
            exact congrArg (!·) (isNullLiteral_retypeOperand _ argument)
          rw [same]
          exact .any fun argument _ => row.rawComparison_refines .equal _ expression argument
      | predicateBetween expression left right =>
          rw [withBinaryLiterals, rawTruth, Node.truth_predicateBetween]
          exact (row.rawComparison_refines .greaterEqual _ expression left).and
            (row.rawComparison_refines .lessEqual _ expression right)
      | comparison op left right =>
          rw [withBinaryLiterals, rawTruth, Node.truth_comparison]
          exact row.rawComparison_refines op _ left right
      | _ => exact .refl _

/-- Comparing binary columns by their bytes agrees with comparing their text: the rewritten
filter keeps the same rows, and every condition of the retyped filter that the filter reaches
through AND, OR and NOT is TRUE where the condition is, and FALSE where it is. -/
def BytesAgree (node : Node) : Prop :=
  ((compareBinaryBytes columns node).truth row.reading row.env = some true ↔
      node.truth row.reading row.env = some true) ∧
    ∀ inner, Reached inner node →
      Truth.Refines (row.textTruth inner) (row.rawTruth (withBinaryLiterals columns inner))

end PruningRow

/-- The bytes agree with the text exactly where no condition tests an empty value for NULL. -/
theorem bytesAgree_iff {columns : ColumnTypes} (row : PruningRow columns) (node : Node) :
    row.BytesAgree node ↔ ∀ inner, PruningRow.Reached inner node → ¬ row.TestsEmpty inner := by
  constructor
  · rintro ⟨-, refines⟩ inner reached ⟨expression, column, layout, tests, found, empty⟩
    obtain ⟨stored, text⟩ := row.rawIsNull_empty found empty
    have known := refines inner reached
    rcases tests with rfl | rfl
    · have missed := known true (by rw [PruningRow.textTruth, Node.truth_predicateIsNull, text])
      rw [withBinaryLiterals_isNull, PruningRow.rawTruth, stored] at missed
      exact absurd missed (by decide)
    · have missed :=
        known false (by rw [PruningRow.textTruth, Node.truth_predicateIsNotNull, text]; rfl)
      rw [withBinaryLiterals_isNotNull, PruningRow.rawTruth, stored] at missed
      exact absurd missed (by decide)
  · intro present
    refine ⟨row.compareBinaryBytes_keeps row.reading node, ?_⟩
    intro inner reached
    exact row.rawTruth_refines inner fun other further => present other (further.trans reached)

end Pruning

section Instances

local instance binaryUnicode : Unicode := Unicode.ascii

/-- One variable-length binary column `B`. -/
def binaryB : ColumnTypes := [(⟨none, "B"⟩, ⟨.widestVarchar, some .variable⟩)]

theorem binaryColumn_binaryB (col : ColumnNode) :
    binaryColumn binaryB (.column col) =
      if col.upperName = "B" then some (col.ref, .variable) else none := by
  have get : ColumnTypes.get binaryB col.ref =
      if col.upperName = "B" then some ⟨.widestVarchar, some .variable⟩ else none := by
    have binds : bindsColumn ⟨none, "B"⟩ col.ref = decide (col.upperName = "B") := by
      simp only [bindsColumn, ColumnNode.ref, Option.isNone_none, Bool.true_or, Bool.and_true]
      exact Bool.eq_iff_iff.mpr (beq_iff_eq.trans (eq_comm.trans decide_eq_true_iff.symm))
    rw [ColumnTypes.get, ColumnTypes.entry, binaryB, List.find?_singleton]
    dsimp only
    by_cases named : col.upperName = "B"
    · rw [if_pos named, if_pos (binds.trans (decide_eq_true named))]
      rfl
    · rw [if_neg named, if_neg (by rw [binds, decide_eq_false named]; decide)]
      rfl
  have column : binaryColumn binaryB (.column col) = (do
      let layout ← (← ColumnTypes.get binaryB col.ref).binary
      return (col.ref, layout)) := rfl
  rw [column, get]
  split <;> rfl

theorem binaryB_cases {node : Node} {column : ColumnRef} {layout : BinaryLayout}
    (found : binaryColumn binaryB node = some (column, layout)) :
    column.name = "B" ∧ layout = .variable := by
  obtain ⟨col, rfl⟩ := exists_of_binaryColumn found
  rw [binaryColumn_binaryB] at found
  split at found
  · next named =>
      cases found
      exact ⟨named, rfl⟩
  · exact absurd found (by simp)

theorem rawBytesColumn_ne_binaryB {column : ColumnRef} (named : column.name = "B") :
    (rawBytesColumn column).upperName ≠ "B" := by
  have renamed : upper (rawBytesAlias "B") ≠ "B" := by decide
  rw [← named] at renamed
  rw [← named]
  exact renamed

/-- The text of an empty `B` is NULL, its raw bytes are there. -/
def emptyEnv : Env where
  column col := if col.upperName = "B" then .null else .bytes []
  aggregate _ _ _ := .null

theorem emptyEnv_wellFormed (col : ColumnNode) : (emptyEnv.column col).WellFormed := by
  unfold emptyEnv
  dsimp only
  split
  · exact Value.wellFormed_null
  · rintro _ ⟨⟩
    exact Text.isBytes_nil

theorem emptyEnv_text (col : ColumnNode) (column : ColumnRef) (layout : BinaryLayout)
    (found : binaryColumn binaryB (.column col) = some (column, layout)) :
    emptyEnv.column col = .null := by
  rw [binaryColumn_binaryB] at found
  split at found
  · next named => exact if_pos named
  · exact absurd found (by simp)

/-- The row whose `B` is empty. -/
def emptyB : PruningRow binaryB where
  env := emptyEnv
  bytes _ := some []
  isBytes _ _ same := Option.some.inj same ▸ Text.isBytes_nil
  width _ _ _ found := absurd (binaryB_cases found).2 (by simp)
  text := emptyEnv_text
  raw _ _ _ found := if_neg (rawBytesColumn_ne_binaryB (binaryB_cases found).1)
  reading := noCalendar
  apply_wellFormed _ _ := Value.wellFormed_null
  column_wellFormed := emptyEnv_wellFormed
  aggregate_wellFormed _ _ _ := Value.wellFormed_null

/-- `B IS NULL` is TRUE over the text of the empty value, and FALSE over its bytes. -/
theorem empty_value_tested_for_null :
    ¬ emptyB.BytesAgree (.predicateIsNull (.column ⟨"B", none, none⟩)) := by
  rintro ⟨-, refines⟩
  have known := refines _ (.refl _) true (by decide)
  exact absurd known (by decide)

end Instances

end LakehouseEngine
