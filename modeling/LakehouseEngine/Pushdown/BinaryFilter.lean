import LakehouseEngine.Data.ListRelation
import LakehouseEngine.Expression.Semantics
import LakehouseEngine.Pushdown.ColumnTypes
import LakehouseEngine.Scan.BinaryHex

/-!
# Filters on binary columns

A binary column reads as its lower-case hexadecimal text, which sorts as its bytes do.  A
comparison with a hexadecimal literal can therefore compare the raw bytes, which the statistics
of a file prune.
-/

namespace LakehouseEngine

/-- The empty value sorts first, so only these operators would keep the row Exasol reads as
NULL. -/
def admitsEmpty : Comparison → Bool
  | .notEqual | .less | .lessEqual => true
  | _ => false

/-- Only lower-case hex of whole bytes names a byte string: Exasol compares text
case-sensitively, and the column never renders an upper-case digit.  An empty string is
Exasol's NULL. -/
def byteLiteral (node : Node) (layout : BinaryLayout) : Option Literal :=
  match node with
  | .literal ⟨.string, .string digits, _⟩ =>
      if digits.toList.any Text.isAsciiUppercase then
        none
      else do
        let bytes ← Text.hexDecode digits.toList
        if bytes.isEmpty then
          none
        else
          match layout with
          | .variable => some ⟨.binary, .string digits, none⟩
          | .fixed width =>
              if width = bytes.length then
                some ⟨.binary, .string digits, some bytes.length⟩ else none
  | _ => none

/-! ## Comparing bytes and comparing text -/

section Compare

variable (reading : Reading) (op : Comparison)

/-- Unless the value is empty, its text compares as its bytes do. -/
theorem comparison_hexText {value : Option (List ℕ)} {bytes : List ℕ}
    (isBytes : ∀ list, value = some list → Text.IsBytes list) (others : Text.IsBytes bytes)
    (nonempty : value ≠ some []) :
    reading.comparison op ((hexText value).elim .null .text)
        (.text (String.ofList (Text.hexEncode bytes))) =
      reading.comparison op (value.elim .null .bytes) (.bytes bytes) := by
  cases value with
  | none => rfl
  | some list =>
      cases list with
      | nil => exact absurd rfl nonempty
      | cons byte rest =>
          have same := Text.compare_hexEncode (isBytes _ rfl) others
          exact congrArg (fun ordering => some (op.holds ordering)) same

/-- The empty value sorts before every other one. -/
theorem comparison_empty {bytes : List ℕ} (nonempty : bytes ≠ []) :
    reading.comparison op (.bytes []) (.bytes bytes) = some (admitsEmpty op) := by
  cases bytes with
  | nil => exact absurd rfl nonempty
  | cons byte rest => cases op <;> rfl

theorem comparison_swapped_text (value : Option String) (text : String) :
    reading.comparison op (.text text) (value.elim .null .text) =
      reading.comparison op.withOperandsSwapped (value.elim .null .text) (.text text) := by
  cases value with
  | none => rfl
  | some other =>
      have swapped : compare other text = (compare text other).swap := Std.OrientedCmp.eq_swap
      have holds := op.holds_withOperandsSwapped (compare text other)
      rw [← swapped] at holds
      exact congrArg some holds.symm

end Compare

/-- A literal that names a byte string reads as the text of these bytes, its retyped form as the
bytes. -/
theorem byteLiteral_eq_some (reading : Reading) (env : Env) {node : Node} {layout : BinaryLayout}
    {value : Literal}
    (found : byteLiteral node layout = some value) :
    ∃ bytes, Text.IsBytes bytes ∧ bytes ≠ [] ∧
      node.eval reading env = .text (String.ofList (Text.hexEncode bytes)) ∧
      node.isNullLiteral = false ∧ value.isNull = false ∧ reading.literal value = .bytes bytes ∧
      ∀ width, layout = .fixed width → width = bytes.length := by
  unfold byteLiteral at found
  split at found
  · next digits _ =>
      split at found
      · exact absurd found (by simp)
      · next lower =>
          obtain ⟨bytes, decoded, found⟩ := Option.bind_eq_some_iff.mp found
          have encoded := Text.hexEncode_of_hexDecode decoded (Bool.eq_false_of_not_eq_true lower)
          split at found
          · exact absurd found (by simp)
          · next nonempty =>
              have text : String.ofList (Text.hexEncode bytes) = digits := by
                rw [encoded, String.ofList_toList]
              have literal (width : Option ℕ) :
                  reading.literal ⟨.binary, .string digits, width⟩ = .bytes bytes := by
                simp [Reading.literal, Literal.isNull, JsonScalar.toText, decoded]
              refine ⟨bytes, Text.isBytes_of_hexDecode decoded, ?_, ?_, rfl, ?_⟩
              · rintro rfl
                exact nonempty rfl
              · rw [text]
                rfl
              · cases layout with
                | «variable» =>
                    cases found
                    exact ⟨rfl, literal none, fun _ other => absurd other (by simp)⟩
                | fixed width =>
                    simp only at found
                    split at found
                    · next same =>
                        cases found
                        refine ⟨rfl, literal _, ?_⟩
                        rintro _ ⟨⟩
                        exact same
                    · exact absurd found (by simp)
  · exact absurd found (by simp)

variable [Unicode]

/-- The node's own (relation alias, column) pair with the layout of the binary column it binds. -/
def binaryColumn (columns : ColumnTypes) (node : Node) : Option (ColumnRef × BinaryLayout) := do
  let column ← columnNodeRef node
  let layout ← (← columns.get column).binary
  return (column, layout)

/-- The column under which the scan exposes the raw bytes. -/
def rawBytesColumn (column : ColumnRef) : ColumnNode where
  name := rawBytesAlias column.name
  tableAlias := column.relation

def rawBytes (column : ColumnRef) : Node := .column (rawBytesColumn column)

/-- The raw bytes differ from the empty value. -/
def nonEmptyBytes (column : ColumnRef) : Node :=
  .comparison .notEqual (rawBytes column) (.literal ⟨.binary, .string "", none⟩)

/-- The binary column of a comparison, the other operand, and the operator as seen from the
column. -/
def binaryOperand (columns : ColumnTypes) (op : Comparison) (left right : Node) :
    Option ((ColumnRef × BinaryLayout) × Node × Comparison) :=
  match binaryColumn columns left with
  | some column => some (column, right, op)
  | none => (binaryColumn columns right).map (·, left, op.withOperandsSwapped)

def byteComparison (columns : ColumnTypes) : Node → Option Node
  | .predicateInConstlist expression arguments => do
      let (column, layout) ← binaryColumn columns expression
      let values ← arguments.mapM (byteLiteral · layout)
      return .predicateInConstlist (rawBytes column) (values.map .literal)
  | .predicateBetween expression left right => do
      let (column, layout) ← binaryColumn columns expression
      let left ← byteLiteral left layout
      let right ← byteLiteral right layout
      return .predicateBetween (rawBytes column) (.literal left) (.literal right)
  | .comparison op left right => do
      let ((column, layout), literal, op) ← binaryOperand columns op left right
      let value ← byteLiteral literal layout
      let comparison := .comparison op (rawBytes column) (.literal value)
      -- A fixed-length value is never empty.
      if layout = .variable ∧ admitsEmpty op = true then
        return .predicateAnd [comparison, nonEmptyBytes column]
      else
        return comparison
  | _ => none

mutual

/-- Rewrites only the comparisons the root reaches through AND and OR, where a FALSE result
drops a row exactly as a NULL one does. -/
def compareBinaryBytes (columns : ColumnTypes) : Node → Node
  | .predicateAnd expressions => .predicateAnd (compareEach columns expressions)
  | .predicateOr expressions => .predicateOr (compareEach columns expressions)
  | node => (byteComparison columns node).getD node

def compareEach (columns : ColumnTypes) : List Node → List Node
  | [] => []
  | node :: nodes => compareBinaryBytes columns node :: compareEach columns nodes

end

/-- A row of the scan with the raw bytes of its binary columns.  The scan exposes a value twice:
as its text under the column's own name, and as it is under the raw name. -/
structure BinaryRow (columns : ColumnTypes) where
  env : Env
  bytes : ColumnRef → Option (List ℕ)
  isBytes : ∀ column value, bytes column = some value → Text.IsBytes value
  width : ∀ node column width, binaryColumn columns node = some (column, .fixed width) →
    ∀ value, bytes column = some value → width = value.length
  text : ∀ col column layout, binaryColumn columns (.column col) = some (column, layout) →
    env.column col = (hexText (bytes column)).elim .null .text
  raw : ∀ node column layout, binaryColumn columns node = some (column, layout) →
    env.column (rawBytesColumn column) = (bytes column).elim .null .bytes

theorem compareEach_eq_map (columns : ColumnTypes) (nodes : List Node) :
    compareEach columns nodes = nodes.map (compareBinaryBytes columns) := by
  induction nodes with
  | nil => rfl
  | cons node nodes ih => rw [compareEach, ih, List.map_cons]

/-! ## Operands -/

section Operands

variable {columns : ColumnTypes} {column : ColumnRef} {layout : BinaryLayout} {node : Node}

/-- Only a column node is a binary column. -/
theorem exists_of_binaryColumn (found : binaryColumn columns node = some (column, layout)) :
    ∃ col, node = .column col := by
  cases node with
  | column col => exact ⟨col, rfl⟩
  | _ => exact absurd found (by simp [binaryColumn, columnNodeRef])

/-- The value of a binary column is the text of its bytes. -/
theorem BinaryRow.eval_column (row : BinaryRow columns) (reading : Reading)
    (found : binaryColumn columns node = some (column, layout)) :
    node.eval reading row.env = (hexText (row.bytes column)).elim .null .text := by
  obtain ⟨col, rfl⟩ := exists_of_binaryColumn found
  exact row.text col column layout found

theorem BinaryRow.eval_rawBytes (row : BinaryRow columns) (reading : Reading)
    (found : binaryColumn columns node = some (column, layout)) :
    (rawBytes column).eval reading row.env = (row.bytes column).elim .null .bytes :=
  row.raw node column layout found

end Operands

/-! ## The rewritten filter keeps the same rows -/

section Keeps

variable {columns : ColumnTypes} (row : BinaryRow columns) (reading : Reading) {column : ColumnRef}
  {layout : BinaryLayout} {node literal : Node} {value : Literal} {op : Comparison}

/-- Where the value is not empty, the raw bytes compare as the text does. -/
theorem BinaryRow.comparison_eq (found : binaryColumn columns node = some (column, layout))
    (bytesOf : byteLiteral literal layout = some value) (present : row.bytes column ≠ some [])
    (op : Comparison) :
    reading.comparison op ((rawBytes column).eval reading row.env) (reading.literal value) =
      reading.comparison op (node.eval reading row.env) (literal.eval reading row.env) := by
  obtain ⟨bytes, isBytes, -, text, -, -, binary, -⟩ := byteLiteral_eq_some reading row.env bytesOf
  rw [row.eval_column reading found, row.eval_rawBytes reading found, text, binary,
    comparison_hexText reading op (row.isBytes column) isBytes present]

/-- Where the value is empty, the text is NULL. -/
theorem BinaryRow.comparison_empty_text (found : binaryColumn columns node = some (column, layout))
    (empty : row.bytes column = some []) (op : Comparison) (other : Value) :
    reading.comparison op (node.eval reading row.env) other = none := by
  rw [row.eval_column reading found, empty]
  exact reading.comparison_null_left op other

/-- Where the value is empty, the raw bytes sort before the literal's. -/
theorem BinaryRow.comparison_empty_raw (found : binaryColumn columns node = some (column, layout))
    (bytesOf : byteLiteral literal layout = some value) (empty : row.bytes column = some [])
    (op : Comparison) :
    reading.comparison op ((rawBytes column).eval reading row.env) (reading.literal value) =
      some (admitsEmpty op) := by
  obtain ⟨bytes, -, nonempty, -, -, -, binary, -⟩ := byteLiteral_eq_some reading row.env bytesOf
  rw [row.eval_rawBytes reading found, empty, binary]
  exact comparison_empty reading op nonempty

/-- A value of fixed length is not empty where a literal of that length is not. -/
theorem BinaryRow.layout_of_empty (found : binaryColumn columns node = some (column, layout))
    (bytesOf : byteLiteral literal layout = some value) (empty : row.bytes column = some []) :
    layout = .variable := by
  obtain ⟨bytes, -, nonempty, -, -, -, -, width⟩ := byteLiteral_eq_some noCalendar row.env bytesOf
  cases layout with
  | «variable» => rfl
  | fixed size =>
      have sized := row.width node column size found [] empty
      rw [width size rfl] at sized
      exact absurd (List.length_eq_zero_iff.mp (Int.ofNat.inj sized)) nonempty

/-- Where the empty value cannot be kept, the raw bytes keep a row as the text does. -/
theorem BinaryRow.comparison_keeps (found : binaryColumn columns node = some (column, layout))
    (bytesOf : byteLiteral literal layout = some value)
    (dropsEmpty : layout = .variable → admitsEmpty op = false) :
    reading.comparison op ((rawBytes column).eval reading row.env)
    (reading.literal value) = some true ↔
      reading.comparison op (node.eval reading row.env) (literal.eval reading row.env) =
        some true := by
  by_cases empty : row.bytes column = some []
  · rw [row.comparison_empty_text reading found empty,
      row.comparison_empty_raw reading found bytesOf empty,
      dropsEmpty (row.layout_of_empty found bytesOf empty)]
    exact iff_of_false (by decide) (by decide)
  · rw [row.comparison_eq reading found bytesOf empty]

/-- With the test for the empty value, an operator that holds on it keeps a row as the text
does. -/
theorem BinaryRow.nonEmptyBytes_keeps (found : binaryColumn columns node = some (column, layout))
    (bytesOf : byteLiteral literal layout = some value) :
    (Node.predicateAnd [.comparison op (rawBytes column) (.literal value),
      nonEmptyBytes column]).truth
        reading row.env = some true ↔
      reading.comparison op (node.eval reading row.env) (literal.eval reading row.env) =
        some true := by
  have tested : (nonEmptyBytes column).truth reading row.env =
      reading.comparison .notEqual ((row.bytes column).elim .null .bytes) (.bytes []) := by
    rw [← row.eval_rawBytes reading found]
    exact Node.truth_comparison reading row.env .notEqual _ _
  have compared : (Node.comparison op (rawBytes column) (.literal value)).truth reading row.env =
      reading.comparison op ((rawBytes column).eval reading row.env) (reading.literal value) :=
    Node.truth_comparison reading row.env op _ _
  rw [Node.truth_predicateAnd, List.map_cons, List.map_singleton, tested, compared,
    Truth.all_eq_true,
    List.forall_mem_cons, List.forall_mem_singleton]
  by_cases empty : row.bytes column = some []
  · have dropped : reading.comparison .notEqual (.bytes []) (.bytes []) = some false := rfl
    rw [row.comparison_empty_text reading found empty, empty]
    exact iff_of_false (fun kept => absurd (dropped.symm.trans kept.2) (by decide)) (by decide)
  · rw [row.comparison_eq reading found bytesOf empty]
    refine and_iff_left_of_imp fun kept => ?_
    rw [row.eval_column reading found] at kept
    cases present : row.bytes column with
    | none =>
        rw [present, hexText, Option.elim_none, reading.comparison_null_left] at kept
        exact absurd kept (by decide)
    | some list =>
        cases list with
        | nil => exact absurd present empty
        | cons byte rest => rfl

/-- A membership test keeps no empty value. -/
theorem BinaryRow.inConstlist_keeps {arguments : List Node} {values : List Literal}
    (found : binaryColumn columns node = some (column, layout))
    (converted : List.Forall₂ (fun argument value => byteLiteral argument layout = some value)
      arguments values) :
    (Node.predicateInConstlist (rawBytes column) (values.map .literal)).truth reading row.env =
      some true ↔
      (Node.predicateInConstlist node arguments).truth reading row.env = some true := by
  rw [Node.truth_predicateInConstlist, Node.truth_predicateInConstlist, Truth.any_eq_true,
    Truth.any_eq_true]
  induction converted with
  | nil => rfl
  | @cons argument value arguments values head rest ih =>
      obtain ⟨_, -, -, -, present, valued, -⟩ := byteLiteral_eq_some reading row.env head
      have same := @BinaryRow.comparison_keeps _ _ row reading _ _ _ _ _ .equal found head fun _ =>
        rfl
      have kept : (Node.literal value).isNullLiteral = false := valued
      rw [List.map_cons, List.filter_cons_of_pos (by rw [kept]; rfl), List.filter_cons_of_pos
        (by rw [present]; rfl),
        List.map_cons, List.map_cons, List.mem_cons, List.mem_cons, ih]
      exact or_congr_left (eq_comm.trans (same.trans eq_comm))

/-- The lower bound of a range keeps no empty value. -/
theorem BinaryRow.between_keeps {left right : Node} {low high : Literal}
    (found : binaryColumn columns node = some (column, layout))
    (lowOf : byteLiteral left layout = some low) (highOf : byteLiteral right layout = some high) :
    (Node.predicateBetween (rawBytes column) (.literal low) (.literal high)).truth reading row.env =
        some true ↔
      (Node.predicateBetween node left right).truth reading row.env = some true := by
  rw [Node.truth_predicateBetween, Node.truth_predicateBetween, Truth.and_eq_true,
    Truth.and_eq_true]
  change reading.comparison .greaterEqual _ (reading.literal low) = some true ∧
    reading.comparison .lessEqual _ (reading.literal high) = some true ↔ _
  by_cases empty : row.bytes column = some []
  · rw [row.comparison_empty_raw reading found lowOf empty,
      row.comparison_empty_text reading found empty]
    exact iff_of_false (fun kept => absurd kept.1 (by decide))
      (fun kept => absurd kept.1 (by decide))
  · rw [row.comparison_eq reading found lowOf empty, row.comparison_eq reading found highOf empty]

/-- A comparison seen from its binary column. -/
theorem BinaryRow.comparison_of_operand {left right : Node} {seen : Comparison}
    (operands : binaryOperand columns op left right = some ((column, layout), literal, seen))
    (bytesOf : byteLiteral literal layout = some value) :
    ∃ node, binaryColumn columns node = some (column, layout) ∧
      reading.comparison op (left.eval reading row.env) (right.eval reading row.env) =
        reading.comparison seen (node.eval reading row.env) (literal.eval reading row.env) := by
  unfold binaryOperand at operands
  cases found : binaryColumn columns left with
  | some pair =>
      rw [found] at operands
      cases operands
      exact ⟨left, found, rfl⟩
  | none =>
      rw [found] at operands
      obtain ⟨pair, foundRight, same⟩ := Option.map_eq_some_iff.mp operands
      cases same
      refine ⟨right, foundRight, ?_⟩
      obtain ⟨bytes, -, -, text, -⟩ := byteLiteral_eq_some reading row.env bytesOf
      rw [text, row.eval_column reading foundRight]
      exact comparison_swapped_text reading op _ _

theorem BinaryRow.byteComparison_keeps {rewritten : Node}
    (found : byteComparison columns node = some rewritten) :
    rewritten.truth reading row.env = some true ↔ node.truth reading row.env = some true := by
  cases node with
  | predicateInConstlist expression arguments =>
      obtain ⟨⟨column, layout⟩, isColumn, found⟩ := Option.bind_eq_some_iff.mp found
      obtain ⟨values, converted, found⟩ := Option.bind_eq_some_iff.mp found
      cases found
      exact row.inConstlist_keeps reading isColumn (forall₂_of_mapM converted)
  | predicateBetween expression left right =>
      obtain ⟨⟨column, layout⟩, isColumn, found⟩ := Option.bind_eq_some_iff.mp found
      obtain ⟨low, lowOf, found⟩ := Option.bind_eq_some_iff.mp found
      obtain ⟨high, highOf, found⟩ := Option.bind_eq_some_iff.mp found
      cases found
      exact row.between_keeps reading isColumn lowOf highOf
  | comparison op left right =>
      obtain ⟨⟨⟨column, layout⟩, literal, seen⟩, operands, found⟩ :=
        Option.bind_eq_some_iff.mp found
      obtain ⟨value, bytesOf, found⟩ := Option.bind_eq_some_iff.mp found
      obtain ⟨node, isColumn, same⟩ := row.comparison_of_operand reading operands bytesOf
      rw [Node.truth_comparison, same]
      simp only at found
      split at found
      · cases found
        exact row.nonEmptyBytes_keeps reading isColumn bytesOf
      · next dropped =>
          cases found
          rw [Node.truth_comparison]
          refine row.comparison_keeps reading isColumn bytesOf fun isVariable => ?_
          exact Bool.eq_false_of_not_eq_true fun admits => dropped ⟨isVariable, admits⟩
  | _ => exact absurd found (by simp [byteComparison])

theorem BinaryRow.getD_keeps (node : Node) :
    ((byteComparison columns node).getD node).truth reading row.env = some true ↔
      node.truth reading row.env = some true := by
  cases found : byteComparison columns node with
  | none => rfl
  | some rewritten => exact row.byteComparison_keeps reading found

/-- The rewritten filter keeps exactly the rows the filter keeps over the text. -/
theorem BinaryRow.compareBinaryBytes_keeps (node : Node) :
    (compareBinaryBytes columns node).truth reading row.env = some true ↔
      node.truth reading row.env = some true := by
  induction node using Node.inductOnChildren with
  | step node ih =>
      cases node with
      | predicateAnd expressions =>
          rw [compareBinaryBytes, compareEach_eq_map, Node.truth_predicateAnd,
            Node.truth_predicateAnd,
            Truth.all_eq_true, Truth.all_eq_true]
          simp only [List.forall_mem_map]
          exact forall₂_congr ih
      | predicateOr expressions =>
          rw [compareBinaryBytes, compareEach_eq_map, Node.truth_predicateOr,
            Node.truth_predicateOr,
            Truth.any_eq_true, Truth.any_eq_true]
          simp only [List.mem_map, exists_exists_and_eq_and]
          exact exists_congr fun child => and_congr_right fun member => ih child member
      | _ =>
          unfold compareBinaryBytes
          exact row.getD_keeps reading _

end Keeps

end LakehouseEngine
