import LakehouseEngine.Pushdown.Format.FilterJson
import LakehouseEngine.Pushdown.Format.LiteralBound
import LakehouseEngine.Pushdown.Format.Translated
import LakehouseEngine.Types.Mapping

/-!
# Iceberg predicates

The predicate by which an Iceberg scan skips data files, and the conversion of a literal
to a value of the column's type.
-/

namespace LakehouseEngine

namespace Iceberg

open BinaryFloat

/-- `iceberg::spec::PrimitiveType`. -/
inductive PrimitiveType where
  | boolean | int | long | float | double
  | decimal (precision scale : Nat)
  | date | time | timestamp | timestamptz | timestampNs | timestamptzNs
  | string | uuid
  | fixed (width : Nat)
  | binary
  deriving DecidableEq

/-- The values of a column that are not NULL. -/
def PrimitiveType.Holds : PrimitiveType → Value → Prop
  | .boolean, .bool _ => True
  | .int, .num value => ∃ exact : ℤ, value = exact ∧ fitsInt 32 exact
  | .long, .num value => ∃ exact : ℤ, value = exact ∧ fitsInt 64 exact
  | .float, value => IsFloat binary32 value
  | .double, value => IsFloat binary64 value
  | .decimal _ scale, .num value => Text.HasDigits scale value
  | .date, .date _ => True
  | .time, value => value ≠ .null
  | .timestamp, .timestamp seconds | .timestamptz, .timestamp seconds => Text.HasDigits 6 seconds
  | .timestampNs, .timestamp seconds | .timestamptzNs, .timestamp seconds =>
      Text.HasDigits 9 seconds
  | .string, .text _ => True
  | .uuid, .bytes bytes => bytes.length = 16
  | .fixed width, .bytes bytes => bytes.length = width
  | .binary, .bytes _ => True
  | _, _ => False

/-- `iceberg::spec::Datum`, for the types a literal converts to. -/
inductive Datum where
  | bool (value : Bool)
  | int (value : ℤ)
  | long (value : ℤ)
  | float (value : Rounded)
  | double (value : Rounded)
  | string (value : String)
  | date (days : ℤ)
  | timestamp (micros : ℤ)
  | timestamptz (micros : ℤ)
  | timestampNanos (nanos : ℤ)
  | timestamptzNanos (nanos : ℤ)
  | binary (bytes : List Nat)
  | fixed (bytes : List Nat)

def Datum.value : Datum → Value
  | .bool value => .bool value
  | .int value | .long value => .num value
  | .float value | .double value => value.value
  | .string value => .text value
  | .date days => .date days
  | .timestamp micros | .timestamptz micros => .timestamp (micros / 10 ^ 6)
  | .timestampNanos nanos | .timestamptzNanos nanos => .timestamp (nanos / 10 ^ 9)
  | .binary bytes | .fixed bytes => .bytes bytes

/-- The calendar parsers of the `iceberg` crate: days of a date, microseconds of a
timestamp. -/
structure DatumParser where
  dateFromStr : String → Option ℤ
  timestampFromStr : String → Option ℤ
  timestamptzFromStr : String → Option ℤ

/-- The parser wants a `T` between date and time. -/
def isoText (text : String) : String :=
  if 'T' ∈ text.toList then text
  else
    match Text.splitOnce ' ' text.toList with
    | none => text
    | some (date, time) => String.ofList (date ++ 'T' :: time)

/-- Only the final six bytes are checked, so a `-` inside the date is not an offset. -/
def hasTzOffset (text : String) : Bool :=
  let bytes := text.toUTF8.toList
  let tail := bytes.drop (bytes.length - 6)
  text.toList.getLast? == some 'Z' ||
    (tail.head? == some '+'.toUInt8 || tail.head? == some '-'.toUInt8) &&
      tail.contains ':'.toUInt8

def zonedText (text : String) : String :=
  if hasTzOffset text then text else text ++ "+00:00"

/-- Nanoseconds of a count of microseconds, within 64 bits. -/
def nanosOf (micros : ℤ) : Option ℤ := some (micros * 1000) |>.filter (fitsInt 64)

def parseTimestampNoTz (parser : DatumParser) (text : String) : PrimitiveType → Option Datum
  | .timestamp => (parser.timestampFromStr (isoText text)).map .timestamp
  | .timestampNs => do
      let micros ← parser.timestampFromStr (isoText text)
      return .timestampNanos (← nanosOf micros)
  | _ => none

def parseTimestamptz (parser : DatumParser) (text : String) : PrimitiveType → Option Datum
  | .timestamptz => (parser.timestamptzFromStr (zonedText text)).map .timestamptz
  | .timestamptzNs => do
      let micros ← parser.timestamptzFromStr (zonedText text)
      return .timestamptzNanos (← nanosOf micros)
  | _ => none

/-- The text of a timestamp literal, unless it is finer than the microseconds the parser
keeps. -/
def microsecondText (value : JsonScalar) : Option String := do
  let text ← value.asStr
  if timestampLiteralDigits text.toList ≤ 6 then some text else none

/-- The literal as a value of the column's type. -/
def datumOf (parser : DatumParser) (lit : Literal) : PrimitiveType → Option Datum
  | .boolean =>
      if lit.kind = .bool ∧ lit.value ≠ .null then some (.bool lit.value.truthy) else none
  | .int => if lit.kind.isNumeric then (parseInt 32 lit.value).map .int else none
  | .long => if lit.kind.isNumeric then (parseInt 64 lit.value).map .long else none
  | .float =>
      if lit.kind.isNumeric then (parseF64 lit.value).map fun wide => .float (toF32 wide) else none
  | .double => if lit.kind.isNumeric then (parseF64 lit.value).map .double else none
  | .string => if lit.kind = .string then lit.value.asStr.map .string else none
  | .date =>
      if lit.kind = .date then (lit.value.asStr.bind parser.dateFromStr).map .date else none
  | .timestamp =>
      if lit.kind = .timestamp then
        (microsecondText lit.value).bind (parseTimestampNoTz parser · .timestamp)
      else none
  | .timestampNs =>
      if lit.kind = .timestamp then
        (microsecondText lit.value).bind (parseTimestampNoTz parser · .timestampNs)
      else none
  | .timestamptz =>
      if lit.kind = .timestampUtc then
        (microsecondText lit.value).bind (parseTimestamptz parser · .timestamptz)
      else none
  | .timestamptzNs =>
      if lit.kind = .timestampUtc then
        (microsecondText lit.value).bind (parseTimestamptz parser · .timestamptzNs)
      else none
  | .binary => if lit.kind = .binary then (literalBinaryBytes lit).map .binary else none
  | .fixed width =>
      if lit.kind = .binary then
        ((literalBinaryBytes lit).filter (·.length = width)).map .fixed
      else none
  -- writers disagree on the order of `uuid` bounds, and the other types take no literal
  | .decimal _ _ | .time | .uuid => none

def literalToDatum (parser : DatumParser) (node : Node) (prim : PrimitiveType) : Option Datum :=
  match node with
  | .literal lit => datumOf parser lit prim
  | _ => none

/-- `iceberg::expr::Predicate`, without the constructors the translation never builds. -/
inductive Predicate where
  | isNull (name : String)
  | isNotNull (name : String)
  | binary (op : Comparison) (name : String) (datum : Datum)
  | isIn (name : String) (datums : List Datum)
  | isNotIn (name : String) (datums : List Datum)
  | and (left right : Predicate)
  | or (left right : Predicate)

namespace Predicate

/-- `Predicate::negate`, which pushes the negation to the leaves. -/
def negate : Predicate → Predicate
  | .isNull name => .isNotNull name
  | .isNotNull name => .isNull name
  | .binary op name datum => .binary op.negated name datum
  | .isIn name datums => .isNotIn name datums
  | .isNotIn name datums => .isIn name datums
  | .and left right => .or left.negate right.negate
  | .or left right => .and left.negate right.negate

/-- The predicate on a row of the table. -/
def holds (row : String → Value) : Predicate → Truth
  | .isNull name => some (row name).isNull
  | .isNotNull name => some (!(row name).isNull)
  | .binary op name datum => ((row name).order datum.value).map op.holds
  | .isIn name datums =>
      .any (datums.map fun datum => ((row name).order datum.value).map Comparison.equal.holds)
  | .isNotIn name datums =>
      .not (.any (datums.map fun datum =>
        ((row name).order datum.value).map Comparison.equal.holds))
  | .and left right => .and (left.holds row) (right.holds row)
  | .or left right => .or (left.holds row) (right.holds row)

theorem holds_negate (row : String → Value) (predicate : Predicate) :
    predicate.negate.holds row = (predicate.holds row).not := by
  induction predicate with
  | isNull name => rfl
  | isNotNull name => simp [negate, holds, Truth.not]
  | binary op name datum =>
      simp only [negate, holds]
      cases (row name).order datum.value with
      | none => rfl
      | some ordering => simp [Truth.not, Comparison.holds_negated]
  | isIn name datums => rfl
  | isNotIn name datums => simp [negate, holds]
  | and left right leftHolds rightHolds =>
      simp only [negate, holds, leftHolds, rightHolds, Truth.not_and]
  | or left right leftHolds rightHolds =>
      simp only [negate, holds, leftHolds, rightHolds, Truth.not_or]

/-- `Iterator::reduce`. -/
def reduce (join : Predicate → Predicate → Predicate) : List Predicate → Option Predicate
  | [] => none
  | first :: rest => some (rest.foldl join first)

theorem holds_foldl_and (row : String → Value) (first : Predicate) (rest : List Predicate) :
    (rest.foldl and first).holds row = .and (first.holds row) (.all (rest.map (holds row))) := by
  induction rest generalizing first with
  | nil => simp
  | cons second rest ih =>
      rw [List.foldl_cons, ih, List.map_cons, Truth.all_cons, ← Truth.and_assoc]
      rfl

theorem holds_foldl_or (row : String → Value) (first : Predicate) (rest : List Predicate) :
    (rest.foldl or first).holds row = .or (first.holds row) (.any (rest.map (holds row))) := by
  induction rest generalizing first with
  | nil => simp
  | cons second rest ih =>
      rw [List.foldl_cons, ih, List.map_cons, Truth.any_cons, ← Truth.or_assoc]
      rfl

end Predicate

/-- A declared column and the field id it is bound by. -/
structure LogicalField where
  name : String
  fieldId : Option ℤ

/-- A field of the scanned schema.  A nested one has no primitive type. -/
structure NestedField where
  id : ℤ
  name : String
  primitive : Option PrimitiveType

/-- The scanned schema, whose fields have distinct full names. -/
structure Schema where
  fields : List NestedField
  distinct : (fields.map NestedField.name).Nodup

/-- Resolves a filter column through its declared field id to the scanned field. -/
structure FilterColumns where
  declared : List LogicalField
  scanned : Schema

variable [Unicode]

namespace FilterColumns

/-- The scanned field that carries the declared column's field id. -/
def field (columns : FilterColumns) (column : ColumnNode) : Option NestedField := do
  let declared ← columns.declared.find? fun field => upper field.name == column.upperName
  let fieldId ← declared.fieldId
  columns.scanned.fields.find? fun field => field.id == fieldId

def resolve (columns : FilterColumns) : Node → Option (String × PrimitiveType)
  | .column column => do
      let field ← columns.field column
      return (field.name, ← field.primitive)
  | _ => none

end FilterColumns

def flipOperator : Comparison → Option Comparison
  | .notEqual => none
  | op => some op.withOperandsSwapped

/-- The column, the literal and the comparison read with the column on the left. -/
def binaryOperands (columns : FilterColumns) (op : Comparison) (left right : Node) :
    Option ((String × PrimitiveType) × Node × Comparison) :=
  match columns.resolve left with
  | some column => some (column, right, op)
  | none => do
      let column ← columns.resolve right
      return (column, left, ← flipOperator op)

section Translation

variable (parser : DatumParser) (columns : FilterColumns)

def translateBinary (op : Comparison) (left right : Node) : Option (Translated Predicate) := do
  let ((name, prim), literal, op) ← binaryOperands columns op left right
  let datum ← literalToDatum parser literal prim
  return .ofExact (.binary op name datum)

def translateIn (expression : Node) (arguments : List Node) : Option (Translated Predicate) := do
  let (name, prim) ← columns.resolve expression
  let arguments ← nonEmpty arguments
  let datums ← arguments.mapM (literalToDatum parser · prim)
  return .ofExact (.isIn name datums)

/-- Either bound alone is implied, so a failed bound drops only its own conjunct. -/
def translateBetween (expression left right : Node) : Option (Translated Predicate) := do
  let (name, prim) ← columns.resolve expression
  let low := (literalToDatum parser left prim).map fun datum =>
    Translated.ofExact (Predicate.binary .greaterEqual name datum)
  let high := (literalToDatum parser right prim).map fun datum =>
    Translated.ofExact (Predicate.binary .lessEqual name datum)
  Translated.foldAnd (Predicate.reduce .and) [low, high]

def translateLeaf : Node → Option (Translated Predicate)
  -- not soundly prunable to a single range
  | .comparison .notEqual _ _ => none
  | .comparison op left right => translateBinary parser columns op left right
  | .predicateIsNull expression => do
      let (name, _) ← columns.resolve expression
      return .ofExact (.isNull name)
  | .predicateIsNotNull expression => do
      let (name, _) ← columns.resolve expression
      return .ofExact (.isNotNull name)
  | .predicateInConstlist expression arguments => translateIn parser columns expression arguments
  | .predicateBetween expression left right =>
      translateBetween parser columns expression left right
  | _ => none

def translator : Translator Predicate where
  leaf := translateLeaf parser columns
  conjoin := Predicate.reduce .and
  disjoin := Predicate.reduce .or
  negate := Predicate.negate

/-- `none` means no constraint: every file is scanned. -/
def toIcebergPredicate (filter : Node) : Option Predicate :=
  ((translator parser columns).translate filter).map Translated.predicate

theorem translator_lawful (row : String → Value) :
    (translator parser columns).Lawful (Predicate.holds row) where
  conjoin predicates predicate found := by
    cases predicates with
    | nil => simp [translator, Predicate.reduce] at found
    | cons first rest =>
        cases found
        exact Predicate.holds_foldl_and row first rest
  disjoin predicates predicate found := by
    cases predicates with
    | nil => simp [translator, Predicate.reduce] at found
    | cons first rest =>
        cases found
        exact Predicate.holds_foldl_or row first rest
  negate := Predicate.holds_negate row

end Translation

/-- The parsers read what the literal says, cut to microseconds. -/
structure DatumParser.Exact (parser : DatumParser) (reading : Reading) : Prop where
  date : ∀ text days exact, parser.dateFromStr text = some days →
    reading.date text.toList = some exact → days = exact
  timestamp : ∀ text micros seconds, parser.timestampFromStr (isoText text) = some micros →
    reading.timestamp text.toList = some seconds → micros = ⌊seconds * 10 ^ 6⌋
  timestamptz : ∀ text micros seconds, parser.timestamptzFromStr (zonedText text) = some micros →
    reading.timestamp text.toList = some seconds → micros = ⌊seconds * 10 ^ 6⌋

section Literals

omit [Unicode]

variable {parser : DatumParser} {reading : Reading}

theorem microsecondText_eq_some {value : JsonScalar} {text : String}
    (found : microsecondText value = some text) :
    value.asStr = some text ∧ timestampLiteralDigits text.toList ≤ 6 := by
  simp only [microsecondText, Option.bind_eq_bind, Option.bind_eq_some_iff] at found
  obtain ⟨inner, string, digits⟩ := found
  split at digits
  · next short =>
      cases digits
      exact ⟨string, short⟩
  · simp at digits

theorem PrimitiveType.Holds.comparable {prim : PrimitiveType} (ordered : prim ≠ .time)
    {left right : Value} (leftHolds : prim.Holds left) (rightHolds : prim.Holds right) :
    ∃ seen, left.order right = some seen := by
  cases prim with
  | time => exact absurd rfl ordered
  | _ =>
      cases left <;> first
        | exact leftHolds.elim
        | (cases right <;> first | exact ⟨_, rfl⟩ | exact rightHolds.elim)

theorem PrimitiveType.Holds.standsFor {prim : PrimitiveType} (ordered : prim ≠ .time)
    {bound : Value} (holds : prim.Holds bound) (present : bound ≠ .null) :
    StandsFor prim.Holds bound bound .eq :=
  standsFor_self holds (fun _ rowHolds => rowHolds.comparable ordered holds)
    (Value.order_self present)

theorem nanosOf_value {micros nanos : ℤ} (scaled : nanosOf micros = some nanos) :
    (micros : ℚ) / 10 ^ 6 = nanos / 10 ^ 9 := by
  obtain ⟨product, -⟩ := Option.filter_eq_some_iff.mp scaled
  cases product
  push_cast
  ring

/-- A literal converts to a bound that stands for it. -/
theorem datumOf_standsFor (exact : parser.Exact reading) {lit : Literal} {prim : PrimitiveType}
    {datum : Datum} (found : datumOf parser lit prim = some datum)
    (readable : lit.isNull = false → reading.literal lit ≠ .null) :
    lit.isNull = false ∧ ∃ shift, StandsFor prim.Holds (reading.literal lit) datum.value shift := by
  -- all but the floating-point types convert without loss
  have lossless (ordered : prim ≠ .time) (holds : prim.Holds datum.value)
      (value : lit.isNull = false ∧ reading.literal lit = datum.value) :
      lit.isNull = false ∧
        ∃ shift, StandsFor prim.Holds (reading.literal lit) datum.value shift := by
    refine ⟨value.1, .eq, ?_⟩
    rw [value.2]
    refine holds.standsFor ordered ?_
    rw [← value.2]
    exact readable value.1
  cases prim with
  | boolean =>
      simp only [datumOf] at found
      split at found
      · next isBool =>
          cases found
          obtain ⟨flag, spelled, value⟩ := bool_literal isBool.1 isBool.2 readable
          rw [JsonScalar.truthy_of_asBool spelled] at lossless ⊢
          exact lossless (by simp) trivial value
      · simp at found
  | int =>
      simp only [datumOf] at found
      split at found
      · next numeric =>
          obtain ⟨value, parsed, rfl⟩ := Option.map_eq_some_iff.mp found
          exact lossless (by simp) ⟨value, rfl, parseInt_fits parsed⟩
            (literal_of_exactNumber reading numeric (parseInt_exact parsed))
      · simp at found
  | long =>
      simp only [datumOf] at found
      split at found
      · next numeric =>
          obtain ⟨value, parsed, rfl⟩ := Option.map_eq_some_iff.mp found
          exact lossless (by simp) ⟨value, rfl, parseInt_fits parsed⟩
            (literal_of_exactNumber reading numeric (parseInt_exact parsed))
      · simp at found
  | float =>
      simp only [datumOf] at found
      split at found
      · next numeric =>
          obtain ⟨wide, parsed, rfl⟩ := Option.map_eq_some_iff.mp found
          obtain ⟨number, read, rfl⟩ := parseF64_rounds parsed
          obtain ⟨present, value⟩ := literal_of_exactNumber reading numeric read
          rw [value]
          exact ⟨present, standsFor_of_separates (toF32_separates (Format.round_separates number))⟩
      · simp at found
  | double =>
      simp only [datumOf] at found
      split at found
      · next numeric =>
          obtain ⟨wide, parsed, rfl⟩ := Option.map_eq_some_iff.mp found
          obtain ⟨number, read, rfl⟩ := parseF64_rounds parsed
          obtain ⟨present, value⟩ := literal_of_exactNumber reading numeric read
          rw [value]
          exact ⟨present, standsFor_of_separates (Format.round_separates number)⟩
      · simp at found
  | string =>
      simp only [datumOf] at found
      split at found
      · next isString =>
          obtain ⟨text, string, rfl⟩ := Option.map_eq_some_iff.mp found
          exact lossless (by simp) trivial (string_literal reading isString string)
      · simp at found
  | date =>
      simp only [datumOf] at found
      split at found
      · next isDate =>
          obtain ⟨days, parsed, rfl⟩ := Option.map_eq_some_iff.mp found
          obtain ⟨text, string, read⟩ := Option.bind_eq_some_iff.mp parsed
          exact lossless (by simp) trivial (date_literal isDate string readable
            fun exactDays => exact.date text days exactDays read)
      · simp at found
  | timestamp =>
      simp only [datumOf] at found
      split at found
      · next isTimestamp =>
          obtain ⟨text, short, parsed⟩ := Option.bind_eq_some_iff.mp found
          obtain ⟨micros, read, rfl⟩ := Option.map_eq_some_iff.mp parsed
          obtain ⟨present, valued, digits⟩ := timestamp_literal (.inl isTimestamp)
            (microsecondText_eq_some short) readable
            fun seconds => exact.timestamp text micros seconds read
          exact lossless (by simp) digits ⟨present, valued⟩
      · simp at found
  | timestamptz =>
      simp only [datumOf] at found
      split at found
      · next isTimestamp =>
          obtain ⟨text, short, parsed⟩ := Option.bind_eq_some_iff.mp found
          obtain ⟨micros, read, rfl⟩ := Option.map_eq_some_iff.mp parsed
          obtain ⟨present, valued, digits⟩ := timestamp_literal (.inr isTimestamp)
            (microsecondText_eq_some short) readable
            fun seconds => exact.timestamptz text micros seconds read
          exact lossless (by simp) digits ⟨present, valued⟩
      · simp at found
  | timestampNs =>
      simp only [datumOf] at found
      split at found
      · next isTimestamp =>
          obtain ⟨text, short, parsed⟩ := Option.bind_eq_some_iff.mp found
          simp only [parseTimestampNoTz, Option.bind_eq_bind, Option.bind_eq_some_iff,
            Option.pure_def, Option.some.injEq] at parsed
          obtain ⟨micros, read, nanos, scaled, rfl⟩ := parsed
          obtain ⟨present, valued, digits⟩ := timestamp_literal (.inl isTimestamp)
            (microsecondText_eq_some short) readable
            fun seconds => exact.timestamp text micros seconds read
          have same := nanosOf_value scaled
          refine lossless (by simp) ?_ ⟨present, valued.trans (congrArg _ same)⟩
          change Text.HasDigits 9 _
          rw [← same]
          exact digits.mono (by decide)
      · simp at found
  | timestamptzNs =>
      simp only [datumOf] at found
      split at found
      · next isTimestamp =>
          obtain ⟨text, short, parsed⟩ := Option.bind_eq_some_iff.mp found
          simp only [parseTimestamptz, Option.bind_eq_bind, Option.bind_eq_some_iff,
            Option.pure_def, Option.some.injEq] at parsed
          obtain ⟨micros, read, nanos, scaled, rfl⟩ := parsed
          obtain ⟨present, valued, digits⟩ := timestamp_literal (.inr isTimestamp)
            (microsecondText_eq_some short) readable
            fun seconds => exact.timestamptz text micros seconds read
          have same := nanosOf_value scaled
          refine lossless (by simp) ?_ ⟨present, valued.trans (congrArg _ same)⟩
          change Text.HasDigits 9 _
          rw [← same]
          exact digits.mono (by decide)
      · simp at found
  | binary =>
      simp only [datumOf] at found
      split at found
      · next isBinary =>
          obtain ⟨bytes, decoded, rfl⟩ := Option.map_eq_some_iff.mp found
          exact lossless (by simp) trivial (binary_literal reading isBinary decoded)
      · simp at found
  | fixed size =>
      simp only [datumOf] at found
      split at found
      · next isBinary =>
          obtain ⟨bytes, filtered, rfl⟩ := Option.map_eq_some_iff.mp found
          obtain ⟨decoded, sized⟩ := Option.filter_eq_some_iff.mp filtered
          have width : bytes.length = size := of_decide_eq_true sized
          exact lossless (by simp) width (binary_literal reading isBinary decoded)
      · simp at found
  | _ => simp [datumOf] at found

end Literals

end Iceberg

end LakehouseEngine
