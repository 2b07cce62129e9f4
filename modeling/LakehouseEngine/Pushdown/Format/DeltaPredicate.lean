import LakehouseEngine.Pushdown.Format.FilterJson
import LakehouseEngine.Pushdown.Format.LiteralBound
import LakehouseEngine.Pushdown.Format.Translated
import LakehouseEngine.Types.Mapping

/-!
# Delta predicates

The predicate by which a Delta scan skips data files, and the conversion of a literal to
a scalar of the column's type.  A decimal literal is aligned to the column's scale digit
by digit, so one that is finer than the column has no scalar.
-/

namespace LakehouseEngine

namespace Delta

open BinaryFloat

/-- `delta_kernel::schema::PrimitiveType`. -/
inductive PrimitiveType where
  | string | long | integer | short | byte | float | double | boolean | binary
  | date | timestamp | timestampNtz
  | decimal (precision scale : Nat)
  deriving DecidableEq

/-- The values of a column that are not NULL. -/
def PrimitiveType.Holds : PrimitiveType → Value → Prop
  | .string, .text _ => True
  | .long, .num value => ∃ exact : ℤ, value = exact ∧ fitsInt 64 exact
  | .integer, .num value => ∃ exact : ℤ, value = exact ∧ fitsInt 32 exact
  | .short, .num value => ∃ exact : ℤ, value = exact ∧ fitsInt 16 exact
  | .byte, .num value => ∃ exact : ℤ, value = exact ∧ fitsInt 8 exact
  | .float, value => IsFloat binary32 value
  | .double, value => IsFloat binary64 value
  | .boolean, .bool _ => True
  | .binary, .bytes _ => True
  | .date, .date _ => True
  | .timestamp, .timestamp seconds | .timestampNtz, .timestamp seconds => Text.HasDigits 6 seconds
  | .decimal _ scale, .num value => Text.HasDigits scale value
  | _, _ => False

/-- `delta_kernel::expressions::Scalar`, for the types a literal converts to.  A decimal
carries its unscaled digits. -/
inductive Scalar where
  | integer (value : ℤ)
  | long (value : ℤ)
  | short (value : ℤ)
  | byte (value : ℤ)
  | float (value : Rounded)
  | double (value : Rounded)
  | string (value : String)
  | boolean (value : Bool)
  | timestamp (micros : ℤ)
  | timestampNtz (micros : ℤ)
  | date (days : ℤ)
  | binary (bytes : List Nat)
  | decimal (bits : ℤ) (precision scale : Nat)

def Scalar.value : Scalar → Value
  | .integer value | .long value | .short value | .byte value => .num value
  | .float value | .double value => value.value
  | .string value => .text value
  | .boolean value => .bool value
  | .timestamp micros | .timestampNtz micros => .timestamp (micros / 10 ^ 6)
  | .date days => .date days
  | .binary bytes => .bytes bytes
  | .decimal bits _ scale => .num (bits / 10 ^ scale)

/-- `PrimitiveType::parse_scalar` of the kernel, for its calendar types: days of a date,
microseconds of a timestamp. -/
structure ScalarParser where
  date : String → Option ℤ
  timestamp : String → Option ℤ
  timestampNtz : String → Option ℤ

/-- Only `true` and `false`, in any case, and the integers 1 and 0. -/
def parseBool : JsonScalar → Option Bool
  | .bool value => some value
  | .string text =>
      let lower := text.toList.map Char.toLower
      if lower = "true".toList then some true
      else if lower = "false".toList then some false
      else none
  | .number number =>
      if number.asI64 = some 1 then some true
      else if number.asI64 = some 0 then some false
      else none
  | .null => none

/-- A `digits[.digits][e…]` text as unscaled digits and scale.  The digits must fit 128
bits, exponent and scale 32. -/
def splitDecimal (raw : List Char) : Option (ℤ × ℤ) := do
  let (mantissa, marker) := Text.splitExponent raw
  let exponent ← (marker.map fun text => (Text.integerValue text).filter (fitsInt 32)).getD (some 0)
  let (whole, fraction) := (Text.splitOnce '.' mantissa).getD (mantissa, [])
  let unscaled ← (Text.integerValue (whole ++ fraction)).filter (fitsInt 128)
  let length ← (some (fraction.length : ℤ)).filter (fitsInt 32)
  let scale ← (some (length - exponent)).filter (fitsInt 32)
  return (unscaled, scale)

/-- The digits at another scale, unless digits are lost or 128 bits are exceeded. -/
def rescale (unscaled source target : ℤ) : Option ℤ := do
  let shift ← (some (target - source)).filter (fitsInt 32)
  let factor ← (some ((10 : ℤ) ^ shift.natAbs)).filter (fitsInt 128)
  if 0 ≤ shift then
    (some (unscaled * factor)).filter (fitsInt 128)
  else
    let quotient := unscaled.tdiv factor
    if quotient * factor = unscaled then some quotient else none

/-- `DecimalData::try_new` accepts as many digits as the type's precision. -/
def decimalData (bits : ℤ) (precision scale : Nat) : Option Scalar :=
  if bits.natAbs < 10 ^ precision then some (.decimal bits precision scale) else none

/-- The text of a decimal literal.  A JSON number has no white space to trim. -/
def decimalText : JsonScalar → Option (List Char)
  | .number number => some (WhiteSpace.trim number.text.toList)
  | .string text => some (WhiteSpace.trim text.toList)
  | _ => none

def parseDecimal (value : JsonScalar) (precision scale : Nat) : Option Scalar := do
  let raw ← decimalText value
  let (unscaled, source) ← splitDecimal raw
  let aligned ← rescale unscaled source scale
  decimalData aligned precision scale

/-- The text of a calendar literal, unless it is finer than microseconds. -/
def microsecondText (value : JsonScalar) : Option String := do
  let text ← nonEmptyStr value
  if timestampLiteralDigits text.toList ≤ 6 then some text else none

/-- The literal as a scalar of the column's type. -/
def scalarOf (parser : ScalarParser) (lit : Literal) : PrimitiveType → Option Scalar
  | .boolean => if lit.kind = .bool then (parseBool lit.value).map .boolean else none
  | .byte => if lit.kind.isNumeric then (parseInt 8 lit.value).map .byte else none
  | .short => if lit.kind.isNumeric then (parseInt 16 lit.value).map .short else none
  | .integer => if lit.kind.isNumeric then (parseInt 32 lit.value).map .integer else none
  | .long => if lit.kind.isNumeric then (parseInt 64 lit.value).map .long else none
  | .float =>
      if lit.kind.isNumeric then do
        let wide ← parseF64 lit.value
        if toF32 wide = wide then some (.float (toF32 wide)) else none
      else none
  | .double => if lit.kind.isNumeric then (parseF64 lit.value).map .double else none
  | .decimal precision scale =>
      if lit.kind.isNumeric then parseDecimal lit.value precision scale else none
  -- an empty string would parse to a NULL scalar, which constrains nothing
  | .string => if lit.kind = .string then (nonEmptyStr lit.value).map .string else none
  | .date =>
      if lit.kind = .date then ((microsecondText lit.value).bind parser.date).map .date else none
  | .timestamp =>
      if lit.kind = .timestamp ∨ lit.kind = .timestampUtc then
        ((microsecondText lit.value).bind parser.timestamp).map .timestamp
      else none
  | .timestampNtz =>
      if lit.kind = .timestamp then
        ((microsecondText lit.value).bind parser.timestampNtz).map .timestampNtz
      else none
  | .binary => if lit.kind = .binary then (literalBinaryBytes lit).map .binary else none

def literalToScalar (parser : ScalarParser) (node : Node) (prim : PrimitiveType) : Option Scalar :=
  match node with
  | .literal lit => scalarOf parser lit prim
  | _ => none

/-- `delta_kernel::Predicate`, for the predicates the translation builds. -/
inductive Predicate where
  | isNull (name : String)
  | isNotNull (name : String)
  | compare (op : Comparison) (name : String) (scalar : Scalar)
  | not (predicate : Predicate)
  | and (predicates : List Predicate)
  | or (predicates : List Predicate)

namespace Predicate

mutual

/-- The predicate on a row of the table. -/
def holds (row : String → Value) : Predicate → Truth
  | .isNull name => some (row name).isNull
  | .isNotNull name => some (!(row name).isNull)
  | .compare op name scalar => ((row name).order scalar.value).map op.holds
  | .not predicate => .not (holds row predicate)
  | .and predicates => .all (holdsEach row predicates)
  | .or predicates => .any (holdsEach row predicates)

def holdsEach (row : String → Value) : List Predicate → List Truth
  | [] => []
  | predicate :: predicates => holds row predicate :: holdsEach row predicates

end

theorem holdsEach_eq_map (row : String → Value) (predicates : List Predicate) :
    holdsEach row predicates = predicates.map (holds row) := by
  induction predicates with
  | nil => rfl
  | cons predicate predicates ih => rw [holdsEach, ih, List.map_cons]

/-- `and_from` and `or_from`, guarded against an empty junction. -/
def junction (join : List Predicate → Predicate) : List Predicate → Option Predicate
  | [] => none
  | [predicate] => some predicate
  | predicates => some (join predicates)

end Predicate

/-- A field of the current snapshot.  A nested one has no primitive type. -/
structure StructField where
  name : String
  dataType : Option PrimitiveType

/-- Each declared column's name paired with the snapshot field its binding key names. -/
abbrev FilterColumns := List (String × StructField)

section Translation

variable [Unicode] (parser : ScalarParser) (columns : FilterColumns)

def resolveColumn (name : String) : Option (String × PrimitiveType) := do
  let (_, field) ← columns.find? fun (declared, _) => upper declared == upper name
  return (field.name, ← field.dataType)

def translateComparison (op : Comparison) (left right : Node) :
    Option (Translated Predicate) := do
  let (column, literal, op) ← comparisonOperands left right op
  let (name, prim) ← resolveColumn columns column
  let scalar ← literalToScalar parser literal prim
  -- not soundly prunable to a single range
  if op = .notEqual then none else some (.ofExact (.compare op name scalar))

/-- Desugared into equalities because the kernel prunes nothing for a native `IN`. -/
def translateIn (expression : Node) (arguments : List Node) : Option (Translated Predicate) := do
  let column ← columnName expression
  let arguments ← nonEmpty arguments
  let (name, prim) ← resolveColumn columns column
  Translated.foldOr (Predicate.junction .or) (arguments.map fun argument =>
    (literalToScalar parser argument prim).map fun scalar =>
      .ofExact (.compare .equal name scalar))

/-- Either bound alone is implied, so an untranslatable bound is dropped. -/
def translateBetween (expression left right : Node) : Option (Translated Predicate) := do
  let column ← columnName expression
  let (name, prim) ← resolveColumn columns column
  let low := (literalToScalar parser left prim).map fun scalar =>
    Translated.ofExact (Predicate.compare .greaterEqual name scalar)
  let high := (literalToScalar parser right prim).map fun scalar =>
    Translated.ofExact (Predicate.compare .lessEqual name scalar)
  Translated.foldAnd (Predicate.junction .and) [low, high]

def translateLeaf : Node → Option (Translated Predicate)
  | .comparison op left right => translateComparison parser columns op left right
  | .predicateInConstlist expression arguments => translateIn parser columns expression arguments
  | .predicateIsNull expression => do
      let (name, _) ← resolveColumn columns (← columnName expression)
      return .ofExact (.isNull name)
  | .predicateIsNotNull expression => do
      let (name, _) ← resolveColumn columns (← columnName expression)
      return .ofExact (.isNotNull name)
  | .predicateBetween expression left right =>
      translateBetween parser columns expression left right
  | _ => none

def translator : Translator Predicate where
  leaf := translateLeaf parser columns
  conjoin := Predicate.junction .and
  disjoin := Predicate.junction .or
  negate := .not

theorem translator_lawful (row : String → Value) :
    (translator parser columns).Lawful (Predicate.holds row) where
  conjoin predicates predicate found := by
    match predicates with
    | [] => simp [translator, Predicate.junction] at found
    | [single] =>
        cases found
        simp
    | first :: second :: rest =>
        cases found
        rw [Predicate.holds, Predicate.holdsEach_eq_map]
  disjoin predicates predicate found := by
    match predicates with
    | [] => simp [translator, Predicate.junction] at found
    | [single] =>
        cases found
        simp
    | first :: second :: rest =>
        cases found
        rw [Predicate.holds, Predicate.holdsEach_eq_map]
  negate _ := rfl

end Translation

section Decimals

/-- Rescaled digits denote the same number at the new scale. -/
theorem rescale_value {unscaled source target aligned : ℤ}
    (rescaled : rescale unscaled source target = some aligned) :
    (aligned : ℚ) = unscaled * 10 ^ (target - source) := by
  simp only [rescale, Option.bind_eq_bind, Option.bind_eq_some_iff,
    Option.filter_eq_some_iff, Option.some.injEq] at rescaled
  obtain ⟨shift, ⟨rfl, -⟩, factor, ⟨rfl, -⟩, aligned⟩ := rescaled
  split at aligned
  · next nonneg =>
      obtain ⟨product, -⟩ := Option.filter_eq_some_iff.mp aligned
      cases product
      push_cast
      rw [← zpow_natCast, Int.natAbs_of_nonneg nonneg]
  · next negative =>
      split at aligned
      · next whole =>
          cases aligned
          have scaled : (unscaled : ℚ) = (unscaled.tdiv (10 ^ (target - source).natAbs) : ℤ) *
              10 ^ (target - source).natAbs := by
            exact_mod_cast whole.symm
          have power : (10 : ℚ) ^ (target - source).natAbs = 10 ^ (-(target - source)) := by
            rw [← zpow_natCast, Int.natCast_natAbs, abs_of_neg (by omega)]
          conv_rhs => rw [scaled, power, mul_assoc, ← zpow_add₀ (by norm_num)]
          simp
      · simp at aligned

/-- The parts of a mantissa around its point. -/
def pointParts (mantissa : List Char) : List Char × List Char :=
  (Text.splitOnce '.' mantissa).getD (mantissa, [])

theorem pointParts_cons {c : Char} (digits : List Char) (notPoint : c ≠ '.') :
    pointParts (c :: digits) = (c :: (pointParts digits).1, (pointParts digits).2) := by
  simp only [pointParts, Text.splitOnce, if_neg notPoint]
  cases Text.splitOnce '.' digits <;> rfl

theorem decimalValue_parts {digits : List Char} {magnitude : ℚ}
    (value : Text.decimalValue digits = some magnitude) :
    ((pointParts digits).1 ++ (pointParts digits).2 ≠ [] ∧
      Text.allDigits ((pointParts digits).1 ++ (pointParts digits).2) = true) ∧
    magnitude = Text.natValue (pointParts digits).1 + Text.fractionValue (pointParts digits).2 := by
  simp only [Text.decimalValue] at value
  split at value
  · next valid =>
      cases value
      exact ⟨valid, rfl⟩
  · simp at value

/-- Joining the digits on both sides of the point keeps their sign and value. -/
theorem integerValue_joined {mantissa : List Char} {unscaled : ℤ} {magnitude : ℚ}
    (joined : Text.integerValue ((pointParts mantissa).1 ++ (pointParts mantissa).2) =
      some unscaled)
    (value : Text.decimalValue (Text.splitSign mantissa).2 = some magnitude) :
    (unscaled : ℚ) = (if (Text.splitSign mantissa).1 then -magnitude else magnitude) *
      10 ^ (pointParts mantissa).2.length := by
  rcases Text.splitSign_cases mantissa with ⟨rest, rfl, split⟩ | ⟨rest, rfl, split⟩ | split
  · rw [split] at value ⊢
    obtain ⟨valid, rfl⟩ := decimalValue_parts value
    rw [pointParts_cons _ (by decide)] at joined ⊢
    simp only [Text.integerValue, Text.splitSign, List.cons_append, if_pos valid] at joined
    cases joined
    push_cast
    rw [Text.natValue_append_eq, if_pos rfl, neg_mul]
  · rw [split] at value ⊢
    obtain ⟨valid, rfl⟩ := decimalValue_parts value
    rw [pointParts_cons _ (by decide)] at joined ⊢
    simp only [Text.integerValue, Text.splitSign, List.cons_append, if_pos valid] at joined
    cases joined
    push_cast
    rw [Text.natValue_append_eq]
  · rw [split] at value ⊢
    obtain ⟨valid, rfl⟩ := decimalValue_parts value
    simp only [Text.integerValue, Text.splitSign_digits valid.2, if_pos valid] at joined
    cases joined
    push_cast
    rw [Text.natValue_append_eq]

/-- The digits and the scale of a decimal text denote its exact value. -/
theorem splitDecimal_value {raw : List Char} {unscaled scale : ℤ} {exact : ℚ}
    (split : splitDecimal raw = some (unscaled, scale))
    (value : Text.numeralValue raw = some exact) : exact = unscaled * 10 ^ (-scale) := by
  simp only [splitDecimal, Text.numeralValue, Option.bind_eq_bind, Option.bind_eq_some_iff,
    Option.filter_eq_some_iff, Option.pure_def, Option.some.injEq, Prod.mk.injEq] at split value
  obtain ⟨exponent, exponentIs, digits, ⟨joined, -⟩, length, ⟨rfl, -⟩, -, ⟨rfl, -⟩, rfl, rfl⟩ :=
    split
  obtain ⟨magnitude, magnitudeIs, power, powerIs, rfl⟩ := value
  have same : exponent = power := by
    cases marker : (Text.splitExponent raw).2 with
    | none =>
        rw [marker] at exponentIs powerIs
        simp_all
    | some text =>
        rw [marker] at exponentIs powerIs
        simp only [Option.map_some, Option.getD_some] at exponentIs powerIs
        have parsed := (Option.filter_eq_some_iff.mp exponentIs).1
        exact Option.some.inj (parsed.symm.trans powerIs)
  rw [integerValue_joined joined magnitudeIs, same, Text.powerOfTen_eq_zpow, mul_assoc]
  congr 1
  rw [← zpow_natCast, ← zpow_add₀ (by norm_num)]
  congr 1
  unfold pointParts
  ring

theorem decimalText_value {value : JsonScalar} {raw : List Char}
    (found : decimalText value = some raw) : value.exactNumber = Text.numeralValue raw := by
  cases value with
  | number number =>
      cases found
      rfl
  | string text =>
      cases found
      rfl
  | _ => simp [decimalText] at found

/-- A decimal scalar has the literal's exact value. -/
theorem parseDecimal_value {value : JsonScalar} {precision scale : Nat} {scalar : Scalar}
    {exact : ℚ} (parsed : parseDecimal value precision scale = some scalar)
    (number : value.exactNumber = some exact) :
    scalar.value = .num exact ∧ Text.HasDigits scale exact := by
  simp only [parseDecimal, Option.bind_eq_bind, Option.bind_eq_some_iff] at parsed
  obtain ⟨raw, rawIs, ⟨unscaled, source⟩, split, aligned, rescaled, accepted⟩ := parsed
  rw [decimalText_value rawIs] at number
  have exactIs := splitDecimal_value split number
  have alignedIs := rescale_value rescaled
  have scaled : exact * 10 ^ scale = aligned := by
    rw [exactIs, alignedIs, mul_assoc, ← zpow_natCast, ← zpow_add₀ (by norm_num)]
    congr 2
    ring
  refine ⟨?_, aligned, scaled⟩
  unfold decimalData at accepted
  split at accepted
  · cases accepted
    change Value.num (aligned / 10 ^ scale) = _
    rw [← scaled, mul_div_assoc, div_self (by positivity), mul_one]
  · simp at accepted

end Decimals

/-- The kernel's calendar parsers read what the literal says, cut to microseconds. -/
structure ScalarParser.Exact (parser : ScalarParser) (reading : Reading) : Prop where
  date : ∀ text days exact, parser.date text = some days →
    reading.date text.toList = some exact → days = exact
  timestamp : ∀ text micros seconds, parser.timestamp text = some micros →
    reading.timestamp text.toList = some seconds → micros = ⌊seconds * 10 ^ 6⌋
  timestampNtz : ∀ text micros seconds, parser.timestampNtz text = some micros →
    reading.timestamp text.toList = some seconds → micros = ⌊seconds * 10 ^ 6⌋

section Literals

variable {parser : ScalarParser} {reading : Reading}

theorem microsecondText_eq_some {value : JsonScalar} {text : String}
    (found : microsecondText value = some text) :
    value.asStr = some text ∧ timestampLiteralDigits text.toList ≤ 6 := by
  simp only [microsecondText, Option.bind_eq_bind, Option.bind_eq_some_iff] at found
  obtain ⟨inner, string, digits⟩ := found
  split at digits
  · next short =>
      cases digits
      rw [nonEmptyStr_eq_some string]
      exact ⟨rfl, short⟩
  · simp at digits

theorem parseBool_eq {value : JsonScalar} {flag spelled : Bool}
    (parsed : parseBool value = some flag) (read : value.asBool = some spelled) :
    flag = spelled := by
  cases value with
  | string text =>
      simp only [JsonScalar.asBool] at read
      split at read
      · next isTrue =>
          cases read
          rcases isTrue with rfl | rfl <;> simpa [parseBool] using parsed.symm
      · split at read
        · next isFalse =>
            cases read
            rcases isFalse with rfl | rfl <;> simpa [parseBool] using parsed.symm
        · simp at read
  | _ => exact Option.some.inj (parsed.symm.trans read)

/-- The floating-point types, whose literals are rounded. -/
def PrimitiveType.isFloat : PrimitiveType → Bool
  | .float | .double => true
  | _ => false

theorem integer_literal {bits : Nat} {lit : Literal} {wrap : ℤ → Scalar} {scalar : Scalar}
    {typed : Value → Prop} (wrapped : ∀ value : ℤ, fitsInt bits value →
      (wrap value).value = .num value ∧ typed (.num value))
    (found : (if lit.kind.isNumeric then (parseInt bits lit.value).map wrap else none) =
      some scalar) :
    lit.isNull = false ∧ reading.literal lit = scalar.value ∧ typed scalar.value := by
  split at found
  · next numeric =>
      obtain ⟨value, parsed, rfl⟩ := Option.map_eq_some_iff.mp found
      obtain ⟨present, read⟩ := literal_of_exactNumber reading numeric (parseInt_exact parsed)
      obtain ⟨isNum, isTyped⟩ := wrapped value (parseInt_fits parsed)
      rw [isNum]
      exact ⟨present, read, isTyped⟩
  · simp at found

/-- A scalar of any other type has the literal's exact value. -/
theorem scalarOf_exact (exact : parser.Exact reading) {lit : Literal} {prim : PrimitiveType}
    {scalar : Scalar} (found : scalarOf parser lit prim = some scalar)
    (readable : lit.isNull = false → reading.literal lit ≠ .null)
    (lossless : prim.isFloat = false) :
    lit.isNull = false ∧ reading.literal lit = scalar.value ∧ prim.Holds scalar.value := by
  cases prim with
  | boolean =>
      simp only [scalarOf] at found
      split at found
      · next isBool =>
          obtain ⟨flag, parsed, rfl⟩ := Option.map_eq_some_iff.mp found
          have notNull : lit.value ≠ .null := by
            intro null
            simp [null, parseBool] at parsed
          obtain ⟨spelled, asBool, present, read⟩ := bool_literal isBool notNull readable
          rw [parseBool_eq parsed asBool]
          exact ⟨present, read, trivial⟩
      · simp at found
  | byte => exact integer_literal (fun value fits => ⟨rfl, value, rfl, fits⟩) found
  | short => exact integer_literal (fun value fits => ⟨rfl, value, rfl, fits⟩) found
  | integer => exact integer_literal (fun value fits => ⟨rfl, value, rfl, fits⟩) found
  | long => exact integer_literal (fun value fits => ⟨rfl, value, rfl, fits⟩) found
  | float => simp [PrimitiveType.isFloat] at lossless
  | double => simp [PrimitiveType.isFloat] at lossless
  | decimal precision scale =>
      simp only [scalarOf] at found
      split at found
      · next numeric =>
          have notNull : lit.value ≠ .null := by
            intro null
            simp [null, parseDecimal, decimalText] at found
          obtain ⟨number, numberIs⟩ := exactNumber_of_readable numeric notNull readable
          obtain ⟨valueIs, digits⟩ := parseDecimal_value found numberIs
          obtain ⟨present, read⟩ := literal_of_exactNumber reading numeric numberIs
          rw [valueIs]
          exact ⟨present, read, digits⟩
      · simp at found
  | string =>
      simp only [scalarOf] at found
      split at found
      · next isString =>
          obtain ⟨text, string, rfl⟩ := Option.map_eq_some_iff.mp found
          have asStr : lit.value.asStr = some text := by rw [nonEmptyStr_eq_some string]; rfl
          obtain ⟨present, read⟩ := string_literal reading isString asStr
          exact ⟨present, read, trivial⟩
      · simp at found
  | date =>
      simp only [scalarOf] at found
      split at found
      · next isDate =>
          obtain ⟨days, parsed, rfl⟩ := Option.map_eq_some_iff.mp found
          obtain ⟨text, short, read⟩ := Option.bind_eq_some_iff.mp parsed
          obtain ⟨present, value⟩ := date_literal isDate (microsecondText_eq_some short).1 readable
            fun exactDays => exact.date text days exactDays read
          exact ⟨present, value, trivial⟩
      · simp at found
  | timestamp =>
      simp only [scalarOf] at found
      split at found
      · next isTimestamp =>
          obtain ⟨micros, parsed, rfl⟩ := Option.map_eq_some_iff.mp found
          obtain ⟨text, short, read⟩ := Option.bind_eq_some_iff.mp parsed
          exact timestamp_literal isTimestamp (microsecondText_eq_some short) readable
            fun seconds => exact.timestamp text micros seconds read
      · simp at found
  | timestampNtz =>
      simp only [scalarOf] at found
      split at found
      · next isTimestamp =>
          obtain ⟨micros, parsed, rfl⟩ := Option.map_eq_some_iff.mp found
          obtain ⟨text, short, read⟩ := Option.bind_eq_some_iff.mp parsed
          exact timestamp_literal (.inl isTimestamp) (microsecondText_eq_some short) readable
            fun seconds => exact.timestampNtz text micros seconds read
      · simp at found
  | binary =>
      simp only [scalarOf] at found
      split at found
      · next isBinary =>
          obtain ⟨bytes, decoded, rfl⟩ := Option.map_eq_some_iff.mp found
          obtain ⟨present, value⟩ := binary_literal reading isBinary decoded
          exact ⟨present, value, trivial⟩
      · simp at found

end Literals

end Delta

end LakehouseEngine
