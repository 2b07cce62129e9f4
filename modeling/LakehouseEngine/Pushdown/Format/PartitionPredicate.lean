import LakehouseEngine.Pushdown.Format.FilterJson
import LakehouseEngine.Types.ArrowType
import LakehouseEngine.Types.Mapping

/-!
# Partition pruning

A file records its partition values, so a filter over partition columns can rule the
file out before it is read.  The predicate computes, for each condition, which truth
values some row of the file might give it.  A condition it does not understand might
give any.  A file is kept when the filter can be TRUE.
-/

namespace LakehouseEngine

/-- The truth values a condition can reach across a file's rows.  With neither flag it
is always NULL. -/
structure Reachable where
  canBeTrue : Bool
  canBeFalse : Bool
  deriving DecidableEq

namespace Reachable

def any : Reachable := ⟨true, true⟩

def exactly (truth : Truth) : Reachable := ⟨truth == some true, truth == some false⟩

def and (left right : Reachable) : Reachable :=
  ⟨left.canBeTrue && right.canBeTrue, left.canBeFalse || right.canBeFalse⟩

def or (left right : Reachable) : Reachable :=
  ⟨left.canBeTrue || right.canBeTrue, left.canBeFalse && right.canBeFalse⟩

def negated (reachable : Reachable) : Reachable := ⟨reachable.canBeFalse, reachable.canBeTrue⟩

/-- A truth value is among the reachable ones.  NULL always is. -/
structure Covers (reachable : Reachable) (truth : Truth) : Prop where
  ofTrue : truth = some true → reachable.canBeTrue = true
  ofFalse : truth = some false → reachable.canBeFalse = true

theorem any_covers (truth : Truth) : any.Covers truth := ⟨fun _ => rfl, fun _ => rfl⟩

theorem exactly_covers (truth : Truth) : (exactly truth).Covers truth :=
  ⟨fun equal => by simp [exactly, equal], fun equal => by simp [exactly, equal]⟩

theorem covers_null (reachable : Reachable) : reachable.Covers none :=
  ⟨fun equal => by simp at equal, fun equal => by simp at equal⟩

variable {left right reachable : Reachable} {leftTruth rightTruth truth : Truth}

theorem Covers.and (leftCovers : left.Covers leftTruth) (rightCovers : right.Covers rightTruth) :
    (left.and right).Covers (leftTruth.and rightTruth) := by
  constructor
  · intro equal
    obtain ⟨leftTrue, rightTrue⟩ := Truth.and_eq_true.mp equal
    simp [Reachable.and, leftCovers.ofTrue leftTrue, rightCovers.ofTrue rightTrue]
  · intro equal
    rcases Truth.and_eq_false.mp equal with leftFalse | rightFalse
    · simp [Reachable.and, leftCovers.ofFalse leftFalse]
    · simp [Reachable.and, rightCovers.ofFalse rightFalse]

theorem Covers.or (leftCovers : left.Covers leftTruth) (rightCovers : right.Covers rightTruth) :
    (left.or right).Covers (leftTruth.or rightTruth) := by
  constructor
  · intro equal
    rcases Truth.or_eq_true.mp equal with leftTrue | rightTrue
    · simp [Reachable.or, leftCovers.ofTrue leftTrue]
    · simp [Reachable.or, rightCovers.ofTrue rightTrue]
  · intro equal
    obtain ⟨leftFalse, rightFalse⟩ := Truth.or_eq_false.mp equal
    simp [Reachable.or, leftCovers.ofFalse leftFalse, rightCovers.ofFalse rightFalse]

theorem Covers.negated (covers : reachable.Covers truth) : reachable.negated.Covers truth.not :=
  ⟨fun equal => covers.ofFalse (Truth.not_eq_true.mp equal),
    fun equal => covers.ofTrue (Truth.not_eq_false.mp equal)⟩

theorem Covers.foldl_and {reachables : List Reachable} {truths : List Truth}
    (each : List.Forall₂ Covers reachables truths) {start : Reachable} {startTruth : Truth}
    (startCovers : start.Covers startTruth) :
    (reachables.foldl Reachable.and start).Covers (startTruth.and (.all truths)) := by
  induction each generalizing start startTruth with
  | nil => simpa using startCovers
  | cons head _ ih =>
      rw [List.foldl_cons, Truth.all_cons, ← Truth.and_assoc]
      exact ih (startCovers.and head)

theorem Covers.foldl_or {reachables : List Reachable} {truths : List Truth}
    (each : List.Forall₂ Covers reachables truths) {start : Reachable} {startTruth : Truth}
    (startCovers : start.Covers startTruth) :
    (reachables.foldl Reachable.or start).Covers (startTruth.or (.any truths)) := by
  induction each generalizing start startTruth with
  | nil => simpa using startCovers
  | cons head _ ih =>
      rw [List.foldl_cons, Truth.any_cons, ← Truth.or_assoc]
      exact ih (startCovers.or head)

end Reachable

/-- The translated condition.  `untranslated` stands for any other. -/
inductive PartitionNode where
  | compare (column : String) (comparison : Comparison) (literal : Scalar)
  | isNull (column : String)
  | and (operands : List PartitionNode)
  | or (operands : List PartitionNode)
  | not (operand : PartitionNode)
  | untranslated

/-- A file's logged partition values, in key order. -/
abbrev PartitionValues := List (String × Option String)

/-- The pruning predicate of a request's filter. -/
structure PartitionPredicate where
  root : PartitionNode

namespace PartitionPredicate

section Literals

variable {cast : TextCast} {reading : Reading}

def utf8Bytes (text : String) : List Nat := text.toUTF8.toList.map UInt8.toNat

/-- `none` for a value that does not convert, so that the scan reports it. -/
def typedOrdering (cast : TextCast) (value : String) (literal : Scalar) : Option Ordering :=
  match literal.dataType, literal.value with
  | .utf8, .text text | .largeUtf8, .text text | .utf8View, .text text => some (compare value text)
  | .binary, .bytes bytes => some (compare (utf8Bytes value) bytes)
  | dataType, scalar => do
      let value ← cast.tryFromString dataType value
      if value.isNull then none else Value.compareWith (fun _ _ => none) value scalar

/-- The value a row of the file has at the declared type.  A binary value is logged as
the text of its bytes. -/
def readPartition (cast : TextCast) (type : ArrowType) (text : String) : Option Value :=
  if type = .binary then some (.bytes (utf8Bytes text)) else cast.tryFromString type text

def isDigits (part : List Char) : Bool := !part.isEmpty && Text.allDigits part

/-- The text of a numeric literal's value. -/
def numeralText : JsonScalar → Option String
  | .string numeral => some numeral
  | .number number => some number.text
  | _ => none

/-- The fraction digits of a plain `digits[.digits]` numeral. -/
def fractionDigits (unsigned : List Char) : Option Nat :=
  match Text.splitOnce '.' unsigned with
  | none => if isDigits unsigned then some 0 else none
  | some (whole, fraction) =>
      if isDigits whole && isDigits fraction then some fraction.length else none

/-- A plain `[+-]digits[.digits]` numeral with at most `scale` fraction digits: the cast
would round a finer one. -/
def exactNumeral (value : JsonScalar) (scale : Int) : Option String := do
  let numeral ← numeralText value
  let digits ← fractionDigits (Text.splitSign numeral.toList).2
  if 0 ≤ scale ∧ digits ≤ scale.toNat then some numeral else none

/-- A cast truncates a fraction finer than `unit`, so such a literal does not convert. -/
def exactTimestamp (value : JsonScalar) (unit : TimeUnit) : Option String := do
  let text ← nonEmptyStr value
  if timestampLiteralDigits text.toList ≤ unit.digits then some text else none

/-- The text of a literal that `declared` holds exactly. -/
def literalText (lit : Literal) (declared : ArrowType) : Option String :=
  match lit.kind, declared with
  | .string, .utf8 | .string, .largeUtf8 | .string, .utf8View => nonEmptyStr lit.value
  | .exactnumeric, .integer _ _ => exactNumeral lit.value 0
  | .exactnumeric, .decimal128 _ scale | .exactnumeric, .decimal256 _ scale =>
      exactNumeral lit.value scale
  | .date, .date32 | .date, .date64 => nonEmptyStr lit.value
  | .timestamp, .timestamp unit _ => exactTimestamp lit.value unit
  | .bool, .boolean =>
      match lit.value with
      | .bool flag => some (if flag then "true" else "false")
      | _ => none
  | _, _ => none

/-- A literal at the declared type, converted only exactly. -/
def literalUnder (cast : TextCast) (node : Node) (declared : ArrowType) : Option Scalar :=
  match node with
  | .literal lit =>
      match lit.kind, declared with
      | .binary, .binary => (literalBinaryBytes lit).map fun bytes => ⟨.binary, .bytes bytes⟩
      | _, _ => do
          let value ← cast.tryFromString declared (← literalText lit declared)
          if value.isNull then none else some ⟨declared, value⟩
  | _ => none

theorem fractionDigits_value {unsigned : List Char} {digits : Nat}
    (found : fractionDigits unsigned = some digits) :
    (∀ c ∈ unsigned, c.isDigit = true ∨ c = '.') ∧
      ∃ magnitude, Text.decimalValue unsigned = some magnitude ∧
        Text.HasDigits digits magnitude := by
  unfold fractionDigits at found
  split at found
  · next undivided =>
      split at found
      · next valid =>
          cases found
          simp only [isDigits, Bool.and_eq_true, Bool.not_eq_true', List.isEmpty_eq_false_iff]
            at valid
          have value : Text.decimalValue unsigned =
              some (Text.natValue unsigned + Text.fractionValue []) := by
            simp [Text.decimalValue, undivided, valid.1, valid.2]
          refine ⟨fun c member => .inl (List.all_eq_true.mp valid.2 c member), _, value, ?_⟩
          simpa [undivided] using Text.decimalValue_hasDigits value
      · simp at found
  · next whole fraction divided =>
      split at found
      · next valid =>
          cases found
          simp only [isDigits, Bool.and_eq_true, Bool.not_eq_true', List.isEmpty_eq_false_iff]
            at valid
          obtain ⟨⟨wholeNonempty, wholeDigits⟩, -, fractionDigits⟩ := valid
          have value : Text.decimalValue unsigned =
              some (Text.natValue whole + Text.fractionValue fraction) := by
            have digits : Text.allDigits (whole ++ fraction) = true := by
              rw [Text.allDigits, List.all_append, Bool.and_eq_true]
              exact ⟨wholeDigits, fractionDigits⟩
            simp [Text.decimalValue, divided, digits, wholeNonempty]
          refine ⟨fun c member => ?_, _, value, ?_⟩
          · rw [(Text.splitOnce_spec divided).1] at member
            rcases List.mem_append.mp member with member | member
            · exact .inl (List.all_eq_true.mp wholeDigits c member)
            · rcases List.mem_cons.mp member with rfl | member
              · exact .inr rfl
              · exact .inl (List.all_eq_true.mp fractionDigits c member)
          · simpa [divided] using Text.decimalValue_hasDigits value
      · simp at found

theorem exactNumeral_value {value : JsonScalar} {scale : Int} {text : String}
    (found : exactNumeral value scale = some text) :
    value.toText = text ∧ WhiteSpace.trim text.toList = text.toList ∧
      ∃ digits : Nat, scale = digits ∧
      ∃ number, Text.numeralValue text.toList = some number ∧ Text.HasDigits digits number := by
  simp only [exactNumeral, Option.bind_eq_bind, Option.bind_eq_some_iff] at found
  obtain ⟨numeral, spelled, digits, counted, found⟩ := found
  split at found
  · next fits =>
      cases found
      obtain ⟨chars, magnitude, valued, magnitudeDigits⟩ := fractionDigits_value counted
      have plain : ∀ c ∈ text.toList, WhiteSpace.isWhiteSpace c = false ∧ c ≠ 'e' ∧ c ≠ 'E' := by
        intro c member
        rcases Text.mem_of_splitSign member with unsigned | rfl | rfl
        · rcases chars c unsigned with digit | rfl
          · exact ⟨Text.isDigit_solid digit, Text.isDigit_ne digit⟩
          · decide
        · decide
        · decide
      have value_eq := Text.numeralValue_plain (fun c member => (plain c member).2) valued
      refine ⟨?_, WhiteSpace.trim_eq_self fun c member =>
        (plain c member).1, scale.toNat, by omega, _, value_eq, ?_⟩
      · cases value <;> simp_all [numeralText, JsonScalar.toText]
      · split
        · exact (magnitudeDigits.mono fits.2).neg
        · exact magnitudeDigits.mono fits.2
  · simp at found

theorem exactTimestamp_value (reading : Reading) {value : JsonScalar} {unit : TimeUnit}
    {text : String}
    (found : exactTimestamp value unit = some text) :
    value = .string text ∧
      ∀ seconds, reading.timestamp text.toList = some seconds →
        Text.HasDigits unit.digits seconds := by
  simp only [exactTimestamp, Option.bind_eq_bind, Option.bind_eq_some_iff] at found
  obtain ⟨inner, spelled, found⟩ := found
  split at found
  · next fits =>
      cases found
      refine ⟨nonEmptyStr_eq_some spelled, fun seconds value => ?_⟩
      exact (timestamp_hasDigits value).mono fits
  · simp at found

/-- The cast of a literal's text is the literal's value, if it has one. -/
theorem literalText_value (exact : cast.Exact reading) {lit : Literal} {declared : ArrowType}
    (utc : declared.inUtc = true) {text : String} {value : Value}
    (found : literalText lit declared = some text)
    (converted : cast.tryFromString declared text = some value) :
    reading.literal lit = .null ∨ reading.literal lit = value := by
  obtain ⟨kind, json, width⟩ := lit
  have ofString {type : ArrowType} (isText : type.isText = true)
      (spelled : nonEmptyStr json = some text)
      (converted : cast.tryFromString type text = some value) :
      reading.literal ⟨.string, json, width⟩ = value := by
    cases nonEmptyStr_eq_some spelled
    rw [exact.ofText _ text isText] at converted
    exact Option.some.inj converted
  have ofNumeral {type : ArrowType} {scale : Int} (typed : type.scale = some scale)
      (spelled : exactNumeral json scale = some text)
      (converted : cast.tryFromString type text = some value) :
      reading.literal ⟨.exactnumeric, json, width⟩ = .null ∨
        reading.literal ⟨.exactnumeric, json, width⟩ = value := by
    obtain ⟨same, trimmed, digits, rfl, number, valued, numberDigits⟩ := exactNumeral_value spelled
    rw [exact.ofNumeral type digits text number value typed valued numberDigits converted]
    unfold Reading.literal
    split
    · exact .inl rfl
    · exact .inr (by simp only [same, trimmed, valued]; rfl)
  have ofDate {type : ArrowType} (typed : type = .date32 ∨ type = .date64)
      (spelled : nonEmptyStr json = some text)
      (converted : cast.tryFromString type text = some value) :
      reading.literal ⟨.date, json, width⟩ = .null ∨
        reading.literal ⟨.date, json, width⟩ = value := by
    cases nonEmptyStr_eq_some spelled
    change (Option.map Value.date (reading.date text.toList)).getD .null = _ ∨
      (Option.map Value.date (reading.date text.toList)).getD .null = _
    cases days : reading.date text.toList with
    | none => exact .inl rfl
    | some days' => exact .inr (exact.ofDate type text days' value typed days converted).symm
  unfold literalText at found
  dsimp only at found
  split at found
  · exact .inr (ofString rfl found converted)
  · exact .inr (ofString rfl found converted)
  · exact .inr (ofString rfl found converted)
  · exact ofNumeral rfl found converted
  · exact ofNumeral rfl found converted
  · exact ofNumeral rfl found converted
  · exact ofDate (.inl rfl) found converted
  · exact ofDate (.inr rfl) found converted
  · next unit timezone =>
      obtain ⟨rfl, fine⟩ := exactTimestamp_value reading found
      change (Option.map Value.timestamp (reading.timestamp text.toList)).getD .null = _ ∨
        (Option.map Value.timestamp (reading.timestamp text.toList)).getD .null = _
      cases instant : reading.timestamp text.toList with
      | none => exact .inl rfl
      | some seconds =>
          exact .inr (exact.ofTimestamp unit timezone text seconds value utc instant
            (fine seconds instant) converted).symm
  · split at found
    · next flag =>
        cases found
        exact .inr (exact.ofBoolean flag value converted).symm
    · simp at found
  · simp at found

theorem literalText_not_null {lit : Literal} {declared : ArrowType} {text : String}
    (found : literalText lit declared = some text) : lit.isNull = false := by
  obtain ⟨kind, json, width⟩ := lit
  cases json with
  | null =>
      unfold literalText at found
      dsimp only at found
      split at found <;> simp [nonEmptyStr, exactNumeral, numeralText, exactTimestamp] at found
  | _ => cases kind <;> simp_all [literalText, Literal.isNull]

theorem literalUnder_value (exact : cast.Exact reading) {node : Node} {declared : ArrowType}
    (utc : declared.inUtc = true) {scalar : Scalar}
    (found : literalUnder cast node declared = some scalar) (env : Env) :
    scalar.dataType = declared ∧ node.isNullLiteral = false ∧
      (node.eval reading env = .null ∨ node.eval reading env = scalar.value) := by
  cases node with
  | literal lit =>
      simp only [literalUnder] at found
      split at found
      · next kind =>
          obtain ⟨bytes, decoded, rfl⟩ := Option.map_eq_some_iff.mp found
          obtain ⟨_, json, width⟩ := lit
          cases kind
          cases json with
          | string hex =>
              have spelled : Text.hexDecode hex.toList = some bytes := by
                simpa [literalBinaryBytes, JsonScalar.asStr] using decoded
              refine ⟨rfl, rfl, .inr ?_⟩
              change (Option.map Value.bytes (Text.hexDecode hex.toList)).getD .null = _
              rw [spelled]
              rfl
          | _ => simp [literalBinaryBytes, JsonScalar.asStr] at decoded
      · simp only [Option.bind_eq_bind, Option.bind_eq_some_iff] at found
        obtain ⟨text, spelled, value, converted, found⟩ := found
        split at found
        · simp at found
        · cases found
          exact ⟨rfl, literalText_not_null spelled, literalText_value exact utc spelled converted⟩
  | _ => simp [literalUnder] at found

theorem literalUnder_binary {node : Node} {scalar : Scalar}
    (found : literalUnder cast node .binary = some scalar) :
    ∃ bytes, scalar.value = .bytes bytes := by
  cases node with
  | literal lit =>
      obtain ⟨kind, json, width⟩ := lit
      cases kind with
      | binary =>
          obtain ⟨bytes, -, rfl⟩ := Option.map_eq_some_iff.mp found
          exact ⟨bytes, rfl⟩
      | _ => simp [literalUnder, literalText] at found
  | _ => simp [literalUnder] at found

/-- The ordering of a file's value against a literal is that of the row's value. -/
theorem typedOrdering_value (exact : cast.Exact reading) {text : String} {literal : Scalar}
    {value : Value} {ordering : Ordering}
    (ordered : typedOrdering cast text literal = some ordering)
    (bytes : literal.dataType = .binary → ∃ bytes, literal.value = .bytes bytes)
    (read : readPartition cast literal.dataType text = some value) :
    Value.order value literal.value = some ordering := by
  obtain ⟨type, scalar⟩ := literal
  have textual (isText : type.isText = true) : value = .text text := by
    have notBinary : type ≠ .binary := by rintro rfl; simp [ArrowType.isText] at isText
    simp only [readPartition, if_neg notBinary, exact.ofText type text isText,
      Option.some.injEq] at read
    exact read.symm
  unfold typedOrdering at ordered
  dsimp only at ordered bytes ⊢
  split at ordered
  · rw [textual rfl]
    exact ordered
  · rw [textual rfl]
    exact ordered
  · rw [textual rfl]
    exact ordered
  · simp only [readPartition, if_true, Option.some.injEq] at read
    rw [← read]
    exact ordered
  · next noBytes =>
      have notBinary : type ≠ .binary := by
        intro isBinary
        obtain ⟨inner, equal⟩ := bytes isBinary
        exact noBytes inner isBinary equal
      simp only [readPartition, if_neg notBinary] at read
      simp only [read, Option.bind_eq_bind, Option.bind_some] at ordered
      split at ordered
      · simp at ordered
      · exact ordered

end Literals

variable [Unicode]

/-- `key` in uppercase is `column`. -/
def foldsTo (key column : String) : Bool := upper key == column

/-- An empty value reads as NULL. -/
def nonNullPartitionValue (logged : Option String) : Option String :=
  logged.filter (· ≠ "")

/-- `none` when `column` names no partition key, `some none` when its value is NULL. -/
def partitionValue (values : PartitionValues) (column : String) : Option (Option String) :=
  (values.find? fun (key, _) => foldsTo key column).map fun (_, value) =>
    nonNullPartitionValue value

mutual

def reachable (cast : TextCast) (values : PartitionValues) :
    PartitionNode → Reachable
  | .compare column comparison literal =>
      match partitionValue values column with
      | none => .any
      | some none => .exactly none
      | some (some value) =>
          match typedOrdering cast value literal with
          | none => .any
          | some ordering => .exactly (some (comparison.holds ordering))
  | .isNull column =>
      match partitionValue values column with
      | none => .any
      | some value => .exactly (some value.isNone)
  | .and operands =>
      (reachableEach cast values operands).foldl Reachable.and (.exactly (some true))
  | .or operands =>
      (reachableEach cast values operands).foldl Reachable.or (.exactly (some false))
  | .not operand => (reachable cast values operand).negated
  | .untranslated => .any

def reachableEach (cast : TextCast) (values : PartitionValues) :
    List PartitionNode → List Reachable
  | [] => []
  | node :: nodes => reachable cast values node :: reachableEach cast values nodes

end

/-- An undeclared column compares as text. -/
def declaredType (declared : List (String × ArrowType)) (column : String) : ArrowType :=
  ((declared.find? fun (name, _) => foldsTo name column).map Prod.snd).getD .utf8

def typedLiteral (cast : TextCast) (declared : List (String × ArrowType)) (column : String)
    (literal : Node) : Option Scalar :=
  literalUnder cast literal (declaredType declared column)

def translateComparison (cast : TextCast) (declared : List (String × ArrowType))
    (left right : Node) (comparison : Comparison) : Option PartitionNode := do
  let (column, literal, comparison) ← comparisonOperands left right comparison
  let literal ← typedLiteral cast declared (upper column) literal
  return .compare (upper column) comparison literal

def translateIsNull (expression : Node) : Option PartitionNode := do
  let column ← columnName expression
  return .isNull (upper column)

def translateIn (cast : TextCast) (declared : List (String × ArrowType)) (expression : Node)
    (arguments : List Node) : Option PartitionNode := do
  let column ← columnName expression
  let arguments ← nonEmpty arguments
  let equalities ← arguments.mapM fun argument => do
    let literal ← typedLiteral cast declared (upper column) argument
    return PartitionNode.compare (upper column) .equal literal
  return .or equalities

def translateBetween (cast : TextCast) (declared : List (String × ArrowType))
    (expression left right : Node) : Option PartitionNode := do
  let column ← columnName expression
  let low ← typedLiteral cast declared (upper column) left
  let high ← typedLiteral cast declared (upper column) right
  return .and [.compare (upper column) .greaterEqual low, .compare (upper column) .lessEqual high]

mutual

def translate (cast : TextCast) (declared : List (String × ArrowType)) : Node → PartitionNode
  | .predicateAnd expressions =>
      if expressions.isEmpty then .untranslated else .and (translateEach cast declared expressions)
  | .predicateOr expressions =>
      if expressions.isEmpty then .untranslated else .or (translateEach cast declared expressions)
  | .predicateNot expression => .not (translate cast declared expression)
  | .predicateIsNull expression => (translateIsNull expression).getD .untranslated
  | .predicateIsNotNull expression =>
      ((translateIsNull expression).map PartitionNode.not).getD .untranslated
  | .predicateInConstlist expression arguments =>
      (translateIn cast declared expression arguments).getD .untranslated
  | .predicateBetween expression left right =>
      (translateBetween cast declared expression left right).getD .untranslated
  | .comparison comparison left right =>
      (translateComparison cast declared left right comparison).getD .untranslated
  | _ => .untranslated

def translateEach (cast : TextCast) (declared : List (String × ArrowType)) :
    List Node → List PartitionNode
  | [] => []
  | node :: nodes => translate cast declared node :: translateEach cast declared nodes

end

/-- No filter keeps every file. -/
def fromFilter (cast : TextCast) (filter : Option Node)
    (declared : List (String × ArrowType)) : PartitionPredicate :=
  ⟨(filter.map (translate cast declared)).getD .untranslated⟩

def keeps (cast : TextCast) (predicate : PartitionPredicate)
    (values : PartitionValues) : Bool :=
  (reachable cast values predicate.root).canBeTrue

section Soundness

variable {cast : TextCast} {reading : Reading} {declared : List (String × ArrowType)}
  {values : PartitionValues} {env : Env}

/-- A row holds a file's value at the column's declared type. -/
def Holds (cast : TextCast) (type : ArrowType) : Option String → Value → Prop
  | none, value => value = .null
  | some text, value => readPartition cast type text = some value

/-- A row of a file: each partition column holds the file's value, an empty one being
NULL.  The other columns are free. -/
def Carries (cast : TextCast) (declared : List (String × ArrowType)) (values : PartitionValues)
    (env : Env) : Prop :=
  ∀ key value, (key, value) ∈ values → ∀ col : ColumnNode, col.upperName = upper key →
    Holds cast (declaredType declared col.upperName) (nonNullPartitionValue value)
      (env.column col)

/-- The cast is exact at every declared type. -/
structure Faithful (cast : TextCast) (reading : Reading) (declared : List (String × ArrowType)) :
    Prop where
  exact : cast.Exact reading
  utc : ∀ pair ∈ declared, pair.2.inUtc = true

theorem Faithful.declaredType_inUtc (faithful : Faithful cast reading declared) {column : String} :
    (declaredType declared column).inUtc = true := by
  unfold declaredType
  cases found : declared.find? fun (name, _) => foldsTo name column with
  | none => rfl
  | some pair => exact faithful.utc pair (List.mem_of_find?_eq_some found)

theorem reachableEach_covers {nodes : List PartitionNode} {truths : List Truth}
    (each : List.Forall₂ (fun node truth => (reachable cast values node).Covers truth)
      nodes truths) :
    List.Forall₂ Reachable.Covers (reachableEach cast values nodes) truths := by
  induction each with
  | nil => exact .nil
  | cons head _ ih => exact .cons head ih

theorem reachable_and_covers {nodes : List PartitionNode} {truths : List Truth}
    (each : List.Forall₂ (fun node truth => (reachable cast values node).Covers truth)
      nodes truths) :
    (reachable cast values (.and nodes)).Covers (.all truths) :=
  Reachable.Covers.foldl_and (reachableEach_covers each) (Reachable.exactly_covers (some true))

theorem reachable_or_covers {nodes : List PartitionNode} {truths : List Truth}
    (each : List.Forall₂ (fun node truth => (reachable cast values node).Covers truth)
      nodes truths) :
    (reachable cast values (.or nodes)).Covers (.any truths) :=
  Reachable.Covers.foldl_or (reachableEach_covers each) (Reachable.exactly_covers (some false))

/-- A column's partition value is that of its key. -/
theorem partitionValue_read {col : ColumnNode} {value : Option String}
    (carries : Carries cast declared values env)
    (found : partitionValue values col.upperName = some value) :
    Holds cast (declaredType declared col.upperName) value (env.column col) := by
  obtain ⟨⟨key, logged⟩, first, rfl⟩ := Option.map_eq_some_iff.mp found
  have folds := List.find?_some first
  simp only [foldsTo, beq_iff_eq] at folds
  exact carries key logged (List.mem_of_find?_eq_some first) col folds.symm

/-- What a translated comparison knows of its row: nothing, that an operand is NULL, or
the ordering of the two operands. -/
inductive ComparisonFact (cast : TextCast) (reading : Reading) (values : PartitionValues)
    (column : String) (literal : Scalar) (left right : Value) : Prop where
  | unknown (reaches : ∀ op, reachable cast values (.compare column op literal) = .any)
  | null (forward : reading.compare left right = none)
      (backward : reading.compare right left = none)
  | ordered (ordering : Ordering) (forward : reading.compare left right = some ordering)
      (backward : reading.compare right left = some ordering.swap)
      (reaches : ∀ op, reachable cast values (.compare column op literal) =
        .exactly (some (op.holds ordering)))

theorem comparisonFact (faithful : Faithful cast reading declared)
    (carries : Carries cast declared values env)
    {col : ColumnNode} {node : Node} {literal : Scalar}
    (typed : typedLiteral cast declared col.upperName node = some literal) :
    ComparisonFact cast reading values col.upperName literal (env.column col)
      (node.eval reading env) := by
  obtain ⟨type, -, valued⟩ :=
    literalUnder_value faithful.exact faithful.declaredType_inUtc typed env
  have compareNull (value : Value) : reading.compare value .null = none := by cases value <;> rfl
  cases found : partitionValue values col.upperName with
  | none => exact .unknown fun op => by simp [reachable, found]
  | some value =>
      have read := partitionValue_read carries found
      cases value with
      | none =>
          rw [show env.column col = .null from read]
          exact .null rfl (compareNull _)
      | some text =>
          cases order : typedOrdering cast text literal with
          | none => exact .unknown fun op => by simp [reachable, found, order]
          | some ordering =>
              rcases valued with null | equal
              · rw [null]
                exact .null (compareNull _) rfl
              · have bytes : literal.dataType = .binary →
                    ∃ bytes, literal.value = .bytes bytes := by
                  intro binary
                  rw [typedLiteral, ← type, binary] at typed
                  exact literalUnder_binary typed
                rw [← type] at read
                change readPartition cast literal.dataType text = some _ at read
                obtain ⟨forward, backward⟩ := Value.compareWith_same_kind
                  (typedOrdering_value faithful.exact order bytes read) reading.mixed
                rw [equal]
                exact .ordered ordering forward backward fun op => by
                  simp [reachable, found, order]

theorem ComparisonFact.covers {column : String} {literal : Scalar} {left right : Value}
    (fact : ComparisonFact cast reading values column literal left right) (op : Comparison) :
    (reachable cast values (.compare column op literal)).Covers
      (reading.comparison op left right) := by
  cases fact with
  | unknown reaches =>
      rw [reaches]
      exact Reachable.any_covers _
  | null forward backward =>
      simp only [Reading.comparison, forward]
      exact Reachable.covers_null _
  | ordered ordering forward backward reaches =>
      simp only [Reading.comparison, forward, reaches]
      exact Reachable.exactly_covers _

/-- The same with the literal on the left. -/
theorem ComparisonFact.covers_swapped {column : String} {literal : Scalar} {left right : Value}
    (fact : ComparisonFact cast reading values column literal left right) (op : Comparison) :
    (reachable cast values (.compare column op.withOperandsSwapped literal)).Covers
      (reading.comparison op right left) := by
  cases fact with
  | unknown reaches =>
      rw [reaches]
      exact Reachable.any_covers _
  | null forward backward =>
      simp only [Reading.comparison, backward]
      exact Reachable.covers_null _
  | ordered ordering forward backward reaches =>
      have holds := op.withOperandsSwapped.holds_withOperandsSwapped ordering
      rw [Comparison.withOperandsSwapped_swap] at holds
      simp only [Reading.comparison, backward, Option.map_some, reaches, holds]
      exact Reachable.exactly_covers _

theorem translateComparison_covers (faithful : Faithful cast reading declared)
    (carries : Carries cast declared values env) {left right : Node} {op : Comparison}
    {node : PartitionNode}
    (translated : translateComparison cast declared left right op = some node) :
    (reachable cast values node).Covers ((Node.comparison op left right).truth reading env) := by
  simp only [translateComparison, Option.bind_eq_bind, Option.bind_eq_some_iff, Option.pure_def,
    Option.some.injEq] at translated
  obtain ⟨⟨column, literal, normalized⟩, operands, scalar, typed, rfl⟩ := translated
  rw [Node.truth_comparison]
  unfold comparisonOperands at operands
  split at operands
  · next name onLeft =>
      cases operands
      obtain ⟨col, rfl, rfl⟩ := columnName_eq_some onLeft
      exact (comparisonFact faithful carries typed).covers op
  · simp only [Option.bind_eq_bind, Option.bind_eq_some_iff, Option.pure_def,
      Option.some.injEq] at operands
    obtain ⟨name, onRight, equal⟩ := operands
    cases equal
    obtain ⟨col, rfl, rfl⟩ := columnName_eq_some onRight
    exact (comparisonFact faithful carries typed).covers_swapped op

theorem translateIsNull_covers (faithful : Faithful cast reading declared)
    (carries : Carries cast declared values env) {expression : Node} {node : PartitionNode}
    (translated : translateIsNull expression = some node) :
    (reachable cast values node).Covers (some (expression.eval reading env).isNull) := by
  simp only [translateIsNull, Option.bind_eq_bind, Option.bind_eq_some_iff, Option.pure_def,
    Option.some.injEq] at translated
  obtain ⟨name, named, rfl⟩ := translated
  obtain ⟨col, rfl, rfl⟩ := columnName_eq_some named
  change (reachable cast values (.isNull col.upperName)).Covers (some (env.column col).isNull)
  unfold reachable
  cases found : partitionValue values col.upperName with
  | none => exact Reachable.any_covers _
  | some value =>
      have read := partitionValue_read carries found
      cases value with
      | none =>
          rw [show env.column col = .null from read]
          exact Reachable.exactly_covers _
      | some text =>
          have present : env.column col ≠ .null := by
            change readPartition cast _ text = some _ at read
            unfold readPartition at read
            split at read
            · rw [← Option.some.inj read]
              simp
            · exact faithful.exact.strict _ _ _ read
          rw [show (env.column col).isNull = false by simp [Value.isNull, present]]
          exact Reachable.exactly_covers _

theorem equalities_cover (faithful : Faithful cast reading declared)
    (carries : Carries cast declared values env) {col : ColumnNode} {arguments : List Node}
    {equalities : List PartitionNode}
    (translated : (arguments.mapM fun argument => do
      let literal ← typedLiteral cast declared col.upperName argument
      return PartitionNode.compare col.upperName .equal literal) = some equalities) :
    List.Forall₂ (fun node truth => (reachable cast values node).Covers truth) equalities
      ((arguments.filter fun node => !node.isNullLiteral).map fun node =>
        reading.comparison .equal (env.column col) (node.eval reading env)) := by
  induction arguments generalizing equalities with
  | nil =>
      cases translated
      exact .nil
  | cons argument arguments ih =>
      simp only [List.mapM_cons, Option.bind_eq_bind, Option.bind_eq_some_iff, Option.pure_def,
        Option.some.injEq] at translated
      obtain ⟨equality, ⟨literal, typed, rfl⟩, rest, translatedRest, rfl⟩ := translated
      obtain ⟨-, present, -⟩ :=
        literalUnder_value faithful.exact faithful.declaredType_inUtc typed env
      rw [List.filter_cons, if_pos (by simp [present]), List.map_cons]
      exact .cons ((comparisonFact faithful carries typed).covers .equal) (ih translatedRest)

theorem translateIn_covers (faithful : Faithful cast reading declared)
    (carries : Carries cast declared values env) {expression : Node} {arguments : List Node}
    {node : PartitionNode}
    (translated : translateIn cast declared expression arguments = some node) :
    (reachable cast values node).Covers
      ((Node.predicateInConstlist expression arguments).truth reading env) := by
  simp only [translateIn, Option.bind_eq_bind, Option.bind_eq_some_iff, Option.pure_def,
    Option.some.injEq] at translated
  obtain ⟨name, named, listed, present, equalities, each, rfl⟩ := translated
  obtain ⟨col, rfl, rfl⟩ := columnName_eq_some named
  rw [← nonEmpty_eq_some present] at each
  rw [Node.truth_predicateInConstlist]
  exact reachable_or_covers (equalities_cover faithful carries each)

theorem translateBetween_covers (faithful : Faithful cast reading declared)
    (carries : Carries cast declared values env) {expression low high : Node}
    {node : PartitionNode}
    (translated : translateBetween cast declared expression low high = some node) :
    (reachable cast values node).Covers
      ((Node.predicateBetween expression low high).truth reading env) := by
  simp only [translateBetween, Option.bind_eq_bind, Option.bind_eq_some_iff, Option.pure_def,
    Option.some.injEq] at translated
  obtain ⟨name, named, lowLiteral, lowTyped, highLiteral, highTyped, rfl⟩ := translated
  obtain ⟨col, rfl, rfl⟩ := columnName_eq_some named
  rw [Node.truth_predicateBetween]
  have lowCovers := (comparisonFact faithful carries lowTyped).covers .greaterEqual
  have highCovers := (comparisonFact faithful carries highTyped).covers .lessEqual
  have both := reachable_and_covers (.cons lowCovers (.cons highCovers .nil))
  rwa [Truth.all_cons, Truth.all_cons, Truth.all_nil, Truth.and_true] at both

theorem getD_covers {translated : Option PartitionNode} {truth : Truth}
    (covers : ∀ node, translated = some node → (reachable cast values node).Covers truth) :
    (reachable cast values (translated.getD .untranslated)).Covers truth := by
  cases translated with
  | none => exact Reachable.any_covers truth
  | some node => exact covers node rfl

/-- Every truth value a row of the file gives a condition is among those the planner
computed. -/
theorem translate_covers (faithful : Faithful cast reading declared)
    (carries : Carries cast declared values env)
    (node : Node) :
    (reachable cast values (translate cast declared node)).Covers (node.truth reading env) := by
  induction node using Node.inductOnChildren with
  | step node ih =>
      have each (nodes : List Node) (covered : ∀ child ∈ nodes,
          (reachable cast values (translate cast declared child)).Covers
            (child.truth reading env)) :
          List.Forall₂ (fun node truth => (reachable cast values node).Covers truth)
            (translateEach cast declared nodes) (nodes.map (Node.truth reading env)) := by
        induction nodes with
        | nil => exact .nil
        | cons head rest ihRest =>
            exact .cons (covered head (by simp))
              (ihRest fun child member => covered child (by simp [member]))
      cases node with
      | predicateAnd expressions =>
          unfold translate
          split
          · exact Reachable.any_covers _
          · rw [Node.truth_predicateAnd]
            exact reachable_and_covers (each expressions ih)
      | predicateOr expressions =>
          unfold translate
          split
          · exact Reachable.any_covers _
          · rw [Node.truth_predicateOr]
            exact reachable_or_covers (each expressions ih)
      | predicateNot expression =>
          rw [Node.truth_predicateNot]
          exact (ih expression (by simp [Node.children])).negated
      | predicateIsNull expression =>
          rw [Node.truth_predicateIsNull]
          exact getD_covers fun node translated =>
            translateIsNull_covers faithful carries translated
      | predicateIsNotNull expression =>
          rw [Node.truth_predicateIsNotNull]
          refine getD_covers fun node translated => ?_
          obtain ⟨inner, translatedInner, rfl⟩ := Option.map_eq_some_iff.mp translated
          exact (translateIsNull_covers faithful carries translatedInner).negated
      | predicateInConstlist expression arguments =>
          exact getD_covers fun node translated => translateIn_covers faithful carries translated
      | predicateBetween expression left right =>
          exact getD_covers fun node translated =>
            translateBetween_covers faithful carries translated
      | comparison op left right =>
          exact getD_covers fun node translated =>
            translateComparison_covers faithful carries translated
      | _ => exact Reachable.any_covers _

/-- A file is kept whenever some row carrying its values makes the filter TRUE. -/
theorem keeps_of_carries (faithful : Faithful cast reading declared)
    (carries : Carries cast declared values env) {filter : Node}
    (matching : filter.truth reading env = some true) :
    (fromFilter cast (some filter) declared).keeps cast values = true :=
  (translate_covers faithful carries filter).ofTrue matching

end Soundness

end PartitionPredicate

end LakehouseEngine
