import LakehouseEngine.Types.ArrowType

/-!
# Type mapping

The Exasol type each Arrow type is declared as, the precision a timestamp is emitted
at, and what the mapping reads off a timestamp literal's text.
-/

namespace LakehouseEngine

/-- Two hex characters per byte. -/
def hexVarchar (width : Nat) : ExasolType :=
  if 1 ≤ width * 2 ∧ width * 2 ≤ maxVarcharSize then .varchar (width * 2) false
  else .widestVarchar

/-- `compatible_exasol_type`: `none` where the scan emits the value as JSON text. -/
def compatibleExasolType : ArrowType → Option ExasolType
  | .boolean => some .boolean
  | .integer 8 _ => some (.decimal ⟨3, 0, by decide⟩)
  | .integer 16 _ => some (.decimal ⟨5, 0, by decide⟩)
  | .integer 32 true => some (.decimal ⟨10, 0, by decide⟩)
  | .integer 32 false | .integer 64 _ => some (.decimal ⟨20, 0, by decide⟩)
  | .float32 | .float64 => some .doublePrecision
  | .utf8 | .largeUtf8 => some .widestVarchar
  | .date32 => some .date
  | .timestamp _ _ => some (.timestamp ExasolType.bareTimestampPrecision)
  -- A negative scale has no Exasol `DECIMAL`.
  | .decimal128 precision (.ofNat scale) => (Decimal.new precision scale).map .decimal
  | _ => none

def arrowToExasolType : ArrowType → ExasolType
  | .fixedSizeBinary width => hexVarchar width.toNat
  | type => (compatibleExasolType type).getD .widestVarchar

def needsJsonFallback (type : ArrowType) : Bool := (compatibleExasolType type).isNone

def ArrowType.isBinary : ArrowType → Bool
  | .binary | .fixedSizeBinary _ => true
  | _ => false

theorem ArrowType.isText_of_isBinary {type : ArrowType} (isBinary : type.isBinary = true) :
    type.isText = false := by
  cases type with
  | binary | fixedSizeBinary => rfl
  | _ => cases isBinary

/-- The widths a timestamp can be emitted at. -/
inductive TimestampPrecision where
  | millisecond | microsecond | nanosecond
  deriving DecidableEq

namespace TimestampPrecision

def arrowUnit : TimestampPrecision → TimeUnit
  | .millisecond => .millisecond
  | .microsecond => .microsecond
  | .nanosecond => .nanosecond

/-- The coarsest width that holds every declared digit. -/
def fromDeclaredDigits (digits : Nat) : TimestampPrecision :=
  if digits ≤ 3 then .millisecond else if digits ≤ 6 then .microsecond else .nanosecond

def fromArrowUnit : TimeUnit → TimestampPrecision
  | .second | .millisecond => .millisecond
  | .microsecond => .microsecond
  | .nanosecond => .nanosecond

def declaration : TimestampPrecision → ExasolType
  | .millisecond => .timestamp 3
  | .microsecond => .timestamp 6
  | .nanosecond => .timestamp 9

end TimestampPrecision

/-- Exasol 8.x stores every timestamp at millisecond precision. -/
inductive EngineTimestampSupport where
  | millisecondOnly | declaredPrecision
  deriving DecidableEq

/-- The width a source column is declared at. -/
def EngineTimestampSupport.clamp : EngineTimestampSupport → TimestampPrecision → TimestampPrecision
  | .millisecondOnly, _ => .millisecond
  | .declaredPrecision, source => source

/-- The fractional digits of a timestamp text, without trailing zeros. -/
def timestampLiteralDigits (literal : List Char) : Nat :=
  match Text.splitOnce '.' literal with
  | some (_, fraction) => (Text.trimEndMatches '0' fraction).length
  | none => 0

/-- A timestamp has as many fractional digits as its text, trailing zeros apart. -/
theorem timestamp_hasDigits {reading : Reading} {text : List Char} {seconds : ℚ}
    (value : reading.timestamp text = some seconds) :
    Text.HasDigits (timestampLiteralDigits text) seconds := by
  unfold Reading.timestamp at value
  unfold timestampLiteralDigits
  cases split : Text.splitOnce '.' text with
  | none =>
      rw [split] at value
      obtain ⟨start, -, rfl⟩ := Option.map_eq_some_iff.mp value
      exact Text.hasDigits_intCast _ start
  | some parts =>
      obtain ⟨instant, fraction⟩ := parts
      rw [split] at value
      dsimp only at value
      split at value
      · obtain ⟨start, -, rfl⟩ := Option.map_eq_some_iff.mp value
        rw [← Text.fractionValue_trim]
        exact (Text.hasDigits_intCast _ start).add (Text.hasDigits_fractionValue _)
      · simp at value

/-- A timestamp literal without digits below a microsecond has its microseconds as value. -/
theorem timestamp_literal {reading : Reading} {lit : Literal} {text : String} {micros : ℤ}
    (kind : lit.kind = .timestamp ∨ lit.kind = .timestampUtc)
    (short : lit.value.asStr = some text ∧ timestampLiteralDigits text.toList ≤ 6)
    (readable : lit.isNull = false → reading.literal lit ≠ .null)
    (parsed : ∀ seconds, reading.timestamp text.toList = some seconds →
      micros = ⌊seconds * 10 ^ 6⌋) :
    lit.isNull = false ∧ reading.literal lit = .timestamp (micros / 10 ^ 6) ∧
      Text.HasDigits 6 ((micros : ℚ) / 10 ^ 6) := by
  obtain ⟨kindOf, value, width⟩ := lit
  obtain ⟨string, digits⟩ := short
  cases value with
  | string value =>
      cases string
      have present : (⟨kindOf, .string text, width⟩ : Literal).isNull = false := by
        rcases kind with rfl | rfl <;> rfl
      have read : reading.literal ⟨kindOf, .string text, width⟩ =
          ((reading.timestamp text.toList).map Value.timestamp).getD .null := by
        rcases kind with rfl | rfl <;> rfl
      cases seconds : reading.timestamp text.toList with
      | none =>
          rw [seconds] at read
          exact absurd read (readable present)
      | some exact =>
          have exactDigits : Text.HasDigits 6 exact := (timestamp_hasDigits seconds).mono digits
          rw [parsed exact seconds, exactDigits.floor_div]
          exact ⟨present, by rw [read, seconds]; rfl, exactDigits⟩
  | _ => simp [JsonScalar.asStr] at string

end LakehouseEngine
