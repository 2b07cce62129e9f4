import LakehouseEngine.Expression.Semantics

/-!
# Arrow types and the conversion of text to them

The Arrow types the planner distinguishes, and the contract of the one library call
that turns a text into a value of such a type.
-/

namespace LakehouseEngine

inductive TimeUnit where
  | second | millisecond | microsecond | nanosecond
  deriving DecidableEq

/-- The fractional-second digits of a unit. -/
def TimeUnit.digits : TimeUnit → Nat
  | .second => 0
  | .millisecond => 3
  | .microsecond => 6
  | .nanosecond => 9

/-- An Arrow type.  `other` stands for those no literal is converted to. -/
inductive ArrowType where
  | utf8 | largeUtf8 | utf8View
  | integer (bits : Nat) (signed : Bool)
  | float32 | float64
  | decimal128 (precision : Nat) (scale : Int)
  | decimal256 (precision : Nat) (scale : Int)
  | date32 | date64
  | timestamp (unit : TimeUnit) (timezone : Option String)
  | boolean
  | binary
  | fixedSizeBinary (width : Int)
  | other (name : String)
  deriving DecidableEq

def ArrowType.isText : ArrowType → Bool
  | .utf8 | .largeUtf8 | .utf8View => true
  | _ => false

/-- The fraction digits of an exact numeric type. -/
def ArrowType.scale : ArrowType → Option Int
  | .integer _ _ => some 0
  | .decimal128 _ scale | .decimal256 _ scale => some scale
  | _ => none

/-- A timestamp type without a zone, or in UTC, and every other type. -/
def ArrowType.inUtc : ArrowType → Bool
  | .timestamp _ timezone => timezone.all (· == "UTC")
  | _ => true

/-- A typed value, as `ScalarValue` holds it. -/
structure Scalar where
  dataType : ArrowType
  value : Value

/-- `ScalarValue::try_from_string`, the strict cast of a text to a type. -/
structure TextCast where
  tryFromString : ArrowType → String → Option Value

/-- What the strict cast promises: it fails or gives a value, never NULL, and a text
whose exact value the type can hold becomes that value. -/
structure TextCast.Exact (cast : TextCast) (reading : Reading) : Prop where
  strict : ∀ type text value, cast.tryFromString type text = some value → value ≠ .null
  ofText : ∀ type text, type.isText = true → cast.tryFromString type text = some (.text text)
  ofNumeral : ∀ type (scale : Nat) text number value, type.scale = some (scale : Int) →
    Text.numeralValue text.toList = some number → Text.HasDigits scale number →
    cast.tryFromString type text = some value → value = .num number
  ofDate : ∀ type text days value, type = .date32 ∨ type = .date64 →
    reading.date text.toList = some days → cast.tryFromString type text = some value →
    value = .date days
  ofTimestamp : ∀ unit timezone text seconds value,
    (ArrowType.timestamp unit timezone).inUtc = true →
    reading.timestamp text.toList = some seconds → Text.HasDigits unit.digits seconds →
    cast.tryFromString (.timestamp unit timezone) text = some value → value = .timestamp seconds
  ofBoolean : ∀ flag value,
    cast.tryFromString .boolean (if flag then "true" else "false") = some value →
    value = .bool flag

/-- The cast that converts exact values only. -/
def TextCast.exactOnly (reading : Reading) : TextCast where
  tryFromString type text :=
    match type with
    | .utf8 | .largeUtf8 | .utf8View => some (.text text)
    | .integer _ _ | .decimal128 _ _ | .decimal256 _ _ =>
        (Text.numeralValue text.toList).map Value.num
    | .date32 | .date64 => (reading.date text.toList).map Value.date
    | .timestamp _ _ => (reading.timestamp text.toList).map Value.timestamp
    | .boolean =>
        if text = "true" then some (.bool true)
        else if text = "false" then some (.bool false)
        else none
    | .float32 | .float64 | .binary | .fixedSizeBinary _ | .other _ => none

theorem TextCast.exactOnly_exact (reading : Reading) :
    (TextCast.exactOnly reading).Exact reading where
  strict type text value converted := by
    rintro rfl
    cases type with
    | boolean =>
        simp only [exactOnly] at converted
        split at converted
        · simp at converted
        · split at converted <;> simp at converted
    | _ => simp [exactOnly] at converted
  ofText type text isText := by cases type <;> simp_all [exactOnly, ArrowType.isText]
  ofNumeral type scale text number value typed valued _ converted := by
    cases type <;> simp_all [exactOnly, ArrowType.scale]
  ofDate type text days value typed read converted := by
    rcases typed with rfl | rfl <;> simp_all [exactOnly]
  ofTimestamp unit timezone text seconds value _ read _ converted := by
    simp_all [exactOnly]
  ofBoolean flag value converted := by
    cases flag <;> simp_all [exactOnly]

end LakehouseEngine
