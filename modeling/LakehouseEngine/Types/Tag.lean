import LakehouseEngine.Data.ListRelation
import LakehouseEngine.Text.Numeral
import LakehouseEngine.Types.ArrowType

/-!
# Type tags

The text under which a column's Arrow type travels from the planner to the scan.
-/

namespace LakehouseEngine

/-- What stands between an opening and a closing text. -/
def stripEnds (opening closing text : List Char) : Option (List Char) :=
  if opening <+: text ∧ closing <:+ text.drop opening.length then
    some ((text.drop opening.length).take (text.length - opening.length - closing.length))
  else none

theorem stripEnds_append (opening inner closing : List Char) :
    stripEnds opening closing (opening ++ inner ++ closing) = some inner := by
  simp [stripEnds, List.append_assoc]

/-- An integer of the given range; an unsigned one takes no minus sign. -/
def parseBetween (low high : ℤ) (text : List Char) : Option ℤ :=
  (Text.integerValue text).bind fun value =>
    if low ≤ value ∧ value ≤ high ∧ (0 ≤ low → text.head? ≠ some '-') then some value else none

theorem parseBetween_toString {low high : ℤ} {value : ℕ} (least : low ≤ value)
    (most : value ≤ high) : parseBetween low high (toString value).toList = some (value : ℤ) := by
  have digits : (toString value).toList = Nat.toDigits 10 value := by
    rw [Nat.toString_eq_repr, Nat.toList_repr]
  have valid := Text.allDigits_toDigits value
  have read : Text.integerValue (Nat.toDigits 10 value) = some (value : ℤ) := by
    rw [Text.integerValue, Text.splitSign_digits valid]
    simp [valid, Text.natValue_toDigits, Nat.toDigits_ne_nil]
  have unsigned : (Nat.toDigits 10 value).head? ≠ some '-' := by
    intro minus
    have digit := List.all_eq_true.mp valid '-' (List.mem_of_head? minus)
    exact absurd digit (by decide)
  rw [parseBetween, digits, read]
  simp [least, most, unsigned]

/-- The tags without arguments. -/
def plainTags : List (String × ArrowType) :=
  [("bool", .boolean),
   ("int8", .integer 8 true), ("int16", .integer 16 true),
   ("int32", .integer 32 true), ("int64", .integer 64 true),
   ("uint8", .integer 8 false), ("uint16", .integer 16 false),
   ("uint32", .integer 32 false), ("uint64", .integer 64 false),
   ("float32", .float32), ("float64", .float64),
   ("utf8", .utf8), ("large_utf8", .largeUtf8),
   ("date32", .date32), ("binary", .binary),
   ("timestamp_s", .timestamp .second none),
   ("timestamp_ms", .timestamp .millisecond none),
   ("timestamp_us", .timestamp .microsecond none),
   ("timestamp_ns", .timestamp .nanosecond none),
   ("timestamptz_s", .timestamp .second (some "UTC")),
   ("timestamptz_ms", .timestamp .millisecond (some "UTC")),
   ("timestamptz_us", .timestamp .microsecond (some "UTC")),
   ("timestamptz_ns", .timestamp .nanosecond (some "UTC"))]

def fixedSizeBinaryFromTag (tag : String) : Option ArrowType := do
  let inner ← stripEnds "fixed_size_binary(".toList [')'] tag.toList
  let width ← parseBetween (-2 ^ 31) (2 ^ 31 - 1) inner
  return .fixedSizeBinary width

def decimalFromTag (tag : String) : Option ArrowType := do
  let inner ← stripEnds "decimal128(".toList [')'] tag.toList
  let (precision, scale) ← Text.splitOnce ',' inner
  let precision ← parseBetween 0 255 (WhiteSpace.trim precision)
  let scale ← parseBetween (-128) 127 (WhiteSpace.trim scale)
  return .decimal128 precision.toNat scale

/-- An unknown tag is text. -/
def arrowTypeFromTag (tag : String) : ArrowType :=
  (((plainTags.lookup tag).or (fixedSizeBinaryFromTag tag)).or (decimalFromTag tag)).getD .utf8

/-- Every timestamp that a tag names is without a zone or in UTC. -/
theorem arrowTypeFromTag_inUtc (tag : String) : (arrowTypeFromTag tag).inUtc = true := by
  unfold arrowTypeFromTag
  cases plain : plainTags.lookup tag with
  | some type =>
      have all : ∀ pair ∈ plainTags, pair.2.inUtc = true := by decide
      exact all (tag, type) (mem_of_lookup_eq_some plain)
  | none =>
      cases sized : fixedSizeBinaryFromTag tag with
      | some type =>
          simp only [fixedSizeBinaryFromTag, Option.bind_eq_bind, Option.bind_eq_some_iff] at sized
          obtain ⟨-, -, width, -, made⟩ := sized
          cases made
          rfl
      | none =>
          cases number : decimalFromTag tag with
          | none => rfl
          | some type =>
              simp only [decimalFromTag, Option.bind_eq_bind, Option.bind_eq_some_iff] at number
              obtain ⟨inner, -, pair, -, precision, -, scale, -, made⟩ := number
              cases made
              rfl

def decimalTag (precision scale : ℕ) : String :=
  "decimal128(" ++ toString precision ++ "," ++ toString scale ++ ")"

theorem toList_decimalTag (precision scale : ℕ) : (decimalTag precision scale).toList =
    "decimal128(".toList ++ ((toString precision).toList ++ ',' :: (toString scale).toList) ++
      [')'] := by
  simp [decimalTag]

theorem trim_toString (value : ℕ) : WhiteSpace.trim (toString value).toList =
    (toString value).toList :=
  (Text.numeralValue_toString value).2

theorem decimalFromTag_decimalTag {precision scale : ℕ} (digits : precision ≤ 255)
    (fraction : scale ≤ 127) :
    decimalFromTag (decimalTag precision scale) = some (.decimal128 precision scale) := by
  have cut : Text.splitOnce ',' ((toString precision).toList ++ ',' :: (toString scale).toList) =
      some ((toString precision).toList, (toString scale).toList) :=
    Text.splitOnce_of_not_mem _ (Text.not_mem_toString (by decide) precision)
  unfold decimalFromTag
  rw [toList_decimalTag, stripEnds_append]
  simp only [Option.bind_eq_bind, Option.bind_some, cut, trim_toString]
  rw [parseBetween_toString (by omega) (by omega), parseBetween_toString (by omega) (by omega)]
  rfl

/-- A decimal's tag reads back as the decimal. -/
theorem arrowTypeFromTag_decimal {precision scale : ℕ} (digits : precision ≤ 255)
    (fraction : scale ≤ 127) :
    arrowTypeFromTag (decimalTag precision scale) = .decimal128 precision scale := by
  have argued : ',' ∈ (decimalTag precision scale).toList := by
    rw [toList_decimalTag]
    simp
  have unargued : ∀ pair ∈ plainTags, ',' ∉ pair.1.toList := by decide
  have plain : plainTags.lookup (decimalTag precision scale) = none := by
    rw [List.lookup_eq_none_iff]
    intro pair member
    rw [bne_iff_ne]
    intro same
    exact unargued pair member (same ▸ argued)
  have sized : fixedSizeBinaryFromTag (decimalTag precision scale) = none := by
    unfold fixedSizeBinaryFromTag stripEnds
    rw [toList_decimalTag, if_neg]
    · rfl
    · simp
  rw [arrowTypeFromTag, plain, sized, decimalFromTag_decimalTag digits fraction]
  rfl

end LakehouseEngine
