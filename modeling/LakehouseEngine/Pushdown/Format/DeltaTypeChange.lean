import LakehouseEngine.Types.ExasolType
import LakehouseEngine.Types.Tag
import LakehouseEngine.Types.Widening
import Mathlib.Data.List.Chain

/-!
# Recorded type changes of a Delta column

A Delta table may have widened a column's type since a data file was written.  The
planner accepts the changes of the protocol's list and gives the column the Arrow type
of its current Delta type.
-/

namespace LakehouseEngine.DeltaSchema

/-- A decimal type within the kernel's bounds. -/
structure DecimalType where
  precision : ℕ
  scale : ℕ
  valid : 1 ≤ precision ∧ precision ≤ 38 ∧ scale ≤ precision
  deriving DecidableEq

inductive PrimitiveType where
  | boolean | byte | short | integer | long | float | double
  | string | binary
  | date | timestamp | timestampNtz
  | void | intervalYearMonth | intervalDayTime
  | decimal (type : DecimalType)
  deriving DecidableEq

/-- The tag of a column's Arrow type; a decimal Exasol cannot declare travels as text. -/
def walkPrimitive : PrimitiveType → String
  | .boolean => "bool"
  | .byte | .short | .integer => "int32"
  | .long => "int64"
  | .float => "float32"
  | .double => "float64"
  | .string => "utf8"
  | .date => "date32"
  | .timestamp => "timestamptz_us"
  | .timestampNtz => "timestamp_us"
  | .void | .intervalYearMonth | .intervalDayTime => "utf8"
  | .decimal type =>
      match Decimal.new type.precision type.scale with
      | some decimal => decimalTag decimal.precision decimal.scale
      | none => "utf8"
  | .binary => "binary"

/-- The type the scan gives the column. -/
def logicalType (type : PrimitiveType) : ArrowType := arrowTypeFromTag (walkPrimitive type)

def widensDecimal (source : ℕ × ℕ) (target : DecimalType) : Bool :=
  let precisionGrowth : ℤ := target.precision - source.1
  let scaleGrowth : ℤ := target.scale - source.2
  0 ≤ scaleGrowth && scaleGrowth ≤ precisionGrowth

/-- The protocol's list of supported changes. -/
def widens (source target : PrimitiveType) : Bool :=
  match source, target with
  | .byte, .short | .byte, .integer | .byte, .long | .short, .integer | .short, .long
  | .integer, .long => true
  | .float, .double => true
  | .byte, .double | .short, .double | .integer, .double => true
  | .date, .timestampNtz => true
  | .decimal source, .decimal target => widensDecimal (source.precision, source.scale) target
  | .byte, .decimal target | .short, .decimal target | .integer, .decimal target =>
      widensDecimal (int32SourceDecimalPrecision, 0) target
  | .long, .decimal target => widensDecimal (int64SourceDecimalPrecision, 0) target
  | _, _ => false

structure RecordedTypeChange where
  fromType : String
  toType : String
  fieldPath : Option String

section History

-- The reading of a type name, the deserializer of the table's schema.
variable (parseDeltaType : String → Option PrimitiveType)

def isSupportedTypeChange (change : RecordedTypeChange) : Bool :=
  match parseDeltaType change.fromType, parseDeltaType change.toType with
  | some source, some target => widens source target
  | _, _ => false

/-- The changes a column has gone through, each from the type the one before it led to. -/
structure History where
  changes : List RecordedTypeChange
  nonempty : changes ≠ []
  linked : changes.IsChain fun earlier later => earlier.toType = later.fromType
  supported : ∀ change ∈ changes, isSupportedTypeChange parseDeltaType change = true

variable {parseDeltaType}

/-- A type the column has had. -/
def History.Had (history : History parseDeltaType) (type : PrimitiveType) : Prop :=
  ∃ change ∈ history.changes,
    parseDeltaType change.fromType = some type ∨ parseDeltaType change.toType = some type

/-- The type the column has now. -/
def History.Current (history : History parseDeltaType) (type : PrimitiveType) : Prop :=
  parseDeltaType (history.changes.getLast history.nonempty).toType = some type

end History

theorem logicalType_decimal (type : DecimalType) : logicalType (.decimal type) =
    if type.precision ≤ maxDecimalPrecision then
      .decimal128 type.precision type.scale else .utf8 := by
  obtain ⟨digits, capped, fraction⟩ := type.valid
  simp only [logicalType, walkPrimitive, Decimal.new]
  by_cases small : type.precision ≤ maxDecimalPrecision
  · have reads := @arrowTypeFromTag_decimal type.precision type.scale (by omega) (by omega)
    rw [dif_pos ⟨digits, small, fraction⟩, if_pos small]
    exact reads
  · rw [dif_neg (fun valid => small valid.2.1), if_neg small]
    decide

theorem widensDecimal_iff {source : ℕ × ℕ} {target : DecimalType} :
    widensDecimal source target = true ↔
      LakehouseEngine.widensDecimal (source.1, source.2) (target.precision, target.scale) = true :=
  Iff.rfl

theorem widensDecimal_trans {first : ℕ × ℕ} {second third : DecimalType}
    (left : widensDecimal first second = true)
    (right : widensDecimal (second.precision, second.scale) third = true) :
    widensDecimal first third = true := by
  rw [widensDecimal_iff] at *
  exact LakehouseEngine.widensDecimal_trans left right

/-- What each supported change is. -/
inductive Changes : PrimitiveType → PrimitiveType → Prop where
  | byteToShort : Changes .byte .short
  | narrowToInteger {source : PrimitiveType} (narrow : source ∈ [.byte, .short]) :
      Changes source .integer
  | toLong {source : PrimitiveType} (narrow : source ∈ [.byte, .short, .integer]) :
      Changes source .long
  | toDouble {source : PrimitiveType} (narrow : source ∈ [.byte, .short, .integer, .float]) :
      Changes source .double
  | date : Changes .date .timestampNtz
  | decimal {source target : DecimalType}
      (fits : widensDecimal (source.precision, source.scale) target = true) :
      Changes (.decimal source) (.decimal target)
  | integerToDecimal {source : PrimitiveType} {target : DecimalType}
      (narrow : source ∈ [.byte, .short, .integer])
      (fits : widensDecimal (int32SourceDecimalPrecision, 0) target = true) :
      Changes source (.decimal target)
  | longToDecimal {target : DecimalType}
      (fits : widensDecimal (int64SourceDecimalPrecision, 0) target = true) :
      Changes .long (.decimal target)

theorem changes_of_widens {source target : PrimitiveType} (widened : widens source target = true) :
    Changes source target := by
  unfold widens at widened
  split at widened
  · exact .byteToShort
  · exact .narrowToInteger (by decide)
  · exact .toLong (by decide)
  · exact .narrowToInteger (by decide)
  · exact .toLong (by decide)
  · exact .toLong (by decide)
  · exact .toDouble (by decide)
  · exact .toDouble (by decide)
  · exact .toDouble (by decide)
  · exact .toDouble (by decide)
  · exact .date
  · exact .decimal widened
  · exact .integerToDecimal (by decide) widened
  · exact .integerToDecimal (by decide) widened
  · exact .integerToDecimal (by decide) widened
  · exact .longToDecimal widened
  · cases widened

theorem Changes.trans {first second third : PrimitiveType} (left : Changes first second)
    (right : Changes second third) : Changes first third := by
  have fromLong {target : DecimalType}
      (fits : widensDecimal (int64SourceDecimalPrecision, 0) target = true) :
      widensDecimal (int32SourceDecimalPrecision, 0) target = true := by
    rw [widensDecimal_iff] at *
    exact LakehouseEngine.widensDecimal_trans (by decide) fits
  cases left with
  | byteToShort =>
      cases right with
      | narrowToInteger => exact .narrowToInteger (by decide)
      | toLong => exact .toLong (by decide)
      | toDouble => exact .toDouble (by decide)
      | integerToDecimal _ fits => exact .integerToDecimal (by decide) fits
  | narrowToInteger narrow =>
      have wide : first ∈ [PrimitiveType.byte, .short, .integer] := List.mem_append_left [_] narrow
      cases right with
      | narrowToInteger impossible => exact absurd impossible (by decide)
      | toLong => exact .toLong wide
      | toDouble => exact .toDouble (List.mem_append_left [_] wide)
      | integerToDecimal _ fits => exact .integerToDecimal wide fits
  | toLong narrow =>
      cases right with
      | narrowToInteger impossible | toLong impossible | toDouble impossible
      | integerToDecimal impossible => exact absurd impossible (by decide)
      | longToDecimal fits => exact .integerToDecimal narrow (fromLong fits)
  | toDouble | date =>
      cases right with
      | narrowToInteger impossible | toLong impossible | toDouble impossible
      | integerToDecimal impossible => exact absurd impossible (by decide)
  | decimal fits =>
      cases right with
      | decimal fits' => exact .decimal (widensDecimal_trans fits fits')
      | narrowToInteger impossible | toLong impossible | toDouble impossible
      | integerToDecimal impossible => simp at impossible
  | integerToDecimal narrow fits =>
      cases right with
      | decimal fits' => exact .integerToDecimal narrow (widensDecimal_trans fits fits')
      | narrowToInteger impossible | toLong impossible | toDouble impossible
      | integerToDecimal impossible => simp at impossible
  | longToDecimal fits =>
      cases right with
      | decimal fits' => exact .longToDecimal (widensDecimal_trans fits fits')
      | narrowToInteger impossible | toLong impossible | toDouble impossible
      | integerToDecimal impossible => simp at impossible

section History

variable {parseDeltaType : String → Option PrimitiveType}

theorem changes_of_supported {change : RecordedTypeChange}
    (supported : isSupportedTypeChange parseDeltaType change = true) :
    ∃ source target, parseDeltaType change.fromType = some source ∧
      parseDeltaType change.toType = some target ∧ Changes source target := by
  unfold isSupportedTypeChange at supported
  split at supported
  · next source target sourceType targetType =>
      exact ⟨source, target, sourceType, targetType, changes_of_widens supported⟩
  · cases supported

/-- Along linked changes every type leads to the last one. -/
theorem changes_to_last (change : RecordedTypeChange) (changes : List RecordedTypeChange)
    (linked : (change :: changes).IsChain fun earlier later => earlier.toType = later.fromType)
    (supported : ∀ one ∈ change :: changes, isSupportedTypeChange parseDeltaType one = true)
    {current : PrimitiveType}
    (last : parseDeltaType ((change :: changes).getLast (List.cons_ne_nil _ _)).toType =
      some current) :
    ∀ one ∈ change :: changes, ∀ type,
      (parseDeltaType one.fromType = some type → Changes type current) ∧
      (parseDeltaType one.toType = some type → type = current ∨ Changes type current) := by
  induction changes generalizing change with
  | nil =>
      intro one member type
      obtain rfl := List.mem_singleton.mp member
      obtain ⟨source, target, sourceType, targetType, change⟩ :=
        changes_of_supported (supported one List.mem_cons_self)
      cases targetType.symm.trans last
      constructor
      · intro here
        cases sourceType.symm.trans here
        exact change
      · intro here
        cases targetType.symm.trans here
        exact .inl rfl
  | cons next changes ih =>
      obtain ⟨link, linked⟩ := List.isChain_cons_cons.mp linked
      have rest := ih next linked (fun one member =>
        supported one (List.mem_cons_of_mem _ member)) last
      intro one member type
      rcases List.mem_cons.mp member with rfl | member
      · obtain ⟨source, target, sourceType, targetType, change⟩ :=
          changes_of_supported (supported one List.mem_cons_self)
        have onward := (rest next List.mem_cons_self target).1 (link ▸ targetType)
        constructor
        · intro here
          cases sourceType.symm.trans here
          exact change.trans onward
        · intro here
          cases targetType.symm.trans here
          exact .inr onward
      · exact rest one member type

/-- Every type a column has had widens to its current one. -/
theorem History.had_changes (history : History parseDeltaType) {type current : PrimitiveType}
    (had : history.Had type) (now : history.Current current) :
    type = current ∨ Changes type current := by
  obtain ⟨changes, nonempty, linked, supported⟩ := history
  cases changes with
  | nil => exact absurd rfl nonempty
  | cons change changes =>
      obtain ⟨one, member, here | here⟩ := had
      · exact .inr ((changes_to_last change changes linked supported now one member type).1 here)
      · exact (changes_to_last change changes linked supported now one member type).2 here

/-- The current type is one that another was changed to. -/
theorem History.exists_changes (history : History parseDeltaType) {current : PrimitiveType}
    (now : history.Current current) : ∃ type, Changes type current := by
  obtain ⟨source, target, -, targetType, change⟩ :=
    changes_of_supported (history.supported _ (List.getLast_mem history.nonempty))
  cases targetType.symm.trans now
  exact ⟨source, change⟩

end History

end LakehouseEngine.DeltaSchema
