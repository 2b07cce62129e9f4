import LakehouseEngine.Numeric.BinaryFloat
import LakehouseEngine.Numeric.FixedPoint
import LakehouseEngine.Pushdown.Format.DeltaTypeChange
import LakehouseEngine.Types.Mapping

/-!
# Which stored types a declared column admits

A data file may store a column at another type than the one the table declares now.
The scan reads such a column only if the stored type is admitted, and then leaves the
conversion to Arrow.
-/

namespace LakehouseEngine.FieldIdProjection

open FixedPoint DeltaSchema

/-- A type a data file can store a column at. -/
inductive FileType where
  | plain (type : ArrowType)
  | null
  | largeBinary | binaryView
  | dictionary (value : FileType)
  | nested
  deriving DecidableEq

def isUtc (zone : String) : Bool := zone = "UTC" || zone = "+00:00"

def admitsTimestamp (physical logical : ArrowType) : Bool :=
  match physical, logical with
  | .timestamp physicalUnit physicalZone, .timestamp logicalUnit logicalZone =>
      let shiftsInstant := logicalZone.isNone && physicalZone.any fun zone => !isUtc zone
      physicalUnit.digits ≤ logicalUnit.digits && !shiftsInstant
  | _, _ => false

def admitsAsText (physical logical : ArrowType) : Bool :=
  logical.isText && (physical.isText || needsJsonFallback physical)

/-- Whether a column stored as `physical` may be cast to `logical`. -/
def admits (physical : FileType) (logical : ArrowType) : Bool :=
  match physical with
  | .null => true
  | .plain type =>
      widen type logical = some logical || admitsTimestamp type logical ||
        admitsAsText type logical ||
        (logical = .binary && type.isBinary)
  -- Both render as text and read as bytes.
  | .largeBinary | .binaryView => logical.isText || logical = .binary
  | .dictionary value => admits value logical
  | .nested => false

/-! ## Values -/

/-- What a value stands for: a number, or the seconds of an instant. -/
inductive Quantity where
  | number (value : ℚ)
  | instant (seconds : ℚ)

/-- What a stored integer stands for; a date is its midnight. -/
def quantity : ArrowType → ℤ → Option Quantity
  | .integer _ _, word => some (.number word)
  | .decimal128 _ scale, word | .decimal256 _ scale, word => some (.number (worth scale word))
  | .date32, word => some (.instant ((word * 86400 : ℤ) : ℚ))
  | .date64, word => some (.instant (worth 3 word))
  | .timestamp unit _, word => some (.instant (worth unit.digits word))
  | _, _ => none

/-- The integers a type stores, for dates those of the years 1 to 9999. -/
def Stores : ArrowType → ℤ → Prop
  | .integer bits true, word => bits ∈ [8, 16, 32, 64] ∧ InRange bits word
  | .integer bits false, word => bits ∈ [8, 16, 32, 64] ∧ 0 ≤ word ∧ word < 2 ^ bits
  | .decimal128 precision _, word | .decimal256 precision _, word => FixedPoint.Fits precision word
  | .date32, word => -719162 ≤ word ∧ word ≤ 2932896
  | .date64, word => -719162 * 86400000 ≤ word ∧ word ≤ 2932896 * 86400000
  | .timestamp _ _, word => InRange 64 word
  | _, _ => False

/-- A converted value. -/
inductive Cell where
  | word (value : ℤ)
  | float (value : ℚ)
  | text (value : String)

/-- Arrow's cast of a stored integer, and what a text spells. -/
structure ArrowCast where
  convert : ArrowType → ArrowType → ℤ → Option Cell
  spelled : String → Option Quantity

variable {cast : ArrowCast}

/-- What a cell of a type stands for. -/
def ArrowCast.quantity (cast : ArrowCast) : ArrowType → Cell → Option Quantity
  | .float64, .float value => some (.number value)
  | .utf8, .text value => cast.spelled value
  | type, .word value => FieldIdProjection.quantity type value
  | _, _ => none

/-- A cell other than text that a type can hold. -/
def Held : ArrowType → Cell → Prop
  | .float64, .float value => BinaryFloat.binary64.IsValue value
  | type, .word value => Stores type value
  | _, _ => False

def ArrowCast.Represents (cast : ArrowCast) (type : ArrowType) (cell : Cell) (value : Quantity) :
    Prop :=
  Held type cell ∧ cast.quantity type cell = some value

/-- A timestamp without a zone or in UTC, or another type. -/
def inUtc : ArrowType → Bool
  | .timestamp _ (some zone) => isUtc zone
  | _ => true

/-- What the cast promises of an admitted pair of types and a stored value, where no zone is
applied: a value the target holds is kept, text spells the value, and a timestamp that leaves its
word is an error. -/
structure ArrowCast.Strict (cast : ArrowCast) : Prop where
  exact : ∀ source target word value, admits (.plain source) target = true → Stores source word →
    inUtc source = true → inUtc target = true →
    FieldIdProjection.quantity source word = some value →
    (∃ cell, cast.Represents target cell value) →
    ∃ cell, cast.convert source target word = some cell ∧ cast.Represents target cell value
  shows : ∀ source word value, admits (.plain source) .utf8 = true → Stores source word →
    FieldIdProjection.quantity source word = some value →
    ∃ text, cast.convert source .utf8 word = some (.text text) ∧ cast.spelled text = some value
  overflow : ∀ unit finer zone zone' word,
    admitsTimestamp (.timestamp unit zone) (.timestamp finer zone') = true → InRange 64 word →
    ¬ InRange 64 (word * 10 ^ (finer.digits - unit.digits)) →
    cast.convert (.timestamp unit zone) (.timestamp finer zone') word = none

/-- The stored integer is converted to a cell that stands for the same. -/
def ConvertsExactly (cast : ArrowCast) (physical logical : ArrowType) (word : ℤ) : Prop :=
  ∀ value, quantity physical word = some value →
    ∃ cell, cast.convert physical logical word = some cell ∧ cast.quantity logical cell = some value

theorem convertsExactly_of_representable (strict : cast.Strict) {physical logical : ArrowType}
    {word : ℤ} (admitted : admits (.plain physical) logical = true) (stored : Stores physical word)
    (sourceZone : inUtc physical = true) (targetZone : inUtc logical = true)
    (represented : ∀ value, quantity physical word = some value →
      ∃ cell, cast.Represents logical cell value) :
    ConvertsExactly cast physical logical word := by
  intro value stands
  obtain ⟨cell, converted, -, same⟩ := strict.exact physical logical word value admitted stored
    sourceZone targetZone stands (represented value stands)
  exact ⟨cell, converted, same⟩

theorem widen_eq_some_iff {physical logical : ArrowType} :
    widen physical logical = some logical ↔ physical = logical ∨ Widens physical logical := by
  rw [← widensTo_iff, ← ArrowType.le_iff, widen_eq_join]
  constructor
  · intro joined
    exact (RunningMaximum.join_eq_some joined).1
  · intro below
    exact if_pos below

/-- Every integer of 32 bits is a 64-bit floating-point number. -/
theorem isValue_of_inRange {word : ℤ} (held : InRange 32 word) :
    BinaryFloat.binary64.IsValue word := by
  refine ⟨word, 0, by decide, by decide, ?_, by simp [BinaryFloat.pow2]⟩
  obtain ⟨low, high⟩ := held
  rw [abs_lt]
  constructor
  · norm_num [BinaryFloat.binary64] at *
    linarith
  · norm_num [BinaryFloat.binary64] at *
    linarith

@[simp] theorem ArrowCast.quantity_word (type : ArrowType) (word : ℤ) :
    cast.quantity type (.word word) = FieldIdProjection.quantity type word := by
  cases type <;> rfl

@[simp] theorem held_word (type : ArrowType) (word : ℤ) : Held type (.word word) ↔
    Stores type word := by
  cases type <;> rfl

theorem represents_decimal {digits wider : ℕ} {scale finer word : ℤ}
    (fits : FixedPoint.Fits digits word)
    (grows : LakehouseEngine.widensDecimal (digits, scale) (wider, finer) = true) :
    cast.Represents (.decimal128 wider finer) (.word (word * 10 ^ (finer - scale).toNat))
      (.number (worth scale word)) := by
  obtain ⟨le, room⟩ := LakehouseEngine.widensDecimal_iff.mp grows
  constructor
  · exact (held_word _ _).mpr (fits.rescale le room)
  · rw [ArrowCast.quantity_word, ← worth_shift word le]
    rfl

/-- A widening keeps every stored value. -/
theorem representable_of_widens {physical logical : ArrowType} (wider : Widens physical logical)
    {word : ℤ} (stored : Stores physical word) {value : Quantity}
    (stands : quantity physical word = some value) :
    ∃ cell, cast.Represents logical cell value := by
  cases wider with
  | integer narrower wider grows =>
      refine ⟨.word word, (held_word _ _).mpr ⟨?_, stored.2.mono grows.le⟩, ?_⟩
      · exact List.mem_append_right [8, 16] wider
      · exact (ArrowCast.quantity_word _ word).trans stands
  | float => exact stored.elim
  | integerToFloat narrow =>
      cases stands
      refine ⟨.float word, isValue_of_inRange (stored.2.mono ?_), rfl⟩
      have small : ∀ bits ∈ [8, 16, 32], bits ≤ 32 := by decide
      exact small _ narrow
  | decimal fits =>
      cases stands
      exact ⟨_, represents_decimal stored fits⟩
  | integerToDecimal narrow fits =>
      cases stands
      have small : ∀ bits ∈ [8, 16, 32], bits ≤ 32 := by decide
      have digits : FixedPoint.Fits int32SourceDecimalPrecision word :=
        (stored.2.mono (small _ narrow)).fits (by norm_num [int32SourceDecimalPrecision])
      rw [← worth_zero word]
      exact ⟨_, represents_decimal digits fits⟩
  | longToDecimal fits =>
      cases stands
      have digits : FixedPoint.Fits int64SourceDecimalPrecision word :=
        stored.2.fits (by norm_num [int64SourceDecimalPrecision])
      rw [← worth_zero word]
      exact ⟨_, represents_decimal digits fits⟩
  | date =>
      cases stands
      obtain ⟨low, high⟩ := stored
      refine ⟨.word (word * 86400 * 10 ^ (6 - 0 : ℤ).toNat), (held_word _ _).mpr ?_, ?_⟩
      · have micros : (10 : ℤ) ^ (6 - 0 : ℤ).toNat = 1000000 := rfl
        rw [micros]
        constructor
        · norm_num
          omega
        · norm_num
          omega
      · rw [ArrowCast.quantity_word, ← worth_zero (word * 86400), ← worth_shift _
          (by decide : (0 : ℤ) ≤ 6)]
        rfl

theorem inUtc_of_widens {physical logical : ArrowType} (wider : Widens physical logical) :
    inUtc physical = true ∧ inUtc logical = true := by
  cases wider <;> exact ⟨rfl, rfl⟩

theorem convertsExactly_of_widen (strict : cast.Strict) {physical logical : ArrowType} {word : ℤ}
    (wider : physical = logical ∨ Widens physical logical) (zone : inUtc logical = true)
    (stored : Stores physical word) : ConvertsExactly cast physical logical word := by
  have admitted : admits (.plain physical) logical = true := by
    simp [admits, widen_eq_some_iff.mpr wider]
  rcases wider with rfl | wider
  · apply convertsExactly_of_representable strict admitted stored zone zone
    intro value stands
    exact ⟨.word word, (held_word _ _).mpr stored, by simpa using stands⟩
  · apply convertsExactly_of_representable strict admitted stored (inUtc_of_widens wider).1 zone
    intro value stands
    exact representable_of_widens wider stored stands

/-! ## Timestamps -/

section Timestamps

variable {unit finer : TimeUnit} {zone : Option String} {word : ℤ}

theorem worth_finer (le : unit.digits ≤ finer.digits) :
    worth finer.digits (word * 10 ^ (finer.digits - unit.digits)) = worth unit.digits word := by
  have zeros : finer.digits - unit.digits = ((finer.digits : ℤ) - unit.digits).toNat := by omega
  rw [zeros]
  exact worth_shift word (by omega)

theorem admitsTimestamp_none :
    admitsTimestamp (.timestamp unit zone) (.timestamp finer none) = true ↔
      unit.digits ≤ finer.digits ∧ inUtc (.timestamp unit zone) = true := by
  cases zone <;> simp [admitsTimestamp, inUtc]

/-- A finer unit keeps the instant exactly when its word holds the count. -/
theorem convertsExactly_timestamp_iff (strict : cast.Strict)
    (stored : Stores (.timestamp unit zone) word)
    (admitted : admitsTimestamp (.timestamp unit zone) (.timestamp finer none) = true) :
    ConvertsExactly cast (.timestamp unit zone) (.timestamp finer none) word ↔
      InRange 64 (word * 10 ^ (finer.digits - unit.digits)) := by
  obtain ⟨le, utc⟩ := admitsTimestamp_none.mp admitted
  constructor
  · intro exact
    by_contra outside
    obtain ⟨cell, converted, -⟩ := exact _ rfl
    rw [strict.overflow unit finer zone none word admitted stored outside] at converted
    cases converted
  · intro inside
    apply convertsExactly_of_representable strict (by simp [admits, admitted]) stored utc rfl
    intro value stands
    cases stands
    refine ⟨.word (word * 10 ^ (finer.digits - unit.digits)), (held_word _ _).mpr inside, ?_⟩
    rw [ArrowCast.quantity_word, ← worth_finer le]
    rfl

end Timestamps

/-! ## A column's history -/

/-- A type that is neither text, bytes nor a timestamp. -/
def isNumber : ArrowType → Bool
  | .integer _ _ | .float64 | .decimal128 _ _ => true
  | _ => false

theorem admits_number {physical logical : ArrowType} (number : isNumber logical = true) :
    admits (.plain physical) logical = true ↔ physical = logical ∨ Widens physical logical := by
  rw [← widen_eq_some_iff]
  cases logical with
  | integer | float64 | decimal128 =>
      cases physical <;> simp [admits, admitsTimestamp, admitsAsText, ArrowType.isText]
  | _ => cases number

/-- The types the scan gives a column whose type was changed. -/
theorem logicalType_of_changes {type current : PrimitiveType} (changed : Changes type current) :
    isNumber (logicalType current) = true ∨ logicalType current = .timestamp .microsecond none ∨
      logicalType current = .utf8 := by
  have ofDecimal (target : DecimalType) : isNumber (logicalType (.decimal target)) = true ∨
      logicalType (.decimal target) = .timestamp .microsecond none ∨
        logicalType (.decimal target) = .utf8 := by
    rw [logicalType_decimal]
    split
    · exact .inl rfl
    · exact .inr (.inr rfl)
  cases changed with
  | byteToShort | narrowToInteger | toLong | toDouble => exact .inl (by decide)
  | date => exact .inr (.inl (by decide))
  | decimal | integerToDecimal | longToDecimal => exact ofDecimal _

/-- The types a data file stores a column of a Delta type at. -/
def storedTypes : PrimitiveType → List FileType
  | .boolean => [.plain .boolean]
  -- The annotation of a narrow integer may be absent from the file.
  | .byte => [.plain (.integer 8 true), .plain (.integer 32 true)]
  | .short => [.plain (.integer 16 true), .plain (.integer 32 true)]
  | .integer => [.plain (.integer 32 true)]
  | .long => [.plain (.integer 64 true)]
  | .float => [.plain .float32]
  | .double => [.plain .float64]
  | .string => [.plain .utf8]
  | .binary => [.plain .binary]
  | .date => [.plain .date32]
  | .timestamp => [.plain (.timestamp .microsecond (some "UTC"))]
  | .timestampNtz => [.plain (.timestamp .microsecond none)]
  | .void => [.null]
  | .intervalYearMonth | .intervalDayTime => []
  | .decimal type => [.plain (.decimal128 type.precision type.scale)]

/-- A decimal type that Exasol cannot declare. -/
def Undeclarable (type : PrimitiveType) : Prop :=
  ∃ decimal, type = .decimal decimal ∧ maxDecimalPrecision < decimal.precision

theorem logicalType_eq_utf8 {type current : PrimitiveType} (changed : Changes type current) :
    logicalType current = .utf8 ↔ Undeclarable current := by
  have ofDecimal (target : DecimalType) :
      logicalType (.decimal target) = .utf8 ↔ Undeclarable (.decimal target) := by
    rw [logicalType_decimal]
    constructor
    · intro text
      refine ⟨target, rfl, ?_⟩
      by_contra small
      rw [if_pos (not_lt.mp small)] at text
      cases text
    · rintro ⟨decimal, same, wide⟩
      cases same
      rw [if_neg (not_le.mpr wide)]
  have noDecimal {other : PrimitiveType} (plain : ∀ decimal, other ≠ .decimal decimal)
      (typed : logicalType other ≠ .utf8) : logicalType other = .utf8 ↔ Undeclarable other := by
    constructor
    · intro text
      exact absurd text typed
    · rintro ⟨decimal, same, -⟩
      exact absurd same (plain decimal)
  cases changed with
  | byteToShort | narrowToInteger | toLong | toDouble | date =>
      exact noDecimal (fun _ same => PrimitiveType.noConfusion same) (by decide)
  | decimal | integerToDecimal | longToDecimal => exact ofDecimal _

theorem admits_decimal_text (type : DecimalType) :
    admits (.plain (.decimal128 type.precision type.scale)) .utf8 = true ↔
      maxDecimalPrecision < type.precision := by
  obtain ⟨digits, -, fraction⟩ := type.valid
  have fallback : needsJsonFallback (.decimal128 type.precision type.scale) = true ↔
      maxDecimalPrecision < type.precision := by
    have compatible : compatibleExasolType (.decimal128 type.precision type.scale) =
        (Decimal.new type.precision type.scale).map .decimal := rfl
    rw [needsJsonFallback, compatible, Decimal.new]
    by_cases small : type.precision ≤ maxDecimalPrecision
    · simp [small, digits, fraction]
    · simp [small, not_le.mp small]
  rw [← fallback]
  simp [admits, widen, widensTo, admitsTimestamp, admitsAsText, ArrowType.isText]

/-- A decimal reads every type that widens to it, unless it travels as text. -/
theorem admits_decimal {physical : ArrowType} {target : DecimalType}
    (wider : Widens physical (.decimal128 target.precision target.scale))
    (declared : ¬ Undeclarable (.decimal target)) :
    admits (.plain physical) (logicalType (.decimal target)) = true := by
  have small : target.precision ≤ maxDecimalPrecision := by
    by_contra wide
    exact declared ⟨target, rfl, not_le.mp wide⟩
  rw [logicalType_decimal, if_pos small, admits_number rfl]
  exact .inr wider

theorem storedTypes_narrow {type : PrimitiveType} (narrow : type ∈ [.byte, .short, .integer]) :
    storedTypes type ≠ [] ∧
      ∀ stored ∈ storedTypes type, ∃ bits ∈ [8, 16, 32], stored = .plain (.integer bits true) := by
  have every : ∀ type ∈ [PrimitiveType.byte, .short, .integer], storedTypes type ≠ [] ∧
      ∀ stored ∈ storedTypes type, ∃ bits ∈ [8, 16, 32], stored = .plain (.integer bits true) := by
    decide
  exact every type narrow

/-- A type that Exasol declares reads every form of the types that changed to it. -/
theorem admits_stored {type current : PrimitiveType} (changed : Changes type current)
    (declared : ¬ Undeclarable current) :
    ∀ stored ∈ storedTypes type, admits stored (logicalType current) = true := by
  cases changed with
  | byteToShort | date => decide
  | narrowToInteger narrow | toLong narrow | toDouble narrow =>
      simp only [List.mem_cons, List.not_mem_nil, or_false] at narrow
      rcases narrow with rfl | rfl | rfl | rfl <;> decide
  | decimal fits =>
      intro stored member
      obtain rfl := List.mem_singleton.mp member
      exact admits_decimal (.decimal fits) declared
  | integerToDecimal narrow fits =>
      intro stored member
      obtain ⟨bits, small, rfl⟩ := (storedTypes_narrow narrow).2 stored member
      exact admits_decimal (.integerToDecimal small fits) declared
  | longToDecimal fits =>
      intro stored member
      obtain rfl := List.mem_singleton.mp member
      exact admits_decimal (.longToDecimal fits) declared

/-- A decimal that travels as text reads only decimals that do so too. -/
theorem undeclarable_of_admits {type current : PrimitiveType} (changed : Changes type current)
    (wide : Undeclarable current)
    (admitted : ∀ stored ∈ storedTypes type, admits stored (logicalType current) = true) :
    Undeclarable type := by
  have text := (logicalType_eq_utf8 changed).mpr wide
  have noInteger : ∀ bits ∈ [8, 16, 32, 64], admits (.plain (.integer bits true)) .utf8 =
    false := by
    decide
  rw [text] at admitted
  obtain ⟨target, rfl, -⟩ := wide
  cases changed with
  | decimal fits => exact ⟨_, rfl, (admits_decimal_text _).mp (admitted _ List.mem_cons_self)⟩
  | integerToDecimal narrow fits =>
      obtain ⟨nonempty, forms⟩ := storedTypes_narrow narrow
      obtain ⟨stored, member⟩ := List.exists_mem_of_ne_nil _ nonempty
      obtain ⟨bits, small, rfl⟩ := forms stored member
      have refused := noInteger bits (List.mem_append_left [64] small)
      exact absurd (admitted _ member) (by simp [refused])
  | longToDecimal fits =>
      have refused := noInteger 64 (by decide)
      exact absurd (admitted _ List.mem_cons_self) (by simp [refused])

/-- A type reads its own forms. -/
theorem admits_current {type current : PrimitiveType} (changed : Changes type current) :
    ∀ stored ∈ storedTypes current, admits stored (logicalType current) = true := by
  have ofDecimal (target : DecimalType) : ∀ stored ∈ storedTypes (.decimal target),
      admits stored (logicalType (.decimal target)) = true := by
    intro stored member
    obtain rfl := List.mem_singleton.mp member
    rw [logicalType_decimal]
    split
    · exact (admits_number rfl).mpr (.inl rfl)
    · next wide => exact (admits_decimal_text target).mpr (not_le.mp wide)
  cases changed with
  | byteToShort | narrowToInteger | toLong | toDouble | date => decide
  | decimal | integerToDecimal | longToDecimal => exact ofDecimal _

theorem admits_timestamp {physical : ArrowType} {unit : TimeUnit} {zone : Option String}
    (admitted : admits (.plain physical) (.timestamp unit zone) = true) :
    (physical = .timestamp unit zone ∨ Widens physical (.timestamp unit zone)) ∨
      admitsTimestamp physical (.timestamp unit zone) = true := by
  simp only [admits, Bool.or_eq_true, decide_eq_true_eq, widen_eq_some_iff] at admitted
  rcases admitted with ((wider | timed) | text) | bytes
  · exact .inl wider
  · exact .inr timed
  · cases text
  · simp at bytes

theorem admitsTimestamp_of_admits {physical : ArrowType} {unit : TimeUnit} {zone : Option String}
    {type current : PrimitiveType} (changed : Changes type current)
    (timed : physical = .timestamp unit zone)
    (admitted : admits (.plain physical) (logicalType current) = true) :
    logicalType current = .timestamp .microsecond none ∧
      admitsTimestamp (.timestamp unit zone) (.timestamp .microsecond none) = true := by
  subst timed
  rcases logicalType_of_changes changed with number | instant | text
  · rcases (admits_number number).mp admitted with same | wider
    · rw [← same] at number
      cases number
    · cases wider
  · refine ⟨instant, ?_⟩
    rw [instant] at admitted
    rcases admits_timestamp admitted with (same | wider) | timed
    · cases same
      rfl
    · cases wider
    · exact timed
  · rw [text] at admitted
    cases admitted

/-- An admitted value is converted exactly, a timestamp as long as its microseconds fit the word. -/
theorem convertsExactly_iff (strict : cast.Strict) {type current : PrimitiveType}
    (changed : Changes type current) {physical : ArrowType} {word : ℤ}
    (stored : Stores physical word)
    (admitted : admits (.plain physical) (logicalType current) = true) :
    ConvertsExactly cast physical (logicalType current) word ↔
      ∀ unit zone, physical = .timestamp unit zone →
        InRange 64 (word * 10 ^ (6 - unit.digits)) := by
  by_cases timed : ∃ unit zone, physical = .timestamp unit zone
  · obtain ⟨unit, zone, rfl⟩ := timed
    obtain ⟨instant, coarser⟩ := admitsTimestamp_of_admits changed rfl admitted
    rw [instant, convertsExactly_timestamp_iff strict stored coarser]
    constructor
    · rintro inside _ _ same
      cases same
      exact inside
    · intro inside
      exact inside unit zone rfl
  · have untimed : ∀ unit zone, physical ≠ .timestamp unit zone :=
      fun unit zone same => timed ⟨unit, zone, same⟩
    refine iff_of_true ?_ (fun unit zone same => absurd same (untimed unit zone))
    rcases logicalType_of_changes changed with number | instant | text
    · refine convertsExactly_of_widen strict ((admits_number number).mp admitted) ?_ stored
      cases logical : logicalType current with
      | timestamp unit zone =>
          rw [logical] at number
          cases number
      | _ => rfl
    · rw [instant] at admitted ⊢
      rcases admits_timestamp admitted with wider | coarser
      · exact convertsExactly_of_widen strict wider rfl stored
      · cases physical with
        | timestamp unit zone => exact absurd rfl (untimed unit zone)
        | _ => cases coarser
    · rw [text] at admitted ⊢
      intro value stands
      obtain ⟨shown, converted, same⟩ := strict.shows physical word value admitted stored stands
      exact ⟨.text shown, converted, same⟩

/-- A decimal type of a data file, the wider kind only where the narrower one ends. -/
def DecimalStored (physical : ArrowType) (precision : ℕ) (scale : ℤ) : Prop :=
  physical = .decimal128 precision scale ∧ 1 ≤ precision ∨
    physical = .decimal256 precision scale ∧ 38 < precision

/-- A decimal is admitted for another one exactly when every value of it is one of the other. -/
theorem admits_decimal_iff {physical : ArrowType} {precision wider : ℕ} {scale finer : ℤ}
    (decimal : DecimalStored physical precision scale) (capped : wider ≤ 38) :
    admits (.plain physical) (.decimal128 wider finer) = true ↔
      Representable precision scale wider finer := by
  rw [admits_number rfl]
  rcases decimal with ⟨rfl, digits⟩ | ⟨rfl, wide⟩
  · have grows := @LakehouseEngine.widensDecimal_iff (precision, scale) (wider, finer)
    rw [representable_iff digits, ← grows]
    constructor
    · rintro (same | wider)
      · cases same
        simp [LakehouseEngine.widensDecimal]
      · cases wider with
        | decimal fits => exact fits
    · intro fits
      exact .inr (.decimal fits)
  · rw [representable_iff (by omega)]
    constructor
    · rintro (same | wider)
      · cases same
      · cases wider
    · rintro ⟨le, room⟩
      omega

/-- The column stays readable and exact: every form of every type it has had is admitted, an
admitted value keeps what it stands for, and decimals are admitted exactly where they fit. -/
structure StaysExact {parseDeltaType : String → Option PrimitiveType} (cast : ArrowCast)
    (history : History parseDeltaType) (current : PrimitiveType) (physical : ArrowType) (word : ℤ) :
    Prop where
  readable : ∀ type, history.Had type →
    ∀ stored ∈ storedTypes type, admits stored (logicalType current) = true
  exact : Stores physical word → admits (.plain physical) (logicalType current) = true →
    ConvertsExactly cast physical (logicalType current) word
  decimals : ∀ precision scale wider finer, DecimalStored physical precision scale →
    logicalType current = .decimal128 wider finer →
    (admits (.plain physical) (logicalType current) = true ↔
      Representable precision scale wider finer)

theorem precision_le_of_logicalType {type current : PrimitiveType} {wider : ℕ} {finer : ℤ}
    (changed : Changes type current) (decimal : logicalType current = .decimal128 wider finer) :
    wider ≤ 38 := by
  have ofDecimal (target : DecimalType)
      (decimal : logicalType (.decimal target) = .decimal128 wider finer) : wider ≤ 38 := by
    rw [logicalType_decimal] at decimal
    split at decimal
    · cases decimal
      exact target.valid.2.1
    · cases decimal
  cases changed with
  | byteToShort => cases decimal.symm.trans (by decide : logicalType .short = .integer 32 true)
  | narrowToInteger =>
      cases decimal.symm.trans (by decide : logicalType .integer = .integer 32 true)
  | toLong => cases decimal.symm.trans (by decide : logicalType .long = .integer 64 true)
  | toDouble => cases decimal.symm.trans (by decide : logicalType .double = .float64)
  | date =>
      cases decimal.symm.trans
        (by decide : logicalType .timestampNtz = .timestamp .microsecond none)
  | decimal | integerToDecimal | longToDecimal => exact ofDecimal _ decimal

/-- What an accepted history needs: a decimal Exasol cannot declare was never anything else, and a
stored timestamp's microseconds fit their word. -/
theorem staysExact_iff {parseDeltaType : String → Option PrimitiveType} (strict : cast.Strict)
    (history : History parseDeltaType) {current : PrimitiveType} (now : history.Current current)
    (physical : ArrowType) (word : ℤ) :
    StaysExact cast history current physical word ↔
      (Undeclarable current → ∀ type, history.Had type → Undeclarable type) ∧
      (Stores physical word → admits (.plain physical) (logicalType current) = true →
        ∀ unit zone, physical = .timestamp unit zone →
          InRange 64 (word * 10 ^ (6 - unit.digits))) := by
  obtain ⟨first, changed⟩ := history.exists_changes now
  constructor
  · intro exact
    constructor
    · intro wide type had
      rcases history.had_changes had now with rfl | step
      · exact wide
      · exact undeclarable_of_admits step wide (exact.readable type had)
    · intro stored admitted
      exact (convertsExactly_iff strict changed stored admitted).mp (exact.exact stored admitted)
  · rintro ⟨declared, inside⟩
    constructor
    · intro type had
      rcases history.had_changes had now with rfl | step
      · exact admits_current changed
      · by_cases wide : Undeclarable current
        · obtain ⟨source, rfl, large⟩ := declared wide type had
          rw [(logicalType_eq_utf8 changed).mpr wide]
          intro stored member
          obtain rfl := List.mem_singleton.mp member
          exact (admits_decimal_text source).mpr large
        · exact admits_stored step wide
    · intro stored admitted
      exact (convertsExactly_iff strict changed stored admitted).mpr (inside stored admitted)
    · intro precision scale wider finer decimal logical
      rw [logical]
      exact admits_decimal_iff decimal (precision_le_of_logicalType changed logical)

/-! ## A strict cast -/

section Instances

/-- A fraction's text. -/
def fractionText (value : ℚ) : List Char :=
  (toString value.num).toList ++ '/' :: (toString (value.den : ℤ)).toList

def readFraction (text : List Char) : Option ℚ := do
  let (top, bottom) ← Text.splitOnce '/' text
  return (← Text.numeralValue top) / (← Text.numeralValue bottom)

theorem readFraction_fractionText (value : ℚ) : readFraction (fractionText value) = some value := by
  have free : '/' ∉ (toString value.num).toList := by
    have digits (number : ℕ) : '/' ∉ Nat.toDigits 10 number := by
      intro member
      exact absurd (List.all_eq_true.mp (Text.allDigits_toDigits number) _ member) (by decide)
    rw [Text.toList_toString]
    split
    · exact digits _
    · simp [digits]
  rw [readFraction, fractionText, Text.splitOnce_of_not_mem _ free]
  simp only [Option.bind_eq_bind, Option.bind_some, (Text.numeralValue_toString _).1]
  simp [Rat.num_div_den]

/-- A fraction after the mark of its kind. -/
def spell : Quantity → String
  | .number value => String.ofList ('#' :: fractionText value)
  | .instant seconds => String.ofList ('@' :: fractionText seconds)

def readSpelled (text : String) : Option Quantity :=
  match text.toList with
  | '#' :: value => (readFraction value).map .number
  | '@' :: seconds => (readFraction seconds).map .instant
  | _ => none

/-- The count of a type's units in a quantity, rounded down. -/
def count : ArrowType → Quantity → Option ℤ
  | .integer _ _, .number value => some ⌊value⌋
  | .decimal128 _ scale, .number value | .decimal256 _ scale, .number value =>
      some ⌊value * 10 ^ scale⌋
  | .date32, .instant seconds => some ⌊seconds / 86400⌋
  | .date64, .instant seconds => some ⌊seconds * 10 ^ (3 : ℤ)⌋
  | .timestamp unit _, .instant seconds =>
      let word := ⌊seconds * 10 ^ (unit.digits : ℤ)⌋
      if InRange 64 word then some word else none
  | _, _ => none

def floorCast : ArrowCast where
  convert source target word :=
    match target, quantity source word with
    | .utf8, some value => some (.text (spell value))
    | .float64, some (.number value) => some (.float value)
    | target, some value => (count target value).map .word
    | _, none => none
  spelled := readSpelled

theorem floor_worth (scale word : ℤ) : ⌊worth scale word * 10 ^ scale⌋ = word := by
  have nonzero : (10 : ℚ) ^ scale ≠ 0 := zpow_ne_zero _ (by norm_num)
  rw [worth, div_mul_cancel₀ _ nonzero, Int.floor_intCast]

theorem count_quantity {type : ArrowType} {word : ℤ} {value : Quantity} (stored : Stores type word)
    (stands : quantity type word = some value) : count type value = some word := by
  cases type with
  | integer | decimal128 | decimal256 | date64 =>
      cases stands
      simp only [count, floor_worth, Int.floor_intCast]
  | date32 =>
      cases stands
      simp [count]
  | timestamp unit zone =>
      cases stands
      simp only [count, floor_worth]
      exact if_pos stored
  | _ => cases stands

theorem readSpelled_spell (value : Quantity) : readSpelled (spell value) = some value := by
  cases value <;> simp [readSpelled, spell, readFraction_fractionText]

theorem floorCast_strict : floorCast.Strict where
  exact source target word value _ _ _ _ stands := by
    rintro ⟨cell, represented⟩
    refine ⟨cell, ?_, represented⟩
    obtain ⟨held, same⟩ := represented
    cases cell with
    | word other =>
        rw [held_word] at held
        rw [ArrowCast.quantity_word] at same
        have counted := count_quantity held same
        cases target with
        | utf8 | float64 => exact held.elim
        | _ => simp only [floorCast, stands, counted, Option.map_some]
    | float other =>
        cases target with
        | float64 =>
            cases same
            simp only [floorCast, stands]
        | _ => exact held.elim
    | text other => cases target <;> exact held.elim
  shows source word value _ _ stands := by
    refine ⟨spell value, ?_, readSpelled_spell value⟩
    simp only [floorCast, stands]
  overflow unit finer zone zone' word admitted _ outside := by
    have le : unit.digits ≤ finer.digits := by
      simp only [admitsTimestamp, Bool.and_eq_true, decide_eq_true_eq] at admitted
      exact admitted.1
    have counted : ⌊worth unit.digits word * 10 ^ (finer.digits : ℤ)⌋ =
        word * 10 ^ (finer.digits - unit.digits) := by
      rw [← worth_finer le, floor_worth]
    simp only [floorCast, quantity, count, counted, if_neg outside, Option.map_none]

def typeNamed (name : String) : Option PrimitiveType :=
  List.lookup name
    [("integer", .integer), ("date", .date), ("timestamp_ntz", .timestampNtz),
     ("decimal(10,0)", .decimal ⟨10, 0, by decide⟩), ("decimal(38,0)", .decimal ⟨38, 0, by decide⟩)]

/-- A column changed once. -/
def changedOnce (change : RecordedTypeChange)
    (supported : isSupportedTypeChange typeNamed change = true) : History typeNamed where
  changes := [change]
  nonempty := List.cons_ne_nil _ _
  linked := List.isChain_singleton _
  supported := List.forall_mem_singleton.mpr supported

def integerToDecimal10 : History typeNamed :=
  changedOnce ⟨"integer", "decimal(10,0)", none⟩ (by decide)

def integerToDecimal38 : History typeNamed :=
  changedOnce ⟨"integer", "decimal(38,0)", none⟩ (by decide)

def dateToTimestamp : History typeNamed :=
  changedOnce ⟨"date", "timestamp_ntz", none⟩ (by decide)

theorem integer_stays_exact_as_decimal :
    StaysExact floorCast integerToDecimal10 (.decimal ⟨10, 0, by decide⟩) (.integer 32 true) 7 := by
  apply (staysExact_iff floorCast_strict integerToDecimal10 rfl (.integer 32 true) 7).mpr
  constructor
  · rintro ⟨decimal, same, wide⟩
    cases same
    exact absurd wide (by decide)
  · rintro _ _ _ _ same
    cases same

/-- The files of an integer column are refused once it is a decimal that travels as text, and
seconds that a file may store have no count in microseconds. -/
theorem widened_column_refused :
    (¬ StaysExact floorCast integerToDecimal38 (.decimal ⟨38, 0, by decide⟩) (.integer 32 true) 7) ∧
      ¬ StaysExact floorCast dateToTimestamp .timestampNtz (.timestamp .second none) (2 ^ 62) := by
  constructor
  · intro exact
    have admitted := exact.readable .integer ⟨_, List.mem_cons_self, .inl rfl⟩ _ List.mem_cons_self
    exact absurd admitted (by decide)
  · intro exact
    have stored : Stores (.timestamp .second none) (2 ^ 62) := by
      constructor <;> norm_num
    obtain ⟨cell, converted, -⟩ := exact.exact stored (by decide) _ rfl
    have failed := floorCast_strict.overflow .second .microsecond none none (2 ^ 62) (by decide)
      stored (by decide)
    rw [(by decide : logicalType .timestampNtz = .timestamp .microsecond none), failed] at converted
    cases converted

end Instances

end LakehouseEngine.FieldIdProjection
