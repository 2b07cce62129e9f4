import LakehouseEngine.Data.OffsetBuffer
import LakehouseEngine.Scan.FieldIdProjection
import Mathlib.Data.List.Forall2

/-!
# Arrays of nested types

An Arrow array holds the values of a column: a struct as one array for each member, a list
or a map as one array of all items with the offsets of each row.  `ArrowArray.Valid` says when
the parts of an array agree, and `valueAt` what a row of an array stands for.
-/

namespace LakehouseEngine.FieldIdProjection

/-! ## Equality of types -/

mutual

def Field.same : Field → Field → Bool
  | .plain label type, .plain label' type' => label = label' && type = type'
  | .struct label children, .struct label' children' =>
      label = label' && Field.sameAll children children'
  | .list label kind element, .list label' kind' element' =>
      label = label' && kind = kind' && element.same element'
  | .map label entries sorted, .map label' entries' sorted' =>
      label = label' && entries.same entries' && sorted = sorted'
  | _, _ => false

def Field.sameAll : List Field → List Field → Bool
  | [], [] => true
  | field :: fields, field' :: fields' => field.same field' && Field.sameAll fields fields'
  | _, _ => false

end

mutual

theorem Field.same_iff : ∀ left right : Field, left.same right = true ↔ left = right
  | .plain label type, right => by cases right <;> simp [Field.same]
  | .struct label children, right => by
      cases right <;> simp [Field.same, Field.sameAll_iff children]
  | .list label kind element, right => by
      cases right <;> simp [Field.same, Field.same_iff element, and_assoc]
  | .map label entries sorted, right => by
      cases right <;> simp [Field.same, Field.same_iff entries, and_assoc]

theorem Field.sameAll_iff : ∀ left right : List Field, Field.sameAll left right = true ↔
    left = right
  | [], right => by cases right <;> simp [Field.sameAll]
  | field :: fields, right => by
      cases right <;> simp [Field.sameAll, Field.same_iff field, Field.sameAll_iff fields]

end

instance : DecidableEq Field := fun left right => decidable_of_iff _ (Field.same_iff left right)

/-! ## Arrays -/

/-- The rows that are NULL; without a buffer none is. -/
abbrev NullBuffer := Option (List Bool)

namespace NullBuffer

def isNull (nulls : NullBuffer) (row : ℕ) : Bool := (nulls.bind (·[row]?)).getD false

def Fits (nulls : NullBuffer) (length : ℕ) : Prop := ∀ bits ∈ nulls, bits.length = length

instance (nulls : NullBuffer) (length : ℕ) : Decidable (nulls.Fits length) :=
  inferInstanceAs (Decidable (∀ bits ∈ nulls, bits.length = length))

def slice (offset length : ℕ) (nulls : NullBuffer) : NullBuffer :=
  nulls.map fun bits => (bits.drop offset).take length

theorem isNull_slice {offset length row : ℕ} (nulls : NullBuffer) (within : row < length) :
    (nulls.slice offset length).isNull row = nulls.isNull (offset + row) := by
  cases nulls with
  | none => rfl
  | some bits => simp [isNull, slice, List.getElem?_take_of_lt within]

theorem Fits.slice {nulls : NullBuffer} {whole offset length : ℕ} (fits : nulls.Fits whole)
    (inside : offset + length ≤ whole) : (nulls.slice offset length).Fits length := by
  intro bits member
  obtain ⟨all, found, rfl⟩ := Option.map_eq_some_iff.mp member
  have total := fits all found
  rw [List.length_take, List.length_drop]
  omega

end NullBuffer

/-- An array whose leaves hold values of `α`; a leaf of any type is a list of values. -/
inductive ArrowArray (α : Type) where
  | plain (type : ArrowType) (values : List (Option α))
  | struct (fields : List Field) (columns : List (ArrowArray α)) (nulls : NullBuffer) (length : ℕ)
  | list (large : Bool) (element : Field) (offsets : OffsetBuffer) (values : ArrowArray α)
      (nulls : NullBuffer)
  | fixedSizeList (element : Field) (size : ℤ) (values : ArrowArray α) (nulls : NullBuffer)
      (length : ℕ)
  | map (entries : Field) (sorted : Bool) (offsets : OffsetBuffer) (key value : ArrowArray α)
      (entryNulls : NullBuffer) (entryLength : ℕ) (nulls : NullBuffer)

namespace ArrowArray

variable {α : Type}

def length : ArrowArray α → ℕ
  | plain _ values => values.length
  | struct _ _ _ length | fixedSizeList _ _ _ _ length => length
  | list _ _ offsets _ _ | map _ _ offsets _ _ _ _ _ => offsets.rows

def isNull : ArrowArray α → ℕ → Bool
  | plain _ values, row => (values[row]?.map Option.isNone).getD false
  | struct _ _ nulls _, row | list _ _ _ _ nulls, row | fixedSizeList _ _ _ nulls _, row
  | map _ _ _ _ _ _ _ nulls, row => nulls.isNull row

/-- The array's type, as that of a field with some label. -/
def typeUnder (label : FieldLabel) : ArrowArray α → Field
  | plain type _ => .plain label type
  | struct fields _ _ _ => .struct label fields
  | list large element _ _ _ => .list label (if large then .largeList else .list) element
  | fixedSizeList element size _ _ _ => .list label (.fixedSizeList size) element
  | map entries sorted _ _ _ _ _ _ => .map label entries sorted

def OfType (array : ArrowArray α) (field : Field) : Prop := array.typeUnder field.label = field

instance (array : ArrowArray α) (field : Field) : Decidable (array.OfType field) :=
  inferInstanceAs (Decidable (_ = _))

/-! ## What the constructors check -/

/-- A struct column; only a nullable one has a NULL where the struct has none. -/
def ColumnFits (nulls : NullBuffer) (length : ℕ) (field : Field) (column : ArrowArray α) : Prop :=
  column.OfType field ∧ column.length = length ∧
    (field.label.nullable = true ∨ ∀ row < length, column.isNull row = true →
      nulls.isNull row = true)

instance (nulls : NullBuffer) (length : ℕ) (field : Field) (column : ArrowArray α) :
    Decidable (ColumnFits nulls length field column) :=
  inferInstanceAs (Decidable (_ ∧ _ ∧ _))

def StructFits (fields : List Field) (columns : List (ArrowArray α)) (nulls : NullBuffer)
    (length : ℕ) : Prop :=
  List.Forall₂ (ColumnFits nulls length) fields columns ∧ nulls.Fits length

instance (fields : List Field) (columns : List (ArrowArray α)) (nulls : NullBuffer) (length : ℕ) :
    Decidable (StructFits fields columns nulls length) :=
  inferInstanceAs (Decidable (_ ∧ _))

def ListFits (element : Field) (offsets : OffsetBuffer) (values : ArrowArray α)
    (nulls : NullBuffer) : Prop :=
  values.OfType element ∧ offsets.last ≤ values.length ∧ nulls.Fits offsets.rows ∧
    (element.label.nullable = true ∨ ∀ position < values.length, values.isNull position = false)

instance (element : Field) (offsets : OffsetBuffer) (values : ArrowArray α) (nulls : NullBuffer) :
    Decidable (ListFits element offsets values nulls) :=
  inferInstanceAs (Decidable (_ ∧ _ ∧ _ ∧ _))

def FixedSizeListFits (element : Field) (size : ℤ) (values : ArrowArray α) (nulls : NullBuffer) :
    Prop :=
  0 < size ∧ values.OfType element ∧ nulls.Fits (values.length / size.toNat) ∧
    (element.label.nullable = true ∨ ∀ position < values.length,
      values.isNull position = true → nulls.isNull (position / size.toNat) = true)

instance (element : Field) (size : ℤ) (values : ArrowArray α) (nulls : NullBuffer) :
    Decidable (FixedSizeListFits element size values nulls) :=
  inferInstanceAs (Decidable (_ ∧ _ ∧ _ ∧ _))

/-- The entries of a map are never NULL. -/
def MapFits (entries : Field) (offsets : OffsetBuffer) (entryNulls : NullBuffer) (entryLength : ℕ)
    (nulls : NullBuffer) : Prop :=
  entries.label.nullable = false ∧ (∀ row < entryLength, entryNulls.isNull row = false) ∧
    offsets.last ≤ entryLength ∧ nulls.Fits offsets.rows

instance (entries : Field) (offsets : OffsetBuffer) (entryNulls : NullBuffer) (entryLength : ℕ)
    (nulls : NullBuffer) : Decidable (MapFits entries offsets entryNulls entryLength nulls) :=
  inferInstanceAs (Decidable (_ ∧ _ ∧ _ ∧ _))

inductive Valid : ArrowArray α → Prop where
  | plain (type : ArrowType) (values : List (Option α)) : Valid (.plain type values)
  | struct {fields : List Field} {columns : List (ArrowArray α)} {nulls : NullBuffer} {length : ℕ}
      (fits : StructFits fields columns nulls length) (each : ∀ column ∈ columns, Valid column) :
      Valid (.struct fields columns nulls length)
  | list {large : Bool} {element : Field} {offsets : OffsetBuffer} {values : ArrowArray α}
      {nulls : NullBuffer} (fits : ListFits element offsets values nulls) (items : Valid values) :
      Valid (.list large element offsets values nulls)
  | fixedSizeList {element : Field} {size : ℤ} {values : ArrowArray α} {nulls : NullBuffer}
      (fits : FixedSizeListFits element size values nulls) (items : Valid values) :
      Valid (.fixedSizeList element size values nulls (values.length / size.toNat))
  | map {label : FieldLabel} {pair : List Field} {sorted : Bool} {offsets : OffsetBuffer}
      {key value : ArrowArray α} {entryNulls : NullBuffer} {entryLength : ℕ} {nulls : NullBuffer}
      (paired : StructFits pair [key, value] entryNulls entryLength)
      (fits : MapFits (.struct label pair) offsets entryNulls entryLength nulls)
      (keys : Valid key) (values : Valid value) :
      Valid (.map (.struct label pair) sorted offsets key value entryNulls entryLength nulls)

end ArrowArray

/-! ## What an array stands for -/

inductive RowValue (α : Type) where
  | null
  | leaf (value : α)
  | struct (members : List (String × RowValue α))
  | list (items : List (RowValue α))
  | map (entries : List (RowValue α × RowValue α))

namespace ArrowArray

variable {α : Type}

mutual

def valueAt : ArrowArray α → ℕ → RowValue α
  | plain _ values, row => ((values[row]?.join).map .leaf).getD .null
  | struct fields columns nulls _, row =>
      if nulls.isNull row then .null
      else .struct ((fields.map (·.name)).zip (membersAt columns row))
  | list _ _ offsets values nulls, row =>
      if nulls.isNull row then .null else .list ((offsets.window row).map values.valueAt)
  | fixedSizeList _ size values nulls _, row =>
      if nulls.isNull row then .null
      else .list ((List.range' (row * size.toNat) size.toNat).map values.valueAt)
  | map _ _ offsets key value _ _ nulls, row =>
      if nulls.isNull row then .null
      else .map ((offsets.window row).map fun entry => (key.valueAt entry, value.valueAt entry))

def membersAt : List (ArrowArray α) → ℕ → List (RowValue α)
  | [], _ => []
  | column :: columns, row => column.valueAt row :: membersAt columns row

end

@[simp] theorem membersAt_eq (columns : List (ArrowArray α)) (row : ℕ) :
    membersAt columns row = columns.map fun column => column.valueAt row := by
  induction columns with
  | nil => simp [membersAt]
  | cons column columns ih => simp [membersAt, ih]

/-! ## Slices -/

mutual

/-- The rows from `offset` on, `length` of them.  The items of a list stay where they are. -/
def slice (offset length : ℕ) : ArrowArray α → ArrowArray α
  | plain type values => plain type ((values.drop offset).take length)
  | struct fields columns nulls _ =>
      struct fields (sliceAll offset length columns) (nulls.slice offset length) length
  | list large element offsets values nulls =>
      list large element (offsets.slice offset length) values (nulls.slice offset length)
  | fixedSizeList element size values nulls _ =>
      fixedSizeList element size (values.slice (offset * size.toNat) (length * size.toNat))
        (nulls.slice offset length) length
  | map entries sorted offsets key value entryNulls entryLength nulls =>
      map entries sorted (offsets.slice offset length) key value entryNulls entryLength
        (nulls.slice offset length)

def sliceAll (offset length : ℕ) : List (ArrowArray α) → List (ArrowArray α)
  | [] => []
  | column :: columns => column.slice offset length :: sliceAll offset length columns

end

@[simp] theorem sliceAll_eq (offset length : ℕ) (columns : List (ArrowArray α)) :
    sliceAll offset length columns = columns.map (slice offset length) := by
  induction columns with
  | nil => simp [sliceAll]
  | cons column columns ih => simp [sliceAll, ih]

@[simp] theorem typeUnder_slice (label : FieldLabel) (offset length : ℕ) (array : ArrowArray α) :
    (array.slice offset length).typeUnder label = array.typeUnder label := by
  cases array <;> simp [slice, typeUnder]

theorem OfType.slice {array : ArrowArray α} {field : Field} (typed : array.OfType field)
    (offset length : ℕ) : (array.slice offset length).OfType field := by
  rw [OfType, typeUnder_slice]
  exact typed

variable {array : ArrowArray α} {offset length : ℕ}

theorem length_slice (inside : offset + length ≤ array.length) :
    (array.slice offset length).length = length := by
  cases array with
  | plain type values =>
      simp only [ArrowArray.length] at inside
      simp only [slice, ArrowArray.length, List.length_take, List.length_drop]
      omega
  | struct fields columns nulls whole => simp [slice, ArrowArray.length]
  | fixedSizeList element size values nulls whole => simp [slice, ArrowArray.length]
  | list large element offsets values nulls =>
      simpa only [slice, ArrowArray.length] using OffsetBuffer.rows_slice inside
  | map entries sorted offsets key value entryNulls entryLength nulls =>
      simpa only [slice, ArrowArray.length] using OffsetBuffer.rows_slice inside

theorem isNull_slice {row : ℕ} (within : row < length) :
    (array.slice offset length).isNull row = array.isNull (offset + row) := by
  cases array with
  | plain type values => simp [slice, isNull, List.getElem?_take_of_lt within]
  | struct fields columns nulls whole => simp [slice, isNull, NullBuffer.isNull_slice nulls within]
  | fixedSizeList element size values nulls whole =>
      simp [slice, isNull, NullBuffer.isNull_slice nulls within]
  | list large element offsets values nulls =>
      simp [slice, isNull, NullBuffer.isNull_slice nulls within]
  | map entries sorted offsets key value entryNulls entryLength nulls =>
      simp [slice, isNull, NullBuffer.isNull_slice nulls within]

/-- A slice of an array of fixed-size lists takes whole lists. -/
theorem span_slice {whole size : ℕ} (inside : offset + length ≤ whole / size) :
    offset * size + length * size ≤ whole := by
  calc offset * size + length * size = (offset + length) * size := (Nat.add_mul _ _ _).symm
    _ ≤ whole / size * size := Nat.mul_le_mul_right size inside
    _ ≤ whole := Nat.div_mul_le_self whole size

theorem ColumnFits.slice {nulls : NullBuffer} {whole : ℕ} {field : Field} {column : ArrowArray α}
    (fits : ColumnFits nulls whole field column) (inside : offset + length ≤ whole) :
    ColumnFits (nulls.slice offset length) length field (column.slice offset length) := by
  obtain ⟨typed, rfl, masked⟩ := fits
  refine ⟨typed.slice offset length, length_slice inside, masked.imp_right ?_⟩
  intro masked row within null
  rw [isNull_slice within] at null
  rw [NullBuffer.isNull_slice nulls within]
  exact masked (offset + row) (by omega) null

theorem StructFits.lengths {fields : List Field} {columns : List (ArrowArray α)}
    {nulls : NullBuffer}
    {whole : ℕ} (fits : StructFits fields columns nulls whole) :
    ∀ column ∈ columns, column.length = whole := by
  intro column member
  obtain ⟨_, _, _, sized, _⟩ := exists_related_of_mem fits.1 member
  exact sized

theorem FixedSizeListFits.slice {element : Field} {size : ℤ} {values : ArrowArray α}
    {nulls : NullBuffer} (fits : FixedSizeListFits element size values nulls)
    (inside : offset + length ≤ values.length / size.toNat) :
    (values.slice (offset * size.toNat) (length * size.toNat)).length / size.toNat = length ∧
      FixedSizeListFits element size (values.slice (offset * size.toNat) (length * size.toNat))
        (nulls.slice offset length) := by
  obtain ⟨positive, typed, bits, masked⟩ := fits
  have some : 0 < size.toNat := by omega
  have sized : (values.slice (offset * size.toNat) (length * size.toNat)).length =
      length * size.toNat := length_slice (span_slice inside)
  have rows : length * size.toNat / size.toNat = length := Nat.mul_div_cancel length some
  refine ⟨by rw [sized, rows], positive, typed.slice _ _, ?_, masked.imp_right ?_⟩
  · rw [sized, rows]
    exact bits.slice inside
  · intro masked position within null
    rw [sized] at within
    rw [isNull_slice within] at null
    have row : position / size.toNat < length := (Nat.div_lt_iff_lt_mul some).mpr within
    have place : (offset * size.toNat + position) / size.toNat =
      offset + position / size.toNat := by
      rw [Nat.add_comm, Nat.add_mul_div_right _ _ some, Nat.add_comm]
    rw [NullBuffer.isNull_slice nulls row, ← place]
    have span := span_slice inside
    exact masked _ (by omega) null

/-- A slice of a valid array is valid. -/
theorem Valid.slice (valid : array.Valid) (inside : offset + length ≤ array.length) :
    (array.slice offset length).Valid := by
  induction valid generalizing offset length with
  | plain type values => exact .plain _ _
  | @struct fields columns nulls whole fits each ih =>
      simp only [ArrowArray.slice, sliceAll_eq]
      simp only [ArrowArray.length] at inside
      refine .struct ⟨?_, fits.2.slice inside⟩ ?_
      · rw [List.forall₂_map_right_iff]
        exact fits.1.imp fun _ _ column => column.slice inside
      · rw [List.forall_mem_map]
        intro column member
        rw [← fits.lengths column member] at inside
        exact ih column member inside
  | list fits items ih =>
      simp only [ArrowArray.slice]
      obtain ⟨typed, bound, nulls, present⟩ := fits
      refine .list ⟨typed, (OffsetBuffer.last_slice_le inside).trans bound, ?_, present⟩ items
      rw [OffsetBuffer.rows_slice inside]
      exact nulls.slice inside
  | @fixedSizeList element size values nulls fits items ih =>
      simp only [ArrowArray.slice]
      obtain ⟨rows, sliced⟩ := fits.slice inside
      have shorter := Valid.fixedSizeList sliced (ih (span_slice inside))
      rwa [rows] at shorter
  | map paired fits keys values =>
      simp only [ArrowArray.slice]
      obtain ⟨solid, present, bound, nulls⟩ := fits
      refine .map paired ⟨solid, present, (OffsetBuffer.last_slice_le inside).trans bound, ?_⟩
        keys values
      rw [OffsetBuffer.rows_slice inside]
      exact nulls.slice inside

end ArrowArray

end LakehouseEngine.FieldIdProjection
