import LakehouseEngine.Data.Fallible
import LakehouseEngine.Data.Placement
import LakehouseEngine.Scan.NestedArray

/-!
# Nested columns under their declared members

A nested column is rebuilt with the members that the table declares: each takes the array of
the file's first member that claims it, or NULLs.  Lists and maps keep their offsets, and what
is not declared, or declared with another shape, stays as the file has it.  A map whose key may
be NULL by its type can be read from a file but not be rebuilt.
-/

namespace LakehouseEngine.FieldIdProjection

variable {α : Type}

/-! ## The library's constructors -/

/-- The checked constructors of Arrow's nested arrays, each of which builds at least the arrays
that fit.  A map is refused when its key field is nullable. -/
structure ArrowLibrary (α : Type) where
  structTryNew : List Field → List (ArrowArray α) → NullBuffer → ℕ → Except String (ArrowArray α)
  listTryNew : Bool → Field → OffsetBuffer → ArrowArray α → NullBuffer →
    Except String (ArrowArray α)
  fixedSizeListTryNew : Field → ℤ → ArrowArray α → NullBuffer → Except String (ArrowArray α)
  mapTryNew : Field → OffsetBuffer → ArrowArray α → NullBuffer → Bool →
    Except String (ArrowArray α)
  struct_built : ∀ fields columns nulls length, ArrowArray.StructFits fields columns nulls length →
    structTryNew fields columns nulls length = .ok (.struct fields columns nulls length)
  list_built : ∀ large element offsets values nulls,
    ArrowArray.ListFits element offsets values nulls →
    listTryNew large element offsets values nulls = .ok (.list large element offsets values nulls)
  fixedSizeList_built : ∀ element size values nulls,
    ArrowArray.FixedSizeListFits element size values nulls →
    fixedSizeListTryNew element size values nulls =
      .ok (.fixedSizeList element size values nulls (values.length / size.toNat))
  map_built : ∀ label first second sorted offsets key value entryNulls entryLength nulls,
    ArrowArray.StructFits [first, second] [key, value] entryNulls entryLength →
    ArrowArray.MapFits (.struct label [first, second]) offsets entryNulls entryLength nulls →
    first.label.nullable = false →
    mapTryNew (.struct label [first, second]) offsets
        (.struct [first, second] [key, value] entryNulls entryLength) nulls sorted =
      .ok (.map (.struct label [first, second]) sorted offsets key value entryNulls entryLength
        nulls)
  map_refused : ∀ label first rest offsets entries nulls sorted result,
    mapTryNew (.struct label (first :: rest)) offsets entries nulls sorted = .ok result →
    first.label.nullable = false

/-- Why a resolution is not applied; a type stands in a field with an empty label. -/
inductive ApplyError where
  | appliedTo (expected : String) (type : Field)
  | nonStructEntries (type : Field)
  | refused (message : String)
  | outOfBounds (index : ℕ)

def Field.dataType (field : Field) : Field := field.relabel ⟨"", true, none⟩

def ArrowArray.dataType (array : ArrowArray α) : Field := array.typeUnder ⟨"", true, none⟩

/-- `new_null_array` of a type without members. -/
def newNullArray (type : ArrowType) (length : ℕ) : ArrowArray α :=
  .plain type (List.replicate length none)

variable (arrow : ArrowLibrary α)

/-! ## Applying a resolution -/

mutual

def NestedResolution.apply : NestedResolution → ArrowArray α → Except ApplyError (ArrowArray α)
  | .mk field members, array => ResolvedMembers.applyUnder field members array

def ResolvedMembers.applyUnder (field : Field) :
    ResolvedMembers → ArrowArray α → Except ApplyError (ArrowArray α)
  | .verbatim, array => .ok array
  | .struct slots, array =>
      match array with
      | .struct _ columns nulls length => do
          let resolved ← applySlots columns length slots
          (arrow.structTryNew (slots.map (·.resolution.field)) resolved nulls length).mapError
            .refused
      | other => .error (.appliedTo "struct" other.dataType)
  | .element element, array =>
      match array with
      | .list large _ offsets values nulls => do
          (arrow.listTryNew large element.field offsets (← element.apply values) nulls).mapError
            .refused
      | .fixedSizeList _ size values nulls _ => do
          (arrow.fixedSizeListTryNew element.field size (← element.apply values) nulls).mapError
            .refused
      | other => .error (.appliedTo "list" other.dataType)
  | .entries key value, array =>
      match field with
      | .map _ entries sorted =>
          match array with
          | .map _ _ offsets keys values entryNulls entryLength nulls =>
              match entries with
              | .struct label pair => do
                  let resolvedKeys ← key.apply keys
                  let resolvedValues ← value.apply values
                  let resolvedEntries ← (arrow.structTryNew pair [resolvedKeys, resolvedValues]
                    entryNulls entryLength).mapError .refused
                  (arrow.mapTryNew (.struct label pair) offsets resolvedEntries nulls
                    sorted).mapError .refused
              | other => .error (.nonStructEntries other.dataType)
          | other => .error (.appliedTo "map" other.dataType)
      | other => .error (.nonStructEntries other.dataType)

/-- The columns of the slots; a slot without a source is of the null type. -/
def applySlots (columns : List (ArrowArray α)) (length : ℕ) :
    List StructSlot → Except ApplyError (List (ArrowArray α))
  | [] => .ok []
  | .mk source resolution :: rest => do
      let column ←
        match source with
        | some index =>
            match columns[index]? with
            | some column => resolution.apply column
            | none => .error (.outOfBounds index)
        | none =>
            match resolution.field with
            | .plain _ type => .ok (newNullArray type length)
            | other => .error (.appliedTo "null" other.dataType)
      return column :: (← applySlots columns length rest)

end

/-! ## What the declaration says of a value -/

namespace RowValue

def onStruct (change : List (RowValue α) → List (String × RowValue α)) : RowValue α → RowValue α
  | struct members => struct (change (members.map Prod.snd))
  | other => other

def onList (change : RowValue α → RowValue α) : RowValue α → RowValue α
  | list items => list (items.map change)
  | other => other

def onMap (changeKey changeValue : RowValue α → RowValue α) : RowValue α → RowValue α
  | map entries => map (entries.map fun entry => (changeKey entry.1, changeValue entry.2))
  | other => other

end RowValue

/-- The slot that a member of the file claims. -/
def claims (mapping : List NameMappingEntry) (keys : List BindingKeys) (child : Field) : Option ℕ :=
  claimLogical ⟨child.name, fieldIdOf child, (mappingEntry mapping child.name).map (·.fieldId)⟩ keys

/-- The first member of the file that claims a slot. -/
def claimant (children : List Field) (mapping : List NameMappingEntry) (keys : List BindingKeys)
    (slot : ℕ) : Option ℕ :=
  children.findIdx? fun child => claims mapping keys child = some slot

mutual

/-- A value of the file as the declared members give it. -/
def declaredValue (physical : Field) (mapping : List NameMappingEntry) :
    NestedMembers → RowValue α → RowValue α
  | .struct fields =>
      match physical with
      | .struct _ children => RowValue.onStruct fun held =>
          declaredMembers children mapping (claimant children mapping (fields.map (·.keys)))
            held 0 fields
      | _ => id
  | .list inner =>
      match physical with
      | .list _ _ element =>
          RowValue.onList (declaredMember element (mapped mapping "element") inner)
      | _ => id
  | .map key value =>
      match physical with
      | .map _ (.struct _ [first, second]) _ =>
          RowValue.onMap (declaredMember first (mapped mapping "key") key)
            (declaredMember second (mapped mapping "value") value)
      | _ => id

def declaredMember (physical : Field) (mapping : List NameMappingEntry) :
    Option NestedMembers → RowValue α → RowValue α
  | some members => declaredValue physical mapping members
  | none => id

/-- Each declared member with the value of its claimant, or NULL. -/
def declaredMembers (children : List Field) (mapping : List NameMappingEntry)
    (claimant : ℕ → Option ℕ) (held : List (RowValue α)) (slot : ℕ) :
    List NestedField → List (String × RowValue α)
  | [] => []
  | .mk keys nested :: rest =>
      let value :=
        match claimant slot with
        | some index =>
            match children[index]?, held[index]? with
            | some child, some value =>
                declaredMember child (mapped mapping child.name) nested value
            | _, _ => .null
        | none => .null
      (keys.name, value) :: declaredMembers children mapping claimant held (slot + 1) rest

end

mutual

/-- No map that is rebuilt has a nullable key. -/
def requiredKeys (physical : Field) (mapping : List NameMappingEntry) : NestedMembers → Bool
  | .struct fields =>
      match physical with
      | .struct _ children =>
          requiredMembers children mapping (claimant children mapping
            (fields.map (·.keys))) 0 fields
      | _ => true
  | .list inner =>
      match physical with
      | .list _ _ element => requiredMember element (mapped mapping "element") inner
      | _ => true
  | .map key value =>
      match physical with
      | .map _ (.struct _ [first, second]) _ =>
          !first.label.nullable && requiredMember first (mapped mapping "key") key &&
            requiredMember second (mapped mapping "value") value
      | _ => true

def requiredMember (physical : Field) (mapping : List NameMappingEntry) :
    Option NestedMembers → Bool
  | some members => requiredKeys physical mapping members
  | none => true

def requiredMembers (children : List Field) (mapping : List NameMappingEntry)
    (claimant : ℕ → Option ℕ) (slot : ℕ) : List NestedField → Bool
  | [] => true
  | .mk _ nested :: rest =>
      let required :=
        match (claimant slot).bind (children[·]?) with
        | some child => requiredMember child (mapped mapping child.name) nested
        | none => true
      required && requiredMembers children mapping claimant (slot + 1) rest

end

/-! ## Claimed slots -/

/-- `result` holds the values of `array` under `meaning`, in the type of `field`. -/
structure Resolved (array result : ArrowArray α) (field : Field)
    (meaning : RowValue α → RowValue α) : Prop where
  valid : result.Valid
  typed : result.OfType field
  sized : result.length = array.length
  nulls : ∀ row, result.isNull row = array.isNull row
  values : ∀ row < array.length, result.valueAt row = meaning (array.valueAt row)

/-- A resolution rebuilds every array of the physical type, where its keys are required, and
otherwise none. -/
structure Carries (required : Bool) (resolution : NestedResolution) (physical : Field)
    (meaning : RowValue α → RowValue α) : Prop where
  nullable : resolution.field.label.nullable = physical.label.nullable
  applies : required = true → ∀ array : ArrowArray α, array.Valid → array.OfType physical →
    ∃ result, resolution.apply arrow array = .ok result ∧
      Resolved array result resolution.field meaning
  demands : ∀ array result : ArrowArray α, array.Valid → array.OfType physical →
    resolution.apply arrow array = .ok result → required = true

variable {arrow}

section Containers

variable {required : Bool} {resolution : NestedResolution} {physical : Field}
  {meaning : RowValue α → RowValue α}

theorem typeUnder_relabel (label other : FieldLabel) (array : ArrowArray α) :
    (array.typeUnder other).relabel label = array.typeUnder label := by
  cases array <;> rfl

theorem ArrowArray.OfType.withName {array : ArrowArray α} {field : Field}
    (typed : array.OfType field)
    (name : String) : array.OfType (field.withName name) := by
  unfold ArrowArray.OfType at typed ⊢
  rw [Field.withName, Field.label_relabel, ← typeUnder_relabel _ field.label, typed]

/-- What is rebuilt does not depend on the name of the field. -/
theorem Carries.withName (carries : Carries arrow required resolution physical meaning)
    (name : String) :
    Carries arrow required (.mk (resolution.field.withName name) resolution.members) physical
      meaning := by
  obtain ⟨nullable, applies, demands⟩ := carries
  have same : ∀ array : ArrowArray α,
      (NestedResolution.mk (resolution.field.withName name) resolution.members).apply arrow array =
        resolution.apply arrow array := by
    intro array
    obtain ⟨field, members⟩ := resolution
    cases members with
    | entries key value => cases field <;> rfl
    | _ => rfl
  refine ⟨?_, ?_, ?_⟩
  · simpa [NestedResolution.field, Field.withName] using nullable
  · intro ok array valid typed
    obtain ⟨result, applied, resolved⟩ := applies ok array valid typed
    exact ⟨result, (same array).trans applied,
      { resolved with typed := resolved.typed.withName name }⟩
  · intro array result valid typed run
    exact demands array result valid typed ((same array).symm.trans run)

theorem Carries.columnFits (carries : Carries arrow required resolution physical meaning)
    {nulls : NullBuffer}
    {length : ℕ} {column result : ArrowArray α}
    (fits : ArrowArray.ColumnFits nulls length physical column)
    (resolved : Resolved column result resolution.field meaning) :
    ArrowArray.ColumnFits nulls length resolution.field result := by
  obtain ⟨-, sized, masked⟩ := fits
  refine ⟨resolved.typed, resolved.sized.trans sized, ?_⟩
  rw [carries.nullable]
  simpa only [resolved.nulls] using masked

/-- The items of a row of fixed-size lists lie within the values. -/
theorem lt_of_mem_span {row size whole position : ℕ} (within : row < whole / size)
    (member : position ∈ List.range' (row * size) size) : position < whole := by
  have next : row * size + size ≤ whole / size * size := by
    rw [← Nat.succ_mul]
    exact Nat.mul_le_mul_right _ within
  exact ((List.mem_range'_1.mp member).2.trans_le next).trans_le (Nat.div_mul_le_self _ _)

/-- A slot, what it reads of the members of a value, and whether it can be rebuilt. -/
inductive SlotCarries (arrow : ArrowLibrary α) (children : List Field) :
    StructSlot → (List (RowValue α) → RowValue α) × Bool → Prop where
  | absent {label : FieldLabel} {type : ArrowType} (nullable : label.nullable = true) :
      SlotCarries arrow children (.mk none (verbatim (.plain label type))) (fun _ => .null, true)
  | claimed {index : ℕ} {child : Field} {required : Bool} {resolution : NestedResolution}
      {meaning : RowValue α → RowValue α} (found : children[index]? = some child)
      (carries : Carries arrow required resolution child meaning) :
      SlotCarries arrow children (.mk (some index) resolution)
        (fun held => (held[index]?.map meaning).getD .null, required)

theorem valueAt_newNullArray (type : ArrowType) (length row : ℕ) :
    (newNullArray type length : ArrowArray α).valueAt row = .null := by
  by_cases inside : row < length <;> simp [newNullArray, ArrowArray.valueAt, inside]

/-- The column of one slot. -/
theorem SlotCarries.applies {children : List Field} {slot : StructSlot}
    {read : (List (RowValue α) → RowValue α) × Bool}
    (carries : SlotCarries arrow children slot read)
    (ok : read.2 = true) {columns : List (ArrowArray α)} {nulls : NullBuffer} {length : ℕ}
    (fits : ArrowArray.StructFits children columns nulls length)
    (valid : ∀ column ∈ columns, column.Valid) (rest : List StructSlot) :
    ∃ column : ArrowArray α, column.Valid ∧
      ArrowArray.ColumnFits nulls length slot.resolution.field column ∧
      (∀ row < length, column.valueAt row = read.1 (columns.map fun column => column.valueAt row)) ∧
      applySlots arrow columns length (slot :: rest) =
        (applySlots arrow columns length rest).map (column :: ·) := by
  cases carries with
  | @absent label type nullable =>
      refine ⟨newNullArray type length, .plain _ _, ⟨rfl, List.length_replicate, .inl nullable⟩, ?_,
        ?_⟩
      · intro row _
        exact valueAt_newNullArray type length row
      · simp only [applySlots, verbatim, NestedResolution.field, ok_bind]
        cases applySlots arrow columns length rest <;> rfl
  | @claimed index child required resolution meaning found carries =>
      obtain ⟨column, held, columnFits⟩ := exists_getElem?_of_forall₂ fits.1 found
      obtain ⟨result, applied, resolved⟩ :=
        carries.applies ok column (valid column (List.mem_of_getElem? held)) columnFits.1
      refine ⟨result, resolved.valid, carries.columnFits columnFits resolved, ?_, ?_⟩
      · intro row within
        have value := resolved.values row (by rw [columnFits.2.1]; exact within)
        simp only [List.getElem?_map, held, Option.map_some, Option.getD_some, value]
      · simp only [applySlots, held, applied, ok_bind]
        cases applySlots arrow columns length rest <;> rfl

end Containers

/-! ## The declared tree -/

/-- A library that builds what fits, and no map with a nullable key. -/
def checkedLibrary : ArrowLibrary α where
  structTryNew fields columns nulls length :=
    if ArrowArray.StructFits fields columns nulls length then
      .ok (.struct fields columns nulls length)
    else .error "StructArray"
  listTryNew large element offsets values nulls :=
    if ArrowArray.ListFits element offsets values nulls then
      .ok (.list large element offsets values nulls)
    else .error "ListArray"
  fixedSizeListTryNew element size values nulls :=
    if ArrowArray.FixedSizeListFits element size values nulls then
      .ok (.fixedSizeList element size values nulls (values.length / size.toNat))
    else .error "FixedSizeListArray"
  mapTryNew entries offsets pairs nulls sorted :=
    match entries, pairs with
    | .struct label [first, second], .struct _ [key, value] entryNulls entryLength =>
        if ArrowArray.MapFits (.struct label [first, second]) offsets entryNulls entryLength nulls ∧
            first.label.nullable = false then
          .ok (.map (.struct label [first, second]) sorted offsets key value entryNulls entryLength
            nulls)
        else .error "MapArray"
    | _, _ => .error "MapArray"
  struct_built _ _ _ _ fits := if_pos fits
  list_built _ _ _ _ _ fits := if_pos fits
  fixedSizeList_built _ _ _ _ fits := if_pos fits
  map_built _ _ _ _ _ _ _ _ _ _ _ fits required := if_pos ⟨fits, required⟩
  map_refused label first rest offsets pairs nulls sorted result run := by
    split at run
    · next own _ _ _ _ _ _ same =>
        rw [Field.struct.injEq, List.cons.injEq] at same
        split at run
        · next built =>
            rw [same.2.1]
            exact built.2
        · cases run
    · cases run

/-- One row of one entry, from a key of a type to a text. -/
def oneRowMap (optional : Bool) (type : ArrowType) (key value : α) : ArrowArray α :=
  .map (.struct ⟨"entries", false, none⟩
    [.plain ⟨"key", optional, none⟩ type, .plain ⟨"value", true, none⟩ .utf8])
    false ⟨0, [1], by decide⟩ (.plain type [some key]) (.plain .utf8 [some value]) none 1 none

theorem oneRowMap_valid (optional : Bool) (type : ArrowType) (key value : α) :
    (oneRowMap optional type key value).Valid := by
  refine .map ⟨.cons ⟨rfl, rfl, .inr ?_⟩ (.cons ⟨rfl, rfl, .inl rfl⟩ .nil), nofun⟩
    ⟨rfl, fun _ _ => rfl, le_refl _, nofun⟩ (.plain _ _) (.plain _ _)
  intro row within null
  obtain rfl : row = 0 := by omega
  cases null

/-- Lists of pairs, of which one member is renamed, one is dropped and one is missing. -/
def pairs : Field :=
  .list ⟨"pairs", true, none⟩ .list
    (.struct ⟨"element", true, none⟩
      [.plain ⟨"a", false, none⟩ (.integer 64 true), .plain ⟨"col-2", true, none⟩ .utf8])

end LakehouseEngine.FieldIdProjection
