import LakehouseEngine.Data.ListRelation
import LakehouseEngine.Expression.Node
import LakehouseEngine.Text.Numeral
import LakehouseEngine.Types.ArrowType
import Mathlib.Data.List.Sort

/-!
# Which field of a file is which column of the table

A column is found by its field id, by the physical name it declares, by the id that the name
mapping gives a name, or by its own name, and by a letter-case fold of the names where
nothing else decides.  The fields of the file are then renamed to their columns.
-/

namespace LakehouseEngine

namespace FieldIdProjection

/-- A field id is an `i32`. -/
def FieldId := { id : ℤ // -2 ^ 31 ≤ id ∧ id < 2 ^ 31 }

instance : DecidableEq FieldId := inferInstanceAs (DecidableEq (Subtype _))

namespace FieldId

def toText (id : FieldId) : String := toString id.val

def parse (text : String) : Option FieldId :=
  (Text.integerValue text.toList).bind fun id =>
    if range : -2 ^ 31 ≤ id ∧ id < 2 ^ 31 then some ⟨id, range⟩ else none

theorem parse_toText (id : FieldId) : parse id.toText = some id := by
  have read : Text.integerValue (toString id.val).toList = some id.val := by
    rw [Text.toList_toString]
    split
    case isTrue nonneg =>
      rw [Text.integerValue, Text.splitSign_digits (Text.allDigits_toDigits _)]
      simp [Text.allDigits_toDigits, Text.natValue_toDigits, Nat.toDigits_ne_nil, nonneg]
    case isFalse negative =>
      simp only [Text.integerValue, Text.splitSign]
      simp [Text.allDigits_toDigits, Text.natValue_toDigits, Nat.toDigits_ne_nil]
      omega
  rw [parse, toText, read]
  exact dif_pos id.property

end FieldId

/-! ## Fields -/

/-- What a field has beside its type; of its metadata only the text under `PARQUET:field_id`
is read. -/
structure FieldLabel where
  name : String
  nullable : Bool
  fieldId : Option String
  deriving DecidableEq

inductive ListKind where
  | list
  | largeList
  | fixedSizeList (size : ℤ)
  deriving DecidableEq

inductive Field where
  | plain (label : FieldLabel) (type : ArrowType)
  | struct (label : FieldLabel) (children : List Field)
  | list (label : FieldLabel) (kind : ListKind) (element : Field)
  | map (label : FieldLabel) (entries : Field) (sorted : Bool)

namespace Field

def label : Field → FieldLabel
  | plain label _ | struct label _ | list label _ _ | map label _ _ => label

def name (field : Field) : String := field.label.name

/-- The type of the field under another label. -/
def relabel (label : FieldLabel) : Field → Field
  | plain _ type => plain label type
  | struct _ children => struct label children
  | list _ kind element => list label kind element
  | map _ entries sorted => map label entries sorted

def withName (field : Field) (name : String) : Field := field.relabel { field.label with name }

/-- The field with the type of another one. -/
def withDataType (field other : Field) : Field := other.relabel field.label

@[simp] theorem label_relabel (label : FieldLabel) (field : Field) :
    (field.relabel label).label = label := by
  cases field <;> rfl

@[simp] theorem name_withName (field : Field) (name : String) :
    (field.withName name).name = name := by
  simp [Field.name, withName]

@[simp] theorem name_withDataType (field other : Field) :
    (field.withDataType other).name = field.name := by
  simp [Field.name, withDataType]

def needsNestedJsonRendering : Field → Bool
  | plain _ _ => false
  | struct _ _ | list _ _ _ | map _ _ _ => true

end Field

def fieldIdOf (field : Field) : Option FieldId := field.label.fieldId.bind FieldId.parse

mutual

/-- One id at any depth makes the whole file id-bound. -/
def carriesFieldIds : List Field → Bool
  | [] => false
  | field :: fields => carriesFieldId field || carriesFieldIds fields

def carriesFieldId : Field → Bool
  | .plain label type => (fieldIdOf (.plain label type)).isSome
  | .struct label children =>
      (fieldIdOf (.struct label children)).isSome || carriesFieldIds children
  | .list label kind element =>
      (fieldIdOf (.list label kind element)).isSome || carriesFieldId element
  | .map label entries sorted =>
      (fieldIdOf (.map label entries sorted)).isSome || carriesFieldId entries

end

/-! ## The keys of a column -/

structure BindingKeys where
  name : String
  fieldId : Option FieldId
  physicalName : Option String
  deriving DecidableEq

def BindingKeys.bindsByIdentity (keys : BindingKeys) : Bool :=
  keys.fieldId.isNone && keys.physicalName.isNone

structure PhysicalKeys where
  name : String
  embeddedId : Option FieldId
  mappedFieldId : Option FieldId

def claimLogical (physical : PhysicalKeys) (logical : List BindingKeys) : Option ℕ :=
  let withFieldId := fun wanted => logical.findIdx? fun keys => keys.fieldId = some wanted
  (physical.embeddedId.bind withFieldId).orElse fun _ =>
  (logical.findIdx? fun keys => keys.physicalName = some physical.name).orElse fun _ =>
  (physical.mappedFieldId.bind withFieldId).orElse fun _ =>
    logical.findIdx? fun keys => keys.bindsByIdentity && keys.name = physical.name

/-- An entry of the name mapping, with the entries beneath it. -/
inductive NameMappingEntry where
  | mk (names : List String) (fieldId : FieldId) (fields : List NameMappingEntry)

namespace NameMappingEntry

def names : NameMappingEntry → List String
  | mk names _ _ => names

def fieldId : NameMappingEntry → FieldId
  | mk _ fieldId _ => fieldId

def fields : NameMappingEntry → List NameMappingEntry
  | mk _ _ fields => fields

end NameMappingEntry

/-! ## Nested members -/

mutual

inductive NestedMembers where
  | list (element : Option NestedMembers)
  | struct (fields : List NestedField)
  | map (key value : Option NestedMembers)

inductive NestedField where
  | mk (keys : BindingKeys) (nested : Option NestedMembers)

end

def NestedField.keys : NestedField → BindingKeys
  | mk keys _ => keys

def NestedField.nested : NestedField → Option NestedMembers
  | mk _ nested => nested

/-- Induction on a declared tree, with one hypothesis for each declared part. -/
theorem NestedMembers.inductOnParts {motive : NestedMembers → Prop}
    (list : ∀ inner, (∀ members ∈ inner, motive members) → motive (.list inner))
    (struct : ∀ fields, (∀ field ∈ fields, ∀ members ∈ NestedField.nested field, motive members) →
      motive (.struct fields))
    (map : ∀ key value, (∀ members ∈ key, motive members) → (∀ members ∈ value, motive members) →
      motive (.map key value))
    (members : NestedMembers) : motive members := by
  refine NestedMembers.rec (motive_1 := motive)
    (motive_2 := fun field => ∀ members ∈ field.nested, motive members)
    (motive_3 := fun inner => ∀ members ∈ inner, motive members)
    (motive_4 := fun fields => ∀ field ∈ fields, ∀ members ∈ field.nested, motive members)
    list struct map ?_ ?_ ?_ ?_ ?_ members
  · intro keys nested holds
    exact holds
  · intro members member
    cases member
  · intro members holds other member
    cases member
    exact holds
  · intro field member
    cases member
  · intro field fields holds rest
    exact List.forall_mem_cons.mpr ⟨holds, rest⟩

mutual

inductive NestedResolution where
  | mk (field : Field) (members : ResolvedMembers)

inductive ResolvedMembers where
  | verbatim
  | struct (slots : List StructSlot)
  | element (resolution : NestedResolution)
  | entries (key value : NestedResolution)

inductive StructSlot where
  | mk (source : Option ℕ) (resolution : NestedResolution)

end

namespace NestedResolution

def field : NestedResolution → Field
  | mk field _ => field

def members : NestedResolution → ResolvedMembers
  | mk _ members => members

end NestedResolution

def StructSlot.resolution : StructSlot → NestedResolution
  | mk _ resolution => resolution

def verbatim (physical : Field) : NestedResolution := .mk physical .verbatim

def mappingEntry (mapping : List NameMappingEntry) (name : String) : Option NameMappingEntry :=
  mapping.find? fun entry => entry.names.contains name

def mapped (mapping : List NameMappingEntry) (name : String) : List NameMappingEntry :=
  ((mappingEntry mapping name).map (·.fields)).getD []

/-- The child that each slot takes; the first child that claims a slot keeps it. -/
def claimedSlots (children : List Field) (keys : List BindingKeys)
    (mapping : List NameMappingEntry) : List (Option ℕ) :=
  children.zipIdx.foldl (fun claimed (child, index) =>
    match claimLogical ⟨child.name, fieldIdOf child,
        (mappingEntry mapping child.name).map (·.fieldId)⟩ keys with
    | some slot => if claimed[slot]? = some none then claimed.set slot (some index) else claimed
    | none => claimed) (List.replicate keys.length none)

mutual

/-- A member tree that contradicts the type of the file leaves the field as it is. -/
def resolveNestedField (physical : Field) (mapping : List NameMappingEntry) :
    NestedMembers → NestedResolution
  | .struct fields =>
      match physical with
      | .struct label children =>
          let slots := claimStructSlots children mapping
            (claimedSlots children (fields.map (·.keys)) mapping) fields
          .mk (.struct label (slots.map (·.resolution.field))) (.struct slots)
      | _ => verbatim physical
  | .list inner =>
      match physical with
      | .list label kind element =>
          let element := resolveMember element (mapped mapping "element") inner
          .mk (.list label kind element.field) (.element element)
      | _ => verbatim physical
  | .map keyMembers valueMembers =>
      match physical with
      | .map label (.struct entries [first, second]) sorted =>
          let key := resolveMember first (mapped mapping "key") keyMembers
          let value := resolveMember second (mapped mapping "value") valueMembers
          .mk (.map label (.struct entries [key.field, value.field]) sorted) (.entries key value)
      | _ => verbatim physical

def resolveMember (physical : Field) (mapping : List NameMappingEntry) :
    Option NestedMembers → NestedResolution
  | some members => resolveNestedField physical mapping members
  | none => verbatim physical

/-- The slots of a struct in declared order; an unclaimed one is null. -/
def claimStructSlots (children : List Field) (mapping : List NameMappingEntry)
    (claimed : List (Option ℕ)) : List NestedField → List StructSlot
  | [] => []
  | .mk keys nested :: rest =>
      let source := claimed.head?.join
      let resolution :=
        match source.bind (children[·]?) with
        | some child =>
            let resolved := resolveMember child (mapped mapping child.name) nested
            .mk (resolved.field.withName keys.name) resolved.members
        | none => verbatim (.plain ⟨keys.name, true, none⟩ (.other "Null"))
      .mk source resolution :: claimStructSlots children mapping claimed.tail rest

end

/-! ## Letter case -/

structure AmbiguousFold where
  logical : List String
  physical : List String
  deriving DecidableEq

def AmbiguousFold.text (fold : AmbiguousFold) : String :=
  let quoted := fun names : List String => ", ".intercalate
    (names.map fun name => "'" ++ name ++ "'")
  "table columns " ++ quoted fold.logical ++ " and file columns " ++ quoted fold.physical ++
    " are equal only ignoring letter case"

def indicesUnder (side : List (String × ℕ)) (key : String) : List ℕ :=
  (side.filter (·.1 = key)).map (·.2)

/-- The indices under each key, in the order of the keys. -/
def foldGroups (physical logical : List (String × ℕ)) : List (List ℕ × List ℕ) :=
  (((physical ++ logical).map (·.1)).dedup.insertionSort (· ≤ ·)).map fun key =>
    (indicesUnder physical key, indicesUnder logical key)

/-- A group of one field and one column binds them; any other with both is ambiguous. -/
def settleGroup (names : List String) (logical : List BindingKeys)
    (settled : List (Option ℕ) × List AmbiguousFold) (group : List ℕ × List ℕ) :
    List (Option ℕ) × List AmbiguousFold :=
  match group with
  | ([], _) | (_, []) => settled
  | ([physicalIndex], [logicalIndex]) =>
      (settled.1.set physicalIndex (some logicalIndex), settled.2)
  | (physicalIndices, logicalIndices) =>
      (settled.1, settled.2 ++
        [{ logical := logicalIndices.filterMap fun index => (logical[index]?).map (·.name)
           physical := physicalIndices.filterMap fun index => names[index]? }])

section Fold

variable [Unicode]

/-- The fields that no exact rule binds, under their folded names. -/
def unclaimedFields (names : List String) (exact : List (Option ℕ)) : List (String × ℕ) :=
  (names.zipIdx.filter fun (_, index) => exact[index]? = some none).map
    fun (name, index) => (upper name, index)

/-- The identity columns that no exact rule binds, under their folded names. -/
def unclaimedColumns (logical : List BindingKeys) (exact : List (Option ℕ)) : List (String × ℕ) :=
  (logical.zipIdx.filter fun (keys, index) =>
    keys.bindsByIdentity && !exact.contains (some index)).map
      fun (keys, index) => (upper keys.name, index)

def claimByCaseFold (names : List String) (logical : List BindingKeys) (exact : List (Option ℕ)) :
    List (Option ℕ) × List AmbiguousFold :=
  if exact.all (·.isSome) || !logical.any (·.bindsByIdentity) then (exact, [])
  else
    (foldGroups (unclaimedFields names exact) (unclaimedColumns logical exact)).foldl
      (settleGroup names logical) (exact, [])

end Fold

/-! ## Binding -/

/-- A column of the table; its default is not read here. -/
structure LogicalField where
  name : String
  fieldId : Option FieldId
  arrowType : ArrowType
  nullable : Bool
  nested : Option NestedMembers
  physicalName : Option String

def LogicalField.keys (field : LogicalField) : BindingKeys :=
  ⟨field.name, field.fieldId, field.physicalName⟩

/-- Only a column that binds by its id is tagged with one. -/
def buildLogicalArrowSchema (fields : List LogicalField) : List Field :=
  fields.map fun field =>
    .plain ⟨field.name, field.nullable, field.fieldId.map FieldId.toText⟩ field.arrowType

/-- Pairs collected into a map: a later pair replaces an earlier one with its key. -/
def collectPairs {β : Type} (pairs : List (String × β)) : List (String × β) :=
  pairs.foldl (fun map pair => pair :: map.filter (·.1 ≠ pair.1)) []

structure FieldIdResolution where
  nameMapping : List NameMappingEntry
  /-- The logical name of each physical name. -/
  declaredPhysicalNames : List (String × String)
  nestedMembers : List (String × NestedMembers)

def FieldIdResolution.forLogicalSchema (fields : List LogicalField)
    (nameMapping : List NameMappingEntry) : FieldIdResolution where
  nameMapping := nameMapping
  declaredPhysicalNames := collectPairs (fields.filterMap fun field =>
    field.physicalName.map fun physical => (physical, field.name))
  nestedMembers := collectPairs (fields.filterMap fun field =>
    field.nested.map fun members => (field.name, members))

/-- Moves an unclaimed field out of the names of the columns. -/
def unboundPrefix : String := "\x00unbound:"

structure ColumnBinding where
  renamedPhysical : List Field
  boundLogicalNames : List String
  nested : List (String × NestedResolution)
  ambiguousFolds : List AmbiguousFold

def bindingKeys (logical : List Field) (resolution : FieldIdResolution) : List BindingKeys :=
  let declaredPhysicalByLogical := collectPairs
    (resolution.declaredPhysicalNames.map fun (physical, logical) => (logical, physical))
  logical.map fun field =>
    ⟨field.name, fieldIdOf field, declaredPhysicalByLogical.lookup field.name⟩

/-- The mapping applies only to a file without any id. -/
def appliedMapping (physical : List Field) (resolution : FieldIdResolution) :
    List NameMappingEntry :=
  if carriesFieldIds physical then [] else resolution.nameMapping

def mappingByPhysicalName (mapping : List NameMappingEntry) : List (String × NameMappingEntry) :=
  collectPairs (mapping.flatMap fun entry => entry.names.map fun name => (name, entry))

def exactClaims (keys : List BindingKeys) (mapping : List (String × NameMappingEntry))
    (physical : List Field) : List (Option ℕ) :=
  physical.map fun field =>
    claimLogical ⟨field.name, fieldIdOf field, (mapping.lookup field.name).map (·.fieldId)⟩ keys

def renamed (keys : List BindingKeys) (field : Field) (claimed : Option ℕ) : Field :=
  match claimed.bind (keys[·]?) with
  | none =>
      -- the default adapter would bind an unclaimed field by its name
      if keys.any (·.name = field.name) then field.withName (unboundPrefix ++ field.name) else field
  | some claiming => if claiming.name = field.name then field else field.withName claiming.name

def bindColumns [Unicode] (logical physical : List Field) (resolution : FieldIdResolution) :
    ColumnBinding :=
  let keys := bindingKeys logical resolution
  let mapping := mappingByPhysicalName (appliedMapping physical resolution)
  let exact := exactClaims keys mapping physical
  let (claims, ambiguousFolds) := claimByCaseFold (physical.map (·.name)) keys exact
  let nested := collectPairs <| (physical.zip claims).filterMap fun (field, claimed) => do
    let claiming ← claimed.bind (keys[·]?)
    let members ← resolution.nestedMembers.lookup claiming.name
    return (claiming.name, resolveNestedField field
      (((mapping.lookup field.name).map (·.fields)).getD []) members)
  let renamedPhysical := (physical.zip claims).map fun (field, claimed) =>
    renamed keys field claimed
  { renamedPhysical
    boundLogicalNames := (logical.map (·.name)).filter (renamedPhysical.map (·.name)).contains
    nested
    ambiguousFolds }

namespace ColumnBinding

def ensureUnambiguous (binding : ColumnBinding) (tableRoot : String) : Except String Unit :=
  match binding.ambiguousFolds with
  | [] => .ok ()
  | folds => .error ("cannot bind the columns of a data file of the table at '" ++ tableRoot ++
      "' by letter case: " ++ "; ".intercalate (folds.map (·.text)) ++ ", so none of them binds")

/-- The columns rendered to JSON, by their index in the file. -/
def nestedColumns (binding : ColumnBinding) : List (ℕ × NestedResolution) :=
  binding.renamedPhysical.zipIdx.filterMap fun (field, index) => do
    let resolution ← binding.nested.lookup field.name
    if resolution.field.needsNestedJsonRendering then some (index, resolution) else none

def delegatePhysicalSchema (binding : ColumnBinding) (nested : List (ℕ × NestedResolution)) :
    List Field :=
  binding.renamedPhysical.zipIdx.map fun (field, index) =>
    match nested.lookup index with
    | some resolution => field.withDataType resolution.field
    | none => field

end ColumnBinding

/-- The schema of a file as the default adapter gets it, which then binds by name. -/
def create [Unicode] (tableRoot : String) (logical physical : List Field)
    (resolution : FieldIdResolution) : Except String (List Field) := do
  let binding := bindColumns logical physical resolution
  binding.ensureUnambiguous tableRoot
  return binding.delegatePhysicalSchema binding.nestedColumns

end FieldIdProjection

end LakehouseEngine
