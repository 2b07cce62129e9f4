import LakehouseEngine.Data.Fallible
import LakehouseEngine.Data.ListRelation
import LakehouseEngine.Data.OrderedMap
import LakehouseEngine.Pushdown.Format.PartitionPredicate
import LakehouseEngine.Scan.FieldIdProjection
import LakehouseEngine.Text.Hex
import LakehouseEngine.Types.Mapping

/-!
# Partition values of a Delta table

The log of a Delta table records each file's partition values under the names that its
column mapping gives the columns, which a rename does not change.  A declared virtual
table names the columns its own way, and planning carries each value over to the declared
column that binds to the logged one.
-/

namespace LakehouseEngine.DeltaTable

open FieldIdProjection (LogicalField)

inductive ColumnMappingMode where
  | none | id | name
  deriving DecidableEq

/-- A column of the table's schema. -/
structure StructField where
  name : String
  columnMappingId : Option ℤ
  physicalName : Option String
  nullable : Bool

/-- What planning reads of the table's current version. -/
structure Snapshot where
  schema : List StructField
  partitionColumns : List String
  mode : ColumnMappingMode

structure DeclaredSchema where
  table : String
  logicalSchema : List LogicalField
  partitionColumns : List String

/-- How a declaration disagrees with the log. -/
inductive Disagreement where
  | bindingKey (mode : ColumnMappingMode) (column : String)
  | partitions (logged declared : List String)

inductive PlanError where
  | disagreement (table : String) (part : Disagreement)
  | relaxed (column table : String)
  | replay (message : String)

/-- Whether a declared column names a column of the schema. -/
def bindsTo (declared : LogicalField) (field : StructField) : Bool :=
  match declared.physicalName, declared.fieldId with
  | some physicalName, _ => field.physicalName = some physicalName
  | none, some id => field.columnMappingId = some id.val
  | none, none => eqIgnoreAsciiCase field.name declared.name

def snapshotField (schema : List StructField) (declared : LogicalField) : Option StructField :=
  schema.find? (bindsTo declared)

def bindingKey (field : LogicalField) : Bool × Bool :=
  (field.fieldId.isSome, field.physicalName.isSome)

def modeKey (mode : ColumnMappingMode) : Bool × Bool := (mode = .id, mode = .name)

def ensureBindingKeysFollowMode (declared : DeclaredSchema) (mode : ColumnMappingMode) :
    Except PlanError Unit :=
  match declared.logicalSchema.find? fun field => bindingKey field ≠ modeKey mode with
  | some field => .error (.disagreement declared.table (.bindingKey mode field.name))
  | none => .ok ()

/-- The column of the schema that a declared partition column binds to. -/
def partitionField (schema : List StructField) (declared : DeclaredSchema) (name : String) :
    Option StructField := do
  let field ← declared.logicalSchema.find? fun field => field.name = name
  snapshotField schema field

def checkedPartitionFields (snapshot : Snapshot) (declared : DeclaredSchema) :
    Except PlanError (List StructField) :=
  let partitionFields := declared.partitionColumns.map (partitionField snapshot.schema declared)
  if partitionFields.map (Option.map StructField.name) ≠ snapshot.partitionColumns.map some then
    .error (.disagreement declared.table
      (.partitions snapshot.partitionColumns declared.partitionColumns))
  else
    .ok (partitionFields.filterMap id)

def ensureNoRelaxedNullability (schema : List StructField) (declared : DeclaredSchema) :
    Except PlanError Unit :=
  let relaxed := fun field : LogicalField =>
    !field.nullable && (snapshotField schema field).any StructField.nullable
  match declared.logicalSchema.find? relaxed with
  | some field => .error (.relaxed field.name declared.table)
  | none => .ok ()

/-- The columns that the filter of a request can name. -/
def filterColumns (schema : List StructField) (declared : DeclaredSchema) :
    List (String × StructField) :=
  declared.logicalSchema.filterMap fun field =>
    (snapshotField schema field).map fun bound => (field.name, bound)

/-! ## Replayed rows -/

/-- A column of the replayed log, of text or of another type. -/
structure LogColumn where
  typeName : String
  isText : Bool
  values : ℕ → Option String

def stringAt (column : LogColumn) (row : ℕ) (name : String) : Except PlanError (Option String) :=
  match column.values row with
  | none => .ok none
  | some text =>
      if column.isText then .ok (some text)
      else .error (.replay ("the replayed Delta log carries column '" ++ name ++ "' as " ++
        column.typeName ++ ", which is not the type delta_kernel's scan-row schema documents"))

/-- A column of maps: the entries of a row lie between two offsets. -/
structure MapColumn where
  isNull : ℕ → Bool
  offsets : List ℕ
  keys : LogColumn
  values : LogColumn

def insertEntry (column : MapColumn) (path : String) (carried : PartitionValues) (entry : ℕ) :
    Except PlanError PartitionValues := do
  match ← stringAt column.keys entry "partitionValues key" with
  | none => .error (.replay ("the `add` action for Delta data file '" ++ path ++
      "' logs a partition value under a NULL partition-column name"))
  | some name =>
      return OrderedMap.insert name (← stringAt column.values entry "partitionValues value") carried

def partitionValuesAt (partitionValues : Option MapColumn) (row : ℕ) (path : String) :
    Except PlanError PartitionValues :=
  match partitionValues with
  | none => .ok []
  | some column =>
      if column.isNull row then .ok []
      else
        match column.offsets[row]?, column.offsets[row + 1]? with
        | some first, some last =>
            (List.range' first (last - first)).foldlM (insertEntry column path) []
        | _, _ => .error (.replay ("the replayed Delta log carries partition values for " ++
            toString (column.offsets.length - 1) ++ " rows, short of the row holding data file '" ++
            path ++ "'"))

/-- The row of a file's `add` action. -/
structure ScanRow where
  path : String
  partitionValues : Option MapColumn
  row : ℕ

structure ActiveFile where
  path : String
  partitionValues : PartitionValues

def activeFile (row : ScanRow) : Except PlanError ActiveFile :=
  (partitionValuesAt row.partitionValues row.row row.path).map fun carried => ⟨row.path, carried⟩

/-! ## Declared files -/

/-- The name that the log records a column's values under. -/
def logKey (mode : ColumnMappingMode) (field : StructField) : String :=
  (field.physicalName.filter fun _ => mode ≠ .none).getD field.name

/-- The logged values under the declared names; each is taken once. -/
def takeLogged : List (String × String) → PartitionValues → PartitionValues
  | [], _ => []
  | (name, key) :: keys, logged =>
      match logged.lookup key with
      | some value => (name, value) :: takeLogged keys (OrderedMap.erase key logged)
      | none => takeLogged keys logged

def isBinaryColumn (fields : List LogicalField) (name : String) : Bool :=
  fields.any fun field => field.arrowType.isBinary && field.name = name

/-- The lowercase hex of a text's UTF-8 bytes. -/
def hexText (text : String) : String :=
  String.ofList (Text.hexEncode (PartitionPredicate.utf8Bytes text))

def hexBinaryPartitionValues (fields : List LogicalField) (values : PartitionValues) :
    PartitionValues :=
  values.map fun (name, value) =>
    (name, if isBinaryColumn fields name then value.map hexText else value)

/-- `replay` gives the rows of the files that are active under the filter. -/
def declaredFiles (snapshot : Snapshot) (declared : DeclaredSchema)
    (replay : List (String × StructField) → Except PlanError (List ScanRow)) :
    Except PlanError (List ActiveFile) := do
  ensureBindingKeysFollowMode declared snapshot.mode
  let partitionFields ← checkedPartitionFields snapshot declared
  ensureNoRelaxedNullability snapshot.schema declared
  let loggedKeys := (declared.partitionColumns.zip partitionFields).map fun (name, field) =>
    (name, logKey snapshot.mode field)
  let rows ← replay (filterColumns snapshot.schema declared)
  let files ← rows.mapM activeFile
  return files.map fun file =>
    ⟨file.path, hexBinaryPartitionValues declared.logicalSchema
      (OrderedMap.collect (takeLogged loggedKeys file.partitionValues))⟩

/-! ## What a row carries -/

/-- The entries that a row's map holds. -/
inductive Records (row : ScanRow) : PartitionValues → Prop where
  | absent (none : row.partitionValues = none) : Records row []
  | null {column : MapColumn} (found : row.partitionValues = some column)
      (null : column.isNull row.row = true) : Records row []
  | entries {column : MapColumn} {first last : ℕ} {logged : PartitionValues}
      (found : row.partitionValues = some column) (present : column.isNull row.row = false)
      (from' : column.offsets[row.row]? = some first)
        (until' : column.offsets[row.row + 1]? = some last)
      (keys : column.keys.isText = true) (values : column.values.isText = true)
      (held : (List.range' first (last - first)).map
        (fun entry => (column.keys.values entry, column.values.values entry)) =
        logged.map fun pair => (some pair.1, pair.2)) : Records row logged

theorem stringAt_text {column : LogColumn} (text : column.isText = true) (row : ℕ) (name : String) :
    stringAt column row name = .ok (column.values row) := by
  unfold stringAt
  cases column.values row with
  | none => rfl
  | some value => simp [text]

theorem foldlM_insertEntry {column : MapColumn} {path : String} (keys : column.keys.isText = true)
    (values : column.values.isText = true) {entries : List ℕ} {logged : PartitionValues}
    (held : entries.map (fun entry => (column.keys.values entry, column.values.values entry)) =
      logged.map fun pair => (some pair.1, pair.2)) (carried : PartitionValues) :
    entries.foldlM (insertEntry column path) carried =
      .ok (logged.foldl (fun map pair => OrderedMap.insert pair.1 pair.2 map) carried) := by
  induction entries generalizing logged carried with
  | nil =>
      cases logged with
      | nil => rfl
      | cons pair logged => cases held
  | cons entry entries ih =>
      cases logged with
      | nil => cases held
      | cons pair logged =>
          obtain ⟨name, value⟩ := pair
          simp only [List.map_cons, List.cons.injEq, Prod.mk.injEq] at held
          obtain ⟨⟨key, here⟩, rest⟩ := held
          have step : insertEntry column path carried entry =
              .ok (OrderedMap.insert name value carried) := by
            simp only [insertEntry, stringAt_text keys, stringAt_text values, key, here, ok_bind]
            rfl
          rw [List.foldlM_cons, step, ok_bind, ih rest, List.foldl_cons]

theorem activeFile_of_records {row : ScanRow} {logged : PartitionValues}
    (records : Records row logged) :
    activeFile row = .ok ⟨row.path, OrderedMap.collect logged⟩ := by
  cases records with
  | absent none => simp [activeFile, partitionValuesAt, none, Except.map, OrderedMap.collect]
  | null found null =>
      simp [activeFile, partitionValuesAt, found, null, Except.map, OrderedMap.collect]
  | entries found present from' until' keys values held =>
      simp only [activeFile, partitionValuesAt, found, present, from', until', Bool.false_eq_true,
        if_false, foldlM_insertEntry keys values held]
      rfl

/-! ## Values under declared names -/

theorem names_takeLogged (keys : List (String × String)) (logged : PartitionValues) :
    ((takeLogged keys logged).map Prod.fst).Sublist (keys.map Prod.fst) := by
  induction keys generalizing logged with
  | nil => exact List.Sublist.slnil
  | cons pair keys ih =>
      obtain ⟨name, key⟩ := pair
      unfold takeLogged
      split
      · exact (ih _).cons_cons name
      · exact (ih _).cons name

/-- A declared name gets the value of its logged key. -/
theorem lookup_takeLogged {keys : List (String × String)} (names : (keys.map Prod.fst).Nodup)
    (distinct : (keys.map Prod.snd).Nodup) (logged : PartitionValues) {name key : String}
    (member : (name, key) ∈ keys) : (takeLogged keys logged).lookup name = logged.lookup key := by
  induction keys generalizing logged with
  | nil => cases member
  | cons pair keys ih =>
      obtain ⟨first, firstKey⟩ := pair
      simp only [List.map_cons, List.nodup_cons] at names distinct
      rcases List.mem_cons.mp member with same | later
      · cases same
        unfold takeLogged
        split
        · next value found =>
            rw [OrderedMap.lookup_cons, if_pos (beq_self_eq_true name), found]
        · next missing =>
            rw [missing]
            apply OrderedMap.lookup_eq_none
            intro taken
            exact names.1 ((names_takeLogged keys logged).subset taken)
      · have otherName : name ≠ first := by
          rintro rfl
          exact names.1 (List.mem_map.mpr ⟨_, later, rfl⟩)
        have otherKey : key ≠ firstKey := by
          rintro rfl
          exact distinct.1 (List.mem_map.mpr ⟨_, later, rfl⟩)
        unfold takeLogged
        split
        · rw [OrderedMap.lookup_cons, if_neg (by simpa using otherName),
            ih names.2 distinct.2 _ later,
            OrderedMap.lookup_erase_of_ne otherKey]
        · exact ih names.2 distinct.2 _ later

theorem lookup_hexBinaryPartitionValues (fields : List LogicalField) (values : PartitionValues)
    (name : String) : (hexBinaryPartitionValues fields values).lookup name =
      (values.lookup name).map fun value =>
        if isBinaryColumn fields name then value.map hexText else value := by
  induction values with
  | nil => rfl
  | cons pair values ih =>
      obtain ⟨other, value⟩ := pair
      unfold hexBinaryPartitionValues at ih ⊢
      rw [List.map_cons, OrderedMap.lookup_cons, OrderedMap.lookup_cons, ih]
      split
      · next same =>
          obtain rfl := eq_of_beq same
          rfl
      · rfl

/-! ## The columns of a schema -/

/-- A schema that the kernel accepts: no two columns share a name in any letter case, an id or a
physical name, and a mapped column has a physical name. -/
structure Snapshot.Valid (snapshot : Snapshot) : Prop where
  names : ∀ first ∈ snapshot.schema, ∀ second ∈ snapshot.schema,
    asciiLowercase first.name = asciiLowercase second.name → first = second
  ids : ∀ first ∈ snapshot.schema, ∀ second ∈ snapshot.schema, ∀ id,
    first.columnMappingId = some id → second.columnMappingId = some id → first = second
  physicalNames : ∀ first ∈ snapshot.schema, ∀ second ∈ snapshot.schema, ∀ name,
    first.physicalName = some name → second.physicalName = some name → first = second
  mapped : snapshot.mode ≠ .none → ∀ field ∈ snapshot.schema, field.physicalName.isSome
  partitions : snapshot.partitionColumns.Nodup

theorem logKey_unmapped (field : StructField) : logKey .none field = field.name := by
  cases physical : field.physicalName <;> simp [logKey, physical, Option.filter]

theorem logKey_mapped {mode : ColumnMappingMode} (mapped : mode ≠ .none) {field : StructField}
    {name : String} (physical : field.physicalName = some name) : logKey mode field = name := by
  simp [logKey, physical, Option.filter, mapped]

section Valid

variable {snapshot : Snapshot} (valid : snapshot.Valid) {declared : DeclaredSchema}

include valid

/-- A declared column names at most one column. -/
theorem bindsTo_unique {field : LogicalField} {first second : StructField}
    (inFirst : first ∈ snapshot.schema) (inSecond : second ∈ snapshot.schema)
    (bound : bindsTo field first = true) (bound' : bindsTo field second = true) :
    first = second := by
  cases physical : field.physicalName with
  | some name =>
      simp only [bindsTo, physical, decide_eq_true_eq] at bound bound'
      exact valid.physicalNames _ inFirst _ inSecond name bound bound'
  | none =>
      cases identified : field.fieldId with
      | some id =>
          simp only [bindsTo, physical, identified, decide_eq_true_eq] at bound bound'
          exact valid.ids _ inFirst _ inSecond id.val bound bound'
      | none =>
          simp only [bindsTo, physical, identified, eqIgnoreAsciiCase, beq_iff_eq] at bound bound'
          exact valid.names _ inFirst _ inSecond (bound.trans bound'.symm)

/-- Columns are logged under different names. -/
theorem logKey_injective {first second : StructField} (inFirst : first ∈ snapshot.schema)
    (inSecond : second ∈ snapshot.schema)
    (same : logKey snapshot.mode first = logKey snapshot.mode second) : first = second := by
  by_cases unmapped : snapshot.mode = .none
  · rw [unmapped, logKey_unmapped, logKey_unmapped] at same
    exact valid.names _ inFirst _ inSecond (congrArg asciiLowercase same)
  · obtain ⟨firstName, ofFirst⟩ := Option.isSome_iff_exists.mp (valid.mapped unmapped first inFirst)
    obtain ⟨secondName, ofSecond⟩ := Option.isSome_iff_exists.mp
      (valid.mapped unmapped second inSecond)
    rw [logKey_mapped unmapped ofFirst, logKey_mapped unmapped ofSecond] at same
    rw [same] at ofFirst
    exact valid.physicalNames _ inFirst _ inSecond secondName ofFirst ofSecond

end Valid

/-! ## Planning -/

section Planning

variable {snapshot : Snapshot} {declared : DeclaredSchema}
  {replay : List (String × StructField) → Except PlanError (List ScanRow)}

/-- Every declared column carries the binding key of the mode. -/
def FollowsMode (declared : DeclaredSchema) (mode : ColumnMappingMode) : Prop :=
  ∀ field ∈ declared.logicalSchema, bindingKey field = modeKey mode

/-- A declared partition column and the column of the schema it binds to. -/
def Binds (schema : List StructField) (declared : DeclaredSchema) (name : String)
    (field : StructField) : Prop :=
  ∃ logical, declared.logicalSchema.find? (fun field => field.name = name) = some logical ∧
    field ∈ schema ∧ bindsTo logical field = true

/-- The declared partition columns bind, in order, to the table's partition columns. -/
def Corresponds (snapshot : Snapshot) (declared : DeclaredSchema) : Prop :=
  List.Forall₂ (fun name logged =>
    ∃ field, Binds snapshot.schema declared name field ∧ field.name = logged)
    declared.partitionColumns snapshot.partitionColumns

theorem partitionField_eq_some (valid : snapshot.Valid) {name : String} {field : StructField} :
    partitionField snapshot.schema declared name = some field ↔
      Binds snapshot.schema declared name field := by
  unfold partitionField Binds snapshotField
  simp only [Option.bind_eq_bind, Option.bind_eq_some_iff]
  constructor
  · rintro ⟨logical, found, bound⟩
    exact ⟨logical, found, List.mem_of_find?_eq_some bound, List.find?_some bound⟩
  · rintro ⟨logical, found, member, bound⟩
    refine ⟨logical, found, ?_⟩
    cases first : snapshot.schema.find? (bindsTo logical) with
    | none => exact absurd bound (by simpa using List.find?_eq_none.mp first field member)
    | some other =>
        rw [bindsTo_unique valid (List.mem_of_find?_eq_some first) member
          (List.find?_some first) bound]

theorem ensureBindingKeysFollowMode_ok
    (followed : ensureBindingKeysFollowMode declared snapshot.mode = .ok ()) :
    FollowsMode declared snapshot.mode := by
  unfold ensureBindingKeysFollowMode at followed
  split at followed
  · cases followed
  · next none =>
      intro field member
      have key := List.find?_eq_none.mp none field member
      simpa using key

theorem forall₂_of_names {find : String → Option StructField} {names columns : List String}
    (same : (names.map find).map (Option.map StructField.name) = columns.map some) :
    ((names.map find).filterMap id).map StructField.name = columns ∧
      List.Forall₂ (fun name field => find name = some field) names
        ((names.map find).filterMap id) := by
  induction names generalizing columns with
  | nil =>
      cases columns with
      | nil => exact ⟨rfl, .nil⟩
      | cons column columns => cases same
  | cons name names ih =>
      cases columns with
      | nil => cases same
      | cons column columns =>
          simp only [List.map_cons, List.cons.injEq] at same
          obtain ⟨field, found, named⟩ := Option.map_eq_some_iff.mp same.1
          obtain ⟨rest, related⟩ := ih same.2
          have kept : ((name :: names).map find).filterMap id =
            field :: (names.map find).filterMap id := by
            rw [List.map_cons, found]
            rfl
          rw [kept]
          exact ⟨by rw [List.map_cons, named, rest], .cons found related⟩

/-- The checked fields are those that the declared partition columns bind to. -/
theorem checkedPartitionFields_ok (valid : snapshot.Valid) {fields : List StructField}
    (checked : checkedPartitionFields snapshot declared = .ok fields) :
    fields.map StructField.name = snapshot.partitionColumns ∧
      List.Forall₂ (Binds snapshot.schema declared) declared.partitionColumns fields := by
  simp only [checkedPartitionFields] at checked
  split at checked
  · cases checked
  · next same =>
      cases checked
      obtain ⟨names, related⟩ := forall₂_of_names (not_not.mp same)
      exact ⟨names, related.imp fun _ _ => (partitionField_eq_some valid).mp⟩

/-- The names of the declared partition columns and the names their values are logged under. -/
def loggedKeys (mode : ColumnMappingMode) (declared : DeclaredSchema) (fields : List StructField) :
    List (String × String) :=
  (declared.partitionColumns.zip fields).map fun (name, field) => (name, logKey mode field)

theorem declaredFiles_ok {entries : List ActiveFile}
    (planned : declaredFiles snapshot declared replay = .ok entries) :
    FollowsMode declared snapshot.mode ∧
    ∃ fields rows files, checkedPartitionFields snapshot declared = .ok fields ∧
      replay (filterColumns snapshot.schema declared) = .ok rows ∧
      rows.mapM activeFile = .ok files ∧
      entries = files.map fun file => ⟨file.path, hexBinaryPartitionValues declared.logicalSchema
        (OrderedMap.collect (takeLogged (loggedKeys snapshot.mode declared fields)
          file.partitionValues))⟩ := by
  obtain ⟨_, followed, planned⟩ := exists_of_bind_ok planned
  obtain ⟨fields, checked, planned⟩ := exists_of_bind_ok planned
  obtain ⟨_, -, planned⟩ := exists_of_bind_ok planned
  obtain ⟨rows, replayed, planned⟩ := exists_of_bind_ok planned
  obtain ⟨files, read, planned⟩ := exists_of_bind_ok planned
  cases planned
  exact ⟨ensureBindingKeysFollowMode_ok followed, fields, rows, files, checked, replayed, read, rfl⟩

theorem corresponds_of_checked (valid : snapshot.Valid) {fields : List StructField}
    (checked : checkedPartitionFields snapshot declared = .ok fields) :
    Corresponds snapshot declared := by
  obtain ⟨names, related⟩ := checkedPartitionFields_ok valid checked
  rw [Corresponds, ← names, List.forall₂_map_right_iff]
  exact related.imp fun _ field bound => ⟨field, bound, rfl⟩

/-- A declared partition column binds to one column only. -/
theorem Binds.unique (valid : snapshot.Valid) {name : String} {first second : StructField}
    (bound : Binds snapshot.schema declared name first)
    (bound' : Binds snapshot.schema declared name second) : first = second := by
  obtain ⟨logical, found, inFirst, binds⟩ := bound
  obtain ⟨other, found', inSecond, binds'⟩ := bound'
  cases found.symm.trans found'
  exact bindsTo_unique valid inFirst inSecond binds binds'

/-- The form a logged value travels in: text, or the hex of its bytes in a binary column. -/
def travels (declared : DeclaredSchema) (name : String) (value : Option String) : Option String :=
  if isBinaryColumn declared.logicalSchema name then value.map hexText else value

theorem exists_bound_of_mem {related : String → StructField → Prop} {names : List String}
    {fields : List StructField} (each : List.Forall₂ related names fields) {name : String}
    (member : name ∈ names) :
    ∃ field ∈ fields, related name field ∧ (name, field) ∈ names.zip fields := by
  induction each with
  | nil => cases member
  | cons head rest ih =>
      rcases List.mem_cons.mp member with rfl | member
      · exact ⟨_, List.mem_cons_self, head, List.mem_cons_self⟩
      · obtain ⟨field, inFields, bound, pair⟩ := ih member
        exact ⟨field, List.mem_cons_of_mem _ inFields, bound, List.mem_cons_of_mem _ pair⟩

section Checked

variable (valid : snapshot.Valid) {fields : List StructField}
  (checked : checkedPartitionFields snapshot declared = .ok fields)

include valid checked

theorem fields_nodup : fields.Nodup := by
  have names := (checkedPartitionFields_ok valid checked).1
  have distinct := valid.partitions
  rw [← names] at distinct
  exact distinct.of_map

theorem names_loggedKeys :
    (loggedKeys snapshot.mode declared fields).map Prod.fst = declared.partitionColumns := by
  have related := (checkedPartitionFields_ok valid checked).2
  rw [loggedKeys, List.map_map]
  exact List.map_fst_zip related.length_eq.le

theorem names_nodup : declared.partitionColumns.Nodup :=
  nodup_of_forall₂ (checkedPartitionFields_ok valid checked).2
    (fun _ _ _ bound bound' => bound.unique valid bound') (fields_nodup valid checked)

theorem keys_nodup : ((loggedKeys snapshot.mode declared fields).map Prod.snd).Nodup := by
  have related := (checkedPartitionFields_ok valid checked).2
  have keys : (loggedKeys snapshot.mode declared fields).map Prod.snd =
      fields.map (logKey snapshot.mode) := by
    rw [loggedKeys, List.map_map]
    have zipped := List.map_snd_zip related.length_eq.ge
    conv_rhs => rw [← zipped, List.map_map]
    rfl
  rw [keys]
  have inSchema {field : StructField} (member : field ∈ fields) : field ∈ snapshot.schema := by
    obtain ⟨name, -, _, -, bound, -⟩ := exists_related_of_mem related member
    exact bound
  apply List.Nodup.map_on _ (fields_nodup valid checked)
  intro first inFirst second inSecond same
  exact logKey_injective valid (inSchema inFirst) (inSchema inSecond) same

/-- A file's value for a declared partition column is the one logged for the column it binds to. -/
theorem lookup_declared {logged : PartitionValues} (distinct : (logged.map Prod.fst).Nodup)
    {name : String} (member : name ∈ declared.partitionColumns) :
    ∃ field, Binds snapshot.schema declared name field ∧ field.name ∈ snapshot.partitionColumns ∧
      (hexBinaryPartitionValues declared.logicalSchema (OrderedMap.collect
        (takeLogged (loggedKeys snapshot.mode declared fields) (OrderedMap.collect logged)))).lookup
          name =
      (logged.lookup (logKey snapshot.mode field)).map (travels declared name) := by
  obtain ⟨names, related⟩ := checkedPartitionFields_ok valid checked
  obtain ⟨field, inFields, bound, pair⟩ := exists_bound_of_mem related member
  have keyNames : ((loggedKeys snapshot.mode declared fields).map Prod.fst).Nodup := by
    rw [names_loggedKeys valid checked]
    exact names_nodup valid checked
  have taken := lookup_takeLogged keyNames (keys_nodup valid checked) (OrderedMap.collect logged)
    (List.mem_map.mpr ⟨(name, field), pair, rfl⟩)
  refine ⟨field, bound, ?_, ?_⟩
  · rw [← names]
    exact List.mem_map_of_mem inFields
  · rw [lookup_hexBinaryPartitionValues,
      OrderedMap.lookup_collect (keyNames.sublist (names_takeLogged _ _)), taken,
      OrderedMap.lookup_collect distinct]
    rfl

end Checked

end Planning

end LakehouseEngine.DeltaTable
