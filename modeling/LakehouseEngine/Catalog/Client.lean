import LakehouseEngine.Adapter.SkippedTables
import LakehouseEngine.Data.Fallible
import LakehouseEngine.Text.WhiteSpace

/-!
# Catalog clients

Every catalog kind lists the tables of a namespace in two ways: all at once, or first the
identifiers and then the chosen tables.  A table is admitted or skipped by one rule of its kind,
so both ways give a table the same outcome as long as the catalog's answers do not change.
-/

namespace LakehouseEngine

open TableIdentity (CatalogTableIdent catalogIdentifierString)

/-! ## Tables -/

/-- What a catalog says of a column's type; `φ` is the type of Iceberg's fields. -/
inductive ColumnSourceType (φ : Type) where
  | iceberg (field : φ)
  | unity (typeJson : Option String)
  | glue (hiveType : String)
  | parquet (tag : String)

structure CatalogColumn (φ : Type) where
  name : String
  sourceType : ColumnSourceType φ
  declaration : Option String

/-- A column without a declaration of its own. -/
def CatalogColumn.new {φ : Type} (name : String) (sourceType : ColumnSourceType φ) :
    CatalogColumn φ :=
  ⟨name, sourceType, none⟩

inductive CatalogTableType where
  | table
  | view
  | other (raw : String)
  deriving DecidableEq

inductive TableFormat where
  | iceberg
  | delta
  | parquet
  deriving DecidableEq

structure CatalogTable (φ : Type) where
  ident : CatalogTableIdent
  tableType : CatalogTableType
  storageLocation : Option String
  format : TableFormat
  vendedCredentialKey : Option String
  partitionColumns : List String
  columns : List (CatalogColumn φ)
  metadataLocation : Option String
  properties : OrderedMap.StringMap String

def noProperties : OrderedMap.StringMap String :=
  ⟨OrderedMap.collect [], OrderedMap.sorted_collect []⟩

inductive TableAdmission (φ : Type) where
  | admitted (table : CatalogTable φ)
  | skipped (entry : SkippedTable)

variable {φ : Type}

namespace TableAdmission

def ident : TableAdmission φ → CatalogTableIdent
  | admitted table => table.ident
  | skipped entry => entry.ident

def table? : TableAdmission φ → Option (CatalogTable φ)
  | admitted table => some table
  | skipped _ => none

def skipped? : TableAdmission φ → Option SkippedTable
  | admitted _ => none
  | skipped entry => some entry

theorem ident_of_table? {admission : TableAdmission φ} {table : CatalogTable φ}
    (found : admission.table? = some table) : table.ident = admission.ident := by
  cases admission with
  | admitted other => cases found; rfl
  | skipped entry => cases found

theorem ident_of_skipped? {admission : TableAdmission φ} {entry : SkippedTable}
    (found : admission.skipped? = some entry) : entry.ident = admission.ident := by
  cases admission with
  | admitted table => cases found
  | skipped other => cases found; rfl

end TableAdmission

structure CatalogListing (φ : Type) where
  tables : List (CatalogTable φ)
  skipped : List SkippedTable

/-- `FromIterator<TableAdmission>`. -/
def CatalogListing.ofAdmissions (admissions : List (TableAdmission φ)) : CatalogListing φ where
  tables := admissions.filterMap TableAdmission.table?
  skipped := admissions.filterMap TableAdmission.skipped?

/-- The metadata of an Iceberg table, as far as a listing reads it. -/
structure TableMetadata (φ : Type) where
  fields : List (String × φ)
  location : String

def icebergCatalogTable (ident : CatalogTableIdent) (metadata : TableMetadata φ)
    (metadataLocation : Option String) : CatalogTable φ where
  ident
  tableType := .table
  storageLocation := some metadata.location
  format := .iceberg
  vendedCredentialKey := none
  partitionColumns := []
  columns := metadata.fields.map fun field => .new field.1 (.iceberg field.2)
  metadataLocation
  properties := noProperties

/-! ## Clients -/

/-- The trait of the clients.  A listing comes with the tables that were loaded for it. -/
structure CatalogClient (φ : Type) where
  listTables : List (List Char) → (CatalogTableIdent → Bool) →
    Except String (CatalogListing φ × List CatalogTableIdent)
  listTableIdents : List (List Char) → Except String (List CatalogTableIdent)
  loadListedTables : List CatalogTableIdent →
    Except String (CatalogListing φ × List CatalogTableIdent)

/-- Loads every given table. -/
def loadEach (permit : CatalogTableIdent → Except String (TableAdmission φ))
    (idents : List CatalogTableIdent) :
    Except String (CatalogListing φ × List CatalogTableIdent) := do
  let admissions ← idents.mapM permit
  return (.ofAdmissions admissions, idents)

/-- A client that has the trait's own `list_tables`. -/
def CatalogClient.ofIdents
    (listTableIdents : List (List Char) → Except String (List CatalogTableIdent))
    (loadListedTables : List CatalogTableIdent →
      Except String (CatalogListing φ × List CatalogTableIdent)) : CatalogClient φ where
  listTables configured exposes := do
    let idents ← listTableIdents configured
    loadListedTables (idents.filter exposes)
  listTableIdents
  loadListedTables

/-! ### Iceberg REST -/

structure CatalogRequestError where
  status : Option ℕ
  message : String

def CatalogRequestError.isNotFound (error : CatalogRequestError) : Bool := error.status == some 404

def CatalogRequestError.isBadRequest (error : CatalogRequestError) : Bool :=
  error.status == some 400

/-- The answers of an Iceberg REST catalog. -/
structure RestServer (φ : Type) where
  listed : List (List Char) → Except String (List CatalogTableIdent)
  metadata : NamespaceIdent → List Char → Except CatalogRequestError (TableMetadata φ)
  /-- How the library words an empty namespace. -/
  emptyNamespace : String

namespace RestServer

variable (server : RestServer φ)

def loadOnSession (ident : CatalogTableIdent) : Except CatalogRequestError (CatalogTable φ) :=
  match NamespaceIdent.fromVec ident.ns with
  | none =>
      .error ⟨none, "invalid namespace in '" ++
        String.ofList (catalogIdentifierString ident) ++ "': " ++
        server.emptyNamespace⟩
  | some levels => do
      let metadata ← server.metadata levels ident.name
      return icebergCatalogTable ident metadata none

def admitOnSession (ident : CatalogTableIdent) : Except String (TableAdmission φ) :=
  match server.loadOnSession ident with
  | .ok table => .ok (.admitted table)
  | .error error =>
      if error.isNotFound then .ok (.skipped ⟨ident, .notLoadableIcebergTable⟩)
      else if error.isBadRequest then .ok (.skipped ⟨ident, .loadRejected error.message⟩)
      else .error error.message

def client : CatalogClient φ := .ofIdents server.listed (loadEach server.admitOnSession)

end RestServer

/-! ### Directories of an object store -/

/-- A resolved directory: its address, its data files and the columns of their schema. -/
structure StoredDirectory (φ : Type) where
  location : String
  files : List String
  columns : List (CatalogColumn φ)

/-- The answers of an object store below its root. -/
structure DirectStore (φ : Type) where
  folders : Except String (List String)
  directory : List Char → Except String (StoredDirectory φ)

namespace DirectStore

variable (store : DirectStore φ)

def permit (ident : CatalogTableIdent) : Except String (TableAdmission φ) := do
  let directory ← store.directory ident.name
  if directory.files.isEmpty then return .skipped ⟨ident, .noDataFile⟩
  return .admitted
    { ident
      tableType := .table
      storageLocation := some directory.location
      format := .parquet
      vendedCredentialKey := none
      partitionColumns := []
      columns := directory.columns
      metadataLocation := none
      properties := noProperties }

/-- The first-level directories by name; the namespace is not read. -/
def listTableIdents (_ : List (List Char)) : Except String (List CatalogTableIdent) := do
  let names ← store.folders
  return (names.mergeSort (· ≤ ·)).map fun name => ⟨[], name.toList⟩

def client : CatalogClient φ := .ofIdents store.listTableIdents (loadEach store.permit)

end DirectStore

/-! ### Unity Catalog -/

structure ColumnInfo where
  name : String
  typeJson : Option String
  partitionIndex : Option ℕ

structure TableInfo where
  name : String
  tableType : String
  storageLocation : Option String
  dataSourceFormat : Option String
  tableId : Option String
  columns : List ColumnInfo
  properties : Option (OrderedMap.StringMap String)

def neutralTableType (raw : String) : CatalogTableType :=
  if raw ∈ ["MANAGED", "EXTERNAL", "MANAGED_SHALLOW_CLONE", "EXTERNAL_SHALLOW_CLONE"] then .table
  else if raw = "VIEW" then .view
  else .other raw

def formatOf (dataSourceFormat : Option String) : Option TableFormat := do
  let raw ← dataSourceFormat
  if raw = "DELTA" then some .delta
  else if raw = "ICEBERG" then some .iceberg
  else if raw = "PARQUET" then some .parquet
  else none

/-- The type is checked before the format, because a view has no format. -/
def unityAdmission (rawTableType : String) (dataSourceFormat : Option String) :
    Except SkipReason TableFormat :=
  match neutralTableType rawTableType with
  | .table =>
      match formatOf dataSourceFormat with
      | some .delta => .ok .delta
      | some .parquet => .ok .parquet
      | _ => .error (.notDeltaBaseTable ("data_source_format=" ++ dataSourceFormat.getD "absent"))
  | _ => .error (.notDeltaBaseTable ("table_type=" ++ rawTableType))

def neutralTable (ident : CatalogTableIdent) (info : TableInfo) (format : TableFormat) :
    CatalogTable φ where
  ident
  tableType := neutralTableType info.tableType
  storageLocation := info.storageLocation.filter fun location => !location.isEmpty
  format
  vendedCredentialKey := info.tableId.filter fun key => !(WhiteSpace.trim key.toList).isEmpty
  partitionColumns :=
    ((info.columns.filterMap fun column => column.partitionIndex.map fun index =>
      (index, column.name)).mergeSort fun first second => first.1 ≤ second.1).map Prod.snd
  columns := info.columns.map fun column => .new column.name (.unity column.typeJson)
  metadataLocation := none
  properties := info.properties.getD noProperties

def unityAdmit (ident : CatalogTableIdent) (info : TableInfo) : TableAdmission φ :=
  match unityAdmission info.tableType info.dataSourceFormat with
  | .error reason => .skipped ⟨ident, reason⟩
  | .ok format => .admitted (neutralTable ident info format)

def unityNamespace : List (List Char) → Except String (List Char × List Char)
  | [catalog, schema] => .ok (catalog, schema)
  | levels =>
      .error ("a Unity Catalog namespace must name a catalog and a schema (two segments), but " ++
        toString levels.length ++ " were given")

def fullName (ident : CatalogTableIdent) : List Char := ['.'].intercalate (ident.ns ++ [ident.name])

/-- The answers of a Unity catalog, all about one state of it: the shorter listing names the
tables of the longer one, and a table's own answer is what the listing says of it. -/
structure UnityServer where
  infos : List Char × List Char → Except String (List TableInfo)
  names : List Char × List Char → Except String (List String)
  info : List Char → Except String TableInfo
  oneState : ∀ schema listed, infos schema = .ok listed →
    names schema = .ok (listed.map TableInfo.name) ∧
      ∀ entry ∈ listed, info (fullName ⟨[schema.1, schema.2], entry.name.toList⟩) = .ok entry

namespace UnityServer

variable (server : UnityServer)

def listTables (configured : List (List Char)) (exposes : CatalogTableIdent → Bool) :
    Except String (CatalogListing φ × List CatalogTableIdent) := do
  let schema ← unityNamespace configured
  let infos ← server.infos schema
  let exposed :=
    (infos.map fun info => (CatalogTableIdent.mk configured info.name.toList, info)).filter
    fun entry => exposes entry.1
  return (.ofAdmissions (exposed.map fun entry => unityAdmit entry.1 entry.2), [])

def listTableIdents (configured : List (List Char)) : Except String (List CatalogTableIdent) := do
  let schema ← unityNamespace configured
  let names ← server.names schema
  return names.map fun name => ⟨configured, name.toList⟩

def permit (ident : CatalogTableIdent) : Except String (TableAdmission φ) := do
  let info ← server.info (fullName ident)
  return unityAdmit ident info

def client : CatalogClient φ where
  listTables := server.listTables
  listTableIdents := server.listTableIdents
  loadListedTables := loadEach server.permit

end UnityServer

/-! ### Glue -/

structure GlueColumn where
  name : String
  type : Option String

structure StorageDescriptor where
  inputFormat : Option String
  location : Option String
  columns : List GlueColumn

structure GlueTable where
  name : String
  tableType : Option String
  parameters : Option (OrderedMap.StringMap String)
  storageDescriptor : Option StorageDescriptor
  partitionKeys : List GlueColumn

inductive Route where
  | iceberg (metadataLocation : String)
  | parquet
  | skip (detail : String)

def Route.readsMetadata : Route → Bool
  | iceberg _ => true
  | parquet | skip _ => false

def parquetInputFormat : String := "org.apache.hadoop.hive.ql.io.parquet.MapredParquetInputFormat"

def icebergRoute (tableType : String) (metadataLocation : Option String) : Route :=
  match metadataLocation.filter fun location => !(WhiteSpace.trim location.toList).isEmpty with
  | some location => .iceberg location
  | none =>
      .skip ("table_type=" ++ tableType ++ " with an absent or empty metadata_location")

def hiveRoute (inputFormat projectionEnabled : Option String) : Route :=
  if inputFormat ≠ some parquetInputFormat then .skip ("InputFormat=" ++ inputFormat.getD "absent")
  else
    match projectionEnabled.filter fun enabled => eqIgnoreAsciiCase enabled "true" with
    | some enabled =>
        .skip ("projection.enabled=" ++ enabled ++ ": partition projection registers no " ++
          "partition in Glue, so reading the table would return zero rows")
    | none => .parquet

/-- A view and a present `table_type` decide before the storage descriptor. -/
def route (tableType : Option String) (parameter : String → Option String)
    (inputFormat : Option String) : Route :=
  match tableType.filter fun kind => eqIgnoreAsciiCase kind "VIRTUAL_VIEW" with
  | some view => .skip ("TableType=" ++ view)
  | none =>
      match parameter "table_type" with
      | some kind =>
          if eqIgnoreAsciiCase kind "ICEBERG" then icebergRoute kind (parameter "metadata_location")
          else .skip ("table_type=" ++ kind)
      | none => hiveRoute inputFormat (parameter "projection.enabled")

def routeOf (table : GlueTable) : Route :=
  route table.tableType (fun key => table.parameters.bind fun map => map.entries.lookup key)
    (table.storageDescriptor.bind StorageDescriptor.inputFormat)

def trimLocation (location : String) : String :=
  if location.toList.getLast? = some '/' then String.ofList location.toList.dropLast else location

/-- The format, the metadata location, the columns and the partition keys of a routed table. -/
def plannedLayout (ident : CatalogTableIdent) (table : GlueTable) :
    Route → Except String (TableFormat × Option String × List GlueColumn × List GlueColumn)
  | .iceberg metadataLocation => .ok (.iceberg, some metadataLocation, [], [])
  | .parquet =>
      .ok (.parquet, none, (table.storageDescriptor.map StorageDescriptor.columns).getD [],
        table.partitionKeys)
  | .skip detail =>
      .error ("Glue table '" ++ String.ofList (catalogIdentifierString ident) ++
        "' cannot be planned: " ++ detail)

def plannedTable (ident : CatalogTableIdent) (table : GlueTable) (taken : Route) :
    Except String (CatalogTable φ) := do
  let (format, metadataLocation, columns, partitionKeys) ← plannedLayout ident table taken
  return {
    ident
    tableType := .table
    storageLocation :=
      ((table.storageDescriptor.bind StorageDescriptor.location).filter fun location =>
        !location.isEmpty).map trimLocation
    format
    vendedCredentialKey := none
    partitionColumns := partitionKeys.map GlueColumn.name
    columns := (columns ++ partitionKeys).map fun column =>
      .new column.name (.glue (column.type.getD ""))
    metadataLocation
    properties := noProperties }

def glueDatabase : List (List Char) → Except String (List Char)
  | [database] => if database.isEmpty then .error (refusal [database]) else .ok database
  | levels => .error (refusal levels)
where
  refusal (levels : List (List Char)) : String :=
    "a Glue NAMESPACE names exactly one database, but '" ++
      String.ofList (['.'].intercalate levels) ++ "' does not"

/-- The answers of Glue and of the store of its metadata files, all about one state. -/
structure GlueServer (φ : Type) where
  tables : List Char → Except String (List GlueTable)
  names : List Char → Except String (List String)
  table : List Char → List Char → Except String GlueTable
  metadata : (location : String) → (tableName : List Char) → Except String (TableMetadata φ)
  oneState : ∀ database listed, tables database = .ok listed →
    names database = .ok (listed.map GlueTable.name) ∧
      ∀ entry ∈ listed, table database entry.name.toList = .ok entry

namespace GlueServer

variable (server : GlueServer φ)

def listedTable (ident : CatalogTableIdent) (table : GlueTable) (taken : Route) :
    Except String (CatalogTable φ) :=
  match taken with
  | .iceberg metadataLocation => do
      let metadata ← server.metadata metadataLocation (catalogIdentifierString ident)
      return icebergCatalogTable ident metadata (some metadataLocation)
  | taken => plannedTable ident table taken

def permit (ident : CatalogTableIdent) (table : GlueTable) : Except String (TableAdmission φ) :=
  match routeOf table with
  | .skip detail => .ok (.skipped ⟨ident, .notPlannableGlueTable detail⟩)
  | taken => (server.listedTable ident table taken).map .admitted

/-- The listing holds whole tables; only Iceberg's metadata files are read one by one. -/
def listTables (configured : List (List Char)) (exposes : CatalogTableIdent → Bool) :
    Except String (CatalogListing φ × List CatalogTableIdent) := do
  let database ← glueDatabase configured
  let tables ← server.tables database
  let exposed :=
    (tables.map fun table => (CatalogTableIdent.mk configured table.name.toList, table)).filter
    fun entry => exposes entry.1
  let admissions ← exposed.mapM fun entry => server.permit entry.1 entry.2
  return (.ofAdmissions admissions,
    (exposed.filter fun entry => (routeOf entry.2).readsMetadata).map Prod.fst)

def listTableIdents (configured : List (List Char)) : Except String (List CatalogTableIdent) := do
  let database ← glueDatabase configured
  let names ← server.names database
  return names.map fun name => ⟨configured, name.toList⟩

def load (ident : CatalogTableIdent) : Except String (TableAdmission φ) := do
  let database ← glueDatabase ident.ns
  let table ← server.table database ident.name
  server.permit ident table

def client : CatalogClient φ where
  listTables := server.listTables
  listTableIdents := server.listTableIdents
  loadListedTables := loadEach server.load

end GlueServer

/-! ### All kinds -/

/-- A state of a catalog, by the kind of the catalog. -/
inductive Catalog (φ : Type) where
  | icebergRest (server : RestServer φ)
  | unityCatalogNative (server : UnityServer)
  | directStorage (store : DirectStore φ)
  | glue (server : GlueServer φ)

/-- `client_of_kind`. -/
def Catalog.client : Catalog φ → CatalogClient φ
  | icebergRest server => server.client
  | unityCatalogNative server => server.client
  | directStorage store => store.client
  | glue server => server.client

/-! ## What the listings of one client have in common -/

/-- After a full listing has succeeded: the identifiers are listed, every table has one outcome,
and any choice among the exposed tables loads with those outcomes. -/
structure CatalogClient.Answers (client : CatalogClient φ) (configured : List (List Char))
    (exposes : CatalogTableIdent → Bool) (listing : CatalogListing φ)
    (idents : List CatalogTableIdent) (outcome : CatalogTableIdent → TableAdmission φ) : Prop where
  listed : client.listTableIdents configured = .ok idents
  own : ∀ ident ∈ idents.filter exposes, (outcome ident).ident = ident
  full : listing = .ofAdmissions ((idents.filter exposes).map outcome)
  loads : ∀ chosen ⊆ idents.filter exposes,
    client.loadListedTables chosen = .ok (.ofAdmissions (chosen.map outcome), chosen)

variable {configured : List (List Char)} {exposes : CatalogTableIdent → Bool}
  {listing : CatalogListing φ} {loaded : List CatalogTableIdent}

/-- The outcome of a table whose load succeeds. -/
def outcomeOf (permit : CatalogTableIdent → Except String (TableAdmission φ))
    (ident : CatalogTableIdent) : TableAdmission φ :=
  (permit ident).toOption.getD (.skipped ⟨ident, .noDataFile⟩)

variable {permit : CatalogTableIdent → Except String (TableAdmission φ)}

theorem outcomeOf_eq
    {ident : CatalogTableIdent} {admission : TableAdmission φ}
    (loads : permit ident = .ok admission) :
    outcomeOf permit ident = admission := by
  rw [outcomeOf, loads]
  rfl

theorem loadEach_eq_ok {idents : List CatalogTableIdent}
    (each : ∀ ident ∈ idents, permit ident = .ok (outcomeOf permit ident)) :
    loadEach permit idents = .ok (.ofAdmissions (idents.map (outcomeOf permit)), idents) := by
  rw [loadEach, mapM_eq_ok_map each]
  rfl

/-- A client answers once every exposed table loads with an outcome of its own. -/
theorem answers_of_each {client : CatalogClient φ} {idents : List CatalogTableIdent}
    (byIdent : client.loadListedTables = loadEach permit)
    (listed : client.listTableIdents configured = .ok idents)
    (each : ∀ ident ∈ idents.filter exposes, ∃ admission, permit ident = .ok admission ∧
      admission.ident = ident)
    (full : listing = .ofAdmissions ((idents.filter exposes).map (outcomeOf permit))) :
    client.Answers configured exposes listing idents (outcomeOf permit) where
  listed
  own ident member := by
    obtain ⟨admission, loads, own⟩ := each ident member
    rw [outcomeOf_eq loads, own]
  full
  loads chosen within := by
    rw [byIdent]
    apply loadEach_eq_ok
    intro ident member
    obtain ⟨admission, loads, -⟩ := each ident (within member)
    rw [outcomeOf_eq loads, loads]

/-- A client with the trait's own listing. -/
theorem answers_ofIdents
    {listTableIdents : List (List Char) → Except String (List CatalogTableIdent)}
    (own : ∀ ident admission, permit ident = .ok admission → admission.ident = ident)
    (succeeds : (CatalogClient.ofIdents listTableIdents (loadEach permit)).listTables
      configured exposes =
      .ok (listing, loaded)) :
    ∃ idents, (CatalogClient.ofIdents listTableIdents (loadEach permit)).Answers configured exposes
      listing idents (outcomeOf permit) := by
  obtain ⟨idents, listed, run⟩ := exists_of_bind_ok succeeds
  obtain ⟨admissions, admitted, made⟩ := exists_of_bind_ok run
  have each := exists_of_mapM_ok admitted
  refine ⟨idents, answers_of_each rfl listed ?_ ?_⟩
  · intro ident member
    obtain ⟨admission, loads⟩ := each ident member
    exact ⟨admission, loads, own ident admission loads⟩
  · have all := mapM_eq_ok_map fun ident member => (each ident member).elim fun admission loads =>
      (outcomeOf_eq loads).symm ▸ loads
    cases made
    rw [Except.ok.inj (admitted.symm.trans all)]

theorem RestServer.ident_of_admit {server : RestServer φ} (ident : CatalogTableIdent)
    (admission : TableAdmission φ) (admitted : server.admitOnSession ident = .ok admission) :
    admission.ident = ident := by
  unfold admitOnSession at admitted
  split at admitted
  · next table loads =>
      cases admitted
      unfold loadOnSession at loads
      split at loads
      · cases loads
      · obtain ⟨metadata, -, made⟩ := exists_of_bind_ok loads
        cases made
        rfl
  · split at admitted
    · cases admitted
      rfl
    · split at admitted
      · cases admitted
        rfl
      · cases admitted

theorem DirectStore.ident_of_admit {store : DirectStore φ} (ident : CatalogTableIdent)
    (admission : TableAdmission φ) (admitted : store.permit ident = .ok admission) :
    admission.ident = ident := by
  obtain ⟨directory, -, made⟩ := exists_of_bind_ok admitted
  split at made <;>
  · cases made
    rfl

theorem ident_unityAdmit (ident : CatalogTableIdent) (info : TableInfo) :
    (unityAdmit ident info : TableAdmission φ).ident = ident := by
  unfold unityAdmit
  split <;> rfl

theorem GlueServer.ident_of_admit {server : GlueServer φ} {ident : CatalogTableIdent}
    {table : GlueTable} {admission : TableAdmission φ}
    (admitted : server.permit ident table = .ok admission) : admission.ident = ident := by
  unfold permit at admitted
  split at admitted
  · cases admitted
    rfl
  · obtain ⟨planned, listed, made⟩ := exists_of_map_ok admitted
    cases made
    unfold listedTable at listed
    split at listed
    · obtain ⟨metadata, -, made⟩ := exists_of_bind_ok listed
      cases made
      rfl
    · obtain ⟨parts, -, made⟩ := exists_of_bind_ok listed
      cases made
      rfl

/-- Filtering entries by the identifier made from each is filtering the identifiers. -/
theorem map_fst_filter_keyed {ι : Type} (key : ι → CatalogTableIdent) (items : List ι) :
    ((items.map fun item => (key item, item)).filter fun entry => exposes entry.1).map Prod.fst =
      (items.map key).filter exposes := by
  rw [List.filter_map, List.map_map, List.filter_map]
  rfl

theorem mem_filter_keyed {ι : Type} {key : ι → CatalogTableIdent} {items : List ι}
    {entry : CatalogTableIdent × ι}
    (member : entry ∈ (items.map fun item => (key item, item)).filter fun entry =>
      exposes entry.1) :
    entry.2 ∈ items ∧ entry.1 = key entry.2 := by
  obtain ⟨item, inside, rfl⟩ := List.mem_map.mp (List.mem_filter.mp member).1
  exact ⟨inside, rfl⟩

theorem unityNamespace_eq_ok {schema : List Char × List Char}
    (two : unityNamespace configured = .ok schema) : configured = [schema.1, schema.2] := by
  unfold unityNamespace at two
  split at two
  · cases two
    rfl
  · cases two

theorem UnityServer.answers {server : UnityServer}
    (succeeds : server.client.listTables configured exposes = .ok (listing, loaded)) :
    ∃ idents, (UnityServer.client server : CatalogClient φ).Answers configured exposes
      listing idents
      (outcomeOf server.permit) := by
  obtain ⟨schema, named, run⟩ := exists_of_bind_ok succeeds
  obtain ⟨infos, answered, made⟩ := exists_of_bind_ok run
  obtain ⟨names, each⟩ := server.oneState schema infos answered
  have loads : ∀ info ∈ infos, (server.permit : _ → Except String (TableAdmission φ))
    ⟨configured, info.name.toList⟩ =
      .ok (unityAdmit ⟨configured, info.name.toList⟩ info) := by
    intro info member
    obtain rfl := unityNamespace_eq_ok named
    rw [permit, each info member]
    rfl
  refine ⟨infos.map fun info => ⟨configured, info.name.toList⟩, answers_of_each rfl ?_ ?_ ?_⟩
  · change server.listTableIdents configured = _
    rw [listTableIdents, named, ok_bind, names, ok_bind, List.map_map]
    rfl
  · intro ident member
    obtain ⟨info, inside, rfl⟩ := List.mem_map.mp (List.mem_filter.mp member).1
    exact ⟨_, loads info inside, ident_unityAdmit _ _⟩
  · cases made
    rw [← map_fst_filter_keyed, List.map_map]
    congr 1
    apply List.map_congr_left
    intro entry member
    obtain ⟨inside, same⟩ := mem_filter_keyed member
    rw [Function.comp_apply, same, outcomeOf_eq (loads entry.2 inside)]

theorem GlueServer.answers {server : GlueServer φ}
    (succeeds : server.client.listTables configured exposes = .ok (listing, loaded)) :
    ∃ idents, server.client.Answers configured exposes listing idents (outcomeOf server.load) := by
  obtain ⟨database, named, run⟩ := exists_of_bind_ok succeeds
  obtain ⟨tables, answered, run⟩ := exists_of_bind_ok run
  obtain ⟨admissions, admitted, made⟩ := exists_of_bind_ok run
  obtain ⟨names, each⟩ := server.oneState database tables answered
  have loads : ∀ table ∈ tables, server.load ⟨configured, table.name.toList⟩ =
      server.permit ⟨configured, table.name.toList⟩ table := by
    intro table member
    rw [load, named, ok_bind, each table member]
    rfl
  refine ⟨tables.map fun table => ⟨configured, table.name.toList⟩, answers_of_each rfl ?_ ?_ ?_⟩
  · change server.listTableIdents configured = _
    rw [listTableIdents, named, ok_bind, names, ok_bind, List.map_map]
    rfl
  · intro ident member
    rw [← map_fst_filter_keyed] at member
    obtain ⟨entry, kept, rfl⟩ := List.mem_map.mp member
    obtain ⟨admission, admits⟩ := exists_of_mapM_ok admitted entry kept
    obtain ⟨inside, same⟩ := mem_filter_keyed kept
    refine ⟨admission, ?_, ident_of_admit admits⟩
    rw [same, loads entry.2 inside, ← same, admits]
  · cases made
    rw [← map_fst_filter_keyed, List.map_map]
    congr 1
    refine Except.ok.inj (admitted.symm.trans (mapM_eq_ok_map fun entry kept => ?_))
    obtain ⟨admission, admits⟩ := exists_of_mapM_ok admitted entry kept
    obtain ⟨inside, same⟩ := mem_filter_keyed kept
    have loaded : server.load entry.1 = .ok admission := by
      rw [same, loads entry.2 inside, ← same, admits]
    rw [Function.comp_apply, outcomeOf_eq loaded, admits]

/-- Whatever the kind of the catalog, its listings agree. -/
theorem Catalog.answers (catalog : Catalog φ)
    (succeeds : catalog.client.listTables configured exposes = .ok (listing, loaded)) :
    ∃ idents outcome, catalog.client.Answers configured exposes listing idents outcome := by
  cases catalog with
  | icebergRest server =>
      obtain ⟨idents, answers⟩ := answers_ofIdents RestServer.ident_of_admit succeeds
      exact ⟨idents, _, answers⟩
  | unityCatalogNative server =>
      obtain ⟨idents, answers⟩ := UnityServer.answers succeeds
      exact ⟨idents, _, answers⟩
  | directStorage store =>
      obtain ⟨idents, answers⟩ := answers_ofIdents DirectStore.ident_of_admit succeeds
      exact ⟨idents, _, answers⟩
  | glue server =>
      obtain ⟨idents, answers⟩ := GlueServer.answers succeeds
      exact ⟨idents, _, answers⟩

section Instances

def ordersInfo : TableInfo :=
  ⟨"orders", "EXTERNAL", some "s3://lake/orders", some "DELTA", none, [], none⟩

/-- A Unity catalog of one schema with one table. -/
def ordersUnity : UnityServer where
  infos schema := if schema = ("c".toList, "s".toList) then .ok [ordersInfo] else .error "no schema"
  names schema := if schema = ("c".toList, "s".toList) then .ok ["orders"] else .error "no schema"
  info name := if name = "c.s.orders".toList then .ok ordersInfo else .error "no table"
  oneState schema listed run := by
    split at run
    · next same =>
        cases run
        subst same
        exact ⟨rfl, List.forall_mem_singleton.mpr rfl⟩
    · cases run

example : (ordersUnity.client : CatalogClient Unit).listTableIdents ["c".toList, "s".toList] =
    .ok [⟨["c".toList, "s".toList], "orders".toList⟩] := rfl

def ordersTable : GlueTable := ⟨"orders", some "EXTERNAL_TABLE", none, none, []⟩

/-- Glue with one database of one table, which has no metadata file. -/
def ordersGlue : GlueServer Unit where
  tables database := if database = "d".toList then .ok [ordersTable] else .error "no database"
  names database := if database = "d".toList then .ok ["orders"] else .error "no database"
  table database name :=
    if database = "d".toList ∧ name = "orders".toList then .ok ordersTable else .error "no table"
  metadata _ _ := .error "no metadata"
  oneState database listed run := by
    split at run
    · next same =>
        cases run
        subst same
        exact ⟨rfl, List.forall_mem_singleton.mpr rfl⟩
    · cases run

example : ordersGlue.client.listTableIdents ["d".toList] =
    .ok [⟨["d".toList], "orders".toList⟩] := rfl

end Instances

end LakehouseEngine
