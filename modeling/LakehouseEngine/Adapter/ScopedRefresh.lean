import LakehouseEngine.Adapter.TableFilter
import LakehouseEngine.Catalog.Client
import LakehouseEngine.Data.ListRelation

/-!
# Refreshing some tables

A refresh of requested tables lists the identifiers, loads the requested tables alone and takes
the other tables' skips from the notes of an earlier refresh.  The notes know a table by its
dotted identifier text only.
-/

namespace LakehouseEngine

open TableIdentity (CatalogTableIdent catalogIdentifierString flattenTableName rejectNameCollisions
  encodeIdentifierNote)

/-! ## The request -/

/-- `RequestedTables::from_request`: no names where the request refreshes everything. -/
def requestedTables (request : Json) : Except String (Option (List String)) :=
  if (request.get "type").bind Json.asStr ≠ some "refresh" then .ok none
  else
    match request.get "requestedTables" with
    | none => .ok none
    | some value =>
        match value.asArray.bind fun names => names.mapM Json.asStr with
        | some names => .ok (some names)
        | none =>
            .error ("refresh: requestedTables must be an array of table names, but is " ++
              String.ofList value.compact)

/-- The schema's notes in a request; `read` is the library's reader of JSON texts. -/
def parseAdapterNotes (read : String → Option Json) (request : Json) : AdapterNotes :=
  let entries := match ((((request.get "schemaMetadataInfo").bind (Json.get "adapterNotes")).bind
      Json.asStr).filter fun text => !text.isEmpty).bind read with
    | some (.object entries) => entries
    | _ => []
  ⟨OrderedMap.collect entries, OrderedMap.sorted_collect entries⟩

/-! ## Virtual tables -/

variable {φ τ : Type}

/-- What a column's declaration takes from the types and formats of the engine. -/
structure ColumnRules (φ : Type) where
  dataType : ColumnSourceType φ → Json
  icebergNote : φ → String
  catalogNotes : CatalogTable φ → List String

/-- The note of each column, where a source declares one. -/
def declareColumns (rules : ColumnRules φ) (table : CatalogTable φ) : List (Option String) :=
  table.columns.zipIdx.map fun entry =>
    match entry.1.declaration, entry.1.sourceType with
    | some note, _ => some note
    | none, .iceberg field => some (rules.icebergNote field)
    | none, .unity _ | none, .glue _ => (rules.catalogNotes table)[entry.2]?
    | none, .parquet _ => none

def maxColumnNoteChars : ℕ := 2000000

def checkedNote (table column note : String) : Except String String :=
  if maxColumnNoteChars < note.length then
    .error ("the declaration note of column '" ++ column ++ "' in table '" ++ table ++ "' is " ++
      toString note.length ++ " characters long, over the " ++ toString maxColumnNoteChars ++
      " characters Exasol persists for one column")
  else .ok note

structure ListedColumn where
  name : String
  dataType : Json
  adapterNotes : Option String

structure ListedTable (τ : Type) where
  name : String
  adapterNotes : τ
  columns : List ListedColumn

section Refresh

variable [Unicode] (text : JsonText τ) (rules : ColumnRules φ) (read : String → Option Json)
  (configured : List (List Char)) (filter : TableFilter)

def listedColumn (table : String) (column : CatalogColumn φ) (note : Option String) :
    Except String ListedColumn := do
  let name := upper column.name
  let notes ← match note with
    | some note => (checkedNote table name note).map some
    | none => .ok none
  return ⟨name, rules.dataType column.sourceType, notes⟩

def listedTable (table : CatalogTable φ) : Except String (ListedTable τ) := do
  let name := flattenTableName configured table.ident
  let columns ← (table.columns.zip (declareColumns rules table)).mapM fun entry =>
    listedColumn rules name entry.1 entry.2
  return ⟨name, encodeIdentifierNote text table.ident, columns⟩

def buildListingVirtualTables (listing : CatalogListing φ) :
    Except String (List (ListedTable τ)) := do
  rejectNameCollisions configured (listing.tables.map CatalogTable.ident)
  listing.tables.mapM (listedTable text rules configured)

/-! ## The refresh -/

/-- Whether the filter exposes the virtual table of a catalog table. -/
def TableFilter.exposesIdent (ident : CatalogTableIdent) : Bool :=
  filter.exposes (flattenTableName configured ident)

/-- A partial refresh, by its requested names, over one listing of identifiers. -/
structure ScopedRefresh where
  requested : List String
  configured : List (List Char)
  listed : List CatalogTableIdent

namespace ScopedRefresh

variable (scope : ScopedRefresh)

def isRequested (ident : CatalogTableIdent) : Bool :=
  scope.requested.contains (flattenTableName scope.configured ident)

def selection : List CatalogTableIdent := scope.listed.filter scope.isRequested

/-- A requested table has the entry its load gave it, any other its persisted one. -/
def mergeSkippedTables (loaded : List SkippedTable) (persisted : SkippedTables) :
    SkippedTables where
  entries := scope.listed.filterMap fun ident =>
    if scope.isRequested ident then
      (loaded.find? fun skipped => skipped.ident = ident).map SkipEntry.ofSkipped
    else persisted.entryLookup ident
  omitted := persisted.omitted

end ScopedRefresh

/-- The listing, the list of skipped tables and the tables that were loaded. -/
def listSource (client : CatalogClient φ) (request : Json) :
    Except String (CatalogListing φ × SkippedTables × List CatalogTableIdent) := do
  match ← requestedTables request with
  | none =>
      let (listing, loaded) ← client.listTables configured (filter.exposesIdent configured)
      return (listing, .listed listing.skipped, loaded)
  | some requested =>
      let idents ← client.listTableIdents configured
      let scope : ScopedRefresh :=
        ⟨requested, configured, idents.filter (filter.exposesIdent configured)⟩
      let (listing, loaded) ← client.loadListedTables scope.selection
      let persisted := SkippedTables.persisted (parseAdapterNotes read request)
      return (listing, scope.mergeSkippedTables listing.skipped persisted, loaded)

structure Refreshed (φ τ : Type) where
  listing : CatalogListing φ
  skippedTables : SkippedTables
  tables : List (ListedTable τ)
  loaded : List CatalogTableIdent

/-- The tables and the skips that `handle_create_virtual_schema` answers with. -/
def refreshTables (catalog : Catalog φ) (request : Json) : Except String (Refreshed φ τ) := do
  let (listing, skippedTables, loaded) ← listSource read configured filter catalog.client request
  let tables ← buildListingVirtualTables text rules configured listing
  return ⟨listing, skippedTables, tables, loaded⟩

/-! ## Choosing among the tables -/

variable {text rules read configured filter} {catalog : Catalog φ} {listing : CatalogListing φ}
  {request : Json} {refreshed : Refreshed φ τ}

section Outcomes

variable {outcome : CatalogTableIdent → TableAdmission φ} {idents : List CatalogTableIdent}

omit [Unicode] in
theorem tables_filter (own : ∀ ident ∈ idents, (outcome ident).ident = ident)
    (chosen : CatalogTableIdent → Bool) :
    (CatalogListing.ofAdmissions ((idents.filter chosen).map outcome)).tables =
      (CatalogListing.ofAdmissions (idents.map outcome)).tables.filter fun table =>
        chosen table.ident := by
  simp only [CatalogListing.ofAdmissions, List.filterMap_map]
  induction idents with
  | nil => rfl
  | cons ident idents ih =>
      have rest := ih fun other member => own other (List.mem_cons_of_mem ident member)
      rw [List.filter_cons, List.filterMap_cons]
      cases found : (TableAdmission.table? ∘ outcome) ident with
      | none =>
          split
          · rw [List.filterMap_cons, found]
            exact rest
          · exact rest
      | some table =>
          have named : table.ident = ident :=
            (TableAdmission.ident_of_table? found).trans (own ident List.mem_cons_self)
          rw [List.filter_cons, named]
          split
          · rw [List.filterMap_cons, found]
            exact congrArg (List.cons table) rest
          · exact rest

omit [Unicode] in
/-- The skip of a loaded table is found by its identifier. -/
theorem find_skipped (own : ∀ ident ∈ idents, (outcome ident).ident = ident)
    {ident : CatalogTableIdent} (member : ident ∈ idents) :
    ((CatalogListing.ofAdmissions (idents.map outcome)).skipped.find? fun skipped =>
      skipped.ident = ident) = (outcome ident).skipped? := by
  simp only [CatalogListing.ofAdmissions, List.filterMap_map]
  induction idents with
  | nil => cases member
  | cons other idents ih =>
      have rest : ∀ ident ∈ idents, (outcome ident).ident = ident :=
        fun ident member => own ident (List.mem_cons_of_mem other member)
      rw [List.filterMap_cons]
      by_cases same : other = ident
      · subst same
        cases found : (TableAdmission.skipped? ∘ outcome) other with
        | none =>
            -- A table that was not skipped has no entry further on either.
            rw [show (outcome other).skipped? = none from found, List.find?_eq_none]
            intro entry inside
            obtain ⟨further, inRest, skipped⟩ := List.mem_filterMap.mp inside
            have named : entry.ident = further :=
              (TableAdmission.ident_of_skipped? skipped).trans (rest further inRest)
            intro equal
            rw [← named, of_decide_eq_true equal, found] at skipped
            cases skipped
        | some entry =>
            have named : entry.ident = other :=
              (TableAdmission.ident_of_skipped? found).trans (own other List.mem_cons_self)
            rw [show (outcome other).skipped? = some entry from found]
            exact List.find?_cons_of_pos (decide_eq_true named)
      · have inRest := (List.mem_cons.mp member).resolve_left fun equal => same equal.symm
        cases found : (TableAdmission.skipped? ∘ outcome) other with
        | none => exact ih rest inRest
        | some entry =>
            have named : entry.ident = other :=
              (TableAdmission.ident_of_skipped? found).trans (own other List.mem_cons_self)
            dsimp only
            rw [List.find?_cons_of_neg (by simpa [named] using same)]
            exact ih rest inRest

omit [Unicode] in
theorem mem_skipped_iff (own : ∀ ident ∈ idents, (outcome ident).ident = ident)
    {entry : SkippedTable} :
    entry ∈ (CatalogListing.ofAdmissions (idents.map outcome)).skipped ↔
      entry.ident ∈ idents ∧ (outcome entry.ident).skipped? = some entry := by
  simp only [CatalogListing.ofAdmissions, List.filterMap_map, List.mem_filterMap,
    Function.comp_apply]
  constructor
  · rintro ⟨ident, member, skipped⟩
    have named : entry.ident = ident :=
      (TableAdmission.ident_of_skipped? skipped).trans (own ident member)
    rw [named]
    exact ⟨member, skipped⟩
  · rintro ⟨member, skipped⟩
    exact ⟨entry.ident, member, skipped⟩

end Outcomes

/-- Choosing tables by their virtual names chooses their virtual tables. -/
theorem buildListingVirtualTables_filter {tables : List (ListedTable τ)} {part : CatalogListing φ}
    (built : buildListingVirtualTables text rules configured listing = .ok tables)
    {names : List String}
    (chosen : part.tables = listing.tables.filter fun table =>
      names.contains (flattenTableName configured table.ident)) :
    buildListingVirtualTables text rules configured part =
      .ok (tables.filter fun table => names.contains table.name) := by
  obtain ⟨⟨⟩, accepted, converted⟩ := exists_of_bind_ok built
  have named : ∀ (table : CatalogTable φ) (made : ListedTable τ),
      listedTable text rules configured table = .ok made →
      names.contains made.name = names.contains (flattenTableName configured table.ident) := by
    intro table made converted
    obtain ⟨columns, -, rfl⟩ := exists_of_map_ok converted
    rfl
  have once : ((part.tables.map CatalogTable.ident).map (flattenTableName configured)).Nodup := by
    rw [chosen]
    exact (TableIdentity.names_nodup_of_accepted accepted).sublist
      ((List.filter_sublist.map _).map _)
  rw [buildListingVirtualTables, TableIdentity.accepted_of_names_nodup once, ok_bind, chosen]
  exact mapM_filter_eq_ok converted named

/-! ## The two refreshes -/

/-- A full refresh is a full listing. -/
theorem refreshTables_full (full : requestedTables request = .ok none)
    (succeeds : refreshTables text rules read configured filter catalog request = .ok refreshed) :
    catalog.client.listTables configured (filter.exposesIdent configured) =
        .ok (refreshed.listing, refreshed.loaded) ∧
      refreshed.skippedTables = .listed refreshed.listing.skipped ∧
      buildListingVirtualTables text rules configured refreshed.listing = .ok refreshed.tables := by
  obtain ⟨⟨listing, skippedTables, loaded⟩, sourced, run⟩ := exists_of_bind_ok succeeds
  obtain ⟨tables, built, made⟩ := exists_of_bind_ok run
  rw [listSource, full, ok_bind] at sourced
  obtain ⟨⟨listed, loads⟩, answered, same⟩ := exists_of_bind_ok sourced
  cases same
  cases made
  exact ⟨answered, rfl, built⟩

/-- What a full refresh has settled about a catalog. -/
theorem answers_of_full (full : requestedTables request = .ok none)
    (succeeds : refreshTables text rules read configured filter catalog request = .ok refreshed) :
    ∃ idents outcome, catalog.client.Answers configured (filter.exposesIdent configured)
      refreshed.listing idents outcome :=
  catalog.answers (refreshTables_full full succeeds).1

/-- A partial refresh loads its selection, whatever the other tables are like. -/
theorem listSource_scoped {names : List String} (named : requestedTables request = .ok (some names))
    {idents : List CatalogTableIdent} {outcome : CatalogTableIdent → TableAdmission φ}
    (answers : catalog.client.Answers configured
      (filter.exposesIdent configured) listing idents outcome)
    {scope : ScopedRefresh}
    (same : scope = ⟨names, configured, idents.filter (filter.exposesIdent configured)⟩) :
    listSource read configured filter catalog.client request =
      .ok (.ofAdmissions (scope.selection.map outcome),
        scope.mergeSkippedTables (CatalogListing.ofAdmissions (scope.selection.map outcome)).skipped
          (.persisted (parseAdapterNotes read request)), scope.selection) := by
  subst same
  rw [listSource, named, ok_bind]
  dsimp only
  rw [answers.listed, ok_bind, answers.loads (ScopedRefresh.selection _) List.filter_sublist.subset]
  rfl

/-! ## The merged list -/

/-- A table the catalog lists and the filter exposes. -/
def Catalog.Lists (catalog : Catalog φ) (configured : List (List Char)) (filter : TableFilter)
    (ident : CatalogTableIdent) : Prop :=
  ∃ idents, catalog.client.listTableIdents configured = .ok idents ∧
    ident ∈ idents.filter (filter.exposesIdent configured)

/-- The last table that was skipped under the dotted text of `ident` does not have its reason. -/
def Overridden (skipped : List SkippedTable) (ident : CatalogTableIdent) : Prop :=
  ∃ other, (skipped.reverse.find? fun entry =>
      catalogIdentifierString entry.ident = catalogIdentifierString ident) = some other ∧
    ∀ own ∈ skipped, own.ident = ident → (skipKindAndReason own).2 ≠ (skipKindAndReason other).2

omit [Unicode] in
/-- The notes give the last table that was skipped under the text. -/
theorem entryLookup_listed (skipped : List SkippedTable) (ident : CatalogTableIdent) :
    (SkippedTables.listed skipped).entryLookup ident =
      (skipped.reverse.find? fun entry =>
        catalogIdentifierString entry.ident = catalogIdentifierString ident).map
          SkipEntry.ofSkipped := by
  rw [SkippedTables.entryLookup, OrderedMap.lookup_collect_reverse, SkippedTables.listed,
    List.map_map,
    ← List.map_reverse]
  induction skipped.reverse with
  | nil => rfl
  | cons entry rest ih =>
      rw [List.map_cons, List.find?_cons]
      change List.lookup _ ((String.ofList (catalogIdentifierString entry.ident),
        SkipEntry.ofSkipped entry) :: _) = _
      rw [OrderedMap.lookup_cons]
      by_cases same : catalogIdentifierString entry.ident = catalogIdentifierString ident
      · rw [if_pos (beq_iff_eq.mpr (congrArg String.ofList same.symm)), decide_eq_true same]
        rfl
      · have different : ¬ (String.ofList (catalogIdentifierString ident) ==
            String.ofList (catalogIdentifierString entry.ident)) = true := by
          rw [beq_iff_eq, String.ofList_inj]
          exact fun equal => same equal.symm
        rw [if_neg different, decide_eq_false same]
        exact ih

omit [Unicode] in
/-- The recorded entry of a table is its own unless another table overrides it. -/
theorem entryLookup_eq_iff {skipped : List SkippedTable} {ident : CatalogTableIdent}
    {own : Option SkippedTable}
    (unique : ∀ entry, entry ∈ skipped ∧ entry.ident = ident ↔ own = some entry) :
    (SkippedTables.listed skipped).entryLookup ident = own.map SkipEntry.ofSkipped ↔
      ¬ Overridden skipped ident := by
  rw [entryLookup_listed]
  cases found : skipped.reverse.find? fun entry =>
      catalogIdentifierString entry.ident = catalogIdentifierString ident with
  | none =>
      have absent : own = none := by
        rw [Option.eq_none_iff_forall_ne_some]
        intro entry present
        obtain ⟨member, same⟩ := (unique entry).mpr present
        have differs := List.find?_eq_none.mp found entry (List.mem_reverse.mpr member)
        exact differs (decide_eq_true (congrArg catalogIdentifierString same))
      rw [absent]
      refine ⟨fun _ => ?_, fun _ => rfl⟩
      rintro ⟨other, last, -⟩
      rw [found] at last
      cases last
  | some other =>
      have taken := List.find?_some found
      have text : catalogIdentifierString other.ident = catalogIdentifierString ident :=
        of_decide_eq_true taken
      cases own with
      | none =>
          constructor
          · intro same
            cases same
          · intro clear
            refine absurd ⟨other, found, fun entry member same => ?_⟩ clear
            cases (unique entry).mp ⟨member, same⟩
      | some entry =>
          obtain ⟨member, same⟩ := (unique entry).mpr rfl
          constructor
          · rintro equal ⟨last, lastFound, differs⟩
            obtain rfl := Option.some.inj (found.symm.trans lastFound)
            exact differs entry member same
              (congrArg SkipEntry.reason (Option.some.inj equal)).symm
          · intro clear
            by_contra different
            refine clear ⟨other, found, fun third inside named reasons => different ?_⟩
            obtain rfl := Option.some.inj ((unique third).mp ⟨inside, named⟩)
            rw [Option.map_some, Option.map_some, SkipEntry.ofSkipped,
              SkipEntry.ofSkipped, text, same,
              reasons]

omit [Unicode] in
/-- A table has at most one skip in a full listing. -/
theorem CatalogClient.Answers.skip_iff {client : CatalogClient φ}
    {exposes : CatalogTableIdent → Bool}
    {idents : List CatalogTableIdent} {outcome : CatalogTableIdent → TableAdmission φ}
    (answers : client.Answers configured exposes listing idents outcome) {ident : CatalogTableIdent}
    (member : ident ∈ idents.filter exposes) (entry : SkippedTable) :
    entry ∈ listing.skipped ∧ entry.ident = ident ↔ (outcome ident).skipped? = some entry := by
  rw [answers.full, mem_skipped_iff answers.own]
  constructor
  · rintro ⟨⟨-, skipped⟩, rfl⟩
    exact skipped
  · intro skipped
    have named : entry.ident = ident :=
      (TableAdmission.ident_of_skipped? skipped).trans (answers.own ident member)
    rw [named]
    exact ⟨⟨member, skipped⟩, rfl⟩

/-- With the skips of an earlier refresh in the notes, the merged list is the full one exactly when
no table that was not requested is overridden. -/
theorem mergeSkippedTables_eq_iff {client : CatalogClient φ} {exposes : CatalogTableIdent → Bool}
    {idents : List CatalogTableIdent} {outcome : CatalogTableIdent → TableAdmission φ}
    (answers : client.Answers configured exposes listing idents outcome)
    {names : List String} {scope : ScopedRefresh}
    (same : scope = ⟨names, configured, idents.filter exposes⟩) {earlier : List SkippedTable}
    (unchanged : ∀ ident ∈ idents.filter exposes, flattenTableName configured ident ∉ names →
      ∀ reason, ⟨ident, reason⟩ ∈ earlier ↔ ⟨ident, reason⟩ ∈ listing.skipped) :
    scope.mergeSkippedTables (CatalogListing.ofAdmissions (scope.selection.map outcome)).skipped
        (.listed earlier) = .listed listing.skipped ↔
      ∀ ident ∈ idents.filter exposes, flattenTableName configured ident ∉ names →
        ¬ Overridden earlier ident := by
  have requested : ∀ ident, scope.isRequested ident = true ↔
    flattenTableName configured ident ∈ names := by
    intro ident
    rw [same, ScopedRefresh.isRequested, List.contains_iff_mem]
  have listed : scope.listed = idents.filter exposes := by rw [same]
  have full : (SkippedTables.listed listing.skipped).entries =
      scope.listed.filterMap fun ident => (outcome ident).skipped?.map SkipEntry.ofSkipped := by
    rw [answers.full, listed]
    change List.map SkipEntry.ofSkipped (List.filterMap TableAdmission.skipped?
      (List.map outcome _)) = _
    rw [List.filterMap_map, List.map_filterMap]
    rfl
  have loaded : ∀ ident ∈ scope.listed, scope.isRequested ident = true →
      ((CatalogListing.ofAdmissions (scope.selection.map outcome)).skipped.find? fun skipped =>
        skipped.ident = ident) = (outcome ident).skipped? := by
    intro ident member isRequested
    refine find_skipped (fun other inside => answers.own other ?_)
      (List.mem_filter.mpr ⟨member, isRequested⟩)
    exact listed ▸ (List.mem_filter.mp inside).1
  -- What the earlier refresh says of a table that was not requested is what the present one says.
  have kept : ∀ ident ∈ scope.listed, flattenTableName configured ident ∉ names → ∀ entry,
      entry ∈ earlier ∧ entry.ident = ident ↔ (outcome ident).skipped? = some entry := by
    intro ident member absent entry
    rw [listed] at member
    rw [← answers.skip_iff member entry]
    refine and_congr_left fun named => ?_
    subst named
    exact unchanged entry.ident member absent entry.reason
  have byEntries : ∀ left right : SkippedTables, left.omitted = right.omitted →
      (left = right ↔ left.entries = right.entries) := by
    rintro ⟨left, _⟩ ⟨right, _⟩ rfl
    rw [SkippedTables.mk.injEq, and_iff_left rfl]
  rw [byEntries (scope.mergeSkippedTables _ (.listed earlier)) (.listed listing.skipped) rfl, full,
    ScopedRefresh.mergeSkippedTables, filterMap_eq_iff_of_grows, listed]
  · refine forall₂_congr fun ident member => ?_
    by_cases asked : flattenTableName configured ident ∈ names
    · have isRequested := (requested ident).mpr asked
      rw [if_pos isRequested, loaded ident (listed ▸ member) isRequested]
      exact ⟨fun _ absent => absurd asked absent, fun _ => rfl⟩
    · rw [if_neg fun isRequested => asked ((requested ident).mp isRequested),
        entryLookup_eq_iff (kept ident (listed ▸ member) asked)]
      exact ⟨fun clear _ => clear, fun clear => clear asked⟩
  · intro ident member skipped
    by_cases asked : flattenTableName configured ident ∈ names
    · have isRequested := (requested ident).mpr asked
      rw [if_pos isRequested, loaded ident member isRequested]
      exact skipped
    · rw [if_neg fun isRequested => asked ((requested ident).mp isRequested), entryLookup_listed]
      rw [Option.isSome_map] at skipped ⊢
      obtain ⟨entry, found⟩ := Option.isSome_iff_exists.mp skipped
      obtain ⟨inside, named⟩ := (kept ident member asked entry).mpr found
      rw [List.find?_isSome]
      exact ⟨entry, List.mem_reverse.mpr inside,
        decide_eq_true (congrArg catalogIdentifierString named)⟩

/-! ## A partial refresh and a full one -/

/-- Where a full refresh succeeds, a partial one gives its tables of the requested names and loads
no other table; with the skips of an earlier full refresh in the notes, and the same outcome for
every table that was not requested, its list of skipped tables is the full one exactly when no such
table is overridden. -/
theorem requested_refresh_agrees_iff (catalog : Catalog φ) (fullRequest request : Json)
    (names : List String) (refreshed : Refreshed φ τ)
    (everything : requestedTables fullRequest = .ok none)
    (named : requestedTables request = .ok (some names))
    (succeeds : refreshTables text rules read configured filter catalog fullRequest =
      .ok refreshed) :
    ∃ part : Refreshed φ τ,
      refreshTables text rules read configured filter catalog request = .ok part ∧
      part.tables = refreshed.tables.filter (fun table => names.contains table.name) ∧
      (∀ ident ∈ part.loaded, flattenTableName configured ident ∈ names) ∧
      ∀ (before : Catalog φ) (beforeConfigured : List (List Char)) (beforeFilter : TableFilter)
        (beforeRequest : Json) (earlier : Refreshed φ τ) (notes : AdapterNotes),
        requestedTables beforeRequest = .ok none →
        refreshTables text rules read beforeConfigured beforeFilter before beforeRequest =
          .ok earlier →
        parseAdapterNotes read request = insertSkippedTables notes earlier.skippedTables →
        keptCount notes earlier.skippedTables = earlier.skippedTables.entries.length →
        (∀ ident, catalog.Lists configured filter ident →
          flattenTableName configured ident ∉ names →
          ∀ reason, ⟨ident, reason⟩ ∈ earlier.listing.skipped ↔
            ⟨ident, reason⟩ ∈ refreshed.listing.skipped) →
        (part.skippedTables = refreshed.skippedTables ↔
          ∀ ident, catalog.Lists configured filter ident →
            flattenTableName configured ident ∉ names →
            ¬ Overridden earlier.listing.skipped ident) := by
  obtain ⟨idents, outcome, answers⟩ := answers_of_full everything succeeds
  obtain ⟨-, skippedNow, built⟩ := refreshTables_full everything succeeds
  obtain ⟨scope, same⟩ : ∃ scope : ScopedRefresh,
      scope = ⟨names, configured, idents.filter (filter.exposesIdent configured)⟩ := ⟨_, rfl⟩
  have sourced := @listSource_scoped φ _ read configured filter catalog _ request names named
    idents outcome
    answers scope same
  have chosen : (CatalogListing.ofAdmissions (scope.selection.map outcome)).tables =
      refreshed.listing.tables.filter fun table =>
        names.contains (flattenTableName configured table.ident) := by
    rw [answers.full, same]
    exact tables_filter answers.own _
  have ran : refreshTables text rules read configured filter catalog request =
      .ok ⟨.ofAdmissions (scope.selection.map outcome),
        scope.mergeSkippedTables (CatalogListing.ofAdmissions (scope.selection.map outcome)).skipped
          (.persisted (parseAdapterNotes read request)),
        refreshed.tables.filter fun table => names.contains table.name, scope.selection⟩ := by
    rw [refreshTables, sourced, ok_bind]
    dsimp only
    rw [buildListingVirtualTables_filter built chosen]
    rfl
  refine ⟨_, ran, rfl, ?_, ?_⟩
  · intro ident member
    rw [same] at member
    exact List.contains_iff_mem.mp (List.mem_filter.mp member).2
  · intro before beforeConfigured beforeFilter beforeRequest earlier notes all
      refreshedBefore recorded
      uncapped unchanged
    have lists : ∀ ident, catalog.Lists configured filter ident ↔
        ident ∈ idents.filter (filter.exposesIdent configured) := by
      intro ident
      constructor
      · rintro ⟨others, listed, member⟩
        rw [answers.listed] at listed
        exact Except.ok.inj listed ▸ member
      · exact fun member => ⟨idents, answers.listed, member⟩
    simp only [lists] at unchanged ⊢
    have skippedBefore := (refreshTables_full all refreshedBefore).2.1
    have persisted : SkippedTables.persisted (parseAdapterNotes read request) =
        .listed earlier.listing.skipped := by
      rw [recorded, persisted_insertSkippedTables uncapped (by rw [skippedBefore]; rfl),
        skippedBefore]
    rw [persisted, skippedNow]
    exact mergeSkippedTables_eq_iff answers same unchanged

end Refresh

section Instances

local instance refreshUnicode : Unicode := Unicode.ascii

/-- A catalog that lists the given tables and serves one of them. -/
def servesOne (listed : List CatalogTableIdent) (served : CatalogTableIdent) : Catalog Unit :=
  .icebergRest
    { listed := fun _ => .ok listed
      metadata := fun levels name =>
        if levels.levels = served.ns ∧ name = served.name then .ok ⟨[("X", ())], "s3://w/t"⟩
        else .error ⟨some 404, "no such table"⟩
      emptyNamespace := "" }

def plainRules : ColumnRules Unit := ⟨fun _ => .null, fun _ => "", fun _ => []⟩

def everyTable : TableFilter := .new none none

/-- The notes of a schema after one full refresh, wherever they are read from. -/
def notesOf (entries : List SkipEntry) : String → Option Json :=
  fun _ => some (.object (insertSkippedTables noNotes ⟨entries, 0⟩).entries)

def refreshAll : Json := .object [("type", .string "refresh")]

def refreshOf (table : String) : Json :=
  .object
    [("requestedTables", .array [.string table]),
      ("schemaMetadataInfo", .object [("adapterNotes", .string "notes")]),
      ("type", .string "refresh")]

/-- A request for one table that the catalog does not list. -/
def refreshC : Json := refreshOf "C"

/-- The table `w.a` / `b` is served, the table `w` / `a.b` is not: both have the text `w.a.b`. -/
def dottedPair : Catalog Unit :=
  servesOne [⟨["w".toList, "a".toList], "b".toList⟩, ⟨["w".toList], "a.b".toList⟩]
    ⟨["w".toList, "a".toList], "b".toList⟩

def dottedEntry : SkipEntry :=
  ⟨"w.a.b", "catalog reported it is not a loadable Iceberg table"⟩

theorem dotted_table_is_recorded_twice :
    ∃ refreshed part : Refreshed Unit Json,
      requestedTables refreshAll = .ok none ∧ requestedTables refreshC = .ok (some ["C"]) ∧
      refreshTables .ideal plainRules (notesOf [dottedEntry])
        ["w".toList] everyTable dottedPair refreshAll =
        .ok refreshed ∧
      refreshTables .ideal plainRules (notesOf [dottedEntry])
        ["w".toList] everyTable dottedPair refreshC =
        .ok part ∧
      parseAdapterNotes (notesOf [dottedEntry]) refreshC =
        insertSkippedTables noNotes refreshed.skippedTables ∧
      keptCount noNotes refreshed.skippedTables = refreshed.skippedTables.entries.length ∧
      refreshed.skippedTables.entries = [dottedEntry] ∧
      part.skippedTables.entries = [dottedEntry, dottedEntry] := by
  exact ⟨_, _, rfl, rfl, rfl, rfl, rfl, rfl, rfl, rfl⟩

/-- One table is served and one is not. -/
def plainPair : Catalog Unit :=
  servesOne [⟨["w".toList], "t".toList⟩, ⟨["w".toList], "s".toList⟩] ⟨["w".toList], "t".toList⟩

def plainEntry : SkipEntry :=
  ⟨"w.s", "catalog reported it is not a loadable Iceberg table"⟩

/-- Between two refreshes nothing has changed, and the served table is requested. -/
theorem requested_refresh_agrees_iff_plain :
    ∃ refreshed part : Refreshed Unit Json,
      refreshTables .ideal plainRules (notesOf [plainEntry]) ["w".toList] everyTable plainPair
        refreshAll = .ok refreshed ∧
      refreshTables .ideal plainRules (notesOf [plainEntry]) ["w".toList] everyTable plainPair
        (refreshOf "T") = .ok part ∧
      part.tables.map (·.name) = ["T"] ∧ part.skippedTables = refreshed.skippedTables := by
  obtain ⟨refreshed, succeeds, served, skips⟩ : ∃ refreshed : Refreshed Unit Json,
      refreshTables .ideal plainRules (notesOf [plainEntry]) ["w".toList] everyTable plainPair
        refreshAll = .ok refreshed ∧
      (refreshed.tables.filter fun table => ["T"].contains table.name).map (·.name) = ["T"] ∧
      refreshed.listing.skipped = [⟨⟨["w".toList], "s".toList⟩, .notLoadableIcebergTable⟩] ∧
      refreshed.skippedTables = ⟨[plainEntry], 0⟩ := ⟨_, rfl, rfl, rfl, rfl⟩
  obtain ⟨part, ran, tables, -, merged⟩ :=
    requested_refresh_agrees_iff plainPair refreshAll (refreshOf "T")
      ["T"] refreshed rfl rfl succeeds
  refine ⟨refreshed, part, succeeds, ran, tables ▸ served, ?_⟩
  refine (merged plainPair ["w".toList] everyTable refreshAll refreshed noNotes rfl succeeds ?_ ?_
    (fun _ _ _ _ => Iff.rfl)).mpr ?_
  · rw [skips.2]
    rfl
  · rw [skips.2]
    rfl
  · rintro ident ⟨idents, listed, member⟩ - ⟨other, found, differs⟩
    obtain rfl := Except.ok.inj listed
    rw [skips.1] at found differs
    rcases List.mem_cons.mp (List.mem_filter.mp member).1 with rfl | rest
    · cases found
    · obtain rfl := List.mem_singleton.mp rest
      obtain rfl := Option.some.inj found
      exact differs _ List.mem_cons_self rfl rfl

end Instances

end LakehouseEngine
