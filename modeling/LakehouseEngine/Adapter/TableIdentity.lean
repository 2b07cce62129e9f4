import LakehouseEngine.Catalog.LoadTable
import LakehouseEngine.Data.Fallible
import LakehouseEngine.Data.OrderedMap
import LakehouseEngine.Data.Placement
import LakehouseEngine.Expression.Node
import LakehouseEngine.Text.Json
import LakehouseEngine.Text.Numeral
import LakehouseEngine.Text.WhiteSpace

/-!
# The catalog table behind a virtual table

A virtual table is named by the levels below the configured namespace, and its note records
the whole identifier as one dotted text.  A scan reads the note and splits the text as its kind
of catalog does: Iceberg REST at every dot, Unity at the last one and then its namespace, Glue at
the first one, direct storage not at all.  So it depends on the kind which parts may have dots of
their own for the recorded table to be read.
-/

namespace LakehouseEngine.TableIdentity

structure CatalogTableIdent where
  ns : List (List Char)
  name : List Char
  deriving DecidableEq

def CatalogTableIdent.parts (ident : CatalogTableIdent) : List (List Char) :=
  ident.ns ++ [ident.name]

def catalogIdentifierString (ident : CatalogTableIdent) : List Char := ['.'].intercalate ident.parts

section Listing

variable [Unicode]

def flattenTableName (configured : List (List Char)) (ident : CatalogTableIdent) : String :=
  let sub := if configured.isPrefixOf ident.ns then ident.ns.drop configured.length else ident.ns
  upper (String.ofList ("__".toList.intercalate (sub ++ [ident.name])))

/-- Records the name of one table among those already seen. -/
def recordName (configured : List (List Char)) (seen : List (String × List Char))
    (ident : CatalogTableIdent) : Except String (List (String × List Char)) :=
  match seen.lookup (flattenTableName configured ident) with
  | some existing =>
      .error ("table name collision: '" ++ flattenTableName configured ident ++
        "' maps to both '" ++
        String.ofList existing ++ "' and '" ++ String.ofList (catalogIdentifierString ident) ++ "'")
  | none => .ok ((flattenTableName configured ident, catalogIdentifierString ident) :: seen)

def rejectNameCollisions (configured : List (List Char)) (idents : List CatalogTableIdent) :
    Except String Unit :=
  (idents.foldlM (recordName configured) []).map fun _ => ()

end Listing

/-! ## The note -/

/-- A table of the virtual schema, or of a request, with its note where that is a text. -/
structure VirtualTable (τ : Type) where
  name : String
  adapterNotes : Option τ

inductive ScanError where
  | user (message : String)
  | ident (error : IdentError)

variable {τ : Type} (text : JsonText τ)

def encodeIdentifierNote (ident : CatalogTableIdent) : τ :=
  text.write (.object [("name", .string (String.ofList (catalogIdentifierString ident)))])

def readIdentifier (involvedTables : List (VirtualTable τ)) (tableName : String) :
    Except ScanError (List Char) :=
  match (involvedTables.find? fun table => table.name = tableName).bind fun table =>
      table.adapterNotes.bind fun note => (text.read note).bind fun note =>
        (note.get "name").bind Json.asStr with
  | some identifier => .ok identifier.toList
  | none =>
      .error (.user ("pushdown: virtual table '" ++ tableName ++
        "' has no readable identifier note; run ALTER VIRTUAL SCHEMA ... REFRESH to write it"))

/-! ## The identifier rules of the catalogs -/

/-- The clients that a scan can have. -/
inductive CatalogKind where
  | icebergRest
  | unity
  | glue
  | directStorage
  deriving DecidableEq

def isBlank (text : List Char) : Bool := (WhiteSpace.trim text).isEmpty

/-- `rsplit_once` -/
def rsplitOnce (mark : Char) (text : List Char) : Option (List Char × List Char) :=
  (Text.splitOnce mark text.reverse).map fun (after, before) => (before.reverse, after.reverse)

/-- The refusal of an identifier. -/
def identifierRefusal (tableIdentifier : List Char) (problem : String) : ScanError :=
  .user ("pushdown: the recorded catalog identifier '" ++ String.ofList tableIdentifier ++
    "' names no " ++
    problem ++ "; drop and recreate the virtual schema")

def unityTableIdent (tableIdentifier : List Char) : Except ScanError CatalogTableIdent :=
  match rsplitOnce '.' tableIdentifier with
  | none =>
      .error (identifierRefusal tableIdentifier
        ("Unity Catalog table — a Unity Catalog table is " ++
        "addressed as 'catalog.schema.table'"))
  | some (ns, name) =>
      if isBlank name then
        .error (identifierRefusal tableIdentifier "table — its last dot-separated segment is empty")
      else .ok ⟨ns.splitOn '.', name⟩

def parseGlueTableIdent (tableIdentifier : List Char) : Except ScanError CatalogTableIdent :=
  let refused := identifierRefusal tableIdentifier
    "Glue table — a Glue table is addressed as 'database.table'"
  match Text.splitOnce '.' tableIdentifier with
  | none => .error refused
  | some (database, name) =>
      if isBlank database || isBlank name then .error refused else .ok ⟨[database], name⟩

def directStorageDirectory (tableIdentifier : List Char) : Except ScanError (List Char) :=
  let refusal := fun reason => identifierRefusal tableIdentifier
    ("first-level directory under the storage base path — " ++ reason)
  if isBlank tableIdentifier then .error (refusal "it is empty")
  else if '/' ∈ tableIdentifier ∨ '\\' ∈ tableIdentifier then
    .error (refusal "it carries a path separator")
  else if tableIdentifier = ['.'] ∨ tableIdentifier = ['.', '.'] then
    .error (refusal "it names a relative path rather than a directory")
  else .ok tableIdentifier

/-- The catalog table that `load_for_scan` addresses under an identifier.  A directory of the
storage is a table without a namespace. -/
def CatalogKind.identify (kind : CatalogKind) (tableIdentifier : List Char) :
    Except ScanError CatalogTableIdent :=
  match kind with
  | .icebergRest =>
      match parseTableIdent tableIdentifier with
      | .ok (ns, name) => .ok ⟨ns.levels, name⟩
      | .error problem => .error (.ident problem)
  | .unity => unityTableIdent tableIdentifier
  | .glue => parseGlueTableIdent tableIdentifier
  | .directStorage => (directStorageDirectory tableIdentifier).map fun name => ⟨[], name⟩

/-- The catalog table that a scan of a virtual table loads. -/
def scannedTable (kind : CatalogKind) (involvedTables : List (VirtualTable τ))
    (tableName : String) :
    Except ScanError CatalogTableIdent := do
  let tableIdentifier ← readIdentifier text involvedTables tableName
  kind.identify tableIdentifier

/-- The virtual table of a catalog table. -/
def virtualTable [Unicode] (configured : List (List Char)) (ident : CatalogTableIdent) :
    VirtualTable τ :=
  ⟨flattenTableName configured ident, some (encodeIdentifierNote text ident)⟩

/-! ## Reading the note back -/

theorem splitOn_identifier_iff (ident : CatalogTableIdent) :
    (catalogIdentifierString ident).splitOn '.' = ident.parts ↔
      ∀ part ∈ ident.parts, '.' ∉ part := by
  constructor
  · intro whole part member
    rw [← whole] at member
    exact not_mem_of_mem_splitOn member
  · intro free
    exact List.splitOn_intercalate '.' free (by simp [CatalogTableIdent.parts])

theorem identifier_eq_of_ns {ident : CatalogTableIdent} (qualified : ident.ns ≠ []) :
    catalogIdentifierString ident = ['.'].intercalate ident.ns ++ '.' :: ident.name := by
  obtain ⟨ns, name⟩ := ident
  unfold catalogIdentifierString CatalogTableIdent.parts
  induction ns with
  | nil => exact absurd rfl qualified
  | cons level ns ih =>
      by_cases single : ns = []
      · simp [single, List.intercalate]
      · rw [List.cons_append, List.intercalate_cons_of_ne_nil (by simp),
          List.intercalate_cons_of_ne_nil single, ih single]
        simp

theorem rsplitOnce_of_not_mem {mark : Char} (before : List Char) {after : List Char}
    (fresh : mark ∉ after) : rsplitOnce mark (before ++ mark :: after) = some (before, after) := by
  have reversed : (before ++ mark :: after).reverse = after.reverse ++ mark :: before.reverse := by
    simp
  rw [rsplitOnce, reversed, Text.splitOnce_of_not_mem _ (by simpa using fresh)]
  simp

theorem not_mem_of_rsplitOnce {mark : Char} {text before after : List Char}
    (split : rsplitOnce mark text = some (before, after)) : mark ∉ after := by
  obtain ⟨⟨last, front⟩, found, same⟩ := Option.map_eq_some_iff.mp split
  cases same
  simpa using (Text.splitOnce_spec found).2

/-- The namespaces in a listing of a kind. -/
def CatalogKind.Lists (kind : CatalogKind) (ident : CatalogTableIdent) : Prop :=
  match kind with
  | .icebergRest => ident.ns ≠ []
  | .unity => ident.ns.length = 2
  | .glue => ident.ns.length = 1
  | .directStorage => ident.ns = []

/-- What a kind asks of a table for its identifier to be read back. -/
def CatalogKind.Recovers (kind : CatalogKind) (ident : CatalogTableIdent) : Prop :=
  match kind with
  | .icebergRest => ∀ part ∈ ident.parts, '.' ∉ part
  | .unity => (∀ part ∈ ident.parts, '.' ∉ part) ∧ isBlank ident.name = false
  | .glue =>
      (∀ database ∈ ident.ns, '.' ∉ database ∧ isBlank database = false) ∧
        isBlank ident.name = false
  | .directStorage =>
      isBlank ident.name = false ∧ '/' ∉ ident.name ∧ '\\' ∉ ident.name ∧
        ident.name ≠ ['.'] ∧ ident.name ≠ ['.', '.']

theorem identify_icebergRest_iff {ident : CatalogTableIdent} (qualified : ident.ns ≠ []) :
    CatalogKind.icebergRest.identify (catalogIdentifierString ident) = .ok ident ↔
      ∀ part ∈ ident.parts, '.' ∉ part := by
  rw [← splitOn_identifier_iff]
  constructor
  · intro identified
    simp only [CatalogKind.identify] at identified
    split at identified
    · next ns name parsed =>
        cases identified
        exact TableIdent.parseTableIdent_cases parsed
    · cases identified
  · intro parts
    have long : ¬ ident.parts.length < 2 := by
      have := List.length_pos_iff.mpr qualified
      simp only [CatalogTableIdent.parts, List.length_append, List.length_singleton]
      omega
    simp only [CatalogKind.identify, parseTableIdent, parts, if_neg long]
    simp [CatalogTableIdent.parts, NamespaceIdent.fromVec, qualified]

theorem identify_unity_iff {ident : CatalogTableIdent} (qualified : ident.ns ≠ []) :
    CatalogKind.unity.identify (catalogIdentifierString ident) = .ok ident ↔
      CatalogKind.unity.Recovers ident := by
  simp only [CatalogKind.identify, CatalogKind.Recovers, unityTableIdent]
  constructor
  · intro identified
    split at identified
    · cases identified
    · next ns name split =>
        split at identified
        · cases identified
        · next present =>
            cases identified
            refine ⟨?_, by simpa using present⟩
            intro part member
            rcases List.mem_append.mp member with level | last
            · exact not_mem_of_mem_splitOn level
            · rw [List.mem_singleton.mp last]
              exact not_mem_of_rsplitOnce split
  · rintro ⟨free, present⟩
    have levels : (['.'].intercalate ident.ns).splitOn '.' = ident.ns :=
      List.splitOn_intercalate '.' (fun level member => free level (List.mem_append_left _ member))
        qualified
    rw [identifier_eq_of_ns qualified, rsplitOnce_of_not_mem _ (free ident.name
      (List.mem_append_right _ (List.mem_singleton_self _)))]
    simp only [present, levels]
    rfl

theorem identify_glue_iff (database name : List Char) :
    CatalogKind.glue.identify (catalogIdentifierString ⟨[database], name⟩) =
        .ok ⟨[database], name⟩ ↔
      CatalogKind.glue.Recovers ⟨[database], name⟩ := by
  have joined : catalogIdentifierString ⟨[database], name⟩ = database ++ '.' :: name := by
    simp [catalogIdentifierString, CatalogTableIdent.parts, List.intercalate]
  simp only [CatalogKind.identify, CatalogKind.Recovers, parseGlueTableIdent, joined,
    List.forall_mem_singleton]
  constructor
  · intro identified
    split at identified
    · cases identified
    · next split =>
        split at identified
        · cases identified
        · next present =>
            cases identified
            simp only [Bool.or_eq_true, not_or, Bool.not_eq_true] at present
            exact ⟨⟨(Text.splitOnce_spec split).2, present.1⟩, present.2⟩
  · rintro ⟨⟨free, databasePresent⟩, namePresent⟩
    rw [Text.splitOnce_of_not_mem _ free]
    simp [databasePresent, namePresent]

theorem identify_directStorage_iff (name : List Char) :
    CatalogKind.directStorage.identify (catalogIdentifierString ⟨[], name⟩) = .ok ⟨[], name⟩ ↔
      CatalogKind.directStorage.Recovers ⟨[], name⟩ := by
  have alone : catalogIdentifierString ⟨[], name⟩ = name := by
    simp [catalogIdentifierString, CatalogTableIdent.parts, List.intercalate]
  rw [alone]
  simp only [CatalogKind.identify, CatalogKind.Recovers, directStorageDirectory]
  cases blank : isBlank name with
  | true => simp [Except.map]
  | false =>
      by_cases separated : '/' ∈ name ∨ '\\' ∈ name
      · rw [if_neg (by simp), if_pos separated]
        simp only [Except.map, reduceCtorEq, false_iff]
        tauto
      · by_cases relative : name = ['.'] ∨ name = ['.', '.']
        · rw [if_neg (by simp), if_neg separated, if_pos relative]
          simp only [Except.map, reduceCtorEq, false_iff]
          tauto
        · rw [if_neg (by simp), if_neg separated, if_neg relative]
          simp only [Except.map, true_iff]
          tauto

/-- Each kind reads its own note back exactly if the table meets what it asks. -/
theorem identify_iff {kind : CatalogKind} {ident : CatalogTableIdent} (listed : kind.Lists ident) :
    kind.identify (catalogIdentifierString ident) = .ok ident ↔ kind.Recovers ident := by
  cases kind with
  | icebergRest => exact identify_icebergRest_iff listed
  | unity =>
      have two : ident.ns.length = 2 := listed
      exact identify_unity_iff fun empty => by simp [empty] at two
  | glue =>
      obtain ⟨ns, name⟩ := ident
      obtain ⟨database, rfl⟩ := List.length_eq_one_iff.mp listed
      exact identify_glue_iff database name
  | directStorage =>
      obtain ⟨ns, name⟩ := ident
      obtain rfl : ns = [] := listed
      exact identify_directStorage_iff name

/-- A note on its own is read back. -/
theorem read_note (ident : CatalogTableIdent) :
    (text.read (encodeIdentifierNote text ident)).bind
      (fun note => (note.get "name").bind Json.asStr) =
      some (String.ofList (catalogIdentifierString ident)) := by
  have shallow :
    (Json.object [("name", .string (String.ofList (catalogIdentifierString ident)))]).depth ≤
      127 := by
    simp [Json.depth, Json.depthEntries]
  rw [encodeIdentifierNote, text.within _ shallow]
  simp [Json.get, Json.asStr]

section Schema

variable [Unicode] {configured : List (List Char)} {listing : List CatalogTableIdent}

/-- The names seen so far are those of the tables so far, each once. -/
structure Seen (configured : List (List Char)) (done : List CatalogTableIdent)
    (seen : List (String × List Char)) : Prop where
  names : ∀ name, seen.lookup name = none → name ∉ done.map (flattenTableName configured)
  once : (done.map (flattenTableName configured)).Nodup

theorem Seen.record {done : List CatalogTableIdent} {ident : CatalogTableIdent}
    {seen next : List (String × List Char)} (before : Seen configured done seen)
    (recorded : recordName configured seen ident = .ok next) :
    Seen configured (done ++ [ident]) next := by
  unfold recordName at recorded
  split at recorded
  · cases recorded
  · next fresh =>
      cases recorded
      refine ⟨?_, ?_⟩
      · intro name absent
        rw [OrderedMap.lookup_cons] at absent
        split at absent
        · cases absent
        · next different =>
            rw [List.map_append, List.map_singleton, List.mem_append, List.mem_singleton, not_or]
            exact ⟨before.names name absent, fun same => different (beq_iff_eq.mpr same)⟩
      · rw [List.map_append, List.map_singleton, nodup_concat_iff]
        exact ⟨before.names _ fresh, before.once⟩

/-- A listing without collisions names every table once. -/
theorem names_nodup_of_accepted (accepted : rejectNameCollisions configured listing = .ok ()) :
    (listing.map (flattenTableName configured)).Nodup := by
  obtain ⟨seen, recorded, -⟩ := exists_of_map_ok accepted
  have all : Seen configured listing seen :=
    foldlM_invariant ⟨fun _ _ => List.not_mem_nil, List.nodup_nil⟩
      (fun _ _ _ _ _ _ before step => before.record step) recorded
  exact all.once

theorem lookup_recordName_of_ne {ident : CatalogTableIdent} {seen next : List (String × List Char)}
    (recorded : recordName configured seen ident = .ok next) {name : String}
    (other : name ≠ flattenTableName configured ident) : next.lookup name = seen.lookup name := by
  unfold recordName at recorded
  split at recorded
  · cases recorded
  · cases recorded
    rw [OrderedMap.lookup_cons, if_neg (by simpa using other)]

/-- A listing that names every table once has no collisions. -/
theorem accepted_of_names_nodup (once : (listing.map (flattenTableName configured)).Nodup) :
    rejectNameCollisions configured listing = .ok () := by
  have all : ∀ seen : List (String × List Char),
      (∀ ident ∈ listing, seen.lookup (flattenTableName configured ident) = none) →
      ∃ last, listing.foldlM (recordName configured) seen = .ok last := by
    induction listing with
    | nil => exact fun seen _ => ⟨seen, rfl⟩
    | cons ident listing ih =>
        intro seen fresh
        rw [List.map_cons, List.nodup_cons] at once
        obtain ⟨next, recorded⟩ : ∃ next, recordName configured seen ident = .ok next := by
          rw [recordName, fresh ident List.mem_cons_self]
          exact ⟨_, rfl⟩
        rw [List.foldlM_cons, recorded, ok_bind]
        apply ih once.2
        intro other member
        have different : flattenTableName configured other ≠ flattenTableName configured ident :=
          fun same => once.1 (List.mem_map.mpr ⟨other, member, same⟩)
        rw [lookup_recordName_of_ne recorded different]
        exact fresh other (List.mem_cons_of_mem ident member)
  obtain ⟨last, recorded⟩ := all [] fun _ _ => rfl
  rw [rejectNameCollisions, recorded]
  rfl

variable (configured listing)

/-- A request names tables of the schema. -/
def Requests (involved : List (VirtualTable τ)) : Prop :=
  ∀ table ∈ involved, ∃ ident ∈ listing, table = virtualTable text configured ident

variable {configured listing} {involved : List (VirtualTable τ)} {ident : CatalogTableIdent}

/-- A scan reads the identifier that was recorded for its table. -/
theorem scannedTable_eq (kind : CatalogKind)
    (accepted : rejectNameCollisions configured listing = .ok ())
    (requests : Requests text configured listing involved) (listed : ident ∈ listing)
    (member : virtualTable text configured ident ∈ involved) :
    scannedTable text kind involved (flattenTableName configured ident) =
      kind.identify (catalogIdentifierString ident) := by
  have found : involved.find? (fun table => table.name = flattenTableName configured ident) =
      some (virtualTable text configured ident) := by
    cases search : involved.find? (fun table => table.name = flattenTableName configured ident) with
    | none =>
        have missed := List.find?_eq_none.mp search _ member
        exact absurd (decide_eq_true rfl) missed
    | some table =>
        -- Another table of that name would have been a collision.
        obtain ⟨other, alsoListed, rfl⟩ := requests table (List.mem_of_find?_eq_some search)
        have same : (virtualTable text configured other).name =
            flattenTableName configured ident := by
          simpa using List.find?_some search
        rw [List.inj_on_of_nodup_map (names_nodup_of_accepted accepted) alsoListed listed same]
  have read : readIdentifier text involved (flattenTableName configured ident) =
      .ok (catalogIdentifierString ident) := by
    have note := read_note text ident
    simp only [readIdentifier, found, virtualTable, Option.bind_some, note, String.toList_ofList]
  rw [scannedTable, read, ok_bind]

/-- After every listing that is accepted, the scans of the virtual tables read the tables they
were created from exactly when every table meets what its kind of catalog asks. -/
theorem scans_recorded_tables_iff (kind : CatalogKind)
    (accepted : rejectNameCollisions configured listing = .ok ())
    (shaped : ∀ ident ∈ listing, kind.Lists ident) :
    ((∀ ident ∈ listing, ∀ involved, Requests text configured listing involved →
        virtualTable text configured ident ∈ involved →
        scannedTable text kind involved (flattenTableName configured ident) = .ok ident) ∧
      ∀ first ∈ listing, ∀ second ∈ listing, first ≠ second →
        ∀ involved, Requests text configured listing involved →
          virtualTable text configured first ∈ involved →
          virtualTable text configured second ∈ involved →
          ∀ table, ¬ (scannedTable text kind involved (flattenTableName configured first) =
              .ok table ∧
            scannedTable text kind involved (flattenTableName configured second) = .ok table)) ↔
      ∀ ident ∈ listing, kind.Recovers ident := by
  constructor
  · intro ⟨exact, _⟩ ident listed
    have requests : Requests text configured listing [virtualTable text configured ident] := by
      intro table member
      exact ⟨ident, listed, List.mem_singleton.mp member⟩
    have scanned := exact ident listed _ requests List.mem_cons_self
    rw [scannedTable_eq text kind accepted requests listed List.mem_cons_self] at scanned
    exact (identify_iff (shaped ident listed)).mp scanned
  · intro recovers
    have exact : ∀ ident ∈ listing, ∀ involved, Requests text configured listing involved →
        virtualTable text configured ident ∈ involved →
        scannedTable text kind involved (flattenTableName configured ident) = .ok ident := by
      intro ident listed involved requests member
      rw [scannedTable_eq text kind accepted requests listed member]
      exact (identify_iff (shaped ident listed)).mpr (recovers ident listed)
    refine ⟨exact, ?_⟩
    intro first inFirst second inSecond different involved requests firstMember secondMember table
      both
    rw [exact first inFirst involved requests firstMember,
      exact second inSecond involved requests secondMember] at both
    exact different (Except.ok.inj (both.1.trans both.2.symm))

end Schema

section Instances

local instance identityUnicode : Unicode := Unicode.ascii

/-- Two tables whose identifiers are one text: `a.b` with `c`, and `a` with `b.c`. -/
def dotted : List CatalogTableIdent :=
  [⟨["a".toList, "b".toList], "c".toList⟩, ⟨["a".toList], "b.c".toList⟩]

theorem dotted_tables_read_one_table :
    rejectNameCollisions ["a".toList] dotted = .ok () ∧
      flattenTableName ["a".toList] ⟨["a".toList, "b".toList], "c".toList⟩ = "B__C" ∧
      flattenTableName ["a".toList] ⟨["a".toList], "b.c".toList⟩ = "B.C" ∧
      scannedTable JsonText.ideal .icebergRest
          (dotted.map (virtualTable JsonText.ideal ["a".toList])) "B__C" =
        .ok ⟨["a".toList, "b".toList], "c".toList⟩ ∧
      scannedTable JsonText.ideal .icebergRest
          (dotted.map (virtualTable JsonText.ideal ["a".toList])) "B.C" =
        .ok ⟨["a".toList, "b".toList], "c".toList⟩ := by
  refine ⟨rfl, by decide, by decide, rfl, rfl⟩

/-- Two tables of a Glue database, one with a dot in its name. -/
def salesListing : List CatalogTableIdent :=
  [⟨["sales".toList], "orders".toList⟩, ⟨["sales".toList], "orders.v2".toList⟩]

theorem scans_recorded_tables_iff_sales :
    rejectNameCollisions ["sales".toList] salesListing = .ok () ∧
      scannedTable JsonText.ideal .glue
          (salesListing.map (virtualTable JsonText.ideal ["sales".toList])) "ORDERS" =
        .ok ⟨["sales".toList], "orders".toList⟩ ∧
      scannedTable JsonText.ideal .glue
          (salesListing.map (virtualTable JsonText.ideal ["sales".toList])) "ORDERS.V2" =
        .ok ⟨["sales".toList], "orders.v2".toList⟩ := by
  have shaped : ∀ ident ∈ salesListing, CatalogKind.glue.Lists ident := by
    simp [salesListing, CatalogKind.Lists]
  have recovers : ∀ ident ∈ salesListing, CatalogKind.glue.Recovers ident := by
    simp only [salesListing, CatalogKind.Recovers, List.forall_mem_cons]
    decide
  have requests : Requests JsonText.ideal ["sales".toList] salesListing
      (salesListing.map (virtualTable JsonText.ideal ["sales".toList])) := by
    intro table member
    obtain ⟨ident, listed, rfl⟩ := List.mem_map.mp member
    exact ⟨ident, listed, rfl⟩
  have scans (ident : CatalogTableIdent) (listed : ident ∈ salesListing) :=
    ((scans_recorded_tables_iff JsonText.ideal .glue rfl shaped).mpr recovers).1 ident listed _
      requests (List.mem_map_of_mem listed)
  have orders : flattenTableName ["sales".toList] ⟨["sales".toList], "orders".toList⟩ =
      "ORDERS" := by
    decide
  have ordersV2 : flattenTableName ["sales".toList] ⟨["sales".toList], "orders.v2".toList⟩ =
      "ORDERS.V2" := by
    decide
  refine ⟨rfl, ?_, ?_⟩
  · rw [← orders]
    exact scans _ (by simp [salesListing])
  · rw [← ordersV2]
    exact scans _ (by simp [salesListing])

end Instances

end LakehouseEngine.TableIdentity
