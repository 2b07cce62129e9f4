import LakehouseEngine.Catalog.Client
import LakehouseEngine.Catalog.CredentialLabels
import LakehouseEngine.Data.LevelWalk

/-!
# Catalog listings

Iceberg REST and Unity go on as long as a page has a token; Glue stops at an empty page as well.
An Iceberg REST catalog is listed namespace by namespace, level by level, except under the request
signing that Glue uses, where only the configured namespace is listed.
-/

namespace LakehouseEngine

open Paging (Stop Protocol)
open TableIdentity (CatalogTableIdent catalogIdentifierString)

structure Page (ι : Type) where
  items : List ι
  nextToken : Option String

variable {ι : Type}

/-- The token of a page, unless it is empty. -/
def Page.offered (page : Page ι) : Option String := page.nextToken.filter fun token =>
    !token.isEmpty

/-- A request by its address and its query. -/
structure PageRequest where
  url : List Char
  query : List (String × List Char)
  deriving DecidableEq

/-- The request for the page of a token, which is sent under a key of the catalog's own. -/
def pageRequest (tokenKey : String) (url : List Char) (query : List (String × List Char))
    (token : Option String) : PageRequest :=
  ⟨url, query ++ (token.map fun token => (tokenKey, token.toList)).toList⟩

/-- A loop that goes on as long as a page has a token. -/
def tokenProtocol (tokenKey : String) (url : List Char) (query : List (String × List Char)) :
    Protocol PageRequest String (Page ι) ι String where
  request := pageRequest tokenKey url query
  items page := .ok page.items
  next := Page.offered

/-! ## Iceberg REST -/

/-- How a catalog session is addressed, and whether its requests are signed for Glue. -/
structure ListingSession where
  session : CatalogSession
  encoding : NamespaceEncoding
  sigv4 : Bool
  /-- The library's complaint about an address. -/
  urlError : List Char → Option String

/-- The answers to the requests of one listing. -/
structure NamespaceServer where
  tables : List PageRequest → Except String (Page CatalogTableIdent)
  namespaces : List PageRequest → Except String (Page NamespaceIdent)

section Rest

variable (session : ListingSession) (server : NamespaceServer)

/-- `list_pages`. -/
def listPages (answer : List PageRequest → Except String (Page ι)) (url : List Char)
    (query : List (String × List Char)) (fuel : ℕ) :
    Except (Stop String) (List ι × List PageRequest) :=
  match session.urlError url with
  | some complaint =>
      .error (.failed ("invalid catalog URL '" ++ String.ofList url ++ "': " ++ complaint))
  | none => Paging.collect (tokenProtocol "pageToken" url query) answer fuel none [] []

def namespacesUrl (below : Option (List Char)) : List Char :=
  catalogUrl session.session (match below with
    | some below => "namespaces/".toList ++ below
    | none => "namespaces".toList)

def listingError (action : String) (ns : NamespaceIdent) : Stop String → Stop String
  | .failed error =>
      .failed ("failed to " ++ action ++ " '" ++
        String.ofList (['.'].intercalate ns.levels) ++ "': " ++
        String.ofList (Redaction.redactCredentials error.toList))
  | .unfinished => .unfinished

def tablesUrl (ns : NamespaceIdent) : List Char :=
  namespacesUrl session (some (ns.toUrlString session.encoding ++ "/tables".toList))

def parentQuery (ns : NamespaceIdent) : List (String × List Char) :=
  [("parent", ns.toUrlString session.encoding)]

def listNamespacePages (fuel : ℕ) (ns : NamespaceIdent) :
    Except (Stop String) (List CatalogTableIdent × List PageRequest) :=
  (listPages session server.tables (tablesUrl session ns) [] fuel).mapError
    (listingError "list tables in namespace" ns)

def listChildNamespaces (fuel : ℕ) (ns : NamespaceIdent) :
    Except (Stop String) (List NamespaceIdent × List PageRequest) :=
  (listPages session server.namespaces (namespacesUrl session none)
    (parentQuery session ns) fuel).mapError
    (listingError "list namespaces under" ns)

/-- What one namespace was found to hold, and the requests that were sent for it. -/
structure VisitedNamespace where
  tables : List CatalogTableIdent
  tableRequests : List PageRequest
  childRequests : List PageRequest

/-- One namespace of a level: its tables, and its children unless the session is signed. -/
def visitNamespace (fuel : ℕ) (ns : NamespaceIdent) :
    Except (Stop String) (VisitedNamespace × List NamespaceIdent) := do
  let (tables, tableRequests) ← listNamespacePages session server fuel ns
  if session.sigv4 then return (⟨tables, tableRequests, []⟩, [])
  let (children, childRequests) ← listChildNamespaces session server fuel ns
  return (⟨tables, tableRequests, childRequests⟩, children)

/-- `list_namespace_tables`, with the requests of every namespace in the order of the walk. -/
def listNamespaceTables (configured : List (List Char)) (emptyNamespace : String) (fuel : ℕ) :
    Except (Stop String) (List CatalogTableIdent × List (List PageRequest × List PageRequest)) :=
  match NamespaceIdent.fromVec configured with
  | none =>
      .error (.failed ("invalid namespace '" ++
        String.ofList (['.'].intercalate configured) ++ "': " ++
        emptyNamespace))
  | some root => do
      let visited ← LevelWalk.walk (visitNamespace session server fuel) fuel [] [root]
      return (visited.flatMap VisitedNamespace.tables,
        visited.map fun visit => (visit.tableRequests, visit.childRequests))

end Rest

/-! ## Unity Catalog -/

/-- `collect_pages`. -/
def collectPages (answer : List PageRequest → Except String (Page ι)) (url : List Char)
    (query : List (String × List Char)) (fuel : ℕ) :
    Except (Stop String) (List ι × List PageRequest) :=
  Paging.collect (tokenProtocol "page_token" url query) answer fuel none [] []

def unityTablesUrl (baseUrl : List Char) : List Char := baseUrl ++ "/tables".toList

def listTableInfos (baseUrl : List Char) (answer : List PageRequest →
    Except String (Page TableInfo))
    (catalog schema : List Char) (fuel : ℕ) :
    Except (Stop String) (List TableInfo × List PageRequest) :=
  collectPages answer (unityTablesUrl baseUrl)
    [("catalog_name", catalog), ("schema_name", schema)] fuel

def identifierListingQuery (catalog schema : List Char) : List (String × List Char) :=
  [("catalog_name", catalog), ("schema_name", schema), ("omit_columns", "true".toList),
    ("omit_properties", "true".toList), ("omit_username", "true".toList)]

def listTableNames (baseUrl : List Char) (answer : List PageRequest → Except String (Page String))
    (catalog schema : List Char) (fuel : ℕ) :
    Except (Stop String) (List String × List PageRequest) :=
  collectPages answer (unityTablesUrl baseUrl) (identifierListingQuery catalog schema) fuel

/-! ## Glue -/

/-- An empty page ends a listing, whatever its token. -/
def nextPageToken (token : Option String) (pageLen : ℕ) : Option String :=
  if pageLen = 0 then none else token.filter fun token => !token.isEmpty

/-- A request of the Glue client; `attributes` are those asked for, if not all. -/
structure GlueRequest where
  catalogId : Option String
  database : List Char
  tableName : Option (List Char)
  attributes : Option (List String)
  token : Option String
  deriving DecidableEq

def glueTablesProtocol (catalog : Option String) (database : List Char)
    (attributes : Option (List String)) :
    Protocol GlueRequest String (Page GlueTable) GlueTable String where
  request token := ⟨catalog, database, none, attributes, token⟩
  items page := .ok page.items
  next page := nextPageToken page.nextToken page.items.length

/-- `GlueCatalogSession::tables`. -/
def glueTables (catalog : Option String) (answer : List GlueRequest →
    Except String (Page GlueTable))
    (database : List Char) (attributes : Option (List String)) (fuel : ℕ) :
    Except (Stop String) (List GlueTable × List GlueRequest) :=
  Paging.collect (glueTablesProtocol catalog database attributes) answer fuel none [] []

structure GluePartition where
  values : List String
  storageDescriptor : Option StorageDescriptor

inductive PartitionFormat where
  | parquet
  | unsupported (inputFormat : String)

structure CatalogPartition where
  values : OrderedMap.StringMap (Option String)
  location : String
  format : PartitionFormat

def hiveDefaultPartition : String := "__HIVE_DEFAULT_PARTITION__"

/-- `neutral_partition`; `debug` is how the library shows a list of texts. -/
def neutralPartition (debug : List String → String) (table : String) (partitionKeys : List String)
    (part : GluePartition) : Except String CatalogPartition :=
  match (part.storageDescriptor.bind StorageDescriptor.location).filter fun location =>
      !location.isEmpty with
  | none =>
      .error ("Glue partition " ++ debug part.values ++ " of table '" ++ table ++
        "' declares no storage location")
  | some location =>
      if part.values.length ≠ partitionKeys.length then
        .error ("Glue partition at '" ++ location ++ "' of table '" ++ table ++ "' has " ++
          toString part.values.length ++ " values, but the table declares " ++
          toString partitionKeys.length ++ " partition keys")
      else
        let pairs := partitionKeys.zip (part.values.map fun raw =>
          if raw = hiveDefaultPartition then none else some raw)
        .ok
          { values := ⟨OrderedMap.collect pairs, OrderedMap.sorted_collect pairs⟩
            location := trimLocation location
            format :=
              match (part.storageDescriptor.bind StorageDescriptor.inputFormat).filter
                fun inputFormat =>
                  !inputFormat.isEmpty && inputFormat != parquetInputFormat with
              | some inputFormat => .unsupported inputFormat
              | none => .parquet }

section Partitions

variable {φ : Type} (debug : List String → String) (catalog : Option String)
  (answer : List GlueRequest → Except String (Page GluePartition)) (table : CatalogTable φ)

def gluePartitionsProtocol (database : List Char) :
    Protocol GlueRequest String (Page GluePartition) CatalogPartition String where
  request token := ⟨catalog, database, some table.ident.name, none, token⟩
  items page :=
    page.items.mapM (neutralPartition debug (String.ofList (catalogIdentifierString table.ident))
      table.partitionColumns)
  next page := nextPageToken page.nextToken page.items.length

/-- `GlueCatalogSession::partitions`: a table without partition keys is one partition. -/
def gluePartitions (fuel : ℕ) : Except (Stop String) (List CatalogPartition × List GlueRequest) :=
  if table.partitionColumns.isEmpty then
    match table.storageLocation with
    | none =>
        .error (.failed ("Glue table '" ++ String.ofList (catalogIdentifierString table.ident) ++
          "' declares no storage location"))
    | some location =>
        .ok ([⟨⟨OrderedMap.collect [], OrderedMap.sorted_collect []⟩, location, .parquet⟩], [])
  else do
    let database ← Paging.lift (glueDatabase table.ident.ns)
    Paging.collect (gluePartitionsProtocol debug catalog table database) answer fuel none [] []

end Partitions

/-! ## Complete listings -/

theorem exists_bound {α : Type} (size : α → ℕ) (items : List α) :
    ∃ bound, ∀ item ∈ items, size item ≤ bound := by
  induction items with
  | nil => exact ⟨0, fun item member => absurd member List.not_mem_nil⟩
  | cons item items ih =>
      obtain ⟨bound, within⟩ := ih
      refine ⟨max (size item) bound, fun other member => ?_⟩
      rcases List.mem_cons.mp member with rfl | rest
      · exact Nat.le_max_left _ _
      · exact Nat.le_trans (within other rest) (Nat.le_max_right _ _)

theorem mapM_ok (pages : List (Page ι)) :
    (pages.mapM fun page => (Except.ok page.items : Except String (List ι))) =
      .ok (pages.map Page.items) :=
  mapM_eq_ok_map fun _ _ => rfl

/-- A loop that follows the tokens gets every page. -/
theorem collect_tokenProtocol {tokenKey : String} {url : List Char}
    {query : List (String × List Char)}
    {answer : List PageRequest → Except String (Page ι)} {pages : List (Page ι)} {fuel : ℕ}
    (paged : Paging.Paged Page.offered pages)
    (serves : Paging.Serves (pageRequest tokenKey url query) Page.offered answer pages)
    (enough : pages.length ≤ fuel) :
    Paging.collect (tokenProtocol tokenKey url query) answer fuel none [] [] =
      .ok (pages.flatMap Page.items,
        Paging.requests (pageRequest tokenKey url query) Page.offered none pages) :=
  @Paging.collect_all _ _ _ _ _ (tokenProtocol tokenKey url query) answer Page.offered pages _ fuel
    paged serves (fun _ _ => rfl) (mapM_ok pages) enough

/-! ### Namespaces -/

section Namespaces

open LevelWalk (RoseTree)

variable (session : ListingSession) (server : NamespaceServer)
  (tablePages : NamespaceIdent → List (Page CatalogTableIdent))
  (childPages : NamespaceIdent → List (Page NamespaceIdent))

/-- The requests for the pages of a namespace's tables. -/
def tableRequests (ns : NamespaceIdent) : List PageRequest :=
  Paging.requests (pageRequest "pageToken" (tablesUrl session ns) []) Page.offered none
    (tablePages ns)

/-- The requests for the pages of a namespace's children, which a signed session does not list. -/
def childRequests (ns : NamespaceIdent) : List PageRequest :=
  if session.sigv4 then []
  else
    Paging.requests (pageRequest "pageToken" (namespacesUrl session none) (parentQuery session ns))
      Page.offered none (childPages ns)

/-- The server has the given pages for every namespace of a tree, and they name its children. -/
structure NamespaceServer.Holds (tree : RoseTree NamespaceIdent) : Prop where
  tablesUrl : ∀ node ∈ tree.nodes, session.urlError (tablesUrl session node.value) = none
  childrenUrl : session.urlError (namespacesUrl session none) = none
  tables : ∀ node ∈ tree.nodes, Paging.Paged Page.offered (tablePages node.value) ∧
    Paging.Serves (pageRequest "pageToken" (LakehouseEngine.tablesUrl session node.value) [])
      Page.offered
      server.tables (tablePages node.value)
  children : ∀ node ∈ tree.nodes, Paging.Paged Page.offered (childPages node.value) ∧
    Paging.Serves (pageRequest "pageToken" (namespacesUrl session none)
      (parentQuery session node.value))
      Page.offered server.namespaces (childPages node.value)
  tree : ∀ node ∈ tree.nodes, (childPages node.value).flatMap Page.items =
    node.children.map RoseTree.value

variable {session server tablePages childPages}

/-- What is found in one namespace. -/
def namespaceHolds (session : ListingSession)
    (tablePages : NamespaceIdent → List (Page CatalogTableIdent))
    (childPages : NamespaceIdent → List (Page NamespaceIdent)) (ns : NamespaceIdent) :
    VisitedNamespace :=
  ⟨(tablePages ns).flatMap Page.items, tableRequests session tablePages ns,
    childRequests session childPages ns⟩

theorem visitNamespace_eq {tree : RoseTree NamespaceIdent}
    (holds : server.Holds session tablePages childPages tree) {node : RoseTree NamespaceIdent}
    (member : node ∈ tree.nodes) {fuel : ℕ}
    (enough : (tablePages node.value).length + (childPages node.value).length ≤ fuel) :
    visitNamespace session server fuel node.value =
      .ok (namespaceHolds session tablePages childPages node.value,
        if session.sigv4 then [] else node.children.map RoseTree.value) := by
  have tables : listNamespacePages session server fuel node.value =
      .ok ((tablePages node.value).flatMap Page.items,
        tableRequests session tablePages node.value) := by
    obtain ⟨paged, serves⟩ := holds.tables node member
    rw [listNamespacePages, listPages, holds.tablesUrl node member]
    dsimp only
    rw [collect_tokenProtocol paged serves (by omega)]
    rfl
  rw [visitNamespace, tables, ok_bind, namespaceHolds, childRequests]
  cases signed : session.sigv4 with
  | true => rfl
  | false =>
      obtain ⟨paged, serves⟩ := holds.children node member
      rw [listChildNamespaces, listPages, holds.childrenUrl]
      dsimp only
      rw [collect_tokenProtocol paged serves (by omega), holds.tree node member]
      rfl

/-- The part of a tree that a session sees is listed whole. -/
theorem listNamespaceTables_seen {tree seen : RoseTree NamespaceIdent}
    (holds : server.Holds session tablePages childPages tree) (top : seen.value = tree.value)
    (part : ∀ node ∈ seen.nodes, ∃ whole ∈ tree.nodes, whole.value = node.value ∧
      (if session.sigv4 then [] else whole.children.map RoseTree.value) =
        node.children.map RoseTree.value)
    (emptyNamespace : String) :
    ∃ order : List (RoseTree NamespaceIdent), order.Perm seen.nodes ∧
      ∃ bound, ∀ fuel, bound ≤ fuel →
      listNamespaceTables session server tree.value.levels emptyNamespace fuel =
        .ok (order.flatMap fun node => (tablePages node.value).flatMap Page.items,
          order.map fun node => (tableRequests session tablePages node.value,
            childRequests session childPages node.value)) := by
  obtain ⟨pages, within⟩ := exists_bound
    (fun node : RoseTree NamespaceIdent =>
      (tablePages node.value).length + (childPages node.value).length)
    tree.nodes
  obtain ⟨order, once, walked⟩ :=
    @LevelWalk.walk_forest _ _ String [seen] (namespaceHolds session tablePages childPages)
  rw [RoseTree.nodesAll_singleton] at once walked
  refine ⟨order, once, pages + seen.nodes.length + 1, fun fuel enough => ?_⟩
  have visits : ∀ node ∈ seen.nodes, LevelWalk.Visits (visitNamespace session server fuel)
      (namespaceHolds session tablePages childPages) node := by
    intro node member
    obtain ⟨whole, inside, same, below⟩ := part node member
    have bounded := within whole inside
    rw [LevelWalk.Visits, ← same, visitNamespace_eq holds inside (by omega), below]
  have root : NamespaceIdent.fromVec tree.value.levels = some tree.value := by
    rw [NamespaceIdent.fromVec, dif_pos tree.value.nonempty]
  have run := walked (visitNamespace session server fuel) visits fuel (by omega) []
  rw [List.map_singleton, top] at run
  rw [listNamespaceTables, root]
  dsimp only
  rw [run, ok_bind, List.nil_append, List.flatMap_map, List.map_map]
  rfl

/-- A session that descends, or one without children to descend to, lists the whole tree; a signed
session never lists a child. -/
theorem listNamespaceTables_complete_iff {tree : RoseTree NamespaceIdent}
    (holds : server.Holds session tablePages childPages tree) (emptyNamespace : String) :
    (∃ order : List (RoseTree NamespaceIdent), order.Perm tree.nodes ∧
      ∃ bound, ∀ fuel, bound ≤ fuel →
      listNamespaceTables session server tree.value.levels emptyNamespace fuel =
        .ok (order.flatMap fun node => (tablePages node.value).flatMap Page.items,
          order.map fun node => (tableRequests session tablePages node.value,
            childRequests session childPages node.value))) ↔
      session.sigv4 = false ∨ tree.children = [] := by
  have self : tree ∈ tree.nodes := by
    rw [RoseTree.nodes_eq]
    exact List.mem_cons_self
  cases signed : session.sigv4 with
  | false =>
      refine ⟨fun _ => .inl rfl, fun _ => listNamespaceTables_seen holds rfl ?_ emptyNamespace⟩
      intro node member
      rw [signed]
      exact ⟨node, member, rfl, rfl⟩
  | true =>
      -- The session sees the root alone.
      have alone : (RoseTree.node tree.value []).nodes = [.node tree.value []] := by
        rw [RoseTree.nodes_eq]
        rfl
      obtain ⟨order, once, bound, lists⟩ :=
        @listNamespaceTables_seen session server tablePages childPages tree
          (.node tree.value []) holds rfl
          (by
            intro node member
            rw [alone, List.mem_singleton] at member
            subst member
            rw [signed]
            exact ⟨tree, self, rfl, rfl⟩) emptyNamespace
      constructor
      · rintro ⟨whole, all, other, listsAll⟩
        have same := (lists (max bound other) (Nat.le_max_left _ _)).symm.trans
          (listsAll (max bound other) (Nat.le_max_right _ _))
        have lengths := congrArg (List.length ∘ Prod.snd) (Except.ok.inj same)
        simp only [Function.comp_apply, List.length_map, once.length_eq, all.length_eq, alone,
          RoseTree.nodes_eq tree, List.length_cons, List.length_nil] at lengths
        refine .inr ?_
        cases below : tree.children with
        | nil => rfl
        | cons child rest =>
            rw [below, RoseTree.nodesAll, RoseTree.nodes_eq, List.cons_append,
              List.length_cons] at lengths
            omega
      · rintro (descends | leaf)
        · cases descends
        · have same : RoseTree.node tree.value [] = tree := by
            cases tree with
            | node value children => cases leaf; rfl
          rw [same] at once
          exact ⟨order, once, bound, lists⟩

end Namespaces

/-! ### Glue -/

/-- A loop that an empty page ends gets every page exactly when no page before the last is empty. -/
theorem collect_glue_iff {κ : Type} {protocol : Protocol GlueRequest String (Page ι) κ String}
    (next : ∀ page, protocol.next page = nextPageToken page.nextToken page.items.length)
    {answer : List GlueRequest → Except String (Page ι)} {pages : List (Page ι)}
    {results : List (List κ)} (paged : Paging.Paged Page.offered pages)
    (serves : Paging.Serves protocol.request Page.offered answer pages)
    (converted : pages.mapM protocol.items = .ok results) :
    (∀ fuel, pages.length ≤ fuel → Paging.collect protocol answer fuel none [] [] =
      .ok (results.flatten, Paging.requests protocol.request Page.offered none pages)) ↔
      ∀ page ∈ pages.dropLast, page.items ≠ [] := by
  have follows : ∀ page, page.items ≠ [] → protocol.next page = page.offered := by
    intro page filled
    rw [next, nextPageToken, if_neg fun none =>
      filled (List.length_eq_zero_iff.mp none), Page.offered]
  have whole := List.dropLast_concat_getLast paged.some_page
  constructor
  · intro gets
    by_contra some
    push Not at some
    obtain ⟨page, member, empty⟩ := some
    -- The loop ends at the first page without items.
    obtain ⟨first, found⟩ := Option.isSome_iff_exists.mp
      (@List.find?_isSome _ pages.dropLast (fun page => page.items.isEmpty) |>.mpr
        ⟨page, member, List.isEmpty_iff.mpr empty⟩)
    obtain ⟨isEmpty, front, rest, split, filled⟩ := List.find?_eq_some_iff_append.mp found
    have pagesSplit : pages = front ++ first :: (rest ++ [pages.getLast paged.some_page]) := by
      rw [← List.cons_append, ← List.append_assoc, ← split, whole]
    obtain ⟨made, some⟩ : ∃ made, (front ++ [first]).mapM protocol.items = .ok made := by
      refine exists_mapM_ok fun page inside => exists_of_mapM_ok converted page ?_
      rw [pagesSplit]
      rcases List.mem_append.mp inside with before | last
      · exact List.mem_append_left _ before
      · exact List.mem_append_right _ (List.mem_singleton.mp last ▸ List.mem_cons_self)
    have stops : protocol.next first = none := by
      rw [next, List.isEmpty_iff.mp isEmpty]
      rfl
    have goesOn : ∀ page ∈ front, ∃ token, protocol.next page = .some token ∧
      page.offered = .some token := by
      intro page inside
      have nonempty : page.items ≠ [] := by
        intro none
        have full := filled page inside
        rw [none] at full
        cases full
      obtain ⟨token, offer⟩ := Option.isSome_iff_exists.mp
        (paged.goes_on page (split ▸ List.mem_append_left _ inside))
      exact ⟨token, (follows page nonempty).trans offer, offer⟩
    have short := Paging.collect_until (pagesSplit ▸ serves) goesOn stops some
      (Nat.lt_of_lt_of_le (by rw [pagesSplit, List.length_append, List.length_cons]; omega)
        (Nat.le_refl pages.length))
    have same := congrArg (List.length ∘ Prod.snd)
      (Except.ok.inj (short.symm.trans (gets pages.length (Nat.le_refl _))))
    rw [Function.comp_apply, Function.comp_apply, Paging.length_requests, Paging.length_requests,
      congrArg List.length pagesSplit] at same
    simp only [List.length_append, List.length_cons, List.length_nil] at same
    omega
  · intro filled fuel enough
    refine Paging.collect_all paged serves ?_ converted enough
    intro page member
    rw [← whole, List.mem_append, List.mem_singleton] at member
    rcases member with before | rfl
    · exact follows page (filled page before)
    · have ends := paged.ends _ (List.getLast?_eq_some_getLast paged.some_page)
      rw [next, nextPageToken, ends]
      split
      · rfl
      · exact ends

/-- A partition with a location and a value for every key of its table. -/
def GluePartition.Plannable (partitionKeys : List String) (part : GluePartition) : Prop :=
  (∃ location, part.storageDescriptor.bind StorageDescriptor.location = some location ∧
    location ≠ "") ∧ part.values.length = partitionKeys.length

theorem exists_neutralPartition_iff {debug : List String → String} {table : String}
    {partitionKeys : List String} {part : GluePartition} :
    (∃ made, neutralPartition debug table partitionKeys part = .ok made) ↔
      part.Plannable partitionKeys := by
  rw [neutralPartition, GluePartition.Plannable]
  cases found : part.storageDescriptor.bind StorageDescriptor.location with
  | none => simp
  | some location =>
      by_cases blank : location = ""
      · simp [Option.filter, blank]
      · by_cases same : part.values.length = partitionKeys.length
        · simp [Option.filter, blank, same]
        · simp [Option.filter, blank, same]

section GluePartitions

variable {φ : Type} {debug : List String → String} {catalog : Option String}
  {answer : List GlueRequest → Except String (Page GluePartition)} {table : CatalogTable φ}
  {database : List Char} {pages : List (Page GluePartition)}

/-- The requests for a table's partitions. -/
def partitionRequest (catalog : Option String) (database : List Char) (table : CatalogTable φ)
    (token : Option String) : GlueRequest :=
  ⟨catalog, database, some table.ident.name, none, token⟩

theorem gluePartitions_complete_iff (named : glueDatabase table.ident.ns = .ok database)
    (paged : Paging.Paged Page.offered pages)
    (serves : Paging.Serves (partitionRequest catalog database table) Page.offered answer pages) :
    (∃ results, List.Forall₂ (fun part made => neutralPartition debug
          (String.ofList (catalogIdentifierString table.ident)) table.partitionColumns part =
            .ok made)
        (pages.flatMap Page.items) results ∧
      ∀ fuel, pages.length ≤ fuel → gluePartitions debug catalog answer table fuel =
        .ok (results, Paging.requests (partitionRequest catalog database table) Page.offered
          none pages)) ↔
      table.partitionColumns ≠ [] ∧
        (∀ page ∈ pages, ∀ part ∈ page.items, part.Plannable table.partitionColumns) ∧
        ∀ page ∈ pages.dropLast, page.items ≠ [] := by
  have lists : ∀ fuel, table.partitionColumns ≠ [] →
    gluePartitions debug catalog answer table fuel =
      Paging.collect (gluePartitionsProtocol debug catalog table database) answer fuel none []
        [] := by
    intro fuel keyed
    rw [gluePartitions, if_neg fun none => keyed (List.isEmpty_iff.mp none), named]
    rfl
  have convertible : (∀ page ∈ pages, ∀ part ∈ page.items, part.Plannable table.partitionColumns) →
      ∃ results, pages.mapM (gluePartitionsProtocol debug catalog table database).items =
        .ok results := by
    intro plannable
    refine exists_mapM_ok fun page member => exists_mapM_ok fun part inside => ?_
    exact exists_neutralPartition_iff.mpr (plannable page member part inside)
  constructor
  · rintro ⟨results, related, gets⟩
    have keyed : table.partitionColumns ≠ [] := by
      intro none
      have run := gets pages.length (Nat.le_refl _)
      rw [gluePartitions, if_pos (List.isEmpty_iff.mpr none)] at run
      cases location : table.storageLocation with
      | none =>
          rw [location] at run
          cases run
      | some text =>
          rw [location] at run
          have sent := congrArg (List.length ∘ Prod.snd) (Except.ok.inj run)
          rw [Function.comp_apply, Function.comp_apply, Paging.length_requests] at sent
          exact paged.some_page (List.length_eq_zero_iff.mp sent.symm)
    have plannable : ∀ page ∈ pages, ∀ part ∈ page.items,
      part.Plannable table.partitionColumns := by
      intro page member part inside
      exact exists_neutralPartition_iff.mp (exists_of_mapM_ok (mapM_eq_ok_iff.mpr related) part
        (List.mem_flatMap.mpr ⟨page, member, inside⟩))
    obtain ⟨made, converted⟩ := convertible plannable
    have flat : made.flatten = results :=
      Except.ok.inj ((mapM_flatMap_eq_ok converted).symm.trans (mapM_eq_ok_iff.mpr related))
    refine ⟨keyed, plannable, (collect_glue_iff (fun _ => rfl) paged serves converted).mp ?_⟩
    intro fuel enough
    rw [← lists fuel keyed, flat]
    exact gets fuel enough
  · rintro ⟨keyed, plannable, filled⟩
    obtain ⟨made, converted⟩ := convertible plannable
    refine ⟨made.flatten, mapM_eq_ok_iff.mp (mapM_flatMap_eq_ok converted), fun fuel enough => ?_⟩
    rw [lists fuel keyed]
    exact (collect_glue_iff (fun _ => rfl) paged serves converted).mpr filled fuel enough

end GluePartitions

/-! ### All catalogs -/

/-- The requests for the tables of a database. -/
def glueTablesRequest (catalog : Option String) (database : List Char)
    (attributes : Option (List String))
    (token : Option String) : GlueRequest :=
  ⟨catalog, database, none, attributes, token⟩

/-- Iceberg REST lists every namespace of a tree, unless the session is signed and there are
children; Unity lists every page; Glue lists every page exactly when no page before the last is
empty, and partitions only of a partitioned table whose partitions can all be planned. -/
theorem catalog_listings_complete_iff (catalog : Option String) (database : List Char) :
    (∀ (session : ListingSession) (server : NamespaceServer)
      (tablePages : NamespaceIdent → List (Page CatalogTableIdent))
      (childPages : NamespaceIdent → List (Page NamespaceIdent))
      (tree : LevelWalk.RoseTree NamespaceIdent) (emptyNamespace : String),
      server.Holds session tablePages childPages tree →
      ((∃ order : List (LevelWalk.RoseTree NamespaceIdent), order.Perm tree.nodes ∧
        ∃ bound, ∀ fuel, bound ≤ fuel →
          listNamespaceTables session server tree.value.levels emptyNamespace fuel =
            .ok (order.flatMap fun node => (tablePages node.value).flatMap Page.items,
              order.map fun node => (tableRequests session tablePages node.value,
                childRequests session childPages node.value))) ↔
        session.sigv4 = false ∨ tree.children = [])) ∧
    (∀ (baseUrl catalog schema : List Char) (answer : List PageRequest →
      Except String (Page TableInfo))
      (pages : List (Page TableInfo)), Paging.Paged Page.offered pages →
      Paging.Serves (pageRequest "page_token" (unityTablesUrl baseUrl)
        [("catalog_name", catalog), ("schema_name", schema)]) Page.offered answer pages →
      ∀ fuel, pages.length ≤ fuel → listTableInfos baseUrl answer catalog schema fuel =
        .ok (pages.flatMap Page.items, Paging.requests
          (pageRequest "page_token" (unityTablesUrl baseUrl)
          [("catalog_name", catalog), ("schema_name", schema)]) Page.offered none pages)) ∧
    (∀ (baseUrl catalog schema : List Char) (answer : List PageRequest →
      Except String (Page String))
      (pages : List (Page String)), Paging.Paged Page.offered pages →
      Paging.Serves (pageRequest "page_token" (unityTablesUrl baseUrl)
        (identifierListingQuery catalog schema)) Page.offered answer pages →
      ∀ fuel, pages.length ≤ fuel → listTableNames baseUrl answer catalog schema fuel =
        .ok (pages.flatMap Page.items, Paging.requests
          (pageRequest "page_token" (unityTablesUrl baseUrl)
          (identifierListingQuery catalog schema)) Page.offered none pages)) ∧
    (∀ (attributes : Option (List String))
      (answer : List GlueRequest → Except String (Page GlueTable)) (pages : List (Page GlueTable)),
      Paging.Paged Page.offered pages →
      Paging.Serves (glueTablesRequest catalog database attributes) Page.offered answer pages →
      ((∀ fuel, pages.length ≤ fuel → glueTables catalog answer database attributes fuel =
        .ok (pages.flatMap Page.items,
          Paging.requests (glueTablesRequest catalog database attributes) Page.offered
            none pages)) ↔
        ∀ page ∈ pages.dropLast, page.items ≠ [])) ∧
    ∀ (φ : Type) (debug : List String → String)
      (table : CatalogTable φ) (answer : List GlueRequest → Except String (Page GluePartition))
      (pages : List (Page GluePartition)),
      glueDatabase table.ident.ns = .ok database → Paging.Paged Page.offered pages →
      Paging.Serves (partitionRequest catalog database table) Page.offered answer pages →
      ((∃ results, List.Forall₂ (fun part made => neutralPartition debug
            (String.ofList (catalogIdentifierString table.ident)) table.partitionColumns part =
              .ok made)
          (pages.flatMap Page.items) results ∧
        ∀ fuel, pages.length ≤ fuel → gluePartitions debug catalog answer table fuel =
          .ok (results, Paging.requests (partitionRequest catalog database table) Page.offered
            none pages)) ↔
        table.partitionColumns ≠ [] ∧
          (∀ page ∈ pages, ∀ part ∈ page.items, part.Plannable table.partitionColumns) ∧
          ∀ page ∈ pages.dropLast, page.items ≠ []) := by
  refine ⟨?_, ?_, ?_, ?_, ?_⟩
  · intro session server tablePages childPages tree emptyNamespace holds
    exact listNamespaceTables_complete_iff holds emptyNamespace
  · intro baseUrl catalog schema answer pages paged serves fuel enough
    exact collect_tokenProtocol paged serves enough
  · intro baseUrl catalog schema answer pages paged serves fuel enough
    exact collect_tokenProtocol paged serves enough
  · intro attributes answer pages paged serves
    exact @collect_glue_iff _ _ (glueTablesProtocol catalog database attributes)
      (fun _ => rfl) answer pages _
      paged serves (mapM_ok pages)
  · intro φ debug table answer pages named paged serves
    exact gluePartitions_complete_iff named paged serves

/-! ### Two listings -/

def plainGlueTable : GlueTable := ⟨"t", none, none, none, []⟩

/-- A page without tables but with a token, and a page with a table. -/
def emptyFirst : List (Page GlueTable) := [⟨[], some "next"⟩, ⟨[plainGlueTable], none⟩]

/-- A server that gives its pages one after the other. -/
def inTurn {ρ : Type} (pages : List (Page ι)) (sent : List ρ) : Except String (Page ι) :=
  match pages[sent.length - 1]? with
  | some page => .ok page
  | none => .error "no such page"

theorem serves_inTurn {ρ : Type} (request : Option String → ρ) (pages : List (Page ι)) :
    Paging.Serves request Page.offered (inTurn pages) pages := by
  rintro before page after rfl
  rw [inTurn, Paging.length_requests, List.length_append, List.length_singleton, Nat.add_sub_cancel,
    List.getElem?_append_right (Nat.le_refl _), Nat.sub_self]
  rfl

theorem empty_page_ends_glue_listing :
    Paging.Paged Page.offered emptyFirst ∧
    Paging.Serves (glueTablesRequest none ['d'] none) Page.offered (inTurn emptyFirst) emptyFirst ∧
    glueTables none (inTurn emptyFirst) ['d'] none 10 =
      .ok ([], [⟨none, ['d'], none, none, none⟩]) ∧
    emptyFirst.flatMap Page.items = [plainGlueTable] :=
  ⟨⟨by decide, by decide, by decide⟩, serves_inTurn _ _, rfl, rfl⟩

/-- Two pages with tables. -/
def bothFilled : List (Page GlueTable) :=
  [⟨[plainGlueTable], some "next"⟩, ⟨[plainGlueTable], none⟩]

theorem catalog_listings_complete_iff_filled :
    glueTables none (inTurn bothFilled) ['d'] none 2 =
      .ok ([plainGlueTable, plainGlueTable],
        [⟨none, ['d'], none, none, none⟩, ⟨none, ['d'], none, none, some "next"⟩]) :=
  ((catalog_listings_complete_iff none ['d']).2.2.2.1 none (inTurn bothFilled) bothFilled
    ⟨by decide, by decide, by decide⟩ (serves_inTurn _ _)).mpr (by
      intro page member
      rw [List.mem_singleton.mp member]
      exact List.cons_ne_nil _ _) 2 (Nat.le_refl 2)

end LakehouseEngine
