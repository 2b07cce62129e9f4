import LakehouseEngine.Catalog.LoadTable
import LakehouseEngine.Data.Fallible
import LakehouseEngine.Data.ListRelation
import LakehouseEngine.Text.Numeral
import Mathlib.Data.List.Perm.Basic

/-!
# The batch check of a Lakekeeper server

One check for each distinct table is sent, under an id made from its index.  An answer
counts only if it has one result for each id and nothing else; the server is not trusted to
send one.
-/

namespace LakehouseEngine

inductive CheckError where
  | ident (cause : IdentError)
  | noManagementUrl (catalogUri : List Char)
  | notCompleted (url : List Char) (cause : String)
  | notAnAnswer (url : List Char) (status checks : ℕ) (body : List Char)
  | answered (url : List Char) (status : ℕ) (body : List Char)
  | denied (user principal : List Char) (tables : List (List Char))
  deriving DecidableEq, Repr

def catalogSegment : List Char := "/catalog".toList

def managementSegment : List Char := "/management".toList

def batchCheckPath : List Char := "/v1/action/batch-check".toList

def stripSuffix (ending text : List Char) : Option (List Char) :=
  if ending <:+ text then some (text.take (text.length - ending.length)) else none

/-- The address of the management API, next to the catalog's. -/
def lakekeeperManagementUrl (rules : Url.Rules) (catalogUri : List Char) :
    Except CheckError (List Char) :=
  let trimmed := (stripSuffix ['/'] catalogUri).getD catalogUri
  let pathEndsInCatalog := (Url.parse rules trimmed).toOption.any fun parsed =>
    catalogSegment <:+ parsed.path ∧ parsed.query = none ∧ parsed.fragment = none
  match stripSuffix catalogSegment trimmed with
  | some base =>
      if pathEndsInCatalog then .ok (base ++ managementSegment)
      else .error (.noManagementUrl catalogUri)
  | none => .error (.noManagementUrl catalogUri)

def distinctInFirstSeenOrder (tables : List (List Char)) : List (List Char) :=
  go [] tables
where
  go (seen : List (List Char)) : List (List Char) → List (List Char)
    | [] => []
    | table :: rest => if table ∈ seen then go seen rest else table :: go (table :: seen) rest

def readCheckId : String := "read-data"

def checkId (index : ℕ) : String :=
  if index = 0 then readCheckId else readCheckId ++ "-" ++ toString index

structure TableCheck where
  id : String
  user : List Char
  warehouseId : List Char
  ns : List (List Char)
  table : List Char
  action : String
  deriving DecidableEq, Repr

structure BatchCheckRequest where
  checks : List TableCheck
  errorOnNotFound : Bool
  deriving DecidableEq, Repr

structure CheckResult where
  id : String
  allowed : Bool
  deriving DecidableEq, Repr

structure TableReadDecision where
  table : List Char
  allowed : Bool
  deriving DecidableEq, Repr

def buildBatchCheck (principal : List Char) (tables : List (List Char)) (warehouseId : List Char) :
    Except IdentError BatchCheckRequest := do
  let checks ← tables.zipIdx.mapM fun (qualified, index) => do
    let (ns, table) ← parseTableIdent qualified
    return { id := checkId index, user := principal, warehouseId, ns := ns.levels, table,
             action := "read_data" }
  return { checks, errorOnNotFound := false }

/-- One more result by its id, none if the id is known. -/
def recordResult (byId : List (String × Bool)) (result : CheckResult) :
    Option (List (String × Bool)) :=
  if (byId.lookup result.id).isSome then none else some ((result.id, result.allowed) :: byId)

def allowedById (results : List CheckResult) : Option (List (String × Bool)) :=
  results.foldlM recordResult []

/-- One decision for each table, if the results are exactly those of the checks. -/
def readDecisions (distinct : List (List Char)) (results : List CheckResult) :
    Option (List TableReadDecision) := do
  let byId ← allowedById results
  if byId.length ≠ distinct.length then none
  else
    distinct.zipIdx.mapM fun (table, index) =>
      (byId.lookup (checkId index)).map fun allowed => { table, allowed }

inductive PostAnswer where
  | accepted (status : ℕ) (body : List Char)
  | refused (status : ℕ) (body : List Char)
  deriving DecidableEq, Repr

/-- A Lakekeeper catalog, with how a JSON body is read as a list of results. -/
structure Lakekeeper where
  rules : Url.Rules
  session : CatalogSession
  results : List Char → Option (List CheckResult)

namespace Lakekeeper

/-- The URL and the request for some tables, none if there are no tables. -/
def request (server : Lakekeeper) (principal : List Char) (tables : List (List Char)) :
    Except CheckError (Option (List Char × BatchCheckRequest)) :=
  let distinct := distinctInFirstSeenOrder tables
  if distinct = [] then .ok none
  else do
    let base ← lakekeeperManagementUrl server.rules server.session.catalogUri
    let request ← (buildBatchCheck principal distinct server.session.restPrefix).mapError .ident
    return some (base ++ batchCheckPath, request)

/-- The decisions that the outcome of the POST gives. -/
def batchCheck (server : Lakekeeper) (principal : List Char) (tables : List (List Char))
    (outcome : Except String PostAnswer) : Except CheckError (List TableReadDecision) := do
  match ← server.request principal tables with
  | none => return []
  | some (url, _) =>
      let distinct := distinctInFirstSeenOrder tables
      match outcome with
      | .error cause => .error (.notCompleted url cause)
      | .ok (.refused status body) => .error (.answered url status body)
      | .ok (.accepted status body) =>
          match (server.results body).bind (readDecisions distinct) with
          | none => .error (.notAnAnswer url status distinct.length body)
          | some decisions => return decisions

end Lakekeeper

/-! ## Authorizing -/

/-- The user of a request, and the principal it is mapped to. -/
structure PermissionGate where
  user : List Char
  principal : List Char
  deriving DecidableEq, Repr

namespace PermissionGate

/-- The tables without an allowing decision, each once. -/
def denied (tables : List (List Char)) (decisions : List TableReadDecision) : List (List Char) :=
  tables.foldl (fun denied table =>
    if (decisions.any fun decision => decision.table = table && decision.allowed) ||
      denied.contains table then denied else denied ++ [table]) []

def verdict (gate : PermissionGate) (tables : List (List Char))
    (decisions : List TableReadDecision) :
    Except CheckError Unit :=
  let denied := denied tables decisions
  if denied = [] then .ok () else .error (.denied gate.user gate.principal denied)

def authorize (gate : PermissionGate) (server : Lakekeeper) (tables : List (List Char))
    (outcome : Except String PostAnswer) : Except CheckError Unit := do
  let decisions ← server.batchCheck gate.principal tables outcome
  gate.verdict tables decisions

end PermissionGate

/-! ## What an answer that counts is -/

/-- One result for each check under its own id, nothing else, and all allowed. -/
structure Granted (request : BatchCheckRequest) (results : List CheckResult) : Prop where
  distinct : (request.checks.map (·.id)).Nodup
  ids : (results.map (·.id)).Perm (request.checks.map (·.id))
  allowed : ∀ result ∈ results, result.allowed = true

theorem checkId_injective : Function.Injective checkId := by
  intro first second same
  have length (index : ℕ) : (readCheckId ++ "-" ++ toString index).length ≠ readCheckId.length := by
    have dash : "-".length = 1 := rfl
    rw [String.length_append, String.length_append]
    omega
  unfold checkId at same
  split_ifs at same with firstZero secondZero secondZero
  · rw [firstZero, secondZero]
  · exact absurd (congrArg String.length same).symm (length second)
  · exact absurd (congrArg String.length same) (length first)
  · exact Text.natToString_inj ((String.append_right_inj _).mp same)

section Distinct

theorem mem_distinct_go {seen tables : List (List Char)} {table : List Char} :
    table ∈ distinctInFirstSeenOrder.go seen tables ↔ table ∈ tables ∧ table ∉ seen := by
  induction tables generalizing seen with
  | nil => simp [distinctInFirstSeenOrder.go]
  | cons first rest ih =>
      rw [distinctInFirstSeenOrder.go]
      split
      case isTrue known =>
        rw [ih, List.mem_cons]
        constructor
        · rintro ⟨member, fresh⟩
          exact ⟨.inr member, fresh⟩
        · rintro ⟨rfl | member, fresh⟩
          · exact absurd known fresh
          · exact ⟨member, fresh⟩
      case isFalse fresh =>
        rw [List.mem_cons, ih, List.mem_cons, List.mem_cons, not_or]
        constructor
        · rintro (rfl | ⟨member, other, unseen⟩)
          · exact ⟨.inl rfl, fresh⟩
          · exact ⟨.inr member, unseen⟩
        · rintro ⟨rfl | member, unseen⟩
          · exact .inl rfl
          · by_cases same : table = first
            · exact .inl same
            · exact .inr ⟨member, same, unseen⟩

theorem nodup_distinct_go (seen tables : List (List Char)) :
    (distinctInFirstSeenOrder.go seen tables).Nodup := by
  induction tables generalizing seen with
  | nil => exact .nil
  | cons first rest ih =>
      rw [distinctInFirstSeenOrder.go]
      split
      · exact ih seen
      · rw [List.nodup_cons, mem_distinct_go]
        exact ⟨by simp, ih _⟩

theorem mem_distinctInFirstSeenOrder {tables : List (List Char)} {table : List Char} :
    table ∈ distinctInFirstSeenOrder tables ↔ table ∈ tables := by
  rw [distinctInFirstSeenOrder, mem_distinct_go]
  simp

end Distinct

section Request

variable {principal warehouseId : List Char} {tables : List (List Char)}
    {request : BatchCheckRequest}

theorem buildBatchCheck_ids (built : buildBatchCheck principal tables warehouseId = .ok request) :
    request.checks.map (·.id) = (List.range tables.length).map checkId := by
  obtain ⟨checks, parsed, result⟩ := exists_of_bind_ok built
  cases result
  have indices : tables.zipIdx.map (·.2) = List.range tables.length := by
    simp [List.zipIdx_map_snd, List.range_eq_range']
  rw [← indices, List.map_map]
  apply map_of_mapM_ok parsed
  rintro ⟨table, index⟩ check converted
  obtain ⟨ident, -, result⟩ := exists_of_bind_ok converted
  cases result
  rfl

theorem buildBatchCheck_names (built : buildBatchCheck principal tables warehouseId = .ok request)
    {table : List Char} (member : table ∈ tables) :
    ∃ ns name, parseTableIdent table = .ok (ns, name) ∧
      ∃ check ∈ request.checks, check.user = principal ∧ check.ns = ns.levels ∧
        check.table = name := by
  obtain ⟨checks, parsed, result⟩ := exists_of_bind_ok built
  cases result
  obtain ⟨index, here⟩ : ∃ index, (table, index) ∈ tables.zipIdx := by
    obtain ⟨index, here⟩ := List.getElem?_of_mem member
    exact ⟨index, List.mk_mem_zipIdx_iff_getElem?.mpr here⟩
  obtain ⟨check, converted⟩ := exists_of_mapM_ok parsed _ here
  have sent := (mem_of_mapM_ok parsed check).mpr ⟨_, here, converted⟩
  obtain ⟨⟨ns, name⟩, ident, result⟩ := exists_of_bind_ok converted
  cases result
  exact ⟨ns, name, ident, _, sent, rfl, rfl, rfl⟩

end Request

variable {results : List CheckResult}

theorem recordResults_eq {known byId : List (String × Bool)}
    (read : results.foldlM recordResult known = some byId) :
    (results.map (·.id)).Nodup ∧ (∀ result ∈ results, known.lookup result.id = none) ∧
      byId = (results.map fun result => (result.id, result.allowed)).reverse ++ known := by
  induction results generalizing known with
  | nil =>
      cases read
      simp
  | cons result results ih =>
      rw [List.foldlM_cons, recordResult] at read
      split_ifs at read with seen
      · cases read
      · obtain ⟨distinct, fresh, shape⟩ := ih read
        have unseen : known.lookup result.id = none := Option.not_isSome_iff_eq_none.mp seen
        have others : ∀ other ∈ results, other.id ≠ result.id ∧ known.lookup other.id = none := by
          intro other member
          have missing := fresh other member
          rw [List.lookup_cons] at missing
          split at missing
          · cases missing
          case h_2 different => exact ⟨by simpa using different, missing⟩
        refine ⟨?_, ?_, by simpa using shape⟩
        · rw [List.map_cons, List.nodup_cons]
          refine ⟨?_, distinct⟩
          intro member
          obtain ⟨other, inResults, same⟩ := List.mem_map.mp member
          exact (others other inResults).1 same
        · intro other member
          rcases List.mem_cons.mp member with rfl | member
          · exact unseen
          · exact (others other member).2

theorem allowedById_eq {byId : List (String × Bool)}
    (read : allowedById results = some byId) :
    (results.map (·.id)).Nodup ∧
      byId = (results.map fun result => (result.id, result.allowed)).reverse := by
  obtain ⟨distinct, -, shape⟩ := recordResults_eq read
  exact ⟨distinct, by simpa using shape⟩

theorem lookup_allowedById {byId : List (String × Bool)}
    (read : allowedById results = some byId) {id : String} {allowed : Bool} :
    byId.lookup id = some allowed ↔ ⟨id, allowed⟩ ∈ results := by
  obtain ⟨distinct, rfl⟩ := allowedById_eq read
  have keys : ((results.map fun result => (result.id, result.allowed)).reverse.map
    (·.1)).Nodup := by
    rw [List.map_reverse, List.nodup_reverse, List.map_map]
    exact distinct
  rw [lookup_eq_some_iff_mem keys, List.mem_reverse, List.mem_map]
  constructor
  · rintro ⟨result, member, same⟩
    cases same
    exact member
  · intro member
    exact ⟨_, member, rfl⟩

/-- The decisions of an answer that counts: its ids are those of the checks, and each table
has the result of its own check. -/
theorem readDecisions_eq {distinct : List (List Char)}
    {decisions : List TableReadDecision} (read : readDecisions distinct results = some decisions) :
    (results.map (·.id)).Perm ((List.range distinct.length).map checkId) ∧
      List.Forall₂ (fun (item : List Char × ℕ) decision =>
        decision.table = item.1 ∧ ⟨checkId item.2, decision.allowed⟩ ∈ results)
          distinct.zipIdx decisions := by
  unfold readDecisions at read
  rw [Option.bind_eq_bind, Option.bind_eq_some_iff] at read
  obtain ⟨byId, recorded, read⟩ := read
  split_ifs at read with length
  obtain ⟨unique, shape⟩ := allowedById_eq recorded
  have count : results.length = distinct.length := by
    rw [not_not, shape, List.length_reverse, List.length_map] at length
    exact length
  have each : List.Forall₂ (fun (item : List Char × ℕ) decision =>
      decision.table = item.1 ∧ ⟨checkId item.2, decision.allowed⟩ ∈ results)
        distinct.zipIdx decisions := by
    apply (forall₂_of_mapM read).imp
    rintro ⟨table, index⟩ decision found
    obtain ⟨allowed, here, rfl⟩ := Option.map_eq_some_iff.mp found
    exact ⟨rfl, (lookup_allowedById recorded).mp here⟩
  refine ⟨?_, each⟩
  have covered : (List.range distinct.length).map checkId ⊆ results.map (·.id) := by
    intro id member
    obtain ⟨index, inRange, rfl⟩ := List.mem_map.mp member
    rw [List.mem_range] at inRange
    obtain ⟨decision, -, -, answered⟩ := exists_related_of_mem each.flip
      (List.mk_mem_zipIdx_iff_getElem?.mpr (List.getElem?_eq_getElem inRange))
    exact List.mem_map.mpr ⟨_, answered, rfl⟩
  have ids : ((List.range distinct.length).map checkId).Nodup :=
    List.nodup_range.map checkId_injective
  exact ((List.subperm_of_subset ids covered).perm_of_length_le (by simp [count])).symm

theorem Lakekeeper.request_cases {server : Lakekeeper} {principal : List Char}
    {tables : List (List Char)} {sent : Option (List Char × BatchCheckRequest)}
    (prepared : server.request principal tables = .ok sent) :
    tables = [] ∧ sent = none ∨ ∃ url request, sent = some (url, request) ∧
      buildBatchCheck principal (distinctInFirstSeenOrder tables) server.session.restPrefix =
        .ok request := by
  unfold Lakekeeper.request at prepared
  simp only at prepared
  split_ifs at prepared with empty
  · cases prepared
    refine .inl ⟨List.eq_nil_iff_forall_not_mem.mpr fun table member => ?_, rfl⟩
    rw [← mem_distinctInFirstSeenOrder, empty] at member
    cases member
  · obtain ⟨base, -, prepared⟩ := exists_of_bind_ok prepared
    obtain ⟨request, built, prepared⟩ := exists_of_bind_ok prepared
    cases prepared
    refine .inr ⟨_, request, rfl, ?_⟩
    cases parsed : buildBatchCheck principal (distinctInFirstSeenOrder tables)
        server.session.restPrefix with
    | error error => simp [parsed, Except.mapError] at built
    | ok other => simpa [parsed, Except.mapError] using built

namespace PermissionGate

theorem denied_eq_nil_iff {tables : List (List Char)} {decisions : List TableReadDecision} :
    denied tables decisions = [] ↔
      ∀ table ∈ tables, ∃ decision ∈ decisions, decision.table = table ∧
        decision.allowed = true := by
  have general (known : List (List Char)) : tables.foldl (fun denied table =>
      if (decisions.any fun decision => decision.table = table && decision.allowed) ||
        denied.contains table then denied else denied ++ [table]) known = [] ↔
      known = [] ∧
        ∀ table ∈ tables, ∃ decision ∈ decisions, decision.table = table ∧
          decision.allowed = true := by
    induction tables generalizing known with
    | nil => simp
    | cons table tables ih =>
        rw [List.foldl_cons, ih, List.forall_mem_cons]
        by_cases allowed : ∃ decision ∈ decisions, decision.table = table ∧ decision.allowed = true
        · have found : (decisions.any fun decision => decision.table = table && decision.allowed) =
              true := by
            simpa using allowed
          simp only [found, Bool.true_or, if_true, allowed, true_and]
        · have missing : (decisions.any fun decision =>
            decision.table = table && decision.allowed) =
              false := by
            rw [Bool.eq_false_iff]
            intro found
            exact allowed (by simpa using found)
          simp only [missing, Bool.false_or, allowed, false_and, and_false, iff_false]
          rintro ⟨empty, -⟩
          split_ifs at empty with listed
          · simp [empty] at listed
          · simp at empty
  rw [denied, general]
  simp

variable {gate : PermissionGate} {server : Lakekeeper} {tables : List (List Char)}
  {outcome : Except String PostAnswer}

/-- Decisions that let a request pass come from results that are all allowed. -/
theorem granted_of_decisions {principal warehouseId : List Char} {request : BatchCheckRequest}
    {results : List CheckResult} {decisions : List TableReadDecision}
    (built : buildBatchCheck principal (distinctInFirstSeenOrder tables) warehouseId = .ok request)
    (read : readDecisions (distinctInFirstSeenOrder tables) results = some decisions)
    (passed : denied tables decisions = []) : Granted request results := by
  have ids := buildBatchCheck_ids built
  have sent : (request.checks.map (·.id)).Nodup := by
    rw [ids]
    exact List.nodup_range.map checkId_injective
  obtain ⟨perm, each⟩ := readDecisions_eq read
  rw [← ids] at perm
  refine ⟨sent, perm, ?_⟩
  intro result member
  have unique : (results.map (·.id)).Nodup := perm.nodup_iff.mpr sent
  -- the check of the result, and the decision that lets its table pass
  obtain ⟨index, inRange, own⟩ : ∃ index < (distinctInFirstSeenOrder tables).length,
      checkId index = result.id := by
    have listed : result.id ∈ request.checks.map (·.id) := perm.subset (List.mem_map_of_mem member)
    rw [ids] at listed
    simpa using listed
  obtain ⟨decision, inDecisions, named, allowed⟩ := denied_eq_nil_iff.mp passed
    (distinctInFirstSeenOrder tables)[index]
    (mem_distinctInFirstSeenOrder.mp (List.getElem_mem inRange))
  obtain ⟨⟨table, position⟩, inOrder, same, answered⟩ := exists_related_of_mem each inDecisions
  have here : index = position := by
    apply (List.getElem?_inj inRange (nodup_distinct_go [] tables)).mp
    rw [List.getElem?_eq_getElem inRange, List.mk_mem_zipIdx_iff_getElem?.mp inOrder, ← named, same]
  have result_eq := List.inj_on_of_nodup_map unique member answered (by rw [← own, here])
  rw [result_eq]
  exact allowed

/-- An authorized batch was sent, and its answer grants every check. -/
theorem granted_of_authorize (nonempty : tables ≠ [])
    (authorized : gate.authorize server tables outcome = .ok ()) :
    ∃ url request status body results, server.request gate.principal tables =
      .ok (some (url, request)) ∧
      outcome = .ok (.accepted status body) ∧ server.results body = some results ∧
      Granted request results := by
  obtain ⟨decisions, checked, accepted⟩ := exists_of_bind_ok authorized
  obtain ⟨sent, prepared, checked⟩ := exists_of_bind_ok checked
  have passed : denied tables decisions = [] := by
    unfold verdict at accepted
    simp only at accepted
    split_ifs at accepted with empty
    exact empty
  obtain ⟨empty, -⟩ | ⟨url, request, rfl, built⟩ := Lakekeeper.request_cases prepared
  · exact absurd empty nonempty
  simp only at checked
  split at checked
  · cases checked
  · cases checked
  case h_3 status body _ =>
    split at checked
    · cases checked
    case h_2 found =>
      cases checked
      obtain ⟨results, read, decided⟩ := Option.bind_eq_some_iff.mp found
      exact ⟨url, request, status, body, results, prepared, rfl, read,
        granted_of_decisions built decided passed⟩

end PermissionGate

end LakehouseEngine
