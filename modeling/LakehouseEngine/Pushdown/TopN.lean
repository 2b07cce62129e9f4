import LakehouseEngine.Scan.SortOrder

/-!
# Single-table top-N

`ORDER BY` bare projected columns with a `LIMIT` runs on every shard and once more over
the union of the shards' rows.  Both sorts use the same keys, but the shard ranks what
its files hold and the merge ranks what the shards emit.  The result is the single-node
one for every split of the rows exactly when no two rows are ranked one way by the scan
and the other way by Exasol.
-/

namespace LakehouseEngine

/-! ## The request -/

/-- An `orderBy` element.  A flag that is no JSON boolean is `none`. -/
structure OrderElement where
  expression : Node
  isAscending : Option Bool
  nullsLast : Option Bool

/-- The `limit` object.  A field that is no unsigned integer is `none`. -/
structure Limit where
  numElements : Option ℕ
  offset : Option ℕ := none

/-- The parts of a pushdown request that decide its window. -/
structure PushdownRequest where
  selectList : Option (List Node) := none
  aggregationType : Option String := none
  groupBy : Option (List Node) := none
  having : Node := .absent
  orderBy : Option (List OrderElement) := none
  limit : Option Limit := none

namespace PushdownRequest

def extractLimit (request : PushdownRequest) : Option ℕ := do
  (← request.limit).numElements

/-- An absent offset and a zero one are the same request. -/
def extractOffset (request : PushdownRequest) : ℕ :=
  (request.limit.bind Limit.offset).getD 0

/-- The same query under another `LIMIT`. -/
def withLimit (request : PushdownRequest) (n : ℕ) : PushdownRequest :=
  { request with limit := some ⟨some n, none⟩ }

end PushdownRequest

/-- A table column with the Arrow type its tag stands for. -/
structure LogicalField where
  name : String
  arrowType : ArrowType

/-- The parts of the scan spec that window its rows. -/
structure ScanSpec where
  limit : Option ℕ
  orderBy : List SortKey
  deriving DecidableEq

section Planning

variable [Unicode]

/-- A key that is no bare column, or lacks a flag, is declined. -/
def parseSortKeyElement (element : OrderElement) : Option SortKey := do
  let column ← columnNodeRef element.expression
  let ascending ← element.isAscending
  let nullsLast ← element.nullsLast
  some { column, ascending, nullsLast }

/-- The checks `detect_topn` makes of one element. -/
def topnKey (projCols : List ProjectionItem) (logicalSchema : List LogicalField)
    (element : OrderElement) : Option SortKey := do
  let key ← parseSortKeyElement element
  guard (.column key.column ∈ projCols)
  let field ← logicalSchema.find? fun field => upper field.name == key.column.name
  guard (!needsJsonFallback field.arrowType)
  some key

/-- `detect_topn`, over the number of the request's `involvedTables`. -/
def detectTopn (tableCount : ℕ) (request : PushdownRequest) (projCols : List ProjectionItem)
    (logicalSchema : List LogicalField) : Option (List SortKey) := do
  let _ ← request.extractLimit
  guard (request.extractOffset = 0)
  guard (request.aggregationType ≠ some "group_by")
  guard (request.groupBy.getD []).isEmpty
  guard request.having.isAbsent
  guard (tableCount = 1)
  let elements ← request.orderBy
  guard (!elements.isEmpty)
  elements.mapM (topnKey projCols logicalSchema)

/-- The scan spec `build_dispatch_sql` makes of a matched top-N. -/
def topnSpec (tableCount : ℕ) (request : PushdownRequest) (projection : List ProjectedColumn)
    (logicalSchema : List LogicalField) : Option ScanSpec :=
  (detectTopn tableCount request (projectionItems projection) logicalSchema).map fun orderBy =>
    { limit := request.extractLimit, orderBy }

/-- An accepted query is accepted under every other limit, with the same keys. -/
theorem topnSpec_withLimit {tableCount : ℕ} {request : PushdownRequest}
    {projection : List ProjectedColumn} {logicalSchema : List LogicalField} {spec : ScanSpec}
    (accepted : topnSpec tableCount request projection logicalSchema = some spec) (n : ℕ) :
    topnSpec tableCount (request.withLimit n) projection logicalSchema =
      some { limit := some n, orderBy := spec.orderBy } := by
  obtain ⟨keys, detected, rfl⟩ := Option.map_eq_some_iff.mp accepted
  have again : detectTopn tableCount (request.withLimit n) (projectionItems projection)
      logicalSchema = some keys := by
    simp only [detectTopn, Option.bind_eq_bind, Option.bind_eq_some_iff] at detected ⊢
    obtain ⟨_, -, _, -, guards⟩ := detected
    exact ⟨n, rfl, (), rfl, guards⟩
  rw [topnSpec, again]
  rfl

end Planning

/-! ## Running the plan -/

namespace ScanSpec

/-- `build_scan_sql` on one shard's rows. -/
def ShardReturns (spec : ScanSpec) : List ScannedRow → List ScannedRow → Prop :=
  Ranking.IsTop (scanOrder spec.orderBy) spec.limit

/-- `build_row_scan_sql`: the shards' rows sorted and cut again, as Exasol receives them. -/
def Returns (spec : ScanSpec) (projection : List ProjectedColumn)
    (shards : List (List ScannedRow)) (result : List ScannedRow) : Prop :=
  ∃ tops, List.Forall₂ spec.ShardReturns shards tops ∧
    Ranking.IsTop (emittedOrder projection spec.orderBy) spec.limit tops.flatten result

end ScanSpec

/-- The rows one node would return: all rows sorted as Exasol receives them, then cut. -/
def SingleNode (projection : List ProjectedColumn) (keys : List SortKey) (limit : Option ℕ) :
    List ScannedRow → List ScannedRow → Prop :=
  Ranking.IsTop (emittedOrder projection keys) limit

/-- A merged top-N is a single-node one when the two orders have no inversion. -/
theorem ScanSpec.Returns.singleNode {projection : List ProjectedColumn} {keys : List SortKey}
    {n : ℕ} {rows : List ScannedRow}
    (agree : Ranking.NoInversion (scanOrder keys) (emittedOrder projection keys) rows)
    {shards : List (List ScannedRow)} (split : shards.flatten.Perm rows)
    {result : List ScannedRow} (returned : (ScanSpec.mk (some n) keys).Returns projection shards
      result) :
    SingleNode projection keys (some n) rows result := by
  obtain ⟨tops, each, merged⟩ := returned
  have whole := Ranking.isTop_of_noInversion (emittedOrder_eq_of_scanOrder_eq projection)
    (agree.mono split.subset) each merged
  exact whole.of_perm split

/-- On one shard, the merge returns the rows the shard kept. -/
theorem ScanSpec.returns_single {projection : List ProjectedColumn} {keys : List SortKey} {n : ℕ}
    {rows sorted kept : List ScannedRow} (sort : Ranking.IsSortOf (scanOrder keys) rows sorted)
    (resort : Ranking.IsSortOf (emittedOrder projection keys) (sorted.take n) kept) :
    (ScanSpec.mk (some n) keys).Returns projection [rows] kept := by
  refine ⟨[sorted.take n], .cons ⟨sorted, sort, rfl⟩ .nil, kept, by simpa using resort, ?_⟩
  have short : kept.length ≤ n := by
    rw [resort.perm.length_eq]
    exact List.length_take_le n sorted
  rw [Ranking.cap, List.take_of_length_le short]

section TopN

variable [Unicode]

/-- A matched top-N has the single-node sort-key values, under every split and every limit,
exactly when no two rows are ranked one way by the scan and the other way by Exasol. -/
theorem topn_equals_single_node_iff (tableCount : ℕ) (request : PushdownRequest)
    (projection : List ProjectedColumn) (logicalSchema : List LogicalField) (spec : ScanSpec)
    (accepted : topnSpec tableCount request projection logicalSchema = some spec)
    (rows : List ScannedRow) :
    (∀ n limited, topnSpec tableCount (request.withLimit n) projection logicalSchema =
        some limited →
      ∀ shards : List (List ScannedRow), shards.flatten.Perm rows →
      ∀ result, limited.Returns projection shards result →
      ∀ expected, SingleNode projection limited.orderBy (some n) rows expected →
        result.map (keyValues projection limited.orderBy) =
          expected.map (keyValues projection limited.orderBy)) ↔
      Ranking.NoInversion (scanOrder spec.orderBy) (emittedOrder projection spec.orderBy) rows := by
  have keyed := emittedOrder_eq projection spec.orderBy
  constructor
  · intro equal
    apply Ranking.noInversion_of_take fun first second => (keyed first second).mpr
    intro n sorted expected sort expectedSort
    obtain ⟨kept, resort⟩ :=
      Ranking.exists_isSortOf (emittedOrder projection spec.orderBy) (sorted.take n)
    have same := equal n _ (topnSpec_withLimit accepted n) [rows] (by simp) kept
      (ScanSpec.returns_single sort resort) _ ⟨expected, expectedSort, rfl⟩
    have moved := resort.perm.map (keyValues projection spec.orderBy)
    rw [same] at moved
    exact moved.symm
  · intro agree n limited planned shards split result returned expected single
    rw [topnSpec_withLimit accepted n] at planned
    cases planned
    exact (ScanSpec.Returns.singleNode agree split returned).map_eq
      (fun first second => (keyed first second).mp) single

end TopN

section Instances

local instance topnUnicode : Unicode := Unicode.ascii

/-- `SELECT NAME FROM T ORDER BY NAME ASC NULLS LAST LIMIT n`. -/
def byName : PushdownRequest where
  orderBy := some [⟨.column ⟨"name", none, none⟩, some true, some true⟩]
  limit := some ⟨some 1, none⟩

def nameKey : SortKey := ⟨⟨none, "NAME"⟩, true, true⟩

def nameProjection : List ProjectedColumn := [⟨.column ⟨none, "NAME"⟩, .widestVarchar⟩]

def nameSchema : List LogicalField := [⟨"name", .utf8⟩]

def nameRow (name : String) : ScannedRow := fun _ => .text name

/-- The shard ranks `''` first and keeps it, Exasol receives NULL and would rank it last. -/
theorem empty_text_displaces_row :
    ∃ spec result expected,
      topnSpec 1 byName nameProjection nameSchema = some spec ∧
      spec.Returns nameProjection [[nameRow "", nameRow "a"]] result ∧
      SingleNode nameProjection spec.orderBy spec.limit [nameRow "", nameRow "a"] expected ∧
      result.map (keyValues nameProjection spec.orderBy) = [[.null]] ∧
      expected.map (keyValues nameProjection spec.orderBy) = [[.text "a"]] := by
  refine ⟨⟨some 1, [nameKey]⟩, [nameRow ""], [nameRow "a"], by decide +kernel, ?_, ?_,
    by decide +kernel, by decide +kernel⟩
  · have sort : Ranking.IsSortOf (scanOrder [nameKey]) [nameRow "", nameRow "a"]
        [nameRow "", nameRow "a"] :=
      ⟨List.Perm.refl _, by simp only [Ranking.Ordered]; decide +kernel⟩
    exact ScanSpec.returns_single sort ⟨List.Perm.refl _, List.pairwise_singleton _ _⟩
  · refine ⟨[nameRow "a", nameRow ""], ⟨List.Perm.swap _ _ [], ?_⟩, rfl⟩
    simp only [Ranking.Ordered]
    decide +kernel

theorem topn_equals_single_node_names :
    topnSpec 1 byName nameProjection nameSchema = some ⟨some 1, [nameKey]⟩ ∧
    ∀ n limited, topnSpec 1 (byName.withLimit n) nameProjection nameSchema = some limited →
      ∀ shards : List (List ScannedRow), shards.flatten.Perm [nameRow "b", nameRow "a"] →
      ∀ result, limited.Returns nameProjection shards result →
      ∀ expected, SingleNode nameProjection limited.orderBy (some n) [nameRow "b", nameRow "a"]
        expected →
        result.map (keyValues nameProjection limited.orderBy) =
          expected.map (keyValues nameProjection limited.orderBy) :=
  have accepted : topnSpec 1 byName nameProjection nameSchema = some ⟨some 1, [nameKey]⟩ := by
    decide +kernel
  ⟨accepted, (topn_equals_single_node_iff 1 byName nameProjection nameSchema _ accepted _).mpr (by
    simp only [Ranking.NoInversion]
    decide +kernel)⟩

end Instances

end LakehouseEngine
