import LakehouseEngine.Data.ListRelation
import LakehouseEngine.Pushdown.TopN

/-!
# The window of a broadcast join

Every shard joins its fact rows with the whole dimension.  Where the window goes
depends on its shape: a bare `LIMIT` cuts each shard and the union again, an `ORDER BY`
is applied by a wrapper around the union, and with a `LIMIT` and no `OFFSET` each shard
also keeps only its own first rows, ranked by the value it emits.
-/

namespace LakehouseEngine

namespace PushdownRequest

def isAggregateItem : Node → Bool
  | .functionAggregate _ _ _ => true
  | _ => false

/-- Any aggregation is left to Exasol over the materialized join. -/
def carriesAggregationClause (request : PushdownRequest) : Bool :=
  (request.selectList.getD []).any isAggregateItem || !(request.groupBy.getD []).isEmpty ||
    request.aggregationType == some "group_by" || !request.having.isAbsent

/-- The same query under another window.  Exasol sends an offset only with a limit. -/
def withWindow (request : PushdownRequest) (window : Option (ℕ × ℕ)) : PushdownRequest :=
  { request with limit := window.map fun (n, m) => ⟨some n, some m⟩ }

end PushdownRequest

/-- How a join's window is served. -/
inductive JoinWindowPlan where
  | unbounded
  | bareLimit (n : ℕ)
  | ordered (keys : List SortKey) (limit : Option ℕ) (offset : ℕ)
  | exasolPostProcessed
  deriving DecidableEq

/-- What each level of the plan sorts and cuts. -/
structure BroadcastWindowPlacement where
  shardCap : Option ℕ := none
  shardOrderBy : List SortKey := []
  mergeCap : Option ℕ := none
  wrapper : Option (List SortKey × Option ℕ × ℕ) := none
  deriving DecidableEq

/-- A key binds to a projected column of its own relation. -/
def boundSortKey (projection : List ProjectedColumn) (key : SortKey) : Option SortKey :=
  if projection.any fun projected => projected.item == .column key.column then some key else none

/-- `none` falls through to the wrapper over plain scans. -/
def placeBroadcastWindow (window : JoinWindowPlan) (projection : List ProjectedColumn) :
    Option BroadcastWindowPlacement :=
  match window with
  | .unbounded => some {}
  | .bareLimit n => some { shardCap := some n, mergeCap := some n }
  | .ordered keys limit offset =>
      (keys.mapM (boundSortKey projection)).map fun boundKeys =>
        match offset, limit with
        | 0, some n =>
            { shardCap := some n, shardOrderBy := boundKeys, wrapper := some (keys, limit, offset) }
        | _, _ => { wrapper := some (keys, limit, offset) }
  | .exasolPostProcessed => none

section Planning

variable [Unicode]

def classifyJoinWindow (request : PushdownRequest) : JoinWindowPlan :=
  if request.carriesAggregationClause then .exasolPostProcessed
  else
    match request.orderBy.getD [] with
    | [] =>
        -- A per-shard offset does not compose.
        if request.extractOffset ≠ 0 then .exasolPostProcessed
        else
          match request.extractLimit with
          | some n => .bareLimit n
          | none => .unbounded
    | elements =>
        match elements.mapM parseSortKeyElement with
        | some keys => .ordered keys request.extractLimit request.extractOffset
        | none => .exasolPostProcessed

/-- The joined relations' columns with their Arrow types. -/
abbrev CombinedFields := List (ColumnRef × ArrowType)

def combinedType (column : ColumnRef) (combined : CombinedFields) : Option ArrowType :=
  (combined.find? fun (field, _) => field == { column with name := upper column.name }).map
    Prod.snd

/-- `CASE WHEN isnan(c) THEN NULL ELSE c END`. -/
def nanAsNull : Cell → Cell
  | .float (.nan _ _) => .null
  | cell => cell

/-- `nullif(c, '')`. -/
def emptyAsNull (cell : Cell) : Cell := if cell = .text "" then .null else cell

/-- `render_join_sort_target`: what a shard ranks a key column by. -/
def joinSortTarget (type : Option ArrowType) (cell : Cell) : Cell :=
  match type with
  | some .float32 | some .float64 => nanAsNull cell
  | some type => if (arrowToExasolType type).isCharacter then emptyAsNull cell else cell
  | none => cell

/-- A join shard's sort of its rows. -/
def joinOrder (combined : CombinedFields) (keys : List SortKey) :
    ScannedRow → ScannedRow → Ordering :=
  orderByKeys
    (fun key row => (joinSortTarget (combinedType key.column combined) (key.cell row)).rank) keys

instance joinOrder_transCmp (combined : CombinedFields) (keys : List SortKey) :
    Std.TransCmp (joinOrder combined keys) :=
  orderByKeys_transCmp _ keys

end Planning

@[simp] theorem emitted_nanAsNull (cell : Cell) (declared : ExasolType) :
    (nanAsNull cell).emitted declared = cell.emitted declared := by
  cases cell with
  | float value => cases value <;> rfl
  | _ => rfl

@[simp] theorem emitted_emptyAsNull (cell : Cell) (declared : ExasolType) :
    (emptyAsNull cell).emitted declared = cell.emitted declared := by
  unfold emptyAsNull
  split
  · next empty =>
      rw [empty]
      rfl
  · rfl

/-- The rewritten target is emitted as the column itself is. -/
theorem emitted_joinSortTarget (type : Option ArrowType) (cell : Cell) (declared : ExasolType) :
    (joinSortTarget type cell).emitted declared = cell.emitted declared := by
  unfold joinSortTarget
  split
  · exact emitted_nanAsNull cell declared
  · exact emitted_nanAsNull cell declared
  · split
    · exact emitted_emptyAsNull cell declared
    · rfl
  · rfl

theorem emittedOrder_eq_of_joinOrder_eq [Unicode] (projection : List ProjectedColumn)
    {combined : CombinedFields} {keys : List SortKey} (first second : ScannedRow)
    (tied : joinOrder combined keys first second = .eq) :
    emittedOrder projection keys first second = .eq := by
  rw [joinOrder, orderByKeys_eq] at tied
  rw [emittedOrder, orderByKeys_eq]
  intro key member
  have same := Cell.rank_injective (tied key member)
  have emitted := congrArg (Cell.emitted (declaredType projection key.column)) same
  rw [emitted_joinSortTarget, emitted_joinSortTarget] at emitted
  simp only [SortKey.emitted, emitted]

/-! ## Running the plan -/

/-- An inner join's two row sets, the pairs its condition and filter keep, and the row a
pair is scanned as. -/
structure Join (Fact Dimension : Type*) where
  dimension : List Dimension
  keeps : Dimension → Fact → Bool
  row : Dimension → Fact → ScannedRow

section Running

variable {Fact Dimension : Type*}

/-- The join of some fact rows with the whole dimension. -/
def Join.rows (join : Join Fact Dimension) (facts : List Fact) : List ScannedRow :=
  facts.flatMap fun fact =>
    (join.dimension.filter fun dimension => join.keeps dimension fact).map fun dimension =>
      join.row dimension fact

/-- Splitting the fact rows splits the join. -/
theorem Join.rows_flatten (join : Join Fact Dimension) {shards : List (List Fact)}
    {facts : List Fact} (split : shards.flatten.Perm facts) :
    (shards.map join.rows).flatten.Perm (join.rows facts) := by
  have distribute : (shards.map join.rows).flatten = join.rows shards.flatten := by
    clear split
    induction shards with
    | nil => rfl
    | cons shard shards ih =>
        rw [List.map_cons, List.flatten_cons, ih]
        simp [Join.rows]
  rw [distribute]
  exact split.flatMap_right _

/-- `render_limit_offset`. -/
def renderLimitOffset (limit : Option ℕ) (offset : ℕ) (rows : List ScannedRow) :
    List ScannedRow :=
  match limit with
  | none => rows
  | some n => (rows.drop offset).take n

/-- Sorted as Exasol receives the rows, then windowed. -/
def SortedWindow (projection : List ProjectedColumn) (keys : List SortKey) (limit : Option ℕ)
    (offset : ℕ) (rows result : List ScannedRow) : Prop :=
  ∃ sorted, Ranking.IsSortOf (emittedOrder projection keys) rows sorted ∧
    result = renderLimitOffset limit offset sorted

variable [Unicode]

/-- `build_join_sql` on each shard, then the fan-out and its wrapper. -/
def BroadcastWindowPlacement.Returns (placement : BroadcastWindowPlacement)
    (projection : List ProjectedColumn) (combined : CombinedFields)
    (join : Join Fact Dimension) (shards : List (List Fact)) (result : List ScannedRow) : Prop :=
  ∃ tops, List.Forall₂ (Ranking.IsTop (joinOrder combined placement.shardOrderBy)
      placement.shardCap) (shards.map join.rows) tops ∧
    match placement.wrapper with
    | none => Ranking.IsTop (emittedOrder projection []) placement.mergeCap tops.flatten result
    | some (keys, limit, offset) =>
        SortedWindow projection keys limit offset tops.flatten result

/-- The row of values Exasol receives. -/
def outputRow (projection : List ProjectedColumn) (row : ScannedRow) : List Value :=
  projection.map fun projected => (row projected.item).emitted projected.exaType

/-- What the single-node query would return over the whole join. -/
def JoinWindowPlan.Answers (window : JoinWindowPlan) (projection : List ProjectedColumn)
    (rows result : List ScannedRow) : Prop :=
  match window with
  | .unbounded => (result.map (outputRow projection)).Perm (rows.map (outputRow projection))
  | .bareLimit n =>
      (result.map (outputRow projection)).Subperm (rows.map (outputRow projection)) ∧
        result.length = min n rows.length
  | .ordered keys limit offset =>
      (result.map (outputRow projection)).Subperm (rows.map (outputRow projection)) ∧
        ∀ expected, SortedWindow projection keys limit offset rows expected →
          result.map (keyValues projection keys) = expected.map (keyValues projection keys)
  | .exasolPostProcessed => False

/-- The keys a window sorts by. -/
def JoinWindowPlan.keys : JoinWindowPlan → List SortKey
  | .ordered keys _ _ => keys
  | _ => []

variable {projection : List ProjectedColumn}

omit [Unicode] in
theorem boundSortKeys_eq {keys boundKeys : List SortKey}
    (bound : keys.mapM (boundSortKey projection) = some boundKeys) : boundKeys = keys := by
  have related := forall₂_of_mapM bound
  have same : List.Forall₂ Eq keys boundKeys := by
    refine related.imp ?_
    intro key boundKey found
    unfold boundSortKey at found
    split at found
    · exact Option.some.inj found
    · simp at found
  exact (List.forall₂_eq_eq_eq ▸ same : keys = boundKeys).symm

omit [Unicode] in
theorem SortedWindow.subperm {keys : List SortKey}
    {limit : Option ℕ} {offset : ℕ} {rows result : List ScannedRow}
    (window : SortedWindow projection keys limit offset rows result) : result.Subperm rows := by
  obtain ⟨sorted, sort, rfl⟩ := window
  refine List.Subperm.trans (List.Sublist.subperm ?_) sort.perm.subperm
  cases limit with
  | none => exact List.Sublist.refl sorted
  | some n => exact (List.take_sublist _ _).trans (List.drop_sublist _ _)

omit [Unicode] in
theorem SortedWindow.keyValues_eq {keys : List SortKey}
    {limit : Option ℕ} {offset : ℕ} {rows left right : List ScannedRow}
    (leftWindow : SortedWindow projection keys limit offset rows left)
    (rightWindow : SortedWindow projection keys limit offset rows right) :
    left.map (keyValues projection keys) = right.map (keyValues projection keys) := by
  obtain ⟨leftSorted, leftSort, rfl⟩ := leftWindow
  obtain ⟨rightSorted, rightSort, rfl⟩ := rightWindow
  have same := leftSort.map_eq (fun first second =>
    (emittedOrder_eq projection keys first second).mp)
    rightSort
  cases limit with
  | none => exact same
  | some n => simp only [renderLimitOffset, List.map_take, List.map_drop, same]

/-- A served window is answered when its keys have no inversion. -/
theorem JoinWindowPlan.answers_of_noInversion {window : JoinWindowPlan}
    {combined : CombinedFields}
    {join : Join Fact Dimension} {facts : List Fact} {placement : BroadcastWindowPlacement}
    (agree : Ranking.NoInversion (joinOrder combined window.keys)
      (emittedOrder projection window.keys) (join.rows facts))
    (placed : placeBroadcastWindow window projection = some placement)
    {shards : List (List Fact)} (split : shards.flatten.Perm facts) {result : List ScannedRow}
    (returned : placement.Returns projection combined join shards result) :
    window.Answers projection (join.rows facts) result := by
  obtain ⟨tops, each, merged⟩ := returned
  have whole : (shards.map join.rows).flatten.Perm (join.rows facts) := join.rows_flatten split
  have shown : ∀ {rows : List ScannedRow}, result.Subperm rows → rows.Subperm (join.rows facts) →
      (result.map (outputRow projection)).Subperm ((join.rows facts).map (outputRow projection)) :=
    fun lower upper => Ranking.subperm_map _ (lower.trans upper)
  cases window with
  | unbounded =>
      cases placed
      obtain ⟨sorted, sort, rfl⟩ := merged
      have union := Ranking.flatten_perm_of_uncapped each
      exact ((sort.perm.trans union).trans whole).map _
  | bareLimit n =>
      cases placed
      have union : Ranking.IsTop (emittedOrder projection []) (some n)
          (shards.map join.rows).flatten result := Ranking.isTop_of_parts each merged
      exact ⟨shown union.subperm whole.subperm, (union.of_perm whole).length_eq⟩
  | ordered keys limit offset =>
      obtain ⟨boundKeys, bound, rfl⟩ := Option.map_eq_some_iff.mp placed
      cases boundSortKeys_eq bound
      have uncapped : ∀ {order : List SortKey}, List.Forall₂
          (Ranking.IsTop (joinOrder combined order) none) (shards.map join.rows) tops →
          SortedWindow projection keys limit offset tops.flatten result →
          (JoinWindowPlan.ordered keys limit offset).Answers projection (join.rows facts)
            result := by
        intro order each windowed
        have union := (Ranking.flatten_perm_of_uncapped each).trans whole
        refine ⟨shown windowed.subperm union.subperm, ?_⟩
        intro expected single
        obtain ⟨sorted, sort, rfl⟩ := windowed
        exact SortedWindow.keyValues_eq ⟨sorted, sort.of_perm union, rfl⟩ single
      cases offset with
      | succ offset => exact uncapped each merged
      | zero =>
          cases limit with
          | none => exact uncapped each merged
          | some n =>
              have windowed : Ranking.IsTop (emittedOrder projection keys) (some n)
                  tops.flatten result := merged
              have top := Ranking.isTop_of_noInversion (emittedOrder_eq_of_joinOrder_eq projection)
                (agree.mono whole.subset) each windowed
              refine ⟨shown top.subperm whole.subperm, ?_⟩
              intro expected single
              have single' : Ranking.IsTop (emittedOrder projection keys) (some n) (join.rows facts)
                  expected := single
              exact (top.of_perm whole).map_eq
                (fun first second => (emittedOrder_eq projection keys first second).mp) single'
  | exasolPostProcessed => cases placed

namespace PushdownRequest

/-- The request's sort keys, where every element is a flagged bare column. -/
def sortKeys (request : PushdownRequest) : List SortKey :=
  ((request.orderBy.getD []).mapM parseSortKeyElement).getD []

end PushdownRequest

/-- A window sorts by nothing, or by every key of the request. -/
theorem classifyJoinWindow_keys (request : PushdownRequest) :
    (classifyJoinWindow request).keys = [] ∨
      (classifyJoinWindow request).keys = request.sortKeys := by
  unfold classifyJoinWindow PushdownRequest.sortKeys
  split
  · exact .inl rfl
  · split
    · split
      · exact .inl rfl
      · split <;> exact .inl rfl
    · split
      · next keys parsed =>
          right
          rw [parsed]
          rfl
      · exact .inl rfl

/-- A served request that has sort keys is ordered by them, under every window. -/
theorem classifyJoinWindow_ordered {request : PushdownRequest}
    (served : classifyJoinWindow request ≠ .exasolPostProcessed) (sorts : request.sortKeys ≠ []) :
    classifyJoinWindow request =
        .ordered request.sortKeys request.extractLimit request.extractOffset ∧
      ∀ window, classifyJoinWindow (request.withWindow window) ≠ .exasolPostProcessed := by
  unfold classifyJoinWindow PushdownRequest.sortKeys at *
  by_cases clause : request.carriesAggregationClause
  · simp [clause] at served
  · have sameClause : ∀ window, (request.withWindow window).carriesAggregationClause =
        request.carriesAggregationClause := fun _ => rfl
    have sameOrder : ∀ window, (request.withWindow window).orderBy = request.orderBy :=
      fun _ => rfl
    simp only [sameClause, sameOrder, clause, if_false, Bool.false_eq_true] at served ⊢
    cases elements : request.orderBy.getD [] with
    | nil =>
        rw [elements] at sorts
        exact absurd rfl sorts
    | cons element rest =>
        rw [elements] at served
        cases parsed : (element :: rest).mapM parseSortKeyElement with
        | none => simp [parsed] at served
        | some keys => simp [parsed]

/-- On one shard, a capped plan returns the rows the shard kept, sorted again. -/
theorem returns_single_shard {combined : CombinedFields}
    {join : Join Fact Dimension} {facts : List Fact} {keys : List SortKey} {n : ℕ}
    {sorted kept : List ScannedRow}
    (sort : Ranking.IsSortOf (joinOrder combined keys) (join.rows facts) sorted)
    (resort : Ranking.IsSortOf (emittedOrder projection keys) (sorted.take n) kept) :
    BroadcastWindowPlacement.Returns
      { shardCap := some n, shardOrderBy := keys, wrapper := some (keys, some n, 0) }
      projection combined join [facts] kept := by
  refine ⟨[sorted.take n], .cons ⟨sorted, sort, rfl⟩ .nil, kept, by simpa using resort, ?_⟩
  have short : kept.length ≤ n := by
    rw [resort.perm.length_eq]
    exact List.length_take_le n sorted
  rw [renderLimitOffset, List.drop_zero, List.take_of_length_le short]

/-- A served broadcast join is answered as by a single node, under every split of the fact
rows and every window, exactly when no two joined rows are ranked one way by the shard
and the other way by Exasol. -/
theorem broadcast_window_iff (request : PushdownRequest) (projection : List ProjectedColumn)
    (placement : BroadcastWindowPlacement)
    (served : placeBroadcastWindow (classifyJoinWindow request) projection = some placement)
    (combined : CombinedFields) (join : Join Fact Dimension) (facts : List Fact) :
    (∀ window placed, placeBroadcastWindow (classifyJoinWindow (request.withWindow window))
        projection = some placed →
      ∀ shards : List (List Fact), shards.flatten.Perm facts →
      ∀ result, placed.Returns projection combined join shards result →
        (classifyJoinWindow (request.withWindow window)).Answers projection (join.rows facts)
          result) ↔
      Ranking.NoInversion (joinOrder combined request.sortKeys)
        (emittedOrder projection request.sortKeys) (join.rows facts) := by
  have unordered : Ranking.NoInversion (joinOrder combined []) (emittedOrder projection [])
      (join.rows facts) := by
    intro first _ second _ before
    cases before
  constructor
  · intro answered
    by_cases sorts : request.sortKeys = []
    · rw [sorts]
      exact unordered
    · have notDeclined : classifyJoinWindow request ≠ .exasolPostProcessed := by
        intro declined
        rw [declined] at served
        cases served
      obtain ⟨ordered, servedUnder⟩ := classifyJoinWindow_ordered notDeclined sorts
      rw [ordered] at served
      obtain ⟨boundKeys, bound, -⟩ := Option.map_eq_some_iff.mp served
      rw [boundSortKeys_eq bound] at bound
      apply Ranking.noInversion_of_take
        fun first second => (emittedOrder_eq projection request.sortKeys first second).mpr
      intro n sorted expected sort expectedSort
      obtain ⟨kept, resort⟩ :=
        Ranking.exists_isSortOf (emittedOrder projection request.sortKeys) (sorted.take n)
      have windowed : classifyJoinWindow (request.withWindow (some (n, 0))) =
          .ordered request.sortKeys (some n) 0 :=
        (classifyJoinWindow_ordered (servedUnder (some (n, 0))) sorts).1
      have answer := answered (some (n, 0)) _ (by rw [windowed, placeBroadcastWindow, bound]; rfl)
        [facts] (by simp) kept (returns_single_shard sort resort)
      rw [windowed] at answer
      have same := answer.2 _ ⟨expected, expectedSort, rfl⟩
      have moved := resort.perm.map (keyValues projection request.sortKeys)
      rw [same] at moved
      exact moved.symm
  · intro agree window placed placedAt shards split result returned
    refine JoinWindowPlan.answers_of_noInversion ?_ placedAt split returned
    rcases classifyJoinWindow_keys (request.withWindow window) with keys | keys <;> rw [keys]
    · exact unordered
    · exact agree

end Running

section Instances

local instance broadcastUnicode : Unicode := Unicode.ascii

def eventTime : ColumnRef := ⟨some "LHS_T0", "TS"⟩

def eventRank : ColumnRef := ⟨some "LHS_T0", "K"⟩

/-- `ORDER BY ts, k LIMIT 1` over a join. -/
def firstEvent : PushdownRequest where
  orderBy := some
    [⟨.column ⟨"ts", none, some "LHS_T0"⟩, some true, some true⟩,
      ⟨.column ⟨"k", none, some "LHS_T0"⟩, some true, some true⟩]
  limit := some ⟨some 1, some 0⟩

theorem eventRank_valid : 1 ≤ 20 ∧ 20 ≤ maxDecimalPrecision ∧ 0 ≤ 20 := by decide

/-- A microsecond column on an engine that stores milliseconds. -/
def eventProjection : List ProjectedColumn :=
  [⟨.column eventTime, (EngineTimestampSupport.millisecondOnly.clamp
      (TimestampPrecision.fromArrowUnit .microsecond)).declaration⟩,
    ⟨.column eventRank, .decimal ⟨20, 0, eventRank_valid⟩⟩]

def eventFields : CombinedFields :=
  [(eventTime, .timestamp .microsecond none), (eventRank, .integer 64 true)]

def eventKeys : List SortKey := [⟨eventTime, true, true⟩, ⟨eventRank, true, true⟩]

/-- One dimension row that every event joins. -/
def eventJoin : Join (ℚ × ℚ) Unit where
  dimension := [()]
  keeps _ _ := true
  row _ event := fun item => if item = .column eventTime then .timestamp event.1 else .num event.2

def cappedPlacement : BroadcastWindowPlacement where
  shardCap := some 1
  shardOrderBy := eventKeys
  wrapper := some (eventKeys, some 1, 0)

/-- Three events of one millisecond: the first shard keeps the one with the least
microsecond, although Exasol sees equal timestamps and ranks by the second key. -/
theorem truncated_timestamp_displaces_row :
    ∃ result expected,
      classifyJoinWindow firstEvent = .ordered eventKeys (some 1) 0 ∧
      placeBroadcastWindow (classifyJoinWindow firstEvent) eventProjection =
        some cappedPlacement ∧
      cappedPlacement.Returns eventProjection eventFields eventJoin
        [[(1 / 10000, 5), (2 / 10000, 3)], [(3 / 10000, 4)]] result ∧
      SortedWindow eventProjection eventKeys (some 1) 0
        (eventJoin.rows [(1 / 10000, 5), (2 / 10000, 3), (3 / 10000, 4)]) expected ∧
      result.map (keyValues eventProjection eventKeys) = [[.timestamp 0, .num 4]] ∧
      expected.map (keyValues eventProjection eventKeys) = [[.timestamp 0, .num 3]] := by
  refine ⟨[eventJoin.row () (3 / 10000, 4)], [eventJoin.row () (2 / 10000, 3)],
    by decide +kernel, by decide +kernel, ?_, ?_, by decide +kernel, by decide +kernel⟩
  · refine ⟨[[eventJoin.row () (1 / 10000, 5)], [eventJoin.row () (3 / 10000, 4)]],
      .cons ⟨_, ⟨List.Perm.refl _, ?_⟩, rfl⟩ (.cons ⟨_, ⟨List.Perm.refl _, ?_⟩, rfl⟩ .nil),
      [eventJoin.row () (3 / 10000, 4), eventJoin.row () (1 / 10000, 5)],
      ⟨List.Perm.swap _ _ [], ?_⟩, rfl⟩
    all_goals
      simp only [Ranking.Ordered]
      decide +kernel
  · refine ⟨[eventJoin.row () (2 / 10000, 3), eventJoin.row () (3 / 10000, 4),
      eventJoin.row () (1 / 10000, 5)], ⟨?_, ?_⟩, rfl⟩
    · exact (List.perm_append_comm : ([_, _] ++ [_]).Perm ([_] ++ [_, _]))
    · simp only [Ranking.Ordered]
      decide +kernel

theorem broadcast_window_events :
    placeBroadcastWindow (classifyJoinWindow firstEvent) eventProjection = some cappedPlacement ∧
    ∀ window placed, placeBroadcastWindow (classifyJoinWindow (firstEvent.withWindow window))
        eventProjection = some placed →
      ∀ shards : List (List (ℚ × ℚ)), shards.flatten.Perm [(1, 5), (2, 3)] →
      ∀ result, placed.Returns eventProjection eventFields eventJoin shards result →
        (classifyJoinWindow (firstEvent.withWindow window)).Answers eventProjection
          (eventJoin.rows [(1, 5), (2, 3)]) result :=
  have served : placeBroadcastWindow (classifyJoinWindow firstEvent) eventProjection =
      some cappedPlacement := by decide +kernel
  ⟨served, (broadcast_window_iff firstEvent eventProjection _ served eventFields eventJoin _).mpr
    (by
      simp only [Ranking.NoInversion]
      decide +kernel)⟩

end Instances

end LakehouseEngine
