import LakehouseEngine.Expression.ColumnNode
import LakehouseEngine.Pushdown.ColumnTypes
import LakehouseEngine.Text.Numeral

/-!
# The legs of a join

Every leaf of the FROM tree is a leg of its own.  A column names its leg by the table, and by the
alias where a table occurs more than once.  Qualifying a tree gives each column the generated
alias of its leg, and a qualified column is emitted under that alias and its own name.
-/

namespace LakehouseEngine

/-- The alias of the join relation at a leg. -/
def relationAlias (leg : ℕ) : String := "LHS_T" ++ toString leg

/-- The name of a column in the output of a join. -/
def ColumnRef.outputName (column : ColumnRef) : String :=
  match column.relation with
  | some relation => relation ++ "_" ++ column.name
  | none => column.name

namespace Joins

/-! ## The FROM tree -/

inductive IneligibleJoinReason where
  | notInnerJoinType
  | unsupportedShape
  deriving DecidableEq

structure JoinLeaf where
  tableName : String
  tableAlias : Option String
  tableIdentifier : String

structure DetectedJoin where
  tables : List JoinLeaf
  conditions : List Json

inductive JoinShape where
  | notAJoin
  | ineligible (reason : IneligibleJoinReason)
  | join (detected : DetectedJoin)

theorem sizeOf_get {node part : Json} {key : String} (found : node.get key = some part) :
    sizeOf part < sizeOf node := by
  cases node with
  | object entries =>
      have member := List.sizeOf_lt_of_mem (mem_of_lookup_eq_some found)
      simp only [Prod.mk.sizeOf_spec] at member
      simp only [Json.object.sizeOf_spec]
      omega
  | null | bool _ | integer _ | float _ | string _ | array _ => cases found

/-- The leaves from left to right and the conditions in post-order. -/
def collectJoinTree (node : Json) :
    Except IneligibleJoinReason (List (String × Option String) × List Json) :=
  let type := (node.get "type").bind Json.asStr
  if type = some "join" then
    if ((node.get "join_type").bind Json.asStr).any (eqIgnoreAsciiCase · "inner") then
      match _ofLeft : node.get "left", _ofRight : node.get "right" with
      | some left, some right =>
          match (node.get "condition").filter (!·.isNull) with
          | some condition => do
              let (leaves, conditions) ← collectJoinTree left
              let (others, further) ← collectJoinTree right
              return (leaves ++ others, conditions ++ further ++ [condition])
          | none => throw .unsupportedShape
      | _, _ => throw .unsupportedShape
    else throw .notInnerJoinType
  else if type = some "table" then
    match (node.get "name").bind Json.asStr with
    | some name => return ([(name, (node.get "alias").bind Json.asStr)], [])
    | none => throw .unsupportedShape
  else throw .unsupportedShape
termination_by sizeOf node
decreasing_by
  · exact sizeOf_get _ofLeft
  · exact sizeOf_get _ofRight

section Detection

variable {ε : Type} (readIdentifier : String → Except ε String)

def joinLeaf (leaf : String × Option String) : Except ε JoinLeaf := do
  let tableIdentifier ← readIdentifier leaf.1
  return ⟨leaf.1, leaf.2, tableIdentifier⟩

def detectJoin (pushdownRequest : Json) : Except ε JoinShape :=
  match pushdownRequest.get "from" with
  | none => return .notAJoin
  | some source =>
      if (source.get "type").bind Json.asStr ≠ some "join" then return .notAJoin
      else
        match collectJoinTree source with
        | .error reason => return .ineligible reason
        | .ok (leaves, conditions) => do
            let tables ← leaves.mapM (joinLeaf readIdentifier)
            return .join ⟨tables, conditions⟩

end Detection

/-! ## Legs -/

inductive ColumnLeg where
  | leg (leg : ℕ)
  | noLeg
  | unattributable

structure UnattributableColumn where
  tableName : String
  tableAlias : Option String
  columnName : String

def UnattributableColumn.of (column : ColumnNode) : UnattributableColumn where
  tableName := column.tableName.getD ""
  tableAlias := column.tableAlias
  columnName := column.name

structure LegKey where
  tableName : String
  tableAlias : Option String
  leg : ℕ

structure JoinLegs where
  keys : List LegKey

namespace JoinLegs

def fromLeaves (leaves : List JoinLeaf) : JoinLegs where
  keys := leaves.zipIdx.map fun (leaf, leg) => ⟨leaf.tableName, leaf.tableAlias, leg⟩

def legAlias (_ : JoinLegs) (leg : ℕ) : String := relationAlias leg

/-- The keys of the legs that have a table's name. -/
def named (legs : JoinLegs) (tableName : String) : List LegKey :=
  legs.keys.filter fun key => eqIgnoreAsciiCase key.tableName tableName

end JoinLegs

/-- The alias decides only where several legs have the table's name. -/
def decideLeg (tableAlias : Option String) : List LegKey → ColumnLeg
  | [] => .noLeg
  | first :: rest =>
      if (first :: rest).all fun key => key.leg = first.leg then .leg first.leg
      else
        match (first :: rest).find? fun key => key.tableAlias = tableAlias with
        | some key => .leg key.leg
        | none => .unattributable

namespace JoinLegs

def resolveColumn (legs : JoinLegs) (column : ColumnNode) : ColumnLeg :=
  match column.tableName with
  | none => .noLeg
  | some tableName => decideLeg column.tableAlias (legs.named tableName)

/-- What is answered for a column; a strict path has no answer for one that no leg declares. -/
def answer (legs : JoinLegs) (strict : Bool) (column : ColumnNode) :
    Except UnattributableColumn (Option String) :=
  match legs.resolveColumn column with
  | .leg leg => .ok (some (legs.legAlias leg))
  | .noLeg => if strict then .error (.of column) else .ok none
  | .unattributable => .error (.of column)

def qualifyTree (legs : JoinLegs) (tree : Json) (strict : Bool) :
    Except UnattributableColumn Json :=
  rewriteTableAliases (legs.answer strict) tree

def qualifyEveryColumn (legs : JoinLegs) (tree : Json) : Except UnattributableColumn Json :=
  legs.qualifyTree tree true

end JoinLegs

def DetectedJoin.legs (detected : DetectedJoin) : JoinLegs := JoinLegs.fromLeaves detected.tables

/-! ## What a column was written against -/

/-- No two leaves have the same table and the same alias. -/
def DistinctLeaves (leaves : List (String × Option String)) : Prop :=
  leaves.Pairwise fun first second => ¬ (eqIgnoreAsciiCase first.1 second.1 = true ∧
    first.2 = second.2)

/-- The leaf has the column's table, and its alias too unless no other leaf has that table. -/
def WrittenAgainst (leaves : List (String × Option String)) (column : ColumnNode) (leg : ℕ) :
    Prop :=
  ∃ leaf tableName, leaves[leg]? = some leaf ∧ column.tableName = some tableName ∧
    eqIgnoreAsciiCase leaf.1 tableName = true ∧
      (leaf.2 = column.tableAlias ∨ ∀ other found, leaves[other]? = some found →
        eqIgnoreAsciiCase found.1 tableName = true → other = leg)

section Leaves

variable {leaves : List (String × Option String)} {column : ColumnNode}

theorem DistinctLeaves.index_unique (distinct : DistinctLeaves leaves) {first second : ℕ}
    {leaf other : String × Option String} {tableName : String}
    (atFirst : leaves[first]? = some leaf)
    (atSecond : leaves[second]? = some other) (named : eqIgnoreAsciiCase leaf.1 tableName = true)
    (named' : eqIgnoreAsciiCase other.1 tableName = true) (same : leaf.2 = other.2) :
    first = second := by
  obtain ⟨inside, rfl⟩ := List.getElem?_eq_some_iff.mp atFirst
  obtain ⟨inside', rfl⟩ := List.getElem?_eq_some_iff.mp atSecond
  have apart := List.pairwise_iff_getElem.mp distinct
  simp only [eqIgnoreAsciiCase, beq_iff_eq] at named named' apart
  rcases Nat.lt_trichotomy first second with before | equal | after
  · exact absurd ⟨named.trans named'.symm, same⟩ (apart _ _ inside inside' before)
  · exact equal
  · exact absurd ⟨named'.trans named.symm, same.symm⟩ (apart _ _ inside' inside after)

/-- A column is written against one leaf at most. -/
theorem WrittenAgainst.unique (distinct : DistinctLeaves leaves) {first second : ℕ}
    (written : WrittenAgainst leaves column first)
    (written' : WrittenAgainst leaves column second) :
    first = second := by
  obtain ⟨leaf, tableName, atFirst, table, named, aliased⟩ := written
  obtain ⟨other, tableName', atSecond, table', named', aliased'⟩ := written'
  rw [table] at table'
  cases table'
  rcases aliased with own | only
  · rcases aliased' with own' | only
    · exact distinct.index_unique atFirst atSecond named named' (own.trans own'.symm)
    · exact only _ _ atFirst named
  · exact (only _ _ atSecond named').symm

/-- The leaf as the FROM tree has it. -/
def JoinLeaf.identity (leaf : JoinLeaf) : String × Option String :=
  (leaf.tableName, leaf.tableAlias)

theorem mem_keys {tables : List JoinLeaf} {key : LegKey} :
    key ∈ (JoinLegs.fromLeaves tables).keys ↔
      (tables.map JoinLeaf.identity)[key.leg]? = some (key.tableName, key.tableAlias) := by
  obtain ⟨name, nick, leg⟩ := key
  rw [JoinLegs.fromLeaves, List.mem_map, List.getElem?_map]
  constructor
  · intro found
    obtain ⟨⟨leaf, index⟩, member, same⟩ := found
    cases same
    rw [List.mk_mem_zipIdx_iff_getElem?.mp member]
    rfl
  · intro found
    obtain ⟨leaf, inside, same⟩ := Option.map_eq_some_iff.mp found
    cases same
    exact ⟨(leaf, leg), List.mk_mem_zipIdx_iff_getElem?.mpr inside, rfl⟩

section Named

variable {tables : List JoinLeaf} {tableName : String} {leg : ℕ}

theorem mem_named {key : LegKey} : key ∈ (JoinLegs.fromLeaves tables).named tableName ↔
    (tables.map JoinLeaf.identity)[key.leg]? = some (key.tableName, key.tableAlias) ∧
      eqIgnoreAsciiCase key.tableName tableName = true := by
  rw [JoinLegs.named, List.mem_filter, mem_keys]

theorem writtenAgainst_iff_named (table : column.tableName = some tableName) :
    WrittenAgainst (tables.map JoinLeaf.identity) column leg ↔
      ∃ key ∈ (JoinLegs.fromLeaves tables).named tableName, key.leg = leg ∧
        (key.tableAlias = column.tableAlias ∨
          ∀ other ∈ (JoinLegs.fromLeaves tables).named tableName, other.leg = leg) := by
  constructor
  · intro written
    obtain ⟨leaf, name, inside, table', named, decided⟩ := written
    rw [table] at table'
    cases table'
    refine ⟨⟨leaf.1, leaf.2, leg⟩, mem_named.mpr ⟨inside, named⟩, rfl, decided.imp_right ?_⟩
    intro only other member
    have found := mem_named.mp member
    exact only other.leg _ found.1 found.2
  · intro written
    obtain ⟨key, member, rfl, decided⟩ := written
    have found := mem_named.mp member
    refine ⟨_, tableName, found.1, table, found.2, decided.imp_right ?_⟩
    intro only other leaf inside named
    exact only ⟨leaf.1, leaf.2, other⟩ (mem_named.mpr ⟨inside, named⟩)

theorem decideLeg_eq_leg_iff {tableAlias : Option String} {named : List LegKey}
    (one : ∀ first ∈ named, ∀ second ∈ named, first.tableAlias = second.tableAlias →
      first.leg = second.leg) :
    decideLeg tableAlias named = .leg leg ↔
      ∃ key ∈ named, key.leg = leg ∧ (key.tableAlias = tableAlias ∨
        ∀ other ∈ named, other.leg = leg) := by
  cases named with
  | nil => simp [decideLeg]
  | cons first rest =>
      rw [decideLeg]
      split
      · next all =>
          simp only [List.all_eq_true, decide_eq_true_eq] at all
          rw [ColumnLeg.leg.injEq]
          constructor
          · rintro rfl
            exact ⟨first, List.mem_cons_self, rfl, .inr all⟩
          · rintro ⟨key, member, rfl, -⟩
            exact (all key member).symm
      · next several =>
          have notOne : ∀ found, ¬ ∀ other ∈ first :: rest, other.leg = found := by
            intro found all
            refine several (List.all_eq_true.mpr fun key member => decide_eq_true ?_)
            rw [all key member, all first List.mem_cons_self]
          simp only [notOne, or_false]
          cases found : (first :: rest).find? fun key => key.tableAlias = tableAlias with
          | none =>
              have others : ∀ key ∈ first :: rest, key.tableAlias ≠ tableAlias := by
                simpa using List.find?_eq_none.mp found
              constructor
              · intro same
                cases same
              · rintro ⟨key, member, -, own⟩
                exact absurd own (others key member)
          | some key =>
              have own : key.tableAlias = tableAlias := by simpa using List.find?_some found
              have inside := List.mem_of_find?_eq_some found
              rw [ColumnLeg.leg.injEq]
              constructor
              · rintro rfl
                exact ⟨key, inside, rfl, own⟩
              · rintro ⟨other, member, rfl, same⟩
                exact one key inside other member (own.trans same.symm)

/-- Resolution finds the leaf that a column was written against. -/
theorem resolveColumn_eq_leg_iff (distinct : DistinctLeaves (tables.map JoinLeaf.identity)) :
    (JoinLegs.fromLeaves tables).resolveColumn column = .leg leg ↔
      WrittenAgainst (tables.map JoinLeaf.identity) column leg := by
  rw [JoinLegs.resolveColumn]
  cases table : column.tableName with
  | none => simp [WrittenAgainst, table]
  | some tableName =>
      rw [writtenAgainst_iff_named table]
      refine decideLeg_eq_leg_iff fun first inFirst second inSecond same => ?_
      have atFirst := mem_named.mp inFirst
      have atSecond := mem_named.mp inSecond
      exact distinct.index_unique atFirst.1 atSecond.1 atFirst.2 atSecond.2 same

theorem answer_eq_ok_iff (distinct : DistinctLeaves (tables.map JoinLeaf.identity))
    {answered : Option String} :
    (JoinLegs.fromLeaves tables).answer true column = .ok answered ↔
      ∃ leg, WrittenAgainst (tables.map JoinLeaf.identity) column leg ∧
        answered = some (relationAlias leg) := by
  simp only [← resolveColumn_eq_leg_iff distinct, JoinLegs.answer]
  cases (JoinLegs.fromLeaves tables).resolveColumn column with
  | leg leg => simp [JoinLegs.legAlias, eq_comm]
  | noLeg => simp
  | unattributable => simp

end Named

end Leaves

/-! ## Generated names -/

theorem relationAlias_injective : Function.Injective relationAlias := by
  intro first second same
  have texts := congrArg String.toList same
  simp only [relationAlias, String.toList_append, List.append_cancel_left_eq] at texts
  exact Text.natToString_inj (String.toList_injective texts)

/-- The alias ends at the first underscore behind its digits, so no name is emitted twice. -/
theorem outputName_injective {first second : ℕ} {name other : String}
    (same : ColumnRef.outputName ⟨some (relationAlias first), name⟩ =
      ColumnRef.outputName ⟨some (relationAlias second), other⟩) : first = second ∧
        name = other := by
  have texts := congrArg String.toList same
  simp only [ColumnRef.outputName, relationAlias, String.toList_append, List.append_assoc,
    List.append_cancel_left_eq] at texts
  have cut : ∀ (leg : ℕ) (text : List Char),
      Text.splitOnce '_' ((toString leg).toList ++ ("_".toList ++ text)) =
        some ((toString leg).toList, text) :=
    fun leg text => Text.splitOnce_of_not_mem text (Text.not_mem_toString rfl leg)
  have parts := congrArg (Text.splitOnce '_') texts
  rw [cut, cut, Option.some.injEq, Prod.mk.injEq] at parts
  exact ⟨Text.natToString_inj (String.toList_injective parts.1), String.toList_injective parts.2⟩

/-! ## Qualification -/

/-- The legs of a detected join are the leaves of its FROM tree. -/
theorem identities_of_detectJoin {ε : Type} {readIdentifier : String → Except ε String}
    {request source : Json} {leaves : List (String × Option String)} {conditions : List Json}
    {detected : DetectedJoin} (tree : request.get "from" = some source)
    (collected : collectJoinTree source = .ok (leaves, conditions))
    (shape : detectJoin readIdentifier request = .ok (.join detected)) :
    detected.tables.map JoinLeaf.identity = leaves := by
  rw [detectJoin, tree] at shape
  simp only [collected] at shape
  split at shape
  · cases shape
  · obtain ⟨tables, converted, same⟩ := exists_of_bind_ok shape
    cases same
    have each : ∀ leaf found, joinLeaf readIdentifier leaf = .ok found → found.identity = leaf := by
      intro leaf found read
      obtain ⟨identifier, -, same⟩ := exists_of_bind_ok read
      cases same
      rfl
    rw [map_of_mapM_ok converted each, List.map_id']

section Qualification

variable {tables : List JoinLeaf} (distinct : DistinctLeaves (tables.map JoinLeaf.identity))
    {tree : Json}
include distinct

theorem qualifies_iff : (∃ out, (JoinLegs.fromLeaves tables).qualifyEveryColumn tree = .ok out) ↔
    ∀ path column, tree.ColumnAt path column →
      ∃ leg, WrittenAgainst (tables.map JoinLeaf.identity) column leg := by
  have answered : ∀ column, (∃ answered, (JoinLegs.fromLeaves tables).answer true column =
    .ok answered) ↔
      ∃ leg, WrittenAgainst (tables.map JoinLeaf.identity) column leg := by
    intro column
    simp only [answer_eq_ok_iff distinct]
    constructor
    · rintro ⟨-, leg, written, -⟩
      exact ⟨leg, written⟩
    · rintro ⟨leg, written⟩
      exact ⟨_, leg, written, rfl⟩
  simp only [JoinLegs.qualifyEveryColumn, JoinLegs.qualifyTree, rewrite_succeeds_iff, answered]

theorem qualified_columnAt {out : Json}
    (qualified : (JoinLegs.fromLeaves tables).qualifyEveryColumn tree = .ok out)
    {path : List Json.Step} {column : ColumnNode} {leg : ℕ} (found : tree.ColumnAt path column)
    (outside : ¬ tree.UnderAlias path)
    (written : WrittenAgainst (tables.map JoinLeaf.identity) column leg) :
    out.ColumnAt path { column with tableAlias := some (relationAlias leg) } := by
  obtain ⟨answered, answers, placed⟩ := columnAt_of_rewrite qualified found outside
  obtain ⟨leg', written', rfl⟩ := (answer_eq_ok_iff distinct).mp answers
  rw [written.unique distinct written']
  exact placed

end Qualification

/-- Every column node of a qualified tree has the alias of the one leaf it was written against,
and nothing else of the tree changes. -/
theorem qualification_faithful {ε : Type} {readIdentifier : String → Except ε String}
    {request source : Json} {leaves : List (String × Option String)} {conditions : List Json}
    {detected : DetectedJoin} (tree : request.get "from" = some source)
    (collected : collectJoinTree source = .ok (leaves, conditions))
    (distinct : DistinctLeaves leaves)
    (shape : detectJoin readIdentifier request = .ok (.join detected)) :
    (∀ expression,
      ((∃ out, detected.legs.qualifyEveryColumn expression = .ok out) ↔
        ∀ path column, expression.ColumnAt path column → ∃ leg, WrittenAgainst leaves column leg) ∧
      ∀ out, detected.legs.qualifyEveryColumn expression = .ok out →
        out.unaliased = expression.unaliased ∧
        ∀ path column leg, expression.ColumnAt path column → ¬ expression.UnderAlias path →
          WrittenAgainst leaves column leg →
          out.ColumnAt path { column with tableAlias := some (detected.legs.legAlias leg) }) ∧
    (∀ column first second, WrittenAgainst leaves column first →
      WrittenAgainst leaves column second →
      first = second) ∧
    (∀ first second, detected.legs.legAlias first = detected.legs.legAlias second →
      first = second) ∧
    ∀ first second name other,
      ColumnRef.outputName ⟨some (detected.legs.legAlias first), name⟩ =
        ColumnRef.outputName ⟨some (detected.legs.legAlias second), other⟩ →
      first = second ∧ name = other := by
  obtain rfl := identities_of_detectJoin tree collected shape
  refine ⟨fun expression => ⟨qualifies_iff distinct, fun out qualified =>
    ⟨unaliased_of_rewrite qualified, ?_⟩⟩,
    fun column first second => WrittenAgainst.unique distinct, fun first second same =>
      relationAlias_injective same, fun first second name other => outputName_injective⟩
  intro path column leg found outside written
  exact qualified_columnAt distinct qualified found outside written

/-- A column of a table under an alias. -/
def columnJson (name tableName tableAlias : String) : Json :=
  .object [("name", .string name), (tableAliasKey, .string tableAlias),
    (tableNameKey, .string tableName),
    ("type", .string "column")]

def tableJson (name tableAlias : String) : Json :=
  .object [("alias", .string tableAlias), ("name", .string name), ("type", .string "table")]

/-- The table joined with itself, the second time under what looks like the first leg's alias. -/
def selfJoin : Json :=
  .object [("condition", .bool true), ("join_type", .string "inner"), ("left", tableJson "T" "A"),
    ("right", tableJson "T" "LHS_T0"), ("type", .string "join")]

theorem collectJoinTree_selfJoin :
    collectJoinTree selfJoin = .ok ([("T", some "A"), ("T", some "LHS_T0")], [.bool true]) := by
  have table : ∀ name tableAlias,
      collectJoinTree (tableJson name tableAlias) = .ok ([(name, some tableAlias)], []) := by
    intro name tableAlias
    rw [collectJoinTree]
    rfl
  have inner : eqIgnoreAsciiCase "inner" "inner" = true := by decide
  have type : (selfJoin.get "type").bind Json.asStr = some "join" := rfl
  have kind : ((selfJoin.get "join_type").bind Json.asStr).any (eqIgnoreAsciiCase · "inner") =
    true := inner
  rw [collectJoinTree, type, if_pos rfl, if_pos kind]
  change (do
    let (leaves, conditions) ← collectJoinTree (tableJson "T" "A")
    let (others, further) ← collectJoinTree (tableJson "T" "LHS_T0")
    return (leaves ++ others, conditions ++ further ++ [Json.bool true])) = _
  rw [table, table]
  rfl

/-- A column of the second leaf gets the alias of the second leg. -/
theorem qualification_faithful_selfJoin :
    ∃ detected, detectJoin (fun _ => .ok "n.t") (.object [("from", selfJoin)]) =
        (.ok (.join detected) : Except String JoinShape) ∧
      ∃ out, detected.legs.qualifyEveryColumn (columnJson "ID" "t" "LHS_T0") = .ok out ∧
        out.ColumnAt [] ⟨"ID", some "t", some "LHS_T1"⟩ := by
  have shape : detectJoin (fun _ => .ok "n.t") (.object [("from", selfJoin)]) =
      (.ok (.join ⟨[⟨"T", some "A", "n.t"⟩, ⟨"T", some "LHS_T0", "n.t"⟩], [.bool true]⟩) :
        Except String JoinShape) := by
    have source : (Json.object [("from", selfJoin)]).get "from" = some selfJoin := rfl
    rw [detectJoin]
    simp only [source, collectJoinTree_selfJoin]
    rfl
  have distinct : DistinctLeaves [("T", some "A"), ("T", some "LHS_T0")] := by simp [DistinctLeaves]
  have faithful := qualification_faithful rfl collectJoinTree_selfJoin distinct shape
  refine ⟨_, shape, _, rfl, ?_⟩
  refine (faithful.1 (columnJson "ID" "t" "LHS_T0")).2 _ rfl |>.2 []
    ⟨"ID", some "t", some "LHS_T0"⟩ 1
    ⟨_, rfl, rfl⟩ ?_ ?_
  · rintro ⟨front, rest, column, same, -⟩
    cases front <;> cases same
  · exact ⟨_, "t", rfl, rfl, by decide, .inl rfl⟩

end Joins

end LakehouseEngine
