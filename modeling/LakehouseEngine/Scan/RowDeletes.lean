import LakehouseEngine.Scan.FileEntry
import LakehouseEngine.Scan.ObjectLocation
import Mathlib.Data.Finset.Union
import Mathlib.Data.List.Dedup
import Mathlib.Order.Basic

/-!
# Collecting the deleted positions of a shard

The positions come from positional delete files, whose rows name a data file and a row of
it, and from deletion vectors.  Row groups of a delete file are skipped by the statistics
of its path column, rows are matched to the shard's files by the text of their path, and
all sets of a file are united.
-/

namespace LakehouseEngine

/-! ## Delete files -/

inductive PhysicalType where
  | byteArray
  | other
  deriving DecidableEq, Repr

inductive DeleteColumnType where
  | utf8
  | largeUtf8
  | int64
  | other
  deriving DecidableEq, Repr

/-- A top-level column of a delete file with the leaves below it. -/
structure RootField where
  name : String
  fieldId : Option Int
  dataType : DeleteColumnType
  leaves : List PhysicalType
  deriving DecidableEq, Repr

inductive Statistics where
  | byteArray (min max : Option (List UInt8))
  | other
  deriving DecidableEq, Repr

/-- The chunk of one leaf column in a row group. -/
structure LeafChunk where
  statistics : Option Statistics
  values : List (List UInt8)
  start : Nat
  deriving DecidableEq, Repr

/-- The path and the position of a delete row, read from the two located columns. -/
structure DeleteRow where
  path : Option (List Char)
  pos : Option Int
  deriving DecidableEq, Repr

structure DeleteRowGroup where
  rows : List DeleteRow
  columns : List LeafChunk
  deriving DecidableEq, Repr

structure DeleteFile where
  fields : List RootField
  rowGroups : List DeleteRowGroup
  deriving DecidableEq, Repr

inductive DeleteError where
  | location (cause : LocationError)
  | equalityDelete (path : List Char)
  | noFilePathColumn
  | noPosColumn
  | posNotInt64
  | filePathType (dataType : Option DeleteColumnType)
  | negativePos (pos : Int)
  | unreadable (cause : String)
  deriving DecidableEq, Repr

def fieldIdPositionalDeleteFilePath : Int := 2147483546

def fieldIdPositionalDeletePos : Int := 2147483545

/-- A column by its field id, else by its name. -/
def locateColumn (fields : List RootField) (fieldId : Int) (name : String) : Option Nat :=
  (fields.findIdx? (·.fieldId = some fieldId)).or (fields.findIdx? (·.name = name))

def locateDeleteColumns (fields : List RootField) : Except DeleteError (Nat × Nat) :=
  match locateColumn fields fieldIdPositionalDeleteFilePath "file_path" with
  | none => .error .noFilePathColumn
  | some filePathIdx =>
      match locateColumn fields fieldIdPositionalDeletePos "pos" with
      | none => .error .noPosColumn
      | some posIdx => .ok (filePathIdx, posIdx)

/-- Whether the range of the path statistics holds an assigned path. -/
def deleteRowGroupMayMatch (rowGroup : DeleteRowGroup) (filePathIdx : Nat)
    (assigned : List (List Char)) : Bool :=
  match rowGroup.columns[filePathIdx]? with
  | none => true
  | some column =>
      match column.statistics with
      | some (.byteArray (some min) (some max)) =>
          assigned.any fun path => min ≤ utf8Bytes path && utf8Bytes path ≤ max
      | _ => true

def leafColumns (fields : List RootField) : List PhysicalType := fields.flatMap (·.leaves)

/-- The top-level column a leaf lies below. -/
def columnRootIdx : List RootField → Nat → Nat
  | [], _ => 0
  | field :: rest, leaf =>
      if leaf < field.leaves.length then 0
      else columnRootIdx rest (leaf - field.leaves.length) + 1

def projectedLeaves (fields : List RootField) (filePathIdx posIdx : Nat) : List Nat :=
  (List.range (leafColumns fields).length).filter fun leaf =>
    columnRootIdx fields leaf = filePathIdx || columnRootIdx fields leaf = posIdx

/-- The row groups that may hold a delete of an assigned file: those inside the bytes read
with the footer, and the others. -/
def openDeleteFile (assigned : List (List Char)) (tailStart : Nat) (file : DeleteFile) :
    Except DeleteError (List DeleteRowGroup × List DeleteRowGroup) := do
  let (filePathIdx, posIdx) ← locateDeleteColumns file.fields
  let kept := file.rowGroups.filter (deleteRowGroupMayMatch · filePathIdx assigned)
  return kept.partition fun rowGroup =>
    (projectedLeaves file.fields filePathIdx posIdx).all fun leaf =>
      rowGroup.columns[leaf]?.all fun column => tailStart ≤ column.start

/-! ## Decoding rows -/

/-- A set of positions for each data file, empty where there is none. -/
def PositionSets := List Char → Finset ℕ

namespace PositionSets

def empty : PositionSets := fun _ => ∅

def single (path : List Char) (positions : Finset ℕ) : PositionSets :=
  fun other => if other = path then positions else ∅

end PositionSets

def addPositions (sets : PositionSets) (path : List Char) (positions : List ℕ) : PositionSets :=
  if positions = [] then sets
  else fun other => if other = path then sets other ∪ positions.toFinset else sets other

/-- The sets so far, and the path of the open run with its positions not yet in a set.  A
run of a file that is not assigned collects nothing. -/
structure DecodeState where
  sets : PositionSets
  run : Option (List Char × Option (List ℕ))

def DecodeState.flush (assigned : List Char → Option (List Char)) (state : DecodeState) :
    DecodeState :=
  match state.run with
  | some (path, some bucket) =>
      { sets := addPositions state.sets ((assigned path).getD []) bucket
        run := some (path, some []) }
  | _ => state

/-- Open a run of `path`, unless the last row had the same path. -/
def DecodeState.enter (assigned : List Char → Option (List Char)) (path : List Char)
    (state : DecodeState) : DecodeState :=
  if state.run.any (·.1 = path) then state
  else { (state.flush assigned) with run := some (path, (assigned path).map fun _ => []) }

def decodeRow (assigned : List Char → Option (List Char)) (state : DecodeState) (row : DeleteRow) :
    Except DeleteError DecodeState :=
  match row.pos, row.path with
  | some pos, some path =>
      let state := state.enter assigned path
      match state.run with
      | some (current, some bucket) =>
          if pos < 0 then .error (.negativePos pos)
          else .ok { state with run := some (current, some (bucket ++ [pos.toNat])) }
      | _ => .ok state
  | _, _ => .ok state

def checkDeleteColumnTypes (fields : List RootField) : Except DeleteError Unit := do
  let (filePathIdx, posIdx) ← locateDeleteColumns fields
  if fields[posIdx]?.map RootField.dataType ≠ some .int64 then .error .posNotInt64
  let pathType := fields[filePathIdx]?.map RootField.dataType
  if pathType ≠ some .utf8 ∧ pathType ≠ some .largeUtf8 then .error (.filePathType pathType)

def decodeBatch (assigned : List Char → Option (List Char)) (fields : List RootField)
    (state : DecodeState) (batch : List DeleteRow) : Except DeleteError DecodeState := do
  checkDeleteColumnTypes fields
  let state ← batch.foldlM (decodeRow assigned) state
  return state.flush assigned

def decodeRowGroups (assigned : List Char → Option (List Char)) (fields : List RootField)
    (batches : List (List DeleteRow)) : Except DeleteError PositionSets :=
  (batches.foldlM (decodeBatch assigned fields) { sets := .empty, run := none }).map (·.sets)

/-- The union of all sets of a file. -/
def unionByDataFile (sets : List PositionSets) : PositionSets :=
  fun path => sets.foldl (fun union set => union ∪ set path) ∅

/-! ## The shard -/

/-- What the scan reads: the delete files, the deletion vectors, the cuts into batches and
the order in which the reads complete. -/
structure DeleteReads (Vector : Type) where
  file : List Char → Except String DeleteFile
  tailStart : List Char → Nat
  /-- A vector of a data file, refused if it is malformed. -/
  resolve : List Char → DeleteMechanism → Except String Vector
  decode : List Char → Vector → Except String (Finset ℕ)
  batches : List DeleteRow → List (List DeleteRow)
  batches_flatten : ∀ rows, (batches rows).flatten = rows
  fileOrder : List (List Char) → List (List Char)
  fileOrder_perm : ∀ paths, (fileOrder paths).Perm paths
  completion : List PositionSets → List PositionSets
  completion_perm : ∀ sets, (completion sets).Perm sets

inductive ApplicableDelete (Vector : Type) where
  | positionalDeleteFile (path : List Char)
  | deletionVector (dataFile : List Char) (vector : Vector)

variable {Vector : Type}

/-- Reads that complete in the order of the request, each in one batch. -/
def DeleteReads.inOrder (file : List Char → Except String DeleteFile)
    (resolve : List Char → DeleteMechanism → Except String Vector)
    (decode : List Char → Vector → Except String (Finset ℕ)) : DeleteReads Vector where
  file
  tailStart _ := 0
  resolve
  decode
  batches rows := [rows]
  batches_flatten _ := List.flatten_singleton
  fileOrder := id
  fileOrder_perm _ := .refl _
  completion := id
  completion_perm _ := .refl _

def applicableDeleteMechanism (reads : DeleteReads Vector) (dataFile : List Char) :
    DeleteMechanism → Except DeleteError (ApplicableDelete Vector)
  | .icebergPositionalDelete path _ => .ok (.positionalDeleteFile path.toList)
  | .icebergEqualityDelete path _ => .error (.equalityDelete path.toList)
  | delete =>
      ((reads.resolve dataFile delete).mapError .unreadable).map (.deletionVector dataFile)

def ApplicableDelete.deleteFile : ApplicableDelete Vector → Option (List Char)
  | .positionalDeleteFile path => some path
  | .deletionVector .. => none

def ApplicableDelete.vector : ApplicableDelete Vector → Option (List Char × Vector)
  | .positionalDeleteFile _ => none
  | .deletionVector dataFile vector => some (dataFile, vector)

/-- The assigned files by their location text; a later file replaces an earlier one. -/
def assignedUri (assigned : List (List Char × List Char)) (path : List Char) :
    Option (List Char) :=
  assigned.reverse.lookup path

/-- The row groups that one opened delete file decodes at a time. -/
def rowGroupReads (opened : List DeleteRowGroup × List DeleteRowGroup) :
    List (List DeleteRowGroup) :=
  (if opened.1 = [] then [] else [opened.1]) ++ opened.2.map fun rowGroup => [rowGroup]

def readDeleteFile (reads : DeleteReads Vector) (assigned : List (List Char × List Char))
    (path : List Char) : Except DeleteError (List PositionSets) := do
  let file ← (reads.file path).mapError .unreadable
  let opened ← openDeleteFile (assigned.map (·.1)) (reads.tailStart path) file
  (rowGroupReads opened).mapM fun rowGroups =>
    decodeRowGroups (assignedUri assigned) file.fields
      (reads.batches (rowGroups.flatMap (·.rows)))

def readVector (reads : DeleteReads Vector) (tableRoot : List Char)
    (member : List Char × Vector) : Except DeleteError PositionSets :=
  ((reads.decode member.1 member.2).mapError .unreadable).map
    (PositionSets.single (reconstructAbsUri member.1 tableRoot))

def assignFile (rules : Url.Rules) (tableRoot : List Char) (entry : FileEntry) :
    Except DeleteError (List Char × List Char) :=
  ((ObjectLocation.parseEntry rules entry.path.toList tableRoot).mapError .location).map
    fun location => (location.display, reconstructAbsUri entry.path.toList tableRoot)

/-- The deleted positions of each data file, by its absolute path. -/
def collectPositions (rules : Url.Rules) (reads : DeleteReads Vector) (files : List FileEntry)
    (tableRoot : List Char) : Except DeleteError PositionSets := do
  let applicable ← (files.flatMap fun entry => entry.deletes.map fun delete =>
    (entry.path.toList, delete)).mapM fun (path, delete) =>
      applicableDeleteMechanism reads path delete
  let deleteFiles := (applicable.filterMap ApplicableDelete.deleteFile).dedup
  let assigned ← files.mapM (assignFile rules tableRoot)
  let vectors ← (applicable.filterMap ApplicableDelete.vector).mapM (readVector reads tableRoot)
  let opened ← (reads.fileOrder deleteFiles).mapM (readDeleteFile reads assigned)
  return unionByDataFile (reads.completion (vectors ++ opened.flatten))

/-! ## Skipping row groups -/

/-- The first leaf below a top-level column. -/
def leafIndex (fields : List RootField) (root : Nat) : Nat :=
  (leafColumns (fields.take root)).length

/-- The column is one leaf of text. -/
def isTextColumn (fields : List RootField) (root : Nat) : Bool :=
  fields[root]?.map (·.leaves) = some [.byteArray]

/-- A row group as Parquet writes it: statistics are of their leaf's own type and bound all its
values, and the rows' paths are in the leaf of the path column. -/
structure Described (fields : List RootField) (filePathIdx : Nat) (rowGroup : DeleteRowGroup) :
    Prop where
  typed : ∀ (leaf : Nat) (column : LeafChunk) (min max : Option (List UInt8)),
    rowGroup.columns[leaf]? = some column → column.statistics = some (.byteArray min max) →
      (leafColumns fields)[leaf]? = some .byteArray
  bounded : ∀ column ∈ rowGroup.columns, ∀ min max : Option (List UInt8),
    column.statistics = some (.byteArray min max) → ∀ value ∈ column.values,
      (∀ bound, min = some bound → bound ≤ value) ∧ ∀ bound, max = some bound → value ≤ bound
  paths : ∀ row ∈ rowGroup.rows, ∀ path, row.path = some path →
    isTextColumn fields filePathIdx = true ∧
    ∃ column, rowGroup.columns[leafIndex fields filePathIdx]? = some column ∧
      utf8Bytes path ∈ column.values

/-- The chunk at the path column's root index is its own leaf, or has no text statistics. -/
def PathAligned (fields : List RootField) (filePathIdx : Nat) : Prop :=
  isTextColumn fields filePathIdx = true → (leafColumns fields)[filePathIdx]? = some .byteArray →
    leafIndex fields filePathIdx = filePathIdx

instance (fields : List RootField) (filePathIdx : Nat) :
    Decidable (PathAligned fields filePathIdx) :=
  inferInstanceAs (Decidable (_ → _))

variable {fields : List RootField}

theorem deleteRowGroupMayMatch_of_aligned {filePathIdx : Nat}
    {rowGroup : DeleteRowGroup} (aligned : PathAligned fields filePathIdx)
    (described : Described fields filePathIdx rowGroup) {assigned : List (List Char)}
    {row : DeleteRow} {path : List Char} (member : row ∈ rowGroup.rows)
    (named : row.path = some path) (wanted : path ∈ assigned) :
    deleteRowGroupMayMatch rowGroup filePathIdx assigned = true := by
  unfold deleteRowGroupMayMatch
  split
  · rfl
  case h_2 column here =>
    split
    case h_1 min max bounds =>
      obtain ⟨text, leaf, there, value⟩ := described.paths row member path named
      have own := aligned text (described.typed filePathIdx column _ _ here bounds)
      rw [own, here, Option.some.injEq] at there
      subst there
      obtain ⟨low, high⟩ := described.bounded column (List.mem_of_getElem? here) _ _ bounds _ value
      rw [List.any_eq_true]
      exact ⟨path, wanted, by simp [low min rfl, high max rfl]⟩
    · rfl

theorem openDeleteFile_eq {file : DeleteFile} {filePathIdx posIdx tailStart : Nat}
    {assigned : List (List Char)} (located : locateDeleteColumns file.fields =
      .ok (filePathIdx, posIdx)) :
    ∃ opened, openDeleteFile assigned tailStart file = .ok opened ∧
      ∀ rowGroup, rowGroup ∈ opened.1 ∨ rowGroup ∈ opened.2 ↔ rowGroup ∈ file.rowGroups ∧
        deleteRowGroupMayMatch rowGroup filePathIdx assigned = true := by
  simp only [openDeleteFile, located, bind, Except.bind, pure, Except.pure, Except.ok.injEq,
    exists_eq_left']
  intro rowGroup
  have parts (inTail : DeleteRowGroup → Bool) (kept : List DeleteRowGroup) :
      rowGroup ∈ (kept.partition inTail).1 ∨ rowGroup ∈ (kept.partition inTail).2 ↔
        rowGroup ∈ kept := by
    simp only [List.partition_eq_filter_filter, List.mem_filter]
    cases side : inTail rowGroup <;> simp [side]
  rw [parts, List.mem_filter]

/-- A path column behind a nested column: its statistics are looked up at another leaf. -/
def misplacedGroup (fields : List RootField) (filePathIdx : Nat) (path : List Char) :
    DeleteRowGroup where
  rows := [{ path := some path, pos := some 0 }]
  columns := (List.range (leafColumns fields).length).map fun leaf =>
    { statistics := if leaf = filePathIdx then some (.byteArray (some []) (some [])) else none
      values := if leaf = leafIndex fields filePathIdx then [utf8Bytes path] else []
      start := 0 }

theorem leafIndex_lt {root : Nat} (text : isTextColumn fields root = true) :
    leafIndex fields root < (leafColumns fields).length := by
  simp only [isTextColumn, decide_eq_true_eq, Option.map_eq_some_iff] at text
  obtain ⟨field, here, single⟩ := text
  obtain ⟨inside, same⟩ := List.getElem?_eq_some_iff.mp here
  have cut : fields = fields.take root ++ field :: fields.drop (root + 1) := by
    rw [← same, ← List.drop_eq_getElem_cons inside, List.take_append_drop]
  have total : (leafColumns fields).length =
      leafIndex fields root + (1 + (leafColumns (fields.drop (root + 1))).length) := by
    conv_lhs => rw [cut]
    simp [leafColumns, leafIndex, single]
    omega
  omega

theorem misplacedGroup_column {filePathIdx leaf : Nat} {path : List Char}
    {column : LeafChunk} (here : (misplacedGroup fields filePathIdx path).columns[leaf]? =
      some column) :
    column.statistics =
        (if leaf = filePathIdx then some (.byteArray (some []) (some [])) else none) ∧
      column.values = if leaf = leafIndex fields filePathIdx then [utf8Bytes path] else [] := by
  simp only [misplacedGroup, List.getElem?_map, Option.map_eq_some_iff] at here
  obtain ⟨index, found, rfl⟩ := here
  have same : leaf = index := by
    obtain ⟨bound, value⟩ := List.getElem?_eq_some_iff.mp found
    simpa using value
  simp [same]

theorem misplacedGroup_described {filePathIdx : Nat} {path : List Char}
    (misplaced : ¬PathAligned fields filePathIdx) :
    Described fields filePathIdx (misplacedGroup fields filePathIdx path) := by
  simp only [PathAligned, Classical.not_imp] at misplaced
  obtain ⟨textColumn, text, elsewhere⟩ := misplaced
  have inside : leafIndex fields filePathIdx < (leafColumns fields).length :=
    leafIndex_lt textColumn
  refine ⟨?_, ?_, ?_⟩
  · intro leaf column min max here bounds
    rw [(misplacedGroup_column here).1] at bounds
    split_ifs at bounds with same
    rwa [same]
  · intro column member min max bounds value present
    obtain ⟨leaf, here⟩ := List.getElem?_of_mem member
    obtain ⟨statistics, values⟩ := misplacedGroup_column here
    rw [statistics] at bounds
    split_ifs at bounds with same
    rw [values, if_neg (by omega)] at present
    cases present
  · intro row member named text
    have only : row = { path := some path, pos := some 0 } := by
      simpa [misplacedGroup] using member
    rw [only, Option.some.injEq] at text
    refine ⟨textColumn, _, List.getElem?_eq_getElem (by simpa [misplacedGroup] using inside), ?_⟩
    rw [(misplacedGroup_column (List.getElem?_eq_getElem _)).2, if_pos rfl, ← text]
    simp

/-- Its statistics hold the empty text only, so no file is found in it. -/
theorem misplacedGroup_skipped {fields : List RootField} {filePathIdx : Nat} {path : List Char}
    (misplaced : ¬PathAligned fields filePathIdx) {assigned : List (List Char)}
    (nonempty : ∀ other ∈ assigned, other ≠ []) :
    deleteRowGroupMayMatch (misplacedGroup fields filePathIdx path) filePathIdx assigned =
      false := by
  simp only [PathAligned, Classical.not_imp] at misplaced
  have present : filePathIdx < (misplacedGroup fields filePathIdx path).columns.length := by
    obtain ⟨bound, -⟩ := List.getElem?_eq_some_iff.mp misplaced.2.1
    simpa [misplacedGroup] using bound
  have column := List.getElem?_eq_getElem present
  unfold deleteRowGroupMayMatch
  rw [column]
  simp only [(misplacedGroup_column column).1, if_true]
  rw [List.any_eq_false]
  intro other member
  have bytes : utf8Bytes other ≠ [] := by
    intro empty
    exact nonempty other member (utf8Bytes_injective (by rw [empty]; rfl))
  cases shape : utf8Bytes other with
  | nil => exact absurd shape bytes
  | cons first rest => simp [List.le_nil]

/-- A row group with a delete row of an assigned file is read, whatever its statistics,
exactly if the chunk at the path column's root index is its own leaf or has no text
statistics. -/
theorem delete_row_groups_kept_iff (fields : List RootField) (filePathIdx posIdx : Nat)
    (located : locateDeleteColumns fields = .ok (filePathIdx, posIdx)) :
    (∀ rowGroups : List DeleteRowGroup,
      (∀ rowGroup ∈ rowGroups, Described fields filePathIdx rowGroup) →
      ∀ assigned tailStart opened,
        openDeleteFile assigned tailStart { fields, rowGroups } = .ok opened →
        ∀ rowGroup ∈ rowGroups, ∀ row ∈ rowGroup.rows, ∀ path ∈ assigned, row.path = some path →
          rowGroup ∈ opened.1 ∨ rowGroup ∈ opened.2) ↔
      PathAligned fields filePathIdx := by
  constructor
  · intro kept
    by_contra misplaced
    have skipped := @misplacedGroup_skipped fields filePathIdx ['a'] misplaced [['a']] (by simp)
    let group := misplacedGroup fields filePathIdx ['a']
    let file : DeleteFile := { fields, rowGroups := [group] }
    obtain ⟨opened, read, members⟩ :=
      @openDeleteFile_eq file filePathIdx posIdx 0 [['a']] located
    have found := kept [group] (by simpa using misplacedGroup_described misplaced) [['a']] 0 opened
      read group (by simp) { path := some ['a'], pos := some 0 }
        (by simp [group, misplacedGroup]) ['a']
      (by simp) rfl
    rw [members, skipped] at found
    simp at found
  · intro aligned rowGroups described assigned tailStart opened read rowGroup member row
      inGroup path
      wanted named
    obtain ⟨again, reread, members⟩ :=
      @openDeleteFile_eq { fields, rowGroups } filePathIdx posIdx tailStart assigned located
    rw [read, Except.ok.injEq] at reread
    rw [reread, members]
    exact ⟨member, deleteRowGroupMayMatch_of_aligned aligned (described rowGroup member) inGroup
      named wanted⟩

/-- The columns the table format prescribes, and nothing else. -/
def plainDeleteFields : List RootField :=
  [{ name := "file_path", fieldId := some 2147483546, dataType := .utf8, leaves := [.byteArray] },
    { name := "pos", fieldId := some 2147483545, dataType := .int64, leaves := [.other] }]

theorem delete_row_groups_kept_plain :
    locateDeleteColumns plainDeleteFields = .ok (0, 1) ∧ ∀ rowGroups : List DeleteRowGroup,
      (∀ rowGroup ∈ rowGroups, Described plainDeleteFields 0 rowGroup) →
      ∀ assigned tailStart opened,
        openDeleteFile assigned tailStart { fields := plainDeleteFields, rowGroups } = .ok opened →
        ∀ rowGroup ∈ rowGroups, ∀ row ∈ rowGroup.rows, ∀ path ∈ assigned, row.path = some path →
          rowGroup ∈ opened.1 ∨ rowGroup ∈ opened.2 :=
  ⟨rfl, (delete_row_groups_kept_iff plainDeleteFields 0 1 rfl).mpr (by decide)⟩

/-- A struct of two texts in front of the path column. -/
def nestedDeleteFields : List RootField :=
  { name := "row", fieldId := none, dataType := .other, leaves := [.byteArray, .byteArray] } ::
    plainDeleteFields

/-- Behind a struct, the row group of an assigned file is skipped by the statistics of the
struct's second text. -/
theorem nested_column_skips_deletes :
    locateDeleteColumns nestedDeleteFields = .ok (1, 2) ∧
      Described nestedDeleteFields 1 (misplacedGroup nestedDeleteFields 1 ['a']) ∧
      (∃ row ∈ (misplacedGroup nestedDeleteFields 1 ['a']).rows, row.path = some ['a']) ∧
      (openDeleteFile [['a']] 0
        ⟨nestedDeleteFields, [misplacedGroup nestedDeleteFields 1 ['a']]⟩).toOption =
          some ([], []) :=
  ⟨rfl, misplacedGroup_described (by decide), by decide, by decide +kernel⟩

end LakehouseEngine
