import LakehouseEngine.Data.Fallible
import LakehouseEngine.Types.Widening

/-!
# The folded schema of a directory of Parquet files

The columns of a directory are those of its files, each at the widest type a file
stores it at.  The files are read in listing order, and a column keeps the widest type
so far.
-/

namespace LakehouseEngine.ParquetDirectory

section Fold

variable [Unicode]

structure ListedFile where
  path : String
  /-- Every `key=value` directory below the listed location. -/
  partitionSegments : List (String × Option String)

def segmentKeys (file : ListedFile) : List String := file.partitionSegments.map (·.1)

structure StoredField where
  name : String
  dataType : ArrowType

inductive PhysicalType where
  | byteArray | other
  deriving DecidableEq

inductive LogicalType where
  | enum | geometry | geography | other
  deriving DecidableEq

inductive ConvertedType where
  | enum | other
  deriving DecidableEq

/-- A leaf of a file's Parquet schema, under the top-level column it belongs to. -/
structure Leaf where
  column : String
  members : List String
  maxRepLevel : ℕ
  physicalType : PhysicalType
  logicalType : Option LogicalType
  convertedType : ConvertedType

inductive LeafKind where
  | readable
  | enum
  | refused (declared : String)
  deriving DecidableEq

/-- The logical type decides, and the converted type only where there is none. -/
def classifyLeaf (leaf : Leaf) : LeafKind :=
  match leaf.physicalType, leaf.logicalType, leaf.convertedType with
  | .byteArray, some .enum, _ | .byteArray, none, .enum => .enum
  | .byteArray, some .geometry, _ => .refused "geometry"
  | .byteArray, some .geography, _ => .refused "geography"
  | _, _, _ => .readable

structure RefusedLeaf where
  column : String
  memberPath : Option String
  declared : String
  nestedEnum : Bool

/-- What a footer says of its file. -/
structure Footer where
  fields : List StoredField
  leaves : List Leaf

structure FoldedColumn where
  name : String
  dataType : ArrowType
  /-- The file that contributed the type. -/
  source : String

inductive FoldError where
  | missingSegment (column key path : String)
  | unfoldablePair (column : FoldedColumn) (field : StoredField) (path : String)
  | collidingNames (column : FoldedColumn) (field : StoredField) (path : String)

/-- The message of an error; `debug` prints a type. -/
def FoldError.message (debug : ArrowType → String) : FoldError → String
  | .missingSegment column key path =>
      "Parquet column '" ++ column ++ "' in '" ++ path ++ "' collides with the partition key '" ++
      key ++ "=' once uppercased, but this file's own path carries no '" ++ key ++
      "=' segment — it has neither a directory value nor permission to fall back to its own " ++
      "stored value. Add the '" ++ key ++ "=' segment to this file's path or rename the column."
  | .unfoldablePair column field path =>
      "Parquet column '" ++ column.name ++ "' is declared as " ++
        debug column.dataType ++ " in '" ++
      column.source ++ "' and as " ++ debug field.dataType ++ " in '" ++ path ++
      "', and no supported type relaxation widens either to the other. Exclude the offending " ++
      "file or rewrite it at one type: declaring the column as a string, dropping it, or taking " ++
      "one file's type would each answer a correctness question by guessing."
  | .collidingNames column field path =>
      "Parquet columns '" ++ column.name ++ "' in '" ++ column.source ++ "' and '" ++ field.name ++
      "' in '" ++ path ++ "' are the same name once uppercased, so the declaration would " ++
      "advertise a duplicate column. Rename one of them."

structure SchemaFold where
  columns : List FoldedColumn
  firstRefusedLeaf : List (String × RefusedLeaf)
  enumColumns : List String

def SchemaFold.new : SchemaFold := ⟨[], [], []⟩

/-- The column of a field's uppercased name is widened, or a new one appended.  The
source finds it through an index from uppercased names to positions. -/
def foldField (path : String) (field : StoredField) :
    List FoldedColumn → Except FoldError (List FoldedColumn)
  | [] => .ok [⟨field.name, field.dataType, path⟩]
  | column :: columns =>
      if upper column.name = upper field.name then
        if column.name = field.name then
          match widen column.dataType field.dataType with
          | none => .error (.unfoldablePair column field path)
          | some wider =>
              if wider = column.dataType then .ok (column :: columns)
              else .ok ({ column with dataType := wider, source := path } :: columns)
        else .error (.collidingNames column field path)
      else (foldField path field columns).map (column :: ·)

/-- A column named like a partition key gives way to the key. -/
def addField (keyColumns : List (String × String)) (file : ListedFile)
    (columns : List FoldedColumn) (field : StoredField) : Except FoldError (List FoldedColumn) :=
  match keyColumns.lookup (upper field.name) with
  | some key =>
      if (segmentKeys file).any fun own => upper own == upper field.name then .ok columns
      else .error (.missingSegment field.name key file.path)
  | none => foldField file.path field columns

/-- The first refused leaf of a column stands for it. -/
def SchemaFold.refuse (fold : SchemaFold) (leaf : Leaf) (declared : String) (nestedEnum : Bool) :
    SchemaFold :=
  if (fold.firstRefusedLeaf.lookup leaf.column).isSome then fold
  else
    let memberPath :=
      if leaf.members = [] then none
      else some (".".intercalate (leaf.column :: leaf.members))
    { fold with firstRefusedLeaf := fold.firstRefusedLeaf ++
        [(leaf.column, ⟨leaf.column, memberPath, declared, nestedEnum⟩)] }

def isTopLevelScalar (leaf : Leaf) : Bool := leaf.members.isEmpty && leaf.maxRepLevel == 0

def SchemaFold.addLeaf (fold : SchemaFold) (leaf : Leaf) : SchemaFold :=
  match classifyLeaf leaf with
  | .readable => fold
  | .enum =>
      if isTopLevelScalar leaf then { fold with enumColumns := leaf.column :: fold.enumColumns }
      else fold.refuse leaf "enum" true
  | .refused declared => fold.refuse leaf declared false

def SchemaFold.add (keyColumns : List (String × String)) (fold : SchemaFold)
    (file : ListedFile × Footer) : Except FoldError SchemaFold := do
  let columns ← file.2.fields.foldlM (addField keyColumns file.1) fold.columns
  return file.2.leaves.foldl SchemaFold.addLeaf { fold with columns }

/-- An enumeration is folded as bytes but holds text. -/
def SchemaFold.declaredType (fold : SchemaFold) (column : FoldedColumn) : ArrowType :=
  if column.dataType = .binary ∧ column.name ∈ fold.enumColumns then .utf8 else column.dataType

def SchemaFold.finish (fold : SchemaFold) : List StoredField × List RefusedLeaf :=
  (fold.columns.map fun column => ⟨column.name, fold.declaredType column⟩,
    fold.columns.filterMap fun column => fold.firstRefusedLeaf.lookup column.name)

/-- The type a column has so far. -/
def typeOf (name : String) : List FoldedColumn → Option ArrowType
  | [] => none
  | column :: columns => if column.name = name then some column.dataType else typeOf name columns

omit [Unicode] in
theorem typeOf_isSome {columns : List FoldedColumn} {name : String} :
    (typeOf name columns).isSome ↔ ∃ column ∈ columns, column.name = name := by
  induction columns with
  | nil => simp [typeOf]
  | cons column columns ih =>
      by_cases same : column.name = name
      · simp [typeOf, same]
      · simp [typeOf, same, ih]

/-- No two columns share an uppercased name. -/
def Distinct (columns : List FoldedColumn) : Prop :=
  columns.Pairwise fun first second => upper first.name ≠ upper second.name

theorem Distinct.typeOf {columns : List FoldedColumn} (distinct : Distinct columns)
    {column : FoldedColumn} (member : column ∈ columns) :
    typeOf column.name columns = some column.dataType := by
  induction columns with
  | nil => cases member
  | cons first columns ih =>
      obtain ⟨fresh, distinct⟩ := List.pairwise_cons.mp distinct
      rcases List.mem_cons.mp member with rfl | member
      · exact if_pos rfl
      · have apart : first.name ≠ column.name :=
          fun same => fresh column member (congrArg upper same)
        rw [ParquetDirectory.typeOf, if_neg apart, ih distinct member]

/-- What folding in a field does to the columns. -/
structure Folds (columns : List FoldedColumn) (field : StoredField) (after : List FoldedColumn) :
    Prop where
  spelled : ∀ column ∈ columns, upper column.name = upper field.name → column.name = field.name
  widened : RunningMaximum.accumulate (typeOf field.name columns) field.dataType =
    some (typeOf field.name after)
  others : ∀ name, name ≠ field.name → typeOf name after = typeOf name columns
  distinct : Distinct after
  names : ∀ column ∈ after, column.name = field.name ∨ ∃ old ∈ columns, old.name = column.name

/-- A column that is there keeps its name and place. -/
theorem foldField_here {path : String} {field : StoredField} {column : FoldedColumn}
    {columns : List FoldedColumn} (same : column.name = field.name) :
    (∃ head wider, widen column.dataType field.dataType = some wider ∧ head.name = field.name ∧
      head.dataType = wider ∧ foldField path field (column :: columns) = .ok (head :: columns)) ∨
    widen column.dataType field.dataType = none ∧
      foldField path field (column :: columns) = .error (.unfoldablePair column field path) := by
  rw [foldField, if_pos (congrArg upper same), if_pos same]
  cases widened : widen column.dataType field.dataType with
  | none => exact .inr ⟨rfl, rfl⟩
  | some wider =>
      left
      by_cases kept : wider = column.dataType
      · exact ⟨column, wider, rfl, same, kept.symm, if_pos kept⟩
      · exact ⟨{ column with dataType := wider, source := path }, wider, rfl, same, rfl,
          if_neg kept⟩

theorem foldField_ok {path : String} {field : StoredField} {columns after : List FoldedColumn}
    (distinct : Distinct columns) (folded : foldField path field columns = .ok after) :
    Folds columns field after := by
  induction columns generalizing after with
  | nil =>
      cases folded
      exact {
        spelled := List.forall_mem_nil _
        widened := by simp [typeOf, RunningMaximum.accumulate]
        others := fun name other => by simp [typeOf, other.symm]
        distinct := List.pairwise_singleton ..
        names := by simp }
  | cons column columns ih =>
      obtain ⟨fresh, rest⟩ := List.pairwise_cons.mp distinct
      by_cases sameKey : upper column.name = upper field.name
      · by_cases same : column.name = field.name
        · rcases @foldField_here _ path field column columns same with ⟨head, wider, widened, named,
            typed, result⟩ | ⟨-, refused⟩
          · rw [result] at folded
            cases folded
            exact {
              spelled := by
                intro other member otherKey
                rcases List.mem_cons.mp member with rfl | member
                · exact same
                · exact absurd (sameKey.trans otherKey.symm) (fresh other member)
              widened := by
                rw [widen_eq_join] at widened
                simp [typeOf, same, named, RunningMaximum.accumulate, widened, typed]
              others := fun name other => by simp [typeOf, same, named, other.symm]
              distinct := by
                refine List.pairwise_cons.mpr ⟨fun other member => ?_, rest⟩
                rw [named, ← same]
                exact fresh other member
              names := by
                intro other member
                rcases List.mem_cons.mp member with rfl | member
                · exact .inl named
                · exact .inr ⟨other, List.mem_cons_of_mem _ member, rfl⟩ }
          · rw [refused] at folded
            cases folded
        · rw [foldField, if_pos sameKey, if_neg same] at folded
          cases folded
      · have other : column.name ≠ field.name := fun same => sameKey (congrArg upper same)
        rw [foldField, if_neg sameKey] at folded
        cases inner : foldField path field columns with
        | error error =>
            rw [inner] at folded
            cases folded
        | ok tail =>
            rw [inner] at folded
            cases folded
            have folds := ih rest inner
            exact {
              spelled := by
                refine List.forall_mem_cons.mpr ⟨fun key => absurd key sameKey, folds.spelled⟩
              widened := by
                simp only [typeOf, if_neg other]
                exact folds.widened
              others := by
                intro name apart
                simp only [typeOf, folds.others name apart]
              distinct := by
                refine List.pairwise_cons.mpr ⟨fun next member => ?_, folds.distinct⟩
                rcases folds.names next member with named | ⟨old, oldMember, named⟩
                · rw [named]
                  exact sameKey
                · rw [← named]
                  exact fresh old oldMember
              names := by
                intro next member
                rcases List.mem_cons.mp member with rfl | member
                · exact .inr ⟨next, List.mem_cons_self, rfl⟩
                · rcases folds.names next member with named | ⟨old, oldMember, named⟩
                  · exact .inl named
                  · exact .inr ⟨old, List.mem_cons_of_mem _ oldMember, named⟩ }

section Columns

variable (keyColumns : List (String × String))

/-- A field that is not dropped in favour of a partition key. -/
def isFolded (field : StoredField) : Bool := (keyColumns.lookup (upper field.name)).isNone

/-- The types a column is stored at, in the order they are read. -/
def storedTypes (name : String) (stored : List (ListedFile × StoredField)) : List ArrowType :=
  (stored.filter fun pair => isFolded keyColumns pair.2 && pair.2.name == name).map (·.2.dataType)

/-- Nothing but the types can refuse the fields. -/
structure Consistent (stored : List (ListedFile × StoredField)) : Prop where
  segments : ∀ pair ∈ stored, isFolded keyColumns pair.2 = false →
    ∃ own ∈ segmentKeys pair.1, upper own = upper pair.2.name
  spelled : ∀ pair ∈ stored, ∀ other ∈ stored, isFolded keyColumns pair.2 = true →
    isFolded keyColumns other.2 = true → upper pair.2.name = upper other.2.name →
    pair.2.name = other.2.name

def addPair (columns : List FoldedColumn) (pair : ListedFile × StoredField) :
    Except FoldError (List FoldedColumn) := addField keyColumns pair.1 columns pair.2

variable {keyColumns} {stored : List (ListedFile × StoredField)} {columns : List FoldedColumn}

theorem storedTypes_concat (name : String) (pair : ListedFile × StoredField) :
    storedTypes keyColumns name (stored ++ [pair]) = storedTypes keyColumns name stored ++
      if isFolded keyColumns pair.2 = true ∧ pair.2.name = name then [pair.2.dataType] else [] := by
  by_cases folded : isFolded keyColumns pair.2 = true ∧ pair.2.name = name
  · simp [storedTypes, folded.1, folded.2]
  · rw [if_neg folded]
    rw [not_and] at folded
    simpa [storedTypes] using folded

theorem addField_folded {file : ListedFile} {field : StoredField}
    (folded : isFolded keyColumns field = true) :
    addField keyColumns file columns field = foldField file.path field columns := by
  unfold addField
  rw [Option.isNone_iff_eq_none.mp folded]

theorem addField_dropped {file : ListedFile} {field : StoredField}
    (dropped : isFolded keyColumns field = false) {after : List FoldedColumn} :
    addField keyColumns file columns field = .ok after ↔
      (∃ own ∈ segmentKeys file, upper own = upper field.name) ∧ after = columns := by
  obtain ⟨key, found⟩ := Option.ne_none_iff_exists'.mp
    (Option.isNone_eq_false_iff.mp dropped |> Option.isSome_iff_ne_none.mp)
  unfold addField
  rw [found]
  simp only [List.any_eq_true, beq_iff_eq]
  split
  · next carried => simp [carried, eq_comm]
  · next carried => simp [carried]

/-- The columns after a list of fields, if none refused. -/
structure FoldsAll (keyColumns : List (String × String)) (stored : List (ListedFile × StoredField))
    (columns : List FoldedColumn) : Prop where
  distinct : Distinct columns
  consistent : Consistent keyColumns stored
  types : ∀ name, RunningMaximum.run (storedTypes keyColumns name stored) =
    some (typeOf name columns)

theorem storedTypes_eq_nil {name : String} : storedTypes keyColumns name stored = [] ↔
    ∀ pair ∈ stored, isFolded keyColumns pair.2 = true → pair.2.name ≠ name := by
  simp [storedTypes]

/-- The columns are those of the fields that are not dropped. -/
theorem FoldsAll.exists_column (folds : FoldsAll keyColumns stored columns) {name : String} :
    (∃ column ∈ columns, column.name = name) ↔
      ∃ pair ∈ stored, isFolded keyColumns pair.2 = true ∧ pair.2.name = name := by
  rw [← typeOf_isSome, Option.isSome_iff_ne_none, ne_eq, ← not_iff_not, not_not]
  have types := folds.types name
  constructor
  · intro none
    rw [none, RunningMaximum.run_eq_some_none, storedTypes_eq_nil] at types
    simpa using types
  · intro none
    have empty : storedTypes keyColumns name stored = [] := by
      rw [storedTypes_eq_nil]
      simpa using none
    rw [empty] at types
    exact (Option.some.inj types).symm

variable {pair : ListedFile × StoredField}

theorem consistent_concat :
    Consistent keyColumns (stored ++ [pair]) ↔ Consistent keyColumns stored ∧
      (isFolded keyColumns pair.2 = false → ∃ own ∈ segmentKeys pair.1, upper own =
        upper pair.2.name) ∧
      (isFolded keyColumns pair.2 = true → ∀ other ∈ stored, isFolded keyColumns other.2 = true →
        upper other.2.name = upper pair.2.name → other.2.name = pair.2.name) := by
  have last : pair ∈ stored ++ [pair] := List.mem_append_right _ (List.mem_singleton_self pair)
  constructor
  · intro consistent
    refine ⟨⟨fun other member => ?_, fun one first two second => ?_⟩,
      consistent.segments pair last, ?_⟩
    · exact consistent.segments other (List.mem_append_left _ member)
    · exact consistent.spelled one (List.mem_append_left _ first) two
        (List.mem_append_left _ second)
    · intro folded other member otherFolded
      exact consistent.spelled other (List.mem_append_left _ member) pair last otherFolded folded
  · rintro ⟨before, dropped, folded⟩
    constructor
    · intro other member
      rcases List.mem_append.mp member with member | member
      · exact before.segments other member
      · rw [List.mem_singleton.mp member]
        exact dropped
    · intro one first two second oneFolded twoFolded same
      rcases List.mem_append.mp first with first | first <;>
        rcases List.mem_append.mp second with second | second
      · exact before.spelled one first two second oneFolded twoFolded same
      · cases List.mem_singleton.mp second
        exact folded twoFolded one first oneFolded same
      · cases List.mem_singleton.mp first
        exact (folded oneFolded two second twoFolded same.symm).symm
      · rw [List.mem_singleton.mp first, List.mem_singleton.mp second]

theorem run_storedTypes_concat (folded : isFolded keyColumns pair.2 = true) :
    RunningMaximum.run (storedTypes keyColumns pair.2.name (stored ++ [pair])) =
      (RunningMaximum.run (storedTypes keyColumns pair.2.name stored)).bind
        (RunningMaximum.accumulate · pair.2.dataType) := by
  rw [storedTypes_concat, if_pos ⟨folded, rfl⟩, RunningMaximum.run_concat]

theorem FoldsAll.concat {after : List FoldedColumn}
    (folds : FoldsAll keyColumns stored columns)
    (added : addPair keyColumns columns pair = .ok after) :
    FoldsAll keyColumns (stored ++ [pair]) after := by
  unfold addPair at added
  cases folded : isFolded keyColumns pair.2 with
  | false =>
      obtain ⟨carried, rfl⟩ := (addField_dropped folded).mp added
      refine ⟨folds.distinct, consistent_concat.mpr ⟨folds.consistent, fun _ => carried, ?_⟩, ?_⟩
      · simp [folded]
      · intro name
        rw [storedTypes_concat, if_neg (by simp [folded]), List.append_nil]
        exact folds.types name
  | true =>
      rw [addField_folded folded] at added
      have step := foldField_ok folds.distinct added
      refine ⟨step.distinct, consistent_concat.mpr ⟨folds.consistent, by simp [folded], ?_⟩, ?_⟩
      · intro _ other member otherFolded same
        obtain ⟨column, there, named⟩ := folds.exists_column.mpr ⟨other, member, otherFolded, rfl⟩
        rw [← named] at same ⊢
        exact step.spelled column there same
      · intro name
        by_cases same : name = pair.2.name
        · rw [same, run_storedTypes_concat folded, folds.types, Option.bind_some, step.widened]
        · rw [storedTypes_concat, if_neg (by simp [Ne.symm same]), List.append_nil, folds.types,
            step.others name same]

end Columns

/-! ## Whole files -/

section Files

variable (keyColumns : List (String × String))

variable {keyColumns}

/-- The types each file stores a column at. -/
def fileTypes (keyColumns : List (String × String)) (name : String) (file : ListedFile × Footer) :
    List ArrowType :=
  storedTypes keyColumns name (file.2.fields.map (file.1, ·))

variable {files other : List (ListedFile × Footer)}

variable (keyColumns) in
/-- Every column has a greatest type among those it is stored at. -/
def Bounded (files : List (ListedFile × Footer)) : Prop :=
  ∀ name, files.flatMap (fileTypes keyColumns name) ≠ [] →
    ∃ type, IsGreatest {stored | stored ∈ files.flatMap (fileTypes keyColumns name)} type

theorem Consistent.perm {stored other : List (ListedFile × StoredField)}
    (consistent : Consistent keyColumns stored) (permuted : stored.Perm other) :
    Consistent keyColumns other where
  segments pair member := consistent.segments pair (permuted.mem_iff.mpr member)
  spelled pair first next second :=
    consistent.spelled pair (permuted.mem_iff.mpr first) next (permuted.mem_iff.mpr second)

end Files

end Fold

section Instances

local instance schemaUnicode : Unicode := Unicode.ascii

end Instances

end LakehouseEngine.ParquetDirectory
