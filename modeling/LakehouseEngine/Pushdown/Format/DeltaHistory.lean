import LakehouseEngine.Data.Placement
import LakehouseEngine.Pushdown.Format.DeltaPartitionValues
import Mathlib.Logic.Relation

/-!
# Renamed columns of a Delta table

A column keeps its id and its physical name when it is renamed, and the log records
partition values under the name that does not change.  Over every history of commits the
values planned for a declared partition column are therefore those that were written for
the column it binds to, whatever the column was called then.
-/

namespace LakehouseEngine.DeltaTable

/-- A column through all its names. -/
structure Column where
  identity : ℕ
  field : StructField

/-- A committed file with the values that were written for each column. -/
structure CommittedFile where
  path : String
  logged : PartitionValues
  written : ℕ → Option (Option String)

structure Table where
  mode : ColumnMappingMode
  columns : List Column
  partitions : List ℕ
  files : List CommittedFile

def Column.renamed (identity : ℕ) (name : String) (column : Column) : Column :=
  if column.identity = identity then { column with field := { column.field with name } } else column

/-- A column's name so far becomes its physical name. -/
def Column.upgraded (ids : ℕ → ℤ) (column : Column) : Column :=
  { column with field := { column.field with
      columnMappingId := some (ids column.identity)
      physicalName := some column.field.name } }

namespace Table

/-- The current name of a column. -/
def nameOf (table : Table) (identity : ℕ) : Option String :=
  (table.columns.find? fun column => column.identity = identity).map fun column => column.field.name

/-- What a reader sees. -/
def snapshot (table : Table) : Snapshot where
  schema := table.columns.map Column.field
  partitionColumns := table.partitions.filterMap table.nameOf
  mode := table.mode

def rename (table : Table) (identity : ℕ) (name : String) : Table :=
  { table with columns := table.columns.map (Column.renamed identity name) }

/-- Column mapping by name is turned on. -/
def upgrade (table : Table) (ids : ℕ → ℤ) : Table :=
  { table with mode := .name, columns := table.columns.map (Column.upgraded ids) }

/-- The entries that a writer logs. -/
def entries (table : Table) (written : ℕ → Option (Option String)) : PartitionValues :=
  OrderedMap.entries (fun column => logKey table.mode column.field)
    (fun column => written column.identity)
    (table.columns.filter fun column => table.partitions.contains column.identity)

end Table

/-- Two columns have the same key of some kind. -/
def Shares {κ : Type} (key : StructField → Option κ) (first second : Column) : Prop :=
  ∃ value, key first.field = some value ∧ key second.field = some value

/-- One commit to the log. -/
inductive Commit : Table → Table → Prop where
  | rename {table : Table} {column : Column} {name : String} (mapped : table.mode ≠ .none)
      (member : column ∈ table.columns)
      (fresh : ∀ other ∈ table.columns, other.identity ≠ column.identity →
        asciiLowercase other.field.name ≠ asciiLowercase name) :
      Commit table (table.rename column.identity name)
  | add {table : Table} {column : Column}
      (new : ∀ other ∈ table.columns, other.identity ≠ column.identity)
      (plain : column.identity ∉ table.partitions)
      (freshName : ∀ other ∈ table.columns,
        asciiLowercase other.field.name ≠ asciiLowercase column.field.name)
      (freshId : ∀ other ∈ table.columns, ¬ Shares StructField.columnMappingId other column)
      (freshPhysicalName : ∀ other ∈ table.columns, ¬ Shares StructField.physicalName other column)
      (mapped : table.mode ≠ .none → column.field.physicalName.isSome) :
      Commit table { table with columns := table.columns ++ [column] }
  | drop {table : Table} {identity : ℕ} (mapped : table.mode ≠ .none)
      (plain : identity ∉ table.partitions) :
      Commit table { table with columns := table.columns.filter fun column =>
        column.identity ≠ identity }
  | upgrade {table : Table} {ids : ℕ → ℤ} (unmapped : table.mode = .none)
      (injective : Function.Injective ids) : Commit table (table.upgrade ids)
  | write {table : Table} (path : String) (written : ℕ → Option (Option String)) :
      Commit table { table with files :=
        (table.files.filter fun file => file.path ≠ path) ++
          [⟨path, table.entries written, written⟩] }
  | remove {table : Table} (path : String) :
      Commit table { table with files := table.files.filter fun file => file.path ≠ path }

/-- No two columns share a name, an id or a physical name. -/
structure Distinct (mode : ColumnMappingMode) (columns : List Column) : Prop where
  once : (columns.map Column.identity).Nodup
  names : ∀ first ∈ columns, ∀ second ∈ columns,
    asciiLowercase first.field.name = asciiLowercase second.field.name → first.identity =
      second.identity
  ids : ∀ first ∈ columns, ∀ second ∈ columns, Shares StructField.columnMappingId first second →
    first.identity = second.identity
  physicalNames : ∀ first ∈ columns, ∀ second ∈ columns,
    Shares StructField.physicalName first second →
    first.identity = second.identity
  mapped : mode ≠ .none → ∀ column ∈ columns, column.field.physicalName.isSome

/-- The log gives each partition column the value that was written for it. -/
structure Recorded (mode : ColumnMappingMode) (columns : List Column) (partitions : List ℕ)
    (file : CommittedFile) : Prop where
  found : ∀ column ∈ columns, column.identity ∈ partitions →
    file.logged.lookup (logKey mode column.field) = file.written column.identity
  keyed : (file.logged.map Prod.fst).Nodup

structure Table.Consistent (table : Table) : Prop where
  distinct : Distinct table.mode table.columns
  partitions : table.partitions.Nodup
  recorded : ∀ file ∈ table.files, Recorded table.mode table.columns table.partitions file

/-! ## What a commit keeps -/

section Steps

variable {mode : ColumnMappingMode} {columns : List Column} {partitions : List ℕ}
    {file : CommittedFile}

theorem Shares.symm {κ : Type} {key : StructField → Option κ} {first second : Column}
    (shares : Shares key first second) : Shares key second first := by
  obtain ⟨value, ofFirst, ofSecond⟩ := shares
  exact ⟨value, ofSecond, ofFirst⟩

@[simp] theorem Column.renamed_identity (identity : ℕ) (name : String) (column : Column) :
    (column.renamed identity name).identity = column.identity := by
  unfold Column.renamed
  split <;> rfl

@[simp] theorem Column.renamed_columnMappingId (identity : ℕ) (name : String) (column : Column) :
    (column.renamed identity name).field.columnMappingId = column.field.columnMappingId := by
  unfold Column.renamed
  split <;> rfl

@[simp] theorem Column.renamed_physicalName (identity : ℕ) (name : String) (column : Column) :
    (column.renamed identity name).field.physicalName = column.field.physicalName := by
  unfold Column.renamed
  split <;> rfl

theorem Column.renamed_name (identity : ℕ) (name : String) (column : Column) :
    (column.renamed identity name).field.name =
      if column.identity = identity then name else column.field.name := by
  unfold Column.renamed
  split <;> rfl

theorem Distinct.rename (distinct : Distinct mode columns) {identity : ℕ} {name : String}
    (fresh : ∀ other ∈ columns, other.identity ≠ identity →
      asciiLowercase other.field.name ≠ asciiLowercase name) :
    Distinct mode (columns.map (Column.renamed identity name)) := by
  refine ⟨?_, ?_, ?_, ?_, ?_⟩
  · have same : Column.identity ∘ Column.renamed identity name = Column.identity := by
      funext column
      simp
    rw [List.map_map, same]
    exact distinct.once
  · simp only [List.forall_mem_map, Column.renamed_identity, Column.renamed_name]
    intro first inFirst second inSecond same
    by_cases here : first.identity = identity
    · by_cases there : second.identity = identity
      · rw [here, there]
      · rw [if_pos here, if_neg there] at same
        exact absurd same.symm (fresh second inSecond there)
    · by_cases there : second.identity = identity
      · rw [if_neg here, if_pos there] at same
        exact absurd same (fresh first inFirst here)
      · rw [if_neg here, if_neg there] at same
        exact distinct.names first inFirst second inSecond same
  · simp only [List.forall_mem_map, Shares, Column.renamed_identity, Column.renamed_columnMappingId]
    exact distinct.ids
  · simp only [List.forall_mem_map, Shares, Column.renamed_identity, Column.renamed_physicalName]
    exact distinct.physicalNames
  · simp only [List.forall_mem_map, Column.renamed_physicalName]
    exact distinct.mapped

theorem Distinct.upgrade (distinct : Distinct mode columns) {ids : ℕ → ℤ}
    (injective : Function.Injective ids) : Distinct .name (columns.map (Column.upgraded ids)) := by
  refine ⟨?_, ?_, ?_, ?_, ?_⟩
  · rw [List.map_map]
    exact distinct.once
  · simp only [List.forall_mem_map, Column.upgraded]
    exact distinct.names
  · simp only [List.forall_mem_map, Shares, Column.upgraded, Option.some.injEq]
    rintro first - second - ⟨id, rfl, same⟩
    exact injective same.symm
  · simp only [List.forall_mem_map, Shares, Column.upgraded, Option.some.injEq]
    rintro first inFirst second inSecond ⟨name, rfl, same⟩
    exact distinct.names first inFirst second inSecond (congrArg asciiLowercase same.symm)
  · simp only [List.forall_mem_map, Column.upgraded]
    intro _ column _
    rfl

/-- A column unlike the others in some respect does not disturb what holds of those alike. -/
theorem alike_concat {alike same : Column → Column → Prop} {column : Column}
    (each : ∀ first ∈ columns, ∀ second ∈ columns, alike first second → same first second)
    (apart : ∀ other ∈ columns, ¬ alike other column ∧ ¬ alike column other)
    (itself : same column column) :
    ∀ first ∈ columns ++ [column], ∀ second ∈ columns ++ [column],
      alike first second → same first second := by
  intro first inFirst second inSecond similar
  rcases List.mem_append.mp inFirst with inFirst | inFirst
  · rcases List.mem_append.mp inSecond with inSecond | inSecond
    · exact each first inFirst second inSecond similar
    · rw [List.mem_singleton.mp inSecond] at similar
      exact absurd similar (apart first inFirst).1
  · rw [List.mem_singleton.mp inFirst] at similar ⊢
    rcases List.mem_append.mp inSecond with inSecond | inSecond
    · exact absurd similar (apart second inSecond).2
    · rw [List.mem_singleton.mp inSecond]
      exact itself

theorem Distinct.add (distinct : Distinct mode columns) {column : Column}
    (new : ∀ other ∈ columns, other.identity ≠ column.identity)
    (freshName : ∀ other ∈ columns,
      asciiLowercase other.field.name ≠ asciiLowercase column.field.name)
    (freshId : ∀ other ∈ columns, ¬ Shares StructField.columnMappingId other column)
    (freshPhysicalName : ∀ other ∈ columns, ¬ Shares StructField.physicalName other column)
    (mapped : mode ≠ .none → column.field.physicalName.isSome) :
    Distinct mode (columns ++ [column]) := by
  refine ⟨?_, ?_, ?_, ?_, ?_⟩
  · rw [List.map_append, List.map_singleton, nodup_concat_iff, List.mem_map]
    refine ⟨?_, distinct.once⟩
    rintro ⟨other, member, same⟩
    exact new other member same
  · exact alike_concat distinct.names
      (fun other member => ⟨freshName other member, fun same => freshName other member same.symm⟩)
        rfl
  · exact alike_concat distinct.ids
      (fun other member => ⟨freshId other member, fun shares => freshId other member shares.symm⟩)
        rfl
  · exact alike_concat distinct.physicalNames (fun other member =>
      ⟨freshPhysicalName other member, fun shares => freshPhysicalName other member shares.symm⟩)
        rfl
  · intro isMapped other member
    rcases List.mem_append.mp member with member | member
    · exact distinct.mapped isMapped other member
    · obtain rfl := List.mem_singleton.mp member
      exact mapped isMapped

theorem Distinct.sublist (distinct : Distinct mode columns) {fewer : List Column}
    (sublist : fewer.Sublist columns) : Distinct mode fewer where
  once := distinct.once.sublist (sublist.map _)
  names first inFirst second inSecond :=
    distinct.names first (sublist.subset inFirst) second (sublist.subset inSecond)
  ids first inFirst second inSecond :=
    distinct.ids first (sublist.subset inFirst) second (sublist.subset inSecond)
  physicalNames first inFirst second inSecond :=
    distinct.physicalNames first (sublist.subset inFirst) second (sublist.subset inSecond)
  mapped isMapped column member := distinct.mapped isMapped column (sublist.subset member)

theorem Distinct.eq_of_identity (distinct : Distinct mode columns) {first second : Column}
    (inFirst : first ∈ columns) (inSecond : second ∈ columns)
    (same : first.identity = second.identity) : first = second :=
  List.inj_on_of_nodup_map distinct.once inFirst inSecond same

/-- Columns are logged under different names. -/
theorem Distinct.eq_of_logKey (distinct : Distinct mode columns) {first second : Column}
    (inFirst : first ∈ columns) (inSecond : second ∈ columns)
    (same : logKey mode first.field = logKey mode second.field) : first = second := by
  apply distinct.eq_of_identity inFirst inSecond
  by_cases unmapped : mode = .none
  · rw [unmapped, logKey_unmapped, logKey_unmapped] at same
    exact distinct.names first inFirst second inSecond (congrArg asciiLowercase same)
  · obtain ⟨firstName, ofFirst⟩ := Option.isSome_iff_exists.mp
      (distinct.mapped unmapped first inFirst)
    obtain ⟨secondName, ofSecond⟩ :=
      Option.isSome_iff_exists.mp (distinct.mapped unmapped second inSecond)
    rw [logKey_mapped unmapped ofFirst, logKey_mapped unmapped ofSecond] at same
    rw [same] at ofFirst
    exact distinct.physicalNames first inFirst second inSecond ⟨secondName, ofFirst, ofSecond⟩

/-- A change of the columns that keeps their identities and the names they are logged under. -/
theorem Recorded.map (recorded : Recorded mode columns partitions file)
    {changed : ColumnMappingMode}
    {change : Column → Column} (identity : ∀ column, (change column).identity = column.identity)
    (keys : ∀ column ∈ columns, logKey changed (change column).field = logKey mode column.field) :
    Recorded changed (columns.map change) partitions file := by
  refine ⟨?_, recorded.keyed⟩
  simp only [List.forall_mem_map, identity]
  intro column member partition
  rw [keys column member]
  exact recorded.found column member partition

theorem logKey_renamed (distinct : Distinct mode columns) (mapped : mode ≠ .none) {column : Column}
    (member : column ∈ columns) (identity : ℕ) (name : String) :
    logKey mode (column.renamed identity name).field = logKey mode column.field := by
  obtain ⟨physical, found⟩ := Option.isSome_iff_exists.mp (distinct.mapped mapped column member)
  rw [logKey_mapped mapped found, logKey_mapped mapped (by simpa using found)]

theorem logKey_upgraded (ids : ℕ → ℤ) (column : Column) :
    logKey .name (column.upgraded ids).field = logKey .none column.field := by
  rw [logKey_unmapped, logKey_mapped (by decide) rfl]

/-- What a writer logs is what it writes. -/
theorem recorded_entries {table : Table} (distinct : Distinct table.mode table.columns)
    (path : String)
    (written : ℕ → Option (Option String)) :
    Recorded table.mode table.columns table.partitions ⟨path, table.entries written, written⟩ := by
  have keys : (table.columns.map fun column => logKey table.mode column.field).Nodup :=
    (List.Nodup.of_map _ distinct.once).map_on
      (fun _ inFirst _ inSecond same => distinct.eq_of_logKey inFirst inSecond same)
  have logged : ((table.columns.filter fun column => table.partitions.contains column.identity).map
      fun column => logKey table.mode column.field).Nodup :=
    keys.sublist (List.filter_sublist.map _)
  refine ⟨?_, logged.sublist (OrderedMap.keys_entries _ _ _)⟩
  intro column member partition
  have kept : column ∈ table.columns.filter fun column =>
    table.partitions.contains column.identity :=
    List.mem_filter.mpr ⟨member, List.contains_iff_mem.mpr partition⟩
  exact OrderedMap.lookup_entries (fun column => logKey table.mode column.field)
    (fun column => written column.identity) logged kept

/-- Every commit keeps the table consistent. -/
theorem Commit.consistent {before after : Table} (commit : Commit before after)
    (consistent : before.Consistent) : after.Consistent := by
  obtain ⟨distinct, partitions, recorded⟩ := consistent
  cases commit with
  | @rename column name mapped member fresh =>
      refine ⟨distinct.rename fresh, partitions, ?_⟩
      intro file committed
      exact (recorded file committed).map (Column.renamed_identity _ _)
        (fun column member => logKey_renamed distinct mapped member _ _)
  | add new plain freshName freshId freshPhysicalName mapped =>
      refine ⟨distinct.add new freshName freshId freshPhysicalName mapped, partitions, ?_⟩
      intro file committed
      refine ⟨?_, (recorded file committed).keyed⟩
      intro column member partition
      rcases List.mem_append.mp member with member | member
      · exact (recorded file committed).found column member partition
      · rw [List.mem_singleton.mp member] at partition
        exact absurd partition plain
  | drop mapped plain =>
      refine ⟨distinct.sublist List.filter_sublist, partitions, ?_⟩
      intro file committed
      refine ⟨?_, (recorded file committed).keyed⟩
      intro column member
      exact (recorded file committed).found column (List.mem_of_mem_filter member)
  | @upgrade ids unmapped injective =>
      refine ⟨distinct.upgrade injective, partitions, ?_⟩
      intro file committed
      have keys : ∀ column ∈ before.columns,
          logKey .name (column.upgraded ids).field = logKey before.mode column.field := by
        intro column _
        rw [unmapped]
        exact logKey_upgraded ids column
      exact (recorded file committed).map (fun _ => rfl) keys
  | write path written =>
      refine ⟨distinct, partitions, ?_⟩
      intro file committed
      rcases List.mem_append.mp committed with committed | committed
      · exact recorded file (List.mem_of_mem_filter committed)
      · rw [List.mem_singleton.mp committed]
        exact recorded_entries distinct path written
  | remove path =>
      refine ⟨distinct, partitions, ?_⟩
      intro file committed
      exact recorded file (List.mem_of_mem_filter committed)

/-- A history keeps the table consistent. -/
theorem consistent_of_history {start current : Table}
    (history : Relation.ReflTransGen Commit start current)
    (consistent : start.Consistent) : current.Consistent := by
  induction history with
  | refl => exact consistent
  | tail _ commit ih => exact commit.consistent ih

end Steps

/-! ## What a plan reads -/

section Plans

variable {table : Table}

theorem exists_named {identity : ℕ} {name : String} (named : table.nameOf identity = some name) :
    ∃ column ∈ table.columns, column.identity = identity ∧ column.field.name = name := by
  obtain ⟨column, found, same⟩ := Option.map_eq_some_iff.mp named
  exact ⟨column, List.mem_of_find?_eq_some found, by simpa using List.find?_some found, same⟩

namespace Table.Consistent

variable (consistent : table.Consistent)

include consistent

theorem eq_of_identity {first second : Column} (inFirst : first ∈ table.columns)
    (inSecond : second ∈ table.columns) (same : first.identity = second.identity) :
    first.field = second.field :=
  congrArg Column.field (consistent.distinct.eq_of_identity inFirst inSecond same)

theorem valid : table.snapshot.Valid := by
  refine ⟨?_, ?_, ?_, ?_, ?_⟩
  · simp only [Table.snapshot, List.forall_mem_map]
    intro first inFirst second inSecond same
    exact consistent.eq_of_identity inFirst inSecond
      (consistent.distinct.names first inFirst second inSecond same)
  · simp only [Table.snapshot, List.forall_mem_map]
    intro first inFirst second inSecond id ofFirst ofSecond
    exact consistent.eq_of_identity inFirst inSecond
      (consistent.distinct.ids first inFirst second inSecond ⟨id, ofFirst, ofSecond⟩)
  · simp only [Table.snapshot, List.forall_mem_map]
    intro first inFirst second inSecond name ofFirst ofSecond
    exact consistent.eq_of_identity inFirst inSecond
      (consistent.distinct.physicalNames first inFirst second inSecond ⟨name, ofFirst, ofSecond⟩)
  · simp only [Table.snapshot, List.forall_mem_map]
    exact consistent.distinct.mapped
  · apply consistent.partitions.filterMap
    intro first second name ofFirst ofSecond
    obtain ⟨column, member, rfl, named⟩ := exists_named ofFirst
    obtain ⟨other, inOther, rfl, named'⟩ := exists_named ofSecond
    exact consistent.distinct.names column member other inOther
      (congrArg asciiLowercase (named.trans named'.symm))

/-- A column with the name of a partition column is that partition column. -/
theorem mem_partitions {column : Column} (member : column ∈ table.columns)
    (named : column.field.name ∈ table.snapshot.partitionColumns) :
    column.identity ∈ table.partitions := by
  obtain ⟨identity, partition, found⟩ := List.mem_filterMap.mp named
  obtain ⟨other, inOther, rfl, same⟩ := exists_named found
  rw [consistent.distinct.names column member other inOther (congrArg asciiLowercase same.symm)]
  exact partition

end Table.Consistent

/-- The replay of the log gives the entries of committed files. -/
def Replays (table : Table)
    (replay : List (String × StructField) → Except PlanError (List ScanRow)) : Prop :=
  ∀ columns rows, replay columns = .ok rows →
    ∀ row ∈ rows, ∃ file ∈ table.files, row.path = file.path ∧ Records row file.logged

/-- A declared partition column reads what was written for the one column it binds to. -/
def Follows (table : Table) (declared : DeclaredSchema) (file : CommittedFile) (entry : ActiveFile)
    (name : String) : Prop :=
  ∃ column ∈ table.columns, column.identity ∈ table.partitions ∧
    (∀ other ∈ table.columns, Binds table.snapshot.schema declared name other.field ↔
      other = column) ∧
    entry.partitionValues.lookup name =
      (file.logged.lookup (logKey table.mode column.field)).map (travels declared name) ∧
    file.logged.lookup (logKey table.mode column.field) = file.written column.identity

variable {declared : DeclaredSchema}
  {replay : List (String × StructField) → Except PlanError (List ScanRow)}

theorem follows_of_checked (consistent : table.Consistent) {fields : List StructField}
    (checked : checkedPartitionFields table.snapshot declared = .ok fields) {file : CommittedFile}
    (committed : file ∈ table.files) {name : String} (member : name ∈ declared.partitionColumns)
    {path : String} :
    Follows table declared file
      ⟨path, hexBinaryPartitionValues declared.logicalSchema (OrderedMap.collect
        (takeLogged (loggedKeys table.mode declared fields) (OrderedMap.collect file.logged)))⟩
      name := by
  have recorded := consistent.recorded file committed
  obtain ⟨field, bound, named, read⟩ :=
    lookup_declared consistent.valid checked recorded.keyed member
  obtain ⟨column, inColumns, rfl⟩ : ∃ column ∈ table.columns, column.field = field := by
    obtain ⟨_, -, inSchema, -⟩ := bound
    exact List.mem_map.mp inSchema
  have partition := consistent.mem_partitions inColumns named
  refine ⟨column, inColumns, partition, ?_, read, recorded.found column inColumns partition⟩
  intro other inOther
  constructor
  · intro bound'
    have same := bound'.unique consistent.valid bound
    exact consistent.distinct.eq_of_identity inOther inColumns
      (consistent.distinct.names other inOther column inColumns (by rw [same]))
  · rintro rfl
    exact bound

/-- After every history a plan reads, for each declared partition column, what was written for
the column it binds to; and a declaration that does not fit the table gives no plan. -/
theorem declaredFiles_follows {start current : Table} (consistent : start.Consistent)
    (history : Relation.ReflTransGen Commit start current) (replays : Replays current replay) :
    (∀ entries, declaredFiles current.snapshot declared replay = .ok entries →
      ∃ rows, replay (filterColumns current.snapshot.schema declared) = .ok rows ∧
        List.Forall₂ (fun row entry => entry.path = row.path ∧
          ∃ file ∈ current.files, file.path = row.path ∧
            ∀ name ∈ declared.partitionColumns, Follows current declared file entry name)
          rows entries) ∧
    (¬ (Corresponds current.snapshot declared ∧ FollowsMode declared current.mode) →
      ∃ problem, declaredFiles current.snapshot declared replay = .error problem) := by
  have reached := consistent_of_history history consistent
  constructor
  · intro entries planned
    obtain ⟨-, fields, rows, files, checked, replayed, read, rfl⟩ := declaredFiles_ok planned
    refine ⟨rows, replayed, ?_⟩
    rw [List.forall₂_map_right_iff]
    have each := (List.forall₂_and_left rows files).mpr
      ⟨replays _ _ replayed, mapM_eq_ok_iff.mp read⟩
    refine each.imp fun row active planned => ?_
    obtain ⟨⟨file, committed, path, records⟩, read⟩ := planned
    cases (activeFile_of_records records).symm.trans read
    refine ⟨rfl, file, committed, path.symm, ?_⟩
    intro name member
    exact follows_of_checked reached checked committed member
  · intro unfit
    cases planned : declaredFiles current.snapshot declared replay with
    | error problem => exact ⟨problem, rfl⟩
    | ok entries =>
        obtain ⟨followed, fields, _, _, checked, _⟩ := declaredFiles_ok planned
        exact absurd ⟨corresponds_of_checked reached.valid checked, followed⟩ unfit

/-- A table partitioned by one column. -/
def created : Table := ⟨.name, [⟨0, ⟨"d", some 1, some "col-1", true⟩⟩], [0], []⟩

def filled : Table :=
  { created with files := [⟨"part-0", created.entries fun _ => some (some "2024"),
      fun _ => some (some "2024")⟩] }

/-- The column is renamed after the file was written. -/
def renamed : Table := filled.rename 0 "day"

def declaredDay : DeclaredSchema :=
  ⟨"t", [⟨"day", none, .utf8, true, none, some "col-1"⟩], ["day"]⟩

def dayRow : ScanRow :=
  ⟨"part-0", some ⟨fun _ => false, [0, 1], ⟨"Utf8", true, fun _ => some "col-1"⟩,
    ⟨"Utf8", true, fun _ => some "2024"⟩⟩, 0⟩

theorem declaredFiles_follows_renamed :
    ∃ rows, Except.ok [dayRow] = (.ok rows : Except PlanError _) ∧
      List.Forall₂ (fun row entry => entry.path = row.path ∧
        ∃ file ∈ renamed.files, file.path = row.path ∧
          ∀ name ∈ declaredDay.partitionColumns, Follows renamed declaredDay file entry name)
        rows [⟨"part-0", [("day", some "2024")]⟩] := by
  have consistent : created.Consistent := by
    refine ⟨⟨List.nodup_singleton _, ?_, ?_, ?_, ?_⟩, List.nodup_singleton _, List.forall_mem_nil _⟩
    · simp [created]
    · simp [created]
    · simp [created]
    · simp [created]
  have history : Relation.ReflTransGen Commit created renamed := by
    have write : Commit created filled := .write "part-0" fun _ => some (some "2024")
    have rename : Commit filled renamed := by
      refine @Commit.rename filled ⟨0, ⟨"d", some 1, some "col-1", true⟩⟩ "day" (by decide)
        List.mem_cons_self ?_
      simp [filled, created]
    exact (Relation.ReflTransGen.single write).tail rename
  have replays : Replays renamed fun _ => .ok [dayRow] := by
    intro _ rows replayed row member
    cases replayed
    obtain rfl := List.mem_singleton.mp member
    exact ⟨_, List.mem_cons_self, rfl, .entries rfl rfl rfl rfl rfl rfl rfl⟩
  exact (declaredFiles_follows consistent history replays).1 _ rfl

end Plans

end LakehouseEngine.DeltaTable
