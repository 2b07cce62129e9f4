import LakehouseEngine.Adapter.PartitionDirectories
import LakehouseEngine.Pushdown.Format.PartitionPredicate
import LakehouseEngine.Types.Tag

/-!
# Pruning the files of a partitioned table

A Parquet table's partition values come from the directories of its files or from the
partitions that Glue lists.  Both write NULL as the empty text or as the Hive default, and
either producer turns the default into NULL before the predicate sees it.  A row therefore
carries what its source tells, and the predicate never drops it.
-/

namespace LakehouseEngine.PartitionPruning

open PartitionDirectories PartitionPredicate OrderedMap

/-- The types of the partition columns, from the names and tags of the logical schema. -/
def partitionColumnTypes (logicalSchema : List (String × String))
    (partitionColumns : List String) : List (String × ArrowType) :=
  (logicalSchema.filter fun field => field.1 ∈ partitionColumns).map fun field =>
    (field.1, arrowTypeFromTag field.2)

/-- Where a file has its partition values from. -/
inductive PartitionSource where
  | directories (base : StorePath) (object : ObjectMeta)
  | glue (part : GluePartition)

section Sources

variable [Unicode]

/-- The values the planner records for a file of a source. -/
inductive Records (debug : List String → String) (table : String) (columns : List String) :
    PartitionSource → StringMap (Option String) → Prop where
  | directories {base : StorePath} {object : ObjectMeta} {file : ListedFile} :
      listedFile base .parquetAtAnyDepth object = some file →
      Records debug table columns (.directories base object) (filledValues columns file)
  | glue {part : GluePartition} {made : CatalogPartition} :
      neutralPartition debug table columns part = .ok made →
      Records debug table columns (.glue part) made.values

/-- What a source tells of a column, the empty and the default text being NULL. -/
inductive Tells (columns : List String) : PartitionSource → String → Option String → Prop where
  | directories {base : StorePath} {object : ObjectMeta} {below : List (List Char)}
      {name : List Char} {column : String} {value : Option String} :
      object.location.segments = base.segments ++ (below ++ [name]) → column ∈ columns →
      Binds below column value →
      Tells columns (.directories base object) column value
  | glue {part : GluePartition} {column text : String} :
      (columns.zip part.values).reverse.lookup column = some text →
      Tells columns (.glue part) column (nullable text.toList)

variable {debug : List String → String} {table : String} {columns : List String}

omit [Unicode] in
/-- The default is NULL already, and an empty value is read as NULL. -/
theorem nonNull_glueValue (raw : String) :
    nonNullPartitionValue (if raw = hiveDefaultPartition then none else some raw) =
      nullable raw.toList := by
  unfold nullable
  by_cases default : raw = hiveDefaultPartition
  · simp [default, nonNullPartitionValue]
  · have other : raw.toList ≠ hiveDefaultPartition.toList := fun same =>
      default (String.toList_inj.mp same)
    by_cases empty : raw = ""
    · simp [empty, nonNullPartitionValue]
    · simp [default, other, empty, nonNullPartitionValue]

omit [Unicode] in
/-- No directory records an empty value. -/
theorem nonNull_nullable (text : List Char) :
    nonNullPartitionValue (nullable text) = nullable text := by
  unfold nullable
  split
  · rfl
  · next present =>
      have filled : text ≠ [] := fun empty => present (.inl empty)
      simp [nonNullPartitionValue, filled]

theorem nonNull_binds {below : List (List Char)} {column : String} {value : Option String}
    (binds : Binds below column value) : nonNullPartitionValue value = value := by
  cases binds with
  | absent _ => rfl
  | deepest _ _ _ _ _ => exact nonNull_nullable _

omit [Unicode] in
theorem mem_entries_iff {values : StringMap (Option String)} {column : String}
    {value : Option String} :
    (column, value) ∈ values.entries ↔ values.entries.lookup column = some value :=
  (lookup_eq_some_iff_mem (List.Pairwise.imp ne_of_lt values.sorted)).symm

/-- Every recorded value is what the source tells, once an empty one is read as NULL. -/
theorem Records.tells {source : PartitionSource} {values : StringMap (Option String)}
    (records : Records debug table columns source values) {column : String}
    {value : Option String} (held : (column, value) ∈ values.entries) :
    Tells columns source column (nonNullPartitionValue value) := by
  rw [mem_entries_iff] at held
  cases records with
  | @directories base object file listed =>
      obtain ⟨segments, cut, listed⟩ := Option.bind_eq_some_iff.mp listed
      obtain ⟨name, last, listed⟩ := Option.bind_eq_some_iff.mp listed
      obtain ⟨below, rfl⟩ := List.getLast?_eq_some_iff.mp last
      split at listed
      · rw [List.dropLast_concat] at listed
        have parsed : file.partitionSegments = parsePartitionSegments below := by
          rw [← Option.some.inj listed]
        have filled := (eq_filledValues_iff parsed).mp (rfl : filledValues columns file = _)
        by_cases declared : column ∈ columns
        · obtain ⟨bound, found, binds⟩ := filled.1 column declared
          obtain rfl := Option.some.inj (held.symm.trans found)
          rw [nonNull_binds binds]
          exact .directories (dataFileSegments_eq_some.mp cut).1 declared binds
        · rw [filled.2 column declared] at held
          cases held
      · cases listed
  | @glue part made neutral =>
      unfold neutralPartition at neutral
      split at neutral
      · cases neutral
      · split at neutral
        · cases neutral
        · cases neutral
          -- The map keeps the last value of a key that is declared twice.
          rw [lookup_collect_reverse, List.zip_map_right, ← List.map_reverse] at held
          obtain ⟨text, found, rfl⟩ : ∃ text,
              (columns.zip part.values).reverse.lookup column = some text ∧
                (if text = hiveDefaultPartition then none else some text) = value := by
            have mapped := lookup_map_snd (columns.zip part.values).reverse
              (fun raw => if raw = hiveDefaultPartition then none else some raw) column
            exact Option.map_eq_some_iff.mp (mapped.symm.trans held)
          rw [nonNull_glueValue]
          exact .glue found

/-- Pruning never drops a matching row: a file is kept whenever some row with the values that
its source tells makes the filter TRUE. -/
theorem keeps_of_matching_row (cast : TextCast) (reading : Reading) (exact : cast.Exact reading)
    (logicalSchema : List (String × String)) (filter : Node) {source : PartitionSource}
    {values : StringMap (Option String)} (records : Records debug table columns source values)
    (env : Env)
    (carries : ∀ column value, Tells columns source column value →
      ∀ col : ColumnNode, col.upperName = upper column →
        Holds cast
          (PartitionPredicate.declaredType (partitionColumnTypes logicalSchema columns)
            col.upperName) value
          (env.column col))
    (matching : filter.truth reading env = some true) :
    (fromFilter cast (some filter) (partitionColumnTypes logicalSchema columns)).keeps cast
      values.entries = true := by
  have faithful : Faithful cast reading (partitionColumnTypes logicalSchema columns) := by
    refine ⟨exact, ?_⟩
    intro pair member
    obtain ⟨field, -, rfl⟩ := List.mem_map.mp member
    exact arrowTypeFromTag_inUtc field.2
  refine keeps_of_carries faithful ?_ matching
  intro key value held col named
  exact carries key _ (records.tells held) col named

end Sources

section Instances

local instance pruningUnicode : Unicode := Unicode.ascii

/-- A partition of the year 2024 whose region is the default. -/
def defaultRegion : GluePartition :=
  ⟨["2024", hiveDefaultPartition], some ⟨none, some "s3://b/t", []⟩⟩

/-- A row of 2024 without a region. -/
def regionless : Env :=
  ⟨fun col => if col.upperName = "YEAR" then .num 2024 else .null, fun _ _ _ => .null⟩

theorem keeps_of_matching_row_default :
    (fromFilter (.exactOnly noCalendar)
      (some (.predicateAnd [
        .predicateNot (.comparison .less (.column ⟨"year", none, none⟩)
          (.literal ⟨.exactnumeric, .string "2024", none⟩)),
        .predicateIsNull (.column ⟨"region", none, none⟩)]))
      (partitionColumnTypes [("year", "int32"), ("region", "utf8")] ["year", "region"])).keeps
        (.exactOnly noCalendar) [("region", none), ("year", some "2024")] = true := by
  have neutral : neutralPartition (fun _ => "") "t" ["year", "region"] defaultRegion =
      .ok ⟨⟨[("region", none), ("year", some "2024")], by unfold Sorted; decide⟩, "s3://b/t",
        .parquet⟩ := rfl
  refine keeps_of_matching_row (.exactOnly noCalendar) noCalendar
    (TextCast.exactOnly_exact noCalendar) [("year", "int32"), ("region", "utf8")] _ (.glue neutral)
    regionless ?_ (by decide +kernel)
  intro column value told col named
  obtain ⟨text, found, rfl⟩ : ∃ text,
      [("region", hiveDefaultPartition), ("year", "2024")].lookup column = some text ∧
        nullable text.toList = value := by
    cases told with
    | glue found => exact ⟨_, found, rfl⟩
  have member := mem_of_lookup_eq_some found
  simp only [List.mem_cons, Prod.mk.injEq, List.not_mem_nil, or_false] at member
  rcases member with ⟨rfl, rfl⟩ | ⟨rfl, rfl⟩
  · have absent : regionless.column col = .null := by
      simp only [regionless, named]
      exact if_neg (by decide)
    have default : nullable hiveDefaultPartition.toList = none := by decide
    rw [default, absent]
    rfl
  · have year : regionless.column col = .num 2024 := by
      simp only [regionless, named]
      exact if_pos (by decide)
    have read : readPartition (.exactOnly noCalendar)
        (PartitionPredicate.declaredType
          (partitionColumnTypes [("year", "int32"), ("region", "utf8")] ["year", "region"])
          (upper "year")) "2024" = some (.num 2024) := by
      decide +kernel
    have present : nullable "2024".toList = some "2024" := by decide
    rw [present, year, named]
    exact read

end Instances

end LakehouseEngine.PartitionPruning
