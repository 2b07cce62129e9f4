import LakehouseEngine.Data.Fallible
import LakehouseEngine.Data.ListRelation
import LakehouseEngine.Data.Placement
import LakehouseEngine.Pushdown.Format.PartitionPredicate
import LakehouseEngine.Types.Mapping

/-!
# Partition columns in a scan

A data file's partition values are in the table's log, not in the file.  The scan reads
the file's own columns first and appends the partition columns, so that a column's place
in the scan differs from its place in the declared schema.  Files that log values for
different columns are scanned in different groups.
-/

namespace LakehouseEngine.PartitionColumns

open PartitionPredicate (nonNullPartitionValue)

structure Field where
  name : String
  dataType : ArrowType
  nullable : Bool
  metadata : List (String × String)

/-- A declared schema split into the columns read from a file and its partition columns. -/
structure PartitionedScanSchema where
  declared : List Field
  fileFields : List Field
  partitionFields : List Field
  scanIndexByDeclared : List ℕ

def isDeclared (declared : List Field) (name : String) : Bool :=
  declared.any fun field => field.name = name

/-! ## Splitting a schema -/

/-- The columns given a position so far. -/
abbrev Positions := List (String × ℕ)

def notePosition (declared : List Field) (positions : Positions) (column : String × ℕ) :
    Except String Positions :=
  let (name, position) := column
  if !isDeclared declared name then
    .error ("partition column '" ++ name ++ "' is not declared in the table's logical schema")
  else if (positions.lookup name).isSome then
    .error ("partition column '" ++ name ++ "' is named twice in the table's partition columns")
  else
    .ok (positions ++ [(name, position)])

def partitionPositions (declared : List Field) (partitionColumns : List String) :
    Except String Positions :=
  partitionColumns.zipIdx.foldlM (notePosition declared) []

structure SplitState where
  fileFields : List Field
  partitionSlots : List (ℕ × Field)
  partitionDeclared : List (ℕ × ℕ)
  scanIndexByDeclared : List ℕ

def placeField (positions : Positions) (state : SplitState) (entry : Field × ℕ) :
    Except String SplitState :=
  let (field, declaredIndex) := entry
  match positions.lookup field.name with
  | some position =>
      if state.partitionSlots.any fun slot => slot.1 = position then
        .error ("partition column '" ++ field.name ++
          "' matches more than one field in the table's logical schema")
      else
        .ok { state with
          partitionSlots := state.partitionSlots ++ [(position, field)]
          partitionDeclared := state.partitionDeclared ++ [(declaredIndex, position)] }
  | none =>
      .ok { state with
        scanIndexByDeclared := state.scanIndexByDeclared.set declaredIndex state.fileFields.length
        fileFields := state.fileFields ++ [field] }

def PartitionedScanSchema.split (declared : List Field) (partitionColumns : List String) :
    Except String PartitionedScanSchema :=
  if partitionColumns.isEmpty then
    .ok ⟨declared, declared, [], List.range declared.length⟩
  else do
    let positions ← partitionPositions declared partitionColumns
    let state ← declared.zipIdx.foldlM (placeField positions)
      ⟨[], [], [], List.replicate declared.length 0⟩
    let scanIndexByDeclared := state.partitionDeclared.foldl
      (fun index pair => index.set pair.1 (state.fileFields.length + pair.2))
        state.scanIndexByDeclared
    let slots := state.partitionSlots.mergeSort fun left right => left.1 ≤ right.1
    return ⟨declared, state.fileFields, slots.map Prod.snd, scanIndexByDeclared⟩

namespace PartitionedScanSchema

/-- The columns of a scan, the file's own before the partition columns. -/
def scanFields (schema : PartitionedScanSchema) : List Field :=
  schema.fileFields ++ schema.partitionFields

def partitionNames (schema : PartitionedScanSchema) : List String :=
  schema.partitionFields.map Field.name

/-- The outer `none` stands for an index past the declared columns, where the code panics. -/
def remapProjection (schema : PartitionedScanSchema) (projection : Option (List ℕ)) :
    Option (Option (List ℕ)) :=
  if schema.partitionFields.isEmpty then
    some projection
  else
    let declaredIndices := projection.getD (List.range schema.declared.length)
    (declaredIndices.mapM fun index => schema.scanIndexByDeclared[index]?).map some

end PartitionedScanSchema

/-! ## Partition values -/

/-- The conversions of the libraries, with the texts of their errors. -/
structure ScalarLibrary where
  tryFromString : String → ArrowType → Except String Value
  tryNewNull : ArrowType → Except String Unit
  hexProblem : String → String
  executionError : String → String
  typeName : ArrowType → String

structure DataFile where
  path : String
  partitionValues : PartitionValues

variable (library : ScalarLibrary)

def partitionScalar (value : String) (type : ArrowType) : Except String Value :=
  if !type.isBinary then
    library.tryFromString value type
  else
    match Text.hexDecode value.toList with
    | none => .error (library.executionError
        ("a binary partition value must be hex: " ++ library.hexProblem value))
    | some bytes =>
        match type with
        | .fixedSizeBinary width =>
            if width = bytes.length then
              .ok (.bytes bytes)
            else
              .error (library.executionError ("a fixed(" ++ toString width ++
                ") partition value must hold " ++ toString width ++ " bytes, not " ++
                toString bytes.length))
        | _ => .ok (.bytes bytes)

/-- A file's value for a partition column. -/
def partitionValueFor (file : DataFile) (field : Field) : Except String Scalar :=
  match file.partitionValues.lookup field.name with
  | none => .error ("data file '" ++ file.path ++
      "' logs no partition value for partition column '" ++ field.name ++ "'")
  | some logged =>
      match nonNullPartitionValue logged with
      | some value =>
          match partitionScalar library value field.dataType with
          | .ok scalar => .ok ⟨field.dataType, scalar⟩
          | .error problem =>
              .error ("partition value '" ++ value ++ "' for column '" ++ field.name ++
              "' is not a valid " ++ library.typeName field.dataType ++ " (" ++ problem ++ ")")
      | none =>
          match library.tryNewNull field.dataType with
          | .ok () => .ok ⟨field.dataType, .null⟩
          | .error problem => .error ("partition column '" ++ field.name ++
              "' cannot hold a null value of its declared type " ++
                library.typeName field.dataType ++
              " (" ++ problem ++ ")")

def PartitionedScanSchema.partitionValuesFor (schema : PartitionedScanSchema) (file : DataFile) :
    Except String (List Scalar) :=
  schema.partitionFields.mapM (partitionValueFor library file)

/-! ## Groups of files -/

structure PartitionedScanGroups where
  declared : List Field
  groups : List PartitionedScanSchema
  groupByFile : List ℕ

/-- The listed columns and the further declared ones that a file logs a value for. -/
def groupColumns (declared : List Field) (partitionColumns : List String) (file : DataFile) :
    List String :=
  partitionColumns ++ (file.partitionValues.map Prod.fst).filter fun key =>
    !partitionColumns.contains key && isDeclared declared key

structure GroupState where
  groups : List PartitionedScanSchema
  groupByColumns : List (List String × ℕ)
  groupByFile : List ℕ

def placeFile (declared : List Field) (partitionColumns : List String) (state : GroupState)
    (file : DataFile) : Except String GroupState :=
  let columns := groupColumns declared partitionColumns file
  match state.groupByColumns.lookup columns with
  | some group => .ok { state with groupByFile := state.groupByFile ++ [group] }
  | none => do
      let schema ← PartitionedScanSchema.split declared columns
      return {
        groups := state.groups ++ [schema]
        groupByColumns := state.groupByColumns ++ [(columns, state.groups.length)]
        groupByFile := state.groupByFile ++ [state.groups.length] }

def PartitionedScanGroups.split (declared : List Field) (partitionColumns : List String)
    (files : List DataFile) : Except String PartitionedScanGroups := do
  let state ← files.foldlM (placeFile declared partitionColumns) ⟨[], [], []⟩
  let groups ←
    if state.groups.isEmpty then
      (PartitionedScanSchema.split declared partitionColumns).map fun schema => [schema]
    else
      pure state.groups
  return ⟨declared, groups, state.groupByFile⟩

/-! ## The split of one schema -/

section Split

variable {declared : List Field} {columns : List String} {positions : Positions}

theorem notePosition_ok {name : String} {position : ℕ} {after : Positions}
    (noted : notePosition declared positions (name, position) = .ok after) :
    isDeclared declared name = true ∧ positions.lookup name = none ∧
      after = positions ++ [(name, position)] := by
  simp only [notePosition] at noted
  split at noted
  · cases noted
  · next known =>
      split at noted
      · cases noted
      · next fresh =>
          cases noted
          exact ⟨by simpa using known, Option.not_isSome_iff_eq_none.mp fresh, rfl⟩

/-- The columns that are given a position are distinct and declared. -/
theorem partitionPositions_ok (noted : partitionPositions declared columns = .ok positions) :
    positions = columns.zipIdx ∧ columns.Nodup ∧
      ∀ name ∈ columns, isDeclared declared name = true := by
  apply @foldlM_zipIdx_invariant _ _ _ (fun done positions => positions = done.zipIdx ∧ done.Nodup ∧
    ∀ name ∈ done, isDeclared declared name = true) _ _ _ _ ?_ ?_ noted
  · exact ⟨rfl, List.nodup_nil, List.forall_mem_nil _⟩
  · rintro done name rest _ next - ⟨rfl, distinct, every⟩ step
    obtain ⟨known, fresh, rfl⟩ := notePosition_ok step
    have new : name ∉ done := by
      intro member
      obtain ⟨position, found⟩ := List.getElem?_of_mem member
      rw [(lookup_zipIdx distinct).mpr found] at fresh
      cases fresh
    refine ⟨by simp [List.zipIdx_append], ?_, ?_⟩
    · exact nodup_concat_iff.mpr ⟨new, distinct⟩
    · intro other member
      rcases List.mem_append.mp member with member | member
      · exact every other member
      · obtain rfl := List.mem_singleton.mp member
        exact known

/-- A field that the file itself stores. -/
def isFileField (positions : Positions) (field : Field) : Bool :=
  (positions.lookup field.name).isNone

/-- The partition slot of a field. -/
def slot (positions : Positions) (field : Field) : Option (ℕ × Field) :=
  (positions.lookup field.name).map fun position => (position, field)

/-- What the loop over the fields has done after a part of them. -/
structure Placed (positions : Positions) (size : ℕ) (done : List Field) (state : SplitState) :
    Prop where
  files : state.fileFields = done.filter (isFileField positions)
  slots : state.partitionSlots = done.filterMap (slot positions)
  distinct : (state.partitionSlots.map Prod.fst).Nodup
  declared : ∀ index position, (index, position) ∈ state.partitionDeclared ↔
    ∃ field, done[index]? = some field ∧ positions.lookup field.name = some position
  once : (state.partitionDeclared.map Prod.fst).Nodup
  sized : state.scanIndexByDeclared.length = size
  indexed : ∀ (index : ℕ) field, done[index]? = some field → isFileField positions field = true →
    state.scanIndexByDeclared[index]? = some ((done.take index).countP (isFileField positions))

theorem Placed.index_lt {size : ℕ} {done : List Field} {state : SplitState}
    (placed : Placed positions size done state) {index : ℕ}
    (member : index ∈ state.partitionDeclared.map Prod.fst) : index < done.length := by
  obtain ⟨⟨_, position⟩, pair, rfl⟩ := List.mem_map.mp member
  obtain ⟨field, found, -⟩ := (placed.declared _ _).mp pair
  exact (List.getElem?_eq_some_iff.mp found).1

theorem placed_start (positions : Positions) (size : ℕ) :
    Placed positions size [] ⟨[], [], [], List.replicate size 0⟩ where
  files := rfl
  slots := rfl
  distinct := List.nodup_nil
  declared index position := by simp
  once := List.nodup_nil
  sized := List.length_replicate
  indexed index field found := by cases found

theorem Placed.step {size : ℕ} {done : List Field} {state next : SplitState} {field : Field}
    (placed : Placed positions size done state) (room : done.length < size)
    (step : placeField positions state (field, done.length) = .ok next) :
    Placed positions size (done ++ [field]) next := by
  unfold placeField at step
  cases found : positions.lookup field.name with
  | some position =>
      have stored : isFileField positions field = false := by simp [isFileField, found]
      have here : slot positions field = some (position, field) := by simp [slot, found]
      simp only [found] at step
      split at step
      · cases step
      · next free =>
          cases step
          refine ⟨?_, ?_, ?_, ?_, ?_, placed.sized, ?_⟩
          · simp [placed.files, stored]
          · simp [placed.slots, here]
          · rw [List.map_append, List.map_singleton, nodup_concat_iff]
            refine ⟨?_, placed.distinct⟩
            intro taken
            obtain ⟨other, member, same⟩ := List.mem_map.mp taken
            exact free (List.any_eq_true.mpr ⟨other, member, by simpa using same⟩)
          · intro index other
            rw [List.mem_append, List.mem_singleton, placed.declared]
            constructor
            · rintro (⟨known, at', position'⟩ | same)
              · exact ⟨known, getElem?_concat_eq_some.mpr (.inl at'), position'⟩
              · cases same
                exact ⟨field, getElem?_concat_eq_some.mpr (.inr ⟨rfl, rfl⟩), found⟩
            · rintro ⟨known, at', position'⟩
              rcases getElem?_concat_eq_some.mp at' with before | ⟨rfl, rfl⟩
              · exact .inl ⟨known, before, position'⟩
              · cases found.symm.trans position'
                exact .inr rfl
          · rw [List.map_append, List.map_singleton, nodup_concat_iff]
            refine ⟨?_, placed.once⟩
            intro taken
            exact absurd (placed.index_lt taken) (Nat.lt_irrefl _)
          · intro index other at' file
            rcases getElem?_concat_eq_some.mp at' with before | ⟨-, rfl⟩
            · obtain ⟨inside, -⟩ := List.getElem?_eq_some_iff.mp before
              rw [List.take_append_of_le_length (Nat.le_of_lt inside)]
              exact placed.indexed index other before file
            · rw [stored] at file
              cases file
  | none =>
      have stored : isFileField positions field = true := by simp [isFileField, found]
      have here : slot positions field = none := by simp [slot, found]
      simp only [found] at step
      cases step
      refine ⟨?_, ?_, placed.distinct, ?_, placed.once, ?_, ?_⟩
      · simp [placed.files, stored]
      · simp [placed.slots, here]
      · intro index position
        rw [placed.declared]
        constructor
        · rintro ⟨known, at', position'⟩
          exact ⟨known, getElem?_concat_eq_some.mpr (.inl at'), position'⟩
        · rintro ⟨known, at', position'⟩
          rcases getElem?_concat_eq_some.mp at' with before | ⟨-, rfl⟩
          · exact ⟨known, before, position'⟩
          · cases found.symm.trans position'
      · simp [placed.sized]
      · intro index other at' file
        rcases getElem?_concat_eq_some.mp at' with before | ⟨rfl, rfl⟩
        · obtain ⟨inside, -⟩ := List.getElem?_eq_some_iff.mp before
          rw [List.take_append_of_le_length (Nat.le_of_lt inside),
            List.getElem?_set_ne (Nat.ne_of_gt inside)]
          exact placed.indexed index other before file
        · rw [List.getElem?_set_self (by rw [placed.sized]; exact room), List.take_left,
            placed.files, List.countP_eq_length_filter]

/-- A successful split: the partition columns are the listed ones and each declared column has a
place of its own. -/
structure Splits (declared : List Field) (columns : List String) (schema : PartitionedScanSchema) :
    Prop where
  kept : schema.declared = declared
  names : schema.partitionNames = columns
  unpartitioned : columns = [] → schema.fileFields = declared
  placement : Placement declared schema.scanFields schema.scanIndexByDeclared

theorem length_files_slots (fields : List Field) :
    (fields.filter (isFileField positions)).length + (fields.filterMap (slot positions)).length =
      fields.length := by
  induction fields with
  | nil => rfl
  | cons field fields ih =>
      cases found : positions.lookup field.name with
      | none =>
          simp only [List.filter_cons, List.filterMap_cons, isFileField, slot, found] at ih ⊢
          simp only [Option.isNone_none, if_true, Option.map_none, List.length_cons]
          omega
      | some position =>
          simp only [List.filter_cons, List.filterMap_cons, isFileField, slot, found] at ih ⊢
          simp only [Option.isNone_some, Bool.false_eq_true, if_false, Option.map_some,
            List.length_cons]
          omega

/-- Each listed column is the column of one slot. -/
theorem positions_perm (distinct : columns.Nodup)
    (every : ∀ name ∈ columns, isDeclared declared name = true)
    (once : ((declared.filterMap (slot columns.zipIdx)).map Prod.fst).Nodup) :
    ((declared.filterMap (slot columns.zipIdx)).map Prod.fst).Perm (List.range columns.length) := by
  rw [List.perm_ext_iff_of_nodup once List.nodup_range]
  intro position
  rw [List.mem_range, List.mem_map]
  constructor
  · rintro ⟨pair, member, rfl⟩
    obtain ⟨field, -, here⟩ := List.mem_filterMap.mp member
    obtain ⟨position, found, rfl⟩ := Option.map_eq_some_iff.mp here
    exact (List.getElem?_eq_some_iff.mp ((lookup_zipIdx distinct).mp found)).1
  · intro inside
    have found := List.getElem?_eq_getElem inside
    obtain ⟨field, member, named⟩ := List.any_eq_true.mp (every _ (List.getElem_mem inside))
    simp only [decide_eq_true_eq] at named
    refine ⟨(position, field), List.mem_filterMap.mpr ⟨field, member, ?_⟩, rfl⟩
    rw [slot, named, (lookup_zipIdx distinct).mpr found]
    rfl

section Finish

variable {state : SplitState} (placed : Placed columns.zipIdx declared.length declared state)
  (distinct : columns.Nodup) (every : ∀ name ∈ columns, isDeclared declared name = true)

/-- The slots in the order of their positions. -/
def sortedSlots (state : SplitState) : List (ℕ × Field) :=
  state.partitionSlots.mergeSort fun left right => left.1 ≤ right.1

/-- The place of each declared column. -/
def places (state : SplitState) : List ℕ :=
  state.partitionDeclared.foldl
    (fun index pair => index.set pair.1 (state.fileFields.length + pair.2))
      state.scanIndexByDeclared

include placed distinct every

theorem keys_sortedSlots : (sortedSlots state).map Prod.fst = List.range columns.length := by
  apply keys_mergeSort
  have once := placed.distinct
  rw [placed.slots] at once ⊢
  exact positions_perm distinct every once

theorem sortedSlots_at {field : Field} {position : ℕ} (member : field ∈ declared)
    (found : columns.zipIdx.lookup field.name = some position) :
    (sortedSlots state)[position]? = some (position, field) := by
  apply getElem?_of_keys_range (keys_sortedSlots placed distinct every)
  rw [sortedSlots, List.mem_mergeSort, placed.slots, List.mem_filterMap]
  exact ⟨field, member, by rw [slot, found]; rfl⟩

theorem names_sortedSlots : (sortedSlots state).map (fun pair => pair.2.name) = columns := by
  have length : (sortedSlots state).length = columns.length := by
    simpa using congrArg List.length (keys_sortedSlots placed distinct every)
  apply List.ext_getElem?
  intro position
  rw [List.getElem?_map]
  by_cases inside : position < columns.length
  · obtain ⟨field, member, named⟩ := List.any_eq_true.mp (every _ (List.getElem_mem inside))
    simp only [decide_eq_true_eq] at named
    have found := List.getElem?_eq_getElem inside
    rw [← named] at found
    rw [sortedSlots_at placed distinct every member ((lookup_zipIdx distinct).mpr found), found]
    rfl
  · rw [List.getElem?_eq_none (by omega), List.getElem?_eq_none (by omega)]
    rfl

omit distinct every in
theorem place_cases {field : Field} {index : ℕ} (at' : declared[index]? = some field) :
    isFileField columns.zipIdx field = true ∧
        (places state)[index]? = some ((declared.take index).countP (isFileField columns.zipIdx)) ∨
      ∃ position, columns.zipIdx.lookup field.name = some position ∧
        (places state)[index]? = some (state.fileFields.length + position) := by
  have inside : index < state.scanIndexByDeclared.length := by
    rw [placed.sized]
    exact (List.getElem?_eq_some_iff.mp at').1
  cases found : columns.zipIdx.lookup field.name with
  | none =>
      have stored : isFileField columns.zipIdx field = true := by simp [isFileField, found]
      refine .inl ⟨stored, ?_⟩
      rw [places, getElem?_foldl_set_of_not_mem]
      · exact placed.indexed index field at' stored
      · intro member
        obtain ⟨⟨_, position⟩, pair, rfl⟩ := List.mem_map.mp member
        obtain ⟨other, there, position'⟩ := (placed.declared _ _).mp pair
        cases at'.symm.trans there
        cases found.symm.trans position'
  | some position =>
      refine .inr ⟨position, rfl, ?_⟩
      have pair : (index, position) ∈ state.partitionDeclared :=
        (placed.declared index position).mpr ⟨field, at', found⟩
      exact getElem?_foldl_set_of_mem placed.once pair inside

theorem placement_places :
    Placement declared (state.fileFields ++ (sortedSlots state).map Prod.snd) (places state) where
  sized := by rw [places, length_foldl_set, placed.sized]
  total := by
    rw [List.length_append, List.length_map, sortedSlots, List.length_mergeSort, placed.files,
      placed.slots, length_files_slots]
  distinct := by
    rw [List.nodup_iff_getElem?_ne_getElem?]
    intro first second less inside same
    rw [places, length_foldl_set, placed.sized] at inside
    have atFirst := List.getElem?_eq_getElem (Nat.lt_trans less inside)
    have atSecond := List.getElem?_eq_getElem inside
    -- A file column's place is below the number of file columns.
    have below {index : ℕ} {field : Field} (at' : declared[index]? = some field)
        (stored : isFileField columns.zipIdx field = true) :
        (declared.take index).countP (isFileField columns.zipIdx) < state.fileFields.length := by
      have here := getElem?_filter_countP (isFileField columns.zipIdx) at' stored
      rw [← placed.files] at here
      exact (List.getElem?_eq_some_iff.mp here).1
    rcases place_cases placed atFirst with ⟨stored, place⟩ | ⟨position, found, place⟩
    · rcases place_cases placed atSecond with ⟨stored', place'⟩ | ⟨position', found', place'⟩
      · have grows := countP_take_lt (isFileField columns.zipIdx) less atFirst stored
        rw [place, place', Option.some.injEq] at same
        omega
      · have small := below atFirst stored
        rw [place, place', Option.some.injEq] at same
        omega
    · rcases place_cases placed atSecond with ⟨stored', place'⟩ | ⟨position', found', place'⟩
      · have small := below atSecond stored'
        rw [place, place', Option.some.injEq] at same
        omega
      · rw [place, place', Option.some.injEq, Nat.add_left_cancel_iff] at same
        have once := placed.distinct
        rw [placed.slots, List.map_filterMap] at once
        have firstKey : (slot columns.zipIdx declared[first]).map Prod.fst = some position := by
          simp [slot, found]
        have secondKey : (slot columns.zipIdx declared[second]).map Prod.fst = some position := by
          simp [slot, found', same]
        have equal := position_unique once atFirst atSecond firstKey secondKey
        omega
  placed index field at' := by
    rcases place_cases placed at' with ⟨stored, place⟩ | ⟨position, found, place⟩
    · refine ⟨_, place, ?_⟩
      have here := getElem?_filter_countP (isFileField columns.zipIdx) at' stored
      rw [← placed.files] at here
      obtain ⟨inside, -⟩ := List.getElem?_eq_some_iff.mp here
      rw [List.getElem?_append_left inside, here]
    · refine ⟨_, place, ?_⟩
      rw [List.getElem?_append_right (Nat.le_add_right _ _), Nat.add_sub_cancel_left,
        List.getElem?_map,
        sortedSlots_at placed distinct every (List.mem_of_getElem? at') found]
      rfl

end Finish

theorem split_ok {schema : PartitionedScanSchema}
    (split : PartitionedScanSchema.split declared columns = .ok schema) :
    Splits declared columns schema := by
  unfold PartitionedScanSchema.split at split
  split at split
  · next empty =>
      cases split
      refine ⟨rfl, (List.isEmpty_iff.mp empty).symm, fun _ => rfl, ?_⟩
      rw [PartitionedScanSchema.scanFields, List.append_nil]
      exact Placement.refl declared
  · next listed =>
    obtain ⟨positions, noted, rest⟩ := exists_of_bind_ok split
    obtain ⟨state, run, finish⟩ := exists_of_bind_ok rest
    obtain ⟨rfl, distinct, every⟩ := partitionPositions_ok noted
    have placed : Placed columns.zipIdx declared.length declared state := by
      apply @foldlM_zipIdx_invariant _ _ _ (Placed columns.zipIdx declared.length) _ _ _ _ ?_ ?_ run
      · exact placed_start _ _
      · intro done field rest state next whole placed step
        exact placed.step (by simp [whole]) step
    cases finish
    refine ⟨rfl, ?_, ?_, placement_places placed distinct every⟩
    · rw [PartitionedScanSchema.partitionNames, List.map_map]
      exact names_sortedSlots placed distinct every
    · intro empty
      exact absurd (List.isEmpty_iff.mpr empty) listed

end Split

/-- The columns that a projection picks, all of them without one. -/
def projected (fields : List Field) : Option (List ℕ) → List (Option Field)
  | none => fields.map some
  | some indices => indices.map fun index => fields[index]?

/-- The columns a scan gives for a projection of the declared ones. -/
def PartitionedScanSchema.scanned (schema : PartitionedScanSchema) (projection : Option (List ℕ)) :
    Option (List (Option Field)) :=
  (schema.remapProjection projection).map (projected schema.scanFields)

/-- A scan gives the declared columns that are asked for, in the order asked for. -/
theorem Splits.scanned {declared : List Field} {columns : List String}
    {schema : PartitionedScanSchema}
    (splits : Splits declared columns schema) {projection : Option (List ℕ)}
    (inside : ∀ indices, projection = some indices → ∀ index ∈ indices, index < declared.length) :
    schema.scanned projection = some (projected declared projection) := by
  unfold PartitionedScanSchema.scanned PartitionedScanSchema.remapProjection
  split
  · next empty =>
      have none : schema.partitionFields = [] := List.isEmpty_iff.mp empty
      have unlisted : columns = [] := by
        rw [← splits.names, PartitionedScanSchema.partitionNames, none]
        rfl
      rw [Option.map_some, PartitionedScanSchema.scanFields, splits.unpartitioned unlisted, none,
        List.append_nil]
  · rw [splits.kept]
    cases projection with
    | some indices =>
        obtain ⟨places, mapped, same⟩ := splits.placement.project (inside indices rfl)
        simp only [Option.getD_some, mapped, Option.map_some, projected, same]
    | none =>
        obtain ⟨places, mapped, same⟩ := splits.placement.project
          (fun index member => List.mem_range.mp member)
        have all : (List.range declared.length).map (fun index => declared[index]?) =
          declared.map some := by
          apply List.ext_getElem?
          intro index
          by_cases bound : index < declared.length
          · simp [bound]
          · simp [bound]
        simp only [Option.getD_none, mapped, Option.map_some, projected, same, all]

theorem Splits.mem_declared {declared : List Field} {columns : List String}
    {schema : PartitionedScanSchema} (splits : Splits declared columns schema) {field : Field}
    (member : field ∈ schema.partitionFields) : field ∈ declared :=
  splits.placement.mem_source (List.mem_append_right _ member)

/-! ## The values of a file -/

/-- The value that a file logs for a column, at the column's type. -/
inductive IsFileValue (file : DataFile) (field : Field) : Scalar → Prop where
  | null {logged : Option String} (found : file.partitionValues.lookup field.name = some logged)
      (absent : logged = none ∨ logged = some "")
        (allowed : library.tryNewNull field.dataType = .ok ()) :
      IsFileValue file field ⟨field.dataType, .null⟩
  | text {text : String} {value : Value}
      (found : file.partitionValues.lookup field.name = some (some text)) (present : text ≠ "")
      (read : partitionScalar library text field.dataType = .ok value) :
      IsFileValue file field ⟨field.dataType, value⟩

theorem nonNullPartitionValue_eq_none {logged : Option String} :
    nonNullPartitionValue logged = none ↔ logged = none ∨ logged = some "" := by
  cases logged with
  | none => simp [nonNullPartitionValue]
  | some text => simp [nonNullPartitionValue]

theorem nonNullPartitionValue_eq_some {logged : Option String} {text : String} :
    nonNullPartitionValue logged = some text ↔ logged = some text ∧ text ≠ "" := by
  simp [nonNullPartitionValue, Option.filter_eq_some_iff]

theorem partitionValueFor_ok_iff {file : DataFile} {field : Field} {scalar : Scalar} :
    partitionValueFor library file field = .ok scalar ↔ IsFileValue library file field scalar := by
  unfold partitionValueFor
  constructor
  · intro produced
    split at produced
    · cases produced
    · next logged found =>
        split at produced
        · next text present =>
            obtain ⟨rfl, nonempty⟩ := nonNullPartitionValue_eq_some.mp present
            split at produced
            · next value read =>
                cases produced
                exact .text found nonempty read
            · cases produced
        · next absent =>
            split at produced
            · next allowed =>
                cases produced
                exact .null found (nonNullPartitionValue_eq_none.mp absent) allowed
            · cases produced
  · intro value
    cases value with
    | null found absent allowed =>
        simp only [found, nonNullPartitionValue_eq_none.mpr absent, allowed]
    | text found present read =>
        simp only [found, nonNullPartitionValue_eq_some.mpr ⟨rfl, present⟩, read]

theorem partitionValuesFor_ok_iff {schema : PartitionedScanSchema} {file : DataFile}
    {scalars : List Scalar} : schema.partitionValuesFor library file = .ok scalars ↔
      List.Forall₂ (IsFileValue library file) schema.partitionFields scalars := by
  simp only [PartitionedScanSchema.partitionValuesFor, mapM_eq_ok_iff, partitionValueFor_ok_iff]

/-! ## Groups -/

section Groups

variable {declared : List Field} {partitionColumns : List String}

/-- What the loop over the files has done after a part of them. -/
structure Grouped (declared : List Field) (partitionColumns : List String) (done : List DataFile)
    (state : GroupState) : Prop where
  columns : state.groupByColumns = (state.groups.map PartitionedScanSchema.partitionNames).zipIdx
  distinct : (state.groups.map PartitionedScanSchema.partitionNames).Nodup
  splits : ∀ schema ∈ state.groups, Splits declared schema.partitionNames schema
  files : List.Forall₂ (fun file (group : ℕ) =>
    (state.groups.map PartitionedScanSchema.partitionNames)[group]? =
      some (groupColumns declared partitionColumns file)) done state.groupByFile

theorem Grouped.step {done : List DataFile} {state next : GroupState} {file : DataFile}
    (grouped : Grouped declared partitionColumns done state)
    (step : placeFile declared partitionColumns state file = .ok next) :
    Grouped declared partitionColumns (done ++ [file]) next := by
  obtain ⟨columns, distinct, splits, files⟩ := grouped
  unfold placeFile at step
  simp only [columns] at step
  cases found : ((state.groups.map PartitionedScanSchema.partitionNames).zipIdx).lookup
      (groupColumns declared partitionColumns file) with
  | some group =>
      simp only [found] at step
      cases step
      exact ⟨rfl, distinct, splits,
        List.rel_append files (.cons ((lookup_zipIdx distinct).mp found) .nil)⟩
  | none =>
      simp only [found] at step
      obtain ⟨schema, split, step⟩ := exists_of_bind_ok step
      cases step
      have splitOk := split_ok split
      have names : (state.groups ++ [schema]).map PartitionedScanSchema.partitionNames =
          state.groups.map PartitionedScanSchema.partitionNames ++
            [groupColumns declared partitionColumns file] := by
        rw [List.map_append, List.map_singleton, splitOk.names]
      refine ⟨?_, ?_, ?_, ?_⟩
      · rw [names, List.zipIdx_append, List.zipIdx_singleton, List.length_map, Nat.zero_add]
      · rw [names, nodup_concat_iff]
        refine ⟨?_, distinct⟩
        intro member
        obtain ⟨group, here⟩ := List.getElem?_of_mem member
        rw [(lookup_zipIdx distinct).mpr here] at found
        cases found
      · intro other member
        rcases List.mem_append.mp member with member | member
        · exact splits other member
        · obtain rfl := List.mem_singleton.mp member
          rw [splitOk.names]
          exact splitOk
      · rw [names]
        apply List.rel_append
        · apply files.imp
          intro file group here
          exact getElem?_concat_eq_some.mpr (.inl here)
        · refine .cons (getElem?_concat_eq_some.mpr (.inr ⟨?_, rfl⟩)) .nil
          rw [List.length_map]

/-- The groups of the files: the columns of the groups differ, each group is a split, and each
file's group has that file's columns. -/
theorem groups_split {files : List DataFile} {groups : PartitionedScanGroups}
    (split : PartitionedScanGroups.split declared partitionColumns files = .ok groups) :
    (groups.groups.map PartitionedScanSchema.partitionNames).Nodup ∧
      (∀ schema ∈ groups.groups, Splits declared schema.partitionNames schema) ∧
      List.Forall₂ (fun file (group : ℕ) =>
        (groups.groups.map PartitionedScanSchema.partitionNames)[group]? =
          some (groupColumns declared partitionColumns file)) files groups.groupByFile := by
  obtain ⟨state, run, rest⟩ := exists_of_bind_ok split
  have grouped : Grouped declared partitionColumns files state := by
    apply @foldlM_invariant _ _ _ (Grouped declared partitionColumns) _ _ _ _ ?_ ?_ run
    · exact ⟨rfl, List.nodup_nil, List.forall_mem_nil _, .nil⟩
    · intro done file rest before after _ grouped step
      exact grouped.step step
  split at rest
  · next empty =>
      obtain ⟨schemas, chosen, finish⟩ := exists_of_bind_ok rest
      cases finish
      obtain ⟨schema, splitFirst, rfl⟩ := exists_of_map_ok chosen
      have splitOk := split_ok splitFirst
      refine ⟨List.nodup_singleton _, ?_, ?_⟩
      · intro other member
        obtain rfl := List.mem_singleton.mp member
        rw [splitOk.names]
        exact splitOk
      · -- With a file there would be a group.
        apply grouped.files.imp
        intro file group here
        rw [List.isEmpty_iff.mp empty] at here
        cases here
  · cases rest
    exact ⟨grouped.distinct, grouped.splits, grouped.files⟩

/-- The file's partition scalars fail where it logs no value or one that its column cannot hold. -/
theorem exists_error_of_unreadable {schema : PartitionedScanSchema} {file : DataFile}
    {field : Field}
    (member : field ∈ schema.partitionFields)
    (unreadable : file.partitionValues.lookup field.name = none ∨
      ∃ text, file.partitionValues.lookup field.name = some (some text) ∧ text ≠ "" ∧
        ∀ value, partitionScalar library text field.dataType ≠ .ok value) :
    ∃ problem, schema.partitionValuesFor library file = .error problem := by
  cases produced : schema.partitionValuesFor library file with
  | error problem => exact ⟨problem, rfl⟩
  | ok scalars =>
      obtain ⟨scalar, read⟩ := exists_of_mapM_ok produced field member
      rw [partitionValueFor_ok_iff] at read
      rcases unreadable with missing | ⟨text, logged, present, unparsable⟩
      · cases read with
        | null found => cases missing.symm.trans found
        | text found => cases missing.symm.trans found
      · cases read with
        | null found absent =>
            cases logged.symm.trans found
            rcases absent with absent | absent
            · cases absent
            · exact absurd (Option.some.inj absent) present
        | text found _ read =>
            cases logged.symm.trans found
            exact absurd read (unparsable _)

/-- What a file's group gives it. -/
structure InGroup (declared : List Field) (partitionColumns : List String)
    (groups : List PartitionedScanSchema) (file : DataFile) (group : ℕ)
    (schema : PartitionedScanSchema) :
    Prop where
  found : groups[group]? = some schema
  alone : ∀ (other : ℕ) (another : PartitionedScanSchema), groups[other]? = some another →
    another.partitionNames = schema.partitionNames → other = group
  columns : ∃ extra, schema.partitionNames = partitionColumns ++ extra ∧
    extra.Sublist (file.partitionValues.map Prod.fst) ∧
    ∀ key, key ∈ extra ↔ key ∈ file.partitionValues.map Prod.fst ∧ key ∉ partitionColumns ∧
      ∃ field ∈ declared, field.name = key
  values : ∀ scalars, schema.partitionValuesFor library file = .ok scalars ↔
    List.Forall₂ (IsFileValue library file) schema.partitionFields scalars
  errors : ∀ field ∈ schema.partitionFields, (file.partitionValues.lookup field.name = none ∨
    ∃ text, file.partitionValues.lookup field.name = some (some text) ∧ text ≠ "" ∧
      ∀ value, partitionScalar library text field.dataType ≠ .ok value) →
    ∃ problem, schema.partitionValuesFor library file = .error problem

/-- What every group does with the declared columns. -/
structure Rearranges (declared : List Field) (schema : PartitionedScanSchema) : Prop where
  bijective : schema.scanIndexByDeclared.Perm (List.range declared.length)
  partition : ∀ field ∈ schema.partitionFields, field ∈ declared
  projects : ∀ projection, (∀ indices, projection = some indices →
      ∀ index ∈ indices, index < declared.length) →
    schema.scanned projection = some (projected declared projection)

/-- The groups of a successful split put every file's partition values back in their columns. -/
theorem split_reinserts {files : List DataFile} {groups : PartitionedScanGroups}
    (split : PartitionedScanGroups.split declared partitionColumns files = .ok groups) :
    List.Forall₂ (fun file group =>
        ∃ schema, InGroup library declared partitionColumns groups.groups file group schema)
      files groups.groupByFile ∧
    ∀ schema ∈ groups.groups, Rearranges declared schema := by
  obtain ⟨distinct, splits, grouped⟩ := groups_split split
  constructor
  · apply grouped.imp
    intro file group here
    rw [List.getElem?_map] at here
    obtain ⟨schema, found, names⟩ := Option.map_eq_some_iff.mp here
    refine ⟨schema, found, ?_, ?_, fun _ => partitionValuesFor_ok_iff library,
      fun _ => exists_error_of_unreadable library⟩
    · intro other another there same
      have inside : other < (groups.groups.map PartitionedScanSchema.partitionNames).length := by
        rw [List.length_map]
        exact (List.getElem?_eq_some_iff.mp there).1
      apply (List.getElem?_inj inside distinct).mp
      rw [List.getElem?_map, List.getElem?_map, there, found, Option.map_some,
        Option.map_some, same]
    · refine ⟨_, names, List.filter_sublist, ?_⟩
      intro key
      simp [List.mem_filter, isDeclared]
  · intro schema member
    have splitOk := splits schema member
    exact ⟨splitOk.placement.perm, fun _ => splitOk.mem_declared, fun _ => splitOk.scanned⟩

/-- A library that reads every text as itself. -/
def textLibrary : ScalarLibrary where
  tryFromString text _ := .ok (.text text)
  tryNewNull _ := .ok ()
  hexProblem _ := "no hex"
  executionError problem := problem
  typeName _ := "type"

def dayField : Field := ⟨"day", .utf8, true, []⟩

def numberField : Field := ⟨"number", .integer 32 true, true, []⟩

/-- A file of one day. -/
def dayFile : DataFile := ⟨"part-0", [("day", some "monday")]⟩

theorem split_reinserts_day :
    ∃ groups, PartitionedScanGroups.split [dayField, numberField] ["day"] [dayFile] = .ok groups ∧
      List.Forall₂ (fun file group => ∃ schema,
          InGroup textLibrary [dayField, numberField] ["day"] groups.groups file group schema)
        [dayFile] groups.groupByFile ∧
      ∀ schema ∈ groups.groups, Rearranges [dayField, numberField] schema := by
  have noted : partitionPositions [dayField, numberField] ["day"] = .ok [("day", 0)] := rfl
  have placed : [dayField, numberField].zipIdx.foldlM (placeField [("day", 0)])
      ⟨[], [], [], List.replicate [dayField, numberField].length 0⟩ =
      .ok ⟨[numberField], [(0, dayField)], [(0, 0)], [0, 0]⟩ := rfl
  have schema : PartitionedScanSchema.split [dayField, numberField] ["day"] =
      .ok ⟨[dayField, numberField], [numberField], [dayField], [1, 0]⟩ := by
    rw [PartitionedScanSchema.split, if_neg (by decide), noted, ok_bind, placed, ok_bind]
    simp only [List.mergeSort_singleton]
    rfl
  have columns : groupColumns [dayField, numberField] ["day"] dayFile = ["day"] := rfl
  have run : PartitionedScanGroups.split [dayField, numberField] ["day"] [dayFile] =
      .ok ⟨[dayField, numberField],
        [⟨[dayField, numberField], [numberField], [dayField], [1, 0]⟩], [0]⟩ := by
    rw [PartitionedScanGroups.split, List.foldlM_cons, placeFile, columns]
    simp only [List.lookup_nil, schema, ok_bind]
    rfl
  exact ⟨_, run, split_reinserts textLibrary run⟩

end Groups

end LakehouseEngine.PartitionColumns
