import LakehouseEngine.Data.FirstByKey
import LakehouseEngine.Pushdown.Format.DeltaPartitionValues
import LakehouseEngine.Scan.FileEntry

/-!
# The active files of a Delta table

The kernel replays the log in batches with a selection vector each.  `active_files` reads the
selected rows in turn and lists every path once, so the batches do not show in its result.
-/

namespace LakehouseEngine.DeltaTable

/-! ## Replayed batches -/

/-- A column of a replayed batch, by the type it has. -/
inductive LogArray where
  | null
  | text (typeName : String) (values : ℕ → Option String)
  | int32 (values : ℕ → Option Int32)
  | int64 (values : ℕ → Option Int64)
  | struct (typeName : String) (isNull : ℕ → Bool) (children : List (String × LogArray))
  | map (typeName : String) (column : MapColumn)
  | other (typeName : String) (isNull : ℕ → Bool)

namespace LogArray

def typeName : LogArray → String
  | null => "Null"
  | text typeName _ => typeName
  | int32 _ => "Int32"
  | int64 _ => "Int64"
  | struct typeName _ _ => typeName
  | map typeName _ => typeName
  | other typeName _ => typeName

/-- A column of the type `Null` has no validity, so none of its rows counts as NULL. -/
def isNull : LogArray → ℕ → Bool
  | null, _ => false
  | text _ values, row => (values row).isNone
  | int32 values, row => (values row).isNone
  | int64 values, row => (values row).isNone
  | struct _ isNull _, row => isNull row
  | map _ column, row => column.isNull row
  | other _ isNull, row => isNull row

end LogArray

def missingScanRowColumn (name : String) : PlanError :=
  .replay ("the replayed Delta log carries no '" ++ name ++
    "' column, so it is not the scan-row schema delta_kernel documents")

def unreadableScanRowColumn (name : String) (found : LogArray) : PlanError :=
  .replay ("the replayed Delta log carries column '" ++ name ++ "' as " ++ found.typeName ++
    ", which is not the type delta_kernel's scan-row schema documents")

/-- A value of a column that must have the type `pick` finds. -/
def valueAt {A : Type} (pick : LogArray → Option (ℕ → Option A)) (column : LogArray) (row : ℕ)
    (name : String) : Except PlanError (Option A) :=
  if column.isNull row then .ok none
  else
    match pick column with
    | some values => .ok (values row)
    | none => .error (unreadableScanRowColumn name column)

/-- `string_at`. -/
def textAt : LogArray → ℕ → String → Except PlanError (Option String) :=
  valueAt fun
    | .text _ values => some values
    | _ => none

/-- `i32_at`. -/
def i32At : LogArray → ℕ → String → Except PlanError (Option Int32) :=
  valueAt fun
    | .int32 values => some values
    | _ => none

/-- `i64_at`. -/
def i64At : LogArray → ℕ → String → Except PlanError (Option Int64) :=
  valueAt fun
    | .int64 values => some values
    | _ => none

/-- A batch of replayed rows. -/
structure ScanBatch where
  numRows : ℕ
  columns : List (String × LogArray)

def scanRowColumn (batch : ScanBatch) (name : String) : Except PlanError LogArray :=
  match batch.columns.lookup name with
  | some column => .ok column
  | none => .error (missingScanRowColumn name)

/-- `struct_column`: the children, or nothing where the column has no type. -/
def structColumn (batch : ScanBatch) (name : String) :
    Except PlanError (Option (List (String × LogArray))) := do
  match ← scanRowColumn batch name with
  | .null => return none
  | .struct _ _ children => return some children
  | column => .error (unreadableScanRowColumn name column)

def childColumn (children : List (String × LogArray)) (parentName name : String) :
    Except PlanError LogArray :=
  match children.lookup name with
  | some column => .ok column
  | none => .error (missingScanRowColumn (parentName ++ "." ++ name))

def partitionValuesColumn (batch : ScanBatch) : Except PlanError (Option MapColumn) := do
  match ← structColumn batch "fileConstantValues" with
  | none => return none
  | some constants =>
      match ← childColumn constants "fileConstantValues" "partitionValues" with
      | .null => return none
      | .map _ column => return some column
      | column => .error (unreadableScanRowColumn "partitionValues" column)

/-! ## One row -/

def sizeAt (sizes : LogArray) (row : ℕ) (path : String) : Except PlanError UInt64 := do
  match ← i64At sizes row "size" with
  | none => .error (.replay ("the `add` action for Delta data file '" ++ path ++ "' logs no size"))
  | some size =>
      if size < 0 then
        .error (.replay ("the `add` action for Delta data file '" ++ path ++
          "' logs a negative size " ++ toString size.toInt))
      else
        .ok size.toUInt64

def incompleteDeletionVector (path field : String) : PlanError :=
  .replay ("the `add` action for Delta data file '" ++ path ++
    "' carries a deletion vector with no `" ++ field ++ "`, which the Delta protocol requires")

/-- A field that every deletion vector has. -/
def requiredField {A : Type} (path field : String) (found : Except PlanError (Option A)) :
    Except PlanError A := do
  match ← found with
  | some value => return value
  | none => .error (incompleteDeletionVector path field)

def vectorStorageOf (path kind : String) : Except PlanError DeltaDeletionVectorStorage :=
  match kind with
  | "u" => .ok .uuidRelative
  | "i" => .ok .inline
  | "p" => .ok .absolutePath
  | _ => .error (.replay ("the `add` action for Delta data file '" ++ path ++
      "' carries a deletion vector whose storage kind '" ++ kind ++
      "' is none of the Delta protocol's 'u', 'i' and 'p'"))

def deletionVectorAt (deletionVectors : Option (List (String × LogArray))) (row : ℕ)
    (path : String) : Except PlanError (Option DeleteMechanism) :=
  match deletionVectors with
  | none => .ok none
  | some children => do
      let child := childColumn children "deletionVector"
      match ← textAt (← child "storageType") row "deletionVector.storageType" with
      | none => return none
      | some kind =>
          let storage ← vectorStorageOf path kind
          let pathOrInlineDv ← requiredField path "pathOrInlineDv"
            (do textAt (← child "pathOrInlineDv") row "deletionVector.pathOrInlineDv")
          let offset ← i32At (← child "offset") row "deletionVector.offset"
          let sizeInBytes ← requiredField path "sizeInBytes"
            (do i32At (← child "sizeInBytes") row "deletionVector.sizeInBytes")
          let cardinality ← requiredField path "cardinality"
            (do i64At (← child "cardinality") row "deletionVector.cardinality")
          return some (.deltaDeletionVector storage pathOrInlineDv offset sizeInBytes cardinality)

/-- The columns of a batch that the list of active files reads. -/
structure ScanColumns where
  paths : LogArray
  sizes : LogArray
  deletionVectors : Option (List (String × LogArray))
  partitionValues : Option MapColumn

def scanColumns (batch : ScanBatch) : Except PlanError ScanColumns := do
  let paths ← scanRowColumn batch "path"
  let sizes ← scanRowColumn batch "size"
  let deletionVectors ← structColumn batch "deletionVector"
  let partitionValues ← partitionValuesColumn batch
  return ⟨paths, sizes, deletionVectors, partitionValues⟩

/-- What a row logs, as the columns read it. -/
structure LoggedRow where
  path : Except PlanError (Option String)
  size : String → Except PlanError UInt64
  partitionValues : String → Except PlanError PartitionValues
  deletionVector : String → Except PlanError (Option DeleteMechanism)

def ScanColumns.row (columns : ScanColumns) (row : ℕ) : LoggedRow where
  path := textAt columns.paths row "path"
  size := sizeAt columns.sizes row
  partitionValues := partitionValuesAt columns.partitionValues row
  deletionVector := deletionVectorAt columns.deletionVectors row

/-- The values as the ordered map that an entry holds. -/
def orderedValues (values : PartitionValues) : OrderedMap.StringMap (Option String) :=
  ⟨OrderedMap.collect values, OrderedMap.sorted_collect values⟩

/-- The entry of a row, with its fields read in the order of the source. -/
def LoggedRow.entry (row : LoggedRow) (path : String) : Except PlanError FileEntry := do
  let size ← row.size path
  let partitionValues ← row.partitionValues path
  let deletes ← row.deletionVector path
  return ⟨path, size, deletes.toList, orderedValues partitionValues⟩

/-! ## The list -/

/-- What the replay has listed so far. -/
structure Replay where
  listedPaths : List String
  active : List FileEntry

/-- One selected row. -/
def appendRow (replay : Replay) (row : LoggedRow) : Except PlanError Replay := do
  match ← row.path with
  | none => return replay
  | some path =>
      if path ∈ replay.listedPaths then return replay
      else
        let entry ← row.entry path
        return ⟨path :: replay.listedPaths, replay.active ++ [entry]⟩

/-- `append_active_files`; a selection vector that ends early selects the rest. -/
def appendActiveFiles (batch : ScanBatch) (selected : List Bool) (replay : Replay) :
    Except PlanError Replay := do
  let columns ← scanColumns batch
  (List.range batch.numRows).foldlM (fun replay row =>
    if selected[row]?.getD true then appendRow replay (columns.row row) else return replay) replay

/-- `active_files`, from the batches that the kernel replays. -/
def activeFiles (replayed : List (ScanBatch × List Bool)) : Except PlanError (List FileEntry) := do
  let replay ← replayed.foldlM (fun replay part => appendActiveFiles part.1 part.2 replay)
    ⟨[], []⟩
  return replay.active.mergeSort fun left right => left.path ≤ right.path

/-! ## What the list holds -/

/-- The selected rows of a batch that has the columns of the scan-row schema. -/
def ScanBatch.selectedRows (batch : ScanBatch) (selected : List Bool) : List LoggedRow :=
  match scanColumns batch with
  | .ok columns =>
      ((List.range batch.numRows).filter fun row => selected[row]?.getD true).map columns.row
  | .error _ => []

/-- The selected rows of all batches in the order of the replay. -/
def selectedRows (replayed : List (ScanBatch × List Bool)) : List LoggedRow :=
  replayed.flatMap fun part => part.1.selectedRows part.2

/-- Every batch has the columns of the scan-row schema. -/
def Conforms (replayed : List (ScanBatch × List Bool)) : Prop :=
  ∀ part ∈ replayed, ∃ columns, scanColumns part.1 = .ok columns

/-- The path of a row that has one. -/
def LoggedRow.key (row : LoggedRow) : Option String :=
  match row.path with
  | .ok path => path
  | .error _ => none

/-- The entry has the size, the deletion vector and the partition values of the row. -/
structure LoggedRow.Carries (row : LoggedRow) (entry : FileEntry) : Prop where
  path : row.path = .ok (some entry.path)
  size : row.size entry.path = .ok entry.size
  partitionValues : ∃ values, row.partitionValues entry.path = .ok values ∧
    entry.partitionValues = orderedValues values
  deletes : ∃ vector, row.deletionVector entry.path = .ok vector ∧ entry.deletes = vector.toList

theorem LoggedRow.key_eq_some {row : LoggedRow} {path : String} :
    row.key = some path ↔ row.path = .ok (some path) := by
  unfold key
  split
  · next found read => simp [read]
  · next error read => simp [read]

theorem LoggedRow.carries_iff {row : LoggedRow} {entry : FileEntry} :
    row.Carries entry ↔ row.key = some entry.path ∧ row.entry entry.path = .ok entry := by
  rw [key_eq_some]
  constructor
  · rintro ⟨path, size, ⟨values, valued, ordered⟩, vector, found, deletes⟩
    refine ⟨path, ?_⟩
    rw [LoggedRow.entry, size, ok_bind, valued, ok_bind, found, ok_bind, ← ordered, ← deletes]
    rfl
  · rintro ⟨path, made⟩
    obtain ⟨size, sized, made⟩ := exists_of_bind_ok made
    obtain ⟨values, valued, made⟩ := exists_of_bind_ok made
    obtain ⟨vector, found, made⟩ := exists_of_bind_ok made
    have fields := Except.ok.inj made
    exact ⟨path, by rw [sized, ← fields], ⟨values, valued, by rw [← fields]⟩,
      vector, found, by rw [← fields]⟩

/-- The path of an entry is the one it was read for. -/
theorem LoggedRow.entry_path {row : LoggedRow} {path : String} {entry : FileEntry}
    (made : row.entry path = .ok entry) : entry.path = path := by
  obtain ⟨size, -, made⟩ := exists_of_bind_ok made
  obtain ⟨values, -, made⟩ := exists_of_bind_ok made
  obtain ⟨vector, -, made⟩ := exists_of_bind_ok made
  rw [← Except.ok.inj made]

theorem appendActiveFiles_eq {batch : ScanBatch} {columns : ScanColumns}
    (conforms : scanColumns batch = .ok columns) (selected : List Bool) (replay : Replay) :
    appendActiveFiles batch selected replay =
      (batch.selectedRows selected).foldlM appendRow replay := by
  rw [appendActiveFiles, conforms, ok_bind, ScanBatch.selectedRows, conforms, List.foldlM_map,
    List.foldlM_filter]

theorem foldlM_appendActiveFiles {replayed : List (ScanBatch × List Bool)}
    (conforms : Conforms replayed)
    (replay : Replay) :
    replayed.foldlM (fun replay part => appendActiveFiles part.1 part.2 replay) replay =
      (selectedRows replayed).foldlM appendRow replay := by
  induction replayed generalizing replay with
  | nil => rfl
  | cons part replayed ih =>
      obtain ⟨columns, found⟩ := conforms part List.mem_cons_self
      rw [List.foldlM_cons, selectedRows, List.flatMap_cons, List.foldlM_append,
        appendActiveFiles_eq found]
      refine bind_congr fun next => ?_
      exact ih (fun other member => conforms other (List.mem_cons_of_mem _ member)) next

/-- A replay that succeeds has met batches of the scan-row schema only. -/
theorem conforms_of_foldlM {replayed : List (ScanBatch × List Bool)} {replay last : Replay}
    (ran : replayed.foldlM (fun replay part => appendActiveFiles part.1 part.2 replay)
      replay = .ok last) : Conforms replayed := by
  induction replayed generalizing replay with
  | nil =>
      intro part member
      cases member
  | cons part replayed ih =>
      rw [List.foldlM_cons] at ran
      obtain ⟨next, appended, ran⟩ := exists_of_bind_ok ran
      obtain ⟨columns, found, -⟩ := exists_of_bind_ok appended
      intro other member
      rcases List.mem_cons.mp member with rfl | member
      · exact ⟨columns, found⟩
      · exact ih ran other member

/-- What a row carries is its entry. -/
theorem LoggedRow.carries_of_key {row : LoggedRow} {path : String} (keyed : row.key = some path)
    {entry : FileEntry} : row.Carries entry ↔ row.entry path = .ok entry := by
  rw [carries_iff, keyed]
  constructor
  · rintro ⟨same, made⟩
    rwa [Option.some.inj same]
  · intro made
    rw [entry_path made]
    exact ⟨rfl, made⟩

/-- The rows are listed once by path, each with the first row's entry. -/
theorem foldlM_appendRow {rows : List LoggedRow} {replay : Replay} {active : List FileEntry} :
    (Replay.active <$> rows.foldlM appendRow replay) = .ok active ↔
      (∀ row ∈ rows, ∃ path, row.path = .ok path) ∧
        ∃ entries, List.Forall₂ LoggedRow.Carries
          (FirstByKey.firsts LoggedRow.key replay.listedPaths rows) entries ∧
            active = replay.active ++ entries := by
  induction rows generalizing replay with
  | nil =>
      constructor
      · intro made
        cases made
        exact ⟨by simp, [], .nil, by simp⟩
      · rintro ⟨-, entries, carried, rfl⟩
        cases carried
        rw [List.append_nil]
        rfl
  | cons row rows ih =>
      rw [List.foldlM_cons, List.forall_mem_cons]
      cases read : row.path with
      | error error =>
          have stops : appendRow replay row = .error error := by rw [appendRow, read]; rfl
          rw [stops]
          simp only [reduceCtorEq, exists_false, false_and, iff_false]
          intro made
          cases made
      | ok found =>
          have readable : ∃ path, (Except.ok found : Except PlanError (Option String)) = .ok path :=
            ⟨found, rfl⟩
          simp only [readable, true_and]
          cases found with
          | none =>
              have keyless : row.key = none := by rw [LoggedRow.key, read]
              have passed : appendRow replay row = .ok replay := by rw [appendRow, read]; rfl
              simp only [passed, ok_bind, ih, FirstByKey.firsts, keyless]
          | some path =>
              have keyed : row.key = some path := LoggedRow.key_eq_some.mpr read
              by_cases listed : path ∈ replay.listedPaths
              · have passed : appendRow replay row = .ok replay := by
                  rw [appendRow, read, ok_bind]
                  exact if_pos listed
                simp only [passed, ok_bind, ih, FirstByKey.firsts, keyed, if_pos listed]
              · simp only [FirstByKey.firsts, keyed, if_neg listed, List.forall₂_cons_left_iff,
                  LoggedRow.carries_of_key keyed]
                cases made : row.entry path with
                | error error =>
                    have stops : appendRow replay row = .error error := by
                      rw [appendRow, read, ok_bind]
                      simp only [if_neg listed, made]
                      rfl
                    rw [stops]
                    simp only [reduceCtorEq, false_and, exists_false, and_false, iff_false]
                    intro ran
                    cases ran
                | ok entry =>
                    have opened : appendRow replay row =
                        .ok ⟨path :: replay.listedPaths, replay.active ++ [entry]⟩ := by
                      rw [appendRow, read, ok_bind]
                      simp only [if_neg listed, made]
                      rfl
                    rw [opened, ok_bind, ih]
                    refine and_congr Iff.rfl ?_
                    constructor
                    · rintro ⟨entries, carried, rfl⟩
                      exact ⟨entry :: entries, ⟨entry, entries, rfl, carried, rfl⟩, by simp⟩
                    · rintro ⟨_, ⟨_, entries, same, carried, rfl⟩, rfl⟩
                      obtain rfl := Except.ok.inj same
                      exact ⟨entries, carried, by simp⟩

/-! ## The theorem -/

theorem activeFiles_eq_ok {replayed : List (ScanBatch × List Bool)} {files : List FileEntry} :
    activeFiles replayed = .ok files ↔
      Conforms replayed ∧ (∀ row ∈ selectedRows replayed, ∃ path, row.path = .ok path) ∧
        ∃ entries, List.Forall₂ LoggedRow.Carries
          (FirstByKey.firsts LoggedRow.key [] (selectedRows replayed)) entries ∧
            files = entries.mergeSort fun left right => left.path ≤ right.path := by
  constructor
  · intro made
    obtain ⟨replay, ran, made⟩ := exists_of_bind_ok made
    have conforms := conforms_of_foldlM ran
    rw [foldlM_appendActiveFiles conforms] at ran
    have listed : (Replay.active <$> (selectedRows replayed).foldlM appendRow ⟨[], []⟩) =
        .ok replay.active := by rw [ran]; rfl
    obtain ⟨readable, entries, carried, active⟩ := foldlM_appendRow.mp listed
    refine ⟨conforms, readable, entries, carried, ?_⟩
    rw [← Except.ok.inj made, active]
    rfl
  · rintro ⟨conforms, readable, entries, carried, rfl⟩
    have listed := (@foldlM_appendRow _ ⟨[], []⟩ entries).mpr ⟨readable, entries, carried, rfl⟩
    obtain ⟨replay, ran, active⟩ := exists_of_map_ok listed
    rw [activeFiles, foldlM_appendActiveFiles conforms, ran, ok_bind, active]
    rfl

/-- The entries have their rows' paths, which are distinct. -/
theorem pairwise_carried {rows : List LoggedRow} {entries : List FileEntry}
    (distinct : rows.Pairwise fun first second => first.key ≠ second.key)
    (carried : List.Forall₂ LoggedRow.Carries rows entries) :
    entries.Pairwise fun first second => first.path ≠ second.path := by
  induction carried with
  | nil => exact .nil
  | cons first rest ih =>
      rw [List.pairwise_cons] at distinct
      refine .cons ?_ (ih distinct.2)
      intro other member same
      obtain ⟨row, among, carries⟩ := exists_related_of_mem rest member
      apply distinct.1 row among
      rw [(LoggedRow.carries_iff.mp first).1, (LoggedRow.carries_iff.mp carries).1, same]

theorem sorted_paths {entries : List FileEntry}
    (distinct : entries.Pairwise fun first second => first.path ≠ second.path) :
    ((entries.mergeSort fun left right => left.path ≤ right.path).map (·.path)).Pairwise
      (· < ·) := by
  set files := entries.mergeSort fun left right => left.path ≤ right.path
  have perm : files.Perm entries := List.mergeSort_perm _ _
  have apart : files.Pairwise fun first second => first.path ≠ second.path :=
    (perm.pairwise_iff fun differ => differ.symm).mpr distinct
  have ordered : files.Pairwise fun first second => (decide (first.path ≤ second.path)) = true := by
    apply List.pairwise_mergeSort
    · intro a b c ab bc
      simp only [decide_eq_true_eq] at ab bc ⊢
      exact le_trans ab bc
    · intro a b
      simpa using le_total a.path b.path
  rw [List.pairwise_map]
  refine ordered.imp₂ ?_ apart
  intro first second below differ
  exact lt_of_le_of_ne (of_decide_eq_true below) differ

/-- The list of active files holds every selected path once, in order, with what the first
selected row of the path logs, and the batches do not matter. -/
theorem activeFiles_listed (replayed : List (ScanBatch × List Bool)) :
    ((∃ files, activeFiles replayed = .ok files) ↔
      Conforms replayed ∧ (∀ row ∈ selectedRows replayed, ∃ path, row.path = .ok path) ∧
        ∀ row path, FirstByKey.IsFirst LoggedRow.key (selectedRows replayed) row path →
          ∃ entry, row.Carries entry) ∧
    (∀ files, activeFiles replayed = .ok files →
      (files.map (·.path)).Pairwise (· < ·) ∧
      (∀ path, path ∈ files.map (·.path) ↔
        ∃ row ∈ selectedRows replayed, row.path = .ok (some path)) ∧
      ∀ file ∈ files, ∃ row,
        FirstByKey.IsFirst LoggedRow.key (selectedRows replayed) row file.path ∧ row.Carries file) ∧
    ∀ other, Conforms replayed → Conforms other → selectedRows other = selectedRows replayed →
      activeFiles other = activeFiles replayed := by
  refine ⟨⟨?_, ?_⟩, ?_, ?_⟩
  · rintro ⟨files, made⟩
    obtain ⟨conforms, readable, entries, carried, -⟩ := activeFiles_eq_ok.mp made
    refine ⟨conforms, readable, fun row path first => ?_⟩
    have listed : row ∈ FirstByKey.firsts LoggedRow.key [] (selectedRows replayed) :=
      FirstByKey.mem_firsts.mpr ⟨path, first, List.not_mem_nil⟩
    obtain ⟨entry, -, carries⟩ := exists_related_of_mem carried.flip listed
    exact ⟨entry, carries⟩
  · rintro ⟨conforms, readable, each⟩
    have all : ∀ row ∈ FirstByKey.firsts LoggedRow.key [] (selectedRows replayed),
        ∃ entry, row.Carries entry := by
      intro row listed
      obtain ⟨path, first, -⟩ := FirstByKey.mem_firsts.mp listed
      exact each row path first
    obtain ⟨entries, carried⟩ := exists_forall₂ all
    exact ⟨_, activeFiles_eq_ok.mpr ⟨conforms, readable, entries, carried, rfl⟩⟩
  · intro files made
    obtain ⟨-, -, entries, carried, rfl⟩ := activeFiles_eq_ok.mp made
    have distinct := pairwise_carried (FirstByKey.pairwise_firsts [] _) carried
    have origin : ∀ file ∈ entries, ∃ row,
        FirstByKey.IsFirst LoggedRow.key (selectedRows replayed) row file.path ∧
          row.Carries file := by
      intro file member
      obtain ⟨row, listed, carries⟩ := exists_related_of_mem carried member
      obtain ⟨path, first, -⟩ := FirstByKey.mem_firsts.mp listed
      have keyed := (LoggedRow.carries_iff.mp carries).1
      obtain rfl := Option.some.inj (first.keyed.symm.trans keyed)
      exact ⟨row, first, carries⟩
    have perm : (entries.mergeSort fun left right => left.path ≤ right.path).Perm entries :=
      List.mergeSort_perm _ _
    refine ⟨sorted_paths distinct, fun path => ?_, fun file member =>
      origin file (perm.mem_iff.mp member)⟩
    rw [(perm.map _).mem_iff, List.mem_map]
    constructor
    · rintro ⟨file, member, rfl⟩
      obtain ⟨row, first, carries⟩ := origin file member
      exact ⟨row, first.mem, carries.path⟩
    · rintro ⟨row, member, logged⟩
      obtain ⟨opening, first⟩ := FirstByKey.exists_isFirst member (LoggedRow.key_eq_some.mpr logged)
      have listed : opening ∈ FirstByKey.firsts LoggedRow.key [] (selectedRows replayed) :=
        FirstByKey.mem_firsts.mpr ⟨path, first, List.not_mem_nil⟩
      obtain ⟨entry, among, carries⟩ := exists_related_of_mem carried.flip listed
      have keyed := (LoggedRow.carries_iff.mp carries).1
      exact ⟨entry, among, Option.some.inj (keyed.symm.trans first.keyed)⟩
  · intro other conforms otherConforms same
    rw [activeFiles, activeFiles, foldlM_appendActiveFiles conforms,
      foldlM_appendActiveFiles otherConforms, same]

end LakehouseEngine.DeltaTable
