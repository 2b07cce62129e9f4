import LakehouseEngine.Data.Fallible
import LakehouseEngine.Data.ListRelation
import LakehouseEngine.Scan.RowDeletes

/-!
# The deleted positions are the deletes of the shard

Decoding is a loop over rows with an open run; its state holds the deletes of the rows it
has read.  Over all delete files and vectors of a shard, the union at a data file is then
compared with the deletes that name the file as the table's metadata does.
-/

namespace LakehouseEngine

/-! ## Decoding is independent of runs and batches -/

section Decoding

variable {assigned : List Char → Option (List Char)}

/-- Some row deletes position `n` of the file at `uri`. -/
def RowDeletes (assigned : List Char → Option (List Char)) (rows : List DeleteRow)
    (uri : List Char) (n : ℕ) : Prop :=
  ∃ row ∈ rows, ∃ path, row.path = some path ∧ row.pos = some (n : ℤ) ∧ assigned path = some uri

/-- The positions of the open run, if it is a run of the file at `uri`. -/
def DecodeState.pending (assigned : List Char → Option (List Char)) (state : DecodeState)
    (uri : List Char) : List ℕ :=
  match state.run with
  | some (path, some bucket) => if assigned path = some uri then bucket else []
  | _ => []

/-- Whether the run collects depends on its file being assigned. -/
def DecodeState.RunFits (assigned : List Char → Option (List Char)) (state : DecodeState) : Prop :=
  ∀ path bucket, state.run = some (path, bucket) → bucket.isSome = (assigned path).isSome

/-- Sets and open run together hold the deletes of the rows read so far. -/
structure Decoded (assigned : List Char → Option (List Char)) (rows : List DeleteRow)
    (state : DecodeState) : Prop where
  fits : state.RunFits assigned
  positions : ∀ uri n, n ∈ state.sets uri ∨ n ∈ state.pending assigned uri ↔
    RowDeletes assigned rows uri n

theorem mem_addPositions {sets : PositionSets} {path uri : List Char} {positions : List ℕ} {n : ℕ} :
    n ∈ addPositions sets path positions uri ↔ n ∈ sets uri ∨ uri = path ∧ n ∈ positions := by
  by_cases empty : positions = []
  · simp [addPositions, empty]
  · by_cases same : uri = path <;> simp [addPositions, empty, same]

theorem Decoded.flush {rows : List DeleteRow} {state : DecodeState}
    (decoded : Decoded assigned rows state) :
    Decoded assigned rows (state.flush assigned) ∧
      ∀ uri, (state.flush assigned).pending assigned uri = [] := by
  obtain ⟨sets, run⟩ := state
  match run with
  | none => exact ⟨decoded, fun uri => rfl⟩
  | some (path, none) => exact ⟨decoded, fun uri => rfl⟩
  | some (path, some bucket) =>
      have known := decoded.fits path (some bucket) rfl
      cases target : assigned path with
      | none => simp [target] at known
      | some file =>
          have noPending (uri : List Char) :
              (DecodeState.flush assigned ⟨sets, some (path, some bucket)⟩).pending assigned uri =
                [] := by
            simp [DecodeState.flush, DecodeState.pending]
          refine ⟨⟨?_, ?_⟩, noPending⟩
          · intro other otherBucket opened
            simp only [DecodeState.flush, Option.some.injEq, Prod.mk.injEq] at opened
            obtain ⟨rfl, rfl⟩ := opened
            simp [target]
          · intro uri n
            rw [← decoded.positions uri n, noPending]
            simp only [DecodeState.flush, target, Option.getD_some, mem_addPositions,
              DecodeState.pending, Option.some.injEq, List.not_mem_nil, or_false]
            by_cases same : file = uri
            · simp [same]
            · simp [same, Ne.symm same]

theorem Decoded.enter {rows : List DeleteRow} {state : DecodeState}
    (decoded : Decoded assigned rows state) (path : List Char) :
    Decoded assigned rows (state.enter assigned path) ∧
      ∃ bucket, (state.enter assigned path).run = some (path, bucket) := by
  unfold DecodeState.enter
  split
  case isTrue going =>
    refine ⟨decoded, ?_⟩
    cases run : state.run with
    | none => simp [run] at going
    | some current =>
        obtain ⟨currentPath, bucket⟩ := current
        have same : currentPath = path := by simpa [run] using going
        exact ⟨bucket, by rw [same]⟩
  case isFalse =>
    obtain ⟨flushed, noPending⟩ := decoded.flush
    refine ⟨⟨?_, ?_⟩, _, rfl⟩
    · intro other bucket opened
      simp only [Option.some.injEq, Prod.mk.injEq] at opened
      obtain ⟨rfl, rfl⟩ := opened
      simp
    · intro uri n
      rw [← flushed.positions uri n, noPending]
      cases target : assigned path with
      | none => simp [DecodeState.pending]
      | some file => simp [DecodeState.pending, target]

theorem Decoded.row {rows : List DeleteRow} {state next : DecodeState} {row : DeleteRow}
    (decoded : Decoded assigned rows state) (read : decodeRow assigned state row = .ok next) :
    Decoded assigned (rows ++ [row]) next := by
  have extended (uri : List Char) (n : ℕ) : RowDeletes assigned (rows ++ [row]) uri n ↔
      RowDeletes assigned rows uri n ∨ ∃ path, row.path = some path ∧ row.pos = some (n : ℤ) ∧
        assigned path = some uri := by
    simp only [RowDeletes, List.mem_append, List.mem_singleton, or_and_right, exists_or,
      exists_eq_left]
  -- a row without a path or without a position deletes nothing
  have ignored (blank : row.pos = none ∨ row.path = none) :
      Decoded assigned (rows ++ [row]) state := by
    refine ⟨decoded.fits, ?_⟩
    intro uri n
    rw [extended, decoded.positions]
    rcases blank with blank | blank <;> simp [blank]
  cases position : row.pos with
  | none =>
      simp only [decodeRow, position, Except.ok.injEq] at read
      exact read ▸ ignored (.inl position)
  | some pos =>
      cases named : row.path with
      | none =>
          simp only [decodeRow, position, named, Except.ok.injEq] at read
          exact read ▸ ignored (.inr named)
      | some path =>
          obtain ⟨entered, bucket, run⟩ := decoded.enter path
          have fits := entered.fits path bucket run
          cases bucket with
          | none =>
              have unassigned : assigned path = none := by simpa using fits.symm
              simp only [decodeRow, position, named, run, Except.ok.injEq] at read
              rw [← read]
              refine ⟨entered.fits, ?_⟩
              intro uri n
              rw [extended, entered.positions]
              simp [named, unassigned]
          | some bucket =>
              simp only [decodeRow, position, named, run] at read
              split_ifs at read with negative
              rw [Except.ok.injEq] at read
              rw [← read]
              have exact_ (n : ℕ) : pos = (n : ℤ) ↔ n = pos.toNat := by omega
              refine ⟨?_, ?_⟩
              · intro other otherBucket opened
                simp only [Option.some.injEq, Prod.mk.injEq] at opened
                obtain ⟨rfl, rfl⟩ := opened
                simpa using fits
              · intro uri n
                rw [extended, ← entered.positions]
                simp only [DecodeState.pending, run, position, Option.some.injEq, exact_]
                by_cases same : assigned path = some uri
                · simp [same, named, or_assoc]
                · simp [same, named]

theorem Decoded.batch {rows : List DeleteRow} {state next : DecodeState} {batch : List DeleteRow}
    (decoded : Decoded assigned rows state)
    (read : batch.foldlM (decodeRow assigned) state = .ok next) :
    Decoded assigned (rows ++ batch) next := by
  induction batch generalizing rows state with
  | nil =>
      simp only [List.foldlM_nil, pure, Except.pure, Except.ok.injEq] at read
      simpa [← read] using decoded
  | cons row batch ih =>
      rw [List.foldlM_cons] at read
      obtain ⟨middle, step, read⟩ := exists_of_bind_ok read
      have whole := ih (decoded.row step) read
      rwa [List.append_assoc] at whole

theorem Decoded.decodeBatch {fields : List RootField} {rows : List DeleteRow}
    {state next : DecodeState} {batch : List DeleteRow} (decoded : Decoded assigned rows state)
    (read : decodeBatch assigned fields state batch = .ok next) :
    Decoded assigned (rows ++ batch) next ∧ ∀ uri, next.pending assigned uri = [] := by
  unfold LakehouseEngine.decodeBatch at read
  obtain ⟨_, -, read⟩ := exists_of_bind_ok read
  obtain ⟨middle, step, flushed⟩ := exists_of_bind_ok read
  cases flushed
  exact (decoded.batch step).flush

theorem Decoded.batches {fields : List RootField} {rows : List DeleteRow}
    {state next : DecodeState} {batches : List (List DeleteRow)}
    (decoded : Decoded assigned rows state) (settled : ∀ uri, state.pending assigned uri = [])
    (read : batches.foldlM (LakehouseEngine.decodeBatch assigned fields) state = .ok next) :
    Decoded assigned (rows ++ batches.flatten) next ∧ ∀ uri, next.pending assigned uri = [] := by
  induction batches generalizing rows state with
  | nil =>
      simp only [List.foldlM_nil, pure, Except.pure, Except.ok.injEq] at read
      simpa [← read] using And.intro decoded settled
  | cons batch batches ih =>
      rw [List.foldlM_cons] at read
      obtain ⟨middle, step, read⟩ := exists_of_bind_ok read
      obtain ⟨next, flushed⟩ := decoded.decodeBatch step
      have whole := ih next flushed read
      rwa [List.append_assoc] at whole

/-- Whatever the batches are, a successful decode holds the deletes of the rows. -/
theorem mem_decodeRowGroups {fields : List RootField} {batches : List (List DeleteRow)}
    {sets : PositionSets} (read : decodeRowGroups assigned fields batches = .ok sets)
    (uri : List Char) (n : ℕ) : n ∈ sets uri ↔ RowDeletes assigned batches.flatten uri n := by
  have start : Decoded assigned [] { sets := .empty, run := none } := by
    refine ⟨by simp [DecodeState.RunFits], ?_⟩
    intro uri n
    simp [DecodeState.pending, RowDeletes, PositionSets.empty]
  unfold decodeRowGroups at read
  cases folded : batches.foldlM (decodeBatch assigned fields) { sets := .empty, run := none } with
  | error error => simp [folded, Except.map] at read
  | ok final =>
      simp only [folded, Except.map, Except.ok.injEq] at read
      obtain ⟨decoded, settled⟩ := start.batches (fun uri => rfl) folded
      rw [← read, ← List.nil_append batches.flatten, ← decoded.positions, settled]
      simp

end Decoding

variable {Vector : Type}

/-! ## One delete file -/

/-- Every row group is as Parquet writes it. -/
def DeleteFile.Described (file : DeleteFile) : Prop :=
  ∀ filePathIdx posIdx, locateDeleteColumns file.fields = .ok (filePathIdx, posIdx) →
    ∀ rowGroup ∈ file.rowGroups, LakehouseEngine.Described file.fields filePathIdx rowGroup

/-- The statistics at the path column's root index are its own. -/
def StatisticsAligned (fields : List RootField) : Prop :=
  ∀ filePathIdx posIdx, locateDeleteColumns fields = .ok (filePathIdx, posIdx) →
    PathAligned fields filePathIdx

def DeleteFile.rows (file : DeleteFile) : List DeleteRow := file.rowGroups.flatMap (·.rows)

theorem rowDeletes_flatMap {assigned : List Char → Option (List Char)} {α : Type}
    {parts : List α} {rows : α → List DeleteRow} {uri : List Char} {n : ℕ} :
    RowDeletes assigned (parts.flatMap rows) uri n ↔
      ∃ part ∈ parts, RowDeletes assigned (rows part) uri n := by
  simp only [RowDeletes, List.mem_flatMap]
  constructor
  · rintro ⟨row, ⟨part, inParts, inRows⟩, found⟩
    exact ⟨part, inParts, row, inRows, found⟩
  · rintro ⟨part, inParts, row, inRows, found⟩
    exact ⟨row, ⟨part, inParts, inRows⟩, found⟩

theorem mem_rowGroupReads {opened : List DeleteRowGroup × List DeleteRowGroup}
    {rowGroup : DeleteRowGroup} :
    (∃ rowGroups ∈ rowGroupReads opened, rowGroup ∈ rowGroups) ↔
      rowGroup ∈ opened.1 ∨ rowGroup ∈ opened.2 := by
  unfold rowGroupReads
  by_cases empty : opened.1 = [] <;> simp [empty]

theorem mem_of_assignedUri {assigned : List (List Char × List Char)} {path uri : List Char}
    (found : assignedUri assigned path = some uri) : (path, uri) ∈ assigned := by
  rw [← List.mem_reverse]
  exact mem_of_lookup_eq_some found

theorem exists_assignedUri {assigned : List (List Char × List Char)} {path uri : List Char}
    (member : (path, uri) ∈ assigned) : ∃ other, assignedUri assigned path = some other := by
  rw [← Option.isSome_iff_exists, assignedUri, List.lookup_isSome_iff]
  exact ⟨(path, uri), by simpa using member, by simp⟩

theorem readDeleteFile_cases {reads : DeleteReads Vector} {assigned : List (List Char × List Char)}
    {path : List Char} {sets : List PositionSets}
    (read : readDeleteFile reads assigned path = .ok sets) :
    ∃ file, reads.file path = .ok file ∧
      ∃ opened, openDeleteFile (assigned.map (·.1)) (reads.tailStart path) file = .ok opened ∧
        ((rowGroupReads opened).mapM fun rowGroups =>
          decodeRowGroups (assignedUri assigned) file.fields
            (reads.batches (rowGroups.flatMap (·.rows)))) = .ok sets := by
  unfold readDeleteFile at read
  cases stored : reads.file path with
  | error cause => simp [stored, Except.mapError, bind, Except.bind] at read
  | ok file =>
      rw [stored] at read
      exact ⟨file, rfl, exists_of_bind_ok read⟩

/-- No delete of an assigned file is lost in the row groups that are skipped. -/
theorem mem_readDeleteFile {reads : DeleteReads Vector} {assigned : List (List Char × List Char)}
    {path : List Char} {file : DeleteFile} {sets : List PositionSets}
    (stored : reads.file path = .ok file) (described : file.Described)
    (aligned : StatisticsAligned file.fields)
    (read : readDeleteFile reads assigned path = .ok sets) (uri : List Char) (n : ℕ) :
    (∃ set ∈ sets, n ∈ set uri) ↔ RowDeletes (assignedUri assigned) file.rows uri n := by
  obtain ⟨_, again, opened, isOpen, read⟩ := readDeleteFile_cases read
  cases again.symm.trans stored
  cases located : locateDeleteColumns file.fields with
  | error error => simp [openDeleteFile, located, bind, Except.bind] at isOpen
  | ok columns =>
      obtain ⟨filePathIdx, posIdx⟩ := columns
      obtain ⟨again, reopened, members⟩ := @openDeleteFile_eq file filePathIdx posIdx
        (reads.tailStart path) (assigned.map (·.1)) located
      rw [isOpen, Except.ok.injEq] at reopened
      rw [← reopened] at members
      have decoded := mem_of_mapM_ok read
      have perRead (rowGroups : List DeleteRowGroup) (set : PositionSets)
          (result : decodeRowGroups (assignedUri assigned) file.fields
            (reads.batches (rowGroups.flatMap (·.rows))) = .ok set) :
          n ∈ set uri ↔ ∃ rowGroup ∈ rowGroups,
            RowDeletes (assignedUri assigned) rowGroup.rows uri n := by
        rw [mem_decodeRowGroups result, reads.batches_flatten, rowDeletes_flatMap]
      rw [DeleteFile.rows, rowDeletes_flatMap]
      constructor
      · rintro ⟨set, member, deleted⟩
        obtain ⟨rowGroups, inReads, result⟩ := (decoded set).mp member
        obtain ⟨rowGroup, inRead, deleted⟩ := (perRead rowGroups set result).mp deleted
        have kept := (members rowGroup).mp (mem_rowGroupReads.mp ⟨rowGroups, inReads, inRead⟩)
        exact ⟨rowGroup, kept.1, deleted⟩
      · rintro ⟨rowGroup, inFile, deleted⟩
        obtain ⟨row, inGroup, named, path, pos, target⟩ := deleted
        have wanted : named ∈ assigned.map (·.1) :=
          List.mem_map_of_mem (mem_of_assignedUri target)
        have kept := deleteRowGroupMayMatch_of_aligned (aligned _ _ located)
          (described _ _ located rowGroup inFile) inGroup path wanted
        obtain ⟨rowGroups, inReads, inRead⟩ :=
          mem_rowGroupReads.mpr ((members rowGroup).mpr ⟨inFile, kept⟩)
        obtain ⟨set, result⟩ := exists_of_mapM_ok read rowGroups inReads
        exact ⟨set, (decoded set).mpr ⟨rowGroups, inReads, result⟩,
          (perRead rowGroups set result).mpr ⟨rowGroup, inRead, row, inGroup, named, path,
            pos, target⟩⟩

/-! ## The shard -/

theorem mem_unionByDataFile {sets : List PositionSets} {uri : List Char} {n : ℕ} :
    n ∈ unionByDataFile sets uri ↔ ∃ set ∈ sets, n ∈ set uri := by
  have general (union : Finset ℕ) : n ∈ sets.foldl (fun union set => union ∪ set uri) union ↔
      n ∈ union ∨ ∃ set ∈ sets, n ∈ set uri := by
    induction sets generalizing union with
    | nil => simp
    | cons set sets ih => simp [ih, or_assoc]
  rw [unionByDataFile, general]
  simp

/-- A data file of a table: the path its metadata has for it, and the location the planner
makes of that path. -/
structure PlannedFile (rules : Url.Rules) where
  manifest : List Char
  location : RootedLocation rules
  planned : ObjectLocation.fromRaw rules manifest = .ok location.toObjectLocation
  size : UInt64
  partitionValues : OrderedMap.StringMap (Option String)

variable {rules : Url.Rules}

namespace PlannedFile

/-- The path of the file on the wire. -/
def path (root : RootedLocation rules) (file : PlannedFile rules) : List Char :=
  wireEntry rules root.toObjectLocation file.location.toObjectLocation

/-- The key under which the positions of the file are returned. -/
def uri (root : RootedLocation rules) (file : PlannedFile rules) : List Char :=
  reconstructAbsUri (file.path root) root.toWire

def entry (root : RootedLocation rules) (file : PlannedFile rules)
    (deletes : List DeleteMechanism) :
    FileEntry where
  path := String.ofList (file.path root)
  size := file.size
  deletes := deletes
  partitionValues := file.partitionValues

/-- The name of the file that the scan looks for in delete rows. -/
def name (file : PlannedFile rules) : List Char := file.location.readBack.display

theorem parseWire_uri (root : RootedLocation rules) (file : PlannedFile rules) :
    ObjectLocation.parseWire rules (file.uri root) = .ok file.location.readBack :=
  ObjectLocation.parseEntry_relativize file.location.normal root.normal

theorem name_eq_of_uri_eq {root : RootedLocation rules} {file other : PlannedFile rules}
    (same : file.uri root = other.uri root) : file.name = other.name := by
  have read := file.parseWire_uri root
  rw [same, other.parseWire_uri, Except.ok.injEq] at read
  rw [name, name, read]

theorem location_eq_of_manifest_eq {file other : PlannedFile rules}
    (same : file.manifest = other.manifest) :
    file.location.toObjectLocation = other.location.toObjectLocation := by
  have read := file.planned
  rw [same, other.planned, Except.ok.injEq] at read
  exact read.symm

theorem path_eq_of_manifest_eq (root : RootedLocation rules) {file other : PlannedFile rules}
    (same : file.manifest = other.manifest) : file.path root = other.path root := by
  rw [path, path, location_eq_of_manifest_eq same]

end PlannedFile

/-- The files of a shard with the deletes attached to each. -/
structure Shard (rules : Url.Rules) where
  attached : List (PlannedFile rules × List DeleteMechanism)

namespace Shard

variable {root : RootedLocation rules} {shard : Shard rules} {reads : DeleteReads Vector}

def files (shard : Shard rules) : List (PlannedFile rules) := shard.attached.map (·.1)

def entries (root : RootedLocation rules) (shard : Shard rules) : List FileEntry :=
  shard.attached.map fun attached => attached.1.entry root attached.2

def assigned (root : RootedLocation rules) (shard : Shard rules) : List (List Char × List Char) :=
  shard.files.map fun file => (file.name, file.uri root)

/-- A delete file of the shard. -/
def Attaches (shard : Shard rules) (path : List Char) : Prop :=
  ∃ attached ∈ shard.attached, ∃ size,
    .icebergPositionalDelete (String.ofList path) size ∈ attached.2

/-- A row of a delete file of the shard deletes position `n` of the data file at `path`. -/
def RowDelete (reads : DeleteReads Vector) (shard : Shard rules) (path : List Char) (n : ℕ) :
    Prop :=
  ∃ deleteFile, shard.Attaches deleteFile ∧ ∃ file, reads.file deleteFile = .ok file ∧
    ∃ row ∈ file.rows, row.path = some path ∧ row.pos = some (n : ℤ)

/-- A vector attached to a file of the shard deletes its position `n`. -/
def VectorDelete (reads : DeleteReads Vector) (root : RootedLocation rules) (shard : Shard rules)
    (file : PlannedFile rules) (n : ℕ) : Prop :=
  ∃ deletes, (file, deletes) ∈ shard.attached ∧ ∃ delete ∈ deletes,
    ∃ vector, applicableDeleteMechanism reads (file.path root) delete =
        .ok (.deletionVector (file.path root) vector) ∧
      ∃ positions, reads.decode (file.path root) vector = .ok positions ∧ n ∈ positions

/-- The sets hold the deletes of each file of the shard, and nothing else.  Files with one
path in the metadata are one file. -/
structure Collected (reads : DeleteReads Vector) (root : RootedLocation rules) (shard : Shard rules)
    (result : PositionSets) : Prop where
  assigned : ∀ file ∈ shard.files, ∀ n, n ∈ result (file.uri root) ↔
    shard.RowDelete reads file.manifest n ∨
      ∃ same : PlannedFile rules, same.manifest = file.manifest ∧
        shard.VectorDelete reads root same n
  others : ∀ uri, (∀ file ∈ shard.files, uri ≠ file.uri root) → result uri = ∅

theorem mapM_assignFile :
    (shard.entries root).mapM (assignFile rules root.toWire) = .ok (shard.assigned root) := by
  rw [assigned, files, entries, List.map_map, List.mapM_map]
  apply mapM_eq_ok_map
  intro attached member
  have read := attached.1.parseWire_uri root
  rw [Function.comp_apply, assignFile, PlannedFile.entry, String.toList_ofList,
    ObjectLocation.parseEntry]
  exact congrArg (fun read => (Except.mapError DeleteError.location read).map _) read

theorem applicable_cases {dataFile : List Char} {delete : DeleteMechanism}
    {mechanism : ApplicableDelete Vector}
    (resolved : applicableDeleteMechanism reads dataFile delete = .ok mechanism) :
    (∃ path size, delete = .icebergPositionalDelete path size ∧
        mechanism = .positionalDeleteFile path.toList) ∨
      ∃ vector, mechanism = .deletionVector dataFile vector := by
  unfold applicableDeleteMechanism at resolved
  split at resolved
  case h_1 path size =>
    cases resolved
    exact .inl ⟨path, size, rfl, rfl⟩
  case h_2 => cases resolved
  case h_3 =>
    obtain ⟨vector, -, same⟩ := relabelled_eq_ok.mp resolved
    exact .inr ⟨vector, same.symm⟩

/-- The deletes of a shard with the file each is attached to. -/
def mechanisms (root : RootedLocation rules) (shard : Shard rules) :
    List (List Char × DeleteMechanism) :=
  (shard.entries root).flatMap fun entry => entry.deletes.map fun delete =>
    (entry.path.toList, delete)

section Applicable

variable {applicable : List (ApplicableDelete Vector)}
  (resolved : (shard.mechanisms root).mapM (fun (path, delete) =>
    applicableDeleteMechanism reads path delete) = .ok applicable)

include resolved

theorem mem_applicable {mechanism : ApplicableDelete Vector} : mechanism ∈ applicable ↔
    ∃ file deletes, (file, deletes) ∈ shard.attached ∧ ∃ delete ∈ deletes,
      applicableDeleteMechanism reads (file.path root) delete = .ok mechanism := by
  rw [mem_of_mapM_ok resolved]
  simp only [mechanisms, entries, PlannedFile.entry, List.mem_flatMap, List.mem_map]
  constructor
  · rintro ⟨_, ⟨_, ⟨⟨file, deletes⟩, attached, rfl⟩, delete, member, rfl⟩, found⟩
    rw [String.toList_ofList] at found
    exact ⟨file, deletes, attached, delete, member, found⟩
  · rintro ⟨file, deletes, attached, delete, member, found⟩
    refine ⟨_, ⟨_, ⟨(file, deletes), attached, rfl⟩, delete, member, rfl⟩, ?_⟩
    rw [String.toList_ofList]
    exact found

theorem mem_deleteFiles {path : List Char} :
    path ∈ applicable.filterMap ApplicableDelete.deleteFile ↔ shard.Attaches path := by
  rw [List.mem_filterMap]
  constructor
  · rintro ⟨mechanism, member, isFile⟩
    obtain ⟨file, deletes, attached, delete, inFile, found⟩ := (mem_applicable resolved).mp member
    obtain ⟨other, size, rfl, rfl⟩ | ⟨vector, rfl⟩ := applicable_cases found
    · cases isFile
      exact ⟨(file, deletes), attached, size, by rwa [String.ofList_toList]⟩
    · cases isFile
  · rintro ⟨⟨file, deletes⟩, attached, size, inFile⟩
    refine ⟨.positionalDeleteFile path, (mem_applicable resolved).mpr
      ⟨file, deletes, attached, _, inFile, ?_⟩, rfl⟩
    rw [applicableDeleteMechanism, String.toList_ofList]

theorem mem_vectors {member : List Char × Vector} :
    member ∈ applicable.filterMap ApplicableDelete.vector ↔
      ∃ file deletes, (file, deletes) ∈ shard.attached ∧ ∃ delete ∈ deletes,
        member.1 = file.path root ∧ applicableDeleteMechanism reads (file.path root) delete =
          .ok (.deletionVector (file.path root) member.2) := by
  rw [List.mem_filterMap]
  constructor
  · rintro ⟨mechanism, listed, isVector⟩
    obtain ⟨file, deletes, attached, delete, inFile, found⟩ := (mem_applicable resolved).mp listed
    obtain ⟨path, size, rfl, rfl⟩ | ⟨vector, rfl⟩ := applicable_cases found
    · cases isVector
    · cases isVector
      exact ⟨file, deletes, attached, delete, inFile, rfl, found⟩
  · rintro ⟨file, deletes, attached, delete, inFile, path, found⟩
    refine ⟨_, (mem_applicable resolved).mpr ⟨file, deletes, attached, delete, inFile, found⟩, ?_⟩
    rw [ApplicableDelete.vector, ← path]

end Applicable

theorem mem_readVector {member : List Char × Vector} {set : PositionSets}
    {tableRoot uri : List Char}
    {n : ℕ} (read : readVector reads tableRoot member = .ok set) :
    n ∈ set uri ↔ uri = reconstructAbsUri member.1 tableRoot ∧
      ∃ positions, reads.decode member.1 member.2 = .ok positions ∧ n ∈ positions := by
  obtain ⟨positions, decoded, rfl⟩ := relabelled_eq_ok.mp read
  by_cases here : uri = reconstructAbsUri member.1 tableRoot
  · simp [PositionSets.single, here, decoded]
  · simp [PositionSets.single, here]

/-- The positions at a key, by what the shard's deletes say about it. -/
theorem mem_collectPositions {result : PositionSets}
    (sound : ∀ path file, shard.Attaches path → reads.file path = .ok file →
      file.Described ∧ StatisticsAligned file.fields)
    (read : collectPositions rules reads (shard.entries root) root.toWire = .ok result)
    (uri : List Char) (n : ℕ) :
    n ∈ result uri ↔
      (∃ path, shard.Attaches path ∧ ∃ file, reads.file path = .ok file ∧
        RowDeletes (assignedUri (shard.assigned root)) file.rows uri n) ∨
      ∃ file : PlannedFile rules, uri = file.uri root ∧ shard.VectorDelete reads root file n := by
  unfold collectPositions at read
  obtain ⟨applicable, resolved, read⟩ := exists_of_bind_ok read
  obtain ⟨assigned, named, read⟩ := exists_of_bind_ok read
  obtain ⟨vectors, decoded, read⟩ := exists_of_bind_ok read
  obtain ⟨opened, openedFiles, united⟩ := exists_of_bind_ok read
  rw [mapM_assignFile, Except.ok.injEq] at named
  subst named
  cases united
  have inOrder (path : List Char) :
      path ∈ reads.fileOrder (applicable.filterMap ApplicableDelete.deleteFile).dedup ↔
        shard.Attaches path := by
    rw [(reads.fileOrder_perm _).mem_iff, List.mem_dedup, mem_deleteFiles resolved]
  rw [mem_unionByDataFile]
  simp only [(reads.completion_perm _).mem_iff, List.mem_append, List.mem_flatten,
    mem_of_mapM_ok decoded, mem_of_mapM_ok openedFiles, inOrder]
  constructor
  · rintro ⟨set, ⟨member, listed, vectorRead⟩ | ⟨sets, ⟨path, attached, fileRead⟩, inSets⟩, deleted⟩
    · right
      obtain ⟨file, deletes, attached, delete, inFile, path, found⟩ :=
        (mem_vectors resolved).mp listed
      obtain ⟨here, positions, vectorDecoded, inPositions⟩ := (mem_readVector vectorRead).mp deleted
      rw [path] at here vectorDecoded
      exact ⟨file, here, deletes, attached, delete, inFile, member.2, found, positions,
        vectorDecoded, inPositions⟩
    · left
      obtain ⟨file, stored, -⟩ := readDeleteFile_cases fileRead
      obtain ⟨described, aligned⟩ := sound path file attached stored
      exact ⟨path, attached, file, stored,
        (mem_readDeleteFile stored described aligned fileRead uri n).mp ⟨set, inSets, deleted⟩⟩
  · rintro (⟨path, attached, file, stored, deleted⟩ | ⟨file, here, deletes, attached,
      delete, inFile,
      vector, found, positions, vectorDecoded, inPositions⟩)
    · obtain ⟨sets, fileRead⟩ := exists_of_mapM_ok openedFiles path ((inOrder path).mpr attached)
      obtain ⟨described, aligned⟩ := sound path file attached stored
      obtain ⟨set, inSets, inSet⟩ :=
        (mem_readDeleteFile stored described aligned fileRead uri n).mpr deleted
      exact ⟨set, .inr ⟨sets, ⟨path, attached, fileRead⟩, inSets⟩, inSet⟩
    · have listed : (file.path root, vector) ∈ applicable.filterMap ApplicableDelete.vector :=
        (mem_vectors resolved).mpr ⟨file, deletes, attached, delete, inFile, rfl, found⟩
      obtain ⟨set, vectorRead⟩ := exists_of_mapM_ok decoded _ listed
      exact ⟨set, .inl ⟨_, listed, vectorRead⟩,
        (mem_readVector vectorRead).mpr ⟨here, positions, vectorDecoded, inPositions⟩⟩

theorem mem_assigned {pair : List Char × List Char} :
    pair ∈ shard.assigned root ↔ ∃ file ∈ shard.files, pair = (file.name, file.uri root) := by
  simp only [assigned, List.mem_map, eq_comm]

/-- With every file named as in the metadata, a row finds its file. -/
theorem assignedUri_eq_some_iff (named : ∀ file ∈ shard.files, file.manifest = file.name)
    {file : PlannedFile rules} (member : file ∈ shard.files) {path : List Char} :
    assignedUri (shard.assigned root) path = some (file.uri root) ↔ path = file.manifest := by
  constructor
  · intro found
    obtain ⟨other, _, same⟩ := mem_assigned.mp (mem_of_assignedUri found)
    rw [Prod.mk.injEq] at same
    rw [named file member, same.1, PlannedFile.name_eq_of_uri_eq same.2]
  · rintro rfl
    obtain ⟨uri, found⟩ := exists_assignedUri
      (@mem_assigned _ root _ (file.manifest, file.uri root) |>.mpr
        ⟨file, member, by rw [named file member]⟩)
    obtain ⟨other, otherMember, same⟩ := mem_assigned.mp (mem_of_assignedUri found)
    rw [Prod.mk.injEq, ← named other otherMember] at same
    rw [found, same.2, PlannedFile.uri, PlannedFile.uri,
      PlannedFile.path_eq_of_manifest_eq root same.1]

theorem collected_of_named {result : PositionSets}
    (sound : ∀ path file, shard.Attaches path → reads.file path = .ok file →
      file.Described ∧ StatisticsAligned file.fields)
    (named : ∀ file ∈ shard.files, file.manifest = file.name)
    (read : collectPositions rules reads (shard.entries root) root.toWire = .ok result) :
    shard.Collected reads root result := by
  have positions := mem_collectPositions sound read
  have listed {file : PlannedFile rules} {n : ℕ} (deleted : shard.VectorDelete reads root file n) :
      file ∈ shard.files := by
    obtain ⟨deletes, attached, -⟩ := deleted
    exact List.mem_map_of_mem attached
  constructor
  · intro file member n
    rw [positions]
    apply or_congr
    · constructor
      · rintro ⟨path, attached, content, stored, row, inRows, name, isNamed, pos, target⟩
        rw [assignedUri_eq_some_iff named member] at target
        exact ⟨path, attached, content, stored, row, inRows, target ▸ isNamed, pos⟩
      · rintro ⟨path, attached, content, stored, row, inRows, isNamed, pos⟩
        exact ⟨path, attached, content, stored, row, inRows, file.manifest, isNamed, pos,
          (assignedUri_eq_some_iff named member).mpr rfl⟩
    · constructor
      · rintro ⟨other, here, deleted⟩
        refine ⟨other, ?_, deleted⟩
        rw [named other (listed deleted), named file member, PlannedFile.name_eq_of_uri_eq here]
      · rintro ⟨other, same, deleted⟩
        refine ⟨other, ?_, deleted⟩
        rw [PlannedFile.uri, PlannedFile.uri, PlannedFile.path_eq_of_manifest_eq root same]
  · intro uri elsewhere
    apply Finset.eq_empty_of_forall_notMem
    intro n deleted
    rcases (positions uri n).mp deleted with
      ⟨path, attached, content, stored, row, inRows, name, isNamed, pos, target⟩ |
      ⟨file, here, deleted⟩
    · obtain ⟨file, member, same⟩ := mem_assigned.mp (mem_of_assignedUri target)
      rw [Prod.mk.injEq] at same
      exact elsewhere file member same.2
    · exact elsewhere file (listed deleted) here

/-- One delete file, attached to every file. -/
def withDeleteFile (files : List (PlannedFile rules)) : Shard rules where
  attached := files.map fun file => (file, [.icebergPositionalDelete "" 0])

@[simp] theorem files_withDeleteFile (files : List (PlannedFile rules)) :
    (withDeleteFile files).files = files := by
  simp [withDeleteFile, Shard.files, Function.comp_def]

theorem mechanisms_withDeleteFile (root : RootedLocation rules) (files : List (PlannedFile rules)) :
    (withDeleteFile files).mechanisms root =
      files.map fun file => (file.path root, .icebergPositionalDelete "" 0) := by
  rw [mechanisms, entries, withDeleteFile, List.map_map, List.flatMap_map, List.map_eq_flatMap]
  congr 1
  funext file
  simp [PlannedFile.entry]

end Shard

/-- Reads that find one delete file. -/
def DeleteReads.lone (Vector : Type) (file : DeleteFile) : DeleteReads Vector :=
  .inOrder (fun _ => .ok file) (fun _ _ => .error "") (fun _ _ => .error "")

@[simp] theorem DeleteReads.lone_fileOrder (file : DeleteFile) (paths : List (List Char)) :
    (DeleteReads.lone Vector file).fileOrder paths = paths := rfl

@[simp] theorem DeleteReads.lone_completion (file : DeleteFile) (sets : List PositionSets) :
    (DeleteReads.lone Vector file).completion sets = sets := rfl

namespace Shard

theorem collectPositions_lone (root : RootedLocation rules) {files : List (PlannedFile rules)}
    (nonempty : files ≠ []) {file : DeleteFile} {sets : List PositionSets}
    (read : readDeleteFile (.lone Vector file) ((withDeleteFile files).assigned root)
      [] = .ok sets) :
    collectPositions rules (.lone Vector file) ((withDeleteFile files).entries root) root.toWire =
      .ok (unionByDataFile sets) := by
  have resolved : ((withDeleteFile files).mechanisms root).mapM (fun (path, delete) =>
      applicableDeleteMechanism (.lone Vector file) path delete) =
        .ok (files.map fun _ => .positionalDeleteFile []) := by
    rw [mechanisms_withDeleteFile, List.mapM_map]
    exact mapM_eq_ok_map fun _ _ => rfl
  have once : ((files.map fun _ => (ApplicableDelete.positionalDeleteFile [] :
      ApplicableDelete Vector)).filterMap ApplicableDelete.deleteFile).dedup = [[]] := by
    rw [List.filterMap_map, ← List.replicate_dedup (List.length_pos_iff.mpr nonempty).ne',
      ← List.map_const']
    congr 1
    exact congrFun List.filterMap_eq_map files
  have noVectors : (files.map fun _ => (ApplicableDelete.positionalDeleteFile [] :
      ApplicableDelete Vector)).filterMap ApplicableDelete.vector = [] := by
    simp [ApplicableDelete.vector]
  unfold collectPositions
  rw [mechanisms] at resolved
  have opened : ((DeleteReads.lone Vector file).fileOrder [[]]).mapM
      (readDeleteFile (.lone Vector file) ((withDeleteFile files).assigned root)) = .ok [sets] := by
    rw [DeleteReads.lone_fileOrder, List.mapM_cons, read]
    rfl
  simp only [resolved, mapM_assignFile, once, noVectors, bind, Except.bind, List.mapM_nil, pure,
    Except.pure, opened, DeleteReads.lone_completion, List.nil_append, List.flatten_singleton]

end Shard

/-- A delete file of the plain columns with one row, for the first position. -/
def plainDeleteFile (path : List Char) : DeleteFile where
  fields := plainDeleteFields
  rowGroups :=
    [{ rows := [{ path := some path, pos := some 0 }]
       columns := [⟨none, [utf8Bytes path], 0⟩, ⟨none, [], 0⟩] }]

theorem plainDeleteFile_described (path : List Char) : (plainDeleteFile path).Described := by
  rintro filePathIdx posIdx located rowGroup member
  cases located
  rw [List.mem_singleton.mp member]
  have noStatistics : ∀ column ∈ [LeafChunk.mk none [utf8Bytes path] 0, ⟨none, [], 0⟩],
      column.statistics = none := by
    simp
  constructor
  · intro leaf column min max here statistics
    simp [noStatistics column (List.mem_of_getElem? here)] at statistics
  · intro column inside min max statistics
    simp [noStatistics column inside] at statistics
  · intro row inRows name named
    rw [List.mem_singleton.mp inRows, Option.some.injEq] at named
    exact ⟨rfl, ⟨none, [utf8Bytes path], 0⟩, rfl, by simp [named]⟩

theorem statisticsAligned_plain : StatisticsAligned plainDeleteFields := by
  rintro filePathIdx posIdx located
  cases located
  decide

theorem readDeleteFile_plain (path : List Char) (assigned : List (List Char × List Char)) :
    ∃ sets, readDeleteFile (.lone Vector (plainDeleteFile path)) assigned [] = .ok sets := by
  have typed : checkDeleteColumnTypes plainDeleteFields = .ok () := rfl
  obtain ⟨set, decoded⟩ : ∃ set, decodeRowGroups (assignedUri assigned) plainDeleteFields
      [[{ path := some path, pos := some 0 }]] = .ok set := by
    cases target : assignedUri assigned path <;>
      simp [decodeRowGroups, decodeBatch, typed, decodeRow, DecodeState.enter, target, bind,
        Except.bind, pure, Except.pure, Except.map]
  refine ⟨[set], ?_⟩
  have whole : readDeleteFile (.lone Vector (plainDeleteFile path)) assigned [] =
      [(plainDeleteFile path).rowGroups].mapM fun rowGroups =>
        decodeRowGroups (assignedUri assigned) plainDeleteFields [rowGroups.flatMap (·.rows)] := rfl
  rw [whole, List.mapM_cons]
  simp [plainDeleteFile, decoded, bind, Except.bind, pure, Except.pure]

theorem PlannedFile.name_ne_nil (file : PlannedFile rules) : file.name ≠ [] := by
  simp [PlannedFile.name, ObjectLocation.display]

/-- Behind a misplaced path column no row group is read. -/
theorem readDeleteFile_misplaced {fields : List RootField} {filePathIdx posIdx : Nat}
    (located : locateDeleteColumns fields = .ok (filePathIdx, posIdx))
    (misplaced : ¬PathAligned fields filePathIdx) {assigned : List (List Char × List Char)}
    (nonempty : ∀ pair ∈ assigned, pair.1 ≠ []) (path : List Char) :
    readDeleteFile (.lone Vector ⟨fields, [misplacedGroup fields filePathIdx path]⟩) assigned [] =
      .ok [] := by
  obtain ⟨opened, isOpen, members⟩ := @openDeleteFile_eq
    ⟨fields, [misplacedGroup fields filePathIdx path]⟩ filePathIdx posIdx 0
      (assigned.map (·.1)) located
  have skipped (rowGroup : DeleteRowGroup) : rowGroup ∉ opened.1 ∧ rowGroup ∉ opened.2 := by
    rw [← not_or, members]
    rintro ⟨member, kept⟩
    rw [List.mem_singleton.mp member, misplacedGroup_skipped misplaced] at kept
    · cases kept
    · simpa using nonempty
  have nothing : opened = ([], []) :=
    Prod.ext (List.eq_nil_iff_forall_not_mem.mpr fun rowGroup => (skipped rowGroup).1)
      (List.eq_nil_iff_forall_not_mem.mpr fun rowGroup => (skipped rowGroup).2)
  rw [nothing] at isOpen
  simp only [readDeleteFile, DeleteReads.lone, DeleteReads.inOrder, isOpen, Except.mapError, bind,
    Except.bind]
  rfl

theorem Shard.withDeleteFile_rowDelete {files : List (PlannedFile rules)} (nonempty : files ≠ [])
    {file : DeleteFile} {row : DeleteRow} (member : row ∈ file.rows) {path : List Char} {n : ℕ}
    (named : row.path = some path) (pos : row.pos = some (n : ℤ)) :
    (Shard.withDeleteFile files).RowDelete (.lone Vector file) path n := by
  obtain ⟨first, listed⟩ := List.exists_mem_of_ne_nil files nonempty
  exact ⟨[], ⟨_, List.mem_map_of_mem listed, 0, by simp⟩, file, rfl, row, member, named, pos⟩

/-- A successful collection holds exactly the deletes of the shard, however they are
attached, cut and read, if and only if the scan names every data file as the metadata does
and, unless the shard is empty, no delete file has its path column behind a nested one. -/
theorem positions_collected_iff (rules : Url.Rules) (Vector : Type) (root : RootedLocation rules)
    (files : List (PlannedFile rules)) (schemas : Set (List RootField))
    (plain : plainDeleteFields ∈ schemas) :
    (∀ shard : Shard rules, shard.files = files → ∀ reads : DeleteReads Vector,
      (∀ path file, reads.file path = .ok file → file.fields ∈ schemas ∧ file.Described) →
      ∀ result, collectPositions rules reads (shard.entries root) root.toWire = .ok result →
        shard.Collected reads root result) ↔
      (∀ file ∈ files, file.manifest = file.location.readBack.display) ∧
        (files = [] ∨ ∀ fields ∈ schemas, StatisticsAligned fields) := by
  constructor
  · intro collected
    have deleted (content : DeleteFile) (allowed : content.fields ∈ schemas)
        (described : content.Described) {sets : List PositionSets}
        (read : readDeleteFile (.lone Vector content)
          ((Shard.withDeleteFile files).assigned root) [] =
          .ok sets) (file : PlannedFile rules) (member : file ∈ files)
        (row : DeleteRow) (inRows : row ∈ content.rows) (named : row.path = some file.manifest)
        (pos : row.pos = some ((0 : ℕ) : ℤ)) : 0 ∈ unionByDataFile sets (file.uri root) := by
      have nonempty := List.ne_nil_of_mem member
      have exact_ := collected (.withDeleteFile files) (by simp) (.lone Vector content)
        (by rintro path _ ⟨⟩; exact ⟨allowed, described⟩) _
          (Shard.collectPositions_lone root nonempty read)
      exact (exact_.assigned file (by simpa using member) 0).mpr
        (.inl (Shard.withDeleteFile_rowDelete nonempty inRows named pos))
    constructor
    · intro file member
      obtain ⟨sets, read⟩ := @readDeleteFile_plain Vector file.manifest
        ((Shard.withDeleteFile files).assigned root)
      have described := plainDeleteFile_described file.manifest
      have found := deleted (plainDeleteFile file.manifest) plain described read file member
        { path := some file.manifest, pos := some 0 }
          (by simp [DeleteFile.rows, plainDeleteFile]) rfl rfl
      rw [mem_unionByDataFile, mem_readDeleteFile rfl described statisticsAligned_plain
        read] at found
      obtain ⟨row, inRows, path, named, -, target⟩ := found
      have only : row = { path := some file.manifest, pos := some 0 } := by
        simpa [DeleteFile.rows, plainDeleteFile] using inRows
      rw [only, Option.some.injEq] at named
      obtain ⟨other, -, same⟩ := Shard.mem_assigned.mp (mem_of_assignedUri target)
      rw [Prod.mk.injEq] at same
      rw [named, same.1]
      exact PlannedFile.name_eq_of_uri_eq same.2.symm
    · by_contra misplaced
      simp only [StatisticsAligned, not_or, Classical.not_forall] at misplaced
      obtain ⟨nonempty, fields, allowed, filePathIdx, posIdx, located, misplaced⟩ := misplaced
      obtain ⟨file, member⟩ := List.exists_mem_of_ne_nil files nonempty
      have described : DeleteFile.Described
          ⟨fields, [misplacedGroup fields filePathIdx file.manifest]⟩ := by
        intro otherPathIdx otherPosIdx again rowGroup inFile
        cases located.symm.trans again
        rw [List.mem_singleton.mp inFile]
        exact misplacedGroup_described misplaced
      have found := deleted _ allowed described
        (readDeleteFile_misplaced located misplaced
          (by simp [Shard.assigned, PlannedFile.name_ne_nil])
          file.manifest) file member { path := some file.manifest, pos := some 0 }
        (by simp [DeleteFile.rows, misplacedGroup]) rfl rfl
      simp [mem_unionByDataFile] at found
  · rintro ⟨named, aligned⟩ shard rfl reads sound result read
    apply Shard.collected_of_named _ named read
    intro path file attached stored
    refine ⟨(sound path file stored).2, ?_⟩
    rcases aligned with empty | aligned
    · obtain ⟨pair, listed, -⟩ := attached
      have inFiles : pair.1 ∈ shard.files := List.mem_map_of_mem listed
      simp [empty] at inFiles
    · exact aligned _ (sound path file stored).1

/-- A location in the bucket `b`. -/
def bucketObject (segments : List (List Char))
    (legal : ∀ segment ∈ segments, isKeySegment segment = true) :
    RootedLocation Url.Rules.literal where
  storeRoot :=
    { scheme := "s3".toList, authority := ['b'], path := [], query := none, fragment := none }
  key := { segments, legal }
  normal := ⟨by decide, by decide, by decide⟩

/-- A path for the object `k`. -/
def bucketFile (manifest : List Char)
    (planned : ObjectLocation.fromRaw .literal manifest =
      .ok (bucketObject [['k']] (by decide)).toObjectLocation) : PlannedFile Url.Rules.literal where
  manifest
  location := bucketObject [['k']] (by decide)
  planned
  size := 1
  partitionValues := .empty _

theorem positions_collected_plain :
    plainDeleteFields ∈ ({plainDeleteFields} : Set (List RootField)) ∧
      ∀ shard : Shard .literal, shard.files = [bucketFile "s3://b/k".toList rfl] →
        ∀ reads : DeleteReads Unit,
        (∀ path file, reads.file path = .ok file →
          file.fields ∈ ({plainDeleteFields} : Set (List RootField)) ∧ file.Described) →
        ∀ result, collectPositions .literal reads (shard.entries (bucketObject [] (by simp)))
            (bucketObject [] (by simp)).toWire = .ok result →
          shard.Collected reads (bucketObject [] (by simp)) result :=
  ⟨rfl, (positions_collected_iff .literal Unit (bucketObject [] (by simp))
    [bucketFile "s3://b/k".toList rfl] {plainDeleteFields} rfl).mpr
      ⟨by
        intro file member
        rw [List.mem_singleton.mp member]
        decide +kernel, .inr (by
        rintro fields rfl
        exact statisticsAligned_plain)⟩⟩

/-- The metadata writes the scheme in upper case: the scan looks for `s3://b/k`, and the
row that names `S3://b/k` deletes nothing. -/
theorem upper_case_scheme_keeps_row :
    let root := bucketObject [] (by simp)
    let file := bucketFile "S3://b/k".toList rfl
    let shard := Shard.withDeleteFile [file]
    let reads := DeleteReads.lone Unit (plainDeleteFile file.manifest)
    shard.RowDelete reads file.manifest 0 ∧
      (collectPositions .literal reads (shard.entries root) root.toWire).toOption.map
        (· (file.uri root)) = some ∅ :=
  ⟨Shard.withDeleteFile_rowDelete (by simp) (List.mem_singleton.mpr rfl) rfl rfl, by decide +kernel⟩

end LakehouseEngine
