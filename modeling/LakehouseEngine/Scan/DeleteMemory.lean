import LakehouseEngine.Concurrency.Account
import LakehouseEngine.Data.Blocks
import LakehouseEngine.Scan.RowDeletes
import Mathlib.Data.List.Destutter

/-!
# The memory of delete reads

The reads of a shard's delete files and deletion vectors run at the same time and share one
memory reservation.  Each moves it to the serialized size of the position sets it has decoded,
and the union of a data file's sets moves it to the size of the union.
-/

namespace LakehouseEngine.DeleteMemory

/-! ## The source's functions -/

/-- The library's position sets and its refusal of a reservation.  Nothing is assumed of what
its operations return. -/
structure Treemap where
  Set : Type
  new : Set
  serializedSize : Set → ℕ
  max : Set → Option ℕ
  append : Set → List ℕ → Except String Set
  extend : Set → List ℕ → Set
  union : Set → Set → Set
  refusal : ℕ → String

inductive ReadError where
  | delete (error : DeleteError)
  | user (text : String)

abbrev Tracked (α : Type) := Drawing ReadError α

variable {treemap : Treemap}

/-- The sets of the data files, by their absolute paths. -/
abbrev Positions (treemap : Treemap) := List (List Char × treemap.Set)

def reserve (treemap : Treemap) (bytes : ℕ) : Tracked Unit :=
  .grow bytes (.user ("the row-position delete state does not fit the memory pool: " ++
    treemap.refusal bytes)) (.done ())

/-- Moves the reservation from the `before` bytes it holds for a set to its `after` size. -/
def track (treemap : Treemap) (before after : ℕ) : Tracked Unit :=
  if after > before then reserve treemap (after - before) else .shrink (before - after) (.done ())

/-- The map with a set in the place of the path's own. -/
def put (path : List Char) (set : treemap.Set) : Positions treemap → Positions treemap
  | [] => [(path, set)]
  | entry :: rest => if entry.1 = path then (path, set) :: rest else entry :: put path set rest

def addPositions (sets : Positions treemap) (path : List Char) (positions : List ℕ) :
    Tracked (Positions treemap) :=
  if positions = [] then pure sets
  else do
    let positions := positions.mergeSort.destutter (· ≠ ·)
    let slot := sets.lookup path
    let set := slot.getD treemap.new
    -- A new set starts from zero reserved bytes, whatever the size of an empty one.
    let before := (slot.map treemap.serializedSize).getD 0
    let set ← .ofExcept
      (if (treemap.max set).all fun max => positions.headD 0 > max then
        (treemap.append set positions).mapError fun error =>
          .user ("failed to build positional-delete set for a data file: " ++ error)
      else .ok (treemap.extend set positions))
    track treemap before (treemap.serializedSize set)
    return put path set sets

/-- The sets so far, and the open run with its positions not yet in a set. -/
structure TrackedState (treemap : Treemap) where
  sets : Positions treemap
  run : Option (List Char × Option (List ℕ))

section Decoding

variable (assigned : List Char → Option (List Char))

def flush (state : TrackedState treemap) : Tracked (TrackedState treemap) :=
  match state.run with
  | some (path, some bucket) => do
      return ⟨← addPositions state.sets ((assigned path).getD []) bucket, some (path, some [])⟩
  | _ => pure state

def enter (path : List Char) (state : TrackedState treemap) : Tracked (TrackedState treemap) :=
  if state.run.any (·.1 = path) then pure state
  else do
    let state ← flush assigned state
    return { state with run := some (path, (assigned path).map fun _ => []) }

def pushPosition (pos : ℤ) (state : TrackedState treemap) : Tracked (TrackedState treemap) :=
  match state.run with
  | some (current, some bucket) =>
      if pos < 0 then .failed (.delete (.negativePos pos))
      else pure { state with run := some (current, some (bucket ++ [pos.toNat])) }
  | _ => pure state

def decodeRow (state : TrackedState treemap) (row : DeleteRow) : Tracked (TrackedState treemap) :=
  match row.pos, row.path with
  | some pos, some path => do pushPosition pos (← enter assigned path state)
  | _, _ => pure state

def decodeBatch (fields : List RootField) (state : TrackedState treemap) (batch : List DeleteRow) :
    Tracked (TrackedState treemap) := do
  .ofExcept ((checkDeleteColumnTypes fields).mapError .delete)
  flush assigned (← batch.foldlM (decodeRow assigned) state)

def decodeRowGroups (treemap : Treemap) (fields : List RootField)
    (batches : List (List DeleteRow)) :
    Tracked (Positions treemap) := do
  let state ← batches.foldlM (decodeBatch assigned fields) ⟨[], none⟩
  return state.sets

end Decoding

/-- A delete file whose footer is read: the row groups left to read, and the sets decoded from
the bytes of the footer. -/
structure OpenedDeleteFile (treemap : Treemap) where
  fields : List RootField
  rowGroups : List DeleteRowGroup
  decoded : Positions treemap

section Reads

variable {Vector : Type} (reads : DeleteReads Vector) (assigned : List (List Char × List Char))

/-- The row groups inside the bytes read with the footer. -/
def decodeTail (treemap : Treemap) (fields : List RootField) (inTail : List DeleteRowGroup) :
    Tracked (Positions treemap) :=
  if inTail = [] then pure []
  else decodeRowGroups (assignedUri assigned) treemap fields
    (reads.batches (inTail.flatMap (·.rows)))

def openFile (treemap : Treemap) (path : List Char) : Tracked (OpenedDeleteFile treemap) := do
  let file ← .ofExcept ((reads.file path).mapError fun error => .delete (.unreadable error))
  let (inTail, rowGroups) ← .ofExcept
    ((openDeleteFile (assigned.map (·.1)) (reads.tailStart path) file).mapError .delete)
  let decoded ← decodeTail reads assigned treemap file.fields inTail
  return ⟨file.fields, rowGroups, decoded⟩

/-- The sets decoded with the footer lead as a read that is ready. -/
def rowGroupReads (opened : OpenedDeleteFile treemap) : List (Tracked (Positions treemap)) :=
  (if opened.decoded.isEmpty then [] else [pure opened.decoded]) ++
    opened.rowGroups.map fun rowGroup =>
      decodeRowGroups (assignedUri assigned) treemap opened.fields (reads.batches rowGroup.rows)

def decodeVectors (decode : List Char → Vector → Except String treemap.Set) (tableRoot : List Char)
    (members : List (List Char × Vector)) : Tracked (Positions treemap) :=
  members.mapM fun member => do
    let positions ← .ofExcept
      ((decode member.1 member.2).mapError fun error => .delete (.unreadable error))
    reserve treemap (treemap.serializedSize positions)
    return (reconstructAbsUri member.1 tableRoot, positions)

/-- The task of one data file in `union_by_data_file`. -/
def unionSets (file : List Char × Positions treemap) : Tracked (List Char × treemap.Set) := do
  let sets := file.2.map Prod.snd
  let union := sets.foldl treemap.union treemap.new
  track treemap (sets.map treemap.serializedSize).sum (treemap.serializedSize union)
  return (file.1, union)

/-- The tasks take turns in the order of the choices, each of which also grants or refuses a
growth; all of them have to end with a result. -/
def joinSpawned {α : Type} (held : ℕ) (tasks : List (Tracked α)) (choices : List (ℕ × Bool)) :
    Option (ℕ × List α) :=
  let state := Drawing.machine.run ⟨held, tasks⟩ choices
  (state.tasks.mapM Drawing.result?).map fun results => (state.shared, results)

end Reads

/-- The mechanisms of a shard: the files it is assigned, its delete files, and the deletion
vectors that one read decodes. -/
structure ShardReads (treemap : Treemap) (Vector : Type) where
  reads : DeleteReads Vector
  decode : List Char → Vector → Except String treemap.Set
  tableRoot : List Char
  assigned : List (List Char × List Char)
  deleteFiles : List (List Char)
  vectors : List (List (List Char × Vector))

namespace ShardReads

variable {Vector : Type} (shard : ShardReads treemap Vector)

/-- What `collect_positions` finds before it reads anything; `requests` puts the vectors of one
sidecar or request together. -/
def ofFiles (rules : Url.Rules) (reads : DeleteReads Vector)
    (decode : List Char → Vector → Except String treemap.Set)
    (requests : List (List Char × Vector) → List (List (List Char × Vector)))
    (files : List FileEntry)
    (tableRoot : List Char) : Except DeleteError (ShardReads treemap Vector) := do
  let applicable ← (files.flatMap fun entry => entry.deletes.map fun delete =>
    (entry.path.toList, delete)).mapM fun (path, delete) =>
      applicableDeleteMechanism reads path delete
  let assigned ← files.mapM (assignFile rules tableRoot)
  return {
    reads, decode, tableRoot, assigned
    deleteFiles := reads.fileOrder (applicable.filterMap ApplicableDelete.deleteFile).dedup
    vectors := requests (applicable.filterMap ApplicableDelete.vector) }

/-- The opens of the delete files, alongside the reads of the vectors. -/
def loads : List (Tracked (OpenedDeleteFile treemap ⊕ Positions treemap)) :=
  (shard.deleteFiles.map fun path => do
    return .inl (← openFile shard.reads shard.assigned treemap path)) ++
  shard.vectors.map fun members => do
    return .inr (← decodeVectors shard.decode shard.tableRoot members)

def rowGroups (loaded : List (OpenedDeleteFile treemap ⊕ Positions treemap)) :
    List (Tracked (Positions treemap)) :=
  (loaded.filterMap Sum.getLeft?).flatMap (rowGroupReads shard.reads shard.assigned)

/-- One task for each data file. -/
def unions (loaded : List (OpenedDeleteFile treemap ⊕ Positions treemap))
    (decoded : List (Positions treemap)) : List (Tracked (List Char × treemap.Set)) :=
  (Blocks.groups Prod.fst ((loaded.filterMap Sum.getRight?).flatten ++ decoded.flatten)).map
    unionSets

/-- The order of the turns, in each of the three joins. -/
structure Schedule where
  loads : List (ℕ × Bool)
  rowGroups : List (ℕ × Bool)
  unions : List (ℕ × Bool)

/-- The bytes reserved and the sets on return, if every task succeeds. -/
def collect (held : ℕ) (schedule : Schedule) : Option (ℕ × Positions treemap) := do
  let (held, loaded) ← joinSpawned held shard.loads schedule.loads
  let (held, decoded) ← joinSpawned held (shard.rowGroups loaded) schedule.rowGroups
  joinSpawned held (unions loaded decoded) schedule.unions

end ShardReads

/-! ## What each task holds -/

/-- The serialized size of some sets. -/
def size (sets : Positions treemap) : ℕ :=
  (sets.map fun entry => treemap.serializedSize entry.2).sum

theorem size_append (first second : Positions treemap) :
    size (first ++ second) = size first + size second := by
  simp [size]

section Tasks

open Drawing

/-- The size of a set that takes the place of the path's own. -/
theorem size_put (path : List Char) (set : treemap.Set) (sets : Positions treemap) :
    size (put path set sets) + ((sets.lookup path).map treemap.serializedSize).getD 0 =
      size sets + treemap.serializedSize set := by
  induction sets with
  | nil => simp [put, size]
  | cons entry rest ih =>
      obtain ⟨key, own⟩ := entry
      by_cases same : key = path
      · subst same
        simp only [put, if_true, size, List.map_cons, List.sum_cons, List.lookup_cons_self,
          Option.map_some,
          Option.getD_some]
        omega
      · have other : (path == key) = false := by simpa using Ne.symm same
        simp only [put, if_neg same, size, List.map_cons, List.sum_cons, List.lookup_cons,
          other] at ih ⊢
        omega

theorem balances_reserve (held bytes : ℕ) :
    Balances (fun _ => held + bytes) held (reserve treemap bytes) := rfl

/-- A task that holds at least the old size holds the new size in its place. -/
theorem balances_track {held before : ℕ} (covers : before ≤ held) (after : ℕ) :
    Balances (fun _ => held - before + after) held (track treemap before after) := by
  rw [track]
  split
  · change held + (after - before) = held - before + after
    omega
  · refine ⟨by omega, ?_⟩
    change held - (before - after) = held - before + after
    omega

theorem balances_addPositions (sets : Positions treemap) (path : List Char) (positions : List ℕ) :
    Balances size (size sets) (addPositions sets path positions) := by
  rw [addPositions]
  split
  · exact balances_pure sets
  · refine Balances.bind (balances_ofExcept fun _ _ => rfl) fun set => ?_
    have moved := size_put path set sets
    have covers : ((sets.lookup path).map treemap.serializedSize).getD 0 ≤ size sets := by
      cases found : sets.lookup path with
      | none => exact Nat.zero_le _
      | some old =>
          have member := mem_of_lookup_eq_some found
          exact List.single_le_sum (fun _ _ => Nat.zero_le _) _ (List.mem_map.mpr ⟨_, member, rfl⟩)
    refine (balances_track covers _).bind fun _ => ?_
    change _ = size (put path set sets)
    omega

section Decoding

variable (assigned : List Char → Option (List Char))

/-- What a decoding has reserved. -/
def TrackedState.size (state : TrackedState treemap) : ℕ := DeleteMemory.size state.sets

theorem balances_flush (state : TrackedState treemap) :
    Balances TrackedState.size state.size (flush assigned state) := by
  rw [flush]
  split
  · exact (balances_addPositions _ _ _).bind fun sets => rfl
  · exact balances_pure state

theorem balances_decodeRow (state : TrackedState treemap) (row : DeleteRow) :
    Balances TrackedState.size state.size (decodeRow assigned state row) := by
  have entered (path : List Char) : Balances TrackedState.size state.size
    (enter assigned path state) := by
    rw [enter]
    split
    · exact balances_pure state
    · exact (balances_flush assigned state).bind fun flushed => rfl
  have pushed (pos : ℤ) (state : TrackedState treemap) :
      Balances TrackedState.size state.size (pushPosition pos state) := by
    rw [pushPosition]
    split
    · split
      · trivial
      · exact rfl
    · exact balances_pure state
  rw [decodeRow]
  split
  · exact (entered _).bind fun state => pushed _ state
  · exact balances_pure state

theorem balances_decodeRowGroups (fields : List RootField) (batches : List (List DeleteRow)) :
    Balances size 0 (decodeRowGroups assigned treemap fields batches) := by
  have batch (state : TrackedState treemap) (rows : List DeleteRow) :
      Balances TrackedState.size state.size (decodeBatch assigned fields state rows) :=
    Balances.bind (balances_ofExcept fun _ _ => rfl) fun _ =>
      (balances_foldlM (balances_decodeRow assigned) rows state).bind (balances_flush assigned)
  exact (balances_foldlM batch batches ⟨[], none⟩).bind fun state => balances_pure state.sets

end Decoding

variable {Vector : Type} (reads : DeleteReads Vector) (assigned : List (List Char × List Char))

theorem balances_openFile (path : List Char) :
    Balances (fun opened => size opened.decoded) 0 (openFile reads assigned treemap path) := by
  have tail (fields : List RootField) (inTail : List DeleteRowGroup) :
      Balances size 0 (decodeTail reads assigned treemap fields inTail) := by
    rw [decodeTail]
    split
    · exact rfl
    · exact balances_decodeRowGroups _ _ _
  refine Balances.bind (balances_ofExcept fun _ _ => rfl) fun file => ?_
  refine Balances.bind (balances_ofExcept fun _ _ => rfl) fun opened => ?_
  exact (tail _ _).bind fun decoded => rfl

theorem balances_decodeVectors (decode : List Char → Vector → Except String treemap.Set)
    (tableRoot : List Char) (members : List (List Char × Vector)) :
    Balances size 0 (decodeVectors decode tableRoot members) := by
  refine balances_mapM (fun member => ?_) members
  refine Balances.bind (balances_ofExcept fun _ _ => rfl) fun positions => ?_
  exact (balances_reserve 0 _).bind fun _ => Nat.zero_add _

theorem balances_unionSets (file : List Char × Positions treemap) :
    Balances (fun entry => treemap.serializedSize entry.2) (size file.2) (unionSets file) := by
  have before : ((file.2.map Prod.snd).map treemap.serializedSize).sum = size file.2 := by
    rw [List.map_map]
    rfl
  refine (balances_track before.le _).bind fun _ => ?_
  exact (congrArg (· + _) (Nat.sub_eq_zero_of_le before.ge)).trans (Nat.zero_add _)

/-- The ready read of an opened file holds what was decoded with its footer. -/
theorem exists_rowGroupReads_balanced (opened : OpenedDeleteFile treemap) :
    ∃ helds, List.Forall₂ (Balances size) helds (rowGroupReads reads assigned opened) ∧
      helds.sum = size opened.decoded := by
  have later : ∀ task ∈ opened.rowGroups.map fun rowGroup =>
    decodeRowGroups (assignedUri assigned) treemap
      opened.fields (reads.batches rowGroup.rows), Balances size 0 task := by
    rw [List.forall_mem_map]
    exact fun rowGroup _ => balances_decodeRowGroups _ _ _
  have later := forall₂_balances_zero later
  rw [rowGroupReads]
  split
  · next none =>
      rw [List.isEmpty_iff.mp none]
      exact ⟨_, later, by simp [size]⟩
  · exact ⟨_, .cons (balances_pure opened.decoded) later, by simp⟩

end Tasks

/-! ## The three joins -/

open Drawing

/-- No task takes back more than the account has grown since `start`. -/
def Covers {α : Type} (start : ℕ) (state : Configuration ℕ (Tracked α)) : Prop :=
  ∀ amount next, .shrink amount next ∈ state.tasks → start + amount ≤ state.shared

section Join

variable {α : Type} {worth : α → ℕ} {base held : ℕ} {tasks : List (Tracked α)}

theorem covers_run {start : ℕ} (below : start ≤ base) (balanced : Balanced worth base ⟨held, tasks⟩)
    (choices : List (ℕ × Bool)) : Covers start (machine.run ⟨held, tasks⟩ choices) := by
  intro amount next member
  exact (Nat.add_le_add_right below amount).trans ((balanced.run choices).covers member)

theorem joinSpawned_settled (balanced : Balanced worth base ⟨held, tasks⟩)
    {choices : List (ℕ × Bool)}
    {after : ℕ} {results : List α} (joined : joinSpawned held tasks choices =
      some (after, results)) :
    after = base + (results.map worth).sum := by
  obtain ⟨_, finished, same⟩ := Option.map_eq_some_iff.mp joined
  cases same
  exact (balanced.run choices).settled finished

end Join

namespace ShardReads

variable {Vector : Type} (shard : ShardReads treemap Vector)

/-- What a load has reserved: the sets of a vector read, or those decoded with a footer. -/
def loadedSize : OpenedDeleteFile treemap ⊕ Positions treemap → ℕ
  | .inl opened => size opened.decoded
  | .inr positions => size positions

theorem balanced_loads (held : ℕ) : Balanced loadedSize held ⟨held, shard.loads⟩ := by
  have each : ∀ task ∈ shard.loads, Balances loadedSize 0 task := by
    intro task member
    rcases List.mem_append.mp member with opens | vectors
    · obtain ⟨path, -, rfl⟩ := List.mem_map.mp opens
      exact (balances_openFile _ _ path).bind fun opened => rfl
    · obtain ⟨members, -, rfl⟩ := List.mem_map.mp vectors
      exact (balances_decodeVectors _ _ members).bind fun positions => rfl
  exact ⟨_, forall₂_balances_zero each, by simp⟩

/-- The row group reads hold what the opens have decoded. -/
theorem exists_rowGroups_balanced (loaded : List (OpenedDeleteFile treemap ⊕ Positions treemap)) :
    ∃ helds, List.Forall₂ (Balances size) helds (shard.rowGroups loaded) ∧
      (loaded.map loadedSize).sum = size (loaded.filterMap Sum.getRight?).flatten + helds.sum := by
  induction loaded with
  | nil => exact ⟨[], .nil, rfl⟩
  | cons item loaded ih =>
      obtain ⟨helds, each, total⟩ := ih
      cases item with
      | inl opened =>
          obtain ⟨first, balances, held⟩ :=
            exists_rowGroupReads_balanced shard.reads shard.assigned opened
          refine ⟨first ++ helds, List.rel_append balances each, ?_⟩
          simp only [List.map_cons, List.sum_cons, total, loadedSize, List.sum_append, held]
          exact Nat.add_left_comm _ _ _
      | inr positions =>
          refine ⟨helds, each, ?_⟩
          simp only [List.map_cons, List.sum_cons, total, loadedSize, List.filterMap_cons,
            Sum.getRight?_inr,
            List.flatten_cons, size_append, Nat.add_assoc]

/-- The unions hold the sizes of all sets. -/
theorem exists_unions_balanced (loaded : List (OpenedDeleteFile treemap ⊕ Positions treemap))
    (decoded : List (Positions treemap)) :
    ∃ helds, List.Forall₂ (Balances fun entry => treemap.serializedSize entry.2) helds
      (unions loaded decoded) ∧
      helds.sum = size (loaded.filterMap Sum.getRight?).flatten + (decoded.map size).sum := by
  set sets := (loaded.filterMap Sum.getRight?).flatten ++ decoded.flatten with sets_eq
  refine ⟨(Blocks.groups Prod.fst sets).map fun file => size file.2, ?_, ?_⟩
  · rw [unions, ← sets_eq, List.forall₂_map_left_iff, List.forall₂_map_right_iff, List.forall₂_same]
    exact fun file _ => balances_unionSets file
  · have flat (parts : List (Positions treemap)) : (parts.map size).sum = size parts.flatten := by
      induction parts with
      | nil => rfl
      | cons part parts ih => rw [List.map_cons, List.sum_cons, ih, List.flatten_cons, size_append]
    have all := (Blocks.flatten_groups_perm Prod.fst sets).map fun entry =>
      treemap.serializedSize entry.2
    calc ((Blocks.groups Prod.fst sets).map fun file => size file.2).sum
        = size ((Blocks.groups Prod.fst sets).map Prod.snd).flatten := by
          rw [← flat, List.map_map]; rfl
      _ = size sets := all.sum_eq
      _ = _ := by rw [sets_eq, size_append, flat]

section Phases

variable {held opened read : ℕ} {choices later : List (ℕ × Bool)}
variable {loaded : List (OpenedDeleteFile treemap ⊕ Positions treemap)}
    {decoded : List (Positions treemap)}

/-- While the row groups are read, the sets of the vectors are held beside the tasks. -/
theorem balanced_rowGroups (loads : joinSpawned held shard.loads choices = some (opened, loaded)) :
    Balanced size (held + size (loaded.filterMap Sum.getRight?).flatten)
      ⟨opened, shard.rowGroups loaded⟩ := by
  obtain ⟨helds, each, total⟩ := shard.exists_rowGroups_balanced loaded
  refine ⟨helds, each, ?_⟩
  rw [Nat.add_assoc, ← total]
  exact joinSpawned_settled (shard.balanced_loads held) loads

theorem balanced_unions (loads : joinSpawned held shard.loads choices = some (opened, loaded))
    (rowGroups : joinSpawned opened (shard.rowGroups loaded) later = some (read, decoded)) :
    Balanced (fun entry => treemap.serializedSize entry.2) held ⟨read, unions loaded decoded⟩ := by
  obtain ⟨helds, each, total⟩ := exists_unions_balanced loaded decoded
  refine ⟨helds, each, ?_⟩
  rw [total, ← Nat.add_assoc]
  exact joinSpawned_settled (shard.balanced_rowGroups loads) rowGroups

end Phases

end ShardReads

section Shard

variable (treemap : Treemap) (Vector : Type) (rules : Url.Rules) (reads : DeleteReads Vector)
  (decode : List Char → Vector → Except String treemap.Set)
  (requests : List (List Char × Vector) → List (List (List Char × Vector))) (files : List FileEntry)
  (tableRoot : List Char)

def collectPositions (held : ℕ) (schedule : ShardReads.Schedule) :
    Option (ℕ × Positions treemap) := do
  let shard ← (ShardReads.ofFiles rules reads decode requests files tableRoot).toOption
  shard.collect held schedule

/-- On return the reservation has grown by the serialized sizes of the returned sets, and at no
moment of the three joins does a task take back more than the reservation has grown. -/
theorem delete_memory_exact (held : ℕ) (schedule : ShardReads.Schedule) :
    (∀ after returned,
      collectPositions treemap Vector rules reads decode requests files tableRoot held schedule =
        some (after, returned) →
      after = held + (returned.map fun entry => treemap.serializedSize entry.2).sum) ∧
    ∀ shard, ShardReads.ofFiles rules reads decode requests files tableRoot = .ok shard →
      Covers held (machine.run ⟨held, shard.loads⟩ schedule.loads) ∧
      ∀ opened loaded, joinSpawned held shard.loads schedule.loads = some (opened, loaded) →
        Covers held (machine.run ⟨opened, shard.rowGroups loaded⟩ schedule.rowGroups) ∧
        ∀ read decoded,
          joinSpawned opened (shard.rowGroups loaded) schedule.rowGroups = some (read, decoded) →
          Covers held (machine.run ⟨read, ShardReads.unions loaded decoded⟩ schedule.unions) := by
  constructor
  · intro after returned collected
    simp only [collectPositions, ShardReads.collect, Option.bind_eq_bind, Option.bind_eq_some_iff]
      at collected
    obtain ⟨shard, -, ⟨opened, loaded⟩, loads, ⟨read, decoded⟩, rowGroups, unions⟩ := collected
    exact joinSpawned_settled (shard.balanced_unions loads rowGroups) unions
  · intro shard _
    refine ⟨covers_run le_rfl (shard.balanced_loads held) _, ?_⟩
    intro opened loaded loads
    refine ⟨covers_run (Nat.le_add_right _ _) (shard.balanced_rowGroups loads) _, ?_⟩
    intro read decoded rowGroups
    exact covers_run le_rfl (shard.balanced_unions loads rowGroups) _

end Shard

/-! ## Two deletion vectors of one data file -/

def listTreemap : Treemap where
  Set := List ℕ
  new := []
  serializedSize := List.length
  max := List.max?
  append set positions := .ok (set ++ positions)
  extend set positions := set ++ positions
  union first second := first ∪ second
  refusal _ := ""

def overlappingVectors : FileEntry where
  path := "k"
  size := 1
  deletes := [.deltaDeletionVector .inline "a" none 1 2, .deltaDeletionVector .inline "b" none 1 2]
  partitionValues := .empty _

/-- Reads that know these two vectors and no delete file. -/
def vectorReads : DeleteReads (List ℕ) :=
  .inOrder (fun _ => .error "")
    (fun _ delete =>
      match delete with
      | .deltaDeletionVector _ "a" _ _ _ => .ok [1, 2]
      | .deltaDeletionVector _ "b" _ _ _ => .ok [2, 3]
      | _ => .error "")
    fun _ vector => .ok vector.toFinset

/-- The sizes of both vectors are reserved, and the union gives back what it saves. -/
theorem delete_memory_exact_overlapping :
    ∃ returned, collectPositions listTreemap (List ℕ) .literal vectorReads
      (fun _ vector => .ok vector)
        (fun vectors => vectors.map fun vector => [vector]) [overlappingVectors] "s3://b".toList 5
        ⟨[(1, true), (0, true)], [], [(0, true)]⟩ = some (8, returned) ∧
      8 = 5 + (returned.map fun entry => listTreemap.serializedSize entry.2).sum := by
  have run : (collectPositions listTreemap (List ℕ) .literal vectorReads
    (fun _ vector => .ok vector)
      (fun vectors => vectors.map fun vector => [vector]) [overlappingVectors] "s3://b".toList 5
      ⟨[(1, true), (0, true)], [], [(0, true)]⟩).map Prod.fst = some 8 := by decide +kernel
  obtain ⟨⟨after, returned⟩, collected, rfl⟩ := Option.map_eq_some_iff.mp run
  exact ⟨returned, collected, (delete_memory_exact _ _ _ _ _ _ _ _ _ _).1 _ _ collected⟩

end LakehouseEngine.DeleteMemory
