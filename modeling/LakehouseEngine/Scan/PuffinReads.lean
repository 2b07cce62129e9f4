import LakehouseEngine.Data.Blocks
import LakehouseEngine.Scan.ObjectLocation
import Mathlib.Data.List.Dedup

/-!
# Merged reads of Puffin deletion vectors

A Puffin file may hold the vectors of a whole table, so a shard reads only the ranges of its own
vectors.  Ranges that lie close together are fetched by one request, which is kept with the
number of vectors it stands for, and each vector is decoded from its slice of the body.
-/

namespace LakehouseEngine

/-- A range of bytes, `start` to before `stop`. -/
structure BlobRange where
  start : ℕ
  stop : ℕ
  ordered : start ≤ stop
  deriving DecidableEq, Repr

/-! ## Vectors -/

/-- `ManifestDeletionVector`. -/
structure ManifestDeletionVector where
  path : List Char
  size : ℕ
  contentOffset : ℕ
  contentSizeInBytes : ℕ
  recordCount : ℕ
  deriving DecidableEq, Repr

/-- `IcebergDeletionVector`. -/
structure IcebergDeletionVector where
  path : List Char
  range : BlobRange
  cardinality : ℕ
  deriving DecidableEq, Repr

/-- The text of `refusal` before it is redacted. -/
def refusal (format dataFilePath reason : String) : String :=
  "data file '" ++ dataFilePath ++ "' carries a " ++ format ++
    " deletion vector this scan cannot apply: " ++ reason ++
    "; refusing to emit rows for the affected data file"

/-- `IcebergDeletionVector::resolve`; the end of the range is a 64-bit sum. -/
def IcebergDeletionVector.resolve (manifest : ManifestDeletionVector) (dataFilePath : String) :
    Except String IcebergDeletionVector :=
  let stop := manifest.contentOffset + manifest.contentSizeInBytes
  if stop < 2 ^ 64 ∧ stop ≤ manifest.size then
    .ok ⟨manifest.path, ⟨manifest.contentOffset, stop, Nat.le_add_right _ _⟩, manifest.recordCount⟩
  else
    .error (refusal "Iceberg" dataFilePath ("its blob at offset " ++
      toString manifest.contentOffset ++ " with " ++ toString manifest.contentSizeInBytes ++
      " bytes lies outside the " ++ toString manifest.size ++ "-byte Puffin file"))

/-! ## Requests -/

/-- The condition under which a range joins the open request. -/
def joinsRequest (maxGap maxLen : ℕ) (request range : BlobRange) : Prop :=
  range.start - request.stop ≤ maxGap ∧ max range.stop request.stop - request.start ≤ maxLen

instance (maxGap maxLen : ℕ) (request range : BlobRange) :
    Decidable (joinsRequest maxGap maxLen request range) :=
  inferInstanceAs (Decidable (_ ∧ _))

/-- The request that also holds the range. -/
def BlobRange.widened (request range : BlobRange) : BlobRange where
  start := request.start
  stop := max request.stop range.stop
  ordered := request.ordered.trans (le_max_left _ _)

/-- One turn of the loop of `merge_blob_ranges`. -/
def addBlobRange (maxGap maxLen : ℕ) (requests : List (BlobRange × ℕ)) (range : BlobRange) :
    List (BlobRange × ℕ) :=
  match requests.getLast? with
  | some (request, blobCount) =>
      if joinsRequest maxGap maxLen request range then
        requests.dropLast ++ [(request.widened range, blobCount + 1)]
      else
        requests ++ [(range, 1)]
  | none => requests ++ [(range, 1)]

/-- `merge_blob_ranges`. -/
def mergeBlobRanges (ranges : List BlobRange) (maxGap maxLen : ℕ) : List (BlobRange × ℕ) :=
  ranges.foldl (addBlobRange maxGap maxLen) []

/-! ## Reads -/

/-- A data file and its vector. -/
abbrev VectorMember := List Char × IcebergDeletionVector

/-- One request with the vectors that are decoded from its body. -/
structure PuffinRead where
  url : List Char
  request : BlobRange
  blobs : List VectorMember

/-- The vectors of each Puffin file, in the order they come in. -/
def byPuffinFile (vectors : List VectorMember) : List (List Char × List VectorMember) :=
  Blocks.groups (fun member => member.2.path) vectors

/-- `sort_by_key` on the start of the range. -/
def sortByStart (members : List VectorMember) : List VectorMember :=
  members.mergeSort fun left right => left.2.range.start ≤ right.2.range.start

/-- The requests for the ranges of sorted vectors. -/
def puffinRequests (maxGap maxLen : ℕ) (sorted : List VectorMember) : List (BlobRange × ℕ) :=
  mergeBlobRanges (sorted.map fun member => member.2.range) maxGap maxLen

/-- The reads of one Puffin file: each request takes the next vectors by its count. -/
def puffinFileReads (maxGap maxLen : ℕ) (tableRoot puffinPath : List Char)
    (members : List VectorMember) : List PuffinRead :=
  let sorted := sortByStart members
  let requests := puffinRequests maxGap maxLen sorted
  List.zipWith (fun request blobs => ⟨reconstructAbsUri puffinPath tableRoot, request.1, blobs⟩)
    requests (Blocks.deal (requests.map Prod.snd) sorted)

/-- The reads of all groups in the order in which the map gives them. -/
def vectorReadsWithin (maxGap maxLen : ℕ) (tableRoot : List Char)
    (groups : List (List Char × List VectorMember)) : List PuffinRead :=
  groups.flatMap fun group => puffinFileReads maxGap maxLen tableRoot group.1 group.2

/-- The bytes of a range, as the store returns them. -/
def BlobRange.bytes (range : BlobRange) (file : List UInt8) : List UInt8 :=
  (file.drop range.start).take (range.stop - range.start)

/-- `Bytes::slice`, which panics outside the body. -/
def sliceBytes (body : List UInt8) (start stop : ℕ) : Option (List UInt8) :=
  if start ≤ stop ∧ stop ≤ body.length then some ((body.drop start).take (stop - start)) else none

/-- The slice of the body that a vector is decoded from. -/
def PuffinRead.blob (read : PuffinRead) (body : List UInt8) (vector : IcebergDeletionVector) :
    Option (List UInt8) :=
  sliceBytes body (vector.range.start - read.request.start) (vector.range.stop - read.request.start)

/-! ## What a request holds -/

/-- A stretch of bytes that no range covers and no empty range divides. -/
structure Gap (ranges : List BlobRange) (start stop : ℕ) : Prop where
  uncovered : ∀ range ∈ ranges, ∀ byte, start ≤ byte → byte < stop →
    ¬ (range.start ≤ byte ∧ byte < range.stop)
  undivided : ∀ range ∈ ranges, range.start = range.stop →
    range.start ≤ start ∨ stop ≤ range.start

theorem Gap.beside {ranges : List BlobRange} {range : BlobRange} {start stop : ℕ}
    (gap : Gap ranges start stop) (member : range ∈ ranges) (some : start < stop) :
    stop ≤ range.start ∨ range.stop ≤ start := by
  have ordered := range.ordered
  by_cases empty : range.start = range.stop
  · have divides := gap.undivided range member empty
    omega
  · by_contra! inside
    -- the later of the two starts is a byte of both
    exact gap.uncovered range member (max start range.start) (by omega) (by omega)
      ⟨by omega, by omega⟩

theorem Gap.mono {ranges others : List BlobRange} {start stop : ℕ}
    (gap : Gap ranges start stop) (sub : others ⊆ ranges) : Gap others start stop where
  uncovered range member := gap.uncovered range (sub member)
  undivided range member := gap.undivided range (sub member)

/-- The request is the hull of its ranges, is short if there are several, and leaves no long
gap between them. -/
structure Merged (maxGap maxLen : ℕ) (ranges : List BlobRange) (request : BlobRange) : Prop where
  contains : ∀ range ∈ ranges, request.start ≤ range.start ∧ range.stop ≤ request.stop
  starts : ∃ range ∈ ranges, range.start = request.start
  stops : ∃ range ∈ ranges, range.stop = request.stop
  short : 1 < ranges.length → request.stop - request.start ≤ maxLen
  gaps : ∀ start stop, request.start ≤ start → stop ≤ request.stop → Gap ranges start stop →
    stop - start ≤ maxGap

theorem merged_single (maxGap maxLen : ℕ) (range : BlobRange) :
    Merged maxGap maxLen [range] range where
  contains := by simp
  starts := ⟨range, by simp⟩
  stops := ⟨range, by simp⟩
  short := by simp
  gaps start stop begins ends gap := by
    have beside := gap.beside (List.mem_singleton_self range)
    omega

/-- A range that starts after the others widens a request that it joins. -/
theorem Merged.widened {maxGap maxLen : ℕ} {ranges : List BlobRange} {request range : BlobRange}
    (merged : Merged maxGap maxLen ranges request)
    (sorted : ∀ earlier ∈ ranges, earlier.start ≤ range.start)
    (joins : joinsRequest maxGap maxLen request range) :
    Merged maxGap maxLen (ranges ++ [range]) (request.widened range) where
  contains other member := by
    obtain ⟨first, found, starts⟩ := merged.starts
    have behind := sorted first found
    simp only [BlobRange.widened]
    rcases List.mem_append.mp member with earlier | this
    · have inside := merged.contains other earlier
      omega
    · obtain rfl := List.mem_singleton.mp this
      omega
  starts := by
    obtain ⟨first, found, starts⟩ := merged.starts
    exact ⟨first, List.mem_append_left _ found, starts⟩
  stops := by
    obtain ⟨last, found, stops⟩ := merged.stops
    rcases le_total request.stop range.stop with further | covered
    · exact ⟨range, by simp, (max_eq_right further).symm⟩
    · exact ⟨last, List.mem_append_left _ found, stops.trans (max_eq_left covered).symm⟩
  short _ := by
    have fits := joins.2
    simp only [BlobRange.widened]
    omega
  gaps start stop begins ends gap := by
    obtain ⟨close, -⟩ := joins
    simp only [BlobRange.widened] at begins ends
    by_cases within : stop ≤ request.stop
    · exact merged.gaps start stop begins within (gap.mono (List.subset_append_left _ _))
    · -- The stretch ends behind the request, where one of its ranges ends.
      obtain ⟨last, found, stops⟩ := merged.stops
      have ordered := last.ordered
      have afterLast := gap.beside (List.mem_append_left _ found)
      have beside := gap.beside (List.mem_append_right ranges (List.mem_singleton_self range))
      omega

/-- How a range joins a request. -/
def joinRequest (maxGap maxLen : ℕ) (request range : BlobRange) : Option BlobRange :=
  if joinsRequest maxGap maxLen request range then some (request.widened range) else none

theorem mergeBlobRanges_eq_pass (ranges : List BlobRange) (maxGap maxLen : ℕ) :
    mergeBlobRanges ranges maxGap maxLen = Blocks.pass id (joinRequest maxGap maxLen) ranges := by
  have turn : addBlobRange maxGap maxLen = Blocks.extend id (joinRequest maxGap maxLen) := by
    funext requests range
    cases last : requests.getLast? with
    | none => simp only [addBlobRange, Blocks.extend, last, id_eq]
    | some latest =>
        obtain ⟨request, blobCount⟩ := latest
        by_cases joins : joinsRequest maxGap maxLen request range
        · simp only [addBlobRange, Blocks.extend, joinRequest, last, if_pos joins]
        · simp only [addBlobRange, Blocks.extend, joinRequest, last, if_neg joins, id_eq]
  rw [mergeBlobRanges, turn, Blocks.pass]

theorem merged_of_holds {maxGap maxLen : ℕ} {ranges : List BlobRange} {request : BlobRange}
    (holds : Blocks.Holds id (joinRequest maxGap maxLen) ranges request)
    (sorted : ranges.Pairwise fun first second => first.start ≤ second.start) :
    Merged maxGap maxLen ranges request := by
  induction holds with
  | single range => exact merged_single maxGap maxLen range
  | @join ranges request wider range _ joined ih =>
      rw [List.pairwise_append] at sorted
      obtain ⟨earlier, -, last⟩ := sorted
      unfold joinRequest at joined
      split at joined
      · next joins =>
          cases joined
          exact (ih earlier).widened (fun other member => last other member range (by simp)) joins
      · cases joined

/-! ## Slices -/

/-- A range inside a request finds its own bytes in the body of the request. -/
theorem sliceBytes_of_contains {request range : BlobRange} {file : List UInt8}
    (starts : request.start ≤ range.start) (stops : range.stop ≤ request.stop)
    (within : request.stop ≤ file.length) :
    sliceBytes (request.bytes file) (range.start - request.start) (range.stop - request.start) =
      some (range.bytes file) := by
  have ordered := range.ordered
  have size : (request.bytes file).length = request.stop - request.start := by
    rw [BlobRange.bytes, List.length_take, List.length_drop]
    omega
  rw [sliceBytes, if_pos (by omega)]
  congr 1
  rw [BlobRange.bytes, BlobRange.bytes, List.drop_take, List.drop_drop, List.take_take]
  congr 1
  · omega
  · congr 1
    omega

/-! ## The reads of a shard -/

theorem sortByStart_perm (members : List VectorMember) : (sortByStart members).Perm members :=
  List.mergeSort_perm _ _

theorem sortByStart_sorted (members : List VectorMember) :
    ((sortByStart members).map fun member => member.2.range).Pairwise
      fun first second => first.start ≤ second.start := by
  rw [List.pairwise_map]
  have sorted : (sortByStart members).Pairwise fun first second =>
      decide (first.2.range.start ≤ second.2.range.start) = true := by
    apply List.pairwise_mergeSort
    · intro a b c ab bc
      simp only [decide_eq_true_eq] at ab bc ⊢
      exact le_trans ab bc
    · intro a b
      simpa using le_total a.2.range.start b.2.range.start
  exact sorted.imp of_decide_eq_true

theorem sum_mergeBlobRanges (ranges : List BlobRange) (maxGap maxLen : ℕ) :
    ((mergeBlobRanges ranges maxGap maxLen).map Prod.snd).sum = ranges.length := by
  rw [mergeBlobRanges_eq_pass, Blocks.sum_pass]

theorem sum_puffinRequests (maxGap maxLen : ℕ) (members : List VectorMember) :
    ((puffinRequests maxGap maxLen members).map Prod.snd).sum = members.length := by
  rw [puffinRequests, sum_mergeBlobRanges, List.length_map]

/-- The vectors dealt to the requests of one file. -/
theorem merged_deal (maxGap maxLen : ℕ) {members : List VectorMember}
    (sorted : (members.map fun member => member.2.range).Pairwise
      fun first second => first.start ≤ second.start) :
    List.Forall₂ (fun request part =>
        Merged maxGap maxLen (part.map fun member => member.2.range) request.1 ∧
          part.length = request.2)
      (puffinRequests maxGap maxLen members)
      (Blocks.deal ((puffinRequests maxGap maxLen members).map Prod.snd) members) := by
  set ranges := members.map fun member => member.2.range
  have passed : puffinRequests maxGap maxLen members =
      Blocks.pass id (joinRequest maxGap maxLen) ranges :=
        mergeBlobRanges_eq_pass ranges maxGap maxLen
  have held := @Blocks.holds_deal_pass _ _ id (joinRequest maxGap maxLen) ranges
  rw [← passed] at held
  set requests := puffinRequests maxGap maxLen members
  have whole : (Blocks.deal (requests.map Prod.snd) ranges).flatten = ranges :=
    Blocks.flatten_deal (sum_mergeBlobRanges ranges maxGap maxLen)
  have partsSorted : ∀ part ∈ Blocks.deal (requests.map Prod.snd) ranges,
      part.Pairwise fun first second => first.start ≤ second.start :=
    (List.pairwise_flatten.mp (whole.symm ▸ sorted)).1
  have both := (List.forall₂_and_left _ _).mpr ⟨partsSorted, held⟩
  rw [Blocks.deal_map, List.forall₂_map_left_iff] at both
  refine (both.imp ?_).flip
  rintro part request ⟨ordered, holds, count⟩
  exact ⟨merged_of_holds holds ordered, by simpa using count⟩

/-- What one read of a file does. -/
structure ReadsOwn (maxGap maxLen : ℕ) (tableRoot : List Char) (read : PuffinRead) : Prop where
  located : ∀ member ∈ read.blobs, read.url = reconstructAbsUri member.2.path tableRoot
  merged : Merged maxGap maxLen (read.blobs.map fun member => member.2.range) read.request

section File

variable (maxGap maxLen : ℕ) (tableRoot : List Char) {puffinPath : List Char}
  {members : List VectorMember}

/-- The reads share the vectors of the file out among them. -/
theorem blobs_puffinFileReads :
    ((puffinFileReads maxGap maxLen tableRoot puffinPath members).map (·.blobs)).flatten =
      sortByStart members := by
  rw [puffinFileReads, map_zipWith_right (fun _ _ => rfl)
    (merged_deal maxGap maxLen (sortByStart_sorted members))]
  exact Blocks.flatten_deal (sum_puffinRequests maxGap maxLen _)

/-- Each read is one request with as many vectors as it counts. -/
theorem requests_puffinFileReads :
    (puffinFileReads maxGap maxLen tableRoot puffinPath members).map
        (fun read => (read.request, read.blobs.length)) =
      puffinRequests maxGap maxLen (sortByStart members) := by
  have dealt := merged_deal maxGap maxLen (sortByStart_sorted members)
  rw [puffinFileReads]
  generalize puffinRequests maxGap maxLen (sortByStart members) = requests at dealt ⊢
  generalize Blocks.deal (requests.map Prod.snd) (sortByStart members) = parts at dealt ⊢
  induction dealt with
  | nil => rfl
  | cons head _ ih => rw [List.zipWith_cons_cons, List.map_cons, ih, head.2]

theorem puffinFileReads_own (path : ∀ member ∈ members, member.2.path = puffinPath) :
    ∀ read ∈ puffinFileReads maxGap maxLen tableRoot puffinPath members,
      ReadsOwn maxGap maxLen tableRoot read := by
  intro read listed
  have dealt := merged_deal maxGap maxLen (sortByStart_sorted members)
  obtain ⟨request, part, found, ⟨merged, -⟩, rfl⟩ := exists_of_mem_zipWith dealt listed
  refine ⟨fun member among => ?_, merged⟩
  have inside : member ∈ sortByStart members := by
    rw [← blobs_puffinFileReads maxGap maxLen tableRoot]
    exact List.mem_flatten.mpr ⟨part, List.mem_map.mpr ⟨_, listed, rfl⟩, among⟩
  rw [path member ((sortByStart_perm members).mem_iff.mp inside)]

end File

theorem resolve_within {manifest : ManifestDeletionVector} {dataFilePath : String}
    {vector : IcebergDeletionVector}
    (resolved : IcebergDeletionVector.resolve manifest dataFilePath = .ok vector) :
    vector.path = manifest.path ∧ vector.range.stop ≤ manifest.size := by
  simp only [IcebergDeletionVector.resolve] at resolved
  split at resolved
  · next fits =>
      cases resolved
      exact ⟨rfl, fits.2⟩
  · cases resolved

/-- Every vector is read once, by a request that holds its range, and finds its own bytes in the
body, whatever the order in which the files come. -/
theorem vectorReads_own_bytes (maxGap maxLen : ℕ) (tableRoot : List Char)
    (vectors : List VectorMember) (groups : List (List Char × List VectorMember))
    (order : groups.Perm (byPuffinFile vectors)) (store : List Char → List UInt8)
    (resolved : ∀ member ∈ vectors, ∃ manifest dataFilePath,
      IcebergDeletionVector.resolve manifest dataFilePath = .ok member.2 ∧
        manifest.size ≤ (store (reconstructAbsUri manifest.path tableRoot)).length) :
    (∀ group ∈ groups,
      (puffinFileReads maxGap maxLen tableRoot group.1 group.2).map
          (fun read => (read.request, read.blobs.length)) =
        mergeBlobRanges ((sortByStart group.2).map fun member => member.2.range) maxGap maxLen ∧
      ((mergeBlobRanges ((sortByStart group.2).map fun member => member.2.range) maxGap maxLen).map
        Prod.snd).sum = group.2.length) ∧
    ((vectorReadsWithin maxGap maxLen tableRoot groups).map (·.blobs)).flatten.Perm vectors ∧
    ∀ read ∈ vectorReadsWithin maxGap maxLen tableRoot groups,
      (∀ member ∈ read.blobs, read.url = reconstructAbsUri member.2.path tableRoot ∧
        read.request.start ≤ member.2.range.start ∧ member.2.range.stop ≤ read.request.stop ∧
        read.blob (read.request.bytes (store read.url)) member.2 =
          some (member.2.range.bytes (store read.url))) ∧
      (1 < read.blobs.length → read.request.stop - read.request.start ≤ maxLen) ∧
      ∀ start stop, read.request.start ≤ start → stop ≤ read.request.stop →
        Gap (read.blobs.map fun member => member.2.range) start stop → stop - start ≤ maxGap := by
  have keyed : ∀ group ∈ groups, ∀ member ∈ group.2, member.2.path = group.1 :=
    fun group member => Blocks.key_of_mem_groups _ (order.mem_iff.mp member)
  have shared : ((vectorReadsWithin maxGap maxLen tableRoot groups).map (·.blobs)).flatten.Perm
      vectors := by
    have grouped : (groups.map Prod.snd).flatten.Perm vectors :=
      ((order.map Prod.snd).flatten).trans (Blocks.flatten_groups_perm _ vectors)
    refine List.Perm.trans ?_ grouped
    clear order keyed grouped
    rw [vectorReadsWithin]
    induction groups with
    | nil => exact .refl _
    | cons group groups ih =>
        simp only [List.flatMap_cons, List.map_append, List.flatten_append, List.map_cons,
          List.flatten_cons, blobs_puffinFileReads]
        exact (sortByStart_perm group.2).append ih
  refine ⟨fun group member => ⟨requests_puffinFileReads maxGap maxLen tableRoot, ?_⟩, shared, ?_⟩
  · rw [sum_mergeBlobRanges, List.length_map, (sortByStart_perm group.2).length_eq]
  · intro read listed
    obtain ⟨group, inGroups, inFile⟩ := List.mem_flatMap.mp listed
    have own := puffinFileReads_own maxGap maxLen tableRoot (keyed group inGroups) read inFile
    -- The file is as long as the manifests say, and the request ends where one of its ranges does.
    have fetched : read.request.stop ≤ (store read.url).length := by
      obtain ⟨range, found, stops⟩ := own.merged.stops
      obtain ⟨member, among, rfl⟩ := List.mem_map.mp found
      have given : member ∈ vectors := shared.mem_iff.mp
        (List.mem_flatten.mpr ⟨read.blobs, List.mem_map.mpr ⟨read, listed, rfl⟩, among⟩)
      obtain ⟨manifest, dataFilePath, made, size⟩ := resolved member given
      obtain ⟨path, within⟩ := resolve_within made
      rw [own.located member among, path]
      omega
    refine ⟨fun member among => ?_, by simpa using own.merged.short, own.merged.gaps⟩
    obtain ⟨starts, stops⟩ :=
      own.merged.contains member.2.range (List.mem_map.mpr ⟨member, among, rfl⟩)
    exact ⟨own.located member among, starts, stops, sliceBytes_of_contains starts stops fetched⟩

/-- Two vectors of one file, the second inside the first. -/
def nestedVectors : List VectorMember :=
  [(['a'], ⟨['p'], ⟨2, 4, by decide⟩, 1⟩), (['b'], ⟨['p'], ⟨0, 6, by decide⟩, 1⟩)]

theorem vectorReads_own_bytes_nested :
    ((vectorReadsWithin 1 8 [] (byPuffinFile nestedVectors)).map (·.blobs)).flatten.Perm
      nestedVectors := by
  refine (vectorReads_own_bytes 1 8 [] nestedVectors _ (.refl _)
    (fun _ => List.replicate 6 0) ?_).2.1
  intro member among
  rcases List.mem_cons.mp among with rfl | among
  · exact ⟨⟨['p'], 6, 2, 2, 1⟩, "a", rfl, by simp⟩
  · obtain rfl := List.mem_singleton.mp among
    exact ⟨⟨['p'], 6, 0, 6, 1⟩, "b", rfl, by simp⟩

/-- Two short vectors with an empty one halfway between them, each 1 MiB from the next. -/
def dividedRanges : List BlobRange :=
  [⟨0, 2, by decide⟩, ⟨1048578, 1048578, by decide⟩, ⟨2097154, 2097156, by decide⟩]

/-- An empty range covers no byte, yet it brings its neighbours into one request. -/
theorem empty_range_bridges_gap :
    mergeBlobRanges dividedRanges 1048576 8388608 = [(⟨0, 2097156, by decide⟩, 3)] ∧
      (∀ range ∈ dividedRanges, ∀ byte, 2 ≤ byte → byte < 2097154 →
        ¬ (range.start ≤ byte ∧ byte < range.stop)) ∧
      1048576 < 2097154 - 2 := by
  refine ⟨by decide, ?_, by decide⟩
  intro range member byte begins ends
  simp only [dividedRanges, List.mem_cons, List.not_mem_nil, or_false] at member
  rcases member with rfl | rfl | rfl <;> dsimp only <;> omega

end LakehouseEngine
