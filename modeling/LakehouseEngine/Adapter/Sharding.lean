import LakehouseEngine.Data.GreedyBins
import LakehouseEngine.Scan.FileEntry
import Mathlib.Algebra.Order.Field.Rat
import Mathlib.Data.List.MinMax
import Mathlib.Tactic.FieldSimp
import Mathlib.Tactic.Linarith

/-!
# Splitting a file list into shards

`partition_files_by_bytes` places the files longest first, each on the shard with the fewest
bytes so far.  The byte counts are 64-bit, so they are the loads of the shards as long as the
whole listing stays below `2 ^ 64`.
-/

namespace LakehouseEngine

/-- `ShardWeight`. -/
class ShardWeight (T : Type) where
  shardBytes : T → UInt64

instance : ShardWeight (String × UInt64) where
  shardBytes := Prod.snd

instance : ShardWeight FileEntry where
  shardBytes := FileEntry.size

section Partition

variable {T : Type} [ShardWeight T]

/-- A file of no bytes weighs 1. -/
def effectiveSize (file : T) : UInt64 := max (ShardWeight.shardBytes file) 1

/-- The first of the shards with the fewest bytes, as `min_by_key` returns it. -/
def lightestIdx (shards : List (List T × UInt64)) : Option ℕ :=
  (shards.zipIdx.argmin fun entry => entry.1.2.toNat).map Prod.snd

/-- One file goes to the lightest shard, which the source expects to exist. -/
def placeFile (shards : List (List T × UInt64)) (file : T) : Option (List (List T × UInt64)) :=
  (lightestIdx shards).map fun idx =>
    shards.modify idx fun (entries, bytes) => (entries ++ [file], bytes + effectiveSize file)

/-- `partition_files_by_bytes`. -/
def partitionFilesByBytes (files : List T) (n : ℕ) : Option (List (List T)) :=
  if files.isEmpty then
    some []
  else
    let shardCount := min (max n 1) files.length
    let sorted := files.mergeSort fun a b => effectiveSize b ≤ effectiveSize a
    (sorted.foldlM placeFile (List.replicate shardCount ([], 0))).map (·.map Prod.fst)

/-- What a file weighs. -/
def shardWeight (file : T) : ℕ := (effectiveSize file).toNat

theorem shardWeight_pos (file : T) : 0 < shardWeight file := by
  have atLeast : (1 : UInt64) ≤ effectiveSize file := by
    simp only [effectiveSize, Max.max]
    split
    · exact Nat.le_refl _
    · next above => exact UInt64.le_of_lt (UInt64.not_le.mp above)
  exact UInt64.le_iff_toNat_le.mp atLeast

/-- The byte counts are the loads. -/
def Tracked (shards : List (List T × UInt64)) : Prop :=
  ∀ shard ∈ shards, shard.2.toNat = GreedyBins.load shardWeight shard.1

omit [ShardWeight T] in
theorem exists_lightestIdx {shards : List (List T × UInt64)} (present : shards ≠ []) :
    ∃ (before after : List (List T × UInt64)) (shard : List T × UInt64),
      lightestIdx shards = some before.length ∧ shards = before ++ shard :: after ∧
        ∀ other ∈ shards, shard.2.toNat ≤ other.2.toNat := by
  cases least : shards.zipIdx.argmin fun entry => entry.1.2.toNat with
  | none =>
      rw [List.argmin_eq_none, List.zipIdx_eq_nil_iff] at least
      exact absurd least present
  | some entry =>
      obtain ⟨shard, idx⟩ := entry
      have found : shards[idx]? = some shard :=
        List.mk_mem_zipIdx_iff_getElem?.mp (List.argmin_mem least)
      obtain ⟨inside, rfl⟩ := List.getElem?_eq_some_iff.mp found
      refine ⟨shards.take idx, shards.drop (idx + 1), shards[idx], ?_, ?_, ?_⟩
      · rw [lightestIdx, least, Option.map_some, List.length_take_of_le (Nat.le_of_lt inside)]
      · rw [List.getElem_cons_drop, List.take_append_drop]
      · intro other member
        obtain ⟨place, bound, rfl⟩ := List.getElem_of_mem member
        have among : (shards[place], place) ∈ shards.zipIdx :=
          List.mk_mem_zipIdx_iff_getElem?.mpr (List.getElem?_eq_getElem bound)
        have above := List.le_of_mem_argmin among least
        exact above

/-- Within 64 bits a placement is a greedy step. -/
theorem placeFile_step {shards : List (List T × UInt64)} {file : T} (present : shards ≠ [])
    (tracked : Tracked shards)
    (fits : GreedyBins.total shardWeight (shards.map Prod.fst) + shardWeight file < 2 ^ 64) :
    ∃ next, placeFile shards file = some next ∧ Tracked next ∧
      GreedyBins.Step shardWeight (shards.map Prod.fst) file (next.map Prod.fst) := by
  obtain ⟨before, after, ⟨entries, bytes⟩, chosen, rfl, least⟩ := exists_lightestIdx present
  refine ⟨before ++ (entries ++ [file], bytes + effectiveSize file) :: after, ?_, ?_, ?_⟩
  · rw [placeFile, chosen, Option.map_some, List.modify_eq_take_cons_drop (by simp)]
    simp
  · intro shard member
    rcases List.mem_append.mp member with left | right
    · exact tracked shard (List.mem_append_left _ left)
    rcases List.mem_cons.mp right with rfl | right
    · -- The count cannot wrap: the shard is part of the whole.
      have counted := tracked (entries, bytes) (by simp)
      have part : GreedyBins.load shardWeight entries ≤
          GreedyBins.total shardWeight ((before ++ (entries, bytes) :: after).map Prod.fst) :=
        GreedyBins.load_le_total (by simp)
      simp only at counted
      rw [GreedyBins.load_concat, ← counted]
      change (bytes + effectiveSize file).toNat = bytes.toNat + (effectiveSize file).toNat
      rw [UInt64.toNat_add, Nat.mod_eq_of_lt]
      change bytes.toNat + shardWeight file < 2 ^ 64
      omega
    · exact tracked shard (List.mem_append_right _ (List.mem_cons_of_mem _ right))
  · simp only [List.map_append, List.map_cons]
    refine .place ?_
    intro other member
    obtain ⟨shard, found, rfl⟩ : ∃ shard ∈ before ++
      (entries, bytes) :: after, shard.1 = other := by
      rwa [← List.mem_map, List.map_append, List.map_cons]
    rw [← tracked shard found, ← tracked (entries, bytes) (by simp)]
    exact least shard found

theorem foldlM_placeFile {files : List T} {shards : List (List T × UInt64)} (present : shards ≠ [])
    (tracked : Tracked shards)
    (fits : GreedyBins.total shardWeight (shards.map Prod.fst) + GreedyBins.load shardWeight files <
      2 ^ 64) :
    ∃ last, files.foldlM placeFile shards = some last ∧
      GreedyBins.Run shardWeight (shards.map Prod.fst) files (last.map Prod.fst) := by
  induction files generalizing shards with
  | nil => exact ⟨shards, rfl, .nil _⟩
  | cons file files ih =>
      simp only [GreedyBins.load, List.map_cons, List.sum_cons] at fits ih
      obtain ⟨next, placed, kept, step⟩ :=
        @placeFile_step T _ shards file present tracked (by omega)
      have some : next ≠ [] := by
        intro none
        have same := step.length
        rw [none] at same
        exact present (List.map_eq_nil_iff.mp (List.length_eq_zero_iff.mp same.symm))
      obtain ⟨last, ran, run⟩ := ih some kept (by rw [step.total]; omega)
      refine ⟨last, ?_, .cons step run⟩
      rw [List.foldlM_cons, placed]
      exact ran

/-- The shards of a listing that weighs less than `2 ^ 64`. -/
theorem partitionFilesByBytes_balanced (files : List T) (n : ℕ) (present : files ≠ [])
    (fits : (files.map shardWeight).sum < 2 ^ 64) :
    ∃ shards, partitionFilesByBytes files n = some shards ∧
      shards.length = min (max n 1) files.length ∧
      (∀ shard ∈ shards, shard ≠ []) ∧
      shards.flatten.Perm files ∧
      (∃ largest ∈ files, (∀ file ∈ files, shardWeight file ≤ shardWeight largest) ∧
        ∀ first ∈ shards, ∀ second ∈ shards,
          (first.map shardWeight).sum ≤ (second.map shardWeight).sum + shardWeight largest) ∧
      ∀ shard ∈ shards, ∀ last, shard.getLast? = some last →
        ((shard.map shardWeight).sum : ℚ) ≤
          ((files.map shardWeight).sum : ℚ) / shards.length + shardWeight last := by
  set shardCount := min (max n 1) files.length with count_eq
  set sorted := files.mergeSort fun a b => effectiveSize b ≤ effectiveSize a with sorted_eq
  have sortedPerm : sorted.Perm files := List.mergeSort_perm _ _
  have sortedLoad : GreedyBins.load shardWeight sorted = (files.map shardWeight).sum :=
    (sortedPerm.map shardWeight).sum_eq
  have someFiles : 0 < files.length := List.length_pos_iff.mpr present
  have someShards : 0 < shardCount := by omega
  have empty : GreedyBins.total shardWeight (List.replicate shardCount ([] : List T)) = 0 := by
    simp [GreedyBins.total]
  obtain ⟨last, ran, run⟩ := @foldlM_placeFile T _ sorted (List.replicate shardCount ([], 0))
    (by simpa using someShards.ne')
    (fun shard member => by rw [List.eq_of_mem_replicate member]; rfl)
    (by rw [List.map_replicate, empty, sortedLoad]; omega)
  rw [List.map_replicate] at run
  have size : (last.map Prod.fst).length = shardCount := by rw [run.length, List.length_replicate]
  refine ⟨last.map Prod.fst, ?_, size, ?_, ?_, ?_, ?_⟩
  · rw [partitionFilesByBytes, if_neg (by simpa using present)]
    simp only [← count_eq, ← sorted_eq, ran, Option.map_some]
  · refine run.nonempty shardWeight_pos ?_
    rw [List.length_replicate, sortedPerm.length_eq]
    exact Nat.min_le_right _ _
  · have whole := run.perm
    rw [List.flatten_replicate_nil, List.nil_append] at whole
    exact whole.trans sortedPerm
  · obtain ⟨largest, most⟩ := Option.isSome_iff_exists.mp
      (by simpa [Option.isSome_iff_ne_none] using present : (files.argmax shardWeight).isSome)
    have bound : ∀ file ∈ files, shardWeight file ≤ shardWeight largest :=
      fun file member => List.le_of_mem_argmax member most
    refine ⟨largest, List.argmax_mem most, bound, ?_⟩
    exact run.spread (GreedyBins.spread_replicate _ _)
      fun file member => bound file (sortedPerm.mem_iff.mp member)
  · intro shard member final ends
    have fair := run.fair (GreedyBins.fair_replicate _) shard member final ends
    rw [run.total, empty, sortedLoad, Nat.zero_add, size] at fair
    have positive : (0 : ℚ) < shardCount := by exact_mod_cast someShards
    have scaled : (shardCount : ℚ) * GreedyBins.load shardWeight shard ≤
        ((files.map shardWeight).sum : ℚ) + shardCount * shardWeight final := by exact_mod_cast fair
    rw [size, div_add' _ _ _ positive.ne', le_div_iff₀ positive]
    change (GreedyBins.load shardWeight shard : ℚ) * shardCount ≤ _
    linarith

end Partition

/-- Three files on two shards, one of them of no bytes. -/
theorem partitionFilesByBytes_balanced_three :
    ∃ shards, partitionFilesByBytes [("a", (0 : UInt64)), ("b", 5), ("c", 7)] 2 = some shards ∧
      shards.length = 2 ∧ shards.flatten.Perm [("a", 0), ("b", 5), ("c", 7)] := by
  obtain ⟨shards, made, count, -, whole, -⟩ :=
    partitionFilesByBytes_balanced [("a", (0 : UInt64)), ("b", 5), ("c", 7)] 2 (by simp) (by decide)
  exact ⟨shards, made, count, whole⟩

end LakehouseEngine
