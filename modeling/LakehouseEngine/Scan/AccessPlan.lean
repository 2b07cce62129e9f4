import Mathlib.Algebra.BigOperators.Group.List.Basic
import Mathlib.Algebra.Ring.Nat
import Mathlib.Data.Finset.Sort
import Mathlib.Data.List.Intervals

/-!
# Row access plans

A data file's deleted positions become a plan of what to read in each row group.
Positions count rows from the start of the file, a plan counts them from the start of
each row group, so one pass over the sorted positions is cut at the group boundaries.
-/

namespace LakehouseEngine

/-- A run of rows that a reader skips or selects. -/
structure RowSelector where
  rowCount : ℕ
  skip : Bool
  deriving DecidableEq

/-- What a reader does with a row group. -/
inductive RowGroupAccess where
  | skip
  | scan
  | selection (selectors : List RowSelector)
  deriving DecidableEq

/-- The inner loop: the end of the run of consecutive positions that reached `stop`, and the
positions after it.  A run ends at the row group's end. -/
def deletedRun (limit : ℕ) : ℕ → List ℕ → ℕ × List ℕ
  | stop, [] => (stop, [])
  | stop, position :: rest =>
      if stop < limit ∧ position = stop then deletedRun limit (stop + 1) rest
      else (stop, position :: rest)

theorem deletedRun_length (limit stop : ℕ) (deleted : List ℕ) :
    (deletedRun limit stop deleted).2.length ≤ deleted.length := by
  induction deleted generalizing stop with
  | nil => exact Nat.le_refl _
  | cons position rest ih =>
      rw [deletedRun]
      split
      · exact (ih (stop + 1)).trans (Nat.le_succ _)
      · exact Nat.le_refl _

/-- The outer loop over one row group: its selectors from `cursor` on, the row they reach, and
the positions left for the next group. -/
def groupSelectors (limit cursor : ℕ) : List ℕ → List RowSelector × ℕ × List ℕ
  | [] => ([], cursor, [])
  | first :: rest =>
      if first < limit then
        let run := deletedRun limit (first + 1) rest
        let (selectors, reached, left) := groupSelectors limit run.1 run.2
        ((if cursor < first then [⟨first - cursor, false⟩] else []) ++
          ⟨run.1 - first, true⟩ :: selectors, reached, left)
      else
        ([], cursor, first :: rest)
  termination_by deleted => deleted.length
  decreasing_by exact Nat.lt_succ_of_le (deletedRun_length limit (first + 1) rest)

/-- An untouched row group is scanned, a fully deleted one skipped. -/
def groupAccess (limit cursor : ℕ) (selectors : List RowSelector) : RowGroupAccess :=
  if cursor = limit ∧ selectors.length = 1 then
    .skip
  else if selectors ≠ [] then
    .selection (selectors ++ if cursor < limit then [⟨limit - cursor, false⟩] else [])
  else
    .scan

def accessFrom (start : ℕ) : List ℕ → List ℕ → List RowGroupAccess
  | [], _ => []
  | numRows :: rowGroups, deleted =>
      let (selectors, cursor, left) := groupSelectors (start + numRows) start deleted
      groupAccess (start + numRows) cursor selectors ::
        accessFrom (start + numRows) rowGroups left

/-- `build_access_plan`, on the row counts of the row groups. -/
def buildAccessPlan (rowGroups : List ℕ) (deletes : Finset ℕ) : List RowGroupAccess :=
  accessFrom 0 rowGroups (deletes.sort (· ≤ ·))

/-! ## What a plan reads -/

/-- The rows that a list of selectors selects, counted from `start`. -/
def selectedRows (start : ℕ) : List RowSelector → List ℕ
  | [] => []
  | selector :: selectors =>
      (if selector.skip then [] else List.Ico start (start + selector.rowCount)) ++
        selectedRows (start + selector.rowCount) selectors

def selectorRows (selectors : List RowSelector) : ℕ := (selectors.map RowSelector.rowCount).sum

def RowGroupAccess.rows (start numRows : ℕ) : RowGroupAccess → List ℕ
  | .skip => []
  | .scan => List.Ico start (start + numRows)
  | .selection selectors => selectedRows start selectors

/-- The rows of the file that a plan reads, in the order it reads them. -/
def planRows (start : ℕ) : List ℕ → List RowGroupAccess → List ℕ
  | numRows :: rowGroups, access :: plan =>
      access.rows start numRows ++ planRows (start + numRows) rowGroups plan
  | _, _ => []

/-- The rows from `start` to `limit` that are not deleted. -/
def keptRows (deletes : Finset ℕ) (start limit : ℕ) : List ℕ :=
  (List.Ico start limit).filter (· ∉ deletes)

theorem selectedRows_append (start : ℕ) (left right : List RowSelector) :
    selectedRows start (left ++ right) =
      selectedRows start left ++ selectedRows (start + selectorRows left) right := by
  induction left generalizing start with
  | nil => simp [selectedRows, selectorRows]
  | cons selector left ih =>
      simp [selectedRows, selectorRows, ih, Nat.add_assoc]

theorem selectorRows_append (left right : List RowSelector) :
    selectorRows (left ++ right) = selectorRows left + selectorRows right := by
  simp [selectorRows]

section Kept

variable {deletes : Finset ℕ} {start middle limit : ℕ}

theorem keptRows_append (low : start ≤ middle) (high : middle ≤ limit) :
    keptRows deletes start middle ++ keptRows deletes middle limit =
      keptRows deletes start limit := by
  rw [keptRows, keptRows, ← List.filter_append, List.Ico.append_consecutive low high, keptRows]

theorem keptRows_untouched (untouched : ∀ row, start ≤ row → row < limit → row ∉ deletes) :
    keptRows deletes start limit = List.Ico start limit := by
  rw [keptRows, List.filter_eq_self]
  intro row member
  obtain ⟨low, high⟩ := List.Ico.mem.mp member
  exact decide_eq_true (untouched row low high)

theorem keptRows_deleted (deleted : ∀ row, start ≤ row → row < limit → row ∈ deletes) :
    keptRows deletes start limit = [] := by
  rw [keptRows, List.filter_eq_nil_iff]
  intro row member
  obtain ⟨low, high⟩ := List.Ico.mem.mp member
  simpa using deleted row low high

end Kept

/-- The selector of a gap is left out when the gap is empty. -/
theorem selectGap {cursor limit : ℕ} (low : cursor ≤ limit) :
    let gap : List RowSelector := if cursor < limit then [⟨limit - cursor, false⟩] else []
    cursor + selectorRows gap = limit ∧ selectedRows cursor gap = List.Ico cursor limit := by
  intro gap
  by_cases open_ : cursor < limit
  · have shape : gap = [⟨limit - cursor, false⟩] := if_pos open_
    have full : cursor + (limit - cursor) = limit := by omega
    simp [shape, selectorRows, selectedRows, full]
  · have shape : gap = [] := if_neg open_
    have empty : cursor = limit := by omega
    simp [shape, selectorRows, selectedRows, empty]

/-! ## The pass over the positions -/

/-- The positions still to come are the deleted ones from `cursor` on, in order. -/
structure Remaining (deletes : Finset ℕ) (cursor : ℕ) (deleted : List ℕ) : Prop where
  sorted : deleted.Pairwise (· < ·)
  mem : ∀ row, row ∈ deleted ↔ row ∈ deletes ∧ cursor ≤ row

namespace Remaining

variable {deletes : Finset ℕ} {cursor first : ℕ} {rest : List ℕ}

theorem head_mem (remaining : Remaining deletes cursor (first :: rest)) :
    first ∈ deletes ∧ cursor ≤ first :=
  (remaining.mem first).mp List.mem_cons_self

/-- Nothing is deleted between the cursor and the next position. -/
theorem untouched (remaining : Remaining deletes cursor (first :: rest)) (row : ℕ)
    (low : cursor ≤ row) (high : row < first) : row ∉ deletes := by
  intro deleted
  rcases List.mem_cons.mp ((remaining.mem row).mpr ⟨deleted, low⟩) with rfl | later
  · exact Nat.lt_irrefl _ high
  · exact Nat.lt_asymm high (List.rel_of_pairwise_cons remaining.sorted later)

/-- Past the next position the others remain. -/
theorem tail (remaining : Remaining deletes cursor (first :: rest)) :
    Remaining deletes (first + 1) rest where
  sorted := remaining.sorted.of_cons
  mem row := by
    constructor
    · intro member
      exact ⟨((remaining.mem row).mp (List.mem_cons_of_mem first member)).1,
        List.rel_of_pairwise_cons remaining.sorted member⟩
    · rintro ⟨deleted, past⟩
      have listed := (remaining.mem row).mpr ⟨deleted, by have := remaining.head_mem.2; omega⟩
      rcases List.mem_cons.mp listed with rfl | later
      · exact absurd past (Nat.lt_irrefl row)
      · exact later

/-- A cursor moves freely over rows that are not deleted. -/
theorem advance {deleted : List ℕ} (remaining : Remaining deletes cursor deleted) {limit : ℕ}
    (low : cursor ≤ limit) (untouched : ∀ row, cursor ≤ row → row < limit → row ∉ deletes) :
    Remaining deletes limit deleted where
  sorted := remaining.sorted
  mem row := by
    rw [remaining.mem]
    constructor
    · rintro ⟨deleted, past⟩
      exact ⟨deleted, not_lt.mp fun below => untouched row past below deleted⟩
    · rintro ⟨deleted, past⟩
      exact ⟨deleted, low.trans past⟩

end Remaining

theorem deletedRun_spec {deletes : Finset ℕ} {limit stop : ℕ} {deleted : List ℕ}
    (remaining : Remaining deletes stop deleted) (low : stop ≤ limit) :
    stop ≤ (deletedRun limit stop deleted).1 ∧ (deletedRun limit stop deleted).1 ≤ limit ∧
      (∀ row, stop ≤ row → row < (deletedRun limit stop deleted).1 → row ∈ deletes) ∧
      Remaining deletes (deletedRun limit stop deleted).1 (deletedRun limit stop deleted).2 := by
  induction deleted generalizing stop with
  | nil =>
      refine ⟨Nat.le_refl _, low, ?_, remaining⟩
      intro row above below
      exact absurd above (not_le.mpr below)
  | cons position rest ih =>
      rw [deletedRun]
      split
      · next extends_ =>
          obtain ⟨below, rfl⟩ := extends_
          obtain ⟨reached, bounded, run, left⟩ := ih remaining.tail below
          refine ⟨by omega, bounded, ?_, left⟩
          intro row above under
          by_cases same : row = position
          · rw [same]
            exact remaining.head_mem.1
          · exact run row (by omega) under
      · refine ⟨Nat.le_refl _, low, ?_, remaining⟩
        intro row above below
        exact absurd above (not_le.mpr below)

/-- One row group's selectors read its kept rows up to the row they reach, and nothing is
deleted after it. -/
structure GroupRead (deletes : Finset ℕ) (limit cursor : ℕ)
    (result : List RowSelector × ℕ × List ℕ) : Prop where
  reached : cursor + selectorRows result.1 = result.2.1
  bounded : result.2.1 ≤ limit
  rows : selectedRows cursor result.1 = keptRows deletes cursor result.2.1
  untouched : ∀ row, result.2.1 ≤ row → row < limit → row ∉ deletes
  left : Remaining deletes limit result.2.2
  /-- A selector that stands alone is a skip. -/
  alone : ∀ selector, result.1 = [selector] → selector.skip = true

theorem groupSelectors_spec {deletes : Finset ℕ} {limit cursor : ℕ} {deleted : List ℕ}
    (remaining : Remaining deletes cursor deleted) (low : cursor ≤ limit) :
    GroupRead deletes limit cursor (groupSelectors limit cursor deleted) := by
  fun_induction groupSelectors limit cursor deleted with
  | case1 cursor =>
      have untouched : ∀ row, cursor ≤ row → row < limit → row ∉ deletes := by
        intro row above _ deleted
        simpa using (remaining.mem row).mpr ⟨deleted, above⟩
      exact ⟨rfl, low, by simp [selectedRows, keptRows], untouched,
        remaining.advance low untouched, by simp⟩
  | case2 cursor first rest below run selectors reached left recursive ih =>
      obtain ⟨ran, bounded, inRun, afterRun⟩ := deletedRun_spec remaining.tail below
      obtain ⟨sum, high, rows, untouched, next, _⟩ := ih afterRun bounded
      have above := remaining.head_mem.2
      rw [recursive] at sum high rows untouched next
      have skipped : keptRows deletes first run.1 = [] := by
        apply keptRows_deleted
        intro row from_ under
        by_cases same : row = first
        · rw [same]
          exact remaining.head_mem.1
        · exact inRun row (by omega) under
      have gap : keptRows deletes cursor first = List.Ico cursor first :=
        keptRows_untouched remaining.untouched
      obtain ⟨gapReached, gapRows⟩ := selectGap above
      have runReached : first + (run.1 - first) = run.1 := by
        have : first + 1 ≤ run.1 := ran
        omega
      refine ⟨?_, high, ?_, untouched, next, ?_⟩
      · rw [selectorRows_append, ← Nat.add_assoc, gapReached, ← sum]
        simp only [selectorRows, List.map_cons, List.sum_cons]
        omega
      · rw [selectedRows_append, gapReached, gapRows, selectedRows, if_pos rfl, List.nil_append,
          runReached, rows, ← gap, ← List.nil_append (keptRows deletes run.1 _), ← skipped,
          keptRows_append (by omega) (by omega), keptRows_append above (by omega)]
      · intro selector single
        split at single
        · simp at single
        · obtain ⟨rfl, _⟩ := List.cons.inj single
          rfl
  | case3 cursor first rest beyond =>
      have untouched : ∀ row, cursor ≤ row → row < limit → row ∉ deletes := by
        intro row above under
        exact remaining.untouched row above (by omega)
      exact ⟨rfl, low, by simp [selectedRows, keptRows], untouched,
        remaining.advance low untouched, by simp⟩

section Group

variable {deletes : Finset ℕ} {start numRows : ℕ} {result : List RowSelector × ℕ × List ℕ}
  (read : GroupRead deletes (start + numRows) start result)

include read

/-- The access of a row group reads its kept rows. -/
theorem groupAccess_rows :
    (groupAccess (start + numRows) result.2.1 result.1).rows start numRows =
      keptRows deletes start (start + numRows) := by
  have tail : keptRows deletes result.2.1 (start + numRows) =
      List.Ico result.2.1 (start + numRows) := keptRows_untouched read.untouched
  have whole : keptRows deletes start result.2.1 ++ keptRows deletes result.2.1 (start + numRows) =
      keptRows deletes start (start + numRows) :=
    keptRows_append (by have := read.reached; omega) read.bounded
  rw [groupAccess]
  split
  · next full =>
      obtain ⟨reachedEnd, single⟩ := full
      obtain ⟨selector, only⟩ := List.length_eq_one_iff.mp single
      have nothing : selectedRows start result.1 = [] := by
        simp [only, selectedRows, read.alone selector only]
      rw [← reachedEnd, ← read.rows, nothing]
      rfl
  · split
    · obtain ⟨_, gapRows⟩ := selectGap read.bounded
      rw [RowGroupAccess.rows, selectedRows_append, read.reached, gapRows, read.rows, ← tail, whole]
    · next empty =>
        have nothing : result.1 = [] := not_not.mp empty
        have unmoved : start = result.2.1 := by simpa [nothing, selectorRows] using read.reached
        rw [← unmoved] at tail
        exact tail.symm

/-- The runs of a selection add up to its row group. -/
theorem groupAccess_selection {selectors : List RowSelector}
    (selected : groupAccess (start + numRows) result.2.1 result.1 = .selection selectors) :
    selectorRows selectors = numRows := by
  rw [groupAccess] at selected
  split at selected
  · cases selected
  · split at selected
    · cases selected
      obtain ⟨gapReached, _⟩ := selectGap read.bounded
      have reached := read.reached
      rw [selectorRows_append]
      omega
    · cases selected

end Group

/-- A run of a selection stands between two rows of its row group. -/
theorem selectorRows_take_le (selectors : List RowSelector) (count : ℕ) :
    selectorRows (selectors.take count) ≤ selectorRows selectors := by
  conv_rhs => rw [← List.take_append_drop count selectors, selectorRows_append]
  exact Nat.le_add_right _ _

theorem planRows_accessFrom {deletes : Finset ℕ} {start : ℕ} (rowGroups : List ℕ)
    {deleted : List ℕ} (remaining : Remaining deletes start deleted) :
    planRows start rowGroups (accessFrom start rowGroups deleted) =
      keptRows deletes start (start + rowGroups.sum) := by
  induction rowGroups generalizing start deleted with
  | nil => simp [planRows, keptRows]
  | cons numRows rowGroups ih =>
      have read := groupSelectors_spec remaining (Nat.le_add_right start numRows)
      rw [accessFrom, planRows, groupAccess_rows read, ih read.left, List.sum_cons,
        ← Nat.add_assoc, keptRows_append (Nat.le_add_right _ _) (Nat.le_add_right _ _)]

theorem accessFrom_selection {deletes : Finset ℕ} {start : ℕ} (rowGroups : List ℕ)
    {deleted : List ℕ} (remaining : Remaining deletes start deleted) :
    List.Forall₂ (fun numRows access => ∀ selectors, access = .selection selectors →
      selectorRows selectors = numRows) rowGroups (accessFrom start rowGroups deleted) := by
  induction rowGroups generalizing start deleted with
  | nil => exact .nil
  | cons numRows rowGroups ih =>
      have read := groupSelectors_spec remaining (Nat.le_add_right start numRows)
      rw [accessFrom]
      exact .cons (fun _ => groupAccess_selection read) (ih read.left)

/-- A plan has one access for each row group and reads exactly the rows that are not deleted,
in order.  Each run of a selection ends inside its row group, and the runs add up to it. -/
theorem buildAccessPlan_exact (rowGroups : List ℕ) (deletes : Finset ℕ) :
    planRows 0 rowGroups (buildAccessPlan rowGroups deletes) =
        (List.range rowGroups.sum).filter (· ∉ deletes) ∧
      List.Forall₂ (fun numRows access => ∀ selectors, access = .selection selectors →
          selectorRows selectors = numRows ∧
            ∀ run, selectorRows (selectors.take run) ≤ numRows)
        rowGroups (buildAccessPlan rowGroups deletes) := by
  have remaining : Remaining deletes 0 (deletes.sort (· ≤ ·)) :=
    ⟨(deletes.sortedLT_sort).pairwise, by simp⟩
  constructor
  · rw [buildAccessPlan, planRows_accessFrom rowGroups remaining, keptRows, Nat.zero_add,
      List.Ico.zero_bot]
  · refine (accessFrom_selection rowGroups remaining).imp ?_
    intro numRows access sums selectors selected
    refine ⟨sums selectors selected, fun run => ?_⟩
    rw [← sums selectors selected]
    exact selectorRows_take_le selectors run

end LakehouseEngine
