import Mathlib.Data.List.Basic
import Mathlib.Data.List.Pairwise
import Mathlib.Data.List.TakeDrop
import Mathlib.Order.Basic

/-!
# Rows of varying length

The items of all rows lie in one list, and each row is the window between two neighbouring
offsets.  The first offset need not be zero, and items may lie behind the last one.
-/

namespace LakehouseEngine

structure OffsetBuffer where
  first : ℕ
  rest : List ℕ
  sorted : (first :: rest).Pairwise (· ≤ ·)

namespace OffsetBuffer

def offsets (buffer : OffsetBuffer) : List ℕ := buffer.first :: buffer.rest

def rows (buffer : OffsetBuffer) : ℕ := buffer.rest.length

def last (buffer : OffsetBuffer) : ℕ := buffer.offsets.getLast (List.cons_ne_nil _ _)

/-- The positions of a row's items. -/
def window (buffer : OffsetBuffer) (row : ℕ) : List ℕ :=
  match buffer.offsets[row]?, buffer.offsets[row + 1]? with
  | some start, some stop => List.range' start (stop - start)
  | _, _ => []

/-- The rows from `offset` on, `length` of them; no item moves. -/
def slice (offset length : ℕ) (buffer : OffsetBuffer) : OffsetBuffer :=
  match found : buffer.offsets.drop offset with
  | [] => ⟨0, [], List.pairwise_singleton _ _⟩
  | first :: rest =>
      ⟨first, rest.take length,
        (found ▸ buffer.sorted.drop : (first :: rest).Pairwise (· ≤ ·)).sublist
          ((List.take_sublist _ _).cons_cons _)⟩

theorem le_last (buffer : OffsetBuffer) {offset : ℕ} (member : offset ∈ buffer.offsets) :
    offset ≤ buffer.last :=
  buffer.sorted.rel_getLast member

/-- Every item of a row lies before the last offset. -/
theorem lt_last_of_mem_window (buffer : OffsetBuffer) {row position : ℕ}
    (member : position ∈ buffer.window row) : position < buffer.last := by
  unfold window at member
  split at member
  · next start stop _ stops =>
      have bound := buffer.le_last (List.mem_of_getElem? stops)
      have inside := List.mem_range'_1.mp member
      omega
  · cases member

variable {buffer : OffsetBuffer}

theorem offsets_slice {offset length : ℕ}
    (inside : offset + length ≤ buffer.rows) :
    (buffer.slice offset length).offsets = (buffer.offsets.drop offset).take (length + 1) := by
  unfold slice
  split
  · next none =>
      have short := List.drop_eq_nil_iff.mp none
      simp only [offsets, List.length_cons] at short
      simp only [rows] at inside
      omega
  · next first rest found =>
      change first :: rest.take length = _
      rw [found, List.take_succ_cons]

@[simp] theorem rows_slice {offset length : ℕ}
    (inside : offset + length ≤ buffer.rows) : (buffer.slice offset length).rows = length := by
  have lengths := congrArg List.length (offsets_slice inside)
  simp only [offsets, rows, List.length_cons, List.length_take,
    List.length_drop] at lengths inside ⊢
  omega

theorem last_slice_le {offset length : ℕ}
    (inside : offset + length ≤ buffer.rows) : (buffer.slice offset length).last ≤ buffer.last := by
  apply buffer.le_last
  have member : (buffer.slice offset length).last ∈ (buffer.slice offset length).offsets :=
    List.getLast_mem _
  rw [offsets_slice inside] at member
  exact List.mem_of_mem_drop (List.mem_of_mem_take member)

end OffsetBuffer

end LakehouseEngine
