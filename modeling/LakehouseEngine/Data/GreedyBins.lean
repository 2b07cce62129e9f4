import Mathlib.Algebra.BigOperators.Group.List.Basic
import Mathlib.Algebra.GroupWithZero.Nat
import Mathlib.Algebra.Order.BigOperators.Group.List
import Mathlib.Algebra.Order.Group.Nat
import Mathlib.Data.List.Perm.Basic

/-!
# Greedy placement into bins

Items go one by one to the end of a bin that is nowhere heavier than another.  Whatever the
order of the items and whichever of the lightest bins is taken, the loads stay within one item
of each other, no bin rises above the average by more than its last item, and the empty bins
are filled before any other.
-/

namespace LakehouseEngine.GreedyBins

variable {α : Type*} (weight : α → ℕ)

/-- The load of a bin. -/
def load (bin : List α) : ℕ := (bin.map weight).sum

/-- The load of all bins. -/
def total (bins : List (List α)) : ℕ := (bins.map (load weight)).sum

/-- One item goes to the end of a bin that none is lighter than. -/
inductive Step : List (List α) → α → List (List α) → Prop where
  | place {before after : List (List α)} {bin : List α} {item : α} :
      (∀ other ∈ before ++ bin :: after, load weight bin ≤ load weight other) →
      Step (before ++ bin :: after) item (before ++ (bin ++ [item]) :: after)

/-- The items go one after another. -/
inductive Run : List (List α) → List α → List (List α) → Prop where
  | nil (bins : List (List α)) : Run bins [] bins
  | cons {bins next last : List (List α)} {item : α} {items : List α} :
      Step weight bins item next → Run next items last → Run bins (item :: items) last

/-- No two loads are further apart than `bound`. -/
def Spread (bound : ℕ) (bins : List (List α)) : Prop :=
  ∀ first ∈ bins, ∀ second ∈ bins, load weight first ≤ load weight second + bound

/-- No bin rises above the average load by more than its last item, multiplied out. -/
def Fair (bins : List (List α)) : Prop :=
  ∀ bin ∈ bins, ∀ last, bin.getLast? = some last →
    bins.length * load weight bin ≤ total weight bins + bins.length * weight last

variable {weight}

@[simp] theorem load_nil : load weight [] = 0 := rfl

@[simp] theorem load_concat (bin : List α) (item : α) :
    load weight (bin ++ [item]) = load weight bin + weight item := by
  simp [load]

theorem load_le_total {bins : List (List α)} {bin : List α} (member : bin ∈ bins) :
    load weight bin ≤ total weight bins :=
  List.single_le_sum (fun _ _ => Nat.zero_le _) _ (List.mem_map_of_mem member)

/-- The least load is at most the average. -/
theorem length_mul_le_total {bins : List (List α)} {least : ℕ}
    (lightest : ∀ bin ∈ bins, least ≤ load weight bin) :
    bins.length * least ≤ total weight bins := by
  have bound := List.card_nsmul_le_sum (bins.map (load weight)) least (by simpa using lightest)
  simpa [total] using bound

/-! ## One step -/

section Step

variable {bins next : List (List α)} {item : α}

theorem Step.length (step : Step weight bins item next) : next.length = bins.length := by
  cases step
  simp

theorem Step.perm (step : Step weight bins item next) :
    next.flatten.Perm (bins.flatten ++ [item]) := by
  cases step with
  | @place before after bin item lightest =>
      simp only [List.flatten_append, List.flatten_cons, List.append_assoc]
      refine List.Perm.append_left _ (List.Perm.append_left _ ?_)
      exact List.perm_append_comm

theorem Step.total (step : Step weight bins item next) :
    total weight next = total weight bins + weight item := by
  cases step
  simp only [GreedyBins.total, List.map_append, List.map_cons, List.sum_append, List.sum_cons,
    load_concat]
  omega

/-- A bin after the step is one of before or the lightest with the item on it. -/
theorem Step.mem (step : Step weight bins item next) {bin : List α} (member : bin ∈ next) :
    bin ∈ bins ∨ ∃ lightest ∈ bins, (∀ other ∈ bins, load weight lightest ≤ load weight other) ∧
      bin = lightest ++ [item] := by
  cases step with
  | @place before after chosen item lightest =>
      rcases List.mem_append.mp member with left | right
      · exact .inl (List.mem_append_left _ left)
      rcases List.mem_cons.mp right with rfl | right
      · exact .inr ⟨chosen, by simp, lightest, rfl⟩
      · exact .inl (List.mem_append_right _ (List.mem_cons_of_mem _ right))

/-- Loads only grow. -/
theorem Step.exists_le (step : Step weight bins item next) {bin : List α} (member : bin ∈ next) :
    ∃ former ∈ bins, load weight former ≤ load weight bin := by
  rcases step.mem member with kept | ⟨lightest, found, -, rfl⟩
  · exact ⟨bin, kept, le_rfl⟩
  · exact ⟨lightest, found, by simp⟩

theorem Step.spread {bound : ℕ} (step : Step weight bins item next)
    (spread : Spread weight bound bins)
    (light : weight item ≤ bound) : Spread weight bound next := by
  intro first firstMem second secondMem
  obtain ⟨former, formerMem, grown⟩ := step.exists_le secondMem
  rcases step.mem firstMem with kept | ⟨lightest, -, least, rfl⟩
  · have apart := spread first kept former formerMem
    omega
  · -- The bin that grew was at most as heavy as any other.
    have below := least former formerMem
    rw [load_concat]
    omega

theorem Step.fair (step : Step weight bins item next) (fair : Fair weight bins) :
    Fair weight next := by
  intro bin member last ends
  rw [step.length, step.total]
  rcases step.mem member with kept | ⟨lightest, -, least, rfl⟩
  · have before := fair bin kept last ends
    omega
  · obtain rfl : item = last := by simpa using ends
    have average := length_mul_le_total least
    rw [load_concat, Nat.mul_add]
    omega

/-- While a bin is empty, the item goes to an empty one. -/
theorem Step.empties (positive : ∀ item, 0 < weight item) (step : Step weight bins item next) :
    next.countP List.isEmpty = bins.countP List.isEmpty - 1 := by
  cases step with
  | @place before after bin item lightest =>
      cases bin with
      | nil => simp
      | cons first rest =>
          -- A bin with an item on it weighs something, so no other bin is empty.
          have heavy : 0 < load weight (first :: rest) := by
            have := positive first
            simp only [load, List.map_cons, List.sum_cons]
            omega
          have full : ∀ other ∈ before ++ after, other.isEmpty = false := by
            intro other member
            cases other with
            | nil =>
                have below := lightest [] (by simp at member ⊢; tauto)
                rw [load_nil] at below
                omega
            | cons => rfl
          have beforeFull : before.countP List.isEmpty = 0 :=
            List.countP_eq_zero.mpr fun other member => by simp [full other (by simp [member])]
          have afterFull : after.countP List.isEmpty = 0 :=
            List.countP_eq_zero.mpr fun other member => by simp [full other (by simp [member])]
          simp [beforeFull, afterFull]

end Step

/-! ## A whole run -/

section Run

variable {bins last : List (List α)} {items : List α}

theorem Run.length (run : Run weight bins items last) : last.length = bins.length := by
  induction run with
  | nil => rfl
  | cons step _ ih => rw [ih, step.length]

theorem Run.perm (run : Run weight bins items last) :
    last.flatten.Perm (bins.flatten ++ items) := by
  induction run with
  | nil => simp
  | cons step _ ih =>
      refine ih.trans ?_
      simpa using step.perm.append_right _

theorem Run.total (run : Run weight bins items last) :
    total weight last = total weight bins + load weight items := by
  induction run with
  | nil => simp
  | cons step _ ih =>
      rw [ih, step.total]
      simp only [load, List.map_cons, List.sum_cons]
      omega

theorem Run.spread {bound : ℕ} (run : Run weight bins items last)
    (spread : Spread weight bound bins)
    (light : ∀ item ∈ items, weight item ≤ bound) : Spread weight bound last := by
  induction run with
  | nil => exact spread
  | cons step _ ih =>
      exact ih (step.spread spread (light _ List.mem_cons_self))
        fun item member => light item (List.mem_cons_of_mem _ member)

theorem Run.fair (run : Run weight bins items last) (fair : Fair weight bins) :
    Fair weight last := by
  induction run with
  | nil => exact fair
  | cons step _ ih => exact ih (step.fair fair)

theorem Run.empties (positive : ∀ item, 0 < weight item) (run : Run weight bins items last) :
    last.countP List.isEmpty = bins.countP List.isEmpty - items.length := by
  induction run with
  | nil => simp
  | cons step _ ih =>
      rw [ih, step.empties positive, List.length_cons]
      omega

/-- No bin stays empty where there are as many items as bins. -/
theorem Run.nonempty (positive : ∀ item, 0 < weight item) (run : Run weight bins items last)
    (enough : bins.length ≤ items.length) : ∀ bin ∈ last, bin ≠ [] := by
  have empties := run.empties positive
  have few := List.countP_le_length (p := List.isEmpty) (l := bins)
  have none : last.countP List.isEmpty = 0 := by omega
  intro bin member
  simpa using List.countP_eq_zero.mp none bin member

end Run

/-- Bins that are all empty. -/
theorem spread_replicate (count bound : ℕ) : Spread weight bound
    (List.replicate count ([] : List α)) := by
  intro first firstMem second secondMem
  rw [List.eq_of_mem_replicate firstMem]
  exact Nat.zero_le _

theorem fair_replicate (count : ℕ) : Fair weight (List.replicate count ([] : List α)) := by
  intro bin member last ends
  rw [List.eq_of_mem_replicate member] at ends
  cases ends

end LakehouseEngine.GreedyBins
