import Mathlib.Algebra.BigOperators.Group.List.Lemmas
import Mathlib.Algebra.Field.Basic
import Mathlib.Algebra.CharZero.Defs
import Mathlib.Algebra.BigOperators.Ring.Finset
import Mathlib.Tactic.FieldSimp
import Mathlib.Tactic.Ring

/-!
# Moments of a split sample

The mean and the sum of squared deviations of a sample can be computed from the
count, mean and squared deviations of its parts.  This is the pairwise formula for
merging variances, for any number of parts and with a mean taken relative to any
reference point.
-/

namespace LakehouseEngine.Moments

variable {K : Type*} [Field K]

def mean (sample : List K) : K := sample.sum / sample.length

/-- Sum of squared distances from a point. -/
def deviation (center : K) (sample : List K) : K :=
  (sample.map fun value => (value - center) * (value - center)).sum

/-- Sum of squared deviations from the sample's own mean. -/
def m2 (sample : List K) : K := deviation (mean sample) sample

theorem deviation_append (center : K) (left right : List K) :
    deviation center (left ++ right) = deviation center left + deviation center right := by
  simp [deviation]

theorem deviation_flatten (center : K) (parts : List (List K)) :
    deviation center parts.flatten = (parts.map (deviation center)).sum := by
  induction parts with
  | nil => rfl
  | cons part parts ih => rw [List.flatten_cons, deviation_append, ih, List.map_cons, List.sum_cons]

/-- The distances from a point expand around another one. -/
theorem deviation_expand (center point : K) (sample : List K) :
    deviation point sample = deviation center sample +
      2 * (center - point) * (sample.sum - sample.length * center) +
      sample.length * ((center - point) * (center - point)) := by
  induction sample with
  | nil => simp [deviation]
  | cons value sample ih =>
      have step : ∀ target : K, deviation target (value :: sample) =
          (value - target) * (value - target) + deviation target sample := fun _ => by
        simp [deviation]
      rw [step, step, ih, List.sum_cons, List.length_cons]
      push_cast
      ring

/-- A constant sample is its mean everywhere. -/
theorem mean_of_constant [CharZero K] {sample : List K} {value : K} (nonempty : sample ≠ [])
    (constant : ∀ other ∈ sample, other = value) : mean sample = value := by
  have same : sample = List.replicate sample.length value :=
    List.eq_replicate_iff.mpr ⟨rfl, constant⟩
  have size : (sample.length : K) ≠ 0 :=
    Nat.cast_ne_zero.mpr fun zero => nonempty (List.length_eq_zero_iff.mp zero)
  have total : sample.sum = sample.length * value := by
    rw [same]
    simp
  rw [mean, total, mul_div_cancel_left₀ _ size]

/-- A constant sample has no deviation. -/
theorem m2_of_constant [CharZero K] {sample : List K} {value : K}
    (constant : ∀ other ∈ sample, other = value) : m2 sample = 0 := by
  by_cases empty : sample = []
  · rw [empty]
    rfl
  · rw [m2, mean_of_constant empty constant, deviation]
    apply List.sum_eq_zero
    intro square member
    obtain ⟨other, found, rfl⟩ := List.mem_map.mp member
    rw [constant other found, sub_self, zero_mul]

section Merge

variable [CharZero K]

theorem length_mul_mean (sample : List K) : sample.length * mean sample = sample.sum := by
  by_cases empty : sample = []
  · simp [empty]
  · have size : (sample.length : K) ≠ 0 :=
      Nat.cast_ne_zero.mpr fun zero => empty (List.length_eq_zero_iff.mp zero)
    rw [mean]
    field_simp

/-- Around the mean the linear term vanishes. -/
theorem deviation_eq (point : K) (sample : List K) :
    deviation point sample =
      m2 sample + sample.length * ((mean sample - point) * (mean sample - point)) := by
  rw [deviation_expand (mean sample) point, length_mul_mean, m2]
  ring

/-- The merge of the parts' squared deviations. -/
theorem m2_flatten (parts : List (List K)) :
    m2 parts.flatten = (parts.map m2).sum +
      (parts.map fun part => part.length * ((mean part - mean parts.flatten) *
        (mean part - mean parts.flatten))).sum := by
  rw [m2, deviation_flatten, ← List.sum_map_add]
  congr 1
  exact List.map_congr_left fun part _ => deviation_eq _ part

/-- The merge of the parts' means, relative to a reference point. -/
theorem mean_flatten (reference : K) {parts : List (List K)} (nonempty : parts.flatten ≠ []) :
    mean parts.flatten = reference +
      (parts.map fun part => part.length * (mean part - reference)).sum /
        (parts.map fun part => (part.length : K)).sum := by
  have total : ∀ parts : List (List K),
      (parts.map fun part => part.length * (mean part - reference)).sum =
        parts.flatten.sum - parts.flatten.length * reference := by
    intro parts
    induction parts with
    | nil => simp
    | cons part parts ih =>
        rw [List.map_cons, List.sum_cons, ih, mul_sub, length_mul_mean, List.flatten_cons,
          List.sum_append, List.length_append]
        push_cast
        ring
  have count : (parts.map fun part => (part.length : K)).sum = parts.flatten.length := by
    rw [List.length_flatten, Nat.cast_list_sum, List.map_map]
    rfl
  have size : (parts.flatten.length : K) ≠ 0 :=
    Nat.cast_ne_zero.mpr fun zero => nonempty (List.length_eq_zero_iff.mp zero)
  rw [total, count, mean]
  field_simp
  ring

end Merge

end LakehouseEngine.Moments
