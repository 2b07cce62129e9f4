import LakehouseEngine.Numeric.Moments
import LakehouseEngine.Sql.Syntax
import Mathlib.Data.Rat.Cast.CharZero
import Mathlib.Data.List.MinMax

/-!
# Aggregates over exact numbers

The SQL aggregates over a column of exact numbers and NULLs.  Every aggregate skips
NULL, and all but the counts are NULL over no number at all.
-/

namespace LakehouseEngine

def Value.asNum : Value → Option ℚ
  | .num value => some value
  | _ => none

/-- A number or NULL. -/
def Value.IsExact (value : Value) : Prop := value = .null ∨ ∃ number, value = .num number

namespace Aggregate

/-- The numbers of a column. -/
def numbers (values : List Value) : List ℚ := values.filterMap Value.asNum

/-- NULL over no number. -/
def orNull (numbers : List ℚ) (result : ℚ) : Value := if numbers = [] then .null else .num result

def count (values : List Value) : Value := .num (values.filter fun value => !value.isNull).length

def sum (values : List Value) : Value := orNull (numbers values) (numbers values).sum

def min (values : List Value) : Value := orNull (numbers values) ((numbers values).min?.getD 0)

def max (values : List Value) : Value := orNull (numbers values) ((numbers values).max?.getD 0)

def avg (values : List Value) : Value := orNull (numbers values) (Moments.mean (numbers values))

def varPop (values : List Value) : Value :=
  orNull (numbers values) (Moments.m2 (numbers values) / (numbers values).length)

/-- NULL below two numbers. -/
def varSamp (values : List Value) : Value :=
  if (numbers values).length ≤ 1 then .null
  else .num (Moments.m2 (numbers values) / ((numbers values).length - 1))

/-- As `varSamp`, but 0 for a single number. -/
def variance (values : List Value) : Value :=
  if (numbers values).length = 1 then .num 0 else varSamp values

/-- The aggregates the plans call by name. -/
def named : String → Option (List Value → Value)
  | "COUNT" => some count
  | "SUM" => some sum
  | "MIN" => some min
  | "MAX" => some max
  | "AVG" => some avg
  | "VAR_POP" => some varPop
  | _ => none

@[simp] theorem numbers_nil : numbers [] = [] := rfl

theorem numbers_append (left right : List Value) :
    numbers (left ++ right) = numbers left ++ numbers right :=
  List.filterMap_append

theorem numbers_flatten (parts : List (List Value)) :
    numbers parts.flatten = (parts.map numbers).flatten := by
  induction parts with
  | nil => rfl
  | cons part parts ih => simp [numbers_append, ih]

theorem numbers_perm {left right : List Value} (perm : left.Perm right) :
    (numbers left).Perm (numbers right) :=
  perm.filterMap _

/-- Over exact values the count is the number of numbers. -/
theorem count_eq {values : List Value} (exact : ∀ value ∈ values, value.IsExact) :
    count values = .num (numbers values).length := by
  have length : (values.filter fun value => !value.isNull).length = (numbers values).length := by
    induction values with
    | nil => rfl
    | cons value values ih =>
        have rest := ih fun other member => exact other (List.mem_cons_of_mem value member)
        rcases exact value List.mem_cons_self with rfl | ⟨number, rfl⟩
        · exact rest
        · simpa [numbers, Value.asNum, Value.isNull] using rest
  rw [count, length]

/-- A function picks the first number in an order, if there is a number. -/
structure Extreme (pick : List ℚ → Option ℚ) (below : ℚ → ℚ → Prop) : Prop where
  none_iff : ∀ {numbers}, pick numbers = none ↔ numbers = []
  some_iff : ∀ {numbers value}, pick numbers = some value ↔
    value ∈ numbers ∧ ∀ other ∈ numbers, below value other
  trans : ∀ {first second third}, below first second → below second third → below first third

theorem minimum : Extreme List.min? (· ≤ ·) :=
  ⟨List.min?_eq_none_iff, List.min?_eq_some_iff, le_trans⟩

theorem maximum : Extreme List.max? (· ≥ ·) :=
  ⟨List.max?_eq_none_iff, List.max?_eq_some_iff, ge_trans⟩

section Extreme

variable {pick : List ℚ → Option ℚ} {below : ℚ → ℚ → Prop} (extreme : Extreme pick below)
include extreme

theorem Extreme.mem {numbers : List ℚ} (nonempty : numbers ≠ []) :
    (pick numbers).getD 0 ∈ numbers ∧ ∀ other ∈ numbers, below ((pick numbers).getD 0) other := by
  cases found : pick numbers with
  | none => exact absurd (extreme.none_iff.mp found) nonempty
  | some value => exact extreme.some_iff.mp found

theorem Extreme.perm {left right : List ℚ} (perm : left.Perm right) : pick left = pick right := by
  cases found : pick right with
  | none =>
      rw [extreme.none_iff] at found ⊢
      exact (found ▸ perm).eq_nil
  | some value =>
      rw [extreme.some_iff] at found ⊢
      exact ⟨perm.mem_iff.mpr found.1, fun other member => found.2 other (perm.mem_iff.mp member)⟩

end Extreme

/-- Only a constant column has equal extremes. -/
theorem constant_of_min_eq_max {numbers : List ℚ} (nonempty : numbers ≠ [])
    (same : numbers.min?.getD 0 = numbers.max?.getD 0) :
    ∀ other ∈ numbers, other = numbers.min?.getD 0 := by
  intro other member
  refine le_antisymm ?_ ((minimum.mem nonempty).2 other member)
  rw [same]
  exact (maximum.mem nonempty).2 other member

/-! ### A column split into parts -/

/-- The parts that hold a number. -/
def present (parts : List (List ℚ)) : List (List ℚ) := parts.filter fun part => !part.isEmpty

theorem flatten_present (parts : List (List ℚ)) : (present parts).flatten = parts.flatten :=
  List.flatten_filter_not_isEmpty

theorem present_ne_nil {parts : List (List ℚ)} : present parts ≠ [] ↔ parts.flatten ≠ [] := by
  simp only [ne_eq, present, List.filter_eq_nil_iff, List.flatten_eq_nil_iff, Bool.not_eq_true',
    List.isEmpty_eq_false_iff, not_not]

theorem ne_nil_of_mem_present {parts : List (List ℚ)} {part : List ℚ}
    (member : part ∈ present parts) : part ≠ [] := by
  simpa using (List.mem_filter.mp member).2

theorem numbers_orNull (parts : List (List ℚ)) (result : List ℚ → ℚ) :
    numbers (parts.map fun part => orNull part (result part)) = (present parts).map result := by
  induction parts with
  | nil => rfl
  | cons part parts ih =>
      cases part with
      | nil => exact ih
      | cons number part => simpa [numbers, orNull, present, Value.asNum] using ih

theorem orNull_present (parts : List (List ℚ)) (image : List ℚ → ℚ) (result : ℚ) :
    orNull ((present parts).map image) result = orNull parts.flatten result := by
  have empty : (present parts).map image = [] ↔ parts.flatten = [] := by
    rw [List.map_eq_nil_iff, ← not_iff_not]
    exact present_ne_nil
  simp only [orNull, empty]

/-- The parts' sums add up, and a part without a number does not count. -/
theorem sum_orNull (parts : List (List ℚ)) (result : List ℚ → ℚ) :
    sum (parts.map fun part => orNull part (result part)) =
      orNull parts.flatten ((present parts).map result).sum := by
  rw [sum, numbers_orNull, orNull_present]

theorem sum_counts {α : Type*} {parts : List (List α)} (nonempty : parts ≠ []) :
    sum (parts.map fun part => .num part.length) = .num parts.flatten.length := by
  have all : numbers (parts.map fun part => .num part.length) =
      parts.map fun part => (part.length : ℚ) := by
    induction parts with
    | nil => rfl
    | cons part parts ih =>
        cases parts with
        | nil => rfl
        | cons next parts => simpa [numbers, Value.asNum] using ih (by simp)
  rw [sum, all, orNull, if_neg (by simpa using nonempty), List.length_flatten, Nat.cast_list_sum,
    List.map_map]
  rfl

theorem sum_sums (parts : List (List ℚ)) :
    sum (parts.map fun part => orNull part part.sum) = orNull parts.flatten parts.flatten.sum := by
  rw [sum_orNull, ← List.sum_flatten, flatten_present]

/-- The extreme of the parts' extremes is the extreme of the whole. -/
theorem Extreme.flatten {pick : List ℚ → Option ℚ} {below : ℚ → ℚ → Prop}
    (extreme : Extreme pick below)
    (parts : List (List ℚ)) :
    orNull (numbers (parts.map fun part => orNull part ((pick part).getD 0)))
        ((pick (numbers (parts.map fun part => orNull part ((pick part).getD 0)))).getD 0) =
      orNull parts.flatten ((pick parts.flatten).getD 0) := by
  rw [numbers_orNull, orNull_present]
  by_cases empty : parts.flatten = []
  · rw [orNull, orNull, if_pos empty, if_pos empty]
  · have images : (present parts).map (fun part => (pick part).getD 0) ≠ [] := by
      simpa using present_ne_nil.mpr empty
    have whole : pick parts.flatten =
        some ((pick ((present parts).map fun part => (pick part).getD 0)).getD 0) := by
      rw [extreme.some_iff, ← flatten_present]
      obtain ⟨found, bound⟩ := extreme.mem images
      obtain ⟨part, member, same⟩ := List.mem_map.mp found
      refine ⟨List.mem_flatten.mpr ⟨part, member, ?_⟩, ?_⟩
      · rw [← same]
        exact (extreme.mem (ne_nil_of_mem_present member)).1
      · intro other otherMember
        obtain ⟨home, homeMember, inside⟩ := List.mem_flatten.mp otherMember
        exact extreme.trans (bound _ (List.mem_map_of_mem homeMember))
          ((extreme.mem (ne_nil_of_mem_present homeMember)).2 other inside)
    rw [whole]
    rfl

end Aggregate

/-- The square root of a number, for any function taken as the square root. -/
def Value.sqrt (root : ℚ → ℚ) : Value → Value
  | .num value => .num (root value)
  | _ => .null

/-- Exact arithmetic.  The square root stays open, and a division by zero, which is an
error in SQL, is a value that no aggregate has. -/
def exactEngine (root : ℚ → ℚ) : Engine where
  number text := ((Text.numeralValue text.toList).map Value.num).getD .null
  typed _ _ := .null
  hex _ := .null
  word _ := .null
  mixed _ _ := none
  negate
    | .num value => .num (-value)
    | _ => .null
  arithmetic
    | .add, .num left, .num right => .num (left + right)
    | .subtract, .num left, .num right => .num (left - right)
    | .multiply, .num left, .num right => .num (left * right)
    | .divide, .num left, .num right => if right = 0 then .infinite true else .num (left / right)
    | _, _, _ => .null
  like _ _ _ := .null
  call
    | "NULLIF", [left, right] => if left = right then .null else left
    | "SQRT", [value] => value.sqrt root
    | _, _ => .null
  cast _ value := value
  extract _ _ := .null

theorem exactEngine_number (root : ℚ → ℚ) {text : String} {value : ℚ}
    (written : Text.numeralValue text.toList = some value) :
    (exactEngine root).number text = .num value := by
  simp [exactEngine, written]

/-- The scope of an expression that a query evaluates once over many rows. -/
def overRows (engine : Engine) (rows : List Scope) : Scope where
  column _ _ := .null
  aggregate name arguments :=
    match Aggregate.named name, arguments with
    | some aggregate, [argument] => some (aggregate (rows.map fun row => argument.eval engine row))
    | _, _ => none
  countStar := .num rows.length

/-- The scope of an expression in one row that also aggregates over a window of rows. -/
def overWindow (engine : Engine) (rows : List Scope) (row : Scope) : Scope :=
  { row with aggregate := (overRows engine rows).aggregate }

end LakehouseEngine
