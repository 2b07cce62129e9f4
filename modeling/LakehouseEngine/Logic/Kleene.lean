import Mathlib.Data.List.Basic
import Mathlib.Tactic.Common

/-!
# Three-valued logic

SQL evaluates a condition to TRUE, FALSE or NULL.  The connectives are Kleene's
strong ones, and a junction over a list folds them.  Nothing here depends on what
the atoms of a condition are, so the same rules serve every evaluator of the
development.
-/

namespace LakehouseEngine

/-- An SQL truth value.  `none` is NULL. -/
abbrev Truth := Option Bool

namespace Truth

/-- Kleene conjunction: a FALSE operand decides, TRUE is neutral. -/
def and : Truth → Truth → Truth
  | some false, _ => some false
  | some true, right => right
  | none, some false => some false
  | none, _ => none

/-- Kleene disjunction: a TRUE operand decides, FALSE is neutral. -/
def or : Truth → Truth → Truth
  | some true, _ => some true
  | some false, right => right
  | none, some true => some true
  | none, _ => none

/-- Negation leaves NULL unchanged. -/
def not : Truth → Truth
  | some value => some (!value)
  | none => none

/-- The conjunction of a list.  The empty one is TRUE. -/
def all (values : List Truth) : Truth := values.foldr and (some true)

/-- The disjunction of a list.  The empty one is FALSE. -/
def any (values : List Truth) : Truth := values.foldr or (some false)

@[simp] theorem not_not (value : Truth) : not (not value) = value := by
  cases value <;> simp [not]

@[simp] theorem and_true (value : Truth) : and value (some true) = value := by
  rcases value with _ | _ | _ <;> rfl

@[simp] theorem true_and (value : Truth) : and (some true) value = value := rfl

@[simp] theorem or_false (value : Truth) : or value (some false) = value := by
  rcases value with _ | _ | _ <;> rfl

@[simp] theorem false_or (value : Truth) : or (some false) value = value := rfl

@[simp] theorem and_self (value : Truth) : and value value = value := by
  rcases value with _ | _ | _ <;> rfl

@[simp] theorem or_self (value : Truth) : or value value = value := by
  rcases value with _ | _ | _ <;> rfl

theorem and_assoc (first second third : Truth) :
    and (and first second) third = and first (and second third) := by
  rcases first with _ | _ | _ <;> rcases second with _ | _ | _ <;>
    rcases third with _ | _ | _ <;> rfl

theorem or_assoc (first second third : Truth) :
    or (or first second) third = or first (or second third) := by
  rcases first with _ | _ | _ <;> rcases second with _ | _ | _ <;>
    rcases third with _ | _ | _ <;> rfl

theorem not_and (left right : Truth) : not (and left right) = or (not left) (not right) := by
  rcases left with _ | _ | _ <;> rcases right with _ | _ | _ <;> rfl

theorem not_or (left right : Truth) : not (or left right) = and (not left) (not right) := by
  rcases left with _ | _ | _ <;> rcases right with _ | _ | _ <;> rfl

variable {left right : Truth}

@[simp] theorem and_eq_true :
    and left right = some true ↔ left = some true ∧ right = some true := by
  rcases left with _ | _ | _ <;> rcases right with _ | _ | _ <;> simp [and]

@[simp] theorem and_eq_false :
    and left right = some false ↔ left = some false ∨ right = some false := by
  rcases left with _ | _ | _ <;> rcases right with _ | _ | _ <;> simp [and]

@[simp] theorem or_eq_true :
    or left right = some true ↔ left = some true ∨ right = some true := by
  rcases left with _ | _ | _ <;> rcases right with _ | _ | _ <;> simp [or]

@[simp] theorem or_eq_false :
    or left right = some false ↔ left = some false ∧ right = some false := by
  rcases left with _ | _ | _ <;> rcases right with _ | _ | _ <;> simp [or]

@[simp] theorem not_eq_true {value : Truth} : not value = some true ↔ value = some false := by
  rcases value with _ | _ | _ <;> simp [not]

@[simp] theorem not_eq_false {value : Truth} : not value = some false ↔ value = some true := by
  rcases value with _ | _ | _ <;> simp [not]

@[simp] theorem all_nil : all [] = some true := rfl

@[simp] theorem all_cons (value : Truth) (values : List Truth) :
    all (value :: values) = and value (all values) := rfl

@[simp] theorem any_nil : any [] = some false := rfl

@[simp] theorem any_cons (value : Truth) (values : List Truth) :
    any (value :: values) = or value (any values) := rfl

theorem all_eq_true {values : List Truth} :
    all values = some true ↔ ∀ value ∈ values, value = some true := by
  induction values with
  | nil => simp
  | cons value values ih => simp [ih]

theorem any_eq_true {values : List Truth} :
    any values = some true ↔ some true ∈ values := by
  induction values with
  | nil => simp
  | cons value values ih =>
      simp only [any_cons, or_eq_true, ih, List.mem_cons, @eq_comm _ value]

theorem any_eq_false {values : List Truth} :
    any values = some false ↔ ∀ value ∈ values, value = some false := by
  induction values with
  | nil => simp
  | cons value values ih => simp [ih]

theorem and_ne_none (leftKnown : left ≠ none) (rightKnown : right ≠ none) :
    and left right ≠ none := by
  match left, right with
  | none, _ => exact absurd rfl leftKnown
  | _, none => exact absurd rfl rightKnown
  | some true, some _ | some false, some _ => simp [and]

theorem any_ne_none {values : List Truth} (known : ∀ value ∈ values, value ≠ none) :
    any values ≠ none := by
  intro unknown
  have notFalse : any values ≠ some false := by simp [unknown]
  rw [Ne, any_eq_false] at notFalse
  apply notFalse
  intro value member
  match value, known value member with
  | some false, _ => rfl
  | some true, _ => simp [any_eq_true.mpr member] at unknown

/-- Two known truth values agree when they are TRUE together. -/
theorem eq_of_true_iff (leftKnown : left ≠ none) (rightKnown : right ≠ none)
    (same : left = some true ↔ right = some true) : left = right := by
  match left, right with
  | none, _ => exact absurd rfl leftKnown
  | _, none => exact absurd rfl rightKnown
  | some true, some true | some false, some false => rfl
  | some true, some false | some false, some true => simp at same

/-- De Morgan's law for a list of disjuncts. -/
theorem not_any (values : List Truth) : not (any values) = all (values.map not) := by
  induction values with
  | nil => rfl
  | cons value values ih => simp [not_or, ih]

/-! A truth value that knows what another one knows. -/

/-- Where the first value is TRUE or FALSE, so is the second. -/
def Refines (left right : Truth) : Prop := ∀ value, left = some value → right = some value

theorem Refines.refl (value : Truth) : Refines value value := fun _ same => same

theorem Refines.not (refines : Refines left right) :
    Refines left.not right.not := by
  intro value known
  cases value with
  | true => exact not_eq_true.mpr (refines false (not_eq_true.mp known))
  | false => exact not_eq_false.mpr (refines true (not_eq_false.mp known))

theorem Refines.and {first second : Truth} (one : Refines first left)
    (two : Refines second right) : Refines (first.and second) (left.and right) := by
  intro value known
  cases value with
  | true =>
      obtain ⟨firstTrue, secondTrue⟩ := and_eq_true.mp known
      exact and_eq_true.mpr ⟨one true firstTrue, two true secondTrue⟩
  | false => exact and_eq_false.mpr ((and_eq_false.mp known).imp (one false) (two false))

theorem Refines.all {α : Type*} {items : List α} {before after : α → Truth}
    (refines : ∀ item ∈ items, Refines (before item) (after item)) :
    Refines (Truth.all (items.map before)) (Truth.all (items.map after)) := by
  induction items with
  | nil => exact .refl _
  | cons item items ih =>
      obtain ⟨head, rest⟩ := List.forall_mem_cons.mp refines
      exact head.and (ih rest)

theorem Refines.any {α : Type*} {items : List α} {before after : α → Truth}
    (refines : ∀ item ∈ items, Refines (before item) (after item)) :
    Refines (Truth.any (items.map before)) (Truth.any (items.map after)) := by
  have negated := Refines.not (Refines.all fun item member => (refines item member).not)
  have folded (value : α → Truth) :
      (Truth.all (items.map fun item => (value item).not)).not = Truth.any (items.map value) := by
    rw [← not_not (Truth.any (items.map value)), not_any, List.map_map]
    rfl
  rwa [folded, folded] at negated

end Truth

end LakehouseEngine
