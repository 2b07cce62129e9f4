import Mathlib.Data.List.Basic

/-!
# Tasks over a shared state

Any number of tasks take turns, in any order.  An invariant of the shared state and one of
each task hold over every run if a task keeps both for itself and does not break the
invariant of another task.
-/

namespace LakehouseEngine

/-- What a task does in one turn, from what it is given. -/
structure Machine (Shared Task Input : Type*) where
  step : Shared → Task → Input → Shared × Task

structure Configuration (Shared Task : Type*) where
  shared : Shared
  tasks : List Task

namespace Machine

variable {Shared Task Input : Type*}

/-- The turn of the task at a position; a position without a task does nothing. -/
def turn (machine : Machine Shared Task Input) (state : Configuration Shared Task)
    (choice : ℕ × Input) : Configuration Shared Task :=
  match state.tasks[choice.1]? with
  | none => state
  | some task =>
      let (shared, next) := machine.step state.shared task choice.2
      { shared, tasks := state.tasks.set choice.1 next }

def run (machine : Machine Shared Task Input) (state : Configuration Shared Task)
    (choices : List (ℕ × Input)) : Configuration Shared Task :=
  choices.foldl machine.turn state

theorem turn_of_task {machine : Machine Shared Task Input} {state : Configuration Shared Task}
    {position : ℕ} {task : Task} (here : state.tasks[position]? = some task) (input : Input) :
    machine.turn state (position, input) =
      { shared := (machine.step state.shared task input).1
        tasks := state.tasks.set position (machine.step state.shared task input).2 } := by
  simp [turn, here]

/-- What every task keeps of the shared state, and every task of itself and of the others. -/
structure Keeps (machine : Machine Shared Task Input) (Safe : Shared → Prop)
    (Fits : Shared → Task → Prop) : Prop where
  safe : ∀ shared task input, Safe shared → Fits shared task →
    Safe (machine.step shared task input).1
  own : ∀ shared task input, Safe shared → Fits shared task →
    Fits (machine.step shared task input).1 (machine.step shared task input).2
  other : ∀ shared task input other, Safe shared → Fits shared task → Fits shared other →
    Fits (machine.step shared task input).1 other

variable {machine : Machine Shared Task Input} {Safe : Shared → Prop} {Fits : Shared → Task → Prop}

theorem Keeps.turn (keeps : machine.Keeps Safe Fits) {state : Configuration Shared Task}
    (safe : Safe state.shared) (fits : ∀ task ∈ state.tasks, Fits state.shared task)
    (choice : ℕ × Input) :
    Safe (machine.turn state choice).shared ∧
      ∀ task ∈ (machine.turn state choice).tasks, Fits (machine.turn state choice).shared task := by
  obtain ⟨position, input⟩ := choice
  cases here : state.tasks[position]? with
  | none =>
      have same : machine.turn state (position, input) = state := by simp [Machine.turn, here]
      rw [same]
      exact ⟨safe, fits⟩
  | some task =>
      have known := fits task (List.mem_of_getElem? here)
      rw [turn_of_task here]
      refine ⟨keeps.safe _ _ _ safe known, ?_⟩
      intro other member
      rcases List.mem_or_eq_of_mem_set member with member | rfl
      · exact keeps.other _ _ _ _ safe known (fits other member)
      · exact keeps.own _ _ _ safe known

theorem Keeps.run (keeps : machine.Keeps Safe Fits) {state : Configuration Shared Task}
    (safe : Safe state.shared) (fits : ∀ task ∈ state.tasks, Fits state.shared task)
    (choices : List (ℕ × Input)) :
    Safe (machine.run state choices).shared ∧
      ∀ task ∈ (machine.run state choices).tasks, Fits (machine.run state choices).shared task := by
  induction choices generalizing state with
  | nil => exact ⟨safe, fits⟩
  | cons choice choices ih =>
      obtain ⟨safe, fits⟩ := keeps.turn safe fits choice
      exact ih safe fits

end Machine

end LakehouseEngine
