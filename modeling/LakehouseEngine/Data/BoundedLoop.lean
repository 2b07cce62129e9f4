import Mathlib.Data.List.Basic

/-!
# Loops that stop after a bound

A step either goes on with a new state or returns.  Past its bound it returns, so a run always
ends.  What a run did is kept as the list of its states and what happened at each.
-/

namespace LakehouseEngine

structure BoundedLoop (σ ε ρ : Type*) where
  /-- What happens at a round in a state, and whether the loop goes on. -/
  step : ℕ → σ → ε × (σ ⊕ ρ)
  bound : ℕ
  stops : ∀ round state, bound ≤ round → ∃ result, (step round state).2 = .inr result

namespace BoundedLoop

variable {σ ε ρ : Type*} (loop : BoundedLoop σ ε ρ)

theorem lt_bound_of_continues {round : ℕ} {state next : σ} {event : ε}
    (continues : loop.step round state = (event, .inl next)) : round < loop.bound := by
  by_contra past
  obtain ⟨result, stopped⟩ := loop.stops round state (Nat.le_of_not_lt past)
  rw [continues] at stopped
  cases stopped

def run (round : ℕ) (state : σ) : List (σ × ε) × ρ :=
  match taken : loop.step round state with
  | (event, .inr result) => ([(state, event)], result)
  | (event, .inl next) =>
      let rest := run (round + 1) next
      ((state, event) :: rest.1, rest.2)
termination_by loop.bound - round
decreasing_by
  have below := loop.lt_bound_of_continues taken
  omega

/-- The runs of a loop from a round on. -/
inductive Runs : ℕ → σ → List (σ × ε) → ρ → Prop where
  | returns {round : ℕ} {state : σ} {event : ε} {result : ρ} :
      loop.step round state = (event, .inr result) → Runs round state [(state, event)] result
  | continues {round : ℕ} {state next : σ} {event : ε} {log : List (σ × ε)} {result : ρ} :
      loop.step round state = (event, .inl next) → Runs (round + 1) next log result →
        Runs round state ((state, event) :: log) result

theorem runs_run (round : ℕ) (state : σ) :
    loop.Runs round state (loop.run round state).1 (loop.run round state).2 := by
  induction round, state using run.induct loop with
  | case1 round state event result taken =>
      rw [run]
      split
      · next other otherResult again =>
          rw [taken] at again
          cases again
          exact .returns taken
      · next other next again =>
          rw [taken] at again
          cases again
  | case2 round state event next taken ih =>
      rw [run]
      split
      · next other result again =>
          rw [taken] at again
          cases again
      · next other following again =>
          rw [taken] at again
          cases again
          exact .continues taken ih

variable {loop} {round : ℕ} {state : σ} {log : List (σ × ε)} {result : ρ}

theorem Runs.length_le (runs : loop.Runs round state log result) :
    log.length ≤ loop.bound - round + 1 := by
  induction runs with
  | returns taken => simp
  | @continues round state next event log result taken rest ih =>
      have below := loop.lt_bound_of_continues taken
      rw [List.length_cons]
      omega

theorem Runs.head (runs : loop.Runs round state log result) :
    ∃ event rest, log = (state, event) :: rest := by
  cases runs with
  | returns taken => exact ⟨_, _, rfl⟩
  | continues taken rest => exact ⟨_, _, rfl⟩

/-- What happens at a round is what the step does there. -/
theorem Runs.event (runs : loop.Runs round state log result) {index : ℕ} {entry : σ × ε}
    (found : log[index]? = some entry) : (loop.step (round + index) entry.1).1 = entry.2 := by
  induction runs generalizing index with
  | @returns round state event result taken =>
      cases index with
      | zero =>
          obtain rfl := Option.some.inj found
          exact congrArg Prod.fst taken
      | succ index => cases found
  | @continues round state next event log result taken rest ih =>
      cases index with
      | zero =>
          obtain rfl := Option.some.inj found
          exact congrArg Prod.fst taken
      | succ index =>
          rw [Nat.add_succ, ← Nat.succ_add]
          exact ih found

/-- Between two rounds the step went on with the state of the second. -/
theorem Runs.continued (runs : loop.Runs round state log result) {index : ℕ}
    {entry following : σ × ε}
    (found : log[index]? = some entry) (foundNext : log[index + 1]? = some following) :
    loop.step (round + index) entry.1 = (entry.2, .inl following.1) := by
  induction runs generalizing index with
  | returns taken => cases foundNext
  | @continues round state next event log result taken rest ih =>
      cases index with
      | zero =>
          obtain rfl := Option.some.inj found
          obtain ⟨nextEvent, tail, rfl⟩ := rest.head
          obtain rfl := Option.some.inj foundNext
          exact taken
      | succ index =>
          rw [Nat.add_succ, ← Nat.succ_add]
          exact ih found foundNext

/-- The last round returned the result. -/
theorem Runs.last (runs : loop.Runs round state log result) :
    ∃ before entry, log = before ++ [entry] ∧
      loop.step (round + before.length) entry.1 = (entry.2, .inr result) := by
  induction runs with
  | @returns round state event result taken => exact ⟨[], _, rfl, taken⟩
  | @continues round state next event log result taken rest ih =>
      obtain ⟨before, entry, rfl, returned⟩ := ih
      refine ⟨(state, event) :: before, entry, rfl, ?_⟩
      rw [List.length_cons, Nat.add_succ, ← Nat.succ_add]
      exact returned

end BoundedLoop

end LakehouseEngine
