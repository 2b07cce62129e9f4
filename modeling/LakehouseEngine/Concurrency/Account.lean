import LakehouseEngine.Concurrency.Interleaving
import LakehouseEngine.Data.ListRelation
import Mathlib.Algebra.BigOperators.Group.List.Basic
import Mathlib.Algebra.GroupWithZero.Nat
import Mathlib.Algebra.Order.BigOperators.Group.List
import Mathlib.Algebra.Order.Group.Nat

/-!
# Tasks that draw on one account

A task grows and shrinks an amount that it shares with others.  If each task by itself takes
back no more than it has put in and ends holding what its result is worth, then the same is
true of all tasks together, in whatever order they take turns.
-/

namespace LakehouseEngine

/-- A program that may be refused a growth, with the error it then ends in. -/
inductive Drawing (ε α : Type) where
  | done (result : α)
  | failed (error : ε)
  | grow (amount : ℕ) (refused : ε) (next : Drawing ε α)
  | shrink (amount : ℕ) (next : Drawing ε α)

namespace Drawing

variable {ε α β : Type}

def andThen : Drawing ε α → (α → Drawing ε β) → Drawing ε β
  | done result, next => next result
  | failed error, _ => failed error
  | grow amount refused rest, next => grow amount refused (rest.andThen next)
  | shrink amount rest, next => shrink amount (rest.andThen next)

instance : Monad (Drawing ε) where
  pure := done
  bind := andThen

theorem andThen_assoc {γ : Type} (program : Drawing ε α) (first : α → Drawing ε β)
    (second : β → Drawing ε γ) :
    (program.andThen first).andThen second = program.andThen fun result =>
      (first result).andThen second := by
  induction program with
  | done result => rfl
  | failed error => rfl
  | grow amount refused program ih => exact congrArg (grow amount refused) ih
  | shrink amount program ih => exact congrArg (shrink amount) ih

theorem andThen_done (program : Drawing ε α) : program.andThen done = program := by
  induction program with
  | done result => rfl
  | failed error => rfl
  | grow amount refused program ih => exact congrArg (grow amount refused) ih
  | shrink amount program ih => exact congrArg (shrink amount) ih

instance : LawfulMonad (Drawing ε) :=
  LawfulMonad.mk' (Drawing ε) andThen_done (fun _ _ => rfl) andThen_assoc

def ofExcept : Except ε α → Drawing ε α
  | .ok result => done result
  | .error error => failed error

def result? : Drawing ε α → Option α
  | done result => some result
  | _ => none

/-- From the amount it holds, the program ends holding what its result is worth, and never
takes back more than it holds. -/
def Balances (worth : α → ℕ) : ℕ → Drawing ε α → Prop
  | held, done result => held = worth result
  | _, failed _ => True
  | held, grow amount _ next => next.Balances worth (held + amount)
  | held, shrink amount next => amount ≤ held ∧ next.Balances worth (held - amount)

section Rules

variable {worth : α → ℕ} {held : ℕ} {program : Drawing ε α}

theorem balances_pure (result : α) : Balances worth (worth result) (pure result : Drawing ε α) :=
  rfl

theorem balances_ofExcept {run : Except ε α} (each : ∀ result, run = .ok result →
    held = worth result) :
    Balances worth held (ofExcept run) := by
  cases run with
  | error error => trivial
  | ok result => exact each result rfl

theorem Balances.bind {between : α → ℕ} {worth : β → ℕ} {next : α → Drawing ε β}
    (first : Balances between held program)
    (rest : ∀ result, Balances worth (between result) (next result)) :
    Balances worth held (program >>= next) := by
  change Balances worth held (program.andThen next)
  induction program generalizing held with
  | done result =>
      obtain rfl : held = between result := first
      exact rest result
  | failed error => trivial
  | grow amount refused program ih => exact ih first
  | shrink amount program ih => exact ⟨first.1, ih first.2⟩

/-- What is held beside the program stays. -/
theorem Balances.frame (balances : Balances worth held program) (kept : ℕ) :
    Balances (fun result => worth result + kept) (held + kept) program := by
  induction program generalizing held with
  | done result => exact congrArg (· + kept) balances
  | failed error => trivial
  | grow amount refused program ih =>
      have rest := ih balances
      rwa [Nat.add_right_comm] at rest
  | shrink amount program ih =>
      refine ⟨balances.1.trans (Nat.le_add_right _ _), ?_⟩
      have rest := ih balances.2
      rwa [← Nat.sub_add_comm balances.1] at rest

theorem balances_foldlM {σ ι : Type} {worth : σ → ℕ} {step : σ → ι → Drawing ε σ}
    (each : ∀ state item, Balances worth (worth state) (step state item)) (items : List ι)
    (start : σ) :
    Balances worth (worth start) (items.foldlM step start) := by
  induction items generalizing start with
  | nil => exact balances_pure start
  | cons item items ih =>
      rw [List.foldlM_cons]
      exact (each start item).bind ih

theorem balances_mapM {ι : Type} {convert : ι → Drawing ε α}
    (each : ∀ item, Balances worth 0 (convert item))
    (items : List ι) : Balances (fun results => (results.map worth).sum) 0
      (items.mapM convert) := by
  induction items with
  | nil => exact rfl
  | cons item items ih =>
      rw [List.mapM_cons]
      refine (each item).bind fun result => ?_
      have rest := ih.frame (worth result)
      rw [Nat.zero_add] at rest
      refine rest.bind fun results => ?_
      exact (Nat.add_comm _ _).trans (List.sum_cons (a := worth result)).symm

theorem forall₂_balances_zero {tasks : List (Drawing ε α)}
    (each : ∀ task ∈ tasks, Balances worth 0 task) :
    List.Forall₂ (Balances worth) (List.replicate tasks.length 0) tasks := by
  induction tasks with
  | nil => exact .nil
  | cons task tasks ih =>
      obtain ⟨first, rest⟩ := List.forall_mem_cons.mp each
      exact .cons first (ih rest)

end Rules

/-! ## All tasks together -/

/-- A growth is granted or refused from outside. -/
def machine : Machine ℕ (Drawing ε α) Bool where
  step held task granted :=
    match task with
    | grow amount refused next => if granted then (held + amount, next) else (held, failed refused)
    | shrink amount next => (held - amount, next)
    | other => (held, other)

/-- The tasks hold the account above the base among themselves. -/
def Balanced (worth : α → ℕ) (base : ℕ) (state : Configuration ℕ (Drawing ε α)) : Prop :=
  ∃ helds, List.Forall₂ (Balances worth) helds state.tasks ∧ state.shared = base + helds.sum

variable {worth : α → ℕ} {base : ℕ} {state : Configuration ℕ (Drawing ε α)}

/-- One turn of a task that holds some amount beside the others. -/
theorem exists_step {held : ℕ} {task : Drawing ε α} (balances : Balances worth held task)
    (others : ℕ)
    (granted : Bool) :
    ∃ after, Balances worth after (machine.step (others + held) task granted).2 ∧
      (machine.step (others + held) task granted).1 = others + after := by
  cases task with
  | done result => exact ⟨held, balances, rfl⟩
  | failed error => exact ⟨held, trivial, rfl⟩
  | grow amount refused next =>
      cases granted with
      | true => exact ⟨held + amount, balances, Nat.add_assoc _ _ _⟩
      | false => exact ⟨held, trivial, rfl⟩
  | shrink amount next => exact ⟨held - amount, balances.2, Nat.add_sub_assoc balances.1 _⟩

theorem Balanced.turn (balanced : Balanced worth base state) (choice : ℕ × Bool) :
    Balanced worth base (machine.turn state choice) := by
  obtain ⟨position, granted⟩ := choice
  obtain ⟨shared, tasks⟩ := state
  cases here : tasks[position]? with
  | none =>
      have same : machine.turn ⟨shared, tasks⟩ (position, granted) = ⟨shared, tasks⟩ := by
        simp [Machine.turn, here]
      rwa [same]
  | some task =>
      obtain ⟨helds, each, total⟩ := balanced
      obtain ⟨before, after, rfl, rfl⟩ : ∃ before after, tasks = before ++ task :: after ∧
          before.length = position := by
        obtain ⟨inside, rfl⟩ := List.getElem?_eq_some_iff.mp here
        refine ⟨tasks.take position, tasks.drop (position + 1), ?_,
          List.length_take_of_le inside.le⟩
        rw [← List.drop_eq_getElem_cons inside, List.take_append_drop]
      obtain ⟨first, held, second, rfl, left, own, right⟩ := exists_split_of_forall₂ each.flip
      obtain ⟨next, balances, moved⟩ := exists_step own (base + (first.sum + second.sum)) granted
      have apart : shared = base + (first.sum + second.sum) + held := by
        refine total.trans ?_
        rw [List.sum_append, List.sum_cons]
        omega
      refine ⟨first ++ next :: second, ?_, ?_⟩
      · rw [Machine.turn_of_task here, apart]
        simp only [List.set_append_right _ _ (Nat.le_refl _), Nat.sub_self, List.set_cons_zero]
        exact List.rel_append left.flip (.cons balances right.flip)
      · rw [Machine.turn_of_task here, apart]
        simp only [moved, List.sum_append, List.sum_cons]
        omega

/-- The account is shared out at every moment of every run. -/
theorem Balanced.run (balanced : Balanced worth base state) (choices : List (ℕ × Bool)) :
    Balanced worth base (machine.run state choices) := by
  induction choices generalizing state with
  | nil => exact balanced
  | cons choice choices ih => exact ih (balanced.turn choice)

theorem Balanced.covers (balanced : Balanced worth base state) {amount : ℕ} {next : Drawing ε α}
    (member : shrink amount next ∈ state.tasks) : base + amount ≤ state.shared := by
  obtain ⟨helds, each, total⟩ := balanced
  obtain ⟨held, among, covered, -⟩ := exists_related_of_mem each member
  rw [total]
  exact Nat.add_le_add_left
    (covered.trans (List.single_le_sum (fun _ _ => Nat.zero_le _) held among)) base

/-- Once every task has its result, the account has grown by what the results are worth. -/
theorem Balanced.settled (balanced : Balanced worth base state) {results : List α}
    (finished : state.tasks.mapM result? = some results) :
    state.shared = base + (results.map worth).sum := by
  obtain ⟨helds, each, total⟩ := balanced
  have worths : List.Forall₂ (fun held result => held = worth result) helds results := by
    refine forall₂_trans each (forall₂_of_mapM finished) ?_
    intro held task result balances own
    cases task with
    | done value =>
        cases own
        exact balances
    | _ => cases own
  have same := List.forall₂_map_right_iff.mpr worths
  rw [List.forall₂_eq_eq_eq] at same
  rw [total, same]

end Drawing

end LakehouseEngine
