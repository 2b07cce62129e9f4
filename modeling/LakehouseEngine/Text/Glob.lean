import Mathlib.Data.List.Forall2

/-!
# Glob patterns

Two marks of a pattern are special: one takes any run of items and the other any single item.
Every other mark takes itself.  A text matches when it can be cut into as many pieces as the
pattern has marks, each taken by its own mark.
-/

namespace LakehouseEngine.Glob

variable {α : Type*} (run one : α)

/-- What a mark takes. -/
inductive Takes : α → List α → Prop where
  | run (piece : List α) : Takes run piece
  | one (item : α) : Takes one [item]
  | self {mark : α} : mark ≠ run → mark ≠ one → Takes mark [mark]

/-- The text splits along the marks. -/
def Matches (pattern text : List α) : Prop :=
  ∃ pieces : List (List α), pieces.flatten = text ∧ List.Forall₂ (Takes run one) pattern pieces

variable {run one} {mark : α} {pattern text : List α}

@[simp] theorem matches_nil_left : Matches run one [] text ↔ text = [] := by
  constructor
  · rintro ⟨pieces, rfl, taken⟩
    cases taken
    rfl
  · rintro rfl
    exact ⟨[], rfl, .nil⟩

theorem matches_cons : Matches run one (mark :: pattern) text ↔
    ∃ piece rest, piece ++ rest = text ∧ Takes run one mark piece ∧
      Matches run one pattern rest := by
  constructor
  · rintro ⟨pieces, rfl, taken⟩
    obtain ⟨piece, others, first, rest, rfl⟩ := List.forall₂_cons_left_iff.mp taken
    exact ⟨piece, others.flatten, rfl, first, others, rfl, rest⟩
  · rintro ⟨piece, rest, rfl, first, others, rfl, taken⟩
    exact ⟨piece :: others, rfl, .cons first taken⟩

/-- A run takes what it likes. -/
theorem matches_run : Matches run one (run :: pattern) text ↔
    ∃ k, k ≤ text.length ∧ Matches run one pattern (text.drop k) := by
  rw [matches_cons]
  constructor
  · rintro ⟨piece, rest, rfl, -, matched⟩
    exact ⟨piece.length, by simp, by simpa using matched⟩
  · rintro ⟨k, inside, matched⟩
    exact ⟨text.take k, text.drop k, List.take_append_drop k text, .run _, matched⟩

/-- Any other mark takes one item. -/
theorem matches_solid (solid : mark ≠ run) : Matches run one (mark :: pattern) text ↔
    ∃ item rest, text = item :: rest ∧ (mark = one ∨ mark = item) ∧
      Matches run one pattern rest := by
  rw [matches_cons]
  constructor
  · rintro ⟨piece, rest, rfl, taken, matched⟩
    cases taken with
    | run => exact absurd rfl solid
    | one item => exact ⟨item, rest, rfl, .inl rfl, matched⟩
    | self => exact ⟨mark, rest, rfl, .inr rfl, matched⟩
  · rintro ⟨item, rest, rfl, taken, matched⟩
    refine ⟨[item], rest, rfl, ?_, matched⟩
    by_cases single : mark = one
    · subst single
      exact .one item
    · obtain rfl := taken.resolve_left single
      exact .self solid single

/-- Only runs match the end of a text. -/
theorem matches_nil_right : Matches run one pattern [] ↔ ∀ mark ∈ pattern, mark = run := by
  induction pattern with
  | nil => simp
  | cons mark pattern ih =>
      by_cases isRun : mark = run
      · subst isRun
        simp [matches_run, ih]
      · simp [matches_solid isRun, isRun]

/-- Marks other than runs take as many items as there are of them. -/
theorem drop_of_matches_solid {solid : List α} (none : ∀ mark ∈ solid, mark ≠ run)
    (matched : Matches run one (solid ++ pattern) text) :
    solid.length ≤ text.length ∧ Matches run one pattern (text.drop solid.length) := by
  induction solid generalizing text with
  | nil => exact ⟨Nat.zero_le _, matched⟩
  | cons mark solid ih =>
      obtain ⟨item, rest, rfl, -, later⟩ :=
        (matches_solid (none mark List.mem_cons_self)).mp matched
      obtain ⟨fits, tail⟩ :=
        ih (fun other member => none other (List.mem_cons_of_mem _ member)) later
      exact ⟨Nat.succ_le_succ fits, tail⟩

end LakehouseEngine.Glob
