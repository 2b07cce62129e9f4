import LakehouseEngine.Data.ListRelation
import Mathlib.Data.List.Forall2
import Mathlib.Data.List.Induction

/-!
# Computations that succeed

What each step of a fallible computation has returned, from its success, and the ways
a computation can end.
-/

namespace LakehouseEngine

universe u v

variable {ε : Type u} {α β : Type v}

theorem ok_bind (value : α) (next : α → Except ε β) : (Except.ok value >>= next) = next value := rfl

/-- Peel the first step off a computation that succeeds. -/
theorem exists_of_bind_ok {first : Except ε α} {next : α → Except ε β} {result : β}
    (run : (first >>= next) = .ok result) : ∃ value, first = .ok value ∧
      next value = .ok result := by
  cases first with
  | error error => cases run
  | ok value => exact ⟨value, rfl, run⟩

/-- A computation whose second step cannot fail succeeds exactly if its first step does. -/
theorem exists_bind_ok_iff {first : Except ε α} {next : α → Except ε β}
    (proceeds : ∀ value, first = .ok value → ∃ result, next value = .ok result) :
    (∃ result, (first >>= next) = .ok result) ↔ ∃ value, first = .ok value := by
  constructor
  · rintro ⟨result, run⟩
    obtain ⟨value, begun, -⟩ := exists_of_bind_ok run
    exact ⟨value, begun⟩
  · rintro ⟨value, begun⟩
    rw [begun, ok_bind]
    exact proceeds value begun

theorem exists_of_map_ok {run : Except ε α} {convert : α → β} {result : β}
    (mapped : run.map convert = .ok result) :
    ∃ value, run = .ok value ∧ convert value = result := by
  cases run with
  | error error => cases mapped
  | ok value => exact ⟨value, rfl, Except.ok.inj mapped⟩

/-- Success under a change of error and result is the success of the computation itself. -/
theorem relabelled_eq_ok {ε' : Type*} {run : Except ε α} {relabel : ε → ε'} {convert : α → β}
    {result : β} : (run.mapError relabel).map convert = .ok result ↔
      ∃ value, run = .ok value ∧ convert value = result := by
  cases run with
  | error error => simp [Except.mapError, Except.map]
  | ok value => simp [Except.mapError, Except.map]

/-- What each item of a loop adds to, the loop has for all of them. -/
theorem foldlM_invariant {σ : Type v} {holds : List α → σ → Prop} {step : σ → α → Except ε σ}
    {start result : σ} {items : List α} (initially : holds [] start)
    (keeps : ∀ done item rest state next, items = done ++ item :: rest → holds done state →
      step state item = .ok next → holds (done ++ [item]) next)
    (run : items.foldlM step start = .ok result) : holds items result := by
  induction items using List.reverseRecOn generalizing result with
  | nil =>
      cases run
      exact initially
  | append_singleton items item ih =>
      rw [List.foldlM_append] at run
      obtain ⟨before, run, last⟩ := exists_of_bind_ok run
      rw [List.foldlM_cons] at last
      obtain ⟨after, last, done⟩ := exists_of_bind_ok last
      cases done
      refine keeps items item [] before result rfl (ih ?_ run) last
      intro done other rest state next split
      exact keeps done other (rest ++ [item]) state next (by simp [split])

theorem foldlM_zipIdx_invariant {σ : Type v} {holds : List α → σ → Prop}
    {step : σ → α × ℕ → Except ε σ} {start result : σ} {items : List α} (initially : holds [] start)
    (keeps : ∀ done item rest state next, items = done ++ item :: rest → holds done state →
      step state (item, done.length) = .ok next → holds (done ++ [item]) next)
    (run : items.zipIdx.foldlM step start = .ok result) : holds items result := by
  have all := @foldlM_invariant _ _ _ (fun done state => holds (done.map Prod.fst) state) step start
    result items.zipIdx initially ?_ run
  · rwa [List.zipIdx_map_fst] at all
  · rintro done ⟨item, position⟩ rest state next split held stepped
    have items_eq : items = done.map Prod.fst ++ item :: rest.map Prod.fst := by
      rw [← List.zipIdx_map_fst 0 items, split]
      simp
    have here : done.length = position := by
      have found : items.zipIdx[done.length]? = some (item, position) := by simp [split]
      rw [List.getElem?_zipIdx] at found
      obtain ⟨other, -, same⟩ := Option.map_eq_some_iff.mp found
      simpa using congrArg Prod.snd same
    rw [List.map_append]
    apply keeps _ item _ state next items_eq held
    rw [List.length_map, here]
    exact stepped

variable {convert : α → Except ε β} {items : List α} {results : List β}

theorem mapM_eq_ok_iff :
    items.mapM convert = .ok results ↔
      List.Forall₂ (fun item result => convert item = .ok result) items results := by
  induction items generalizing results with
  | nil =>
      constructor
      · intro converted
        cases converted
        exact .nil
      · intro related
        cases related
        rfl
  | cons item items ih =>
      rw [List.mapM_cons]
      constructor
      · intro converted
        obtain ⟨first, head, converted⟩ := exists_of_bind_ok converted
        obtain ⟨others, rest, converted⟩ := exists_of_bind_ok converted
        cases converted
        exact .cons head (ih.mp rest)
      · intro related
        cases related with
        | cons head rest =>
            rw [head, ih.mpr rest]
            rfl

theorem mem_of_mapM_ok (converted : items.mapM convert = .ok results) (result : β) :
    result ∈ results ↔ ∃ item ∈ items, convert item = .ok result := by
  have each := mapM_eq_ok_iff.mp converted
  constructor
  · exact exists_related_of_mem each
  · rintro ⟨item, inside, ok⟩
    obtain ⟨other, member, same⟩ := exists_image_of_mem each inside
    rw [ok] at same
    cases same
    exact member

theorem exists_of_mapM_ok (converted : items.mapM convert = .ok results) :
    ∀ item ∈ items, ∃ result, convert item = .ok result := by
  intro item member
  obtain ⟨result, -, ok⟩ := exists_image_of_mem (mapM_eq_ok_iff.mp converted) member
  exact ⟨result, ok⟩

theorem map_of_mapM_ok {γ : Type*} (converted : items.mapM convert = .ok results) {before : α → γ}
    {after : β → γ} (agree : ∀ item result, convert item = .ok result →
      after result = before item) :
    results.map after = items.map before :=
  map_eq_of_forall₂ (mapM_eq_ok_iff.mp converted) fun item _ => agree item

theorem mapM_eq_ok_map {target : α → β} (each : ∀ item ∈ items, convert item = .ok (target item)) :
    items.mapM convert = .ok (items.map target) :=
  mapM_eq_ok_iff.mpr (List.forall₂_map_right_iff.mpr (List.forall₂_same.mpr each))

theorem exists_mapM_ok (each : ∀ item ∈ items, ∃ result, convert item = .ok result) :
    ∃ results, items.mapM convert = .ok results := by
  obtain ⟨results, all⟩ := exists_forall₂ each
  exact ⟨results, mapM_eq_ok_iff.mpr all⟩

theorem mapM_flatMap_eq_ok {γ : Type v} {convert : β → Except ε γ} {parts : α → List β}
    {results : List (List γ)} (converted : items.mapM (fun item => (parts item).mapM convert) =
      .ok results) :
    (items.flatMap parts).mapM convert = .ok results.flatten := by
  rw [mapM_eq_ok_iff] at converted ⊢
  induction converted with
  | nil => exact .nil
  | cons head rest ih =>
      rw [List.flatMap_cons, List.flatten_cons]
      exact List.rel_append (mapM_eq_ok_iff.mp head) ih

/-- Converting the items that pass a test gives the results that pass the same test. -/
theorem mapM_filter_eq_ok
    (converted : items.mapM convert = .ok results) {before : α → Bool} {after : β → Bool}
    (agree : ∀ item result, convert item = .ok result → after result = before item) :
    (items.filter before).mapM convert = .ok (results.filter after) := by
  rw [mapM_eq_ok_iff] at converted ⊢
  induction converted with
  | nil => exact .nil
  | @cons item result items results head rest ih =>
      rw [List.filter_cons, List.filter_cons, agree item result head]
      split
      · exact .cons head ih
      · exact ih

/-- The computation gives a good result or fails in an allowed way. -/
def Ends (allowed : ε → Prop) (good : α → Prop) : Except ε α → Prop
  | .ok value => good value
  | .error failure => allowed failure

theorem Ends.imp {allowed wider : ε → Prop} {good better : α → Prop} {run : Except ε α}
    (ends : Ends allowed good run) (failures : ∀ failure, allowed failure → wider failure)
    (results : ∀ value, good value → better value) : Ends wider better run := by
  cases run with
  | error failure => exact failures failure ends
  | ok value => exact results value ends

theorem Ends.bind {allowed : ε → Prop} {good : α → Prop} {better : β → Prop} {first : Except ε α}
    {next : α → Except ε β} (begins : Ends allowed good first)
    (proceeds : ∀ value, good value → Ends allowed better (next value)) :
    Ends allowed better (first >>= next) := by
  cases first with
  | error failure => exact begins
  | ok value => exact proceeds value begins

/-- A loop in a loop with one state. -/
theorem foldlM_flatMap {α β σ ε : Type*} (step : σ → β → Except ε σ) (parts : α → List β)
    (items : List α)
    (state : σ) :
    (items.flatMap parts).foldlM step state =
      items.foldlM (fun state item => (parts item).foldlM step state) state := by
  induction items generalizing state with
  | nil => rfl
  | cons item items ih =>
      rw [List.flatMap_cons, List.foldlM_append, List.foldlM_cons]
      exact bind_congr fun next => ih next

end LakehouseEngine
