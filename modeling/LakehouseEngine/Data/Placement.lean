import Mathlib.Data.List.Induction
import Mathlib.Data.List.Nodup
import Mathlib.Data.List.Perm.Lattice
import Mathlib.Data.List.Perm.Subperm

/-!
# Rearranged lists

The items of one list stand in another, each at a place of its own.  Positions in the
first list are then places in the second, whatever the order or repetition in which
they are asked for.
-/

namespace LakehouseEngine

variable {α : Type*}

/-- `index` gives the place in `target` of each item of `source`. -/
structure Placement (source target : List α) (index : List ℕ) : Prop where
  sized : index.length = source.length
  total : target.length = source.length
  distinct : index.Nodup
  placed : ∀ (position : ℕ) (item : α), source[position]? = some item →
    ∃ place : ℕ, index[position]? = some place ∧ target[place]? = some item

namespace Placement

variable {source target : List α} {index : List ℕ}

theorem refl (source : List α) : Placement source source (List.range source.length) where
  sized := List.length_range
  total := rfl
  distinct := List.nodup_range
  placed position item found := by
    obtain ⟨inside, -⟩ := List.getElem?_eq_some_iff.mp found
    exact ⟨position, by simp [inside], found⟩

theorem exists_of_mem (placement : Placement source target index) {place : ℕ}
    (member : place ∈ index) :
    ∃ item, target[place]? = some item := by
  obtain ⟨position, inside, rfl⟩ := List.getElem_of_mem member
  rw [placement.sized] at inside
  obtain ⟨place, found, item⟩ := placement.placed position _ (List.getElem?_eq_getElem inside)
  obtain ⟨bound, rfl⟩ := List.getElem?_eq_some_iff.mp found
  exact ⟨_, item⟩

/-- Every place is taken once. -/
theorem perm (placement : Placement source target index) :
    index.Perm (List.range source.length) := by
  have inside : index ⊆ List.range source.length := by
    intro place member
    obtain ⟨item, found⟩ := placement.exists_of_mem member
    obtain ⟨bound, -⟩ := List.getElem?_eq_some_iff.mp found
    rw [placement.total] at bound
    exact List.mem_range.mpr bound
  apply (List.subperm_of_subset placement.distinct inside).perm_of_length_le
  exact Nat.le_of_eq (List.length_range.trans placement.sized.symm)

theorem mem_source (placement : Placement source target index) {item : α} (member : item ∈ target) :
    item ∈ source := by
  obtain ⟨place, inside, rfl⟩ := List.getElem_of_mem member
  rw [placement.total, ← List.mem_range, ← placement.perm.mem_iff] at inside
  obtain ⟨position, bound, found⟩ := List.getElem_of_mem inside
  have indexed : index[position]? = some place := by rw [List.getElem?_eq_getElem bound, found]
  rw [placement.sized] at bound
  obtain ⟨other, indexed', item⟩ := placement.placed position _ (List.getElem?_eq_getElem bound)
  cases indexed.symm.trans indexed'
  obtain ⟨_, same⟩ := List.getElem?_eq_some_iff.mp item
  rw [same]
  exact List.getElem_mem bound

/-- Asking for places gives what asking for positions gives. -/
theorem project (placement : Placement source target index) {positions : List ℕ}
    (inside : ∀ position ∈ positions, position < source.length) :
    ∃ places, positions.mapM (index[·]?) = some places ∧
      places.map (target[·]?) = positions.map (source[·]?) := by
  induction positions with
  | nil => exact ⟨[], rfl, rfl⟩
  | cons position positions ih =>
      obtain ⟨here, rest⟩ := List.forall_mem_cons.mp inside
      obtain ⟨places, mapped, same⟩ := ih rest
      have found := List.getElem?_eq_getElem here
      obtain ⟨place, indexed, item⟩ := placement.placed position _ found
      refine ⟨place :: places, ?_, ?_⟩
      · simp [List.mapM_cons, indexed, mapped]
      · simp only [List.map_cons, same, item, found]

end Placement

theorem nodup_concat_iff {items : List α} {last : α} :
    (items ++ [last]).Nodup ↔ last ∉ items ∧ items.Nodup := by
  rw [List.nodup_append_comm]
  exact List.nodup_cons

theorem getElem?_concat_eq_some {items : List α} {last item : α} {position : ℕ} :
    (items ++ [last])[position]? = some item ↔
      items[position]? = some item ∨ position = items.length ∧ last = item := by
  rw [List.getElem?_append]
  split
  · next inside =>
      constructor
      · exact .inl
      · rintro (found | ⟨rfl, -⟩)
        · exact found
        · exact absurd inside (Nat.lt_irrefl _)
  · next outside =>
      have none : items[position]? = none := List.getElem?_eq_none (Nat.le_of_not_lt outside)
      rw [none, List.getElem?_singleton]
      simp only [reduceCtorEq, false_or]
      split
      · next first =>
          have here : position = items.length := by omega
          simp [here]
      · next later =>
          have there : position ≠ items.length := by omega
          simp [there]

section Filter

variable (keep : α → Bool) {items : List α}

/-- An item that a filter keeps stands behind the kept ones before it. -/
theorem getElem?_filter_countP {position : ℕ} {item : α} (found : items[position]? = some item)
    (kept : keep item = true) :
    (items.filter keep)[(items.take position).countP keep]? = some item := by
  induction items generalizing position with
  | nil => cases found
  | cons head items ih =>
      cases position with
      | zero =>
          cases found
          simp [kept]
      | succ position =>
          rw [List.getElem?_cons_succ] at found
          rw [List.take_succ_cons, List.countP_cons, List.filter_cons]
          cases keep head with
          | true => simpa using ih found
          | false => simpa using ih found

/-- The kept items before a later position include an earlier kept one. -/
theorem countP_take_lt {first second : ℕ} {item : α} (less : first < second)
    (found : items[first]? = some item) (kept : keep item = true) :
    (items.take first).countP keep < (items.take second).countP keep := by
  obtain ⟨inside, rfl⟩ := List.getElem?_eq_some_iff.mp found
  have split : items.take (first + 1) = items.take first ++ [items[first]] :=
    List.take_succ_eq_append_getElem inside
  have through : (items.take (first + 1)).countP keep = (items.take first).countP keep + 1 := by
    rw [split, List.countP_append]
    simp [kept]
  have grows : (items.take (first + 1)).countP keep ≤ (items.take second).countP keep :=
    (List.take_sublist_take_left less).countP_le
  omega

end Filter

section Slots

variable {slots : List (ℕ × α)} {size position : ℕ} {item : α}

/-- Sorting slots whose positions are all those below a size. -/
theorem keys_mergeSort (positions : (slots.map Prod.fst).Perm (List.range size)) :
    (slots.mergeSort fun left right => left.1 ≤ right.1).map Prod.fst = List.range size := by
  have sorted : ((slots.mergeSort fun left right => left.1 ≤ right.1).map Prod.fst).Pairwise
    (· ≤ ·) := by
    rw [List.pairwise_map]
    have ordered := @List.pairwise_mergeSort _ (fun left right : ℕ × α => decide (left.1 ≤ right.1))
      (fun _ _ _ first second => by
        simp only [decide_eq_true_eq] at *
        exact Nat.le_trans first second)
      (fun first second => by
        simp only [Bool.or_eq_true, decide_eq_true_eq]
        exact Nat.le_total first.1 second.1) slots
    simpa only [decide_eq_true_eq] using ordered
  have same :=
    ((List.mergeSort_perm slots fun left right => left.1 ≤ right.1).map Prod.fst).trans positions
  exact same.eq_of_pairwise (fun _ _ _ _ => Nat.le_antisymm) sorted
    (List.pairwise_lt_range.imp fun less => Nat.le_of_lt less)

theorem getElem?_of_keys_range (keys : slots.map Prod.fst = List.range size)
    (member : (position, item) ∈ slots) : slots[position]? = some (position, item) := by
  obtain ⟨place, inside, found⟩ := List.getElem_of_mem member
  have key : (slots.map Prod.fst)[place]? = some position := by
    rw [List.getElem?_map, List.getElem?_eq_getElem inside, found]
    rfl
  rw [keys] at key
  obtain ⟨bound, same⟩ := List.getElem?_eq_some_iff.mp key
  rw [List.getElem_range] at same
  rw [← same, List.getElem?_eq_getElem inside, found, same]

end Slots

section Assign

variable {value : ℕ × ℕ → ℕ} {pairs : List (ℕ × ℕ)} {index : List ℕ}

@[simp] theorem length_foldl_set :
    (pairs.foldl (fun index pair => index.set pair.1 (value pair)) index).length =
      index.length := by
  induction pairs generalizing index with
  | nil => rfl
  | cons pair pairs ih => rw [List.foldl_cons, ih, List.length_set]

theorem getElem?_foldl_set_of_not_mem {position : ℕ} (untouched : position ∉ pairs.map Prod.fst) :
    (pairs.foldl (fun index pair => index.set pair.1 (value pair)) index)[position]? =
      index[position]? := by
  induction pairs generalizing index with
  | nil => rfl
  | cons pair pairs ih =>
      rw [List.map_cons, List.mem_cons, not_or] at untouched
      rw [List.foldl_cons, ih untouched.2, List.getElem?_set_ne (Ne.symm untouched.1)]

theorem getElem?_foldl_set_of_mem (distinct : (pairs.map Prod.fst).Nodup) {pair : ℕ × ℕ}
    (member : pair ∈ pairs) (inside : pair.1 < index.length) :
    (pairs.foldl (fun index pair => index.set pair.1 (value pair)) index)[pair.1]? =
      some (value pair) := by
  induction pairs generalizing index with
  | nil => cases member
  | cons head pairs ih =>
      rw [List.map_cons, List.nodup_cons] at distinct
      rw [List.foldl_cons]
      rcases List.mem_cons.mp member with rfl | member
      · rw [getElem?_foldl_set_of_not_mem distinct.1, List.getElem?_set_self inside]
      · exact ih distinct.2 member (by rwa [List.length_set])

end Assign

/-! ## First claims -/

section FirstClaim

variable {β : Type*} (claims : β → Option ℕ)

end FirstClaim

end LakehouseEngine
