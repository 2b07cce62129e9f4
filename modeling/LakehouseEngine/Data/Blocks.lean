import Mathlib.Algebra.BigOperators.Group.List.Basic
import Mathlib.Algebra.GroupWithZero.Nat
import Mathlib.Data.List.Forall2
import Mathlib.Data.List.Dedup
import Mathlib.Data.List.Induction
import Mathlib.Data.List.Perm.Basic

/-!
# Blocks of consecutive items

One pass over a list keeps a block open: the next item joins it where it can and opens a block
of its own otherwise.  Each block is kept with the number of its items only, and dealing the
list out by these numbers gives every block its own items back.
-/

namespace LakehouseEngine.Blocks

variable {α β : Type*} (single : α → β) (join : β → α → Option β)

/-- One item joins the last block or opens a block. -/
def extend (blocks : List (β × ℕ)) (item : α) : List (β × ℕ) :=
  match blocks.getLast? with
  | some (block, count) =>
      match join block item with
      | some wider => blocks.dropLast ++ [(wider, count + 1)]
      | none => blocks ++ [(single item, 1)]
  | none => blocks ++ [(single item, 1)]

/-- The blocks of a list. -/
def pass (items : List α) : List (β × ℕ) := items.foldl (extend single join) []

/-- The block is what its items joined to. -/
inductive Holds : List α → β → Prop where
  | single (item : α) : Holds [item] (single item)
  | join {items : List α} {block wider : β} {item : α} :
      Holds items block → join block item = some wider → Holds (items ++ [item]) wider

/-- Consecutive items by the given counts. -/
def deal : List ℕ → List α → List (List α)
  | [], _ => []
  | count :: counts, items => items.take count :: deal counts (items.drop count)

variable {single join}

theorem deal_map {γ : Type*} (image : α → γ) (counts : List ℕ) (items : List α) :
    deal counts (items.map image) = (deal counts items).map (List.map image) := by
  induction counts generalizing items with
  | nil => rfl
  | cons count counts ih => rw [deal, deal, ← List.map_drop, ih, List.map_cons, List.map_take]

/-- Counts that add up leave nothing over. -/
theorem flatten_deal {counts : List ℕ} {items : List α} (all : counts.sum = items.length) :
    (deal counts items).flatten = items := by
  induction counts generalizing items with
  | nil =>
      obtain rfl := List.length_eq_zero_iff.mp all.symm
      rfl
  | cons count counts ih =>
      rw [List.sum_cons] at all
      have rest : counts.sum = (items.drop count).length := by rw [List.length_drop]; omega
      rw [deal, List.flatten_cons, ih rest, List.take_append_drop]

theorem deal_of_lengths {parts : List (List α)} {counts : List ℕ}
    (sized : List.Forall₂ (fun part count => part.length = count) parts counts) :
    deal counts parts.flatten = parts := by
  induction sized with
  | nil => rfl
  | cons first _ ih =>
      subst first
      simp [deal, ih]

/-- The parts of the list that the blocks stand for. -/
theorem exists_parts (items : List α) : ∃ parts : List (List α), parts.flatten = items ∧
    List.Forall₂ (fun part block => Holds single join part block.1 ∧ part.length = block.2) parts
      (pass single join items) := by
  induction items using List.reverseRecOn with
  | nil => exact ⟨[], rfl, .nil⟩
  | append_singleton items item ih =>
      obtain ⟨parts, rfl, held⟩ := ih
      rw [pass, List.foldl_append, List.foldl_cons, List.foldl_nil]
      change ∃ others : List (List α), _ ∧ List.Forall₂ _ others
        (extend single join (pass single join parts.flatten) item)
      -- A block of its own.
      have opens : ∃ others : List (List α), others.flatten = parts.flatten ++ [item] ∧
          List.Forall₂ (fun part block => Holds single join part block.1 ∧
            part.length = block.2) others
            (pass single join parts.flatten ++ [(single item, 1)]) :=
        ⟨parts ++ [[item]], by simp,
          List.rel_append held (.cons ⟨.single item, rfl⟩ .nil)⟩
      unfold extend
      split
      · next block count last =>
          split
          · next wider joined =>
              obtain ⟨former, passed⟩ := List.getLast?_eq_some_iff.mp last
              rw [passed] at held ⊢
              have front := List.forall₂_take_append _ _ _ held
              have back := List.forall₂_drop_append _ _ _ held
              obtain ⟨part, none, ⟨holds, sized⟩, ends, cut⟩ := List.forall₂_cons_right_iff.mp back
              cases ends
              rw [List.dropLast_concat]
              refine ⟨parts.take former.length ++ [part ++ [item]], ?_,
                List.rel_append front (.cons ⟨holds.join joined, by simp [sized]⟩ .nil)⟩
              conv_rhs => rw [← List.take_append_drop former.length parts, cut]
              simp
          · exact opens
      · exact opens

theorem sum_pass (items : List α) : ((pass single join items).map Prod.snd).sum = items.length := by
  obtain ⟨parts, whole, held⟩ := @exists_parts α β single join items
  have sizes : parts.map List.length = (pass single join items).map Prod.snd := by
    rw [← List.forall₂_eq_eq_eq, List.forall₂_map_left_iff, List.forall₂_map_right_iff]
    exact held.imp fun _ _ both => both.2
  rw [← sizes, ← List.length_flatten, whole]

/-- Dealt out by its counts, a list gives every block its items. -/
theorem holds_deal_pass (items : List α) :
    List.Forall₂ (fun part block => Holds single join part block.1 ∧ part.length = block.2)
      (deal ((pass single join items).map Prod.snd) items) (pass single join items) := by
  obtain ⟨parts, whole, held⟩ := @exists_parts α β single join items
  have dealt : deal ((pass single join items).map Prod.snd) items = parts := by
    conv_lhs => rw [← whole]
    apply deal_of_lengths
    rw [whole, List.forall₂_map_right_iff]
    exact held.imp fun _ _ both => both.2
  rw [dealt]
  exact held

/-! ## Groups by a key -/

section Groups

variable {κ : Type*} [DecidableEq κ] (key : α → κ)

/-- The items of each key, in the order they come in. -/
def groups (items : List α) : List (κ × List α) :=
  (items.map key).dedup.map fun k => (k, items.filter fun item => key item = k)

theorem flatMap_filter_perm {keys : List κ} (distinct : keys.Nodup) (items : List α) :
    (keys.flatMap fun k => items.filter fun item => key item = k).Perm
      (items.filter fun item => key item ∈ keys) := by
  induction keys with
  | nil => simp
  | cons k keys ih =>
      obtain ⟨fresh, distinct⟩ := List.nodup_cons.mp distinct
      have split := List.filter_append_perm (fun item => decide (key item = k))
        (items.filter fun item => key item ∈ k :: keys)
      have same : (items.filter fun item => key item ∈ k :: keys).filter
          (fun item => decide (key item = k)) = items.filter fun item => key item = k := by
        rw [List.filter_filter]
        refine List.filter_congr fun item _ => ?_
        by_cases here : key item = k <;> simp [here]
      have others : (items.filter fun item => key item ∈ k :: keys).filter
          (fun item => !decide (key item = k)) = items.filter fun item => key item ∈ keys := by
        rw [List.filter_filter]
        refine List.filter_congr fun item _ => ?_
        by_cases here : key item = k
        · simp [here, fresh]
        · simp [here]
      rw [same, others] at split
      rw [List.flatMap_cons]
      exact ((ih distinct).append_left _).trans split

/-- The groups hold every item once. -/
theorem flatten_groups_perm (items : List α) :
    ((groups key items).map Prod.snd).flatten.Perm items := by
  have parts := flatMap_filter_perm key (List.nodup_dedup (items.map key)) items
  have all : (items.filter fun item => key item ∈ (items.map key).dedup) = items := by
    refine List.filter_eq_self.mpr fun item member => ?_
    simpa using ⟨item, member, rfl⟩
  rw [all] at parts
  simpa [groups, List.flatMap_def, Function.comp_def] using parts

theorem key_of_mem_groups {items : List α} {group : κ × List α}
    (member : group ∈ groups key items) :
    ∀ item ∈ group.2, key item = group.1 := by
  obtain ⟨k, -, rfl⟩ := List.mem_map.mp member
  intro item among
  simpa using (List.mem_filter.mp among).2

end Groups

end LakehouseEngine.Blocks
