import LakehouseEngine.Data.Paging
import Mathlib.Data.List.Perm.Basic

/-!
# Walking a tree level by level

A walk visits all values of a level at once and goes on with their children.  It visits every node
of a finite tree exactly once, and ends after as many levels as the tree has.
-/

namespace LakehouseEngine.LevelWalk

open Paging (Stop)

/-- A value and the trees below it. -/
inductive RoseTree (α : Type) where
  | node (value : α) (children : List (RoseTree α))

variable {α β ε : Type}

namespace RoseTree

def value : RoseTree α → α
  | node value _ => value

def children : RoseTree α → List (RoseTree α)
  | node _ children => children

mutual

/-- A tree and all trees within it. -/
def nodes : RoseTree α → List (RoseTree α)
  | node value children => node value children :: nodesAll children

def nodesAll : List (RoseTree α) → List (RoseTree α)
  | [] => []
  | tree :: trees => tree.nodes ++ nodesAll trees

end

theorem nodes_eq (tree : RoseTree α) : tree.nodes = tree :: nodesAll tree.children := by
  cases tree with
  | node value below => rw [nodes, children]

theorem nodesAll_append (first second : List (RoseTree α)) :
    nodesAll (first ++ second) = nodesAll first ++ nodesAll second := by
  induction first with
  | nil => rw [List.nil_append, nodesAll, List.nil_append]
  | cons tree first ih => rw [List.cons_append, nodesAll, ih, nodesAll, List.append_assoc]

theorem nodesAll_singleton (tree : RoseTree α) : nodesAll [tree] = tree.nodes := by
  rw [nodesAll, nodesAll, List.append_nil]

/-- The nodes of a forest are its roots and the nodes below them. -/
theorem nodesAll_perm (trees : List (RoseTree α)) :
    (trees ++ nodesAll (trees.flatMap children)).Perm (nodesAll trees) := by
  induction trees with
  | nil => exact .refl _
  | cons tree trees ih =>
      rw [List.cons_append, List.flatMap_cons, nodesAll_append, nodesAll, nodes_eq,
        List.cons_append]
      apply List.Perm.cons
      calc (trees ++ (nodesAll tree.children ++ nodesAll (trees.flatMap children))).Perm
            (nodesAll tree.children ++ (trees ++ nodesAll (trees.flatMap children))) := by
              rw [← List.append_assoc, ← List.append_assoc]
              exact List.perm_append_comm.append_right _
        _ |>.Perm (nodesAll tree.children ++ nodesAll trees) := ih.append_left _

end RoseTree

/-- The loop: the results of all levels so far, and the level to visit. -/
def walk (visit : α → Except (Stop ε) (β × List α)) :
    ℕ → List β → List α → Except (Stop ε) (List β)
  | 0, _, _ => .error .unfinished
  | fuel + 1, all, level =>
      if level.isEmpty then .ok all
      else do
        let listed ← level.mapM visit
        walk visit fuel (all ++ listed.map Prod.fst) (listed.flatMap Prod.snd)

variable {visit : α → Except (Stop ε) (β × List α)} {result : α → β}

/-- Visiting a node gives its result and the values of its children. -/
def Visits (visit : α → Except (Stop ε) (β × List α)) (result : α → β) (tree : RoseTree α) : Prop :=
  visit tree.value = .ok (result tree.value, tree.children.map RoseTree.value)

theorem mapM_visit {trees : List (RoseTree α)} (visits : ∀ tree ∈ trees, Visits visit result tree) :
    (trees.map RoseTree.value).mapM visit =
      .ok (trees.map fun tree => (result tree.value, tree.children.map RoseTree.value)) := by
  induction trees with
  | nil => rfl
  | cons tree trees ih =>
      have head : visit tree.value = .ok (result tree.value, tree.children.map RoseTree.value) :=
        visits tree List.mem_cons_self
      rw [List.map_cons, List.mapM_cons, head, ok_bind,
        ih fun other member => visits other (List.mem_cons_of_mem tree member)]
      rfl

/-- A walk visits every node of a forest once, in an order that the forest alone decides; one round
more than there are nodes is enough. -/
theorem walk_forest (trees : List (RoseTree α)) (result : α → β) :
    ∃ order : List (RoseTree α), order.Perm (RoseTree.nodesAll trees) ∧
      ∀ visit : α → Except (Stop ε) (β × List α),
        (∀ tree ∈ RoseTree.nodesAll trees, Visits visit result tree) →
        ∀ fuel, (RoseTree.nodesAll trees).length < fuel → ∀ all,
          walk visit fuel all (trees.map RoseTree.value) =
            .ok (all ++ order.map fun tree => result tree.value) := by
  -- The level below has fewer nodes, so the induction is on their number.
  induction count : (RoseTree.nodesAll trees).length using Nat.strongRecOn generalizing trees with
  | ind count ih =>
    cases trees with
    | nil =>
        refine ⟨[], .refl _, fun visit _ fuel enough all => ?_⟩
        obtain ⟨fuel, rfl⟩ := Nat.exists_eq_add_one_of_ne_zero
          (Nat.ne_of_gt (Nat.zero_lt_of_lt enough))
        rw [walk, List.map_nil, List.map_nil, List.append_nil]
        rfl
    | cons tree trees =>
        have split := RoseTree.nodesAll_perm (tree :: trees)
        have lengths := split.length_eq
        rw [List.length_append, List.length_cons] at lengths
        obtain ⟨order, once, walked⟩ :=
          ih _ (by omega) ((tree :: trees).flatMap RoseTree.children) rfl
        refine ⟨(tree :: trees) ++ order, (once.append_left _).trans split, ?_⟩
        intro visit visits fuel enough all
        obtain ⟨fuel, rfl⟩ := Nat.exists_eq_add_one_of_ne_zero
          (Nat.ne_of_gt (Nat.zero_lt_of_lt enough))
        have here : ∀ other ∈ tree :: trees, Visits visit result other :=
          fun other member => visits other (split.subset (List.mem_append_left _ member))
        have next := walked visit
          (fun other member => visits other (split.subset (List.mem_append_right _ member))) fuel
            (by omega)
          (all ++ (tree :: trees).map fun other => result other.value)
        rw [walk, if_neg (by simp), mapM_visit here, ok_bind, List.map_map, List.flatMap_map,
          List.map_append,
          ← List.append_assoc]
        rw [List.map_flatMap] at next
        exact next

end LakehouseEngine.LevelWalk
