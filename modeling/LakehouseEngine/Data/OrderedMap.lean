import Mathlib.Data.List.Lookmap
import Mathlib.Data.List.Perm.Basic
import Mathlib.Data.String.Basic
import Mathlib.Order.Defs.LinearOrder
import Mathlib.Order.Lattice
import LakehouseEngine.Data.ListRelation

/-!
# Maps as lists of entries in key order

An entry is inserted before the first greater key and replaces the entry of its own key.
What a map holds is said by its lookups.
-/

namespace LakehouseEngine.OrderedMap

variable {κ β : Type*} [BEq κ] [LawfulBEq κ] [LT κ] [DecidableLT κ]

def insert (key : κ) (value : β) : List (κ × β) → List (κ × β)
  | [] => [(key, value)]
  | (other, held) :: rest =>
      if key == other then (key, value) :: rest
      else if key < other then (key, value) :: (other, held) :: rest
      else (other, held) :: insert key value rest

omit [LawfulBEq κ] [LT κ] [DecidableLT κ] in
theorem lookup_cons (key : κ) (value : β) (map : List (κ × β)) (wanted : κ) :
    List.lookup wanted ((key, value) :: map) =
      if wanted == key then some value else map.lookup wanted := by
  rw [List.lookup_cons]
  cases wanted == key <;> rfl

omit [LT κ] [DecidableLT κ] in
theorem lookup_eq_none {map : List (κ × β)} {wanted : κ} (absent : wanted ∉ map.map Prod.fst) :
    map.lookup wanted = none := by
  rw [List.lookup_eq_none_iff]
  intro entry member
  rw [bne_iff_ne]
  intro same
  exact absent (List.mem_map.mpr ⟨entry, member, same.symm⟩)

theorem lookup_insert (key : κ) (value : β) (map : List (κ × β)) (wanted : κ) :
    (insert key value map).lookup wanted = if wanted == key then
      some value else map.lookup wanted := by
  induction map with
  | nil => exact lookup_cons key value [] wanted
  | cons entry rest ih =>
      obtain ⟨other, held⟩ := entry
      unfold insert
      split
      · next same =>
          obtain rfl := eq_of_beq same
          rw [lookup_cons, lookup_cons]
          split <;> rfl
      · next different =>
          split
          · rw [lookup_cons]
          · rw [lookup_cons, lookup_cons, ih]
            split
            · next here =>
                obtain rfl := eq_of_beq here
                rw [if_neg]
                intro same
                exact different (beq_iff_eq.mpr (eq_of_beq same).symm)
            · rfl

/-- The pairs of a list, a later one in place of an earlier one with its key. -/
def collect (pairs : List (κ × β)) : List (κ × β) :=
  pairs.foldl (fun map pair => insert pair.1 pair.2 map) []

theorem lookup_foldl_insert {pairs : List (κ × β)} (distinct : (pairs.map Prod.fst).Nodup)
    (map : List (κ × β)) (wanted : κ) :
    (pairs.foldl (fun map pair => insert pair.1 pair.2 map) map).lookup wanted =
      (pairs.lookup wanted).or (map.lookup wanted) := by
  induction pairs generalizing map with
  | nil => rfl
  | cons pair pairs ih =>
      obtain ⟨key, value⟩ := pair
      rw [List.map_cons, List.nodup_cons] at distinct
      rw [List.foldl_cons, ih distinct.2, lookup_insert, lookup_cons]
      split
      · next here =>
          obtain rfl := eq_of_beq here
          rw [lookup_eq_none distinct.1]
          rfl
      · rfl

/-- With distinct keys a map holds the pairs it was collected from. -/
theorem lookup_collect {pairs : List (κ × β)} (distinct : (pairs.map Prod.fst).Nodup) (wanted : κ) :
    (collect pairs).lookup wanted = pairs.lookup wanted := by
  rw [collect, lookup_foldl_insert distinct, List.lookup_nil, Option.or_none]

/-- The last of several values of one key is kept. -/
theorem lookup_collect_reverse (pairs : List (κ × β)) (wanted : κ) :
    (collect pairs).lookup wanted = pairs.reverse.lookup wanted := by
  have all : ∀ map : List (κ × β),
      (pairs.foldl (fun map pair => insert pair.1 pair.2 map) map).lookup wanted =
        (pairs.reverse.lookup wanted).or (map.lookup wanted) := by
    induction pairs with
    | nil => exact fun map => rfl
    | cons pair pairs ih =>
        intro map
        rw [List.foldl_cons, ih, lookup_insert, List.reverse_cons, List.lookup_append,
          Option.or_assoc]
        congr 1
        rw [lookup_cons]
        split <;> rfl
  rw [collect, all, List.lookup_nil, Option.or_none]

/-- The map of a function on some keys. -/
theorem lookup_collect_graph (image : κ → β) (keys : List κ) (wanted : κ) :
    (collect (keys.map fun key => (key, image key))).lookup wanted =
      if wanted ∈ keys then some (image wanted) else none := by
  have graph : ∀ keys : List κ, (keys.map fun key => (key, image key)).lookup wanted =
      if wanted ∈ keys then some (image wanted) else none := by
    intro keys
    induction keys with
    | nil => rfl
    | cons key keys ih =>
        rw [List.map_cons, lookup_cons, ih]
        by_cases same : key = wanted
        · simp [same]
        · simp [Ne.symm same]
  rw [lookup_collect_reverse, ← List.map_reverse, graph]
  simp only [List.mem_reverse]

def erase (key : κ) (map : List (κ × β)) : List (κ × β) := map.filter fun entry => !(entry.1 == key)

omit [LT κ] [DecidableLT κ] in
theorem lookup_erase_self (key : κ) (map : List (κ × β)) : (erase key map).lookup key = none := by
  apply lookup_eq_none
  intro member
  obtain ⟨entry, kept, same⟩ := List.mem_map.mp member
  have other := (List.mem_filter.mp kept).2
  rw [same, beq_self_eq_true] at other
  cases other

omit [LT κ] [DecidableLT κ] in
theorem lookup_erase_of_ne {key wanted : κ} (different : wanted ≠ key) (map : List (κ × β)) :
    (erase key map).lookup wanted = map.lookup wanted := by
  induction map with
  | nil => rfl
  | cons entry rest ih =>
      obtain ⟨other, held⟩ := entry
      unfold erase at ih ⊢
      rw [List.filter_cons, lookup_cons]
      split
      · rw [lookup_cons, ih]
      · next erased =>
          have same : other = key := by simpa using erased
          rw [ih, if_neg]
          intro here
          exact different ((eq_of_beq here).trans same)

omit [LawfulBEq κ] [LT κ] [DecidableLT κ] in
theorem erase_map (key : κ) {γ : Type*} (convert : β → γ) (map : List (κ × β)) :
    erase key (map.map fun entry => (entry.1, convert entry.2)) =
      (erase key map).map fun entry => (entry.1, convert entry.2) := by
  rw [erase, erase, List.filter_map]
  rfl

theorem erase_insert (key : κ) (value : β) (map : List (κ × β)) :
    erase key (insert key value map) = erase key map := by
  have gone : ∀ held : β, ∀ rest : List (κ × β), erase key ((key, held) :: rest) = erase key rest :=
    fun held rest => List.filter_cons_of_neg (by simp)
  induction map with
  | nil => exact gone value []
  | cons entry rest ih =>
      obtain ⟨other, held⟩ := entry
      unfold insert
      split
      · next same =>
          obtain rfl := eq_of_beq same
          rw [gone, gone]
      · split
        · exact gone value _
        · rw [erase, List.filter_cons, ← erase, ih, erase, erase, List.filter_cons]

omit [LawfulBEq κ] in
/-- Setting one key leaves the entries of the others. -/
theorem mem_insert_of_mem {key other : κ} {value held : β} {map : List (κ × β)}
    (different : (key == other) = false)
    (member : (other, held) ∈ map) : (other, held) ∈ insert key value map := by
  induction map with
  | nil => cases member
  | cons entry rest ih =>
      unfold insert
      split
      · next same =>
          rcases List.mem_cons.mp member with rfl | member
          · rw [different] at same
            cases same
          · exact List.mem_cons_of_mem _ member
      · split
        · exact List.mem_cons_of_mem _ member
        · rcases List.mem_cons.mp member with rfl | member
          · exact List.mem_cons_self
          · exact List.mem_cons_of_mem _ (ih member)

/-! ## Sorted maps -/

section Sorted

variable {κ β : Type*} [LinearOrder κ]

/-- The keys are in order. -/
def Sorted (map : List (κ × β)) : Prop := (map.map Prod.fst).Pairwise (· < ·)

/-- A map with its entries in the order of their keys. -/
structure StringMap (A : Type) where
  entries : List (String × A)
  sorted : Sorted entries

def StringMap.empty (A : Type) : StringMap A := ⟨[], .nil⟩

variable {map : List (κ × β)}

theorem mem_keys_insert {key : κ} {value : β} {other : κ}
    (member : other ∈ (insert key value map).map Prod.fst) :
    other = key ∨ other ∈ map.map Prod.fst := by
  induction map with
  | nil => exact .inl (by simpa [insert] using member)
  | cons entry rest ih =>
      obtain ⟨first, held⟩ := entry
      unfold insert at member
      simp only [List.map_cons, List.mem_cons]
      split at member
      · next same =>
          simp only [List.map_cons, List.mem_cons] at member
          exact member.imp_right .inr
      · split at member
        · simpa using member
        · simp only [List.map_cons, List.mem_cons] at member
          rcases member with here | later
          · exact .inr (.inl here)
          · exact (ih later).imp_right .inr

theorem Sorted.insert (sorted : Sorted map) (key : κ) (value : β) :
    Sorted (insert key value map) := by
  induction map with
  | nil => simp [Sorted, OrderedMap.insert]
  | cons entry rest ih =>
      obtain ⟨first, held⟩ := entry
      simp only [Sorted, List.map_cons, List.pairwise_cons] at sorted
      unfold OrderedMap.insert
      split
      · next same =>
          obtain rfl := eq_of_beq same
          simpa only [Sorted, List.map_cons, List.pairwise_cons] using sorted
      · next different =>
          split
          · next before =>
              simp only [Sorted, List.map_cons, List.pairwise_cons, List.mem_cons, forall_eq_or_imp]
              exact ⟨⟨before, fun other member => before.trans (sorted.1 other member)⟩, sorted⟩
          · next after =>
              have behind : first < key :=
                lt_of_le_of_ne (not_lt.mp after) fun same => different (beq_iff_eq.mpr same.symm)
              simp only [Sorted, List.map_cons, List.pairwise_cons]
              refine ⟨?_, ih sorted.2⟩
              intro other member
              rcases mem_keys_insert member with rfl | member
              · exact behind
              · exact sorted.1 other member

theorem Sorted.erase (sorted : Sorted map) (key : κ) :
    Sorted (erase key map) := by
  rw [Sorted, List.pairwise_map] at sorted ⊢
  exact sorted.filter _

/-- A map is determined by its values. -/
theorem Sorted.ext {first second : List (κ × β)} (sorted : Sorted first) (other : Sorted second)
    (same : ∀ key, first.lookup key = second.lookup key) : first = second := by
  have distinct : ∀ {map : List (κ × β)}, Sorted map → (map.map Prod.fst).Nodup :=
    fun ordered => List.Pairwise.imp ne_of_lt ordered
  have members : ∀ entry, entry ∈ first ↔ entry ∈ second := by
    intro entry
    rw [← lookup_eq_some_iff_mem (distinct sorted), same, lookup_eq_some_iff_mem (distinct other)]
  have apart : ∀ {map : List (κ × β)}, Sorted map → map.Nodup := fun ordered =>
    (List.pairwise_map.mp ordered).imp fun before same => ne_of_lt before (congrArg Prod.fst same)
  have perm : first.Perm second :=
    (List.perm_ext_iff_of_nodup (apart sorted) (apart other)).mpr members
  refine perm.eq_of_pairwise ?_ (List.pairwise_map.mp sorted) (List.pairwise_map.mp other)
  exact fun _ _ _ _ before after => absurd after (lt_asymm before)

theorem sorted_foldl_insert (pairs : List (κ × β)) (sorted : Sorted map) :
    Sorted (pairs.foldl (fun map pair => OrderedMap.insert pair.1 pair.2 map) map) := by
  induction pairs generalizing map with
  | nil => exact sorted
  | cons pair pairs ih => exact ih (sorted.insert pair.1 pair.2)

theorem sorted_collect (pairs : List (κ × β)) : Sorted (collect pairs) :=
  sorted_foldl_insert pairs List.Pairwise.nil

end Sorted

/-! ## Entries of some items -/

section Entries

variable {ι : Type*} (key : ι → κ) (value : ι → Option β)

/-- The entries of the items that have a value. -/
def entries (items : List ι) : List (κ × β) :=
  items.filterMap fun item => (value item).map fun held => (key item, held)

omit [BEq κ] [LawfulBEq κ] [LT κ] [DecidableLT κ] in
theorem entries_cons (item : ι) (items : List ι) :
    entries key value (item :: items) =
      ((value item).map fun held => (key item, held)).toList ++ entries key value items := by
  unfold entries
  cases found : value item <;> simp [found]

omit [BEq κ] [LawfulBEq κ] [LT κ] [DecidableLT κ] in
theorem keys_entries (items : List ι) :
    ((entries key value items).map Prod.fst).Sublist (items.map key) := by
  induction items with
  | nil => exact List.Sublist.slnil
  | cons item items ih =>
      rw [entries_cons, List.map_append, List.map_cons]
      cases value item with
      | none => exact ih.cons _
      | some held => exact ih.cons_cons _

omit [LT κ] [DecidableLT κ] in
theorem lookup_entries {items : List ι} (distinct : (items.map key).Nodup) {item : ι}
    (member : item ∈ items) : (entries key value items).lookup (key item) = value item := by
  induction items with
  | nil => cases member
  | cons head items ih =>
      rw [List.map_cons, List.nodup_cons] at distinct
      rw [entries_cons]
      rcases List.mem_cons.mp member with rfl | later
      · cases value item with
        | none =>
            exact lookup_eq_none fun found =>
              distinct.1 ((keys_entries key value items).subset found)
        | some held => exact (lookup_cons _ _ _ _).trans (if_pos (beq_self_eq_true _))
      · have different : key item ≠ key head := by
          intro same
          exact distinct.1 (List.mem_map.mpr ⟨item, later, same⟩)
        cases value head with
        | none => exact ih distinct.2 later
        | some held =>
            refine (lookup_cons _ _ _ _).trans ?_
            rw [if_neg (by simpa using different)]
            exact ih distinct.2 later

end Entries

end LakehouseEngine.OrderedMap
