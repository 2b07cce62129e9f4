import Mathlib.Data.List.Forall2

/-!
# Lists related item by item

Facts about `List.Forall₂` that a translation of a list of operands needs, and about lists
of keys and values.
-/

namespace LakehouseEngine

variable {α β : Type*}

variable {related : α → β → Prop} {before items : List α} {after : List β}

theorem exists_related_of_mem
    (each : List.Forall₂ related before after) {item : β} (member : item ∈ after) :
    ∃ origin ∈ before, related origin item := by
  induction each with
  | nil => simp at member
  | cons head _ ih =>
      rcases List.mem_cons.mp member with rfl | member
      · exact ⟨_, by simp, head⟩
      · obtain ⟨origin, found, holds⟩ := ih member
        exact ⟨origin, by simp [found], holds⟩

theorem exists_image_of_mem
    (each : List.Forall₂ related before after) {item : α} (member : item ∈ before) :
    ∃ image ∈ after, related item image :=
  exists_related_of_mem (List.Forall₂.flip each) member

theorem exists_getElem?_of_forall₂ (each : List.Forall₂ related before after) {index : ℕ} {item : α}
    (found : before[index]? = some item) :
    ∃ image, after[index]? = some image ∧ related item image := by
  obtain ⟨inside, rfl⟩ := List.getElem?_eq_some_iff.mp found
  have within : index < after.length := each.length_eq ▸ inside
  exact ⟨after[index], List.getElem?_eq_getElem within, each.get inside within⟩

/-- Items that each have an image have a list of images. -/
theorem exists_forall₂ (each : ∀ item ∈ items, ∃ image, related item image) :
    ∃ images, List.Forall₂ related items images := by
  induction items with
  | nil => exact ⟨[], .nil⟩
  | cons item items ih =>
      obtain ⟨image, first⟩ := each item List.mem_cons_self
      obtain ⟨images, rest⟩ := ih fun other member => each other (List.mem_cons_of_mem _ member)
      exact ⟨image :: images, .cons first rest⟩

theorem exists_of_mem_zipWith {γ : Type*} {first : List α} {second : List β}
    {make : α → β → γ} (both : List.Forall₂ related first second) {item : γ}
    (member : item ∈ List.zipWith make first second) :
    ∃ left right, right ∈ second ∧ related left right ∧ item = make left right := by
  induction both with
  | nil => cases member
  | cons head _ ih =>
      rw [List.zipWith_cons_cons] at member
      rcases List.mem_cons.mp member with rfl | later
      · exact ⟨_, _, List.mem_cons_self, head, rfl⟩
      · obtain ⟨left, right, found, holds, made⟩ := ih later
        exact ⟨left, right, List.mem_cons_of_mem _ found, holds, made⟩

theorem map_zipWith_right {γ : Type*} {first : List α} {second : List β}
    {make : α → β → γ} {back : γ → β} (undo : ∀ left right, back (make left right) = right)
    (both : List.Forall₂ related first second) :
    (List.zipWith make first second).map back = second := by
  induction both with
  | nil => rfl
  | cons _ _ ih => rw [List.zipWith_cons_cons, List.map_cons, undo, ih]

/-- The results of a fallible function on a list, one for each item. -/
theorem forall₂_of_mapM {convert : α → Option β}
    {results : List β} (found : items.mapM convert = some results) :
    List.Forall₂ (fun item result => convert item = some result) items results := by
  induction items generalizing results with
  | nil =>
      cases found
      exact .nil
  | cons item items ih =>
      simp only [List.mapM_cons, Option.bind_eq_bind, Option.bind_eq_some_iff, Option.pure_def,
        Option.some.injEq] at found
      obtain ⟨result, converted, rest, restFound, rfl⟩ := found
      exact .cons converted (ih restFound)

theorem mem_of_lookup_eq_some [BEq α] [LawfulBEq α] {entries : List (α × β)} {key : α} {value : β}
    (found : entries.lookup key = some value) : (key, value) ∈ entries := by
  obtain ⟨before, after, rfl, -⟩ := List.lookup_eq_some_iff.mp found
  simp

theorem lookup_map_snd {γ : Type*} [BEq α] (entries : List (α × β)) (convert : β → γ) (key : α) :
    (entries.map (Prod.map id convert)).lookup key = (entries.lookup key).map convert := by
  induction entries with
  | nil => rfl
  | cons entry entries ih =>
      obtain ⟨own, value⟩ := entry
      cases same : key == own <;> simp [List.lookup_cons, same, ih]

/-- With distinct keys, looking up a key finds its own entry. -/
theorem lookup_eq_some_iff_mem [BEq α] [LawfulBEq α] {entries : List (α × β)}
    (distinct : (entries.map (·.1)).Nodup) {key : α} {value : β} :
    entries.lookup key = some value ↔ (key, value) ∈ entries := by
  constructor
  · exact mem_of_lookup_eq_some
  · intro member
    obtain ⟨before, after, rfl⟩ := List.append_of_mem member
    rw [List.lookup_eq_some_iff]
    refine ⟨before, after, rfl, ?_⟩
    intro entry inBefore
    rw [List.map_append, List.map_cons, List.nodup_append] at distinct
    have different := distinct.2.2 entry.1 (List.mem_map_of_mem inBefore) key (by simp)
    simpa using Ne.symm different

theorem lookup_zipIdx [BEq α] [LawfulBEq α] (distinct : items.Nodup) {item : α}
    {position : ℕ} : items.zipIdx.lookup item = some position ↔ items[position]? = some item := by
  rw [lookup_eq_some_iff_mem (by rwa [List.zipIdx_map_fst]), List.mk_mem_zipIdx_iff_getElem?]

/-- A condition on every item of a closed list is decided item by item. -/
theorem forall_mem_of_all {condition : α → Prop} [DecidablePred condition]
    (all : (items.all fun item => condition item) = true) : ∀ item ∈ items, condition item := by
  intro item member
  exact of_decide_eq_true (List.all_eq_true.mp all item member)

/-- With distinct images, an image is found at one position. -/
theorem position_unique {image : α → Option β}
    (distinct : (items.filterMap image).Nodup) {i j : ℕ} {first second : α} {value : β}
    (atFirst : items[i]? = some first) (atSecond : items[j]? = some second)
    (ofFirst : image first = some value) (ofSecond : image second = some value) : i = j := by
  induction items generalizing i j with
  | nil => cases atFirst
  | cons item items ih =>
      have rest : (items.filterMap image).Nodup :=
        distinct.sublist (((List.sublist_cons_self item items)).filterMap image)
      have alone {k : ℕ} {other : α} (here : items[k]? = some other)
          (ofItem : image item = some value) (ofOther : image other = some value) : False := by
        rw [List.filterMap_cons_some ofItem, List.nodup_cons] at distinct
        exact distinct.1 (List.mem_filterMap.mpr ⟨other, List.mem_of_getElem? here, ofOther⟩)
      cases i with
      | zero =>
          cases j with
          | zero => rfl
          | succ j =>
              cases atFirst
              exact (alone atSecond ofFirst ofSecond).elim
      | succ i =>
          cases j with
          | zero =>
              cases atSecond
              exact (alone atFirst ofSecond ofFirst).elim
          | succ j => rw [ih rest atFirst atSecond]

/-- The position found for a condition that holds at one position only. -/
theorem findIdx?_eq_some_iff_of_unique {condition : α → Bool} {items : List α}
    (unique : ∀ {i j : ℕ} {first second : α}, items[i]? = some first → items[j]? = some second →
      condition first = true → condition second = true → i = j) {position : ℕ} :
    items.findIdx? condition = some position ↔
      ∃ item, items[position]? = some item ∧ condition item = true := by
  rw [List.findIdx?_eq_some_iff_getElem]
  constructor
  · rintro ⟨inRange, holds, -⟩
    exact ⟨_, List.getElem?_eq_getElem inRange, holds⟩
  · rintro ⟨item, here, holds⟩
    obtain ⟨inRange, rfl⟩ := List.getElem?_eq_some_iff.mp here
    refine ⟨inRange, holds, ?_⟩
    intro earlier before holdsEarlier
    have same := unique (List.getElem?_eq_getElem (Nat.lt_trans before inRange)) here
      holdsEarlier holds
    omega

theorem eq_singleton_of_nodup (distinct : items.Nodup) {item : α}
    (member : item ∈ items) (only : ∀ other ∈ items, other = item) : items = [item] := by
  have repeated : items = List.replicate items.length item := List.eq_replicate_iff.mpr ⟨rfl, only⟩
  rw [repeated, List.nodup_replicate] at distinct
  have positive := List.length_pos_of_mem member
  rw [repeated, show items.length = 1 by omega]
  rfl

/-- Items that relate to one item each are distinct if those are. -/
theorem nodup_of_forall₂ (each : List.Forall₂ related before after)
    (one : ∀ item first second, related item first → related item second → first = second)
    (distinct : after.Nodup) : before.Nodup := by
  induction each with
  | nil => exact List.nodup_nil
  | cons head rest ih =>
      rw [List.nodup_cons] at distinct ⊢
      refine ⟨?_, ih distinct.2⟩
      intro again
      have reversed : List.Forall₂ (fun image item => related item image) _ _ := rest.flip
      obtain ⟨other, member, also⟩ := exists_related_of_mem reversed again
      rw [one _ _ _ also head] at member
      exact distinct.1 member

/-- A weaker relation may use that the first item is among the items. -/
theorem forall₂_imp_of_mem {weaker : α → β → Prop}
    (each : List.Forall₂ related before after)
    (imp : ∀ item ∈ before, ∀ image, related item image → weaker item image) :
    List.Forall₂ weaker before after := by
  induction each with
  | nil => exact .nil
  | cons head _ ih =>
      obtain ⟨here, later⟩ := List.forall_mem_cons.mp imp
      exact .cons (here _ head) (ih later)

theorem map_eq_of_forall₂ {γ : Type*}
    {origin : α → γ} {target : β → γ} (each : List.Forall₂ related before after)
    (agree : ∀ item ∈ before, ∀ image, related item image → target image = origin item) :
    after.map target = before.map origin := by
  induction each with
  | nil => rfl
  | cons first rest ih =>
      rw [List.map_cons, List.map_cons, agree _ List.mem_cons_self _ first,
        ih fun item member => agree item (List.mem_cons_of_mem _ member)]

theorem forall₂_trans {α β γ : Type} {first : α → β → Prop} {second : β → γ → Prop}
    {both : α → γ → Prop} {as : List α} {bs : List β} {cs : List γ} (one : List.Forall₂ first as bs)
    (two : List.Forall₂ second bs cs) (step : ∀ a b c, first a b → second b c → both a c) :
    List.Forall₂ both as cs := by
  induction one generalizing cs with
  | nil =>
      cases two
      exact .nil
  | cons head tail ih =>
      cases two with
      | cons next later => exact .cons (step _ _ _ head next) (ih later)

/-- What a list split at an item is related to is split at a related item. -/
theorem exists_split_of_forall₂ {after : List α} {item : α}
    {others : List β} (all : List.Forall₂ related (before ++ item :: after) others) :
    ∃ first other second, others = first ++ other :: second ∧ List.Forall₂ related before first ∧
      related item other ∧ List.Forall₂ related after second := by
  induction before generalizing others with
  | nil =>
      cases all with
      | cons head tail => exact ⟨[], _, _, rfl, .nil, head, tail⟩
  | cons start before ih =>
      cases all with
      | cons head tail =>
          obtain ⟨first, other, second, rfl, left, here, right⟩ := ih tail
          exact ⟨_ :: first, other, second, rfl, .cons head left, here, right⟩

theorem length_filterMap_le {first second : α → Option β}
    (grows : ∀ item ∈ items, (first item).isSome → (second item).isSome) :
    (items.filterMap first).length ≤ (items.filterMap second).length := by
  induction items with
  | nil => exact Nat.le_refl _
  | cons item items ih =>
      have rest := ih fun other member => grows other (List.mem_cons_of_mem item member)
      have head := grows item List.mem_cons_self
      rw [List.filterMap_cons, List.filterMap_cons]
      cases found : first item with
      | none =>
          cases second item with
          | none => exact rest
          | some value => exact Nat.le_trans rest (Nat.le_succ _)
      | some value =>
          rw [found] at head
          obtain ⟨other, same⟩ := Option.isSome_iff_exists.mp (head rfl)
          rw [same]
          exact Nat.succ_le_succ rest

/-- Two selections, of which the second selects wherever the first does, have the same result
only if they select the same everywhere. -/
theorem filterMap_eq_iff_of_grows {first second : α → Option β}
    (grows : ∀ item ∈ items, (first item).isSome → (second item).isSome) :
    items.filterMap second = items.filterMap first ↔ ∀ item ∈ items, second item = first item := by
  refine ⟨fun same => ?_, fun same => List.filterMap_congr same⟩
  induction items with
  | nil => simp
  | cons item items ih =>
      have restGrows : ∀ other ∈ items, (first other).isSome → (second other).isSome :=
        fun other member => grows other (List.mem_cons_of_mem item member)
      have head := grows item List.mem_cons_self
      have shorter := length_filterMap_le restGrows
      rw [List.filterMap_cons, List.filterMap_cons] at same
      rw [List.forall_mem_cons]
      cases found : first item with
      | none =>
          cases other : second item with
          | none =>
              rw [found, other] at same
              exact ⟨rfl, ih restGrows same⟩
          | some value =>
              -- The second selection would be one longer than the first.
              rw [found, other] at same
              dsimp only at same
              have lengths := congrArg List.length same
              rw [List.length_cons] at lengths
              omega
      | some value =>
          rw [found] at head
          obtain ⟨other, taken⟩ := Option.isSome_iff_exists.mp (head rfl)
          rw [found, taken] at same
          obtain ⟨heads, tails⟩ := List.cons.inj same
          exact ⟨taken.trans (congrArg some heads), ih restGrows tails⟩

/-! ## Sorted by a key -/

theorem pairwise_mergeSort_key {κ : Type*} (below : κ → κ → Prop) [DecidableRel below]
    (trans : ∀ {first second third}, below first second → below second third → below first third)
    (total : ∀ first second, below first second ∨ below second first) (key : α → κ)
    (items : List α) :
    (items.mergeSort fun left right => below (key left) (key right)).Pairwise fun first second =>
      below (key first) (key second) := by
  have sorted : (items.mergeSort fun left right => below (key left) (key right)).Pairwise
    fun first second =>
      decide (below (key first) (key second)) = true := by
    apply List.pairwise_mergeSort
    · intro a b c ab bc
      simp only [decide_eq_true_eq] at ab bc ⊢
      exact trans ab bc
    · intro a b
      simpa using total (key a) (key b)
  exact sorted.imp of_decide_eq_true

/-! ## A selection -/

/-- The results are those of the items that have one, in their order. -/
inductive Selected (reads : α → β → Prop) : List α → List β → Prop where
  | nil : Selected reads [] []
  | take {item : α} {result : β} {items : List α} {results : List β} :
      reads item result → Selected reads items results →
        Selected reads (item :: items) (result :: results)
  | skip {item : α} {items : List α} {results : List β} :
      (∀ result, ¬reads item result) → Selected reads items results →
        Selected reads (item :: items) results

theorem selected_filterMap {reads : α → β → Prop} {select : α → Option β}
    (exact : ∀ item result, select item = some result ↔ reads item result) (items : List α) :
    Selected reads items (items.filterMap select) := by
  induction items with
  | nil => exact .nil
  | cons item items ih =>
      cases found : select item with
      | none =>
          rw [List.filterMap_cons_none found]
          refine .skip (fun result read => ?_) ih
          rw [(exact item result).mpr read] at found
          cases found
      | some result =>
          rw [List.filterMap_cons_some found]
          exact .take ((exact item result).mp found) ih

end LakehouseEngine
