import Mathlib.Data.List.Basic
import Mathlib.Data.List.Pairwise
import LakehouseEngine.Data.Fallible

/-!
# First items by key

A pass over a list keeps the items whose key has not come before.  Items without a key are
passed over.
-/

namespace LakehouseEngine.FirstByKey

variable {ι κ : Type*} (key : ι → Option κ)

/-- The first item with its key. -/
def IsFirst (items : List ι) (item : ι) (k : κ) : Prop :=
  ∃ before after, items = before ++ item :: after ∧ key item = some k ∧
    ∀ earlier ∈ before, key earlier ≠ some k

variable {key}

theorem isFirst_cons {first item : ι} {items : List ι} {k : κ} :
    IsFirst key (first :: items) item k ↔
      (first = item ∧ key item = some k) ∨ (key first ≠ some k ∧ IsFirst key items item k) := by
  constructor
  · rintro ⟨before, after, cut, keyed, fresh⟩
    cases before with
    | nil =>
        obtain ⟨rfl, rfl⟩ := List.cons.inj cut
        exact .inl ⟨rfl, keyed⟩
    | cons other before =>
        obtain ⟨rfl, rfl⟩ := List.cons.inj cut
        exact .inr ⟨fresh _ List.mem_cons_self, before, after, rfl, keyed,
          fun earlier member => fresh earlier (List.mem_cons_of_mem _ member)⟩
  · rintro (⟨rfl, keyed⟩ | ⟨other, before, after, rfl, keyed, fresh⟩)
    · exact ⟨[], items, rfl, keyed, by simp⟩
    · refine ⟨first :: before, after, rfl, keyed, ?_⟩
      rw [List.forall_mem_cons]
      exact ⟨other, fresh⟩

/-- A key that occurs has a first item. -/
theorem exists_isFirst {items : List ι} {item : ι} {k : κ} (member : item ∈ items)
    (keyed : key item = some k) : ∃ first, IsFirst key items first k := by
  induction items with
  | nil => cases member
  | cons other items ih =>
      by_cases here : key other = some k
      · exact ⟨other, isFirst_cons.mpr (.inl ⟨rfl, here⟩)⟩
      · rcases List.mem_cons.mp member with rfl | later
        · exact absurd keyed here
        · obtain ⟨first, found⟩ := ih later
          exact ⟨first, isFirst_cons.mpr (.inr ⟨here, found⟩)⟩

theorem IsFirst.keyed {items : List ι} {item : ι} {k : κ} (first : IsFirst key items item k) :
    key item = some k := by
  obtain ⟨before, after, -, keyed, -⟩ := first
  exact keyed

theorem IsFirst.mem {items : List ι} {item : ι} {k : κ} (first : IsFirst key items item k) :
    item ∈ items := by
  obtain ⟨before, after, rfl, -⟩ := first
  simp

section Firsts

variable [DecidableEq κ]

/-- The items whose key is new. -/
def firsts (key : ι → Option κ) (seen : List κ) : List ι → List ι
  | [] => []
  | item :: items =>
      match key item with
      | none => firsts key seen items
      | some k => if k ∈ seen then firsts key seen items else item :: firsts key (k :: seen) items

theorem mem_firsts {seen : List κ} {items : List ι} {item : ι} :
    item ∈ firsts key seen items ↔ ∃ k, IsFirst key items item k ∧ k ∉ seen := by
  induction items generalizing seen with
  | nil => simp [firsts, IsFirst]
  | cons first items ih =>
      simp only [isFirst_cons]
      cases keyed : key first with
      | none =>
          simp only [firsts, keyed, ih]
          constructor
          · rintro ⟨k, later, fresh⟩
            exact ⟨k, .inr ⟨by simp, later⟩, fresh⟩
          · rintro ⟨k, ⟨rfl, found⟩ | ⟨-, later⟩, fresh⟩
            · rw [keyed] at found
              cases found
            · exact ⟨k, later, fresh⟩
      | some own =>
          simp only [firsts, keyed, Option.some.injEq, ne_eq]
          split
          · next old =>
              rw [ih]
              constructor
              · rintro ⟨k, later, fresh⟩
                exact ⟨k, .inr ⟨fun same => fresh (same ▸ old), later⟩, fresh⟩
              · rintro ⟨k, ⟨rfl, found⟩ | ⟨-, later⟩, fresh⟩
                · rw [keyed] at found
                  cases found
                  exact absurd old fresh
                · exact ⟨k, later, fresh⟩
          · next new =>
              rw [List.mem_cons, ih]
              constructor
              · rintro (rfl | ⟨k, later, fresh⟩)
                · exact ⟨own, .inl ⟨rfl, keyed⟩, new⟩
                · obtain ⟨other, fresh⟩ := not_or.mp (List.mem_cons.not.mp fresh)
                  exact ⟨k, .inr ⟨Ne.symm other, later⟩, fresh⟩
              · rintro ⟨k, ⟨rfl, -⟩ | ⟨other, later⟩, fresh⟩
                · exact .inl rfl
                · exact .inr ⟨k, later, List.mem_cons.not.mpr (not_or.mpr ⟨Ne.symm other, fresh⟩)⟩

/-- No key is kept twice. -/
theorem pairwise_firsts (seen : List κ) (items : List ι) :
    (firsts key seen items).Pairwise fun first second => key first ≠ key second := by
  induction items generalizing seen with
  | nil => exact .nil
  | cons item items ih =>
      cases keyed : key item with
      | none => simpa only [firsts, keyed] using ih seen
      | some k =>
          simp only [firsts, keyed]
          split
          · exact ih seen
          · refine .cons ?_ (ih (k :: seen))
            intro other member same
            obtain ⟨own, ⟨-, -, -, found, -⟩, fresh⟩ := mem_firsts.mp member
            rw [keyed, found] at same
            obtain rfl := Option.some.inj same
            exact fresh List.mem_cons_self

end Firsts

/-! ## One spelling for each key -/

section Spelling

variable {ν ε : Type*} {spelled : ι → ν}

/-- Two items of one key are spelled alike. -/
def Alike (key : ι → Option κ) (spelled : ι → ν) (first second : ι) : Prop :=
  ∀ k, key first = some k → key second = some k → spelled first = spelled second

instance alikeSymm : Std.Symm (Alike key spelled) :=
  ⟨fun _ _ alike k keyed other => (alike k other keyed).symm⟩

theorem pairwise_alike_iff {items : List ι} :
    items.Pairwise (Alike key spelled) ↔ ∀ first ∈ items, ∀ second ∈ items,
      Alike key spelled first second := by
  constructor
  · intro pairs first member second other
    exact pairs.forall_of_forall (fun _ _ _ _ _ => rfl) member other
  · exact fun all => List.pairwise_of_forall_mem_list all

/-- The items are spelled alike, and as those of their keys seen before. -/
def Agree (key : ι → Option κ) (spelled : ι → ν) [BEq κ] (seen : List (κ × ι)) (items : List ι) :
    Prop :=
  items.Pairwise (Alike key spelled) ∧
    ∀ item ∈ items, ∀ k first, key item = some k → seen.lookup k = some first →
      spelled first = spelled item

/-- An item may be passed over when those seen before already speak for it. -/
theorem agree_cons_of_known [BEq κ] {seen : List (κ × ι)} {item : ι} {items : List ι}
    (known : ∀ k, key item = some k → ∃ first, seen.lookup k = some first ∧
      spelled first = spelled item) :
    Agree key spelled seen (item :: items) ↔ Agree key spelled seen items := by
  rw [Agree, Agree, List.pairwise_cons, List.forall_mem_cons]
  constructor
  · exact fun agree => ⟨agree.1.2, agree.2.2⟩
  · intro agree
    refine ⟨⟨?_, agree.1⟩, ?_, agree.2⟩
    · intro other member k keyed otherKeyed
      obtain ⟨first, found, same⟩ := known k keyed
      exact same.symm.trans (agree.2 other member k first otherKeyed found)
    · intro k first keyed found
      obtain ⟨own, ownFound, same⟩ := known k keyed
      obtain rfl := Option.some.inj (found.symm.trans ownFound)
      exact same

/-- The first item of its key is remembered for the rest. -/
theorem agree_cons_of_fresh [BEq κ] [LawfulBEq κ] {seen : List (κ × ι)} {item : ι}
    {items : List ι} {k : κ}
    (keyed : key item = some k) (fresh : seen.lookup k = none) :
    Agree key spelled seen (item :: items) ↔ Agree key spelled ((k, item) :: seen) items := by
  have head : ∀ other, (∀ k' first, key other = some k' → ((k, item) :: seen).lookup k' =
    some first →
        spelled first = spelled other) ↔
      Alike key spelled item other ∧
        ∀ k' first, key other = some k' → seen.lookup k' = some first →
          spelled first = spelled other := by
    intro other
    constructor
    · refine fun said => ⟨?_, ?_⟩
      · intro k' itemKeyed otherKeyed
        obtain rfl := Option.some.inj (keyed.symm.trans itemKeyed)
        exact said k item otherKeyed (by rw [List.lookup_cons, beq_self_eq_true])
      · intro k' first otherKeyed found
        refine said k' first otherKeyed ?_
        have different : (k' == k) = false := by
          rw [beq_eq_false_iff_ne]
          rintro rfl
          rw [fresh] at found
          cases found
        rw [List.lookup_cons, different]
        exact found
    · rintro ⟨alike, old⟩ k' first otherKeyed found
      rw [List.lookup_cons] at found
      cases same : k' == k with
      | true =>
          rw [same] at found
          obtain rfl := Option.some.inj found
          exact alike k keyed (eq_of_beq same ▸ otherKeyed)
      | false =>
          rw [same] at found
          exact old k' first otherKeyed found
  have own : ∀ k' first, key item = some k' → seen.lookup k' = some first →
    spelled first = spelled item := by
    intro k' first itemKeyed found
    obtain rfl := Option.some.inj (keyed.symm.trans itemKeyed)
    rw [fresh] at found
    cases found
  simp only [Agree, List.pairwise_cons, List.forall_mem_cons, head, forall₂_and]
  exact ⟨fun agree => ⟨agree.1.2, agree.1.1, agree.2.2⟩, fun agree =>
    ⟨⟨agree.2.1, agree.1⟩, own, agree.2.2⟩⟩

variable [BEq κ] [DecidableEq ν] {conflict : ι → ι → ε}

/-- A step that remembers the first item of each key and fails at an item spelled otherwise. -/
def record (key : ι → Option κ) (spelled : ι → ν) (conflict : ι → ι → ε) (seen : List (κ × ι))
    (item : ι) :
    Except ε (List (κ × ι)) :=
  match key item with
  | none => .ok seen
  | some k =>
      match seen.lookup k with
      | none => .ok ((k, item) :: seen)
      | some first =>
          if spelled first = spelled item then .ok seen else .error (conflict first item)

/-- The pass succeeds exactly when what it reads agrees with what it has seen. -/
theorem foldlM_record_agree [LawfulBEq κ] (items : List ι) (seen : List (κ × ι)) :
    (∃ last, items.foldlM (record key spelled conflict) seen = .ok last) ↔
      Agree key spelled seen items := by
  induction items generalizing seen with
  | nil => exact ⟨fun _ => ⟨.nil, by simp⟩, fun _ => ⟨seen, rfl⟩⟩
  | cons item items ih =>
      rw [List.foldlM_cons]
      cases keyed : key item with
      | none =>
          have passed : record key spelled conflict seen item = .ok seen := by
            simp only [record, keyed]
          rw [passed, ok_bind, ih, agree_cons_of_known (by simp [keyed])]
      | some k =>
          cases found : seen.lookup k with
          | none =>
              have kept : record key spelled conflict seen item = .ok ((k, item) :: seen) := by
                simp only [record, keyed, found]
              rw [kept, ok_bind, ih, agree_cons_of_fresh keyed found]
          | some first =>
              by_cases same : spelled first = spelled item
              · have passed : record key spelled conflict seen item = .ok seen := by
                  simp only [record, keyed, found, same, if_true]
                have known : ∀ k', key item = some k' →
                    ∃ first, seen.lookup k' = some first ∧ spelled first = spelled item := by
                  intro k' itemKeyed
                  obtain rfl := Option.some.inj (keyed.symm.trans itemKeyed)
                  exact ⟨first, found, same⟩
                rw [passed, ok_bind, ih, agree_cons_of_known known]
              · have stopped : record key spelled conflict seen item =
                  .error (conflict first item) := by
                  simp only [record, keyed, found, same, if_false]
                rw [stopped]
                refine ⟨fun run => ?_, fun agree => ?_⟩
                · obtain ⟨last, run⟩ := run
                  cases run
                · exact absurd (agree.2 item List.mem_cons_self k first keyed found) same

theorem foldlM_record_iff [LawfulBEq κ] {items : List ι} :
    (∃ last, items.foldlM (record key spelled conflict) [] = .ok last) ↔
      ∀ first ∈ items, ∀ second ∈ items, Alike key spelled first second := by
  rw [foldlM_record_agree, Agree, pairwise_alike_iff]
  exact and_iff_left (by simp)

end Spelling

end LakehouseEngine.FirstByKey
