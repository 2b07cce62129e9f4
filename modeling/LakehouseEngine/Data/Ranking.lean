import Mathlib.Data.List.Perm.Subperm
import Mathlib.Order.Defs.LinearOrder

/-!
# Ranked rows and truncated merges

An `ORDER BY` with a `LIMIT` leaves the order of tied rows open, so a ranked result is
a relation and not a function.  The central fact is the selection lemma: the first
`n` rows of the union of each part's first `n` rows are the first `n` rows of the
whole.  Where the parts are ranked by another order than the union is, it holds
exactly for the rows on which the two orders never disagree.
-/

namespace LakehouseEngine.Ranking

open Std

variable {α β κ : Type*}

/-! ## Orders of sort keys -/

/-- One sort key: a missing value goes first or last, whatever the direction. -/
def nullable (ascending nullsLast : Bool) (cmp : β → β → Ordering) :
    Option β → Option β → Ordering
  | none, none => .eq
  | none, some _ => if nullsLast then .gt else .lt
  | some _, none => if nullsLast then .lt else .gt
  | some left, some right => if ascending then cmp left right else (cmp left right).swap

instance nullable_transCmp (ascending nullsLast : Bool) (cmp : β → β → Ordering)
    [TransCmp cmp] : TransCmp (nullable ascending nullsLast cmp) where
  eq_swap := by
    intro left right
    cases left with
    | none => cases right <;> cases nullsLast <;> rfl
    | some left =>
        cases right with
        | none => cases nullsLast <;> rfl
        | some right =>
            have swapped : cmp left right = (cmp right left).swap := OrientedCmp.eq_swap
            cases ascending <;> simp [nullable, swapped]
  isLE_trans := by
    intro left middle right
    cases left <;> cases middle <;> cases right <;> cases ascending <;> cases nullsLast <;>
      simp only [nullable, Ordering.isLE_swap, if_true, if_false, Bool.false_eq_true] <;>
      first
      | exact fun lower upper => TransCmp.isLE_trans lower upper
      | exact fun lower upper => TransCmp.isGE_trans lower upper
      | simp

theorem nullable_eq (ascending nullsLast : Bool) (cmp : β → β → Ordering) [LawfulEqCmp cmp]
    (left right : Option β) :
    nullable ascending nullsLast cmp left right = .eq ↔ left = right := by
  cases left <;> cases right <;> cases ascending <;> cases nullsLast <;> simp [nullable]

/-- Sort keys in order, the first that tells two rows apart decides. -/
def lexicographic : List (α → α → Ordering) → α → α → Ordering
  | [] => fun _ _ => .eq
  | cmp :: rest => compareLex cmp (lexicographic rest)

theorem lexicographic_transCmp {keys : List (α → α → Ordering)}
    (each : ∀ cmp ∈ keys, TransCmp cmp) : TransCmp (lexicographic keys) := by
  induction keys with
  | nil => exact { eq_swap := rfl, isLE_trans := fun _ _ => rfl }
  | cons cmp rest ih =>
      have first : TransCmp cmp := each cmp List.mem_cons_self
      have later : TransCmp (lexicographic rest) :=
        ih fun other member => each other (List.mem_cons_of_mem cmp member)
      exact inferInstanceAs (TransCmp (compareLex cmp (lexicographic rest)))

theorem lexicographic_eq (keys : List (α → α → Ordering)) (left right : α) :
    lexicographic keys left right = .eq ↔ ∀ cmp ∈ keys, cmp left right = .eq := by
  induction keys with
  | nil => simp [lexicographic]
  | cons cmp rest ih => simp [lexicographic, compareLex, Ordering.then_eq_eq, ih]

/-! ## Sorted and truncated lists -/

/-- No row ranks before an earlier one. -/
def Ordered (cmp : α → α → Ordering) (rows : List α) : Prop :=
  rows.Pairwise fun first second => (cmp first second).isLE

/-- A result an `ORDER BY` can give. -/
structure IsSortOf (cmp : α → α → Ordering) (rows sorted : List α) : Prop where
  perm : sorted.Perm rows
  ordered : Ordered cmp sorted

/-- `LIMIT`, when there is one. -/
def cap : Option ℕ → List α → List α
  | none, rows => rows
  | some n, rows => rows.take n

/-- A result an `ORDER BY` with a `LIMIT` can give. -/
def IsTop (cmp : α → α → Ordering) (limit : Option ℕ) (rows result : List α) : Prop :=
  ∃ sorted, IsSortOf cmp rows sorted ∧ result = cap limit sorted

theorem exists_isSortOf (cmp : α → α → Ordering) [TransCmp cmp] (rows : List α) :
    ∃ sorted, IsSortOf cmp rows sorted := by
  refine ⟨rows.mergeSort fun first second => (cmp first second).isLE,
    List.mergeSort_perm _ _, List.pairwise_mergeSort ?_ ?_ rows⟩
  · intro first second third
    exact TransCmp.isLE_trans
  · intro first second
    have swapped : cmp second first = (cmp first second).swap := OrientedCmp.eq_swap
    rw [swapped]
    cases cmp first second <;> rfl

variable {cmp : α → α → Ordering} {rows : List α}

theorem IsSortOf.of_perm {others sorted : List α}
    (sort : IsSortOf cmp rows sorted) (perm : rows.Perm others) : IsSortOf cmp others sorted :=
  ⟨sort.perm.trans perm, sort.ordered⟩

theorem IsTop.of_perm {limit : Option ℕ} {others result : List α}
    (top : IsTop cmp limit rows result) (perm : rows.Perm others) :
    IsTop cmp limit others result := by
  obtain ⟨sorted, sort, rfl⟩ := top
  exact ⟨sorted, sort.of_perm perm, rfl⟩

theorem not_isLE_of_lt [OrientedCmp cmp] {first second : α}
    (before : cmp first second = .lt) : ¬ (cmp second first).isLE := by
  have swapped : cmp second first = (cmp first second).swap := OrientedCmp.eq_swap
  rw [swapped, before]
  exact Bool.false_ne_true

theorem lt_of_not_isLE [OrientedCmp cmp] {first second : α}
    (outranked : ¬ (cmp second first).isLE) : cmp first second = .lt := by
  have swapped : cmp second first = (cmp first second).swap := OrientedCmp.eq_swap
  rw [swapped] at outranked
  cases ranked : cmp first second with
  | lt => rfl
  | eq => simp [ranked] at outranked
  | gt => simp [ranked] at outranked

/-- Ties may be broken either way, but the sequence of sort-key values is fixed. -/
theorem IsSortOf.map_eq [TransCmp cmp] {key : α → κ}
    (keyed : ∀ first second, cmp first second = .eq → key first = key second)
    {left right : List α} (leftSort : IsSortOf cmp rows left)
    (rightSort : IsSortOf cmp rows right) : left.map key = right.map key := by
  induction left generalizing rows right with
  | nil =>
      have empty : right = [] := (rightSort.perm.trans leftSort.perm.symm).eq_nil
      rw [empty]
  | cons least rest ih =>
      have same : right.Perm (least :: rest) := rightSort.perm.trans leftSort.perm.symm
      obtain ⟨before, after, rfl⟩ :=
        List.append_of_mem (same.mem_iff.mpr List.mem_cons_self)
      have remaining : (before ++ after).Perm rest :=
        (List.perm_middle.symm.trans same).cons_inv
      obtain ⟨least_le, restOrdered⟩ := List.pairwise_cons.mp leftSort.ordered
      obtain ⟨beforeOrdered, afterOrdered, across⟩ :=
        List.pairwise_append.mp rightSort.ordered
      -- What stands before the least row on the right is tied with it.
      have tied : ∀ row ∈ before, key row = key least := by
        intro row member
        apply keyed
        have upper : (cmp row least).isLE := across row member least List.mem_cons_self
        have lower : (cmp least row).isLE :=
          least_le row (remaining.mem_iff.mp (List.mem_append_left after member))
        have swapped : cmp least row = (cmp row least).swap := OrientedCmp.eq_swap
        rw [swapped, Ordering.isLE_swap] at lower
        exact Ordering.eq_eq_of_isLE_of_isGE upper lower
      have ordered : Ordered cmp (before ++ after) :=
        List.pairwise_append.mpr ⟨beforeOrdered, (List.pairwise_cons.mp afterOrdered).2,
          fun row member other later => across row member other (List.mem_cons_of_mem _ later)⟩
      have tail : rest.map key = (before ++ after).map key :=
        ih ⟨List.Perm.refl _, restOrdered⟩ ⟨remaining, ordered⟩
      have constant : before.map key = List.replicate before.length (key least) := by
        rw [List.eq_replicate_iff]
        refine ⟨List.length_map .., ?_⟩
        intro value member
        obtain ⟨row, found, rfl⟩ := List.mem_map.mp member
        exact tied row found
      calc (least :: rest).map key
          = key least :: (before.map key ++ after.map key) := by
            rw [List.map_cons, tail, List.map_append]
        _ = (before ++ least :: after).map key := by
            rw [List.map_append, List.map_cons, constant, ← List.cons_append,
              ← List.replicate_succ, List.replicate_succ', List.append_assoc,
              List.singleton_append]

theorem IsTop.map_eq [TransCmp cmp] {key : α → κ}
    (keyed : ∀ first second, cmp first second = .eq → key first = key second)
    {limit : Option ℕ} {left right : List α} (leftTop : IsTop cmp limit rows left)
    (rightTop : IsTop cmp limit rows right) : left.map key = right.map key := by
  obtain ⟨leftSorted, leftSort, rfl⟩ := leftTop
  obtain ⟨rightSorted, rightSort, rfl⟩ := rightTop
  have same : leftSorted.map key = rightSorted.map key := leftSort.map_eq keyed rightSort
  cases limit with
  | none => exact same
  | some n => simp only [cap, List.map_take, same]

theorem subperm_map (image : α → κ) {left right : List α} (sub : left.Subperm right) :
    (left.map image).Subperm (right.map image) := by
  obtain ⟨found, perm, sublist⟩ := sub
  exact ⟨found.map image, perm.map image, sublist.map image⟩

theorem cap_sublist (limit : Option ℕ) (rows : List α) : (cap limit rows).Sublist rows := by
  cases limit with
  | none => exact List.Sublist.refl rows
  | some n => exact List.take_sublist n rows

theorem IsTop.subperm {limit : Option ℕ} {result : List α}
    (top : IsTop cmp limit rows result) : result.Subperm rows := by
  obtain ⟨sorted, sort, rfl⟩ := top
  exact (cap_sublist limit sorted).subperm.trans sort.perm.subperm

theorem IsTop.length_eq {n : ℕ} {result : List α}
    (top : IsTop cmp (some n) rows result) : result.length = min n rows.length := by
  obtain ⟨sorted, sort, rfl⟩ := top
  rw [cap, List.length_take, sort.perm.length_eq]

/-- Uncapped parts keep every row. -/
theorem flatten_perm_of_uncapped {parts tops : List (List α)}
    (each : List.Forall₂ (IsTop cmp none) parts tops) : tops.flatten.Perm parts.flatten := by
  induction each with
  | nil => exact List.Perm.refl _
  | cons top _ ih =>
      obtain ⟨sorted, sort, rfl⟩ := top
      rw [List.flatten_cons, List.flatten_cons]
      exact sort.perm.append ih

/-! ## The selection lemma -/

section Selection

variable {cmp : α → α → Ordering} [TransCmp cmp]

/-- Fewer than `n` rows rank strictly before one of the first `n`. -/
theorem countP_lt_of_mem_take {sorted : List α} (ordered : Ordered cmp sorted) {n : ℕ} {row : α}
    (member : row ∈ sorted.take n) : sorted.countP (fun other => cmp other row == .lt) < n := by
  obtain ⟨before, after, split⟩ := List.append_of_mem member
  have whole : sorted = before ++ row :: (after ++ sorted.drop n) := by
    rw [← List.cons_append, ← List.append_assoc, ← split, List.take_append_drop]
  have short : before.length < n := by
    have := congrArg List.length split
    simp only [List.length_append, List.length_cons] at this
    have := List.length_take_le n sorted
    omega
  rw [whole] at ordered ⊢
  obtain ⟨-, later, -⟩ := List.pairwise_append.mp ordered
  have none : (row :: (after ++ sorted.drop n)).countP (fun other => cmp other row == .lt) = 0 := by
    rw [List.countP_eq_zero]
    intro other found
    have notBefore : (cmp row other).isLE := by
      rcases List.mem_cons.mp found with rfl | found
      · exact ReflCmp.isLE_rfl
      · exact (List.pairwise_cons.mp later).1 other found
    intro before
    exact absurd notBefore (not_isLE_of_lt (beq_iff_eq.mp before))
  rw [List.countP_append, none, Nat.add_zero]
  exact Nat.lt_of_le_of_lt List.countP_le_length short

omit [TransCmp cmp] in
/-- A row that a part drops has the part's `n` kept rows before it. -/
theorem exists_dropped {n : ℕ} {parts tops : List (List α)}
    (each : List.Forall₂ (IsTop cmp (some n)) parts tops) :
    ∃ dropped, (tops.flatten ++ dropped).Perm parts.flatten ∧
      ∀ row ∈ dropped, n ≤ tops.flatten.countP fun other => (cmp other row).isLE := by
  induction each with
  | nil => exact ⟨[], List.Perm.refl _, by simp⟩
  | @cons part top parts tops isTop _ ih =>
      obtain ⟨sorted, sort, rfl⟩ := isTop
      obtain ⟨dropped, perm, behind⟩ := ih
      refine ⟨sorted.drop n ++ dropped, ?_, ?_⟩
      · have own : (sorted.take n ++ sorted.drop n).Perm part := by
          rw [List.take_append_drop]
          exact sort.perm
        simp only [List.flatten_cons, cap]
        refine List.Perm.trans ?_ (own.append perm)
        rw [List.append_assoc, List.append_assoc]
        refine List.Perm.append_left _ ?_
        rw [← List.append_assoc, ← List.append_assoc]
        exact List.perm_append_comm.append_right dropped
      · intro row member
        simp only [List.flatten_cons, cap, List.countP_append]
        rcases List.mem_append.mp member with own | other
        · have ordered := sort.ordered
          rw [← List.take_append_drop n sorted] at ordered
          obtain ⟨-, -, across⟩ := List.pairwise_append.mp ordered
          have all : (sorted.take n).countP (fun other => (cmp other row).isLE) =
              (sorted.take n).length :=
            List.countP_eq_length.mpr fun other kept => across other kept row own
          have nonempty : 0 < (sorted.drop n).length := List.length_pos_of_mem own
          rw [all, List.length_take]
          rw [List.length_drop] at nonempty
          omega
        · have := behind row other
          omega

/-- The first rows of the parts' first rows are the first rows of the whole. -/
theorem isTop_of_parts {n : ℕ} {parts tops : List (List α)} {result : List α}
    (each : List.Forall₂ (IsTop cmp (some n)) parts tops)
    (merged : IsTop cmp (some n) tops.flatten result) :
    IsTop cmp (some n) parts.flatten result := by
  obtain ⟨sorted, sort, rfl⟩ := merged
  obtain ⟨dropped, perm, behind⟩ := exists_dropped each
  obtain ⟨rest, restSort⟩ := exists_isSortOf cmp (sorted.drop n ++ dropped)
  have ordered := sort.ordered
  rw [← List.take_append_drop n sorted] at ordered
  obtain ⟨firstOrdered, -, across⟩ := List.pairwise_append.mp ordered
  refine ⟨sorted.take n ++ rest, ⟨?_, ?_⟩, ?_⟩
  · refine (restSort.perm.append_left _).trans ?_
    rw [← List.append_assoc, List.take_append_drop]
    exact (sort.perm.append_right dropped).trans perm
  · refine List.pairwise_append.mpr ⟨firstOrdered, restSort.ordered, ?_⟩
    intro kept keptMember row member
    rcases List.mem_append.mp (restSort.perm.mem_iff.mp member) with late | lost
    · exact across kept keptMember row late
    · -- Otherwise the `n` rows before the lost one would all rank before the kept one.
      by_contra outranked
      have before : cmp row kept = .lt := lt_of_not_isLE outranked
      have many : n ≤ sorted.countP fun other => (cmp other row).isLE := by
        rw [sort.perm.countP_eq]
        exact behind row lost
      have few := countP_lt_of_mem_take sort.ordered keptMember
      have monotone : sorted.countP (fun other => (cmp other row).isLE) ≤
          sorted.countP fun other => cmp other kept == .lt := by
        apply List.countP_mono_left
        intro other _ upTo
        simp [TransCmp.lt_of_isLE_of_lt upTo before]
      omega
  · -- A row can only be left out when the merge already has `n` rows.
    cases rest with
    | nil => simp [cap, List.take_take]
    | cons row rest =>
        have full : n ≤ sorted.length := by
          rcases List.mem_append.mp (restSort.perm.mem_iff.mp List.mem_cons_self) with late | lost
          · have nonempty : 0 < (sorted.drop n).length := List.length_pos_of_mem late
            rw [List.length_drop] at nonempty
            omega
          · rw [sort.perm.length_eq]
            exact Nat.le_trans (behind row lost) List.countP_le_length
        simp only [cap]
        rw [List.take_left' (by rw [List.length_take, Nat.min_eq_left full])]

end Selection

/-! ## Parts ranked by another order -/

/-- Two rows that the parts rank one way and the merge the other way. -/
def NoInversion (inner outer : α → α → Ordering) (rows : List α) : Prop :=
  ∀ first ∈ rows, ∀ second ∈ rows, inner first second = .lt → outer second first ≠ .lt

section Inversion

variable {inner outer : α → α → Ordering}

theorem NoInversion.mono {rows others : List α} (agree : NoInversion inner outer rows)
    (subset : others ⊆ rows) : NoInversion inner outer others :=
  fun first member second member' => agree first (subset member) second (subset member')

variable [TransCmp outer]

/-- Without an inversion, what the inner order sorts is sorted for the outer one. -/
theorem IsSortOf.of_noInversion
    (tied : ∀ first second, inner first second = .eq → outer first second = .eq)
    {rows sorted : List α} (agree : NoInversion inner outer rows)
    (sort : IsSortOf inner rows sorted) : IsSortOf outer rows sorted where
  perm := sort.perm
  ordered := by
    refine sort.ordered.imp_of_mem ?_
    intro first second firstMember secondMember ranked
    cases order : inner first second with
    | lt =>
        by_contra outranked
        exact agree first (sort.perm.mem_iff.mp firstMember) second
          (sort.perm.mem_iff.mp secondMember) order (lt_of_not_isLE outranked)
    | eq =>
        rw [tied first second order]
        rfl
    | gt => simp [order] at ranked

theorem IsTop.of_noInversion
    (tied : ∀ first second, inner first second = .eq → outer first second = .eq)
    {limit : Option ℕ} {rows result : List α} (agree : NoInversion inner outer rows)
    (top : IsTop inner limit rows result) : IsTop outer limit rows result := by
  obtain ⟨sorted, sort, rfl⟩ := top
  exact ⟨sorted, sort.of_noInversion tied agree, rfl⟩

/-- Without an inversion, merging the parts' first rows gives first rows of the whole. -/
theorem isTop_of_noInversion
    (tied : ∀ first second, inner first second = .eq → outer first second = .eq)
    {n : ℕ} {parts tops : List (List α)} {result : List α}
    (agree : NoInversion inner outer parts.flatten)
    (each : List.Forall₂ (IsTop inner (some n)) parts tops)
    (merged : IsTop outer (some n) tops.flatten result) :
    IsTop outer (some n) parts.flatten result := by
  refine isTop_of_parts ?_ merged
  clear merged
  induction each with
  | nil => exact .nil
  | @cons part top parts tops isTop _ ih =>
      rw [List.flatten_cons] at agree
      exact .cons (isTop.of_noInversion tied (agree.mono (List.subset_append_left _ _)))
        (ih (agree.mono (List.subset_append_right _ _)))

/-- Lists whose first `n` entries are the same up to order, for every `n`, are equal. -/
theorem eq_of_take_perm {left right : List κ}
    (same : ∀ n, (left.take n).Perm (right.take n)) : left = right := by
  have take_eq : ∀ n, left.take n = right.take n := by
    intro n
    induction n with
    | zero => rfl
    | succ n ih =>
        have next := same (n + 1)
        rw [List.take_add_one, List.take_add_one, ih, List.perm_append_left_iff] at next
        rw [List.take_add_one, List.take_add_one, ih]
        congr 1
        cases leftNext : left[n]? with
        | none =>
            rw [leftNext] at next
            exact next.symm.eq_nil.symm
        | some value =>
            rw [leftNext] at next
            exact (List.perm_singleton.mp next.symm).symm
  have whole := take_eq (left.length + right.length)
  rwa [List.take_of_length_le (by omega), List.take_of_length_le (by omega)] at whole

theorem Ordered.of_map_eq {key : α → κ}
    (keyed : ∀ first second, key first = key second → outer first second = .eq)
    {left right : List α} (ordered : Ordered outer right)
    (same : left.map key = right.map key) : Ordered outer left := by
  have length : left.length = right.length := by simpa using congrArg List.length same
  have tied : ∀ (i : ℕ) (leftBound : i < left.length) (rightBound : i < right.length),
      outer left[i] right[i] = .eq := by
    intro i leftBound rightBound
    apply keyed
    simpa [leftBound, rightBound] using congrArg (fun values => values[i]?) same
  rw [Ordered, List.pairwise_iff_getElem] at ordered ⊢
  intro i j iBound jBound before
  rw [length] at iBound jBound
  rw [TransCmp.congr_left (tied i _ iBound), TransCmp.congr_right (tied j _ jBound)]
  exact ordered i j iBound jBound before

/-- When cutting after `n` rows of the inner order never changes the sort keys of the
first `n` rows of the outer one, the two orders have no inversion. -/
theorem noInversion_of_take [TransCmp inner] {key : α → κ}
    (keyed : ∀ first second, key first = key second → outer first second = .eq) {rows : List α}
    (agree : ∀ n sorted expected, IsSortOf inner rows sorted → IsSortOf outer rows expected →
      ((sorted.take n).map key).Perm ((expected.take n).map key)) :
    NoInversion inner outer rows := by
  obtain ⟨sorted, sort⟩ := exists_isSortOf inner rows
  obtain ⟨expected, expectedSort⟩ := exists_isSortOf outer rows
  have same : sorted.map key = expected.map key := by
    apply eq_of_take_perm
    intro n
    rw [← List.map_take, ← List.map_take]
    exact agree n sorted expected sort expectedSort
  have ordered : Ordered outer sorted := expectedSort.ordered.of_map_eq keyed same
  intro first firstMember second secondMember before outranked
  obtain ⟨i, iBound, rfl⟩ := List.mem_iff_getElem.mp (sort.perm.mem_iff.mpr firstMember)
  obtain ⟨j, jBound, rfl⟩ := List.mem_iff_getElem.mp (sort.perm.mem_iff.mpr secondMember)
  rcases Nat.lt_trichotomy i j with earlier | rfl | later
  · exact not_isLE_of_lt outranked (List.pairwise_iff_getElem.mp ordered i j iBound jBound earlier)
  · exact not_isLE_of_lt before ReflCmp.isLE_rfl
  · exact not_isLE_of_lt before
      (List.pairwise_iff_getElem.mp sort.ordered j i jBound iBound later)

end Inversion

end LakehouseEngine.Ranking
