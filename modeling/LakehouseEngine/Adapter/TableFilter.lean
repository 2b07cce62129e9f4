import LakehouseEngine.Data.Fallible
import LakehouseEngine.Expression.Node
import LakehouseEngine.Text.Glob
import LakehouseEngine.Text.WhiteSpace

/-!
# The table filter of a virtual schema

A pattern is matched by one pass over the name that remembers only the last run it met.  A
mismatch returns to that run and lets it take one more character, which loses nothing: whatever
an earlier run could still take, the last one can take too.
-/

namespace LakehouseEngine

def wildcardRun : Char := '*'

def wildcardOne : Char := '?'

/-- `Pattern`. -/
structure Pattern where
  chars : List Char
  deriving DecidableEq

/-! ## The matcher -/

/-- Where the pass stands: `p` in the pattern, `n` in the name, and after the last run with the
first character it has not taken.  Since that run only single characters were passed. -/
structure PatternCursor (pattern name : List Char) where
  p : ℕ
  n : ℕ
  lastRun : Option (ℕ × ℕ)
  inside : p ≤ pattern.length
  aligned : ∀ run ∈ lastRun, run.1 ≤ p ∧ n = run.2 + (p - run.1) ∧
    ∀ mark ∈ (pattern.drop run.1).take (p - run.1), mark ≠ wildcardRun

namespace PatternCursor

variable {pattern name : List Char}

/-- The start of the pass. -/
def start (pattern name : List Char) : PatternCursor pattern name where
  p := 0
  n := 0
  lastRun := none
  inside := Nat.zero_le _
  aligned run found := by cases found

/-- The cursor right after a run that has taken nothing of the name from `n` on. -/
def afterRun (p n : ℕ) (inside : p ≤ pattern.length) : PatternCursor pattern name where
  p := p
  n := n
  lastRun := some (p, n)
  inside := inside
  aligned run found := by
    obtain rfl := Option.some.inj found
    simp

/-- Past one character of the pattern and one of the name. -/
def past (cursor : PatternCursor pattern name) (inside : cursor.p < pattern.length)
    (single : pattern[cursor.p] ≠ wildcardRun) : PatternCursor pattern name where
  p := cursor.p + 1
  n := cursor.n + 1
  lastRun := cursor.lastRun
  inside := inside
  aligned run last := by
    obtain ⟨behind, level, solid⟩ := cursor.aligned run last
    refine ⟨by omega, by omega, ?_⟩
    have next : (pattern.drop run.1)[cursor.p - run.1]? = some pattern[cursor.p] := by
      rw [List.getElem?_drop, Nat.add_sub_cancel' behind, List.getElem?_eq_getElem inside]
    rw [Nat.succ_sub behind, List.take_add_one, next]
    intro mark member
    rcases List.mem_append.mp member with earlier | this
    · exact solid mark earlier
    · obtain rfl := List.mem_singleton.mp this
      exact single

/-- Back to the last run, which takes one more character. -/
def backtrack (cursor : PatternCursor pattern name) : Option (PatternCursor pattern name) :=
  match found : cursor.lastRun with
  | none => none
  | some run =>
      some (afterRun run.1 (run.2 + 1) ((cursor.aligned run found).1.trans cursor.inside))

/-- One turn of the loop; nothing where it returns `false`. -/
def step (cursor : PatternCursor pattern name) (unread : cursor.n < name.length) :
    Option (PatternCursor pattern name) :=
  if inside : cursor.p < pattern.length then
    if isRun : pattern[cursor.p] = wildcardRun then
      some (afterRun (cursor.p + 1) cursor.n inside)
    else if pattern[cursor.p] = wildcardOne ∨ pattern[cursor.p] = name[cursor.n] then
      some (cursor.past inside isRun)
    else
      cursor.backtrack
  else
    cursor.backtrack

/-- What the last run can still take, or one more than any run can. -/
def left (cursor : PatternCursor pattern name) : ℕ :=
  match cursor.lastRun with
  | none => name.length + 1
  | some run => name.length - run.2

/-- The pattern at `p` does not take the character at `n`. -/
def Mismatch (cursor : PatternCursor pattern name) (unread : cursor.n < name.length) : Prop :=
  ∀ inside : cursor.p < pattern.length, pattern[cursor.p] ≠ wildcardRun ∧
    pattern[cursor.p] ≠ wildcardOne ∧ pattern[cursor.p] ≠ name[cursor.n]

variable {cursor : PatternCursor pattern name}

theorem step_of_mismatch {unread : cursor.n < name.length}
    (mismatch : cursor.Mismatch unread) : cursor.step unread = cursor.backtrack := by
  unfold step
  split
  · next inside =>
      obtain ⟨notRun, notOne, notSame⟩ := mismatch inside
      rw [dif_neg notRun, if_neg (not_or.mpr ⟨notOne, notSame⟩)]
  · rfl

/-- What one turn can do. -/
theorem step_cases (cursor : PatternCursor pattern name) (unread : cursor.n < name.length) :
    (∃ inside : cursor.p < pattern.length, pattern[cursor.p] = wildcardRun ∧
      cursor.step unread = some (afterRun (cursor.p + 1) cursor.n inside)) ∨
    (∃ inside single, (pattern[cursor.p] = wildcardOne ∨ pattern[cursor.p] = name[cursor.n]) ∧
      cursor.step unread = some (cursor.past inside single)) ∨
    (cursor.Mismatch unread ∧ ∃ run inside, cursor.lastRun = some run ∧
      cursor.step unread = some (afterRun run.1 (run.2 + 1) inside)) ∨
    (cursor.Mismatch unread ∧ cursor.lastRun = none ∧ cursor.step unread = none) := by
  by_cases mismatch : cursor.Mismatch unread
  · refine .inr (.inr ?_)
    rw [step_of_mismatch mismatch, backtrack]
    split
    · next found => exact .inr ⟨mismatch, found, rfl⟩
    · next run found =>
        exact .inl ⟨mismatch, run, (cursor.aligned run found).1.trans cursor.inside, found, rfl⟩
  · obtain ⟨inside, taken⟩ : ∃ inside : cursor.p < pattern.length,
        ¬ (pattern[cursor.p] ≠ wildcardRun ∧ pattern[cursor.p] ≠ wildcardOne ∧
          pattern[cursor.p] ≠ name[cursor.n]) := by
      simpa only [Mismatch, not_forall] using mismatch
    by_cases isRun : pattern[cursor.p] = wildcardRun
    · exact .inl ⟨inside, isRun, by rw [step, dif_pos inside, dif_pos isRun]⟩
    · have single : pattern[cursor.p] = wildcardOne ∨ pattern[cursor.p] = name[cursor.n] := by
        tauto
      exact .inr (.inl ⟨inside, isRun, single,
        by rw [step, dif_pos inside, dif_neg isRun, if_pos single]⟩)

theorem step_decreases {next : PatternCursor pattern name} {unread : cursor.n < name.length}
    (stepped : cursor.step unread = some next) :
    Prod.Lex (· < ·) (· < ·) (next.left, pattern.length - next.p)
      (cursor.left, pattern.length - cursor.p) := by
  rcases cursor.step_cases unread with
    ⟨inside, -, made⟩ | ⟨inside, single, -, made⟩ | ⟨-, run, inside, last, made⟩ | ⟨-, -, made⟩
  · obtain rfl := Option.some.inj (made.symm.trans stepped)
    cases last : cursor.lastRun with
    | none =>
        refine Prod.Lex.left _ _ ?_
        simp only [left, afterRun, last]
        omega
    | some run =>
        have level := (cursor.aligned run last).2.1
        rw [Prod.lex_def]
        simp only [left, afterRun, last]
        omega
  · obtain rfl := Option.some.inj (made.symm.trans stepped)
    have same : (cursor.past inside single).left = cursor.left := rfl
    rw [same]
    refine Prod.Lex.right _ ?_
    simp only [past]
    omega
  · obtain rfl := Option.some.inj (made.symm.trans stepped)
    have level := (cursor.aligned run last).2.1
    refine Prod.Lex.left _ _ ?_
    simp only [left, afterRun, last]
    omega
  · cases made.symm.trans stepped

/-- The loop from a cursor on. -/
def loop (cursor : PatternCursor pattern name) : Bool :=
  if unread : cursor.n < name.length then
    match _stepped : cursor.step unread with
    | none => false
    | some next => next.loop
  else
    (pattern.drop cursor.p).all (· == wildcardRun)
termination_by (cursor.left, pattern.length - cursor.p)
decreasing_by exact step_decreases _stepped

/-! ## Meaning of a cursor -/

/-- The pattern from `p` on matches the name from `n` on. -/
abbrev MatchesFrom (pattern name : List Char) (p n : ℕ) : Prop :=
  Glob.Matches wildcardRun wildcardOne (pattern.drop p) (name.drop n)

/-- What is left can match, here or once the last run has taken more. -/
def Viable (cursor : PatternCursor pattern name) : Prop :=
  MatchesFrom pattern name cursor.p cursor.n ∨
    ∃ run ∈ cursor.lastRun, ∃ k, run.2 < k ∧ k ≤ name.length ∧ MatchesFrom pattern name run.1 k

/-- A longer run reaches the cursor's place in the pattern only further on in the name. -/
theorem matchesFrom_of_longer {run : ℕ × ℕ}
    (last : cursor.lastRun = some run) {k : ℕ} (longer : run.2 < k) (inside : k ≤ name.length)
    (matched : MatchesFrom pattern name run.1 k) :
    ∃ n, cursor.n < n ∧ n ≤ name.length ∧ MatchesFrom pattern name cursor.p n := by
  obtain ⟨behind, level, solid⟩ := cursor.aligned run last
  have cut : pattern.drop run.1 =
      (pattern.drop run.1).take (cursor.p - run.1) ++ pattern.drop cursor.p := by
    conv_lhs => rw [← List.take_append_drop (cursor.p - run.1) (pattern.drop run.1)]
    rw [List.drop_drop, Nat.add_sub_cancel' behind]
  have size : ((pattern.drop run.1).take (cursor.p - run.1)).length = cursor.p - run.1 := by
    have := cursor.inside
    rw [List.length_take, List.length_drop]
    omega
  rw [MatchesFrom, cut] at matched
  obtain ⟨fits, rest⟩ := Glob.drop_of_matches_solid solid matched
  rw [size, List.length_drop] at fits
  rw [size, List.drop_drop] at rest
  exact ⟨k + (cursor.p - run.1), by omega, by omega, rest⟩

theorem matchesFrom_run {p n : ℕ} (inside : p < pattern.length) (isRun : pattern[p] = wildcardRun)
    (within : n ≤ name.length) :
    MatchesFrom pattern name p n ↔ ∃ k, n ≤ k ∧ k ≤ name.length ∧
      MatchesFrom pattern name (p + 1) k := by
  rw [MatchesFrom, List.drop_eq_getElem_cons inside, isRun, Glob.matches_run]
  constructor
  · rintro ⟨k, fits, matched⟩
    rw [List.length_drop] at fits
    rw [List.drop_drop] at matched
    exact ⟨n + k, by omega, by omega, matched⟩
  · rintro ⟨k, after, fits, matched⟩
    refine ⟨k - n, by rw [List.length_drop]; omega, ?_⟩
    rwa [List.drop_drop, Nat.add_sub_cancel' after]

theorem matchesFrom_single {p n : ℕ} (inside : p < pattern.length)
    (single : pattern[p] ≠ wildcardRun)
    (unread : n < name.length) :
    MatchesFrom pattern name p n ↔ (pattern[p] = wildcardOne ∨ pattern[p] = name[n]) ∧
      MatchesFrom pattern name (p + 1) (n + 1) := by
  rw [MatchesFrom, List.drop_eq_getElem_cons inside, Glob.matches_solid single,
    List.drop_eq_getElem_cons unread]
  constructor
  · rintro ⟨item, rest, cut, taken, matched⟩
    obtain ⟨rfl, rfl⟩ := List.cons.inj cut
    exact ⟨taken, matched⟩
  · rintro ⟨taken, matched⟩
    exact ⟨_, _, rfl, taken, matched⟩

theorem not_matchesFrom_of_mismatch
    {unread : cursor.n < name.length} (mismatch : cursor.Mismatch unread) :
    ¬ MatchesFrom pattern name cursor.p cursor.n := by
  intro matched
  by_cases inside : cursor.p < pattern.length
  · obtain ⟨notRun, notOne, notSame⟩ := mismatch inside
    rcases ((matchesFrom_single inside notRun unread).mp matched).1 with one | same
    · exact notOne one
    · exact notSame same
  · rw [MatchesFrom, List.drop_eq_nil_of_le (Nat.le_of_not_lt inside), Glob.matches_nil_left,
      List.drop_eq_nil_iff] at matched
    omega

/-- Right after a run. -/
theorem viable_afterRun {p n : ℕ} (inside : p ≤ pattern.length) (within : n ≤ name.length) :
    (afterRun p n inside : PatternCursor pattern name).Viable ↔
      ∃ k, n ≤ k ∧ k ≤ name.length ∧ MatchesFrom pattern name p k := by
  constructor
  · rintro (here | ⟨run, found, k, longer, fits, matched⟩)
    · exact ⟨n, le_rfl, within, here⟩
    · obtain rfl := Option.some.inj found
      exact ⟨k, longer.le, fits, matched⟩
  · rintro ⟨k, after, fits, matched⟩
    rcases after.eq_or_lt with rfl | longer
    · exact .inl matched
    · exact .inr ⟨(p, n), rfl, k, longer, fits, matched⟩

/-- One turn keeps what can match. -/
theorem viable_step {cursor : PatternCursor pattern name} {unread : cursor.n < name.length} :
    cursor.Viable ↔ ∃ next, cursor.step unread = some next ∧ next.Viable := by
  rcases cursor.step_cases unread with
    ⟨inside, isRun, made⟩ | ⟨inside, single, taken, made⟩ | ⟨mismatch, run, inside, last, made⟩ |
      ⟨mismatch, last, made⟩
  · rw [made]
    simp only [Option.some.injEq, exists_eq_left', viable_afterRun inside unread.le,
      ← matchesFrom_run inside isRun unread.le]
    refine ⟨?_, .inl⟩
    rintro (here | ⟨run, found, k, longer, fits, matched⟩)
    · exact here
    · -- What an earlier run could still take, this one takes.
      obtain ⟨n, after, within, later⟩ := matchesFrom_of_longer found longer fits matched
      obtain ⟨m, further, most, rest⟩ := (matchesFrom_run inside isRun within).mp later
      exact (matchesFrom_run inside isRun unread.le).mpr ⟨m, by omega, most, rest⟩
  · rw [made]
    simp only [Option.some.injEq, exists_eq_left', Viable, past,
      matchesFrom_single inside single unread, taken, true_and]
  · rw [made]
    have level := (cursor.aligned run last).2.1
    simp only [Option.some.injEq, exists_eq_left', viable_afterRun inside
      (by omega : run.2 + 1 ≤ name.length)]
    constructor
    · rintro (here | ⟨other, found, k, longer, fits, matched⟩)
      · exact absurd here (not_matchesFrom_of_mismatch mismatch)
      · obtain rfl := Option.some.inj (last.symm.trans found)
        exact ⟨k, longer, fits, matched⟩
    · rintro ⟨k, longer, fits, matched⟩
      exact .inr ⟨run, last, k, longer, fits, matched⟩
  · simp [made, Viable, last, not_matchesFrom_of_mismatch mismatch]

/-- At the end of the name only runs may be left. -/
theorem viable_of_read (read : ¬ cursor.n < name.length) :
    cursor.Viable ↔ ∀ mark ∈ pattern.drop cursor.p, mark = wildcardRun := by
  have ends : name.drop cursor.n = [] := List.drop_eq_nil_of_le (Nat.le_of_not_lt read)
  constructor
  · rintro (here | ⟨run, found, k, longer, fits, matched⟩)
    · rwa [MatchesFrom, ends, Glob.matches_nil_right] at here
    · obtain ⟨n, after, within, -⟩ := matchesFrom_of_longer found longer fits matched
      omega
  · intro runs
    refine .inl ?_
    rwa [MatchesFrom, ends, Glob.matches_nil_right]

theorem loop_iff_viable (cursor : PatternCursor pattern name) : cursor.loop = true ↔
    cursor.Viable := by
  fun_induction loop cursor with
  | case1 cursor unread stopped =>
      have turn := @viable_step _ _ cursor unread
      simp [turn, stopped]
  | case2 cursor unread next stepped ih =>
      have turn := @viable_step _ _ cursor unread
      rw [ih, turn, stepped]
      simp
  | case3 cursor read => simp [viable_of_read read]

end PatternCursor

/-- `Pattern::matches`. -/
def Pattern.matches (pattern : Pattern) (name : String) : Bool :=
  (PatternCursor.start pattern.chars name.toList).loop

/-- What it means that a name matches. -/
def Pattern.Takes (pattern : Pattern) (name : String) : Prop :=
  Glob.Matches wildcardRun wildcardOne pattern.chars name.toList

theorem Pattern.matches_iff (pattern : Pattern) (name : String) :
    pattern.matches name = true ↔ pattern.Takes name := by
  rw [Pattern.matches, PatternCursor.loop_iff_viable]
  constructor
  · rintro (here | ⟨run, found, -⟩)
    · exact here
    · cases found
  · exact .inl

/-! ## Property values -/

section Filter

variable [Unicode]

def expectedList : String := "a comma-separated list of non-empty table name patterns"

/-- The entries of a property value, without the white space around them. -/
def patternEntries (raw : String) : List String :=
  (raw.toList.splitOn ',').map fun entry => String.ofList (WhiteSpace.trim entry)

/-- `parse_patterns`. -/
def parsePatterns (raw : String) : Except String (List Pattern) :=
  (patternEntries raw).mapM fun entry =>
    if entry = "" then .error expectedList else .ok ⟨(upper entry).toList⟩

/-- `TableFilter`. -/
structure TableFilter where
  includePatterns : Option (List Pattern)
  excludePatterns : List Pattern
  deriving DecidableEq

/-- `TableFilter::new`. -/
def TableFilter.new (includePatterns excludePatterns : Option (List Pattern)) : TableFilter where
  includePatterns := includePatterns
  excludePatterns := excludePatterns.getD []

/-- `TableFilter::exposes`. -/
def TableFilter.exposes (filter : TableFilter) (virtualTableName : String) : Bool :=
  let included := match filter.includePatterns with
    | none => true
    | some patterns => patterns.any (·.matches virtualTableName)
  included && !filter.excludePatterns.any (·.matches virtualTableName)

theorem mem_of_parsePatterns {raw : String} {patterns : List Pattern}
    (parsed : parsePatterns raw = .ok patterns) {pattern : Pattern} :
    pattern ∈ patterns ↔ ∃ entry ∈ patternEntries raw, pattern = ⟨(upper entry).toList⟩ := by
  have read : ∀ {entry : String} {pattern : Pattern},
      (if entry = "" then Except.error expectedList else .ok ⟨(upper entry).toList⟩) =
        Except.ok pattern → pattern = ⟨(upper entry).toList⟩ := by
    intro entry pattern made
    split at made
    · cases made
    · exact (Except.ok.inj made).symm
  constructor
  · intro member
    obtain ⟨entry, among, made⟩ := (mem_of_mapM_ok parsed pattern).mp member
    exact ⟨entry, among, read made⟩
  · rintro ⟨entry, among, rfl⟩
    obtain ⟨pattern, made⟩ := exists_of_mapM_ok parsed entry among
    obtain rfl := read made
    exact (mem_of_mapM_ok parsed _).mpr ⟨entry, among, made⟩

/-- What the entries of a property value select. -/
def SelectedBy (raw virtualTableName : String) : Prop :=
  ∃ entry ∈ patternEntries raw, Pattern.Takes ⟨(upper entry).toList⟩ virtualTableName

theorem any_matches_iff {raw name : String} {patterns : List Pattern}
    (parsed : parsePatterns raw = .ok patterns) :
    patterns.any (·.matches name) = true ↔ SelectedBy raw name := by
  simp only [List.any_eq_true, Pattern.matches_iff, SelectedBy]
  constructor
  · rintro ⟨pattern, member, taken⟩
    obtain ⟨entry, among, rfl⟩ := (mem_of_parsePatterns parsed).mp member
    exact ⟨entry, among, taken⟩
  · rintro ⟨entry, among, taken⟩
    exact ⟨_, (mem_of_parsePatterns parsed).mpr ⟨entry, among, rfl⟩, taken⟩

/-- A pattern matches the names that split along it, and a filter read from two property values
exposes the names that the first selects, if it is given, and the second does not. -/
theorem exposes_iff_selected (tableInclude tableExclude : Option String)
    (includePatterns excludePatterns : Option (List Pattern))
    (included : tableInclude.mapM parsePatterns = .ok includePatterns)
    (excluded : tableExclude.mapM parsePatterns = .ok excludePatterns) :
    (∀ (pattern : Pattern) (name : String), pattern.matches name = true ↔
      Glob.Matches '*' '?' pattern.chars name.toList) ∧
    ∀ name : String, (TableFilter.new includePatterns excludePatterns).exposes name = true ↔
      (∀ raw ∈ tableInclude, SelectedBy raw name) ∧
        ∀ raw ∈ tableExclude, ¬ SelectedBy raw name := by
  refine ⟨Pattern.matches_iff, fun name => ?_⟩
  simp only [TableFilter.exposes, TableFilter.new, Bool.and_eq_true]
  refine and_congr ?_ ?_
  · cases tableInclude with
    | none =>
        cases included
        simp
    | some raw =>
        obtain ⟨patterns, parsed, made⟩ := exists_of_bind_ok included
        cases made
        simp [any_matches_iff parsed]
  · cases tableExclude with
    | none =>
        cases excluded
        simp
    | some raw =>
        obtain ⟨patterns, parsed, made⟩ := exists_of_bind_ok excluded
        cases made
        rw [Option.getD_some, Bool.not_eq_true', ← Bool.not_eq_true, any_matches_iff parsed]
        simp

end Filter

section Instances

local instance filterUnicode : Unicode := Unicode.ascii

/-- `TABLE_INCLUDE = 'a*, b?'` without an exclusion. -/
theorem exposes_iff_selected_run :
    (TableFilter.new (some [⟨['A', '*']⟩, ⟨['B', '?']⟩]) none).exposes "ABC" = true := by
  refine ((exposes_iff_selected (some "a*, b?") none _ _ rfl rfl).2 "ABC").mpr ⟨?_, ?_⟩
  · rintro raw given
    obtain rfl := Option.some.inj given
    exact ⟨"a*", by decide, [['A'], ['B', 'C']], rfl,
      .cons (.self (by decide) (by decide)) (.cons (.run _) .nil)⟩
  · rintro raw given
    cases given

end Instances

end LakehouseEngine
