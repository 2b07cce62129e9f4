import Mathlib.Data.List.Basic

/-!
# Patterns of character classes

A regular expression whose repetitions are of single characters: classes, greedy runs of a
class, groups and the end of the text.  The ways to match a text at its start are listed in
order of preference, and a search takes the first way at the leftmost place that has one.
-/

namespace LakehouseEngine

/-- Ranges of characters. -/
abbrev CharClass := List (Char × Char)

def CharClass.holds (ranges : CharClass) (c : Char) : Bool :=
  ranges.any fun range => range.1 ≤ c && c ≤ range.2

inductive Regex where
  | empty
  | one (ranges : CharClass)
  /-- As many characters of the class as possible. -/
  | many (ranges : CharClass)
  | seq (first second : Regex)
  | group (inner : Regex)
  | atEnd
  deriving DecidableEq

namespace Regex

/-! ## Reading a pattern -/

def isMeta (c : Char) : Bool := "\\[]()\x7b\x7d*+?|^$.".toList.contains c

/-- The ranges up to a closing bracket. -/
def parseClass : List Char → Option (CharClass × List Char)
  | [] => none
  | ']' :: rest => some ([], rest)
  | low :: '-' :: high :: rest => (parseClass rest).map fun read => ((low, high) :: read.1, read.2)
  | c :: rest => (parseClass rest).map fun read => ((c, c) :: read.1, read.2)

def parseAtom : List Char → Option (CharClass × List Char)
  | [] => none
  | '\\' :: c :: rest => if isMeta c then some ([(c, c)], rest) else none
  | '[' :: rest => parseClass rest
  | c :: rest => if isMeta c then none else some ([(c, c)], rest)

/-- The items up to a closing parenthesis. -/
def parseItems : ℕ → List Char → Option (Regex × List Char)
  | 0, _ => none
  | _ + 1, [] => some (.empty, [])
  | _ + 1, ')' :: rest => some (.empty, ')' :: rest)
  | fuel + 1, '$' :: rest => (parseItems fuel rest).map fun read => (.seq .atEnd read.1, read.2)
  | fuel + 1, '(' :: rest => do
      let (inner, rest) ← parseItems fuel rest
      match rest with
      | ')' :: rest => (parseItems fuel rest).map fun read => (.seq (.group inner) read.1, read.2)
      | _ => none
  | fuel + 1, text => do
      let (ranges, rest) ← parseAtom text
      match rest with
      | '*' :: rest => (parseItems fuel rest).map fun read => (.seq (.many ranges) read.1, read.2)
      | '+' :: rest =>
          (parseItems fuel rest).map fun read =>
            (.seq (.one ranges) (.seq (.many ranges) read.1), read.2)
      | rest => (parseItems fuel rest).map fun read => (.seq (.one ranges) read.1, read.2)

def parse (text : List Char) : Option Regex :=
  match parseItems (text.length + 1) text with
  | some (pattern, []) => some pattern
  | _ => none

/-! ## Matching -/

structure Match where
  matched : List Char
  rest : List Char
  groups : List (List Char)

/-- The runs of a class at the start of a text, the longest first, with what follows. -/
def runs (ranges : CharClass) : List Char → List (List Char × List Char)
  | [] => [([], [])]
  | c :: rest =>
      if ranges.holds c then (runs ranges rest).map (fun run => (c :: run.1, run.2)) ++
        [([], c :: rest)]
      else [([], c :: rest)]

/-- The ways to match at the start of a text, in order of preference. -/
def ways : Regex → List Char → List Match
  | .empty, text => [⟨[], text, []⟩]
  | .one _, [] => []
  | .one ranges, c :: rest => if ranges.holds c then [⟨[c], rest, []⟩] else []
  | .many ranges, text => (runs ranges text).map fun run => ⟨run.1, run.2, []⟩
  | .seq first second, text =>
      (ways first text).flatMap fun left => (ways second left.rest).map fun right =>
        ⟨left.matched ++ right.matched, right.rest, left.groups ++ right.groups⟩
  | .group inner, text => (ways inner text).map fun way =>
      ⟨way.matched, way.rest, way.matched :: way.groups⟩
  | .atEnd, text => if text = [] then [⟨[], [], []⟩] else []

/-- The leftmost match, with the text before it. -/
def find (pattern : Regex) : List Char → Option (List Char × Match)
  | [] => (ways pattern []).head?.map fun way => ([], way)
  | c :: rest =>
      match (ways pattern (c :: rest)).head? with
      | some way => some ([], way)
      | none => (find pattern rest).map fun found => (c :: found.1, found.2)

/-! ## Replacing -/

inductive Piece where
  | literal (c : Char)
  | group (number : ℕ)
  deriving DecidableEq

/-- A backslash and a digit stand for a group. -/
def parseTemplate : List Char → List Piece
  | [] => []
  | '\\' :: c :: rest =>
      if c.isDigit then .group (c.toNat - '0'.toNat) :: parseTemplate rest
      else .literal '\\' :: .literal c :: parseTemplate rest
  | c :: rest => .literal c :: parseTemplate rest

def Piece.expand (way : Match) : Piece → List Char
  | .literal c => [c]
  | .group 0 => way.matched
  | .group (number + 1) => way.groups[number]?.getD []

def replacement (template : List Piece) (way : Match) : List Char :=
  template.flatMap (Piece.expand way)

/-- The text with its leftmost match replaced. -/
def replaceFirst (pattern : Regex) (template : List Piece) (text : List Char) : List Char :=
  match find pattern text with
  | none => text
  | some (before, way) => before ++ replacement template way ++ way.rest

/-! ## What the ways are -/

variable {text : List Char}

theorem mem_ways_empty {way : Match} : way ∈ ways .empty text ↔ way = ⟨[], text, []⟩ := by
  rw [ways, List.mem_singleton]

theorem mem_ways_one {ranges : CharClass} {way : Match} :
    way ∈ ways (.one ranges) text ↔ ∃ c, ranges.holds c = true ∧ text = c :: way.rest ∧
      way = ⟨[c], way.rest, []⟩ := by
  obtain ⟨matched, rest, groups⟩ := way
  cases text with
  | nil => simp [ways]
  | cons c text =>
      rw [ways]
      split
      · next holds =>
          simp only [List.mem_singleton, Match.mk.injEq, List.cons.injEq]
          constructor
          · rintro ⟨rfl, rfl, rfl⟩
            exact ⟨c, holds, ⟨rfl, rfl⟩, rfl, trivial, rfl⟩
          · rintro ⟨own, -, ⟨rfl, rfl⟩, rfl, -, rfl⟩
            exact ⟨rfl, rfl, rfl⟩
      · next fails =>
          simp only [List.not_mem_nil, false_iff, not_exists, not_and]
          rintro own holds split
          obtain ⟨rfl, -⟩ := List.cons.inj split
          exact absurd holds fails

theorem mem_runs {ranges : CharClass} {matched rest : List Char} :
    (matched, rest) ∈ runs ranges text ↔
      text = matched ++ rest ∧ ∀ c ∈ matched, ranges.holds c = true := by
  induction text generalizing matched with
  | nil =>
      simp only [runs, List.mem_singleton, Prod.mk.injEq, List.nil_eq, List.append_eq_nil_iff]
      constructor
      · rintro ⟨rfl, rfl⟩
        exact ⟨⟨rfl, rfl⟩, by simp⟩
      · exact fun split => split.1
  | cons c text ih =>
      rw [runs]
      cases matched with
      | nil =>
          -- The empty run is a run of any text.
          have plain : (c :: text = [] ++ rest ∧ ∀ d ∈ ([] : List Char), ranges.holds d = true) ↔
              rest = c :: text := by
            rw [List.nil_append, and_iff_left (by simp)]
            exact eq_comm
          rw [plain]
          split <;> simp
      | cons own matched =>
          rw [List.cons_append, List.cons.injEq, List.forall_mem_cons]
          split
          · next holds =>
              simp only [List.mem_append, List.mem_map, Prod.mk.injEq, List.cons.injEq,
                List.mem_singleton,
                reduceCtorEq, false_and, or_false]
              constructor
              · rintro ⟨⟨longer, after⟩, member, ⟨rfl, rfl⟩, rfl⟩
                obtain ⟨split, all⟩ := ih.mp member
                exact ⟨⟨rfl, split⟩, holds, all⟩
              · rintro ⟨⟨rfl, split⟩, -, all⟩
                exact ⟨(matched, rest), ih.mpr ⟨split, all⟩, ⟨rfl, rfl⟩, rfl⟩
          · next fails =>
              simp only [List.mem_singleton, Prod.mk.injEq, reduceCtorEq, false_and,
                false_iff, not_and]
              rintro ⟨rfl, -⟩ holds
              exact absurd holds fails

theorem mem_ways_many {ranges : CharClass} {way : Match} :
    way ∈ ways (.many ranges) text ↔
      text = way.matched ++ way.rest ∧ (∀ c ∈ way.matched, ranges.holds c = true) ∧
        way.groups = [] := by
  obtain ⟨matched, rest, groups⟩ := way
  simp only [ways, List.mem_map, Match.mk.injEq, Prod.exists, mem_runs]
  constructor
  · rintro ⟨run, after, ⟨split, all⟩, rfl, rfl, rfl⟩
    exact ⟨split, all, rfl⟩
  · rintro ⟨split, all, rfl⟩
    exact ⟨matched, rest, ⟨split, all⟩, rfl, rfl, rfl⟩

theorem mem_ways_seq {first second : Regex} {way : Match} :
    way ∈ ways (.seq first second) text ↔ ∃ left ∈ ways first text, ∃ right ∈ ways second left.rest,
      way = ⟨left.matched ++ right.matched, right.rest, left.groups ++ right.groups⟩ := by
  simp only [ways, List.mem_flatMap, List.mem_map, eq_comm]

theorem mem_ways_group {inner : Regex} {way : Match} :
    way ∈ ways (.group inner) text ↔
      ∃ own ∈ ways inner text, way = ⟨own.matched, own.rest, own.matched :: own.groups⟩ := by
  simp only [ways, List.mem_map, eq_comm]

theorem mem_ways_atEnd {way : Match} :
    way ∈ ways .atEnd text ↔ text = [] ∧ way = ⟨[], [], []⟩ := by
  rw [ways]
  split
  · next none => simp [none]
  · next some => simp [some]

/-! ## What a replacement gives -/

variable {pattern : Regex} {template : List Piece}

/-- Places before the first match are passed over. -/
theorem find_append {before text : List Char}
    (fails : ∀ front back, before = front ++ back → back ≠ [] → ways pattern (back ++ text) = []) :
    find pattern (before ++ text) = (find pattern text).map fun found =>
      (before ++ found.1, found.2) := by
  induction before with
  | nil => simp
  | cons c before ih =>
      have here : ways pattern (c :: (before ++ text)) = [] := fails [] (c :: before) rfl (by simp)
      rw [List.cons_append, find, here, List.head?_nil]
      dsimp only
      rw [ih fun front back split => fails (c :: front) back (by rw [split, List.cons_append]),
        Option.map_map]
      rfl

/-- Where no place has a match the text stays. -/
theorem replaceFirst_of_not_found
    (fails : ∀ front back, text = front ++ back → ways pattern back = []) :
    replaceFirst pattern template text = text := by
  have none : find pattern text = none := by
    have whole := @find_append pattern text [] fun front back split _ => by
      rw [List.append_nil]
      exact fails front back split
    rw [List.append_nil] at whole
    have last : ways pattern [] = [] := fails text [] (List.append_nil text).symm
    rw [whole, find, last]
    rfl
  rw [replaceFirst, none]

/-- A match after places without one is replaced.  Its ways need to agree on the result only. -/
theorem replaceFirst_of_found {before result : List Char}
    (fails : ∀ front back, before = front ++ back → back ≠ [] → ways pattern (back ++ text) = [])
    (some : ways pattern text ≠ []) (agree : ∀ way ∈ ways pattern text,
      replacement template way ++ way.rest = result) :
    replaceFirst pattern template (before ++ text) = before ++ result := by
  obtain ⟨way, others, listed⟩ := List.exists_cons_of_ne_nil some
  have here : find pattern text = .some ([], way) := by
    cases text with
    | nil =>
        rw [find, listed]
        rfl
    | cons c text =>
        rw [find, listed]
        rfl
  rw [replaceFirst, find_append fails, here]
  dsimp only [Option.map_some]
  rw [List.append_nil, List.append_assoc, agree way (by rw [listed]; exact List.mem_cons_self)]

end Regex

end LakehouseEngine
