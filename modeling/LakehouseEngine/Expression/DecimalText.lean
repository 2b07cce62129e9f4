import LakehouseEngine.Sql.Syntax
import LakehouseEngine.Text.Regex
import LakehouseEngine.Text.PlainDecimal

/-!
# The text of a decimal

DataFusion casts a decimal to its digits with the declared scale.  The renderer wraps the cast
into two replacements that cut superfluous zeros after the point.
-/

namespace LakehouseEngine

def typeWords (words : List String) : List Token := words.map fun word => .word word.toList

/-- `format_decimal_exasol_style`. -/
def formatDecimalExasolStyle (decimal : Sql) : Sql :=
  .call "regexp_replace"
    [.call "regexp_replace" [.cast decimal (typeWords ["VARCHAR"]),
        .string "(\\.[0-9]*[1-9])0+$", .string "\\1"],
      .string "\\.0+$", .string ""]

/-! ## The replaced text -/

/-- The text of a decimal in its scale. -/
def canonicalText (unscaled : ℤ) (scale : ℕ) : List Char :=
  let digits := Nat.toDigits 10 unscaled.natAbs
  Text.signText (unscaled < 0) ++
    if scale = 0 then digits
    else if scale < digits.length then
      digits.take (digits.length - scale) ++ '.' :: digits.drop (digits.length - scale)
    else '0' :: '.' :: (List.replicate (scale - digits.length) '0' ++ digits)

/-- The text an expression of casts and replacements has, from the text of the cast. -/
def replacedText (castText : List Char) : Sql → Option (List Char)
  | .cast _ _ => some castText
  | .call name [subject, .string pattern, .string template] =>
      if name = "regexp_replace" then do
        let text ← replacedText castText subject
        let pattern ← Regex.parse pattern.toList
        return pattern.replaceFirst (Regex.parseTemplate template.toList) text
      else none
  | _ => none

/-! ## The two patterns -/

namespace DecimalText

open Regex Text

def zeros : CharClass := [('0', '0')]

def point : CharClass := [('.', '.')]

/-- The pattern `(\.[0-9]*[1-9])0+$`. -/
def trimZeros : Regex :=
  .seq (.group (.seq (.one point) (.seq (.many [('0', '9')]) (.seq (.one [('1', '9')]) .empty))))
    (.seq (.one zeros) (.seq (.many zeros) (.seq .atEnd .empty)))

/-- The pattern `\.0+$`. -/
def dropZeros : Regex :=
  .seq (.one point) (.seq (.one zeros) (.seq (.many zeros) (.seq .atEnd .empty)))

theorem replacedText_formatDecimalExasolStyle (castText : List Char) (decimal : Sql) :
    replacedText castText (formatDecimalExasolStyle decimal) =
      some (dropZeros.replaceFirst [] (trimZeros.replaceFirst [.group 1] castText)) := by
  have first : Regex.parse "(\\.[0-9]*[1-9])0+$".toList = some trimZeros := rfl
  have second : Regex.parse "\\.0+$".toList = some dropZeros := rfl
  have template : parseTemplate "\\1".toList = [.group 1] := rfl
  have nothing : parseTemplate "".toList = [] := rfl
  simp only [formatDecimalExasolStyle, replacedText, if_true, first, second, template, nothing,
    Option.bind_eq_bind, Option.bind_some, Option.pure_def]

theorem holds_single {c d : Char} : CharClass.holds [(c, c)] d = true ↔ d = c := by
  simp only [CharClass.holds, List.any_cons, List.any_nil, Bool.or_false, Bool.and_eq_true,
    decide_eq_true_eq]
  constructor
  · rintro ⟨below, above⟩
    exact le_antisymm above below
  · rintro rfl
    exact ⟨le_rfl, le_rfl⟩

theorem holds_nonzero {c : Char} (digit : c.isDigit = true) :
    CharClass.holds [('1', '9')] c = true ↔ c ≠ '0' := by
  have bounds := isDigit_toNat digit
  simp only [CharClass.holds, List.any_cons, List.any_nil, Bool.or_false, Bool.and_eq_true,
    decide_eq_true_eq,
    Char.le_def, UInt32.le_iff_toNat_le, ne_eq]
  have one : '1'.val.toNat = 49 := rfl
  have nine : '9'.val.toNat = 57 := rfl
  have code : c.val.toNat = c.toNat := rfl
  rw [one, nine, code]
  constructor
  · rintro ⟨low, -⟩ rfl
    exact absurd low (by decide)
  · intro nonzero
    have different : c.toNat ≠ 48 := fun same => nonzero (Char.toNat_inj.mp same)
    omega

/-- A run of zeros up to the end, with at least one zero. -/
theorem mem_ways_zeros {text : List Char} {way : Match} :
    way ∈ ways (.seq (.one zeros) (.seq (.many zeros) (.seq .atEnd .empty))) text ↔
      text ≠ [] ∧ (∀ c ∈ text, c = '0') ∧ way = ⟨text, [], []⟩ := by
  simp only [mem_ways_seq, mem_ways_one, mem_ways_many, mem_ways_atEnd, mem_ways_empty, zeros,
    holds_single]
  constructor
  · rintro ⟨head, ⟨c, rfl, rfl, own⟩, right, ⟨run, ⟨split, all, plain⟩, last,
      ⟨stop, ⟨none, rfl⟩, empty, rfl, rfl⟩, rfl⟩, rfl⟩
    obtain ⟨matched, rest, groups⟩ := run
    dsimp only at split all plain none
    subst plain none
    rw [List.append_nil] at split
    rw [own, split]
    refine ⟨by simp, ?_, by simp⟩
    rw [List.forall_mem_cons]
    exact ⟨rfl, all⟩
  · rintro ⟨nonempty, all, rfl⟩
    obtain ⟨c, rest, rfl⟩ := List.exists_cons_of_ne_nil nonempty
    rw [List.forall_mem_cons] at all
    obtain ⟨rfl, all⟩ := all
    refine ⟨⟨['0'], rest, []⟩, ⟨'0', rfl, rfl, rfl⟩, ⟨rest, [], []⟩, ?_, rfl⟩
    refine ⟨⟨rest, [], []⟩, ⟨(List.append_nil rest).symm, all, rfl⟩, ⟨[], [], []⟩, ?_, by simp⟩
    exact ⟨⟨[], [], []⟩, ⟨rfl, rfl⟩, ⟨[], [], []⟩, rfl, rfl⟩

theorem mem_ways_dropZeros {text : List Char} {way : Match} :
    way ∈ ways dropZeros text ↔ ∃ fraction, text = '.' :: fraction ∧ fraction ≠ [] ∧
      (∀ c ∈ fraction, c = '0') ∧ way = ⟨text, [], []⟩ := by
  rw [dropZeros, mem_ways_seq]
  simp only [mem_ways_one, mem_ways_zeros, point, holds_single]
  constructor
  · rintro ⟨head, ⟨c, rfl, rfl, own⟩, right, ⟨nonempty, all, rfl⟩, rfl⟩
    rw [own]
    exact ⟨head.rest, rfl, nonempty, all, rfl⟩
  · rintro ⟨fraction, rfl, nonempty, all, rfl⟩
    exact ⟨⟨['.'], fraction, []⟩, ⟨'.', rfl, rfl, rfl⟩, _, ⟨nonempty, all, rfl⟩, rfl⟩

/-- A point and digits up to a nonzero one. -/
theorem mem_ways_digits {text : List Char} {way : Match} :
    way ∈ ways (.seq (.one point) (.seq (.many [('0', '9')]) (.seq (.one [('1', '9')]) .empty)))
      text ↔
      ∃ front last, text = '.' :: (front ++ last :: way.rest) ∧
        (∀ c ∈ front, CharClass.holds [('0', '9')] c = true) ∧
          CharClass.holds [('1', '9')] last = true ∧
        way = ⟨'.' :: (front ++ [last]), way.rest, []⟩ := by
  simp only [mem_ways_seq, mem_ways_one, mem_ways_many, mem_ways_empty, point, holds_single]
  constructor
  · rintro ⟨head, ⟨c, rfl, rfl, own⟩, right, ⟨run, ⟨split, digits, plain⟩, after,
      ⟨one, ⟨last, nonzero, follows, single⟩, empty, rfl, rfl⟩, rfl⟩, rfl⟩
    refine ⟨run.matched, last, ?_, digits, nonzero, ?_⟩
    · rw [split, follows]
    · rw [own, single, plain]
      simp
  · rintro ⟨front, last, rfl, digits, nonzero, own⟩
    refine ⟨⟨['.'], front ++ last :: way.rest, []⟩, ⟨'.', rfl, rfl, rfl⟩,
      ⟨front ++ [last], way.rest, []⟩, ?_, own⟩
    refine ⟨⟨front, last :: way.rest, []⟩, ⟨rfl, digits, rfl⟩, ⟨[last], way.rest, []⟩, ?_, rfl⟩
    exact ⟨⟨[last], way.rest, []⟩, ⟨last, nonzero, rfl, rfl⟩, ⟨[], way.rest, []⟩, rfl, rfl⟩

/-- Zeros up to the end, after fraction digits up to a nonzero one. -/
theorem mem_ways_trimZeros {text : List Char} {way : Match} :
    way ∈ ways trimZeros text ↔ ∃ front last tail, text = '.' :: (front ++ last :: tail) ∧
      (∀ c ∈ front, CharClass.holds [('0', '9')] c = true) ∧
        CharClass.holds [('1', '9')] last = true ∧
      tail ≠ [] ∧ (∀ c ∈ tail, c = '0') ∧ way = ⟨text, [], ['.' :: (front ++ [last])]⟩ := by
  rw [trimZeros, mem_ways_seq]
  constructor
  · rintro ⟨left, kept, right, cut, rfl⟩
    obtain ⟨own, digits, rfl⟩ := mem_ways_group.mp kept
    obtain ⟨nonempty, all, rfl⟩ := mem_ways_zeros.mp cut
    obtain ⟨front, last, split, digits, nonzero, whole⟩ := mem_ways_digits.mp digits
    have matched : own.matched = '.' :: (front ++ [last]) := by rw [whole]
    have groups : own.groups = [] := by rw [whole]
    refine ⟨front, last, own.rest, split, digits, nonzero, nonempty, all, ?_⟩
    simp only [matched, groups, split, List.cons_append, List.append_assoc, List.nil_append,
      List.append_nil]
  · rintro ⟨front, last, tail, rfl, digits, nonzero, nonempty, all, rfl⟩
    refine ⟨⟨'.' :: (front ++ [last]), tail, ['.' :: (front ++ [last])]⟩, ?_, ⟨tail, [], []⟩,
      mem_ways_zeros.mpr ⟨nonempty, all, rfl⟩, by simp⟩
    exact mem_ways_group.mpr ⟨⟨'.' :: (front ++ [last]), tail, []⟩,
      mem_ways_digits.mpr ⟨front, last, rfl, digits, nonzero, rfl⟩, rfl⟩

/-! ## What the replacements give -/

section Point

variable {lead fraction : List Char}

/-- There is one place of the point. -/
theorem point_unique {front rest : List Char} (noPoint : '.' ∉ lead) (digits : '.' ∉ fraction)
    (same : lead ++ '.' :: fraction = front ++ '.' :: rest) : front = lead ∧ rest = fraction := by
  rcases List.append_eq_append_iff.mp same with ⟨between, rfl, back⟩ | ⟨between, rfl, back⟩
  · cases between with
    | nil => exact ⟨by simp, (List.cons.inj back).2.symm⟩
    | cons c between =>
        rw [List.cons_append, List.cons.injEq] at back
        exact absurd (back.2 ▸ by simp) digits
  · cases between with
    | nil => exact ⟨by simp, (List.cons.inj back).2⟩
    | cons c between =>
        rw [List.cons_append, List.cons.injEq] at back
        exact absurd (by rw [← back.1]; simp) noPoint

theorem point_not_mem {digits : List Char} (valid : allDigits digits = true) : '.' ∉ digits := by
  intro member
  have digit := List.all_eq_true.mp valid '.' member
  cases digit

variable {pattern : Regex} {template : List Regex.Piece}

/-- A pattern that begins with the point leaves a text without one. -/
theorem replaceFirst_no_point
    (begins : ∀ text, ∀ way ∈ ways pattern text, ∃ rest, text = '.' :: rest)
    (noPoint : '.' ∉ lead) : replaceFirst pattern template lead = lead := by
  refine replaceFirst_of_not_found fun front back split => ?_
  refine List.eq_nil_iff_forall_not_mem.mpr fun way member => ?_
  obtain ⟨rest, rfl⟩ := begins back way member
  exact noPoint (by rw [split]; simp)

/-- A pattern that begins with the point is tried there only. -/
theorem replaceFirst_at_point
    (begins : ∀ text, ∀ way ∈ ways pattern text, ∃ rest, text = '.' :: rest)
    (noPoint : '.' ∉ lead) (digits : '.' ∉ fraction) (fails : ways pattern ('.' :: fraction) = []) :
    replaceFirst pattern template (lead ++ '.' :: fraction) = lead ++ '.' :: fraction := by
  refine replaceFirst_of_not_found fun front back split => ?_
  refine List.eq_nil_iff_forall_not_mem.mpr fun way member => ?_
  obtain ⟨rest, rfl⟩ := begins back way member
  obtain ⟨-, rfl⟩ := point_unique noPoint digits split
  rw [fails] at member
  cases member

theorem replaceFirst_found_at_point {result : List Char}
    (begins : ∀ text, ∀ way ∈ ways pattern text, ∃ rest, text = '.' :: rest) (noPoint : '.' ∉ lead)
    (some : ways pattern ('.' :: fraction) ≠ []) (agree : ∀ way ∈ ways pattern ('.' :: fraction),
      replacement template way ++ way.rest = result) :
    replaceFirst pattern template (lead ++ '.' :: fraction) = lead ++ result := by
  refine replaceFirst_of_found (fun front back split nonempty => ?_) some agree
  refine List.eq_nil_iff_forall_not_mem.mpr fun way member => ?_
  obtain ⟨c, back, rfl⟩ := List.exists_cons_of_ne_nil nonempty
  obtain ⟨rest, starts⟩ := begins _ way member
  obtain ⟨rfl, -⟩ := List.cons.inj starts
  exact noPoint (by rw [split]; simp)

end Point

theorem trimZeros_begins (text : List Char) :
    ∀ way ∈ ways trimZeros text, ∃ rest, text = '.' :: rest := by
  intro way member
  obtain ⟨front, last, tail, starts, -⟩ := mem_ways_trimZeros.mp member
  exact ⟨_, starts⟩

theorem dropZeros_begins (text : List Char) :
    ∀ way ∈ ways dropZeros text, ∃ rest, text = '.' :: rest := by
  intro way member
  obtain ⟨fraction, starts, -⟩ := mem_ways_dropZeros.mp member
  exact ⟨_, starts⟩

section Fraction

variable {lead fraction : List Char}

/-- The first replacement cuts the zeros after the last nonzero digit. -/
theorem replaceFirst_trimZeros (noPoint : '.' ∉ lead) (valid : allDigits fraction = true) :
    trimZeros.replaceFirst [.group 1] (lead ++ '.' :: fraction) = lead ++ '.' ::
      (if trimEndMatches '0' fraction = [] then fraction else trimEndMatches '0' fraction) := by
  have digits := point_not_mem valid
  have found : ∀ way ∈ ways trimZeros ('.' :: fraction), way.groups =
    ['.' :: trimEndMatches '0' fraction] ∧
      way.rest = [] ∧ trimEndMatches '0' fraction ≠ [] ∧
        trimEndMatches '0' fraction ≠ fraction := by
    intro way member
    obtain ⟨front, last, tail, split, -, nonzero, nonempty, all, rfl⟩ :=
      mem_ways_trimZeros.mp member
    obtain rfl := (List.cons.inj split).2
    have digit : last.isDigit = true := List.all_eq_true.mp valid last (by simp)
    have trimmed := trimEndMatches_append_cons ((holds_nonzero digit).mp nonzero) front all
    rw [trimmed]
    refine ⟨rfl, rfl, by simp, ?_⟩
    intro same
    have lengths := congrArg List.length same
    have positive := List.length_pos_iff.mpr nonempty
    simp only [List.length_append, List.length_cons, List.length_nil] at lengths
    omega
  by_cases cut : trimEndMatches '0' fraction ≠ [] ∧ trimEndMatches '0' fraction ≠ fraction
  · rw [if_neg cut.1]
    refine replaceFirst_found_at_point trimZeros_begins noPoint ?_ ?_
    · obtain ⟨count, joined⟩ := trimEndMatches_append '0' fraction
      have last := getLast?_trimEndMatches '0' fraction
      have trimmedValid := allDigits_trimEndMatches valid '0'
      obtain ⟨front, lowest, trimmed⟩ := (List.eq_nil_or_concat _).resolve_left cut.1
      rw [List.concat_eq_append] at trimmed
      rw [trimmed] at joined last trimmedValid
      rw [List.getLast?_concat, ne_eq, Option.some.injEq] at last
      have digit : lowest.isDigit = true := List.all_eq_true.mp trimmedValid lowest (by simp)
      have some : count ≠ 0 := by
        rintro rfl
        rw [List.replicate_zero, List.append_nil] at joined
        exact cut.2 (trimmed.trans joined.symm)
      have range : ∀ c ∈ front, CharClass.holds [('0', '9')] c = true := by
        intro c member
        have digit : c.isDigit = true := List.all_eq_true.mp trimmedValid c (by simp [member])
        simpa [CharClass.holds, Char.isDigit, Char.le_def] using digit
      have way := mem_ways_trimZeros.mpr ⟨front, lowest, List.replicate count '0', rfl, range,
        (holds_nonzero digit).mpr last, by simpa using some, by simp, rfl⟩
      rw [joined, List.append_assoc, List.singleton_append]
      exact List.ne_nil_of_mem way
    · intro way member
      obtain ⟨groups, rest, -⟩ := found way member
      simp [replacement, Regex.Piece.expand, groups, rest]
  · have same : (if trimEndMatches '0' fraction = [] then
      fraction else trimEndMatches '0' fraction) = fraction := by
      split
      · rfl
      · next nonempty =>
          by_contra different
          exact cut ⟨nonempty, different⟩
    rw [same]
    refine replaceFirst_at_point trimZeros_begins noPoint digits ?_
    refine List.eq_nil_iff_forall_not_mem.mpr fun way member => cut (found way member).2.2

/-- The second one cuts a fraction of zeros, with its point. -/
theorem replaceFirst_dropZeros (noPoint : '.' ∉ lead) (valid : allDigits fraction = true)
    (nonempty : fraction ≠ []) :
    dropZeros.replaceFirst [] (lead ++ '.' :: fraction) =
      if trimEndMatches '0' fraction = [] then lead else lead ++ '.' :: fraction := by
  have zeros : trimEndMatches '0' fraction = [] ↔ ∀ c ∈ fraction, c = '0' := by
    rw [trimEndMatches, List.reverse_eq_nil_iff, List.dropWhile_eq_nil_iff]
    simp
  split
  · next none =>
      refine (replaceFirst_found_at_point dropZeros_begins noPoint ?_ ?_).trans
        (List.append_nil lead)
      · exact List.ne_nil_of_mem (mem_ways_dropZeros.mpr
          ⟨fraction, rfl, nonempty, zeros.mp none, rfl⟩)
      · intro way member
        obtain ⟨-, -, -, -, rfl⟩ := mem_ways_dropZeros.mp member
        rfl
  · next some =>
      refine replaceFirst_at_point dropZeros_begins noPoint (point_not_mem valid) ?_
      refine List.eq_nil_iff_forall_not_mem.mpr fun way member => some (zeros.mpr ?_)
      obtain ⟨own, split, -, all, -⟩ := mem_ways_dropZeros.mp member
      rw [(List.cons.inj split).2]
      exact all

/-- Both replacements cut all superfluous zeros, and the point when nothing follows it. -/
theorem replaceFirst_both (noPoint : '.' ∉ lead) (valid : allDigits fraction = true)
    (nonempty : fraction ≠ []) :
    dropZeros.replaceFirst [] (trimZeros.replaceFirst [.group 1] (lead ++ '.' :: fraction)) =
      lead ++ pointText (if trimEndMatches '0' fraction = [] then
        none else some (trimEndMatches '0' fraction)) := by
  rw [replaceFirst_trimZeros noPoint valid]
  by_cases zero : trimEndMatches '0' fraction = []
  · rw [if_pos zero, if_pos zero, replaceFirst_dropZeros noPoint valid nonempty,
      if_pos zero, pointText,
      List.append_nil]
  · have again : trimEndMatches '0' (trimEndMatches '0' fraction) ≠ [] := by
      obtain ⟨front, last, trimmed⟩ := (List.eq_nil_or_concat _).resolve_left zero
      have different := getLast?_trimEndMatches '0' fraction
      rw [List.concat_eq_append] at trimmed
      rw [trimmed, List.getLast?_concat, ne_eq, Option.some.injEq] at different
      rw [trimmed, trimEndMatches_append_cons different front (by simp)]
      simp
    rw [if_neg zero, if_neg zero,
      replaceFirst_dropZeros noPoint (allDigits_trimEndMatches valid '0') zero, if_neg again]
    rfl

end Fraction

/-! ## The canonical text -/

/-- The parts of a canonical text: digits before the point without a superfluous zero, and as many
after it as the scale says. -/
theorem canonicalText_parts (unscaled : ℤ) (scale : ℕ) :
    ∃ whole fraction, canonicalText unscaled scale = signText (unscaled < 0) ++ whole ++
        (if scale = 0 then [] else '.' :: fraction) ∧
      whole ≠ [] ∧ allDigits (whole ++ fraction) = true ∧ (whole.head? = some '0' → whole = ['0']) ∧
      fraction.length = scale ∧ natValue (whole ++ fraction) = unscaled.natAbs := by
  have valid := allDigits_toDigits unscaled.natAbs
  have value := natValue_toDigits unscaled.natAbs
  have leading := @toDigits_leading unscaled.natAbs
  have nonempty := Nat.toDigits_ne_nil (b := 10) (n := unscaled.natAbs)
  rw [canonicalText]
  generalize Nat.toDigits 10 unscaled.natAbs = digits at *
  by_cases integer : scale = 0
  · refine ⟨digits, [], ?_, nonempty, ?_, leading, integer.symm, ?_⟩
    · simp [integer]
    · rwa [List.append_nil]
    · rwa [List.append_nil]
  · simp only [if_neg integer, List.append_assoc]
    by_cases long : scale < digits.length
    · refine ⟨digits.take (digits.length - scale), digits.drop (digits.length - scale), ?_, ?_,
        ?_, ?_, ?_, ?_⟩
      · rw [if_pos long]
      · simp only [ne_eq, List.take_eq_nil_iff, nonempty, or_false]
        omega
      · rwa [List.take_append_drop]
      · intro zero
        have first : digits.head? = some '0' := by
          rw [List.head?_take] at zero
          split at zero
          · cases zero
          · exact zero
        rw [leading first, List.length_singleton] at long
        omega
      · rw [List.length_drop]
        omega
      · rwa [List.take_append_drop]
    · refine ⟨['0'], List.replicate (scale - digits.length) '0' ++
        digits, ?_, by simp, ?_, by simp, ?_, ?_⟩
      · rw [if_neg long]
        rfl
      · simp only [allDigits, List.all_append, List.all_cons, List.all_nil, Bool.and_true,
          Bool.and_eq_true,
          List.all_replicate]
        exact ⟨rfl, by split <;> rfl, valid⟩
      · rw [List.length_append, List.length_replicate]
        omega
      · have zeros : ∀ count, natValue (List.replicate count '0' ++ digits) = natValue digits := by
          intro count
          induction count with
          | zero => rfl
          | succ count ih =>
              rw [List.replicate_succ, List.cons_append, natValue_cons, ih]
              simp [digitValue]
        have more := zeros (scale - digits.length + 1)
        rw [List.replicate_succ, List.cons_append] at more
        rw [List.singleton_append, more, value]

/-- What the replacements make of a canonical text. -/
theorem exists_short (unscaled : ℤ) (scale : ℕ) :
    ∃ decimal : PlainDecimal, decimal.Short ∧ decimal.value = (unscaled : ℚ) / 10 ^ scale ∧
      dropZeros.replaceFirst [] (trimZeros.replaceFirst [.group 1] (canonicalText unscaled scale)) =
        decimal.text := by
  obtain ⟨whole, fraction, text, nonempty, valid, leading, length, value⟩ :=
    canonicalText_parts unscaled scale
  have both := valid
  simp only [allDigits, List.all_append, Bool.and_eq_true] at both
  obtain ⟨wholeValid, fractionValid⟩ := both
  have noPoint : '.' ∉ signText (unscaled < 0) ++ whole := by
    rw [List.mem_append, not_or]
    refine ⟨?_, point_not_mem wholeValid⟩
    rw [signText]
    split <;> simp
  set kept := if trimEndMatches '0' fraction = [] then
    none else some (trimEndMatches '0' fraction) with kept_eq
  have digits : kept.getD [] = trimEndMatches '0' fraction := by
    rw [kept_eq]
    split
    · next none => rw [none, Option.getD_none]
    · rfl
  let decimal : PlainDecimal :=
    ⟨unscaled < 0, whole, kept, nonempty, wholeValid, by
      rw [digits]
      exact allDigits_trimEndMatches fractionValid '0'⟩
  have magnitude : decimal.magnitude = (unscaled.natAbs : ℚ) / 10 ^ scale := by
    have joined := natValue_append_eq whole fraction
    rw [value, length] at joined
    change (natValue whole : ℚ) + fractionValue (kept.getD []) = _
    rw [digits, fractionValue_trim, joined]
    field_simp
  refine ⟨decimal, ⟨leading, ?_, ?_, ?_⟩, ?_, ?_⟩
  · change kept ≠ some []
    rw [kept_eq]
    split
    · simp
    · next some => simpa using some
  · change (kept.getD []).getLast? ≠ some '0'
    rw [digits]
    exact getLast?_trimEndMatches '0' fraction
  · intro negative
    have below : unscaled < 0 := of_decide_eq_true negative
    rw [magnitude]
    have nonzero : (unscaled.natAbs : ℚ) ≠ 0 := by
      rw [Nat.cast_ne_zero, Int.natAbs_ne_zero]
      exact below.ne
    positivity
  · rw [PlainDecimal.value, magnitude]
    change (if decide (unscaled < 0) = true then _ else _) = _
    simp only [decide_eq_true_eq]
    have sign : (unscaled.natAbs : ℚ) = |(unscaled : ℚ)| := by rw [Nat.cast_natAbs, Int.cast_abs]
    split
    · next negative =>
        rw [sign, abs_of_neg (by exact_mod_cast negative)]
        ring
    · next nonneg => rw [sign, abs_of_nonneg (by exact_mod_cast not_lt.mp nonneg)]
  · rw [text, PlainDecimal.text]
    by_cases integer : scale = 0
    · rw [if_pos integer, List.append_nil, replaceFirst_no_point trimZeros_begins noPoint,
        replaceFirst_no_point dropZeros_begins noPoint]
      have none : kept = none := by
        rw [integer, List.length_eq_zero_iff] at length
        rw [kept_eq, length]
        rfl
      change _ = signText (unscaled < 0) ++ whole ++ pointText kept
      rw [none, pointText, List.append_nil]
    · have some : fraction ≠ [] := by
        rintro rfl
        exact integer length.symm
      rw [if_neg integer, replaceFirst_both noPoint fractionValid some]

end DecimalText

open Text in
/-- The rendered text of a decimal is the shortest plain decimal text of its value: it ends in no
fractional zero and no point, an integer is printed with all its digits, and equal values of
different scales have equal texts. -/
theorem decimal_text_is_shortest (decimal : Sql) (unscaled : ℤ) (scale : ℕ) :
    ∃ text, replacedText (canonicalText unscaled scale) (formatDecimalExasolStyle decimal) =
      some text ∧
      IsShortest text ((unscaled : ℚ) / 10 ^ scale) ∧
      text.getLast? ≠ some '.' ∧ ('.' ∈ text → text.getLast? ≠ some '0') ∧
      (∀ integer : ℤ, (unscaled : ℚ) / 10 ^ scale = integer → text = (toString integer).toList) ∧
      (scale = 0 → text = canonicalText unscaled scale) ∧
      ∀ (other : Sql) (otherUnscaled : ℤ) (otherScale : ℕ),
        (otherUnscaled : ℚ) / 10 ^ otherScale = (unscaled : ℚ) / 10 ^ scale →
        replacedText (canonicalText otherUnscaled otherScale) (formatDecimalExasolStyle other) =
          some text := by
  obtain ⟨short, isShort, value, replaced⟩ := DecimalText.exists_short unscaled scale
  have shortest := isShort.isShortest
  rw [value] at shortest
  have printed : ∀ integer : ℤ, (unscaled : ℚ) / 10 ^ scale = integer →
      short.text = (toString integer).toList := by
    intro integer same
    have plain := (PlainDecimal.short_ofInt integer).isShortest
    rw [PlainDecimal.value_ofInt, ← same, PlainDecimal.text_ofInt] at plain
    exact shortest.unique plain
  refine ⟨short.text, ?_, shortest, isShort.ends.1, isShort.ends.2, printed, ?_, ?_⟩
  · rw [DecimalText.replacedText_formatDecimalExasolStyle, replaced]
  · rintro rfl
    rw [printed unscaled (by simp), ← PlainDecimal.text_ofInt]
    change signText (unscaled < 0) ++ Nat.toDigits 10 unscaled.natAbs ++ [] = _
    rw [List.append_nil]
    rfl
  · intro other otherUnscaled otherScale same
    obtain ⟨otherShort, otherIsShort, otherValue, otherReplaced⟩ :=
      DecimalText.exists_short otherUnscaled otherScale
    have otherShortest := otherIsShort.isShortest
    rw [otherValue, same] at otherShortest
    rw [DecimalText.replacedText_formatDecimalExasolStyle, otherReplaced,
      otherShortest.unique shortest]

end LakehouseEngine
