import LakehouseEngine.Text.WhiteSpace
import Mathlib.Algebra.Order.Field.Rat
import Mathlib.Algebra.Order.Floor.Defs
import Mathlib.Data.Rat.Floor
import Mathlib.Tactic.Linarith
import Mathlib.Tactic.Positivity
import Mathlib.Tactic.FieldSimp
import Mathlib.Tactic.Ring

/-!
# Exact values of decimal text

A run of decimal digits denotes a natural number, a fraction part a rational in
`[0, 1)`, and a numeral with sign, point and exponent an exact rational.  Cutting a
fraction after `d` digits gives the largest multiple of `10^-d` that is not above it.
-/

namespace LakehouseEngine.Text

/-- Split at the first occurrence of `separator`, which belongs to neither part. -/
def splitOnce (separator : Char) : List Char → Option (List Char × List Char)
  | [] => none
  | c :: rest =>
      if c = separator then
        some ([], rest)
      else
        (splitOnce separator rest).map fun (before, after) => (c :: before, after)

/-- Remove every trailing `c`. -/
def trimEndMatches (c : Char) (text : List Char) : List Char :=
  (text.reverse.dropWhile (· = c)).reverse

def digitValue (c : Char) : Nat := c.toNat - '0'.toNat

def allDigits (text : List Char) : Bool := text.all Char.isDigit

/-- The number a run of digits denotes. -/
def natValue (digits : List Char) : Nat :=
  digits.foldl (fun acc c => acc * 10 + digitValue c) 0

/-- An unsigned number below a bound; the library accepts a plus sign before the digits. -/
def parseUnsigned (bound : ℕ) (text : List Char) : Option ℕ :=
  let digits := if text.head? = some '+' then text.tail else text
  if digits ≠ [] ∧ allDigits digits ∧ natValue digits < bound then some (natValue digits) else none

/-- The value of the digits after a decimal point. -/
def fractionValue (digits : List Char) : ℚ := natValue digits / 10 ^ digits.length

/-- A leading sign and what follows it. -/
def splitSign : List Char → Bool × List Char
  | '-' :: rest => (true, rest)
  | '+' :: rest => (false, rest)
  | rest => (false, rest)

/-- Split at the first exponent marker. -/
def splitExponent : List Char → List Char × Option (List Char)
  | [] => ([], none)
  | c :: rest =>
      if c = 'e' ∨ c = 'E' then
        ([], some rest)
      else
        let (mantissa, exponent) := splitExponent rest
        (c :: mantissa, exponent)

/-- A signed run of digits. -/
def integerValue (text : List Char) : Option ℤ :=
  let (negative, digits) := splitSign text
  if digits ≠ [] ∧ allDigits digits = true then
    some (if negative then -natValue digits else natValue digits)
  else
    none

/-- Digits with at most one decimal point and at least one digit. -/
def decimalValue (text : List Char) : Option ℚ :=
  let (whole, fraction) := (splitOnce '.' text).getD (text, [])
  if whole ++ fraction ≠ [] ∧ allDigits (whole ++ fraction) = true then
    some (natValue whole + fractionValue fraction)
  else
    none

/-- `10` to an integer power. -/
def powerOfTen (exponent : ℤ) : ℚ :=
  if 0 ≤ exponent then 10 ^ exponent.toNat else 1 / 10 ^ (-exponent).toNat

/-- The exact value of a numeral with optional sign, point and exponent. -/
def numeralValue (text : List Char) : Option ℚ := do
  let (mantissa, exponent) := splitExponent text
  let (negative, digits) := splitSign mantissa
  let magnitude ← decimalValue digits
  let power ← (exponent.map integerValue).getD (some 0)
  return (if negative then -magnitude else magnitude) * powerOfTen power

/-- The value of a hexadecimal digit in either case. -/
def hexDigit (c : Char) : Option Nat :=
  if c.isDigit then some (digitValue c)
  else if 'a' ≤ c ∧ c ≤ 'f' then some (c.toNat - 'a'.toNat + 10)
  else if 'A' ≤ c ∧ c ≤ 'F' then some (c.toNat - 'A'.toNat + 10)
  else none

/-- The bytes a hexadecimal text spells, two digits each. -/
def hexDecode : List Char → Option (List Nat)
  | [] => some []
  | [_] => none
  | high :: low :: rest => do
      let high ← hexDigit high
      let low ← hexDigit low
      return (high * 16 + low) :: (← hexDecode rest)

variable {separator : Char} {text digits : List Char}

theorem splitOnce_spec {before after : List Char}
    (split : splitOnce separator text = some (before, after)) :
    text = before ++ separator :: after ∧ separator ∉ before := by
  induction text generalizing before with
  | nil => simp [splitOnce] at split
  | cons c rest ih =>
      by_cases same : c = separator
      · simp only [splitOnce, same, if_true, Option.some.injEq, Prod.mk.injEq] at split
        obtain ⟨rfl, rfl⟩ := split
        simp [same]
      · simp only [splitOnce, same, if_false, Option.map_eq_some_iff] at split
        obtain ⟨⟨inner, tail⟩, found, equal⟩ := split
        cases equal
        simp [(ih found).1, (ih found).2, Ne.symm same]

/-- Rejoining two parts at a separator the first does not hold splits them again. -/
theorem splitOnce_of_not_mem {before : List Char} (after : List Char)
    (fresh : separator ∉ before) :
    splitOnce separator (before ++ separator :: after) = some (before, after) := by
  induction before with
  | nil => simp [splitOnce]
  | cons c rest ih =>
      simp only [List.mem_cons, not_or] at fresh
      simp [splitOnce, Ne.symm fresh.1, ih fresh.2]

theorem splitOnce_eq_none :
    splitOnce separator text = none ↔ separator ∉ text := by
  induction text with
  | nil => simp [splitOnce]
  | cons c rest ih =>
      by_cases same : c = separator
      · simp [splitOnce, same]
      · simp [splitOnce, same, ih, Ne.symm same]

theorem digitValue_lt {c : Char} (digit : c.isDigit = true) : digitValue c < 10 := by
  simp only [Char.isDigit, Bool.and_eq_true, decide_eq_true_eq, ge_iff_le, UInt32.le_iff_toNat_le]
    at digit
  have upper : c.toNat ≤ 57 := digit.2
  have zero : '0'.toNat = 48 := rfl
  simp only [digitValue, zero]
  omega

theorem digitValue_eq_zero {c : Char} (digit : c.isDigit = true) :
    digitValue c = 0 ↔ c = '0' := by
  constructor
  · intro zero
    simp only [Char.isDigit, Bool.and_eq_true, decide_eq_true_eq, ge_iff_le,
      UInt32.le_iff_toNat_le] at digit
    have lower : 48 ≤ c.toNat := digit.1
    have base : '0'.toNat = 48 := rfl
    simp only [digitValue, base] at zero
    apply Char.ext
    apply UInt32.toNat_inj.mp
    have : c.toNat = 48 := by omega
    exact this
  · rintro rfl
    rfl

private theorem foldl_digits (digits : List Char) (start : Nat) :
    digits.foldl (fun acc c => acc * 10 + digitValue c) start =
      start * 10 ^ digits.length + natValue digits := by
  induction digits generalizing start with
  | nil => simp [natValue]
  | cons c rest ih =>
      simp only [natValue, List.foldl_cons, List.length_cons, Nat.zero_mul, Nat.zero_add]
      rw [ih, ih (digitValue c), pow_succ]
      ring

theorem natValue_append (left right : List Char) :
    natValue (left ++ right) = natValue left * 10 ^ right.length + natValue right := by
  simp only [natValue, List.foldl_append]
  exact foldl_digits right _

theorem natValue_cons (c : Char) (rest : List Char) :
    natValue (c :: rest) = digitValue c * 10 ^ rest.length + natValue rest := by
  have split := natValue_append [c] rest
  simpa [natValue] using split

theorem natValue_lt (valid : allDigits digits = true) :
    natValue digits < 10 ^ digits.length := by
  induction digits with
  | nil => simp [natValue]
  | cons c rest ih =>
      simp only [allDigits, List.all_cons, Bool.and_eq_true] at valid
      have head := digitValue_lt valid.1
      have tail := ih valid.2
      rw [natValue_cons, List.length_cons, pow_succ]
      nlinarith [pow_pos (show 0 < 10 by norm_num) rest.length]

theorem natValue_pos (valid : allDigits digits = true)
    (nonzero : ∃ c ∈ digits, c ≠ '0') : 0 < natValue digits := by
  induction digits with
  | nil => simp at nonzero
  | cons c rest ih =>
      simp only [allDigits, List.all_cons, Bool.and_eq_true] at valid
      rw [natValue_cons]
      by_cases zero : c = '0'
      · obtain ⟨other, member, different⟩ := nonzero
        rcases List.mem_cons.mp member with rfl | member
        · exact absurd zero different
        · have := ih valid.2 ⟨other, member, different⟩
          omega
      · have head : digitValue c ≠ 0 := fun equal => zero ((digitValue_eq_zero valid.1).mp equal)
        have : 0 < digitValue c * 10 ^ rest.length :=
          Nat.mul_pos (Nat.pos_of_ne_zero head) (pow_pos (by norm_num) _)
        omega

theorem fractionValue_nonneg (digits : List Char) : 0 ≤ fractionValue digits := by
  unfold fractionValue
  positivity

/-- The digits after position `d` add less than one unit of the `d`-th digit. -/
theorem fractionValue_split (digits : List Char) (d : Nat) :
    fractionValue digits =
      fractionValue (digits.take d) + fractionValue
        (digits.drop d) / 10 ^ (digits.take d).length := by
  have parts := natValue_append (digits.take d) (digits.drop d)
  rw [List.take_append_drop] at parts
  have length : digits.length = (digits.take d).length + (digits.drop d).length := by
    rw [← List.length_append, List.take_append_drop]
  unfold fractionValue
  rw [parts, length, pow_add]
  push_cast
  field_simp

theorem fractionValue_lt_one (valid : allDigits digits = true) :
    fractionValue digits < 1 := by
  unfold fractionValue
  rw [div_lt_one (by positivity)]
  exact_mod_cast natValue_lt valid

theorem fractionValue_pos (valid : allDigits digits = true)
    (nonzero : ∃ c ∈ digits, c ≠ '0') : 0 < fractionValue digits := by
  unfold fractionValue
  have := natValue_pos valid nonzero
  positivity

/-- A text longer than `d` after its trailing zeros are gone has a nonzero digit
after position `d`. -/
theorem exists_nonzero_of_trim {d : Nat}
    (long : d < (trimEndMatches '0' digits).length) : ∃ c ∈ digits.drop d, c ≠ '0' := by
  by_contra none
  push Not at none
  have zeros : digits.drop d = List.replicate (digits.drop d).length '0' :=
    List.eq_replicate_of_mem none
  have short : (trimEndMatches '0' digits).length ≤ (digits.take d).length := by
    have trimmed : trimEndMatches '0' digits = trimEndMatches '0' (digits.take d) := by
      conv_lhs => rw [← List.take_append_drop d digits, zeros]
      simp only [trimEndMatches, List.reverse_append, List.reverse_replicate]
      congr 1
      exact List.dropWhile_append_of_pos (by simp)
    rw [trimmed]
    simp only [trimEndMatches, List.length_reverse]
    exact le_trans (List.dropWhile_suffix _).length_le (by rw [List.length_reverse])
  have := List.length_take_le d digits
  omega

theorem powerOfTen_eq_zpow (exponent : ℤ) : powerOfTen exponent = (10 : ℚ) ^ exponent := by
  unfold powerOfTen
  split
  · next nonneg =>
      rw [← zpow_natCast, Int.toNat_of_nonneg nonneg]
  · next negative =>
      rw [one_div, ← zpow_natCast, Int.toNat_of_nonneg (by omega), zpow_neg, inv_inv]

/-- The digits of a decimal, without its point. -/
theorem natValue_append_eq (whole fraction : List Char) :
    (natValue (whole ++ fraction) : ℚ) =
      (natValue whole + fractionValue fraction) * 10 ^ fraction.length := by
  rw [natValue_append, fractionValue]
  push_cast
  field_simp

/-- A number with at most `d` fractional digits. -/
def HasDigits (d : Nat) (value : ℚ) : Prop := ∃ units : ℤ, value * 10 ^ d = units

theorem hasDigits_intCast (d : Nat) (value : ℤ) : HasDigits d value :=
  ⟨value * 10 ^ d, by push_cast; rfl⟩

theorem HasDigits.floor_div {d : Nat} {value : ℚ} (digits : HasDigits d value) :
    (⌊value * 10 ^ d⌋ : ℚ) / 10 ^ d = value := by
  obtain ⟨units, scaled⟩ := digits
  rw [scaled, Int.floor_intCast, ← scaled, mul_div_assoc, div_self (by positivity), mul_one]

/-- Distinct numbers with `d` fractional digits are at least one unit apart. -/
theorem HasDigits.add_unit_le {d : Nat} {low high : ℚ} (lowDigits : HasDigits d low)
    (highDigits : HasDigits d high) (less : low < high) : low + 1 / 10 ^ d ≤ high := by
  obtain ⟨lowUnits, lowEqual⟩ := lowDigits
  obtain ⟨highUnits, highEqual⟩ := highDigits
  have scale : (0 : ℚ) < 10 ^ d := by positivity
  have units : lowUnits < highUnits := by
    have : (lowUnits : ℚ) < highUnits := by
      rw [← lowEqual, ← highEqual]
      exact mul_lt_mul_of_pos_right less scale
    exact_mod_cast this
  have step : (lowUnits : ℚ) + 1 ≤ highUnits := by exact_mod_cast units
  rw [← lowEqual, ← highEqual] at step
  have cancel : (low + 1 / 10 ^ d) * 10 ^ d ≤ high * 10 ^ d := by
    rw [add_mul, one_div, inv_mul_cancel₀ scale.ne']
    exact step
  exact le_of_mul_le_mul_right cancel scale

/-- Between two neighbouring numbers of `d` digits, a bound compares with every such
number as the lower neighbour does. -/
theorem HasDigits.compare_between {d : Nat} {value floor bound : ℚ}
    (valueDigits : HasDigits d value) (floorDigits : HasDigits d floor)
    (above : floor < bound) (below : bound < floor + 1 / 10 ^ d) :
    compare value bound = if value ≤ floor then .lt else .gt := by
  split
  · next low => exact compare_lt_iff_lt.mpr (lt_of_le_of_lt low above)
  · next high =>
      have next := floorDigits.add_unit_le valueDigits (not_le.mp high)
      exact compare_gt_iff_gt.mpr (lt_of_lt_of_le below next)

/-- The cut fraction is a number of `d` digits, and the digits cut off are worth less
than one unit. -/
theorem fractionValue_take {d : Nat} (valid : allDigits digits = true)
    (long : d < (trimEndMatches '0' digits).length) :
    HasDigits d (fractionValue (digits.take d)) ∧
      fractionValue (digits.take d) < fractionValue digits ∧
      fractionValue digits < fractionValue (digits.take d) + 1 / 10 ^ d := by
  have nonzero := exists_nonzero_of_trim long
  have length : (digits.take d).length = d := by
    have rest : digits.drop d ≠ [] := by
      obtain ⟨c, member, -⟩ := nonzero
      exact List.ne_nil_of_mem member
    have := List.length_lt_of_drop_ne_nil rest
    simp only [List.length_take]
    omega
  have restValid : allDigits (digits.drop d) = true :=
    List.all_eq_true.mpr fun c member => List.all_eq_true.mp valid c (List.mem_of_mem_drop member)
  have scale : (0 : ℚ) < 10 ^ d := by positivity
  have split := fractionValue_split digits d
  rw [length] at split
  refine ⟨⟨natValue (digits.take d), ?_⟩, ?_, ?_⟩
  · unfold fractionValue
    rw [length, div_mul_cancel₀ _ scale.ne']
    norm_cast
  · rw [split]
    have := div_pos (fractionValue_pos restValid nonzero) scale
    linarith
  · rw [split]
    have := div_lt_div_of_pos_right (fractionValue_lt_one restValid) scale
    linarith

theorem HasDigits.mono {d e : Nat} {value : ℚ} (digits : HasDigits d value) (le : d ≤ e) :
    HasDigits e value := by
  obtain ⟨units, equal⟩ := digits
  refine ⟨units * 10 ^ (e - d), ?_⟩
  have power : (10 : ℚ) ^ e = 10 ^ d * 10 ^ (e - d) := by rw [← pow_add]; congr 1; omega
  rw [power, ← mul_assoc, equal]
  push_cast
  rfl

theorem HasDigits.add {d : Nat} {left right : ℚ} (leftDigits : HasDigits d left)
    (rightDigits : HasDigits d right) : HasDigits d (left + right) := by
  obtain ⟨leftUnits, leftEqual⟩ := leftDigits
  obtain ⟨rightUnits, rightEqual⟩ := rightDigits
  exact ⟨leftUnits + rightUnits, by rw [add_mul, leftEqual, rightEqual]; push_cast; rfl⟩

theorem HasDigits.neg {d : Nat} {value : ℚ} (digits : HasDigits d value) :
    HasDigits d (-value) := by
  obtain ⟨units, equal⟩ := digits
  exact ⟨-units, by rw [neg_mul, equal]; push_cast; rfl⟩

theorem hasDigits_fractionValue (digits : List Char) :
    HasDigits digits.length (fractionValue digits) := by
  refine ⟨natValue digits, ?_⟩
  unfold fractionValue
  rw [div_mul_cancel₀ _ (by positivity)]
  norm_cast

theorem trimEndMatches_append (c : Char) (text : List Char) :
    ∃ n, text = trimEndMatches c text ++ List.replicate n c := by
  have split := List.takeWhile_append_dropWhile (p := (· = c)) (l := text.reverse)
  have same : (text.reverse.takeWhile (· = c)) =
      List.replicate (text.reverse.takeWhile (· = c)).length c :=
    List.eq_replicate_of_mem fun d member => by simpa using List.mem_takeWhile_imp member
  refine ⟨(text.reverse.takeWhile (· = c)).length, ?_⟩
  have reversed := congrArg List.reverse split
  rw [List.reverse_append, List.reverse_reverse, same, List.reverse_replicate] at reversed
  simpa [trimEndMatches] using reversed.symm

/-- Trailing zeros are worth nothing. -/
theorem fractionValue_trim (digits : List Char) :
    fractionValue (trimEndMatches '0' digits) = fractionValue digits := by
  obtain ⟨n, equal⟩ := trimEndMatches_append '0' digits
  have zeros : ∀ n, natValue (List.replicate n '0') = 0 := by
    intro n
    induction n with
    | zero => rfl
    | succ n ih =>
        rw [List.replicate_succ, natValue_cons, ih]
        simp [digitValue]
  conv_rhs => rw [equal]
  unfold fractionValue
  rw [natValue_append, zeros, List.length_append, List.length_replicate, pow_add]
  push_cast
  field_simp
  ring

theorem splitExponent_of_no_marker
    (plain : ∀ c ∈ text, c ≠ 'e' ∧ c ≠ 'E') : splitExponent text = (text, none) := by
  induction text with
  | nil => rfl
  | cons c rest ih =>
      have head := plain c (by simp)
      have tail := ih fun c member => plain c (by simp [member])
      simp [splitExponent, head.1, head.2, tail]

theorem mem_of_splitSign {c : Char} (member : c ∈ text) :
    c ∈ (splitSign text).2 ∨ c = '-' ∨ c = '+' := by
  unfold splitSign
  split
  · rcases List.mem_cons.mp member with rfl | member
    · exact .inr (.inl rfl)
    · exact .inl member
  · rcases List.mem_cons.mp member with rfl | member
    · exact .inr (.inr rfl)
    · exact .inl member
  · exact .inl member

theorem decimalValue_hasDigits {value : ℚ} (found : decimalValue text = some value) :
    HasDigits ((splitOnce '.' text).getD (text, [])).2.length value := by
  simp only [decimalValue] at found
  split at found
  · cases found
    exact (hasDigits_intCast _ (natValue _)).add (hasDigits_fractionValue _)
  · simp at found

/-- A numeral without exponent is worth its signed decimal part. -/
theorem numeralValue_plain {magnitude : ℚ}
    (plain : ∀ c ∈ text, c ≠ 'e' ∧ c ≠ 'E')
    (found : decimalValue (splitSign text).2 = some magnitude) :
    numeralValue text = some (if (splitSign text).1 then -magnitude else magnitude) := by
  simp [numeralValue, splitExponent_of_no_marker plain, found, powerOfTen]

theorem isDigit_solid {c : Char} (digit : c.isDigit = true) :
    WhiteSpace.isWhiteSpace c = false := by
  simp only [Char.isDigit, Bool.and_eq_true, decide_eq_true_eq, ge_iff_le, UInt32.le_iff_toNat_le]
    at digit
  have lower : 48 ≤ c.toNat := digit.1
  have upper : c.toNat ≤ 57 := digit.2
  rw [Bool.eq_false_iff]
  intro space
  simp only [WhiteSpace.isWhiteSpace, WhiteSpace.codePoints, List.contains_iff_mem, List.mem_cons,
    List.not_mem_nil, or_false] at space
  omega

theorem isDigit_ne {c : Char} (digit : c.isDigit = true) : c ≠ 'e' ∧ c ≠ 'E' := by
  constructor <;> rintro rfl <;> simp [Char.isDigit] at digit

theorem natValue_toDigits (value : Nat) : natValue (Nat.toDigits 10 value) = value := by
  have read := @Nat.ofDigitChars_ten_toDigits value
  simp only [Nat.ofDigitChars, Nat.mul_comm 10] at read
  exact read

theorem allDigits_toDigits (value : Nat) : allDigits (Nat.toDigits 10 value) = true :=
  List.all_eq_true.mpr fun _ member =>
    Nat.isDigit_of_mem_toDigits (by norm_num) (by norm_num) member

/-- Digits alone are a numeral without sign, point or exponent. -/
theorem decimalValue_digits (nonempty : digits ≠ [])
    (valid : allDigits digits = true) : decimalValue digits = some (natValue digits : ℚ) := by
  have noPoint : splitOnce '.' digits = none := by
    rw [splitOnce_eq_none]
    intro member
    have := List.all_eq_true.mp valid '.' member
    simp [Char.isDigit] at this
  have noFraction : fractionValue [] = 0 := by simp [fractionValue, natValue]
  simp [decimalValue, noPoint, valid, nonempty, noFraction]

theorem decimalValue_toDigits (value : Nat) :
    decimalValue (Nat.toDigits 10 value) = some (value : ℚ) := by
  rw [decimalValue_digits Nat.toDigits_ne_nil (allDigits_toDigits value), natValue_toDigits]

theorem digits_plain (valid : allDigits digits = true) :
    ∀ c ∈ digits, WhiteSpace.isWhiteSpace c = false ∧ c ≠ 'e' ∧ c ≠ 'E' := fun c member =>
  have digit := List.all_eq_true.mp valid c member
  ⟨isDigit_solid digit, isDigit_ne digit⟩

theorem splitSign_cases (text : List Char) :
    (∃ rest, text = '-' :: rest ∧ splitSign text = (true, rest)) ∨
      (∃ rest, text = '+' :: rest ∧ splitSign text = (false, rest)) ∨
      splitSign text = (false, text) := by
  unfold splitSign
  split
  · next rest => exact .inl ⟨rest, rfl, rfl⟩
  · next rest => exact .inr (.inl ⟨rest, rfl, rfl⟩)
  · exact .inr (.inr rfl)

theorem splitSign_digits (valid : allDigits digits = true) :
    splitSign digits = (false, digits) := by
  unfold splitSign
  split
  · simp [allDigits, Char.isDigit] at valid
  · simp [allDigits, Char.isDigit] at valid
  · rfl

theorem toList_toString (value : ℤ) :
    (toString value).toList =
      if 0 ≤ value then Nat.toDigits 10 value.toNat
      else '-' :: Nat.toDigits 10 (-value).toNat := by
  change value.repr.toList = _
  rw [Int.repr_eq_if]
  split
  · rw [Nat.repr_eq_ofList_toDigits, String.toList_ofList]
  · simp [Nat.repr_eq_ofList_toDigits]

/-- An integer's text denotes it, and holds no white space. -/
theorem numeralValue_toString (value : ℤ) :
    numeralValue (toString value).toList = some (value : ℚ) ∧
      WhiteSpace.trim (toString value).toList = (toString value).toList := by
  rw [toList_toString]
  split
  · next nonneg =>
      have plain := digits_plain (allDigits_toDigits value.toNat)
      refine ⟨?_, WhiteSpace.trim_eq_self fun c member => (plain c member).1⟩
      have read := numeralValue_plain (fun c member => (plain c member).2)
        (by rw [splitSign_digits (allDigits_toDigits _)]; exact decimalValue_toDigits _)
      rw [read, splitSign_digits (allDigits_toDigits _)]
      have cast : ((value.toNat : ℤ) : ℚ) = value := by rw [Int.toNat_of_nonneg nonneg]
      rw [Int.cast_natCast] at cast
      simp [cast]
  · next negative =>
      have plain : ∀ c ∈ '-' :: Nat.toDigits 10 (-value).toNat,
          WhiteSpace.isWhiteSpace c = false ∧ c ≠ 'e' ∧ c ≠ 'E' := by
        intro c member
        rcases List.mem_cons.mp member with rfl | member
        · decide
        · exact digits_plain (allDigits_toDigits _) c member
      refine ⟨?_, WhiteSpace.trim_eq_self fun c member => (plain c member).1⟩
      have read := numeralValue_plain (fun c member => (plain c member).2)
        (show decimalValue (splitSign ('-' :: Nat.toDigits 10 (-value).toNat)).2 = _ from
          decimalValue_toDigits _)
      rw [read]
      have cast : (((-value).toNat : ℤ) : ℚ) = ((-value : ℤ) : ℚ) := by
        rw [Int.toNat_of_nonneg (by omega)]
      push_cast at cast
      simp [splitSign, cast]

/-- An integer text denotes the same number as a numeral. -/
theorem numeralValue_of_integerValue {value : ℤ}
    (found : integerValue text = some value) : numeralValue text = some (value : ℚ) := by
  simp only [integerValue] at found
  split at found
  · next valid =>
      have plain : ∀ c ∈ text, c ≠ 'e' ∧ c ≠ 'E' := by
        intro c member
        rcases mem_of_splitSign member with digit | rfl | rfl
        · exact isDigit_ne (List.all_eq_true.mp valid.2 c digit)
        · decide
        · decide
      rw [numeralValue_plain plain (decimalValue_digits valid.1 valid.2)]
      cases found
      split <;> simp_all
  · simp at found

/-- A text is determined by what follows its last separator and what precedes it. -/
theorem append_separator_inj {left right left' right' : List Char}
    (free : separator ∉ right) (free' : separator ∉ right')
    (same : left ++ separator :: right = left' ++ separator :: right') :
    left = left' ∧ right = right' := by
  rcases List.append_eq_append_iff.mp same with ⟨middle, leftEq, rightEq⟩ | ⟨middle,
    leftEq, rightEq⟩
  · cases middle with
    | nil => simpa [leftEq] using rightEq
    | cons head middle =>
        simp only [List.cons_append, List.cons.injEq] at rightEq
        exact absurd (rightEq.2 ▸ List.mem_append_right middle List.mem_cons_self) free
  · cases middle with
    | nil => simpa [leftEq] using rightEq.symm
    | cons head middle =>
        simp only [List.cons_append, List.cons.injEq] at rightEq
        exact absurd (rightEq.2 ▸ List.mem_append_right middle List.mem_cons_self) free'

theorem not_mem_toString (noDigit : separator.isDigit = false) (number : ℕ) :
    separator ∉ (toString number).toList := by
  intro member
  rw [Nat.toString_eq_repr, Nat.toList_repr] at member
  have digit := Nat.isDigit_of_mem_toDigits (by norm_num) (by norm_num) member
  rw [noDigit] at digit
  exact absurd digit Bool.false_ne_true

theorem parseUnsigned_toString {bound value : ℕ} (inside : value < bound) :
    parseUnsigned bound (toString value).toList = some value := by
  have unsigned : (toString value).toList.head? ≠ some '+' := fun sign =>
    not_mem_toString (by decide) value (List.mem_of_mem_head? sign)
  rw [Nat.toString_eq_repr, Nat.toList_repr] at unsigned ⊢
  simp only [parseUnsigned, if_neg unsigned, natValue_toDigits]
  exact if_pos ⟨Nat.toDigits_ne_nil, allDigits_toDigits value, inside⟩

theorem natToString_inj {left right : ℕ} (same : toString left = toString right) :
    left = right := by
  have digits := congrArg String.toList same
  rw [Nat.toString_eq_repr, Nat.toString_eq_repr, Nat.toList_repr, Nat.toList_repr] at digits
  rw [← natValue_toDigits left, digits, natValue_toDigits]

end LakehouseEngine.Text
