import LakehouseEngine.Text.Numeral

/-!
# Plain decimal texts

An optional minus sign, digits, and optionally a point and more digits.  Of the texts of one
number exactly one is shortest: it has no superfluous zero, point or sign.
-/

namespace LakehouseEngine.Text

/-! ## Digit texts of one value -/

theorem isDigit_toNat {c : Char} (digit : c.isDigit = true) : 48 ≤ c.toNat ∧ c.toNat ≤ 57 := by
  simp only [Char.isDigit, Bool.and_eq_true, decide_eq_true_eq, ge_iff_le,
    UInt32.le_iff_toNat_le] at digit
  exact digit

theorem digitValue_inj {c d : Char} (digit : c.isDigit = true) (other : d.isDigit = true)
    (same : digitValue c = digitValue d) : c = d := by
  have first := (isDigit_toNat digit).1
  have second := (isDigit_toNat other).1
  have zero : '0'.toNat = 48 := rfl
  simp only [digitValue, zero] at same
  exact Char.toNat_inj.mp (by omega)

theorem natValue_inj {left right : List Char} (valid : allDigits left = true)
    (other : allDigits right = true)
    (length : left.length = right.length) (same : natValue left = natValue right) :
    left = right := by
  induction left generalizing right with
  | nil => exact (List.length_eq_zero_iff.mp length.symm).symm
  | cons c left ih =>
      cases right with
      | nil => cases length
      | cons d right =>
          rw [List.length_cons, List.length_cons, Nat.add_right_cancel_iff] at length
          simp only [allDigits, List.all_cons, Bool.and_eq_true] at valid other
          rw [natValue_cons, natValue_cons, length] at same
          have leftSmall := natValue_lt valid.2
          have rightSmall := natValue_lt other.2
          rw [length] at leftSmall
          have positive : 0 < 10 ^ right.length := Nat.pow_pos (by decide)
          -- The first digit is the quotient by the power of ten, the rest the remainder.
          have heads : digitValue c = digitValue d := by
            have quotient : ∀ digit small, small < 10 ^ right.length →
                (digit * 10 ^ right.length + small) / 10 ^ right.length = digit := by
              intro digit small below
              rw [Nat.mul_comm, Nat.mul_add_div positive, Nat.div_eq_of_lt below, Nat.add_zero]
            rw [← quotient (digitValue c) _ leftSmall, same, quotient (digitValue d) _ rightSmall]
          have tails : natValue left = natValue right := by
            rw [heads] at same
            exact Nat.add_left_cancel same
          rw [digitValue_inj valid.1 other.1 heads, ih valid.2 other.2 length tails]

/-- A digit text without a superfluous leading zero is the shortest of its value. -/
theorem length_le_of_natValue_eq {whole other : List Char}
    (plain : whole.head? = some '0' → whole = ['0'])
    (valid : allDigits whole = true) (nonempty : other ≠ []) (validOther : allDigits other = true)
    (same : natValue whole = natValue other) : whole.length ≤ other.length := by
  cases whole with
  | nil => exact Nat.zero_le _
  | cons c rest =>
      by_cases zero : c = '0'
      · rw [plain (by rw [zero]; rfl)]
        exact List.length_pos_iff.mpr nonempty
      · simp only [allDigits, List.all_cons, Bool.and_eq_true] at valid
        have head : 1 ≤ digitValue c :=
          Nat.pos_of_ne_zero fun none => zero ((digitValue_eq_zero valid.1).mp none)
        have large : 10 ^ rest.length ≤ natValue (c :: rest) := by
          rw [natValue_cons]
          nlinarith [Nat.pow_pos (n := rest.length) (show 0 < 10 by decide)]
        have small := natValue_lt validOther
        rw [← same] at small
        have shorter : rest.length < other.length :=
          (Nat.pow_lt_pow_iff_right (by decide)).mp (lt_of_le_of_lt large small)
        exact shorter

theorem natValue_eq_of_fractionValue_eq {fraction other : List Char}
    (shorter : other.length ≤ fraction.length)
    (same : fractionValue fraction = fractionValue other) :
    natValue fraction = natValue other * 10 ^ (fraction.length - other.length) := by
  have split : (10 : ℚ) ^ fraction.length =
    10 ^ other.length * 10 ^ (fraction.length - other.length) := by
    rw [← pow_add, Nat.add_sub_cancel' shorter]
  rw [fractionValue, fractionValue, split] at same
  field_simp at same
  rw [Nat.mul_comm]
  exact_mod_cast same

/-- Fraction digits without a trailing zero are the fewest of their value. -/
theorem length_le_of_fractionValue_eq {fraction other : List Char}
    (valid : allDigits fraction = true)
    (trimmed : fraction.getLast? ≠ some '0') (same : fractionValue fraction = fractionValue other) :
    fraction.length ≤ other.length := by
  by_contra longer
  have shorter : other.length < fraction.length := Nat.lt_of_not_le longer
  have values := natValue_eq_of_fractionValue_eq shorter.le same
  obtain ⟨positions, excess⟩ : ∃ positions, fraction.length - other.length = positions + 1 :=
    Nat.exists_eq_succ_of_ne_zero (by omega)
  have nonempty : fraction ≠ [] := by
    rintro rfl
    simp at shorter
  obtain ⟨front, last, rfl⟩ : ∃ front last, fraction = front ++ [last] :=
    ⟨fraction.dropLast, fraction.getLast nonempty, (List.dropLast_append_getLast nonempty).symm⟩
  simp only [allDigits, List.all_append, List.all_cons, List.all_nil, Bool.and_true,
    Bool.and_eq_true] at valid
  have single : natValue [last] = digitValue last := by simp [natValue]
  rw [natValue_append, single, excess, pow_succ, List.length_singleton, pow_one] at values
  have digit := digitValue_lt valid.2
  have zero : digitValue last = 0 := by
    have multiple : natValue other * (10 ^ positions * 10) = natValue other * 10 ^ positions * 10 :=
      (Nat.mul_assoc _ _ _).symm
    omega
  refine trimmed ?_
  rw [List.getLast?_concat, (digitValue_eq_zero valid.2).mp zero]

theorem eq_of_fractionValue_eq {fraction other : List Char} (valid : allDigits fraction = true)
    (validOther : allDigits other = true) (length : fraction.length = other.length)
    (same : fractionValue fraction = fractionValue other) : fraction = other := by
  have values := natValue_eq_of_fractionValue_eq length.ge same
  rw [length, Nat.sub_self, pow_zero, Nat.mul_one] at values
  exact natValue_inj valid validOther length values

/-- The whole part and the fraction of a number are determined. -/
theorem parts_eq {whole other : ℕ} {fraction otherFraction : List Char}
    (valid : allDigits fraction = true)
    (validOther : allDigits otherFraction = true)
    (same : (whole : ℚ) + fractionValue fraction = other + fractionValue otherFraction) :
    whole = other ∧ fractionValue fraction = fractionValue otherFraction := by
  have low := fractionValue_nonneg fraction
  have high := fractionValue_lt_one valid
  have lowOther := fractionValue_nonneg otherFraction
  have highOther := fractionValue_lt_one validOther
  have wholes : whole = other := by
    have below : (whole : ℚ) < other + 1 := by linarith
    have above : (other : ℚ) < whole + 1 := by linarith
    have belowNat : whole < other + 1 := by exact_mod_cast below
    have aboveNat : other < whole + 1 := by exact_mod_cast above
    omega
  refine ⟨wholes, ?_⟩
  rw [wholes] at same
  linarith

/-- Only the text of zero begins with a zero. -/
theorem eq_zero_of_head?_toDigits {number : ℕ} (zero : (Nat.toDigits 10 number).head? = some '0') :
    number = 0 := by
  induction number using Nat.strongRecOn with
  | ind number ih =>
      by_cases small : number < 10
      · rw [Nat.toDigits_of_lt_base small, List.head?_cons, Option.some.injEq] at zero
        have digits : ∀ digit < 10, Nat.digitChar digit = '0' → digit = 0 := by decide
        exact digits number small zero
      · have large : 10 ≤ number := Nat.le_of_not_lt small
        rw [Nat.toDigits_of_base_le (by decide) large,
          List.head?_append_of_ne_nil _ Nat.toDigits_ne_nil] at zero
        have quotient := ih (number / 10) (Nat.div_lt_self (by omega) (by decide)) zero
        omega

/-- A printed number has no superfluous leading zero. -/
theorem toDigits_leading {number : ℕ} (zero : (Nat.toDigits 10 number).head? = some '0') :
    Nat.toDigits 10 number = ['0'] := by
  rw [eq_zero_of_head?_toDigits zero]
  rfl

/-! ## Trailing zeros -/

theorem getLast?_trimEndMatches (c : Char) (text : List Char) :
    (trimEndMatches c text).getLast? ≠ some c := by
  rw [trimEndMatches, List.getLast?_reverse]
  have head := List.head?_dropWhile_not (fun d => decide (d = c)) text.reverse
  intro same
  rw [same] at head
  simp at head

theorem trimEndMatches_append_cons {c last : Char} (different : last ≠ c) (front : List Char)
    {tail : List Char}
    (same : ∀ d ∈ tail, d = c) : trimEndMatches c (front ++ last :: tail) = front ++ [last] := by
  have reversed : (front ++ last :: tail).reverse = tail.reverse ++ last :: front.reverse := by simp
  rw [trimEndMatches, reversed, List.dropWhile_append_of_pos (by simpa using same),
    List.dropWhile_cons_of_neg (by simpa using different)]
  simp

theorem allDigits_trimEndMatches {digits : List Char} (valid : allDigits digits = true) (c : Char) :
    allDigits (trimEndMatches c digits) = true := by
  obtain ⟨count, joined⟩ := trimEndMatches_append c digits
  rw [joined] at valid
  simp only [allDigits, List.all_append, Bool.and_eq_true] at valid
  exact valid.1

/-! ## The shortest text -/

def signText (negative : Bool) : List Char := if negative then ['-'] else []

def pointText : Option (List Char) → List Char
  | none => []
  | some fraction => '.' :: fraction

structure PlainDecimal where
  negative : Bool
  whole : List Char
  fraction : Option (List Char)
  nonempty : whole ≠ []
  wholeDigits : allDigits whole = true
  fractionDigits : allDigits (fraction.getD []) = true

namespace PlainDecimal

def text (decimal : PlainDecimal) : List Char :=
  signText decimal.negative ++ decimal.whole ++ pointText decimal.fraction

def magnitude (decimal : PlainDecimal) : ℚ :=
  natValue decimal.whole + fractionValue (decimal.fraction.getD [])

def value (decimal : PlainDecimal) : ℚ :=
  if decimal.negative then -decimal.magnitude else decimal.magnitude

theorem magnitude_nonneg (decimal : PlainDecimal) : 0 ≤ decimal.magnitude := by
  have fraction := fractionValue_nonneg (decimal.fraction.getD [])
  rw [magnitude]
  positivity

theorem magnitude_eq_abs (decimal : PlainDecimal) : decimal.magnitude = |decimal.value| := by
  rw [value]
  split
  · rw [abs_neg, abs_of_nonneg decimal.magnitude_nonneg]
  · rw [abs_of_nonneg decimal.magnitude_nonneg]

/-- Nothing in the text is superfluous. -/
structure Short (decimal : PlainDecimal) : Prop where
  leading : decimal.whole.head? = some '0' → decimal.whole = ['0']
  point : decimal.fraction ≠ some []
  trailing : (decimal.fraction.getD []).getLast? ≠ some '0'
  sign : decimal.negative = true → decimal.magnitude ≠ 0

variable {decimal other : PlainDecimal}

theorem Short.sign_le (short : decimal.Short) (same : other.value = decimal.value) :
    (signText decimal.negative).length ≤ (signText other.negative).length := by
  cases sign : decimal.negative with
  | false => exact Nat.zero_le _
  | true =>
      have negative : decimal.value < 0 := by
        rw [value, if_pos sign]
        exact neg_neg_of_pos (lt_of_le_of_ne decimal.magnitude_nonneg (Ne.symm (short.sign sign)))
      cases otherSign : other.negative with
      | true => exact le_rfl
      | false =>
          have nonneg : 0 ≤ other.value := by
            rw [value, otherSign, if_neg (by decide)]
            exact other.magnitude_nonneg
          rw [same] at nonneg
          exact absurd negative (not_lt.mpr nonneg)

theorem Short.point_le (short : decimal.Short)
    (fractions : (decimal.fraction.getD []).length ≤ (other.fraction.getD []).length) :
    (pointText decimal.fraction).length ≤ (pointText other.fraction).length := by
  cases own : decimal.fraction with
  | none => exact Nat.zero_le _
  | some fraction =>
      rw [own, Option.getD_some] at fractions
      have nonempty : fraction ≠ [] := fun none => short.point (by rw [own, none])
      have positive := List.length_pos_iff.mpr nonempty
      cases theirs : other.fraction with
      | none =>
          rw [theirs, Option.getD_none, List.length_nil] at fractions
          omega
      | some otherFraction =>
          rw [theirs, Option.getD_some] at fractions
          simpa [pointText] using fractions

/-- The text of a short decimal is the only shortest one of its value. -/
theorem Short.shortest (short : decimal.Short) (same : other.value = decimal.value) :
    decimal.text.length ≤ other.text.length ∧
      (other.text.length = decimal.text.length → other.text = decimal.text) := by
  have magnitudes : decimal.magnitude = other.magnitude := by
    rw [magnitude_eq_abs, magnitude_eq_abs, same]
  obtain ⟨wholes, fractions⟩ := parts_eq decimal.fractionDigits other.fractionDigits magnitudes
  have signLe := short.sign_le same
  have wholeLe := length_le_of_natValue_eq short.leading decimal.wholeDigits other.nonempty
    other.wholeDigits
    wholes
  have fractionLe := length_le_of_fractionValue_eq decimal.fractionDigits short.trailing fractions
  have pointLe := short.point_le fractionLe
  simp only [text, List.length_append]
  refine ⟨by omega, fun lengths => ?_⟩
  -- No part can be longer than its shortest form when the whole texts are equally long.
  have signs : signText other.negative = signText decimal.negative := by
    have length : (signText other.negative).length = (signText decimal.negative).length := by omega
    cases own : decimal.negative <;> cases theirs : other.negative <;>
      simp [own, theirs, signText] at length ⊢
  have sameWhole : other.whole = decimal.whole :=
    natValue_inj other.wholeDigits decimal.wholeDigits (by omega) wholes.symm
  have points : pointText other.fraction = pointText decimal.fraction := by
    have length : (pointText other.fraction).length = (pointText decimal.fraction).length := by
      omega
    cases own : decimal.fraction with
    | none =>
        rw [own] at length
        exact List.length_eq_zero_iff.mp length
    | some fraction =>
        cases theirs : other.fraction with
        | none =>
            rw [own, theirs] at length
            cases length
        | some otherFraction =>
            rw [own, theirs, Option.getD_some, Option.getD_some] at fractions
            rw [own, theirs, pointText, pointText, List.length_cons, List.length_cons,
              Nat.add_right_cancel_iff] at length
            have valid := decimal.fractionDigits
            have validOther := other.fractionDigits
            rw [own, Option.getD_some] at valid
            rw [theirs, Option.getD_some] at validOther
            rw [eq_of_fractionValue_eq valid validOther length.symm fractions]
  rw [signs, sameWhole, points]

/-- A short text ends in a digit, and not in a zero after the point. -/
theorem Short.ends (short : decimal.Short) :
    decimal.text.getLast? ≠ some '.' ∧ ('.' ∈ decimal.text → decimal.text.getLast? ≠ some '0') := by
  have noPoint : ∀ {digits : List Char}, allDigits digits = true → '.' ∉ digits := by
    intro digits valid member
    cases List.all_eq_true.mp valid '.' member
  have wholeFree := noPoint decimal.wholeDigits
  have signFree : '.' ∉ signText decimal.negative := by
    rw [signText]
    split <;> simp
  rw [text]
  cases own : decimal.fraction with
  | none =>
      rw [pointText, List.append_nil]
      have free : '.' ∉ signText decimal.negative ++ decimal.whole := by simp [wholeFree, signFree]
      exact ⟨fun last => free (List.mem_of_getLast? last), fun member => absurd member free⟩
  | some fraction =>
      have nonempty : fraction ≠ [] := fun none => short.point (by rw [own, none])
      have last : (signText decimal.negative ++ decimal.whole ++
        pointText (some fraction)).getLast? =
          fraction.getLast? := by
        obtain ⟨c, rest, rfl⟩ := List.exists_cons_of_ne_nil nonempty
        rw [pointText, List.getLast?_append_of_ne_nil _ (List.cons_ne_nil _ _),
          List.getLast?_cons_cons]
      have valid := decimal.fractionDigits
      have trailing := short.trailing
      rw [own, Option.getD_some] at valid trailing
      rw [last]
      exact ⟨fun same => noPoint valid (List.mem_of_getLast? same), fun _ => trailing⟩

/-- An integer, as it is printed. -/
def ofInt (value : ℤ) : PlainDecimal :=
  ⟨value < 0, Nat.toDigits 10 value.natAbs, none, Nat.toDigits_ne_nil, allDigits_toDigits _, rfl⟩

theorem magnitude_ofInt (number : ℤ) : (ofInt number).magnitude = |(number : ℚ)| := by
  have whole : (natValue (Nat.toDigits 10 number.natAbs) : ℚ) = |(number : ℚ)| := by
    rw [natValue_toDigits, Nat.cast_natAbs, Int.cast_abs]
  have none : fractionValue [] = 0 := by simp [fractionValue, natValue]
  change (natValue (Nat.toDigits 10 number.natAbs) : ℚ) + fractionValue [] = _
  rw [whole, none, add_zero]

theorem value_ofInt (number : ℤ) : (ofInt number).value = number := by
  rw [value, magnitude_ofInt]
  change (if decide (number < 0) = true then _ else _) = _
  simp only [decide_eq_true_eq]
  split
  · next negative =>
      rw [abs_of_neg (by exact_mod_cast negative), neg_neg]
  · next nonneg => rw [abs_of_nonneg (by exact_mod_cast not_lt.mp nonneg)]

theorem short_ofInt (number : ℤ) : (ofInt number).Short := by
  refine ⟨toDigits_leading, by simp [ofInt], by simp [ofInt], fun negative => ?_⟩
  have below : number < 0 := of_decide_eq_true negative
  rw [magnitude_ofInt, abs_ne_zero]
  exact_mod_cast below.ne

theorem text_ofInt (number : ℤ) : (ofInt number).text = (toString number).toList := by
  change signText (number < 0) ++ Nat.toDigits 10 number.natAbs ++ [] = _
  rw [List.append_nil, toList_toString, signText]
  split
  · next negative =>
      have below : number < 0 := of_decide_eq_true negative
      rw [if_neg (not_le.mpr below), show (-number).toNat = number.natAbs by omega]
      rfl
  · next nonneg =>
      have above : 0 ≤ number := not_lt.mp fun below => nonneg (decide_eq_true below)
      rw [if_pos above, show number.toNat = number.natAbs by omega]
      rfl

end PlainDecimal

/-- A plain decimal text of a number. -/
def Writes (text : List Char) (number : ℚ) : Prop :=
  ∃ decimal : PlainDecimal, decimal.text = text ∧ decimal.value = number

/-- The one shortest plain decimal text of a number. -/
def IsShortest (text : List Char) (number : ℚ) : Prop :=
  Writes text number ∧ ∀ other, Writes other number →
    text.length ≤ other.length ∧ (other.length = text.length → other = text)

theorem PlainDecimal.Short.isShortest {decimal : PlainDecimal} (short : decimal.Short) :
    IsShortest decimal.text decimal.value := by
  refine ⟨⟨decimal, rfl, rfl⟩, ?_⟩
  rintro _ ⟨other, rfl, same⟩
  exact short.shortest same

theorem IsShortest.unique {first second : List Char} {number : ℚ}
    (shortest : IsShortest first number)
    (other : IsShortest second number) : first = second := by
  have below := shortest.2 second other.1
  have above := other.2 first shortest.1
  exact above.2 (le_antisymm below.1 above.1)

end LakehouseEngine.Text
