import LakehouseEngine.Text.Numeral
import Mathlib.Data.String.Basic

/-!
# Lower-case hexadecimal text

The text of a byte string has two digits for each byte.  Texts compare as the byte strings do,
and a text without upper-case digits is the text of the bytes it spells.
-/

namespace LakehouseEngine.Text

/-- The lower-case digit of a value below sixteen. -/
def hexChar (value : ℕ) : Char :=
  if value < 10 then Char.ofNat (value + 48) else Char.ofNat (value + 87)

/-- Two digits for each byte, the high half first. -/
def hexEncode : List ℕ → List Char
  | [] => []
  | byte :: bytes => hexChar (byte / 16) :: hexChar (byte % 16) :: hexEncode bytes

/-- A list of bytes. -/
def IsBytes (bytes : List ℕ) : Prop := ∀ byte ∈ bytes, byte < 256

theorem isBytes_nil : IsBytes [] := List.forall_mem_nil _

theorem isBytes_cons {byte : ℕ} {bytes : List ℕ} :
    IsBytes (byte :: bytes) ↔ byte < 256 ∧ IsBytes bytes :=
  List.forall_mem_cons

theorem hexChar_lt_iff : ∀ first < 16, ∀ second < 16,
    hexChar first < hexChar second ↔ first < second := by
  decide

theorem hexChar_inj {first second : ℕ} (small : first < 16) (smaller : second < 16) :
    hexChar first = hexChar second ↔ first = second := by
  constructor
  · intro same
    have below := (hexChar_lt_iff first small second smaller).not.mp (same ▸ lt_irrefl _)
    have above := (hexChar_lt_iff second smaller first small).not.mp (same ▸ lt_irrefl _)
    omega
  · exact congrArg hexChar

/-- The texts are ordered as the byte strings are. -/
theorem hexEncode_lt_iff {first second : List ℕ} (bytes : IsBytes first) (others : IsBytes second) :
    hexEncode first < hexEncode second ↔ compare first second = .lt := by
  induction first generalizing second with
  | nil =>
      cases second with
      | nil => exact ⟨fun less => absurd less (lt_irrefl _), fun less => absurd less (by decide)⟩
      | cons other others => exact ⟨fun _ => rfl, fun _ => List.nil_lt_cons _ _⟩
  | cons byte rest ih =>
      cases second with
      | nil =>
          have greater : compare (byte :: rest) [] = .gt := rfl
          rw [greater]
          exact ⟨fun less => absurd less (List.not_lt_nil _), fun less => absurd less (by decide)⟩
      | cons other later =>
          obtain ⟨small, restBytes⟩ := isBytes_cons.mp bytes
          obtain ⟨smaller, laterBytes⟩ := isBytes_cons.mp others
          rw [List.compare_eq_compareLex, List.compareLex_cons_cons, ← List.compare_eq_compareLex,
            Ordering.then_eq_lt, Nat.compare_eq_lt, Nat.compare_eq_eq, ← ih restBytes laterBytes]
          rw [hexEncode, hexEncode, List.cons_lt_cons_iff, List.cons_lt_cons_iff,
            hexChar_lt_iff _ (by omega) _ (by omega), hexChar_lt_iff _ (by omega) _ (by omega),
            hexChar_inj (by omega) (by omega), hexChar_inj (by omega) (by omega)]
          constructor
          · rintro (high | ⟨high, low | ⟨low, less⟩⟩)
            · exact .inl (by omega)
            · exact .inl (by omega)
            · exact .inr ⟨by omega, less⟩
          · rintro (less | ⟨rfl, less⟩)
            · by_cases high : byte / 16 < other / 16
              · exact .inl high
              · exact .inr ⟨by omega, .inl (by omega)⟩
            · exact .inr ⟨rfl, .inr ⟨rfl, less⟩⟩

/-- Comparing the texts is comparing the bytes. -/
theorem compare_hexEncode {first second : List ℕ} (bytes : IsBytes first)
    (others : IsBytes second) :
    compare (String.ofList (hexEncode first)) (String.ofList (hexEncode second)) =
      compare first second := by
  have ordered : compare (String.ofList (hexEncode first)) (String.ofList (hexEncode second)) =
      compareOfLessAndEq (String.ofList (hexEncode first)) (String.ofList (hexEncode second)) := rfl
  have less : String.ofList (hexEncode first) < String.ofList (hexEncode second) ↔
      compare first second = .lt := by
    rw [String.lt_iff_toList_lt, String.toList_ofList, String.toList_ofList,
      hexEncode_lt_iff bytes others]
  rw [ordered, compareOfLessAndEq]
  cases result : compare first second with
  | lt => rw [if_pos (less.mpr result)]
  | eq =>
      cases Std.LawfulEqCmp.eq_of_compare result
      rw [if_neg (less.not.mpr (by rw [result]; decide)), if_pos rfl]
  | gt =>
      have greater : compare second first = .lt := by
        rw [@Std.OrientedCmp.eq_swap _ compare _ second first, result]
        rfl
      have above := (hexEncode_lt_iff others bytes).mpr greater
      rw [if_neg (less.not.mpr (by rw [result]; decide)), if_neg]
      intro same
      rw [String.ofList_inj.mp same] at above
      exact lt_irrefl _ above

theorem hexDigit_lt {c : Char} {value : ℕ} (digit : hexDigit c = some value) : value < 16 := by
  unfold hexDigit at digit
  split at digit
  · next decimal =>
      cases digit
      exact (digitValue_lt decimal).trans (by decide)
  · split at digit
    · next letter =>
        cases digit
        have below : c.toNat ≤ 102 := letter.2
        change c.toNat - 97 + 10 < 16
        omega
    · split at digit
      · next letter =>
          cases digit
          have below : c.toNat ≤ 70 := letter.2
          change c.toNat - 65 + 10 < 16
          omega
      · exact absurd digit (by simp)

/-- A text spells bytes. -/
theorem isBytes_of_hexDecode {digits : List Char} {bytes : List ℕ}
    (decoded : hexDecode digits = some bytes) : IsBytes bytes := by
  induction digits using hexDecode.induct generalizing bytes with
  | case1 =>
      cases decoded
      exact isBytes_nil
  | case2 c => exact absurd decoded (by simp [hexDecode])
  | case3 high low rest ih =>
      simp only [hexDecode, Option.bind_eq_bind, Option.bind_eq_some_iff, Option.pure_def,
        Option.some.injEq] at decoded
      obtain ⟨upper, highDigit, under, lowDigit, later, restDecoded, rfl⟩ := decoded
      have upperSmall := hexDigit_lt highDigit
      have underSmall := hexDigit_lt lowDigit
      exact isBytes_cons.mpr ⟨by omega, ih restDecoded⟩

/-- `u8::is_ascii_uppercase`, as a test on characters. -/
def isAsciiUppercase (c : Char) : Bool := 'A' ≤ c && c ≤ 'Z'

/-- A digit that is no upper-case letter is the digit of its value. -/
theorem hexChar_of_hexDigit {c : Char} {value : ℕ} (digit : hexDigit c = some value)
    (lower : isAsciiUppercase c = false) : hexChar value = c := by
  unfold hexDigit at digit
  split at digit
  · next decimal =>
      cases digit
      have below := digitValue_lt decimal
      have above : 48 ≤ c.toNat := by
        simp only [Char.isDigit, Bool.and_eq_true, decide_eq_true_eq] at decimal
        exact decimal.1
      have whole : digitValue c + 48 = c.toNat := Nat.sub_add_cancel above
      rw [hexChar, if_pos below, whole, Char.ofNat_toNat]
  · split at digit
    · next letter =>
        cases digit
        have above : 97 ≤ c.toNat := letter.1
        change hexChar (c.toNat - 97 + 10) = c
        have whole : c.toNat - 97 + 10 + 87 = c.toNat := by omega
        rw [hexChar, if_neg (by omega), whole, Char.ofNat_toNat]
    · split at digit
      · next letter =>
          have upper : c ≤ 'Z' := letter.2.trans (by decide)
          rw [isAsciiUppercase, decide_eq_true letter.1, decide_eq_true upper] at lower
          exact absurd lower (by decide)
      · exact absurd digit (by simp)

/-- A text without upper-case letters is the text of the bytes it spells. -/
theorem hexEncode_of_hexDecode {digits : List Char} {bytes : List ℕ}
    (decoded : hexDecode digits = some bytes) (lower : digits.any isAsciiUppercase = false) :
    hexEncode bytes = digits := by
  induction digits using hexDecode.induct generalizing bytes with
  | case1 =>
      cases decoded
      rfl
  | case2 c => exact absurd decoded (by simp [hexDecode])
  | case3 high low rest ih =>
      simp only [hexDecode, Option.bind_eq_bind, Option.bind_eq_some_iff, Option.pure_def,
        Option.some.injEq] at decoded
      obtain ⟨upper, highDigit, under, lowDigit, later, restDecoded, rfl⟩ := decoded
      simp only [List.any_cons, Bool.or_eq_false_iff] at lower
      obtain ⟨highLower, lowLower, restLower⟩ := lower
      have underSmall := hexDigit_lt lowDigit
      have quotient : (upper * 16 + under) / 16 = upper := by omega
      have remainder : (upper * 16 + under) % 16 = under := by omega
      rw [hexEncode, quotient, remainder, hexChar_of_hexDigit highDigit highLower,
        hexChar_of_hexDigit lowDigit lowLower, ih restDecoded restLower]

end LakehouseEngine.Text
