import Mathlib.Algebra.Order.Ring.Abs
import Mathlib.Data.Rat.Cast.Order
import Mathlib.Tactic.FieldSimp
import Mathlib.Tactic.Linarith
import Mathlib.Tactic.Ring

/-!
# Scaled integers of bounded width

A decimal number is held as an integer and a scale.  Digits bound the integer, a
machine word bounds it too, and arithmetic on the integers is arithmetic on what they
are worth as long as no word overflows.
-/

namespace LakehouseEngine.FixedPoint

/-- At most so many decimal digits. -/
def Fits (digits : ℕ) (value : ℤ) : Prop := |value| < 10 ^ digits

/-- The signed integers of a word. -/
def InRange (bits : ℕ) (value : ℤ) : Prop := -2 ^ bits ≤ 2 * value ∧ 2 * value < 2 ^ bits

instance (digits : ℕ) (value : ℤ) : Decidable (Fits digits value) :=
  inferInstanceAs (Decidable (_ < _))

instance (bits : ℕ) (value : ℤ) : Decidable (InRange bits value) :=
  inferInstanceAs (Decidable (_ ∧ _))

/-- What a word keeps of an integer. -/
def wrap (bits : ℕ) (value : ℤ) : ℤ := value.bmod (2 ^ bits)

/-- An integer, if the word holds it. -/
def checked (bits : ℕ) (value : ℤ) : Option ℤ :=
  if InRange bits value then some value else none

/-- The number an integer stands for at a scale. -/
def worth (scale : ℤ) (value : ℤ) : ℚ := value / 10 ^ scale

section Digits

variable {digits more : ℕ} {left right : ℤ}

theorem Fits.mono (fits : Fits digits left) (le : digits ≤ more) : Fits more left :=
  lt_of_lt_of_le fits (pow_le_pow_right₀ (by decide) le)

theorem Fits.mul (first : Fits digits left) (second : Fits more right) :
    Fits (digits + more) (left * right) := by
  unfold Fits
  rw [abs_mul, pow_add]
  exact mul_lt_mul'' first second (abs_nonneg left) (abs_nonneg right)

/-- Appending zeros. -/
theorem Fits.shift (fits : Fits digits left) (zeros : ℕ) :
    Fits (digits + zeros) (left * 10 ^ zeros) := by
  have positive : (0 : ℤ) < 10 ^ zeros := pow_pos (by decide) zeros
  unfold Fits
  rw [abs_mul, pow_add, abs_of_pos positive]
  exact mul_lt_mul_of_pos_right fits positive

theorem Fits.add (first : Fits digits left) (second : Fits digits right) :
    Fits (digits + 1) (left + right) := by
  have total : |left + right| ≤ |left| + |right| := abs_add_le left right
  have positive : (0 : ℤ) < 10 ^ digits := pow_pos (by decide) digits
  unfold Fits at *
  rw [pow_succ]
  linarith

theorem Fits.neg (fits : Fits digits left) : Fits digits (-left) := by
  unfold Fits
  rwa [abs_neg]

theorem Fits.sub (first : Fits digits left) (second : Fits digits right) :
    Fits (digits + 1) (left - right) := by
  rw [sub_eq_add_neg]
  exact first.add second.neg

/-- A word holds every number of few enough digits. -/
theorem Fits.inRange {bits : ℕ} (fits : Fits digits left)
    (room : (2 * 10 ^ digits : ℤ) ≤ 2 ^ bits) : InRange bits left := by
  unfold Fits at fits
  rw [abs_lt] at fits
  constructor
  · linarith
  · linarith

/-- Digits enough for every integer of a word. -/
theorem InRange.fits {bits : ℕ} (held : InRange bits left)
    (room : (2 ^ bits : ℤ) < 2 * 10 ^ digits) : Fits digits left := by
  unfold Fits
  rw [abs_lt]
  constructor
  · linarith [held.1]
  · linarith [held.2]

theorem InRange.mono {bits wider : ℕ} (held : InRange bits left) (le : bits ≤ wider) :
    InRange wider left := by
  have grows : (2 : ℤ) ^ bits ≤ 2 ^ wider := pow_le_pow_right₀ (by decide) le
  exact ⟨by linarith [held.1], by linarith [held.2]⟩

end Digits

theorem wrap_of_inRange {bits : ℕ} {value : ℤ} (held : InRange bits value) :
    wrap bits value = value := by
  apply Int.bmod_eq_of_le_mul_two
  · push_cast
    linarith [held.1]
  · push_cast
    linarith [held.2]

section Worth

variable {scale : ℤ} (left right : ℤ)

theorem worth_zero : worth 0 left = left := by
  simp [worth]

theorem worth_add : worth scale (left + right) = worth scale left + worth scale right := by
  unfold worth
  push_cast
  ring

theorem worth_sub : worth scale (left - right) = worth scale left - worth scale right := by
  unfold worth
  push_cast
  ring

theorem worth_mul (other : ℤ) :
    worth (scale + other) (left * right) = worth scale left * worth other right := by
  unfold worth
  rw [zpow_add₀ (by norm_num)]
  push_cast
  rw [mul_div_mul_comm]

/-- Appending zeros and moving the point as far. -/
theorem worth_shift {target : ℤ} (le : scale ≤ target) :
    worth target (left * 10 ^ (target - scale).toNat) = worth scale left := by
  have zeros : ((target - scale).toNat : ℤ) = target - scale := Int.toNat_of_nonneg (by omega)
  have power : (10 : ℚ) ^ (target - scale).toNat = 10 ^ target / 10 ^ scale := by
    rw [← zpow_natCast, zeros, zpow_sub₀ (by norm_num)]
  have nonzero : (10 : ℚ) ^ target ≠ 0 := zpow_ne_zero _ (by norm_num)
  unfold worth
  push_cast
  rw [power]
  field_simp

theorem worth_injective {left right : ℤ} (same : worth scale left = worth scale right) :
    left = right := by
  have nonzero : (10 : ℚ) ^ scale ≠ 0 := zpow_ne_zero _ (by norm_num)
  unfold worth at same
  rw [div_left_inj' nonzero] at same
  exact_mod_cast same

end Worth

section Representable

variable {digits more : ℕ} {scale finer : ℤ}

/-- The scaled integers of one width and scale are all held at another. -/
def Representable (digits : ℕ) (scale : ℤ) (more : ℕ) (finer : ℤ) : Prop :=
  ∀ value, Fits digits value → ∃ other, Fits more other ∧ worth finer other = worth scale value

theorem Fits.rescale {value : ℤ} (fits : Fits digits value) (le : scale ≤ finer)
    (room : finer - scale ≤ (more : ℤ) - digits) :
    Fits more (value * 10 ^ (finer - scale).toNat) :=
  (fits.shift _).mono (by omega)

/-- No fraction digit is lost: the unit of the coarser scale has a multiple. -/
theorem Representable.scale_le (held : Representable digits scale more finer) (some : 1 ≤ digits) :
    scale ≤ finer := by
  have one : Fits digits 1 := by
    unfold Fits
    exact one_lt_pow₀ (by decide) (by omega)
  obtain ⟨other, -, same⟩ := held 1 one
  by_contra coarser
  rw [← worth_shift other (by omega : finer ≤ scale)] at same
  have unit := worth_injective same
  obtain ⟨zeros, positive⟩ : ∃ zeros, (scale - finer).toNat = zeros + 1 :=
    ⟨(scale - finer).toNat - 1, by omega⟩
  rw [positive, pow_succ, ← mul_assoc] at unit
  omega

theorem representable_iff (some : 1 ≤ digits) : Representable digits scale more finer ↔
    scale ≤ finer ∧ finer - scale ≤ (more : ℤ) - digits := by
  constructor
  · intro held
    have le := held.scale_le some
    refine ⟨le, ?_⟩
    -- The largest integer of the source has the most digits.
    have power : (10 : ℤ) ^ digits = 10 ^ (digits - 1) * 10 := by
      rw [← pow_succ, Nat.sub_add_cancel some]
    have leading : (0 : ℤ) < 10 ^ (digits - 1) := pow_pos (by decide) _
    have largest : Fits digits (10 ^ digits - 1) := by
      unfold Fits
      rw [abs_of_nonneg (by linarith)]
      linarith
    obtain ⟨other, fits, same⟩ := held _ largest
    rw [← worth_shift _ le] at same
    obtain rfl := worth_injective same
    by_contra short
    have digitsShort : more ≤ digits - 1 + (finer - scale).toNat := by omega
    have bound : (10 : ℤ) ^ more ≤ 10 ^ (digits - 1) * 10 ^ (finer - scale).toNat := by
      rw [← pow_add]
      exact pow_le_pow_right₀ (by decide) digitsShort
    have zeros : (0 : ℤ) < 10 ^ (finer - scale).toNat := pow_pos (by decide) _
    have large : (10 : ℤ) ^ (digits - 1) * 10 ^ (finer - scale).toNat ≤
        (10 ^ digits - 1) * 10 ^ (finer - scale).toNat :=
      mul_le_mul_of_nonneg_right (by linarith) zeros.le
    have small := lt_of_le_of_lt (le_abs_self _) fits
    linarith
  · rintro ⟨le, room⟩ value fits
    exact ⟨_, fits.rescale le room, worth_shift value le⟩

end Representable

end LakehouseEngine.FixedPoint
