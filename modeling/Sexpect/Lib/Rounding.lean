import Mathlib.Data.Int.Log
import Mathlib.Data.Rat.Floor
import Mathlib.Tactic.FieldSimp
import Mathlib.Tactic.Linarith
import Mathlib.Tactic.Positivity
import Mathlib.Tactic.Ring

/-!
# Arithmetic in a binary floating-point format

`fl p q` is the number with `p` significant binary digits nearest to `q`, the even one of two; the
exponent has no bounds.  `Within e x y` is a relative error, and the lemmas follow it through an
operation whose result is rounded.
-/
namespace Sexpect.Lib

/-- The nearest integer, of two equally near ones the even one. -/
def roundEven (q : ℚ) : ℤ :=
  if q - ⌊q⌋ < 1 / 2 then ⌊q⌋
  else if 1 / 2 < q - ⌊q⌋ then ⌊q⌋ + 1
  else if ⌊q⌋ % 2 = 0 then ⌊q⌋
  else ⌊q⌋ + 1

theorem abs_roundEven_sub_le (q : ℚ) : |(roundEven q : ℚ) - q| ≤ 1 / 2 := by
  have hle : (⌊q⌋ : ℚ) ≤ q := Int.floor_le q
  have hlt : q < ⌊q⌋ + 1 := Int.lt_floor_add_one q
  rw [abs_le]
  unfold roundEven
  split
  · constructor <;> linarith
  · split
    · push_cast
      constructor <;> linarith
    · split
      · constructor <;> linarith
      · push_cast
        constructor <;> linarith

/-- The value of the last of `p` digits of `q`. -/
def lastDigit (p : ℕ) (q : ℚ) : ℚ := 2 ^ (Int.log 2 |q| + 1 - p)

def fl (p : ℕ) (q : ℚ) : ℚ := roundEven (q / lastDigit p q) * lastDigit p q

/-- Half of the last digit is at most the `2 ^ p`-th part of the number. -/
theorem lastDigit_le {p : ℕ} {q : ℚ} (hq : q ≠ 0) : lastDigit p q / 2 ≤ |q| / 2 ^ p := by
  have hlog : (2 : ℚ) ^ Int.log 2 |q| ≤ |q| := by
    exact_mod_cast Int.zpow_log_le_self (R := ℚ) one_lt_two (abs_pos.mpr hq)
  have hsplit : lastDigit p q / 2 = 2 ^ Int.log 2 |q| / 2 ^ p := by
    rw [lastDigit, zpow_sub₀ two_ne_zero, zpow_add_one₀ two_ne_zero, zpow_natCast]
    ring
  rw [hsplit]
  gcongr

theorem abs_fl_sub_le (p : ℕ) (q : ℚ) : |fl p q - q| ≤ |q| / 2 ^ p := by
  by_cases hq : q = 0
  · simp [hq, fl, roundEven]
  · have hpos : 0 < lastDigit p q := zpow_pos two_pos _
    have hsplit : fl p q - q = (roundEven (q / lastDigit p q) - q / lastDigit p q) * lastDigit p q := by
      rw [fl, sub_mul, div_mul_cancel₀ _ hpos.ne']
    calc |fl p q - q| = |roundEven (q / lastDigit p q) - q / lastDigit p q| * lastDigit p q := by
          rw [hsplit, abs_mul, abs_of_pos hpos]
      _ ≤ 1 / 2 * lastDigit p q := by gcongr; exact abs_roundEven_sub_le _
      _ = lastDigit p q / 2 := by ring
      _ ≤ |q| / 2 ^ p := lastDigit_le hq

/-- `x` is `y` up to a relative error. -/
def Within (e x y : ℚ) : Prop := |x - y| ≤ e * y

section

variable {e e' x x' y y' : ℚ} {p : ℕ}

theorem Within.mono (h : Within e x y) (hy : 0 ≤ y) (he : e ≤ e') : Within e' x y :=
  h.trans (mul_le_mul_of_nonneg_right he hy)

theorem Within.add (h : Within e x y) (h' : Within e x' y') : Within e (x + x') (y + y') := by
  calc |x + x' - (y + y')| = |(x - y) + (x' - y')| := by ring_nf
    _ ≤ |x - y| + |x' - y'| := abs_add_le _ _
    _ ≤ e * y + e * y' := add_le_add h h'
    _ = e * (y + y') := by ring

theorem Within.div {c : ℚ} (h : Within e x y) (hc : 0 < c) : Within e (x / c) (y / c) := by
  calc |x / c - y / c| = |x - y| / c := by rw [← sub_div, abs_div, abs_of_pos hc]
    _ ≤ e * y / c := by gcongr; exact h
    _ = e * (y / c) := by ring

/-- A rounded result of the right magnitude carries one more error of the format. -/
theorem Within.fl (h : Within e x y) (hy : 0 ≤ y) (he : e ≤ 1) :
    Within (e + 2 / 2 ^ p) (Lib.fl p x) y := by
  have hsize : |x| ≤ 2 * y := by
    have hx : |x| ≤ |x - y| + |y| := by
      calc |x| = |(x - y) + y| := by ring_nf
        _ ≤ |x - y| + |y| := abs_add_le _ _
    have hey : e * y ≤ 1 * y := mul_le_mul_of_nonneg_right he hy
    have hxy : |x - y| ≤ e * y := h
    rw [abs_of_nonneg hy] at hx
    linarith
  calc |Lib.fl p x - y| = |(Lib.fl p x - x) + (x - y)| := by ring_nf
    _ ≤ |Lib.fl p x - x| + |x - y| := abs_add_le _ _
    _ ≤ |x| / 2 ^ p + e * y := add_le_add (abs_fl_sub_le p x) h
    _ ≤ 2 * y / 2 ^ p + e * y := by gcongr
    _ = (e + 2 / 2 ^ p) * y := by ring

theorem within_fl (hy : 0 ≤ y) : Within (1 / 2 ^ p) (fl p y) y := by
  have h := abs_fl_sub_le p y
  rw [abs_of_nonneg hy] at h
  calc |fl p y - y| ≤ y / 2 ^ p := h
    _ = 1 / 2 ^ p * y := by ring

end

end Sexpect.Lib
