import Mathlib.Algebra.Order.Round
import Mathlib.Data.Int.Log
import Mathlib.Data.Rat.Floor
import Mathlib.Tactic.FieldSimp
import Mathlib.Tactic.Linarith

/-!
# Numbers of 64 bits

Two's complement integers that wrap, and the rounding of exact results to
floating-point numbers with 53 significant bits, to nearest and ties to even.
Exponents are not bounded, which concerns neither very small nor very large
results here.
-/
namespace PhantomShare.Foundations

/-- The signed integer of 64 bits with the same remainder. -/
def wrap64 (n : ℤ) : ℤ := n.bmod (2 ^ 64)

/-- The signed integers of 64 bits. -/
def Fits64 (n : ℤ) : Prop := -2 ^ 63 ≤ n ∧ n < 2 ^ 63

instance (n : ℤ) : Decidable (Fits64 n) := inferInstanceAs (Decidable (_ ∧ _))

theorem fits64_wrap64 (n : ℤ) : Fits64 (wrap64 n) := by
  have hlower := @Int.le_bmod n (2 ^ 64) (by decide)
  have hupper := @Int.bmod_lt n (2 ^ 64) (by decide)
  unfold Fits64 wrap64
  omega

theorem wrap64_of_fits {n : ℤ} (h : Fits64 n) : wrap64 n = n := by
  unfold Fits64 at h
  apply Int.bmod_eq_of_le <;> omega

theorem fits_of_wrap64_eq {n : ℤ} (h : wrap64 n = n) : Fits64 n := h ▸ fits64_wrap64 n

namespace Binary64

/-- The nearest integer, and the even one of two. -/
def nearest (q : ℚ) : ℤ :=
  if 2 * Int.fract q < 1 then ⌊q⌋
  else if 1 < 2 * Int.fract q then ⌊q⌋ + 1
  else if ⌊q⌋ % 2 = 0 then ⌊q⌋
  else ⌊q⌋ + 1

/-- The distance of neighbouring numbers of the size of `q`. -/
def spacing (q : ℚ) : ℚ := 2 ^ (Int.log 2 |q| - 52)

/-- The result of an operation whose exact result is `q`. -/
def rounded (q : ℚ) : ℚ := nearest (q / spacing q) * spacing q

theorem spacing_pos (q : ℚ) : 0 < spacing q := zpow_pos (by norm_num) _

theorem abs_nearest_sub_le (q : ℚ) : |(nearest q : ℚ) - q| ≤ 1 / 2 := by
  have hfract := Int.floor_add_fract q
  have hpos := Int.fract_nonneg q
  have hlt := Int.fract_lt_one q
  unfold nearest
  rw [abs_le]
  split
  · constructor <;> linarith
  · split
    · push_cast
      constructor <;> linarith
    · split
      · constructor <;> linarith
      · push_cast
        constructor <;> linarith

theorem nearest_intCast (n : ℤ) : nearest n = n := by simp [nearest]

/-- A result below `2 ^ k` is off by at most `2 ^ (k - 54)`. -/
theorem abs_rounded_sub_le {q : ℚ} {k : ℤ} (hq : q ≠ 0) (h : |q| < 2 ^ k) :
    |rounded q - q| ≤ 2 ^ (k - 54) := by
  have hlog : Int.log 2 |q| < k := by
    rw [← Int.lt_zpow_iff_log_lt (by decide) (abs_pos.mpr hq)]
    exact_mod_cast h
  have hspacing : spacing q ≤ 2 ^ (k - 53) := by
    apply zpow_le_zpow_right₀ (by norm_num)
    omega
  have hstep : rounded q - q = ((nearest (q / spacing q) : ℚ) - q / spacing q) * spacing q := by
    have hne := (spacing_pos q).ne'
    rw [rounded, sub_mul, div_mul_cancel₀ _ hne]
  rw [hstep, abs_mul, abs_of_pos (spacing_pos q)]
  calc |(nearest (q / spacing q) : ℚ) - q / spacing q| * spacing q
      ≤ 1 / 2 * 2 ^ (k - 53) :=
        mul_le_mul (abs_nearest_sub_le _) hspacing (spacing_pos q).le (by norm_num)
    _ = 2 ^ (k - 54) := by
        rw [show k - 53 = (k - 54) + 1 by omega, zpow_add_one₀ (by norm_num)]
        ring

/-- Integers of at most 53 bits are exact. -/
theorem rounded_intCast {n : ℤ} (h : |n| < 2 ^ 53) : rounded n = n := by
  by_cases hzero : n = 0
  · subst hzero
    simp [rounded, nearest]
  · have hpos : (0 : ℚ) < |(n : ℚ)| := by
      rw [abs_pos]
      exact_mod_cast hzero
    have hlog : Int.log 2 |(n : ℚ)| < 53 := by
      rw [← Int.lt_zpow_iff_log_lt (by decide) hpos]
      exact_mod_cast h
    have hscaled : (n : ℚ) / spacing n = ((n * 2 ^ (52 - Int.log 2 |(n : ℚ)|).toNat : ℤ) : ℚ) := by
      have hexp : (2 : ℚ) ^ (52 - Int.log 2 |(n : ℚ)|).toNat =
          2 ^ (52 - Int.log 2 |(n : ℚ)|) := by
        rw [← zpow_natCast, Int.toNat_of_nonneg (by omega)]
      push_cast
      rw [hexp, spacing, div_eq_mul_inv, ← zpow_neg]
      congr 2
      omega
    rw [rounded, hscaled, nearest_intCast, ← hscaled]
    exact div_mul_cancel₀ _ (spacing_pos _).ne'

/-- Rounding does not pass a power of two. -/
theorem zpow_le_rounded {q : ℚ} {k : ℤ} (h : 2 ^ k ≤ q) : 2 ^ k ≤ rounded q := by
  have hq : 0 < q := lt_of_lt_of_le (zpow_pos (by norm_num) k) h
  have hlog : k ≤ Int.log 2 |q| := by
    rw [← Int.zpow_le_iff_le_log (by decide) (abs_pos.mpr hq.ne'), abs_of_pos hq]
    exact_mod_cast h
  have hbelow : (2 : ℚ) ^ Int.log 2 |q| ≤ q := by
    have hle := Int.zpow_log_le_self (b := 2) (by decide) (abs_pos.mpr hq.ne')
    rw [abs_of_pos hq] at hle ⊢
    exact_mod_cast hle
  have hscale : (2 : ℚ) ^ Int.log 2 |q| = 2 ^ 52 * spacing q := by
    rw [spacing, ← zpow_natCast, ← zpow_add₀ (by norm_num)]
    simp
  have hfloor : (2 ^ 52 : ℤ) ≤ ⌊q / spacing q⌋ := by
    rw [Int.le_floor, le_div_iff₀ (spacing_pos q)]
    rw [hscale] at hbelow
    exact_mod_cast hbelow
  have hnearest : (2 ^ 52 : ℤ) ≤ nearest (q / spacing q) := by
    unfold nearest
    split
    · exact hfloor
    · split
      · omega
      · split <;> omega
  calc (2 : ℚ) ^ k ≤ 2 ^ Int.log 2 |q| := zpow_le_zpow_right₀ (by norm_num) hlog
    _ = 2 ^ 52 * spacing q := hscale
    _ ≤ nearest (q / spacing q) * spacing q := by
      apply mul_le_mul_of_nonneg_right _ (spacing_pos q).le
      exact_mod_cast hnearest

end Binary64
end PhantomShare.Foundations
