import Mathlib.Algebra.Order.Round
import Mathlib.Data.Int.Log
import Mathlib.Data.Rat.Floor
import Mathlib.Tactic.Linarith
import Mathlib.Tactic.NormNum

/-! Doubles as rationals: the spacing of the doubles around a number, the double nearest to it, the
even one of two, and the numbers that are too large for a double. -/

namespace AssetStore.Lib

/-- The nearest integer, the even one of two. -/
def roundEven (x : Rat) : Int :=
  if 2 * Int.fract x < 1 ∨ 2 * Int.fract x = 1 ∧ ⌊x⌋ % 2 = 0 then ⌊x⌋ else ⌊x⌋ + 1

/-- The distance of the doubles around a number. Below `2 ^ (-1022)` it does not shrink further. -/
def doubleSpacing (x : Rat) : Rat := 2 ^ (max (Int.log 2 |x|) (-1022) - 52)

/-- Whether the nearest double is finite: the number is below the middle of the largest double and
`2 ^ 1024`. -/
def isFinite (x : Rat) : Bool := |x| < 2 ^ 1024 - 2 ^ 970

/-- The nearest double. In the place of an infinity stand `2 ^ 1024` and `-2 ^ 1024`. -/
def nearestDouble (x : Rat) : Rat :=
  if isFinite x then roundEven (x / doubleSpacing x) * doubleSpacing x
  else if 0 < x then 2 ^ 1024 else -2 ^ 1024

theorem isFinite_mono {x y : Rat} (h : |x| ≤ |y|) (hy : isFinite y = true) : isFinite x = true := by
  simp only [isFinite, decide_eq_true_eq] at hy ⊢
  exact h.trans_lt hy

theorem abs_roundEven_sub (x : Rat) : |(roundEven x : Rat) - x| ≤ 1 / 2 := by
  have hsplit := Int.floor_add_fract x
  have hnonneg := Int.fract_nonneg x
  have hlt := Int.fract_lt_one x
  unfold roundEven
  split
  · rename_i hlow
    have hhalf : 2 * Int.fract x ≤ 1 := by
      rcases hlow with h | ⟨h, -⟩ <;> linarith
    rw [abs_le]
    constructor <;> linarith
  · rename_i hhigh
    have hhalf : 1 ≤ 2 * Int.fract x := not_lt.mp fun h => hhigh (.inl h)
    push_cast
    rw [abs_le]
    constructor <;> linarith

theorem doubleSpacing_pos (x : Rat) : 0 < doubleSpacing x := zpow_pos two_pos _

theorem nearestDouble_zero : nearestDouble 0 = 0 := by decide +kernel

/-- Below `2 ^ k` the nearest double is at most half of the spacing there away. -/
theorem abs_nearestDouble_sub {x : Rat} {k : Int} (finite : isFinite x = true) (hk : 0 < k)
    (h : |x| < 2 ^ k) : |nearestDouble x - x| ≤ 2 ^ (k - 54) := by
  have hlog : Int.log 2 |x| < k := by
    rcases eq_or_lt_of_le (abs_nonneg x) with hzero | hpos
    · rwa [← hzero, Int.log_zero_right]
    · exact (Int.lt_zpow_iff_log_lt one_lt_two hpos).mp (by exact_mod_cast h)
  have hspacing : doubleSpacing x ≤ 2 ^ (k - 53) :=
    zpow_le_zpow_right₀ one_le_two (by omega)
  have hpos := doubleSpacing_pos x
  have hscale : (roundEven (x / doubleSpacing x) : Rat) * doubleSpacing x - x =
      (roundEven (x / doubleSpacing x) - x / doubleSpacing x) * doubleSpacing x := by
    rw [sub_mul, div_mul_cancel₀ _ hpos.ne']
  rw [nearestDouble, if_pos finite, hscale, abs_mul, abs_of_pos hpos]
  calc |(roundEven (x / doubleSpacing x) : Rat) - x / doubleSpacing x| * doubleSpacing x
      ≤ 1 / 2 * doubleSpacing x := by gcongr; exact abs_roundEven_sub _
    _ ≤ 1 / 2 * 2 ^ (k - 53) := by gcongr
    _ = 2 ^ (k - 54) := by
      rw [show k - 53 = (k - 54) + 1 by ring, zpow_add_one₀ two_ne_zero]
      ring

theorem nearestDouble_neg {x : Rat} (h : x ≤ -1) : nearestDouble x < 0 := by
  have habs : |x| = -x := abs_of_neg (by linarith)
  have hone : 1 ≤ |x| := by linarith
  by_cases finite : isFinite x = true
  · have hlow : (2 : Rat) ^ Int.log 2 |x| ≤ |x| := by
      exact_mod_cast Int.zpow_log_le_self one_lt_two (zero_lt_one.trans_le hone)
    have hhigh : |x| < (2 : Rat) ^ (Int.log 2 |x| + 1) := by
      exact_mod_cast Int.lt_zpow_succ_log_self one_lt_two |x|
    have hlog : 0 ≤ Int.log 2 |x| := by
      rw [Int.log_of_one_le_right 2 hone]
      exact Int.natCast_nonneg _
    have herror := (abs_le.mp (abs_nearestDouble_sub finite (by omega) hhigh)).2
    have hsmall : (2 : Rat) ^ (Int.log 2 |x| + 1 - 54) < 2 ^ Int.log 2 |x| :=
      zpow_lt_zpow_right₀ one_lt_two (by omega)
    linarith
  · rw [nearestDouble, if_neg finite, if_neg (by linarith)]
    norm_num

/-- A number whose nearest double reaches `n` reaches it too, when between the number and `n` there
is more than half of the spacing below `2 ^ k`. -/
theorem le_of_le_nearestDouble {x n : Rat} {k : Int} (hk : 0 < k) (hk' : k ≤ 1023) (nonneg : 0 ≤ n)
    (hn : n ≤ 2 ^ k) (gap : x < n → x + 2 ^ (k - 54) < n) (h : n ≤ nearestDouble x) : n ≤ x := by
  by_contra hlt
  have hx : x < n := not_le.mp hlt
  rcases lt_or_ge |x| (2 ^ k) with hsmall | hlarge
  · have finite : isFinite x = true := by
      have hbound : (2 : Rat) ^ k ≤ 2 ^ 1023 := by
        exact_mod_cast zpow_le_zpow_right₀ (show (1 : Rat) ≤ 2 from one_le_two) hk'
      have hlower : (2 : Rat) ^ 970 ≤ 2 ^ 1023 := pow_le_pow_right₀ one_le_two (by decide)
      refine decide_eq_true (hsmall.trans_le (le_sub_iff_add_le.mpr ?_))
      rw [show (2 : Rat) ^ 1024 = 2 ^ 1023 + 2 ^ 1023 from (pow_succ 2 1023).trans (mul_two _)]
      exact add_le_add hbound hlower
    have herror := (abs_le.mp (abs_nearestDouble_sub finite hk hsmall)).2
    have hgap := gap hx
    linarith
  · have hone : (1 : Rat) ≤ 2 ^ k := one_le_zpow₀ one_le_two hk.le
    have hneg : x ≤ -1 := by
      rcases le_abs.mp hlarge with hpos | hneg <;> linarith
    exact absurd (nearestDouble_neg hneg) (not_lt.mpr (nonneg.trans h))

end AssetStore.Lib
