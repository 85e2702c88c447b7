import Mathlib.Algebra.Order.Floor.Ring
import Mathlib.Algebra.Order.Round
import Mathlib.Data.Int.Log
import Mathlib.Data.Rat.Floor
import Mathlib.Tactic.Linarith

/-! Rounding to the doubles of IEEE 754, as rationals. Infinities and the sign of zero are left
out. -/
namespace Redbox.Double

/-- To the nearest integer, and to the even one of two. -/
def roundEven (q : ℚ) : ℤ :=
  if q - ⌊q⌋ < 1 / 2 ∨ q - ⌊q⌋ = 1 / 2 ∧ ⌊q⌋ % 2 = 0 then ⌊q⌋ else ⌊q⌋ + 1

/-- The exponent of the last place of a positive number, in 53 bits. -/
def lastPlace (x : ℚ) : ℤ := max (Int.log 2 x) (-1022) - 52

def magnitude (x : ℚ) : ℚ := roundEven (x / 2 ^ lastPlace x) * 2 ^ lastPlace x

/-- The double nearest to a number. -/
def nearest (x : ℚ) : ℚ := if 0 ≤ x then magnitude x else -magnitude (-x)

/-- `Math.round` -/
def round (x : ℚ) : ℤ := ⌊x + 1 / 2⌋

theorem roundEven_mono {p q : ℚ} (h : p ≤ q) : roundEven p ≤ roundEven q := by
  have hf : ⌊p⌋ ≤ ⌊q⌋ := Int.floor_le_floor h
  rcases hf.lt_or_eq with hlt | heq
  · have hp : roundEven p ≤ ⌊p⌋ + 1 := by
      unfold roundEven
      split <;> omega
    have hq : ⌊q⌋ ≤ roundEven q := by
      unfold roundEven
      split <;> omega
    omega
  · unfold roundEven
    rw [heq]
    split
    · split <;> omega
    · next hp =>
      rw [if_neg]
      rintro (hq | ⟨hq, heven⟩)
      · exact hp (.inl (by linarith))
      · rcases h.lt_or_eq with hlt | rfl
        · exact hp (.inl (by linarith))
        · exact hp (.inr ⟨hq, heven⟩)

theorem roundEven_intCast (n : ℤ) : roundEven n = n := by
  simp [roundEven]

theorem lastPlace_mono {x y : ℚ} (hx : 0 < x) (h : x ≤ y) : lastPlace x ≤ lastPlace y :=
  sub_le_sub_right (max_le_max_right _ (Int.log_mono_right hx h)) 52

/-- A number is rounded to no more than the next power of two. -/
theorem magnitude_le {x : ℚ} : magnitude x ≤ 2 ^ (lastPlace x + 53) := by
  have hpos : (0 : ℚ) < 2 ^ lastPlace x := zpow_pos two_pos _
  have hlog : Int.log 2 x + 1 ≤ lastPlace x + 53 := by
    unfold lastPlace
    omega
  have hx : x ≤ 2 ^ (lastPlace x + 53) := calc
    x ≤ 2 ^ (Int.log 2 x + 1) := (Int.lt_zpow_succ_log_self one_lt_two x).le
    _ ≤ 2 ^ (lastPlace x + 53) := zpow_le_zpow_right₀ one_le_two hlog
  have hq : x / 2 ^ lastPlace x ≤ ((2 ^ 53 : ℤ) : ℚ) := by
    rw [div_le_iff₀ hpos]
    rw [zpow_add₀ two_ne_zero] at hx
    push_cast
    linarith [hx]
  have hr := roundEven_mono hq
  rw [roundEven_intCast] at hr
  have hr' : (roundEven (x / 2 ^ lastPlace x) : ℚ) ≤ 2 ^ 53 := by exact_mod_cast hr
  rw [magnitude, zpow_add₀ two_ne_zero, mul_comm]
  exact mul_le_mul_of_nonneg_left hr' hpos.le

theorem le_magnitude {y : ℚ} {e : ℤ} (he : lastPlace y ≤ e) (h : 2 ^ e ≤ y) :
    2 ^ e ≤ magnitude y := by
  have hpos : (0 : ℚ) < 2 ^ lastPlace y := zpow_pos two_pos _
  obtain ⟨n, hn⟩ := Int.eq_ofNat_of_zero_le (sub_nonneg.mpr he)
  have hsplit : (2 : ℚ) ^ e = ((2 ^ n : ℤ) : ℚ) * 2 ^ lastPlace y := by
    rw [show e = n + lastPlace y by omega, zpow_add₀ two_ne_zero]
    push_cast
    rw [zpow_natCast]
  have hq : ((2 ^ n : ℤ) : ℚ) ≤ y / 2 ^ lastPlace y := by
    rwa [le_div_iff₀ hpos, ← hsplit]
  have hr := roundEven_mono hq
  rw [roundEven_intCast] at hr
  rw [magnitude, hsplit]
  exact mul_le_mul_of_nonneg_right (by exact_mod_cast hr) hpos.le

theorem magnitude_nonneg {x : ℚ} (hx : 0 ≤ x) : 0 ≤ magnitude x := by
  have hq : ((0 : ℤ) : ℚ) ≤ x / 2 ^ lastPlace x := by
    exact_mod_cast div_nonneg hx (zpow_pos two_pos _).le
  have hr := roundEven_mono hq
  rw [roundEven_intCast] at hr
  exact mul_nonneg (by exact_mod_cast hr) (zpow_pos two_pos _).le

theorem magnitude_mono {x y : ℚ} (hx : 0 ≤ x) (h : x ≤ y) : magnitude x ≤ magnitude y := by
  rcases hx.eq_or_lt with rfl | hx
  · have h0 : magnitude 0 = 0 := by simp [magnitude, roundEven]
    rw [h0]
    exact magnitude_nonneg h
  · rcases (lastPlace_mono hx h).lt_or_eq with hlt | heq
    · -- `y` has a later binade, whose first number lies between the two
      have hlog : lastPlace y + 52 = Int.log 2 y := by
        unfold lastPlace at hlt ⊢
        omega
      have hy : (2 : ℚ) ^ (lastPlace y + 52) ≤ y := by
        rw [hlog]
        exact Int.zpow_log_le_self one_lt_two (hx.trans_le h)
      calc magnitude x ≤ 2 ^ (lastPlace x + 53) := magnitude_le
        _ ≤ 2 ^ (lastPlace y + 52) := zpow_le_zpow_right₀ one_le_two (by omega)
        _ ≤ magnitude y := le_magnitude (by omega) hy
    · have hpos : (0 : ℚ) < 2 ^ lastPlace y := zpow_pos two_pos _
      have hq := roundEven_mono (div_le_div_of_nonneg_right h hpos.le)
      rw [magnitude, magnitude, heq]
      exact mul_le_mul_of_nonneg_right (by exact_mod_cast hq) hpos.le

theorem nearest_mono {x y : ℚ} (h : x ≤ y) : nearest x ≤ nearest y := by
  unfold nearest
  split
  · next hx =>
    rw [if_pos (hx.trans h)]
    exact magnitude_mono hx h
  · next hx =>
    have hx' := magnitude_nonneg (neg_nonneg.mpr (not_le.mp hx).le)
    split
    · next hy => exact (neg_nonpos.mpr hx').trans (magnitude_nonneg hy)
    · next hy => exact neg_le_neg (magnitude_mono (neg_nonneg.mpr (not_le.mp hy).le) (neg_le_neg h))

theorem nearest_nonneg {x : ℚ} (hx : 0 ≤ x) : 0 ≤ nearest x := by
  rw [nearest, if_pos hx]
  exact magnitude_nonneg hx

theorem round_mono {x y : ℚ} (h : x ≤ y) : round x ≤ round y :=
  Int.floor_le_floor (by linarith)

end Redbox.Double
