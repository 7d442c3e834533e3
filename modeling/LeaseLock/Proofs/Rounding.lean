/-
# LeaseLock.Proofs.Rounding -- how far rounding goes

Rounding to 53 significant bits moves a number by at most one part in `2 ^ 53`: the exponent is chosen
such that 53 bits stand before the point, so half a unit there is no more than that part
(`Binary.exponent_spec`), and the nearest whole number is within half a unit (`Binary.nearest_spec`).
-/
import LeaseLock.Sqlite.Binary
import Mathlib.Algebra.Order.Field.Power
import Mathlib.Algebra.Order.Field.Rat
import Mathlib.Tactic.FieldSimp
import Mathlib.Tactic.Linarith
import Mathlib.Tactic.NormNum
import Mathlib.Tactic.Positivity
import Mathlib.Tactic.Ring

namespace LeaseLock.Binary

/-- The nearest whole number is within half a unit. -/
theorem nearest_spec (n : Nat) {d : Nat} (hd : 0 < d) :
    2 * (nearest n d * d) ≤ 2 * n + d ∧ 2 * n ≤ 2 * (nearest n d * d) + d := by
  have hn : n = n / d * d + n % d := (Nat.div_add_mod' n d).symm
  have hr : n % d < d := Nat.mod_lt n hd
  unfold nearest
  dsimp only
  split
  · omega
  · split
    · rw [Nat.add_mul]
      omega
    · split
      · omega
      · rw [Nat.add_mul]
        omega

/-- An exponent at which a quotient has its bits before the point. -/
def Fills (n d : Nat) (e : Int) : Prop := (2 : Rat) ^ (52 : Nat) * d * (2 : Rat) ^ e ≤ n

/-- The guess, or one less. -/
theorem settle_spec {n d : Nat} {guess : Int} (h : Fills n d (guess - 1)) :
    Fills n d (settle n d guess) := by
  have half : 1 <<< (precision - 1) = 2 ^ 52 := rfl
  unfold settle
  dsimp only
  cases guess with
  | ofNat e =>
      dsimp only
      split
      · rename_i hle
        rw [half, Nat.shiftLeft_eq] at hle
        show (2 : Rat) ^ (52 : Nat) * d * (2 : Rat) ^ (Int.ofNat e) ≤ n
        rw [Int.ofNat_eq_natCast, zpow_natCast]
        calc (2 : Rat) ^ 52 * d * 2 ^ e = ((2 ^ 52 * (d * 2 ^ e) : Nat) : Rat) := by push_cast; ring
          _ ≤ n := by exact_mod_cast hle
      · exact h
  | negSucc e =>
      dsimp only
      split
      · rename_i hle
        rw [half, Nat.shiftLeft_eq] at hle
        show (2 : Rat) ^ (52 : Nat) * d * (2 : Rat) ^ (Int.negSucc e) ≤ n
        have hle' : ((2 ^ 52 * d : Nat) : Rat) ≤ ((n * 2 ^ (e + 1) : Nat) : Rat) := by exact_mod_cast hle
        push_cast at hle'
        rw [zpow_negSucc, mul_inv_le_iff₀ (by positivity)]
        exact hle'
      · exact h

/-- **The exponent fills the bits**: 53 of them stand before the point. -/
theorem exponent_spec {n d : Nat} (hn : n ≠ 0) : Fills n d (exponent n d) := by
  apply settle_spec
  have hlow : (2 : Rat) ^ n.log2 ≤ n := by exact_mod_cast Nat.log2_self_le hn
  have hhigh : (d : Rat) ≤ 2 ^ (d.log2 + 1) := by exact_mod_cast Nat.lt_log2_self.le
  have two : (2 : Rat) ≠ 0 := by norm_num
  show (2 : Rat) ^ (52 : Nat) * d * (2 : Rat) ^ ((n.log2 : Int) - d.log2 - 52 - 1) ≤ n
  calc (2 : Rat) ^ (52 : Nat) * d * (2 : Rat) ^ ((n.log2 : Int) - d.log2 - 52 - 1)
      ≤ (2 : Rat) ^ (52 : Nat) * 2 ^ (d.log2 + 1) * (2 : Rat) ^ ((n.log2 : Int) - d.log2 - 52 - 1) := by
        gcongr
    _ = (2 : Rat) ^ n.log2 := by
        rw [← zpow_natCast, ← zpow_natCast, ← zpow_natCast, ← zpow_add₀ two, ← zpow_add₀ two]
        congr 1
        push_cast
        ring
    _ ≤ n := hlow

/-- The nearest whole number, as a quotient. -/
theorem abs_nearest (n : Nat) {d : Nat} (hd : 0 < d) : |(nearest n d : Rat) * d - n| ≤ d / 2 := by
  obtain ⟨hhigh, hlow⟩ := nearest_spec n hd
  have hhigh' : (2 : Rat) * (nearest n d * d) ≤ 2 * n + d := by exact_mod_cast hhigh
  have hlow' : (2 : Rat) * n ≤ 2 * (nearest n d * d) + d := by exact_mod_cast hlow
  rw [abs_le]
  constructor <;> linarith

/-- A rounded quotient is off by at most one part in `2 ^ 53`. -/
theorem roundQuotient_spec {n d : Nat} (hn : n ≠ 0) (hd : 0 < d) :
    |roundQuotient n d - n / d| ≤ (n / d : Rat) / 2 ^ 53 := by
  have fills := exponent_spec (d := d) hn
  have hd' : (0 : Rat) < d := by exact_mod_cast hd
  -- it is enough to look at the numerators over `d`
  suffices h : |roundQuotient n d * d - n| ≤ (n : Rat) / 2 ^ 53 by
    have scaled : roundQuotient n d - n / d = (roundQuotient n d * d - n) / d := by field_simp
    rw [scaled, abs_div, abs_of_pos hd', div_right_comm]
    exact div_le_div_of_nonneg_right h hd'.le
  unfold roundQuotient
  unfold Fills at fills
  cases hexp : exponent n d with
  | ofNat e =>
      rw [hexp, Int.ofNat_eq_natCast, zpow_natCast] at fills
      have half := abs_nearest n (d := d <<< e) (by rw [Nat.shiftLeft_eq]; positivity)
      dsimp only
      rw [Nat.shiftLeft_eq] at half ⊢
      rw [Nat.shiftLeft_eq, Rat.mkRat_eq_div]
      push_cast at half ⊢
      have same : (nearest n (d * 2 ^ e) : Rat) * 2 ^ e / 1 * d - n =
          nearest n (d * 2 ^ e) * (d * 2 ^ e) - n := by ring
      rw [same]
      refine half.trans ?_
      linarith
  | negSucc e =>
      rw [hexp, zpow_negSucc, mul_inv_le_iff₀ (by positivity)] at fills
      have half := abs_nearest (n <<< (e + 1)) hd
      dsimp only
      rw [Nat.shiftLeft_eq] at half ⊢
      rw [Nat.shiftLeft_eq, Rat.mkRat_eq_div]
      push_cast at half ⊢
      have hpow : (0 : Rat) < 2 ^ (e + 1) := by positivity
      have same : (nearest (n * 2 ^ (e + 1)) d : Rat) / (1 * 2 ^ (e + 1)) * d - n =
          (nearest (n * 2 ^ (e + 1)) d * d - n * 2 ^ (e + 1)) / 2 ^ (e + 1) := by field_simp
      rw [same, abs_div, abs_of_pos hpow, div_le_iff₀ hpow]
      refine half.trans ?_
      linarith

/-- **Rounding moves a number by at most one part in `2 ^ 53`.** -/
theorem round_spec (q : Rat) : |round q - q| ≤ |q| / 2 ^ 53 := by
  have hden : 0 < q.den := q.den_pos
  unfold round
  split
  · rename_i hnum
    obtain rfl := Rat.num_eq_zero.mp hnum
    simp
  · rename_i n hzero hnum
    have value : q = (n : Rat) / q.den := by
      conv_lhs => rw [← Rat.num_div_den q, hnum, Int.ofNat_eq_natCast, Int.cast_natCast]
    have spec := roundQuotient_spec (n := n) hzero hden
    rw [← value] at spec
    exact spec.trans (div_le_div_of_nonneg_right (le_abs_self q) (by positivity))
  · rename_i n hnum
    have value : -q = ((n + 1 : Nat) : Rat) / q.den := by
      conv_lhs => rw [← Rat.num_div_den q, hnum, Int.cast_negSucc]
      ring
    have spec := roundQuotient_spec (n := n + 1) (d := q.den) (by omega) hden
    rw [← value] at spec
    have turned : -roundQuotient (n + 1) q.den - q = -(roundQuotient (n + 1) q.den - -q) := by ring
    rw [turned, abs_neg]
    exact spec.trans (div_le_div_of_nonneg_right (neg_le_abs q) (by positivity))

end LeaseLock.Binary
