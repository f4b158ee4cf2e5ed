import Mathlib.Data.Nat.Basic
import Mathlib.Data.BitVec
import Mathlib.Tactic.Ring

/-!
# Blocks of a power of two

A mask with the complement of `unit - 1` rounds a machine word down to a multiple of `unit` when
`unit` is a power of two. The blocks of `unit` bytes that meet a range of bytes are one range again,
and the two roundings compute it.
-/

namespace Blocks

/-! ## Rounding up -/

/-- The first multiple of `unit` from `n` on. -/
def up (unit n : ℕ) : ℕ := (n + unit - 1) / unit * unit

theorem dvd_up (unit n : ℕ) : unit ∣ up unit n := Nat.dvd_mul_left unit _

theorem le_up {unit : ℕ} (hunit : 0 < unit) (n : ℕ) : n ≤ up unit n := by
  have hdiv := Nat.div_add_mod' (n + unit - 1) unit
  have hmod := Nat.mod_lt (n + unit - 1) hunit
  unfold up
  omega

theorem up_lt {unit : ℕ} (hunit : 0 < unit) (n : ℕ) : up unit n < n + unit := by
  have hle := Nat.div_mul_le_self (n + unit - 1) unit
  unfold up
  omega

theorem up_le {unit n m : ℕ} (hle : n ≤ m) (hdvd : unit ∣ m) : up unit n ≤ m := by
  obtain ⟨q, rfl⟩ := hdvd
  rcases Nat.eq_zero_or_pos unit with rfl | hunit
  · simp [up]
  · rw [up, Nat.mul_comm unit q]
    apply Nat.mul_le_mul_right
    rw [← Nat.lt_succ_iff, Nat.div_lt_iff_lt_mul hunit, Nat.succ_mul, Nat.mul_comm q]
    omega

/-! ## Masks -/

section Masks

variable {w k : ℕ} {unit : BitVec w}

theorem two_pow_lt (h : unit.toNat = 2 ^ k) : k < w := by
  have hlt := unit.isLt
  rw [h] at hlt
  exact (Nat.pow_lt_pow_iff_right (by decide)).mp hlt

theorem toNat_sub_one (h : unit.toNat = 2 ^ k) : (unit - 1).toNat = 2 ^ k - 1 := by
  have hpos : 0 < 2 ^ k := Nat.two_pow_pos k
  have hlt := unit.isLt
  have hone : (1 : BitVec w).toNat = 1 :=
    Nat.mod_eq_of_lt (Nat.one_lt_two_pow (Nat.ne_of_gt (Nat.zero_lt_of_lt (two_pow_lt h))))
  have hle : (1 : BitVec w) ≤ unit := by
    rw [BitVec.le_def, hone, h]
    exact hpos
  rw [BitVec.toNat_sub_of_le hle, hone, h]

theorem getLsbD_sub_one (h : unit.toNat = 2 ^ k) (i : ℕ) :
    (unit - 1).getLsbD i = decide (i < k) := by
  rw [BitVec.getLsbD, toNat_sub_one h, Nat.testBit_two_pow_sub_one]

/-- The mask keeps the bits from `k` on. -/
theorem toNat_and_not_sub_one (h : unit.toNat = 2 ^ k) (x : BitVec w) :
    (x &&& ~~~(unit - 1)).toNat = x.toNat / 2 ^ k * 2 ^ k := by
  apply Nat.eq_of_testBit_eq
  intro i
  rw [Nat.testBit_mul_two_pow, Nat.testBit_div_two_pow, BitVec.testBit_toNat, BitVec.getLsbD_and,
    BitVec.getLsbD_not, getLsbD_sub_one h]
  by_cases hi : k ≤ i
  · have hsum : i - k + k = i := Nat.sub_add_cancel hi
    by_cases hw : i < w
    · simp [hi, hw, hsum, BitVec.testBit_toNat]
    · simp [hi, hw, hsum, BitVec.testBit_toNat, BitVec.getLsbD_of_ge x i (Nat.le_of_not_lt hw)]
  · simp [hi, Nat.lt_of_not_le hi]

/-- The low bits are what the mask takes away. -/
theorem toNat_sub_and_not (h : unit.toNat = 2 ^ k) (x : BitVec w) :
    (x - (x &&& ~~~(unit - 1))).toNat = x.toNat % 2 ^ k := by
  have hdown := toNat_and_not_sub_one h x
  have hmod := Nat.div_add_mod' x.toNat (2 ^ k)
  have hle : (x &&& ~~~(unit - 1)) ≤ x := by
    rw [BitVec.le_def, hdown]
    omega
  rw [BitVec.toNat_sub_of_le hle, hdown]
  omega

/-- Rounding up on a machine word wraps around with the words. -/
theorem toNat_add_sub_one_and_not (h : unit.toNat = 2 ^ k) (x : BitVec w) :
    ((x + unit - 1) &&& ~~~(unit - 1)).toNat = up (2 ^ k) x.toNat % 2 ^ w := by
  obtain ⟨q, hq⟩ : 2 ^ k ∣ 2 ^ w := Nat.pow_dvd_pow 2 (Nat.le_of_lt (two_pow_lt h))
  have hsum : (x + unit - 1).toNat = (x.toNat + 2 ^ k - 1) % 2 ^ w := by
    have hpos : 0 < 2 ^ k := Nat.two_pow_pos k
    rw [BitVec.sub_eq_add_neg, BitVec.add_assoc, ← BitVec.sub_eq_add_neg, BitVec.toNat_add,
      toNat_sub_one h, Nat.add_sub_assoc hpos]
  rw [up, toNat_and_not_sub_one h, hsum, hq, Nat.mod_mul_right_div_self, Nat.mul_comm (2 ^ k) q,
    Nat.mul_mod_mul_right]

end Masks

/-! ## The blocks that meet a range -/

/-- `[addr, addr + size)` is made of the blocks of `unit` bytes that meet `[start, start + len)`. -/
structure Exact (unit start len addr size : ℕ) : Prop where
  addr_aligned : unit ∣ addr
  size_aligned : unit ∣ size
  covers : ∀ a, start ≤ a → a < start + len → addr ≤ a ∧ a < addr + size
  meets : ∀ block, unit ∣ block → addr ≤ block → block < addr + size →
    ∃ a, block ≤ a ∧ a < block + unit ∧ start ≤ a ∧ a < start + len

/-- Rounding down to a multiple and up from there gives the blocks that meet the range. -/
theorem exact_round {unit start len : ℕ} (hunit : 0 < unit) (hlen : 0 < len) :
    Exact unit start len (start / unit * unit) (up unit (start % unit + len)) := by
  unfold up
  have hstart := Nat.div_add_mod' start unit
  have hsize := Nat.div_add_mod' (start % unit + len + unit - 1) unit
  have hrest := Nat.mod_lt (start % unit + len + unit - 1) hunit
  have hlow := Nat.mod_lt start hunit
  constructor
  · exact Nat.dvd_mul_left unit _
  · exact Nat.dvd_mul_left unit _
  · intro a hfrom hto
    omega
  · intro block haligned hfrom hto
    by_cases hfirst : block ≤ start
    · -- only the first block begins at or below the range
      obtain ⟨q, rfl⟩ := haligned
      have hq : start / unit ≤ q :=
        Nat.le_of_mul_le_mul_left (by rw [Nat.mul_comm unit (_ / unit)]; exact hfrom) hunit
      have hblock : start / unit * unit ≤ unit * q := by
        rw [Nat.mul_comm unit]
        exact Nat.mul_le_mul_right unit hq
      exact ⟨start, hfirst, by omega, Nat.le_refl start, by omega⟩
    · refine ⟨block, Nat.le_refl block, by omega, by omega, ?_⟩
      -- the last block begins before the end of the range
      obtain ⟨q, rfl⟩ := haligned
      have hcount : q < start / unit + (start % unit + len + unit - 1) / unit := by
        apply Nat.lt_of_mul_lt_mul_left (a := unit)
        rw [Nat.mul_add, Nat.mul_comm unit (start / unit), Nat.mul_comm unit (_ / unit)]
        exact hto
      have hlast : (q + 1) * unit ≤
          (start / unit + (start % unit + len + unit - 1) / unit) * unit :=
        Nat.mul_le_mul_right unit hcount
      rw [Nat.add_mul, Nat.add_mul, Nat.one_mul, Nat.mul_comm q unit] at hlast
      omega

/-- The blocks that meet a range on a circle of `q` blocks: a byte in the block of the byte `i` of
the range is as far behind the first block as it would be on a line. -/
theorem offset_on_circle {unit q start i a : ℕ} (hunit : 0 < unit) (hstart : start < unit * q)
    (hfit : start % unit + i + unit ≤ unit * q)
    (hsame : a / unit = (start + i) % (unit * q) / unit) :
    (unit * q - start / unit * unit + a) % (unit * q) =
      (start % unit + i) / unit * unit + a % unit := by
  have hmod := Nat.div_add_mod' start unit
  have hblock := Nat.div_add_mod' a unit
  have hoffset := Nat.div_mul_le_self (start % unit + i) unit
  have hlow := Nat.mod_lt a hunit
  have hsum : (start + i) / unit = start / unit + (start % unit + i) / unit := by
    rw [show start + i = (start % unit + i) + start / unit * unit by omega,
      Nat.add_mul_div_right _ _ hunit, Nat.add_comm]
  by_cases hwrap : start + i < unit * q
  · rw [Nat.mod_eq_of_lt hwrap, hsum] at hsame
    rw [hsame, Nat.add_mul] at hblock
    rw [show unit * q - start / unit * unit + a =
      ((start % unit + i) / unit * unit + a % unit) + unit * q by omega, Nat.add_mod_right,
      Nat.mod_eq_of_lt (by omega)]
  · have hover : (start + i) % (unit * q) = start + i - unit * q := by
      rw [Nat.mod_eq_sub_mod (Nat.le_of_not_lt hwrap), Nat.mod_eq_of_lt (by omega)]
    rw [hover, Nat.sub_mul_div, hsum] at hsame
    have hq : q ≤ start / unit + (start % unit + i) / unit := by
      rw [← hsum]
      exact (Nat.le_div_iff_mul_le hunit).mpr (by rw [Nat.mul_comm]; exact Nat.le_of_not_lt hwrap)
    rw [hsame, Nat.sub_mul, Nat.add_mul, Nat.mul_comm q] at hblock
    rw [show unit * q - start / unit * unit + a =
      (start % unit + i) / unit * unit + a % unit by
        have hge := Nat.mul_le_mul_right unit hq
        rw [Nat.add_mul, Nat.mul_comm q] at hge
        omega, Nat.mod_eq_of_lt (by omega)]

end Blocks
