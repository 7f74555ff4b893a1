import Mathlib.Data.BitVec

/-!
# Words built bit by bit

A word given by the values of its bits, the mask that selects whole fields of equal width, and a
word put together from two others under a mask.
-/

namespace HvisorRux.Common

/-- The word whose bit `i` is `f i`. -/
def ofBits (f : ℕ → Bool) : (w : ℕ) → BitVec w
  | 0 => 0#0
  | w + 1 => BitVec.cons (f w) (ofBits f w)

theorem getLsbD_ofBits (f : ℕ → Bool) (w i : ℕ) :
    (ofBits f w).getLsbD i = (decide (i < w) && f i) := by
  induction w with
  | zero => simp
  | succ w ih =>
    rw [ofBits, BitVec.getLsbD_cons, ih]
    split
    · next h => simp [h]
    · next h => simp only [show i < w + 1 ↔ i < w by omega]

/-- The union of the fields `i < count`, `bits` wide each, that `p` selects. -/
def fieldMask (w : ℕ) (p : ℕ → Bool) (bits : ℕ) : (count : ℕ) → BitVec w
  | 0 => 0#w
  | i + 1 =>
    let mask := fieldMask w p bits i
    if p i then mask ||| BitVec.ofNat w (2 ^ bits - 1) <<< (i * bits) else mask

theorem getLsbD_field {w bits i j : ℕ} (h : (i + 1) * bits ≤ w) :
    (BitVec.ofNat w (2 ^ bits - 1) <<< (i * bits)).getLsbD j =
      decide (i * bits ≤ j ∧ j < (i + 1) * bits) := by
  rw [Nat.add_mul] at *
  simp only [BitVec.getLsbD_shiftLeft, BitVec.getLsbD_ofNat, Nat.testBit_two_pow_sub_one]
  rw [Bool.eq_iff_iff]
  simp only [Bool.and_eq_true, decide_eq_true_eq, Bool.not_eq_true', decide_eq_false_iff_not]
  omega

/-- A bit of the mask is set iff its field is selected. -/
theorem getLsbD_fieldMask {w : ℕ} (p : ℕ → Bool) {bits : ℕ} (hbits : 0 < bits) {count : ℕ}
    (h : count * bits ≤ w) (j : ℕ) :
    (fieldMask w p bits count).getLsbD j = (decide (j < count * bits) && p (j / bits)) := by
  induction count with
  | zero => simp [fieldMask]
  | succ i ih =>
    have hi : i * bits ≤ w := le_trans (Nat.mul_le_mul_right _ (Nat.le_succ i)) h
    have hlt : j < i * bits → j < (i + 1) * bits := by
      intro hj
      rw [Nat.add_mul]
      omega
    -- outside field `i` nothing changes; inside it `j / bits` is `i`
    by_cases hj : i * bits ≤ j ∧ j < (i + 1) * bits
    · have hdiv : j / bits = i := by
        rw [Nat.div_eq_iff hbits]
        rw [Nat.add_mul] at hj
        omega
      cases hp : p i <;>
        simp [fieldMask, hp, ih hi, getLsbD_field h, hj, hdiv, Nat.not_lt.mpr hj.1]
    · have hsame : j < i * bits ↔ j < (i + 1) * bits := ⟨hlt, fun h' => by omega⟩
      cases hp : p i <;>
        simp [fieldMask, hp, ih hi, getLsbD_field h, ← hsame]

/-! ## Two words under a mask -/

section Select

variable {w : ℕ} (a b m : BitVec w)

/-- The bits of `b` where `m` is set and those of `a` elsewhere. -/
def select : BitVec w := (a &&& ~~~m) ||| (b &&& m)

theorem select_and_self : select a b m &&& m = b &&& m := by
  refine BitVec.eq_of_getLsbD_eq fun i hi => ?_
  simp only [select, BitVec.getLsbD_and, BitVec.getLsbD_or, BitVec.getLsbD_not]
  cases m.getLsbD i <;> simp

theorem select_and_of_disjoint {t : BitVec w} (h : t &&& m = 0#w) :
    select a b m &&& t = a &&& t := by
  refine BitVec.eq_of_getLsbD_eq fun i hi => ?_
  have hbit : (t &&& m).getLsbD i = false := by simp [h]
  rw [BitVec.getLsbD_and] at hbit
  simp only [select, BitVec.getLsbD_and, BitVec.getLsbD_or, BitVec.getLsbD_not]
  cases ht : t.getLsbD i <;> simp_all

end Select

/-- Masking the bits from `lo` up to `lo + n` rounds down and cuts off. -/
theorem toNat_ofNat_and_field {w lo n : ℕ} (h : lo + n ≤ w) (x : ℕ) :
    (BitVec.ofNat w x &&& BitVec.ofNat w ((2 ^ n - 1) * 2 ^ lo)).toNat =
      x % 2 ^ (lo + n) / 2 ^ lo * 2 ^ lo := by
  refine Nat.eq_of_testBit_eq fun i => ?_
  simp only [BitVec.toNat_and, BitVec.toNat_ofNat, Nat.testBit_and, Nat.testBit_mod_two_pow,
    Nat.testBit_mul_two_pow, Nat.testBit_div_two_pow, Nat.testBit_two_pow_sub_one]
  by_cases hlo : lo ≤ i
  · rw [Nat.sub_add_cancel hlo]
    cases x.testBit i
    · simp
    · simp only [hlo, Bool.and_true, Bool.true_and, decide_true, ← Bool.decide_and]
      exact decide_eq_decide.mpr (by omega)
  · simp [hlo]

end HvisorRux.Common
