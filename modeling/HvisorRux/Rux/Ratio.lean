import Mathlib.Algebra.Order.Field.Basic
import Mathlib.Algebra.Order.Ring.Rat
import Mathlib.Data.Nat.Cast.Order.Field
import Mathlib.Tactic.Linarith
import Mathlib.Tactic.Ring

/-!
# Fixed-point ratios

`Ratio::new` (`crates/ratio`) approximates `numerator / denominator` by `mult / 2 ^ shift` with the
largest shift for which `mult` fits in 32 bits, and then takes out factors of two. A shift to the
left loses the bits beyond the 64th; a sum that has more than 64 bits is `none`.
-/

namespace HvisorRux.Rux

/-- `Ratio`. -/
structure Ratio where
  numerator : ℕ
  denominator : ℕ
  mult : ℕ
  shift : ℕ

section

variable (n d : ℕ)

/-- `(((numerator as u64) << shift) + denominator as u64 / 2) / denominator as u64`. -/
def roundedMult (shift : ℕ) : Option ℕ :=
  let sum := (n <<< shift) % 2 ^ 64 + d / 2
  if sum < 2 ^ 64 then some (sum / d) else none

/-- The loop that lowers the shift until `mult` fits, which ends at 0 in any case. -/
def searchShift : ℕ → Option (ℕ × ℕ)
  | 0 => (roundedMult n d 0).map (·, 0)
  | shift + 1 => do
    let mult ← roundedMult n d (shift + 1)
    if mult ≤ 2 ^ 32 - 1 then some (mult, shift + 1) else searchShift shift

/-- `while mult % 2 == 0 && shift > 0`. -/
def reduce : ℕ → ℕ → ℕ × ℕ
  | mult, 0 => (mult, 0)
  | mult, shift + 1 => if mult % 2 = 0 then reduce (mult / 2) shift else (mult, shift + 1)

/-- `mult` and `shift` before the cast. -/
def wideMult : Option (ℕ × ℕ) :=
  if n = 0 then some (0, 0) else (searchShift n d 32).map fun p => reduce p.1 p.2

/-- `Ratio::new`; `none` is its assertion. -/
def Ratio.new : Option Ratio :=
  if d = 0 ∧ n ≠ 0 then none
  else (wideMult n d).map fun p => ⟨n, d, p.1 % 2 ^ 32, p.2⟩

end

section

variable {n d : ℕ} (hn : n < 2 ^ 32) (hd : d < 2 ^ 32)

include hn hd

end

end HvisorRux.Rux
