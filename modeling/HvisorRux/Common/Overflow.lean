import Mathlib.Algebra.Order.Ring.Nat
import Mathlib.Data.Nat.ModEq

/-!
# Unsigned arithmetic of a fixed width

What an operation on unsigned integers does if the result does not fit depends on how the program
is built: it panics or it wraps around.
-/

namespace HvisorRux.Common

open Option

/-- What happens on overflow. -/
inductive Overflow
  | panics
  | wraps
deriving DecidableEq

namespace Overflow

variable {o : Overflow} {w n m x y : ℕ}

/-- A result in `w` bits; `none` is a panic. -/
def fit (o : Overflow) (w n : ℕ) : Option ℕ :=
  if n < 2 ^ w then some n
  else match o with
    | .panics => none
    | .wraps => some (n % 2 ^ w)

section

variable (o : Overflow) (w x y : ℕ)

/-- A sum. -/
def add : Option ℕ := o.fit w (x + y)

/-- A product. -/
def mul : Option ℕ := o.fit w (x * y)

/-- A difference, which may be below zero. -/
def sub : Option ℕ :=
  if y ≤ x then some (x - y)
  else match o with
    | .panics => none
    | .wraps => some (x + 2 ^ w - y)

end

/-- A result that was not cut off is exact. -/
theorem eq_of_fit (h : o.fit w n = some m) (hfits : o = .wraps → n < 2 ^ w) : m = n := by
  unfold fit at h
  split at h
  · exact (some.inj h).symm
  · next hlt =>
    cases o with
    | panics => cases h
    | wraps => exact absurd (hfits rfl) hlt

/-- In both modes a result is the remainder. -/
theorem eq_mod_of_fit (h : o.fit w n = some m) : m = n % 2 ^ w := by
  unfold fit at h
  split at h
  · next hlt => exact (some.inj h).symm.trans (Nat.mod_eq_of_lt hlt).symm
  · cases o with
    | panics => cases h
    | wraps => exact (some.inj h).symm

/-- Adding the same to two numbers keeps them apart. -/
theorem add_left_inj {x' : ℕ} (hx : x < 2 ^ w) (hx' : x' < 2 ^ w) (h : o.add w x y = some m)
    (h' : o.add w x' y = some m) : x = x' := by
  have hmod : (x + y) % 2 ^ w = (x' + y) % 2 ^ w := (eq_mod_of_fit h).symm.trans (eq_mod_of_fit h')
  have hcancel : x % 2 ^ w = x' % 2 ^ w := Nat.ModEq.add_right_cancel' y hmod
  rwa [Nat.mod_eq_of_lt hx, Nat.mod_eq_of_lt hx'] at hcancel

/-- A sum that was cut off is smaller than its parts. -/
theorem lt_of_add (h : o.add w x y = some m) (hy : y < 2 ^ w) (hover : ¬ x + y < 2 ^ w) :
    m < x := by
  unfold add fit at h
  rw [if_neg hover] at h
  cases o with
  | panics => cases h
  | wraps =>
    cases h
    have hle := Nat.mod_le (x + y - 2 ^ w) (2 ^ w)
    rw [Nat.mod_eq_sub_mod (not_lt.mp hover)]
    omega

theorem lt_of_fit (h : o.fit w n = some m) : m < 2 ^ w := by
  unfold fit at h
  split at h
  · next hlt => exact some.inj h ▸ hlt
  · cases o with
    | panics => cases h
    | wraps => exact some.inj h ▸ Nat.mod_lt _ (Nat.two_pow_pos w)

end Overflow

end HvisorRux.Common
