import Mathlib.Data.List.GetD
import Mathlib.Data.UInt

/-!
# Byte-addressed memory

A memory is a function from addresses to bytes; a read is a list of bytes and a write overwrites the
addresses its list covers. The frame rules say which reads a write does not change.
-/

namespace HvisorRux.Common

open List

/-- A memory without bounds: what an address means is up to its user. -/
abbrev ByteMem := ℕ → UInt8

namespace ByteMem

variable {mem mem' : ByteMem} {addr addr' n : ℕ} {bytes : List UInt8}

/-- The `n` bytes from `addr` on. -/
def read (mem : ByteMem) (addr n : ℕ) : List UInt8 := (List.range n).map fun i => mem (addr + i)

/-- Store `bytes` from `addr` on. -/
def write (mem : ByteMem) (addr : ℕ) (bytes : List UInt8) : ByteMem := fun a =>
  if addr ≤ a then bytes.getD (a - addr) (mem a) else mem a

@[simp] theorem length_read : (mem.read addr n).length = n := by simp [read]

/-- A read depends on the bytes of its range only. -/
theorem read_congr (h : ∀ a, addr ≤ a → a < addr + n → mem a = mem' a) :
    mem.read addr n = mem'.read addr n := by
  refine map_congr_left fun i hi => h _ (Nat.le_add_right ..) ?_
  exact Nat.add_lt_add_left (mem_range.mp hi) _

/-- A write changes only the addresses it covers. -/
theorem write_of_outside {a : ℕ} (h : a < addr ∨ addr + bytes.length ≤ a) :
    mem.write addr bytes a = mem a := by
  unfold write
  split
  · next hle => exact getD_eq_default _ _ (by omega)
  · rfl

/-- A write leaves the other ranges alone. -/
theorem read_write_of_disjoint (h : addr + n ≤ addr' ∨ addr' + bytes.length ≤ addr) :
    (mem.write addr' bytes).read addr n = mem.read addr n :=
  read_congr fun _ _ _ => write_of_outside (by omega)

/-- What is written is read back. -/
theorem read_write_same (mem : ByteMem) (addr : ℕ) (bytes : List UInt8) :
    (mem.write addr bytes).read addr bytes.length = bytes := by
  refine ext_getElem length_read fun i hi hi' => ?_
  have hget : (mem.write addr bytes) (addr + i) = bytes[i] := by
    rw [write, if_pos (Nat.le_add_right ..), Nat.add_sub_cancel_left]
    exact getD_eq_getElem _ _ hi'
  simpa [read] using hget

end ByteMem

end HvisorRux.Common
