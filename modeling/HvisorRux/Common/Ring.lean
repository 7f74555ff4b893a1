import Mathlib.Algebra.Order.Ring.Int

/-!
# Circular buffers addressed by absolute positions

The `k`-th element ever written to a ring of `n` slots lives in slot `k % n`. `Holds slots n xs h`
says that the ring still contains every element of the history `xs` from position `h` on. A
producer appends to the history, a consumer advances `h`; the two index formulas of a concrete
ring are then only reductions of absolute positions modulo `n`.
-/

namespace HvisorRux.Common.Ring

open Function List

variable {α : Type*} {slots : ℕ → α} {n h : ℕ} {xs : List α}

/-- The ring contains the history `xs` from position `h` on. -/
structure Holds (slots : ℕ → α) (n : ℕ) (xs : List α) (h : ℕ) : Prop where
  le_length : h ≤ xs.length
  length_le : xs.length ≤ h + n
  slot_eq : ∀ k (hk : k < xs.length), h ≤ k → slots (k % n) = xs[k]

/-- Two positions less than `n` apart never share a slot. -/
theorem mod_ne_of_lt {j k n : ℕ} (hjk : j < k) (hkn : k < j + n) : j % n ≠ k % n := by
  intro heq
  have hzero : (k - j) % n = 0 := Nat.sub_mod_eq_zero_of_mod_eq heq.symm
  rw [Nat.mod_eq_of_lt (by omega)] at hzero
  omega

/-- The empty history is held by every ring. -/
theorem Holds.nil (slots : ℕ → α) (n : ℕ) : Holds slots n [] 0 :=
  ⟨le_rfl, by simp, by simp⟩

section

variable (hr : Holds slots n xs h)

include hr

/-- Writing the next slot of a ring that is not full appends to the history. -/
theorem Holds.push (hfree : xs.length < h + n) (x : α) :
    Holds (update slots (xs.length % n) x) n (xs ++ [x]) h := by
  refine ⟨?_, ?_, ?_⟩
  · simpa using hr.le_length.trans (Nat.le_succ _)
  · rw [length_append]
    exact hfree
  intro k hk hhk
  rw [length_append, length_singleton] at hk
  rcases Nat.lt_succ_iff_lt_or_eq.mp hk with hlt | rfl
  · rw [update_of_ne (mod_ne_of_lt hlt (by omega)), getElem_append_left hlt]
    exact hr.slot_eq k hlt hhk
  · simp

/-- Preparing the next slot of a ring that is not full does not disturb what the ring holds. -/
theorem Holds.write_free (hfree : xs.length < h + n) (x : α) :
    Holds (update slots (xs.length % n) x) n xs h := by
  refine ⟨hr.le_length, hr.length_le, ?_⟩
  intro k hk hhk
  rw [update_of_ne (mod_ne_of_lt hk (by omega))]
  exact hr.slot_eq k hk hhk

/-- Once the prepared slot is published, the history has grown by its contents. -/
theorem Holds.publish (hfree : xs.length < h + n) :
    Holds slots n (xs ++ [slots (xs.length % n)]) h := by
  have hpush := hr.push hfree (slots (xs.length % n))
  rwa [update_eq_self] at hpush

/-- Consuming the oldest held element. -/
theorem Holds.pop (hlt : h < xs.length) : Holds slots n xs (h + 1) :=
  ⟨hlt, hr.length_le.trans (by omega), fun k hk hhk => hr.slot_eq k hk (Nat.le_of_succ_le hhk)⟩

end

/-- A ring without a consumer holds its last `n` elements. -/
theorem Holds.overwrite (hr : Holds slots n xs (xs.length - n)) (hn : 0 < n) (x : α) :
    Holds (update slots (xs.length % n) x) n (xs ++ [x]) (xs.length + 1 - n) := by
  rcases Nat.lt_or_ge xs.length n with hlt | hge
  · have hzero : xs.length + 1 - n = xs.length - n := by omega
    exact hzero ▸ hr.push (by omega) x
  · have hsucc : xs.length + 1 - n = xs.length - n + 1 := by omega
    exact hsucc ▸ (hr.pop (by omega)).push (by omega) x

/-- The slot of the oldest held element contains it. -/
theorem Holds.head (hr : Holds slots n xs h) (hlt : h < xs.length) : slots (h % n) = xs[h] :=
  hr.slot_eq h hlt le_rfl

end HvisorRux.Common.Ring
