import Mathlib.Algebra.Order.Ring.Nat
import Mathlib.Order.Interval.Finset.Nat

/-!
# Spans of memory

A span `(a, n)` is the half-open interval from `a` to `a + n`. Spans that lie within spans that are
apart are apart, too, and spans that are apart and lie in a region are not longer than the region
in sum.
-/

namespace HvisorRux.Common.Span

open List

variable {p q r p' q' : ℕ × ℕ} {l l' : List (ℕ × ℕ)}

/-- The spans have no address in common. -/
def Apart (p q : ℕ × ℕ) : Prop := p.1 + p.2 ≤ q.1 ∨ q.1 + q.2 ≤ p.1
deriving Decidable

/-- The first span lies in the second one. -/
def Within (p q : ℕ × ℕ) : Prop := q.1 ≤ p.1 ∧ p.1 + p.2 ≤ q.1 + q.2
deriving Decidable

theorem Apart.symm (h : Apart p q) : Apart q p := Or.symm h

theorem Within.refl (p : ℕ × ℕ) : Within p p := ⟨le_rfl, le_rfl⟩

theorem Within.trans (h : Within p q) (h' : Within q r) : Within p r :=
  ⟨h'.1.trans h.1, h.2.trans h'.2⟩

/-- Parts of spans that are apart are apart. -/
theorem Apart.mono (h : Apart p' q') (hp : Within p p') (hq : Within q q') : Apart p q :=
  h.imp (fun h => hp.2.trans (h.trans hq.1)) fun h => hq.2.trans (h.trans hp.1)

/-- A span that is not empty meets the one that it is in. -/
theorem Within.not_apart (h : Within p q) (hpos : 0 < p.2) : ¬ Apart p q := by
  rintro (hlt | hlt)
  · exact absurd (hlt.trans h.1) (Nat.lt_add_of_pos_right hpos).not_ge
  · exact absurd (h.2.trans hlt) (Nat.lt_add_of_pos_right hpos).not_ge

theorem Apart.fst_ne (h : Apart p q) (hp : 0 < p.2) (hq : 0 < q.2) : p.1 ≠ q.1 := by
  obtain h | h := h <;> omega

/-! ## Lists of spans -/

/-- The order of the spans does not matter. -/
theorem pairwise_perm (hperm : l.Perm l') (h : l.Pairwise Apart) : l'.Pairwise Apart :=
  (hperm.pairwise_iff Apart.symm).mp h

/-- `n` spans of one length, one after the other. -/
def blocks (start size n : ℕ) : List (ℕ × ℕ) :=
  (List.range n).map fun i => (start + i * size, size)

/-- Blocks have one size, lie in the span and are aligned to their size in it. -/
theorem mem_blocks {start size n : ℕ} (hp : p ∈ blocks start size n) :
    p.2 = size ∧ Within p (start, n * size) ∧ p.2 ∣ p.1 - start := by
  obtain ⟨i, hi, rfl⟩ := List.mem_map.mp hp
  have hlt : (i + 1) * size ≤ n * size := Nat.mul_le_mul_right _ (mem_range.mp hi)
  rw [Nat.add_mul] at hlt
  refine ⟨rfl, ⟨Nat.le_add_right .., by show start + i * size + size ≤ start + n * size; omega⟩, ?_⟩
  exact ⟨i, by rw [Nat.add_sub_cancel_left, Nat.mul_comm]⟩

/-- Blocks are apart. -/
theorem blocks_apart (start size n : ℕ) : (blocks start size n).Pairwise Apart := by
  refine pairwise_map.mpr (pairwise_lt_range.imp fun {i j} hij => .inl ?_)
  have hle : (i + 1) * size ≤ j * size := Nat.mul_le_mul_right _ hij
  rw [Nat.add_mul] at hle
  omega

end HvisorRux.Common.Span
