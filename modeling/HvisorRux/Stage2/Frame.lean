import Mathlib.Data.Finset.Max
import Mathlib.Order.Interval.Finset.Nat

/-!
# Aligned frames

The frame allocator of `memory/frame.rs` hands out the lowest run of free frames.
`Frame::new_contiguous_with_base` and `Frame::new_16` get an aligned run from it: they take single
frames until the next one is aligned, and give these back at the end. But `new_16` looks only at one
frame, and the run that it gets may begin at a later one. The free frames are the set of their
indices, and so are the frames in a vector; `none` is a call that goes on.
-/

namespace HvisorRux.Stage2

open Finset

structure Frame where
  startPaddr : ℕ
  frameCount : ℕ
deriving DecidableEq

section

variable (base : ℕ)

/-- The indices of its frames. -/
def Frame.pages (f : Frame) : Finset ℕ :=
  Ico ((f.startPaddr - base) / 4096) ((f.startPaddr - base) / 4096 + f.frameCount)

/-- `Frame::new_contiguous`, and `Frame::new_zero` if `frameCount` is 1. -/
def newContiguous (frameCount : ℕ) (free : Finset ℕ) : Option (Frame × Finset ℕ) :=
  if h : {i ∈ free | Ico i (i + frameCount) ⊆ free}.Nonempty then
    let frame : Frame := ⟨min' _ h * 4096 + base, frameCount⟩
    some (frame, free \ frame.pages base)
  else none

/-- `Frame::new_contiguous_with_base`. Frames go back to the free ones when they are dropped. -/
def newContiguousWithBase (frameCount alignLog2 : ℕ) :
    ℕ → Finset ℕ → Finset ℕ → Option (Option Frame × Finset ℕ)
  | 0, _, _ => none
  | fuel + 1, free, attempted =>
    match newContiguous base frameCount free with
    | none => some (none, free ∪ attempted)
    | some (frame, free) =>
      if frame.startPaddr &&& (1 <<< alignLog2 - 1) = 0 then some (frame, free ∪ attempted)
      else
        let free := free ∪ frame.pages base
        match newContiguous base 1 free with
        | none => newContiguousWithBase frameCount alignLog2 fuel free attempted
        | some (f, free) =>
          newContiguousWithBase frameCount alignLog2 fuel free (f.pages base ∪ attempted)

/-- `Frame::new_16`. -/
def new16 : ℕ → Finset ℕ → Finset ℕ → Option (Option Frame × Finset ℕ)
  | 0, _, _ => none
  | fuel + 1, free, v =>
    match newContiguous base 1 free with
    | none => some (none, free ∪ v)
    | some (f, free) =>
      if f.startPaddr &&& 0x3fff = 0 then
        -- the frame is dropped before the run is taken
        let free := free ∪ f.pages base
        match newContiguous base 4 free with
        | none => some (none, free ∪ v)
        | some (ret, free) => some (ret, free ∪ v)
      else new16 fuel free (f.pages base ∪ v)

end

section

variable {base n fuel : ℕ} {free free₀ rest v : Finset ℕ} {f : Frame} {p : ℕ → Prop}
  {r : Option Frame × Finset ℕ}

theorem newContiguous_spec (h : newContiguous base n free = some (f, rest)) :
    rest = free \ f.pages base ∧ f.pages base ⊆ free ∧ ∃ i ∈ free, f.startPaddr = i * 4096 + base ∧
      f.pages base = Ico i (i + n) ∧ ∀ j ∈ free, Ico j (j + n) ⊆ free → i ≤ j := by
  unfold newContiguous at h
  split at h
  · next hne =>
    cases h
    obtain ⟨hmem, hrun⟩ := mem_filter.mp (min'_mem _ hne)
    rw [Frame.pages, Nat.add_sub_cancel, Nat.mul_div_cancel _ (by decide)]
    exact ⟨rfl, hrun, _, hmem, rfl, rfl,
      fun j hj hrun => min'_le _ j (mem_filter.mpr ⟨hj, hrun⟩)⟩
  · cases h

theorem newContiguous_drop (h : newContiguous base n free = some (f, rest)) :
    rest ∪ f.pages base = free := by
  obtain ⟨rfl, hsub, -⟩ := newContiguous_spec h
  exact sdiff_union_of_subset hsub

/-- The frames in `v` are held. They are below the free ones and satisfy `p`. -/
structure Held (p : ℕ → Prop) (free₀ free v : Finset ℕ) : Prop where
  all : free ∪ v = free₀
  below : ∀ k ∈ v, p k ∧ ∀ j ∈ free, k < j

theorem Held.take (h : Held p free₀ free v) (ht : newContiguous base 1 free = some (f, rest))
    (hp : ∀ i, f.startPaddr = i * 4096 + base → p i) : Held p free₀ rest (f.pages base ∪ v) := by
  refine ⟨by rw [← union_assoc, newContiguous_drop ht, h.all], fun k hk => ?_⟩
  obtain ⟨rfl, -, i, -, haddr, hpages, hlow⟩ := newContiguous_spec ht
  obtain hk | hk := mem_union.mp hk
  · obtain rfl : k = i := by simpa [hpages] using hk
    refine ⟨hp k haddr, fun j hj => ?_⟩
    obtain ⟨hj, hne⟩ := mem_sdiff.mp hj
    exact lt_of_le_of_ne (hlow j hj (by simpa using hj)) fun heq => hne (heq ▸ hk)
  · exact ⟨(h.below k hk).1, fun j hj => (h.below k hk).2 j (mem_sdiff.mp hj).1⟩

/-- What a call should deliver: an aligned run that was free, with all other frames as before. -/
def Delivers (base align : ℕ) (free₀ : Finset ℕ) (r : Option Frame × Finset ℕ) : Prop :=
  ∀ f ∈ r.1, align ∣ f.startPaddr ∧ f.pages base ⊆ free₀ ∧ r.2 = free₀ \ f.pages base

theorem Held.deliver {a : ℕ} (h : Held p free₀ free v)
    (ht : newContiguous base n free = some (f, rest)) (ha : f.startPaddr &&& (2 ^ a - 1) = 0) :
    Delivers base (2 ^ a) free₀ (f, rest ∪ v) := by
  obtain ⟨rfl, hsub, -⟩ := newContiguous_spec ht
  rintro _ ⟨⟩
  rw [Nat.and_two_pow_sub_one_eq_mod] at ha
  have hapart : Disjoint v (f.pages base) := disjoint_left.mpr fun k hk hkf =>
    lt_irrefl k ((h.below k hk).2 k (hsub hkf))
  rw [← h.all, union_sdiff_distrib, sdiff_eq_self_of_disjoint hapart]
  exact ⟨Nat.dvd_of_mod_eq_zero ha, hsub.trans subset_union_left, rfl⟩

theorem Held.newContiguousWithBase {a : ℕ} (h : Held (fun _ => True) free₀ free v)
    (hr : newContiguousWithBase base n a fuel free v = some r) : Delivers base (2 ^ a) free₀ r := by
  induction fuel generalizing free v with
  | zero => cases hr
  | succ fuel ih =>
    rw [Stage2.newContiguousWithBase, Nat.one_shiftLeft] at hr
    split at hr
    · cases hr
      rintro f ⟨⟩
    · next hf =>
      split_ifs at hr with ha
      · cases hr
        exact h.deliver hf ha
      · simp only [newContiguous_drop hf] at hr
        split at hr
        · exact ih h hr
        · next hg => exact ih (h.take hg fun _ _ => trivial) hr

/-- The address is a multiple of 16 KiB. -/
abbrev Aligned16 (paddr : ℕ) : Prop := paddr &&& 0x3fff = 0

/-- `i` is the first of the free frames from `a` on that begins a run of four. -/
structure FirstRun (free : Finset ℕ) (a i : ℕ) : Prop where
  mem : i ∈ free
  le : a ≤ i
  run : Ico i (i + 4) ⊆ free
  first : ∀ j ∈ free, a ≤ j → Ico j (j + 4) ⊆ free → i ≤ j

/-- From the first aligned frame that is free on, the first run of four begins at an aligned
frame. -/
def RunAligned (base : ℕ) (free : Finset ℕ) : Prop :=
  ∀ a ∈ free, Aligned16 (a * 4096 + base) → (∀ j ∈ free, j < a → ¬ Aligned16 (j * 4096 + base)) →
    ∀ i, FirstRun free a i → Aligned16 (i * 4096 + base)

theorem Held.new16 (haligned : RunAligned base free₀)
    (h : Held (fun i => ¬ Aligned16 (i * 4096 + base)) free₀ free v)
    (hr : new16 base fuel free v = some r) : Delivers base (2 ^ 14) free₀ r := by
  induction fuel generalizing free v with
  | zero => cases hr
  | succ fuel ih =>
    rw [Stage2.new16] at hr
    split at hr
    · cases hr
      rintro f ⟨⟩
    · next hf =>
      obtain ⟨-, -, a, ha, haddr, -, hlow⟩ := newContiguous_spec hf
      split_ifs at hr with hzero
      · simp only [newContiguous_drop hf] at hr
        split at hr <;> cases hr
        · rintro f ⟨⟩
        · next hret =>
          obtain ⟨-, hsub, i, hi, haddr', hpages, hlow'⟩ := newContiguous_spec hret
          refine h.deliver hret (haddr' ▸ haligned a (h.all ▸ mem_union_left v ha) (haddr ▸ hzero)
            (fun j hj hlt => ?_) i ⟨h.all ▸ mem_union_left v hi, hlow i hi (by simpa using hi),
              hpages ▸ hsub.trans (h.all ▸ subset_union_left), fun j hj hle hrun => ?_⟩)
          · obtain hj | hj := mem_union.mp (h.all ▸ hj)
            · exact absurd (hlow j hj (by simpa using hj)) hlt.not_ge
            · exact (h.below j hj).1
          · -- the frames from `a` on are all free
            have hfree : ∀ k ∈ free₀, a ≤ k → k ∈ free := fun k hk hle =>
              (mem_union.mp (h.all ▸ hk)).resolve_right fun hkv =>
                ((h.below k hkv).2 a ha).not_ge hle
            exact hlow' j (hfree j hj hle) fun k hk =>
              hfree k (hrun hk) (hle.trans (mem_Ico.mp hk).1)
      · exact ih (h.take hf fun i hi => hi ▸ hzero) hr

theorem newContiguous_eq {i : ℕ} (hi : i ∈ free) (hrun : Ico i (i + n) ⊆ free)
    (hlow : ∀ j ∈ free, Ico j (j + n) ⊆ free → i ≤ j) :
    newContiguous base n free = some (⟨i * 4096 + base, n⟩, free \ Ico i (i + n)) := by
  have hne : {i ∈ free | Ico i (i + n) ⊆ free}.Nonempty := ⟨i, mem_filter.mpr ⟨hi, hrun⟩⟩
  have hmin : min' _ hne = i := by
    refine le_antisymm (min'_le _ i (mem_filter.mpr ⟨hi, hrun⟩)) (le_min' _ _ _ fun j hj => ?_)
    obtain ⟨hj, hrun⟩ := mem_filter.mp hj
    exact hlow j hj hrun
  rw [newContiguous, dif_pos hne]
  dsimp only
  rw [hmin, Frame.pages, Nat.add_sub_cancel, Nat.mul_div_cancel _ (by decide)]

/-- `new_16` takes the frames before the first aligned one and returns the first run behind. -/
theorem new16_returns {a i : ℕ} (ha : a ∈ free) (hzero : Aligned16 (a * 4096 + base))
    (hbefore : ∀ j ∈ free, j < a → ¬ Aligned16 (j * 4096 + base)) (hi : FirstRun free a i) :
    ∃ fuel rest, new16 base fuel free v = some (some ⟨i * 4096 + base, 4⟩, rest) := by
  induction hcard : free.card using Nat.strong_induction_on generalizing free v with
  | _ c ih =>
    have hmin := min'_mem free ⟨a, ha⟩
    set m := min' free ⟨a, ha⟩ with hm
    have hle : ∀ j ∈ free, m ≤ j := fun j hj => min'_le free j hj
    have htake : newContiguous base 1 free = some (⟨m * 4096 + base, 1⟩, free \ Ico m (m + 1)) :=
      newContiguous_eq hmin (by simpa using hmin) fun j hj _ => hle j hj
    by_cases hma : m = a
    · have hret : newContiguous base 4 free =
          some (⟨i * 4096 + base, 4⟩, free \ Ico i (i + 4)) :=
        newContiguous_eq hi.mem hi.run fun j hj => hi.first j hj (hma ▸ hle j hj)
      refine ⟨1, free \ Ico i (i + 4) ∪ v, ?_⟩
      rw [Stage2.new16, htake]
      dsimp only
      rw [if_pos (hma ▸ hzero), newContiguous_drop htake, hret]
    · have hlt : m < a := lt_of_le_of_ne (hle a ha) hma
      obtain ⟨fuel, rest, hfuel⟩ := @ih (free \ Ico m (m + 1)).card (by
          rw [← hcard]
          exact card_lt_card (sdiff_ssubset (by simpa using hmin) (by simp)))
        (free \ Ico m (m + 1)) (Frame.pages base ⟨m * 4096 + base, 1⟩ ∪ v)
        (mem_sdiff.mpr ⟨ha, by simp; omega⟩)
        (fun j hj => hbefore j (mem_sdiff.mp hj).1)
        ⟨mem_sdiff.mpr ⟨hi.mem, by have := hi.le; simp; omega⟩, hi.le, fun k hk =>
            mem_sdiff.mpr ⟨hi.run hk, by have := hi.le; have := mem_Ico.mp hk; simp; omega⟩,
          fun j hj hle hrun => hi.first j (mem_sdiff.mp hj).1 hle (hrun.trans sdiff_subset)⟩ rfl
      refine ⟨fuel + 1, rest, ?_⟩
      rw [Stage2.new16, htake]
      dsimp only
      rw [if_neg (hbefore m hmin hlt), hfuel]

/-- **Aligned frames.** `new_contiguous_with_base` delivers its alignment, and `new_16` does iff the
first run of four from the first aligned frame on is aligned. -/
theorem aligned_frames_iff (base : ℕ) (free : Finset ℕ) :
    (∀ fuel n a, ∀ r ∈ newContiguousWithBase base n a fuel free ∅, Delivers base (2 ^ a) free r) ∧
      ((∀ fuel, ∀ r ∈ new16 base fuel free ∅, Delivers base (2 ^ 14) free r) ↔
        RunAligned base free) := by
  refine ⟨fun _ _ _ _ => Held.newContiguousWithBase ⟨by simp, by simp⟩, fun h => ?_,
    fun haligned _ _ => Held.new16 haligned ⟨by simp, by simp⟩⟩
  intro a ha hzero hbefore i hi
  obtain ⟨fuel, rest, hret⟩ := new16_returns (v := ∅) ha hzero hbefore hi
  have hdvd := (h fuel _ hret _ rfl).1
  exact (Nat.and_two_pow_sub_one_eq_mod _ 14).trans (Nat.mod_eq_zero_of_dvd hdvd)

end

/-- The run at the aligned frame is too short, and the next one is not aligned. -/
theorem unaligned_16 : ∃ r ∈ new16 0 7 {0, 1, 5, 6, 7, 8} ∅,
    ¬ Delivers 0 (2 ^ 14) {0, 1, 5, 6, 7, 8} r := by
  have hret : new16 0 7 {0, 1, 5, 6, 7, 8} ∅ = some (some ⟨0x5000, 4⟩, {0, 1}) := by decide +kernel
  exact ⟨_, hret, fun h => absurd (h _ rfl).1 (by decide)⟩

end HvisorRux.Stage2
