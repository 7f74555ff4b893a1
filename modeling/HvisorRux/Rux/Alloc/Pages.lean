import HvisorRux.Common.Transition
import Mathlib.Data.Nat.Log
import Mathlib.Algebra.BigOperators.Group.List.Basic
import Mathlib.Algebra.Order.Ring.Nat

/-!
# The page allocator

`BitmapPageAllocator` keeps one bit for each page of its region and the number of pages in use
(`crates/allocator/src/bitmap.rs`). The bitmap comes from another crate. `BitAlloc` is its
interface, and `BitAlloc.Lawful` says that its operations do what their documentation says.

`dealloc_pages` subtracts all pages of the allocation from the number in use, but it clears only
the bit of the first one. So the allocator conserves its pages only if allocations of several pages
are never given back.
-/

namespace HvisorRux.Rux.Alloc

open Common List Option Bool

/-- `AllocError`. -/
inductive AllocError
  | invalidParam
  | memoryOverlap
  | noMemory
  | notAllocated
deriving DecidableEq, Repr

/-! ## The bitmap -/

/-- The operations of `bitmap_allocator::BitAlloc`. `insert n` is the bitmap in which the first `n`
bits are free; `dealloc` panics if the bit is free. -/
structure BitAlloc (β : Type) where
  free : β → ℕ → Bool
  insert : ℕ → β
  alloc : β → Option (ℕ × β)
  allocContiguous : β → ℕ → ℕ → Option (ℕ × β)
  dealloc : β → ℕ → Option β

/-- The bits from `i` on, `n` of them. -/
def inBlock (i n j : ℕ) : Bool := i ≤ j && j < i + n

/-- The operations are as documented: they find free bits and take them, or free one. -/
structure BitAlloc.Lawful {β : Type} (B : BitAlloc β) : Prop where
  insert : ∀ n j, B.free (B.insert n) j = decide (j < n)
  alloc : ∀ b i b', B.alloc b = some (i, b') →
    B.free b i ∧ ∀ j, B.free b' j = (B.free b j && !inBlock i 1 j)
  allocContiguous : ∀ b n alignLog2 i b', B.allocContiguous b n alignLog2 = some (i, b') →
    2 ^ alignLog2 ∣ i ∧ (∀ j, inBlock i n j → B.free b j) ∧
      ∀ j, B.free b' j = (B.free b j && !inBlock i n j)
  dealloc : ∀ b i, B.free b i = false →
    ∃ b', B.dealloc b i = some b' ∧ ∀ j, B.free b' j = (B.free b j || decide (j = i))

/-! ## The allocator -/

structure BitmapPageAllocator (β : Type) where
  base : ℕ
  totalPages : ℕ
  usedPages : ℕ
  inner : β
deriving DecidableEq

/-- `usize::is_power_of_two`. -/
def isPowerOfTwo (n : ℕ) : Bool := n ≠ 0 && 2 ^ n.log2 = n

namespace BitmapPageAllocator

variable {β : Type} (B : BitAlloc β) (pageSize : ℕ)

/-- The region is rounded to whole pages. It panics if no part of it is left. -/
def init (start size : ℕ) : Option (BitmapPageAllocator β) :=
  let end_ := (start + size) / pageSize * pageSize
  let start := (start + pageSize - 1) / pageSize * pageSize
  if isPowerOfTwo pageSize = false ∨ end_ < start then none
  else some ⟨start, (end_ - start) / pageSize, 0, B.insert ((end_ - start) / pageSize)⟩

section

variable (a : BitmapPageAllocator β)

/-- The call of the bitmap; the alignment is not used for a single page. -/
def allocBits (numPages alignLog2 : ℕ) : Option (ℕ × β) :=
  if numPages = 1 then B.alloc a.inner else B.allocContiguous a.inner numPages alignLog2

def allocPages (numPages alignPow2 : ℕ) : BitmapPageAllocator β × Except AllocError ℕ :=
  if alignPow2 % pageSize ≠ 0 then (a, .error .invalidParam)
  else if isPowerOfTwo (alignPow2 / pageSize) = false then (a, .error .invalidParam)
  else if numPages = 0 then (a, .error .invalidParam)
  else
    match a.allocBits B numPages (alignPow2 / pageSize).log2 with
    | none => (a, .error .noMemory)
    | some (idx, inner) =>
      ({ a with inner, usedPages := a.usedPages + numPages }, .ok (idx * pageSize + a.base))

/-- The page of an address. -/
def pageOf (pos : ℕ) : ℕ := (pos - a.base) / pageSize

def deallocPages (pos numPages : ℕ) : Option (BitmapPageAllocator β) :=
  if a.usedPages < numPages ∨ pos < a.base then none
  else
    (B.dealloc a.inner (a.pageOf pageSize pos)).map fun inner =>
      { a with inner, usedPages := a.usedPages - numPages }

end

end BitmapPageAllocator

/-! ## Histories -/

/-- An allocator with the allocations that have not been given back: where they begin and of how
many pages they are. -/
structure PageHeap (β : Type) where
  allocator : BitmapPageAllocator β
  live : List (ℕ × ℕ)

inductive PageEvent
  | alloc (numPages alignPow2 : ℕ)
  | dealloc (pos numPages : ℕ)

namespace PageHeap

variable {β : Type} (B : BitAlloc β) (pageSize : ℕ)

def alloc (h : PageHeap β) (numPages alignPow2 : ℕ) : PageHeap β :=
  match h.allocator.allocPages B pageSize numPages alignPow2 with
  | (allocator, .ok pos) => ⟨allocator, (pos, numPages) :: h.live⟩
  | (allocator, .error _) => { h with allocator }

/-- Only live allocations are given back, with their number of pages. -/
def step (h : PageHeap β) : PageEvent → Option (PageHeap β)
  | .alloc numPages alignPow2 => some (h.alloc B pageSize numPages alignPow2)
  | .dealloc pos numPages =>
    if (pos, numPages) ∈ h.live then
      (h.allocator.deallocPages B pageSize pos numPages).map fun allocator =>
        ⟨allocator, h.live.erase (pos, numPages)⟩
    else none

/-- Only allocations of a single page are given back. -/
def SinglePages (_ : PageHeap β) : PageEvent → Prop
  | .alloc _ _ => True
  | .dealloc _ numPages => numPages = 1

instance (h : PageHeap β) (e : PageEvent) : Decidable (h.SinglePages e) := by
  cases e <;> unfold SinglePages <;> infer_instance

/-- The allocation contains the page. -/
def Contains (h : PageHeap β) (p : ℕ × ℕ) (i : ℕ) : Prop :=
  p.1 ≤ h.allocator.base + i * pageSize ∧ h.allocator.base + i * pageSize < p.1 + p.2 * pageSize

/-- Live allocations are apart, in the region and not free, and their pages are those in use. -/
structure Safe (h : PageHeap β) : Prop where
  apart : h.live.Pairwise fun p q =>
    p.1 + p.2 * pageSize ≤ q.1 ∨ q.1 + q.2 * pageSize ≤ p.1
  inside : ∀ p ∈ h.live, h.allocator.base ≤ p.1 ∧
    p.1 + p.2 * pageSize ≤ h.allocator.base + h.allocator.totalPages * pageSize
  taken : ∀ p ∈ h.live, ∀ i, h.Contains pageSize p i → B.free h.allocator.inner i = false
  used : h.allocator.usedPages = (h.live.map Prod.snd).sum

/-- The free pages are those of no live allocation. -/
structure Conserved (h : PageHeap β) : Prop extends Safe B pageSize h where
  free_iff : ∀ i < h.allocator.totalPages, B.free h.allocator.inner i ↔
    ∀ p ∈ h.live, ¬ h.Contains pageSize p i

/-- The pages of an allocation. -/
def holds (h : PageHeap β) (p : ℕ × ℕ) (i : ℕ) : Bool :=
  inBlock (h.allocator.pageOf pageSize p.1) p.2 i

/-- `Safe` in terms of pages. -/
structure Inv (h : PageHeap β) : Prop where
  block : ∀ p ∈ h.live, 0 < p.2 ∧
    p.1 = h.allocator.pageOf pageSize p.1 * pageSize + h.allocator.base ∧
    h.allocator.pageOf pageSize p.1 + p.2 ≤ h.allocator.totalPages
  apart : h.live.Pairwise fun p q => ∀ i, h.holds pageSize p i → h.holds pageSize q i = false
  used : h.allocator.usedPages = (h.live.map Prod.snd).sum
  taken : ∀ p ∈ h.live, ∀ i, h.holds pageSize p i → B.free h.allocator.inner i = false
  free_lt : ∀ i, B.free h.allocator.inner i → i < h.allocator.totalPages

/-- A page that is not free belongs to a live allocation. -/
def TakenBy (h : PageHeap β) : Prop :=
  ∀ i < h.allocator.totalPages, B.free h.allocator.inner i = false →
    ∃ p ∈ h.live, h.holds pageSize p i

end PageHeap

/-! ## The steps -/

section

variable {β : Type} {B : BitAlloc β} {pageSize : ℕ} {a : BitmapPageAllocator β}

theorem inBlock_iff {i n j : ℕ} : inBlock i n j = true ↔ i ≤ j ∧ j < i + n := by
  rw [inBlock, and_eq_true, decide_eq_true_eq, decide_eq_true_eq]

theorem BitmapPageAllocator.allocBits_some (hB : B.Lawful) {numPages alignLog2 idx : ℕ} {inner : β}
    (h : a.allocBits B numPages alignLog2 = some (idx, inner)) :
    (numPages ≠ 1 → 2 ^ alignLog2 ∣ idx) ∧ (∀ j, inBlock idx numPages j → B.free a.inner j) ∧
      ∀ j, B.free inner j = (B.free a.inner j && !inBlock idx numPages j) := by
  unfold allocBits at h
  split at h
  · next hone =>
    subst hone
    obtain ⟨hfree, hrest⟩ := hB.alloc _ _ _ h
    refine ⟨fun hne => absurd rfl hne, fun j hj => ?_, hrest⟩
    rw [inBlock_iff] at hj
    obtain rfl : j = idx := by omega
    exact hfree
  · exact (hB.allocContiguous _ _ _ _ _ h).imp_left fun hdvd _ => hdvd

theorem two_pow_log2 {n : ℕ} (h : isPowerOfTwo n = true) : 2 ^ n.log2 = n :=
  of_decide_eq_true (and_eq_true_iff.mp h).2

/-- An allocation fails and changes nothing, or it takes free pages, the first one of which has an
aligned index if there are several. -/
theorem BitmapPageAllocator.allocPages_cases (hB : B.Lawful) (a : BitmapPageAllocator β)
    (pageSize numPages alignPow2 : ℕ) :
    (∃ e, a.allocPages B pageSize numPages alignPow2 = (a, .error e)) ∨
      ∃ idx inner, (numPages ≠ 1 → alignPow2 ∣ idx * pageSize) ∧ 0 < numPages ∧
        a.allocPages B pageSize numPages alignPow2 =
          ({ a with inner, usedPages := a.usedPages + numPages }, .ok (idx * pageSize + a.base)) ∧
        (∀ j, inBlock idx numPages j → B.free a.inner j) ∧
        ∀ j, B.free inner j = (B.free a.inner j && !inBlock idx numPages j) := by
  unfold allocPages
  split
  · exact .inl ⟨_, rfl⟩
  rename_i hmod
  split
  · exact .inl ⟨_, rfl⟩
  rename_i hpow
  split
  · exact .inl ⟨_, rfl⟩
  rename_i hne
  split
  · exact .inl ⟨_, rfl⟩
  rename_i idx inner hbits
  obtain ⟨hidx, htaken⟩ := allocBits_some hB hbits
  refine .inr ⟨idx, inner, fun h1 => ?_, Nat.pos_of_ne_zero hne, rfl, htaken⟩
  rw [two_pow_log2 (eq_true_of_ne_false hpow)] at hidx
  rw [← Nat.div_mul_cancel (Nat.dvd_of_mod_eq_zero (not_not.mp hmod))]
  exact Nat.mul_dvd_mul_right (hidx h1) _

namespace PageHeap

variable {h h' : PageHeap β} {p : ℕ × ℕ}

theorem pageOf_mul (hps : 0 < pageSize) (a : BitmapPageAllocator β) (idx : ℕ) :
    a.pageOf pageSize (idx * pageSize + a.base) = idx := by
  rw [BitmapPageAllocator.pageOf, Nat.add_sub_cancel, Nat.mul_div_cancel _ hps]

theorem holds_first (h : PageHeap β) (hpos : 0 < p.2) :
    h.holds pageSize p (h.allocator.pageOf pageSize p.1) := by
  rw [holds, inBlock_iff]
  omega

section

variable {idx numPages alignPow2 pos : ℕ} {inner : β} {allocator : BitmapPageAllocator β}

/-- Pages that were free are taken. -/
theorem Inv.take (hps : 0 < pageSize) (hi : Inv B pageSize h) (hpos : 0 < numPages)
    (hfree : ∀ j, inBlock idx numPages j → B.free h.allocator.inner j)
    (hinner : ∀ j, B.free inner j = (B.free h.allocator.inner j && !inBlock idx numPages j)) :
    Inv B pageSize
      ⟨{ h.allocator with inner, usedPages := h.allocator.usedPages + numPages },
        (idx * pageSize + h.allocator.base, numPages) :: h.live⟩ := by
  have hpage : h.allocator.pageOf pageSize (idx * pageSize + h.allocator.base) = idx :=
    pageOf_mul hps h.allocator idx
  have hnew : ∀ i, h.holds pageSize (idx * pageSize + h.allocator.base, numPages) i =
      inBlock idx numPages i := fun i => by rw [holds, hpage]
  refine ⟨fun p hp => ?_, pairwise_cons.mpr ⟨fun p hp i hin => ?_, hi.apart⟩, ?_,
    fun p hp i hin => ?_, fun i hin => ?_⟩
  · obtain rfl | hp := mem_cons.mp hp
    · refine ⟨hpos, congrArg (· * pageSize + h.allocator.base) hpage.symm, ?_⟩
      have hlast := hi.free_lt _ (hfree (idx + numPages - 1) (inBlock_iff.mpr (by omega)))
      refine (congrArg (· + numPages) hpage).trans_le ?_
      show idx + numPages ≤ h.allocator.totalPages
      omega
    · exact hi.block p hp
  · -- a page of an older allocation is not free
    by_contra hholds
    have htaken := hi.taken p hp i (eq_true_of_not_eq_false hholds)
    rw [hfree i ((hnew i).symm.trans hin)] at htaken
    cases htaken
  · rw [map_cons, sum_cons, hi.used, Nat.add_comm]
  · rw [hinner]
    obtain rfl | hp := mem_cons.mp hp
    · rw [(hnew i).symm.trans hin, Bool.not_true, Bool.and_false]
    · rw [hi.taken p hp i hin, Bool.false_and]
  · refine hi.free_lt i ?_
    rw [hinner] at hin
    exact (and_eq_true_iff.mp hin).1

theorem TakenBy.take (hps : 0 < pageSize) (ht : TakenBy B pageSize h)
    (hinner : ∀ j, B.free inner j = (B.free h.allocator.inner j && !inBlock idx numPages j)) :
    TakenBy B pageSize
      ⟨{ h.allocator with inner, usedPages := h.allocator.usedPages + numPages },
        (idx * pageSize + h.allocator.base, numPages) :: h.live⟩ := by
  intro i hlt hin
  rw [hinner, and_eq_false_iff] at hin
  obtain hin | hin := hin
  · obtain ⟨p, hp, hholds⟩ := ht i hlt hin
    exact ⟨p, mem_cons_of_mem _ hp, hholds⟩
  · refine ⟨_, mem_cons_self, ?_⟩
    show inBlock (h.allocator.pageOf pageSize (idx * pageSize + h.allocator.base)) numPages i
    rw [pageOf_mul hps]
    simpa using hin

section

variable (hB : B.Lawful)

include hB

theorem Inv.alloc (hps : 0 < pageSize) (hi : Inv B pageSize h) (numPages alignPow2 : ℕ) :
    Inv B pageSize (h.alloc B pageSize numPages alignPow2) := by
  unfold PageHeap.alloc
  obtain ⟨e, heq⟩ | ⟨idx, inner, -, hpos, heq, hfree, hinner⟩ :=
    h.allocator.allocPages_cases hB pageSize numPages alignPow2
  · rw [heq]
    exact hi
  · rw [heq]
    exact hi.take hps hpos hfree hinner

theorem TakenBy.alloc (hps : 0 < pageSize) (ht : TakenBy B pageSize h) (numPages alignPow2 : ℕ) :
    TakenBy B pageSize (h.alloc B pageSize numPages alignPow2) := by
  unfold PageHeap.alloc
  obtain ⟨e, heq⟩ | ⟨idx, inner, -, -, heq, -, hinner⟩ :=
    h.allocator.allocPages_cases hB pageSize numPages alignPow2
  · rw [heq]
    exact ht
  · rw [heq]
    exact ht.take hps hinner

section

variable (hi : Inv B pageSize h) (hlive : (pos, numPages) ∈ h.live)
  (hres : h.allocator.deallocPages B pageSize pos numPages = some allocator)

include hi hlive hres

/-- Giving back an allocation frees its first page. -/
theorem Inv.deallocPages_eq :
    ∃ inner, allocator = { h.allocator with inner, usedPages := h.allocator.usedPages - numPages } ∧
      ∀ j, B.free inner j =
        (B.free h.allocator.inner j || decide (j = h.allocator.pageOf pageSize pos)) := by
  obtain ⟨-, hres⟩ := ite_none_left_eq_some.mp hres
  obtain ⟨inner, hinner, rfl⟩ := map_eq_some_iff.mp hres
  have htaken := hi.taken _ hlive _ (h.holds_first (hi.block _ hlive).1)
  obtain ⟨inner', hinner', hfree⟩ := hB.dealloc _ _ htaken
  obtain rfl : inner = inner' := some.inj (hinner.symm.trans hinner')
  exact ⟨inner, rfl, hfree⟩

theorem Inv.dealloc : Inv B pageSize ⟨allocator, h.live.erase (pos, numPages)⟩ := by
  obtain ⟨inner, rfl, hfree⟩ := hi.deallocPages_eq hB hlive hres
  have hperm := perm_cons_erase hlive
  have hsymm : ∀ p q : ℕ × ℕ, (∀ i, h.holds pageSize p i → h.holds pageSize q i = false) →
      ∀ i, h.holds pageSize q i → h.holds pageSize p i = false := by
    intro p q hpq i hq
    by_contra hp
    rw [hpq i (eq_true_of_not_eq_false hp)] at hq
    cases hq
  obtain ⟨hout, hapart⟩ := pairwise_cons.mp ((hperm.pairwise_iff (hsymm _ _)).mp hi.apart)
  have hsub : ∀ p ∈ h.live.erase (pos, numPages), p ∈ h.live := fun p => mem_of_mem_erase
  refine ⟨fun p hp => hi.block p (hsub p hp), hapart, ?_, fun p hp i hin => ?_, fun i hin => ?_⟩
  · rw [hi.used, (hperm.map Prod.snd).sum_eq, map_cons, sum_cons, Nat.add_sub_cancel_left]
  · rw [hfree, or_eq_false_iff, decide_eq_false_iff_not]
    refine ⟨hi.taken p (hsub p hp) i hin, ?_⟩
    rintro rfl
    have hnot : h.holds pageSize p _ = false :=
      hout p hp _ (h.holds_first (hi.block _ hlive).1)
    exact absurd hin (ne_true_of_eq_false hnot)
  · rw [hfree, or_eq_true_iff, decide_eq_true_eq] at hin
    obtain hin | rfl := hin
    · exact hi.free_lt i hin
    · obtain ⟨hpos, -, hle⟩ := hi.block _ hlive
      exact (Nat.lt_add_of_pos_right hpos).trans_le hle

end

/-- A single page that is given back is free. -/
theorem TakenBy.dealloc (hi : Inv B pageSize h) (ht : TakenBy B pageSize h)
    (hlive : (pos, 1) ∈ h.live)
    (hres : h.allocator.deallocPages B pageSize pos 1 = some allocator) :
    TakenBy B pageSize ⟨allocator, h.live.erase (pos, 1)⟩ := by
  obtain ⟨inner, rfl, hfree⟩ := hi.deallocPages_eq hB hlive hres
  intro i hlt hin
  rw [hfree, or_eq_false_iff, decide_eq_false_iff_not] at hin
  obtain ⟨p, hp, hholds⟩ := ht i hlt hin.1
  obtain rfl | hp := mem_cons.mp ((perm_cons_erase hlive).mem_iff.mp hp)
  · obtain ⟨hle, hlt'⟩ := inBlock_iff.mp hholds
    exact absurd (Nat.le_antisymm (Nat.le_of_lt_succ hlt') hle) hin.2
  · exact ⟨p, hp, hholds⟩

theorem Inv.step (hps : 0 < pageSize) (hi : Inv B pageSize h) {e : PageEvent}
    (hstep : h.step B pageSize e = some h') : Inv B pageSize h' := by
  cases e with
  | alloc numPages alignPow2 => exact some.inj hstep ▸ hi.alloc hB hps numPages alignPow2
  | dealloc pos numPages =>
    obtain ⟨hlive, hstep⟩ := ite_none_right_eq_some.mp hstep
    obtain ⟨allocator, hres, rfl⟩ := map_eq_some_iff.mp hstep
    exact hi.dealloc hB hlive hres

theorem TakenBy.step (hps : 0 < pageSize) (hi : Inv B pageSize h) (ht : TakenBy B pageSize h)
    {e : PageEvent} (hok : h.SinglePages e) (hstep : h.step B pageSize e = some h') :
    TakenBy B pageSize h' := by
  cases e with
  | alloc numPages alignPow2 => exact some.inj hstep ▸ ht.alloc hB hps numPages alignPow2
  | dealloc pos numPages =>
    obtain rfl : numPages = 1 := hok
    obtain ⟨hlive, hstep⟩ := ite_none_right_eq_some.mp hstep
    obtain ⟨allocator, hres, rfl⟩ := map_eq_some_iff.mp hstep
    exact ht.dealloc hB hi hlive hres

end

end

/-! ## From pages to addresses -/

section

variable (hps : 0 < pageSize)

include hps

section

variable (hi : Inv B pageSize h)

include hi

theorem Inv.holds_iff (hp : p ∈ h.live) (i : ℕ) :
    h.holds pageSize p i ↔ h.Contains pageSize p i := by
  obtain ⟨-, hpos, -⟩ := hi.block p hp
  rw [holds, inBlock_iff, Contains]
  generalize h.allocator.pageOf pageSize p.1 = k at hpos
  rw [hpos, Nat.add_comm (k * pageSize), Nat.add_le_add_iff_left, Nat.mul_le_mul_right_iff hps,
    Nat.add_assoc, Nat.add_lt_add_iff_left, ← Nat.add_mul, Nat.mul_lt_mul_right hps]

/-- The first page of an allocation is in no other one. -/
theorem Inv.first_not_mem {q : ℕ × ℕ} (hp : p ∈ h.live) (hq : q ∈ h.live)
    (hpq : ∀ i, h.holds pageSize p i → h.holds pageSize q i = false) :
    ¬ (q.1 ≤ p.1 ∧ p.1 < q.1 + q.2 * pageSize) := by
  intro hin
  obtain ⟨hpos, heq, -⟩ := hi.block p hp
  have hfirst : h.holds pageSize q (h.allocator.pageOf pageSize p.1) := by
    rw [hi.holds_iff hps hq, Contains, Nat.add_comm, ← heq]
    exact hin
  exact absurd hfirst (ne_true_of_eq_false (hpq _ (h.holds_first hpos)))

theorem Inv.safe : Safe B pageSize h where
  apart := by
    refine hi.apart.imp_of_mem fun {p q} hp hq hpq => ?_
    have hqp : ∀ i, h.holds pageSize q i → h.holds pageSize p i = false := by
      intro i hqi
      by_contra hpi
      exact absurd hqi (ne_true_of_eq_false (hpq i (eq_true_of_not_eq_false hpi)))
    have hp' := hi.first_not_mem hps hp hq hpq
    have hq' := hi.first_not_mem hps hq hp hqp
    omega
  inside p hp := by
    obtain ⟨-, hpos, hle⟩ := hi.block p hp
    have hmul := Nat.mul_le_mul_right pageSize hle
    rw [Nat.add_mul] at hmul
    omega
  taken p hp i hin := hi.taken p hp i ((hi.holds_iff hps hp i).mpr hin)
  used := hi.used

theorem TakenBy.conserved (ht : TakenBy B pageSize h) : Conserved B pageSize h := by
  refine ⟨hi.safe hps, fun i hlt => ⟨fun hfree p hp hin => ?_, fun hnone => ?_⟩⟩
  · exact absurd hfree (ne_true_of_eq_false ((hi.safe hps).taken p hp i hin))
  · by_contra htaken
    obtain ⟨p, hp, hholds⟩ := ht i hlt (eq_false_of_not_eq_true htaken)
    exact hnone p hp ((hi.holds_iff hps hp i).mp hholds)

end

end

theorem inv_init (hB : B.Lawful) {start size : ℕ}
    (h : BitmapPageAllocator.init B pageSize start size = some a) :
    0 < pageSize ∧ Inv B pageSize ⟨a, []⟩ ∧ TakenBy B pageSize ⟨a, []⟩ := by
  obtain ⟨hnot, heq⟩ := ite_none_left_eq_some.mp h
  cases heq
  refine ⟨Nat.pos_of_ne_zero ?_, ⟨fun p hp => absurd hp not_mem_nil, .nil, rfl,
    fun p hp => absurd hp not_mem_nil, fun i hfree => ?_⟩, fun i hlt htaken => ?_⟩
  · rintro rfl
    exact hnot (.inl rfl)
  · rw [hB.insert] at hfree
    exact of_decide_eq_true hfree
  · rw [hB.insert] at htaken
    exact absurd hlt (of_decide_eq_false htaken)

end PageHeap

end

/-- In every history live allocations are apart, inside the region and not free, and the number of
pages in use is right. If only single pages are given back, the pages that are not free are those of
the live allocations. -/
theorem pages_conserved {β : Type} {B : BitAlloc β} (hB : B.Lawful) {pageSize start size : ℕ}
    {a : BitmapPageAllocator β} (ha : BitmapPageAllocator.init B pageSize start size = some a) :
    (∀ h, Reach (PageHeap.step B pageSize) anyStep ⟨a, []⟩ h → h.Safe B pageSize) ∧
      ∀ h, Reach (PageHeap.step B pageSize) PageHeap.SinglePages ⟨a, []⟩ h →
        h.Conserved B pageSize := by
  obtain ⟨hps, hinv, htaken⟩ := PageHeap.inv_init hB ha
  refine ⟨fun h hreach => ?_, fun h hreach => ?_⟩
  · have hi : h.Inv B pageSize :=
      hreach.invariant (PageHeap.Inv B pageSize) hinv fun _ _ _ hi _ hstep => hi.step hB hps hstep
    exact hi.safe hps
  · have hi : h.Inv B pageSize ∧ h.TakenBy B pageSize :=
      hreach.invariant (fun h => h.Inv B pageSize ∧ h.TakenBy B pageSize) ⟨hinv, htaken⟩
        fun _ _ _ hi hok hstep =>
          ⟨hi.1.step hB hps hstep, hi.2.step hB hps hi.1 hok hstep⟩
    exact hi.2.conserved hps hi.1

/-! ## A bitmap -/

/-- A bitmap that finds the first fit, as the list of the bits that are free. -/
def firstFit : BitAlloc (List ℕ) where
  free b i := i ∈ b
  insert n := List.range n
  alloc b := b.head?.map fun i => (i, b.filter (!inBlock i 1 ·))
  allocContiguous b n alignLog2 :=
    (b.find? fun i => 2 ^ alignLog2 ∣ i ∧ ∀ k < n, i + k ∈ b).map fun i =>
      (i, b.filter (!inBlock i n ·))
  dealloc b i := if i ∈ b then none else some (i :: b)

theorem firstFit_lawful : firstFit.Lawful where
  insert n j := by simp [firstFit]
  alloc b i b' h := by
    obtain ⟨i, hhead, heq⟩ := map_eq_some_iff.mp h
    cases heq
    exact ⟨decide_eq_true (mem_of_mem_head? hhead), fun j => by simp [firstFit]⟩
  allocContiguous b n alignLog2 i b' h := by
    obtain ⟨i, hfind, heq⟩ := map_eq_some_iff.mp h
    cases heq
    have hfound := find?_some hfind
    obtain ⟨hdvd, hall⟩ := of_decide_eq_true hfound
    refine ⟨hdvd, fun j hj => decide_eq_true ?_, fun j => by simp [firstFit]⟩
    rw [inBlock_iff] at hj
    have hmem := hall (j - i) (by omega)
    rwa [Nat.add_sub_cancel' hj.1] at hmem
  dealloc b i h := by
    refine ⟨i :: b, if_neg (of_decide_eq_false h), fun j => ?_⟩
    simp [firstFit, Bool.or_comm]

/-- A region of eight pages. -/
def sampleRegion : BitmapPageAllocator (List ℕ) := ⟨0x1000, 8, 0, List.range 8⟩

/-- Two pages, one page that is given back, and one that is not. -/
theorem pages_conserved_sample :
    ∃ h, Reach (PageHeap.step firstFit 0x1000) PageHeap.SinglePages ⟨sampleRegion, []⟩ h ∧
      h.live = [(0x3000, 1), (0x1000, 2)] ∧ h.Conserved firstFit 0x1000 := by
  have hinit : BitmapPageAllocator.init firstFit 0x1000 0x800 0x9000 = some sampleRegion := by
    decide +kernel
  have hrun : (run (PageHeap.step firstFit 0x1000) PageHeap.SinglePages ⟨sampleRegion, []⟩
      [.alloc 2 0x1000, .alloc 1 0x1000, .dealloc 0x3000 1, .alloc 1 0x1000]).map PageHeap.live =
        some [(0x3000, 1), (0x1000, 2)] := by decide +kernel
  obtain ⟨h, hh, hlive⟩ := exists_of_run hrun
  exact ⟨h, hh, hlive, (pages_conserved firstFit_lawful hinit).2 h hh⟩

/-- Two pages are allocated and given back. No page is in use, but the second one is not free. -/
theorem pages_leak :
    ∃ h, Reach (PageHeap.step firstFit 0x1000) anyStep ⟨sampleRegion, []⟩ h ∧ h.live = [] ∧
      h.allocator.usedPages = 0 ∧ firstFit.free h.allocator.inner 1 = false ∧
      ¬ h.Conserved firstFit 0x1000 := by
  have hrun : (run (PageHeap.step firstFit 0x1000) anyStep ⟨sampleRegion, []⟩
      [.alloc 2 0x1000, .dealloc 0x1000 2]).map
      (fun h => (h.live, h.allocator.usedPages, h.allocator.totalPages, h.allocator.inner)) =
        some ([], 0, 8, [0, 2, 3, 4, 5, 6, 7]) := by decide +kernel
  obtain ⟨h, hh, heq⟩ := exists_of_run hrun
  obtain ⟨hlive, hused, htotal, hinner⟩ := by simpa only [Prod.mk.injEq] using heq
  have htaken : firstFit.free h.allocator.inner 1 = false := by rw [hinner]; decide
  refine ⟨h, hh, hlive, hused, htaken, fun hc => ?_⟩
  have hfree := (hc.free_iff 1 (by rw [htotal]; decide)).mpr (by simp [hlive])
  exact absurd hfree (ne_true_of_eq_false htaken)

end HvisorRux.Rux.Alloc
