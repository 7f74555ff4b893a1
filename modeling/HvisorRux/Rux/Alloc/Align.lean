import HvisorRux.Rux.Alloc.Pages
import HvisorRux.Rux.Alloc.SlabSafety

/-!
# Alignment

The page allocator aligns the index of the first page, so that the address is aligned only if the
region begins at a multiple of the alignment, and it does not look at the alignment for one page.
The heap aligns blocks to the size of their slab, and a small block with an alignment above 4096 is
whichever block the slab of 4096 bytes has next.
-/

namespace HvisorRux.Rux.Alloc

open Common List Option OrdMap Heap

/-- The alignment that the buddy allocator is asked for. -/
def buddyAlign (layout : Layout) : ℕ :=
  match layoutToAllocator layout with
  | .slab _ => 4096
  | .buddyAllocator => layout.align

/-- The buddy allocator hands out blocks whose size is a power of two, not less than the alignment,
at a multiple of the size. -/
def grantsAligned : HeapEvent → Bool
  | .allocate layout call => call.grant.all fun block =>
    isPowerOfTwo block.2 && buddyAlign layout ≤ block.2 && block.2 ∣ block.1
  | _ => true

/-- The blocks that are out are aligned. -/
def OutAligned (buddy : Buddy) : Prop := ∀ b ∈ buddy.out, isPowerOfTwo b.2 = true ∧ b.2 ∣ b.1

section

variable {h h' : Heap} {c : SlabClass} {a ptr : ℕ} {layout : Layout} {call : BuddyCall}
  {answer : Option ℕ} {s s' : HeapState} {e : HeapEvent} {mem : Links} {start size : ℕ}

theorem buddy_popBlock (hpop : h.popBlock c = some (h', a)) : h'.buddy = h.buddy := by
  obtain ⟨r, -, heq⟩ := map_eq_some_iff.mp hpop
  cases heq
  rfl

theorem buddy_growSlab (hgrow : h.growSlab c ptr = some h') : h'.buddy = h.buddy := by
  obtain ⟨r, -, heq⟩ := map_eq_some_iff.mp hgrow
  cases heq
  rfl

section

variable (hout : OutAligned h.buddy) (hok : grantsAligned (.allocate layout call) = true)

include hout hok

theorem OutAligned.buddyAlloc : OutAligned (h.buddyAlloc call).1.buddy := by
  unfold Heap.buddyAlloc
  split
  · exact hout
  rename_i addr size hgrant
  intro b hb
  obtain rfl | ⟨hb, -⟩ := mem_insert.mp hb
  · simp only [grantsAligned, hgrant, all_some, Bool.and_eq_true, decide_eq_true_eq] at hok
    exact ⟨hok.1.1, hok.2⟩
  · exact hout b hb

theorem OutAligned.allocate
    (halloc : h.allocate layout call = some (h', answer)) : OutAligned h'.buddy := by
  have hgranted := hout.buddyAlloc hok
  unfold Heap.allocate at halloc
  split at halloc
  case h_2 => rwa [some.inj halloc] at hgranted
  case h_1 c _ =>
    unfold slabAllocate at halloc
    split at halloc
    · next hpop =>
      cases halloc
      rwa [buddy_popBlock hpop]
    split at halloc
    · next heq =>
      cases halloc
      rwa [heq] at hgranted
    · next heq =>
      obtain ⟨h₁, hgrow, hrest⟩ := bind_eq_some_iff.mp halloc
      obtain ⟨r, hpop, hr⟩ := bind_eq_some_iff.mp hrest
      cases hr
      rwa [heq, ← buddy_growSlab hgrow, ← buddy_popBlock hpop] at hgranted

end

theorem OutAligned.step (hout : OutAligned s.heap.buddy) (hok : grantsAligned e = true)
    (hs : s.step e = some s') : OutAligned s'.heap.buddy := by
  cases e with
  | addMemory start size other =>
    obtain ⟨heap, hadd, rfl⟩ := map_eq_some_iff.mp hs
    unfold addMemory at hadd
    split_ifs at hadd
    cases hadd
    exact hout
  | allocate layout call =>
    obtain ⟨⟨heap, answer⟩, halloc, rfl⟩ := map_eq_some_iff.mp hs
    cases answer with
    | none | some addr => exact hout.allocate hok halloc
  | deallocate ptr other =>
    obtain ⟨block, -, rfl⟩ := map_eq_some_iff.mp hs
    unfold deallocate
    split
    · exact hout
    · exact fun b hb => hout b (mem_erase.mp hb).1
  | store addr value =>
    rw [HeapState.step] at hs
    split_ifs at hs
    cases hs
    exact hout

end

def sampleCall : BuddyCall := ⟨some (0x40000, 0x40000), fun _ => none⟩

end HvisorRux.Rux.Alloc
