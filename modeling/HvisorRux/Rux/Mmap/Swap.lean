import HvisorRux.Common.Iterate
import HvisorRux.Rux.Mmap.Pages

/-!
# The slots of the swap file

Slots move between the stack of free ones and `SWAPED_MAP`: a page that loses its memory takes one,
and gives it back when it is brought in or released. `Books` says that each slot is in one place and
that no page has both memory and a slot. `sys_mremap` breaks it in two ways: a copy of a page in the
swap file takes a slot and records the slot of the original, so that one slot is lost and the other
belongs to two pages; and pages are moved on top of others, since the whole of what was collected is
moved and not the range that was asked for. `ShiftOk` excludes the two.
-/

namespace HvisorRux.Rux

open Common List Option OrdMap OrdMap Prod

section

variable {mem : OrdMap ℕ (Option PageInfo)} {swaped : OrdMap ℕ ℕ} {free : List ℕ}
  {k t off : ℕ} {info : Option PageInfo}

/-- Every slot is free or belongs to one page, and a page with a slot has no memory. -/
structure Books (mem : OrdMap ℕ (Option PageInfo)) (swaped : OrdMap ℕ ℕ) (free : List ℕ) :
    Prop where
  slots : (free ++ swaped.entries.map snd).Perm (swapSlots (swapMax / pageSize4K))
  apart : ∀ k ∈ mem.keys, k ∉ swaped.keys
  mem_lt : ∀ k ∈ mem.keys, k < 2 ^ 64
  swaped_lt : ∀ k ∈ swaped.keys, k < 2 ^ 64

namespace Books

/-- A page loses its memory. -/
theorem of_mem_subset (h : Books mem swaped free) {mem' : OrdMap ℕ (Option PageInfo)}
    (hsub : ∀ k ∈ mem'.keys, k ∈ mem.keys) : Books mem' swaped free where
  __ := h
  apart k hk := h.apart k (hsub k hk)
  mem_lt k hk := h.mem_lt k (hsub k hk)

/-- A page loses its memory and gets a slot. -/
theorem swapOut (h : Books mem swaped (off :: free)) (hk : k ∈ mem.keys) :
    Books (mem.erase k) (swaped.insert k off) free where
  slots := by
    have hperm := (entries_insert_perm (a := off) (h.apart k hk)).map snd
    exact ((hperm.append_left free).trans perm_middle).trans h.slots
  apart k' hk' := by
    obtain ⟨hk', hne⟩ := mem_keys_erase.mp hk'
    exact fun hins => (mem_keys_insert.mp hins).elim hne (h.apart k' hk')
  mem_lt k' hk' := h.mem_lt k' (mem_keys_erase.mp hk').1
  swaped_lt k' hk' := by
    obtain rfl | hk' := mem_keys_insert.mp hk'
    · exact h.mem_lt k' hk
    · exact h.swaped_lt k' hk'

section

variable (h : Books mem swaped free)

include h

/-- A page gives its slot back. -/
theorem swapIn (hk : (k, off) ∈ swaped) : Books mem (swaped.erase k) (off :: free) where
  slots := by
    have hperm := (entries_erase_perm hk).map snd
    exact (perm_middle.symm.trans (hperm.symm.append_left free)).trans h.slots
  apart k' hk' := fun herase => h.apart k' hk' (mem_keys_erase.mp herase).1
  mem_lt := h.mem_lt
  swaped_lt k' hk' := h.swaped_lt k' (mem_keys_erase.mp hk').1

/-- A page gets memory. -/
theorem insertMem (hk : k ∉ swaped.keys) (hlt : k < 2 ^ 64) :
    Books (mem.insert k info) swaped free where
  __ := h
  apart k' hk' := by
    obtain rfl | hk' := mem_keys_insert.mp hk'
    · exact hk
    · exact h.apart k' hk'
  mem_lt k' hk' := by
    obtain rfl | hk' := mem_keys_insert.mp hk'
    · exact hlt
    · exact h.mem_lt k' hk'

/-- A slot goes over to another page. -/
theorem moveSlot (hk : (k, off) ∈ swaped) (hmem : t ∉ mem.keys) (hswaped : t ∉ swaped.keys)
    (hlt : t < 2 ^ 64) :
    Books mem ((swaped.erase k).insert t off) free where
  slots := by
    have herase := (entries_erase_perm hk).map snd
    have hnot : t ∉ (swaped.erase k).keys := fun ht => hswaped (mem_keys_erase.mp ht).1
    have hinsert := (entries_insert_perm (a := off) hnot).map snd
    exact ((hinsert.trans herase.symm).append_left free).trans h.slots
  apart k' hk' := by
    intro hins
    obtain rfl | hins := mem_keys_insert.mp hins
    · exact hmem hk'
    · exact h.apart k' hk' (mem_keys_erase.mp hins).1
  mem_lt := h.mem_lt
  swaped_lt k' hk' := by
    obtain rfl | hk' := mem_keys_insert.mp hk'
    · exact hlt
    · exact h.swaped_lt k' (mem_keys_erase.mp hk').1

/-- The slots of a range are given back. -/
theorem releaseSlots (start end_ : ℕ) :
    Books mem (swaped.eraseAll ((swaped.range start end_).map fst))
      (((swaped.range start end_).map snd).reverse ++ free) where
  slots := by
    have hperm := (entries_eraseAll_range_perm swaped start end_).map snd
    rw [map_append] at hperm
    refine List.Perm.trans ?_ ((hperm.symm.append_left free).trans h.slots)
    rw [← append_assoc]
    exact (perm_append_comm.trans ((reverse_perm _).append_left free)).append_right _
  apart k hk hkeys := by
    obtain ⟨off, hoff⟩ := mem_keys.mp hkeys
    exact h.apart k hk (mem_keys_of_mem (mem_eraseAll.mp hoff).1)
  mem_lt := h.mem_lt
  swaped_lt k hk := by
    obtain ⟨off, hoff⟩ := mem_keys.mp hk
    exact h.swaped_lt k (mem_keys_of_mem (mem_eraseAll.mp hoff).1)

end

end Books

end

namespace MmapState

variable {o : Overflow} {s s' : MmapState} {k t off page vaddr : ℕ} {info : Option PageInfo}
  {bytes bytes' : ByteMem}

/-- The books are in order. -/
def SwapInv (s : MmapState) : Prop := Books s.mem s.swaped s.free

/-- The tables of pages and slots are the same. -/
def SameBooks (s s' : MmapState) : Prop :=
  s'.mem = s.mem ∧ s'.swaped = s.swaped ∧ s'.free = s.free

theorem SameBooks.swapInv (hsame : SameBooks s s') (h : s.SwapInv) : s'.SwapInv := by
  obtain ⟨hmem, hswaped, hfree⟩ := hsame
  rw [SwapInv, hmem, hswaped, hfree]
  exact h

theorem SameBooks.trans {s'' : MmapState} (h : SameBooks s s') (h' : SameBooks s' s'') :
    SameBooks s s'' :=
  ⟨h'.1.trans h.1, h'.2.1.trans h.2.1, h'.2.2.trans h.2.2⟩

/-! ## Page faults -/

theorem sameBooks_writeBack (h : s.writeBack vaddr info = some s') : SameBooks s s' := by
  cases info with
  | none => exact some.inj h ▸ ⟨rfl, rfl, rfl⟩
  | some info =>
    obtain ⟨bytes, -, hwrite⟩ := bind_eq_some_iff.mp h
    cases (ite_none_right_eq_some.mp hwrite).2
    exact ⟨rfl, rfl, rfl⟩

theorem sameBooks_unmap (h : s.unmap vaddr = some (s', bytes)) : SameBooks s s' := by
  obtain ⟨pte, -, heq⟩ := map_eq_some_iff.mp h
  cases heq
  exact ⟨rfl, rfl, rfl⟩

/-- Bringing a page out of memory needs no slot, or takes the one on top of the stack. -/
theorem evict_cases (h : s.evict vaddr info = some (s', bytes)) :
    SameBooks s s' ∨ ∃ off, s.free = off :: s'.free ∧ s'.mem = s.mem ∧
      s'.swaped = s.swaped.insert vaddr off := by
  cases info with
  | some info =>
    obtain ⟨s₁, hback, hunmap⟩ := bind_eq_some_iff.mp h
    exact .inl ((sameBooks_writeBack hback).trans (sameBooks_unmap hunmap))
  | none =>
    rw [evict] at h
    split at h
    · cases h
    · next off free hfree =>
      obtain ⟨loaded, -, hunmap⟩ := bind_eq_some_iff.mp h
      obtain ⟨hmem, hswaped, hfree'⟩ := sameBooks_unmap hunmap
      exact .inr ⟨off, by rw [hfree, hfree'], hmem, hswaped⟩

variable {alloc : Option ByteMem} {p : ℕ × Option PageInfo} {cause : PageFaultCause}
  {writeback : Bool}

/-- Memory for a page: the books stay in order, and only a page that had memory gets a slot. -/
theorem SwapInv.preload (h : s.SwapInv) (hpre : s.preloadPageWithSwap alloc = some (s', bytes)) :
    s'.SwapInv ∧ (∀ k ∈ s'.mem.keys, k ∈ s.mem.keys) ∧
      ∀ k ∈ s'.swaped.keys, k ∈ s.swaped.keys ∨ k ∈ s.mem.keys := by
  cases alloc with
  | some fresh =>
    cases hpre
    exact ⟨h, fun k hk => hk, fun k hk => .inl hk⟩
  | none =>
    rw [preloadPageWithSwap] at hpre
    split at hpre
    · cases hpre
    rename_i vaddr info hhead
    have hvaddr : vaddr ∈ s.mem.keys :=
      mem_keys_of_mem (m := s.mem) (mem_of_mem_head? hhead)
    have hsub : ∀ k ∈ (s.mem.erase vaddr).keys, k ∈ s.mem.keys :=
      fun k hk => (mem_keys_erase.mp hk).1
    obtain hsame | ⟨off, hfree, hmem, hswaped⟩ := evict_cases hpre
    · refine ⟨hsame.swapInv (h.of_mem_subset hsub), ?_, ?_⟩
      · rw [hsame.1]
        exact hsub
      · rw [hsame.2.1]
        exact fun k hk => .inl hk
    · refine ⟨?_, ?_, ?_⟩
      · rw [SwapInv, hmem, hswaped]
        unfold SwapInv at h
        rw [show s.free = off :: s'.free from hfree] at h
        exact h.swapOut hvaddr
      · rw [hmem]
        exact hsub
      · intro k hk
        rw [hswaped] at hk
        exact (mem_keys_insert.mp hk).elim (fun heq => .inr (heq ▸ hvaddr)) .inl

/-- A page that is filled has no slot. -/
theorem SwapInv.fill {vma : Vma} {size : ℕ} (h : s.SwapInv)
    (hfill : s.fill o vma page size bytes = some (s', bytes')) :
    s'.SwapInv ∧ page ∉ s'.swaped.keys := by
  unfold MmapState.fill at hfill
  split at hfill
  · next off hoff =>
    cases hfill
    refine ⟨h.swapIn (get?_eq_some.mp hoff), fun hkey => ?_⟩
    exact (mem_keys_erase.mp hkey).2 rfl
  rename_i hnone
  have hpage := get?_eq_none.mp hnone
  split at hfill
  · obtain ⟨x, -, hfill⟩ := bind_eq_some_iff.mp hfill
    obtain ⟨off, -, hfill⟩ := bind_eq_some_iff.mp hfill
    cases hfill
    exact ⟨h, hpage⟩
  · cases hfill
    exact ⟨h, hpage⟩

theorem mapPage_eq {pte : Pte} (h : s.mapPage vaddr pte info = some s') :
    s'.mem = s.mem.insert vaddr info ∧ s'.swaped = s.swaped ∧ s'.free = s.free := by
  obtain ⟨-, heq⟩ := ite_none_left_eq_some.mp h
  cases heq
  exact ⟨rfl, rfl, rfl⟩

theorem SwapInv.mapPage {pte : Pte} (h : s.SwapInv) (hk : vaddr ∉ s.swaped.keys)
    (hlt : vaddr < 2 ^ 64) (hmap : s.mapPage vaddr pte info = some s') : s'.SwapInv := by
  obtain ⟨hmem, hswaped, hfree⟩ := mapPage_eq hmap
  rw [SwapInv, hmem, hswaped, hfree]
  exact h.insertMem hk hlt

theorem SwapInv.bringIn {vma : Vma} (h : s.SwapInv) (hlt : page < 2 ^ 64)
    (hin : s.bringIn o vma page alloc = some s') : s'.SwapInv := by
  obtain ⟨⟨s₁, bytes₁⟩, hpre, hin⟩ := bind_eq_some_iff.mp hin
  obtain ⟨⟨s₂, bytes₂⟩, hfill, hin⟩ := bind_eq_some_iff.mp hin
  obtain ⟨info, -, hmap⟩ := bind_eq_some_iff.mp hin
  obtain ⟨h₂, hpage⟩ := (h.preload hpre).1.fill hfill
  exact h₂.mapPage hpage hlt hmap

/-- A page fault is refused, or the address is in an area, and its page is there or is brought
in. -/
theorem handlePageFault_cases {answer : Bool}
    (h : s.handlePageFault o vaddr cause alloc = some (s', answer)) :
    (s' = s ∧ answer = false) ∨ ∃ p, s.vmas.floor? vaddr = some p ∧ vaddr < p.2.endAddr ∧
      ((s.pteAt vaddr).isSome ∧ s' = s ∨
        s.pteAt vaddr = none ∧ s.bringIn o p.2 (alignDown4K vaddr) alloc = some s') := by
  have hrefused : some (s, false) = some (s', answer) → s' = s ∧ answer = false := by
    rintro ⟨⟩
    exact ⟨rfl, rfl⟩
  unfold MmapState.handlePageFault at h
  split at h
  · exact .inl (hrefused h)
  rename_i key vma hfloor
  split at h
  · exact .inl (hrefused h)
  rename_i hend
  split at h
  · exact .inl (hrefused h)
  refine .inr ⟨(key, vma), hfloor, not_le.mp hend, ?_⟩
  split at h
  · next hmapped => exact .inl ⟨hmapped, (Prod.mk.inj (some.inj h)).1.symm⟩
  · next hunmapped =>
    obtain ⟨s₁, hin, heq⟩ := map_eq_some_iff.mp h
    cases heq
    exact .inr ⟨not_isSome_iff_eq_none.mp hunmapped, hin⟩

theorem SwapInv.handlePageFault {answer : Bool} (h : s.SwapInv)
    (hlt : vaddr < 2 ^ 64) (hfault : s.handlePageFault o vaddr cause alloc = some (s', answer)) :
    s'.SwapInv := by
  obtain ⟨rfl, -⟩ | ⟨p, -, -, ⟨-, rfl⟩ | ⟨-, hin⟩⟩ := handlePageFault_cases hfault
  · exact h
  · exact h
  · exact h.bringIn ((Nat.div_mul_le_self ..).trans_lt hlt) hin

/-! ## Releasing and protecting pages -/

theorem sameBooks_unmapPage (h : s.unmapPage writeback p = some s') : SameBooks s s' := by
  obtain ⟨s₁, hback, hunmap⟩ := bind_eq_some_iff.mp h
  obtain ⟨⟨s₂, bytes⟩, hunmap₂, rfl⟩ := map_eq_some_iff.mp hunmap
  have hfirst : SameBooks s s₁ := by
    cases writeback with
    | true => exact sameBooks_writeBack hback
    | false => exact some.inj hback ▸ ⟨rfl, rfl, rfl⟩
  exact hfirst.trans (sameBooks_unmap hunmap₂)

theorem SwapInv.release {start end_ : ℕ} (h : s.SwapInv)
    (hrel : (s.releasePagesMapped start end_ writeback).map (·.releasePagesSwaped start end_) =
      some s') : s'.SwapInv := by
  obtain ⟨s₁, hmapped, rfl⟩ := map_eq_some_iff.mp hrel
  obtain ⟨-, hmapped⟩ := ite_none_left_eq_some.mp hmapped
  obtain ⟨s₂, hloop, hmapped⟩ := bind_eq_some_iff.mp hmapped
  cases hmapped
  have hsame : SameBooks s s₂ :=
    foldlM_invariant (SameBooks s) ⟨rfl, rfl, rfl⟩
      (fun _ _ _ _ hs hbody => hs.trans (sameBooks_unmapPage hbody)) hloop
  have hmem : Books (s₂.mem.eraseAll ((s.mem.range start end_).map fst)) s₂.swaped
      s₂.free := by
    refine (hsame.swapInv h).of_mem_subset fun k hk => ?_
    obtain ⟨info, hinfo⟩ := mem_keys.mp hk
    exact mem_keys_of_mem (mem_eraseAll.mp hinfo).1
  exact hmem.releaseSlots start end_

theorem sameBooks_protectPage (flags : Paging.MappingFlags) (s : MmapState) (vaddr : ℕ) :
    SameBooks s (s.protectPage flags vaddr) := by
  unfold protectPage
  split <;> exact ⟨rfl, rfl, rfl⟩

theorem SwapInv.protectPages {start end_ : ℕ} {prot : UInt32} (h : s.SwapInv)
    (hprot : s.protectPages start end_ prot = some s') : s'.SwapInv := by
  obtain ⟨-, heq⟩ := ite_none_left_eq_some.mp hprot
  cases heq
  refine SameBooks.swapInv ?_ h
  refine List.foldlRecOn (motive := SameBooks s) _ _ ⟨rfl, rfl, rfl⟩ fun s' hs' k _ => ?_
  exact hs'.trans (sameBooks_protectPage _ s' k)

/-! ## Moving and copying pages -/

/-- No page is where one of these pages is to be moved. -/
def Clear (o : Overflow) (vmaOffset : ℕ) (pages : List ℕ) (s : MmapState) : Prop :=
  ∀ k ∈ pages, ∀ t ∈ o.add 64 k vmaOffset, t ∉ s.mem.keys ∧ t ∉ s.swaped.keys
deriving Decidable

/-- The pages that are still to be moved. -/
structure ToMove (o : Overflow) (vmaOffset : ℕ) (pages : List ℕ) (s : MmapState) : Prop where
  clear : Clear o vmaOffset pages s
  nodup : pages.Nodup
  lt : ∀ k ∈ pages, k < 2 ^ 64

section

variable {vmaOffset : ℕ} {ks : List ℕ}

/-- The other pages can still be moved when one has come to `t`. -/
theorem ToMove.tail (h : ToMove o vmaOffset (k :: ks) s) (ht : o.add 64 k vmaOffset = some t)
    (hmem : ∀ k' ∈ s'.mem.keys, k' ∈ s.mem.keys ∨ k' = t)
    (hswaped : ∀ k' ∈ s'.swaped.keys, k' ∈ s.swaped.keys ∨ k' ∈ s.mem.keys ∨ k' = t) :
    ToMove o vmaOffset ks s' := by
  obtain ⟨hnot, hnodup⟩ := nodup_cons.mp h.nodup
  refine ⟨fun k' hk' t' ht' => ?_, hnodup, fun k' hk' => h.lt k' (mem_cons_of_mem _ hk')⟩
  obtain ⟨hmem', hswaped'⟩ := h.clear k' (mem_cons_of_mem _ hk') t' ht'
  have hne : t' ≠ t := by
    rintro rfl
    have heq := Overflow.add_left_inj (h.lt k mem_cons_self)
      (h.lt k' (mem_cons_of_mem _ hk')) ht ht'
    exact hnot (heq ▸ hk')
  refine ⟨fun hkey => (hmem t' hkey).elim hmem' hne, fun hkey => ?_⟩
  exact (hswaped t' hkey).elim hswaped' fun h' => h'.elim hmem' hne

theorem SwapInv.shiftPage {copy : Bool} {alloc : ℕ → Option ByteMem}
    (h : s.SwapInv) (hmove : ToMove o vmaOffset (p.1 :: ks) s)
    (hshift : s.shiftPage o vmaOffset copy alloc p = some s') :
    s'.SwapInv ∧ ToMove o vmaOffset ks s' ∧ (copy = false → s'.swaped = s.swaped) := by
  obtain ⟨pte, -, hshift⟩ := bind_eq_some_iff.mp hshift
  obtain ⟨target, htarget, hshift⟩ := bind_eq_some_iff.mp hshift
  obtain ⟨hmem, hswaped⟩ := hmove.clear p.1 mem_cons_self target htarget
  have hlt : target < 2 ^ 64 := Overflow.lt_of_fit htarget
  cases copy with
  | true =>
    obtain ⟨⟨s₁, bytes₁⟩, hpre, hshift⟩ := bind_eq_some_iff.mp hshift
    obtain ⟨bytes₂, -, hmap⟩ := bind_eq_some_iff.mp hshift
    obtain ⟨h₁, hsub, hsub'⟩ := h.preload hpre
    have hfree : target ∉ s₁.swaped.keys := fun hkey => (hsub' _ hkey).elim hswaped hmem
    obtain ⟨hmem₂, hswaped₂, -⟩ := mapPage_eq hmap
    refine ⟨h₁.mapPage hfree hlt hmap, hmove.tail htarget ?_ ?_, fun hcopy => (by cases hcopy)⟩
    · rw [hmem₂]
      exact fun k' hk' => (mem_keys_insert.mp hk').symm.imp_left (hsub k')
    · rw [hswaped₂]
      exact fun k' hk' => (hsub' k' hk').imp_right .inl
  | false =>
    obtain ⟨⟨s₁, bytes₁⟩, hunmap, hmap⟩ := bind_eq_some_iff.mp hshift
    have hsub : ∀ k ∈ (s.mem.erase p.1).keys, k ∈ s.mem.keys := fun k hk => (mem_keys_erase.mp hk).1
    have hsame := sameBooks_unmap hunmap
    have h₁ : s₁.SwapInv := hsame.swapInv (h.of_mem_subset hsub)
    obtain ⟨hmem₂, hswaped₂, -⟩ := mapPage_eq hmap
    have hswaped₁ : s₁.swaped = s.swaped := hsame.2.1
    refine ⟨h₁.mapPage (hswaped₁ ▸ hswaped) hlt hmap, hmove.tail htarget ?_ ?_,
      fun _ => hswaped₂.trans hswaped₁⟩
    · rw [hmem₂, hsame.1]
      exact fun k' hk' => (mem_keys_insert.mp hk').symm.imp_left (hsub k')
    · rw [hswaped₂, hswaped₁]
      exact fun k' hk' => .inl hk'

theorem SwapInv.shiftSlot {p : ℕ × ℕ} (h : s.SwapInv) (hmove : ToMove o vmaOffset (p.1 :: ks) s)
    (hp : p ∈ s.swaped) (hshift : s.shiftSlot o vmaOffset false p = some s') :
    s'.SwapInv ∧ ToMove o vmaOffset ks s' ∧ ∀ q ∈ s.swaped, q.1 ≠ p.1 → q ∈ s'.swaped := by
  obtain ⟨target, htarget, hshift⟩ := bind_eq_some_iff.mp hshift
  cases hshift
  obtain ⟨hmem, hswaped⟩ := hmove.clear p.1 mem_cons_self target htarget
  refine ⟨h.moveSlot hp hmem hswaped (Overflow.lt_of_fit htarget), hmove.tail htarget ?_ ?_, ?_⟩
  · exact fun k' hk' => .inl hk'
  · intro k' hk'
    obtain rfl | hk' := mem_keys_insert.mp hk'
    · exact .inr (.inr rfl)
    · exact .inl (mem_keys_erase.mp hk').1
  · intro q hq hne
    refine mem_insert.mpr (.inr ⟨mem_erase.mpr ⟨hq, hne⟩, fun heq => ?_⟩)
    exact hswaped (heq ▸ mem_keys_of_mem hq)

end

/-- What a move or a copy needs: its targets hold no pages, and a copy comes to no page that is in
the swap file. The second loop comes to these, and memory for the copies of the first one may have
been made by putting pages of the range there. -/
def ShiftOk (o : Overflow) (alloc : ℕ → Option ByteMem) (s : MmapState) : PageOp → Prop
  | .shift start end_ vmaOffset copy =>
    Clear o vmaOffset
      ((s.mem.range start end_).map fst ++ (s.swaped.range start end_).map fst) s ∧
    (copy = true → ∀ s' ∈ s.shiftMapped o start end_ vmaOffset copy alloc,
      s'.swaped.range start end_ = [])
  | _ => True

instance (o : Overflow) (alloc : ℕ → Option ByteMem) (s : MmapState) (op : PageOp) :
    Decidable (ShiftOk o alloc s op) :=
  match op with
  | .release .. | .protect .. => isTrue trivial
  | .shift .. => inferInstanceAs (Decidable (_ ∧ (_ → ∀ s' ∈ (_ : Option MmapState), _)))

variable {alloc : ℕ → Option ByteMem}

theorem SwapInv.shift {start end_ vmaOffset : ℕ} {copy : Bool} (h : s.SwapInv)
    (hok : ShiftOk o alloc s (.shift start end_ vmaOffset copy))
    (hshift : s.pageOp o alloc (.shift start end_ vmaOffset copy) = some s') : s'.SwapInv := by
  obtain ⟨hclear, hcopy⟩ := hok
  obtain ⟨s₁, hmapped, hswaped⟩ := bind_eq_some_iff.mp hshift
  have hnodup : ((s.mem.range start end_).map fst ++
      (s.swaped.range start end_).map fst).Nodup := by
    refine range_nodup.append range_nodup fun k hk hk' => ?_
    obtain ⟨p, hp, rfl⟩ := List.mem_map.mp hk
    obtain ⟨q, hq, hqp⟩ := List.mem_map.mp hk'
    have hkey := mem_keys_of_mem (mem_range.mp hq).1
    exact h.apart p.1 (mem_keys_of_mem (mem_range.mp hp).1) (hqp ▸ hkey)
  have hlt : ∀ k ∈ (s.mem.range start end_).map fst ++
      (s.swaped.range start end_).map fst, k < 2 ^ 64 := by
    intro k hk
    obtain hk | hk := mem_append.mp hk
    · obtain ⟨p, hp, rfl⟩ := List.mem_map.mp hk
      exact h.mem_lt p.1 (mem_keys_of_mem (mem_range.mp hp).1)
    · obtain ⟨p, hp, rfl⟩ := List.mem_map.mp hk
      exact h.swaped_lt p.1 (mem_keys_of_mem (mem_range.mp hp).1)
  -- the first loop: the pages with memory, with those in the swap file still to come
  obtain ⟨h₁, hmove₁, hsame⟩ := by
    refine foldlM_rest (fun rest s₁ => s₁.SwapInv ∧
      ToMove o vmaOffset (rest.map fst ++ (s.swaped.range start end_).map fst) s₁ ∧
      (copy = false → s₁.swaped = s.swaped)) ⟨h, ⟨hclear, hnodup, hlt⟩, fun _ => rfl⟩ ?_
      (ite_none_left_eq_some.mp hmapped).2
    rintro p rest s₁ s₂ ⟨h₁, hmove, hsame⟩ hstep
    obtain ⟨h₂, hmove₂, hsame₂⟩ := h₁.shiftPage hmove hstep
    exact ⟨h₂, hmove₂, fun hc => (hsame₂ hc).trans (hsame hc)⟩
  cases copy with
  | true =>
    unfold shiftSwaped at hswaped
    rw [hcopy rfl s₁ hmapped] at hswaped
    exact some.inj hswaped ▸ h₁
  | false =>
    -- the second loop: the slots that have not been moved are still recorded
    refine (foldlM_rest (fun rest s₂ => s₂.SwapInv ∧ ToMove o vmaOffset (rest.map fst) s₂ ∧
      ∀ q ∈ rest, q ∈ s₂.swaped) ⟨h₁, ?_, fun q hq => (mem_range.mp hq).1⟩ ?_ hswaped).1
    · rw [hsame rfl]
      exact hmove₁
    · rintro p rest s₂ s₃ ⟨h₂, hmove, hrest⟩ hstep
      obtain ⟨h₃, hmove₃, hkept⟩ := h₂.shiftSlot hmove (hrest p mem_cons_self) hstep
      refine ⟨h₃, hmove₃, fun q hq => hkept q (hrest q (mem_cons_of_mem _ hq)) fun heq => ?_⟩
      exact (nodup_cons.mp hmove.nodup).1 (heq ▸ List.mem_map_of_mem hq)

/-! ## Histories -/

theorem SwapInv.pageOp {op : PageOp} (h : s.SwapInv) (hok : ShiftOk o alloc s op)
    (hop : s.pageOp o alloc op = some s') : s'.SwapInv := by
  cases op with
  | release start end_ writeback => exact h.release hop
  | protect start end_ prot => exact h.protectPages hop
  | shift start end_ vmaOffset copy => exact h.shift hok hop

/-- What the operations of a call need, one after the other. -/
def ShiftsOk (o : Overflow) (alloc : ℕ → Option ByteMem) : MmapState → List PageOp → Prop
  | _, [] => True
  | s, op :: ops => ShiftOk o alloc s op ∧ ∀ s' ∈ s.pageOp o alloc op, ShiftsOk o alloc s' ops

instance decidableShiftsOk (o : Overflow) (alloc : ℕ → Option ByteMem) (s : MmapState)
    (ops : List PageOp) : Decidable (ShiftsOk o alloc s ops) :=
  match ops with
  | [] => isTrue trivial
  | op :: ops =>
    have : ∀ s', Decidable (ShiftsOk o alloc s' ops) :=
      fun s' => decidableShiftsOk o alloc s' ops
    inferInstanceAs (Decidable (_ ∧ ∀ s' ∈ s.pageOp o alloc op, ShiftsOk o alloc s' ops))

/-- What an event needs for the books to stay in order. -/
def SwapSafe (o : Overflow) (s : MmapState) : Event → Prop
  | .call c alloc =>
    ∀ res ∈ mmapCall o s.vmas c, ShiftsOk o alloc { s with vmas := res.map } res.pages
  | _ => True

instance (o : Overflow) (s : MmapState) (e : Event) : Decidable (SwapSafe o s e) := by
  cases e <;> unfold SwapSafe <;> infer_instance

theorem SwapInv.pageOps {ops : List PageOp} (h : s.SwapInv) (hok : ShiftsOk o alloc s ops)
    (hops : ops.foldlM (MmapState.pageOp o alloc) s = some s') :
    s'.SwapInv := by
  refine (foldlM_rest (fun ops s => s.SwapInv ∧ ShiftsOk o alloc s ops) ⟨h, hok⟩ ?_ hops).1
  rintro op ops s s' ⟨h, hok, hrest⟩ hop
  exact ⟨h.pageOp hok hop, hrest s' hop⟩

theorem store_cases {addr : ℕ} {byte : UInt8} (h : s.store addr byte = some s') :
    ∃ pte, s.pteAt addr = some pte ∧ pte.flags.write = true ∧ s' = { s with
      table := s.table.insert (alignDown4K addr)
        { pte with bytes := pte.bytes.write (addr % pageSize4K) [byte] } } := by
  unfold MmapState.store at h
  split at h
  · next pte hpte =>
    obtain ⟨hwrite, heq⟩ := ite_none_right_eq_some.mp h
    exact ⟨pte, hpte, hwrite, (some.inj heq).symm⟩
  · cases h

theorem SwapInv.step {e : Event} (h : s.SwapInv) (hok : SwapSafe o s e)
    (hstep : s.step o e = some s') : s'.SwapInv := by
  cases e with
  | call c alloc =>
    obtain ⟨⟨s₁, ret⟩, hcall, rfl⟩ := map_eq_some_iff.mp hstep
    obtain ⟨res, hres, hcall⟩ := bind_eq_some_iff.mp hcall
    obtain ⟨s₂, hops, hcall⟩ := bind_eq_some_iff.mp hcall
    cases hcall
    exact SwapInv.pageOps (s := { s with vmas := res.map }) h (hok res hres) hops
  | msync start len =>
    obtain ⟨⟨s₁, ret⟩, hsync, rfl⟩ := map_eq_some_iff.mp hstep
    obtain ⟨end_, -, hsync⟩ := bind_eq_some_iff.mp hsync
    split at hsync
    · exact (Prod.mk.inj (some.inj hsync)).1 ▸ h
    · obtain ⟨-, hsync⟩ := ite_none_left_eq_some.mp hsync
      obtain ⟨s₂, hloop, hsync⟩ := bind_eq_some_iff.mp hsync
      cases hsync
      exact (foldlM_invariant (SameBooks s) ⟨rfl, rfl, rfl⟩
        (fun _ _ _ _ hs hbody => hs.trans (sameBooks_writeBack hbody)) hloop).swapInv h
  | fault vaddr cause alloc =>
    obtain ⟨⟨s₁, answer⟩, hfault, rfl⟩ := map_eq_some_iff.mp hstep
    exact h.handlePageFault vaddr.toNat_lt hfault
  | store addr byte =>
    obtain ⟨pte, -, -, rfl⟩ := store_cases hstep
    exact h

theorem swapSlots_perm (n : ℕ) : (swapSlots n).Perm ((List.range n).map (· * pageSize4K)) := by
  induction n with
  | zero => exact .nil
  | succ n ih =>
    rw [range_succ, map_append]
    exact (ih.cons _).trans (perm_append_singleton ..).symm

theorem swapInv_init (swapFile : ByteMem) (files : ℕ → ByteMem) (fileOf : ℕ → ℕ)
    (writable : ℕ → Bool) : (init swapFile files fileOf writable).SwapInv where
  slots := by
    rw [show (init swapFile files fileOf writable).swaped.entries.map snd = [] from rfl,
      append_nil]
    exact .refl _
  apart k hk := absurd hk not_mem_nil
  mem_lt k hk := absurd hk not_mem_nil
  swaped_lt k hk := absurd hk not_mem_nil

/-- In every history the free slots and those of the pages in the swap file are all slots, each
once, and no page has both memory and a slot, if pages are not moved to where others are and no
page in the swap file is copied. -/
theorem swap_slots_conserved (o : Overflow) (swapFile : ByteMem) (files : ℕ → ByteMem)
    (fileOf : ℕ → ℕ) (writable : ℕ → Bool) {s : MmapState}
    (h : Reach (step o) (SwapSafe o) (init swapFile files fileOf writable) s) :
    (s.free ++ s.swaped.entries.map snd).Perm
        ((List.range (swapMax / pageSize4K)).map (· * pageSize4K)) ∧
      ∀ k ∈ s.mem.keys, k ∉ s.swaped.keys := by
  have hinv : s.SwapInv := by
    refine h.invariant SwapInv (swapInv_init swapFile files fileOf writable) ?_
    intro s e s' hs hok hstep
    exact hs.step hok hstep
  exact ⟨hinv.slots.trans (swapSlots_perm _), hinv.apart⟩

/-- Nothing has been written. -/
def blankState : MmapState := init (fun _ => 0) (fun _ _ => 0) id fun _ => true

def sampleCall (call : MmapCall) : Event := .call call fun _ => some fun _ => 0

/-- A page is touched while there is memory, or while there is none. -/
def sampleFault (off : UInt64) (memory : Bool) : Event :=
  .fault (0xffff800000000000 + off) .write (if memory then some fun _ => 0 else none)

/-- An anonymous mapping, readable and writable. -/
def sampleMap (off len : UInt64) : Event :=
  sampleCall (.mmap (fun _ => none) (0xffff800000000000 + off) len 3
    (mapPrivate ||| mapAnonymous) (-1) 0)

def sampleRemap (off size : UInt64) (flags : UInt32) (newOff : UInt64) : Event :=
  sampleCall (.mremap (0xffff800000000000 + off) size size flags (0xffff800000000000 + newOff))

/-- The pages with memory, those in the swap file with their slots, and the slot on top of the
stack. -/
def pageBooks (s : MmapState) : List ℕ × List (ℕ × ℕ) × Option ℕ :=
  (s.mem.keys.map (· - vmaStart), s.swaped.entries.map fun p => (p.1 - vmaStart, p.2), s.free.head?)

/-- Two pages are touched, the second one without memory for it; they are moved, and the first one
is touched again. -/
theorem swap_slots_conserved_sample :
    ∃ s, Reach (step .panics) (SwapSafe .panics) blankState s ∧
      s.pageBooks = ([0x10000], [(0x11000, 0x3fffe000)], some 0x3ffff000) ∧
      (s.free ++ s.swaped.entries.map snd).Perm
        ((List.range (swapMax / pageSize4K)).map (· * pageSize4K)) := by
  have hrun : (run (step .panics) (SwapSafe .panics) blankState
      [sampleMap 0 0x2000, sampleFault 0 true, sampleFault 0x1000 false,
        sampleRemap 0 0x2000 mremapMaymove 0x10000, sampleFault 0x10000 false]).map pageBooks =
      some ([0x10000], [(0x11000, 0x3fffe000)], some 0x3ffff000) := by decide +kernel
  obtain ⟨s, hs, hbooks⟩ := exists_of_run hrun
  exact ⟨s, hs, hbooks, (swap_slots_conserved .panics _ _ _ _ hs).1⟩

/-- A copy of a page in the swap file shares its slot, and the slot that was taken for it is neither
free nor recorded. A part of a mapping is moved in front of a page in the swap file, and the next
page of the mapping comes to be where that page is. -/
theorem swap_slots_mixed_up : (run (step .panics) anyStep blankState
      [sampleMap 0 0x1000, sampleMap 0x8000 0x1000, sampleFault 0 true, sampleFault 0x8000 false,
        sampleRemap 0 0x1000 (mremapMaymove ||| mremapDontunmap) 0x10000]).map pageBooks =
      some ([0x8000], [(0, 0x3ffff000), (0x10000, 0x3ffff000)], some 0x3fffd000) ∧
    (run (step .panics) anyStep blankState
      [sampleMap 0 0x3000, sampleMap 0x11000 0x1000, sampleFault 0x11000 true,
        sampleFault 0x1000 false, sampleRemap 0 0x1000 mremapMaymove 0x10000]).map pageBooks =
      some ([0x11000], [(0x11000, 0x3ffff000)], some 0x3fffe000) := by
  refine ⟨?_, ?_⟩ <;> decide +kernel

end MmapState

end HvisorRux.Rux
