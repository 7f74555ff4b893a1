import HvisorRux.Rux.Alloc.Slab

/-!
# Blocks of the slab heap never overlap

The blocks in use and the free blocks of the slabs are the pieces of the heap. `Arranged` says that
they are apart and lie in blocks that the buddy allocator has handed out. Allocation and release
move pieces between the lists, a slab that grows adds new ones, and a store to a block in use can
not reach the links in the free blocks. So the lists of the slabs stay what they should be.
-/

namespace HvisorRux.Rux.Alloc

open Common Function List Option OrdMap Span Prod FreeBlockList Nat

/-! ## Free lists -/

namespace FreeBlockList

variable {mem : Links} {l l' : FreeBlockList} {a : ℕ} {xs ys : List ℕ}

/-- The blocks of the list. -/
structure Rep (mem : Links) (l : FreeBlockList) (xs : List ℕ) : Prop where
  chain : Chain mem l.head xs
  len_eq : l.len = xs.length

theorem Rep.empty (mem : Links) : Rep mem .empty [] := ⟨rfl, rfl⟩

/-- The list depends on the links in its blocks only. -/
theorem Rep.congr {mem' : Links} (h : Rep mem l xs) (hsame : ∀ a ∈ xs, mem' a = mem a) :
    Rep mem' l xs :=
  ⟨h.chain.congr hsame, h.len_eq⟩

theorem Rep.push (h : Rep mem l xs) (ha : a ∉ xs) :
    Rep (push mem l a).1 (push mem l a).2 (a :: xs) :=
  ⟨h.chain.push ha, congrArg (· + 1) h.len_eq⟩

theorem Rep.pop (h : Rep mem l (a :: xs)) (ha : a ∉ xs) :
    ∃ l', pop mem l = some (a, update mem a none, l') ∧ Rep (update mem a none) l' xs := by
  refine ⟨⟨l.len - 1, mem a⟩, ?_, h.chain.pop ha none, ?_⟩
  · rw [FreeBlockList.pop, h.chain.1]
    rfl
  · rw [h.len_eq]
    rfl

theorem Rep.pop_nil (h : Rep mem l []) : FreeBlockList.pop mem l = none := by
  rw [FreeBlockList.pop, show l.head = none from h.chain]
  rfl

/-- Pushing several blocks. -/
theorem Rep.pushAll (h : Rep mem l xs) (hnodup : (ys.reverse ++ xs).Nodup) :
    ∃ mem' l', ys.foldl (fun ml block => FreeBlockList.push ml.1 ml.2 block) (mem, l) =
        (mem', l') ∧ Rep mem' l' (ys.reverse ++ xs) ∧ ∀ b ∉ ys, mem' b = mem b := by
  induction ys generalizing mem l xs with
  | nil => exact ⟨mem, l, rfl, h, fun _ _ => rfl⟩
  | cons y ys ih =>
    rw [reverse_cons, append_assoc] at hnodup ⊢
    have hy : y ∉ xs := (nodup_cons.mp (nodup_append.mp hnodup).2.1).1
    obtain ⟨mem', l', heq, hrep, hframe⟩ := ih (h.push hy) hnodup
    refine ⟨mem', l', heq, hrep, fun b hb => ?_⟩
    rw [hframe b fun hmem => hb (mem_cons_of_mem _ hmem)]
    exact update_of_ne (fun hby : b = y => hb (hby ▸ mem_cons_self)) ..

/-- Moving all blocks of a list to another one. -/
theorem Rep.drain {fuel : ℕ} (h : Rep mem l xs) (h' : Rep mem l' ys) (hnodup : (xs ++ ys).Nodup)
    (hfuel : xs.length ≤ fuel) :
    ∃ mem' l'', drain fuel mem l l' = some (mem', l'') ∧
      Rep mem' l'' (xs.reverse ++ ys) ∧ ∀ b ∉ xs, mem' b = mem b := by
  induction xs generalizing fuel mem l l' ys with
  | nil =>
    refine ⟨mem, l', ?_, h', fun _ _ => rfl⟩
    unfold drain
    rw [h.pop_nil]
  | cons x xs ih =>
    obtain ⟨fuel, rfl⟩ : ∃ n, fuel = n + 1 :=
      exists_eq_succ_of_ne_zero (lt_of_lt_of_le (succ_pos _) hfuel).ne'
    have hfuel : xs.length ≤ fuel := le_of_succ_le_succ hfuel
    rw [cons_append] at hnodup
    obtain ⟨hx, hrest⟩ := nodup_cons.mp hnodup
    rw [mem_append, not_or] at hx
    obtain ⟨l₁, hpop, hl₁⟩ := h.pop hx.1
    have hl' : Rep (update mem x none) l' ys :=
      h'.congr fun b hb => update_of_ne (ne_of_mem_of_not_mem hb hx.2) ..
    have hpush := hl'.push hx.2
    have hl₁' : Rep (FreeBlockList.push (update mem x none) l' x).1 l₁ xs :=
      hl₁.congr fun b hb => update_of_ne (ne_of_mem_of_not_mem hb hx.1) ..
    have hnodup' : (xs ++ x :: ys).Nodup :=
      (perm_middle.nodup_iff).mpr (nodup_cons.mpr ⟨by simp [hx], hrest⟩)
    obtain ⟨mem', l'', hdrain, hrep, hframe⟩ := ih hl₁' hpush hnodup' hfuel
    refine ⟨mem', l'', ?_, ?_, fun b hb => ?_⟩
    · unfold drain
      rw [hpop]
      simpa using hdrain
    · rwa [reverse_cons, append_assoc]
    · rw [mem_cons, not_or] at hb
      rw [hframe b hb.2]
      exact (update_of_ne hb.1 ..).trans (update_of_ne hb.1 ..)

end FreeBlockList

open FreeBlockList (Rep)

/-- A slab gets the blocks of a piece of memory. -/
theorem Slab.grow_eq {mem : Links} {s : Slab} {blkSize start n : ℕ} {xs : List ℕ}
    (hblk : 0 < blkSize) (h : s.freeBlockList.Rep mem xs)
    (hnodup : ((blocks start blkSize n).map fst ++ xs).Nodup) :
    ∃ mem' l, Slab.grow blkSize mem s start (n * blkSize) = some (mem', ⟨l, s.totalBlocks + n⟩) ∧
      l.Rep mem' (((blocks start blkSize n).map fst).reverse ++ xs) ∧
      ∀ b ∉ (blocks start blkSize n).map fst, mem' b = mem b := by
  have hblocks : (List.range n).reverse.map (fun i => start + i * blkSize) =
      ((blocks start blkSize n).map fst).reverse := by
    rw [blocks, List.map_map, map_reverse]
    rfl
  generalize (blocks start blkSize n).map fst = bs at hnodup hblocks
  have hbs : bs.Nodup := (nodup_append.mp hnodup).1
  obtain ⟨mem₁, l₁, hnew, hl₁, hframe₁⟩ :=
    (Rep.empty mem).pushAll (show (bs.reverse.reverse ++ []).Nodup by simpa using hbs)
  rw [reverse_reverse, append_nil] at hl₁
  have hold : s.freeBlockList.Rep mem₁ xs := by
    refine h.congr fun b hb => hframe₁ b fun hmem => ?_
    exact (nodup_append.mp hnodup).2.2 b (mem_reverse.mp hmem) b hb rfl
  obtain ⟨mem₂, l₂, hdrain, hl₂, hframe₂⟩ := hl₁.drain hold hnodup hl₁.len_eq.ge
  refine ⟨mem₂, l₂, ?_, hl₂, fun b hb => ?_⟩
  · rw [Slab.grow, Nat.mul_div_cancel _ hblk, FreeBlockList.new, hblocks]
    simp only [hnew, hdrain, map_some]
  · rw [hframe₂ b hb, hframe₁ b fun hmem => hb (mem_reverse.mp hmem)]

/-! ## Pieces -/

/-- The pieces are apart and lie in blocks that are out, which are apart and lie in the memory that
was given. Every piece has room for a link and begins at a multiple of its size in its block. -/
structure Arranged (pieces : List (ℕ × ℕ)) (buddy : Buddy) : Prop where
  apart : pieces.Pairwise Span.Apart
  within : ∀ p ∈ pieces, ∃ b ∈ buddy.out, Span.Within p b ∧ p.2 ∣ p.1 - b.1
  room : ∀ p ∈ pieces, linkSize ≤ p.2
  outApart : buddy.out.entries.Pairwise Span.Apart
  outWithin : ∀ b ∈ buddy.out, ∃ r ∈ buddy.given, Span.Within b r
  outPos : ∀ b ∈ buddy.out, 0 < b.2

namespace Arranged

variable {pieces pieces' : List (ℕ × ℕ)} {buddy : Buddy}

section

variable (h : Arranged pieces buddy) {block : ℕ × ℕ}

include h

theorem perm (hperm : pieces.Perm pieces') : Arranged pieces' buddy :=
  { h with
    apart := pairwise_perm hperm h.apart
    within := fun p hp => h.within p (hperm.mem_iff.mpr hp)
    room := fun p hp => h.room p (hperm.mem_iff.mpr hp) }

/-- Pieces begin at different addresses. -/
theorem addr_nodup : (pieces.map fst).Nodup := by
  have hpos : ∀ p ∈ pieces, 0 < p.2 := fun p hp => lt_of_lt_of_le (by decide) (h.room p hp)
  refine pairwise_map.mpr (h.apart.imp_of_mem fun hp hq hpq => ?_)
  exact hpq.fst_ne (hpos _ hp) (hpos _ hq)

theorem addGiven (r : ℕ × ℕ) : Arranged pieces { buddy with given := r :: buddy.given } :=
  { h with
    outWithin := fun b hb => by
      obtain ⟨r', hr', hin⟩ := h.outWithin b hb
      exact ⟨r', mem_cons_of_mem _ hr', hin⟩ }

/-- A block that is granted is apart from all pieces. -/
theorem apart_grant {size : ℕ} (hok : buddy.GrantOk size block) :
    ∀ p ∈ pieces, Span.Apart p block := by
  intro p hp
  obtain ⟨b, hb, hin, -⟩ := h.within p hp
  exact (hok.2.2 b hb).symm.mono hin (.refl _)

theorem insertOut {size addr n : ℕ} (hpos : 0 < size) (hok : buddy.GrantOk size (addr, n)) :
    Arranged pieces { buddy with out := buddy.out.insert addr n } := by
  obtain ⟨hle, hgiven, hapart⟩ := hok
  have hn : 0 < n := hpos.trans_le hle
  have hnot : addr ∉ buddy.out.keys := by
    intro hmem
    obtain ⟨m, hm⟩ := OrdMap.mem_keys.mp hmem
    exact (hapart _ hm).fst_ne hn (h.outPos _ hm) rfl
  have hperm := entries_insert_perm (a := n) hnot
  refine { h with
    within := fun p hp => ?_
    outApart := pairwise_perm hperm.symm (pairwise_cons.mpr ⟨hapart, h.outApart⟩)
    outWithin := fun b hb => ?_
    outPos := fun b hb => ?_ }
  · obtain ⟨b, hb, hin⟩ := h.within p hp
    exact ⟨b, hperm.mem_iff.mpr (mem_cons_of_mem _ hb), hin⟩
  · obtain rfl | hb := mem_cons.mp (hperm.mem_iff.mp hb)
    · exact hgiven
    · exact h.outWithin b hb
  · obtain rfl | hb := mem_cons.mp (hperm.mem_iff.mp hb)
    · exact hn
    · exact h.outPos b hb

/-- New pieces in a block that has none. -/
theorem add {new : List (ℕ × ℕ)} (hblock : block ∈ buddy.out) (hnew : new.Pairwise Span.Apart)
    (hin : ∀ p ∈ new, linkSize ≤ p.2 ∧ Span.Within p block ∧ p.2 ∣ p.1 - block.1)
    (hapart : ∀ p ∈ pieces, Span.Apart p block) : Arranged (new ++ pieces) buddy :=
  { h with
    apart := pairwise_append.mpr ⟨hnew, h.apart, fun p hp q hq =>
      ((hapart q hq).mono (.refl _) (hin p hp).2.1).symm⟩
    within := fun p hp => by
      obtain hp | hp := mem_append.mp hp
      · exact ⟨block, hblock, (hin p hp).2⟩
      · exact h.within p hp
    room := fun p hp => by
      obtain hp | hp := mem_append.mp hp
      · exact (hin p hp).1
      · exact h.room p hp }

end

/-- A block that is one piece is given back. -/
theorem eraseOut {addr n : ℕ} (h : Arranged ((addr, n) :: pieces) buddy)
    (hout : (addr, n) ∈ buddy.out) :
    Arranged pieces { buddy with out := buddy.out.erase addr } := by
  obtain ⟨hapart, hrest⟩ := pairwise_cons.mp h.apart
  have hperm := entries_erase_perm hout
  have hsub : ∀ b ∈ buddy.out.erase addr, b ∈ buddy.out := fun b hb => (mem_erase.mp hb).1
  refine ⟨hrest, fun p hp => ?_, fun p hp => h.room p (mem_cons_of_mem _ hp), ?_,
    fun b hb => h.outWithin b (hsub b hb), fun b hb => h.outPos b (hsub b hb)⟩
  · obtain ⟨b, hb, hin, hdvd⟩ := h.within p (mem_cons_of_mem _ hp)
    refine ⟨b, mem_erase.mpr ⟨hb, fun heq => ?_⟩, hin, hdvd⟩
    -- the piece would lie in the block that is given back
    have hval : b.2 = n := val_unique (k := addr) (heq ▸ hb) hout
    have hblock : b = (addr, n) := Prod.ext heq hval
    have hpos : 0 < p.2 := lt_of_lt_of_le (by decide) (h.room p (mem_cons_of_mem _ hp))
    exact (hblock ▸ hin).not_apart hpos (hapart p hp).symm
  · exact (pairwise_cons.mp (pairwise_perm hperm h.outApart)).2

end Arranged

section

variable (free : SlabClass → List ℕ)

/-- The free blocks of the slabs. -/
def freePieces : List (ℕ × ℕ) :=
  SlabClass.all.flatMap fun c => (free c).map (·, c.blkSize)

/-- Those of the other slabs. -/
def otherPieces (c : SlabClass) : List (ℕ × ℕ) :=
  (SlabClass.all.erase c).flatMap fun c' => (free c').map (·, c'.blkSize)

theorem freePieces_update (c : SlabClass) (xs : List ℕ) :
    (freePieces (update free c xs)).Perm (xs.map (·, c.blkSize) ++ otherPieces free c) := by
  have hmem : c ∈ SlabClass.all := by cases c <;> decide
  have hnot : c ∉ SlabClass.all.erase c := by cases c <;> decide
  refine ((perm_cons_erase hmem).flatMap_right _).trans ?_
  rw [flatMap_cons, update_self]
  refine List.Perm.append_left _ (.of_eq (flatMap_congr fun c' hc' => ?_))
  rw [update_of_ne (ne_of_mem_of_not_mem hc' hnot)]

theorem freePieces_perm (c : SlabClass) :
    (freePieces free).Perm ((free c).map (·, c.blkSize) ++ otherPieces free c) := by
  have h := freePieces_update free c (free c)
  rwa [update_eq_self] at h

end

theorem mem_freePieces {free : SlabClass → List ℕ} {c : SlabClass} {a : ℕ} (ha : a ∈ free c) :
    (a, c.blkSize) ∈ freePieces free :=
  mem_flatMap.mpr ⟨c, by cases c <;> decide, List.mem_map_of_mem ha⟩

theorem linkSize_le_blkSize (c : SlabClass) : linkSize ≤ c.blkSize := by cases c <;> decide

theorem fits_blkSize {layout : Layout} {c : SlabClass} (h : layoutToAllocator layout = .slab c) :
    layout.size ≤ c.blkSize ∧ (layout.align ≤ 4096 → layout.align ≤ c.blkSize) := by
  unfold layoutToAllocator at h
  split_ifs at h with h₀ h₁ h₂ h₃ h₄ h₅ h₆ <;> cases h
  · exact h₁.imp_right fun h _ => h
  · exact h₂.imp_right fun h _ => h
  · exact h₃.imp_right fun h _ => h
  · exact h₄.imp_right fun h _ => h
  · exact h₅.imp_right fun h _ => h
  · exact h₆.imp_right fun h _ => h
  · exact ⟨not_lt.mp h₀, id⟩

theorem lt_size_of_buddy {layout : Layout} (h : layoutToAllocator layout = .buddyAllocator) :
    4096 < layout.size := by
  unfold layoutToAllocator at h
  split_ifs at h with hlarge
  exact hlarge

/-! ## The state -/

namespace HeapState

/-- The blocks in use and the free blocks of the slabs. -/
def pieces (live : OrdMap ℕ LiveBlock) (free : SlabClass → List ℕ) : List (ℕ × ℕ) :=
  live.entries.map (fun p => (p.1, p.2.size)) ++ freePieces free

/-- A block in use is large enough. One from a slab has the size of the slab, another one is a block
that is out. -/
def LiveOk (buddy : Buddy) (p : ℕ × LiveBlock) : Prop :=
  p.2.layout.size ≤ p.2.size ∧
    match layoutToAllocator p.2.layout with
    | .slab c => p.2.size = c.blkSize
    | .buddyAllocator => (p.1, p.2.size) ∈ buddy.out

theorem LiveOk.mono {buddy buddy' : Buddy} {p : ℕ × LiveBlock} (h : LiveOk buddy p)
    (hout : (p.1, p.2.size) ∈ buddy.out → (p.1, p.2.size) ∈ buddy'.out) : LiveOk buddy' p := by
  refine h.imp_right ?_
  cases layoutToAllocator p.2.layout with
  | slab c => exact id
  | buddyAllocator => exact hout

/-- `free` are the lists of the slabs. -/
structure Inv (s : HeapState) (free : SlabClass → List ℕ) : Prop where
  rep : ∀ c, (s.heap.slabs c).freeBlockList.Rep s.heap.mem (free c)
  total : ∀ c, (s.heap.slabs c).totalBlocks = (free c).length +
    s.live.entries.countP (fun p => layoutToAllocator p.2.layout = .slab c)
  arranged : Arranged (pieces s.live free) s.heap.buddy
  live : ∀ p ∈ s.live, LiveOk s.heap.buddy p

variable {s : HeapState} {free : SlabClass → List ℕ} {c : SlabClass} {mem : Links} {a : ℕ}
  {xs : List ℕ}

namespace Inv

section

variable (h : Inv s free)

include h

/-- The addresses of the pieces are different. -/
theorem addr_nodup : (s.live.keys ++ SlabClass.all.flatMap free).Nodup := by
  have hnodup := h.arranged.addr_nodup
  have haddrs : (pieces s.live free).map fst = s.live.keys ++ SlabClass.all.flatMap free := by
    rw [pieces, map_append, List.map_map, freePieces, map_flatMap]
    refine congrArg (_ ++ ·) (flatMap_congr fun c _ => ?_)
    rw [List.map_map]
    exact List.map_id _
  rwa [haddrs] at hnodup

theorem free_nodup (c : SlabClass) : (free c).Nodup :=
  (nodup_flatMap.mp (nodup_append.mp h.addr_nodup).2.1).1 c (by cases c <;> decide)

/-- No block is in the lists of two slabs. -/
theorem free_unique {c' : SlabClass} (ha : a ∈ free c) (ha' : a ∈ free c') : c' = c := by
  by_contra hne
  have hpair := (nodup_flatMap.mp (nodup_append.mp h.addr_nodup).2.1).2
  have hsymm : Std.Symm (Function.onFun List.Disjoint free) := ⟨fun _ _ hd => hd.symm⟩
  have hdisjoint := hpair.forall (a := c') (b := c) (by cases c' <;> decide)
    (by cases c <;> decide) hne
  exact hdisjoint ha' ha

theorem not_live (ha : a ∈ free c) : a ∉ s.live.keys := fun hlive =>
  (nodup_append.mp h.addr_nodup).2.2 a hlive a (mem_flatMap.mpr ⟨c, by cases c <;> decide, ha⟩) rfl

theorem setMem (hsame : ∀ c, ∀ a ∈ free c, mem a = s.heap.mem a) :
    Inv { s with heap := { s.heap with mem } } free :=
  { h with rep := fun c => (h.rep c).congr (hsame c) }

/-- A slab gets another list. -/
theorem rep_update {slab : Slab} (hslab : slab.freeBlockList.Rep mem xs)
    (hsame : ∀ c' ≠ c, ∀ a ∈ free c', mem a = s.heap.mem a) (c' : SlabClass) :
    (update s.heap.slabs c slab c').freeBlockList.Rep mem (update free c xs c') := by
  by_cases hc : c' = c
  · subst hc
    rwa [update_self, update_self]
  · rw [update_of_ne hc, update_of_ne hc]
    exact (h.rep c').congr (hsame c' hc)

end

end Inv

/-! ### Blocks that change their owner -/

variable {live : OrdMap ℕ LiveBlock}

/-- A free block that is allocated is the same piece. -/
theorem pieces_allocate (hfree : free c = a :: xs) (ha : a ∉ live.keys) (layout : Layout) :
    (pieces live free).Perm (pieces (live.insert a ⟨c.blkSize, layout⟩) (update free c xs)) := by
  have hlive := (entries_insert_perm (a := (⟨c.blkSize, layout⟩ : LiveBlock)) ha).map
    fun p => (p.1, p.2.size)
  refine List.Perm.trans ?_ (hlive.symm.append (freePieces_update free c xs).symm)
  refine ((freePieces_perm free c).append_left _).trans ?_
  rw [hfree]
  exact perm_middle

/-- A block of a slab that is given back. -/
theorem pieces_deallocate {block : LiveBlock} (hlive : (a, block) ∈ live)
    (hsize : block.size = c.blkSize) :
    (pieces live free).Perm (pieces (live.erase a) (update free c (a :: free c))) := by
  have hperm := (entries_erase_perm hlive).map fun p => (p.1, p.2.size)
  refine (hperm.append (freePieces_perm free c)).trans ?_
  refine List.Perm.trans ?_ ((freePieces_update free c (a :: free c)).symm.append_left _)
  rw [map_cons, map_cons, cons_append, hsize]
  exact perm_middle.symm

/-- A slab without free blocks gets new ones. -/
theorem pieces_grow {new : List (ℕ × ℕ)} (hfree : free c = [])
    (hsize : ∀ p ∈ new, p.2 = c.blkSize) :
    (new ++ pieces live free).Perm (pieces live (update free c (new.map fst).reverse)) := by
  have hnew : (new.map fst).map (·, c.blkSize) = new := by
    rw [List.map_map]
    refine (map_congr_left (g := id) fun p hp => ?_).trans (List.map_id new)
    exact Prod.ext rfl (hsize p hp).symm
  have hother : (freePieces free).Perm (otherPieces free c) := by
    have hperm := freePieces_perm free c
    rwa [hfree] at hperm
  refine (perm_append_comm_assoc ..).trans (List.Perm.append_left _ ?_)
  refine List.Perm.trans ?_ (freePieces_update ..).symm
  refine List.Perm.append ?_ hother
  rw [map_reverse, hnew]
  exact (reverse_perm new).symm

namespace Inv

variable {block : LiveBlock} {layout : Layout} {live : OrdMap ℕ LiveBlock}

theorem countP_insert (ha : a ∉ live.keys) (block : LiveBlock) (P : ℕ × LiveBlock → Bool) :
    (live.insert a block).entries.countP P = live.entries.countP P + (P (a, block)).toNat := by
  rw [(entries_insert_perm ha).countP_eq, countP_cons]
  cases P (a, block) <;> rfl

theorem countP_erase (ha : (a, block) ∈ live) (P : ℕ × LiveBlock → Bool) :
    live.entries.countP P = (live.erase a).entries.countP P + (P (a, block)).toNat := by
  rw [(entries_erase_perm ha).countP_eq, countP_cons]
  cases P (a, block) <;> rfl

/-- The first free block of a slab is allocated. -/
theorem popBlock (h : Inv s free) (hfree : free c = a :: xs)
    (hlayout : layoutToAllocator layout = .slab c) :
    ∃ heap, s.heap.popBlock c = some (heap, a) ∧
      Inv ⟨heap, s.live.insert a ⟨c.blkSize, layout⟩⟩ (update free c xs) := by
  have hmem : a ∈ free c := hfree ▸ mem_cons_self
  have hnodup := h.free_nodup c
  rw [hfree] at hnodup
  have hrep := h.rep c
  rw [hfree] at hrep
  obtain ⟨l, hpop, hl⟩ := hrep.pop (nodup_cons.mp hnodup).1
  have hnot := h.not_live hmem
  refine ⟨{ s.heap with
      mem := update s.heap.mem a none
      slabs := update s.heap.slabs c { s.heap.slabs c with freeBlockList := l } },
    ?_, ⟨?_, fun c' => ?_, h.arranged.perm (pieces_allocate hfree hnot layout), fun p hp => ?_⟩⟩
  · rw [Heap.popBlock, hpop]
    rfl
  · refine h.rep_update hl ?_
    intro c' hne b hb
    exact update_of_ne (fun hba : b = a => hne (h.free_unique hmem (hba ▸ hb))) ..
  · show (update s.heap.slabs c _ c').totalBlocks = _
    rw [countP_insert hnot]
    by_cases hc : c' = c
    · subst hc
      rw [update_self, update_self, h.total c', hfree]
      simp only [length_cons, hlayout, decide_true, Bool.toNat_true]
      omega
    · rw [update_of_ne hc, update_of_ne hc, h.total c']
      simp [hlayout, Ne.symm hc]
  · obtain rfl | ⟨hp, -⟩ := mem_insert.mp hp
    · refine ⟨(fits_blkSize hlayout).1, ?_⟩
      simp only [hlayout]
    · exact h.live p hp

/-- A block of a slab is given back. -/
theorem slabDeallocate (h : Inv s free) (hlive : (a, block) ∈ s.live)
    (hlayout : layoutToAllocator block.layout = .slab c) :
    Inv ⟨s.heap.slabDeallocate c a, s.live.erase a⟩ (update free c (a :: free c)) := by
  have hsize := (h.live _ hlive).2
  simp only [hlayout] at hsize
  have hnot : ∀ c', a ∉ free c' := fun c' hmem =>
    h.not_live hmem (OrdMap.mem_keys.mpr ⟨block, hlive⟩)
  refine ⟨?_, fun c' => ?_, h.arranged.perm (pieces_deallocate hlive hsize), fun p hp => ?_⟩
  · refine h.rep_update ((h.rep c).push (hnot c)) ?_
    intro c' _ b hb
    exact update_of_ne (ne_of_mem_of_not_mem hb (hnot c')) ..
  · show (update s.heap.slabs c _ c').totalBlocks = _
    have htotal := h.total c'
    rw [countP_erase hlive] at htotal
    by_cases hc : c' = c
    · subst hc
      simp only [hlayout, decide_true, Bool.toNat_true] at htotal
      rw [update_self, update_self, length_cons, add_right_comm]
      exact htotal
    rw [update_of_ne hc, update_of_ne hc, htotal]
    simp [hlayout, Ne.symm hc]
  · exact h.live p (mem_erase.mp hp).1

/-! ### The buddy allocator -/

/-- A free block lies in a block that is out. -/
theorem free_within (h : Arranged (pieces s.live free) s.heap.buddy) (ha : a ∈ free c) :
    ∃ b ∈ s.heap.buddy.out, Span.Within (a, linkSize) b := by
  obtain ⟨b, hb, hin, -⟩ := h.within _ (mem_append_right _ (mem_freePieces ha))
  have hlink : Span.Within (a, linkSize) (a, c.blkSize) :=
    ⟨le_rfl, Nat.add_le_add_left (linkSize_le_blkSize c) a⟩
  exact ⟨b, hb, hlink.trans hin⟩

section

variable (h : Inv s free)

include h

/-- The buddy allocator leaves the links in the free blocks alone. -/
theorem scribble (other : Links) :
    Inv { s with heap := { s.heap with mem := s.heap.buddy.scribble s.heap.mem other } } free := by
  refine h.setMem fun c a ha => ?_
  rw [Buddy.scribble, if_pos (free_within h.arranged ha)]

theorem addMemory (r : ℕ × ℕ) :
    Inv { s with heap := { s.heap with
      buddy := { s.heap.buddy with given := r :: s.heap.buddy.given } } } free :=
  { h with arranged := h.arranged.addGiven r }

/-- A block that is handed out does not disturb the others. -/
theorem insertOut {size addr n : ℕ} (hpos : 0 < size) (hok : s.heap.buddy.GrantOk size (addr, n)) :
    Inv { s with heap := { s.heap with
      buddy := { s.heap.buddy with out := s.heap.buddy.out.insert addr n } } } free := by
  refine { h with
    arranged := h.arranged.insertOut hpos hok
    live := fun p hp => (h.live p hp).mono fun hold => mem_insert.mpr (.inr ⟨hold, ?_⟩) }
  exact ((hok.2.2 _ hold).fst_ne (hpos.trans_le hok.1) (h.arranged.outPos _ hold)).symm

/-- A block of the buddy allocator is given back. -/
theorem buddyDealloc (hlive : (a, block) ∈ s.live)
    (hlayout : layoutToAllocator block.layout = .buddyAllocator) (other : Links) :
    Inv ⟨s.heap.buddyDealloc a other, s.live.erase a⟩ free := by
  have hout := (h.live _ hlive).2
  simp only [hlayout] at hout
  have hperm : (pieces s.live free).Perm ((a, block.size) :: pieces (s.live.erase a) free) :=
    ((entries_erase_perm hlive).map fun p => (p.1, p.2.size)).append_right _
  have hkept : Inv ⟨{ s.heap with
      buddy := { s.heap.buddy with out := s.heap.buddy.out.erase a } }, s.live.erase a⟩ free := by
    refine ⟨h.rep, fun c => ?_, (h.arranged.perm hperm).eraseOut hout, fun p hp => ?_⟩
    · have htotal := h.total c
      rw [countP_erase hlive] at htotal
      simpa only [hlayout, reduceCtorEq, decide_false, Bool.toNat_false, add_zero] using htotal
    · obtain ⟨hp, hne⟩ := mem_erase.mp hp
      exact (h.live p hp).mono fun hold => mem_erase.mpr ⟨hold, hne⟩
  exact hkept.scribble other

/-- A slab without free blocks gets those of a block that was handed out to it. -/
theorem growSlab (hfree : free c = []) {ptr n : ℕ} (hout : (ptr, n) ∈ s.heap.buddy.out)
    (hn : setSize * c.blkSize ≤ n) (hapart : ∀ p ∈ pieces s.live free, Span.Apart p (ptr, n)) :
    ∃ heap, s.heap.growSlab c ptr = some heap ∧ Inv { s with heap }
      (update free c ((blocks ptr c.blkSize setSize).map fst).reverse) := by
  have hblk : 0 < c.blkSize := lt_of_lt_of_le (by decide) (linkSize_le_blkSize c)
  have hin : ∀ p ∈ blocks ptr c.blkSize setSize,
      p.2 = c.blkSize ∧ Span.Within p (ptr, n) ∧ p.2 ∣ p.1 - ptr := by
    intro p hp
    obtain ⟨hsize, hwithin, hdvd⟩ := mem_blocks hp
    exact ⟨hsize, hwithin.trans ⟨le_rfl, Nat.add_le_add_left hn ptr⟩, hdvd⟩
  -- the blocks are new pieces
  have hadd := h.arranged.add hout (blocks_apart ptr c.blkSize setSize)
    (fun p hp => ⟨(hin p hp).1 ▸ linkSize_le_blkSize c, (hin p hp).2⟩) hapart
  have hnodup := hadd.addr_nodup
  have hempty := h.rep c
  rw [hfree] at hempty
  have hnew : ((blocks ptr c.blkSize setSize).map fst ++ []).Nodup := by
    exact (nodup_append.mp hnodup).1
  obtain ⟨mem, l, hgrow, hl, hframe⟩ := Slab.grow_eq hblk hempty hnew
  refine ⟨{ s.heap with
      mem, slabs := update s.heap.slabs c ⟨l, (s.heap.slabs c).totalBlocks + setSize⟩ },
    ?_, ⟨h.rep_update hl ?_, fun c' => ?_, hadd.perm (pieces_grow hfree fun p hp => (hin p hp).1),
      h.live⟩⟩
  · rw [Heap.growSlab, hgrow]
    rfl
  · intro c' _ b hb
    refine hframe b fun hmem => ?_
    exact (nodup_append.mp hnodup).2.2 b hmem b
      (List.mem_map_of_mem (mem_append_right _ (mem_freePieces hb))) rfl
  · show (update s.heap.slabs c _ c').totalBlocks = _
    by_cases hc : c' = c
    · subst hc
      rw [update_self, update_self, h.total c', hfree]
      simp [blocks, add_comm]
    · rw [update_of_ne hc, update_of_ne hc]
      exact h.total c'

/-- A store to a block in use does not change the links in the free blocks. -/
theorem store {addr : ℕ} {p : ℕ × LiveBlock} (hp : p ∈ s.live) (hlow : p.1 ≤ addr)
    (hhigh : addr < p.1 + p.2.size) (value : Links) :
    Inv { s with heap := { s.heap with mem := storeLinks s.heap.mem value addr } } free := by
  refine h.setMem fun c a ha => if_neg ?_
  rintro ⟨hle, hlt⟩
  have hlive : (p.1, p.2.size) ∈ s.live.entries.map fun p => (p.1, p.2.size) :=
    List.mem_map.mpr ⟨p, hp, rfl⟩
  have hapart := (pairwise_append.mp h.arranged.apart).2.2 _ hlive _ (mem_freePieces ha)
  have hblk := linkSize_le_blkSize c
  obtain hbefore | hafter := hapart
  · omega
  · omega

end

/-! ### The operations -/

theorem reverse_blocks (start blkSize n : ℕ) :
    ((blocks start blkSize (n + 1)).map fst).reverse =
      (start + n * blkSize) :: ((blocks start blkSize n).map fst).reverse := by
  simp [blocks, range_succ]

section

variable (h : Inv s free) {call : BuddyCall}

include h

theorem popBlock_nil (hfree : free c = []) : s.heap.popBlock c = none := by
  have hrep := h.rep c
  rw [hfree] at hrep
  rw [Heap.popBlock, hrep.pop_nil]
  rfl

/-- An allocation from a slab takes the first free block or, if there is none, the last block of the
memory by which the slab grows, or it finds no memory. -/
theorem slabAllocate (hlayout : layoutToAllocator layout = .slab c)
    (hok : ∀ block ∈ call.grant, s.heap.buddy.GrantOk (setSize * c.blkSize) block) :
    ∃ heap answer, s.heap.slabAllocate c call = some (heap, answer) ∧ ∃ free',
      match answer with
      | none => Inv { s with heap } free'
      | some addr => Inv ⟨heap, s.live.insert addr ⟨c.blkSize, layout⟩⟩ free' ∧
          ((s.heap.slabs c).freeBlockList.head = some addr ∨
            (s.heap.slabs c).freeBlockList.head = none ∧
              ∃ block ∈ call.grant, addr = block.1 + 63 * c.blkSize) := by
  have hrep := h.rep c
  unfold Heap.slabAllocate
  cases hfree : free c with
  | cons a xs =>
    obtain ⟨heap, hpop, hinv⟩ := h.popBlock hfree hlayout
    rw [hpop]
    rw [hfree] at hrep
    exact ⟨heap, some a, rfl, _, hinv, .inl hrep.chain.1⟩
  | nil =>
    rw [hfree] at hrep
    rw [h.popBlock_nil hfree, Heap.buddyAlloc]
    cases hgrant : call.grant with
    | none => exact ⟨_, none, rfl, free, h.scribble call.other⟩
    | some block =>
      have hgrantOk := hok block hgrant
      have hpos : 0 < setSize * c.blkSize := by cases c <;> decide
      -- the slab grows by the block and then has free blocks
      have hout := (h.scribble call.other).insertOut hpos hgrantOk
      obtain ⟨heap, hgrow, hgrown⟩ := hout.growSlab hfree
        (mem_insert.mpr (.inl rfl)) hgrantOk.1 (h.arranged.apart_grant hgrantOk)
      obtain ⟨heap', hpop, hinv⟩ := hgrown.popBlock
        ((update_self ..).trans (reverse_blocks block.1 c.blkSize 63)) hlayout
      refine ⟨heap', some (block.1 + 63 * c.blkSize), ?_, _, hinv,
        .inr ⟨hrep.chain, block, rfl, rfl⟩⟩
      simp only [hgrow, hpop, bind_eq_bind, bind_some]

/-- A large block. -/
theorem takeGrant (hlayout : layoutToAllocator layout = .buddyAllocator) {block : ℕ × ℕ}
    (hok : s.heap.buddy.GrantOk layout.size block) :
    Inv ⟨{ s.heap with
        buddy := { s.heap.buddy with out := s.heap.buddy.out.insert block.1 block.2 } },
      s.live.insert block.1 ⟨block.2, layout⟩⟩ free := by
  have hlarge := lt_size_of_buddy hlayout
  have hout := h.insertOut (zero_lt_of_lt hlarge) hok
  have hmem : (block.1, block.2) ∈ s.heap.buddy.out.insert block.1 block.2 :=
    mem_insert.mpr (.inl rfl)
  have hroom : linkSize ≤ block.2 :=
    (show linkSize ≤ 4096 by decide).trans (hlarge.le.trans hok.1)
  have hnot : block.1 ∉ s.live.keys := by
    intro hkey
    obtain ⟨old, hold⟩ := OrdMap.mem_keys.mp hkey
    have hpiece : (block.1, old.size) ∈ pieces s.live free :=
      mem_append_left _ (List.mem_map.mpr ⟨(block.1, old), hold, rfl⟩)
    exact (h.arranged.apart_grant hok _ hpiece).fst_ne
      (lt_of_lt_of_le (by decide) (h.arranged.room _ hpiece))
      (lt_of_lt_of_le (by decide) hroom) rfl
  have hperm := entries_insert_perm (a := (⟨block.2, layout⟩ : LiveBlock)) hnot
  have hnew : [block].Pairwise Span.Apart := pairwise_singleton ..
  have hadd := hout.arranged.add hmem hnew
    (fun p hp => by
      obtain rfl := mem_singleton.mp hp
      exact ⟨hroom, .refl _, by simp⟩) (h.arranged.apart_grant hok)
  have hpieces := (hperm.symm.map fun p => (p.1, p.2.size)).append_right (freePieces free)
  refine ⟨h.rep, fun c => ?_, hadd.perm hpieces, fun p hp => ?_⟩
  · rw [countP_insert hnot]
    simpa only [hlayout, reduceCtorEq, decide_false, Bool.toNat_false, add_zero] using h.total c
  · obtain rfl | ⟨hp, -⟩ := mem_insert.mp hp
    · refine ⟨hok.1, ?_⟩
      simp only [hlayout]
      exact hmem
    · exact hout.live p hp

theorem allocate (hok : s.EventOk (.allocate layout call)) :
    ∃ s', s.step (.allocate layout call) = some s' ∧ ∃ free', Inv s' free' := by
  unfold HeapState.step Heap.allocate
  change ∀ block ∈ call.grant, s.heap.buddy.GrantOk (Heap.requested layout) block at hok
  unfold Heap.requested at hok
  unfold Heap.blockSize
  cases hlayout : layoutToAllocator layout with
  | slab c =>
    simp only [hlayout] at hok ⊢
    obtain ⟨heap, answer, heq, free', hinv⟩ := h.slabAllocate hlayout hok
    rw [heq]
    cases answer with
    | none => exact ⟨_, rfl, free', hinv⟩
    | some addr => exact ⟨_, rfl, free', hinv.1⟩
  | buddyAllocator =>
    simp only [hlayout] at hok ⊢
    rw [Heap.buddyAlloc]
    cases hgrant : call.grant with
    | none => exact ⟨_, rfl, free, h.scribble call.other⟩
    | some block =>
      exact ⟨_, rfl, free, (h.scribble call.other).takeGrant hlayout (hok block hgrant)⟩

theorem step {e : HeapEvent} {s' : HeapState} (hok : s.EventOk e) (hs : s.step e = some s') :
    ∃ free', Inv s' free' := by
  cases e with
  | addMemory start size other =>
    obtain ⟨heap, hadd, rfl⟩ := map_eq_some_iff.mp hs
    unfold Heap.addMemory at hadd
    split_ifs at hadd
    cases hadd
    exact ⟨free, (h.scribble other).addMemory (start, size)⟩
  | allocate layout call =>
    obtain ⟨s₁, hs₁, hinv⟩ := h.allocate hok
    exact some.inj (hs₁.symm.trans hs) ▸ hinv
  | deallocate ptr other =>
    obtain ⟨block, hget, rfl⟩ := map_eq_some_iff.mp hs
    have hlive := get?_eq_some.mp hget
    unfold Heap.deallocate
    cases hlayout : layoutToAllocator block.layout with
    | slab c => exact ⟨_, h.slabDeallocate hlive hlayout⟩
    | buddyAllocator => exact ⟨free, h.buddyDealloc hlive hlayout other⟩
  | store addr value =>
    rw [HeapState.step] at hs
    split_ifs at hs with hin
    cases hs
    obtain ⟨p, hp, hlow, hhigh⟩ := hin
    exact ⟨free, h.store hp hlow hhigh value⟩

end

theorem new {start size : ℕ} {heap : Heap} (hnew : Heap.new mem start size = some heap) :
    Inv ⟨heap, .empty⟩ fun _ => [] := by
  unfold Heap.new at hnew
  split_ifs at hnew
  cases hnew
  refine ⟨fun _ => .empty mem, fun _ => rfl, ⟨.nil, ?_, ?_, .nil, ?_, ?_⟩, ?_⟩
  · exact fun p hp => absurd hp not_mem_nil
  · exact fun p hp => absurd hp not_mem_nil
  · exact fun b hb => absurd hb not_mem_empty
  · exact fun b hb => absurd hb not_mem_empty
  · exact fun p hp => absurd hp not_mem_empty

end Inv

theorem inv_of_reach {start size : ℕ} {heap : Heap} (hnew : Heap.new mem start size = some heap)
    (h : Reach step EventOk ⟨heap, .empty⟩ s) : ∃ free, Inv s free :=
  h.invariant (fun s => ∃ free, Inv s free) ⟨_, .new hnew⟩
    fun _ _ _ hs hok hstep => hs.elim fun _ hinv => hinv.step hok hstep

end HeapState

end HvisorRux.Rux.Alloc
