import HvisorRux.Common.TableTree
import HvisorRux.Stage2.PageTable

/-!
# What walks find and change

The position of an address in the tables of level `l` is its page number over `512 ^ l`. A walk
follows the pointers to the entry where the way to the address ends, and by the tree invariant that
entry is the only one that can translate it.
-/

namespace HvisorRux.Stage2

open Common PageTableEntry PageTable PageTableEntry

/-- The page number of an address. -/
def pageNumber (vaddr : ℕ) : ℕ := vaddr / 4096

variable (vaddr : ℕ)

theorem p4Index_eq : p4Index vaddr = pageNumber vaddr / 512 ^ 3 % 512 :=
  shiftRight_and_eq vaddr 3

theorem p3Index_eq : p3Index vaddr = pageNumber vaddr / 512 ^ 2 % 512 :=
  shiftRight_and_eq vaddr 2

theorem p2Index_eq : p2Index vaddr = pageNumber vaddr / 512 ^ 1 % 512 :=
  shiftRight_and_eq vaddr 1

theorem p1Index_eq : p1Index vaddr = pageNumber vaddr / 512 ^ 0 % 512 :=
  shiftRight_and_eq vaddr 0

theorem exists_of_bind_eq_ok {ε α β : Type} {x : Except ε α} {g : α → Except ε β} {b : β}
    (h : (x >>= g) = .ok b) : ∃ a, x = .ok a ∧ g a = .ok b := by
  cases x with
  | error e => cases h
  | ok a => exact ⟨a, rfl, h⟩

theorem nextTableMut_table {f : ℕ} (hf : PageTable.FrameAddr f) :
    nextTableMut (table f) = .ok f := by
  rw [nextTableMut, isPresent_table, isHuge_table, addr_table hf.1 hf.2]
  rfl

theorem nextTableMut_leaf (paddr : ℕ) (flags : MemFlags) :
    nextTableMut (leaf paddr flags true) = .error .mappedToHugePage := by
  rw [nextTableMut, isPresent_leaf, isHuge_leaf]
  rfl

namespace PageTable

variable {pt pt' : PageTable} {tables : ℕ → ℕ → Option ℕ} {k l f : ℕ}

/-! ## The way to a page -/

/-- The way to page `k` ends at its entry in table `f` of level `l`. -/
structure Ends (pt : PageTable) (tables : ℕ → ℕ → Option ℕ) (k l f : ℕ) : Prop where
  table : tables l (k / 512 ^ (l + 1)) = some f
  stop : ∀ g, pt.cell l f (k / 512 ^ l % 512) ≠ .table g

/-- The entries as words of a format. -/
def format : EntryFormat PageTableEntry ℕ where
  unused := 0
  decode := decode
  Valid := ValidEntry
  decode_unused := decode_zero
  valid_unused _ := .unused
  eq_of_decode_leaf h := by
    unfold decode at h
    split_ifs at h
    exact Cell.leaf.inj h

theorem Inv.tree (h : pt.Inv tables) :
    TableTree format 512 (pt.level - 1) pt.root pt.mem pt.frames tables :=
  ⟨h.wf, h.valid, h.fresh, h.nodup⟩

theorem Inv.of_tree (hlevel : pt.level = 3 ∨ pt.level = 4)
    (htree : TableTree format 512 (pt.level - 1) pt.root pt.mem pt.frames tables)
    (haddr : ∀ f ∈ pt.frames, FrameAddr f) : pt.Inv tables :=
  ⟨hlevel, htree.wf, htree.valid, htree.fresh, htree.nodup, haddr⟩

theorem Ends.way (he : pt.Ends tables k l f) : WayEnds format 512 pt.mem tables k l f :=
  ⟨he.table, he.stop⟩

variable {p vaddr : ℕ} {e : PageTableEntry} {page : Page} {frames : List ℕ} {size : PageSize}

section

variable (h : pt.Inv tables)

include h

theorem Inv.entry_cases (ht : tables l p = some f) (i : ℕ) :
    pt.mem f i = 0 ∨ (l ≤ 2 ∧ ∃ paddr flags, pt.mem f i = leaf paddr flags (decide (l ≠ 0))) ∨
      (l ≠ 0 ∧ ∃ g, FrameAddr g ∧ pt.mem f i = table g) := by
  have hv := h.valid ht i
  generalize pt.mem f i = e at hv
  cases hv with
  | unused => exact .inl rfl
  | leaf paddr flags hl => exact .inr (.inl ⟨hl, paddr, flags, rfl⟩)
  | table g hl hg => exact .inr (.inr ⟨hl, g, hg, rfl⟩)

/-- In a table that is not of the last level, the way ends at an entry that counts as huge, or leads
to the next table. -/
theorem Inv.huge_or_next (ht : tables (l + 1) (k / 512 ^ (l + 1 + 1)) = some f) {i : ℕ}
    (hi : i = k / 512 ^ (l + 1) % 512) :
    ((pt.entry ⟨f, i⟩).isHuge = true ∧ pt.Ends tables k (l + 1) f) ∨
      ((pt.entry ⟨f, i⟩).isHuge = false ∧
        ∃ g, nextTableMut (pt.entry ⟨f, i⟩) = .ok g ∧ tables l (k / 512 ^ (l + 1)) = some g) := by
  subst hi
  unfold entry
  obtain he | ⟨-, paddr, flags, he⟩ | ⟨-, g, hg, he⟩ :=
    h.entry_cases ht (k / 512 ^ (l + 1) % 512)
  · refine .inl ⟨by rw [he]; decide, ht, fun g hc => ?_⟩
    rw [cell, he] at hc
    cases hc
  · refine .inl ⟨by rw [he, isHuge_leaf]; simp, ht, fun g hc => ?_⟩
    rw [cell, he, decode_leaf] at hc
    cases hc
  · refine .inr ⟨by rw [he, isHuge_table], g, by rw [he, nextTableMut_table hg], ?_⟩
    refine h.wf.descend (by decide) ht ?_
    rw [cell, he, decode_table (Nat.succ_ne_zero l) hg]

theorem Inv.ends_of_last (ht : tables 0 (k / 512 ^ 1) = some f) : pt.Ends tables k 0 f :=
  ⟨ht, fun _ => h.wf.bottom ht (Nat.mod_lt _ (by decide))⟩

theorem Inv.getEntryFromP3 {p3 : ℕ} (ht : tables 2 (pageNumber vaddr / 512 ^ 3) = some p3) :
    ∃ size f, pt.Ends tables (pageNumber vaddr) (PageSize.level size) f ∧
      pt.getEntryFromP3 p3 vaddr =
        .ok (⟨f, pageNumber vaddr / 512 ^ (PageSize.level size) % 512⟩, size) := by
  unfold PageTable.getEntryFromP3
  obtain ⟨hhuge, hends⟩ | ⟨hhuge, p2, hnext, ht2⟩ := h.huge_or_next ht (p3Index_eq vaddr)
  · refine ⟨.size1G, p3, hends, ?_⟩
    rw [if_pos hhuge, p3Index_eq]
    rfl
  obtain ⟨hhuge', hends⟩ | ⟨hhuge', p1, hnext', ht1⟩ := h.huge_or_next ht2 (p2Index_eq vaddr)
  · refine ⟨.size2M, p2, hends, ?_⟩
    simp only [hhuge, hnext, hhuge', bind, Except.bind, Bool.false_eq_true, if_false, if_true]
    rw [p2Index_eq]
    rfl
  · refine ⟨.size4K, p1, h.ends_of_last ht1, ?_⟩
    simp only [hhuge, hnext, bind, Except.bind, hhuge', hnext', p1Index_eq]
    rfl

end

/-- An address below the end of the address space. -/
def InSpace (pt : PageTable) (vaddr : ℕ) : Prop := vaddr < 2 ^ (12 + 9 * pt.level)

/-- The root is the first table on the way to every page of the address space. -/
theorem Inv.root_table (h : pt.Inv tables) (hv : pt.InSpace vaddr) :
    tables (pt.level - 1) (pageNumber vaddr / 512 ^ (pt.level - 1 + 1)) = some pt.root := by
  have hzero : pageNumber vaddr / 512 ^ (pt.level - 1 + 1) = 0 := by
    have hlevel : pt.level - 1 + 1 = pt.level := by
      obtain hl | hl := h.level <;> omega
    rw [hlevel, pageNumber, Nat.div_div_eq_div_mul]
    refine Nat.div_eq_of_lt (lt_of_lt_of_le hv (le_of_eq ?_))
    rw [Nat.pow_add, Nat.pow_mul]
  rw [hzero]
  exact h.wf.root

/-- `get_entry_mut` returns the entry where the way ends, or stops at an empty entry of the first of
four levels. -/
theorem Inv.getEntryMut (h : pt.Inv tables) (hv : pt.InSpace vaddr) :
    (∃ size f, pt.Ends tables (pageNumber vaddr) (PageSize.level size) f ∧ pt.getEntryMut vaddr =
        .ok (⟨f, pageNumber vaddr / 512 ^ (PageSize.level size) % 512⟩, size)) ∨
      (∃ f, pt.Ends tables (pageNumber vaddr) 3 f ∧
        pt.mem f (pageNumber vaddr / 512 ^ 3 % 512) = 0 ∧
        pt.getEntryMut vaddr = .error .notMapped) := by
  have hroot := h.root_table hv
  unfold PageTable.getEntryMut
  obtain hl | hl := h.level
  · rw [hl] at hroot
    rw [if_neg (by omega)]
    exact .inl (h.getEntryFromP3 hroot)
  rw [hl] at hroot
  rw [if_pos hl, entry, p4Index_eq]
  obtain he | ⟨hle, -⟩ | ⟨-, g, hg, he⟩ := h.entry_cases hroot (pageNumber vaddr / 512 ^ 3 % 512)
  · refine .inr ⟨pt.root, ⟨hroot, fun g hc => ?_⟩, he, by rw [he]; rfl⟩
    rw [cell, he] at hc
    cases hc
  · omega
  · rw [he, nextTableMut_table hg]
    refine .inl (h.getEntryFromP3 (h.wf.descend (by decide) hroot ?_))
    rw [cell, he, decode_table (by decide) hg]

/-! ## Translation -/

/-- Some leaf of the tree maps the address. -/
def Translates (pt : PageTable) (tables : ℕ → ℕ → Option ℕ) (vaddr paddr : ℕ) (flags : MemFlags) :
    Prop :=
  ∃ (size : PageSize) (e : PageTableEntry),
    pt.Holds tables size.level (pageNumber vaddr / 512 ^ size.level) e ∧
      paddr = e.addr + size.pageOffset vaddr ∧ e.flags = some flags

theorem cell_eq_leaf_iff (hstop : ∀ g, pt.cell l f k ≠ .table g) :
    pt.cell l f k = .leaf e ↔ (pt.mem f k).isUnused = false ∧ pt.mem f k = e := by
  unfold cell decode at *
  split
  · next hu => simp [hu]
  rename_i hu
  split
  · simp [Bool.eq_false_iff.mpr hu]
  · next hne =>
    rw [if_neg hu, if_neg hne] at hstop
    exact absurd rfl (hstop _)

/-- The entry where the way ends is the only leaf that can map the page. -/
theorem Inv.holds_iff (h : pt.Inv tables) (he : pt.Ends tables k l f) {l' : ℕ} :
    pt.Holds tables l' (k / 512 ^ l') e ↔ l' = l ∧ (pt.mem f (k / 512 ^ l % 512)).isUnused = false ∧
        pt.mem f (k / 512 ^ l % 512) = e := by
  rw [Holds, h.wf.holds_iff he.table he.stop, cell_eq_leaf_iff he.stop]

/-- `query` returns what the tree translates an address to, and fails for the others. -/
theorem Inv.query (h : pt.Inv tables) (hv : pt.InSpace vaddr) :
    (∃ paddr flags size, pt.query vaddr = .ok (paddr, flags, size) ∧
      ∀ p f, pt.Translates tables vaddr p f ↔ p = paddr ∧ f = flags) ∨
    (pt.query vaddr = .error (.paging .notMapped) ∧ ∀ p f, ¬pt.Translates tables vaddr p f) := by
  obtain ⟨size, f, hends, hget⟩ | ⟨f, hends, hzero, hget⟩ := h.getEntryMut hv
  · cases hu : (pt.mem f (pageNumber vaddr / 512 ^ size.level % 512)).isUnused with
    | true =>
      refine .inr ⟨by simp only [PageTable.query, hget, entry, hu, if_true], ?_⟩
      rintro p fl ⟨size', e, hh, -⟩
      rw [h.holds_iff hends, hu] at hh
      exact Bool.noConfusion hh.2.1
    | false =>
      obtain he | ⟨-, paddr, flags, he⟩ | ⟨hl, g, hg, he⟩ :=
        h.entry_cases hends.table (pageNumber vaddr / 512 ^ size.level % 512)
      · rw [he] at hu
        cases hu
      · have hflags := flags_leaf paddr flags (decide (size.level ≠ 0))
        rw [← he] at hflags
        refine .inl ⟨_, _, size, by simp only [PageTable.query, hget, entry, hu, hflags]; rfl, ?_⟩
        intro p fl
        constructor
        · rintro ⟨size', e, hh, hp, hfl⟩
          rw [h.holds_iff hends] at hh
          obtain ⟨hsize, -, rfl⟩ := hh
          cases PageSize.level_inj hsize
          rw [hflags] at hfl
          exact ⟨hp, (Option.some.inj hfl).symm⟩
        · rintro ⟨rfl, rfl⟩
          exact ⟨size, _, (h.holds_iff hends).mpr ⟨rfl, hu, rfl⟩, rfl, hflags⟩
      · exact absurd (by rw [cell, he, decode_table hl hg]) (hends.stop g)
  · refine .inr ⟨by simp only [PageTable.query, hget], ?_⟩
    rintro p fl ⟨size', e, hh, -⟩
    rw [h.holds_iff hends, hzero] at hh
    exact Bool.noConfusion hh.2.1

/-- What the frame allocator guarantees: its frames are distinct, and entries can hold their
addresses. -/
structure Supply (root : ℕ) (frames : List ℕ) : Prop where
  nodup : (root :: frames).Nodup
  frameAddr : ∀ f ∈ frames, FrameAddr f

/-- A new page table translates nothing. -/
theorem Inv.new {level root : ℕ} (hlevel : level = 3 ∨ level = 4) (mem : ℕ → ℕ → PageTableEntry)
    (hf : Supply root frames) :
    ∃ tables, (PageTable.new level root mem frames).Inv tables ∧
      ∀ v p fl, ¬(PageTable.new level root mem frames).Translates tables v p fl := by
  have hzero : ∀ i, (PageTable.new level root mem frames).mem root i = 0 := by
    intro i
    simp [PageTable.new]
  obtain ⟨tables, htree, hnone⟩ := TableTree.single format 512 (level - 1) hzero hf.nodup
  refine ⟨tables, .of_tree hlevel htree hf.frameAddr, ?_⟩
  rintro v p fl ⟨size, e, hh, -⟩
  exact hnone _ _ _ hh

/-! ## Writing an entry -/

theorem pageNumber_div (vaddr : ℕ) (size : PageSize) :
    pageNumber vaddr / 512 ^ size.level = vaddr / size.bytes := by
  rw [pageNumber, Nat.div_div_eq_div_mul, PageSize.bytes_eq]

/-- The way ends at the same entry for every page that the entry covers. -/
theorem Ends.congr (he : pt.Ends tables k l f) {k' : ℕ} (hk : k' / 512 ^ l = k / 512 ^ l) :
    pt.Ends tables k' l f := by
  have hway := he.way.congr hk
  exact ⟨hway.table, hway.stop⟩

/-- Writing a valid entry that is no pointer where the way to a page ends changes the leaf there and
nothing else. -/
theorem Inv.setEntry (h : pt.Inv tables) (he : pt.Ends tables k l f) (hv : ValidEntry l e)
    (hnew : ∀ g, decode l e ≠ .table g) :
    (pt.setEntry ⟨f, k / 512 ^ l % 512⟩ e).Inv tables ∧
      ∀ l' q a, (pt.setEntry ⟨f, k / 512 ^ l % 512⟩ e).Holds tables l' q a ↔
        if l' = l ∧ q = k / 512 ^ l then decode l e = .leaf a else pt.Holds tables l' q a := by
  obtain ⟨htree, hholds⟩ := h.tree.write he.way hv hnew
  exact ⟨.of_tree h.level htree h.frameAddr, hholds⟩

/-- The translation of the addresses that the written entry covers is its own, that of the others is
as before. -/
theorem Inv.translates_setEntry (h : pt.Inv tables)
    (he : pt.Ends tables (pageNumber vaddr) size.level f) (hv : ValidEntry size.level e)
    (hnew : ∀ g, decode size.level e ≠ .table g) {v : ℕ} {fl : MemFlags} :
    (pt.setEntry ⟨f, pageNumber vaddr / 512 ^ size.level % 512⟩ e).Translates tables v p fl ↔
      if v / size.bytes = vaddr / size.bytes then
        decode size.level e = .leaf e ∧ p = e.addr + size.pageOffset v ∧ e.flags = some fl
      else pt.Translates tables v p fl := by
  have hholds := (h.setEntry he hv hnew).2
  rw [← pageNumber_div v size, ← pageNumber_div vaddr size]
  unfold Translates
  simp only [hholds]
  split
  · next hsame =>
    constructor
    · rintro ⟨size', e', hh, hp, hfl⟩
      by_cases hl : size' = size
      · subst hl
        rw [if_pos ⟨rfl, hsame⟩] at hh
        have hleaf : e = e' := by
          unfold decode at hh
          split_ifs at hh
          exact Cell.leaf.inj hh
        subst hleaf
        exact ⟨hh, hp, hfl⟩
      · -- a leaf of another size would end the way elsewhere
        rw [if_neg fun hc => hl (PageSize.level_inj hc.1), h.holds_iff (he.congr hsame)] at hh
        exact absurd (PageSize.level_inj hh.1) hl
    · rintro ⟨hleaf, hp, hfl⟩
      exact ⟨size, e, by rw [if_pos ⟨rfl, hsame⟩]; exact hleaf, hp, hfl⟩
  · next hdiff =>
    refine exists_congr fun size' => exists_congr fun e' => and_congr_left fun _ => ?_
    rw [if_neg]
    rintro ⟨hl, hpos⟩
    cases PageSize.level_inj hl
    exact hdiff hpos

/-! ## Unmapping a page -/

theorem Inv.unmapPage (h : pt.Inv tables) {paddr : ℕ} (hv : pt.InSpace vaddr)
    (hok : pt.unmapPage vaddr = .ok (pt', paddr, size)) :
    pt'.Inv tables ∧ pt'.level = pt.level ∧ ∀ v p fl, pt'.Translates tables v p fl ↔
      pt.Translates tables v p fl ∧ v / size.bytes ≠ vaddr / size.bytes := by
  have hempty : ∀ l g, decode l 0 ≠ .table g := by
    intro l g hc
    cases hc
  obtain ⟨size', f, hends, hget⟩ | ⟨f, -, -, hget⟩ := h.getEntryMut hv
  · simp only [PageTable.unmapPage, hget, bind, Except.bind] at hok
    split at hok
    · cases hok
    cases hok
    refine ⟨(h.setEntry hends .unused (hempty _)).1, rfl, fun v p fl => ?_⟩
    rw [h.translates_setEntry hends .unused (hempty _), decode_zero]
    split
    · next hsame => simp [hsame]
    · next hdiff => simp [hdiff]
  · simp only [PageTable.unmapPage, hget, bind, Except.bind] at hok
    cases hok

/-! ## Mapping a page -/

/-- Tables may have been added, but nothing is mapped that was not before. -/
structure Grows (pt : PageTable) (tables : ℕ → ℕ → Option ℕ) (pt' : PageTable)
    (tables' : ℕ → ℕ → Option ℕ) : Prop where
  inv : pt'.Inv tables'
  level : pt'.level = pt.level
  root : pt'.root = pt.root
  holds : ∀ l q e, pt'.Holds tables' l q e ↔ pt.Holds tables l q e

theorem Grows.refl (h : pt.Inv tables) : Grows pt tables pt tables :=
  ⟨h, rfl, rfl, fun _ _ _ => Iff.rfl⟩

theorem Grows.trans {pt'' : PageTable} {tables' tables'' : ℕ → ℕ → Option ℕ}
    (h : Grows pt tables pt' tables') (h' : Grows pt' tables' pt'' tables'') :
    Grows pt tables pt'' tables'' :=
  ⟨h'.inv, h'.level.trans h.level, h'.root.trans h.root,
    fun l q e => (h'.holds l q e).trans (h.holds l q e)⟩

theorem Grows.translates {tables' : ℕ → ℕ → Option ℕ} (h : Grows pt tables pt' tables') {v : ℕ}
    {fl : MemFlags} : pt'.Translates tables' v p fl ↔ pt.Translates tables v p fl := by
  unfold Translates
  simp only [h.holds]

section

variable (h : pt.Inv tables)

include h

/-- Linking a frame of the allocator below an unused entry on the way to a page. -/
theorem Inv.create (ht : tables (l + 1) (k / 512 ^ (l + 1 + 1)) = some f)
    (hzero : pt.mem f (k / 512 ^ (l + 1) % 512) = 0) {frame : ℕ}
    (hframes : pt.frames = frame :: frames) :
    Grows pt tables
      (PageTable.setEntry { pt with mem := Function.update pt.mem frame fun _ => 0, frames }
        ⟨f, k / 512 ^ (l + 1) % 512⟩ (PageTableEntry.table frame))
      (Radix.addTable tables l (k / 512 ^ (l + 1)) frame) := by
  have haddr : FrameAddr frame := h.frameAddr frame (by rw [hframes]; exact List.mem_cons_self)
  have htree := h.tree
  rw [hframes] at htree
  obtain ⟨htree', hholds⟩ := htree.link ht hzero (.table frame (Nat.succ_ne_zero l) haddr)
    (decode_table (Nat.succ_ne_zero l) haddr)
  refine ⟨.of_tree h.level htree' fun f' hf' => ?_, rfl, rfl, hholds⟩
  exact h.frameAddr f' (by rw [hframes]; exact List.mem_cons_of_mem _ hf')

/-- `next_table_mut_or_create` on the way to a page gives the next table on the way. -/
theorem Inv.nextTableMutOrCreate (ht : tables (l + 1) (k / 512 ^ (l + 1 + 1)) = some f) {i g : ℕ}
    (hi : i = k / 512 ^ (l + 1) % 512) (hok : pt.nextTableMutOrCreate ⟨f, i⟩ = .ok (pt', g)) :
    ∃ tables', Grows pt tables pt' tables' ∧ tables' l (k / 512 ^ (l + 1)) = some g := by
  subst hi
  unfold PageTable.nextTableMutOrCreate at hok
  unfold entry at hok
  obtain he | ⟨-, paddr, flags, he⟩ | ⟨-, g', hg, he⟩ :=
    h.entry_cases ht (k / 512 ^ (l + 1) % 512)
  · rw [he, if_pos isUnused_zero, allocIntrmTable] at hok
    cases hframes : pt.frames with
    | nil =>
      rw [hframes] at hok
      cases hok
    | cons frame frames =>
      rw [hframes] at hok
      cases hok
      exact ⟨_, h.create ht he hframes, by rw [Radix.addTable, if_pos ⟨rfl, rfl⟩]⟩
  · rw [he, isUnused_leaf, if_neg Bool.false_ne_true,
      decide_eq_true (Nat.succ_ne_zero l), nextTableMut_leaf] at hok
    cases hok
  · rw [he, isUnused_table, if_neg Bool.false_ne_true, nextTableMut_table hg] at hok
    cases hok
    refine ⟨tables, .refl h, h.wf.descend (by decide) ht ?_⟩
    rw [cell, he, decode_table (Nat.succ_ne_zero l) hg]

theorem Inv.getEntryOrCreateFromP3 {p3 : ℕ} {slot : Slot}
    (ht : tables 2 (pageNumber page.vaddr / 512 ^ 3) = some p3)
    (hok : pt.getEntryOrCreateFromP3 p3 page = .ok (pt', slot)) :
    ∃ tables' f, Grows pt tables pt' tables' ∧
      tables' page.size.level (pageNumber page.vaddr / 512 ^ (page.size.level + 1)) = some f ∧
      slot = ⟨f, pageNumber page.vaddr / 512 ^ page.size.level % 512⟩ := by
  unfold PageTable.getEntryOrCreateFromP3 at hok
  split at hok
  · next hsize =>
    cases hok
    rw [hsize]
    exact ⟨tables, p3, .refl h, ht, by rw [p3Index_eq]; rfl⟩
  rename_i hne
  obtain ⟨⟨pt₂, p2⟩, h2, hok⟩ := exists_of_bind_eq_ok hok
  obtain ⟨tables₂, hgrow₂, ht₂⟩ := h.nextTableMutOrCreate ht (p3Index_eq page.vaddr) h2
  dsimp only at hok
  split at hok
  · next hsize =>
    cases hok
    rw [hsize]
    exact ⟨tables₂, p2, hgrow₂, ht₂, by rw [p2Index_eq]; rfl⟩
  rename_i hne'
  obtain ⟨⟨pt₁, p1⟩, h1, hok⟩ := exists_of_bind_eq_ok hok
  obtain ⟨tables₁, hgrow₁, ht₁⟩ :=
    hgrow₂.inv.nextTableMutOrCreate ht₂ (p2Index_eq page.vaddr) h1
  have hsize : page.size = .size4K := by
    cases hs : page.size
    · rfl
    · exact absurd hs hne'
    · exact absurd hs hne
  cases hok
  rw [hsize]
  exact ⟨tables₁, p1, hgrow₂.trans hgrow₁, ht₁, by rw [p1Index_eq]; rfl⟩

theorem Inv.getEntryMutOrCreate {slot : Slot} (hv : pt.InSpace page.vaddr)
    (hok : pt.getEntryMutOrCreate page = .ok (pt', slot)) :
    ∃ tables' f, Grows pt tables pt' tables' ∧
      tables' page.size.level (pageNumber page.vaddr / 512 ^ (page.size.level + 1)) = some f ∧
      slot = ⟨f, pageNumber page.vaddr / 512 ^ page.size.level % 512⟩ := by
  have hroot := h.root_table hv
  unfold PageTable.getEntryMutOrCreate at hok
  obtain hl | hl := h.level
  · rw [hl] at hroot
    rw [if_neg (by omega)] at hok
    exact h.getEntryOrCreateFromP3 hroot hok
  rw [hl] at hroot
  rw [if_pos hl] at hok
  obtain ⟨⟨pt₃, p3⟩, h3, hok⟩ := exists_of_bind_eq_ok hok
  obtain ⟨tables₃, hgrow₃, ht₃⟩ := h.nextTableMutOrCreate hroot (p4Index_eq page.vaddr) h3
  obtain ⟨tables', f, hgrow, hrest⟩ := hgrow₃.inv.getEntryOrCreateFromP3 ht₃ hok
  exact ⟨tables', f, hgrow₃.trans hgrow, hrest⟩

/-- A mapped page translates the addresses that it covers, and the others are as before. -/
theorem Inv.mapPage {paddr : ℕ} {flags : MemFlags} (hv : pt.InSpace page.vaddr)
    (hok : pt.mapPage page paddr flags = .ok pt') :
    ∃ tables', pt'.Inv tables' ∧ pt'.level = pt.level ∧ ∀ v p fl, pt'.Translates tables' v p fl ↔
      pt.Translates tables v p fl ∨ (v / page.size.bytes = page.vaddr / page.size.bytes ∧
          p = page.size.alignDown paddr % 2 ^ 48 / 4096 * 4096 + page.size.pageOffset v ∧
          fl = flags &&& keptFlags) := by
  obtain ⟨⟨pt₁, slot⟩, hget, hok⟩ := exists_of_bind_eq_ok hok
  obtain ⟨tables', f, hgrow, ht, rfl⟩ := h.getEntryMutOrCreate hv hget
  dsimp only at hok
  split at hok
  · cases hok
  rename_i hu
  cases hok
  rw [entry, Bool.not_eq_true', Bool.not_eq_false, isUnused, beq_iff_eq] at hu
  have hends : pt₁.Ends tables' (pageNumber page.vaddr) page.size.level f := by
    refine ⟨ht, fun g hc => ?_⟩
    rw [cell, hu] at hc
    cases hc
  have hleaf := decode_leaf (l := page.size.level) (page.size.alignDown paddr) flags
  have hvalid := ValidEntry.leaf (page.size.alignDown paddr) flags page.size.level_le
  rw [← page.size.isHuge_eq] at hleaf hvalid
  have hnew : ∀ g, decode page.size.level
      (leaf (page.size.alignDown paddr) flags page.size.isHuge) ≠ .table g := by
    intro g hc
    rw [hleaf] at hc
    cases hc
  rw [entry, hu]
  refine ⟨tables', (hgrow.inv.setEntry hends hvalid hnew).1, hgrow.level, fun v p fl => ?_⟩
  refine (hgrow.inv.translates_setEntry hends hvalid hnew).trans ?_
  rw [hleaf, addr_leaf, flags_leaf, hgrow.translates]
  split
  · next hsame =>
    -- the entry was unused, so nothing was mapped there
    have hnone : ¬pt.Translates tables v p fl := by
      rw [← hgrow.translates]
      rintro ⟨size, e, hh, -⟩
      have hpos : pageNumber v / 512 ^ page.size.level =
          pageNumber page.vaddr / 512 ^ page.size.level := by
        rw [pageNumber_div, pageNumber_div, hsame]
      rw [hgrow.inv.holds_iff (hends.congr hpos), hpos, hu] at hh
      exact Bool.noConfusion hh.2.1
    simp [hsame, hnone, eq_comm]
  · next hdiff => simp [hdiff]

end

end PageTable

end HvisorRux.Stage2
