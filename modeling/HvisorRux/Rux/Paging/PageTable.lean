import HvisorRux.Common.TableTree
import HvisorRux.Rux.Paging.Entry
import Mathlib.Data.List.ReduceOption

/-!
# The page table of RuxOS

`PageTable64` of the `page_table` crate with four levels (`A64PagingMetaData`), generic in the entry
type. A table is known by the address of its frame, and memory is a function from frames and indices
to entries. What `alloc_frame` will answer is a list; a frame is cleared when it becomes a table.

A call that fails may have added tables on the way, so every operation returns the page table with
its result. Calls are `none` where an assertion fails.
-/

namespace HvisorRux.Rux.Paging

open Common

/-- `PagingError`. -/
inductive PagingError
  | noMemory
  | notAligned
  | notMapped
  | alreadyMapped
  | mappedToHugePage
deriving DecidableEq

/-- `PageSize`. -/
inductive PageSize
  | size4K
  | size2M
  | size1G
deriving DecidableEq

namespace PageSize

def bytes : PageSize → ℕ
  | .size4K => 0x1000
  | .size2M => 0x200000
  | .size1G => 0x40000000

def isHuge : PageSize → Bool
  | .size1G | .size2M => true
  | .size4K => false

section

variable (size : PageSize) (addr : ℕ)

/-- `align_down`, `align_offset` and `is_aligned` of an address. -/
def alignDown : ℕ := addr / size.bytes * size.bytes
def alignOffset : ℕ := addr % size.bytes
def isAligned : Bool := addr % size.bytes == 0

end

/-- The level of the tables whose entries map pages of this size. -/
def level : PageSize → ℕ
  | .size4K => 0
  | .size2M => 1
  | .size1G => 2

variable (size : PageSize)

theorem bytes_eq : size.bytes = 4096 * 512 ^ size.level := by
  cases size <;> rfl

theorem bytes_pos : 0 < size.bytes := by
  cases size <;> decide

theorem dvd_bytes : 4096 ∣ size.bytes := by
  cases size <;> decide

theorem isHuge_eq : size.isHuge = decide (size.level ≠ 0) := by
  cases size <;> rfl

theorem level_le : size.level ≤ 2 := by
  cases size <;> decide

theorem level_inj {size size' : PageSize} (h : size.level = size'.level) : size = size' := by
  cases size <;> cases size' <;> first | rfl | cases h

end PageSize

/-- `p4_index` to `p1_index`. -/
def p4Index (vaddr : ℕ) : ℕ := (vaddr >>> (12 + 27)) &&& (512 - 1)
def p3Index (vaddr : ℕ) : ℕ := (vaddr >>> (12 + 18)) &&& (512 - 1)
def p2Index (vaddr : ℕ) : ℕ := (vaddr >>> (12 + 9)) &&& (512 - 1)
def p1Index (vaddr : ℕ) : ℕ := (vaddr >>> 12) &&& (512 - 1)

/-- A reference to an entry. -/
structure Slot where
  table : ℕ
  index : ℕ

/-- `PageTable64` with the memory that its tables are in, and the answers of `alloc_frame`. -/
structure PageTable64 (PTE : Type) where
  rootPaddr : ℕ
  mem : ℕ → ℕ → PTE
  frames : List (Option ℕ)

namespace PageTable64

section Operations

variable {PTE : Type} [GenericPTE PTE]

open GenericPTE

/-- `try_new`, with a frame for the root. -/
def new (rootPaddr : ℕ) (mem : ℕ → ℕ → PTE) (frames : List (Option ℕ)) : PageTable64 PTE where
  rootPaddr := rootPaddr
  mem := Function.update mem rootPaddr fun _ => empty
  frames := frames

def entry (pt : PageTable64 PTE) (slot : Slot) : PTE := pt.mem slot.table slot.index

def setEntry (pt : PageTable64 PTE) (slot : Slot) (e : PTE) : PageTable64 PTE :=
  { pt with mem := setCell pt.mem slot.table slot.index e }

/-- `alloc_table`. -/
def allocTable (pt : PageTable64 PTE) : PageTable64 PTE × Except PagingError ℕ :=
  match pt.frames with
  | some frame :: frames =>
    ({ pt with mem := Function.update pt.mem frame fun _ => empty, frames }, .ok frame)
  | none :: frames => ({ pt with frames }, .error .noMemory)
  | [] => (pt, .error .noMemory)

/-- `next_table_mut`. -/
def nextTableMut (e : PTE) : Except PagingError ℕ :=
  if !isPresent e then .error .notMapped
  else if GenericPTE.isHuge e then .error .mappedToHugePage
  else .ok (paddr e)

/-- `next_table_mut_or_create`. -/
def nextTableMutOrCreate (pt : PageTable64 PTE) (slot : Slot) :
    PageTable64 PTE × Except PagingError ℕ :=
  if isUnused (pt.entry slot) then
    match pt.allocTable with
    | (pt, .ok paddr) => (pt.setEntry slot (newTable paddr), .ok paddr)
    | (pt, .error e) => (pt, .error e)
  else (pt, nextTableMut (pt.entry slot))

/-- `get_entry_mut`. -/
def getEntryMut (pt : PageTable64 PTE) (vaddr : ℕ) : Except PagingError (Slot × PageSize) := do
  let p3 ← nextTableMut (pt.entry ⟨pt.rootPaddr, p4Index vaddr⟩)
  let p3e : Slot := ⟨p3, p3Index vaddr⟩
  if GenericPTE.isHuge (pt.entry p3e) then return (p3e, .size1G)
  let p2 ← nextTableMut (pt.entry p3e)
  let p2e : Slot := ⟨p2, p2Index vaddr⟩
  if GenericPTE.isHuge (pt.entry p2e) then return (p2e, .size2M)
  let p1 ← nextTableMut (pt.entry p2e)
  return (⟨p1, p1Index vaddr⟩, .size4K)

/-- Go on with the result of a call that succeeded. -/
def andThen {α β : Type} (r : PageTable64 PTE × Except PagingError α)
    (next : PageTable64 PTE → α → PageTable64 PTE × Except PagingError β) :
    PageTable64 PTE × Except PagingError β :=
  match r with
  | (pt, .ok a) => next pt a
  | (pt, .error e) => (pt, .error e)

section

variable (pt : PageTable64 PTE)

/-- `get_entry_mut_or_create`. -/
def getEntryMutOrCreate (vaddr : ℕ) (pageSize : PageSize) :
    PageTable64 PTE × Except PagingError Slot :=
  andThen (pt.nextTableMutOrCreate ⟨pt.rootPaddr, p4Index vaddr⟩) fun pt p3 =>
    let p3e : Slot := ⟨p3, p3Index vaddr⟩
    if pageSize = .size1G then (pt, .ok p3e)
    else andThen (pt.nextTableMutOrCreate p3e) fun pt p2 =>
      let p2e : Slot := ⟨p2, p2Index vaddr⟩
      if pageSize = .size2M then (pt, .ok p2e)
      else andThen (pt.nextTableMutOrCreate p2e) fun pt p1 =>
        (pt, .ok ⟨p1, p1Index vaddr⟩)

/-- `map`. -/
def map (vaddr target : ℕ) (pageSize : PageSize) (flags : MappingFlags) :
    PageTable64 PTE × Except PagingError Unit :=
  andThen (pt.getEntryMutOrCreate vaddr pageSize) fun pt slot =>
    if !isUnused (pt.entry slot) then (pt, .error .alreadyMapped)
    else (pt.setEntry slot (newPage (pageSize.alignDown target) flags pageSize.isHuge), .ok ())

/-- `unmap`. -/
def unmap (vaddr : ℕ) : PageTable64 PTE × Except PagingError (ℕ × PageSize) :=
  match pt.getEntryMut vaddr with
  | .error e => (pt, .error e)
  | .ok (slot, size) =>
    if isUnused (pt.entry slot) then (pt, .error .notMapped)
    else (pt.setEntry slot empty, .ok (paddr (pt.entry slot), size))

/-- `query`. -/
def query (vaddr : ℕ) : Except PagingError (ℕ × MappingFlags × PageSize) :=
  match pt.getEntryMut vaddr with
  | .error e => .error e
  | .ok (slot, size) =>
    if isUnused (pt.entry slot) then .error .notMapped
    else .ok (paddr (pt.entry slot) + size.alignOffset vaddr, flags (pt.entry slot), size)

end

/-- The size of the next page of `map_region`. -/
def regionPageSize (vaddr paddr size : ℕ) (allowHuge : Bool) : PageSize :=
  if allowHuge then
    if PageSize.size1G.isAligned vaddr && PageSize.size1G.isAligned paddr &&
        decide (PageSize.size1G.bytes ≤ size) then .size1G
    else if PageSize.size2M.isAligned vaddr && PageSize.size2M.isAligned paddr &&
        decide (PageSize.size2M.bytes ≤ size) then .size2M
    else .size4K
  else .size4K

/-- The loop of `map_region`; each round maps at least 4 KiB, so `fuel` is enough if that many pages
are left. -/
def mapRegionLoop (flags : MappingFlags) (allowHuge : Bool) :
    (fuel : ℕ) → PageTable64 PTE → (vaddr paddr size : ℕ) →
      PageTable64 PTE × Except PagingError Unit
  | 0, pt, _, _, _ => (pt, .ok ())
  | fuel + 1, pt, vaddr, paddr, size =>
    if size = 0 then (pt, .ok ())
    else
      let pageSize := regionPageSize vaddr paddr size allowHuge
      andThen (pt.map vaddr paddr pageSize flags) fun pt _ =>
        mapRegionLoop flags allowHuge fuel pt (vaddr + pageSize.bytes) (paddr + pageSize.bytes)
          (size - pageSize.bytes)

/-- `map_region`. -/
def mapRegion (pt : PageTable64 PTE) (vaddr paddr size : ℕ) (flags : MappingFlags)
    (allowHuge : Bool) : PageTable64 PTE × Except PagingError Unit :=
  if !PageSize.size4K.isAligned vaddr || !PageSize.size4K.isAligned paddr ||
      !PageSize.size4K.isAligned size then (pt, .error .notAligned)
  else mapRegionLoop flags allowHuge (size / 4096) pt vaddr paddr size

/-- The loop of `unmap_region`; `none` is a failed assertion. A round that goes on has unmapped at
least 4 KiB of the region. -/
def unmapRegionLoop : (fuel : ℕ) → PageTable64 PTE → (vaddr size : ℕ) →
      Option (PageTable64 PTE × Except PagingError Unit)
  | 0, _, _, _ => none
  | fuel + 1, pt, vaddr, size =>
    if size = 0 then some (pt, .ok ())
    else
      match pt.unmap vaddr with
      | (pt, .error e) => some (pt, .error e)
      | (pt, .ok (_, pageSize)) =>
        if pageSize.isAligned vaddr && decide (pageSize.bytes ≤ size) then
          unmapRegionLoop fuel pt (vaddr + pageSize.bytes) (size - pageSize.bytes)
        else none

/-- `unmap_region`. -/
def unmapRegion (pt : PageTable64 PTE) (vaddr size : ℕ) :
    Option (PageTable64 PTE × Except PagingError Unit) :=
  unmapRegionLoop (size / 4096 + 1) pt vaddr size

end Operations

/-! ## The tree in memory -/

variable {PTE : Type} [GenericPTE PTE] [LawfulPTE PTE]

open GenericPTE LawfulPTE

/-- The entries that the operations make for a table of level `l`. -/
inductive ValidEntry (l : ℕ) : PTE → Prop
  | unused : ValidEntry l empty
  | page (paddr : ℕ) (flags : MappingFlags) : l ≤ 2 → FrameAddr paddr → Keeps PTE flags →
      ValidEntry l (newPage paddr flags (decide (l ≠ 0)))
  | table (f : ℕ) : l ≠ 0 → FrameAddr f → ValidEntry l (newTable f)

variable (PTE) in
/-- How the walks read entries. -/
def format : EntryFormat PTE ℕ where
  unused := empty
  decode l e :=
    if isUnused e then .empty
    else if l = 0 ∨ GenericPTE.isHuge e = true then .leaf e
    else .table (paddr e)
  Valid := ValidEntry
  decode_unused _ := if_pos (isUnused_iff.mpr rfl)
  valid_unused _ := .unused
  eq_of_decode_leaf := by
    intro l e e' h
    split_ifs at h
    exact Cell.leaf.inj h

/-- The tables are a tree of four levels, and `alloc_frame` answers with fresh frames. -/
structure Inv (pt : PageTable64 PTE) (tables : ℕ → ℕ → Option ℕ) : Prop where
  tree : TableTree (format PTE) 512 3 pt.rootPaddr pt.mem pt.frames.reduceOption tables
  frameAddr : ∀ f, some f ∈ pt.frames → FrameAddr f

/-- There is a leaf for pages of level `l` at position `q`. -/
abbrev Holds (pt : PageTable64 PTE) (tables : ℕ → ℕ → Option ℕ) (l q : ℕ) (e : PTE) : Prop :=
  (format PTE).Holds 512 pt.mem tables l q e

/-- The way to page number `k` ends in table `f` of level `l`. -/
abbrev Ends (pt : PageTable64 PTE) (tables : ℕ → ℕ → Option ℕ) (k l f : ℕ) : Prop :=
  WayEnds (format PTE) 512 pt.mem tables k l f

section Entries

variable {l : ℕ} {flags : MappingFlags}

theorem isUnused_eq_false_of_isPresent {e : PTE} (h : isPresent e = true) : isUnused e = false := by
  rw [Bool.eq_false_iff, Ne, isUnused_iff]
  rintro rfl
  rw [isPresent_empty] at h
  cases h

theorem isUnused_newPage (h : Keeps PTE flags) (paddr : ℕ) (huge : Bool) :
    isUnused (newPage paddr flags huge : PTE) = false :=
  isUnused_eq_false_of_isPresent (isPresent_newPage h paddr huge)

theorem decode_empty (l : ℕ) : (format PTE).decode l empty = .empty :=
  (format PTE).decode_unused l

theorem decode_newPage (h : Keeps PTE flags) (paddr : ℕ) :
    (format PTE).decode l (newPage paddr flags (decide (l ≠ 0))) =
      .leaf (newPage paddr flags (decide (l ≠ 0))) := by
  change (if _ then _ else _) = _
  rw [isUnused_newPage h, if_neg Bool.false_ne_true, if_pos]
  rw [isHuge_newPage]
  simp only [decide_eq_true_eq]
  exact em (l = 0)

theorem decode_newTable {f : ℕ} (hl : l ≠ 0) (hf : FrameAddr f) :
    (format PTE).decode l (newTable f) = .table f := by
  change (if _ then _ else _) = _
  rw [isUnused_eq_false_of_isPresent (isPresent_newTable f), if_neg Bool.false_ne_true, if_neg,
    paddr_newTable hf]
  rw [isHuge_newTable]
  simpa using hl

theorem nextTableMut_empty : nextTableMut (empty : PTE) = .error .notMapped := by
  rw [nextTableMut, isPresent_empty]
  rfl

theorem nextTableMut_newTable {f : ℕ} (hf : FrameAddr f) :
    nextTableMut (newTable f : PTE) = .ok f := by
  rw [nextTableMut, isPresent_newTable, isHuge_newTable, paddr_newTable hf]
  rfl

end Entries

/-! ## Positions -/

/-- The page number of an address. -/
def pageNumber (vaddr : ℕ) : ℕ := vaddr / 4096

variable (vaddr : ℕ)

theorem p4Index_eq : p4Index vaddr = pageNumber vaddr / 512 ^ 3 % 512 :=
  shiftRight_and_eq vaddr 3

theorem p3Index_eq : p3Index vaddr = pageNumber vaddr / 512 ^ 2 % 512 :=
  shiftRight_and_eq vaddr 2

theorem p2Index_eq : p2Index vaddr = pageNumber vaddr / 512 ^ 1 % 512 :=
  shiftRight_and_eq vaddr 1

theorem p1Index_eq : p1Index vaddr = pageNumber vaddr / 512 ^ 0 % 512 :=
  shiftRight_and_eq vaddr 0

theorem pageNumber_div (size : PageSize) :
    pageNumber vaddr / 512 ^ size.level = vaddr / size.bytes := by
  rw [pageNumber, Nat.div_div_eq_div_mul, PageSize.bytes_eq]

/-! ## Walking to an address -/

variable {pt pt' : PageTable64 PTE} {tables : ℕ → ℕ → Option ℕ} {k l f : ℕ}

/-- A new page table has no pages. -/
theorem Inv.new {rootPaddr : ℕ} (mem : ℕ → ℕ → PTE) {frames : List (Option ℕ)}
    (hnodup : (rootPaddr :: frames.reduceOption).Nodup)
    (hframes : ∀ f, some f ∈ frames → FrameAddr f) :
    ∃ tables, (new rootPaddr mem frames).Inv tables ∧
      ∀ l q e, ¬(new rootPaddr mem frames).Holds tables l q e := by
  have hempty : ∀ i, (PageTable64.new rootPaddr mem frames).mem rootPaddr i =
      (format PTE).unused := by
    intro i
    simp [PageTable64.new, format]
  obtain ⟨tables, htree, hnone⟩ := TableTree.single (format PTE) 512 3 hempty hnodup
  exact ⟨tables, ⟨htree, hframes⟩, hnone⟩

section

variable (h : pt.Inv tables)

include h

/-- The three things that an entry on the way can be. -/
theorem Inv.entry_cases {p : ℕ} (ht : tables l p = some f) (i : ℕ) :
    pt.mem f i = empty ∨ (l ≤ 2 ∧ ∃ paddr flags, FrameAddr paddr ∧ Keeps PTE flags ∧
        pt.mem f i = newPage paddr flags (decide (l ≠ 0))) ∨
      (l ≠ 0 ∧ ∃ g, FrameAddr g ∧ pt.mem f i = newTable g) := by
  have hv : ValidEntry l (pt.mem f i) := h.tree.valid ht i
  generalize pt.mem f i = e at hv
  cases hv with
  | unused => exact .inl rfl
  | page paddr flags hl hp hf => exact .inr (.inl ⟨hl, paddr, flags, hp, hf, rfl⟩)
  | table g hl hg => exact .inr (.inr ⟨hl, g, hg, rfl⟩)

/-- In a table that is not of the last level, the way ends at an unused entry or at a page, or leads
to the next table. -/
theorem Inv.next_cases (ht : tables (l + 1) (k / 512 ^ (l + 1 + 1)) = some f) {i : ℕ}
    (hi : i = k / 512 ^ (l + 1) % 512) :
    (pt.entry ⟨f, i⟩ = empty ∧ pt.Ends tables k (l + 1) f) ∨
      (l ≤ 1 ∧ GenericPTE.isHuge (pt.entry ⟨f, i⟩) = true ∧ pt.Ends tables k (l + 1) f) ∨
      (GenericPTE.isHuge (pt.entry ⟨f, i⟩) = false ∧ isUnused (pt.entry ⟨f, i⟩) = false ∧
        ∃ g, nextTableMut (pt.entry ⟨f, i⟩) = .ok g ∧ tables l (k / 512 ^ (l + 1)) = some g) := by
  subst hi
  unfold entry
  obtain he | ⟨hl, paddr, flags, -, hflags, he⟩ | ⟨-, g, hg, he⟩ :=
    h.entry_cases ht (k / 512 ^ (l + 1) % 512)
  · exact .inl ⟨he, .of_unused ht he⟩
  · refine .inr (.inl ⟨Nat.le_of_succ_le_succ hl, by rw [he, isHuge_newPage]; simp, ht, ?_⟩)
    intro g hc
    rw [EntryFormat.cell, he, decode_newPage hflags] at hc
    cases hc
  · refine .inr (.inr ⟨by rw [he, isHuge_newTable], ?_, g, ?_, ?_⟩)
    · rw [he, isUnused_eq_false_of_isPresent (isPresent_newTable g)]
    · rw [he, nextTableMut_newTable hg]
    · refine h.tree.wf.descend (by decide) ht ?_
      rw [EntryFormat.cell, he, decode_newTable (Nat.succ_ne_zero l) hg]

/-- The root is the first table on the way to every page of the address space. -/
theorem Inv.root_table {vaddr : ℕ} (hv : vaddr < 2 ^ 48) :
    tables 3 (pageNumber vaddr / 512 ^ (3 + 1)) = some pt.rootPaddr := by
  have hzero : pageNumber vaddr / 512 ^ (3 + 1) = 0 := by
    rw [pageNumber, Nat.div_div_eq_div_mul]
    exact Nat.div_eq_of_lt hv
  rw [hzero]
  exact h.tree.wf.root

/-- `get_entry_mut` returns the entry where the way to an address ends, or stops before an unused
one. -/
theorem Inv.getEntryMut {vaddr : ℕ} (hv : vaddr < 2 ^ 48) :
    (∃ size f, pt.Ends tables (pageNumber vaddr) (PageSize.level size) f ∧ pt.getEntryMut vaddr =
        .ok (⟨f, pageNumber vaddr / 512 ^ (PageSize.level size) % 512⟩, size)) ∨
      (∃ l f, pt.Ends tables (pageNumber vaddr) l f ∧
        pt.mem f (pageNumber vaddr / 512 ^ l % 512) = empty ∧
        pt.getEntryMut vaddr = .error .notMapped) := by
  unfold PageTable64.getEntryMut
  -- the first level has no pages
  obtain ⟨he, hends⟩ | ⟨hl, -⟩ | ⟨-, -, p3, hnext, ht3⟩ :=
    h.next_cases (h.root_table hv) (p4Index_eq vaddr)
  · refine .inr ⟨3, pt.rootPaddr, hends, ?_, by rw [he, nextTableMut_empty]; rfl⟩
    rw [← p4Index_eq]
    exact he
  · omega
  rw [hnext]
  simp only [bind, Except.bind]
  cases hhuge3 : GenericPTE.isHuge (pt.entry ⟨p3, p3Index vaddr⟩) with
  | true =>
    refine .inl ⟨.size1G, p3, ?_, by rw [if_pos rfl, p3Index_eq]; rfl⟩
    obtain ⟨-, hends⟩ | ⟨-, -, hends⟩ | ⟨hc, -⟩ := h.next_cases ht3 (p3Index_eq vaddr)
    · exact hends
    · exact hends
    · rw [hhuge3] at hc
      cases hc
  | false =>
    rw [if_neg Bool.false_ne_true]
    obtain ⟨he, hends⟩ | ⟨-, hc, -⟩ | ⟨-, -, p2, hnext, ht2⟩ := h.next_cases ht3 (p3Index_eq vaddr)
    · refine .inr ⟨2, p3, hends, ?_, by rw [he, nextTableMut_empty]⟩
      rw [← p3Index_eq]
      exact he
    · rw [hhuge3] at hc
      cases hc
    rw [hnext]
    simp only []
    cases hhuge2 : GenericPTE.isHuge (pt.entry ⟨p2, p2Index vaddr⟩) with
    | true =>
      refine .inl ⟨.size2M, p2, ?_, by rw [if_pos rfl, p2Index_eq]; rfl⟩
      obtain ⟨-, hends⟩ | ⟨-, -, hends⟩ | ⟨hc, -⟩ := h.next_cases ht2 (p2Index_eq vaddr)
      · exact hends
      · exact hends
      · rw [hhuge2] at hc
        cases hc
    | false =>
      rw [if_neg Bool.false_ne_true]
      obtain ⟨he, hends⟩ | ⟨-, hc, -⟩ | ⟨-, -, p1, hnext, ht1⟩ :=
        h.next_cases ht2 (p2Index_eq vaddr)
      · refine .inr ⟨1, p2, hends, ?_, by rw [he, nextTableMut_empty]⟩
        rw [← p2Index_eq]
        exact he
      · rw [hhuge2] at hc
        cases hc
      · rw [hnext]
        refine .inl ⟨.size4K, p1, ⟨ht1, fun g => ?_⟩, by rw [p1Index_eq]; rfl⟩
        exact h.tree.wf.bottom ht1 (Nat.mod_lt _ (by decide))

end

end PageTable64

end HvisorRux.Rux.Paging
