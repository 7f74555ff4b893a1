import HvisorRux.Common.Radix
import HvisorRux.Stage2.Entry

/-!
# The stage-2 page table

The tables of `arch/aarch64/paging.rs` at the stage-2 entry type: a tree of three or four levels of
frames with 512 entries each. A table is known by the address of its frame, and memory is a function
from frames and indices to entries. The frame allocator is the list of the frames that it will hand
out; they are filled with zeros when they are.

The operations return the new table only if they succeed.
-/

namespace HvisorRux.Stage2

open Common Function PageTableEntry

/-- `PagingError`. -/
inductive PagingError
  | noMemory
  | notMapped
  | alreadyMapped
  | mappedToHugePage
deriving DecidableEq

/-- How a call can fail. -/
inductive HvError
  | paging (e : PagingError)
  /-- `EINVAL` -/
  | einval
  /-- a failed assertion or `panic!` -/
  | panic
  /-- `loop {}` -/
  | diverge
deriving DecidableEq

/-- `PageSize`. -/
inductive PageSize
  | size4K
  | size2M
  | size1G
deriving DecidableEq

namespace PageSize

def bytes : PageSize → ℕ
  | .size4K => 0x1000
  | .size2M => 0x200000
  | .size1G => 0x40000000

/-- The level of the tables whose entries map pages of this size. -/
def level : PageSize → ℕ
  | .size4K => 0
  | .size2M => 1
  | .size1G => 2

section

variable (size : PageSize) (addr : ℕ)

/-- `addr & (self - 1)`. -/
def pageOffset : ℕ := addr % size.bytes

def isAligned : Bool := size.pageOffset addr == 0

/-- `addr & !(self - 1)`. -/
def alignDown : ℕ := addr / size.bytes * size.bytes

end

def isHuge : PageSize → Bool
  | .size4K => false
  | .size2M | .size1G => true

variable (size : PageSize)

theorem bytes_eq : size.bytes = 4096 * 512 ^ size.level := by
  cases size <;> rfl

theorem isHuge_eq : size.isHuge = decide (size.level ≠ 0) := by
  cases size <;> rfl

theorem level_le : size.level ≤ 2 := by
  cases size <;> decide

theorem level_inj {size size' : PageSize} (h : size.level = size'.level) : size = size' := by
  cases size <;> cases size' <;> first | rfl | cases h

end PageSize

/-- `Page`. -/
structure Page where
  vaddr : ℕ
  size : PageSize

/-- `HvPageTableUnlocked` with the memory that its tables are in. -/
structure PageTable where
  level : ℕ
  root : ℕ
  mem : ℕ → ℕ → PageTableEntry
  frames : List ℕ

/-- A reference to an entry. -/
structure Slot where
  table : ℕ
  index : ℕ

def p4Index (vaddr : ℕ) : ℕ := (vaddr >>> (12 + 27)) &&& (512 - 1)
def p3Index (vaddr : ℕ) : ℕ := (vaddr >>> (12 + 18)) &&& (512 - 1)
def p2Index (vaddr : ℕ) : ℕ := (vaddr >>> (12 + 9)) &&& (512 - 1)
def p1Index (vaddr : ℕ) : ℕ := (vaddr >>> 12) &&& (512 - 1)

/-- `next_table_mut`. -/
def nextTableMut (e : PageTableEntry) : Except PagingError ℕ :=
  if !e.isPresent then .error .notMapped
  else if e.isHuge then .error .mappedToHugePage
  else .ok e.addr

namespace PageTable

/-- `HvPageTableImmut::new`, with `root` from `Frame::new_zero`. -/
def new (level root : ℕ) (mem : ℕ → ℕ → PageTableEntry) (frames : List ℕ) : PageTable where
  level := level
  root := root
  mem := update mem root fun _ => 0
  frames := frames

section

variable (pt : PageTable)

def entry (slot : Slot) : PageTableEntry := pt.mem slot.table slot.index

def setEntry (slot : Slot) (e : PageTableEntry) : PageTable :=
  { pt with
    mem := update pt.mem slot.table (update (pt.mem slot.table) slot.index e) }

/-- `get_entry_mut` from the table of the third level on. -/
def getEntryFromP3 (p3 vaddr : ℕ) : Except PagingError (Slot × PageSize) := do
  let p3e : Slot := ⟨p3, p3Index vaddr⟩
  if (pt.entry p3e).isHuge then return (p3e, .size1G)
  let p2 ← nextTableMut (pt.entry p3e)
  let p2e : Slot := ⟨p2, p2Index vaddr⟩
  if (pt.entry p2e).isHuge then return (p2e, .size2M)
  let p1 ← nextTableMut (pt.entry p2e)
  return (⟨p1, p1Index vaddr⟩, .size4K)

/-- `get_entry_mut`. -/
def getEntryMut (vaddr : ℕ) : Except PagingError (Slot × PageSize) := do
  let p3 ← if pt.level = 4 then nextTableMut (pt.entry ⟨pt.root, p4Index vaddr⟩) else pure pt.root
  pt.getEntryFromP3 p3 vaddr

/-- `query`. -/
def query (vaddr : ℕ) : Except HvError (ℕ × MemFlags × PageSize) :=
  match pt.getEntryMut vaddr with
  | .error e => .error (.paging e)
  | .ok (slot, size) =>
    if (pt.entry slot).isUnused then .error (.paging .notMapped)
    else match (pt.entry slot).flags with
      | some flags => .ok ((pt.entry slot).addr + size.pageOffset vaddr, flags, size)
      | none => .error .panic

/-- `alloc_intrm_table`. -/
def allocIntrmTable : Except PagingError (PageTable × ℕ) :=
  match pt.frames with
  | [] => .error .noMemory
  | frame :: frames =>
    .ok ({ pt with mem := update pt.mem frame fun _ => 0, frames }, frame)

/-- `next_table_mut_or_create`. -/
def nextTableMutOrCreate (slot : Slot) : Except PagingError (PageTable × ℕ) :=
  if (pt.entry slot).isUnused then
    pt.allocIntrmTable.map fun r => (r.1.setEntry slot ((pt.entry slot).setTable r.2), r.2)
  else (nextTableMut (pt.entry slot)).map fun table => (pt, table)

/-- `get_entry_mut_or_create` from the table of the third level on. -/
def getEntryOrCreateFromP3 (p3 : ℕ) (page : Page) :
    Except PagingError (PageTable × Slot) := do
  let p3e : Slot := ⟨p3, p3Index page.vaddr⟩
  if page.size = .size1G then return (pt, p3e)
  let (pt, p2) ← pt.nextTableMutOrCreate p3e
  let p2e : Slot := ⟨p2, p2Index page.vaddr⟩
  if page.size = .size2M then return (pt, p2e)
  let (pt, p1) ← pt.nextTableMutOrCreate p2e
  return (pt, ⟨p1, p1Index page.vaddr⟩)

/-- `get_entry_mut_or_create`. -/
def getEntryMutOrCreate (page : Page) : Except PagingError (PageTable × Slot) := do
  let (pt, p3) ← if pt.level = 4 then pt.nextTableMutOrCreate ⟨pt.root, p4Index page.vaddr⟩
    else pure (pt, pt.root)
  pt.getEntryOrCreateFromP3 p3 page

/-- `map_page`. -/
def mapPage (page : Page) (paddr : ℕ) (flags : MemFlags) :
    Except PagingError PageTable := do
  let (pt, slot) ← pt.getEntryMutOrCreate page
  let entry := pt.entry slot
  if !entry.isUnused then throw .alreadyMapped
  return pt.setEntry slot
    ((entry.setAddr (page.size.alignDown paddr)).setFlags flags page.size.isHuge)

/-- `unmap_page`. -/
def unmapPage (vaddr : ℕ) : Except PagingError (PageTable × ℕ × PageSize) := do
  let (slot, size) ← pt.getEntryMut vaddr
  let entry := pt.entry slot
  if entry.isUnused then throw .notMapped
  return (pt.setEntry slot 0, entry.addr, size)

end

/-! ## The tree in memory -/

/-- What an entry says in a table of level `l`. -/
def decode (l : ℕ) (e : PageTableEntry) : Cell ℕ PageTableEntry :=
  if e.isUnused then .empty
  else if l = 0 ∨ e.isHuge = true then .leaf e
  else .table e.addr

def cell (pt : PageTable) (l f i : ℕ) : Cell ℕ PageTableEntry := decode l (pt.mem f i)

/-- The addresses that an entry can hold. -/
def FrameAddr (f : ℕ) : Prop := 4096 ∣ f ∧ f < 2 ^ 48

/-- The entries that the operations make for a table of level `l`. -/
inductive ValidEntry (l : ℕ) : PageTableEntry → Prop
  | unused : ValidEntry l 0
  | leaf (paddr : ℕ) (flags : MemFlags) :
      l ≤ 2 → ValidEntry l (PageTableEntry.leaf paddr flags (decide (l ≠ 0)))
  | table (f : ℕ) : l ≠ 0 → FrameAddr f → ValidEntry l (PageTableEntry.table f)

/-- The tables form a tree of valid entries, and the allocator has fresh frames. -/
structure Inv (pt : PageTable) (tables : ℕ → ℕ → Option ℕ) : Prop where
  level : pt.level = 3 ∨ pt.level = 4
  wf : Radix.Wf 512 (pt.level - 1) pt.root pt.cell tables
  valid : ∀ {l p f}, tables l p = some f → ∀ i, ValidEntry l (pt.mem f i)
  fresh : ∀ {l p f}, tables l p = some f → f ∉ pt.frames
  nodup : pt.frames.Nodup
  frameAddr : ∀ f ∈ pt.frames, FrameAddr f

/-- There is a leaf for pages of this size at the position, the page number. -/
abbrev Holds (pt : PageTable) (tables : ℕ → ℕ → Option ℕ) (l q : ℕ) (e : PageTableEntry) : Prop :=
  Radix.Holds 512 pt.cell tables l q e

theorem decode_zero (l : ℕ) : decode l 0 = .empty := rfl

theorem decode_leaf {l : ℕ} (paddr : ℕ) (flags : MemFlags) :
    decode l (PageTableEntry.leaf paddr flags (decide (l ≠ 0))) =
      .leaf (PageTableEntry.leaf paddr flags (decide (l ≠ 0))) := by
  rw [decode, isUnused_leaf, if_neg Bool.false_ne_true, if_pos]
  rw [isHuge_leaf]
  simp only [decide_eq_true_eq]
  exact em (l = 0)

theorem decode_table {l f : ℕ} (hl : l ≠ 0) (hf : FrameAddr f) :
    decode l (PageTableEntry.table f) = .table f := by
  rw [decode, isUnused_table, if_neg Bool.false_ne_true, if_neg, addr_table hf.1 hf.2]
  rw [isHuge_table]
  simpa using hl

end PageTable

end HvisorRux.Stage2
