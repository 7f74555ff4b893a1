import HvisorRux.Common.Bits

/-!
# Stage-2 page table entries

The 64-bit descriptors of `arch/aarch64/s2pt.rs`: bits 12 to 47 are an address, bits 0 to 10 the
attributes. What an entry means depends on who reads it: an entry is unused if it is zero, and huge
if NON_BLOCK is not set, which also a zero entry is.
-/

namespace HvisorRux.Stage2

open Common

/-- `MemFlags` (`memory/mod.rs`). -/
abbrev MemFlags := BitVec 64

namespace MemFlags

def read : MemFlags := BitVec.twoPow 64 0
def write : MemFlags := BitVec.twoPow 64 1
def io : MemFlags := BitVec.twoPow 64 4
def noHugepages : MemFlags := BitVec.twoPow 64 8

/-- `contains` of `bitflags`: all the bits of `other` are set. -/
def contains (flags other : MemFlags) : Bool := flags &&& other == other

end MemFlags

/-- `MemType`; the discriminants are the memory attributes of a descriptor. -/
inductive MemType
  | device
  | normal
deriving DecidableEq

/-- The discriminant. -/
def MemType.bits : MemType → BitVec 64
  | .device => 1
  | .normal => 15

/-- `DescriptorAttr`. -/
abbrev DescriptorAttr := BitVec 64

namespace DescriptorAttr

def valid : DescriptorAttr := BitVec.twoPow 64 0
def nonBlock : DescriptorAttr := BitVec.twoPow 64 1
def s2apR : DescriptorAttr := BitVec.twoPow 64 6
def s2apW : DescriptorAttr := BitVec.twoPow 64 7
def inner : DescriptorAttr := BitVec.twoPow 64 8
def shareable : DescriptorAttr := BitVec.twoPow 64 9
def af : DescriptorAttr := BitVec.twoPow 64 10

/-- All the flags that are declared. -/
def all : DescriptorAttr := 0x7ff

/-- `from_bits_truncate`: the other bits are dropped. -/
def fromBitsTruncate (bits : BitVec 64) : DescriptorAttr := bits &&& all

/-- `contains` of `bitflags`. -/
def contains (attr other : DescriptorAttr) : Bool := attr &&& other == other

/-- `from_mem_type`; normal memory is inner shareable. -/
def fromMemType (memType : MemType) : DescriptorAttr :=
  fromBitsTruncate (match memType with
    | .device => MemType.bits .device <<< 2
    | .normal => MemType.bits .normal <<< 2 ||| (inner ||| shareable))

/-- `mem_type`; `none` is its `panic!`. -/
def memType (attr : DescriptorAttr) : Option MemType :=
  if (attr &&& 0b111100) >>> 2 = MemType.bits .device then some .device
  else if (attr &&& 0b111100) >>> 2 = MemType.bits .normal then some .normal
  else none

/-- `From<DescriptorAttr> for MemFlags`. -/
def toMemFlags (attr : DescriptorAttr) : Option MemFlags :=
  attr.memType.map fun memType =>
    (if attr.contains valid && attr.contains s2apR then MemFlags.read else 0)
      ||| (if attr.contains s2apW then MemFlags.write else 0)
      ||| (if memType = .device then MemFlags.io else 0)

/-- `From<MemFlags> for DescriptorAttr`. -/
def ofMemFlags (flags : MemFlags) : DescriptorAttr :=
  (if flags.contains MemFlags.io then fromMemType .device else fromMemType .normal)
    ||| (valid ||| af)
    ||| (if flags.contains MemFlags.read then s2apR else 0)
    ||| (if flags.contains MemFlags.write then s2apW else 0)

end DescriptorAttr

open DescriptorAttr

/-- `PageTableEntry`. -/
abbrev PageTableEntry := BitVec 64

namespace PageTableEntry

/-- `PHYS_ADDR_MASK`: `0xffff_ffff_ffff & !(PAGE_SIZE - 1)`. -/
def physAddrMask : BitVec 64 := 0xfffffffff000

section

variable (e : PageTableEntry)

/-- `addr`. -/
def addr : ℕ := (e &&& physAddrMask).toNat

/-- `flags`; `none` is a panic in `mem_type`. -/
def flags : Option MemFlags :=
  (fromBitsTruncate e).toMemFlags

/-- `is_unused`: the entry is zero. -/
def isUnused : Bool := e == 0

/-- `is_present`: VALID is set. -/
def isPresent : Bool :=
  (fromBitsTruncate e).contains valid

/-- `is_huge`: NON_BLOCK is not set. -/
def isHuge : Bool :=
  !(fromBitsTruncate e).contains nonBlock

/-- `set_addr`: the attributes stay. -/
def setAddr (paddr : ℕ) : PageTableEntry :=
  select e (BitVec.ofNat 64 paddr) physAddrMask

/-- `set_flags_and_mem_type`: the address stays. -/
def setFlagsAndMemType (flags : DescriptorAttr) (memType : MemType) : PageTableEntry :=
  select (flags ||| fromMemType memType) e physAddrMask

/-- `set_flags`; a page, unlike a block, has NON_BLOCK. -/
def setFlags (flags : MemFlags) (isHuge : Bool) : PageTableEntry :=
  e.setFlagsAndMemType
    (ofMemFlags flags ||| (if isHuge then 0 else nonBlock))
    (if flags.contains MemFlags.io then .device else .normal)

/-- `set_table`. -/
def setTable (paddr : ℕ) : PageTableEntry :=
  (e.setAddr paddr).setFlagsAndMemType (valid ||| nonBlock) .normal

end

/-! ## The two kinds of entries -/

/-- The entry that `map_page` makes of an unused one. -/
def leaf (paddr : ℕ) (flags : MemFlags) (isHuge : Bool) : PageTableEntry :=
  (setAddr 0 paddr).setFlags flags isHuge

/-- The entry that `next_table_mut_or_create` makes of an unused one. -/
def table (paddr : ℕ) : PageTableEntry := setTable 0 paddr

/-- The attributes do not depend on the address. -/
theorem fromBitsTruncate_select (attr e : BitVec 64) :
    fromBitsTruncate (select attr e physAddrMask) = fromBitsTruncate attr :=
  select_and_of_disjoint attr e physAddrMask (by decide)

/-- The address does not depend on the attributes, and is cut to the mask. -/
theorem addr_select (attr : BitVec 64) (paddr : ℕ) :
    addr (select attr (setAddr 0 paddr) physAddrMask) = paddr % 2 ^ 48 / 4096 * 4096 := by
  rw [addr, select_and_self, setAddr, select_and_self]
  exact toNat_ofNat_and_field (show 12 + 36 ≤ 64 by decide) paddr

variable (paddr : ℕ) (flags : MemFlags)

/-- A leaf has the address of the frame, as far as it is in the mask. -/
theorem addr_leaf (isHuge : Bool) : (leaf paddr flags isHuge).addr = paddr % 2 ^ 48 / 4096 * 4096 :=
  addr_select _ paddr

/-- A table entry has the address of the table. -/
theorem addr_table {paddr : ℕ} (hd : 4096 ∣ paddr) (hlt : paddr < 2 ^ 48) :
    (table paddr).addr = paddr := by
  rw [table, setTable, setFlagsAndMemType, addr_select, Nat.mod_eq_of_lt hlt, Nat.div_mul_cancel hd]

theorem isPresent_table : (table paddr).isPresent = true := by
  rw [table, setTable, setFlagsAndMemType, isPresent, fromBitsTruncate_select]
  decide

theorem isHuge_table : (table paddr).isHuge = false := by
  rw [table, setTable, setFlagsAndMemType, isHuge, fromBitsTruncate_select]
  decide

theorem isUnused_zero : isUnused 0 = true := rfl

/-- A present entry is in use. -/
theorem isUnused_of_isPresent {e : PageTableEntry} (h : e.isPresent = true) :
    e.isUnused = false := by
  refine beq_eq_false_iff_ne.mpr ?_
  rintro rfl
  exact absurd h (by decide)

theorem isUnused_table : (table paddr).isUnused = false :=
  isUnused_of_isPresent (isPresent_table paddr)

/-- The attributes of a leaf, which depend on three of its flags and on its size only. -/
def leafAttr (io read write isHuge : Bool) : DescriptorAttr :=
  fromMemType (if io then .device else .normal)
    ||| (valid ||| af)
    ||| (if read then s2apR else 0)
    ||| (if write then s2apW else 0)
    ||| (if isHuge then 0 else nonBlock)

/-- The attributes of a leaf. -/
theorem fromBitsTruncate_leaf (isHuge : Bool) :
    fromBitsTruncate (leaf paddr flags isHuge) =
      leafAttr (flags.contains MemFlags.io) (flags.contains MemFlags.read)
        (flags.contains MemFlags.write) isHuge := by
  rw [leaf, setFlags, setFlagsAndMemType, fromBitsTruncate_select, ofMemFlags]
  cases flags.contains MemFlags.io <;> cases flags.contains MemFlags.read <;>
    cases flags.contains MemFlags.write <;> cases isHuge <;> rfl

theorem leafAttr_contains_valid : ∀ io read write isHuge : Bool,
    (leafAttr io read write isHuge).contains valid = true := by
  decide

theorem leafAttr_contains_nonBlock : ∀ io read write isHuge : Bool,
    (leafAttr io read write isHuge).contains nonBlock = !isHuge := by
  decide

/-- What is read back from the attributes of a leaf. -/
theorem toMemFlags_leafAttr : ∀ io read write isHuge : Bool,
    (leafAttr io read write isHuge).toMemFlags =
      some ((if read then MemFlags.read else 0) ||| (if write then MemFlags.write else 0)
        ||| (if io then MemFlags.io else 0)) := by
  decide

theorem isPresent_leaf (isHuge : Bool) : (leaf paddr flags isHuge).isPresent = true := by
  rw [isPresent, fromBitsTruncate_leaf, leafAttr_contains_valid]

theorem isUnused_leaf (isHuge : Bool) : (leaf paddr flags isHuge).isUnused = false :=
  isUnused_of_isPresent (isPresent_leaf paddr flags isHuge)

/-- A leaf is huge if it was made so. -/
theorem isHuge_leaf (isHuge : Bool) : (leaf paddr flags isHuge).isHuge = isHuge := by
  rw [PageTableEntry.isHuge, fromBitsTruncate_leaf, leafAttr_contains_nonBlock, Bool.not_not]

/-- The flags that a descriptor keeps. -/
def keptFlags : MemFlags := MemFlags.read ||| MemFlags.write ||| MemFlags.io

/-- One bit of the flags. -/
theorem and_twoPow_eq (flags : MemFlags) {k : ℕ} (hk : k < 64) :
    flags &&& BitVec.twoPow 64 k =
      if flags.contains (BitVec.twoPow 64 k) then BitVec.twoPow 64 k else 0 := by
  have hne : (0#64) ≠ BitVec.twoPow 64 k := by
    intro h
    have hbit := congrArg (fun x => BitVec.getLsbD x k) h
    simp [hk] at hbit
  rw [MemFlags.contains, BitVec.and_twoPow]
  split
  · simp
  · simp [hne]

/-- The kept flags, one by one. -/
theorem and_keptFlags (flags : MemFlags) :
    flags &&& keptFlags = (if flags.contains MemFlags.read then MemFlags.read else 0)
        ||| (if flags.contains MemFlags.write then MemFlags.write else 0)
        ||| (if flags.contains MemFlags.io then MemFlags.io else 0) := by
  have hread := and_twoPow_eq flags (show 0 < 64 by decide)
  have hwrite := and_twoPow_eq flags (show 1 < 64 by decide)
  have hio := and_twoPow_eq flags (show 4 < 64 by decide)
  rw [← MemFlags.read] at hread
  rw [← MemFlags.write] at hwrite
  rw [← MemFlags.io] at hio
  rw [keptFlags, BitVec.and_or_distrib_left, BitVec.and_or_distrib_left, hread, hwrite, hio]

/-- READ, WRITE and IO come back as they were. -/
theorem flags_leaf (isHuge : Bool) :
    (leaf paddr flags isHuge).flags = some (flags &&& keptFlags) := by
  rw [PageTableEntry.flags, fromBitsTruncate_leaf, toMemFlags_leafAttr, and_keptFlags]

end PageTableEntry

end HvisorRux.Stage2
