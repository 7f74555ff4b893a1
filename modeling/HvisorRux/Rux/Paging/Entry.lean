import HvisorRux.Common.Bits

/-!
# Page table entries of RuxOS

The trait `GenericPTE` of the `page_table_entry` crate and its aarch64 implementation `A64PTE`:
64-bit descriptors whose bits 12 to 47 are an address, the others attributes. A descriptor keeps the
flags of a page that is readable and not both device memory and uncached.
-/

namespace HvisorRux.Rux.Paging

open Common BitVec

/-- `MappingFlags`, one field per bit. -/
structure MappingFlags where
  read : Bool
  write : Bool
  execute : Bool
  user : Bool
  device : Bool
  uncached : Bool
deriving DecidableEq

/-- `GenericPTE`; `empty` is the word zero, which `clear` and the clearing of a frame write. -/
class GenericPTE (PTE : Type) where
  newPage : (paddr : ℕ) → MappingFlags → (isHuge : Bool) → PTE
  newTable : (paddr : ℕ) → PTE
  empty : PTE
  paddr : PTE → ℕ
  flags : PTE → MappingFlags
  isUnused : PTE → Bool
  isPresent : PTE → Bool
  isHuge : PTE → Bool

/-- The addresses that an entry can hold. -/
def FrameAddr (paddr : ℕ) : Prop := 4096 ∣ paddr ∧ paddr < 2 ^ 48

/-- What the page table needs of a format. -/
class LawfulPTE (PTE : Type) [GenericPTE PTE] where
  /-- The flags that the format can hold. -/
  Keeps : MappingFlags → Prop
  isUnused_iff : ∀ {e : PTE}, GenericPTE.isUnused e = true ↔ e = GenericPTE.empty
  isPresent_empty : GenericPTE.isPresent (GenericPTE.empty : PTE) = false
  isPresent_newTable : ∀ paddr, GenericPTE.isPresent (GenericPTE.newTable paddr : PTE) = true
  isHuge_newTable : ∀ paddr, GenericPTE.isHuge (GenericPTE.newTable paddr : PTE) = false
  paddr_newTable : ∀ {paddr}, FrameAddr paddr →
    GenericPTE.paddr (GenericPTE.newTable paddr : PTE) = paddr
  isPresent_newPage : ∀ {flags}, Keeps flags → ∀ paddr huge,
    GenericPTE.isPresent (GenericPTE.newPage paddr flags huge : PTE) = true
  isHuge_newPage : ∀ flags paddr huge,
    GenericPTE.isHuge (GenericPTE.newPage paddr flags huge : PTE) = huge
  paddr_newPage : ∀ flags huge {paddr}, FrameAddr paddr →
    GenericPTE.paddr (GenericPTE.newPage paddr flags huge : PTE) = paddr
  flags_newPage : ∀ {flags}, Keeps flags → ∀ paddr huge,
    GenericPTE.flags (GenericPTE.newPage paddr flags huge : PTE) = flags

/-! ## The aarch64 format -/

/-- `MemAttr`; the discriminants are the attribute index of a descriptor. -/
inductive MemAttr
  | device
  | normal
  | normalNonCacheable
deriving DecidableEq

/-- The discriminant. -/
def MemAttr.bits : MemAttr → BitVec 64
  | .device => 0
  | .normal => 1
  | .normalNonCacheable => 2

/-- `DescriptorAttr`. -/
abbrev DescriptorAttr := BitVec 64

namespace DescriptorAttr

def valid : DescriptorAttr := twoPow 64 0
def nonBlock : DescriptorAttr := twoPow 64 1
def apEl0 : DescriptorAttr := twoPow 64 6
def apRo : DescriptorAttr := twoPow 64 7
def inner : DescriptorAttr := twoPow 64 8
def shareable : DescriptorAttr := twoPow 64 9
def af : DescriptorAttr := twoPow 64 10
def pxn : DescriptorAttr := twoPow 64 53
def uxn : DescriptorAttr := twoPow 64 54

/-- All the flags that are declared: bits 0 to 11, 52 to 54 and 59 to 63. -/
def all : DescriptorAttr := 0xf870000000000fff

/-- `from_bits_truncate`: the other bits are dropped. -/
def fromBitsTruncate (bits : BitVec 64) : DescriptorAttr := bits &&& all

/-- `contains` of `bitflags`: all the bits of `other` are set. -/
def contains (attr other : DescriptorAttr) : Bool := attr &&& other == other

/-- `intersects` of `bitflags`: a bit of `other` is set. -/
def intersects (attr other : DescriptorAttr) : Bool := attr &&& other != 0

/-- `from_mem_attr`; memory that is not a device is inner shareable. -/
def fromMemAttr (idx : MemAttr) : DescriptorAttr :=
  match idx with
  | .normal | .normalNonCacheable => idx.bits <<< 2 ||| (inner ||| shareable)
  | .device => idx.bits <<< 2

/-- `mem_attr`; the other indices have no attribute. -/
def memAttr (attr : DescriptorAttr) : Option MemAttr :=
  if (attr &&& 0b11100) >>> 2 = 0 then some .device
  else if (attr &&& 0b11100) >>> 2 = 1 then some .normal
  else if (attr &&& 0b11100) >>> 2 = 2 then some .normalNonCacheable
  else none

/-- `From<DescriptorAttr> for MappingFlags`. -/
def toMappingFlags (attr : DescriptorAttr) : MappingFlags where
  read := attr.contains valid
  write := !attr.contains apRo
  execute := if attr.contains apEl0 then !attr.contains uxn else !attr.intersects pxn
  user := attr.contains apEl0
  device := attr.memAttr = some .device
  uncached := attr.memAttr = some .normalNonCacheable

/-- `From<MappingFlags> for DescriptorAttr`. -/
def ofMappingFlags (flags : MappingFlags) : DescriptorAttr :=
  (if flags.device then fromMemAttr .device
    else if flags.uncached then fromMemAttr .normalNonCacheable
    else fromMemAttr .normal)
    ||| (if flags.read then valid else 0)
    ||| (if !flags.write then apRo else 0)
    ||| (if flags.user then apEl0 ||| pxn ||| (if !flags.execute then uxn else 0)
      else uxn ||| (if !flags.execute then pxn else 0))

end DescriptorAttr

open DescriptorAttr

/-- `A64PTE`. -/
abbrev A64PTE := BitVec 64

namespace A64PTE

/-- `PHYS_ADDR_MASK`. -/
def physAddrMask : BitVec 64 := 0x0000fffffffff000

/-- `new_page`; a page, unlike a block, has NON_BLOCK. -/
def newPage (paddr : ℕ) (flags : MappingFlags) (isHuge : Bool) : A64PTE :=
  (ofMappingFlags flags ||| af
      ||| (if !isHuge then nonBlock else 0))
    ||| (BitVec.ofNat 64 paddr &&& physAddrMask)

/-- `new_table`. -/
def newTable (paddr : ℕ) : A64PTE :=
  (nonBlock ||| valid) ||| (BitVec.ofNat 64 paddr &&& physAddrMask)

section

variable (e : A64PTE)

/-- `paddr`. -/
def paddr : ℕ := (e &&& physAddrMask).toNat

/-- `flags`. -/
def flags : MappingFlags := (fromBitsTruncate e).toMappingFlags

/-- `is_unused`: the entry is zero. -/
def isUnused : Bool := e == 0

/-- `is_present`: VALID is set. -/
def isPresent : Bool :=
  (fromBitsTruncate e).contains valid

/-- `is_huge`: NON_BLOCK is not set. -/
def isHuge : Bool :=
  !(fromBitsTruncate e).contains nonBlock

end

instance : GenericPTE A64PTE where
  newPage := newPage
  newTable := newTable
  empty := 0
  paddr := paddr
  flags := flags
  isUnused := isUnused
  isPresent := isPresent
  isHuge := isHuge

/-- The flags that a descriptor holds: an entry that is not readable is not valid, and device memory
is not marked as uncached. -/
def Keeps (flags : MappingFlags) : Prop :=
  flags.read = true ∧ ¬(flags.device = true ∧ flags.uncached = true)
deriving Decidable

/-- The attributes do not read the address. -/
theorem fromBitsTruncate_or (attr : BitVec 64) (paddr : ℕ) :
    fromBitsTruncate (attr ||| (BitVec.ofNat 64 paddr &&& physAddrMask)) =
      fromBitsTruncate attr := by
  have hzero : physAddrMask &&& all = 0#64 := by decide
  rw [fromBitsTruncate, BitVec.and_comm, BitVec.and_or_distrib_left, BitVec.and_comm _ attr,
    BitVec.and_comm (BitVec.ofNat 64 paddr), ← BitVec.and_assoc, and_comm all physAddrMask, hzero,
    zero_and, or_zero, fromBitsTruncate]

/-- The address does not read attributes. -/
theorem paddr_or {attr : BitVec 64} (hattr : attr &&& physAddrMask = 0#64) {addr : ℕ}
    (h : FrameAddr addr) : paddr (attr ||| (BitVec.ofNat 64 addr &&& physAddrMask)) = addr := by
  have hmask : physAddrMask = BitVec.ofNat 64 ((2 ^ 36 - 1) * 2 ^ 12) := by decide
  rw [paddr, BitVec.and_comm, BitVec.and_or_distrib_left, BitVec.and_comm _ attr, hattr,
    BitVec.zero_or, BitVec.and_comm, BitVec.and_assoc, BitVec.and_self, hmask,
    toNat_ofNat_and_field (by decide), Nat.mod_eq_of_lt h.2]
  exact Nat.div_mul_cancel h.1

/-- The attributes of a page. -/
def pageAttr (flags : MappingFlags) (isHuge : Bool) : DescriptorAttr :=
  ofMappingFlags flags ||| af
    ||| (if !isHuge then nonBlock else 0)

/-- No attribute of a page is in the address. -/
theorem pageAttr_and_mask : ∀ (r w x u d c huge : Bool),
    pageAttr ⟨r, w, x, u, d, c⟩ huge &&& physAddrMask = 0#64 := by
  decide

/-- The size of a page is read back. -/
theorem isHuge_pageAttr : ∀ (r w x u d c huge : Bool),
    isHuge (pageAttr ⟨r, w, x, u, d, c⟩ huge) = huge := by
  decide

/-- The flags of a page are read back if a descriptor can keep them. -/
theorem flags_pageAttr : ∀ (r w x u d c huge : Bool), Keeps ⟨r, w, x, u, d, c⟩ →
    flags (pageAttr ⟨r, w, x, u, d, c⟩ huge) = ⟨r, w, x, u, d, c⟩ := by
  decide

instance : LawfulPTE A64PTE where
  Keeps := Keeps
  isUnused_iff {e} := by
    change (e == 0) = true ↔ e = 0
    exact beq_iff_eq
  isPresent_empty := by decide
  isPresent_newTable paddr := by
    change isPresent (newTable paddr) = true
    rw [newTable, isPresent, fromBitsTruncate_or]
    decide
  isHuge_newTable paddr := by
    change isHuge (newTable paddr) = false
    rw [newTable, isHuge, fromBitsTruncate_or]
    decide
  paddr_newTable h := paddr_or (by decide) h
  isPresent_newPage {flags} h paddr huge := by
    have hread : (A64PTE.flags (newPage paddr flags huge)).read = true := by
      rw [A64PTE.flags, newPage, fromBitsTruncate_or]
      have := flags_pageAttr flags.1 flags.2 flags.3 flags.4 flags.5 flags.6 huge h
      rw [A64PTE.flags, pageAttr] at this
      rw [this]
      exact h.1
    exact hread
  isHuge_newPage flags paddr huge := by
    change isHuge (newPage paddr flags huge) = huge
    rw [newPage, isHuge, fromBitsTruncate_or]
    exact isHuge_pageAttr flags.1 flags.2 flags.3 flags.4 flags.5 flags.6 huge
  paddr_newPage flags huge _ h :=
    paddr_or (pageAttr_and_mask flags.1 flags.2 flags.3 flags.4 flags.5 flags.6 huge) h
  flags_newPage {flags} h paddr huge := by
    change A64PTE.flags (newPage paddr flags huge) = flags
    rw [A64PTE.flags, newPage, fromBitsTruncate_or]
    exact flags_pageAttr flags.1 flags.2 flags.3 flags.4 flags.5 flags.6 huge h

end A64PTE

end HvisorRux.Rux.Paging
