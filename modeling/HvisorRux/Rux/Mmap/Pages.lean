import HvisorRux.Common.Bytes
import HvisorRux.Common.Transition
import HvisorRux.Rux.Mmap.Defs
import HvisorRux.Rux.Paging.Entry

/-!
# The pages of the mappings

A page of a mapping gets memory when it is first touched (`imp/mmap/trap.rs`). `MEM_MAP` records the
pages that have memory, with the place in a file where each is written back, if anywhere. If there
is no memory left, the first page of `MEM_MAP` has to give its memory away: it is written to its
file, or else to a slot of the swap file, which `SWAPED_MAP` records. `BITMAP_FREE` is a stack of
the slots that are free. A system call edits `VMA_MAP` and then works on these tables.

The page table is a map from pages to what it says about them, together with the contents of their
memory. Functions are `none` where the kernel panics, and where it would touch a page that has no
memory while it holds the locks that the handler of the page fault needs. Whether there is memory
for a page, and what it contains, is an argument.
-/

namespace HvisorRux.Rux

open Common

def protWrite : UInt32 := 0x2
def protExec : UInt32 := 0x4

/-- `PageInfo`: the file that a page is written back to, the offset and the number of bytes. -/
structure PageInfo where
  file : ℕ
  offset : ℕ
  size : ℕ
deriving DecidableEq, Repr

/-- What the page table says about a page, and what is in its memory. -/
structure Pte where
  flags : Paging.MappingFlags
  bytes : ByteMem

/-- `SWAP_MAX`. -/
def swapMax : ℕ := 0x40000000

/-- The first `n` slots of the swap file, the last one first. -/
def swapSlots : ℕ → List ℕ
  | 0 => []
  | n + 1 => n * pageSize4K :: swapSlots n

/-- The mappings and their pages. `swaped` is `SWAPED_MAP` and `free` is `BITMAP_FREE`, from the top
of the stack on. `fileOf` says of which file an open file object is, and `writable` whether it was
opened for writing. -/
structure MmapState where
  vmas : VmaMap
  mem : OrdMap ℕ (Option PageInfo)
  swaped : OrdMap ℕ ℕ
  free : List ℕ
  table : OrdMap ℕ Pte
  swapFile : ByteMem
  files : ℕ → ByteMem
  fileOf : ℕ → ℕ
  writable : ℕ → Bool

/-- At the start nothing is mapped and all slots are free. -/
def MmapState.init (swapFile : ByteMem) (files : ℕ → ByteMem) (fileOf : ℕ → ℕ)
    (writable : ℕ → Bool) : MmapState :=
  ⟨.empty, .empty, .empty, swapSlots (swapMax / pageSize4K), .empty, swapFile, files, fileOf,
    writable⟩

/-- `get_mflags_from_usize`. -/
def getMflags (prot : UInt32) : Paging.MappingFlags where
  read := true
  write := hasFlag prot protWrite
  execute := hasFlag prot protExec
  user := false
  device := false
  uncached := false

namespace MmapState

/-! ## Memory -/

section

variable (s : MmapState)

/-- `pte_query`: what the page table says about an address. -/
def pteAt (vaddr : ℕ) : Option Pte := s.table.get? (alignDown4K vaddr)

/-- The bytes at the addresses that are in the page table. -/
def memory : ByteMem := fun a =>
  (s.pteAt a).elim 0 fun pte => pte.bytes (a % pageSize4K)

/-- The bytes from `vaddr` on, at most a page of them, as the kernel reads them. -/
def load (vaddr n : ℕ) : Option (List UInt8) :=
  if (s.pteAt vaddr).isSome ∧ (s.pteAt (vaddr + n - 1)).isSome then some (s.memory.read vaddr n)
  else none

/-- `write_into` a mapped file. The kernel panics if `write_at` fails because the file was not
opened for writing. -/
def writeInto (info : PageInfo) (bytes : List UInt8) : Option MmapState :=
  if s.writable info.file then
    some { s with
      files := Function.update s.files (s.fileOf info.file)
        ((s.files (s.fileOf info.file)).write info.offset bytes) }
  else none

/-- Write a page back to its file, if it has one. -/
def writeBack (vaddr : ℕ) : Option PageInfo → Option MmapState
  | none => some s
  | some info => (s.load vaddr info.size).bind (s.writeInto info)

/-- `pte_swap_preload`: take a page out of the page table; what is left is its memory. -/
def unmap (vaddr : ℕ) : Option (MmapState × ByteMem) :=
  (s.pteAt vaddr).map fun pte => ({ s with table := s.table.erase (alignDown4K vaddr) }, pte.bytes)

/-- `do_pte_map` for a page that is recorded in `MEM_MAP`; it fails if the page is mapped. -/
def mapPage (vaddr : ℕ) (pte : Pte) (info : Option PageInfo) : Option MmapState :=
  if (s.pteAt vaddr).isSome then none
  else some
    { s with
      mem := s.mem.insert vaddr info
      table := s.table.insert (alignDown4K vaddr) pte }

/-! ## Page faults -/

/-- What `preload_page_with_swap` does with the page that it takes the memory from. -/
def evict (vaddr : ℕ) : Option PageInfo → Option (MmapState × ByteMem)
  | some info => do
    let s ← s.writeBack vaddr (some info)
    s.unmap vaddr
  | none =>
    match s.free with
    | [] => none
    | offset :: free => do
      let bytes ← s.load vaddr pageSize4K
      let s := { s with
        free
        swaped := s.swaped.insert vaddr offset
        swapFile := s.swapFile.write offset bytes }
      s.unmap vaddr

/-- `preload_page_with_swap`: the memory for a page. `alloc` is what `alloc_page_preload` returns:
the contents of the new memory, or `none` if there is none. -/
def preloadPageWithSwap : Option ByteMem → Option (MmapState × ByteMem)
  | some bytes => some (s, bytes)
  | none =>
    match s.mem.entries.head? with
    | none => none
    | some (vaddr, info) => { s with mem := s.mem.erase vaddr }.evict vaddr info

end

/-- `PageFaultCause`. -/
inductive PageFaultCause
  | instruction
  | read
  | write
deriving DecidableEq, Repr

/-- The access meets the protection. -/
def PageFaultCause.meets (cause : PageFaultCause) (flags : Paging.MappingFlags) : Bool :=
  match cause with
  | .instruction => flags.execute
  | .read => flags.read
  | .write => flags.write

/-- The contents of a page that is brought in: from the swap file, from the file of the area, or
zero. The slot becomes free again. -/
def fill (o : Overflow) (s : MmapState) (vma : Vma) (page size : ℕ) (bytes : ByteMem) :
    Option (MmapState × ByteMem) :=
  match s.swaped.get? page with
  | some off =>
    some ({ s with swaped := s.swaped.erase page, free := off :: s.free },
      bytes.write 0 (s.swapFile.read off size))
  | none =>
    match vma.file with
    | some file => do
      let off ← o.add 64 vma.offset (← o.sub 64 page vma.startAddr)
      some (s, bytes.write 0 ((s.files (s.fileOf file)).read off size))
    | none => some (s, bytes.write 0 (List.replicate size 0))

/-- Where a page is written back: only if it belongs to a mapping of a file that is writable now and
is not private. -/
def writeBackInfo (o : Overflow) (vma : Vma) (page size : ℕ) : Option (Option PageInfo) :=
  if hasFlag vma.prot protWrite ∧ hasFlag vma.flags mapPrivate = false then
    match vma.file with
    | some file => do
      let off ← o.add 64 vma.offset (← o.sub 64 page vma.startAddr)
      some (some ⟨file, off, size⟩)
    | none => some none
  else some none

/-- The page fault handler brings in the page of an area. -/
def bringIn (o : Overflow) (s : MmapState) (vma : Vma) (page : ℕ) (alloc : Option ByteMem) :
    Option MmapState := do
  let size := min pageSize4K (vma.endAddr - page)
  let (s, bytes) ← s.preloadPageWithSwap alloc
  let (s, bytes) ← s.fill o vma page size bytes
  let info ← writeBackInfo o vma page size
  s.mapPage page ⟨getMflags vma.prot, bytes⟩ info

/-- `handle_page_fault`, with its answer. -/
def handlePageFault (o : Overflow) (s : MmapState) (vaddr : ℕ) (cause : PageFaultCause)
    (alloc : Option ByteMem) : Option (MmapState × Bool) :=
  match s.vmas.floor? vaddr with
  | none => some (s, false)
  | some (_, vma) =>
    if vma.endAddr ≤ vaddr then some (s, false)
    else if cause.meets (getMflags vma.prot) = false then some (s, false)
    else if (s.pteAt vaddr).isSome then some (s, true)
    else (s.bringIn o vma (alignDown4K vaddr) alloc).map fun s => (s, true)

/-! ## The pages of a range -/

/-- One page of `release_pages_mapped`: it is written back and loses its memory. -/
def unmapPage (writeback : Bool) (s : MmapState) (p : ℕ × Option PageInfo) : Option MmapState :=
  (if writeback then s.writeBack p.1 p.2 else some s).bind fun s => (s.unmap p.1).map Prod.fst

/-- `release_pages_mapped`. A range that ends before it begins makes `BTreeMap::range` panic. -/
def releasePagesMapped (s : MmapState) (start end_ : ℕ) (writeback : Bool) : Option MmapState :=
  if end_ < start then none
  else do
    let pages := s.mem.range start end_
    let s ← pages.foldlM (unmapPage writeback) s
    some { s with mem := s.mem.eraseAll (pages.map Prod.fst) }

/-- `release_pages_swaped`. -/
def releasePagesSwaped (s : MmapState) (start end_ : ℕ) : MmapState :=
  let pages := s.swaped.range start end_
  { s with
    free := (pages.map Prod.snd).reverse ++ s.free
    swaped := s.swaped.eraseAll (pages.map Prod.fst) }

/-- The new flags of a page. -/
def protectPage (flags : Paging.MappingFlags) (s : MmapState) (vaddr : ℕ) : MmapState :=
  match s.pteAt vaddr with
  | some pte => { s with table := s.table.insert (alignDown4K vaddr) { pte with flags } }
  | none => s

/-- The pages of a range get the flags of a new protection. -/
def protectPages (s : MmapState) (start end_ : ℕ) (prot : UInt32) : Option MmapState :=
  if end_ < start then none
  else some (((s.mem.range start end_).map Prod.fst).foldl (protectPage (getMflags prot)) s)

/-- The memory of the copy of a page. If the page has lost its own memory to it, the kernel reads
the page back to where it was, without memory; a page of a file is left in the memory it had. -/
def copyBytes (s : MmapState) (vaddr : ℕ) (info : Option PageInfo) (bytes : ByteMem) :
    Option ByteMem :=
  if (s.mem.get? vaddr).isSome then (s.load vaddr pageSize4K).map (bytes.write 0)
  else info.map fun _ => bytes

section

variable (o : Overflow)

/-- One round of `shift_mapped_page` for a page with memory. -/
def shiftPage (vmaOffset : ℕ) (copy : Bool) (alloc : ℕ → Option ByteMem)
    (s : MmapState) (p : ℕ × Option PageInfo) : Option MmapState := do
  let pte ← s.pteAt p.1
  let target ← o.add 64 p.1 vmaOffset
  if copy then
    let (s, bytes) ← s.preloadPageWithSwap (alloc p.1)
    let bytes ← s.copyBytes p.1 p.2 bytes
    s.mapPage target ⟨pte.flags, bytes⟩ p.2
  else
    let (s, _) ← { s with mem := s.mem.erase p.1 }.unmap p.1
    s.mapPage target pte p.2

/-- One round for a page in the swap file. A copy gets a slot of its own, but the old slot is
recorded. -/
def shiftSlot (vmaOffset : ℕ) (copy : Bool) (s : MmapState) (p : ℕ × ℕ) :
    Option MmapState := do
  let target ← o.add 64 p.1 vmaOffset
  if copy then
    match s.free with
    | [] => none
    | offPtr :: free =>
      some { s with
        free
        swaped := s.swaped.insert target p.2
        swapFile := s.swapFile.write offPtr (s.swapFile.read p.2 pageSize4K) }
  else some { s with swaped := (s.swaped.erase p.1).insert target p.2 }

/-- The first loop of `shift_mapped_page`. -/
def shiftMapped (s : MmapState) (start end_ vmaOffset : ℕ) (copy : Bool)
    (alloc : ℕ → Option ByteMem) : Option MmapState :=
  if end_ < start then none
  else (s.mem.range start end_).foldlM (shiftPage o vmaOffset copy alloc) s

/-- The second loop of `shift_mapped_page`. -/
def shiftSwaped (s : MmapState) (start end_ vmaOffset : ℕ) (copy : Bool) : Option MmapState :=
  (s.swaped.range start end_).foldlM (shiftSlot o vmaOffset copy) s

/-- What a call does to the pages after it has edited the areas. -/
def pageOp (alloc : ℕ → Option ByteMem) (s : MmapState) : PageOp → Option MmapState
  | .release start end_ writeback =>
    (s.releasePagesMapped start end_ writeback).map (·.releasePagesSwaped start end_)
  | .protect start end_ prot => s.protectPages start end_ prot
  | .shift start end_ vmaOffset copy => do
    let s ← s.shiftMapped o start end_ vmaOffset copy alloc
    s.shiftSwaped o start end_ vmaOffset copy

/-- `sys_msync`, with its answer. -/
def sysMsync (s : MmapState) (start len : ℕ) :
    Option (MmapState × Except LinuxError ℕ) := do
  let end_ ← o.add 64 start len
  if ¬ pageSize4K ∣ start ∨ len = 0 then some (s, .error .einval)
  else if end_ < start then none
  else do
    let s ← (s.mem.range start end_).foldlM (fun s p => s.writeBack p.1 p.2) s
    some (s, .ok 0)

end

/-! ## Histories -/

/-- A call, or what the hardware does: a page fault, and a store to a page that may be written. -/
inductive Event
  | call (call : MmapCall) (alloc : ℕ → Option ByteMem)
  | msync (start len : UInt64)
  | fault (vaddr : UInt64) (cause : PageFaultCause) (alloc : Option ByteMem)
  | store (addr : UInt64) (byte : UInt8)

/-- The pages after a call. -/
def call (o : Overflow) (s : MmapState) (c : MmapCall) (alloc : ℕ → Option ByteMem) :
    Option (MmapState × Except LinuxError ℕ) := do
  let res ← mmapCall o s.vmas c
  let s ← res.pages.foldlM (pageOp o alloc) { s with vmas := res.map }
  some (s, res.ret)

/-- A store of a byte; a page that may not be written has no such step. -/
def store (s : MmapState) (addr : ℕ) (byte : UInt8) : Option MmapState :=
  match s.pteAt addr with
  | some pte =>
    if pte.flags.write then
      some { s with
        table := s.table.insert (alignDown4K addr)
          { pte with bytes := pte.bytes.write (addr % pageSize4K) [byte] } }
    else none
  | none => none

def step (o : Overflow) (s : MmapState) : Event → Option MmapState
  | .call c alloc => (s.call o c alloc).map Prod.fst
  | .msync start len => (s.sysMsync o start.toNat len.toNat).map Prod.fst
  | .fault vaddr cause alloc => (s.handlePageFault o vaddr.toNat cause alloc).map Prod.fst
  | .store addr byte => s.store addr.toNat byte

end MmapState

end HvisorRux.Rux
