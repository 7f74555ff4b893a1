import HvisorRux.Common.OrdMap
import HvisorRux.Common.Overflow

/-!
# The memory mappings of RuxOS

RuxOS keeps the mappings of its one address space in `VMA_MAP`, a `BTreeMap` from start addresses to
areas (`imp/mmap/utils.rs`), and edits it in four system calls (`imp/mmap/api.rs`). A walk over the
map starts with `upper_bound(Included(k))`, the last key up to `k`; if there is none, it visits
nothing.

Addresses are 64-bit numbers, and how arithmetic on them overflows is a parameter: a debug build
panics, a release build wraps around. Functions are `none` where the kernel panics. What a call does
to the pages of the mappings is part of its result, as the list of the operations that it makes.
-/

namespace HvisorRux.Rux

open Common

/-- `PAGE_SIZE_4K`. -/
def pageSize4K : ℕ := 0x1000

/-- `VMA_START` and `VMA_END`. -/
def vmaStart : ℕ := 0xffff800000000000
def vmaEnd : ℕ := 0xfffff00000000000

/-- Round down to a page: `& !(PAGE_SIZE_4K - 1)`. -/
def alignDown4K (n : ℕ) : ℕ := n / pageSize4K * pageSize4K

/-- `align_up_4k`. -/
def alignUp4K (o : Overflow) (n : ℕ) : Option ℕ := do
  let up ← o.add 64 n pageSize4K
  let up ← o.sub 64 up 1
  some (alignDown4K up)

/-- The errors of the calls. -/
inductive LinuxError
  | einval
  | ebadf
  | enomem
  | efault
deriving DecidableEq, Repr

/-- A set of flags of the C interface. -/
def hasFlag (flags flag : UInt32) : Bool := flags &&& flag != 0

def mapShared : UInt32 := 0x01
def mapPrivate : UInt32 := 0x02
def mapFixed : UInt32 := 0x10
def mapAnonymous : UInt32 := 0x20
def mremapMaymove : UInt32 := 1
def mremapFixed : UInt32 := 2
def mremapDontunmap : UInt32 := 4

/-! ## Areas -/

/-- `Vma`. A file is given by the number of its open file object. -/
structure Vma where
  startAddr : ℕ
  endAddr : ℕ
  file : Option ℕ
  offset : ℕ
  prot : UInt32
  flags : UInt32
deriving DecidableEq, Repr

/-- `Vma::clone_from`. The flags of the clone are the protection of the original. -/
def Vma.cloneFrom (vma : Vma) (startAddr endAddr : ℕ) : Vma :=
  { vma with startAddr, endAddr, flags := vma.prot }

/-- `VMA_MAP`. -/
abbrev VmaMap := OrdMap ℕ Vma

/-- What a call does to `MEM_MAP`, `SWAPED_MAP` and the page table after it has edited `VMA_MAP`:
release the pages of a range (`release_pages_mapped` and `release_pages_swaped`), set their
protection, or move or copy them by an offset (`shift_mapped_page`). -/
inductive PageOp
  | release (startAddr endAddr : ℕ) (writeback : Bool)
  | protect (startAddr endAddr : ℕ) (prot : UInt32)
  | shift (startAddr endAddr vmaOffset : ℕ) (copy : Bool)
deriving DecidableEq, Repr

/-- `VMA_MAP` after a call, what the call does to the pages, and the value it returns. -/
structure CallResult where
  map : VmaMap
  pages : List PageOp
  ret : Except LinuxError ℕ

/-- A call that fails has changed nothing. -/
def CallResult.fail (m : VmaMap) (e : LinuxError) : CallResult := ⟨m, [], .error e⟩

/-! ## Overlaps -/

/-- `get_overlap`. -/
def getOverlap (interval1 interval2 : ℕ × ℕ) : Option (ℕ × ℕ) :=
  let overlapStart := max interval1.1 interval2.1
  let overlapEnd := min interval1.2 interval2.2
  if overlapStart < overlapEnd then some (overlapStart, overlapEnd) else none

/-- An entry of the map that overlaps the range of a call. -/
structure Overlap where
  key : ℕ
  vma : Vma
  overlappedStart : ℕ
  overlappedEnd : ℕ

/-- The entries that the loop over `[start, end)` comes to, where they overlap the range. It starts
at the last key up to `start` and ends at the first area that begins at `end` or later. -/
def overlaps (m : VmaMap) (start end_ : ℕ) : List Overlap :=
  ((m.cursor start).takeWhile (·.2.startAddr < end_)).filterMap fun p =>
    (getOverlap (start, end_) (p.2.startAddr, p.2.endAddr)).map fun r => ⟨p.1, p.2, r.1, r.2⟩

namespace Overlap

/-- The area begins before the range. -/
def cutLeft (v : Overlap) : Bool := v.vma.startAddr < v.overlappedStart

/-- The area that is inserted for the part behind the range. -/
def right (v : Overlap) : Option (ℕ × Vma) :=
  if v.overlappedEnd < v.vma.endAddr then
    some (v.overlappedEnd, v.vma.cloneFrom v.overlappedEnd v.vma.endAddr)
  else none

/-- The number of bytes in the range. -/
def bytes (v : Overlap) : ℕ := v.overlappedEnd - v.overlappedStart

end Overlap

/-- The edits that take a range out of the map, after the walk over it: areas that begin before it
are shortened, others removed, and what lies behind it is inserted again. `key` says how an area
that is shortened is looked up. -/
def cutAway (key : Overlap → ℕ) (m : VmaMap) (cuts : List Overlap) : Option VmaMap := do
  let m ← m.updateAll ((cuts.filter Overlap.cutLeft).map fun v =>
    (key v, fun vma => { vma with endAddr := v.overlappedStart }))
  let m ← m.removeAll ((cuts.filter (!·.cutLeft)).map (·.vma.startAddr))
  some (m.insertAll (cuts.filterMap Overlap.right))

/-- `counter`. It stays below `2 ^ 64`, since the areas are disjoint. -/
def counter (cuts : List Overlap) : ℕ := (cuts.map Overlap.bytes).sum

/-! ## Regions -/

/-- The test of the address that was asked for: the area before it ends there at the latest, and
there is room up to the next one. -/
def hintFits (o : Overflow) (m : VmaMap) (start len : ℕ) : Option Bool := do
  let endAddr := (m.floor? start).elim vmaStart (·.2.endAddr)
  let upper := (m.ceil? start).elim vmaEnd Prod.fst
  let room ← o.sub 64 upper start
  some (decide (len ≤ room) && decide (endAddr ≤ start))

/-- The region above all areas. -/
def topRegion (o : Overflow) (m : VmaMap) (len : ℕ) : Option (Option ℕ) :=
  match m.last? with
  | some (_, lastVma) => do
    let endBoundry := alignDown4K (← o.add 64 lastVma.endAddr pageSize4K)
    let room ← o.sub 64 vmaEnd endBoundry
    some (if len ≤ alignDown4K room then some endBoundry else none)
  | none => do
    let endAddr ← o.add 64 vmaStart len
    some (if endAddr ≤ vmaEnd then some vmaStart else none)

/-- The first gap between the areas; `left` is where the one before it ends. -/
def gapRegion (o : Overflow) (len left : ℕ) : List (ℕ × Vma) → Option (Option ℕ)
  | [] => some none
  | (_, vma) :: rest => do
    let freeSize ← o.sub 64 vma.startAddr left
    if len ≤ freeSize then some (some left) else gapRegion o len vma.endAddr rest

/-- `find_free_region`. -/
def findFreeRegion (o : Overflow) (m : VmaMap) (addr : Option ℕ) (len : ℕ) :
    Option (Option ℕ) := do
  match ← addr.elim (some false) (hintFits o m · len) with
  | true => some addr
  | false =>
    match ← topRegion o m len with
    | some vaddr => some (some vaddr)
    | none => gapRegion o len vmaStart m.entries

/-- `snatch_fixed_region`: the map without the areas in `[start, start + len)`; `none` inside if the
region can not be used. Areas are shortened where the walk finds them. -/
def snatchFixedRegion (o : Overflow) (m : VmaMap) (start len : ℕ) :
    Option (Option (VmaMap × PageOp)) := do
  let end_ ← o.add 64 start len
  if start < vmaStart ∨ vmaEnd < end_ then some none
  else do
    let m ← cutAway Overlap.key m (overlaps m start end_)
    some (some (m, .release start end_ true))

/-! ## The calls -/

/-- The length of a mapping: only that of an anonymous one is rounded up. -/
def mmapLen (o : Overflow) (len : ℕ) (flags : UInt32) : Option ℕ :=
  if hasFlag flags mapAnonymous then alignUp4K o len else some len

/-- The file of `Vma::new`; `files` is the table of open files. -/
def mmapFile (files : ℕ → Option ℕ) (flags : UInt32) (fd : Int) : Option (Option ℕ) :=
  if hasFlag flags mapAnonymous then some none else (files fd.toNat).map some

/-- The region of a mapping, with the map that it is inserted into. -/
def mmapRegion (o : Overflow) (m : VmaMap) (start len : ℕ) (flags : UInt32) :
    Option (Option (VmaMap × List PageOp × ℕ)) :=
  if hasFlag flags mapFixed then
    (snatchFixedRegion o m start len).map (Option.map fun r => (r.1, [r.2], start))
  else
    (findFreeRegion o m (if start = 0 then none else some start) len).map
      (Option.map fun vaddr => (m, [], vaddr))

/-- `sys_mmap`. -/
def sysMmap (o : Overflow) (files : ℕ → Option ℕ) (m : VmaMap) (start len : ℕ) (prot flags : UInt32)
    (fd : Int) (off : ℕ) : Option CallResult :=
  if !hasFlag flags mapPrivate && !hasFlag flags mapShared then some (.fail m .einval)
  else if !hasFlag flags mapAnonymous && decide (fd < 0) then some (.fail m .ebadf)
  else do
    let len ← mmapLen o len flags
    if ¬ pageSize4K ∣ start ∨ len = 0 then some (.fail m .einval)
    else do
      let file ← mmapFile files flags fd
      match ← mmapRegion o m start len flags with
      | some (m, pages, vaddr) => do
        let endAddr ← o.add 64 vaddr len
        some ⟨m.insert vaddr ⟨vaddr, endAddr, file, off, prot, flags⟩, pages, .ok vaddr⟩
      | none => some (.fail m .enomem)

/-- What `sys_munmap` and `sys_mprotect` have in common: the areas in the range are recorded, and if
they cover it, the map is edited. -/
def editRange (o : Overflow) (m : VmaMap) (start len : ℕ) (uncovered : LinuxError)
    (edit : List Overlap → Option VmaMap) (page : ℕ → ℕ → PageOp) : Option CallResult := do
  let end_ ← o.add 64 start len
  if ¬ pageSize4K ∣ start ∨ len = 0 then some (.fail m .einval)
  else do
    let cuts := overlaps m start end_
    let size ← o.sub 64 end_ start
    if counter cuts ≠ size then some (.fail m uncovered)
    else do
      let m ← edit cuts
      some ⟨m, [page start end_], .ok 0⟩

/-- `sys_munmap`. -/
def sysMunmap (o : Overflow) (m : VmaMap) (start len : ℕ) : Option CallResult :=
  editRange o m start len .einval (cutAway (·.vma.startAddr) m) (.release · · true)

/-- What `sys_mprotect` inserts for an area: the part behind the range, and the part inside it if
the area begins before it. -/
def Overlap.protectedParts (v : Overlap) (prot : UInt32) : List (ℕ × Vma) :=
  v.right.toList ++
    if v.cutLeft then
      [(v.overlappedStart, { v.vma.cloneFrom v.overlappedStart v.overlappedEnd with prot })]
    else []

/-- The edits of `sys_mprotect`. -/
def protectRange (prot : UInt32) (m : VmaMap) (cuts : List Overlap) : Option VmaMap := do
  let m := m.insertAll (cuts.flatMap (·.protectedParts prot))
  let m ← m.updateAll ((cuts.filter Overlap.cutLeft).map fun v =>
    (v.vma.startAddr, fun vma => { vma with endAddr := v.overlappedStart }))
  m.updateAll ((cuts.filter (!·.cutLeft)).map fun v =>
    (v.vma.startAddr, fun vma => { vma with endAddr := v.overlappedEnd, prot }))

/-- `sys_mprotect`. -/
def sysMprotect (o : Overflow) (m : VmaMap) (start len : ℕ) (prot : UInt32) : Option CallResult :=
  editRange o m start len .efault (protectRange prot m) (.protect · · prot)

/-! ### mremap -/

/-- One round of the loop that collects the areas of the old range: the first one is cloned, and a
further one has to continue what has been collected. -/
def collectStep (o : Overflow) (vma : Vma) : Option Vma → Option (Except LinuxError Vma)
  | none => some (.ok (vma.cloneFrom vma.startAddr vma.endAddr))
  | some inner =>
    if inner.endAddr = vma.startAddr ∧ inner.flags = vma.flags ∧ inner.prot = vma.prot then
      match inner.file, vma.file with
      | some innerFile, some vmaFile => do
        let size ← o.sub 64 inner.endAddr inner.startAddr
        let endOffset ← o.add 64 inner.offset size
        if vmaFile ≠ innerFile ∨ endOffset ≠ vma.offset then some (.error .efault)
        else some (.ok { inner with endAddr := vma.endAddr })
      | none, none => some (.ok { inner with endAddr := vma.endAddr })
      | _, _ => some (.error .efault)
    else some (.error .efault)

/-- The loop: `consistent_vma` at its end. -/
def collect (o : Overflow) : Option Vma → List Vma → Option (Except LinuxError (Option Vma))
  | inner, [] => some (.ok inner)
  | inner, vma :: vmas => do
    match ← collectStep o vma inner with
    | .ok inner => collect o (some inner) vmas
    | .error e => some (.error e)

/-- The areas that the loop comes to. It goes on up to an area that begins at `old_end`. -/
def remapped (m : VmaMap) (oldStart oldEnd : ℕ) : List Vma :=
  ((m.cursor oldStart).map Prod.snd).takeWhile (·.startAddr ≤ oldEnd)

/-- The arguments of `sys_mremap` once they have been checked. `oldVma` is what has been collected
and `postRemove` the keys of the collected areas. -/
structure Remap where
  oldStart : ℕ
  oldSize : ℕ
  oldEnd : ℕ
  newSize : ℕ
  flags : UInt32
  newAddr : ℕ
  oldVma : Vma
  postRemove : List ℕ

namespace Remap

section

variable (r : Remap)

def fixed : Bool := hasFlag r.flags mremapFixed
def maymove : Bool := hasFlag r.flags mremapMaymove
def dontunmap : Bool := hasFlag r.flags mremapDontunmap

/-- The new mapping may stay where the old one is. -/
def inPlace : Bool := !r.fixed || decide (r.newAddr = r.oldStart)

/-- `opt_address`. -/
def optAddress : Option ℕ := if r.fixed ∨ r.newAddr ≠ 0 then some r.newAddr else none

/-- The part of the collected areas in front of the old range. -/
def leftVma : Vma := r.oldVma.cloneFrom r.oldVma.startAddr r.oldStart

/-- The part behind it. -/
def rightVma : Vma := r.oldVma.cloneFrom r.oldEnd r.oldVma.endAddr

end

section

variable (o : Overflow) (m : VmaMap) (r : Remap)

/-- `MREMAP_DONTUNMAP`: the old areas are merged into one. -/
def copy : Option CallResult := do
  match ← findFreeRegion o m r.optAddress r.newSize with
  | some newStart =>
    if r.fixed ∧ r.newAddr ≠ newStart then some (.fail m .enomem)
    else do
      let vmaOffset ← o.sub 64 newStart r.oldVma.startAddr
      let newEnd ← o.add 64 newStart r.newSize
      let m := m.insert newStart (r.oldVma.cloneFrom newStart newEnd)
      let m := m.eraseAll r.postRemove
      some ⟨m.insert r.oldVma.startAddr r.oldVma,
        [.shift r.oldVma.startAddr r.oldVma.endAddr vmaOffset true], .ok newStart⟩
  | none => some (.fail m .enomem)

/-- The old mapping becomes smaller. The areas that were collected stay in the map as they are. -/
def shrink : Option CallResult := do
  let newEnd ← o.add 64 r.oldStart r.newSize
  let m := if r.oldEnd < r.oldVma.endAddr then m.insert r.oldEnd r.rightVma else m
  some ⟨m, [.release newEnd r.oldEnd false], .ok r.oldVma.startAddr⟩

/-- The old mapping becomes larger where it is; `none` inside if it has to be moved. -/
def expand : Option (Option CallResult) :=
  if r.oldVma.endAddr ≠ r.oldEnd ∧ r.maymove = false then some (some (.fail m .enomem))
  else do
    let upper := (m.ceil? r.oldEnd).elim vmaEnd Prod.fst
    let room ← o.sub 64 upper r.oldEnd
    let more ← o.sub 64 r.newSize r.oldSize
    if more ≤ room then do
      let newEnd ← o.add 64 r.oldStart r.newSize
      some (some ⟨m.insert r.oldVma.startAddr { r.oldVma with endAddr := newEnd }, [],
        .ok r.oldVma.startAddr⟩)
    else some none

end

/-- `vma_map.insert(..)` under a condition. -/
def insertIf (cond : Bool) (m : VmaMap) (key : ℕ) (vma : Vma) : VmaMap :=
  if cond then m.insert key vma else m

/-- The map after a move. The part in front of the old range is inserted again after the old areas
have been removed, but under the key `old_end`. -/
def moved (m : VmaMap) (r : Remap) (vaddr newEnd : ℕ) : VmaMap :=
  let left := decide (r.oldVma.startAddr < r.oldStart)
  let right := decide (r.oldEnd < r.oldVma.endAddr)
  let m := insertIf left m r.oldVma.startAddr r.leftVma
  let m := insertIf right m r.oldEnd r.rightVma
  let m := m.insert vaddr (r.oldVma.cloneFrom vaddr newEnd)
  let m := m.eraseAll r.postRemove
  let m := insertIf left m r.oldEnd r.leftVma
  insertIf right m r.oldEnd r.rightVma

section

variable (o : Overflow) (m : VmaMap) (r : Remap)

/-- The mapping is moved. -/
def move : Option CallResult := do
  match ← findFreeRegion o m r.optAddress r.newSize with
  | some vaddr =>
    if vaddr = r.newAddr ∨ r.fixed = false then do
      let vmaOffset ← o.sub 64 vaddr r.oldVma.startAddr
      let newEnd ← o.add 64 vaddr r.newSize
      some ⟨r.moved m vaddr newEnd,
        [.shift r.oldVma.startAddr r.oldVma.endAddr vmaOffset false], .ok vaddr⟩
    else some (.fail m .enomem)
  | none => some (.fail m .enomem)

/-- The old mapping is made larger where it is, if that is asked for. -/
def grow : Option (Option CallResult) :=
  if r.oldSize < r.newSize ∧ r.inPlace then r.expand o m else some none

/-- What is done with the collected areas. -/
def perform : Option CallResult :=
  if r.dontunmap then r.copy o m
  else if r.newSize < r.oldSize ∧ r.inPlace then r.shrink o m
  else do
    match ← r.grow o m with
    | some res => some res
    | none => if r.maymove then r.move o m else some (.fail m .enomem)

end

end Remap

/-- The check of the arguments of `sys_mremap`. -/
def mremapInvalid (oldAddr oldSize newSize : ℕ) (flags : UInt32) : Prop :=
  ¬ pageSize4K ∣ oldAddr ∨ newSize = 0 ∨ (oldSize = 0 ∧ hasFlag flags mremapMaymove = false) ∨
    (oldSize ≠ newSize ∧ hasFlag flags mremapDontunmap) ∨
    hasFlag flags (~~~ (mremapMaymove ||| mremapFixed ||| mremapDontunmap)) ∨
    ((hasFlag flags mremapFixed ∨ hasFlag flags mremapDontunmap) ∧
      hasFlag flags mremapMaymove = false)
deriving Decidable

/-- `sys_mremap`. -/
def sysMremap (o : Overflow) (m : VmaMap) (oldAddr oldSize newSize : ℕ) (flags : UInt32)
    (newAddr : ℕ) : Option CallResult :=
  if mremapInvalid oldAddr oldSize newSize flags then some (.fail m .einval)
  else do
    let oldEnd ← o.add 64 oldAddr oldSize
    let vmas := remapped m oldAddr oldEnd
    match ← collect o none vmas with
    | .error e => some (.fail m e)
    | .ok none => some (.fail m .efault)
    | .ok (some oldVma) =>
      if oldVma.endAddr < oldEnd then some (.fail m .efault)
      else
        Remap.perform o m ⟨oldAddr, oldSize, oldEnd, newSize, flags, newAddr, oldVma,
          vmas.map (·.startAddr)⟩

/-! ## Histories -/

/-- A call with its arguments. -/
inductive MmapCall
  | mmap (files : ℕ → Option ℕ) (start len : UInt64) (prot flags : UInt32) (fd : Int) (off : UInt64)
  | munmap (start len : UInt64)
  | mprotect (start len : UInt64) (prot : UInt32)
  | mremap (oldAddr oldSize newSize : UInt64) (flags : UInt32) (newAddr : UInt64)

/-- What a call does. -/
def mmapCall (o : Overflow) (m : VmaMap) : MmapCall → Option CallResult
  | .mmap files start len prot flags fd off =>
    sysMmap o files m start.toNat len.toNat prot flags fd off.toNat
  | .munmap start len => sysMunmap o m start.toNat len.toNat
  | .mprotect start len prot => sysMprotect o m start.toNat len.toNat prot
  | .mremap oldAddr oldSize newSize flags newAddr =>
    sysMremap o m oldAddr.toNat oldSize.toNat newSize.toNat flags newAddr.toNat

/-- `VMA_MAP` after a call. -/
def mmapStep (o : Overflow) (m : VmaMap) (call : MmapCall) : Option VmaMap :=
  (mmapCall o m call).map CallResult.map

end HvisorRux.Rux
