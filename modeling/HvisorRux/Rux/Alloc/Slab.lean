import HvisorRux.Common.Chain
import HvisorRux.Common.OrdMap
import HvisorRux.Common.Spans
import HvisorRux.Common.Transition

/-!
# The slab heap

`Heap` serves small requests from seven slabs, each with blocks of one size, and large ones from a
buddy allocator (`crates/slab_allocator`). A slab that has no free block left takes a piece of
memory from the buddy allocator and cuts it into blocks. The list of the free blocks of a slab is
kept in the blocks themselves: the first word of a free block is the link to the next one.

The buddy allocator is another crate. `Buddy` records the memory it was given and the blocks that it
has handed out, and `Buddy.GrantOk` says what it may hand out. It uses the rest of its memory for
lists of its own: its operations may change every word outside the blocks that are handed out.

Sizes and addresses are unbounded numbers. Functions are `none` where the kernel panics.
-/

namespace HvisorRux.Rux.Alloc

open Common Function

/-- The words in memory, as far as they are used as links: `FreeBlock::next`. -/
abbrev Links := ℕ → Option ℕ

/-- The length of a link. -/
def linkSize : ℕ := 8

/-! ## Slabs -/

structure FreeBlockList where
  len : ℕ
  head : Option ℕ

namespace FreeBlockList

def empty : FreeBlockList := ⟨0, none⟩

def pop (mem : Links) (l : FreeBlockList) : Option (ℕ × Links × FreeBlockList) :=
  l.head.map fun block => (block, update mem block none, ⟨l.len - 1, mem block⟩)

def push (mem : Links) (l : FreeBlockList) (block : ℕ) : Links × FreeBlockList :=
  (update mem block l.head, ⟨l.len + 1, some block⟩)

/-- `FreeBlockList::new`: the last block is pushed first. -/
def new (mem : Links) (startAddr blockSize numOfBlocks : ℕ) : Links × FreeBlockList :=
  ((List.range numOfBlocks).reverse.map fun i => startAddr + i * blockSize).foldl
    (fun ml block => push ml.1 ml.2 block) (mem, empty)

/-- `while let Some(block) = from.pop() { to.push(block) }`, for at most `fuel` rounds. -/
def drain : ℕ → Links → FreeBlockList → FreeBlockList → Option (Links × FreeBlockList)
  | fuel, mem, source, target =>
    match pop mem source, fuel with
    | none, _ => some (mem, target)
    | some _, 0 => none
    | some (block, mem, source), fuel + 1 =>
      drain fuel (push mem target block).1 source (push mem target block).2

end FreeBlockList

structure Slab where
  freeBlockList : FreeBlockList
  totalBlocks : ℕ

namespace Slab

def new : Slab := ⟨.empty, 0⟩

def grow (blkSize : ℕ) (mem : Links) (s : Slab) (startAddr slabSize : ℕ) : Option (Links × Slab) :=
  let numOfBlocks := slabSize / blkSize
  let (mem, blockList) := FreeBlockList.new mem startAddr blkSize numOfBlocks
  (FreeBlockList.drain blockList.len mem blockList s.freeBlockList).map fun ml =>
    (ml.1, ⟨ml.2, s.totalBlocks + numOfBlocks⟩)

end Slab

/-! ## The buddy allocator -/

/-- The memory that the buddy allocator was given and the blocks that it has handed out. -/
structure Buddy where
  given : List (ℕ × ℕ)
  out : OrdMap ℕ ℕ

namespace Buddy

/-- What a request of `size` bytes may get: a block that is large enough, from the memory that was
given and apart from the blocks that are out. -/
def GrantOk (b : Buddy) (size : ℕ) (block : ℕ × ℕ) : Prop :=
  size ≤ block.2 ∧ (∃ r ∈ b.given, Span.Within block r) ∧ ∀ p ∈ b.out, Span.Apart block p
deriving Decidable

/-- The words in blocks that are out keep their values, the others may get any. -/
def scribble (b : Buddy) (mem other : Links) : Links := fun a =>
  if ∃ p ∈ b.out, Span.Within (a, linkSize) p then mem a else other a

end Buddy

/-! ## The heap -/

/-- The slabs. -/
inductive SlabClass
  | slab64Bytes
  | slab128Bytes
  | slab256Bytes
  | slab512Bytes
  | slab1024Bytes
  | slab2048Bytes
  | slab4096Bytes
deriving DecidableEq, Repr

namespace SlabClass

/-- `BLK_SIZE`. -/
def blkSize : SlabClass → ℕ
  | .slab64Bytes => 64
  | .slab128Bytes => 128
  | .slab256Bytes => 256
  | .slab512Bytes => 512
  | .slab1024Bytes => 1024
  | .slab2048Bytes => 2048
  | .slab4096Bytes => 4096

def all : List SlabClass :=
  [.slab64Bytes, .slab128Bytes, .slab256Bytes, .slab512Bytes, .slab1024Bytes, .slab2048Bytes,
    .slab4096Bytes]

end SlabClass

/-- `HeapAllocator`. -/
inductive HeapAllocator
  | slab (c : SlabClass)
  | buddyAllocator
deriving DecidableEq, Repr

structure Layout where
  size : ℕ
  align : ℕ
deriving DecidableEq, Repr

/-- `Heap::layout_to_allocator`. -/
def layoutToAllocator (layout : Layout) : HeapAllocator :=
  if 4096 < layout.size then .buddyAllocator
  else if layout.size ≤ 64 ∧ layout.align ≤ 64 then .slab .slab64Bytes
  else if layout.size ≤ 128 ∧ layout.align ≤ 128 then .slab .slab128Bytes
  else if layout.size ≤ 256 ∧ layout.align ≤ 256 then .slab .slab256Bytes
  else if layout.size ≤ 512 ∧ layout.align ≤ 512 then .slab .slab512Bytes
  else if layout.size ≤ 1024 ∧ layout.align ≤ 1024 then .slab .slab1024Bytes
  else if layout.size ≤ 2048 ∧ layout.align ≤ 2048 then .slab .slab2048Bytes
  else .slab .slab4096Bytes

/-- `SET_SIZE`. -/
def setSize : ℕ := 64

/-- `MIN_HEAP_SIZE`. -/
def minHeapSize : ℕ := 0x8000

/-- `Heap`, with the memory that its lists are kept in. -/
structure Heap where
  mem : Links
  slabs : SlabClass → Slab
  buddy : Buddy

/-- What the buddy allocator does when it is called: the block that it hands out, if any, and the
words that it leaves outside the blocks that are out. -/
structure BuddyCall where
  grant : Option (ℕ × ℕ)
  other : Links

namespace Heap

def new (mem : Links) (heapStartAddr heapSize : ℕ) : Option Heap :=
  if heapStartAddr % 4096 ≠ 0 ∨ heapSize < minHeapSize ∨ heapSize % minHeapSize ≠ 0 then none
  else some ⟨mem, fun _ => .new, ⟨[(heapStartAddr, heapSize)], .empty⟩⟩

section

variable (h : Heap)

def addMemory (heapStartAddr heapSize : ℕ) (other : Links) : Option Heap :=
  if heapStartAddr % 4096 ≠ 0 ∨ heapSize % 4096 ≠ 0 then none
  else some
    { h with
      mem := h.buddy.scribble h.mem other
      buddy := { h.buddy with given := (heapStartAddr, heapSize) :: h.buddy.given } }

/-- `buddy_allocator.alloc`. -/
def buddyAlloc (call : BuddyCall) : Heap × Option ℕ :=
  match call.grant with
  | none => ({ h with mem := h.buddy.scribble h.mem call.other }, none)
  | some (addr, size) =>
    ({ h with
      mem := h.buddy.scribble h.mem call.other
      buddy := { h.buddy with out := h.buddy.out.insert addr size } }, some addr)

/-- `buddy_allocator.dealloc`. -/
def buddyDealloc (addr : ℕ) (other : Links) : Heap :=
  let buddy := { h.buddy with out := h.buddy.out.erase addr }
  { h with mem := buddy.scribble h.mem other, buddy }

/-- The first free block of a slab. -/
def popBlock (c : SlabClass) : Option (Heap × ℕ) :=
  ((h.slabs c).freeBlockList.pop h.mem).map fun r =>
    ({ h with
      mem := r.2.1
      slabs := update h.slabs c { h.slabs c with freeBlockList := r.2.2 } }, r.1)

/-- `self.grow(ptr, SET_SIZE * BLK_SIZE)`. -/
def growSlab (c : SlabClass) (ptr : ℕ) : Option Heap :=
  ((h.slabs c).grow c.blkSize h.mem ptr (setSize * c.blkSize)).map fun r =>
    { h with mem := r.1, slabs := update h.slabs c r.2 }

/-- `Slab::allocate`. -/
def slabAllocate (c : SlabClass) (call : BuddyCall) : Option (Heap × Option ℕ) :=
  match h.popBlock c with
  | some (h, block) => some (h, some block)
  | none =>
    match h.buddyAlloc call with
    | (h, none) => some (h, none)
    | (h, some ptr) => do
      let h ← h.growSlab c ptr
      let (h, block) ← h.popBlock c
      some (h, some block)

/-- `Heap::allocate`; the answer is `none` for `AllocError`. -/
def allocate (layout : Layout) (call : BuddyCall) : Option (Heap × Option ℕ) :=
  match layoutToAllocator layout with
  | .slab c => h.slabAllocate c call
  | .buddyAllocator => some (h.buddyAlloc call)

/-- `Slab::deallocate`. -/
def slabDeallocate (c : SlabClass) (ptr : ℕ) : Heap :=
  let (mem, freeBlockList) := (h.slabs c).freeBlockList.push h.mem ptr
  { h with mem, slabs := update h.slabs c { h.slabs c with freeBlockList } }

/-- `Heap::deallocate`. -/
def deallocate (ptr : ℕ) (layout : Layout) (other : Links) : Heap :=
  match layoutToAllocator layout with
  | .slab c => h.slabDeallocate c ptr
  | .buddyAllocator => h.buddyDealloc ptr other

end

/-- What the buddy allocator is asked for, if it is asked at all. -/
def requested (layout : Layout) : ℕ :=
  match layoutToAllocator layout with
  | .slab c => setSize * c.blkSize
  | .buddyAllocator => layout.size

/-- The size of the block that a request gets. -/
def blockSize (layout : Layout) (call : BuddyCall) : ℕ :=
  match layoutToAllocator layout with
  | .slab c => c.blkSize
  | .buddyAllocator => call.grant.elim 0 Prod.snd

end Heap

/-! ## Histories -/

/-- A block that is in use: its size and the layout it was asked for with. -/
structure LiveBlock where
  size : ℕ
  layout : Layout

/-- A heap with the blocks in use, by address. -/
structure HeapState where
  heap : Heap
  live : OrdMap ℕ LiveBlock

/-- `store` is a store to a byte of a block in use. It may change the words that contain it. -/
inductive HeapEvent
  | addMemory (heapStartAddr heapSize : ℕ) (other : Links)
  | allocate (layout : Layout) (call : BuddyCall)
  | deallocate (ptr : ℕ) (other : Links)
  | store (addr : ℕ) (value : Links)

namespace HeapState

/-- The words that contain the byte get new values. -/
def storeLinks (mem value : Links) (addr : ℕ) : Links := fun a =>
  if a ≤ addr ∧ addr < a + linkSize then value a else mem a

def step (s : HeapState) : HeapEvent → Option HeapState
  | .addMemory heapStartAddr heapSize other =>
    (s.heap.addMemory heapStartAddr heapSize other).map fun heap => { s with heap }
  | .allocate layout call =>
    (s.heap.allocate layout call).map fun
      | (heap, none) => { s with heap }
      | (heap, some addr) => ⟨heap, s.live.insert addr ⟨Heap.blockSize layout call, layout⟩⟩
  | .deallocate ptr other =>
    (s.live.get? ptr).map fun block =>
      ⟨s.heap.deallocate ptr block.layout other, s.live.erase ptr⟩
  | .store addr value =>
    if ∃ p ∈ s.live, p.1 ≤ addr ∧ addr < p.1 + p.2.size then
      some { s with heap := { s.heap with mem := storeLinks s.heap.mem value addr } }
    else none

/-- What the buddy allocator keeps to. -/
def EventOk (s : HeapState) : HeapEvent → Prop
  | .allocate layout call =>
    ∀ block ∈ call.grant, s.heap.buddy.GrantOk (Heap.requested layout) block
  | _ => True

instance (s : HeapState) (e : HeapEvent) : Decidable (s.EventOk e) := by
  cases e <;> unfold EventOk <;> infer_instance

end HeapState

end HvisorRux.Rux.Alloc
