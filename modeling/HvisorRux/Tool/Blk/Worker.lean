import HvisorRux.Common.Bytes
import HvisorRux.Common.Transition
import HvisorRux.Tool.DescriptorChain

/-!
# The threads of the virtio-blk device

The daemon's main thread runs `virtio_blk_notify_handler`, which turns the chains of the queue into
requests and hands all of them to the device's worker thread at once; the worker reads or writes the
image, puts the chain on the used ring and injects an interrupt unless more requests are waiting
(`virtio_blk.c`). A chain that is not a request becomes a null pointer, which the handler appends to
its list like any other; the store through it ends the daemon.

The two threads, the driver and the guest's writes to its own memory interleave freely. The worker
holds the mutex while it looks for a request, and the main thread only inside one step. The walk
over a descriptor chain and the processing of a request up to the used ring are one step each: the
chain belongs to the device by then, and only the worker uses the image and the used ring.
-/

namespace HvisorRux.Tool

open Common

/-! ## Requests -/

/-- `BLK_SEG_MAX`. -/
def blkSegMax : ℕ := 512

/-- `SECTOR_BSIZE`. -/
def sectorBsize : UInt64 := 512

/-- `sizeof(BlkReqHead)`. -/
def blkReqHeadSize : ℕ := 16

/-- `VRING_DESC_F_WRITE`. -/
def vringDescFWrite : UInt16 := 2

/-- The flags of a buffer that the device may write. -/
def isWritable (flags : UInt16) : Bool := flags &&& vringDescFWrite != 0

/-- `VIRTIO_BLK_T_IN`, `VIRTIO_BLK_T_OUT` and `VIRTIO_BLK_T_GET_ID`. -/
def virtioBlkTIn : UInt32 := 0
def virtioBlkTOut : UInt32 := 1
def virtioBlkTGetId : UInt32 := 8

/-- `struct blkp_req`; `iovcnt` is the length of `iov`. -/
structure BlkpReq where
  iov : List Iovec
  offset : UInt64
  type : UInt32
  idx : UInt16
deriving DecidableEq, Repr

/-- `iov[i]`. -/
def iovAt (iov : List Iovec) (i : ℕ) : Iovec := iov.getD i ⟨0, 0⟩

/-- The field `type` of the `BlkReqHead` at `hdr`. -/
def blkReqType (mem : HostMem) (hdr : UInt64) : UInt32 := .ofNat (leNat (mem.bytes hdr 4))

/-- The field `sector`. -/
def blkReqSector (mem : HostMem) (hdr : UInt64) : UInt64 := .ofNat (leNat (mem.bytes (hdr + 8) 8))

/-- The tests of `virtq_blk_handle_one_request` on what `process_descriptor_chain` returned, and the
request; `none` is `NULL`. -/
def blkpReqOf (mem : HostMem) (n : Int) (iov : List Iovec) (flags : List UInt16) (idx : UInt16) :
    Option BlkpReq :=
  if n < 2 ∨ n > blkSegMax + 2 then none
  else if isWritable (flags.getD 0 0) then none
  else if (iovAt iov 0).len.toNat ≠ blkReqHeadSize then none
  else if (iovAt iov (n - 1).toNat).len ≠ 1 ∨ isWritable (flags.getD (n - 1).toNat 0) = false then
    none
  else
    let hdr := (iovAt iov 0).base
    let type := blkReqType mem hdr
    if ((flags.drop 1).take (n - 2).toNat).any fun f => (!isWritable f) != (type == virtioBlkTOut)
    then none
    else some ⟨iov, blkReqSector mem hdr * sectorBsize, type, idx⟩

/-- `virtq_blk_handle_one_request` reads the type and the sector of the header, once the chain has
passed the tests before, from memory that is not mapped. -/
def headerFaults (zm : ZoneMem) (n : Int) (iov : List Iovec) (flags : List UInt16) : Bool :=
  let hdr := (iovAt iov 0).addrs
  2 ≤ n && n ≤ blkSegMax + 2 && !isWritable (flags.getD 0 0) &&
    (iovAt iov 0).len.toNat == blkReqHeadSize && (iovAt iov (n - 1).toNat).len == 1 &&
    isWritable (flags.getD (n - 1).toNat 0) && !(hdr.take 4 ++ hdr.drop 8).all zm.mapped

/-- What `malloc` leaves in the arrays `iov` and `flags`. -/
structure BlkHeap where
  iov : ℕ → Iovec
  flags : ℕ → UInt16

/-- `virtq_blk_handle_one_request`: the request or `NULL`. `none` while `process_descriptor_chain`
has not returned. -/
def virtqBlkHandleOneRequest (zm : ZoneMem) (mem : HostMem) (vq : VirtQueue) (fuel : ℕ)
    (heap : BlkHeap) : Option (Option BlkpReq) :=
  let ch := processDescriptorChain zm mem vq true fuel
  if ch.pc = .returned then
    some (blkpReqOf mem ch.chainLen (ch.iov heap.iov) (ch.flags heap.flags) vq.head)
  else none

/-- `virtq_blk_handle_one_request` touches memory that is not mapped. -/
def chainFaults (zm : ZoneMem) (mem : HostMem) (vq : VirtQueue) (fuel : ℕ) (heap : BlkHeap) :
    Bool :=
  let ch := processDescriptorChain zm mem vq true fuel
  ch.pc == .crashed ||
    ch.pc == .returned && headerFaults zm ch.chainLen (ch.iov heap.iov) (ch.flags heap.flags)

/-! ## The image -/

/-- The file behind `img_fd`. -/
structure Image where
  size : ℕ
  bytes : ByteMem

/-- How a system call on the image ends: with an error, or after at most `len` bytes. -/
inductive IoOutcome
  | failed (errno : UInt32)
  | moved (len : ℕ)

/-- `EINVAL` and `EOPNOTSUPP`. -/
def einval : UInt32 := 22
def eopnotsupp : UInt32 := 95

/-- `preadv`: the memory afterwards, the value returned and `errno`. -/
def preadv (img : Image) (mem : HostMem) (iov : List Iovec) (offset : UInt64) (io : IoOutcome) :
    HostMem × Int × UInt32 :=
  if 2 ^ 63 ≤ offset.toNat then (mem, -1, einval)
  else match io with
    | .failed errno => (mem, -1, errno)
    | .moved len =>
      let addrs := (iovAddrs iov).take (min len (img.size - offset.toNat))
      (mem.store addrs (img.bytes.read offset.toNat addrs.length), addrs.length, 0)

/-- `pwritev`: the image afterwards, the value returned and `errno`. -/
def pwritev (img : Image) (mem : HostMem) (iov : List Iovec) (offset : UInt64) (io : IoOutcome) :
    Image × Int × UInt32 :=
  if 2 ^ 63 ≤ offset.toNat then (img, -1, einval)
  else match io with
    | .failed errno => (img, -1, errno)
    | .moved len =>
      let data := ((iovAddrs iov).take len).map mem
      ({ size := if data = [] then img.size else max img.size (offset.toNat + data.length)
         bytes := img.bytes.write offset.toNat data }, data.length, 0)

/-- The 20 bytes of the serial, `"hvisor-virblk"`. -/
def blkSerial : List UInt8 :=
  [104, 118, 105, 115, 111, 114, 45, 118, 105, 114, 98, 108, 107, 0, 0, 0, 0, 0, 0, 0]

/-- The data buffers of a request: `&iov[1]`, of which there are `n - 2`. -/
def BlkpReq.data (req : BlkpReq) : List Iovec := (req.iov.drop 1).take (req.iov.length - 2)

/-- What `blkproc` leaves to `complete_block_operation`. -/
structure BlkResult where
  img : Image
  mem : HostMem
  err : UInt32
  writtenLen : Int

/-- `blkproc` up to the call of `complete_block_operation`. -/
def blkproc (img : Image) (mem : HostMem) (req : BlkpReq) (io : IoOutcome) : BlkResult :=
  if req.type = virtioBlkTIn then
    let (mem, len, errno) := preadv img mem req.data req.offset io
    { img, mem, err := if len < 0 then errno else 0, writtenLen := len }
  else if req.type = virtioBlkTOut then
    let (img, len, errno) := pwritev img mem req.data req.offset io
    { img, mem, err := if len < 0 then errno else 0, writtenLen := 0 }
  else if req.type = virtioBlkTGetId then
    { img, mem := mem.store ((iovAt req.iov 1).addrs.take 20) blkSerial, err := 0, writtenLen := 0 }
  else { img, mem, err := eopnotsupp, writtenLen := 0 }

/-- `blkproc` stores the serial, or `complete_block_operation` the status, to memory that is not
mapped. The system calls return an error for such a buffer. -/
def BlkpReq.faults (zm : ZoneMem) (req : BlkpReq) : Bool :=
  req.type == virtioBlkTGetId && !((iovAt req.iov 1).addrs.take 20).all zm.mapped ||
    !zm.mapped (iovAt req.iov (req.iov.length - 1)).base

/-- `VIRTIO_BLK_S_UNSUPP`, `VIRTIO_BLK_S_IOERR` or `VIRTIO_BLK_S_OK`. -/
def vstatus (err : UInt32) : UInt8 :=
  if err = eopnotsupp then 2 else if err ≠ 0 then 1 else 0

/-! ## The bytes of the image -/

section Disk

variable (img : Image) (mem : HostMem) (io : IoOutcome) (req : BlkpReq)

/-- How many bytes of the image `blkproc` reads or writes, from `offset` on. -/
def BlkpReq.moved : ℕ :=
  if req.type = virtioBlkTIn then (preadv img mem req.data req.offset io).2.1.toNat
  else if req.type = virtioBlkTOut then (pwritev img mem req.data req.offset io).2.1.toNat
  else 0

/-- How many bytes the device writes to the buffers of a request, with the status. -/
def BlkpReq.written : ℕ :=
  if req.type = virtioBlkTIn then req.moved img mem io + 1
  else if req.type = virtioBlkTGetId then ((iovAt req.iov 1).addrs.take 20).length + 1
  else 1

/-- How many bytes the system call of a request moves when it is not rejected: as many as the call
wants to, at most the data buffers, and for a read at most the rest of the image. -/
def BlkpReq.reach : ℕ :=
  match io with
  | .failed _ => 0
  | .moved len =>
    if 2 ^ 63 ≤ req.offset.toNat then 0
    else if req.type = virtioBlkTIn then
      min (min len (img.size - req.offset.toNat)) (iovSize req.data)
    else if req.type = virtioBlkTOut then min len (iovSize req.data)
    else 0

variable {img mem io req}

end Disk

/-! ## State -/

/-- Where the main thread is, before the named access, with the list `procq` of the handler: outside
the handler, at its outer test of the queue, before `virtqueue_disable_notify`, at its inner test,
before the next chain, before `virtqueue_enable_notify`, or before the critical section; or it has
closed the device. -/
inductive BlkHandlerPc
  | idle
  | outer (procq : List BlkpReq)
  | disable (procq : List BlkpReq)
  | inner (procq : List BlkpReq)
  | handle (procq : List BlkpReq)
  | enable (procq : List BlkpReq)
  | concat (procq : List BlkpReq)
  | closed
deriving DecidableEq, Repr

/-- Where `blkproc_thread` is, before the named access: `pthread_mutex_lock`, `get_breq`, the
processing of a request, the test of `procq` in `complete_block_operation`, the two accesses of
`virtio_inject_irq`, in `pthread_cond_wait`, where it may have been signalled; or it has ended. -/
inductive BlkWorkerPc
  | lock
  | get
  | process (req : BlkpReq)
  | test
  | injectLoad
  | injectStore (lastUsedIdx idx : UInt16)
  | wait (signalled : Bool)
  | exited
deriving DecidableEq, Repr

/-- The worker holds `mtx` between two steps. -/
def BlkWorkerPc.locked : BlkWorkerPc → Bool
  | .get => true
  | _ => false

/-- `pthread_cond_signal`. -/
def BlkWorkerPc.signal : BlkWorkerPc → BlkWorkerPc
  | .wait _ => .wait true
  | pc => pc

/-- The state of the device with its threads. `crashed` says that the daemon has been ended by an
access through a null pointer or to memory that is not mapped. The last three fields are history:
the chain heads published by the driver and put on the used ring, and whether a used element has
been added since `virtio_inject_irq` was last called. -/
structure BlkState where
  mem : HostMem
  img : Image
  vq : VirtQueue
  procq : List BlkpReq
  close : Bool
  handler : BlkHandlerPc
  worker : BlkWorkerPc
  crashed : Bool
  interrupts : ℕ
  published : List UInt16
  put : List UInt16
  unannounced : Bool

/-- The driver publishes a chain, the guest rewrites its memory, a notification arrives, the daemon
is told to close the device, or one of the threads makes its next access. `fuel` bounds the
iterations of `process_descriptor_chain`, `io` is the outcome of the system call that a request
makes, and `spurious` says that a waiting worker is woken without a signal. -/
inductive BlkEvent
  | publish (head : UInt16)
  | write (mem : HostMem)
  | notify
  | close
  | handler (fuel : ℕ) (heap : BlkHeap)
  | worker (io : IoOutcome) (spurious : Bool)

/-! ## Steps -/

/-- `blkproc`, and `complete_block_operation` up to `update_used_ring`. -/
def BlkState.process (s : BlkState) (req : BlkpReq) (io : IoOutcome) : BlkState :=
  let r := blkproc s.img s.mem req io
  { s with
    img := r.img
    mem := r.mem.store [(iovAt req.iov (req.iov.length - 1)).base] [vstatus r.err]
    vq := updateUsedRing s.vq req.idx (.ofInt (r.writtenLen + 1))
    put := s.put ++ [req.idx]
    unannounced := true }

/-- The write and the rest of `virtio_inject_irq`. -/
def BlkState.inject (s : BlkState) (lastUsedIdx idx : UInt16) : BlkState :=
  let (vq, interrupt) := virtioInjectIrq s.vq lastUsedIdx idx
  { s with
    vq
    interrupts := if interrupt then s.interrupts + 1 else s.interrupts
    unannounced := s.unannounced && idx != s.vq.usedRing.idx }

/-- The next access of the main thread in `virtio_blk_notify_handler`. -/
def blkHandlerStep (zm : ZoneMem) (s : BlkState) (fuel : ℕ) (heap : BlkHeap) : Option BlkState :=
  match s.handler with
  | .idle | .closed => none
  | .outer procq =>
    some { s with
      handler :=
        if virtqueueIsEmpty s.vq then if procq = [] then .idle else .concat procq
        else .disable procq }
  | .disable procq => some { s with vq := virtqueueDisableNotify s.vq, handler := .inner procq }
  | .inner procq =>
    some { s with
      handler := if virtqueueIsEmpty s.vq then .enable procq else .handle procq }
  | .handle procq =>
    if chainFaults zm s.mem s.vq fuel heap then some { s with crashed := true }
    else
      (virtqBlkHandleOneRequest zm s.mem s.vq fuel heap).map fun
        | some breq => { s with vq := s.vq.consume, handler := .inner (procq ++ [breq]) }
        -- TAILQ_INSERT_TAIL stores through the null pointer
        | none => { s with vq := s.vq.consume, crashed := true }
  | .enable procq => some { s with vq := virtqueueEnableNotify s.vq, handler := .outer procq }
  | .concat procq =>
    if s.worker.locked then none
    else
      some { s with
        procq := s.procq ++ procq
        worker := s.worker.signal
        handler := .idle }

/-- The next access of `blkproc_thread`. -/
def blkWorkerStep (zm : ZoneMem) (s : BlkState) (io : IoOutcome) (spurious : Bool) :
    Option BlkState :=
  match s.worker with
  | .lock => some { s with worker := .get }
  | .get =>
    match s.procq with
    | breq :: rest => some { s with procq := rest, worker := .process breq }
    | [] => some { s with worker := if s.close then .exited else .wait false }
  | .process breq =>
    if breq.faults zm then some { s with crashed := true }
    else some { s.process breq io with worker := .test }
  | .test => some { s with worker := if s.procq = [] then .injectLoad else .lock }
  | .injectLoad => some { s with worker := .injectStore s.vq.lastUsedIdx s.vq.usedRing.idx }
  | .injectStore lastUsedIdx idx => some { s.inject lastUsedIdx idx with worker := .lock }
  | .wait signalled => if signalled ∨ spurious then some { s with worker := .get } else none
  | .exited => none

/-- The system. The driver has at most `num` chains outstanding; the daemon does nothing after it
has crashed. -/
def blkStep (zm : ZoneMem) (s : BlkState) : BlkEvent → Option BlkState
  | .publish head =>
    if s.published.length < s.put.length + s.vq.num.toNat then
      some { s with vq := s.vq.publish head, published := s.published ++ [head] }
    else none
  | .write mem => some { s with mem }
  | .notify =>
    if s.crashed = false ∧ s.handler = .idle then some { s with handler := .outer [] } else none
  | .close =>
    if s.crashed = false ∧ s.handler = .idle ∧ s.worker.locked = false then
      some { s with close := true, worker := s.worker.signal, handler := .closed }
    else none
  | .handler fuel heap => if s.crashed = false then blkHandlerStep zm s fuel heap else none
  | .worker io spurious => if s.crashed = false then blkWorkerStep zm s io spurious else none

/-- The device after its initialisation: an empty queue, no request, and the worker started. -/
structure BlkState.Initial (s : BlkState) : Prop where
  size : s.vq.ValidSize
  availIdx : s.vq.availRing.idx = 0
  lastAvailIdx : s.vq.lastAvailIdx = 0
  usedIdx : s.vq.usedRing.idx = 0
  lastUsedIdx : s.vq.lastUsedIdx = 0
  procq : s.procq = []
  close : s.close = false
  handler : s.handler = .idle
  worker : s.worker = .lock
  crashed : s.crashed = false
  published : s.published = []
  put : s.put = []
  unannounced : s.unannounced = false

/-! ## A small device -/

/-- Descriptors 0, 1 and 2, at `0x20000`, are a request to read 4 bytes of sector 0; descriptor 3 is
a header on its own. -/
def sampleBlkMem : HostMem := fun a =>
  if a = 0x20008 then 16 else if a = 0x2000c then 1 else if a = 0x2000e then 1
  else if a = 0x20011 then 1 else if a = 0x20018 then 4 else if a = 0x2001c then 3
  else if a = 0x2001e then 2
  else if a = 0x20021 then 2 else if a = 0x20028 then 1 else if a = 0x2002c then 2
  else if a = 0x20038 then 16
  else 0

/-- A device with a queue of four entries and an image of one sector. -/
def sampleBlkState : BlkState where
  mem := sampleBlkMem
  img := ⟨512, fun a => UInt8.ofNat a⟩
  vq :=
    { zoneId := ⟨1, one_lt_maxZones⟩
      num := 4
      descTable := 0x20000
      availRing := ⟨0, 0, fun _ => 0⟩
      usedRing := ⟨0, 0, fun _ => ⟨0, 0⟩, 0⟩
      lastAvailIdx := 0
      lastUsedIdx := 0
      eventIdxEnabled := false }
  procq := []
  close := false
  handler := .idle
  worker := .lock
  crashed := false
  interrupts := 0
  published := []
  put := []
  unannounced := false

theorem sampleBlkState_initial : sampleBlkState.Initial where
  size := ⟨2, by decide, rfl⟩
  availIdx := rfl
  lastAvailIdx := rfl
  usedIdx := rfl
  lastUsedIdx := rfl
  procq := rfl
  close := rfl
  handler := rfl
  worker := rfl
  crashed := rfl
  published := rfl
  put := rfl
  unannounced := rfl

/-- `n` accesses of the main thread. -/
def sampleBlkHandler (n : ℕ) : List BlkEvent :=
  List.replicate n (.handler 8 ⟨fun _ => ⟨0, 0⟩, fun _ => 0⟩)

/-- `n` accesses of the worker, whose system calls move everything. -/
def sampleBlkWorker (n : ℕ) : List BlkEvent := List.replicate n (.worker (.moved 4096) false)

/-- The chain at `head` is published and announced while the worker waits. -/
def sampleBlkNotify (head : UInt16) : List BlkEvent :=
  sampleBlkWorker 2 ++ [.publish head, .notify] ++ sampleBlkHandler 4

/-- One request: the handler hands it to the worker, which processes it, injects an interrupt and
waits again. -/
def oneBlkRequest : List BlkEvent :=
  sampleBlkNotify 0 ++ sampleBlkHandler 4 ++ sampleBlkWorker 8

end HvisorRux.Tool
