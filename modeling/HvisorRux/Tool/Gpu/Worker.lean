import HvisorRux.Tool.Gpu.Commands
import HvisorRux.Tool.DescriptorChain
import HvisorRux.Common.Transition

/-!
# The threads of the virtio-gpu device

The daemon's main thread runs the notify handlers of the two gpu queues, which turn descriptor
chains into commands (`virtio_gpu_base.c`); the device's worker thread takes the commands, answers
them on the used ring and injects an interrupt after a batch (`virtio_gpu_async.c`). The two
threads, the driver and the guest's writes to its own memory interleave freely. The walk over a
descriptor chain and the processing of a command are one step each: the chain belongs to the device
by then, and nothing but the worker uses the device's state; `virtio_inject_irq`, which both threads
call, is two. An access to memory that is not mapped ends the daemon, and with it both threads.
-/

namespace HvisorRux.Tool

open Common Function

/-! ## Responses -/

/-- The `width` bytes of a little-endian number. -/
def leBytes (width n : ℕ) : List UInt8 :=
  (List.range width).map fun k => UInt8.ofNat (n / 256 ^ k)

/-- `struct virtio_gpu_display_one`; the position and the flags stay zero. -/
def DisplayMode.bytes (mode : DisplayMode) : List UInt8 :=
  List.replicate 8 0 ++ leBytes 4 mode.width.toNat ++ leBytes 4 mode.height.toNat ++
    leBytes 4 mode.enabled.toNat ++ List.replicate 4 0

/-- The response structure: a zeroed `GPUControlHeader` with the type, and the display modes of a
display information response. -/
def GpuResponse.bytes (resp : GpuResponse) : List UInt8 :=
  leBytes 4 resp.code.toNat ++ List.replicate 20 0 ++
    match resp with
    | .okDisplayInfo pmodes => (pmodes.map DisplayMode.bytes).flatten
    | .okNodata | .err _ => []

/-- `virtio_gpu_ctrl_response`: the response goes to the buffers behind the first one, and the chain
to the used ring also when they are too short. -/
def virtioGpuCtrlResponse (mem : HostMem) (vq : VirtQueue) (gcmd : GPUCommand)
    (resp : GpuResponse) : HostMem × VirtQueue :=
  ((bufToIovFull mem (gcmd.respIov.drop 1) 0 resp.bytes).1,
    updateUsedRing vq gcmd.respIdx (UInt32.ofNat resp.bytes.length))

/-- The number of bytes of the response to a request. -/
def responseSize (mem : HostMem) (gcmd : GPUCommand) : ℕ :=
  match commandOf mem gcmd with
  | none => 0
  | some (some .getDisplayInfo) => 408
  | some _ => 24

/-! ## State -/

/-- Where the main thread is, before the named access: outside the handlers, or in the handler of
queue `q`. Only the handler of the control queue signals the worker, and only that of the cursor
queue injects an interrupt. -/
inductive GpuHandlerPc
  | idle
  | disable (q : GpuQueue)
  | test (q : GpuQueue)
  | handle (q : GpuQueue)
  | append (gcmd : GPUCommand)
  | signal
  | enable (q : GpuQueue)
  | injectLoad
  | injectStore (lastUsedIdx idx : UInt16)
  deriving DecidableEq, Repr

/-- The two calls of `virtio_inject_irq` in `virtio_gpu_handler`: when
`VIRTIO_GPU_MAX_REQUEST_BEFORE_KICK` requests have been processed, and when the command queue is
empty. -/
inductive KickSite
  | limit
  | idle
  deriving DecidableEq, Repr

/-- Where `virtio_gpu_handler` is, before the named access: the test of the command queue, the
processing of a command, the count, a kick, the lock it takes after a command, or the wait, which
has been signalled or not. -/
inductive WorkerPc
  | test
  | process (gcmd : GPUCommand)
  | count
  | kickLoad (site : KickSite)
  | kickStore (site : KickSite) (q : GpuQueue) (lastUsedIdx idx : UInt16)
  | relock
  | wait (signalled : Bool)
  deriving DecidableEq, Repr

/-- The worker holds `queue_mutex`. The main thread holds it only inside one step. -/
def WorkerPc.locked : WorkerPc → Bool
  | .test | .kickLoad .idle | .kickStore .idle _ _ _ => true
  | _ => false

/-- `pthread_cond_signal`. A signal is lost unless the worker waits. -/
def WorkerPc.signal : WorkerPc → WorkerPc
  | .wait _ => .wait true
  | pc => pc

theorem WorkerPc.signal_cases (pc : WorkerPc) :
    pc.signal = pc ∨ ∃ signalled, pc = .wait signalled ∧ pc.signal = .wait true := by
  cases pc <;> simp [signal]

theorem WorkerPc.signal_ne_wait (pc : WorkerPc) : pc.signal ≠ .wait false := by
  cases pc <;> simp [signal]

/-- The state of the device with its threads. `fromQueue` is the queue of the worker's latest
command, and `crashed` says that the daemon has ended. The last three fields are history: the chain
heads published by the driver and put on the used ring, and whether a used element has been added
since the interrupt of its queue was last injected. -/
structure GpuState where
  mem : HostMem
  gdev : GPUDev
  vqs : GpuQueue → VirtQueue
  commandQueue : List GPUCommand
  handler : GpuHandlerPc
  worker : WorkerPc
  requestCnt : ℕ
  fromQueue : GpuQueue
  crashed : Bool
  interrupts : ℕ
  published : GpuQueue → List UInt16
  put : GpuQueue → List UInt16
  unannounced : GpuQueue → Bool

/-- The driver publishes a chain, the guest rewrites its memory, a notification of a queue arrives,
or one of the threads makes its next access. `heap` is what `malloc` leaves in the `iov` array,
`fuel` bounds the iterations of `process_descriptor_chain`, and `drm` and `reallocOk` are the
outcomes of the system calls a command makes. `freed` is what the worker finds in `gcmd->from_queue`
after it has freed the command: the number of a queue, or none if the block has been reused for
something else. -/
inductive GpuEvent
  | publish (q : GpuQueue) (head : UInt16)
  | write (mem : HostMem)
  | notify (q : GpuQueue)
  | handler (fuel : ℕ) (heap : ℕ → Iovec)
  | worker (drm : DrmEnv) (reallocOk : ℕ → Bool) (freed : Option GpuQueue)

/-- Replace the queue `q`. -/
def GpuState.setVq (s : GpuState) (q : GpuQueue) (vq : VirtQueue) : GpuState :=
  { s with vqs := update s.vqs q vq }

/-- Replacing a queue by a related one relates all queues. -/
theorem GpuState.setVq_rel {P : VirtQueue → VirtQueue → Prop} (hrefl : ∀ vq, P vq vq)
    {s : GpuState} {q : GpuQueue} {vq : VirtQueue} (h : P vq (s.vqs q)) (q' : GpuQueue) :
    P ((s.setVq q vq).vqs q') (s.vqs q') := by
  by_cases hq : q' = q
  · subst hq
    simpa [GpuState.setVq] using h
  · simpa [GpuState.setVq, hq] using hrefl (s.vqs q')

/-! ## Steps -/

/-- `virtio_gpu_handle_single_request` up to the command queue: the command, if there is one. `none`
while `process_descriptor_chain` has not returned, and when it ends the daemon. -/
def virtioGpuHandleSingleRequest (zm : ZoneMem) (mem : HostMem) (vq : VirtQueue)
    (fromQueue : GpuQueue) (fuel : ℕ) (heap : ℕ → Iovec) : Option (Option GPUCommand) :=
  let ch := processDescriptorChain zm mem vq true fuel
  if ch.pc = .returned then
    some (if ch.chainLen < 1 then none else some ⟨ch.iov heap, vq.head, fromQueue⟩)
  else none

/-- The write and the rest of `virtio_inject_irq` on queue `q`. The queue counts as announced if the
index read is still the current one. -/
def GpuState.inject (s : GpuState) (q : GpuQueue) (lastUsedIdx idx : UInt16) : GpuState :=
  let (vq, interrupt) := virtioInjectIrq (s.vqs q) lastUsedIdx idx
  { s.setVq q vq with
    interrupts := if interrupt then s.interrupts + 1 else s.interrupts
    unannounced :=
      if idx = (s.vqs q).usedRing.idx then update s.unannounced q false
      else s.unannounced }

/-- The worker touches memory that is not mapped when it processes a command. -/
def GpuState.faults (zm : ZoneMem) (s : GpuState) (gcmd : GPUCommand) (drm : DrmEnv)
    (reallocOk : ℕ → Bool) : Bool :=
  commandFaults ⟨s.mem, zm, (s.vqs gcmd.fromQueue).zoneId, drm, reallocOk⟩ s.gdev gcmd ||
    !((iovAddrs (gcmd.respIov.drop 1)).take (responseSize s.mem gcmd)).all zm.mapped

/-- `virtio_gpu_simple_process_cmd` in the worker. -/
def GpuState.process (zm : ZoneMem) (s : GpuState) (gcmd : GPUCommand) (drm : DrmEnv)
    (reallocOk : ℕ → Bool) : GpuState :=
  let q := gcmd.fromQueue
  match virtioGpuSimpleProcessCmd ⟨s.mem, zm, (s.vqs q).zoneId, drm, reallocOk⟩ s.gdev gcmd with
  | (gdev, none) => { s with gdev }
  | (gdev, some resp) =>
    let (mem, vq) := virtioGpuCtrlResponse s.mem (s.vqs q) gcmd resp
    { s.setVq q vq with
      mem
      gdev
      put := update s.put q (s.put q ++ [gcmd.respIdx])
      unannounced := update s.unannounced q true }

/-- The next access of the main thread in `virtio_gpu_ctrl_notify_handler` or
`virtio_gpu_cursor_notify_handler`. -/
def gpuHandlerStep (zm : ZoneMem) (s : GpuState) (fuel : ℕ) (heap : ℕ → Iovec) : Option GpuState :=
  match s.handler with
  | .idle => none
  | .disable q =>
    some { s.setVq q (virtqueueDisableNotify (s.vqs q)) with handler := .test q }
  | .test q =>
    some { s with
      handler :=
        if virtqueueIsEmpty (s.vqs q) then
          match q with
          | .control => .signal
          | .cursor => .enable .cursor
        else .handle q }
  | .handle q =>
    if (processDescriptorChain zm s.mem (s.vqs q) true fuel).pc = .crashed then
      some { s with crashed := true }
    else
      (virtioGpuHandleSingleRequest zm s.mem (s.vqs q) q fuel heap).map fun gcmd =>
        { s.setVq q (s.vqs q).consume with
          handler := match gcmd with
            | none => .test q
            | some gcmd => .append gcmd }
  | .append gcmd =>
    if s.worker.locked then none
    else
      some { s with
        commandQueue := s.commandQueue ++ [gcmd]
        handler := .test gcmd.fromQueue }
  | .signal =>
    if s.worker.locked then none
    else some { s with handler := .enable .control, worker := s.worker.signal }
  | .enable q =>
    some { s.setVq q (virtqueueEnableNotify (s.vqs q)) with
      handler := match q with
        | .control => .idle
        | .cursor => .injectLoad }
  | .injectLoad =>
    let vq := s.vqs .cursor
    some { s with handler := .injectStore vq.lastUsedIdx vq.usedRing.idx }
  | .injectStore lastUsedIdx idx =>
    some { s.inject .cursor lastUsedIdx idx with handler := .idle }

/-- `VIRTIO_GPU_MAX_REQUEST_BEFORE_KICK`. -/
def virtioGpuMaxRequestBeforeKick : ℕ := 16

/-- The next access of `virtio_gpu_handler`. A waiting worker may be woken at any time. The kick
after the last command reads the queue from the block that has been freed. -/
def gpuWorkerStep (zm : ZoneMem) (s : GpuState) (drm : DrmEnv) (reallocOk : ℕ → Bool)
    (freed : Option GpuQueue) : Option GpuState :=
  match s.worker with
  | .test =>
    match s.commandQueue with
    | gcmd :: rest =>
      some { s with
        commandQueue := rest
        worker := .process gcmd
        fromQueue := gcmd.fromQueue }
    | [] => some { s with worker := if s.requestCnt ≠ 0 then .kickLoad .idle else .wait false }
  | .process gcmd =>
    if s.faults zm gcmd drm reallocOk then some { s with crashed := true }
    else some { s.process zm gcmd drm reallocOk with worker := .count }
  | .count =>
    some { s with
      requestCnt := s.requestCnt + 1
      worker :=
        if s.requestCnt + 1 ≥ virtioGpuMaxRequestBeforeKick then .kickLoad .limit
        else .relock }
  | .kickLoad site =>
    match site, freed with
    | .idle, none => some { s with crashed := true }
    | .limit, _ =>
      let vq := s.vqs s.fromQueue
      some { s with worker := .kickStore .limit s.fromQueue vq.lastUsedIdx vq.usedRing.idx }
    | .idle, some q =>
      let vq := s.vqs q
      some { s with worker := .kickStore .idle q vq.lastUsedIdx vq.usedRing.idx }
  | .kickStore site q lastUsedIdx idx =>
    some { s.inject q lastUsedIdx idx with
      requestCnt := 0
      worker := match site with
        | .limit => .relock
        | .idle => .wait false }
  | .relock | .wait _ => some { s with worker := .test }

/-- The system, as long as the daemon runs. The driver has at most `num` chains outstanding on a
queue. -/
def gpuStep (zm : ZoneMem) (s : GpuState) (e : GpuEvent) : Option GpuState :=
  if s.crashed then none
  else
    match e with
    | .publish q head =>
      if (s.published q).length < (s.put q).length + (s.vqs q).num.toNat then
        some { s.setVq q ((s.vqs q).publish head) with
          published := update s.published q (s.published q ++ [head]) }
      else none
    | .write mem => some { s with mem }
    | .notify q => if s.handler = .idle then some { s with handler := .disable q } else none
    | .handler fuel heap => gpuHandlerStep zm s fuel heap
    | .worker drm reallocOk freed => gpuWorkerStep zm s drm reallocOk freed

/-- The device after its initialisation: empty queues, no command, the worker about to test the
command queue. -/
structure GpuState.Initial (s : GpuState) : Prop where
  size : ∀ q, (s.vqs q).ValidSize
  indices : ∀ q, (s.vqs q).availRing.idx = 0 ∧ (s.vqs q).lastAvailIdx = 0 ∧
    (s.vqs q).usedRing.idx = 0 ∧ (s.vqs q).lastUsedIdx = 0
  commandQueue : s.commandQueue = []
  handler : s.handler = .idle
  worker : s.worker = .test
  requestCnt : s.requestCnt = 0
  crashed : s.crashed = false
  published : ∀ q, s.published q = []
  put : ∀ q, s.put q = []
  unannounced : ∀ q, s.unannounced q = false

/-! ## A small device -/

/-- Descriptor 0 of each queue is a zeroed request of `len` bytes at guest address 0. -/
def sampleRequestMem (len : UInt8) : HostMem := fun a =>
  if a = 0x20008 ∨ a = 0x30008 then len else 0

/-- The device with two queues of two entries, whose descriptor tables are at `0x20000` and
`0x30000`. -/
def sampleGpuState (len : UInt8) : GpuState where
  mem := sampleRequestMem len
  gdev := initGpuDev (1920, 1080)
  vqs q :=
    { zoneId := ⟨1, one_lt_maxZones⟩
      num := 2
      descTable := match q with
        | .control => 0x20000
        | .cursor => 0x30000
      availRing := ⟨0, 0, fun _ => 0⟩
      usedRing := ⟨0, 0, fun _ => ⟨0, 0⟩, 0⟩
      lastAvailIdx := 0
      lastUsedIdx := 0
      eventIdxEnabled := false }
  commandQueue := []
  handler := .idle
  worker := .test
  requestCnt := 0
  fromQueue := .control
  crashed := false
  interrupts := 0
  published _ := []
  put _ := []
  unannounced _ := false

theorem sampleGpuState_initial (len : UInt8) : (sampleGpuState len).Initial where
  size _ := ⟨1, by decide, rfl⟩
  indices _ := ⟨rfl, rfl, rfl, rfl⟩
  commandQueue := rfl
  handler := rfl
  worker := rfl
  requestCnt := rfl
  crashed := rfl
  published _ := rfl
  put _ := rfl
  unannounced _ := rfl

/-- `n` accesses of the main thread. -/
def sampleHandler (n : ℕ) : List GpuEvent := List.replicate n (.handler 3 fun _ => ⟨0, 0⟩)

/-- `n` accesses of the worker, with system calls that fail; a freed command of queue `q` is still
there. -/
def sampleWorker (n : ℕ) (q : GpuQueue) : List GpuEvent :=
  List.replicate n (.worker ⟨none, false, none, none⟩ (fun _ => true) (some q))

/-- One request on the control queue: the handler turns it into a command and signals the worker,
which processes it, injects an interrupt and waits again. -/
def oneRequest : List GpuEvent :=
  sampleWorker 1 .control ++ [.publish .control 0, .notify .control] ++ sampleHandler 7 ++
    sampleWorker 8 .control

end HvisorRux.Tool
