import HvisorRux.Common.Transition
import Mathlib.Data.UInt

/-!
# The request bridge between the hypervisor and the virtio daemon

A page shared by hvisor and the daemon carries trapped MMIO accesses of the guests as requests and
the answers of configuration accesses as per-cpu counters and values. The producers are the cpus in
`mmio_virtio_handler` (`device/virtio_trampoline.rs`), serialised by the lock `VIRTIO_BRIDGE`; the
consumer is the daemon's `handle_virtio_requests` (`tools/virtio.c`), which takes no lock.

Every access to the shared page is one step. The state of the emulated devices is abstract: a
daemon answers a register read by an arbitrary function of it and a register write changes it
arbitrarily, and so do the device threads at any time.
-/

namespace HvisorRux.Bridge

open Common

/-- `MAX_REQ`: the slots of the request ring (`virtio_trampoline.rs` and `hvisor.h`). -/
def maxReq : UInt32 := 32

/-- `QUEUE_NOTIFY`: the register offset whose accesses are not waited for. -/
def queueNotify : UInt64 := 0x50

/-- `VIRT_MAGIC`, what `virtio_mmio_read(NULL, 0, 0)` returns. -/
def virtMagic : UInt64 := 0x74726976

/-- `HvisorDeviceReq`/`struct device_req`; the two flag bytes are only ever 0 or 1. -/
structure DeviceReq (Cpu : Type) where
  srcCpu : Cpu
  address : UInt64
  size : UInt64
  value : UInt64
  srcZone : UInt32
  isWrite : Bool
  needInterrupt : Bool
deriving DecidableEq

/-- The `MMIOAccess` handed to `mmio_virtio_handler` (its address relative to the region), with the
handler's `base` argument and the zone of the trapping cpu. -/
structure MMIOAccess where
  address : UInt64
  base : UInt64
  size : UInt64
  value : UInt64
  isWrite : Bool
  zone : UInt32
deriving DecidableEq

/-- A QUEUE_NOTIFY access: `need_interrupt` is set and the cpu does not wait for an answer. -/
def MMIOAccess.isNotify (mmio : MMIOAccess) : Bool := mmio.address == queueNotify

/-- The request built from an access (`HvisorDeviceReq::new`). -/
def MMIOAccess.request {Cpu : Type} (mmio : MMIOAccess) (cpu : Cpu) : DeviceReq Cpu where
  srcCpu := cpu
  address := mmio.address + mmio.base
  size := mmio.size
  value := mmio.value
  srcZone := mmio.zone
  isWrite := mmio.isWrite
  needInterrupt := mmio.isNotify

/-- The part of `VirtioBridge` that requests and configuration answers go through. -/
structure VirtioBridge (Cpu : Type) where
  reqFront : UInt32
  reqRear : UInt32
  reqList : ℕ → DeviceReq Cpu
  cfgFlags : Cpu → UInt64
  cfgValues : Cpu → UInt64
  needWakeup : Bool

namespace VirtioBridge

variable {Cpu : Type} [DecidableEq Cpu]

/-- `is_req_list_full`: one slot always stays free. -/
def isReqListFull (b : VirtioBridge Cpu) : Bool :=
  ((b.reqRear + 1) &&& (maxReq - 1)) == b.reqFront

/-- The first store of `push_req`: the slot at `req_rear % MAX_REQ`. -/
def writeReq (b : VirtioBridge Cpu) (req : DeviceReq Cpu) : VirtioBridge Cpu :=
  { b with reqList := Function.update b.reqList (b.reqRear % maxReq).toNat req }

/-- The second store of `push_req`, after the fence: the request becomes visible. -/
def publishReq (b : VirtioBridge Cpu) : VirtioBridge Cpu :=
  { b with reqRear := (b.reqRear + 1) % maxReq }

end VirtioBridge

/-- `is_queue_empty` of the daemon. -/
def isQueueEmpty (front rear : UInt32) : Bool := rear == front

/-- The daemon's advance of `req_front`. -/
def nextFront (front : UInt32) : UInt32 := (front + 1) &&& (maxReq - 1)

/-- `in_range`, with the wrap-around of `lower + len`. -/
def inRange (value lower len : UInt64) : Bool :=
  decide (lower ≤ value) && decide (value < lower + len)

/-- The MMIO window of one virtio device (`zone_id`, `base_addr` and `len` of a `VirtIODevice`). -/
structure Window where
  zoneId : UInt32
  baseAddr : UInt64
  len : UInt64
deriving DecidableEq

/-- The daemon's devices: the windows of `vdevs` and what `virtio_mmio_read` and
`virtio_mmio_write` do, over an arbitrary device state `δ`. -/
structure Devices (δ : Type) where
  vdevs : List Window
  mmioRead : δ → ℕ → (offset size : UInt64) → UInt64
  mmioWrite : δ → ℕ → (offset value size : UInt64) → δ

/-- The device search of `virtio_handle_req`: the first device of the zone whose window contains the
address; `none` is `i == vdevs_num`. -/
def Devices.find {δ Cpu : Type} (d : Devices δ) (req : DeviceReq Cpu) : Option ℕ :=
  d.vdevs.findIdx? fun v => req.srcZone == v.zoneId && inRange req.address v.baseAddr v.len

/-- The offset of a request inside the window of the device that was found. -/
def Devices.offset {δ Cpu : Type} (d : Devices δ) (i : ℕ) (req : DeviceReq Cpu) : UInt64 :=
  req.address - ((d.vdevs[i]?).map Window.baseAddr).getD 0

end HvisorRux.Bridge
