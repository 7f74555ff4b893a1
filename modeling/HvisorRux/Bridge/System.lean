import HvisorRux.Bridge.Defs

/-!
# Cpus and daemon around the bridge

`mmio_virtio_handler` and `handle_virtio_requests` as programs with an explicit program point, one
step per shared access. The histories `pushed`, `handled` and `answers` are ghost state: no step
reads them.
-/

namespace HvisorRux.Bridge

/-- Program points of `mmio_virtio_handler` on one cpu. From `wakeup` on, `k` is the position of the
cpu's request in the history of pushed requests. -/
inductive VcpuPc
  /-- the guest runs -/
  | guest
  /-- `VIRTIO_BRIDGE.lock()` -/
  | lock (mmio : MMIOAccess)
  /-- `while dev.is_req_list_full()`, lock held -/
  | check (mmio : MMIOAccess)
  /-- `let old_cfg_flag = cfg_flags[cpu_id]`, lock held -/
  | readFlag (mmio : MMIOAccess)
  /-- first store of `push_req`, lock held -/
  | write (mmio : MMIOAccess) (old : UInt64)
  /-- second store of `push_req`, lock held -/
  | publish (mmio : MMIOAccess) (old : UInt64)
  /-- `if dev.need_wakeup()`, lock held -/
  | wakeup (mmio : MMIOAccess) (old : UInt64) (k : ℕ)
  /-- `drop(dev)` -/
  | unlock (mmio : MMIOAccess) (old : UInt64) (k : ℕ)
  /-- `while cfg_flags[cpu_id] == old_cfg_flag` -/
  | spin (mmio : MMIOAccess) (old : UInt64) (k : ℕ)
  /-- `mmio.value = cfg_values[cpu_id]` -/
  | readValue (mmio : MMIOAccess) (k : ℕ)
  /-- `Ok(())`, with the value a read hands to the guest -/
  | done (mmio : MMIOAccess) (k : ℕ) (value : Option UInt64)
deriving DecidableEq

/-- Program points of `handle_virtio_requests`. -/
inductive DaemonPc
  /-- the first `need_wakeup = 1` -/
  | start
  | sigwait
  /-- the emptiness test at the top of `while (1)` -/
  | poll
  /-- `need_wakeup = 0` -/
  | clear
  /-- `virtio_handle_req` up to the device access -/
  | handle
  /-- `virtio_finish_cfg_req`: `cfg_values[target_cpu] = value` -/
  | setValue (value : UInt64)
  /-- `virtio_finish_cfg_req`: `cfg_flags[target_cpu]++` -/
  | setFlag (value : UInt64)
  /-- `req_front` stored to the bridge -/
  | advance
  /-- the ring was empty: comparison with the 30 ms limit -/
  | idle
  /-- `need_wakeup = 1` before the sleep -/
  | arm
  /-- the emptiness test after `nanosleep` -/
  | recheck
deriving DecidableEq

/-- The whole system: the shared page, the lock, every cpu and the daemon. -/
structure State (Cpu δ : Type) where
  bridge : VirtioBridge Cpu
  lock : Option Cpu
  vcpu : Cpu → VcpuPc
  daemon : DaemonPc
  /-- the daemon's local `req_front` -/
  localFront : UInt32
  dev : δ
  /-- a wake-up event, or the signal it becomes, is on its way to the daemon -/
  wakePending : Bool
  pushed : List (DeviceReq Cpu)
  handled : List (DeviceReq Cpu)
  answers : List UInt64

/-- What can happen next. -/
inductive Event (Cpu δ : Type)
  /-- the guest of a cpu traps on a virtio register -/
  | access (c : Cpu) (mmio : MMIOAccess)
  /-- the handler of a cpu takes its next step -/
  | vcpu (c : Cpu)
  /-- the handler returns to the guest -/
  | resume (c : Cpu)
  /-- the daemon takes its next step -/
  | daemon
  /-- the daemon's clock is compared with the 30 ms limit -/
  | timer (expired : Bool)
  /-- a device thread changes the device state -/
  | device (dev : δ)

section Steps

variable {Cpu δ : Type} [DecidableEq Cpu]

/-- Move cpu `c` to another program point. -/
def State.setPc (s : State Cpu δ) (c : Cpu) (pc : VcpuPc) : State Cpu δ :=
  { s with vcpu := Function.update s.vcpu c pc }

/-- The next step of `mmio_virtio_handler` on cpu `c`. -/
def vcpuStep (s : State Cpu δ) (c : Cpu) : Option (State Cpu δ) :=
  match s.vcpu c with
  | .guest => none
  | .lock mmio =>
    if s.lock = none then some ({ s with lock := some c }.setPc c (.check mmio)) else none
  | .check mmio =>
    -- a full ring releases the lock and takes it again, so that the drain can get in
    if s.bridge.isReqListFull then some ({ s with lock := none }.setPc c (.lock mmio))
    else some (s.setPc c (.readFlag mmio))
  | .readFlag mmio => some (s.setPc c (.write mmio (s.bridge.cfgFlags c)))
  | .write mmio old =>
    some ({ s with bridge := s.bridge.writeReq (mmio.request c) }.setPc c (.publish mmio old))
  | .publish mmio old =>
    some ({ s with
      bridge := s.bridge.publishReq
      pushed := s.pushed ++ [mmio.request c] }.setPc c (.wakeup mmio old s.pushed.length))
  | .wakeup mmio old k =>
    some ({ s with wakePending := s.wakePending || s.bridge.needWakeup }.setPc c
      (.unlock mmio old k))
  | .unlock mmio old k =>
    some ({ s with lock := none }.setPc c
      (if mmio.isNotify then .done mmio k none else .spin mmio old k))
  | .spin mmio old k =>
    if s.bridge.cfgFlags c = old then some s
    else some (s.setPc c (if mmio.isWrite then .done mmio k none else .readValue mmio k))
  | .readValue mmio k => some (s.setPc c (.done mmio k (some (s.bridge.cfgValues c))))
  | .done _ _ _ => none

/-- The request the daemon is looking at: `&virtio_bridge->req_list[req_front]`. -/
def State.current (s : State Cpu δ) : DeviceReq Cpu := s.bridge.reqList s.localFront.toNat

section

variable (d : Devices δ) (s : State Cpu δ)

/-- `virtio_handle_req` up to the point where the answer, if any, is stored. A request that no
device matches is answered like a configuration access, whatever its `need_interrupt`. -/
def handleReq : State Cpu δ :=
  match d.find s.current with
  | none => { s with daemon := .setValue virtMagic }
  | some i =>
    let dev := if s.current.isWrite then
        d.mmioWrite s.dev i (d.offset i s.current) s.current.value s.current.size
      else s.dev
    let value := if s.current.isWrite then 0
      else d.mmioRead s.dev i (d.offset i s.current) s.current.size
    if s.current.needInterrupt then
      { s with
        dev
        daemon := .advance
        handled := s.handled ++ [s.current]
        answers := s.answers ++ [value] }
    else { s with dev, daemon := .setValue value }

/-- The next step of `handle_virtio_requests`. -/
def daemonStep : Option (State Cpu δ) :=
  match s.daemon with
  | .start => some { s with bridge := { s.bridge with needWakeup := true }, daemon := .sigwait }
  | .sigwait =>
    if s.wakePending then some { s with wakePending := false, daemon := .poll } else none
  | .poll =>
    some { s with
      daemon := if isQueueEmpty s.localFront s.bridge.reqRear then .idle else .clear }
  | .clear => some { s with bridge := { s.bridge with needWakeup := false }, daemon := .handle }
  | .handle => some (handleReq d s)
  | .setValue value =>
    some { s with
      bridge := { s.bridge with
        cfgValues := Function.update s.bridge.cfgValues s.current.srcCpu value }
      daemon := .setFlag value }
  | .setFlag value =>
    some { s with
      bridge := { s.bridge with
        cfgFlags := Function.update s.bridge.cfgFlags s.current.srcCpu
          (s.bridge.cfgFlags s.current.srcCpu + 1) }
      daemon := .advance
      handled := s.handled ++ [s.current]
      answers := s.answers ++ [value] }
  | .advance =>
    some { s with
      localFront := nextFront s.localFront
      bridge := { s.bridge with reqFront := nextFront s.localFront }
      daemon := .poll }
  | .idle => none
  | .arm => some { s with bridge := { s.bridge with needWakeup := true }, daemon := .recheck }
  | .recheck =>
    some { s with
      daemon := if isQueueEmpty s.localFront s.bridge.reqRear then .sigwait else .poll }

/-- One step of the system. -/
def step : Event Cpu δ → Option (State Cpu δ)
  | .access c mmio => if s.vcpu c = .guest then some (s.setPc c (.lock mmio)) else none
  | .vcpu c => vcpuStep s c
  | .resume c =>
    match s.vcpu c with
    | .done _ _ _ => some (s.setPc c .guest)
    | _ => none
  | .daemon => daemonStep d s
  | .timer expired =>
    if s.daemon = .idle then some { s with daemon := if expired then .arm else .poll } else none
  | .device dev => some { s with dev }

end

/-- The bridge zeroed by `hvisor_init_virtio`, every cpu in its guest and the daemon about to enter
its loop; `unused` fills the slots, which no step reads before they are written. -/
def init (unused : DeviceReq Cpu) (dev : δ) : State Cpu δ where
  bridge := {
    reqFront := 0
    reqRear := 0
    reqList := fun _ => unused
    cfgFlags := fun _ => 0
    cfgValues := fun _ => 0
    needWakeup := false }
  lock := none
  vcpu := fun _ => .guest
  daemon := .start
  localFront := 0
  dev
  wakePending := false
  pushed := []
  handled := []
  answers := []

end Steps

/-! ## A system with one cpu and one device -/

/-- One device of zone 1, whose registers all read as 7. -/
def sampleDevices : Devices Unit where
  vdevs := [⟨1, 0xa003400, 0x200⟩]
  mmioRead := fun _ _ _ _ => 7
  mmioWrite := fun _ _ _ _ _ => ()

/-- A guest notification, as a register access of zone 1. -/
def sampleNotify (base : UInt64) : MMIOAccess := ⟨0x50, base, 4, 0, true, 1⟩

/-- A read of the first register of the device. -/
def sampleRead : MMIOAccess := ⟨0, 0xa003400, 4, 0, false, 1⟩

/-- The zeroed bridge with one cpu. -/
def sampleInit : State Unit Unit := init ⟨(), 0, 0, 0, 0, false, false⟩ ()

/-- One cpu takes an access up to the end of its critical section. -/
def sampleAccess (mmio : MMIOAccess) : List (Event Unit Unit) :=
  .access () mmio :: List.replicate 7 (.vcpu ())

end HvisorRux.Bridge
