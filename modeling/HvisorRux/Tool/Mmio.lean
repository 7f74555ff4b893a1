import HvisorRux.Bridge.Defs
import HvisorRux.Common.Bytes
import HvisorRux.Tool.Memory

/-!
# The MMIO registers of a virtio device

`virtio_mmio_read` and `virtio_mmio_write` (`virtio.c`) with the registers and queues they work on,
and the creation and the reset of a device. Reads at or above `VIRTIO_MMIO_CONFIG` go to the memory
at `vdev->dev`, whose first member is the configuration of the device; `config_read_iff` says which
of them return the configuration and nothing else.
-/

namespace HvisorRux.Tool

open Common Option

/-! ## Devices -/

/-- `VirtioDeviceType`. -/
inductive VirtioDeviceType
  | net
  | block
  | console
  | gpu
  deriving DecidableEq, Repr

/-- `1ULL << bit`. -/
def featureBit (bit : UInt64) : UInt64 := 1 <<< bit

namespace VirtioDeviceType

/-- The value of the enumeration, which is the device id. -/
def id : VirtioDeviceType → UInt32
  | net => 1
  | block => 2
  | console => 3
  | gpu => 16

/-- `NET_SUPPORTED_FEATURES` and so on. The gpu's second term is the number of the bit, as in the
source. -/
def features : VirtioDeviceType → UInt64
  | net => featureBit 32 ||| featureBit 5 ||| featureBit 16
  | block => featureBit 2 ||| featureBit 1 ||| featureBit 32
  | console => featureBit 32 ||| featureBit 0
  | gpu => featureBit 32 ||| 28

/-- `vqs_len`. -/
def vqsLen : VirtioDeviceType → ℕ
  | net => 2
  | block => 1
  | console => 2
  | gpu => 2

/-- `VIRTQUEUE_NET_MAX_SIZE` and so on. -/
def queueNumMax : VirtioDeviceType → UInt32
  | net => 256
  | block => 512
  | console => 64
  | gpu => 256

end VirtioDeviceType

/-- `VirtMmioRegs`. -/
structure VirtMmioRegs where
  deviceId : UInt32
  devFeatureSel : UInt32
  drvFeatureSel : UInt32
  queueSel : UInt32
  interruptStatus : UInt32
  interruptCount : UInt32
  status : UInt32
  generation : UInt32
  devFeature : UInt64
  drvFeature : UInt64
  deriving DecidableEq, Repr

/-- The fields of a `VirtQueue`, its rings as host addresses. -/
structure QueueRegs where
  num : UInt64
  queueNumMax : UInt32
  descTableAddr : UInt64
  availAddr : UInt64
  usedAddr : UInt64
  descTable : UInt64
  availRing : UInt64
  usedRing : UInt64
  lastAvailIdx : UInt16
  lastUsedIdx : UInt16
  ready : UInt8
  eventIdxEnabled : Bool
  deriving DecidableEq, Repr

/-- A queue of zeros. -/
def QueueRegs.zero : QueueRegs := ⟨0, 0, 0, 0, 0, 0, 0, 0, 0, 0, 0, false⟩

/-- `VirtIODevice`, with what `dev` points to. -/
structure VirtIODevice (δ : Type) where
  type : VirtioDeviceType
  zoneId : Fin maxZones
  regs : VirtMmioRegs
  vqs : List QueueRegs
  dev : δ
  activated : Bool

/-- `virtqueue_reset`. -/
def virtqueueReset (vq : QueueRegs) : QueueRegs :=
  { QueueRegs.zero with queueNumMax := vq.queueNumMax }

/-- `init_virtio_queue`, with what `malloc` left in the array. The loop resets the first queue every
time, so the others keep it. -/
def initVirtioQueue (type : VirtioDeviceType) (heap : ℕ → QueueRegs) : List QueueRegs :=
  (List.range type.vqsLen).map fun i =>
    { (if i = 0 then virtqueueReset (heap 0) else heap i) with queueNumMax := type.queueNumMax }

/-- `init_mmio_regs` on zeroed registers, with the features of the device type. -/
def initMmioRegs (type : VirtioDeviceType) : VirtMmioRegs where
  deviceId := type.id
  devFeatureSel := 0
  drvFeatureSel := 0
  queueSel := 0
  interruptStatus := 0
  interruptCount := 0
  status := 0
  generation := 0
  devFeature := type.features
  drvFeature := 0

/-- `create_virtio_device`. -/
def createVirtioDevice {δ : Type} (type : VirtioDeviceType) (zoneId : Fin maxZones)
    (heap : ℕ → QueueRegs) (dev : δ) : VirtIODevice δ where
  type
  zoneId
  regs := initMmioRegs type
  vqs := initVirtioQueue type heap
  dev
  activated := false

/-- `virtio_dev_reset`. -/
def virtioDevReset {δ : Type} (vdev : VirtIODevice δ) : VirtIODevice δ :=
  { vdev with
    regs := { vdev.regs with status := 0, interruptStatus := 0, interruptCount := 0 }
    vqs := (vdev.vqs.modify vdev.regs.queueSel.toNat fun vq => { vq with ready := 0 }).map
      virtqueueReset
    activated := false }

/-! ## Registers -/

/-- The registers below `VIRTIO_MMIO_CONFIG`. -/
inductive MmioReg
  | magicValue
  | version
  | deviceId
  | vendorId
  | deviceFeatures
  | deviceFeaturesSel
  | driverFeatures
  | driverFeaturesSel
  | queueSel
  | queueNumMax
  | queueNum
  | queueReady
  | queueNotify
  | interruptStatus
  | interruptAck
  | status
  | queueDescLow
  | queueDescHigh
  | queueAvailLow
  | queueAvailHigh
  | queueUsedLow
  | queueUsedHigh
  | configGeneration
  deriving DecidableEq, Repr

/-- The offsets of `linux/virtio_mmio.h`; `none` for any other. -/
def MmioReg.ofOffset (offset : UInt64) : Option MmioReg :=
  if offset = 0x000 then some .magicValue
  else if offset = 0x004 then some .version
  else if offset = 0x008 then some .deviceId
  else if offset = 0x00c then some .vendorId
  else if offset = 0x010 then some .deviceFeatures
  else if offset = 0x014 then some .deviceFeaturesSel
  else if offset = 0x020 then some .driverFeatures
  else if offset = 0x024 then some .driverFeaturesSel
  else if offset = 0x030 then some .queueSel
  else if offset = 0x034 then some .queueNumMax
  else if offset = 0x038 then some .queueNum
  else if offset = 0x044 then some .queueReady
  else if offset = 0x050 then some .queueNotify
  else if offset = 0x060 then some .interruptStatus
  else if offset = 0x064 then some .interruptAck
  else if offset = 0x070 then some .status
  else if offset = 0x080 then some .queueDescLow
  else if offset = 0x084 then some .queueDescHigh
  else if offset = 0x090 then some .queueAvailLow
  else if offset = 0x094 then some .queueAvailHigh
  else if offset = 0x0a0 then some .queueUsedLow
  else if offset = 0x0a4 then some .queueUsedHigh
  else if offset = 0x0fc then some .configGeneration
  else none

/-- `VIRTIO_MMIO_CONFIG`. -/
def virtioMmioConfig : UInt64 := 0x100

/-- `VIRT_VERSION`. -/
def virtVersion : UInt64 := 2

/-- `VIRT_VENDOR`. -/
def virtVendor : UInt64 := 0x48564953

/-- The bit of `VIRTIO_RING_F_EVENT_IDX`. -/
def virtioRingFEventIdx : UInt64 := featureBit 29

/-- `virtio_mmio_read` of a device; `vdev->dev` is given by the bytes from there on. -/
def virtioMmioRead (vdev : VirtIODevice ByteMem) (offset : UInt64) (size : UInt32) : UInt64 :=
  if virtioMmioConfig ≤ offset then
    UInt64.ofNat (leNat (vdev.dev.read (offset - virtioMmioConfig).toNat 8))
  else if size ≠ 4 then 0
  else
    let vq := vdev.vqs.getD vdev.regs.queueSel.toNat .zero
    match MmioReg.ofOffset offset with
    | some .magicValue => Bridge.virtMagic
    | some .version => virtVersion
    | some .deviceId => vdev.regs.deviceId.toUInt64
    | some .vendorId => virtVendor
    | some .deviceFeatures =>
      if vdev.regs.devFeatureSel ≠ 0 then vdev.regs.devFeature >>> 32 else vdev.regs.devFeature
    | some .queueNumMax => vq.queueNumMax.toUInt64
    | some .queueReady => vq.ready.toUInt64
    | some .interruptStatus => vdev.regs.interruptStatus.toUInt64
    | some .status => vdev.regs.status.toUInt64
    | some .configGeneration => vdev.regs.generation.toUInt64
    | _ => 0

/-- Change the selected queue. -/
def VirtIODevice.modifyVq {δ : Type} (vdev : VirtIODevice δ) (f : QueueRegs → QueueRegs) :
    VirtIODevice δ :=
  { vdev with vqs := vdev.vqs.modify vdev.regs.queueSel.toNat f }

/-- The lower half of an address: `|= value & UINT32_MAX`. -/
def orLow (addr value : UInt64) : UInt64 := addr ||| (value &&& 0xffffffff)

/-- The upper half of an address: `|= value << 32`. -/
def orHigh (addr value : UInt64) : UInt64 := addr ||| (value <<< 32)

/-- The write of the register that acknowledges interrupts. The mask is the logical negation. -/
def VirtMmioRegs.ack (regs : VirtMmioRegs) (value : UInt64) : VirtMmioRegs :=
  if value = regs.interruptStatus.toUInt64 ∧ 0 < regs.interruptCount then
    { regs with interruptCount := regs.interruptCount - 1 }
  else
    { regs with interruptStatus := regs.interruptStatus &&& (if value = 0 then 1 else 0) }

/-- The write of `VIRTIO_MMIO_DRIVER_FEATURES`. -/
def acceptFeatures {δ : Type} (vdev : VirtIODevice δ) (value : UInt64) : VirtIODevice δ :=
  let drvFeature := vdev.regs.drvFeature |||
    (if vdev.regs.drvFeatureSel ≠ 0 then value <<< 32 else value)
  { vdev with
    regs := { vdev.regs with drvFeature }
    vqs :=
      if drvFeature &&& virtioRingFEventIdx ≠ 0 then
        vdev.vqs.map fun vq => { vq with eventIdxEnabled := true }
      else vdev.vqs }

/-- `virtio_mmio_write`; `notify` are the notify handlers of the queues. -/
def virtioMmioWrite {δ : Type} (zm : ZoneMem) (notify : ℕ → VirtIODevice δ → VirtIODevice δ)
    (vdev : VirtIODevice δ) (offset value : UInt64) (size : UInt32) : VirtIODevice δ :=
  if virtioMmioConfig ≤ offset then vdev
  else if size ≠ 4 then vdev
  else
    match MmioReg.ofOffset offset with
    | some .deviceFeaturesSel =>
      { vdev with regs := { vdev.regs with devFeatureSel := if value ≠ 0 then 1 else 0 } }
    | some .driverFeatures => acceptFeatures vdev value
    | some .driverFeaturesSel =>
      { vdev with regs := { vdev.regs with drvFeatureSel := if value ≠ 0 then 1 else 0 } }
    | some .queueSel =>
      if value.toNat < vdev.vqs.length then
        { vdev with regs := { vdev.regs with queueSel := value.toUInt32 } }
      else vdev
    | some .queueNum => vdev.modifyVq fun vq => { vq with num := value }
    | some .queueReady => vdev.modifyVq fun vq => { vq with ready := value.toUInt8 }
    | some .queueNotify =>
      if value.toNat < vdev.vqs.length then notify value.toNat vdev else vdev
    | some .interruptAck => { vdev with regs := vdev.regs.ack value }
    | some .status =>
      let vdev := { vdev with regs := { vdev.regs with status := value.toUInt32 } }
      if vdev.regs.status = 0 then virtioDevReset vdev else vdev
    | some .queueDescLow =>
      vdev.modifyVq fun vq => { vq with descTableAddr := orLow vq.descTableAddr value }
    | some .queueDescHigh =>
      vdev.modifyVq fun vq =>
        { vq with
          descTableAddr := orHigh vq.descTableAddr value
          descTable := getVirtAddr zm (orHigh vq.descTableAddr value) vdev.zoneId }
    | some .queueAvailLow =>
      vdev.modifyVq fun vq => { vq with availAddr := orLow vq.availAddr value }
    | some .queueAvailHigh =>
      vdev.modifyVq fun vq =>
        { vq with
          availAddr := orHigh vq.availAddr value
          availRing := getVirtAddr zm (orHigh vq.availAddr value) vdev.zoneId }
    | some .queueUsedLow =>
      vdev.modifyVq fun vq => { vq with usedAddr := orLow vq.usedAddr value }
    | some .queueUsedHigh =>
      vdev.modifyVq fun vq =>
        { vq with
          usedAddr := orHigh vq.usedAddr value
          usedRing := getVirtAddr zm (orHigh vq.usedAddr value) vdev.zoneId }
    | _ => vdev

/-! ## Reads of the configuration space -/

/-- A read discloses the configuration of `cfg` bytes only: devices of the type with the same
configuration answer alike, and the value is the `size` bytes at the offset. -/
structure DisclosesConfig (type : VirtioDeviceType) (cfg : ℕ) (offset : UInt64) (size : UInt32) :
    Prop where
  same : ∀ vdev vdev' : VirtIODevice ByteMem, vdev.type = type → vdev'.type = type →
    (∀ a < cfg, vdev.dev a = vdev'.dev a) →
      virtioMmioRead vdev offset size = virtioMmioRead vdev' offset size
  exact : ∀ vdev : VirtIODevice ByteMem, vdev.type = type →
    (virtioMmioRead vdev offset size).toNat =
      leNat (vdev.dev.read (offset - virtioMmioConfig).toNat size.toNat)

theorem leNat_lt (bytes : List UInt8) : leNat bytes < 256 ^ bytes.length := by
  induction bytes with
  | nil => decide
  | cons byte bytes ih =>
    have hbyte : byte.toNat < 256 := byte.toNat_lt
    show byte.toNat + 256 * leNat bytes < 256 ^ (bytes.length + 1)
    omega

theorem virtioMmioRead_config {offset : UInt64} (h : virtioMmioConfig ≤ offset)
    (vdev : VirtIODevice ByteMem) (size : UInt32) :
    (virtioMmioRead vdev offset size).toNat =
      leNat (vdev.dev.read (offset - virtioMmioConfig).toNat 8) := by
  have hlt := leNat_lt (vdev.dev.read (offset - virtioMmioConfig).toNat 8)
  rw [ByteMem.length_read] at hlt
  rw [virtioMmioRead, if_pos h]
  exact Nat.mod_eq_of_lt hlt

/-- A device with the given bytes at `vdev->dev`. -/
def configDevice (type : VirtioDeviceType) (dev : ByteMem) : VirtIODevice ByteMem :=
  createVirtioDevice type ⟨1, one_lt_maxZones⟩ (fun _ => .zero) dev

/-- The number whose bytes are all 255. -/
theorem leNat_ones (o n : ℕ) : leNat (ByteMem.read (fun _ => 255) o n) + 1 = 256 ^ n := by
  have hread : ByteMem.read (fun _ => 255) o n = List.replicate n 255 := by
    simp [ByteMem.read]
  rw [hread]
  clear hread
  induction n with
  | zero => rfl
  | succ n ih =>
    show 255 + 256 * leNat (List.replicate n 255) + 1 = 256 ^ (n + 1)
    omega

/-- **Configuration reads.** Whatever the size of the device's configuration, a read at an offset of
the configuration space discloses the configuration only iff it is a read of eight bytes that lie
inside the configuration. -/
theorem config_read_iff (type : VirtioDeviceType) (cfg : ℕ) (offset : UInt64) (size : UInt32)
    (h : virtioMmioConfig ≤ offset) :
    DisclosesConfig type cfg offset size ↔
      size = 8 ∧ (offset - virtioMmioConfig).toNat + 8 ≤ cfg := by
  constructor
  · rintro ⟨hsame, hexact⟩
    constructor
    · -- a device full of ones shows how many bytes are returned
      have hones := hexact (configDevice type fun _ => 255) rfl
      rw [virtioMmioRead_config h] at hones
      have hpow : 256 ^ 8 = 256 ^ size.toNat := by
        rw [← leNat_ones (offset - virtioMmioConfig).toNat 8,
          ← leNat_ones (offset - virtioMmioConfig).toNat size.toNat]
        exact congrArg (· + 1) hones
      exact UInt32.toNat_inj.mp (Nat.pow_right_injective (le_refl 2 |>.trans (by decide)) hpow).symm
    · -- the last of the eight bytes would be behind the configuration
      by_contra hout
      have hread := hsame (configDevice type fun _ => 0)
        (configDevice type (Function.update (fun _ => 0) ((offset - virtioMmioConfig).toNat + 7) 1))
        rfl rfl (by
          intro a ha
          exact (Function.update_of_ne (by omega) _ _).symm)
      have hnat := congrArg UInt64.toNat hread
      rw [virtioMmioRead_config h, virtioMmioRead_config h] at hnat
      simp [configDevice, createVirtioDevice, ByteMem.read, List.range_succ, leNat,
        Function.update] at hnat
  · rintro ⟨rfl, hle⟩
    refine ⟨fun vdev vdev' _ _ hcfg => ?_, fun vdev _ => virtioMmioRead_config h vdev 8⟩
    have hread : vdev.dev.read (offset - virtioMmioConfig).toNat 8 =
        vdev'.dev.read (offset - virtioMmioConfig).toNat 8 :=
      ByteMem.read_congr fun a _ ha => hcfg a (by omega)
    rw [← UInt64.toNat_inj, virtioMmioRead_config h, virtioMmioRead_config h, hread]

/-- `num_scanouts` and `num_capsets` of a gpu, whose configuration has 16 bytes, in one read. -/
theorem config_read_sample : virtioMmioConfig ≤ 0x108 ∧ DisclosesConfig .gpu 16 0x108 8 :=
  ⟨by decide, (config_read_iff .gpu 16 0x108 8 (by decide)).mpr ⟨rfl, by decide⟩⟩

/-- A read of four bytes behind the configuration of a gpu returns the host's bytes there, and a
read of the first four bytes of the configuration returns the next four as well. -/
theorem config_read_discloses : (virtioMmioRead (configDevice .gpu fun _ => 0) 0x110 4 ≠
      virtioMmioRead (configDevice .gpu fun a => if a < 16 then 0 else 1) 0x110 4) ∧
    (virtioMmioRead (configDevice .gpu fun a => if a < 4 then 0 else 1) 0x100 4).toNat ≠
      leNat (ByteMem.read (fun a => if a < 4 then 0 else 1) 0 4) := by
  constructor <;> decide +kernel

/-! ## The interrupt status -/

/-- What `virtio_inject_irq` does under its lock; `VIRTIO_MMIO_INT_VRING` is 1. -/
def VirtMmioRegs.inject (regs : VirtMmioRegs) : VirtMmioRegs :=
  { regs with interruptStatus := 1, interruptCount := regs.interruptCount + 1 }

/-- A device since its reset. `seen` is the status that the driver has read and not yet written
back. -/
structure IrqHistory where
  vdev : VirtIODevice ByteMem
  injected : ℕ
  acked : ℕ
  seen : Option UInt64

/-- An injection, a read of the status register, or the write of the value read to the register that
acknowledges. -/
inductive IrqEvent
  | inject
  | read
  | ack

/-- One step. There is at most one acknowledgement for each injection. -/
def irqStep (zm : ZoneMem) (notify : ℕ → VirtIODevice ByteMem → VirtIODevice ByteMem)
    (s : IrqHistory) : IrqEvent → Option IrqHistory
  | .inject =>
    some { s with
      vdev := { s.vdev with regs := s.vdev.regs.inject }
      injected := s.injected + 1 }
  | .read => some { s with seen := some (virtioMmioRead s.vdev 0x060 4) }
  | .ack =>
    if s.acked < s.injected then
      s.seen.map fun value =>
        { s with
          vdev := virtioMmioWrite zm notify s.vdev 0x064 value 4
          acked := s.acked + 1
          seen := none }
    else none

def irqInit (vdev : VirtIODevice ByteMem) : IrqHistory := ⟨virtioDevReset vdev, 0, 0, none⟩

/-- The counter of 32 bits does not wrap. -/
def CountFits (s : IrqHistory) : IrqEvent → Prop
  | .inject => s.vdev.regs.interruptCount.toNat + 1 < 2 ^ 32
  | _ => True

instance (s : IrqHistory) (e : IrqEvent) : Decidable (CountFits s e) := by
  cases e <;> unfold CountFits <;> infer_instance

/-- The status stays set from the first injection on, since the counter, which is to go down first,
is at least the number of unacknowledged injections. -/
structure IrqInv (s : IrqHistory) : Prop where
  status : s.vdev.regs.interruptStatus = if s.injected = 0 then 0 else 1
  seen : ∀ value, s.seen = some value → value = 0 ∨ value = 1
  count : s.injected ≤ s.acked + s.vdev.regs.interruptCount.toNat
  acked : s.acked ≤ s.injected

section

variable {zm : ZoneMem} {notify : ℕ → VirtIODevice ByteMem → VirtIODevice ByteMem}
  {s s' : IrqHistory} {e : IrqEvent}

/-- An acknowledgement leaves a status of 1 as it is: with the value 1 the counter goes down, and
the value 0, read before the first injection, is masked with 1. -/
theorem VirtMmioRegs.ack_status {regs : VirtMmioRegs} {value : UInt64}
    (hstatus : regs.interruptStatus = 1) (hcount : 0 < regs.interruptCount)
    (hvalue : value = 0 ∨ value = 1) : (regs.ack value).interruptStatus = 1 := by
  rw [ack, hstatus]
  rcases hvalue with rfl | rfl
  · rfl
  · rw [if_pos ⟨rfl, hcount⟩]

theorem VirtMmioRegs.ack_count (regs : VirtMmioRegs) (value : UInt64) :
    regs.interruptCount.toNat ≤ (regs.ack value).interruptCount.toNat + 1 := by
  rw [ack]
  split
  · next hc =>
    have hone : (1 : UInt32) ≤ regs.interruptCount := UInt32.lt_iff_toNat_lt.mp hc.2
    rw [UInt32.toNat_sub_of_le _ _ hone]
    exact Nat.le_of_pred_lt (Nat.lt_succ_self _)
  · exact Nat.le_succ _

theorem IrqInv.step (h : IrqInv s) (hfits : CountFits s e) (hs : irqStep zm notify s e = some s') :
    IrqInv s' := by
  cases e with
  | inject =>
    cases hs
    refine ⟨rfl, h.seen, ?_, Nat.le_succ_of_le h.acked⟩
    show s.injected + 1 ≤ s.acked + (s.vdev.regs.interruptCount + 1).toNat
    rw [UInt32.toNat_add, UInt32.toNat_one, Nat.mod_eq_of_lt hfits]
    exact Nat.succ_le_succ h.count
  | read =>
    cases hs
    refine ⟨h.status, ?_, h.count, h.acked⟩
    rintro value hvalue
    cases hvalue
    show s.vdev.regs.interruptStatus.toUInt64 = 0 ∨ s.vdev.regs.interruptStatus.toUInt64 = 1
    rw [h.status]
    split
    · exact .inl rfl
    · exact .inr rfl
  | ack =>
    obtain ⟨hlt, hs⟩ := ite_none_right_eq_some.mp hs
    obtain ⟨value, hvalue, rfl⟩ := map_eq_some_iff.mp hs
    have hne : s.injected ≠ 0 := Nat.ne_zero_of_lt hlt
    have hcount := h.count
    have hpos : 0 < s.vdev.regs.interruptCount := UInt32.lt_iff_toNat_lt.mpr (by simp; omega)
    have hstatus := h.status
    rw [if_neg hne] at hstatus
    refine ⟨?_, fun _ hnone => (by cases hnone), ?_, hlt⟩
    · rw [if_neg hne]
      exact VirtMmioRegs.ack_status hstatus hpos (h.seen value hvalue)
    · have hack := s.vdev.regs.ack_count value
      show s.injected ≤ s.acked + 1 + (s.vdev.regs.ack value).interruptCount.toNat
      omega

/-- **The interrupt status.** As long as the counter does not wrap, the status is set iff there was
an injection since the reset, whatever was acknowledged. So it tells whether an injection is
unacknowledged iff one is, or there was none at all. -/
theorem interrupt_status_exact {vdev : VirtIODevice ByteMem}
    (h : Reach (irqStep zm notify) CountFits (irqInit vdev) s) :
    (s.vdev.regs.interruptStatus ≠ 0 ↔ 0 < s.injected) ∧
      ((s.vdev.regs.interruptStatus ≠ 0 ↔ s.acked < s.injected) ↔
        s.acked < s.injected ∨ s.injected = 0) := by
  have hinit : IrqInv (irqInit vdev) := ⟨rfl, fun _ hnone => (by cases hnone), le_rfl, le_rfl⟩
  have hinv := h.invariant IrqInv hinit fun _ _ _ h hok hs => h.step hok hs
  have hstatus : s.vdev.regs.interruptStatus ≠ 0 ↔ 0 < s.injected := by
    rw [hinv.status, Nat.pos_iff_ne_zero]
    split <;> simp [*]
  refine ⟨hstatus, ?_⟩
  rw [hstatus]
  omega

end

/-- The first of two interrupts is acknowledged. -/
theorem interrupt_status_sample :
    ∃ s, Reach (irqStep samplePage fun _ vdev => vdev) CountFits
      (irqInit (configDevice .gpu fun _ => 0)) s ∧
        s.acked = 1 ∧ s.injected = 2 ∧ s.vdev.regs.interruptStatus ≠ 0 := by
  have hrun : (run (irqStep samplePage fun _ vdev => vdev) CountFits
      (irqInit (configDevice .gpu fun _ => 0)) [.inject, .read, .ack, .inject]).map
        (fun s => (s.acked, s.injected)) = some (1, 2) := by
    decide +kernel
  obtain ⟨s, hs, heq⟩ := exists_of_run hrun
  obtain ⟨hacked, hinjected⟩ := Prod.mk.inj heq
  exact ⟨s, hs, hacked, hinjected, (interrupt_status_exact hs).1.mpr (by omega)⟩

/-- One injection, and its acknowledgement: the status is still set. -/
theorem acknowledged_status_set :
    ∃ s, Reach (irqStep samplePage fun _ vdev => vdev) anyStep
      (irqInit (configDevice .gpu fun _ => 0)) s ∧
        s.acked = s.injected ∧ s.vdev.regs.interruptStatus ≠ 0 := by
  have hrun : (run (irqStep samplePage fun _ vdev => vdev) anyStep
      (irqInit (configDevice .gpu fun _ => 0)) [.inject, .read, .ack]).map
        (fun s => (s.acked, s.injected, s.vdev.regs.interruptStatus)) = some (1, 1, 1) := by
    decide +kernel
  obtain ⟨s, hs, heq⟩ := exists_of_run hrun
  simp only [Prod.mk.injEq] at heq
  obtain ⟨hacked, hinjected, hstatus⟩ := heq
  exact ⟨s, hs, hacked.trans hinjected.symm, by rw [hstatus]; decide⟩

end HvisorRux.Tool
