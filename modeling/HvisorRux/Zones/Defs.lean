import HvisorRux.Common.KeyedList
import HvisorRux.Common.Overflow
import HvisorRux.Gic.Distributor
import HvisorRux.Stage2.MemorySet

/-!
# Zones

A zone is a partition of the machine: a set of cpus, a stage-2 address space, the address ranges
whose accesses hvisor emulates and the PCI devices it may use. A `HvZoneConfig` (`config.rs`) tells
how to build it; it is written by the root zone's user space and nothing in it is known to be
consistent.

Functions are `none` where hvisor panics. How unsigned arithmetic overflows is a parameter: a debug
build panics, a release build wraps around.
-/

namespace HvisorRux.Zones

open Common Stage2

def maxCpuNum : ℕ := 4
def pageSize : ℕ := 0x1000
def invalidAddress : ℕ := 2 ^ 64 - 1

/-! ## Configurations -/

def memTypeRam : UInt32 := 0
def memTypeIo : UInt32 := 1
def memTypeVirtio : UInt32 := 2

structure HvConfigMemoryRegion where
  memType : UInt32
  physicalStart : UInt64
  virtualStart : UInt64
  size : UInt64
deriving DecidableEq, Inhabited

structure HvIvcConfig where
  ivcId : UInt32
  peerId : UInt32
  controlTableIpa : UInt64
  sharedMemIpa : UInt64
  rwSecSize : UInt32
  outSecSize : UInt32
  interruptNum : UInt32
  maxPeers : UInt32
deriving DecidableEq, Inhabited

structure HvArchZoneConfig where
  gicdBase : UInt64
  gicrBase : UInt64
  gicdSize : UInt64
  gitsBase : UInt64
  gitsSize : UInt64
deriving DecidableEq, Inhabited

structure HvPciConfig where
  ecamBase : UInt64
  ecamSize : UInt64
  ioBase : UInt64
  ioSize : UInt64
  pciIoBase : UInt64
  mem32Base : UInt64
  mem32Size : UInt64
  pciMem32Base : UInt64
  mem64Base : UInt64
  mem64Size : UInt64
  pciMem64Base : UInt64
deriving DecidableEq, Inhabited

/-- `HvZoneConfig`, without what only the tool reads. -/
structure HvZoneConfig where
  zoneId : UInt32
  cpuBits : UInt64
  numMemoryRegions : UInt32
  memoryRegionArray : Vector HvConfigMemoryRegion 16
  numInterrupts : UInt32
  interruptArray : Vector UInt32 32
  numIvcConfigs : UInt32
  ivcConfigArray : Vector HvIvcConfig 2
  entryPoint : UInt64
  dtbLoadPaddr : UInt64
  archConfig : HvArchZoneConfig
  pciConfig : HvPciConfig
  numPciDevs : UInt64
  allocPciDevArray : Vector UInt64 16
deriving DecidableEq, Inhabited

/-- The first `num` elements; `none` if there are not so many. -/
def slice {α : Type} {n : ℕ} (array : Vector α n) (num : ℕ) : Option (List α) :=
  if num ≤ n then some (array.toList.take num) else none

namespace HvZoneConfig

section

variable (config : HvZoneConfig)

/-- `memory_regions`. -/
def memoryRegions : Option (List HvConfigMemoryRegion) :=
  slice config.memoryRegionArray config.numMemoryRegions.toNat

/-- `interrupts`. -/
def interrupts : Option (List UInt32) :=
  slice config.interruptArray config.numInterrupts.toNat

/-- `ivc_config`. -/
def ivcConfig : Option (List HvIvcConfig) :=
  slice config.ivcConfigArray config.numIvcConfigs.toNat

/-- The devices that `pci_init` pushes. -/
def allocPciDevs : Option (List UInt64) :=
  slice config.allocPciDevArray config.numPciDevs.toNat

/-- `cpus`. -/
def cpus : List ℕ :=
  (List.range 64).filter fun i => config.cpuBits.toNat.testBit i

end

end HvZoneConfig

/-! ## Sets of cpus -/

/-- `CpuSet` (`percpu.rs`). -/
structure CpuSet where
  maxCpuId : ℕ
  bitmap : BitVec 64
deriving DecidableEq

namespace CpuSet

def containsCpu (s : CpuSet) (id : ℕ) : Bool := decide (id ≤ s.maxCpuId) && s.bitmap.getLsbD id

/-- `set_bit`; `none` is its failed assertion. -/
def setBit (s : CpuSet) (id : ℕ) : Option CpuSet :=
  if id ≤ s.maxCpuId then some { s with bitmap := s.bitmap ||| BitVec.twoPow 64 id } else none

def firstCpu (s : CpuSet) : Option ℕ := (List.range (s.maxCpuId + 1)).find? s.containsCpu

theorem containsCpu_setBit {s s' : CpuSet} {id c : ℕ} (h : s.setBit id = some s')
    (hmax : s.maxCpuId < 64) :
    s'.maxCpuId = s.maxCpuId ∧ (s'.containsCpu c = true ↔ s.containsCpu c = true ∨ c = id) := by
  obtain ⟨hle, rfl⟩ := Option.ite_some_none_eq_some.mp h
  refine ⟨rfl, ?_⟩
  simp only [containsCpu, Bool.and_eq_true, decide_eq_true_eq, BitVec.getLsbD_or,
    BitVec.getLsbD_twoPow, Bool.or_eq_true]
  grind

/-- Setting the bits of a list of cpus adds those cpus. -/
theorem containsCpu_setBits {s s' : CpuSet} {ids : List ℕ} (h : ids.foldlM setBit s = some s')
    (hmax : s.maxCpuId < 64) (c : ℕ) :
    s'.containsCpu c = true ↔ s.containsCpu c = true ∨ c ∈ ids := by
  induction ids generalizing s with
  | nil =>
    cases h
    simp
  | cons id ids ih =>
    obtain ⟨s₁, hs, hrest⟩ := Option.bind_eq_some_iff.mp h
    obtain ⟨hmax₁, hiff⟩ := containsCpu_setBit (c := c) hs hmax
    rw [ih hrest (hmax₁ ▸ hmax), hiff, List.mem_cons, or_assoc]

end CpuSet

/-! ## Emulated address ranges -/

/-- The handlers of emulated ranges. -/
inductive MMIOHandler
  | vgicv3Dist
  | vgicv3Its
  | vgicv3Redist
  | virtio
  | ivc
  | pci
deriving DecidableEq

/-- `MMIOConfig` (`memory/mmio.rs`). -/
structure MMIOConfig where
  start : ℕ
  size : ℕ
  handler : MMIOHandler
  arg : ℕ
deriving DecidableEq

/-- The search and the update of `mmio_region_register`; `none` is its panic. -/
def registerMmio (mmio : List MMIOConfig) (start size : ℕ) (handler : MMIOHandler) (arg : ℕ) :
    Option (List MMIOConfig) :=
  match KeyedList.find MMIOConfig.start start mmio with
  | some found =>
    if found.size ≠ size then none
    else some (KeyedList.modify MMIOConfig.start start
      (fun m => { m with handler := handler, arg := arg }) mmio)
  | none => some (mmio ++ [⟨start, size, handler, arg⟩])

/-- What is registered afterwards was before, or is handled as the call says. -/
theorem mem_registerMmio {mmio mmio' : List MMIOConfig} {start size : ℕ} {handler : MMIOHandler}
    {arg : ℕ} (h : registerMmio mmio start size handler arg = some mmio') {m : MMIOConfig}
    (hm : m ∈ mmio') : m ∈ mmio ∨ (m.handler = handler ∧ m.arg = arg) := by
  unfold registerMmio at h
  split at h
  · rw [Option.ite_none_left_eq_some, Option.some.injEq] at h
    obtain ⟨-, rfl⟩ := h
    obtain hm | ⟨b, -, rfl⟩ := KeyedList.mem_or_eq_of_mem_modify hm
    · exact .inl hm
    · exact .inr ⟨rfl, rfl⟩
  · cases h
    obtain hm | hm := List.mem_append.mp hm
    · exact .inl hm
    · obtain rfl := List.mem_singleton.mp hm
      exact .inr ⟨rfl, rfl⟩

/-! ## Zones -/

/-- `PhantomCfg` (`pci/phantom_cfg.rs`). -/
structure PhantomCfg where
  bdf : ℕ
  command : BitVec 16
deriving DecidableEq

/-- `PciRoot` (`pci/pci.rs`): the devices the zone may use, and what it sees of others. -/
structure PciRoot where
  allocDevs : List ℕ
  phantomDevs : List PhantomCfg
deriving DecidableEq

/-- `Zone` (`zone.rs`). -/
structure Zone where
  id : ℕ
  mmio : List MMIOConfig
  cpuSet : CpuSet
  irqBitmap : Gic.IrqBitmap
  gpm : MemorySet
  pciroot : PciRoot

namespace Zone

/-- `Zone::new`; `gpm` is what `new_s2_memory_set` returns. -/
def new (id : ℕ) (gpm : MemorySet) : Zone where
  id := id
  mmio := []
  cpuSet := ⟨maxCpuNum, 0⟩
  irqBitmap := fun _ => 0
  gpm := gpm
  pciroot := ⟨[], []⟩

/-- `mmio_region_register`. -/
def mmioRegionRegister (z : Zone) (start size : ℕ) (handler : MMIOHandler) (arg : ℕ) :
    Option Zone :=
  (registerMmio z.mmio start size handler arg).map fun mmio => { z with mmio := mmio }

end Zone

/-- `MemoryRegion::new_with_offset_mapper`, with the wrap-around of `wrapping_sub`. -/
def newWithOffsetMapper (startVaddr startPaddr size : ℕ) (flags : MemFlags) : MemoryRegion :=
  ⟨startVaddr, size, flags, .offset (.ofNat startVaddr - .ofNat startPaddr)⟩

end HvisorRux.Zones
