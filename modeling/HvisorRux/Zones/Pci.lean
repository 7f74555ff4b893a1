import HvisorRux.Zones.Defs

/-!
# PCI devices of a zone

A zone may use the devices that its configuration assigns to it (`pci/pci.rs`). The configuration
space of all devices is emulated: accesses to an assigned device are performed as they are. Any
other device that is there looks like a phantom with a command register of its own, which the zone
may set; four of its registers are made up.

The other registers of a device that is not assigned are not made up: the access is performed, also
if it is a write.
-/

namespace HvisorRux.Zones

open Common Stage2 Function Option

/-! ## Initialisation -/

/-- `BarType` (`pci/pcibar.rs`). -/
inductive BarType
  | mem32
  | mem64
  | io
  | unknown
deriving DecidableEq

/-- `BarRegion`. -/
structure BarRegion where
  start : ℕ
  size : ℕ
  barType : BarType
deriving DecidableEq

/-- `gpm.insert(..).ok()`, which ignores an error. `pt` is what a call that failed half-way leaves
as the page table. -/
def Zone.tryInsert (pt : PageTable) (z : Zone) (r : MemoryRegion) : Option Zone :=
  match z.gpm.insert r with
  | .ok gpm => some { z with gpm := gpm }
  | .error .einval => some z
  | .error (.paging _) => some { z with gpm := { z.gpm with pt := pt } }
  | .error .panic => none
  | .error .diverge => none

/-- A readable and writable range that is mapped to itself. -/
def identityRegion (start size : ℕ) : MemoryRegion :=
  newWithOffsetMapper start start size (MemFlags.read ||| MemFlags.write)

/-- `root_pci_init`. -/
def Zone.rootPciInit (pt : PageTable) (pci : HvPciConfig) (z : Zone) : Option Zone := do
  let z ← z.mmioRegionRegister pci.ecamBase.toNat pci.ecamSize.toNat .pci pci.ecamBase.toNat
  let z ← z.tryInsert pt (identityRegion pci.ioBase.toNat pci.ioSize.toNat)
  let z ← z.tryInsert pt (identityRegion pci.mem32Base.toNat pci.mem32Size.toNat)
  z.tryInsert pt (identityRegion pci.mem64Base.toNat pci.mem64Size.toNat)

/-- `virtual_pci_mmio_init`. -/
def Zone.virtualPciMmioInit (pci : HvPciConfig) (z : Zone) : Option Zone := do
  let z ← z.mmioRegionRegister pci.ecamBase.toNat pci.ecamSize.toNat .pci pci.ecamBase.toNat
  let z ← z.mmioRegionRegister pci.ioBase.toNat pci.ioSize.toNat .pci pci.ioBase.toNat
  let z ← z.mmioRegionRegister pci.mem32Base.toNat pci.mem32Size.toNat .pci pci.mem32Base.toNat
  z.mmioRegionRegister pci.mem64Base.toNat pci.mem64Size.toNat .pci pci.mem64Base.toNat

/-- The window of a BAR, as the cpu and as the devices see it. -/
def HvPciConfig.window (pci : HvPciConfig) : BarType → Option (ℕ × ℕ)
  | .io => some (pci.ioBase.toNat, pci.pciIoBase.toNat)
  | .mem32 => some (pci.mem32Base.toNat, pci.pciMem32Base.toNat)
  | .mem64 => some (pci.mem64Base.toNat, pci.pciMem64Base.toNat)
  | .unknown => none

section

variable (o : Overflow) (pt : PageTable)

/-- One round of `pci_bars_register`. -/
def Zone.pciBarRegister (pci : HvPciConfig) (z : Zone) (region : BarRegion) : Option Zone := do
  let (cpuBase, pciBase) ← pci.window region.barType
  let start ← o.add 64 cpuBase region.start
  let start ← o.sub 64 start pciBase
  z.tryInsert pt (identityRegion (start / pageSize * pageSize) region.size)

/-- `virtual_pci_device_init`; `bars` are the regions that probing the assigned devices finds, which
`get_bars_regions` makes a page large at least. -/
def Zone.virtualPciDeviceInit (bars : List BarRegion)
    (pci : HvPciConfig) (z : Zone) : Option Zone :=
  (bars.map fun r => { r with size := max r.size pageSize }).foldlM (pciBarRegister o pt pci) z

/-- `pci_init`. -/
def Zone.pciInit (bars : List BarRegion) (config : HvZoneConfig) (z : Zone) : Option Zone := do
  let devs ← config.allocPciDevs
  let z := { z with pciroot := { z.pciroot with allocDevs := devs.map UInt64.toNat } }
  if z.id = 0 then z.rootPciInit pt config.pciConfig
  else
    let z ← z.virtualPciMmioInit config.pciConfig
    z.virtualPciDeviceInit o pt bars config.pciConfig

end

/-! ## Configuration space -/

/-- The configuration space of the machine. What its devices do on a store is up to them. -/
structure CfgSpace (σ : Type) where
  load : σ → (addr size : ℕ) → BitVec 64
  store : σ → (addr size : ℕ) → BitVec 64 → σ

def cfgCmdOff : ℕ := 0x4
def cfgClassCodeOff : ℕ := 0x8
def cfgCapPtrOff : ℕ := 0x34
def phantomDevHeader : BitVec 64 := 0x77777777

/-- `PhantomCfg::new`. -/
def PhantomCfg.new (bdf : ℕ) (command : BitVec 16) : PhantomCfg := ⟨bdf, command &&& ~~~0x400⟩

namespace PciRoot

section

variable (root : PciRoot) (bdf : ℕ)

def isAssignedDevice : Bool := root.allocDevs.contains bdf

/-- The phantom device of a number: the first in the list. -/
def phantom : Option PhantomCfg :=
  KeyedList.find PhantomCfg.bdf bdf root.phantomDevs

/-- `set_cmd` of that device. -/
def setCmd (command : BitVec 16) : PciRoot :=
  { root with
    phantomDevs := KeyedList.modify PhantomCfg.bdf bdf (fun p => { p with command := command })
      root.phantomDevs }

end

def push (root : PciRoot) (p : PhantomCfg) : PciRoot :=
  { root with phantomDevs := root.phantomDevs ++ [p] }

end PciRoot

/-- The device and the register of an access. -/
def bdfOf (mmio : Gic.MMIOAccess) : ℕ := mmio.address / 0x1000

def regOf (mmio : Gic.MMIOAccess) : ℕ := mmio.address % 0x1000

section Handler

variable {σ : Type}

/-- What an access leaves behind. -/
structure PciResult (σ : Type) where
  root : PciRoot
  phys : σ
  mmio : Gic.MMIOAccess

/-- `mmio_perform_access`. It does not return for another size (`panic!`) or an unaligned address,
where EL2 takes a fault. -/
def mmioPerformAccess (dev : CfgSpace σ) (base : ℕ) (root : PciRoot) (phys : σ)
    (mmio : Gic.MMIOAccess) : Option (PciResult σ) :=
  let addr := base + mmio.address
  if Gic.ValidSize mmio.size ∧ mmio.size ∣ addr then
    if mmio.isWrite then some ⟨root, dev.store phys addr mmio.size mmio.value, mmio⟩
    else some ⟨root, phys, { mmio with value := dev.load phys addr mmio.size }⟩
  else none

/-- Register 0 of a device that is not assigned. -/
def phantomHeader (dev : CfgSpace σ) (base : ℕ) (root : PciRoot) (phys : σ)
    (mmio : Gic.MMIOAccess) : Option (PciResult σ) :=
  let headerAddr := base + mmio.address
  if ¬4 ∣ headerAddr then none
  else if dev.load phys headerAddr 4 = 0xffffffff then
    some ⟨root, phys, { mmio with value := 0xffffffff }⟩
  else
    let command := (dev.load phys (cfgCmdOff + headerAddr) 2).setWidth 16
    some ⟨root.push (.new (bdfOf mmio) command), phys, { mmio with value := phantomDevHeader }⟩

/-- The command register of a device that is not assigned. -/
def phantomCommand (root : PciRoot) (phys : σ) (mmio : Gic.MMIOAccess) : PciResult σ :=
  match root.phantom (bdfOf mmio) with
  | some pdev =>
    if mmio.isWrite then ⟨root.setCmd (bdfOf mmio) (mmio.value.setWidth 16), phys, mmio⟩
    else ⟨root, phys, { mmio with value := pdev.command.setWidth 64 }⟩
  | none => ⟨root, phys, mmio⟩

/-- `mmio_pci_handler`. -/
def mmioPciHandler (dev : CfgSpace σ) (base : ℕ) (root : PciRoot) (phys : σ)
    (mmio : Gic.MMIOAccess) : Option (PciResult σ) :=
  if root.isAssignedDevice (bdfOf mmio) then mmioPerformAccess dev base root phys mmio
  else if regOf mmio = 0 then phantomHeader dev base root phys mmio
  else if regOf mmio = cfgCmdOff then some (phantomCommand root phys mmio)
  else if regOf mmio = cfgClassCodeOff then
    some ⟨root, phys, if mmio.isWrite then mmio else { mmio with value := 0x1f000010 }⟩
  else if regOf mmio = cfgCapPtrOff then some ⟨root, phys, { mmio with value := 0 }⟩
  else mmioPerformAccess dev base root phys mmio

/-! ## Runs -/

/-- The PCI root of a zone and the devices. `written` is what the zone last wrote to the command
register of a phantom device. -/
structure PciSystem (σ : Type) where
  root : PciRoot
  phys : σ
  written : ℕ → Option (BitVec 16)

inductive PciEvent (σ : Type)
  /-- The zone accesses the configuration space. -/
  | access (mmio : Gic.MMIOAccess)
  /-- The devices change, on their own or by other zones. -/
  | devices (phys : σ)

/-- The command that the guest stores: the low bytes of its register. -/
def guestCommand (mmio : Gic.MMIOAccess) : BitVec 16 :=
  (mmio.value.setWidth (8 * mmio.size)).setWidth 16

/-- A write to the command register of a phantom device. -/
def WritesCommand (root : PciRoot) (mmio : Gic.MMIOAccess) : Prop :=
  root.isAssignedDevice (bdfOf mmio) = false ∧ regOf mmio = cfgCmdOff ∧ mmio.isWrite = true ∧
    (root.phantom (bdfOf mmio)).isSome = true
deriving Decidable

def pciStep (dev : CfgSpace σ) (base : ℕ) (s : PciSystem σ) : PciEvent σ → Option (PciSystem σ)
  | .access mmio =>
    (mmioPciHandler dev base s.root s.phys mmio).map fun r =>
      ⟨r.root, r.phys,
        if WritesCommand s.root mmio then
          update s.written (bdfOf mmio) (some (guestCommand mmio))
        else s.written⟩
  | .devices phys => some { s with phys := phys }

/-- A single byte that is written to a command register comes from a register that holds no more. -/
def NarrowStores (_ : PciSystem σ) : PciEvent σ → Prop
  | .access mmio => mmio.isWrite = true → regOf mmio = cfgCmdOff → mmio.size < 2 →
      guestCommand mmio = mmio.value.setWidth 16
  | .devices _ => True

instance (s : PciSystem σ) (e : PciEvent σ) : Decidable (NarrowStores s e) := by
  cases e <;> unfold NarrowStores <;> infer_instance

variable {dev : CfgSpace σ} {base : ℕ} {root : PciRoot} {phys : σ} {mmio : Gic.MMIOAccess}
  {r : PciResult σ}

theorem root_mmioPerformAccess (h : mmioPerformAccess dev base root phys mmio = some r) :
    r.root = root := by
  obtain ⟨-, h⟩ := ite_none_right_eq_some.mp h
  split at h
  all_goals exact some.inj h ▸ rfl

theorem phantomHeader_eq_some (h : phantomHeader dev base root phys mmio = some r) :
    r.phys = phys ∧ (r.root = root ∨ ∃ p, r.root = root.push p) := by
  obtain ⟨-, h⟩ := ite_none_left_eq_some.mp h
  split at h
  · exact some.inj h ▸ ⟨rfl, .inl rfl⟩
  · exact some.inj h ▸ ⟨rfl, .inr ⟨_, rfl⟩⟩

/-- What the zone wrote to a phantom device is in it. -/
def CommandInv (s : PciSystem σ) : Prop :=
  ∀ bdf command, s.written bdf = some command →
    (s.root.phantom bdf).map PhantomCfg.command = some command

/-- A further phantom device does not hide one that is there. -/
theorem PciRoot.phantom_push {bdf : ℕ} {p q : PhantomCfg} (h : root.phantom bdf = some q) :
    (root.push p).phantom bdf = some q := by
  rw [phantom, KeyedList.find] at h
  rw [phantom, KeyedList.find, push, List.find?_append, h, some_or]

theorem PciRoot.phantom_setCmd {bdf bdf' : ℕ} {command : BitVec 16} :
    (root.setCmd bdf command).phantom bdf' =
      if bdf' = bdf then (root.phantom bdf').map fun p => { p with command := command }
      else root.phantom bdf' :=
  KeyedList.find_modify (f := fun p : PhantomCfg => { p with command := command })
    (fun _ => rfl) bdf'

/-- What the handler does to the PCI root. -/
theorem root_mmioPciHandler (h : mmioPciHandler dev base root phys mmio = some r) :
    (¬WritesCommand root mmio ∧ (r.root = root ∨ ∃ p, r.root = root.push p)) ∨
    (WritesCommand root mmio ∧ r.root = root.setCmd (bdfOf mmio) (mmio.value.setWidth 16)) := by
  unfold mmioPciHandler at h
  split_ifs at h with hassigned h0 h4 h8 hw h34
  · refine .inl ⟨fun hw => ?_, .inl (root_mmioPerformAccess h)⟩
    exact absurd hassigned (Bool.eq_false_iff.mp hw.1)
  · refine .inl ⟨fun hw => ?_, (phantomHeader_eq_some h).2⟩
    exact absurd (h0.symm.trans hw.2.1) (by decide)
  · cases h
    unfold phantomCommand
    split
    · next pdev hpdev =>
      split
      · next hw =>
        refine .inr ⟨⟨Bool.eq_false_iff.mpr hassigned, h4, hw, ?_⟩, rfl⟩
        rw [hpdev]
        rfl
      · next hw => exact .inl ⟨fun hwrites => hw hwrites.2.2.1, .inl rfl⟩
    · next hnone =>
      refine .inl ⟨fun hwrites => ?_, .inl rfl⟩
      have hsome := hwrites.2.2.2
      rw [hnone] at hsome
      cases hsome
  · exact .inl ⟨fun hw => h4 hw.2.1, .inl (some.inj h ▸ rfl)⟩
  · exact .inl ⟨fun hw => h4 hw.2.1, .inl (some.inj h ▸ rfl)⟩
  · exact .inl ⟨fun hw => h4 hw.2.1, .inl (some.inj h ▸ rfl)⟩
  · exact .inl ⟨fun hw => h4 hw.2.1, .inl (root_mmioPerformAccess h)⟩

/-- A store of two bytes or more covers the command register. -/
theorem guestCommand_eq (h : 2 ≤ mmio.size) : guestCommand mmio = mmio.value.setWidth 16 := by
  unfold guestCommand
  ext i hi
  simp [show i < 8 * mmio.size by omega]

theorem CommandInv.access {s s' : PciSystem σ} (hinv : CommandInv s)
    (hnarrow : NarrowStores s (.access mmio)) (h : pciStep dev base s (.access mmio) = some s') :
    CommandInv s' := by
  obtain ⟨r, hr, rfl⟩ := map_eq_some_iff.mp h
  obtain ⟨hw, hroot⟩ | ⟨hw, hroot⟩ := root_mmioPciHandler hr
  · intro bdf command hcommand
    rw [if_neg hw] at hcommand
    have hold := hinv bdf command hcommand
    obtain hroot | ⟨p, hroot⟩ := hroot
    · rw [hroot]
      exact hold
    · obtain ⟨q, hq, hqc⟩ := map_eq_some_iff.mp hold
      rw [hroot, PciRoot.phantom_push hq, map_some, hqc]
  · have hcmd : guestCommand mmio = mmio.value.setWidth 16 := by
      by_cases hsize : 2 ≤ mmio.size
      · exact guestCommand_eq hsize
      · exact hnarrow hw.2.2.1 hw.2.1 (by omega)
    intro bdf command hcommand
    simp only [if_pos hw] at hcommand
    rw [hroot, PciRoot.phantom_setCmd]
    by_cases hbdf : bdf = bdfOf mmio
    · subst hbdf
      rw [update_self, hcmd] at hcommand
      obtain ⟨p, hp⟩ := isSome_iff_exists.mp hw.2.2.2
      rw [if_pos rfl, hp, ← hcommand]
      rfl
    · rw [update_of_ne hbdf] at hcommand
      rw [if_neg hbdf]
      exact hinv bdf command hcommand

end Handler

/-! ## Devices that keep what is stored -/

/-- A store or load of a register of device 8, which is not assigned. -/
def sampleAccess (reg size : ℕ) (isWrite : Bool) (value : BitVec 64) : Gic.MMIOAccess :=
  ⟨0x8000 + reg, size, isWrite, value⟩

end HvisorRux.Zones
