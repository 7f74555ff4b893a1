import HvisorRux.Zones.Ivc
import HvisorRux.Zones.Pci

/-!
# The life of a zone

`zone_create` (`zone.rs`) builds a zone from its configuration, points the per-cpu data of its cpus
to it and lists it. It does so for the root zone when hvisor starts, and later for the hypercall
`hv_zone_start` (`hypercall/mod.rs`), which then wakes the first cpu up. `hv_zone_shutdown` stops
the cpus, takes the zone from them and from the list.

A reference to a zone is a number that no earlier zone had; hypercalls are steps.
-/

namespace HvisorRux.Zones

open Common Stage2 Option

/-! ## The hypervisor -/

/-- `PerCpu` (`percpu.rs`), with `arch_cpu.power_on`. -/
structure PerCpu where
  cpuOnEntry : ℕ
  dtbIpa : ℕ
  powerOn : Bool
  zone : Option ℕ
  bootCpu : Bool
deriving DecidableEq

/-- `PerCpu::new`. -/
def PerCpu.new : PerCpu := ⟨invalidAddress, invalidAddress, false, none, false⟩

/-- A zone in `ZONE_LIST` and the reference to it. -/
structure ZoneRef where
  ptr : ℕ
  zone : Zone

def ZoneRef.id (z : ZoneRef) : ℕ := z.zone.id

/-- The state that zones are created and shut down in. There is per-cpu data for every number: the
source has it for `MAX_CPU_NUM` cpus, and what follows in memory is the frame pool. -/
structure Hv where
  zones : List ZoneRef
  cpus : ℕ → PerCpu
  ivc : IvcTables
  nextPtr : ℕ

def Hv.init : Hv := ⟨[], fun _ => .new, .empty, 0⟩

/-- `find_zone`. -/
def Hv.findZone (s : Hv) (zoneId : ℕ) : Option ZoneRef := KeyedList.find ZoneRef.id zoneId s.zones

/-- `is_this_root_zone` on a cpu; `none` is an `unwrap` of `None`. -/
def Hv.isThisRootZone (s : Hv) (cpu : ℕ) : Option Bool := do
  let thisZone ← (s.cpus cpu).zone
  let rootZone ← s.zones.head?
  some (decide (thisZone = rootZone.ptr))

/-! ## Creation -/

/-- What a creation meets: the page table that is allocated for the zone, the one that a failed
insertion of a PCI window leaves, the memory for IVC records and the regions of PCI devices. -/
structure CreateEnv where
  pt : PageTable
  failedPt : PageTable
  alloc : ℕ → ℕ
  bars : List BarRegion

def memFlagsExecute : MemFlags := BitVec.twoPow 64 2

namespace Zone

/-- One round of `pt_init`, whose error is unwrapped. -/
def ptInitRegion (z : Zone) (r : HvConfigMemoryRegion) : Option Zone :=
  let flags := MemFlags.read ||| MemFlags.write ||| memFlagsExecute
  let flags := if r.memType = memTypeIo then flags ||| MemFlags.io else flags
  if r.memType = memTypeRam ∨ r.memType = memTypeIo then
    (z.gpm.insert (newWithOffsetMapper r.virtualStart.toNat r.physicalStart.toNat r.size.toNat
      flags)).toOption.map fun gpm => { z with gpm := gpm }
  else if r.memType = memTypeVirtio then
    z.mmioRegionRegister r.physicalStart.toNat r.size.toNat .virtio r.physicalStart.toNat
  else none

/-- `pt_init`. -/
def ptInit (z : Zone) (regions : List HvConfigMemoryRegion) : Option Zone :=
  regions.foldlM ptInitRegion z

def perGicrSize : ℕ := 0x20000

/-- One round of the loop in `vgicv3_mmio_init`. -/
def registerGicr (o : Overflow) (arch : HvArchZoneConfig) (z : Zone) (cpu : ℕ) : Option Zone := do
  let gicrBase ← o.add 64 arch.gicrBase.toNat (cpu * perGicrSize)
  z.mmioRegionRegister gicrBase perGicrSize .vgicv3Redist cpu

/-- `mmio_init`, which is `vgicv3_mmio_init`. -/
def mmioInit (o : Overflow) (arch : HvArchZoneConfig) (z : Zone) : Option Zone :=
  if arch.gicdBase = 0 ∨ arch.gicrBase = 0 then none
  else do
    let z ← z.mmioRegionRegister arch.gicdBase.toNat arch.gicdSize.toNat .vgicv3Dist 0
    let z ← z.mmioRegionRegister arch.gitsBase.toNat arch.gitsSize.toNat .vgicv3Its 0
    (List.range maxCpuNum).foldlM (registerGicr o arch) z

/-- `insert_irq_to_bitmap`. -/
def insertIrqToBitmap (z : Zone) (irq : UInt32) : Option Zone :=
  if h : irq.toNat / 32 < 32 then
    let idx : Fin 32 := ⟨irq.toNat / 32, h⟩
    some { z with
      irqBitmap := Function.update z.irqBitmap idx
        (z.irqBitmap idx ||| BitVec.twoPow 32 (irq.toNat % 32)) }
  else none

/-- `irq_bitmap_init`. -/
def irqBitmapInit (z : Zone) (irqs : List UInt32) : Option Zone := irqs.foldlM insertIrqToBitmap z

/-- The new zone up to the call of `ivc_init`. -/
def newBeforeIvc (o : Overflow) (env : CreateEnv) (config : HvZoneConfig) : Option Zone := do
  let regions ← config.memoryRegions
  let z ← (Zone.new config.zoneId.toNat ⟨[], env.pt⟩).ptInit regions
  let z ← z.mmioInit o config.archConfig
  let irqs ← config.interrupts
  z.irqBitmapInit irqs

end Zone

/-- One round of the search for the device tree: its address as the zone sees it. -/
def dtbIpaRegion (o : Overflow) (dtbLoadPaddr dtbIpa : ℕ) (r : HvConfigMemoryRegion) : Option ℕ :=
  if r.physicalStart.toNat ≤ dtbLoadPaddr then do
    let stop ← o.add 64 r.physicalStart.toNat r.size.toNat
    if dtbLoadPaddr < stop then do
      let ipa ← o.add 64 r.virtualStart.toNat dtbLoadPaddr
      o.sub 64 ipa r.physicalStart.toNat
    else some dtbIpa
  else some dtbIpa

/-- The loop of `zone_create` over the memory regions. -/
def dtbIpa (o : Overflow) (config : HvZoneConfig) : Option ℕ := do
  let regions ← config.memoryRegions
  regions.foldlM (dtbIpaRegion o config.dtbLoadPaddr.toNat) invalidAddress

/-- The part of `zone_create` that builds the zone. -/
def buildZone (o : Overflow) (env : CreateEnv) (ivc : IvcTables) (config : HvZoneConfig) :
    Option (Zone × IvcTables) := do
  let z ← Zone.newBeforeIvc o env config
  let ivcConfigs ← config.ivcConfig
  let r ← ivcInit o env.alloc ivcConfigs ⟨ivc, z, []⟩
  let z ← r.zone.pciInit o env.failedPt env.bars config
  let cpuSet ← config.cpus.foldlM CpuSet.setBit z.cpuSet
  some ({ z with cpuSet := cpuSet }, r.tables)

/-- The part that points the cpus to the zone and lists it. -/
def Hv.addZone (s : Hv) (z : Zone) (ivc : IvcTables) (entry dtbIpa : ℕ) : Hv where
  zones := s.zones ++ [⟨s.nextPtr, z⟩]
  cpus c :=
    if z.cpuSet.containsCpu c = true then
      { s.cpus c with
        zone := some s.nextPtr
        bootCpu := if z.cpuSet.firstCpu = some c then true else (s.cpus c).bootCpu
        cpuOnEntry := entry
        dtbIpa := dtbIpa }
    else s.cpus c
  ivc := ivc
  nextPtr := s.nextPtr + 1

/-- `zone_create`. -/
def zoneCreate (o : Overflow) (env : CreateEnv) (s : Hv) (config : HvZoneConfig) :
    Option (Hv × Except HvErrorNum ZoneRef) :=
  match s.findZone config.zoneId.toNat with
  | some _ => some (s, .error .eexist)
  | none => do
    let (z, ivc) ← buildZone o env s.ivc config
    let ipa ← dtbIpa o config
    some (s.addZone z ivc config.entryPoint.toNat ipa, .ok ⟨s.nextPtr, z⟩)

/-! ## Hypercalls -/

/-- `size_of::<HvZoneConfig>()`. -/
def sizeOfHvZoneConfig : ℕ := 1096

/-- `hv_zone_start` on the cpu `caller`. The event that wakes the boot cpu up is not part of the
state. -/
def hvZoneStart (o : Overflow) (env : CreateEnv) (s : Hv) (caller : ℕ) (config : HvZoneConfig)
    (configSize : ℕ) : Option (Hv × Except HvErrorNum Unit) := do
  if !(← s.isThisRootZone caller) then some (s, .error .eperm)
  else if configSize ≠ sizeOfHvZoneConfig then some (s, .error .einval)
  else
    match ← zoneCreate o env s config with
    | (s', .error e) => some (s', .error e)
    | (s', .ok z) =>
      let bootCpu ← z.zone.cpuSet.firstCpu
      if (s'.cpus bootCpu).powerOn then some (s', .error .ebusy) else some (s', .ok ())

/-- The cpus are stopped and point to no zone. -/
def Hv.releaseCpus (s : Hv) (cpuSet : CpuSet) : Hv :=
  { s with
    cpus := fun c =>
      if cpuSet.containsCpu c = true then
        { s.cpus c with cpuOnEntry := invalidAddress, powerOn := false, zone := none }
      else s.cpus c }

/-- `remove_zone`; the assertion says that no cpu points to the zone. -/
def Hv.removeZone (s : Hv) (zoneId : ℕ) : Option Hv := do
  let z ← s.findZone zoneId
  if (List.range (maxCpuNum + 1)).any fun c => decide ((s.cpus c).zone = some z.ptr) then none
  else some { s with zones := KeyedList.remove ZoneRef.id zoneId s.zones }

/-- `hv_zone_shutdown` on the cpu `caller`. It waits until the zone's cpus are off, for ever if the
caller is one of them. -/
def hvZoneShutdown (s : Hv) (caller zoneId : ℕ) : Option (Hv × Except HvErrorNum Unit) := do
  if !(← s.isThisRootZone caller) then some (s, .error .eperm)
  else if zoneId = 0 then some (s, .error .einval)
  else
    match s.findZone zoneId with
    | none => some (s, .error .eexist)
    | some z =>
      if z.zone.cpuSet.containsCpu caller && (s.cpus caller).powerOn then none
      else do
        let s ← (s.releaseCpus z.zone.cpuSet).removeZone zoneId
        some (s, .ok ())

/-! ## Steps -/

inductive HvEvent
  /-- `zone_create` for the root zone. -/
  | create (config : HvZoneConfig) (env : CreateEnv)
  | zoneStart (caller : ℕ) (config : HvZoneConfig) (configSize : ℕ) (env : CreateEnv)
  | zoneShutdown (caller zoneId : ℕ)
  /-- `psci_emulate_cpu_on`. -/
  | cpuOn (target entry : ℕ)
  /-- `run` of a cpu that is woken up, which must have a zone. -/
  | cpuRun (cpu : ℕ)
  /-- `idle`. -/
  | cpuIdle (cpu : ℕ)

def Hv.updateCpu (s : Hv) (c : ℕ) (f : PerCpu → PerCpu) : Hv :=
  { s with cpus := Function.update s.cpus c (f (s.cpus c)) }

def hvStep (o : Overflow) (s : Hv) : HvEvent → Option Hv
  | .create config env => (zoneCreate o env s config).map Prod.fst
  | .zoneStart caller config configSize env =>
    (hvZoneStart o env s caller config configSize).map Prod.fst
  | .zoneShutdown caller zoneId => (hvZoneShutdown s caller zoneId).map Prod.fst
  | .cpuOn target entry =>
    some (s.updateCpu target fun cpu =>
      if cpu.powerOn then cpu else { cpu with cpuOnEntry := entry, powerOn := true })
  | .cpuRun cpu =>
    if (s.cpus cpu).zone.isSome then
      some (s.updateCpu cpu fun cpu => { cpu with powerOn := true })
    else none
  | .cpuIdle cpu => some (s.updateCpu cpu fun cpu => { cpu with powerOn := false })

/-! ## What creation does -/

/-- `z'` has the number and the cpus of `z`, and no further control table of IVC. -/
structure Zone.Extends (z z' : Zone) : Prop where
  id : z'.id = z.id
  cpuSet : z'.cpuSet = z.cpuSet
  mmio : ∀ m ∈ z'.mmio, m ∈ z.mmio ∨ m.handler ≠ .ivc

namespace Zone.Extends

variable {z z' z'' : Zone}

theorem refl : z.Extends z := ⟨rfl, rfl, fun _ hm => .inl hm⟩

theorem trans (h : z.Extends z') (h' : z'.Extends z'') : z.Extends z'' where
  id := h'.id.trans h.id
  cpuSet := h'.cpuSet.trans h.cpuSet
  mmio := by
    intro m hm
    obtain hm | hne := h'.mmio m hm
    · exact h.mmio m hm
    · exact .inr hne

/-- A loop extends the zone if its body does. -/
theorem foldlM {ι : Type} {body : Zone → ι → Option Zone} {l : List ι}
    (hbody : ∀ z i z', body z i = some z' → z.Extends z') (h : l.foldlM body z = some z') :
    z.Extends z' :=
  foldlM_invariant z.Extends refl (fun _ i _ _ hz hs => hz.trans (hbody _ i _ hs)) h

theorem mmioRegionRegister {start size arg : ℕ} {handler : MMIOHandler}
    (h : z.mmioRegionRegister start size handler arg = some z') (hne : handler ≠ .ivc) :
    z.Extends z' := by
  obtain ⟨mmio, hmmio, rfl⟩ := map_eq_some_iff.mp h
  refine ⟨rfl, rfl, fun m hm => ?_⟩
  obtain hm | ⟨hhandler, -⟩ := mem_registerMmio hmmio hm
  · exact .inl hm
  · exact .inr (hhandler ▸ hne)

theorem ptInitRegion {r : HvConfigMemoryRegion} (h : z.ptInitRegion r = some z') :
    z.Extends z' := by
  unfold Zone.ptInitRegion at h
  dsimp only at h
  split at h
  · obtain ⟨gpm, -, rfl⟩ := map_eq_some_iff.mp h
    exact ⟨rfl, rfl, fun _ hm => .inl hm⟩
  · obtain ⟨-, h⟩ := ite_none_right_eq_some.mp h
    exact mmioRegionRegister h (by decide)

variable {o : Overflow} {pt : PageTable} {pci : HvPciConfig}

theorem mmioInit {arch : HvArchZoneConfig} (h : z.mmioInit o arch = some z') : z.Extends z' := by
  obtain ⟨-, h⟩ := ite_none_left_eq_some.mp h
  obtain ⟨z₁, h₁, h⟩ := bind_eq_some_iff.mp h
  obtain ⟨z₂, h₂, h⟩ := bind_eq_some_iff.mp h
  refine (mmioRegionRegister h₁ (by decide)).trans
    ((mmioRegionRegister h₂ (by decide)).trans (foldlM ?_ h))
  intro z i z' hbody
  obtain ⟨base, -, hreg⟩ := bind_eq_some_iff.mp hbody
  exact mmioRegionRegister hreg (by decide)

theorem insertIrqToBitmap {irq : UInt32} (h : z.insertIrqToBitmap irq = some z') :
    z.Extends z' := by
  obtain ⟨hidx, h⟩ := dite_none_right_eq_some.mp h
  cases h
  exact ⟨rfl, rfl, fun _ hm => .inl hm⟩

variable {config : HvZoneConfig} {env : CreateEnv}

theorem newBeforeIvc (h : Zone.newBeforeIvc o env config = some z) :
    (Zone.new config.zoneId.toNat ⟨[], env.pt⟩).Extends z := by
  obtain ⟨regions, -, h⟩ := bind_eq_some_iff.mp h
  obtain ⟨z₁, h₁, h⟩ := bind_eq_some_iff.mp h
  obtain ⟨z₂, h₂, h⟩ := bind_eq_some_iff.mp h
  obtain ⟨irqs, -, h⟩ := bind_eq_some_iff.mp h
  exact (foldlM (fun _ _ _ => ptInitRegion) h₁).trans
    ((mmioInit h₂).trans (foldlM (fun _ _ _ => insertIrqToBitmap) h))

theorem tryInsert {r : MemoryRegion} (h : z.tryInsert pt r = some z') : z.Extends z' := by
  unfold Zone.tryInsert at h
  split at h
  case h_4 => cases h
  case h_5 => cases h
  all_goals
    cases h
    exact ⟨rfl, rfl, fun _ hm => .inl hm⟩

theorem rootPciInit (h : z.rootPciInit pt pci = some z') : z.Extends z' := by
  obtain ⟨z₁, h₁, h⟩ := bind_eq_some_iff.mp h
  obtain ⟨z₂, h₂, h⟩ := bind_eq_some_iff.mp h
  obtain ⟨z₃, h₃, h⟩ := bind_eq_some_iff.mp h
  exact (mmioRegionRegister h₁ (by decide)).trans
    ((tryInsert h₂).trans ((tryInsert h₃).trans (tryInsert h)))

theorem virtualPciMmioInit (h : z.virtualPciMmioInit pci = some z') : z.Extends z' := by
  obtain ⟨z₁, h₁, h⟩ := bind_eq_some_iff.mp h
  obtain ⟨z₂, h₂, h⟩ := bind_eq_some_iff.mp h
  obtain ⟨z₃, h₃, h⟩ := bind_eq_some_iff.mp h
  exact (mmioRegionRegister h₁ (by decide)).trans ((mmioRegionRegister h₂ (by decide)).trans
    ((mmioRegionRegister h₃ (by decide)).trans (mmioRegionRegister h (by decide))))

theorem pciBarRegister {region : BarRegion} (h : z.pciBarRegister o pt pci region = some z') :
    z.Extends z' := by
  obtain ⟨bases, -, h⟩ := bind_eq_some_iff.mp h
  obtain ⟨start, -, h⟩ := bind_eq_some_iff.mp h
  obtain ⟨start, -, h⟩ := bind_eq_some_iff.mp h
  exact tryInsert h

theorem pciInit {bars : List BarRegion}
    (h : z.pciInit o pt bars config = some z') : z.Extends z' := by
  obtain ⟨devs, -, h⟩ := bind_eq_some_iff.mp h
  have hroot : z.Extends
      { z with pciroot := { z.pciroot with allocDevs := devs.map UInt64.toNat } } :=
    ⟨rfl, rfl, fun _ hm => .inl hm⟩
  dsimp only at h
  split at h
  · exact hroot.trans (rootPciInit h)
  · obtain ⟨z₁, h₁, h⟩ := bind_eq_some_iff.mp h
    exact hroot.trans ((virtualPciMmioInit h₁).trans (foldlM (fun _ _ _ => pciBarRegister) h))

end Zone.Extends

variable {o : Overflow}

/-- `ivc_init` changes neither the number nor the cpus of a zone. -/
theorem ivcInit_zone {alloc : ℕ → ℕ} {configs : List HvIvcConfig} {s s' : IvcState}
    (h : ivcInit o alloc configs s = some s') :
    s'.zone.id = s.zone.id ∧ s'.zone.cpuSet = s.zone.cpuSet := by
  obtain ⟨r, hr, rfl⟩ := map_eq_some_iff.mp h
  obtain ⟨hid, hcpus, -⟩ := ivcInitLoop_frame hr
  split
  all_goals exact ⟨hid, hcpus⟩

/-- The zone that is built, and how `ivc_init` was run for it. -/
structure Built (o : Overflow) (env : CreateEnv) (ivc : IvcTables) (config : HvZoneConfig)
    (z : Zone) (ivc' : IvcTables) : Prop where
  id : z.id = config.zoneId.toNat
  cpus : ∀ c, z.cpuSet.containsCpu c = true ↔ c ∈ config.cpus
  ivcInit : ∃ configs z₀ r, config.ivcConfig = some configs ∧
    ivcInit o env.alloc configs ⟨ivc, z₀, []⟩ = some r ∧ ivc' = r.tables ∧ z₀.id = z.id ∧
    (∀ m ∈ z₀.mmio, m.handler ≠ .ivc) ∧ ∀ m ∈ z.mmio, m.handler = .ivc → m ∈ r.zone.mmio

theorem buildZone_built {ivc ivc' : IvcTables} {z : Zone}
    (h : buildZone o env ivc config = some (z, ivc')) :
    Built o env ivc config z ivc' := by
  obtain ⟨z₀, h₀, h⟩ := bind_eq_some_iff.mp h
  obtain ⟨configs, hconfigs, h⟩ := bind_eq_some_iff.mp h
  obtain ⟨r, hr, h⟩ := bind_eq_some_iff.mp h
  obtain ⟨z₁, h₁, h⟩ := bind_eq_some_iff.mp h
  obtain ⟨cpuSet, hset, h⟩ := bind_eq_some_iff.mp h
  cases h
  have hbefore := Zone.Extends.newBeforeIvc h₀
  obtain ⟨hid, hcpus⟩ := ivcInit_zone hr
  have hpci := Zone.Extends.pciInit h₁
  refine ⟨hpci.id.trans (hid.trans hbefore.id), fun c => ?_, configs, z₀, r, hconfigs, hr, rfl,
    (hpci.id.trans hid).symm, fun m hm => ?_, fun m hm hivc => ?_⟩
  · have hnew : z₁.cpuSet = ⟨maxCpuNum, 0⟩ := hpci.cpuSet.trans (hcpus.trans hbefore.cpuSet)
    rw [hnew] at hset
    rw [CpuSet.containsCpu_setBits hset (by decide)]
    simp [CpuSet.containsCpu]
  · obtain hm | hne := hbefore.mmio m hm
    · exact absurd hm List.not_mem_nil
    · exact hne
  · obtain hm | hne := hpci.mmio m hm
    · exact hm
    · exact absurd hivc hne

theorem zoneCreate_cases {s : Hv}
    {r : Hv × Except HvErrorNum ZoneRef} (h : zoneCreate o env s config = some r) :
    (s.findZone config.zoneId.toNat ≠ none ∧ r = (s, .error .eexist)) ∨
    (s.findZone config.zoneId.toNat = none ∧ ∃ z ivc ipa, Built o env s.ivc config z ivc ∧
      r = (s.addZone z ivc config.entryPoint.toNat ipa, .ok ⟨s.nextPtr, z⟩)) := by
  unfold zoneCreate at h
  split at h
  · next z hfind => exact .inl ⟨by rw [hfind]; simp, (some.inj h).symm⟩
  · next hfind =>
    obtain ⟨⟨z, ivc⟩, hbuild, h⟩ := bind_eq_some_iff.mp h
    obtain ⟨ipa, -, h⟩ := bind_eq_some_iff.mp h
    exact .inr ⟨hfind, z, ivc, ipa, buildZone_built hbuild, (some.inj h).symm⟩

end HvisorRux.Zones
