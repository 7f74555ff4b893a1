import HvisorRux.Common.Iterate
import HvisorRux.Common.OrdMap
import HvisorRux.Zones.Defs

/-!
# Inter-zone communication

Zones that name the same `ivc_id` in their configuration share a piece of memory (`ivc.rs`): a
section that all peers write, and one output section for every peer, which that peer writes and the
others read. The first zone creates the record with the memory; later ones must agree on its sizes.
A control table at an address of the zone's choice tells the guest about the record, and lets it
raise an interrupt at a peer. The tables outlive the zones.
-/

namespace HvisorRux.Zones

open Common Stage2 Option

/-! ## The tables -/

/-- `Frame` (`memory/frame.rs`): a run of physical frames. -/
structure Frame where
  startPaddr : ℕ
  frameCount : ℕ
  aligned : pageSize ∣ startPaddr
  fits : startPaddr + frameCount * pageSize ≤ 2 ^ 48
deriving DecidableEq

/-- `Frame::new_contiguous`. The allocator's answer is up to the environment; `none` is its failure,
which no caller here survives. -/
def Frame.newContiguous (answer frameCount : ℕ) : Option Frame :=
  if h : pageSize ∣ answer ∧ answer + frameCount * pageSize ≤ 2 ^ 48 then
    some ⟨answer, frameCount, h.1, h.2⟩
  else none

def Frame.Contains (f : Frame) (paddr : ℕ) : Prop :=
  f.startPaddr ≤ paddr ∧ paddr < f.startPaddr + f.frameCount * pageSize

/-- `PeerInfo`; a zone id comes from a `u32`, so that the casts between the two widths keep it. -/
structure PeerInfo where
  zoneId : ℕ
  irqNum : UInt32
  sharedMemIpa : UInt64
deriving DecidableEq

/-- `IvcRecord`. -/
structure IvcRecord where
  maxPeers : UInt32
  rwSecSize : UInt32
  outSecSize : UInt32
  peerInfos : OrdMap ℕ PeerInfo
  sharedMem : Frame
deriving DecidableEq

/-- One column of the arrays of an `IvcInfo`. -/
structure IvcInfoEntry where
  ctIpa : UInt64
  shmemIpa : UInt64
  ivcId : UInt32
  irq : UInt32
deriving DecidableEq

/-- `IVC_RECORDS` and `IVC_INFOS`. -/
structure IvcTables where
  records : OrdMap ℕ IvcRecord
  infos : OrdMap ℕ (List IvcInfoEntry)
deriving DecidableEq

def IvcTables.empty : IvcTables := ⟨.empty, .empty⟩

/-! ## Registration -/

/-- `IvcRecord::from`: the size of the shared memory is computed in 32 bits. `alloc` is what the
allocator answers for the record. -/
def IvcRecord.ofConfig (o : Overflow) (alloc : ℕ → ℕ) (c : HvIvcConfig) : Option IvcRecord := do
  let out ← o.mul 32 c.outSecSize.toNat c.maxPeers.toNat
  let total ← o.add 32 c.rwSecSize.toNat out
  let frames ← Frame.newContiguous (alloc c.ivcId.toNat) (total / pageSize)
  some ⟨c.maxPeers, c.rwSecSize, c.outSecSize, .empty, frames⟩

/-- `rec.peer_infos.insert(..)`, which replaces the peer if its id is taken. -/
def IvcRecord.addPeer (rec : IvcRecord) (c : HvIvcConfig) (zoneId : ℕ) : IvcRecord :=
  { rec with
    peerInfos := rec.peerInfos.insert c.peerId.toNat ⟨zoneId, c.interruptNum, c.sharedMemIpa⟩ }

def IvcTables.setRecord (t : IvcTables) (ivcId : ℕ) (rec : IvcRecord) : IvcTables :=
  { t with records := t.records.insert ivcId rec }

/-- `insert_ivc_record`: the new tables and where the shared memory starts, or a refusal. -/
def insertIvcRecord (o : Overflow) (alloc : ℕ → ℕ) (t : IvcTables) (c : HvIvcConfig)
    (zoneId : ℕ) : Option (Except Unit (IvcTables × ℕ)) :=
  match t.records.get? c.ivcId.toNat with
  | some rec =>
    if rec.maxPeers ≠ c.maxPeers ∨ rec.rwSecSize ≠ c.rwSecSize ∨ rec.outSecSize ≠ c.outSecSize then
      some (.error ())
    else if rec.peerInfos.size = rec.maxPeers.toNat then some (.error ())
    else some (.ok (t.setRecord c.ivcId.toNat (rec.addPeer c zoneId), rec.sharedMem.startPaddr))
  | none =>
    if c.rwSecSize.toNat % pageSize ≠ 0 ∨ c.outSecSize.toNat % pageSize ≠ 0 then
      some (.error ())
    else
      (IvcRecord.ofConfig o alloc c).map fun rec =>
        .ok (t.setRecord c.ivcId.toNat (rec.addPeer c zoneId), rec.sharedMem.startPaddr)

/-- A stage-2 mapping of a section: the shared one (`none`) or the output of a peer. -/
structure IvcMapping where
  zoneId : ℕ
  ivcId : ℕ
  sec : Option ℕ
  region : MemoryRegion
deriving DecidableEq

/-- What `ivc_init` works on, with a record of the mappings it creates. -/
structure IvcState where
  tables : IvcTables
  zone : Zone
  mapped : List IvcMapping

/-- `self.gpm.insert(..).unwrap()` for a section. -/
def IvcState.mapSection (s : IvcState) (ivcId : ℕ) (sec : Option ℕ) (r : MemoryRegion) :
    Option IvcState :=
  (s.zone.gpm.insert r).toOption.map fun gpm =>
    { s with
      zone := { s.zone with gpm := gpm }
      mapped := s.mapped ++ [⟨s.zone.id, ivcId, sec, r⟩] }

namespace HvIvcConfig

/-- The shared section. -/
def rwRegion (c : HvIvcConfig) (startPaddr : ℕ) : MemoryRegion :=
  newWithOffsetMapper c.sharedMemIpa.toNat startPaddr c.rwSecSize.toNat
    (MemFlags.read ||| MemFlags.write)

def outFlags (c : HvIvcConfig) (i : ℕ) : MemFlags :=
  if i = c.peerId.toNat then MemFlags.read ||| MemFlags.write else MemFlags.read

/-- The output section of peer `i`; the products of two 32-bit numbers fit. -/
def outRegion (o : Overflow) (c : HvIvcConfig) (startPaddr i : ℕ) : Option MemoryRegion := do
  let vaddr ← o.add 64 c.sharedMemIpa.toNat c.rwSecSize.toNat
  let vaddr ← o.add 64 vaddr (i * c.outSecSize.toNat)
  let paddr ← o.add 64 startPaddr c.rwSecSize.toNat
  let paddr ← o.add 64 paddr (i * c.outSecSize.toNat)
  some (newWithOffsetMapper vaddr paddr c.outSecSize.toNat (c.outFlags i))

def infoEntry (c : HvIvcConfig) : IvcInfoEntry :=
  ⟨c.controlTableIpa, c.sharedMemIpa, c.ivcId, c.interruptNum⟩

end HvIvcConfig

/-- The insertions of one configuration. -/
def IvcState.mapSections (o : Overflow) (c : HvIvcConfig) (startPaddr : ℕ) (s : IvcState) :
    Option IvcState := do
  let s ← s.mapSection c.ivcId.toNat none (c.rwRegion startPaddr)
  (List.range c.maxPeers.toNat).foldlM
    (fun s i => do
      let r ← c.outRegion o startPaddr i
      s.mapSection c.ivcId.toNat (some i) r) s

/-- `mmio_region_register(control_table_ipa, ..)`. -/
def IvcState.registerTable (s : IvcState) (c : HvIvcConfig) : Option IvcState :=
  (s.zone.mmioRegionRegister c.controlTableIpa.toNat pageSize .ivc c.controlTableIpa.toNat).map
    fun z => { s with zone := z }

/-- The loop of `ivc_init`, which ends at the first configuration that is refused; the second
component tells whether it got to the end. -/
def ivcInitLoop (o : Overflow) (alloc : ℕ → ℕ) : List HvIvcConfig → IvcState →
    Option (IvcState × Bool)
  | [], s => some (s, true)
  | c :: cs, s => do
    match ← insertIvcRecord o alloc s.tables c s.zone.id with
    | .error () => some (s, false)
    | .ok (tables, startPaddr) =>
      let s ← IvcState.mapSections o c startPaddr { s with tables := tables }
      let s ← s.registerTable c
      ivcInitLoop o alloc cs s

/-- `IVC_INFOS.lock().insert(..)`. -/
def IvcState.setInfo (s : IvcState) (configs : List HvIvcConfig) : IvcState :=
  { s with
    tables :=
      { s.tables with infos := s.tables.infos.insert s.zone.id (configs.map (·.infoEntry)) } }

/-- `ivc_init`. -/
def ivcInit (o : Overflow) (alloc : ℕ → ℕ) (configs : List HvIvcConfig) (s : IvcState) :
    Option IvcState :=
  (ivcInitLoop o alloc configs s).map fun r => if r.2 then r.1.setInfo configs else r.1

/-! ## The control table -/

/-- `HvErrorNum`, as far as the calls here return it. -/
inductive HvErrorNum
  | eperm
  | efault
  | ebusy
  | eexist
  | einval
deriving DecidableEq

def ctIvcId : ℕ := 0x00
def ctMaxPeers : ℕ := 0x04
def ctRwSecSize : ℕ := 0x08
def ctOutSecSize : ℕ := 0x0c
def ctPeerId : ℕ := 0x10
def ctIpiInvoke : ℕ := 0x14

/-- What an access to a control table comes to: a value for the guest, or an interrupt that is made
pending at the distributor. -/
inductive IvcAnswer
  | value (v : ℕ)
  | raise (irq : UInt32)
deriving DecidableEq

/-- `mmio_ivc_handler` for an access of the zone `zoneId`; `base` is the address that the table was
registered with. `none` is an `unwrap` of `None`. -/
def mmioIvcHandler (t : IvcTables) (zoneId : ℕ) (mmio : Gic.MMIOAccess) (base : ℕ) :
    Option (Except HvErrorNum IvcAnswer) := do
  let ivcInfo ← t.infos.get? zoneId
  let entry ← ivcInfo.find? (·.ctIpa.toNat = base)
  let rec ← t.records.get? entry.ivcId.toNat
  if mmio.address = ctIvcId then some (.ok (.value entry.ivcId.toNat))
  else if mmio.address = ctMaxPeers then some (.ok (.value rec.maxPeers.toNat))
  else if mmio.address = ctRwSecSize then some (.ok (.value rec.rwSecSize.toNat))
  else if mmio.address = ctOutSecSize then some (.ok (.value rec.outSecSize.toNat))
  else if mmio.address = ctPeerId then
    (rec.peerInfos.entries.find? (·.2.zoneId = zoneId)).map fun p => .ok (.value p.1)
  else if mmio.address = ctIpiInvoke ∧ mmio.isWrite = true then
    match rec.peerInfos.get? (mmio.value.toNat % 2 ^ 32) with
    | some info => some (.ok (.raise info.irqNum))
    | none => some (.error .einval)
  else some (.error .efault)

/-! ## What the calls do -/

section

variable {o : Overflow} {alloc : ℕ → ℕ} {c : HvIvcConfig} {t t' : IvcTables} {s s' : IvcState}
  {zoneId startPaddr : ℕ}

/-- The record that an accepted configuration joins: an existing one with the same sizes that is not
full, or a new one. -/
inductive Joins (o : Overflow) (alloc : ℕ → ℕ) (t : IvcTables) (c : HvIvcConfig) :
    IvcRecord → Prop
  | existing {rec : IvcRecord} (hget : t.records.get? c.ivcId.toNat = some rec)
      (hpeers : rec.maxPeers = c.maxPeers) (hrw : rec.rwSecSize = c.rwSecSize)
      (hout : rec.outSecSize = c.outSecSize) (hroom : rec.peerInfos.size ≠ rec.maxPeers.toNat) :
      Joins o alloc t c rec
  | new {rec : IvcRecord} (hget : t.records.get? c.ivcId.toNat = none)
      (hrw : pageSize ∣ c.rwSecSize.toNat) (hout : pageSize ∣ c.outSecSize.toNat)
      (hrec : IvcRecord.ofConfig o alloc c = some rec) : Joins o alloc t c rec

theorem insertIvcRecord_ok (h : insertIvcRecord o alloc t c zoneId = some (.ok (t', startPaddr))) :
    ∃ rec, Joins o alloc t c rec ∧ startPaddr = rec.sharedMem.startPaddr ∧
      t' = t.setRecord c.ivcId.toNat (rec.addPeer c zoneId) := by
  unfold insertIvcRecord at h
  split at h
  · next rec hget =>
    split_ifs at h with hconf hfull
    · cases h
    · cases h
    · rw [some.injEq, Except.ok.injEq, Prod.mk.injEq] at h
      simp only [not_or, not_not] at hconf
      exact ⟨rec, .existing hget hconf.1 hconf.2.1 hconf.2.2 hfull, h.2.symm, h.1.symm⟩
  · next hget =>
    split_ifs at h with halign
    · cases h
    simp only [not_or, not_not] at halign
    obtain ⟨rec, hrec, heq⟩ := map_eq_some_iff.mp h
    rw [Except.ok.injEq, Prod.mk.injEq] at heq
    exact ⟨rec, .new hget (Nat.dvd_of_mod_eq_zero halign.1) (Nat.dvd_of_mod_eq_zero halign.2) hrec,
      heq.2.symm, heq.1.symm⟩

/-- A mapping that `ivc_init` creates for a configuration of the zone. -/
def IsSection (o : Overflow) (c : HvIvcConfig) (startPaddr zoneId : ℕ) (m : IvcMapping) : Prop :=
  m.zoneId = zoneId ∧ m.ivcId = c.ivcId.toNat ∧ ((m.sec = none ∧ m.region = c.rwRegion startPaddr) ∨
      ∃ i < c.maxPeers.toNat, m.sec = some i ∧ c.outRegion o startPaddr i = some m.region)

/-- `s'` differs from `s` only in the zone's memory and in new mappings that satisfy `P`. -/
structure IvcState.Mapped (P : IvcMapping → Prop) (s s' : IvcState) : Prop where
  tables : s'.tables = s.tables
  zone : s'.zone = { s.zone with gpm := s'.zone.gpm }
  mapped : ∀ m ∈ s'.mapped, m ∈ s.mapped ∨ P m

variable {P : IvcMapping → Prop} {cs : List HvIvcConfig} {r : IvcState × Bool}

theorem IvcState.Mapped.trans {s₁ s₂ s₃ : IvcState} (h₁ : s₁.Mapped P s₂) (h₂ : s₂.Mapped P s₃) :
    s₁.Mapped P s₃ where
  tables := h₂.tables.trans h₁.tables
  zone := by rw [h₂.zone, h₁.zone]
  mapped := by
    intro m hm
    obtain hm | hm := h₂.mapped m hm
    · exact h₁.mapped m hm
    · exact .inr hm

theorem IvcState.mapSection_mapped {ivcId : ℕ} {sec : Option ℕ} {r : MemoryRegion}
    (h : s.mapSection ivcId sec r = some s') (hP : P ⟨s.zone.id, ivcId, sec, r⟩) :
    s.Mapped P s' := by
  obtain ⟨gpm, -, rfl⟩ := map_eq_some_iff.mp h
  refine ⟨rfl, rfl, fun m hm => ?_⟩
  obtain hm | hm := List.mem_append.mp hm
  · exact .inl hm
  · obtain rfl := List.mem_singleton.mp hm
    exact .inr hP

theorem IvcState.Mapped.zoneId_eq (h : s.Mapped P s') : s'.zone.id = s.zone.id := by
  rw [h.zone]

/-- The insertions of a configuration create its sections. -/
theorem IvcState.mapSections_mapped (h : s.mapSections o c startPaddr = some s') :
    s.Mapped (IsSection o c startPaddr s.zone.id) s' := by
  obtain ⟨s₁, hrw, hloop⟩ := bind_eq_some_iff.mp h
  have h₁ : s.Mapped (IsSection o c startPaddr s.zone.id) s₁ :=
    mapSection_mapped hrw ⟨rfl, rfl, .inl ⟨rfl, rfl⟩⟩
  refine foldlM_invariant (s.Mapped (IsSection o c startPaddr s.zone.id)) h₁ ?_ hloop
  intro s₂ i s₃ hi h₂ hbody
  obtain ⟨r, hr, hmap⟩ := bind_eq_some_iff.mp hbody
  refine h₂.trans (mapSection_mapped hmap ⟨h₂.zoneId_eq, rfl, .inr ⟨i, ?_, rfl, hr⟩⟩)
  exact List.mem_range.mp hi

/-- What one configuration that is accepted does to the state. -/
structure Accepted (o : Overflow) (alloc : ℕ → ℕ) (c : HvIvcConfig) (s s' : IvcState) : Prop where
  /-- The zone joins a record and its sections are mapped there. -/
  joined : ∃ rec, Joins o alloc s.tables c rec ∧
    s'.tables = s.tables.setRecord c.ivcId.toNat (rec.addPeer c s.zone.id) ∧
    ∀ m ∈ s'.mapped, m ∈ s.mapped ∨ IsSection o c rec.sharedMem.startPaddr s.zone.id m
  /-- Besides, only the zone's memory changes and its control table is registered. -/
  zone : ∃ mmio, registerMmio s.zone.mmio c.controlTableIpa.toNat pageSize .ivc
      c.controlTableIpa.toNat = some mmio ∧
    s'.zone = { s.zone with gpm := s'.zone.gpm, mmio := mmio }

section

variable (h : Accepted o alloc c s s')

include h

theorem Accepted.id_eq : s'.zone.id = s.zone.id := by
  obtain ⟨mmio, -, hzone⟩ := h.zone
  rw [hzone]

theorem Accepted.cpuSet_eq : s'.zone.cpuSet = s.zone.cpuSet := by
  obtain ⟨mmio, -, hzone⟩ := h.zone
  rw [hzone]

theorem Accepted.infos_eq : s'.tables.infos = s.tables.infos := by
  obtain ⟨rec, -, htables, -⟩ := h.joined
  rw [htables, IvcTables.setRecord]

end

/-- How the loop goes on after a configuration. -/
theorem ivcInitLoop_cons (h : ivcInitLoop o alloc (c :: cs) s = some r) :
    (insertIvcRecord o alloc s.tables c s.zone.id = some (.error ()) ∧ r = (s, false)) ∨
    ∃ s₁ start, insertIvcRecord o alloc s.tables c s.zone.id = some (.ok (s₁.tables, start)) ∧
      Accepted o alloc c s s₁ ∧ ivcInitLoop o alloc cs s₁ = some r := by
  obtain ⟨res, hres, h⟩ := bind_eq_some_iff.mp h
  cases res with
  | error e => exact .inl ⟨hres, (some.inj h).symm⟩
  | ok p =>
    obtain ⟨t, start⟩ := p
    obtain ⟨s₁, hmap, h⟩ := bind_eq_some_iff.mp h
    obtain ⟨s₂, hreg, h⟩ := bind_eq_some_iff.mp h
    obtain ⟨rec, hjoins, rfl, rfl⟩ := insertIvcRecord_ok hres
    have hmapped := IvcState.mapSections_mapped hmap
    obtain ⟨z, hz, rfl⟩ := map_eq_some_iff.mp hreg
    obtain ⟨mmio, hmmio, rfl⟩ := map_eq_some_iff.mp hz
    refine .inr ⟨{ s₁ with zone := { s₁.zone with mmio := mmio } }, rec.sharedMem.startPaddr, ?_,
      ⟨⟨rec, hjoins, hmapped.tables, hmapped.mapped⟩, mmio, ?_, ?_⟩, h⟩
    · rw [hres, hmapped.tables]
    · rw [hmapped.zone] at hmmio
      exact hmmio
    · rw [hmapped.zone]

/-- The loop changes neither the number and the cpus of the zone nor `IVC_INFOS`. -/
theorem ivcInitLoop_frame (hloop : ivcInitLoop o alloc cs s = some r) :
    r.1.zone.id = s.zone.id ∧ r.1.zone.cpuSet = s.zone.cpuSet ∧
      r.1.tables.infos = s.tables.infos := by
  induction cs generalizing s with
  | nil => exact some.inj hloop ▸ ⟨rfl, rfl, rfl⟩
  | cons c cs ih =>
    obtain ⟨-, rfl⟩ | ⟨s₁, start, -, hacc, hrest⟩ := ivcInitLoop_cons hloop
    · exact ⟨rfl, rfl, rfl⟩
    · obtain ⟨hid, hcpus, hinfos⟩ := ih hrest
      exact ⟨hid.trans hacc.id_eq, hcpus.trans hacc.cpuSet_eq, hinfos.trans hacc.infos_eq⟩

end

end HvisorRux.Zones
