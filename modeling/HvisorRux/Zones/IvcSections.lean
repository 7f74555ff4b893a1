import HvisorRux.Zones.Ivc

/-!
# Sections of shared memory

Zones run `ivc_init` one after the other, with configurations that need not fit together. What they
map are sections of the memory of the record they join: every peer sees a section at the same place,
and only one zone writes an output section.

The peer id that makes an output section a zone's own is taken from the configuration. Where another
zone uses it again the section gets a second writer, and the number of peers does not grow although
a zone joins.
-/

namespace HvisorRux.Zones

open Common Stage2 List Option OrdMap

/-! ## Runs -/

/-- The tables and the mappings that were created so far. -/
structure IvcSystem where
  tables : IvcTables
  mapped : List IvcMapping

/-- A zone that runs `ivc_init`. -/
structure IvcCall where
  zone : Zone
  configs : List HvIvcConfig
  alloc : ℕ → ℕ

def IvcSystem.empty : IvcSystem := ⟨.empty, []⟩

def IvcSystem.step (o : Overflow) (s : IvcSystem) (e : IvcCall) : Option IvcSystem :=
  (ivcInit o e.alloc e.configs ⟨s.tables, e.zone, s.mapped⟩).map fun r => ⟨r.tables, r.mapped⟩

def IvcMapping.writable (m : IvcMapping) : Bool := m.region.flags.contains MemFlags.write

/-- What the mappings are to satisfy. -/
structure IvcSystem.Separated (s : IvcSystem) : Prop where
  /-- They stay inside the memory of their record. -/
  inside : ∀ m ∈ s.mapped, ∃ rec, s.tables.records.get? m.ivcId = some rec ∧
    ∀ v, m.region.Covers v → rec.sharedMem.Contains (m.region.mapper.mapFn v)
  /-- All peers see a section at the same place. -/
  samePlace : ∀ m ∈ s.mapped, ∀ m' ∈ s.mapped, m.ivcId = m'.ivcId → m.sec = m'.sec →
    m.region.size = m'.region.size ∧ ∀ d < m.region.size,
      m.region.mapper.mapFn (m.region.start + d) = m'.region.mapper.mapFn (m'.region.start + d)
  /-- An output section is written by one zone, -/
  oneWriter : ∀ m ∈ s.mapped, ∀ m' ∈ s.mapped, m.ivcId = m'.ivcId → m.sec = m'.sec →
    m.sec.isSome = true → m.writable = true → m'.writable = true → m.zoneId = m'.zoneId
  /-- namely the one that has its number as peer id. -/
  writer : ∀ m ∈ s.mapped, ∀ i, m.sec = some i → m.writable = true →
    ∃ rec info, s.tables.records.get? m.ivcId = some rec ∧ rec.peerInfos.get? i = some info ∧
      info.zoneId = m.zoneId
  /-- Not more zones are registered than the record admits. -/
  peers : ∀ ivcId rec, s.tables.records.get? ivcId = some rec →
    ((s.mapped.filter (·.ivcId = ivcId)).map (·.zoneId)).toFinset.card ≤ rec.maxPeers.toNat

/-- No other zone has the peer id. -/
def ownPeerId (t : IvcTables) (zoneId : ℕ) (c : HvIvcConfig) : Bool :=
  (t.records.get? c.ivcId.toNat).all fun rec =>
    (rec.peerInfos.get? c.peerId.toNat).all fun info => decide (info.zoneId = zoneId)

/-- A peer is admitted, the size of the memory does not wrap around, and the peer id is free. -/
@[mk_iff]
structure GoodConfig (o : Overflow) (t : IvcTables) (zoneId : ℕ) (c : HvIvcConfig) : Prop where
  pos : 0 < c.maxPeers.toNat
  fits : o = .wraps → c.rwSecSize.toNat + c.outSecSize.toNat * c.maxPeers.toNat < 2 ^ 32
  own : ownPeerId t zoneId c = true

instance (o : Overflow) (t : IvcTables) (zoneId : ℕ) (c : HvIvcConfig) :
    Decidable (GoodConfig o t zoneId c) := decidable_of_iff' _ (goodConfig_iff ..)

/-- Every configuration that `insert_ivc_record` accepts is a good one. -/
def goodConfigs (o : Overflow) (alloc : ℕ → ℕ) (zoneId : ℕ) : IvcTables → List HvIvcConfig → Bool
  | _, [] => true
  | t, c :: cs =>
    match insertIvcRecord o alloc t c zoneId with
    | some (.ok (t', _)) => decide (GoodConfig o t zoneId c) && goodConfigs o alloc zoneId t' cs
    | _ => true

def IvcSystem.GoodCall (o : Overflow) (s : IvcSystem) (e : IvcCall) : Prop :=
  goodConfigs o e.alloc e.zone.id s.tables e.configs = true
deriving Decidable

/-! ## Where a section lies -/

/-- An offset mapper maps the region onto the physical range. -/
theorem mapFn_newWithOffsetMapper {vaddr paddr size d : ℕ} {flags : MemFlags}
    (hv : vaddr < 2 ^ 64) (hp : paddr + d < 2 ^ 64) :
    (newWithOffsetMapper vaddr paddr size flags).mapper.mapFn (vaddr + d) = paddr + d := by
  have hoff : (UInt64.ofNat vaddr - UInt64.ofNat paddr).toNat =
      (2 ^ 64 - paddr + vaddr) % 2 ^ 64 := by
    rw [UInt64.toNat_sub, UInt64.toNat_ofNat', UInt64.toNat_ofNat', Nat.mod_eq_of_lt hv,
      Nat.mod_eq_of_lt (show paddr < 2 ^ 64 by omega)]
  rw [newWithOffsetMapper, Mapper.mapFn]
  omega

namespace IvcRecord

variable {rec : IvcRecord} {m : IvcMapping} {c : HvIvcConfig} {zoneId : ℕ}

def secOffset (rec : IvcRecord) : Option ℕ → ℕ
  | none => 0
  | some i => rec.rwSecSize.toNat + i * rec.outSecSize.toNat

def secSize (rec : IvcRecord) : Option ℕ → ℕ
  | none => rec.rwSecSize.toNat
  | some _ => rec.outSecSize.toNat

/-- The record has the memory for its sections, and room for its peers. -/
structure Sound (rec : IvcRecord) : Prop where
  size : rec.sharedMem.frameCount * pageSize =
    rec.rwSecSize.toNat + rec.outSecSize.toNat * rec.maxPeers.toNat
  peers : rec.peerInfos.size ≤ rec.maxPeers.toNat

/-- A mapping of a section of the record by one of its peers. -/
structure Places (rec : IvcRecord) (m : IvcMapping) : Prop where
  index : ∀ i, m.sec = some i → i < rec.maxPeers.toNat
  size : m.region.size = rec.secSize m.sec
  place : ∀ d ≤ m.region.size, m.region.mapper.mapFn (m.region.start + d) =
    rec.sharedMem.startPaddr + rec.secOffset m.sec + d
  peer : ∃ i info, rec.peerInfos.get? i = some info ∧ info.zoneId = m.zoneId
  writer : ∀ i, m.sec = some i → m.writable = true →
    ∃ info, rec.peerInfos.get? i = some info ∧ info.zoneId = m.zoneId

/-- A section ends where the memory of the record ends, or before. -/
theorem Sound.sec_le (h : rec.Sound) (sec : Option ℕ)
    (hindex : ∀ i, sec = some i → i < rec.maxPeers.toNat) :
    rec.secOffset sec + rec.secSize sec ≤ rec.sharedMem.frameCount * pageSize := by
  rw [h.size]
  cases sec with
  | none =>
    rw [secOffset, secSize]
    omega
  | some i =>
    have hmul : (i + 1) * rec.outSecSize.toNat ≤ rec.maxPeers.toNat * rec.outSecSize.toNat :=
      Nat.mul_le_mul_right _ (hindex i rfl)
    rw [Nat.succ_mul] at hmul
    rw [secOffset, secSize, Nat.mul_comm rec.outSecSize.toNat]
    omega

theorem Places.inside (h : rec.Places m) (hsound : rec.Sound) {v : ℕ} (hv : m.region.Covers v) :
    rec.sharedMem.Contains (m.region.mapper.mapFn v) := by
  obtain ⟨hle, hlt⟩ := hv
  obtain ⟨d, rfl⟩ := Nat.exists_eq_add_of_le hle
  have hsec := hsound.sec_le _ h.index
  have hsize := h.size
  rw [h.place d (by omega)]
  unfold Frame.Contains
  omega

/-! ## A new peer -/

theorem Sound.addPeer (h : rec.Sound) (hroom : rec.peerInfos.size < rec.maxPeers.toNat) :
    (rec.addPeer c zoneId).Sound where
  size := h.size
  peers := size_insert_le.trans hroom

/-- A peer that was there is still there, as nobody takes its id. -/
theorem get?_addPeer {i : ℕ} {info : PeerInfo} (hinfo : rec.peerInfos.get? i = some info)
    (hown : ∀ info, rec.peerInfos.get? c.peerId.toNat = some info → info.zoneId = zoneId) :
    ∃ info', (rec.addPeer c zoneId).peerInfos.get? i = some info' ∧ info'.zoneId = info.zoneId := by
  rw [addPeer, get?_insert]
  split_ifs with hi
  · subst hi
    exact ⟨_, rfl, (hown info hinfo).symm⟩
  · exact ⟨info, hinfo, rfl⟩

theorem Places.addPeer (h : rec.Places m)
    (hown : ∀ info, rec.peerInfos.get? c.peerId.toNat = some info → info.zoneId = zoneId) :
    (rec.addPeer c zoneId).Places m where
  __ := h
  peer := by
    obtain ⟨i, info, hinfo, hzone⟩ := h.peer
    obtain ⟨info', hinfo', hzone'⟩ := get?_addPeer hinfo hown
    exact ⟨i, info', hinfo', hzone'.trans hzone⟩
  writer := by
    intro i hsec hwrite
    obtain ⟨info, hinfo, hzone⟩ := h.writer i hsec hwrite
    obtain ⟨info', hinfo', hzone'⟩ := get?_addPeer hinfo hown
    exact ⟨info', hinfo', hzone'.trans hzone⟩

end IvcRecord

/-! ## One configuration -/

section

variable {o : Overflow} {alloc : ℕ → ℕ} {c : HvIvcConfig} {t : IvcTables} {s s' : IvcState}
  {rec : IvcRecord} {zoneId : ℕ} {m : IvcMapping} {mapped : List IvcMapping}

theorem ownPeerId_iff : ownPeerId t zoneId c = true ↔
    ∀ rec, t.records.get? c.ivcId.toNat = some rec → ∀ info,
      rec.peerInfos.get? c.peerId.toNat = some info → info.zoneId = zoneId := by
  simp [ownPeerId, Option.all_eq_true]

/-- What the tables and mappings satisfy in every run. -/
structure SectionInv (t : IvcTables) (mapped : List IvcMapping) : Prop where
  sound : ∀ ivcId rec, t.records.get? ivcId = some rec → rec.Sound
  places : ∀ m ∈ mapped, ∃ rec, t.records.get? m.ivcId = some rec ∧ rec.Places m

theorem IvcRecord.sizes_of_ofConfig (h : IvcRecord.ofConfig o alloc c = some rec)
    (hfits : o = .wraps → c.rwSecSize.toNat + c.outSecSize.toNat * c.maxPeers.toNat < 2 ^ 32) :
    rec = ⟨c.maxPeers, c.rwSecSize, c.outSecSize, .empty, rec.sharedMem⟩ ∧
      rec.sharedMem.frameCount =
        (c.rwSecSize.toNat + c.outSecSize.toNat * c.maxPeers.toNat) / pageSize := by
  obtain ⟨out, hout, h⟩ := bind_eq_some_iff.mp h
  obtain ⟨total, htotal, h⟩ := bind_eq_some_iff.mp h
  obtain ⟨frames, hframes, h⟩ := bind_eq_some_iff.mp h
  cases h
  obtain rfl := Overflow.eq_of_fit hout fun ho => by have := hfits ho; omega
  obtain rfl := Overflow.eq_of_fit htotal hfits
  unfold Frame.newContiguous at hframes
  split at hframes
  · cases hframes
    exact ⟨rfl, rfl⟩
  · cases hframes

/-- The record joined is sound, has the sizes of the configuration and room for a peer. -/
theorem Joins.sound (h : Joins o alloc t c rec)
    (hinv : SectionInv t mapped) (hgood : GoodConfig o t zoneId c) :
    rec.Sound ∧ rec.peerInfos.size < rec.maxPeers.toNat ∧
      rec.maxPeers = c.maxPeers ∧ rec.rwSecSize = c.rwSecSize ∧ rec.outSecSize = c.outSecSize := by
  cases h with
  | existing hget hpeers hrw hout hroom =>
    have hsound := hinv.sound _ _ hget
    exact ⟨hsound, lt_of_le_of_ne hsound.peers hroom, hpeers, hrw, hout⟩
  | new hget hrw hout hrec =>
    obtain ⟨heq, hcount⟩ := IvcRecord.sizes_of_ofConfig hrec hgood.fits
    rw [heq]
    refine ⟨⟨?_, Nat.zero_le _⟩, hgood.pos, rfl, rfl, rfl⟩
    rw [hcount, Nat.div_mul_cancel]
    exact Nat.dvd_add hrw (Nat.dvd_mul_right_of_dvd hout _)

/-- The region of an output section; its physical address is exact if it fits. -/
theorem outRegion_eq_some {start i : ℕ} {r : MemoryRegion} (h : c.outRegion o start i = some r) :
    ∃ vaddr paddr, vaddr < 2 ^ 64 ∧ (start + c.rwSecSize.toNat + i * c.outSecSize.toNat < 2 ^ 64 →
        paddr = start + c.rwSecSize.toNat + i * c.outSecSize.toNat) ∧
      r = newWithOffsetMapper vaddr paddr c.outSecSize.toNat (c.outFlags i) := by
  obtain ⟨v₁, -, h⟩ := bind_eq_some_iff.mp h
  obtain ⟨vaddr, hv, h⟩ := bind_eq_some_iff.mp h
  obtain ⟨p₁, hp₁, h⟩ := bind_eq_some_iff.mp h
  obtain ⟨paddr, hp, h⟩ := bind_eq_some_iff.mp h
  refine ⟨vaddr, paddr, Overflow.lt_of_fit hv, fun hfits => ?_, (some.inj h).symm⟩
  obtain rfl := Overflow.eq_of_fit hp₁ fun _ => by omega
  exact Overflow.eq_of_fit hp fun _ => hfits

theorem contains_write_outFlags {i : ℕ}
    (h : (c.outFlags i).contains MemFlags.write = true) : i = c.peerId.toNat := by
  unfold HvIvcConfig.outFlags at h
  split at h
  · assumption
  · exact absurd h (by decide)

/-- What a configuration maps are sections of the record. -/
theorem IsSection.places {start : ℕ} (h : IsSection o c start zoneId m)
    (hsound : rec.Sound) (hstart : start = rec.sharedMem.startPaddr)
    (hpeers : rec.maxPeers = c.maxPeers) (hrw : rec.rwSecSize = c.rwSecSize)
    (hout : rec.outSecSize = c.outSecSize) : (rec.addPeer c zoneId).Places m := by
  have hfits := rec.sharedMem.fits
  have hpeer : (rec.addPeer c zoneId).peerInfos.get? c.peerId.toNat =
      some ⟨zoneId, c.interruptNum, c.sharedMemIpa⟩ := by
    rw [IvcRecord.addPeer, get?_insert, if_pos rfl]
  obtain ⟨hzone, -, ⟨hsec, hregion⟩ | ⟨i, hi, hsec, hregion⟩⟩ := h
  · have hle := hsound.sec_le none (fun i h => by cases h)
    rw [IvcRecord.secSize] at hle
    refine ⟨fun i h => ?_, ?_, ?_, ⟨_, _, hpeer, hzone.symm⟩, fun i h => ?_⟩
    · cases hsec.symm.trans h
    · rw [hregion, hsec]
      exact (congrArg UInt32.toNat hrw).symm
    · intro d hd
      rw [hregion] at hd ⊢
      have hd : d ≤ rec.rwSecSize.toNat := hrw ▸ hd
      rw [hsec, hstart]
      exact mapFn_newWithOffsetMapper c.sharedMemIpa.toNat_lt (by omega)
    · cases hsec.symm.trans h
  · have hindex : ∀ j, some i = some j → j < rec.maxPeers.toNat := by
      intro j hj
      cases hj
      exact hpeers ▸ hi
    have hle := hsound.sec_le (some i) hindex
    rw [IvcRecord.secOffset, IvcRecord.secSize] at hle
    obtain ⟨vaddr, paddr, hv, hp, hr⟩ := outRegion_eq_some hregion
    rw [hstart, ← hrw, ← hout] at hp
    obtain rfl := hp (by omega)
    refine ⟨fun j h => hindex j (hsec.symm.trans h), ?_, ?_, ⟨_, _, hpeer, hzone.symm⟩, ?_⟩
    · rw [hr, hsec]
      exact (congrArg UInt32.toNat hout).symm
    · intro d hd
      rw [hr] at hd ⊢
      have hd : d ≤ rec.outSecSize.toNat := hout ▸ hd
      refine (mapFn_newWithOffsetMapper hv (by omega)).trans ?_
      rw [hsec, Nat.add_assoc _ rec.rwSecSize.toNat]
      rfl
    · intro j hj hwrite
      obtain rfl := some.inj (hsec.symm.trans hj)
      rw [IvcMapping.writable, hr] at hwrite
      obtain rfl := contains_write_outFlags hwrite
      exact ⟨_, hpeer, hzone.symm⟩

/-- An accepted configuration keeps the invariant. -/
theorem SectionInv.accepted (hinv : SectionInv s.tables s.mapped) (h : Accepted o alloc c s s')
    (hgood : GoodConfig o s.tables s.zone.id c) : SectionInv s'.tables s'.mapped := by
  obtain ⟨rec, hjoins, htables, hmapped⟩ := h.joined
  obtain ⟨hsound, hroom, hpeers, hrw, hout⟩ := hjoins.sound hinv hgood
  rw [htables]
  constructor
  · intro ivcId rec' hget
    rw [IvcTables.setRecord, get?_insert] at hget
    split_ifs at hget
    · cases hget
      exact hsound.addPeer hroom
    · exact hinv.sound ivcId rec' hget
  · intro m hm
    simp only [IvcTables.setRecord, get?_insert]
    obtain hm | hm := hmapped m hm
    · obtain ⟨rec', hget, hplaces⟩ := hinv.places m hm
      split_ifs with hid
      · -- the record of an old mapping is the one that is joined
        obtain rfl : rec' = rec := by
          cases hjoins with
          | existing hget' => exact some.inj (hget.symm.trans (hid ▸ hget'))
          | new hnone => rw [hid, hnone] at hget; cases hget
        exact ⟨_, rfl, hplaces.addPeer (ownPeerId_iff.mp hgood.own rec' (hid ▸ hget))⟩
      · exact ⟨rec', hget, hplaces⟩
    · rw [if_pos hm.2.1]
      exact ⟨_, rfl, hm.places hsound rfl hpeers hrw hout⟩

/-- The loop keeps the invariant, whether it gets to the end or not. -/
theorem SectionInv.loop {cs : List HvIvcConfig} {r : IvcState × Bool}
    (hinv : SectionInv s.tables s.mapped) (hgood : goodConfigs o alloc s.zone.id s.tables cs = true)
    (h : ivcInitLoop o alloc cs s = some r) : SectionInv r.1.tables r.1.mapped := by
  induction cs generalizing s with
  | nil =>
    cases h
    exact hinv
  | cons c cs ih =>
    obtain ⟨-, rfl⟩ | ⟨s₁, start, hres, hacc, hrest⟩ := ivcInitLoop_cons h
    · exact hinv
    · rw [goodConfigs, hres, Bool.and_eq_true, decide_eq_true_eq] at hgood
      refine ih (hinv.accepted hacc hgood.1) ?_ hrest
      rw [hacc.id_eq]
      exact hgood.2

theorem SectionInv.writer (h : SectionInv t mapped) (hm : m ∈ mapped)
    {i : ℕ} (hsec : m.sec = some i) (hwrite : m.writable = true) :
    ∃ rec info, t.records.get? m.ivcId = some rec ∧ rec.peerInfos.get? i = some info ∧
      info.zoneId = m.zoneId := by
  obtain ⟨rec, hget, hplaces⟩ := h.places m hm
  obtain ⟨info, hinfo, hzone⟩ := hplaces.writer i hsec hwrite
  exact ⟨rec, info, hget, hinfo, hzone⟩

theorem SectionInv.separated {s : IvcSystem} (h : SectionInv s.tables s.mapped) : s.Separated where
  inside := by
    intro m hm
    obtain ⟨rec, hget, hplaces⟩ := h.places m hm
    exact ⟨rec, hget, fun v hv => hplaces.inside (h.sound _ _ hget) hv⟩
  samePlace := by
    intro m hm m' hm' hid hsec
    obtain ⟨rec, hget, hplaces⟩ := h.places m hm
    obtain ⟨rec', hget', hplaces'⟩ := h.places m' hm'
    obtain rfl := some.inj (hget.symm.trans (hid ▸ hget'))
    have hsize : m.region.size = m'.region.size := by rw [hplaces.size, hplaces'.size, hsec]
    refine ⟨hsize, fun d hd => ?_⟩
    rw [hplaces.place d hd.le, hplaces'.place d (hsize ▸ hd.le), hsec]
  oneWriter := by
    intro m hm m' hm' hid hsec hsome hwrite hwrite'
    obtain ⟨i, hi⟩ := isSome_iff_exists.mp hsome
    obtain ⟨rec, info, hget, hinfo, hzone⟩ := h.writer hm hi hwrite
    obtain ⟨rec', info', hget', hinfo', hzone'⟩ := h.writer hm' (hsec ▸ hi) hwrite'
    obtain rfl := some.inj (hget.symm.trans (hid ▸ hget'))
    obtain rfl := some.inj (hinfo.symm.trans hinfo')
    exact hzone.symm.trans hzone'
  writer := fun m hm i => h.writer hm
  peers := by
    intro ivcId rec hget
    -- every zone that maps a section is among the peers
    have hsub : ((s.mapped.filter (·.ivcId = ivcId)).map (·.zoneId)).toFinset ⊆
        (rec.peerInfos.entries.map fun p => p.2.zoneId).toFinset := by
      intro z hz
      obtain ⟨m, hm, rfl⟩ := List.mem_map.mp (List.mem_toFinset.mp hz)
      obtain ⟨hm, hid⟩ := mem_filter.mp hm
      obtain ⟨rec', hget', hplaces⟩ := h.places m hm
      obtain rfl : rec' = rec :=
        some.inj (hget'.symm.trans (of_decide_eq_true hid ▸ hget))
      obtain ⟨i, info, hinfo, hzone⟩ := hplaces.peer
      exact List.mem_toFinset.mpr (List.mem_map.mpr ⟨(i, info), get?_eq_some.mp hinfo, hzone⟩)
    calc _ ≤ (rec.peerInfos.entries.map fun p => p.2.zoneId).toFinset.card :=
          Finset.card_le_card hsub
      _ ≤ (rec.peerInfos.entries.map fun p => p.2.zoneId).length := toFinset_card_le _
      _ = rec.peerInfos.size := length_map _
      _ ≤ rec.maxPeers.toNat := (h.sound _ _ hget).peers

end

/-! ## All runs -/

/-- **Sections of shared memory are separated.** In every run in which the accepted configurations
are good ones, mappings stay inside the memory of their record, all peers see a section at the same
place, an output section is written by the zone with its peer id only, and a record has not more
zones than it admits. -/
theorem ivc_sections_separated {o : Overflow} {s : IvcSystem}
    (h : Reach (IvcSystem.step o) (IvcSystem.GoodCall o) .empty s) : s.Separated := by
  refine SectionInv.separated (h.invariant (fun s => SectionInv s.tables s.mapped) ?_ ?_)
  · refine ⟨fun ivcId rec hget => ?_, fun m hm => absurd hm not_mem_nil⟩
    exact absurd (get?_eq_some.mp hget) not_mem_empty
  · intro s e s' hinv hgood hs
    obtain ⟨r, hr, rfl⟩ := map_eq_some_iff.mp hs
    obtain ⟨p, hloop, rfl⟩ := map_eq_some_iff.mp hr
    have hinv' := SectionInv.loop (s := ⟨s.tables, e.zone, s.mapped⟩) hinv hgood hloop
    -- the entry of `IVC_INFOS` is not part of the invariant
    split_ifs
    · exact ⟨hinv'.sound, hinv'.places⟩
    · exact hinv'

/-! ## Two peers -/

/-- A record of one page for all and one for each of two peers. -/
def sampleIvc (peerId : UInt32) : HvIvcConfig where
  ivcId := 7
  peerId := peerId
  controlTableIpa := 0x10000000
  sharedMemIpa := 0x200000
  rwSecSize := 0x1000
  outSecSize := 0x1000
  interruptNum := 66
  maxPeers := 2

/-- A new zone with one configuration, whose memory would be allocated at `start`. -/
def sampleCall (zoneId start : ℕ) (c : HvIvcConfig) : IvcCall :=
  ⟨Zone.new zoneId MemorySet.sample, [c], fun _ => start⟩

/-- Two zones map three sections each. -/
theorem ivc_sections_separated_sample :
    ∃ s, Reach (IvcSystem.step .panics) (IvcSystem.GoodCall .panics) .empty s ∧
      s.mapped.length = 6 ∧ s.Separated := by
  have hrun : (run (IvcSystem.step .panics) (IvcSystem.GoodCall .panics) .empty
      [sampleCall 1 0x50000000 (sampleIvc 0), sampleCall 2 0x50000000 (sampleIvc 1)]).map
        (·.mapped.length) = some 6 := by decide +kernel
  obtain ⟨s, hreach, hlength⟩ := exists_of_run hrun
  exact ⟨s, hreach, hlength, ivc_sections_separated hreach⟩

/-- Two output sections of 2 GiB each, whose size in 32 bits is zero. -/
def sampleHugeIvc : HvIvcConfig :=
  { sampleIvc 0 with
    sharedMemIpa := 0x3fe00000
    rwSecSize := 0x200000
    outSecSize := 0x80000000 }

/-- Three zones with the same peer id all write the output section 0 of a record for two peers. And
where arithmetic wraps around, a section is mapped behind the end of the memory allocated. -/
theorem ivc_sections_not_separated : (run (IvcSystem.step .panics) anyStep .empty
      [sampleCall 1 0x50000000 (sampleIvc 0), sampleCall 2 0x50000000 (sampleIvc 0),
        sampleCall 3 0x50000000 (sampleIvc 0)]).map
        (fun s => ((s.mapped.filter fun m => m.sec = some 0 ∧ m.writable = true).map (·.zoneId),
          (s.tables.records.get? 7).map (·.maxPeers))) = some ([1, 2, 3], some 2) ∧
    (run (IvcSystem.step .wraps) anyStep .empty [sampleCall 1 0x3fe00000 sampleHugeIvc]).map
        (fun s => ((s.mapped.filter fun m => m.sec = some 0).map fun m =>
          (m.region.size, m.region.mapper.mapFn m.region.start),
          (s.tables.records.get? 7).map fun rec =>
            rec.sharedMem.startPaddr + rec.sharedMem.frameCount * pageSize)) =
      some ([(0x80000000, 0x40000000)], some 0x40000000) := by
  decide +kernel

end HvisorRux.Zones
