import HvisorRux.Tool.Virtqueue
import HvisorRux.Tool.Gpu.Mapping

/-!
# Guest memory isolation

Every scatter-gather piece the daemon builds for a guest comes from an address and a length the
guest chose. `InsideZone` says what isolation asks of such a piece: it covers the image of a block
that lies in one RAM region of the guest's own zone. Nothing on the way enforces it. The lookup
tests only the first byte, and when it fails its result `-1` selects the row in front of the zone's
rows. The pieces are inside the zone exactly for the blocks `Admissible` describes.
-/

namespace HvisorRux.Tool

open List

/-- The block of `len` guest bytes at `addr` lies in the region, without wrap-around. -/
def RamRegion.fits (r : RamRegion) (addr len : UInt64) : Prop :=
  r.zonexIpa.toNat ≤ addr.toNat ∧ addr.toNat + len.toNat ≤ r.zonexIpa.toNat + r.memSize.toNat
deriving Decidable

/-- The distance from a guest address of the region to its host address. -/
def RamRegion.shift (r : RamRegion) : UInt64 := r.virtAddr - r.zonexIpa

/-- The piece `iov` is the image of the block of `len` bytes at `addr`, which lies in one RAM region
of the zone. -/
def InsideZone (zm : ZoneMem) (zoneId : Fin maxZones) (addr len : UInt64) (iov : Iovec) : Prop :=
  ∃ j, (zm.entry zoneId j).fits addr len ∧ iov.base = (zm.entry zoneId j).shift + addr ∧
    iov.len = len
deriving Decidable

/-- The row of the table that decides where `addr` is looked up: the first row of the zone whose
test accepts it, or the row in front of the zone when none does. -/
def Decides (zm : ZoneMem) (zoneId : Fin maxZones) (addr : UInt64) (r : RamRegion) : Prop :=
  (∃ i, r = zm.entry zoneId i ∧ (zm.entry zoneId i).covers addr ∧
      ∀ i' < i, ¬ (zm.entry zoneId i').covers addr) ∨
    ((∀ i, ¬ (zm.entry zoneId i).covers addr) ∧ r = zm.rowBefore zoneId)

/-- The block lies in a RAM region of the zone, and the row that decides its lookup maps it as that
region does. -/
def Admissible (zm : ZoneMem) (zoneId : Fin maxZones) (addr len : UInt64) : Prop :=
  ∃ j r, (zm.entry zoneId j).fits addr len ∧ Decides zm zoneId addr r ∧
    r.shift = (zm.entry zoneId j).shift

/-! ## The lookup -/

section Lookup

variable {zm : ZoneMem} {zoneId : Fin maxZones} {addr len : UInt64}

theorem getZoneRamIndex_eq_some {i : Fin maxRams} :
    getZoneRamIndex zm addr zoneId = some i ↔
      (zm.entry zoneId i).covers addr ∧ ∀ i' < i, ¬ (zm.entry zoneId i').covers addr := by
  rw [getZoneRamIndex, find?_eq_some_iff_getElem]
  refine and_congr_right fun _ => ⟨?_, ?_⟩
  · rintro ⟨k, hk, rfl, hfirst⟩ i' hi'
    have hlt : i'.val < k := by simpa [Fin.lt_def] using hi'
    simpa using hfirst i'.val hlt
  · intro h
    refine ⟨i.val, by simp, by simp, fun k hk => ?_⟩
    simpa using h ⟨k, hk.trans i.isLt⟩ hk

theorem getZoneRamIndex_eq_none :
    getZoneRamIndex zm addr zoneId = none ↔ ∀ i, ¬ (zm.entry zoneId i).covers addr := by
  simp [getZoneRamIndex, find?_eq_none]

/-- The row `get_virt_addr` uses is the one that decides the lookup. -/
theorem decides_iff {r : RamRegion} :
    Decides zm zoneId addr r ↔ r = zm.row zoneId (getZoneRamIndex zm addr zoneId) := by
  cases h : getZoneRamIndex zm addr zoneId with
  | none =>
    have hnone := getZoneRamIndex_eq_none.mp h
    refine ⟨?_, fun hr => .inr ⟨hnone, hr⟩⟩
    rintro (⟨i, -, hi, -⟩ | ⟨-, hr⟩)
    · exact absurd hi (hnone i)
    · exact hr
  | some i =>
    refine ⟨?_, fun hr => .inl ⟨i, hr, getZoneRamIndex_eq_some.mp h⟩⟩
    rintro (⟨i', rfl, hi'⟩ | ⟨hnone, -⟩)
    · obtain rfl : i = i' := Option.some.inj (h.symm.trans (getZoneRamIndex_eq_some.mpr hi'))
      rfl
    · exact absurd (getZoneRamIndex_eq_some.mp h).1 (hnone i)

/-- The piece built for a block stays in the zone exactly when the block is admissible. -/
theorem insideZone_iff :
    InsideZone zm zoneId addr len ⟨getVirtAddr zm addr zoneId, len⟩ ↔
      Admissible zm zoneId addr len := by
  have hbase : getVirtAddr zm addr zoneId =
      (zm.row zoneId (getZoneRamIndex zm addr zoneId)).shift + addr := rfl
  constructor
  · rintro ⟨j, hfits, hj, -⟩
    exact ⟨j, _, hfits, decides_iff.mpr rfl, (UInt64.add_left_inj addr).mp (hbase ▸ hj)⟩
  · rintro ⟨j, r, hfits, hr, hshift⟩
    refine ⟨j, hfits, ?_, rfl⟩
    rw [hbase, ← decides_iff.mp hr, hshift]

/-- The rows of a zone as the daemon's configuration sets them up: no region wraps around the
guest's address space and no two regions overlap. -/
structure ZoneMem.WellFormed (zm : ZoneMem) (zoneId : Fin maxZones) : Prop where
  no_wrap : ∀ j, (zm.entry zoneId j).zonexIpa.toNat + (zm.entry zoneId j).memSize.toNat < 2 ^ 64
  disjoint : ∀ i j, i ≠ j → (zm.entry zoneId i).zonexIpa.toNat + (zm.entry zoneId i).memSize.toNat ≤
        (zm.entry zoneId j).zonexIpa.toNat ∨
      (zm.entry zoneId j).zonexIpa.toNat + (zm.entry zoneId j).memSize.toNat ≤
        (zm.entry zoneId i).zonexIpa.toNat

/-- Without wrap-around the row test is the membership test of the region. -/
theorem RamRegion.covers_iff {r : RamRegion} (h : r.zonexIpa.toNat + r.memSize.toNat < 2 ^ 64) :
    r.covers addr ↔
      r.zonexIpa.toNat ≤ addr.toNat ∧ addr.toNat < r.zonexIpa.toNat + r.memSize.toNat := by
  have hadd : (r.zonexIpa + r.memSize).toNat = r.zonexIpa.toNat + r.memSize.toNat := by
    rw [UInt64.toNat_add, Nat.mod_eq_of_lt h]
  have hzero : r.memSize = 0 ↔ r.memSize.toNat = 0 := by rw [← UInt64.toNat_inj]; rfl
  simp only [covers, Bool.and_eq_true, bne_iff_ne, ne_eq, decide_eq_true_eq, UInt64.le_iff_toNat_le,
    UInt64.lt_iff_toNat_lt, hadd, hzero]
  omega

/-- For a well-formed table a non-empty block is admissible iff it lies in a region of the zone. -/
theorem admissible_iff_of_wellFormed (hwf : zm.WellFormed zoneId) (hlen : 0 < len.toNat) :
    Admissible zm zoneId addr len ↔ ∃ j, (zm.entry zoneId j).fits addr len := by
  constructor
  · rintro ⟨j, _, hfits, _⟩
    exact ⟨j, hfits⟩
  · rintro ⟨j, hfits⟩
    refine ⟨j, _, hfits, .inl ⟨j, rfl, ?_, ?_⟩, rfl⟩
    · rw [RamRegion.covers_iff (hwf.no_wrap j)]
      exact ⟨hfits.1, by have := hfits.2; omega⟩
    · intro i hi hcov
      -- two regions with a common address would overlap
      rw [RamRegion.covers_iff (hwf.no_wrap i)] at hcov
      have hdisj := hwf.disjoint i j (Fin.ne_of_lt hi)
      have hlo := hfits.1
      have hhi := hfits.2
      omega

end Lookup

/-! ## The three places that build pieces -/

/-- **Guest memory isolation**, for every table, zone and guest. Each piece recorded for a
descriptor, direct or indirect, and each piece of a resource's backing stays inside one RAM region
of the guest's own zone iff its block is admissible. -/
theorem guest_memory_isolation_iff (zm : ZoneMem) (mem : HostMem) :
    (∀ (vq : VirtQueue) (copyFlags : Bool) (fuel : ℕ),
      ∀ r ∈ (processDescriptorChain zm mem vq copyFlags fuel).recorded,
        (InsideZone zm vq.zoneId r.desc.addr r.desc.len.toUInt64 r.iov ↔
          Admissible zm vq.zoneId r.desc.addr r.desc.len.toUInt64)) ∧
    ∀ (zoneId : Fin maxZones) (respIov : List Iovec) (nrEntries : UInt32) (offset : ℕ)
      (reallocOk : ℕ → Bool) (iov : List Iovec),
      virtioGpuCreateMappingIov zm zoneId mem respIov nrEntries offset reallocOk = some (some iov) →
        iov.length = nrEntries.toNat ∧
          ∀ v ∈ (memEntries mem respIov offset nrEntries.toNat).zip iov,
            (InsideZone zm zoneId v.1.addr v.1.length.toUInt64 v.2 ↔
              Admissible zm zoneId v.1.addr v.1.length.toUInt64) := by
  constructor
  · intro vq copyFlags fuel r hr
    rw [processDescriptorChain_recorded zm mem vq copyFlags fuel r hr]
    exact insideZone_iff
  · intro zoneId respIov nrEntries offset reallocOk iov h
    obtain ⟨-, hiov⟩ := Option.ite_none_left_eq_some.mp (virtioGpuCreateMappingIov_eq h).symm
    cases hiov
    refine ⟨by simp [memEntries], fun v hv => ?_⟩
    obtain ⟨k, -, rfl⟩ := getElem_of_mem hv
    rw [getElem_zip, getElem_map]
    exact insideZone_iff

/-! ## A guest that reaches beyond its RAM -/

/-- A table with one RAM region, of 4 KiB, for zone 1. -/
def sampleZoneMem : ZoneMem where
  entry := fun zoneId i =>
    if zoneId.val = 1 ∧ i.val = 0 then ⟨0x7f0000000000, 0x50000000, 0x1000⟩ else ⟨0, 0, 0⟩
  before := ⟨0, 0, 0⟩
  mapped addr := decide (0x1000 ≤ addr)

/-- Host memory that holds one descriptor table entry at `0x1000`: a buffer of 512 bytes at guest
address `0x50000000 + offset`. -/
def sampleDescMem (offset : UInt8) : HostMem := fun a =>
  [0, offset, 0, 0x50, 0, 0, 0, 0, 0, 2, 0, 0, 0, 0, 0, 0].getD (a - 0x1000).toNat 0

/-- A queue of zone 1 with that descriptor published. -/
def sampleQueue : VirtQueue where
  zoneId := ⟨1, one_lt_maxZones⟩
  num := 4
  descTable := 0x1000
  availRing := ⟨0, 1, fun _ => 0⟩
  usedRing := ⟨0, 0, fun _ => ⟨0, 0⟩, 0⟩
  lastAvailIdx := 0
  lastUsedIdx := 0
  eventIdxEnabled := false

/-- The buffer at `0x50000f00` ends 256 bytes behind the RAM of the zone and is recorded all the
same. -/
theorem descriptor_beyond_ram_recorded :
    ¬ ∀ (zm : ZoneMem) (mem : HostMem) (vq : VirtQueue) (copyFlags : Bool) (fuel : ℕ),
      ∀ r ∈ (processDescriptorChain zm mem vq copyFlags fuel).recorded,
        InsideZone zm vq.zoneId r.desc.addr r.desc.len.toUInt64 r.iov := by
  intro h
  have hrun := h sampleZoneMem (sampleDescMem 0x0f) sampleQueue true 3
  revert hrun
  decide

/-- The same buffer at `0x50000100` lies in the region and its piece is inside the zone. -/
theorem guest_memory_isolation_sample :
    ∃ r ∈ (processDescriptorChain sampleZoneMem (sampleDescMem 1) sampleQueue true 3).recorded,
      r.iov = ⟨0x7f0000000100, 0x200⟩ ∧ Admissible sampleZoneMem sampleQueue.zoneId
        r.desc.addr r.desc.len.toUInt64 := by
  refine ⟨⟨0, ⟨0x50000100, 0x200, 0, 0⟩, ⟨0x7f0000000100, 0x200⟩, some 0⟩, by decide, rfl, ?_⟩
  exact ((guest_memory_isolation_iff sampleZoneMem (sampleDescMem 1)).1 sampleQueue true 3 _
    (by decide)).mp (by decide)

end HvisorRux.Tool
