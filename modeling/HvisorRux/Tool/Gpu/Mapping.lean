import HvisorRux.Tool.Memory

/-!
# Backing storage of a resource

`virtio_gpu_create_mapping_iov` (`virtio_gpu.c`) reads the guest's list of memory blocks from a
request and turns it into a scatter-gather list of host addresses.
-/

namespace HvisorRux.Tool

/-- `struct virtio_gpu_mem_entry`. -/
structure VirtioGpuMemEntry where
  addr : UInt64
  length : UInt32
  deriving DecidableEq, Repr

/-- `sizeof(struct virtio_gpu_mem_entry)`; the last four bytes are padding. -/
def memEntrySize : ℕ := 16

/-- `entries[e]` of the copied array. -/
def memEntry (bytes : List UInt8) (e : ℕ) : VirtioGpuMemEntry where
  addr := UInt64.ofNat (fieldNat bytes (memEntrySize * e) 8)
  length := UInt32.ofNat (fieldNat bytes (memEntrySize * e + 8) 4)

/-- The array of `nrEntries` entries at `offset` of the request. -/
def memEntries (mem : HostMem) (respIov : List Iovec) (offset nrEntries : ℕ) :
    List VirtioGpuMemEntry :=
  (List.range nrEntries).map
    (memEntry (iovToBuf mem false respIov offset (memEntrySize * nrEntries)))

/-- The piece stored for one entry. -/
def VirtioGpuMemEntry.iovec (zm : ZoneMem) (zoneId : Fin maxZones) (entry : VirtioGpuMemEntry) :
    Iovec :=
  ⟨getVirtAddr zm entry.addr zoneId, entry.length.toUInt64⟩

/-- The loop over the entries: `iov` grows by groups of 16, and `reallocOk v` says whether the
growth at index `v` succeeds. `none` inside the result is the null pointer. -/
def mapEntries (zm : ZoneMem) (zoneId : Fin maxZones) (reallocOk : ℕ → Bool) :
    List VirtioGpuMemEntry → ℕ → Option (List Iovec) → Option (Option (List Iovec))
  | [], _, iov => some iov
  | entry :: entries, v, iov =>
    if v % 16 = 0 ∧ reallocOk v = false then none
    else mapEntries zm zoneId reallocOk entries (v + 1)
      (some (iov.getD [] ++ [entry.iovec zm zoneId]))

/-- `virtio_gpu_create_mapping_iov`: `none` when it returns `-1`, else the pointer it stores. -/
def virtioGpuCreateMappingIov (zm : ZoneMem) (zoneId : Fin maxZones) (mem : HostMem)
    (respIov : List Iovec) (nrEntries : UInt32) (offset : ℕ) (reallocOk : ℕ → Bool) :
    Option (Option (List Iovec)) :=
  let entriesSize := memEntrySize * nrEntries.toNat
  if nrEntries > 16384 then none
  else if (iovToBuf mem false respIov offset entriesSize).length ≠ entriesSize then none
  else mapEntries zm zoneId reallocOk (memEntries mem respIov offset nrEntries.toNat) 0 none

variable {reallocOk : ℕ → Bool} {zoneId : Fin maxZones}

theorem mapEntries_eq {zm : ZoneMem} {entries : List VirtioGpuMemEntry} {v : ℕ}
    {iov out : Option (List Iovec)} (h : mapEntries zm zoneId reallocOk entries v iov = some out) :
    out = if entries = [] then iov
      else some (iov.getD [] ++ entries.map (VirtioGpuMemEntry.iovec zm zoneId)) := by
  induction entries generalizing v iov with
  | nil =>
    rw [mapEntries, Option.some.injEq] at h
    simp [h]
  | cons entry entries ih =>
    rw [mapEntries] at h
    split at h
    · contradiction
    · rw [ih h]
      cases entries <;> simp

/-- A successful mapping has one piece for each entry of the request, in order; without entries the
pointer stays null. -/
theorem virtioGpuCreateMappingIov_eq {zm : ZoneMem} {mem : HostMem} {respIov : List Iovec}
    {nrEntries : UInt32} {offset : ℕ} {out : Option (List Iovec)}
    (h : virtioGpuCreateMappingIov zm zoneId mem respIov nrEntries offset reallocOk = some out) :
    out = if nrEntries = 0 then none
      else some ((memEntries mem respIov offset nrEntries.toNat).map
        (VirtioGpuMemEntry.iovec zm zoneId)) := by
  simp only [virtioGpuCreateMappingIov, Option.ite_none_left_eq_some] at h
  rcases h with ⟨-, -, hmap⟩
  have hempty : memEntries mem respIov offset nrEntries.toNat = [] ↔ nrEntries = 0 := by
    simp [memEntries, ← UInt32.toNat_inj]
  simp [mapEntries_eq hmap, hempty]

end HvisorRux.Tool
