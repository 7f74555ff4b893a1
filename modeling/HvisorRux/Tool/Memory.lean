import HvisorRux.Common.Scatter
import Mathlib.Data.UInt

/-!
# The daemon's memory: guest RAM in the host's address space

The virtio daemon maps the RAM of every zone into its own address space and finds guest addresses
through the table `zone_mem` (`virtio.c`). Guest buffers reach it as scatter-gather lists of host
addresses (`struct iovec`), read and written by `iov_to_buf` and `buf_to_iov` (`virtio_gpu_base.c`,
`virtio_gpu.h`).
-/

namespace HvisorRux.Tool

open Common List

/-! ## Bytes -/

/-- The daemon's address space. -/
abbrev HostMem := UInt64 → UInt8

/-- The number a little-endian byte sequence encodes. -/
def leNat (bytes : List UInt8) : ℕ :=
  bytes.foldr (fun byte n => byte.toNat + 256 * n) 0

/-- The field of `n` bytes at `offset` of a structure stored as `bytes`. -/
def fieldNat (bytes : List UInt8) (offset n : ℕ) : ℕ :=
  leNat ((bytes.drop offset).take n)

/-- The `n` bytes from `addr` on. -/
def HostMem.bytes (mem : HostMem) (addr : UInt64) (n : ℕ) : List UInt8 :=
  (List.range n).map fun k => mem (addr + UInt64.ofNat k)

/-- Store `bytes` at the addresses `addrs`, in order. -/
def HostMem.store (mem : HostMem) (addrs : List UInt64) (bytes : List UInt8) : HostMem :=
  (addrs.zip bytes).foldl (fun m ab => Function.update m ab.1 ab.2) mem

/-! ## Scatter-gather lists -/

/-- One `struct iovec`. -/
structure Iovec where
  base : UInt64
  len : UInt64
  deriving DecidableEq, Repr

/-- The host addresses of a piece. -/
def Iovec.addrs (iov : Iovec) : List UInt64 :=
  (List.range iov.len.toNat).map fun k => iov.base + UInt64.ofNat k

/-- The host addresses of a whole list, in order. -/
def iovAddrs (iov : List Iovec) : List UInt64 :=
  (iov.map Iovec.addrs).flatten

/-- The number of bytes of a scatter-gather list. -/
def iovSize (iov : List Iovec) : ℕ :=
  (iov.map fun v => v.len.toNat).sum

theorem iovAddrs_length (iov : List Iovec) : (iovAddrs iov).length = iovSize iov := by
  simp [iovAddrs, iovSize, length_flatten, Iovec.addrs, Function.comp_def]

/-- `iov_to_buf_full`: the bytes copied, whose number is the value returned. -/
def iovToBufFull (mem : HostMem) (iov : List Iovec) (offset need : ℕ) : List UInt8 :=
  let (addrs, left) := Scatter.select (iov.map Iovec.addrs) offset need []
  if left ≠ 0 then [] else addrs.map mem

/-- `iov_to_buf`. The shortcut for a copy inside the first piece is only compiled in when the size
is a compile-time constant. -/
def iovToBuf (mem : HostMem) (constantSize : Bool) (iov : List Iovec) (offset need : ℕ) :
    List UInt8 :=
  match iov with
  | [] => iovToBufFull mem iov offset need
  | first :: _ =>
    if constantSize ∧ offset ≤ first.len.toNat ∧ need ≤ first.len.toNat - offset then
      mem.bytes (first.base + UInt64.ofNat offset) need
    else
      iovToBufFull mem iov offset need

/-- `buf_to_iov_full`: the memory after the copy and the number of bytes copied. -/
def bufToIovFull (mem : HostMem) (iov : List Iovec) (offset : ℕ) (buf : List UInt8) : HostMem × ℕ :=
  let (addrs, left) := Scatter.select (iov.map Iovec.addrs) offset buf.length []
  (mem.store addrs buf, if left ≠ 0 then 0 else addrs.length)

variable (mem : HostMem)

theorem iovToBufFull_eq (iov : List Iovec) (offset need : ℕ) :
    iovToBufFull mem iov offset need = (((iovAddrs iov).drop offset).take need).map mem := by
  simp only [iovToBufFull, Scatter.select_eq]
  split
  · next h =>
    rw [drop_eq_nil_of_le (by simp only [iovAddrs]; omega)]
    simp
  · rfl

/-- A window of one piece, as the memory bytes at its address. -/
theorem HostMem.bytes_window (iov : Iovec) {offset need : ℕ} (h : offset + need ≤ iov.len.toNat) :
    mem.bytes (iov.base + UInt64.ofNat offset) need =
      ((iov.addrs.drop offset).take need).map mem := by
  refine ext_getElem (by simp [bytes, Iovec.addrs]; omega) fun k h₁ h₂ => ?_
  simp only [bytes, Iovec.addrs, getElem_map, getElem_range, getElem_take, getElem_drop]
  rw [UInt64.ofNat_add, UInt64.add_assoc]

/-- Both paths of `iov_to_buf` copy the same window of the buffer. -/
theorem iovToBuf_eq (constantSize : Bool) (iov : List Iovec) (offset need : ℕ) :
    iovToBuf mem constantSize iov offset need =
      (((iovAddrs iov).drop offset).take need).map mem := by
  unfold iovToBuf
  split
  · exact iovToBufFull_eq mem _ offset need
  rename_i first rest
  split
  · next h =>
    have hlen : first.addrs.length = first.len.toNat := by simp [Iovec.addrs]
    rw [mem.bytes_window first (by omega)]
    show _ = (((first.addrs ++ iovAddrs rest).drop offset).take need).map mem
    rw [drop_append_of_le_length (by omega),
      take_append_of_le_length (by rw [length_drop]; omega)]
  · exact iovToBufFull_eq mem _ offset need

/-- `iov_to_buf` returns the full size iff the buffer reaches that far. -/
theorem iovToBuf_length (constantSize : Bool) (iov : List Iovec) (offset need : ℕ) :
    (iovToBuf mem constantSize iov offset need).length = min need (iovSize iov - offset) := by
  rw [iovToBuf_eq, length_map, length_take, length_drop, iovAddrs_length]

/-! ## Guest addresses -/

/-- `MAX_ZONES`. -/
def maxZones : ℕ := 4

theorem one_lt_maxZones : 1 < maxZones := by decide

/-- `MAX_RAMS`. -/
def maxRams : ℕ := 4

/-- One row of `zone_mem`: the columns `VIRT_ADDR`, `ZONEX_IPA` and `MEM_SIZE`. -/
structure RamRegion where
  virtAddr : UInt64
  zonexIpa : UInt64
  memSize : UInt64
  deriving DecidableEq, Repr

/-- The table `zone_mem`, with the memory in front of it, the row at index `-1` of zone `0`, and the
addresses at which the daemon has something mapped: the RAM of the zones and its own memory. An
access to another address ends the daemon. -/
structure ZoneMem where
  entry : Fin maxZones → Fin maxRams → RamRegion
  before : RamRegion
  mapped : UInt64 → Bool

/-- The test of `get_zone_ram_index` for one row, in 64-bit arithmetic. -/
def RamRegion.covers (r : RamRegion) (zonexIpa : UInt64) : Bool :=
  r.memSize != 0 && decide (r.zonexIpa ≤ zonexIpa) && decide (zonexIpa < r.zonexIpa + r.memSize)

/-- `get_zone_ram_index`; `none` is the return value `-1`. -/
def getZoneRamIndex (zm : ZoneMem) (zonexIpa : UInt64) (zoneId : Fin maxZones) :
    Option (Fin maxRams) :=
  (List.finRange maxRams).find? fun i => (zm.entry zoneId i).covers zonexIpa

/-- The row in front of the rows of a zone: the last row of the zone before it. -/
def ZoneMem.rowBefore (zm : ZoneMem) (zoneId : Fin maxZones) : RamRegion :=
  if h : 0 < zoneId.val then zm.entry ⟨zoneId.val - 1, by omega⟩ ⟨maxRams - 1, by decide⟩
  else zm.before

/-- `zone_mem[zone_id][ram_idx]`, also at index `-1`. -/
def ZoneMem.row (zm : ZoneMem) (zoneId : Fin maxZones) : Option (Fin maxRams) → RamRegion
  | some i => zm.entry zoneId i
  | none => zm.rowBefore zoneId

/-- `get_virt_addr`: the index is used without a test. -/
def getVirtAddr (zm : ZoneMem) (zonexIpa : UInt64) (zoneId : Fin maxZones) : UInt64 :=
  let r := zm.row zoneId (getZoneRamIndex zm zonexIpa zoneId)
  r.virtAddr - r.zonexIpa + zonexIpa

/-- One page of guest memory, mapped at `0x10000`. -/
def samplePage : ZoneMem where
  entry zone i := if zone.val = 1 ∧ i.val = 0 then ⟨0x10000, 0, 0x1000⟩ else ⟨0, 0, 0⟩
  before := ⟨0, 0, 0⟩
  mapped addr := decide (0x1000 ≤ addr)

end HvisorRux.Tool
