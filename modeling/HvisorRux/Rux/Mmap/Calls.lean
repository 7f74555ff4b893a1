import HvisorRux.Common.Transition
import HvisorRux.Rux.Mmap.Ranges
import HvisorRux.Rux.Mmap.Remap

/-!
# Histories of mapping calls

The four calls keep the mappings well formed in every history in which each call meets `CallOk`. The
condition makes up for what the source leaves out: a range may end inside a page, the walk over the
areas does not start if a fixed mapping begins below all of them, the search for a region is not
prepared for areas that end inside a page or at the end of the address space, and `sys_mremap`
leaves areas in the map that it should have removed or cut. `mappings_malformed` has a history for
each.
-/

namespace HvisorRux.Rux

open Common Option

section

variable {o : Overflow} {m m' : VmaMap} {start len end_ : ℕ} {res : CallResult} {flags : UInt32}

/-! ## mmap -/

/-- A fixed mapping: it does not wrap around, cuts no area inside a page at its end, and if it
begins below all areas, it also ends below them: the walk over the areas does not start then. -/
def FixedOk (m : VmaMap) (start len : ℕ) : Prop :=
  start + len < 2 ^ 64 ∧ CutOk m (start + len) ∧
    ((∃ p ∈ m, p.1 ≤ start) ∨ ∀ p ∈ m, start + len ≤ p.1)
deriving Decidable

/-- What `sys_mmap` needs; `n` is the length of the mapping. -/
def MmapOk (o : Overflow) (m : VmaMap) (start len : ℕ) (flags : UInt32) : Prop :=
  ∀ n ∈ mmapLen o len flags,
    if hasFlag flags mapFixed then FixedOk m start n
    else RegionOk m (if start = 0 then none else some start) n
deriving Decidable

theorem exists_floor {p : ℕ × Vma} (hp : p ∈ m) (hle : p.1 ≤ start) :
    ∃ q, m.floor? start = some q := by
  cases hfloor : m.floor? start with
  | none => exact absurd (OrdMap.floor?_eq_none.mp hfloor p hp) hle.not_gt
  | some q => exact ⟨q, rfl⟩

theorem usable_of_snatch {page : PageOp} (h : MmapInv m) (hstart : pageSize4K ∣ start)
    (hlen : 0 < len) (hok : FixedOk m start len)
    (hsnatch : snatchFixedRegion o m start len = some (some (m', page))) :
    MmapInv m' ∧ Usable m' len start := by
  obtain ⟨hlt, hcutOk, hbelow⟩ := hok
  obtain ⟨end_, hadd, hsnatch⟩ := bind_eq_some_iff.mp hsnatch
  obtain rfl := add_eq hlt hadd
  split at hsnatch
  · cases hsnatch
  rename_i hin
  obtain ⟨hlo, hhi⟩ := not_or.mp hin
  obtain ⟨m₁, hcut, hsnatch⟩ := bind_eq_some_iff.mp hsnatch
  obtain ⟨rfl, -⟩ := Prod.mk.inj (some.inj (some.inj hsnatch))
  refine ⟨h.cutAway hstart (fun _ => hcutOk) (fun w _ => rfl) hcut, hstart, not_lt.mp hlo,
    not_lt.mp hhi, fun p hp => ?_⟩
  by_cases hmeets : Meets m start (start + len)
  · exact (cutAway_mem h.laid hmeets (fun w _ => rfl) hcut hp).2
  -- nothing is cut away, and nothing has to be
  rw [overlaps_eq_nil hmeets] at hcut
  cases hcut
  obtain ⟨q, hq, hle⟩ | hbelow := hbelow
  · exact absurd ⟨Nat.lt_add_of_pos_right hlen, exists_floor hq hle⟩ hmeets
  · exact .inr (hbelow p hp)

theorem usable_of_region {pages : List PageOp} {vaddr : ℕ} (h : MmapInv m)
    (hstart : pageSize4K ∣ start) (hlen : 0 < len)
    (hok : if hasFlag flags mapFixed then FixedOk m start len
      else RegionOk m (if start = 0 then none else some start) len)
    (hregion : mmapRegion o m start len flags = some (some (m', pages, vaddr))) :
    MmapInv m' ∧ Usable m' len vaddr := by
  unfold mmapRegion at hregion
  split at hregion
  · next hfixed =>
    rw [if_pos hfixed] at hok
    obtain ⟨r, hsnatch, hr⟩ := map_eq_some_iff.mp hregion
    obtain ⟨⟨m₁, page⟩, rfl, heq⟩ := map_eq_some_iff.mp hr
    cases heq
    exact usable_of_snatch h hstart hlen hok hsnatch
  · next hfixed =>
    rw [if_neg hfixed] at hok
    obtain ⟨r, hfind, hr⟩ := map_eq_some_iff.mp hregion
    obtain ⟨a, rfl, heq⟩ := map_eq_some_iff.mp hr
    cases heq
    exact ⟨h, usable_of_findFreeRegion h hok hfind⟩

theorem MmapInv.sysMmap {files : ℕ → Option ℕ} {prot : UInt32} {fd : Int} {off : ℕ}
    (h : MmapInv m) (hok : MmapOk o m start len flags)
    (hres : sysMmap o files m start len prot flags fd off = some res) : MmapInv res.map := by
  obtain ⟨e, rfl⟩ | ⟨n, file, m₁, pages, vaddr, end_, hn, haligned, hne, -, hregion, hadd, rfl⟩ :=
    sysMmap_cases hres
  · exact h
  · have hpos := Nat.pos_of_ne_zero hne
    obtain ⟨hinv, husable⟩ := usable_of_region h haligned hpos (hok n hn) hregion
    exact hinv.insert_usable hpos husable rfl (add_eq husable.lt hadd)

/-! ## munmap and mprotect -/

/-- A range that does not wrap around cuts no area inside a page at its end. -/
def RangeOk (m : VmaMap) (start len : ℕ) : Prop := start + len < 2 ^ 64 → CutOk m (start + len)
deriving Decidable

/-- A range that wraps around meets no area. -/
theorem RangeOk.cutOk (hok : RangeOk m start len) (hlen : len < 2 ^ 64)
    (hadd : o.add 64 start len = some end_) (hmeets : Meets m start end_) : CutOk m end_ := by
  have hlt : start + len < 2 ^ 64 := by
    by_contra hover
    exact absurd (Overflow.lt_of_add hadd hlen hover) hmeets.1.not_gt
  rw [add_eq hlt hadd]
  exact hok hlt

/-- Such a call keeps the invariant if its edit does. -/
theorem MmapInv.editRange {uncovered : LinuxError} {edit : List Overlap → Option VmaMap}
    {page : ℕ → ℕ → PageOp} (h : MmapInv m)
    (hedit : ∀ end_ m', pageSize4K ∣ start → o.add 64 start len = some end_ →
      edit (overlaps m start end_) = some m' → MmapInv m')
    (hres : editRange o m start len uncovered edit page = some res) : MmapInv res.map := by
  obtain ⟨e, rfl⟩ | ⟨end_, m', hadd, hstart, -, -, hm', rfl⟩ := editRange_cases hres
  · exact h
  · exact hedit end_ m' hstart hadd hm'

theorem MmapInv.sysMunmap (h : MmapInv m) (hlen : len < 2 ^ 64) (hok : RangeOk m start len)
    (hres : sysMunmap o m start len = some res) : MmapInv res.map := by
  refine h.editRange (fun end_ m' hstart hadd hcut => ?_) hres
  exact h.cutAway hstart (hok.cutOk hlen hadd) (fun w hw => key_eq_startAddr h.laid hw) hcut

theorem MmapInv.sysMprotect {prot : UInt32} (h : MmapInv m) (hlen : len < 2 ^ 64)
    (hok : RangeOk m start len) (hres : sysMprotect o m start len prot = some res) :
    MmapInv res.map := by
  refine h.editRange (fun end_ m' hstart hadd hprot => ?_) hres
  exact h.protectRange hstart (hok.cutOk hlen hadd) hprot

/-! ## mremap -/

/-- The area that `sys_mremap` collects. -/
def collectedVma (o : Overflow) (m : VmaMap) (oldStart oldEnd : ℕ) : Option Vma :=
  match collect o none (remapped m oldStart oldEnd) with
  | some (.ok inner) => inner
  | _ => none

/-- What `sys_mremap` needs: the old range does not wrap around, and the way that the call takes
does what it should. -/
def MremapOk (o : Overflow) (m : VmaMap) (oldAddr oldSize newSize : ℕ) (flags : UInt32)
    (newAddr : ℕ) : Prop :=
  ¬ mremapInvalid oldAddr oldSize newSize flags →
    oldAddr + oldSize < 2 ^ 64 ∧ ∀ oldVma ∈ collectedVma o m oldAddr (oldAddr + oldSize),
      Remap.Ok o m ⟨oldAddr, oldSize, oldAddr + oldSize, newSize, flags, newAddr, oldVma,
        (remapped m oldAddr (oldAddr + oldSize)).map (·.startAddr)⟩
deriving Decidable

/-- `sys_mremap` fails, or it goes on with what it has collected. -/
theorem sysMremap_cases {oldAddr oldSize newSize newAddr : ℕ}
    (hres : sysMremap o m oldAddr oldSize newSize flags newAddr = some res) :
    (∃ e, res = .fail m e) ∨ ∃ oldEnd oldVma, ¬ mremapInvalid oldAddr oldSize newSize flags ∧
      o.add 64 oldAddr oldSize = some oldEnd ∧
      collect o none (remapped m oldAddr oldEnd) = some (.ok (some oldVma)) ∧
      oldEnd ≤ oldVma.endAddr ∧
      Remap.perform o m ⟨oldAddr, oldSize, oldEnd, newSize, flags, newAddr, oldVma,
        (remapped m oldAddr oldEnd).map (·.startAddr)⟩ = some res := by
  unfold HvisorRux.Rux.sysMremap at hres
  split at hres
  · exact .inl ⟨_, (some.inj hres).symm⟩
  rename_i hvalid
  obtain ⟨oldEnd, hadd, hres⟩ := bind_eq_some_iff.mp hres
  obtain ⟨collected, hcollect, hres⟩ := bind_eq_some_iff.mp hres
  cases collected with
  | error e => exact .inl ⟨_, (some.inj hres).symm⟩
  | ok inner =>
    cases inner with
    | none => exact .inl ⟨_, (some.inj hres).symm⟩
    | some oldVma =>
      dsimp only at hres
      split at hres
      · exact .inl ⟨_, (some.inj hres).symm⟩
      · next hend =>
        exact .inr ⟨oldEnd, oldVma, hvalid, hadd, hcollect, not_lt.mp hend, hres⟩

theorem MmapInv.sysMremap {oldAddr oldSize newSize newAddr : ℕ} (h : MmapInv m)
    (hok : MremapOk o m oldAddr oldSize newSize flags newAddr)
    (hres : sysMremap o m oldAddr oldSize newSize flags newAddr = some res) : MmapInv res.map := by
  obtain ⟨e, rfl⟩ | ⟨oldEnd, oldVma, hvalid, hadd, hcollect, hend, hres⟩ := sysMremap_cases hres
  · exact h
  obtain ⟨hlt, hok⟩ := hok hvalid
  have hsize : 0 < newSize := Nat.pos_of_ne_zero fun hzero => hvalid (.inr (.inl hzero))
  obtain rfl := add_eq hlt hadd
  have hc := collected_of_collect h (r := ⟨oldAddr, oldSize, oldAddr + oldSize, newSize, flags,
    newAddr, oldVma, (remapped m oldAddr (oldAddr + oldSize)).map (·.startAddr)⟩)
    (Nat.le_add_right ..) hcollect rfl hend
  refine hc.perform h hsize rfl (hok oldVma ?_) hres
  rw [collectedVma, hcollect]
  rfl

end

/-! ## Histories -/

/-- What a call needs. -/
def CallOk (o : Overflow) (m : VmaMap) : MmapCall → Prop
  | .mmap _ start len _ flags _ _ => MmapOk o m start.toNat len.toNat flags
  | .munmap start len => RangeOk m start.toNat len.toNat
  | .mprotect start len _ => RangeOk m start.toNat len.toNat
  | .mremap oldAddr oldSize newSize flags newAddr =>
    MremapOk o m oldAddr.toNat oldSize.toNat newSize.toNat flags newAddr.toNat

instance (o : Overflow) (m : VmaMap) (call : MmapCall) : Decidable (CallOk o m call) := by
  cases call <;> unfold CallOk <;> infer_instance

theorem MmapInv.mmapStep {o : Overflow} {m m' : VmaMap} {call : MmapCall} (h : MmapInv m)
    (hok : CallOk o m call) (hstep : mmapStep o m call = some m') : MmapInv m' := by
  obtain ⟨res, hres, rfl⟩ := map_eq_some_iff.mp hstep
  cases call with
  | mmap files start len prot flags fd off => exact h.sysMmap hok hres
  | munmap start len => exact h.sysMunmap len.toNat_lt hok hres
  | mprotect start len prot => exact h.sysMprotect len.toNat_lt hok hres
  | mremap oldAddr oldSize newSize flags newAddr => exact h.sysMremap hok hres

/-- The mappings stay well formed in every history of calls that meet their conditions. -/
theorem mappings_wellFormed (o : Overflow) {m : VmaMap}
    (h : Reach (mmapStep o) (CallOk o) OrdMap.empty m) : WellFormed m := by
  have hinv : MmapInv m := by
    refine h.invariant MmapInv .empty ?_
    intro m call m' hm hok hstep
    exact hm.mmapStep hok hstep
  exact hinv.wellFormed

/-- An address of the space for mappings. -/
def sampleAddr (off : UInt64) : UInt64 := 0xffff800000000000 + off

/-- An anonymous mapping, readable and writable. -/
def sampleMmap (off len : UInt64) (fixed : UInt32) : MmapCall :=
  .mmap (fun _ => none) (sampleAddr off) len 3 (mapPrivate ||| mapAnonymous ||| fixed) (-1) 0

/-- A mapping is split by a change of its protection, by taking out a part and by a fixed mapping;
its first page is extended and moved. -/
theorem mappings_wellFormed_sample :
    ∃ m, Reach (mmapStep .panics) (CallOk .panics) OrdMap.empty m ∧
      m.entries.map (fun p => (p.1 - vmaStart, p.2.endAddr - vmaStart)) =
        [(0x3000, 0x4000), (0x4000, 0x5000), (0x5000, 0x6000), (0x6000, 0x8000),
          (0x20000, 0x22000)] ∧ WellFormed m := by
  have hrun : (run (mmapStep .panics) (CallOk .panics) OrdMap.empty
      [sampleMmap 0 0x8000 0, .mprotect (sampleAddr 0x2000) 0x2000 1,
        .munmap (sampleAddr 0x1000) 0x2000, sampleMmap 0x5000 0x1000 mapFixed,
        .mremap (sampleAddr 0) 0x1000 0x2000 mremapMaymove 0,
        .mremap (sampleAddr 0) 0x2000 0x2000 mremapMaymove (sampleAddr 0x20000)]).map
      (fun m => m.entries.map fun p => (p.1 - vmaStart, p.2.endAddr - vmaStart)) =
        some [(0x3000, 0x4000), (0x4000, 0x5000), (0x5000, 0x6000), (0x6000, 0x8000),
          (0x20000, 0x22000)] := by decide +kernel
  obtain ⟨m, hm, hentries⟩ := exists_of_run hrun
  exact ⟨m, hm, hentries, mappings_wellFormed .panics hm⟩

/-- The offsets of keys, starts and ends after a history of calls, if the map is not well formed. -/
def malformed (o : Overflow) (calls : List MmapCall) : Option (List (ℕ × ℕ × ℕ)) :=
  (run (mmapStep o) anyStep OrdMap.empty calls).bind fun m =>
    if WellFormed m then none
    else some (m.entries.map fun p =>
      (p.1 - vmaStart, p.2.startAddr - vmaStart, p.2.endAddr - vmaStart))

/-- A part of a page is unmapped; a fixed mapping is made over one that begins later; a mapping
takes the gap behind a file of 100 bytes; a mapping that goes on is made smaller; two areas are made
larger; the last pages of a mapping are moved away; and a mapping finds a region behind the end of
the address space, in a release build. -/
theorem mappings_malformed :
    malformed .panics [sampleMmap 0 0x4000 0, .munmap (sampleAddr 0) 100] =
      some [(100, 100, 0x4000)] ∧
    malformed .panics [sampleMmap 0x10000 0x1000 0, sampleMmap 0 0x20000 mapFixed] =
      some [(0, 0, 0x20000), (0x10000, 0x10000, 0x11000)] ∧
    malformed .panics [.mmap (fun _ => some 0) (sampleAddr 0) 100 3 mapPrivate 0 0,
        sampleMmap 0x6fffffffe000 0x1000 0, sampleMmap 0 0x2000 0] =
      some [(0, 0, 100), (100, 100, 0x2064), (0x6fffffffe000, 0x6fffffffe000, 0x6ffffffff000)] ∧
    malformed .panics [sampleMmap 0 0x4000 0, .mremap (sampleAddr 0) 0x2000 0x1000 0 0] =
      some [(0, 0, 0x4000), (0x2000, 0x2000, 0x4000)] ∧
    malformed .panics [sampleMmap 0 0x2000 0, .mprotect (sampleAddr 0) 0x1000 3,
        .mremap (sampleAddr 0) 0x2000 0x3000 0 0] =
      some [(0, 0, 0x3000), (0x1000, 0x1000, 0x2000)] ∧
    malformed .panics [sampleMmap 0 0x4000 0,
        .mremap (sampleAddr 0x1000) 0x3000 0x3000 mremapMaymove 0] =
      some [(0x4000, 0, 0x1000), (0x5000, 0x5000, 0x8000)] ∧
    malformed .wraps [sampleMmap 0x6ffffffff000 0x1000 0, sampleMmap 0x6ffffffff000 0x1000 0] =
      some [(0x6ffffffff000, 0x6ffffffff000, 0x700000000000),
        (0x700000001000, 0x700000001000, 0x700000002000)] := by
  refine ⟨?_, ?_, ?_, ?_, ?_, ?_, ?_⟩ <;> decide +kernel

end HvisorRux.Rux
