import HvisorRux.Gic.CommandQueue
import Mathlib.Tactic.IntervalCases

/-!
# The stream table of the SMMU

`iommu_add_device` (`arch/aarch64/iommu.rs`) assigns a PCI device to a zone: the entry of its stream
id, which initially bypasses the SMMU, gets the zone's vmid and the root of the page table of its
devices. Both are ored into the entry, over what is there from an earlier assignment and, since the
initialisation writes two words of an entry only, from before the table was allocated.
-/

namespace HvisorRux.Zones

open Function List

open Gic (maxZoneNum)

/-- `StreamTableEntry`. -/
abbrev StreamTableEntry := Fin 8 → BitVec 64

/-- The stream table, by stream id. -/
abbrev StreamTable := ℕ → StreamTableEntry

/-- `extract_bits`. -/
def extractBits (value : BitVec 64) (start length : ℕ) : BitVec 64 :=
  (value >>> start) &&& ((1 <<< length) - 1)

/-- `DEFAULT_VCTR`. -/
def defaultVctr : BitVec 64 :=
  20 + (2 <<< 6) + (1 <<< 8) + (1 <<< 10) + (3 <<< 12) + (0 <<< 14) + (4 <<< 16)

/-- `STRTAB_STE_0_V`, with the configuration of the entry. -/
def steConfig (cfg : BitVec 64) : BitVec 64 := 1 ||| cfg <<< 1

/-- The vmid with `STRTAB_STE_2_S2PTW`, `S2AA64`, `S2R` and the translation control. -/
def steVmid (vmid : ℕ) : BitVec 64 :=
  BitVec.ofNat 64 vmid <<< 0 ||| 1 <<< 54 ||| 1 <<< 51 ||| 1 <<< 58 |||
    extractBits defaultVctr 0 19 <<< 32

/-- The root of the page table, `STRTAB_STE_3_S2TTB`. -/
def steRoot (rootPt : BitVec 64) : BitVec 64 := extractBits rootPt 4 48 <<< 4

/-- `init_bypass_ste`, on the entry. -/
def initBypassSte (ste : StreamTableEntry) : StreamTableEntry
  | 0 => 0 ||| steConfig 4
  | 1 => 1 <<< 44
  | i => ste i

/-- `init_bypass_stes`, which initialises each entry of the table. -/
def initBypassStes (sidMaxBits : ℕ) (tab : StreamTable) : StreamTable := fun sid =>
  if sid < 1 <<< sidMaxBits then initBypassSte (tab sid) else tab sid

/-- `write_ste` of the table, on the entry. -/
def writeSte (vmid : ℕ) (rootPt : BitVec 64) (ste : StreamTableEntry) : StreamTableEntry
  | 0 => ste 0 ||| steConfig 6
  | 2 => ste 2 ||| steVmid vmid
  | 3 => ste 3 ||| steRoot rootPt
  | i => ste i

/-- `iommu_add_device`, with the roots of `iommu_pt_list`. -/
def iommuAddDevice (roots : ℕ → BitVec 64) (tab : StreamTable) (call : ℕ × ℕ) :
    Option StreamTable :=
  if call.1 < maxZoneNum then
    some (update tab call.2 (writeSte call.1 (roots call.1) (tab call.2)))
  else none

/-- The vmid of an entry. -/
def StreamTableEntry.vmid (ste : StreamTableEntry) : BitVec 64 := ste 2 &&& 0xffff

/-- The bits of a root that an entry holds. -/
def rootMask : BitVec 64 := ((1 <<< 48) - 1) <<< 4

/-- The root of the page table of an entry. -/
def StreamTableEntry.root (ste : StreamTableEntry) : BitVec 64 := ste 3 &&& rootMask

/-- The entry asks for stage-2 translation with this vmid and this root. -/
structure Translates (ste : StreamTableEntry) (vmid : ℕ) (rootPt : BitVec 64) : Prop where
  config : ste 0 &&& 0xf = steConfig 6
  vmid : ste.vmid = BitVec.ofNat 64 vmid
  root : ste.root = rootPt &&& rootMask

/-- The zones a stream id has been assigned to, in the order of the calls. -/
def assignments (calls : List (ℕ × ℕ)) (sid : ℕ) : List ℕ :=
  (calls.filter fun call => call.2 == sid).map Prod.fst

variable {roots : ℕ → BitVec 64} {tab tab' : StreamTable}

/-- The entry of a stream id depends on the calls for it only. -/
theorem iommuAddDevice_run {calls : List (ℕ × ℕ)}
    (hrun : calls.foldlM (iommuAddDevice roots) tab = some tab') (sid : ℕ) :
    tab' sid = (assignments calls sid).foldl (fun ste v => writeSte v (roots v) ste) (tab sid) ∧
      ∀ v ∈ assignments calls sid, v < maxZoneNum := by
  induction calls generalizing tab with
  | nil =>
    cases hrun
    simp [assignments]
  | cons call calls ih =>
    rw [foldlM_cons, iommuAddDevice] at hrun
    by_cases hlt : call.1 < maxZoneNum
    · rw [if_pos hlt] at hrun
      obtain ⟨hentry, hbound⟩ := ih hrun
      by_cases hsid : call.2 = sid
      · subst hsid
        simpa [assignments, hentry, hlt] using hbound
      · rw [update_of_ne (Ne.symm hsid)] at hentry
        simpa [assignments, hsid, hentry] using hbound
    · rw [if_neg hlt] at hrun
      cases hrun

/-- A field of a word into which values are ored. -/
theorem foldl_or_and {f g : ℕ → BitVec 64} {m : BitVec 64} {l : List ℕ}
    (h : ∀ v ∈ l, f v &&& m = g v) (w : BitVec 64) :
    l.foldl (fun w v => w ||| f v) w &&& m = l.foldl (fun w v => w ||| g v) (w &&& m) := by
  induction l generalizing w with
  | nil => rfl
  | cons v l ih =>
    obtain ⟨hv, hl⟩ := forall_mem_cons.mp h
    rw [foldl_cons, ih hl, BitVec.and_or_distrib_right, hv, foldl_cons]

theorem foldl_writeSte (roots : ℕ → BitVec 64) (l : List ℕ) (ste : StreamTableEntry) :
    let ste' := l.foldl (fun ste v => writeSte v (roots v) ste) ste
    ste' 0 = l.foldl (fun w _ => w ||| steConfig 6) (ste 0) ∧
      ste' 2 = l.foldl (fun w v => w ||| steVmid v) (ste 2) ∧
      ste' 3 = l.foldl (fun w v => w ||| steRoot (roots v)) (ste 3) := by
  induction l generalizing ste with
  | nil => exact ⟨rfl, rfl, rfl⟩
  | cons v l ih => exact ih (writeSte v (roots v) ste)

theorem steVmid_and {v : ℕ} (h : v < maxZoneNum) : steVmid v &&& 0xffff = BitVec.ofNat 64 v := by
  unfold maxZoneNum at h
  interval_cases v <;> decide

theorem steRoot_and (rootPt : BitVec 64) : steRoot rootPt &&& rootMask = rootPt &&& rootMask := by
  have hlow : ∀ i < 4, rootMask.getLsbD i = false := by decide
  rw [steRoot, extractBits, BitVec.shiftLeft_and_distrib, BitVec.and_assoc]
  refine BitVec.eq_of_getLsbD_eq fun i hi => ?_
  by_cases h : i < 4
  · simp [hlow i h]
  · simp [rootMask, hi, h, show 4 + (i - 4) = i by omega]

/-- **The last assignment of a device.** A stream id that is not assigned bypasses the SMMU. One
that is assigned is translated with the vmid and the root of the last assignment exactly if these
are all the bits of those of its assignments and of what its entry held before the initialisation.
An assignment leaves the entries of the other stream ids alone. -/
theorem last_assignment_iff (sidMaxBits : ℕ) (roots : ℕ → BitVec 64) (mem tab : StreamTable)
    (calls : List (ℕ × ℕ))
    (hrun : calls.foldlM (iommuAddDevice roots) (initBypassStes sidMaxBits mem) = some tab) :
    (∀ sid < 1 <<< sidMaxBits, (assignments calls sid = [] → tab sid 0 = steConfig 4) ∧
      ∀ last, (assignments calls sid).getLast? = some last →
        (Translates (tab sid) last (roots last) ↔
          (assignments calls sid).foldl (fun w v => w ||| BitVec.ofNat 64 v) (mem sid).vmid =
              BitVec.ofNat 64 last ∧
            (assignments calls sid).foldl (fun w v => w ||| (roots v &&& rootMask)) (mem sid).root =
              roots last &&& rootMask)) ∧
      ∀ call tab', iommuAddDevice roots tab call = some tab' →
        ∀ sid ≠ call.2, tab' sid = tab sid := by
  refine ⟨fun sid hsid => ?_, fun call tab' hcall sid hne => ?_⟩
  · obtain ⟨hentry, hbound⟩ := iommuAddDevice_run hrun sid
    rw [initBypassStes, if_pos hsid] at hentry
    obtain ⟨h0, h2, h3⟩ := foldl_writeSte roots (assignments calls sid) (initBypassSte (mem sid))
    rw [← hentry] at h0 h2 h3
    have hvmid : (tab sid).vmid =
        (assignments calls sid).foldl (fun w v => w ||| BitVec.ofNat 64 v) (mem sid).vmid := by
      rw [StreamTableEntry.vmid, h2]
      exact foldl_or_and (fun v hv => steVmid_and (hbound v hv)) _
    have hroot : (tab sid).root =
        (assignments calls sid).foldl (fun w v => w ||| (roots v &&& rootMask)) (mem sid).root := by
      rw [StreamTableEntry.root, h3]
      exact foldl_or_and (fun v _ => steRoot_and (roots v)) _
    refine ⟨fun hnil => by rw [h0, hnil]; rfl, fun last hlast => ?_⟩
    have hconfig : tab sid 0 = steConfig 6 := by
      cases hl : assignments calls sid with
      | nil =>
        rw [hl] at hlast
        cases hlast
      | cons v l =>
        have hfirst : (0 ||| steConfig 4) ||| steConfig 6 = steConfig 6 := by decide
        rw [h0, hl, foldl_cons, initBypassSte, hfirst]
        exact foldl_fixed' (f := fun w _ => w ||| steConfig 6) (fun _ => BitVec.or_self) l
    rw [← hvmid, ← hroot]
    exact ⟨fun h => ⟨h.vmid, h.root⟩, fun h => ⟨by rw [hconfig]; rfl, h.1, h.2⟩⟩
  · obtain ⟨-, htab⟩ := Option.ite_none_right_eq_some.mp hcall
    rw [← Option.some.inj htab, update_of_ne hne]

/-- A device of one zone only, in a table of zeros. -/
theorem last_assignment_sample :
    ∃ tab, [(1, 0)].foldlM (iommuAddDevice (0x1000 <<< ·)) (initBypassStes 4 0) = some tab ∧
      Translates (tab 0) 1 0x2000 := by
  refine ⟨_, rfl, ?_⟩
  exact (((last_assignment_iff 4 (0x1000 <<< ·) 0 _ [(1, 0)] rfl).1 0 (by decide)).2 1 rfl).mpr
    (by decide)

/-- A device that is taken from zone 1 and given to zone 2 is translated with vmid 3. -/
theorem reassigned_vmid_mixed :
    ∃ tab, [(1, 0), (2, 0)].foldlM (iommuAddDevice (0x1000 <<< ·)) (initBypassStes 4 0) =
        some tab ∧ (tab 0).vmid = 3 ∧ ¬Translates (tab 0) 2 0x4000 := by
  refine ⟨_, rfl, by decide, fun h => ?_⟩
  exact absurd h.vmid (by decide)

end HvisorRux.Zones
