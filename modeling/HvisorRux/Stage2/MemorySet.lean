import HvisorRux.Common.Transition
import HvisorRux.Stage2.Walk
import Mathlib.Data.List.Pairwise

/-!
# Memory sets

A `MemorySet` (`memory/mm.rs`) is a map of regions, ordered by their start, and the page table that
is to translate exactly their addresses. `map` cuts a region greedily into the largest pages that
the alignment of both addresses and the rest of the size admit; `unmap` asks the page table for the
page sizes and leaves the emptied tables in place.

Translation is that of the regions, up to what the format cannot hold: entries have 48 bits for an
address, and the indices of a walk wrap around at the end of the address space.
-/

namespace HvisorRux.Stage2

open Common List PageSize Nat

/-- `Mapper` (`memory/mapper.rs`). -/
inductive Mapper
  | offset (off : UInt64)
  | fixed (paddr : UInt64)
deriving DecidableEq

/-- `map_fn`, with the wrap-around of `wrapping_sub`. -/
def Mapper.mapFn : Mapper → ℕ → ℕ
  | .offset off, vaddr => (vaddr + 2 ^ 64 - off.toNat) % 2 ^ 64
  | .fixed paddr, _ => paddr.toNat

def Mapper.isOffset : Mapper → Bool
  | .offset _ => true
  | .fixed _ => false

/-- `MemoryRegion`. -/
structure MemoryRegion where
  start : ℕ
  size : ℕ
  flags : MemFlags
  mapper : Mapper
deriving DecidableEq

namespace MemoryRegion

/-- `is_overlap_with`. -/
def isOverlapWith (r other : MemoryRegion) : Bool :=
  !(decide (r.start + r.size ≤ other.start) || decide (other.start + other.size ≤ r.start))

/-- The page size that `map` takes for the rest of a region. -/
def pageSize (r : MemoryRegion) (vaddr size : ℕ) : PageSize :=
  let paddr := r.mapper.mapFn vaddr
  if size1G.isAligned vaddr && size1G.isAligned paddr
      && decide (size1G.bytes ≤ size) && !r.flags.contains MemFlags.noHugepages then
    .size1G
  else if size2M.isAligned vaddr && size2M.isAligned paddr
      && decide (size2M.bytes ≤ size) && !r.flags.contains MemFlags.noHugepages then
    .size2M
  else .size4K

end MemoryRegion

/-- `is_aligned` (`memory/addr.rs`). -/
def isAligned (addr : ℕ) : Bool := addr % 4096 == 0

/-- A paging error becomes an error of the call. -/
def ofPaging {α : Type} : Except PagingError α → Except HvError α
  | .ok a => .ok a
  | .error e => .error (.paging e)

namespace PageTable

/-- The loop of `map`, at most `fuel` times around. -/
def mapLoop (r : MemoryRegion) : (fuel : ℕ) → PageTable → (vaddr size : ℕ) →
    Except HvError PageTable
  | 0, pt, _, size => if size = 0 then .ok pt else .error .diverge
  | fuel + 1, pt, vaddr, size =>
    if size = 0 then .ok pt
    else
      let pageSize := r.pageSize vaddr size
      ofPaging (pt.mapPage ⟨vaddr, pageSize⟩ (r.mapper.mapFn vaddr) r.flags) >>= fun pt =>
        mapLoop r fuel pt (vaddr + pageSize.bytes) (size - pageSize.bytes)

/-- `map`. -/
def map (pt : PageTable) (r : MemoryRegion) : Except HvError PageTable :=
  if !isAligned r.start || !isAligned r.size then .error .panic
  else pt.mapLoop r (r.size / 4096) r.start r.size

/-- The loop of `unmap`, at most `fuel` times around. -/
def unmapLoop : (fuel : ℕ) → PageTable → (vaddr size : ℕ) → Except HvError PageTable
  | 0, pt, _, size => if size = 0 then .ok pt else .error .diverge
  | fuel + 1, pt, vaddr, size =>
    if size = 0 then .ok pt
    else
      ofPaging (pt.unmapPage vaddr) >>= fun r =>
        let pageSize := r.2.2
        if !pageSize.isAligned vaddr then .error .diverge
        else if size < pageSize.bytes then .error .panic
        else unmapLoop fuel r.1 (vaddr + pageSize.bytes) (size - pageSize.bytes)

/-- `unmap`. -/
def unmap (pt : PageTable) (r : MemoryRegion) : Except HvError PageTable :=
  pt.unmapLoop (r.size / 4096) r.start r.size

end PageTable

/-- `MemorySet`; the regions of the `BTreeMap` in the order of their keys. -/
structure MemorySet where
  regions : List MemoryRegion
  pt : PageTable

namespace MemorySet

section

variable (s : MemorySet)

/-- `regions.range(..start)`. -/
def before (start : ℕ) : List MemoryRegion := s.regions.filter (·.start < start)

/-- `regions.range(start..)`. -/
def notBefore (start : ℕ) : List MemoryRegion := s.regions.filter (start ≤ ·.start)

/-- `test_free_area`. -/
def testFreeArea (other : MemoryRegion) : Bool :=
  ((s.before other.start).getLast?.all fun r => !r.isOverlapWith other) &&
    ((s.notBefore other.start).head?.all fun r => !r.isOverlapWith other)

/-- `regions.insert(region.start, region)`. -/
def insertRegion (r : MemoryRegion) : List MemoryRegion :=
  s.before r.start ++ r :: s.notBefore (r.start + 1)

/-- `insert`. -/
def insert (r : MemoryRegion) : Except HvError MemorySet :=
  if !isAligned r.start || !isAligned r.size then .error .panic
  else if r.size = 0 then .ok s
  else if !s.testFreeArea r then .error .einval
  else (s.pt.map r).map fun pt => ⟨s.insertRegion r, pt⟩

/-- `delete`. -/
def delete (start : ℕ) : Except HvError MemorySet :=
  match s.regions.find? (·.start = start) with
  | some r => (s.pt.unmap r).map fun pt => ⟨s.regions.filter (·.start ≠ start), pt⟩
  | none => .error .einval

/-- `page_table_query`. -/
def pageTableQuery (vaddr : ℕ) : Except HvError (ℕ × MemFlags × PageSize) :=
  s.pt.query vaddr

end

/-- `new`. -/
def new (level root : ℕ) (mem : ℕ → ℕ → PageTableEntry) (frames : List ℕ) : MemorySet :=
  ⟨[], PageTable.new level root mem frames⟩

end MemorySet

/-! ## Page sizes -/

theorem PageSize.isAligned_iff {size : PageSize} {addr : ℕ} :
    size.isAligned addr = true ↔ size.bytes ∣ addr := by
  rw [isAligned, pageOffset, beq_iff_eq, dvd_iff_mod_eq_zero]

theorem isAligned_iff {addr : ℕ} : isAligned addr = true ↔ 4096 ∣ addr := by
  rw [isAligned, beq_iff_eq, dvd_iff_mod_eq_zero]

theorem PageSize.dvd_bytes (size : PageSize) : 4096 ∣ size.bytes := by
  cases size <;> decide

theorem PageSize.bytes_pos (size : PageSize) : 0 < size.bytes := by
  cases size <;> decide

variable {vaddr : ℕ} {α : Type} {r other : MemoryRegion}

/-- Both addresses are aligned to the size that is taken, where it is more than the least, and the
page fits. -/
theorem MemoryRegion.pageSize_spec (r : MemoryRegion) {size : ℕ} (hv : 4096 ∣ vaddr)
    (hs : 4096 ∣ size) (hpos : size ≠ 0) :
    (r.pageSize vaddr size).bytes ∣ vaddr ∧ (r.pageSize vaddr size).bytes ≤ size ∧
      (r.pageSize vaddr size = .size4K ∨ (r.pageSize vaddr size).bytes ∣ r.mapper.mapFn vaddr) := by
  unfold pageSize
  dsimp only
  split
  · next h =>
    simp only [Bool.and_eq_true, PageSize.isAligned_iff, decide_eq_true_eq] at h
    exact ⟨h.1.1.1, h.1.2, .inr h.1.1.2⟩
  · split
    · next h =>
      simp only [Bool.and_eq_true, PageSize.isAligned_iff, decide_eq_true_eq] at h
      exact ⟨h.1.1.1, h.1.2, .inr h.1.1.2⟩
    · exact ⟨hv, le_of_dvd (pos_of_ne_zero hpos) hs, .inl rfl⟩

/-- What an address is to be translated to: its page under the mapper, in the 48 bits of an
entry. -/
def MemoryRegion.physAddr (r : MemoryRegion) (vaddr : ℕ) : ℕ :=
  r.mapper.mapFn (vaddr / 4096 * 4096) % 2 ^ 48 / 4096 * 4096 + vaddr % 4096

/-- The addresses that a page starting at `vaddr` covers. -/
theorem PageSize.div_eq_iff (size : PageSize) {v : ℕ} (hd : size.bytes ∣ vaddr) :
    v / size.bytes = vaddr / size.bytes ↔ vaddr ≤ v ∧ v < vaddr + size.bytes := by
  obtain ⟨c, rfl⟩ := hd
  rw [Nat.mul_div_cancel_left c size.bytes_pos, Nat.div_eq_iff size.bytes_pos, Nat.mul_comm c]
  have := size.bytes_pos
  omega

/-- A page translates an address like the mapper does. -/
theorem MemoryRegion.physAddr_eq {off : UInt64} (hoff : r.mapper = .offset off) {size : PageSize}
    {v : ℕ} (hd : size.bytes ∣ vaddr) (hp : size = .size4K ∨ size.bytes ∣ r.mapper.mapFn vaddr)
    (hlt : vaddr < 2 ^ 48) (hv : v / size.bytes = vaddr / size.bytes) :
    size.alignDown (r.mapper.mapFn vaddr) % 2 ^ 48 / 4096 * 4096 + size.pageOffset v =
      r.physAddr v := by
  have hlt64 := off.toNat_lt
  rw [physAddr, hoff] at *
  cases size <;>
    (simp only [alignDown, pageOffset, bytes, Mapper.mapFn, reduceCtorEq,
      false_or, true_or] at *; omega)

/-! ## Mapping and unmapping a region -/

theorem ofPaging_eq_ok {x : Except PagingError α} {a : α} (h : ofPaging x = .ok a) : x = .ok a := by
  cases x with
  | error e => cases h
  | ok b =>
    cases h
    rfl

theorem map_eq_ok {ε β : Type} {x : Except ε α} {g : α → β} {b : β} (h : x.map g = .ok b) :
    ∃ a, x = .ok a ∧ b = g a := by
  cases x with
  | error e => cases h
  | ok a => exact ⟨a, rfl, (Except.ok.inj h).symm⟩

theorem ok_of_toOption {ε : Type} {x : Except ε α} {a : α} (h : x.toOption = some a) :
    x = .ok a := by
  cases x with
  | error e => cases h
  | ok b =>
    cases h
    rfl

theorem Mapper.exists_of_isOffset {m : Mapper} (h : m.isOffset = true) :
    ∃ off, m = .offset off := by
  cases m with
  | offset off => exact ⟨off, rfl⟩
  | fixed paddr => cases h

namespace PageTable

variable {pt pt' : PageTable} {tables : ℕ → ℕ → Option ℕ}

theorem pow_level_le (h : pt.Inv tables) : 2 ^ (12 + 9 * pt.level) ≤ 2 ^ 48 := by
  obtain hl | hl := h.level
  · rw [hl]
    decide
  · rw [hl]

variable {vaddr size fuel : ℕ}

/-- Fuel for the 4 KiB pages of a region is enough: more changes nothing. -/
theorem mapLoop_fuel (r : MemoryRegion) {n m : ℕ} (pt : PageTable) (hs : 4096 ∣ size)
    (hn : size / 4096 ≤ n) (hm : size / 4096 ≤ m) :
    pt.mapLoop r n vaddr size = pt.mapLoop r m vaddr size := by
  induction n generalizing m pt vaddr size with
  | zero =>
    have hzero : size = 0 := by omega
    cases m <;> simp [mapLoop, hzero]
  | succ n ih =>
    cases m with
    | zero =>
      have hzero : size = 0 := by omega
      simp [mapLoop, hzero]
    | succ m =>
      simp only [mapLoop]
      split
      · rfl
      · have hd := (r.pageSize vaddr size).dvd_bytes
        have hpos := (r.pageSize vaddr size).bytes_pos
        congr 1
        funext pt₁
        exact ih pt₁ (dvd_sub hs hd) (by omega) (by omega)

theorem unmapLoop_fuel {n m : ℕ} (pt : PageTable) (hs : 4096 ∣ size) (hn : size / 4096 ≤ n)
    (hm : size / 4096 ≤ m) :
    pt.unmapLoop n vaddr size = pt.unmapLoop m vaddr size := by
  induction n generalizing m pt vaddr size with
  | zero =>
    have hzero : size = 0 := by omega
    cases m <;> simp [unmapLoop, hzero]
  | succ n ih =>
    cases m with
    | zero =>
      have hzero : size = 0 := by omega
      simp [unmapLoop, hzero]
    | succ m =>
      simp only [unmapLoop]
      split
      · rfl
      congr 1
      funext r
      have hd := r.2.2.dvd_bytes
      have hpos := r.2.2.bytes_pos
      rw [ih r.1 (dvd_sub hs hd) (show (size - r.2.2.bytes) / 4096 ≤ n by omega)
        (show (size - r.2.2.bytes) / 4096 ≤ m by omega)]

/-- A successful run of the loop ends at once, or maps a page and goes on. -/
theorem mapLoop_eq_ok (h : pt.mapLoop r fuel vaddr size = .ok pt') :
    (size = 0 ∧ pt' = pt) ∨ (size ≠ 0 ∧ ∃ n pt₁, fuel = n + 1 ∧
      pt.mapPage ⟨vaddr, r.pageSize vaddr size⟩ (r.mapper.mapFn vaddr) r.flags = .ok pt₁ ∧
      pt₁.mapLoop r n (vaddr + (r.pageSize vaddr size).bytes)
        (size - (r.pageSize vaddr size).bytes) = .ok pt') := by
  by_cases hsize : size = 0
  · refine .inl ⟨hsize, ?_⟩
    cases fuel <;> rw [mapLoop, if_pos hsize] at h <;> exact (Except.ok.inj h).symm
  refine .inr ⟨hsize, ?_⟩
  cases fuel with
  | zero =>
    rw [mapLoop, if_neg hsize] at h
    cases h
  | succ n =>
    rw [mapLoop, if_neg hsize] at h
    obtain ⟨pt₁, hmap, hrest⟩ := exists_of_bind_eq_ok h
    exact ⟨n, pt₁, rfl, ofPaging_eq_ok hmap, hrest⟩

theorem unmapLoop_eq_ok (h : pt.unmapLoop fuel vaddr size = .ok pt') :
    (size = 0 ∧ pt' = pt) ∨ (size ≠ 0 ∧ ∃ n pt₁ paddr, ∃ pageSize : PageSize, fuel = n + 1 ∧
      pt.unmapPage vaddr = .ok (pt₁, paddr, pageSize) ∧ pageSize.bytes ∣ vaddr ∧
      pageSize.bytes ≤ size ∧
      pt₁.unmapLoop n (vaddr + pageSize.bytes) (size - pageSize.bytes) = .ok pt') := by
  by_cases hsize : size = 0
  · refine .inl ⟨hsize, ?_⟩
    cases fuel <;> rw [unmapLoop, if_pos hsize] at h <;> exact (Except.ok.inj h).symm
  refine .inr ⟨hsize, ?_⟩
  cases fuel with
  | zero =>
    rw [unmapLoop, if_neg hsize] at h
    cases h
  | succ n =>
    rw [unmapLoop, if_neg hsize] at h
    obtain ⟨⟨pt₁, paddr, pageSize⟩, hunmap, hrest⟩ := exists_of_bind_eq_ok h
    dsimp only at hrest
    split_ifs at hrest with halign hfit
    rw [Bool.not_eq_true', Bool.not_eq_false, PageSize.isAligned_iff] at halign
    exact ⟨n, pt₁, paddr, pageSize, rfl, ofPaging_eq_ok hunmap, halign, Nat.le_of_not_lt hfit,
      hrest⟩

/-- The loop of `map` adds the translation of the region's addresses from `vaddr` on. -/
theorem Inv.mapLoop {off : UInt64} (hoff : r.mapper = .offset off)
    (h : pt.Inv tables) (hv : 4096 ∣ vaddr) (hs : 4096 ∣ size)
    (hend : vaddr + size ≤ 2 ^ (12 + 9 * pt.level)) (hok : pt.mapLoop r fuel vaddr size = .ok pt') :
    ∃ tables', pt'.Inv tables' ∧ pt'.level = pt.level ∧ ∀ v p fl, pt'.Translates tables' v p fl ↔
      pt.Translates tables v p fl ∨ (vaddr ≤ v ∧ v < vaddr + size ∧
        p = r.physAddr v ∧ fl = r.flags &&& PageTableEntry.keptFlags) := by
  induction fuel using Nat.strong_induction_on generalizing pt tables vaddr size with
  | _ fuel ih =>
    obtain ⟨rfl, rfl⟩ | ⟨hpos, n, pt₁, rfl, hmap, hrest⟩ := mapLoop_eq_ok hok
    · exact ⟨tables, h, rfl, fun v p fl => (or_iff_left fun hc => by omega).symm⟩
    obtain ⟨hdv, hle, hdp⟩ := r.pageSize_spec hv hs hpos
    generalize r.pageSize vaddr size = pageSize at *
    have hd := pageSize.dvd_bytes
    have hspace : pt.InSpace vaddr := lt_of_lt_of_le (by omega) hend
    have hlt : vaddr < 2 ^ 48 := lt_of_lt_of_le hspace (pow_level_le h)
    obtain ⟨tables₁, h₁, hlevel₁, ht₁⟩ := h.mapPage hspace hmap
    obtain ⟨tables', h', hlevel', ht'⟩ := ih n n.lt_succ_self h₁ (Nat.dvd_add hv hd)
      (Nat.dvd_sub hs hd) (by rw [hlevel₁]; omega) hrest
    refine ⟨tables', h', hlevel'.trans hlevel₁, fun v p fl => ?_⟩
    rw [ht', ht₁, or_assoc]
    refine or_congr_right ?_
    -- the page at `vaddr` and the rest make up the range
    have hpage : v / pageSize.bytes = vaddr / pageSize.bytes →
        pageSize.alignDown (r.mapper.mapFn vaddr) % 2 ^ 48 / 4096 * 4096 + pageSize.pageOffset v =
          r.physAddr v := MemoryRegion.physAddr_eq hoff hdv hdp hlt
    have hrange := pageSize.div_eq_iff (v := v) hdv
    constructor
    · rintro (⟨hin, hp, hfl⟩ | ⟨hge, hlt, hmaps⟩)
      · exact ⟨(hrange.mp hin).1, by have := (hrange.mp hin).2; omega, hp.trans (hpage hin), hfl⟩
      · exact ⟨by omega, by omega, hmaps⟩
    · rintro ⟨hge, hlt, hp, hfl⟩
      by_cases hin : v / pageSize.bytes = vaddr / pageSize.bytes
      · exact .inl ⟨hin, hp.trans (hpage hin).symm, hfl⟩
      · exact .inr ⟨by omega, by omega, hp, hfl⟩

/-- The loop of `unmap` removes the translation of the addresses from `vaddr` on. -/
theorem Inv.unmapLoop (h : pt.Inv tables) (hend : vaddr + size ≤ 2 ^ (12 + 9 * pt.level))
    (hok : pt.unmapLoop fuel vaddr size = .ok pt') :
    pt'.Inv tables ∧ pt'.level = pt.level ∧ ∀ v p fl, pt'.Translates tables v p fl ↔
      pt.Translates tables v p fl ∧ ¬(vaddr ≤ v ∧ v < vaddr + size) := by
  induction fuel using Nat.strong_induction_on generalizing pt vaddr size with
  | _ fuel ih =>
    obtain ⟨rfl, rfl⟩ | ⟨hpos, n, pt₁, paddr, pageSize, rfl, hunmap, hdv, hle, hrest⟩ :=
      unmapLoop_eq_ok hok
    · exact ⟨h, rfl, fun v p fl => (and_iff_left (by omega)).symm⟩
    have hspace : pt.InSpace vaddr := lt_of_lt_of_le (by omega) hend
    obtain ⟨h₁, hlevel₁, ht₁⟩ := h.unmapPage hspace hunmap
    obtain ⟨h', hlevel', ht'⟩ := ih n n.lt_succ_self h₁ (by rw [hlevel₁]; omega) hrest
    refine ⟨h', hlevel'.trans hlevel₁, fun v p fl => ?_⟩
    rw [ht', ht₁, ne_eq, pageSize.div_eq_iff hdv, and_assoc]
    refine and_congr_right fun _ => ?_
    omega

/-! ## Addresses beyond the address space -/

theorem pageOffset_mod (size : PageSize) {l : ℕ} (hl : l = 3 ∨ l = 4) (vaddr : ℕ) :
    size.pageOffset (vaddr % 2 ^ (12 + 9 * l)) = size.pageOffset vaddr := by
  refine mod_mod_of_dvd vaddr ?_
  obtain rfl | rfl := hl <;> cases size <;> decide

theorem getEntryFromP3_congr {vaddr' p3 : ℕ} (h3 : p3Index vaddr' = p3Index vaddr)
    (h2 : p2Index vaddr' = p2Index vaddr) (h1 : p1Index vaddr' = p1Index vaddr) :
    pt.getEntryFromP3 p3 vaddr' = pt.getEntryFromP3 p3 vaddr := by
  simp only [getEntryFromP3, h3, h2, h1]

/-- The indices of a walk wrap around at the end of the address space. -/
theorem getEntryMut_mod (hl : pt.level = 3 ∨ pt.level = 4) (vaddr : ℕ) :
    pt.getEntryMut (vaddr % 2 ^ (12 + 9 * pt.level)) = pt.getEntryMut vaddr := by
  have hindex : ∀ l < pt.level, pageNumber (vaddr % 2 ^ (12 + 9 * pt.level)) / 512 ^ l % 512 =
      pageNumber vaddr / 512 ^ l % 512 := by
    intro l hlt
    have hpow : 2 ^ (12 + 9 * pt.level) = 4096 * 512 ^ l * 512 * 512 ^ (pt.level - l - 1) := by
      rw [mul_assoc, mul_assoc, ← pow_succ', ← pow_add, pow_add, pow_mul]
      congr 2
      omega
    rw [pageNumber, pageNumber, Nat.div_div_eq_div_mul, Nat.div_div_eq_div_mul, hpow, Nat.mul_assoc,
      mod_mul_right_div_self, mod_mul_right_mod]
  have h3 : p3Index (vaddr % 2 ^ (12 + 9 * pt.level)) = p3Index vaddr := by
    rw [p3Index_eq, p3Index_eq, hindex 2 (by omega)]
  have h2 : p2Index (vaddr % 2 ^ (12 + 9 * pt.level)) = p2Index vaddr := by
    rw [p2Index_eq, p2Index_eq, hindex 1 (by omega)]
  have h1 : p1Index (vaddr % 2 ^ (12 + 9 * pt.level)) = p1Index vaddr := by
    rw [p1Index_eq, p1Index_eq, hindex 0 (by omega)]
  unfold getEntryMut
  simp only [getEntryFromP3_congr h3 h2 h1]
  split
  · next h4 =>
    rw [p4Index_eq, p4Index_eq, hindex 3 (by omega)]
  · rfl

theorem query_mod (hl : pt.level = 3 ∨ pt.level = 4) (vaddr : ℕ) :
    pt.query (vaddr % 2 ^ (12 + 9 * pt.level)) = pt.query vaddr := by
  simp only [query, getEntryMut_mod hl, pageOffset_mod _ hl]

end PageTable

/-! ## The regions and their translation -/

namespace MemoryRegion

/-- The addresses of a region. -/
def Covers (r : MemoryRegion) (vaddr : ℕ) : Prop := r.start ≤ vaddr ∧ vaddr < r.start + r.size

/-- What a region translates an address to. -/
def Maps (r : MemoryRegion) (vaddr paddr : ℕ) (flags : MemFlags) : Prop :=
  r.Covers vaddr ∧ paddr = r.physAddr vaddr ∧ flags = r.flags &&& PageTableEntry.keptFlags

/-- One region ends before the other starts. -/
def Precedes (r r' : MemoryRegion) : Prop := r.start + r.size ≤ r'.start

def SameOrApart (r r' : MemoryRegion) : Prop := r = r' ∨ r.Precedes r' ∨ r'.Precedes r

instance : Std.Symm SameOrApart where
  symm _ _ h := h.imp Eq.symm Or.symm

theorem not_isOverlapWith :
    (!r.isOverlapWith other) = true ↔ r.Precedes other ∨ other.Precedes r := by
  simp [isOverlapWith, Precedes]

end MemoryRegion

namespace MemorySet

/-- What is kept of every region: it can be inserted, and an offset maps it below the end of the
address space. -/
structure ValidRegion (level : ℕ) (r : MemoryRegion) : Prop where
  pos : 0 < r.size
  start_dvd : 4096 ∣ r.start
  size_dvd : 4096 ∣ r.size
  offset : ∃ off, r.mapper = .offset off
  below : r.start + r.size ≤ 2 ^ (12 + 9 * level)

/-- The page table translates what the regions, which are in order and disjoint, say. -/
structure Inv (level : ℕ) (s : MemorySet) : Prop where
  level_eq : s.pt.level = level
  sorted : s.regions.Pairwise MemoryRegion.Precedes
  valid : ∀ r ∈ s.regions, ValidRegion level r
  table : ∃ tables, s.pt.Inv tables ∧ ∀ v p fl, s.pt.Translates tables v p fl ↔
    ∃ r ∈ s.regions, r.Maps v p fl

variable {level : ℕ} {s s' : MemorySet} {r : MemoryRegion}

/-- Two regions of the set are the same or apart. -/
theorem Inv.apart (h : s.Inv level) {r' : MemoryRegion} (hr : r ∈ s.regions)
    (hr' : r' ∈ s.regions) : r.SameOrApart r' :=
  List.Pairwise.forall_of_forall (fun _ _ => .inl rfl)
    (h.sorted.imp fun hp => .inr (.inl hp)) hr hr'

theorem eq_or_rel_getLast {α : Type} {R : α → α → Prop} {l : List α} (h : l.Pairwise R) {a b : α}
    (ha : a ∈ l) (hb : l.getLast? = some b) : a = b ∨ R a b := by
  obtain ⟨ys, rfl⟩ := getLast?_eq_some_iff.mp hb
  obtain hys | hb := mem_append.mp ha
  · exact .inr ((pairwise_append.mp h).2.2 a hys b mem_cons_self)
  · exact .inl (mem_singleton.mp hb)

theorem eq_or_rel_head {α : Type} {R : α → α → Prop} {l : List α} (h : l.Pairwise R) {a b : α}
    (ha : a ∈ l) (hb : l.head? = some b) : a = b ∨ R b a := by
  obtain ⟨ys, rfl⟩ := head?_eq_some_iff.mp hb
  obtain rfl | hys := mem_cons.mp ha
  · exact .inl rfl
  · exact .inr ((pairwise_cons.mp h).1 a hys)

section

variable (h : s.Inv level)

include h

/-- The neighbours on the two sides tell whether an area is free. -/
theorem Inv.free_of_testFreeArea (hpos : 0 < other.size)
    (htest : s.testFreeArea other = true) (hr : r ∈ s.regions) :
    (r.start < other.start ∧ r.Precedes other) ∨ (other.start < r.start ∧ other.Precedes r) := by
  rw [testFreeArea, Bool.and_eq_true] at htest
  obtain ⟨hbefore, hafter⟩ := htest
  have hneighbour : ∀ b ∈ s.regions, 0 < b.size := fun b hb => (h.valid b hb).pos
  by_cases hlt : r.start < other.start
  · have hmem : r ∈ s.before other.start := mem_filter.mpr ⟨hr, by simpa using hlt⟩
    cases hlast : (s.before other.start).getLast? with
    | none =>
      rw [getLast?_eq_none_iff.mp hlast] at hmem
      cases hmem
    | some b =>
      rw [hlast, Option.all_some, MemoryRegion.not_isOverlapWith] at hbefore
      have hb := mem_filter.mp (mem_of_getLast? hlast)
      have hbstart : b.start < other.start := by simpa using hb.2
      unfold MemoryRegion.Precedes at *
      -- the last region before the area is this one or comes after it
      obtain rfl | hprec := eq_or_rel_getLast (h.sorted.filter _) hmem hlast
      · omega
      · unfold MemoryRegion.Precedes at hprec
        omega
  · have hmem : r ∈ s.notBefore other.start := mem_filter.mpr ⟨hr, by simpa using hlt⟩
    cases hhead : (s.notBefore other.start).head? with
    | none =>
      rw [head?_eq_none_iff.mp hhead] at hmem
      cases hmem
    | some b =>
      rw [hhead, Option.all_some, MemoryRegion.not_isOverlapWith] at hafter
      have hb := mem_filter.mp (mem_of_head? hhead)
      have hbstart : other.start ≤ b.start := by simpa using hb.2
      have hbpos := hneighbour b hb.1
      unfold MemoryRegion.Precedes at *
      obtain rfl | hprec := eq_or_rel_head (h.sorted.filter _) hmem hhead
      · omega
      · unfold MemoryRegion.Precedes at hprec
        omega

/-- Where the area is free, the new region takes its place among the others. -/
theorem Inv.insertRegion (hr : ValidRegion level r) (htest : s.testFreeArea r = true) :
    (s.insertRegion r).Pairwise MemoryRegion.Precedes ∧
      ∀ x, x ∈ s.insertRegion r ↔ x ∈ s.regions ∨ x = r := by
  have hfree := fun {x} (hx : x ∈ s.regions) => h.free_of_testFreeArea hr.pos htest hx
  have hbefore : ∀ {x}, x ∈ s.before r.start → x.Precedes r := by
    intro x hx
    obtain ⟨hmem, hlt⟩ := mem_filter.mp hx
    obtain ⟨-, hp⟩ | ⟨hgt, -⟩ := hfree hmem
    · exact hp
    · exact absurd (of_decide_eq_true hlt) (by omega)
  have hafter : ∀ {x}, x ∈ s.notBefore (r.start + 1) → r.Precedes x := by
    intro x hx
    obtain ⟨hmem, hle⟩ := mem_filter.mp hx
    have hle := of_decide_eq_true hle
    obtain ⟨hlt, -⟩ | ⟨-, hp⟩ := hfree hmem
    · omega
    · exact hp
  constructor
  · rw [MemorySet.insertRegion, pairwise_append, pairwise_cons]
    refine ⟨h.sorted.filter _, ⟨fun x hx => hafter hx, h.sorted.filter _⟩, ?_⟩
    intro x hx y hy
    obtain rfl | hy := mem_cons.mp hy
    · exact hbefore hx
    · have hxr := hbefore hx
      have hry := hafter hy
      unfold MemoryRegion.Precedes at *
      omega
  · intro x
    rw [MemorySet.insertRegion, mem_append, mem_cons, before, notBefore, mem_filter,
      mem_filter, decide_eq_true_eq, decide_eq_true_eq]
    constructor
    · rintro (⟨hx, -⟩ | rfl | ⟨hx, -⟩)
      · exact .inl hx
      · exact .inr rfl
      · exact .inl hx
    · rintro (hx | rfl)
      · obtain ⟨hlt, -⟩ | ⟨hgt, -⟩ := hfree hx
        · exact .inl ⟨hx, hlt⟩
        · exact .inr (.inr ⟨hx, hgt⟩)
      · exact .inr (.inl rfl)

/-- A successful `insert` adds a region and its translation. -/
theorem Inv.insert (hoff : ∃ off, r.mapper = .offset off)
    (hbelow : r.start + r.size ≤ 2 ^ (12 + 9 * level)) (hok : s.insert r = .ok s') :
    s'.Inv level := by
  unfold MemorySet.insert at hok
  split_ifs at hok with halign hsize htest
  · cases hok
    exact h
  rw [Bool.or_eq_true, Bool.not_eq_true', Bool.not_eq_true', not_or, Bool.not_eq_false,
    Bool.not_eq_false, isAligned_iff, isAligned_iff] at halign
  rw [Bool.not_eq_true', Bool.not_eq_false] at htest
  have hvalid : ValidRegion level r :=
    ⟨pos_of_ne_zero hsize, halign.1, halign.2, hoff, hbelow⟩
  obtain ⟨hsorted, hmem⟩ := h.insertRegion hvalid htest
  obtain ⟨off, hoff⟩ := hoff
  obtain ⟨pt', hmap, rfl⟩ := map_eq_ok hok
  rw [PageTable.map, isAligned_iff.mpr halign.1, isAligned_iff.mpr halign.2] at hmap
  obtain ⟨tables, hinv, ht⟩ := h.table
  obtain ⟨tables', hinv', hlevel', ht'⟩ := hinv.mapLoop hoff halign.1 halign.2
    (by rw [h.level_eq]; exact hbelow) hmap
  refine ⟨hlevel'.trans h.level_eq, hsorted, ?_, tables', hinv', ?_⟩
  · intro x hx
    obtain hx | rfl := (hmem x).mp hx
    · exact h.valid x hx
    · exact hvalid
  · intro v p fl
    rw [ht', ht]
    simp only [hmem, or_and_right, exists_or, exists_eq_left, MemoryRegion.Maps,
      MemoryRegion.Covers, and_assoc]

/-- A successful `delete` removes a region and its translation. -/
theorem Inv.delete {start : ℕ} (hok : s.delete start = .ok s') : s'.Inv level := by
  unfold MemorySet.delete at hok
  split at hok
  · next r hfind =>
    have hr := mem_of_find?_eq_some hfind
    have hstart : r.start = start := by simpa using find?_some hfind
    have hvalid := h.valid r hr
    obtain ⟨pt', hunmap, rfl⟩ := map_eq_ok hok
    obtain ⟨tables, hinv, ht⟩ := h.table
    obtain ⟨hinv', hlevel', ht'⟩ := hinv.unmapLoop (by rw [h.level_eq]; exact hvalid.below) hunmap
    refine ⟨hlevel'.trans h.level_eq, h.sorted.filter _, ?_, tables, hinv', ?_⟩
    · exact fun x hx => h.valid x (mem_filter.mp hx).1
    · intro v p fl
      rw [ht', ht]
      simp only [mem_filter, decide_eq_true_eq]
      constructor
      · rintro ⟨⟨x, hx, hmaps⟩, hout⟩
        refine ⟨x, ⟨hx, fun hxs => hout ?_⟩, hmaps⟩
        -- a region with this start is the one that is removed
        obtain rfl | hp | hp := h.apart hx hr
        · exact hmaps.1
        · have := (h.valid x hx).pos
          unfold MemoryRegion.Precedes at hp
          omega
        · have := hvalid.pos
          unfold MemoryRegion.Precedes at hp
          omega
      · rintro ⟨x, ⟨hx, hne⟩, hmaps⟩
        refine ⟨⟨x, hx, hmaps⟩, fun hin => ?_⟩
        obtain ⟨⟨hle, hlt⟩, -⟩ := hmaps
        obtain rfl | hp | hp := h.apart hx hr
        · exact hne hstart
        · unfold MemoryRegion.Precedes at hp
          omega
        · unfold MemoryRegion.Precedes at hp
          omega
  · cases hok

/-! ## Runs -/

/-- The calls that change a memory set. -/
inductive Call
  | insert (r : MemoryRegion)
  | delete (start : ℕ)

/-- A successful call. -/
def step (s : MemorySet) : Call → Option MemorySet
  | .insert r => (s.insert r).toOption
  | .delete start => (s.delete start).toOption

/-- The regions inserted are mapped by an offset and lie below the end of the address space. -/
def OffsetMapped (s : MemorySet) : Call → Prop
  | .insert r => r.mapper.isOffset = true ∧ r.start + r.size ≤ 2 ^ (12 + 9 * s.pt.level)
  | .delete _ => True

instance (s : MemorySet) (c : Call) : Decidable (s.OffsetMapped c) := by
  cases c <;> unfold OffsetMapped <;> infer_instance

/-- `page_table_query` answers what the regions say about an address, reduced to the address
space. -/
def AnswersRegions (s : MemorySet) : Prop :=
  ∀ v, let va := v % 2 ^ (12 + 9 * s.pt.level)
    (∃ r ∈ s.regions, r.Covers va ∧ ∃ size, s.pageTableQuery v =
      .ok (r.physAddr va, r.flags &&& PageTableEntry.keptFlags, size)) ∨
    ((∀ r ∈ s.regions, ¬r.Covers va) ∧ s.pageTableQuery v = .error (.paging .notMapped))

theorem Inv.answersRegions : s.AnswersRegions := by
  obtain ⟨tables, hinv, ht⟩ := h.table
  intro v
  have hspace : s.pt.InSpace (v % 2 ^ (12 + 9 * s.pt.level)) := Nat.mod_lt _ (Nat.two_pow_pos _)
  rw [pageTableQuery, ← PageTable.query_mod hinv.level]
  obtain ⟨paddr, flags, size, hq, hiff⟩ | ⟨hq, hnone⟩ := hinv.query hspace
  · obtain ⟨r, hr, hcov, hp, hfl⟩ := (ht _ _ _).mp ((hiff paddr flags).mpr ⟨rfl, rfl⟩)
    exact .inl ⟨r, hr, hcov, size, by rw [hq, hp, hfl]⟩
  · refine .inr ⟨fun r hr hcov => ?_, hq⟩
    exact hnone _ _ ((ht _ _ _).mpr ⟨r, hr, hcov, rfl, rfl⟩)

end

/-- **Stage-2 translation is that of the regions.** After every sequence of successful insertions
and deletions, the regions are pairwise disjoint and a query answers what they say. -/
theorem translation_eq_regions {level root : ℕ} (hlevel : level = 3 ∨ level = 4)
    (mem : ℕ → ℕ → PageTableEntry) {frames : List ℕ} (hframes : PageTable.Supply root frames)
    {s : MemorySet} (h : Reach step OffsetMapped (MemorySet.new level root mem frames) s) :
    s.pt.level = level ∧ s.regions.Pairwise (fun r r' => ∀ v, ¬(r.Covers v ∧ r'.Covers v)) ∧
      s.AnswersRegions := by
  have hinv : s.Inv level := by
    refine h.invariant (Inv level) ?_ ?_
    · obtain ⟨tables, hinv, hnone⟩ := PageTable.Inv.new hlevel mem hframes
      refine ⟨rfl, .nil, fun r hr => absurd hr not_mem_nil, tables, hinv, fun v p fl => ?_⟩
      refine iff_of_false (hnone v p fl) ?_
      rintro ⟨r, hr, -⟩
      exact absurd hr not_mem_nil
    · intro s c s' hinv hok hs
      cases c with
      | insert r =>
        refine hinv.insert (Mapper.exists_of_isOffset hok.1) ?_ (ok_of_toOption hs)
        rw [← hinv.level_eq]
        exact hok.2
      | delete start => exact hinv.delete (ok_of_toOption hs)
  refine ⟨hinv.level_eq, hinv.sorted.imp fun hp v hv => ?_, hinv.answersRegions⟩
  obtain ⟨⟨-, hlt⟩, ⟨hle, -⟩⟩ := hv
  unfold MemoryRegion.Precedes at hp
  omega

/-! ## A page table of three levels -/

/-- A new memory set with the root at 0x1000 and three more frames. -/
def sample : MemorySet := MemorySet.new 3 0x1000 (fun _ _ => 0) [0x2000, 0x3000, 0x4000]

theorem sample_supply : PageTable.Supply 0x1000 [0x2000, 0x3000, 0x4000] where
  nodup := by decide
  frameAddr := by
    intro f hf
    simp only [mem_cons, not_mem_nil, or_false] at hf
    unfold PageTable.FrameAddr
    omega

/-- A readable region of the given start, size and offset. -/
def sampleRegion (start size : ℕ) (off : UInt64) : MemoryRegion :=
  ⟨start, size, MemFlags.read, .offset off⟩

/-- A region of a 2 MiB and a 4 KiB page stays, one of a single page comes and goes. -/
theorem translation_eq_regions_sample :
    ∃ s, Reach step OffsetMapped sample s ∧ s.regions = [sampleRegion 0x200000 0x201000 0] ∧
      s.AnswersRegions := by
  have hrun : (run step OffsetMapped sample [.insert (sampleRegion 0x200000 0x201000 0),
      .insert (sampleRegion 0x1000 0x1000 0), .delete 0x1000]).map MemorySet.regions =
        some [sampleRegion 0x200000 0x201000 0] := by decide +kernel
  obtain ⟨s, hreach, hregions⟩ := exists_of_run hrun
  exact ⟨s, hreach, hregions,
    (translation_eq_regions (.inl rfl) (fun _ _ => 0) sample_supply hreach).2.2⟩

/-- With one region from 0x1000 to 0x2000, the address 0x1000 beyond the end of the address space is
translated as well; and a region that its mapper maps to the address 2^48 is translated to 0. -/
theorem translation_beyond_regions :
    (run step OffsetMapped sample [.insert (sampleRegion 0x1000 0x1000 0)]).map
      (fun s => (s.regions, s.pageTableQuery (2 ^ 39 + 0x1000))) =
        some ([sampleRegion 0x1000 0x1000 0], .ok (0x1000, MemFlags.read, .size4K)) ∧
    ((sampleRegion 0x1000 0x1000 0xffff000000001000).mapper.mapFn 0x1000 = 2 ^ 48 ∧
      (run step OffsetMapped sample [.insert (sampleRegion 0x1000 0x1000 0xffff000000001000)]).map
        (fun s => s.pageTableQuery 0x1000) = some (.ok (0, MemFlags.read, .size4K))) := by
  decide +kernel

end MemorySet

end HvisorRux.Stage2
