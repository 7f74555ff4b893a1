import HvisorRux.Rux.Paging.Operations
import Mathlib.Data.List.Pairwise

/-!
# The page table refines a map of pages

The abstract model is a list of pages that do not overlap. Mapping adds a page, unmapping removes
the page that covers an address, mapping a region adds pages that follow one another, and unmapping
a region removes the pages in it. Every history of calls of the page table is a history of that
model with the same answers, and afterwards `query` answers as the pages say.
-/

namespace HvisorRux.Rux.Paging

open Common GenericPTE LawfulPTE List PageTable64 PageSize Nat

/-- A page that is mapped. -/
structure MappedPage where
  vaddr : ℕ
  size : PageSize
  paddr : ℕ
  flags : MappingFlags

namespace MappedPage

def Covers (p : MappedPage) (vaddr : ℕ) : Prop :=
  p.vaddr ≤ vaddr ∧ vaddr < p.vaddr + p.size.bytes
deriving Decidable

/-- No address is in both pages. -/
def Apart (p p' : MappedPage) : Prop :=
  p.vaddr + p.size.bytes ≤ p'.vaddr ∨ p'.vaddr + p'.size.bytes ≤ p.vaddr

instance : Std.Symm Apart := ⟨fun _ _ h => h.symm⟩

theorem Apart.not_covers {p p' : MappedPage} {vaddr : ℕ} (h : p.Apart p') (hc : p.Covers vaddr) :
    ¬p'.Covers vaddr := by
  unfold Covers at *
  unfold Apart at h
  omega

/-- What `query` has to answer. -/
def lookup (pages : List MappedPage) (vaddr : ℕ) :
    Except PagingError (ℕ × MappingFlags × PageSize) :=
  match pages.find? fun p => p.Covers vaddr with
  | some p => .ok (p.paddr + (vaddr - p.vaddr), p.flags, p.size)
  | none => .error .notMapped

/-- The pages follow one another from `vaddr` and `paddr` on and are `size` bytes together. -/
def Consecutive (flags : MappingFlags) : (vaddr paddr size : ℕ) → List MappedPage → Prop
  | _, _, size, [] => size = 0
  | vaddr, paddr, size, p :: ps =>
    p.vaddr = vaddr ∧ p.paddr = paddr ∧ p.flags = flags ∧ p.size.bytes ≤ size ∧
      Consecutive flags (vaddr + p.size.bytes) (paddr + p.size.bytes) (size - p.size.bytes) ps

end MappedPage

/-- The calls. -/
inductive Call
  | map (vaddr target : ℕ) (pageSize : PageSize) (flags : MappingFlags)
  | unmap (vaddr : ℕ)
  | mapRegion (vaddr paddr size : ℕ) (flags : MappingFlags) (allowHuge : Bool)
  | unmapRegion (vaddr size : ℕ)

/-- What a call returns; only `unmap` returns a value. -/
abbrev Answer := Except PagingError (Option (ℕ × PageSize))

/-- The calls on a map of pages, with their answers. -/
inductive PageMapStep : List MappedPage → Call → Answer → List MappedPage → Prop
  | map (pages : List MappedPage) (vaddr target : ℕ) (size : PageSize) (flags : MappingFlags) :
      PageMapStep pages (.map vaddr target size flags) (.ok none)
        (⟨size.alignDown vaddr, size, size.alignDown target, flags⟩ :: pages)
  | mapFails (pages : List MappedPage) (vaddr target : ℕ) (size : PageSize) (flags : MappingFlags)
      (e : PagingError) : PageMapStep pages (.map vaddr target size flags) (.error e) pages
  | unmap {pages : List MappedPage} {vaddr : ℕ} {p : MappedPage} : p ∈ pages → p.Covers vaddr →
      PageMapStep pages (.unmap vaddr) (.ok (some (p.paddr, p.size)))
        (pages.filter fun p => ¬p.Covers vaddr)
  | unmapFails {pages : List MappedPage} {vaddr : ℕ} : (∀ p ∈ pages, ¬p.Covers vaddr) →
      PageMapStep pages (.unmap vaddr) (.error .notMapped) pages
  | mapRegion {pages ps : List MappedPage} {vaddr paddr size : ℕ} {flags : MappingFlags}
      {allowHuge : Bool} : MappedPage.Consecutive flags vaddr paddr size ps →
      (allowHuge = false → ∀ p ∈ ps, p.size = .size4K) →
      PageMapStep pages (.mapRegion vaddr paddr size flags allowHuge) (.ok none)
        (ps.reverse ++ pages)
  /-- the first pages of the region may have been mapped -/
  | mapRegionFails {pages ps : List MappedPage} {vaddr paddr size mapped : ℕ}
      {flags : MappingFlags} {allowHuge : Bool} {e : PagingError} :
      MappedPage.Consecutive flags vaddr paddr mapped ps → (ps ≠ [] → mapped < size) →
      (allowHuge = false → ∀ p ∈ ps, p.size = .size4K) →
      PageMapStep pages (.mapRegion vaddr paddr size flags allowHuge) (.error e)
        (ps.reverse ++ pages)
  | unmapRegion (pages : List MappedPage) (vaddr size : ℕ) :
      PageMapStep pages (.unmapRegion vaddr size) (.ok none)
        (pages.filter fun p => ¬(vaddr ≤ p.vaddr ∧ p.vaddr < vaddr + size))

/-- Histories of the map of pages: the calls and their answers, the latest first. -/
inductive PageMapRun : List (Call × Answer) → List MappedPage → Prop
  | nil : PageMapRun [] []
  | step {log : List (Call × Answer)} {pages pages' : List MappedPage} {c : Call} {r : Answer} :
      PageMapRun log pages → PageMapStep pages c r pages' → PageMapRun ((c, r) :: log) pages'

namespace PageTable64

section Histories

variable {PTE : Type} [GenericPTE PTE]

/-- A call of the page table; `none` is a failed assertion. -/
def exec (pt : PageTable64 PTE) : Call → Option (PageTable64 PTE × Answer)
  | .map vaddr target size flags =>
    let r := pt.map vaddr target size flags
    some (r.1, r.2.map fun _ => none)
  | .unmap vaddr =>
    let r := pt.unmap vaddr
    some (r.1, r.2.map some)
  | .mapRegion vaddr paddr size flags allowHuge =>
    let r := pt.mapRegion vaddr paddr size flags allowHuge
    some (r.1, r.2.map fun _ => none)
  | .unmapRegion vaddr size =>
    (pt.unmapRegion vaddr size).map fun r => (r.1, r.2.map fun _ => none)

/-- The region consists of whole mapped pages. -/
inductive WholePages (pt : PageTable64 PTE) : (vaddr size : ℕ) → Prop
  | done (vaddr : ℕ) : WholePages pt vaddr 0
  | page {vaddr size paddr : ℕ} {flags : MappingFlags} {pageSize : PageSize} :
      pt.query vaddr = .ok (paddr, flags, pageSize) → pageSize.isAligned vaddr = true →
      WholePages pt (vaddr + pageSize.bytes) size → WholePages pt vaddr (pageSize.bytes + size)

/-- The arguments are addresses below `2 ^ 48` and flags that the format keeps, and a region to
unmap consists of whole mapped pages. -/
def Admits [LawfulPTE PTE] (pt : PageTable64 PTE) : Call → Prop
  | .map vaddr target _ flags => vaddr < 2 ^ 48 ∧ target < 2 ^ 48 ∧ Keeps PTE flags
  | .unmap vaddr => vaddr < 2 ^ 48
  | .mapRegion vaddr paddr size flags _ =>
    vaddr + size ≤ 2 ^ 48 ∧ paddr + size ≤ 2 ^ 48 ∧ Keeps PTE flags
  | .unmapRegion vaddr size => vaddr + size ≤ 2 ^ 48 ∧ pt.WholePages vaddr size

/-- Histories of the page table: the calls and their answers, the latest first. -/
inductive Run [LawfulPTE PTE] (pt₀ : PageTable64 PTE) :
    List (Call × Answer) → PageTable64 PTE → Prop
  | nil : Run pt₀ [] pt₀
  | step {log : List (Call × Answer)} {pt pt' : PageTable64 PTE} {c : Call} {r : Answer} :
      Run pt₀ log pt → pt.Admits c → pt.exec c = some (pt', r) → Run pt₀ ((c, r) :: log) pt'

end Histories

variable {PTE : Type} [GenericPTE PTE] [LawfulPTE PTE] {pt pt' : PageTable64 PTE}
  {tables : ℕ → ℕ → Option ℕ} {pages : List MappedPage} {vaddr paddr size : ℕ}
  {flags : MappingFlags} {p : MappedPage}

/-- A page as `map` makes it. -/
structure PageOk (PTE : Type) [GenericPTE PTE] [LawfulPTE PTE] (p : MappedPage) : Prop where
  aligned : p.size.bytes ∣ p.vaddr
  frame : FrameAddr p.paddr
  keeps : Keeps PTE p.flags

/-- The leaves of the tree are the pages. -/
structure Represents (pt : PageTable64 PTE) (tables : ℕ → ℕ → Option ℕ)
    (pages : List MappedPage) : Prop where
  inv : pt.Inv tables
  ok : ∀ p ∈ pages, PageOk PTE p
  holds : ∀ l q e, pt.Holds tables l q e ↔ ∃ p ∈ pages, p.size.level = l ∧
    p.vaddr / p.size.bytes = q ∧ newPage p.paddr p.flags p.size.isHuge = e
  apart : pages.Pairwise MappedPage.Apart

/-! ## Pages and leaves -/

theorem covers_iff (h : p.size.bytes ∣ p.vaddr) :
    p.Covers vaddr ↔ p.vaddr / p.size.bytes = vaddr / p.size.bytes := by
  obtain ⟨q, hq⟩ := h
  have hpos := p.size.bytes_pos
  rw [MappedPage.Covers, hq, Nat.mul_div_cancel_left q hpos, eq_comm,
    Nat.div_eq_iff hpos, Nat.mul_comm q]
  omega

theorem covers_self (p : MappedPage) : p.Covers p.vaddr :=
  ⟨le_rfl, Nat.lt_add_of_pos_right p.size.bytes_pos⟩

namespace Represents

section

variable (h : pt.Represents tables pages) {size : PageSize}

include h

/-- The pages that cover an address are the leaves on the way to it. -/
theorem holds_iff {e : PTE} :
    pt.Holds tables size.level (pageNumber vaddr / 512 ^ size.level) e ↔
      ∃ p ∈ pages, p.size = size ∧ p.Covers vaddr ∧ newPage p.paddr p.flags p.size.isHuge = e := by
  rw [h.holds, pageNumber_div]
  refine exists_congr fun p => and_congr_right fun hp => ?_
  constructor
  · rintro ⟨hl, hq, he⟩
    cases level_inj hl
    exact ⟨rfl, (covers_iff (h.ok p hp).aligned).mpr hq, he⟩
  · rintro ⟨rfl, hc, he⟩
    exact ⟨rfl, (covers_iff (h.ok p hp).aligned).mp hc, he⟩

theorem holds_of_covers (hp : p ∈ pages) (hc : p.Covers vaddr) :
    pt.Holds tables p.size.level (pageNumber vaddr / 512 ^ p.size.level)
      (newPage p.paddr p.flags p.size.isHuge) :=
  h.holds_iff.mpr ⟨p, hp, rfl, hc, rfl⟩

/-- At most one page covers an address. -/
theorem eq_of_covers {p' : MappedPage} (hp : p ∈ pages) (hp' : p' ∈ pages) (hc : p.Covers vaddr)
    (hc' : p'.Covers vaddr) : p = p' := by
  by_contra hne
  exact (h.apart.forall hp hp' hne).not_covers hc hc'

/-- A leaf that covers an address is a page that covers it. -/
theorem page_of_holds {paddr : ℕ} (hframe : FrameAddr paddr) (hkeeps : Keeps PTE flags)
    (hh : pt.Holds tables size.level (pageNumber vaddr / 512 ^ size.level)
      (newPage paddr flags size.isHuge)) :
    ∃ p ∈ pages, p.Covers vaddr ∧ p.size = size ∧ p.paddr = paddr ∧ p.flags = flags := by
  obtain ⟨p, hp, rfl, hc, he⟩ := h.holds_iff.mp hh
  refine ⟨p, hp, hc, rfl, ?_, ?_⟩
  · have haddr := congrArg GenericPTE.paddr he
    rwa [paddr_newPage _ _ (h.ok p hp).frame, paddr_newPage _ _ hframe] at haddr
  · have hflags := congrArg GenericPTE.flags he
    rwa [flags_newPage (h.ok p hp).keeps, flags_newPage hkeeps] at hflags

theorem lookup_of_covers (hp : p ∈ pages) (hc : p.Covers vaddr) :
    MappedPage.lookup pages vaddr = .ok (p.paddr + p.size.alignOffset vaddr, p.flags, p.size) := by
  have hfind : pages.find? (fun p => p.Covers vaddr) = some p := by
    cases hf : pages.find? fun p => p.Covers vaddr with
    | none => exact absurd hc (by simpa using find?_eq_none.mp hf p hp)
    | some p' =>
      rw [h.eq_of_covers (mem_of_find?_eq_some hf) hp (by simpa using find?_some hf) hc]
  have hoff : vaddr - p.vaddr = p.size.alignOffset vaddr := by
    obtain ⟨q, hq⟩ := (h.ok p hp).aligned
    obtain ⟨hle, hlt⟩ := hc
    obtain ⟨d, rfl⟩ := Nat.exists_eq_add_of_le hle
    rw [Nat.add_sub_cancel_left, alignOffset, hq, Nat.mul_add_mod, mod_eq_of_lt (by omega)]
  rw [MappedPage.lookup, hfind]
  simp only [hoff]

end

theorem lookup_of_not_covers (h : ∀ p ∈ pages, ¬p.Covers vaddr) :
    MappedPage.lookup pages vaddr = .error .notMapped := by
  have hfind : pages.find? (fun p => p.Covers vaddr) = none := by
    simpa using h
  rw [MappedPage.lookup, hfind]

/-- `query` and `unmap` find the page that covers an address, or fail if there is none. -/
theorem find (h : pt.Represents tables pages) (hv : vaddr < 2 ^ 48) : (∃ p ∈ pages, p.Covers vaddr ∧
      pt.query vaddr = .ok (p.paddr + p.size.alignOffset vaddr, p.flags, p.size) ∧
      ∃ pt', pt.unmap vaddr = (pt', .ok (p.paddr, p.size)) ∧
        pt'.Represents tables (pages.filter fun p => ¬p.Covers vaddr)) ∨
    ((∀ p ∈ pages, ¬p.Covers vaddr) ∧ pt.query vaddr = .error .notMapped ∧
      pt.unmap vaddr = (pt, .error .notMapped)) := by
  obtain ⟨size, f, paddr, flags, hends, hframe, hkeeps, hh, hquery, hunmap⟩ |
    ⟨hnone, hquery, hunmap⟩ := h.inv.find hv
  · obtain ⟨p, hp, hc, rfl, rfl, rfl⟩ := h.page_of_holds hframe hkeeps hh
    refine .inl ⟨p, hp, hc, hquery, _, hunmap, ?_⟩
    obtain ⟨hinv, hholds⟩ := h.inv.clear hends
    refine ⟨hinv, fun p' hp' => h.ok p' (mem_of_mem_filter hp'), fun l q e => ?_, h.apart.filter _⟩
    rw [hholds, h.holds]
    simp only [mem_filter, decide_not, Bool.not_eq_true', decide_eq_false_iff_not]
    constructor
    · rintro ⟨⟨p', hp', rfl, rfl, he⟩, hne⟩
      refine ⟨p', ⟨hp', fun hc' => hne ?_⟩, rfl, rfl, he⟩
      cases h.eq_of_covers hp hp' hc hc'
      rw [pageNumber_div]
      exact ⟨rfl, (covers_iff (h.ok p hp).aligned).mp hc⟩
    · rintro ⟨p', ⟨hp', hc'⟩, rfl, rfl, he⟩
      refine ⟨⟨p', hp', rfl, rfl, he⟩, ?_⟩
      rintro ⟨hl, hq⟩
      have hsize := level_inj hl
      rw [pageNumber_div, ← hsize] at hq
      exact hc' ((covers_iff (h.ok p' hp').aligned).mpr hq)
  · refine .inr ⟨fun p hp hc => ?_, hquery, hunmap⟩
    exact hnone _ _ (h.holds_of_covers hp hc)

/-- `query` answers as the pages say. -/
theorem query_eq (h : pt.Represents tables pages) (hv : vaddr < 2 ^ 48) :
    pt.query vaddr = MappedPage.lookup pages vaddr := by
  obtain ⟨p, hp, hc, hquery, -⟩ | ⟨hnone, hquery, -⟩ := h.find hv
  · rw [hquery, h.lookup_of_covers hp hc]
  · rw [hquery, lookup_of_not_covers hnone]

/-! ## Mapping -/

theorem frameAddr_alignDown (pageSize : PageSize) {target : ℕ} (h : target < 2 ^ 48) :
    FrameAddr (pageSize.alignDown target) := by
  refine ⟨Dvd.dvd.mul_left pageSize.dvd_bytes _, lt_of_le_of_lt ?_ h⟩
  exact div_mul_le_self target pageSize.bytes

theorem alignDown_div (pageSize : PageSize) (vaddr : ℕ) :
    pageSize.alignDown vaddr / pageSize.bytes = vaddr / pageSize.bytes :=
  Nat.mul_div_cancel _ pageSize.bytes_pos

/-- A leaf where there was none is a page that overlaps no other. -/
theorem apart_of_added (h : pt.Represents tables pages) {tables' : ℕ → ℕ → Option ℕ}
    (hinv : pt'.Inv tables') {page : MappedPage} (hpage : page.size.bytes ∣ page.vaddr)
    (hkept : ∀ l q e, pt.Holds tables l q e → pt'.Holds tables' l q e)
    (hadded : pt'.Holds tables' page.size.level (page.vaddr / page.size.bytes)
      (newPage page.paddr page.flags page.size.isHuge))
    (hnone : ∀ e, ¬pt.Holds tables page.size.level (page.vaddr / page.size.bytes) e)
    (hp : p ∈ pages) : page.Apart p := by
  by_contra hover
  -- the two pages have an address in common, the larger of their first ones
  obtain ⟨a, hca, hcb⟩ : ∃ a, page.Covers a ∧ p.Covers a := by
    have h1 := page.size.bytes_pos
    have h2 := p.size.bytes_pos
    unfold MappedPage.Apart at hover
    unfold MappedPage.Covers
    rcases le_total page.vaddr p.vaddr with hle | hle
    · exact ⟨p.vaddr, by omega, by omega⟩
    · exact ⟨page.vaddr, by omega, by omega⟩
  rw [(covers_iff hpage).mp hca, ← pageNumber_div] at hadded hnone
  have hold := h.holds_of_covers hp hcb
  obtain ⟨hl, -⟩ := hinv.tree.holds_unique hadded (hkept _ _ _ hold)
  rw [← hl] at hold
  exact hnone _ hold

variable {r : Except PagingError Unit} {pageSize : PageSize}

/-- `map` adds a page if it succeeds, and changes nothing if it fails. -/
theorem map (h : pt.Represents tables pages) {target : ℕ}
    (hv : vaddr < 2 ^ 48) (ht : target < 2 ^ 48) (hf : Keeps PTE flags)
    (hr : pt.map vaddr target pageSize flags = (pt', r)) :
    (∃ tables' e, r = .error e ∧ pt'.Represents tables' pages) ∨
      ∃ tables', r = .ok () ∧ pt'.Represents tables'
        (⟨pageSize.alignDown vaddr, pageSize, pageSize.alignDown target, flags⟩ :: pages) := by
  have hframe := frameAddr_alignDown pageSize ht
  obtain ⟨tables', e, hgrow, rfl⟩ | ⟨tables', rfl, hinv, hnone, hholds⟩ := h.inv.map hv hframe hf hr
  · refine .inl ⟨tables', e, rfl, hgrow.inv, h.ok, fun l q e => ?_, h.apart⟩
    rw [hgrow.holds, h.holds]
  refine .inr ⟨tables', rfl, hinv, ?_, fun l q e => ?_, ?_⟩
  · rw [forall_mem_cons]
    exact ⟨⟨Dvd.intro_left _ rfl, hframe, hf⟩, h.ok⟩
  · rw [hholds, h.holds, pageNumber_div]
    simp only [mem_cons, exists_eq_or_imp, alignDown_div]
    rw [or_comm]
    refine or_congr_left ?_
    constructor <;> rintro ⟨rfl, rfl, rfl⟩ <;> exact ⟨rfl, rfl, rfl⟩
  · rw [pairwise_cons]
    refine ⟨fun p hp => ?_, h.apart⟩
    refine h.apart_of_added hinv (Dvd.intro_left _ rfl)
      (fun l q e hh => (hholds l q e).mpr (.inl hh)) ?_ ?_ hp
    · rw [hholds]
      simp [pageNumber_div, alignDown_div]
    · simpa [pageNumber_div, alignDown_div] using hnone

/-! ## Regions -/

theorem regionPageSize_spec (hv : 4096 ∣ vaddr) (hp : 4096 ∣ paddr) (hs : 4096 ∣ size)
    (hpos : size ≠ 0) (allowHuge : Bool) :
    (regionPageSize vaddr paddr size allowHuge).bytes ≤ size ∧
      (regionPageSize vaddr paddr size allowHuge).bytes ∣ vaddr ∧
      (regionPageSize vaddr paddr size allowHuge).bytes ∣ paddr ∧
      (allowHuge = false → regionPageSize vaddr paddr size allowHuge = .size4K) := by
  have hsmall : size4K.bytes ≤ size := le_of_dvd (pos_of_ne_zero hpos) hs
  unfold regionPageSize
  simp only [isAligned, Bool.and_eq_true, beq_iff_eq, decide_eq_true_eq]
  split
  · next hhuge =>
    split
    · next h1 =>
      refine ⟨h1.2, dvd_of_mod_eq_zero h1.1.1, dvd_of_mod_eq_zero h1.1.2, ?_⟩
      simp [hhuge]
    · split
      · next h2 =>
        refine ⟨h2.2, dvd_of_mod_eq_zero h2.1.1, dvd_of_mod_eq_zero h2.1.2, ?_⟩
        simp [hhuge]
      · exact ⟨hsmall, hv, hp, fun _ => rfl⟩
  · exact ⟨hsmall, hv, hp, fun _ => rfl⟩

theorem alignDown_of_dvd {addr : ℕ} (h : pageSize.bytes ∣ addr) : pageSize.alignDown addr = addr :=
  Nat.div_mul_cancel h

/-- `map_region` maps pages that follow one another, until one cannot be mapped. -/
theorem mapRegionLoop (allowHuge : Bool) (hf : Keeps PTE flags) (fuel : ℕ)
    (h : pt.Represents tables pages) (hfuel : size ≤ 4096 * fuel) (hv : 4096 ∣ vaddr)
    (hp : 4096 ∣ paddr) (hs : 4096 ∣ size) (hvb : vaddr + size ≤ 2 ^ 48)
    (hpb : paddr + size ≤ 2 ^ 48)
    (hr : mapRegionLoop flags allowHuge fuel pt vaddr paddr size = (pt', r)) :
    ∃ ps mapped tables', MappedPage.Consecutive flags vaddr paddr mapped ps ∧
      (allowHuge = false → ∀ p ∈ ps, p.size = .size4K) ∧
      pt'.Represents tables' (ps.reverse ++ pages) ∧
      ((r = .ok () ∧ mapped = size) ∨ ((∃ e, r = .error e) ∧ mapped < size)) := by
  induction fuel generalizing pt pages tables vaddr paddr size with
  | zero =>
    cases hr
    exact ⟨[], 0, tables, rfl, by simp, h, .inl ⟨rfl, by omega⟩⟩
  | succ fuel ih =>
    rw [mapRegionLoop] at hr
    split at hr
    · next hzero =>
      cases hr
      exact ⟨[], 0, tables, rfl, by simp, h, .inl ⟨rfl, hzero.symm⟩⟩
    rename_i hpos
    obtain ⟨hle, hdv, hdp, hsmall⟩ := regionPageSize_spec hv hp hs hpos allowHuge
    generalize regionPageSize vaddr paddr size allowHuge = pageSize at hr hle hdv hdp hsmall
    dsimp only at hr
    have hbytes := pageSize.bytes_pos
    have hpage := pageSize.dvd_bytes
    cases hstep : pt.map vaddr paddr pageSize flags with
    | mk pt₁ r₁ =>
      rw [hstep] at hr
      obtain ⟨tables₁, e, rfl, h₁⟩ | ⟨tables₁, rfl, h₁⟩ :=
        h.map (by omega) (by omega) hf hstep
      · cases hr
        exact ⟨[], 0, tables₁, rfl, by simp, h₁, .inr ⟨⟨e, rfl⟩, pos_of_ne_zero hpos⟩⟩
      rw [alignDown_of_dvd hdv, alignDown_of_dvd hdp] at h₁
      obtain ⟨ps, mapped, tables', hcons, hsmall', hrep, hres⟩ := ih h₁ (by omega)
        (Nat.dvd_add hv hpage) (Nat.dvd_add hp hpage) (Nat.dvd_sub hs hpage) (by omega)
        (by omega) hr
      refine ⟨⟨vaddr, pageSize, paddr, flags⟩ :: ps, pageSize.bytes + mapped, tables', ?_, ?_,
        ?_, ?_⟩
      · refine ⟨rfl, rfl, rfl, le_add_right _ _, ?_⟩
        rw [Nat.add_sub_cancel_left]
        exact hcons
      · intro hno
        rw [forall_mem_cons]
        exact ⟨hsmall hno, hsmall' hno⟩
      · rw [reverse_cons, append_assoc]
        exact hrep
      · rcases hres with ⟨hok, hm⟩ | ⟨herr, hm⟩
        · exact .inl ⟨hok, by omega⟩
        · exact .inr ⟨herr, by omega⟩

/-- The region consists of pages of the list. -/
inductive Tiled (pages : List MappedPage) : (vaddr size : ℕ) → Prop
  | done (vaddr : ℕ) : Tiled pages vaddr 0
  | page {p : MappedPage} {size : ℕ} : p ∈ pages →
      Tiled pages (p.vaddr + p.size.bytes) size → Tiled pages p.vaddr (p.size.bytes + size)

theorem tiled_of_wholePages (h : pt.Represents tables pages) (hvb : vaddr + size ≤ 2 ^ 48)
    (hwhole : pt.WholePages vaddr size) : Tiled pages vaddr size := by
  induction hwhole with
  | done vaddr => exact .done vaddr
  | @page vaddr size paddr flags pageSize hquery haligned _ ih =>
    have hpos := pageSize.bytes_pos
    obtain ⟨p, hp, hc, hquery', -⟩ | ⟨-, hquery', -⟩ := h.find (show vaddr < 2 ^ 48 by omega)
    · rw [hquery] at hquery'
      cases hquery'
      have hstart : p.vaddr = vaddr := by
        rw [covers_iff (h.ok p hp).aligned] at hc
        have hdvd : p.size.bytes ∣ vaddr := dvd_of_mod_eq_zero (by
          simpa [isAligned] using haligned)
        rw [← Nat.div_mul_cancel (h.ok p hp).aligned, hc, Nat.div_mul_cancel hdvd]
      subst hstart
      exact .page hp (ih (by omega))
    · rw [hquery] at hquery'
      cases hquery'

/-- Pages before a region may go. -/
theorem Tiled.filter (h : Tiled pages vaddr size) {keep : MappedPage → Bool}
    (hkeep : ∀ p ∈ pages, vaddr ≤ p.vaddr → keep p = true) :
    Tiled (pages.filter keep) vaddr size := by
  induction h with
  | done vaddr => exact .done vaddr
  | @page p size hp _ ih =>
    refine .page (mem_filter.mpr ⟨hp, hkeep p hp le_rfl⟩) (ih ?_)
    intro p' hp' hle
    exact hkeep p' hp' (by omega)

/-- `unmap_region` removes the pages of a region that consists of whole pages. -/
theorem unmapRegionLoop (fuel : ℕ) (h : pt.Represents tables pages) (hfuel : size < 4096 * fuel)
    (hvb : vaddr + size ≤ 2 ^ 48) (htiled : Tiled pages vaddr size) :
    ∃ pt', unmapRegionLoop fuel pt vaddr size = some (pt', .ok ()) ∧ pt'.Represents tables
        (pages.filter fun p => ¬(vaddr ≤ p.vaddr ∧ p.vaddr < vaddr + size)) := by
  induction fuel generalizing pt pages vaddr size with
  | zero => omega
  | succ fuel ih =>
    cases htiled with
    | done =>
      refine ⟨pt, by rw [unmapRegionLoop, if_pos rfl], ?_⟩
      have hall : ∀ p : MappedPage, ¬(vaddr ≤ p.vaddr ∧ p.vaddr < vaddr + 0) := by
        intro p
        omega
      simpa [hall] using h
    | @page p size hp htiled =>
      have hpos := p.size.bytes_pos
      have hpage := Nat.le_of_dvd hpos p.size.dvd_bytes
      obtain ⟨p', hp', hc', -, pt₁, hunmap, h₁⟩ | ⟨hnone, -⟩ := h.find (by omega : p.vaddr < 2 ^ 48)
      · cases h.eq_of_covers hp hp' (covers_self p) hc'
        -- the other pages of the list are before or behind this one
        have hother : ∀ p' ∈ pages, (p' = p ∧ p'.Covers p.vaddr) ∨
            ((p'.vaddr < p.vaddr ∨ p.vaddr + p.size.bytes ≤ p'.vaddr) ∧ ¬p'.Covers p.vaddr) := by
          intro p' hp'
          by_cases hc : p'.Covers p.vaddr
          · exact .inl ⟨h.eq_of_covers hp' hp hc (covers_self p), hc⟩
          refine .inr ⟨?_, hc⟩
          have hapart : p.Apart p' := by
            refine h.apart.forall hp hp' ?_
            rintro rfl
            exact hc (covers_self p)
          have hpos' := p'.size.bytes_pos
          unfold MappedPage.Apart at hapart
          omega
        have hrest : Tiled (pages.filter fun p' => ¬p'.Covers p.vaddr)
            (p.vaddr + p.size.bytes) size := by
          refine htiled.filter fun p' hp' hle => ?_
          obtain ⟨rfl, -⟩ | ⟨-, hc⟩ := hother p' hp'
          · omega
          · simpa using hc
        obtain ⟨pt₂, hloop, h₂⟩ := ih h₁ (by omega) (by omega) hrest
        have haligned : p.size.isAligned p.vaddr = true := by
          simpa [isAligned] using Nat.mod_eq_zero_of_dvd (h.ok p hp).aligned
        refine ⟨pt₂, ?_, ?_⟩
        · rw [unmapRegionLoop, if_neg (by omega), hunmap]
          simp only [haligned, Nat.le_add_right, decide_true, Bool.and_self, if_true,
            Nat.add_sub_cancel_left]
          exact hloop
        · rw [List.filter_filter] at h₂
          convert h₂ using 1
          refine filter_congr fun p' hp' => ?_
          rw [← Bool.decide_and, decide_eq_decide]
          obtain ⟨rfl, hc⟩ | ⟨hout, hc⟩ := hother p' hp'
          · simp only [hc, not_true_eq_false, and_false, iff_false]
            omega
          · simp only [hc, not_false_eq_true, and_true]
            omega
      · exact absurd (covers_self p) (hnone p hp)

/-! ## Histories -/

/-- Every admitted call is a step of the map of pages with the same answer. -/
theorem exec (h : pt.Represents tables pages) {c : Call} (hc : pt.Admits c) :
    ∃ pt' r pages' tables', pt.exec c = some (pt', r) ∧ PageMapStep pages c r pages' ∧
      pt'.Represents tables' pages' := by
  cases c with
  | map vaddr target pageSize flags =>
    obtain ⟨hv, ht, hf⟩ := hc
    obtain ⟨tables', e, hr, h'⟩ | ⟨tables', hr, h'⟩ := h.map hv ht hf (Prod.mk.eta).symm
    · exact ⟨_, _, pages, tables', by rw [PageTable64.exec, hr]; rfl, .mapFails .., h'⟩
    · exact ⟨_, _, _, tables', by rw [PageTable64.exec, hr]; rfl, .map .., h'⟩
  | unmap vaddr =>
    obtain ⟨p, hp, hcov, -, pt', hunmap, h'⟩ | ⟨hnone, -, hunmap⟩ := h.find hc
    · exact ⟨pt', _, _, tables, by rw [PageTable64.exec, hunmap]; rfl, .unmap hp hcov, h'⟩
    · exact ⟨pt, _, pages, tables, by rw [PageTable64.exec, hunmap]; rfl, .unmapFails hnone, h⟩
  | mapRegion vaddr paddr size flags allowHuge =>
    obtain ⟨hv, hp, hf⟩ := hc
    by_cases haligned : 4096 ∣ vaddr ∧ 4096 ∣ paddr ∧ 4096 ∣ size
    · obtain ⟨hdv, hdp, hds⟩ := haligned
      have hregion : pt.mapRegion vaddr paddr size flags allowHuge =
          PageTable64.mapRegionLoop flags allowHuge (size / 4096) pt vaddr paddr size := by
        rw [mapRegion, if_neg]
        simp [isAligned, bytes, mod_eq_zero_of_dvd, hdv, hdp, hds]
      obtain ⟨ps, mapped, tables', hcons, hsmall, h', ⟨hr, rfl⟩ | ⟨⟨e, hr⟩, hlt⟩⟩ :=
        h.mapRegionLoop allowHuge hf (size / 4096) (by omega) hdv hdp hds hv hp (Prod.mk.eta).symm
      · exact ⟨_, _, _, tables', by rw [PageTable64.exec, hregion, hr]; rfl,
          .mapRegion hcons hsmall, h'⟩
      · exact ⟨_, _, _, tables', by rw [PageTable64.exec, hregion, hr]; rfl,
          .mapRegionFails hcons (fun _ => hlt) hsmall, h'⟩
    · have hregion : pt.mapRegion vaddr paddr size flags allowHuge = (pt, .error .notAligned) := by
        rw [mapRegion, if_pos]
        simp only [dvd_iff_mod_eq_zero] at haligned
        simp only [isAligned, bytes, Bool.or_eq_true, Bool.not_eq_true', beq_eq_false_iff_ne]
        tauto
      refine ⟨pt, .error .notAligned, [].reverse ++ pages, tables, ?_, ?_, h⟩
      · rw [PageTable64.exec, hregion]
        rfl
      · have hnone : MappedPage.Consecutive flags vaddr paddr 0 [] := rfl
        exact .mapRegionFails hnone (fun hne => absurd rfl hne) (by simp)
  | unmapRegion vaddr size =>
    obtain ⟨hv, hwhole⟩ := hc
    obtain ⟨pt', hloop, h'⟩ := h.unmapRegionLoop (size / 4096 + 1) (by omega) hv
      (h.tiled_of_wholePages hv hwhole)
    refine ⟨pt', .ok none, _, tables, ?_, .unmapRegion .., h'⟩
    rw [PageTable64.exec, unmapRegion, hloop]
    rfl

/-- Every history of the page table is one of the map of pages. -/
theorem of_run {pt₀ : PageTable64 PTE} (h₀ : pt₀.Represents tables [])
    {log : List (Call × Answer)} (hrun : Run pt₀ log pt) :
    ∃ pages tables, PageMapRun log pages ∧ pt.Represents tables pages := by
  induction hrun with
  | nil => exact ⟨[], tables, .nil, h₀⟩
  | step _ hadmits hexec ih =>
    obtain ⟨pages, tables, hpages, h⟩ := ih
    obtain ⟨pt', r, pages', tables', hexec', hstep, h'⟩ := h.exec hadmits
    rw [hexec] at hexec'
    cases hexec'
    exact ⟨pages', tables', hpages.step hstep, h'⟩

end Represents

/-- A new page table represents no pages. -/
theorem Represents.new {rootPaddr : ℕ} (mem : ℕ → ℕ → PTE) {frames : List (Option ℕ)}
    (hnodup : (rootPaddr :: frames.reduceOption).Nodup)
    (hframes : ∀ f, some f ∈ frames → FrameAddr f) :
    ∃ tables, (new rootPaddr mem frames).Represents tables [] := by
  obtain ⟨tables, hinv, hnone⟩ := Inv.new mem hnodup hframes
  refine ⟨tables, hinv, by simp, fun l q e => ?_, .nil⟩
  simp [hnone]

/-- For the aarch64 entries, a history of calls from a new page table is one of a map of pages that
do not overlap, with the same answers; afterwards `query` answers as the pages say, no admitted call
fails an assertion, and a `map` that fails changes no answer. -/
theorem run_refines_pageMap {rootPaddr : ℕ} (mem : ℕ → ℕ → A64PTE) {frames : List (Option ℕ)}
    (hnodup : (rootPaddr :: frames.reduceOption).Nodup)
    (hframes : ∀ f, some f ∈ frames → FrameAddr f) {log : List (Call × Answer)}
    {pt : PageTable64 A64PTE} (hrun : Run (new rootPaddr mem frames) log pt) :
    ∃ pages, PageMapRun log pages ∧ pages.Pairwise MappedPage.Apart ∧
      (∀ vaddr < 2 ^ 48, pt.query vaddr = MappedPage.lookup pages vaddr) ∧
      (∀ c, pt.Admits c → (pt.exec c).isSome) ∧
      ∀ vaddr target pageSize flags pt' e, pt.Admits (.map vaddr target pageSize flags) →
        pt.map vaddr target pageSize flags = (pt', .error e) →
        ∀ va < 2 ^ 48, pt'.query va = pt.query va := by
  obtain ⟨tables₀, h₀⟩ := Represents.new mem hnodup hframes
  obtain ⟨pages, tables, hpages, h⟩ := Represents.of_run h₀ hrun
  refine ⟨pages, hpages, h.apart, fun vaddr hv => h.query_eq hv, fun c hc => ?_, ?_⟩
  · obtain ⟨pt', r, pages', tables', hexec, -⟩ := h.exec hc
    rw [hexec]
    rfl
  · intro vaddr target pageSize flags pt' e hadmits hmap va hva
    obtain ⟨hv, ht, hf⟩ := hadmits
    obtain ⟨tables', e', -, h'⟩ | ⟨tables', hr, -⟩ := h.map hv ht hf hmap
    · rw [h'.query_eq hva, h.query_eq hva]
    · cases hr

/-- A page table with three frames to take tables from. -/
def sampleTable : PageTable64 A64PTE :=
  new 0x1000 (fun _ _ => 0) [some 0x2000, some 0x3000, some 0x4000]

def sampleFlags : MappingFlags := ⟨true, true, false, false, false, false⟩

def sampleMapped : PageTable64 A64PTE :=
  (sampleTable.mapRegion 0x200000 0x400000 0x201000 sampleFlags true).1

/-- A region of a huge and a small page is mapped, and the huge page is unmapped again. -/
theorem sampleTable_run :
    Run sampleTable
      [(.unmap 0x200000, .ok (some (0x400000, .size2M))),
        (.mapRegion 0x200000 0x400000 0x201000 sampleFlags true, .ok none)]
      (sampleMapped.unmap 0x200000).1 :=
  .step (.step .nil ⟨by decide, by decide, rfl, by decide⟩ rfl)
    (by decide : 0x200000 < 2 ^ 48) rfl

theorem run_refines_pageMap_sample :
    ∃ pages, PageMapRun
        [(.unmap 0x200000, .ok (some (0x400000, .size2M))),
          (.mapRegion 0x200000 0x400000 0x201000 sampleFlags true, .ok none)] pages ∧
      (sampleMapped.unmap 0x200000).1.query 0x400123 = MappedPage.lookup pages 0x400123 ∧
      (sampleMapped.unmap 0x200000).1.query 0x400123 = .ok (0x600123, sampleFlags, .size4K) := by
  have hframes : ∀ f, some f ∈ [some 0x2000, some 0x3000, some 0x4000] → FrameAddr f := by
    intro f hf
    simp only [mem_cons, Option.some.injEq, not_mem_nil, or_false] at hf
    rcases hf with rfl | rfl | rfl <;> exact ⟨by decide, by decide⟩
  obtain ⟨pages, hpages, -, hquery, -⟩ :=
    run_refines_pageMap (fun _ _ => 0) (by decide) hframes sampleTable_run
  exact ⟨pages, hpages, hquery 0x400123 (by decide), rfl⟩

end PageTable64

end HvisorRux.Rux.Paging
