import HvisorRux.Common.Intervals
import HvisorRux.Rux.Mmap.Defs

/-!
# Well-formed mappings

`WellFormed` says what `VMA_MAP` should be, and `MmapInv` is the same with the areas laid out in
order. An edit keeps it if it puts an area into a usable region or cuts areas at page boundaries.
`find_free_region` finds a usable region under `RegionOk`: a hint has to lie inside the address
space, and there has to be room above the areas, or they have to end at page boundaries. None of
this is checked by the source.
-/

namespace HvisorRux.Rux

open Common List Option OrdMap

/-! ## Well-formed maps -/

def Vma.firstPage (v : Vma) : ℕ := v.startAddr / pageSize4K

def Vma.lastPage (v : Vma) : ℕ := (v.endAddr - 1) / pageSize4K

/-- The two areas have a page in common. -/
def Vma.SharesPage (v w : Vma) : Prop := v.firstPage ≤ w.lastPage ∧ w.firstPage ≤ v.lastPage
deriving Decidable

/-- Areas are filed under their start addresses, which are page aligned; they lie in the address
space for mappings, are not empty, and share no page. -/
@[mk_iff] structure WellFormed (m : VmaMap) : Prop where
  key : ∀ p ∈ m, p.1 = p.2.startAddr
  aligned : ∀ p ∈ m, pageSize4K ∣ p.2.startAddr
  bounds : ∀ p ∈ m, vmaStart ≤ p.2.startAddr ∧ p.2.startAddr < p.2.endAddr ∧ p.2.endAddr ≤ vmaEnd
  apart : ∀ p ∈ m, ∀ q ∈ m, p ≠ q → ¬ p.2.SharesPage q.2

instance (m : VmaMap) : Decidable (WellFormed m) := decidable_of_iff' _ (wellFormed_iff m)

/-- The areas are laid out one after the other, from page boundaries on, in the address space for
mappings. -/
structure MmapInv (m : VmaMap) : Prop where
  laid : Laid Vma.startAddr Vma.endAddr m
  aligned : ∀ p ∈ m, pageSize4K ∣ p.1
  inside : ∀ p ∈ m, vmaStart ≤ p.1 ∧ p.2.endAddr ≤ vmaEnd

section

variable {o : Overflow} {m m' : VmaMap} {k len start end_ a : ℕ} {v : Vma}

/-- An area that ends before the next one begins ends on an earlier page. -/
theorem lastPage_lt {v w : Vma} (hv : v.startAddr < v.endAddr) (hw : pageSize4K ∣ w.startAddr)
    (h : v.endAddr ≤ w.startAddr) : v.lastPage < w.firstPage := by
  obtain ⟨n, hn⟩ := hw
  unfold Vma.lastPage Vma.firstPage
  rw [hn] at h ⊢
  unfold pageSize4K at h ⊢
  omega

namespace MmapInv

theorem empty : MmapInv OrdMap.empty where
  laid := .empty
  aligned _ hp := absurd hp not_mem_empty
  inside _ hp := absurd hp not_mem_empty

theorem wellFormed (h : MmapInv m) : WellFormed m where
  key := h.laid.key
  aligned p hp := h.laid.key p hp ▸ h.aligned p hp
  bounds p hp := ⟨h.laid.key p hp ▸ (h.inside p hp).1, h.laid.nonempty p hp, (h.inside p hp).2⟩
  apart := by
    have hlt : ∀ p ∈ m, ∀ q ∈ m, p.1 < q.1 → p.2.lastPage < q.2.firstPage := by
      intro p hp q hq hpq
      have hkey := h.laid.key q hq
      exact lastPage_lt (h.laid.nonempty p hp) (hkey ▸ h.aligned q hq)
        (hkey ▸ h.laid.apart p hp q hq hpq)
    rintro p hp q hq hne ⟨hpq, hqp⟩
    obtain hlt' | heq | hlt' := lt_trichotomy p.1 q.1
    · exact absurd (hlt p hp q hq hlt') hqp.not_gt
    · exact hne (Prod.ext heq (val_unique (heq ▸ hp) hq))
    · exact absurd (hlt q hq p hp hlt') hpq.not_gt

theorem of_subset (h : MmapInv m) (hsub : ∀ p ∈ m', p ∈ m) : MmapInv m' where
  laid := h.laid.of_subset hsub
  aligned p hp := h.aligned p (hsub p hp)
  inside p hp := h.inside p (hsub p hp)

/-- An area is put into the map. -/
theorem insert (h : MmapInv m) (hkey : k = v.startAddr) (hlt : v.startAddr < v.endAddr)
    (haligned : pageSize4K ∣ k) (hstart : vmaStart ≤ k) (hend : v.endAddr ≤ vmaEnd)
    (hfree : ∀ p ∈ m, p.1 ≠ k → p.2.endAddr ≤ k ∨ v.endAddr ≤ p.1) : MmapInv (m.insert k v) where
  laid := h.laid.insert hkey hlt hfree
  aligned p hp := by
    obtain rfl | ⟨hp, -⟩ := mem_insert.mp hp
    · exact haligned
    · exact h.aligned p hp
  inside p hp := by
    obtain rfl | ⟨hp, -⟩ := mem_insert.mp hp
    · exact ⟨hstart, hend⟩
    · exact h.inside p hp

/-- The areas are cut, at page boundaries. -/
theorem cut (h : MmapInv m) {c : ℕ → Prop}
    (hpiece : ∀ p ∈ m', ∃ q ∈ m, PieceOf Vma.startAddr Vma.endAddr c q p)
    (haligned : ∀ p ∈ m', c p.1 → pageSize4K ∣ p.1) : MmapInv m' where
  laid := h.laid.cut hpiece
  aligned p hp := by
    obtain ⟨q, hq, hpq⟩ := hpiece p hp
    obtain hbegin | hbegin := hpq.begins
    · rw [hpq.key, hbegin, ← h.laid.key q hq]
      exact h.aligned q hq
    · exact haligned p hp (hpq.key ▸ hbegin)
  inside p hp := by
    obtain ⟨q, hq, hpq⟩ := hpiece p hp
    obtain ⟨hstart, hend⟩ := h.inside q hq
    rw [h.laid.key q hq] at hstart
    exact ⟨hpq.key ▸ hstart.trans hpq.lo_le, hpq.le_hi.trans hend⟩

end MmapInv

/-! ## Free regions -/

/-- What `find_free_region` needs: a hint is page aligned and lies in the address space, the length
does not wrap around, and either there is room above all areas, or all areas end at page boundaries
and none at the end of the address space. -/
def RegionOk (m : VmaMap) (addr : Option ℕ) (len : ℕ) : Prop :=
  (∀ start ∈ addr, pageSize4K ∣ start ∧ start ≤ vmaEnd) ∧ vmaStart + len < 2 ^ 64 ∧
    ((∀ p ∈ m, p.2.endAddr + pageSize4K + len ≤ vmaEnd) ∨
      ∀ p ∈ m, pageSize4K ∣ p.2.endAddr ∧ p.2.endAddr ≠ vmaEnd)
deriving Decidable

/-- The region of `len` bytes at `a` can be mapped. -/
structure Usable (m : VmaMap) (len a : ℕ) : Prop where
  aligned : pageSize4K ∣ a
  start_le : vmaStart ≤ a
  end_le : a + len ≤ vmaEnd
  free : Free Vma.endAddr m a (a + len)

theorem Usable.of_subset (h : Usable m len a) (hsub : ∀ p ∈ m', p ∈ m) : Usable m' len a :=
  ⟨h.aligned, h.start_le, h.end_le, fun p hp => h.free p (hsub p hp)⟩

/-- A subtraction that does not underflow. -/
theorem sub_eq {x y z : ℕ} (hle : y ≤ x) (h : o.sub 64 x y = some z) : z = x - y := by
  unfold Overflow.sub at h
  rw [if_pos hle] at h
  exact (some.inj h).symm

/-- An addition that does not overflow. -/
theorem add_eq {x y z : ℕ} (hlt : x + y < 2 ^ 64) (h : o.add 64 x y = some z) : z = x + y :=
  Overflow.eq_of_fit h fun _ => hlt

theorem alignDown4K_le (n : ℕ) : alignDown4K n ≤ n := Nat.div_mul_le_self n pageSize4K

theorem dvd_alignDown4K (n : ℕ) : pageSize4K ∣ alignDown4K n := Nat.dvd_mul_left ..

theorem usable_hint (h : MmapInv m) (hstart : pageSize4K ∣ start ∧ start ≤ vmaEnd)
    (hfits : hintFits o m start len = some true) : Usable m len start := by
  obtain ⟨room, hroom, hfits⟩ := bind_eq_some_iff.mp hfits
  simp only [some.injEq, Bool.and_eq_true, decide_eq_true_eq] at hfits
  obtain ⟨hlen, hend⟩ := hfits
  have hupper : start ≤ (m.ceil? start).elim vmaEnd Prod.fst ∧
      (m.ceil? start).elim vmaEnd Prod.fst ≤ vmaEnd := by
    cases hp : m.ceil? start with
    | none => exact ⟨hstart.2, le_rfl⟩
    | some p =>
      obtain ⟨hpm, hle, -⟩ := ceil?_eq_some hp
      exact ⟨hle, (h.laid.lt_hi hpm).le.trans (h.inside p hpm).2⟩
  have hsum : start + len ≤ (m.ceil? start).elim vmaEnd Prod.fst := by
    rw [sub_eq hupper.1 hroom] at hlen
    omega
  refine ⟨hstart.1, ?_, hsum.trans hupper.2, h.laid.free_between ?_ ?_⟩
  · cases hp : m.floor? start with
    | none => simpa [hp] using hend
    | some p =>
      obtain ⟨hpm, hle, -⟩ := floor?_eq_some hp
      exact (h.inside p hpm).1.trans hle
  · intro p hp
    simpa [hp] using hend
  · intro p hp
    simpa [hp] using hsum

theorem alignDown4K_of_dvd {n : ℕ} (h : pageSize4K ∣ n) : alignDown4K n = n :=
  Nat.div_mul_cancel h

/-- The address space ends more than a page before the addresses do. -/
theorem end_add_page_lt {n : ℕ} (h : n ≤ vmaEnd) : n + pageSize4K < 2 ^ 64 := by
  unfold vmaEnd at h
  unfold pageSize4K
  omega

theorem Usable.lt (h : Usable m len a) : a + len < 2 ^ 64 :=
  (Nat.le_add_right ..).trans_lt (end_add_page_lt h.end_le)

/-- The boundary above an area. -/
theorem lt_alignDown4K_add (n : ℕ) : n < alignDown4K (n + pageSize4K) := by
  unfold alignDown4K pageSize4K
  omega

theorem usable_top (h : MmapInv m) (hlen : vmaStart + len < 2 ^ 64)
    (hlast : ∀ p ∈ m, alignDown4K (p.2.endAddr + pageSize4K) ≤ vmaEnd)
    (htop : topRegion o m len = some (some a)) : Usable m len a := by
  unfold topRegion at htop
  split at htop
  · next key vma hp =>
    obtain ⟨hpm, hmax⟩ := last?_eq_some hp
    have hend : vma.endAddr ≤ vmaEnd := (h.inside _ hpm).2
    obtain ⟨bound, hbound, htop⟩ := bind_eq_some_iff.mp htop
    obtain ⟨room, hroom, htop⟩ := bind_eq_some_iff.mp htop
    rw [add_eq (end_add_page_lt hend) hbound] at hroom htop
    obtain ⟨hle, rfl⟩ := ite_some_none_eq_some.mp (some.inj htop)
    have hbelow : alignDown4K (vma.endAddr + pageSize4K) ≤ vmaEnd :=
      hlast (key, vma) hpm
    have habove := lt_alignDown4K_add vma.endAddr
    rw [sub_eq hbelow hroom] at hle
    have hroom := hle.trans (alignDown4K_le _)
    refine ⟨dvd_alignDown4K _, ?_, by omega, fun q hq => .inl ?_⟩
    · exact (h.inside _ hpm).1.trans ((h.laid.lt_hi hpm).le.trans habove.le)
    · exact (h.laid.hi_le_hi hpm hq (hmax q hq)).trans habove.le
  · next hp =>
    obtain ⟨endAddr, hadd, htop⟩ := bind_eq_some_iff.mp htop
    obtain ⟨hle, rfl⟩ := ite_some_none_eq_some.mp (some.inj htop)
    rw [add_eq hlen hadd] at hle
    exact ⟨by decide, le_rfl, hle, fun q hq => absurd hq (last?_eq_none.mp hp q)⟩

/-- The gaps: `before` are the areas that have been passed, `rest` those to come. -/
theorem usable_gap (h : MmapInv m) (hends : ∀ p ∈ m, pageSize4K ∣ p.2.endAddr)
    {before rest : List (ℕ × Vma)} (hsplit : m.entries = before ++ rest) {left : ℕ}
    (hleft : pageSize4K ∣ left ∧ vmaStart ≤ left)
    (hbefore : ∀ p ∈ before, p.2.endAddr ≤ left) (hrest : ∀ p ∈ rest, left ≤ p.1)
    (hgap : gapRegion o len left rest = some (some a)) : Usable m len a := by
  induction rest generalizing before left with
  | nil => cases hgap
  | cons p rest ih =>
    have hpm : p ∈ m := by
      rw [OrdMap.mem_def, hsplit]
      exact mem_append_right _ mem_cons_self
    have hafter : ∀ q ∈ rest, p.1 < q.1 := by
      have hsorted := m.sorted
      rw [hsplit] at hsorted
      exact (pairwise_cons.mp (pairwise_append.mp hsorted).2.1).1
    have hkey := h.laid.key p hpm
    obtain ⟨freeSize, hsub, hgap⟩ := bind_eq_some_iff.mp hgap
    rw [sub_eq (hkey ▸ hrest p mem_cons_self) hsub] at hgap
    split at hgap
    · next hlen =>
      -- the gap in front of `p` is large enough
      obtain rfl := some.inj (some.inj hgap)
      have hle := hrest p mem_cons_self
      have hsum : left + len ≤ p.1 := by omega
      refine ⟨hleft.1, hleft.2, ?_, fun q hq => ?_⟩
      · exact hsum.trans ((h.laid.lt_hi hpm).le.trans (h.inside p hpm).2)
      · rw [OrdMap.mem_def, hsplit] at hq
        obtain hq | hq := mem_append.mp hq
        · exact .inl (hbefore q hq)
        · obtain rfl | hq := mem_cons.mp hq
          · exact .inr hsum
          · exact .inr (hsum.trans (hafter q hq).le)
    · have hsplit' : m.entries = (before ++ [p]) ++ rest := by simpa using hsplit
      refine ih hsplit' ?_ ?_ ?_ hgap
      · exact ⟨hends p hpm, (h.inside p hpm).1.trans (h.laid.lt_hi hpm).le⟩
      · intro q hq
        obtain hq | hq := mem_append.mp hq
        · exact (hbefore q hq).trans
            ((hrest p mem_cons_self).trans (h.laid.lt_hi hpm).le)
        · rw [mem_singleton.mp hq]
      · intro q hq
        have hqm : q ∈ m := by
          rw [OrdMap.mem_def, hsplit]
          exact mem_append_right _ (mem_cons_of_mem _ hq)
        exact h.laid.apart p hpm q hqm (hafter q hq)

variable {addr : Option ℕ}

/-- With room above the areas the search ends there, so that it comes to the gaps only if the areas
end at page boundaries. -/
theorem RegionOk.ends_aligned (hok : RegionOk m addr len)
    (htop : topRegion o m len = some none) : ∀ p ∈ m, pageSize4K ∣ p.2.endAddr := by
  obtain ⟨-, -, hroom | hends⟩ := hok
  · intro p hp
    unfold topRegion at htop
    split at htop
    · next key vma hlast =>
      have hroom : vma.endAddr + pageSize4K + len ≤ vmaEnd :=
        hroom (key, vma) (last?_eq_some hlast).1
      have hbound := alignDown4K_le (vma.endAddr + pageSize4K)
      obtain ⟨bound, hadd, htop⟩ := bind_eq_some_iff.mp htop
      obtain ⟨room, hsub, htop⟩ := bind_eq_some_iff.mp htop
      rw [add_eq (end_add_page_lt (by omega)) hadd] at hsub htop
      have hdvd : pageSize4K ∣ vmaEnd - alignDown4K (vma.endAddr + pageSize4K) :=
        Nat.dvd_sub (by decide) (dvd_alignDown4K _)
      rw [sub_eq (by omega) hsub, alignDown4K_of_dvd hdvd, if_pos (by omega)] at htop
      cases htop
    · next hlast => exact absurd hp (last?_eq_none.mp hlast p)
  · exact fun p hp => (hends p hp).1

theorem RegionOk.bound_le (hok : RegionOk m addr len) (h : MmapInv m) :
    ∀ p ∈ m, alignDown4K (p.2.endAddr + pageSize4K) ≤ vmaEnd := by
  intro p hp
  refine (alignDown4K_le _).trans ?_
  obtain ⟨-, -, hroom | hends⟩ := hok
  · exact (Nat.le_add_right _ _).trans (hroom p hp)
  · obtain ⟨hdvd, hne⟩ := hends p hp
    have hlt : p.2.endAddr < vmaEnd := (h.inside p hp).2.lt_of_ne hne
    exact Nat.le_of_lt_add_of_dvd (Nat.add_lt_add_right hlt _) (Nat.dvd_add_self_right.mpr hdvd)
      (by decide)

theorem usable_of_findFreeRegion (h : MmapInv m) (hok : RegionOk m addr len)
    (hfind : findFreeRegion o m addr len = some (some a)) : Usable m len a := by
  obtain ⟨fits, hfits, hfind⟩ := bind_eq_some_iff.mp hfind
  cases fits with
  | true =>
    obtain rfl : addr = some a := some.inj hfind
    exact usable_hint h (hok.1 a rfl) hfits
  | false =>
    obtain ⟨top, htop, hfind⟩ := bind_eq_some_iff.mp hfind
    cases top with
    | some vaddr =>
      cases hfind
      exact usable_top h hok.2.1 (hok.bound_le h) htop
    | none =>
      have hsplit : m.entries = [] ++ m.entries := rfl
      exact usable_gap h (hok.ends_aligned htop) hsplit ⟨by decide, le_rfl⟩
        (fun p hp => absurd hp not_mem_nil) (fun p hp => (h.inside p hp).1) hfind

/-- A mapping of a usable region is put into the map. -/
theorem MmapInv.insert_usable (h : MmapInv m) (hlen : 0 < len) (husable : Usable m len a)
    (hstart : v.startAddr = a) (hend : v.endAddr = a + len) : MmapInv (m.insert a v) := by
  refine h.insert hstart.symm (by omega) husable.aligned husable.start_le ?_ fun p hp _ => ?_
  · exact hend ▸ husable.end_le
  · exact hend ▸ husable.free p hp

end

end HvisorRux.Rux
