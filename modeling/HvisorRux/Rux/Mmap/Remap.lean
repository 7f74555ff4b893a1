import HvisorRux.Rux.Mmap.WellFormed
import Mathlib.Data.List.TakeWhile

/-!
# Moving and resizing mappings

`sys_mremap` collects the areas from the one at the start of the old range to the last that begins
at its end or before. They are adjacent, and what is done next treats them as one area, `old_vma`.
`Collected` says how this area lies in the map. Each of the four ways to go on keeps the invariant
under a condition of its own, since the areas that have been collected are taken out of the map only
by a copy and by a move.
-/

namespace HvisorRux.Rux

open Common List Option OrdMap Remap

section

variable {o : Overflow} {m : VmaMap} {r : Remap} {p : ℕ × Vma} {v inner old next : Vma}
  {vs vmas : List Vma} {oldStart oldEnd vaddr : ℕ}

/-! ## Collecting the areas -/

/-- A further area continues what has been collected, in its file too. -/
theorem collectStep_some (h : collectStep o v (some inner) = some (.ok next)) :
    next = { inner with endAddr := v.endAddr } ∧ v.startAddr = inner.endAddr ∧
      v.flags = inner.flags ∧ v.prot = inner.prot ∧ v.file = inner.file ∧
      (inner.file.isSome → ∃ size, o.sub 64 inner.endAddr inner.startAddr = some size ∧
        o.add 64 inner.offset size = some v.offset) := by
  dsimp only [collectStep] at h
  split at h
  · next hcont =>
    obtain ⟨hstart, hflags, hprot⟩ := hcont
    split at h
    case h_1 file file' hfile hfile' =>
      obtain ⟨size, hsize, h⟩ := bind_eq_some_iff.mp h
      obtain ⟨endOffset, hoffset, h⟩ := bind_eq_some_iff.mp h
      split at h
      · cases h
      rename_i hsame
      cases h
      obtain ⟨hfiles, hoff⟩ := not_or.mp hsame
      obtain rfl := not_not.mp hfiles
      obtain rfl := not_not.mp hoff
      exact ⟨rfl, hstart.symm, hflags.symm, hprot.symm, hfile'.trans hfile.symm,
        fun _ => ⟨size, hsize, hoffset⟩⟩
    case h_2 hfile hfile' =>
      cases h
      refine ⟨rfl, hstart.symm, hflags.symm, hprot.symm, hfile'.trans hfile.symm, fun hsome => ?_⟩
      rw [hfile] at hsome
      cases hsome
    case h_3 => cases h
  · cases h

theorem collect_some (h : collect o (some inner) vmas = some (.ok (some old))) :
    old.startAddr = inner.startAddr ∧
      Adjacent Vma.startAddr Vma.endAddr inner.endAddr vmas old.endAddr := by
  induction vmas generalizing inner with
  | nil =>
    obtain rfl := some.inj (Except.ok.inj (some.inj h))
    exact ⟨rfl, rfl⟩
  | cons v vmas ih =>
    obtain ⟨step, hstep, h⟩ := bind_eq_some_iff.mp h
    cases step with
    | error e => cases h
    | ok next =>
      obtain ⟨rfl, hcont, -⟩ := collectStep_some hstep
      obtain ⟨hold, hadj⟩ := ih h
      exact ⟨hold, hcont, hadj⟩

/-- What has been collected is the hull of the areas, which are adjacent. -/
theorem collect_none (h : collect o none vmas = some (.ok (some old))) :
    ∃ v vs, vmas = v :: vs ∧ Adjacent Vma.startAddr Vma.endAddr old.startAddr vmas old.endAddr := by
  cases vmas with
  | nil => cases h
  | cons v vs =>
    obtain ⟨hstart, hadj⟩ := collect_some h
    exact ⟨v, vs, rfl, hstart.symm, hadj⟩

theorem mem_remapped (h : MmapInv m) (hv : v ∈ remapped m oldStart oldEnd) :
    (v.startAddr, v) ∈ m ∧ v.startAddr ≤ oldEnd := by
  have hle := mem_takeWhile_imp hv
  refine ⟨?_, of_decide_eq_true hle⟩
  obtain ⟨p, hp, rfl⟩ := List.mem_map.mp ((takeWhile_sublist _).mem hv)
  have hp := mem_of_mem_cursor hp
  rw [← h.laid.key p hp]
  exact hp

/-- The first area is the one where the walk starts. -/
theorem floor_of_remapped (h : MmapInv m) (hvs : remapped m oldStart oldEnd = v :: vs) :
    m.floor? oldStart = some (v.startAddr, v) := by
  unfold remapped OrdMap.cursor at hvs
  split at hvs
  · cases hvs
  rename_i q hq
  rw [map_cons, takeWhile_cons] at hvs
  split at hvs
  · obtain rfl := (List.cons.inj hvs).1
    rw [hq, ← h.laid.key q (floor?_eq_some hq).1]
  · cases hvs

/-- The walk comes to every area from its start on that begins at `old_end` or before. -/
theorem mem_remapped_of_le (h : MmapInv m) {q : ℕ × Vma} (hq : m.floor? oldStart = some q)
    (hp : p ∈ m) (hle : q.1 ≤ p.1) (hend : p.1 ≤ oldEnd) : p.2 ∈ remapped m oldStart oldEnd := by
  unfold remapped
  rw [takeWhile_eq_filter, mem_filter]
  · refine ⟨List.mem_map_of_mem ((mem_cursor hq).mpr ⟨hp, hle⟩), ?_⟩
    exact decide_eq_true (h.laid.key p hp ▸ hend)
  · refine pairwise_map.mpr (h.laid.cursor_sorted.imp fun hxy hle => ?_)
    exact decide_eq_true (hxy.le.trans (of_decide_eq_true hle))

/-- How the collected area lies in the map. -/
structure Collected (m : VmaMap) (r : Remap) : Prop where
  start_mem : r.oldVma.startAddr ∈ r.postRemove
  removed : ∀ k ∈ r.postRemove, k ≤ r.oldEnd ∧ ∃ v, (k, v) ∈ m
  range_le : r.oldStart ≤ r.oldEnd
  start_le : r.oldVma.startAddr ≤ r.oldStart
  le_end : r.oldEnd ≤ r.oldVma.endAddr
  lt : r.oldVma.startAddr < r.oldVma.endAddr
  aligned : pageSize4K ∣ r.oldVma.startAddr
  inside : vmaStart ≤ r.oldVma.startAddr ∧ r.oldVma.endAddr ≤ vmaEnd
  outside : ∀ p ∈ m, p.1 ∉ r.postRemove → p.2.endAddr ≤ r.oldVma.startAddr ∨ r.oldVma.endAddr ≤ p.1
  free_outside : ∀ a b, a < b → Free Vma.endAddr m a b →
    r.oldVma.endAddr ≤ a ∨ b ≤ r.oldVma.startAddr

theorem collected_of_collect (h : MmapInv m) (hrange : r.oldStart ≤ r.oldEnd)
    (hcollect : collect o none (remapped m r.oldStart r.oldEnd) = some (.ok (some r.oldVma)))
    (hremove : r.postRemove = (remapped m r.oldStart r.oldEnd).map (·.startAddr))
    (hend : r.oldEnd ≤ r.oldVma.endAddr) : Collected m r := by
  obtain ⟨v, vs, hvs, hadj⟩ := collect_none hcollect
  have hmem : ∀ u ∈ v :: vs, (u.startAddr, u) ∈ m ∧ u.startAddr ≤ r.oldEnd :=
    fun u hu => mem_remapped h (hvs ▸ hu)
  have hfloor := floor_of_remapped h hvs
  have hv := (hmem v mem_cons_self).1
  rw [hvs] at hadj
  obtain ⟨u, hu, hlast⟩ := hadj.exists_last
  have hstart : v.startAddr = r.oldVma.startAddr := hadj.1
  have hle : v.startAddr ≤ u.startAddr := by
    -- the walk goes upwards
    have hcur := (takeWhile_sublist _).mem (hvs ▸ hu : u ∈ remapped m r.oldStart r.oldEnd)
    obtain ⟨q, hq, rfl⟩ := List.mem_map.mp hcur
    obtain ⟨hqm, hle⟩ := (mem_cursor hfloor).mp hq
    exact h.laid.key q hqm ▸ hle
  refine
    { start_mem := ?_, removed := ?_, range_le := hrange, start_le := ?_, le_end := hend, lt := ?_,
      aligned := ?_, inside := ?_, outside := ?_, free_outside := ?_ }
  · rw [hremove, hvs, ← hstart]
    exact List.mem_map_of_mem mem_cons_self
  · intro k hk
    rw [hremove, hvs] at hk
    obtain ⟨u, hu, rfl⟩ := List.mem_map.mp hk
    exact ⟨(hmem u hu).2, u, (hmem u hu).1⟩
  · exact hstart ▸ (floor?_eq_some hfloor).2.1
  · have hlt : u.startAddr < u.endAddr := h.laid.nonempty _ (hmem u hu).1
    omega
  · exact hstart ▸ h.aligned _ hv
  · exact ⟨hstart ▸ (h.inside _ hv).1, hlast ▸ (h.inside _ (hmem u hu).1).2⟩
  · intro p hp hnot
    have hkey := h.laid.key p hp
    obtain hlt | hle := lt_or_ge p.1 v.startAddr
    · exact .inl (hstart ▸ h.laid.apart p hp _ hv hlt)
    · have hgt : r.oldEnd < p.1 := by
        refine not_le.mp fun hle' => hnot ?_
        rw [hremove, hkey]
        exact List.mem_map_of_mem (mem_remapped_of_le h hfloor hp hle hle')
      exact .inr (hlast ▸ h.laid.apart _ (hmem u hu).1 p hp ((hmem u hu).2.trans_lt hgt))
  · intro a b hab hfree
    exact hadj.outside hab fun u hu => hfree _ (hmem u hu).1

/-! ## What is done with them -/

namespace Remap

/-- A mapping becomes smaller: no area goes on behind the old range, unless one begins there. The
areas stay in the map as they are, and one that goes on is entered a second time. -/
def ShrinkOk (r : Remap) : Prop := r.oldVma.endAddr ≤ r.oldEnd ∨ r.oldEnd ∈ r.postRemove

/-- A mapping becomes larger in place: it is one area. Of several only the first is replaced. -/
def GrowOk (r : Remap) : Prop := r.postRemove = [r.oldVma.startAddr]

/-- A mapping is moved: if there is a part in front of the old range, there is also one behind it,
which takes its place in the map, and this one begins at a page boundary. -/
def MoveOk (r : Remap) : Prop :=
  (r.oldVma.startAddr = r.oldStart ∨ r.oldEnd < r.oldVma.endAddr) ∧
    (r.oldEnd < r.oldVma.endAddr → pageSize4K ∣ r.oldEnd)

instance (r : Remap) : Decidable r.ShrinkOk := inferInstanceAs (Decidable (_ ∨ _))
instance (r : Remap) : Decidable r.GrowOk := inferInstanceAs (Decidable (_ = _))
instance (r : Remap) : Decidable r.MoveOk := inferInstanceAs (Decidable (_ ∧ _))

/-- What the call needs, depending on the way it takes. -/
def Ok (o : Overflow) (m : VmaMap) (r : Remap) : Prop :=
  if r.dontunmap then RegionOk m r.optAddress r.newSize
  else if r.newSize < r.oldSize ∧ r.inPlace then r.ShrinkOk
  else ∀ grown ∈ r.grow o m,
    if grown.isSome then r.GrowOk
    else r.maymove → RegionOk m r.optAddress r.newSize ∧ r.MoveOk
deriving Decidable

section

variable {res : CallResult}

/-- A copy fails, or it goes to the region that has been found. -/
theorem copy_cases (h : r.copy o m = some res) :
    (∃ e, res = .fail m e) ∨ ∃ newStart vmaOffset newEnd,
      findFreeRegion o m r.optAddress r.newSize = some (some newStart) ∧
      o.sub 64 newStart r.oldVma.startAddr = some vmaOffset ∧
      o.add 64 newStart r.newSize = some newEnd ∧
      res = ⟨((m.insert newStart (r.oldVma.cloneFrom newStart newEnd)).eraseAll
          r.postRemove).insert r.oldVma.startAddr r.oldVma,
        [.shift r.oldVma.startAddr r.oldVma.endAddr vmaOffset true], .ok newStart⟩ := by
  obtain ⟨region, hfind, h⟩ := bind_eq_some_iff.mp h
  cases region with
  | none => exact .inl ⟨_, (some.inj h).symm⟩
  | some newStart =>
    dsimp only at h
    split at h
    · exact .inl ⟨_, (some.inj h).symm⟩
    · obtain ⟨vmaOffset, hsub, h⟩ := bind_eq_some_iff.mp h
      obtain ⟨newEnd, hadd, h⟩ := bind_eq_some_iff.mp h
      exact .inr ⟨newStart, vmaOffset, newEnd, hfind, hsub, hadd, (some.inj h).symm⟩

/-- So does a move. -/
theorem move_cases (h : r.move o m = some res) : (∃ e, res = .fail m e) ∨ ∃ vaddr vmaOffset newEnd,
      findFreeRegion o m r.optAddress r.newSize = some (some vaddr) ∧
      o.sub 64 vaddr r.oldVma.startAddr = some vmaOffset ∧
      o.add 64 vaddr r.newSize = some newEnd ∧
      res = ⟨r.moved m vaddr newEnd,
        [.shift r.oldVma.startAddr r.oldVma.endAddr vmaOffset false], .ok vaddr⟩ := by
  obtain ⟨region, hfind, h⟩ := bind_eq_some_iff.mp h
  cases region with
  | none => exact .inl ⟨_, (some.inj h).symm⟩
  | some vaddr =>
    dsimp only at h
    split at h
    · obtain ⟨vmaOffset, hsub, h⟩ := bind_eq_some_iff.mp h
      obtain ⟨newEnd, hadd, h⟩ := bind_eq_some_iff.mp h
      exact .inr ⟨vaddr, vmaOffset, newEnd, hfind, hsub, hadd, (some.inj h).symm⟩
    · exact .inl ⟨_, (some.inj h).symm⟩

/-- An expansion fails, or there is room behind the old range. -/
theorem expand_cases (h : r.expand o m = some (some res)) :
    (∃ e, res = .fail m e) ∨ ∃ room more newEnd,
      o.sub 64 ((m.ceil? r.oldEnd).elim vmaEnd Prod.fst) r.oldEnd = some room ∧
      o.sub 64 r.newSize r.oldSize = some more ∧ more ≤ room ∧
      o.add 64 r.oldStart r.newSize = some newEnd ∧
      res = ⟨m.insert r.oldVma.startAddr { r.oldVma with endAddr := newEnd }, [],
        .ok r.oldVma.startAddr⟩ := by
  unfold expand at h
  split at h
  · exact .inl ⟨_, (some.inj (some.inj h)).symm⟩
  obtain ⟨room, hroom, h⟩ := bind_eq_some_iff.mp h
  obtain ⟨more, hmore, h⟩ := bind_eq_some_iff.mp h
  split at h
  · next hfits =>
    obtain ⟨newEnd, hadd, h⟩ := bind_eq_some_iff.mp h
    exact .inr ⟨room, more, newEnd, hroom, hmore, hfits, hadd, (some.inj (some.inj h)).symm⟩
  · cases h

/-- The ways to go on: a copy, in place or in another place, or a failure. -/
theorem perform_cases (h : r.perform o m = some res) :
    (r.dontunmap = true ∧ r.copy o m = some res) ∨
      r.dontunmap = false ∧ ((r.newSize < r.oldSize ∧ r.inPlace) ∧ r.shrink o m = some res ∨
        ¬ (r.newSize < r.oldSize ∧ r.inPlace) ∧
          ((r.oldSize < r.newSize ∧ r.grow o m = some (some res) ∧ r.expand o m = some (some res)) ∨
            (r.grow o m = some none ∧ r.maymove = true ∧ r.move o m = some res) ∨
            ∃ e, res = .fail m e)) := by
  unfold perform at h
  split at h
  · next hcopy => exact .inl ⟨hcopy, h⟩
  rename_i hcopy
  refine .inr ⟨Bool.eq_false_iff.mpr hcopy, ?_⟩
  split at h
  · next hshrink => exact .inl ⟨hshrink, h⟩
  rename_i hshrink
  refine .inr ⟨hshrink, ?_⟩
  obtain ⟨grown, hgrown, h⟩ := bind_eq_some_iff.mp h
  cases grown with
  | some res' =>
    cases h
    have hgrow := hgrown
    unfold grow at hgrow
    split at hgrow
    · next hlarger => exact .inl ⟨hlarger.1, hgrown, hgrow⟩
    · cases hgrow
  | none =>
    dsimp only at h
    split at h
    · next hmaymove => exact .inr (.inl ⟨hgrown, hmaymove, h⟩)
    · exact .inr (.inr ⟨_, (some.inj h).symm⟩)

end

/-- The map with the mapping in its new place and without the old areas. -/
def placed (m : VmaMap) (r : Remap) (vaddr : ℕ) : VmaMap :=
  (m.eraseAll r.postRemove).insert vaddr (r.oldVma.cloneFrom vaddr (vaddr + r.newSize))

theorem mem_placed (hp : p ∈ r.placed m vaddr) :
    p = (vaddr, r.oldVma.cloneFrom vaddr (vaddr + r.newSize)) ∨ (p ∈ m ∧ p.1 ∉ r.postRemove) := by
  obtain heq | ⟨hp, -⟩ := mem_insert.mp hp
  · exact .inl heq
  · exact .inr (mem_eraseAll.mp hp)

theorem mem_insertIf {c : Bool} {k : ℕ} (hp : p ∈ insertIf c m k v) :
    (c ∧ p = (k, v)) ∨ (p ∈ m ∧ (c → p.1 ≠ k)) := by
  cases c with
  | true =>
    obtain heq | ⟨hp, hne⟩ := mem_insert.mp hp
    · exact .inl ⟨rfl, heq⟩
    · exact .inr ⟨hp, fun _ => hne⟩
  | false => exact .inr ⟨hp, fun h => absurd h Bool.false_ne_true⟩

end Remap

theorem MmapInv.placed (h : MmapInv m) (hsize : 0 < r.newSize)
    (husable : Usable m r.newSize vaddr) : MmapInv (r.placed m vaddr) := by
  have hsub : ∀ p ∈ m.eraseAll r.postRemove, p ∈ m := fun p hp => (mem_eraseAll.mp hp).1
  exact (h.of_subset hsub).insert_usable hsize (husable.of_subset hsub) rfl rfl

namespace Collected

variable {res : CallResult} (hc : Collected m r)
include hc

theorem copy (h : MmapInv m) (hsize : 0 < r.newSize) (hok : RegionOk m r.optAddress r.newSize)
    (hres : r.copy o m = some res) : MmapInv res.map := by
  obtain ⟨e, rfl⟩ | ⟨newStart, vmaOffset, newEnd, hfind, -, hadd, rfl⟩ := copy_cases hres
  · exact h
  have husable := usable_of_findFreeRegion h hok hfind
  rw [add_eq husable.lt hadd]
  have hnew : MmapInv (m.insert newStart (r.oldVma.cloneFrom newStart (newStart + r.newSize))) :=
    h.insert_usable hsize husable rfl rfl
  refine MmapInv.insert (hnew.of_subset fun p hp => (mem_eraseAll.mp hp).1) rfl hc.lt
    hc.aligned hc.inside.1 hc.inside.2 fun p hp _ => ?_
  obtain ⟨hp, hnot⟩ := mem_eraseAll.mp hp
  obtain rfl | ⟨hp, -⟩ := mem_insert.mp hp
  · exact (hc.free_outside _ _ (Nat.lt_add_of_pos_right hsize) husable.free).symm
  · exact hc.outside p hp hnot

theorem shrink (h : MmapInv m) (hok : r.ShrinkOk) (hres : r.shrink o m = some res) :
    MmapInv res.map := by
  obtain ⟨newEnd, -, hres⟩ := bind_eq_some_iff.mp hres
  cases hres
  split
  · next hlt =>
    -- the part behind the old range replaces the area that begins there
    have hmem := hok.resolve_left hlt.not_ge
    obtain ⟨-, u, hu⟩ := hc.removed _ hmem
    refine h.insert rfl hlt (h.aligned _ hu) (h.inside _ hu).1 hc.inside.2 fun p hp hne => ?_
    obtain hbefore | hbehind := lt_or_gt_of_ne hne
    · exact .inl (h.laid.apart p hp _ hu hbefore)
    have hnot : p.1 ∉ r.postRemove := fun hk => absurd (hc.removed _ hk).1 hbehind.not_ge
    refine .inr ((hc.outside p hp hnot).resolve_left fun hle => ?_)
    have hlt := h.laid.lt_hi hp
    have hstart := hc.start_le
    have hrange := hc.range_le
    omega
  · exact h

/-- There is room up to the next area or the end of the address space. -/
theorem expand_room (h : MmapInv m) (hend : r.oldEnd = r.oldStart + r.oldSize)
    (hlarger : r.oldSize < r.newSize) {room more : ℕ}
    (hroom : o.sub 64 ((m.ceil? r.oldEnd).elim vmaEnd Prod.fst) r.oldEnd = some room)
    (hmore : o.sub 64 r.newSize r.oldSize = some more) (hfits : more ≤ room) :
    r.oldStart + r.newSize ≤ (m.ceil? r.oldEnd).elim vmaEnd Prod.fst ∧
      r.oldStart + r.newSize ≤ vmaEnd := by
  have hupper : r.oldEnd ≤ (m.ceil? r.oldEnd).elim vmaEnd Prod.fst ∧
      (m.ceil? r.oldEnd).elim vmaEnd Prod.fst ≤ vmaEnd := by
    cases hq : m.ceil? r.oldEnd with
    | none => exact ⟨hc.le_end.trans hc.inside.2, le_rfl⟩
    | some q =>
      obtain ⟨hqm, hle, -⟩ := ceil?_eq_some hq
      exact ⟨hle, (h.laid.lt_hi hqm).le.trans (h.inside q hqm).2⟩
  rw [sub_eq hupper.1 hroom, sub_eq hlarger.le hmore] at hfits
  have hnew : r.oldStart + r.newSize ≤ (m.ceil? r.oldEnd).elim vmaEnd Prod.fst := by omega
  exact ⟨hnew, hnew.trans hupper.2⟩

theorem expand (h : MmapInv m) (hsize : 0 < r.newSize) (hend : r.oldEnd = r.oldStart + r.oldSize)
    (hlarger : r.oldSize < r.newSize) (hok : r.GrowOk) (hres : r.expand o m = some (some res)) :
    MmapInv res.map := by
  obtain ⟨e, rfl⟩ | ⟨room, more, newEnd, hroom, hmore, hfits, hadd, rfl⟩ := expand_cases hres
  · exact h
  obtain ⟨hnew, hinside⟩ := hc.expand_room h hend hlarger hroom hmore hfits
  have hlt : r.oldStart + r.newSize < 2 ^ 64 :=
    (Nat.le_add_right ..).trans_lt (end_add_page_lt hinside)
  rw [add_eq hlt hadd]
  have hstart := hc.start_le
  refine h.insert rfl ?_ hc.aligned hc.inside.1 hinside fun p hp hne => ?_
  · show r.oldVma.startAddr < r.oldStart + r.newSize
    omega
  · have hnot : p.1 ∉ r.postRemove := by
      rw [hok]
      exact fun hk => hne (mem_singleton.mp hk)
    refine (hc.outside p hp hnot).imp_right fun hbehind => hnew.trans ?_
    have hge : r.oldEnd ≤ p.1 := hc.le_end.trans hbehind
    cases hq : m.ceil? r.oldEnd with
    | none => exact absurd (ceil?_eq_none.mp hq p hp) hge.not_gt
    | some q => exact (ceil?_eq_some hq).2.2 p hp hge

/-- What is in the map after a move. -/
theorem mem_moved (hok : r.MoveOk) {newEnd : ℕ} (hp : p ∈ r.moved m vaddr newEnd) :
    (r.oldEnd < r.oldVma.endAddr ∧ p = (r.oldEnd, r.rightVma)) ∨
      p = (vaddr, r.oldVma.cloneFrom vaddr newEnd) ∨ (p ∈ m ∧ p.1 ∉ r.postRemove) := by
  obtain ⟨hright, rfl⟩ | ⟨hp, hright⟩ := mem_insertIf hp
  · exact .inl ⟨of_decide_eq_true hright, rfl⟩
  refine .inr ?_
  obtain ⟨hleft, rfl⟩ | ⟨hp, -⟩ := mem_insertIf hp
  · -- the part in front is replaced by the one behind, which has the same key
    have hlt : r.oldEnd < r.oldVma.endAddr := hok.1.resolve_left (of_decide_eq_true hleft).ne
    exact absurd rfl (hright (decide_eq_true hlt))
  obtain ⟨hp, hnot⟩ := mem_eraseAll.mp hp
  obtain heq | ⟨hp, -⟩ := mem_insert.mp hp
  · exact .inl heq
  refine .inr ?_
  obtain ⟨hlt, rfl⟩ | ⟨hp, -⟩ := mem_insertIf hp
  · exact absurd rfl (hright hlt)
  · obtain ⟨-, rfl⟩ | ⟨hp, -⟩ := mem_insertIf hp
    · exact absurd hc.start_mem hnot
    · exact ⟨hp, hnot⟩

/-- The new place and the areas that stay are disjoint from the old area. -/
theorem placed_outside (hsize : 0 < r.newSize) (husable : Usable m r.newSize vaddr)
    (hp : p ∈ r.placed m vaddr) :
    p.2.endAddr ≤ r.oldVma.startAddr ∨ r.oldVma.endAddr ≤ p.1 := by
  obtain rfl | ⟨hp, hnot⟩ := mem_placed hp
  · exact (hc.free_outside _ _ (Nat.lt_add_of_pos_right hsize) husable.free).symm
  · exact hc.outside p hp hnot

theorem moved (h : MmapInv m) (hok : r.MoveOk) (hsize : 0 < r.newSize)
    (husable : Usable m r.newSize vaddr) : MmapInv (r.moved m vaddr (vaddr + r.newSize)) := by
  have hplaced := h.placed hsize husable
  have hmem : ∀ p ∈ r.moved m vaddr (vaddr + r.newSize),
      (r.oldEnd < r.oldVma.endAddr ∧ p = (r.oldEnd, r.rightVma)) ∨ p ∈ r.placed m vaddr := by
    intro p hp
    obtain hright | rfl | hold := hc.mem_moved hok hp
    · exact .inl hright
    · exact .inr (mem_insert.mpr (.inl rfl))
    have hne : p.1 ≠ vaddr := by
      intro heq
      have hlt := h.laid.lt_hi hold.1
      have hfree := husable.free p hold.1
      omega
    exact .inr (mem_insert.mpr (.inr ⟨mem_eraseAll.mpr hold, hne⟩))
  by_cases hlt : r.oldEnd < r.oldVma.endAddr
  · have hstart := hc.start_le.trans hc.range_le
    have hout : ∀ p ∈ r.placed m vaddr, p.2.endAddr ≤ r.oldEnd ∨ r.oldVma.endAddr ≤ p.1 :=
      fun p hp => (hc.placed_outside hsize husable hp).imp_left fun hle => hle.trans hstart
    have hright : MmapInv ((r.placed m vaddr).insert r.oldEnd r.rightVma) :=
      hplaced.insert rfl hlt (hok.2 hlt) (hc.inside.1.trans hstart) hc.inside.2
        fun p hp _ => hout p hp
    refine hright.of_subset fun p hp => mem_insert.mpr ((hmem p hp).imp And.right ?_)
    intro hp
    refine ⟨hp, fun heq => ?_⟩
    have hpos := hplaced.laid.lt_hi hp
    have hcase := hout p hp
    omega
  · exact hplaced.of_subset fun p hp => (hmem p hp).resolve_left fun hright => hlt hright.1

theorem move (h : MmapInv m) (hsize : 0 < r.newSize)
    (hok : RegionOk m r.optAddress r.newSize ∧ r.MoveOk) (hres : r.move o m = some res) :
    MmapInv res.map := by
  obtain ⟨e, rfl⟩ | ⟨vaddr, vmaOffset, newEnd, hfind, -, hadd, rfl⟩ := move_cases hres
  · exact h
  · have husable := usable_of_findFreeRegion h hok.1 hfind
    rw [add_eq husable.lt hadd]
    exact hc.moved h hok.2 hsize husable

/-- Whatever is done with the collected areas keeps the invariant. -/
theorem perform (h : MmapInv m) (hsize : 0 < r.newSize) (hend : r.oldEnd = r.oldStart + r.oldSize)
    (hok : r.Ok o m) (hres : r.perform o m = some res) : MmapInv res.map := by
  unfold Remap.Ok at hok
  obtain ⟨hcopy, hres⟩ | ⟨hcopy, ⟨hshrink, hres⟩ | ⟨hshrink, hway⟩⟩ := perform_cases hres
  · rw [if_pos hcopy] at hok
    exact hc.copy h hsize hok hres
  · rw [if_neg (Bool.eq_false_iff.mp hcopy), if_pos hshrink] at hok
    exact hc.shrink h hok hres
  · rw [if_neg (Bool.eq_false_iff.mp hcopy), if_neg hshrink] at hok
    obtain ⟨hlarger, hgrow, hres⟩ | ⟨hgrow, hmaymove, hres⟩ | ⟨e, rfl⟩ := hway
    · exact hc.expand h hsize hend hlarger (hok _ hgrow) hres
    · exact hc.move h hsize (hok _ hgrow hmaymove) hres
    · exact h

end Collected

end

end HvisorRux.Rux
