import HvisorRux.Rux.Mmap.WellFormed

/-!
# Edits of a range

`sys_munmap`, `snatch_fixed_region` and `sys_mprotect` first walk over the areas in a range and
record what overlaps it, and then edit the map. Afterwards every area is a piece of one from before,
cut at the ends of the range. So the edits keep the invariant if no area is cut inside a page: the
start of the range is checked, its end is not.
-/

namespace HvisorRux.Rux

open Common List Option OrdMap Overlap Vma

section

variable {m m' : VmaMap} {start end_ a : ℕ} {v : Vma} {w : Overlap} {p q : ℕ × Vma}

/-! ## The walk -/

theorem getOverlap_eq_some {x y r : ℕ × ℕ} (h : getOverlap x y = some r) :
    r = (max x.1 y.1, min x.2 y.2) ∧ r.1 < r.2 := by
  obtain ⟨hlt, rfl⟩ := ite_some_none_eq_some.mp h
  exact ⟨rfl, hlt⟩

/-- What the loop records of an area. -/
structure InRange (m : VmaMap) (start end_ : ℕ) (w : Overlap) : Prop where
  mem : (w.key, w.vma) ∈ m
  start_eq : w.overlappedStart = max start w.vma.startAddr
  end_eq : w.overlappedEnd = min end_ w.vma.endAddr
  lt : w.overlappedStart < w.overlappedEnd

theorem inRange_of_mem (hw : w ∈ overlaps m start end_) : InRange m start end_ w := by
  obtain ⟨p, hp, hw⟩ := mem_filterMap.mp hw
  obtain ⟨r, hr, rfl⟩ := map_eq_some_iff.mp hw
  obtain ⟨rfl, hlt⟩ := getOverlap_eq_some hr
  exact ⟨mem_of_mem_cursor ((takeWhile_sublist _).mem hp), rfl, rfl, hlt⟩

theorem overlaps_sorted : (overlaps m start end_).Pairwise fun v w => v.key < w.key := by
  refine List.Pairwise.filterMap _ ?_ (cursor_sorted.sublist (takeWhile_sublist _))
  intro p q hpq v hv w hw
  obtain ⟨-, -, rfl⟩ := map_eq_some_iff.mp hv
  obtain ⟨-, -, rfl⟩ := map_eq_some_iff.mp hw
  exact hpq

/-- The areas that the loop comes to have different keys. -/
theorem overlaps_keys_nodup : ((overlaps m start end_).map key).Nodup :=
  pairwise_map.mpr (overlaps_sorted.imp ne_of_lt)

/-- If the loop starts at all, it misses no area in the range. -/
theorem mem_overlaps (h : Laid startAddr endAddr m) (hfloor : m.floor? start = some q)
    (hp : p ∈ m) (hlt : start < end_) (hstart : start < p.2.endAddr) (hend : p.1 < end_) :
    p.1 ∈ (overlaps m start end_).map key := by
  have hkey := h.key p hp
  have hover : max start p.2.startAddr < min end_ p.2.endAddr :=
    max_lt (lt_min hlt hstart) (lt_min (hkey ▸ hend) (h.nonempty p hp))
  have hwalk : p ∈ (m.cursor start).takeWhile (·.2.startAddr < end_) := by
    rw [takeWhile_eq_filter, mem_filter]
    · exact ⟨h.mem_cursor_of_overlap hfloor hp hstart, decide_eq_true (hkey ▸ hend)⟩
    · refine h.cursor_sorted.imp fun hxy hlt' => ?_
      exact decide_eq_true (hxy.trans (of_decide_eq_true hlt'))
  refine List.mem_map.mpr ⟨⟨p.1, p.2, max start p.2.startAddr, min end_ p.2.endAddr⟩, ?_, rfl⟩
  refine mem_filterMap.mpr ⟨p, hwalk, ?_⟩
  rw [getOverlap, if_pos hover, map_some]

/-- The walk starts, and the range is not empty. -/
def Meets (m : VmaMap) (start end_ : ℕ) : Prop := start < end_ ∧ ∃ q, m.floor? start = some q

theorem meets_of_mem (hw : w ∈ overlaps m start end_) : Meets m start end_ := by
  have hin := inRange_of_mem hw
  refine ⟨?_, ?_⟩
  · have hlt := hin.lt
    rw [hin.start_eq, hin.end_eq] at hlt
    exact (le_max_left ..).trans_lt (hlt.trans_le (min_le_left ..))
  · obtain ⟨p, hp, -⟩ := mem_filterMap.mp hw
    cases hfloor : m.floor? start with
    | none => simp [OrdMap.cursor, hfloor] at hp
    | some q => exact ⟨q, rfl⟩

theorem overlaps_eq_nil (hmeets : ¬ Meets m start end_) : overlaps m start end_ = [] :=
  eq_nil_iff_forall_not_mem.mpr fun _ hw => hmeets (meets_of_mem hw)

section

variable (hmeets : Meets m start end_) (h : Laid startAddr endAddr m) (hp : p ∈ m)

include hmeets h hp

/-- An area that is not recorded lies outside the range. -/
theorem Meets.outside (hnot : p.1 ∉ (overlaps m start end_).map key) :
    p.2.endAddr ≤ start ∨ end_ ≤ p.1 := by
  obtain ⟨hlt, q, hfloor⟩ := hmeets
  by_contra hinside
  obtain ⟨hstart, hend⟩ := not_or.mp hinside
  exact hnot (mem_overlaps h hfloor hp hlt (not_le.mp hstart) (not_le.mp hend))

/-- An area that reaches into the range is recorded. -/
theorem Meets.recorded (hstart : start < p.2.endAddr) (hend : p.1 < end_) :
    ∃ w ∈ overlaps m start end_, w.key = p.1 ∧ w.vma = p.2 := by
  obtain ⟨hlt, q, hfloor⟩ := hmeets
  obtain ⟨w, hw, hkey⟩ := List.mem_map.mp (mem_overlaps h hfloor hp hlt hstart hend)
  exact ⟨w, hw, hkey, val_unique (hkey ▸ (inRange_of_mem hw).mem) hp⟩

end

/-- What is recorded of an area is determined by its key. -/
theorem InRange.unique {w' : Overlap} (hin : InRange m start end_ w)
    (hin' : InRange m start end_ w') (hkey : w.key = w'.key) : w = w' := by
  have hvma : w.vma = w'.vma := val_unique (hkey ▸ hin.mem) hin'.mem
  have hstart : w.overlappedStart = w'.overlappedStart := by rw [hin.start_eq, hin'.start_eq, hvma]
  have hend : w.overlappedEnd = w'.overlappedEnd := by rw [hin.end_eq, hin'.end_eq, hvma]
  cases w
  cases w'
  dsimp only at hkey hvma hstart hend
  rw [hkey, hvma, hstart, hend]

/-- An area outside the range is not recorded. -/
theorem not_mem_keys (hp : p ∈ m) (hout : p.2.endAddr ≤ start ∨ end_ ≤ p.2.startAddr) :
    p.1 ∉ (overlaps m start end_).map key := by
  intro hkey
  obtain ⟨w, hw, hkey⟩ := List.mem_map.mp hkey
  obtain ⟨hmem, hstart, hend, hlt⟩ := inRange_of_mem hw
  have hvma : w.vma = p.2 := val_unique (hkey ▸ hmem) hp
  rw [hvma] at hstart hend
  omega

/-! ## The pieces -/

/-- The ends of the range. -/
def Boundary (start end_ x : ℕ) : Prop := x = start ∨ x = end_

/-- Everything in the map is a piece of the entry of `m` from which it was cut. -/
def CutFrom (m : VmaMap) (start end_ : ℕ) (p : ℕ × Vma) : Prop :=
  ∃ q ∈ m, PieceOf startAddr endAddr (Boundary start end_) q p

/-- An area outside the range is not cut. -/
theorem cutFrom_self (h : Laid startAddr endAddr m) (hlt : start < end_) (hp : p ∈ m)
    (hout : p.2.endAddr ≤ start ∨ end_ ≤ p.1) : CutFrom m start end_ p := by
  have hkey := h.key p hp
  refine ⟨p, hp, hkey, h.nonempty p hp, le_rfl, le_rfl, .inl rfl, ?_⟩
  rintro x (rfl | rfl) hx <;> omega

namespace InRange

variable (hin : InRange m start end_ w)
include hin

theorem cutFrom_left (h : Laid startAddr endAddr m) (hcut : w.cutLeft) :
    CutFrom m start end_ (w.key, { w.vma with endAddr := w.overlappedStart }) ∧
      w.overlappedStart = start := by
  have hcut : w.vma.startAddr < w.overlappedStart := of_decide_eq_true hcut
  obtain ⟨hmem, hstart, hend, hlt⟩ := hin
  have hkey : w.key = w.vma.startAddr := h.key _ hmem
  have heq : w.overlappedStart = start := by omega
  refine ⟨⟨_, hmem, hkey, hcut, le_rfl, ?_, .inl rfl, ?_⟩, heq⟩
  · show w.overlappedStart ≤ w.vma.endAddr
    omega
  · rintro x (rfl | rfl) -
    · exact heq.le
    · show w.overlappedStart ≤ x
      omega

theorem cutFrom_right {r : ℕ × Vma} (hright : w.right = some r) :
    CutFrom m start end_ r ∧ r.1 = end_ := by
  obtain ⟨hcut, rfl⟩ := ite_some_none_eq_some.mp hright
  obtain ⟨hmem, hstart, hend, hlt⟩ := hin
  have heq : w.overlappedEnd = end_ := by omega
  refine ⟨⟨_, hmem, rfl, hcut, ?_, le_rfl, .inr (.inr heq), ?_⟩, heq⟩
  · show w.vma.startAddr ≤ w.overlappedEnd
    omega
  · rintro x (rfl | rfl) (hx : w.overlappedEnd < x) <;> omega

/-- The part of the area inside the range. -/
theorem cutFrom_middle (hstart : v.startAddr = w.overlappedStart)
    (hend : v.endAddr = w.overlappedEnd) : CutFrom m start end_ (w.overlappedStart, v) := by
  obtain ⟨hmem, hmax, hmin, hlt⟩ := hin
  refine ⟨_, hmem, hstart.symm, ?_, ?_, ?_, ?_, ?_⟩
  · show v.startAddr < v.endAddr
    omega
  · show w.vma.startAddr ≤ v.startAddr
    omega
  · show v.endAddr ≤ w.vma.endAddr
    omega
  · show v.startAddr = w.vma.startAddr ∨ Boundary start end_ v.startAddr
    unfold Boundary
    omega
  · rintro x (rfl | rfl) (hx : v.startAddr < x) <;> show v.endAddr ≤ x <;> omega

end InRange

/-- No area is cut inside a page at `a`. -/
def CutOk (m : VmaMap) (a : ℕ) : Prop :=
  pageSize4K ∣ a ∨ ∀ p ∈ m, ¬ (p.2.startAddr < a ∧ a < p.2.endAddr)
deriving Decidable

theorem MmapInv.of_cutFrom (h : MmapInv m) (hstart : pageSize4K ∣ start) (hend : CutOk m end_)
    (hcut : ∀ p ∈ m', CutFrom m start end_ p) : MmapInv m' := by
  refine h.cut hcut fun p hp hbound => ?_
  obtain rfl | hp_end := hbound
  · exact hstart
  obtain hdvd | huncut := hend
  · exact hp_end ▸ hdvd
  -- `end_` is not inside an area, so this one begins there
  obtain ⟨q, hq, hpq⟩ := hcut p hp
  have hlo : q.2.startAddr ≤ p.1 := hpq.key ▸ hpq.lo_le
  have hhi : p.1 < q.2.endAddr := hpq.key ▸ hpq.nonempty.trans_le hpq.le_hi
  have heq : q.1 = p.1 := by
    have hkey := h.laid.key q hq
    have hnot := huncut q hq
    omega
  exact heq ▸ h.aligned q hq

/-! ## The edits -/

theorem key_eq_startAddr (h : Laid startAddr endAddr m) (hw : w ∈ overlaps m start end_) :
    w.vma.startAddr = w.key :=
  (h.key _ (inRange_of_mem hw).mem).symm

variable {key : Overlap → ℕ} {f : Overlap → Vma → Vma} {m₀ : VmaMap} {prot : UInt32}

section

variable (hkey : ∀ w ∈ overlaps m start end_, key w = w.key) {P : Overlap → Bool}

include hkey

section

variable (hm₀ : ∀ w ∈ overlaps m start end_, P w → (w.key, w.vma) ∈ m₀)

include hm₀

/-- A recorded area is looked up by its key; those with `P` are changed once each. -/
theorem mem_updateAll_overlaps {m₁ : VmaMap}
    (h : m₀.updateAll (((overlaps m start end_).filter P).map fun w => (key w, f w)) = some m₁) :
    p ∈ m₁ ↔ (p ∈ m₀ ∧ ∀ w ∈ overlaps m start end_, P w → w.key ≠ p.1) ∨
      ∃ w ∈ overlaps m start end_, P w ∧ p = (w.key, f w w.vma) := by
  have hkeys : (((overlaps m start end_).filter P).map fun w => (key w, f w)).map Prod.fst =
      ((overlaps m start end_).filter P).map Overlap.key := by
    rw [List.map_map]
    exact map_congr_left fun w hw => hkey w (mem_filter.mp hw).1
  have hnodup : (((overlaps m start end_).filter P).map Overlap.key).Nodup :=
    overlaps_keys_nodup.sublist (filter_sublist.map _)
  rw [mem_updateAll (hkeys ▸ hnodup) h, hkeys]
  refine or_congr (and_congr_right fun _ => ?_) ?_
  · simp only [List.mem_map, mem_filter, not_exists, not_and, and_imp]
  · constructor
    · rintro ⟨kf, hkf, a, ha, rfl⟩
      obtain ⟨w, hw, rfl⟩ := List.mem_map.mp hkf
      obtain ⟨hw, hP⟩ := mem_filter.mp hw
      refine ⟨w, hw, hP, ?_⟩
      rw [hkey w hw] at ha ⊢
      rw [val_unique ha (hm₀ w hw hP)]
    · rintro ⟨w, hw, hP, rfl⟩
      refine ⟨(key w, f w), List.mem_map_of_mem (mem_filter.mpr ⟨hw, hP⟩), w.vma, ?_, ?_⟩
      · exact (hkey w hw).symm ▸ hm₀ w hw hP
      · rw [hkey w hw]

theorem updateAll_overlaps_isSome :
    ∃ m₁, m₀.updateAll (((overlaps m start end_).filter P).map fun w => (key w, f w)) =
      some m₁ := by
  refine updateAll_isSome fun kf hkf => ?_
  obtain ⟨w, hw, rfl⟩ := List.mem_map.mp hkf
  obtain ⟨hw, hP⟩ := mem_filter.mp hw
  exact ⟨w.vma, (hkey w hw).symm ▸ hm₀ w hw hP⟩

end

/-- The other areas are kept when those that begin before the range are changed. -/
theorem mem_of_not_cutLeft {m₁ : VmaMap} (hm₀ : ∀ w ∈ overlaps m start end_, (w.key, w.vma) ∈ m₀)
    (h : m₀.updateAll (((overlaps m start end_).filter cutLeft).map fun w =>
      (key w, f w)) = some m₁) :
    ∀ w ∈ overlaps m start end_, !w.cutLeft → (w.key, w.vma) ∈ m₁ := by
  intro w hw hleft
  refine (mem_updateAll_overlaps hkey (fun w hw _ => hm₀ w hw) h).mpr
    (.inl ⟨hm₀ w hw, fun w' hw' hleft' hkey' => ?_⟩)
  obtain rfl := (inRange_of_mem hw').unique (inRange_of_mem hw) hkey'
  simp [hleft'] at hleft

end

theorem mem_protectedParts (hp : p ∈ w.protectedParts prot) :
    w.right = some p ∨ (w.cutLeft ∧ p = (w.overlappedStart,
      { w.vma.cloneFrom w.overlappedStart w.overlappedEnd with prot })) := by
  obtain hp | hp := mem_append.mp hp
  · exact .inl (mem_toList.mp hp)
  · split at hp
    · next hcut => exact .inr ⟨hcut, mem_singleton.mp hp⟩
    · cases hp

section

variable (h : Laid startAddr endAddr m)

include h

/-- What is inserted begins inside an area that is cut. -/
theorem part_cuts (hw : w ∈ overlaps m start end_) (hp : p ∈ w.protectedParts prot) :
    w.key < p.1 ∧ p.1 < w.vma.endAddr := by
  have hkey := key_eq_startAddr h hw
  obtain ⟨-, hstart, hend, hlt⟩ := inRange_of_mem hw
  obtain hright | ⟨hleft, rfl⟩ := mem_protectedParts hp
  · obtain ⟨hcut, rfl⟩ := ite_some_none_eq_some.mp hright
    omega
  · have hleft : w.vma.startAddr < w.overlappedStart := of_decide_eq_true hleft
    omega

/-- What is inserted replaces no area. -/
theorem part_ne (hp : p ∈ m)
    (hq : q ∈ (overlaps m start end_).flatMap (·.protectedParts prot)) : q.1 ≠ p.1 := by
  intro hqp
  obtain ⟨w, hw, hq⟩ := mem_flatMap.mp hq
  obtain ⟨hlt, hend⟩ := part_cuts h hw hq
  have hapart := h.apart _ (inRange_of_mem hw).mem p hp (hqp ▸ hlt)
  exact absurd (hqp ▸ hend) hapart.not_gt

/-- What is inserted under one key is one part. -/
theorem parts_same {q' : ℕ × Vma} (hq : q ∈ (overlaps m start end_).flatMap (·.protectedParts prot))
    (hq' : q' ∈ (overlaps m start end_).flatMap (·.protectedParts prot)) (hkey : q'.1 = q.1) :
    q' = q := by
  obtain ⟨w, hw, hpart⟩ := mem_flatMap.mp hq
  obtain ⟨w', hw', hpart'⟩ := mem_flatMap.mp hq'
  have hin := inRange_of_mem hw
  have hin' := inRange_of_mem hw'
  have hcuts := part_cuts h hw hpart
  have hcuts' := hkey ▸ part_cuts h hw' hpart'
  have heq := h.eq_of_common hin.mem hin'.mem hcuts.1.le hcuts.2 hcuts'.1.le hcuts'.2
  obtain rfl := hin.unique hin' (Prod.mk.inj heq).1
  have hlt := hin.lt
  obtain hright | ⟨-, rfl⟩ := mem_protectedParts hpart <;>
    obtain hright' | ⟨-, rfl⟩ := mem_protectedParts hpart'
  · exact some.inj (hright'.symm.trans hright)
  · obtain ⟨-, rfl⟩ := ite_some_none_eq_some.mp hright
    exact absurd hkey hlt.ne
  · obtain ⟨-, rfl⟩ := ite_some_none_eq_some.mp hright'
    exact absurd hkey hlt.ne'
  · rfl

end

theorem right_mem_parts (prot : UInt32) (hp : p ∈ (overlaps m start end_).filterMap right) :
    p ∈ (overlaps m start end_).flatMap (·.protectedParts prot) := by
  obtain ⟨w, hw, hright⟩ := mem_filterMap.mp hp
  exact mem_flatMap.mpr ⟨w, hw, mem_append_left _ (mem_toList.mpr hright)⟩

/-! ## Taking the range out of the map -/

section

variable (h : Laid startAddr endAddr m)

include h

/-- What `cutAway` leaves: the areas outside the range, and the parts of the others in front of it
and behind it. -/
theorem mem_cutAway (hkey : ∀ w ∈ overlaps m start end_, key w = w.key)
    (hcut : cutAway key m (overlaps m start end_) = some m') :
    p ∈ m' ↔ p ∈ (overlaps m start end_).filterMap Overlap.right ∨
      (p ∈ m ∧ p.1 ∉ (overlaps m start end_).map Overlap.key) ∨
      ∃ w ∈ overlaps m start end_, w.cutLeft ∧
        p = (w.key, { w.vma with endAddr := w.overlappedStart }) := by
  obtain ⟨m₁, hshrink, hcut⟩ := bind_eq_some_iff.mp hcut
  obtain ⟨m₂, hremove, hcut⟩ := bind_eq_some_iff.mp hcut
  cases hcut
  have hm₁ := fun p => mem_updateAll_overlaps (p := p) hkey
    (fun w hw _ => (inRange_of_mem hw).mem) hshrink
  have hm₂ : ∀ p, p ∈ m₂ ↔ p ∈ m₁ ∧ ∀ w ∈ overlaps m start end_, w.cutLeft = false →
      w.key ≠ p.1 := by
    intro p
    rw [mem_removeAll hremove]
    refine and_congr_right fun _ => ⟨fun hnot w hw hleft hwp => ?_, fun hnot hp => ?_⟩
    · refine hnot (List.mem_map.mpr ⟨w, mem_filter.mpr ⟨hw, by rw [hleft]; rfl⟩, ?_⟩)
      rw [key_eq_startAddr h hw, hwp]
    · obtain ⟨w, hw, hwp⟩ := List.mem_map.mp hp
      obtain ⟨hw, hleft⟩ := mem_filter.mp hw
      exact hnot w hw (by simpa using hleft) (key_eq_startAddr h hw ▸ hwp)
  -- an area of the map, or what is left of it, is not replaced by a part behind the range
  have hrest : ∀ q, q ∈ m₂ → (∃ v, (q.1, v) ∈ m) →
      q ∈ m₂.insertAll ((overlaps m start end_).filterMap Overlap.right) := by
    rintro q hq ⟨v, hv⟩
    refine mem_insertAll_of_not_mem hq fun hright => ?_
    obtain ⟨r, hr, hrq⟩ := List.mem_map.mp hright
    exact part_ne h hv (right_mem_parts 0 hr) hrq
  constructor
  · intro hp
    obtain hp | ⟨hp, -⟩ := mem_of_insertAll hp
    · exact .inl hp
    obtain ⟨hp, hkept⟩ := (hm₂ p).mp hp
    refine .inr (((hm₁ p).mp hp).imp_left fun hp => ⟨hp.1, fun hrec => ?_⟩)
    obtain ⟨w, hw, hwp⟩ := List.mem_map.mp hrec
    cases hleft : w.cutLeft with
    | true => exact hp.2 w hw hleft hwp
    | false => exact hkept w hw hleft hwp
  · rintro (hp | ⟨hp, hrec⟩ | ⟨w, hw, hleft, rfl⟩)
    · refine mem_insertAll_of_mem hp fun q hq hqp => ?_
      exact parts_same h (right_mem_parts 0 hp) (right_mem_parts 0 hq) hqp
    · have hother : ∀ w ∈ overlaps m start end_, w.key ≠ p.1 :=
        fun w hw hwp => hrec (List.mem_map.mpr ⟨w, hw, hwp⟩)
      refine hrest p ((hm₂ p).mpr ⟨(hm₁ p).mpr (.inl ⟨hp, ?_⟩), ?_⟩) ⟨p.2, hp⟩
      · exact fun w hw _ => hother w hw
      · exact fun w hw _ => hother w hw
    · have hin := inRange_of_mem hw
      refine hrest _ ((hm₂ _).mpr ⟨(hm₁ _).mpr (.inr ⟨w, hw, hleft, rfl⟩), ?_⟩) ⟨_, hin.mem⟩
      intro w' hw' hleft' hkey'
      obtain rfl := (inRange_of_mem hw').unique hin hkey'
      exact absurd hleft (by rw [hleft']; decide)

theorem cutAway_isSome (hkey : ∀ w ∈ overlaps m start end_, key w = w.key) :
    ∃ m', cutAway key m (overlaps m start end_) = some m' := by
  obtain ⟨m₁, hshrink⟩ := updateAll_overlaps_isSome (P := Overlap.cutLeft)
    (f := fun w vma => { vma with endAddr := w.overlappedStart }) hkey
    fun w hw _ => (inRange_of_mem hw).mem
  have hkeys : ((overlaps m start end_).filter (!·.cutLeft)).map (·.vma.startAddr) =
      ((overlaps m start end_).filter (!·.cutLeft)).map Overlap.key :=
    map_congr_left fun w hw => key_eq_startAddr h (mem_filter.mp hw).1
  obtain ⟨m₂, hremove⟩ : ∃ m₂, m₁.removeAll
      (((overlaps m start end_).filter (!·.cutLeft)).map (·.vma.startAddr)) = some m₂ := by
    rw [hkeys]
    refine removeAll_isSome (overlaps_keys_nodup.sublist (filter_sublist.map _)) ?_
    intro k hk
    obtain ⟨w, hw, rfl⟩ := List.mem_map.mp hk
    obtain ⟨hw, hleft⟩ := mem_filter.mp hw
    exact ⟨w.vma, mem_of_not_cutLeft hkey (fun w hw => (inRange_of_mem hw).mem) hshrink w hw hleft⟩
  exact ⟨_, bind_eq_some_iff.mpr ⟨m₁, hshrink, bind_eq_some_iff.mpr ⟨m₂, hremove, rfl⟩⟩⟩

theorem cutAway_mem (hmeets : Meets m start end_)
    (hkey : ∀ w ∈ overlaps m start end_, key w = w.key)
    (hcut : cutAway key m (overlaps m start end_) = some m') (hp : p ∈ m') :
    CutFrom m start end_ p ∧ (p.2.endAddr ≤ start ∨ end_ ≤ p.1) := by
  obtain hp | ⟨hp, hrec⟩ | ⟨w, hw, hleft, rfl⟩ := (mem_cutAway h hkey hcut).mp hp
  · -- the part of an area behind the range
    obtain ⟨w, hw, hright⟩ := mem_filterMap.mp hp
    obtain ⟨hfrom, hend⟩ := (inRange_of_mem hw).cutFrom_right hright
    exact ⟨hfrom, .inr hend.ge⟩
  · have hout := hmeets.outside h hp hrec
    exact ⟨cutFrom_self h hmeets.1 hp hout, hout⟩
  · -- the part of an area in front of the range
    obtain ⟨hfrom, hstart⟩ := (inRange_of_mem hw).cutFrom_left h hleft
    exact ⟨hfrom, .inl hstart.le⟩

end

/-- Taking a range out of the map keeps the invariant. -/
theorem MmapInv.cutAway (h : MmapInv m) (hstart : pageSize4K ∣ start)
    (hend : Meets m start end_ → CutOk m end_) (hkey : ∀ w ∈ overlaps m start end_, key w = w.key)
    (hcut : cutAway key m (overlaps m start end_) = some m') : MmapInv m' := by
  by_cases hmeets : Meets m start end_
  · exact h.of_cutFrom hstart (hend hmeets) fun p hp => (cutAway_mem h.laid hmeets hkey hcut hp).1
  · rw [overlaps_eq_nil hmeets] at hcut
    cases hcut
    exact h

/-! ## Changing the protection of the range -/

section

variable (h : Laid startAddr endAddr m)

include h

theorem mem_insertAll_parts (hp : p ∈ m) :
    p ∈ m.insertAll ((overlaps m start end_).flatMap (·.protectedParts prot)) := by
  refine mem_insertAll_of_not_mem hp fun hpart => ?_
  obtain ⟨q, hq, hqp⟩ := List.mem_map.mp hpart
  exact part_ne h hp hq hqp

/-- What `protectRange` leaves: the areas outside the range, the parts of the others in front of it,
and what is inserted or changed inside it and behind it. -/
theorem mem_protectRange (hprot : protectRange prot m (overlaps m start end_) = some m') :
    p ∈ m' ↔ p ∈ (overlaps m start end_).flatMap (·.protectedParts prot) ∨
      (p ∈ m ∧ p.1 ∉ (overlaps m start end_).map Overlap.key) ∨
      (∃ w ∈ overlaps m start end_, w.cutLeft ∧
        p = (w.key, { w.vma with endAddr := w.overlappedStart })) ∨
      ∃ w ∈ overlaps m start end_, w.cutLeft = false ∧
        p = (w.key, { w.vma with endAddr := w.overlappedEnd, prot }) := by
  have hkey : ∀ w ∈ overlaps m start end_, w.vma.startAddr = w.key :=
    fun w hw => key_eq_startAddr h hw
  obtain ⟨m₂, hshrink, hchange⟩ := bind_eq_some_iff.mp hprot
  have hmem : ∀ w ∈ overlaps m start end_, (w.key, w.vma) ∈
      m.insertAll ((overlaps m start end_).flatMap (·.protectedParts prot)) :=
    fun w hw => mem_insertAll_parts h (inRange_of_mem hw).mem
  have hm₁ := fun p => mem_updateAll_overlaps (p := p) hkey (fun w hw _ => hmem w hw) hshrink
  rw [mem_updateAll_overlaps hkey (mem_of_not_cutLeft hkey hmem hshrink) hchange]
  constructor
  · rintro (⟨hp, hunchanged⟩ | ⟨w, hw, hleft, rfl⟩)
    · obtain ⟨hp, hunshrunk⟩ | hleft := (hm₁ p).mp hp
      · obtain hpart | ⟨hp, -⟩ := mem_of_insertAll hp
        · exact .inl hpart
        · refine .inr (.inl ⟨hp, fun hrec => ?_⟩)
          obtain ⟨w, hw, hwp⟩ := List.mem_map.mp hrec
          cases hleft : w.cutLeft with
          | true => exact hunshrunk w hw hleft hwp
          | false => exact hunchanged w hw (by rw [hleft]; rfl) hwp
      · exact .inr (.inr (.inl hleft))
    · exact .inr (.inr (.inr ⟨w, hw, by simpa using hleft, rfl⟩))
  · rintro (hpart | ⟨hp, hrec⟩ | ⟨w, hw, hleft, rfl⟩ | ⟨w, hw, hleft, rfl⟩)
    · have hother : ∀ w ∈ overlaps m start end_, w.key ≠ p.1 :=
        fun w hw => (part_ne h (inRange_of_mem hw).mem hpart).symm
      have hins := mem_insertAll_of_mem (m := m) hpart fun q hq => parts_same h hpart hq
      exact .inl ⟨(hm₁ p).mpr (.inl ⟨hins, fun w hw _ => hother w hw⟩), fun w hw _ => hother w hw⟩
    · have hother : ∀ w ∈ overlaps m start end_, w.key ≠ p.1 :=
        fun w hw hwp => hrec (List.mem_map.mpr ⟨w, hw, hwp⟩)
      exact .inl ⟨(hm₁ p).mpr (.inl ⟨mem_insertAll_parts h hp, fun w hw _ => hother w hw⟩),
        fun w hw _ => hother w hw⟩
    · refine .inl ⟨(hm₁ _).mpr (.inr ⟨w, hw, hleft, rfl⟩), fun w' hw' hleft' hkey' => ?_⟩
      obtain rfl := (inRange_of_mem hw').unique (inRange_of_mem hw) hkey'
      simp [hleft] at hleft'
    · exact .inr ⟨w, hw, by rw [hleft]; rfl, rfl⟩

theorem protectRange_isSome (prot : UInt32) :
    ∃ m', protectRange prot m (overlaps m start end_) = some m' := by
  have hkey : ∀ w ∈ overlaps m start end_, w.vma.startAddr = w.key :=
    fun w hw => key_eq_startAddr h hw
  have hmem : ∀ w ∈ overlaps m start end_, (w.key, w.vma) ∈
      m.insertAll ((overlaps m start end_).flatMap (·.protectedParts prot)) :=
    fun w hw => mem_insertAll_parts h (inRange_of_mem hw).mem
  obtain ⟨m₁, hshrink⟩ := updateAll_overlaps_isSome (P := cutLeft)
    (f := fun w vma => { vma with endAddr := w.overlappedStart }) hkey fun w hw _ => hmem w hw
  obtain ⟨m₂, hchange⟩ := updateAll_overlaps_isSome
    (f := fun w vma => { vma with endAddr := w.overlappedEnd, prot }) hkey
    (mem_of_not_cutLeft hkey hmem hshrink)
  exact ⟨m₂, bind_eq_some_iff.mpr ⟨m₁, hshrink, hchange⟩⟩

end

/-- An area that does not begin before the range begins inside it. -/
theorem InRange.start_eq_of_not_cutLeft (hin : InRange m start end_ w) (hleft : w.cutLeft = false) :
    w.vma.startAddr = w.overlappedStart := by
  have hle := of_decide_eq_false hleft
  have hmax := hin.start_eq
  omega

theorem protectRange_mem (h : Laid startAddr endAddr m) (hmeets : Meets m start end_)
    (hprot : protectRange prot m (overlaps m start end_) = some m') (hp : p ∈ m') :
    CutFrom m start end_ p := by
  obtain hp | ⟨hp, hrec⟩ | ⟨w, hw, hleft, rfl⟩ | ⟨w, hw, hleft, rfl⟩ :=
    (mem_protectRange h hprot).mp hp
  · obtain ⟨w, hw, hpart⟩ := mem_flatMap.mp hp
    have hin := inRange_of_mem hw
    obtain hright | ⟨-, rfl⟩ := mem_protectedParts hpart
    · exact (hin.cutFrom_right hright).1
    · exact hin.cutFrom_middle rfl rfl
  · exact cutFrom_self h hmeets.1 hp (hmeets.outside h hp hrec)
  · exact ((inRange_of_mem hw).cutFrom_left h hleft).1
  · have hin := inRange_of_mem hw
    have hstart := hin.start_eq_of_not_cutLeft hleft
    rw [← key_eq_startAddr h hw, hstart]
    exact hin.cutFrom_middle hstart rfl

/-- Changing the protection of a range keeps the invariant. -/
theorem MmapInv.protectRange (h : MmapInv m) (hstart : pageSize4K ∣ start)
    (hend : Meets m start end_ → CutOk m end_)
    (hprot : protectRange prot m (overlaps m start end_) = some m') : MmapInv m' := by
  by_cases hmeets : Meets m start end_
  · exact h.of_cutFrom hstart (hend hmeets) fun p hp => protectRange_mem h.laid hmeets hprot hp
  · rw [overlaps_eq_nil hmeets] at hprot
    cases hprot
    exact h

/-! ## The calls -/

variable {o : Overflow} {len : ℕ} {res : CallResult}

/-- Such a call fails, or the areas cover the range and are edited. -/
theorem editRange_cases {uncovered : LinuxError} {edit : List Overlap → Option VmaMap}
    {page : ℕ → ℕ → PageOp} (hres : editRange o m start len uncovered edit page = some res) :
    (∃ e, res = .fail m e) ∨ ∃ end_ m', o.add 64 start len = some end_ ∧ pageSize4K ∣ start ∧
      len ≠ 0 ∧ o.sub 64 end_ start = some (counter (overlaps m start end_)) ∧
      edit (overlaps m start end_) = some m' ∧ res = ⟨m', [page start end_], .ok 0⟩ := by
  obtain ⟨end_, hadd, hres⟩ := bind_eq_some_iff.mp hres
  split at hres
  · exact .inl ⟨_, (some.inj hres).symm⟩
  rename_i hchecked
  obtain ⟨haligned, hlen⟩ := not_or.mp hchecked
  obtain ⟨size, hsize, hres⟩ := bind_eq_some_iff.mp hres
  split at hres
  · exact .inl ⟨_, (some.inj hres).symm⟩
  · next hcovers =>
    obtain ⟨m', hm', hres⟩ := bind_eq_some_iff.mp hres
    refine .inr ⟨end_, m', hadd, not_not.mp haligned, hlen, ?_, hm', (some.inj hres).symm⟩
    rw [hsize, not_not.mp hcovers]

/-- `sys_mmap` fails, or it puts the new area into the region that it has found. -/
theorem sysMmap_cases {files : ℕ → Option ℕ} {prot flags : UInt32} {fd : Int} {off : ℕ}
    (hres : sysMmap o files m start len prot flags fd off = some res) :
    (∃ e, res = .fail m e) ∨ ∃ n file m' pages vaddr end_, mmapLen o len flags = some n ∧
      pageSize4K ∣ start ∧ n ≠ 0 ∧ mmapFile files flags fd = some file ∧
      mmapRegion o m start n flags = some (some (m', pages, vaddr)) ∧
      o.add 64 vaddr n = some end_ ∧
      res = ⟨m'.insert vaddr ⟨vaddr, end_, file, off, prot, flags⟩, pages, .ok vaddr⟩ := by
  unfold sysMmap at hres
  split at hres
  · exact .inl ⟨_, (some.inj hres).symm⟩
  split at hres
  · exact .inl ⟨_, (some.inj hres).symm⟩
  obtain ⟨n, hn, hres⟩ := bind_eq_some_iff.mp hres
  split at hres
  · exact .inl ⟨_, (some.inj hres).symm⟩
  rename_i hchecked
  obtain ⟨haligned, hne⟩ := not_or.mp hchecked
  obtain ⟨file, hfile, hres⟩ := bind_eq_some_iff.mp hres
  obtain ⟨region, hregion, hres⟩ := bind_eq_some_iff.mp hres
  cases region with
  | none => exact .inl ⟨_, (some.inj hres).symm⟩
  | some found =>
    obtain ⟨m', pages, vaddr⟩ := found
    obtain ⟨end_, hadd, hres⟩ := bind_eq_some_iff.mp hres
    exact .inr ⟨n, file, m', pages, vaddr, end_, hn, not_not.mp haligned, hne, hfile, hregion,
      hadd, (some.inj hres).symm⟩

end

end HvisorRux.Rux
