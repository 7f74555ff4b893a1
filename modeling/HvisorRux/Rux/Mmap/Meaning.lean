import HvisorRux.Rux.Mmap.Ranges

/-!
# What the addresses mean

A page fault looks up the last area that begins up to the address. What it finds there says what the
address means: the byte of a file that it shows, its protection and its flags. Outside their range,
`sys_munmap`, `sys_mprotect` and `sys_mmap` with `MAP_FIXED` should leave all this as it is. But the
part of an area behind the range is made by `Vma::clone_from`, which keeps the file offset of the
whole area and takes the flags from the protection, and so is the part inside the range that
`sys_mprotect` cuts off an area in front. So nothing changes just if `CutClean` holds where such
areas are cut: they have no file, and their flags are their protection.
-/

namespace HvisorRux.Rux

open Common List Option

/-- What an address means: the file and the offset in it, the protection and the flags. -/
structure Mapping where
  file : Option (ℕ × ℕ)
  prot : UInt32
  flags : UInt32
deriving DecidableEq, Repr

/-- What an address of the area means. -/
def Vma.mapping (v : Vma) (addr : ℕ) : Mapping :=
  ⟨v.file.map fun f => (f, v.offset + (addr - v.startAddr)), v.prot, v.flags⟩

/-- What an address means; `none` if it is not mapped. -/
def mappingAt (m : VmaMap) (addr : ℕ) : Option Mapping :=
  (entryAt Vma.endAddr m addr).map fun p => p.2.mapping addr

/-- The area contains the address. -/
def Covers (p : ℕ × Vma) (addr : ℕ) : Prop := p.1 ≤ addr ∧ addr < p.2.endAddr

/-- A clone of a part of the area means the same. -/
def Vma.CloneSafe (v : Vma) : Prop := v.file = none ∧ v.flags = v.prot

instance (v : Vma) : Decidable v.CloneSafe := inferInstanceAs (Decidable (_ ∧ _))

/-- The areas that are cut at `a` may be cloned. -/
def CutClean (m : VmaMap) (a : ℕ) : Prop :=
  ∀ p ∈ m, p.2.startAddr < a → a < p.2.endAddr → p.2.CloneSafe
deriving Decidable

section

variable {γ : Type*} {g : Mapping → γ} {m m' : VmaMap} {start end_ addr : ℕ} {v : Vma}
  {w w' : Overlap} {p : ℕ × Vma}

/-- As far as `g` tells, the areas that are cut at `a` may be cloned. -/
def CloneKeeps (g : Mapping → γ) (m : VmaMap) (a : ℕ) : Prop :=
  ∀ p ∈ m, p.2.startAddr < a → a < p.2.endAddr →
    ∀ x y addr, g ((p.2.cloneFrom x y).mapping addr) = g (p.2.mapping addr)

theorem Vma.CloneSafe.mapping_cloneFrom (h : v.CloneSafe) (a b addr : ℕ) :
    (v.cloneFrom a b).mapping addr = v.mapping addr := by
  obtain ⟨hfile, hflags⟩ := h
  simp [Vma.mapping, Vma.cloneFrom, hfile, hflags]

theorem CutClean.keeps {a : ℕ} (h : CutClean m a) (g : Mapping → γ) : CloneKeeps g m a :=
  fun p hp hstart hend x y addr => congrArg g ((h p hp hstart hend).mapping_cloneFrom x y addr)

section

variable (h : Laid Vma.startAddr Vma.endAddr m)

include h

/-- Maps may be compared area by area. -/
theorem mappingAt_map (h' : Laid Vma.startAddr Vma.endAddr m') (f : γ → γ)
    (hto : ∀ p ∈ m, Covers p addr →
      ∃ q ∈ m', Covers q addr ∧ g (q.2.mapping addr) = f (g (p.2.mapping addr)))
    (hback : ∀ q ∈ m', Covers q addr → ∃ p ∈ m, Covers p addr) :
    (mappingAt m' addr).map g = ((mappingAt m addr).map g).map f := by
  cases hat : entryAt Vma.endAddr m addr with
  | some p =>
    obtain ⟨hp, hcovers⟩ := h.entryAt_eq_some.mp hat
    obtain ⟨q, hq, hcovers', heq⟩ := hto p hp hcovers
    simp only [mappingAt, h'.entryAt_eq_some.mpr ⟨hq, hcovers'⟩, hat, map_some, heq]
  | none =>
    cases hat' : entryAt Vma.endAddr m' addr with
    | none => simp only [mappingAt, hat', hat, map_none]
    | some q =>
      obtain ⟨hq, hcovers'⟩ := h'.entryAt_eq_some.mp hat'
      obtain ⟨p, hp, hcovers⟩ := hback q hq hcovers'
      rw [h.entryAt_eq_some.mpr ⟨hp, hcovers⟩] at hat
      cases hat

/-- The pieces of the areas cover no new address. -/
theorem CutFrom.covers {q : ℕ × Vma} (hcut : CutFrom m start end_ q) (hcovers : Covers q addr) :
    ∃ p ∈ m, Covers p addr := by
  obtain ⟨p, hp, hpiece⟩ := hcut
  refine ⟨p, hp, ?_, hcovers.2.trans_le hpiece.le_hi⟩
  calc p.1 = p.2.startAddr := h.key p hp
    _ ≤ q.2.startAddr := hpiece.lo_le
    _ = q.1 := hpiece.key.symm
    _ ≤ addr := hcovers.1

/-! ## Addresses outside the range -/

/-- The piece of a recorded area that contains an address outside the range. -/
theorem piece_outside (hkeeps : CloneKeeps g m end_) (hw : w ∈ overlaps m start end_)
    (hcovers : Covers (w.key, w.vma) addr) (hout : addr < start ∨ end_ ≤ addr) :
    ∃ q, (w.right = some q ∨ (w.cutLeft ∧
        q = (w.key, { w.vma with endAddr := w.overlappedStart }))) ∧
      Covers q addr ∧ g (q.2.mapping addr) = g (w.vma.mapping addr) := by
  have hkey := key_eq_startAddr h hw
  obtain ⟨hmem, hstart, hend, hlt⟩ := inRange_of_mem hw
  obtain ⟨hle : w.key ≤ addr, haddr : addr < w.vma.endAddr⟩ := hcovers
  obtain hfront | hbehind := hout
  · refine ⟨_, .inr ⟨decide_eq_true ?_, rfl⟩, ⟨hle, ?_⟩, rfl⟩
    · omega
    · show addr < w.overlappedStart
      omega
  · have hcut : w.overlappedEnd < w.vma.endAddr := by omega
    refine ⟨_, .inl (if_pos hcut), ⟨?_, haddr⟩, ?_⟩
    · omega
    · exact hkeeps _ hmem (show w.vma.startAddr < end_ by omega)
        (show end_ < w.vma.endAddr by omega) _ _ _

variable {key : Overlap → ℕ}

section

variable (hkey : ∀ w ∈ overlaps m start end_, key w = w.key)
  (hkeeps : Meets m start end_ → CloneKeeps g m end_)
  (hcut : cutAway key m (overlaps m start end_) = some m')

include hkey hkeeps hcut

theorem mappingAt_cutAway
    (hout : addr < start ∨ end_ ≤ addr) : (mappingAt m' addr).map g = (mappingAt m addr).map g := by
  by_cases hmeets : Meets m start end_
  · have h' : Laid Vma.startAddr Vma.endAddr m' :=
      h.cut fun p hp => (cutAway_mem h hmeets hkey hcut hp).1
    refine (mappingAt_map h h' id (fun p hp hcovers => ?_) fun q hq hcovers => ?_).trans
      Option.map_id'
    · by_cases hin : start < p.2.endAddr ∧ p.1 < end_
      · obtain ⟨w, hw, hwkey, hwvma⟩ := hmeets.recorded h hp hin.1 hin.2
        obtain rfl : p = (w.key, w.vma) := Prod.ext hwkey.symm hwvma.symm
        obtain ⟨q, hq, hpiece⟩ := piece_outside h (hkeeps hmeets) hw hcovers hout
        refine ⟨q, (mem_cutAway h hkey hcut).mpr ?_, hpiece⟩
        obtain hright | hleft := hq
        · exact .inl (mem_filterMap.mpr ⟨w, hw, hright⟩)
        · exact .inr (.inr ⟨w, hw, hleft⟩)
      · have hkeep := not_mem_keys hp (h.key p hp ▸ (not_and_or.mp hin).imp not_lt.mp not_lt.mp)
        exact ⟨p, (mem_cutAway h hkey hcut).mpr (.inr (.inl ⟨hp, hkeep⟩)), hcovers, rfl⟩
    · exact (cutAway_mem h hmeets hkey hcut hq).1.covers h hcovers
  · rw [overlaps_eq_nil hmeets] at hcut
    cases hcut
    rfl

omit hkeeps in
/-- A mapping with `MAP_FIXED`: the areas in the region are taken out, and the new one is put there.
This also holds if the walk over the areas does not start, and the old ones stay in the region. -/
theorem mappingAt_insert_cutAway
    (hlt : start < end_) (hv : v.endAddr = end_) (hout : addr < start ∨ end_ ≤ addr) :
    mappingAt (m'.insert start v) addr = mappingAt m' addr := by
  rw [mappingAt, entryAt_insert, mappingAt]
  refine hout.imp_right fun hend => ⟨hv ▸ hend, fun p hp hle => ?_⟩
  by_cases hmeets : Meets m start end_
  · obtain hfront | hbehind := (cutAway_mem h hmeets hkey hcut hp).2
    · exact hfront.trans (hlt.le.trans hend)
    · exact absurd (hbehind.trans hle) hlt.not_ge
  -- no area begins up to `start`
  rw [overlaps_eq_nil hmeets] at hcut
  cases hcut
  have hnone : m.floor? start = none :=
    eq_none_iff_forall_ne_some.mpr fun q hq => hmeets ⟨hlt, q, hq⟩
  exact absurd (OrdMap.floor?_eq_none.mp hnone p hp) hle.not_gt

end

end

/-! ## Changes of the protection -/

variable {prot : UInt32} {f : γ → γ}

/-- The piece of a recorded area that contains an address inside the range. -/
theorem piece_inside (hkeeps : CloneKeeps g m start)
    (hf : ∀ b, g { b with prot } = f (g b)) (hw : w ∈ overlaps m start end_)
    (hcovers : Covers (w.key, w.vma) addr) (hin : start ≤ addr ∧ addr < end_) :
    ∃ q, (q ∈ w.protectedParts prot ∨ (w.cutLeft = false ∧
        q = (w.key, { w.vma with endAddr := w.overlappedEnd, prot }))) ∧
      Covers q addr ∧ g (q.2.mapping addr) = f (g (w.vma.mapping addr)) := by
  obtain ⟨hmem, hstart, hend, hlt⟩ := inRange_of_mem hw
  obtain ⟨hle : w.key ≤ addr, haddr : addr < w.vma.endAddr⟩ := hcovers
  cases hleft : w.cutLeft with
  | true =>
    have hcut : w.vma.startAddr < w.overlappedStart := of_decide_eq_true hleft
    refine ⟨(w.overlappedStart, { w.vma.cloneFrom w.overlappedStart w.overlappedEnd with prot }),
      .inl (mem_append_right _ ?_), ⟨?_, ?_⟩, ?_⟩
    · rw [if_pos hleft]
      exact mem_singleton_self _
    · omega
    · show addr < w.overlappedEnd
      omega
    · have hsame := hkeeps _ hmem (show w.vma.startAddr < start by omega)
        (show start < w.vma.endAddr by omega) w.overlappedStart w.overlappedEnd addr
      exact (hf _).trans (congrArg f hsame)
  | false =>
    refine ⟨_, .inr ⟨rfl, rfl⟩, ⟨hle, ?_⟩, hf (w.vma.mapping addr)⟩
    show addr < w.overlappedEnd
    omega

theorem mappingAt_protectRange (h : Laid Vma.startAddr Vma.endAddr m)
    (hkeeps : CloneKeeps g m start ∧ CloneKeeps g m end_) (hf : ∀ b, g { b with prot } = f (g b))
    (hprot : protectRange prot m (overlaps m start end_) = some m') :
    ((addr < start ∨ end_ ≤ addr) → (mappingAt m' addr).map g = (mappingAt m addr).map g) ∧
      (Meets m start end_ → start ≤ addr → addr < end_ →
        (mappingAt m' addr).map g = ((mappingAt m addr).map g).map f) := by
  by_cases hmeets : Meets m start end_
  · have h' : Laid Vma.startAddr Vma.endAddr m' :=
      h.cut fun p hp => protectRange_mem h hmeets hprot hp
    refine ⟨fun hout => (mappingAt_map h h' id (fun p hp hcovers => ?_) ?_).trans Option.map_id',
      fun _ hstart hend => mappingAt_map h h' _ (fun p hp hcovers => ?_) ?_⟩
    · by_cases hin : start < p.2.endAddr ∧ p.1 < end_
      · obtain ⟨w, hw, hwkey, hwvma⟩ := hmeets.recorded h hp hin.1 hin.2
        obtain rfl : p = (w.key, w.vma) := Prod.ext hwkey.symm hwvma.symm
        obtain ⟨q, hq, hpiece⟩ := piece_outside h hkeeps.2 hw hcovers hout
        refine ⟨q, (mem_protectRange h hprot).mpr ?_, hpiece⟩
        obtain hright | hleft := hq
        · exact .inl (right_mem_parts prot (mem_filterMap.mpr ⟨w, hw, hright⟩))
        · exact .inr (.inr (.inl ⟨w, hw, hleft⟩))
      · have hkeep := not_mem_keys hp (h.key p hp ▸ (not_and_or.mp hin).imp not_lt.mp not_lt.mp)
        exact ⟨p, (mem_protectRange h hprot).mpr (.inr (.inl ⟨hp, hkeep⟩)), hcovers, rfl⟩
    · exact fun q hq hcovers => (protectRange_mem h hmeets hprot hq).covers h hcovers
    · obtain ⟨w, hw, hwkey, hwvma⟩ := hmeets.recorded h hp (hstart.trans_lt hcovers.2)
        (hcovers.1.trans_lt hend)
      obtain rfl : p = (w.key, w.vma) := Prod.ext hwkey.symm hwvma.symm
      obtain ⟨q, hq, hpiece⟩ := piece_inside hkeeps.1 hf hw hcovers ⟨hstart, hend⟩
      refine ⟨q, (mem_protectRange h hprot).mpr ?_, hpiece⟩
      obtain hpart | hchanged := hq
      · exact .inl (mem_flatMap.mpr ⟨w, hw, hpart⟩)
      · exact .inr (.inr (.inr ⟨w, hw, hchanged⟩))
    · exact fun q hq hcovers => (protectRange_mem h hmeets hprot hq).covers h hcovers
  · rw [overlaps_eq_nil hmeets] at hprot
    cases hprot
    exact ⟨fun _ => rfl, fun hmeets' => absurd hmeets' hmeets⟩

end

/-! ## Mapped ranges -/

/-- All addresses from `start` to `end_` are mapped. -/
def Mapped (m : VmaMap) (start end_ : ℕ) : Prop :=
  ∀ addr, start ≤ addr ∧ addr < end_ → (mappingAt m addr).isSome

section

variable {m : VmaMap} {start end_ addr : ℕ} (h : Laid Vma.startAddr Vma.endAddr m)

include h

theorem mappingAt_isSome : (mappingAt m addr).isSome ↔ ∃ p ∈ m, Covers p addr := by
  simp only [mappingAt, isSome_map, isSome_iff_exists, h.entryAt_eq_some]
  rfl

theorem mappingAt_eq {p : ℕ × Vma} (hp : p ∈ m) (hcovers : Covers p addr) :
    mappingAt m addr = some (p.2.mapping addr) := by
  rw [mappingAt, h.entryAt_eq_some.mpr ⟨hp, hcovers⟩, map_some]

/-- The walk starts if the whole range is mapped. -/
theorem meets_of_mapped (hlt : start < end_) (hmapped : Mapped m start end_) :
    Meets m start end_ := by
  obtain ⟨q, hq, hle, -⟩ := (mappingAt_isSome h).mp (hmapped start ⟨le_rfl, hlt⟩)
  exact ⟨hlt, ne_none_iff_exists'.mp fun hnone =>
    absurd (OrdMap.floor?_eq_none.mp hnone q hq) hle.not_gt⟩

/-- `counter` is the length of the range just if every address in it is mapped. -/
theorem counter_eq_iff (hlt : start < end_) :
    counter (overlaps m start end_) = end_ - start ↔ Mapped m start end_ := by
  have hsorted : (overlaps m start end_).Pairwise
      fun v w => v.overlappedEnd ≤ w.overlappedStart := by
    refine overlaps_sorted.imp_of_mem fun {v w} hv hw hvw => ?_
    have hapart : v.vma.endAddr ≤ w.key :=
      h.apart _ (inRange_of_mem hv).mem _ (inRange_of_mem hw).mem hvw
    have hkey := key_eq_startAddr h hw
    have hv := (inRange_of_mem hv).end_eq
    have hw := (inRange_of_mem hw).start_eq
    omega
  refine (sum_lengths_eq_iff hlt.le (fun w hw => ?_) hsorted).2.trans
    ⟨fun hcover addr hin => ?_, fun hmapped addr hstart hend => ?_⟩
  · obtain ⟨-, hmax, hmin, hlt⟩ := inRange_of_mem hw
    omega
  · obtain ⟨w, hw, hle, hlt⟩ := hcover addr hin.1 hin.2
    have hkey := key_eq_startAddr h hw
    obtain ⟨hmem, hmax, hmin, -⟩ := inRange_of_mem hw
    exact (mappingAt_isSome h).mpr ⟨_, hmem, by omega, show addr < w.vma.endAddr by omega⟩
  · obtain ⟨p, hp, hle, haddr⟩ := (mappingAt_isSome h).mp (hmapped addr ⟨hstart, hend⟩)
    obtain ⟨w, hw, hkey, hvma⟩ := (meets_of_mapped h hlt hmapped).recorded h hp
      (hstart.trans_lt haddr) (hle.trans_lt hend)
    have hwkey := key_eq_startAddr h hw
    obtain ⟨-, hmax, hmin, -⟩ := inRange_of_mem hw
    rw [← hvma] at haddr
    exact ⟨w, hw, by omega, by omega⟩

variable {o : Overflow} {len : ℕ} {m' : VmaMap} {edit : List Overlap → Option VmaMap}
  {page : ℕ → ℕ → PageOp} {uncovered : LinuxError} (hdvd : pageSize4K ∣ start) (hpos : 0 < len)
  (hlt : start + len < 2 ^ 64)

include hdvd hpos hlt

/-- A call that edits a range edits the areas if they cover it. -/
theorem editRange_of_mapped (hmapped : Mapped m start (start + len))
    (hedit : edit (overlaps m start (start + len)) = some m') :
    editRange o m start len uncovered edit page =
      some ⟨m', [page start (start + len)], .ok 0⟩ := by
  have hadd : o.add 64 start len = some (start + len) := if_pos hlt
  have hsub : o.sub 64 (start + len) start = some (start + len - start) :=
    if_pos (Nat.le_add_right ..)
  have hcounter := (counter_eq_iff h (Nat.lt_add_of_pos_right hpos)).mpr hmapped
  simp [editRange, hadd, hsub, hdvd, hpos.ne', hcounter, hedit]

theorem editRange_of_not_mapped (hmapped : ¬ Mapped m start (start + len)) :
    editRange o m start len uncovered edit page = some (.fail m uncovered) := by
  have hadd : o.add 64 start len = some (start + len) := if_pos hlt
  have hsub : o.sub 64 (start + len) start = some (start + len - start) :=
    if_pos (Nat.le_add_right ..)
  have hcounter : counter (overlaps m start (start + len)) ≠ start + len - start :=
    fun heq => hmapped ((counter_eq_iff h (Nat.lt_add_of_pos_right hpos)).mp heq)
  simp only [editRange, hadd, hsub, bind_eq_bind, bind_some]
  rw [if_neg (not_or.mpr ⟨not_not.mpr hdvd, hpos.ne'⟩), if_pos hcounter]

end

/-! ## Clones -/

section

variable {m m' : VmaMap} {start end_ : ℕ} {prot : UInt32} {v : Vma}

/-- A clone that means the same at its first address is one of an area without a file, whose flags
are its protection. -/
theorem Vma.cloneSafe_of_mapping {a b : ℕ} (hlt : v.startAddr < a)
    (hfile : ((v.cloneFrom a b).mapping a).file = (v.mapping a).file)
    (hflags : ((v.cloneFrom a b).mapping a).flags = (v.mapping a).flags) : v.CloneSafe := by
  refine ⟨?_, hflags.symm⟩
  cases hf : v.file with
  | none => rfl
  | some f =>
    have hoff : (f, v.offset + (a - a)) = (f, v.offset + (a - v.startAddr)) := by
      simpa [Vma.mapping, Vma.cloneFrom, hf] using hfile
    have heq := (Prod.mk.inj hoff).2
    omega

variable (h : Laid Vma.startAddr Vma.endAddr m) (hmeets : Meets m start end_)

include h hmeets

/-- The part behind the range of an area that is cut at its end. -/
theorem right_of_cut {p : ℕ × Vma} (hp : p ∈ m) (hstart : p.2.startAddr < end_)
    (hend : end_ < p.2.endAddr) : (end_, p.2.cloneFrom end_ p.2.endAddr) ∈
      (overlaps m start end_).filterMap Overlap.right := by
  obtain ⟨w, hw, -, hvma⟩ := hmeets.recorded h hp (hmeets.1.trans hend) (h.key p hp ▸ hstart)
  obtain ⟨-, -, hmin, -⟩ := inRange_of_mem hw
  rw [hvma, min_eq_left hend.le] at hmin
  refine mem_filterMap.mpr ⟨w, hw, ?_⟩
  rw [Overlap.right, hmin, hvma, if_pos hend]

theorem cutClean_of_right (h' : Laid Vma.startAddr Vma.endAddr m')
    (hright : ∀ q ∈ (overlaps m start end_).filterMap Overlap.right, q ∈ m')
    (hsame : mappingAt m' end_ = mappingAt m end_) : CutClean m end_ := by
  intro p hp hstart hend
  have hq := hright _ (right_of_cut h hmeets hp hstart hend)
  rw [mappingAt_eq h hp ⟨(h.key p hp).le.trans hstart.le, hend⟩,
    mappingAt_eq h' hq ⟨le_rfl, hend⟩] at hsame
  have heq := some.inj hsame
  exact Vma.cloneSafe_of_mapping hstart (congrArg Mapping.file heq) (congrArg Mapping.flags heq)

/-- Taking a range out of the map keeps the other addresses just if the areas that are cut at its
end may be cloned. -/
theorem cutAway_keeps_iff {key : Overlap → ℕ}
    (hkey : ∀ w ∈ overlaps m start end_, key w = w.key)
    (hcut : cutAway key m (overlaps m start end_) = some m') :
    (∀ addr, addr < start ∨ end_ ≤ addr → mappingAt m' addr = mappingAt m addr) ↔
      CutClean m end_ := by
  have h' : Laid Vma.startAddr Vma.endAddr m' :=
    h.cut fun p hp => (cutAway_mem h hmeets hkey hcut hp).1
  refine ⟨fun hsame => cutClean_of_right h hmeets h'
    (fun q hq => (mem_cutAway h hkey hcut).mpr (.inl hq)) (hsame end_ (.inr le_rfl)),
    fun hclean addr hout => ?_⟩
  have hsame := mappingAt_cutAway h hkey (fun _ => hclean.keeps id) hcut hout
  rwa [Option.map_id, id, id] at hsame

/-- Changing the protection of a range keeps all else just if the areas that are cut at its ends may
be cloned. -/
theorem protectRange_keeps_iff (hprot : protectRange prot m (overlaps m start end_) = some m') :
    ((∀ addr, addr < start ∨ end_ ≤ addr → mappingAt m' addr = mappingAt m addr) ∧
      ∀ addr, start ≤ addr → addr < end_ →
        mappingAt m' addr = (mappingAt m addr).map fun b => { b with prot }) ↔
      CutClean m start ∧ CutClean m end_ := by
  have h' : Laid Vma.startAddr Vma.endAddr m' :=
    h.cut fun p hp => protectRange_mem h hmeets hprot hp
  constructor
  · rintro ⟨houtside, hinside⟩
    refine ⟨fun p hp hstart hend => ?_, cutClean_of_right h hmeets h'
      (fun q hq => (mem_protectRange h hprot).mpr (.inl (right_mem_parts prot hq)))
      (houtside end_ (.inr le_rfl))⟩
    -- the part inside the range is cloned
    obtain ⟨w, hw, -, hvma⟩ := hmeets.recorded h hp hend
      (h.key p hp ▸ hstart.trans hmeets.1)
    obtain ⟨-, hmax, -, hlt⟩ := inRange_of_mem hw
    rw [hvma, max_eq_left hstart.le] at hmax
    have hq : (start, { p.2.cloneFrom start w.overlappedEnd with prot }) ∈ m' := by
      refine (mem_protectRange h hprot).mpr (.inl (mem_flatMap.mpr ⟨w, hw, mem_append_right _ ?_⟩))
      have hcut : w.cutLeft = true := decide_eq_true (by rw [hmax, hvma]; exact hstart)
      rw [if_pos hcut, hmax, hvma]
      exact mem_singleton_self _
    have heq := hinside start le_rfl hmeets.1
    rw [mappingAt_eq h hp ⟨(h.key p hp).le.trans hstart.le, hend⟩,
      mappingAt_eq h' hq ⟨le_rfl, hmax ▸ hlt⟩, map_some] at heq
    have hfile := congrArg Mapping.file (some.inj heq)
    have hflags := congrArg Mapping.flags (some.inj heq)
    exact Vma.cloneSafe_of_mapping (b := w.overlappedEnd) hstart hfile hflags
  · intro hclean
    rw [← forall_and]
    intro addr
    have hspec := @mappingAt_protectRange _ id _ _ start end_ addr _ (fun b => { b with prot }) h
      ⟨hclean.1.keeps id, hclean.2.keeps id⟩ (fun _ => rfl) hprot
    simp only [Option.map_id, id] at hspec
    exact ⟨hspec.1, hspec.2 hmeets⟩

end

/-! ## The calls -/

/-- A call on a range, with its other arguments. -/
inductive RangeCall
  | munmap
  | mprotect (prot : UInt32)
  | mmapFixed (files : ℕ → Option ℕ) (prot flags : UInt32) (fd : Int) (off : ℕ)

/-- The arguments of a fixed mapping are accepted. -/
def FixedAccepted (files : ℕ → Option ℕ) (start end_ : ℕ) (flags : UInt32) (fd : Int) : Prop :=
  start < end_ ∧ vmaStart ≤ start ∧ end_ ≤ vmaEnd ∧
    (hasFlag flags mapPrivate = true ∨ hasFlag flags mapShared = true) ∧
    (hasFlag flags mapAnonymous = true ∨ 0 ≤ fd ∧ (files fd.toNat).isSome)

namespace RangeCall

/-- What the call does to the range `[start, start + len)`. -/
def run (o : Overflow) (m : VmaMap) (start len : ℕ) : RangeCall → Option CallResult
  | .munmap => sysMunmap o m start len
  | .mprotect prot => sysMprotect o m start len prot
  | .mmapFixed files prot flags fd off =>
    sysMmap o files m start len prot (flags ||| mapFixed) fd off

/-- The call edits the areas: its arguments are accepted, and the range is mapped or, for a fixed
mapping, the walk over the areas starts. -/
def Edits (m : VmaMap) (start end_ : ℕ) : RangeCall → Prop
  | .munmap | .mprotect _ => start < end_ ∧ Mapped m start end_
  | .mmapFixed files _ flags fd _ =>
    FixedAccepted files start end_ (flags ||| mapFixed) fd ∧ Meets m start end_

/-- The areas that the call makes parts of by cloning them may be cloned. -/
def Clean (m : VmaMap) (start end_ : ℕ) : RangeCall → Prop
  | .mprotect _ => CutClean m start ∧ CutClean m end_
  | .munmap | .mmapFixed .. => CutClean m end_

instance (m : VmaMap) (start end_ : ℕ) (call : RangeCall) : Decidable (call.Clean m start end_) :=
  match call with
  | .mprotect _ => inferInstanceAs (Decidable (_ ∧ _))
  | .munmap | .mmapFixed .. => inferInstanceAs (Decidable (CutClean ..))

/-- The addresses outside the range are left as they are, and `sys_mprotect` changes no more than
the protection of those inside it. -/
def Keeps (o : Overflow) (m : VmaMap) (start end_ : ℕ) (call : RangeCall) : Prop :=
  ∀ res, call.run o m start (end_ - start) = some res →
    (∀ addr, addr < start ∨ end_ ≤ addr → mappingAt res.map addr = mappingAt m addr) ∧
    ∀ prot, call = .mprotect prot → res.ret = .ok 0 → ∀ addr, start ≤ addr → addr < end_ →
      mappingAt res.map addr = (mappingAt m addr).map fun b => { b with prot }

end RangeCall

section

variable {o : Overflow} {m : VmaMap} {start end_ len addr : ℕ} {res : CallResult} {flags : UInt32}

theorem hasFlag_or_mapFixed (flags : UInt32) : hasFlag (flags ||| mapFixed) mapFixed := by
  have hone : (flags ||| mapFixed) &&& mapFixed = mapFixed := by
    refine UInt32.toBitVec_inj.mp ?_
    ext i hi
    rw [UInt32.toBitVec_and, UInt32.toBitVec_or, BitVec.getElem_and, BitVec.getElem_or]
    exact Bool.and_eq_right_iff_imp.mpr fun h => by rw [h, Bool.or_true]
  rw [hasFlag, hone]
  decide

/-- A page-aligned length is not changed by rounding up, if that does not panic. -/
theorem mmapLen_of_dvd {n : ℕ} (hdvd : pageSize4K ∣ len) (hlen : len < 2 ^ 64)
    (h : mmapLen o len flags = some n) : n = len := by
  unfold mmapLen at h
  split at h
  · simp only [alignUp4K, bind_eq_bind, bind_eq_some_iff] at h
    obtain ⟨up, hup, last, hlast, h⟩ := h
    cases h
    have hlast : last = len + (pageSize4K - 1) := by
      by_cases hlt : len + pageSize4K < 2 ^ 64
      · rw [add_eq hlt hup] at hlast
        exact sub_eq (Nat.le_add_left ..) hlast
      -- the last page
      obtain rfl : len = 2 ^ 64 - pageSize4K := by
        obtain ⟨k, rfl⟩ := hdvd
        unfold pageSize4K at hlen hlt ⊢
        omega
      cases o with
      | panics => cases hup
      | wraps =>
        cases hup
        cases hlast
        decide
    obtain ⟨k, rfl⟩ := hdvd
    rw [hlast, alignDown4K]
    unfold pageSize4K
    omega
  · exact (some.inj h).symm

variable {files : ℕ → Option ℕ} {prot : UInt32} {fd : Int} {off : ℕ} (hdvd : pageSize4K ∣ len)
  (hlt : start + len < 2 ^ 64) (hfixed : hasFlag flags mapFixed)

include hdvd hlt hfixed

/-- A fixed mapping fails if its arguments are not accepted. -/
theorem fixedAccepted_of_sysMmap (hres : sysMmap o files m start len prot flags fd off = some res) :
    (∃ e, res = .fail m e) ∨ FixedAccepted files start (start + len) flags fd := by
  have hchecks := hres
  unfold sysMmap at hchecks
  split at hchecks
  · exact .inl ⟨_, (some.inj hchecks).symm⟩
  rename_i hkind
  split at hchecks
  · exact .inl ⟨_, (some.inj hchecks).symm⟩
  rename_i hfd
  obtain hfail | ⟨n, file, m', pages, vaddr, end_, hn, -, hne, hfile, hregion, -⟩ :=
    sysMmap_cases hres
  · exact .inl hfail
  obtain rfl := mmapLen_of_dvd hdvd ((Nat.le_add_left ..).trans_lt hlt) hn
  rw [mmapRegion, if_pos hfixed] at hregion
  obtain ⟨r, hsnatch, hr⟩ := map_eq_some_iff.mp hregion
  obtain ⟨⟨m₁, page⟩, rfl, -⟩ := map_eq_some_iff.mp hr
  obtain ⟨end_, hadd, hsnatch⟩ := bind_eq_some_iff.mp hsnatch
  obtain rfl := add_eq hlt hadd
  split at hsnatch
  · cases hsnatch
  rename_i hrange
  obtain ⟨hlow, hhigh⟩ := not_or.mp hrange
  refine .inr ⟨Nat.lt_add_of_pos_right (Nat.pos_of_ne_zero hne), not_lt.mp hlow, not_lt.mp hhigh,
    ?_, ?_⟩
  · revert hkind
    cases hasFlag flags mapPrivate <;> simp
  · cases hanon : hasFlag flags mapAnonymous with
    | true => exact .inl rfl
    | false =>
      rw [mmapFile, if_neg (by rw [hanon]; decide)] at hfile
      obtain ⟨f, hf, -⟩ := map_eq_some_iff.mp hfile
      refine .inr ⟨?_, isSome_of_eq_some hf⟩
      simpa [hanon] using hfd

variable (prot off) in
/-- What a fixed mapping does to the areas if its arguments are accepted. -/
theorem sysMmap_of_fixedAccepted (h : Laid Vma.startAddr Vma.endAddr m) (hs : pageSize4K ∣ start)
    (hok : FixedAccepted files start (start + len) flags fd) :
    ∃ m' v pages, cutAway Overlap.key m (overlaps m start (start + len)) = some m' ∧
      v.endAddr = start + len ∧ sysMmap o files m start len prot flags fd off =
        some ⟨m'.insert start v, pages, .ok start⟩ := by
  obtain ⟨hpos, hlow, hhigh, hkind, hfd⟩ := hok
  obtain ⟨m', hcut⟩ : ∃ m', cutAway Overlap.key m (overlaps m start (start + len)) = some m' :=
    cutAway_isSome h fun _ _ => rfl
  have hadd : o.add 64 start len = some (start + len) := if_pos hlt
  obtain ⟨n, hn⟩ : ∃ n, mmapLen o len flags = some n := by
    unfold mmapLen
    split
    · have hfit : len + pageSize4K < 2 ^ 64 := by
        unfold pageSize4K
        unfold vmaEnd at hhigh
        unfold vmaStart at hlow
        omega
      have hup : o.add 64 len pageSize4K = some (len + pageSize4K) := by
        unfold Overflow.add Overflow.fit
        exact if_pos hfit
      have hdown : o.sub 64 (len + pageSize4K) 1 = some (len + pageSize4K - 1) :=
        if_pos (Nat.le_add_left 1 (len + 4095))
      exact ⟨_, by rw [alignUp4K, hup, bind_eq_bind, bind_some, hdown, bind_some]⟩
    · exact ⟨_, rfl⟩
  obtain rfl := mmapLen_of_dvd hdvd ((Nat.le_add_left ..).trans_lt hlt) hn
  obtain ⟨file, hfile⟩ : ∃ file, mmapFile files flags fd = some file := by
    unfold mmapFile
    split
    · exact ⟨_, rfl⟩
    · obtain ⟨f, hf⟩ := isSome_iff_exists.mp (hfd.resolve_left (by assumption)).2
      exact ⟨some f, by rw [hf, map_some]⟩
  have hregion : mmapRegion o m start n flags =
      some (some (m', [.release start (start + n) true], start)) := by
    rw [mmapRegion, if_pos hfixed, snatchFixedRegion, hadd, bind_eq_bind, bind_some,
      if_neg (not_or.mpr ⟨not_lt.mpr hlow, not_lt.mpr hhigh⟩), hcut]
    rfl
  refine ⟨m', ⟨start, start + n, file, off, prot, flags⟩, [.release start (start + n) true], hcut,
    ?_, ?_⟩
  · rfl
  unfold sysMmap
  simp only [hn, hfile, hregion, hadd, bind_eq_bind, bind_some]
  rw [if_neg, if_neg, if_neg]
  · exact not_or.mpr ⟨not_not.mpr hs, (Nat.lt_add_right_iff_pos.mp hpos).ne'⟩
  · obtain hanon | ⟨hfd, -⟩ := hfd
    · simp [hanon]
    · simp [hfd]
  · obtain hkind | hkind := hkind <;> simp [hkind]

end

namespace RangeCall

variable {o : Overflow} {m : VmaMap} {s len : ℕ} {call : RangeCall}

theorem keeps_of_fail
    (hfail : ∀ res, call.run o m s len = some res → ∃ err, res = .fail m err) :
    call.Keeps o m s (s + len) := by
  intro res hres
  rw [Nat.add_sub_cancel_left] at hres
  obtain ⟨err, rfl⟩ := hfail res hres
  exact ⟨fun _ _ => rfl, fun _ _ hok => by cases hok⟩

theorem keeps_iff {res : CallResult} (hrun : call.run o m s len = some res) :
    call.Keeps o m s (s + len) ↔
      (∀ addr, addr < s ∨ s + len ≤ addr → mappingAt res.map addr = mappingAt m addr) ∧
      ∀ prot, call = .mprotect prot → res.ret = .ok 0 → ∀ addr, s ≤ addr → addr < s + len →
        mappingAt res.map addr = (mappingAt m addr).map fun b => { b with prot } := by
  rw [Keeps, Nat.add_sub_cancel_left, hrun]
  exact ⟨fun hkeeps => hkeeps res rfl, fun hres _ heq => some.inj heq ▸ hres⟩

variable (h : Laid Vma.startAddr Vma.endAddr m) (hs : pageSize4K ∣ s) (hlt : s + len < 2 ^ 64)

include h hs hlt

/-- An edit of the areas fails if the range is empty or not all of it is mapped. -/
theorem editRange_fails {uncovered : LinuxError} {edit : List Overlap → Option VmaMap}
    {page : ℕ → ℕ → PageOp} {res : CallResult} (hedits : ¬ (s < s + len ∧ Mapped m s (s + len)))
    (hres : editRange o m s len uncovered edit page = some res) : ∃ err, res = .fail m err := by
  obtain rfl | hpos := Nat.eq_zero_or_pos len
  · have hadd : o.add 64 s 0 = some (s + 0) := if_pos hlt
    rw [editRange, hadd, bind_eq_bind, bind_some, if_pos (.inr rfl)] at hres
    exact ⟨.einval, (some.inj hres).symm⟩
  · have hmapped : ¬ Mapped m s (s + len) :=
      fun hmapped => hedits ⟨Nat.lt_add_of_pos_right hpos, hmapped⟩
    rw [editRange_of_not_mapped h hs hpos hlt hmapped] at hres
    exact ⟨uncovered, (some.inj hres).symm⟩

theorem munmap_keeps_iff : munmap.Keeps o m s (s + len) ↔
    (munmap.Edits m s (s + len) → munmap.Clean m s (s + len)) := by
  by_cases hedits : s < s + len ∧ Mapped m s (s + len)
  · have hkey : ∀ w ∈ overlaps m s (s + len), w.vma.startAddr = w.key :=
      fun w hw => key_eq_startAddr h hw
    obtain ⟨m', hcut⟩ := cutAway_isSome h hkey
    have hrun : munmap.run o m s len = some ⟨m', [.release s (s + len) true], .ok 0⟩ := by
      unfold run sysMunmap
      exact editRange_of_mapped h hs (Nat.lt_add_right_iff_pos.mp hedits.1) hlt hedits.2 hcut
    rw [keeps_iff hrun, Edits, imp_iff_right hedits, Clean,
      ← cutAway_keeps_iff h (meets_of_mapped h hedits.1 hedits.2) hkey hcut]
    exact and_iff_left fun _ heq => by cases heq
  · refine iff_of_true (keeps_of_fail fun res hres => ?_) fun h => absurd h hedits
    unfold run sysMunmap at hres
    exact editRange_fails h hs hlt hedits hres

theorem mprotect_keeps_iff {prot : UInt32} : (mprotect prot).Keeps o m s (s + len) ↔
    ((mprotect prot).Edits m s (s + len) → (mprotect prot).Clean m s (s + len)) := by
  by_cases hedits : s < s + len ∧ Mapped m s (s + len)
  · obtain ⟨m', hprot⟩ : ∃ m', protectRange prot m (overlaps m s (s + len)) = some m' :=
      protectRange_isSome h prot
    have hrun : (mprotect prot).run o m s len = some ⟨m', [.protect s (s + len) prot], .ok 0⟩ := by
      unfold run sysMprotect
      exact editRange_of_mapped h hs (Nat.lt_add_right_iff_pos.mp hedits.1) hlt hedits.2 hprot
    rw [keeps_iff hrun, Edits, imp_iff_right hedits, Clean,
      ← protectRange_keeps_iff h (meets_of_mapped h hedits.1 hedits.2) hprot]
    refine and_congr_right fun _ => ⟨fun hinside => hinside prot rfl rfl, ?_⟩
    rintro hinside _ ⟨⟩ -
    exact hinside
  · refine iff_of_true (keeps_of_fail fun res hres => ?_) fun h => absurd h hedits
    unfold run sysMprotect at hres
    exact editRange_fails h hs hlt hedits hres

theorem mmapFixed_keeps_iff {files : ℕ → Option ℕ} {prot flags : UInt32} {fd : Int} {off : ℕ}
    (hdvd : pageSize4K ∣ len) : (mmapFixed files prot flags fd off).Keeps o m s (s + len) ↔
      ((mmapFixed files prot flags fd off).Edits m s (s + len) →
        (mmapFixed files prot flags fd off).Clean m s (s + len)) := by
  have hfixed := hasFlag_or_mapFixed flags
  by_cases hok : FixedAccepted files s (s + len) (flags ||| mapFixed) fd
  · obtain ⟨m', v, pages, hcut, hv, hrun⟩ :=
      sysMmap_of_fixedAccepted (o := o) prot off hdvd hlt hfixed h hs hok
    have hrun : (mmapFixed files prot flags fd off).run o m s len = some _ := hrun
    have hkeeps : (∀ addr, addr < s ∨ s + len ≤ addr →
          mappingAt (m'.insert s v) addr = mappingAt m addr) ↔
        ∀ addr, addr < s ∨ s + len ≤ addr → mappingAt m' addr = mappingAt m addr :=
      forall₂_congr fun addr hout => by
        rw [mappingAt_insert_cutAway h (fun _ _ => rfl) hcut hok.1 hv hout]
    rw [(keeps_iff hrun).trans (and_iff_left fun _ heq => (by cases heq)), hkeeps, Edits,
      and_iff_right hok, Clean]
    by_cases hmeets : Meets m s (s + len)
    · rw [imp_iff_right hmeets, ← cutAway_keeps_iff h hmeets (fun _ _ => rfl) hcut]
    · refine iff_of_true (fun addr hout => ?_) fun h => absurd h hmeets
      have hsame := mappingAt_cutAway (g := id) h (fun _ _ => rfl) (fun h => absurd h hmeets) hcut
        hout
      rwa [Option.map_id, id, id] at hsame
  · refine iff_of_true (keeps_of_fail fun res hres => ?_) fun h => absurd h.1 hok
    exact (fixedAccepted_of_sysMmap hdvd hlt hfixed hres).resolve_right hok

end RangeCall

/-- A call on a page-aligned range leaves the addresses outside it as they are, and `sys_mprotect`
changes no more than the protection of those inside it, just if the call does not edit the areas or
those that it clones may be cloned. -/
theorem range_calls_keep_mappings_iff (o : Overflow) {m : VmaMap} {s e : ℕ} (call : RangeCall)
    (h : Laid Vma.startAddr Vma.endAddr m) (hs : pageSize4K ∣ s) (he : pageSize4K ∣ e)
    (hse : s ≤ e) (hlt : e < 2 ^ 64) :
    call.Keeps o m s e ↔ (call.Edits m s e → call.Clean m s e) := by
  obtain ⟨len, rfl⟩ := Nat.exists_eq_add_of_le hse
  cases call with
  | munmap => exact RangeCall.munmap_keeps_iff h hs hlt
  | mprotect prot => exact RangeCall.mprotect_keeps_iff h hs hlt
  | mmapFixed files prot flags fd off =>
    exact RangeCall.mmapFixed_keeps_iff h hs hlt ((Nat.dvd_add_right hs).mp he)

/-- A shared mapping of three pages of a file, and behind it three pages without one, which were
left over when their flags had become their protection. -/
def sampleAreas : VmaMap :=
  (OrdMap.empty.insert vmaStart ⟨vmaStart, vmaStart + 0x3000, some 0, 0x8000, 3, mapShared⟩).insert
    (vmaStart + 0x3000) ⟨vmaStart + 0x3000, vmaStart + 0x6000, none, 0, 3, 3⟩

theorem sampleAreas_laid : Laid Vma.startAddr Vma.endAddr sampleAreas where
  key := by decide
  nonempty := by decide
  apart := by decide

/-- The protection of the page in the middle of the second area is changed. -/
theorem range_calls_keep_mappings_iff_sample :
    ∃ res, sysMprotect .panics sampleAreas (vmaStart + 0x4000) 0x1000 1 = some res ∧
      res.ret = .ok 0 ∧
      mappingAt res.map (vmaStart + 0x1234) = some ⟨some (0, 0x9234), 3, mapShared⟩ ∧
      mappingAt res.map (vmaStart + 0x4567) = some ⟨none, 1, 3⟩ ∧
      mappingAt res.map (vmaStart + 0x5678) = some ⟨none, 3, 3⟩ := by
  have hspec := (range_calls_keep_mappings_iff .panics (.mprotect 1) (s := vmaStart + 0x4000)
    (e := vmaStart + 0x5000) sampleAreas_laid (by decide) (by decide) (by decide)
    (by decide)).mpr fun _ => by decide
  have hrun : ((RangeCall.mprotect 1).run .panics sampleAreas (vmaStart + 0x4000) 0x1000).map
      CallResult.ret = some (.ok 0) := by decide +kernel
  obtain ⟨res, hres, hret⟩ := map_eq_some_iff.mp hrun
  obtain ⟨houtside, hinside⟩ := hspec res hres
  refine ⟨res, hres, hret, ?_, ?_, ?_⟩
  · rw [houtside _ (.inl (by decide))]
    decide
  · rw [hinside 1 rfl hret _ (by decide) (by decide)]
    decide
  · rw [houtside _ (.inr (by decide))]
    decide

/-- What the address means before and after a call on the page from `start` on. -/
def mappingChange (call : RangeCall) (start addr : ℕ) : Option (Option Mapping × Option Mapping) :=
  (call.run .panics sampleAreas start 0x1000).map fun res =>
    (mappingAt sampleAreas addr, mappingAt res.map addr)

/-- Unmapping the page in the middle of the shared mapping, or putting another one there, makes the
page behind it show the first page of the file, and with other flags; so does a change of the
protection for the page itself. -/
theorem range_calls_change_mappings :
    mappingChange .munmap (vmaStart + 0x1000) (vmaStart + 0x2000) =
      some (some ⟨some (0, 0xa000), 3, mapShared⟩, some ⟨some (0, 0x8000), 3, 3⟩) ∧
    mappingChange (.mmapFixed (fun _ => none) 3 (mapPrivate ||| mapAnonymous) (-1) 0)
        (vmaStart + 0x1000) (vmaStart + 0x2000) =
      some (some ⟨some (0, 0xa000), 3, mapShared⟩, some ⟨some (0, 0x8000), 3, 3⟩) ∧
    mappingChange (.mprotect 1) (vmaStart + 0x1000) (vmaStart + 0x2000) =
      some (some ⟨some (0, 0xa000), 3, mapShared⟩, some ⟨some (0, 0x8000), 3, 3⟩) ∧
    mappingChange (.mprotect 1) (vmaStart + 0x1000) (vmaStart + 0x1000) =
      some (some ⟨some (0, 0x9000), 3, mapShared⟩, some ⟨some (0, 0x8000), 1, 3⟩) := by
  refine ⟨?_, ?_, ?_, ?_⟩ <;> decide +kernel

end HvisorRux.Rux
