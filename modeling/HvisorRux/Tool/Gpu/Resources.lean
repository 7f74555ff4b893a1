import HvisorRux.Tool.Gpu.Commands
import Mathlib.Data.Nat.Bitwise

/-!
# The resource table and its links to the scanouts

Two invariants of the device under arbitrary command sequences: the resource table with its memory
counter (`TableInv`), and the links between resources and scanouts, which are stored on both sides
(`LinkInv`). `virtioGpuSimpleProcessCmd_does` says once what a command can do to the device, and
`DevStep` what that means for either; everything else is derived from it.
-/

namespace HvisorRux.Tool

open Common List Option KeyedList GPUDev GPUSimpleResource

/-! ## Scanout masks -/

theorem scanoutBit_toNat (i : Fin maxScanouts) : (scanoutBit i).toNat = 2 ^ i.val := by
  have hi : i.val < 32 := i.isLt.trans (by decide)
  have hmod : i.val % 2 ^ 32 % 32 = i.val := by omega
  have hpow : 2 ^ i.val < 2 ^ 32 := Nat.pow_lt_pow_right (by decide) hi
  simp only [scanoutBit, UInt32.toNat_shiftLeft, UInt32.toNat_ofNat', UInt32.toNat_one, hmod]
  rw [Nat.shiftLeft_eq, Nat.one_mul, Nat.mod_eq_of_lt hpow]

variable (res : GPUSimpleResource) (i : Fin maxScanouts) {res : GPUSimpleResource}

/-- A resource is bound to scanout `i` iff bit `i` of its mask is set. -/
theorem GPUSimpleResource.boundTo_eq_testBit :
    res.boundTo i = res.scanoutBitmask.toNat.testBit i.val := by
  have hne : ∀ m : UInt32, (m != 0) = decide (m.toNat ≠ 0) := by
    intro m
    rw [Bool.eq_iff_iff]
    simp [← UInt32.toNat_inj]
  rw [boundTo, hne, UInt32.toNat_and, scanoutBit_toNat, Nat.and_two_pow]
  cases res.scanoutBitmask.toNat.testBit i.val <;> simp

theorem GPUSimpleResource.boundTo_unbind (j : Fin maxScanouts) :
    (res.unbind i).boundTo j = (res.boundTo j && decide (i ≠ j)) := by
  have hj : j.val < 32 := j.isLt.trans (by decide)
  rw [boundTo_eq_testBit, boundTo_eq_testBit, unbind, UInt32.toNat_and, UInt32.toNat_not,
    Nat.testBit_and, scanoutBit_toNat, UInt32.size]
  rw [show 4294967296 - 1 - 2 ^ i.val = 2 ^ 32 - (2 ^ i.val + 1) by omega,
    Nat.testBit_two_pow_sub_succ (Nat.pow_lt_pow_right (by decide) (i.isLt.trans (by decide))),
    Nat.testBit_two_pow]
  simp [hj, Fin.ext_iff]

theorem GPUSimpleResource.boundTo_bind (j : Fin maxScanouts) :
    (res.bind i).boundTo j = (res.boundTo j || decide (i = j)) := by
  rw [boundTo_eq_testBit, boundTo_eq_testBit, bind, UInt32.toNat_or, Nat.testBit_or,
    scanoutBit_toNat, Nat.testBit_two_pow]
  simp [Fin.ext_iff]

/-! ## The invariants -/

/-- The resource table: distinct non-zero identifiers, and a memory counter that is the sum over the
listed resources and stays below the limit. -/
structure TableInv (gdev : GPUDev) : Prop where
  ids_nodup : (gdev.resourceList.map resourceId).Nodup
  ids_ne_zero : ∀ res ∈ gdev.resourceList, res.resourceId ≠ 0
  hostmem_eq : gdev.hostmem.toNat = (gdev.resourceList.map fun res => res.hostmem.toNat).sum
  hostmem_lt : gdev.hostmem < virtioGpuMaxHostmem

/-- The links: a resource carries the bit of exactly those scanouts that carry its identifier, and a
scanout carries `0` or the identifier of a listed resource. -/
structure LinkInv (gdev : GPUDev) : Prop where
  bound_iff : ∀ (i : Fin maxScanouts), ∀ res ∈ gdev.resourceList,
    (res.boundTo i ↔ (gdev.scanouts i).resourceId = res.resourceId)
  listed : ∀ i, (gdev.scanouts i).resourceId = 0 ∨
    (gdev.scanouts i).resourceId ∈ gdev.resourceList.map resourceId

theorem TableInv.init (requestedState : UInt32 × UInt32) :
    TableInv (initGpuDev requestedState) where
  ids_nodup := nodup_nil
  ids_ne_zero := by simp [initGpuDev]
  hostmem_eq := rfl
  hostmem_lt := show (0 : UInt64) < virtioGpuMaxHostmem by decide

theorem LinkInv.init (requestedState : UInt32 × UInt32) : LinkInv (initGpuDev requestedState) where
  bound_iff := by simp [initGpuDev]
  listed := fun _ => .inl rfl

/-- The identifier and the size of a resource. -/
def GPUSimpleResource.entry (res : GPUSimpleResource) : UInt32 × UInt64 :=
  (res.resourceId, res.hostmem)

section Congr

variable {gdev gdev' : GPUDev}

theorem ids_congr (h : gdev'.resourceList.map entry = gdev.resourceList.map entry) :
    gdev'.resourceList.map resourceId = gdev.resourceList.map resourceId := by
  have := congrArg (List.map Prod.fst) h
  simpa only [List.map_map, Function.comp_def, entry] using this

/-- The table invariant only looks at the identifiers, the sizes and the counter. -/
theorem TableInv.congr (h : TableInv gdev)
    (hentry : gdev'.resourceList.map entry = gdev.resourceList.map entry)
    (hhost : gdev'.hostmem = gdev.hostmem) : TableInv gdev' := by
  have hids := ids_congr hentry
  have hsum := congrArg (List.map fun p => p.2.toNat) hentry
  simp only [List.map_map, Function.comp_def, entry] at hsum
  refine ⟨hids ▸ h.ids_nodup, fun res hres => ?_, by rw [hhost, hsum, h.hostmem_eq],
    hhost ▸ h.hostmem_lt⟩
  have hmem : res.resourceId ∈ gdev'.resourceList.map resourceId :=
    List.mem_map_of_mem hres
  rw [hids, List.mem_map] at hmem
  rcases hmem with ⟨res₀, hres₀, heq⟩
  exact heq ▸ h.ids_ne_zero res₀ hres₀

/-- The link invariant only looks at the identifiers and masks of the resources and at the
identifiers of the scanouts. -/
theorem LinkInv.congr (h : LinkInv gdev)
    (hlink : gdev'.resourceList.map (fun res => (res.resourceId, res.scanoutBitmask)) =
      gdev.resourceList.map fun res => (res.resourceId, res.scanoutBitmask))
    (hscanouts : ∀ i, (gdev'.scanouts i).resourceId = (gdev.scanouts i).resourceId) :
    LinkInv gdev' := by
  constructor
  · intro i res hres
    have hmem : (res.resourceId, res.scanoutBitmask) ∈
        gdev'.resourceList.map fun res => (res.resourceId, res.scanoutBitmask) :=
      List.mem_map_of_mem (f := fun res : GPUSimpleResource =>
        (res.resourceId, res.scanoutBitmask)) hres
    rw [hlink, List.mem_map] at hmem
    rcases hmem with ⟨res₀, hres₀, heq⟩
    obtain ⟨hid, hmask⟩ := Prod.mk.inj heq
    have hbound := h.bound_iff i res₀ hres₀
    rwa [boundTo, hmask, hid, ← hscanouts i] at hbound
  · intro i
    have hids := congrArg (List.map Prod.fst) hlink
    simp only [List.map_map, Function.comp_def] at hids
    rw [hscanouts i]
    exact hids ▸ h.listed i

end Congr

/-! ## What a command can do -/

/-- What a command does to the device: nothing, or what its handler does with a request that is not
refused. -/
inductive Does (env : GpuEnv) (gdev : GPUDev) (gcmd : GPUCommand) : GPUDev → Prop
  | nothing : Does env gdev gcmd gdev
  | create (create2d : VirtioGpuResourceCreate2d) (hid : create2d.resourceId ≠ 0)
      (hfresh : gdev.findResource create2d.resourceId = none)
      (hroom : (newResource create2d).hostmem + gdev.hostmem < virtioGpuMaxHostmem) :
      Does env gdev gcmd (gdev.addResource (newResource create2d))
  | destroy {resourceId : UInt32} {res : GPUSimpleResource}
      (hres : gdev.findResource resourceId = some res) :
      Does env gdev gcmd (virtioGpuResourceDestory gdev res)
  | bind {bytes : List UInt8} {res : GPUSimpleResource}
      (hcmd : commandOf env.mem gcmd = some (some .setScanout))
      (hfill : fillCmd env.mem gcmd GpuCommandType.setScanout.size = some bytes)
      (hid : ¬ (VirtioGpuSetScanout.ofBytes bytes).scanoutId ≥ gdev.scanoutsNum)
      (hres : virtioGpuCheckResource gdev (VirtioGpuSetScanout.ofBytes bytes).resourceId = .ok res)
      (hlegal : ¬ (VirtioGpuSetScanout.ofBytes bytes).r.illegalScanout
        (scanoutFrameBuffer res (VirtioGpuSetScanout.ofBytes bytes).r)) :
      Does env gdev gcmd (virtioGpuUpdateScanout gdev (gdev.scanoutIndex hid)
        (scanoutFrameBuffer res (VirtioGpuSetScanout.ofBytes bytes).r) res
        (VirtioGpuSetScanout.ofBytes bytes).r)
  | flush {bytes : List UInt8} {res : GPUSimpleResource}
      (hcmd : commandOf env.mem gcmd = some (some .resourceFlush))
      (hfill : fillCmd env.mem gcmd GpuCommandType.resourceFlush.size = some bytes)
      (hres : virtioGpuCheckResource gdev (VirtioGpuResourceFlush.ofBytes bytes).resourceId =
        .ok res)
      (hinside : ¬ (VirtioGpuResourceFlush.ofBytes bytes).r.outside res) :
      Does env gdev gcmd (flushScanouts env res (List.finRange maxScanouts) gdev none).1
  | backing (resourceId : UInt32) (iov : Option (List Iovec)) :
      Does env gdev gcmd (gdev.modifyResource resourceId fun res => { res with iov })
  | transfer (resourceId : UInt32) (transferRect : VirtioGpuRect) (transferOffset : UInt64) :
      Does env gdev gcmd
        (gdev.modifyResource resourceId fun res => { res with transferRect, transferOffset })

/-- The effect of a command on the resource table and the links: none at all, a new resource, the
removal of a resource, or the binding of a scanout. -/
inductive DevStep (gdev : GPUDev) : GPUDev → Prop
  | keep {gdev' : GPUDev}
      (hentry : gdev'.resourceList.map entry = gdev.resourceList.map entry)
      (hlink : gdev'.resourceList.map (fun res => (res.resourceId, res.scanoutBitmask)) =
        gdev.resourceList.map fun res => (res.resourceId, res.scanoutBitmask))
      (hscanouts : ∀ i, (gdev'.scanouts i).resourceId = (gdev.scanouts i).resourceId)
      (hhost : gdev'.hostmem = gdev.hostmem) : DevStep gdev gdev'
  | create (create2d : VirtioGpuResourceCreate2d) (hid : create2d.resourceId ≠ 0)
      (hfresh : gdev.findResource create2d.resourceId = none)
      (hroom : (newResource create2d).hostmem + gdev.hostmem < virtioGpuMaxHostmem) :
      DevStep gdev (gdev.addResource (newResource create2d))
  | destroy {resourceId : UInt32} {res : GPUSimpleResource}
      (hres : gdev.findResource resourceId = some res) :
      DevStep gdev (virtioGpuResourceDestory gdev res)
  | bind {resourceId : UInt32} {res : GPUSimpleResource} (i : Fin maxScanouts)
      (fb : GPUFrameBuffer) (r : VirtioGpuRect) (hres : gdev.findResource resourceId = some res) :
      DevStep gdev (virtioGpuUpdateScanout gdev i fb res r)

section Step

variable (env : GpuEnv) (gdev : GPUDev) (gcmd : GPUCommand)

theorem DevStep.refl : DevStep gdev gdev := .keep rfl rfl (fun _ => rfl) rfl

/-- Writing fields other than the identifier, the size and the mask of a resource. -/
theorem DevStep.modify (resourceId : UInt32) {f : GPUSimpleResource → GPUSimpleResource}
    (hf : ∀ res, (f res).entry = res.entry ∧ (f res).scanoutBitmask = res.scanoutBitmask) :
    DevStep gdev (gdev.modifyResource resourceId f) := by
  have hid : ∀ res, (f res).resourceId = res.resourceId := fun res =>
    congrArg Prod.fst (hf res).1
  exact .keep (map_modify fun res => (hf res).1)
    (map_modify fun res => by rw [hid, (hf res).2]) (fun _ => rfl) rfl

theorem virtioGpuCopyAndFlush_resourceId (mem : HostMem) (scanout : GPUScanout)
    (res : GPUSimpleResource) (error : Option GpuError) :
    (virtioGpuCopyAndFlush mem scanout res error).1.resourceId = scanout.resourceId := by
  unfold virtioGpuCopyAndFlush
  repeat' split
  all_goals rfl

theorem virtioGpuCreateDrmFramebuffer_resourceId (drm : DrmEnv) (scanout : GPUScanout)
    (dumbs : List UInt32) (error : Option GpuError) :
    (virtioGpuCreateDrmFramebuffer drm scanout dumbs error).1.resourceId = scanout.resourceId := by
  unfold virtioGpuCreateDrmFramebuffer
  repeat' split
  all_goals rfl

/-- Replacing a scanout by one with the same identifier. -/
theorem GPUDev.setScanout_resourceId (gdev : GPUDev) {i : Fin maxScanouts} {scanout : GPUScanout}
    (h : scanout.resourceId = (gdev.scanouts i).resourceId) (j : Fin maxScanouts) :
    ((gdev.setScanout i scanout).scanouts j).resourceId = (gdev.scanouts j).resourceId := by
  by_cases hj : j = i
  · subst hj
    rw [setScanout_self, h]
  · rw [setScanout_of_ne gdev hj]

/-- The flush loop changes frame buffers only. -/
theorem flushScanouts_keep (res : GPUSimpleResource) (is : List (Fin maxScanouts))
    (gdev : GPUDev) (error : Option GpuError) :
    (flushScanouts env res is gdev error).1.resourceList = gdev.resourceList ∧
      (flushScanouts env res is gdev error).1.hostmem = gdev.hostmem ∧
      ∀ i, ((flushScanouts env res is gdev error).1.scanouts i).resourceId =
        (gdev.scanouts i).resourceId := by
  induction is generalizing gdev error with
  | nil => exact ⟨rfl, rfl, fun _ => rfl⟩
  | cons i is ih =>
    rw [flushScanouts]
    split
    · exact ih gdev error
    split
    · obtain ⟨hlist, hhost, hscanouts⟩ := ih
        (gdev.setScanout i (virtioGpuCopyAndFlush env.mem (gdev.scanouts i) res error).1)
        (virtioGpuCopyAndFlush env.mem (gdev.scanouts i) res error).2
      refine ⟨hlist, hhost, fun j => (hscanouts j).trans ?_⟩
      exact setScanout_resourceId gdev
        (virtioGpuCopyAndFlush_resourceId env.mem (gdev.scanouts i) res error) j
    · have hcreate := virtioGpuCreateDrmFramebuffer_resourceId env.drm (gdev.scanouts i)
        gdev.dumbs error
      generalize virtioGpuCreateDrmFramebuffer env.drm (gdev.scanouts i) gdev.dumbs error =
        created at hcreate ⊢
      rcases created with ⟨scanout, dumbs, error'⟩
      have hset := setScanout_resourceId gdev hcreate
      dsimp only
      split
      · exact ⟨rfl, rfl, hset⟩
      have hcopy := virtioGpuCopyAndFlush_resourceId env.mem scanout res error'
      generalize virtioGpuCopyAndFlush env.mem scanout res error' = copied at hcopy ⊢
      obtain ⟨hlist, hhost, hscanouts⟩ :=
        ih (GPUDev.setScanout { gdev.setScanout i scanout with dumbs } i copied.1) copied.2
      refine ⟨hlist, hhost, fun j => (hscanouts j).trans ?_⟩
      refine (setScanout_resourceId _ ?_ j).trans (hset j)
      exact hcopy.trans (hcreate.trans (hset i).symm)

/-- `virtio_gpu_check_resource` accepts a listed resource with backing and a size. -/
theorem virtioGpuCheckResource_eq_ok {gdev : GPUDev} {resourceId : UInt32} :
    virtioGpuCheckResource gdev resourceId = .ok res ↔
      gdev.findResource resourceId = some res ∧ res.iov.isSome ∧ res.hostmem ≠ 0 := by
  unfold virtioGpuCheckResource
  cases gdev.findResource resourceId with
  | none => simp
  | some res' =>
    dsimp only
    rw [some.injEq]
    split
    · next hbad =>
      refine ⟨(by simp), ?_⟩
      rintro ⟨rfl, hiov, hhost⟩
      rcases hbad with hnone | hzero
      · rw [isNone_iff_eq_none.mp hnone] at hiov
        contradiction
      · exact absurd hzero hhost
    · next hgood =>
      rw [not_or] at hgood
      refine ⟨?_, fun h => congrArg Except.ok h.1⟩
      intro h
      cases h
      exact ⟨rfl, by simpa [isSome_iff_ne_none] using hgood.1, hgood.2⟩

/-! The effect of each handler: every early return leaves the device alone. -/

theorem create2d_does : Does env gdev gcmd (virtioGpuResourceCreate2d env gdev gcmd).1 := by
  simp only [virtioGpuResourceCreate2d]
  split
  · exact .nothing
  split
  · exact .nothing
  rename_i hid
  split
  · exact .nothing
  · next hfresh =>
    split
    · exact .nothing
    · next hroom =>
      exact .create _ hid (by simpa using hfresh) (UInt64.not_le.mp hroom)

theorem unref_does : Does env gdev gcmd (virtioGpuResourceUnref env gdev gcmd).1 := by
  simp only [virtioGpuResourceUnref]
  split
  · exact .nothing
  · split
    · exact .nothing
    · next hres => exact .destroy hres

theorem setScanout_does (hcmd : commandOf env.mem gcmd = some (some .setScanout)) :
    Does env gdev gcmd (virtioGpuSetScanout env gdev gcmd).1 := by
  simp only [virtioGpuSetScanout]
  split
  · exact .nothing
  rename_i hfill
  split
  · exact .nothing
  rename_i hid
  split
  · exact .nothing
  · next hres =>
    split
    · exact .nothing
    · next hlegal => exact .bind hcmd hfill hid hres hlegal

theorem flush_does (hcmd : commandOf env.mem gcmd = some (some .resourceFlush)) :
    Does env gdev gcmd (virtioGpuResourceFlush env gdev gcmd).1 := by
  simp only [virtioGpuResourceFlush]
  split
  · exact .nothing
  rename_i hfill
  split
  · exact .nothing
  · next hres =>
    split
    · exact .nothing
    · next hinside => exact .flush hcmd hfill hres hinside

theorem transferToHost2d_does : Does env gdev gcmd (virtioGpuTransferToHost2d env gdev gcmd).1 := by
  simp only [virtioGpuTransferToHost2d]
  split
  · exact .nothing
  · split
    · exact .nothing
    · split
      · exact .nothing
      · exact .transfer _ _ _

theorem attachBacking_does :
    Does env gdev gcmd (virtioGpuResourceAttachBacking env gdev gcmd).1 := by
  simp only [virtioGpuResourceAttachBacking]
  split
  · exact .nothing
  split
  · exact .nothing
  · split
    · exact .nothing
    · split
      · exact .nothing
      · exact .backing _ _

theorem detachBacking_does :
    Does env gdev gcmd (virtioGpuResourceDetachBacking env gdev gcmd).1 := by
  simp only [virtioGpuResourceDetachBacking]
  split
  · exact .nothing
  · split
    · exact .nothing
    · exact .backing _ _

/-- What `virtio_gpu_simple_process_cmd` does, for any request. -/
theorem virtioGpuSimpleProcessCmd_does :
    Does env gdev gcmd (virtioGpuSimpleProcessCmd env gdev gcmd).1 := by
  unfold virtioGpuSimpleProcessCmd
  split
  case h_1 => exact .nothing
  case h_2 => exact .nothing
  case h_3 => exact .nothing
  case h_4 cmd _ hcmd =>
    cases cmd with
    | getDisplayInfo => exact .nothing
    | getEdid => exact .nothing
    | resourceCreate2d => exact create2d_does env gdev gcmd
    | resourceUnref => exact unref_does env gdev gcmd
    | setScanout => exact setScanout_does env gdev gcmd hcmd
    | resourceFlush => exact flush_does env gdev gcmd hcmd
    | transferToHost2d => exact transferToHost2d_does env gdev gcmd
    | resourceAttachBacking => exact attachBacking_does env gdev gcmd
    | resourceDetachBacking => exact detachBacking_does env gdev gcmd

theorem virtioGpuSimpleProcessCmd_step :
    DevStep gdev (virtioGpuSimpleProcessCmd env gdev gcmd).1 := by
  have hdoes := virtioGpuSimpleProcessCmd_does env gdev gcmd
  generalize (virtioGpuSimpleProcessCmd env gdev gcmd).1 = gdev' at hdoes ⊢
  cases hdoes with
  | nothing => exact DevStep.refl gdev
  | create create2d hid hfresh hroom => exact .create create2d hid hfresh hroom
  | destroy hres => exact .destroy hres
  | bind _ _ _ hres _ => exact .bind _ _ _ (virtioGpuCheckResource_eq_ok.mp hres).1
  | @flush _ res =>
    obtain ⟨hlist, hhost, hscanouts⟩ :=
      flushScanouts_keep env res (List.finRange maxScanouts) gdev none
    exact .keep (by rw [hlist]) (by rw [hlist]) hscanouts hhost
  | backing | transfer => exact DevStep.modify gdev _ fun _ => ⟨rfl, rfl⟩

end Step

/-! ## Unbinding a scanout -/

section Links

variable {gdev : GPUDev} {resourceId : UInt32}

/-- After the resource of scanout `i` has lost its bit, no resource is bound to `i`, and all other
bits still follow the scanouts. -/
theorem LinkInv.unbind (hT : TableInv gdev) (hL : LinkInv gdev) (i : Fin maxScanouts)
    (hres : res ∈ (gdev.modifyResource (gdev.scanouts i).resourceId (unbind i)).resourceList)
    (j : Fin maxScanouts) :
    res.boundTo j ↔ i ≠ j ∧ (gdev.scanouts j).resourceId = res.resourceId := by
  rw [GPUDev.modifyResource, mem_modify hT.ids_nodup] at hres
  rcases hres with ⟨hmem, hne⟩ | ⟨res₀, hmem, -, rfl⟩
  · rw [hL.bound_iff j res hmem]
    refine ⟨fun h => ⟨?_, h⟩, fun h => h.2⟩
    rintro rfl
    exact hne h.symm
  · rw [boundTo_unbind, Bool.and_eq_true, decide_eq_true_eq, hL.bound_iff j res₀ hmem]
    exact and_comm

theorem virtioGpuDisableScanout_scanouts (gdev : GPUDev) (i j : Fin maxScanouts) :
    ((virtioGpuDisableScanout gdev i).scanouts j).resourceId =
      if j = i then 0 else (gdev.scanouts j).resourceId := by
  by_cases hzero : (gdev.scanouts i).resourceId = 0
  · rw [virtioGpuDisableScanout, if_pos hzero]
    split
    · next h => rw [h, hzero]
    · rfl
  · rw [virtioGpuDisableScanout, if_neg hzero]
    split
    · next h => rw [h, setScanout_self]
    · next h => rw [setScanout_of_ne _ h, modifyResource_scanouts]

/-- `virtio_gpu_disable_scanout` leaves identifiers, sizes and the counter alone. -/
theorem virtioGpuDisableScanout_entry (gdev : GPUDev) (i : Fin maxScanouts) :
    (virtioGpuDisableScanout gdev i).resourceList.map entry = gdev.resourceList.map entry ∧
      (virtioGpuDisableScanout gdev i).hostmem = gdev.hostmem := by
  by_cases hzero : (gdev.scanouts i).resourceId = 0
  · rw [virtioGpuDisableScanout, if_pos hzero]
    exact ⟨rfl, rfl⟩
  · rw [virtioGpuDisableScanout, if_neg hzero]
    exact ⟨map_modify fun _ => rfl, rfl⟩

theorem LinkInv.disableScanout (hT : TableInv gdev) (hL : LinkInv gdev) (i : Fin maxScanouts) :
    LinkInv (virtioGpuDisableScanout gdev i) := by
  have hscanouts := virtioGpuDisableScanout_scanouts gdev i
  have hids := ids_congr (virtioGpuDisableScanout_entry gdev i).1
  constructor
  · intro j res hres
    have hne : res.resourceId ≠ 0 :=
      (hT.congr (virtioGpuDisableScanout_entry gdev i).1
        (virtioGpuDisableScanout_entry gdev i).2).ids_ne_zero res hres
    rw [hscanouts]
    by_cases hzero : (gdev.scanouts i).resourceId = 0
    · -- nothing was bound to the scanout
      rw [virtioGpuDisableScanout, if_pos hzero] at hres
      rw [hL.bound_iff j res hres]
      split
      · next h => rw [h, hzero]
      · rfl
    · rw [virtioGpuDisableScanout, if_neg hzero] at hres
      rw [hL.unbind hT i hres j]
      split
      · next h => exact ⟨fun hij => absurd h.symm hij.1, fun h0 => absurd h0.symm hne⟩
      · next h => exact ⟨fun hij => hij.2, fun heq => ⟨Ne.symm h, heq⟩⟩
  · intro j
    rw [hscanouts, hids]
    split
    · exact .inl rfl
    · exact hL.listed j

/-- The loop of `virtio_gpu_resource_destory` leaves identifiers, sizes and the counter alone. -/
theorem disableIfBound_entry (resourceId : UInt32) (gdev : GPUDev) (i : Fin maxScanouts) :
    (disableIfBound resourceId gdev i).resourceList.map entry = gdev.resourceList.map entry ∧
      (disableIfBound resourceId gdev i).hostmem = gdev.hostmem := by
  unfold disableIfBound
  split
  · exact ⟨rfl, rfl⟩
  · split
    · exact virtioGpuDisableScanout_entry gdev i
    · exact ⟨rfl, rfl⟩

theorem disableBoundScanouts_entry (gdev : GPUDev) (res : GPUSimpleResource) :
    (disableBoundScanouts gdev res).resourceList.map entry = gdev.resourceList.map entry ∧
      (disableBoundScanouts gdev res).hostmem = gdev.hostmem := by
  unfold disableBoundScanouts
  split
  · generalize List.finRange maxScanouts = is
    induction is generalizing gdev with
    | nil => exact ⟨rfl, rfl⟩
    | cons i is ih =>
      obtain ⟨hentry, hhost⟩ := disableIfBound_entry res.resourceId gdev i
      obtain ⟨hentry', hhost'⟩ := ih (disableIfBound res.resourceId gdev i)
      exact ⟨hentry'.trans hentry, hhost'.trans hhost⟩
  · exact ⟨rfl, rfl⟩

/-- One iteration of the loop: the links stay consistent, no scanout gains an identifier, and the
scanout it looked at no longer shows the resource. -/
theorem disableIfBound_link (hid : resourceId ≠ 0) (hT : TableInv gdev)
    (hL : LinkInv gdev) (hlisted : (gdev.findResource resourceId).isSome) (i : Fin maxScanouts) :
    LinkInv (disableIfBound resourceId gdev i) ∧
      ((disableIfBound resourceId gdev i).scanouts i).resourceId ≠ resourceId ∧
      ∀ j, (gdev.scanouts j).resourceId ≠ resourceId →
        ((disableIfBound resourceId gdev i).scanouts j).resourceId ≠ resourceId := by
  obtain ⟨res, hres⟩ := isSome_iff_exists.mp hlisted
  have hbound := hL.bound_iff i res (mem_of_find hres)
  rw [key_of_find hres] at hbound
  have hscanouts := virtioGpuDisableScanout_scanouts gdev i
  simp only [disableIfBound, hres]
  split
  · refine ⟨hL.disableScanout hT i, ?_, ?_⟩
    · rw [hscanouts, if_pos rfl]
      exact hid.symm
    · intro j hj
      rw [hscanouts]
      split
      · exact hid.symm
      · exact hj
  · next hfree => exact ⟨hL, fun h => hfree (hbound.mpr h), fun _ hj => hj⟩

/-- The whole loop, by induction over the scanouts it visits. -/
theorem foldl_disableIfBound_link (hid : resourceId ≠ 0)
    (is : List (Fin maxScanouts)) (gdev : GPUDev) (hT : TableInv gdev) (hL : LinkInv gdev)
    (hlisted : (gdev.findResource resourceId).isSome) :
    LinkInv (is.foldl (disableIfBound resourceId) gdev) ∧
      ∀ j, j ∈ is ∨ (gdev.scanouts j).resourceId ≠ resourceId →
        ((is.foldl (disableIfBound resourceId) gdev).scanouts j).resourceId ≠ resourceId := by
  induction is generalizing gdev with
  | nil => exact ⟨hL, fun j hj => hj.resolve_left (by simp)⟩
  | cons i is ih =>
    obtain ⟨hentry, hhost⟩ := disableIfBound_entry resourceId gdev i
    obtain ⟨hL', hself, hother⟩ := disableIfBound_link hid hT hL hlisted i
    have hlisted' : ((disableIfBound resourceId gdev i).findResource resourceId).isSome := by
      rw [GPUDev.findResource, find_isSome] at hlisted ⊢
      rwa [ids_congr hentry]
    obtain ⟨hL'', hclear⟩ :=
      ih (disableIfBound resourceId gdev i) (hT.congr hentry hhost) hL' hlisted'
    refine ⟨hL'', fun j hj => hclear j ?_⟩
    rw [mem_cons] at hj
    rcases hj with (rfl | hmem) | hne
    · exact .inr hself
    · exact .inl hmem
    · exact .inr (hother j hne)

/-- After the loop no scanout shows the resource, also when the loop is skipped. -/
theorem disableBoundScanouts_link (hT : TableInv gdev)
    (hL : LinkInv gdev) (hres : gdev.findResource res.resourceId = some res) :
    LinkInv (disableBoundScanouts gdev res) ∧
      ∀ j, ((disableBoundScanouts gdev res).scanouts j).resourceId ≠ res.resourceId := by
  have hmem := mem_of_find hres
  unfold disableBoundScanouts
  split
  · obtain ⟨hL', hclear⟩ := foldl_disableIfBound_link (hT.ids_ne_zero res hmem)
      (List.finRange maxScanouts) gdev hT hL (by rw [hres]; rfl)
    exact ⟨hL', fun j => hclear j (.inl (mem_finRange j))⟩
  rename_i hzero
  refine ⟨hL, ?_⟩
  intro j hj
  have hbound := (hL.bound_iff j res hmem).mpr hj
  rw [boundTo, not_not.mp hzero, UInt32.zero_and] at hbound
  exact absurd hbound (by decide)

end Links

/-! ## The invariants over command sequences -/

section Runs

variable {gdev gdev' : GPUDev} {create2d : VirtioGpuResourceCreate2d}

/-- A new resource is unbound and fits the limit. -/
theorem TableInv.create (hT : TableInv gdev)
    (hid : create2d.resourceId ≠ 0) (hfresh : gdev.findResource create2d.resourceId = none)
    (hroom : (newResource create2d).hostmem + gdev.hostmem < virtioGpuMaxHostmem) :
    TableInv (gdev.addResource (newResource create2d)) := by
  have hsize : (newResource create2d).hostmem.toNat < 2 ^ 32 := by
    exact UInt32.toNat_lt _
  have hold : gdev.hostmem.toNat < 2 ^ 29 := UInt64.lt_iff_toNat_lt.mp hT.hostmem_lt
  have hsum : (gdev.hostmem + (newResource create2d).hostmem).toNat =
      gdev.hostmem.toNat + (newResource create2d).hostmem.toNat := by
    rw [UInt64.toNat_add, Nat.mod_eq_of_lt (by omega)]
  refine ⟨?_, ?_, ?_, ?_⟩
  · refine nodup_cons.mpr ⟨?_, hT.ids_nodup⟩
    intro hmem
    obtain ⟨res, hres, heq⟩ := List.mem_map.mp hmem
    exact find_eq_none.mp hfresh res hres heq
  · intro res hres
    rcases mem_cons.mp hres with rfl | hres
    · exact hid
    · exact hT.ids_ne_zero res hres
  · show (gdev.hostmem + (newResource create2d).hostmem).toNat = _
    rw [hsum, hT.hostmem_eq, GPUDev.addResource, map_cons, sum_cons, Nat.add_comm]
  · show gdev.hostmem + (newResource create2d).hostmem < virtioGpuMaxHostmem
    rwa [UInt64.add_comm]

theorem LinkInv.create (hL : LinkInv gdev)
    (hid : create2d.resourceId ≠ 0) (hfresh : gdev.findResource create2d.resourceId = none) :
    LinkInv (gdev.addResource (newResource create2d)) := by
  have hunlisted : create2d.resourceId ∉ gdev.resourceList.map resourceId := by
    rw [← find_isSome]
    show ¬ (gdev.findResource create2d.resourceId).isSome
    simp [hfresh]
  refine ⟨?_, ?_⟩
  · intro i res hres
    rcases mem_cons.mp hres with rfl | hres
    · -- no scanout can show an identifier that was not listed
      refine ⟨fun hbound => absurd hbound ?_, fun hshown => ?_⟩
      · simp [boundTo, newResource]
      · have hshown : (gdev.scanouts i).resourceId = create2d.resourceId := hshown
        rcases hL.listed i with hzero | hlisted
        · exact absurd (hshown.symm.trans hzero) hid
        · exact absurd (hshown ▸ hlisted) hunlisted
    · exact hL.bound_iff i res hres
  · intro i
    exact (hL.listed i).imp_right fun h => mem_cons_of_mem _ h

variable {res : GPUSimpleResource}

/-- Taking a listed resource out of the list and its size out of the counter. -/
theorem TableInv.remove (hT : TableInv gdev) {res' : GPUSimpleResource}
    (hres : gdev.findResource res.resourceId = some res') (hsize : res'.hostmem = res.hostmem) :
    TableInv (gdev.removeResource res) := by
  have hsum := sum_remove (fun res => res.hostmem.toNat) hres
  have heq := hT.hostmem_eq
  rw [hsize] at hsum
  have hcount : (gdev.removeResource res).hostmem.toNat =
      gdev.hostmem.toNat - res.hostmem.toNat := by
    refine UInt64.toNat_sub_of_le _ _ (UInt64.le_iff_toNat_le.mpr ?_)
    omega
  refine ⟨?_, ?_, ?_, ?_⟩
  · exact hT.ids_nodup.sublist (eraseP_sublist.map _)
  · intro r hr
    exact hT.ids_ne_zero r (mem_of_mem_eraseP hr)
  · show _ = ((KeyedList.remove resourceId res.resourceId
      gdev.resourceList).map fun res => res.hostmem.toNat).sum
    omega
  · have hlt := UInt64.lt_iff_toNat_lt.mp hT.hostmem_lt
    rw [UInt64.lt_iff_toNat_lt]
    omega

/-- Removing a resource no scanout shows. -/
theorem LinkInv.remove (hT : TableInv gdev) (hL : LinkInv gdev)
    (hclear : ∀ j, (gdev.scanouts j).resourceId ≠ res.resourceId) :
    LinkInv (gdev.removeResource res) := by
  refine ⟨fun i r hr => hL.bound_iff i r (mem_of_mem_eraseP hr), ?_⟩
  intro i
  refine (hL.listed i).imp_right ?_
  intro hlisted
  obtain ⟨r, hr, hid⟩ := List.mem_map.mp hlisted
  refine List.mem_map.mpr ⟨r, (mem_remove hT.ids_nodup).mpr ⟨hr, ?_⟩, hid⟩
  intro h
  exact hclear i (hid.symm.trans h)

/-- `virtio_gpu_cleanup_mapping` changes the backing only. -/
theorem virtioGpuCleanupMapping_keep (gdev : GPUDev) (resourceId : UInt32) :
    (virtioGpuCleanupMapping gdev resourceId).resourceList.map entry = gdev.resourceList.map entry ∧
      (virtioGpuCleanupMapping gdev resourceId).resourceList.map
          (fun res => (res.resourceId, res.scanoutBitmask)) =
        gdev.resourceList.map fun res => (res.resourceId, res.scanoutBitmask) := by
  exact ⟨map_modify fun _ => rfl, map_modify fun _ => rfl⟩

section

variable (hT : TableInv gdev) (hL : LinkInv gdev)
  (hres : gdev.findResource res.resourceId = some res)

include hT hL hres

/-- `virtio_gpu_resource_destory` keeps both invariants. -/
theorem inv_destroy :
    TableInv (virtioGpuResourceDestory gdev res) ∧ LinkInv (virtioGpuResourceDestory gdev res) := by
  obtain ⟨hentry, hhost⟩ := disableBoundScanouts_entry gdev res
  obtain ⟨hL', hclear⟩ := disableBoundScanouts_link hT hL hres
  obtain ⟨hentry', hlink'⟩ :=
    virtioGpuCleanupMapping_keep (disableBoundScanouts gdev res) res.resourceId
  have hT'' : TableInv (virtioGpuCleanupMapping (disableBoundScanouts gdev res) res.resourceId) :=
    hT.congr (hentry'.trans hentry) hhost
  have hL'' : LinkInv (virtioGpuCleanupMapping (disableBoundScanouts gdev res) res.resourceId) :=
    hL'.congr hlink' fun _ => rfl
  -- the resource is still in the list, with its size
  have hfind := map_find_congr (k := res.resourceId) (hentry'.trans hentry)
  rw [show KeyedList.find _ res.resourceId gdev.resourceList = some res from hres,
    map_some, map_eq_some_iff] at hfind
  rcases hfind with ⟨res', hres', hsize⟩
  exact ⟨hT''.remove hres' hsize, hL''.remove hT'' hclear⟩

/-- `virtio_gpu_update_scanout` keeps both invariants, also when it binds a scanout again to the
resource it already shows. -/
theorem inv_bind (i : Fin maxScanouts) (fb : GPUFrameBuffer) (r : VirtioGpuRect) :
    TableInv (virtioGpuUpdateScanout gdev i fb res r) ∧
      LinkInv (virtioGpuUpdateScanout gdev i fb res r) := by
  have hunbind : (gdev.modifyResource (gdev.scanouts i).resourceId
      (unbind i)).resourceList.map entry = gdev.resourceList.map entry := map_modify fun _ => rfl
  have hentry : (virtioGpuUpdateScanout gdev i fb res r).resourceList.map entry =
      gdev.resourceList.map entry :=
    (map_modify (f := bind i) fun _ => rfl).trans hunbind
  have hT' : TableInv (gdev.modifyResource (gdev.scanouts i).resourceId
      (unbind i)) := hT.congr hunbind rfl
  have hself : ((virtioGpuUpdateScanout gdev i fb res r).scanouts i).resourceId =
      res.resourceId := by
    simp [virtioGpuUpdateScanout]
  have hother : ∀ j, j ≠ i → ((virtioGpuUpdateScanout gdev i fb res r).scanouts j).resourceId =
      (gdev.scanouts j).resourceId := by
    intro j hj
    rw [virtioGpuUpdateScanout, setScanout_of_ne _ hj]
    rfl
  refine ⟨hT.congr hentry rfl, ?_, ?_⟩
  · intro j r' hr'
    rw [virtioGpuUpdateScanout, setScanout_resourceList, GPUDev.modifyResource,
      mem_modify hT'.ids_nodup] at hr'
    rcases hr' with ⟨hmem, hne⟩ | ⟨r₀, hmem, hid, rfl⟩
    · rw [hL.unbind hT i hmem j]
      by_cases hj : j = i
      · subst hj
        rw [hself]
        exact ⟨fun h => absurd rfl h.1, fun h => absurd h.symm hne⟩
      · rw [hother j hj]
        exact ⟨fun h => h.2, fun h => ⟨Ne.symm hj, h⟩⟩
    · rw [boundTo_bind, Bool.or_eq_true, decide_eq_true_eq, hL.unbind hT i hmem j]
      by_cases hj : j = i
      · subst hj
        rw [hself]
        exact ⟨fun _ => hid.symm, fun _ => .inr rfl⟩
      · rw [hother j hj]
        exact ⟨fun h => (h.resolve_right (Ne.symm hj)).2, fun h => .inl ⟨Ne.symm hj, h⟩⟩
  · intro j
    rw [ids_congr hentry]
    by_cases hj : j = i
    · subst hj
      rw [hself]
      exact .inr (List.mem_map_of_mem (mem_of_find hres))
    · rw [hother j hj]
      exact hL.listed j

end

/-- Every command keeps both invariants. -/
theorem DevStep.inv (hstep : DevStep gdev gdev') (hT : TableInv gdev) (hL : LinkInv gdev) :
    TableInv gdev' ∧ LinkInv gdev' := by
  cases hstep with
  | keep hentry hlink hscanouts hhost => exact ⟨hT.congr hentry hhost, hL.congr hlink hscanouts⟩
  | create create2d hid hfresh hroom => exact ⟨hT.create hid hfresh hroom, hL.create hid hfresh⟩
  | destroy hres => exact inv_destroy hT hL (key_of_find hres ▸ hres)
  | bind i fb r hres => exact inv_bind hT hL (key_of_find hres ▸ hres) i fb r

/-- The device after a sequence of commands, each with its own request, memory and system calls. -/
def runCommands (gdev : GPUDev) (cmds : List (GpuEnv × GPUCommand)) : GPUDev :=
  cmds.foldl (fun gdev cmd => (virtioGpuSimpleProcessCmd cmd.1 gdev cmd.2).1) gdev

theorem inv_runCommands (hT : TableInv gdev) (hL : LinkInv gdev)
    (cmds : List (GpuEnv × GPUCommand)) :
    TableInv (runCommands gdev cmds) ∧ LinkInv (runCommands gdev cmds) := by
  induction cmds generalizing gdev with
  | nil => exact ⟨hT, hL⟩
  | cons cmd cmds ih =>
    obtain ⟨hT', hL'⟩ := (virtioGpuSimpleProcessCmd_step cmd.1 gdev cmd.2).inv hT hL
    exact ih hT' hL'

/-- **The resource table.** After any sequence of commands the identifiers are distinct and
non-zero, and the memory counter is the sum over the listed resources and below the limit. -/
theorem resource_table_consistent (requestedState : UInt32 × UInt32)
    (cmds : List (GpuEnv × GPUCommand)) :
    let gdev := runCommands (initGpuDev requestedState) cmds
    (gdev.resourceList.map resourceId).Nodup ∧ (∀ res ∈ gdev.resourceList, res.resourceId ≠ 0) ∧
      gdev.hostmem.toNat = (gdev.resourceList.map fun res => res.hostmem.toNat).sum ∧
      gdev.hostmem < virtioGpuMaxHostmem := by
  obtain ⟨hT, -⟩ := inv_runCommands (TableInv.init requestedState)
    (LinkInv.init requestedState) cmds
  exact ⟨hT.ids_nodup, hT.ids_ne_zero, hT.hostmem_eq, hT.hostmem_lt⟩

/-- **Links between scanouts and resources.** After any sequence of commands bit `i` of a resource's
mask is set iff scanout `i` shows the resource, and every scanout shows nothing or a listed
resource. -/
theorem scanout_links_consistent (requestedState : UInt32 × UInt32)
    (cmds : List (GpuEnv × GPUCommand)) (i : Fin maxScanouts) :
    let gdev := runCommands (initGpuDev requestedState) cmds
    (∀ res ∈ gdev.resourceList,
      res.scanoutBitmask.toNat.testBit i.val ↔ (gdev.scanouts i).resourceId = res.resourceId) ∧
      ((gdev.scanouts i).resourceId = 0 ∨
        ∃ res ∈ gdev.resourceList, res.resourceId = (gdev.scanouts i).resourceId) := by
  obtain ⟨-, hL⟩ := inv_runCommands (TableInv.init requestedState)
    (LinkInv.init requestedState) cmds
  refine ⟨?_, (hL.listed i).imp_right List.mem_map.mp⟩
  intro res hres
  rw [← boundTo_eq_testBit]
  exact hL.bound_iff i res hres

end Runs

end HvisorRux.Tool
