import HvisorRux.Tool.Gpu.Transfer

/-!
# Sizes and rectangles

`calc_image_hostmem` computes the size of a resource in 32 bits, and the three rectangle tests add
in 32 bits. Both are exact as long as nothing wraps around: a guest may create resources whose
accounted size is smaller than the real one, and rectangles at the end of very wide resources pass
though they lie outside. The test of `virtio_gpu_do_set_scanout` compares `y` with the width.
-/

namespace HvisorRux.Tool

open Common List VirtioGpuSetScanout GpuCommandType

/-! ## What all resources have in common -/

section All

variable {P : GPUSimpleResource → Prop} {gdev : GPUDev}

/-- Every listed resource is `P`. -/
def GPUDev.All (P : GPUSimpleResource → Prop) (gdev : GPUDev) : Prop :=
  ∀ res ∈ gdev.resourceList, P res

/-- `P` holds of new resources, and it does not look at what commands change. -/
structure Lasting (P : GPUSimpleResource → Prop) : Prop where
  create : ∀ create2d, P (newResource create2d)
  iov : ∀ res iov, P res → P { res with iov }
  mask : ∀ res scanoutBitmask, P res → P { res with scanoutBitmask }
  transfer : ∀ res transferRect transferOffset, P res → P { res with transferRect, transferOffset }

namespace GPUDev.All

variable (h : gdev.All P)
include h

theorem modifyResource {resourceId : UInt32} {f : GPUSimpleResource → GPUSimpleResource}
    (hf : ∀ res, P res → P (f res)) : (gdev.modifyResource resourceId f).All P := by
  intro res hres
  obtain hres | ⟨res', hres', rfl⟩ := KeyedList.mem_or_eq_of_mem_modify hres
  · exact h res hres
  · exact hf res' (h res' hres')

section

variable (hP : Lasting P)

include hP

theorem disableScanout (i : Fin maxScanouts) : (virtioGpuDisableScanout gdev i).All P := by
  simp only [virtioGpuDisableScanout]
  split
  · exact h
  · exact h.modifyResource fun res => hP.mask res _

theorem destroy (res : GPUSimpleResource) : (virtioGpuResourceDestory gdev res).All P := by
  have hdisable : (disableBoundScanouts gdev res).All P := by
    unfold disableBoundScanouts
    split
    · generalize List.finRange maxScanouts = is
      induction is generalizing gdev with
      | nil => exact h
      | cons i is ih =>
        have hbound : (disableIfBound res.resourceId gdev i).All P := by
          unfold disableIfBound
          split
          · exact h
          · split
            · exact h.disableScanout hP i
            · exact h
        exact ih hbound
    · exact h
  have hcleanup : (virtioGpuCleanupMapping (disableBoundScanouts gdev res) res.resourceId).All P :=
    hdisable.modifyResource fun res => hP.iov res none
  exact fun res' hres' => hcleanup res' (mem_of_mem_eraseP hres')

/-- No command takes `P` away. -/
theorem processCmd (env : GpuEnv) (gcmd : GPUCommand) :
    (virtioGpuSimpleProcessCmd env gdev gcmd).1.All P := by
  have hdoes := virtioGpuSimpleProcessCmd_does env gdev gcmd
  generalize (virtioGpuSimpleProcessCmd env gdev gcmd).1 = gdev' at hdoes ⊢
  cases hdoes with
  | nothing => exact h
  | create => exact forall_mem_cons.mpr ⟨hP.create _, h⟩
  | destroy => exact h.destroy hP _
  | bind =>
    refine GPUDev.All.modifyResource ?_ fun res => hP.mask res _
    exact h.modifyResource fun res => hP.mask res _
  | @flush _ res =>
    unfold GPUDev.All
    rw [(flushScanouts_keep env res (List.finRange maxScanouts) gdev none).1]
    exact h
  | backing => exact h.modifyResource fun res => hP.iov res _
  | transfer => exact h.modifyResource fun res => hP.transfer res _ _

end

end GPUDev.All

theorem GPUDev.all_runCommands (hP : Lasting P) (requestedState : UInt32 × UInt32)
    (cmds : List (GpuEnv × GPUCommand)) : (runCommands (initGpuDev requestedState) cmds).All P := by
  have hinit : (initGpuDev requestedState).All P := forall_mem_nil _
  generalize initGpuDev requestedState = gdev at hinit ⊢
  induction cmds generalizing gdev with
  | nil => exact hinit
  | cons cmd cmds ih => exact ih _ (hinit.processCmd hP cmd.1 cmd.2)

end All

/-! ## The accounted size -/

section Size

variable {res : GPUSimpleResource}

/-- The size is the one that was computed when the resource was created. -/
def GPUSimpleResource.Accounted (res : GPUSimpleResource) : Prop :=
  res.hostmem = (calcImageHostmem 32 res.width res.height).toUInt64

theorem lasting_accounted : Lasting GPUSimpleResource.Accounted where
  create _ := rfl
  iov _ _ h := h
  mask _ _ h := h
  transfer _ _ _ h := h

/-- The bits per row lose the upper bits of the width, and the product is reduced again. -/
theorem calcImageHostmem_toNat (width height : UInt32) : (calcImageHostmem 32 width height).toNat =
      4 * (width.toNat % 2 ^ 27) * height.toNat % 2 ^ 32 := by
  have hrow : (((width * 32 + 0x1f) >>> 5) * 4 : UInt32).toNat = 4 * (width.toNat % 2 ^ 27) := by
    rw [UInt32.toNat_mul, UInt32.toNat_shiftRight, UInt32.toNat_add, UInt32.toNat_mul,
      Nat.shiftRight_eq_div_pow]
    show ((width.toNat * 32 % 2 ^ 32 + 31) % 2 ^ 32 / 2 ^ 5 * 4) % 2 ^ 32 = _
    omega
  rw [calcImageHostmem, UInt32.toNat_mul, hrow, Nat.mul_comm]

/-- The accounted size is the real one iff neither of the two wraps around. -/
theorem accounted_eq_iff (w h : ℕ) :
    4 * (w % 2 ^ 27) * h % 2 ^ 32 = 4 * w * h ↔ h = 0 ∨ w < 2 ^ 27 ∧ 4 * w * h < 2 ^ 32 := by
  constructor
  · intro heq
    refine or_iff_not_imp_left.mpr fun hne => ⟨?_, heq ▸ Nat.mod_lt _ (by decide)⟩
    -- a width that loses bits makes the size smaller
    by_contra hge
    have hlt : w % 2 ^ 27 < w := (Nat.mod_lt w (by decide)).trans_le (not_lt.mp hge)
    have hsmaller : 4 * (w % 2 ^ 27) * h < 4 * w * h :=
      Nat.mul_lt_mul_of_pos_right (Nat.mul_lt_mul_of_pos_left hlt (by decide))
        (Nat.pos_of_ne_zero hne)
    exact absurd (heq ▸ Nat.mod_le _ _) (not_le.mpr hsmaller)
  · rintro (rfl | ⟨hw, hsize⟩)
    · simp
    · rw [Nat.mod_eq_of_lt hw, Nat.mod_eq_of_lt hsize]

namespace GPUSimpleResource.Accounted

variable (h : res.Accounted)
include h

theorem hostmem_toNat :
    res.hostmem.toNat = 4 * (res.width.toNat % 2 ^ 27) * res.height.toNat % 2 ^ 32 := by
  rw [h, UInt32.toNat_toUInt64, calcImageHostmem_toNat]

theorem hostmem_eq_iff :
    res.hostmem.toNat = 4 * res.width.toNat * res.height.toNat ↔ res.height.toNat = 0 ∨
        res.width.toNat < 2 ^ 27 ∧ 4 * res.width.toNat * res.height.toNat < 2 ^ 32 := by
  rw [h.hostmem_toNat, accounted_eq_iff]

theorem height_ne_zero (hhost : res.hostmem ≠ 0) : res.height ≠ 0 := by
  rintro hheight
  refine hhost (UInt64.toNat_inj.mp ?_)
  rw [h.hostmem_toNat, hheight]
  simp

theorem packed
    (hsize : res.hostmem.toNat = 4 * res.width.toNat * res.height.toNat) : res.Packed := by
  refine ⟨hsize, ?_⟩
  rw [h.hostmem_toNat]
  exact Nat.mod_lt _ (by decide)

end GPUSimpleResource.Accounted

/-- The two divisions of the size by the height are the same. -/
theorem scanoutFrameBuffer_stride (res : GPUSimpleResource) (r : VirtioGpuRect) :
    (scanoutFrameBuffer res r).stride = res.stride := rfl

/-- In every device state the accounted size of a resource is the real one unless its computation
wraps around. A resource that passes `virtio_gpu_check_resource` has a height to divide by, and then
both divisions give 4 bytes per pixel. -/
theorem accounted_size_exact (requestedState : UInt32 × UInt32) (cmds : List (GpuEnv × GPUCommand))
    (res : GPUSimpleResource)
    (hres : res ∈ (runCommands (initGpuDev requestedState) cmds).resourceList)
    (hfits : res.height.toNat = 0 ∨
      res.width.toNat < 2 ^ 27 ∧ 4 * res.width.toNat * res.height.toNat < 2 ^ 32) :
    res.hostmem.toNat = 4 * res.width.toNat * res.height.toNat ∧
      (res.hostmem ≠ 0 → res.height ≠ 0 ∧ res.stride.toNat = 4 * res.width.toNat ∧
        ∀ r, (scanoutFrameBuffer res r).stride.toNat = 4 * res.width.toNat) := by
  have hacc : res.Accounted := GPUDev.all_runCommands lasting_accounted requestedState cmds res hres
  have hsize := hacc.hostmem_eq_iff.mpr hfits
  refine ⟨hsize, fun hhost => ?_⟩
  have hstride := (hacc.packed hsize).stride_toNat hhost
  exact ⟨hacc.height_ne_zero hhost, hstride, fun r => by rw [scanoutFrameBuffer_stride, hstride]⟩

/-- The bytes of a number. -/
def wordBytes (w : UInt32) : List UInt8 :=
  [w.toUInt8, (w >>> 8).toUInt8, (w >>> 16).toUInt8, (w >>> 24).toUInt8]

/-- A header of the given type with the given numbers behind it. -/
def sampleBytes (type : UInt8) (fields : List UInt32) : List UInt8 :=
  [type, 1] ++ List.replicate 22 0 ++ fields.flatMap wordBytes

/-- The request with these bytes. -/
def sampleWords (type : UInt8) (fields : List UInt32) : GpuEnv × GPUCommand :=
  (sampleGpuEnv (sampleBytes type fields),
    ⟨[⟨0x1000, UInt64.ofNat (sampleBytes type fields).length⟩], 0, .control⟩)

/-- The device after `RESOURCE_CREATE_2D` and `RESOURCE_ATTACH_BACKING` of a resource of the given
size. -/
def sampleSized (width height : UInt32) : GPUDev :=
  runCommands (initGpuDev (1920, 1080))
    [sampleWords 1 [1, 1, width, height], sampleWords 6 [1, 1, 0, 0, 16, 0]]

theorem accounted_size_exact_sample :
    ∃ res ∈ (sampleSized 640 480).resourceList, res.hostmem = 1228800 ∧
      res.stride.toNat = 4 * 640 := by
  have hlist : ∃ res, (sampleSized 640 480).resourceList = [res] ∧ res.hostmem = 1228800 ∧
      res.width = 640 ∧ res.height = 480 := ⟨_, rfl, by decide +kernel, by decide +kernel,
        by decide +kernel⟩
  obtain ⟨res, hlist, hhost, hwidth, hheight⟩ := hlist
  have hres : res ∈ (sampleSized 640 480).resourceList := hlist ▸ mem_singleton_self res
  obtain ⟨-, hstride⟩ := accounted_size_exact (1920, 1080) _ res hres
    (.inr (by rw [hwidth, hheight]; decide))
  refine ⟨res, hres, hhost, ?_⟩
  rw [(hstride (hhost ▸ by decide)).2.1, hwidth]
  rfl

/-- A resource of 65536 by 16385 pixels is accounted with 256 KiB, and its rows with 15 bytes. -/
theorem accounted_size_wraps :
    ¬ ∀ (requestedState : UInt32 × UInt32) (cmds : List (GpuEnv × GPUCommand)),
      ∀ res ∈ (runCommands (initGpuDev requestedState) cmds).resourceList,
        res.hostmem.toNat = 4 * res.width.toNat * res.height.toNat ∧
          (res.hostmem ≠ 0 → res.stride.toNat = 4 * res.width.toNat) := by
  intro h
  have hlist : (sampleSized 65536 16385).resourceList.map (fun res =>
      (res.width, res.height, res.hostmem, res.stride)) = [(65536, 16385, 262144, 15)] := by
    decide +kernel
  obtain ⟨res, hres, heq⟩ := List.mem_map.mp (hlist ▸ mem_singleton_self _)
  simp only [Prod.mk.injEq] at heq
  obtain ⟨hwidth, hheight, hhost, -⟩ := heq
  have hsize := (h (1920, 1080) _ res hres).1
  rw [hwidth, hheight, hhost] at hsize
  exact absurd hsize (by decide)

end Size

/-! ## The rectangle tests -/

section Rectangles

variable {env : GpuEnv} {gdev : GPUDev} {gcmd : GPUCommand} {res : GPUSimpleResource}
  {r : VirtioGpuRect}

/-- The rectangle lies in the resource. -/
def VirtioGpuRect.Within (r : VirtioGpuRect) (res : GPUSimpleResource) : Prop :=
  r.x.toNat + r.width.toNat ≤ res.width.toNat ∧ r.y.toNat + r.height.toNat ≤ res.height.toNat
deriving Decidable

/-- A sum of a rectangle test wraps around, and all comparisons pass: a sum that wraps around is
smaller than its summands. `yMax` is what the test compares `y` with. -/
def VirtioGpuRect.Wrapped (r : VirtioGpuRect) (yMax : UInt32) (res : GPUSimpleResource) : Prop :=
  (2 ^ 32 ≤ r.x.toNat + r.width.toNat ∨ 2 ^ 32 ≤ r.y.toNat + r.height.toNat) ∧
    (r.x.toNat ≤ res.width.toNat ∧ r.y.toNat ≤ yMax.toNat ∧
      r.width.toNat ≤ res.width.toNat ∧ r.height.toNat ≤ res.height.toNat) ∧
    (2 ^ 32 ≤ r.x.toNat + r.width.toNat ∨ r.x.toNat + r.width.toNat ≤ res.width.toNat) ∧
    (2 ^ 32 ≤ r.y.toNat + r.height.toNat ∨ r.y.toNat + r.height.toNat ≤ res.height.toNat)
deriving Decidable

/-- The rectangles of at least 16 by 16 pixels for which the test of `virtio_gpu_do_set_scanout` is
exact: no sum wraps around unnoticed, and a rectangle inside starts no lower than the resource is
wide. -/
def VirtioGpuRect.ScanoutFits (r : VirtioGpuRect) (res : GPUSimpleResource) : Prop :=
  ¬ r.Wrapped res.width res ∧ (r.Within res → r.y.toNat ≤ res.width.toNat)
deriving Decidable

/-- The test passes the rectangles in the resource and those whose sums wrap around. -/
theorem VirtioGpuRect.outside_eq_false_iff :
    r.outside res = false ↔ r.Within res ∨ r.Wrapped res.height res := by
  have hx := r.x.toNat_lt
  have hy := r.y.toNat_lt
  simp only [outside, Bool.or_eq_false_iff, decide_eq_false_iff_not, UInt32.not_lt,
    UInt32.le_iff_toNat_le, UInt32.toNat_add, Within, Wrapped]
  omega

theorem VirtioGpuRect.illegalScanout_eq_false_iff {fb : GPUFrameBuffer}
    (hwidth : fb.width = res.width) (hheight : fb.height = res.height) :
    r.illegalScanout fb = false ↔ (16 ≤ r.width.toNat ∧ 16 ≤ r.height.toNat) ∧
        (r.Within res ∧ r.y.toNat ≤ res.width.toNat ∨ r.Wrapped res.width res) := by
  have h16 : (16 : UInt32).toNat = 16 := rfl
  have hx := r.x.toNat_lt
  have hy := r.y.toNat_lt
  simp only [illegalScanout, Bool.or_eq_false_iff, decide_eq_false_iff_not, UInt32.not_lt,
    UInt32.le_iff_toNat_le, UInt32.toNat_add, hwidth, hheight, h16, Within, Wrapped]
  omega

/-- No rectangle is both inside and wrapped around. -/
theorem VirtioGpuRect.Within.not_wrapped {yMax : UInt32} (h : r.Within res) :
    ¬ r.Wrapped yMax res := by
  have hw := res.width.toNat_lt
  have hh := res.height.toNat_lt
  unfold Within at h
  unfold Wrapped
  omega

/-- The test is exact if and only if no sum wraps around unnoticed. -/
theorem VirtioGpuRect.outside_exact_iff :
    (r.outside res = false ↔ r.Within res) ↔ ¬ r.Wrapped res.height res := by
  rw [outside_eq_false_iff, or_iff_left_iff_imp]
  exact ⟨fun h hwrap => (h hwrap).not_wrapped hwrap, fun h hwrap => absurd hwrap h⟩

theorem VirtioGpuRect.illegalScanout_exact_iff {fb : GPUFrameBuffer}
    (hwidth : fb.width = res.width) (hheight : fb.height = res.height) :
    (r.illegalScanout fb = false ↔
        r.Within res ∧ 16 ≤ r.width.toNat ∧ 16 ≤ r.height.toNat) ↔
      (16 ≤ r.width.toNat ∧ 16 ≤ r.height.toNat → r.ScanoutFits res) := by
  have hdisj : r.Within res → ¬ r.Wrapped res.width res := Within.not_wrapped
  rw [illegalScanout_eq_false_iff hwidth hheight]
  unfold ScanoutFits
  tauto

variable {bytes : List UInt8} {error : Option GpuError}

theorem virtioGpuTransferToHost2d_eq_none_iff
    (hfill : fillCmd env.mem gcmd transferToHost2d.size = some bytes)
    (hcheck : virtioGpuCheckResource gdev (VirtioGpuTransferToHost2d.ofBytes bytes).resourceId =
      .ok res) :
    (virtioGpuTransferToHost2d env gdev gcmd).2 = none ↔
      (VirtioGpuTransferToHost2d.ofBytes bytes).r.outside res = false := by
  simp only [virtioGpuTransferToHost2d, hfill, hcheck]
  split <;> simp [*]

theorem virtioGpuSetScanout_eq_none_iff (hfill : fillCmd env.mem gcmd setScanout.size = some bytes)
    (hid : (ofBytes bytes).scanoutId < gdev.scanoutsNum)
    (hcheck : virtioGpuCheckResource gdev (ofBytes bytes).resourceId = .ok res) :
    (virtioGpuSetScanout env gdev gcmd).2 = none ↔ (ofBytes bytes).r.illegalScanout
        (scanoutFrameBuffer res (ofBytes bytes).r) = false := by
  simp only [virtioGpuSetScanout, hfill, dif_neg (UInt32.not_le.mpr hid), hcheck]
  split <;> simp [*]

/-- The copy sets no error but `unspec`. -/
theorem virtioGpuCopyAndFlush_ne {mem : HostMem} {scanout : GPUScanout}
    (h : error ≠ some .invalidParameter) :
    (virtioGpuCopyAndFlush mem scanout res error).2 ≠ some .invalidParameter := by
  unfold virtioGpuCopyAndFlush
  split
  · simp
  · split
    · simp
    · split
      · exact h
      · simp

theorem virtioGpuCreateDrmFramebuffer_ne (drm : DrmEnv) (scanout : GPUScanout) (dumbs : List UInt32)
    (h : error ≠ some .invalidParameter) :
    (virtioGpuCreateDrmFramebuffer drm scanout dumbs error).2.2 ≠ some .invalidParameter := by
  unfold virtioGpuCreateDrmFramebuffer
  split
  · simp
  · split
    · simp
    · split
      · exact h
      · simp

theorem flushScanouts_ne (is : List (Fin maxScanouts)) (h : error ≠ some .invalidParameter) :
    (flushScanouts env res is gdev error).2 ≠ some .invalidParameter := by
  induction is generalizing gdev error with
  | nil => exact h
  | cons i is ih =>
    unfold flushScanouts
    split
    · exact ih h
    split
    · exact ih (virtioGpuCopyAndFlush_ne h)
    · have hcreate := virtioGpuCreateDrmFramebuffer_ne env.drm (gdev.scanouts i) gdev.dumbs h
      simp only
      split
      · exact hcreate
      · exact ih (virtioGpuCopyAndFlush_ne hcreate)

theorem virtioGpuResourceFlush_ne_iff (hfill : fillCmd env.mem gcmd resourceFlush.size = some bytes)
    (hcheck : virtioGpuCheckResource gdev (VirtioGpuResourceFlush.ofBytes bytes).resourceId =
      .ok res) :
    (virtioGpuResourceFlush env gdev gcmd).2 ≠ some .invalidParameter ↔
      (VirtioGpuResourceFlush.ofBytes bytes).r.outside res = false := by
  simp only [virtioGpuResourceFlush, hfill, hcheck]
  split
  · next hout => simp [hout]
  · next hout => simp [hout, flushScanouts_ne]

/-- **The three tests are exact** if and only if no sum wraps around unnoticed; the one of
`virtio_gpu_do_set_scanout` refuses in addition what starts lower than the resource is wide. A flush
may fail for other reasons after it has accepted the rectangle. -/
theorem rectangle_validation_iff (env : GpuEnv) (gdev : GPUDev) (gcmd : GPUCommand)
    (bytes : List UInt8) (res : GPUSimpleResource) :
    (fillCmd env.mem gcmd transferToHost2d.size = some bytes →
      let transfer2d := VirtioGpuTransferToHost2d.ofBytes bytes
      virtioGpuCheckResource gdev transfer2d.resourceId = .ok res →
        (((virtioGpuTransferToHost2d env gdev gcmd).2 = none ↔ transfer2d.r.Within res) ↔
          ¬ transfer2d.r.Wrapped res.height res)) ∧
    (fillCmd env.mem gcmd resourceFlush.size = some bytes →
      let flush := VirtioGpuResourceFlush.ofBytes bytes
      virtioGpuCheckResource gdev flush.resourceId = .ok res →
        (((virtioGpuResourceFlush env gdev gcmd).2 ≠ some .invalidParameter ↔
            flush.r.Within res) ↔
          ¬ flush.r.Wrapped res.height res)) ∧
    (fillCmd env.mem gcmd setScanout.size = some bytes →
      let set := ofBytes bytes
      set.scanoutId < gdev.scanoutsNum → virtioGpuCheckResource gdev set.resourceId = .ok res →
        (((virtioGpuSetScanout env gdev gcmd).2 = none ↔
            set.r.Within res ∧ 16 ≤ set.r.width.toNat ∧ 16 ≤ set.r.height.toNat) ↔
          (16 ≤ set.r.width.toNat ∧ 16 ≤ set.r.height.toNat → set.r.ScanoutFits res))) := by
  refine ⟨?_, ?_, ?_⟩
  · intro hfill transfer2d hcheck
    rw [virtioGpuTransferToHost2d_eq_none_iff hfill hcheck]
    exact VirtioGpuRect.outside_exact_iff
  · intro hfill flush hcheck
    rw [virtioGpuResourceFlush_ne_iff hfill hcheck]
    exact VirtioGpuRect.outside_exact_iff
  · intro hfill set hid hcheck
    rw [virtioGpuSetScanout_eq_none_iff hfill hid hcheck]
    exact VirtioGpuRect.illegalScanout_exact_iff rfl rfl

/-- The resource of `sampleSized`. -/
def sampleSizedResource (width height : UInt32) : GPUSimpleResource :=
  { newResource ⟨1, 1, width, height⟩ with iov := some [⟨0, 16⟩] }

/-- In a resource of 16 by 32 pixels the last row can be transferred and flushed, and the lower half
can be shown. -/
theorem rectangle_validation_iff_sample :
    let transfer2d := sampleWords 5 [0, 31, 16, 1, 0, 0, 1, 0]
    let flush := sampleWords 4 [0, 31, 16, 1, 1, 0]
    let set := sampleWords 3 [0, 16, 16, 16, 0, 1]
    (virtioGpuTransferToHost2d transfer2d.1 (sampleSized 16 32) transfer2d.2).2 = none ∧
      (virtioGpuResourceFlush flush.1 (sampleSized 16 32) flush.2).2 ≠ some .invalidParameter ∧
      (virtioGpuSetScanout set.1 (sampleSized 16 32) set.2).2 = none := by
  intro transfer2d flush set
  have hcheck : virtioGpuCheckResource (sampleSized 16 32) 1 = .ok (sampleSizedResource 16 32) :=
    rfl
  obtain ⟨htransfer, -, -⟩ := rectangle_validation_iff transfer2d.1 (sampleSized 16 32)
    transfer2d.2 (sampleBytes 5 [0, 31, 16, 1, 0, 0, 1, 0]) (sampleSizedResource 16 32)
  obtain ⟨-, hflush, -⟩ := rectangle_validation_iff flush.1 (sampleSized 16 32) flush.2
    (sampleBytes 4 [0, 31, 16, 1, 1, 0]) (sampleSizedResource 16 32)
  obtain ⟨-, -, hset⟩ := rectangle_validation_iff set.1 (sampleSized 16 32) set.2
    (sampleBytes 3 [0, 16, 16, 16, 0, 1]) (sampleSizedResource 16 32)
  refine ⟨((htransfer ?_ hcheck).mpr ?_).mpr ?_, ((hflush ?_ hcheck).mpr ?_).mpr ?_,
    ((hset ?_ ?_ hcheck).mpr ?_).mpr ?_⟩ <;> decide +kernel

/-- A transfer beyond the right edge of a very wide resource is accepted, and a scanout in the lower
part of a high resource is refused. -/
theorem rectangle_validation_inexact :
    (¬ ∀ (env : GpuEnv) (gdev : GPUDev) (gcmd : GPUCommand) (bytes : List UInt8)
      (res : GPUSimpleResource),
      fillCmd env.mem gcmd transferToHost2d.size = some bytes →
      virtioGpuCheckResource gdev (VirtioGpuTransferToHost2d.ofBytes bytes).resourceId = .ok res →
      ((virtioGpuTransferToHost2d env gdev gcmd).2 = none ↔
        (VirtioGpuTransferToHost2d.ofBytes bytes).r.Within res)) ∧
    ¬ ∀ (env : GpuEnv) (gdev : GPUDev) (gcmd : GPUCommand) (bytes : List UInt8)
      (res : GPUSimpleResource),
      fillCmd env.mem gcmd setScanout.size = some bytes →
      (ofBytes bytes).scanoutId < gdev.scanoutsNum →
      virtioGpuCheckResource gdev (ofBytes bytes).resourceId = .ok res →
      ((virtioGpuSetScanout env gdev gcmd).2 = none ↔ (ofBytes bytes).r.Within res ∧
          16 ≤ (ofBytes bytes).r.width.toNat ∧
          16 ≤ (ofBytes bytes).r.height.toNat) := by
  constructor
  · intro h
    let cmd := sampleWords 5 [0x80000001, 0, 0x80000000, 1, 0, 0, 1, 0]
    have hcheck : virtioGpuCheckResource (sampleSized 0x80000001 1) 1 =
      .ok (sampleSizedResource 0x80000001 1) := rfl
    have hwithin := (h cmd.1 (sampleSized 0x80000001 1) cmd.2
      (sampleBytes 5 [0x80000001, 0, 0x80000000, 1, 0, 0, 1, 0]) _ (by decide +kernel) hcheck).mp
      (by decide +kernel)
    exact absurd hwithin (by decide +kernel)
  · intro h
    let cmd := sampleWords 3 [0, 32, 16, 16, 0, 1]
    have hcheck : virtioGpuCheckResource (sampleSized 16 64) 1 = .ok (sampleSizedResource 16 64) :=
      rfl
    have haccept := (h cmd.1 (sampleSized 16 64) cmd.2 (sampleBytes 3 [0, 32, 16, 16, 0, 1]) _
      (by decide +kernel) (by decide +kernel) hcheck).mpr (by decide +kernel)
    exact absurd haccept (by decide +kernel)

end Rectangles

end HvisorRux.Tool
