import HvisorRux.Common.Transition
import HvisorRux.Tool.Gpu.Response

/-!
# DRM buffers

A flush of a resource that is bound to a scanout without a frame buffer creates one on the card
(`virtio_gpu_create_drm_framebuffer`), and its handle is kept in the scanout's `frame_buffer`
record. `virtio_gpu_remove_drm_framebuffer`, which no command reaches with an enabled record, would
destroy it again. So a buffer is lost when `virtio_gpu_update_scanout` overwrites an enabled record,
and when the creation fails after the dumb buffer exists, in `MAP_DUMB` or `drmModeAddFB`; in no
other way. A failing `mmap` is not noticed, and the buffer is recorded.
-/

namespace HvisorRux.Tool

open Common Function List Option GPUDev

/-- The dumb buffer recorded in a frame buffer. -/
def GPUFrameBuffer.recorded (fb : GPUFrameBuffer) : Option UInt32 :=
  if fb.enabled then some fb.drmDumbHandle else none

/-- The dumb buffers recorded in the scanouts. -/
def GPUDev.recordedDumbs (gdev : GPUDev) : List UInt32 :=
  (List.finRange maxScanouts).filterMap fun i => (gdev.scanouts i).frameBuffer.recorded

/-- One command. -/
def gpuCommandStep (gdev : GPUDev) (cmd : GpuEnv × GPUCommand) : Option GPUDev :=
  some (virtioGpuSimpleProcessCmd cmd.1 gdev cmd.2).1

/-- The scanout whose record a `SET_SCANOUT` replaces; `none` for one that is refused. -/
def setScanoutTarget (env : GpuEnv) (gdev : GPUDev) (gcmd : GPUCommand) :
    Option (Fin maxScanouts) :=
  match fillCmd env.mem gcmd GpuCommandType.setScanout.size with
  | none => none
  | some bytes =>
    let setScanout := VirtioGpuSetScanout.ofBytes bytes
    if hid : setScanout.scanoutId ≥ gdev.scanoutsNum then none
    else
      match virtioGpuCheckResource gdev setScanout.resourceId with
      | .error _ => none
      | .ok res =>
        if setScanout.r.illegalScanout (scanoutFrameBuffer res setScanout.r) then none
        else some (gdev.scanoutIndex hid)

/-- The resource a `RESOURCE_FLUSH` is for; `none` for one that is refused. -/
def flushedResource (env : GpuEnv) (gdev : GPUDev) (gcmd : GPUCommand) : Option GPUSimpleResource :=
  match fillCmd env.mem gcmd GpuCommandType.resourceFlush.size with
  | none => none
  | some bytes =>
    let resourceFlush := VirtioGpuResourceFlush.ofBytes bytes
    match virtioGpuCheckResource gdev resourceFlush.resourceId with
    | .error _ => none
    | .ok res => if resourceFlush.r.outside res then none else some res

/-- If the dumb buffer is created, the frame buffer is. -/
def DrmEnv.Complete (drm : DrmEnv) : Prop :=
  drm.createDumb.isSome → drm.mapDumb = true ∧ drm.addFb.isSome

/-- The command is not a `SET_SCANOUT` of a scanout with an enabled frame buffer, nor a
`RESOURCE_FLUSH` that creates a frame buffer and fails after `CREATE_DUMB`. -/
@[mk_iff] structure KeepsBuffers (gdev : GPUDev) (cmd : GpuEnv × GPUCommand) : Prop where
  setScanout : commandOf cmd.1.mem cmd.2 = some (some .setScanout) →
    ∀ i, setScanoutTarget cmd.1 gdev cmd.2 = some i → (gdev.scanouts i).frameBuffer.enabled = false
  flush : commandOf cmd.1.mem cmd.2 = some (some .resourceFlush) →
    ∀ res, flushedResource cmd.1 gdev cmd.2 = some res → ∀ i, res.boundTo i = true →
      (gdev.scanouts i).frameBuffer.enabled = false → cmd.1.drm.Complete

instance (drm : DrmEnv) : Decidable drm.Complete :=
  inferInstanceAs (Decidable (_ → _))

instance (gdev : GPUDev) (cmd : GpuEnv × GPUCommand) : Decidable (KeepsBuffers gdev cmd) :=
  decidable_of_iff' _ (keepsBuffers_iff gdev cmd)

/-! ## Commands that leave the records alone -/

/-- The dumb buffers and their records are the same. -/
structure SameBuffers (gdev' gdev : GPUDev) : Prop where
  dumbs : gdev'.dumbs = gdev.dumbs
  recorded : ∀ i, (gdev'.scanouts i).frameBuffer.recorded = (gdev.scanouts i).frameBuffer.recorded

namespace SameBuffers

variable {gdev gdev' gdev'' : GPUDev}

theorem refl (gdev : GPUDev) : SameBuffers gdev gdev := ⟨rfl, fun _ => rfl⟩

theorem trans (h : SameBuffers gdev'' gdev') (h' : SameBuffers gdev' gdev) :
    SameBuffers gdev'' gdev :=
  ⟨h.dumbs.trans h'.dumbs, fun i => (h.recorded i).trans (h'.recorded i)⟩

theorem recordedDumbs (h : SameBuffers gdev' gdev) : gdev'.recordedDumbs = gdev.recordedDumbs := by
  unfold GPUDev.recordedDumbs
  rw [funext h.recorded]

theorem modifyResource (gdev : GPUDev) (resourceId : UInt32)
    (f : GPUSimpleResource → GPUSimpleResource) :
    SameBuffers (gdev.modifyResource resourceId f) gdev := ⟨rfl, fun _ => rfl⟩

theorem setScanout (gdev : GPUDev) {i : Fin maxScanouts} {scanout : GPUScanout}
    (h : scanout.frameBuffer.recorded = (gdev.scanouts i).frameBuffer.recorded) :
    SameBuffers (gdev.setScanout i scanout) gdev := by
  refine ⟨rfl, fun j => ?_⟩
  by_cases hj : j = i
  · subst hj
    rw [setScanout_self, h]
  · rw [setScanout_of_ne gdev hj]

theorem disableScanout (gdev : GPUDev) (i : Fin maxScanouts) :
    SameBuffers (virtioGpuDisableScanout gdev i) gdev := by
  unfold virtioGpuDisableScanout
  dsimp only
  split
  · exact refl gdev
  · have hmid := modifyResource gdev (gdev.scanouts i).resourceId (GPUSimpleResource.unbind i)
    refine SameBuffers.trans (setScanout _ ?_) hmid
    rfl

theorem disableIfBound (resourceId : UInt32) (gdev : GPUDev) (i : Fin maxScanouts) :
    SameBuffers (disableIfBound resourceId gdev i) gdev := by
  unfold Tool.disableIfBound
  split
  · exact refl gdev
  · split
    · exact disableScanout gdev i
    · exact refl gdev

theorem destroy (gdev : GPUDev) (res : GPUSimpleResource) :
    SameBuffers (virtioGpuResourceDestory gdev res) gdev := by
  have hloop : ∀ (is : List (Fin maxScanouts)) (gdev : GPUDev),
      SameBuffers (is.foldl (Tool.disableIfBound res.resourceId) gdev) gdev := by
    intro is
    induction is with
    | nil => exact refl
    | cons i is ih => exact fun gdev => (ih _).trans (disableIfBound res.resourceId gdev i)
  have hdisable : SameBuffers (disableBoundScanouts gdev res) gdev := by
    unfold disableBoundScanouts
    split
    · exact hloop _ gdev
    · exact refl gdev
  exact ⟨hdisable.dumbs, hdisable.recorded⟩

end SameBuffers

/-! ## Flushing -/

theorem virtioGpuCopyAndFlush_recorded (mem : HostMem) (scanout : GPUScanout)
    (res : GPUSimpleResource) (error : Option GpuError) :
    (virtioGpuCopyAndFlush mem scanout res error).1.frameBuffer.recorded =
      scanout.frameBuffer.recorded := by
  unfold virtioGpuCopyAndFlush
  repeat' split
  all_goals rfl

/-- A complete creation either fails and creates nothing, or records the buffer it creates. -/
theorem virtioGpuCreateDrmFramebuffer_complete {drm : DrmEnv} (hdrm : drm.Complete)
    (scanout : GPUScanout) (dumbs : List UInt32) (error : Option GpuError) :
    ((virtioGpuCreateDrmFramebuffer drm scanout dumbs error).1 = scanout ∧
        (virtioGpuCreateDrmFramebuffer drm scanout dumbs error).2.1 = dumbs) ∨
      ∃ handle, (virtioGpuCreateDrmFramebuffer drm scanout dumbs error).2.1 = handle :: dumbs ∧
        (virtioGpuCreateDrmFramebuffer drm scanout dumbs error).1.frameBuffer.recorded =
          some handle := by
  unfold virtioGpuCreateDrmFramebuffer
  cases hcreate : drm.createDumb with
  | none => exact .inl ⟨rfl, rfl⟩
  | some dumb =>
    obtain ⟨hmap, hadd⟩ := hdrm (by rw [hcreate]; rfl)
    obtain ⟨fbId, hfb⟩ := isSome_iff_exists.mp hadd
    refine .inr ⟨dumb.1, ?_⟩
    dsimp only
    rw [hmap, if_neg (by simp), hfb]
    exact ⟨rfl, rfl⟩

/-- Filling one place that was empty adds its value. -/
theorem filterMap_update_perm {ι α : Type} [DecidableEq ι] {l : List ι} (hl : l.Nodup)
    {f : ι → Option α} {i : ι} (hi : i ∈ l) (hf : f i = none) (a : α) :
    (l.filterMap (update f i (some a))).Perm (a :: l.filterMap f) := by
  induction l with
  | nil => cases hi
  | cons j l ih =>
    rw [nodup_cons] at hl
    rcases mem_cons.mp hi with rfl | hi
    · have hrest : l.filterMap (update f i (some a)) = l.filterMap f := by
        refine filterMap_congr fun k hk => update_of_ne ?_ _ _
        rintro rfl
        exact hl.1 hk
      simp [hf, hrest]
    · have hne : j ≠ i := by
        rintro rfl
        exact hl.1 hi
      rw [filterMap_cons, filterMap_cons, update_of_ne hne]
      cases f j with
      | none => exact ih hl.2 hi
      | some b => exact ((ih hl.2 hi).cons b).trans (List.Perm.swap a b _)

/-- The dumb buffers that exist are those recorded in the enabled frame buffers, each once. -/
def BuffersInv (gdev : GPUDev) : Prop := gdev.dumbs.Perm gdev.recordedDumbs

namespace BuffersInv

theorem init (requestedState : UInt32 × UInt32) : BuffersInv (initGpuDev requestedState) := by
  have hnone : (initGpuDev requestedState).recordedDumbs = [] := rfl
  exact List.Perm.nil

variable {gdev : GPUDev}

theorem congr {gdev' : GPUDev} (h : BuffersInv gdev)
    (hsame : SameBuffers gdev' gdev) : BuffersInv gdev' := by
  unfold BuffersInv
  rw [hsame.dumbs, hsame.recordedDumbs]
  exact h

/-- A new frame buffer in a scanout that had none. -/
theorem create (h : BuffersInv gdev) {i : Fin maxScanouts}
    (hold : (gdev.scanouts i).frameBuffer.enabled = false) {scanout : GPUScanout} {handle : UInt32}
    (hnew : scanout.frameBuffer.recorded = some handle) :
    BuffersInv { gdev.setScanout i scanout with dumbs := handle :: gdev.dumbs } := by
  have hnone : (gdev.scanouts i).frameBuffer.recorded = none := by
    rw [GPUFrameBuffer.recorded, hold]
    rfl
  have hupdate : (fun j => ((gdev.setScanout i scanout).scanouts j).frameBuffer.recorded) =
      update (fun j => (gdev.scanouts j).frameBuffer.recorded) i (some handle) := by
    funext j
    by_cases hj : j = i
    · subst hj
      rw [setScanout_self, update_self, hnew]
    · rw [setScanout_of_ne gdev hj, update_of_ne hj]
  have hperm := filterMap_update_perm (nodup_finRange maxScanouts) (mem_finRange i)
    (f := fun j => (gdev.scanouts j).frameBuffer.recorded) hnone handle
  rw [← hupdate] at hperm
  exact (List.Perm.cons handle h).trans hperm.symm

/-- The loop over the scanouts: what it has done to those before `i` does not matter for `i`. -/
theorem flushScanouts {env : GpuEnv} {res : GPUSimpleResource}
    (is : List (Fin maxScanouts)) (his : is.Nodup) (h : BuffersInv gdev)
    (hdrm : ∀ i ∈ is, res.boundTo i = true → (gdev.scanouts i).frameBuffer.enabled = false →
      env.drm.Complete) (error : Option GpuError) :
    BuffersInv (flushScanouts env res is gdev error).1 := by
  induction is generalizing gdev error with
  | nil => exact h
  | cons i is ih =>
    rw [nodup_cons] at his
    have hne : ∀ j ∈ is, j ≠ i := by
      rintro j hj rfl
      exact his.1 hj
    have hother : ∀ scanout : GPUScanout, ∀ j ∈ is, res.boundTo j = true →
        ((gdev.setScanout i scanout).scanouts j).frameBuffer.enabled = false →
        env.drm.Complete := by
      intro scanout j hj hbound hold
      rw [setScanout_of_ne gdev (hne j hj)] at hold
      exact hdrm j (mem_cons_of_mem i hj) hbound hold
    rw [Tool.flushScanouts]
    split
    · exact ih his.2 h (fun j hj => hdrm j (mem_cons_of_mem i hj)) error
    rename_i hbound
    split
    · refine ih his.2 (h.congr (SameBuffers.setScanout gdev ?_)) (hother _) _
      exact virtioGpuCopyAndFlush_recorded env.mem (gdev.scanouts i) res error
    rename_i hold
    have hcomplete := hdrm i (by simp) (by simpa using hbound) (by simpa using hold)
    have hcreate := virtioGpuCreateDrmFramebuffer_complete hcomplete (gdev.scanouts i)
      gdev.dumbs error
    generalize virtioGpuCreateDrmFramebuffer env.drm (gdev.scanouts i) gdev.dumbs error =
      created at hcreate ⊢
    rcases created with ⟨scanout, dumbs, error'⟩
    dsimp only at hcreate ⊢
    have hinv : BuffersInv { gdev.setScanout i scanout with dumbs } := by
      rcases hcreate with ⟨rfl, rfl⟩ | ⟨handle, rfl, hnew⟩
      · exact h.congr (SameBuffers.setScanout gdev rfl)
      · exact h.create (by simpa using hold) hnew
    split
    · exact hinv
    have hcopy := virtioGpuCopyAndFlush_recorded env.mem scanout res error'
    generalize virtioGpuCopyAndFlush env.mem scanout res error' = copied at hcopy ⊢
    refine ih his.2 (hinv.congr (SameBuffers.setScanout _ ?_)) ?_ _
    · rw [hcopy]
      exact congrArg (fun sc : GPUScanout => sc.frameBuffer.recorded)
        (setScanout_self gdev i scanout).symm
    · intro j hj hb hold'
      rw [setScanout_of_ne _ (hne j hj)] at hold'
      exact hother scanout j hj hb hold'

/-! ## Whole runs -/

/-- Every command that meets the condition keeps the buffers and their records together. -/
theorem step {gdev' : GPUDev} (h : BuffersInv gdev) {cmd : GpuEnv × GPUCommand}
    (hok : KeepsBuffers gdev cmd) (hs : gpuCommandStep gdev cmd = some gdev') :
    BuffersInv gdev' := by
  have hdoes := virtioGpuSimpleProcessCmd_does cmd.1 gdev cmd.2
  rw [some.inj hs] at hdoes
  cases hdoes with
  | nothing => exact h
  | create | backing | transfer => exact h.congr ⟨rfl, fun _ => rfl⟩
  | @destroy _ res _ => exact h.congr (.destroy gdev res)
  | bind hcmd hfill hid hres hlegal =>
    -- a new record is not enabled, so nothing is lost if the old one was not either
    have htarget : setScanoutTarget cmd.1 gdev cmd.2 = some (gdev.scanoutIndex hid) := by
      simp only [setScanoutTarget, hfill, dif_neg hid, hres, if_neg hlegal]
    refine h.congr ((SameBuffers.setScanout _ ?_).trans
      ((SameBuffers.modifyResource _ _ _).trans (.modifyResource gdev _ _)))
    show none = (gdev.scanouts (gdev.scanoutIndex hid)).frameBuffer.recorded
    rw [GPUFrameBuffer.recorded, hok.setScanout hcmd _ htarget]
    rfl
  | @flush _ res hcmd hfill hres hinside =>
    have hflushed : flushedResource cmd.1 gdev cmd.2 = some res := by
      simp only [flushedResource, hfill, hres, if_neg hinside]
    exact h.flushScanouts _ (nodup_finRange maxScanouts)
      (fun i _ => hok.flush hcmd res hflushed i) none

end BuffersInv

/-- **Buffers on the card.** In every run in which no `SET_SCANOUT` replaces an enabled frame buffer
and no creation fails half-way, the dumb buffers on the card are those recorded in the enabled frame
buffers, and there is at most one for each scanout. -/
theorem dumb_buffers_recorded (requestedState : UInt32 × UInt32) (gdev : GPUDev)
    (h : Reach gpuCommandStep KeepsBuffers (initGpuDev requestedState) gdev) :
    gdev.dumbs.Perm gdev.recordedDumbs ∧ gdev.dumbs.length ≤ maxScanouts := by
  have hinv : BuffersInv gdev :=
    h.invariant BuffersInv (BuffersInv.init requestedState) fun _ _ _ hinv hok hs =>
      hinv.step hok hs
  refine ⟨hinv, ?_⟩
  calc gdev.dumbs.length = gdev.recordedDumbs.length := hinv.length_eq
    _ ≤ (List.finRange maxScanouts).length := length_filterMap_le _ _
    _ = maxScanouts := length_finRange

/-! ## Lost buffers -/

/-- The request `type` with the given numbers behind its header, each of four bytes, in memory, with
system calls that answer `drm`. -/
def sampleCommand (drm : DrmEnv) (type : UInt8) (fields : List UInt8) : GpuEnv × GPUCommand :=
  let bytes := [type, 1] ++ List.replicate 22 0 ++ (fields.map fun b => [b, 0, 0, 0]).flatten
  ({ sampleGpuEnv bytes with drm }, ⟨[⟨0x1000, UInt64.ofNat bytes.length⟩], 0, .control⟩)

/-- System calls that create buffer 7. -/
def sampleDrm : DrmEnv := ⟨some (7, 1024), true, some 1, some fun _ => 0⟩

/-- `RESOURCE_CREATE_2D` and `RESOURCE_ATTACH_BACKING` of a resource of 16 by 16 pixels. -/
def sampleSetup : List (GpuEnv × GPUCommand) :=
  [sampleCommand sampleDrm 1 [1, 1, 16, 16], sampleCommand sampleDrm 6 [1, 1, 0, 0, 16, 0]]

/-- `SET_SCANOUT` of the resource. -/
def sampleSetScanout : GpuEnv × GPUCommand := sampleCommand sampleDrm 3 [0, 0, 16, 16, 0, 1]

/-- `RESOURCE_FLUSH` of the resource. -/
def sampleFlush (drm : DrmEnv) : GpuEnv × GPUCommand := sampleCommand drm 4 [0, 0, 16, 16, 1, 0]

/-- After a `SET_SCANOUT` and two flushes there is one buffer. -/
theorem dumb_buffers_recorded_sample :
    ∃ gdev : GPUDev, gdev.dumbs = [7] ∧ gdev.dumbs.Perm gdev.recordedDumbs ∧
      gdev.dumbs.length ≤ maxScanouts := by
  have hrun : (run gpuCommandStep KeepsBuffers (initGpuDev (1920, 1080))
      (sampleSetup ++ [sampleSetScanout, sampleFlush sampleDrm, sampleFlush sampleDrm])).map
        GPUDev.dumbs = some [7] := by
    decide +kernel
  obtain ⟨gdev, hs, hdumbs⟩ := exists_of_run hrun
  exact ⟨gdev, hdumbs, dumb_buffers_recorded (1920, 1080) gdev hs⟩

/-- The buffer of the first flush is on the card and not recorded: after a second `SET_SCANOUT`, and
when `drmModeAddFB` fails. -/
theorem dumb_buffer_lost : (run gpuCommandStep anyStep (initGpuDev (1920, 1080))
      (sampleSetup ++ [sampleSetScanout, sampleFlush sampleDrm, sampleSetScanout])).map
        (fun gdev => (gdev.dumbs, gdev.recordedDumbs)) = some ([7], []) ∧
    (run gpuCommandStep anyStep (initGpuDev (1920, 1080))
      (sampleSetup ++ [sampleSetScanout, sampleFlush { sampleDrm with addFb := none }])).map
        (fun gdev => (gdev.dumbs, gdev.recordedDumbs)) = some ([7], []) := by
  constructor <;> decide +kernel

end HvisorRux.Tool
