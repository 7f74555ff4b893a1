import HvisorRux.Tool.Gpu.Resources

/-!
# Responses of the virtio-gpu device

A response is truthful when it reports success exactly for a command that took effect, and when an
error response leaves the device as it was. The device reports success whenever no handler has set
`gcmd->error`, so every early return that forgets to set it is a lie to the driver. There are four:
the request is shorter than the command structure, the new resource exceeds the memory limit, the
EDID is not implemented, and an empty list of memory blocks is attached. A flush into a frame buffer
that could not be mapped is the fifth lie, and a command that touches memory that is not mapped ends
the daemon. In all other cases responses are truthful, in every device state.
-/

namespace HvisorRux.Tool

open Common Option KeyedList GPUDev GPUSimpleResource GpuCommandType

/-! ## What a command promises -/

/-- The parts of the device that an error response must leave alone; the backings are in the
resource list. -/
def Unchanged (gdev gdev' : GPUDev) : Prop :=
  gdev'.resourceList = gdev.resourceList ∧ gdev'.hostmem = gdev.hostmem ∧
    gdev'.scanouts = gdev.scanouts

theorem Unchanged.refl (gdev : GPUDev) : Unchanged gdev gdev := ⟨rfl, rfl, rfl⟩

/-- The contents of a frame buffer before a flush copies into it: the mapped buffer, or the fresh
mapping when none is enabled. -/
def flushTarget (drm : DrmEnv) (scanout : GPUScanout) : Option (ℕ → UInt8) :=
  if scanout.frameBuffer.enabled then scanout.frameBuffer.fbAddr else drm.mmap

/-- The effect of a command with structure `bytes`, for the commands that answer without data. -/
def GpuCommandType.Effect (env : GpuEnv) (gdev gdev' : GPUDev) (gcmd : GPUCommand)
    (bytes : List UInt8) : GpuCommandType → Prop
  | .getDisplayInfo | .getEdid => False
  | .resourceCreate2d =>
    let create2d := VirtioGpuResourceCreate2d.ofBytes bytes
    create2d.resourceId ≠ 0 ∧ gdev.findResource create2d.resourceId = none ∧
      gdev'.resourceList = newResource create2d :: gdev.resourceList ∧
      gdev'.hostmem = gdev.hostmem + (newResource create2d).hostmem
  | .resourceUnref =>
    let ids := gdev.resourceList.map resourceId
    fieldU32 bytes 24 ∈ ids ∧ gdev'.resourceList.map resourceId = ids.erase (fieldU32 bytes 24)
  | .resourceAttachBacking =>
    let attach := VirtioGpuResourceAttachBacking.ofBytes bytes
    ∃ res, gdev.findResource attach.resourceId = some res ∧ res.iov = none ∧
      gdev'.findResource attach.resourceId = some { res with
        iov := some ((memEntries env.mem gcmd.respIov 32 attach.nrEntries.toNat).map
          (VirtioGpuMemEntry.iovec env.zoneMem env.zoneId)) }
  | .resourceDetachBacking =>
    ∃ res, gdev.findResource (fieldU32 bytes 24) = some res ∧ res.iov.isSome ∧
      gdev'.findResource (fieldU32 bytes 24) = some { res with iov := none }
  | .setScanout =>
    let set := VirtioGpuSetScanout.ofBytes bytes
    ∃ res, virtioGpuCheckResource gdev set.resourceId = .ok res ∧
      set.r.illegalScanout (scanoutFrameBuffer res set.r) = false ∧
      set.scanoutId < gdev.scanoutsNum ∧
      ∃ i, i.val = set.scanoutId.toNat ∧ gdev'.scanouts i =
        ⟨set.r.width, set.r.height, set.r.x, set.r.y, set.resourceId, scanoutFrameBuffer res set.r⟩
  | .transferToHost2d =>
    let transfer2d := VirtioGpuTransferToHost2d.ofBytes bytes
    ∃ res, virtioGpuCheckResource gdev transfer2d.resourceId = .ok res ∧
      transfer2d.r.outside res = false ∧
      gdev'.findResource transfer2d.resourceId = some { res with
        transferRect := transfer2d.r, transferOffset := transfer2d.offset }
  | .resourceFlush =>
    let flush := VirtioGpuResourceFlush.ofBytes bytes
    ∃ res iov, virtioGpuCheckResource gdev flush.resourceId = .ok res ∧ res.iov = some iov ∧
      flush.r.outside res = false ∧
      ∀ i, res.boundTo i → (gdev'.scanouts i).frameBuffer.enabled ∧
        ∃ fb, flushTarget env.drm (gdev.scanouts i) = some fb ∧
          (gdev'.scanouts i).frameBuffer.fbAddr = some (copyTransferRect env.mem res iov fb)

/-- The mapping of a frame buffer for the scanout does not fail. A buffer that is not enabled is
mapped after the other system calls have succeeded. -/
def MapsBuffer (drm : DrmEnv) (scanout : GPUScanout) : Prop :=
  if scanout.frameBuffer.enabled then scanout.frameBuffer.fbAddr.isSome = true
  else drm.createDumb.isSome → drm.mapDumb → drm.addFb.isSome → drm.mmap.isSome

/-- The requests, besides those that are too short, that are not answered with success for
nothing. -/
def GpuCommandType.Answerable (env : GpuEnv) (gdev : GPUDev) (bytes : List UInt8) :
    GpuCommandType → Prop
  | .getEdid => False
  | .resourceCreate2d =>
    let create2d := VirtioGpuResourceCreate2d.ofBytes bytes
    create2d.resourceId ≠ 0 → gdev.findResource create2d.resourceId = none →
      (newResource create2d).hostmem + gdev.hostmem < virtioGpuMaxHostmem
  | .resourceAttachBacking =>
    let attach := VirtioGpuResourceAttachBacking.ofBytes bytes
    ∀ res, gdev.findResource attach.resourceId = some res → res.iov = none → attach.nrEntries ≠ 0
  | .resourceFlush =>
    let flush := VirtioGpuResourceFlush.ofBytes bytes
    ∀ res, virtioGpuCheckResource gdev flush.resourceId = .ok res → flush.r.outside res = false →
      ∀ i, res.boundTo i → MapsBuffer env.drm (gdev.scanouts i)
  | _ => True

/-! ## One handler at a time -/

/-- The outcome of a handler for a complete request: success with the effect, an error with neither
effect nor change, or, only for a request that is not answerable, success without the effect. -/
inductive GpuCommandType.Outcome (env : GpuEnv) (gdev : GPUDev) (gcmd : GPUCommand)
    (bytes : List UInt8) (cmd : GpuCommandType) : GPUDev × Option GpuError → Prop
  | done {gdev' : GPUDev} (hans : cmd.Answerable env gdev bytes)
      (heff : cmd.Effect env gdev gdev' gcmd bytes) : Outcome env gdev gcmd bytes cmd (gdev', none)
  | rejected {gdev' : GPUDev} (error : GpuError) (hans : cmd.Answerable env gdev bytes)
      (heff : ¬ cmd.Effect env gdev gdev' gcmd bytes) (hsame : Unchanged gdev gdev') :
      Outcome env gdev gcmd bytes cmd (gdev', some error)
  | silent {gdev' : GPUDev} (hans : ¬ cmd.Answerable env gdev bytes)
      (heff : ¬ cmd.Effect env gdev gdev' gcmd bytes) :
      Outcome env gdev gcmd bytes cmd (gdev', none)

section Handlers

variable (env : GpuEnv) (gdev : GPUDev) (gcmd : GPUCommand) {bytes : List UInt8}

variable {res : GPUSimpleResource} {cmd : GpuCommandType} {iov : List Iovec}

/-- Searching after a write to a resource that keeps its identifier. -/
theorem findResource_modifyResource {resourceId : UInt32}
    {f : GPUSimpleResource → GPUSimpleResource} (hf : ∀ res, (f res).resourceId = res.resourceId)
    (hres : gdev.findResource resourceId = some res) :
    (gdev.modifyResource resourceId f).findResource resourceId = some (f res) := by
  have hfind := find_modify (l := gdev.resourceList) (k := resourceId) hf resourceId
  rw [if_pos rfl, show KeyedList.find _ resourceId gdev.resourceList = some res from hres] at hfind
  exact hfind

/-- There is one scanout. -/
theorem scanout_unique (i j : Fin maxScanouts) : i = j := by
  have hi := i.isLt
  have hj := j.isLt
  unfold maxScanouts at hi hj
  exact Fin.ext (by omega)

/-- Writing back a scanout changes nothing. -/
theorem GPUDev.setScanout_scanouts_self (i : Fin maxScanouts) :
    (gdev.setScanout i (gdev.scanouts i)).scanouts = gdev.scanouts :=
  Function.update_eq_self i gdev.scanouts

/-- The copy into an enabled frame buffer, of a resource that passed
`virtio_gpu_check_resource`. -/
theorem virtioGpuCopyAndFlush_eq (mem : HostMem) {scanout : GPUScanout}
    (hiov : res.iov = some iov) (hhost : res.hostmem ≠ 0) (henabled : scanout.frameBuffer.enabled) :
    virtioGpuCopyAndFlush mem scanout res none =
      ({ scanout with
         frameBuffer :=
           { scanout.frameBuffer with
             fbAddr := scanout.frameBuffer.fbAddr.map (copyTransferRect mem res iov) } },
        none) := by
  unfold virtioGpuCopyAndFlush
  rw [hiov]
  dsimp only
  rw [if_neg hhost, if_pos henabled]

/-- Creating a frame buffer either fails before the mapping and leaves the scanout alone, or enables
what `mmap` returned. -/
theorem virtioGpuCreateDrmFramebuffer_cases (drm : DrmEnv) (scanout : GPUScanout)
    (dumbs : List UInt32) :
    (∃ dumbs' error, virtioGpuCreateDrmFramebuffer drm scanout dumbs none =
        (scanout, dumbs', some error) ∧
        ¬ (drm.createDumb.isSome ∧ drm.mapDumb ∧ drm.addFb.isSome)) ∨
      ∃ scanout' dumbs', virtioGpuCreateDrmFramebuffer drm scanout dumbs none =
          (scanout', dumbs', none) ∧ (drm.createDumb.isSome ∧ drm.mapDumb ∧ drm.addFb.isSome) ∧
        scanout'.frameBuffer.enabled ∧ scanout'.frameBuffer.fbAddr = drm.mmap := by
  unfold virtioGpuCreateDrmFramebuffer
  split
  · next hdumb => exact .inl ⟨_, _, rfl, by simp [hdumb]⟩
  · next hdumb =>
    split
    · next hmap => exact .inl ⟨_, _, rfl, by simp [hmap]⟩
    · next hmap =>
      split
      · next hadd => exact .inr ⟨_, _, rfl, by simp [hdumb, hmap, hadd], rfl, rfl⟩
      · next hadd => exact .inl ⟨_, _, rfl, by simp [hadd]⟩

/-- The flush of one bound scanout: there is an error before the mapping and the scanouts are as
before, or the buffer is enabled and the copy has been made where it is mapped. -/
theorem flushScanouts_singleton (hiov : res.iov = some iov)
    (hhost : res.hostmem ≠ 0) {i : Fin maxScanouts} (hbound : res.boundTo i) :
    (∃ gdev', flushScanouts env res [i] gdev none = (gdev', none) ∧
        (gdev'.scanouts i).frameBuffer.enabled ∧
        (gdev'.scanouts i).frameBuffer.fbAddr =
          (flushTarget env.drm (gdev.scanouts i)).map (copyTransferRect env.mem res iov) ∧
        (MapsBuffer env.drm (gdev.scanouts i) ↔
          (flushTarget env.drm (gdev.scanouts i)).isSome) ∧
        ∃ fb, flushFrameBuffer env gdev i = some fb ∧
          fb.fbAddr = flushTarget env.drm (gdev.scanouts i)) ∨
      ∃ gdev' error, flushScanouts env res [i] gdev none = (gdev', some error) ∧
        gdev'.scanouts = gdev.scanouts ∧ (gdev.scanouts i).frameBuffer.enabled = false ∧
        MapsBuffer env.drm (gdev.scanouts i) := by
  rw [flushScanouts, if_neg (by rw [hbound]; simp)]
  simp only [MapsBuffer, flushTarget, flushFrameBuffer]
  split
  · next henabled =>
    rw [virtioGpuCopyAndFlush_eq env.mem hiov hhost henabled]
    refine .inl ⟨_, rfl, ?_, ?_, Iff.rfl, _, rfl, rfl⟩
    · rw [setScanout_self]
      exact henabled
    · rw [setScanout_self]
  · next henabled =>
    obtain ⟨dumbs, error, hcreate, hfailed⟩ | ⟨scanout, dumbs, hcreate, hcalls, henabled', hfb⟩ :=
      virtioGpuCreateDrmFramebuffer_cases env.drm (gdev.scanouts i) gdev.dumbs
    · rw [hcreate]
      refine .inr ⟨_, _, rfl, gdev.setScanout_scanouts_self i, Bool.eq_false_iff.mpr henabled, ?_⟩
      intro hdumb hmap hadd
      exact absurd ⟨hdumb, hmap, hadd⟩ hfailed
    -- the fresh mapping is enabled, so the copy goes into it
    rw [hcreate]
    dsimp only
    rw [if_neg (by simp), virtioGpuCopyAndFlush_eq env.mem hiov hhost henabled', hfb]
    refine .inl ⟨_, rfl, ?_, ?_, ?_, _, rfl, hfb⟩
    · rw [setScanout_self]
      exact henabled'
    · rw [setScanout_self]
    · exact ⟨fun h => h hcalls.1 hcalls.2.1 hcalls.2.2, fun h _ _ _ => h⟩

theorem runSimpleProcessCmd_eq_some {env : GpuEnv} {gdev : GPUDev} {gcmd : GPUCommand}
    {result : GPUDev × Option GpuResponse} :
    runSimpleProcessCmd env gdev gcmd = some result ↔
      commandFaults env gdev gcmd = false ∧ virtioGpuSimpleProcessCmd env gdev gcmd = result := by
  rw [runSimpleProcessCmd, ite_none_left_eq_some, some.injEq, Bool.not_eq_true]

section

variable (hcmd : commandOf env.mem gcmd = some (some cmd)) (hne : cmd ≠ .getDisplayInfo)

include hcmd hne

theorem virtioGpuSimpleProcessCmd_eq :
    virtioGpuSimpleProcessCmd env gdev gcmd = respondNodata (cmd.handle env gdev gcmd) := by
  unfold virtioGpuSimpleProcessCmd
  rw [hcmd]
  cases cmd <;> first | rfl | exact absurd rfl hne

end

end Handlers

/-- Host memory that holds a request at `0x1000` and nothing else. -/
def requestMem (bytes : List UInt8) : HostMem := fun a => bytes.getD (a - 0x1000).toNat 0

/-- System calls that all fail, memory `bytes` and no guest memory. -/
def sampleGpuEnv (bytes : List UInt8) : GpuEnv where
  mem := requestMem bytes
  zoneMem := ⟨fun _ _ => ⟨0, 0, 0⟩, ⟨0, 0, 0⟩, fun addr => decide (0x1000 ≤ addr)⟩
  zoneId := ⟨1, one_lt_maxZones⟩
  drm := ⟨none, false, none, none⟩
  reallocOk := fun _ => true

end HvisorRux.Tool
