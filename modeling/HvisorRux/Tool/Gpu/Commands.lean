import HvisorRux.Tool.Gpu.Defs

/-!
# The virtio-gpu commands

The nine command handlers and their dispatch (`virtio_gpu.c`). A handler maps the device to the
device and the value it leaves in `gcmd->error`; `none` is the initial `0`, which the dispatch
answers with `VIRTIO_GPU_RESP_OK_NODATA`.
-/

namespace HvisorRux.Tool

open Common GpuCommandType

/-! ## Command structures -/

/-- `VIRTIO_GPU_FILL_CMD`: the structure of `size` bytes at the start of the request, or `none` for
the early return when the request is shorter. -/
def fillCmd (mem : HostMem) (gcmd : GPUCommand) (size : ℕ) : Option (List UInt8) :=
  let bytes := iovToBuf mem true gcmd.respIov 0 size
  if bytes.length ≠ size then none else some bytes

/-- The structure is filled in iff the request is long enough. -/
theorem fillCmd_eq (mem : HostMem) (gcmd : GPUCommand) (size : ℕ) :
    fillCmd mem gcmd size =
      if size ≤ iovSize gcmd.respIov then some (iovToBuf mem true gcmd.respIov 0 size)
      else none := by
  have hlen := iovToBuf_length mem true gcmd.respIov 0 size
  rw [fillCmd]
  by_cases h : size ≤ iovSize gcmd.respIov
  · rw [if_pos h, if_neg (by omega)]
  · rw [if_neg h, if_pos (by omega)]

/-- A 32-bit field of a copied structure. -/
def fieldU32 (bytes : List UInt8) (offset : ℕ) : UInt32 := UInt32.ofNat (fieldNat bytes offset 4)

/-- A `struct virtio_gpu_rect` at `offset`. -/
def fieldRect (bytes : List UInt8) (offset : ℕ) : VirtioGpuRect where
  x := fieldU32 bytes offset
  y := fieldU32 bytes (offset + 4)
  width := fieldU32 bytes (offset + 8)
  height := fieldU32 bytes (offset + 12)

/-- The size of the structure a command's handler reads. -/
def GpuCommandType.size : GpuCommandType → ℕ
  | .getDisplayInfo | .getEdid => 24
  | .resourceCreate2d => 40
  | .resourceUnref | .resourceAttachBacking | .resourceDetachBacking => 32
  | .setScanout | .resourceFlush => 48
  | .transferToHost2d => 56

/-- `struct virtio_gpu_resource_create_2d` without its header. -/
structure VirtioGpuResourceCreate2d where
  resourceId : UInt32
  format : UInt32
  width : UInt32
  height : UInt32
  deriving DecidableEq, Repr

def VirtioGpuResourceCreate2d.ofBytes (bytes : List UInt8) : VirtioGpuResourceCreate2d where
  resourceId := fieldU32 bytes 24
  format := fieldU32 bytes 28
  width := fieldU32 bytes 32
  height := fieldU32 bytes 36

/-- `struct virtio_gpu_set_scanout` without its header. -/
structure VirtioGpuSetScanout where
  r : VirtioGpuRect
  scanoutId : UInt32
  resourceId : UInt32
  deriving DecidableEq, Repr

def VirtioGpuSetScanout.ofBytes (bytes : List UInt8) : VirtioGpuSetScanout where
  r := fieldRect bytes 24
  scanoutId := fieldU32 bytes 40
  resourceId := fieldU32 bytes 44

/-- `struct virtio_gpu_resource_flush` without its header. -/
structure VirtioGpuResourceFlush where
  r : VirtioGpuRect
  resourceId : UInt32
  deriving DecidableEq, Repr

def VirtioGpuResourceFlush.ofBytes (bytes : List UInt8) : VirtioGpuResourceFlush where
  r := fieldRect bytes 24
  resourceId := fieldU32 bytes 40

/-- `struct virtio_gpu_transfer_to_host_2d` without its header. -/
structure VirtioGpuTransferToHost2d where
  r : VirtioGpuRect
  offset : UInt64
  resourceId : UInt32
  deriving DecidableEq, Repr

def VirtioGpuTransferToHost2d.ofBytes (bytes : List UInt8) : VirtioGpuTransferToHost2d where
  r := fieldRect bytes 24
  offset := UInt64.ofNat (fieldNat bytes 40 8)
  resourceId := fieldU32 bytes 48

/-- `struct virtio_gpu_resource_attach_backing` without its header. -/
structure VirtioGpuResourceAttachBacking where
  resourceId : UInt32
  nrEntries : UInt32
  deriving DecidableEq, Repr

def VirtioGpuResourceAttachBacking.ofBytes (bytes : List UInt8) :
    VirtioGpuResourceAttachBacking where
  resourceId := fieldU32 bytes 24
  nrEntries := fieldU32 bytes 28

/-! ## Display information -/

/-- `virtio_gpu_get_display_info`: the `pmodes` of the response. -/
def virtioGpuGetDisplayInfo (gdev : GPUDev) : List DisplayMode :=
  (List.range virtioGpuMaxScanouts).map fun i =>
    if h : i < maxScanouts then
      if gdev.enabledScanoutBitmask &&& scanoutBit ⟨i, h⟩ ≠ 0 then
        ⟨true, (gdev.requestedStates ⟨i, h⟩).1, (gdev.requestedStates ⟨i, h⟩).2⟩
      else ⟨false, 0, 0⟩
    else ⟨false, 0, 0⟩

/-- `virtio_gpu_get_edid`, which is not implemented. -/
def virtioGpuGetEdid (gdev : GPUDev) : GPUDev × Option GpuError := (gdev, none)

/-! ## Resources -/

/-- `calc_image_hostmem`, in 32-bit arithmetic. -/
def calcImageHostmem (bitsPerPixel width height : UInt32) : UInt32 :=
  let stride := ((width * bitsPerPixel + 0x1f) >>> 5) * 4
  height * stride

/-- The resource `virtio_gpu_resource_create_2d` allocates. -/
def newResource (create2d : VirtioGpuResourceCreate2d) : GPUSimpleResource where
  resourceId := create2d.resourceId
  width := create2d.width
  height := create2d.height
  format := create2d.format
  iov := none
  hostmem := (calcImageHostmem 32 create2d.width create2d.height).toUInt64
  scanoutBitmask := 0
  transferRect := ⟨0, 0, 0, 0⟩
  transferOffset := 0

/-- The new resource enters the list and the memory counter. -/
def GPUDev.addResource (gdev : GPUDev) (res : GPUSimpleResource) : GPUDev :=
  { gdev with
    resourceList := res :: gdev.resourceList
    hostmem := gdev.hostmem + res.hostmem }

/-- `virtio_gpu_resource_create_2d`. -/
def virtioGpuResourceCreate2d (env : GpuEnv) (gdev : GPUDev) (gcmd : GPUCommand) :
    GPUDev × Option GpuError :=
  match fillCmd env.mem gcmd resourceCreate2d.size with
  | none => (gdev, none)
  | some bytes =>
    let create2d := VirtioGpuResourceCreate2d.ofBytes bytes
    if create2d.resourceId = 0 then (gdev, some .invalidResourceId)
    else if (gdev.findResource create2d.resourceId).isSome then (gdev, some .invalidResourceId)
    else
      let res := newResource create2d
      if res.hostmem + gdev.hostmem ≥ virtioGpuMaxHostmem then
        -- out of host memory: the error is logged, `gcmd->error` stays unset
        (gdev, none)
      else (gdev.addResource res, none)

/-- `virtio_gpu_check_resource`. -/
def virtioGpuCheckResource (gdev : GPUDev) (resourceId : UInt32) :
    Except GpuError GPUSimpleResource :=
  match gdev.findResource resourceId with
  | none => .error .invalidResourceId
  | some res => if res.iov.isNone ∨ res.hostmem = 0 then .error .unspec else .ok res

/-- Clear the bit of scanout `i`: `res->scanout_bitmask &= ~(1 << i)`. -/
def GPUSimpleResource.unbind (i : Fin maxScanouts) (res : GPUSimpleResource) : GPUSimpleResource :=
  { res with scanoutBitmask := res.scanoutBitmask &&& ~~~ scanoutBit i }

/-- Set the bit of scanout `i`: `res->scanout_bitmask |= (1 << i)`. -/
def GPUSimpleResource.bind (i : Fin maxScanouts) (res : GPUSimpleResource) : GPUSimpleResource :=
  { res with scanoutBitmask := res.scanoutBitmask ||| scanoutBit i }

/-- `virtio_gpu_disable_scanout`. -/
def virtioGpuDisableScanout (gdev : GPUDev) (i : Fin maxScanouts) : GPUDev :=
  let scanout := gdev.scanouts i
  if scanout.resourceId = 0 then gdev
  else
    (gdev.modifyResource scanout.resourceId (GPUSimpleResource.unbind i)).setScanout i
      { scanout with resourceId := 0, width := 0, height := 0 }

/-- `virtio_gpu_cleanup_mapping`. -/
def virtioGpuCleanupMapping (gdev : GPUDev) (resourceId : UInt32) : GPUDev :=
  gdev.modifyResource resourceId fun res => { res with iov := none }

/-- One iteration of the loop over the scanouts in `virtio_gpu_resource_destory`, which tests the
mask the resource has by then. -/
def disableIfBound (resourceId : UInt32) (gdev : GPUDev) (i : Fin maxScanouts) : GPUDev :=
  match gdev.findResource resourceId with
  | none => gdev
  | some res => if res.boundTo i then virtioGpuDisableScanout gdev i else gdev

section

variable (gdev : GPUDev) (res : GPUSimpleResource)

/-- The loop over the scanouts in `virtio_gpu_resource_destory`. -/
def disableBoundScanouts : GPUDev :=
  if res.scanoutBitmask ≠ 0 then
    (List.finRange maxScanouts).foldl (disableIfBound res.resourceId) gdev
  else gdev

/-- `TAILQ_REMOVE`, with the memory counter. -/
def GPUDev.removeResource : GPUDev :=
  { gdev with
    resourceList := KeyedList.remove GPUSimpleResource.resourceId res.resourceId gdev.resourceList
    hostmem := gdev.hostmem - res.hostmem }

/-- `virtio_gpu_resource_destory`. -/
def virtioGpuResourceDestory : GPUDev :=
  (virtioGpuCleanupMapping (disableBoundScanouts gdev res) res.resourceId).removeResource res

end

section

variable (env : GpuEnv) (gdev : GPUDev) (gcmd : GPUCommand)

/-- `virtio_gpu_resource_unref`. -/
def virtioGpuResourceUnref : GPUDev × Option GpuError :=
  match fillCmd env.mem gcmd resourceUnref.size with
  | none => (gdev, none)
  | some bytes =>
    match gdev.findResource (fieldU32 bytes 24) with
    | none => (gdev, some .invalidResourceId)
    | some res => (virtioGpuResourceDestory gdev res, none)

/-- `virtio_gpu_resource_attach_backing`. -/
def virtioGpuResourceAttachBacking : GPUDev × Option GpuError :=
  match fillCmd env.mem gcmd resourceAttachBacking.size with
  | none => (gdev, none)
  | some bytes =>
    let attach := VirtioGpuResourceAttachBacking.ofBytes bytes
    match gdev.findResource attach.resourceId with
    | none => (gdev, some .invalidResourceId)
    | some res =>
      if res.iov.isSome then (gdev, some .unspec)
      else
        match virtioGpuCreateMappingIov env.zoneMem env.zoneId env.mem gcmd.respIov
            attach.nrEntries resourceAttachBacking.size env.reallocOk with
        | none => (gdev, some .unspec)
        | some iov => (gdev.modifyResource attach.resourceId fun res => { res with iov }, none)

/-- `virtio_gpu_resource_detach_backing`. -/
def virtioGpuResourceDetachBacking : GPUDev × Option GpuError :=
  match fillCmd env.mem gcmd resourceDetachBacking.size with
  | none => (gdev, none)
  | some bytes =>
    match virtioGpuCheckResource gdev (fieldU32 bytes 24) with
    | .error e => (gdev, some e)
    | .ok res => (virtioGpuCleanupMapping gdev res.resourceId, none)

end

/-! ## Scanouts -/

/-- The rectangle test of `virtio_gpu_do_set_scanout`. The second comparison is with the width, as
in the source. -/
def VirtioGpuRect.illegalScanout (r : VirtioGpuRect) (fb : GPUFrameBuffer) : Bool :=
  r.x > fb.width || r.y > fb.width || r.width < 16 || r.height < 16 || r.width > fb.width ||
    r.height > fb.height || r.x + r.width > fb.width || r.y + r.height > fb.height

/-- `virtio_gpu_update_scanout`. -/
def virtioGpuUpdateScanout (gdev : GPUDev) (i : Fin maxScanouts) (fb : GPUFrameBuffer)
    (res : GPUSimpleResource) (r : VirtioGpuRect) : GPUDev :=
  let scanout := gdev.scanouts i
  let unbound := gdev.modifyResource scanout.resourceId (GPUSimpleResource.unbind i)
  let bound := unbound.modifyResource res.resourceId (GPUSimpleResource.bind i)
  bound.setScanout i
    { resourceId := res.resourceId
      x := r.x
      y := r.y
      width := r.width
      height := r.height
      frameBuffer := fb }

/-- The frame buffer description `virtio_gpu_set_scanout` derives from a resource. -/
def scanoutFrameBuffer (res : GPUSimpleResource) (r : VirtioGpuRect) : GPUFrameBuffer :=
  let stride := (res.hostmem / res.height.toUInt64).toUInt32
  { GPUFrameBuffer.zero with
    format := res.format
    bytesPp := 4
    width := res.width
    height := res.height
    stride
    offset := r.x * 4 + r.y * stride }

/-- A scanout number that passed the test of `virtio_gpu_set_scanout`. -/
def GPUDev.scanoutIndex (gdev : GPUDev) {scanoutId : UInt32} (h : ¬ scanoutId ≥ gdev.scanoutsNum) :
    Fin maxScanouts :=
  ⟨scanoutId.toNat, (UInt32.lt_iff_toNat_lt.mp (UInt32.not_le.mp h)).trans_le gdev.scanoutsNum_le⟩

/-- `virtio_gpu_set_scanout` with `virtio_gpu_do_set_scanout`. -/
def virtioGpuSetScanout (env : GpuEnv) (gdev : GPUDev) (gcmd : GPUCommand) :
    GPUDev × Option GpuError :=
  match fillCmd env.mem gcmd setScanout.size with
  | none => (gdev, none)
  | some bytes =>
    let setScanout := VirtioGpuSetScanout.ofBytes bytes
    if hid : setScanout.scanoutId ≥ gdev.scanoutsNum then (gdev, some .invalidScanoutId)
    else
      match virtioGpuCheckResource gdev setScanout.resourceId with
      | .error e => (gdev, some e)
      | .ok res =>
        let fb := scanoutFrameBuffer res setScanout.r
        if setScanout.r.illegalScanout fb then (gdev, some .invalidParameter)
        else
          (virtioGpuUpdateScanout gdev (gdev.scanoutIndex hid) fb res setScanout.r, none)

/-! ## Transfer and flush -/

/-- The rectangle test of `virtio_gpu_transfer_to_host_2d` and `virtio_gpu_resource_flush`. -/
def VirtioGpuRect.outside (r : VirtioGpuRect) (res : GPUSimpleResource) : Bool :=
  r.x > res.width || r.y > res.height || r.width > res.width || r.height > res.height ||
    r.x + r.width > res.width || r.y + r.height > res.height

/-- `virtio_gpu_transfer_to_host_2d`: the rectangle is only recorded. -/
def virtioGpuTransferToHost2d (env : GpuEnv) (gdev : GPUDev) (gcmd : GPUCommand) :
    GPUDev × Option GpuError :=
  match fillCmd env.mem gcmd transferToHost2d.size with
  | none => (gdev, none)
  | some bytes =>
    let transfer2d := VirtioGpuTransferToHost2d.ofBytes bytes
    match virtioGpuCheckResource gdev transfer2d.resourceId with
    | .error e => (gdev, some e)
    | .ok res =>
      if transfer2d.r.outside res then (gdev, some .invalidParameter)
      else
        (gdev.modifyResource res.resourceId fun res =>
          { res with transferRect := transfer2d.r, transferOffset := transfer2d.offset }, none)

/-- Copy `src` into a frame buffer from position `dst` on. -/
def fbWrite (fb : ℕ → UInt8) (dst : ℕ) (src : List UInt8) : ℕ → UInt8 := fun p =>
  if dst ≤ p ∧ p < dst + src.length then src.getD (p - dst) 0 else fb p

/-- The bytes per row the copy assumes: `res->hostmem / res->height`. -/
def GPUSimpleResource.stride (res : GPUSimpleResource) : UInt32 :=
  (res.hostmem / res.height.toUInt64).toUInt32

/-- The copies of `virtio_gpu_copy_and_flush`: the position in the frame buffer, the offset in the
backing and the number of bytes, in 32 bits. Its `bpp` is 32, also where it counts bytes. -/
def GPUSimpleResource.copies (res : GPUSimpleResource) : List (ℕ × ℕ × ℕ) :=
  let bpp : UInt32 := 32
  let stride := res.stride
  let rect := res.transferRect
  if rect.x ≠ 0 ∨ rect.width ≠ res.width then
    (List.range rect.height.toNat).map fun h =>
      let srcOffset := (res.transferOffset + (stride * UInt32.ofNat h).toUInt64).toUInt32
      let dstOffset := (rect.y + UInt32.ofNat h) * stride + rect.x * bpp
      (dstOffset.toNat, srcOffset.toNat, (rect.width * bpp).toNat)
  else
    let dstOffset := rect.y * stride + rect.x * bpp
    [(dstOffset.toNat, res.transferOffset.toUInt32.toNat, (stride * rect.height).toNat)]

/-- The frame buffer after these copies. -/
def copyTransferRect (mem : HostMem) (res : GPUSimpleResource) (iov : List Iovec)
    (fb : ℕ → UInt8) : ℕ → UInt8 :=
  res.copies.foldl (fun fb c => fbWrite fb c.1 (iovToBuf mem false iov c.2.1 c.2.2)) fb

/-- `virtio_gpu_copy_and_flush`. The address of an enabled frame buffer passes the test for a null
pointer. -/
def virtioGpuCopyAndFlush (mem : HostMem) (scanout : GPUScanout) (res : GPUSimpleResource)
    (error : Option GpuError) : GPUScanout × Option GpuError :=
  match res.iov with
  | none => (scanout, some .unspec)
  | some iov =>
    if res.hostmem = 0 then (scanout, some .unspec)
    else if scanout.frameBuffer.enabled then
      ({ scanout with
         frameBuffer :=
           { scanout.frameBuffer with
             fbAddr := scanout.frameBuffer.fbAddr.map (copyTransferRect mem res iov) } },
        error)
    else (scanout, some .unspec)

/-- `virtio_gpu_create_drm_framebuffer` for a scanout whose frame buffer is not enabled: the
scanout, the dumb buffers that exist afterwards, and the error. The failure paths call
`virtio_gpu_remove_drm_framebuffer`, which does nothing before the buffer is enabled. The result of
`mmap` is only compared with the null pointer, so a buffer that could not be mapped is enabled
too. -/
def virtioGpuCreateDrmFramebuffer (drm : DrmEnv) (scanout : GPUScanout) (dumbs : List UInt32)
    (error : Option GpuError) : GPUScanout × List UInt32 × Option GpuError :=
  match drm.createDumb with
  | none => (scanout, dumbs, some .unspec)
  | some (handle, size) =>
    let dumbs := handle :: dumbs
    if drm.mapDumb = false then (scanout, dumbs, some .unspec)
    else
      match drm.addFb with
      | some fbId =>
        ({ scanout with
           frameBuffer :=
             { scanout.frameBuffer with
               fbId
               drmDumbHandle := handle
               drmDumbSize := size
               fbAddr := drm.mmap
               enabled := true } },
          dumbs, error)
      | none => (scanout, dumbs, some .unspec)

/-- The loop of `virtio_gpu_resource_flush` over the scanouts. -/
def flushScanouts (env : GpuEnv) (res : GPUSimpleResource) :
    List (Fin maxScanouts) → GPUDev → Option GpuError → GPUDev × Option GpuError
  | [], gdev, error => (gdev, error)
  | i :: is, gdev, error =>
    if res.boundTo i = false then flushScanouts env res is gdev error
    else if (gdev.scanouts i).frameBuffer.enabled then
      let (scanout, error) := virtioGpuCopyAndFlush env.mem (gdev.scanouts i) res error
      flushScanouts env res is (gdev.setScanout i scanout) error
    else
      let (scanout, dumbs, error) :=
        virtioGpuCreateDrmFramebuffer env.drm (gdev.scanouts i) gdev.dumbs error
      let gdev := { gdev.setScanout i scanout with dumbs }
      if error.isSome then (gdev, error)
      else
        let (scanout, error) := virtioGpuCopyAndFlush env.mem scanout res error
        flushScanouts env res is (gdev.setScanout i scanout) error

/-- `virtio_gpu_resource_flush`. -/
def virtioGpuResourceFlush (env : GpuEnv) (gdev : GPUDev) (gcmd : GPUCommand) :
    GPUDev × Option GpuError :=
  match fillCmd env.mem gcmd resourceFlush.size with
  | none => (gdev, none)
  | some bytes =>
    let resourceFlush := VirtioGpuResourceFlush.ofBytes bytes
    match virtioGpuCheckResource gdev resourceFlush.resourceId with
    | .error e => (gdev, some e)
    | .ok res =>
      if resourceFlush.r.outside res then (gdev, some .invalidParameter)
      else flushScanouts env res (List.finRange maxScanouts) gdev none

/-! ## Dispatch -/

/-- The response without data that ends a command: `OK_NODATA` unless an error is set. -/
def respondNodata (result : GPUDev × Option GpuError) : GPUDev × Option GpuResponse :=
  (result.1, some (match result.2 with
    | none => .okNodata
    | some error => .err error))

/-- The handler of a command that answers without data. -/
def GpuCommandType.handle (cmd : GpuCommandType) (env : GpuEnv) (gdev : GPUDev)
    (gcmd : GPUCommand) : GPUDev × Option GpuError :=
  match cmd with
  | .getDisplayInfo => (gdev, none)
  | .getEdid => virtioGpuGetEdid gdev
  | .resourceCreate2d => virtioGpuResourceCreate2d env gdev gcmd
  | .resourceUnref => virtioGpuResourceUnref env gdev gcmd
  | .resourceFlush => virtioGpuResourceFlush env gdev gcmd
  | .transferToHost2d => virtioGpuTransferToHost2d env gdev gcmd
  | .setScanout => virtioGpuSetScanout env gdev gcmd
  | .resourceAttachBacking => virtioGpuResourceAttachBacking env gdev gcmd
  | .resourceDetachBacking => virtioGpuResourceDetachBacking env gdev gcmd

/-- The command of a request: `none` when the request is shorter than a header, `some none` for an
unknown type. -/
def commandOf (mem : HostMem) (gcmd : GPUCommand) : Option (Option GpuCommandType) :=
  (fillCmd mem gcmd 24).map fun header => ofCode (fieldU32 header 0)

/-- `virtio_gpu_simple_process_cmd`: the device afterwards and the response, if one is sent. -/
def virtioGpuSimpleProcessCmd (env : GpuEnv) (gdev : GPUDev) (gcmd : GPUCommand) :
    GPUDev × Option GpuResponse :=
  match commandOf env.mem gcmd with
  | none => (gdev, none)
  | some none => respondNodata (gdev, some .unspec)
  | some (some .getDisplayInfo) => (gdev, some (.okDisplayInfo (virtioGpuGetDisplayInfo gdev)))
  | some (some cmd) => respondNodata (cmd.handle env gdev gcmd)

/-! ## Memory that is not mapped -/

section

variable (env : GpuEnv) (gdev : GPUDev)

/-- The frame buffer that a flush of a bound resource copies into, if it gets that far. -/
def flushFrameBuffer (i : Fin maxScanouts) : Option GPUFrameBuffer :=
  if (gdev.scanouts i).frameBuffer.enabled then some (gdev.scanouts i).frameBuffer
  else
    match virtioGpuCreateDrmFramebuffer env.drm (gdev.scanouts i) gdev.dumbs none with
    | (scanout, _, none) => some scanout.frameBuffer
    | (_, _, some _) => none

/-- A copy of `virtio_gpu_copy_and_flush` moves bytes from memory that is not mapped, or to a place
outside the mapping of the frame buffer. -/
def copyFaults (zm : ZoneMem) (res : GPUSimpleResource) (fb : GPUFrameBuffer) : Bool :=
  res.copies.any fun c =>
    let addrs := ((iovAddrs (res.iov.getD [])).drop c.2.1).take c.2.2
    !addrs.isEmpty && (fb.fbAddr.isNone || decide (fb.drmDumbSize.toNat < c.1 + addrs.length) ||
      !addrs.all zm.mapped)

/-- A handler touches memory that is not mapped, besides the structure `bytes` of the command. -/
def GpuCommandType.faults (gcmd : GPUCommand) (bytes : List UInt8) : GpuCommandType → Bool
  | .resourceAttachBacking =>
    let attach := VirtioGpuResourceAttachBacking.ofBytes bytes
    (gdev.findResource attach.resourceId).any (·.iov.isNone) && decide (attach.nrEntries ≤ 16384) &&
      !(((iovAddrs gcmd.respIov).drop 32).take (16 * attach.nrEntries.toNat)).all env.zoneMem.mapped
  | .resourceFlush =>
    let flush := VirtioGpuResourceFlush.ofBytes bytes
    match virtioGpuCheckResource gdev flush.resourceId with
    | .error _ => false
    | .ok res =>
      !flush.r.outside res && (List.finRange maxScanouts).any fun i =>
        res.boundTo i && (flushFrameBuffer env gdev i).any (copyFaults env.zoneMem res)
  | _ => false

/-- `virtio_gpu_simple_process_cmd` touches memory that is not mapped before it answers, which ends
the daemon. -/
def commandFaults (gcmd : GPUCommand) : Bool :=
  !((iovAddrs gcmd.respIov).take 24).all env.zoneMem.mapped ||
    match commandOf env.mem gcmd with
    | some (some cmd) =>
      !((iovAddrs gcmd.respIov).take cmd.size).all env.zoneMem.mapped ||
        (fillCmd env.mem gcmd cmd.size).any fun bytes => cmd.faults env gdev gcmd bytes
    | _ => false

/-- `virtio_gpu_simple_process_cmd` in a daemon that may end: then there is no result. -/
def runSimpleProcessCmd (gcmd : GPUCommand) : Option (GPUDev × Option GpuResponse) :=
  if commandFaults env gdev gcmd then none else some (virtioGpuSimpleProcessCmd env gdev gcmd)

end

end HvisorRux.Tool
