import HvisorRux.Tool.Virtqueue
import HvisorRux.Tool.Gpu.Mapping
import HvisorRux.Common.KeyedList

/-!
# The virtio-gpu device

Data of the device model (`virtio_gpu.h`): resources, scanouts with their frame buffers, the device,
and the commands and responses exchanged with the driver.
-/

namespace HvisorRux.Tool

open Common

/-! ## Commands and responses -/

/-- The command types `virtio_gpu_simple_process_cmd` dispatches on. -/
inductive GpuCommandType
  | getDisplayInfo
  | resourceCreate2d
  | resourceUnref
  | setScanout
  | resourceFlush
  | transferToHost2d
  | resourceAttachBacking
  | resourceDetachBacking
  | getEdid
  deriving DecidableEq, Repr

/-- The dispatch on `control_header.type` (`enum virtio_gpu_ctrl_type`); `none` for the default
branch. -/
def GpuCommandType.ofCode (code : UInt32) : Option GpuCommandType :=
  if code = 0x100 then some .getDisplayInfo
  else if code = 0x101 then some .resourceCreate2d
  else if code = 0x102 then some .resourceUnref
  else if code = 0x103 then some .setScanout
  else if code = 0x104 then some .resourceFlush
  else if code = 0x105 then some .transferToHost2d
  else if code = 0x106 then some .resourceAttachBacking
  else if code = 0x107 then some .resourceDetachBacking
  else if code = 0x10a then some .getEdid
  else none

/-- The error responses the device uses. -/
inductive GpuError
  | unspec
  | invalidScanoutId
  | invalidResourceId
  | invalidParameter
  deriving DecidableEq, Repr

/-- The numbers of the error responses. -/
def GpuError.code : GpuError → UInt32
  | .unspec => 0x1200
  | .invalidScanoutId => 0x1202
  | .invalidResourceId => 0x1203
  | .invalidParameter => 0x1205

/-- One `pmodes` entry of the display information. -/
structure DisplayMode where
  enabled : Bool
  width : UInt32
  height : UInt32
  deriving DecidableEq, Repr

/-- The responses the device builds. -/
inductive GpuResponse
  | okNodata
  | okDisplayInfo (pmodes : List DisplayMode)
  | err (error : GpuError)
  deriving DecidableEq, Repr

/-- The `type` field of the response header. -/
def GpuResponse.code : GpuResponse → UInt32
  | .okNodata => 0x1100
  | .okDisplayInfo _ => 0x1101
  | .err error => error.code

/-- `struct virtio_gpu_rect`. -/
structure VirtioGpuRect where
  x : UInt32
  y : UInt32
  width : UInt32
  height : UInt32
  deriving DecidableEq, Repr

/-- The queue a request came from: `GPU_CONTROL_QUEUE` or `GPU_CURSOR_QUEUE`. -/
inductive GpuQueue
  | control
  | cursor
  deriving DecidableEq, Repr

/-- `GPUCommand` as `virtio_gpu_handle_single_request` fills it in. -/
structure GPUCommand where
  respIov : List Iovec
  respIdx : UInt16
  fromQueue : GpuQueue
  deriving DecidableEq, Repr

/-! ## The device -/

/-- `HVISOR_VIRTIO_GPU_MAX_SCANOUTS`. -/
def maxScanouts : ℕ := 1

/-- `VIRTIO_GPU_MAX_SCANOUTS`: the length of `pmodes` in a display information response. -/
def virtioGpuMaxScanouts : ℕ := 16

/-- `VIRTIO_GPU_MAX_HOSTMEM`. -/
def virtioGpuMaxHostmem : UInt64 := 536870912

/-- `GPUSimpleResource`; `iov = none` is the null pointer. -/
structure GPUSimpleResource where
  resourceId : UInt32
  width : UInt32
  height : UInt32
  format : UInt32
  iov : Option (List Iovec)
  hostmem : UInt64
  scanoutBitmask : UInt32
  transferRect : VirtioGpuRect
  transferOffset : UInt64
  deriving DecidableEq, Repr

/-- `GPUFrameBuffer`. `fbAddr` is the mapped buffer with its contents; `none` is the null pointer of
a buffer that is not enabled, and `MAP_FAILED` of one that is. -/
structure GPUFrameBuffer where
  fbId : UInt32
  format : UInt32
  bytesPp : UInt32
  width : UInt32
  height : UInt32
  stride : UInt32
  offset : UInt32
  drmDumbSize : UInt32
  drmDumbHandle : UInt32
  fbAddr : Option (ℕ → UInt8)
  enabled : Bool

/-- The zeroed frame buffer. -/
def GPUFrameBuffer.zero : GPUFrameBuffer := ⟨0, 0, 0, 0, 0, 0, 0, 0, 0, none, false⟩

/-- `GPUScanout`. -/
structure GPUScanout where
  width : UInt32
  height : UInt32
  x : UInt32
  y : UInt32
  resourceId : UInt32
  frameBuffer : GPUFrameBuffer

/-- `GPUDev`, with the handles of the dumb buffers that exist on the card. `scanouts_num` never
exceeds the length of `scanouts`: only `init_gpu_dev` sets it. -/
structure GPUDev where
  scanouts : Fin maxScanouts → GPUScanout
  requestedStates : Fin maxScanouts → UInt32 × UInt32
  resourceList : List GPUSimpleResource
  scanoutsNum : UInt32
  hostmem : UInt64
  enabledScanoutBitmask : UInt32
  dumbs : List UInt32
  scanoutsNum_le : scanoutsNum.toNat ≤ maxScanouts

/-- `init_gpu_dev` for the requested width and height. -/
def initGpuDev (requestedState : UInt32 × UInt32) : GPUDev where
  scanouts := fun _ => ⟨1920, 1080, 0, 0, 0, .zero⟩
  requestedStates := fun _ => requestedState
  resourceList := []
  scanoutsNum := 1
  hostmem := 0
  enabledScanoutBitmask := 1
  dumbs := []
  scanoutsNum_le := le_rfl

namespace GPUDev

/-- `virtio_gpu_find_resource`. -/
def findResource (gdev : GPUDev) (resourceId : UInt32) : Option GPUSimpleResource :=
  KeyedList.find GPUSimpleResource.resourceId resourceId gdev.resourceList

/-- Write through a pointer that `virtio_gpu_find_resource` returned for `resourceId`. -/
def modifyResource (gdev : GPUDev) (resourceId : UInt32)
    (f : GPUSimpleResource → GPUSimpleResource) : GPUDev :=
  { gdev with
    resourceList := KeyedList.modify GPUSimpleResource.resourceId resourceId f gdev.resourceList }

/-- Replace scanout `i`. -/
def setScanout (gdev : GPUDev) (i : Fin maxScanouts) (scanout : GPUScanout) : GPUDev :=
  { gdev with scanouts := Function.update gdev.scanouts i scanout }

variable (gdev : GPUDev)

@[simp] theorem setScanout_self (i : Fin maxScanouts) (scanout : GPUScanout) :
    (gdev.setScanout i scanout).scanouts i = scanout := by
  simp [setScanout]

theorem setScanout_of_ne {i j : Fin maxScanouts} (h : j ≠ i) (scanout : GPUScanout) :
    (gdev.setScanout i scanout).scanouts j = gdev.scanouts j := by
  simp [setScanout, h]

@[simp] theorem setScanout_resourceList (i : Fin maxScanouts) (scanout : GPUScanout) :
    (gdev.setScanout i scanout).resourceList = gdev.resourceList := rfl

@[simp] theorem modifyResource_scanouts (resourceId : UInt32)
    (f : GPUSimpleResource → GPUSimpleResource) :
    (gdev.modifyResource resourceId f).scanouts = gdev.scanouts := rfl

end GPUDev

/-- The mask of scanout `i`: `1 << i`. -/
def scanoutBit (i : Fin maxScanouts) : UInt32 := 1 <<< UInt32.ofNat i.val

/-- The resource is bound to scanout `i`. -/
def GPUSimpleResource.boundTo (res : GPUSimpleResource) (i : Fin maxScanouts) : Bool :=
  res.scanoutBitmask &&& scanoutBit i != 0

/-- What the kernel answers when a frame buffer is created: the handle and size of the dumb buffer
(`CREATE_DUMB`), whether `MAP_DUMB` succeeds, the identifier from `drmModeAddFB`, and the mapping,
where `none` is `MAP_FAILED`: `mmap` does not return a null pointer. -/
structure DrmEnv where
  createDumb : Option (UInt32 × UInt32)
  mapDumb : Bool
  addFb : Option UInt32
  mmap : Option (ℕ → UInt8)

/-- Everything a command depends on besides the device and the request: the daemon's memory, the
table of guest memory with the device's zone, and the outcomes of system calls. -/
structure GpuEnv where
  mem : HostMem
  zoneMem : ZoneMem
  zoneId : Fin maxZones
  drm : DrmEnv
  reallocOk : ℕ → Bool

end HvisorRux.Tool
