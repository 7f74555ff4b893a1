import HvisorRux.Tool.Gpu.Response
import HvisorRux.Common.Transition

/-!
# Deferred transfers

`TRANSFER_TO_HOST_2D` only records a rectangle in the resource; the copy is made by the next
`RESOURCE_FLUSH` ("Retain transfer information, and perform the actual copy during flush"). The
reference is a device that copies each rectangle into its image of the resource when it is
transferred, and shows the image on a flush. A resource holds one rectangle, so the two devices
agree only as long as every transfer is flushed before the next one.
-/

namespace HvisorRux.Tool

open Common List Option GpuCommandType VirtioGpuTransferToHost2d GPUSimpleResource Nat

/-! ## The two copies -/

/-- The bytes of a backing storage. -/
def backingBytes (mem : HostMem) (iov : List Iovec) : List UInt8 := (iovAddrs iov).map mem

/-- The copy of the reference device: pixel by pixel, 4 bytes each, from row `j` of the rectangle at
`offset + j * stride` of the backing storage, as far as the backing reaches. -/
def eagerCopy (backing : List UInt8) (width : ℕ) (r : VirtioGpuRect) (offset : ℕ)
    (image : ℕ → UInt8) : ℕ → UInt8 := fun p =>
  let stride := 4 * width
  let row := p / stride
  let col := p % stride
  if r.y.toNat ≤ row ∧ row < r.y.toNat + r.height.toNat ∧ 4 * r.x.toNat ≤ col ∧
      col < 4 * (r.x.toNat + r.width.toNat) then
    backing.getD (offset + (row - r.y.toNat) * stride + (col - 4 * r.x.toNat)) (image p)
  else image p

/-- The accounted size is the real one, in 32 bits. -/
def GPUSimpleResource.Packed (res : GPUSimpleResource) : Prop :=
  res.hostmem.toNat = 4 * res.width.toNat * res.height.toNat ∧ res.hostmem.toNat < 2 ^ 32

/-- A rectangle without pixels. -/
def VirtioGpuRect.Empty (r : VirtioGpuRect) (res : GPUSimpleResource) : Prop :=
  r.height = 0 ∨ (r.width = 0 ∧ res.width ≠ 0)
deriving Decidable

/-- A rectangle of whole rows. -/
def VirtioGpuRect.FullWidth (r : VirtioGpuRect) (res : GPUSimpleResource) : Prop :=
  r.x = 0 ∧ r.width = res.width
deriving Decidable

instance (res : GPUSimpleResource) : Decidable res.Packed := inferInstanceAs (Decidable (_ ∧ _))

theorem fbWrite_nil (fb : ℕ → UInt8) (dst : ℕ) : fbWrite fb dst [] = fb := by
  funext p
  rw [fbWrite, if_neg (by simp only [length_nil]; omega)]

/-- Copying the same bytes again changes nothing. -/
theorem fbWrite_fbWrite (fb : ℕ → UInt8) (dst : ℕ) (src : List UInt8) :
    fbWrite (fbWrite fb dst src) dst src = fbWrite fb dst src := by
  funext p
  unfold fbWrite
  split <;> rfl

section Copy

variable {mem : HostMem} {res : GPUSimpleResource} {iov : List Iovec} {fb : ℕ → UInt8}

theorem copyTransferRect_of_empty (h : res.transferRect.Empty res) :
    copyTransferRect mem res iov fb = fb := by
  have hnone : ∀ offset, iovToBuf mem false iov offset 0 = [] := fun offset =>
    eq_nil_of_length_eq_zero (by rw [iovToBuf_length]; omega)
  simp only [copyTransferRect, copies]
  rcases h with hheight | ⟨hwidth, hres⟩
  · rw [hheight]
    split
    · rfl
    · simp only [foldl_cons, foldl_nil, UInt32.mul_zero, UInt32.toNat_zero, hnone, fbWrite_nil]
  -- every row is copied with width 0
  rw [if_pos (.inr (hwidth ▸ Ne.symm hres)), hwidth]
  simp only [foldl_map, UInt32.zero_mul, UInt32.toNat_zero, hnone, fbWrite_nil]
  induction List.range res.transferRect.height.toNat with
  | nil => rfl
  | cons h hs ih => exact ih

variable {r : VirtioGpuRect} {image : ℕ → UInt8} {backing : List UInt8}

theorem eagerCopy_of_empty {offset : ℕ} (h : r.Empty res) :
    eagerCopy backing res.width.toNat r offset image = image := by
  funext p
  rw [eagerCopy, if_neg]
  rcases h with hheight | ⟨hwidth, -⟩
  · rw [hheight, UInt32.toNat_zero]
    omega
  · rw [hwidth, UInt32.toNat_zero]
    omega

/-- A packed resource has rows of 4 bytes per pixel. -/
theorem GPUSimpleResource.Packed.stride_toNat (h : res.Packed) (hhost : res.hostmem ≠ 0) :
    res.stride.toNat = 4 * res.width.toNat := by
  rcases h with ⟨heq, hlt⟩
  have hpos : 0 < res.hostmem.toNat := by
    rw [Nat.pos_iff_ne_zero]
    exact fun h => hhost (UInt64.toNat_inj.mp h)
  have hheight : 0 < res.height.toNat := by
    rw [heq] at hpos
    exact Nat.pos_of_mul_pos_left hpos
  have hdiv : res.hostmem.toNat / res.height.toNat = 4 * res.width.toNat := by
    rw [heq, Nat.mul_div_cancel _ hheight]
  have hle : 4 * res.width.toNat ≤ res.hostmem.toNat := by
    rw [← hdiv]
    exact div_le_self _ _
  rw [stride, UInt64.toNat_toUInt32, UInt64.toNat_div, UInt32.toNat_toUInt64, hdiv,
    mod_eq_of_lt (by omega)]

/-- A recorded rectangle the deferred copy handles exactly: it has no pixels, or it consists of
whole rows of a packed resource and its source offset fits the 32 bits the copy uses. -/
def GPUSimpleResource.Exact (res : GPUSimpleResource) (r : VirtioGpuRect) (offset : UInt64) :
    Prop :=
  r.Empty res ∨ (r.FullWidth res ∧ res.Packed ∧ offset.toNat < 2 ^ 32)
deriving Decidable

/-- The recorded rectangle is inside the resource, as `virtio_gpu_transfer_to_host_2d` checks it. -/
theorem VirtioGpuRect.le_of_outside (h : r.outside res = false) :
    r.y.toNat ≤ res.height.toNat ∧ r.height.toNat ≤ res.height.toNat := by
  simp only [outside, Bool.or_eq_false_iff, decide_eq_false_iff_not, UInt32.not_lt,
    UInt32.le_iff_toNat_le] at h
  omega

/-- Whole rows are copied in one piece, from the low half of the offset. -/
theorem copyTransferRect_of_fullWidth (hhost : res.hostmem ≠ 0) (hpacked : res.Packed)
    (hfull : res.transferRect.FullWidth res) (hinside : res.transferRect.outside res = false) :
    copyTransferRect mem res iov fb = fbWrite fb (res.transferRect.y.toNat * (4 * res.width.toNat))
        (((backingBytes mem iov).drop (res.transferOffset.toNat % 2 ^ 32)).take
          (4 * res.width.toNat * res.transferRect.height.toNat)) := by
  rcases hfull with ⟨hx, hwidth⟩
  obtain ⟨hy, hheight⟩ := VirtioGpuRect.le_of_outside hinside
  have hstride := hpacked.stride_toNat hhost
  rcases hpacked with ⟨heq, hlt⟩
  have hrows : ∀ n ≤ res.height.toNat, 4 * res.width.toNat * n < 2 ^ 32 := fun n hn =>
    (mul_le_mul_left _ hn).trans_lt (heq ▸ hlt)
  have hdst : (res.transferRect.y * res.stride + res.transferRect.x * 32).toNat =
      res.transferRect.y.toNat * (4 * res.width.toNat) := by
    rw [hx, UInt32.zero_mul, UInt32.add_zero, UInt32.toNat_mul, hstride, mul_comm,
      mod_eq_of_lt (hrows _ hy)]
  have hneed : (res.stride * res.transferRect.height).toNat =
      4 * res.width.toNat * res.transferRect.height.toNat := by
    rw [UInt32.toNat_mul, hstride, mod_eq_of_lt (hrows _ hheight)]
  simp only [copyTransferRect, copies]
  rw [if_neg (by simp [hx, hwidth]), foldl_cons, foldl_nil, hdst, hneed, UInt64.toNat_toUInt32,
    iovToBuf_eq, backingBytes, map_take, map_drop]

/-- Writing whole rows in one piece is the pixel-wise copy. -/
theorem fbWrite_eq_eagerCopy {width offset : ℕ}
    (hpos : 0 < width) (hx : r.x = 0) (hwidth : r.width.toNat = width) :
    fbWrite image (r.y.toNat * (4 * width))
        ((backing.drop offset).take (4 * width * r.height.toNat)) =
      eagerCopy backing width r offset image := by
  funext p
  have hdm := div_add_mod p (4 * width)
  have hmod := mod_lt p (show 0 < 4 * width by omega)
  have hcol : 4 * r.x.toNat ≤ p % (4 * width) ∧
      p % (4 * width) < 4 * (r.x.toNat + r.width.toNat) := by
    rw [hx, UInt32.toNat_zero]
    omega
  have hlo : r.y.toNat ≤ p / (4 * width) ↔ r.y.toNat * (4 * width) ≤ p :=
    le_div_iff_mul_le (by omega)
  have hhi : p / (4 * width) < r.y.toNat + r.height.toNat ↔
      p < (r.y.toNat + r.height.toNat) * (4 * width) := div_lt_iff_lt_mul (by omega)
  have hsum : (r.y.toNat + r.height.toNat) * (4 * width) =
      r.y.toNat * (4 * width) + 4 * width * r.height.toNat := by
    rw [add_mul, mul_comm r.height.toNat]
  have hin : (r.y.toNat ≤ p / (4 * width) ∧ p / (4 * width) < r.y.toNat + r.height.toNat ∧
      4 * r.x.toNat ≤ p % (4 * width) ∧ p % (4 * width) < 4 * (r.x.toNat + r.width.toNat)) ↔
      r.y.toNat * (4 * width) ≤ p ∧ p < r.y.toNat * (4 * width) + 4 * width * r.height.toNat := by
    rw [hlo, hhi, hsum]
    exact ⟨fun h => ⟨h.1, h.2.1⟩, fun h => ⟨h.1, h.2, hcol⟩⟩
  have hlen : ((backing.drop offset).take (4 * width * r.height.toNat)).length =
      min (4 * width * r.height.toNat) (backing.length - offset) := by
    rw [length_take, length_drop]
  by_cases hrow : r.y.toNat * (4 * width) ≤ p ∧
      p < r.y.toNat * (4 * width) + 4 * width * r.height.toNat
  · -- inside the rectangle: position `p - y * stride` of the source window
    have hindex : offset + (p / (4 * width) - r.y.toNat) * (4 * width) +
        (p % (4 * width) - 4 * r.x.toNat) = offset + (p - r.y.toNat * (4 * width)) := by
      have hle : r.y.toNat * (4 * width) ≤ 4 * width * (p / (4 * width)) := by
        rw [mul_comm]
        exact mul_le_mul_left _ (hlo.mpr hrow.1)
      rw [Nat.sub_mul, hx, UInt32.toNat_zero, Nat.mul_comm (p / (4 * width))]
      omega
    rw [eagerCopy, if_pos (hin.mpr hrow), hindex]
    by_cases hreach : offset + (p - r.y.toNat * (4 * width)) < backing.length
    · have hwindow : p - r.y.toNat * (4 * width) <
          ((backing.drop offset).take (4 * width * r.height.toNat)).length := by omega
      rw [fbWrite, if_pos ⟨hrow.1, by omega⟩, getD_eq_getElem _ _ hreach,
        getD_eq_getElem _ _ hwindow, getElem_take, getElem_drop]
    · rw [fbWrite, if_neg (by omega), getD_eq_default _ _ (by omega)]
  · rw [eagerCopy, if_neg fun h => hrow (hin.mp h), fbWrite, if_neg (by omega)]

section

variable (hhost : res.hostmem ≠ 0) (hinside : res.transferRect.outside res = false)
  (hexact : res.Exact res.transferRect res.transferOffset)

include hhost hinside hexact

/-- The deferred copy of an exact rectangle is the eager one. -/
theorem copyTransferRect_eq_eagerCopy :
    copyTransferRect mem res iov fb = eagerCopy (backingBytes mem iov) res.width.toNat
      res.transferRect res.transferOffset.toNat fb := by
  rcases hexact with hempty | ⟨hfull, hpacked, hoffset⟩
  · rw [copyTransferRect_of_empty hempty, eagerCopy_of_empty hempty]
  have hpos : 0 < res.width.toNat := by
    rw [Nat.pos_iff_ne_zero]
    intro hzero
    have hsize := hpacked.1
    rw [hzero] at hsize
    exact hhost (UInt64.toNat_inj.mp (by simpa using hsize))
  rw [copyTransferRect_of_fullWidth hhost hpacked hfull hinside, mod_eq_of_lt hoffset]
  exact fbWrite_eq_eagerCopy hpos hfull.1 (congrArg UInt32.toNat hfull.2)

/-- Repeating the deferred copy of an exact rectangle changes nothing. -/
theorem copyTransferRect_idem :
    copyTransferRect mem res iov (copyTransferRect mem res iov fb) =
      copyTransferRect mem res iov fb := by
  rcases hexact with hempty | ⟨hfull, hpacked, -⟩
  · rw [copyTransferRect_of_empty hempty, copyTransferRect_of_empty hempty]
  · rw [copyTransferRect_of_fullWidth hhost hpacked hfull hinside,
      copyTransferRect_of_fullWidth hhost hpacked hfull hinside, fbWrite_fbWrite]

end

/-- The copy reads the backing only. -/
theorem copyTransferRect_congr {mem' : HostMem} (h : ∀ a ∈ iovAddrs iov, mem' a = mem a) :
    copyTransferRect mem' res iov fb = copyTransferRect mem res iov fb := by
  have hbytes : ∀ offset need, iovToBuf mem' false iov offset need =
      iovToBuf mem false iov offset need := by
    intro offset need
    rw [iovToBuf_eq, iovToBuf_eq]
    refine map_congr_left fun a ha => h a ?_
    exact mem_of_mem_drop (mem_of_mem_take ha)
  simp only [copyTransferRect, hbytes]

end Copy

/-! ## Runs of both devices -/

/-- The contents of a fresh dumb buffer. -/
def blank : ℕ → UInt8 := fun _ => 0

/-- The contents of the scanout's frame buffer, blank before it exists. -/
def framebuffer (gdev : GPUDev) (i : Fin maxScanouts) : ℕ → UInt8 :=
  let fb := (gdev.scanouts i).frameBuffer
  if fb.enabled then fb.fbAddr.getD blank else blank

/-- The device and the memory, with the reference device beside it: its image of the resource and
the contents of its frame buffer. `pending` says that a transfer has not been flushed yet, `stale`
that the backing has changed since the last transfer. -/
structure DeferredState where
  gdev : GPUDev
  mem : HostMem
  image : ℕ → UInt8
  shown : ℕ → UInt8
  pending : Bool
  stale : Bool

/-- A guest write to memory, or a command on the resource. -/
inductive DeferredEvent
  | write (mem : HostMem)
  | transfer (env : GpuEnv) (gcmd : GPUCommand)
  | flush (env : GpuEnv) (gcmd : GPUCommand)

namespace DeferredState

/-- Both devices start with the same frame buffer and nothing transferred. -/
def start (gdev : GPUDev) (i : Fin maxScanouts) (mem : HostMem) : DeferredState where
  gdev
  mem
  image := framebuffer gdev i
  shown := framebuffer gdev i
  pending := false
  stale := true

/-- A command runs on the current memory, and a fresh dumb buffer is blank. -/
def env (s : DeferredState) (env : GpuEnv) : GpuEnv :=
  { env with
    mem := s.mem
    drm := { env.drm with mmap := env.drm.mmap.map fun _ => blank } }

/-- The addresses of the resource's backing. -/
def backingAddrs (s : DeferredState) (rid : UInt32) : List UInt64 :=
  iovAddrs (((s.gdev.findResource rid).bind GPUSimpleResource.iov).getD [])

end DeferredState

/-- The resource named by a complete request of the given command. -/
def requestResource (mem : HostMem) (gcmd : GPUCommand) : GpuCommandType → Option UInt32
  | .transferToHost2d => (fillCmd mem gcmd transferToHost2d.size).map fun bytes =>
    (ofBytes bytes).resourceId
  | .resourceFlush => (fillCmd mem gcmd resourceFlush.size).map fun bytes =>
    (VirtioGpuResourceFlush.ofBytes bytes).resourceId
  | _ => none

/-- The request is a command of the given type on resource `rid`. -/
def IsCommandOn (mem : HostMem) (gcmd : GPUCommand) (cmd : GpuCommandType) (rid : UInt32) : Prop :=
  commandOf mem gcmd = some (some cmd) ∧ requestResource mem gcmd cmd = some rid
deriving Decidable

/-- The transfer a request asks for, with its resource, if the device accepts it. -/
def acceptedTransfer (mem : HostMem) (gdev : GPUDev) (gcmd : GPUCommand) :
    Option (VirtioGpuTransferToHost2d × GPUSimpleResource) :=
  (fillCmd mem gcmd transferToHost2d.size).bind fun bytes =>
    let transfer2d := ofBytes bytes
    match virtioGpuCheckResource gdev transfer2d.resourceId with
    | .error _ => none
    | .ok res => if transfer2d.r.outside res then none else some (transfer2d, res)

/-- One step of both devices. While a transfer waits for its flush the guest leaves the backing
alone. The reference device rejects what the device rejects. There is no step that ends the
daemon. -/
def deferredStep (rid : UInt32) (s : DeferredState) : DeferredEvent → Option DeferredState
  | .write mem =>
    let same := (s.backingAddrs rid).all fun a => mem a == s.mem a
    if s.pending && !same then none else some { s with mem, stale := s.stale || !same }
  | .transfer env gcmd =>
    if IsCommandOn s.mem gcmd .transferToHost2d rid then
      (runSimpleProcessCmd (s.env env) s.gdev gcmd).map fun result =>
        let gdev := result.1
        match acceptedTransfer s.mem s.gdev gcmd with
        | none => { s with gdev }
        | some (transfer2d, res) =>
          { s with
            gdev
            image := eagerCopy (backingBytes s.mem (res.iov.getD [])) res.width.toNat
              transfer2d.r transfer2d.offset.toNat s.image
            pending := true
            stale := false }
    else none
  | .flush env gcmd =>
    if IsCommandOn s.mem gcmd .resourceFlush rid then
      (runSimpleProcessCmd (s.env env) s.gdev gcmd).map fun result =>
        let (gdev, response) := result
        if response = some .okNodata then { s with gdev, shown := s.image, pending := false }
        else { s with gdev }
    else none

/-- The side condition: no transfer before the previous one is flushed, only rectangles the deferred
copy handles exactly, and no flush of old pixels after the backing has changed. -/
def FlushedInTime (rid : UInt32) (s : DeferredState) : DeferredEvent → Prop
  | .write _ => True
  | .transfer _ gcmd =>
    match acceptedTransfer s.mem s.gdev gcmd with
    | none => True
    | some (transfer2d, res) =>
      s.pending = false ∧ res.Exact transfer2d.r transfer2d.offset
  | .flush _ _ =>
    s.pending = true ∨ s.stale = false ∨
      match s.gdev.findResource rid with
      | none => True
      | some res => res.transferRect.Empty res

instance (rid : UInt32) (s : DeferredState) (e : DeferredEvent) :
    Decidable (FlushedInTime rid s e) :=
  match e with
  | .write _ => isTrue trivial
  | .transfer _ gcmd => by
    unfold FlushedInTime
    dsimp only
    split <;> infer_instance
  | .flush _ _ => by
    unfold FlushedInTime
    dsimp only
    cases s.gdev.findResource rid <;> infer_instance

/-! ## The invariant -/

/-- The resource stays listed and bound and the frame buffers agree. Without a pending transfer the
image is what is shown; and unless the backing has changed since the last transfer, the copy the
next flush will make turns what is shown into the image. -/
structure DeferredInv (rid : UInt32) (i : Fin maxScanouts) (s : DeferredState)
    (res : GPUSimpleResource) : Prop where
  found : s.gdev.findResource rid = some res
  bound : res.boundTo i
  framebuffer_eq : framebuffer s.gdev i = s.shown
  image_eq : s.pending = false → s.image = s.shown
  copy_eq : s.pending = true ∨ s.stale = false →
    ∃ iov, res.iov = some iov ∧ res.hostmem ≠ 0 ∧ res.transferRect.outside res = false ∧
      res.Exact res.transferRect res.transferOffset ∧
      copyTransferRect s.mem res iov s.shown = s.image

section Steps

variable {rid : UInt32} {i : Fin maxScanouts} {s s' : DeferredState} {res : GPUSimpleResource}
  {mem : HostMem} {gcmd : GPUCommand} {env : GpuEnv}

theorem DeferredInv.start {gdev : GPUDev} (hres : gdev.findResource rid = some res)
    (hbound : res.boundTo i) :
    DeferredInv rid i (DeferredState.start gdev i mem) res where
  found := hres
  bound := hbound
  framebuffer_eq := rfl
  image_eq := fun _ => rfl
  copy_eq := by rintro (h | h) <;> contradiction

theorem DeferredInv.write (h : DeferredInv rid i s res)
    (hs : deferredStep rid s (.write mem) = some s') : DeferredInv rid i s' res := by
  simp only [deferredStep, ite_none_left_eq_some, some.injEq] at hs
  rcases hs with ⟨hguard, rfl⟩
  refine ⟨h.found, h.bound, h.framebuffer_eq, h.image_eq, ?_⟩
  intro hcopy
  by_cases hsame : (s.backingAddrs rid).all fun a => mem a == s.mem a
  · obtain ⟨iov, hiov, hhost, hinside, hexact, heq⟩ := h.copy_eq
      (hcopy.imp_right fun hstale => (Bool.or_eq_false_iff.mp hstale).1)
    refine ⟨iov, hiov, hhost, hinside, hexact, Eq.trans (copyTransferRect_congr ?_) heq⟩
    intro a ha
    have hmem : a ∈ s.backingAddrs rid := by
      rw [DeferredState.backingAddrs, h.found]
      simpa [hiov] using ha
    exact beq_iff_eq.mp (List.all_eq_true.mp hsame a hmem)
  · -- the backing changes only when nothing is pending, and is then marked
    simp only [hsame, Bool.not_false, Bool.and_true] at hguard
    simp [hsame, hguard] at hcopy

/-- A transfer the device accepts is recorded in the resource. -/
theorem virtioGpuSimpleProcessCmd_transfer (env : GpuEnv) (gdev : GPUDev)
    (hcmd : commandOf env.mem gcmd = some (some .transferToHost2d)) :
    (virtioGpuSimpleProcessCmd env gdev gcmd).1 =
      match acceptedTransfer env.mem gdev gcmd with
      | none => gdev
      | some (transfer2d, res) => gdev.modifyResource res.resourceId fun res =>
        { res with transferRect := transfer2d.r, transferOffset := transfer2d.offset } := by
  rw [virtioGpuSimpleProcessCmd_eq env gdev gcmd hcmd (by simp)]
  simp only [handle, virtioGpuTransferToHost2d, acceptedTransfer]
  cases fillCmd env.mem gcmd transferToHost2d.size with
  | none => rfl
  | some bytes =>
    simp only [bind_some]
    cases virtioGpuCheckResource gdev (ofBytes bytes).resourceId with
    | error e => rfl
    | ok res =>
      dsimp only
      split <;> rfl

/-- What acceptance means, for a request on resource `rid`. -/
theorem acceptedTransfer_spec {gdev : GPUDev} {transfer2d : VirtioGpuTransferToHost2d}
    (hcmd : IsCommandOn mem gcmd .transferToHost2d rid)
    (hacc : acceptedTransfer mem gdev gcmd = some (transfer2d, res)) :
    virtioGpuCheckResource gdev rid = .ok res ∧ transfer2d.r.outside res = false := by
  obtain ⟨bytes, hfill, hacc⟩ := bind_eq_some_iff.mp hacc
  have hrid : (ofBytes bytes).resourceId = rid := by
    have hrequest := hcmd.2
    simp only [requestResource, hfill] at hrequest
    exact some.inj hrequest
  dsimp only at hacc
  split at hacc
  · contradiction
  · next res' hcheck =>
    obtain ⟨hinside, heq⟩ := ite_none_left_eq_some.mp hacc
    cases heq
    exact ⟨hrid ▸ hcheck, Bool.eq_false_iff.mpr hinside⟩

theorem DeferredInv.transfer (h : DeferredInv rid i s res)
    (hok : FlushedInTime rid s (.transfer env gcmd))
    (hs : deferredStep rid s (.transfer env gcmd) = some s') :
    ∃ res', DeferredInv rid i s' res' := by
  obtain ⟨hcmd, hs⟩ := ite_none_right_eq_some.mp hs
  obtain ⟨result, hrun, hs⟩ := map_eq_some_iff.mp hs
  obtain ⟨-, rfl⟩ := runSimpleProcessCmd_eq_some.mp hrun
  have hgdev := virtioGpuSimpleProcessCmd_transfer (s.env env) s.gdev hcmd.1
  rw [show (s.env env).mem = s.mem from rfl] at hgdev
  rw [hgdev] at hs
  simp only [FlushedInTime] at hok
  cases hacc : acceptedTransfer s.mem s.gdev gcmd with
  | none =>
    rw [hacc] at hs
    cases hs
    exact ⟨res, { h with }⟩
  | some accepted =>
    rcases accepted with ⟨transfer2d, res₀⟩
    rw [hacc] at hs hok
    cases hs
    obtain ⟨hcheck, hinside⟩ := acceptedTransfer_spec hcmd hacc
    obtain ⟨hfound, hbacked, hhost⟩ := virtioGpuCheckResource_eq_ok.mp hcheck
    obtain rfl : res₀ = res := some.inj (hfound.symm.trans h.found)
    obtain ⟨iov, hiov⟩ := isSome_iff_exists.mp hbacked
    have hfind := findResource_modifyResource s.gdev (f := fun res : GPUSimpleResource =>
      { res with transferRect := transfer2d.r, transferOffset := transfer2d.offset })
      (fun _ => rfl) hfound
    dsimp only
    rw [show res₀.resourceId = rid from KeyedList.key_of_find hfound]
    refine ⟨_, hfind, h.bound, h.framebuffer_eq, (by simp), fun _ => ?_⟩
    refine ⟨iov, hiov, hhost, hinside, hok.2, ?_⟩
    refine Eq.trans (copyTransferRect_eq_eagerCopy ?_ ?_ ?_) ?_
    · exact hhost
    · exact hinside
    · exact hok.2
    · rw [hiov, getD_some, h.image_eq hok.1]

/-- The buffer a flush copies into holds what the frame buffer shows. -/
theorem framebuffer_of_flushTarget {fb : ℕ → UInt8}
    (h : flushTarget (s.env env).drm (s.gdev.scanouts i) = some fb) :
    framebuffer s.gdev i = fb := by
  rw [flushTarget] at h
  rw [framebuffer]
  split at h
  · next henabled => rw [if_pos henabled, h, getD_some]
  · next henabled =>
    rw [if_neg henabled]
    obtain ⟨-, -, hblank⟩ := map_eq_some_iff.mp h
    exact hblank

theorem framebuffer_of_no_flushTarget
    (h : flushTarget (s.env env).drm (s.gdev.scanouts i) = none) :
    framebuffer s.gdev i = blank := by
  rw [flushTarget] at h
  rw [framebuffer]
  split at h
  · next henabled => rw [if_pos henabled, h, getD_none]
  · next henabled => rw [if_neg henabled]

/-- Into a frame buffer that is not mapped, only nothing can be copied. -/
theorem copyTransferRect_of_unmapped {zm : ZoneMem} {buffer : GPUFrameBuffer} {iov : List Iovec}
    (hfaults : copyFaults zm res buffer = false) (hiov : res.iov = some iov)
    (hunmapped : buffer.fbAddr = none) (fb : ℕ → UInt8) : copyTransferRect mem res iov fb = fb := by
  simp only [copyFaults, hiov, getD_some, hunmapped, isNone_none, Bool.true_or, Bool.and_true,
    List.any_eq_false, Bool.not_eq_true, Bool.not_eq_false',
    List.isEmpty_iff] at hfaults
  unfold copyTransferRect
  generalize res.copies = copies at hfaults
  induction copies with
  | nil => rfl
  | cons c cs ih =>
    have hnone : iovToBuf mem false iov c.2.1 c.2.2 = [] := by
      rw [iovToBuf_eq, hfaults c mem_cons_self, map_nil]
    rw [foldl_cons, hnone, fbWrite_nil]
    exact ih fun c hc => hfaults c (mem_cons_of_mem _ hc)

/-- A flush of a bound resource either is rejected and changes neither the resources nor the
scanouts, or copies the recorded rectangle into the frame buffer. -/
theorem virtioGpuSimpleProcessCmd_flush (env : GpuEnv)
    (hcmd : IsCommandOn s.mem gcmd .resourceFlush rid) (hres : s.gdev.findResource rid = some res)
    (hbound : res.boundTo i) (hfaults : commandFaults (s.env env) s.gdev gcmd = false) :
    (∃ gdev' error, virtioGpuSimpleProcessCmd (s.env env) s.gdev gcmd =
        (gdev', some (.err error)) ∧ gdev'.resourceList = s.gdev.resourceList ∧
        gdev'.scanouts = s.gdev.scanouts) ∨
      ∃ gdev' iov, virtioGpuSimpleProcessCmd (s.env env) s.gdev gcmd = (gdev', some .okNodata) ∧
        gdev'.resourceList = s.gdev.resourceList ∧ res.iov = some iov ∧
        framebuffer gdev' i = copyTransferRect s.mem res iov (framebuffer s.gdev i) := by
  rcases hcmd with ⟨hcommand, hrequest⟩
  obtain ⟨bytes, hfill, hrid⟩ := map_eq_some_iff.mp hrequest
  rw [virtioGpuSimpleProcessCmd_eq (s.env env) s.gdev gcmd hcommand (by simp)]
  have hfill' : fillCmd (s.env env).mem gcmd resourceFlush.size = some bytes := hfill
  have hcommand' : commandOf (s.env env).mem gcmd = some (some .resourceFlush) := hcommand
  simp only [commandFaults, hcommand', hfill', Bool.or_eq_false_iff, any_some,
    GpuCommandType.faults, hrid] at hfaults
  simp only [handle, virtioGpuResourceFlush, hfill', hrid]
  cases hcheck : virtioGpuCheckResource s.gdev rid with
  | error e => exact .inl ⟨_, _, rfl, rfl, rfl⟩
  | ok res' =>
    obtain ⟨hres', hbacked, hhost⟩ := virtioGpuCheckResource_eq_ok.mp hcheck
    obtain rfl : res' = res := some.inj (hres'.symm.trans hres)
    obtain ⟨iov, hiov⟩ := isSome_iff_exists.mp hbacked
    dsimp only
    split
    · exact .inl ⟨_, _, rfl, rfl, rfl⟩
    next hinside =>
    rw [show List.finRange maxScanouts = [⟨0, by decide⟩] from rfl, scanout_unique ⟨0, _⟩ i]
    have hkeep := flushScanouts_keep (s.env env) res' [i] s.gdev none
    obtain ⟨gdev', hflush, henabled, hcopied, -, buffer, hbuffer, hmapped⟩ |
      ⟨gdev', error, hflush, hscanouts, -⟩ :=
      flushScanouts_singleton (s.env env) s.gdev hiov hhost hbound
    · rw [hflush] at hkeep ⊢
      refine .inr ⟨gdev', iov, rfl, hkeep.1, hiov, ?_⟩
      rw [framebuffer, if_pos henabled, hcopied]
      cases htarget : flushTarget (s.env env).drm (s.gdev.scanouts i) with
      | some fb =>
        rw [framebuffer_of_flushTarget htarget]
        rfl
      | none =>
        have hcopy : copyFaults (s.env env).zoneMem res' buffer = false := by
          have hscanout := hfaults.2.2
          simp only [hcheck, Bool.eq_false_iff.mpr hinside, Bool.not_false, Bool.true_and,
            List.any_eq_false, Bool.and_eq_true, not_and] at hscanout
          have hany := hscanout i (mem_finRange i) hbound
          rwa [hbuffer, any_some, Bool.not_eq_true] at hany
        rw [copyTransferRect_of_unmapped hcopy hiov (hmapped.trans htarget),
          framebuffer_of_no_flushTarget htarget]
        rfl
    · rw [hflush] at hkeep ⊢
      exact .inl ⟨gdev', error, rfl, hkeep.1, hscanouts⟩

theorem DeferredInv.flush (h : DeferredInv rid i s res)
    (hok : FlushedInTime rid s (.flush env gcmd))
    (hs : deferredStep rid s (.flush env gcmd) = some s') : DeferredInv rid i s' res := by
  obtain ⟨hcmd, hs⟩ := ite_none_right_eq_some.mp hs
  obtain ⟨result, hrun, hs⟩ := map_eq_some_iff.mp hs
  obtain ⟨hfaults, rfl⟩ := runSimpleProcessCmd_eq_some.mp hrun
  obtain ⟨gdev', error, hprocess, hlist, hscanouts⟩ | ⟨gdev', iov, hprocess, hlist, hiov, hfb⟩ :=
    virtioGpuSimpleProcessCmd_flush env hcmd h.found h.bound hfaults
  · rw [hprocess] at hs
    dsimp only at hs
    rw [if_neg (by simp)] at hs
    cases hs
    have hfound : gdev'.findResource rid = some res := by
      rw [GPUDev.findResource, hlist]
      exact h.found
    have hsame : framebuffer gdev' i = framebuffer s.gdev i := by
      rw [framebuffer, hscanouts, framebuffer]
    exact ⟨hfound, h.bound, hsame.trans h.framebuffer_eq, h.image_eq, h.copy_eq⟩
  · rw [hprocess] at hs
    dsimp only at hs
    rw [if_pos rfl] at hs
    cases hs
    have hfound : gdev'.findResource rid = some res := by
      rw [GPUDev.findResource, hlist]
      exact h.found
    rw [h.framebuffer_eq] at hfb
    simp only [FlushedInTime, h.found] at hok
    -- either the copy makes the image, or there is nothing to copy
    have himage : copyTransferRect s.mem res iov s.shown = s.image := by
      rcases or_assoc.mpr hok with hcopy | hempty
      · obtain ⟨iov', hiov', -, -, -, heq⟩ := h.copy_eq hcopy
        obtain rfl := some.inj (hiov'.symm.trans hiov)
        exact heq
      rw [copyTransferRect_of_empty hempty]
      cases hpending : s.pending with
      | false => exact (h.image_eq hpending).symm
      | true =>
        obtain ⟨iov', -, -, -, -, heq⟩ := h.copy_eq (.inl hpending)
        rwa [copyTransferRect_of_empty hempty] at heq
    refine ⟨hfound, h.bound, hfb.trans himage, fun _ => rfl, ?_⟩
    intro hcopy
    obtain ⟨iov', hiov', hhost, hinside, hexact, heq⟩ := h.copy_eq (hcopy.imp_left (by simp))
    refine ⟨iov', hiov', hhost, hinside, hexact, ?_⟩
    rw [← heq, copyTransferRect_idem hhost hinside hexact]

/-- Every step that meets the side condition keeps the invariant. -/
theorem DeferredInv.step (h : ∃ res, DeferredInv rid i s res) {e : DeferredEvent}
    (hok : FlushedInTime rid s e) (hs : deferredStep rid s e = some s') :
    ∃ res, DeferredInv rid i s' res := by
  rcases h with ⟨res, h⟩
  cases e with
  | write mem => exact ⟨res, h.write hs⟩
  | transfer env gcmd => exact h.transfer hok hs
  | flush env gcmd => exact ⟨res, h.flush hok hs⟩

end Steps

/-- **Deferred transfers refine eager ones**: in every run on a bound resource in which each
transfer is flushed before the next one, transfers whole rows, and no flush repeats an old transfer
after the backing has changed, the frame buffer always shows what the reference device shows. -/
theorem deferred_refines_eager (rid : UInt32) (i : Fin maxScanouts) (gdev : GPUDev) (mem : HostMem)
    (res : GPUSimpleResource) (hres : gdev.findResource rid = some res) (hbound : res.boundTo i)
    (s : DeferredState)
    (h : Reach (deferredStep rid) (FlushedInTime rid) (DeferredState.start gdev i mem) s) :
    framebuffer s.gdev i = s.shown := by
  obtain ⟨_, hinv⟩ := h.invariant (fun s => ∃ res, DeferredInv rid i s res)
    ⟨res, DeferredInv.start hres hbound⟩ fun _ _ _ hinv hok hs => DeferredInv.step hinv hok hs
  exact hinv.framebuffer_eq

/-! ## Two transfers and one flush -/

/-- A resource of 16 by 16 pixels bound to the scanout, with backing for its first two rows. -/
def sampleResource : GPUSimpleResource where
  resourceId := 1
  width := 16
  height := 16
  format := 1
  iov := some [⟨0x3000, 128⟩]
  hostmem := 1024
  scanoutBitmask := 1
  transferRect := ⟨0, 0, 0, 0⟩
  transferOffset := 0

/-- The device after `SET_SCANOUT` of the resource. -/
def sampleDev : GPUDev :=
  { initGpuDev (1920, 1080) with
    scanouts := fun _ => ⟨16, 16, 0, 0, 1, scanoutFrameBuffer sampleResource ⟨0, 0, 16, 16⟩⟩
    resourceList := [sampleResource]
    hostmem := 1024 }

/-- `TRANSFER_TO_HOST_2D` of row `y` from `offset` of the backing. -/
def sampleTransferRow (y offset : UInt8) : List UInt8 :=
  [5, 1] ++ List.replicate 22 0 ++ [0, 0, 0, 0, y, 0, 0, 0, 16, 0, 0, 0, 1, 0, 0, 0] ++
    [offset, 0, 0, 0, 0, 0, 0, 0, 1, 0, 0, 0, 0, 0, 0, 0]

/-- `RESOURCE_FLUSH` of the whole resource. -/
def sampleFlushAll : List UInt8 :=
  [4, 1] ++ List.replicate 22 0 ++ [0, 0, 0, 0, 0, 0, 0, 0, 16, 0, 0, 0, 16, 0, 0, 0] ++
    [1, 0, 0, 0, 0, 0, 0, 0]

/-- Memory with a transfer of each of the first two rows, a flush, and a backing full of sevens. -/
def sampleTransferMem : HostMem := fun a =>
  if a < 0x1100 then (sampleTransferRow 0 0).getD (a - 0x1000).toNat 0
  else if a < 0x1200 then (sampleTransferRow 1 64).getD (a - 0x1100).toNat 0
  else if a < 0x3000 then sampleFlushAll.getD (a - 0x1200).toNat 0
  else 7

/-- System calls that succeed. -/
def sampleDrmEnv : GpuEnv :=
  { sampleGpuEnv [] with drm := ⟨some (1, 1024), true, some 1, some blank⟩ }

/-- The request of `len` bytes at `addr`. -/
def sampleRequest (addr len : UInt64) : GPUCommand := ⟨[⟨addr, len⟩], 0, .control⟩

/-- The flush shows the second row only. -/
theorem first_transfer_never_shown :
    ¬ ∀ (rid : UInt32) (i : Fin maxScanouts) (gdev : GPUDev) (mem : HostMem)
      (res : GPUSimpleResource), gdev.findResource rid = some res → res.boundTo i →
      ∀ s, Reach (deferredStep rid) anyStep (DeferredState.start gdev i mem) s →
        framebuffer s.gdev i = s.shown := by
  intro h
  have hrun : ∃ s, run (deferredStep 1) anyStep
      (DeferredState.start sampleDev ⟨0, by decide⟩ sampleTransferMem)
      [.transfer sampleDrmEnv (sampleRequest 0x1000 56),
        .transfer sampleDrmEnv (sampleRequest 0x1100 56),
        .flush sampleDrmEnv (sampleRequest 0x1200 48)] = some s ∧
      framebuffer s.gdev ⟨0, by decide⟩ 0 = 0 ∧ s.shown 0 = 7 :=
    ⟨_, rfl, rfl, rfl⟩
  rcases hrun with ⟨s, hs, hfb, hshown⟩
  have heq := congrFun (h 1 ⟨0, by decide⟩ sampleDev sampleTransferMem sampleResource rfl rfl s
    (reach_of_run hs)) 0
  rw [hfb, hshown] at heq
  exact absurd heq (by decide)

/-- With a flush after each transfer both rows are shown. -/
theorem deferred_refines_eager_sample :
    ∃ s : DeferredState, s.shown 0 = 7 ∧ s.shown 64 = 7 ∧
      framebuffer s.gdev ⟨0, by decide⟩ = s.shown := by
  have hrun : ∃ s, run (deferredStep 1) (FlushedInTime 1)
      (DeferredState.start sampleDev ⟨0, by decide⟩ sampleTransferMem)
      [.transfer sampleDrmEnv (sampleRequest 0x1000 56),
        .flush sampleDrmEnv (sampleRequest 0x1200 48),
        .transfer sampleDrmEnv (sampleRequest 0x1100 56),
        .flush sampleDrmEnv (sampleRequest 0x1200 48)] = some s ∧ s.shown 0 = 7 ∧ s.shown 64 = 7 :=
    ⟨_, rfl, rfl, rfl⟩
  rcases hrun with ⟨s, hs, h₀, h₆₄⟩
  exact ⟨s, h₀, h₆₄, deferred_refines_eager 1 ⟨0, by decide⟩ sampleDev sampleTransferMem
    sampleResource rfl rfl s (reach_of_run hs)⟩

end HvisorRux.Tool
