import HvisorRux.Tool.Gpu.Bounds

/-!
# The copy into the frame buffer

`virtio_gpu_copy_and_flush` copies whole rows exactly. A rectangle that is narrower than the
resource is copied row by row, and there `bpp`, which is 32, is used as a number of bytes: each row
starts at eight times its column and is eight times as long, so the copy overwrites pixels to its
right and leaves the buffer in the last rows. Such a rectangle comes out right only when the backing
ends before it, or in its first row.
-/

namespace HvisorRux.Tool

open Common Nat

section Position

variable {width column row c : ℕ} (hcolumn : column < width) (hc : c < 4)
include hcolumn hc

end Position

section Copy

variable {res : GPUSimpleResource} {r : VirtioGpuRect} {backing : List UInt8} {offset : ℕ}
  {fb : ℕ → UInt8}

end Copy

/-! ## Rows of a narrow rectangle -/

section Rows

variable {backing : List UInt8} {dst src : ℕ → ℕ} {need h : ℕ} {fb : ℕ → UInt8}

end Rows

/-! ## When the rectangle is copied -/

namespace GPUSimpleResource

variable (res : GPUSimpleResource)

/-- Where the copy reads row `j` of the recorded rectangle: the offset is cut to 32 bits. -/
def source (j : ℕ) : ℕ := (res.transferOffset.toNat + 4 * res.width.toNat * j) % 2 ^ 32

end GPUSimpleResource

section Exactness

variable {res : GPUSimpleResource} {n : ℕ}

variable (hhost : res.hostmem ≠ 0) (hpacked : res.Packed)
  (hlimit : res.hostmem < virtioGpuMaxHostmem) (hwithin : res.transferRect.Within res)

section

include hhost hpacked hwithin

include hlimit

end

end Exactness

end HvisorRux.Tool
