import HvisorRux.Rux.Mmap.Meaning
import HvisorRux.Rux.Mmap.Pages

/-!
# Calls that change a range as a whole

`sys_munmap` and `sys_mprotect` add up the bytes that the areas have in the range, and change
nothing if the sum is not its length. Since the areas are disjoint, the sum is the length just if
they cover the range. A range of length zero is covered by any areas, but is refused. `sys_munmap`
then writes the pages of the range back to their files, and panics if one of these was not opened
for writing.
-/

namespace HvisorRux.Rux

open Common Option

section

variable {m m' : VmaMap} {start end_ len addr : ℕ}

variable (h : Laid Vma.startAddr Vma.endAddr m)

include h

end

/-! ## The pages of the range -/

namespace MmapState

variable {s : MmapState} {p : ℕ × Option PageInfo} {pages : List (ℕ × Option PageInfo)}

end MmapState

/-! ## The calls -/

section

variable {o : Overflow} {s : MmapState} {alloc : ℕ → Option ByteMem} {start len : UInt64}
  {prot : Option UInt32}

end

end HvisorRux.Rux
