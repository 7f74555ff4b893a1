import HvisorRux.Tool.Memory

/-!
# Copies from and to scatter-gather lists

The four routines of the daemon that copy between a buffer and a list of `struct iovec`
(`virtio_gpu_base.c`, `virtio_gpu.h`): all of them work on the window of the concatenated pieces
that starts at the offset. Two pieces may contain the same byte of memory; what is written there
first cannot be read back.
-/

namespace HvisorRux.Tool

open Common List

/-- `buf_to_iov`, with the same shortcut as `iov_to_buf`. -/
def bufToIov (mem : HostMem) (constantSize : Bool) (iov : List Iovec) (offset : ℕ)
    (buf : List UInt8) : HostMem × ℕ :=
  match iov with
  | [] => bufToIovFull mem iov offset buf
  | first :: _ =>
    if constantSize ∧ offset ≤ first.len.toNat ∧ buf.length ≤ first.len.toNat - offset then
      (mem.store ((List.range buf.length).map fun k =>
        first.base + UInt64.ofNat offset + UInt64.ofNat k) buf, buf.length)
    else
      bufToIovFull mem iov offset buf

/-- The places that a copy of `need` bytes from `offset` on concerns. -/
def window (iov : List Iovec) (offset need : ℕ) : List UInt64 :=
  ((iovAddrs iov).drop offset).take need

section

variable {mem : HostMem} {iov : List Iovec} {offset need : ℕ} {buf : List UInt8}

theorem length_window : (window iov offset need).length = min need (iovSize iov - offset) := by
  rw [window, length_take, length_drop, iovAddrs_length]

theorem iovToBufFull_window : iovToBufFull mem iov offset need = (window iov offset need).map mem :=
  iovToBufFull_eq mem iov offset need

theorem bufToIovFull_window : bufToIovFull mem iov offset buf =
    (mem.store (window iov offset buf.length) buf, (window iov offset buf.length).length) := by
  simp only [bufToIovFull, Scatter.select_eq]
  refine Prod.ext rfl ?_
  split
  · next h =>
    have hsize := iovAddrs_length iov
    rw [iovAddrs] at hsize
    rw [length_window]
    omega
  · rfl

/-- The window of a copy that the first piece contains. -/
theorem window_first {first : Iovec} {rest : List Iovec} (hoffset : offset ≤ first.len.toNat)
    (hneed : need ≤ first.len.toNat - offset) :
    window (first :: rest) offset need =
      (List.range need).map fun k => first.base + UInt64.ofNat offset + UInt64.ofNat k := by
  have hlen : first.addrs.length = first.len.toNat := by simp [Iovec.addrs]
  show ((first.addrs ++ iovAddrs rest).drop offset).take need = _
  rw [drop_append_of_le_length (by omega), take_append_of_le_length (by rw [length_drop]; omega)]
  refine ext_getElem (by simp [Iovec.addrs]; omega) fun k h₁ h₂ => ?_
  simp only [Iovec.addrs, getElem_map, getElem_range, getElem_take, getElem_drop]
  rw [UInt64.ofNat_add, UInt64.add_assoc]

/-- The shortcut does what the general routine does. -/
theorem bufToIov_eq (constantSize : Bool) :
    bufToIov mem constantSize iov offset buf = bufToIovFull mem iov offset buf := by
  unfold bufToIov
  split
  · rfl
  · split
    · next h =>
      obtain ⟨-, hoffset, hneed⟩ := h
      rw [bufToIovFull_window, window_first hoffset hneed, length_map, length_range]
    · rfl

/-- **Scatter-gather copies are exact.** `iov_to_buf_full` copies and counts the bytes of the
window, `buf_to_iov_full` writes and counts its places and no others, and both shortcuts agree with
them. What was written can be read back if the window contains no place twice. -/
theorem scatter_gather_exact (mem : HostMem) (iov : List Iovec) (offset : ℕ) :
    (∀ need, iovToBufFull mem iov offset need = (((iovAddrs iov).map mem).drop offset).take need ∧
      (iovSize iov ≤ offset → iovToBufFull mem iov offset need = [])) ∧
    (∀ buf, (bufToIovFull mem iov offset buf).2 = min buf.length (iovSize iov - offset) ∧
      (∀ a ∉ window iov offset buf.length, (bufToIovFull mem iov offset buf).1 a = mem a) ∧
      (∀ a ∈ window iov offset buf.length, ∃ j : ℕ, (window iov offset buf.length)[j]? = some a ∧
        buf[j]? = some ((bufToIovFull mem iov offset buf).1 a)) ∧
      ((window iov offset buf.length).Nodup →
        iovToBufFull (bufToIovFull mem iov offset buf).1 iov offset buf.length =
          buf.take (bufToIovFull mem iov offset buf).2)) ∧
    (∀ constantSize need,
      iovToBuf mem constantSize iov offset need = iovToBufFull mem iov offset need) ∧
    ∀ constantSize buf,
      bufToIov mem constantSize iov offset buf = bufToIovFull mem iov offset buf := by
  refine ⟨fun need => ⟨?_, fun hle => ?_⟩, fun buf => ?_, fun c need => ?_, fun c buf => ?_⟩
  · rw [iovToBufFull_eq, map_take, map_drop]
  · refine eq_nil_of_length_eq_zero ?_
    rw [iovToBufFull_window, length_map, length_window]
    omega
  · have hlen : (window iov offset buf.length).length ≤ buf.length := by
      rw [length_window]
      omega
    rw [bufToIovFull_window]
    refine ⟨length_window, fun a ha => Scatter.writeAll_of_not_mem ha,
      fun a ha => Scatter.exists_of_mem_writeAll ha hlen, fun hnodup => ?_⟩
    rw [iovToBufFull_window]
    exact Scatter.map_writeAll hnodup hlen
  · rw [iovToBuf_eq, iovToBufFull_eq]
  · exact bufToIov_eq c

/-- Two pieces of two bytes each. -/
theorem scatter_gather_exact_sample :
    iovToBufFull (bufToIovFull (fun _ => 0) [⟨0x20, 2⟩, ⟨0, 0⟩, ⟨0x10, 2⟩] 1 [1, 2, 3, 4]).1
      [⟨0x20, 2⟩, ⟨0, 0⟩, ⟨0x10, 2⟩] 1 4 = [1, 2, 3] := by
  have hback := ((scatter_gather_exact (fun _ => 0) [⟨0x20, 2⟩, ⟨0, 0⟩, ⟨0x10, 2⟩] 1).2.1
    [1, 2, 3, 4]).2.2.2 (by decide)
  have hcount := ((scatter_gather_exact (fun _ => 0) [⟨0x20, 2⟩, ⟨0, 0⟩, ⟨0x10, 2⟩] 1).2.1
    [1, 2, 3, 4]).1
  exact hback

/-- Two pieces that are the same two bytes. -/
theorem overlapping_pieces_not_read_back :
    iovToBufFull (bufToIovFull (fun _ => 0) [⟨0x20, 2⟩, ⟨0x20, 2⟩] 0 [1, 2, 3, 4]).1
      [⟨0x20, 2⟩, ⟨0x20, 2⟩] 0 4 = [3, 4, 3, 4] := by
  decide

end

end HvisorRux.Tool
