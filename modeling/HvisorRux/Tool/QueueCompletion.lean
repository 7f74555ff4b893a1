import HvisorRux.Common.Ring
import HvisorRux.Tool.Virtqueue

/-!
# Chains between the two rings of a queue

A device whose worker thread answers requests in the order in which a notify handler has consumed
them: `QueueInv` accounts for the chains that have been published, consumed and put on the used
ring, and says what each access to the queue does to them. `VirtQueue.SameRings` and
`VirtQueue.SameUsed` are the frames of the accesses that move no chain.
-/

namespace HvisorRux.Tool

open Common List

/-! ## Chains on their way -/

/-- Of the chains `published` on a queue, those in `put` are on the used ring and those in `pending`
have been consumed, in this order. -/
structure QueueInv (vq : VirtQueue) (published put pending : List UInt16) : Prop where
  size : vq.ValidSize
  consumed : put ++ pending <+: published
  avail : Ring.Holds vq.availRing.ring vq.num.toNat published (put ++ pending).length
  availIdx : vq.availRing.idx = UInt16.ofNat published.length
  lastAvailIdx : vq.lastAvailIdx = UInt16.ofNat (put ++ pending).length
  outstanding : published.length ≤ put.length + vq.num.toNat
  used : Ring.Holds (fun k => (vq.usedRing.ring k).id) vq.num.toNat (put.map UInt16.toUInt32)
    (put.length - vq.num.toNat)
  usedIdx : vq.usedRing.idx = UInt16.ofNat put.length

/-- The two queues agree on everything but the flags and the position of the last interrupt. -/
structure VirtQueue.SameRings (vq' vq : VirtQueue) : Prop where
  num : vq'.num = vq.num
  availRing : vq'.availRing = vq.availRing
  lastAvailIdx : vq'.lastAvailIdx = vq.lastAvailIdx
  usedRing : vq'.usedRing.ring = vq.usedRing.ring
  usedIdx : vq'.usedRing.idx = vq.usedRing.idx

variable (vq : VirtQueue)

theorem VirtQueue.SameRings.refl : vq.SameRings vq := ⟨rfl, rfl, rfl, rfl, rfl⟩

theorem VirtQueue.SameRings.isEmpty {vq' vq : VirtQueue} (h : vq'.SameRings vq) :
    virtqueueIsEmpty vq' = virtqueueIsEmpty vq := by
  rw [virtqueueIsEmpty, virtqueueIsEmpty, h.availRing, h.lastAvailIdx]

theorem virtqueueDisableNotify_sameRings : (virtqueueDisableNotify vq).SameRings vq := by
  unfold virtqueueDisableNotify
  split <;> exact ⟨rfl, rfl, rfl, rfl, rfl⟩

theorem virtqueueEnableNotify_sameRings : (virtqueueEnableNotify vq).SameRings vq := by
  unfold virtqueueEnableNotify
  split <;> exact ⟨rfl, rfl, rfl, rfl, rfl⟩

theorem virtioInjectIrq_sameRings (lastUsedIdx idx : UInt16) :
    (virtioInjectIrq vq lastUsedIdx idx).1.SameRings vq := ⟨rfl, rfl, rfl, rfl, rfl⟩

namespace QueueInv

variable {vq : VirtQueue} {published put pending : List UInt16}

/-- The queue is empty iff everything published has been consumed. -/
theorem isEmpty_iff (h : QueueInv vq published put pending) :
    virtqueueIsEmpty vq = true ↔ (put ++ pending).length = published.length := by
  have hle := h.avail.le_length
  have hout := h.avail.length_le
  have hsize := h.size.le
  rw [virtqueueIsEmpty, beq_iff_eq, h.availIdx, h.lastAvailIdx, ofNat_eq_iff hle (by omega)]

/-- A drained queue: what has been published has been put on the used ring. -/
theorem put_eq (h : QueueInv vq published put []) (hempty : virtqueueIsEmpty vq = true) :
    put = published := by
  have hlen := h.isEmpty_iff.mp hempty
  simpa using h.consumed.eq_of_length hlen

/-- A fresh queue. -/
theorem initial (hsize : vq.ValidSize) (havail : vq.availRing.idx = 0)
    (hlast : vq.lastAvailIdx = 0) (hused : vq.usedRing.idx = 0) : QueueInv vq [] [] [] where
  size := hsize
  consumed := prefix_rfl
  avail := Ring.Holds.nil _ _
  availIdx := havail
  lastAvailIdx := hlast
  outstanding := Nat.zero_le _
  used := by simpa using Ring.Holds.nil _ _
  usedIdx := hused

section

variable (h : QueueInv vq published put pending)

include h

/-- Only the rings and the positions in them matter. -/
theorem congr {vq' : VirtQueue} (hsame : vq'.SameRings vq) :
    QueueInv vq' published put pending where
  size := by rw [VirtQueue.ValidSize, hsame.num]; exact h.size
  consumed := h.consumed
  avail := by rw [hsame.availRing, hsame.num]; exact h.avail
  availIdx := by rw [hsame.availRing]; exact h.availIdx
  lastAvailIdx := by rw [hsame.lastAvailIdx]; exact h.lastAvailIdx
  outstanding := by rw [hsame.num]; exact h.outstanding
  used := by rw [hsame.usedRing, hsame.num]; exact h.used
  usedIdx := by rw [hsame.usedIdx]; exact h.usedIdx

/-- The driver publishes a chain. -/
theorem publish (hfree : published.length < put.length + vq.num.toNat) (head : UInt16) :
    QueueInv (vq.publish head) (published ++ [head]) put pending where
  __ := h
  consumed := h.consumed.trans (prefix_append _ _)
  avail := by
    have hpush := h.avail.push (by rw [length_append]; omega) head
    rwa [← h.size.slot_ofNat, ← h.availIdx] at hpush
  availIdx := by
    show vq.availRing.idx + 1 = _
    rw [h.availIdx, length_append, UInt16.ofNat_add]
    rfl
  outstanding := by rw [length_append]; exact hfree

/-- A notify handler consumes a chain. -/
theorem consume (hfull : virtqueueIsEmpty vq = false) :
    QueueInv vq.consume published put (pending ++ [vq.head]) := by
  have hlt : (put ++ pending).length < published.length :=
    lt_of_le_of_ne h.avail.le_length fun heq => by
      rw [h.isEmpty_iff.mpr heq] at hfull
      cases hfull
  have hhead : vq.head = published[(put ++ pending).length] := by
    rw [VirtQueue.head, h.lastAvailIdx, h.size.slot_ofNat]
    exact h.avail.head hlt
  have hvq : vq.consume = { vq with lastAvailIdx := vq.lastAvailIdx + 1 } := by
    rw [VirtQueue.consume, hfull]
    rfl
  have hlen : (put ++ (pending ++ [vq.head])).length = (put ++ pending).length + 1 := by
    simp only [length_append, length_singleton]
    omega
  rw [hvq]
  refine ⟨h.size, ?_, hlen ▸ h.avail.pop hlt, h.availIdx, ?_, h.outstanding, h.used, h.usedIdx⟩
  · rw [← append_assoc, hhead]
    have htake := prefix_iff_eq_take.mp h.consumed
    nth_rewrite 1 [htake]
    rw [take_append_getElem hlt]
    exact take_prefix _ _
  · rw [hlen, UInt16.ofNat_add, ← h.lastAvailIdx]
    rfl

end

/-- The worker puts the oldest consumed chain on the used ring. -/
theorem complete {idx : UInt16} (h : QueueInv vq published put (idx :: pending)) (iolen : UInt32) :
    QueueInv (updateUsedRing vq idx iolen) published (put ++ [idx]) pending := by
  have happ : put ++ [idx] ++ pending = put ++ idx :: pending := by simp
  have hpos : 0 < vq.num.toNat := by
    obtain ⟨m, -, hnum⟩ := h.size
    exact hnum ▸ Nat.two_pow_pos m
  refine ⟨h.size, happ ▸ h.consumed, happ ▸ h.avail, h.availIdx, happ ▸ h.lastAvailIdx, ?_, ?_, ?_⟩
  · have := h.outstanding
    rw [length_append]
    exact this.trans (by simp only [updateUsedRing]; omega)
  · have hused := h.used
    rw [← length_map (f := UInt16.toUInt32)] at hused
    have hover := hused.overwrite hpos idx.toUInt32
    rw [length_map, ← h.size.slot_ofNat, ← h.usedIdx] at hover
    rw [map_append, length_append]
    have hring : (fun k => ((updateUsedRing vq idx iolen).usedRing.ring k).id) =
        Function.update (fun k => (vq.usedRing.ring k).id) (vq.slot vq.usedRing.idx)
          idx.toUInt32 := Function.comp_update VirtqUsedElem.id _ _ _
    exact hring ▸ hover
  · show vq.usedRing.idx + 1 = _
    rw [h.usedIdx, length_append, UInt16.ofNat_add]
    rfl

end QueueInv

/-! ## Announced completions -/

/-- The two queues agree on the used index and on the last one announced. -/
def VirtQueue.SameUsed (vq' vq : VirtQueue) : Prop :=
  vq'.lastUsedIdx = vq.lastUsedIdx ∧ vq'.usedRing.idx = vq.usedRing.idx

variable (vq : VirtQueue)

theorem VirtQueue.SameUsed.refl : vq.SameUsed vq := ⟨rfl, rfl⟩

theorem virtqueueDisableNotify_sameUsed : (virtqueueDisableNotify vq).SameUsed vq := by
  unfold virtqueueDisableNotify
  split <;> exact ⟨rfl, rfl⟩

theorem virtqueueEnableNotify_sameUsed : (virtqueueEnableNotify vq).SameUsed vq := by
  unfold virtqueueEnableNotify
  split <;> exact ⟨rfl, rfl⟩

theorem VirtQueue.consume_sameUsed : vq.consume.SameUsed vq := by
  unfold VirtQueue.consume
  split <;> exact ⟨rfl, rfl⟩

theorem virtioInjectIrq_usedIdx (lastUsedIdx idx : UInt16) :
    (virtioInjectIrq vq lastUsedIdx idx).1.usedRing.idx = vq.usedRing.idx := rfl

end HvisorRux.Tool
