import HvisorRux.Common.Ring
import HvisorRux.Common.Transition
import HvisorRux.Tool.Virtqueue

/-!
# The order of chains on a queue

Driver and device meet in two rings with free-running 16-bit indices: the driver publishes chains in
the available ring and looks at completed ones in the used ring; the device takes chains with
`process_descriptor_chain` and completes them with `update_used_ring`. The receive handlers of the
net and console devices give the chain they have just taken back when there is nothing to receive.

All four indices are absolute positions modulo `2 ^ 16`. A driver that keeps at most `num` chains
outstanding bounds their distances by `num`, and that makes the reductions harmless.
-/

namespace HvisorRux.Tool

open Common List Option UInt16

/-- A queue with its driver. `seenUsedIdx` is the driver's position in the used ring. The rest is
history: the heads published, those handed out by `process_descriptor_chain` call by call, those of
them that were not given back, the elements put on the used ring and those the driver has seen
there, and how often a chain was given back. -/
structure QueueState where
  vq : VirtQueue
  seenUsedIdx : UInt16
  published : List UInt16
  handedOut : List UInt16
  kept : List UInt16
  put : List VirtqUsedElem
  seen : List VirtqUsedElem
  givenBack : ℕ

/-- The driver publishes a chain or looks at a completed one, or the device calls
`process_descriptor_chain`, restores `last_avail_idx` after it, or calls `update_used_ring`. -/
inductive QueueEvent
  | publish (head : UInt16)
  | see
  | take
  | giveBack
  | put (idx : UInt16) (iolen : UInt32)

/-- One step of driver or device. The device completes or gives back only chains it has taken. -/
def queueStep (s : QueueState) : QueueEvent → Option QueueState
  | .publish head =>
    some { s with vq := s.vq.publish head, published := s.published ++ [head] }
  | .see =>
    if s.seenUsedIdx = s.vq.usedRing.idx then none
    else
      some { s with
        seenUsedIdx := s.seenUsedIdx + 1
        seen := s.seen ++ [s.vq.usedRing.ring (s.vq.slot s.seenUsedIdx)] }
  | .take =>
    if virtqueueIsEmpty s.vq then some { s with vq := s.vq.consume }
    else
      some { s with
        vq := s.vq.consume
        handedOut := s.handedOut ++ [s.vq.head]
        kept := s.kept ++ [s.vq.head] }
  | .giveBack =>
    if s.put.length < s.kept.length then
      some { s with
        vq := { s.vq with lastAvailIdx := s.vq.lastAvailIdx - 1 }
        kept := s.kept.dropLast
        givenBack := s.givenBack + 1 }
    else none
  | .put idx iolen =>
    if s.put.length < s.kept.length then
      some { s with
        vq := updateUsedRing s.vq idx iolen
        put := s.put ++ [⟨idx.toUInt32, iolen⟩] }
    else none

/-- The driver keeps at most `num` chains outstanding. -/
def KeepsBound (s : QueueState) : QueueEvent → Prop
  | .publish _ => s.published.length < s.seen.length + s.vq.num.toNat
  | _ => True

instance (s : QueueState) (e : QueueEvent) : Decidable (KeepsBound s e) := by
  unfold KeepsBound
  split <;> infer_instance

/-- A queue that has been set up and not used. -/
structure QueueState.Initial (s : QueueState) : Prop where
  size : s.vq.ValidSize
  availIdx : s.vq.availRing.idx = 0
  usedIdx : s.vq.usedRing.idx = 0
  lastAvailIdx : s.vq.lastAvailIdx = 0
  seenUsedIdx : s.seenUsedIdx = 0
  published : s.published = []
  handedOut : s.handedOut = []
  kept : s.kept = []
  put : s.put = []
  seen : s.seen = []
  givenBack : s.givenBack = 0

/-- What holds of the two rings at every moment. -/
structure InOrder (s : QueueState) : Prop where
  /-- without giving back, the calls of `process_descriptor_chain` hand out what was published, in
  order and each head once -/
  handedOut : s.givenBack = 0 → s.handedOut <+: s.published
  /-- a chain that was given back is handed out again before the others -/
  kept : s.kept <+: s.published
  /-- the next call takes the head of position `k` from slot `k % num` -/
  next : virtqueueIsEmpty s.vq = false →
    s.vq.head = s.vq.availRing.ring (s.kept.length % s.vq.num.toNat) ∧
      s.published[s.kept.length]? = some s.vq.head
  /-- `last_avail_idx` has not passed `avail->idx` -/
  distance : s.kept.length + (s.vq.availRing.idx - s.vq.lastAvailIdx).toNat = s.published.length
  /-- the next call of `update_used_ring` writes the slot behind that of the last one -/
  slot : s.vq.slot s.vq.usedRing.idx = s.put.length % s.vq.num.toNat
  /-- the elements the driver has not seen yet are intact -/
  unseen : ∀ k (hk : k < s.put.length), s.seen.length ≤ k →
    s.vq.usedRing.ring (k % s.vq.num.toNat) = s.put[k]
  /-- and it sees them in the order of the calls -/
  seen : s.seen <+: s.put

/-! ## The invariant -/

/-- The positions that the indices stand for. -/
structure OrderInv (s : QueueState) : Prop where
  size : s.vq.ValidSize
  avail : Ring.Holds s.vq.availRing.ring s.vq.num.toNat s.published s.seen.length
  used : Ring.Holds s.vq.usedRing.ring s.vq.num.toNat s.put s.seen.length
  availIdx : s.vq.availRing.idx = ofNat s.published.length
  lastAvailIdx : s.vq.lastAvailIdx = ofNat s.kept.length
  usedIdx : s.vq.usedRing.idx = ofNat s.put.length
  seenUsedIdx : s.seenUsedIdx = ofNat s.seen.length
  kept : s.kept <+: s.published
  put_le : s.put.length ≤ s.kept.length
  seen : s.seen <+: s.put
  handedOut : s.givenBack = 0 → s.handedOut = s.kept

theorem ofNat_succ (k : ℕ) : ofNat (k + 1) = ofNat k + 1 := by
  rw [ofNat_add]
  rfl

namespace OrderInv

variable {s s' : QueueState}

theorem isEmpty_iff (h : OrderInv s) :
    virtqueueIsEmpty s.vq = true ↔ s.kept.length = s.published.length := by
  have hkept := h.kept.length_le
  have hseen := h.used.le_length
  have hput := h.put_le
  have hout := h.avail.length_le
  have hsize := h.size.le
  rw [virtqueueIsEmpty, beq_iff_eq, h.availIdx, h.lastAvailIdx, ofNat_eq_iff hkept (by omega)]

/-- The head of a queue that is not empty. -/
theorem head_eq (h : OrderInv s) (hne : virtqueueIsEmpty s.vq = false) :
    s.vq.head = s.vq.availRing.ring (s.kept.length % s.vq.num.toNat) ∧
      s.published[s.kept.length]? = some s.vq.head := by
  have hlt : s.kept.length < s.published.length := by
    refine lt_of_le_of_ne h.kept.length_le fun heq => ?_
    rw [h.isEmpty_iff.mpr heq] at hne
    cases hne
  have hhead : s.vq.head = s.vq.availRing.ring (s.kept.length % s.vq.num.toNat) := by
    rw [VirtQueue.head, h.lastAvailIdx, h.size.slot_ofNat]
  refine ⟨hhead, ?_⟩
  rw [hhead, h.avail.slot_eq _ hlt (h.used.le_length.trans h.put_le)]
  exact getElem?_eq_getElem hlt

theorem inOrder (h : OrderInv s) : InOrder s where
  __ := h
  handedOut := fun h0 => by rw [h.handedOut h0]; exact h.kept
  next := h.head_eq
  distance := by
    have hkept := h.kept.length_le
    have hseen := h.used.le_length
    have hput := h.put_le
    have hout := h.avail.length_le
    have hsize := h.size.le
    rw [h.availIdx, h.lastAvailIdx, UInt16.toNat_sub, UInt16.toNat_ofNat', UInt16.toNat_ofNat']
    omega
  slot := by rw [h.usedIdx, h.size.slot_ofNat]
  unseen := h.used.slot_eq

theorem initial (h : s.Initial) : OrderInv s where
  size := h.size
  avail := by rw [h.published, h.seen]; exact Ring.Holds.nil _ _
  used := by rw [h.put, h.seen]; exact Ring.Holds.nil _ _
  availIdx := by rw [h.availIdx, h.published]; rfl
  lastAvailIdx := by rw [h.lastAvailIdx, h.kept]; rfl
  usedIdx := by rw [h.usedIdx, h.put]; rfl
  seenUsedIdx := by rw [h.seenUsedIdx, h.seen]; rfl
  kept := by rw [h.kept, h.published]
  put_le := by rw [h.put, h.kept]; exact le_rfl
  seen := by rw [h.seen, h.put]
  handedOut := fun _ => by rw [h.handedOut, h.kept]

section

variable (h : OrderInv s)

include h

theorem publish (head : UInt16) (hfree : s.published.length < s.seen.length + s.vq.num.toNat) :
    OrderInv { s with vq := s.vq.publish head, published := s.published ++ [head] } where
  __ := h
  avail := by
    have hpush := h.avail.push hfree head
    rwa [← h.size.slot_ofNat, ← h.availIdx] at hpush
  availIdx := by
    show s.vq.availRing.idx + 1 = _
    rw [h.availIdx, length_append, length_singleton, ofNat_succ]
  kept := h.kept.trans (prefix_append _ _)

theorem see (hne : s.seenUsedIdx ≠ s.vq.usedRing.idx) :
    OrderInv { s with
      seenUsedIdx := s.seenUsedIdx + 1
      seen := s.seen ++ [s.vq.usedRing.ring (s.vq.slot s.seenUsedIdx)] } := by
  have hlt : s.seen.length < s.put.length := by
    refine lt_of_le_of_ne h.used.le_length fun heq => hne ?_
    rw [h.seenUsedIdx, h.usedIdx, heq]
  have helem : s.vq.usedRing.ring (s.vq.slot s.seenUsedIdx) = s.put[s.seen.length] := by
    rw [h.seenUsedIdx, h.size.slot_ofNat]
    exact h.used.head hlt
  have hlen : (s.seen ++ [s.vq.usedRing.ring (s.vq.slot s.seenUsedIdx)]).length =
      s.seen.length + 1 := by simp
  have hpublished : s.seen.length < s.published.length :=
    lt_of_lt_of_le hlt (h.put_le.trans h.kept.length_le)
  refine ⟨h.size, hlen ▸ h.avail.pop hpublished, hlen ▸ h.used.pop hlt, h.availIdx, h.lastAvailIdx,
    h.usedIdx, ?_, h.kept, h.put_le, ?_, h.handedOut⟩
  · rw [hlen, h.seenUsedIdx, ofNat_succ]
  · rw [helem]
    nth_rewrite 1 [prefix_iff_eq_take.mp h.seen]
    rw [take_append_getElem hlt]
    exact take_prefix _ _

theorem take (hne : virtqueueIsEmpty s.vq = false) :
    OrderInv { s with
      vq := s.vq.consume
      handedOut := s.handedOut ++ [s.vq.head]
      kept := s.kept ++ [s.vq.head] } := by
  obtain ⟨hlt, hhead⟩ := List.getElem?_eq_some_iff.mp (h.head_eq hne).2
  have hvq : s.vq.consume = { s.vq with lastAvailIdx := s.vq.lastAvailIdx + 1 } := by
    rw [VirtQueue.consume, hne]
    rfl
  have hlen : (s.kept ++ [s.vq.head]).length = s.kept.length + 1 := by simp
  rw [hvq]
  refine ⟨h.size, h.avail, h.used, h.availIdx, ?_, h.usedIdx, h.seenUsedIdx, ?_, ?_, h.seen, ?_⟩
  · rw [hlen, h.lastAvailIdx, ofNat_succ]
  · show s.kept ++ [s.vq.head] <+: s.published
    rw [← hhead]
    nth_rewrite 1 [prefix_iff_eq_take.mp h.kept]
    rw [take_append_getElem hlt]
    exact take_prefix _ _
  · rw [hlen]
    exact h.put_le.trans (Nat.le_succ _)
  · intro h0
    exact congrArg (· ++ [s.vq.head]) (h.handedOut h0)

theorem giveBack (hlt : s.put.length < s.kept.length) :
    OrderInv { s with
      vq := { s.vq with lastAvailIdx := s.vq.lastAvailIdx - 1 }
      kept := s.kept.dropLast
      givenBack := s.givenBack + 1 } where
  __ := h
  lastAvailIdx := by
    have hpos : s.kept.length = s.kept.length - 1 + 1 := by omega
    rw [h.lastAvailIdx, length_dropLast, hpos, ofNat_succ]
    simp
  kept := (List.dropLast_prefix _).trans h.kept
  put_le := by
    rw [length_dropLast]
    exact Nat.le_sub_one_of_lt hlt
  handedOut := fun h0 => by cases h0

theorem put (idx : UInt16) (iolen : UInt32) (hlt : s.put.length < s.kept.length) :
    OrderInv { s with
      vq := updateUsedRing s.vq idx iolen
      put := s.put ++ [⟨idx.toUInt32, iolen⟩] } := by
  have hlen : (s.put ++ [(⟨idx.toUInt32, iolen⟩ : VirtqUsedElem)]).length = s.put.length + 1 := by
    simp
  -- the slot is free: the driver has seen all but the chains that are outstanding
  have hfree : s.put.length < s.seen.length + s.vq.num.toNat :=
    lt_of_lt_of_le hlt (h.kept.length_le.trans h.avail.length_le)
  refine ⟨h.size, h.avail, ?_, h.availIdx, h.lastAvailIdx, ?_, h.seenUsedIdx, h.kept, ?_,
    h.seen.trans (prefix_append _ _), h.handedOut⟩
  · have hpush := h.used.push hfree ⟨idx.toUInt32, iolen⟩
    rwa [← h.size.slot_ofNat, ← h.usedIdx] at hpush
  · show s.vq.usedRing.idx + 1 = _
    rw [hlen, h.usedIdx, ofNat_succ]
  · rw [hlen]
    exact hlt

theorem step {e : QueueEvent} (hok : KeepsBound s e) (hs : queueStep s e = some s') :
    OrderInv s' := by
  cases e with
  | publish head =>
    cases hs
    exact h.publish head hok
  | see =>
    obtain ⟨hne, hs⟩ := ite_none_left_eq_some.mp hs
    cases hs
    exact h.see hne
  | take =>
    rw [queueStep] at hs
    split at hs
    · next hempty =>
      cases hs
      have hvq : s.vq.consume = s.vq := by rw [VirtQueue.consume, if_pos hempty]
      rw [hvq]
      exact h
    · next hne =>
      cases hs
      exact h.take (by simpa using hne)
  | giveBack =>
    obtain ⟨hlt, hs⟩ := ite_none_right_eq_some.mp hs
    cases hs
    exact h.giveBack hlt
  | put idx iolen =>
    obtain ⟨hlt, hs⟩ := ite_none_right_eq_some.mp hs
    cases hs
    exact h.put idx iolen hlt

end

end OrderInv

/-- **Chains are taken exactly once and in order.** On a queue of any size, in every run in which
the driver keeps at most `num` chains outstanding, however long it is. -/
theorem queue_in_order (s₀ s : QueueState) (hinit : s₀.Initial)
    (h : Reach queueStep KeepsBound s₀ s) : InOrder s := by
  have hinv := h.invariant OrderInv (OrderInv.initial hinit)
    fun _ _ _ hinv hok hs => hinv.step hok hs
  exact hinv.inOrder

/-- A queue of two entries. -/
def sampleQueueState : QueueState where
  vq := {
    zoneId := ⟨1, one_lt_maxZones⟩
    num := 2
    descTable := 0
    availRing := ⟨0, 0, fun _ => 0⟩
    usedRing := ⟨0, 0, fun _ => ⟨0, 0⟩, 0⟩
    lastAvailIdx := 0
    lastUsedIdx := 0
    eventIdxEnabled := false }
  seenUsedIdx := 0
  published := []
  handedOut := []
  kept := []
  put := []
  seen := []
  givenBack := 0

/-- Three chains through a queue of two entries. -/
theorem queue_in_order_sample : ∃ s, (s.handedOut = [0, 1, 7] ∧ s.put.length = 2) ∧ InOrder s := by
  have hrun : (run queueStep KeepsBound sampleQueueState
      [.publish 0, .publish 1, .take, .put 0 4, .see, .publish 7, .take, .take, .put 7 8]).map
        (fun s => (s.handedOut, s.put.length)) = some ([0, 1, 7], 2) := by
    decide +kernel
  obtain ⟨s, hs, heq⟩ := exists_of_run hrun
  exact ⟨s, Prod.mk.inj heq, queue_in_order sampleQueueState s
    ⟨⟨1, by decide, rfl⟩, rfl, rfl, rfl, rfl, rfl, rfl, rfl, rfl, rfl, rfl⟩ hs⟩

end HvisorRux.Tool
