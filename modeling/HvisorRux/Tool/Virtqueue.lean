import HvisorRux.Tool.Memory

/-!
# Virtqueues

The split virtqueue as the daemon sees it (`virtio.c`, `virtio.h`): descriptors in guest memory, the
available and the used ring, and the daemon's own positions in them. `process_descriptor_chain` has
three loops that follow guest-controlled links, two of which need not end; it is modelled step by
step, so that what it has stored is known also for calls that never return. A caller that wants no
flags passes a null pointer for them, which is dereferenced all the same for the argument `*flags`
of `descriptor2iov`; and a table need not be in memory that is mapped.
-/

namespace HvisorRux.Tool

/-! ## Descriptors and rings -/

/-- `VRING_DESC_F_NEXT`. -/
def vringDescFNext : UInt16 := 1

/-- `VRING_DESC_F_INDIRECT`. -/
def vringDescFIndirect : UInt16 := 4

/-- `VRING_USED_F_NO_NOTIFY`. -/
def vringUsedFNoNotify : UInt16 := 1

/-- `VRING_AVAIL_F_NO_INTERRUPT`. -/
def vringAvailFNoInterrupt : UInt16 := 1

/-- `struct vring_desc`. -/
structure VirtqDesc where
  addr : UInt64
  len : UInt32
  flags : UInt16
  next : UInt16
  deriving DecidableEq, Repr

namespace VirtqDesc

/-- The descriptor points to a table of descriptors. -/
def isIndirect (vd : VirtqDesc) : Bool := vd.flags &&& vringDescFIndirect != 0

/-- The chain goes on at `next`. -/
def hasNext (vd : VirtqDesc) : Bool := vd.flags &&& vringDescFNext != 0

/-- The number of descriptors of the table an indirect descriptor points to. -/
def tableLen (vd : VirtqDesc) : Int := vd.len.toNat / 16

end VirtqDesc

/-- The descriptor at index `idx` of the table at host address `table`. -/
def HostMem.desc (mem : HostMem) (table : UInt64) (idx : UInt16) : VirtqDesc :=
  let entry := table + 16 * idx.toUInt64
  { addr := UInt64.ofNat (leNat (mem.bytes entry 8))
    len := UInt32.ofNat (leNat (mem.bytes (entry + 8) 4))
    flags := UInt16.ofNat (leNat (mem.bytes (entry + 12) 2))
    next := UInt16.ofNat (leNat (mem.bytes (entry + 14) 2)) }

/-- The descriptor is in memory that the daemon has mapped. -/
def ZoneMem.mappedDesc (zm : ZoneMem) (table : UInt64) (idx : UInt16) : Bool :=
  (List.range 16).all fun k => zm.mapped (table + 16 * idx.toUInt64 + .ofNat k)

/-- `struct vring_avail`, written by the driver. -/
structure VirtqAvail where
  flags : UInt16
  idx : UInt16
  ring : ℕ → UInt16

/-- `struct vring_used_elem`. -/
structure VirtqUsedElem where
  id : UInt32
  len : UInt32
  deriving DecidableEq, Repr

/-- `struct vring_used`, written by the daemon, with the field `VQ_AVAIL_EVENT` behind its ring. -/
structure VirtqUsed where
  flags : UInt16
  idx : UInt16
  ring : ℕ → VirtqUsedElem
  availEvent : UInt16

/-- `VirtQueue`, with the rings it points to. -/
structure VirtQueue where
  zoneId : Fin maxZones
  num : UInt64
  descTable : UInt64
  availRing : VirtqAvail
  usedRing : VirtqUsed
  lastAvailIdx : UInt16
  lastUsedIdx : UInt16
  eventIdxEnabled : Bool

/-- `virtqueue_is_empty`. -/
def virtqueueIsEmpty (vq : VirtQueue) : Bool :=
  vq.lastAvailIdx == vq.availRing.idx

/-- `virtqueue_disable_notify`. -/
def virtqueueDisableNotify (vq : VirtQueue) : VirtQueue :=
  if vq.eventIdxEnabled then
    { vq with usedRing := { vq.usedRing with availEvent := vq.lastAvailIdx - 1 } }
  else
    { vq with usedRing := { vq.usedRing with flags := vq.usedRing.flags ||| vringUsedFNoNotify } }

/-- The logical negation of C on a 16-bit number. -/
def logicalNot (n : UInt16) : UInt16 := if n = 0 then 1 else 0

section

variable (vq : VirtQueue)

/-- `virtqueue_enable_notify`. The mask is the logical, not the bitwise, negation, so it clears
every flag. -/
def virtqueueEnableNotify : VirtQueue :=
  if vq.eventIdxEnabled then
    { vq with usedRing := { vq.usedRing with availEvent := vq.availRing.idx } }
  else
    { vq with
      usedRing := { vq.usedRing with
        flags := vq.usedRing.flags &&& logicalNot vringUsedFNoNotify } }

/-- The ring position of a free-running 16-bit index: `idx & (vq->num - 1)`. -/
def VirtQueue.slot (idx : UInt16) : ℕ :=
  (idx.toUInt64 &&& (vq.num - 1)).toNat

/-- `update_used_ring`. -/
def updateUsedRing (idx : UInt16) (iolen : UInt32) : VirtQueue :=
  { vq with
    usedRing := { vq.usedRing with
      ring := Function.update vq.usedRing.ring (vq.slot vq.usedRing.idx) ⟨idx.toUInt32, iolen⟩
      idx := vq.usedRing.idx + 1 } }

/-- The driver writes the chain's head and advances `avail->idx`. -/
def VirtQueue.publish (head : UInt16) : VirtQueue :=
  { vq with
    availRing := { vq.availRing with
      ring := Function.update vq.availRing.ring (vq.slot vq.availRing.idx) head
      idx := vq.availRing.idx + 1 } }

/-- `VQ_USED_EVENT`: the field behind the available ring. -/
def VirtQueue.usedEvent : UInt16 := vq.availRing.ring vq.num.toNat

end

/-- `vring_need_event`. -/
def vringNeedEvent (eventIdx newIdx old : UInt16) : Bool :=
  newIdx - eventIdx - 1 < newIdx - old

/-- `virtio_inject_irq` from its first write on, after it has read `last_used_idx` and the used
index `idx`: the queue, and whether the interrupt is put into the list of responses. -/
def virtioInjectIrq (vq : VirtQueue) (lastUsedIdx idx : UInt16) : VirtQueue × Bool :=
  ({ vq with lastUsedIdx := idx },
    if idx = lastUsedIdx then false
    else if vq.eventIdxEnabled then vringNeedEvent vq.usedEvent idx lastUsedIdx
    else vq.availRing.flags &&& vringAvailFNoInterrupt == 0)

/-- The size of a split queue: a power of two, at most 32768. -/
def VirtQueue.ValidSize (vq : VirtQueue) : Prop := ∃ m ≤ 15, vq.num.toNat = 2 ^ m

theorem VirtQueue.ValidSize.le {vq : VirtQueue} (h : vq.ValidSize) : vq.num.toNat ≤ 2 ^ 15 := by
  rcases h with ⟨m, hm, hnum⟩
  exact hnum ▸ Nat.pow_le_pow_right (by decide) hm

/-- The masked 16-bit index is the absolute position modulo the size of the queue. -/
theorem VirtQueue.ValidSize.slot_ofNat {vq : VirtQueue} (h : vq.ValidSize) (k : ℕ) :
    vq.slot (UInt16.ofNat k) = k % vq.num.toNat := by
  rcases h with ⟨m, hm, hnum⟩
  have hmask : (vq.num - 1).toNat = 2 ^ m - 1 := by
    rw [UInt64.toNat_sub_of_le _ _ (by
      rw [UInt64.le_iff_toNat_le, hnum]
      exact Nat.one_le_two_pow), hnum]
    rfl
  have hdvd : 2 ^ m ∣ 2 ^ 16 := Nat.pow_dvd_pow 2 (by omega)
  rw [VirtQueue.slot, UInt64.toNat_and, hmask, Nat.and_two_pow_sub_one_eq_mod, hnum]
  exact Nat.mod_mod_of_dvd k hdvd

/-- Two 16-bit positions less than `2 ^ 16` apart are equal only if the positions are. -/
theorem ofNat_eq_iff {j k : ℕ} (hjk : j ≤ k) (hk : k ≤ j + 2 ^ 15) :
    UInt16.ofNat j = UInt16.ofNat k ↔ j = k := by
  rw [← UInt16.toNat_inj, UInt16.toNat_ofNat', UInt16.toNat_ofNat']
  omega

/-! ## Recording a descriptor chain -/

/-- One call of `descriptor2iov`: the slot it wrote, the descriptor it read, and what it stored in
`iov` and (when asked to) in `flags`. -/
structure Recorded where
  slot : Int
  desc : VirtqDesc
  iov : Iovec
  flags : Option UInt16
  deriving DecidableEq, Repr

/-- `descriptor2iov`. -/
def descriptor2iov (zm : ZoneMem) (i : Int) (vd : VirtqDesc) (zoneId : Fin maxZones)
    (copyFlags : Bool) : Recorded where
  slot := i
  desc := vd
  iov := ⟨getVirtAddr zm vd.addr zoneId, vd.len.toUInt64⟩
  flags := if copyFlags then some vd.flags else none

/-- The value of an unsigned number as a C `int`. -/
def toCInt (n : Int) : Int := n.bmod (2 ^ 32)

/-- Where `process_descriptor_chain` is: in the loop that computes `chain_len`, in the loop that
records descriptors, in its inner loop over the indirect table at `table` (after which the chain
goes on at `resume`), back in its caller, or nowhere, since an access to memory that is not mapped
has ended the daemon. -/
inductive ChainPc
  | count
  | record
  | indirect (table : UInt64) (tableLen : Int) (resume : UInt16)
  | returned
  | crashed
  deriving DecidableEq, Repr

/-- The local variables of `process_descriptor_chain`, with everything recorded so far. -/
structure Chain where
  pc : ChainPc
  i : Int
  next : UInt16
  chainLen : Int
  recorded : List Recorded
  deriving DecidableEq, Repr

/-- The descriptor index the driver published at the daemon's position. -/
def VirtQueue.head (vq : VirtQueue) : UInt16 :=
  vq.availRing.ring (vq.slot vq.lastAvailIdx)

/-- The end of the counting loop: `chain_len += i + 1, next = *desc_idx`. -/
def Chain.startRecording (vq : VirtQueue) (ch : Chain) : Chain :=
  { ch with
    pc := .record
    i := 0
    next := vq.head
    chainLen := toCInt (ch.chainLen + (ch.i + 1)) }

/-- One iteration of the loop `process_descriptor_chain` is in. Without `copyFlags` the argument
`flags` is a null pointer. -/
def Chain.step (zm : ZoneMem) (mem : HostMem) (vq : VirtQueue) (copyFlags : Bool) (ch : Chain) :
    Chain :=
  match ch.pc with
  | .count =>
    if ch.i < toCInt vq.num.toNat then
      if zm.mappedDesc vq.descTable ch.next then
        let vdesc := mem.desc vq.descTable ch.next
        let counted :=
          if vdesc.isIndirect then
            { ch with chainLen := toCInt (ch.chainLen + vdesc.tableLen), i := ch.i - 1 }
          else ch
        if vdesc.hasNext then { counted with i := counted.i + 1, next := vdesc.next }
        else counted.startRecording vq
      else { ch with pc := .crashed }
    else ch.startRecording vq
  | .record =>
    if ch.i < ch.chainLen then
      let vdesc := mem.desc vq.descTable ch.next
      if zm.mappedDesc vq.descTable ch.next = false then { ch with pc := .crashed }
      else if vdesc.isIndirect then
        { ch with
          pc := .indirect (getVirtAddr zm vdesc.addr vq.zoneId) vdesc.tableLen vdesc.next
          next := 0 }
      else if copyFlags then
        { ch with
          i := ch.i + 1
          next := vdesc.next
          recorded := ch.recorded ++ [descriptor2iov zm ch.i vdesc vq.zoneId copyFlags] }
      else { ch with pc := .crashed }
    else { ch with pc := .returned }
  | .indirect table tableLen resume =>
    let indDesc := mem.desc table ch.next
    let recorded := ch.recorded ++ [descriptor2iov zm ch.i indDesc vq.zoneId copyFlags]
    if copyFlags = false ∨ zm.mappedDesc table ch.next = false then { ch with pc := .crashed }
    else if indDesc.hasNext then
      { ch with
        pc := .indirect table (tableLen - 1) resume
        i := ch.i + 1
        next := indDesc.next
        recorded }
    else if tableLen - 1 ≠ 0 then
      -- "invalid indirect descriptor chain": the remaining slots stay unwritten
      { ch with pc := .returned, i := ch.i + 1, recorded }
    else
      -- the outer loop increments `i` once more after the inner one
      { ch with pc := .record, i := ch.i + 2, next := resume, recorded }
  | .returned | .crashed => ch

/-- The entry of `process_descriptor_chain`: an empty queue returns `0` at once. -/
def Chain.start (vq : VirtQueue) : Chain :=
  { pc := if virtqueueIsEmpty vq then .returned else .count
    i := 0
    next := vq.head
    chainLen := 0
    recorded := [] }

/-- `process_descriptor_chain` after `fuel` loop iterations. -/
def processDescriptorChain (zm : ZoneMem) (mem : HostMem) (vq : VirtQueue) (copyFlags : Bool)
    (fuel : ℕ) : Chain :=
  (Chain.step zm mem vq copyFlags)^[fuel] (Chain.start vq)

/-- The queue after `process_descriptor_chain`: one chain consumed unless the queue was empty. -/
def VirtQueue.consume (vq : VirtQueue) : VirtQueue :=
  if virtqueueIsEmpty vq then vq else { vq with lastAvailIdx := vq.lastAvailIdx + 1 }

section Chain

variable (zm : ZoneMem) (mem : HostMem) (vq : VirtQueue) (copyFlags : Bool)

/-- An iteration records at most one descriptor, at the current slot. -/
theorem Chain.recorded_step (ch : Chain) : (ch.step zm mem vq copyFlags).recorded = ch.recorded ∨
      ∃ vd, (ch.step zm mem vq copyFlags).recorded =
        ch.recorded ++ [descriptor2iov zm ch.i vd vq.zoneId copyFlags] := by
  unfold Chain.step
  split
  case h_1 =>
    dsimp only
    apply Or.inl
    repeat' split
    all_goals rfl
  case h_2 =>
    dsimp only
    repeat' split
    case isTrue.isFalse.isFalse.isTrue => exact .inr ⟨_, rfl⟩
    all_goals exact .inl rfl
  case h_3 table _ _ _ =>
    dsimp only
    split
    · exact .inl rfl
    · refine .inr ⟨mem.desc table ch.next, ?_⟩
      repeat' split
      all_goals rfl
  case h_4 | h_5 => exact .inl rfl

/-- Everything `process_descriptor_chain` records, it records through `descriptor2iov`. -/
theorem processDescriptorChain_recorded (fuel : ℕ) :
    ∀ r ∈ (processDescriptorChain zm mem vq copyFlags fuel).recorded,
      r = descriptor2iov zm r.slot r.desc vq.zoneId copyFlags := by
  induction fuel with
  | zero =>
    intro r hr
    cases hr
  | succ fuel ih =>
    rw [processDescriptorChain, Function.iterate_succ_apply']
    intro r hr
    rcases Chain.recorded_step zm mem vq copyFlags
      (processDescriptorChain zm mem vq copyFlags fuel) with hsame | ⟨vd, hnew⟩
    · exact ih r (hsame ▸ hr)
    · rw [processDescriptorChain] at hnew ih
      rw [hnew, List.mem_append, List.mem_singleton] at hr
      rcases hr with hr | rfl
      · exact ih r hr
      · rfl

end Chain

end HvisorRux.Tool
