import HvisorRux.Tool.DescriptorChain

/-!
# Frames of the virtio-net device

`virtq_tx_handle_one_request` (`virtio_net.c`) is to pass the buffers of a chain to the tap device
without the header, which it takes off the first of them, and with zeros after a short frame. It
does not ask `process_descriptor_chain` for the flags, and so never gets the buffers.
-/

namespace HvisorRux.Tool

open List

/-- `sizeof(NetHdr)`. -/
def netHdrSize : ℕ := 12

/-- The size of `pad`, and of the shortest frame. -/
def padSize : ℕ := 64

/-- `all_len`. -/
def txAllLen (iov : List Iovec) : Int :=
  iov.foldl (fun len v => toCInt (len + v.len.toNat)) 0

/-- The list that `writev` gets; `pad` is the address of the array of that name. -/
def txIov (pad : UInt64) (iov : List Iovec) : List Iovec :=
  let packetLen := toCInt (txAllLen iov - netHdrSize)
  let iov := iov.modifyHead fun v => ⟨v.base + .ofNat netHdrSize, v.len - .ofNat netHdrSize⟩
  if packetLen < padSize then iov ++ [⟨pad, .ofInt (toCInt (padSize - packetLen))⟩] else iov

/-- `virtq_tx_handle_one_request`: the list that `writev` gets, which is empty if it is not called,
and the queue. `none` while `process_descriptor_chain` has not returned. -/
def virtqTxHandleOneRequest (zm : ZoneMem) (mem : HostMem) (pad : UInt64) (tapfd : Int)
    (vq : VirtQueue) (fuel : ℕ) (heap : ℕ → Iovec) : Option (List Iovec × VirtQueue) :=
  let ch := processDescriptorChain zm mem vq false fuel
  if tapfd = -1 then some ([], vq)
  else if ch.pc ≠ .returned then none
  else if ch.chainLen < 1 then some ([], vq.consume)
  else
    let iov := ch.iov heap
    some (txIov pad iov, updateUsedRing vq.consume vq.head (.ofInt (txAllLen iov)))

/-- The frame that the buffers of a chain are for: their contents without the header, with zeros up
to the size of the shortest frame. -/
def txFrame (mem : HostMem) (iov : List Iovec) : List UInt8 :=
  ((iovAddrs iov).map mem).drop netHdrSize ++
    List.replicate (padSize - (iovSize iov - netHdrSize)) 0

theorem txFrame_ne_nil (mem : HostMem) (iov : List Iovec) : txFrame mem iov ≠ [] := by
  intro h
  have hlen := congrArg length h
  simp only [txFrame, length_append, length_drop, length_map, iovAddrs_length, length_replicate,
    length_nil, padSize] at hlen
  omega

/-- **No frame is transmitted**: whatever the guest has written, a call that returns has not come to
a descriptor, and the list that `writev` gets is not a frame. -/
theorem no_frame_transmitted (zm : ZoneMem) (mem : HostMem) (pad : UInt64) (tapfd : Int)
    (vq : VirtQueue) (heap : ℕ → Iovec) (leaves : List VirtqDesc) :
    ¬ ∃ fuel r, virtqTxHandleOneRequest zm mem pad tapfd vq fuel heap = some r ∧
      (iovAddrs r.1).map mem = txFrame mem (leaves.map (VirtqDesc.buffer zm vq.zoneId)) := by
  rintro ⟨fuel, r, hr, hframe⟩
  have hnone : r.1 = [] := by
    unfold virtqTxHandleOneRequest at hr
    dsimp only at hr
    split at hr
    · cases hr
      rfl
    obtain ⟨hret, hr⟩ := Option.ite_none_left_eq_some.mp hr
    have hlen := (processDescriptorChain_flagless zm mem vq fuel).returned (not_not.mp hret)
    rw [if_pos (by omega)] at hr
    cases hr
    rfl
  rw [hnone] at hframe
  exact txFrame_ne_nil mem _ hframe.symm

/-- One buffer with a header and a payload of three bytes. -/
def sampleTransmit : HostMem :=
  sampleTables [sampleDesc 1 15 0 0] [[0, 0, 0, 0, 0, 0, 0, 0, 0, 0, 0, 0, 1, 2, 3]]

/-- The daemon ends in `process_descriptor_chain`. -/
theorem transmit_crashes :
    (processDescriptorChain samplePage sampleTransmit (sampleChainQueue 0) false 2).pc = .crashed ∧
      ∀ fuel heap, virtqTxHandleOneRequest samplePage sampleTransmit 0 3 (sampleChainQueue 0) fuel
        heap = none := by
  have hcrashed : (processDescriptorChain samplePage sampleTransmit (sampleChainQueue 0) false
      2).pc = .crashed := by decide
  refine ⟨hcrashed, fun fuel heap => ?_⟩
  have hret : (processDescriptorChain samplePage sampleTransmit (sampleChainQueue 0) false
      fuel).pc ≠ .returned := by
    intro hret
    have heq := Common.Leads.unique ⟨fuel, rfl⟩ ⟨2, rfl⟩
      (Chain.step_eq_self samplePage sampleTransmit (sampleChainQueue 0) false (.inl hret))
      (Chain.step_eq_self samplePage sampleTransmit (sampleChainQueue 0) false (.inr hcrashed))
    cases hret.symm.trans ((congrArg Chain.pc heq).trans hcrashed)
  simp [virtqTxHandleOneRequest, hret]

end HvisorRux.Tool
