import HvisorRux.Tool.Blk.Worker
import HvisorRux.Tool.QueueCompletion

/-!
# Every block request is completed once

A chain that the handler consumes becomes a request, travels in the handler's list and in the
worker's, and is put on the used ring by the worker, in order. The daemon does not answer a chain
that is no block request: it crashes, as it does when the header or the status of a request is in
memory that is not mapped. As long as the driver only sends requests, the consumed chains are those
on the used ring and those on their way, and the threads finish the latter on their own.
-/

namespace HvisorRux.Tool

open Common List Option BlkState BlkWorkerPc BlkHandlerPc BlkState

/-! ## Chains that are requests -/

/-- The leaves of a chain are a block request: a header, data buffers that are all written by the
device or all read by it, as the type says, and a status byte. -/
def isBlkRequest (zm : ZoneMem) (mem : HostMem) (zoneId : Fin maxZones) : List VirtqDesc → Bool
  | [] => false
  | hdr :: rest =>
    match rest.getLast? with
    | none => false
    | some status =>
      let out := blkReqType mem (hdr.buffer zm zoneId).base == virtioBlkTOut
      decide (rest.dropLast.length ≤ blkSegMax) && !isWritable hdr.flags &&
        hdr.len.toNat == blkReqHeadSize && status.len == 1 && isWritable status.flags &&
        rest.dropLast.all fun vd => isWritable vd.flags == !out

/-- The header of a request is mapped, and so are the places for its status and for a serial. -/
def isMapped (zm : ZoneMem) (mem : HostMem) (zoneId : Fin maxZones) (leaves : List VirtqDesc) :
    Bool :=
  let iov := leaves.map (VirtqDesc.buffer zm zoneId)
  let hdr := (iovAt iov 0).addrs
  (hdr.take 4 ++ hdr.drop 8).all zm.mapped &&
    !BlkpReq.faults zm ⟨iov, 0, blkReqType mem (iovAt iov 0).base, 0⟩

/-- The next available chain is a block request in mapped memory. -/
def Acceptable (zm : ZoneMem) (mem : HostMem) (vq : VirtQueue) : Bool :=
  (chainLeaves zm mem vq).any fun leaves =>
    isBlkRequest zm mem vq.zoneId leaves && isMapped zm mem vq.zoneId leaves

/-- The side condition: the handler only meets block requests. -/
def TakesRequests (zm : ZoneMem) (s : BlkState) (e : BlkEvent) : Prop :=
  (match e, s.handler with
    | .handler _ _, .handle _ => Acceptable zm s.mem s.vq
    | _, _ => true) = true
deriving Decidable

section

variable {zm : ZoneMem} {mem : HostMem} {vq : VirtQueue}

theorem getD_map_concat {α β : Type} (f : α → β) (l : List α) (a : α) (d : β) :
    (l.map f ++ [f a]).getD l.length d = f a := by
  simp [List.getD]

theorem take_map_concat {α β : Type} (f : α → β) (l : List α) (b : β) :
    (l.map f ++ [b]).take l.length = l.map f := by
  simp

/-- The tests of the source accept a block request. -/
theorem blkpReqOf_of_isBlkRequest {zoneId : Fin maxZones} {leaves : List VirtqDesc}
    (h : isBlkRequest zm mem zoneId leaves = true) (idx : UInt16) :
    ∃ breq, blkpReqOf mem leaves.length (leaves.map (VirtqDesc.buffer zm zoneId))
      (leaves.map VirtqDesc.flags) idx = some breq ∧ breq.idx = idx ∧
      breq.iov = leaves.map (VirtqDesc.buffer zm zoneId) ∧
      breq.type = blkReqType mem (iovAt (leaves.map (VirtqDesc.buffer zm zoneId)) 0).base := by
  cases leaves with
  | nil => cases h
  | cons hdr rest =>
    unfold isBlkRequest at h
    dsimp only at h
    split at h
    · cases h
    rename_i status hlast
    obtain ⟨data, rfl⟩ : ∃ data, rest = data ++ [status] :=
      ⟨rest.dropLast, (dropLast_append_getLast? status hlast).symm⟩
    rw [dropLast_concat] at h
    simp only [Bool.and_eq_true, decide_eq_true_eq, Bool.not_eq_true', beq_iff_eq,
      List.all_eq_true] at h
    obtain ⟨⟨⟨⟨⟨hlen, hread⟩, hhead⟩, hone⟩, hwrite⟩, hdata⟩ := h
    have hn : ((hdr :: (data ++ [status])).length : Int) = data.length + 2 := by
      simp
      omega
    have hlast : ((data.length + 2 : Int) - 1).toNat = data.length + 1 := by omega
    have hmid : ((data.length + 2 : Int) - 2).toNat = data.length := by omega
    have hnum : ¬ ((data.length + 2 : Int) < 2 ∨ (data.length + 2 : Int) > blkSegMax + 2) := by
      omega
    rw [hn]
    unfold blkpReqOf
    rw [if_neg hnum, hlast, hmid]
    have hconflict : ((data.map VirtqDesc.flags).any fun f => (!isWritable f) !=
        (blkReqType mem (hdr.buffer zm zoneId).base == virtioBlkTOut)) ≠ true := by
      simp only [ne_eq, Bool.not_eq_true, List.any_eq_false, List.mem_map, forall_exists_index,
        and_imp, forall_apply_eq_imp_iff₂]
      intro vd hvd
      simp [hdata vd hvd]
    have hbuf : (hdr.buffer zm zoneId).len.toNat = blkReqHeadSize :=
      (UInt32.toNat_toUInt64 hdr.len).trans hhead
    have hbyte : ¬ ((status.buffer zm zoneId).len ≠ 1 ∨ isWritable status.flags = false) := by
      simp [VirtqDesc.buffer, hone, hwrite]
    simp only [map_cons, map_append, map_nil, iovAt, getD_cons_zero,
      getD_cons_succ, drop_one, tail_cons, getD_map_concat, take_map_concat]
    rw [if_neg (Bool.eq_false_iff.mp hread), if_neg (not_not.mpr hbuf), if_neg hbyte,
      if_neg hconflict]
    exact ⟨_, rfl, rfl, rfl, rfl⟩

section

variable {fuel : ℕ} {heap : BlkHeap} (hsize : vq.ValidSize) (hfull : virtqueueIsEmpty vq = false)
  (hacc : Acceptable zm mem vq = true)

include hsize hfull hacc

/-- A block request is not turned into a null pointer. -/
theorem virtqBlkHandleOneRequest_accepts {r : Option BlkpReq}
    (h : virtqBlkHandleOneRequest zm mem vq fuel heap = some r) :
    ∃ breq, r = some breq ∧ breq.idx = vq.head ∧ breq.faults zm = false := by
  obtain ⟨leaves, hleaves, hreq⟩ := (Option.any_eq_true _ _).mp hacc
  obtain ⟨hreq, hmapped⟩ := (Bool.and_eq_true _ _).mp hreq
  obtain ⟨hret, hr⟩ := ite_none_right_eq_some.mp h
  have hle := hsize.le
  obtain ⟨hlen, hrec⟩ := processDescriptorChain_eq zm mem vq hleaves hfull (by omega) hret
  rw [Chain.iov_eq zm vq hlen hrec, Chain.flags_eq zm vq hlen hrec, hlen] at hr
  obtain ⟨breq, hbreq, hidx, hiov, htype⟩ := blkpReqOf_of_isBlkRequest hreq vq.head
  refine ⟨breq, (some.inj hr).symm.trans hbreq, hidx, ?_⟩
  simp only [isMapped, Bool.and_eq_true, Bool.not_eq_true', ← hiov] at hmapped
  rw [← hiov] at htype
  rw [← htype] at hmapped
  exact hmapped.2

/-- The walk over it and its header stay in mapped memory. -/
theorem chainFaults_of_acceptable : chainFaults zm mem vq fuel heap = false := by
  obtain ⟨leaves, hleaves, hreq⟩ := (Option.any_eq_true _ _).mp hacc
  obtain ⟨-, hmapped⟩ := (Bool.and_eq_true _ _).mp hreq
  have hsome : (chainLeaves zm mem vq).isSome := isSome_iff_exists.mpr ⟨leaves, hleaves⟩
  have hle := hsize.le
  have hcrash := processDescriptorChain_ne_crashed zm mem vq hsome hfull (by omega) fuel
  simp only [chainFaults, Bool.or_eq_false_iff, beq_eq_false_iff_ne, Bool.and_eq_false_imp,
    beq_iff_eq]
  refine ⟨hcrash, fun hret => ?_⟩
  obtain ⟨hlen, hrec⟩ := processDescriptorChain_eq zm mem vq hleaves hfull (by omega) hret
  rw [Chain.iov_eq zm vq hlen hrec]
  simp only [headerFaults, (Bool.and_eq_true _ _ |>.mp hmapped).1, Bool.not_true, Bool.and_false]

/-- Nor does the walk over it hang. -/
theorem virtqBlkHandleOneRequest_returns (heap : BlkHeap) :
    ∃ fuel r, virtqBlkHandleOneRequest zm mem vq fuel heap = some r := by
  have hsome : (chainLeaves zm mem vq).isSome := isSome_of_any hacc
  have hle := hsize.le
  obtain ⟨fuel, hret⟩ := processDescriptorChain_returns zm mem vq hsome hfull (by omega)
  exact ⟨fuel, _, if_pos hret⟩

end

end

/-! ## The requests on their way -/

/-- The request the worker is about to process. -/
def BlkWorkerPc.held : BlkWorkerPc → List BlkpReq
  | .process req => [req]
  | _ => []

/-- The requests in the handler's list. -/
def BlkHandlerPc.held : BlkHandlerPc → List BlkpReq
  | .outer procq | .disable procq | .inner procq | .handle procq | .enable procq
  | .concat procq => procq
  | .idle | .closed => []

/-- The requests that exist, oldest first. -/
def BlkState.inFlight (s : BlkState) : List BlkpReq :=
  s.worker.held ++ s.procq ++ s.handler.held

/-- The worker has found no request and has not been signalled since. -/
def BlkWorkerPc.Parked (pc : BlkWorkerPc) : Prop := pc = .wait false ∨ pc = .exited

/-- Nothing is left to do. -/
structure BlkState.Drained (s : BlkState) : Prop where
  handler : s.handler = .idle ∨ s.handler = .closed
  worker : s.worker.Parked
  procq : s.procq = []

/-- The consumed chains are accounted for and in mapped memory, a handler that has found the queue
non-empty will find a chain there, and the worker does not sleep over a request. -/
structure BlkInv (zm : ZoneMem) (s : BlkState) : Prop where
  running : s.crashed = false
  mapped : ∀ req ∈ s.inFlight, req.faults zm = false
  queue : QueueInv s.vq s.published s.put (s.inFlight.map BlkpReq.idx)
  nonempty : ∀ procq, s.handler = .handle procq → virtqueueIsEmpty s.vq = false
  parked : s.worker.Parked → s.procq = []
  closed : s.close = true → s.handler = .closed
  exited : s.worker = .exited → s.close = true

section Steps

variable {zm : ZoneMem} {s s' : BlkState} {pc : BlkWorkerPc}

theorem BlkState.Initial.blkInv (zm : ZoneMem) (h : s.Initial) : BlkInv zm s where
  running := h.crashed
  mapped req hreq := by
    rw [inFlight, h.worker, h.handler, h.procq] at hreq
    cases hreq
  queue := by
    rw [inFlight, h.worker, h.handler, h.procq, h.published, h.put]
    exact QueueInv.initial h.size h.availIdx h.lastAvailIdx h.usedIdx
  nonempty procq hpc := by cases h.handler.symm.trans hpc
  parked _ := h.procq
  closed hclose := by cases h.close.symm.trans hclose
  exited hpc := by cases h.worker.symm.trans hpc

/-- The main thread goes on in the handler without moving a request. -/
theorem BlkInv.handlerMove (h : BlkInv zm s) {vq : VirtQueue} {pc : BlkHandlerPc}
    (hvq : vq.SameRings s.vq) (hheld : pc.held = s.handler.held) (hopen : s.handler ≠ .closed)
    (hhandle : ∀ procq, pc = .handle procq → virtqueueIsEmpty s.vq = false) :
    BlkInv zm { s with vq, handler := pc } where
  __ := h
  mapped := by
    show ∀ req ∈ s.worker.held ++ s.procq ++ pc.held, _
    rw [hheld]
    exact h.mapped
  queue := by
    show QueueInv vq s.published s.put ((s.worker.held ++ s.procq ++ pc.held).map BlkpReq.idx)
    rw [hheld]
    exact h.queue.congr hvq
  nonempty procq hpc := hvq.isEmpty.trans (hhandle procq hpc)
  closed hclose := absurd (h.closed hclose) hopen

/-- The worker goes on without moving a request. -/
theorem BlkInv.workerMove (h : BlkInv zm s) (hheld : pc.held = s.worker.held)
    (hparked : pc.Parked → s.procq = []) (hexited : pc = .exited → s.close = true) :
    BlkInv zm { s with worker := pc } where
  __ := h
  mapped := by
    show ∀ req ∈ pc.held ++ s.procq ++ s.handler.held, _
    rw [hheld]
    exact h.mapped
  queue := by
    show QueueInv s.vq s.published s.put ((pc.held ++ s.procq ++ s.handler.held).map BlkpReq.idx)
    rw [hheld]
    exact h.queue
  parked := hparked
  exited := hexited

theorem BlkInv.publish (h : BlkInv zm s)
    (hfree : s.published.length < s.put.length + s.vq.num.toNat) (head : UInt16) :
    BlkInv zm { s with vq := s.vq.publish head, published := s.published ++ [head] } where
  __ := h
  queue := h.queue.publish hfree head
  nonempty procq hpc := by
    refine Bool.eq_false_iff.mpr fun hempty => ?_
    -- one chain more than before can not be as many as have been consumed
    have hlen := (h.queue.publish hfree head).isEmpty_iff.mp hempty
    have hle := h.queue.avail.le_length
    have hmore : (s.published ++ [head]).length = s.published.length + 1 := length_append
    omega

variable {procq : List BlkpReq} {breq : BlkpReq}

theorem BlkInv.consume (h : BlkInv zm s) (hpc : s.handler = .handle procq)
    (hidx : breq.idx = s.vq.head) (hmapped : breq.faults zm = false) :
    BlkInv zm { s with vq := s.vq.consume, handler := .inner (procq ++ [breq]) } where
  __ := h
  mapped := by
    have hall := h.mapped
    rw [inFlight, hpc] at hall
    show ∀ req ∈ s.worker.held ++ s.procq ++ (procq ++ [breq]), _
    intro req hreq
    rw [← append_assoc, mem_append, mem_singleton] at hreq
    rcases hreq with hreq | rfl
    · exact hall req hreq
    · exact hmapped
  queue := by
    have hqueue := h.queue.consume (h.nonempty procq hpc)
    have hflight : (s.worker.held ++ s.procq ++ (procq ++ [breq])).map BlkpReq.idx =
        s.inFlight.map BlkpReq.idx ++ [s.vq.head] := by
      rw [inFlight, hpc, ← hidx]
      simp [BlkHandlerPc.held]
    exact hflight ▸ hqueue
  nonempty _ hinner := by cases hinner
  closed hclose := by cases hpc.symm.trans (h.closed hclose)

theorem BlkWorkerPc.held_signal (pc : BlkWorkerPc) : pc.signal.held = pc.held := by
  cases pc <;> rfl

theorem BlkWorkerPc.exited_of_parked_signal (h : pc.signal.Parked) : pc = .exited := by
  cases pc <;> rcases h with h | h <;> cases h
  rfl

section

variable (h : BlkInv zm s)

include h

namespace BlkInv

theorem concat (hpc : s.handler = .concat procq) :
    BlkInv zm { s with
      procq := s.procq ++ procq, worker := s.worker.signal, handler := .idle } := by
  -- the worker has not ended, since the device is open
  have hopen : s.close ≠ true := fun hclose => by cases hpc.symm.trans (h.closed hclose)
  have hnot : ¬ s.worker.signal.Parked := fun hparked =>
    hopen (h.exited (exited_of_parked_signal hparked))
  -- the requests move from one list to the other
  have hflight : inFlight { s with
      procq := s.procq ++ procq, worker := s.worker.signal, handler := .idle } = s.inFlight := by
    simp [inFlight, hpc, BlkWorkerPc.held_signal, BlkHandlerPc.held]
  exact ⟨h.running, hflight ▸ h.mapped, hflight ▸ h.queue, fun _ hidle => (by cases hidle),
    fun hparked => absurd hparked hnot, fun hclose => absurd hclose hopen,
    fun hexited => absurd (.inr hexited) hnot⟩

theorem close (hidle : s.handler = .idle) :
    BlkInv zm { s with close := true, worker := s.worker.signal, handler := .closed } := by
  have hflight : inFlight { s with
      close := true, worker := s.worker.signal, handler := .closed } = s.inFlight := by
    simp [inFlight, hidle, BlkWorkerPc.held_signal, BlkHandlerPc.held]
  exact ⟨h.running, hflight ▸ h.mapped, hflight ▸ h.queue, fun _ hclosed => (by cases hclosed),
    fun hparked => h.parked (.inr (exited_of_parked_signal hparked)), fun _ => rfl, fun _ => rfl⟩

/-- `get_breq` finds a request. -/
theorem take (hpc : s.worker = .get) {rest : List BlkpReq} (hprocq : s.procq = breq :: rest) :
    BlkInv zm { s with procq := rest, worker := .process breq } where
  __ := h
  mapped := by
    have hall := h.mapped
    rw [inFlight, hpc, hprocq] at hall
    exact hall
  queue := by
    have hqueue := h.queue
    rw [inFlight, hpc, hprocq] at hqueue
    exact hqueue
  parked hparked := by rcases hparked with hparked | hparked <;> cases hparked
  exited hexited := by cases hexited

theorem faults_of_process (hpc : s.worker = .process breq) : breq.faults zm = false := by
  have hall := h.mapped
  rw [inFlight, hpc] at hall
  exact hall breq mem_cons_self

/-- The worker puts its request on the used ring. -/
theorem complete (hpc : s.worker = .process breq) (io : IoOutcome) :
    BlkInv zm { s.process breq io with worker := .test } where
  __ := h
  mapped := by
    have hall := h.mapped
    rw [inFlight, hpc] at hall
    exact fun req hreq => hall req (mem_cons_of_mem _ hreq)
  queue := by
    have hqueue := h.queue
    rw [inFlight, hpc] at hqueue
    exact hqueue.complete _
  parked hparked := by rcases hparked with hparked | hparked <;> cases hparked
  exited hexited := by cases hexited

/-! ## The threads -/

theorem handler_step {fuel : ℕ} {heap : BlkHeap} (hok : TakesRequests zm s (.handler fuel heap))
    (hstep : blkHandlerStep zm s fuel heap = some s') : BlkInv zm s' := by
  unfold blkHandlerStep at hstep
  split at hstep
  case h_1 => cases hstep
  case h_2 => cases hstep
  case h_3 procq hpc =>
    -- the outer test
    cases hstep
    refine h.handlerMove (.refl _) ?_ (by simp [hpc]) ?_
    · rw [hpc]
      split_ifs with hempty hnil
      · rw [hnil]
        rfl
      · rfl
      · rfl
    · intro procq' hhandle
      split_ifs at hhandle
  case h_4 procq hpc =>
    -- virtqueue_disable_notify
    cases hstep
    exact h.handlerMove (virtqueueDisableNotify_sameRings _) (by rw [hpc]; rfl) (by simp [hpc])
      fun _ hhandle => (by cases hhandle)
  case h_5 procq hpc =>
    -- the inner test
    cases hstep
    refine h.handlerMove (.refl _) ?_ (by simp [hpc]) ?_
    · rw [hpc]
      split_ifs <;> rfl
    · intro procq' hhandle
      split_ifs at hhandle with hempty
      exact Bool.eq_false_iff.mpr hempty
  case h_6 procq hpc =>
    -- virtq_blk_handle_one_request and TAILQ_INSERT_TAIL
    simp only [TakesRequests, hpc] at hok
    rw [if_neg (by simp [chainFaults_of_acceptable h.queue.size (h.nonempty procq hpc) hok])]
      at hstep
    obtain ⟨r, hr, rfl⟩ := map_eq_some_iff.mp hstep
    obtain ⟨breq, rfl, hidx, hmapped⟩ := virtqBlkHandleOneRequest_accepts h.queue.size
      (h.nonempty procq hpc) hok hr
    exact h.consume hpc hidx hmapped
  case h_7 procq hpc =>
    -- virtqueue_enable_notify
    cases hstep
    exact h.handlerMove (virtqueueEnableNotify_sameRings _) (by rw [hpc]; rfl) (by simp [hpc])
      fun _ hhandle => (by cases hhandle)
  case h_8 procq hpc =>
    -- TAILQ_CONCAT and pthread_cond_signal
    obtain ⟨-, hs⟩ := ite_none_left_eq_some.mp hstep
    exact some.inj hs ▸ h.concat hpc

theorem worker_step {io : IoOutcome} {spurious : Bool}
    (hstep : blkWorkerStep zm s io spurious = some s') : BlkInv zm s' := by
  have hnot {pc : BlkWorkerPc} (hwait : pc ≠ .wait false) (hexited : pc ≠ .exited)
      {p : Prop} (hparked : pc.Parked) : p := absurd hparked (not_or.mpr ⟨hwait, hexited⟩)
  unfold blkWorkerStep at hstep
  split at hstep
  case h_1 hpc | h_5 hpc =>
    cases hstep
    exact h.workerMove (by rw [hpc]; rfl) (hnot (by simp) (by simp)) (by simp)
  case h_2 hpc =>
    split at hstep
    · next breq rest hprocq =>
      cases hstep
      exact h.take hpc hprocq
    rename_i hprocq
    -- no request: the worker ends or waits
    cases hstep
    refine h.workerMove ?_ (fun _ => hprocq) ?_
    · rw [hpc]
      split <;> rfl
    · intro hexited
      split_ifs at hexited with hclose
      exact hclose
  case h_3 breq hpc =>
    rw [if_neg (by simp [h.faults_of_process hpc])] at hstep
    cases hstep
    exact h.complete hpc io
  case h_4 hpc =>
    cases hstep
    refine h.workerMove ?_ ?_ ?_
    · rw [hpc]
      split <;> rfl
    · split <;> exact hnot (by simp) (by simp)
    · split <;> simp
  case h_6 lastUsedIdx idx hpc =>
    -- virtio_inject_irq moves no chain
    cases hstep
    have hqueue : BlkInv zm (s.inject lastUsedIdx idx) :=
      ⟨h.running, h.mapped, h.queue.congr (virtioInjectIrq_sameRings s.vq lastUsedIdx idx),
        h.nonempty, h.parked, h.closed, h.exited⟩
    exact hqueue.workerMove (by simp [inject, hpc, BlkWorkerPc.held])
      (hnot (by simp) (by simp)) (by simp)
  case h_7 signalled hpc =>
    obtain ⟨-, rfl⟩ := ite_some_none_eq_some.mp hstep
    exact h.workerMove (by rw [hpc]; rfl) (hnot (by simp) (by simp)) (by simp)
  case h_8 => cases hstep

theorem step {e : BlkEvent} (hok : TakesRequests zm s e)
    (hstep : blkStep zm s e = some s') : BlkInv zm s' := by
  cases e with
  | publish head =>
    obtain ⟨hfree, hs⟩ := ite_none_right_eq_some.mp hstep
    exact some.inj hs ▸ h.publish hfree head
  | write mem =>
    cases hstep
    exact { h with }
  | notify =>
    obtain ⟨⟨-, hidle⟩, hs⟩ := ite_none_right_eq_some.mp hstep
    cases hs
    exact h.handlerMove (.refl _) (by rw [hidle]; rfl) (by simp [hidle])
      fun _ hhandle => (by cases hhandle)
  | close =>
    obtain ⟨⟨-, hidle, -⟩, hs⟩ := ite_none_right_eq_some.mp hstep
    exact some.inj hs ▸ h.close hidle
  | handler fuel heap => exact h.handler_step hok (ite_none_right_eq_some.mp hstep).2
  | worker io spurious => exact h.worker_step (ite_none_right_eq_some.mp hstep).2

end BlkInv

end

/-! ## Progress -/

/-- A step of the daemon. -/
def daemonStep (_ : BlkState) : BlkEvent → Prop
  | .handler _ _ | .worker _ _ => True
  | _ => False

/-- How many accesses the handler is away from its end if the queue stays empty. -/
def BlkHandlerPc.rank : BlkHandlerPc → ℕ
  | .idle | .closed => 0
  | .concat _ => 4
  | .outer _ => 5
  | .enable _ => 6
  | .inner _ | .handle _ => 7
  | .disable _ => 8

/-- How many accesses the worker is away from its wait if it finds no request. -/
def BlkWorkerPc.rank : BlkWorkerPc → ℕ
  | .wait false | .exited => 0
  | .get => 1
  | .lock | .wait true => 2
  | .injectStore _ _ => 3
  | .injectLoad => 4
  | .test => 5
  | .process _ => 6

/-- A bound on the accesses that are left; each request takes fewer than eight. -/
def BlkState.rank (s : BlkState) : ℕ :=
  s.worker.rank + 8 * (s.procq.length + s.handler.held.length) + s.handler.rank

/-- The daemon has come closer to the end of its work and has not looked for more. -/
structure BlkState.Closer (s s' : BlkState) : Prop where
  published : s'.published = s.published
  empty : virtqueueIsEmpty s'.vq = true
  lt : s'.rank < s.rank

/-- A worker that is not parked goes on. -/
theorem BlkState.worker_closer (hinv : BlkInv zm s) (hempty : virtqueueIsEmpty s.vq = true)
    (h : ¬ s.worker.Parked) :
    ∃ s', blkWorkerStep zm s (.moved 0) false = some s' ∧ s.Closer s' := by
  cases hpc : s.worker with
  | lock | injectLoad =>
    refine ⟨_, by rw [blkWorkerStep, hpc], ?_⟩
    exact ⟨rfl, hempty, by simp [rank, hpc, BlkWorkerPc.rank]⟩
  | get =>
    cases hprocq : s.procq with
    | nil =>
      refine ⟨_, by rw [blkWorkerStep, hpc, hprocq], ?_⟩
      exact ⟨rfl, hempty, by simp only [rank, hpc]; split <;> simp [hprocq, BlkWorkerPc.rank]⟩
    | cons breq rest =>
      refine ⟨_, by rw [blkWorkerStep, hpc, hprocq], ?_⟩
      exact ⟨rfl, hempty, by simp [rank, hpc, hprocq, BlkWorkerPc.rank]; omega⟩
  | process breq =>
    have hfaults := hinv.faults_of_process hpc
    refine ⟨_, by rw [blkWorkerStep, hpc]; exact if_neg (by simp [hfaults]), ?_⟩
    exact ⟨rfl, hempty, by simp [rank, process, hpc, BlkWorkerPc.rank]⟩
  | test =>
    refine ⟨_, by rw [blkWorkerStep, hpc], ?_⟩
    exact ⟨rfl, hempty, by simp only [rank, hpc]; split <;> simp [BlkWorkerPc.rank]⟩
  | injectStore lastUsedIdx idx =>
    refine ⟨_, by rw [blkWorkerStep, hpc], ?_⟩
    exact ⟨rfl, hempty, by simp [rank, inject, hpc, BlkWorkerPc.rank]⟩
  | wait signalled =>
    cases signalled with
    | false => exact absurd (.inl hpc) h
    | true =>
      refine ⟨_, by rw [blkWorkerStep, hpc]; exact if_pos (.inl rfl), ?_⟩
      exact ⟨rfl, hempty, by simp [rank, hpc, BlkWorkerPc.rank]⟩
  | exited => exact absurd (.inr hpc) h

/-- While the worker is parked, a handler that has found the queue empty goes on. -/
theorem BlkState.handler_closer (zm : ZoneMem) (heap : BlkHeap)
    (hempty : virtqueueIsEmpty s.vq = true) (hparked : s.worker.Parked) (hidle : s.handler ≠ .idle)
    (hclosed : s.handler ≠ .closed) (hhandle : ∀ procq, s.handler ≠ .handle procq) :
    ∃ s', blkHandlerStep zm s 0 heap = some s' ∧ s.Closer s' := by
  have hwait : s.worker.rank = 0 ∧ s.worker.signal.rank ≤ 2 ∧ s.worker.locked = false := by
    rcases hparked with hpc | hpc <;> rw [hpc] <;> decide
  cases hpc : s.handler with
  | idle => exact absurd hpc hidle
  | closed => exact absurd hpc hclosed
  | handle procq => exact absurd hpc (hhandle procq)
  | outer procq =>
    refine ⟨_, by rw [blkHandlerStep, hpc], ?_⟩
    refine ⟨rfl, hempty, ?_⟩
    simp only [rank, hpc, hempty, if_true]
    split_ifs with hnil <;> simp [hnil, BlkHandlerPc.rank, BlkHandlerPc.held]
  | disable procq =>
    refine ⟨_, by rw [blkHandlerStep, hpc], ?_⟩
    exact ⟨rfl, (virtqueueDisableNotify_sameRings s.vq).isEmpty.trans hempty,
      by simp [rank, hpc, BlkHandlerPc.rank, BlkHandlerPc.held]⟩
  | inner procq =>
    refine ⟨_, by rw [blkHandlerStep, hpc], ?_⟩
    exact ⟨rfl, hempty, by simp [rank, hpc, hempty, BlkHandlerPc.rank, BlkHandlerPc.held]⟩
  | enable procq =>
    refine ⟨_, by rw [blkHandlerStep, hpc], ?_⟩
    exact ⟨rfl, (virtqueueEnableNotify_sameRings s.vq).isEmpty.trans hempty,
      by simp [rank, hpc, BlkHandlerPc.rank, BlkHandlerPc.held]⟩
  | concat procq =>
    refine ⟨_, by rw [blkHandlerStep, hpc]; exact if_neg (by simp [hwait.2.2]), ?_⟩
    refine ⟨rfl, hempty, ?_⟩
    simp only [rank, hpc, BlkHandlerPc.rank, BlkHandlerPc.held, length_append, length_nil]
    omega

/-- As long as something is left to do, one of the threads goes on. -/
theorem BlkInv.progress (h : BlkInv zm s) (hempty : virtqueueIsEmpty s.vq = true)
    (hleft : ¬ s.Drained) :
    ∃ e s', daemonStep s e ∧ TakesRequests zm s e ∧ blkStep zm s e = some s' ∧ s.Closer s' := by
  by_cases hparked : s.worker.Parked
  · have hidle : s.handler ≠ .idle := fun hpc => hleft ⟨.inl hpc, hparked, h.parked hparked⟩
    have hclosed : s.handler ≠ .closed := fun hpc => hleft ⟨.inr hpc, hparked, h.parked hparked⟩
    have hhandle : ∀ procq, s.handler ≠ .handle procq := fun procq hpc => by
      cases hempty.symm.trans (h.nonempty procq hpc)
    let heap : BlkHeap := ⟨fun _ => ⟨0, 0⟩, fun _ => 0⟩
    obtain ⟨s', hs, hcloser⟩ :=
      handler_closer zm heap hempty hparked hidle hclosed hhandle
    refine ⟨.handler 0 heap, s', trivial, ?_, (if_pos h.running).trans hs, hcloser⟩
    cases hpc : s.handler <;> first | exact absurd hpc (hhandle _) | simp [TakesRequests, hpc]
  · obtain ⟨s', hs, hcloser⟩ := worker_closer h hempty hparked
    exact ⟨.worker (.moved 0) false, s', trivial, rfl, (if_pos h.running).trans hs, hcloser⟩

/-- Once the handler has found the queue empty, the daemon finishes all requests on its own. -/
theorem BlkInv.drains (h : BlkInv zm s) (hempty : virtqueueIsEmpty s.vq = true) :
    ∃ s', Reach (blkStep zm) daemonStep s s' ∧ s'.Drained ∧
      QueueInv s'.vq s.published s.published [] := by
  induction hrank : s.rank using Nat.strong_induction_on generalizing s with
  | _ n ih =>
    by_cases hleft : s.Drained
    · have hflight : s.inFlight = [] := by
        rw [inFlight, hleft.procq]
        rcases hleft.handler with hpc | hpc <;> rcases hleft.worker with hpc' | hpc' <;>
          rw [hpc, hpc'] <;> rfl
      have hqueue := h.queue
      rw [hflight] at hqueue
      refine ⟨s, .refl, hleft, ?_⟩
      rwa [hqueue.put_eq hempty] at hqueue
    · obtain ⟨e, s₁, hdaemon, hok, hs, hcloser⟩ := h.progress hempty hleft
      obtain ⟨s', hrun, hdrained, hqueue⟩ :=
        ih s₁.rank (hrank ▸ hcloser.lt) (h.step hok hs) hcloser.empty rfl
      exact ⟨s', Reach.trans (.tail .refl hdaemon hs) hrun, hdrained, hcloser.published ▸ hqueue⟩

/-- The handler does not hang on a block request. -/
theorem BlkInv.handles (h : BlkInv zm s) (hpc : s.handler = .handle procq)
    (hacc : Acceptable zm s.mem s.vq = true) (heap : BlkHeap) :
    ∃ fuel s', blkStep zm s (.handler fuel heap) = some s' := by
  obtain ⟨fuel, r, hr⟩ :=
    virtqBlkHandleOneRequest_returns h.queue.size (h.nonempty procq hpc) hacc heap
  have hsome : (blkHandlerStep zm s fuel heap).isSome := by
    have hfaults : chainFaults zm s.mem s.vq fuel heap = false :=
      chainFaults_of_acceptable h.queue.size (h.nonempty procq hpc) hacc
    simp [blkHandlerStep, hpc, hr, hfaults]
  obtain ⟨s', hs⟩ := isSome_iff_exists.mp hsome
  exact ⟨fuel, s', (if_pos h.running).trans hs⟩

end Steps

/-! ## Completion -/

/-- The daemon runs; the chains it has consumed are those on the used ring and those it still holds,
each once and in order; it does not hang on a block request; and when there is no further chain, its
threads come to a state in which every published chain is on the used ring. -/
structure RequestsCompleted (zm : ZoneMem) (s : BlkState) : Prop where
  running : s.crashed = false
  accounted : QueueInv s.vq s.published s.put (s.inFlight.map BlkpReq.idx)
  handles : ∀ procq, s.handler = .handle procq → Acceptable zm s.mem s.vq = true →
    ∀ heap, ∃ fuel s', blkStep zm s (.handler fuel heap) = some s'
  completes : virtqueueIsEmpty s.vq = true → ∃ s', Reach (blkStep zm) daemonStep s s' ∧
    s'.Drained ∧ QueueInv s'.vq s.published s.published []

/-- **Every block request is completed exactly once**, in every run in which the handler only meets
block requests. -/
theorem blk_requests_completed_once (zm : ZoneMem) {s₀ s : BlkState} (hinit : s₀.Initial)
    (hrun : Reach (blkStep zm) (TakesRequests zm) s₀ s) : RequestsCompleted zm s := by
  have h : BlkInv zm s := hrun.invariant (BlkInv zm) (hinit.blkInv zm)
    fun _ _ _ h hok hstep => h.step hok hstep
  exact ⟨h.running, h.queue, fun _ => h.handles, h.drains⟩

/-- A read request is accepted, and the worker puts its chain on the used ring. -/
theorem blk_requests_completed_once_sample :
    ∃ s, run (blkStep samplePage) (TakesRequests samplePage) sampleBlkState oneBlkRequest =
      some s ∧ s.published = [0] ∧ RequestsCompleted samplePage s := by
  have hrun : (run (blkStep samplePage) (TakesRequests samplePage) sampleBlkState
      oneBlkRequest).map (·.published) = some [0] := by decide +kernel
  obtain ⟨s, hs, hpub⟩ := map_eq_some_iff.mp hrun
  exact ⟨s, hs, hpub,
    blk_requests_completed_once samplePage sampleBlkState_initial (reach_of_run hs)⟩

/-- A chain of one descriptor ends the daemon. -/
theorem blk_malformed_crashes :
    ∃ s, Reach (blkStep samplePage) anyStep sampleBlkState s ∧ s.published = [3] ∧
      s.crashed = true ∧ s.put = [] ∧ virtqueueIsEmpty s.vq = true := by
  have hrun : (run (blkStep samplePage) anyStep sampleBlkState (sampleBlkNotify 3)).map
      (fun s => (s.published, s.crashed, s.put, virtqueueIsEmpty s.vq)) =
        some ([3], true, [], true) := by decide +kernel
  obtain ⟨s, hs, hvalues⟩ := exists_of_run hrun
  simp only [Prod.mk.injEq] at hvalues
  exact ⟨s, hs, hvalues⟩

end HvisorRux.Tool
