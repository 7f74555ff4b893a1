import HvisorRux.Tool.Gpu.Worker
import HvisorRux.Tool.QueueCompletion

/-!
# Every request is completed once

A chain the driver publishes is consumed by a notify handler, becomes a command, waits in the
command queue, is processed by the worker and put on the used ring of its queue. The invariant is
that the chains of a queue that have been put there, followed by those still on their way, are the
beginning of what the driver has published. The daemon breaks it for requests that are too short for
the command header, which are dropped without an answer, as are indirect descriptors with an empty
table. The handler of the cursor queue does not signal the worker, so that its commands may stay in
the command queue. And the daemon ends when it touches memory that is not mapped.
-/

namespace HvisorRux.Tool

open Common List Option GpuState GpuState

/-! ## The requests on their way -/

/-- The command the worker is about to process. -/
def WorkerPc.held : WorkerPc → List GPUCommand
  | .process gcmd => [gcmd]
  | _ => []

/-- The command the main thread is about to append. -/
def GpuHandlerPc.held : GpuHandlerPc → List GPUCommand
  | .append gcmd => [gcmd]
  | _ => []

/-- The commands that exist, oldest first. -/
def GpuState.inFlight (s : GpuState) : List GPUCommand :=
  s.worker.held ++ s.commandQueue ++ s.handler.held

/-- The chain heads of the commands that came from queue `q`. -/
def pendingOf (q : GpuQueue) (gcmds : List GPUCommand) : List UInt16 :=
  (gcmds.filter (·.fromQueue = q)).map GPUCommand.respIdx

theorem pendingOf_self (gcmd : GPUCommand) (gcmds : List GPUCommand) :
    pendingOf gcmd.fromQueue (gcmd :: gcmds) = gcmd.respIdx :: pendingOf gcmd.fromQueue gcmds := by
  simp [pendingOf]

theorem pendingOf_of_ne {q : GpuQueue} {gcmd : GPUCommand} (h : q ≠ gcmd.fromQueue)
    (gcmds : List GPUCommand) : pendingOf q (gcmd :: gcmds) = pendingOf q gcmds := by
  simp [pendingOf, h.symm]

/-- The threads have nothing to do: no handler is running, the worker waits and nobody has signalled
it, and there is no available chain. -/
structure GpuState.Drained (s : GpuState) : Prop where
  handler : s.handler = .idle
  worker : s.worker = .wait false
  queues : ∀ q, virtqueueIsEmpty (s.vqs q) = true

/-- The chains published on `q` have been put on its used ring, once and in order, and nothing else
has: `idx` counts them and the ring holds the latest `num` of them. -/
structure CompletedOnce (s : GpuState) (q : GpuQueue) : Prop where
  put : s.put q = s.published q
  usedIdx : (s.vqs q).usedRing.idx = UInt16.ofNat (s.published q).length
  usedRing : Ring.Holds (fun k => ((s.vqs q).usedRing.ring k).id) (s.vqs q).num.toNat
    ((s.published q).map UInt16.toUInt32) ((s.published q).length - (s.vqs q).num.toNat)

/-- The chain has leaves, and their buffers can hold the command header. -/
def Answerable (zm : ZoneMem) (mem : HostMem) (vq : VirtQueue) : Bool :=
  (chainLeaves zm mem vq).any fun leaves => 24 ≤ (leaves.map fun vd => vd.len.toNat).sum

/-- There is no command for a worker that waits for a signal, or a chain will bring another
handler. -/
def GpuState.Awake (s : GpuState) : Prop :=
  s.worker = .wait false → s.commandQueue = [] ∨ ∃ q, virtqueueIsEmpty (s.vqs q) = false

instance (s : GpuState) : Decidable s.Awake :=
  decidable_of_iff (s.worker = .wait false → s.commandQueue = [] ∨
    virtqueueIsEmpty (s.vqs .control) = false ∨ virtqueueIsEmpty (s.vqs .cursor) = false) (by
      refine imp_congr_right fun _ => or_congr_right ⟨?_, ?_⟩
      · exact fun h => h.elim (⟨_, ·⟩) (⟨_, ·⟩)
      · rintro ⟨q, hq⟩
        cases q with
        | control => exact .inl hq
        | cursor => exact .inr hq)

/-- The chain that the handler turns into a command is answerable, and the handler of the cursor
queue leaves no command to a worker that waits for a signal. -/
def HandlerServiceable (zm : ZoneMem) (s : GpuState) : GpuHandlerPc → Prop
  | .handle q => Answerable zm s.mem (s.vqs q) = true
  | .injectStore _ _ => s.Awake
  | _ => True

/-- The worker touches mapped memory only, and a freed command still holds the number of a queue. -/
def WorkerServiceable (zm : ZoneMem) (s : GpuState) (drm : DrmEnv) (reallocOk : ℕ → Bool)
    (freed : Option GpuQueue) : WorkerPc → Prop
  | .process gcmd => s.faults zm gcmd drm reallocOk = false
  | .kickLoad .idle => freed.isSome = true
  | _ => True

/-- The side condition of the steps of the device. -/
def Serviceable (zm : ZoneMem) (s : GpuState) : GpuEvent → Prop
  | .handler _ _ => HandlerServiceable zm s s.handler
  | .worker drm reallocOk freed => WorkerServiceable zm s drm reallocOk freed s.worker
  | _ => True

section

variable (zm : ZoneMem) (s : GpuState) (drm : DrmEnv) (reallocOk : ℕ → Bool)
  (freed : Option GpuQueue)

instance (pc : GpuHandlerPc) : Decidable (HandlerServiceable zm s pc) :=
  match pc with
  | .handle q => inferInstanceAs (Decidable (Answerable zm s.mem (s.vqs q) = true))
  | .injectStore _ _ => inferInstanceAs (Decidable s.Awake)
  | .idle | .disable _ | .test _ | .append _ | .signal | .enable _ | .injectLoad => isTrue trivial

instance (pc : WorkerPc) : Decidable (WorkerServiceable zm s drm reallocOk freed pc) :=
  match pc with
  | .process gcmd => inferInstanceAs (Decidable (s.faults zm gcmd drm reallocOk = false))
  | .kickLoad .idle => inferInstanceAs (Decidable (freed.isSome = true))
  | .test | .count | .kickLoad .limit | .kickStore .. | .relock | .wait _ => isTrue trivial

instance (e : GpuEvent) : Decidable (Serviceable zm s e) :=
  match e with
  | .handler _ _ => inferInstanceAs (Decidable (HandlerServiceable zm s s.handler))
  | .worker drm reallocOk freed =>
    inferInstanceAs (Decidable (WorkerServiceable zm s drm reallocOk freed s.worker))
  | .publish _ _ | .write _ | .notify _ => isTrue trivial

end

/-- The daemon runs, the chains of both queues are accounted for, the commands are long enough to be
answered, and a handler that has found its queue non-empty will find a chain there. -/
structure CompletionInv (s : GpuState) : Prop where
  running : s.crashed = false
  queue : ∀ q, QueueInv (s.vqs q) (s.published q) (s.put q) (pendingOf q s.inFlight)
  header : ∀ gcmd ∈ s.inFlight, 24 ≤ iovSize gcmd.respIov
  nonempty : ∀ q, s.handler = .handle q → virtqueueIsEmpty (s.vqs q) = false

section Steps

variable {zm : ZoneMem} {s s' : GpuState} {q : GpuQueue} {gcmd : GPUCommand} {heap : ℕ → Iovec}

theorem CompletionInv.completedOnce (h : CompletionInv s) (hdrained : s.Drained)
    (hcommands : s.commandQueue = []) (q : GpuQueue) : CompletedOnce s q := by
  have hq := h.queue q
  have hflight : s.inFlight = [] := by
    rw [inFlight, hdrained.handler, hdrained.worker, hcommands]
    rfl
  rw [hflight] at hq
  have hput := hq.put_eq (hdrained.queues q)
  exact ⟨hput, hput ▸ hq.usedIdx, hput ▸ hq.used⟩

theorem GpuState.Initial.completionInv (h : s.Initial) : CompletionInv s := by
  have hflight : s.inFlight = [] := by
    rw [inFlight, h.handler, h.worker, h.commandQueue]
    rfl
  refine ⟨h.crashed, ?_, ?_, ?_⟩
  · intro q
    obtain ⟨havail, hlast, hused, -⟩ := h.indices q
    rw [hflight, h.published, h.put]
    exact QueueInv.initial (h.size q) havail hlast hused
  · intro gcmd hmem
    rw [hflight] at hmem
    cases hmem
  · intro q hq
    cases h.handler.symm.trans hq

/-- Steps that move no request. -/
theorem CompletionInv.frame (h : CompletionInv s) (hrunning : s'.crashed = s.crashed)
    (hvqs : ∀ q, (s'.vqs q).SameRings (s.vqs q))
    (hpub : s'.published = s.published) (hput : s'.put = s.put) (hflight : s'.inFlight = s.inFlight)
    (hhandle : ∀ q, s'.handler = .handle q → virtqueueIsEmpty (s.vqs q) = false) :
    CompletionInv s' where
  running := hrunning.trans h.running
  queue q := by
    rw [hpub, hput, hflight]
    exact (h.queue q).congr (hvqs q)
  header := hflight ▸ h.header
  nonempty q hq := (hvqs q).isEmpty.trans (hhandle q hq)

theorem GpuState.inFlight_congr (hworker : s'.worker.held = s.worker.held)
    (hqueue : s'.commandQueue = s.commandQueue) (hhandler : s'.handler.held = s.handler.held) :
    s'.inFlight = s.inFlight := by
  rw [inFlight, inFlight, hworker, hqueue, hhandler]

/-! ## Steps that move a request -/

theorem CompletionInv.publish_nonempty (h : CompletionInv s)
    (hfree : (s.published q).length < (s.put q).length + (s.vqs q).num.toNat) (head : UInt16) :
    virtqueueIsEmpty ((s.vqs q).publish head) = false := by
  rw [Bool.eq_false_iff]
  intro hempty
  -- one chain more than before can not be as many as have been consumed
  have hle := (h.queue q).avail.le_length
  have hlen := ((h.queue q).publish hfree head).isEmpty_iff.mp hempty
  simp only [length_append, length_singleton] at hlen hle
  omega

theorem CompletionInv.publish (h : CompletionInv s)
    (hfree : (s.published q).length < (s.put q).length + (s.vqs q).num.toNat) (head : UInt16) :
    CompletionInv { s.setVq q ((s.vqs q).publish head) with
      published := Function.update s.published q (s.published q ++ [head]) } := by
  have hpublished := (h.queue q).publish hfree head
  refine ⟨h.running, ?_, h.header, ?_⟩
  · intro q'
    show QueueInv _ _ _ (pendingOf q' s.inFlight)
    by_cases hq : q' = q
    · subst hq
      simpa [setVq] using hpublished
    · simpa [setVq, hq] using h.queue q'
  · intro q' hq'
    by_cases hq : q' = q
    · subst hq
      simpa [setVq] using h.publish_nonempty hfree head
    · simpa [setVq, hq] using h.nonempty q' hq'

theorem CompletionInv.consume (h : CompletionInv s) (hhandler : s.handler = .handle q)
    {iov : List Iovec} (hiov : 24 ≤ iovSize iov) :
    CompletionInv { s.setVq q (s.vqs q).consume with
      handler := .append ⟨iov, (s.vqs q).head, q⟩ } := by
  have hflight : inFlight { s.setVq q (s.vqs q).consume with
      handler := .append ⟨iov, (s.vqs q).head, q⟩ } = s.inFlight ++ [⟨iov, (s.vqs q).head, q⟩] := by
    simp [inFlight, setVq, GpuHandlerPc.held, hhandler]
  refine ⟨h.running, fun q' => ?_, fun gcmd hmem => ?_, fun q' hq' => by cases hq'⟩
  · rw [hflight]
    by_cases hq : q' = q
    · subst hq
      simpa [setVq, pendingOf] using (h.queue q').consume (h.nonempty q' hhandler)
    · simpa [setVq, hq, pendingOf, Ne.symm hq] using h.queue q'
  · rw [hflight, mem_append, mem_singleton] at hmem
    rcases hmem with hmem | rfl
    · exact h.header gcmd hmem
    · exact hiov

/-- A request that reaches the header is answered. -/
theorem virtioGpuSimpleProcessCmd_answers (env : GpuEnv) (gdev : GPUDev)
    (h : 24 ≤ iovSize gcmd.respIov) :
    ∃ resp, (virtioGpuSimpleProcessCmd env gdev gcmd).2 = some resp := by
  have hcmd : commandOf env.mem gcmd ≠ none := by
    rw [commandOf, fillCmd_eq, if_pos h]
    exact some_ne_none _
  unfold virtioGpuSimpleProcessCmd
  split
  case h_1 hnone => exact absurd hnone hcmd
  case h_2 => exact ⟨_, rfl⟩
  case h_3 => exact ⟨_, rfl⟩
  case h_4 => exact ⟨_, rfl⟩

/-- The effect of processing an answerable command. -/
theorem GpuState.process_eq (zm : ZoneMem) (s : GpuState) (h : 24 ≤ iovSize gcmd.respIov)
    (drm : DrmEnv) (reallocOk : ℕ → Bool) :
    ∃ mem gdev iolen, s.process zm gcmd drm reallocOk = { s.setVq gcmd.fromQueue
          (updateUsedRing (s.vqs gcmd.fromQueue) gcmd.respIdx iolen) with
        mem
        gdev
        put := Function.update s.put gcmd.fromQueue (s.put gcmd.fromQueue ++ [gcmd.respIdx])
        unannounced := Function.update s.unannounced gcmd.fromQueue true } := by
  unfold process
  obtain ⟨resp, hresp⟩ := virtioGpuSimpleProcessCmd_answers
    ⟨s.mem, zm, (s.vqs gcmd.fromQueue).zoneId, drm, reallocOk⟩ s.gdev h
  dsimp only
  split
  · next hnone =>
    rw [hnone] at hresp
    cases hresp
  · exact ⟨_, _, _, rfl⟩

theorem CompletionInv.complete (h : CompletionInv s) (hworker : s.worker = .process gcmd)
    (drm : DrmEnv) (reallocOk : ℕ → Bool) :
    CompletionInv { s.process zm gcmd drm reallocOk with worker := .count } := by
  have hflight : s.inFlight = gcmd :: (s.commandQueue ++ s.handler.held) := by
    rw [inFlight, hworker]
    rfl
  have hqueue := hflight ▸ h.queue
  obtain ⟨mem, gdev, iolen, heq⟩ := s.process_eq zm
    (h.header gcmd (hflight ▸ mem_cons_self)) drm reallocOk
  rw [heq]
  refine ⟨h.running, ?_, fun gcmd' hmem => h.header gcmd' ?_, ?_⟩
  · intro q
    show QueueInv _ _ _ (pendingOf q (s.commandQueue ++ s.handler.held))
    by_cases hq : q = gcmd.fromQueue
    · subst hq
      have hdone := hqueue gcmd.fromQueue
      rw [pendingOf_self] at hdone
      simpa [setVq] using hdone.complete iolen
    · have hsame := hqueue q
      rw [pendingOf_of_ne hq] at hsame
      simpa [setVq, hq] using hsame
  · exact hflight ▸ mem_cons_of_mem gcmd hmem
  · intro q hq
    by_cases hq' : q = gcmd.fromQueue
    · subst hq'
      simpa [setVq, updateUsedRing, virtqueueIsEmpty] using h.nonempty gcmd.fromQueue hq
    · simpa [setVq, hq'] using h.nonempty q hq

/-! ## The threads -/

/-- For an answerable chain `virtio_gpu_handle_single_request` builds a command that can be
answered. -/
theorem virtioGpuHandleSingleRequest_answerable {mem : HostMem} {vq : VirtQueue} {fuel : ℕ}
    {gcmd : Option GPUCommand} (hsize : vq.ValidSize)
    (hfull : virtqueueIsEmpty vq = false) (hans : Answerable zm mem vq = true)
    (h : virtioGpuHandleSingleRequest zm mem vq q fuel heap = some gcmd) :
    ∃ iov, 24 ≤ iovSize iov ∧ gcmd = some ⟨iov, vq.head, q⟩ := by
  obtain ⟨leaves, hleaves, hlong⟩ := (Option.any_eq_true _ _).mp hans
  obtain ⟨hret, hgcmd⟩ := ite_none_right_eq_some.mp h
  have hle := hsize.le
  obtain ⟨hlen, hrec⟩ :=
    processDescriptorChain_eq zm mem vq hleaves hfull (by omega) hret
  have hlong : 24 ≤ (leaves.map fun vd => vd.len.toNat).sum := of_decide_eq_true hlong
  have hpos : leaves.length ≠ 0 := fun hzero => by
    rw [length_eq_zero_iff.mp hzero] at hlong
    exact absurd hlong (by decide)
  rw [if_neg (by rw [hlen]; omega)] at hgcmd
  refine ⟨_, ?_, (some.inj hgcmd).symm⟩
  rw [Chain.iov_eq zm vq hlen hrec, iovSize, List.map_map]
  exact hlong

theorem CompletionInv.handler_step (h : CompletionInv s) {fuel : ℕ}
    (hok : Serviceable zm s (.handler fuel heap))
    (hstep : gpuHandlerStep zm s fuel heap = some s') : CompletionInv s' := by
  unfold gpuHandlerStep at hstep
  split at hstep
  case h_1 => cases hstep
  case h_2 q hpc =>
    -- virtqueue_disable_notify
    cases hstep
    exact h.frame rfl (setVq_rel .refl (virtqueueDisableNotify_sameRings _)) rfl rfl
      (inFlight_congr rfl rfl (by rw [hpc]; rfl)) fun _ hq => by cases hq
  case h_3 q hpc =>
    -- virtqueue_is_empty
    cases hstep
    refine h.frame rfl (fun q => .refl _) rfl rfl (inFlight_congr rfl rfl ?_) ?_
    · rw [hpc]
      split
      · cases q <;> rfl
      · rfl
    · intro q' hq'
      split at hq'
      · cases q <;> cases hq'
      · next hfull => exact GpuHandlerPc.handle.inj hq' ▸ Bool.eq_false_iff.mpr hfull
  case h_4 q hpc =>
    -- virtio_gpu_handle_single_request
    simp only [Serviceable, HandlerServiceable, hpc] at hok
    have hleaves := isSome_of_any hok
    have hle := (h.queue q).size.le
    rw [if_neg (processDescriptorChain_ne_crashed zm s.mem (s.vqs q) hleaves (h.nonempty q hpc)
      (by omega) fuel)] at hstep
    obtain ⟨gcmd, hgcmd, rfl⟩ := map_eq_some_iff.mp hstep
    obtain ⟨iov, hiov, rfl⟩ := virtioGpuHandleSingleRequest_answerable (h.queue q).size
      (h.nonempty q hpc) hok hgcmd
    exact h.consume hpc hiov
  case h_5 gcmd hpc =>
    -- TAILQ_INSERT_TAIL
    obtain ⟨-, hs⟩ := ite_none_left_eq_some.mp hstep
    cases hs
    exact h.frame rfl (fun q => .refl _) rfl rfl
      (by simp [inFlight, GpuHandlerPc.held, hpc]) fun _ hq => by cases hq
  case h_6 hpc =>
    -- pthread_cond_signal
    obtain ⟨-, hs⟩ := ite_none_left_eq_some.mp hstep
    cases hs
    refine h.frame rfl (fun q => .refl _) rfl rfl
      (inFlight_congr ?_ rfl (by rw [hpc]; rfl)) fun _ hq => by cases hq
    obtain hsame | ⟨signalled, hwait, hsignal⟩ := s.worker.signal_cases
    · rw [hsame]
    · rw [hsignal, hwait]
      rfl
  case h_7 q hpc =>
    -- virtqueue_enable_notify
    cases hstep
    refine h.frame rfl (setVq_rel .refl (virtqueueEnableNotify_sameRings _)) rfl rfl
      (inFlight_congr rfl rfl ?_) ?_
    · rw [hpc]
      cases q <;> rfl
    · intro q' hq'
      cases q <;> cases hq'
  case h_8 hpc =>
    -- virtio_inject_irq reads the indices
    cases hstep
    exact h.frame rfl (fun q => .refl _) rfl rfl
      (inFlight_congr rfl rfl (by rw [hpc]; rfl)) fun _ hq => by cases hq
  case h_9 lastUsedIdx idx hpc =>
    -- virtio_inject_irq writes last_used_idx
    cases hstep
    exact h.frame rfl (setVq_rel .refl (virtioInjectIrq_sameRings _ lastUsedIdx idx)) rfl rfl
      (inFlight_congr rfl rfl (by rw [hpc]; rfl)) fun _ hq => by cases hq

theorem CompletionInv.worker_step (h : CompletionInv s) {drm : DrmEnv} {reallocOk : ℕ → Bool}
    {freed : Option GpuQueue} (hok : Serviceable zm s (.worker drm reallocOk freed))
    (hstep : gpuWorkerStep zm s drm reallocOk freed = some s') : CompletionInv s' := by
  unfold gpuWorkerStep at hstep
  split at hstep
  case h_1 hpc =>
    split at hstep
    · next gcmd rest hqueue =>
      -- the first command moves from the queue to the worker
      cases hstep
      exact h.frame rfl (fun q => .refl _) rfl rfl
        (by simp [inFlight, WorkerPc.held, hpc, hqueue]) h.nonempty
    · cases hstep
      refine h.frame rfl (fun q => .refl _) rfl rfl (inFlight_congr ?_ rfl rfl) h.nonempty
      rw [hpc]
      split <;> rfl
  case h_2 gcmd hpc =>
    simp only [Serviceable, WorkerServiceable, hpc] at hok
    rw [if_neg (by rw [hok]; simp)] at hstep
    cases hstep
    exact h.complete hpc drm reallocOk
  case h_3 hpc =>
    cases hstep
    refine h.frame rfl (fun q => .refl _) rfl rfl (inFlight_congr ?_ rfl rfl) h.nonempty
    rw [hpc]
    split <;> rfl
  case h_4 site hpc =>
    have hload : ∀ pc, pc.held = [] → CompletionInv { s with worker := pc } := fun pc hheld =>
      h.frame rfl (fun q => .refl _) rfl rfl (inFlight_congr (by rw [hpc]; exact hheld) rfl rfl)
        h.nonempty
    split at hstep
    · simp only [Serviceable, WorkerServiceable, hpc] at hok
      contradiction
    · cases hstep
      exact hload _ rfl
    · cases hstep
      exact hload _ rfl
  case h_6 hpc | h_7 hpc =>
    cases hstep
    exact h.frame rfl (fun q => .refl _) rfl rfl (inFlight_congr (by rw [hpc]; rfl) rfl rfl)
      h.nonempty
  case h_5 site q lastUsedIdx idx hpc =>
    cases hstep
    refine h.frame rfl (setVq_rel .refl (virtioInjectIrq_sameRings _ lastUsedIdx idx)) rfl rfl
      (inFlight_congr ?_ rfl rfl) h.nonempty
    rw [hpc]
    cases site <;> rfl

theorem CompletionInv.step (h : CompletionInv s) {e : GpuEvent} (hok : Serviceable zm s e)
    (hstep : gpuStep zm s e = some s') : CompletionInv s' := by
  obtain ⟨-, hstep⟩ := ite_none_left_eq_some.mp hstep
  cases e with
  | publish q head =>
    obtain ⟨hfree, hs⟩ := ite_none_right_eq_some.mp hstep
    exact some.inj hs ▸ h.publish hfree head
  | write mem =>
    cases hstep
    exact h.frame rfl (fun q => .refl _) rfl rfl rfl h.nonempty
  | notify q =>
    obtain ⟨hidle, rfl⟩ := ite_some_none_eq_some.mp hstep
    exact h.frame rfl (fun q => .refl _) rfl rfl
      (inFlight_congr rfl rfl (by rw [hidle]; rfl)) fun _ hq => by cases hq
  | handler fuel heap => exact h.handler_step hok hstep
  | worker drm reallocOk freed => exact h.worker_step hok hstep

/-! ## Signals -/

/-- The worker is about to inject an interrupt because the command queue is empty. -/
def WorkerPc.idleKick : WorkerPc → Prop
  | .kickLoad .idle | .kickStore .idle _ _ _ => True
  | _ => False

theorem WorkerPc.idleKick.locked {pc : WorkerPc} (h : pc.idleKick) : pc.locked = true := by
  unfold idleKick at h
  split at h
  · rfl
  · rfl
  · contradiction

/-- The worker goes to wait with an empty command queue, and a handler that has added a command to
it signals the worker before it returns. -/
structure WakeInv (s : GpuState) : Prop where
  kick : s.worker.idleKick → s.commandQueue = []
  wait : s.handler = .idle ∨ s.handler = .enable .control → s.Awake

theorem GpuState.Initial.wakeInv (h : s.Initial) : WakeInv s where
  kick _ := h.commandQueue
  wait _ _ := .inl h.commandQueue

/-- A handler that has not returned may still signal the worker. -/
theorem WakeInv.of_handler (h : WakeInv s) (hworker : s'.worker = s.worker)
    (hqueue : s'.commandQueue = s.commandQueue)
    (hpc : ¬ (s'.handler = .idle ∨ s'.handler = .enable .control)) : WakeInv s' where
  kick hkick := hqueue.trans (h.kick (hworker ▸ hkick))
  wait hidle := absurd hidle hpc

/-- The worker is neither waiting nor about to. -/
theorem WakeInv.of_worker (hkick : ¬ s.worker.idleKick) (hwait : s.worker ≠ .wait false) :
    WakeInv s where
  kick h := absurd h hkick
  wait _ h := absurd h hwait

theorem WakeInv.of_no_command (hqueue : s.commandQueue = []) : WakeInv s :=
  ⟨fun _ => hqueue, fun _ _ => .inl hqueue⟩

theorem GpuState.Awake.congr (h : s.Awake) (hworker : s'.worker = s.worker)
    (hqueue : s'.commandQueue = s.commandQueue) (hvqs : ∀ q, (s'.vqs q).SameRings (s.vqs q)) :
    s'.Awake := by
  intro hwait
  rw [hqueue]
  refine (h (hworker ▸ hwait)).imp_right ?_
  rintro ⟨q, hq⟩
  exact ⟨q, (hvqs q).isEmpty.trans hq⟩

theorem WakeInv.handler_step (h : WakeInv s) {fuel : ℕ}
    (hok : Serviceable zm s (.handler fuel heap))
    (hstep : gpuHandlerStep zm s fuel heap = some s') : WakeInv s' := by
  unfold gpuHandlerStep at hstep
  split at hstep
  case h_1 => cases hstep
  case h_2 | h_8 =>
    cases hstep
    exact h.of_handler rfl rfl nofun
  case h_3 q hpc =>
    cases hstep
    refine h.of_handler rfl rfl ?_
    split
    · cases q <;> simp
    · simp
  case h_4 q hpc =>
    split at hstep
    · cases hstep
      exact { h with }
    · obtain ⟨gcmd, -, rfl⟩ := map_eq_some_iff.mp hstep
      refine h.of_handler rfl rfl ?_
      cases gcmd <;> simp
  case h_5 gcmd hpc =>
    obtain ⟨hlock, hs⟩ := ite_none_left_eq_some.mp hstep
    cases hs
    -- the worker is not about to wait, because it does not hold the lock
    exact ⟨fun hkick => absurd hkick.locked hlock, nofun⟩
  case h_6 hpc =>
    obtain ⟨hlock, hs⟩ := ite_none_left_eq_some.mp hstep
    cases hs
    refine .of_worker (fun hkick => ?_) s.worker.signal_ne_wait
    obtain hsame | ⟨-, -, hsignal⟩ := s.worker.signal_cases
    · exact hlock (WorkerPc.idleKick.locked (hsame ▸ hkick))
    · rw [hsignal] at hkick
      contradiction
  case h_7 q hpc =>
    cases hstep
    cases q with
    | cursor => exact h.of_handler rfl rfl nofun
    | control =>
      refine ⟨h.kick, fun _ => (h.wait (.inr hpc)).congr rfl rfl ?_⟩
      exact setVq_rel .refl (virtqueueEnableNotify_sameRings _)
  case h_9 lastUsedIdx idx hpc =>
    cases hstep
    simp only [Serviceable, HandlerServiceable, hpc] at hok
    refine ⟨h.kick, fun _ => hok.congr rfl rfl ?_⟩
    exact setVq_rel .refl (virtioInjectIrq_sameRings _ lastUsedIdx idx)

theorem WakeInv.worker_step (h : WakeInv s) {drm : DrmEnv} {reallocOk : ℕ → Bool}
    {freed : Option GpuQueue} (hstep : gpuWorkerStep zm s drm reallocOk freed = some s') :
    WakeInv s' := by
  unfold gpuWorkerStep at hstep
  split at hstep
  case h_1 hpc =>
    split at hstep
    · cases hstep
      exact .of_worker nofun nofun
    · next hqueue =>
      cases hstep
      exact .of_no_command hqueue
  case h_2 gcmd hpc =>
    split at hstep
    · cases hstep
      exact { h with }
    · cases hstep
      exact .of_worker nofun nofun
  case h_3 hpc =>
    cases hstep
    refine .of_worker ?_ ?_
    · dsimp only
      split <;> nofun
    · dsimp only
      split <;> nofun
  case h_4 site hpc =>
    split at hstep
    · cases hstep
      exact { h with }
    · cases hstep
      exact .of_worker nofun nofun
    · cases hstep
      exact .of_no_command (h.kick (by rw [hpc]; trivial))
  case h_5 site q lastUsedIdx idx hpc =>
    cases hstep
    cases site with
    | limit => exact .of_worker nofun nofun
    | idle => exact .of_no_command (h.kick (by rw [hpc]; trivial))
  case h_6 hpc | h_7 hpc =>
    cases hstep
    exact .of_worker nofun nofun

theorem WakeInv.step (h : WakeInv s) (hcompletion : CompletionInv s) {e : GpuEvent}
    (hok : Serviceable zm s e) (hstep : gpuStep zm s e = some s') : WakeInv s' := by
  obtain ⟨-, hstep⟩ := ite_none_left_eq_some.mp hstep
  cases e with
  | publish q head =>
    obtain ⟨hfree, hs⟩ := ite_none_right_eq_some.mp hstep
    cases hs
    refine ⟨h.kick, fun _ _ => .inr ⟨q, ?_⟩⟩
    simpa [setVq] using hcompletion.publish_nonempty hfree head
  | write mem =>
    cases hstep
    exact { h with }
  | notify q =>
    obtain ⟨-, rfl⟩ := ite_some_none_eq_some.mp hstep
    exact h.of_handler rfl rfl (by simp)
  | handler fuel heap => exact h.handler_step hok hstep
  | worker drm reallocOk freed => exact h.worker_step hstep

end Steps

/-! ## Completion -/

/-- **Every request is completed once**: in every run whose steps are serviceable the daemon does
not end, and in every drained state the chains published on a queue have been put on its used ring
exactly once, in order, and nothing else has. -/
theorem requests_completed_once (zm : ZoneMem) {s₀ s : GpuState} (hinit : s₀.Initial)
    (hrun : Reach (gpuStep zm) (Serviceable zm) s₀ s) :
    s.crashed = false ∧ (s.Drained → ∀ q, CompletedOnce s q) := by
  obtain ⟨hinv, hwake⟩ := hrun.invariant (fun s => CompletionInv s ∧ WakeInv s)
    ⟨hinit.completionInv, hinit.wakeInv⟩
    fun _ _ _ h hok hstep => ⟨h.1.step hok hstep, h.2.step h.1 hok hstep⟩
  refine ⟨hinv.running, fun hdrained => hinv.completedOnce hdrained ?_⟩
  refine (hwake.wait (.inl hdrained.handler) hdrained.worker).resolve_right ?_
  rintro ⟨q, hq⟩
  cases hq.symm.trans (hdrained.queues q)

/-- A request of 8 bytes is never completed: the worker returns from the command without an
answer. -/
theorem short_request_lost :
    ¬ ∀ (zm : ZoneMem) (s₀ s : GpuState), s₀.Initial → Reach (gpuStep zm) anyStep s₀ s →
      s.Drained → ∀ q, s.put q = s.published q := by
  intro h
  have hrun : ∃ s, run (gpuStep samplePage) anyStep (sampleGpuState 8) oneRequest = some s ∧
      (s.handler = .idle ∧ s.worker = .wait false) ∧
      (virtqueueIsEmpty (s.vqs .control) = true ∧ virtqueueIsEmpty (s.vqs .cursor) = true) ∧
      s.published .control = [0] ∧ s.put .control = [] :=
    ⟨_, rfl, ⟨rfl, rfl⟩, ⟨rfl, rfl⟩, rfl, rfl⟩
  rcases hrun with ⟨s, hs, ⟨hhandler, hworker⟩, ⟨hcontrol, hcursor⟩, hpub, hput⟩
  have hdrained : s.Drained := ⟨hhandler, hworker, fun q => by cases q <;> assumption⟩
  have heq := h samplePage _ s (sampleGpuState_initial 8) (reach_of_run hs) hdrained .control
  rw [hput, hpub] at heq
  cases heq

/-- The same run with a request of 24 bytes. -/
theorem requests_completed_once_sample :
    ∃ s, run (gpuStep samplePage) (Serviceable samplePage) (sampleGpuState 24) oneRequest =
      some s ∧ s.published .control = [0] ∧ CompletedOnce s .control := by
  have hrun : ∃ s, run (gpuStep samplePage) (Serviceable samplePage) (sampleGpuState 24)
        oneRequest = some s ∧
      (s.handler = .idle ∧ s.worker = .wait false) ∧
      (virtqueueIsEmpty (s.vqs .control) = true ∧ virtqueueIsEmpty (s.vqs .cursor) = true) ∧
      s.published .control = [0] :=
    ⟨_, rfl, ⟨rfl, rfl⟩, ⟨rfl, rfl⟩, rfl⟩
  rcases hrun with ⟨s, hs, ⟨hhandler, hworker⟩, ⟨hcontrol, hcursor⟩, hpub⟩
  have hdrained : s.Drained := ⟨hhandler, hworker, fun q => by cases q <;> assumption⟩
  exact ⟨s, hs, hpub, (requests_completed_once samplePage (sampleGpuState_initial 24)
    (reach_of_run hs)).2 hdrained .control⟩

end HvisorRux.Tool
