import HvisorRux.Tool.Gpu.Worker
import HvisorRux.Tool.QueueCompletion

/-!
# Every completion is announced

The worker counts the requests of both queues together and injects one interrupt for a batch, on the
queue of the batch's last command. When a batch mixes the queues, the completions of the other queue
stay unannounced while the worker waits. The cursor queue's handler injects interrupts as well, and
its two accesses can enclose one of the worker's. And the queue of the last command is read from
memory that has been freed. Apart from these three cases a waiting worker has announced everything.
-/

namespace HvisorRux.Tool

open Common Function Option GpuState

/-- The other one of the two queues. -/
def GpuQueue.other : GpuQueue → GpuQueue
  | .control => .cursor
  | .cursor => .control

theorem GpuQueue.eq_other {q q' : GpuQueue} (h : q' ≠ q) : q' = q.other := by
  cases q <;> cases q' <;> first | rfl | exact absurd rfl h

/-- `virtio_inject_irq` has been called on `q` since the last used element was added. -/
structure Announced (s : GpuState) (q : GpuQueue) : Prop where
  announced : s.unannounced q = false
  lastUsedIdx : (s.vqs q).lastUsedIdx = (s.vqs q).usedRing.idx

/-- The side condition: a command is taken only when the completions of the other queue have been
announced, the block of the last command still holds its queue after it has been freed, and the
cursor queue's handler does not store an old index over one that the worker has announced. -/
def KickCovers (s : GpuState) : GpuEvent → Prop
  | .worker _ _ freed => match s.worker, s.commandQueue with
    | .test, gcmd :: _ => s.unannounced gcmd.fromQueue.other = false
    | .kickLoad .idle, _ => freed = some s.fromQueue
    | _, _ => True
  | .handler _ _ => match s.handler with
    | .injectStore _ idx => idx = (s.vqs .cursor).usedRing.idx ∨ s.unannounced .cursor = true
    | _ => True
  | _ => True

instance (s : GpuState) (e : GpuEvent) : Decidable (KickCovers s e) := by
  unfold KickCovers
  split
  · split <;> infer_instance
  · split <;> infer_instance
  · infer_instance

/-! ## The invariant -/

/-- The worker will inject an interrupt on the queue of its latest command before it waits. -/
def WorkerPc.Owes : WorkerPc → ℕ → Prop
  | .process _, _ | .count, _ | .kickLoad _, _ | .kickStore _ _ _ _, _ => True
  | .test, requestCnt | .relock, requestCnt => requestCnt ≠ 0
  | .wait _, _ => False

/-- Only the queue of the worker's latest command has unannounced completions, and then the worker
owes it an interrupt; the indices of the other queues agree. -/
structure AnnounceInv (s : GpuState) : Prop where
  settled : ∀ q, s.unannounced q = false → (s.vqs q).lastUsedIdx = (s.vqs q).usedRing.idx
  owed : ∀ q, s.unannounced q = true → s.fromQueue = q ∧ s.worker.Owes s.requestCnt
  fresh : ∀ site q lastUsedIdx idx, s.worker = .kickStore site q lastUsedIdx idx →
    q = s.fromQueue ∧ idx = (s.vqs s.fromQueue).usedRing.idx
  fromQueue : ∀ gcmd, s.worker = .process gcmd → s.fromQueue = gcmd.fromQueue

section Steps

variable {zm : ZoneMem} {s s' : GpuState} {idx : UInt16}

theorem AnnounceInv.announced (h : AnnounceInv s) {signalled : Bool}
    (hwait : s.worker = .wait signalled) (q : GpuQueue) : Announced s q := by
  have hq : s.unannounced q = false := Bool.eq_false_iff.mpr fun htrue => by
    have howes := (h.owed q htrue).2
    rwa [hwait] at howes
  exact ⟨hq, h.settled q hq⟩

theorem GpuState.Initial.announceInv (h : s.Initial) : AnnounceInv s where
  settled q _ := by
    obtain ⟨-, -, hused, hlast⟩ := h.indices q
    rw [hused, hlast]
  owed q hq := by cases (h.unannounced q).symm.trans hq
  fresh _ _ _ _ hpc := by cases h.worker.symm.trans hpc
  fromQueue _ hpc := by cases h.worker.symm.trans hpc

/-- Steps of others than the worker that leave the used indices alone. -/
theorem AnnounceInv.frame (h : AnnounceInv s) (hidx : ∀ q, (s'.vqs q).SameUsed (s.vqs q))
    (hun : s'.unannounced = s.unannounced) (hworker : s'.worker = s.worker)
    (hcnt : s'.requestCnt = s.requestCnt) (hfrom : s'.fromQueue = s.fromQueue) :
    AnnounceInv s' where
  settled q hq := by
    rw [(hidx q).1, (hidx q).2]
    exact h.settled q (hun ▸ hq)
  owed q hq := by
    rw [hworker, hcnt, hfrom]
    exact h.owed q (hun ▸ hq)
  fresh site q lastUsedIdx idx hpc := by
    rw [hfrom, (hidx _).2]
    exact h.fresh site q lastUsedIdx idx (hworker ▸ hpc)
  fromQueue gcmd hpc := hfrom ▸ h.fromQueue gcmd (hworker ▸ hpc)

/-! ## Injecting an interrupt -/

theorem GpuState.inject_usedIdx (s : GpuState) (q : GpuQueue) (lastUsedIdx idx : UInt16)
    (q' : GpuQueue) :
    ((s.inject q lastUsedIdx idx).vqs q').usedRing.idx = (s.vqs q').usedRing.idx :=
  setVq_rel (P := fun vq' vq => vq'.usedRing.idx = vq.usedRing.idx) (fun _ => rfl)
    (virtioInjectIrq_usedIdx (s.vqs q) lastUsedIdx idx) q'

theorem GpuState.inject_unannounced_self (s : GpuState) (q : GpuQueue) (lastUsedIdx idx : UInt16) :
    (s.inject q lastUsedIdx idx).unannounced q =
      if idx = (s.vqs q).usedRing.idx then false else s.unannounced q := by
  dsimp only [GpuState.inject]
  split
  · exact update_self _ _ _
  · rfl

theorem GpuState.inject_unannounced_of_ne (s : GpuState) {q q' : GpuQueue} (h : q' ≠ q)
    (lastUsedIdx idx : UInt16) :
    (s.inject q lastUsedIdx idx).unannounced q' = s.unannounced q' := by
  dsimp only [GpuState.inject]
  split
  · exact update_of_ne h _ _
  · rfl

/-- What is unannounced after the call was so before, and the call did not announce it. -/
theorem GpuState.unannounced_of_inject {q q' : GpuQueue} (lastUsedIdx : UInt16)
    (h : (s.inject q lastUsedIdx idx).unannounced q' = true) :
    s.unannounced q' = true ∧ ¬ (q' = q ∧ idx = (s.vqs q).usedRing.idx) := by
  by_cases hq : q' = q
  · subst hq
    rw [s.inject_unannounced_self] at h
    split at h
    · cases h
    · next hidx => exact ⟨h, fun hand => hidx hand.2⟩
  · rw [s.inject_unannounced_of_ne hq] at h
    exact ⟨h, fun hand => hq hand.1⟩

/-- The call stores the current index, unless the queue has completions that another call is still
to announce. -/
theorem GpuState.settled_inject (s : GpuState) {q : GpuQueue}
    (hset : ∀ q, s.unannounced q = false → (s.vqs q).lastUsedIdx = (s.vqs q).usedRing.idx)
    (lastUsedIdx : UInt16) (hidx : idx = (s.vqs q).usedRing.idx ∨ s.unannounced q = true)
    (q' : GpuQueue) (hq' : (s.inject q lastUsedIdx idx).unannounced q' = false) :
    ((s.inject q lastUsedIdx idx).vqs q').lastUsedIdx =
      ((s.inject q lastUsedIdx idx).vqs q').usedRing.idx := by
  rw [s.inject_usedIdx]
  by_cases hq : q' = q
  · subst hq
    have hstored : ((s.inject q' lastUsedIdx idx).vqs q').lastUsedIdx = idx := by
      simp [GpuState.inject, GpuState.setVq, virtioInjectIrq]
    rw [hstored]
    rw [s.inject_unannounced_self] at hq'
    split at hq'
    · next hcur => exact hcur
    · next hcur =>
      rw [hidx.resolve_left hcur] at hq'
      cases hq'
  · rw [s.inject_unannounced_of_ne hq] at hq'
    have hvq : (s.inject q lastUsedIdx idx).vqs q' = s.vqs q' := update_of_ne hq _ _
    rw [hvq]
    exact hset q' hq'

/-! ## The threads -/

section

variable (h : AnnounceInv s) {gcmd : GPUCommand}

include h

namespace AnnounceInv

theorem handler_step {fuel : ℕ} {heap : ℕ → Iovec}
    (hok : KickCovers s (.handler fuel heap)) (hstep : gpuHandlerStep zm s fuel heap = some s') :
    AnnounceInv s' := by
  unfold gpuHandlerStep at hstep
  split at hstep
  case h_1 => cases hstep
  case h_2 =>
    cases hstep
    exact h.frame (setVq_rel .refl (virtqueueDisableNotify_sameUsed _)) rfl rfl rfl rfl
  case h_3 | h_8 =>
    cases hstep
    exact { h with }
  case h_4 =>
    split at hstep
    · cases hstep
      exact { h with }
    obtain ⟨gcmd, -, rfl⟩ := map_eq_some_iff.mp hstep
    exact h.frame (setVq_rel .refl (VirtQueue.consume_sameUsed _)) rfl rfl rfl rfl
  case h_5 =>
    obtain ⟨-, hs⟩ := ite_none_left_eq_some.mp hstep
    cases hs
    exact { h with }
  case h_6 =>
    obtain ⟨-, hs⟩ := ite_none_left_eq_some.mp hstep
    cases hs
    obtain hsame | ⟨signalled, hwait, hsignal⟩ := s.worker.signal_cases
    · exact h.frame (fun _ => .refl _) rfl hsame rfl rfl
    · refine ⟨h.settled, fun q hq => ⟨(h.owed q hq).1, ?_⟩, fun _ _ _ _ hw => ?_, fun _ hw => ?_⟩
      · have howes := (h.owed q hq).2
        rw [hwait] at howes
        exact howes.elim
      · cases hsignal.symm.trans hw
      · cases hsignal.symm.trans hw
  case h_7 =>
    cases hstep
    exact h.frame (setVq_rel .refl (virtqueueEnableNotify_sameUsed _)) rfl rfl rfl rfl
  case h_9 lastUsedIdx idx hpc =>
    cases hstep
    simp only [KickCovers, hpc] at hok
    refine ⟨s.settled_inject h.settled lastUsedIdx hok, ?_, ?_, h.fromQueue⟩
    · intro q hq
      exact h.owed q (unannounced_of_inject lastUsedIdx hq).1
    · intro site q last idx' hw
      obtain ⟨hq, hidx⟩ := h.fresh site q last idx' hw
      exact ⟨hq, hidx.trans (s.inject_usedIdx _ lastUsedIdx idx _).symm⟩

/-- The worker moves on without touching a queue. -/
theorem move {pc : WorkerPc} {requestCnt : ℕ}
    (howes : s.worker.Owes s.requestCnt → pc.Owes requestCnt)
    (hfresh : ∀ site q lastUsedIdx idx, pc = .kickStore site q lastUsedIdx idx →
      q = s.fromQueue ∧ idx = (s.vqs s.fromQueue).usedRing.idx)
    (hprocess : ∀ gcmd, pc ≠ .process gcmd) :
    AnnounceInv { s with worker := pc, requestCnt } where
  settled := h.settled
  owed q hq := ⟨(h.owed q hq).1, howes (h.owed q hq).2⟩
  fresh := hfresh
  fromQueue gcmd hpc := absurd hpc (hprocess gcmd)

/-- The worker takes a command while the other queue has nothing unannounced. -/
theorem take {rest : List GPUCommand} (hother : s.unannounced gcmd.fromQueue.other = false) :
    AnnounceInv { s with
      commandQueue := rest
      worker := .process gcmd
      fromQueue := gcmd.fromQueue } := by
  refine ⟨h.settled, fun q hq => ⟨?_, trivial⟩, fun _ _ _ _ hw => (by cases hw), fun gcmd' hw => ?_⟩
  · by_contra hne
    rw [GpuQueue.eq_other (Ne.symm hne)] at hq
    cases hother.symm.trans hq
  · exact congrArg GPUCommand.fromQueue (WorkerPc.process.inj hw)

/-- The worker processes a command, which may add a used element to its queue. -/
theorem process (hpc : s.worker = .process gcmd) (drm : DrmEnv) (reallocOk : ℕ → Bool) :
    AnnounceInv { s.process zm gcmd drm reallocOk with worker := .count } := by
  unfold GpuState.process
  dsimp only
  split
  · exact ⟨h.settled, fun q hq => ⟨(h.owed q hq).1, trivial⟩, fun _ _ _ _ hw => (by cases hw),
      fun _ hw => (by cases hw)⟩
  refine ⟨fun q hq => ?_, fun q hq => ⟨?_, trivial⟩, fun _ _ _ _ hw => (by cases hw),
    fun _ hw => (by cases hw)⟩
  · have hne : q ≠ gcmd.fromQueue := fun heq => by simp [heq] at hq
    simp only [GpuState.setVq, update_of_ne hne] at hq ⊢
    exact h.settled q hq
  · by_cases hq' : q = gcmd.fromQueue
    · exact hq' ▸ h.fromQueue gcmd hpc
    · simp only [update_of_ne hq'] at hq
      exact (h.owed q hq).1

/-- The worker's kick announces the only queue that has something to announce. -/
theorem kick {site : KickSite} {q : GpuQueue} {lastUsedIdx : UInt16}
    (hpc : s.worker = .kickStore site q lastUsedIdx idx) {pc : WorkerPc}
    (hkick : ∀ site q lastUsedIdx idx, pc ≠ .kickStore site q lastUsedIdx idx)
    (hprocess : ∀ gcmd, pc ≠ .process gcmd) (requestCnt : ℕ) :
    AnnounceInv { s.inject q lastUsedIdx idx with worker := pc, requestCnt } := by
  obtain ⟨rfl, hcur⟩ := h.fresh site q lastUsedIdx idx hpc
  refine ⟨s.settled_inject h.settled lastUsedIdx (.inl hcur), ?_,
    fun _ _ _ _ hw => absurd hw (hkick _ _ _ _), fun gcmd hw => absurd hw (hprocess gcmd)⟩
  intro q hq
  obtain ⟨hbefore, hnot⟩ := unannounced_of_inject lastUsedIdx hq
  exact absurd ⟨(h.owed q hbefore).1.symm, hcur⟩ hnot

theorem worker_step {drm : DrmEnv} {reallocOk : ℕ → Bool} {freed : Option GpuQueue}
    (hok : KickCovers s (.worker drm reallocOk freed))
    (hstep : gpuWorkerStep zm s drm reallocOk freed = some s') : AnnounceInv s' := by
  unfold gpuWorkerStep at hstep
  split at hstep
  case h_1 hpc =>
    split at hstep
    · next gcmd rest hqueue =>
      cases hstep
      simp only [KickCovers, hpc, hqueue] at hok
      exact h.take hok
    rename_i hqueue
    -- the queue is empty: kick if requests have been counted, else wait
    cases hstep
    by_cases hcnt : s.requestCnt = 0
    · rw [if_neg (not_not.mpr hcnt)]
      refine h.move (fun howes => ?_) (fun _ _ _ _ hw => (by cases hw)) fun _ hw => (by cases hw)
      rw [hpc] at howes
      exact absurd hcnt howes
    · rw [if_pos hcnt]
      exact h.move (fun _ => trivial) (fun _ _ _ _ hw => (by cases hw)) fun _ hw => (by cases hw)
  case h_2 gcmd hpc =>
    split at hstep
    · cases hstep
      exact { h with }
    · cases hstep
      exact h.process hpc drm reallocOk
  case h_3 hpc =>
    cases hstep
    split
    · exact h.move (fun _ => trivial) (fun _ _ _ _ hw => (by cases hw)) fun _ hw => (by cases hw)
    · exact h.move (fun _ => Nat.succ_ne_zero _) (fun _ _ _ _ hw => (by cases hw))
        fun _ hw => (by cases hw)
  case h_4 site hpc =>
    have hload : ∀ site, AnnounceInv { s with
        worker := .kickStore site s.fromQueue (s.vqs s.fromQueue).lastUsedIdx
          (s.vqs s.fromQueue).usedRing.idx } := fun site =>
      h.move (fun _ => trivial) (fun _ _ _ _ hw => (by cases hw; exact ⟨rfl, rfl⟩))
        fun _ hw => (by cases hw)
    split at hstep
    · cases hstep
      exact { h with }
    · cases hstep
      exact hload .limit
    · simp only [KickCovers, hpc] at hok
      cases hok
      cases hstep
      exact hload .idle
  case h_5 site q lastUsedIdx idx hpc =>
    cases hstep
    refine h.kick hpc ?_ ?_ 0
    · intro _ _ _ _ hw
      cases site <;> cases hw
    · intro _ hw
      cases site <;> cases hw
  case h_6 hpc =>
    cases hstep
    refine h.move (fun howes => ?_) (fun _ _ _ _ hw => (by cases hw)) fun _ hw => (by cases hw)
    rwa [hpc] at howes
  case h_7 hpc =>
    cases hstep
    refine h.move (fun howes => ?_) (fun _ _ _ _ hw => (by cases hw)) fun _ hw => (by cases hw)
    rw [hpc] at howes
    exact howes.elim

theorem step {e : GpuEvent} (hok : KickCovers s e) (hstep : gpuStep zm s e = some s') :
    AnnounceInv s' := by
  obtain ⟨-, hstep⟩ := ite_none_left_eq_some.mp hstep
  cases e with
  | publish q head =>
    obtain ⟨-, rfl⟩ := ite_some_none_eq_some.mp hstep
    exact h.frame (setVq_rel .refl ⟨rfl, rfl⟩) rfl rfl rfl rfl
  | write mem =>
    cases hstep
    exact { h with }
  | notify q =>
    obtain ⟨-, rfl⟩ := ite_some_none_eq_some.mp hstep
    exact { h with }
  | handler fuel heap => exact h.handler_step hok hstep
  | worker drm reallocOk freed => exact h.worker_step hok hstep

end AnnounceInv

end

end Steps

/-! ## Announcement -/

/-- **Every completion is announced**: in every run in which the worker's kicks cover what has been
completed, both queues are announced whenever the worker waits. -/
theorem completions_announced (zm : ZoneMem) {s₀ s : GpuState} (hinit : s₀.Initial)
    (hrun : Reach (gpuStep zm) KickCovers s₀ s) {signalled : Bool}
    (hwait : s.worker = .wait signalled) (q : GpuQueue) : Announced s q :=
  (hrun.invariant AnnounceInv hinit.announceInv
    fun _ _ _ h hok hstep => h.step hok hstep).announced hwait q

/-- A batch with a control and a cursor request: only the cursor queue is kicked. -/
theorem mixed_batch_unannounced :
    ¬ ∀ (zm : ZoneMem) (s₀ s : GpuState), s₀.Initial → Reach (gpuStep zm) anyStep s₀ s →
      s.worker = .wait false → ∀ q, Announced s q := by
  intro h
  have hrun : (run (gpuStep samplePage) anyStep (sampleGpuState 24)
        (sampleWorker 1 .control ++ [.publish .control 0, .publish .cursor 0, .notify .control] ++
          sampleHandler 7 ++ [.notify .cursor] ++ sampleHandler 8 ++ sampleWorker 12 .cursor)).map
      (fun s => (s.worker, (s.vqs .control).usedRing.idx, (s.vqs .control).lastUsedIdx)) =
        some (.wait false, 1, 0) := by
    decide +kernel
  obtain ⟨s, hs, hvalues⟩ := exists_of_run hrun
  simp only [Prod.mk.injEq] at hvalues
  rcases hvalues with ⟨hwait, hused, hlast⟩
  have heq := (h samplePage _ s (sampleGpuState_initial 24) hs hwait
    .control).lastUsedIdx
  rw [hused, hlast] at heq
  cases heq

/-- A batch with one request is announced. -/
theorem completions_announced_sample :
    ∃ s, run (gpuStep samplePage) KickCovers (sampleGpuState 24) oneRequest = some s ∧
      (s.vqs .control).usedRing.idx = 1 ∧ Announced s .control := by
  have hrun : ∃ s, run (gpuStep samplePage) KickCovers (sampleGpuState 24) oneRequest = some s ∧
      s.worker = .wait false ∧ (s.vqs .control).usedRing.idx = 1 := ⟨_, rfl, rfl, rfl⟩
  rcases hrun with ⟨s, hs, hwait, hused⟩
  exact ⟨s, hs, hused, completions_announced samplePage (sampleGpuState_initial 24)
    (reach_of_run hs) hwait .control⟩

end HvisorRux.Tool
