import HvisorRux.Tool.Blk.Worker
import HvisorRux.Tool.QueueCompletion

/-!
# Every completion of a block request is announced

The worker leaves out the interrupt if `procq` is not empty when it has put a chain on the used
ring. It tests that in a critical section of its own, but nobody else removes requests: those it has
seen are still there when it looks for the next one, so it completes another chain, and tests again,
before it waits.
-/

namespace HvisorRux.Tool

open Common List Option

/-- `virtio_inject_irq` has been called since the last used element was added. -/
structure BlkState.Announced (s : BlkState) : Prop where
  announced : s.unannounced = false
  lastUsedIdx : s.vq.lastUsedIdx = s.vq.usedRing.idx

/-- The worker will call `virtio_inject_irq` before it waits: it is on its way to the test or to the
call, or it will find another request. -/
def BlkState.Owes (s : BlkState) : Prop :=
  match s.worker with
  | .process _ | .test | .injectLoad | .injectStore _ _ => True
  | .lock | .get => s.procq ≠ []
  | .wait _ | .exited => False

/-- What is not announced is owed, and what is announced has the indices agree. -/
structure BlkAnnounceInv (s : BlkState) : Prop where
  settled : s.unannounced = false → s.vq.lastUsedIdx = s.vq.usedRing.idx
  owed : s.unannounced = true → s.Owes
  fresh : ∀ lastUsedIdx idx, s.worker = .injectStore lastUsedIdx idx → idx = s.vq.usedRing.idx

section Steps

variable {zm : ZoneMem} {s s' : BlkState}

theorem BlkState.Initial.announceInv (h : s.Initial) : BlkAnnounceInv s where
  settled _ := h.lastUsedIdx.trans h.usedIdx.symm
  owed hun := by cases h.unannounced.symm.trans hun
  fresh _ _ hpc := by cases h.worker.symm.trans hpc

section

variable (h : BlkAnnounceInv s)

include h

namespace BlkAnnounceInv

theorem announced (howes : ¬ s.Owes) : s.Announced := by
  have hun : s.unannounced = false := Bool.eq_false_iff.mpr fun hun => howes (h.owed hun)
  exact ⟨hun, h.settled hun⟩

/-- Steps of others than the worker, which may add requests and signal it. -/
theorem frame (hused : s'.vq.SameUsed s.vq) (hun : s'.unannounced = s.unannounced)
    (hworker : s'.worker = s.worker ∨ s'.worker = s.worker.signal) (hprocq : s.procq <+: s'.procq) :
    BlkAnnounceInv s' where
  settled hq := by
    rw [hused.1, hused.2]
    exact h.settled (hun ▸ hq)
  owed hq := by
    have howes := h.owed (hun ▸ hq)
    have hne : s.procq ≠ [] → s'.procq ≠ [] := fun hne hnil => hne (by simpa [hnil] using hprocq)
    unfold BlkState.Owes at howes ⊢
    rcases hworker with hworker | hworker <;> rw [hworker]
    all_goals cases hpc : s.worker <;> rw [hpc] at howes <;>
      first | exact howes | exact hne howes
  fresh lastUsedIdx idx hpc := by
    rw [hused.2]
    refine h.fresh lastUsedIdx idx ?_
    rcases hworker with hworker | hworker <;> rw [hworker] at hpc
    · exact hpc
    · cases hw : s.worker <;> rw [hw] at hpc <;> first | exact hpc | cases hpc

theorem handler_step {fuel : ℕ} {heap : BlkHeap}
    (hstep : blkHandlerStep zm s fuel heap = some s') : BlkAnnounceInv s' := by
  unfold blkHandlerStep at hstep
  split at hstep
  case h_1 => cases hstep
  case h_2 => cases hstep
  case h_3 | h_5 =>
    cases hstep
    exact h.frame (.refl _) rfl (.inl rfl) prefix_rfl
  case h_4 =>
    cases hstep
    exact h.frame (virtqueueDisableNotify_sameUsed _) rfl (.inl rfl) prefix_rfl
  case h_6 =>
    split at hstep
    · cases hstep
      exact h.frame (.refl _) rfl (.inl rfl) prefix_rfl
    obtain ⟨r, -, rfl⟩ := map_eq_some_iff.mp hstep
    cases r <;> exact h.frame (VirtQueue.consume_sameUsed _) rfl (.inl rfl) prefix_rfl
  case h_7 =>
    cases hstep
    exact h.frame (virtqueueEnableNotify_sameUsed _) rfl (.inl rfl) prefix_rfl
  case h_8 =>
    obtain ⟨-, hs⟩ := ite_none_left_eq_some.mp hstep
    cases hs
    exact h.frame (.refl _) rfl (.inr rfl) (prefix_append _ _)

/-- The worker moves on without touching the queue, and still owes what it owed. -/
theorem move {pc : BlkWorkerPc} {procq : List BlkpReq}
    (howes : s.Owes → { s with worker := pc, procq }.Owes)
    (hfresh : ∀ lastUsedIdx idx, pc = .injectStore lastUsedIdx idx → idx = s.vq.usedRing.idx) :
    BlkAnnounceInv { s with worker := pc, procq } :=
  ⟨h.settled, fun hun => howes (h.owed hun), hfresh⟩

theorem worker_step {io : IoOutcome} {spurious : Bool}
    (hstep : blkWorkerStep zm s io spurious = some s') : BlkAnnounceInv s' := by
  unfold blkWorkerStep at hstep
  split at hstep
  case h_1 hpc =>
    -- pthread_mutex_lock: the requests that the worker has seen are still there
    cases hstep
    refine h.move (fun howes => ?_) fun _ _ hstore => (by cases hstore)
    simpa only [BlkState.Owes, hpc] using howes
  case h_2 hpc =>
    split at hstep
    · cases hstep
      exact h.move (fun _ => trivial) fun _ _ hstore => (by cases hstore)
    rename_i hprocq
    -- no request, so nothing was owed
    cases hstep
    refine h.move (fun howes => ?_) fun _ _ hstore => ?_
    · simp only [BlkState.Owes, hpc] at howes
      exact absurd hprocq howes
    · split_ifs at hstore
  case h_3 =>
    split at hstep
    · cases hstep
      exact h.frame (.refl _) rfl (.inl rfl) prefix_rfl
    -- a used element is added; the test is still to come
    cases hstep
    exact ⟨fun hun => (by cases hun), fun _ => trivial, fun _ _ hstore => (by cases hstore)⟩
  case h_4 =>
    -- the test: either the call follows, or there is another request
    cases hstep
    refine h.move (fun _ => ?_) fun _ _ hstore => ?_
    · by_cases hnil : s.procq = []
      · simp [BlkState.Owes, hnil]
      · simp [BlkState.Owes, hnil]
    · split_ifs at hstore
  case h_5 =>
    cases hstep
    exact h.move (fun _ => trivial) fun _ _ hstore => (BlkWorkerPc.injectStore.inj hstore).2.symm
  case h_6 lastUsedIdx idx hpc =>
    -- the index read is the current one, since only the worker advances it
    cases hstep
    have hcur := h.fresh lastUsedIdx idx hpc
    refine ⟨fun _ => hcur, fun hun => ?_, fun _ _ hstore => (by cases hstore)⟩
    simp [BlkState.inject, hcur] at hun
  case h_7 hpc =>
    obtain ⟨-, rfl⟩ := ite_some_none_eq_some.mp hstep
    refine h.move (fun howes => ?_) fun _ _ hstore => (by cases hstore)
    simp only [BlkState.Owes, hpc] at howes
  case h_8 => cases hstep

theorem step {e : BlkEvent} (hstep : blkStep zm s e = some s') : BlkAnnounceInv s' := by
  cases e with
  | publish head =>
    obtain ⟨-, rfl⟩ := ite_some_none_eq_some.mp hstep
    exact h.frame ⟨rfl, rfl⟩ rfl (.inl rfl) prefix_rfl
  | write mem =>
    cases hstep
    exact h.frame (.refl _) rfl (.inl rfl) prefix_rfl
  | notify =>
    obtain ⟨-, rfl⟩ := ite_some_none_eq_some.mp hstep
    exact h.frame (.refl _) rfl (.inl rfl) prefix_rfl
  | close =>
    obtain ⟨-, rfl⟩ := ite_some_none_eq_some.mp hstep
    exact h.frame (.refl _) rfl (.inr rfl) prefix_rfl
  | handler fuel heap => exact h.handler_step (ite_none_right_eq_some.mp hstep).2
  | worker io spurious => exact h.worker_step (ite_none_right_eq_some.mp hstep).2

end BlkAnnounceInv

end

end Steps

/-- **The block worker announces every completion**: whenever it waits, in any interleaving and for
any chains, `virtio_inject_irq` has been called after the last used element was written. -/
theorem blk_completions_announced (zm : ZoneMem) {s₀ s : BlkState} (hinit : s₀.Initial)
    (hrun : Reach (blkStep zm) anyStep s₀ s) {signalled : Bool}
    (hwait : s.worker = .wait signalled) : s.Announced := by
  have h : BlkAnnounceInv s :=
    hrun.invariant BlkAnnounceInv hinit.announceInv fun _ _ _ h _ hstep => h.step hstep
  refine h.announced fun howes => ?_
  simp only [BlkState.Owes, hwait] at howes

/-- Two requests of one batch: the worker leaves out the interrupt after the first one. -/
theorem blk_completions_announced_sample :
    ∃ s, run (blkStep samplePage) anyStep sampleBlkState
        (sampleBlkWorker 2 ++ [.publish 0, .publish 0, .notify] ++ sampleBlkHandler 10 ++
          sampleBlkWorker 12) = some s ∧
      s.worker = .wait false ∧ s.put = [0, 0] ∧ s.interrupts = 1 ∧ s.Announced := by
  have hrun : (run (blkStep samplePage) anyStep sampleBlkState
        (sampleBlkWorker 2 ++ [.publish 0, .publish 0, .notify] ++ sampleBlkHandler 10 ++
          sampleBlkWorker 12)).map (fun s => (s.worker, s.put, s.interrupts)) =
      some (.wait false, [0, 0], 1) := by decide +kernel
  obtain ⟨s, hs, hvalues⟩ := map_eq_some_iff.mp hrun
  simp only [Prod.mk.injEq] at hvalues
  obtain ⟨hwait, hput, hints⟩ := hvalues
  exact ⟨s, hs, hwait, hput, hints,
    blk_completions_announced samplePage sampleBlkState_initial (reach_of_run hs) hwait⟩

end HvisorRux.Tool
