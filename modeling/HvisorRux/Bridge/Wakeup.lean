import HvisorRux.Bridge.RequestRing

/-!
# Waking up the daemon

The daemon sleeps in `sigwait`; a cpu that has pushed a request sends it a wake-up event if it finds
`need_wakeup` set. Before it goes back to sleep the daemon sets the flag and then tests the ring
once more, so that a request is seen by one side or the other. Before its first sleep it sets the
flag, but does not test the ring: a cpu that finds the flag of the zeroed bridge still clear is not
served until some later request sends an event (`early_request_stranded`). In every run in which no
cpu tests the flag before the daemon has set it for the first time, no wake-up is lost.
-/

namespace HvisorRux.Bridge

open Common Option

variable {Cpu δ : Type} {s : State Cpu δ}

/-- The cpu has published its request and is about to test `need_wakeup`. -/
def VcpuPc.signals : VcpuPc → Bool
  | wakeup _ _ _ => true
  | _ => false

/-- The daemon sleeps on a ring with a request in it, and nothing is on its way to wake it: no
event, no signal, and no cpu that has still to decide whether it sends one. -/
def LostWakeup (s : State Cpu δ) : Prop :=
  s.daemon = .sigwait ∧ isQueueEmpty s.bridge.reqFront s.bridge.reqRear = false ∧
    s.wakePending = false ∧ ∀ c, (s.vcpu c).signals = false

/-- The side condition: no cpu tests `need_wakeup` before the daemon has set it for the first
time. -/
def TestsArmed (s : State Cpu δ) (e : Event Cpu δ) : Prop :=
  match e with
  | .vcpu c => (s.vcpu c).signals = true → s.daemon ≠ .start
  | _ => True

instance (s : State Cpu δ) (e : Event Cpu δ) : Decidable (TestsArmed s e) :=
  match e with
  | .vcpu c => inferInstanceAs (Decidable ((s.vcpu c).signals = true → s.daemon ≠ .start))
  | .access _ _ | .resume _ | .daemon | .timer _ | .device _ => isTrue trivial

/-! ## The invariant -/

/-- While the daemon is going to sleep without another look at the ring, a request in the ring comes
with a wake-up that is pending or still to be sent. -/
structure WakeInv (s : State Cpu δ) : Prop where
  ring : RingInv s
  armed : s.daemon = .sigwait ∨ s.daemon = .recheck → s.bridge.needWakeup = true
  covered : s.daemon = .start ∨ s.daemon = .sigwait → s.frontPos < s.pushed.length →
    s.wakePending = true ∨ ∃ c, (s.vcpu c).signals = true

theorem WakeInv.init (unused : DeviceReq Cpu) (dev : δ) : WakeInv (init unused dev) where
  ring := RingInv.init unused dev
  armed := by rintro (h | h) <;> cases h
  covered := fun _ h => absurd h (lt_irrefl _)

/-- In a state that satisfies the invariant no wake-up is lost. -/
theorem WakeInv.not_lost (h : WakeInv s) : ¬ LostWakeup s := by
  rintro ⟨hsleep, hring, hpending, hsignals⟩
  have hlt : s.frontPos < s.pushed.length := by
    have hne := mt h.ring.isQueueEmpty_iff.mpr (by rw [← h.ring.front_eq, hring]; simp)
    have hle := h.ring.holds.le_length
    omega
  rcases h.covered (.inr hsleep) hlt with hwake | ⟨c, hc⟩
  · rw [hpending] at hwake
    contradiction
  · rw [hsignals c] at hc
    contradiction

/-- The daemon is at a point from which it looks at the ring again before it sleeps. -/
theorem WakeInv.awake (hring : RingInv s) (hstart : s.daemon ≠ .start)
    (hsleep : s.daemon ≠ .sigwait) (hcheck : s.daemon ≠ .recheck) : WakeInv s where
  ring := hring
  armed := by rintro (h | h) <;> contradiction
  covered := by rintro (h | h) <;> contradiction

/-! ## Steps -/

section Steps

variable [DecidableEq Cpu] {d : Devices δ} {s s' : State Cpu δ} {c : Cpu}

/-- What a step of `mmio_virtio_handler` means for the daemon: the cpu publishes a request and has
the test of the flag before it, or makes this test, or has nothing to do with the wake-up. -/
theorem vcpuStep_cases (hs : vcpuStep s c = some s') :
    s'.daemon = s.daemon ∧ s'.handled = s.handled ∧
      s'.bridge.needWakeup = s.bridge.needWakeup ∧ (∀ c', c' ≠ c → s'.vcpu c' = s.vcpu c') ∧
      ((s'.vcpu c).signals = true ∨
        ((s.vcpu c).signals = true ∧ s'.wakePending = (s.wakePending || s.bridge.needWakeup)) ∨
        ((s.vcpu c).signals = false ∧ s'.pushed = s.pushed ∧ s'.wakePending = s.wakePending)) := by
  have hmove : ∀ (t : State Cpu δ) (pc : VcpuPc) c', c' ≠ c →
      (t.setPc c pc).vcpu c' = t.vcpu c' := by
    intro t pc c' hne
    exact Function.update_of_ne hne _ _
  unfold vcpuStep at hs
  split at hs
  case h_1 => contradiction
  case h_2 mmio hc =>
    split at hs
    · cases hs
      exact ⟨rfl, rfl, rfl, hmove _ _, .inr (.inr ⟨by rw [hc]; rfl, rfl, rfl⟩)⟩
    · contradiction
  case h_3 mmio hc =>
    split at hs <;> cases hs <;>
      exact ⟨rfl, rfl, rfl, hmove _ _, .inr (.inr ⟨by rw [hc]; rfl, rfl, rfl⟩)⟩
  case h_4 mmio hc | h_5 mmio old hc | h_8 mmio old k hc | h_10 mmio k hc =>
    cases hs
    exact ⟨rfl, rfl, rfl, hmove _ _, .inr (.inr ⟨by rw [hc]; rfl, rfl, rfl⟩)⟩
  case h_6 mmio old hc =>
    cases hs
    exact ⟨rfl, rfl, rfl, hmove _ _, .inl (by simp [State.setPc, VcpuPc.signals])⟩
  case h_7 mmio old k hc =>
    cases hs
    exact ⟨rfl, rfl, rfl, hmove _ _, .inr (.inl ⟨by rw [hc]; rfl, rfl⟩)⟩
  case h_9 mmio old k hc =>
    split at hs <;> cases hs
    · exact ⟨rfl, rfl, rfl, fun _ _ => rfl, .inr (.inr ⟨by rw [hc]; rfl, rfl, rfl⟩)⟩
    · exact ⟨rfl, rfl, rfl, hmove _ _, .inr (.inr ⟨by rw [hc]; rfl, rfl, rfl⟩)⟩
  case h_11 => contradiction

omit [DecidableEq Cpu] in
/-- The position of the front depends only on the daemon. -/
theorem State.frontPos_congr (hdaemon : s'.daemon = s.daemon) (hhandled : s'.handled = s.handled) :
    s'.frontPos = s.frontPos := by
  unfold State.frontPos
  rw [hdaemon, hhandled]

omit [DecidableEq Cpu] in
/-- A step of a cpu that has nothing to do with the wake-up. -/
theorem WakeInv.other (h : WakeInv s) (hring : RingInv s') (hdaemon : s'.daemon = s.daemon)
    (hhandled : s'.handled = s.handled) (hflag : s'.bridge.needWakeup = s.bridge.needWakeup)
    (hothers : ∀ c', c' ≠ c → s'.vcpu c' = s.vcpu c') (hc : (s.vcpu c).signals = false)
    (hpushed : s'.pushed = s.pushed) (hpending : s'.wakePending = s.wakePending) : WakeInv s' where
  ring := hring
  armed := by
    rw [hdaemon, hflag]
    exact h.armed
  covered := by
    rw [hdaemon, State.frontPos_congr hdaemon hhandled, hpushed, hpending]
    intro hpc hlt
    rcases h.covered hpc hlt with hwake | ⟨c', hc'⟩
    · exact .inl hwake
    · have hne : c' ≠ c := by
        rintro rfl
        rw [hc] at hc'
        contradiction
      exact .inr ⟨c', by rw [hothers c' hne]; exact hc'⟩

/-- Every step of `mmio_virtio_handler` that meets the side condition keeps the invariant. -/
theorem WakeInv.vcpuStep (h : WakeInv s) (hok : TestsArmed s (.vcpu c))
    (hs : vcpuStep s c = some s') : WakeInv s' := by
  have hring := h.ring.vcpuStep hs
  obtain ⟨hdaemon, hhandled, hflag, hothers, hpublish | ⟨htest, hwake⟩ | ⟨hc, hpushed, hpending⟩⟩ :=
    vcpuStep_cases hs
  · refine ⟨hring, ?_, fun _ _ => .inr ⟨c, hpublish⟩⟩
    rw [hdaemon, hflag]
    exact h.armed
  · refine ⟨hring, ?_, ?_⟩
    · rw [hdaemon, hflag]
      exact h.armed
    · -- the daemon has armed the flag, so the test sends the event
      rw [hdaemon, hwake]
      rintro (hstart | hsleep) _
      · exact absurd hstart (hok htest)
      · exact .inl (by rw [h.armed (.inl hsleep), Bool.or_true])
  · exact h.other hring hdaemon hhandled hflag hothers hc hpushed hpending

omit [DecidableEq Cpu] in
/-- `virtio_handle_req` ends neither asleep nor about to sleep. -/
theorem handleReq_awake (d : Devices δ) (s : State Cpu δ) :
    (handleReq d s).daemon ≠ .start ∧ (handleReq d s).daemon ≠ .sigwait ∧
      (handleReq d s).daemon ≠ .recheck := by
  unfold handleReq
  split
  · simp
  · dsimp only
    split <;> simp

/-- Every step of `handle_virtio_requests` keeps the invariant. -/
theorem WakeInv.daemonStep (h : WakeInv s) (hs : daemonStep d s = some s') : WakeInv s' := by
  have hring := h.ring.daemonStep hs
  unfold Bridge.daemonStep at hs
  split at hs
  case h_1 hpc =>
    cases hs
    refine ⟨hring, fun _ => rfl, ?_⟩
    intro _ hlt
    refine h.covered (.inl hpc) ?_
    rw [State.frontPos_of_ne (by rw [hpc]; simp)]
    exact hlt
  case h_2 =>
    split at hs
    · cases hs; exact awake hring (by simp) (by simp) (by simp)
    · contradiction
  case h_3 =>
    cases hs
    refine awake hring ?_ ?_ ?_ <;> dsimp only <;> split <;> simp
  case h_4 | h_6 | h_7 | h_8 => cases hs; exact awake hring (by simp) (by simp) (by simp)
  case h_5 =>
    cases hs
    obtain ⟨hstart, hsleep, hcheck⟩ := handleReq_awake d s
    exact awake hring hstart hsleep hcheck
  case h_9 => contradiction
  case h_10 =>
    cases hs
    refine ⟨hring, fun _ => rfl, ?_⟩
    rintro (hpc | hpc) <;> cases hpc
  case h_11 hpc =>
    have harmed := h.armed (.inr hpc)
    have hempty := h.ring.isQueueEmpty_iff
    cases hs
    refine ⟨hring, fun _ => harmed, ?_⟩
    -- the daemon falls asleep only if it has just found the ring empty
    intro hsleep hlt
    have hnone : isQueueEmpty s.localFront s.bridge.reqRear = true := by
      by_contra hne
      simp only [hne] at hsleep
      rcases hsleep with hsleep | hsleep <;> cases hsleep
    have hpos := hempty.mp hnone
    rw [State.frontPos_of_ne (by rw [hpc]; simp)] at hpos
    rw [State.frontPos_of_ne (by dsimp only; rw [hnone]; simp)] at hlt
    exact absurd hpos hlt.ne'

/-- Every step of the system that meets the side condition keeps the invariant. -/
theorem WakeInv.step (h : WakeInv s) {e : Event Cpu δ} (hok : TestsArmed s e)
    (hs : step d s e = some s') : WakeInv s' := by
  have hring := h.ring.step hs
  cases e with
  | access c mmio =>
    obtain ⟨hc, rfl⟩ := ite_some_none_eq_some.mp hs
    refine h.other hring rfl rfl rfl ?_ (by rw [hc]; rfl) rfl rfl
    exact fun c' hne => Function.update_of_ne hne _ _
  | vcpu c => exact h.vcpuStep hok hs
  | resume c =>
    simp only [Bridge.step] at hs
    split at hs
    · next hc =>
      cases hs
      refine h.other hring rfl rfl rfl ?_ (by rw [hc]; rfl) rfl rfl
      exact fun c' hne => Function.update_of_ne hne _ _
    · contradiction
  | daemon => exact h.daemonStep hs
  | timer expired =>
    obtain ⟨-, rfl⟩ := ite_some_none_eq_some.mp hs
    refine WakeInv.awake hring ?_ ?_ ?_ <;> dsimp only <;> split <;> simp
  | device dev => cases hs; exact ⟨hring, h.armed, h.covered⟩

/-- **No wake-up is lost**, for any number of cpus and any interleaving in which no cpu tests
`need_wakeup` before the daemon has set it for the first time. -/
theorem no_lost_wakeup (d : Devices δ) (unused : DeviceReq Cpu) (dev : δ) (s : State Cpu δ)
    (h : Reach (Bridge.step d) TestsArmed (Bridge.init unused dev) s) : ¬ LostWakeup s :=
  (h.invariant WakeInv (WakeInv.init unused dev) fun _ _ _ hinv hok hs => hinv.step hok hs).not_lost

end Steps

/-- A cpu pushes a request and finds the flag of the zeroed bridge clear; then the daemon sets the
flag and falls asleep, while the cpu waits for an answer. -/
theorem early_request_stranded :
    ¬ ∀ s, Reach (Bridge.step sampleDevices) anyStep sampleInit s → ¬ LostWakeup s := by
  intro h
  have hrun : ∃ s, run (Bridge.step sampleDevices) anyStep sampleInit
      (sampleAccess sampleRead ++ [.daemon]) = some s ∧ s.daemon = .sigwait ∧
      isQueueEmpty s.bridge.reqFront s.bridge.reqRear = false ∧ s.wakePending = false ∧
      s.vcpu () = .spin sampleRead 0 0 :=
    ⟨_, rfl, rfl, rfl, rfl, rfl⟩
  rcases hrun with ⟨s, hs, hsleep, hring, hpending, hc⟩
  exact h s (reach_of_run hs) ⟨hsleep, hring, hpending, fun _ => by rw [hc]; rfl⟩

/-- The same request after the daemon has set the flag: the cpu sends the event, and the daemon is
still asleep but about to be woken. -/
theorem no_lost_wakeup_sample :
    ∃ s : State Unit Unit, s.daemon = .sigwait ∧ s.pushed.length = 1 ∧ ¬ LostWakeup s := by
  have hrun : ∃ s, run (Bridge.step sampleDevices) TestsArmed sampleInit
      ([.daemon] ++ sampleAccess sampleRead) = some s ∧ s.daemon = .sigwait ∧
      s.pushed.length = 1 :=
    ⟨_, rfl, rfl, rfl⟩
  rcases hrun with ⟨s, hs, hsleep, hpushed⟩
  exact ⟨s, hsleep, hpushed, no_lost_wakeup _ _ _ s (reach_of_run hs)⟩

end HvisorRux.Bridge
