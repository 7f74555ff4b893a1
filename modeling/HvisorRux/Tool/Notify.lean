import HvisorRux.Tool.Virtqueue
import HvisorRux.Common.Transition

/-!
# Notifications of a queue

The driver publishes a chain, then looks at the device's flags and notifies the device unless
`VRING_USED_F_NO_NOTIFY` is set. A notify handler sets the flag while it drains the queue. Two
shapes of handlers occur: those of the block device and of the console's transmit queue test the
queue again after they have cleared the flag, those of the gpu queues and of the network's transmit
queue do not, and can return with a chain in the queue that nobody will ever announce.
-/

namespace HvisorRux.Tool

open Common Option

/-! ## The system -/

/-- The notify handlers that drain a queue. -/
inductive NotifyHandler
  | blk
  | consoleTx
  | netTx
  | gpuControl
  | gpuCursor
  deriving DecidableEq, Repr

/-- The handler repeats "disable, drain, enable" until the queue is empty, as
`virtio_blk_notify_handler` and `virtio_console_txq_notify_handler` do;
`virtio_net_txq_notify_handler` and the two gpu handlers go through it once. -/
def NotifyHandler.retests : NotifyHandler → Bool
  | .blk | .consoleTx => true
  | .netTx | .gpuControl | .gpuCursor => false

/-- Where a handler is, before the named access: not running, at the outer emptiness test, before
`virtqueue_disable_notify`, at the inner emptiness test, before the next chain is handled, or before
`virtqueue_enable_notify`. -/
inductive HandlerPc
  | idle
  | outer
  | disable
  | inner
  | handle
  | enable
  deriving DecidableEq, Repr

/-- The driver has nothing to do, or has published a chain and not yet looked at the flags. -/
inductive DriverPc
  | idle
  | published
  deriving DecidableEq, Repr

/-- A queue with its handler and its driver, and the notifications that have not reached the
handler. -/
structure NotifyState where
  vq : VirtQueue
  handler : HandlerPc
  driver : DriverPc
  inFlight : ℕ

/-- One atomic step: the driver publishes a chain or looks at the flags, a notification starts the
handler, or the handler makes its next access. A chain is consumed unless the backend of the device
is missing (`handled = false`). -/
inductive NotifyEvent
  | publish (head : UInt16)
  | checkFlags
  | start
  | handler (handled : Bool)
  deriving DecidableEq, Repr

/-- The driver would notify: `VRING_USED_F_NO_NOTIFY` is clear. -/
def VirtQueue.wantsNotify (vq : VirtQueue) : Bool :=
  vq.usedRing.flags &&& vringUsedFNoNotify == 0

/-- The next access of the handler. -/
def handlerStep (h : NotifyHandler) (s : NotifyState) (handled : Bool) : Option NotifyState :=
  match s.handler with
  | .idle => none
  | .outer => some { s with handler := if virtqueueIsEmpty s.vq then .idle else .disable }
  | .disable => some { s with vq := virtqueueDisableNotify s.vq, handler := .inner }
  | .inner => some { s with handler := if virtqueueIsEmpty s.vq then .enable else .handle }
  | .handle =>
    some { s with vq := if handled then s.vq.consume else s.vq, handler := .inner }
  | .enable =>
    some { s with
      vq := virtqueueEnableNotify s.vq
      handler := if h.retests then .outer else .idle }

/-- The system of one queue. -/
def notifyStep (h : NotifyHandler) (s : NotifyState) : NotifyEvent → Option NotifyState
  | .publish head =>
    if s.driver = .idle then some { s with vq := s.vq.publish head, driver := .published }
    else none
  | .checkFlags =>
    if s.driver = .published then
      some { s with
        driver := .idle
        inFlight := if s.vq.wantsNotify then s.inFlight + 1 else s.inFlight }
    else none
  | .start =>
    if s.handler = .idle ∧ 0 < s.inFlight then
      some { s with
        handler := if h.retests then .outer else .disable
        inFlight := s.inFlight - 1 }
    else none
  | .handler handled => handlerStep h s handled

/-- The handler is not running, no notification is on its way nor still to be decided, and the queue
holds a chain. -/
def LostKick (s : NotifyState) : Prop :=
  s.handler = .idle ∧ s.inFlight = 0 ∧ s.driver = .idle ∧ virtqueueIsEmpty s.vq = false

/-- The side condition, empty for handlers that test again: the driver does not look at the flags of
a non-empty queue between the handler's last test and `virtqueue_enable_notify`. -/
def FlagsReadOutsideGap (h : NotifyHandler) (s : NotifyState) (e : NotifyEvent) : Prop :=
  h.retests = false → e = .checkFlags → s.handler = .enable → virtqueueIsEmpty s.vq = true
deriving Decidable

/-! ## The invariant -/

/-- The flag is clear whenever the handler is outside its critical part, and a chain in the queue is
accounted for: there is a notification, or the driver still has to look at the flags, or the handler
will test the queue. -/
structure NotifyInv (h : NotifyHandler) (s : NotifyState) : Prop where
  event_idx : s.vq.eventIdxEnabled = false
  flag_clear : s.handler = .idle ∨ s.handler = .outer ∨ s.handler = .disable →
    s.vq.wantsNotify = true
  announced : s.handler = .idle ∨ (s.handler = .enable ∧ h.retests = false) →
    virtqueueIsEmpty s.vq = false → 0 < s.inFlight ∨ s.driver = .published

theorem NotifyInv.not_lostKick {h : NotifyHandler} {s : NotifyState} (hinv : NotifyInv h s) :
    ¬ LostKick s := by
  rintro ⟨hidle, hflight, hdriver, hfull⟩
  rcases hinv.announced (.inl hidle) hfull with hpos | hpub
  · omega
  · cases hdriver.symm.trans hpub

section Steps

variable {h : NotifyHandler} {s s' : NotifyState}

theorem wantsNotify_enable (vq : VirtQueue) (hevent : vq.eventIdxEnabled = false) :
    (virtqueueEnableNotify vq).wantsNotify = true := by
  have hmask : logicalNot vringUsedFNoNotify = 0 := rfl
  simp [virtqueueEnableNotify, hevent, VirtQueue.wantsNotify, hmask]

theorem virtqueueIsEmpty_enable (vq : VirtQueue) :
    virtqueueIsEmpty (virtqueueEnableNotify vq) = virtqueueIsEmpty vq := by
  unfold virtqueueEnableNotify
  split <;> rfl

theorem NotifyInv.handlerStep (hinv : NotifyInv h s) {handled : Bool}
    (hs : handlerStep h s handled = some s') : NotifyInv h s' := by
  rcases hinv with ⟨hevent, hclear, hann⟩
  unfold Tool.handlerStep at hs
  split at hs
  case h_1 => contradiction
  case h_2 hpc =>
    cases hs
    refine ⟨hevent, fun _ => hclear (.inr (.inl hpc)), ?_⟩
    intro hidle hfull
    -- the handler only returns from an empty queue
    simp only [hfull] at hidle
    rcases hidle with hidle | ⟨hidle, -⟩ <;> cases hidle
  case h_3 =>
    cases hs
    refine ⟨by simp [virtqueueDisableNotify, hevent], ?_, ?_⟩
    · rintro (hpc | hpc | hpc) <;> contradiction
    · rintro (hpc | ⟨hpc, -⟩) <;> contradiction
  case h_4 =>
    cases hs
    refine ⟨hevent, ?_, ?_⟩
    · intro hpc
      cases hempty : virtqueueIsEmpty s.vq <;> simp [hempty] at hpc
    · intro hpc hfull
      simp only [hfull] at hpc
      rcases hpc with hpc | ⟨hpc, -⟩ <;> cases hpc
  case h_5 =>
    cases hs
    refine ⟨?_, ?_, ?_⟩
    · show (if handled then s.vq.consume else s.vq).eventIdxEnabled = false
      unfold VirtQueue.consume
      repeat' split
      all_goals exact hevent
    · rintro (hpc | hpc | hpc) <;> contradiction
    · rintro (hpc | ⟨hpc, -⟩) <;> contradiction
  case h_6 hpc =>
    cases hs
    refine ⟨by simp [virtqueueEnableNotify, hevent], fun _ => wantsNotify_enable _ hevent,
      fun hpc' hfull => ?_⟩
    rw [virtqueueIsEmpty_enable] at hfull
    cases hretest : h.retests with
    | true => simp [hretest] at hpc'
    | false => exact hann (.inr ⟨hpc, hretest⟩) hfull

/-- Every step that meets the side condition keeps the invariant. -/
theorem NotifyInv.step (hinv : NotifyInv h s) {e : NotifyEvent}
    (hok : FlagsReadOutsideGap h s e) (hs : notifyStep h s e = some s') : NotifyInv h s' := by
  cases e with
  | publish head =>
    obtain ⟨-, rfl⟩ := ite_some_none_eq_some.mp hs
    exact ⟨hinv.event_idx, hinv.flag_clear, fun _ _ => .inr rfl⟩
  | checkFlags =>
    obtain ⟨-, rfl⟩ := ite_some_none_eq_some.mp hs
    refine ⟨hinv.event_idx, hinv.flag_clear, fun hpc hfull => .inl ?_⟩
    rcases hpc with hidle | ⟨henable, hretest⟩
    · -- the flag is clear, so the driver notifies
      rw [if_pos (hinv.flag_clear (.inl hidle))]
      exact Nat.succ_pos _
    · cases (hok hretest rfl henable).symm.trans hfull
  | start =>
    obtain ⟨⟨hidle, -⟩, rfl⟩ := ite_some_none_eq_some.mp hs
    refine ⟨hinv.event_idx, fun _ => hinv.flag_clear (.inl hidle), ?_⟩
    intro hpc _
    cases hretest : h.retests <;> simp [hretest] at hpc
  | handler handled => exact hinv.handlerStep hs

end Steps

/-! ## Whole runs -/

/-- An idle handler and driver on the queue `vq`. -/
def NotifyState.init (vq : VirtQueue) : NotifyState := ⟨vq, .idle, .idle, 0⟩

theorem NotifyInv.init {vq : VirtQueue} (h : NotifyHandler) (hevent : vq.eventIdxEnabled = false)
    (hflag : vq.wantsNotify = true) (hempty : virtqueueIsEmpty vq = true) :
    NotifyInv h (NotifyState.init vq) :=
  ⟨hevent, fun _ => hflag, fun _ hfull => by cases hempty.symm.trans hfull⟩

/-- **No lost kick**, without event indices, from any empty queue. Every handler keeps it in the
runs in which the driver never reads the flags in the gap between the handler's last test of a queue
that has filled up again and `virtqueue_enable_notify`; the handlers that test again keep it in all
runs. -/
theorem no_lost_kick (h : NotifyHandler) (vq : VirtQueue) (hevent : vq.eventIdxEnabled = false)
    (hflag : vq.wantsNotify = true) (hempty : virtqueueIsEmpty vq = true) (s : NotifyState) :
    (Reach (notifyStep h) (FlagsReadOutsideGap h) (NotifyState.init vq) s → ¬ LostKick s) ∧
      (h.retests = true → Reach (notifyStep h) anyStep (NotifyState.init vq) s → ¬ LostKick s) := by
  have hinit := NotifyInv.init h hevent hflag hempty
  refine ⟨?_, ?_⟩
  · intro hreach
    exact (hreach.invariant (NotifyInv h) hinit
      fun _ _ _ hinv hok hs => hinv.step hok hs).not_lostKick
  · intro hretest hreach
    refine (hreach.invariant (NotifyInv h) hinit fun _ _ _ hinv _ hs => ?_).not_lostKick
    exact hinv.step (fun hno => by cases hretest.symm.trans hno) hs

/-- An empty queue with notifications enabled. -/
def emptyQueue : VirtQueue where
  zoneId := ⟨1, one_lt_maxZones⟩
  num := 4
  descTable := 0
  availRing := ⟨0, 0, fun _ => 0⟩
  usedRing := ⟨0, 0, fun _ => ⟨0, 0⟩, 0⟩
  lastAvailIdx := 0
  lastUsedIdx := 0
  eventIdxEnabled := false

/-- The driver publishes its second chain after the handler's last test and reads the flags before
the handler clears them. -/
def lostKickSchedule : List NotifyEvent :=
  [.publish 0, .checkFlags, .start, .handler true, .handler true, .handler true, .handler true,
    .publish 1, .checkFlags, .handler true]

/-- The gpu control queue can be left with a chain that was never announced. -/
theorem gpu_kick_lost :
    ¬ ∀ (h : NotifyHandler) (vq : VirtQueue), vq.eventIdxEnabled = false → vq.wantsNotify = true →
      virtqueueIsEmpty vq = true →
      ∀ s, Reach (notifyStep h) anyStep (NotifyState.init vq) s → ¬ LostKick s := by
  intro h
  have hrun : ∃ s, run (notifyStep .gpuControl) anyStep (NotifyState.init emptyQueue)
      lostKickSchedule = some s ∧ LostKick s := ⟨_, rfl, rfl, rfl, rfl, rfl⟩
  rcases hrun with ⟨s, hs, hlost⟩
  exact h .gpuControl emptyQueue rfl rfl rfl s (reach_of_run hs) hlost

/-- A run of the gpu control queue in which the second chain is published after the flag is
clear. -/
theorem no_lost_kick_sample :
    ∃ s : NotifyState, s.inFlight = 1 ∧ virtqueueIsEmpty s.vq = false ∧ ¬ LostKick s := by
  have hrun : ∃ s, run (notifyStep .gpuControl) (FlagsReadOutsideGap .gpuControl)
      (NotifyState.init emptyQueue)
      [.publish 0, .checkFlags, .start, .handler true, .handler true, .handler true, .handler true,
        .publish 1, .handler true, .checkFlags] = some s ∧ s.inFlight = 1 ∧
      virtqueueIsEmpty s.vq = false := ⟨_, rfl, rfl, rfl⟩
  rcases hrun with ⟨s, hs, hflight, hfull⟩
  exact ⟨s, hflight, hfull, (no_lost_kick .gpuControl emptyQueue rfl rfl rfl s).1 (reach_of_run hs)⟩

end HvisorRux.Tool
