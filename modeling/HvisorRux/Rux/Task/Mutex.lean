import HvisorRux.Rux.Task.Queues

/-!
# The blocking mutex

`Mutex` of `axsync` on top of the tasks of `ruxtask`. The owner is one atomic word that is changed
outside `RUN_QUEUE`; a waiter looks at it again under `RUN_QUEUE` before it blocks. The word is read
and the waiter is queued in two steps, between which the word can change but no other CPU can lock
`RUN_QUEUE`.
-/

namespace HvisorRux.Rux.Task

open Common Option Kernel

/-- Where a task is in the functions of a mutex. -/
inductive LockPc
  /-- it does not use the mutex -/
  | outside
  /-- in `lock`, before the `compare_exchange_weak` -/
  | locking
  /-- in `wait_until`, before it locks `RUN_QUEUE` -/
  | testing
  /-- in `wait_until`, with `RUN_QUEUE` locked after it saw an owner -/
  | parking
  /-- at the end of `wait_until`, before `cancel_events` -/
  | leaving
  /-- it has the guard -/
  | holding
  /-- in `force_unlock`, before `notify_one` -/
  | notifying
deriving DecidableEq

/-- In `lock`. -/
def LockPc.inLock : LockPc → Bool
  | .locking | .testing | .parking | .leaving => true
  | _ => false

/-- The tasks and one mutex. `holder` is the CPU that holds `RUN_QUEUE` between two steps. -/
structure MutexSystem (Cpu Q : Type) where
  kernel : Kernel Cpu Q Unit
  pc : ℕ → LockPc
  holder : Option Cpu
  ownerId : ℕ

/-- The assertions that can fail. -/
inductive MutexAssertion
  | runQueue (a : Assertion)
  | alreadyOwner
  | notOwner
deriving DecidableEq

inductive MutexEvent (Cpu Q : Type)
  /-- scheduling, with no alarms -/
  | scheduling (e : Kernel.Event Cpu Q Unit)
  /-- `lock` is called; if the owner does it, the exchange fails its assertion -/
  | lock (c : Cpu)
  | compareExchangeWeak (c : Cpu) (spurious : Bool)
  /-- `wait_until` tests its condition -/
  | test (c : Cpu)
  | park (c : Cpu) (canPreempt : Bool)
  | cancelEvents (c : Cpu)
  | tryLock (c : Cpu)
  /-- the two halves of `force_unlock` -/
  | swap (c : Cpu)
  | notifyOne (c : Cpu)

namespace MutexSystem

variable {Cpu Q : Type} [DecidableEq Cpu] [DecidableEq Q]

section

variable (s : MutexSystem Cpu Q)

def goto (t : ℕ) (p : LockPc) : MutexSystem Cpu Q :=
  { s with pc := Function.update s.pc t p }

/-- The task that runs on a CPU, if it is there. -/
def taskAt (c : Cpu) (p : LockPc) : Option ℕ :=
  (s.kernel.onCpu c).filter fun t => s.pc t = p

/-- `compare_exchange_weak` of `lock`. -/
def compareExchangeWeak (t : ℕ) (spurious : Bool) : Except MutexAssertion (MutexSystem Cpu Q) :=
  if s.ownerId = 0 ∧ spurious = false then .ok { s.goto t .holding with ownerId := t }
  else if s.ownerId = t then .error .alreadyOwner
  else .ok (s.goto t .testing)

/-- One round of the loop of `wait_until`, up to its `block_current`. -/
def test (c : Cpu) (t : ℕ) : MutexSystem Cpu Q :=
  if s.ownerId = 0 then s.goto t .leaving else { s.goto t .parking with holder := some c }

end

/-- `block_current` in `wait_until`, after which the loop is at its start. -/
def park (wq : QueueId Q) (s : MutexSystem Cpu Q) (c : Cpu) (t : ℕ) (canPreempt : Bool) :
    Except MutexAssertion (MutexSystem Cpu Q) :=
  match s.kernel.blockCurrent c t wq () canPreempt with
  | .ok k => .ok { s.goto t .testing with kernel := k, holder := none }
  | .error a => .error (.runQueue a)

def tryLock (s : MutexSystem Cpu Q) (t : ℕ) : MutexSystem Cpu Q :=
  if s.ownerId = 0 then { s.goto t .holding with ownerId := t } else s

/-- `swap` of `force_unlock` with the assertion after it. -/
def swap (s : MutexSystem Cpu Q) (t : ℕ) : Except MutexAssertion (MutexSystem Cpu Q) :=
  if s.ownerId = t then .ok { s.goto t .notifying with ownerId := 0 } else .error .notOwner

/-- `none` if the event cannot happen. The queue of the mutex is `wq`. -/
def exec (wq : QueueId Q) (s : MutexSystem Cpu Q) :
    MutexEvent Cpu Q → Option (Except MutexAssertion (MutexSystem Cpu Q))
  | .scheduling e =>
    if e.isScheduling then
      (s.kernel.background s.holder e).map fun k => .ok { s with kernel := k }
    else none
  | .lock c =>
    (s.kernel.onCpu c).bind fun t =>
      match s.pc t with
      | .outside => some (.ok (s.goto t .locking))
      | .holding => some (s.compareExchangeWeak t false)
      | _ => none
  | .compareExchangeWeak c spurious =>
    (s.taskAt c .locking).map fun t => s.compareExchangeWeak t spurious
  | .test c =>
    if s.holder = none then (s.taskAt c .testing).map fun t => .ok (s.test c t) else none
  | .park c canPreempt => (s.taskAt c .parking).map fun t => s.park wq c t canPreempt
  | .cancelEvents c =>
    (s.taskAt c .leaving).map fun t =>
      .ok { s.goto t .locking with kernel := s.kernel.cancelEvents wq t }
  | .tryLock c =>
    ((s.kernel.onCpu c).filter fun t => s.pc t = .outside ∨ s.pc t = .holding).map fun t =>
      .ok (s.tryLock t)
  | .swap c => (s.taskAt c .holding).map fun t => s.swap t
  | .notifyOne c =>
    if s.holder = none then
      (s.taskAt c .notifying).map fun t =>
        .ok { s.goto t .outside with kernel := s.kernel.notifyOneLocked c wq true }
    else none

/-- A step that does not fail an assertion. -/
def step (wq : QueueId Q) (s : MutexSystem Cpu Q) (e : MutexEvent Cpu Q) :
    Option (MutexSystem Cpu Q) :=
  (s.exec wq e).bind Except.toOption

/-- A free mutex after the start of the tasks. -/
def init (Q : Type) (c : Cpu) : MutexSystem Cpu Q where
  kernel := Kernel.boot Q Unit c
  pc _ := .outside
  holder := none
  ownerId := 0

end MutexSystem

/-! ## The invariant -/

namespace MutexSystem

variable {Cpu Q : Type} {wq : QueueId Q} {s s' : MutexSystem Cpu Q} {c : Cpu} {t u : ℕ}

/-- Some task is awake in `lock`, so that it will look at the owner. -/
def Awake (s : MutexSystem Cpu Q) : Prop :=
  ∃ u, (s.pc u).inLock = true ∧ s.kernel.state u ≠ .blocked

/-- Some task has released the mutex and will still notify. -/
def Notifying (s : MutexSystem Cpu Q) : Prop := ∃ u, s.pc u = .notifying

/-- A free mutex has no waiters, or somebody who cares for them. -/
structure Inv (wq : QueueId Q) (s : MutexSystem Cpu Q) : Prop where
  kernel : s.kernel.Inv
  positive : s.kernel.Positive
  queue : s.kernel.Lists wq fun t => s.pc t = .testing
  holding : ∀ {t}, s.pc t = .holding → s.ownerId = t ∧ t ≠ 0
  parking : ∀ {t}, s.pc t = .parking → ∃ c, s.holder = some c ∧ s.kernel.current c = some t
  seen : s.holder ≠ none → s.ownerId ≠ 0 ∨ s.Notifying
  served : s.ownerId = 0 → s.kernel.queues wq ≠ [] → s.Awake ∨ s.Notifying

variable {p : LockPc}

theorem pc_goto (s : MutexSystem Cpu Q) (t : ℕ) (p : LockPc) (u : ℕ) :
    (s.goto t p).pc u = if u = t then p else s.pc u :=
  Function.update_apply ..

theorem pc_goto_of_ne (hut : u ≠ t) : (s.goto t p).pc u = s.pc u :=
  Function.update_of_ne hut _ _

theorem taskAt_iff : s.taskAt c p = some t ↔ s.kernel.onCpu c = some t ∧ s.pc t = p := by
  rw [taskAt, filter_eq_some_iff, decide_eq_true_eq]

/-! ### Steps of a task -/

section

variable (h : s.Inv wq)

include h

section

variable (ht : s.kernel.current c = some t)

include ht

theorem Inv.awake_of_current : s.kernel.state t ≠ .blocked := by
  rw [h.kernel.running ht]
  decide

/-- Where a task that runs is does not matter for the queue. -/
theorem Inv.queue_goto (p : LockPc) : s.kernel.Lists wq fun u => (s.goto t p).pc u = .testing := by
  refine h.queue.imp fun u hb => ?_
  have hut : u ≠ t := by
    rintro rfl
    exact h.awake_of_current ht hb
  rw [pc_goto_of_ne hut]

/-- A task that runs goes to another place, with or without the owner changing. -/
theorem Inv.move {owner : ℕ} (hp : p ≠ .parking)
    (hholding : ∀ {u}, (s.goto t p).pc u = .holding → owner = u ∧ u ≠ 0)
    (hseen : s.holder ≠ none → owner ≠ 0 ∨ (s.goto t p).Notifying)
    (hserved : owner = 0 → (s.goto t p).Awake ∨ (s.goto t p).Notifying) :
    { s.goto t p with ownerId := owner }.Inv wq where
  __ := h
  queue := h.queue_goto ht p
  holding := hholding
  parking hu := h.parking (of_update_eq hu hp).2
  seen := hseen
  served hzero _ := hserved hzero

/-- A task that runs in `lock` is awake there. -/
theorem Inv.awake (hp : p.inLock = true) : (s.goto t p).Awake := by
  refine ⟨t, ?_, h.awake_of_current ht⟩
  rw [pc_goto, if_pos rfl]
  exact hp

end

/-- Nobody else gets the guard. -/
theorem Inv.holding_goto (hp : p ≠ .holding) (hu : (s.goto t p).pc u = .holding) :
    s.ownerId = u ∧ u ≠ 0 :=
  h.holding (of_update_eq hu hp).2

end

theorem Notifying.goto (h : s.Notifying) (ht : s.pc t ≠ .notifying) : (s.goto t p).Notifying := by
  obtain ⟨u, hu⟩ := h
  exact ⟨u, update_eq_of hu ht⟩

section

variable (h : s.Inv wq) {k : Kernel Cpu Q Unit}

include h

section

variable (ht : s.kernel.current c = some t)

include ht

/-- A step inside `lock` that leaves the owner alone. -/
theorem Inv.moveInLock (hp : p.inLock = true) (hpark : p ≠ .parking) (hpc : s.pc t ≠ .notifying) :
    (s.goto t p).Inv wq := by
  have hne : p ≠ .holding := by
    rintro rfl
    cases hp
  refine h.move ht hpark (h.holding_goto hne) (fun hholder => ?_) (fun _ => .inl (h.awake ht hp))
  exact (h.seen hholder).imp_right fun hn => hn.goto hpc

/-- The free mutex is taken. -/
theorem Inv.acquire (hfree : s.ownerId = 0) :
    { s.goto t .holding with ownerId := t }.Inv wq := by
  have hpos := h.positive.ne_zero h.kernel ht
  refine h.move ht (by decide) ?_ (fun _ => .inl hpos) (fun hz => absurd hz hpos)
  intro u hu
  rw [pc_goto] at hu
  split at hu
  · next hut => exact ⟨hut.symm, hut ▸ hpos⟩
  · obtain ⟨howner, hne⟩ := h.holding hu
    exact absurd (howner.symm.trans hfree) hne

/-- The guard is dropped. -/
theorem Inv.release (hpc : s.pc t = .holding) :
    { s.goto t .notifying with ownerId := 0 }.Inv wq := by
  have hnotifying : (s.goto t .notifying).Notifying := ⟨t, by rw [pc_goto, if_pos rfl]⟩
  refine h.move ht (by decide) ?_ (fun _ => .inr hnotifying) (fun _ => .inr hnotifying)
  intro u hu
  obtain ⟨hut, hu⟩ := of_update_eq hu (by decide)
  exact absurd ((h.holding hu).1.symm.trans (h.holding hpc).1) hut

/-- A waiter has seen an owner and keeps `RUN_QUEUE`. -/
theorem Inv.see (hholder : s.holder = none) (howner : s.ownerId ≠ 0) :
    { s.goto t .parking with holder := some c }.Inv wq where
  __ := h
  queue := h.queue_goto ht .parking
  holding := h.holding_goto (by decide)
  parking := by
    intro u hu
    rw [show _ = _ from pc_goto s t .parking u] at hu
    split at hu
    · next hut => exact ⟨c, rfl, hut ▸ ht⟩
    · obtain ⟨c', hc', -⟩ := h.parking hu
      rw [hholder] at hc'
      cases hc'
  seen _ := .inl howner
  served hz := absurd hz howner

/-- The waiter blocks. If the mutex was released since, its last owner has still to notify. -/
theorem Inv.park (hpc : s.pc t = .parking) (hb : s.kernel.Blocks k c t wq ()) :
    { s.goto t .testing with kernel := k, holder := none }.Inv wq := by
  obtain ⟨c₀, hc₀, hcur₀⟩ := h.parking hpc
  have hseen := h.seen (by rw [hc₀]; exact some_ne_none c₀)
  refine ⟨hb.inv, h.positive.congr hb.roster, ?_, h.holding_goto (by decide), ?_,
    fun hne => absurd rfl hne, ?_⟩
  · refine h.queue.join hb (h.awake_of_current ht) ?_ fun u hut => ?_
    · exact (pc_goto s t .testing t).trans (if_pos rfl)
    · exact iff_of_eq (congrArg (· = _) (pc_goto_of_ne hut))
  · intro u hu
    obtain ⟨hut, hu⟩ := of_update_eq hu (by decide)
    obtain ⟨c', hc', hcur'⟩ := h.parking hu
    cases hc₀.symm.trans hc'
    exact absurd (some.inj (hcur'.symm.trans hcur₀)) hut
  · intro hz _
    have hn : (s.goto t .testing).Notifying :=
      (hseen.resolve_left (not_not.mpr hz)).goto (by rw [hpc]; decide)
    exact .inr hn

theorem Inv.cancel [DecidableEq Q] (hpc : s.pc t = .leaving) :
    { s.goto t .locking with kernel := s.kernel.cancelEvents wq t }.Inv wq := by
  have hmove := h.moveInLock ht (p := .locking) rfl (by decide) (by rw [hpc]; decide)
  refine ⟨h.kernel.congr core_cancelEvents, h.positive.congr roster_cancelEvents,
    hmove.queue.cancelEvents (h.awake_of_current ht) wq, hmove.holding, fun hp => ?_, hmove.seen,
    fun _ _ => .inl ?_⟩
  · obtain ⟨c', hc', hcur⟩ := hmove.parking hp
    exact ⟨c', hc', (congrFun current_cancelEvents c').trans hcur⟩
  · obtain ⟨u, hu, hb⟩ := h.awake ht (p := .locking) rfl
    exact ⟨u, hu, fun hb' => hb ((congrFun state_cancelEvents u).symm.trans hb')⟩

end

/-- The last owner wakes a waiter, which is then awake in `lock`, or there is none. -/
theorem Inv.notifyOne [DecidableEq Q] (hpc : s.pc t = .notifying) (hholder : s.holder = none)
    (c : Cpu) :
    ({ s.goto t .outside with kernel := s.kernel.notifyOneLocked c wq true } :
      MutexSystem Cpu Q).Inv wq := by
  have htesting : s.pc t ≠ .testing := by
    rw [hpc]
    decide
  have hlists := h.queue.notifyOne c true
  have hroster : (s.kernel.notifyOneLocked c wq true).roster = s.kernel.roster := by
    obtain ⟨-, hk⟩ | ⟨u, m, rest, -, hk⟩ := notifyOneLocked_cases s.kernel c wq true
    · rw [hk]
    · rw [hk]
      exact keeps_unblockTask.2
  refine ⟨h.kernel.notifyOneLocked c wq true, h.positive.congr hroster,
    hlists.imp fun u _ => update_eq_iff_of_ne (by decide) htesting, h.holding_goto (by decide),
    fun hp => ?_, fun hn => absurd hholder hn, fun _ hex => ?_⟩
  · obtain ⟨c', hc', -⟩ := h.parking (of_update_eq hp (by decide)).2
    rw [hholder] at hc'
    cases hc'
  · obtain ⟨hnil, hk⟩ | ⟨u, hu, -, hw⟩ := h.queue.wakesFirst c true
    · rw [show ({ s.goto t .outside with kernel := s.kernel.notifyOneLocked c wq true } :
        MutexSystem Cpu Q).kernel = _ from hk] at hex
      exact absurd hnil hex
    · refine .inl ⟨u, ?_, fun hb => ((hw.blocked u).mp hb).2 rfl⟩
      exact congrArg LockPc.inLock (update_eq_of hu htesting)

theorem Inv.scheduling [DecidableEq Cpu] [DecidableEq Q] {e : Kernel.Event Cpu Q Unit}
    (he : e.isScheduling = true) (hs : s.kernel.background s.holder e = some k) :
    ({ s with kernel := k } : MutexSystem Cpu Q).Inv wq := by
  have hframe := h.kernel.frame hs
  refine ⟨hframe.inv, h.positive.background hs, h.queue.scheduling h.kernel he hs, h.holding,
    fun hp => ?_, h.seen, fun hz hex => ?_⟩
  · obtain ⟨c, hc, hcur⟩ := h.parking hp
    rw [hc] at hs
    exact ⟨c, hc, h.kernel.current_background hs hcur⟩
  · rw [show ({ s with kernel := k } : MutexSystem Cpu Q).kernel.queues = _ from hframe.queues]
      at hex
    obtain ⟨v, hv, hb⟩ | hn := h.served hz hex
    · exact .inl ⟨v, hv, fun hb' => hb (hframe.blocked hb')⟩
    · exact .inr hn

end

/-! ## Runs -/

/-- A step keeps the invariant or fails an assertion other than the one of `force_unlock`. -/
def Safe (wq : QueueId Q) : Except MutexAssertion (MutexSystem Cpu Q) → Prop
  | .ok s => s.Inv wq
  | .error a => a ≠ .notOwner

theorem Inv.exchange (h : s.Inv wq) (ht : s.kernel.current c = some t) (spurious : Bool)
    (hpc : s.pc t ≠ .notifying) : Safe wq (s.compareExchangeWeak t spurious) := by
  unfold MutexSystem.compareExchangeWeak
  split
  · next hfree => exact h.acquire ht hfree.1
  · split
    · exact (by decide : MutexAssertion.alreadyOwner ≠ .notOwner)
    · exact h.moveInLock ht rfl (by decide) hpc

theorem Inv.exec [DecidableEq Cpu] [DecidableEq Q] (h : s.Inv wq) (e : MutexEvent Cpu Q)
    {r : Except MutexAssertion (MutexSystem Cpu Q)} (hr : s.exec wq e = some r) : Safe wq r := by
  cases e with
  | scheduling e =>
    obtain ⟨hguard, k, hk, rfl⟩ := of_guarded hr
    exact h.scheduling hguard hk
  | lock c =>
    obtain ⟨t, hcpu, hr⟩ := bind_eq_some_iff.mp hr
    have hcur := current_of_onCpu hcpu
    split at hr
    · next hpc =>
      cases hr
      exact h.moveInLock hcur rfl (by decide) (by rw [hpc]; decide)
    · next hpc =>
      cases hr
      exact h.exchange hcur false (by rw [hpc]; decide)
    · cases hr
  | compareExchangeWeak c spurious =>
    obtain ⟨t, ht, rfl⟩ := map_eq_some_iff.mp hr
    obtain ⟨hcpu, hpc⟩ := taskAt_iff.mp ht
    exact h.exchange (current_of_onCpu hcpu) spurious (by rw [hpc]; decide)
  | test c =>
    obtain ⟨hguard, t, ht, rfl⟩ := of_guarded hr
    obtain ⟨hcpu, hpc⟩ := taskAt_iff.mp ht
    have hcur := current_of_onCpu hcpu
    unfold MutexSystem.test
    split
    · exact h.moveInLock hcur rfl (by decide) (by rw [hpc]; decide)
    · next howner => exact h.see hcur hguard howner
  | park c canPreempt =>
    obtain ⟨t, ht, rfl⟩ := map_eq_some_iff.mp hr
    obtain ⟨hcpu, hpc⟩ := taskAt_iff.mp ht
    have hcur := current_of_onCpu hcpu
    unfold MutexSystem.park
    split
    · next k hk => exact h.park hcur hpc (h.kernel.blocks hcur hk)
    · exact fun he => by cases he
  | cancelEvents c =>
    obtain ⟨t, ht, rfl⟩ := map_eq_some_iff.mp hr
    obtain ⟨hcpu, hpc⟩ := taskAt_iff.mp ht
    exact h.cancel (current_of_onCpu hcpu) hpc
  | tryLock c =>
    obtain ⟨t, ht, rfl⟩ := map_eq_some_iff.mp hr
    have hcpu := (filter_eq_some_iff.mp ht).1
    unfold MutexSystem.tryLock
    split
    · next hfree => exact h.acquire (current_of_onCpu hcpu) hfree
    · exact h
  | swap c =>
    obtain ⟨t, ht, rfl⟩ := map_eq_some_iff.mp hr
    obtain ⟨hcpu, hpc⟩ := taskAt_iff.mp ht
    rw [MutexSystem.swap, if_pos (h.holding hpc).1]
    exact h.release (current_of_onCpu hcpu) hpc
  | notifyOne c =>
    obtain ⟨hguard, t, ht, rfl⟩ := of_guarded hr
    exact h.notifyOne (taskAt_iff.mp ht).2 hguard c

theorem Inv.init [DecidableEq Cpu] (c : Cpu) : (MutexSystem.init Q c).Inv wq where
  kernel := Kernel.Inv.boot c
  positive := Kernel.Positive.boot c
  queue := Kernel.Lists.boot c wq _
  holding hpc := by cases hpc
  parking hpc := by cases hpc
  seen hne := absurd rfl hne
  served _ hne := absurd rfl hne

theorem Inv.of_reach [DecidableEq Cpu] [DecidableEq Q]
    (h : Reach (step wq) anyStep (MutexSystem.init Q c) s) : s.Inv wq := by
  refine Reach.invariant (Inv wq) (Inv.init c) ?_ h
  intro s e s' hinv _ hstep
  exact hinv.exec e (bind_toOption_eq_some.mp hstep)

/-- In every run the mutex has at most one owner, whose release does not fail its assertion, and a
free mutex has no task blocked in its queue unless a task is awake in `lock` or about to notify. -/
theorem mutex_excludes_and_serves [DecidableEq Cpu] [DecidableEq Q] {c₀ : Cpu}
    (h : Reach (step wq) anyStep (MutexSystem.init Q c₀) s) :
    (∀ t u, s.pc t = .holding → s.pc u = .holding → t = u) ∧
      (∀ t, s.pc t = .holding → s.ownerId = t) ∧
      (∀ e, s.exec wq e ≠ some (.error .notOwner)) ∧
      ¬ (s.ownerId = 0 ∧ (∃ t, (t, ()) ∈ s.kernel.queues wq ∧ s.kernel.state t = .blocked) ∧
        (∀ t, (s.pc t).inLock = true → s.kernel.state t = .blocked) ∧
        ∀ t, s.pc t ≠ .notifying) := by
  have hinv := Inv.of_reach h
  refine ⟨fun t u ht hu => ?_, fun t ht => (hinv.holding ht).1, fun e he => hinv.exec e he rfl, ?_⟩
  · exact (hinv.holding ht).1.symm.trans (hinv.holding hu).1
  · rintro ⟨hfree, ⟨t, hmem, -⟩, hasleep, hquiet⟩
    obtain ⟨u, hu, hawake⟩ | ⟨u, hu⟩ := hinv.served hfree (List.ne_nil_of_mem hmem)
    · exact hawake (hasleep u hu)
    · exact hquiet u hu

/-- The main task has the mutex, the garbage collector on the other CPU blocks, and the main task
is between its two steps of releasing. -/
def sampleEvents : List (MutexEvent Bool Unit) :=
  [.scheduling (.initSecondary false), .scheduling (.yield false), .lock true,
    .compareExchangeWeak true false, .lock false, .compareExchangeWeak false false, .test false,
    .park false true, .swap true]

theorem mutex_excludes_and_serves_sample :
    ∃ s : MutexSystem Bool Unit, Reach (step (.other ())) anyStep (MutexSystem.init Unit true) s ∧
      s.ownerId = 0 ∧ s.kernel.state 3 = .blocked ∧ s.pc 2 = .notifying ∧
      ∀ e, s.exec (.other ()) e ≠ some (.error .notOwner) := by
  have hrun : (run (step (.other ())) anyStep (MutexSystem.init Unit true) sampleEvents).map
      (fun s => (s.ownerId, s.kernel.state 3, s.pc 2)) = some (0, .blocked, .notifying) := by
    decide +kernel
  obtain ⟨s, h, hp⟩ := exists_of_run hrun
  simp only [Prod.mk.injEq] at hp
  exact ⟨s, h, hp.1, hp.2.1, hp.2.2, (mutex_excludes_and_serves h).2.2.1⟩

end MutexSystem

end HvisorRux.Rux.Task
