import HvisorRux.Rux.Task.Mutex

/-!
# Condition variables

`Condvar` of the POSIX layer, which is a wait queue next to a mutex. `pthread_cond_wait` unlocks the
mutex, waits in the queue and locks the mutex again, in that order and with nothing that holds the
three together. A broadcast takes tasks out of the queue one by one, each time with `RUN_QUEUE`
locked anew, until it finds the queue empty.
-/

namespace HvisorRux.Rux.Task

open Common Function Option Kernel MutexSystem

/-- The queue of the mutex and the one of the condition variable. -/
inductive CondQueue
  | mutex
  | cond
deriving DecidableEq

/-- Where a task is in the functions of the condition variable. -/
inductive CondPhase
  /-- in none of them -/
  | free
  /-- in `wait`, before `notify_one` of the mutex that it has released -/
  | releasing
  /-- in `wait`, before it locks `RUN_QUEUE` to block -/
  | unlocked
  /-- in `wait`, in the queue or woken -/
  | waiting
  /-- in `notify_all` -/
  | broadcasting
deriving DecidableEq

/-- The CPU whose current task takes the step. -/
def MutexEvent.cpu {Cpu Q : Type} : MutexEvent Cpu Q → Option Cpu
  | .scheduling _ => none
  | .lock c | .compareExchangeWeak c _ | .test c | .park c _ | .cancelEvents c | .tryLock c
  | .swap c | .notifyOne c => some c

/-- A mutex and a condition variable. For a task in `notify_all`, `owed` are the tasks that were
waiting when it was called and that it has not woken. -/
structure CondSystem (Cpu : Type) where
  mutex : MutexSystem Cpu CondQueue
  phase : ℕ → CondPhase
  owed : ℕ → ℕ → Bool

inductive CondEvent (Cpu : Type)
  | mutex (e : MutexEvent Cpu CondQueue)
  /-- `pthread_cond_wait`: the two halves of the unlock, the block and what follows it -/
  | wait (c : Cpu)
  | unlock (c : Cpu)
  | block (c : Cpu) (canPreempt : Bool)
  | resume (c : Cpu)
  /-- `pthread_cond_broadcast` is called -/
  | broadcast (c : Cpu)
  /-- one round of `notify_all` -/
  | notifyNext (c : Cpu)
  /-- `pthread_cond_signal` -/
  | signal (c : Cpu)

namespace CondSystem

variable {Cpu : Type}

/-- The queues of the mutex and of the condition variable. -/
def mutexWq : QueueId CondQueue := .other .mutex

def condWq : QueueId CondQueue := .other .cond

def goto (s : CondSystem Cpu) (t : ℕ) (p : CondPhase) : CondSystem Cpu :=
  { s with phase := update s.phase t p }

/-- The task has called `pthread_cond_wait` and was not woken. -/
def waits (s : CondSystem Cpu) (t : ℕ) : Bool :=
  match s.phase t with
  | .releasing | .unlocked => true
  | .waiting => decide (s.mutex.kernel.state t = .blocked)
  | _ => false

variable [DecidableEq Cpu]

section

variable (s : CondSystem Cpu)

/-- The task that runs on a CPU, if it is there. -/
def taskAt (c : Cpu) (p : CondPhase) : Option ℕ :=
  (s.mutex.kernel.onCpu c).filter fun t => s.phase t = p

/-- The same for a task that has the mutex and is in no function. -/
def ownerAt (c : Cpu) : Option ℕ :=
  (s.mutex.kernel.onCpu c).filter fun t => s.phase t = .free ∧ s.mutex.pc t = .holding

def block (c : Cpu) (t : ℕ) (canPreempt : Bool) : Except MutexAssertion (CondSystem Cpu) :=
  match s.mutex.kernel.blockCurrent c t condWq () canPreempt with
  | .ok k => .ok { s.goto t .waiting with mutex := { s.mutex with kernel := k } }
  | .error a => .error (.runQueue a)

/-- `notify_one` of the queue of the condition variable. -/
def notify (c : Cpu) : CondSystem Cpu :=
  { s with
    mutex := { s.mutex with kernel := s.mutex.kernel.notifyOneLocked c condWq true } }

/-- One round of the loop of `notify_all`, in which the task `t` is. -/
def notifyNext (c : Cpu) (t : ℕ) : CondSystem Cpu :=
  match s.mutex.kernel.queues condWq with
  | [] => s.goto t .free
  | (u, _) :: _ =>
    { s.notify c with owed := update s.owed t (update (s.owed t) u false) }

/-- `none` if the event cannot happen. -/
def exec : CondEvent Cpu → Option (Except MutexAssertion (CondSystem Cpu))
  | .mutex e =>
    if ∀ c ∈ e.cpu, ∀ t ∈ s.mutex.kernel.onCpu c, s.phase t = .free then
      (s.mutex.exec mutexWq e).map fun r => r.map fun m => { s with mutex := m }
    else none
  | .wait c =>
    (s.ownerAt c).map fun t =>
      (s.mutex.swap t).map fun m => { s.goto t .releasing with mutex := m }
  | .unlock c =>
    (s.taskAt c .releasing).bind fun t =>
      (s.mutex.exec mutexWq (.notifyOne c)).map fun r =>
        r.map fun m => { s.goto t .unlocked with mutex := m }
  | .block c canPreempt =>
    if s.mutex.holder = none then
      (s.taskAt c .unlocked).map fun t => s.block c t canPreempt
    else none
  | .resume c =>
    (s.taskAt c .waiting).map fun t =>
      .ok { s.goto t .free with
        mutex := { s.mutex.goto t .locking with
          kernel := s.mutex.kernel.cancelEvents condWq t } }
  | .broadcast c =>
    (s.ownerAt c).map fun t => .ok { s.goto t .broadcasting with owed := update s.owed t s.waits }
  | .notifyNext c =>
    if s.mutex.holder = none then
      (s.taskAt c .broadcasting).map fun t => .ok (s.notifyNext c t)
    else none
  | .signal c =>
    if s.mutex.holder = none then (s.ownerAt c).map fun _ => .ok (s.notify c) else none

/-- A step that does not fail an assertion. -/
def step (e : CondEvent Cpu) : Option (CondSystem Cpu) :=
  (s.exec e).bind Except.toOption

end

def init (c : Cpu) : CondSystem Cpu where
  mutex := MutexSystem.init CondQueue c
  phase _ := .free
  owed _ _ := false

end CondSystem

/-! ## Steps of the mutex and the other queue -/

namespace MutexSystem

variable {Cpu Q : Type} {wq : QueueId Q} {s s' : MutexSystem Cpu Q} {c : Cpu} {t u : ℕ}
  {e : MutexEvent Cpu Q} {P : ℕ → Prop}

/-- What a step of the mutex is for another queue and the tasks that wait there, and for the tasks
that do not take it. -/
structure Beside (q : QueueId Q) (P : ℕ → Prop) (s s' : MutexSystem Cpu Q)
    (e : MutexEvent Cpu Q) : Prop where
  lists : s'.kernel.Lists q P
  queues : s'.kernel.queues q = s.kernel.queues q
  pc : ∀ u, s'.pc u = s.pc u ∨ ∃ c, e.cpu = some c ∧ s.kernel.onCpu c = some u

theorem pc_goto_of_acting {p : LockPc} (he : e.cpu = some c)
    (ht : s.kernel.onCpu c = some t) (u : ℕ) :
    (s.goto t p).pc u = s.pc u ∨ ∃ c, e.cpu = some c ∧ s.kernel.onCpu c = some u := by
  by_cases hut : u = t
  · exact .inr ⟨c, he, hut ▸ ht⟩
  · exact .inl (pc_goto_of_ne hut)

theorem Inv.beside [DecidableEq Cpu] [DecidableEq Q] {q : QueueId Q}
    (h : s.Inv wq) (hl : s.kernel.Lists q P) (hq : q ≠ wq)
    (hP : ∀ t, P t → s.pc t = .outside) (hr : s.exec wq e = some (.ok s')) : Beside q P s s' e := by
  cases e with
  | scheduling e =>
    obtain ⟨hguard, k, hk, heq⟩ := of_guarded hr
    cases heq
    exact ⟨hl.scheduling h.kernel hguard hk, congrFun (h.kernel.frame hk).queues q,
      fun u => .inl rfl⟩
  | lock c =>
    obtain ⟨t, hcpu, hr⟩ := bind_eq_some_iff.mp hr
    split at hr
    · cases hr
      exact ⟨hl, rfl, pc_goto_of_acting rfl hcpu⟩
    · unfold compareExchangeWeak at hr
      split_ifs at hr
      · cases hr
        exact ⟨hl, rfl, pc_goto_of_acting rfl hcpu⟩
      · cases hr
      · cases hr
        exact ⟨hl, rfl, pc_goto_of_acting rfl hcpu⟩
    · cases hr
  | compareExchangeWeak c spurious =>
    obtain ⟨t, ht, hr⟩ := map_eq_some_iff.mp hr
    have hcpu := (taskAt_iff.mp ht).1
    unfold compareExchangeWeak at hr
    split_ifs at hr
    · cases hr
      exact ⟨hl, rfl, pc_goto_of_acting rfl hcpu⟩
    · cases hr
      exact ⟨hl, rfl, pc_goto_of_acting rfl hcpu⟩
  | test c =>
    obtain ⟨-, t, ht, heq⟩ := of_guarded hr
    have hcpu := (taskAt_iff.mp ht).1
    cases heq
    unfold test
    split_ifs
    · exact ⟨hl, rfl, pc_goto_of_acting rfl hcpu⟩
    · exact ⟨hl, rfl, pc_goto_of_acting rfl hcpu⟩
  | park c canPreempt =>
    obtain ⟨t, ht, hr⟩ := map_eq_some_iff.mp hr
    obtain ⟨hcpu, hpc⟩ := taskAt_iff.mp ht
    have hcur := current_of_onCpu hcpu
    unfold MutexSystem.park at hr
    split at hr
    · next k hk =>
      cases hr
      have hb := h.kernel.blocks hcur hk
      refine ⟨?_, hb.others q hq, pc_goto_of_acting rfl hcpu⟩
      refine hl.joinOther hb hq (fun ht => ?_) (fun u _ => Iff.rfl) (h.awake_of_current hcur)
      rw [hP t ht] at hpc
      cases hpc
    · cases hr
  | cancelEvents c =>
    obtain ⟨t, ht, hr⟩ := map_eq_some_iff.mp hr
    have hcpu := (taskAt_iff.mp ht).1
    cases hr
    exact ⟨hl.cancelEvents (h.awake_of_current (current_of_onCpu hcpu)) wq,
      queues_cancelEvents_of_ne hq, pc_goto_of_acting rfl hcpu⟩
  | tryLock c =>
    obtain ⟨t, ht, hr⟩ := map_eq_some_iff.mp hr
    have hcpu := (filter_eq_some_iff.mp ht).1
    cases hr
    unfold tryLock
    split_ifs
    · exact ⟨hl, rfl, pc_goto_of_acting rfl hcpu⟩
    · exact ⟨hl, rfl, fun u => .inl rfl⟩
  | swap c =>
    obtain ⟨t, ht, hr⟩ := map_eq_some_iff.mp hr
    unfold swap at hr
    split_ifs at hr
    cases hr
    exact ⟨hl, rfl, pc_goto_of_acting rfl (taskAt_iff.mp ht).1⟩
  | notifyOne c =>
    obtain ⟨-, t, ht, heq⟩ := of_guarded hr
    cases heq
    refine ⟨hl.notifyOther h.queue hq (fun u hu hPu => ?_) c true, ?_,
      pc_goto_of_acting rfl (taskAt_iff.mp ht).1⟩
    · rw [hP u hPu] at hu
      cases hu
    · obtain ⟨-, hk⟩ | ⟨u, -, -, hw⟩ := h.queue.wakesFirst c true
      · exact congrArg (fun k => k.queues q) hk
      · exact hw.others q hq

/-- Something happens to another queue and its tasks. -/
theorem Inv.withKernel {k : Kernel Cpu Q Unit} (h : s.Inv wq) (hinv : k.Inv)
    (hroster : k.roster = s.kernel.roster) (hlists : k.Lists wq fun t => s.pc t = .testing)
    (hqueue : k.queues wq = s.kernel.queues wq)
    (hcurrent : ∀ {c u}, s.holder = some c → s.kernel.current c = some u → k.current c = some u)
    (hblocked : ∀ {u}, (s.pc u).inLock = true → k.state u = .blocked →
      s.kernel.state u = .blocked) :
    { s with kernel := k }.Inv wq where
  __ := h
  kernel := hinv
  positive := h.positive.congr hroster
  queue := hlists
  parking hp := by
    obtain ⟨c, hc, hcur⟩ := h.parking hp
    exact ⟨c, hc, hcurrent hc hcur⟩
  served hz hex := by
    obtain ⟨u, hu, hb⟩ | hn := h.served hz (hqueue ▸ hex)
    · exact .inl ⟨u, hu, fun hb' => hb (hblocked hu hb')⟩
    · exact .inr hn

/-- A task that waits elsewhere is woken. -/
theorem Inv.notifyOther [DecidableEq Q] {q : QueueId Q} (h : s.Inv wq)
    (hl : s.kernel.Lists q P) (hq : q ≠ wq) (hP : ∀ t, P t → s.pc t = .outside) (c : Cpu) :
    { s with kernel := s.kernel.notifyOneLocked c q true }.Inv wq := by
  have hlists := h.queue.notifyOther hl hq.symm (fun u hu ht => by rw [hP u hu] at ht; cases ht) c
    true
  obtain ⟨-, hk⟩ | ⟨t, m, rest, -, hk⟩ := notifyOneLocked_cases s.kernel c q true
  · rw [hk]
    exact h
  refine h.withKernel (h.kernel.notifyOneLocked c q true) ?_ hlists ?_ (fun _ hcur => ?_)
    (fun _ hb => ?_)
  · rw [hk]
    exact keeps_unblockTask.2
  · rw [hk, queues_wake, queues_setQueue_of_ne hq.symm]
  · rw [hk]
    exact (congrFun (current_unblockTask _ _ _ _) _).trans hcur
  · rw [hk, state_wake] at hb
    split at hb
    · cases hb
    · exact hb

end MutexSystem

/-! ## The invariant -/

namespace CondSystem

variable {Cpu : Type} {s s' : CondSystem Cpu} {c : Cpu} {t u : ℕ} {p : CondPhase}
  {e : CondEvent Cpu}

structure Inv (s : CondSystem Cpu) : Prop where
  mutex : s.mutex.Inv mutexWq
  queue : s.mutex.kernel.Lists condWq fun t => s.phase t = .waiting
  outside : ∀ {t}, s.phase t = .unlocked ∨ s.phase t = .waiting → s.mutex.pc t = .outside
  broadcasting : ∀ {t}, s.phase t = .broadcasting → s.mutex.pc t = .holding
  owed : ∀ {b u}, s.owed b u = true → s.phase b = .broadcasting ∧ s.phase u = .waiting ∧
    s.mutex.kernel.state u = .blocked

theorem condWq_ne : condWq ≠ mutexWq := by
  decide

theorem phase_goto (s : CondSystem Cpu) (t : ℕ) (p : CondPhase) (u : ℕ) :
    (s.goto t p).phase u = if u = t then p else s.phase u :=
  update_apply ..

theorem phase_goto_of_ne (hut : u ≠ t) : (s.goto t p).phase u = s.phase u :=
  update_of_ne hut _ _

/-- A task that moves to another phase is not among those that have released the mutex. -/
theorem released_of_goto (hp : ¬(p = .unlocked ∨ p = .waiting))
    (hu : (s.goto t p).phase u = .unlocked ∨ (s.goto t p).phase u = .waiting) :
    u ≠ t ∧ (s.phase u = .unlocked ∨ s.phase u = .waiting) :=
  of_update (p := fun q : CondPhase => q = .unlocked ∨ q = .waiting) hu hp

theorem taskAt_iff : s.taskAt c p = some t ↔ s.mutex.kernel.onCpu c = some t ∧ s.phase t = p := by
  rw [taskAt, filter_eq_some_iff, decide_eq_true_eq]

theorem ownerAt_iff :
    s.ownerAt c = some t ↔
      s.mutex.kernel.onCpu c = some t ∧ s.phase t = .free ∧ s.mutex.pc t = .holding := by
  rw [ownerAt, filter_eq_some_iff, decide_eq_true_eq]

section

variable (h : s.Inv)

include h

namespace Inv

/-- The tasks that wait are outside the mutex. -/
theorem waiting_outside : ∀ t, s.phase t = .waiting → s.mutex.pc t = .outside :=
  fun _ ht => h.outside (.inr ht)

/-- A task goes to a phase of which the invariant says little. -/
theorem goto
    (ht : s.phase t ≠ .waiting ∧ s.phase t ≠ .broadcasting) (hp : p ≠ .waiting ∧ p ≠ .broadcasting)
    (hpc : p = .unlocked → s.mutex.pc t = .outside) : (s.goto t p).Inv := by
  refine ⟨h.mutex, h.queue.imp fun u _ => update_eq_iff_of_ne hp.1 ht.1, fun {u} hu => ?_,
    fun hu => h.broadcasting (of_update_eq hu hp.2).2, fun hbu => ?_⟩
  · rw [phase_goto] at hu
    split at hu
    · next hut =>
      subst hut
      exact hpc (hu.resolve_right hp.1)
    · exact h.outside hu
  · obtain ⟨hb, hw, hblocked⟩ := h.owed hbu
    exact ⟨update_eq_of hb ht.2, update_eq_of hw ht.1, hblocked⟩

/-- The mutex takes a step, by a task of whose place the invariant says nothing. -/
theorem mutexStep [DecidableEq Cpu] {e : MutexEvent Cpu CondQueue}
    {m : MutexSystem Cpu CondQueue} (hr : s.mutex.exec mutexWq e = some (.ok m))
    (hcpu : ∀ {c u}, e.cpu = some c → s.mutex.kernel.onCpu c = some u →
      s.phase u = .free ∨ s.phase u = .releasing) :
    { s with mutex := m }.Inv := by
  have hsafe : m.Inv mutexWq := h.mutex.exec e hr
  have hbeside := h.mutex.beside h.queue condWq_ne h.waiting_outside hr
  have hkeep : ∀ {u}, s.phase u ≠ .free → s.phase u ≠ .releasing → m.pc u = s.mutex.pc u := by
    intro u hfree hreleasing
    obtain hsame | ⟨c, hc, hu⟩ := hbeside.pc u
    · exact hsame
    · exact absurd ((hcpu hc hu).resolve_left hfree) hreleasing
  refine ⟨hsafe, hbeside.lists, fun {u} hu => ?_, fun {u} hu => ?_, fun {b u} hbu => ?_⟩
  · refine (hkeep ?_ ?_).trans (h.outside hu)
    · exact hu.elim (fun he => by rw [he]; decide) (fun he => by rw [he]; decide)
    · exact hu.elim (fun he => by rw [he]; decide) (fun he => by rw [he]; decide)
  · exact (hkeep (by rw [hu]; decide) (by rw [hu]; decide)).trans (h.broadcasting hu)
  · obtain ⟨hb, hw, hblocked⟩ := h.owed hbu
    have hmem := (h.queue.mem u).mpr ⟨hw, hblocked⟩
    rw [← hbeside.queues] at hmem
    exact ⟨hb, hw, ((hbeside.lists.mem u).mp hmem).2⟩

/-- The task that has released the mutex joins the queue. -/
theorem block {k : Kernel Cpu CondQueue Unit}
    (ht : s.mutex.kernel.current c = some t) (hphase : s.phase t = .unlocked)
    (hholder : s.mutex.holder = none) (hb : s.mutex.kernel.Blocks k c t condWq ()) :
    ({ s.goto t .waiting with mutex := { s.mutex with kernel := k } } : CondSystem Cpu).Inv := by
  have hawake := h.mutex.awake_of_current ht
  have hpc := h.outside (.inl hphase)
  have hmutex : { s.mutex with kernel := k }.Inv mutexWq := by
    refine h.mutex.withKernel hb.inv hb.roster ?_ (hb.others _ condWq_ne.symm) (fun hc => ?_)
      (fun {u} hu hblocked => ?_)
    · refine h.mutex.queue.joinOther hb condWq_ne.symm ?_ (fun u _ => Iff.rfl) hawake
      rw [hpc]
      decide
    · rw [hholder] at hc
      cases hc
    · refine ((hb.blocked u).mp hblocked).resolve_left ?_
      rintro rfl
      rw [hpc] at hu
      cases hu
  refine ⟨hmutex, ?_, fun {u} hu => ?_,
    fun hu => h.broadcasting (of_update_eq hu (by decide)).2, fun {b u} hbu => ?_⟩
  · refine h.queue.join hb hawake ((phase_goto s t .waiting t).trans (if_pos rfl)) fun u hut => ?_
    exact iff_of_eq (congrArg (· = _) (phase_goto_of_ne hut))
  · by_cases hut : u = t
    · exact hut ▸ hpc
    · exact h.outside ((phase_goto_of_ne hut).symm ▸ hu)
  · obtain ⟨hbb, hw, hblocked⟩ := h.owed hbu
    exact ⟨update_eq_of hbb (by rw [hphase]; decide), update_eq_of hw (by rw [hphase]; decide),
      (hb.blocked u).mpr (.inr hblocked)⟩

/-- A woken task goes on to lock the mutex. -/
theorem resume (ht : s.mutex.kernel.current c = some t) (hphase : s.phase t = .waiting) :
    ({ s.goto t .free with
      mutex := { s.mutex.goto t .locking with
        kernel := s.mutex.kernel.cancelEvents condWq t } } : CondSystem Cpu).Inv := by
  have hawake := h.mutex.awake_of_current ht
  have hpc := h.outside (.inr hphase)
  have hmove := h.mutex.moveInLock ht (p := .locking) rfl (by decide) (by rw [hpc]; decide)
  have hne : ∀ {u}, s.mutex.kernel.state u = .blocked → u ≠ t := by
    rintro u hb rfl
    exact hawake hb
  have hstate := state_cancelEvents (k := s.mutex.kernel) (q := condWq) (t := t)
  have hmutex := hmove.withKernel (k := s.mutex.kernel.cancelEvents condWq t)
    (h.mutex.kernel.congr core_cancelEvents) roster_cancelEvents
    (hmove.queue.cancelEvents hawake condWq) (queues_cancelEvents_of_ne condWq_ne.symm)
    (fun _ hcur => (congrFun current_cancelEvents _).trans hcur)
    (fun _ hb => (congrFun hstate _).symm.trans hb)
  refine ⟨hmutex, ?_, fun {u} hu => ?_, fun {u} hu => ?_, fun {b u} hbu => ?_⟩
  · refine (h.queue.cancelEvents hawake condWq).imp fun u hb => ?_
    rw [hstate] at hb
    exact iff_of_eq (congrArg (· = _) (phase_goto_of_ne (hne hb)))
  · obtain ⟨hut, hu⟩ := released_of_goto (by decide) hu
    exact (pc_goto_of_ne hut).trans (h.outside hu)
  · obtain ⟨hut, hu⟩ := of_update_eq hu (by decide)
    exact (pc_goto_of_ne hut).trans (h.broadcasting hu)
  · obtain ⟨hbb, hw, hblocked⟩ := h.owed hbu
    exact ⟨update_eq_of hbb (by rw [hphase]; decide), (phase_goto_of_ne (hne hblocked)).trans hw,
      (congrFun hstate u).trans hblocked⟩

/-! ### Notifying -/

/-- Only one task has the mutex, so only one is in a broadcast. -/
theorem broadcaster_unique (ht : s.mutex.pc t = .holding)
    (hu : s.phase u = .broadcasting) : u = t :=
  (h.mutex.holding (h.broadcasting hu)).1.symm.trans (h.mutex.holding ht).1

/-- A broadcast starts when no task has released the mutex and not joined the queue. -/
theorem broadcast (hphase : s.phase t = .free) (hpc : s.mutex.pc t = .holding)
    (hclear : ∀ u, s.phase u ≠ .releasing ∧ s.phase u ≠ .unlocked) :
    { s.goto t .broadcasting with owed := update s.owed t s.waits }.Inv := by
  have hkeep : ∀ {u}, s.phase u ≠ .free → u ≠ t := by
    rintro u hu rfl
    exact hu hphase
  refine ⟨h.mutex, h.queue.imp fun u _ => ?_, fun {u} hu => ?_, fun {u} hu => ?_, ?_⟩
  · exact update_eq_iff_of_ne (by decide) (by rw [hphase]; decide)
  · exact h.outside (released_of_goto (by decide) hu).2
  · rw [show _ = _ from phase_goto s t .broadcasting u] at hu
    split at hu
    · next hut => exact hut ▸ hpc
    · exact h.broadcasting hu
  · intro b u hbu
    by_cases hbt : b = t
    · subst hbt
      have hw : s.waits u = true := by
        rw [← hbu]
        exact congrFun (update_self b s.waits s.owed).symm u
      unfold waits at hw
      have hwaiting : s.phase u = .waiting := by
        split at hw
        · next he => exact absurd he (hclear u).1
        · next he => exact absurd he (hclear u).2
        · next he => exact he
        · cases hw
      rw [hwaiting] at hw
      refine ⟨(phase_goto s b _ b).trans (if_pos rfl), ?_, of_decide_eq_true hw⟩
      exact (phase_goto_of_ne (hkeep (by rw [hwaiting]; decide))).trans hwaiting
    · have hold : s.owed b u = true := by
        rw [← hbu]
        exact congrFun (update_of_ne hbt s.waits s.owed).symm u
      obtain ⟨hb, hw, hblocked⟩ := h.owed hold
      exact ⟨(phase_goto_of_ne hbt).trans hb,
        (phase_goto_of_ne (hkeep (by rw [hw]; decide))).trans hw, hblocked⟩

/-- `notify_one` on the queue of the condition variable, with what is owed after it. -/
theorem notify (c : Cpu) {owed : ℕ → ℕ → Bool}
    (howed : ∀ {b u}, owed b u = true → s.owed b u = true ∧
      (s.notify c).mutex.kernel.state u = .blocked) :
    { s.notify c with owed := owed }.Inv := by
  refine ⟨h.mutex.notifyOther h.queue condWq_ne h.waiting_outside c, h.queue.notifyOne c true,
    h.outside, h.broadcasting, fun {b u} hbu => ?_⟩
  obtain ⟨hold, hblocked⟩ := howed hbu
  obtain ⟨hb, hw, -⟩ := h.owed hold
  exact ⟨hb, hw, hblocked⟩

theorem notifyNext (hphase : s.phase t = .broadcasting) (c : Cpu) : (s.notifyNext c t).Inv := by
  have hpc := h.broadcasting hphase
  unfold CondSystem.notifyNext
  split
  · next hnil =>
    -- The queue is empty, so nobody is owed anything.
    have hnone : ∀ {b u}, s.owed b u ≠ true := by
      intro b u hbu
      obtain ⟨-, hw, hblocked⟩ := h.owed hbu
      have hmem := (h.queue.mem u).mpr ⟨hw, hblocked⟩
      rw [hnil] at hmem
      cases hmem
    refine ⟨h.mutex, h.queue.imp fun u _ => ?_, fun {u} hu => ?_,
      fun hu => h.broadcasting (of_update_eq hu (by decide)).2, fun hbu => absurd hbu hnone⟩
    · exact update_eq_iff_of_ne (by decide) (by rw [hphase]; decide)
    · exact h.outside (released_of_goto (by decide) hu).2
  · next v m rest hcons =>
    obtain ⟨hnil, -⟩ | ⟨w, -, -, hw⟩ := h.queue.wakesFirst c true
    · rw [hnil] at hcons
      cases hcons
    have hwv : w = v := by
      have hhead := hw.head
      rw [hcons] at hhead
      exact (some.inj hhead).symm
    refine h.notify c fun {b u} hbu => ?_
    by_cases hbt : b = t
    · subst hbt
      rw [update_self] at hbu
      obtain ⟨huv, hbu⟩ := of_update_eq hbu (by decide)
      exact ⟨hbu, (hw.blocked u).mpr ⟨(h.owed hbu).2.2, hwv ▸ huv⟩⟩
    · rw [update_of_ne hbt] at hbu
      exact absurd (h.broadcaster_unique hpc (h.owed hbu).1) hbt

/-- A signal of a task that is in no function owes nothing and finds no broadcast. -/
theorem signal (hphase : s.phase t = .free) (hpc : s.mutex.pc t = .holding)
    (c : Cpu) : (s.notify c).Inv := by
  refine h.notify c fun {b u} hbu => ?_
  have hb := (h.owed hbu).1
  rw [h.broadcaster_unique hpc hb, hphase] at hb
  cases hb

end Inv

end

/-! ## Runs -/

/-- Signals and broadcasts are not called while a task has released the mutex in its wait and not
yet joined the queue. -/
def CallsClear (s : CondSystem Cpu) : CondEvent Cpu → Prop
  | .broadcast _ | .signal _ => ∀ t, s.phase t ≠ .releasing ∧ s.phase t ≠ .unlocked
  | _ => True

theorem Except.map_eq_ok {ε α β : Type} {f : α → β} {r : Except ε α} {b : β}
    (h : r.map f = .ok b) : ∃ a, r = .ok a ∧ f a = b := by
  cases r with
  | error e => cases h
  | ok a =>
    cases h
    exact ⟨a, rfl, rfl⟩

theorem Inv.step [DecidableEq Cpu] (h : s.Inv) (hok : CallsClear s e)
    (hs : s.step e = some s') : s'.Inv := by
  have hr := bind_toOption_eq_some.mp hs
  cases e with
  | mutex e =>
    obtain ⟨hguard, r, hr', heq⟩ := of_guarded hr
    obtain ⟨m, rfl, rfl⟩ := Except.map_eq_ok heq
    exact h.mutexStep hr' fun hc hu => .inl (hguard _ hc _ hu)
  | wait c =>
    obtain ⟨t, ht, heq⟩ := map_eq_some_iff.mp hr
    obtain ⟨hcpu, hphase, hpc⟩ := ownerAt_iff.mp ht
    obtain ⟨m, hm, rfl⟩ := Except.map_eq_ok heq
    have hswap : s.mutex.exec mutexWq (.swap c) = some (.ok m) := by
      rw [MutexSystem.exec, MutexSystem.taskAt_iff.mpr ⟨hcpu, hpc⟩, map_some, hm]
    have hinv := h.mutexStep hswap fun hc hu => by
      cases hc
      rw [hcpu] at hu
      cases hu
      exact .inl hphase
    exact hinv.goto (t := t) (p := .releasing) (by rw [hphase]; decide) (by decide)
      (fun he => by cases he)
  | unlock c =>
    obtain ⟨t, ht, hr⟩ := bind_eq_some_iff.mp hr
    obtain ⟨hcpu, hphase⟩ := taskAt_iff.mp ht
    obtain ⟨r, hr', heq⟩ := map_eq_some_iff.mp hr
    obtain ⟨m, rfl, rfl⟩ := Except.map_eq_ok heq
    have hinv := h.mutexStep hr' fun hc hu => by
      cases hc
      rw [hcpu] at hu
      cases hu
      exact .inr hphase
    refine hinv.goto (t := t) (p := .unlocked) (by rw [hphase]; decide) (by decide) fun _ => ?_
    obtain ⟨-, u, hu, heq⟩ := of_guarded hr'
    cases heq
    have hut := (MutexSystem.taskAt_iff.mp hu).1
    rw [hcpu] at hut
    cases hut
    exact (pc_goto s.mutex t .outside t).trans (if_pos rfl)
  | block c canPreempt =>
    obtain ⟨hguard, t, ht, heq⟩ := of_guarded hr
    obtain ⟨hcpu, hphase⟩ := taskAt_iff.mp ht
    have hcur := current_of_onCpu hcpu
    unfold CondSystem.block at heq
    split at heq
    · next k hk =>
      cases heq
      exact h.block hcur hphase hguard (h.mutex.kernel.blocks hcur hk)
    · cases heq
  | resume c =>
    obtain ⟨t, ht, heq⟩ := map_eq_some_iff.mp hr
    obtain ⟨hcpu, hphase⟩ := taskAt_iff.mp ht
    cases heq
    exact h.resume (current_of_onCpu hcpu) hphase
  | broadcast c =>
    obtain ⟨t, ht, heq⟩ := map_eq_some_iff.mp hr
    obtain ⟨-, hphase, hpc⟩ := ownerAt_iff.mp ht
    cases heq
    exact h.broadcast hphase hpc hok
  | notifyNext c =>
    obtain ⟨-, t, ht, heq⟩ := of_guarded hr
    cases heq
    exact h.notifyNext (taskAt_iff.mp ht).2 c
  | signal c =>
    obtain ⟨-, t, ht, heq⟩ := of_guarded hr
    obtain ⟨-, hphase, hpc⟩ := ownerAt_iff.mp ht
    cases heq
    exact h.signal hphase hpc c

theorem Inv.init [DecidableEq Cpu] (c : Cpu) : (CondSystem.init c).Inv where
  mutex := MutexSystem.Inv.init c
  queue := Kernel.Lists.boot c condWq _
  outside h := h.elim (fun he => by cases he) (fun he => by cases he)
  broadcasting h := by cases h
  owed h := by cases h

/-- A signal that finds one task waiting, in the queue, wakes it. -/
theorem Inv.signal_wakes (h : s.Inv) {w : ℕ}
    (hclear : ∀ t, s.phase t ≠ .releasing ∧ s.phase t ≠ .unlocked)
    (honly : ∀ u, s.waits u = true ↔ u = w) (c : Cpu) :
    (s.notify c).mutex.kernel.state w = .ready := by
  have hwaits := (honly w).mpr rfl
  have hwaiting : ∀ u, s.waits u = true ↔
      s.phase u = .waiting ∧ s.mutex.kernel.state u = .blocked := by
    intro u
    unfold waits
    split
    · next he => exact absurd he (hclear u).1
    · next he => exact absurd he (hclear u).2
    · next he => simp [he]
    · next hn => exact ⟨fun hf => (by cases hf), fun he => absurd he.1 hn⟩
  have hmem := (h.queue.mem w).mpr ((hwaiting w).mp hwaits)
  obtain ⟨hnil, -⟩ | ⟨t, ht, hb, hw⟩ := h.queue.wakesFirst c true
  · rw [hnil] at hmem
    cases hmem
  · obtain rfl := (honly t).mp ((hwaiting t).mpr ⟨ht, hb⟩)
    exact hw.ready

/-- If no signal or broadcast is called while a task is between releasing the mutex and joining the
queue, then a broadcast that is over has woken every task that was waiting when it was called, and a
signal wakes the only task that is waiting. -/
theorem cond_wakes_waiters [DecidableEq Cpu] {c₀ : Cpu}
    (h : Reach step CallsClear (CondSystem.init c₀) s) :
    (∀ b u, s.owed b u = true → s.phase b = .broadcasting) ∧
      ∀ c w s', CallsClear s (.signal c) → s.step (.signal c) = some s' →
        (∀ u, s.waits u = true ↔ u = w) → s'.mutex.kernel.state w = .ready := by
  have hinv : s.Inv :=
    Reach.invariant Inv (Inv.init c₀) (fun s e s' hs hok hstep => hs.step hok hstep) h
  refine ⟨fun b u hbu => (hinv.owed hbu).1, fun c w s' hclear hs honly => ?_⟩
  obtain ⟨r, hr, hok⟩ := bind_eq_some_iff.mp hs
  obtain ⟨-, t, -, rfl⟩ := of_guarded hr
  cases hok
  exact hinv.signal_wakes hclear honly c

/-- Neither a signal nor a broadcast is called. -/
def NoCalls (_ : CondSystem Cpu) : CondEvent Cpu → Prop
  | .broadcast _ | .signal _ => False
  | _ => True

instance (s : CondSystem Cpu) (e : CondEvent Cpu) : Decidable (NoCalls s e) := by
  cases e <;> unfold NoCalls <;> infer_instance

theorem NoCalls.clear (h : NoCalls s e) : CallsClear s e := by
  cases e <;> first | exact h.elim | trivial

/-- The garbage collector on the second CPU waits and the main task gets the mutex. -/
def sampleEvents : List (CondEvent Bool) :=
  [.mutex (.scheduling (.initSecondary false)), .mutex (.scheduling (.yield false)),
    .mutex (.lock false), .mutex (.compareExchangeWeak false false), .wait false, .unlock false,
    .block false true, .mutex (.lock true), .mutex (.compareExchangeWeak true false)]

theorem cond_wakes_waiters_sample :
    ∃ s s' : CondSystem Bool, Reach step CallsClear (CondSystem.init true) s ∧
      s.mutex.kernel.state 3 = .blocked ∧ s.step (.signal true) = some s' ∧
      s'.mutex.kernel.state 3 = .ready := by
  have hphases : (run step NoCalls (CondSystem.init true) sampleEvents).map CondSystem.phase =
      some (update (update (update (fun _ => .free) 3 .releasing) 3 .unlocked) 3 .waiting) := rfl
  have hrun : (run step NoCalls (CondSystem.init true) sampleEvents).map
      (fun s => (s.mutex.kernel.state 3, (s.step (.signal true)).isSome)) =
        some (.blocked, true) := by
    decide +kernel
  obtain ⟨s, hs, hp⟩ := map_eq_some_iff.mp hrun
  simp only [Prod.mk.injEq] at hp
  rw [hs, map_some, some.injEq, update_idem, update_idem] at hphases
  obtain ⟨s', hs'⟩ := isSome_iff_exists.mp hp.2
  have h := (reach_of_run hs).mono fun _ _ => NoCalls.clear
  have hphase : ∀ t, s.phase t = if t = 3 then .waiting else .free := by
    intro t
    rw [hphases]
    exact update_apply _ _ _ _
  refine ⟨s, s', h, hp.1, hs', (cond_wakes_waiters h).2 true 3 s' (fun t => ?_) hs' fun u => ?_⟩
  · rw [hphase]
    split <;> decide
  · unfold waits
    rw [hphase]
    by_cases hu : u = 3 <;> simp [hu, hp.1]

/-- The same, but the main task broadcasts before the other has joined the queue. -/
def lostEvents : List (CondEvent Bool) :=
  [.mutex (.scheduling (.initSecondary false)), .mutex (.scheduling (.yield false)),
    .mutex (.lock false), .mutex (.compareExchangeWeak false false), .wait false, .unlock false,
    .mutex (.lock true), .mutex (.compareExchangeWeak true false), .broadcast true,
    .notifyNext true, .block false true]

/-- The broadcast is over, and the task that was waiting when it was called sleeps. -/
theorem broadcast_lost :
    ∃ s : CondSystem Bool, Reach step anyStep (CondSystem.init true) s ∧ s.owed 2 3 = true ∧
      s.phase 2 = .free ∧ s.mutex.pc 2 = .holding ∧ s.mutex.kernel.state 3 = .blocked := by
  have hrun : (run step anyStep (CondSystem.init true) lostEvents).map
      (fun s => (s.owed 2 3, s.phase 2, s.mutex.pc 2, s.mutex.kernel.state 3)) =
        some (true, .free, .holding, .blocked) := by
    decide +kernel
  obtain ⟨s, hs, hp⟩ := exists_of_run hrun
  simp only [Prod.mk.injEq] at hp
  exact ⟨s, hs, hp.1, hp.2.1, hp.2.2.1, hp.2.2.2⟩

end CondSystem

end HvisorRux.Rux.Task
