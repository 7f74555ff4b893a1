import HvisorRux.Common.Transition
import Mathlib.Data.Int.Notation

/-!
# The tasks of RuxOS

The run queue, the wait queues and the timers of `ruxtask` with the round-robin scheduler. All tasks
share one `RUN_QUEUE`, whose lock is held over a context switch, so what happens under it is one
step here. A step belongs to a CPU: it is made by the task that is current there, or by the timer
interrupt, which runs `check_events` and `scheduler_timer_tick` and takes several steps itself, as
`check_events` holds no lock between taking an event out of `TIMER_LIST` and its callback.

Tasks are known by their id. A wait queue is known by a name of any type; the queues in which tasks
wait for another to exit, and the one of the garbage collector, belong to the kernel. Whether the
preemption count of a task allows it to be preempted or blocked is an argument of the step.
-/

namespace HvisorRux.Rux.Task

open Common Function

/-- `TaskState`. -/
inductive TaskState
  | running
  | ready
  | blocked
  | exited
deriving DecidableEq

/-- The wait queues: `wait_for_exit` of a task, `WAIT_FOR_EXIT`, and those of the rest. -/
inductive QueueId (Q : Type)
  | exitOf (t : ℕ)
  | waitForExit
  | other (q : Q)
deriving DecidableEq

/-- Where a CPU is in the handler of the timer interrupt. -/
inductive TimerPhase
  /-- not in the handler -/
  | idle
  /-- in `check_events`, before `expire_one` -/
  | checking
  /-- in `check_events`, before the callback of the event of a task -/
  | firing (t : ℕ)
  /-- before `scheduler_timer_tick` -/
  | ticking
deriving DecidableEq

/-- The state of `ruxtask`. Tasks with an id below `nextId` have been created; `pending` are those
that are still to be given to the run queue, and `added` those that have been. -/
structure Kernel (Cpu Q M : Type) where
  state : ℕ → TaskState
  isIdle : ℕ → Bool
  isInit : ℕ → Bool
  inWaitQueue : ℕ → Bool
  inTimerList : ℕ → Bool
  needResched : ℕ → Bool
  timeSlice : ℕ → ℤ
  readyQueue : List ℕ
  current : Cpu → Option ℕ
  idleTask : Cpu → Option ℕ
  queues : QueueId Q → List (ℕ × M)
  timers : List (ℕ × ℕ)
  phase : Cpu → TimerPhase
  exitedTasks : List ℕ
  now : ℕ
  nextId : ℕ
  pending : List ℕ
  added : ℕ → Bool

/-- The assertions of the run queue. -/
inductive Assertion
  | isRunning
  | isReady
  | notIdle
  | canPreempt
deriving DecidableEq

/-- `MAX_TIME_SLICE` of the round-robin scheduler. -/
def maxTimeSlice : ℤ := 5

namespace Kernel

variable {Cpu Q M : Type} [DecidableEq Cpu] [DecidableEq Q]

/-! ## Fields of a task -/

section

variable (k : Kernel Cpu Q M)

def setState (t : ℕ) (s : TaskState) : Kernel Cpu Q M :=
  { k with state := update k.state t s }

def setInWaitQueue (t : ℕ) (b : Bool) : Kernel Cpu Q M :=
  { k with inWaitQueue := update k.inWaitQueue t b }

def setQueue (q : QueueId Q) (entries : List (ℕ × M)) : Kernel Cpu Q M :=
  { k with queues := update k.queues q entries }

/-- `set_preempt_pending(true)` of the current task. -/
def setPreemptPending (c : Cpu) : Kernel Cpu Q M :=
  match k.current c with
  | some t => { k with needResched := update k.needResched t true }
  | none => k

/-! ## The run queue -/

/-- `put_prev_task` of the round-robin scheduler. -/
def putPrevTask (t : ℕ) (preempt : Bool) : Kernel Cpu Q M :=
  if 0 < k.timeSlice t ∧ preempt = true then { k with readyQueue := t :: k.readyQueue }
  else
    { k with
      timeSlice := update k.timeSlice t maxTimeSlice
      readyQueue := k.readyQueue ++ [t] }

/-- `switch_to`. -/
def switchTo (c : Cpu) (next : ℕ) : Kernel Cpu Q M :=
  { k with
    needResched := update k.needResched next false
    state := update k.state next .running
    current := update k.current c (some next) }

/-- The first half of `resched`: a task that still runs becomes ready. -/
def putCurrent (t : ℕ) (preempt : Bool) : Kernel Cpu Q M :=
  if k.state t = .running then
    let k := k.setState t .ready
    if k.isIdle t then k else k.putPrevTask t preempt
  else k

/-- The second half of `resched`: `pick_next_task`, or the idle task of the CPU. -/
def switchToNext (c : Cpu) : Kernel Cpu Q M :=
  match k.readyQueue, k.idleTask c with
  | next :: rest, _ => { k with readyQueue := rest }.switchTo c next
  | [], some idle => k.switchTo c idle
  | [], none => k

/-- `resched` with current task `t`. -/
def resched (c : Cpu) (t : ℕ) (preempt : Bool) : Kernel Cpu Q M :=
  (k.putCurrent t preempt).switchToNext c

/-- `unblock_task`. -/
def unblockTask (c : Cpu) (t : ℕ) (resched : Bool) : Kernel Cpu Q M :=
  if k.state t = .blocked then
    let k := { k.setState t .ready with readyQueue := k.readyQueue ++ [t] }
    if resched then k.setPreemptPending c else k
  else k

/-! ## Wait queues -/

/-- What is done with a task that is taken out of a wait queue. -/
def wake (c : Cpu) (t : ℕ) (resched : Bool) : Kernel Cpu Q M :=
  (k.setInWaitQueue t false).unblockTask c t resched

/-- `notify_one_locked`, and one round of the loop of `notify_all`. -/
def notifyOneLocked (c : Cpu) (q : QueueId Q) (resched : Bool) : Kernel Cpu Q M :=
  match k.queues q with
  | [] => k
  | (t, _) :: rest => (k.setQueue q rest).wake c t resched

end

/-- Wake the tasks of a list of entries in order. -/
def wakeAll (c : Cpu) (resched : Bool) : List (ℕ × M) → Kernel Cpu Q M → Kernel Cpu Q M
  | [], k => k
  | (t, _) :: rest, k => wakeAll c resched rest (k.wake c t resched)

/-- `notify_all_locked`. -/
def notifyAllLocked (k : Kernel Cpu Q M) (c : Cpu) (q : QueueId Q) (resched : Bool) :
    Kernel Cpu Q M :=
  wakeAll c resched (k.queues q) (k.setQueue q [])

/-- `notify_task`. -/
def notifyTask (k : Kernel Cpu Q M) (c : Cpu) (q : QueueId Q) (t : ℕ) (resched : Bool) :
    Kernel Cpu Q M :=
  if (k.queues q).any fun e => e.1 == t then
    (k.setQueue q ((k.queues q).eraseP fun e => e.1 == t)).wake c t resched
  else k

/-- The `retain` of `notify_task_if`, with the entries that are kept. The filter has a state and
sees the tasks as they are when it is called. -/
def retain {S : Type} (c : Cpu) (resched : Bool) (filter : S → Kernel Cpu Q M → ℕ × M → Bool × S) :
    List (ℕ × M) → S → Kernel Cpu Q M → Kernel Cpu Q M × List (ℕ × M)
  | [], _, k => (k, [])
  | e :: rest, s, k =>
    let r := filter s k e
    if r.1 then retain c resched filter rest r.2 (k.wake c e.1 resched)
    else
      let r' := retain c resched filter rest r.2 k
      (r'.1, e :: r'.2)

/-- `notify_task_if`. -/
def notifyTaskIf {S : Type} (k : Kernel Cpu Q M) (c : Cpu) (q : QueueId Q) (resched : Bool)
    (filter : S → Kernel Cpu Q M → ℕ × M → Bool × S) (s : S) : Kernel Cpu Q M :=
  let r := retain c resched filter (k.queues q) s k
  r.1.setQueue q r.2

/-! ## Timers -/

section

variable (k : Kernel Cpu Q M)

/-- `set_alarm_wakeup`. -/
def setAlarmWakeup (deadline t : ℕ) : Kernel Cpu Q M :=
  { k with
    inTimerList := update k.inTimerList t true
    timers := (deadline, t) :: k.timers }

/-- `cancel_alarm`. -/
def cancelAlarm (t : ℕ) : Kernel Cpu Q M :=
  { k with
    inTimerList := update k.inTimerList t false
    timers := k.timers.filter fun e => e.2 ≠ t }

/-- `TaskWakeupEvent::callback`. -/
def callback (c : Cpu) (t : ℕ) : Kernel Cpu Q M :=
  { k with inTimerList := update k.inTimerList t false }.unblockTask c t true

/-- `cancel_events`, first for the queue and then for the timer. -/
def cancelEvents (q : QueueId Q) (t : ℕ) : Kernel Cpu Q M :=
  let k :=
    if k.inWaitQueue t then
      (k.setQueue q ((k.queues q).filter fun e => e.1 ≠ t)).setInWaitQueue t false
    else k
  if k.inTimerList t then k.cancelAlarm t else k

/-! ## What the current task asks for -/

/-- `add_task`. -/
def addTask (t : ℕ) : Except Assertion (Kernel Cpu Q M) :=
  if k.state t = .ready then
    .ok
      { k with
        readyQueue := k.readyQueue ++ [t]
        pending := k.pending.erase t
        added := update k.added t true }
  else .error .isReady

section

variable (c : Cpu)

/-- `yield_current`. -/
def yieldCurrent (t : ℕ) : Except Assertion (Kernel Cpu Q M) :=
  if k.state t = .running then .ok (k.resched c t false) else .error .isRunning

/-- `preempt_resched`. -/
def preemptResched (t : ℕ) (canPreempt : Bool) : Except Assertion (Kernel Cpu Q M) :=
  if k.state t = .running then
    .ok (if canPreempt then k.resched c t true else k.setPreemptPending c)
  else .error .isRunning

/-- `block_current` with the push that all the wait functions pass to it. -/
def blockCurrent (t : ℕ) (q : QueueId Q) (m : M)
    (canPreempt : Bool) : Except Assertion (Kernel Cpu Q M) :=
  if k.state t ≠ .running then .error .isRunning
  else if k.isIdle t then .error .notIdle
  else if !canPreempt then .error .canPreempt
  else
    let k := (k.setState t .blocked).setInWaitQueue t true
    .ok ((k.setQueue q (k.queues q ++ [(t, m)])).resched c t false)

/-- `sleep_until`. -/
def sleepUntil (t deadline : ℕ) : Except Assertion (Kernel Cpu Q M) :=
  if k.state t ≠ .running then .error .isRunning
  else if k.isIdle t then .error .notIdle
  else if k.now < deadline then
    .ok (((k.setAlarmWakeup deadline t).setState t .blocked).resched c t false)
  else .ok k

/-- `exit_current`; `none` if the machine is turned off, as it is when the main task exits. -/
def exitCurrent (t : ℕ) : Option (Except Assertion (Kernel Cpu Q M)) :=
  if k.state t ≠ .running then some (.error .isRunning)
  else if k.isIdle t then some (.error .notIdle)
  else if k.isInit t then none
  else
    let k := (k.setState t .exited).notifyAllLocked c (.exitOf t) false
    let k := { k with exitedTasks := k.exitedTasks ++ [t] }
    some (.ok ((k.notifyOneLocked c .waitForExit false).resched c t false))

/-- `scheduler_timer_tick` with current task `t`. -/
def schedulerTimerTick (t : ℕ) : Kernel Cpu Q M :=
  if k.isIdle t then k
  else
    let old := k.timeSlice t
    let k := { k with timeSlice := update k.timeSlice t (old - 1) }
    if old ≤ 1 then k.setPreemptPending c else k

end

/-! ## Creating tasks -/

/-- `TaskInner::new`; the name says whether it is an idle task. -/
def newTask (namedIdle : Bool) : Kernel Cpu Q M :=
  { k with
    state := update k.state k.nextId .ready
    isIdle := update k.isIdle k.nextId namedIdle
    pending := k.nextId :: k.pending
    nextId := k.nextId + 1 }

/-- `init_secondary`. -/
def initSecondary (c : Cpu) : Kernel Cpu Q M :=
  { k with
    state := update k.state k.nextId .running
    isIdle := update k.isIdle k.nextId true
    isInit := update k.isInit k.nextId true
    idleTask := update k.idleTask c (some k.nextId)
    current := update k.current c (some k.nextId)
    nextId := k.nextId + 1 }

end

/-- After `init` on the first CPU: the idle task is 1, the main task 2 and the garbage collector,
which is in the run queue, 3. -/
def boot (Q M : Type) (c : Cpu) : Kernel Cpu Q M where
  state := update (fun _ => .ready) 2 .running
  isIdle t := t == 1
  isInit t := t == 2
  inWaitQueue _ := false
  inTimerList _ := false
  needResched _ := false
  timeSlice _ := maxTimeSlice
  readyQueue := [3]
  current := update (fun _ => none) c (some 2)
  idleTask := update (fun _ => none) c (some 1)
  queues _ := []
  timers := []
  phase _ := .idle
  exitedTasks := []
  now := 0
  nextId := 4
  pending := []
  added t := t == 2 || t == 3

/-! ## Steps -/

/-- What can happen. The steps of a CPU are made by its current task, outside the handler of the
timer interrupt, or by that handler. -/
inductive Event (Cpu Q M : Type)
  /-- time passes -/
  | clock
  | newTask (namedIdle : Bool)
  /-- a created task is given to the run queue, which happens once -/
  | addTask (t : ℕ)
  | initSecondary (c : Cpu)
  | yield (c : Cpu)
  | preempt (c : Cpu) (canPreempt : Bool)
  | exit (c : Cpu)
  | block (c : Cpu) (q : QueueId Q) (m : M) (canPreempt : Bool)
  | sleepUntil (c : Cpu) (deadline : ℕ)
  | notifyOne (c : Cpu) (q : QueueId Q) (resched : Bool)
  | notifyTask (c : Cpu) (q : QueueId Q) (t : ℕ) (resched : Bool)
  /-- `notify_task_if`, given by the answers of the filter -/
  | notifyTaskIf (c : Cpu) (q : QueueId Q) (resched : Bool) (answers : List Bool)
  | setAlarm (c : Cpu) (deadline : ℕ)
  | cancelEvents (c : Cpu) (q : QueueId Q)
  /-- the timer interrupt, its `expire_one` with and without an event, the callback and the tick -/
  | irq (c : Cpu)
  | expireOne (c : Cpu) (deadline t : ℕ)
  | callback (c : Cpu)
  | checked (c : Cpu)
  | tick (c : Cpu)

/-- The task that is current on a CPU that does not handle an interrupt. -/
def onCpu (k : Kernel Cpu Q M) (c : Cpu) : Option ℕ :=
  if k.phase c = .idle then k.current c else none

/-- `expire_one` takes an event that is due, none being due earlier. -/
def Due (k : Kernel Cpu Q M) (deadline t : ℕ) : Prop :=
  (deadline, t) ∈ k.timers ∧ deadline ≤ k.now ∧ ∀ e ∈ k.timers, deadline ≤ e.1
deriving Decidable

def setPhase (k : Kernel Cpu Q M) (c : Cpu) (p : TimerPhase) : Kernel Cpu Q M :=
  { k with phase := update k.phase c p }

/-- `none` if the event cannot happen. -/
def exec (k : Kernel Cpu Q M) : Event Cpu Q M → Option (Except Assertion (Kernel Cpu Q M))
  | .clock => some (.ok { k with now := k.now + 1 })
  | .newTask namedIdle => some (.ok (k.newTask namedIdle))
  | .addTask t => if t ∈ k.pending then some (k.addTask t) else none
  | .initSecondary c => if k.current c = none then some (.ok (k.initSecondary c)) else none
  | .yield c => (k.onCpu c).map fun t => k.yieldCurrent c t
  | .preempt c canPreempt =>
    (k.onCpu c).bind fun t =>
      if k.needResched t then some (k.preemptResched c t canPreempt) else none
  | .exit c => (k.onCpu c).bind fun t => k.exitCurrent c t
  | .block c q m canPreempt => (k.onCpu c).map fun t => k.blockCurrent c t q m canPreempt
  | .sleepUntil c deadline => (k.onCpu c).map fun t => k.sleepUntil c t deadline
  | .notifyOne c q resched => (k.onCpu c).map fun _ => .ok (k.notifyOneLocked c q resched)
  | .notifyTask c q t resched => (k.onCpu c).map fun _ => .ok (k.notifyTask c q t resched)
  | .notifyTaskIf c q resched answers =>
    (k.onCpu c).map fun _ =>
      .ok (k.notifyTaskIf c q resched (fun s _ _ => (s.headD false, s.tail)) answers)
  | .setAlarm c deadline => (k.onCpu c).map fun t => .ok (k.setAlarmWakeup deadline t)
  | .cancelEvents c q => (k.onCpu c).map fun t => .ok (k.cancelEvents q t)
  | .irq c =>
    if k.phase c = .idle ∧ k.current c ≠ none then some (.ok (k.setPhase c .checking)) else none
  | .expireOne c deadline t =>
    if k.phase c = .checking ∧ k.Due deadline t then
      some (.ok ({ k with timers := k.timers.erase (deadline, t) }.setPhase c (.firing t)))
    else none
  | .callback c =>
    match k.phase c with
    | .firing t => some (.ok ((k.callback c t).setPhase c .checking))
    | _ => none
  | .checked c =>
    if k.phase c = .checking ∧ ∀ e ∈ k.timers, k.now < e.1 then
      some (.ok (k.setPhase c .ticking))
    else none
  | .tick c =>
    match k.phase c, k.current c with
    | .ticking, some t => some (.ok ((k.schedulerTimerTick c t).setPhase c .idle))
    | _, _ => none

end Kernel

end HvisorRux.Rux.Task
