import HvisorRux.Rux.Task.Places

/-!
# What the kernel leaves alone

A primitive that is built on wait queues sees of the kernel which tasks are blocked, what is in the
queues and which alarms are set. Its own steps say what they do to these; here is what the other
steps of the kernel do, those that no task asks for: the passing of time, new tasks, scheduling and
the timer interrupt.
-/

namespace HvisorRux.Rux.Task

open Common Function List Option

namespace Kernel

variable {Cpu Q M : Type}

/-! ## Fields -/

/-- The fields that a context switch does not touch. -/
def waits (k : Kernel Cpu Q M) :=
  (k.queues, k.inWaitQueue, k.inTimerList, k.timers, k.phase, k.now)

/-- The fields that say which tasks there are. -/
def roster (k : Kernel Cpu Q M) := (k.isIdle, k.added, k.pending, k.nextId)

section Fields

variable {k k' : Kernel Cpu Q M} {c : Cpu} {t u : ℕ}

theorem roster_of_core (h : k'.core = k.core) : k'.roster = k.roster := by
  simp only [core, Prod.mk.injEq] at h
  simp only [roster, h]

/-- A mark for preemption is not a change of who waits. -/
theorem waits_setPreemptPending : (k.setPreemptPending c).waits = k.waits := by
  unfold setPreemptPending
  split <;> rfl

theorem roster_setPreemptPending : (k.setPreemptPending c).roster = k.roster :=
  roster_of_core core_setPreemptPending

theorem state_setPreemptPending : (k.setPreemptPending c).state = k.state :=
  congrArg Prod.fst core_setPreemptPending

/-- Nor is the tick of the scheduler. -/
theorem waits_schedulerTimerTick : (k.schedulerTimerTick c t).waits = k.waits := by
  unfold schedulerTimerTick
  dsimp only
  split_ifs
  · rfl
  · exact waits_setPreemptPending
  · rfl

variable {preempt resched : Bool}

/-- Only who runs and who is to run differs. -/
def Keeps (k k' : Kernel Cpu Q M) : Prop := k'.waits = k.waits ∧ k'.roster = k.roster

/-- Putting the current task back into the ready queue. -/
theorem keeps_putCurrent : k.Keeps (k.putCurrent t preempt) := by
  unfold putCurrent putPrevTask
  dsimp only
  split_ifs <;> exact ⟨rfl, rfl⟩

/-- A context switch. -/
theorem keeps_resched [DecidableEq Cpu] : k.Keeps (k.resched c t preempt) := by
  unfold Kernel.resched switchToNext
  split <;> exact keeps_putCurrent

/-- A task that becomes ready. -/
theorem keeps_unblockTask : k.Keeps (k.unblockTask c t resched) := by
  unfold unblockTask
  split_ifs
  · exact ⟨waits_setPreemptPending, roster_setPreemptPending⟩
  · exact ⟨rfl, rfl⟩
  · exact ⟨rfl, rfl⟩

/-- A blocked task becomes ready; the others stay as they are. -/
theorem state_unblockTask : (k.unblockTask c t resched).state u =
      if u = t ∧ k.state t = .blocked then .ready else k.state u := by
  have hset : (k.setState t .ready).state u = if u = t then .ready else k.state u := by
    by_cases hut : u = t
    · rw [if_pos hut, hut, update_state_self]
    · rw [if_neg hut, update_state_of_ne hut]
  unfold unblockTask
  by_cases hb : k.state t = .blocked
  · simp only [hb, if_true, and_true]
    split
    · rw [state_setPreemptPending]
      exact hset
    · exact hset
  · simp only [hb, if_false, and_false]

/-- A woken task is ready if it was blocked. -/
theorem state_wake : (k.wake c t resched).state u =
      if u = t ∧ k.state t = .blocked then .ready else k.state u :=
  state_unblockTask

/-- Waking clears the flag of the task. -/
theorem waits_wake : (k.wake c t resched).waits = (k.setInWaitQueue t false).waits :=
  keeps_unblockTask.1

theorem queues_wake : (k.wake c t resched).queues = k.queues :=
  congrArg Prod.fst waits_wake

theorem inWaitQueue_wake : (k.wake c t resched).inWaitQueue = update k.inWaitQueue t false :=
  congrArg (Prod.fst ∘ Prod.snd) waits_wake

/-- An alarm makes its task ready if it was blocked. -/
theorem state_callback :
    (k.callback c t).state u = if u = t ∧ k.state t = .blocked then .ready else k.state u :=
  state_unblockTask

/-- An alarm clears the mark that the task has one. -/
theorem callback_waits : (k.callback c t).waits =
      { k with inTimerList := update k.inTimerList t false }.waits :=
  keeps_unblockTask.1

end Fields

/-! ## Queues -/

section Queues

variable [DecidableEq Q] {k : Kernel Cpu Q M} {q q' : QueueId Q} {t u : ℕ} {entries : List (ℕ × M)}

theorem queues_setQueue_self : (k.setQueue q entries).queues q = entries :=
  update_self _ _ _

theorem queues_setQueue_of_ne (hq : q' ≠ q) : (k.setQueue q entries).queues q' = k.queues q' :=
  update_of_ne hq _ _

/-- `cancel_events` does not touch the scheduler. -/
theorem core_cancelEvents : (k.cancelEvents q t).core = k.core := by
  unfold cancelEvents
  dsimp only
  split_ifs <;> rfl

theorem state_cancelEvents : (k.cancelEvents q t).state = k.state :=
  congrArg Prod.fst core_cancelEvents

theorem roster_cancelEvents : (k.cancelEvents q t).roster = k.roster :=
  roster_of_core core_cancelEvents

theorem current_cancelEvents : (k.cancelEvents q t).current = k.current := by
  unfold cancelEvents
  dsimp only
  split_ifs <;> rfl

/-- `cancel_events` removes the task from the queue if the task has its flag set. -/
theorem queues_cancelEvents_self : (k.cancelEvents q t).queues q =
      if k.inWaitQueue t then (k.queues q).filter fun e => e.1 ≠ t else k.queues q := by
  unfold cancelEvents
  cases hflag : k.inWaitQueue t with
  | true =>
    simp only [if_true]
    split_ifs <;> exact queues_setQueue_self
  | false =>
    simp only [Bool.false_eq_true, if_false]
    split_ifs <;> rfl

/-- The other queues stay. -/
theorem queues_cancelEvents_of_ne (hq : q' ≠ q) : (k.cancelEvents q t).queues q' = k.queues q' := by
  unfold cancelEvents
  dsimp only
  split_ifs
  · exact queues_setQueue_of_ne hq
  · exact queues_setQueue_of_ne hq
  · rfl
  · rfl

/-- The flags of the other tasks stay. -/
theorem inWaitQueue_cancelEvents_of_ne (hu : u ≠ t) :
    (k.cancelEvents q t).inWaitQueue u = k.inWaitQueue u := by
  unfold cancelEvents
  dsimp only
  split_ifs
  · exact update_of_ne hu _ _
  · exact update_of_ne hu _ _
  · rfl
  · rfl

end Queues

/-! ## Who is blocked after a context switch -/

section Blocked

variable {k : Kernel Cpu Q M} {c : Cpu} {t u : ℕ}

/-- The task that is switched to was not blocked. -/
theorem InvOn.blocked_switchToNext [DecidableEq Cpu] {busy : Option Cpu} (h : k.InvOn busy) :
    (k.switchToNext c).state u = .blocked ↔ k.state u = .blocked := by
  have hswitch : ∀ {k' : Kernel Cpu Q M} {next}, k'.state = k.state → k.state next ≠ .blocked →
      ((k'.switchTo c next).state u = .blocked ↔ k.state u = .blocked) := by
    intro k' next hk hnext
    rw [← hk] at hnext ⊢
    exact update_eq_iff_of_ne (by decide) hnext
  unfold Kernel.switchToNext
  split
  · next next rest hq =>
    have hready := (h.queued (by rw [hq]; exact mem_cons_self : next ∈ k.readyQueue)).1
    exact hswitch rfl (by rw [hready]; decide)
  · next idle _ hidle => exact hswitch rfl (h.idle hidle).2.2
  · rfl

/-- The other CPUs go on with their tasks. -/
theorem current_switchToNext_of_ne [DecidableEq Cpu] {c' : Cpu} (hc : c' ≠ c) :
    (k.switchToNext c).current c' = k.current c' := by
  unfold switchToNext
  split
  · exact update_of_ne hc _ _
  · exact update_of_ne hc _ _
  · rfl

/-- A running task that is put back is not blocked. -/
theorem blocked_putCurrent (ht : k.state t = .running) {preempt : Bool} :
    (k.putCurrent t preempt).state u = .blocked ↔ k.state u = .blocked := by
  have hstate : (k.putCurrent t preempt).state = update k.state t .ready := by
    unfold putCurrent putPrevTask
    dsimp only
    split_ifs <;> rfl
  rw [hstate]
  exact update_eq_iff_of_ne (by decide) (by rw [ht]; decide)

/-- A context switch blocks nobody and wakes nobody. -/
theorem Inv.blocked_resched [DecidableEq Cpu] (h : k.Inv) (ht : k.current c = some t)
    {preempt : Bool} : (k.resched c t preempt).state u = .blocked ↔ k.state u = .blocked :=
  (h.putCurrent ht preempt).blocked_switchToNext.trans (blocked_putCurrent (h.running ht))

end Blocked

/-! ## Ids -/

/-- No task has the id 0, as ids are given from 1 on. -/
structure Positive (k : Kernel Cpu Q M) : Prop where
  idle : k.isIdle 0 = false
  added : k.added 0 = false
  pending : 0 ∉ k.pending
  next : 0 < k.nextId

section Ids

variable {k k' : Kernel Cpu Q M} {c : Cpu} {t : ℕ}

theorem Positive.congr (h : k.Positive) (hr : k'.roster = k.roster) : k'.Positive := by
  simp only [roster, Prod.mk.injEq] at hr
  obtain ⟨h1, h2, h3, h4⟩ := hr
  exact ⟨h1 ▸ h.idle, h2 ▸ h.added, h3 ▸ h.pending, h4 ▸ h.next⟩

/-- So the id of a current task is not 0. -/
theorem Positive.ne_zero (h : k.Positive) (hinv : k.Inv) (ht : k.current c = some t) : t ≠ 0 := by
  rintro rfl
  have hadded := hinv.placed ht h.idle
  rw [h.added] at hadded
  cases hadded

end Ids

/-! ## Blocking the current task -/

/-- What `block_current` does when it returns to the scheduler. -/
structure Blocks (k k' : Kernel Cpu Q M) (c : Cpu) (t : ℕ) (q : QueueId Q) (m : M) : Prop where
  inv : k'.Inv
  blocked : ∀ u, k'.state u = .blocked ↔ u = t ∨ k.state u = .blocked
  joined : k'.queues q = k.queues q ++ [(t, m)]
  others : ∀ q', q' ≠ q → k'.queues q' = k.queues q'
  flag : k'.inWaitQueue t = true
  flags : ∀ u, u ≠ t → k'.inWaitQueue u = k.inWaitQueue u
  timers : k'.timers = k.timers
  phase : k'.phase = k.phase
  now : k'.now = k.now
  roster : k'.roster = k.roster
  current : ∀ c', c' ≠ c → k'.current c' = k.current c'

/-- A task that blocks joins its queue, and the other tasks wait as before. -/
theorem Inv.blocks [DecidableEq Cpu] [DecidableEq Q] {k k' : Kernel Cpu Q M} {c : Cpu} {t : ℕ}
    {q : QueueId Q} {m : M} {canPreempt : Bool} (h : k.Inv) (ht : k.current c = some t)
    (hb : k.blockCurrent c t q m canPreempt = .ok k') : k.Blocks k' c t q m := by
  have hsafe := h.blockCurrent ht q m canPreempt
  rw [hb] at hsafe
  unfold Kernel.blockCurrent at hb
  split_ifs at hb with hrun hi hpreempt
  cases hb
  have hstop := h.stop ht (s := .blocked) (.inl rfl) (Bool.eq_false_iff.mpr hi)
  set k₁ := ((k.setState t .blocked).setInWaitQueue t true).setQueue q
    (((k.setState t .blocked).setInWaitQueue t true).queues q ++ [(t, m)]) with hk₁
  have hinv : k₁.InvOn (some c) := (hstop.setInWaitQueue t true).setQueue q _
  have hstate : k₁.state t = .blocked := update_state_self
  have hput : k₁.putCurrent t false = k₁ := by
    rw [Kernel.putCurrent, if_neg (by rw [hstate]; decide)]
  have hwaits : (k₁.resched c t false).waits = k₁.waits := keeps_resched.1
  simp only [waits, Prod.mk.injEq] at hwaits
  obtain ⟨hqueues, hflags, -, htimers, hphase, hnow⟩ := hwaits
  refine ⟨hsafe, fun u => ?_, ?_, fun q' hq' => ?_, ?_, fun u hu => ?_, htimers, hphase, hnow,
    keeps_resched.2, fun c' hc' => ?_⟩
  · rw [Kernel.resched, hput, hinv.blocked_switchToNext]
    by_cases hut : u = t
    · simp [hut, hstate]
    · rw [show k₁.state u = k.state u from update_state_of_ne hut]
      simp [hut]
  · rw [hqueues]
    exact update_self _ _ _
  · rw [hqueues]
    exact update_of_ne hq' _ _
  · rw [hflags]
    exact update_self _ _ _
  · rw [hflags]
    exact update_of_ne hu _ _
  · rw [Kernel.resched, hput]
    exact current_switchToNext_of_ne hc'

/-! ## Steps that nobody asks for -/

namespace Event

/-- Time, new tasks and CPUs, scheduling, and the timer interrupt apart from its alarms. -/
def isScheduling : Event Cpu Q M → Bool
  | .clock | .newTask _ | .addTask _ | .initSecondary _ | .yield _ | .preempt _ _ | .irq _
  | .checked _ | .tick _ => true
  | _ => false

/-- An alarm goes off. -/
def isAlarm : Event Cpu Q M → Bool
  | .expireOne _ _ _ | .callback _ => true
  | _ => false

/-- Whether the step locks `RUN_QUEUE`. -/
def takesRunQueue : Event Cpu Q M → Bool
  | .addTask _ | .yield _ | .preempt _ _ | .callback _ | .tick _ => true
  | _ => false

/-- Whether it can happen while a CPU holds `RUN_QUEUE`, which has its interrupts disabled. -/
def passes [DecidableEq Cpu] (holder : Option Cpu) (e : Event Cpu Q M) : Bool :=
  (holder.isNone || !e.takesRunQueue) &&
    match e with
    | .irq c => !decide (holder = some c)
    | _ => true

end Event

/-- What a step that nobody asks for does. -/
structure Frame (e : Event Cpu Q M) (k k' : Kernel Cpu Q M) : Prop where
  inv : k'.Inv
  queues : k'.queues = k.queues
  inWaitQueue : k'.inWaitQueue = k.inWaitQueue
  blocked : ∀ {u}, k'.state u = .blocked → k.state u = .blocked
  stays : ∀ {u}, k.state u = .blocked → k'.state u = .blocked ∨
    ∃ c, e = .callback c ∧ k.phase c = .firing u
  current : e.takesRunQueue = false → ∀ {c t}, k.current c = some t → k'.current c = some t
  timers : ∀ {d t}, (d, t) ∈ k.timers → (d, t) ∈ k'.timers ∨ d ≤ k.now ∧ ∃ c, k'.phase c = .firing t
  firing : ∀ {c t}, k.phase c = .firing t → k'.phase c = .firing t ∨
    e = .callback c ∧ k'.state t ≠ .blocked
  now : k.now ≤ k'.now

section Frames

variable {k k' : Kernel Cpu Q M} {e : Event Cpu Q M} {c : Cpu} {t : ℕ}

/-- A step that changes neither the queues nor the alarms. -/
theorem Frame.of_quiet (hinv : k'.Inv) (hqueues : k'.queues = k.queues)
    (hflags : k'.inWaitQueue = k.inWaitQueue)
    (hblocked : ∀ u, k'.state u = .blocked ↔ k.state u = .blocked)
    (hcurrent : e.takesRunQueue = false → ∀ {c t}, k.current c = some t → k'.current c = some t)
    (htimers : k'.timers = k.timers)
    (hphase : ∀ {c t}, k.phase c = .firing t → k'.phase c = .firing t) (hnow : k.now ≤ k'.now) :
    Frame e k k' where
  inv := hinv
  queues := hqueues
  inWaitQueue := hflags
  blocked := (hblocked _).mp
  stays hb := .inl ((hblocked _).mpr hb)
  current := hcurrent
  timers hmem := .inl (htimers ▸ hmem)
  firing hf := .inl (hphase hf)
  now := hnow

/-- A step that only changes what a CPU does. -/
theorem Frame.of_waits (hinv : k'.Inv) (hwaits : k'.waits = k.waits)
    (hblocked : ∀ u, k'.state u = .blocked ↔ k.state u = .blocked)
    (hcurrent : e.takesRunQueue = false → ∀ {c t}, k.current c = some t → k'.current c = some t) :
    Frame e k k' := by
  simp only [waits, Prod.mk.injEq] at hwaits
  obtain ⟨hqueues, hflags, -, htimers, hphase, hnow⟩ := hwaits
  exact .of_quiet hinv hqueues hflags hblocked hcurrent htimers (fun hf => hphase ▸ hf) hnow.ge

/-- The CPU goes from one part of the interrupt handler to another, none of which has an event. -/
theorem Frame.of_phase [DecidableEq Cpu] (h : k.Inv) {p : TimerPhase}
    (hidle : ∀ t, k.phase c ≠ .firing t) : Frame e k (k.setPhase c p) := by
  refine .of_quiet (h.congr rfl) rfl rfl (fun u => Iff.rfl) (fun _ _ _ hc => hc) rfl ?_ le_rfl
  exact fun hf => update_eq_of hf (hidle _)

/-- A task that was not created yet is not blocked. -/
theorem Inv.not_blocked (h : k.Inv) : k.state k.nextId ≠ .blocked := by
  intro hb
  have hadded := (h.fresh le_rfl).1
  rw [h.blocked hb] at hadded
  cases hadded

/-- A new task is not blocked, and the others stay as they are. -/
theorem Inv.blocked_update (h : k.Inv) {s : TaskState} (hs : s ≠ .blocked) (u : ℕ) :
    update k.state k.nextId s u = .blocked ↔ k.state u = .blocked :=
  update_eq_iff_of_ne hs h.not_blocked

variable [DecidableEq Cpu] [DecidableEq Q] {holder : Option Cpu}

/-- The steps of the scheduler, one by one. -/
theorem Inv.frame_scheduling (h : k.Inv) (he : e.isScheduling = true)
    (hs : k.step e = some k') : Frame e k k' := by
  have hr := bind_toOption_eq_some.mp hs
  have hsafe := h.exec e hr
  cases e with
  | clock =>
    cases hr
    exact .of_quiet hsafe rfl rfl (fun u => Iff.rfl) (fun _ _ _ hc => hc) rfl (fun hf => hf)
      (Nat.le_succ _)
  | newTask namedIdle =>
    cases hr
    exact .of_waits hsafe rfl (h.blocked_update (by decide)) (fun _ _ _ hc => hc)
  | addTask t =>
    rw [Kernel.exec, ite_none_right_eq_some] at hr
    rw [Kernel.addTask] at hr
    split at hr
    · cases hr.2
      exact .of_waits hsafe rfl (fun u => Iff.rfl) (fun _ _ _ hc => hc)
    · cases hr.2
  | initSecondary c =>
    rw [Kernel.exec, ite_none_right_eq_some] at hr
    cases hr.2
    refine .of_waits hsafe rfl (h.blocked_update (by decide)) (fun _ c' t hc => ?_)
    exact update_eq_of hc (by rw [hr.1]; exact (some_ne_none t).symm)
  | yield c =>
    obtain ⟨t, ht, hr⟩ := map_eq_some_iff.mp hr
    have hcur := current_of_onCpu ht
    rw [yieldCurrent, if_pos (h.running hcur)] at hr
    cases hr
    exact .of_waits hsafe keeps_resched.1 (fun u => h.blocked_resched hcur) (fun hl => by cases hl)
  | preempt c canPreempt =>
    obtain ⟨t, ht, hr⟩ := bind_eq_some_iff.mp hr
    have hcur := current_of_onCpu ht
    rw [ite_none_right_eq_some, preemptResched, if_pos (h.running hcur)] at hr
    cases hr.2
    split
    · exact .of_waits (h.resched hcur true) keeps_resched.1 (fun u => h.blocked_resched hcur)
        (fun hl => by cases hl)
    · exact .of_waits (h.congr core_setPreemptPending) waits_setPreemptPending
        (fun u => by rw [state_setPreemptPending]) (fun hl => by cases hl)
  | irq c | checked c =>
    rw [Kernel.exec, ite_none_right_eq_some] at hr
    cases hr.2
    exact .of_phase h (fun t hf => by rw [hr.1.1] at hf; cases hf)
  | tick c =>
    rw [Kernel.exec] at hr
    split at hr
    · next t hphase hcur =>
      cases hr
      have hwaits := waits_schedulerTimerTick (k := k) (c := c) (t := t)
      simp only [waits, Prod.mk.injEq] at hwaits
      obtain ⟨hqueues, hflags, -, htimers, hphases, hnow⟩ := hwaits
      refine .of_quiet hsafe hqueues hflags (fun u => ?_) (fun hl => by cases hl) htimers ?_ hnow.ge
      · have hcore := core_schedulerTimerTick (k := k) (c := c) (t := t)
        exact iff_of_eq (congrArg (·.1 u = _) hcore)
      · intro c' u hf
        rw [← hphases] at hphase hf
        exact update_eq_of hf fun hc => by cases hphase.symm.trans hc
    · cases hr
  | _ => cases he

/-- The two steps of an alarm: it leaves the list, and its task is woken. -/
theorem Inv.frame_alarm (h : k.Inv) (he : e.isAlarm = true) (hs : k.step e = some k') :
    Frame e k k' := by
  have hr := bind_toOption_eq_some.mp hs
  have hsafe := h.exec e hr
  cases e with
  | expireOne c deadline t =>
    rw [Kernel.exec, ite_none_right_eq_some] at hr
    cases hr.2
    obtain ⟨hphase, hdue⟩ := hr.1
    refine ⟨hsafe, rfl, rfl, fun hb => hb, fun hb => .inl hb, fun _ _ _ hc => hc, ?_, ?_, le_rfl⟩
    · intro d u hmem
      by_cases heq : (d, u) = (deadline, t)
      · cases heq
        exact .inr ⟨hdue.2.1, c, update_self _ _ _⟩
      · exact .inl ((mem_erase_of_ne heq).mpr hmem)
    · intro c' u hf
      exact .inl (update_eq_of hf fun hc => by cases hphase.symm.trans hc)
  | callback c =>
    rw [Kernel.exec] at hr
    split at hr
    · next t hphase =>
      cases hr
      have hwaits := callback_waits (k := k) (c := c) (t := t)
      simp only [waits, Prod.mk.injEq] at hwaits
      obtain ⟨hqueues, hflags, -, htimers, hphases, hnow⟩ := hwaits
      refine ⟨hsafe, hqueues, hflags, ?_, ?_, fun hl => (by cases hl), ?_, ?_, hnow.ge⟩
      · intro u hb
        rw [show ((k.callback c t).setPhase c .checking).state u = _ from state_callback] at hb
        split at hb
        · cases hb
        · exact hb
      · intro u hb
        by_cases hut : u = t
        · exact .inr ⟨c, rfl, hut ▸ hphase⟩
        · refine .inl (state_callback.trans ?_)
          rw [if_neg fun hc => hut hc.1]
          exact hb
      · intro d u hmem
        exact .inl (show (d, u) ∈ (k.callback c t).timers from htimers ▸ hmem)
      · intro c' u hf
        by_cases hc : c' = c
        · subst hc
          cases hphase.symm.trans hf
          refine .inr ⟨rfl, ?_⟩
          rw [show ((k.callback c' t).setPhase c' .checking).state t = _ from state_callback]
          split
          · decide
          · next hn => exact fun hb => hn ⟨rfl, hb⟩
        · exact .inl ((update_of_ne hc _ _).trans ((congrFun hphases c').trans hf))
    · cases hr
  | _ => cases he

/-- A step that nobody asks for, while a CPU may hold `RUN_QUEUE`. -/
def background (k : Kernel Cpu Q M) (holder : Option Cpu) (e : Event Cpu Q M) :
    Option (Kernel Cpu Q M) :=
  if (e.isScheduling || e.isAlarm) && e.passes holder then k.step e else none

/-- Each step that nobody asks for is a frame. -/
theorem Inv.frame (h : k.Inv) (hs : k.background holder e = some k') : Frame e k k' := by
  rw [background, ite_none_right_eq_some, Bool.and_eq_true, Bool.or_eq_true] at hs
  obtain ⟨⟨he | he, -⟩, hs⟩ := hs
  · exact h.frame_scheduling he hs
  · exact h.frame_alarm he hs

/-- No CPU changes its task while one holds `RUN_QUEUE`. -/
theorem Inv.current_background {holder c' : Cpu} (h : k.Inv)
    (hs : k.background (some holder) e = some k') (hc : k.current c' = some t) :
    k'.current c' = some t := by
  have hframe := h.frame hs
  rw [background, ite_none_right_eq_some, Bool.and_eq_true] at hs
  have hpass := hs.1.2
  unfold Event.passes at hpass
  rw [Bool.and_eq_true] at hpass
  exact hframe.current (by simpa using hpass.1) hc

/-- New tasks have new ids, and the others come from the pending ones. -/
theorem Positive.background (h : k.Positive)
    (hs : k.background holder e = some k') : k'.Positive := by
  rw [Kernel.background, ite_none_right_eq_some] at hs
  have hr := bind_toOption_eq_some.mp hs.2
  cases e with
  | newTask namedIdle =>
    cases hr
    have hne : 0 ≠ k.nextId := Nat.ne_of_lt h.next
    refine ⟨(update_of_ne hne _ _).trans h.idle, h.added, ?_, Nat.succ_pos _⟩
    exact fun hmem => (mem_cons.mp hmem).elim hne h.pending
  | addTask t =>
    rw [exec, ite_none_right_eq_some, addTask] at hr
    split at hr
    · cases hr.2
      have hne : 0 ≠ t := by
        rintro rfl
        exact h.pending hr.1
      exact ⟨h.idle, (update_of_ne hne _ _).trans h.added,
        fun hmem => h.pending (mem_of_mem_erase hmem), h.next⟩
    · cases hr.2
  | initSecondary c =>
    rw [exec, ite_none_right_eq_some] at hr
    cases hr.2
    have hne : 0 ≠ k.nextId := Nat.ne_of_lt h.next
    exact ⟨(update_of_ne hne _ _).trans h.idle, h.added, h.pending, Nat.succ_pos _⟩
  | yield c =>
    obtain ⟨t, -, hr⟩ := map_eq_some_iff.mp hr
    rw [yieldCurrent] at hr
    split at hr
    · cases hr
      exact h.congr keeps_resched.2
    · cases hr
  | preempt c canPreempt =>
    obtain ⟨t, -, hr⟩ := bind_eq_some_iff.mp hr
    rw [ite_none_right_eq_some, preemptResched] at hr
    split at hr
    · cases hr.2
      split
      · exact h.congr keeps_resched.2
      · exact h.congr roster_setPreemptPending
    · cases hr.2
  | clock =>
    cases hr
    exact h.congr rfl
  | irq c | checked c | expireOne c deadline t =>
    rw [exec, ite_none_right_eq_some] at hr
    cases hr.2
    exact h.congr rfl
  | callback c =>
    rw [exec] at hr
    split at hr
    · cases hr
      exact h.congr keeps_unblockTask.2
    · cases hr
  | tick c =>
    rw [exec] at hr
    split at hr
    · cases hr
      exact h.congr (roster_of_core core_schedulerTimerTick)
    · cases hr
  | _ => cases hs.1

end Frames

theorem Positive.boot [DecidableEq Cpu] (c : Cpu) : (Kernel.boot Q M c).Positive :=
  ⟨rfl, rfl, not_mem_nil, Nat.succ_pos 3⟩

end Kernel

end HvisorRux.Rux.Task
