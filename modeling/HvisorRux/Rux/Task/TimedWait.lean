import HvisorRux.Rux.Task.Frames
import Mathlib.Data.Fintype.Basic

/-!
# Waits with a deadline

The waits of `WaitQueueWithMetadata` that set an alarm. Those of the futexes set it and block in one
section of `RUN_QUEUE`; `wait_timeout` and `wait_timeout_until` set it first and lock `RUN_QUEUE`
later, with interrupts enabled in between. The callback of an alarm wakes its task if it finds it
blocked and does nothing otherwise.
-/

namespace HvisorRux.Rux.Task

open Common Function List Option Kernel

/-- Where a task is in a wait. -/
inductive TimedPc (Q M : Type)
  | outside
  /-- in `wait_timeout_absolutely_meta`, with the alarm set, before it locks `RUN_QUEUE` -/
  | armed (q : QueueId Q) (m : M) (deadline : ℕ)
  /-- in `wait_timeout_absolutely_meta_if`, with the alarm set under `RUN_QUEUE` -/
  | armedLocked (q : QueueId Q) (m : M) (deadline : ℕ)
  /-- in the queue or woken, in one of the two -/
  | waiting (q : QueueId Q) (deadline : ℕ)
  /-- at the head of the loop of `wait_timeout_until_meta`, where it also is while it is blocked -/
  | looping (q : QueueId Q) (m : M) (deadline : ℕ)
  /-- in the loop, before it locks `RUN_QUEUE` -/
  | entering (q : QueueId Q) (m : M) (deadline : ℕ)
  /-- in the loop, with `RUN_QUEUE` locked and the condition false -/
  | parking (q : QueueId Q) (m : M) (deadline : ℕ)
  /-- behind the loop -/
  | leaving (q : QueueId Q)

namespace TimedPc

variable {Q M : Type}

def deadline? : TimedPc Q M → Option ℕ
  | .armed _ _ d | .armedLocked _ _ d | .waiting _ d | .looping _ _ d | .entering _ _ d
  | .parking _ _ d => some d
  | .outside | .leaving _ => none

/-- The alarm is set and the task has not blocked, with interrupts enabled. -/
def exposed : TimedPc Q M → Bool
  | .armed _ _ _ | .entering _ _ _ => true
  | _ => false

/-- The same while it holds `RUN_QUEUE`. -/
def inSection : TimedPc Q M → Bool
  | .armedLocked _ _ _ | .parking _ _ _ => true
  | _ => false

end TimedPc

/-- `overdue` says that `check_events` has run to its end while the task was blocked in its wait and
the deadline had passed. -/
structure TimedSystem (Cpu Q M : Type) where
  kernel : Kernel Cpu Q M
  pc : ℕ → TimedPc Q M
  holder : Option Cpu
  overdue : ℕ → Bool

inductive TimedEvent (Cpu Q M : Type)
  | background (e : Kernel.Event Cpu Q M)
  /-- a task outside these waits notifies -/
  | notifyOne (c : Cpu) (q : QueueId Q) (resched : Bool)
  | notifyTask (c : Cpu) (q : QueueId Q) (t : ℕ) (resched : Bool)
  | notifyTaskIf (c : Cpu) (q : QueueId Q) (resched : Bool) (answers : List Bool)
  /-- `wait_timeout_absolutely_meta` -/
  | waitTimeout (c : Cpu) (q : QueueId Q) (m : M) (deadline : ℕ)
  | block (c : Cpu) (canPreempt : Bool)
  | resume (c : Cpu)
  /-- `wait_timeout_absolutely_meta_if`, with the outcome of the condition -/
  | waitTimeoutIf (c : Cpu) (q : QueueId Q) (m : M) (deadline : ℕ) (condition : Bool)
  /-- `wait_timeout_until_meta`, with its two tests -/
  | waitTimeoutUntil (c : Cpu) (q : QueueId Q) (m : M) (deadline : ℕ)
  | testTime (c : Cpu)
  | testCondition (c : Cpu) (condition : Bool)
  | cancelEvents (c : Cpu)

/-- The task whose event a CPU has in its hands. -/
def TimerPhase.event? : TimerPhase → Option ℕ
  | .firing t => some t
  | _ => none

/-- The CPU that runs the callback of an event. -/
def TimedEvent.callback? {Cpu Q M : Type} : TimedEvent Cpu Q M → Option Cpu
  | .background (.callback c) => some c
  | _ => none

/-- `check_events` ends. -/
def TimedEvent.isChecked {Cpu Q M : Type} : TimedEvent Cpu Q M → Bool
  | .background (.checked _) => true
  | _ => false

namespace TimedSystem

variable {Cpu Q M : Type}

section

variable (s : TimedSystem Cpu Q M)

def goto (t : ℕ) (p : TimedPc Q M) : TimedSystem Cpu Q M :=
  { s with pc := update s.pc t p }

/-- The task is blocked in a wait whose deadline has passed. -/
def late (t : ℕ) : Bool :=
  decide (s.kernel.state t = .blocked) &&
    (s.pc t).deadline?.any fun d => decide (d ≤ s.kernel.now)

/-- The record that is made when `check_events` ends. -/
def noteChecked : Kernel.Event Cpu Q M → TimedSystem Cpu Q M
  | .checked _ => { s with overdue := fun t => s.overdue t || s.late t }
  | _ => s

end

variable [DecidableEq Cpu] [DecidableEq Q]

section

variable (s : TimedSystem Cpu Q M)

/-- The task that runs on a CPU, if it is in no wait. -/
def freeTask (c : Cpu) : Option ℕ :=
  (s.kernel.onCpu c).filter fun t =>
    match s.pc t with
    | .outside => true
    | _ => false

/-- `block_current` at the end of a section. -/
def block (c : Cpu) (t : ℕ) (q : QueueId Q) (m : M) (next : TimedPc Q M)
    (canPreempt : Bool) : Except Assertion (TimedSystem Cpu Q M) :=
  match s.kernel.blockCurrent c t q m canPreempt with
  | .ok k => .ok { s.goto t next with
      kernel := k
      holder := none
      overdue := update s.overdue t false }
  | .error a => .error a

/-- `none` if the event cannot happen. -/
def exec : TimedEvent Cpu Q M → Option (Except Assertion (TimedSystem Cpu Q M))
  | .background e =>
    (s.kernel.background s.holder e).map fun k => .ok { s.noteChecked e with kernel := k }
  | .notifyOne c q resched =>
    if s.holder = none then
      (s.freeTask c).map fun _ => .ok { s with kernel := s.kernel.notifyOneLocked c q resched }
    else none
  | .notifyTask c q t resched =>
    if s.holder = none then
      (s.freeTask c).map fun _ => .ok { s with kernel := s.kernel.notifyTask c q t resched }
    else none
  | .notifyTaskIf c q resched answers =>
    if s.holder = none then
      (s.freeTask c).map fun _ =>
        .ok { s with
          kernel := s.kernel.notifyTaskIf c q resched
            (fun l _ _ => (l.headD false, l.tail)) answers }
    else none
  | .waitTimeout c q m deadline =>
    (s.freeTask c).map fun t =>
      .ok { s.goto t (.armed q m deadline) with kernel := s.kernel.setAlarmWakeup deadline t }
  | .block c canPreempt =>
    (s.kernel.onCpu c).bind fun t =>
      match s.pc t with
      | .armed q m deadline =>
        if s.holder = none then some (s.block c t q m (.waiting q deadline) canPreempt)
        else none
      | .armedLocked q m deadline => some (s.block c t q m (.waiting q deadline) canPreempt)
      | .parking q m deadline => some (s.block c t q m (.looping q m deadline) canPreempt)
      | _ => none
  | .resume c =>
    (s.kernel.onCpu c).bind fun t =>
      match s.pc t with
      | .waiting q _ =>
        some (.ok { s.goto t .outside with kernel := s.kernel.cancelEvents q t })
      | _ => none
  | .waitTimeoutIf c q m deadline condition =>
    if s.holder = none then
      (s.freeTask c).map fun t =>
        .ok (if condition then
          { s.goto t (.armedLocked q m deadline) with
            kernel := s.kernel.setAlarmWakeup deadline t
            holder := some c }
        else s)
    else none
  | .waitTimeoutUntil c q m deadline =>
    (s.freeTask c).map fun t =>
      .ok { s.goto t (.looping q m deadline) with kernel := s.kernel.setAlarmWakeup deadline t }
  | .testTime c =>
    (s.kernel.onCpu c).bind fun t =>
      match s.pc t with
      | .looping q m deadline =>
        some (.ok (s.goto t
          (if s.kernel.now < deadline then .entering q m deadline else .leaving q)))
      | _ => none
  | .testCondition c condition =>
    if s.holder = none then
      (s.kernel.onCpu c).bind fun t =>
        match s.pc t with
        | .entering q m deadline =>
          some (.ok (if condition then s.goto t (.leaving q)
            else { s.goto t (.parking q m deadline) with holder := some c }))
        | _ => none
    else none
  | .cancelEvents c =>
    (s.kernel.onCpu c).bind fun t =>
      match s.pc t with
      | .leaving q => some (.ok { s.goto t .outside with kernel := s.kernel.cancelEvents q t })
      | _ => none

/-- A step that does not fail an assertion. -/
def step (e : TimedEvent Cpu Q M) : Option (TimedSystem Cpu Q M) :=
  (s.exec e).bind Except.toOption

end

def init (Q M : Type) (c : Cpu) : TimedSystem Cpu Q M where
  kernel := Kernel.boot Q M c
  pc _ := .outside
  holder := none
  overdue _ := false

end TimedSystem

/-! ## Notifying leaves the alarms alone -/

namespace Kernel

variable {Cpu Q M : Type} {k k' k'' : Kernel Cpu Q M}

/-- Tasks are woken and nothing else happens to tasks and alarms. -/
structure OnlyWakes (k k' : Kernel Cpu Q M) : Prop where
  inv : k.Inv → k'.Inv
  blocked : ∀ {t}, k'.state t = .blocked → k.state t = .blocked
  timers : k'.timers = k.timers
  phase : k'.phase = k.phase
  now : k'.now = k.now

namespace OnlyWakes

theorem refl (k : Kernel Cpu Q M) : k.OnlyWakes k :=
  ⟨id, id, rfl, rfl, rfl⟩

theorem trans (h : k.OnlyWakes k') (h' : k'.OnlyWakes k'') : k.OnlyWakes k'' :=
  ⟨h'.inv ∘ h.inv, h.blocked ∘ h'.blocked, h'.timers.trans h.timers, h'.phase.trans h.phase,
    h'.now.trans h.now⟩

theorem setQueue [DecidableEq Q] (q : QueueId Q) (entries : List (ℕ × M)) :
    k.OnlyWakes (k.setQueue q entries) :=
  ⟨fun h => h.setQueue q entries, id, rfl, rfl, rfl⟩

variable (c : Cpu) (q : QueueId Q)

theorem wake (t : ℕ) (resched : Bool) : k.OnlyWakes (k.wake c t resched) := by
  have hwaits : (k.wake c t resched).waits = (k.setInWaitQueue t false).waits := waits_wake
  simp only [waits, Prod.mk.injEq] at hwaits
  obtain ⟨-, -, -, htimers, hphase, hnow⟩ := hwaits
  refine ⟨fun h => h.wake c t resched, fun {u} hb => ?_, htimers, hphase, hnow⟩
  rw [state_wake] at hb
  split at hb
  · cases hb
  · exact hb

theorem notifyOneLocked [DecidableEq Q] (resched : Bool) :
    k.OnlyWakes (k.notifyOneLocked c q resched) := by
  unfold Kernel.notifyOneLocked
  split
  · exact .refl k
  · exact (OnlyWakes.setQueue q _).trans (.wake c _ resched)

theorem notifyTask [DecidableEq Q] (t : ℕ) (resched : Bool) :
    k.OnlyWakes (k.notifyTask c q t resched) := by
  unfold Kernel.notifyTask
  split
  · exact (OnlyWakes.setQueue q _).trans (.wake c t resched)
  · exact .refl k

theorem retain {S : Type} (resched : Bool)
    (filter : S → Kernel Cpu Q M → ℕ × M → Bool × S) (entries : List (ℕ × M)) (x : S) :
    k.OnlyWakes (Kernel.retain c resched filter entries x k).1 := by
  induction entries generalizing k x with
  | nil => exact .refl k
  | cons e rest ih =>
    rw [Kernel.retain]
    split
    · exact (OnlyWakes.wake c e.1 resched).trans (ih _)
    · exact ih _

theorem notifyTaskIf [DecidableEq Q] {S : Type} (resched : Bool)
    (filter : S → Kernel Cpu Q M → ℕ × M → Bool × S) (x : S) :
    k.OnlyWakes (k.notifyTaskIf c q resched filter x) :=
  (OnlyWakes.retain c resched filter _ x).trans (.setQueue q _)

end OnlyWakes

end Kernel

/-! ## The invariant -/

namespace TimedSystem

variable {Cpu Q M : Type} {s s' : TimedSystem Cpu Q M} {c : Cpu} {t u d : ℕ}

/-- The alarm is in `TIMER_LIST`, or a CPU has it in its hands. -/
def Pending (k : Kernel Cpu Q M) (t d : ℕ) : Prop :=
  (d, t) ∈ k.timers ∨ d ≤ k.now ∧ ∃ c, k.phase c = .firing t

/-- The task does not need its alarm any more. -/
def Excused (s : TimedSystem Cpu Q M) (t d : ℕ) : Prop :=
  match s.pc t with
  | .waiting _ _ => s.kernel.state t ≠ .blocked
  | .looping _ _ _ => d ≤ s.kernel.now ∧ s.kernel.state t ≠ .blocked
  | _ => False

structure Inv (s : TimedSystem Cpu Q M) : Prop where
  kernel : s.kernel.Inv
  alarm : ∀ {t d}, (s.pc t).deadline? = some d → Pending s.kernel t d ∨ s.Excused t d
  inSection : ∀ {t}, (s.pc t).inSection = true →
    ∃ c, s.holder = some c ∧ s.kernel.current c = some t
  overdue : ∀ t, s.overdue t = false

/-- No alarm goes off for a task that has set it and not blocked, outside `RUN_QUEUE`, and
`check_events` does not end while another CPU has an event in its hands. -/
def NoEarlyAlarm (s : TimedSystem Cpu Q M) (e : TimedEvent Cpu Q M) : Prop :=
  (∀ c ∈ e.callback?, ∀ t ∈ (s.kernel.phase c).event?, (s.pc t).exposed = false) ∧
    (e.isChecked = true → ∀ c, (s.kernel.phase c).event? = none)

instance [Fintype Cpu] (s : TimedSystem Cpu Q M) (e : TimedEvent Cpu Q M) :
    Decidable (NoEarlyAlarm s e) :=
  inferInstanceAs (Decidable (_ ∧ _))

variable {k k' : Kernel Cpu Q M} {p : TimedPc Q M} {e : Kernel.Event Cpu Q M}

theorem pc_goto (s : TimedSystem Cpu Q M) (t : ℕ) (p : TimedPc Q M) (u : ℕ) :
    (s.goto t p).pc u = if u = t then p else s.pc u :=
  update_apply ..

theorem Excused.awake (h : s.Excused t d) : s.kernel.state t ≠ .blocked := by
  unfold Excused at h
  split at h
  · exact h
  · exact h.2
  · exact h.elim

theorem Excused.mono (h : s.Excused t d) (hpc : s'.pc t = s.pc t)
    (hnow : s.kernel.now ≤ s'.kernel.now)
    (hb : s'.kernel.state t = .blocked → s.kernel.state t = .blocked) : s'.Excused t d := by
  unfold Excused at h ⊢
  rw [hpc]
  split at h
  · exact fun hb' => h (hb hb')
  · exact ⟨Nat.le_trans h.1 hnow, fun hb' => h.2 (hb hb')⟩
  · exact h

/-- The alarms of the tasks that are late are gone when `check_events` ends. -/
theorem Inv.not_late (h : s.Inv) (hfiring : ∀ c, (s.kernel.phase c).event? = none)
    (htimers : ∀ e ∈ s.kernel.timers, s.kernel.now < e.1) (t : ℕ) : s.late t = false := by
  by_contra hlate
  rw [Bool.not_eq_false, late, Bool.and_eq_true, decide_eq_true_eq, Option.any_eq_true] at hlate
  obtain ⟨hb, d, hd, hpast⟩ := hlate
  rw [decide_eq_true_eq] at hpast
  obtain (hmem | ⟨-, c, hf⟩) | hex := h.alarm hd
  · exact absurd (htimers _ hmem) (Nat.not_lt.mpr hpast)
  · have hnone := hfiring c
    rw [hf] at hnone
    cases hnone
  · exact hex.awake hb

theorem Pending.congr (h : Pending k t d) (htimers : k'.timers = k.timers)
    (hphase : k'.phase = k.phase) (hnow : k'.now = k.now) : Pending k' t d := by
  unfold Pending
  rw [htimers, hphase, hnow]
  exact h

/-- What a step that nobody asks for does to an alarm. -/
theorem Pending.frame (hf : Kernel.Frame e k k') (h : Pending k t d) :
    Pending k' t d ∨ d ≤ k'.now ∧ k'.state t ≠ .blocked ∧
      ∃ c, e = .callback c ∧ k.phase c = .firing t := by
  obtain hmem | ⟨hpast, c, hc⟩ := h
  · obtain hmem' | ⟨hpast, hc⟩ := hf.timers hmem
    · exact .inl (.inl hmem')
    · exact .inl (.inr ⟨Nat.le_trans hpast hf.now, hc⟩)
  · have hpast' := Nat.le_trans hpast hf.now
    obtain hc' | ⟨he, hb⟩ := hf.firing hc
    · exact .inl (.inr ⟨hpast', c, hc'⟩)
    · exact .inr ⟨hpast', hb, c, he, hc⟩

section

variable (h : s.Inv)

include h

theorem Inv.background [DecidableEq Cpu] [DecidableEq Q]
    (hok : NoEarlyAlarm s (.background e)) (hs : s.kernel.background s.holder e = some k) :
    ({ s.noteChecked e with kernel := k } : TimedSystem Cpu Q M).Inv := by
  have hframe := h.kernel.frame hs
  have hpc : (s.noteChecked e).pc = s.pc ∧ (s.noteChecked e).holder = s.holder := by
    unfold noteChecked
    split <;> exact ⟨rfl, rfl⟩
  refine ⟨hframe.inv, fun {t d} hd => ?_, fun {t} ht => ?_, fun t => ?_⟩
  · replace hd : (s.pc t).deadline? = some d := hpc.1 ▸ hd
    obtain hpending | hex := h.alarm hd
    · obtain hpending' | ⟨hpast, hb, c, rfl, hc⟩ := hpending.frame hframe
      · exact .inl hpending'
      · -- The callback finds the task in its wait; it cannot be before it.
        unfold Excused
        rw [show ({ s.noteChecked (.callback c) with kernel := k } :
          TimedSystem Cpu Q M).pc t = _ from congrFun hpc.1 t]
        cases hp : s.pc t with
        | waiting q d' => exact .inr hb
        | looping q m d' => exact .inr ⟨hpast, hb⟩
        | outside | leaving q =>
          rw [hp] at hd
          cases hd
        | armed q m d' | entering q m d' =>
          have hexposed := hok.1 c rfl t (by rw [hc]; rfl)
          rw [hp] at hexposed
          cases hexposed
        | armedLocked q m d' | parking q m d' =>
          obtain ⟨c', hholder, -⟩ := h.inSection (t := t) (by rw [hp]; rfl)
          rw [hholder, Kernel.background, ite_none_right_eq_some, Bool.and_eq_true] at hs
          cases hs.1.2
    · exact .inr (hex.mono (congrFun hpc.1 t) hframe.now hframe.blocked)
  · replace ht : (s.pc t).inSection = true := hpc.1 ▸ ht
    obtain ⟨c, hholder, hcur⟩ := h.inSection ht
    rw [hholder] at hs
    exact ⟨c, hpc.2.trans hholder, h.kernel.current_background hs hcur⟩
  · unfold noteChecked
    split
    · rw [Kernel.background, ite_none_right_eq_some] at hs
      obtain ⟨r, hr, -⟩ := bind_eq_some_iff.mp hs.2
      rw [Kernel.exec, ite_none_right_eq_some] at hr
      exact Bool.or_eq_false_iff.mpr ⟨h.overdue t, h.not_late (hok.2 rfl) hr.1.2 t⟩
    · exact h.overdue t

theorem Inv.notify (hholder : s.holder = none) (hk : s.kernel.OnlyWakes k) :
    { s with kernel := k }.Inv := by
  refine ⟨hk.inv h.kernel, fun {t d} hd => ?_, fun {t} ht => ?_, h.overdue⟩
  · exact (h.alarm hd).imp (fun hpending => hpending.congr hk.timers hk.phase hk.now)
      fun hex => hex.mono rfl hk.now.ge hk.blocked
  · obtain ⟨c, hc, -⟩ := h.inSection ht
    rw [hholder] at hc
    cases hc

/-- A task takes a step: it has its alarm if it needs one, and the others keep theirs. -/
theorem Inv.act {holder : Option Cpu} {overdue : ℕ → Bool} (hinv : k.Inv)
    (hpending : ∀ {u d}, u ≠ t → Pending s.kernel u d → Pending k u d) (hnow : s.kernel.now ≤ k.now)
    (hblocked : ∀ {u}, u ≠ t → k.state u = .blocked → s.kernel.state u = .blocked)
    (hself : ∀ {d}, p.deadline? = some d → Pending k t d)
    (hsection : ∀ {u}, ((s.goto t p).pc u).inSection = true →
      ∃ c, holder = some c ∧ k.current c = some u) (hoverdue : ∀ u, overdue u = false) :
    { s.goto t p with kernel := k, holder := holder, overdue := overdue }.Inv := by
  refine ⟨hinv, fun {u d} hd => ?_, hsection, hoverdue⟩
  change ((s.goto t p).pc u).deadline? = some d at hd
  have hpc := pc_goto s t p u
  by_cases hut : u = t
  · subst hut
    rw [hpc, if_pos rfl] at hd
    exact .inl (hself hd)
  · rw [if_neg hut] at hpc
    rw [hpc] at hd
    exact (h.alarm hd).imp (hpending hut) fun hex => hex.mono hpc hnow (hblocked hut)

omit h in
theorem inSection_of_goto (hp : p.inSection = false)
    (hu : ((s.goto t p).pc u).inSection = true) : u ≠ t ∧ (s.pc u).inSection = true :=
  of_update (p := fun q : TimedPc Q M => q.inSection = true) hu (Bool.eq_false_iff.mp hp)

/-- A task outside the sections goes to a place outside them. -/
theorem Inv.section_goto (hp : p.inSection = false) (hu : ((s.goto t p).pc u).inSection = true) :
    ∃ c, s.holder = some c ∧ s.kernel.current c = some u :=
  h.inSection (inSection_of_goto hp hu).2

/-- A task sets its alarm. -/
theorem Inv.arm (hp : p.deadline? = some d) (hsection : p.inSection = false) :
    { s.goto t p with kernel := s.kernel.setAlarmWakeup d t }.Inv := by
  refine h.act (h.kernel.congr rfl) (fun _ hpending => ?_) le_rfl (fun _ hb => hb)
    (fun hd => ?_) (h.section_goto hsection) h.overdue
  · exact hpending.imp_left (mem_cons_of_mem _)
  · rw [hp] at hd
    cases hd
    exact .inl mem_cons_self

/-- A task that runs takes `RUN_QUEUE` and keeps it. -/
theorem Inv.enter (ht : s.kernel.current c = some t) (hholder : s.holder = none)
    (hk : k.core = s.kernel.core) (hpending : ∀ {u d}, Pending s.kernel u d → Pending k u d)
    (hnow : k.now = s.kernel.now) (hself : ∀ {d}, p.deadline? = some d → Pending k t d) :
    { s.goto t p with kernel := k, holder := some c }.Inv := by
  have hstate : k.state = s.kernel.state := congrArg Prod.fst hk
  have hcurrent : k.current = s.kernel.current := by
    simp only [Kernel.core, Prod.mk.injEq] at hk
    exact hk.2.2.2.1
  refine h.act (h.kernel.congr hk) (fun _ => hpending) hnow.ge
    (fun _ hb => hstate ▸ hb) hself (fun {u} hu => ?_) h.overdue
  rw [pc_goto] at hu
  split at hu
  · next hut => exact ⟨c, rfl, by rw [hcurrent, hut]; exact ht⟩
  · obtain ⟨c', hc', -⟩ := h.inSection hu
    rw [hholder] at hc'
    cases hc'

/-- A task cancels its events and leaves. -/
theorem Inv.cancel [DecidableEq Q] (q : QueueId Q) :
    { s.goto t .outside with kernel := s.kernel.cancelEvents q t }.Inv := by
  have hfields : (s.kernel.cancelEvents q t).phase = s.kernel.phase ∧
      (s.kernel.cancelEvents q t).now = s.kernel.now := by
    unfold Kernel.cancelEvents
    dsimp only
    split_ifs <;> exact ⟨rfl, rfl⟩
  have htimers : ∀ {e : ℕ × ℕ}, e.2 ≠ t → e ∈ s.kernel.timers →
      e ∈ (s.kernel.cancelEvents q t).timers := by
    intro e hne hmem
    unfold Kernel.cancelEvents
    dsimp only
    split_ifs
    · exact mem_filter.mpr ⟨hmem, decide_eq_true hne⟩
    · exact hmem
    · exact mem_filter.mpr ⟨hmem, decide_eq_true hne⟩
    · exact hmem
  refine h.act (h.kernel.congr core_cancelEvents) (fun {u d} hut hpending => ?_)
    hfields.2.ge (fun _ hb => ?_) (fun hd => by cases hd) (fun hu => ?_) h.overdue
  · unfold Pending
    rw [hfields.1, hfields.2]
    exact hpending.imp_left (htimers hut)
  · exact (congrFun state_cancelEvents _).symm.trans hb
  · obtain ⟨c, hc, hcur⟩ := h.section_goto rfl hu
    exact ⟨c, hc, (congrFun current_cancelEvents c).trans hcur⟩

/-- A task blocks with its alarm pending. -/
theorem Inv.blocks [DecidableEq Cpu] [DecidableEq Q] (ht : s.kernel.current c = some t)
    {q : QueueId Q} {m : M} {next : TimedPc Q M} {canPreempt : Bool}
    (hnext : next.inSection = false)
    (halarm : ∀ {d}, next.deadline? = some d → Pending s.kernel t d)
    (hholder : s.holder = none ∨ (s.pc t).inSection = true)
    (hs : s.block c t q m next canPreempt = .ok s') : s'.Inv := by
  unfold TimedSystem.block at hs
  split at hs
  · next k hk =>
    cases hs
    have hb := h.kernel.blocks ht hk
    have hpending : ∀ {u d}, Pending s.kernel u d → Pending k u d :=
      fun hpending => hpending.congr hb.timers hb.phase hb.now
    refine h.act hb.inv (fun _ => hpending) hb.now.ge
      (fun hut hblocked => ((hb.blocked _).mp hblocked).resolve_left hut)
      (fun hd => hpending (halarm hd)) (fun {u} hu => ?_) (fun u => ?_)
    · -- Only the task itself can have been in a section.
      obtain ⟨hut, hu⟩ := inSection_of_goto hnext hu
      obtain ⟨c₁, hc₁, hcur₁⟩ := h.inSection hu
      obtain hnone | hself := hholder
      · rw [hnone] at hc₁
        cases hc₁
      · obtain ⟨c₂, hc₂, hcur₂⟩ := h.inSection hself
        cases hc₁.symm.trans hc₂
        exact absurd (some.inj (hcur₁.symm.trans hcur₂)) hut
    · by_cases hut : u = t
      · rw [hut, update_self]
      · rw [update_of_ne hut]
        exact h.overdue u
  · cases hs

end

/-! ## Runs -/

theorem current_of_freeTask (h : s.freeTask c = some t) : s.kernel.current c = some t :=
  current_of_onCpu (filter_eq_some_iff.mp h).1

theorem Inv.step [DecidableEq Cpu] [DecidableEq Q] (h : s.Inv) {e : TimedEvent Cpu Q M}
    (hok : NoEarlyAlarm s e) (hs : s.step e = some s') : s'.Inv := by
  have hr := bind_toOption_eq_some.mp hs
  cases e with
  | background e =>
    obtain ⟨k, hk, heq⟩ := map_eq_some_iff.mp hr
    cases heq
    exact h.background hok hk
  | notifyOne c q resched =>
    obtain ⟨hguard, t, -, heq⟩ := of_guarded hr
    cases heq
    exact h.notify hguard (.notifyOneLocked c q resched)
  | notifyTask c q t resched =>
    obtain ⟨hguard, t', -, heq⟩ := of_guarded hr
    cases heq
    exact h.notify hguard (.notifyTask c q t resched)
  | notifyTaskIf c q resched answers =>
    obtain ⟨hguard, t, -, heq⟩ := of_guarded hr
    cases heq
    exact h.notify hguard (.notifyTaskIf c q resched _ answers)
  | waitTimeout c q m deadline | waitTimeoutUntil c q m deadline =>
    obtain ⟨t, ht, heq⟩ := map_eq_some_iff.mp hr
    cases heq
    exact h.arm rfl rfl
  | block c canPreempt =>
    obtain ⟨t, hcpu, hr⟩ := bind_eq_some_iff.mp hr
    have hcur := current_of_onCpu hcpu
    have hpending : ∀ {d}, (s.pc t).deadline? = some d → ¬ s.Excused t d →
        Pending s.kernel t d := fun hd hex => (h.alarm hd).resolve_right hex
    unfold Excused at hpending
    split at hr
    · next q m deadline hpc =>
      rw [ite_none_right_eq_some, some.injEq] at hr
      rw [hpc] at hpending
      refine h.blocks hcur ?_ (fun hd => ?_) (.inl hr.1) hr.2
      · rfl
      · exact hpending hd id
    case h_2 q m deadline hpc | h_3 q m deadline hpc =>
      rw [some.injEq] at hr
      rw [hpc] at hpending
      refine h.blocks hcur ?_ (fun hd => ?_) (.inr (by rw [hpc]; rfl)) hr
      · rfl
      · exact hpending hd id
    · cases hr
  | resume c | cancelEvents c =>
    obtain ⟨t, hcpu, hr⟩ := bind_eq_some_iff.mp hr
    split at hr
    · cases hr
      exact h.cancel _
    · cases hr
  | waitTimeoutIf c q m deadline condition =>
    obtain ⟨hguard, t, ht, heq⟩ := of_guarded hr
    cases heq
    split
    · refine h.enter (current_of_freeTask ht) hguard rfl
        (fun hpending => hpending.imp_left (mem_cons_of_mem _)) rfl (fun hd => ?_)
      cases hd
      exact .inl mem_cons_self
    · exact h
  | testTime c =>
    obtain ⟨t, hcpu, hr⟩ := bind_eq_some_iff.mp hr
    split at hr
    · next q m deadline hpc =>
      cases hr
      have hloop := h.alarm (t := t) (d := deadline) (by rw [hpc]; rfl)
      refine h.act h.kernel (fun _ => id) le_rfl (fun _ => id) (fun hd => ?_)
        (h.section_goto ?_) h.overdue
      · split at hd
        · next hlt =>
          cases hd
          refine hloop.resolve_right fun hex => ?_
          unfold Excused at hex
          rw [hpc] at hex
          exact absurd hlt (Nat.not_lt.mpr hex.1)
        · cases hd
      · split <;> rfl
    · cases hr
  | testCondition c condition =>
    rw [exec, ite_none_right_eq_some] at hr
    obtain ⟨t, hcpu, hr'⟩ := bind_eq_some_iff.mp hr.2
    split at hr'
    · next q m deadline hpc =>
      cases hr'
      split
      · exact h.act h.kernel (fun _ => id) le_rfl (fun _ => id) (fun hd => by cases hd)
          (h.section_goto rfl) h.overdue
      refine h.enter (current_of_onCpu hcpu) hr.1 rfl id rfl (fun hd => ?_)
      have hpending := h.alarm (t := t) (d := deadline) (by rw [hpc]; rfl)
      unfold Excused at hpending
      rw [hpc] at hpending
      cases hd
      exact hpending.resolve_right id
    · cases hr'

theorem Inv.init [DecidableEq Cpu] (c : Cpu) : (TimedSystem.init Q M c).Inv where
  kernel := Kernel.Inv.boot c
  alarm h := by cases h
  inSection h := by cases h
  overdue _ := rfl

/-- A task sleeps past its deadline: `check_events` has ended after that, and it has no alarm. -/
def Missed (s : TimedSystem Cpu Q M) (t d : ℕ) : Prop :=
  s.kernel.state t = .blocked ∧ (s.pc t).deadline? = some d ∧ d ≤ s.kernel.now ∧
    s.overdue t = true ∧ ∀ e ∈ s.kernel.timers, e.2 ≠ t

/-- If no alarm goes off for a task between setting it and blocking, and `check_events` does not end
while another CPU has an event in its hands, then no task sleeps past its deadline. -/
theorem timed_waits_end [DecidableEq Cpu] [DecidableEq Q] {c₀ : Cpu}
    (h : Reach step NoEarlyAlarm (TimedSystem.init Q M c₀) s) (t d : ℕ) : ¬ s.Missed t d := by
  have hinv : s.Inv :=
    Reach.invariant Inv (Inv.init c₀) (fun s e s' hs hok hstep => hs.step hok hstep) h
  rintro ⟨-, -, -, hoverdue, -⟩
  rw [hinv.overdue] at hoverdue
  cases hoverdue

/-- The main task waits until its alarm goes off. -/
def sampleEvents : List (TimedEvent Unit Unit Unit) :=
  [.waitTimeout () (.other ()) () 1, .block () true, .background .clock, .background (.irq ()),
    .background (.expireOne () 1 2), .background (.callback ()), .background (.checked ())]

theorem timed_waits_end_sample :
    ∃ s : TimedSystem Unit Unit Unit, Reach step NoEarlyAlarm (TimedSystem.init Unit Unit ()) s ∧
      s.kernel.state 2 = .ready ∧ s.kernel.now = 1 ∧ ¬ s.Missed 2 1 := by
  have hrun : (run step NoEarlyAlarm (TimedSystem.init Unit Unit ()) sampleEvents).map
      (fun s => (s.kernel.state 2, s.kernel.now)) = some (.ready, 1) := by
    decide +kernel
  obtain ⟨s, h, hp⟩ := exists_of_run hrun
  simp only [Prod.mk.injEq] at hp
  exact ⟨s, h, hp.1, hp.2, timed_waits_end h 2 1⟩

/-- The deadline passes between setting the alarm and blocking, and the timer interrupt comes
there and again later. -/
def missedEvents : List (TimedEvent Unit Unit Unit) :=
  [.waitTimeout () (.other ()) () 1, .background .clock, .background (.irq ()),
    .background (.expireOne () 1 2), .background (.callback ()), .background (.checked ()),
    .background (.tick ()), .block () true, .background (.irq ()), .background (.checked ())]

theorem timed_wait_missed :
    ∃ s : TimedSystem Unit Unit Unit, Reach step anyStep (TimedSystem.init Unit Unit ()) s ∧
      s.Missed 2 1 := by
  have hrun : (run step anyStep (TimedSystem.init Unit Unit ()) missedEvents).map
      (fun s => (s.kernel.state 2, (s.pc 2).deadline?, s.kernel.now, s.overdue 2,
        s.kernel.timers.isEmpty)) = some (.blocked, some 1, 1, true, true) := by
    decide +kernel
  obtain ⟨s, hs, hp⟩ := exists_of_run hrun
  simp only [Prod.mk.injEq] at hp
  obtain ⟨hb, hd, hnow, hoverdue, htimers⟩ := hp
  refine ⟨s, hs, hb, hd, hnow.ge, hoverdue, ?_⟩
  rw [List.isEmpty_iff.mp htimers]
  exact fun e he => absurd he not_mem_nil

end TimedSystem

end HvisorRux.Rux.Task
