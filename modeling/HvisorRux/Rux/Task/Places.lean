import HvisorRux.Common.Update
import HvisorRux.Rux.Task.Kernel
import Mathlib.Data.List.Nodup
import Mathlib.Order.Nat

/-!
# Every task is in one place

A task is current on one CPU, in the scheduler's queue, blocked or exited, as its state says. In the
middle of a critical section the task that is current on the CPU has already another state; the
invariant is therefore stated for all CPUs but one that is `busy`, and the context switch at the end
of the section makes it hold for all.
-/

namespace HvisorRux.Rux.Task

open Common Function List Option Kernel

namespace Kernel

variable {Cpu Q M : Type}

/-- Tasks, the queue of the scheduler and the CPUs agree, for the CPUs other than `busy`. -/
structure InvOn (busy : Option Cpu) (k : Kernel Cpu Q M) : Prop where
  runs : ∀ {c t}, some c ≠ busy → k.current c = some t → k.state t = .running
  alone : ∀ {c c' t}, some c ≠ busy → some c' ≠ busy → k.current c = some t →
    k.current c' = some t → c = c'
  runner : ∀ {t}, k.state t = .running → ∃ c, some c ≠ busy ∧ k.current c = some t
  queued : ∀ {t}, t ∈ k.readyQueue → k.state t = .ready ∧ k.added t = true
  nodup : k.readyQueue.Nodup
  ready : ∀ {t}, k.added t = true → k.isIdle t = false → k.state t = .ready → t ∈ k.readyQueue
  idle : ∀ {c i}, k.idleTask c = some i →
    k.isIdle i = true ∧ k.added i = false ∧ k.state i ≠ .blocked
  home : ∀ {c c' i}, k.idleTask c = some i → k.current c' = some i → c' = c
  ownIdle : ∀ {c c' i}, k.idleTask c = some i → k.idleTask c' = some i → c' = c
  online : ∀ {c t}, k.current c = some t → ∃ i, k.idleTask c = some i
  started : ∀ {c i}, k.idleTask c = some i → ∃ t, k.current c = some t
  pending : ∀ {t}, t ∈ k.pending → k.state t = .ready ∧ k.added t = false ∧ t < k.nextId ∧
    ∀ c, k.idleTask c ≠ some t
  pendingNodup : k.pending.Nodup
  fresh : ∀ {t}, k.nextId ≤ t → k.added t = false ∧ k.state t ≠ .running ∧
    ∀ c, k.idleTask c ≠ some t
  known : ∀ {c t}, k.current c = some t → t < k.nextId
  placed : ∀ {c t}, k.current c = some t → k.isIdle t = false → k.added t = true
  blocked : ∀ {t}, k.state t = .blocked → k.added t = true

/-- The invariant between critical sections. -/
abbrev Inv (k : Kernel Cpu Q M) : Prop := k.InvOn none

/-- The fields that the invariant reads. -/
def core (k : Kernel Cpu Q M) :=
  (k.state, k.isIdle, k.readyQueue, k.current, k.idleTask, k.nextId, k.pending, k.added)

section Sections

variable {k k' : Kernel Cpu Q M} {busy : Option Cpu} {c : Cpu} {t : ℕ}

theorem InvOn.congr (h : k.InvOn busy) (hc : k'.core = k.core) : k'.InvOn busy := by
  cases k
  cases k'
  obtain ⟨rfl, rfl, rfl, rfl, rfl, rfl, rfl, rfl⟩ := hc
  exact { h with }

theorem Inv.running (h : k.Inv) (ht : k.current c = some t) : k.state t = .running :=
  h.runs (some_ne_none c) ht

theorem Inv.unique (h : k.Inv) {c' : Cpu} (ht : k.current c = some t)
    (ht' : k.current c' = some t) : c = c' :=
  h.alone (some_ne_none c) (some_ne_none c') ht ht'

variable {u : ℕ} {s : TaskState} {queue : List ℕ}

/-- A running task other than the current one of a CPU is current on another CPU. -/
theorem Inv.runner_of_ne (h : k.Inv) (ht : k.current c = some t) (hu : k.state u = .running)
    (hne : u ≠ t) : ∃ c', some c' ≠ some c ∧ k.current c' = some u := by
  obtain ⟨c', -, hc'⟩ := h.runner hu
  refine ⟨c', ?_, hc'⟩
  rintro hc
  cases hc
  exact hne (some.inj (hc'.symm.trans ht))

theorem InvOn.nodup_enqueue (h : k.InvOn busy) (hnot : t ∉ k.readyQueue) :
    (k.readyQueue ++ [t]).Nodup := by
  refine nodup_append.mpr ⟨h.nodup, nodup_singleton t, ?_⟩
  intro a ha b hb hab
  rw [mem_singleton] at hb
  exact hnot (hb ▸ hab ▸ ha)

/-! ## Leaving a CPU -/

theorem update_state_of_ne (hne : u ≠ t) : (k.setState t s).state u = k.state u :=
  update_of_ne hne _ _

theorem update_state_self : (k.setState t s).state t = s :=
  update_self _ _ _

theorem InvOn.not_mem_readyQueue (h : k.InvOn busy) (hs : k.state t ≠ .ready) :
    t ∉ k.readyQueue :=
  fun hmem => hs (h.queued hmem).1

theorem Inv.not_ready (h : k.Inv) (ht : k.current c = some t) : k.state t ≠ .ready := by
  rw [h.running ht]
  decide

/-- A task that is not ready goes to a state other than running, and into the queue of the scheduler
if it is ready then. It has stopped on the CPUs that are not busy. -/
theorem InvOn.setTask (h : k.InvOn busy) {busy' : Option Cpu}
    (hbusy : ∀ {c}, some c ≠ busy' → some c ≠ busy ∧ k.current c ≠ some t)
    (hrunner : ∀ {u}, u ≠ t → k.state u = .running → ∃ c, some c ≠ busy' ∧ k.current c = some u)
    (hold : k.state t ≠ .ready) (hs : s ≠ .running) (hidle : s = .blocked → k.isIdle t = false)
    (hadded : s = .blocked ∨ t ∈ queue → k.added t = true)
    (hothers : ∀ {u}, u ≠ t → (u ∈ queue ↔ u ∈ k.readyQueue)) (hin : t ∈ queue → s = .ready)
    (hready : k.isIdle t = false → s = .ready → t ∈ queue) (hnodup : queue.Nodup) :
    { k.setState t s with readyQueue := queue }.InvOn busy' := by
  have hne : ∀ {u}, k.state u = .ready → u ≠ t := by
    rintro u hu rfl
    exact hold hu
  refine ⟨?_, fun h₁ h₂ => h.alone (hbusy h₁).1 (hbusy h₂).1, ?_, ?_, hnodup, ?_, ?_, h.home,
    h.ownIdle, h.online, h.started, ?_, h.pendingNodup, ?_, h.known, h.placed, ?_⟩
  · intro c u hc hu
    have hut : u ≠ t := fun he => (hbusy hc).2 (he ▸ hu)
    exact (update_state_of_ne hut).trans (h.runs (hbusy hc).1 hu)
  · intro u hu
    obtain ⟨hut, hu⟩ := of_update_eq hu hs
    exact hrunner hut hu
  · intro u hu
    by_cases hut : u = t
    · subst hut
      exact ⟨update_state_self.trans (hin hu), hadded (.inr hu)⟩
    · obtain ⟨hr, ha⟩ := h.queued ((hothers hut).mp hu)
      exact ⟨(update_state_of_ne hut).trans hr, ha⟩
  · intro u ha hni hr
    by_cases hut : u = t
    · subst hut
      exact hready hni (update_state_self.symm.trans hr)
    · exact (hothers hut).mpr (h.ready ha hni ((update_state_of_ne hut).symm.trans hr))
  · intro c i hi
    obtain ⟨h1, h2, h3⟩ := h.idle hi
    refine ⟨h1, h2, fun hb => ?_⟩
    by_cases hit : i = t
    · subst hit
      rw [hidle (update_state_self.symm.trans hb)] at h1
      cases h1
    · exact h3 ((update_state_of_ne hit).symm.trans hb)
  · intro u hu
    obtain ⟨h1, h2⟩ := h.pending hu
    exact ⟨(update_state_of_ne (hne h1)).trans h1, h2⟩
  · intro u hu
    obtain ⟨h1, h2, h3⟩ := h.fresh hu
    exact ⟨h1, fun hr => h2 (of_update_eq hr hs).2, h3⟩
  · intro u hb
    by_cases hut : u = t
    · subst hut
      exact hadded (.inl (update_state_self.symm.trans hb))
    · exact h.blocked ((update_state_of_ne hut).symm.trans hb)

section

variable (h : k.Inv) (ht : k.current c = some t)

include h ht

/-- The current task of a CPU stops: it blocks, exits, or becomes ready in a queue that holds it
unless it is an idle task. -/
theorem Inv.leave (hs : s ≠ .running) (hidle : s = .blocked → k.isIdle t = false)
    (hqueue : ∀ u, u ∈ queue ↔ u ∈ k.readyQueue ∨ (u = t ∧ s = .ready ∧ k.isIdle t = false))
    (hnodup : queue.Nodup) :
    { k.setState t s with readyQueue := queue }.InvOn (some c) := by
  have hin : t ∈ queue → s = .ready ∧ k.isIdle t = false := by
    intro hmem
    obtain hmem | ⟨-, hin⟩ := (hqueue t).mp hmem
    · exact absurd hmem (h.not_mem_readyQueue (h.not_ready ht))
    · exact hin
  refine h.setTask (fun hc => ⟨some_ne_none _, fun hu => ?_⟩)
    (fun hne hu => h.runner_of_ne ht hu hne) (h.not_ready ht) hs hidle ?_
    (fun hne => by simp [hqueue, hne]) (fun hmem => (hin hmem).1)
    (fun hni hr => (hqueue t).mpr (.inr ⟨rfl, hr, hni⟩)) hnodup
  · exact hc (congrArg some (h.unique hu ht))
  · exact fun hor => h.placed ht (hor.elim hidle fun hmem => (hin hmem).2)

/-- The current task of a CPU blocks or exits. -/
theorem Inv.stop (hs : s = .blocked ∨ s = .exited) (hidle : k.isIdle t = false) :
    (k.setState t s).InvOn (some c) := by
  refine h.leave ht ?_ (fun _ => hidle) (fun u => ?_) h.nodup
  · rcases hs with rfl | rfl <;> decide
  · rcases hs with rfl | rfl <;> simp

/-- The current task of a CPU becomes ready again. -/
theorem Inv.putCurrent (preempt : Bool) : (k.putCurrent t preempt).InvOn (some c) := by
  have hnot := h.not_mem_readyQueue (h.not_ready ht)
  unfold Kernel.putCurrent
  rw [if_pos (h.running ht)]
  dsimp only
  cases hi : k.isIdle t with
  | true =>
    have : (k.setState t .ready).isIdle t = true := hi
    rw [this, if_pos rfl]
    exact h.leave ht (by decide) (fun hb => by cases hb) (fun u => by simp [hi]) h.nodup
  | false =>
    have : (k.setState t .ready).isIdle t = false := hi
    rw [this, if_neg Bool.false_ne_true]
    unfold putPrevTask
    split
    · refine h.leave ht (by decide) (fun hb => by cases hb) (fun u => ?_) ?_
      · simp [hi, setState, or_comm]
      · exact nodup_cons.mpr ⟨hnot, h.nodup⟩
    · exact (h.leave ht (s := .ready) (by decide) (fun hb => by cases hb)
        (fun u => by simp [hi]) (h.nodup_enqueue hnot)).congr rfl

end

/-! ## Entering a CPU -/

/-- A task that is nowhere else becomes the current one of the busy CPU. -/
theorem InvOn.switchTo [DecidableEq Cpu] (h : k.InvOn (some c)) {next : ℕ} {rest : List ℕ}
    (hrest : ∀ u, u ∈ rest ↔ u ∈ k.readyQueue ∧ u ≠ next) (hnodup : rest.Nodup)
    (helsewhere : ∀ c', c' ≠ c → k.current c' ≠ some next) (hpending : next ∉ k.pending)
    (hidle : ∀ {c'}, k.idleTask c' = some next → c' = c) (hknown : next < k.nextId)
    (hadded : k.isIdle next = false → k.added next = true) (honline : ∃ i, k.idleTask c = some i) :
    ({ k with readyQueue := rest }.switchTo c next).Inv := by
  have hcurrent := fun {c' u} => @update_some_cases _ _ _ c c' k.current next u helsewhere
  have hother : ∀ {c'}, c' ≠ c → some c' ≠ some c := fun hne he => hne (some.inj he)
  refine ⟨?_, ?_, ?_, ?_, hnodup, ?_, ?_, ?_, h.ownIdle, ?_, ?_, ?_, h.pendingNodup, ?_, ?_, ?_, ?_⟩
  · intro c' u _ hu
    obtain ⟨-, rfl⟩ | ⟨hc, hu, hne⟩ := hcurrent hu
    · exact update_self _ _ _
    · exact (update_of_ne hne _ _).trans (h.runs (hother hc) hu)
  · intro c₁ c₂ u _ _ h₁ h₂
    refine update_unique helsewhere helsewhere (fun hc₂ hc₁ h₂ h₁ => ?_) h₂ h₁
    exact h.alone (hother hc₁) (hother hc₂) h₁ h₂
  · intro u hu
    by_cases hne : u = next
    · subst hne
      exact ⟨c, some_ne_none c, update_self _ _ _⟩
    · obtain ⟨c', hc', hcur⟩ := h.runner ((update_of_ne hne _ _).symm.trans hu)
      have hc : c' ≠ c := fun he => hc' (congrArg some he)
      exact ⟨c', some_ne_none c', (update_of_ne hc _ _).trans hcur⟩
  · intro u hu
    obtain ⟨hu, hne⟩ := (hrest u).mp hu
    exact ⟨(update_of_ne hne _ _).trans (h.queued hu).1, (h.queued hu).2⟩
  · intro u hadd hni hready
    obtain ⟨hne, hready⟩ := of_update_eq hready (by decide)
    exact (hrest u).mpr ⟨h.ready hadd hni hready, hne⟩
  · intro c' i hi
    obtain ⟨h1, h2, h3⟩ := h.idle hi
    exact ⟨h1, h2, fun hb => h3 (of_update_eq hb (by decide)).2⟩
  · intro c₁ c₂ i hi hcur
    obtain ⟨rfl, rfl⟩ | ⟨-, hcur, -⟩ := hcurrent hcur
    · exact (hidle hi).symm
    · exact h.home hi hcur
  · intro c' u hu
    obtain ⟨rfl, -⟩ | ⟨-, hu, -⟩ := hcurrent hu
    · exact honline
    · exact h.online hu
  · intro c' i hi
    by_cases hc : c' = c
    · exact ⟨next, by rw [hc]; exact update_self _ _ _⟩
    · obtain ⟨u, hu⟩ := h.started hi
      exact ⟨u, (update_of_ne hc _ _).trans hu⟩
  · intro u hu
    obtain ⟨h1, h2⟩ := h.pending hu
    have hne : u ≠ next := fun he => hpending (he ▸ hu)
    exact ⟨(update_of_ne hne _ _).trans h1, h2⟩
  · intro u hu
    obtain ⟨h1, h2, h3⟩ := h.fresh hu
    have hne : u ≠ next := fun he => absurd hknown (Nat.not_lt.mpr (he ▸ hu))
    exact ⟨h1, fun hr => h2 ((update_of_ne hne _ _).symm.trans hr), h3⟩
  · intro c' u hu
    obtain ⟨-, rfl⟩ | ⟨-, hu, -⟩ := hcurrent hu
    · exact hknown
    · exact h.known hu
  · intro c' u hu hni
    obtain ⟨-, rfl⟩ | ⟨-, hu, -⟩ := hcurrent hu
    · exact hadded hni
    · exact h.placed hu hni
  · intro u hb
    exact h.blocked (of_update_eq hb (by decide)).2

/-- The busy CPU goes on with the next task. -/
theorem InvOn.switchToNext [DecidableEq Cpu] (h : k.InvOn (some c)) {i : ℕ}
    (hi : k.idleTask c = some i) :
    (k.switchToNext c).Inv := by
  unfold Kernel.switchToNext
  cases hq : k.readyQueue with
  | nil =>
    rw [hi]
    obtain ⟨h1, h2, -⟩ := h.idle hi
    have hsame : ({ k with readyQueue := [] } : Kernel Cpu Q M) = k := by
      rw [← hq]
    have hrest : ∀ u, u ∈ ([] : List ℕ) ↔ u ∈ k.readyQueue ∧ u ≠ i := by simp [hq]
    have := h.switchTo hrest nodup_nil
      (fun c' hc' hcur => hc' (h.home hi hcur)) (fun hp => (h.pending hp).2.2.2 c hi)
      (fun hc' => h.ownIdle hi hc') (by_contra fun hge => (h.fresh (Nat.not_lt.mp hge)).2.2 c hi)
      (fun hni => by rw [h1] at hni; cases hni) ⟨i, hi⟩
    rwa [hsame] at this
  | cons next rest =>
    have hmem : next ∈ k.readyQueue := by simp [hq]
    obtain ⟨hready, hadded⟩ := h.queued hmem
    have hfalse : k.added next ≠ false := ne_false_of_eq_true hadded
    have hnodup := h.nodup
    rw [hq, nodup_cons] at hnodup
    refine h.switchTo (fun u => ?_) hnodup.2 (fun c' hc' hcur => ?_)
      (fun hp => hfalse (h.pending hp).2.1) (fun hc' => absurd (h.idle hc').2.1 hfalse)
      (by_contra fun hge => hfalse (h.fresh (Nat.not_lt.mp hge)).1) (fun _ => hadded) ⟨i, hi⟩
    · rw [hq, mem_cons]
      constructor
      · exact fun hu => ⟨.inr hu, fun he => hnodup.1 (he ▸ hu)⟩
      · rintro ⟨rfl | hu, hne⟩
        · exact absurd rfl hne
        · exact hu
    · have := h.runs (fun he => hc' (some.inj he)) hcur
      rw [hready] at this
      cases this

/-- `resched` after the current task has stopped. -/
theorem InvOn.resched [DecidableEq Cpu] (h : k.InvOn (some c)) (ht : k.current c = some t)
    (hs : k.state t ≠ .running) (preempt : Bool) : (k.resched c t preempt).Inv := by
  obtain ⟨i, hi⟩ := h.online ht
  unfold Kernel.resched
  rw [putCurrent, if_neg hs]
  exact h.switchToNext hi

/-- `resched` of a task that still runs. -/
theorem Inv.resched [DecidableEq Cpu] (h : k.Inv) (ht : k.current c = some t) (preempt : Bool) :
    (k.resched c t preempt).Inv := by
  have hput := h.putCurrent ht preempt
  have hcur : (k.putCurrent t preempt).idleTask = k.idleTask := by
    unfold Kernel.putCurrent putPrevTask
    dsimp only
    split_ifs <;> rfl
  obtain ⟨i, hi⟩ := h.online ht
  exact hput.switchToNext (hcur ▸ hi)

/-! ## Waking tasks -/

theorem core_setPreemptPending : (k.setPreemptPending c).core = k.core := by
  unfold setPreemptPending
  split <;> rfl

theorem core_schedulerTimerTick : (k.schedulerTimerTick c t).core = k.core := by
  unfold schedulerTimerTick
  dsimp only
  split_ifs
  · rfl
  · exact core_setPreemptPending
  · rfl

section

variable (h : k.InvOn busy)

include h

namespace InvOn

/-- A task is blocked no more. -/
theorem unblockTask (c : Cpu) (t : ℕ) (resched : Bool) :
    (k.unblockTask c t resched).InvOn busy := by
  unfold Kernel.unblockTask
  split
  · next hb =>
    have hready : k.state t ≠ .ready := by
      rw [hb]
      decide
    have hinv : { k.setState t .ready with readyQueue := k.readyQueue ++ [t] }.InvOn busy := by
      refine h.setTask (fun hc => ⟨hc, fun hu => ?_⟩) (fun _ => h.runner) hready (by decide)
        (by simp) (fun _ => h.blocked hb) (fun hne => by simp [hne]) (fun _ => rfl)
        (fun _ _ => by simp) (h.nodup_enqueue (h.not_mem_readyQueue hready))
      have := h.runs hc hu
      rw [hb] at this
      cases this
    split
    · exact hinv.congr core_setPreemptPending
    · exact hinv
  · exact h

theorem setInWaitQueue (t : ℕ) (b : Bool) : (k.setInWaitQueue t b).InvOn busy :=
  h.congr rfl

theorem wake (c : Cpu) (t : ℕ) (resched : Bool) : (k.wake c t resched).InvOn busy :=
  (h.setInWaitQueue t false).unblockTask c t resched

theorem retain {S : Type} (c : Cpu) (resched : Bool)
    (filter : S → Kernel Cpu Q M → ℕ × M → Bool × S) (entries : List (ℕ × M)) (s : S) :
    (retain c resched filter entries s k).1.InvOn busy := by
  induction entries generalizing k s with
  | nil => exact h
  | cons e rest ih =>
    rw [retain]
    split
    · exact ih (h.wake c e.1 resched) _
    · exact ih h _

theorem setQueue [DecidableEq Q] (q : QueueId Q) (entries : List (ℕ × M)) :
    (k.setQueue q entries).InvOn busy :=
  h.congr rfl

theorem notifyOneLocked [DecidableEq Q] (c : Cpu) (q : QueueId Q) (resched : Bool) :
    (k.notifyOneLocked c q resched).InvOn busy := by
  unfold Kernel.notifyOneLocked
  split
  · exact h
  · exact (h.setQueue q _).wake c _ resched

theorem notifyTask [DecidableEq Q] (c : Cpu) (q : QueueId Q) (t : ℕ) (resched : Bool) :
    (k.notifyTask c q t resched).InvOn busy := by
  unfold Kernel.notifyTask
  split
  · exact (h.setQueue q _).wake c t resched
  · exact h

theorem notifyTaskIf [DecidableEq Q] {S : Type} (c : Cpu) (q : QueueId Q) (resched : Bool)
    (filter : S → Kernel Cpu Q M → ℕ × M → Bool × S) (s : S) :
    (k.notifyTaskIf c q resched filter s).InvOn busy :=
  (h.retain c resched filter _ s).setQueue q _

end InvOn

end

/-! ## Creating tasks -/

theorem Inv.addTask (h : k.Inv) (ht : t ∈ k.pending) : ∃ k', k.addTask t = .ok k' ∧ k'.Inv := by
  obtain ⟨hready, hadded, hlt, hidle⟩ := h.pending ht
  refine ⟨_, by rw [Kernel.addTask, if_pos hready], ?_⟩
  have hnew : ∀ {u}, update k.added t true u = true ↔ u = t ∨ k.added u = true := by
    intro u
    by_cases hut : u = t <;> simp [update, hut]
  have hold : ∀ {u}, u ≠ t → update k.added t true u = k.added u := fun hne => update_of_ne hne _ _
  have hnot : t ∉ k.readyQueue := by
    intro hmem
    rw [(h.queued hmem).2] at hadded
    cases hadded
  refine ⟨h.runs, h.alone, h.runner, ?_, ?_, ?_, ?_, h.home, h.ownIdle, h.online, h.started, ?_,
    h.pendingNodup.erase t, ?_, h.known, ?_, ?_⟩
  · intro u hu
    rw [mem_append, mem_singleton] at hu
    obtain hu | rfl := hu
    · exact ⟨(h.queued hu).1, hnew.mpr (.inr (h.queued hu).2)⟩
    · exact ⟨hready, hnew.mpr (.inl rfl)⟩
  · exact h.nodup_enqueue hnot
  · intro u hu hni hr
    rw [mem_append, mem_singleton]
    obtain rfl | hu := hnew.mp hu
    · exact .inr rfl
    · exact .inl (h.ready hu hni hr)
  · intro c i hi
    obtain ⟨h1, h2, h3⟩ := h.idle hi
    have hne : i ≠ t := fun he => hidle c (he ▸ hi)
    exact ⟨h1, (hold hne).trans h2, h3⟩
  · intro u hu
    rw [h.pendingNodup.mem_erase_iff] at hu
    obtain ⟨h1, h2, h3⟩ := h.pending hu.2
    exact ⟨h1, (hold hu.1).trans h2, h3⟩
  · intro u hu
    obtain ⟨h1, h2⟩ := h.fresh hu
    have hne : u ≠ t := fun he => Nat.not_lt.mpr hu (he ▸ hlt)
    exact ⟨(hold hne).trans h1, h2⟩
  · intro c u hu hni
    exact hnew.mpr (.inr (h.placed hu hni))
  · intro u hb
    exact hnew.mpr (.inr (h.blocked hb))

theorem Inv.ne_nextId (h : k.Inv) (ht : k.added t = true) : t ≠ k.nextId := by
  rintro rfl
  rw [(h.fresh le_rfl).1] at ht
  cases ht

theorem Inv.newTask (h : k.Inv) (namedIdle : Bool) : (k.newTask namedIdle).Inv := by
  obtain ⟨hadded, -, hidle⟩ := h.fresh le_rfl
  have hcurrent : ∀ {c t}, k.current c = some t → t ≠ k.nextId :=
    fun hc => Nat.ne_of_lt (h.known hc)
  refine ⟨?_, h.alone, ?_, ?_, h.nodup, ?_, ?_, h.home, h.ownIdle, h.online, h.started, ?_, ?_, ?_,
    ?_, ?_, ?_⟩
  · intro c t _ ht
    exact (update_of_ne (hcurrent ht) _ _).trans (h.running ht)
  · intro t ht
    exact h.runner (of_update_eq ht (by decide)).2
  · intro t ht
    obtain ⟨h1, h2⟩ := h.queued ht
    exact ⟨(update_of_ne (h.ne_nextId h2) _ _).trans h1, h2⟩
  · intro t hadd hni hready
    have hne := h.ne_nextId hadd
    exact h.ready hadd ((update_of_ne hne _ _).symm.trans hni)
      ((update_of_ne hne _ _).symm.trans hready)
  · intro c i hi
    have hne : i ≠ k.nextId := fun he => hidle c (he ▸ hi)
    obtain ⟨h1, h2, h3⟩ := h.idle hi
    exact ⟨(update_of_ne hne _ _).trans h1, h2, fun hb => h3 (of_update_eq hb (by decide)).2⟩
  · intro t ht
    obtain rfl | ht := mem_cons.mp ht
    · exact ⟨update_self _ _ _, hadded, Nat.lt_succ_self _, hidle⟩
    · obtain ⟨h1, h2, h3, h4⟩ := h.pending ht
      exact ⟨(update_of_ne (Nat.ne_of_lt h3) _ _).trans h1, h2, Nat.lt_succ_of_lt h3, h4⟩
  · refine nodup_cons.mpr ⟨fun hmem => ?_, h.pendingNodup⟩
    exact Nat.lt_irrefl _ (h.pending hmem).2.2.1
  · intro t ht
    obtain ⟨h1, h2, h3⟩ := h.fresh (Nat.le_of_succ_le ht)
    exact ⟨h1, fun hr => h2 (of_update_eq hr (by decide)).2, h3⟩
  · intro c t ht
    exact Nat.lt_succ_of_lt (h.known ht)
  · intro c t ht hni
    exact h.placed ht ((update_of_ne (hcurrent ht) _ _).symm.trans hni)
  · intro t hb
    exact h.blocked (of_update_eq hb (by decide)).2

/-- A CPU starts with its idle task. -/
theorem Inv.initSecondary [DecidableEq Cpu] (h : k.Inv) (hc : k.current c = none) :
    (k.initSecondary c).Inv := by
  obtain ⟨hadded, -, hidle⟩ := h.fresh le_rfl
  have hfresh : ∀ c' ≠ c, k.current c' ≠ some k.nextId := fun _ _ ht => Nat.lt_irrefl _ (h.known ht)
  have hfreshIdle : ∀ c' ≠ c, k.idleTask c' ≠ some k.nextId := fun c' _ => hidle c'
  have hcurrent := fun {c' t} => @update_some_cases _ _ _ c c' k.current k.nextId t hfresh
  have hidles := fun {c' t} => @update_some_cases _ _ _ c c' k.idleTask k.nextId t hfreshIdle
  have hstate : ∀ {t}, t ≠ k.nextId → (k.initSecondary c).state t = k.state t :=
    fun hne => update_of_ne hne _ _
  have hstate' : (k.initSecondary c).state k.nextId = .running := update_self _ _ _
  have hflag : ∀ {t}, t ≠ k.nextId → (k.initSecondary c).isIdle t = k.isIdle t :=
    fun hne => update_of_ne hne _ _
  refine ⟨?_, ?_, ?_, ?_, h.nodup, ?_, ?_, ?_, ?_, ?_, ?_, ?_, h.pendingNodup, ?_, ?_, ?_, ?_⟩
  · intro c' t _ ht
    obtain ⟨-, rfl⟩ | ⟨-, ht, hn⟩ := hcurrent ht
    · exact hstate'
    · exact (hstate hn).trans (h.running ht)
  · intro c₁ c₂ t _ _ h₁ h₂
    exact update_unique hfresh hfresh (fun _ _ h₂ h₁ => h.unique h₁ h₂) h₂ h₁
  · intro t ht
    by_cases hn : t = k.nextId
    · subst hn
      exact ⟨c, some_ne_none c, update_self _ _ _⟩
    obtain ⟨c', hc', hcur⟩ := h.runner ((hstate hn).symm.trans ht)
    have hcc : c' ≠ c := by
      rintro rfl
      rw [hc] at hcur
      cases hcur
    exact ⟨c', hc', (update_of_ne hcc _ _).trans hcur⟩
  · intro t ht
    obtain ⟨h1, h2⟩ := h.queued ht
    exact ⟨(hstate (h.ne_nextId h2)).trans h1, h2⟩
  · intro t hadd hni hready
    have hn := h.ne_nextId hadd
    exact h.ready hadd ((hflag hn).symm.trans hni) ((hstate hn).symm.trans hready)
  · intro c' i hi
    obtain ⟨-, rfl⟩ | ⟨-, hi, hn⟩ := hidles hi
    · exact ⟨update_self _ _ _, hadded, by rw [hstate']; decide⟩
    · obtain ⟨h1, h2, h3⟩ := h.idle hi
      exact ⟨(hflag hn).trans h1, h2, fun hb => h3 ((hstate hn).symm.trans hb)⟩
  · exact update_unique hfreshIdle hfresh fun _ _ => h.home
  · exact update_unique hfreshIdle hfreshIdle fun _ _ => h.ownIdle
  · intro c' t ht
    obtain ⟨rfl, -⟩ | ⟨hcc, ht, -⟩ := hcurrent ht
    · exact ⟨_, update_self _ _ _⟩
    · obtain ⟨i, hi⟩ := h.online ht
      exact ⟨i, (update_of_ne hcc _ _).trans hi⟩
  · intro c' i hi
    obtain ⟨rfl, -⟩ | ⟨hcc, hi, -⟩ := hidles hi
    · exact ⟨_, update_self _ _ _⟩
    · obtain ⟨t, ht⟩ := h.started hi
      exact ⟨t, (update_of_ne hcc _ _).trans ht⟩
  · intro t ht
    obtain ⟨h1, h2, h3, h4⟩ := h.pending ht
    refine ⟨(hstate (Nat.ne_of_lt h3)).trans h1, h2, Nat.lt_succ_of_lt h3, fun c' hi => ?_⟩
    obtain ⟨-, rfl⟩ | ⟨-, hi, -⟩ := hidles hi
    · exact Nat.lt_irrefl _ h3
    · exact h4 c' hi
  · intro t ht
    obtain ⟨h1, h2, h3⟩ := h.fresh (Nat.le_of_succ_le ht)
    have hn : t ≠ k.nextId := Nat.ne_of_gt ht
    refine ⟨h1, fun hr => h2 ((hstate hn).symm.trans hr), fun c' hi => ?_⟩
    obtain ⟨-, he⟩ | ⟨-, hi, -⟩ := hidles hi
    · exact hn he
    · exact h3 c' hi
  · intro c' t ht
    obtain ⟨-, rfl⟩ | ⟨-, ht, -⟩ := hcurrent ht
    · exact Nat.lt_succ_self _
    · exact Nat.lt_succ_of_lt (h.known ht)
  · intro c' t ht hni
    obtain ⟨-, rfl⟩ | ⟨-, ht, hn⟩ := hcurrent ht
    · rw [show (k.initSecondary c).isIdle k.nextId = true from update_self _ _ _] at hni
      cases hni
    · exact h.placed ht ((hflag hn).symm.trans hni)
  · intro t hb
    exact h.blocked (of_update_eq hb (by decide)).2

end Sections

/-! ## Steps -/

section Steps

variable {k k' : Kernel Cpu Q M} {c : Cpu} {t : ℕ} {r : Except Assertion (Kernel Cpu Q M)}

/-- A step keeps the invariant or fails an assertion that is not about the state of a task. -/
def Safe : Except Assertion (Kernel Cpu Q M) → Prop
  | .ok k => k.Inv
  | .error a => a ≠ .isRunning ∧ a ≠ .isReady

theorem Inv.blockCurrent [DecidableEq Cpu] [DecidableEq Q] (h : k.Inv) (ht : k.current c = some t)
    (q : QueueId Q) (m : M) (canPreempt : Bool) : Safe (k.blockCurrent c t q m canPreempt) := by
  unfold Kernel.blockCurrent
  split
  · next hs => exact absurd (h.running ht) hs
  split
  · exact ⟨by decide, by decide⟩
  rename_i hi
  split
  · exact ⟨by decide, by decide⟩
  · have hstop := h.stop ht (s := .blocked) (.inl rfl) (Bool.eq_false_iff.mpr hi)
    refine ((hstop.setInWaitQueue t true).setQueue q _).resched ht ?_ false
    rw [show ((k.setState t .blocked).setInWaitQueue t true |>.setQueue q _).state t = .blocked
      from update_state_self]
    decide

theorem Inv.sleepUntil [DecidableEq Cpu] (h : k.Inv) (ht : k.current c = some t) (deadline : ℕ) :
    Safe (k.sleepUntil c t deadline) := by
  unfold Kernel.sleepUntil
  split
  · next hs => exact absurd (h.running ht) hs
  split
  · exact ⟨by decide, by decide⟩
  rename_i hi
  split
  · have halarm : (k.setAlarmWakeup deadline t).Inv := h.congr rfl
    refine (halarm.stop ht (s := .blocked) (.inl rfl) (Bool.eq_false_iff.mpr hi)).resched ht ?_
      false
    rw [update_state_self]
    decide
  · exact h

theorem current_unblockTask (k : Kernel Cpu Q M) (c : Cpu) (t : ℕ) (resched : Bool) :
    (k.unblockTask c t resched).current = k.current := by
  unfold unblockTask setPreemptPending
  dsimp only
  split_ifs
  · split <;> rfl
  · rfl
  · rfl

theorem exited_unblockTask {u : ℕ} (hu : k.state u = .exited) (c : Cpu) (t : ℕ) (resched : Bool) :
    (k.unblockTask c t resched).state u = .exited := by
  unfold unblockTask
  split
  · next hb =>
    have hut : u ≠ t := by
      rintro rfl
      rw [hu] at hb
      cases hb
    have hset : { k.setState t .ready with readyQueue := k.readyQueue ++ [t] }.state u = .exited :=
      (update_state_of_ne hut).trans hu
    dsimp only
    split
    · unfold setPreemptPending
      split <;> exact hset
    · exact hset
  · exact hu

/-- What an exiting task still is while it wakes others. -/
def Leaving (k : Kernel Cpu Q M) (c : Cpu) (t : ℕ) : Prop :=
  k.InvOn (some c) ∧ k.current c = some t ∧ k.state t = .exited

theorem Leaving.wake (h : k.Leaving c t) (u : ℕ) (resched : Bool) :
    (k.wake c u resched).Leaving c t :=
  ⟨h.1.wake c u resched, (congrFun (current_unblockTask _ c u resched) c).trans h.2.1,
    exited_unblockTask (k := k.setInWaitQueue u false) h.2.2 c u resched⟩

theorem Leaving.wakeAll (h : k.Leaving c t) (resched : Bool) (entries : List (ℕ × M)) :
    (wakeAll c resched entries k).Leaving c t := by
  induction entries generalizing k with
  | nil => exact h
  | cons e rest ih => exact ih (h.wake e.1 resched)

theorem Leaving.setQueue [DecidableEq Q] (h : k.Leaving c t) (q : QueueId Q)
    (entries : List (ℕ × M)) :
    (k.setQueue q entries).Leaving c t :=
  ⟨h.1.setQueue q entries, h.2⟩

theorem Inv.exitCurrent [DecidableEq Cpu] [DecidableEq Q] (h : k.Inv) (ht : k.current c = some t)
    (hr : k.exitCurrent c t = some r) : Safe r := by
  unfold Kernel.exitCurrent at hr
  split at hr
  · next hs => exact absurd (h.running ht) hs
  split at hr
  · cases hr
    exact ⟨by decide, by decide⟩
  rename_i hi
  split at hr
  · cases hr
  cases hr
  have hstop : (k.setState t .exited).Leaving c t :=
    ⟨h.stop ht (.inr rfl) (Bool.eq_false_iff.mpr hi), ht, update_state_self⟩
  have hall : ((k.setState t .exited).notifyAllLocked c (.exitOf t) false).Leaving c t :=
    (hstop.setQueue (.exitOf t) []).wakeAll false (k.queues (.exitOf t))
  generalize (k.setState t .exited).notifyAllLocked c (.exitOf t) false = k₁ at hall
  have hone : (notifyOneLocked { k₁ with exitedTasks := k₁.exitedTasks ++ [t] } c
      .waitForExit false).Leaving c t := by
    have hpush : { k₁ with exitedTasks := k₁.exitedTasks ++ [t] }.Leaving c t :=
      ⟨hall.1.congr rfl, hall.2⟩
    unfold notifyOneLocked
    split
    · exact hpush
    · exact (hpush.setQueue _ _).wake _ false
  refine hone.1.resched hone.2.1 ?_ false
  rw [hone.2.2]
  decide

theorem current_of_onCpu (h : k.onCpu c = some t) : k.current c = some t := by
  unfold onCpu at h
  split at h
  · exact h
  · cases h

/-- Every step keeps the invariant, and no assertion about the state of a task fails. -/
theorem Inv.exec [DecidableEq Cpu] [DecidableEq Q] (h : k.Inv) (e : Event Cpu Q M)
    (hr : k.exec e = some r) : Safe r := by
  cases e with
  | clock =>
    cases hr
    exact h.congr rfl
  | newTask namedIdle =>
    cases hr
    exact h.newTask namedIdle
  | addTask t =>
    rw [Kernel.exec, ite_none_right_eq_some] at hr
    obtain ⟨k', hk', hinv⟩ := h.addTask hr.1
    rw [hk'] at hr
    cases hr.2
    exact hinv
  | initSecondary c =>
    rw [Kernel.exec, ite_none_right_eq_some] at hr
    cases hr.2
    exact h.initSecondary hr.1
  | yield c =>
    obtain ⟨t, ht, rfl⟩ := map_eq_some_iff.mp hr
    have hcur := current_of_onCpu ht
    rw [yieldCurrent, if_pos (h.running hcur)]
    exact h.resched hcur false
  | preempt c canPreempt =>
    obtain ⟨t, ht, hr⟩ := bind_eq_some_iff.mp hr
    have hcur := current_of_onCpu ht
    rw [ite_none_right_eq_some] at hr
    cases hr.2
    rw [preemptResched, if_pos (h.running hcur)]
    split
    · exact h.resched hcur true
    · exact h.congr core_setPreemptPending
  | exit c =>
    obtain ⟨t, ht, hr⟩ := bind_eq_some_iff.mp hr
    exact h.exitCurrent (current_of_onCpu ht) hr
  | block c q m canPreempt =>
    obtain ⟨t, ht, rfl⟩ := map_eq_some_iff.mp hr
    exact h.blockCurrent (current_of_onCpu ht) q m canPreempt
  | sleepUntil c deadline =>
    obtain ⟨t, ht, rfl⟩ := map_eq_some_iff.mp hr
    exact h.sleepUntil (current_of_onCpu ht) deadline
  | notifyOne c q resched =>
    obtain ⟨t, ht, rfl⟩ := map_eq_some_iff.mp hr
    exact h.notifyOneLocked c q resched
  | notifyTask c q t resched =>
    obtain ⟨-, ht, rfl⟩ := map_eq_some_iff.mp hr
    exact h.notifyTask c q t resched
  | notifyTaskIf c q resched answers =>
    obtain ⟨t, ht, rfl⟩ := map_eq_some_iff.mp hr
    exact h.notifyTaskIf c q resched _ answers
  | setAlarm c deadline =>
    obtain ⟨t, ht, rfl⟩ := map_eq_some_iff.mp hr
    exact h.congr rfl
  | cancelEvents c q =>
    obtain ⟨t, -, rfl⟩ := map_eq_some_iff.mp hr
    refine h.congr ?_
    unfold cancelEvents
    dsimp only
    split_ifs <;> rfl
  | irq c | expireOne c deadline t | checked c =>
    rw [Kernel.exec, ite_none_right_eq_some] at hr
    cases hr.2
    exact h.congr rfl
  | callback c =>
    rw [Kernel.exec] at hr
    split at hr
    · next t _ =>
      cases hr
      have halarm : { k with inTimerList := update k.inTimerList t false }.Inv := h.congr rfl
      exact (halarm.unblockTask c t true).congr rfl
    · cases hr
  | tick c =>
    rw [Kernel.exec] at hr
    split at hr
    · cases hr
      exact (h.congr core_schedulerTimerTick).congr rfl
    · cases hr

/-- A step that does not fail an assertion. -/
def step [DecidableEq Cpu] [DecidableEq Q] (k : Kernel Cpu Q M) (e : Event Cpu Q M) : Option
    (Kernel Cpu Q M) :=
  (k.exec e).bind Except.toOption

/-- Where a task is, by its state. -/
def InOnePlace (k : Kernel Cpu Q M) (t : ℕ) : Prop :=
  match k.state t with
  | .running => (∃ c, k.current c = some t ∧ ∀ c', k.current c' = some t → c' = c) ∧
      t ∉ k.readyQueue
  | .ready => k.readyQueue.count t = 1 ∧ ∀ c, k.current c ≠ some t
  | .blocked | .exited => t ∉ k.readyQueue ∧ ∀ c, k.current c ≠ some t

theorem Inv.inOnePlace (h : k.Inv) (hadded : k.added t = true) (hidle : k.isIdle t = false) :
    k.InOnePlace t := by
  have hcpu : k.state t ≠ .running → ∀ c, k.current c ≠ some t := fun hs c hc => hs (h.running hc)
  unfold InOnePlace
  cases hs : k.state t with
  | running =>
    obtain ⟨c, -, hc⟩ := h.runner hs
    exact ⟨⟨c, hc, fun c' hc' => h.unique hc' hc⟩, h.not_mem_readyQueue (h.not_ready hc)⟩
  | ready =>
    exact ⟨count_eq_one_of_mem h.nodup (h.ready hadded hidle hs), hcpu (by rw [hs]; decide)⟩
  | blocked | exited =>
    exact ⟨h.not_mem_readyQueue (by rw [hs]; decide), hcpu (by rw [hs]; decide)⟩

theorem Inv.boot [DecidableEq Cpu] (c₀ : Cpu) : (Kernel.boot Q M c₀).Inv := by
  have hstate : ∀ {t}, (Kernel.boot Q M c₀).state t = if t = 2 then .running else .ready := by
    intro t
    by_cases ht : t = 2 <;> simp [Kernel.boot, update, ht]
  have honly : ∀ {n c} {t : ℕ}, update (fun _ => none) c₀ (some n) c = some t → c = c₀ ∧ t = n := by
    intro n c t ht
    obtain hc | ⟨-, hnone, -⟩ := update_some_cases (fun _ _ => (some_ne_none n).symm) ht
    · exact hc
    · cases hnone
  have hmain : (Kernel.boot Q M c₀).current c₀ = some 2 := by simp [Kernel.boot]
  have hown : (Kernel.boot Q M c₀).idleTask c₀ = some 1 := by simp [Kernel.boot]
  have hcurrent : ∀ {c t}, (Kernel.boot Q M c₀).current c = some t → c = c₀ ∧ t = 2 := honly
  have hidle : ∀ {c i}, (Kernel.boot Q M c₀).idleTask c = some i → c = c₀ ∧ i = 1 := honly
  refine ⟨?_, ?_, ?_, ?_, ?_, ?_, ?_, ?_, ?_, ?_, ?_, ?_, ?_, ?_, ?_, ?_, ?_⟩
  · intro c t _ ht
    rw [(hcurrent ht).2]
    rfl
  · intro c c' t _ _ h₁ h₂
    rw [(hcurrent h₁).1, (hcurrent h₂).1]
  · intro t ht
    rw [hstate] at ht
    split at ht
    · next h2 => exact ⟨c₀, some_ne_none c₀, by rw [h2]; exact hmain⟩
    · cases ht
  · intro t ht
    rw [Kernel.boot, mem_singleton] at ht
    subst ht
    exact ⟨hstate, rfl⟩
  · exact nodup_singleton 3
  · intro t hadded _ hready
    rw [hstate] at hready
    split at hready
    · cases hready
    · next h2 =>
      simp only [Kernel.boot, Bool.or_eq_true, beq_iff_eq, h2, false_or] at hadded
      exact mem_singleton.mpr hadded
  · intro c i hi
    rw [(hidle hi).2, hstate]
    exact ⟨rfl, rfl, by decide⟩
  · intro c c' i hi hc
    have := (hidle hi).2.symm.trans (hcurrent hc).2
    cases this
  · intro c c' i hi hi'
    rw [(hidle hi).1, (hidle hi').1]
  · intro c t ht
    exact ⟨1, by rw [(hcurrent ht).1]; exact hown⟩
  · intro c i hi
    exact ⟨2, by rw [(hidle hi).1]; exact hmain⟩
  · intro t ht
    cases ht
  · exact nodup_nil
  · intro t ht
    have hge : 4 ≤ t := ht
    refine ⟨?_, ?_, fun c hi => ?_⟩
    · simp only [Kernel.boot, Bool.or_eq_false_iff, beq_eq_false_iff_ne]
      omega
    · rw [hstate, if_neg (by omega)]
      decide
    · rw [(hidle hi).2] at hge
      omega
  · intro c t ht
    rw [(hcurrent ht).2]
    exact (by decide : 2 < 4)
  · intro c t ht _
    rw [(hcurrent ht).2]
    rfl
  · intro t ht
    rw [hstate] at ht
    split at ht <;> cases ht

/-- In every run from the start on, every task that was added to the run queue and is no idle task
is in one place, and no step fails an assertion about the state of a task. -/
theorem tasks_in_one_place [DecidableEq Cpu] [DecidableEq Q] {c₀ : Cpu}
    (h : Reach step anyStep (boot Q M c₀) k) :
    (∀ t, k.added t = true → k.isIdle t = false → k.InOnePlace t) ∧
      ∀ e, k.exec e ≠ some (.error .isRunning) ∧ k.exec e ≠ some (.error .isReady) := by
  have hinv : k.Inv := by
    refine Reach.invariant Inv (Inv.boot c₀) ?_ h
    intro k e k' hk _ hstep
    exact hk.exec e (bind_toOption_eq_some.mp hstep)
  refine ⟨fun t hadded hidle => hinv.inOnePlace hadded hidle, fun e => ⟨fun he => ?_, fun he => ?_⟩⟩
  · exact (hinv.exec e he).1 rfl
  · exact (hinv.exec e he).2 rfl

/-- Two CPUs; task 5 is spawned, runs on the second CPU, blocks and is woken from the first. -/
def sampleEvents : List (Event Bool Unit Unit) :=
  [.initSecondary false, .newTask false, .addTask 5, .yield true, .yield false,
    .block false (.other ()) () true, .notifyOne true (.other ()) true]

theorem tasks_in_one_place_sample :
    ∃ k : Kernel Bool Unit Unit, Reach step anyStep (boot Unit Unit true) k ∧
      k.added 5 = true ∧ k.state 5 = .ready ∧ k.InOnePlace 5 := by
  have hrun : (run step anyStep (boot Unit Unit true) sampleEvents).map
      (fun k => (k.added 5, k.isIdle 5, k.state 5)) = some (true, false, .ready) := by
    decide +kernel
  obtain ⟨k, h, hp⟩ := exists_of_run hrun
  simp only [Prod.mk.injEq] at hp
  exact ⟨k, h, hp.1, hp.2.2, (tasks_in_one_place h).1 5 hp.1 hp.2.1⟩

/-- A CPU that has been started runs a task in every state. Its idle task is on no other CPU and
neither in the queue of the scheduler nor blocked. -/
theorem started_cpus_run [DecidableEq Cpu] [DecidableEq Q] {c₀ : Cpu} {i : ℕ}
    (h : Reach step anyStep (boot Q M c₀) k) (hi : k.idleTask c = some i) :
    (∃ t, k.current c = some t ∧ k.state t = .running) ∧ (∀ c', k.current c' = some i → c' = c) ∧
      i ∉ k.readyQueue ∧ k.state i ≠ .blocked := by
  have hinv : k.Inv := h.invariant Inv (.boot c₀)
    fun _ e _ hk _ hstep => hk.exec e (bind_toOption_eq_some.mp hstep)
  obtain ⟨t, ht⟩ := hinv.started hi
  obtain ⟨-, hadded, hblocked⟩ := hinv.idle hi
  refine ⟨⟨t, ht, hinv.running ht⟩, fun c' hc' => hinv.home hi hc', fun hmem => ?_, hblocked⟩
  rw [(hinv.queued hmem).2] at hadded
  cases hadded

theorem started_cpus_run_sample : ∃ k : Kernel Bool Unit Unit, k.idleTask false = some 4 ∧
    ∃ t, k.current false = some t ∧ k.state t = .running := by
  have hrun : (run step anyStep (boot Unit Unit true) sampleEvents).map (·.idleTask false) =
      some (some 4) := by
    decide +kernel
  obtain ⟨k, h, hi⟩ := exists_of_run hrun
  exact ⟨k, hi, (started_cpus_run h hi).1⟩

end Steps

end Kernel

end HvisorRux.Rux.Task
