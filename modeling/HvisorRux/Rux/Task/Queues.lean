import HvisorRux.Rux.Task.Frames

/-!
# Queues of blocked tasks

Where no alarm wakes a task out of a wait queue, the queue lists the tasks that are blocked in it.
-/

namespace HvisorRux.Rux.Task

open List

namespace Kernel

variable {Cpu Q M : Type}

/-- The queue lists, once each, the blocked tasks that have a property. -/
structure Lists (k : Kernel Cpu Q M) (q : QueueId Q) (P : ℕ → Prop) : Prop where
  mem : ∀ t, t ∈ (k.queues q).map Prod.fst ↔ P t ∧ k.state t = .blocked
  nodup : ((k.queues q).map Prod.fst).Nodup

section Lists

variable {k k' : Kernel Cpu Q M} {q q' : QueueId Q} {P P' : ℕ → Prop} {c : Cpu} {t : ℕ} {m : M}

section

variable (h : k.Lists q P)

include h

theorem Lists.congr (hq : k'.queues q = k.queues q)
    (hP : ∀ u, P' u ∧ k'.state u = .blocked ↔ P u ∧ k.state u = .blocked) : k'.Lists q P' where
  mem u := by rw [hq, h.mem, hP]
  nodup := hq ▸ h.nodup

/-- What a property says of tasks that are not blocked does not matter. -/
theorem Lists.imp (hP : ∀ u, k.state u = .blocked → (P' u ↔ P u)) : k.Lists q P' :=
  h.congr rfl fun u => and_congr_left (hP u)

theorem Lists.scheduling [DecidableEq Cpu] [DecidableEq Q] {holder : Option Cpu} {e : Event Cpu Q M}
    (hinv : k.Inv) (he : e.isScheduling = true) (hs : k.background holder e = some k') :
    k'.Lists q P := by
  have hframe := hinv.frame hs
  refine h.congr (congrFun hframe.queues q) fun u => and_congr_right fun _ => ?_
  refine ⟨hframe.blocked, fun hb => ?_⟩
  obtain hb | ⟨c, rfl, -⟩ := hframe.stays hb
  · exact hb
  · cases he

theorem Lists.not_mem (ht : k.state t ≠ .blocked) : t ∉ (k.queues q).map Prod.fst :=
  fun hmem => ht ((h.mem t).mp hmem).2

/-- The task that blocks joins the queue. -/
theorem Lists.join (hb : k.Blocks k' c t q m) (ht : k.state t ≠ .blocked) (hself : P' t)
    (hP : ∀ u, u ≠ t → (P' u ↔ P u)) : k'.Lists q P' := by
  refine ⟨fun u => ?_, ?_⟩
  · rw [hb.joined, hb.blocked, map_append, mem_append, h.mem]
    by_cases hut : u = t
    · simp [hut, hself]
    · simp [hut, hP u hut]
  · rw [hb.joined, map_append]
    refine nodup_append.mpr ⟨h.nodup, nodup_singleton t, ?_⟩
    intro a ha b hb' hab
    rw [map_singleton, mem_singleton] at hb'
    have hat : a = t := hab.trans hb'
    exact h.not_mem ht (hat ▸ ha)

/-- The task that blocks joins another queue. -/
theorem Lists.joinOther (hb : k.Blocks k' c t q' m) (hq : q ≠ q') (hself : ¬ P' t)
    (hP : ∀ u, u ≠ t → (P' u ↔ P u)) (ht : k.state t ≠ .blocked) :
    k'.Lists q P' := by
  refine h.congr (hb.others q hq) fun u => ?_
  rw [hb.blocked]
  by_cases hut : u = t
  · subst hut
    exact ⟨fun hp => absurd hp.1 hself, fun hp => absurd hp.2 ht⟩
  · simp [hut, hP u hut]

end

/-- `notify_one` finds the queue empty or wakes its first task. -/
theorem notifyOneLocked_cases [DecidableEq Q] (k : Kernel Cpu Q M) (c : Cpu) (q : QueueId Q)
    (resched : Bool) :
    (k.queues q = [] ∧ k.notifyOneLocked c q resched = k) ∨
      ∃ t m rest, k.queues q = (t, m) :: rest ∧
        k.notifyOneLocked c q resched = (k.setQueue q rest).wake c t resched := by
  unfold notifyOneLocked
  cases hq : k.queues q with
  | nil => exact .inl ⟨rfl, rfl⟩
  | cons e rest => exact .inr ⟨e.1, e.2, rest, rfl, rfl⟩

/-- What is done to the first task of a queue. -/
structure WakesFirst (k k' : Kernel Cpu Q M) (q : QueueId Q) (t : ℕ) : Prop where
  head : ((k.queues q).map Prod.fst).head? = some t
  tail : (k'.queues q).map Prod.fst = ((k.queues q).map Prod.fst).tail
  others : ∀ q', q' ≠ q → k'.queues q' = k.queues q'
  ready : k'.state t = .ready
  blocked : ∀ u, k'.state u = .blocked ↔ k.state u = .blocked ∧ u ≠ t

theorem Lists.wakesFirst [DecidableEq Q] (h : k.Lists q P) (c : Cpu) (resched : Bool) :
    (k.queues q = [] ∧ k.notifyOneLocked c q resched = k) ∨
      ∃ t, P t ∧ k.state t = .blocked ∧ k.WakesFirst (k.notifyOneLocked c q resched) q t := by
  obtain hnil | ⟨t, m, rest, hq, hk⟩ := notifyOneLocked_cases k c q resched
  · exact .inl hnil
  have hmem : t ∈ (k.queues q).map Prod.fst := by
    rw [hq]
    exact mem_cons_self
  obtain ⟨hP, hb⟩ := (h.mem t).mp hmem
  rw [hk]
  refine .inr ⟨t, hP, hb, by rw [hq]; rfl, ?_, fun q' hq' => ?_, ?_, fun u => ?_⟩
  · rw [queues_wake, queues_setQueue_self, hq]
    rfl
  · rw [queues_wake, queues_setQueue_of_ne hq']
  · rw [state_wake]
    exact if_pos ⟨rfl, hb⟩
  · rw [state_wake]
    by_cases hut : u = t
    · simp [hut, show (k.setQueue q rest).state t = .blocked from hb]
    · rw [if_neg fun hc => hut hc.1]
      exact ⟨fun hb => ⟨hb, hut⟩, fun hb => hb.1⟩

theorem Lists.notifyOne [DecidableEq Q] (h : k.Lists q P) (c : Cpu) (resched : Bool) :
    (k.notifyOneLocked c q resched).Lists q P := by
  obtain ⟨-, hk⟩ | ⟨t, -, -, hw⟩ := h.wakesFirst c resched
  · rw [hk]
    exact h
  have hcons : (k.queues q).map Prod.fst = t :: ((k.queues q).map Prod.fst).tail :=
    eq_cons_of_mem_head? hw.head
  have hnodup := h.nodup
  rw [hcons, nodup_cons] at hnodup
  refine ⟨fun u => ?_, hw.tail ▸ hnodup.2⟩
  rw [hw.tail, hw.blocked, ← and_assoc, ← h.mem, hcons, mem_cons]
  constructor
  · intro hu
    refine ⟨.inr hu, ?_⟩
    rintro rfl
    exact hnodup.1 hu
  · rintro ⟨rfl | hu, hne⟩
    · exact absurd rfl hne
    · exact hu

/-- A task of one queue is woken; the tasks of another stay. -/
theorem Lists.notifyOther [DecidableEq Q] (h : k.Lists q P) (h' : k.Lists q' P') (hq : q ≠ q')
    (hP : ∀ t, P' t → ¬ P t) (c : Cpu) (resched : Bool) :
    (k.notifyOneLocked c q' resched).Lists q P := by
  obtain ⟨-, hk⟩ | ⟨t, ht, -, hw⟩ := h'.wakesFirst c resched
  · rw [hk]
    exact h
  · refine h.congr (hw.others q hq) fun u => and_congr_right fun hu => ?_
    rw [hw.blocked]
    refine ⟨fun hb => hb.1, fun hb => ⟨hb, ?_⟩⟩
    rintro rfl
    exact hP u ht hu

/-- `cancel_events` of a task that is awake finds nothing. -/
theorem Lists.cancelEvents [DecidableEq Q] (h : k.Lists q P) (ht : k.state t ≠ .blocked)
    (q' : QueueId Q) : (k.cancelEvents q' t).Lists q P := by
  refine h.congr ?_ fun u => by rw [state_cancelEvents]
  by_cases hq : q = q'
  · subst hq
    rw [queues_cancelEvents_self]
    split
    · refine filter_eq_self.mpr fun e he => decide_eq_true ?_
      rintro rfl
      exact h.not_mem ht (List.mem_map_of_mem he)
    · rfl
  · exact queues_cancelEvents_of_ne hq

theorem Lists.boot [DecidableEq Cpu] (c : Cpu) (q : QueueId Q) (P : ℕ → Prop) :
    (Kernel.boot Q M c).Lists q P := by
  refine ⟨fun t => ?_, nodup_nil⟩
  have hb : (Kernel.boot Q M c).state t ≠ .blocked := by
    by_cases ht : t = 2 <;> simp [Kernel.boot, Function.update, ht]
  exact ⟨fun hmem => absurd hmem not_mem_nil, fun hp => absurd hp.2 hb⟩

end Lists

end Kernel

end HvisorRux.Rux.Task
