import HvisorRux.Rux.Task.Frames

/-!
# Futexes

`ruxfutex` on top of the tasks of `ruxtask`. All addresses share a vector of wait queues; a waiter
is queued with its key. A wait locks `RUN_QUEUE` and the queue, reads the word and joins the queue,
in two steps here, between which the word may be stored to but no other CPU can lock `RUN_QUEUE`.
Woken tasks run `cancel_events` on their own; an alarm may also wake them, as may one that was set
for an earlier wait and whose callback comes late.
-/

namespace HvisorRux.Rux.Task

open Common Function List Option Kernel Prod

/-- `FutexKey`, which is compared by its `key`, the address, alone. -/
structure FutexKey where
  key : ℕ
  bitset : BitVec 32
deriving DecidableEq

/-- `FutexVec`: the hash function and `BUCKET_MASK`. -/
structure FutexVec where
  hash : ℕ → ℕ
  bucketMask : ℕ

/-- `get_bucket`. -/
def FutexVec.getBucket (v : FutexVec) (key : FutexKey) : ℕ :=
  v.bucketMask &&& v.hash (key.key >>> 2)

/-- Where a task is in a wait. -/
inductive FutexPc
  | outside
  /-- it holds `RUN_QUEUE` and has read the word; `woken` records a wake of the address since -/
  | checked (key : FutexKey) (expected found : BitVec 32) (deadline : Option ℕ) (woken : Bool)
  /-- it has joined the queue and has not cancelled its events -/
  | waiting (key : FutexKey)
deriving DecidableEq

/-- The record of a wake of an address. -/
def FutexPc.noteWake (addr : ℕ) : FutexPc → FutexPc
  | .checked key expected found deadline woken =>
    .checked key expected found deadline (woken || decide (key.key = addr))
  | p => p

/-- The tasks and the futex words. `holder` is the CPU that holds `RUN_QUEUE` between two steps. -/
structure FutexSystem (Cpu : Type) where
  kernel : Kernel Cpu ℕ FutexKey
  pc : ℕ → FutexPc
  holder : Option Cpu
  words : ℕ → BitVec 32

inductive FutexEvent (Cpu : Type)
  | background (e : Kernel.Event Cpu ℕ FutexKey)
  | store (addr : ℕ) (value : BitVec 32)
  /-- `futex_wait_timeout` up to the check of the word, with the deadline if there is one -/
  | wait (c : Cpu) (addr : ℕ) (expected : BitVec 32) (deadline : Option ℕ) (bitset : BitVec 32)
  /-- the rest of it, up to the switch to another task -/
  | join (c : Cpu) (canPreempt : Bool)
  | cancelEvents (c : Cpu)
  | wakeBitset (c : Cpu) (addr maxCount : ℕ) (bitset : BitVec 32)

namespace FutexSystem

variable {Cpu : Type} [DecidableEq Cpu]

def goto (s : FutexSystem Cpu) (t : ℕ) (p : FutexPc) : FutexSystem Cpu :=
  { s with pc := update s.pc t p }

/-- The `condition` of `futex_wait_timeout`; a task that finds another value returns. -/
def wait (s : FutexSystem Cpu) (c : Cpu) (t : ℕ) (key : FutexKey) (expected : BitVec 32)
    (deadline : Option ℕ) : FutexSystem Cpu :=
  let found := s.words key.key
  if found ≠ expected then s
  else { s.goto t (.checked key expected found deadline false) with holder := some c }

/-- `set_alarm_wakeup` of the waits with a deadline. -/
def setAlarm (k : Kernel Cpu ℕ FutexKey) (t : ℕ) : Option ℕ → Kernel Cpu ℕ FutexKey
  | some deadline => k.setAlarmWakeup deadline t
  | none => k

/-- `block_current` of `wait_meta_if` and `wait_timeout_absolutely_meta_if`. -/
def join (v : FutexVec) (s : FutexSystem Cpu) (c : Cpu) (t : ℕ) (key : FutexKey)
    (deadline : Option ℕ) (canPreempt : Bool) : Except Assertion (FutexSystem Cpu) :=
  match (setAlarm s.kernel t deadline).blockCurrent c t (.other (v.getBucket key)) key
      canPreempt with
  | .ok k => .ok { s.goto t (.waiting key) with kernel := k, holder := none }
  | .error a => .error a

/-- The closure of `futex_wake_bitset`, which counts the tasks that it chooses. -/
def wakeFilter (futexKey : FutexKey) (maxCount count : ℕ) (k : Kernel Cpu ℕ FutexKey)
    (e : ℕ × FutexKey) : Bool × ℕ :=
  if k.state e.1 ≠ .blocked then (true, count)
  else if maxCount ≤ count ∨ futexKey.key ≠ e.2.key ∨ futexKey.bitset &&& e.2.bitset = 0 then
    (false, count)
  else (true, count + 1)

section

variable (v : FutexVec) (s : FutexSystem Cpu)

/-- `futex_wake_bitset`. -/
def wakeBitset (c : Cpu) (futexKey : FutexKey) (maxCount : ℕ) : FutexSystem Cpu :=
  { s with
    kernel := s.kernel.notifyTaskIf c (.other (v.getBucket futexKey)) false
      (wakeFilter futexKey maxCount) 0
    pc := fun t => (s.pc t).noteWake futexKey.key }

/-- `none` if the event cannot happen. -/
def exec : FutexEvent Cpu → Option (Except Assertion (FutexSystem Cpu))
  | .background e => (s.kernel.background s.holder e).map fun k => .ok { s with kernel := k }
  | .store addr value => some (.ok { s with words := update s.words addr value })
  | .wait c addr expected deadline bitset =>
    if s.holder = none then
      ((s.kernel.onCpu c).filter fun t => s.pc t = .outside).map fun t =>
        .ok (s.wait c t ⟨addr, bitset⟩ expected deadline)
    else none
  | .join c canPreempt =>
    (s.kernel.onCpu c).bind fun t =>
      match s.pc t with
      | .checked key _ _ deadline _ => some (s.join v c t key deadline canPreempt)
      | _ => none
  | .cancelEvents c =>
    if s.holder = none then
      (s.kernel.onCpu c).bind fun t =>
        match s.pc t with
        | .waiting key =>
          some (.ok { s.goto t .outside with
            kernel := s.kernel.cancelEvents (.other (v.getBucket key)) t })
        | _ => none
    else none
  | .wakeBitset c addr maxCount bitset =>
    if s.holder = none then
      ((s.kernel.onCpu c).filter fun t => s.pc t = .outside).map fun _ =>
        .ok (s.wakeBitset v c ⟨addr, bitset⟩ maxCount)
    else none

/-- A step that does not fail an assertion. -/
def step (e : FutexEvent Cpu) : Option (FutexSystem Cpu) :=
  (s.exec v e).bind Except.toOption

end

/-- The start of the tasks, with any words. -/
def init (c : Cpu) (words : ℕ → BitVec 32) : FutexSystem Cpu where
  kernel := Kernel.boot ℕ FutexKey c
  pc _ := .outside
  holder := none
  words := words

end FutexSystem

/-! ## What a wake does to the queue -/

section Retain

variable {Cpu : Type}

/-- The tasks that a wake is for. -/
def FutexKey.wakes (futexKey : FutexKey) (k : Kernel Cpu ℕ FutexKey) (e : ℕ × FutexKey) : Bool :=
  decide (k.state e.1 = .blocked) && decide (futexKey.key = e.2.key) &&
    decide (futexKey.bitset &&& e.2.bitset ≠ 0)

/-- What happened to the entries of a queue of which the tasks in `chosen` were taken. -/
structure Retained (entries : List (ℕ × FutexKey)) (chosen : List ℕ)
    (k k' : Kernel Cpu ℕ FutexKey) (kept : List (ℕ × FutexKey)) : Prop where
  state : ∀ u, k'.state u = if u ∈ chosen then .ready else k.state u
  sublist : kept.Sublist entries
  keeps : ∀ e ∈ entries, k.state e.1 = .blocked → e.1 ∉ chosen → e ∈ kept
  outside : ∀ u, u ∉ entries.map fst → k'.inWaitQueue u = k.inWaitQueue u
  inside : ∀ e ∈ kept, k'.inWaitQueue e.1 = k.inWaitQueue e.1
  queues : k'.queues = k.queues
  current : k'.current = k.current

theorem filter_wakes_wake {futexKey : FutexKey} {k : Kernel Cpu ℕ FutexKey} {c : Cpu} {t : ℕ}
    {entries : List (ℕ × FutexKey)} (ht : t ∉ entries.map fst) (resched : Bool) :
    entries.filter (futexKey.wakes (k.wake c t resched)) = entries.filter (futexKey.wakes k) := by
  refine filter_congr fun e he => ?_
  have hne : e.1 ≠ t := by
    rintro rfl
    exact ht (List.mem_map_of_mem he)
  unfold FutexKey.wakes
  rw [state_wake, if_neg fun hc => hne hc.1]

variable {futexKey : FutexKey} {k k' : Kernel Cpu ℕ FutexKey} {c : Cpu} {e : ℕ × FutexKey}
  {entries kept : List (ℕ × FutexKey)} {chosen : List ℕ}

/-- An entry is taken out of the queue; its task is chosen if it was blocked. -/
theorem Retained.take (h : Retained entries chosen (k.wake c e.1 false) k' kept)
    (he : e.1 ∉ entries.map fst) {chosen' : List ℕ}
    (hchosen : ∀ u, u ∈ chosen' ↔ u ∈ chosen ∨ (u = e.1 ∧ k.state e.1 = .blocked)) :
    Retained (e :: entries) chosen' k k' kept := by
  have hflag : ∀ {u}, u ≠ e.1 → (k.wake c e.1 false).inWaitQueue u = k.inWaitQueue u := by
    intro u hu
    rw [inWaitQueue_wake]
    exact update_of_ne hu _ _
  have hstate : ∀ u, u ≠ e.1 → (k.wake c e.1 false).state u = k.state u := by
    intro u hu
    rw [state_wake, if_neg fun hc => hu hc.1]
  have hmem : ∀ e' ∈ entries, e'.1 ≠ e.1 := by
    rintro e' he' heq
    exact he (heq ▸ List.mem_map_of_mem he')
  refine ⟨fun u => ?_, h.sublist.cons e, ?_, fun u hu => ?_, fun e' he' => ?_,
    h.queues.trans queues_wake, h.current.trans (current_unblockTask _ _ _ _)⟩
  · rw [h.state, state_wake]
    simp only [hchosen]
    by_cases hc : u ∈ chosen <;> by_cases hu : u = e.1 ∧ k.state e.1 = .blocked <;> simp [hc, hu]
  · intro e' he' hb hnot
    rw [hchosen, not_or] at hnot
    obtain rfl | he' := mem_cons.mp he'
    · exact absurd ⟨rfl, hb⟩ hnot.2
    · exact h.keeps e' he' ((hstate _ (hmem e' he')).trans hb) hnot.1
  · rw [map_cons, mem_cons, not_or] at hu
    exact (h.outside u hu.2).trans (hflag hu.1)
  · exact (h.inside e' he').trans (hflag (hmem e' (h.sublist.mem he')))

/-- An entry stays in the queue. -/
theorem Retained.keep (h : Retained entries chosen k k' kept) (he : e.1 ∉ entries.map fst) :
    Retained (e :: entries) chosen k k' (e :: kept) := by
  refine ⟨h.state, h.sublist.cons_cons e, ?_, fun u hu => ?_, fun e' he' => ?_, h.queues, h.current⟩
  · intro e' he' hb hnot
    obtain rfl | he' := mem_cons.mp he'
    · exact mem_cons_self
    · exact mem_cons_of_mem _ (h.keeps e' he' hb hnot)
  · rw [map_cons, mem_cons, not_or] at hu
    exact h.outside u hu.2
  · obtain rfl | he' := mem_cons.mp he'
    · exact h.outside _ he
    · exact h.inside e' he'

/-- The walk of a wake over the queue. -/
abbrev wakeScan (futexKey : FutexKey) (maxCount : ℕ) (c : Cpu) :
    List (ℕ × FutexKey) → ℕ → Kernel Cpu ℕ FutexKey → Kernel Cpu ℕ FutexKey × List (ℕ × FutexKey) :=
  Kernel.retain c false (FutexSystem.wakeFilter futexKey maxCount)

section

variable (futexKey : FutexKey) (maxCount count : ℕ)

/-- The entries that a wake is for, up to its count, of which `count` are taken already. -/
def chosenEntries (k : Kernel Cpu ℕ FutexKey)
    (entries : List (ℕ × FutexKey)) : List (ℕ × FutexKey) :=
  (entries.filter (futexKey.wakes k)).take (maxCount - count)

/-- What the closure does with the first entry: it is kept, or taken with its task, which is one of
those that the wake is for if it was blocked. -/
theorem retain_wakeFilter_cons (k : Kernel Cpu ℕ FutexKey) (c : Cpu) (he : e.1 ∉ entries.map fst) :
    (k.state e.1 = .blocked ∧ wakeScan futexKey maxCount c (e :: entries) count k =
        ((wakeScan futexKey maxCount c entries count k).1,
          e :: (wakeScan futexKey maxCount c entries count k).2) ∧
      chosenEntries futexKey maxCount count k (e :: entries) =
        chosenEntries futexKey maxCount count k entries) ∨
    ∃ n, wakeScan futexKey maxCount c (e :: entries) count k =
        wakeScan futexKey maxCount c entries n (k.wake c e.1 false) ∧
      chosenEntries futexKey maxCount count k (e :: entries) =
        (if k.state e.1 = .blocked then [e] else []) ++
          chosenEntries futexKey maxCount n (k.wake c e.1 false) entries := by
  unfold chosenEntries wakeScan
  rw [Kernel.retain, FutexSystem.wakeFilter, filter_wakes_wake he false]
  by_cases hb : k.state e.1 = .blocked
  · rw [if_neg (not_not.mpr hb), if_pos hb]
    by_cases hrefuse : maxCount ≤ count ∨ futexKey.key ≠ e.2.key ∨
        futexKey.bitset &&& e.2.bitset = 0
    · rw [if_pos hrefuse]
      refine .inl ⟨hb, rfl, ?_⟩
      obtain hfull | hother := hrefuse
      · rw [Nat.sub_eq_zero_of_le hfull, take_zero, take_zero]
      · rw [filter_cons_of_neg]
        simp only [FutexKey.wakes, Bool.and_eq_true, decide_eq_true_eq, not_and]
        exact fun h hz => hother.elim (fun hne => hne h.2) hz
    · rw [if_neg hrefuse]
      rw [not_or, not_or, not_not] at hrefuse
      obtain ⟨hlt, hkey, hbits⟩ := hrefuse
      have hsucc : maxCount - count = maxCount - (count + 1) + 1 := by omega
      have hwakes : futexKey.wakes k e = true := by
        simp only [FutexKey.wakes, Bool.and_eq_true, decide_eq_true_eq]
        exact ⟨⟨hb, hkey⟩, hbits⟩
      refine .inr ⟨count + 1, rfl, ?_⟩
      rw [filter_cons_of_pos hwakes, hsucc, take_succ_cons]
      rfl
  · rw [if_pos hb, if_neg hb, filter_cons_of_neg (by simp [FutexKey.wakes, hb])]
    exact .inr ⟨count, rfl, rfl⟩

/-- The wake takes the tasks that it is for in the order of the queue, up to its count. -/
theorem retained_wakeFilter (c : Cpu) (hnodup : (entries.map fst).Nodup) :
    Retained entries
      (((entries.filter (futexKey.wakes k)).take (maxCount - count)).map fst) k
      (wakeScan futexKey maxCount c entries count k).1
      (wakeScan futexKey maxCount c entries count k).2 := by
  induction entries generalizing k count with
  | nil =>
    exact ⟨fun u => by simp [Kernel.retain], .refl _, fun e he => absurd he not_mem_nil,
      fun _ _ => rfl, fun e he => absurd he not_mem_nil, rfl, rfl⟩
  | cons e rest ih =>
    obtain ⟨hnot, hnodup⟩ := nodup_cons.mp hnodup
    change Retained _ ((chosenEntries futexKey maxCount count k (e :: rest)).map fst) _ _ _
    obtain ⟨-, hretain, hchosen⟩ | ⟨n, hretain, hchosen⟩ :=
      retain_wakeFilter_cons futexKey maxCount count k c hnot
    · rw [hretain, hchosen]
      exact (ih count hnodup).keep hnot
    rw [hretain, hchosen]
    refine (ih n hnodup).take hnot fun u => ?_
    rw [map_append, mem_append, or_comm]
    refine or_congr_right ?_
    split
    · next hb => simp [hb]
    · next hb => simp [hb]

/-- The queue loses the entries that are chosen and those of the tasks that are not blocked. -/
theorem length_retain_wakeFilter (c : Cpu) (hnodup : (entries.map fst).Nodup) :
    (wakeScan futexKey maxCount c entries count k).2.length +
      ((chosenEntries futexKey maxCount count k entries).length +
        entries.countP fun e => k.state e.1 ≠ .blocked) = entries.length := by
  induction entries generalizing k count with
  | nil => simp [Kernel.retain, chosenEntries]
  | cons e rest ih =>
    obtain ⟨hnot, hnodup⟩ := nodup_cons.mp hnodup
    obtain ⟨hb, hretain, hchosen⟩ | ⟨n, hretain, hchosen⟩ :=
      retain_wakeFilter_cons futexKey maxCount count k c hnot
    · rw [hretain, hchosen, length_cons, length_cons, countP_cons_of_neg (by simp [hb]),
        ← ih (k := k) count hnodup]
      omega
    have hrest : rest.countP (fun e' => (k.wake c e.1 false).state e'.1 ≠ .blocked) =
        rest.countP fun e' => k.state e'.1 ≠ .blocked := countP_congr fun e' he' => by
      have hne : e'.1 ≠ e.1 := fun heq => hnot (heq ▸ List.mem_map_of_mem he')
      rw [state_wake, if_neg fun hc => hne hc.1]
    rw [hretain, hchosen, length_cons, countP_cons, length_append,
      ← ih (k := k.wake c e.1 false) n hnodup, hrest]
    by_cases hb : k.state e.1 = .blocked <;> simp [hb] <;> omega

end

end Retain

/-! ## The invariant -/

namespace FutexSystem

variable {Cpu : Type} {v : FutexVec} {s s' : FutexSystem Cpu} {c : Cpu} {t : ℕ}

structure Inv (v : FutexVec) (s : FutexSystem Cpu) : Prop where
  kernel : s.kernel.Inv
  blocked : ∀ {t}, s.kernel.state t = .blocked → ∃ key, s.pc t = .waiting key ∧
    (t, key) ∈ s.kernel.queues (.other (v.getBucket key))
  entry : ∀ {t key b}, (t, key) ∈ s.kernel.queues (.other b) → s.pc t = .waiting key ∧
    b = v.getBucket key ∧ s.kernel.inWaitQueue t = true
  nodup : ∀ b, ((s.kernel.queues (.other b)).map fst).Nodup
  checked : ∀ {t key expected found deadline woken},
    s.pc t = .checked key expected found deadline woken →
      found = expected ∧ woken = false ∧ ∃ c, s.holder = some c ∧ s.kernel.current c = some t

theorem pc_goto (s : FutexSystem Cpu) (t : ℕ) (p : FutexPc) (u : ℕ) :
    (s.goto t p).pc u = if u = t then p else s.pc u :=
  update_apply ..

theorem Inv.ne_of_blocked (h : s.Inv v) (ht : s.kernel.current c = some t) {u : ℕ}
    (hb : s.kernel.state u = .blocked) : u ≠ t := by
  rintro rfl
  rw [h.kernel.running ht] at hb
  cases hb

variable {k : Kernel Cpu ℕ FutexKey} {key : FutexKey} {expected found : BitVec 32}
  {deadline : Option ℕ}

theorem Inv.background [DecidableEq Cpu] {e : Kernel.Event Cpu ℕ FutexKey} (h : s.Inv v)
    (hs : s.kernel.background s.holder e = some k) :
    { s with kernel := k }.Inv v := by
  have hframe := h.kernel.frame hs
  have hqueues := hframe.queues
  refine ⟨hframe.inv, fun hb => ?_, fun hmem => ?_, fun b => ?_, fun hc => ?_⟩
  · obtain ⟨key, hpc, hmem⟩ := h.blocked (hframe.blocked hb)
    exact ⟨key, hpc, hqueues ▸ hmem⟩
  · obtain ⟨hpc, hb, hflag⟩ := h.entry (hqueues ▸ hmem)
    exact ⟨hpc, hb, (congrFun hframe.inWaitQueue _).trans hflag⟩
  · exact hqueues.symm ▸ h.nodup b
  · obtain ⟨hfound, hwoken, c, hholder, hcur⟩ := h.checked hc
    rw [hholder] at hs
    exact ⟨hfound, hwoken, c, hholder, h.kernel.current_background hs hcur⟩

/-- A task that found the value that it expects. -/
theorem Inv.check (h : s.Inv v) (ht : s.kernel.current c = some t) (hpc : s.pc t = .outside)
    (hholder : s.holder = none) (hfound : found = expected) :
    { s.goto t (.checked key expected found deadline false) with holder := some c }.Inv v := by
  have hpc' := pc_goto s t (.checked key expected found deadline false)
  refine ⟨h.kernel, fun hb => ?_, fun hmem => ?_, h.nodup, ?_⟩
  · obtain ⟨key', hw, hmem⟩ := h.blocked hb
    exact ⟨key', ((hpc' _).trans (if_neg (h.ne_of_blocked ht hb))).trans hw, hmem⟩
  · obtain ⟨hw, hb, hflag⟩ := h.entry hmem
    exact ⟨update_eq_of hw fun hc => (by cases hpc.symm.trans hc), hb, hflag⟩
  · intro u key' expected' found' deadline' woken' hu
    rw [show _ = _ from hpc' u] at hu
    split at hu
    · next hut =>
      cases hu
      exact ⟨hfound, rfl, c, rfl, hut ▸ ht⟩
    · obtain ⟨-, -, c', hc', -⟩ := h.checked hu
      rw [hholder] at hc'
      cases hc'

/-- The task joins the queue of its key. -/
theorem Inv.join {woken : Bool} (h : s.Inv v)
    (hpc : s.pc t = .checked key expected found deadline woken)
    (hb : s.kernel.Blocks k c t (.other (v.getBucket key)) key) :
    { s.goto t (.waiting key) with kernel := k, holder := none }.Inv v := by
  have hpc' := pc_goto s t (.waiting key)
  obtain ⟨-, -, c₀, hc₀, hcur₀⟩ := h.checked hpc
  have hmem : ∀ {u key' b}, (u, key') ∈ k.queues (.other b) ↔
      (u, key') ∈ s.kernel.queues (.other b) ∨ b = v.getBucket key ∧ u = t ∧ key' = key := by
    intro u key' b
    by_cases hbk : b = v.getBucket key
    · rw [hbk, hb.joined, mem_append]
      simp
    · rw [hb.others (.other b) fun he => hbk (by injection he)]
      simp [hbk]
  have hne : ∀ {u key' b}, (u, key') ∈ s.kernel.queues (.other b) → u ≠ t := by
    rintro u key' b hu rfl
    have hw := (h.entry hu).1
    rw [hpc] at hw
    cases hw
  refine ⟨hb.inv, fun {u} hu => ?_, fun {u key' b} hu => ?_, fun b => ?_, ?_⟩
  · obtain rfl | hold := (hb.blocked u).mp hu
    · exact ⟨key, (hpc' u).trans (if_pos rfl), hmem.mpr (.inr ⟨rfl, rfl, rfl⟩)⟩
    · obtain ⟨key', hw, hu⟩ := h.blocked hold
      exact ⟨key', ((hpc' u).trans (if_neg (hne hu))).trans hw, hmem.mpr (.inl hu)⟩
  · obtain hu | ⟨rfl, rfl, rfl⟩ := hmem.mp hu
    · obtain ⟨hw, hbk, hflag⟩ := h.entry hu
      exact ⟨((hpc' u).trans (if_neg (hne hu))).trans hw, hbk, (hb.flags u (hne hu)).trans hflag⟩
    · exact ⟨(hpc' u).trans (if_pos rfl), rfl, hb.flag⟩
  · show ((k.queues (.other b)).map fst).Nodup
    by_cases hbk : b = v.getBucket key
    · rw [hbk, hb.joined, map_append]
      refine nodup_append.mpr ⟨h.nodup _, nodup_singleton t, ?_⟩
      intro a ha a' ha' hab
      rw [map_singleton, mem_singleton] at ha'
      obtain ⟨⟨u, key'⟩, hu, rfl⟩ := List.mem_map.mp ha
      exact hne hu (hab.trans ha')
    · rw [hb.others (.other b) fun he => hbk (by injection he)]
      exact h.nodup b
  · intro u key' expected' found' deadline' woken' hu
    obtain ⟨hut, hu⟩ := of_update_eq hu fun hc => by cases hc
    obtain ⟨-, -, c', hc', hcur'⟩ := h.checked hu
    cases hc₀.symm.trans hc'
    exact absurd (some.inj (hcur'.symm.trans hcur₀)) hut

theorem Inv.cancel (h : s.Inv v) (ht : s.kernel.current c = some t) (hpc : s.pc t = .waiting key)
    (hholder : s.holder = none) :
    { s.goto t .outside with
      kernel := s.kernel.cancelEvents (.other (v.getBucket key)) t }.Inv v := by
  have hpc' := pc_goto s t .outside
  have hstate := state_cancelEvents (k := s.kernel) (q := .other (v.getBucket key)) (t := t)
  -- Entries of the task are in this queue and have the flag set, so that they are gone.
  have hqueue : ∀ b, ((s.kernel.cancelEvents (.other (v.getBucket key)) t).queues (.other b)) =
      (s.kernel.queues (.other b)).filter fun e => e.1 ≠ t := by
    intro b
    have hfilter : (∀ key', (t, key') ∉ s.kernel.queues (.other b)) →
        (s.kernel.queues (.other b)).filter (fun e => e.1 ≠ t) = s.kernel.queues (.other b) := by
      intro hnot
      refine filter_eq_self.mpr fun e he => decide_eq_true ?_
      rintro rfl
      exact hnot e.2 he
    by_cases hbk : b = v.getBucket key
    · subst hbk
      rw [queues_cancelEvents_self]
      split
      · rfl
      · next hflag => exact (hfilter fun key' he => hflag (h.entry he).2.2).symm
    · rw [queues_cancelEvents_of_ne fun he => hbk (by injection he)]
      refine (hfilter fun key' he => hbk ?_).symm
      obtain ⟨hw, hb, -⟩ := h.entry he
      rw [hpc] at hw
      cases hw
      exact hb
  refine ⟨h.kernel.congr core_cancelEvents, fun hb => ?_, fun {u key' b} hu => ?_, fun b => ?_, ?_⟩
  · replace hb := (congrFun hstate _).symm.trans hb
    have hne := h.ne_of_blocked ht hb
    obtain ⟨key', hw, hu⟩ := h.blocked hb
    refine ⟨key', ((hpc' _).trans (if_neg hne)).trans hw, ?_⟩
    rw [hqueue, mem_filter]
    exact ⟨hu, decide_eq_true hne⟩
  · rw [hqueue, mem_filter, decide_eq_true_eq] at hu
    obtain ⟨hw, hb, hflag⟩ := h.entry hu.1
    exact ⟨((hpc' u).trans (if_neg hu.2)).trans hw, hb,
      (inWaitQueue_cancelEvents_of_ne hu.2).trans hflag⟩
  · rw [hqueue]
    exact ((filter_sublist).map fst).nodup (h.nodup b)
  · intro u key' expected' found' deadline' woken' hu
    obtain ⟨-, -, c', hc', -⟩ := h.checked (of_update_eq hu fun hc => by cases hc).2
    rw [hholder] at hc'
    cases hc'

/-! ### Wakes -/

/-- The tasks that a wake is for, in the order of their queue. -/
def waiters (v : FutexVec) (s : FutexSystem Cpu) (futexKey : FutexKey) : List ℕ :=
  ((s.kernel.queues (.other (v.getBucket futexKey))).filter (futexKey.wakes s.kernel)).map fst

/-- What a wake does to all the tasks and queues. -/
structure Wakes (v : FutexVec) (s : FutexSystem Cpu) (futexKey : FutexKey) (maxCount : ℕ)
    (k : Kernel Cpu ℕ FutexKey) : Prop where
  inv : k.Inv
  state : ∀ u, k.state u = if u ∈ (s.waiters v futexKey).take maxCount then .ready
    else s.kernel.state u
  sublist : ∀ b, (k.queues (.other b)).Sublist (s.kernel.queues (.other b))
  keeps : ∀ {u key b}, (u, key) ∈ s.kernel.queues (.other b) → s.kernel.state u = .blocked →
    u ∉ (s.waiters v futexKey).take maxCount → (u, key) ∈ k.queues (.other b)
  flags : ∀ {u key b}, (u, key) ∈ k.queues (.other b) → k.inWaitQueue u = s.kernel.inWaitQueue u
  current : k.current = s.kernel.current

theorem Inv.wakes (h : s.Inv v) (c : Cpu) (futexKey : FutexKey) (maxCount : ℕ) :
    s.Wakes v futexKey maxCount (s.wakeBitset v c futexKey maxCount).kernel := by
  have hr := retained_wakeFilter (k := s.kernel) futexKey maxCount 0 c
    (h.nodup (v.getBucket futexKey))
  have hinv : (wakeScan futexKey maxCount c (s.kernel.queues (.other (v.getBucket futexKey))) 0
      s.kernel).1.Inv := h.kernel.retain c false _ _ 0
  rw [map_take] at hr
  have hk : (s.wakeBitset v c futexKey maxCount).kernel =
      (wakeScan futexKey maxCount c (s.kernel.queues (.other (v.getBucket futexKey))) 0
        s.kernel).1.setQueue (.other (v.getBucket futexKey)) (wakeScan futexKey maxCount c
          (s.kernel.queues (.other (v.getBucket futexKey))) 0 s.kernel).2 := rfl
  rw [hk]
  generalize wakeScan futexKey maxCount c (s.kernel.queues (.other (v.getBucket futexKey))) 0
    s.kernel = r at hr hinv
  have hself : (r.1.setQueue (.other (v.getBucket futexKey)) r.2).queues
      (.other (v.getBucket futexKey)) = r.2 := queues_setQueue_self
  have hother : ∀ {b}, b ≠ v.getBucket futexKey →
      (r.1.setQueue (.other (v.getBucket futexKey)) r.2).queues (.other b) =
        s.kernel.queues (.other b) := by
    intro b hb
    rw [queues_setQueue_of_ne fun he => hb (by injection he), hr.queues]
  refine ⟨hinv.setQueue _ _, hr.state, fun b => ?_, fun {u key b} hu hb hnot => ?_,
    fun {u key b} hu => ?_, hr.current⟩
  · by_cases hb : b = v.getBucket futexKey
    · rw [hb, hself]
      exact hr.sublist
    · rw [hother hb]
  · by_cases hbk : b = v.getBucket futexKey
    · rw [hbk, hself]
      exact hr.keeps (u, key) (hbk ▸ hu) hb hnot
    · rw [hother hbk]
      exact hu
  · by_cases hbk : b = v.getBucket futexKey
    · rw [hbk, hself] at hu
      exact hr.inside (u, key) hu
    · rw [hother hbk] at hu
      refine hr.outside u fun hmem => hbk ?_
      -- A task is only in the queue of its key.
      obtain ⟨⟨u', key'⟩, hu', rfl⟩ := List.mem_map.mp hmem
      obtain ⟨hw, hb, -⟩ := h.entry hu
      obtain ⟨hw', hb', -⟩ := h.entry hu'
      rw [show s.pc u' = _ from hw] at hw'
      cases hw'
      rw [hb, hb']

theorem noteWake_eq_waiting {addr : ℕ} {p : FutexPc} :
    p.noteWake addr = .waiting key ↔ p = .waiting key := by
  cases p <;> simp [FutexPc.noteWake]

theorem Inv.wake (h : s.Inv v) (hholder : s.holder = none) (c : Cpu) (futexKey : FutexKey)
    (maxCount : ℕ) : (s.wakeBitset v c futexKey maxCount).Inv v := by
  have hw := h.wakes c futexKey maxCount
  refine ⟨hw.inv, fun {u} hb => ?_, fun {u key b} hu => ?_, fun b => ?_, fun {u} => ?_⟩
  · rw [hw.state] at hb
    split at hb
    · cases hb
    · next hnot =>
      obtain ⟨key, hpc, hu⟩ := h.blocked hb
      exact ⟨key, noteWake_eq_waiting.mpr hpc, hw.keeps hu hb hnot⟩
  · obtain ⟨hpc, hb, hflag⟩ := h.entry ((hw.sublist b).mem hu)
    exact ⟨noteWake_eq_waiting.mpr hpc, hb, (hw.flags hu).trans hflag⟩
  · exact ((hw.sublist b).map fst).nodup (h.nodup b)
  · intro key expected found deadline woken hu
    cases hpc : s.pc u with
    | checked key' expected' found' deadline' woken' =>
      obtain ⟨-, -, c', hc', -⟩ := h.checked hpc
      rw [hholder] at hc'
      cases hc'
    | _ =>
      rw [show (s.wakeBitset v c futexKey maxCount).pc u = _ from
        congrArg (FutexPc.noteWake futexKey.key) hpc] at hu
      cases hu

theorem state_setAlarm : (setAlarm k t deadline).state = k.state := by
  cases deadline <;> rfl

theorem Inv.setAlarm (h : s.Inv v) (t : ℕ) (deadline : Option ℕ) :
    { s with kernel := setAlarm s.kernel t deadline }.Inv v := by
  cases deadline with
  | none => exact h
  | some d => exact ⟨h.kernel.congr rfl, h.blocked, h.entry, h.nodup, h.checked⟩

/-- What a join does, if it does not fail an assertion. -/
theorem Inv.joins [DecidableEq Cpu] {woken canPreempt : Bool} (h : s.Inv v)
    (ht : s.kernel.current c = some t) (hpc : s.pc t = .checked key expected found deadline woken)
    (hj : s.join v c t key deadline canPreempt = .ok s') :
    s'.Inv v ∧ (∀ u, s'.kernel.state u = .blocked ↔ u = t ∨ s.kernel.state u = .blocked) ∧
      (t, key) ∈ s'.kernel.queues (.other (v.getBucket key)) := by
  have halarm := h.setAlarm t deadline
  have hcur : (FutexSystem.setAlarm s.kernel t deadline).current c = some t := by
    cases deadline <;> exact ht
  unfold FutexSystem.join at hj
  split at hj
  · next k hk =>
    cases hj
    have hb := halarm.kernel.blocks hcur hk
    refine ⟨halarm.join hpc hb, fun u => ?_, ?_⟩
    · have hblocked := hb.blocked u
      rw [state_setAlarm] at hblocked
      exact hblocked
    · show (t, key) ∈ k.queues _
      rw [hb.joined]
      exact mem_append_right _ (mem_singleton_self _)
  · cases hj

/-! ## Runs -/

/-- A task blocks in a step because it has found the value that it expects in the word, with no wake
of the address since, and it is then in the queue. -/
def Joins (v : FutexVec) (s s' : FutexSystem Cpu) (t : ℕ) : Prop :=
  ∃ key expected deadline, s.pc t = .checked key expected expected deadline false ∧
    (t, key) ∈ s'.kernel.queues (.other (v.getBucket key))

theorem Inv.step [DecidableEq Cpu] (h : s.Inv v) {e : FutexEvent Cpu} (hs : s.step v e = some s') :
    s'.Inv v ∧
      ∀ t, s.kernel.state t ≠ .blocked → s'.kernel.state t = .blocked → Joins v s s' t := by
  have hr := bind_toOption_eq_some.mp hs
  cases e with
  | background e =>
    obtain ⟨k, hk, heq⟩ := map_eq_some_iff.mp hr
    cases heq
    exact ⟨h.background hk, fun t hn hb => absurd ((h.kernel.frame hk).blocked hb) hn⟩
  | store addr value =>
    cases hr
    exact ⟨⟨h.kernel, h.blocked, h.entry, h.nodup, h.checked⟩, fun t hn hb => absurd hb hn⟩
  | wait c addr expected deadline bitset =>
    obtain ⟨hguard, t, ht, heq⟩ := of_guarded hr
    cases heq
    obtain ⟨hcpu, hpc⟩ := filter_eq_some_iff.mp ht
    rw [decide_eq_true_eq] at hpc
    have hkernel : (s.wait c t ⟨addr, bitset⟩ expected deadline).kernel = s.kernel := by
      unfold FutexSystem.wait
      dsimp only
      split_ifs <;> rfl
    refine ⟨?_, fun u hn hb => absurd (hkernel ▸ hb) hn⟩
    unfold FutexSystem.wait
    dsimp only
    split_ifs with hfound
    · exact h
    · exact h.check (current_of_onCpu hcpu) hpc hguard (not_not.mp hfound)
  | join c canPreempt =>
    obtain ⟨t, hcpu, hr⟩ := bind_eq_some_iff.mp hr
    split at hr
    · next key expected found deadline woken hpc =>
      obtain ⟨hinv, hblocked, hmem⟩ := h.joins (current_of_onCpu hcpu) hpc (some.inj hr)
      refine ⟨hinv, fun u hn hb => ?_⟩
      obtain rfl := ((hblocked u).mp hb).resolve_right hn
      obtain ⟨rfl, rfl, -⟩ := h.checked hpc
      exact ⟨key, found, deadline, hpc, hmem⟩
    · cases hr
  | cancelEvents c =>
    rw [exec, ite_none_right_eq_some] at hr
    obtain ⟨t, hcpu, hr'⟩ := bind_eq_some_iff.mp hr.2
    split at hr'
    · next key hpc =>
      cases hr'
      refine ⟨h.cancel (current_of_onCpu hcpu) hpc hr.1, fun u hn hb => absurd ?_ hn⟩
      exact (congrFun state_cancelEvents u).symm.trans hb
    · cases hr'
  | wakeBitset c addr maxCount bitset =>
    obtain ⟨hguard, t, -, heq⟩ := of_guarded hr
    cases heq
    refine ⟨h.wake hguard c _ _, fun u hn hb => absurd ?_ hn⟩
    rw [(h.wakes c ⟨addr, bitset⟩ maxCount).state] at hb
    split at hb
    · cases hb
    · exact hb

theorem Inv.init [DecidableEq Cpu] (c : Cpu) (words : ℕ → BitVec 32) :
    (FutexSystem.init c words).Inv v := by
  refine ⟨Kernel.Inv.boot c, fun {t} hb => ?_, fun hmem => absurd hmem not_mem_nil,
    fun _ => nodup_nil, fun hc => by cases hc⟩
  by_cases ht : t = 2 <;> simp [FutexSystem.init, Kernel.boot, update, ht] at hb

theorem inv_of_reach [DecidableEq Cpu] {c₀ : Cpu} {words : ℕ → BitVec 32}
    (h : Reach (step v) anyStep (FutexSystem.init c₀ words) s) : s.Inv v :=
  Reach.invariant (Inv v) (Inv.init c₀ words) (fun _ _ _ hs _ hstep => (hs.step hstep).1) h

/-- The task is blocked in a wait on the address, with a bitset that meets the one given. -/
def WaitsOn (s : FutexSystem Cpu) (futexKey : FutexKey) (t : ℕ) : Prop :=
  s.kernel.state t = .blocked ∧ ∃ key, s.pc t = .waiting key ∧ key.key = futexKey.key ∧
    futexKey.bitset &&& key.bitset ≠ 0

theorem Inv.mem_waiters (h : s.Inv v) {futexKey : FutexKey} :
    t ∈ s.waiters v futexKey ↔ s.WaitsOn futexKey t := by
  unfold waiters FutexKey.wakes WaitsOn
  simp only [List.mem_map, mem_filter, Bool.and_eq_true, decide_eq_true_eq]
  constructor
  · rintro ⟨⟨u, key⟩, ⟨hu, ⟨hb, hkey⟩, hbits⟩, rfl⟩
    exact ⟨hb, key, (h.entry hu).1, hkey.symm, hbits⟩
  · rintro ⟨hb, key, hpc, hkey, hbits⟩
    obtain ⟨key', hpc', hu⟩ := h.blocked hb
    cases hpc.symm.trans hpc'
    refine ⟨(t, key), ⟨?_, ⟨hb, hkey.symm⟩, hbits⟩, rfl⟩
    have hbucket : v.getBucket futexKey = v.getBucket key := by
      unfold FutexVec.getBucket
      rw [hkey]
    rw [hbucket]
    exact hu

/-- In every run a task blocks only if it read the expected value and no wake of the address came
between that and its joining the queue, and a wake makes exactly the first of the tasks that wait on
the address with a bitset that meets its own ready, up to its count, and leaves all other blocked
tasks blocked and in their queues. -/
theorem futex_wakes_right_tasks [DecidableEq Cpu] {c₀ : Cpu} {words : ℕ → BitVec 32}
    (h : Reach (step v) anyStep (FutexSystem.init c₀ words) s) :
    (∀ e s' t, s.step v e = some s' → s.kernel.state t ≠ .blocked → s'.kernel.state t = .blocked →
      Joins v s s' t) ∧
      ∀ c addr maxCount bitset s', s.step v (.wakeBitset c addr maxCount bitset) = some s' →
        (s.waiters v ⟨addr, bitset⟩).Nodup ∧
        (∀ t, t ∈ s.waiters v ⟨addr, bitset⟩ ↔ s.WaitsOn ⟨addr, bitset⟩ t) ∧
        (∀ t, s'.kernel.state t = if t ∈ (s.waiters v ⟨addr, bitset⟩).take maxCount then .ready
          else s.kernel.state t) ∧
        ∀ t key b, (t, key) ∈ s.kernel.queues (.other b) → s.kernel.state t = .blocked →
          s'.kernel.state t = .blocked → (t, key) ∈ s'.kernel.queues (.other b) := by
  have hinv := inv_of_reach h
  refine ⟨fun e s' t hs => (hinv.step hs).2 t, fun c addr maxCount bitset s' hs => ?_⟩
  have hr := bind_toOption_eq_some.mp hs
  obtain ⟨-, t, -, heq⟩ := of_guarded hr
  cases heq
  have hw := hinv.wakes c ⟨addr, bitset⟩ maxCount
  refine ⟨?_, fun t => hinv.mem_waiters, hw.state, fun t key b hmem hb hb' => ?_⟩
  · exact (filter_sublist.map fst).nodup (hinv.nodup _)
  · refine hw.keeps hmem hb fun hchosen => ?_
    rw [hw.state, if_pos hchosen] at hb'
    cases hb'

/-- All addresses in one bucket. -/
def sampleVec : FutexVec := ⟨fun _ => 0, 255⟩

/-- Tasks 2 and 4 wait on the address 0 and task 3, between them, on another one. -/
def sampleEvents : List (FutexEvent Unit) :=
  [.background (.newTask false), .background (.addTask 4), .background (.newTask false),
    .background (.addTask 5), .wait () 0 7 none 1, .join () true, .wait () 4096 7 none 1,
    .join () true, .store 4096 8, .wait () 0 7 (some 100) 3, .join () true]

theorem futex_wakes_right_tasks_sample :
    ∃ s s' : FutexSystem Unit, Reach (step sampleVec) anyStep (FutexSystem.init () fun _ => 7) s ∧
      s.waiters sampleVec ⟨0, 1⟩ = [2, 4] ∧
      s.step sampleVec (.wakeBitset () 0 1 1) = some s' ∧ s'.kernel.state 2 = .ready ∧
      s'.kernel.state 3 = .blocked ∧ s'.kernel.state 4 = .blocked := by
  have hrun : (run (step sampleVec) anyStep (FutexSystem.init () fun _ => 7) sampleEvents).map
      (fun s => (s.waiters sampleVec ⟨0, 1⟩, s.kernel.state 3, s.kernel.state 4,
        (s.step sampleVec (.wakeBitset () 0 1 1)).isSome)) =
        some ([2, 4], .blocked, .blocked, true) := by
    decide +kernel
  obtain ⟨s, h, hp⟩ := exists_of_run hrun
  simp only [Prod.mk.injEq] at hp
  obtain ⟨hwaiters, h3, h4, hsome⟩ := hp
  obtain ⟨s', hs'⟩ := isSome_iff_exists.mp hsome
  obtain ⟨-, -, hstate, -⟩ := (futex_wakes_right_tasks h).2 () 0 1 1 s' hs'
  rw [hwaiters] at hstate
  exact ⟨s, s', h, hwaiters, hs', hstate 2, (hstate 3).trans h3, (hstate 4).trans h4⟩

/-! ## The answer of a wake -/

/-- The queue of a key. -/
def bucket (v : FutexVec) (s : FutexSystem Cpu) (futexKey : FutexKey) : List (ℕ × FutexKey) :=
  s.kernel.queues (.other (v.getBucket futexKey))

/-- What `futex_wake_bitset` returns: by how much the queue has become shorter. -/
def wakeCount (v : FutexVec) (s : FutexSystem Cpu) (c : Cpu) (futexKey : FutexKey)
    (maxCount : ℕ) : ℕ :=
  (s.bucket v futexKey).length - ((s.wakeBitset v c futexKey maxCount).bucket v futexKey).length

/-- A wake, from `s` to `s'`, that returns `count` has made that many tasks ready that wait on the
address with a bitset that meets its own, and not more than it was asked for. The tasks in the queue
that wait on other addresses stay there. -/
structure ReportsWoken (v : FutexVec) (s s' : FutexSystem Cpu) (futexKey : FutexKey)
    (maxCount count : ℕ) : Prop where
  le : count ≤ maxCount
  woken : ∃ woken : List ℕ, woken.Nodup ∧ count = woken.length ∧
    ∀ t, t ∈ woken ↔ s.WaitsOn futexKey t ∧ s'.kernel.state t = .ready
  others : ∀ e ∈ s.bucket v futexKey, e.2.key ≠ futexKey.key → e ∈ s'.bucket v futexKey ∧
    s'.kernel.inWaitQueue e.1 = s.kernel.inWaitQueue e.1

/-- A wake reports what it woke just if all tasks in the queue are blocked. -/
theorem wake_reports_woken [DecidableEq Cpu] {c₀ : Cpu} {words : ℕ → BitVec 32}
    (h : Reach (step v) anyStep (FutexSystem.init c₀ words) s) (c : Cpu) (futexKey : FutexKey)
    (maxCount : ℕ) (hs : s.wakeBitset v c futexKey maxCount = s') :
    ReportsWoken v s s' futexKey maxCount (s.wakeCount v c futexKey maxCount) ↔
      ∀ e ∈ s.bucket v futexKey, s.kernel.state e.1 = .blocked := by
  have hinv := inv_of_reach h
  have hw := hinv.wakes c futexKey maxCount
  have hcount : s.wakeCount v c futexKey maxCount = ((s.waiters v futexKey).take maxCount).length +
      (s.bucket v futexKey).countP fun e => s.kernel.state e.1 ≠ .blocked := by
    have hkept : (s.wakeBitset v c futexKey maxCount).bucket v futexKey =
        (wakeScan futexKey maxCount c (s.bucket v futexKey) 0 s.kernel).2 :=
      queues_setQueue_self
    rw [wakeCount, hkept, waiters, ← map_take, length_map, bucket,
      ← length_retain_wakeFilter (k := s.kernel) futexKey maxCount 0 c (hinv.nodup _)]
    exact Nat.add_sub_cancel_left ..
  have hnodup : ((s.waiters v futexKey).take maxCount).Nodup :=
    (take_sublist ..).nodup ((filter_sublist.map fst).nodup (hinv.nodup _))
  rw [hs] at hw
  have hwoken : ∀ t, t ∈ (s.waiters v futexKey).take maxCount ↔
      s.WaitsOn futexKey t ∧ s'.kernel.state t = .ready := fun t => by
    rw [hw.state]
    constructor
    · exact fun ht => ⟨hinv.mem_waiters.mp (mem_of_mem_take ht), if_pos ht⟩
    · rintro ⟨hwaits, hready⟩
      by_contra hnot
      rw [if_neg hnot, hwaits.1] at hready
      cases hready
  constructor
  · rintro ⟨-, ⟨woken, hwnodup, hlength, hmem⟩, -⟩ e he
    have hperm := (perm_ext_iff_of_nodup hwnodup hnodup).mpr fun t => (hmem t).trans (hwoken t).symm
    rw [hcount] at hlength
    have hnone := Nat.add_eq_left.mp (hlength.trans hperm.length_eq)
    simpa using countP_eq_zero.mp hnone e he
  · intro hblocked
    rw [countP_eq_zero.mpr fun e he => by simp [hblocked e he]] at hcount
    refine ⟨hcount ▸ length_take_le .., ⟨_, hnodup, hcount, hwoken⟩, fun e he hkey => ?_⟩
    have hkept : e ∈ s'.bucket v futexKey := by
      refine hw.keeps he (hblocked e he) fun ht => ?_
      obtain ⟨-, key, hpc, heq, -⟩ := hinv.mem_waiters.mp (mem_of_mem_take ht)
      cases hpc.symm.trans (hinv.entry he).1
      exact hkey heq
    exact ⟨hkept, hw.flags hkept⟩

/-- One of the two tasks that wait on the address 0 is woken, and task 3 stays in the queue. -/
theorem wake_reports_woken_sample :
    ∃ s s' : FutexSystem Unit, s.wakeBitset sampleVec () ⟨0, 1⟩ 1 = s' ∧
      ReportsWoken sampleVec s s' ⟨0, 1⟩ 1 (s.wakeCount sampleVec () ⟨0, 1⟩ 1) ∧
      s.bucket sampleVec ⟨0, 1⟩ = [(2, ⟨0, 1⟩), (3, ⟨4096, 1⟩), (4, ⟨0, 3⟩)] := by
  have hrun : (run (step sampleVec) anyStep (FutexSystem.init () fun _ => 7) sampleEvents).map
      (fun s => (s.bucket sampleVec ⟨0, 1⟩, s.kernel.state 2, s.kernel.state 3, s.kernel.state 4)) =
      some ([(2, ⟨0, 1⟩), (3, ⟨4096, 1⟩), (4, ⟨0, 3⟩)], .blocked, .blocked, .blocked) := by
    decide +kernel
  obtain ⟨s, hs, hp⟩ := exists_of_run hrun
  simp only [Prod.mk.injEq] at hp
  obtain ⟨hbucket, h2, h3, h4⟩ := hp
  refine ⟨s, _, rfl, (wake_reports_woken hs () ⟨0, 1⟩ 1 rfl).mpr ?_, hbucket⟩
  rw [hbucket]
  simp [h2, h3, h4]

/-- Task 2 has been woken by its alarm and has not run yet. A wake of another address, which is to
wake nobody, takes it out of the queue and returns 1, and its wait will not report the timeout. -/
theorem wake_counts_timed_out : (run (step sampleVec) anyStep (FutexSystem.init () fun _ => 7)
      [.wait () 0 7 (some 0) 1, .join () true, .background (.irq ()),
        .background (.expireOne () 0 2), .background (.callback ())]).map
      (fun s => (s.waiters sampleVec ⟨4096, 1⟩, s.wakeCount sampleVec () ⟨4096, 1⟩ 0,
        s.kernel.inWaitQueue 2, (s.wakeBitset sampleVec () ⟨4096, 1⟩ 0).kernel.inWaitQueue 2)) =
      some ([], 1, true, false) := by
  decide +kernel

end FutexSystem

end HvisorRux.Rux.Task
