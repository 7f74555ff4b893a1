import Mathlib.Data.List.Basic
import Mathlib.Order.Nat

/-!
# Partitioning a wait queue

`partition_deque` of `wait_queue.rs` brings the entries that a predicate accepts to the front of a
queue: two indices run towards each other and swap the entries at which they stop. What
`dequeue_tasks_if` takes out is the front. The functions are `none` if an entry outside of the queue
is accessed, or if the loop takes more rounds than there are entries.
-/

namespace HvisorRux.Rux.Task

open List Option

variable {α : Type} (pred : α → Bool) (data : List α)

/-- `while l < len && pred(&data[l])`. -/
def skipTrue (l : ℕ) : Option ℕ :=
  if l < data.length then do
    if pred (← data[l]?) then skipTrue (l + 1) else some l
  else some l
termination_by data.length - l

/-- `while r > 0 && !pred(&data[r])`. -/
def skipFalse : ℕ → Option ℕ
  | 0 => some 0
  | r + 1 => do if pred (← data[r + 1]?) then some (r + 1) else skipFalse r

/-- `VecDeque::swap`. -/
def swap (l r : ℕ) : Option (List α) := do
  let x ← data[l]?
  some ((data.set l (← data[r]?)).set r x)

def partitionLoop : ℕ → List α → ℕ → ℕ → Option (ℕ × List α)
  | 0, _, _, _ => none
  | fuel + 1, data, l, r => do
    let l ← skipTrue pred data l
    let r ← skipFalse pred data r
    if r ≤ l then some (l, data) else partitionLoop fuel (← swap data l r) l r

/-- `partition_deque`, with the new contents of the queue. -/
def partitionDeque : Option (ℕ × List α) :=
  if data.length = 0 then some (0, data)
  else partitionLoop pred (data.length + 1) data 0 (data.length - 1)

/-- `dequeue_tasks_if`: the entries that are taken out and those that stay. -/
def dequeueTasksIf : Option (List α × List α) :=
  (partitionDeque pred data).map fun p => (p.2.take p.1, p.2.drop p.1)

variable {pred data} {l r : ℕ}

theorem skipTrue_spec (pred : α → Bool) (hl : l ≤ data.length) :
    ∃ l' ≥ l, skipTrue pred data l = some l' ∧ l' ≤ data.length ∧
      (∀ i < l', l ≤ i → ∀ x ∈ data[i]?, pred x) ∧ ∀ x ∈ data[l']?, ¬pred x := by
  fun_induction skipTrue pred data l with
  | case1 l hlt ih =>
    rw [getElem?_eq_getElem hlt]
    cases hx : pred data[l]
    · exact ⟨l, le_rfl, by simp [hx], by grind⟩
    · obtain ⟨l', hl', heq, h⟩ := ih hlt
      exact ⟨l', by omega, by simpa [hx] using heq, by grind⟩
  | case2 l hlt => exact ⟨l, by grind⟩

theorem skipFalse_spec (pred : α → Bool) (hr : r < data.length) :
    ∃ r' ≤ r, skipFalse pred data r = some r' ∧
      (∀ i ≤ r, r' < i → ∀ x ∈ data[i]?, ¬pred x) ∧ (0 < r' → ∀ x ∈ data[r']?, pred x) := by
  induction r with
  | zero => grind [skipFalse]
  | succ r ih =>
    rw [skipFalse, getElem?_eq_getElem hr]
    cases hx : pred data[r + 1]
    · obtain ⟨r', hr', heq, h⟩ := ih (by omega)
      exact ⟨r', by omega, by simpa [hx] using heq, by grind⟩
    · exact ⟨r + 1, by grind⟩

/-- The predicate holds before `l` and fails from `r` on. -/
def Split (pred : α → Bool) (data : List α) (l r : ℕ) : Prop :=
  (∀ i < l, ∀ x ∈ data[i]?, pred x) ∧ ∀ i ≥ r, ∀ x ∈ data[i]?, ¬pred x

theorem swap_spec (h : Split pred data l (r + 1)) (hlr : l < r) (hr : r < data.length)
    (hpred : ∀ x ∈ data[r]?, pred x) : ∃ data', swap data l r = some data' ∧ data'.Perm data ∧
      Split pred data' l (r + 1) ∧ ∀ x ∈ data'[l]?, pred x := by
  refine ⟨_, ?_, set_set_perm (hlr.trans hr) hr, ⟨?_, ?_⟩, ?_⟩
  · simp [swap, hr, hlr.trans hr]
  all_goals grind [Split]

/-- After a swap the left index moves on, so that the indices meet in time. -/
theorem partitionLoop_spec {fuel : ℕ} (h : Split pred data l (r + 1)) (hlr : l ≤ r)
    (hr : r < data.length) (hfuel : r + 1 < fuel + l ∨ r < fuel + l ∧ ∀ x ∈ data[l]?, pred x) :
    ∃ n data', partitionLoop pred fuel data l r = some (n, data') ∧ data'.Perm data ∧
      n ≤ data.length ∧ Split pred data' n n := by
  induction fuel generalizing data l r with
  | zero => omega
  | succ fuel ih =>
    obtain ⟨l', hll', hl, hl', hskip, hstop⟩ := skipTrue_spec pred (hlr.trans hr.le)
    obtain ⟨r', hr', hr₁, hskip', hstop'⟩ := skipFalse_spec pred hr
    have hsplit : Split pred data l' (r' + 1) := by grind [Split]
    by_cases hle : r' ≤ l'
    · exact ⟨l', data, by simp [partitionLoop, hl, hr₁, hle], .refl _, hl', by grind [Split]⟩
    obtain ⟨data₁, hswap, hperm, hsplit₁, hpred⟩ :=
      swap_spec hsplit (by omega) (by omega) (hstop' (by omega))
    have hnext : r' < fuel + l' := by
      obtain hfuel | ⟨hfuel, hl⟩ := hfuel
      · omega
      have hne : l' ≠ l := by
        rintro rfl
        exact hstop _ (getElem?_eq_getElem (by omega)) (hl _ (getElem?_eq_getElem _))
      omega
    obtain ⟨n, data', hloop, hperm', hn, hres⟩ := ih hsplit₁ (by omega)
      (by rw [hperm.length_eq]; omega) (.inr ⟨hnext, hpred⟩)
    refine ⟨n, data', by simpa [partitionLoop, hl, hr₁, hle, hswap] using hloop, ?_, ?_, hres⟩
    · exact hperm'.trans hperm
    · rwa [hperm.length_eq] at hn

theorem partitionDeque_spec (pred : α → Bool) (data : List α) :
    ∃ n data', partitionDeque pred data = some (n, data') ∧ data'.Perm data ∧
      n ≤ data.length ∧ Split pred data' n n := by
  by_cases hnil : data.length = 0
  · exact ⟨0, data, if_pos hnil, .refl _, by grind [Split]⟩
  rw [partitionDeque, if_neg hnil]
  exact partitionLoop_spec (by grind [Split]) (Nat.zero_le _) (by omega) (.inl (by omega))

theorem Split.filter {n : ℕ} (h : Split pred data n n) :
    data.take n = data.filter pred ∧ data.drop n = data.filter fun x => !pred x := by
  have htake : ∀ x ∈ data.take n, pred x := fun x hx => by
    obtain ⟨i, hi, rfl⟩ := mem_take_iff_getElem.mp hx
    exact h.1 i (by omega) _ (getElem?_eq_getElem _)
  have hdrop : ∀ x ∈ data.drop n, ¬pred x := fun x hx => by
    obtain ⟨i, hi, rfl⟩ := mem_drop_iff_getElem.mp hx
    exact h.2 (n + i) (by omega) _ (getElem?_eq_getElem _)
  have hfilter (p : α → Bool) := filter_append (p := p) (data.take n) (data.drop n)
  simp only [take_append_drop] at hfilter
  rw [hfilter, hfilter, filter_eq_self.mpr htake, filter_eq_nil_iff.mpr hdrop,
    filter_eq_nil_iff.mpr (by grind), filter_eq_self.mpr (by grind)]
  exact ⟨(append_nil _).symm, rfl⟩

/-- `partition_deque` returns a rearrangement of the queue and how many of its entries the predicate
accepts; these come first. So `dequeue_tasks_if` takes out exactly what the filter accepts. -/
theorem partition_exact (pred : α → Bool) (data : List α) : ∃ data',
    partitionDeque pred data = some (data.countP pred, data') ∧ data'.Perm data ∧
      data' = data'.filter pred ++ data'.filter (fun x => !pred x) ∧
      ∃ taken kept, dequeueTasksIf pred data = some (taken, kept) ∧
        taken.Perm (data.filter pred) ∧ kept.Perm (data.filter fun x => !pred x) := by
  obtain ⟨n, data', heq, hperm, hn, hsplit⟩ := partitionDeque_spec pred data
  obtain ⟨htake, hdrop⟩ := hsplit.filter
  have hcount : data.countP pred = n := by
    rw [← hperm.countP_eq, countP_eq_length_filter, ← htake, length_take, hperm.length_eq,
      min_eq_left hn]
  rw [dequeueTasksIf, hcount, heq]
  refine ⟨data', rfl, hperm, ?_, _, _, rfl, htake ▸ hperm.filter _, hdrop ▸ hperm.filter _⟩
  rw [← htake, ← hdrop, take_append_drop]

end HvisorRux.Rux.Task
