import Mathlib.Data.List.Nodup
import Mathlib.Data.List.Perm.Subperm
import Mathlib.Order.Lattice

/-!
# Ordered maps

A map with ordered keys as the list of its entries, in the order in which an iterator visits them.
That the keys increase is part of the type, so an entry is determined by its key, and what an
operation does is said by which entries there are afterwards.
-/

namespace HvisorRux.Common

open List Option Prod

/-- A map from `κ` to `α` that is iterated in the order of the keys. -/
structure OrdMap (κ α : Type*) [LinearOrder κ] where
  entries : List (κ × α)
  sorted : entries.Pairwise fun p q => p.1 < q.1

namespace OrdMap

variable {κ α : Type*} [LinearOrder κ] {m : OrdMap κ α} {k k' : κ} {a b : α} {p : κ × α}
  {l : List (κ × α)}

instance : Membership (κ × α) (OrdMap κ α) := ⟨fun m p => p ∈ m.entries⟩

instance [DecidableEq α] : DecidableEq (OrdMap κ α) := fun m m' =>
  decidable_of_iff (m.entries = m'.entries)
    ⟨fun h => match m, m', h with | ⟨_, _⟩, ⟨_, _⟩, rfl => rfl, congrArg entries⟩

theorem mem_def : p ∈ m ↔ p ∈ m.entries := Iff.rfl

instance (P : κ × α → Prop) [DecidablePred P] : Decidable (∀ p ∈ m, P p) :=
  inferInstanceAs (Decidable (∀ p ∈ m.entries, P p))

instance (P : κ × α → Prop) [DecidablePred P] : Decidable (∃ p ∈ m, P p) :=
  inferInstanceAs (Decidable (∃ p ∈ m.entries, P p))

/-- The map without entries. -/
def empty : OrdMap κ α := ⟨[], .nil⟩

section

variable (m : OrdMap κ α)

/-- The value of a key. -/
def get? (k : κ) : Option α := (m.entries.find? (·.1 = k)).map snd

/-- The number of entries. -/
def size : ℕ := m.entries.length

/-- Add an entry, or replace the one with this key. -/
def insert (k : κ) (a : α) : OrdMap κ α where
  entries := m.entries.filter (·.1 < k) ++ (k, a) :: m.entries.filter (k < ·.1)
  sorted := by
    refine pairwise_append.mpr ⟨m.sorted.filter _, ?_, ?_⟩
    · refine pairwise_cons.mpr ⟨fun q hq => ?_, m.sorted.filter _⟩
      exact of_decide_eq_true (mem_filter.mp hq).2
    · intro p hp q hq
      have hpk : p.1 < k := of_decide_eq_true (mem_filter.mp hp).2
      obtain rfl | hq := mem_cons.mp hq
      · exact hpk
      · exact hpk.trans (of_decide_eq_true (mem_filter.mp hq).2)

/-- Remove the entry with this key. -/
def erase (k : κ) : OrdMap κ α where
  entries := m.entries.filter (·.1 ≠ k)
  sorted := m.sorted.filter _

/-- Change the value of a key that has one. -/
def update (k : κ) (f : α → α) : Option (OrdMap κ α) :=
  (m.get? k).map fun a => m.insert k (f a)

/-- The entry with the last key up to `k`. -/
def floor? (k : κ) : Option (κ × α) := (m.entries.filter (·.1 ≤ k)).getLast?

/-- The entry with the first key from `k` on. -/
def ceil? (k : κ) : Option (κ × α) := m.entries.find? (k ≤ ·.1)

/-- The entry with the last key. -/
def last? : Option (κ × α) := m.entries.getLast?

/-- The entries from the last key up to `k` on; none if there is no such key. -/
def cursor (k : κ) : List (κ × α) :=
  match m.floor? k with
  | none => []
  | some p => p :: m.entries.filter (k < ·.1)

/-- The keys in their order. -/
def keys : List κ := m.entries.map fst

/-- The entries with keys from `k` on and before `k'`. -/
def range (k k' : κ) : List (κ × α) :=
  m.entries.filter fun p => decide (k ≤ p.1) && decide (p.1 < k')

end

/-! ## Entries -/

theorem not_mem_empty : p ∉ (empty : OrdMap κ α) := not_mem_nil

theorem keys_nodup (m : OrdMap κ α) : (m.entries.map fst).Nodup :=
  pairwise_map.mpr (m.sorted.imp fun h => h.ne)

/-- A key has one entry. -/
theorem val_unique (ha : (k, a) ∈ m) (hb : (k, b) ∈ m) : a = b :=
  congrArg snd (inj_on_of_nodup_map m.keys_nodup ha hb rfl)

/-- A lookup finds the entries of the map. -/
theorem get?_eq_some : m.get? k = some a ↔ (k, a) ∈ m := by
  constructor
  · intro h
    obtain ⟨p, hfind, rfl⟩ := map_eq_some_iff.mp h
    have hkey : p.1 = k := by simpa using find?_some hfind
    exact hkey ▸ mem_of_find?_eq_some hfind
  · intro h
    cases hfind : m.entries.find? (·.1 = k) with
    | none => exact absurd (decide_eq_true rfl) (find?_eq_none.mp hfind (k, a) h)
    | some p =>
      have hkey : p.1 = k := by simpa using find?_some hfind
      have hmem : (k, p.2) ∈ m := hkey ▸ mem_of_find?_eq_some hfind
      rw [get?, hfind, map_some, val_unique hmem h]

/-- The entries after an insertion: the new one, and the old ones of the other keys. -/
theorem mem_insert : p ∈ m.insert k a ↔ p = (k, a) ∨ (p ∈ m ∧ p.1 ≠ k) := by
  simp only [mem_def, insert, mem_append, mem_cons, mem_filter, decide_eq_true_eq,
    lt_or_lt_iff_ne.symm]
  tauto

/-- A lookup after an insertion. -/
theorem get?_insert : (m.insert k a).get? k' = if k' = k then some a else m.get? k' := by
  ext b
  rw [get?_eq_some, mem_insert]
  split_ifs with hk
  · simp [hk, eq_comm]
  · simp [hk, get?_eq_some]

/-- The entries after a removal: those of the other keys. -/
theorem mem_erase : p ∈ m.erase k ↔ p ∈ m ∧ p.1 ≠ k := by
  simp [mem_def, erase]

/-- A lookup after a removal. -/
theorem get?_erase : (m.erase k).get? k' = if k' = k then none else m.get? k' := by
  ext b
  rw [get?_eq_some, mem_erase]
  split_ifs with hk
  · simp [hk]
  · simp [hk, get?_eq_some]

/-- A map is empty if no lookup succeeds. -/
theorem entries_eq_nil : m.entries = [] ↔ ∀ k, m.get? k = none := by
  constructor
  · intro h k
    rw [get?, h]
    rfl
  · intro h
    refine eq_nil_iff_forall_not_mem.mpr fun p hp => ?_
    have hsome := get?_eq_some.mpr (show (p.1, p.2) ∈ m from hp)
    rw [h p.1] at hsome
    cases hsome

/-- An update succeeds for a key with a value, and replaces this value. -/
theorem mem_update {m' : OrdMap κ α} {f : α → α} (h : m.update k f = some m') :
    ∃ a, (k, a) ∈ m ∧ ∀ p, p ∈ m' ↔ p = (k, f a) ∨ (p ∈ m ∧ p.1 ≠ k) := by
  obtain ⟨a, ha, rfl⟩ := map_eq_some_iff.mp h
  exact ⟨a, get?_eq_some.mp ha, fun p => mem_insert⟩

/-! ## Keys and the number of entries -/

theorem mem_keys : k ∈ m.keys ↔ ∃ a, (k, a) ∈ m := by
  simp [keys, mem_def]

theorem mem_keys_of_mem (h : p ∈ m) : p.1 ∈ m.keys := List.mem_map_of_mem h

theorem mem_keys_insert : k' ∈ (m.insert k a).keys ↔ k' = k ∨ k' ∈ m.keys := by
  simp only [mem_keys, mem_insert, Prod.mk.injEq]
  by_cases hk : k' = k
  · simp [hk]
  · simp [hk]

theorem mem_keys_erase : k' ∈ (m.erase k).keys ↔ k' ∈ m.keys ∧ k' ≠ k := by
  simp [mem_keys, mem_erase]

/-- A lookup fails for the keys that the map does not have. -/
theorem get?_eq_none : m.get? k = none ↔ k ∉ m.keys := by
  simp [mem_keys, eq_none_iff_forall_ne_some, get?_eq_some]

theorem entries_nodup (m : OrdMap κ α) : m.entries.Nodup := m.keys_nodup.of_map _

/-- A new key adds one entry. -/
theorem entries_insert_perm (h : k ∉ m.keys) : (m.insert k a).entries.Perm
    ((k, a) :: m.entries) := by
  refine (perm_ext_iff_of_nodup (entries_nodup _) ?_).mpr fun p => ?_
  · exact nodup_cons.mpr ⟨fun hmem => h (mem_keys_of_mem hmem), m.entries_nodup⟩
  · rw [← mem_def, mem_insert, mem_cons]
    refine or_congr_right ⟨fun hp => hp.1, fun hp => ⟨hp, fun hk => ?_⟩⟩
    exact h (hk ▸ mem_keys_of_mem hp)

/-- A removal takes one entry away. -/
theorem entries_erase_perm (h : (k, a) ∈ m) : m.entries.Perm ((k, a) :: (m.erase k).entries) := by
  refine (perm_ext_iff_of_nodup m.entries_nodup ?_).mpr fun p => ?_
  · exact nodup_cons.mpr ⟨fun hmem => (mem_erase.mp hmem).2 rfl, entries_nodup _⟩
  · rw [mem_cons, ← mem_def, ← mem_def, mem_erase]
    constructor
    · intro hp
      by_cases hk : p.1 = k
      · exact .inl (Prod.ext hk (val_unique (hk ▸ hp) h))
      · exact .inr ⟨hp, hk⟩
    · rintro (rfl | ⟨hp, -⟩)
      · exact h
      · exact hp

theorem mem_range : p ∈ m.range k k' ↔ p ∈ m ∧ k ≤ p.1 ∧ p.1 < k' := by
  simp [range, mem_def]

theorem range_nodup : ((m.range k k').map fst).Nodup :=
  m.keys_nodup.sublist (filter_sublist.map _)

/-! ## Neighbours -/

/-- The last entry of a sorted list has the greatest key. -/
theorem le_getLast (hsorted : l.Pairwise fun p q => p.1 < q.1)
    (h : l.getLast? = some p) {q : κ × α} (hq : q ∈ l) : q.1 ≤ p.1 := by
  obtain ⟨l, rfl⟩ := getLast?_eq_some_iff.mp h
  obtain hq | hq := mem_append.mp hq
  · exact ((pairwise_append.mp hsorted).2.2 q hq p (mem_singleton_self p)).le
  · exact (congrArg fst (mem_singleton.mp hq)).le

theorem floor?_eq_some (h : m.floor? k = some p) :
    p ∈ m ∧ p.1 ≤ k ∧ ∀ q ∈ m, q.1 ≤ k → q.1 ≤ p.1 := by
  obtain ⟨hp, hle⟩ := mem_filter.mp (mem_of_getLast? h)
  refine ⟨hp, of_decide_eq_true hle, fun q hq hqk => ?_⟩
  exact le_getLast (m.sorted.filter _) h (mem_filter.mpr ⟨hq, decide_eq_true hqk⟩)

/-- `floor?` is the greatest of the entries with keys up to `k`. -/
theorem floor?_eq_some_iff :
    m.floor? k = some p ↔ p ∈ m ∧ p.1 ≤ k ∧ ∀ q ∈ m, q.1 ≤ k → q.1 ≤ p.1 := by
  refine ⟨floor?_eq_some, ?_⟩
  rintro ⟨hp, hpk, hmax⟩
  have hfilter : p ∈ m.entries.filter (·.1 ≤ k) :=
    mem_filter.mpr ⟨hp, decide_eq_true hpk⟩
  obtain ⟨q, hq⟩ := isSome_iff_exists.mp (getLast?_isSome.mpr (ne_nil_of_mem hfilter))
  obtain ⟨hqm, hqk, hqmax⟩ := floor?_eq_some hq
  have hkey : q.1 = p.1 := le_antisymm (hmax q hqm hqk) (hqmax p hp hpk)
  rw [show m.floor? k = some q from hq, Prod.ext hkey (val_unique (hkey ▸ hqm) hp)]

/-- `floor?` fails if all keys are above `k`. -/
theorem floor?_eq_none : m.floor? k = none ↔ ∀ p ∈ m, k < p.1 := by
  simp [floor?, mem_def]

/-- `ceil?` is the least of the entries with keys from `k` on. -/
theorem ceil?_eq_some (h : m.ceil? k = some p) :
    p ∈ m ∧ k ≤ p.1 ∧ ∀ q ∈ m, k ≤ q.1 → p.1 ≤ q.1 := by
  obtain ⟨hle, before, after, heq, hbefore⟩ := find?_eq_some_iff_append.mp h
  refine ⟨mem_of_find?_eq_some h, of_decide_eq_true hle, fun q hq hkq => ?_⟩
  have hsorted := m.sorted
  rw [mem_def, heq] at hq
  rw [heq] at hsorted
  obtain hq | hq := mem_append.mp hq
  · exact absurd hkq (by simpa using hbefore q hq)
  · obtain rfl | hq := mem_cons.mp hq
    · exact le_rfl
    · exact ((pairwise_cons.mp (pairwise_append.mp hsorted).2.1).1 q hq).le

/-- `ceil?` fails if all keys are below `k`. -/
theorem ceil?_eq_none : m.ceil? k = none ↔ ∀ p ∈ m, p.1 < k := by
  simp [ceil?, mem_def]

/-- `last?` is the entry with the greatest key. -/
theorem last?_eq_some (h : m.last? = some p) : p ∈ m ∧ ∀ q ∈ m, q.1 ≤ p.1 :=
  ⟨mem_of_getLast? h, fun _ => le_getLast m.sorted h⟩

theorem last?_eq_none : m.last? = none ↔ ∀ p, p ∉ m := by
  simp [last?, mem_def, eq_nil_iff_forall_not_mem]

/-- A cursor visits the entries from the one it starts at on. -/
theorem mem_cursor {q : κ × α} (h : m.floor? k = some p) : q ∈ m.cursor k ↔ q ∈ m ∧ p.1 ≤ q.1 := by
  obtain ⟨hp, hpk, hmax⟩ := floor?_eq_some h
  simp only [cursor, h, mem_cons, mem_filter, decide_eq_true_eq]
  constructor
  · rintro (rfl | ⟨hq, hkq⟩)
    · exact ⟨hp, le_rfl⟩
    · exact ⟨hq, hpk.trans hkq.le⟩
  · rintro ⟨hq, hpq⟩
    by_cases hqk : q.1 ≤ k
    · have hkey : q.1 = p.1 := le_antisymm (hmax q hq hqk) hpq
      exact .inl (Prod.ext hkey (val_unique (hkey ▸ hq) hp))
    · exact .inr ⟨hq, not_le.mp hqk⟩

theorem mem_of_mem_cursor (hp : p ∈ m.cursor k) : p ∈ m := by
  cases hfloor : m.floor? k with
  | none => simp [cursor, hfloor] at hp
  | some q => exact ((mem_cursor hfloor).mp hp).1

/-- A cursor visits the entries in the order of their keys. -/
theorem cursor_sorted : (m.cursor k).Pairwise fun p q => p.1 < q.1 := by
  unfold cursor
  split
  · exact .nil
  · next p h =>
    refine pairwise_cons.mpr ⟨fun q hq => ?_, m.sorted.filter _⟩
    exact (floor?_eq_some h).2.1.trans_lt (of_decide_eq_true (mem_filter.mp hq).2)

/-- A loop that stops at the first element without the property meets all that have it, if they come
first. -/
theorem takeWhile_eq_filter {β : Type*} {P : β → Bool} {l : List β}
    (h : l.Pairwise fun x y => P y → P x) : l.takeWhile P = l.filter P := by
  induction l with
  | nil => rfl
  | cons x l ih =>
    obtain ⟨hx, hl⟩ := pairwise_cons.mp h
    by_cases hP : P x
    · rw [takeWhile_cons_of_pos hP, filter_cons_of_pos hP, ih hl]
    · rw [takeWhile_cons_of_neg hP, filter_cons_of_neg hP, eq_comm, filter_eq_nil_iff]
      exact fun y hy hPy => hP (hx y hy hPy)

/-! ## Loops over lists of changes -/

section

variable (m : OrdMap κ α)

/-- Change the values of several keys. -/
def updateAll (l : List (κ × (α → α))) : Option (OrdMap κ α) :=
  l.foldlM (fun m kf => m.update kf.1 kf.2) m

/-- Remove several keys, each of which is there. -/
def removeAll (l : List κ) : Option (OrdMap κ α) :=
  l.foldlM (fun m k => (m.get? k).map fun _ => m.erase k) m

/-- Add several entries, the later ones over the earlier. -/
def insertAll (l : List (κ × α)) : OrdMap κ α :=
  l.foldl (fun m p => m.insert p.1 p.2) m

/-- Remove several keys, which need not be there. -/
def eraseAll (l : List κ) : OrdMap κ α := l.foldl erase m

end

section Loops

variable {m' : OrdMap κ α}

/-- The entries after several updates of different keys. -/
theorem mem_updateAll {l : List (κ × (α → α))} (hkeys : (l.map fst).Nodup)
    (h : m.updateAll l = some m') :
    p ∈ m' ↔ (p ∈ m ∧ p.1 ∉ l.map fst) ∨ ∃ kf ∈ l, ∃ a, (kf.1, a) ∈ m ∧ p = (kf.1, kf.2 a) := by
  induction l generalizing m with
  | nil =>
    cases h
    simp
  | cons kf l ih =>
    obtain ⟨m₁, hm₁, hrest⟩ := bind_eq_some_iff.mp h
    obtain ⟨a, ha, hmem⟩ := mem_update hm₁
    obtain ⟨hkf, hkeys⟩ := nodup_cons.mp hkeys
    rw [ih hkeys hrest, map_cons, mem_cons, not_or]
    constructor
    · rintro (⟨hp₁, hnot⟩ | ⟨kf', hkf', b, hb, rfl⟩)
      · obtain rfl | ⟨hpm, hne⟩ := (hmem p).mp hp₁
        · exact .inr ⟨kf, mem_cons_self, a, ha, rfl⟩
        · exact .inl ⟨hpm, hne, hnot⟩
      · obtain heq | ⟨hbm, -⟩ := (hmem _).mp hb
        -- the key of another change is a different one
        · have hkey : kf'.1 = kf.1 := (Prod.mk.inj heq).1
          exact absurd (hkey ▸ List.mem_map_of_mem hkf') hkf
        · exact .inr ⟨kf', mem_cons_of_mem _ hkf', b, hbm, rfl⟩
    · rintro (⟨hpm, hne, hnot⟩ | ⟨kf', hkf', b, hb, rfl⟩)
      · exact .inl ⟨(hmem p).mpr (.inr ⟨hpm, hne⟩), hnot⟩
      · obtain rfl | hkf' := mem_cons.mp hkf'
        · obtain rfl := val_unique hb ha
          exact .inl ⟨(hmem _).mpr (.inl rfl), hkf⟩
        · refine .inr ⟨kf', hkf', b, (hmem _).mpr (.inr ⟨hb, fun hkey => ?_⟩), rfl⟩
          exact hkf (hkey ▸ List.mem_map_of_mem hkf')

/-- Updates of keys that have values succeed. -/
theorem updateAll_isSome {l : List (κ × (α → α))} (h : ∀ kf ∈ l, ∃ a, (kf.1, a) ∈ m) :
    ∃ m', m.updateAll l = some m' := by
  induction l generalizing m with
  | nil => exact ⟨m, rfl⟩
  | cons kf l ih =>
    obtain ⟨a, ha⟩ := h kf mem_cons_self
    have hupdate : m.update kf.1 kf.2 = some (m.insert kf.1 (kf.2 a)) := by
      rw [update, get?_eq_some.mpr ha, map_some]
    obtain ⟨m', hm'⟩ := ih (m := m.insert kf.1 (kf.2 a)) fun kf' hkf' => by
      obtain ⟨b, hb⟩ := h kf' (mem_cons_of_mem _ hkf')
      by_cases hkey : kf'.1 = kf.1
      · exact ⟨kf.2 a, mem_insert.mpr (.inl (by rw [hkey]))⟩
      · exact ⟨b, mem_insert.mpr (.inr ⟨hb, hkey⟩)⟩
    exact ⟨m', bind_eq_some_iff.mpr ⟨_, hupdate, hm'⟩⟩

/-- The entries after several removals. -/
theorem mem_removeAll {l : List κ} (h : m.removeAll l = some m') : p ∈ m' ↔ p ∈ m ∧ p.1 ∉ l := by
  induction l generalizing m with
  | nil =>
    cases h
    simp
  | cons k l ih =>
    obtain ⟨m₁, hm₁, hrest⟩ := bind_eq_some_iff.mp h
    obtain ⟨a, -, rfl⟩ := map_eq_some_iff.mp hm₁
    rw [ih hrest, mem_erase, mem_cons, not_or, and_assoc]

/-- Removals of different keys that have values succeed. -/
theorem removeAll_isSome {l : List κ} (hnodup : l.Nodup) (h : ∀ k ∈ l, ∃ a, (k, a) ∈ m) :
    ∃ m', m.removeAll l = some m' := by
  induction l generalizing m with
  | nil => exact ⟨m, rfl⟩
  | cons k l ih =>
    obtain ⟨hk, hnodup⟩ := nodup_cons.mp hnodup
    obtain ⟨a, ha⟩ := h k mem_cons_self
    have hremove : ((m.get? k).map fun _ => m.erase k) = some (m.erase k) := by
      rw [get?_eq_some.mpr ha, map_some]
    obtain ⟨m', hm'⟩ := ih (m := m.erase k) hnodup fun k' hk' => by
      obtain ⟨b, hb⟩ := h k' (mem_cons_of_mem _ hk')
      exact ⟨b, mem_erase.mpr ⟨hb, fun hkey => hk (hkey ▸ hk')⟩⟩
    exact ⟨m', bind_eq_some_iff.mpr ⟨_, hremove, hm'⟩⟩

/-- An entry after several insertions is one of them, or an old one of another key. -/
theorem mem_of_insertAll (hp : p ∈ m.insertAll l) : p ∈ l ∨ (p ∈ m ∧ p.1 ∉ l.map fst) := by
  induction l generalizing m with
  | nil => exact .inr ⟨hp, not_mem_nil⟩
  | cons q l ih =>
    obtain hpl | ⟨hp₁, hnot⟩ := ih hp
    · exact .inl (mem_cons_of_mem _ hpl)
    · obtain rfl | ⟨hpm, hne⟩ := mem_insert.mp hp₁
      · exact .inl mem_cons_self
      · exact .inr ⟨hpm, not_mem_cons_of_ne_of_not_mem hne hnot⟩

theorem mem_insertAll_of_not_mem (hp : p ∈ m) (hnot : p.1 ∉ l.map fst) : p ∈ m.insertAll l := by
  induction l generalizing m with
  | nil => exact hp
  | cons q l ih =>
    obtain ⟨hne, hnot⟩ := not_or.mp (mt mem_cons.mpr hnot)
    exact ih (mem_insert.mpr (.inr ⟨hp, hne⟩)) hnot

theorem mem_insertAll_of_mem (hp : p ∈ l) (hsame : ∀ q ∈ l, q.1 = p.1 → q = p) :
    p ∈ m.insertAll l := by
  induction l generalizing m with
  | nil => cases hp
  | cons q l ih =>
    by_cases hpl : p ∈ l
    · exact ih hpl fun q hq => hsame q (mem_cons_of_mem _ hq)
    -- the last one that is inserted under this key
    obtain rfl := (mem_cons.mp hp).resolve_right hpl
    have hins : p ∈ m.insert p.1 p.2 := mem_insert.mpr (.inl rfl)
    refine mem_insertAll_of_not_mem (m := m.insert p.1 p.2) hins fun hkey => ?_
    obtain ⟨q, hq, hqp⟩ := List.mem_map.mp hkey
    exact hpl (hsame q (mem_cons_of_mem _ hq) hqp ▸ hq)

theorem mem_eraseAll {l : List κ} : p ∈ m.eraseAll l ↔ p ∈ m ∧ p.1 ∉ l := by
  induction l generalizing m with
  | nil => simp [eraseAll]
  | cons k l ih =>
    have herase : m.eraseAll (k :: l) = (m.erase k).eraseAll l := rfl
    rw [herase, ih, mem_erase, mem_cons]
    tauto

theorem entries_eraseAll_range_perm (m : OrdMap κ α) (k k' : κ) :
    m.entries.Perm (m.range k k' ++ (m.eraseAll ((m.range k k').map fst)).entries) := by
  have hrest : ∀ p, p ∈ (m.eraseAll ((m.range k k').map fst)).entries ↔
      p ∈ m ∧ p ∉ m.range k k' := by
    intro p
    rw [← mem_def, mem_eraseAll]
    refine and_congr_right fun hp => not_congr ⟨fun hk => ?_, List.mem_map_of_mem⟩
    obtain ⟨q, hq, hqp⟩ := List.mem_map.mp hk
    obtain ⟨hqm, -⟩ := mem_range.mp hq
    exact (Prod.ext hqp (val_unique (hqp ▸ hqm) hp) : q = p) ▸ hq
  refine (perm_ext_iff_of_nodup m.entries_nodup ?_).mpr fun p => ?_
  · refine (m.entries_nodup.filter _).append (entries_nodup _) fun p hp hp' => ?_
    exact ((hrest p).mp hp').2 hp
  · rw [mem_append, hrest]
    by_cases hp : p ∈ m.range k k'
    · simp [hp, mem_def.mp (mem_range.mp hp).1]
    · simp [hp, mem_def]

end Loops

/-! ## Size -/

theorem size_insert_le : (m.insert k a).size ≤ m.size + 1 := by
  have hsub : (m.insert k a).entries.map fst ⊆ k :: m.entries.map fst := by
    intro k' hk'
    obtain ⟨p, hp, rfl⟩ := List.mem_map.mp hk'
    obtain rfl | ⟨hp, -⟩ := mem_insert.mp hp
    · exact mem_cons_self
    · exact mem_cons_of_mem _ (List.mem_map_of_mem hp)
  simpa [size] using (subperm_of_subset (keys_nodup _) hsub).length_le

end OrdMap

end HvisorRux.Common
