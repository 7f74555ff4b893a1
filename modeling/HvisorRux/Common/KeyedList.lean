import Mathlib.Algebra.Order.Ring.Int
import Mathlib.Algebra.BigOperators.Group.List.Basic
import Mathlib.Data.List.Nodup

/-!
# Lists searched by a key

A linked list whose elements are found, changed and removed by the first match of a key. The
operations only ever touch that element, so projections they do not change keep their value, and
with distinct keys membership afterwards is known exactly.
-/

namespace HvisorRux.Common.KeyedList

open List

variable {α κ β : Type*} [DecidableEq κ] (key : α → κ)

/-- The first element with key `k`. -/
def find (k : κ) (l : List α) : Option α := l.find? fun a => key a = k

/-- Change the first element with key `k`. -/
def modify (k : κ) (f : α → α) : List α → List α
  | [] => []
  | a :: l => if key a = k then f a :: l else a :: modify k f l

/-- Remove the first element with key `k`. -/
def remove (k : κ) (l : List α) : List α := l.eraseP fun a => key a = k

variable {key} {k : κ} {f : α → α} {l : List α} {a : α}

theorem mem_of_find (h : find key k l = some a) : a ∈ l := mem_of_find?_eq_some h

theorem key_of_find (h : find key k l = some a) : key a = k := by
  simpa using find?_some h

theorem find_eq_none : find key k l = none ↔ ∀ a ∈ l, key a ≠ k := by
  simp [find, find?_eq_none]

theorem find_isSome : (find key k l).isSome ↔ k ∈ l.map key := by
  simp [find, find?_isSome]

omit [DecidableEq κ] in
/-- An element with a key of its own is added at the end. -/
theorem nodup_concat (h : (l.map key).Nodup) (hnew : ∀ b ∈ l, key b ≠ key a) :
    ((l ++ [a]).map key).Nodup := by
  rw [map_append, map_singleton, ← concat_eq_append]
  refine h.concat fun hmem => ?_
  obtain ⟨b, hb, heq⟩ := List.mem_map.mp hmem
  exact hnew b hb heq

/-- What the search finds, seen through `g`, depends only on the keys and the values of `g`. -/
theorem map_find_congr {g : α → β} {l l' : List α}
    (h : l'.map (fun a => (key a, g a)) = l.map fun a => (key a, g a)) :
    (find key k l').map g = (find key k l).map g := by
  have hfind : ∀ l : List α, (find key k l).map g =
      ((l.map fun a => (key a, g a)).find? fun p => p.1 = k).map Prod.snd := by
    intro l
    rw [find?_map, Option.map_map]
    rfl
  rw [hfind, hfind, h]

/-! ## Change -/

/-- A projection the change keeps is unchanged throughout. -/
theorem map_modify {g : α → β} (hg : ∀ a, g (f a) = g a) : (modify key k f l).map g = l.map g := by
  induction l with
  | nil => rfl
  | cons a l ih =>
    rw [modify]
    split
    · simp [hg]
    · simp [ih]

/-- Every element afterwards was there before or is a changed one. -/
theorem mem_or_eq_of_mem_modify (ha : a ∈ modify key k f l) : a ∈ l ∨ ∃ b ∈ l, a = f b := by
  induction l with
  | nil => exact .inl ha
  | cons c l ih =>
    rw [modify] at ha
    split at ha
    · obtain rfl | ha := mem_cons.mp ha
      · exact .inr ⟨c, mem_cons_self, rfl⟩
      · exact .inl (mem_cons_of_mem _ ha)
    · obtain rfl | ha := mem_cons.mp ha
      · exact .inl mem_cons_self
      · obtain ha | ⟨b, hb, rfl⟩ := ih ha
        · exact .inl (mem_cons_of_mem _ ha)
        · exact .inr ⟨b, mem_cons_of_mem _ hb, rfl⟩

theorem mem_modify (hnd : (l.map key).Nodup) :
    a ∈ modify key k f l ↔ (a ∈ l ∧ key a ≠ k) ∨ ∃ b ∈ l, key b = k ∧ a = f b := by
  induction l with
  | nil => simp [modify]
  | cons c l ih =>
    rw [map_cons, nodup_cons] at hnd
    rw [modify]
    split
    · next hc =>
      have hrest : ∀ b ∈ l, key b ≠ k := fun b hb h =>
        hnd.1 (hc ▸ h ▸ List.mem_map_of_mem hb)
      constructor
      · intro ha
        rcases mem_cons.mp ha with rfl | ha
        · exact .inr ⟨c, by simp, hc, rfl⟩
        · exact .inl ⟨by simp [ha], hrest a ha⟩
      · rintro (⟨ha, hne⟩ | ⟨b, hb, hbk, rfl⟩)
        · rcases mem_cons.mp ha with rfl | ha
          · exact absurd hc hne
          · simp [ha]
        · rcases mem_cons.mp hb with rfl | hb
          · simp
          · exact absurd hbk (hrest b hb)
    · next hc =>
      rw [mem_cons, ih hnd.2]
      constructor
      · rintro (rfl | ⟨ha, hne⟩ | ⟨b, hb, hbk, rfl⟩)
        · exact .inl ⟨by simp, hc⟩
        · exact .inl ⟨by simp [ha], hne⟩
        · exact .inr ⟨b, by simp [hb], hbk, rfl⟩
      · rintro (⟨ha, hne⟩ | ⟨b, hb, hbk, rfl⟩)
        · rcases mem_cons.mp ha with rfl | ha
          · exact .inl rfl
          · exact .inr (.inl ⟨ha, hne⟩)
        · rcases mem_cons.mp hb with rfl | hb
          · exact absurd hbk hc
          · exact .inr (.inr ⟨b, hb, hbk, rfl⟩)

/-- Searching after a change that keeps the keys. -/
theorem find_modify (hf : ∀ a, key (f a) = key a) (k' : κ) :
    find key k' (modify key k f l) = if k' = k then (find key k' l).map f else find key k' l := by
  induction l with
  | nil => simp [modify, find]
  | cons a l ih =>
    simp only [find] at ih ⊢
    rw [modify]
    by_cases hak : key a = k
    · by_cases hk : k' = k
      · subst hk
        simp [hak, hf]
      · have hne : key a ≠ k' := fun h => hk (h.symm.trans hak)
        rw [if_pos hak, if_neg hk, find?_cons_of_neg (by simpa [hf] using hne),
          find?_cons_of_neg (by simpa using hne)]
    · rw [if_neg hak]
      by_cases hak' : key a = k'
      · have hk : k' ≠ k := fun h => hak (hak'.trans h)
        simp [hak', hk]
      · simp only [find?_cons, hak', decide_false]
        exact ih

/-! ## Removal -/

theorem mem_remove (hnd : (l.map key).Nodup) : a ∈ remove key k l ↔ a ∈ l ∧ key a ≠ k := by
  induction l with
  | nil => simp [remove]
  | cons b l ih =>
    rw [map_cons, nodup_cons] at hnd
    by_cases hb : key b = k
    · have hrest : ∀ c ∈ l, key c ≠ k := fun c hc h =>
        hnd.1 (hb ▸ h ▸ List.mem_map_of_mem hc)
      rw [remove, eraseP_cons_of_pos (by simpa using hb)]
      constructor
      · exact fun ha => ⟨by simp [ha], hrest a ha⟩
      · rintro ⟨ha, hne⟩
        rcases mem_cons.mp ha with rfl | ha
        · exact absurd hb hne
        · exact ha
    · rw [remove, eraseP_cons_of_neg (by simpa using hb), mem_cons]
      have ih := ih hnd.2
      rw [remove] at ih
      rw [ih, mem_cons]
      constructor
      · rintro (rfl | ⟨ha, hne⟩)
        · exact ⟨.inl rfl, hb⟩
        · exact ⟨.inr ha, hne⟩
      · rintro ⟨rfl | ha, hne⟩
        · exact .inl rfl
        · exact .inr ⟨ha, hne⟩

/-- Removal takes one element out of every sum over the list. -/
theorem sum_remove (g : α → ℕ) (h : find key k l = some a) :
    (l.map g).sum = g a + ((remove key k l).map g).sum := by
  induction l with
  | nil => contradiction
  | cons b l ih =>
    rw [find, find?_cons] at h
    split at h
    · next hb =>
      cases h
      rw [remove, eraseP_cons_of_pos (by simpa using hb), map_cons, sum_cons]
    · next hb =>
      have ih := ih h
      rw [remove] at ih ⊢
      rw [eraseP_cons_of_neg (by simp [hb]), map_cons, map_cons, sum_cons, sum_cons]
      omega

end HvisorRux.Common.KeyedList
