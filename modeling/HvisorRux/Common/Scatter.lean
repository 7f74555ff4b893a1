import Mathlib.Algebra.Order.Ring.Int

/-!
# Scatter-gather lists

A buffer given in pieces is a `List (List α)`. `select` is the usual loop that skips `offset`
elements, then collects at most `need` elements piece by piece; what it collects is a window of the
concatenation, whatever the pieces are. With addresses as elements the same loop serves copies in
both directions; `writeAll` says what a copy to a list of addresses does, which may contain an
address twice.
-/

namespace HvisorRux.Common.Scatter

open Function List

variable {α : Type*}

/-- Collect `need` elements of the pieces after skipping `offset` of them, in front of which `acc`
is already collected; also returns the part of `offset` that the pieces did not cover. -/
def select : List (List α) → ℕ → ℕ → List α → List α × ℕ
  | [], offset, _, acc => (acc, offset)
  | piece :: pieces, offset, need, acc =>
    if offset ≠ 0 ∨ acc.length < need then
      if offset < piece.length then
        select pieces 0 need (acc ++ (piece.drop offset).take (need - acc.length))
      else
        select pieces (offset - piece.length) need acc
    else
      (acc, offset)

/-- Once the offset is consumed, `select` fills up to `need` elements from the front. -/
theorem select_zero (pieces : List (List α)) (need : ℕ) (acc : List α) :
    select pieces 0 need acc = (acc ++ pieces.flatten.take (need - acc.length), 0) := by
  induction pieces generalizing acc with
  | nil => simp [select]
  | cons piece pieces ih =>
    rw [select]
    by_cases hneed : acc.length < need
    · rw [if_pos (.inr hneed)]
      have hempty : ¬ 0 < piece.length → piece = [] := by
        intro h
        exact eq_nil_of_length_eq_zero (by omega)
      split
      · rw [ih, drop_zero, flatten_cons, take_append, append_assoc]
        congr 4
        simp only [length_append, length_take]
        omega
      · next h =>
        rw [hempty h, length_nil, ih]
        rfl
    · rw [if_neg (by omega)]
      have hzero : need - acc.length = 0 := by omega
      rw [hzero, take_zero, append_nil]

/-- **What the loop collects.** The window of the concatenation that starts at `offset`; the offset
is left over exactly when it lies beyond the end. -/
theorem select_eq (pieces : List (List α)) (offset need : ℕ) :
    select pieces offset need [] =
      ((pieces.flatten.drop offset).take need, offset - pieces.flatten.length) := by
  induction pieces generalizing offset with
  | nil => simp [select]
  | cons piece pieces ih =>
    by_cases hoff : offset = 0
    · subst hoff
      rw [select_zero]
      simp
    rw [select, if_pos (.inl hoff), flatten_cons, length_append]
    split
    · next h =>
      rw [select_zero, drop_append_of_le_length h.le, take_append]
      refine Prod.ext ?_ (by simp; omega)
      simp only [nil_append, length_nil, Nat.sub_zero, length_take, length_drop]
      congr 2
      omega
    · next h =>
      have hnil : piece.drop offset = [] := drop_eq_nil_of_le (by omega)
      rw [ih, drop_append, hnil]
      refine Prod.ext rfl ?_
      omega

/-! ## Writing to a list of places -/

section

variable {κ β : Type*} [DecidableEq κ] {f : κ → β} {k : κ} {ks : List κ} {vs : List β}

/-- Write `vs` to the places `ks`, in order. -/
def writeAll (f : κ → β) (ks : List κ) (vs : List β) : κ → β :=
  (ks.zip vs).foldl (fun f kv => update f kv.1 kv.2) f

theorem writeAll_cons (f : κ → β) (k : κ) (ks : List κ) (v : β) (vs : List β) :
    writeAll f (k :: ks) (v :: vs) = writeAll (update f k v) ks vs := rfl

theorem writeAll_of_not_mem (h : k ∉ ks) : writeAll f ks vs k = f k := by
  induction ks generalizing f vs with
  | nil => rfl
  | cons k' ks ih =>
    cases vs with
    | nil => rfl
    | cons v vs =>
      obtain ⟨hne, hnot⟩ := not_or.mp (mt mem_cons.mpr h)
      rw [writeAll_cons, ih hnot, update_of_ne hne]

/-- What is found at one of the places is what was written there, the last time. -/
theorem exists_of_mem_writeAll (h : k ∈ ks) (hlen : ks.length ≤ vs.length) :
    ∃ j : ℕ, ks[j]? = some k ∧ vs[j]? = some (writeAll f ks vs k) := by
  induction ks generalizing f vs with
  | nil => cases h
  | cons k' ks ih =>
    cases vs with
    | nil => exact absurd hlen (Nat.not_succ_le_zero _)
    | cons v vs =>
      rw [writeAll_cons]
      by_cases hmem : k ∈ ks
      · obtain ⟨j, hk, hv⟩ := ih (f := update f k' v) hmem (Nat.le_of_succ_le_succ hlen)
        exact ⟨j + 1, hk, hv⟩
      · obtain rfl := (mem_cons.mp h).resolve_right hmem
        refine ⟨0, rfl, ?_⟩
        rw [writeAll_of_not_mem hmem, update_self]
        rfl

/-- Different places hold what was written to them. -/
theorem map_writeAll (hnodup : ks.Nodup) (hlen : ks.length ≤ vs.length) :
    ks.map (writeAll f ks vs) = vs.take ks.length := by
  induction ks generalizing f vs with
  | nil => rfl
  | cons k ks ih =>
    cases vs with
    | nil => exact absurd hlen (Nat.not_succ_le_zero _)
    | cons v vs =>
      obtain ⟨hnot, hnodup⟩ := nodup_cons.mp hnodup
      rw [writeAll_cons, map_cons, writeAll_of_not_mem hnot, update_self,
        ih hnodup (Nat.le_of_succ_le_succ hlen)]
      rfl

end

end HvisorRux.Common.Scatter
