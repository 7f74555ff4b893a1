import Mathlib.Data.List.Basic

/-!
# Linked lists in memory

`next` gives the link that is stored in each node. `Chain next head l` says that the links lead from
`head` through the nodes of `l` to the end. It depends on the links of these nodes only.
-/

namespace HvisorRux.Common

open Function

variable {κ : Type*} {next next' : κ → Option κ} {head : Option κ} {a : κ} {l l' : List κ}

/-- The nodes that the links lead through. -/
def Chain (next : κ → Option κ) : Option κ → List κ → Prop
  | head, [] => head = none
  | head, a :: l => head = some a ∧ Chain next (next a) l

namespace Chain

theorem congr (h : Chain next head l) (hsame : ∀ a ∈ l, next' a = next a) : Chain next' head l := by
  induction l generalizing head with
  | nil => exact h
  | cons a l ih =>
    obtain ⟨rfl, htail⟩ := h
    refine ⟨rfl, ?_⟩
    rw [hsame a List.mem_cons_self]
    exact ih htail fun b hb => hsame b (List.mem_cons_of_mem _ hb)

variable [DecidableEq κ]

/-- A node is put in front. -/
theorem push (h : Chain next head l) (ha : a ∉ l) :
    Chain (update next a head) (some a) (a :: l) := by
  refine ⟨rfl, ?_⟩
  rw [update_self]
  exact h.congr fun b hb => update_of_ne (ne_of_mem_of_not_mem hb ha) ..

/-- The first node is taken away; what becomes of its link does not matter. -/
theorem pop (h : Chain next head (a :: l)) (ha : a ∉ l) (link : Option κ) :
    Chain (update next a link) (next a) l :=
  h.2.congr fun _ hb => update_of_ne (ne_of_mem_of_not_mem hb ha) ..

end Chain

end HvisorRux.Common
