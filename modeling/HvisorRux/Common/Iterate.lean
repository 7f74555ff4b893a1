import Mathlib.Algebra.Order.Ring.Int

/-!
# Loops as iterated steps

A loop whose termination depends on its input is a step function on its local state, with the final
states as fixed points. `Leads f a b` says that the loop comes from `a` to `b`; a fixed point
reached from `a` is the result of the loop, whatever number of steps it was run for.

A loop over a list whose body can fail is a `foldlM`; what its body keeps holds at the end, for one
loop or two.
-/

namespace HvisorRux.Common

open Function

variable {α : Type*} {f : α → α} {a b c : α}

/-- Iterating `f` leads from `a` to `b`. -/
def Leads (f : α → α) (a b : α) : Prop := ∃ n, f^[n] a = b

theorem Leads.refl (f : α → α) (a : α) : Leads f a a := ⟨0, rfl⟩

/-- Take one step first. -/
theorem Leads.head (h : Leads f (f a) b) : Leads f a b := by
  rcases h with ⟨n, hn⟩
  exact ⟨n + 1, hn⟩

theorem Leads.trans (hab : Leads f a b) (hbc : Leads f b c) : Leads f a c := by
  rcases hab with ⟨m, rfl⟩
  rcases hbc with ⟨n, rfl⟩
  exact ⟨n + m, iterate_add_apply f n m a⟩

/-- A loop has at most one result. -/
theorem Leads.unique (hb : Leads f a b) (hc : Leads f a c) (hfb : f b = b) (hfc : f c = c) :
    b = c := by
  rcases hb with ⟨m, rfl⟩
  rcases hc with ⟨n, rfl⟩
  calc f^[m] a = f^[n] (f^[m] a) := (iterate_fixed hfb n).symm
    _ = f^[m] (f^[n] a) := by rw [← iterate_add_apply, Nat.add_comm, iterate_add_apply]
    _ = f^[n] a := iterate_fixed hfc m

section

variable {σ ι : Type*} {body : σ → ι → Option σ} {l : List ι} {s s' : σ}

/-- Rule for a loop over a list, with an invariant that speaks of what is left of the list. -/
theorem foldlM_rest (Inv : List ι → σ → Prop) (hinit : Inv l s)
    (hbody : ∀ i l s s', Inv (i :: l) s → body s i = some s' → Inv l s')
    (h : l.foldlM body s = some s') : Inv [] s' := by
  induction l generalizing s with
  | nil => exact Option.some.inj h ▸ hinit
  | cons i l ih =>
    obtain ⟨s₁, hs, hrest⟩ := Option.bind_eq_some_iff.mp h
    exact ih (hbody i l s s₁ hinit hs) hrest

/-- Invariant rule for a loop over a list. -/
theorem foldlM_invariant (Inv : σ → Prop) (hinit : Inv s)
    (hbody : ∀ s i s', i ∈ l → Inv s → body s i = some s' → Inv s')
    (h : l.foldlM body s = some s') : Inv s' := by
  refine (foldlM_rest (fun rest s => Inv s ∧ ∀ i ∈ rest, i ∈ l) ⟨hinit, fun _ hi => hi⟩ ?_ h).1
  rintro i rest s s' ⟨hs, hsub⟩ hstep
  refine ⟨hbody s i s' (hsub i List.mem_cons_self) hs hstep, fun j hj => ?_⟩
  exact hsub j (List.mem_cons_of_mem _ hj)

/-- Rule for two loops over one list whose bodies keep a relation and fail together. -/
theorem foldlM_rel {τ : Type*} {R : σ → τ → Prop} {body' : τ → ι → Option τ} {t : τ}
    (hbody : ∀ s t, R s t → ∀ i ∈ l, Option.Rel R (body s i) (body' t i)) (h : R s t) :
    Option.Rel R (l.foldlM body s) (l.foldlM body' t) := by
  induction l generalizing s t with
  | nil => exact .some h
  | cons i l ih =>
    have hi := hbody s t h i List.mem_cons_self
    rw [List.foldlM_cons, List.foldlM_cons]
    generalize body s i = s₁, body' t i = t₁ at hi
    cases hi with
    | none => exact .none
    | some h₁ => exact ih (fun s t h j hj => hbody s t h j (List.mem_cons_of_mem _ hj)) h₁

theorem bind_eq_map_of_rel {τ υ : Type*} {R : σ → τ → Prop} {x : Option σ} {y : Option τ}
    {f : σ → υ} {g : τ → υ} (h : Option.Rel R x y) (hfg : ∀ s t, R s t → f s = g t) :
    (x.bind fun s => some (f s)) = y.map g := by
  cases h with
  | none => rfl
  | some h => exact congrArg some (hfg _ _ h)

end

end HvisorRux.Common
