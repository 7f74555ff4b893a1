import Mathlib.Data.List.Basic

/-!
# Runs of a guarded transition system

A system is given by `step : σ → ε → Option σ`: the event `e` can happen in `s` iff `step s e` is
`some`. Interleavings of several threads are event lists, so one invariant rule serves every
concurrent component. `Reach step ok s₀` collects the states of the runs whose steps all meet the
side condition `ok`; the unconditional case is `ok = fun _ _ => True`.
-/

namespace HvisorRux.Common

variable {σ ε : Type*}

/-- The states reached from `s₀` by runs whose steps all satisfy `ok`. -/
inductive Reach (step : σ → ε → Option σ) (ok : σ → ε → Prop) (s₀ : σ) : σ → Prop
  | refl : Reach step ok s₀ s₀
  | tail {s s' : σ} {e : ε} :
      Reach step ok s₀ s → ok s e → step s e = some s' → Reach step ok s₀ s'

/-- The side condition that every step meets. -/
def anyStep (_ : σ) (_ : ε) : Prop := True

instance (s : σ) (e : ε) : Decidable (anyStep s e) := isTrue trivial

/-- Execute a schedule; `none` as soon as one of its events cannot happen or is not admitted. -/
def run (step : σ → ε → Option σ) (ok : σ → ε → Prop) [∀ s e, Decidable (ok s e)] :
    σ → List ε → Option σ
  | s, [] => some s
  | s, e :: es => if ok s e then (step s e).bind fun s' => run step ok s' es else none

variable {step : σ → ε → Option σ} {ok : σ → ε → Prop} {s₀ s : σ}

/-- Invariant rule: what holds at the start and is kept by every admitted step holds throughout. -/
theorem Reach.invariant (Inv : σ → Prop) (hinit : Inv s₀)
    (hstep : ∀ s e s', Inv s → ok s e → step s e = some s' → Inv s') (h : Reach step ok s₀ s) :
    Inv s := by
  induction h with
  | refl => exact hinit
  | tail _ hok hs ih => exact hstep _ _ _ ih hok hs

/-- A weaker side condition admits more runs. -/
theorem Reach.mono {ok' : σ → ε → Prop} (hok : ∀ s e, ok s e → ok' s e) (h : Reach step ok s₀ s) :
    Reach step ok' s₀ s := by
  induction h with
  | refl => exact .refl
  | tail _ he hs ih => exact ih.tail (hok _ _ he) hs

/-- Reachability composes. -/
theorem Reach.trans {s₁ s₂ : σ} (h₁ : Reach step ok s₀ s₁) (h₂ : Reach step ok s₁ s₂) :
    Reach step ok s₀ s₂ := by
  induction h₂ with
  | refl => exact h₁
  | tail _ hok hs ih => exact ih.tail hok hs

/-- A step that may fail is one that does not. -/
theorem bind_toOption_eq_some {α : Type*} {r : Option (Except ε α)} {a : α} :
    r.bind Except.toOption = some a ↔ r = some (.ok a) := by
  rcases r with _ | _ | _ <;> simp [Except.toOption]

/-- A guarded step of whoever is to take it. -/
theorem of_guarded {α : Type*} {p : Prop} [Decidable p] {o : Option α} {f : α → σ}
    (h : (if p then o.map f else none) = some s) : p ∧ ∃ a, o = some a ∧ f a = s := by
  rwa [Option.ite_none_right_eq_some, Option.map_eq_some_iff] at h

/-- Every schedule that executes is an admitted run. -/
theorem reach_of_run [∀ s e, Decidable (ok s e)] {es : List ε} (h : run step ok s₀ es = some s) :
    Reach step ok s₀ s := by
  induction es generalizing s₀ with
  | nil =>
    rw [run, Option.some.injEq] at h
    exact h ▸ .refl
  | cons e es ih =>
    obtain ⟨hok, hbind⟩ := Option.ite_none_right_eq_some.mp h
    obtain ⟨s₁, hs, hrest⟩ := Option.bind_eq_some_iff.mp hbind
    exact Reach.trans (.tail .refl hok hs) (ih hrest)

/-- What a schedule that is executed says about the state that it reaches. -/
theorem exists_of_run [∀ s e, Decidable (ok s e)] {es : List ε} {α : Type*} {f : σ → α} {a : α}
    (h : (run step ok s₀ es).map f = some a) : ∃ s, Reach step ok s₀ s ∧ f s = a := by
  obtain ⟨s, hs, hfs⟩ := Option.map_eq_some_iff.mp h
  exact ⟨s, reach_of_run hs, hfs⟩

end HvisorRux.Common
