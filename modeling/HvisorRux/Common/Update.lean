import Mathlib.Logic.Function.Basic

/-!
# Functions changed at one place

What a value that is read after the change says about the function before it.
-/

namespace HvisorRux.Common

open Function

variable {α β : Type*} [DecidableEq α] {a b b' : α}

section

variable {f : α → β} {x y : β}

/-- What does not hold of the new value holds of an old one. -/
theorem of_update {p : β → Prop} (h : p (update f a x b)) (hx : ¬p x) : b ≠ a ∧ p (f b) := by
  rw [update_apply] at h
  split at h
  · exact absurd h hx
  · next hne => exact ⟨hne, h⟩

theorem of_update_eq (h : update f a x b = y) (hxy : x ≠ y) : b ≠ a ∧ f b = y :=
  of_update (p := (· = y)) h hxy

/-- A value other than the one that is replaced stays. -/
theorem update_eq_of (h : f b = y) (ha : f a ≠ y) : update f a x b = y := by
  rw [update_of_ne, h]
  rintro rfl
  exact ha h

theorem update_eq_iff_of_ne (hxy : x ≠ y) (ha : f a ≠ y) : update f a x b = y ↔ f b = y :=
  ⟨fun h => (of_update_eq h hxy).2, fun h => update_eq_of h ha⟩

end

variable {f g : α → Option β} {x y : β}

/-- Where an entry can be read, if the new one was at no other place before. -/
theorem update_some_cases (hf : ∀ b ≠ a, f b ≠ some x) (h : update f a (some x) b = some y) :
    (b = a ∧ y = x) ∨ (b ≠ a ∧ f b = some y ∧ y ≠ x) := by
  rw [update_apply] at h
  split at h
  · next hb => exact .inl ⟨hb, (Option.some.inj h).symm⟩
  · next hb => exact .inr ⟨hb, h, fun hy => hf b hb (hy ▸ h)⟩

/-- Equal entries of two functions are at the same place after both have got a new one there. -/
theorem update_unique (hf : ∀ b ≠ a, f b ≠ some x) (hg : ∀ b ≠ a, g b ≠ some x)
    (hfg : ∀ {b b'}, b ≠ a → b' ≠ a → f b = some y → g b' = some y → b' = b)
    (h : update f a (some x) b = some y) (h' : update g a (some x) b' = some y) : b' = b := by
  obtain ⟨rfl, rfl⟩ | ⟨hb, h, hne⟩ := update_some_cases hf h <;>
    obtain ⟨rfl, heq⟩ | ⟨hb', h', hne'⟩ := update_some_cases hg h'
  · rfl
  · exact absurd rfl hne'
  · exact absurd heq hne
  · exact hfg hb hb' h h'

end HvisorRux.Common
