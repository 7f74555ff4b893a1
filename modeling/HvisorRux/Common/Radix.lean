import Mathlib.Algebra.Order.Ring.Nat

/-!
# Radix trees laid out in frames

A tree of tables with `B` entries each, over natural numbers as keys. The table of level `l` for
prefix `p` covers the keys `k` with `k / B ^ (l + 1) = p`; its entry `k / B ^ l % B` covers those
with the same `k / B ^ l`, the entry's position. An entry is empty, holds a leaf or points to a
table of the next lower level.

The memory is given by what it reads as: `cell l f i` is entry `i` of frame `f`, read as a table of
level `l`. `tables` says which frame is the table of a level and a prefix; it is not part of the
memory.
-/

namespace HvisorRux.Common

open Option

/-- What an entry of a table says. -/
inductive Cell (F A : Type*)
  | empty
  | leaf (a : A)
  | table (f : F)

namespace Radix

variable {F A : Type*} {B top : ℕ} {root f : F} {cell cell' : ℕ → F → ℕ → Cell F A}
  {tables : ℕ → ℕ → Option F}

/-- The frames form a tree: every frame is one table, entries point to the tables they cover, and
every table but the root is pointed to. -/
structure Wf (B top : ℕ) (root : F) (cell : ℕ → F → ℕ → Cell F A)
    (tables : ℕ → ℕ → Option F) : Prop where
  root : tables top 0 = some root
  level : ∀ {l p f}, tables l p = some f → l ≤ top
  inj : ∀ {l p l' p' f}, tables l p = some f → tables l' p' = some f → l = l' ∧ p = p'
  bottom : ∀ {p f i g}, tables 0 p = some f → i < B → cell 0 f i ≠ .table g
  child : ∀ {l p f i g}, tables (l + 1) p = some f → i < B → cell (l + 1) f i = .table g →
    tables l (B * p + i) = some g
  parent : ∀ {l q g}, tables l q = some g → l < top →
    ∃ f, tables (l + 1) (q / B) = some f ∧ cell (l + 1) f (q % B) = .table g

/-- There is a leaf at position `q` of level `l`. -/
def Holds (B : ℕ) (cell : ℕ → F → ℕ → Cell F A) (tables : ℕ → ℕ → Option F) (l q : ℕ) (a : A) :
    Prop :=
  ∃ f, tables l (q / B) = some f ∧ cell l f (q % B) = .leaf a

/-- The tables with one more. -/
def addTable (tables : ℕ → ℕ → Option F) (l q : ℕ) (g : F) : ℕ → ℕ → Option F := fun l' q' =>
  if l' = l ∧ q' = q then some g else tables l' q'

/-- A root without entries is a tree without leaves. -/
theorem Wf.single (B top : ℕ) (h : ∀ l i, cell l root i = .empty) :
    Wf B top root cell (addTable (fun _ _ => none) top 0 root) ∧
      ∀ l q a, ¬Holds B cell (addTable (fun _ _ => none) top 0 root) l q a := by
  have hroot : ∀ {l p f}, addTable (fun _ _ => none) top 0 root l p = some f →
      l = top ∧ p = 0 ∧ f = root := by
    intro l p f ht
    unfold addTable at ht
    split at ht
    · next hlp => exact ⟨hlp.1, hlp.2, (some.inj ht).symm⟩
    · cases ht
  constructor
  · refine ⟨if_pos ⟨rfl, rfl⟩, fun ht => le_of_eq (hroot ht).1, ?_, ?_, ?_, ?_⟩
    · intro l p l' p' f ht ht'
      exact ⟨(hroot ht).1.trans (hroot ht').1.symm, (hroot ht).2.1.trans (hroot ht').2.1.symm⟩
    · intro p f i g ht _ hg
      rw [(hroot ht).2.2, h] at hg
      cases hg
    · intro l p f i g ht _ hg
      rw [(hroot ht).2.2, h] at hg
      cases hg
    · intro l q g ht hlt
      exact absurd (hroot ht).1 (Nat.ne_of_lt hlt)
  · rintro l q a ⟨f, ht, hc⟩
    rw [(hroot ht).2.2, h] at hc
    cases hc

/-! ## Descending to a key -/

section Descend

variable (h : Wf B top root cell tables) {k l : ℕ} {f : F}

include h

/-- A pointer on the way to a key leads to the next table on the way. -/
theorem Wf.descend (hB : 0 < B) (ht : tables (l + 1) (k / B ^ (l + 1 + 1)) = some f) {g : F}
    (hc : cell (l + 1) f (k / B ^ (l + 1) % B) = .table g) :
    tables l (k / B ^ (l + 1)) = some g := by
  have hchild := h.child ht (Nat.mod_lt _ hB) hc
  rwa [Nat.pow_succ B (l + 1), ← Nat.div_div_eq_div_mul, Nat.div_add_mod] at hchild

/-- Above a table on the way to a key there are only pointers. -/
theorem Wf.above (ht : tables l (k / B ^ (l + 1)) = some f) {l' : ℕ} (hl : l < l')
    (hl' : l' ≤ top) :
    ∃ f' g, tables l' (k / B ^ (l' + 1)) = some f' ∧ cell l' f' (k / B ^ l' % B) = .table g := by
  have up : ∀ {l f}, l < top → tables l (k / B ^ (l + 1)) = some f →
      ∃ f', tables (l + 1) (k / B ^ (l + 1 + 1)) = some f' ∧
        cell (l + 1) f' (k / B ^ (l + 1) % B) = .table f := by
    intro l f hlt ht
    obtain ⟨f', ht', hc⟩ := h.parent ht hlt
    rw [Nat.div_div_eq_div_mul, ← Nat.pow_succ] at ht'
    exact ⟨f', ht', hc⟩
  induction l', hl using Nat.le_induction with
  | base =>
    obtain ⟨f', ht', hc⟩ := up hl' ht
    exact ⟨f', f, ht', hc⟩
  | succ l' _ ih =>
    obtain ⟨f', -, ht', -⟩ := ih (Nat.le_of_succ_le hl')
    obtain ⟨f'', ht'', hc⟩ := up hl' ht'
    exact ⟨f'', f', ht'', hc⟩

/-- Where the way to a key ends, there is the only leaf that can cover it. -/
theorem Wf.holds_iff (ht : tables l (k / B ^ (l + 1)) = some f)
    (hstop : ∀ g, cell l f (k / B ^ l % B) ≠ .table g) {l' : ℕ} {a : A} :
    Holds B cell tables l' (k / B ^ l') a ↔ l' = l ∧ cell l f (k / B ^ l % B) = .leaf a := by
  unfold Holds
  rw [Nat.div_div_eq_div_mul, ← Nat.pow_succ]
  constructor
  · rintro ⟨f', ht', hc⟩
    rcases Nat.lt_trichotomy l' l with hlt | rfl | hgt
    · obtain ⟨f'', g, ht'', hg⟩ := h.above ht' hlt (h.level ht)
      rw [ht, some.injEq] at ht''
      exact absurd (ht'' ▸ hg) (hstop g)
    · rw [ht, some.injEq] at ht'
      exact ⟨rfl, ht' ▸ hc⟩
    · obtain ⟨f'', g, ht'', hg⟩ := h.above ht hgt (h.level ht')
      rw [ht', some.injEq] at ht''
      rw [← ht'', hc] at hg
      cases hg
  · rintro ⟨rfl, hc⟩
    exact ⟨f, ht, hc⟩

end Descend

/-! ## Replacing an entry -/

section Replace

variable {l₀ q₀ : ℕ} {f₀ : F}

/-- The entry at a position was no pointer and is replaced by one that is none either. -/
structure Replaces (B : ℕ) (cell cell' : ℕ → F → ℕ → Cell F A) (tables : ℕ → ℕ → Option F)
    (l₀ q₀ : ℕ) (f₀ : F) : Prop where
  at_position : tables l₀ (q₀ / B) = some f₀
  old : ∀ g, cell l₀ f₀ (q₀ % B) ≠ .table g
  new : ∀ g, cell' l₀ f₀ (q₀ % B) ≠ .table g
  same : ∀ l f i, ¬(f = f₀ ∧ i = q₀ % B) → cell' l f i = cell l f i

variable (h : Wf B top root cell tables) (hr : Replaces B cell cell' tables l₀ q₀ f₀)

include h hr

/-- In a frame of the tree, an entry is as before unless it is the one at the position. -/
theorem Wf.replaced {l p : ℕ} (ht : tables l p = some f) (i : ℕ) :
    cell' l f i = cell l f i ∨ (l = l₀ ∧ p = q₀ / B ∧ f = f₀ ∧ i = q₀ % B) := by
  by_cases hc : f = f₀ ∧ i = q₀ % B
  · obtain ⟨rfl, rfl⟩ := hc
    obtain ⟨rfl, rfl⟩ := h.inj ht hr.at_position
    exact .inr ⟨rfl, rfl, rfl, rfl⟩
  · exact .inl (hr.same l f i hc)

theorem Wf.replace : Wf B top root cell' tables where
  __ := h
  bottom := by
    intro p f i g ht hi
    obtain hc | ⟨rfl, -, rfl, rfl⟩ := h.replaced hr ht i
    · rw [hc]
      exact h.bottom ht hi
    · exact hr.new g
  child := by
    intro l p f i g ht hi hg
    obtain hc | ⟨rfl, -, rfl, rfl⟩ := h.replaced hr ht i
    · exact h.child ht hi (hc ▸ hg)
    · exact absurd hg (hr.new g)
  parent := by
    intro l q g ht hl
    obtain ⟨f, hf, hg⟩ := h.parent ht hl
    refine ⟨f, hf, ?_⟩
    obtain hc | ⟨rfl, -, rfl, hi⟩ := h.replaced hr hf (q % B)
    · rw [hc, hg]
    · exact absurd (hi ▸ hg) (hr.old g)

/-- The leaf at the position is the new one, the others are as before. -/
theorem Wf.holds_replace {l q : ℕ} {a : A} :
    Holds B cell' tables l q a ↔
      if l = l₀ ∧ q = q₀ then cell' l₀ f₀ (q₀ % B) = .leaf a else Holds B cell tables l q a := by
  split
  · next hlq =>
    obtain ⟨rfl, rfl⟩ := hlq
    constructor
    · rintro ⟨f, hf, hc⟩
      rw [hr.at_position, some.injEq] at hf
      exact hf ▸ hc
    · exact fun hc => ⟨f₀, hr.at_position, hc⟩
  · next hlq =>
    refine exists_congr fun f => and_congr_right fun hf => ?_
    obtain hc | ⟨rfl, hp, rfl, hi⟩ := h.replaced hr hf (q % B)
    · rw [hc]
    · exact absurd ⟨rfl, by rw [← Nat.div_add_mod q B, hp, hi, Nat.div_add_mod]⟩ hlq

end Replace

/-! ## Linking a table -/

section Link

variable {l₀ q₀ : ℕ} {f₀ g₀ : F}

/-- The empty entry at a position becomes a pointer to a fresh table without entries. -/
structure Links (B : ℕ) (cell cell' : ℕ → F → ℕ → Cell F A) (tables : ℕ → ℕ → Option F)
    (l₀ q₀ : ℕ) (f₀ g₀ : F) : Prop where
  fresh : ∀ l p, tables l p ≠ some g₀
  at_position : tables (l₀ + 1) (q₀ / B) = some f₀
  old : cell (l₀ + 1) f₀ (q₀ % B) = .empty
  new : cell' (l₀ + 1) f₀ (q₀ % B) = .table g₀
  empty : ∀ l i, cell' l g₀ i = .empty
  same : ∀ l f i, ¬(f = f₀ ∧ i = q₀ % B) → f ≠ g₀ → cell' l f i = cell l f i

variable (h : Wf B top root cell tables) (hk : Links B cell cell' tables l₀ q₀ f₀ g₀)

include h hk

/-- The tables that were there are still there. -/
theorem Wf.addTable_of_tables {l p : ℕ} (ht : tables l p = some f) :
    addTable tables l₀ q₀ g₀ l p = some f := by
  unfold addTable
  split
  · next hlp =>
    -- nothing was linked at the position, as its entry was empty
    obtain ⟨rfl, rfl⟩ := hlp
    obtain ⟨f', hf', hc⟩ := h.parent ht (h.level hk.at_position)
    rw [hk.at_position, some.injEq] at hf'
    rw [← hf', hk.old] at hc
    cases hc
  · exact ht

omit h in
theorem Links.tables_of_addTable {l p : ℕ} (ht : addTable tables l₀ q₀ g₀ l p = some f) :
    (l = l₀ ∧ p = q₀ ∧ f = g₀) ∨ (tables l p = some f ∧ f ≠ g₀) := by
  unfold addTable at ht
  split at ht
  · next hlp => exact .inl ⟨hlp.1, hlp.2, (some.inj ht).symm⟩
  · exact .inr ⟨ht, fun hf => hk.fresh l p (hf ▸ ht)⟩

/-- In an old frame of the tree, an entry is as before unless it is the one at the position. -/
theorem Wf.linked {l p : ℕ} (ht : tables l p = some f) (i : ℕ) :
    cell' l f i = cell l f i ∨ (l = l₀ + 1 ∧ p = q₀ / B ∧ f = f₀ ∧ i = q₀ % B) := by
  by_cases hc : f = f₀ ∧ i = q₀ % B
  · obtain ⟨rfl, rfl⟩ := hc
    obtain ⟨rfl, rfl⟩ := h.inj ht hk.at_position
    exact .inr ⟨rfl, rfl, rfl, rfl⟩
  · exact .inl (hk.same l f i hc fun hf => hk.fresh l p (hf ▸ ht))

theorem Wf.link : Wf B top root cell' (addTable tables l₀ q₀ g₀) where
  root := h.addTable_of_tables hk h.root
  level := by
    intro l p f ht
    obtain ⟨rfl, -, -⟩ | ⟨ht, -⟩ := hk.tables_of_addTable ht
    · exact Nat.le_of_succ_le (h.level hk.at_position)
    · exact h.level ht
  inj := by
    intro l p l' p' f ht ht'
    obtain ⟨rfl, rfl, rfl⟩ | ⟨ht, hf⟩ := hk.tables_of_addTable ht <;>
      obtain ⟨rfl, rfl, hf'⟩ | ⟨ht', hf'⟩ := hk.tables_of_addTable ht'
    · exact ⟨rfl, rfl⟩
    · exact absurd rfl hf'
    · exact absurd hf' hf
    · exact h.inj ht ht'
  bottom := by
    intro p f i g ht hi hg
    obtain ⟨-, -, rfl⟩ | ⟨ht, -⟩ := hk.tables_of_addTable ht
    · rw [hk.empty] at hg
      cases hg
    · obtain hc | ⟨hl, -⟩ := h.linked hk ht i
      · exact h.bottom ht hi (hc ▸ hg)
      · cases hl
  child := by
    intro l p f i g ht hi hg
    obtain ⟨-, -, rfl⟩ | ⟨ht, -⟩ := hk.tables_of_addTable ht
    · rw [hk.empty] at hg
      cases hg
    obtain hc | ⟨hl, rfl, rfl, rfl⟩ := h.linked hk ht i
    · exact h.addTable_of_tables hk (h.child ht hi (hc ▸ hg))
    · cases hl
      rw [hk.new] at hg
      cases hg
      rw [Nat.div_add_mod, addTable, if_pos ⟨rfl, rfl⟩]
  parent := by
    intro l q g ht hl
    obtain ⟨rfl, rfl, rfl⟩ | ⟨ht, -⟩ := hk.tables_of_addTable ht
    · exact ⟨f₀, h.addTable_of_tables hk hk.at_position, hk.new⟩
    obtain ⟨f, hf, hg⟩ := h.parent ht hl
    refine ⟨f, h.addTable_of_tables hk hf, ?_⟩
    obtain hc | ⟨hl', -, rfl, hi⟩ := h.linked hk hf (q % B)
    · rw [hc, hg]
    · rw [hl', hi, hk.old] at hg
      cases hg

/-- No leaf comes or goes. -/
theorem Wf.holds_link {l q : ℕ} {a : A} :
    Holds B cell' (addTable tables l₀ q₀ g₀) l q a ↔ Holds B cell tables l q a := by
  constructor
  · rintro ⟨f, ht, hc⟩
    obtain ⟨-, -, rfl⟩ | ⟨ht, -⟩ := hk.tables_of_addTable ht
    · rw [hk.empty] at hc
      cases hc
    · obtain hsame | ⟨rfl, -, rfl, hi⟩ := h.linked hk ht (q % B)
      · exact ⟨f, ht, hsame ▸ hc⟩
      · rw [hi, hk.new] at hc
        cases hc
  · rintro ⟨f, ht, hc⟩
    refine ⟨f, h.addTable_of_tables hk ht, ?_⟩
    obtain hsame | ⟨rfl, -, rfl, hi⟩ := h.linked hk ht (q % B)
    · rw [hsame, hc]
    · rw [hi, hk.old] at hc
      cases hc

end Link

end Radix

end HvisorRux.Common
