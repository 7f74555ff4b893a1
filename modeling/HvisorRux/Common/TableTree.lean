import HvisorRux.Common.Radix

/-!
# Page tables as radix trees

A radix tree whose entries are words of some format. Memory is a function from frames and indices to
entries, and the frames that an allocator will still hand out are a list. The way to a key ends at
the one entry that can cover it; writing that entry, and linking a fresh table on the way, are the
two changes that page table operations make.
-/

namespace HvisorRux.Common

open Function List

/-- What the words of a format say in a table of each level, and which of them occur there. -/
structure EntryFormat (E F : Type*) where
  unused : E
  decode : ℕ → E → Cell F E
  Valid : ℕ → E → Prop
  decode_unused : ∀ l, decode l unused = .empty
  valid_unused : ∀ l, Valid l unused
  eq_of_decode_leaf : ∀ {l e e'}, decode l e = .leaf e' → e = e'

/-- Entry `i` of frame `f` set to `e`. -/
def setCell {E F : Type*} [DecidableEq F] (mem : F → ℕ → E) (f : F) (i : ℕ) (e : E) : F → ℕ → E :=
  update mem f (update (mem f) i e)

theorem setCell_apply {E F : Type*} [DecidableEq F] (mem : F → ℕ → E) (f₀ : F) (i₀ : ℕ) (e : E)
    (f : F) (i : ℕ) :
    setCell mem f₀ i₀ e f i = if f = f₀ ∧ i = i₀ then e else mem f i := by
  by_cases hf : f = f₀
  · subst hf
    by_cases hi : i = i₀ <;> simp [setCell, update, hi]
  · simp [setCell, update, hf]

variable {E F : Type*} {fmt : EntryFormat E F} {B top : ℕ} {root : F} {mem : F → ℕ → E}
  {frames : List F} {tables : ℕ → ℕ → Option F}

/-- The cells of a memory. -/
def EntryFormat.cell (fmt : EntryFormat E F) (mem : F → ℕ → E) (l : ℕ) (f : F) (i : ℕ) : Cell F E :=
  fmt.decode l (mem f i)

/-- The tables form a tree of valid entries, and the allocator has fresh frames. -/
structure TableTree (fmt : EntryFormat E F) (B top : ℕ) (root : F) (mem : F → ℕ → E)
    (frames : List F) (tables : ℕ → ℕ → Option F) : Prop where
  wf : Radix.Wf B top root (fmt.cell mem) tables
  valid : ∀ {l p f}, tables l p = some f → ∀ i, fmt.Valid l (mem f i)
  fresh : ∀ {l p f}, tables l p = some f → f ∉ frames
  nodup : frames.Nodup

/-- There is a leaf at position `q` of level `l`. -/
abbrev EntryFormat.Holds (fmt : EntryFormat E F) (B : ℕ) (mem : F → ℕ → E)
    (tables : ℕ → ℕ → Option F) (l q : ℕ) (e : E) : Prop :=
  Radix.Holds B (fmt.cell mem) tables l q e

/-- The way to key `k` ends at its entry in table `f` of level `l`. -/
structure WayEnds (fmt : EntryFormat E F) (B : ℕ) (mem : F → ℕ → E) (tables : ℕ → ℕ → Option F)
    (k l : ℕ) (f : F) : Prop where
  table : tables l (k / B ^ (l + 1)) = some f
  stop : ∀ g, fmt.cell mem l f (k / B ^ l % B) ≠ .table g

namespace WayEnds

variable {k l : ℕ} {f : F}

/-- The way ends at the same entry for every key that the entry covers. -/
theorem congr (he : WayEnds fmt B mem tables k l f) {k' : ℕ} (hk : k' / B ^ l = k / B ^ l) :
    WayEnds fmt B mem tables k' l f := by
  refine ⟨?_, by rw [hk]; exact he.stop⟩
  rw [Nat.pow_succ, ← Nat.div_div_eq_div_mul, hk, Nat.div_div_eq_div_mul, ← Nat.pow_succ]
  exact he.table

theorem of_unused (ht : tables l (k / B ^ (l + 1)) = some f)
    (he : mem f (k / B ^ l % B) = fmt.unused) : WayEnds fmt B mem tables k l f := by
  refine ⟨ht, fun g hc => ?_⟩
  rw [EntryFormat.cell, he, fmt.decode_unused] at hc
  cases hc

end WayEnds

namespace TableTree

variable {k l : ℕ} {f : F} {e : E}

/-- A root without entries is a tree without leaves. -/
theorem single (fmt : EntryFormat E F) (B top : ℕ) (hempty : ∀ i, mem root i = fmt.unused)
    (hnodup : (root :: frames).Nodup) :
    ∃ tables, TableTree fmt B top root mem frames tables ∧
      ∀ l q e, ¬fmt.Holds B mem tables l q e := by
  have hcell : ∀ l i, fmt.cell mem l root i = .empty := by
    intro l i
    rw [EntryFormat.cell, hempty, fmt.decode_unused]
  obtain ⟨hwf, hnone⟩ := Radix.Wf.single B top hcell
  have hroot : ∀ {l p f}, Radix.addTable (fun _ _ => none) top 0 root l p = some f → f = root := by
    intro l p f ht
    unfold Radix.addTable at ht
    split at ht <;> cases ht
    rfl
  rw [nodup_cons] at hnodup
  refine ⟨_, ⟨hwf, ?_, ?_, hnodup.2⟩, hnone⟩
  · intro l p f ht i
    rw [hroot ht, hempty]
    exact fmt.valid_unused l
  · intro l p f ht
    rw [hroot ht]
    exact hnodup.1

/-- Where the way to a key ends, there is the only leaf that can cover it. -/
theorem holds_iff (h : TableTree fmt B top root mem frames tables)
    (he : WayEnds fmt B mem tables k l f) {l' : ℕ} :
    fmt.Holds B mem tables l' (k / B ^ l') e ↔
      l' = l ∧ fmt.decode l (mem f (k / B ^ l % B)) = .leaf e :=
  h.wf.holds_iff he.table he.stop

/-- Two leaves that cover one key are the same leaf. -/
theorem holds_unique (h : TableTree fmt B top root mem frames tables) {l' : ℕ} {e' : E}
    (hh : fmt.Holds B mem tables l (k / B ^ l) e)
    (hh' : fmt.Holds B mem tables l' (k / B ^ l') e') : l = l' ∧ e = e' := by
  obtain ⟨f, ht, hc⟩ := hh
  rw [Nat.div_div_eq_div_mul, ← Nat.pow_succ] at ht
  have he : WayEnds fmt B mem tables k l f := by
    refine ⟨ht, fun g hg => ?_⟩
    rw [hc] at hg
    cases hg
  obtain ⟨rfl, hc'⟩ := (h.holds_iff he).mp hh'
  exact ⟨rfl, Cell.leaf.inj (hc.symm.trans hc')⟩

variable [DecidableEq F]

/-- Writing a valid entry that is no pointer where the way to a key ends changes the leaf there and
nothing else. -/
theorem write (h : TableTree fmt B top root mem frames tables) (he : WayEnds fmt B mem tables k l f)
    (hv : fmt.Valid l e) (hnew : ∀ g, fmt.decode l e ≠ .table g) :
    TableTree fmt B top root (setCell mem f (k / B ^ l % B) e) frames tables ∧
      ∀ l' q a, fmt.Holds B (setCell mem f (k / B ^ l % B) e) tables l' q a ↔
        if l' = l ∧ q = k / B ^ l then fmt.decode l e = .leaf a
        else fmt.Holds B mem tables l' q a := by
  have hcell : ∀ l' f' i', fmt.cell (setCell mem f (k / B ^ l % B) e) l' f' i' =
      if f' = f ∧ i' = k / B ^ l % B then fmt.decode l' e else fmt.cell mem l' f' i' := by
    intro l' f' i'
    rw [EntryFormat.cell, setCell_apply]
    exact apply_ite (fmt.decode l') _ _ _
  have hwritten : fmt.cell (setCell mem f (k / B ^ l % B) e) l f (k / B ^ l % B) =
      fmt.decode l e := by
    rw [hcell, if_pos ⟨rfl, rfl⟩]
  have hr : Radix.Replaces B (fmt.cell mem) (fmt.cell (setCell mem f (k / B ^ l % B) e)) tables l
      (k / B ^ l) f := by
    refine ⟨?_, he.stop, ?_, ?_⟩
    · rw [Nat.div_div_eq_div_mul, ← Nat.pow_succ]
      exact he.table
    · rw [hwritten]
      exact hnew
    · intro l' f' i' hne
      rw [hcell, if_neg hne]
  refine ⟨⟨h.wf.replace hr, ?_, h.fresh, h.nodup⟩, ?_⟩
  · intro l' p f' ht i
    rw [setCell_apply]
    split
    · next hc =>
      obtain ⟨rfl, -⟩ := hc
      obtain ⟨rfl, -⟩ := h.wf.inj ht he.table
      exact hv
    · exact h.valid ht i
  · intro l' q a
    rw [EntryFormat.Holds, h.wf.holds_replace hr, hwritten]

/-- Linking a cleared frame of the allocator at an unused entry on the way to a key adds a table and
no leaf. -/
theorem link {frame : F} (h : TableTree fmt B top root mem (frame :: frames) tables)
    (ht : tables (l + 1) (k / B ^ (l + 1 + 1)) = some f)
    (hunused : mem f (k / B ^ (l + 1) % B) = fmt.unused) (hv : fmt.Valid (l + 1) e)
    (hd : fmt.decode (l + 1) e = .table frame) :
    TableTree fmt B top root
        (setCell (update mem frame fun _ => fmt.unused) f (k / B ^ (l + 1) % B) e) frames
        (Radix.addTable tables l (k / B ^ (l + 1)) frame) ∧
      ∀ l' q a,
        fmt.Holds B (setCell (update mem frame fun _ => fmt.unused) f (k / B ^ (l + 1) % B) e)
            (Radix.addTable tables l (k / B ^ (l + 1)) frame) l' q a ↔
          fmt.Holds B mem tables l' q a := by
  have hfresh : ∀ l p, tables l p ≠ some frame := fun l p hc => h.fresh hc mem_cons_self
  have hne : f ≠ frame := fun hc => hfresh _ _ (hc ▸ ht)
  have hnodup := nodup_cons.mp h.nodup
  set mem' := setCell (update mem frame fun _ => fmt.unused) f (k / B ^ (l + 1) % B) e with hmem'
  have hmem : ∀ f' i', mem' f' i' = if f' = f ∧ i' = k / B ^ (l + 1) % B then e
      else if f' = frame then fmt.unused else mem f' i' := by
    intro f' i'
    rw [hmem', setCell_apply]
    by_cases hf' : f' = frame <;> simp [update, hf']
  have hk : Radix.Links B (fmt.cell mem) (fmt.cell mem') tables l (k / B ^ (l + 1)) f frame := by
    refine ⟨hfresh, ?_, ?_, ?_, ?_, ?_⟩
    · rw [Nat.div_div_eq_div_mul, ← Nat.pow_succ]
      exact ht
    · rw [EntryFormat.cell, hunused, fmt.decode_unused]
    · rw [EntryFormat.cell, hmem, if_pos ⟨rfl, rfl⟩, hd]
    · intro l' i'
      rw [EntryFormat.cell, hmem, if_neg fun hc => hne hc.1.symm, if_pos rfl, fmt.decode_unused]
    · intro l' f' i' hc hf'
      rw [EntryFormat.cell, hmem, if_neg hc, if_neg hf', EntryFormat.cell]
  refine ⟨⟨h.wf.link hk, ?_, ?_, hnodup.2⟩, fun _ _ _ => h.wf.holds_link hk⟩
  · intro l' p f' ht' i
    rw [hmem]
    obtain ⟨-, -, rfl⟩ | ⟨ht', hf'⟩ := hk.tables_of_addTable ht'
    · rw [if_neg fun hc => hne hc.1.symm, if_pos rfl]
      exact fmt.valid_unused _
    split
    · next hc =>
      obtain ⟨rfl, -⟩ := hc
      obtain ⟨rfl, -⟩ := h.wf.inj ht' ht
      exact hv
    · exact h.valid ht' i
  · intro l' p f' ht' hin
    obtain ⟨-, -, rfl⟩ | ⟨ht', -⟩ := hk.tables_of_addTable ht'
    · exact hnodup.1 hin
    · exact h.fresh ht' (mem_cons_of_mem _ hin)

end TableTree

/-- The index of an address in a table of 512 entries, from its page number. -/
theorem shiftRight_and_eq (vaddr l : ℕ) :
    (vaddr >>> (12 + 9 * l)) &&& (512 - 1) = vaddr / 4096 / 512 ^ l % 512 := by
  have hpow : 2 ^ (12 + 9 * l) = 4096 * 512 ^ l := by
    rw [Nat.pow_add, Nat.pow_mul]
  rw [show 512 - 1 = 2 ^ 9 - 1 from rfl, Nat.and_two_pow_sub_one_eq_mod,
    Nat.shiftRight_eq_div_pow, hpow, Nat.div_div_eq_div_mul]

end HvisorRux.Common
