import HvisorRux.Rux.Paging.PageTable

/-!
# What the operations change

Each operation in terms of the leaves of the tree: `query` reads the only leaf that covers an
address, `unmap` removes it, and `map` adds one where there was none. Tables that are added on the
way hold no leaves, so a `map` that fails changes none.
-/

namespace HvisorRux.Rux.Paging.PageTable64

open Common GenericPTE LawfulPTE

variable {PTE : Type} [GenericPTE PTE] [LawfulPTE PTE] {pt pt' pt'' : PageTable64 PTE}
  {tables tables' tables'' : ℕ → ℕ → Option ℕ} {k l f vaddr : ℕ} {frames : List (Option ℕ)}
  {size : PageSize}

/-! ## Reading and removing a leaf -/

section

variable (h : pt.Inv tables)

include h

/-- An entry where the way ends is a page unless it is unused. -/
theorem Inv.page_of_ends (he : pt.Ends tables k l f)
    (hused : isUnused (pt.mem f (k / 512 ^ l % 512)) = false) :
    ∃ paddr flags, FrameAddr paddr ∧ Keeps PTE flags ∧
      pt.mem f (k / 512 ^ l % 512) = newPage paddr flags (decide (l ≠ 0)) := by
  obtain he' | ⟨-, paddr, flags, hp, hf, he'⟩ | ⟨hl, g, hg, he'⟩ :=
    h.entry_cases he.table (k / 512 ^ l % 512)
  · rw [Bool.eq_false_iff, Ne, isUnused_iff] at hused
    exact absurd he' hused
  · exact ⟨paddr, flags, hp, hf, he'⟩
  · exact absurd (by rw [EntryFormat.cell, he', decode_newTable hl hg]) (he.stop g)

theorem Inv.not_holds_of_empty (he : pt.Ends tables k l f)
    (hempty : pt.mem f (k / 512 ^ l % 512) = empty) (l' : ℕ) (e : PTE) :
    ¬pt.Holds tables l' (k / 512 ^ l') e := by
  rw [Holds, h.tree.holds_iff he, hempty]
  rintro ⟨-, hc⟩
  rw [decode_empty] at hc
  cases hc

/-- `query` and `unmap` find the leaf that covers an address, or fail if there is none. -/
theorem Inv.find (hv : vaddr < 2 ^ 48) :
    (∃ size f paddr flags, pt.Ends tables (pageNumber vaddr) (PageSize.level size) f ∧
      FrameAddr paddr ∧ Keeps PTE flags ∧
      pt.Holds tables size.level (pageNumber vaddr / 512 ^ size.level)
        (newPage paddr flags size.isHuge) ∧
      pt.query vaddr = .ok (paddr + size.alignOffset vaddr, flags, size) ∧
      pt.unmap vaddr =
        (pt.setEntry ⟨f, pageNumber vaddr / 512 ^ size.level % 512⟩ empty, .ok (paddr, size))) ∨
    ((∀ l e, ¬pt.Holds tables l (pageNumber vaddr / 512 ^ l) e) ∧
      pt.query vaddr = .error .notMapped ∧ pt.unmap vaddr = (pt, .error .notMapped)) := by
  obtain ⟨size, f, hends, hget⟩ | ⟨l, f, hends, hempty, hget⟩ := h.getEntryMut hv
  · cases hu : isUnused (pt.mem f (pageNumber vaddr / 512 ^ size.level % 512)) with
    | true =>
      refine .inr ⟨h.not_holds_of_empty hends (isUnused_iff.mp hu), ?_, ?_⟩
      · simp only [PageTable64.query, hget, entry, hu, if_true]
      · simp only [PageTable64.unmap, hget, entry, hu, if_true]
    | false =>
      obtain ⟨paddr, flags, hp, hf, he⟩ := h.page_of_ends hends hu
      refine .inl ⟨size, f, paddr, flags, hends, hp, hf, ?_, ?_, ?_⟩
      · rw [Holds, h.tree.holds_iff hends, he, decode_newPage hf, PageSize.isHuge_eq]
        exact ⟨rfl, rfl⟩
      · simp only [PageTable64.query, hget, entry, he, isUnused_newPage hf, Bool.false_eq_true,
          if_false, paddr_newPage _ _ hp, flags_newPage hf]
      · simp only [PageTable64.unmap, hget, entry, he, isUnused_newPage hf, Bool.false_eq_true,
          if_false, paddr_newPage _ _ hp]
  · refine .inr ⟨h.not_holds_of_empty hends hempty, ?_, ?_⟩
    · simp only [PageTable64.query, hget]
    · simp only [PageTable64.unmap, hget]

/-- Clearing an entry where the way ends removes the leaf there. -/
theorem Inv.clear (he : pt.Ends tables k l f) :
    (pt.setEntry ⟨f, k / 512 ^ l % 512⟩ empty).Inv tables ∧
      ∀ l' q e, (pt.setEntry ⟨f, k / 512 ^ l % 512⟩ empty).Holds tables l' q e ↔
        pt.Holds tables l' q e ∧ ¬(l' = l ∧ q = k / 512 ^ l) := by
  have hnew : ∀ g, (format PTE).decode l empty ≠ .table g := by
    intro g hc
    rw [decode_empty] at hc
    cases hc
  obtain ⟨htree, hholds⟩ := h.tree.write he (e := empty) .unused hnew
  refine ⟨⟨htree, h.frameAddr⟩, fun l' q e => (hholds l' q e).trans ?_⟩
  rw [decode_empty]
  split
  · next hlq => simp [hlq]
  · next hlq => simp [hlq]

end

/-! ## Adding tables -/

/-- Tables may have been added, but the leaves are as before. -/
structure Grows (pt : PageTable64 PTE) (tables : ℕ → ℕ → Option ℕ) (pt' : PageTable64 PTE)
    (tables' : ℕ → ℕ → Option ℕ) : Prop where
  inv : pt'.Inv tables'
  root : pt'.rootPaddr = pt.rootPaddr
  holds : ∀ l q e, pt'.Holds tables' l q e ↔ pt.Holds tables l q e

theorem Grows.refl (h : pt.Inv tables) : Grows pt tables pt tables :=
  ⟨h, rfl, fun _ _ _ => Iff.rfl⟩

theorem Grows.trans (h : Grows pt tables pt' tables') (h' : Grows pt' tables' pt'' tables'') :
    Grows pt tables pt'' tables'' :=
  ⟨h'.inv, h'.root.trans h.root, fun l q e => (h'.holds l q e).trans (h.holds l q e)⟩

section

variable (h : pt.Inv tables)

include h

/-- Linking a frame at an unused entry on the way to a page. -/
theorem Inv.create (ht : tables (l + 1) (k / 512 ^ (l + 1 + 1)) = some f)
    (hempty : pt.mem f (k / 512 ^ (l + 1) % 512) = empty) {frame : ℕ}
    (hframes : pt.frames = some frame :: frames) :
    Grows pt tables
      (setEntry { pt with mem := Function.update pt.mem frame fun _ => empty, frames }
        ⟨f, k / 512 ^ (l + 1) % 512⟩ (newTable frame))
      (Radix.addTable tables l (k / 512 ^ (l + 1)) frame) := by
  have haddr : FrameAddr frame := by
    apply h.frameAddr
    rw [hframes]
    exact List.mem_cons_self
  have htree := h.tree
  rw [hframes] at htree
  obtain ⟨htree', hholds⟩ := htree.link ht hempty (.table frame (Nat.succ_ne_zero l) haddr)
    (decode_newTable (Nat.succ_ne_zero l) haddr)
  refine ⟨⟨htree', fun f' hf' => h.frameAddr f' ?_⟩, rfl, hholds⟩
  rw [hframes]
  exact List.mem_cons_of_mem _ hf'

/-- An allocation that fails uses up an answer of the allocator. -/
theorem Inv.allocFails (hframes : pt.frames = none :: frames) :
    Grows pt tables { pt with frames } tables := by
  have htree := h.tree
  rw [hframes] at htree
  refine ⟨⟨htree, fun f' hf' => h.frameAddr f' ?_⟩, rfl, fun _ _ _ => Iff.rfl⟩
  rw [hframes]
  exact List.mem_cons_of_mem _ hf'

/-- `next_table_mut_or_create` on the way to a page: if it succeeds, it gives the next table. -/
theorem Inv.nextTableMutOrCreate (ht : tables (l + 1) (k / 512 ^ (l + 1 + 1)) = some f) {i : ℕ}
    (hi : i = k / 512 ^ (l + 1) % 512) {r : Except PagingError ℕ}
    (hr : pt.nextTableMutOrCreate ⟨f, i⟩ = (pt', r)) :
    ∃ tables', Grows pt tables pt' tables' ∧
      ∀ g, r = .ok g → tables' l (k / 512 ^ (l + 1)) = some g := by
  unfold PageTable64.nextTableMutOrCreate at hr
  split at hr
  · next hu =>
    subst hi
    have hempty : pt.mem f (k / 512 ^ (l + 1) % 512) = empty := isUnused_iff.mp hu
    unfold allocTable at hr
    cases hframes : pt.frames with
    | nil =>
      rw [hframes] at hr
      cases hr
      refine ⟨tables, .refl h, fun g hg => ?_⟩
      cases hg
    | cons answer frames =>
      rw [hframes] at hr
      cases answer with
      | none =>
        cases hr
        refine ⟨tables, h.allocFails hframes, fun g hg => ?_⟩
        cases hg
      | some frame =>
        cases hr
        refine ⟨_, h.create ht hempty hframes, fun g hg => ?_⟩
        cases hg
        rw [Radix.addTable, if_pos ⟨rfl, rfl⟩]
  · next hu =>
    cases hr
    refine ⟨tables, .refl h, fun g hg => ?_⟩
    obtain ⟨he, -⟩ | ⟨-, hhuge, -⟩ | ⟨-, -, g', hnext, ht'⟩ := h.next_cases ht hi
    · exact absurd (isUnused_iff.mpr he) hu
    · unfold nextTableMut at hg
      split at hg <;> cases hg
    · rw [hnext] at hg
      cases hg
      exact ht'

/-! ## Mapping a page -/

/-- One step of a walk that creates tables, followed by the rest of the walk. -/
theorem Inv.andThen_nextTable {α : Type} (ht : tables (l + 1) (k / 512 ^ (l + 1 + 1)) = some f)
    {i : ℕ} (hi : i = k / 512 ^ (l + 1) % 512)
    {next : PageTable64 PTE → ℕ → PageTable64 PTE × Except PagingError α} {r : Except PagingError α}
    (hr : andThen (pt.nextTableMutOrCreate ⟨f, i⟩) next = (pt', r)) :
    (∃ tables' e, Grows pt tables pt' tables' ∧ r = .error e) ∨
      ∃ pt₁ tables₁ g, Grows pt tables pt₁ tables₁ ∧ tables₁ l (k / 512 ^ (l + 1)) = some g ∧
        next pt₁ g = (pt', r) := by
  cases hstep : pt.nextTableMutOrCreate ⟨f, i⟩ with
  | mk pt₁ r₁ =>
    obtain ⟨tables₁, hgrow, hg⟩ := h.nextTableMutOrCreate ht hi hstep
    rw [hstep] at hr
    cases r₁ with
    | error e =>
      cases hr
      exact .inl ⟨tables₁, e, hgrow, rfl⟩
    | ok g => exact .inr ⟨pt₁, tables₁, g, hgrow, hg g rfl, hr⟩

/-- `get_entry_mut_or_create` adds no leaf; if it succeeds, it gives the entry for the page. -/
theorem Inv.getEntryMutOrCreate (hv : vaddr < 2 ^ 48)
    {r : Except PagingError Slot} (hr : pt.getEntryMutOrCreate vaddr size = (pt', r)) :
    ∃ tables', Grows pt tables pt' tables' ∧ ∀ slot, r = .ok slot →
      ∃ f, tables' size.level (pageNumber vaddr / 512 ^ (size.level + 1)) = some f ∧
        slot = ⟨f, pageNumber vaddr / 512 ^ size.level % 512⟩ := by
  obtain ⟨tables', e, hgrow, rfl⟩ | ⟨pt₃, tables₃, p3, hgrow₃, ht₃, hr⟩ :=
    h.andThen_nextTable (h.root_table hv) (p4Index_eq vaddr) hr
  · refine ⟨tables', hgrow, fun slot hs => ?_⟩
    cases hs
  split at hr
  · next hsize =>
    cases hr
    refine ⟨tables₃, hgrow₃, fun slot hs => ⟨p3, ?_⟩⟩
    cases hs
    rw [hsize, p3Index_eq]
    exact ⟨ht₃, rfl⟩
  · next hne =>
    obtain ⟨tables', e, hgrow, rfl⟩ | ⟨pt₂, tables₂, p2, hgrow₂, ht₂, hr⟩ :=
      hgrow₃.inv.andThen_nextTable ht₃ (p3Index_eq vaddr) hr
    · refine ⟨tables', hgrow₃.trans hgrow, fun slot hs => ?_⟩
      cases hs
    split at hr
    · next hsize =>
      cases hr
      refine ⟨tables₂, hgrow₃.trans hgrow₂, fun slot hs => ⟨p2, ?_⟩⟩
      cases hs
      rw [hsize, p2Index_eq]
      exact ⟨ht₂, rfl⟩
    · next hne' =>
      have hsize : size = .size4K := by
        cases size
        · rfl
        · exact absurd rfl hne'
        · exact absurd rfl hne
      obtain ⟨tables', e, hgrow, rfl⟩ | ⟨pt₁, tables₁, p1, hgrow₁, ht₁, hr⟩ :=
        hgrow₂.inv.andThen_nextTable ht₂ (p2Index_eq vaddr) hr
      · refine ⟨tables', (hgrow₃.trans hgrow₂).trans hgrow, fun slot hs => ?_⟩
        cases hs
      · cases hr
        refine ⟨tables₁, (hgrow₃.trans hgrow₂).trans hgrow₁, fun slot hs => ⟨p1, ?_⟩⟩
        cases hs
        rw [hsize, p1Index_eq]
        exact ⟨ht₁, rfl⟩

/-- `map` changes no leaf if it fails. If it succeeds, no leaf covered the first address of the page
and one is added. -/
theorem Inv.map (hv : vaddr < 2 ^ 48) {target : ℕ}
    {flags : MappingFlags} (hp : FrameAddr (size.alignDown target)) (hf : Keeps PTE flags)
    {r : Except PagingError Unit} (hr : pt.map vaddr target size flags = (pt', r)) :
    (∃ tables' e, Grows pt tables pt' tables' ∧ r = .error e) ∨
      ∃ tables', r = .ok () ∧ pt'.Inv tables' ∧
        (∀ e, ¬pt.Holds tables size.level (pageNumber vaddr / 512 ^ size.level) e) ∧
        ∀ l q e, pt'.Holds tables' l q e ↔ pt.Holds tables l q e ∨
          (l = size.level ∧ q = pageNumber vaddr / 512 ^ size.level ∧
            e = newPage (size.alignDown target) flags size.isHuge) := by
  unfold PageTable64.map at hr
  cases hstep : pt.getEntryMutOrCreate vaddr size with
  | mk pt₁ r₁ =>
    obtain ⟨tables₁, hgrow, hslot⟩ := h.getEntryMutOrCreate hv hstep
    rw [hstep] at hr
    cases r₁ with
    | error e =>
      cases hr
      exact .inl ⟨tables₁, e, hgrow, rfl⟩
    | ok slot =>
      obtain ⟨f, ht, rfl⟩ := hslot slot rfl
      change (if _ then _ else _) = _ at hr
      split at hr
      · cases hr
        exact .inl ⟨tables₁, _, hgrow, rfl⟩
      rename_i hu
      cases hr
      rw [Bool.not_eq_true', Bool.not_eq_false, isUnused_iff] at hu
      have hempty : pt₁.mem f (pageNumber vaddr / 512 ^ size.level % 512) = empty := hu
      have hends : pt₁.Ends tables₁ (pageNumber vaddr) size.level f := .of_unused ht hempty
      have hnone := hgrow.inv.not_holds_of_empty hends hempty
      have hvalid : ValidEntry size.level (newPage _ flags _ : PTE) :=
        .page (size.alignDown target) flags size.level_le hp hf
      have hleaf := decode_newPage (l := size.level) hf (size.alignDown target)
      rw [← size.isHuge_eq] at hvalid hleaf
      obtain ⟨htree, hholds⟩ := hgrow.inv.tree.write hends hvalid (by
        intro g hc
        rw [hleaf] at hc
        cases hc)
      refine .inr ⟨tables₁, rfl, ⟨htree, hgrow.inv.frameAddr⟩, ?_, fun l q e => ?_⟩
      · intro e hc
        exact hnone _ e ((hgrow.holds _ _ _).mpr hc)
      · refine (hholds l q e).trans ?_
        rw [hleaf]
        split
        · next hlq =>
          obtain ⟨rfl, rfl⟩ := hlq
          have := hnone size.level e
          rw [hgrow.holds] at this
          simp [this, eq_comm]
        · next hlq =>
          have hexcl : ¬(l = size.level ∧ q = pageNumber vaddr / 512 ^ size.level ∧
              e = newPage (size.alignDown target) flags size.isHuge) :=
            fun hc => hlq ⟨hc.1, hc.2.1⟩
          rw [or_iff_left hexcl]
          exact hgrow.holds l q e

end

end HvisorRux.Rux.Paging.PageTable64
