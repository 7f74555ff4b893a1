import HvisorRux.Common.OrdMap
import Mathlib.Algebra.GroupWithZero.Nat

/-!
# Disjoint intervals in an ordered map

Each value of the map occupies the half-open interval from `lo` to `hi`, is filed under `lo`, and
ends before the next one begins. Such a map stays so when entries are removed, when one is put into
a free place, and when entries are cut at given points.
-/

namespace HvisorRux.Common

open OrdMap

open List

variable {κ α : Type*} [LinearOrder κ] (lo hi : α → κ)

/-- The values occupy disjoint intervals and are filed under where they begin. -/
structure Laid (m : OrdMap κ α) : Prop where
  key : ∀ p ∈ m, p.1 = lo p.2
  nonempty : ∀ p ∈ m, lo p.2 < hi p.2
  apart : ∀ p ∈ m, ∀ q ∈ m, p.1 < q.1 → hi p.2 ≤ q.1

/-- Nothing lies between `a` and `b`. -/
def Free (m : OrdMap κ α) (a b : κ) : Prop := ∀ p ∈ m, hi p.2 ≤ a ∨ b ≤ p.1

/-- The entry `p` is what remains of `q` when it is cut at the points `c`. -/
structure PieceOf (c : κ → Prop) (q p : κ × α) : Prop where
  key : p.1 = lo p.2
  nonempty : lo p.2 < hi p.2
  lo_le : lo q.2 ≤ lo p.2
  le_hi : hi p.2 ≤ hi q.2
  begins : lo p.2 = lo q.2 ∨ c (lo p.2)
  uncut : ∀ x, c x → lo p.2 < x → hi p.2 ≤ x

/-- The entry whose interval contains `a`, found as the last one that begins up to `a`. -/
def entryAt (m : OrdMap κ α) (a : κ) : Option (κ × α) :=
  (m.floor? a).filter fun p => decide (a < hi p.2)

/-- The values occupy adjacent intervals, from `a` to `b`. -/
def Adjacent : κ → List α → κ → Prop
  | a, [], b => a = b
  | a, v :: vs, b => lo v = a ∧ Adjacent (hi v) vs b

variable {lo hi} {m m' : OrdMap κ α} {k a b : κ} {v : α} {p q : κ × α}

namespace Laid

theorem empty : Laid lo hi (OrdMap.empty : OrdMap κ α) where
  key _ hp := absurd hp not_mem_empty
  nonempty _ hp := absurd hp not_mem_empty
  apart _ hp := absurd hp not_mem_empty

variable (h : Laid lo hi m)

include h

theorem lt_hi (hp : p ∈ m) : p.1 < hi p.2 :=
  (h.key p hp).trans_lt (h.nonempty p hp)

theorem of_subset (hsub : ∀ p ∈ m', p ∈ m) : Laid lo hi m' where
  key p hp := h.key p (hsub p hp)
  nonempty p hp := h.nonempty p (hsub p hp)
  apart p hp q hq := h.apart p (hsub p hp) q (hsub q hq)

/-- An entry may be put where the others leave room. -/
theorem insert (hkey : k = lo v) (hlt : lo v < hi v)
    (hfree : ∀ p ∈ m, p.1 ≠ k → hi p.2 ≤ k ∨ hi v ≤ p.1) : Laid lo hi (m.insert k v) where
  key p hp := by
    obtain rfl | ⟨hp, -⟩ := mem_insert.mp hp
    · exact hkey
    · exact h.key p hp
  nonempty p hp := by
    obtain rfl | ⟨hp, -⟩ := mem_insert.mp hp
    · exact hlt
    · exact h.nonempty p hp
  apart p hp q hq hpq := by
    obtain rfl | ⟨hp, hpk⟩ := mem_insert.mp hp <;> obtain rfl | ⟨hq, hqk⟩ := mem_insert.mp hq
    · exact absurd hpq (lt_irrefl _)
    · refine (hfree q hq hqk).resolve_left fun hle => ?_
      exact absurd ((h.lt_hi hq).trans_le hle) hpq.not_gt
    · refine (hfree p hp hpk).resolve_right fun hle => ?_
      exact absurd ((hkey.trans_lt hlt).trans_le hle) hpq.not_gt
    · exact h.apart p hp q hq hpq

/-- Pieces of the entries of a map are disjoint again. -/
theorem cut {c : κ → Prop} (hpiece : ∀ p ∈ m', ∃ q ∈ m, PieceOf lo hi c q p) : Laid lo hi m' where
  key p hp := by
    obtain ⟨q, -, hpq⟩ := hpiece p hp
    exact hpq.key
  nonempty p hp := by
    obtain ⟨q, -, hpq⟩ := hpiece p hp
    exact hpq.nonempty
  apart p hp p' hp' hlt := by
    obtain ⟨q, hq, hpq⟩ := hpiece p hp
    obtain ⟨q', hq', hpq'⟩ := hpiece p' hp'
    rw [hpq.key, hpq'.key] at hlt
    rw [hpq'.key]
    obtain hqq | hqq | hqq := lt_trichotomy q.1 q'.1
    · calc hi p.2 ≤ hi q.2 := hpq.le_hi
        _ ≤ q'.1 := h.apart q hq q' hq' hqq
        _ = lo q'.2 := h.key q' hq'
        _ ≤ lo p'.2 := hpq'.lo_le
    · -- two pieces of one entry: the second one begins at a cut
      have hsame : lo q.2 = lo q'.2 := by rw [← h.key q hq, hqq, h.key q' hq']
      obtain hbegin | hbegin := hpq'.begins
      · exact absurd (hpq.lo_le.trans_lt hlt) (by rw [hbegin, hsame]; exact lt_irrefl _)
      · exact hpq.uncut _ hbegin hlt
    · have hback : hi p'.2 ≤ lo p.2 :=
        calc hi p'.2 ≤ hi q'.2 := hpq'.le_hi
          _ ≤ q.1 := h.apart q' hq' q hq hqq
          _ = lo q.2 := h.key q hq
          _ ≤ lo p.2 := hpq.lo_le
      exact absurd (hpq'.nonempty.trans_le hback) hlt.not_gt

/-! ## Free places -/

/-- Entries end in the order in which they begin. -/
theorem hi_le_hi (hp : p ∈ m) (hq : q ∈ m) (hle : q.1 ≤ p.1) : hi q.2 ≤ hi p.2 := by
  obtain hlt | heq := hle.lt_or_eq
  · exact (h.apart q hq p hp hlt).trans (h.lt_hi hp).le
  · have hqp : q = p := Prod.ext heq (val_unique (heq ▸ hq) hp)
    rw [hqp]

/-- The place from `a` to `b` is free if the last entry up to `a` ends before it and the first one
from `a` on begins after it. -/
theorem free_between (hfloor : ∀ p, m.floor? a = some p → hi p.2 ≤ a)
    (hceil : ∀ p, m.ceil? a = some p → b ≤ p.1) : Free hi m a b := by
  intro q hq
  by_cases hqa : q.1 ≤ a
  · left
    cases hp : m.floor? a with
    | none => exact absurd (floor?_eq_none.mp hp q hq) hqa.not_gt
    | some p =>
      obtain ⟨hpm, -, hmax⟩ := floor?_eq_some hp
      exact (h.hi_le_hi hpm hq (hmax q hq hqa)).trans (hfloor p hp)
  · right
    cases hp : m.ceil? a with
    | none => exact absurd (ceil?_eq_none.mp hp q hq) (not_lt.mpr (not_le.mp hqa).le)
    | some p => exact (hceil p hp).trans ((ceil?_eq_some hp).2.2 q hq (not_le.mp hqa).le)

/-- A cursor meets the entries in the order in which they begin. -/
theorem cursor_sorted : (m.cursor k).Pairwise fun p q => lo p.2 < lo q.2 := by
  refine OrdMap.cursor_sorted.imp_of_mem fun {p q} hp hq hpq => ?_
  rw [← h.key p (OrdMap.mem_of_mem_cursor hp), ← h.key q (OrdMap.mem_of_mem_cursor hq)]
  exact hpq

/-- An entry that reaches into the place from `a` on is met by a cursor that starts at `a`, if it
starts at all. -/
theorem mem_cursor_of_overlap (hp : m.floor? a = some p) (hq : q ∈ m)
    (hover : a < hi q.2) : q ∈ m.cursor a := by
  obtain ⟨hpm, hpa, -⟩ := floor?_eq_some hp
  refine (mem_cursor hp).mpr ⟨hq, not_lt.mp fun hqp => ?_⟩
  exact absurd (hover.trans_le ((h.apart q hq p hpm hqp).trans hpa)) (lt_irrefl _)

/-! ## Looking up -/

/-- Entries with a point in common are the same. -/
theorem eq_of_common (hp : p ∈ m) (hq : q ∈ m) (hpa : p.1 ≤ a) (hap : a < hi p.2)
    (hqa : q.1 ≤ a) (haq : a < hi q.2) : p = q := by
  obtain hlt | heq | hlt := lt_trichotomy p.1 q.1
  · exact absurd ((h.apart p hp q hq hlt).trans hqa) hap.not_ge
  · exact Prod.ext heq (val_unique (heq ▸ hp) hq)
  · exact absurd ((h.apart q hq p hp hlt).trans hpa) haq.not_ge

theorem entryAt_eq_some : entryAt hi m a = some p ↔ p ∈ m ∧ p.1 ≤ a ∧ a < hi p.2 := by
  rw [entryAt, Option.filter_eq_some_iff, decide_eq_true_eq]
  constructor
  · rintro ⟨hfloor, hlt⟩
    obtain ⟨hp, hle, -⟩ := floor?_eq_some hfloor
    exact ⟨hp, hle, hlt⟩
  · rintro ⟨hp, hle, hlt⟩
    refine ⟨floor?_eq_some_iff.mpr ⟨hp, hle, fun q hq hqa => not_lt.mp fun hpq => ?_⟩, hlt⟩
    exact absurd ((h.apart p hp q hq hpq).trans hqa) hlt.not_ge

end Laid

/-- A new entry changes nothing in front of it, and nothing behind it if those that begin before it
do not reach there. -/
theorem entryAt_insert (hout : a < k ∨ (hi v ≤ a ∧ ∀ p ∈ m, p.1 ≤ k → hi p.2 ≤ a)) :
    entryAt hi (m.insert k v) a = entryAt hi m a := by
  ext p
  simp only [entryAt, Option.filter_eq_some_iff, floor?_eq_some_iff, decide_eq_true_eq]
  constructor
  · rintro ⟨⟨hp, hpa, hmax⟩, hlt⟩
    obtain rfl | ⟨hpm, hne⟩ := mem_insert.mp hp
    · obtain hak | ⟨hv, -⟩ := hout
      · exact absurd hpa hak.not_ge
      · exact absurd hv hlt.not_ge
    · refine ⟨⟨hpm, hpa, fun q hq hqa => ?_⟩, hlt⟩
      by_cases hqk : q.1 = k
      · exact hqk ▸ hmax (k, v) (mem_insert.mpr (.inl rfl)) (hqk ▸ hqa)
      · exact hmax q (mem_insert.mpr (.inr ⟨hq, hqk⟩)) hqa
  · rintro ⟨⟨hp, hpa, hmax⟩, hlt⟩
    have hbetween : a < k ∨ k < p.1 :=
      hout.imp_right fun hm => not_le.mp fun hpk => (hm.2 p hp hpk).not_gt hlt
    have hne : p.1 ≠ k := hbetween.elim (fun hak => (hpa.trans_lt hak).ne) fun hkp => hkp.ne'
    refine ⟨⟨mem_insert.mpr (.inr ⟨hp, hne⟩), hpa, fun q hq hqa => ?_⟩, hlt⟩
    obtain rfl | ⟨hq, -⟩ := mem_insert.mp hq
    · exact hbetween.elim (fun hak => absurd hqa hak.not_ge) le_of_lt
    · exact hmax q hq hqa

/-! ## Adjacent intervals -/

namespace Adjacent

variable {vs : List α}

omit [LinearOrder κ] in
/-- The last one ends where they all end. -/
theorem exists_last (h : Adjacent lo hi a (v :: vs) b) : ∃ u ∈ v :: vs, hi u = b := by
  induction vs generalizing a v with
  | nil => exact ⟨v, mem_cons_self, h.2⟩
  | cons v' vs ih =>
    obtain ⟨u, hu, hhi⟩ := ih h.2
    exact ⟨u, mem_cons_of_mem _ hu, hhi⟩

/-- A place that none of them reaches into lies in front of all or behind all. -/
theorem outside {x y : κ} (h : Adjacent lo hi a (v :: vs) b) (hxy : x < y)
    (hfree : ∀ u ∈ v :: vs, hi u ≤ x ∨ y ≤ lo u) : b ≤ x ∨ y ≤ a := by
  induction vs generalizing a v with
  | nil =>
    obtain ⟨rfl, rfl⟩ := h
    exact hfree v mem_cons_self
  | cons v' vs ih =>
    obtain ⟨rfl, hrest⟩ := h
    obtain hbehind | hfront := ih hrest fun u hu => hfree u (mem_cons_of_mem _ hu)
    · exact .inl hbehind
    · -- the place does not begin where `v` ends, so it is in front of `v` as well
      refine .inr ((hfree v mem_cons_self).resolve_left fun hle => ?_)
      exact absurd (hxy.trans_le (hfront.trans hle)) (lt_irrefl _)

end Adjacent

/-- Intervals that lie in order between `a` and `b` are as long as the whole place just if every
point of it is in one of them. -/
theorem sum_lengths_eq_iff {ι : Type*} {f g : ι → ℕ} {l : List ι} {a b : ℕ} (hab : a ≤ b)
    (hin : ∀ x ∈ l, a ≤ f x ∧ f x < g x ∧ g x ≤ b) (hsorted : l.Pairwise fun x y => g x ≤ f y) :
    (l.map fun x => g x - f x).sum ≤ b - a ∧ ((l.map fun x => g x - f x).sum = b - a ↔
      ∀ c, a ≤ c → c < b → ∃ x ∈ l, f x ≤ c ∧ c < g x) := by
  induction l generalizing a with
  | nil =>
    refine ⟨Nat.zero_le _, fun hsum c hac hcb => ?_, fun hcover => ?_⟩
    · rw [map_nil, sum_nil] at hsum
      omega
    · by_contra hne
      obtain ⟨x, hx, -⟩ := hcover a le_rfl (by rw [map_nil, sum_nil] at hne; omega)
      cases hx
  | cons x l ih =>
    obtain ⟨hx, hsorted⟩ := pairwise_cons.mp hsorted
    obtain ⟨hax, hlt, hxb⟩ := hin x mem_cons_self
    have hin := fun y hy => hin y (mem_cons_of_mem _ hy)
    obtain ⟨hle, hiff⟩ := ih hxb (fun y hy => ⟨hx y hy, (hin y hy).2⟩) hsorted
    rw [map_cons, sum_cons]
    refine ⟨by omega, fun hsum c hac hcb => ?_, fun hcover => ?_⟩
    · by_cases hc : c < g x
      · exact ⟨x, mem_cons_self, by omega, hc⟩
      · obtain ⟨y, hy, hyc⟩ := hiff.mp (by omega) c (not_lt.mp hc) hcb
        exact ⟨y, mem_cons_of_mem _ hy, hyc⟩
    · -- only the first one can contain `a`, and none of the points behind it
      have hfirst : f x = a := by
        obtain ⟨y, hy, hya, -⟩ := hcover a le_rfl (by omega)
        obtain rfl | hy := mem_cons.mp hy
        · omega
        · have := hx y hy
          omega
      have hrest := hiff.mpr fun c hxc hcb => by
        obtain ⟨y, hy, hyc⟩ := hcover c (by omega) hcb
        obtain rfl | hy := mem_cons.mp hy
        · exact absurd hyc.2 hxc.not_gt
        · exact ⟨y, hy, hyc⟩
      omega

end HvisorRux.Common
