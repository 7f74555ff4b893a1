import Mathlib.Algebra.Order.Ring.Nat
import Mathlib.Data.List.GetD

/-!
# Arrays that are zero beyond their end

An array that grows when it is written beyond its end. It is a size and a function that is zero from
there on, so what is between the old end and what was written needs no rule of its own.
-/

namespace HvisorRux.Common

open List

/-- A sequence with an end, and zeros from there on. -/
@[ext]
structure ZeroArray (α : Type*) [Zero α] where
  size : ℕ
  get : ℕ → α
  zero : ∀ i, size ≤ i → get i = 0

namespace ZeroArray

variable {α : Type*} [Zero α] {a : ZeroArray α} {l bs : List α} {i n start : ℕ}

/-- The array that holds a list. -/
def ofList (l : List α) : ZeroArray α where
  size := l.length
  get i := l.getD i 0
  zero _ hi := getD_eq_default l 0 hi

/-- What is there of the `n` elements from `start`. -/
def read (a : ZeroArray α) (start n : ℕ) : List α :=
  (List.range' start (min (start + n) a.size - start)).map a.get

/-- Write at a place, which may be behind the end. -/
def write (a : ZeroArray α) (start : ℕ) (bs : List α) : ZeroArray α where
  size := max a.size (start + bs.length)
  get i := if start ≤ i ∧ i < start + bs.length then bs.getD (i - start) 0 else a.get i
  zero i hi := by
    rw [if_neg fun hin => absurd hin.2 (not_lt.mpr ((le_max_right ..).trans hi))]
    exact a.zero i ((le_max_left ..).trans hi)

/-- Cut the array off, or make it longer by zeros. -/
def resize (a : ZeroArray α) (n : ℕ) : ZeroArray α where
  size := n
  get i := if i < n then a.get i else 0
  zero _ hi := if_neg (not_lt.mpr hi)

/-- A read stops at the end. -/
theorem read_ofList (l : List α) (start n : ℕ) :
    (ofList l).read start n = (l.take (start + n)).drop start := by
  refine ext_getElem ?_ fun i hi hi' => ?_
  · rw [read, length_map, length_range', length_drop, length_take]
    rfl
  · rw [length_drop, length_take] at hi'
    have hl : start + i < l.length := by omega
    simp only [read, getElem_map, getElem_range', getElem_drop, getElem_take, Nat.one_mul]
    exact getD_eq_getElem l 0 hl

/-- What is added is zero. -/
theorem resize_ofList (l : List α) (n : ℕ) :
    (ofList l).resize n = ofList (l.take n ++ List.replicate (n - l.length) 0) := by
  refine ZeroArray.ext ?_ (funext fun i => ?_)
  · simp only [resize, ofList, length_append, length_take, length_replicate]
    omega
  · simp only [resize, ofList, getD_eq_getElem?_getD, getElem?_append, length_take,
      getElem?_take, getElem?_replicate]
    split_ifs with hn hl hrest hl hrest
    · rfl
    · rw [getElem?_eq_none (by omega)]
      rfl
    · omega
    · omega
    · omega
    · rfl

/-- A write inside the array replaces a part of the list. -/
theorem write_ofList (hfits : start + bs.length ≤ l.length) : (ofList l).write start bs =
      ofList (l.take start ++ bs ++ l.drop (start + bs.length)) := by
  refine ZeroArray.ext ?_ (funext fun i => ?_)
  · simp only [write, ofList, length_append, length_take, length_drop]
    omega
  · simp only [write, ofList, getD_eq_getElem?_getD, getElem?_append, length_append,
      length_take, getElem?_take, getElem?_drop]
    rw [min_eq_left (show start ≤ l.length by omega)]
    split_ifs with hin hlt hleft hlt hleft
    · omega
    · rfl
    · omega
    · rfl
    · omega
    · congr 2
      omega

/-- Space for what is written may be made before. -/
theorem write_resize (hsize : a.size ≤ start + bs.length) :
    (a.resize (start + bs.length)).write start bs = a.write start bs := by
  refine ZeroArray.ext ?_ (funext fun i => ?_)
  · show max (start + bs.length) (start + bs.length) = max a.size (start + bs.length)
    rw [max_self, max_eq_right hsize]
  · simp only [write, resize]
    split_ifs with hin hlt
    · rfl
    · rfl
    · exact (a.zero i (hsize.trans (not_lt.mp hlt))).symm

end ZeroArray

end HvisorRux.Common
