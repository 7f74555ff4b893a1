import Mathlib.Data.Set.Finite.Basic

/-!
# Trees of named nodes

A tree is given by the labels at its positions. A position is the list of the names on the way from
the root, the last name first, so that the tail of a position is that of the parent. Some labels are
those of directories, and only these have nodes below them.

`walk` follows moves: to stay, to go up and to go down to a name.

A linked structure has nodes with a child for each name. `nodeAt` is the node at a position, and the
lemmas about it say what adding and removing a child does to the positions of the other nodes.
-/

namespace HvisorRux.Common

open Function List

/-- A tree with names `ν` and labels `α`. -/
structure NameTree (ν α : Type*) (isDir : α → Bool) where
  label : List ν → Option α
  root : ∃ a, label [] = some a ∧ isDir a
  parent : ∀ n p a, label (n :: p) = some a → ∃ b, label p = some b ∧ isDir b
  finite : {p | (label p).isSome}.Finite

/-- A move in a tree. -/
inductive Move (ν : Type*)
  | stay
  | up
  | down (n : ν)
deriving DecidableEq, Repr

inductive WalkError
  | notFound
  | notADirectory
deriving DecidableEq, Repr

namespace NameTree

variable {ν α : Type*} {isDir : α → Bool} {t : NameTree ν α isDir} {p q : List ν} {n : ν} {a : α}
  {ms : List (Move ν)}

/-- There is a directory at the position. -/
def IsDirAt (t : NameTree ν α isDir) (p : List ν) : Prop := ∃ a, t.label p = some a ∧ isDir a

/-- A tree that has its root only. -/
def single (a : α) (h : isDir a) : NameTree ν α isDir where
  label
    | [] => some a
    | _ :: _ => none
  root := ⟨a, rfl, h⟩
  parent _ _ _ hlabel := by cases hlabel
  finite := (Set.finite_singleton []).subset fun p hp => by
    cases p with
    | nil => rfl
    | cons n p => cases hp

/-! ## Walks -/

open Classical in
/-- Where a move leads to. -/
noncomputable def step (t : NameTree ν α isDir) (p : List ν) (m : Move ν) :
    Except WalkError (List ν) :=
  if t.IsDirAt p then
    match m, p with
    | .stay, p => .ok p
    | .up, [] => .error .notFound
    | .up, _ :: p => .ok p
    | .down n, p => if (t.label (n :: p)).isSome then .ok (n :: p) else .error .notFound
  else .error .notADirectory

/-- Where moves lead to. -/
noncomputable def walk (t : NameTree ν α isDir) : List ν → List (Move ν) → Except WalkError (List ν)
  | p, [] => .ok p
  | p, m :: ms =>
    match t.step p m with
    | .error e => .error e
    | .ok q => walk t q ms

open Classical in
/-- All moves but the last one: the directory that the last one starts from, and the last one. -/
noncomputable def approach (t : NameTree ν α isDir) :
    List ν → List (Move ν) → Except WalkError (List ν × Move ν)
  | _, [] => .error .notFound
  | p, [m] => if t.IsDirAt p then .ok (p, m) else .error .notADirectory
  | p, m :: m' :: ms =>
    match t.step p m with
    | .error e => .error e
    | .ok q => approach t q (m' :: ms)

theorem step_of_not_dir (h : ¬ t.IsDirAt p) (m : Move ν) : t.step p m = .error .notADirectory :=
  if_neg h

theorem step_stay (h : t.IsDirAt p) : t.step p .stay = .ok p := by
  rw [step, if_pos h]

theorem step_up_root : t.step [] .up = .error .notFound := by
  have hroot : t.IsDirAt [] := t.root
  rw [step, if_pos hroot]

theorem step_up (h : t.IsDirAt (n :: p)) : t.step (n :: p) .up = .ok p := by
  rw [step, if_pos h]

theorem step_down (h : t.IsDirAt p) (hn : (t.label (n :: p)).isSome) :
    t.step p (.down n) = .ok (n :: p) := by
  rw [step, if_pos h]
  exact if_pos hn

theorem step_down_none (h : t.IsDirAt p) (hn : ¬ (t.label (n :: p)).isSome) :
    t.step p (.down n) = .error .notFound := by
  rw [step, if_pos h]
  exact if_neg hn

theorem approach_of_not_dir (h : ¬ t.IsDirAt p) (m : Move ν) (ms : List (Move ν)) :
    t.approach p (m :: ms) = .error .notADirectory := by
  cases ms with
  | nil => exact if_neg h
  | cons m' ms => rw [approach, step_of_not_dir h]

theorem approach_stays (h : t.IsDirAt p) (k : ℕ) (hms : ms ≠ []) :
    t.approach p (List.replicate k .stay ++ ms) = t.approach p ms := by
  induction k with
  | zero => rfl
  | succ k ih =>
    obtain ⟨m, ms', heq⟩ := exists_cons_of_ne_nil
      (show List.replicate k (Move.stay (ν := ν)) ++ ms ≠ [] by simp [hms])
    rw [replicate_succ, cons_append, heq, approach, step_stay h, ← heq]
    exact ih

/-- The last move starts from a directory. -/
theorem isDirAt_of_approach {m : Move ν} (h : t.approach p ms = .ok (q, m)) : t.IsDirAt q := by
  induction ms generalizing p with
  | nil => cases h
  | cons m' ms ih =>
    cases ms with
    | nil =>
      rw [approach] at h
      split_ifs at h with hdir
      cases h
      exact hdir
    | cons m'' ms =>
      rw [approach] at h
      split at h
      · cases h
      · exact ih h

/-- A walk is the approach and the last move. -/
theorem walk_eq_approach (p : List ν) (m : Move ν) (ms : List (Move ν)) :
    t.walk p (m :: ms) =
      match t.approach p (m :: ms) with
      | .error e => .error e
      | .ok (q, m') => t.step q m' := by
  induction ms generalizing p m with
  | nil =>
    by_cases h : t.IsDirAt p
    · rw [approach, if_pos h, walk]
      show _ = t.step p m
      cases t.step p m <;> rfl
    · rw [approach_of_not_dir h, walk, step_of_not_dir h]
  | cons m' ms ih =>
    rw [walk, approach]
    cases t.step p m with
    | error e => rfl
    | ok q => exact ih q m'

/-! ## Changes -/

open Classical in
/-- A new node, if its parent is a directory and there is none yet. -/
noncomputable def insert (t : NameTree ν α isDir) (n : ν) (p : List ν) (a : α) :
    NameTree ν α isDir :=
  if h : t.IsDirAt p ∧ t.label (n :: p) = none then
    { label := update t.label (n :: p) (some a)
      root := by
        rw [update_of_ne (cons_ne_nil n p).symm]
        exact t.root
      parent := fun m q b hlabel => by
        have hold : ∃ b, t.label q = some b ∧ isDir b := by
          by_cases hmq : m :: q = n :: p
          · obtain ⟨-, rfl⟩ := List.cons.inj hmq
            exact h.1
          · rw [update_of_ne hmq] at hlabel
            exact t.parent m q b hlabel
        have hq : q ≠ n :: p := by
          rintro rfl
          obtain ⟨b, hb, -⟩ := hold
          rw [h.2] at hb
          cases hb
        rwa [update_of_ne hq]
      finite := by
        refine (t.finite.insert (n :: p)).subset fun q hq => ?_
        by_cases heq : q = n :: p
        · exact .inl heq
        · rw [Set.mem_ofPred_eq, update_of_ne heq] at hq
          exact .inr hq }
  else t

open Classical in
/-- A node without nodes below it is removed. -/
noncomputable def erase (t : NameTree ν α isDir) (n : ν) (p : List ν) : NameTree ν α isDir :=
  if h : ∀ m, t.label (m :: n :: p) = none then
    { label := update t.label (n :: p) none
      root := by
        rw [update_of_ne (cons_ne_nil n p).symm]
        exact t.root
      parent := fun m q b hlabel => by
        by_cases hmq : m :: q = n :: p
        · rw [hmq, update_self] at hlabel
          cases hlabel
        rw [update_of_ne hmq] at hlabel
        have hq : q ≠ n :: p := by
          rintro rfl
          rw [h m] at hlabel
          cases hlabel
        rw [update_of_ne hq]
        exact t.parent m q b hlabel
      finite := by
        refine t.finite.subset fun q hq => ?_
        by_cases heq : q = n :: p
        · rw [Set.mem_ofPred_eq, heq, update_self] at hq
          cases hq
        · rwa [Set.mem_ofPred_eq, update_of_ne heq] at hq }
  else t

theorem label_insert [DecidableEq ν] (hdir : t.IsDirAt p) (hfree : t.label (n :: p) = none) :
    (t.insert n p a).label = update t.label (n :: p) (some a) := by
  rw [insert, dif_pos ⟨hdir, hfree⟩]
  congr!

theorem label_erase [DecidableEq ν] (hleaf : ∀ m, t.label (m :: n :: p) = none) :
    (t.erase n p).label = update t.label (n :: p) none := by
  rw [erase, dif_pos hleaf]
  congr!

end NameTree

/-! ## Linked nodes -/

section Links

variable {ι ν : Type*} {child child' : ι → ν → Option ι} {root i j : ι} {p q : List ν} {n : ν}

/-- The node at a position. -/
def nodeAt (child : ι → ν → Option ι) (root : ι) : List ν → Option ι
  | [] => some root
  | n :: p => (nodeAt child root p).bind fun i => child i n

theorem nodeAt_cons (h : nodeAt child root p = some i) :
    nodeAt child root (n :: p) = child i n := by
  rw [nodeAt, h]
  rfl

/-- The child `n` of the node at `p` is replaced: a node is added, or one is taken away. Below it
there is nothing, before and after. -/
theorem nodeAt_update [DecidableEq ι] [DecidableEq ν] {x : Option ι}
    (hinj : ∀ p q i, nodeAt child root p = some i → nodeAt child root q = some i → p = q)
    (hp : nodeAt child root p = some i) (hbelow : ∀ m, nodeAt child root (m :: n :: p) = none)
    (hnew : ∀ j ∈ x, ∀ m, child' j m = none)
    (hchild : ∀ q k, nodeAt child root q = some k → q ≠ n :: p →
      child' k = if k = i then update (child i) n x else child k) (q : List ν) :
    nodeAt child' root q = if q = n :: p then x else nodeAt child root q := by
  induction q with
  | nil => rfl
  | cons m q ih =>
    rw [nodeAt, ih]
    by_cases hq : q = n :: p
    · subst hq
      rw [if_pos rfl, if_neg (by simp), hbelow m]
      cases hx : x with
      | none => rfl
      | some j => exact hnew j hx m
    · rw [if_neg hq]
      cases hqi : nodeAt child root q with
      | none =>
        have hne : m :: q ≠ n :: p := by
          intro heq
          rw [(List.cons.inj heq).2, hp] at hqi
          cases hqi
        rw [if_neg hne, nodeAt, hqi]
        rfl
      | some k =>
        rw [nodeAt_cons hqi, Option.bind_some, hchild q k hqi hq]
        by_cases hki : k = i
        · -- the node itself: only this name is affected
          subst hki
          obtain rfl := hinj q p k hqi hp
          rw [if_pos rfl]
          by_cases hmn : m = n
          · rw [hmn, update_self, if_pos rfl]
          · rw [update_of_ne hmn, if_neg fun h => hmn (List.cons.inj h).1]
        · have hne : m :: q ≠ n :: p := by
            intro heq
            rw [(List.cons.inj heq).2, hp] at hqi
            exact hki (Option.some.inj hqi).symm
          rw [if_neg hki, if_neg hne]

end Links

end HvisorRux.Common
