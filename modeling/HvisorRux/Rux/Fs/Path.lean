import HvisorRux.Common.NameTree
import Mathlib.Data.List.TakeWhile

/-!
# Paths

A path is a list of characters, and its components are what the slashes separate. `split_path` of
`axfs_ramfs` takes the first component off: it skips the slashes at the start. The components that
this leaves out are empty, and an empty component is a move that stays where it is.
-/

namespace HvisorRux.Rux.Fs

open Common List Option

abbrev Name := List Char

/-- `"."`. -/
def dot : Name := ['.']

/-- `".."`. -/
def dotdot : Name := ['.', '.']

/-- The parts between the slashes. -/
def components (path : List Char) : List Name := path.splitOn '/'

/-- What a component stands for. -/
def moveOf (name : Name) : Move Name :=
  if name = [] ∨ name = dot then .stay
  else if name = dotdot then .up
  else .down name

/-- The moves of a path. -/
def moves (path : List Char) : List (Move Name) := (components path).map moveOf

/-- `split_path`: the first component, and what follows the slash after it. -/
def splitPath (path : List Char) : Name × Option (List Char) :=
  let trimmed := path.dropWhile (· = '/')
  match trimmed.dropWhile (· ≠ '/') with
  | [] => (trimmed, none)
  | _ :: rest => (trimmed.takeWhile (· ≠ '/'), some rest)

variable {path : List Char} {name : Name} {rest : Option (List Char)}

/-- The slashes, the component, and the slash and the rest. -/
theorem splitPath_eq (h : splitPath path = (name, rest)) :
    '/' ∉ name ∧ ∃ k, path = List.replicate k '/' ++ (name ++ (rest.map ('/' :: ·)).getD []) := by
  have hslashes : path.takeWhile (· = '/') = List.replicate (path.takeWhile (· = '/')).length '/' :=
    eq_replicate_iff.mpr ⟨rfl, fun c hc => by simpa using mem_takeWhile_imp hc⟩
  have hpath := takeWhile_append_dropWhile (p := (· = '/')) (l := path)
  rw [hslashes] at hpath
  unfold splitPath at h
  generalize path.dropWhile (· = '/') = trimmed at h hpath
  have htrimmed := takeWhile_append_dropWhile (p := (· ≠ '/')) (l := trimmed)
  dsimp only at h
  split at h
  · next hnil =>
    cases h
    refine ⟨fun hmem => ?_, _, by simpa using hpath.symm⟩
    simpa using dropWhile_eq_nil_iff.mp hnil '/' hmem
  rename_i c rest' hcons
  cases h
  have hc : c = '/' := by
    have hne : trimmed.dropWhile (· ≠ '/') ≠ [] := hcons ▸ cons_ne_nil c rest'
    have hhead := head_dropWhile_not _ hne
    simp only [hcons, head_cons] at hhead
    simpa using hhead
  refine ⟨fun hmem => ?_, (path.takeWhile (· = '/')).length, ?_⟩
  · simpa using mem_takeWhile_imp hmem
  rw [hcons, hc] at htrimmed
  rw [map_some, getD_some, htrimmed]
  exact hpath.symm

/-- What follows is shorter. -/
theorem length_splitPath {rest : List Char} (h : splitPath path = (name, some rest)) :
    rest.length < path.length := by
  obtain ⟨-, k, hpath⟩ := splitPath_eq h
  have hlength := congrArg List.length hpath
  simp only [map_some, getD_some, length_append, length_replicate, length_cons] at hlength
  omega

/-! ## Components -/

/-- The components of a path and of what follows a slash. -/
theorem components_append (xs ys : List Char) :
    components (xs ++ '/' :: ys) = components xs ++ components ys :=
  splitOn_append_cons_self xs ys

theorem components_single (h : '/' ∉ name) : components name = [name] :=
  splitOnP_eq_singleton fun c hc => by simpa using ne_of_mem_of_not_mem hc h

theorem components_replicate (k : ℕ) (path : List Char) :
    components (List.replicate k '/' ++ path) = List.replicate k [] ++ components path := by
  induction k with
  | zero => rfl
  | succ k ih =>
    rw [replicate_succ, replicate_succ, cons_append, cons_append, ← ih]
    exact components_append [] _

/-- A component has no slash. -/
theorem slash_notMem_components (h : name ∈ components path) : '/' ∉ name := by
  induction path generalizing name with
  | nil =>
    obtain rfl := mem_singleton.mp h
    exact not_mem_nil
  | cons c path ih =>
    rw [components, splitOn_cons_eq_if_modifyHead] at h
    split_ifs at h with hc
    · obtain rfl | h := mem_cons.mp h
      · exact not_mem_nil
      · exact ih h
    obtain ⟨x, xs, hsplit⟩ := exists_cons_of_ne_nil (splitOn_ne_nil '/' path)
    rw [hsplit] at h
    have hmem : ∀ y ∈ x :: xs, '/' ∉ y := fun y hy => ih (by rwa [components, hsplit])
    obtain rfl | h := mem_cons.mp h
    · intro hslash
      obtain rfl | hslash := mem_cons.mp hslash
      · exact hc rfl
      · exact hmem x mem_cons_self hslash
    · exact hmem name (mem_cons_of_mem _ h)

/-- The components by `split_path`. -/
theorem components_splitPath (h : splitPath path = (name, rest)) :
    ∃ k, components path = List.replicate k [] ++ name :: (rest.map components).getD [] := by
  obtain ⟨hname, k, hpath⟩ := splitPath_eq h
  refine ⟨k, ?_⟩
  rw [hpath, components_replicate]
  cases rest with
  | none =>
    rw [map_none, getD_none, append_nil, components_single hname]
    rfl
  | some rest =>
    rw [map_some, getD_some, components_append, components_single hname]
    rfl

/-- The first component is the first move, but for those that stay. -/
theorem moves_splitPath (h : splitPath path = (name, rest)) :
    ∃ k, moves path = List.replicate k .stay ++ moveOf name :: (rest.map moves).getD [] := by
  obtain ⟨k, hk⟩ := components_splitPath h
  refine ⟨k, ?_⟩
  rw [moves, hk, map_append, map_replicate]
  cases rest <;> rfl

theorem moves_ne_nil (path : List Char) : moves path ≠ [] := by
  have hsplit : splitPath path = ((splitPath path).1, (splitPath path).2) := rfl
  obtain ⟨k, hk⟩ := moves_splitPath hsplit
  simp [hk]

end HvisorRux.Rux.Fs
