import HvisorRux.Common.OrdMap
import HvisorRux.Rux.Fs.Path
import Mathlib.Data.List.Lex
import Mathlib.Data.Char

/-!
# The file system in memory

A directory of `axfs_ramfs` has a map from names to nodes and a weak reference to its parent. `Heap`
has the nodes by number, which stand for the reference counted pointers. A node stays in the heap
after it was removed from its directory: who still holds it can go on using it.

`lookup`, `create` and `remove` walk along a path from a node in the same way, and differ in what
they do with its last component. On a file they fail.
-/

namespace HvisorRux.Rux.Fs

open Common List

/-- `VfsError`, as far as it occurs. -/
inductive VfsError
  | notFound
  | notADirectory
  | isADirectory
  | alreadyExists
  | directoryNotEmpty
  | invalidInput
  | permissionDenied
  | unsupported
deriving DecidableEq, Repr

/-- `VfsNodeType`. -/
inductive VfsNodeType
  | file
  | dir
  | other
deriving DecidableEq, Repr

/-- `DirNode`. -/
structure DirNode where
  parent : Option ℕ
  children : OrdMap Name ℕ

inductive Node
  | file (content : List UInt8)
  | dir (d : DirNode)

/-- The nodes. -/
structure Heap where
  nodes : ℕ → Option Node
  next : ℕ

namespace Heap

/-- A new node. -/
def alloc (h : Heap) (node : Node) : Heap :=
  ⟨Function.update h.nodes h.next (some node), h.next + 1⟩

def setDir (h : Heap) (self : ℕ) (d : DirNode) : Heap :=
  { h with nodes := Function.update h.nodes self (some (.dir d)) }

/-- Where a component leads to from a directory. -/
def component (self : ℕ) (d : DirNode) (name : Name) : Except VfsError ℕ :=
  if name = [] ∨ name = dot then .ok self
  else if name = dotdot then
    match d.parent with
    | some parent => .ok parent
    | none => .error .notFound
  else
    match d.children.get? name with
    | some node => .ok node
    | none => .error .notFound

/-- The components but the last one are followed, and `last` is done with the last one in the
directory that they lead to. -/
def alongPath {β : Type} (h : Heap) (last : ℕ → DirNode → Name → Except VfsError β) (self : ℕ)
    (path : List Char) : Except VfsError β :=
  match h.nodes self with
  | some (.dir d) =>
    match _hsplit : splitPath path with
    | (name, some rest) =>
      match component self d name with
      | .error e => .error e
      | .ok node => alongPath h last node rest
    | (name, none) => last self d name
  | _ => .error .notADirectory
termination_by path.length
decreasing_by exact length_splitPath ‹_›

section

variable (h : Heap) (self : ℕ)

def lookup (path : List Char) : Except VfsError ℕ :=
  h.alongPath component self path

def createNode (d : DirNode) (name : Name) (ty : VfsNodeType) : Except VfsError Heap :=
  if (d.children.get? name).isSome then .error .alreadyExists
  else
    match ty with
    | .file => .ok ((h.alloc (.file [])).setDir self
        { d with children := d.children.insert name h.next })
    | .dir => .ok ((h.alloc (.dir ⟨some self, .empty⟩)).setDir self
        { d with children := d.children.insert name h.next })
    | .other => .error .unsupported

/-- A path that ends in an empty component, `.` or `..` names a directory that exists. -/
def create (path : List Char) (ty : VfsNodeType) : Except VfsError Heap :=
  h.alongPath (fun i d name =>
    if name = [] ∨ name = dot ∨ name = dotdot then .ok h else h.createNode i d name ty) self path

def removeNode (d : DirNode) (name : Name) : Except VfsError Heap :=
  match d.children.get? name with
  | none => .error .notFound
  | some node =>
    match h.nodes node with
    | some (.dir d') =>
      if d'.children.entries ≠ [] then .error .directoryNotEmpty
      else .ok (h.setDir self { d with children := d.children.erase name })
    | _ => .ok (h.setDir self { d with children := d.children.erase name })

def remove (path : List Char) : Except VfsError Heap :=
  h.alongPath (fun i d name =>
    if name = [] ∨ name = dot ∨ name = dotdot then .error .invalidInput
    else h.removeNode i d name) self path

end

end Heap

/-- `RamFileSystem`: a heap and the root directory. -/
structure RamFileSystem where
  heap : Heap
  root : ℕ

/-- `RamFileSystem::new`. -/
def RamFileSystem.new : RamFileSystem :=
  ⟨(⟨fun _ => none, 0⟩ : Heap).alloc (.dir ⟨none, .empty⟩), 0⟩

/-- The calls on the root directory. -/
inductive FsCall
  | lookup (path : List Char)
  | create (path : List Char) (ty : VfsNodeType)
  | remove (path : List Char)

/-- The outcome of a call that changes the nodes if it succeeds. -/
def RamFileSystem.commit (fs : RamFileSystem) :
    Except VfsError Heap → RamFileSystem × Except VfsError (Option ℕ)
  | .ok heap => ({ fs with heap }, .ok none)
  | .error e => (fs, .error e)

/-- A call; `lookup` returns a node. -/
def RamFileSystem.exec (fs : RamFileSystem) : FsCall → RamFileSystem × Except VfsError (Option ℕ)
  | .lookup path => (fs, (fs.heap.lookup fs.root path).map some)
  | .create path ty => fs.commit (fs.heap.create fs.root path ty)
  | .remove path => fs.commit (fs.heap.remove fs.root path)

def RamFileSystem.execAll (fs : RamFileSystem) :
    List FsCall → RamFileSystem × List (Except VfsError (Option ℕ))
  | [] => (fs, [])
  | call :: calls =>
    let (fs, outcome) := fs.exec call
    let (fs, outcomes) := execAll fs calls
    (fs, outcome :: outcomes)

/-! ## Listings

`read_dir` of `axfs_ramfs` and that of `axfs_devfs` are the same. Entry 0 is `.`, entry 1 is `..`,
and the children follow in the order of the map. A `Directory` counts the entries that it returned.
An entry has 63 bytes for the name, though a directory accepts names of any length. -/

def Name.asBytes (name : Name) : List UInt8 := name.flatMap String.utf8EncodeChar

/-- A name that an entry gives back. -/
abbrev Name.Fits (name : Name) : Prop := name.asBytes.length ≤ 63 ∧ 0 ∉ name.asBytes

structure VfsDirEntry where
  dType : VfsNodeType
  dName : List UInt8
  length_dName : dName.length = 63

namespace VfsDirEntry

/-- `VfsDirEntry::new`. The slice for a longer name panics. -/
def new (name : Name) (ty : VfsNodeType) : Option VfsDirEntry :=
  if h : name.asBytes.length ≤ 63 then
    some ⟨ty, name.asBytes ++ replicate (63 - name.asBytes.length) 0, by simp; omega⟩
  else none

def nameAsBytes (e : VfsDirEntry) : List UInt8 := e.dName.takeWhile (· ≠ 0)

/-- What a caller gets of an entry. -/
def view (e : VfsDirEntry) : List UInt8 × VfsNodeType := (e.nameAsBytes, e.dType)

theorem new_of_fits {name : Name} (h : name.Fits) (ty : VfsNodeType) :
    ∃ e, new name ty = some e ∧ e.view = (name.asBytes, ty) := by
  refine ⟨_, dif_pos h.1, Prod.ext ?_ rfl⟩
  have hne : ∀ b ∈ name.asBytes, b ≠ 0 := fun b hb hzero => h.2 (hzero ▸ hb)
  exact (takeWhile_append_of_pos (by simpa using hne)).trans (by simp)

end VfsDirEntry

open VfsDirEntry

variable (fileType : ℕ → VfsNodeType)

/-- The loop of `read_dir`, with `n` entries of the buffer left. `none` is a panic. -/
def fill : (n idx : ℕ) → List (Name × ℕ) → Option (List VfsDirEntry)
  | 0, _, _ => some []
  | n + 1, 0, children => return (← new dot .dir) :: (← fill n 1 children)
  | n + 1, 1, children => return (← new dotdot .dir) :: (← fill n 2 children)
  | _ + 1, _ + 2, [] => some []
  | n + 1, idx + 2, (name, node) :: children =>
    return (← new name (fileType node)) :: (← fill n (idx + 3) children)

namespace DirNode

variable (d : DirNode)

/-- The entries that `read_dir` writes. It returns their number. -/
def readDir (startIdx n : ℕ) : Option (List VfsDirEntry) :=
  fill fileType n startIdx (d.children.entries.drop (max startIdx 2 - 2))

/-- The entries of a directory. -/
def listing : List (List UInt8 × VfsNodeType) :=
  (dot.asBytes, .dir) :: (dotdot.asBytes, .dir) ::
    d.children.entries.map fun p => (p.1.asBytes, fileType p.2)

/-- `Directory::read_dir` with buffers of the given sizes, one call after the other, and the entries
that each of them returns. -/
def readDirs : (entryIdx : ℕ) → List ℕ → Option (List (List VfsDirEntry))
  | _, [] => some []
  | entryIdx, n :: sizes => do
    let entries ← d.readDir fileType entryIdx n
    return entries :: (← readDirs (entryIdx + entries.length) sizes)

variable {fileType d} (h : ∀ p ∈ d.children, p.1.Fits)

include h

theorem readDir_view (idx n : ℕ) : ∃ es, d.readDir fileType idx n = some es ∧
    es.map view = ((d.listing fileType).drop idx).take n := by
  induction n generalizing idx with
  | zero => exact ⟨[], by simp [readDir, fill]⟩
  | succ n ih =>
    obtain ⟨es, hes, hviews⟩ := ih (idx + 1)
    unfold readDir at hes ⊢
    match idx with
    | 0 =>
      obtain ⟨e, he, hview⟩ := @new_of_fits dot (by decide) .dir
      exact ⟨e :: es, by simp_all [fill], by simp [hview, hviews, listing]⟩
    | 1 =>
      obtain ⟨e, he, hview⟩ := @new_of_fits dotdot (by decide) .dir
      exact ⟨e :: es, by simp_all [fill], by simp [hview, hviews, listing]⟩
    | idx + 2 =>
      have htail := tail_drop (l := d.children.entries) (i := idx)
      cases hcs : d.children.entries.drop idx with
      | nil => exact ⟨[], by simp [fill, hcs], by simp [listing, ← map_drop, hcs]⟩
      | cons p children =>
        have hp := h p (mem_of_mem_drop (hcs ▸ mem_cons_self))
        obtain ⟨e, he, hview⟩ := new_of_fits hp (fileType p.2)
        exact ⟨e :: es, by simp_all [fill], by simp_all [listing, ← map_drop]⟩

/-- What is left of the listing is returned before an empty answer, and there is one if the calls
are more than the entries. -/
theorem readDirs_lists {sizes : List ℕ} (hsizes : ∀ n ∈ sizes, 1 ≤ n) (idx : ℕ) :
    ∃ results, d.readDirs fileType idx sizes = some results ∧
      (∀ before after, results = before ++ [] :: after →
        before.flatten.map view = (d.listing fileType).drop idx) ∧
      (((d.listing fileType).drop idx).length < sizes.length → [] ∈ results) := by
  induction sizes generalizing idx with
  | nil => exact ⟨[], rfl, by simp, by simp⟩
  | cons n sizes ih =>
    obtain ⟨hn, hsizes⟩ := forall_mem_cons.mp hsizes
    obtain ⟨es, hes, hview⟩ := @readDir_view fileType d h idx n
    obtain ⟨results, hresults, hbefore, hempty⟩ := ih hsizes (idx + es.length)
    refine ⟨es :: results, by simp [readDirs, hes, hresults], ?_, fun hlt => ?_⟩
    · intro before after hsplit
      cases before with
      | nil =>
        cases hsplit
        simpa [Nat.ne_of_gt hn] using hview.symm
      | cons e before =>
        cases hsplit
        rw [flatten_cons, map_append, hbefore _ _ rfl, ← drop_drop, ← length_map, hview]
        exact prefix_iff_eq_append.mp <| take_prefix _ _
    · by_cases hnil : es = []
      · exact mem_cons.mpr (.inl hnil.symm)
      · have hpos := length_pos_of_ne_nil hnil
        have hlength := congrArg length hview
        simp only [length_map, length_take, length_drop, length_cons] at hlength hlt hempty
        exact mem_cons_of_mem _ (hempty (by omega))

omit h in
theorem readDirs_lists_sample : ∃ results, [] ∈ results ∧
    readDirs (fun _ => .file) ⟨none, .insert .empty ['a'] 1⟩ 0 [2, 2, 1, 5] = some results := by
  obtain ⟨results, hresults, -, hempty⟩ := @readDirs_lists (fun _ => .file)
    ⟨none, .insert .empty ['a'] 1⟩ (by decide) [2, 2, 1, 5] (by decide) 0
  exact ⟨results, hempty (by decide), hresults⟩

omit h in
/-- The root accepts a name of 64 bytes, and its listing panics. -/
theorem readDirs_panics : ∃ h d,
    RamFileSystem.new.heap.create 0 (List.replicate 64 'a') .file = .ok h ∧
      h.nodes 0 = some (.dir d) ∧ ∀ fileType, d.readDirs fileType 0 [3] = none :=
  ⟨_, _, by rw [Heap.create, Heap.alongPath]; rfl, rfl, fun _ => rfl⟩

end DirNode

end HvisorRux.Rux.Fs
