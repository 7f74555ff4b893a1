import HvisorRux.Rux.Fs.Ramfs

/-!
# The root directory

`modules/ruxfs/src/root.rs` has a table of mounted file systems and the current directory. A path
that starts with a slash is resolved by the root directory, which compares its text with the mount
paths. Another path is resolved by the current directory, which is a node of one of the file
systems.

The file systems here are those in memory. Their nodes are in one heap, and a file system is given
by its root node.

All nodes here are writable and searchable by their owner. Functions are `none` where the kernel
panics.
-/

namespace HvisorRux.Rux.Fs

open Common List

/-! ## Text -/

/-- `path.trim_matches('/')`. -/
def trimSlashes (path : List Char) : List Char :=
  ((path.dropWhile (· = '/')).reverse.dropWhile (· = '/')).reverse

theorem length_trimSlashes_le (path : List Char) : (trimSlashes path).length ≤ path.length := by
  unfold trimSlashes
  rw [length_reverse]
  refine (dropWhile_suffix _).length_le.trans ?_
  rw [length_reverse]
  exact (dropWhile_suffix _).length_le

/-- The loop of `canonicalize` at `..`: the last component is taken off the buffer, which has its
last character first. -/
def popComponent : List Char → List Char
  | [] => []
  | ['/'] => ['/']
  | c :: buf => if c = '/' then buf else popComponent buf

/-- A part of the path is added to the buffer of `canonicalize`. To see whether the buffer ends in a
slash, it is cut before its last byte, which panics inside a character of several bytes. -/
def canonicalizePart (isAbsolute : Bool) (buf : List Char) (part : Name) : Option (List Char) :=
  if part = [] ∨ part = dot then some buf
  else if part = dotdot then some (popComponent buf)
  else
    match buf with
    | [] => some (part.reverse ++ if isAbsolute then ['/'] else [])
    | c :: _ =>
      if c.utf8Size ≠ 1 then none
      else some (part.reverse ++ if c = '/' then buf else '/' :: buf)

/-- `axfs_vfs::path::canonicalize`. -/
def canonicalize (path : List Char) : Option (List Char) := do
  let isAbsolute : Bool := path.head? = some '/'
  let buf ← (components path).foldlM (canonicalizePart isAbsolute) []
  some (if isAbsolute && buf.isEmpty then ['/'] else buf.reverse)

/-! ## Mounted file systems -/

/-- A file system that is mounted. -/
structure FileSystem where
  root : ℕ
deriving DecidableEq, Repr

/-- `MountPoint`. -/
structure MountPoint where
  path : List Char
  fs : FileSystem
deriving DecidableEq, Repr

/-- `RootDirectory`. -/
structure RootDirectory where
  mainFs : FileSystem
  mounts : List MountPoint

namespace RootDirectory

/-- The body of the loop over the mount points: the longest path so far and its file system. -/
def longerMount (path : List Char) (best : ℕ × FileSystem) (mp : MountPoint) : ℕ × FileSystem :=
  -- skip the first '/'
  if mp.path.tail <+: path ∧ best.1 < mp.path.length - 1 then (mp.path.length - 1, mp.fs)
  else best

/-- The file system of the longest mount path that the path begins with. -/
def longestMount (r : RootDirectory) (path : List Char) : ℕ × FileSystem :=
  r.mounts.foldl (longerMount path) (0, r.mainFs)

/-- `lookup_mounted_fs`: the file system and the path that it is given. -/
def lookupMountedFs (r : RootDirectory) (path : List Char) : FileSystem × List Char :=
  match _htrim : trimSlashes path with
  | '.' :: '/' :: rest => lookupMountedFs r rest
  | path => ((r.longestMount path).2, path.drop (r.longestMount path).1)
termination_by path.length
decreasing_by
  have hle := length_trimSlashes_le path
  rw [_htrim] at hle
  simp only [length_cons] at hle
  omega

section

variable (r : RootDirectory) (h : Heap) (path : List Char)

/-- `RootDirectory::lookup`. -/
def lookup : Except VfsError ℕ :=
  let (fs, rest) := r.lookupMountedFs path
  h.lookup fs.root rest

/-- `RootDirectory::create`. -/
def create (ty : VfsNodeType) : Except VfsError Heap :=
  let (fs, rest) := r.lookupMountedFs path
  if rest = [] then .ok h else h.create fs.root rest ty

end

end RootDirectory

/-! ## The current directory -/

/-- `CURRENT_DIR`: the root directory, or a directory of a file system. -/
inductive NodeRef
  | rootDir
  | node (i : ℕ)
deriving DecidableEq, Repr

/-- The file systems, and the current directory with its path. -/
structure FsState where
  heap : Heap
  root : RootDirectory
  currentDir : NodeRef
  currentDirPath : List Char

namespace FsState

/-- `init_rootfs`, after the mounts. -/
def init (r : RootDirectory) (h : Heap) : FsState := ⟨h, r, .rootDir, ['/']⟩

/-- `parent_node_of(None, path)`. -/
def parentNodeOf (s : FsState) (path : List Char) : NodeRef :=
  if path.head? = some '/' then .rootDir else s.currentDir

/-- `absolute_path`. -/
def absolutePath (s : FsState) (path : List Char) : Option (List Char) :=
  if path.head? = some '/' then canonicalize path else canonicalize (s.currentDirPath ++ path)

def isDir (h : Heap) (i : ℕ) : Bool :=
  match h.nodes i with
  | some (.dir _) => true
  | _ => false

section

variable (s : FsState)

/-- `lookup` of the node that a path starts from. -/
def lookupFrom (path : List Char) : Except VfsError ℕ :=
  match s.parentNodeOf path with
  | .rootDir => s.root.lookup s.heap path
  | .node i => s.heap.lookup i path

/-- `lookup`. -/
def lookup (path : List Char) : Except VfsError ℕ := do
  if path = [] then .error .notFound
  let node ← s.lookupFrom path
  if path.getLast? = some '/' ∧ ¬ isDir s.heap node then .error .notADirectory
  else .ok node

/-- The outcome of a call that changes the nodes if it succeeds. -/
def commit : Except VfsError Heap → FsState × Except VfsError Unit
  | .ok heap => ({ s with heap }, .ok ())
  | .error e => (s, .error e)

end

end FsState

end HvisorRux.Rux.Fs
