import HvisorRux.Common.Overflow
import HvisorRux.Common.ZeroArray
import HvisorRux.Rux.Fs.Root

/-!
# Open files

`axfs_ramfs/src/file.rs` keeps a file as a vector of bytes. `ruxfs/src/fops.rs` has the open files,
with what they may be used for and a cursor.

Offsets are 64-bit numbers, and how their sums overflow is a parameter. A file can have `room` bytes
at most. Functions are `none` where the kernel panics: on an overflow that is checked, on a slice
out of bounds, and if there is no memory.
-/

namespace HvisorRux.Rux.Fs

open Common

/-! ## Files in memory -/

namespace FileNode

/-- `Vec::resize` to at least the length that is there. -/
def resize (room : ℕ) (content : List UInt8) (n : ℕ) : Option (List UInt8) :=
  if n ≤ room then some (content.take n ++ List.replicate (n - content.length) 0) else none

def truncate (room : ℕ) (content : List UInt8) (size : ℕ) : Option (List UInt8) :=
  if size < content.length then some (content.take size) else resize room content size

/-- `read_at` into a buffer of `n` bytes: the bytes that are read. -/
def readAt (o : Overflow) (content : List UInt8) (offset n : ℕ) : Option (List UInt8) := do
  let stop ← o.add 64 offset n
  let start := min content.length offset
  let stop := min content.length stop
  if start ≤ stop ∧ stop - start ≤ n then some ((content.take stop).drop start) else none

/-- `write_at`: the new content. -/
def writeAt (o : Overflow) (room : ℕ) (content : List UInt8) (offset : ℕ) (buf : List UInt8) :
    Option (List UInt8) := do
  let stop ← o.add 64 offset buf.length
  let content ← if content.length < stop then resize room content stop else some content
  if offset ≤ stop ∧ stop ≤ content.length ∧ stop - offset ≤ buf.length then
    some (content.take offset ++ buf.take (stop - offset) ++ content.drop stop)
  else none

end FileNode

namespace Heap

def setFile (h : Heap) (i : ℕ) (content : List UInt8) : Heap :=
  { h with nodes := Function.update h.nodes i (some (.file content)) }

/-- `get_attr().size()`. -/
def fileSize (h : Heap) (i : ℕ) : ℕ :=
  match h.nodes i with
  | some (.file content) => content.length
  | _ => 4096

def readAt (o : Overflow) (h : Heap) (i offset n : ℕ) : Option (Except VfsError (List UInt8)) :=
  match h.nodes i with
  | some (.file content) => (FileNode.readAt o content offset n).map .ok
  | _ => some (.error .isADirectory)

/-- The content of a file is replaced. -/
def editFile (h : Heap) (i : ℕ) (f : List UInt8 → Option (List UInt8)) :
    Option (Except VfsError Heap) :=
  match h.nodes i with
  | some (.file content) => (f content).map fun content => .ok (h.setFile i content)
  | _ => some (.error .isADirectory)

def writeAt (o : Overflow) (room : ℕ) (h : Heap) (i offset : ℕ) (buf : List UInt8) :
    Option (Except VfsError Heap) :=
  h.editFile i fun content => FileNode.writeAt o room content offset buf

def truncate (room : ℕ) (h : Heap) (i size : ℕ) : Option (Except VfsError Heap) :=
  h.editFile i fun content => FileNode.truncate room content size

end Heap

/-! ## Open files -/

/-- `Cap`. -/
structure Cap where
  read : Bool
  write : Bool
  execute : Bool
deriving DecidableEq, Repr

def Cap.contains (cap other : Cap) : Bool :=
  (other.read → cap.read) ∧ (other.write → cap.write) ∧ (other.execute → cap.execute)

/-- `File`, with the capability of its node. -/
structure File where
  node : ℕ
  cap : Cap
  isAppend : Bool
  offset : ℕ
deriving DecidableEq, Repr

/-- `SeekFrom`. -/
inductive SeekFrom
  | start (pos : ℕ)
  | current (off : ℤ)
  | fromEnd (off : ℤ)

/-- `u64::checked_add_signed`. -/
def checkedAddSigned (n : ℕ) (off : ℤ) : Option ℕ :=
  if 0 ≤ n + off ∧ n + off < 2 ^ 64 then some (n + off).toNat else none

/-- What a call returns: the bytes that were read, the number of bytes that were written, the
position or nothing. -/
inductive Reply
  | bytes (bs : List UInt8)
  | count (n : ℕ)
  | pos (n : ℕ)
  | done
deriving DecidableEq

/-- The nodes and an open file after a call, and what it returns. -/
structure Outcome where
  heap : Heap
  file : File
  result : Except VfsError Reply

namespace File

variable (o : Overflow) (room : ℕ) (h : Heap) (f : File)

def truncate (size : ℕ) : Option Outcome :=
  if f.cap.write then
    match h.truncate room f.node size with
    | none => none
    | some (.error e) => some ⟨h, f, .error e⟩
    | some (.ok h) => some ⟨h, f, .ok .done⟩
  else some ⟨h, f, .error .permissionDenied⟩

def readAt (offset n : ℕ) : Option Outcome :=
  if f.cap.read then (h.readAt o f.node offset n).map fun r => ⟨h, f, r.map .bytes⟩
  else some ⟨h, f, .error .permissionDenied⟩

def read (n : ℕ) : Option Outcome :=
  if f.cap.read then
    match h.readAt o f.node f.offset n with
    | none => none
    | some (.error e) => some ⟨h, f, .error e⟩
    | some (.ok bs) =>
      (o.add 64 f.offset bs.length).map fun offset => ⟨h, { f with offset }, .ok (.bytes bs)⟩
  else some ⟨h, f, .error .permissionDenied⟩

def writeAt (offset : ℕ) (buf : List UInt8) : Option Outcome :=
  if f.cap.write then
    match h.writeAt o room f.node offset buf with
    | none => none
    | some (.error e) => some ⟨h, f, .error e⟩
    | some (.ok h) => some ⟨h, f, .ok (.count buf.length)⟩
  else some ⟨h, f, .error .permissionDenied⟩

/-- A file that is appended to has its cursor set to the end first. -/
def write (buf : List UInt8) : Option Outcome :=
  if f.cap.write then
    let f := if f.isAppend then { f with offset := h.fileSize f.node } else f
    match h.writeAt o room f.node f.offset buf with
    | none => none
    | some (.error e) => some ⟨h, f, .error e⟩
    | some (.ok h) =>
      (o.add 64 f.offset buf.length).map fun offset =>
        ⟨h, { f with offset }, .ok (.count buf.length)⟩
  else some ⟨h, f, .error .permissionDenied⟩

def seekTarget : SeekFrom → Option ℕ
  | .start pos => some pos
  | .current off => checkedAddSigned f.offset off
  | .fromEnd off => checkedAddSigned (h.fileSize f.node) off

def seek (pos : SeekFrom) : Option Outcome :=
  match f.seekTarget h pos with
  | some offset => some ⟨h, { f with offset }, .ok (.pos offset)⟩
  | none => some ⟨h, f, .error .invalidInput⟩

end File

/-- The calls on an open file. -/
inductive FileOp
  | truncate (size : ℕ)
  | read (n : ℕ)
  | readAt (offset n : ℕ)
  | write (buf : List UInt8)
  | writeAt (offset : ℕ) (buf : List UInt8)
  | seek (pos : SeekFrom)

namespace File

def exec (o : Overflow) (room : ℕ) (h : Heap) (f : File) : FileOp → Option Outcome
  | .truncate size => f.truncate room h size
  | .read n => f.read o h n
  | .readAt offset n => f.readAt o h offset n
  | .write buf => f.write o room h buf
  | .writeAt offset buf => f.writeAt o room h offset buf
  | .seek pos => f.seek h pos

/-- A sequence of calls: the nodes, the open file and the results. -/
def execAll (o : Overflow) (room : ℕ) (h : Heap) (f : File) :
    List FileOp → Option (Heap × File × List (Except VfsError Reply))
  | [] => some (h, f, [])
  | op :: ops =>
    match f.exec o room h op with
    | none => none
    | some out =>
      (execAll o room out.heap out.file ops).map fun (h, f, results) =>
        (h, f, out.result :: results)

end File

end HvisorRux.Rux.Fs
