import HvisorRux.Rux.Fs.File
import Mathlib.Data.UInt

/-!
# A file is an array of bytes

What an open file is for: an array of bytes that is zero beyond its end, and a cursor. The vector
in memory does what the array does, unless a read reaches beyond the last offset there is: then the
sum of offset and length overflows, although nothing would be read there.
-/

namespace HvisorRux.Rux.Fs

open Common List Option ZeroArray

/-- An open file as an array with a cursor. -/
@[ext]
structure ArrayFile where
  array : ZeroArray UInt8
  pos : ℕ
  canRead : Bool
  canWrite : Bool
  append : Bool

namespace ArrayFile

/-- Where a write without an offset starts. -/
def writePos (a : ArrayFile) : ℕ := if a.append then a.array.size else a.pos

def seekTarget (a : ArrayFile) : SeekFrom → Option ℕ
  | .start pos => some pos
  | .current off => checkedAddSigned a.pos off
  | .fromEnd off => checkedAddSigned a.array.size off

/-- What a call should do. -/
def exec (a : ArrayFile) : FileOp → ArrayFile × Except VfsError Reply
  | .truncate size =>
    if a.canWrite then ({ a with array := a.array.resize size }, .ok .done)
    else (a, .error .permissionDenied)
  | .read n =>
    if a.canRead then
      ({ a with pos := a.pos + (a.array.read a.pos n).length }, .ok (.bytes (a.array.read a.pos n)))
    else (a, .error .permissionDenied)
  | .readAt offset n =>
    if a.canRead then (a, .ok (.bytes (a.array.read offset n))) else (a, .error .permissionDenied)
  | .write buf =>
    if a.canWrite then
      ({ a with array := a.array.write a.writePos buf, pos := a.writePos + buf.length },
        .ok (.count buf.length))
    else (a, .error .permissionDenied)
  | .writeAt offset buf =>
    if a.canWrite then
      ({ a with array := a.array.write offset buf }, .ok (.count buf.length))
    else (a, .error .permissionDenied)
  | .seek pos =>
    match a.seekTarget pos with
    | some target => ({ a with pos := target }, .ok (.pos target))
    | none => (a, .error .invalidInput)

def execAll (a : ArrayFile) : List FileOp → ArrayFile × List (Except VfsError Reply)
  | [] => (a, [])
  | op :: ops =>
    let (a, result) := a.exec op
    let (a, results) := execAll a ops
    (a, result :: results)

/-- What is written stays in the memory that there is, and a read ends at an offset. -/
def OpOk (room : ℕ) (a : ArrayFile) : FileOp → Prop
  | .truncate size => size ≤ room
  | .read n => a.pos + n < 2 ^ 64
  | .readAt offset n => offset + n < 2 ^ 64
  | .write buf => a.writePos + buf.length ≤ room
  | .writeAt offset buf => offset + buf.length ≤ room
  | .seek _ => True

def OpsOk (room : ℕ) (a : ArrayFile) : List FileOp → Prop
  | [] => True
  | op :: ops => a.OpOk room op ∧ (a.exec op).1.OpsOk room ops

end ArrayFile

/-! ## Bytes -/

namespace FileNode

variable {o : Overflow} {room : ℕ} {content buf : List UInt8} {offset n size : ℕ}

theorem resize_eq (content : List UInt8) (h : n ≤ room) :
    ∃ content', resize room content n = some content' ∧
      ofList content' = (ofList content).resize n :=
  ⟨_, if_pos h, (resize_ofList content n).symm⟩

theorem truncate_eq (content : List UInt8) (h : size ≤ room) :
    ∃ content', truncate room content size = some content' ∧
      ofList content' = (ofList content).resize size := by
  by_cases hlt : size < content.length
  · refine ⟨content.take size, if_pos hlt, ?_⟩
    rw [resize_ofList, Nat.sub_eq_zero_of_le hlt.le, replicate_zero, append_nil]
  · obtain ⟨content', hcontent', harray⟩ := resize_eq content h
    exact ⟨content', (if_neg hlt).trans hcontent', harray⟩

theorem add_eq (h : offset + n < 2 ^ 64) : o.add 64 offset n = some (offset + n) := if_pos h

theorem readAt_eq (h : offset + n < 2 ^ 64) :
    readAt o content offset n = some ((ofList content).read offset n) := by
  unfold readAt
  rw [add_eq h]
  dsimp only [bind_eq_bind, bind_some]
  rw [if_pos (by omega), read_ofList, min_comm content.length (offset + n), ← take_eq_take_min]
  refine congrArg some ?_
  by_cases hle : offset ≤ content.length
  · rw [min_eq_right hle]
  · -- beyond the end
    have hlength : (content.take (offset + n)).length ≤ content.length := length_take_le' ..
    rw [min_eq_left (not_le.mp hle).le, drop_eq_nil_of_le hlength,
      drop_eq_nil_of_le (hlength.trans (not_le.mp hle).le)]

theorem splice_eq (h : offset + buf.length ≤ content.length) :
    (if offset ≤ offset + buf.length ∧ offset + buf.length ≤ content.length ∧
        offset + buf.length - offset ≤ buf.length then
      some (content.take offset ++ buf.take (offset + buf.length - offset) ++
        content.drop (offset + buf.length))
    else none) = some (content.take offset ++ buf ++ content.drop (offset + buf.length)) := by
  rw [if_pos ⟨by omega, h, by omega⟩, Nat.add_sub_cancel_left, take_length]

theorem writeAt_eq (content : List UInt8) (hroom : room < 2 ^ 64) (h : offset + buf.length ≤ room) :
    ∃ content', writeAt o room content offset buf = some content' ∧
      ofList content' = (ofList content).write offset buf := by
  unfold writeAt
  rw [add_eq (h.trans_lt hroom)]
  dsimp only [bind_eq_bind, bind_some]
  by_cases hgrow : content.length < offset + buf.length
  · obtain ⟨content₁, hcontent₁, harray⟩ := resize_eq content h
    have hlength : content₁.length = offset + buf.length := congrArg size harray
    rw [if_pos hgrow, hcontent₁]
    refine ⟨_, splice_eq hlength.ge, ?_⟩
    rw [← write_ofList hlength.ge, harray]
    exact write_resize hgrow.le
  · rw [if_neg hgrow]
    exact ⟨_, splice_eq (not_lt.mp hgrow), (write_ofList (not_lt.mp hgrow)).symm⟩

end FileNode

/-! ## Calls -/

namespace File

/-- The open file as an array. -/
def toArray (f : File) (content : List UInt8) : ArrayFile :=
  ⟨.ofList content, f.offset, f.cap.read, f.cap.write, f.isAppend⟩

/-- The node is a file that has the bytes of the array. -/
def Shows (h : Heap) (f : File) (a : ArrayFile) : Prop :=
  ∃ content, h.nodes f.node = some (.file content) ∧ f.toArray content = a

/-- The outcome of a call is that of the array, and other nodes are untouched. -/
structure Follows (h : Heap) (f : File) (r : ArrayFile × Except VfsError Reply) (out : Outcome) :
    Prop where
  shows_ : Shows out.heap out.file r.1
  result : out.result = r.2
  node : out.file.node = f.node
  others : ∀ j, j ≠ f.node → out.heap.nodes j = h.nodes j

variable {o : Overflow} {room : ℕ} {h : Heap} {f : File} {a : ArrayFile} {content : List UInt8}
  {offset : ℕ} {buf : List UInt8}

theorem follows_same (hnode : h.nodes f.node = some (.file content)) (offset : ℕ)
    (result : Except VfsError Reply) :
    Follows h f ({ f.toArray content with pos := offset }, result)
      ⟨h, { f with offset }, result⟩ :=
  ⟨⟨content, hnode, rfl⟩, rfl, rfl, fun _ _ => rfl⟩

theorem follows_setFile (content' : List UInt8) (offset : ℕ) (result : Except VfsError Reply) :
    Follows h f ({ f.toArray content' with pos := offset }, result)
      ⟨h.setFile f.node content', { f with offset }, result⟩ where
  shows_ := ⟨content', Function.update_self .., rfl⟩
  result := rfl
  node := rfl
  others _ hj := Function.update_of_ne hj ..

section

variable (hnode : h.nodes f.node = some (.file content))

include hnode

/-- A call that needs a capability. -/
theorem exists_follows_of_cap {c : Bool} {body : Option Outcome}
    {r : ArrayFile × Except VfsError Reply} (hbody : ∃ out, body = some out ∧ Follows h f r out) :
    ∃ out, (if c then body else some ⟨h, f, .error .permissionDenied⟩) = some out ∧
      Follows h f (if c then r else (f.toArray content, .error .permissionDenied)) out := by
  cases c with
  | false => exact ⟨_, rfl, follows_same hnode f.offset _⟩
  | true => exact hbody

theorem exec_truncate {size : ℕ} (hop : size ≤ room) :
    ∃ out, f.exec o room h (.truncate size) = some out ∧
      Follows h f ((f.toArray content).exec (.truncate size)) out := by
  refine exists_follows_of_cap hnode ?_
  obtain ⟨content', htruncate, harray⟩ := FileNode.truncate_eq content hop
  have hheap : h.truncate room f.node size = some (.ok (h.setFile f.node content')) := by
    rw [Heap.truncate, Heap.editFile, hnode]
    simp only [htruncate, map_some]
  rw [hheap]
  refine ⟨_, rfl, ?_⟩
  rw [show (f.toArray content).array.resize size = _ from harray.symm]
  exact follows_setFile content' f.offset _

theorem exec_readAt {n : ℕ} (hop : offset + n < 2 ^ 64) :
    ∃ out, f.exec o room h (.readAt offset n) = some out ∧
      Follows h f ((f.toArray content).exec (.readAt offset n)) out := by
  refine exists_follows_of_cap hnode ?_
  rw [Heap.readAt, hnode]
  simp only [FileNode.readAt_eq hop, map_some]
  exact ⟨_, rfl, follows_same hnode f.offset _⟩

/-- The cursor does not overflow: what is read is in the file. -/
theorem exec_read {n : ℕ} (hop : f.offset + n < 2 ^ 64) :
    ∃ out, f.exec o room h (.read n) = some out ∧
      Follows h f ((f.toArray content).exec (.read n)) out := by
  refine exists_follows_of_cap hnode ?_
  have hread : h.readAt o f.node f.offset n = some (.ok ((ofList content).read f.offset n)) := by
    rw [Heap.readAt, hnode]
    simp only [FileNode.readAt_eq hop, map_some]
  have hlength : ((ofList content).read f.offset n).length ≤ n := by
    rw [ZeroArray.read, length_map, length_range']
    omega
  rw [hread]
  dsimp only
  rw [FileNode.add_eq (by omega)]
  exact ⟨_, rfl, follows_same hnode _ _⟩

theorem writeAt_setFile (hroom : room < 2 ^ 64) (hop : offset + buf.length ≤ room) :
    ∃ content', h.writeAt o room f.node offset buf = some (.ok (h.setFile f.node content')) ∧
      ofList content' = (ofList content).write offset buf := by
  obtain ⟨content', hwrite, harray⟩ := FileNode.writeAt_eq (o := o) content hroom hop
  refine ⟨content', ?_, harray⟩
  rw [Heap.writeAt, Heap.editFile, hnode]
  simp only [hwrite, map_some]

theorem exec_writeAt (hroom : room < 2 ^ 64) (hop : offset + buf.length ≤ room) :
    ∃ out, f.exec o room h (.writeAt offset buf) = some out ∧
      Follows h f ((f.toArray content).exec (.writeAt offset buf)) out := by
  refine exists_follows_of_cap hnode ?_
  obtain ⟨content', hwrite, harray⟩ := writeAt_setFile (o := o) hnode hroom hop
  rw [hwrite]
  refine ⟨_, rfl, ?_⟩
  rw [show (f.toArray content).array.write offset buf = _ from harray.symm]
  exact follows_setFile content' f.offset _

theorem exec_write (hroom : room < 2 ^ 64)
    (hop : (f.toArray content).writePos + buf.length ≤ room) :
    ∃ out, f.exec o room h (.write buf) = some out ∧
      Follows h f ((f.toArray content).exec (.write buf)) out := by
  refine exists_follows_of_cap hnode ?_
  have hcursor : (if f.isAppend then { f with offset := h.fileSize f.node } else f) =
      { f with offset := (f.toArray content).writePos } := by
    have hsize : h.fileSize f.node = content.length := by rw [Heap.fileSize, hnode]
    rw [hsize]
    by_cases happend : f.isAppend = true
    · rw [if_pos happend, ArrayFile.writePos,
        if_pos (show (f.toArray content).append = true from happend)]
      rfl
    · rw [if_neg happend, ArrayFile.writePos,
        if_neg (show ¬ (f.toArray content).append = true from happend)]
      rfl
  obtain ⟨content', hwrite, harray⟩ := writeAt_setFile (o := o) hnode hroom hop
  rw [hcursor]
  rw [hwrite]
  dsimp only
  rw [FileNode.add_eq (hop.trans_lt hroom)]
  refine ⟨_, rfl, ?_⟩
  rw [show (f.toArray content).array.write _ buf = _ from harray.symm]
  exact follows_setFile content' _ _

theorem exec_seek (pos : SeekFrom) :
    ∃ out, f.exec o room h (.seek pos) = some out ∧
      Follows h f ((f.toArray content).exec (.seek pos)) out := by
  have htarget : f.seekTarget h pos = (f.toArray content).seekTarget pos := by
    have hsize : h.fileSize f.node = content.length := by rw [Heap.fileSize, hnode]
    cases pos with
    | start pos => rfl
    | current off => rfl
    | fromEnd off =>
      show checkedAddSigned (h.fileSize f.node) off = checkedAddSigned content.length off
      rw [hsize]
  show ∃ out, f.seek h pos = some out ∧ _
  rw [seek, htarget, ArrayFile.exec]
  cases (f.toArray content).seekTarget pos with
  | none => exact ⟨_, rfl, follows_same hnode f.offset _⟩
  | some target => exact ⟨_, rfl, follows_same hnode target _⟩

end

/-- A call does what it does with the array. -/
theorem exec_follows (hroom : room < 2 ^ 64) (hshows : Shows h f a) {op : FileOp}
    (hop : a.OpOk room op) :
    ∃ out, f.exec o room h op = some out ∧ Follows h f (a.exec op) out := by
  obtain ⟨content, hnode, rfl⟩ := hshows
  cases op with
  | truncate size => exact exec_truncate hnode hop
  | read n => exact exec_read hnode hop
  | readAt offset n => exact exec_readAt hnode hop
  | write buf => exact exec_write hnode hroom hop
  | writeAt offset buf => exact exec_writeAt hnode hroom hop
  | seek pos => exact exec_seek hnode pos

/-- Every sequence of calls does what it does with the array, as long as the file fits in memory and
no read goes beyond the last offset. -/
theorem file_is_zero_extended_array (hroom : room < 2 ^ 64) (hshows : Shows h f a)
    {ops : List FileOp} (hops : a.OpsOk room ops) :
    ∃ h' f', f.execAll o room h ops = some (h', f', (a.execAll ops).2) ∧
      Shows h' f' (a.execAll ops).1 ∧ f'.node = f.node ∧
      ∀ j, j ≠ f.node → h'.nodes j = h.nodes j := by
  induction ops generalizing h f a with
  | nil => exact ⟨h, f, rfl, hshows, rfl, fun _ _ => rfl⟩
  | cons op ops ih =>
    obtain ⟨hop, hops⟩ := hops
    obtain ⟨out, hexec, hfollows⟩ := exec_follows (o := o) hroom hshows hop
    obtain ⟨h', f', hrun, hshows', hnode, hothers⟩ := ih hfollows.shows_ hops
    refine ⟨h', f', ?_, hshows', hnode.trans hfollows.node, fun j hj => ?_⟩
    · rw [execAll, hexec]
      dsimp only
      rw [hrun, hfollows.result]
      rfl
    · rw [hothers j (hfollows.node ▸ hj)]
      exact hfollows.others j hj

/-- A file with four bytes, open for reading and writing. -/
def fourBytes : Heap := (⟨fun _ => none, 0⟩ : Heap).alloc (.file [1, 2, 3, 4])

def openFour : File := ⟨0, ⟨true, true, false⟩, false, 0⟩

theorem shows_fourBytes : Shows fourBytes openFour (openFour.toArray [1, 2, 3, 4]) :=
  ⟨[1, 2, 3, 4], rfl, rfl⟩

/-- A byte is written beyond the end, and the gap is read. -/
theorem file_is_zero_extended_array_sample :
    (openFour.toArray [1, 2, 3, 4]).OpsOk 4096 [.writeAt 6 [9], .seek (.start 3), .read 8] ∧
      ∃ h' f', openFour.execAll .wraps 4096 fourBytes [.writeAt 6 [9], .seek (.start 3), .read 8] =
        some (h', f', [.ok (.count 1), .ok (.pos 3), .ok (.bytes [4, 0, 0, 9])]) := by
  have hops : (openFour.toArray [1, 2, 3, 4]).OpsOk 4096
      [.writeAt 6 [9], .seek (.start 3), .read 8] :=
    ⟨show 6 + 1 ≤ 4096 by decide, trivial, show 3 + 8 < 2 ^ 64 by decide, trivial⟩
  obtain ⟨h', f', hrun, -⟩ :=
    file_is_zero_extended_array (o := .wraps) (by decide) shows_fourBytes hops
  exact ⟨hops, h', f', hrun⟩

/-- The calls abort, however the kernel is built. -/
def Aborts (ops : List FileOp) : Prop :=
  openFour.execAll .panics 4096 fourBytes ops = none ∧
    openFour.execAll .wraps 4096 fourBytes ops = none

/-- A read at the last offset aborts, although there is nothing to read: the sum overflows, or the
slice ends before it starts. -/
theorem read_beyond_end_aborts :
    Aborts [.readAt (2 ^ 64 - 1) 2] ∧ Aborts [.seek (.start (2 ^ 64 - 1)), .read 2] ∧
      ((openFour.toArray [1, 2, 3, 4]).execAll [.readAt (2 ^ 64 - 1) 2]).2 = [.ok (.bytes [])] := by
  unfold Aborts
  decide +kernel

end File

end HvisorRux.Rux.Fs
