import HvisorRux.Common.OrdMap
import HvisorRux.Common.Ring
import HvisorRux.Common.Transition
import Mathlib.Data.List.Infix

/-!
# Pipes

A pipe is a ring of bytes behind a mutex that its two ends share (`imp/pipe.rs`). A status says
whether the ring is full or empty when `head` and `tail` are the same. The ends are reference
counted objects: descriptors and the calls in progress keep an end alive, and a reader takes an
empty ring for the end of the stream if the other end is gone. A reader or writer that has to wait
releases the mutex and tries again, so one turn of a call is one hold of the mutex.

`accepted` and `returned` record the bytes that the turns of writers and readers have moved, in the
order of the holds. They are the history that `Ring.Holds` speaks of.
-/

namespace HvisorRux.Rux

open Common List Option Nat

/-- `RingBufferStatus`. -/
inductive RingBufferStatus
  | full
  | empty
  | normal
deriving DecidableEq, Repr

/-- `RING_BUFFER_SIZE`. -/
def ringBufferSize : ℕ := 256

/-- `PipeRingBuffer`. -/
structure PipeRingBuffer where
  arr : ℕ → UInt8
  head : ℕ
  tail : ℕ
  status : RingBufferStatus

namespace PipeRingBuffer

def new : PipeRingBuffer := ⟨fun _ => 0, 0, 0, .empty⟩

section

variable (b : PipeRingBuffer)

def writeByte (byte : UInt8) : PipeRingBuffer :=
  let tail := (b.tail + 1) % ringBufferSize
  { arr := Function.update b.arr b.tail byte
    head := b.head
    tail
    status := if tail = b.head then .full else .normal }

def readByte : UInt8 × PipeRingBuffer :=
  let head := (b.head + 1) % ringBufferSize
  (b.arr b.head, { b with head, status := if head = b.tail then .empty else .normal })

def availableRead : ℕ :=
  if b.status = .empty then 0
  else if b.head < b.tail then b.tail - b.head
  else b.tail + ringBufferSize - b.head

def availableWrite : ℕ :=
  if b.status = .full then 0 else ringBufferSize - b.availableRead

end

/-- The loop of `Pipe::read`: at most `n` bytes, until the request is served. -/
def readBytes (maxLen : ℕ) : ℕ → List UInt8 → PipeRingBuffer → List UInt8 × PipeRingBuffer
  | 0, got, b => (got, b)
  | n + 1, got, b =>
    if got.length = maxLen then (got, b)
    else readBytes maxLen n (got ++ [b.readByte.1]) b.readByte.2

/-- The loop of `Pipe::write` over what is left of the buffer: at most `n` bytes. It returns what is
left then, and whether the call returns. -/
def writeBytes : ℕ → List UInt8 → PipeRingBuffer → List UInt8 × PipeRingBuffer × Bool
  | 0, rest, b => (rest, b, false)
  | _ + 1, [], b => ([], b, true)
  | n + 1, byte :: rest, b => writeBytes n rest (b.writeByte byte)

/-- What is in the ring, the oldest byte first. -/
def content (b : PipeRingBuffer) : List UInt8 :=
  (List.range b.availableRead).map fun i => b.arr ((b.head + i) % ringBufferSize)

end PipeRingBuffer

/-! ## Calls -/

/-- The ends of a pipe. -/
inductive PipeEnd
  | read
  | write
deriving DecidableEq, Repr

/-- A call in progress: a reader with the length of its request, a writer with the bytes that it has
still to write. -/
inductive PipeCall
  | read (maxLen : ℕ)
  | write (rest : List UInt8)
deriving DecidableEq, Repr

/-- The end that a call works on. -/
def PipeCall.end_ : PipeCall → PipeEnd
  | .read _ => .read
  | .write _ => .write

/-- A pipe with the descriptors of its ends and the calls in progress, by task. -/
structure PipeState where
  buffer : PipeRingBuffer
  fds : PipeEnd → ℕ
  calls : OrdMap ℕ PipeCall
  accepted : List UInt8
  returned : List UInt8

namespace PipeState

/-- `Pipe::new`, with a descriptor for each end. -/
def new : PipeState := ⟨.new, fun _ => 1, .empty, [], []⟩

section

variable (p : PipeState)

/-- An end exists as long as a descriptor or a call refers to it. -/
def alive (e : PipeEnd) : Bool :=
  decide (0 < p.fds e) || p.calls.entries.any (·.2.end_ = e)

/-- `Arc::strong_count` of the buffer: each end refers to it once. -/
def strongCount : ℕ := (p.alive .read).toNat + (p.alive .write).toNat

def writeEndClose : Bool := p.strongCount = 1

/-- One hold of the mutex by a reader; `none` if it has to wait. -/
def readTurn (maxLen : ℕ) : Option (List UInt8 × PipeRingBuffer) :=
  if p.buffer.availableRead = 0 then
    if p.writeEndClose then some ([], p.buffer) else none
  else some (p.buffer.readBytes maxLen p.buffer.availableRead [])

/-- One hold by a writer. -/
def writeTurn (rest : List UInt8) : List UInt8 × PipeRingBuffer × Bool :=
  if p.buffer.availableWrite = 0 then (rest, p.buffer, false)
  else p.buffer.writeBytes p.buffer.availableWrite rest

end

end PipeState

/-- What can happen to a pipe: its descriptors are duplicated and closed, a task calls `read` or
`write` on a descriptor of one of its ends, and a call takes a turn. -/
inductive PipeEvent
  | dup (e : PipeEnd)
  | close (e : PipeEnd)
  | start (task : ℕ) (e : PipeEnd) (call : PipeCall)
  | turn (task : ℕ)

namespace PipeState

/-- A call on the wrong end fails with `EPERM`. -/
def start (p : PipeState) (task : ℕ) (e : PipeEnd) (call : PipeCall) : PipeState :=
  if call.end_ = e then { p with calls := p.calls.insert task call } else p

/-- The turn of a call. -/
def turn (p : PipeState) (task : ℕ) : PipeCall → PipeState
  | .read maxLen =>
    match p.readTurn maxLen with
    | none => p
    | some (got, buffer) =>
      { p with buffer, calls := p.calls.erase task, returned := p.returned ++ got }
  | .write rest =>
    let (left, buffer, returns) := p.writeTurn rest
    { p with
      buffer
      calls := if returns then p.calls.erase task else p.calls.insert task (.write left)
      accepted := p.accepted ++ rest.take (rest.length - left.length) }

def step (p : PipeState) : PipeEvent → Option PipeState
  | .dup e => if 0 < p.fds e then some { p with fds := Function.update p.fds e (p.fds e + 1) }
      else none
  | .close e => if 0 < p.fds e then some { p with fds := Function.update p.fds e (p.fds e - 1) }
      else none
  | .start task e call =>
    if 0 < p.fds e ∧ p.calls.get? task = none then some (p.start task e call) else none
  | .turn task => (p.calls.get? task).map (p.turn task)

end PipeState

/-! ## The ring -/

namespace PipeRingBuffer

variable {b : PipeRingBuffer} {xs : List UInt8} {h n : ℕ}

/-- The ring contains the history `xs` from position `h` on. -/
structure Rep (b : PipeRingBuffer) (xs : List UInt8) (h : ℕ) : Prop where
  holds : Ring.Holds b.arr ringBufferSize xs h
  head_eq : b.head = h % ringBufferSize
  tail_eq : b.tail = xs.length % ringBufferSize
  empty_iff : b.status = .empty ↔ xs.length = h
  full_iff : b.status = .full ↔ xs.length = h + ringBufferSize

theorem Rep.new : Rep PipeRingBuffer.new [] 0 :=
  ⟨.nil _ _, rfl, rfl, by decide, by decide⟩

section

variable (hr : Rep b xs h)

include hr

theorem Rep.availableRead_eq : b.availableRead = xs.length - h := by
  obtain ⟨⟨hle, hle', -⟩, hhead, htail, hempty, hfull⟩ := hr
  unfold availableRead
  unfold ringBufferSize at *
  split
  · next hs =>
    have heq := hempty.mp hs
    omega
  · next hs =>
    have hne := mt hempty.mpr hs
    split <;> omega

theorem Rep.availableWrite_eq : b.availableWrite = h + ringBufferSize - xs.length := by
  have hle := hr.holds.le_length
  unfold availableWrite
  split
  · next hs => rw [hr.full_iff.mp hs, Nat.sub_self]
  · rw [hr.availableRead_eq]; omega

theorem Rep.writeByte (hfree : xs.length < h + ringBufferSize) (byte : UInt8) :
    Rep (b.writeByte byte) (xs ++ [byte]) h := by
  have hle := hr.holds.le_length
  have htail : (b.tail + 1) % ringBufferSize = (xs ++ [byte]).length % ringBufferSize := by
    rw [hr.tail_eq, length_append, length_singleton, mod_add_mod]
  have hfull : (b.tail + 1) % ringBufferSize = b.head ↔ xs.length + 1 = h + ringBufferSize := by
    rw [hr.tail_eq, hr.head_eq]
    unfold ringBufferSize at *
    omega
  refine ⟨?_, hr.head_eq, htail, ?_, ?_⟩
  · have hpush := hr.holds.push hfree byte
    rwa [← hr.tail_eq] at hpush
  · rw [length_append, length_singleton]
    refine iff_of_false ?_ (by omega)
    show (if _ then RingBufferStatus.full else .normal) ≠ .empty
    split <;> decide
  · rw [length_append, length_singleton, ← hfull]
    exact ite_eq_left_iff.trans ⟨fun himp => by_contra fun hne => (by cases himp hne),
      fun heq hne => absurd heq hne⟩

theorem Rep.readByte (hlt : h < xs.length) :
    b.readByte.1 = xs[h] ∧ Rep b.readByte.2 xs (h + 1) := by
  have hle := hr.holds.length_le
  have hempty : (b.head + 1) % ringBufferSize = b.tail ↔ xs.length = h + 1 := by
    rw [hr.tail_eq, hr.head_eq]
    unfold ringBufferSize at *
    omega
  refine ⟨?_, hr.holds.pop hlt, ?_, hr.tail_eq, ?_, ?_⟩
  · show b.arr b.head = _
    rw [hr.head_eq]
    exact hr.holds.head hlt
  · show (b.head + 1) % ringBufferSize = _
    rw [hr.head_eq, mod_add_mod]
  · rw [← hempty]
    exact ite_eq_left_iff.trans ⟨fun himp => by_contra fun hne => (by cases himp hne),
      fun heq hne => absurd heq hne⟩
  · refine iff_of_false ?_ (by omega)
    show (if _ then RingBufferStatus.empty else .normal) ≠ .full
    split <;> decide

/-- The loop of a reader takes bytes from the front of the history. -/
theorem Rep.readBytes (hn : h + n ≤ xs.length) (maxLen : ℕ) (got : List UInt8) :
    ∃ k ≤ n, (b.readBytes maxLen n got).1 = got ++ (xs.drop h).take k ∧
      Rep (b.readBytes maxLen n got).2 xs (h + k) ∧
      (0 < n → got.length < maxLen → 0 < k) := by
  induction n generalizing b h got with
  | zero =>
    exact ⟨0, le_rfl, by simp [PipeRingBuffer.readBytes], hr, fun hlt => absurd hlt (by decide)⟩
  | succ n ih =>
    unfold PipeRingBuffer.readBytes
    split
    · next hlen =>
      exact ⟨0, zero_le _, by simp, hr, fun _ hlt => absurd hlen hlt.ne⟩
    rename_i hlen
    have hlt : h < xs.length := by omega
    obtain ⟨hbyte, hr'⟩ := hr.readByte hlt
    obtain ⟨k, hk, hgot, hrep, -⟩ := ih hr' (by omega) (got ++ [b.readByte.1])
    refine ⟨k + 1, succ_le_succ hk, ?_, ?_, fun _ _ => succ_pos k⟩
    · rw [hgot, hbyte, append_assoc, drop_eq_getElem_cons hlt]
      rfl
    · rwa [add_right_comm, add_assoc] at hrep

/-- The loop of a writer appends to the history. -/
theorem Rep.writeBytes (hn : xs.length + n ≤ h + ringBufferSize) (rest : List UInt8) :
    ∃ k ≤ rest.length, (b.writeBytes n rest).1 = rest.drop k ∧
      Rep (b.writeBytes n rest).2.1 (xs ++ rest.take k) h := by
  induction n generalizing b xs rest with
  | zero => exact ⟨0, zero_le _, rfl, by simpa [PipeRingBuffer.writeBytes] using hr⟩
  | succ n ih =>
    cases rest with
    | nil => exact ⟨0, le_rfl, rfl, by simpa [PipeRingBuffer.writeBytes] using hr⟩
    | cons byte rest =>
      have hr' := hr.writeByte (by omega) byte
      obtain ⟨k, hk, hrest, hrep⟩ := ih hr' (by simp; omega) rest
      refine ⟨k + 1, succ_le_succ hk, hrest, ?_⟩
      rwa [append_assoc] at hrep

theorem Rep.content_eq : b.content = xs.drop h := by
  refine ext_getElem ?_ fun i hi hi' => ?_
  · rw [content, length_map, length_range, length_drop, hr.availableRead_eq]
  · have hlt : h + i < xs.length := by rw [length_drop] at hi'; omega
    rw [getElem_drop, ← hr.holds.slot_eq (h + i) hlt (Nat.le_add_right ..)]
    simp only [content, getElem_map, getElem_range, hr.head_eq, mod_add_mod]

end

/-- `head`, `tail` and `status` agree with each other. -/
structure Consistent (b : PipeRingBuffer) : Prop where
  head_lt : b.head < ringBufferSize
  tail_eq : b.tail = (b.head + b.content.length) % ringBufferSize
  length_le : b.content.length ≤ ringBufferSize
  empty_iff : b.status = .empty ↔ b.content = []
  full_iff : b.status = .full ↔ b.content.length = ringBufferSize

theorem Rep.consistent (hr : Rep b xs h) : b.Consistent := by
  have hle := hr.holds.le_length
  have hlen : b.content.length = xs.length - h := by rw [hr.content_eq, length_drop]
  refine ⟨?_, ?_, ?_, ?_, ?_⟩
  · rw [hr.head_eq]
    exact mod_lt _ (by decide)
  · rw [hr.tail_eq, hr.head_eq, Nat.mod_add_mod, hlen, Nat.add_sub_cancel' hle]
  · have hle' := hr.holds.length_le
    omega
  · rw [hr.empty_iff, ← length_eq_zero_iff]
    omega
  · rw [hr.full_iff]
    omega

end PipeRingBuffer

/-! ## Histories -/

namespace PipeState

variable {p p' : PipeState} {xs : List UInt8} {h maxLen task : ℕ}

/-- A reader that is served takes bytes from the front, and none only if there are none and nobody
can write any. -/
theorem readTurn_eq {got : List UInt8} {buffer : PipeRingBuffer} (hr : p.buffer.Rep xs h)
    (hturn : p.readTurn maxLen = some (got, buffer)) :
    got = (xs.drop h).take got.length ∧ buffer.Rep xs (h + got.length) ∧
      (got = [] → 0 < maxLen → p.buffer.availableRead = 0 ∧ p.writeEndClose) := by
  unfold readTurn at hturn
  split at hturn
  · next hzero =>
    obtain ⟨hclose, heq⟩ := ite_none_right_eq_some.mp hturn
    cases heq
    exact ⟨rfl, hr, fun _ _ => ⟨hzero, hclose⟩⟩
  rename_i hpos
  have hle := hr.holds.le_length
  have hn : h + p.buffer.availableRead ≤ xs.length := by rw [hr.availableRead_eq]; omega
  obtain ⟨k, hk, hgot, hrep, hserved⟩ := hr.readBytes hn maxLen []
  rw [some.inj hturn] at hgot hrep
  replace hgot : got = (xs.drop h).take k := hgot
  have hlen : got.length = k := by
    rw [hgot, length_take, length_drop]
    omega
  refine ⟨by rw [hlen]; exact hgot, by rw [hlen]; exact hrep, fun hnil hmax => ?_⟩
  have hserved := hserved (Nat.pos_of_ne_zero hpos) hmax
  rw [← hlen, hnil] at hserved
  cases hserved

theorem writeTurn_rep {rest : List UInt8} (hr : p.buffer.Rep xs h) : (p.writeTurn rest).2.1.Rep
      (xs ++ rest.take (rest.length - (p.writeTurn rest).1.length)) h := by
  unfold writeTurn
  split
  · simpa using hr
  · have hle := hr.holds.length_le
    have hn : xs.length + p.buffer.availableWrite ≤ h + ringBufferSize := by
      rw [hr.availableWrite_eq]; omega
    obtain ⟨k, hk, hrest, hrep⟩ := hr.writeBytes hn rest
    rwa [hrest, length_drop, Nat.sub_sub_self hk]

/-- The ring holds what has been accepted, from what has been returned on. -/
structure Inv (p : PipeState) : Prop where
  rep : p.buffer.Rep p.accepted p.returned.length
  returned : p.returned <+: p.accepted

theorem Inv.new : Inv PipeState.new := ⟨.new, prefix_refl _⟩

theorem Inv.turn (hp : Inv p) (task : ℕ) (call : PipeCall) : Inv (p.turn task call) := by
  cases call with
  | read maxLen =>
    rw [PipeState.turn]
    split
    · exact hp
    rename_i got buffer hturn
    obtain ⟨hgot, hrep, -⟩ := readTurn_eq hp.rep hturn
    refine ⟨?_, ?_⟩
    · rwa [length_append]
    · obtain ⟨later, hlater⟩ := hp.returned
      rw [← hlater, drop_left] at hgot
      rw [← hlater, hgot]
      exact (prefix_append_right_inj _).mpr (List.take_prefix _ _)
  | write rest =>
    exact ⟨writeTurn_rep hp.rep, hp.returned.trans (prefix_append ..)⟩

theorem Inv.step {e : PipeEvent} (hp : Inv p) (hstep : p.step e = some p') : Inv p' := by
  cases e with
  | dup e | close e =>
    obtain ⟨-, heq⟩ := ite_none_right_eq_some.mp hstep
    exact some.inj heq ▸ ⟨hp.rep, hp.returned⟩
  | start task e call =>
    obtain ⟨-, rfl⟩ := ite_some_none_eq_some.mp hstep
    unfold start
    split
    · exact ⟨hp.rep, hp.returned⟩
    · exact hp
  | turn task =>
    obtain ⟨call, -, rfl⟩ := map_eq_some_iff.mp hstep
    exact hp.turn task call

/-- While a reader is in its call, the buffer has one reference only if the write end is gone. -/
theorem not_alive_of_writeEndClose (hcall : p.calls.get? task = some (.read maxLen))
    (hclose : p.writeEndClose) : p.alive .write = false := by
  have hread : p.alive .read = true := by
    refine Bool.or_eq_true_iff.mpr (.inr (List.any_eq_true.mpr ⟨(task, .read maxLen), ?_, rfl⟩))
    exact OrdMap.get?_eq_some.mp hcall
  have hcount : p.strongCount = 1 := of_decide_eq_true hclose
  rw [strongCount, hread] at hcount
  cases halive : p.alive .write with
  | false => rfl
  | true =>
    rw [halive] at hcount
    cases hcount

end PipeState

/-- What has been read is a prefix of what has been written, the ring contains the rest, and a
reader gets nothing only if the ring is empty and the write end is gone. -/
theorem pipe_is_fifo {p : PipeState} (h : Reach PipeState.step anyStep PipeState.new p) :
    p.returned <+: p.accepted ∧ p.accepted = p.returned ++ p.buffer.content ∧ p.buffer.Consistent ∧
      ∀ task maxLen got buffer, p.calls.get? task = some (.read maxLen) →
        p.readTurn maxLen = some (got, buffer) → 0 < maxLen → got = [] →
          p.buffer.content = [] ∧ p.fds .write = 0 ∧ ∀ q ∈ p.calls, q.2.end_ ≠ .write := by
  have hinv : p.Inv := h.invariant PipeState.Inv .new fun _ _ _ hp _ hstep => hp.step hstep
  have hrep := hinv.rep
  refine ⟨hinv.returned, ?_, hrep.consistent, ?_⟩
  · obtain ⟨later, hlater⟩ := hinv.returned
    rw [hrep.content_eq, ← hlater, drop_left]
  · intro task maxLen got buffer hcall hturn hmax hnil
    obtain ⟨hzero, hclose⟩ := (PipeState.readTurn_eq hrep hturn).2.2 hnil hmax
    have halive := PipeState.not_alive_of_writeEndClose hcall hclose
    obtain ⟨hfds, hcalls⟩ := Bool.or_eq_false_iff.mp halive
    refine ⟨?_, ?_, fun q hq hend => ?_⟩
    · rw [PipeRingBuffer.content, hzero]
      rfl
    · exact Nat.eq_zero_of_not_pos (of_decide_eq_false hfds)
    · exact absurd (decide_eq_true hend) (List.any_eq_false.mp hcalls q hq)

/-- A writer with more bytes than the ring has room for, a reader that is faster than the writer,
and at the end one that finds the write end closed. -/
def sampleTransfer : List PipeEvent :=
  [.start 0 .write (.write (List.replicate 300 7)), .turn 0, .start 1 .read (.read 400), .turn 1,
    .close .write, .turn 0, .start 2 .read (.read 400), .turn 2,
    .start 3 .read (.read 1)]

theorem pipe_is_fifo_sample :
    ∃ p, Reach PipeState.step anyStep PipeState.new p ∧ p.returned.length = 300 ∧
      (p.readTurn 1).map Prod.fst = some [] ∧ p.buffer.content = [] ∧ p.fds .write = 0 := by
  have hrun : (run PipeState.step anyStep PipeState.new sampleTransfer).map
      (fun p => (p.returned.length, (p.readTurn 1).map Prod.fst, p.calls.get? 3)) =
        some (300, some [], some (.read 1)) := by decide +kernel
  obtain ⟨p, hp, heq⟩ := exists_of_run hrun
  obtain ⟨hlen, hturn, hcall⟩ := by simpa only [Prod.mk.injEq] using heq
  obtain ⟨⟨got, buffer⟩, hget, hnil⟩ := map_eq_some_iff.mp hturn
  obtain ⟨hcontent, hfds, -⟩ :=
    (pipe_is_fifo hp).2.2.2 3 1 got buffer hcall hget (by decide) hnil
  exact ⟨p, hp, hlen, hturn, hcontent, hfds⟩

end HvisorRux.Rux
