import HvisorRux.Rux.Fd.Table

/-!
# Vectored transfers

`sys_readv`, `sys_writev` and `sys_preadv` make a call for each buffer and add up what the calls
return, errors included. `sys_sendmsg` sends a datagram for each buffer.
-/

namespace HvisorRux.Rux.Fd

open List

variable {α : Type}

/-- `iovec`: the cells of a buffer, and `none` for a null pointer. -/
abbrev IoVec (α : Type) := Option (List α)

/-- A returned value, and the cells that were read or written with their positions in the file. -/
abbrev Outcome (α : Type) := Int × List (α × ℕ)

/-- What the calls for a number of bytes return, one after the other. -/
abbrev Calls := ℕ → ℕ → Except LinuxError ℕ

/-- The error that the transfer stops at, the number of bytes before it and their cells. -/
def upToShort (call : Calls) : (k pos : ℕ) → List (IoVec α) →
    Option LinuxError × ℕ × List (α × ℕ)
  | _, _, [] => (none, 0, [])
  | k, pos, none :: iovs => upToShort call k pos iovs
  | k, pos, some buf :: iovs =>
    match call k buf.length with
    | .error e => (some e, 0, [])
    | .ok n =>
      if n < buf.length then (none, n, (buf.take n).zipIdx pos)
      else
        let rest := upToShort call (k + 1) (pos + n) iovs
        (rest.1, n + rest.2.1, buf.zipIdx pos ++ rest.2.2)

/-- What is returned after `moved` bytes: an error only if there are none. -/
def report (moved : ℕ) : Option LinuxError × ℕ × List (α × ℕ) → Outcome α
  | (some e, n, cells) => if moved + n = 0 then (-e.code, []) else (n, cells)
  | (none, n, cells) => (n, cells)

def single (call : Calls) (pos : ℕ) (iovs : List (IoVec α)) : Outcome α :=
  report 0 (upToShort call 0 pos iovs)

/-- The calls for these buffers all return 0. -/
def Idle (call : Calls) : (k : ℕ) → List (IoVec α) → Prop
  | _, [] => True
  | k, none :: iovs => Idle call k iovs
  | k, some buf :: iovs => call k buf.length = .ok 0 ∧ Idle call (k + 1) iovs

section

variable {advance : Bool} {call : Calls} (hbounded : ∀ k len n, call k len = .ok n → n ≤ len)

include hbounded

end

section

variable {call : Calls} {pos : ℕ} {iovs : List (IoVec α)}

end

end HvisorRux.Rux.Fd
