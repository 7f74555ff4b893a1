import Mathlib.Algebra.Ring.Int.Defs
import Mathlib.Data.Finset.Card

/-!
# The descriptor table

Open files are kept in a table of `RUX_FILE_LIMIT` objects with a bitmap of the numbers in use
(`crates/flatten_objects`), and `imp/fd_ops.rs` has the calls that copy and close descriptors. The
calls take any `c_int`; `fd as usize` makes a huge index of a negative one.

`Descriptors` is what a process sees: numbers and what they refer to. `Posix` says what a call may
do to them.

Functions are `none` where the kernel panics or waits for a lock that it holds itself.
-/

namespace HvisorRux.Rux.Fd

open Function Option

/-! ## Numbered objects -/

/-- The size of `id_bitmap`. -/
def bitmapSize : ℕ := 1024

/-- `FlattenObjects<T, CAP>`. An object whose number is in use is initialised, and `count` is the
number of these. -/
structure FlattenObjects (α : Type*) (cap : ℕ) where
  objects : ℕ → Option α
  idBitmap : ℕ → Bool
  count : ℕ
  init : ∀ id, idBitmap id = true → id < cap ∧ (objects id).isSome
  count_eq : count = ((Finset.range cap).filter (idBitmap · = true)).card

namespace FlattenObjects

variable {α : Type*} {cap : ℕ} {t t' : FlattenObjects α cap} {id : ℕ} {value : α}

def new : FlattenObjects α cap where
  objects _ := none
  idBitmap _ := false
  count := 0
  init _ h := by cases h
  count_eq := by simp

section

variable (t : FlattenObjects α cap)

def isAssigned (id : ℕ) : Bool := decide (id < cap) && t.idBitmap id

def get (id : ℕ) : Option α :=
  if t.isAssigned id then t.objects id else none

/-- `id_bitmap.first_false_index`. -/
def firstFalseIndex : Option ℕ :=
  (List.range bitmapSize).find? fun id => !t.idBitmap id

/-- The number `id` is used for an object from now on. -/
def assign (id : ℕ) (value : α) (hid : id < cap)
    (hfree : t.idBitmap id = false) : FlattenObjects α cap where
  objects := update t.objects id (some value)
  idBitmap := update t.idBitmap id true
  count := t.count + 1
  init j hj := by
    by_cases hji : j = id
    · subst hji
      exact ⟨hid, by rw [update_self]; rfl⟩
    · rw [update_of_ne hji] at hj ⊢
      exact t.init j hj
  count_eq := by
    have hfilter : (Finset.range cap).filter (update t.idBitmap id true · = true) =
        insert id ((Finset.range cap).filter (t.idBitmap · = true)) := by
      ext j
      by_cases hji : j = id
      · simp [hji, hid]
      · simp [hji]
    rw [hfilter, Finset.card_insert_of_notMem (by simp [hfree]), t.count_eq]

def add (value : α) : Option (ℕ × FlattenObjects α cap) :=
  match h : t.firstFalseIndex with
  | none => none
  | some id =>
    if hid : id < cap then
      some (id, t.assign id value hid (by simpa using List.find?_some h))
    else none

/-- `add_at`: `some none` if the number is in use. A number that is too large panics. -/
def addAt (id : ℕ) (value : α) : Option (Option (FlattenObjects α cap)) :=
  if h : t.isAssigned id = true then some none
  else if hid : id < cap then
    some (some (t.assign id value hid (by simpa [isAssigned, hid] using h)))
  else none

def remove (id : ℕ) : Option (FlattenObjects α cap) :=
  if h : t.isAssigned id = true then
    some
      { objects := t.objects
        idBitmap := update t.idBitmap id false
        count := t.count - 1
        init := fun j hj => by
          by_cases hji : j = id
          · rw [hji, update_self] at hj
            cases hj
          · rw [update_of_ne hji] at hj
            exact t.init j hj
        count_eq := by
          have hfilter : (Finset.range cap).filter (update t.idBitmap id false · = true) =
              ((Finset.range cap).filter (t.idBitmap · = true)).erase id := by
            ext j
            by_cases hji : j = id <;> simp [hji]
          rw [hfilter, Finset.card_erase_of_mem (by simpa [isAssigned] using h), t.count_eq] }
  else none

end

/-! ### What the operations do to the objects -/

theorem get_eq_none : t.get id = none ↔ t.idBitmap id = false := by
  unfold get isAssigned
  cases h : t.idBitmap id with
  | false => simp
  | true =>
    obtain ⟨hid, hsome⟩ := t.init id h
    simpa [hid, isSome_iff_ne_none] using hsome

theorem lt_of_get (h : (t.get id).isSome) : id < cap := by
  have hbit : t.idBitmap id = true := by
    rw [← Bool.not_eq_false, ← get_eq_none]
    exact isSome_iff_ne_none.mp h
  exact (t.init id hbit).1

theorem get_assign {hid : id < cap} {hfree : t.idBitmap id = false} :
    (t.assign id value hid hfree).get = update t.get id (some value) := by
  funext j
  unfold get isAssigned assign
  by_cases hj : j = id
  · simp [hj, hid]
  · simp [hj]

/-- A new object gets a number that is not in use. -/
theorem get_add {n : ℕ} (h : t.add value = some (n, t')) :
    n < cap ∧ t.get n = none ∧ t'.get = update t.get n (some value) := by
  unfold add at h
  split at h
  · cases h
  · next id hfirst =>
    split_ifs at h with hid
    cases h
    have hfree := List.find?_some hfirst
    exact ⟨hid, get_eq_none.mpr (by simpa using hfree), get_assign⟩

theorem addAt_of_free (value : α) (hfree : t.get id = none) (hid : id < cap) :
    ∃ t', t.addAt id value = some (some t') ∧ t'.get = update t.get id (some value) := by
  have hbit := get_eq_none.mp hfree
  refine ⟨t.assign id value hid hbit, ?_, get_assign⟩
  rw [addAt, dif_neg (by simp [isAssigned, hbit]), dif_pos hid]

theorem remove_of_get (h : (t.get id).isSome) :
    ∃ t', t.remove id = some t' ∧ t'.get = update t.get id none := by
  have hbit : t.isAssigned id = true := by
    by_contra hnot
    rw [get, if_neg hnot] at h
    cases h
  refine ⟨_, dif_pos hbit, funext fun j => ?_⟩
  unfold get isAssigned
  by_cases hj : j = id
  · simp [hj]
  · simp [hj]

theorem remove_of_none (h : t.get id = none) : t.remove id = none := by
  rw [remove, dif_neg (by simp [isAssigned, get_eq_none.mp h])]

end FlattenObjects

open FlattenObjects

/-! ## The calls -/

/-- `RUX_FILE_LIMIT`. -/
def ruxFileLimit : ℕ := 1024

/-- `FD_TABLE`. -/
abbrev FdTable (α : Type) := FlattenObjects α ruxFileLimit

/-- `LinuxError`, as far as the table gives rise to it. File objects have errors of their own. -/
inductive LinuxError
  | ebadf
  | einval
  | emfile
  | other (code : ℕ) (pos : 0 < code)

def LinuxError.code : LinuxError → ℕ
  | .ebadf => 9
  | .einval => 22
  | .emfile => 24
  | .other code _ => code

/-- `fd as usize`. -/
def asUsize (fd : Int32) : ℕ := (fd.toInt % 2 ^ 64).toNat

def fDupfd : UInt32 := 0
def fGetfd : UInt32 := 1
def fSetfd : UInt32 := 2
def fGetfl : UInt32 := 3
def fSetfl : UInt32 := 4
def fDupfdCloexec : UInt32 := 1030
def oRdonly : UInt32 := 0
def oWronly : UInt32 := 1
def oRdwr : UInt32 := 2
def oNonblock : ℕ := 0o4000
def oCloexec : UInt32 := 0o2000000
def fdCloexec : ℕ := 1

structure PollState where
  readable : Bool
  writable : Bool

/-- What `fcntl` asks of a file object. -/
structure FileLike (α : Type) where
  poll : α → Except LinuxError PollState
  setNonblocking : α → Bool → Except LinuxError Unit

section Calls

variable {α : Type} (ops : FileLike α)

section

variable (t : FdTable α)

/-- `MUST_EXEC`. -/
def mustExec (stdin stdout stderr : α) : Option (FdTable α) := do
  let t ← (← t.addAt 0 stdin)
  let t ← (← t.addAt 1 stdout)
  (← t.addAt 2 stderr)

def getFileLike (fd : Int32) : Except LinuxError α :=
  match t.get (asUsize fd) with
  | some f => .ok f
  | none => .error .ebadf

def addFileLike (f : α) : Except LinuxError (Int × FdTable α) :=
  match t.add f with
  | some (id, t) => .ok (id, t)
  | none => .error .emfile

def closeFileLike (fd : Int32) : Except LinuxError (FdTable α) :=
  match t.remove (asUsize fd) with
  | some t => .ok t
  | none => .error .ebadf

/-- `syscall_body!`, for a body that changes the table only if it succeeds. -/
def syscallBody : Except LinuxError (Int × FdTable α) → FdTable α × Int
  | .ok (v, t) => (t, v)
  | .error e => (t, -e.code)

def sysClose (fd : Int32) : FdTable α × Int :=
  -- stdin, stdout and stderr stay open
  if 0 ≤ fd.toInt ∧ fd.toInt ≤ 2 then (t, 0)
  else syscallBody t ((closeFileLike t fd).map fun t => (0, t))

def dupFd (oldFd : Int32) : Except LinuxError (Int × FdTable α) :=
  match getFileLike t oldFd with
  | .error e => .error e
  | .ok f => addFileLike t f

def sysDup (oldFd : Int32) : FdTable α × Int := syscallBody t (dupFd t oldFd)

/-- The body of `F_SETFL`. -/
def setFlags (fd : Int32) (arg : ℕ) : Except LinuxError Int := do
  let f ← getFileLike t fd
  ops.setNonblocking f (arg &&& oNonblock != 0)
  .ok 0

/-- The body of `F_GETFL`. -/
def getFlags (fd : Int32) : Except LinuxError Int := do
  let f ← getFileLike t fd
  let state ← ops.poll f
  let flags :=
    if state.writable && state.readable then oRdwr
    else if state.writable then oWronly
    else oRdonly
  .ok flags.toNat

def sysFcntl (fd cmd : Int32) (arg : ℕ) : Option (FdTable α × Int) :=
  if cmd.toUInt32 = fDupfd ∨ cmd.toUInt32 = fDupfdCloexec then some (syscallBody t (dupFd t fd))
  else if cmd.toUInt32 = fSetfl then
    if fd = 0 ∨ fd = 1 ∨ fd = 2 then some (t, 0)
    else some (syscallBody t ((setFlags ops t fd arg).map fun v => (v, t)))
  else if cmd.toUInt32 = fGetfl then
    some (syscallBody t ((getFlags ops t fd).map fun v => (v, t)))
  else if cmd.toUInt32 = fSetfd then
    -- otherwise `get_file_like` waits for the lock that `add_at` is called under
    if arg = 0 ∨ arg = 1 ∨ arg = 2 then some (t, 0) else none
  else some (t, 0)

def sysDup2 (oldFd newFd : Int32) : Option (FdTable α × Int) :=
  if oldFd = newFd then do
    let (t, r) ← sysFcntl ops t oldFd fGetfd.toInt32 0
    some (t, if 0 ≤ r then oldFd.toInt else r)
  else if ruxFileLimit ≤ asUsize newFd then some (t, -LinuxError.ebadf.code)
  else
    match closeFileLike t newFd with
    | .error e => some (t, -e.code)
    | .ok t =>
      match getFileLike t oldFd with
      | .error e => some (t, -e.code)
      | .ok f => do
        match ← t.addAt (asUsize newFd) f with
        | none => some (t, -LinuxError.emfile.code)
        | some t => some (t, newFd.toInt)

def sysDup3 (oldFd newFd flags : Int32) : Option (FdTable α × Int) :=
  if oldFd = newFd then some (t, -LinuxError.einval.code)
  else do
    let (t, _) ← sysDup2 ops t oldFd newFd
    let (t, _) ←
      if flags.toUInt32 &&& oCloexec ≠ 0 then sysFcntl ops t newFd fSetfd.toInt32 fdCloexec
      else some (t, 0)
    some (t, newFd.toInt)

end

/-- The calls. `open_` is a call that opens a file. -/
inductive FdCall (α : Type)
  | open_ (f : α)
  | close (fd : Int32)
  | dup (oldFd : Int32)
  | dup2 (oldFd newFd : Int32)
  | dup3 (oldFd newFd flags : Int32)
  | fcntl (fd cmd : Int32) (arg : ℕ)

/-- What a call does to the table, and what it returns. -/
def FdCall.exec (t : FdTable α) : FdCall α → Option (FdTable α × Int)
  | .open_ f => some (syscallBody t (addFileLike t f))
  | .close fd => some (sysClose t fd)
  | .dup oldFd => some (sysDup t oldFd)
  | .dup2 oldFd newFd => sysDup2 ops t oldFd newFd
  | .dup3 oldFd newFd flags => sysDup3 ops t oldFd newFd flags
  | .fcntl fd cmd arg => sysFcntl ops t fd cmd arg

def FdCall.execAll (t : FdTable α) : List (FdCall α) → Option (FdTable α × List Int)
  | [] => some (t, [])
  | call :: calls => do
    let (t, ret) ← call.exec ops t
    let (t, rets) ← execAll t calls
    some (t, ret :: rets)

end Calls

/-! ## What a process sees -/

/-- Numbers and what they refer to. -/
abbrev Descriptors (α : Type) := Int → Option α

/-- What a successful call does; `ret` is its result. -/
def Effect {α : Type} (d d' : Descriptors α) (ret : Int) : FdCall α → Prop
  | .open_ f => d ret = none ∧ d' = update d ret (some f)
  | .close fd => d' = update d fd.toInt none ∨ (0 ≤ fd.toInt ∧ fd.toInt ≤ 2 ∧ d' = d)
  | .dup oldFd =>
    (d oldFd.toInt).isSome ∧ d ret = none ∧ d' = update d ret (d oldFd.toInt)
  | .dup2 oldFd newFd | .dup3 oldFd newFd _ =>
    ret = newFd.toInt ∧ (d oldFd.toInt).isSome ∧ d' = update d newFd.toInt (d oldFd.toInt)
  | .fcntl fd cmd arg =>
    if cmd.toUInt32 = fDupfd ∨ cmd.toUInt32 = fDupfdCloexec then
      arg ≤ ret ∧ (d fd.toInt).isSome ∧ d ret = none ∧ d' = update d ret (d fd.toInt)
    else d' = d

/-- A call has its effect or fails and changes nothing, and `dup2` of an open descriptor to a number
below the limit does not fail. -/
structure Posix {α : Type} (d d' : Descriptors α) (call : FdCall α) (ret : Int) : Prop where
  unchanged : ret < 0 → d' = d
  effect : 0 ≤ ret → Effect d d' ret call
  dup2 : ∀ oldFd newFd, call = .dup2 oldFd newFd → (d oldFd.toInt).isSome → 0 ≤ newFd.toInt →
    newFd.toInt < ruxFileLimit → 0 ≤ ret

/-- A sequence of calls with their results. -/
inductive PosixRun {α : Type} : Descriptors α → List (FdCall α) → List Int → Descriptors α → Prop
  | nil (d : Descriptors α) : PosixRun d [] [] d
  | cons {d d₁ d₂ : Descriptors α} {call : FdCall α} {calls : List (FdCall α)} {ret : Int}
      {rets : List Int} : Posix d d₁ call ret → PosixRun d₁ calls rets d₂ →
      PosixRun d (call :: calls) (ret :: rets) d₂

/-- The descriptors of a table. -/
def FlattenObjects.view {α : Type} {cap : ℕ} (t : FlattenObjects α cap) : Descriptors α := fun fd =>
  if 0 ≤ fd then t.get fd.toNat else none

section View

variable {α : Type} {ops : FileLike α} {t t' : FdTable α} {fd newFd : Int32} {f : α}

/-- A descriptor is found under its number, and under no number if it is negative. -/
theorem get_asUsize (t : FdTable α) (fd : Int32) : t.get (asUsize fd) = t.view fd.toInt := by
  have hlow := fd.le_toInt
  have hhigh := fd.toInt_lt
  unfold view asUsize
  split_ifs with hfd
  · rw [Int.emod_eq_of_lt hfd (by omega)]
  · rw [← not_isSome_iff_eq_none]
    intro hsome
    have hlt := lt_of_get hsome
    unfold ruxFileLimit at hlt
    omega

theorem view_update {n : ℕ} {x : Option α} (h : t'.get = update t.get n x) :
    t'.view = update t.view n x := by
  funext fd
  unfold view
  by_cases hfd : fd = n
  · subst hfd
    rw [update_self, if_pos (Int.natCast_nonneg n), h, Int.toNat_natCast, update_self]
  · rw [update_of_ne hfd]
    split_ifs with hpos
    · rw [h, update_of_ne (by omega)]
    · rfl

/-- The number of a descriptor below the limit. -/
theorem natCast_asUsize (h : asUsize fd < ruxFileLimit) : (asUsize fd : Int) = fd.toInt := by
  have hlow := fd.le_toInt
  have hhigh := fd.toInt_lt
  unfold asUsize ruxFileLimit at *
  omega

theorem asUsize_lt_of_view (h : (t.view fd.toInt).isSome) : asUsize fd < ruxFileLimit := by
  rw [← get_asUsize] at h
  exact lt_of_get h

theorem getFileLike_ok : getFileLike t fd = .ok f ↔ t.view fd.toInt = some f := by
  unfold getFileLike
  rw [get_asUsize]
  cases t.view fd.toInt <;> simp

theorem getFileLike_error (h : t.view fd.toInt = none) : getFileLike t fd = .error .ebadf := by
  unfold getFileLike
  rw [get_asUsize, h]

variable {n ret : Int} {call : FdCall α} {cmd : Int32} {arg : ℕ}

theorem addFileLike_ok (h : addFileLike t f = .ok (n, t')) :
    0 ≤ n ∧ n < ruxFileLimit ∧ t.view n = none ∧ t'.view = update t.view n (some f) := by
  unfold addFileLike at h
  split at h
  · next id t₁ hadd =>
    cases h
    obtain ⟨hlt, hfree, hget⟩ := get_add hadd
    refine ⟨Int.natCast_nonneg id, Int.ofNat_lt.mpr hlt, ?_, view_update hget⟩
    rw [view, if_pos (Int.natCast_nonneg id)]
    exact hfree
  · cases h

theorem dupFd_ok (h : dupFd t fd = .ok (n, t')) :
    0 ≤ n ∧ n < ruxFileLimit ∧ (t.view fd.toInt).isSome ∧ t.view n = none ∧
      t'.view = update t.view n (t.view fd.toInt) := by
  unfold dupFd at h
  cases hf : getFileLike t fd with
  | error e =>
    rw [hf] at h
    cases h
  | ok f =>
    rw [hf] at h
    obtain ⟨hpos, hlt, hfree, hview⟩ := addFileLike_ok h
    rw [getFileLike_ok.mp hf]
    exact ⟨hpos, hlt, rfl, hfree, hview⟩

theorem closeFileLike_ok (h : (t.view fd.toInt).isSome) :
    ∃ t', closeFileLike t fd = .ok t' ∧ t'.view = update t.view fd.toInt none := by
  have hlt := asUsize_lt_of_view h
  rw [← get_asUsize] at h
  obtain ⟨t', hremove, hget⟩ := remove_of_get h
  refine ⟨t', by rw [closeFileLike, hremove], ?_⟩
  have hview := view_update hget
  rwa [natCast_asUsize hlt] at hview

theorem closeFileLike_error (h : t.view fd.toInt = none) : closeFileLike t fd = .error .ebadf := by
  rw [← get_asUsize] at h
  rw [closeFileLike, remove_of_none h]

theorem LinuxError.code_pos (e : LinuxError) : 0 < e.code := by
  cases e with
  | other code pos => exact pos
  | _ => decide

/-- A call whose body changes the table only if it succeeds. -/
theorem posix_syscallBody {body : Except LinuxError (Int × FdTable α)}
    (h : some (syscallBody t body) = some (t', ret))
    (hdup2 : ∀ oldFd newFd, call ≠ .dup2 oldFd newFd)
    (hok : ∀ v t', body = .ok (v, t') → 0 ≤ v ∧ Effect t.view t'.view v call) :
    Posix t.view t'.view call ret := by
  cases body with
  | error e =>
    cases h
    have hneg : -(e.code : Int) < 0 := by
      have hpos := e.code_pos
      omega
    exact ⟨fun _ => rfl, fun h => absurd h (not_le.mpr hneg),
      fun oldFd newFd heq => absurd heq (hdup2 oldFd newFd)⟩
  | ok r =>
    cases h
    obtain ⟨hpos, heffect⟩ := hok r.1 r.2 rfl
    exact ⟨fun h => absurd h (not_lt.mpr hpos), fun _ => heffect,
      fun oldFd newFd heq => absurd heq (hdup2 oldFd newFd)⟩

/-- The commands of `fcntl` that copy a descriptor. -/
theorem sysFcntl_dup (hcmd : cmd.toUInt32 = fDupfd ∨ cmd.toUInt32 = fDupfdCloexec) :
    sysFcntl ops t fd cmd arg = some (syscallBody t (dupFd t fd)) :=
  if_pos hcmd

/-- The others leave the table as it is. -/
theorem sysFcntl_other (ops : FileLike α) (t : FdTable α) (fd : Int32)
    (hcmd : ¬ (cmd.toUInt32 = fDupfd ∨ cmd.toUInt32 = fDupfdCloexec))
    (hsetfd : cmd.toUInt32 = fSetfd → arg ≤ 2) :
    ∃ ret, sysFcntl ops t fd cmd arg = some (t, ret) := by
  have hsame : ∀ body : Except LinuxError Int,
      ∃ ret, syscallBody t (body.map fun v => (v, t)) = (t, ret) := by
    intro body
    cases body with
    | error e => exact ⟨-e.code, rfl⟩
    | ok v => exact ⟨v, rfl⟩
  unfold sysFcntl
  rw [if_neg hcmd]
  split_ifs with hsetfl hstd hgetfl hset harg
  · exact ⟨0, rfl⟩
  · obtain ⟨ret, hret⟩ := hsame (setFlags ops t fd arg)
    exact ⟨ret, congrArg some hret⟩
  · obtain ⟨ret, hret⟩ := hsame (getFlags ops t fd)
    exact ⟨ret, congrArg some hret⟩
  · exact ⟨0, rfl⟩
  · exact absurd (hsetfd hset) (by omega)
  · exact ⟨0, rfl⟩

/-! ### `dup2` -/

theorem sysDup2_self : sysDup2 ops t fd fd = some (t, fd.toInt) := by
  have hget : sysFcntl ops t fd fGetfd.toInt32 0 = some (t, 0) := rfl
  rw [sysDup2, if_pos rfl]
  rfl

/-- The new descriptor is not open. -/
theorem sysDup2_closed (hne : fd ≠ newFd) (h : t.view newFd.toInt = none) :
    sysDup2 ops t fd newFd = some (t, -9) := by
  rw [sysDup2, if_neg hne, closeFileLike_error h]
  split_ifs <;> rfl

/-- The new descriptor is open. It is closed first, also if the old one is not open. -/
theorem sysDup2_open (ops : FileLike α) (hne : fd ≠ newFd) (h : (t.view newFd.toInt).isSome) :
    ∃ t', sysDup2 ops t fd newFd = some (t', if (t.view fd.toInt).isSome then newFd.toInt else -9) ∧
      t'.view = update t.view newFd.toInt (t.view fd.toInt) := by
  have hlt := asUsize_lt_of_view h
  obtain ⟨t₁, hclose, hview⟩ := closeFileLike_ok h
  have hold : t₁.view fd.toInt = t.view fd.toInt := by
    rw [hview]
    exact update_of_ne (fun heq => hne (Int32.toInt.inj heq)) ..
  rw [sysDup2, if_neg hne, if_neg (not_le.mpr hlt), hclose]
  cases hf : t.view fd.toInt with
  | none =>
    refine ⟨t₁, ?_, hview⟩
    simp only [getFileLike_error (hold.trans hf)]
    rfl
  | some f =>
    have hfree : t₁.get (asUsize newFd) = none := by
      rw [get_asUsize, hview, update_self]
    obtain ⟨t₂, hadd, hget⟩ := addAt_of_free f hfree hlt
    have hview₂ := view_update hget
    rw [natCast_asUsize hlt, hview, update_idem] at hview₂
    refine ⟨t₂, ?_, hview₂⟩
    simp only [getFileLike_ok.mpr (hold.trans hf), hadd]
    rfl

theorem sysDup2_total (ops : FileLike α) (t : FdTable α) (fd newFd : Int32) :
    ∃ t' ret, sysDup2 ops t fd newFd = some (t', ret) := by
  by_cases hne : fd = newFd
  · subst hne
    exact ⟨t, _, sysDup2_self⟩
  · cases h : t.view newFd.toInt with
    | none => exact ⟨t, _, sysDup2_closed hne h⟩
    | some f =>
      obtain ⟨t', heq, -⟩ := sysDup2_open ops hne (t := t) (by rw [h]; rfl)
      exact ⟨t', _, heq⟩

/-- `dup3` returns the new descriptor, whatever `dup2` says. -/
theorem sysDup3_eq {flags : Int32} (hne : fd ≠ newFd)
    (h : sysDup2 ops t fd newFd = some (t', ret)) :
    sysDup3 ops t fd newFd flags = some (t', newFd.toInt) := by
  have hset : sysFcntl ops t' newFd fSetfd.toInt32 fdCloexec = some (t', 0) := rfl
  rw [sysDup3, if_neg hne, h]
  simp only [bind_eq_bind, bind_some, hset, ite_self]

/-! ## Every call -/

/-- The calls without `F_SETFD`, except to the standard descriptors, where it does nothing. -/
def InScope : FdCall α → Prop
  | .fcntl _ cmd arg => cmd.toUInt32 = fSetfd → arg ≤ 2
  | _ => True

/-- Where the calls agree with `Posix`: `dup2` to another number needs both descriptors open or both
closed, `dup3` needs both open, `dup2` to the same number needs it open, and no unused number lies
below the lowest one that `F_DUPFD` is asked for. -/
def CallOk (d : Descriptors α) : FdCall α → Prop
  | .dup2 oldFd newFd =>
    (oldFd = newFd → (d oldFd.toInt).isSome) ∧
      (oldFd ≠ newFd → 0 ≤ newFd.toInt → newFd.toInt < ruxFileLimit →
        ((d oldFd.toInt).isSome ↔ (d newFd.toInt).isSome))
  | .dup3 oldFd newFd _ =>
    oldFd ≠ newFd → (d oldFd.toInt).isSome ∧ (d newFd.toInt).isSome
  | .fcntl fd cmd arg =>
    (cmd.toUInt32 = fDupfd ∨ cmd.toUInt32 = fDupfdCloexec) → (d fd.toInt).isSome →
      ∀ n : Int, 0 ≤ n → n < ruxFileLimit → d n = none → arg ≤ n
  | _ => True

/-- The calls of a sequence. -/
def CallsOk (ops : FileLike α) (t : FdTable α) : List (FdCall α) → Prop
  | [] => True
  | call :: calls =>
    CallOk t.view call ∧ ∀ t' ret, call.exec ops t = some (t', ret) → CallsOk ops t' calls

theorem view_lt (h : (t.view n).isSome) : 0 ≤ n ∧ n < ruxFileLimit := by
  unfold view at h
  split_ifs at h with hn
  · have hlt := lt_of_get h
    omega
  · cases h

theorem posix_dup2 (hok : CallOk t.view (.dup2 fd newFd))
    (h : sysDup2 ops t fd newFd = some (t', ret)) :
    Posix t.view t'.view (.dup2 fd newFd) ret := by
  by_cases hne : fd = newFd
  · subst hne
    have hopen := hok.1 rfl
    rw [sysDup2_self] at h
    cases h
    have hpos := (view_lt hopen).1
    refine ⟨fun hneg => absurd hneg (not_lt.mpr hpos), fun _ => ⟨rfl, hopen, ?_⟩,
      fun _ _ _ _ _ _ => hpos⟩
    exact (update_eq_self ..).symm
  · have hboth := hok.2 hne
    cases hnew : t.view newFd.toInt with
    | none =>
      rw [sysDup2_closed hne hnew] at h
      cases h
      refine ⟨fun _ => rfl, fun hpos => absurd hpos (by decide), ?_⟩
      rintro _ _ ⟨⟩ hold hlow hhigh
      rw [hnew] at hboth
      cases (hboth hlow hhigh).mp hold
    | some f =>
      have hsome : (t.view newFd.toInt).isSome := by rw [hnew]; rfl
      obtain ⟨hlow, hhigh⟩ := view_lt hsome
      have hold := (hboth hlow hhigh).mpr hsome
      obtain ⟨t₁, heq, hview⟩ := sysDup2_open ops hne hsome
      rw [heq, if_pos hold] at h
      cases h
      exact ⟨fun hneg => absurd hneg (not_lt.mpr hlow), fun _ => ⟨rfl, hold, hview⟩,
        fun _ _ _ _ _ _ => hlow⟩

theorem posix_dup3 {flags : Int32} (hok : CallOk t.view (.dup3 fd newFd flags))
    (h : sysDup3 ops t fd newFd flags = some (t', ret)) :
    Posix t.view t'.view (.dup3 fd newFd flags) ret := by
  by_cases hne : fd = newFd
  · rw [sysDup3, if_pos hne] at h
    cases h
    exact ⟨fun _ => rfl, fun hpos => absurd hpos (by decide), fun _ _ heq => by cases heq⟩
  obtain ⟨hold, hnew⟩ := hok hne
  obtain ⟨t₁, heq, hview⟩ := sysDup2_open ops hne hnew
  rw [sysDup3_eq hne heq] at h
  cases h
  exact ⟨fun hneg => absurd hneg (not_lt.mpr (view_lt hnew).1), fun _ => ⟨rfl, hold, hview⟩,
    fun _ _ heq => by cases heq⟩

theorem posix_fcntl (hscope : InScope (α := α) (.fcntl fd cmd arg))
    (hok : CallOk t.view (.fcntl fd cmd arg)) (h : sysFcntl ops t fd cmd arg = some (t', ret)) :
    Posix t.view t'.view (.fcntl fd cmd arg) ret := by
  by_cases hcmd : cmd.toUInt32 = fDupfd ∨ cmd.toUInt32 = fDupfdCloexec
  · rw [sysFcntl_dup hcmd] at h
    refine posix_syscallBody h (fun _ _ heq => by cases heq) fun v t₁ hv => ?_
    obtain ⟨hpos, hlt, hsome, hfree, hview⟩ := dupFd_ok hv
    refine ⟨hpos, ?_⟩
    rw [Effect, if_pos hcmd]
    exact ⟨hok hcmd hsome v hpos hlt hfree, hsome, hfree, hview⟩
  · obtain ⟨r, hr⟩ := sysFcntl_other ops t fd hcmd hscope
    rw [hr] at h
    cases h
    refine ⟨fun _ => rfl, fun _ => ?_, fun _ _ heq => by cases heq⟩
    rw [Effect, if_neg hcmd]

/-- A call that keeps to the conditions does what `Posix` says. -/
theorem posix_exec (hscope : InScope call) (hok : CallOk t.view call)
    (h : call.exec ops t = some (t', ret)) : Posix t.view t'.view call ret := by
  cases call with
  | open_ f =>
    refine posix_syscallBody h (fun _ _ heq => by cases heq) fun v t₁ hv => ?_
    obtain ⟨hpos, -, hfree, hview⟩ := addFileLike_ok hv
    exact ⟨hpos, hfree, hview⟩
  | close fd =>
    rw [FdCall.exec, sysClose] at h
    split_ifs at h with hstd
    · cases h
      exact ⟨fun _ => rfl, fun _ => .inr ⟨hstd.1, hstd.2, rfl⟩, fun _ _ heq => by cases heq⟩
    refine posix_syscallBody h (fun _ _ heq => by cases heq) fun v t₁ hv => ?_
    cases hopen : t.view fd.toInt with
    | none =>
      rw [closeFileLike_error hopen] at hv
      cases hv
    | some f =>
      have hsome : (t.view fd.toInt).isSome := by rw [hopen]; rfl
      obtain ⟨t₂, hclose, hview⟩ := closeFileLike_ok hsome
      rw [hclose] at hv
      cases hv
      exact ⟨le_rfl, .inl hview⟩
  | dup oldFd =>
    refine posix_syscallBody h (fun _ _ heq => by cases heq) fun v t₁ hv => ?_
    obtain ⟨hpos, -, hsome, hfree, hview⟩ := dupFd_ok hv
    exact ⟨hpos, hsome, hfree, hview⟩
  | dup2 oldFd newFd => exact posix_dup2 hok h
  | dup3 oldFd newFd flags => exact posix_dup3 hok h
  | fcntl fd cmd arg => exact posix_fcntl hscope hok h

theorem exec_total (ops : FileLike α) (t : FdTable α) (hscope : InScope call) :
    ∃ t' ret, call.exec ops t = some (t', ret) := by
  cases call with
  | open_ f | close fd | dup oldFd => exact ⟨_, _, congrArg some Prod.mk.eta.symm⟩
  | dup2 oldFd newFd => exact sysDup2_total ops t oldFd newFd
  | dup3 oldFd newFd flags =>
    by_cases hne : oldFd = newFd
    · exact ⟨_, _, if_pos hne⟩
    · obtain ⟨t', ret, h⟩ := sysDup2_total ops t oldFd newFd
      exact ⟨t', _, sysDup3_eq hne h⟩
  | fcntl fd cmd arg =>
    by_cases hcmd : cmd.toUInt32 = fDupfd ∨ cmd.toUInt32 = fDupfdCloexec
    · exact ⟨_, _, (sysFcntl_dup hcmd).trans (congrArg some Prod.mk.eta.symm)⟩
    · obtain ⟨ret, h⟩ := sysFcntl_other ops t fd hcmd hscope
      exact ⟨t, ret, h⟩

end View

/-- **The descriptor table.** Whatever the arguments are, a sequence of calls returns. If each call
keeps to `CallOk`, the sequence is one that `Posix` allows. -/
theorem descriptor_calls_posix {α : Type} (ops : FileLike α) (t : FdTable α)
    (calls : List (FdCall α)) (hscope : ∀ call ∈ calls, InScope call) :
    ∃ t' rets, FdCall.execAll ops t calls = some (t', rets) ∧
      (CallsOk ops t calls → PosixRun t.view calls rets t'.view) := by
  induction calls generalizing t with
  | nil => exact ⟨t, [], rfl, fun _ => .nil _⟩
  | cons call calls ih =>
    obtain ⟨hcall, hcalls⟩ := List.forall_mem_cons.mp hscope
    obtain ⟨t₁, ret, hexec⟩ := exec_total ops t hcall
    obtain ⟨t₂, rets, hall, hrun⟩ := ih t₁ hcalls
    refine ⟨t₂, ret :: rets, ?_, fun hok => ?_⟩
    · simp only [FdCall.execAll, hexec, hall, bind_eq_bind, bind_some]
    · exact .cons (posix_exec hcall hok.1 hexec) (hrun (hok.2 t₁ ret hexec))

/-- File objects that are ready and accept every mode. -/
def sampleOps : FileLike ℕ := ⟨fun _ => .ok ⟨true, true⟩, fun _ _ => .ok ()⟩

/-- The table at the start. -/
def sampleTable : FdTable ℕ := (mustExec .new 10 11 11).get rfl

/-- `stdout` is copied, and the copy is replaced by one of `stdin`. -/
theorem descriptor_calls_posix_sample :
    ∃ t', FdCall.execAll sampleOps sampleTable [.dup 1, .dup2 0 3] = some (t', [3, 3]) ∧
      t'.view 3 = some 10 ∧
      PosixRun sampleTable.view [.dup 1, .dup2 0 3] [3, 3] t'.view := by
  have hopen : ∀ t ret, FdCall.exec sampleOps sampleTable (.dup 1) = some (t, ret) →
      (t.view 0).isSome ∧ (t.view 3).isSome := by
    intro t ret h
    have hviews : (FdCall.exec sampleOps sampleTable (.dup 1)).map
        (fun r => ((r.1.view 0).isSome, (r.1.view 3).isSome)) = some (true, true) := by
      decide +kernel
    rw [h] at hviews
    simpa using hviews
  have hok : CallsOk sampleOps sampleTable [.dup 1, .dup2 0 3] := by
    refine ⟨trivial, fun t ret h => ⟨⟨fun heq => absurd heq (by decide), fun _ _ _ => ?_⟩,
      fun _ _ _ => trivial⟩⟩
    exact iff_of_true (hopen t ret h).1 (hopen t ret h).2
  obtain ⟨t', rets, hall, hrun⟩ := descriptor_calls_posix sampleOps sampleTable
    [.dup 1, .dup2 0 3] (by simp [InScope])
  have hresult : (FdCall.execAll sampleOps sampleTable [.dup 1, .dup2 0 3]).map
      (fun r => (r.2, r.1.view 3)) = some ([3, 3], some 10) := by decide +kernel
  rw [hall] at hresult
  obtain ⟨rfl, hview⟩ := by
    simpa only [map_some, some.injEq, Prod.mk.injEq] using hresult
  exact ⟨t', hall, hview, hrun hok⟩

theorem exec_sample {call : FdCall ℕ} {t' : FdTable ℕ} {ret : Int} {v : Int × Option ℕ × Option ℕ}
    (h : call.exec sampleOps sampleTable = some (t', ret))
    (hv : (call.exec sampleOps sampleTable).map (fun r => (r.2, r.1.view 1, r.1.view 5)) = some v) :
    ret = v.1 ∧ t'.view 1 = v.2.1 ∧ t'.view 5 = v.2.2 := by
  rw [h] at hv
  cases hv
  exact ⟨rfl, rfl, rfl⟩

/-- With the standard descriptors open, the call does what it should not. -/
def NotPosix (call : FdCall ℕ) : Prop :=
  ∃ t' ret, call.exec sampleOps sampleTable = some (t', ret) ∧
    ¬ Posix sampleTable.view t'.view call ret

theorem notPosix_of {call : FdCall ℕ} (hscope : InScope call)
    (h : ∀ t' ret, call.exec sampleOps sampleTable = some (t', ret) →
      ¬ Posix sampleTable.view t'.view call ret) : NotPosix call := by
  obtain ⟨t', ret, hexec⟩ := exec_total sampleOps sampleTable hscope
  exact ⟨t', ret, hexec, h t' ret hexec⟩

/-- With the standard descriptors open: `dup2` to an unused number fails, `dup2` from an unused one
to itself succeeds, `dup2` from an unused one to another closes the target and fails, `dup3`
succeeds without effect, and `F_DUPFD` returns a number below the lowest one asked for. -/
theorem descriptor_calls_not_posix :
    NotPosix (.dup2 0 5) ∧ NotPosix (.dup2 7 7) ∧ NotPosix (.dup2 9 1) ∧ NotPosix (.dup3 0 5 0) ∧
      NotPosix (.fcntl 0 0 10) := by
  refine ⟨notPosix_of trivial ?_, notPosix_of trivial ?_, notPosix_of trivial ?_,
    notPosix_of trivial ?_, notPosix_of (fun hset => absurd hset (by decide)) ?_⟩
  · intro t' ret h hposix
    obtain ⟨rfl, -, -⟩ := exec_sample (v := (-9, some 11, none)) h (by decide +kernel)
    exact absurd (hposix.dup2 0 5 rfl (by decide +kernel) (by decide) (by decide)) (by decide)
  · intro t' ret h hposix
    obtain ⟨rfl, -, -⟩ := exec_sample (v := (7, some 11, none)) h (by decide +kernel)
    exact absurd (hposix.effect (by decide)).2.1 (by decide +kernel)
  · intro t' ret h hposix
    obtain ⟨rfl, hview, -⟩ := exec_sample (v := (-9, none, none)) h (by decide +kernel)
    have hsame := congrFun (hposix.unchanged (by decide)) 1
    rw [hview] at hsame
    exact absurd hsame (by decide +kernel)
  · intro t' ret h hposix
    obtain ⟨rfl, -, hview⟩ := exec_sample (v := (5, some 11, none)) h (by decide +kernel)
    have hsame := congrFun (hposix.effect (by decide)).2.2 5
    rw [hview] at hsame
    exact absurd hsame (by decide +kernel)
  · intro t' ret h hposix
    obtain ⟨rfl, -, -⟩ := exec_sample (v := (3, some 11, none)) h (by decide +kernel)
    have heffect := hposix.effect (by decide)
    rw [Effect, if_pos (by decide)] at heffect
    exact absurd heffect.1 (by decide)

end HvisorRux.Rux.Fd
