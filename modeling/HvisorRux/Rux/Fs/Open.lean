import HvisorRux.Rux.Fs.File

/-!
# Opening files

The flags of `open` become options (`flags_to_options` of `imp/fs.rs`), the options a capability,
and every call on the open file checks the capability. A file that is opened to be read only can be
written if it is also opened to be appended to.
-/

namespace HvisorRux.Rux.Fs

open Common Option

/-! ## The model -/

def O_RDONLY : UInt32 := 0
def O_WRONLY : UInt32 := 1
def O_RDWR : UInt32 := 2
def O_CREAT : UInt32 := 0o100
def O_TRUNC : UInt32 := 0o1000
def O_APPEND : UInt32 := 0o2000

/-- `O_PATH`. -/
def O_EXEC : UInt32 := 0o10000000

/-- `OpenOptions`. -/
structure OpenOptions where
  read : Bool
  write : Bool
  append : Bool
  truncate : Bool
  create : Bool
  createNew : Bool
deriving DecidableEq, Repr

/-- The access mode. -/
def accessMode (flags : UInt32) : UInt32 := flags &&& 0b11

/-- Whether the access mode is to read and to write. -/
def modeRights (flags : UInt32) : Bool × Bool :=
  if accessMode flags = O_RDONLY then (true, false)
  else if accessMode flags = O_WRONLY then (false, true)
  else (true, true)

def flagsToOptions (flags : UInt32) : OpenOptions where
  read := (modeRights flags).1
  write := (modeRights flags).2
  append := flags &&& O_APPEND ≠ 0
  truncate := flags &&& O_TRUNC ≠ 0
  create := flags &&& O_CREAT ≠ 0
  createNew := flags &&& O_EXEC ≠ 0

namespace OpenOptions

def isValid (opts : OpenOptions) : Bool :=
  if !opts.read && !opts.write && !opts.append then false
  else
    match opts.write, opts.append with
    | true, false => true
    | false, false => !(opts.truncate || opts.create || opts.createNew)
    | _, true => !(opts.truncate && !opts.createNew)

/-- `From<&OpenOptions> for Cap`. -/
def toCap (opts : OpenOptions) : Cap := ⟨opts.read, opts.write || opts.append, false⟩

end OpenOptions

/-- `truncate(0)` of a node. -/
def Heap.clear (h : Heap) (i : ℕ) : Except VfsError Heap :=
  match h.nodes i with
  | some (.file _) => .ok (h.setFile i [])
  | _ => .error .isADirectory

namespace FsState

/-- `create_file(None, path)`. -/
def createFile (s : FsState) (path : List Char) : FsState × Except VfsError ℕ :=
  if path = [] then (s, .error .notFound)
  else if path.getLast? = some '/' then (s, .error .notADirectory)
  else
    let created :=
      match s.parentNodeOf path with
      | .rootDir => s.root.create s.heap path .file
      | .node i => s.heap.create i path .file
    match s.commit created with
    | (s, .error e) => (s, .error e)
    | (s, .ok ()) => (s, s.lookupFrom path)

/-- The node that is opened. -/
def openNode (s : FsState) (path : List Char) (opts : OpenOptions) : FsState × Except VfsError ℕ :=
  if opts.create || opts.createNew then
    match s.lookup path with
    | .ok node => (s, if opts.createNew then .error .alreadyExists else .ok node)
    | .error .notFound => s.createFile path
    | .error e => (s, .error e)
  else (s, s.lookup path)

/-- `File::open`. `permToCap` has what the permissions of a node allow its owner. -/
def openFile (permToCap : ℕ → Cap) (s : FsState) (path : List Char) (opts : OpenOptions) :
    FsState × Except VfsError File :=
  if !opts.isValid then (s, .error .invalidInput)
  else
    match s.openNode path opts with
    | (s, .error e) => (s, .error e)
    | (s, .ok node) =>
      if isDir s.heap node &&
          (opts.create || opts.createNew || opts.write || opts.append || opts.truncate) then
        (s, .error .isADirectory)
      else if !(permToCap node).contains opts.toCap then (s, .error .permissionDenied)
      else
        let file : File := ⟨node, opts.toCap, opts.append, 0⟩
        if opts.truncate then
          match s.commit (s.heap.clear node) with
          | (s, .error e) => (s, .error e)
          | (s, .ok ()) => (s, .ok file)
        else (s, .ok file)

end FsState

/-! ## Rights -/

namespace FileOp

def reads : FileOp → Bool
  | .read _ | .readAt _ _ => true
  | _ => false

def writes : FileOp → Bool
  | .truncate _ | .write _ | .writeAt _ _ => true
  | _ => false

/-- The access mode allows the call. -/
def Allowed (flags : UInt32) (op : FileOp) : Prop :=
  (op.reads → accessMode flags = O_RDONLY ∨ accessMode flags = O_RDWR) ∧
    (op.writes → accessMode flags = O_WRONLY ∨ accessMode flags = O_RDWR)

end FileOp

namespace File

variable {o : Overflow} {room : ℕ} {h h' : Heap} {f f' : File} {op : FileOp} {out : Outcome}
  {result : Except VfsError Reply}

/-- What the capability decides about a call: `need` is what the call needs. -/
structure Guarded (need : Bool) (h : Heap) (f : File) (out : Outcome) : Prop where
  denied : out.result = .error .permissionDenied ↔ need = false
  cap : out.file.cap = f.cap
  heap : f.cap.write = false → out.heap = h

/-- A call that needs a capability. -/
theorem guarded_of_cap {c : Bool} {body : Option Outcome}
    (hbody : c = true → body = some out → Guarded true h f out)
    (hexec : (if c then body else some ⟨h, f, .error .permissionDenied⟩) = some out) :
    Guarded c h f out := by
  cases c with
  | true => exact hbody rfl hexec
  | false =>
    cases hexec
    exact ⟨⟨fun _ => rfl, fun _ => rfl⟩, rfl, fun _ => rfl⟩

/-- A call with the capability to write. -/
theorem guarded_write (hwrite : f.cap.write = true)
    (hcap : f'.cap = f.cap) (hresult : result ≠ .error .permissionDenied) :
    Guarded true h f ⟨h', f', result⟩ where
  denied := ⟨fun heq => absurd heq hresult, fun heq => by cases heq⟩
  cap := hcap
  heap := fun hnot => by cases hnot.symm.trans hwrite

/-- A call that changes no node. -/
theorem guarded_read (hcap : f'.cap = f.cap)
    (hresult : result ≠ .error .permissionDenied) : Guarded true h f ⟨h, f', result⟩ where
  denied := ⟨fun heq => absurd heq hresult, fun heq => by cases heq⟩
  cap := hcap
  heap := fun _ => rfl

theorem error_of_editFile {i : ℕ} {g : List UInt8 → Option (List UInt8)} {e : VfsError}
    (hedit : h.editFile i g = some (.error e)) : e = .isADirectory := by
  unfold Heap.editFile at hedit
  split at hedit
  · obtain ⟨content', -, heq⟩ := map_eq_some_iff.mp hedit
    cases heq
  · exact (Except.error.inj (some.inj hedit)).symm

variable {offset n : ℕ} {buf : List UInt8}

theorem error_of_readAt {i : ℕ} {e : VfsError} (hread : h.readAt o i offset n = some (.error e)) :
    e = .isADirectory := by
  unfold Heap.readAt at hread
  split at hread
  · obtain ⟨bs, -, heq⟩ := map_eq_some_iff.mp hread
    cases heq
  · exact (Except.error.inj (some.inj hread)).symm

theorem isADirectory_ne : (.error .isADirectory : Except VfsError Reply) ≠
    .error .permissionDenied := by decide

theorem guarded_truncate {size : ℕ} (hexec : f.truncate room h size = some out) :
    Guarded f.cap.write h f out := by
  refine guarded_of_cap (fun hcap hexec => ?_) hexec
  split at hexec
  · cases hexec
  · next e heq =>
    obtain rfl := error_of_editFile heq
    exact some.inj hexec ▸ guarded_read rfl isADirectory_ne
  · exact some.inj hexec ▸ guarded_write hcap rfl (fun heq => by cases heq)

theorem guarded_writeAt (hexec : f.writeAt o room h offset buf = some out) :
    Guarded f.cap.write h f out := by
  refine guarded_of_cap (fun hcap hexec => ?_) hexec
  split at hexec
  · cases hexec
  · next e heq =>
    obtain rfl := error_of_editFile heq
    exact some.inj hexec ▸ guarded_read rfl isADirectory_ne
  · exact some.inj hexec ▸ guarded_write hcap rfl (fun heq => by cases heq)

theorem guarded_write_call (hexec : f.write o room h buf = some out) :
    Guarded f.cap.write h f out := by
  refine guarded_of_cap (fun hcap hexec => ?_) hexec
  dsimp only at hexec
  have hsame : (if f.isAppend then { f with offset := h.fileSize f.node } else f).cap = f.cap := by
    split <;> rfl
  split at hexec
  · cases hexec
  · next e heq =>
    obtain rfl := error_of_editFile heq
    exact some.inj hexec ▸ guarded_read hsame isADirectory_ne
  · obtain ⟨offset, -, rfl⟩ := map_eq_some_iff.mp hexec
    exact guarded_write hcap hsame (fun heq => by cases heq)

theorem guarded_readAt (hexec : f.readAt o h offset n = some out) : Guarded f.cap.read h f out := by
  refine guarded_of_cap (fun hcap hexec => ?_) hexec
  obtain ⟨r, hr, rfl⟩ := map_eq_some_iff.mp hexec
  cases r with
  | error e =>
    obtain rfl := error_of_readAt hr
    exact guarded_read rfl isADirectory_ne
  | ok bs => exact guarded_read rfl (fun heq => by cases heq)

theorem guarded_read_call (hexec : f.read o h n = some out) : Guarded f.cap.read h f out := by
  refine guarded_of_cap (fun hcap hexec => ?_) hexec
  split at hexec
  · cases hexec
  · next e heq =>
    obtain rfl := error_of_readAt heq
    exact some.inj hexec ▸ guarded_read rfl isADirectory_ne
  · obtain ⟨offset, -, rfl⟩ := map_eq_some_iff.mp hexec
    exact guarded_read rfl (fun heq => by cases heq)

theorem guarded_seek {pos : SeekFrom} (hexec : f.seek h pos = some out) : Guarded true h f out := by
  unfold seek at hexec
  split at hexec
  · exact some.inj hexec ▸ guarded_read rfl (fun heq => by cases heq)
  · exact some.inj hexec ▸ guarded_read rfl (by decide)

/-- The capability has what the call needs. -/
def permits (f : File) (op : FileOp) : Bool :=
  (!op.reads || f.cap.read) && (!op.writes || f.cap.write)

theorem guarded_exec (hexec : f.exec o room h op = some out) : Guarded (f.permits op) h f out := by
  cases op with
  | truncate size => exact guarded_truncate hexec
  | read n =>
    rw [show f.permits (.read n) = f.cap.read from Bool.and_true _]
    exact guarded_read_call hexec
  | readAt offset n =>
    rw [show f.permits (.readAt offset n) = f.cap.read from Bool.and_true _]
    exact guarded_readAt hexec
  | write buf => exact guarded_write_call hexec
  | writeAt offset buf => exact guarded_writeAt hexec
  | seek pos => exact guarded_seek hexec

/-- Every call of a sequence is denied exactly if the capability does not have what it needs, and
without that to write no node changes. -/
theorem guarded_execAll {ops : List FileOp} {results : List (Except VfsError Reply)}
    (hrun : f.execAll o room h ops = some (h', f', results)) :
    (∀ p ∈ ops.zip results, p.2 = .error .permissionDenied ↔ f.permits p.1 = false) ∧
      (f.cap.write = false → h' = h) := by
  induction ops generalizing h f results with
  | nil =>
    cases hrun
    exact ⟨fun p hp => absurd hp List.not_mem_nil, fun _ => rfl⟩
  | cons op ops ih =>
    unfold execAll at hrun
    split at hrun
    · cases hrun
    rename_i out hexec
    obtain ⟨⟨h₁, f₁, results₁⟩, hrest, heq⟩ := map_eq_some_iff.mp hrun
    obtain ⟨rfl, rfl, rfl⟩ : h₁ = h' ∧ f₁ = f' ∧ out.result :: results₁ = results := by
      simpa only [Prod.mk.injEq] using heq
    have hguarded := guarded_exec hexec
    obtain ⟨hdenied, hheap⟩ := ih hrest
    rw [hguarded.cap] at hheap
    refine ⟨List.forall_mem_cons.mpr ⟨hguarded.denied, fun p hp => ?_⟩, fun hcap => ?_⟩
    · rw [hdenied p hp, permits, permits, hguarded.cap]
    · exact (hheap hcap).trans (hguarded.heap hcap)

end File

/-! ## Open files -/

namespace FsState

variable {permToCap : ℕ → Cap} {s s' : FsState} {path : List Char} {flags : UInt32} {f : File}
  {opts : OpenOptions}

/-- The capability of an open file is that of the options. -/
theorem cap_of_openFile (hopen : (s.openFile permToCap path opts).2 = .ok f) :
    f.cap = opts.toCap := by
  unfold openFile at hopen
  split at hopen
  · cases hopen
  split at hopen
  · cases hopen
  split_ifs at hopen with hdir hperm htruncate
  · split at hopen
    · cases hopen
    · cases hopen
      rfl
  · cases hopen
    rfl

/-- A file that is opened without any way to write is not changed by that. -/
theorem openFile_readOnly (hwrite : opts.write = false)
    (happend : opts.append = false) : (s.openFile permToCap path opts).1 = s := by
  unfold openFile
  split
  · rfl
  rename_i hvalid
  -- the options that create or truncate are invalid here
  have hnone : opts.truncate = false ∧ opts.create = false ∧ opts.createNew = false := by
    unfold OpenOptions.isValid at hvalid
    simp_all
  have hnode : s.openNode path opts = (s, s.lookup path) := by
    rw [openNode, hnone.2.1, hnone.2.2]
    rfl
  rw [hnode, hnone.1]
  cases s.lookup path with
  | error e => rfl
  | ok node =>
    dsimp only
    split_ifs with hdir hperm hnot
    · rfl
    · rfl
    · cases hnot
    · rfl

theorem accessMode_cases (hmode : accessMode flags ≠ 3) :
    accessMode flags = O_RDONLY ∨ accessMode flags = O_WRONLY ∨ accessMode flags = O_RDWR := by
  have hle : (accessMode flags).toNat ≤ 3 := by
    exact Nat.and_le_right
  have hne : (accessMode flags).toNat ≠ 3 := fun heq => hmode (UInt32.toNat_inj.mp heq)
  rw [← UInt32.toNat_inj, ← UInt32.toNat_inj, ← UInt32.toNat_inj]
  show (accessMode flags).toNat = 0 ∨ (accessMode flags).toNat = 1 ∨ (accessMode flags).toNat = 2
  omega

theorem modeRights_readOnly (h : accessMode flags = O_RDONLY) : modeRights flags = (true, false) :=
  if_pos h

section

variable (hmode : accessMode flags ≠ 3)
  (happend : accessMode flags = O_RDONLY → flags &&& O_APPEND = 0)

include hmode happend

/-- The capability has what the access mode allows, unless a file to be read only is also to be
appended to. -/
theorem toCap_flagsToOptions : ((flagsToOptions flags).toCap.read = true ↔
        accessMode flags = O_RDONLY ∨ accessMode flags = O_RDWR) ∧
      ((flagsToOptions flags).toCap.write = true ↔
        accessMode flags = O_WRONLY ∨ accessMode flags = O_RDWR) := by
  show ((modeRights flags).1 = true ↔ _) ∧
    (((modeRights flags).2 || decide (flags &&& O_APPEND ≠ 0)) = true ↔ _)
  obtain h | h | h := accessMode_cases hmode
  · rw [modeRights_readOnly h, happend h, h]
    decide
  · have hrights : modeRights flags = (false, true) := by
      rw [modeRights, h]
      decide
    rw [hrights, h, Bool.true_or]
    decide
  · have hrights : modeRights flags = (true, true) := by
      rw [modeRights, h]
      decide
    rw [hrights, h, Bool.true_or]
    decide

theorem permits_iff (hcap : f.cap = (flagsToOptions flags).toCap) (op : FileOp) :
    f.permits op = true ↔ op.Allowed flags := by
  obtain ⟨hread, hwrite⟩ := toCap_flagsToOptions hmode happend
  rw [File.permits, hcap, Bool.and_eq_true, Bool.or_eq_true, Bool.or_eq_true, hread, hwrite,
    FileOp.Allowed]
  cases op.reads <;> cases op.writes <;> simp

end

/-- If a file that is opened to be read only is not opened to be appended to as well, the calls on
it are allowed exactly as its access mode says, and a file to be read only changes nothing. -/
theorem open_rights_follow_mode (hmode : accessMode flags ≠ 3)
    (happend : accessMode flags = O_RDONLY → flags &&& O_APPEND = 0) :
    (accessMode flags = O_RDONLY → (s.openFile permToCap path (flagsToOptions flags)).1 = s) ∧
      ∀ f, (s.openFile permToCap path (flagsToOptions flags)).2 = .ok f →
        ∀ o room h ops h' f' results, f.execAll o room h ops = some (h', f', results) →
          (∀ p ∈ ops.zip results, p.2 = .error .permissionDenied ↔ ¬ p.1.Allowed flags) ∧
            (accessMode flags = O_RDONLY → h' = h) := by
  have hmodeWrite : accessMode flags = O_RDONLY → (flagsToOptions flags).write = false ∧
      (flagsToOptions flags).append = false := by
    intro h
    refine ⟨congrArg Prod.snd (modeRights_readOnly h), ?_⟩
    show decide (flags &&& O_APPEND ≠ 0) = false
    rw [happend h]
    rfl
  refine ⟨fun h => openFile_readOnly (hmodeWrite h).1 (hmodeWrite h).2, ?_⟩
  intro f hopen o room h ops h' f' results hrun
  have hcap := cap_of_openFile hopen
  obtain ⟨hdenied, hheap⟩ := File.guarded_execAll hrun
  refine ⟨fun p hp => ?_, fun hread => hheap ?_⟩
  · rw [hdenied p hp, ← permits_iff hmode happend hcap, Bool.not_eq_true]
  · rw [hcap, OpenOptions.toCap, (hmodeWrite hread).1, (hmodeWrite hread).2]
    rfl

/-! ### A file that is read and appended to -/

def oneFile : FsState :=
  init ⟨⟨0⟩, []⟩
    { nodes
        | 0 => some (.dir ⟨none, OrdMap.empty.insert "f".toList 1⟩)
        | 1 => some (.file [1])
        | _ => none
      next := 2 }

/-- All nodes can be read and written by their owner. -/
def ownerCap (_ : ℕ) : Cap := ⟨true, true, false⟩

theorem open_rights_follow_mode_sample :
    ∃ f, (oneFile.openFile ownerCap "/f".toList (flagsToOptions O_RDONLY)).2 = .ok f ∧
      ∀ h' f' results, f.execAll .wraps 4096 oneFile.heap [.write [2], .read 4] =
        some (h', f', results) → h' = oneFile.heap := by
  have hopen : (oneFile.openFile ownerCap "/f".toList (flagsToOptions O_RDONLY)).2 =
      .ok ⟨1, ⟨true, false, false⟩, false, 0⟩ := by decide +kernel
  have hmode : accessMode O_RDONLY ≠ 3 := by decide
  have happend : accessMode O_RDONLY = O_RDONLY → O_RDONLY &&& O_APPEND = 0 := by decide
  refine ⟨_, hopen, fun h' f' results hrun => ?_⟩
  exact ((open_rights_follow_mode hmode happend).2 _ hopen _ _ _ _ _ _ _ hrun).2 rfl

/-- A file that is opened with `O_RDONLY | O_APPEND` is written. -/
theorem read_only_file_written :
    accessMode (O_RDONLY ||| O_APPEND) = O_RDONLY ∧ oneFile.lookup "/f".toList = .ok 1 ∧
      oneFile.heap.nodes 1 = some (.file [1]) ∧
      ∃ f h' f', (oneFile.openFile ownerCap "/f".toList
          (flagsToOptions (O_RDONLY ||| O_APPEND))).2 = .ok f ∧
        f.execAll .panics 4096 oneFile.heap [.write [2]] = some (h', f', [.ok (.count 1)]) ∧
        h'.nodes 1 = some (.file [1, 2]) := by
  refine ⟨by decide, by decide +kernel, rfl, ⟨1, ⟨true, true, false⟩, true, 0⟩, _, _,
    by decide +kernel, rfl, rfl⟩

end FsState

end HvisorRux.Rux.Fs
