import HvisorRux.Bridge.System
import HvisorRux.Common.Ring
import HvisorRux.Common.Update

/-!
# The request ring is a lossless FIFO

The hypervisor reduces its index with `% MAX_REQ`, the daemon with `& (MAX_REQ - 1)`; both are the
position in the history of pushed requests modulo 32. `RingInv` relates front, rear and slots to
that history: a cpu that has passed the fullness test keeps its free slot, because only the holder
of the lock pushes and the daemon only frees slots.
-/

namespace HvisorRux.Bridge

open Common Function List Option

/-! ## Index arithmetic -/

/-- The index formulas of the two sides agree on every 32-bit value. -/
theorem nextFront_eq_mod (i : UInt32) : nextFront i = (i + 1) % maxReq := by
  apply UInt32.toNat_inj.mp
  exact Nat.and_two_pow_sub_one_eq_mod _ 5

/-- Advancing an index that stands for an absolute position. -/
theorem nextFront_toNat {i : UInt32} {k : ℕ} (h : i.toNat = k % 32) :
    (nextFront i).toNat = (k + 1) % 32 := by
  rw [nextFront_eq_mod, UInt32.toNat_mod, UInt32.toNat_add, h]
  show (k % 32 + 1) % 2 ^ 32 % 32 = (k + 1) % 32
  omega

namespace VcpuPc

/-- The program points at which the cpu holds `VIRTIO_BRIDGE`. -/
def holdsLock : VcpuPc → Prop
  | check _ | readFlag _ | write _ _ | publish _ _ | wakeup _ _ _ | unlock _ _ _ => True
  | _ => False

/-- The program points between the fullness test and the publication of the request. -/
def reserves : VcpuPc → Prop
  | readFlag _ | write _ _ | publish _ _ => True
  | _ => False

theorem reserves.holdsLock {pc : VcpuPc} (h : pc.reserves) : pc.holdsLock := by
  cases pc <;> first | exact h.elim | trivial

end VcpuPc

/-- The daemon has seen a request and has not yet advanced past it. -/
def DaemonPc.busy : DaemonPc → Prop
  | clear | handle | setValue _ | setFlag _ | advance => True
  | _ => False

section Invariant

variable {Cpu δ : Type} {d : Devices δ} {s s' : State Cpu δ} {c : Cpu}

/-- The number of requests the daemon has released: all it has handled, except that the last one is
still in its slot until `req_front` is stored. -/
def State.frontPos (s : State Cpu δ) : ℕ :=
  match s.daemon with
  | .advance => s.handled.length - 1
  | _ => s.handled.length

theorem State.frontPos_of_ne (h : s.daemon ≠ .advance) : s.frontPos = s.handled.length := by
  unfold State.frontPos
  split
  · contradiction
  · rfl

/-- The ring contains the unreleased requests, and every index stands for its position. -/
structure RingInv (s : State Cpu δ) : Prop where
  front_eq : s.bridge.reqFront = s.localFront
  localFront_eq : s.localFront.toNat = s.frontPos % 32
  rear_eq : s.bridge.reqRear.toNat = s.pushed.length % 32
  holds : Ring.Holds s.bridge.reqList 32 s.pushed s.frontPos
  room : s.pushed.length ≤ s.frontPos + 31
  handled_prefix : s.handled <+: s.pushed
  answers_length : s.answers.length = s.handled.length
  busy : s.daemon.busy → s.frontPos < s.pushed.length
  released : s.daemon = .advance → 0 < s.handled.length
  locked : ∀ c, (s.vcpu c).holdsLock → s.lock = some c
  reserved : ∀ c, (s.vcpu c).reserves → s.pushed.length < s.frontPos + 31
  written : ∀ c mmio old, s.vcpu c = .publish mmio old →
    s.bridge.reqList (s.pushed.length % 32) = mmio.request c

theorem RingInv.init (unused : DeviceReq Cpu) (dev : δ) : RingInv (init unused dev) where
  front_eq := rfl
  localFront_eq := rfl
  rear_eq := rfl
  holds := Ring.Holds.nil _ _
  room := Nat.zero_le _
  handled_prefix := prefix_refl _
  answers_length := rfl
  busy := fun h => h.elim
  released := fun h => by cases h
  locked := fun _ h => h.elim
  reserved := fun _ h => h.elim
  written := fun _ _ _ h => by cases h

/-- Only the holder of the lock can have a slot reserved. -/
theorem RingInv.eq_of_holdsLock (h : RingInv s) {c c' : Cpu} (hc : (s.vcpu c).holdsLock)
    (hc' : (s.vcpu c').holdsLock) : c = c' :=
  some.inj ((h.locked c hc).symm.trans (h.locked c' hc'))

/-- The fullness test compares positions. -/
theorem RingInv.isReqListFull_iff (h : RingInv s) :
    s.bridge.isReqListFull = true ↔ s.pushed.length = s.frontPos + 31 := by
  have hnext : ((s.bridge.reqRear + 1) &&& (maxReq - 1)).toNat = (s.pushed.length + 1) % 32 :=
    nextFront_toNat h.rear_eq
  have hfront : s.bridge.reqFront.toNat = s.frontPos % 32 := by rw [h.front_eq, h.localFront_eq]
  rw [VirtioBridge.isReqListFull, beq_iff_eq, ← UInt32.toNat_inj, hnext, hfront]
  have hroom := h.room
  have hle := h.holds.le_length
  constructor
  · intro hmod
    by_contra hne
    exact Ring.mod_ne_of_lt (show s.frontPos < s.pushed.length + 1 by omega) (by omega) hmod.symm
  · intro heq
    omega

/-- The daemon's emptiness test compares positions. -/
theorem RingInv.isQueueEmpty_iff (h : RingInv s) :
    isQueueEmpty s.localFront s.bridge.reqRear = true ↔ s.pushed.length = s.frontPos := by
  rw [isQueueEmpty, beq_iff_eq, ← UInt32.toNat_inj, h.rear_eq, h.localFront_eq]
  have hroom := h.room
  have hle := h.holds.le_length
  constructor
  · intro hmod
    by_contra hne
    exact Ring.mod_ne_of_lt (show s.frontPos < s.pushed.length by omega) (by omega) hmod.symm
  · intro heq
    rw [heq]

/-- The slot the daemon looks at contains the oldest unreleased request. -/
theorem RingInv.current_eq (h : RingInv s) (hlt : s.frontPos < s.pushed.length) :
    s.current = s.pushed[s.frontPos] := by
  rw [State.current, h.localFront_eq]
  exact h.holds.head hlt

/-! ## Steps of a cpu -/

variable [DecidableEq Cpu]

section

variable (h : RingInv s) {mmio : MMIOAccess}

include h

namespace RingInv

/-- Moving cpu `c`, possibly together with the lock, keeps the invariant when the new program point
is justified. -/
theorem move (l : Option Cpu) (pc : VcpuPc)
    (hothers : ∀ c', c' ≠ c → (s.vcpu c').holdsLock → l = some c')
    (hlock : pc.holdsLock → l = some c) (hres : pc.reserves → s.pushed.length < s.frontPos + 31)
    (hwritten : ∀ mmio old, pc = .publish mmio old →
      s.bridge.reqList (s.pushed.length % 32) = mmio.request c) :
    RingInv ({ s with lock := l }.setPc c pc) := by
  refine { h with locked := ?_, reserved := ?_, written := ?_ }
  · exact (forall_update_iff s.vcpu fun c' pc => pc.holdsLock → l = some c').mpr ⟨hlock, hothers⟩
  · exact (forall_update_iff s.vcpu fun _ pc => pc.reserves → _).mpr
      ⟨hres, fun c' _ => h.reserved c'⟩
  · exact (forall_update_iff s.vcpu fun c' pc => ∀ mmio old, pc = .publish mmio old →
      s.bridge.reqList (s.pushed.length % 32) = mmio.request c').mpr
        ⟨hwritten, fun c' _ => h.written c'⟩

/-- Moving cpu `c` to a program point outside the critical section, lock released. -/
theorem moveOut (hc : (s.vcpu c).holdsLock) (pc : VcpuPc) (hpc : ¬ pc.holdsLock) :
    RingInv ({ s with lock := none }.setPc c pc) := by
  refine h.move none pc ?_ (fun hl => absurd hl hpc) (fun hr => absurd hr.holdsLock hpc) ?_
  · intro c' hne hc'
    exact absurd (h.eq_of_holdsLock hc' hc) hne
  · rintro mmio old rfl
    exact absurd trivial hpc

/-- Moving cpu `c` without touching the lock, to a program point that reserves nothing. -/
theorem moveOn (pc : VcpuPc) (hlock : pc.holdsLock → (s.vcpu c).holdsLock)
    (hres : ¬ pc.reserves) : RingInv (s.setPc c pc) := by
  refine h.move s.lock pc (fun c' _ hc' => h.locked c' hc') (fun hl => h.locked c (hlock hl))
    (fun hr => absurd hr hres) ?_
  rintro mmio old rfl
  exact absurd trivial hres

/-- Storing the request into the reserved slot disturbs nothing the ring holds. -/
theorem writeReq {old : UInt64} (hc : s.vcpu c = .write mmio old) :
    RingInv ({ s with bridge := s.bridge.writeReq (mmio.request c) }.setPc c
      (.publish mmio old)) := by
  have hres : s.pushed.length < s.frontPos + 31 := h.reserved c (by rw [hc]; trivial)
  have hslot : (s.bridge.reqRear % maxReq).toNat = s.pushed.length % 32 := by
    rw [UInt32.toNat_mod, h.rear_eq]
    exact Nat.mod_mod _ _
  have hwrite : RingInv { s with bridge := s.bridge.writeReq (mmio.request c) } := by
    refine { h with holds := ?_, written := ?_ }
    · show Ring.Holds (update s.bridge.reqList _ _) 32 _ _
      rw [hslot]
      exact h.holds.write_free (by omega) _
    · -- a second cpu at `publish` would hold the lock as well
      intro c' mmio' old' hc'
      have hcc : c = c' := h.eq_of_holdsLock (by rw [hc]; trivial) (by rw [hc']; trivial)
      rw [← hcc, hc] at hc'
      contradiction
  refine hwrite.move s.lock _ (fun c' _ hc' => h.locked c' hc')
    (fun _ => h.locked c (by rw [hc]; trivial)) (fun _ => hres) ?_
  rintro mmio' old' heq
  obtain ⟨rfl, rfl⟩ : mmio = mmio' ∧ old = old' := by simpa using heq
  show update s.bridge.reqList _ _ (s.pushed.length % 32) = _
  rw [hslot, update_self]

/-- Publishing the stored request appends it to the history the ring holds. -/
theorem publishReq {old : UInt64} (hc : s.vcpu c = .publish mmio old) :
    RingInv ({ s with
      bridge := s.bridge.publishReq
      pushed := s.pushed ++ [mmio.request c] }.setPc c (.wakeup mmio old s.pushed.length)) := by
  have hres : s.pushed.length < s.frontPos + 31 := h.reserved c (by rw [hc]; trivial)
  have hlen : (s.pushed ++ [mmio.request c]).length = s.pushed.length + 1 := by simp
  have hnone : ∀ c', c' ≠ c → ¬ (s.vcpu c').holdsLock := fun c' hne hc' =>
    hne (h.eq_of_holdsLock hc' (by rw [hc]; trivial))
  refine ⟨h.front_eq, h.localFront_eq, ?_, ?_, ?_, ?_, h.answers_length, ?_, h.released, ?_, ?_, ?_⟩
  · show ((s.bridge.reqRear + 1) % maxReq).toNat = (s.pushed ++ [mmio.request c]).length % 32
    rw [hlen, ← nextFront_eq_mod]
    exact nextFront_toNat h.rear_eq
  · have hpub := h.holds.publish (by omega)
    rwa [h.written c mmio old hc] at hpub
  · show (s.pushed ++ [mmio.request c]).length ≤ s.frontPos + 31
    omega
  · exact h.handled_prefix.trans (prefix_append _ _)
  · intro hb
    show s.frontPos < (s.pushed ++ [mmio.request c]).length
    have := h.busy hb
    omega
  · exact (forall_update_iff s.vcpu fun c' pc => pc.holdsLock → s.lock = some c').mpr
      ⟨fun _ => h.locked c (by rw [hc]; trivial), fun c' _ => h.locked c'⟩
  · intro c' hc'
    obtain ⟨hcc, hc'⟩ := of_update (p := VcpuPc.reserves) hc' id
    exact absurd hc'.holdsLock (hnone c' hcc)
  · intro c' mmio' old' hc'
    obtain ⟨hcc, hc'⟩ := of_update_eq hc' (by simp)
    exact absurd (by rw [hc']; trivial) (hnone c' hcc)

/-- Every step of `mmio_virtio_handler` keeps the ring invariant. -/
theorem vcpuStep (hs : vcpuStep s c = some s') : RingInv s' := by
  unfold Bridge.vcpuStep at hs
  split at hs
  case h_1 => contradiction
  case h_2 mmio hc =>
    split at hs
    · next hfree =>
      cases hs
      refine h.move (some c) _ ?_ (fun _ => rfl) (fun hr => hr.elim) (fun _ _ heq => by cases heq)
      intro c' _ hc'
      rw [h.locked c' hc'] at hfree
      contradiction
    · contradiction
  case h_3 mmio hc =>
    have hheld : (s.vcpu c).holdsLock := by rw [hc]; trivial
    split at hs
    · cases hs; exact h.moveOut hheld _ (fun hl => hl)
    rename_i hfull
    cases hs
    refine h.move s.lock _ (fun c' _ hc' => h.locked c' hc') (fun _ => h.locked c hheld) ?_
      (fun _ _ heq => by cases heq)
    intro _
    have hne := mt h.isReqListFull_iff.mpr hfull
    have hroom := h.room
    omega
  case h_4 mmio hc =>
    cases hs
    refine h.move s.lock _ (fun c' _ hc' => h.locked c' hc')
      (fun _ => h.locked c (by rw [hc]; trivial)) (fun _ => h.reserved c (by rw [hc]; trivial))
      (fun _ _ heq => by cases heq)
  case h_5 mmio old hc => cases hs; exact h.writeReq hc
  case h_6 mmio old hc => cases hs; exact h.publishReq hc
  case h_7 mmio old k hc =>
    cases hs
    have hw : RingInv { s with wakePending := s.wakePending || s.bridge.needWakeup } := { h with }
    exact hw.moveOn _ (fun _ => by show (s.vcpu c).holdsLock; rw [hc]; trivial) (fun hr => hr)
  case h_8 mmio old k hc =>
    cases hs
    refine h.moveOut (by rw [hc]; trivial) _ ?_
    split <;> exact fun hl => hl
  case h_9 mmio old k hc =>
    split at hs
    · cases hs; exact h
    · cases hs
      refine h.moveOn _ ?_ ?_ <;> split <;> exact fun hl => hl.elim
  case h_10 mmio k hc => cases hs; exact h.moveOn _ (fun hl => hl.elim) (fun hr => hr)
  case h_11 => contradiction

end RingInv

end

/-! ## Steps of the daemon -/

section

variable (h : RingInv s)

include h

omit [DecidableEq Cpu] in
/-- A daemon step that leaves the ring and the histories alone and sees a request before it becomes
busy. -/
theorem RingInv.daemonMove (b : VirtioBridge Cpu) (dev : δ) (w : Bool) (pc : DaemonPc)
    (hb : b.reqFront = s.bridge.reqFront ∧ b.reqRear = s.bridge.reqRear ∧
      b.reqList = s.bridge.reqList) (hold : s.daemon ≠ .advance) (hnew : pc ≠ .advance)
    (hbusy : pc.busy → s.frontPos < s.pushed.length) :
    RingInv { s with bridge := b, dev := dev, wakePending := w, daemon := pc } := by
  have hpos : { s with bridge := b, dev := dev, wakePending := w, daemon := pc }.frontPos =
      s.frontPos := by
    rw [State.frontPos_of_ne hold, State.frontPos_of_ne hnew]
  rcases hb with ⟨hfront, hrear, hlist⟩
  exact { h with
    front_eq := hfront.trans h.front_eq
    localFront_eq := by rw [hpos]; exact h.localFront_eq
    rear_eq := (congrArg UInt32.toNat hrear).trans h.rear_eq
    holds := by
      rw [hpos]
      rw [hlist]
      exact h.holds
    room := by rw [hpos]; exact h.room
    busy := by rw [hpos]; exact hbusy
    released := fun heq => absurd heq hnew
    reserved := by rw [hpos]; exact h.reserved
    written := by
      intro c mmio old hc
      rw [hlist]
      exact h.written c mmio old hc }

omit [DecidableEq Cpu] in
/-- The end of `virtio_handle_req`: the request at the front of the ring joins the handled ones. -/
theorem RingInv.finish (b : VirtioBridge Cpu) (dev : δ) (value : UInt64)
    (hb : b.reqFront = s.bridge.reqFront ∧ b.reqRear = s.bridge.reqRear ∧
      b.reqList = s.bridge.reqList) (hbusy : s.daemon.busy) (hold : s.daemon ≠ .advance) :
    RingInv { s with
      bridge := b
      dev := dev
      daemon := .advance
      handled := s.handled ++ [s.current]
      answers := s.answers ++ [value] } := by
  have hlt := h.busy hbusy
  have hpos₀ : s.frontPos = s.handled.length := State.frontPos_of_ne hold
  rcases hb with ⟨hfront, hrear, hlist⟩
  have hpos : { s with
      bridge := b
      dev := dev
      daemon := .advance
      handled := s.handled ++ [s.current]
      answers := s.answers ++ [value] }.frontPos = s.frontPos := by
    simp [State.frontPos]
  exact {
    front_eq := hfront.trans h.front_eq
    localFront_eq := by rw [hpos]; exact h.localFront_eq
    rear_eq := (congrArg UInt32.toNat hrear).trans h.rear_eq
    holds := by
      rw [hpos]
      rw [hlist]
      exact h.holds
    room := by rw [hpos]; exact h.room
    handled_prefix := by
      -- the current request is the one that follows the handled ones in the history
      obtain ⟨rest, hrest⟩ := h.handled_prefix
      have hcur : s.current = s.pushed[s.handled.length] := by
        simpa only [hpos₀] using h.current_eq hlt
      cases rest with
      | nil =>
        rw [← hrest, append_nil, hpos₀] at hlt
        exact absurd hlt (lt_irrefl _)
      | cons r rest =>
        refine ⟨rest, ?_⟩
        have hr : s.current = r := by
          rw [hcur]
          simp [← hrest]
        rw [hr, ← hrest, append_assoc, singleton_append]
    answers_length := by simp [h.answers_length]
    busy := by rw [hpos]; exact fun _ => hlt
    released := fun _ => by simp
    locked := h.locked
    reserved := by rw [hpos]; exact h.reserved
    written := by
      intro c mmio old hc
      rw [hlist]
      exact h.written c mmio old hc }

omit [DecidableEq Cpu] in
/-- Storing `req_front` releases the slot of the handled request. -/
theorem RingInv.advance (hpc : s.daemon = .advance) :
    RingInv { s with
      localFront := nextFront s.localFront
      bridge := { s.bridge with reqFront := nextFront s.localFront }
      daemon := .poll } := by
  have hlt := h.busy (by rw [hpc]; trivial)
  have hpos : s.handled.length = s.frontPos + 1 := by
    have := h.released hpc
    simp only [State.frontPos, hpc]
    omega
  exact { h with
    front_eq := rfl
    localFront_eq := by
      show (nextFront s.localFront).toNat = s.handled.length % 32
      rw [hpos]
      exact nextFront_toNat h.localFront_eq
    holds := by
      show Ring.Holds s.bridge.reqList 32 s.pushed s.handled.length
      rw [hpos]
      exact h.holds.pop hlt
    room := by
      show s.pushed.length ≤ s.handled.length + 31
      have := h.room
      omega
    busy := fun hb => hb.elim
    released := fun heq => by cases heq
    reserved := by
      intro c hc
      show s.pushed.length < s.handled.length + 31
      have := h.reserved c hc
      omega
    written := h.written }

omit [DecidableEq Cpu] in
/-- `virtio_handle_req` keeps the ring invariant, whether or not it answers. -/
theorem RingInv.handleReq (hpc : s.daemon = .handle) : RingInv (handleReq d s) := by
  have hold : s.daemon ≠ .advance := by rw [hpc]; simp
  have hbusy : s.daemon.busy := by rw [hpc]; trivial
  unfold Bridge.handleReq
  split
  · exact h.daemonMove s.bridge s.dev s.wakePending _ ⟨rfl, rfl, rfl⟩ hold (by simp)
      (fun _ => h.busy hbusy)
  · dsimp only
    split
    · exact h.finish s.bridge _ _ ⟨rfl, rfl, rfl⟩ hbusy hold
    · exact h.daemonMove s.bridge _ s.wakePending _ ⟨rfl, rfl, rfl⟩ hold (by simp)
        (fun _ => h.busy hbusy)

/-- Every step of `handle_virtio_requests` keeps the ring invariant. -/
theorem RingInv.daemonStep (hs : daemonStep d s = some s') : RingInv s' := by
  have hsame : s.bridge.reqFront = s.bridge.reqFront ∧ s.bridge.reqRear = s.bridge.reqRear ∧
      s.bridge.reqList = s.bridge.reqList := ⟨rfl, rfl, rfl⟩
  -- seeing a non-empty ring is what makes the daemon busy
  have hseen : ¬ isQueueEmpty s.localFront s.bridge.reqRear = true →
      s.frontPos < s.pushed.length := by
    intro hne
    have := mt h.isQueueEmpty_iff.mpr hne
    have := h.holds.le_length
    omega
  unfold Bridge.daemonStep at hs
  split at hs
  case h_1 hpc | h_10 hpc =>
    cases hs
    exact h.daemonMove _ s.dev s.wakePending _ hsame (by rw [hpc]; simp) (by simp)
      (fun hb => hb.elim)
  case h_2 hpc =>
    split at hs
    · cases hs
      exact h.daemonMove s.bridge s.dev _ _ hsame (by rw [hpc]; simp) (by simp)
        (fun hb => hb.elim)
    · contradiction
  case h_3 hpc =>
    cases hs
    refine h.daemonMove s.bridge s.dev s.wakePending _ hsame (by rw [hpc]; simp) ?_ ?_
    · split <;> simp
    · split
      · exact fun hb => hb.elim
      · next hne => exact fun _ => hseen hne
  case h_4 hpc | h_6 value hpc =>
    cases hs
    exact h.daemonMove _ s.dev s.wakePending _ hsame (by rw [hpc]; simp) (by simp)
      (fun _ => h.busy (by rw [hpc]; trivial))
  case h_5 hpc => cases hs; exact h.handleReq hpc
  case h_7 value hpc =>
    cases hs
    exact h.finish _ s.dev value hsame (by rw [hpc]; trivial) (by rw [hpc]; simp)
  case h_8 hpc => cases hs; exact h.advance hpc
  case h_9 => contradiction
  case h_11 hpc =>
    cases hs
    refine h.daemonMove s.bridge s.dev s.wakePending _ hsame (by rw [hpc]; simp) ?_ ?_
    · split <;> simp
    · split <;> exact fun hb => hb.elim

end

/-! ## The invariant over whole runs -/

/-- Every step of the system keeps the ring invariant. -/
theorem RingInv.step (h : RingInv s) {e : Event Cpu δ} (hs : step d s e = some s') :
    RingInv s' := by
  cases e with
  | access c mmio =>
    obtain ⟨-, rfl⟩ := ite_some_none_eq_some.mp hs
    exact h.moveOn _ (fun hl => hl.elim) (fun hr => hr)
  | vcpu c => exact h.vcpuStep hs
  | resume c =>
    simp only [Bridge.step] at hs
    split at hs
    · cases hs; exact h.moveOn _ (fun hl => hl.elim) (fun hr => hr)
    · contradiction
  | daemon => exact h.daemonStep hs
  | timer expired =>
    obtain ⟨hpc, rfl⟩ := ite_some_none_eq_some.mp hs
    refine h.daemonMove s.bridge s.dev s.wakePending _ ⟨rfl, rfl, rfl⟩ (by rw [hpc]; simp) ?_ ?_
    · split <;> simp
    · split <;> exact fun hb => hb.elim
  | device dev => cases hs; exact { h with }

/-- The ring invariant holds in every reachable state. -/
theorem RingInv.reach {ok : State Cpu δ → Event Cpu δ → Prop} {unused : DeviceReq Cpu} {dev : δ}
    (h : Reach (Bridge.step d) ok (Bridge.init unused dev) s) : RingInv s :=
  h.invariant RingInv (RingInv.init unused dev) fun _ _ _ hinv _ hs => hinv.step hs

/-- **The request ring is a lossless FIFO.** In every interleaving of any number of cpus with the
daemon: the requests handled are a prefix of those pushed; every request not yet handled is still
in its slot; at most `MAX_REQ - 1` requests are outstanding (also counting the one whose handling
has ended but whose slot has not been released); and the two sides' index formulas agree. -/
theorem request_ring_fifo (d : Devices δ) (unused : DeviceReq Cpu) (dev : δ) (s : State Cpu δ)
    (h : Reach (Bridge.step d) anyStep (Bridge.init unused dev) s) :
    s.handled <+: s.pushed ∧ (∀ k (hk : k < s.pushed.length), s.handled.length ≤ k →
        s.bridge.reqList (k % maxReq.toNat) = s.pushed[k]) ∧
      s.pushed.length - s.frontPos ≤ maxReq.toNat - 1 ∧
      s.bridge.reqRear.toNat = s.pushed.length % maxReq.toNat ∧
      s.bridge.reqFront.toNat = s.frontPos % maxReq.toNat ∧
      ∀ i : UInt32, nextFront i = (i + 1) % maxReq := by
  have hinv := RingInv.reach h
  have hpos : s.frontPos ≤ s.handled.length := by
    unfold State.frontPos
    split <;> omega
  refine ⟨hinv.handled_prefix, ?_, ?_, hinv.rear_eq, ?_, nextFront_eq_mod⟩
  · exact fun k hk hle => hinv.holds.slot_eq k hk (hpos.trans hle)
  · have := hinv.room
    show s.pushed.length - s.frontPos ≤ 31
    omega
  · rw [hinv.front_eq]
    exact hinv.localFront_eq

end Invariant

/-- Two requests pushed, the first one handled and released, the second one still in its slot. -/
theorem request_ring_fifo_sample :
    ∃ s : State Unit Unit, s.pushed.length = 2 ∧ s.handled.length = 1 ∧ s.handled <+: s.pushed := by
  have hrun : ∃ s, run (Bridge.step sampleDevices) anyStep sampleInit
      ([.daemon] ++ sampleAccess (sampleNotify 0xa003400) ++ [.resume ()] ++
        sampleAccess sampleRead ++ List.replicate 5 .daemon) = some s ∧
      s.pushed.length = 2 ∧ s.handled.length = 1 :=
    ⟨_, rfl, rfl, rfl⟩
  rcases hrun with ⟨s, hs, hpushed, hhandled⟩
  exact ⟨s, hpushed, hhandled, (request_ring_fifo _ _ _ s (reach_of_run hs)).1⟩

end HvisorRux.Bridge
