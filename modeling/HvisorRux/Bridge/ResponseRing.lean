import HvisorRux.Bridge.Inject
import HvisorRux.Bridge.RequestRing

/-!
# The response ring

Threads of the daemon put interrupts into the response ring (`virtio_inject_irq`, `tools/virtio.c`)
and then enter the hypervisor, which drains the ring (`hv_virtio_inject_irq`, `hypercall/mod.rs`) on
behalf of whichever thread gets there. A thread tests for a full ring before it takes `RES_MUTEX`,
so the test says nothing about the slot it writes. What keeps the ring from overflowing is that a
thread puts in no second response before the drain it started with the first one has emptied the
ring: there are at most as many unread responses as threads. With 32 threads the ring overflows
(`responses_lost`), and a response that cannot be delivered blocks all that follow; otherwise every
response is read exactly once.
-/

namespace HvisorRux.Bridge

open Common Function List Option

/-- Program points of a thread in `virtio_inject_irq`, for the response `res` of its device. From
`unlock` on, `k` is the position of the response in the history of written ones. -/
inductive ResponderPc
  | idle
  /-- `while (is_queue_full(...))`: the load of `res_front` -/
  | loadFront (res : DeviceRes)
  /-- the load of `res_rear`, and the test -/
  | testFull (res : DeviceRes) (front : UInt32)
  /-- `pthread_mutex_lock(&RES_MUTEX)` -/
  | lock (res : DeviceRes)
  /-- `res_rear = virtio_bridge->res_rear`, mutex held -/
  | loadRear (res : DeviceRes)
  /-- `res->irq_id = vq->dev->irq_id`, mutex held -/
  | storeIrq (res : DeviceRes) (rear : UInt32)
  /-- `res->target_zone = vq->dev->zone_id`, mutex held -/
  | storeZone (res : DeviceRes) (rear : UInt32)
  /-- `virtio_bridge->res_rear = ...`, mutex held -/
  | storeRear (res : DeviceRes) (rear : UInt32)
  /-- `pthread_mutex_unlock(&RES_MUTEX)` -/
  | unlock (k : ℕ)
  /-- `ioctl(ko_fd, HVISOR_FINISH_REQ)` up to the locks `VIRTIO_BRIDGE` and `VIRTIO_IRQS` -/
  | enter (k : ℕ)
  /-- `while !dev.is_res_list_empty()`, locks held -/
  | test (k : ℕ)
  /-- the load of `irq_id` -/
  | loadIrq (k : ℕ)
  /-- the load of `target_zone` -/
  | loadZone (k : ℕ) (irqId : UInt32)
  /-- the rest of the loop body -/
  | deliver (k : ℕ) (res : DeviceRes)
  /-- the store of `res_front` -/
  | advance (k : ℕ) (res : DeviceRes)
  | panicked
  /-- the call has returned -/
  | done (k : ℕ)
  deriving DecidableEq

namespace ResponderPc

/-- The thread holds `RES_MUTEX`. -/
def holdsMutex : ResponderPc → Bool
  | loadRear _ | storeIrq _ _ | storeZone _ _ | storeRear _ _ | unlock _ => true
  | _ => false

/-- The thread is in the drain loop, and holds its locks. -/
def drains : ResponderPc → Bool
  | test _ | loadIrq _ | loadZone _ _ | deliver _ _ | advance _ _ | panicked => true
  | _ => false

/-- The thread has written response `k` and not yet finished the drain that follows. -/
def owes : ResponderPc → Option ℕ
  | unlock k | enter k | test k | loadIrq k | loadZone k _ | deliver k _ | advance k _ => some k
  | _ => none

end ResponderPc

open ResponderPc

/-- `is_queue_full` for the response ring. -/
def isQueueFull (front rear : UInt32) : Bool := nextFront rear == front

/-- The ring, the two locks, the pending interrupts and the threads, with the responses written and
those taken out of the ring as history. -/
structure ResState (Thread : Type) where
  ring : ResRing
  mutex : Option Thread
  bridge : Option Thread
  irqs : VirtioIrqs
  pc : Thread → ResponderPc
  written : List DeviceRes
  taken : List DeviceRes

/-- A device has an interrupt to inject, a thread takes its next step or returns, or a cpu injects
its pending interrupts. -/
inductive ResEvent (Thread : Type)
  | call (t : Thread) (res : DeviceRes)
  | step (t : Thread)
  | ret (t : Thread)
  | handle (cpu : ℕ)

section Steps

variable {Thread : Type} [DecidableEq Thread]

/-- Move thread `t` to another program point. -/
def ResState.setPc (s : ResState Thread) (t : Thread) (pc : ResponderPc) : ResState Thread :=
  { s with pc := update s.pc t pc }

/-- A store to the slot at `res_rear`. -/
def ResRing.store (ring : ResRing) (rear : UInt32) (f : DeviceRes → DeviceRes) : ResRing :=
  { ring with
    resList := update ring.resList rear.toNat (f (ring.resList rear.toNat)) }

/-- The next step of thread `t`. -/
def responderStep (zones : List Zone) (s : ResState Thread) (t : Thread) :
    Option (ResState Thread) :=
  match s.pc t with
  | .idle | .panicked | .done _ => none
  | .loadFront res => some (s.setPc t (.testFull res s.ring.resFront))
  | .testFull res front =>
    some (s.setPc t (if isQueueFull front s.ring.resRear then .loadFront res else .lock res))
  | .lock res =>
    if s.mutex = none then some ({ s with mutex := some t }.setPc t (.loadRear res)) else none
  | .loadRear res => some (s.setPc t (.storeIrq res s.ring.resRear))
  | .storeIrq res rear =>
    some ({ s with
      ring := s.ring.store rear fun slot => { slot with irqId := res.irqId } }.setPc t
        (.storeZone res rear))
  | .storeZone res rear =>
    some ({ s with
      ring := s.ring.store rear fun slot => { slot with targetZone := res.targetZone } }.setPc t
        (.storeRear res rear))
  | .storeRear res rear =>
    some ({ s with
      ring := { s.ring with resRear := nextFront rear }
      written := s.written ++ [res] }.setPc t (.unlock s.written.length))
  | .unlock k => some ({ s with mutex := none }.setPc t (.enter k))
  | .enter k =>
    if s.bridge = none then some ({ s with bridge := some t }.setPc t (.test k)) else none
  | .test k =>
    if s.ring.isResListEmpty then some ({ s with bridge := none }.setPc t (.done k))
    else some (s.setPc t (.loadIrq k))
  | .loadIrq k => some (s.setPc t (.loadZone k (s.ring.resList s.ring.resFront.toNat).irqId))
  | .loadZone k irqId =>
    some (s.setPc t
      (.deliver k ⟨(s.ring.resList s.ring.resFront.toNat).targetZone, irqId⟩))
  | .deliver k res =>
    match Bridge.deliver zones s.irqs res with
    | .skipped => some (s.setPc t (.test k))
    | .panicked => some (s.setPc t .panicked)
    | .delivered irqs _ => some ({ s with irqs }.setPc t (.advance k res))
  | .advance k res =>
    some ({ s with ring := s.ring.advance, taken := s.taken ++ [res] }.setPc t (.test k))

/-- One step of the system. The drain holds `VIRTIO_IRQS`, so no cpu injects while it runs. -/
def resStep (zones : List Zone) (s : ResState Thread) : ResEvent Thread → Option (ResState Thread)
  | .call t res => if s.pc t = .idle then some (s.setPc t (.loadFront res)) else none
  | .step t => responderStep zones s t
  | .ret t =>
    match s.pc t with
    | .done _ => some (s.setPc t .idle)
    | _ => none
  | .handle cpu =>
    if s.bridge = none then (handleVirtioIrq s.irqs cpu).map fun r => { s with irqs := r.1 }
    else none

/-- The zeroed ring with no thread in it. -/
def resInit (unused : DeviceRes) : ResState Thread where
  ring := ⟨0, 0, fun _ => unused⟩
  mutex := none
  bridge := none
  irqs := fun _ => none
  pc := fun _ => .idle
  written := []
  taken := []

end Steps

/-- The responses come from the devices `devs`. -/
def FromDevices {Thread : Type} (devs : List DeviceRes) (_ : ResState Thread) :
    ResEvent Thread → Prop
  | .call _ res => res ∈ devs
  | _ => True

instance {Thread : Type} (devs : List DeviceRes) (s : ResState Thread) (e : ResEvent Thread) :
    Decidable (FromDevices devs s e) := by
  unfold FromDevices
  split <;> infer_instance

/-- The responses taken out of the ring are the first ones written, in order and each once; the
others are all still in their slots; and a thread whose call has returned has had its response taken
out. -/
def NoneLost {Thread : Type} (s : ResState Thread) : Prop :=
  s.taken <+: s.written ∧ (∀ k (hk : k < s.written.length), s.taken.length ≤ k →
      s.ring.resList (k % maxReq.toNat) = s.written[k]) ∧
    ∀ t k, s.pc t = .done k → k < s.taken.length

/-! ## The invariant -/

/-- What a program point says about the ring and its history. -/
def PcInv (devs : List DeviceRes) (ring : ResRing) (written taken : List DeviceRes) :
    ResponderPc → Prop
  | .idle => True
  | .loadFront res | .testFull res _ | .lock res | .loadRear res => res ∈ devs
  | .storeIrq res rear => res ∈ devs ∧ rear = ring.resRear
  | .storeZone res rear =>
    res ∈ devs ∧ rear = ring.resRear ∧ (ring.resList rear.toNat).irqId = res.irqId
  | .storeRear res rear => res ∈ devs ∧ rear = ring.resRear ∧ ring.resList rear.toNat = res
  | .unlock k | .enter k | .test k => k < written.length
  | .loadIrq k => k < written.length ∧ taken.length < written.length
  | .loadZone k irqId =>
    k < written.length ∧ (written[taken.length]?).map DeviceRes.irqId = some irqId
  | .deliver k res | .advance k res => k < written.length ∧ written[taken.length]? = some res
  | .panicked => False
  | .done k => k < taken.length

/-- Both indices are reductions of positions in the history, the locks have one owner, and every
response that is still in the ring is owed by the thread that wrote it. -/
structure ResInv {Thread : Type} (zones : List Zone) (devs : List DeviceRes) (s : ResState Thread) :
    Prop where
  front_eq : s.ring.resFront.toNat = s.taken.length % 32
  rear_eq : s.ring.resRear.toNat = s.written.length % 32
  holds : Ring.Holds s.ring.resList 32 s.written s.taken.length
  taken_prefix : s.taken <+: s.written
  devices : ∀ res ∈ s.written, res ∈ devs
  irqs : IrqsInv s.irqs
  known : ∀ cpu, pending s.irqs cpu ⊆ irqsFor zones cpu devs
  mutexed : ∀ t, (s.pc t).holdsMutex = true → s.mutex = some t
  draining : ∀ t, (s.pc t).drains = true ↔ s.bridge = some t
  point : ∀ t, PcInv devs s.ring s.written s.taken (s.pc t)
  owed : ∀ k, s.taken.length ≤ k → k < s.written.length → ∃ t, (s.pc t).owes = some k

section PcInv

variable {devs written taken : List DeviceRes} {ring : ResRing} {pc : ResponderPc}

/-- Outside the mutex nothing is known about the free slot, so a writer does not disturb. -/
theorem PcInv.write (h : PcInv devs ring written taken pc) (hpc : pc.holdsMutex = false)
    (ring' : ResRing) (new : List DeviceRes) : PcInv devs ring' (written ++ new) taken pc := by
  have hlen : written.length ≤ (written ++ new).length := by simp
  have hget : ∀ x, written[taken.length]? = some x → (written ++ new)[taken.length]? = some x := by
    intro x hx
    obtain ⟨hlt, -⟩ := List.getElem?_eq_some_iff.mp hx
    rw [getElem?_append_left hlt]
    exact hx
  cases pc with
  | idle | loadFront | testFull | lock | done => exact h
  | loadRear | storeIrq | storeZone | storeRear | unlock => contradiction
  | panicked => exact h
  | enter | test => exact lt_of_lt_of_le h hlen
  | loadIrq => exact ⟨lt_of_lt_of_le h.1 hlen, lt_of_lt_of_le h.2 hlen⟩
  | loadZone =>
    obtain ⟨x, hx, hirq⟩ := map_eq_some_iff.mp h.2
    refine ⟨lt_of_lt_of_le h.1 hlen, ?_⟩
    rw [hget x hx]
    exact congrArg some hirq
  | deliver | advance => exact ⟨lt_of_lt_of_le h.1 hlen, hget _ h.2⟩

/-- Outside the drain loop, taking a response out does not disturb. -/
theorem PcInv.take (h : PcInv devs ring written taken pc) (hpc : pc.drains = false)
    (res : DeviceRes) : PcInv devs ring.advance written (taken ++ [res]) pc := by
  cases pc with
  | idle | loadFront | testFull | lock | loadRear | storeIrq | storeZone | storeRear => exact h
  | unlock | enter => exact h
  | test | loadIrq | loadZone | deliver | advance | panicked => contradiction
  | done =>
    have hlt := lt_of_lt_of_le h (Nat.le_succ _)
    simpa [PcInv] using hlt

end PcInv

section Invariant

variable {Thread : Type} {zones : List Zone} {devs : List DeviceRes} {s s' : ResState Thread}
  {t : Thread}

theorem ResInv.init (zones : List Zone) (devs : List DeviceRes) (unused : DeviceRes) :
    ResInv zones devs (resInit unused : ResState Thread) where
  front_eq := rfl
  rear_eq := rfl
  holds := Ring.Holds.nil _ _
  taken_prefix := prefix_rfl
  devices := by simp [resInit]
  irqs := IrqsInv.empty
  known := by simp [resInit, pending]
  mutexed := by simp [resInit, holdsMutex]
  draining := by simp [resInit, drains]
  point := fun _ => trivial
  owed := by simp [resInit]

section

variable (h : ResInv zones devs s)

include h

namespace ResInv

/-- Different unread responses are owed by different threads. -/
theorem unread_le [Fintype Thread] : s.written.length ≤ s.taken.length + Fintype.card Thread := by
  have howner : ∀ i : Fin (s.written.length - s.taken.length),
      ∃ t, (s.pc t).owes = some (s.taken.length + i) := by
    intro i
    exact h.owed _ (Nat.le_add_right ..) (by omega)
  choose owner hspec using howner
  have hinj : Function.Injective owner := by
    intro i j hij
    have heq := (hspec i).symm.trans (hij ▸ hspec j)
    rw [some.injEq] at heq
    exact Fin.ext (by omega)
  have hcard := Fintype.card_le_of_injective owner hinj
  rw [Fintype.card_fin] at hcard
  omega

/-- With fewer threads than slots, a written ring never looks empty. -/
theorem isResListEmpty_iff (hroom : s.written.length < s.taken.length + 32) :
    s.ring.isResListEmpty = true ↔ s.taken.length = s.written.length := by
  have hle := h.holds.le_length
  rw [ResRing.isResListEmpty, beq_iff_eq, ← UInt32.toNat_inj, h.front_eq, h.rear_eq]
  omega

/-- The slot at `res_front` has the oldest unread response. -/
theorem front_slot (hlt : s.taken.length < s.written.length) :
    s.written[s.taken.length]? = some (s.ring.resList s.ring.resFront.toNat) := by
  rw [h.front_eq, h.holds.head hlt]
  exact getElem?_eq_getElem hlt

/-- Interrupts of known devices may come to wait, and waiting ones may be injected. -/
theorem setIrqs {irqs : VirtioIrqs} (hirqs : IrqsInv irqs)
    (hknown : ∀ cpu, pending irqs cpu ⊆ irqsFor zones cpu devs) :
    ResInv zones devs { s with irqs } :=
  { h with irqs := hirqs, known := hknown }

/-- A response of a known device is delivered. -/
theorem deliver (hdevs : Deliverable zones (fun _ => none) devs) {res : DeviceRes}
    (hres : res ∈ devs) :
    ∃ irqs sent, Bridge.deliver zones s.irqs res = .delivered irqs sent ∧
      ResInv zones devs { s with irqs } := by
  obtain ⟨cpu, hcpu⟩ := isSome_iff_exists.mp (hdevs.target res hres)
  have hinsert : insertIrq (pending s.irqs cpu) res.irqId.toUInt64 ⊆ irqsFor zones cpu devs := by
    intro x hx
    rcases mem_insertIrq.mp hx with hx | rfl
    · exact h.known cpu hx
    · exact mem_irqsFor.mpr ⟨res, hres, hcpu, rfl⟩
  have hroom : (insertIrq (pending s.irqs cpu) res.irqId.toUInt64).length < maxDevs := by
    rw [← toFinset_card_of_nodup (insertIrq_nodup (h.irqs.nodup cpu) _)]
    refine lt_of_le_of_lt (Finset.card_le_card ?_) (hdevs.room cpu)
    intro x hx
    rw [List.mem_toFinset] at hx ⊢
    exact mem_append_right _ (hinsert hx)
  obtain ⟨irqs, sent, hd⟩ := (deliver_isDelivered_iff h.irqs).mpr ⟨cpu, hcpu, hroom⟩
  obtain ⟨cpu', hcpu', hinv, hpending, -⟩ := deliver_spec h.irqs hd
  obtain rfl : cpu = cpu' := some.inj (hcpu.symm.trans hcpu')
  refine ⟨irqs, sent, hd, h.setIrqs hinv ?_⟩
  rw [hpending]
  exact (forall_update_iff (pending s.irqs) fun c xs => xs ⊆ irqsFor zones c devs).mpr
    ⟨hinsert, fun c _ => h.known c⟩

/-- A cpu injects what waits for it. -/
theorem handle {cpu : ℕ} {r : VirtioIrqs × List UInt64}
    (hr : handleVirtioIrq s.irqs cpu = some r) : ResInv zones devs { s with irqs := r.1 } := by
  obtain ⟨l, -, hbind⟩ := bind_eq_some_iff.mp hr
  obtain ⟨listed, -, rfl⟩ := map_eq_some_iff.mp hbind
  refine h.setIrqs (h.irqs.update (IrqList.clear_listed l) ?_ nodup_nil) ?_
  · rw [IrqList.clear_len]
    decide
  · rw [pending_update _ _ (IrqList.clear_listed l)]
    exact (forall_update_iff (pending s.irqs) fun c xs => xs ⊆ irqsFor zones c devs).mpr
      ⟨nil_subset _, fun c _ => h.known c⟩

variable {t' : Thread}

/-- No other thread is in the critical section. -/
theorem holdsMutex_of_ne (ht : (s.pc t).holdsMutex = true) (hne : t' ≠ t) :
    (s.pc t').holdsMutex = false := by
  by_contra ht'
  rw [Bool.not_eq_false] at ht'
  exact hne (some.inj ((h.mutexed t' ht').symm.trans (h.mutexed t ht)))

/-- No other thread is in the drain loop. -/
theorem drains_of_ne (ht : (s.pc t).drains = true) (hne : t' ≠ t) : (s.pc t').drains = false := by
  by_contra ht'
  rw [Bool.not_eq_false] at ht'
  exact hne (some.inj (((h.draining t').mp ht').symm.trans ((h.draining t).mp ht)))

end ResInv

end

/-- What a step of thread `t` has to show about the locks. -/
structure LocksKept (s s' : ResState Thread) (t : Thread) : Prop where
  mutexed : (s'.pc t).holdsMutex = true → s'.mutex = some t
  mutex_others : ∀ t', t' ≠ t → s.mutex = some t' → s'.mutex = some t'
  draining : (s'.pc t).drains = true ↔ s'.bridge = some t
  bridge_others : ∀ t', t' ≠ t → (s.bridge = some t' ↔ s'.bridge = some t')

end Invariant

section Steps

variable {Thread : Type} [DecidableEq Thread] {zones : List Zone} {devs : List DeviceRes}
  {s s' : ResState Thread} {t : Thread} {pc pc₀ : ResponderPc} {res : DeviceRes} {k : ℕ}

@[simp] theorem ResState.setPc_self (s : ResState Thread) (t : Thread) (pc : ResponderPc) :
    (s.setPc t pc).pc t = pc := update_self ..

theorem ResState.setPc_of_ne (s : ResState Thread) (pc : ResponderPc) (h : t' ≠ t) :
    (s.setPc t pc).pc t' = s.pc t' := update_of_ne h ..

/-- The invariant after a step of thread `t`, from what the step does to the ring. -/
theorem ResInv.of_step (h : ResInv zones devs s) {ring : ResRing} {mutex bridge : Option Thread}
    {written taken : List DeviceRes}
    (hlocks : LocksKept s ({ s with ring, mutex, bridge, written, taken }.setPc t pc) t)
    (hfront : ring.resFront.toNat = taken.length % 32)
    (hrear : ring.resRear.toNat = written.length % 32)
    (hholds : Ring.Holds ring.resList 32 written taken.length) (hinit : taken <+: written)
    (hdevices : ∀ res ∈ written, res ∈ devs) (hself : PcInv devs ring written taken pc)
    (hpoint : ∀ t', t' ≠ t → PcInv devs ring written taken (s.pc t'))
    (howes : ∀ k, taken.length ≤ k → k < written.length →
      pc.owes = some k ∨ (k < s.written.length ∧ (s.pc t).owes ≠ some k))
    (htaken : s.taken.length ≤ taken.length) :
    ResInv zones devs ({ s with ring, mutex, bridge, written, taken }.setPc t pc) where
  front_eq := hfront
  rear_eq := hrear
  holds := hholds
  taken_prefix := hinit
  devices := hdevices
  irqs := h.irqs
  known := h.known
  mutexed := by
    have hself := hlocks.mutexed
    rw [ResState.setPc_self] at hself
    exact (forall_update_iff s.pc fun t' pc => pc.holdsMutex = true → mutex = some t').mpr
      ⟨hself, fun t' hne ht' => hlocks.mutex_others t' hne (h.mutexed t' ht')⟩
  draining := by
    have hself := hlocks.draining
    rw [ResState.setPc_self] at hself
    exact (forall_update_iff s.pc fun t' pc => pc.drains = true ↔ bridge = some t').mpr
      ⟨hself, fun t' hne => (h.draining t').trans (hlocks.bridge_others t' hne)⟩
  point := (forall_update_iff s.pc fun _ pc => PcInv devs ring written taken pc).mpr
    ⟨hself, hpoint⟩
  owed := by
    intro k hle hlt
    rcases howes k hle hlt with hk | ⟨hlt', hk⟩
    · exact ⟨t, by rw [ResState.setPc_self, hk]⟩
    · obtain ⟨t', ht'⟩ := h.owed k (htaken.trans hle) hlt'
      have hne : t' ≠ t := by
        rintro rfl
        exact hk ht'
      exact ⟨t', by rw [ResState.setPc_of_ne _ _ hne, ht']⟩

section

variable (h : ResInv zones devs s)

include h

namespace ResInv

/-- A step that changes the locks at most. -/
theorem move (mutex bridge : Option Thread)
    (hlocks : LocksKept s ({ s with mutex, bridge }.setPc t pc) t)
    (hpoint : PcInv devs s.ring s.written s.taken pc)
    (howes : ∀ k, s.taken.length ≤ k → k < s.written.length → (s.pc t).owes = some k →
      pc.owes = some k) :
    ResInv zones devs ({ s with mutex, bridge }.setPc t pc) := by
  refine h.of_step hlocks h.front_eq h.rear_eq h.holds h.taken_prefix h.devices hpoint
    (fun t' _ => h.point t') ?_ le_rfl
  intro k hle hlt
  by_cases hk : (s.pc t).owes = some k
  · exact .inl (howes k hle hlt hk)
  · exact .inr ⟨hlt, hk⟩

/-- A step between two program points that hold the same locks and owe the same response. -/
theorem goto (hpc : s.pc t = pc₀) (hmutex : pc.holdsMutex = pc₀.holdsMutex)
    (hdrains : pc.drains = pc₀.drains) (howes : pc.owes = pc₀.owes)
    (hpoint : PcInv devs s.ring s.written s.taken pc) :
    ResInv zones devs (s.setPc t pc) := by
  subst hpc
  refine h.move s.mutex s.bridge ⟨?_, fun _ _ ht => ht, ?_, fun _ _ => Iff.rfl⟩ hpoint ?_
  · rw [ResState.setPc_self, hmutex]
    exact h.mutexed t
  · rw [ResState.setPc_self, hdrains]
    exact h.draining t
  · intro k _ _ hk
    rw [howes]
    exact hk

/-- `pthread_mutex_lock` on the free mutex. -/
theorem takeMutex (hpc : s.pc t = .lock res) (hfree : s.mutex = none) :
    ResInv zones devs ({ s with mutex := some t }.setPc t (.loadRear res)) := by
  have hpoint := h.point t
  have hdrains := h.draining t
  rw [hpc] at hpoint hdrains
  refine h.move (some t) s.bridge ⟨fun _ => rfl, ?_, ?_, fun _ _ => Iff.rfl⟩ hpoint
    (by simp [hpc, owes])
  · intro t' _ ht'
    rw [hfree] at ht'
    cases ht'
  · rw [ResState.setPc_self]
    exact hdrains

/-- `pthread_mutex_unlock` by the owner. -/
theorem releaseMutex (hpc : s.pc t = .unlock k) :
    ResInv zones devs ({ s with mutex := none }.setPc t (.enter k)) := by
  have hpoint := h.point t
  have hdrains := h.draining t
  have hmutex := h.mutexed t
  rw [hpc] at hpoint hdrains hmutex
  refine h.move none s.bridge ⟨by simp [holdsMutex], ?_, ?_, fun _ _ => Iff.rfl⟩
    hpoint (by simp [hpc, owes])
  · intro t' hne ht'
    exact absurd (some.inj (ht'.symm.trans (hmutex rfl))) hne
  · rw [ResState.setPc_self]
    exact hdrains

/-- The hypercall takes the locks of the drain loop. -/
theorem enterDrain (hpc : s.pc t = .enter k) (hfree : s.bridge = none) :
    ResInv zones devs ({ s with bridge := some t }.setPc t (.test k)) := by
  have hpoint := h.point t
  rw [hpc] at hpoint
  refine h.move s.mutex (some t) ⟨by simp [holdsMutex], fun _ _ ht => ht, ?_, ?_⟩
    hpoint (by simp [hpc, owes])
  · rw [ResState.setPc_self]
    exact ⟨fun _ => rfl, fun _ => rfl⟩
  · intro t' hne
    simp [hfree, ResState.setPc, Ne.symm hne]

/-- The drain loop ends on an empty ring: nothing is owed any more. -/
theorem leaveDrain (hpc : s.pc t = .test k) (hall : s.taken.length = s.written.length) :
    ResInv zones devs ({ s with bridge := none }.setPc t (.done k)) := by
  have hpoint := h.point t
  have hbridge := (h.draining t).mp (by rw [hpc]; rfl)
  rw [hpc] at hpoint
  refine h.move s.mutex none ⟨by simp [holdsMutex], fun _ _ ht => ht, ?_, ?_⟩
    (lt_of_lt_of_eq hpoint hall.symm) (fun k hle hlt => absurd hlt (by omega))
  · simp [drains, ResState.setPc]
  · intro t' hne
    simp [hbridge, ResState.setPc, Ne.symm hne]

/-- A store into the free slot. -/
theorem store (hroom : s.written.length < s.taken.length + 32) (hpc : s.pc t = pc₀)
    (f : DeviceRes → DeviceRes) (ht : pc₀.holdsMutex = true) (hd : pc.drains = pc₀.drains)
    (howes : pc₀.owes = none)
    (hpoint : PcInv devs (s.ring.store s.ring.resRear f) s.written s.taken pc) :
    ResInv zones devs ({ s with ring := s.ring.store s.ring.resRear f }.setPc t pc) := by
  subst hpc
  refine h.of_step ⟨fun _ => h.mutexed t ht, fun _ _ ht => ht, ?_, fun _ _ => Iff.rfl⟩ h.front_eq
    h.rear_eq ?_ h.taken_prefix h.devices hpoint ?_ ?_ le_rfl
  · rw [ResState.setPc_self, hd]
    exact h.draining t
  · show Ring.Holds (update _ s.ring.resRear.toNat _) 32 s.written s.taken.length
    rw [h.rear_eq]
    exact h.holds.write_free hroom _
  · intro t' hne
    have hkept := (h.point t').write (h.holdsMutex_of_ne ht hne) (s.ring.store s.ring.resRear f) []
    rwa [append_nil] at hkept
  · intro k _ hlt
    exact .inr ⟨hlt, by simp [howes]⟩

/-- The store of `res_rear` makes the response visible, and the thread owes it. -/
theorem publish (hroom : s.written.length < s.taken.length + 32)
    (hpc : s.pc t = .storeRear res s.ring.resRear) :
    ResInv zones devs ({ s with
      ring := { s.ring with resRear := nextFront s.ring.resRear }
      written := s.written ++ [res] }.setPc t (.unlock s.written.length)) := by
  have hpoint := h.point t
  rw [hpc] at hpoint
  obtain ⟨hres, -, hslot⟩ := hpoint
  have ht : (s.pc t).holdsMutex = true := by rw [hpc]; rfl
  have hlen : (s.written ++ [res]).length = s.written.length + 1 := by simp
  refine h.of_step ⟨fun _ => h.mutexed t ht, fun _ _ ht => ht, ?_, fun _ _ => Iff.rfl⟩ h.front_eq
    ?_ ?_ (h.taken_prefix.trans (prefix_append ..)) ?_ ((Nat.lt_succ_self _).trans_eq hlen.symm)
    ?_ ?_ le_rfl
  · rw [ResState.setPc_self, show drains (.unlock _) = (s.pc t).drains by rw [hpc]; rfl]
    exact h.draining t
  · rw [hlen]
    exact nextFront_toNat h.rear_eq
  · have hpublish := h.holds.publish hroom
    rwa [← h.rear_eq, hslot] at hpublish
  · intro r hr
    rcases mem_append.mp hr with hr | hr
    · exact h.devices r hr
    · exact mem_singleton.mp hr ▸ hres
  · intro t' hne
    exact (h.point t').write (h.holdsMutex_of_ne ht hne) _ [res]
  · intro k _ hlt
    rw [hpc]
    by_cases hk : k = s.written.length
    · exact .inl (congrArg some hk.symm)
    · exact .inr ⟨by omega, by simp [owes]⟩

/-- The store of `res_front` takes the oldest response out of the ring. -/
theorem advance (hpc : s.pc t = .advance k res) :
    ResInv zones devs
      ({ s with ring := s.ring.advance, taken := s.taken ++ [res] }.setPc t (.test k)) := by
  have hpoint := h.point t
  rw [hpc] at hpoint
  obtain ⟨hk, hget⟩ := hpoint
  obtain ⟨hlt, -⟩ := List.getElem?_eq_some_iff.mp hget
  have ht : (s.pc t).drains = true := by rw [hpc]; rfl
  have hlen : (s.taken ++ [res]).length = s.taken.length + 1 := by simp
  refine h.of_step ⟨?_, fun _ _ ht => ht, ?_, fun _ _ => Iff.rfl⟩ ?_ h.rear_eq ?_ ?_ h.devices hk
    ?_ ?_ (by omega)
  · rw [ResState.setPc_self]
    intro hm
    cases hm
  · rw [ResState.setPc_self, show drains (.test k) = (s.pc t).drains by rw [hpc]; rfl]
    exact h.draining t
  · rw [hlen]
    exact nextFront_toNat h.front_eq
  · rw [hlen]
    exact h.holds.pop hlt
  · obtain ⟨rest, hrest⟩ := h.taken_prefix
    rw [← hrest] at hget ⊢
    rw [getElem?_append_right le_rfl, Nat.sub_self] at hget
    cases rest with
    | nil => cases hget
    | cons x rest =>
      cases hget
      exact ⟨rest, by simp⟩
  · intro t' hne
    exact (h.point t').take (h.drains_of_ne ht hne) res
  · intro j _ hlt'
    rw [hpc]
    by_cases hj : k = j
    · exact .inl (congrArg some hj)
    · exact .inr ⟨hlt', by simpa [owes] using hj⟩

end ResInv

section

variable (hdevs : Deliverable zones (fun _ => none) devs)
  (hroom : s.written.length < s.taken.length + 32)

include hdevs hroom

/-- Every step of a thread keeps the invariant. -/
theorem ResInv.responderStep (hs : responderStep zones s t = some s') : ResInv zones devs s' := by
  have hpoint := h.point t
  rw [Bridge.responderStep] at hs
  generalize hpc : s.pc t = pc at hs hpoint
  cases pc with
  | idle | panicked | done => cases hs
  | loadFront res =>
    cases hs
    exact h.goto hpc rfl rfl rfl hpoint
  | testFull res front =>
    cases hs
    split
    case isTrue | isFalse => exact h.goto hpc rfl rfl rfl hpoint
  | lock res =>
    obtain ⟨hfree, rfl⟩ := ite_some_none_eq_some.mp hs
    exact h.takeMutex hpc hfree
  | loadRear res =>
    cases hs
    exact h.goto hpc rfl rfl rfl ⟨hpoint, rfl⟩
  | storeIrq res rear =>
    cases hs
    obtain ⟨hres, rfl⟩ := hpoint
    exact h.store hroom hpc _ rfl rfl rfl ⟨hres, rfl, by simp [ResRing.store]⟩
  | storeZone res rear =>
    cases hs
    obtain ⟨hres, rfl, hirq⟩ := hpoint
    exact h.store hroom hpc _ rfl rfl rfl ⟨hres, rfl, by simp [ResRing.store, hirq]⟩
  | storeRear res rear =>
    cases hs
    obtain ⟨-, rfl, -⟩ := hpoint
    exact h.publish hroom hpc
  | unlock k =>
    cases hs
    exact h.releaseMutex hpc
  | enter k =>
    obtain ⟨hfree, rfl⟩ := ite_some_none_eq_some.mp hs
    exact h.enterDrain hpc hfree
  | test k =>
    dsimp only at hs
    split at hs
    · next hempty =>
      cases hs
      exact h.leaveDrain hpc ((h.isResListEmpty_iff hroom).mp hempty)
    · next hempty =>
      cases hs
      have hne := mt (h.isResListEmpty_iff hroom).mpr hempty
      exact h.goto hpc rfl rfl rfl ⟨hpoint, lt_of_le_of_ne h.holds.le_length hne⟩
  | loadIrq k =>
    cases hs
    refine h.goto hpc rfl rfl rfl ⟨hpoint.1, ?_⟩
    rw [h.front_slot hpoint.2]
    rfl
  | loadZone k irqId =>
    cases hs
    obtain ⟨hk, hirq⟩ := hpoint
    obtain ⟨res, hget, rfl⟩ := map_eq_some_iff.mp hirq
    obtain ⟨hlt, -⟩ := List.getElem?_eq_some_iff.mp hget
    have hslot := some.inj (hget.symm.trans (h.front_slot hlt))
    refine h.goto hpc rfl rfl rfl ⟨hk, ?_⟩
    rw [hget, ← hslot]
  | deliver k res =>
    obtain ⟨irqs, sent, hd, hinv⟩ :=
      h.deliver hdevs (h.devices res (mem_of_getElem? hpoint.2))
    simp only [hd, some.injEq] at hs
    subst hs
    exact hinv.goto hpc rfl rfl rfl hpoint
  | advance k res =>
    cases hs
    exact h.advance hpc

/-- Every step of the system keeps the invariant. -/
theorem ResInv.step {e : ResEvent Thread}
    (hok : FromDevices devs s e) (hs : resStep zones s e = some s') : ResInv zones devs s' := by
  cases e with
  | call t res =>
    obtain ⟨hpc, rfl⟩ := ite_some_none_eq_some.mp hs
    exact h.goto hpc rfl rfl rfl hok
  | step t => exact h.responderStep hdevs hroom hs
  | ret t =>
    simp only [resStep] at hs
    split at hs
    · next k hpc =>
      rw [some.injEq] at hs
      subst hs
      exact h.goto hpc rfl rfl rfl trivial
    · cases hs
  | handle cpu =>
    simp only [resStep, ite_none_right_eq_some, map_eq_some_iff] at hs
    obtain ⟨-, r, hr, rfl⟩ := hs
    exact h.handle hr

end

end

/-! ## Progress -/

/-- How far a thread that owes a response is from taking the next one out of the ring. -/
def ResponderPc.rank : ResponderPc → ℕ
  | unlock _ => 6
  | enter _ => 5
  | test _ => 4
  | loadIrq _ => 3
  | loadZone _ _ => 2
  | deliver _ _ => 1
  | _ => 0

/-- Thread `t`, which owes response `k`, is closer to an empty ring in `s'` than in `s`. -/
structure Closer (s s' : ResState Thread) (t : Thread) (k : ℕ) : Prop where
  written_eq : s'.written = s.written
  owes : (s'.pc t).owes = some k
  bridge : s'.bridge = none ∨ s'.bridge = some t
  lt : 7 * (s'.written.length - s'.taken.length) + (s'.pc t).rank <
    7 * (s.written.length - s.taken.length) + (s.pc t).rank

/-- A step that takes nothing out of the ring and lowers the rank. -/
theorem Closer.of_rank {mutex bridge : Option Thread} {irqs : VirtioIrqs} (pc : ResponderPc)
    (hpc : s.pc t = pc₀) (howes : (s.pc t).owes = some k) (hkeep : pc.owes = pc₀.owes)
    (hbridge : bridge = none ∨ bridge = some t) (hrank : pc.rank < pc₀.rank) :
    Closer s ({ s with mutex, bridge, irqs }.setPc t pc) t k where
  written_eq := rfl
  owes := by rw [ResState.setPc_self, hkeep, ← hpc]; exact howes
  bridge := hbridge
  lt := by rw [ResState.setPc_self, hpc]; exact Nat.add_lt_add_left hrank _

/-- A thread that owes a response and is not kept out of the drain loop comes closer to an empty
ring. -/
theorem ResInv.progress (h : ResInv zones devs s) (hdevs : Deliverable zones (fun _ => none) devs)
    (hroom : s.written.length < s.taken.length + 32) (howes : (s.pc t).owes = some k)
    (hbridge : s.bridge = none ∨ s.bridge = some t) (hunread : s.taken.length ≠ s.written.length) :
    ∃ s', Bridge.responderStep zones s t = some s' ∧ Closer s s' t k := by
  have hpoint := h.point t
  have hle := h.holds.le_length
  cases hpc : s.pc t with
  | idle | loadFront | testFull | lock | loadRear | storeIrq | storeZone | storeRear | panicked
  | done => simp [hpc, owes] at howes
  | unlock j =>
    refine ⟨_, by rw [Bridge.responderStep, hpc], ?_⟩
    exact .of_rank (.enter j) hpc howes rfl hbridge (Nat.lt_succ_self 5)
  | enter j =>
    have hfree : s.bridge = none := by
      refine hbridge.resolve_right fun ht => ?_
      have hdrains := (h.draining t).mpr ht
      rw [hpc] at hdrains
      cases hdrains
    refine ⟨_, by simp only [Bridge.responderStep, hpc, hfree, if_pos]; rfl, ?_⟩
    exact .of_rank (.test j) hpc howes rfl (.inr rfl) (Nat.lt_succ_self 4)
  | test j =>
    have hne := mt (h.isResListEmpty_iff hroom).mp hunread
    refine ⟨_, by simp only [Bridge.responderStep, hpc, if_neg hne]; rfl, ?_⟩
    exact .of_rank (.loadIrq j) hpc howes rfl hbridge (Nat.lt_succ_self 3)
  | loadIrq j =>
    refine ⟨_, by rw [Bridge.responderStep, hpc], ?_⟩
    exact .of_rank (.loadZone j _) hpc howes rfl hbridge (Nat.lt_succ_self 2)
  | loadZone j irqId =>
    refine ⟨_, by rw [Bridge.responderStep, hpc], ?_⟩
    exact .of_rank (.deliver j _) hpc howes rfl hbridge (Nat.lt_succ_self 1)
  | deliver j res =>
    rw [hpc] at hpoint
    obtain ⟨irqs, sent, hd, -⟩ :=
      h.deliver hdevs (h.devices res (mem_of_getElem? hpoint.2))
    refine ⟨_, by simp only [Bridge.responderStep, hpc, hd]; rfl, ?_⟩
    exact .of_rank (.advance j res) hpc howes rfl hbridge (Nat.lt_succ_self 0)
  | advance j res =>
    rw [hpc] at howes
    refine ⟨_, by rw [Bridge.responderStep, hpc], ?_⟩
    refine ⟨rfl, ?_, hbridge, ?_⟩
    · rw [ResState.setPc_self]
      exact howes
    · rw [ResState.setPc_self]
      simp only [rank, ResState.setPc, length_append, length_singleton]
      omega

end Steps

section Runs

variable {Thread : Type} [Fintype Thread] {zones : List Zone} {devs : List DeviceRes}
  {s : ResState Thread}

/-- With fewer threads than slots there is always a free slot. -/
theorem ResInv.room (h : ResInv zones devs s) (hcard : Fintype.card Thread < maxReq.toNat) :
    s.written.length < s.taken.length + 32 := by
  have hunread := h.unread_le
  have hmax : maxReq.toNat = 32 := rfl
  omega

variable [DecidableEq Thread]

section

variable (hdevs : Deliverable zones (fun _ => none) devs)
  (hcard : Fintype.card Thread < maxReq.toNat)

include hdevs hcard

theorem ResInv.reach {unused : DeviceRes}
    (h : Reach (resStep zones) (FromDevices devs) (resInit unused) s) : ResInv zones devs s :=
  h.invariant (ResInv zones devs) (ResInv.init zones devs unused)
    fun _ _ _ hinv hok hs => hinv.step hdevs (hinv.room hcard) hok hs

/-- A thread that is let into the drain loop empties the ring. -/
theorem ResInv.drain (h : ResInv zones devs s) {t : Thread} {k : ℕ} (howes : (s.pc t).owes = some k)
    (hbridge : s.bridge = none ∨ s.bridge = some t) :
    ∃ s', Reach (resStep zones) (FromDevices devs) s s' ∧ s'.written = s.written ∧
      s'.taken = s'.written := by
  -- induction on the distance that each step of `t` reduces
  induction hn : 7 * (s.written.length - s.taken.length) + (s.pc t).rank using
    Nat.strong_induction_on generalizing s with
  | _ n ih =>
    by_cases hall : s.taken.length = s.written.length
    · exact ⟨s, .refl, rfl, h.taken_prefix.eq_of_length hall⟩
    obtain ⟨s₁, hs, hcloser⟩ := h.progress hdevs (h.room hcard) howes hbridge hall
    have hinv := h.responderStep hdevs (h.room hcard) hs
    obtain ⟨s₂, hreach, hwritten, htaken⟩ :=
      ih _ (hn ▸ hcloser.lt) hinv hcloser.owes hcloser.bridge rfl
    have hfirst : Reach (resStep zones) (FromDevices devs) s s₁ :=
      .tail (e := .step t) .refl trivial hs
    exact ⟨s₂, hfirst.trans hreach, hwritten.trans hcloser.written_eq, htaken⟩

/-- Whatever is in the ring can be taken out of it. -/
theorem ResInv.can_drain (h : ResInv zones devs s) :
    ∃ s', Reach (resStep zones) (FromDevices devs) s s' ∧ s'.written = s.written ∧
      s'.taken = s'.written := by
  rcases Nat.lt_or_ge s.taken.length s.written.length with hlt | hge
  · cases hbridge : s.bridge with
    | none =>
      obtain ⟨t, ht⟩ := h.owed s.taken.length le_rfl hlt
      exact h.drain hdevs hcard ht (.inl hbridge)
    | some t =>
      have hdrains := (h.draining t).mpr hbridge
      have hpoint := h.point t
      cases hpc : s.pc t <;> rw [hpc] at hdrains hpoint <;> try contradiction
      all_goals exact h.drain hdevs hcard (t := t) (by rw [hpc]; rfl) (.inr hbridge)
  · exact ⟨s, .refl, rfl, h.taken_prefix.eq_of_length (le_antisymm h.holds.le_length hge)⟩

end

/-- **No response is lost.** If there are fewer than `MAX_REQ` threads, every device's zone exists
and has a cpu, and at most `MAX_DEVS - 1` different interrupts go to each cpu, then in every state
of every interleaving the responses taken out of the ring are the first ones written, the others are
intact, no call returns before its response has been taken out, and the remaining ones can be. -/
theorem responses_not_lost (zones : List Zone) (devs : List DeviceRes)
    (hdevs : Deliverable zones (fun _ => none) devs)
    (hcard : Fintype.card Thread < maxReq.toNat) (unused : DeviceRes) (s : ResState Thread)
    (h : Reach (resStep zones) (FromDevices devs) (resInit unused) s) :
    NoneLost s ∧ ∃ s', Reach (resStep zones) (FromDevices devs) s s' ∧ NoneLost s' ∧
      s'.written = s.written ∧ s'.taken = s'.written := by
  have hlost : ∀ s : ResState Thread, ResInv zones devs s → NoneLost s := by
    intro s hinv
    refine ⟨hinv.taken_prefix, hinv.holds.slot_eq, ?_⟩
    intro t k hpc
    have hpoint := hinv.point t
    rwa [hpc] at hpoint
  have hinv := ResInv.reach hdevs hcard h
  obtain ⟨s', hreach, hwritten, htaken⟩ := hinv.can_drain hdevs hcard
  exact ⟨hlost s hinv, s', hreach, hlost s' (ResInv.reach hdevs hcard (h.trans hreach)), hwritten,
    htaken⟩

end Runs

/-- The response is read, and the thread returns. -/
theorem responses_not_lost_sample :
    ∃ s : ResState (Fin 2), (s.pc 0 = .done 0 ∧ s.written = [⟨1, 33⟩]) ∧ NoneLost s := by
  have hdevs : Deliverable sampleZones (fun _ => none) [⟨1, 33⟩] := by
    refine ⟨by decide, ?_⟩
    intro cpu
    refine lt_of_le_of_lt (toFinset_card_le _) ?_
    show ([] ++ irqsFor sampleZones cpu [⟨1, 33⟩]).length < maxDevs
    rw [nil_append, irqsFor, length_map]
    exact lt_of_le_of_lt (length_filter_le ..) (by decide)
  have hrun : (run (resStep sampleZones) (FromDevices [⟨1, 33⟩])
      (resInit ⟨0, 0⟩ : ResState (Fin 2))
      (.call 0 ⟨1, 33⟩ :: List.replicate 15 (.step 0))).map
        (fun s => (s.pc 0, s.written)) = some (.done 0, [⟨1, 33⟩]) := by
    decide +kernel
  obtain ⟨s, hs, heq⟩ := exists_of_run hrun
  exact ⟨s, Prod.mk.inj heq, (responses_not_lost sampleZones _ hdevs (by decide) ⟨0, 0⟩ s hs).1⟩

/-- A device of a zone that does not exist any more puts its interrupt into the ring. -/
def goneZone : List (ResEvent Unit) := .call () ⟨9, 33⟩ :: List.replicate 9 (.step ())

/-- The drain loop is at the response of `goneZone`, which it skips without advancing. -/
structure Skipping (s : ResState Unit) : Prop where
  front_eq : s.ring.resFront = 0
  rear_eq : s.ring.resRear = 1
  slot_eq : s.ring.resList 0 = ⟨9, 33⟩
  bridge_eq : s.bridge = some ()
  taken_eq : s.taken = []
  point : s.pc () = .test 0 ∨ s.pc () = .loadIrq 0 ∨ s.pc () = .loadZone 0 33 ∨
    s.pc () = .deliver 0 ⟨9, 33⟩

theorem Skipping.step {s s' : ResState Unit} {e : ResEvent Unit} (h : Skipping s)
    (hs : resStep sampleZones s e = some s') : Skipping s' := by
  obtain ⟨hfront, hrear, hslot, hbridge, htaken, hpoint⟩ := h
  cases e with
  | call t res =>
    rw [resStep, ite_none_right_eq_some] at hs
    rcases hpoint with hpc | hpc | hpc | hpc <;> rw [hpc] at hs <;> cases hs.1
  | ret t =>
    rcases hpoint with hpc | hpc | hpc | hpc <;> simp only [resStep, hpc] at hs <;> cases hs
  | handle cpu =>
    rw [resStep, hbridge, if_neg (by simp)] at hs
    cases hs
  | step t =>
    have hfrontSlot : s.ring.resFront.toNat = 0 := by rw [hfront]; rfl
    have hempty : s.ring.isResListEmpty = false := by
      rw [ResRing.isResListEmpty, hfront, hrear]
      rfl
    have hskip : Bridge.deliver sampleZones s.irqs ⟨9, 33⟩ = .skipped := rfl
    rcases hpoint with hpc | hpc | hpc | hpc
    · simp only [resStep, responderStep, hpc, hempty] at hs
      cases hs
      exact ⟨hfront, hrear, hslot, hbridge, htaken, by simp⟩
    · simp only [resStep, responderStep, hpc, hfrontSlot, hslot] at hs
      cases hs
      exact ⟨hfront, hrear, hslot, hbridge, htaken, by simp⟩
    · simp only [resStep, responderStep, hpc, hfrontSlot, hslot] at hs
      cases hs
      exact ⟨hfront, hrear, hslot, hbridge, htaken, by simp⟩
    · simp only [resStep, responderStep, hpc, hskip] at hs
      cases hs
      exact ⟨hfront, hrear, hslot, hbridge, htaken, by simp⟩

/-- Each of 30 threads has put a response into the ring; two more pass the test together. -/
def crowd : List (ResEvent (Fin 32)) :=
  ((List.finRange 32).take 30).flatMap
      (fun t => .call t ⟨1, 33⟩ :: List.replicate 8 (.step t)) ++
    [.call 30 ⟨1, 33⟩, .call 31 ⟨1, 33⟩, .step 30, .step 30, .step 31, .step 31] ++
    List.replicate 6 (.step 30) ++ List.replicate 8 (.step 31)

/-- One thread suffices when the zone of its response is gone: the response is never taken out. With
32 threads, the ring of deliverable responses overflows: it looks empty to the last thread, which
returns although nothing has been taken out. -/
theorem responses_lost :
    (∃ s, Reach (resStep sampleZones) anyStep (resInit ⟨0, 0⟩) s ∧ s.written = [⟨9, 33⟩] ∧
      ∀ s' : ResState Unit, Reach (resStep sampleZones) anyStep s s' → s'.taken = []) ∧
    ∃ s : ResState (Fin 32),
      Reach (resStep sampleZones) anyStep (resInit ⟨0, 0⟩) s ∧ ¬NoneLost s := by
  constructor
  · have hrun : (run (resStep sampleZones) anyStep (resInit ⟨0, 0⟩) goneZone).map
        (fun s => ((s.ring.resFront, s.ring.resRear, s.ring.resList 0),
          (s.written, s.taken, s.bridge, s.pc ()))) =
        some ((0, 1, ⟨9, 33⟩), ([⟨9, 33⟩], [], some (), .test 0)) := by
      decide +kernel
    obtain ⟨s, hs, heq⟩ := exists_of_run hrun
    simp only [Prod.mk.injEq] at heq
    obtain ⟨⟨hfront, hrear, hslot⟩, hwritten, htaken, hbridge, hpc⟩ := heq
    refine ⟨s, hs, hwritten, ?_⟩
    intro s' hreach
    have hskip := hreach.invariant Skipping ⟨hfront, hrear, hslot, hbridge, htaken, .inl hpc⟩
      fun _ _ _ h _ hstep => h.step hstep
    exact hskip.taken_eq
  · have hrun : (run (resStep sampleZones) anyStep (resInit ⟨0, 0⟩) crowd).map
        (fun s => (s.taken.length, s.pc 31)) = some (0, .done 31) := by
      decide +kernel
    obtain ⟨s, hs, heq⟩ := exists_of_run hrun
    rw [Prod.mk.injEq] at heq
    refine ⟨s, hs, fun hlost => ?_⟩
    have hlt := hlost.2.2 31 31 heq.2
    omega

end HvisorRux.Bridge
