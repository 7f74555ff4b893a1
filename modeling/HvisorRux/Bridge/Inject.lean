import HvisorRux.Bridge.Defs
import HvisorRux.Common.Iterate

/-!
# Delivering the responses of the virtio devices

The daemon puts interrupts into the response ring of the bridge; `hv_virtio_inject_irq`
(`hypercall/mod.rs`) drains the ring into one list of pending interrupts per cpu, and
`handle_virtio_irq` (`device/virtio_trampoline.rs`) injects the list of its cpu. A list is an array
whose first element is the number of valid ones.

The drain loop has three ways not to deliver: a response that names a zone which does not exist is
skipped without advancing the ring, so that the loop never ends; a zone without cpu and a list that
already has three entries are panics. `inject_delivers_iff` says that there are no others.
-/

namespace HvisorRux.Bridge

open Common Function

/-! ## Zones and their cpus -/

/-- `CpuSet`. -/
structure CpuSet where
  maxCpuId : ℕ
  bitmap : UInt64
  deriving DecidableEq, Repr

/-- `CpuSet::first_cpu`. -/
def CpuSet.firstCpu (set : CpuSet) : Option ℕ :=
  (List.range (set.maxCpuId + 1)).find? fun i => set.bitmap.toNat.testBit i

/-- The fields of a `Zone` that deliveries depend on. -/
structure Zone where
  id : ℕ
  cpuSet : CpuSet
  deriving DecidableEq, Repr

/-- `find_zone`, over `ZONE_LIST`. -/
def findZone (zones : List Zone) (zoneId : UInt32) : Option Zone :=
  zones.find? fun zone => zone.id == zoneId.toNat

/-! ## Lists of pending interrupts -/

/-- `MAX_DEVS`. -/
def maxDevs : ℕ := 4

/-- `[u64; MAX_DEVS + 1]`: the number of pending interrupts, then the interrupts. -/
structure IrqList where
  slots : Vector UInt64 (maxDevs + 1)
  deriving DecidableEq

namespace IrqList

/-- `[0; MAX_DEVS + 1]`. -/
def zero : IrqList := ⟨Vector.replicate _ 0⟩

section

variable (l : IrqList)

/-- `irq_list[0]`. -/
def count : UInt64 := l.slots[0]

/-- `irq_list[0] as usize`. -/
def len : ℕ := l.count.toNat

/-- `irq_list[1..=len]`; `none` is the panic of a slice that is out of bounds. -/
def listed : Option (List UInt64) :=
  if l.len ≤ maxDevs then some ((l.slots.toList.drop 1).take l.len) else none

/-- `irq_list[len + 1] = irq_id; irq_list[0] += 1`. -/
def push (irqId : UInt64) : IrqList :=
  ⟨(l.slots.setIfInBounds (l.len + 1) irqId).setIfInBounds 0 (l.count + 1)⟩

/-- `irq_list[0] = 0`. -/
def clear : IrqList := ⟨l.slots.setIfInBounds 0 0⟩

end

end IrqList

/-- `VIRTIO_IRQS`. -/
abbrev VirtioIrqs := ℕ → Option IrqList

/-- `HvisorDeviceRes`/`struct device_res`. -/
structure DeviceRes where
  targetZone : UInt32
  irqId : UInt32
  deriving DecidableEq, Repr

/-- What the body of the drain loop does with one response: `continue`, a panic, or the delivery,
with the cpu that is sent `IPI_EVENT_VIRTIO_INJECT_IRQ`. -/
inductive Delivery
  | skipped
  | panicked
  | delivered (irqs : VirtioIrqs) (sent : Option ℕ)

/-- The body of the drain loop of `hv_virtio_inject_irq`, up to the advance of `res_front`. -/
def deliver (zones : List Zone) (irqs : VirtioIrqs) (res : DeviceRes) : Delivery :=
  match findZone zones res.targetZone with
  | none => .skipped
  | some zone =>
    match zone.cpuSet.firstCpu with
    | none => .panicked
    | some targetCpu =>
      let irqList := (irqs targetCpu).getD .zero
      match irqList.listed with
      | none => .panicked
      | some listed =>
        if res.irqId.toUInt64 ∈ listed then
          .delivered (update irqs targetCpu (some irqList)) none
        else if irqList.len + 1 < maxDevs then
          .delivered
            (update irqs targetCpu (some (irqList.push res.irqId.toUInt64)))
            (some targetCpu)
        else .panicked

/-- `handle_virtio_irq` on `cpu`: the lists afterwards and the interrupts injected, `none` for a
panic. -/
def handleVirtioIrq (irqs : VirtioIrqs) (cpu : ℕ) : Option (VirtioIrqs × List UInt64) :=
  (irqs cpu).bind fun irqList =>
    irqList.listed.map fun listed => (update irqs cpu (some irqList.clear), listed)

open List

/-! ## The drain loop -/

/-- The response ring of `VirtioBridge`. -/
structure ResRing where
  resFront : UInt32
  resRear : UInt32
  resList : ℕ → DeviceRes

namespace ResRing

section

variable (ring : ResRing)

/-- `is_res_list_empty`. -/
def isResListEmpty : Bool := ring.resRear == ring.resFront

/-- The advance of `res_front`. -/
def advance : ResRing := { ring with resFront := nextFront ring.resFront }

/-- Both indices are inside the ring. -/
def Valid : Prop := ring.resFront < maxReq ∧ ring.resRear < maxReq

/-- The responses in the ring, oldest first. -/
def responses : List DeviceRes :=
  (List.range ((ring.resRear - ring.resFront) % maxReq).toNat).map fun i =>
    ring.resList ((ring.resFront.toNat + i) % maxReq.toNat)

end

end ResRing

/-- Where the drain loop is. -/
inductive DrainPc
  | loop
  | done
  | panicked
  deriving DecidableEq, Repr

/-- The state of a call of `hv_virtio_inject_irq`, with the cpus that were sent an event. -/
structure Drain where
  pc : DrainPc
  ring : ResRing
  irqs : VirtioIrqs
  events : List ℕ

/-- One iteration of the drain loop. -/
def drainStep (zones : List Zone) (s : Drain) : Drain :=
  match s.pc with
  | .loop =>
    if s.ring.isResListEmpty then { s with pc := .done }
    else if maxReq ≤ s.ring.resFront then { s with pc := .panicked }
    else
      match deliver zones s.irqs (s.ring.resList s.ring.resFront.toNat) with
      | .skipped => s
      | .panicked => { s with pc := .panicked }
      | .delivered irqs sent =>
        { s with ring := s.ring.advance, irqs, events := s.events ++ sent.toList }
  | .done | .panicked => s

/-- The entry of `hv_virtio_inject_irq`, called by the root zone. -/
def hvVirtioInjectIrq (irqs : VirtioIrqs) (ring : ResRing) : Drain := ⟨.loop, ring, irqs, []⟩

/-- What happens to `VIRTIO_IRQS`: a drain that ends within `fuel` iterations, or the injection on a
cpu. -/
inductive IrqEvent
  | inject (zones : List Zone) (ring : ResRing) (fuel : ℕ)
  | handle (cpu : ℕ)

/-- One call that returns. -/
def irqStep (irqs : VirtioIrqs) : IrqEvent → Option VirtioIrqs
  | .inject zones ring fuel =>
    let s := (drainStep zones)^[fuel] (hvVirtioInjectIrq irqs ring)
    if s.pc = .done then some s.irqs else none
  | .handle cpu => (handleVirtioIrq irqs cpu).map Prod.fst

/-! ## The lists as arrays -/

namespace IrqList
variable {l : IrqList} {irqId : UInt64} {xs : List UInt64}

@[simp] theorem zero_listed : zero.listed = some [] := rfl

@[simp] theorem clear_len (l : IrqList) : l.clear.len = 0 := by
  simp [clear, len, count]

theorem listed_eq (h : l.len ≤ maxDevs) :
    l.listed = some ((l.slots.toList.drop 1).take l.len) := if_pos h

@[simp] theorem clear_listed (l : IrqList) : l.clear.listed = some [] := by
  simp [listed]

/-- The number of interrupts in the list. -/
theorem length_of_listed (h : l.listed = some xs) : xs.length = l.len := by
  unfold listed at h
  split at h
  · next hle =>
    cases h
    simp only [length_take, length_drop, Vector.length_toList]
    omega
  · contradiction

theorem push_len (h : l.len + 1 < maxDevs) : (l.push irqId).len = l.len + 1 := by
  have hcount : (l.push irqId).count = l.count + 1 := by simp [push, count]
  have hlt : l.count.toNat + 1 < 4 := h
  rw [len, hcount]
  exact Nat.mod_eq_of_lt (by simp; omega)

theorem push_listed (irqId : UInt64) (h : l.len + 1 < maxDevs) (hxs : l.listed = some xs) :
    (l.push irqId).listed = some (xs ++ [irqId]) := by
  have hlen : (l.push irqId).len = l.len + 1 := push_len h
  have htotal : l.slots.toList.length = 5 := Vector.length_toList
  rw [listed_eq (by rw [hlen]; exact h.le), hlen]
  rw [listed_eq (Nat.le_of_succ_le h.le)] at hxs
  cases hxs
  congr 1
  apply ext_getElem?
  intro i
  have hslots : (l.push irqId).slots.toList =
      (l.slots.toList.set (l.len + 1) irqId).set 0 (l.count + 1) := by
    simp [push]
  rw [hslots]
  simp only [getElem?_take, getElem?_drop, getElem?_set, getElem?_append,
    length_take, length_drop, htotal, length_set]
  grind
end IrqList

/-! ## What a delivery does -/

/-- The cpu a response goes to. -/
def targetCpu (zones : List Zone) (res : DeviceRes) : Option ℕ :=
  (findZone zones res.targetZone).bind fun zone => zone.cpuSet.firstCpu

/-- The interrupts that wait for `cpu`. -/
def pending (irqs : VirtioIrqs) (cpu : ℕ) : List UInt64 :=
  ((irqs cpu).getD .zero).listed.getD []

/-- An interrupt joins those that wait unless it is one of them. -/
def insertIrq (xs : List UInt64) (irqId : UInt64) : List UInt64 :=
  if irqId ∈ xs then xs else xs ++ [irqId]

/-- Every list has a free slot behind its valid elements, and no interrupt waits twice. -/
structure IrqsInv (irqs : VirtioIrqs) : Prop where
  len_lt : ∀ cpu l, irqs cpu = some l → l.len < maxDevs
  nodup : ∀ cpu, (pending irqs cpu).Nodup

variable {xs : List UInt64}

theorem mem_insertIrq {irqId x : UInt64} : x ∈ insertIrq xs irqId ↔ x ∈ xs ∨ x = irqId := by
  unfold insertIrq
  split
  · next hmem =>
    constructor
    · exact Or.inl
    · rintro (h | rfl) <;> assumption
  · simp

theorem insertIrq_nodup (h : xs.Nodup) (irqId : UInt64) : (insertIrq xs irqId).Nodup := by
  unfold insertIrq
  split
  · exact h
  · next hmem =>
    refine nodup_append.mpr ⟨h, by simp, ?_⟩
    rintro a ha b hb rfl
    exact hmem (mem_singleton.mp hb ▸ ha)

section Deliver

variable {zones : List Zone} {irqs irqs' : VirtioIrqs} {res : DeviceRes} {cpu : ℕ} {sent : Option ℕ}

theorem IrqsInv.empty : IrqsInv fun _ => none where
  len_lt := by simp
  nodup := by simp [pending]

theorem IrqsInv.getD_len_lt (h : IrqsInv irqs) (cpu : ℕ) :
    ((irqs cpu).getD .zero).len < maxDevs := by
  cases hl : irqs cpu with
  | none => decide
  | some l => exact h.len_lt cpu l hl

theorem IrqsInv.listed_eq (h : IrqsInv irqs) (cpu : ℕ) :
    ((irqs cpu).getD .zero).listed = some (pending irqs cpu) := by
  rw [pending, IrqList.listed_eq (h.getD_len_lt cpu).le, Option.getD_some]

theorem IrqsInv.length_pending (h : IrqsInv irqs) (cpu : ℕ) :
    (pending irqs cpu).length = ((irqs cpu).getD .zero).len :=
  IrqList.length_of_listed (h.listed_eq cpu)

theorem pending_update (irqs : VirtioIrqs) (cpu : ℕ) {l : IrqList} (h : l.listed = some xs) :
    pending (update irqs cpu (some l)) = update (pending irqs) cpu xs := by
  funext c
  by_cases hc : c = cpu
  · subst hc
    simp [pending, h]
  · simp [pending, hc]

/-- Replacing the list of one cpu keeps the invariant. -/
theorem IrqsInv.update (h : IrqsInv irqs) {l : IrqList}
    (hl : l.listed = some xs) (hlen : l.len < maxDevs) (hnodup : xs.Nodup) :
    IrqsInv (update irqs cpu (some l)) where
  len_lt := (forall_update_iff irqs fun _ l => ∀ l', l = some l' → l'.len < maxDevs).mpr
    ⟨fun _ hl' => Option.some.inj hl' ▸ hlen, fun c _ => h.len_lt c⟩
  nodup := by
    rw [pending_update irqs cpu hl]
    exact (forall_update_iff (pending irqs) fun _ => Nodup).mpr ⟨hnodup, fun c _ => h.nodup c⟩

/-- A response without a cpu to go to is not delivered. -/
theorem deliver_of_none (irqs : VirtioIrqs) (h : targetCpu zones res = none) :
    deliver zones irqs res = .skipped ∨ deliver zones irqs res = .panicked := by
  unfold targetCpu at h
  unfold deliver
  split
  · exact .inl rfl
  · next zone hzone =>
    rw [hzone, Option.bind_some] at h
    rw [h]
    exact .inr rfl

/-- The three branches of a delivery, in terms of the waiting interrupts. -/
theorem deliver_of_some (h : IrqsInv irqs) (hcpu : targetCpu zones res = some cpu) :
    deliver zones irqs res =
      if res.irqId.toUInt64 ∈ pending irqs cpu then
        .delivered (update irqs cpu (some ((irqs cpu).getD .zero))) none
      else if (pending irqs cpu).length + 1 < maxDevs then
        .delivered (update irqs cpu (some (((irqs cpu).getD .zero).push res.irqId.toUInt64)))
          (some cpu)
      else .panicked := by
  obtain ⟨zone, hzone, hfirst⟩ := Option.bind_eq_some_iff.mp hcpu
  unfold deliver
  rw [hzone]
  dsimp only
  rw [hfirst]
  dsimp only
  rw [h.listed_eq cpu, h.length_pending cpu]

/-- A response is delivered iff it has a cpu to go to whose list has room for it. -/
theorem deliver_isDelivered_iff (h : IrqsInv irqs) :
    (∃ irqs' sent, deliver zones irqs res = .delivered irqs' sent) ↔
      ∃ cpu, targetCpu zones res = some cpu ∧
        (insertIrq (pending irqs cpu) res.irqId.toUInt64).length < maxDevs := by
  cases hcpu : targetCpu zones res with
  | none =>
    constructor
    · rintro ⟨irqs', sent, hd⟩
      rcases deliver_of_none irqs hcpu with hn | hn <;> rw [hn] at hd <;> contradiction
    · rintro ⟨cpu, hc, -⟩
      contradiction
  | some cpu =>
    have hlen : (pending irqs cpu).length < maxDevs := by
      rw [h.length_pending]
      exact h.getD_len_lt cpu
    rw [deliver_of_some h hcpu]
    simp only [Option.some.injEq, exists_eq_left', insertIrq]
    split
    · simp [hlen]
    · split
      · next hroom => simp [hroom]
      · next hfull => simp [hfull]

/-- What is different after a delivery. -/
theorem deliver_spec (h : IrqsInv irqs) (hd : deliver zones irqs res = .delivered irqs' sent) :
    ∃ cpu, targetCpu zones res = some cpu ∧ IrqsInv irqs' ∧
      pending irqs' = update (pending irqs) cpu (insertIrq (pending irqs cpu) res.irqId.toUInt64) ∧
      (irqs' cpu).isSome ∧ ∀ c, (irqs c).isSome → (irqs' c).isSome := by
  have hkeep : ∀ (cpu : ℕ) (l : IrqList) c, (irqs c).isSome →
      (update irqs cpu (some l) c).isSome := fun cpu l =>
    (forall_update_iff irqs fun c l => (irqs c).isSome → l.isSome).mpr ⟨fun _ => rfl, fun _ _ => id⟩
  cases hcpu : targetCpu zones res with
  | none =>
    rcases deliver_of_none irqs hcpu with hn | hn <;> rw [hn] at hd <;> contradiction
  | some cpu =>
    refine ⟨cpu, rfl, ?_⟩
    rw [deliver_of_some h hcpu] at hd
    split at hd
    · next hmem =>
      cases hd
      refine ⟨h.update (h.listed_eq cpu) (h.getD_len_lt cpu) (h.nodup cpu), ?_, by simp, hkeep _ _⟩
      rw [pending_update irqs cpu (h.listed_eq cpu), insertIrq, if_pos hmem]
    rename_i hmem
    split at hd
    · next hroom =>
      rw [h.length_pending] at hroom
      have hlisted := IrqList.push_listed res.irqId.toUInt64 hroom (h.listed_eq cpu)
      cases hd
      refine ⟨h.update hlisted ?_ ?_, ?_, by simp, hkeep _ _⟩
      · rw [IrqList.push_len hroom]
        exact hroom
      · have hnodup := insertIrq_nodup (h.nodup cpu) res.irqId.toUInt64
        rwa [insertIrq, if_neg hmem] at hnodup
      · rw [pending_update irqs cpu hlisted, insertIrq, if_neg hmem]
    · contradiction

end Deliver

/-! ## Whole drains -/

namespace ResRing

variable {ring : ResRing}

theorem responses_of_empty (h : ring.isResListEmpty = true) : ring.responses = [] := by
  rw [isResListEmpty, beq_iff_eq] at h
  simp [responses, h]

/-- The distance of the indices, for a ring that is not empty. -/
theorem Valid.distance (h : ring.Valid) (hne : ring.isResListEmpty = false) :
    ring.advance.Valid ∧ ((ring.resRear - ring.resFront) % maxReq).toNat =
        ((ring.advance.resRear - ring.advance.resFront) % maxReq).toNat + 1 ∧
      ring.advance.resFront.toNat = (ring.resFront.toNat + 1) % 32 := by
  rcases ring with ⟨front, rear, list⟩
  have hfront : front.toNat < 32 := UInt32.lt_iff_toNat_lt.mp h.1
  have hrear : rear.toNat < 32 := UInt32.lt_iff_toNat_lt.mp h.2
  have hneq : rear.toNat ≠ front.toNat := by
    intro heq
    rw [isResListEmpty, UInt32.toNat_inj.mp heq] at hne
    simp at hne
  have hnext : (nextFront front).toNat = (front.toNat + 1) % 32 := by
    rw [nextFront, UInt32.toNat_and]
    have hmask : (maxReq - 1).toNat = 2 ^ 5 - 1 := by decide
    rw [hmask, Nat.and_two_pow_sub_one_eq_mod]
    show (front.toNat + 1) % 2 ^ 32 % 32 = _
    omega
  have hmax : maxReq.toNat = 32 := rfl
  refine ⟨⟨?_, h.2⟩, ?_, hnext⟩
  · show (nextFront front).toNat < 32
    omega
  · show ((rear - front) % maxReq).toNat = ((rear - nextFront front) % maxReq).toNat + 1
    rw [UInt32.toNat_mod, UInt32.toNat_mod, UInt32.toNat_sub, UInt32.toNat_sub, hmax]
    omega

/-- The oldest response comes first. -/
theorem Valid.responses_eq (h : ring.Valid) (hne : ring.isResListEmpty = false) :
    ring.responses = ring.resList ring.resFront.toNat :: ring.advance.responses := by
  obtain ⟨-, hlen, hnext⟩ := h.distance hne
  have hfront : ring.resFront.toNat < 32 := UInt32.lt_iff_toNat_lt.mp h.1
  have hmax : maxReq.toNat = 32 := rfl
  rw [responses, hlen, range_succ_eq_map, map_cons, List.map_map, Nat.add_zero, hmax,
    Nat.mod_eq_of_lt hfront]
  congr 1
  apply map_congr_left
  intro i _
  show ring.resList _ = ring.resList _
  rw [hmax]
  congr 1
  omega

end ResRing

section Drain

variable {zones : List Zone} {irqs : VirtioIrqs} {ring : ResRing} {s : Drain}
  {rest : List DeviceRes} {res : DeviceRes}

theorem drainStep_of_ne (h : s.pc ≠ .loop) : drainStep zones s = s := by
  unfold drainStep
  split
  case h_1 => contradiction
  case h_2 => rfl
  case h_3 => rfl

/-- The lists stay valid along a drain, whatever it meets. -/
theorem drainStep_inv (h : IrqsInv s.irqs) : IrqsInv (drainStep zones s).irqs := by
  unfold drainStep
  split
  case h_1 =>
    split
    · exact h
    split
    · exact h
    split
    case h_1 => exact h
    case h_2 => exact h
    case h_3 hd =>
      obtain ⟨cpu, -, hinv, -⟩ := deliver_spec h hd
      exact hinv
  case h_2 => exact h
  case h_3 => exact h

theorem drain_inv (zones : List Zone) (h : IrqsInv s.irqs) (n : ℕ) :
    IrqsInv ((drainStep zones)^[n] s).irqs := by
  induction n with
  | zero => exact h
  | succ n ih =>
    rw [iterate_succ_apply']
    exact drainStep_inv ih

/-- One iteration of a drain that has something to deliver. -/
theorem drainStep_deliver (hpc : s.pc = .loop) (hvalid : s.ring.Valid)
    (hne : s.ring.isResListEmpty = false) :
    drainStep zones s =
      match deliver zones s.irqs (s.ring.resList s.ring.resFront.toNat) with
      | .skipped => s
      | .panicked => { s with pc := .panicked }
      | .delivered irqs sent =>
        { s with ring := s.ring.advance, irqs, events := s.events ++ sent.toList } := by
  unfold drainStep
  rw [hpc]
  rw [hne, if_neg (by simp), if_neg (UInt32.not_le.mpr hvalid.1)]

/-- What a drain that ends has done: every response had a cpu to go to, and the waiting interrupts
are those that waited before and those of the responses. -/
structure Drained (zones : List Zone) (irqs irqs' : VirtioIrqs) (responses : List DeviceRes) :
    Prop where
  target : ∀ res ∈ responses, ∃ cpu, targetCpu zones res = some cpu ∧ (irqs' cpu).isSome
  mem_pending : ∀ cpu x, x ∈ pending irqs' cpu ↔ x ∈ pending irqs cpu ∨
    ∃ res ∈ responses, targetCpu zones res = some cpu ∧ res.irqId.toUInt64 = x
  isSome : ∀ cpu, (irqs cpu).isSome → (irqs' cpu).isSome

theorem Drained.nil (zones : List Zone) (irqs : VirtioIrqs) : Drained zones irqs irqs [] where
  target := by simp
  mem_pending := by simp
  isSome := fun _ h => h

/-- A delivery in front of a drain. -/
theorem Drained.cons {irqs₁ irqs₂ : VirtioIrqs}
    {sent : Option ℕ} (h : IrqsInv irqs) (hd : deliver zones irqs res = .delivered irqs₁ sent)
    (hrest : Drained zones irqs₁ irqs₂ rest) : Drained zones irqs irqs₂ (res :: rest) := by
  obtain ⟨cpu, hcpu, -, hpending, hsome, hkeep⟩ := deliver_spec h hd
  refine ⟨?_, ?_, fun c hc => hrest.isSome c (hkeep c hc)⟩
  · intro r hr
    rcases mem_cons.mp hr with rfl | hr
    · exact ⟨cpu, hcpu, hrest.isSome cpu hsome⟩
    · exact hrest.target r hr
  · intro c x
    have hfirst : x ∈ pending irqs₁ c ↔
        x ∈ pending irqs c ∨ (targetCpu zones res = some c ∧ res.irqId.toUInt64 = x) := by
      rw [hpending, hcpu]
      by_cases hc : c = cpu
      · subst hc
        rw [update_self, mem_insertIrq]
        simp [eq_comm]
      · rw [update_of_ne hc]
        simp [Ne.symm hc]
    rw [hrest.mem_pending, hfirst, exists_mem_cons_iff, or_assoc]

/-- A drain that ends has delivered everything. -/
theorem drained_of_done (n : ℕ) (h : IrqsInv s.irqs) (hpc : s.pc = .loop) (hvalid : s.ring.Valid)
    (hdone : ((drainStep zones)^[n] s).pc = .done) :
    Drained zones s.irqs ((drainStep zones)^[n] s).irqs s.ring.responses := by
  induction n generalizing s with
  | zero =>
    rw [iterate_zero, id_eq, hpc] at hdone
    contradiction
  | succ n ih =>
    rw [iterate_succ_apply] at hdone ⊢
    cases hempty : s.ring.isResListEmpty with
    | true =>
      have hstep : drainStep zones s = { s with pc := .done } := by
        unfold drainStep
        rw [hpc]
        rw [hempty, if_pos rfl]
      rw [hstep, iterate_fixed (drainStep_of_ne (by simp)), ResRing.responses_of_empty hempty]
      exact Drained.nil _ _
    | false =>
      rw [drainStep_deliver hpc hvalid hempty] at hdone ⊢
      split at hdone
      case h_1 =>
        -- a skipped response leaves the loop where it was
        exact ih h hpc hvalid hdone
      case h_2 =>
        rw [iterate_fixed (drainStep_of_ne (by simp))] at hdone
        contradiction
      case h_3 irqs₁ sent hd =>
        obtain ⟨-, -, hinv, -⟩ := deliver_spec h hd
        rw [hvalid.responses_eq hempty]
        have hrest := ih (s := { s with
          ring := s.ring.advance, irqs := irqs₁, events := s.events ++ sent.toList })
          hinv hpc (hvalid.distance hempty).1 hdone
        exact hrest.cons h hd

/-! ## When every response is delivered -/

/-- The interrupts that the responses have for `cpu`. -/
def irqsFor (zones : List Zone) (cpu : ℕ) (responses : List DeviceRes) : List UInt64 :=
  (responses.filter fun res => targetCpu zones res = some cpu).map fun res => res.irqId.toUInt64

/-- Every response names a zone with a cpu, and no cpu is left with `MAX_DEVS` different
interrupts. -/
structure Deliverable (zones : List Zone) (irqs : VirtioIrqs) (responses : List DeviceRes) :
    Prop where
  target : ∀ res ∈ responses, (targetCpu zones res).isSome
  room : ∀ cpu, (pending irqs cpu ++ irqsFor zones cpu responses).toFinset.card < maxDevs

/-- `hv_virtio_inject_irq` returns, and afterwards the interrupt of every response waits exactly
once in the list of the first cpu of its zone, which `handle_virtio_irq` injects as it stands. -/
def Delivers (zones : List Zone) (irqs : VirtioIrqs) (ring : ResRing) : Prop :=
  ∃ s, Leads (drainStep zones) (hvVirtioInjectIrq irqs ring) s ∧ s.pc = .done ∧
    ∀ res ∈ ring.responses, ∀ zone, findZone zones res.targetZone = some zone →
      ∃ cpu l listed, zone.cpuSet.firstCpu = some cpu ∧ s.irqs cpu = some l ∧
        l.listed = some listed ∧ listed.count res.irqId.toUInt64 = 1 ∧ l.len ≤ maxDevs ∧
        (handleVirtioIrq s.irqs cpu).map Prod.snd = some listed

theorem mem_irqsFor {cpu : ℕ} {responses : List DeviceRes} {x : UInt64} :
    x ∈ irqsFor zones cpu responses ↔
      ∃ res ∈ responses, targetCpu zones res = some cpu ∧ res.irqId.toUInt64 = x := by
  simp [irqsFor, and_assoc]

/-- The next response of a deliverable list is delivered, and the rest stays deliverable. -/
theorem Deliverable.cons (hinv : IrqsInv irqs) (h : Deliverable zones irqs (res :: rest)) :
    ∃ irqs' sent, deliver zones irqs res = .delivered irqs' sent ∧ IrqsInv irqs' ∧
      Deliverable zones irqs' rest := by
  obtain ⟨cpu, hcpu⟩ := Option.isSome_iff_exists.mp (h.target res (by simp))
  have hroom : (insertIrq (pending irqs cpu) res.irqId.toUInt64).length < maxDevs := by
    rw [← toFinset_card_of_nodup (insertIrq_nodup (hinv.nodup cpu) _)]
    refine lt_of_le_of_lt (Finset.card_le_card ?_) (h.room cpu)
    intro x hx
    rw [List.mem_toFinset, mem_insertIrq] at hx
    rw [List.mem_toFinset, mem_append, mem_irqsFor]
    rcases hx with hx | rfl
    · exact .inl hx
    · exact .inr ⟨res, by simp, hcpu, rfl⟩
  obtain ⟨irqs', sent, hd⟩ := (deliver_isDelivered_iff hinv).mpr ⟨cpu, hcpu, hroom⟩
  obtain ⟨cpu', hcpu', hinv', hpending, -⟩ := deliver_spec hinv hd
  obtain rfl : cpu = cpu' := Option.some.inj (hcpu.symm.trans hcpu')
  refine ⟨irqs', sent, hd, hinv', fun r hr => h.target r (by simp [hr]), ?_⟩
  intro c
  refine lt_of_le_of_lt (Finset.card_le_card ?_) (h.room c)
  intro x hx
  rw [List.mem_toFinset, mem_append, hpending] at hx
  rw [List.mem_toFinset, mem_append]
  rcases hx with hx | hx
  · by_cases hc : c = cpu
    · subst hc
      rw [update_self, mem_insertIrq] at hx
      rcases hx with hx | rfl
      · exact .inl hx
      · exact .inr (mem_irqsFor.mpr ⟨res, by simp, hcpu, rfl⟩)
    · rw [update_of_ne hc] at hx
      exact .inl hx
  · obtain ⟨r, hr, hrc, hrx⟩ := mem_irqsFor.mp hx
    exact .inr (mem_irqsFor.mpr ⟨r, by simp [hr], hrc, hrx⟩)

/-- The drain of a deliverable ring ends. -/
theorem drain_ends (hinv : IrqsInv s.irqs) (hpc : s.pc = .loop) (hvalid : s.ring.Valid)
    (h : Deliverable zones s.irqs s.ring.responses) :
    ∃ n, ((drainStep zones)^[n] s).pc = .done := by
  generalize hr : s.ring.responses = responses at h
  induction responses generalizing s with
  | nil =>
    have hempty : s.ring.isResListEmpty = true := by
      by_contra hne
      rw [hvalid.responses_eq (by simpa using hne)] at hr
      contradiction
    refine ⟨1, ?_⟩
    show (drainStep zones s).pc = .done
    unfold drainStep
    rw [hpc]
    rw [hempty, if_pos rfl]
  | cons res rest ih =>
    have hne : s.ring.isResListEmpty = false := by
      by_contra hempty
      rw [ResRing.responses_of_empty (by simpa using hempty)] at hr
      contradiction
    rw [hvalid.responses_eq hne, List.cons.injEq] at hr
    rcases hr with ⟨rfl, hrest⟩
    obtain ⟨irqs', sent, hd, hinv', hdeliv⟩ := h.cons hinv
    obtain ⟨n, hn⟩ := ih (s := { s with
      ring := s.ring.advance, irqs := irqs', events := s.events ++ sent.toList })
      hinv' hpc (hvalid.distance hne).1 hrest hdeliv
    refine ⟨n + 1, ?_⟩
    rw [iterate_succ_apply, drainStep_deliver hpc hvalid hne, hd]
    exact hn

/-- The lists stay valid along every run of drains and injections. -/
theorem IrqsInv.reach (h : Reach irqStep anyStep (fun _ => none) irqs) : IrqsInv irqs := by
  refine h.invariant IrqsInv IrqsInv.empty ?_
  intro irqs e irqs' hinv _ hs
  cases e with
  | inject zones ring fuel =>
    obtain ⟨-, rfl⟩ := Option.ite_some_none_eq_some.mp hs
    exact drain_inv zones hinv fuel
  | handle cpu =>
    simp only [irqStep, handleVirtioIrq, Option.map_bind, Option.bind_eq_some_iff,
      comp_apply, Option.map_map, Option.map_eq_some_iff] at hs
    obtain ⟨l, -, -, -, rfl⟩ := hs
    exact hinv.update (IrqList.clear_listed l) (by rw [IrqList.clear_len]; decide) nodup_nil

/-- **Delivery of responses.** In every state of the pending lists that drains and injections lead
to, a drain delivers all responses of the ring, whatever they are, iff every response names a zone
with a cpu and at most `MAX_DEVS - 1` different interrupts wait for each cpu in the end. -/
theorem inject_delivers_iff (zones : List Zone) (irqs : VirtioIrqs) (ring : ResRing)
    (h : Reach irqStep anyStep (fun _ => none) irqs) (hvalid : ring.Valid) :
    Delivers zones irqs ring ↔ Deliverable zones irqs ring.responses := by
  have hinv := IrqsInv.reach h
  constructor
  · rintro ⟨s, ⟨n, rfl⟩, hdone, -⟩
    have hdrained := drained_of_done n hinv rfl hvalid hdone
    have hinv' := drain_inv (s := hvVirtioInjectIrq irqs ring) zones hinv n
    refine ⟨fun res hres => ?_, fun cpu => ?_⟩
    · obtain ⟨cpu, hcpu, -⟩ := hdrained.target res hres
      rw [hcpu]
      rfl
    · have hsub : (pending irqs cpu ++ irqsFor zones cpu ring.responses).toFinset ⊆
          (pending ((drainStep zones)^[n] (hvVirtioInjectIrq irqs ring)).irqs cpu).toFinset := by
        intro x hx
        rw [List.mem_toFinset, mem_append, mem_irqsFor] at hx
        rw [List.mem_toFinset, hdrained.mem_pending]
        exact hx
      refine lt_of_le_of_lt (Finset.card_le_card hsub) ?_
      rw [toFinset_card_of_nodup (hinv'.nodup cpu), hinv'.length_pending]
      exact hinv'.getD_len_lt cpu
  · intro hdeliv
    obtain ⟨n, hdone⟩ := drain_ends (s := hvVirtioInjectIrq irqs ring) hinv rfl hvalid hdeliv
    have hdrained := drained_of_done n hinv rfl hvalid hdone
    have hinv' := drain_inv (s := hvVirtioInjectIrq irqs ring) zones hinv n
    refine ⟨_, ⟨n, rfl⟩, hdone, ?_⟩
    intro res hres zone hzone
    obtain ⟨cpu, hcpu, hsome⟩ := hdrained.target res hres
    obtain ⟨l, hl⟩ := Option.isSome_iff_exists.mp hsome
    have hlisted := hinv'.listed_eq cpu
    rw [hl, Option.getD_some] at hlisted
    have hfirst : zone.cpuSet.firstCpu = some cpu := by
      rwa [targetCpu, hzone, Option.bind_some] at hcpu
    refine ⟨cpu, l, _, hfirst, hl, hlisted, ?_, (hinv'.len_lt cpu l hl).le, ?_⟩
    · refine count_eq_one_of_mem (hinv'.nodup cpu) ?_
      exact (hdrained.mem_pending cpu _).mpr (.inr ⟨res, hres, hcpu, rfl⟩)
    · rw [handleVirtioIrq, hl, Option.bind_some, hlisted]
      rfl

end Drain

/-! ## Examples -/

/-- Zone 1, which runs on cpu 1. -/
def sampleZones : List Zone := [⟨1, ⟨4, 0b10⟩⟩]

/-- `n` responses of zone `zone` with the interrupts 33, 34, ... -/
def sampleRing (zone n : UInt32) : ResRing := ⟨0, n, fun i => ⟨zone, UInt32.ofNat (33 + i)⟩⟩

/-- A response of a zone that is gone keeps the loop going for ever, and the fourth interrupt for a
cpu fails the assertion, although the list has room for it. -/
theorem inject_stuck_or_aborted :
    ¬ Delivers sampleZones (fun _ => none) (sampleRing 2 1) ∧
      ¬ Delivers sampleZones (fun _ => none) (sampleRing 1 4) := by
  constructor
  · rintro ⟨s, hleads, hdone, -⟩
    have hstuck : drainStep sampleZones (hvVirtioInjectIrq (fun _ => none) (sampleRing 2 1)) =
        hvVirtioInjectIrq (fun _ => none) (sampleRing 2 1) := rfl
    have heq := (Leads.refl _ _).unique hleads hstuck (drainStep_of_ne (by rw [hdone]; simp))
    rw [← heq] at hdone
    contradiction
  · rintro ⟨s, hleads, hdone, -⟩
    have hpanic : ((drainStep sampleZones)^[4]
        (hvVirtioInjectIrq (fun _ => none) (sampleRing 1 4))).pc = .panicked := by
      decide +kernel
    have heq := Leads.unique (f := drainStep sampleZones) ⟨4, rfl⟩ hleads
      (drainStep_of_ne (by rw [hpanic]; simp)) (drainStep_of_ne (by rw [hdone]; simp))
    rw [← heq] at hdone
    contradiction

/-- Three interrupts for one cpu are delivered. -/
theorem inject_delivers_sample : Delivers sampleZones (fun _ => none) (sampleRing 1 3) := by
  refine (inject_delivers_iff _ _ _ .refl ⟨by decide, by decide⟩).mpr ⟨by decide, ?_⟩
  intro cpu
  by_cases hcpu : cpu = 1
  · subst hcpu
    decide
  have hnone : irqsFor sampleZones cpu (sampleRing 1 3).responses = [] := by
    apply eq_nil_iff_forall_not_mem.mpr
    intro x hx
    obtain ⟨res, hres, htarget, -⟩ := mem_irqsFor.mp hx
    have hone : ∀ r ∈ (sampleRing 1 3).responses, targetCpu sampleZones r = some 1 := by decide
    rw [hone res hres] at htarget
    exact hcpu (Option.some.inj htarget).symm
  have hpending : pending (fun _ => none) cpu = [] := rfl
  rw [hnone, hpending]
  decide

end HvisorRux.Bridge
