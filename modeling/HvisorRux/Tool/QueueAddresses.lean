import HvisorRux.Tool.Reset

/-!
# Registers of two halves

The addresses of a queue and the accepted features are written in two halves of 32 bits, and
`virtio_mmio_write` ORs each half into the register. So a register holds what was written last iff
all bits it held before are set in the new value: a reset clears the addresses of all queues, but
not the accepted features, and the creation of a device clears the addresses of its first queue
only.
-/

namespace HvisorRux.Tool

open Common List UInt64

/-- The number with the given halves. -/
def ofHalves (low high : UInt32) : UInt64 := ofNat (high.toNat * 2 ^ 32 + low.toNat)

theorem ofHalves_toNat (low high : UInt32) :
    (ofHalves low high).toNat = high.toNat * 2 ^ 32 + low.toNat := by
  have hlow := low.toNat_lt
  have hhigh := high.toNat_lt
  rw [ofHalves, toNat_ofNat']
  omega

theorem or_halves (low high : UInt32) :
    low.toUInt64 ||| (high.toUInt64 <<< 32) = ofHalves low high := by
  have hlow := low.toNat_lt
  have hhigh := high.toNat_lt
  apply UInt64.toNat_inj.mp
  rw [ofHalves_toNat, UInt64.toNat_or, UInt64.toNat_shiftLeft, UInt32.toNat_toUInt64,
    UInt32.toNat_toUInt64]
  show low.toNat ||| high.toNat <<< 32 % 2 ^ 64 = _
  rw [Nat.shiftLeft_eq, Nat.mod_eq_of_lt (by omega), ← Nat.shiftLeft_eq, Nat.or_comm,
    ← Nat.shiftLeft_add_eq_or_of_lt hlow, Nat.shiftLeft_eq]

theorem toUInt64_and_mask (low : UInt32) : low.toUInt64 &&& 0xffffffff = low.toUInt64 := by
  apply UInt64.toNat_inj.mp
  show low.toNat &&& (2 ^ 32 - 1) = low.toNat
  rw [Nat.and_two_pow_sub_one_eq_mod, Nat.mod_eq_of_lt low.toNat_lt]

theorem orHigh_orLow (addr : UInt64) (low high : UInt32) :
    orHigh (orLow addr low.toUInt64) high.toUInt64 = addr ||| ofHalves low high := by
  rw [orHigh, orLow, toUInt64_and_mask, UInt64.or_assoc, or_halves]

/-! ## The three addresses -/

/-- An address of a queue. -/
inductive QueueAddress
  | desc
  | avail
  | used
  deriving DecidableEq, Repr

namespace QueueAddress

/-- The register of the lower half. -/
def low : QueueAddress → UInt64
  | desc => 0x080
  | avail => 0x090
  | used => 0x0a0

/-- The register of the upper half. -/
def high : QueueAddress → UInt64
  | desc => 0x084
  | avail => 0x094
  | used => 0x0a4

/-- `desc_table_addr`, `avail_addr` or `used_addr`. -/
def get : QueueAddress → QueueRegs → UInt64
  | desc, vq => vq.descTableAddr
  | avail, vq => vq.availAddr
  | used, vq => vq.usedAddr

end QueueAddress

/-- The driver writes registers, one after the other. -/
def driverWrites (zm : ZoneMem) (vdev : Device) (writes : List (UInt64 × UInt64)) : Device :=
  writes.foldl (fun vdev w => virtioMmioWrite zm (notifyHandler .nothing) vdev w.1 w.2 4) vdev

section Addresses

variable (zm : ZoneMem) (vdev : Device) (a : QueueAddress)

/-- A write of the lower half changes this address of the selected queue. -/
theorem write_low (value : UInt64) :
    ∃ f : QueueRegs → QueueRegs,
      virtioMmioWrite zm (notifyHandler .nothing) vdev a.low value 4 = vdev.modifyVq f ∧
        ∀ vq, a.get (f vq) = orLow (a.get vq) value ∧ ∀ b, b ≠ a → b.get (f vq) = b.get vq := by
  cases a with
  | desc | avail | used => exact ⟨_, rfl, fun vq => ⟨rfl, fun b hb => by cases b <;> trivial⟩⟩

/-- A write of the upper half changes this address of the selected queue, and the mapped ring. -/
theorem write_high (value : UInt64) :
    ∃ f : QueueRegs → QueueRegs,
      virtioMmioWrite zm (notifyHandler .nothing) vdev a.high value 4 = vdev.modifyVq f ∧
        ∀ vq, a.get (f vq) = orHigh (a.get vq) value ∧ ∀ b, b ≠ a → b.get (f vq) = b.get vq := by
  cases a with
  | desc | avail | used => exact ⟨_, rfl, fun vq => ⟨rfl, fun b hb => by cases b <;> trivial⟩⟩

/-- The device with queue `q` selected. -/
def VirtIODevice.selectQueue (vdev : Device) (q : ℕ) : Device :=
  { vdev with regs := { vdev.regs with queueSel := (ofNat q).toUInt32 } }

theorem write_queueSel {q : ℕ} (hq : q < vdev.vqs.length) (hlen : vdev.vqs.length ≤ 2 ^ 32) :
    virtioMmioWrite zm (notifyHandler .nothing) vdev 0x030 (ofNat q) 4 = vdev.selectQueue q ∧
      (vdev.selectQueue q).regs.queueSel.toNat = q := by
  have hqNat : (ofNat q).toNat = q := by
    rw [toNat_ofNat']
    omega
  constructor
  · show (if (ofNat q).toNat < vdev.vqs.length then vdev.selectQueue q else vdev) = _
    rw [hqNat, if_pos hq]
  · show (ofNat q).toUInt32.toNat = q
    rw [toNat_toUInt32]
    omega

/-- Both halves of an address of queue `q` are ORed into it, and nothing else changes in the
addresses of the queues. -/
theorem driverWrites_address (low high : UInt32) {q : ℕ} {vq : QueueRegs}
    (hvq : vdev.vqs[q]? = some vq) (hlen : vdev.vqs.length ≤ 2 ^ 32) :
    let vdev' := driverWrites zm vdev
      [(0x030, ofNat q), (a.low, low.toUInt64), (a.high, high.toUInt64)]
    (∃ vq', vdev'.vqs[q]? = some vq' ∧ a.get vq' = a.get vq ||| ofHalves low high ∧
      ∀ b, b ≠ a → b.get vq' = b.get vq) ∧
    ∀ i, i ≠ q → vdev'.vqs[i]? = vdev.vqs[i]? := by
  obtain ⟨hq, -⟩ := List.getElem?_eq_some_iff.mp hvq
  obtain ⟨hselect, hsel⟩ := write_queueSel zm vdev hq hlen
  obtain ⟨f, hf, hlow⟩ := write_low zm (vdev.selectQueue q) a low.toUInt64
  obtain ⟨g, hg, hhigh⟩ := write_high zm ((vdev.selectQueue q).modifyVq f) a high.toUInt64
  have hvqs : (driverWrites zm vdev
      [(0x030, ofNat q), (a.low, low.toUInt64), (a.high, high.toUInt64)]).vqs =
      (vdev.vqs.modify q f).modify q g := by
    simp only [driverWrites, foldl_cons, foldl_nil, hselect, hf, hg]
    simp only [VirtIODevice.modifyVq, hsel]
    rfl
  intro vdev'
  simp only [vdev', hvqs]
  constructor
  · refine ⟨g (f vq), ?_, ?_, ?_⟩
    · rw [getElem?_modify_eq, getElem?_modify_eq, hvq]
      rfl
    · rw [(hhigh _).1, (hlow _).1, orHigh_orLow]
    · intro b hb
      rw [(hhigh _).2 b hb, (hlow _).2 b hb]
  · intro i hi
    simp [hi.symm]

/-- Both halves of the accepted features are ORed into them, in either order. -/
theorem driverWrites_features (low high : UInt32) {sel : UInt64} (hsel : sel ≠ 0) :
    (driverWrites zm vdev [(0x024, 0), (0x020, low.toUInt64), (0x024, sel),
        (0x020, high.toUInt64)]).regs.drvFeature = vdev.regs.drvFeature ||| ofHalves low high ∧
      (driverWrites zm vdev [(0x024, sel), (0x020, high.toUInt64), (0x024, 0),
        (0x020, low.toUInt64)]).regs.drvFeature = vdev.regs.drvFeature ||| ofHalves low high := by
  have hselect : ∀ (vdev : Device) (value : UInt64),
      virtioMmioWrite zm (notifyHandler .nothing) vdev 0x024 value 4 =
        { vdev with regs := { vdev.regs with drvFeatureSel := if value ≠ 0 then 1 else 0 } } :=
    fun _ _ => rfl
  have haccept : ∀ (vdev : Device) (value : UInt64),
      virtioMmioWrite zm (notifyHandler .nothing) vdev 0x020 value 4 = acceptFeatures vdev value :=
    fun _ _ => rfl
  constructor
  · simp only [driverWrites, foldl_cons, foldl_nil, hselect, haccept, acceptFeatures]
    simp [hsel, UInt64.or_assoc, or_halves]
  · simp only [driverWrites, foldl_cons, foldl_nil, hselect, haccept, acceptFeatures]
    simp [hsel, UInt64.or_assoc, UInt64.or_comm (_ <<< _), or_halves]

end Addresses

/-! ## After any history -/

/-- After every history of register writes, commands and interrupts, the two halves that a driver
writes to an address of a queue are the address iff they cover the bits that the address had before;
the other two addresses and the other queues keep theirs. The same holds for the accepted
features. -/
theorem half_registers_hold_iff (zm : ZoneMem) (type : VirtioDeviceType) (zoneId : Fin maxZones)
    (requestedState : UInt32 × UInt32) (heap : ℕ → QueueRegs) (vdev : Device)
    (hreach : Reach (deviceStep zm) anyStep
      (createVirtioDevice type zoneId heap (initDev type requestedState)) vdev)
    (low high : UInt32) :
    (∀ (a : QueueAddress) (q : ℕ) (vq : QueueRegs), vdev.vqs[q]? = some vq →
      let vdev' := driverWrites zm vdev
        [(0x030, ofNat q), (a.low, low.toUInt64), (a.high, high.toUInt64)]
      (∃ vq', vdev'.vqs[q]? = some vq' ∧ ((a.get vq').toNat = high.toNat * 2 ^ 32 + low.toNat ↔
          a.get vq ||| ofHalves low high = ofHalves low high) ∧
        ∀ b, b ≠ a → b.get vq' = b.get vq) ∧
      ∀ i, i ≠ q → vdev'.vqs[i]? = vdev.vqs[i]?) ∧
    ∀ sel : UInt64, sel ≠ 0 →
      let lowFirst := driverWrites zm vdev
        [(0x024, 0), (0x020, low.toUInt64), (0x024, sel), (0x020, high.toUInt64)]
      let highFirst := driverWrites zm vdev
        [(0x024, sel), (0x020, high.toUInt64), (0x024, 0), (0x020, low.toUInt64)]
      (lowFirst.regs.drvFeature.toNat = high.toNat * 2 ^ 32 + low.toNat ↔
        vdev.regs.drvFeature ||| ofHalves low high = ofHalves low high) ∧
      lowFirst.regs.drvFeature = highFirst.regs.drvFeature := by
  have hcreated : Created type zoneId vdev :=
    hreach.invariant (Created type zoneId) (Created.create heap _) fun _ _ _ hinv _ hs =>
      hinv.step hs
  have hlen : vdev.vqs.length ≤ 2 ^ 32 := by
    have hqueues := congrArg List.length hcreated.queues
    rw [length_map] at hqueues
    rw [hqueues]
    cases type <;> decide
  have hnumber : ∀ value : UInt64, value.toNat = high.toNat * 2 ^ 32 + low.toNat ↔
      value = ofHalves low high := by
    intro value
    rw [← ofHalves_toNat, UInt64.toNat_inj]
  constructor
  · intro a q vq hvq
    obtain ⟨⟨vq', hvq', hget, hother⟩, hqueues⟩ :=
      driverWrites_address zm vdev a low high hvq hlen
    exact ⟨⟨vq', hvq', by rw [hnumber, hget], hother⟩, hqueues⟩
  · intro sel hsel
    obtain ⟨hlowFirst, hhighFirst⟩ := driverWrites_features zm vdev low high hsel
    exact ⟨by rw [hnumber, hlowFirst], hlowFirst.trans hhighFirst.symm⟩

/-- A driver writes an address of the second queue of a network device, resets it, and writes it
again. -/
theorem half_registers_hold_sample :
    ∃ vdev : Device, ∃ vq',
      (driverWrites noZoneMem vdev [(0x030, 1), (0x080, 0x2000), (0x084, 1)]).vqs[1]? = some vq' ∧
        vq'.descTableAddr.toNat = 0x100002000 := by
  have hrun : (run (deviceStep noZoneMem) anyStep
      (createVirtioDevice .net ⟨1, one_lt_maxZones⟩ (fun _ => .zero) (initDev .net (0, 0)))
      [registerWrite 0x030 1, registerWrite 0x080 0x1000, registerWrite 0x084 3,
        registerWrite 0x070 0]).map (fun vdev => vdev.vqs[1]?) =
      some (some { QueueRegs.zero with queueNumMax := 256 }) := by
    decide +kernel
  obtain ⟨vdev, hs, hvq⟩ := exists_of_run hrun
  obtain ⟨⟨vq', hvq', hiff, -⟩, -⟩ := (half_registers_hold_iff noZoneMem .net ⟨1, one_lt_maxZones⟩
    (0, 0) (fun _ => .zero) vdev hs 0x2000 1).1 .desc 1 _ hvq
  exact ⟨vdev, vq', hvq', hiff.mpr (by decide)⟩

/-- A queue that is set up for the second time without a reset gets a mixture of both addresses, and
so do the features of a driver that follows another one, in spite of a reset. -/
theorem half_registers_accumulate :
    ((run (deviceStep noZoneMem) anyStep (freshDevice .block ⟨1, one_lt_maxZones⟩ (0, 0))
      [registerWrite 0x030 0, registerWrite 0x080 0x1000, registerWrite 0x084 0,
        registerWrite 0x030 0, registerWrite 0x080 0x2000, registerWrite 0x084 0]).map
      fun vdev => vdev.vqs.map QueueRegs.descTableAddr) = some [0x3000] ∧
    ((run (deviceStep noZoneMem) anyStep (freshDevice .block ⟨1, one_lt_maxZones⟩ (0, 0))
      [registerWrite 0x024 0, registerWrite 0x020 2, registerWrite 0x024 1, registerWrite 0x020 1,
        registerWrite 0x070 0, registerWrite 0x024 0, registerWrite 0x020 4,
        registerWrite 0x024 1, registerWrite 0x020 1]).map
      fun vdev => vdev.regs.drvFeature) = some 0x100000006 := by
  constructor <;> decide +kernel

end HvisorRux.Tool
