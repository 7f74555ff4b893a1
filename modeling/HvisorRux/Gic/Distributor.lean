import HvisorRux.Common.Bits

/-!
# The emulated GIC distributor

A guest's access to the distributor traps into `vgicv3_dist_handler`
(`device/irqchip/gicv3/vgic.rs`), which performs it on the one physical distributor. Registers that
pack several interrupts into a word go through `restrict_bitmask_access`, which masks what is not in
the zone's `irq_bitmap`; the registers of one interrupt through `vgicv3_handle_irq_ops`, which skips
the access if the interrupt is foreign.

The mask is computed for the aligned 32-bit register that holds the offset, but it is applied to the
value that is transferred, whose bit 0 is bit 0 of the byte at the offset.
-/

namespace HvisorRux.Gic

open Common List Option Nat

/-! ## The physical distributor -/

/-- What the distributor keeps for every interrupt. -/
inductive Field
  | group
  | enable
  | pending
  | active
  | priority
  | target
  | config
  | route
deriving DecidableEq

/-- The bits that one interrupt has in a field. -/
def Field.bits : Field → ℕ
  | .group | .enable | .pending | .active => 1
  | .config => 2
  | .priority | .target => 8
  | .route => 64

/-- What writing a bit does: it is stored, or a one sets or clears it. -/
inductive Effect
  | store
  | set
  | clear
deriving DecidableEq

def Effect.apply : Effect → (old written : Bool) → Bool
  | .store, _, written => written
  | .set, old, written => old || written
  | .clear, old, written => old && !written

/-- A stored bit, or a one, changes some old bit. -/
theorem Effect.exists_apply_ne {e : Effect} {written : Bool} (h : e = .store ∨ written = true) :
    ∃ old, e.apply old written ≠ old := by
  cases e with
  | store => exact ⟨!written, by cases written <;> decide⟩
  | set => exact ⟨false, by simpa [Effect.apply] using h⟩
  | clear => exact ⟨true, by simpa [Effect.apply] using h⟩

/-- A zero has no effect on a set or clear register. -/
theorem Effect.apply_false {e : Effect} (h : e ≠ .store) (old : Bool) :
    e.apply old false = old := by
  cases e with
  | store => exact absurd rfl h
  | set => exact Bool.or_false old
  | clear => exact Bool.and_true old

/-- An array of registers over which the bits of a field are laid out in interrupt order. -/
structure RegisterArray where
  base : ℕ
  len : ℕ
  field : Field
  effect : Effect
deriving DecidableEq

def RegisterArray.Covers (w : RegisterArray) (addr : ℕ) : Prop :=
  w.base ≤ addr ∧ addr < w.base + w.len
deriving Decidable

def gicdCtlr : ℕ := 0x0
def gicdTyper : ℕ := 0x4
def gicdIidr : ℕ := 0x8
def gicdIgroupr : ℕ := 0x80
def gicdIsenabler : ℕ := 0x100
def gicdIcenabler : ℕ := 0x180
def gicdIspendr : ℕ := 0x200
def gicdIcpendr : ℕ := 0x280
def gicdIsactiver : ℕ := 0x300
def gicdIcactiver : ℕ := 0x380
def gicdIpriorityr : ℕ := 0x400
def gicdItargetsr : ℕ := 0x800
def gicdIcfgr : ℕ := 0xc00
def gicdIrouter : ℕ := 0x6000
def gicdv3Pidr4 : ℕ := 0xffd0
def gicdv3Pidr0 : ℕ := 0xffe0
def gicdv3Cidr0 : ℕ := 0xfff0

/-- The register arrays of the distributor. The set and clear registers show the same bits. -/
def registerArrays : List RegisterArray :=
  [⟨gicdIgroupr, 0x80, .group, .store⟩, ⟨gicdIsenabler, 0x80, .enable, .set⟩,
   ⟨gicdIcenabler, 0x80, .enable, .clear⟩,
   ⟨gicdIspendr, 0x80, .pending, .set⟩,
   ⟨gicdIcpendr, 0x80, .pending, .clear⟩,
   ⟨gicdIsactiver, 0x80, .active, .set⟩,
   ⟨gicdIcactiver, 0x80, .active, .clear⟩,
   ⟨gicdIpriorityr, 0x400, .priority, .store⟩,
   ⟨gicdItargetsr, 0x400, .target, .store⟩,
   ⟨gicdIcfgr, 0x100, .config, .store⟩,
   ⟨gicdIrouter, 0x2000, .route, .store⟩]

/-- The register array that a byte of the distributor belongs to. -/
def arrayOf (addr : ℕ) : Option RegisterArray := registerArrays.find? (·.Covers addr)

/-- The interrupt that bit `j` of a value transferred at `addr` belongs to. -/
def irqAt (addr j : ℕ) : Option ℕ :=
  (arrayOf (addr + j / 8)).map fun w => (8 * (addr + j / 8 - w.base) + j % 8) / w.field.bits

/-- The bits of every field, and the bytes of the registers that belong to no interrupt. -/
structure Gicd where
  bits : Field → ℕ → Bool
  other : ℕ → ℕ → Bool

namespace Gicd

/-- All bits are `b`. -/
def all (b : Bool) : Gicd := ⟨fun _ _ => b, fun _ _ => b⟩

/-- Bit `i` of the byte at `addr`. -/
def bitAt (d : Gicd) (addr i : ℕ) : Bool :=
  match arrayOf addr with
  | some w => d.bits w.field (8 * (addr - w.base) + i)
  | none => d.other addr i

def writeByte (d : Gicd) (addr : ℕ) (byte : ℕ → Bool) : Gicd :=
  match arrayOf addr with
  | some w =>
    { d with
      bits := fun f b =>
        if f = w.field ∧ b / 8 = addr - w.base then w.effect.apply (d.bits f b) (byte (b % 8))
        else d.bits f b }
  | none => { d with other := Function.update d.other addr byte }

/-- A load of `size` bytes, zero-extended. -/
def read (d : Gicd) (addr size : ℕ) : BitVec 64 :=
  ofBits (fun j => decide (j < 8 * size) && d.bitAt (addr + j / 8) (j % 8)) 64

/-- A store of the low `size` bytes of `value`. -/
def write (d : Gicd) (addr : ℕ) (value : BitVec 64) : (size : ℕ) → Gicd
  | 0 => d
  | k + 1 => (d.write addr value k).writeByte (addr + k) fun i => value.getLsbD (8 * k + i)

end Gicd

/-! ## The handler -/

/-- `irq_bitmap` of a zone. -/
abbrev IrqBitmap := Fin 32 → BitVec 32

/-- `irq_in_zone`. No caller asks for an interrupt from 1024 on, which would be out of bounds. -/
def irqInZone (bitmap : IrqBitmap) (irq : ℕ) : Bool :=
  if h : irq / 32 < 32 then (bitmap ⟨irq / 32, h⟩).getLsbD (irq % 32) else false

/-- `is_spi`. -/
def isSpi (irq : ℕ) : Bool := decide (31 < irq) && decide (irq < 1020)

/-- `MMIOAccess` (`memory/mmio.rs`), its address relative to the distributor. -/
structure MMIOAccess where
  address : ℕ
  size : ℕ
  isWrite : Bool
  value : BitVec 64

/-- The sizes of a load or store. -/
def ValidSize (size : ℕ) : Prop := size = 1 ∨ size = 2 ∨ size = 4 ∨ size = 8
deriving Decidable

/-- `mmio_perform_access`. It does not return for another size (`panic!`) or an unaligned address:
the distributor is device memory, where EL2 takes an alignment fault. -/
def mmioPerformAccess (d : Gicd) (mmio : MMIOAccess) : Option (Gicd × MMIOAccess) :=
  if ValidSize mmio.size ∧ mmio.size ∣ mmio.address then
    if mmio.isWrite then some (d.write mmio.address mmio.value mmio.size, mmio)
    else some (d, { mmio with value := d.read mmio.address mmio.size })
  else none

/-- The mask loop of `restrict_bitmask_access`. -/
def accessMask (bitmap : IrqBitmap) (regIndex bitsPerIrq : ℕ) : BitVec 64 :=
  let irqsPerReg := 32 / bitsPerIrq
  let firstIrq := regIndex * irqsPerReg
  fieldMask 64 (fun irq => irqInZone bitmap (firstIrq + irq)) bitsPerIrq irqsPerReg

/-- `restrict_bitmask_access`; `GICD_LOCK` makes the read and the write of the last branch one
step. -/
def restrictBitmaskAccess (bitmap : IrqBitmap) (d : Gicd) (mmio : MMIOAccess)
    (regIndex bitsPerIrq : ℕ) (isPoke : Bool) : Option (Gicd × MMIOAccess) :=
  let mask := accessMask bitmap regIndex bitsPerIrq
  if !mmio.isWrite then
    (mmioPerformAccess d mmio).map fun r => (r.1, { r.2 with value := r.2.value &&& mask })
  else if isPoke then
    mmioPerformAccess d { mmio with value := mmio.value &&& mask }
  else
    (mmioPerformAccess d { mmio with isWrite := false }).bind fun r =>
      mmioPerformAccess r.1
        { r.2 with
          isWrite := true
          value := (r.2.value &&& ~~~mask) ||| (mmio.value &&& mask) }

/-- `vgicv3_handle_irq_ops`: a skipped access leaves `mmio.value`, for a read the value that the
guest's register had. -/
def vgicv3HandleIrqOps (bitmap : IrqBitmap) (d : Gicd) (mmio : MMIOAccess) (irq : ℕ) :
    Option (Gicd × MMIOAccess) :=
  if !isSpi irq || !irqInZone bitmap irq then some (d, mmio) else mmioPerformAccess d mmio

/-- `reg_range(base, n, size).contains(&reg)`: the last register of an array is not in its range. -/
def inRegRange (base n size reg : ℕ) : Prop := base ≤ reg ∧ reg < base + (n - 1) * size
deriving Decidable

/-- The registers that a zone may read although they belong to no interrupt. -/
def MiscReg (reg : ℕ) : Prop :=
  inRegRange gicdv3Pidr0 4 4 reg ∨ inRegRange gicdv3Pidr4 4 4 reg ∨ inRegRange gicdv3Cidr0 4 4 reg
    ∨ reg = gicdCtlr ∨ reg = gicdTyper ∨ reg = gicdIidr
deriving Decidable

/-- `vgicv3_dist_misc_access`; `none` is the `todo!()`. -/
def vgicv3DistMiscAccess (d : Gicd) (mmio : MMIOAccess) : Option (Gicd × MMIOAccess) :=
  if MiscReg mmio.address then
    if !mmio.isWrite then mmioPerformAccess d mmio else some (d, mmio)
  else none

/-- The arms of the `match` in `vgicv3_dist_handler`, with the arguments they pass on. -/
inductive DistArm
  | irqOps (irq : ℕ)
  | bitmask (regIndex bitsPerIrq : ℕ) (isPoke : Bool)
  | misc

/-- The arm that an offset selects. -/
def distArm (reg : ℕ) : DistArm :=
  if inRegRange gicdIrouter 1024 8 reg then .irqOps ((reg - gicdIrouter) / 8)
  else if inRegRange gicdItargetsr 1024 1 reg then .irqOps (reg - gicdItargetsr)
  else if inRegRange gicdIcenabler 32 4 reg ∨ inRegRange gicdIsenabler 32 4 reg
      ∨ inRegRange gicdIcpendr 32 4 reg ∨ inRegRange gicdIspendr 32 4 reg
      ∨ inRegRange gicdIcactiver 32 4 reg ∨ inRegRange gicdIsactiver 32 4 reg then
    .bitmask ((reg &&& 0x7f) / 4) 1 true
  else if inRegRange gicdIgroupr 32 4 reg then .bitmask ((reg &&& 0x7f) / 4) 1 false
  else if inRegRange gicdIcfgr 64 4 reg then .bitmask ((reg &&& 0xff) / 4) 2 false
  else if inRegRange gicdIpriorityr 255 4 reg then .bitmask ((reg &&& 0x3ff) / 4) 8 false
  else .misc

/-- `vgicv3_dist_handler`; `none` when it does not return. -/
def vgicv3DistHandler (bitmap : IrqBitmap) (d : Gicd) (mmio : MMIOAccess) :
    Option (Gicd × MMIOAccess) :=
  match distArm mmio.address with
  | .irqOps irq => vgicv3HandleIrqOps bitmap d mmio irq
  | .bitmask regIndex bitsPerIrq isPoke =>
    restrictBitmaskAccess bitmap d mmio regIndex bitsPerIrq isPoke
  | .misc => vgicv3DistMiscAccess d mmio

/-! ## Isolation -/

/-- Foreign bits are as before, and zero in what a read returns. -/
structure Isolated (bitmap : IrqBitmap) (d : Gicd) (mmio : MMIOAccess) (r : Gicd × MMIOAccess) :
    Prop where
  unchanged : ∀ f b, irqInZone bitmap (b / f.bits) = false → r.1.bits f b = d.bits f b
  zero : mmio.isWrite = false → ∀ j < 8 * mmio.size, ∀ irq ∈ irqAt mmio.address j,
    irqInZone bitmap irq = false → r.2.value.getLsbD j = false

section

variable (bitmap : IrqBitmap)

/-- The access returns and keeps foreign interrupts out of reach, in every state of the
distributor. -/
def Isolating (mmio : MMIOAccess) : Prop :=
  ∀ d, ∃ r, vgicv3DistHandler bitmap d mmio = some r ∧ Isolated bitmap d mmio r

/-- Bit `j` of the access mask, which is that of bit `j` of the aligned register. -/
def maskBit (regIndex bitsPerIrq j : ℕ) : Bool :=
  decide (j < 32) && irqInZone bitmap (regIndex * (32 / bitsPerIrq) + j / bitsPerIrq)

/-- All interrupts whose bits are transferred are in the zone. -/
def AllInZone (mmio : MMIOAccess) : Prop :=
  ∀ j < 8 * mmio.size, ∀ i ∈ irqAt mmio.address j, irqInZone bitmap i = true

/-- A transferred bit that passes the mask belongs to an interrupt of the zone. Of a write to a set
or clear register only the ones matter. -/
def MaskSound (mmio : MMIOAccess) (regIndex bitsPerIrq : ℕ) (isPoke : Bool) : Prop :=
  ∀ j < 8 * mmio.size, maskBit bitmap regIndex bitsPerIrq j = true →
    (mmio.isWrite = true → isPoke = true → mmio.value.getLsbD j = true) →
      ∀ i ∈ irqAt mmio.address j, irqInZone bitmap i = true

/-- The accesses that are isolating. They are aligned where they are performed, and what is let
through is the zone's own. A skipped read returns the value the guest's register had, which must be
zero at foreign interrupts. -/
def SafeAccess (mmio : MMIOAccess) : Prop :=
  match distArm mmio.address with
  | .irqOps irq =>
    if isSpi irq && irqInZone bitmap irq then mmio.size ∣ mmio.address ∧ AllInZone bitmap mmio
    else mmio.isWrite = false → ∀ j < 8 * mmio.size, ∀ i ∈ irqAt mmio.address j,
      irqInZone bitmap i = false → mmio.value.getLsbD j = false
  | .bitmask regIndex bitsPerIrq isPoke =>
    mmio.size ∣ mmio.address ∧ MaskSound bitmap mmio regIndex bitsPerIrq isPoke
  | .misc => MiscReg mmio.address ∧ (mmio.isWrite = false → mmio.size ∣ mmio.address)

end

/-! ## Accesses within one register array -/

theorem registerArrays_disjoint : ∀ w ∈ registerArrays, ∀ w' ∈ registerArrays,
    w = w' ∨ w.base + w.len ≤ w'.base ∨ w'.base + w'.len ≤ w.base := by decide

theorem registerArrays_base : ∀ w ∈ registerArrays, 4 ∣ w.base := by decide

theorem registerArrays_aligned : ∀ w ∈ registerArrays, 8 ∣ w.base + w.len := by decide

variable {w : RegisterArray} {d : Gicd} {value : BitVec 64} {r : Gicd × MMIOAccess} {reg size j : ℕ}
  {addr : ℕ} {mmio : MMIOAccess}

theorem arrayOf_eq (hw : w ∈ registerArrays) (h : w.Covers addr) : arrayOf addr = some w := by
  cases hf : arrayOf addr with
  | none =>
    have hnot := find?_eq_none.mp hf w hw
    exact absurd (decide_eq_true h) hnot
  | some w' =>
    have hmem := mem_of_find?_eq_some hf
    have hcov : w'.Covers addr := by simpa using find?_some hf
    obtain rfl | hlt | hlt := registerArrays_disjoint w hw w' hmem
    · rfl
    · have := h.2
      have := hcov.1
      omega
    · have := h.1
      have := hcov.2
      omega

/-- An access that stays within a register array. -/
structure Within (w : RegisterArray) (addr size : ℕ) : Prop where
  covers : ∀ k < size, arrayOf (addr + k) = some w
  base_le : w.base ≤ addr
  size_le : size ≤ 8

theorem Within.of_aligned (hw : w ∈ registerArrays)
    (hc : w.Covers addr) (hs : ValidSize size) (hd : size ∣ addr) : Within w addr size := by
  have hend := registerArrays_aligned w hw
  have hfit : addr + size ≤ w.base + w.len := by
    have hlt := hc.2
    obtain rfl | rfl | rfl | rfl := hs <;> omega
  refine ⟨fun k hk => arrayOf_eq hw ⟨by have := hc.1; omega, by omega⟩, hc.1, ?_⟩
  obtain rfl | rfl | rfl | rfl := hs <;> omega

section Within

variable {w : RegisterArray} {addr size : ℕ}

section

variable (h : Within w addr size)

include h

theorem Within.irqAt (hj : j < 8 * size) :
    irqAt addr j = some ((8 * (addr - w.base) + j) / w.field.bits) := by
  have hbase := h.base_le
  rw [Gic.irqAt, h.covers (j / 8) (by omega), map_some]
  congr 2
  omega

theorem Within.getLsbD_read (d : Gicd) (hj : j < 8 * size) :
    (d.read addr size).getLsbD j = d.bits w.field (8 * (addr - w.base) + j) := by
  have hbase := h.base_le
  have hsize := h.size_le
  rw [Gicd.read, getLsbD_ofBits, Gicd.bitAt, h.covers (j / 8) (by omega)]
  simp only [hj, decide_true, Bool.true_and, show j < 64 by omega]
  congr 1
  omega

/-- A store changes the bits of the field that the bytes cover, each by the effect of the array. -/
theorem Within.bits_write (d : Gicd) (value : BitVec 64) (f : Field) (b : ℕ) :
    (d.write addr value size).bits f b =
      if f = w.field ∧ 8 * (addr - w.base) ≤ b ∧ b < 8 * (addr - w.base) + 8 * size then
        w.effect.apply (d.bits f b) (value.getLsbD (b - 8 * (addr - w.base)))
      else d.bits f b := by
  have hbase := h.base_le
  -- the bytes are stored one after the other, and each touches its own eight bits
  suffices hk : ∀ k ≤ size, (d.write addr value k).bits f b =
      if f = w.field ∧ 8 * (addr - w.base) ≤ b ∧ b < 8 * (addr - w.base) + 8 * k then
        w.effect.apply (d.bits f b) (value.getLsbD (b - 8 * (addr - w.base)))
      else d.bits f b from hk size le_rfl
  intro k hk
  induction k with
  | zero =>
    rw [if_neg (by omega)]
    rfl
  | succ k ih =>
    rw [Gicd.write, Gicd.writeByte, h.covers k (by omega)]
    simp only [ih (by omega)]
    by_cases hf : f = w.field
    · by_cases hb : b / 8 = addr + k - w.base
      · rw [if_pos ⟨hf, hb⟩, if_neg (by omega), if_pos ⟨hf, by omega, by omega⟩]
        congr 2
        omega
      · rw [if_neg (fun hc => hb hc.2)]
        simp only [hf, true_and]
        exact if_congr (by omega) rfl rfl
    · rw [if_neg (fun hc => hf hc.1), if_neg (fun hc => hf hc.1), if_neg (fun hc => hf hc.1)]

/-- Foreign bits keep their value iff none of those that are stored to changes. -/
theorem Within.unchanged_iff {bitmap : IrqBitmap} : (∀ f b, irqInZone bitmap (b / f.bits) = false →
        (d.write addr value size).bits f b = d.bits f b) ↔
      ∀ j < 8 * size, ∀ i ∈ Gic.irqAt addr j, irqInZone bitmap i = false →
        w.effect.apply (d.bits w.field (8 * (addr - w.base) + j)) (value.getLsbD j) =
          d.bits w.field (8 * (addr - w.base) + j) := by
  constructor
  · intro hkeep j hj i hi hz
    rw [h.irqAt hj, mem_some_iff] at hi
    have hsame := hkeep w.field (8 * (addr - w.base) + j) (by rw [hi]; exact hz)
    rwa [h.bits_write, if_pos ⟨rfl, by omega, by omega⟩, Nat.add_sub_cancel_left] at hsame
  · intro hkeep f b hz
    rw [h.bits_write]
    split
    · next hin =>
      obtain ⟨rfl, hle, hlt⟩ := hin
      obtain ⟨j, rfl⟩ := Nat.exists_eq_add_of_le hle
      have hj : j < 8 * size := by omega
      rw [Nat.add_sub_cancel_left]
      exact hkeep j hj _ (h.irqAt hj) hz
    · rfl

end

end Within

theorem mmioPerformAccess_write (hs : ValidSize size) (hd : size ∣ reg) :
    mmioPerformAccess d ⟨reg, size, true, value⟩ =
      some (d.write reg value size, ⟨reg, size, true, value⟩) := by
  simp [mmioPerformAccess, hs, hd]

theorem mmioPerformAccess_read (hs : ValidSize size) (hd : size ∣ reg) :
    mmioPerformAccess d ⟨reg, size, false, value⟩ =
      some (d, ⟨reg, size, false, d.read reg size⟩) := by
  simp [mmioPerformAccess, hs, hd]

theorem aligned_of_mmioPerformAccess
    (h : mmioPerformAccess d mmio = some r) : mmio.size ∣ mmio.address := by
  unfold mmioPerformAccess at h
  split at h
  · next hc => exact hc.2
  · cases h

/-! ## The arms of the handler -/

theorem getLsbD_accessMask (bitmap : IrqBitmap) (regIndex : ℕ) {bits : ℕ} (h : bits ∣ 32) (j : ℕ) :
    (accessMask bitmap regIndex bits).getLsbD j = maskBit bitmap regIndex bits j := by
  have hpos : 0 < bits := pos_of_dvd_of_pos h (by decide)
  have hfull : 32 / bits * bits = 32 := Nat.div_mul_cancel h
  rw [accessMask, getLsbD_fieldMask _ hpos (by rw [hfull]; decide), hfull, maskBit]

/-- The registers of one interrupt are stored to as they are. -/
theorem distArm_irqOps {irq : ℕ} (h : distArm reg = .irqOps irq) :
    ∃ w ∈ registerArrays, w.Covers reg ∧ w.effect = .store := by
  unfold distArm at h
  split_ifs at h with hroute htarget
  · obtain ⟨hle, hlt⟩ := hroute
    refine ⟨⟨gicdIrouter, 0x2000, .route, .store⟩, by decide, ⟨hle, ?_⟩, rfl⟩
    show reg < gicdIrouter + 0x2000
    omega
  · obtain ⟨hle, hlt⟩ := htarget
    refine ⟨⟨gicdItargetsr, 0x400, .target, .store⟩, by decide, ⟨hle, ?_⟩, rfl⟩
    show reg < gicdItargetsr + 0x400
    omega

/-- The arm of a masked register, in terms of the register array: which register it is, and that it
is written with `is_poke` iff a zero bit has no effect. -/
structure IsBitmask (reg regIndex bits : ℕ) (isPoke : Bool) (w : RegisterArray) : Prop where
  mem : w ∈ registerArrays
  covers : w.Covers reg
  bits_eq : w.field.bits = bits
  dvd : bits ∣ 32
  regIndex_eq : regIndex = (reg - w.base) / 4
  isPoke_iff : isPoke = true ↔ w.effect ≠ .store

/-- The low bits of the offset give the register, as the base of the array is a multiple of its
length. -/
theorem RegisterArray.index_eq (h : w.Covers reg) {k : ℕ}
    (hk : w.len = 2 ^ k) (hd : 2 ^ k ∣ w.base) : reg &&& (2 ^ k - 1) = reg - w.base := by
  obtain ⟨hle, hlt⟩ := h
  obtain ⟨c, hc⟩ := hd
  have hsplit : reg = 2 ^ k * c + (reg - w.base) := by omega
  rw [and_two_pow_sub_one_eq_mod]
  conv_lhs => rw [hsplit, mul_add_mod, mod_eq_of_lt (by omega)]

theorem RegisterArray.isBitmask (hw : w ∈ registerArrays) {n k : ℕ}
    (hr : inRegRange w.base n 4 reg) (hn : (n - 1) * 4 ≤ w.len) (hk : w.len = 2 ^ k)
    (hd : 2 ^ k ∣ w.base) (hbits : w.field.bits ∣ 32) :
    IsBitmask reg ((reg &&& (2 ^ k - 1)) / 4) w.field.bits (decide (w.effect ≠ .store)) w where
  mem := hw
  covers := ⟨hr.1, lt_of_lt_of_le hr.2 (by omega)⟩
  bits_eq := rfl
  dvd := hbits
  regIndex_eq := by rw [RegisterArray.index_eq ⟨hr.1, lt_of_lt_of_le hr.2 (by omega)⟩ hk hd]
  isPoke_iff := decide_eq_true_iff

theorem distArm_bitmask {regIndex bits : ℕ} {isPoke : Bool}
    (h : distArm reg = .bitmask regIndex bits isPoke) :
    ∃ w, IsBitmask reg regIndex bits isPoke w := by
  have found (w : RegisterArray) (hw : w ∈ registerArrays) (n k : ℕ)
      (hr : inRegRange w.base n 4 reg)
      (ha : (n - 1) * 4 ≤ w.len ∧ w.len = 2 ^ k ∧ 2 ^ k ∣ w.base ∧ w.field.bits ∣ 32) :=
    Exists.intro w (w.isBitmask hw hr ha.1 ha.2.1 ha.2.2.1 ha.2.2.2)
  unfold distArm at h
  split_ifs at h with hroute htarget hpoke hgroup hcfg hprio
  all_goals injection h with hidx hbits hisPoke; subst hidx hbits hisPoke
  · obtain hr | hr | hr | hr | hr | hr := hpoke
    · exact found ⟨gicdIcenabler, 0x80, .enable, .clear⟩ (by decide) 32 7 hr (by decide)
    · exact found ⟨gicdIsenabler, 0x80, .enable, .set⟩ (by decide) 32 7 hr (by decide)
    · exact found ⟨gicdIcpendr, 0x80, .pending, .clear⟩ (by decide) 32 7 hr (by decide)
    · exact found ⟨gicdIspendr, 0x80, .pending, .set⟩ (by decide) 32 7 hr (by decide)
    · exact found ⟨gicdIcactiver, 0x80, .active, .clear⟩ (by decide) 32 7 hr (by decide)
    · exact found ⟨gicdIsactiver, 0x80, .active, .set⟩ (by decide) 32 7 hr (by decide)
  · exact found ⟨gicdIgroupr, 0x80, .group, .store⟩ (by decide) 32 7 hgroup (by decide)
  · exact found ⟨gicdIcfgr, 0x100, .config, .store⟩ (by decide) 64 8 hcfg (by decide)
  · exact found ⟨gicdIpriorityr, 0x400, .priority, .store⟩ (by decide) 255 10 hprio (by decide)

/-! ## What the masked registers let through -/

section Bitmask

variable {bitmap : IrqBitmap} {reg size regIndex bits : ℕ} {isWrite isPoke : Bool}
  {value : BitVec 64} {w : RegisterArray}

/-- The value that a masked write stores. -/
def maskedValue (mask old value : BitVec 64) (isPoke : Bool) : BitVec 64 :=
  if isPoke then value &&& mask else (old &&& ~~~mask) ||| (value &&& mask)

theorem restrictBitmaskAccess_read (hs : ValidSize size) (hd : size ∣ reg) (d : Gicd) :
    restrictBitmaskAccess bitmap d ⟨reg, size, false, value⟩ regIndex bits isPoke =
      some (d, ⟨reg, size, false, d.read reg size &&& accessMask bitmap regIndex bits⟩) := by
  simp [restrictBitmaskAccess, mmioPerformAccess_read hs hd]

theorem restrictBitmaskAccess_write (hs : ValidSize size) (hd : size ∣ reg) (d : Gicd) :
    ∃ mmio, restrictBitmaskAccess bitmap d ⟨reg, size, true, value⟩ regIndex bits isPoke =
      some (d.write reg
        (maskedValue (accessMask bitmap regIndex bits) (d.read reg size) value isPoke) size,
        mmio) := by
  cases isPoke <;>
    simp [restrictBitmaskAccess, maskedValue, mmioPerformAccess_read hs hd,
      mmioPerformAccess_write hs hd]

theorem aligned_of_restrictBitmaskAccess
    (h : restrictBitmaskAccess bitmap d ⟨reg, size, isWrite, value⟩ regIndex bits isPoke = some r) :
    size ∣ reg := by
  unfold restrictBitmaskAccess at h
  split_ifs at h
  · obtain ⟨a, ha, -⟩ := map_eq_some_iff.mp h
    exact aligned_of_mmioPerformAccess ha
  · exact aligned_of_mmioPerformAccess h
  · obtain ⟨a, ha, -⟩ := bind_eq_some_iff.mp h
    exact aligned_of_mmioPerformAccess ha

section

variable (hw : IsBitmask reg regIndex bits isPoke w)

include hw

/-- A bit of a masked write takes effect iff it passes the mask and, for a set or clear register, is
a one; then it is stored as the guest wrote it. -/
theorem effect_maskedValue (hs : ValidSize size) (hd : size ∣ reg) (d : Gicd) (hj : j < 8 * size) :
    w.effect.apply (d.bits w.field (8 * (reg - w.base) + j))
        ((maskedValue (accessMask bitmap regIndex bits) (d.read reg size) value isPoke).getLsbD j) =
      if maskBit bitmap regIndex bits j = true ∧ (isPoke = true → value.getLsbD j = true) then
        w.effect.apply (d.bits w.field (8 * (reg - w.base) + j)) (value.getLsbD j)
      else d.bits w.field (8 * (reg - w.base) + j) := by
  have hin := Within.of_aligned hw.mem hw.covers hs hd
  have hsize := hin.size_le
  cases hp : isPoke with
  | true =>
    have heffect := hw.isPoke_iff.mp hp
    rw [maskedValue, if_pos rfl, BitVec.getLsbD_and, getLsbD_accessMask bitmap regIndex hw.dvd]
    cases value.getLsbD j <;> cases maskBit bitmap regIndex bits j <;>
      simp [Effect.apply_false heffect]
  | false =>
    have heffect : w.effect = .store := by
      by_contra he
      rw [hw.isPoke_iff.mpr he] at hp
      cases hp
    rw [maskedValue, if_neg (by decide), BitVec.getLsbD_or, BitVec.getLsbD_and, BitVec.getLsbD_and,
      BitVec.getLsbD_not, getLsbD_accessMask bitmap regIndex hw.dvd, hin.getLsbD_read d hj, heffect]
    -- where the mask is zero, the bit that was read is written back
    have hj64 : j < 64 := by omega
    cases maskBit bitmap regIndex bits j <;> simp [Effect.apply, hj64]

theorem restrictBitmaskAccess_isolated_iff (hs : ValidSize size) : (∀ d, ∃ r,
      restrictBitmaskAccess bitmap d ⟨reg, size, isWrite, value⟩ regIndex bits isPoke = some r ∧
        Isolated bitmap d ⟨reg, size, isWrite, value⟩ r) ↔
      size ∣ reg ∧ MaskSound bitmap ⟨reg, size, isWrite, value⟩ regIndex bits isPoke := by
  constructor
  · intro h
    have hd : size ∣ reg := by
      obtain ⟨r, hr, -⟩ := h (.all false)
      exact aligned_of_restrictBitmaskAccess hr
    have hin := Within.of_aligned hw.mem hw.covers hs hd
    refine ⟨hd, fun j hj hmask hvalue i hi => eq_true_of_ne_false fun hz => ?_⟩
    cases isWrite with
    | false =>
      -- a distributor with all bits set shows what the mask lets through
      obtain ⟨r, hr, hiso⟩ := h (.all true)
      rw [restrictBitmaskAccess_read hs hd] at hr
      cases hr
      have hzero := hiso.zero rfl j hj i hi hz
      rw [BitVec.getLsbD_and, getLsbD_accessMask bitmap regIndex hw.dvd, hin.getLsbD_read _ hj,
        hmask] at hzero
      cases hzero
    | true =>
      have heffect : w.effect = .store ∨ value.getLsbD j = true := by
        by_cases he : w.effect = .store
        · exact .inl he
        · exact .inr (hvalue rfl (hw.isPoke_iff.mpr he))
      obtain ⟨old, hne⟩ := Effect.exists_apply_ne heffect
      obtain ⟨r, hr, hiso⟩ := h (.all old)
      obtain ⟨mmio, hwrite⟩ := restrictBitmaskAccess_write hs hd (.all old)
      rw [hwrite] at hr
      cases hr
      have hsame := hin.unchanged_iff.mp hiso.unchanged j hj i hi hz
      rw [effect_maskedValue hw hs hd _ hj, if_pos ⟨hmask, hvalue rfl⟩] at hsame
      exact hne hsame
  · rintro ⟨hd, hsound⟩ d
    have hin := Within.of_aligned hw.mem hw.covers hs hd
    cases isWrite with
    | false =>
      refine ⟨_, restrictBitmaskAccess_read hs hd d, fun _ _ _ => rfl, ?_⟩
      intro _ j hj i hi hz
      rw [BitVec.getLsbD_and, getLsbD_accessMask bitmap regIndex hw.dvd, Bool.and_eq_false_iff]
      refine .inr (Bool.eq_false_iff.mpr fun hmask => ?_)
      rw [hsound j hj hmask Bool.noConfusion i hi] at hz
      cases hz
    | true =>
      obtain ⟨mmio, hwrite⟩ := restrictBitmaskAccess_write hs hd d
      refine ⟨_, hwrite, hin.unchanged_iff.mpr fun j hj i hi hz => ?_, Bool.noConfusion⟩
      rw [effect_maskedValue hw hs hd d hj, if_neg]
      rintro ⟨hmask, hvalue⟩
      rw [hsound j hj hmask (fun _ => hvalue) i hi] at hz
      cases hz

/-- The mask is right for whole registers. -/
theorem maskSound_of_word (hs : ValidSize size) (h4 : 4 ∣ reg) (hd : size ∣ reg) :
    MaskSound bitmap ⟨reg, size, isWrite, value⟩ regIndex bits isPoke := by
  intro j hj hmask _ i hi
  have hin := Within.of_aligned hw.mem hw.covers hs hd
  have hbase : 4 ∣ w.base := registerArrays_base w hw.mem
  rw [hin.irqAt hj, hw.bits_eq, mem_some_iff] at hi
  -- the first bit of the register is the first bit of its first interrupt
  have hirq : (8 * (reg - w.base) + j) / bits = regIndex * (32 / bits) + j / bits := by
    have hpos : 0 < bits := pos_of_dvd_of_pos hw.dvd (by decide)
    have hreg : 8 * (reg - w.base) = 32 * regIndex := by
      have := hw.regIndex_eq
      omega
    obtain ⟨c, hc⟩ := hw.dvd
    rw [hreg, hc, Nat.mul_div_cancel_left c hpos, Nat.mul_assoc, Nat.mul_add_div hpos, mul_comm c]
  rw [maskBit, Bool.and_eq_true] at hmask
  rw [← hi, hirq]
  exact hmask.2

end

end Bitmask

/-! ## The other registers -/

/-- No register array covers the bytes below GICD_IGROUPR and above the routing registers. -/
theorem arrayOf_eq_none (h : addr < 0x80 ∨ 0x8000 ≤ addr) : arrayOf addr = none := by
  have hinside : ∀ w ∈ registerArrays, 0x80 ≤ w.base ∧ w.base + w.len ≤ 0x8000 := by decide
  refine find?_eq_none.mpr fun w hw hcov => ?_
  have hcov : w.Covers addr := of_decide_eq_true hcov
  have := hinside w hw
  have := hcov.1
  have := hcov.2
  omega

theorem MiscReg.irqAt (h : MiscReg reg) (hs : ValidSize size)
    (hj : j < 8 * size) : irqAt reg j = none := by
  have hsize : size ≤ 8 := by obtain rfl | rfl | rfl | rfl := hs <;> decide
  have hfar : reg < 0x10 ∨ 0x8000 ≤ reg := by
    obtain h | h | h | rfl | rfl | rfl := h
    iterate 3 exact .inr (le_trans (by decide) h.1)
    all_goals exact .inl (by decide)
  rw [Gic.irqAt, arrayOf_eq_none (by omega)]
  rfl

section Others

variable {bitmap : IrqBitmap} {reg size : ℕ} {isWrite : Bool} {value : BitVec 64}

section

variable (hw : w ∈ registerArrays) (hc : w.Covers reg) (heffect : w.effect = .store)
  (hs : ValidSize size)

include hw hc heffect hs

/-- An access that is performed as it is reaches all the interrupts that it covers. -/
theorem mmioPerformAccess_isolated_iff :
    (∀ d, ∃ r, mmioPerformAccess d ⟨reg, size, isWrite, value⟩ = some r ∧
      Isolated bitmap d ⟨reg, size, isWrite, value⟩ r) ↔
      size ∣ reg ∧ AllInZone bitmap ⟨reg, size, isWrite, value⟩ := by
  constructor
  · intro h
    have hd : size ∣ reg := by
      obtain ⟨r, hr, -⟩ := h (.all false)
      exact aligned_of_mmioPerformAccess hr
    have hin := Within.of_aligned hw hc hs hd
    refine ⟨hd, fun j hj i hi => eq_true_of_ne_false fun hz => ?_⟩
    cases isWrite with
    | false =>
      obtain ⟨r, hr, hiso⟩ := h (.all true)
      rw [mmioPerformAccess_read hs hd] at hr
      cases hr
      have hzero := hiso.zero rfl j hj i hi hz
      rw [hin.getLsbD_read _ hj] at hzero
      cases hzero
    | true =>
      obtain ⟨old, hne⟩ := Effect.exists_apply_ne (.inl heffect : _ ∨ value.getLsbD j = true)
      obtain ⟨r, hr, hiso⟩ := h (.all old)
      rw [mmioPerformAccess_write hs hd] at hr
      cases hr
      exact hne (hin.unchanged_iff.mp hiso.unchanged j hj i hi hz)
  · rintro ⟨hd, hzone⟩ d
    -- none of the transferred bits is foreign
    have hnone : ∀ j < 8 * size, ∀ i ∈ irqAt reg j, irqInZone bitmap i ≠ false := by
      intro j hj i hi
      rw [hzone j hj i hi]
      decide
    cases isWrite with
    | false =>
      exact ⟨_, mmioPerformAccess_read hs hd, fun _ _ _ => rfl,
        fun _ j hj i hi hz => absurd hz (hnone j hj i hi)⟩
    | true =>
      refine ⟨_, mmioPerformAccess_write hs hd, ?_, Bool.noConfusion⟩
      exact (Within.of_aligned hw hc hs hd).unchanged_iff.mpr
        fun j hj i hi hz => absurd hz (hnone j hj i hi)

theorem vgicv3HandleIrqOps_isolated_iff (irq : ℕ) :
    (∀ d, ∃ r, vgicv3HandleIrqOps bitmap d ⟨reg, size, isWrite, value⟩ irq = some r ∧
      Isolated bitmap d ⟨reg, size, isWrite, value⟩ r) ↔
      if isSpi irq && irqInZone bitmap irq then
        size ∣ reg ∧ AllInZone bitmap ⟨reg, size, isWrite, value⟩
      else isWrite = false → ∀ j < 8 * size, ∀ i ∈ irqAt reg j,
        irqInZone bitmap i = false → value.getLsbD j = false := by
  simp only [vgicv3HandleIrqOps, ← Bool.not_and]
  cases hown : isSpi irq && irqInZone bitmap irq with
  | true =>
    exact mmioPerformAccess_isolated_iff hw hc heffect hs
  | false =>
    constructor
    · intro h
      obtain ⟨r, hr, hiso⟩ := h (.all false)
      cases hr
      exact hiso.zero
    · exact fun h d => ⟨_, rfl, fun _ _ _ => rfl, h⟩

end

theorem vgicv3DistMiscAccess_isolated_iff (hs : ValidSize size) :
    (∀ d, ∃ r, vgicv3DistMiscAccess d ⟨reg, size, isWrite, value⟩ = some r ∧
      Isolated bitmap d ⟨reg, size, isWrite, value⟩ r) ↔
      MiscReg reg ∧ (isWrite = false → size ∣ reg) := by
  simp only [vgicv3DistMiscAccess]
  constructor
  · intro h
    obtain ⟨r, hr, -⟩ := h (.all false)
    split at hr
    · next hreg =>
      refine ⟨hreg, fun hread => ?_⟩
      subst hread
      exact aligned_of_mmioPerformAccess hr
    · cases hr
  · rintro ⟨hreg, hd⟩ d
    rw [if_pos hreg]
    cases isWrite with
    | true => exact ⟨_, rfl, fun _ _ _ => rfl, Bool.noConfusion⟩
    | false =>
      refine ⟨_, mmioPerformAccess_read hs (hd rfl), fun _ _ _ => rfl, ?_⟩
      intro _ j hj i hi
      rw [hreg.irqAt hs hj] at hi
      cases hi

end Others

/-! ## Exactly the safe accesses are isolating -/

/-- For every zone and every access of a guest: foreign interrupts are out of its reach, whatever
the state of the distributor, iff the access is a safe one. -/
theorem distributor_isolating_iff (bitmap : IrqBitmap) (mmio : MMIOAccess)
    (hs : ValidSize mmio.size) : Isolating bitmap mmio ↔ SafeAccess bitmap mmio := by
  unfold Isolating SafeAccess
  simp only [vgicv3DistHandler]
  cases harm : distArm mmio.address with
  | irqOps irq =>
    obtain ⟨w, hw, hc, heffect⟩ := distArm_irqOps harm
    exact vgicv3HandleIrqOps_isolated_iff hw hc heffect hs irq
  | bitmask regIndex bits isPoke =>
    obtain ⟨w, hw⟩ := distArm_bitmask harm
    exact restrictBitmaskAccess_isolated_iff hw hs
  | misc => exact vgicv3DistMiscAccess_isolated_iff hs

/-- Aligned accesses of a word or a doubleword to a masked register are safe for every zone. -/
theorem safeAccess_of_word (bitmap : IrqBitmap) {regIndex bits : ℕ}
    {isPoke : Bool} (harm : distArm mmio.address = .bitmask regIndex bits isPoke)
    (hs : mmio.size = 4 ∨ mmio.size = 8) (hd : mmio.size ∣ mmio.address) :
    SafeAccess bitmap mmio := by
  obtain ⟨w, hw⟩ := distArm_bitmask harm
  have hsize : ValidSize mmio.size := hs.elim (fun h => .inr (.inr (.inl h)))
    fun h => .inr (.inr (.inr h))
  have h4 : 4 ∣ mmio.address := by
    obtain h | h := hs <;> rw [h] at hd <;> omega
  unfold SafeAccess
  rw [harm]
  exact ⟨hd, maskSound_of_word hw hsize h4 hd⟩

/-! ## A zone with the single interrupt 32 -/

/-- The zone has only interrupt 32, the first of the second bitmap word. -/
def sampleBitmap : IrqBitmap := fun i => if i.val = 1 then 1 else 0

/-- A distributor with all bits clear. -/
def sampleGicd : Gicd := ⟨fun _ _ => false, fun _ _ => false⟩

/-- A word store to GICD_ISENABLER1 is isolating for it. -/
theorem distributor_isolating_sample :
    ValidSize 4 ∧ SafeAccess sampleBitmap ⟨0x104, 4, true, 0xffffffff⟩ ∧
      Isolating sampleBitmap ⟨0x104, 4, true, 0xffffffff⟩ := by
  have hsafe : SafeAccess sampleBitmap ⟨0x104, 4, true, 0xffffffff⟩ :=
    safeAccess_of_word sampleBitmap (show distArm 0x104 = .bitmask 1 1 true by rfl) (.inl rfl)
      (by decide)
  exact ⟨by decide, hsafe, (distributor_isolating_iff sampleBitmap _ (by decide)).mpr hsafe⟩

/-- It enables interrupt 40 with a byte store to the second byte of GICD_ISENABLER1, sets the target
of interrupt 33 with a word store to GICD_ITARGETSR8, and a read of the foreign GICD_ITARGETSR10
returns what its register had. -/
theorem distributor_foreign_touched : (irqInZone sampleBitmap 40 = false ∧
      (vgicv3DistHandler sampleBitmap sampleGicd ⟨0x105, 1, true, 1⟩).map
        (fun r => r.1.bits .enable 40) = some true) ∧
    (irqInZone sampleBitmap 33 = false ∧
      (vgicv3DistHandler sampleBitmap sampleGicd ⟨0x820, 4, true, 0x0100⟩).map
        (fun r => r.1.bits .target 264) = some true) ∧
    (irqAt 0x828 0 = some 40 ∧ (vgicv3DistHandler sampleBitmap sampleGicd ⟨0x828, 4, false, 1⟩).map
        (fun r => r.2.value.getLsbD 0) = some true) := by
  decide +kernel

/-! ## Dispatch -/

/-- A bank of registers as the handler declares it, with the arm that register `i` belongs to. -/
structure GicdBank where
  base : ℕ
  count : ℕ
  width : ℕ
  arm : ℕ → DistArm

def GicdBank.Contains (b : GicdBank) (reg : ℕ) : Prop := inRegRange b.base b.count b.width reg

def gicdBanks : List GicdBank :=
  [⟨gicdIrouter, 1024, 8, .irqOps⟩, ⟨gicdItargetsr, 1024, 1, .irqOps⟩,
   ⟨gicdIcenabler, 32, 4, (.bitmask · 1 true)⟩,
   ⟨gicdIsenabler, 32, 4, (.bitmask · 1 true)⟩,
   ⟨gicdIcpendr, 32, 4, (.bitmask · 1 true)⟩,
   ⟨gicdIspendr, 32, 4, (.bitmask · 1 true)⟩,
   ⟨gicdIcactiver, 32, 4, (.bitmask · 1 true)⟩,
   ⟨gicdIsactiver, 32, 4, (.bitmask · 1 true)⟩,
   ⟨gicdIgroupr, 32, 4, (.bitmask · 1 false)⟩,
   ⟨gicdIcfgr, 64, 4, (.bitmask · 2 false)⟩,
   ⟨gicdIpriorityr, 255, 4, (.bitmask · 8 false)⟩]

section Dispatch

variable {reg : ℕ} {b b' : GicdBank}

/-- An offset in the range of a bank selects the arm of its register. The ranges do not overlap, and
the masked offset is the distance from the base. -/
theorem distArm_of_contains (hb : b ∈ gicdBanks) (hr : b.Contains reg) :
    distArm reg = b.arm ((reg - b.base) / b.width) := by
  have h7 : reg &&& 0x7f = reg % 0x80 := and_two_pow_sub_one_eq_mod reg 7
  have h8 : reg &&& 0xff = reg % 0x100 := and_two_pow_sub_one_eq_mod reg 8
  have h10 : reg &&& 0x3ff = reg % 0x400 := and_two_pow_sub_one_eq_mod reg 10
  simp only [gicdBanks, mem_cons, not_mem_nil, or_false] at hb
  rcases hb with rfl | rfl | rfl | rfl | rfl | rfl | rfl | rfl | rfl | rfl | rfl
  all_goals
    simp only [GicdBank.Contains, distArm, h7, h8, h10, inRegRange, gicdIrouter, gicdItargetsr,
      gicdIcenabler, gicdIsenabler, gicdIcpendr, gicdIspendr, gicdIcactiver, gicdIsactiver,
      gicdIgroupr, gicdIcfgr, gicdIpriorityr] at hr ⊢
    split_ifs <;>
      first | omega | simp only [DistArm.irqOps.injEq, DistArm.bitmask.injEq, and_true] <;> omega

/-- Every other offset goes to `vgicv3_dist_misc_access`. -/
theorem distArm_of_not_contains (h : ∀ b ∈ gicdBanks, ¬b.Contains reg) : distArm reg = .misc := by
  simp only [gicdBanks, forall_mem_cons, GicdBank.Contains] at h
  simp [distArm, h]

theorem arm_ne_misc (hb : b ∈ gicdBanks) (i : ℕ) : b.arm i ≠ .misc := by
  simp only [gicdBanks, mem_cons, not_mem_nil, or_false] at hb
  rcases hb with rfl | rfl | rfl | rfl | rfl | rfl | rfl | rfl | rfl | rfl | rfl <;> simp

/-- The last register of a bank is in no range. -/
theorem not_contains_last (hb : b ∈ gicdBanks) (hb' : b' ∈ gicdBanks)
    (hlast : b.base + (b.count - 1) * b.width ≤ reg)
    (hreg : reg < b.base + b.count * b.width) : ¬b'.Contains reg := by
  have hapart : ∀ b ∈ gicdBanks, ∀ b' ∈ gicdBanks,
      b'.base + (b'.count - 1) * b'.width ≤ b.base + (b.count - 1) * b.width ∨
        b.base + b.count * b.width ≤ b'.base := by
    simp [gicdBanks, gicdIrouter, gicdItargetsr, gicdIcenabler, gicdIsenabler, gicdIcpendr,
      gicdIspendr, gicdIcactiver, gicdIsactiver, gicdIgroupr, gicdIcfgr, gicdIpriorityr]
  rintro ⟨hle, hlt⟩
  have := hapart b hb b' hb'
  omega

theorem distArm_eq_arm_iff (hb : b ∈ gicdBanks) {i k : ℕ} (hi : i < b.count) (hk : k < b.width)
    (hreg : reg = b.base + i * b.width + k) : distArm reg = b.arm i ↔ i + 1 < b.count := by
  constructor
  · intro harm
    by_contra hlast
    obtain rfl : i = b.count - 1 := by omega
    have hend : b.count * b.width = (b.count - 1) * b.width + b.width := by
      rw [← Nat.succ_mul, Nat.succ_eq_add_one, Nat.sub_add_cancel (by omega)]
    have hmisc : distArm reg = .misc := distArm_of_not_contains fun b' hb' =>
      not_contains_last hb hb' (by omega) (by omega)
    exact arm_ne_misc hb _ (harm.symm.trans hmisc)
  · intro hlt
    have hle : (i + 1) * b.width ≤ (b.count - 1) * b.width := mul_le_mul_right _ (by omega)
    rw [succ_mul] at hle
    rw [distArm_of_contains hb ⟨by omega, by omega⟩, hreg, Nat.add_assoc, Nat.add_sub_cancel_left,
      mul_comm, mul_add_div (by omega), div_eq_of_lt hk, add_zero]

/-- **Dispatch.** An access to register `i` of a bank takes the arm of that register iff `i` is not
the last one. An aligned access reaches the `todo!()` iff its offset is in none of the ranges, which
are one register short, and is no miscellaneous register. -/
theorem distributor_dispatch (bitmap : IrqBitmap) (d : Gicd) (mmio : MMIOAccess)
    (hs : ValidSize mmio.size) (hd : mmio.size ∣ mmio.address) :
    (∀ b ∈ gicdBanks, ∀ i < b.count, ∀ k < b.width, mmio.address = b.base + i * b.width + k →
        (distArm mmio.address = b.arm i ↔ i + 1 < b.count)) ∧
      ((vgicv3DistHandler bitmap d mmio).isSome ↔
        (∃ b ∈ gicdBanks, b.Contains mmio.address) ∨ MiscReg mmio.address) := by
  refine ⟨fun b hb i hi k hk hreg => distArm_eq_arm_iff hb hi hk hreg, ?_⟩
  obtain ⟨reg, size, isWrite, value⟩ := mmio
  by_cases hin : ∃ b ∈ gicdBanks, b.Contains reg
  · refine iff_of_true ?_ (.inl hin)
    obtain ⟨b, hb, hr⟩ := hin
    rw [vgicv3DistHandler]
    cases harm : distArm reg with
    | irqOps irq =>
      show (vgicv3HandleIrqOps bitmap d _ irq).isSome = true
      rw [vgicv3HandleIrqOps]
      split
      · rfl
      · cases isWrite <;> simp [mmioPerformAccess_read hs hd, mmioPerformAccess_write hs hd]
    | bitmask regIndex bits isPoke =>
      cases isWrite <;> cases isPoke <;>
        simp [restrictBitmaskAccess, mmioPerformAccess_read hs hd, mmioPerformAccess_write hs hd]
    | misc => exact absurd ((distArm_of_contains hb hr).symm.trans harm) (arm_ne_misc hb _)
  · have hmisc : distArm reg = .misc :=
      distArm_of_not_contains fun b hb hr => hin ⟨b, hb, hr⟩
    rw [or_iff_right hin, vgicv3DistHandler, hmisc]
    by_cases hreg : MiscReg reg
    · cases isWrite <;> simp [vgicv3DistMiscAccess, hreg, mmioPerformAccess_read hs hd]
    · simp [vgicv3DistMiscAccess, hreg]

end Dispatch

/-- GICD_ISENABLER1 and a bitmap with no interrupt. -/
theorem distributor_dispatch_sample : ValidSize 4 ∧ 4 ∣ 0x104 ∧ distArm 0x104 = .bitmask 1 1 true :=
  ⟨by decide, by decide, ((distributor_dispatch (fun _ => 0) sampleGicd ⟨0x104, 4, false, 0⟩
    (by decide) (by decide)).1 ⟨gicdIsenabler, 32, 4, (.bitmask · 1 true)⟩ (by simp [gicdBanks])
      1 (by decide) 0 (by decide) rfl).mpr (by decide)⟩

/-- A read of GICD_ISENABLER31, the last register of its bank, does not return. -/
theorem last_register_unhandled :
    vgicv3DistHandler (fun _ => 0) sampleGicd ⟨gicdIsenabler + 31 * 4, 4, false, 0⟩ = none := by
  decide

end HvisorRux.Gic
