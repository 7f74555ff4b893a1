import HvisorRux.Tool.Mmio
import HvisorRux.Zones.Ivc

/-!
# Loads and stores of a guest that trap

A guest that touches an address hvisor emulates takes a data abort to EL2. `handle_dabt`
(`arch/aarch64/trap.rs`) decodes the access from the syndrome, hands it to the handler of the
address range (`memory/mmio.rs`) and writes what the handler answers to the destination register.

What the instruction asks for is `Load.result`. The register does not always get it: an answer wider
than the access is not cut off, the sign of a byte or a halfword is extended to 40 or 48 bits only,
and a load that the syndrome does not describe is taken for one of a byte to `x0`. `load_result_iff`
says when it does.
-/

namespace HvisorRux.Trap

open Common Gic Zones Function Option BitVec

/-! ## Handlers of address ranges -/

/-- What the handlers make of an access, given the argument they were registered with; `none` is a
panic. -/
abbrev Handlers := MMIOHandler → ℕ → MMIOAccess → Option (Except HvErrorNum MMIOAccess)

/-- `contains_region`. -/
def containsRegion (o : Overflow) (m : MMIOConfig) (addr sz : ℕ) : Option Bool :=
  if m.start ≤ addr then do
    let accessEnd ← o.add 64 addr sz
    let regionEnd ← o.add 64 m.start m.size
    some (decide (accessEnd ≤ regionEnd))
  else some false

/-- `find_mmio_region`. -/
def findMmioRegion (o : Overflow) (addr size : ℕ) : List MMIOConfig → Option (Option MMIOConfig)
  | [] => some none
  | m :: mmio => do
    if ← containsRegion o m addr size then some (some m) else findMmioRegion o addr size mmio

/-- `mmio_handle_access` of the zone with the ranges `mmio`. -/
def mmioHandleAccess (o : Overflow) (handlers : Handlers) (mmio : List MMIOConfig)
    (access : MMIOAccess) : Option (Except HvErrorNum MMIOAccess) := do
  match ← findMmioRegion o access.address access.size mmio with
  | some cfg => handlers cfg.handler cfg.arg { access with address := access.address - cfg.start }
  | none => some (.error .einval)

/-- `mmio_virtio_handler` for a load, with the answer of the daemon that serves `vdev`. A notify
does not wait for one. -/
def mmioVirtioHandler (vdev : Tool.VirtIODevice ByteMem) (base : ℕ) (access : MMIOAccess) :
    MMIOAccess :=
  { access with
    address := access.address + base
    value :=
      if access.address = Bridge.queueNotify.toNat then access.value
      else (Tool.virtioMmioRead vdev (.ofNat access.address) (.ofNat access.size)).toBitVec }

/-! ## The syndrome -/

/-- `ESR_EL2::ISS`. -/
abbrev Iss := BitVec 25

namespace Iss

variable (iss : Iss)

/-- `WnR`: the access is a store. -/
def isWrite : Bool := iss.getLsbD 6

/-- `SF`: the destination is a 64-bit register. `handle_dabt` does not look at it. -/
def sf : Bool := iss.getLsbD 15

/-- `srt`; `none` is 31, the zero register. -/
def srt : Option (Fin 31) :=
  let n := (iss.extractLsb' 16 5).toNat
  if h : n < 31 then some ⟨n, h⟩ else none

/-- `SSE`: the load extends the sign. -/
def sse : Bool := iss.getLsbD 21

/-- `1 << sas`. -/
def size : ℕ := 1 <<< (iss.extractLsb' 22 2).toNat

/-- `ISV`: the fields above describe the access. `handle_dabt` does not look at it. -/
def isv : Bool := iss.getLsbD 24

end Iss

/-! ## The handler of data aborts -/

/-- What `handle_dabt` changes of a guest: `GeneralRegisters::usr` and `ELR_EL2`. -/
structure GuestContext where
  usr : Fin 31 → BitVec 64
  elr : BitVec 64

/-- `arch_skip_instruction`; `il` is `ESR_EL2::IL`. -/
def archSkipInstruction (il : Bool) (c : GuestContext) : GuestContext :=
  { c with elr := c.elr + if il then 4 else 2 }

/-- The access that the syndrome describes. -/
def dabtAccess (iss : Iss) (far hpfar : BitVec 64) (c : GuestContext) : MMIOAccess where
  address := ((far &&& 0xfff) ||| (hpfar <<< 8)).toNat
  size := iss.size
  isWrite := iss.isWrite
  value := match iss.srt with
    | none => 0
    | some r => c.usr r

/-- `((value << (32 - 8 * size)) as i32) as usize >> (32 - 8 * size)`. A shift by 64 or more, which
only a build without overflow checks comes to, takes the distance modulo 64. -/
def signExtended (o : Overflow) (size : ℕ) (value : BitVec 64) : Option (BitVec 64) := do
  let dist ← o.sub 64 32 (8 * size)
  some (((value <<< (dist % 64)).setWidth 32).signExtend 64 >>> (dist % 64))

/-- What is written to the destination register. -/
def loadValue (o : Overflow) (size : ℕ) (sse : Bool) (value : BitVec 64) : Option (BitVec 64) :=
  if sse then signExtended o size value else some value

/-- `handle_dabt`. -/
def handleDabt (o : Overflow) (handlers : Handlers) (mmio : List MMIOConfig) (il : Bool) (iss : Iss)
    (far hpfar : BitVec 64) (c : GuestContext) : Option GuestContext := do
  match ← mmioHandleAccess o handlers mmio (dabtAccess iss far hpfar c) with
  | .ok access =>
    match iss.isWrite, iss.srt with
    | false, some r =>
      (loadValue o iss.size iss.sse access.value).map fun value =>
        archSkipInstruction il { c with usr := update c.usr r value }
    | _, _ => some (archSkipInstruction il c)
  | .error _ => none

/-! ## What a load asks for -/

/-- The low `n` bits as a signed number of `w` bits, in a register of 64 bits. -/
def extendTo (w n : ℕ) (value : BitVec 64) : BitVec 64 :=
  ((value.setWidth n).signExtend w).setWidth 64

/-- What a load of `size` bytes has to put into its destination when the device answers `value`. A
signed load extends to the width of the destination, and a write to a 32-bit register clears the
upper half. -/
def loadResult (size : ℕ) (sse sf : Bool) (value : BitVec 64) : BitVec 64 :=
  if sse then extendTo (if sf then 64 else 32) (8 * size) value
  else (value.setWidth (8 * size)).setWidth 64

/-- The answers that `loadValue` passes on as the load asks for: for an unsigned load, those that
fit; for a signed one, any word that goes to a 64-bit register, and shorter numbers that are not
negative. -/
def LoadExact (size : ℕ) (sse sf : Bool) (value : BitVec 64) : Prop :=
  if sse then size = 4 ∧ sf = true ∨ value.getLsbD (8 * size - 1) = false
  else value.toNat < 2 ^ (8 * size)
deriving Decidable

/-- An instruction that loads `1 << sas` bytes to the register `rt`. There are signed loads of up
to four bytes. -/
structure Load where
  sas : BitVec 2
  signed : Bool
  wide : Bool
  rt : Fin 31
  sas_of_signed : signed = true → sas ≠ 3

namespace Load

variable (l : Load)

/-- The bytes that the load asks for. -/
def size : ℕ := 1 <<< l.sas.toNat

/-- What the load has to put into `rt` when the device answers `value`. -/
def result (value : BitVec 64) : BitVec 64 := loadResult l.size l.signed l.wide value

/-- The registers after the load. -/
def effect (value : BitVec 64) (usr : Fin 31 → BitVec 64) : Fin 31 → BitVec 64 :=
  update usr l.rt (l.result value)

theorem validSize : ValidSize l.size := by
  unfold size
  have hsas : l.sas.toNat < 4 := l.sas.isLt
  generalize l.sas.toNat = sas at hsas
  obtain rfl | rfl | rfl | rfl : sas = 0 ∨ sas = 1 ∨ sas = 2 ∨ sas = 3 := by omega
  all_goals decide

/-- A signed load is of one, two or four bytes. -/
theorem size_of_signed (h : l.signed = true) : l.size = 1 ∨ l.size = 2 ∨ l.size = 4 := by
  have hsas : l.sas.toNat < 4 := l.sas.isLt
  have hne : l.sas.toNat ≠ 3 := fun h3 => l.sas_of_signed h (eq_of_toNat_eq h3)
  unfold size
  generalize l.sas.toNat = sas at hsas hne
  obtain rfl | rfl | rfl : sas = 0 ∨ sas = 1 ∨ sas = 2 := by omega
  all_goals decide

end Load

/-- The syndrome that a load which traps comes with. Where it is not valid, as for a load that also
writes its base register back, the fields that would describe the access are zero. -/
structure Iss.Reports (iss : Iss) (l : Load) : Prop where
  isWrite : iss.isWrite = false
  fields : if iss.isv then
      iss.size = l.size ∧ iss.sse = l.signed ∧ iss.sf = l.wide ∧ iss.srt = some l.rt
    else iss.extractLsb' 15 9 = 0

/-- The loads, answers and registers that `handle_dabt` does right. A load without a valid syndrome
has its answer written to `x0` as it is; that is right if `x0` is the destination and asks for no
more than the answer, or if nothing had to change. -/
def LoadOk (iss : Iss) (l : Load) (value : BitVec 64) (usr : Fin 31 → BitVec 64) : Prop :=
  if iss.isv then LoadExact l.size l.signed l.wide value
  else if l.rt = 0 then value = l.result value
  else usr 0 = value ∧ usr l.rt = l.result value
deriving Decidable

variable {o : Overflow} {size w w' n : ℕ} {sse sf : Bool} {value : BitVec 64}

theorem getLsbD_extendTo (hn : 0 < n) (i : ℕ) : (extendTo w n value).getLsbD i =
      (decide (i < 64) && (decide (i < w) && value.getLsbD (if i < n then i else n - 1))) := by
  unfold extendTo
  rw [getLsbD_setWidth, getLsbD_signExtend, msb_eq_getLsbD_last, getLsbD_setWidth, getLsbD_setWidth]
  have hlast : n - 1 < n := by omega
  split <;> simp [*]

/-- Extending to another width makes a difference for negative numbers only. -/
theorem extendTo_eq_iff (hn : 0 < n) (hw : n ≤ w) (hlt : w < w') (hw' : w' ≤ 64) :
    extendTo w n value = extendTo w' n value ↔ value.getLsbD (n - 1) = false := by
  constructor
  · intro h
    have hbit := congrArg (getLsbD · w) h
    simp only [getLsbD_extendTo hn, lt_irrefl, hlt, hlt.trans_le hw', hw.not_gt, decide_true,
      decide_false, Bool.true_and, Bool.false_and, if_false] at hbit
    exact hbit.symm
  · intro hsign
    apply eq_of_getLsbD_eq
    intro i hi
    rw [getLsbD_extendTo hn, getLsbD_extendTo hn]
    by_cases hin : i < n
    · have hiw : i < w := by omega
      have hiw' : i < w' := by omega
      rw [decide_eq_true hiw, decide_eq_true hiw']
    · simp only [if_neg hin, hsign, Bool.and_false]

/-- The expression of the source extends the sign of `size` bytes to `32 + 8 * size` bits. -/
theorem signExtended_eq (hpos : 0 < size) (hle : 8 * size ≤ 32) :
    signExtended o size value = some (extendTo (32 + 8 * size) (8 * size) value) := by
  have hdist : o.sub 64 32 (8 * size) = some (32 - 8 * size) := if_pos hle
  have hmod : (32 - 8 * size) % 64 = 32 - 8 * size := Nat.mod_eq_of_lt (by omega)
  unfold signExtended
  rw [hdist, bind_eq_bind, bind_some, hmod, some.injEq]
  apply eq_of_getLsbD_eq
  intro i hi
  rw [getLsbD_extendTo (by omega), getLsbD_ushiftRight, getLsbD_signExtend, msb_eq_getLsbD_last,
    getLsbD_setWidth, getLsbD_setWidth, getLsbD_shiftLeft, getLsbD_shiftLeft]
  -- bit `i` comes from bit `i` of the answer below the sign, and from the sign above
  have hbelow : 32 - 8 * size + i < 32 ↔ i < 8 * size := by omega
  have habove : 32 - 8 * size + i < 64 ↔ i < 32 + 8 * size := by omega
  have hself : 32 - 8 * size + i - (32 - 8 * size) = i := by omega
  have hlast : 32 - 1 - (32 - 8 * size) = 8 * size - 1 := by omega
  have hin : ¬ 32 - 1 < 32 - 8 * size := by omega
  simp only [hbelow, habove, hself, hlast, hin, hi, decide_true, decide_false, Bool.true_and]
  by_cases hlt : i < 8 * size
  · have hwide : i < 32 + 8 * size := by omega
    simp [hlt, hwide]
  · simp [hlt]

/-- Cutting off what does not fit changes nothing if everything fits. -/
theorem setWidth_setWidth_eq_self_iff (h : n ≤ 64) :
    value = (value.setWidth n).setWidth 64 ↔ value.toNat < 2 ^ n := by
  rw [← toNat_inj, toNat_setWidth, toNat_setWidth]
  have hpow : 2 ^ n ≤ 2 ^ 64 := Nat.pow_le_pow_right (by omega) h
  have hmod : value.toNat % 2 ^ n < 2 ^ n := Nat.mod_lt _ (Nat.two_pow_pos n)
  rw [Nat.mod_eq_of_lt (hmod.trans_le hpow)]
  constructor
  · intro heq
    omega
  · intro hlt
    exact (Nat.mod_eq_of_lt hlt).symm

/-- A signed load of up to four bytes gets the right value if and only if it is exact. -/
theorem signExtended_eq_loadResult_iff (hsize : size = 1 ∨ size = 2 ∨ size = 4) :
    signExtended o size value = some (loadResult size true sf value) ↔
      LoadExact size true sf value := by
  have hne : size ≠ 8 := by omega
  rw [signExtended_eq (by omega) (by omega), some.injEq]
  simp only [loadResult, LoadExact, if_true]
  by_cases hword : size = 4 ∧ sf = true
  · obtain ⟨rfl, rfl⟩ := hword
    simp
  simp only [hword, false_or]
  cases sf with
  | true => exact extendTo_eq_iff (by omega) (by omega) (by simp; grind) (by simp)
  | false =>
    rw [eq_comm]
    exact extendTo_eq_iff (by omega) (by simp; omega) (by simp; omega) (by omega)

/-- The register gets what the load asks for if and only if the answer is exact for it. -/
theorem loadValue_eq_iff (l : Load) : loadValue o l.size l.signed value = some (l.result value) ↔
      LoadExact l.size l.signed l.wide value := by
  unfold Load.result
  cases hsigned : l.signed with
  | false =>
    have hle : 8 * l.size ≤ 64 := by
      have hsize := l.validSize
      unfold ValidSize at hsize
      omega
    exact some_inj.trans (setWidth_setWidth_eq_self_iff hle)
  | true => exact signExtended_eq_loadResult_iff (l.size_of_signed hsigned)

section

variable {handlers : Handlers} {mmio : List MMIOConfig} {il : Bool} {iss : Iss}
  {far hpfar : BitVec 64} {c : GuestContext} {r : Fin 31} {access : MMIOAccess}

/-- What `handle_dabt` does with the answer to a load. -/
theorem handleDabt_load (hload : iss.isWrite = false) (hr : iss.srt = some r)
    (hok : mmioHandleAccess o handlers mmio (dabtAccess iss far hpfar c) = some (.ok access)) :
    handleDabt o handlers mmio il iss far hpfar c =
      (loadValue o iss.size iss.sse access.value).map fun value =>
        archSkipInstruction il { c with usr := update c.usr r value } := by
  unfold handleDabt
  rw [hok, hload, hr]
  rfl

end

/-- Without a valid syndrome a load is taken for one of a byte to `x0`. -/
theorem Iss.fields_of_invalid {iss : Iss} (h : iss.extractLsb' 15 9 = 0) :
    iss.sse = false ∧ iss.srt = some 0 := by
  have hbit (i : ℕ) (hi : i < 9) : iss.getLsbD (15 + i) = false := by
    have := congrArg (getLsbD · i) h
    simpa [hi] using this
  have hsrt : iss.extractLsb' 16 5 = 0 := by
    apply eq_of_getLsbD_eq
    intro i hi
    have := hbit (1 + i) (by omega)
    rw [← Nat.add_assoc] at this
    simp [this]
  refine ⟨hbit 6 (by omega), ?_⟩
  simp [srt, hsrt]

/-- Writing `value` to `x0` is what the load has to do. -/
theorem update_zero_eq_effect_iff {l : Load} {usr : Fin 31 → BitVec 64} :
    update usr 0 value = l.effect value usr ↔
      if l.rt = 0 then value = l.result value else usr 0 = value ∧ usr l.rt = l.result value := by
  unfold Load.effect
  split
  · next h =>
    rw [h]
    exact ⟨fun heq => update_injective usr 0 heq, fun heq => congrArg (update usr 0) heq⟩
  · next h =>
    constructor
    · intro heq
      have h0 := congrFun heq 0
      have hrt := congrFun heq l.rt
      rw [update_self, update_of_ne (Ne.symm h)] at h0
      rw [update_self, update_of_ne h] at hrt
      exact ⟨h0.symm, hrt⟩
    · rintro ⟨h0, hrt⟩
      rw [← hrt, ← h0, update_eq_self, update_eq_self]

/-- **A load from an emulated device returns what the instruction asks for**, and changes no other
register, if and only if `LoadOk`. -/
theorem load_result_iff (o : Overflow) (handlers : Handlers) (mmio : List MMIOConfig) (il : Bool)
    (iss : Iss) (l : Load) (far hpfar : BitVec 64) (c : GuestContext) (access : MMIOAccess)
    (hload : iss.Reports l)
    (hok : mmioHandleAccess o handlers mmio (dabtAccess iss far hpfar c) = some (.ok access)) :
    (∃ c', handleDabt o handlers mmio il iss far hpfar c = some c' ∧
        c'.usr = l.effect access.value c.usr) ↔
      LoadOk iss l access.value c.usr := by
  obtain ⟨hread, hfields⟩ := hload
  unfold LoadOk
  split at hfields
  · next hisv =>
    obtain ⟨hsize, hsse, -, hsrt⟩ := hfields
    rw [if_pos hisv, handleDabt_load hread hsrt hok, hsize, hsse, ← loadValue_eq_iff (o := o) l]
    constructor
    · rintro ⟨c', hc', heff⟩
      obtain ⟨v, hv, rfl⟩ := map_eq_some_iff.mp hc'
      exact hv.trans (congrArg some (update_injective c.usr l.rt heff))
    · intro hv
      rw [hv]
      exact ⟨_, rfl, rfl⟩
  · next hisv =>
    obtain ⟨hsse, hsrt⟩ := Iss.fields_of_invalid hfields
    rw [if_neg hisv, handleDabt_load hread hsrt hok, hsse, ← update_zero_eq_effect_iff]
    constructor
    · rintro ⟨c', hc', heff⟩
      cases hc'
      exact heff
    · intro heff
      exact ⟨_, rfl, heff⟩

/-! ## Loads from a block device -/

/-- A block device: `capacity` is 128, `size_max` and `seg_max` are 512. -/
def sampleBlk : Tool.VirtIODevice ByteMem :=
  Tool.configDevice .block fun a => [128, 0, 0, 0, 0, 0, 0, 0, 0, 2, 0, 0, 0, 2, 0, 0].getD a 0

def sampleHandlers : Handlers :=
  fun _ base access => some (.ok (mmioVirtioHandler sampleBlk base access))

def sampleMmio : List MMIOConfig := [⟨0xa003c00, 0x200, .virtio, 0xa003c00⟩]

/-- Loads to `x1`: an unsigned word, a byte whose sign is extended to 64 bits, and a doubleword. -/
def ldrWord : Load := ⟨2, false, false, 1, nofun⟩

@[inherit_doc ldrWord]
def ldrsByte : Load := ⟨0, true, true, 1, by decide⟩

@[inherit_doc ldrWord]
def ldrDouble : Load := ⟨3, false, true, 1, nofun⟩

/-- The syndrome of a translation fault at level 3 that describes the load. -/
def sampleIss (l : Load) : Iss :=
  1 <<< 24 ||| l.sas.setWidth 25 <<< 22 ||| (if l.signed then 1 <<< 21 else 0) |||
    (BitVec.ofNat 25 l.rt) <<< 16 ||| (if l.wide then 1 <<< 15 else 0) ||| 0b111

/-- The syndrome of the same fault for a load that writes its base register back. -/
def sampleIssInvalid : Iss := 0b111

/-- `FAR_EL2` of a load from the configuration, `HPFAR_EL2` and the guest. -/
def sampleFar (offset : BitVec 64) : BitVec 64 := 0xd00 + offset

def sampleHpfar : BitVec 64 := 0xa0030

def sampleGuest : GuestContext := ⟨fun _ => 0, 0⟩

/-- What the device answers to a load, and the register `x1` afterwards. -/
def sampleLoad (iss : Iss) (offset : BitVec 64) : Option (BitVec 64 × BitVec 64) := do
  match ← mmioHandleAccess .panics sampleHandlers sampleMmio
      (dabtAccess iss (sampleFar offset) sampleHpfar sampleGuest) with
  | .ok access =>
    let c ← handleDabt .panics sampleHandlers sampleMmio true iss (sampleFar offset) sampleHpfar
      sampleGuest
    some (access.value, c.usr 1)
  | .error _ => none

theorem sampleIss_reports {l : Load} (h : l = ldrWord ∨ l = ldrsByte ∨ l = ldrDouble) :
    (sampleIss l).Reports l := by
  obtain rfl | rfl | rfl := h
  all_goals exact ⟨by decide +kernel, by decide +kernel⟩

/-- A guest loads `seg_max`, the last word of the configuration. -/
theorem load_result_seg_max :
    ∃ c', handleDabt .panics sampleHandlers sampleMmio true (sampleIss ldrWord)
        (sampleFar 12) sampleHpfar sampleGuest = some c' ∧ c'.usr 1 = 512 := by
  obtain ⟨c', h, heff⟩ := (load_result_iff .panics sampleHandlers sampleMmio true
    (sampleIss ldrWord) ldrWord (sampleFar 12) sampleHpfar sampleGuest
    (mmioVirtioHandler sampleBlk 0xa003c00 ⟨0x10c, 4, false, 0⟩)
    (sampleIss_reports (.inl rfl)) rfl).mpr (by decide +kernel)
  exact ⟨c', h, (congrFun heff 1).trans (by decide +kernel)⟩

/-- A load of `size_max` gets `seg_max` in the upper half of the register, a signed load of the
first byte of `capacity`, which is -128, gets a positive number, and a load of `capacity` that
writes its base register back leaves its destination alone. -/
theorem load_result_wrong :
    (sampleLoad (sampleIss ldrWord) 8 = some (0x20000000200, 0x20000000200) ∧
      ldrWord.result 0x20000000200 = 0x200) ∧
    (sampleLoad (sampleIss ldrsByte) 0 = some (0x80, 0xffffffff80) ∧
      ldrsByte.result 0x80 = 0xffffffffffffff80) ∧
    (sampleLoad sampleIssInvalid 0 = some (0x80, 0) ∧ ldrDouble.result 0x80 = 0x80) := by
  decide +kernel

end HvisorRux.Trap
