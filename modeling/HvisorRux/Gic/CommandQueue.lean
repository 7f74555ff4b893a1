import HvisorRux.Common.Bytes
import HvisorRux.Common.Transition
import HvisorRux.Tool.Memory

/-!
# The virtual ITS command queue

Every zone has a command ring of 64 KiB in its own memory; the one physical ring belongs to the
hypervisor (`device/irqchip/gicv3/gits.rs`). A write to the zone's CWRITER copies the new commands
to the physical ring, tells the hardware and waits until it has read them. On the way, `analyze_cmd`
enables the LPI that a MAPI or MAPTI command maps.

The copy loop handles the wrap of both rings, but the number of commands is computed as
`writer - origin_readr`, so a guest that wraps its ring makes it underflow, and the value 0 is taken
for the initialisation of the register. The base of the ring is a guest address, but the loop reads
there without the stage 2 translation of the zone.
-/

namespace HvisorRux.Gic

open Common Tool Function List Nat ByteMem

/-- `MAX_ZONE_NUM`. -/
def maxZoneNum : ℕ := 3

/-- `PER_CMD_BYTES`. -/
def perCmdBytes : ℕ := 0x20

/-- The size of a command ring. -/
def ringBytes : ℕ := 0x10000

/-- `ring_ptr_update`. -/
def ringPtrUpdate (val : ℕ) : ℕ := if ringBytes ≤ val then val - ringBytes else val

/-- A command, `[u64; PER_CMD_QWORD]` as its bytes in memory. -/
abbrev Command := List UInt8

/-- The interrupt that `analyze_cmd` enables for a command: the event of MAPI (the lower half of the
second word), the interrupt of MAPTI (its upper half). -/
def Command.lpi (v : Command) : Option ℕ :=
  match fieldNat v 0 1 with
  | 0x0b => some (fieldNat v 8 4)
  | 0x0a => some (fieldNat v 12 4)
  | _ => none

/-- `analyze_cmd`: the byte of the LPI property table at `lpt` is set. `none` is the overflow of the
subtraction. -/
def analyzeCmd (lpt : ℕ) (mem : ByteMem) (v : Command) : Option ByteMem :=
  match v.lpi with
  | none => some mem
  | some id => if 8192 ≤ id then some (mem.write (lpt + (id - 8192)) [1]) else none

/-- The copy loop of `insert_cmd`, with the ring offsets it has used as history. -/
structure Copy where
  mem : ByteMem
  vmCmdqAddr : ℕ
  realCmdqAddr : ℕ
  offsets : List ℕ

/-- One iteration: the four words are written one after the other. -/
def copyStep (lpt zoneAddr phyAddr : ℕ) (c : Copy) : Option Copy :=
  let v := c.mem.read c.vmCmdqAddr perCmdBytes
  (analyzeCmd lpt c.mem v).map fun mem =>
    { mem := mem.write c.realCmdqAddr v
      vmCmdqAddr := ringPtrUpdate (c.vmCmdqAddr + perCmdBytes - zoneAddr) + zoneAddr
      realCmdqAddr := ringPtrUpdate (c.realCmdqAddr + perCmdBytes - phyAddr) + phyAddr
      offsets := c.offsets ++ [c.vmCmdqAddr - zoneAddr, c.realCmdqAddr - phyAddr] }

/-- `for _cmd_id in 0..cmd_num`. -/
def copyLoop (lpt zoneAddr phyAddr : ℕ) : ℕ → Copy → Option Copy
  | 0, c => some c
  | cmdNum + 1, c => (copyStep lpt zoneAddr phyAddr c).bind (copyLoop lpt zoneAddr phyAddr cmdNum)

/-- The commands of the ring at `base` from offset `readr` up to `writer`, in ring order. -/
def ringCommands (mem : ByteMem) (base readr writer : ℕ) : List Command :=
  (List.range ((writer + ringBytes - readr) % ringBytes / perCmdBytes)).map fun i =>
    mem.read (base + (readr + perCmdBytes * i) % ringBytes) perCmdBytes

/-- The memory, the stage 2 translation of each zone, `CMDQ` (with `phy_base_list` and so on as
functions of the zone id), the property table and the hardware's CREADR. The last three fields are
history: the commands the guests submitted, those the hardware executed, and the ring offsets
used. -/
structure Its where
  mem : ByteMem
  stage2 : ℕ → ℕ → Option ℕ
  lpt : ℕ
  phyAddr : ℕ
  readr : ℕ
  writer : ℕ
  phyBaseList : ℕ → ℕ
  cbaserList : ℕ → ℕ
  creadrList : ℕ → ℕ
  cwriterList : ℕ → ℕ
  hwCreadr : ℕ
  panicked : Bool
  submitted : List Command
  executed : List Command
  offsets : List ℕ

/-- `insert_cmd`, called with a valid zone id. The hardware executes what is between its CREADR and
the CWRITER that it is given before it is polled successfully; `none` is a panic. -/
def insertCmd (s : Its) (zoneId writer : ℕ) : Option Its :=
  let zoneAddr := s.phyBaseList zoneId
  let originReadr := s.creadrList zoneId
  if writer < originReadr then none
  else
    let cmdSize := writer - originReadr
    (copyLoop s.lpt zoneAddr s.phyAddr (cmdSize / perCmdBytes)
      ⟨s.mem, zoneAddr + originReadr, s.phyAddr + s.readr, s.offsets⟩).map fun c =>
        let newWriter := ringPtrUpdate (s.writer + cmdSize)
        { s with
          mem := c.mem
          writer := newWriter
          hwCreadr := newWriter
          readr := newWriter
          creadrList := update s.creadrList zoneId writer
          executed := s.executed ++ ringCommands c.mem s.phyAddr s.hwCreadr newWriter
          offsets := c.offsets }

/-- The hypervisor stops. -/
def Its.panic (s : Its) : Its := { s with panicked := true }

/-- `set_cwriter`. -/
def setCwriter (s : Its) (zoneId value : ℕ) : Its :=
  if zoneId < maxZoneNum then
    match if value = 0 then some s else insertCmd s zoneId value with
    | none => s.panic
    | some s' => { s' with cwriterList := update s'.cwriterList zoneId value }
  else s.panic

/-- `set_cbaser`. -/
def setCbaser (s : Its) (zoneId value : ℕ) : Its :=
  if zoneId < maxZoneNum then
    { s with
      cbaserList := update s.cbaserList zoneId value
      phyBaseList := update s.phyBaseList zoneId (value &&& 0xffffffffff000) }
  else s.panic

/-- A zone writes one of the two registers, or memory other than the physical ring changes. -/
inductive ItsEvent
  | cbaser (zoneId value : ℕ)
  | cwriter (zoneId value : ℕ)
  | memory (mem : ByteMem)

/-- The memory as the zone sees it; there is nothing where the translation faults. -/
def Its.guestMem (s : Its) (zoneId : ℕ) : ByteMem := fun a => (s.stage2 zoneId a).elim 0 s.mem

/-- The commands that the zone submits with a CWRITER value: those of its ring from CREADR on. -/
def Its.newCommands (s : Its) (zoneId value : ℕ) : List Command :=
  ringCommands (s.guestMem zoneId) (s.phyBaseList zoneId) (s.creadrList zoneId) value

/-- One step. -/
def itsStep (s : Its) : ItsEvent → Option Its
  | .cbaser zoneId value => if s.panicked then none else some (setCbaser s zoneId value)
  | .cwriter zoneId value =>
    if s.panicked then none
    else
      some { setCwriter s zoneId value with
        submitted := s.submitted ++ s.newCommands zoneId value }
  | .memory mem =>
    some { s with
      mem := fun a => if s.phyAddr ≤ a ∧ a < s.phyAddr + ringBytes then s.mem a else mem a }

/-- `CMDQ` after `Cmdq::new`, with the frames of the physical ring and of the property table at any
addresses. -/
structure Its.Initial (s : Its) : Prop where
  readr : s.readr = 0
  writer : s.writer = 0
  creadr : ∀ z, s.creadrList z = 0
  cwriter : ∀ z, s.cwriterList z = 0
  hwCreadr : s.hwCreadr = 0
  running : s.panicked = false
  submitted : s.submitted = []
  executed : s.executed = []
  offsets : s.offsets = []

/-- A value that a guest may write to CWRITER. -/
def ValidWriter (value : ℕ) : Prop := value < ringBytes ∧ perCmdBytes ∣ value

/-- The hardware has executed what the zones submitted, in order and once; all positions are inside
their rings and every CREADR is the CWRITER last written. -/
structure Forwarded (s : Its) : Prop where
  running : s.panicked = false
  executed : s.executed = s.submitted
  creadr : ∀ z, s.creadrList z = s.cwriterList z
  writer_lt : s.writer < ringBytes
  readr_lt : s.readr < ringBytes
  offsets_lt : ∀ o ∈ s.offsets, o < ringBytes

/-- The rings at two addresses do not overlap. -/
def Apart (base base' : ℕ) : Prop := base + ringBytes ≤ base' ∨ base' + ringBytes ≤ base

/-- The write to the property table at address `a` misses the ring at `base`. -/
def Misses (base a : ℕ) : Prop := a < base ∨ base + ringBytes ≤ a

/-- A CWRITER write that is handled: the zone has a slot in the lists and its own ring, the value is
not below CREADR, the new commands are at their guest addresses, and every LPI that is mapped has a
number from 8192 on whose property is stored outside the two rings. -/
structure Forwardable (s : Its) (zoneId value : ℕ) : Prop where
  zone_lt : zoneId < maxZoneNum
  le : s.creadrList zoneId ≤ value
  apart : Apart (s.phyBaseList zoneId) s.phyAddr
  identity : ∀ a, s.phyBaseList zoneId + s.creadrList zoneId ≤ a →
    a < s.phyBaseList zoneId + value → s.stage2 zoneId a = some a
  lpis : ∀ v ∈ s.newCommands zoneId value, ∀ id,
    v.lpi = some id → 8192 ≤ id ∧ Misses s.phyAddr (s.lpt + (id - 8192)) ∧
      Misses (s.phyBaseList zoneId) (s.lpt + (id - 8192))

/-- The guests write valid values, and every write is handled. -/
def HandledStep (s : Its) : ItsEvent → Prop
  | .cbaser zoneId _ => zoneId < maxZoneNum
  | .cwriter zoneId value => ValidWriter value ∧ Forwardable s zoneId value
  | .memory _ => True

/-! ## The copy loop -/

theorem ringPtrUpdate_eq {val : ℕ} (h : val < 2 * ringBytes) :
    ringPtrUpdate val = val % ringBytes := by
  unfold ringPtrUpdate
  split
  · next hle => rw [mod_eq_sub_mod hle, mod_eq_of_lt (by omega)]
  · next hlt => rw [mod_eq_of_lt (by omega)]

theorem ringCommands_of_le (mem : ByteMem) (base : ℕ) {readr writer : ℕ} (hle : readr ≤ writer)
    (hlt : writer < ringBytes) :
    ringCommands mem base readr writer = (List.range ((writer - readr) / perCmdBytes)).map fun i =>
        mem.read (base + (readr + perCmdBytes * i)) perCmdBytes := by
  have hdist : (writer + ringBytes - readr) % ringBytes = writer - readr := by
    rw [show writer + ringBytes - readr = writer - readr + ringBytes by omega, add_mod_right]
    exact mod_eq_of_lt (by omega)
  rw [ringCommands, hdist]
  refine map_congr_left fun i hi => ?_
  have hmul := div_mul_le_self (writer - readr) perCmdBytes
  have hi' := Nat.mul_lt_mul_of_pos_left (mem_range.mp hi) (show 0 < perCmdBytes by decide)
  rw [mod_eq_of_lt (by rw [mul_comm] at hmul; omega)]

section Loop

variable {mem₀ : ByteMem} {lpt base phy readr creadr n i : ℕ} {c : Copy} {used : List ℕ}

/-- The loop has copied `i` commands. -/
structure Copied (mem₀ : ByteMem) (base phy readr creadr : ℕ) (i : ℕ) (c : Copy) : Prop where
  vm : c.vmCmdqAddr = base + (creadr + perCmdBytes * i)
  real : c.realCmdqAddr = phy + (readr + perCmdBytes * i) % ringBytes
  guest : ∀ a, base ≤ a → a < base + ringBytes → c.mem a = mem₀ a
  copied : ∀ j < i, c.mem.read (phy + (readr + perCmdBytes * j) % ringBytes) perCmdBytes =
    mem₀.read (base + (creadr + perCmdBytes * j)) perCmdBytes
  offsets : ∀ o ∈ c.offsets, o < ringBytes

/-- Two positions of one round occupy disjoint slots. -/
theorem slots_disjoint (readr : ℕ) {j : ℕ} (hj : j < i) (hi : perCmdBytes * i < ringBytes) :
    (readr + perCmdBytes * j) % ringBytes + perCmdBytes ≤ (readr + perCmdBytes * i) % ringBytes ∨
      (readr + perCmdBytes * i) % ringBytes + perCmdBytes ≤
        (readr + perCmdBytes * j) % ringBytes := by
  simp only [perCmdBytes, ringBytes] at *
  omega

/-- A command of the ring, and the slot it goes to, are inside their rings. -/
theorem slot_bounds (hreadr : perCmdBytes ∣ readr) :
    (readr + perCmdBytes * i) % ringBytes + perCmdBytes ≤ ringBytes := by
  simp only [perCmdBytes, ringBytes] at *
  omega

/-- `analyze_cmd` leaves both rings alone. -/
theorem analyzeCmd_spec (mem : ByteMem) {v : Command}
    (hlpi : ∀ id, v.lpi = some id → 8192 ≤ id ∧ Misses phy (lpt + (id - 8192)) ∧
      Misses base (lpt + (id - 8192))) :
    ∃ mem', analyzeCmd lpt mem v = some mem' ∧
      (∀ a, phy ≤ a → a < phy + ringBytes → mem' a = mem a) ∧
      ∀ a, base ≤ a → a < base + ringBytes → mem' a = mem a := by
  unfold analyzeCmd
  cases hv : v.lpi with
  | none => exact ⟨mem, rfl, fun _ _ _ => rfl, fun _ _ _ => rfl⟩
  | some id =>
    obtain ⟨hid, hphy, hbase⟩ := hlpi id hv
    refine ⟨_, if_pos hid, ?_, ?_⟩
    · intro a hle hlt
      refine write_of_outside ?_
      rcases hphy with hphy | hphy
      · exact .inr (by simp only [length_singleton]; omega)
      · exact .inl (by omega)
    · intro a hle hlt
      refine write_of_outside ?_
      rcases hbase with hbase | hbase
      · exact .inr (by simp only [length_singleton]; omega)
      · exact .inl (by omega)

/-- One iteration copies one more command. -/
theorem Copied.step (h : Copied mem₀ base phy readr creadr i c) (hapart : Apart base phy)
    (hreadr : perCmdBytes ∣ readr) (hi : creadr + perCmdBytes * (i + 1) < ringBytes)
    (hlpi : ∀ id,
      Command.lpi (mem₀.read (base + (creadr + perCmdBytes * i)) perCmdBytes) = some id →
      8192 ≤ id ∧ Misses phy (lpt + (id - 8192)) ∧ Misses base (lpt + (id - 8192))) :
    ∃ c', copyStep lpt base phy c = some c' ∧ Copied mem₀ base phy readr creadr (i + 1) c' := by
  have hmul : perCmdBytes * (i + 1) = perCmdBytes * i + perCmdBytes := mul_succ ..
  have hpos : 0 < perCmdBytes := by decide
  have hv : c.mem.read c.vmCmdqAddr perCmdBytes =
      mem₀.read (base + (creadr + perCmdBytes * i)) perCmdBytes := by
    rw [h.vm]
    exact read_congr fun a hle hlt => h.guest a (by omega) (by omega)
  obtain ⟨mem', hanalyze, hphy, hbase⟩ := analyzeCmd_spec c.mem hlpi
  have hslot := slot_bounds (i := i) hreadr
  have hlen : (mem₀.read (base + (creadr + perCmdBytes * i)) perCmdBytes).length = perCmdBytes :=
    length_read
  refine ⟨_, by rw [copyStep, hv, hanalyze]; rfl, ?_, ?_, ?_, ?_, ?_⟩
  · show ringPtrUpdate (c.vmCmdqAddr + perCmdBytes - base) + base = _
    rw [h.vm, show base + (creadr + perCmdBytes * i) + perCmdBytes - base =
      creadr + perCmdBytes * (i + 1) by omega, ringPtrUpdate_eq (by omega), mod_eq_of_lt hi]
    omega
  · show ringPtrUpdate (c.realCmdqAddr + perCmdBytes - phy) + phy = _
    rw [h.real, show phy + (readr + perCmdBytes * i) % ringBytes + perCmdBytes - phy =
      (readr + perCmdBytes * i) % ringBytes + perCmdBytes by omega, ringPtrUpdate_eq (by omega),
      mod_add_mod, hmul, add_assoc, add_comm]
  · intro a hle hlt
    show mem'.write c.realCmdqAddr _ a = _
    rw [write_of_outside, hbase a hle hlt, h.guest a hle hlt]
    rw [h.real]
    rcases hapart with hap | hap <;> omega
  · intro j hj
    rcases Nat.lt_succ_iff_lt_or_eq.mp hj with hlt | rfl
    · have hdisj := slots_disjoint readr hlt (show perCmdBytes * i < ringBytes by omega)
      have hslotj := slot_bounds (i := j) hreadr
      rw [read_write_of_disjoint (by rw [h.real]; omega), ← h.copied j hlt]
      exact read_congr fun a hle hlt => hphy a (by omega) (by omega)
    · rw [← h.real]
      have hsame := read_write_same mem' c.realCmdqAddr
        (mem₀.read (base + (creadr + perCmdBytes * j)) perCmdBytes)
      rwa [hlen] at hsame
  · intro o ho
    rcases mem_append.mp ho with ho | ho
    · exact h.offsets o ho
    · rw [h.vm, h.real] at ho
      simp only [mem_cons, not_mem_nil, or_false] at ho
      omega

/-- The whole loop. -/
theorem Copied.loop (lpt : ℕ) (hapart : Apart base phy) (hreadr : perCmdBytes ∣ readr)
    (hn : creadr + perCmdBytes * n < ringBytes)
    (hlpi : ∀ i < n, ∀ id,
      Command.lpi (mem₀.read (base + (creadr + perCmdBytes * i)) perCmdBytes) = some id →
      8192 ≤ id ∧ Misses phy (lpt + (id - 8192)) ∧ Misses base (lpt + (id - 8192)))
    (k : ℕ) (hk : i + k = n) (h : Copied mem₀ base phy readr creadr i c) :
    ∃ c', copyLoop lpt base phy k c = some c' ∧ Copied mem₀ base phy readr creadr n c' := by
  induction k generalizing i c with
  | zero => exact ⟨c, rfl, by rwa [← hk, add_zero]⟩
  | succ k ih =>
    have hbound : perCmdBytes * (i + 1) ≤ perCmdBytes * n := mul_le_mul_left _ (by omega)
    obtain ⟨c₁, hstep, hc₁⟩ := h.step hapart hreadr (by omega) (hlpi i (by omega))
    obtain ⟨c₂, hloop, hc₂⟩ := ih (by omega) hc₁
    exact ⟨c₂, by rw [copyLoop, hstep]; exact hloop, hc₂⟩

end Loop

/-! ## Whole runs -/

/-- All positions are valid, and between calls the physical ring is empty. -/
structure ItsInv (s : Its) : Prop where
  forwarded : Forwarded s
  readr_eq : s.readr = s.writer
  hw_eq : s.hwCreadr = s.writer
  writer_dvd : perCmdBytes ∣ s.writer
  creadr_valid : ∀ z, ValidWriter (s.creadrList z)

section Runs

variable {s s' : Its} {zoneId value : ℕ}

theorem ItsInv.initial (h : s.Initial) : ItsInv s where
  forwarded := by
    refine ⟨h.running, ?_, fun z => ?_, ?_, ?_, ?_⟩
    · rw [h.executed, h.submitted]
    · rw [h.creadr, h.cwriter]
    · rw [h.writer]; decide
    · rw [h.readr]; decide
    · simp [h.offsets]
  readr_eq := by rw [h.readr, h.writer]
  hw_eq := by rw [h.hwCreadr, h.writer]
  writer_dvd := by rw [h.writer]; exact dvd_zero _
  creadr_valid := fun z => by rw [h.creadr]; exact ⟨by decide, dvd_zero _⟩

/-- The loop reads the commands that the zone submits. -/
theorem Forwardable.newCommands_eq (hf : Forwardable s zoneId value) (hvalid : ValidWriter value) :
    s.newCommands zoneId value = (List.range ((value - s.creadrList zoneId) / perCmdBytes)).map
      fun i => s.mem.read (s.phyBaseList zoneId + (s.creadrList zoneId + perCmdBytes * i))
        perCmdBytes := by
  rw [Its.newCommands, ringCommands_of_le _ _ hf.le hvalid.1]
  refine map_congr_left fun i hi => read_congr fun a hle hlt => ?_
  have hmul := mul_div_le (value - s.creadrList zoneId) perCmdBytes
  have hi' := mul_le_mul_left perCmdBytes (mem_range.mp hi)
  rw [mul_succ] at hi'
  have hwriter := hf.le
  rw [Its.guestMem, hf.identity a (by omega) (by omega), Option.elim_some]

/-- `insert_cmd` forwards the commands between CREADR and the new CWRITER. -/
theorem ItsInv.insertCmd (h : ItsInv s) (hvalid : ValidWriter value)
    (hf : Forwardable s zoneId value) :
    ∃ c, Copied s.mem (s.phyBaseList zoneId) s.phyAddr s.readr (s.creadrList zoneId)
        ((value - s.creadrList zoneId) / perCmdBytes) c ∧
      insertCmd s zoneId value = some { s with
        mem := c.mem
        writer := (s.writer + (value - s.creadrList zoneId)) % ringBytes
        hwCreadr := (s.writer + (value - s.creadrList zoneId)) % ringBytes
        readr := (s.writer + (value - s.creadrList zoneId)) % ringBytes
        creadrList := update s.creadrList zoneId value
        executed := s.executed ++ s.newCommands zoneId value
        offsets := c.offsets } := by
  obtain ⟨-, hcdvd⟩ := h.creadr_valid zoneId
  have hwriter := h.forwarded.writer_lt
  have hreadr := h.readr_eq
  have hcommands := hf.newCommands_eq hvalid
  obtain ⟨n, rfl⟩ := Nat.exists_eq_add_of_le hf.le
  rw [Nat.add_sub_cancel_left] at hcommands ⊢
  have hlt := hvalid.1
  have hsize : perCmdBytes * (n / perCmdBytes) = n :=
    Nat.mul_div_cancel' ((Nat.dvd_add_right hcdvd).mp hvalid.2)
  have hstart : Copied s.mem (s.phyBaseList zoneId) s.phyAddr s.readr (s.creadrList zoneId) 0
      ⟨s.mem, s.phyBaseList zoneId + s.creadrList zoneId, s.phyAddr + s.readr, s.offsets⟩ := by
    refine ⟨rfl, ?_, fun _ _ _ => rfl, fun j hj => absurd hj (not_lt_zero j),
      h.forwarded.offsets_lt⟩
    rw [mul_zero, add_zero, mod_eq_of_lt h.forwarded.readr_lt]
  obtain ⟨c, hloop, hc⟩ := Copied.loop s.lpt hf.apart (hreadr ▸ h.writer_dvd)
    (n := n / perCmdBytes) (by omega)
    (fun i hi => hf.lpis _ (by rw [hcommands]; exact List.mem_map_of_mem (mem_range.mpr hi)))
    _ (zero_add _) hstart
  refine ⟨c, hc, ?_⟩
  -- the hardware finds in the physical ring what was copied there
  have hfetch : ringCommands c.mem s.phyAddr s.hwCreadr ((s.writer + n) % ringBytes) =
      s.newCommands zoneId (s.creadrList zoneId + n) := by
    have hdist : ((s.writer + n) % ringBytes + ringBytes - s.writer) % ringBytes = n := by
      simp only [ringBytes] at *
      omega
    rw [ringCommands, h.hw_eq, hdist, hcommands]
    refine map_congr_left fun j hj => ?_
    have hj' := hc.copied j (mem_range.mp hj)
    rwa [hreadr] at hj'
  have hupdate : ringPtrUpdate (s.writer + n) = (s.writer + n) % ringBytes :=
    ringPtrUpdate_eq (by omega)
  simp only [Gic.insertCmd, Nat.add_sub_cancel_left]
  rw [if_neg (by omega), hloop, Option.map_some, hupdate, hfetch]

/-- A write of 0 on an empty ring: nothing is submitted, and nothing is done. -/
theorem ItsInv.cwriter_zero (h : ItsInv s) (hf : Forwardable s zoneId 0) :
    ItsInv { setCwriter s zoneId 0 with
      submitted := s.submitted ++ s.newCommands zoneId 0 } := by
  have hfwd := h.forwarded
  have hcreadr : s.creadrList zoneId = 0 := le_zero.mp hf.le
  have hnone : s.newCommands zoneId 0 = [] := by
    rw [Its.newCommands, hcreadr]
    rfl
  have hset : setCwriter s zoneId 0 = { s with cwriterList := update s.cwriterList zoneId 0 } := by
    rw [setCwriter, if_pos hf.zone_lt, if_pos rfl]
  rw [hset, hnone, append_nil]
  refine ⟨⟨hfwd.running, hfwd.executed, ?_, hfwd.writer_lt, hfwd.readr_lt, hfwd.offsets_lt⟩,
    h.readr_eq, h.hw_eq, h.writer_dvd, h.creadr_valid⟩
  intro z
  rw [← funext hfwd.creadr, ← hcreadr, update_eq_self]

/-- A handled CWRITER write keeps the invariant. -/
theorem ItsInv.cwriter (h : ItsInv s) (hvalid : ValidWriter value)
    (hf : Forwardable s zoneId value) :
    ItsInv { setCwriter s zoneId value with
      submitted := s.submitted ++ s.newCommands zoneId value } := by
  have hfwd := h.forwarded
  have hlists : ∀ z, update s.creadrList zoneId value z = update s.cwriterList zoneId value z := by
    intro z
    rw [funext hfwd.creadr]
  by_cases h0 : value = 0
  · subst h0
    exact h.cwriter_zero hf
  obtain ⟨c, hc, hinsert⟩ := h.insertCmd hvalid hf
  have hlt : (s.writer + (value - s.creadrList zoneId)) % ringBytes < ringBytes :=
    mod_lt _ (by decide)
  rw [setCwriter, if_pos hf.zone_lt, if_neg h0, hinsert]
  refine ⟨⟨hfwd.running, ?_, hlists, hlt, hlt, hc.offsets⟩, rfl, rfl, ?_, ?_⟩
  · exact congrArg (· ++ _) hfwd.executed
  · refine (Nat.dvd_mod_iff (by decide)).mpr (Nat.dvd_add h.writer_dvd ?_)
    exact Nat.dvd_sub hvalid.2 (h.creadr_valid zoneId).2
  · exact (forall_update_iff s.creadrList fun _ => ValidWriter).mpr
      ⟨hvalid, fun z _ => h.creadr_valid z⟩

theorem ItsInv.step (h : ItsInv s) {e : ItsEvent} (hok : HandledStep s e)
    (hs : itsStep s e = some s') : ItsInv s' := by
  have hfwd := h.forwarded
  cases e with
  | cbaser z v =>
    have hz : z < maxZoneNum := hok
    rw [itsStep, hfwd.running, if_neg (by simp), setCbaser, if_pos hz] at hs
    cases hs
    exact { h with forwarded := { hfwd with } }
  | cwriter z v =>
    rw [itsStep, hfwd.running, if_neg (by simp)] at hs
    cases hs
    exact h.cwriter hok.1 hok.2
  | memory mem =>
    cases hs
    exact { h with forwarded := { hfwd with } }

end Runs

/-- Zone 1 sets up its ring at `base` and writes the given values to CWRITER. -/
def writes (base : ℕ) (values : List ℕ) : List ItsEvent :=
  .cbaser 1 base :: values.map (.cwriter 1)

end HvisorRux.Gic
