import HvisorRux.Common.Transition
import Mathlib.Data.Finset.Card
import Mathlib.Data.Prod.Lex

/-!
# Injection of virtual interrupts

`inject_irq` (`device/irqchip/gicv3/mod.rs`) puts a virtual interrupt into a free list register,
from which the guest acknowledges and later deactivates it. If all list registers are in use the
interrupt waits in a queue of the cpu, and the maintenance interrupt is enabled, whose handler
injects what is in the queue as soon as at most one list register is left in use.

An interrupt that is in a list register already is not injected again. That is right while the guest
has still to acknowledge it; if it is active the new instance is lost.
-/

namespace HvisorRux.Gic

open Common Function List Option Prod

/-! ## List registers -/

/-- An interrupt number, as `ICC_IAR1_EL1` returns it. -/
abbrev IntId := BitVec 24

/-- `ICH_LR<n>_EL2`. -/
abbrev ListReg := BitVec 64

namespace ListReg

section

variable (v : ListReg)

def pending : Bool := v.getLsbD 62

def active : Bool := v.getLsbD 63

/-- The virtual interrupt is a physical one, which the guest deactivates with it. -/
def hw : Bool := v.getLsbD 61

/-- A maintenance interrupt is asked for when the guest deactivates the interrupt (without `hw`). -/
def eoi : Bool := v.getLsbD 41

/-- The register holds an interrupt. -/
def valid : Bool := v.pending || v.active

/-- Its bit in `ICH_ELRSR_EL2`. -/
def empty : Bool := !v.valid && (v.hw || !v.eoi)

end

/-- `LR_VIRTIRQ_MASK`: `(1 << 32) - 1`. -/
def virtirqMask : BitVec 64 := (BitVec.allOnes 32).setWidth 64

/-- `(lr_val & LR_VIRTIRQ_MASK) == irq_id`. -/
def holds (v : ListReg) (irqId : IntId) : Bool := v &&& virtirqMask == irqId.setWidth 64

/-- The guest reads the interrupt's number from `ICC_IAR1_EL1`. -/
def acknowledge (v : ListReg) : ListReg := (v &&& ~~~(.twoPow 64 62)) ||| .twoPow 64 63

/-- The guest writes it to `ICC_DIR_EL1`. -/
def deactivate (v : ListReg) : ListReg := v &&& ~~~(.twoPow 64 63)

/-- The value `inject_irq` writes: group 1, pending and, for a physical interrupt that is not an
SGI, `hw` with the physical number. -/
def inject (irqId : IntId) (isHardware : Bool) : ListReg :=
  let val := irqId.setWidth 64 ||| .twoPow 64 60 ||| .twoPow 64 62
  if !decide (irqId < 16) && isHardware then
    val ||| .twoPow 64 61 ||| irqId.setWidth 64 <<< 32
  else val

variable {i : ℕ}

theorem getLsbD_virtirqMask (hi : i < 64) : virtirqMask.getLsbD i = decide (i < 32) := by
  rw [virtirqMask, BitVec.getLsbD_setWidth, BitVec.getLsbD_allOnes, decide_eq_true hi,
    Bool.true_and]

variable {v : ListReg}

theorem holds_iff {irqId : IntId} :
    v.holds irqId = true ↔ ∀ i < 32, v.getLsbD i = irqId.getLsbD i := by
  have hbits : ∀ i < 64, (v &&& virtirqMask).getLsbD i = (irqId.setWidth 64).getLsbD i ↔
      (v.getLsbD i && decide (i < 32)) = irqId.getLsbD i := by
    intro i hi
    rw [BitVec.getLsbD_and, getLsbD_virtirqMask hi, BitVec.getLsbD_setWidth, decide_eq_true hi,
      Bool.true_and]
  rw [holds, beq_iff_eq]
  constructor
  · intro h i hi
    simpa [hi] using (hbits i (by omega)).mp (congrArg (BitVec.getLsbD · i) h)
  · intro h
    refine BitVec.eq_of_getLsbD_eq fun i hi => (hbits i hi).mpr ?_
    by_cases hlow : i < 32
    · simpa [hlow] using h i hlow
    · simp [hlow, BitVec.getLsbD_of_ge irqId i (by omega)]

/-- Only the number of the interrupt matters. -/
theorem holds_congr {v' : ListReg} (h : ∀ i < 32, v'.getLsbD i = v.getLsbD i) (irqId : IntId) :
    v'.holds irqId = v.holds irqId := by
  rw [Bool.eq_iff_iff, holds_iff, holds_iff]
  exact forall₂_congr fun i hi => by rw [h i hi]

theorem holds_inj {irqId irqId' : IntId} (h : v.holds irqId = true)
    (h' : v.holds irqId' = true) : irqId = irqId' := by
  refine BitVec.eq_of_getLsbD_eq fun i hi => ?_
  rw [← holds_iff.mp h i (by omega), holds_iff.mp h' i (by omega)]

/-! ## What the two sides do to a list register -/

variable (v : ListReg)

@[simp] theorem acknowledge_pending : v.acknowledge.pending = false := by
  simp [pending, acknowledge]

@[simp] theorem acknowledge_hw : v.acknowledge.hw = v.hw := by
  simp [hw, acknowledge]

@[simp] theorem acknowledge_eoi : v.acknowledge.eoi = v.eoi := by
  simp [eoi, acknowledge]

@[simp] theorem holds_acknowledge (irqId : IntId) : v.acknowledge.holds irqId = v.holds irqId := by
  refine holds_congr (fun i hi => ?_) irqId
  simp only [acknowledge, BitVec.getLsbD_or, BitVec.getLsbD_and, BitVec.getLsbD_not,
    BitVec.getLsbD_twoPow]
  simp [show i < 64 by omega, show 62 ≠ i by omega, show 63 ≠ i by omega]

@[simp] theorem deactivate_pending : v.deactivate.pending = v.pending := by
  simp [pending, deactivate]

@[simp] theorem deactivate_active : v.deactivate.active = false := by
  simp [active, deactivate]

@[simp] theorem deactivate_hw : v.deactivate.hw = v.hw := by
  simp [hw, deactivate]

@[simp] theorem deactivate_eoi : v.deactivate.eoi = v.eoi := by
  simp [eoi, deactivate]

@[simp] theorem holds_deactivate (irqId : IntId) : v.deactivate.holds irqId = v.holds irqId := by
  refine holds_congr (fun i hi => ?_) irqId
  simp only [deactivate, BitVec.getLsbD_and, BitVec.getLsbD_not, BitVec.getLsbD_twoPow]
  simp [show i < 64 by omega, show 63 ≠ i by omega]

section

variable (irqId : IntId) (isHardware : Bool)

include irqId isHardware

theorem getLsbD_inject (hi : i < 64) :
    (inject irqId isHardware).getLsbD i = (irqId.getLsbD i || decide (i = 60) || decide (i = 62) ||
        (!decide (irqId < 16) && isHardware &&
          (decide (i = 61) || (decide (32 ≤ i) && irqId.getLsbD (i - 32))))) := by
  rw [inject]
  cases !decide (irqId < 16) && isHardware with
  | false =>
    simp [hi]
  | true =>
    by_cases hle : 32 ≤ i
    · simp [hi, hle, show ¬i < 32 by omega, @eq_comm ℕ i, Bool.or_assoc]
    · simp [hi, hle, show i < 32 by omega, @eq_comm ℕ i]

theorem inject_pending : (inject irqId isHardware).pending = true := by
  rw [pending, getLsbD_inject irqId isHardware (by decide)]
  simp

theorem holds_inject : (inject irqId isHardware).holds irqId = true := by
  refine holds_iff.mpr fun i hi => ?_
  rw [getLsbD_inject irqId isHardware (by omega)]
  simp [show ¬32 ≤ i by omega, show i ≠ 60 by omega, show i ≠ 61 by omega, show i ≠ 62 by omega]

/-- A register that `inject_irq` has written is empty when it is not valid. -/
theorem inject_hw_or_not_eoi :
    ((inject irqId isHardware).hw || !(inject irqId isHardware).eoi) = true := by
  rw [hw, eoi, getLsbD_inject irqId isHardware (by decide),
    getLsbD_inject irqId isHardware (by decide), BitVec.getLsbD_of_ge irqId 41 (by decide)]
  cases !decide (irqId < 16) && isHardware <;> simp

end

end ListReg

open ListReg

/-! ## Injection -/

/-- The virtual cpu interface of one cpu with its queue of `PENDING_VIRQS`. `owed` is history: the
interrupts injected since the guest last took them. -/
structure VirtIf where
  vtr : BitVec 64
  lr : ℕ → ListReg
  hcr : BitVec 64
  pendingVirqs : List (IntId × Bool)
  owed : IntId → Bool

/-- The number of list registers, from `ICH_VTR_EL2`. -/
def VirtIf.lrNum (s : VirtIf) : ℕ := (s.vtr &&& 0xf).toNat + 1

/-- `ICH_HCR_UIE`. -/
def ichHcrUie : BitVec 64 := .twoPow 64 1

/-- `enable_maintenace_interrupt`. -/
def enableMaintenaceInterrupt (s : VirtIf) (isEnable : Bool) : VirtIf :=
  { s with hcr := if isEnable then s.hcr ||| ichHcrUie else s.hcr &&& ~~~ichHcrUie }

/-- `add_irq`. -/
def addIrq (s : VirtIf) (irqId : IntId) (isHardware : Bool) : VirtIf :=
  { s with pendingVirqs := s.pendingVirqs ++ [(irqId, isHardware)] }

/-- How the loop of `inject_irq` over the list registers ends: with a register that holds the
interrupt, or with the first free one, if there is one. -/
inductive Search
  | held
  | free (i : ℕ)
  | full
deriving DecidableEq

/-- The loop of `inject_irq` over the list registers `is`, with `free_ir`. -/
def search (lr : ℕ → ListReg) (irqId : IntId) : List ℕ → Option ℕ → Search
  | [], none => .full
  | [], some i => .free i
  | i :: is, freeIr =>
    if (lr i).empty then search lr irqId is (some (freeIr.getD i))
    else if (lr i).holds irqId then .held
    else search lr irqId is freeIr

/-- `inject_irq`, with the returned flag. -/
def injectIrq (s : VirtIf) (irqId : IntId) (isHardware : Bool) : VirtIf × Bool :=
  match search s.lr irqId (List.range s.lrNum) none with
  | .held => (s, true)
  | .full => (enableMaintenaceInterrupt (addIrq s irqId isHardware) true, false)
  | .free i => ({ s with lr := update s.lr i (.inject irqId isHardware) }, true)

/-- The loop of `handle_maintenace_interrupt`, with what is in the queue. An interrupt that is not
injected has been put back by `inject_irq`, and is put back once more. -/
def maintenaceLoop : List (IntId × Bool) → VirtIf → VirtIf
  | [], s => enableMaintenaceInterrupt { s with pendingVirqs := [] } false
  | (irqId, isHardware) :: rest, s =>
    match injectIrq { s with pendingVirqs := rest } irqId isHardware with
    | (s', true) => maintenaceLoop rest s'
    | (s', false) => enableMaintenaceInterrupt (addIrq s' irqId isHardware) true

/-- `handle_maintenace_interrupt`. -/
def handleMaintenaceInterrupt (s : VirtIf) : VirtIf := maintenaceLoop s.pendingVirqs s

/-- The underflow maintenance interrupt is asserted: it is enabled and at most one list register is
valid. -/
def VirtIf.underflow (s : VirtIf) : Bool :=
  s.hcr &&& ichHcrUie != 0 && (List.range s.lrNum).countP (fun i => (s.lr i).valid) ≤ 1

/-- An interrupt is injected, the guest acknowledges or deactivates the interrupt of a list
register, or the maintenance interrupt is taken. -/
inductive VirtIfEvent
  | inject (irqId : IntId) (isHardware : Bool)
  | acknowledge (i : ℕ)
  | deactivate (i : ℕ)
  | maintenance

def virtIfStep (s : VirtIf) : VirtIfEvent → Option VirtIf
  | .inject irqId isHardware =>
    some { (injectIrq s irqId isHardware).1 with owed := update s.owed irqId true }
  | .acknowledge i =>
    if i < s.lrNum ∧ (s.lr i).pending then
      some { s with
        lr := update s.lr i (s.lr i).acknowledge
        owed := fun irqId => if (s.lr i).holds irqId then false else s.owed irqId }
    else none
  | .deactivate i =>
    if i < s.lrNum ∧ (s.lr i).active then
      some { s with lr := update s.lr i (s.lr i).deactivate }
    else none
  | .maintenance => if s.underflow then some (handleMaintenaceInterrupt s) else none

/-- The interface after `gicc_init`: cleared list registers and an empty queue. -/
def virtIfInit (vtr : BitVec 64) : VirtIf where
  vtr
  lr := fun _ => 0
  hcr := 1
  pendingVirqs := []
  owed := fun _ => false

/-- The guest can take the interrupt now: it is pending in a list register. -/
def VirtIf.Offers (s : VirtIf) (irqId : IntId) : Prop :=
  ∃ i < s.lrNum, (s.lr i).pending = true ∧ (s.lr i).holds irqId = true

/-- The guest has acknowledged the interrupt and not yet deactivated it. -/
def VirtIf.Active (s : VirtIf) (irqId : IntId) : Prop :=
  ∃ i < s.lrNum, (s.lr i).active = true ∧ (s.lr i).holds irqId = true

/-- The side condition: `irqId` is not injected while it is active. -/
def NotWhileActive (irqId : IntId) (s : VirtIf) : VirtIfEvent → Prop
  | .inject irqId' _ => irqId' = irqId → ¬s.Active irqId
  | _ => True

instance (s : VirtIf) (irqId : IntId) : Decidable (s.Active irqId) :=
  inferInstanceAs (Decidable (∃ i, i < s.lrNum ∧ _))

instance (irqId : IntId) (s : VirtIf) (e : VirtIfEvent) : Decidable (NotWhileActive irqId s e) := by
  cases e <;> unfold NotWhileActive <;> infer_instance

/-- The side condition of the guest's own steps: nothing is injected. -/
def GuestOnly (_ : VirtIf) : VirtIfEvent → Prop
  | .inject _ _ => False
  | _ => True

/-! ## What one injection does -/

/-- No list register in use holds the interrupt. -/
def VirtIf.Absent (s : VirtIf) (irqId : IntId) : Prop :=
  ∀ i < s.lrNum, (s.lr i).valid = true → (s.lr i).holds irqId = false

/-- A list register that is not valid is empty. -/
def VirtIf.Reusable (s : VirtIf) : Prop :=
  ∀ i < s.lrNum, ((s.lr i).hw || !(s.lr i).eoi) = true

section Inject

variable {s : VirtIf} {irqId irqId' : IntId} {isHardware : Bool}

theorem VirtIf.Reusable.empty_eq (h : s.Reusable) (hi : i < s.lrNum) :
    (s.lr i).empty = !(s.lr i).valid := by
  rw [empty, h i hi, Bool.and_true]

theorem search_eq (lr : ℕ → ListReg) (irqId : IntId) (is : List ℕ) (freeIr : Option ℕ) :
    search lr irqId is freeIr = if is.any fun i => !(lr i).empty && (lr i).holds irqId then .held
      else (freeIr.or (is.find? fun i => (lr i).empty)).elim .full .free := by
  induction is generalizing freeIr with
  | nil => cases freeIr <;> rfl
  | cons k is ih =>
    rw [search, any_cons, find?_cons]
    cases (lr k).empty with
    | true => cases freeIr <;> simp [ih]
    | false => cases (lr k).holds irqId <;> simp [ih]

theorem search_spec (lr : ℕ → ListReg) (irqId : IntId) (is : List ℕ) :
    match search lr irqId is none with
    | .held => ∃ i ∈ is, (lr i).empty = false ∧ (lr i).holds irqId = true
    | .free i => (i ∈ is ∧ (lr i).empty = true) ∧
        ∀ j ∈ is, (lr j).empty = false → (lr j).holds irqId = false
    | .full => ∀ j ∈ is, (lr j).empty = false ∧ (lr j).holds irqId = false := by
  rw [search_eq, none_or]
  split_ifs with hheld
  · simpa using hheld
  have hother : ∀ j ∈ is, (lr j).empty = false → (lr j).holds irqId = false := by
    simpa using hheld
  cases hfind : is.find? fun i => (lr i).empty with
  | some i =>
    have hfree : (lr i).empty = true := by simpa using find?_some hfind
    exact ⟨⟨mem_of_find?_eq_some hfind, hfree⟩, hother⟩
  | none =>
    have hused : ∀ j ∈ is, (lr j).empty = false := by simpa using hfind
    exact fun j hj => ⟨hused j hj, hother j hj (hused j hj)⟩

/-- The three outcomes of `inject_irq`. -/
inductive Injected (s : VirtIf) (irqId : IntId) (isHardware : Bool) : VirtIf × Bool → Prop
  | held {i : ℕ} (hi : i < s.lrNum) (hvalid : (s.lr i).valid = true)
      (hheld : (s.lr i).holds irqId = true) : Injected s irqId isHardware (s, true)
  | written {i : ℕ} (hi : i < s.lrNum) (hfree : (s.lr i).valid = false) (habsent : s.Absent irqId) :
      Injected s irqId isHardware ({ s with lr := update s.lr i (.inject irqId isHardware) }, true)
  | queued (hfull : ∀ i < s.lrNum, (s.lr i).valid = true) (habsent : s.Absent irqId) :
      Injected s irqId isHardware
        (enableMaintenaceInterrupt (addIrq s irqId isHardware) true, false)

theorem injectIrq_spec (h : s.Reusable) (irqId : IntId) (isHardware : Bool) :
    Injected s irqId isHardware (injectIrq s irqId isHardware) := by
  have hspec := search_spec s.lr irqId (List.range s.lrNum)
  have hvalid : ∀ i < s.lrNum, ((s.lr i).empty = false ↔ (s.lr i).valid = true) := by
    intro i hi
    rw [h.empty_eq hi, Bool.not_eq_false']
  rw [injectIrq]
  generalize search s.lr irqId (List.range s.lrNum) none = r at hspec ⊢
  cases r with
  | held =>
    obtain ⟨i, hi, hused, hheld⟩ := hspec
    have hi := mem_range.mp hi
    exact .held hi ((hvalid i hi).mp hused) hheld
  | free i =>
    obtain ⟨⟨hi, hfree⟩, hother⟩ := hspec
    have hi := mem_range.mp hi
    refine .written hi ?_ fun j hj hused => ?_
    · rwa [h.empty_eq hi, Bool.not_eq_true'] at hfree
    · exact hother j (mem_range.mpr hj) ((hvalid j hj).mpr hused)
  | full =>
    refine .queued (fun i hi => ?_) fun i hi _ => (hspec i (mem_range.mpr hi)).2
    exact (hvalid i hi).mp (hspec i (mem_range.mpr hi)).1

/-- Injection leaves the list registers in use alone. -/
theorem injectIrq_lr (h : s.Reusable) (irqId : IntId) (isHardware : Bool)
    (hvalid : (s.lr i).valid = true) :
    (injectIrq s irqId isHardware).1.lr i = s.lr i := by
  have hspec := injectIrq_spec h irqId isHardware
  generalize injectIrq s irqId isHardware = r at hspec ⊢
  cases hspec with
  | held | queued => rfl
  | written _ hfree _ =>
    refine update_of_ne ?_ ..
    rintro rfl
    rw [hvalid] at hfree
    cases hfree

@[simp] theorem injectIrq_vtr : (injectIrq s irqId isHardware).1.vtr = s.vtr := by
  rw [injectIrq]
  split <;> rfl

@[simp] theorem injectIrq_lrNum : (injectIrq s irqId isHardware).1.lrNum = s.lrNum := by
  rw [VirtIf.lrNum, injectIrq_vtr, VirtIf.lrNum]

theorem injectIrq_reusable (h : s.Reusable) (irqId : IntId) (isHardware : Bool) :
    (injectIrq s irqId isHardware).1.Reusable := by
  intro j hj
  rw [injectIrq_lrNum] at hj
  have hspec := injectIrq_spec h irqId isHardware
  generalize injectIrq s irqId isHardware = r at hspec ⊢
  cases hspec with
  | held | queued => exact h j hj
  | @written i _ _ _ =>
    by_cases hji : j = i
    · subst hji
      simpa using inject_hw_or_not_eoi irqId isHardware
    · simpa [hji] using h j hj

/-- An offered interrupt stays offered. -/
theorem injectIrq_offers (h : s.Reusable) (irqId : IntId) (isHardware : Bool)
    (hoffer : s.Offers irqId') : (injectIrq s irqId isHardware).1.Offers irqId' := by
  obtain ⟨i, hi, hpending, hheld⟩ := hoffer
  have hlr := injectIrq_lr h irqId isHardware
    (show (s.lr i).valid = true by rw [valid, hpending, Bool.true_or])
  exact ⟨i, by rwa [injectIrq_lrNum], by rwa [hlr], by rwa [hlr]⟩

end Inject

/-! ## The invariant -/

/-- The interrupt waits in the queue of the cpu. -/
def VirtIf.Queued (s : VirtIf) (irqId : IntId) : Prop := irqId ∈ s.pendingVirqs.map fst

/-- The interrupt is on its way to the guest: offered, or in the queue with no older instance in a
list register. -/
def VirtIf.Coming (s : VirtIf) (irqId : IntId) : Prop :=
  s.Offers irqId ∨ s.Queued irqId ∧ s.Absent irqId

/-- An interrupt that is owed is coming, and the maintenance interrupt is enabled while the queue is
not empty. -/
structure VirtIfInv (irqId : IntId) (s : VirtIf) : Prop where
  reusable : s.Reusable
  enabled : s.pendingVirqs = [] ∨ s.hcr &&& ichHcrUie ≠ 0
  coming : s.owed irqId = true → s.Coming irqId

section Invariant

variable {s s' : VirtIf} {irqId irqId' : IntId} {isHardware : Bool} {rest : List (IntId × Bool)}

theorem VirtIfInv.init (vtr : BitVec 64) (irqId : IntId) : VirtIfInv irqId (virtIfInit vtr) where
  reusable := fun _ _ => by simp [virtIfInit, hw, eoi]
  enabled := .inl rfl
  coming := fun h => by cases h

/-- Taking an interrupt from the head of the queue and injecting it. -/
theorem injectIrq_coming (h : s.Reusable)
    (hcoming : { s with pendingVirqs := (irqId', isHardware) :: rest }.Coming irqId) :
    (injectIrq { s with pendingVirqs := rest } irqId' isHardware).1.Coming irqId := by
  rcases hcoming with hoffer | ⟨hqueued, habsent⟩
  · exact .inl (injectIrq_offers (s := { s with pendingVirqs := rest }) h irqId' isHardware hoffer)
  have hspec := injectIrq_spec (s := { s with pendingVirqs := rest }) h irqId' isHardware
  generalize injectIrq { s with pendingVirqs := rest } irqId' isHardware = r at hspec ⊢
  cases hspec with
  | @held i hi hvalid hheld =>
    have hne : irqId ≠ irqId' := by
      rintro rfl
      rw [habsent i hi hvalid] at hheld
      cases hheld
    exact .inr ⟨(mem_cons.mp hqueued).resolve_left hne, habsent⟩
  | @written i hi hfree _ =>
    by_cases hirq : irqId = irqId'
    · subst hirq
      exact .inl ⟨i, hi, by simp [inject_pending], by simp [holds_inject]⟩
    refine .inr ⟨(mem_cons.mp hqueued).resolve_left hirq, fun j hj hvalid => ?_⟩
    by_cases hji : j = i
    · subst hji
      rw [Bool.eq_false_iff]
      simp only [update_self]
      exact fun hheld => hirq (holds_inj hheld (holds_inject irqId' _))
    · simp only [update_of_ne hji] at hvalid ⊢
      exact habsent j hj hvalid
  | queued =>
    refine .inr ⟨?_, habsent⟩
    rcases mem_cons.mp hqueued with rfl | hmem
    · simp [VirtIf.Queued, enableMaintenaceInterrupt, addIrq]
    · simp only [VirtIf.Queued, enableMaintenaceInterrupt, addIrq, map_append, mem_append]
      exact .inl hmem

theorem enableMaintenaceInterrupt_enabled (s : VirtIf) :
    (enableMaintenaceInterrupt s true).hcr &&& ichHcrUie ≠ 0 := by
  intro h
  have hbit := congrArg (BitVec.getLsbD · 1) h
  simp [enableMaintenaceInterrupt, ichHcrUie] at hbit

section

variable (h : VirtIfInv irqId s)

include h

/-- Everything but the queue and the list registers is left alone, and the queue grows only together
with the enable bit. -/
theorem VirtIfInv.inject (hok : NotWhileActive irqId s (.inject irqId' isHardware)) :
    VirtIfInv irqId { (injectIrq s irqId' isHardware).1 with
      owed := update s.owed irqId' true } := by
  refine ⟨injectIrq_reusable h.reusable irqId' isHardware, ?_, fun howed => ?_⟩
  · rw [injectIrq]
    split
    · exact h.enabled
    · exact .inr (enableMaintenaceInterrupt_enabled _)
    · exact h.enabled
  · -- the injection takes the interrupt from a queue that it has just been put in front of
    have hcoming : { s with pendingVirqs := (irqId', isHardware) :: s.pendingVirqs }.Coming
        irqId := by
      by_cases hirq : irqId' = irqId
      · subst hirq
        by_cases habsent : s.Absent irqId'
        · exact .inr ⟨mem_cons_self, habsent⟩
        simp only [VirtIf.Absent, not_forall, Bool.not_eq_false] at habsent
        obtain ⟨i, hi, hvalid, hheld⟩ := habsent
        have hactive : (s.lr i).active = false :=
          Bool.eq_false_iff.mpr fun hactive => hok rfl ⟨i, hi, hactive, hheld⟩
        rw [valid, hactive, Bool.or_false] at hvalid
        exact .inl ⟨i, hi, hvalid, hheld⟩
      · have hs : s.owed irqId = true := by
          simpa [update_of_ne (Ne.symm hirq)] using howed
        exact (h.coming hs).imp_right fun hq => ⟨mem_cons_of_mem _ hq.1, hq.2⟩
    exact injectIrq_coming h.reusable hcoming

/-- A list register is changed without an effect on what it holds, and it is not one that offers the
interrupt. -/
theorem VirtIfInv.setLr {owed : IntId → Bool} (hreuse : v.hw = (s.lr i).hw ∧ v.eoi = (s.lr i).eoi)
    (hused : v.valid = true → (s.lr i).valid = true ∧ v.holds irqId = (s.lr i).holds irqId)
    (howed : owed irqId = true → s.owed irqId = true ∧
      ((s.lr i).pending = true → (s.lr i).holds irqId = true → v.pending = true ∧
        v.holds irqId = true)) :
    VirtIfInv irqId { s with lr := update s.lr i v, owed } := by
  refine ⟨fun j hj => ?_, h.enabled, fun hw => ?_⟩
  · by_cases hji : j = i
    · subst hji
      simpa [hreuse.1, hreuse.2] using h.reusable j hj
    · simpa [hji] using h.reusable j hj
  · obtain ⟨hs, hkept⟩ := howed hw
    rcases h.coming hs with ⟨j, hj, hpending, hheld⟩ | ⟨hqueued, habsent⟩
    · refine .inl ⟨j, hj, ?_⟩
      by_cases hji : j = i
      · subst hji
        simpa using hkept hpending hheld
      · simpa [hji] using ⟨hpending, hheld⟩
    · refine .inr ⟨hqueued, fun j hj hvalid => ?_⟩
      by_cases hji : j = i
      · subst hji
        simp only [update_self] at hvalid ⊢
        rw [(hused hvalid).2]
        exact habsent j hj (hused hvalid).1
      · simp only [update_of_ne hji] at hvalid ⊢
        exact habsent j hj hvalid

theorem VirtIfInv.acknowledge (hpending : (s.lr i).pending = true) :
    VirtIfInv irqId { s with
      lr := update s.lr i (s.lr i).acknowledge
      owed := fun irqId => if (s.lr i).holds irqId then false else s.owed irqId } := by
  refine h.setLr ⟨by simp, by simp⟩ (fun _ => ⟨by simp [valid, hpending], by simp⟩) ?_
  intro howed
  split at howed
  · cases howed
  · next hother => exact ⟨howed, fun _ hheld => absurd hheld hother⟩

theorem VirtIfInv.deactivate (hactive : (s.lr i).active = true) :
    VirtIfInv irqId { s with lr := update s.lr i (s.lr i).deactivate } :=
  h.setLr ⟨by simp, by simp⟩ (fun _ => ⟨by simp [valid, hactive], by simp⟩)
    fun howed => ⟨howed, fun hpending hheld => ⟨by simpa using hpending, by simpa using hheld⟩⟩

end

/-- An injected interrupt leaves the queue as it was. -/
theorem injectIrq_pendingVirqs (s : VirtIf) (irqId : IntId) (isHardware : Bool)
    (h : (injectIrq s irqId isHardware).2 = true) :
    (injectIrq s irqId isHardware).1.pendingVirqs = s.pendingVirqs := by
  rw [injectIrq] at h ⊢
  split at h
  case h_2 => cases h
  all_goals rfl

/-- The maintenance handler keeps the registers reusable, the interrupt coming and the enable bit in
step with the queue. -/
theorem VirtIfInv.maintenaceLoop (q : List (IntId × Bool)) (h : s.Reusable)
    (hcoming : s.owed irqId = true → { s with pendingVirqs := q }.Coming irqId) :
    VirtIfInv irqId (maintenaceLoop q s) := by
  induction q generalizing s with
  | nil => exact ⟨h, .inl rfl, hcoming⟩
  | cons x q ih =>
    have hreuse := injectIrq_reusable (s := { s with pendingVirqs := q }) h x.1 x.2
    have hqueue := injectIrq_pendingVirqs { s with pendingVirqs := q } x.1 x.2
    have hnext := fun howed => injectIrq_coming h (hcoming howed)
    have howed : (injectIrq { s with pendingVirqs := q } x.1 x.2).1.owed = s.owed := by
      rw [injectIrq]
      split <;> rfl
    rw [Gic.maintenaceLoop]
    rcases hr : injectIrq { s with pendingVirqs := q } x.1 x.2 with ⟨s', _ | _⟩
    · rw [hr] at hreuse hnext howed
      refine ⟨hreuse, .inr (enableMaintenaceInterrupt_enabled _), fun hs' => ?_⟩
      refine (hnext (howed ▸ hs')).imp_right fun hq => ⟨?_, hq.2⟩
      simp only [VirtIf.Queued, enableMaintenaceInterrupt, addIrq, map_append, mem_append]
      exact .inl hq.1
    · rw [hr] at hreuse hqueue hnext howed
      have hq : s'.pendingVirqs = q := hqueue rfl
      refine ih hreuse fun hs => ?_
      rw [← hq]
      exact hnext (howed ▸ hs)

theorem VirtIfInv.step (h : VirtIfInv irqId s) {e : VirtIfEvent} (hok : NotWhileActive irqId s e)
    (hs : virtIfStep s e = some s') : VirtIfInv irqId s' := by
  cases e with
  | inject irqId' isHardware =>
    cases hs
    exact h.inject hok
  | acknowledge i =>
    obtain ⟨⟨-, hpending⟩, hs⟩ := ite_none_right_eq_some.mp hs
    cases hs
    exact h.acknowledge hpending
  | deactivate i =>
    obtain ⟨⟨-, hactive⟩, hs⟩ := ite_none_right_eq_some.mp hs
    cases hs
    exact h.deactivate hactive
  | maintenance =>
    obtain ⟨-, rfl⟩ := ite_some_none_eq_some.mp hs
    exact .maintenaceLoop s.pendingVirqs h.reusable h.coming

end Invariant

/-! ## The maintenance handler -/

/-- `n` list registers take in the interrupts of a list, in its order: each is merged with the same
interrupt in a register in use, or written to an empty register. -/
inductive Placed (n : ℕ) : (ℕ → ListReg) → List (IntId × Bool) → (ℕ → ListReg) → Prop
  | nil {lr} : Placed n lr [] lr
  | merged {lr lr' i x xs} (hi : i < n) (hused : (lr i).empty = false)
      (hheld : (lr i).holds x.1 = true) (hrest : Placed n lr xs lr') : Placed n lr (x :: xs) lr'
  | written {lr lr' i x xs} (hi : i < n) (hfree : (lr i).empty = true)
      (hrest : Placed n (update lr i (.inject x.1 x.2)) xs lr') : Placed n lr (x :: xs) lr'

section Maintenance

variable {n : ℕ} {lr lr' : ℕ → ListReg} {xs : List (IntId × Bool)} {x : IntId × Bool}

theorem ListReg.inject_used (irqId : IntId) (isHardware : Bool) :
    (inject irqId isHardware).empty = false := by
  rw [empty, valid, inject_pending, Bool.true_or, Bool.not_true, Bool.false_and]

/-- A register in use is left alone. -/
theorem Placed.used (h : Placed n lr xs lr') (hused : (lr i).empty = false) : lr' i = lr i := by
  induction h with
  | nil => rfl
  | merged _ _ _ _ ih => exact ih hused
  | @written _ _ j _ _ _ hfree _ ih =>
    have hij : i ≠ j := by
      rintro rfl
      rw [hused] at hfree
      cases hfree
    rw [ih (by rwa [update_of_ne hij]), update_of_ne hij]

theorem Placed.held (h : Placed n lr xs lr') (hx : x ∈ xs) :
    ∃ i < n, (lr' i).empty = false ∧ (lr' i).holds x.1 = true := by
  induction h with
  | nil => cases hx
  | merged hi hused hheld hrest ih =>
    rcases mem_cons.mp hx with rfl | hx
    · exact ⟨_, hi, by rw [hrest.used hused]; exact ⟨hused, hheld⟩⟩
    · exact ih hx
  | @written _ _ i y _ hi _ hrest ih =>
    rcases mem_cons.mp hx with rfl | hx
    · have hnew := hrest.used (i := i) (by rw [update_self, inject_used])
      rw [update_self] at hnew
      exact ⟨i, hi, by rw [hnew, inject_used], by rw [hnew, holds_inject]⟩
    · exact ih hx

/-- What is placed is still to be acknowledged. -/
theorem Placed.fresh (h : Placed n lr xs lr')
    (hfresh : ∀ i < n, (lr i).empty = false → (lr i).pending = true) (hi : i < n)
    (hused : (lr' i).empty = false) : (lr' i).pending = true := by
  induction h with
  | nil => exact hfresh i hi hused
  | merged _ _ _ _ ih => exact ih hfresh hused
  | @written _ _ j x _ _ _ _ ih =>
    refine ih (fun k hk hused => ?_) hused
    by_cases hkj : k = j
    · rw [hkj, update_self, inject_pending]
    · rw [update_of_ne hkj] at hused ⊢
      exact hfresh k hk hused

theorem maintenaceLoop_lrNum (q : List (IntId × Bool)) (s : VirtIf) :
    (maintenaceLoop q s).lrNum = s.lrNum := by
  induction q generalizing s with
  | nil => rfl
  | cons x q ih =>
    have hnum : (injectIrq { s with pendingVirqs := q } x.1 x.2).1.lrNum = s.lrNum :=
      injectIrq_lrNum
    rw [maintenaceLoop]
    split
    · next heq => rw [ih, ← hnum, heq]
    · next heq => rw [← hnum, heq]; rfl

/-- The loop places interrupts up to the first that finds no register, which goes behind the others
twice. -/
theorem maintenaceLoop_placed (q : List (IntId × Bool)) (s : VirtIf) :
    ∃ front left, q = front ++ left ∧ Placed s.lrNum s.lr front (maintenaceLoop q s).lr ∧
      (left = [] ∧ (maintenaceLoop q s).pendingVirqs = [] ∧
          (maintenaceLoop q s).hcr &&& ichHcrUie = 0 ∨
        ∃ x rest, left = x :: rest ∧ (maintenaceLoop q s).pendingVirqs = rest ++ [x, x] ∧
          (maintenaceLoop q s).hcr &&& ichHcrUie ≠ 0 ∧
          ∀ i < s.lrNum, ((maintenaceLoop q s).lr i).empty = false ∧
            ((maintenaceLoop q s).lr i).holds x.1 = false) := by
  induction q generalizing s with
  | nil =>
    refine ⟨[], [], rfl, .nil, .inl ⟨rfl, rfl, ?_⟩⟩
    simp [maintenaceLoop, enableMaintenaceInterrupt, BitVec.and_assoc]
  | cons x q ih =>
    have hspec := search_spec s.lr x.1 (List.range s.lrNum)
    simp only [maintenaceLoop, injectIrq]
    rw [show VirtIf.lrNum { s with pendingVirqs := q } = s.lrNum from rfl]
    generalize search s.lr x.1 (List.range s.lrNum) none = r at hspec ⊢
    cases r with
    | held =>
      obtain ⟨i, hi, hused, hheld⟩ := hspec
      obtain ⟨front, left, hq, hplaced, hleft⟩ := ih { s with pendingVirqs := q }
      exact ⟨x :: front, left, by rw [hq, cons_append],
        .merged (mem_range.mp hi) hused hheld hplaced, hleft⟩
    | free i =>
      obtain ⟨⟨hi, hfree⟩, -⟩ := hspec
      obtain ⟨front, left, hq, hplaced, hleft⟩ := ih
        { s with pendingVirqs := q, lr := update s.lr i (.inject x.1 x.2) }
      exact ⟨x :: front, left, by rw [hq, cons_append],
        .written (mem_range.mp hi) hfree hplaced, hleft⟩
    | full =>
      refine ⟨[], x :: q, rfl, .nil, .inr ⟨x, q, rfl, ?_, ?_, fun i hi => ?_⟩⟩
      · simp [enableMaintenaceInterrupt, addIrq]
      · exact enableMaintenaceInterrupt_enabled _
      · exact hspec i (mem_range.mpr hi)

end Maintenance

/-! ## Progress -/

/-- The two interfaces agree on everything that the guest does not change. -/
structure VirtIf.SameQueue (s' s : VirtIf) : Prop where
  vtr : s'.vtr = s.vtr
  hcr : s'.hcr = s.hcr
  pendingVirqs : s'.pendingVirqs = s.pendingVirqs

/-- No list register is in use. -/
def VirtIf.Idle (s : VirtIf) : Prop := ∀ i < s.lrNum, (s.lr i).valid = false

/-- Every interrupt in a list register is still to be acknowledged. -/
def VirtIf.Fresh (s : VirtIf) : Prop :=
  ∀ i < s.lrNum, (s.lr i).valid = true → (s.lr i).pending = true

section Progress

variable {s s' : VirtIf} {irqId irqId' : IntId} {isHardware : Bool}

theorem VirtIf.SameQueue.refl (s : VirtIf) : s.SameQueue s := ⟨rfl, rfl, rfl⟩

theorem VirtIf.SameQueue.trans {s₁ s₂ s₃ : VirtIf} (h : s₃.SameQueue s₂) (h' : s₂.SameQueue s₁) :
    s₃.SameQueue s₁ :=
  ⟨h.vtr.trans h'.vtr, h.hcr.trans h'.hcr, h.pendingVirqs.trans h'.pendingVirqs⟩

theorem VirtIf.SameQueue.lrNum (h : s'.SameQueue s) : s'.lrNum = s.lrNum := by
  rw [VirtIf.lrNum, h.vtr, VirtIf.lrNum]

/-- The guest has finished with the interrupt of list register `i`, if there was one. -/
structure Released (s s' : VirtIf) (i : ℕ) : Prop where
  reach : Reach virtIfStep GuestOnly s s'
  same : s'.SameQueue s
  free : (s'.lr i).valid = false
  others : ∀ j ≠ i, s'.lr j = s.lr j

theorem release_acknowledged (s : VirtIf) (hi : i < s.lrNum)
    (hpending : (s.lr i).pending = false) : ∃ s', Released s s' i := by
  by_cases hactive : (s.lr i).active = true
  · refine ⟨_, .tail (e := .deactivate i) .refl trivial (if_pos ⟨hi, hactive⟩), ⟨rfl, rfl, rfl⟩,
      ?_, fun j hj => ?_⟩
    · simp [valid, hpending]
    · exact update_of_ne hj ..
  · refine ⟨s, .refl, .refl s, ?_, fun _ _ => rfl⟩
    rw [valid, hpending, Bool.eq_false_iff.mpr hactive, Bool.or_false]

theorem release (s : VirtIf) (hi : i < s.lrNum) : ∃ s', Released s s' i := by
  by_cases hpending : (s.lr i).pending = true
  · obtain ⟨s', h⟩ := release_acknowledged { s with
        lr := update s.lr i (s.lr i).acknowledge
        owed := fun irqId => if (s.lr i).holds irqId then false else s.owed irqId } hi (by simp)
    refine ⟨s', .trans (.tail (e := .acknowledge i) .refl trivial (if_pos ⟨hi, hpending⟩)) h.reach,
      h.same.trans ⟨rfl, rfl, rfl⟩, h.free, fun j hj => ?_⟩
    rw [h.others j hj]
    exact update_of_ne hj ..
  · exact release_acknowledged s hi (Bool.eq_false_iff.mpr hpending)

/-- The guest can finish with every interrupt it has been given. -/
theorem release_all (s : VirtIf) :
    ∃ s', Reach virtIfStep GuestOnly s s' ∧ s'.SameQueue s ∧ s'.Idle := by
  have hfirst : ∀ k ≤ s.lrNum, ∃ s', Reach virtIfStep GuestOnly s s' ∧ s'.SameQueue s ∧
      ∀ i < k, (s'.lr i).valid = false := by
    intro k
    induction k with
    | zero => exact fun _ => ⟨s, .refl, .refl s, by simp⟩
    | succ k ih =>
      intro hk
      obtain ⟨s₁, hreach₁, hsame₁, hfree₁⟩ := ih (by omega)
      obtain ⟨s₂, h₂⟩ := release s₁ (i := k) (by rw [hsame₁.lrNum]; omega)
      refine ⟨s₂, hreach₁.trans h₂.reach, h₂.same.trans hsame₁, fun i hi => ?_⟩
      by_cases hik : i = k
      · exact hik ▸ h₂.free
      · rw [h₂.others i hik]
        exact hfree₁ i (by omega)
  obtain ⟨s', hreach, hsame, hfree⟩ := hfirst s.lrNum le_rfl
  exact ⟨s', hreach, hsame, fun i hi => hfree i (by rwa [hsame.lrNum] at hi)⟩

/-- How far an interrupt is from the head of the queue: the other interrupts in the queue, and among
them those in front of its first instance. -/
def queueRank (irqId : IntId) (q : List (IntId × Bool)) : ℕ ×ₗ ℕ :=
  toLex (q.countP fun x => x.1 ≠ irqId, (q.map fst).idxOf irqId)

/-- A queue from which others have been injected ranks lower, also when the interrupt itself is the
one that has been put back: then there are fewer others. -/
theorem queueRank_lt {injected rest : List (IntId × Bool)} {x : IntId × Bool}
    (hinjected : injected ≠ []) (hothers : irqId ∉ injected.map fst)
    (hqueued : irqId ∈ (x :: rest).map fst) :
    queueRank irqId (rest ++ [x, x]) < queueRank irqId (injected ++ x :: rest) := by
  have hpos := length_pos_of_ne_nil hinjected
  have hcount : injected.countP (fun x => x.1 ≠ irqId) = injected.length := by
    refine countP_eq_length.mpr fun y hy => ?_
    have hne : y.1 ≠ irqId := fun heq => hothers (heq ▸ List.mem_map_of_mem hy)
    simpa using hne
  rw [queueRank, queueRank, Prod.Lex.toLex_lt_toLex, countP_append, countP_append, hcount]
  by_cases hx : x.1 = irqId
  · left
    simp only [ne_eq, hx, not_true, decide_false, Bool.false_eq_true, not_false_eq_true,
      countP_cons_of_neg, countP_nil]
    omega
  have hmem : irqId ∈ rest.map fst := (mem_cons.mp hqueued).resolve_left (Ne.symm hx)
  have hidx : ((rest ++ [x, x]).map fst).idxOf irqId = (rest.map fst).idxOf irqId := by
    rw [map_append, idxOf_append_of_mem hmem]
  have hidx' : ((injected ++ x :: rest).map fst).idxOf irqId =
      (rest.map fst).idxOf irqId + 1 + injected.length := by
    rw [map_append, idxOf_append_of_notMem hothers, map_cons, idxOf_cons_ne _ hx, length_map]
    omega
  have htwo : [x, x].countP (fun x => x.1 ≠ irqId) = 2 := by simp [hx]
  have hone : (x :: rest).countP (fun x => x.1 ≠ irqId) =
      rest.countP (fun x => x.1 ≠ irqId) + 1 := by simp [hx]
  rcases Nat.lt_or_ge 1 injected.length with hlt | hle
  · left
    omega
  · right
    constructor <;> omega

theorem VirtIfInv.guest (h : VirtIfInv irqId s) (hreach : Reach virtIfStep GuestOnly s s') :
    VirtIfInv irqId s' := by
  refine hreach.invariant (VirtIfInv irqId) h fun _ e _ h hok hs => h.step ?_ hs
  cases e with
  | inject => exact hok.elim
  | acknowledge | deactivate | maintenance => trivial

/-- The guest finishes with what it has been given, and the maintenance interrupt brings the queued
interrupt to a list register or closer to the head of the queue. -/
theorem VirtIfInv.round (h : VirtIfInv irqId s) (hqueued : s.Queued irqId) :
    ∃ s', Reach virtIfStep GuestOnly s s' ∧ (s'.Offers irqId ∨ s'.Queued irqId ∧
      queueRank irqId s'.pendingVirqs < queueRank irqId s.pendingVirqs) := by
  obtain ⟨s₁, hreach, hsame, hidle⟩ := release_all s
  have hinv := h.guest hreach
  have hne : s.pendingVirqs ≠ [] := by
    intro hnil
    rw [VirtIf.Queued, hnil] at hqueued
    cases hqueued
  have hunder : s₁.underflow = true := by
    have hzero : (List.range s₁.lrNum).countP (fun i => (s₁.lr i).valid) = 0 := by
      refine countP_eq_zero.mpr fun i hi => ?_
      rw [hidle i (mem_range.mp hi)]
      exact Bool.false_ne_true
    have huie := hinv.enabled.resolve_left (hsame.pendingVirqs ▸ hne)
    rw [VirtIf.underflow, hzero, Bool.and_eq_true, bne_iff_ne]
    exact ⟨huie, rfl⟩
  have hfresh : s₁.Fresh := fun i hi hvalid => by
    rw [hidle i hi] at hvalid
    cases hvalid
  have hvalid : ∀ i < s₁.lrNum, (s₁.lr i).empty = false → (s₁.lr i).valid = true := by
    intro i hi hused
    rwa [hinv.reusable.empty_eq hi, Bool.not_eq_false'] at hused
  obtain ⟨injected, left, hq, hplaced, hleft⟩ := maintenaceLoop_placed s₁.pendingVirqs s₁
  refine ⟨_, .tail (e := .maintenance) hreach trivial (if_pos hunder), ?_⟩
  rw [VirtIf.Queued, ← hsame.pendingVirqs, hq] at hqueued
  by_cases hmem : irqId ∈ injected.map fst
  · obtain ⟨x, hx, rfl⟩ := List.mem_map.mp hmem
    obtain ⟨i, hi, hused, hheld⟩ := hplaced.held hx
    have hnew := hplaced.fresh (fun j hj hj' => hfresh j hj (hvalid j hj hj')) hi hused
    exact .inl ⟨i, (maintenaceLoop_lrNum ..).symm ▸ hi, hnew, hheld⟩
  rw [map_append, mem_append] at hqueued
  have hqueued := hqueued.resolve_left hmem
  rcases hleft with ⟨rfl, -⟩ | ⟨x, rest, rfl, hback, -, hfull⟩
  · cases hqueued
  have hsome : injected ≠ [] := by
    rintro rfl
    generalize (Gic.maintenaceLoop s₁.pendingVirqs s₁).lr = lr' at hplaced hfull
    cases hplaced
    have hzero := hvalid 0 (Nat.succ_pos _) (hfull 0 (Nat.succ_pos _)).1
    rw [hidle 0 (Nat.succ_pos _)] at hzero
    cases hzero
  right
  rw [← hsame.pendingVirqs, VirtIf.Queued, handleMaintenaceInterrupt, hback]
  refine ⟨?_, ?_⟩
  · rcases mem_cons.mp hqueued with rfl | hmem
    · simp
    · simp only [map_append, mem_append]
      exact .inl hmem
  · rw [hq]
    exact queueRank_lt hsome hmem hqueued

theorem VirtIfInv.offered (h : VirtIfInv irqId s) (hcoming : s.Coming irqId) :
    ∃ s', Reach virtIfStep GuestOnly s s' ∧ s'.Offers irqId := by
  rcases hcoming with hoffer | ⟨hqueued, -⟩
  · exact ⟨s, .refl, hoffer⟩
  -- induction on the rank that every round lowers
  induction hr : queueRank irqId s.pendingVirqs using WellFoundedLT.induction generalizing s with
  | _ r ih =>
    obtain ⟨s₁, hreach₁, hoffer | ⟨hqueued₁, hlt⟩⟩ := h.round hqueued
    · exact ⟨s₁, hreach₁, hoffer⟩
    · obtain ⟨s₂, hreach₂, hoffer⟩ := ih _ (hr ▸ hlt) (h.guest hreach₁) hqueued₁ rfl
      exact ⟨s₂, hreach₁.trans hreach₂, hoffer⟩

/-- **No injected interrupt is lost.** In every run in which `irqId` is not injected while it is
active, and in every state in which the guest has not taken it since it was last injected, the guest
can come to take it. -/
theorem injected_not_lost (vtr : BitVec 64) (irqId : IntId) {s : VirtIf}
    (hrun : Reach virtIfStep (NotWhileActive irqId) (virtIfInit vtr) s)
    (howed : s.owed irqId = true) :
    ∃ s', Reach virtIfStep GuestOnly s s' ∧ s'.Offers irqId := by
  have hinv := hrun.invariant (VirtIfInv irqId) (.init vtr irqId)
    fun _ _ _ h hok hs => h.step hok hs
  exact hinv.offered (hinv.coming howed)

end Progress

/-- With one list register, the second of two interrupts waits in the queue. -/
theorem injected_not_lost_sample :
    ∃ s, (s.pendingVirqs = [(34, false)] ∧ s.owed 34 = true) ∧
      ∃ s', Reach virtIfStep GuestOnly s s' ∧ s'.Offers 34 := by
  have hrun : (run virtIfStep (NotWhileActive 34) (virtIfInit 0)
      [.inject 33 false, .inject 34 false]).map (fun s => (s.pendingVirqs, s.owed 34)) =
        some ([(34, false)], true) := by
    decide +kernel
  obtain ⟨s, hs, heq⟩ := exists_of_run hrun
  rw [mk.injEq] at heq
  exact ⟨s, heq, injected_not_lost 0 34 hs heq.2⟩

/-- Nothing is on offer and nothing waits. -/
structure VirtIf.Exhausted (s : VirtIf) : Prop where
  queue : s.pendingVirqs = []
  pending : ∀ i < s.lrNum, (s.lr i).pending = false

/-- Without a new injection it stays so. -/
theorem VirtIf.Exhausted.step {s s' : VirtIf} {e : VirtIfEvent} (h : s.Exhausted)
    (hok : GuestOnly s e) (hs : virtIfStep s e = some s') : s'.Exhausted := by
  cases e with
  | inject => exact hok.elim
  | acknowledge i =>
    obtain ⟨⟨hi, hpending⟩, -⟩ := ite_none_right_eq_some.mp hs
    rw [h.pending i hi] at hpending
    cases hpending
  | deactivate i =>
    obtain ⟨-, rfl⟩ := ite_some_none_eq_some.mp hs
    refine ⟨h.queue, fun j hj => ?_⟩
    by_cases hji : j = i
    · subst hji
      simpa using h.pending j hj
    · simpa [hji] using h.pending j hj
  | maintenance =>
    obtain ⟨-, rfl⟩ := ite_some_none_eq_some.mp hs
    rw [handleMaintenaceInterrupt, h.queue]
    exact ⟨rfl, h.pending⟩

/-- An interrupt is injected again after the guest has acknowledged it: the second instance is not
in a list register and not in the queue, and the guest never takes it. -/
theorem active_injection_lost :
    ∃ s, Reach virtIfStep anyStep (virtIfInit 3) s ∧ s.owed 33 = true ∧
      ∀ s', Reach virtIfStep GuestOnly s s' → ¬s'.Offers 33 := by
  have hrun : (run virtIfStep anyStep (virtIfInit 3)
      [.inject 33 false, .acknowledge 0, .inject 33 false]).map
        (fun s => (s.owed 33, s.pendingVirqs,
          (List.range s.lrNum).all fun i => !(s.lr i).pending)) = some (true, [], true) := by
    decide +kernel
  obtain ⟨s, hs, heq⟩ := exists_of_run hrun
  simp only [mk.injEq, List.all_eq_true, mem_range, Bool.not_eq_true'] at heq
  obtain ⟨howed, hqueue, hpending⟩ := heq
  refine ⟨s, hs, howed, fun s' hreach hoffer => ?_⟩
  have hexhausted := hreach.invariant VirtIf.Exhausted ⟨hqueue, hpending⟩
    fun _ _ _ h hok hs => h.step hok hs
  obtain ⟨i, hi, hoffered, -⟩ := hoffer
  rw [hexhausted.pending i hi] at hoffered
  cases hoffered

/-! ## What the maintenance handler does with the queue -/

/-- The interrupts that `s'` has no longer in the queue are in its list registers, in the order of
the queue of `s`, and the maintenance interrupt is enabled as long as some are left. -/
def Conserves (s s' : VirtIf) : Prop :=
  ∃ front, s.pendingVirqs = front ++ s'.pendingVirqs ∧ Placed s.lrNum s.lr front s'.lr ∧
    (s'.hcr &&& ichHcrUie ≠ 0 ↔ s'.pendingVirqs ≠ [])

/-- The interrupts of the queue that no list register holds. -/
def waiting (n : ℕ) (lr : ℕ → ListReg) (q : List (IntId × Bool)) : Finset IntId :=
  (q.map fst).toFinset.filter fun irqId =>
    ∀ i < n, (lr i).empty = false → (lr i).holds irqId = false

/-- The list registers that are empty. -/
def emptyRegs (n : ℕ) (lr : ℕ → ListReg) : Finset ℕ := (Finset.range n).filter fun i => (lr i).empty

/-- There is a list register for each interrupt of the queue that is in none. -/
def VirtIf.Fits (s : VirtIf) : Prop :=
  (waiting s.lrNum s.lr s.pendingVirqs).card ≤ (emptyRegs s.lrNum s.lr).card

section Fits

variable {n i : ℕ} {lr : ℕ → ListReg} {x : IntId × Bool} {q : List (IntId × Bool)}

theorem waiting_cons_of_held (hi : i < n) (hused : (lr i).empty = false)
    (hheld : (lr i).holds x.1 = true) : waiting n lr (x :: q) = waiting n lr q := by
  rw [waiting, map_cons, toFinset_cons, Finset.filter_insert, if_neg]
  · rfl
  · intro h
    cases (h i hi hused).symm.trans hheld

/-- An interrupt that is written to a list register waits no longer. -/
theorem waiting_cons_of_free (hi : i < n) (hfree : (lr i).empty = true)
    (hother : ∀ j < n, (lr j).empty = false → (lr j).holds x.1 = false) :
    x.1 ∉ waiting n (update lr i (.inject x.1 x.2)) q ∧
      waiting n lr (x :: q) = insert x.1 (waiting n (update lr i (.inject x.1 x.2)) q) := by
  have hheld : ¬ ∀ j < n, (update lr i (ListReg.inject x.1 x.2) j).empty = false →
      (update lr i (ListReg.inject x.1 x.2) j).holds x.1 = false := by
    intro h
    have hi := h i hi
    rw [update_self, holds_inject] at hi
    cases hi (inject_used ..)
  refine ⟨fun h => hheld (Finset.mem_filter.mp h).2, Finset.ext fun irqId => ?_⟩
  by_cases heq : irqId = x.1
  · subst heq
    simp only [waiting, map_cons, toFinset_cons, Finset.mem_filter, Finset.mem_insert, true_or,
      true_and]
    exact iff_true_intro hother
  simp only [waiting, map_cons, toFinset_cons, Finset.mem_filter, Finset.mem_insert, heq, false_or]
  refine and_congr_right fun _ => forall₂_congr fun j _ => ?_
  by_cases hj : j = i
  · subst hj
    have hnot : (ListReg.inject x.1 x.2).holds irqId = false :=
      Bool.eq_false_iff.mpr fun h => heq (holds_inj h (holds_inject ..))
    simp [hfree, hnot]
  · rw [update_of_ne hj]

theorem emptyRegs_update (hi : i < n) (hfree : (lr i).empty = true) :
    i ∉ emptyRegs n (update lr i (.inject x.1 x.2)) ∧
      emptyRegs n lr = insert i (emptyRegs n (update lr i (.inject x.1 x.2))) := by
  refine ⟨?_, Finset.ext fun j => ?_⟩
  · simp [emptyRegs, inject_used]
  · by_cases hj : j = i
    · subst hj
      simp [emptyRegs, hi, hfree]
    · simp [emptyRegs, hj]

/-- The queue is empty afterwards if its interrupts fit. -/
theorem maintenaceLoop_eq_nil (q : List (IntId × Bool)) (s : VirtIf) :
    (maintenaceLoop q s).pendingVirqs = [] ↔
      (waiting s.lrNum s.lr q).card ≤ (emptyRegs s.lrNum s.lr).card := by
  induction q generalizing s with
  | nil => exact iff_of_true rfl (Nat.zero_le _)
  | cons x rest ih =>
    have hspec := search_spec s.lr x.1 (List.range s.lrNum)
    rw [maintenaceLoop, injectIrq,
      show VirtIf.lrNum { s with pendingVirqs := rest } = s.lrNum from rfl]
    dsimp only
    generalize search s.lr x.1 (List.range s.lrNum) none = r at hspec ⊢
    cases r with
    | held =>
      obtain ⟨i, hi, hused, hheld⟩ := hspec
      rw [waiting_cons_of_held (mem_range.mp hi) hused hheld]
      exact ih _
    | free i =>
      obtain ⟨⟨hi, hfree⟩, hother⟩ := hspec
      have hi := mem_range.mp hi
      obtain ⟨hnew, hwaiting⟩ := waiting_cons_of_free (q := rest) hi hfree
        fun j hj => hother j (mem_range.mpr hj)
      obtain ⟨hused, hregs⟩ := emptyRegs_update (x := x) hi hfree
      rw [hwaiting, hregs, Finset.card_insert_of_notMem hnew, Finset.card_insert_of_notMem hused,
        Nat.add_le_add_iff_right]
      exact ih _
    | full =>
      have hnone : emptyRegs s.lrNum s.lr = ∅ := by
        refine Finset.filter_false_of_mem fun i hi => ?_
        simp [(hspec i (mem_range.mpr (Finset.mem_range.mp hi))).1]
      have hx : x.1 ∈ waiting s.lrNum s.lr (x :: rest) :=
        Finset.mem_filter.mpr ⟨by simp, fun i hi _ => (hspec i (mem_range.mpr hi)).2⟩
      refine iff_of_false (by simp [enableMaintenaceInterrupt, addIrq]) ?_
      rw [hnone, Finset.card_empty, Nat.le_zero]
      exact Finset.card_ne_zero_of_mem hx

end Fits

/-- **What the maintenance handler keeps of the queue.** Nothing is lost or doubled exactly if there
is a list register for every interrupt of the queue. Otherwise the first one without is in the queue
once more than before, behind those that came after it. -/
theorem maintenance_conserves_iff (s : VirtIf) :
    (Conserves s (handleMaintenaceInterrupt s) ↔ s.Fits) ∧
      (s.Fits ∨ ∃ front x rest, s.pendingVirqs = front ++ x :: rest ∧
          Placed s.lrNum s.lr front (handleMaintenaceInterrupt s).lr ∧
          (handleMaintenaceInterrupt s).pendingVirqs = rest ++ [x, x] ∧
          (handleMaintenaceInterrupt s).pendingVirqs.count x = s.pendingVirqs.count x + 1 ∧
          (handleMaintenaceInterrupt s).hcr &&& ichHcrUie ≠ 0) := by
  have hfits : (handleMaintenaceInterrupt s).pendingVirqs = [] ↔ s.Fits :=
    maintenaceLoop_eq_nil s.pendingVirqs s
  obtain ⟨front, left, hq, hplaced, ⟨rfl, hnil, huie⟩ | ⟨x, rest, rfl, hback, huie, hother⟩⟩ :=
    maintenaceLoop_placed s.pendingVirqs s
  · have hdone : Conserves s (handleMaintenaceInterrupt s) := by
      refine ⟨front, ?_, hplaced, ?_⟩ <;> rw [handleMaintenaceInterrupt, hnil]
      · exact hq
      · simp [huie]
    exact ⟨iff_of_true hdone (hfits.mp hnil), .inl (hfits.mp hnil)⟩
  · have hnew : x ∉ front := fun hx => by
      obtain ⟨i, hi, -, hheld⟩ := hplaced.held hx
      rw [(hother i hi).2] at hheld
      cases hheld
    have hcount : (rest ++ [x, x]).count x = s.pendingVirqs.count x + 1 := by
      simp [hq, count_append, count_eq_zero_of_not_mem hnew]
    refine ⟨iff_of_false ?_ fun h => ?_,
      .inr ⟨front, x, rest, hq, hplaced, hback, by rwa [handleMaintenaceInterrupt, hback], huie⟩⟩
    · rintro ⟨front', hq', -, -⟩
      have hle := congrArg (List.count x) hq'
      rw [handleMaintenaceInterrupt, hback, count_append] at hle
      omega
    · have hnil := hfits.mpr h
      rw [handleMaintenaceInterrupt, hback] at hnil
      simp at hnil

/-- With one list register, which holds interrupt 33, interrupt 34 waits in the queue, the
maintenance interrupt is asserted at once and its handler doubles 34. -/
theorem maintenance_doubles :
    ∃ s, Reach virtIfStep anyStep (virtIfInit 0) s ∧ s.underflow = true ∧
      ¬Conserves s (handleMaintenaceInterrupt s) := by
  have hrun : (run virtIfStep anyStep (virtIfInit 0) [.inject 33 false, .inject 34 false]).map
      (fun s => (s.underflow, s.pendingVirqs, (handleMaintenaceInterrupt s).pendingVirqs)) =
        some (true, [(34, false)], [(34, false), (34, false)]) := by
    decide +kernel
  obtain ⟨s, hs, heq⟩ := exists_of_run hrun
  simp only [mk.injEq] at heq
  refine ⟨s, hs, heq.1, ?_⟩
  rintro ⟨front, hq, -, -⟩
  have hlength := congrArg List.length hq
  rw [heq.2.1, heq.2.2] at hlength
  simp at hlength

end HvisorRux.Gic
