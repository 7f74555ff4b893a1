import HvisorRux.Tool.Virtqueue
import HvisorRux.Common.Iterate

/-!
# Descriptor chains and their leaves

What a driver that keeps to the rules publishes: a chain of direct descriptors, the last of which
may be replaced by one indirect descriptor whose table is itself one chain using all of its entries.
For such a chain `process_descriptor_chain` returns the number of leaf descriptors and fills its
`iov` with them in order, although it counts and records in two independent loops. The same holds
for a cycle of direct descriptors, which both loops leave after `num + 1` of them. A caller that
does not ask for the flags never gets as far as the first leaf.
-/

namespace HvisorRux.Tool

open Common List Option Chain Nat Leads

/-! ## The shape of a chain -/

/-- The descriptors found by following `next` from `idx` on, if the chain ends within `n` of them
and they are mapped. -/
def follow (zm : ZoneMem) (mem : HostMem) (table : UInt64) : ℕ → UInt16 → Option (List VirtqDesc)
  | 0, _ => none
  | n + 1, idx =>
    let vd := mem.desc table idx
    if zm.mappedDesc table idx = false then none
    else if vd.hasNext then (follow zm mem table n vd.next).map (vd :: ·)
    else some [vd]

/-- The entries of the table an indirect descriptor points to, if they form one chain in order of
their links. -/
def tableLeaves (zm : ZoneMem) (mem : HostMem) (vq : VirtQueue) (vd : VirtqDesc) :
    Option (List VirtqDesc) :=
  (follow zm mem (getVirtAddr zm vd.addr vq.zoneId) (vd.len.toNat / 16) 0).filter fun leaves =>
    leaves.length = vd.len.toNat / 16

/-- The leaf descriptors of the chain that starts at `idx`, which is cut after `n + 1` descriptors;
`none` if there is an indirect descriptor that is not its end or whose table is not one chain, or if
a descriptor is not mapped. -/
def leavesFrom (zm : ZoneMem) (mem : HostMem) (vq : VirtQueue) : ℕ → UInt16 →
    Option (List VirtqDesc)
  | 0, idx =>
    let vd := mem.desc vq.descTable idx
    if zm.mappedDesc vq.descTable idx = false ∨ vd.isIndirect then none else some [vd]
  | n + 1, idx =>
    let vd := mem.desc vq.descTable idx
    if zm.mappedDesc vq.descTable idx = false then none
    else if vd.isIndirect then
      if vd.hasNext then none else tableLeaves zm mem vq vd
    else if vd.hasNext then (leavesFrom zm mem vq n vd.next).map (vd :: ·)
    else some [vd]

/-- The descriptor `idx` of the queue is mapped and holds a buffer. -/
structure IsDirect (zm : ZoneMem) (mem : HostMem) (vq : VirtQueue) (idx : UInt16) : Prop where
  mapped : zm.mappedDesc vq.descTable idx = true
  direct : (mem.desc vq.descTable idx).isIndirect = false

/-- The descriptor `idx` of the queue is mapped and stands for a table, and the chain ends
there. -/
structure IsTable (zm : ZoneMem) (mem : HostMem) (vq : VirtQueue) (idx : UInt16) : Prop where
  mapped : zm.mappedDesc vq.descTable idx = true
  indirect : (mem.desc vq.descTable idx).isIndirect = true
  last : (mem.desc vq.descTable idx).hasNext = false

/-- The same as a relation, which also admits an indirect descriptor at the end whose table has no
entry: the descriptors from `idx` on are the leaves of a chain that is cut after `n + 1`
descriptors. -/
inductive ChainFrom (zm : ZoneMem) (mem : HostMem) (vq : VirtQueue) :
    ℕ → UInt16 → List VirtqDesc → Prop
  | cut {idx : UInt16} (hdirect : IsDirect zm mem vq idx) :
      ChainFrom zm mem vq 0 idx [mem.desc vq.descTable idx]
  | last {n : ℕ} {idx : UInt16} (hdirect : IsDirect zm mem vq idx)
      (hlast : (mem.desc vq.descTable idx).hasNext = false) :
      ChainFrom zm mem vq (n + 1) idx [mem.desc vq.descTable idx]
  | indirect {n : ℕ} {idx : UInt16} {leaves : List VirtqDesc} (hind : IsTable zm mem vq idx)
      (htable : tableLeaves zm mem vq (mem.desc vq.descTable idx) = some leaves) :
      ChainFrom zm mem vq (n + 1) idx leaves
  | empty {n : ℕ} {idx : UInt16} (hind : IsTable zm mem vq idx)
      (hlen : (mem.desc vq.descTable idx).len.toNat / 16 = 0) :
      ChainFrom zm mem vq (n + 1) idx []
  | link {n : ℕ} {idx : UInt16} {leaves : List VirtqDesc} (hdirect : IsDirect zm mem vq idx)
      (hnext : (mem.desc vq.descTable idx).hasNext = true)
      (hrest : ChainFrom zm mem vq n (mem.desc vq.descTable idx).next leaves) :
      ChainFrom zm mem vq (n + 1) idx (mem.desc vq.descTable idx :: leaves)

/-- The leaf descriptors of the next available chain. -/
def chainLeaves (zm : ZoneMem) (mem : HostMem) (vq : VirtQueue) : Option (List VirtqDesc) :=
  leavesFrom zm mem vq vq.num.toNat vq.head

/-- The `iov` array after `process_descriptor_chain`: what `malloc` returned, overwritten by what
was recorded. -/
def Chain.iov (ch : Chain) (heap : ℕ → Iovec) : List Iovec :=
  ch.recorded.foldl (fun iov r => iov.set r.slot.toNat r.iov)
    ((List.range ch.chainLen.toNat).map heap)

/-- The `flags` array after a call of `process_descriptor_chain` with `copy_flags`. -/
def Chain.flags (ch : Chain) (heap : ℕ → UInt16) : List UInt16 :=
  ch.recorded.foldl (fun flags r => r.flags.elim flags (flags.set r.slot.toNat))
    ((List.range ch.chainLen.toNat).map heap)

/-- The calls of `descriptor2iov` for the descriptors `vds` at the slots from `k` on. -/
def recordAll (zm : ZoneMem) (vq : VirtQueue) (k : ℕ) (vds : List VirtqDesc) : List Recorded :=
  (vds.zipIdx k).map fun x => descriptor2iov zm x.2 x.1 vq.zoneId true

/-- The buffer of a descriptor in the daemon's memory. -/
def VirtqDesc.buffer (zm : ZoneMem) (zoneId : Fin maxZones) (vd : VirtqDesc) : Iovec :=
  ⟨getVirtAddr zm vd.addr zoneId, vd.len.toUInt64⟩

section Flatten

variable (zm : ZoneMem) (mem : HostMem) (vq : VirtQueue) (copyFlags : Bool)

@[simp] theorem recordAll_nil (k : ℕ) : recordAll zm vq k [] = [] := rfl

@[simp] theorem recordAll_cons (k : ℕ) (vd : VirtqDesc) (vds : List VirtqDesc) :
    recordAll zm vq k (vd :: vds) =
      descriptor2iov zm k vd vq.zoneId true :: recordAll zm vq (k + 1) vds := rfl

variable {n : ℕ} {leaves : List VirtqDesc} {idx : UInt16} {idxs : List UInt16}

/-- A call that has ended stays as it is. -/
theorem Chain.step_eq_self {ch : Chain} (h : ch.pc = .returned ∨ ch.pc = .crashed) :
    ch.step zm mem vq copyFlags = ch := by
  obtain h | h := h <;> rw [step, h]

theorem toCInt_of_lt (h : n < 2 ^ 31) : toCInt n = n := by
  unfold toCInt
  rw [Int.bmod_eq_of_le] <;> omega

theorem length_of_tableLeaves {vd : VirtqDesc} (h : tableLeaves zm mem vq vd = some leaves) :
    follow zm mem (getVirtAddr zm vd.addr vq.zoneId) (vd.len.toNat / 16) 0 = some leaves ∧
      leaves.length = vd.len.toNat / 16 := by
  obtain ⟨hfollow, hlen⟩ := filter_eq_some_iff.mp h
  exact ⟨hfollow, of_decide_eq_true hlen⟩

theorem length_pos_of_follow {table : UInt64} (h : follow zm mem table n idx = some leaves) :
    0 < leaves.length := by
  cases n with
  | zero => cases h
  | succ n =>
    obtain ⟨-, h⟩ := ite_none_left_eq_some.mp h
    split at h
    · obtain ⟨rest, -, rfl⟩ := map_eq_some_iff.mp h
      exact succ_pos _
    · rw [← some.inj h]
      exact one_pos

theorem chainFrom_of_leavesFrom (h : leavesFrom zm mem vq n idx = some leaves) :
    ChainFrom zm mem vq n idx leaves := by
  induction n generalizing idx leaves with
  | zero =>
    obtain ⟨hbad, hleaves⟩ := ite_none_left_eq_some.mp h
    cases hleaves
    simp only [not_or, Bool.not_eq_false, Bool.not_eq_true] at hbad
    exact .cut ⟨hbad.1, hbad.2⟩
  | succ n ih =>
    obtain ⟨hmapped, h⟩ := ite_none_left_eq_some.mp h
    have hmapped := Bool.not_eq_false _ ▸ hmapped
    split at h
    · next hind =>
      obtain ⟨hlast, htable⟩ := ite_none_left_eq_some.mp h
      exact .indirect ⟨hmapped, hind, Bool.eq_false_iff.mpr hlast⟩ htable
    rename_i hdirect
    have hdirect : IsDirect zm mem vq idx := ⟨hmapped, Bool.eq_false_iff.mpr hdirect⟩
    split at h
    · next hnext =>
      obtain ⟨rest, hrest, rfl⟩ := map_eq_some_iff.mp h
      exact .link hdirect hnext (ih hrest)
    · next hlast =>
      cases h
      exact .last hdirect (Bool.eq_false_iff.mpr hlast)

section

variable (h : ChainFrom zm mem vq n idx leaves)

include h

/-- A table has fewer than `2 ^ 28` entries. -/
theorem ChainFrom.length_lt : leaves.length < n + 2 ^ 28 := by
  induction h with
  | cut | last =>
    rw [length_singleton]
    omega
  | @indirect n idx leaves _ htable =>
    have hlen := (length_of_tableLeaves zm mem vq htable).2
    have hbound := (mem.desc vq.descTable idx).len.toNat_lt
    omega
  | empty =>
    rw [length_nil]
    omega
  | link _ _ _ ih =>
    rw [length_cons]
    omega

/-! ## The two loops -/

/-- One iteration of the counting loop, at the `k`-th descriptor of the chain: the loop ends with
the number of leaves, or it goes on at the next descriptor. -/
theorem ChainFrom.count_step {k : ℕ} (hk : k + n = vq.num.toNat) (hnum : vq.num.toNat < 2 ^ 31)
    (hlen : k + leaves.length < 2 ^ 31) (rs : List Recorded) :
    step zm mem vq copyFlags ⟨.count, k, idx, 0, rs⟩ =
        ⟨.record, 0, vq.head, (k + leaves.length : ℕ), rs⟩ ∨
      ∃ m rest, n = m + 1 ∧ leaves = mem.desc vq.descTable idx :: rest ∧
        (mem.desc vq.descTable idx).hasNext = true ∧
        ChainFrom zm mem vq m (mem.desc vq.descTable idx).next rest ∧
        step zm mem vq copyFlags ⟨.count, k, idx, 0, rs⟩ =
          ⟨.count, (k + 1 : ℕ), (mem.desc vq.descTable idx).next, 0, rs⟩ := by
  have hlt : ∀ {n : ℕ}, k + (n + 1) = vq.num.toNat → (k : Int) < toCInt vq.num.toNat := by
    intro n hk
    rw [toCInt_of_lt hnum]
    omega
  cases h with
  | cut =>
    -- the loop ends because `i` has reached `num`
    have hge : ¬ (k : Int) < toCInt vq.num.toNat := by
      rw [toCInt_of_lt hnum]
      omega
    left
    simp only [step, if_neg hge, startRecording, zero_add, length_singleton]
    rw [← cast_one, ← cast_add, toCInt_of_lt (show k + 1 < 2 ^ 31 from hlen)]
  | last hdirect hlast =>
    left
    simp only [step, if_pos (hlt hk), hdirect.mapped, hdirect.direct, hlast, Bool.false_eq_true,
      if_true, if_false, startRecording, zero_add, length_singleton]
    rw [← cast_one, ← cast_add, toCInt_of_lt (show k + 1 < 2 ^ 31 from hlen)]
  | indirect hind htable =>
    have htable : (mem.desc vq.descTable idx).tableLen = leaves.length := by
      rw [(length_of_tableLeaves zm mem vq htable).2]
      rfl
    left
    simp only [step, if_pos (hlt hk), hind.mapped, hind.indirect, hind.last, htable,
      Bool.false_eq_true, if_false, if_true, startRecording, zero_add]
    rw [toCInt_of_lt (by omega), sub_add_cancel, ← cast_add, toCInt_of_lt (by omega), add_comm]
  | empty hind hempty =>
    have htable : (mem.desc vq.descTable idx).tableLen = 0 := by
      show (((mem.desc vq.descTable idx).len.toNat / 16 : ℕ) : Int) = 0
      rw [hempty]
      rfl
    left
    simp only [step, if_pos (hlt hk), hind.mapped, hind.indirect, hind.last, htable,
      Bool.false_eq_true, if_false, if_true, startRecording, zero_add]
    rw [sub_add_cancel, ← cast_zero, toCInt_of_lt (by omega), ← cast_add, toCInt_of_lt (by omega)]
    simp
  | @link m _ rest hdirect hnext hrest =>
    refine .inr ⟨m, rest, rfl, rfl, hnext, hrest, ?_⟩
    simp only [step, if_pos (hlt hk), hdirect.mapped, hdirect.direct, hnext, Bool.false_eq_true,
      if_false, if_true]
    rfl

/-- The counting loop. -/
theorem count_leads {k : ℕ} (hk : k + n = vq.num.toNat)
    (hnum : vq.num.toNat < 2 ^ 31) (hlen : k + leaves.length < 2 ^ 31) (rs : List Recorded) :
    Leads (step zm mem vq copyFlags) ⟨.count, k, idx, 0, rs⟩
      ⟨.record, 0, vq.head, (k + leaves.length : ℕ), rs⟩ := by
  induction n generalizing idx leaves k with
  | zero =>
    obtain hstep | ⟨m, rest, hm, -⟩ := h.count_step zm mem vq copyFlags hk hnum hlen rs
    · exact head (hstep ▸ refl ..)
    · exact absurd hm (succ_ne_zero m).symm
  | succ n ih =>
    obtain hstep | ⟨m, rest, hm, rfl, -, hrest, hstep⟩ :=
      h.count_step zm mem vq copyFlags hk hnum hlen rs
    · exact head (hstep ▸ refl ..)
    · obtain rfl := succ.inj hm
      rw [length_cons] at hlen ⊢
      rw [add_comm rest.length 1, ← add_assoc]
      exact head (hstep ▸ ih hrest (by omega) (by omega))

end

/-- The inner loop over a table records its entries and leaves the outer loop behind the last
one. -/
theorem indirect_leads {table : UInt64} (h : follow zm mem table n idx = some leaves) (k : ℕ)
    (resume : UInt16) (chainLen : Int) (rs : List Recorded) :
    Leads (step zm mem vq true)
      ⟨.indirect table leaves.length resume, k, idx, chainLen, rs⟩
      ⟨.record, (k + leaves.length + 1 : ℕ), resume, chainLen, rs ++ recordAll zm vq k leaves⟩ := by
  induction n generalizing idx leaves k rs with
  | zero => cases h
  | succ n ih =>
    obtain ⟨hmapped, h⟩ := ite_none_left_eq_some.mp h
    have hok : ¬ (true = false ∨ zm.mappedDesc table idx = false) := by simp [hmapped]
    apply Leads.head
    simp only [step, if_neg hok]
    split at h
    · next hnext =>
      obtain ⟨rest, hrest, rfl⟩ := map_eq_some_iff.mp h
      rw [if_pos hnext]
      have hih := ih hrest (k + 1)
        (rs ++ [descriptor2iov zm k (mem.desc table idx) vq.zoneId true])
      simpa [add_assoc, add_comm, add_left_comm] using hih
    · next hlast =>
      rw [if_neg hlast, ← some.inj h, if_neg (by simp)]
      exact ⟨0, rfl⟩

/-- The recording loop ends at the counted length. -/
theorem record_returns {i chainLen : Int} (h : ¬ i < chainLen) (next : UInt16)
    (rs : List Recorded) :
    Leads (step zm mem vq copyFlags) ⟨.record, i, next, chainLen, rs⟩
      ⟨.returned, i, next, chainLen, rs⟩ :=
  ⟨1, if_neg h⟩

/-- A direct descriptor is recorded. -/
theorem IsDirect.record_step (h : IsDirect zm mem vq idx) {i chainLen : Int} (hlt : i < chainLen)
    (rs : List Recorded) :
    step zm mem vq true ⟨.record, i, idx, chainLen, rs⟩ =
      ⟨.record, i + 1, (mem.desc vq.descTable idx).next, chainLen,
        rs ++ [descriptor2iov zm i (mem.desc vq.descTable idx) vq.zoneId true]⟩ := by
  simp only [step, if_pos hlt, h.mapped, h.direct, Bool.true_eq_false, Bool.false_eq_true, if_false,
    if_true]

/-- An indirect descriptor is followed to its table. -/
theorem IsTable.record_step (h : IsTable zm mem vq idx) {i chainLen : Int} (hlt : i < chainLen)
    (rs : List Recorded) :
    step zm mem vq copyFlags ⟨.record, i, idx, chainLen, rs⟩ =
      ⟨.indirect (getVirtAddr zm (mem.desc vq.descTable idx).addr vq.zoneId)
        (mem.desc vq.descTable idx).tableLen (mem.desc vq.descTable idx).next, i, 0, chainLen,
        rs⟩ := by
  simp only [step, if_pos hlt, h.mapped, h.indirect, Bool.true_eq_false, if_false, if_true]

/-- The last descriptor of a chain, at slot `k`. -/
theorem record_last (h : IsDirect zm mem vq idx) (k : ℕ) (rs : List Recorded) :
    ∃ i next, Leads (step zm mem vq true) ⟨.record, k, idx, (k + 1 : ℕ), rs⟩
      ⟨.returned, i, next, (k + 1 : ℕ), rs ++ recordAll zm vq k [mem.desc vq.descTable idx]⟩ := by
  have hlt : (k : Int) < (k + 1 : ℕ) := by omega
  refine ⟨(k + 1 : ℕ), (mem.desc vq.descTable idx).next, head ?_⟩
  rw [h.record_step zm mem vq hlt]
  exact record_returns zm mem vq true (by simp) _ _

/-- The recording loop, at slot `k`, which receives the first leaf of the rest of the chain. -/
theorem record_leads (h : ChainFrom zm mem vq n idx leaves) (k : ℕ) (rs : List Recorded) :
    ∃ i next, Leads (step zm mem vq true) ⟨.record, k, idx, (k + leaves.length : ℕ), rs⟩
      ⟨.returned, i, next, (k + leaves.length : ℕ), rs ++ recordAll zm vq k leaves⟩ := by
  induction h generalizing k rs with
  | cut hdirect | last hdirect _ => exact record_last zm mem vq hdirect k rs
  | @indirect n idx leaves hind htable =>
    obtain ⟨hfollow, hlen⟩ := length_of_tableLeaves zm mem vq htable
    have htable : (mem.desc vq.descTable idx).tableLen = leaves.length := by
      rw [hlen]
      rfl
    have hlt : (k : Int) < (k + leaves.length : ℕ) := by
      have := length_pos_of_follow zm mem hfollow
      omega
    refine ⟨(k + leaves.length + 1 : ℕ), (mem.desc vq.descTable idx).next, head ?_⟩
    rw [hind.record_step zm mem vq true hlt, htable]
    exact (indirect_leads zm mem vq hfollow k _ _ rs).trans
      (record_returns zm mem vq true (by omega) _ _)
  | @empty n idx _ _ =>
    -- the loop ends before the indirect descriptor
    refine ⟨k, idx, ?_⟩
    rw [recordAll_nil, append_nil]
    exact record_returns zm mem vq true (by simp) _ _
  | @link n idx rest hdirect _ _ ih =>
    obtain ⟨i, next, hih⟩ := ih (k + 1)
      (rs ++ [descriptor2iov zm k (mem.desc vq.descTable idx) vq.zoneId true])
    refine ⟨i, next, head ?_⟩
    have hlt : (k : Int) < (k + (mem.desc vq.descTable idx :: rest).length : ℕ) := by
      rw [length_cons]
      omega
    rw [hdirect.record_step zm mem vq hlt]
    simpa [add_assoc, add_comm, add_left_comm] using hih

section

variable (h : ChainFrom zm mem vq vq.num.toNat vq.head leaves) (hfull : virtqueueIsEmpty vq = false)
  (hnum : vq.num.toNat < 2 ^ 31) (hlen : leaves.length < 2 ^ 31)

include h hfull hnum hlen

/-- The counting loop comes to the number of leaves. -/
theorem ChainFrom.counted :
    Leads (step zm mem vq copyFlags) (start vq) ⟨.record, (0 : ℕ), vq.head, leaves.length, []⟩ := by
  have hstart : start vq = ⟨.count, (0 : ℕ), vq.head, 0, []⟩ := by
    rw [start, hfull]
    rfl
  have hcount := count_leads zm mem vq copyFlags h (k := 0) (zero_add _) hnum (by omega) []
  rw [zero_add] at hcount
  exact hstart ▸ hcount

/-- The loops end, `chain_len` is the number of leaves, and each has been recorded at its
position. -/
theorem ChainFrom.leads :
    ∃ i next, Leads (step zm mem vq true) (start vq)
      ⟨.returned, i, next, leaves.length, recordAll zm vq 0 leaves⟩ := by
  obtain ⟨i, next, hrecord⟩ := record_leads zm mem vq h 0 []
  rw [zero_add] at hrecord
  exact ⟨i, next, (h.counted zm mem vq true hfull hnum hlen).trans hrecord⟩

/-- So `process_descriptor_chain` returns. -/
theorem ChainFrom.returns :
    ∃ fuel, (processDescriptorChain zm mem vq true fuel).pc = .returned := by
  obtain ⟨i, next, fuel, hfuel⟩ := h.leads zm mem vq hfull hnum hlen
  refine ⟨fuel, ?_⟩
  rw [processDescriptorChain, hfuel]

/-- Whatever the number of iterations it returned after, it has found the leaves. -/
theorem ChainFrom.result {fuel : ℕ}
    (hret : (processDescriptorChain zm mem vq true fuel).pc = .returned) :
    (processDescriptorChain zm mem vq true fuel).chainLen = leaves.length ∧
      (processDescriptorChain zm mem vq true fuel).recorded = recordAll zm vq 0 leaves := by
  obtain ⟨i, next, hleads⟩ := h.leads zm mem vq hfull hnum hlen
  have heq := unique ⟨fuel, rfl⟩ hleads (step_eq_self zm mem vq true (.inl hret))
    (step_eq_self zm mem vq true (.inl rfl))
  rw [processDescriptorChain, heq]
  exact ⟨rfl, rfl⟩

end

/-- On a chain that has leaves, `process_descriptor_chain` returns. -/
theorem processDescriptorChain_returns (h : (chainLeaves zm mem vq).isSome)
    (hfull : virtqueueIsEmpty vq = false) (hnum : vq.num.toNat < 2 ^ 30) :
    ∃ fuel, (processDescriptorChain zm mem vq true fuel).pc = .returned := by
  obtain ⟨leaves, hleaves⟩ := isSome_iff_exists.mp h
  have hchain := chainFrom_of_leavesFrom zm mem vq hleaves
  have hlen := hchain.length_lt
  exact hchain.returns zm mem vq hfull (by omega) (by omega)

theorem processDescriptorChain_ne_crashed (h : (chainLeaves zm mem vq).isSome)
    (hfull : virtqueueIsEmpty vq = false) (hnum : vq.num.toNat < 2 ^ 30) (fuel : ℕ) :
    (processDescriptorChain zm mem vq true fuel).pc ≠ .crashed := by
  intro hcrashed
  obtain ⟨fuel', hret⟩ := processDescriptorChain_returns zm mem vq h hfull hnum
  have heq : processDescriptorChain zm mem vq true fuel =
      processDescriptorChain zm mem vq true fuel' :=
    unique ⟨fuel, rfl⟩ ⟨fuel', rfl⟩ (step_eq_self zm mem vq true (.inr hcrashed))
      (step_eq_self zm mem vq true (.inl hret))
  rw [heq, hret] at hcrashed
  contradiction

theorem processDescriptorChain_eq {fuel : ℕ} (h : chainLeaves zm mem vq = some leaves)
    (hfull : virtqueueIsEmpty vq = false) (hnum : vq.num.toNat < 2 ^ 30)
    (hret : (processDescriptorChain zm mem vq true fuel).pc = .returned) :
    (processDescriptorChain zm mem vq true fuel).chainLen = leaves.length ∧
      (processDescriptorChain zm mem vq true fuel).recorded = recordAll zm vq 0 leaves := by
  have hchain := chainFrom_of_leavesFrom zm mem vq h
  have hlen := hchain.length_lt
  exact hchain.result zm mem vq hfull (by omega) (by omega) hret

/-! ## Calls that ask for no flags -/

/-- Without a place for the flags nothing is recorded, and a call returns only if it has counted no
slot. -/
structure Chain.Flagless (ch : Chain) : Prop where
  recorded : ch.recorded = []
  record : ch.pc = .record → ch.i = 0
  returned : ch.pc = .returned → ch.chainLen ≤ 0

theorem Chain.Flagless.step {ch : Chain} (h : ch.Flagless) :
    (ch.step zm mem vq false).Flagless := by
  have hstart (ch : Chain) (hrec : ch.recorded = []) : (ch.startRecording vq).Flagless :=
    ⟨hrec, fun _ => rfl, nofun⟩
  have helse (ch : Chain) (hrec : ch.recorded = []) (hrecord : ch.pc ≠ .record)
      (hreturned : ch.pc ≠ .returned) : ch.Flagless :=
    ⟨hrec, fun hpc => absurd hpc hrecord, fun hpc => absurd hpc hreturned⟩
  unfold Chain.step
  split
  case h_1 hpc =>
    dsimp only
    repeat' split
    all_goals first
      | exact hstart _ h.recorded
      | exact helse _ h.recorded (by simp [hpc]) (by simp [hpc])
  case h_2 hpc =>
    dsimp only
    split
    · -- the first descriptor is not mapped, an indirect one, or the one that ends the daemon
      split
      · exact helse _ h.recorded nofun nofun
      · split
        · exact helse _ h.recorded nofun nofun
        · exact helse _ h.recorded nofun nofun
    · next hge => exact ⟨h.recorded, nofun, fun _ => h.record hpc ▸ not_lt.mp hge⟩
  case h_3 => exact helse _ h.recorded nofun nofun
  case h_4 | h_5 => exact h

theorem processDescriptorChain_flagless (fuel : ℕ) :
    (processDescriptorChain zm mem vq false fuel).Flagless := by
  induction fuel with
  | zero =>
    refine ⟨rfl, fun hpc => ?_, fun _ => le_rfl⟩
    rfl
  | succ fuel ih =>
    rw [processDescriptorChain, Function.iterate_succ_apply']
    exact ih.step zm mem vq

/-! ## The recorded buffers -/

/-- Writing consecutive slots replaces the rest of the array. -/
theorem foldl_recordAll {α : Type} {write : List α → Recorded → List α} {g : VirtqDesc → α}
    (hwrite : ∀ (k : ℕ) vd l, write l (descriptor2iov zm k vd vq.zoneId true) = l.set k (g vd))
    (leaves : List VirtqDesc) (pre rest : List α) (hlen : rest.length = leaves.length) :
    (recordAll zm vq pre.length leaves).foldl write (pre ++ rest) =
      pre ++ leaves.map g := by
  induction leaves generalizing pre rest with
  | nil => simp [length_eq_zero_iff.mp hlen]
  | cons vd vds ih =>
    obtain ⟨first, rest, rfl⟩ := exists_of_length_succ rest hlen
    have hset : (pre ++ first :: rest).set pre.length (g vd) = (pre ++ [g vd]) ++ rest := by simp
    have hih := ih (pre ++ [g vd]) rest (by simpa using hlen)
    rw [length_append, length_singleton] at hih
    rw [recordAll_cons, foldl_cons, hwrite, hset, hih]
    simp

/-- The `iov` of such a chain holds the buffers of its leaves, and no slot is left as `malloc`
returned it. -/
theorem Chain.iov_eq {ch : Chain} (hlen : ch.chainLen = leaves.length)
    (hrec : ch.recorded = recordAll zm vq 0 leaves) (heap : ℕ → Iovec) :
    ch.iov heap = leaves.map (VirtqDesc.buffer zm vq.zoneId) := by
  rw [iov, hrec, hlen]
  exact foldl_recordAll zm vq (fun _ _ _ => rfl) leaves [] _ (by simp)

/-- The same for the flags. -/
theorem Chain.flags_eq {ch : Chain} (hlen : ch.chainLen = leaves.length)
    (hrec : ch.recorded = recordAll zm vq 0 leaves) (heap : ℕ → UInt16) :
    ch.flags heap = leaves.map VirtqDesc.flags := by
  rw [flags, hrec, hlen]
  exact foldl_recordAll zm vq (fun _ _ _ => rfl) leaves [] _ (by simp)

/-! ## Chains as a driver writes them -/

/-- A chain that starts at `idx`: the indices of its descriptors and its leaves. The last descriptor
may be an indirect one. -/
inductive Published : UInt16 → List UInt16 → List VirtqDesc → Prop
  | last {idx : UInt16} (hdirect : IsDirect zm mem vq idx)
      (hlast : (mem.desc vq.descTable idx).hasNext = false) :
      Published idx [idx] [mem.desc vq.descTable idx]
  | indirect {idx : UInt16} {leaves : List VirtqDesc} (hind : IsTable zm mem vq idx)
      (htable : tableLeaves zm mem vq (mem.desc vq.descTable idx) = some leaves) :
      Published idx [idx] leaves
  | empty {idx : UInt16} (hind : IsTable zm mem vq idx)
      (hlen : (mem.desc vq.descTable idx).len.toNat / 16 = 0) : Published idx [idx] []
  | link {idx : UInt16} {idxs : List UInt16} {leaves : List VirtqDesc}
      (hdirect : IsDirect zm mem vq idx) (hnext : (mem.desc vq.descTable idx).hasNext = true)
      (hrest : Published (mem.desc vq.descTable idx).next idxs leaves) :
      Published idx (idx :: idxs) (mem.desc vq.descTable idx :: leaves)

/-- The counting loop comes to the end of the chain. -/
theorem Published.chainFrom (h : Published zm mem vq idx idxs leaves) (hn : idxs.length ≤ n) :
    ChainFrom zm mem vq n idx leaves := by
  induction h generalizing n with
  | last hdirect hlast =>
    obtain ⟨n, rfl⟩ := Nat.exists_eq_add_of_le' hn
    exact .last hdirect hlast
  | indirect hind htable =>
    obtain ⟨n, rfl⟩ := Nat.exists_eq_add_of_le' hn
    exact .indirect hind htable
  | empty hind hlen =>
    obtain ⟨n, rfl⟩ := Nat.exists_eq_add_of_le' hn
    exact .empty hind hlen
  | link hdirect hnext _ ih =>
    rw [length_cons] at hn
    obtain ⟨n, rfl⟩ := Nat.exists_eq_add_of_le' (Nat.one_le_of_lt hn)
    exact .link hdirect hnext (ih (by omega))

/-- There are not more different indices than the table has entries. -/
theorem length_le_of_nodup (hnodup : idxs.Nodup)
    (hinside : ∀ idx ∈ idxs, idx.toNat < n) : idxs.length ≤ n := by
  have hnodup' : (idxs.map UInt16.toNat).Nodup :=
    hnodup.map fun _ _ heq => UInt16.toNat_inj.mp heq
  have hsub : idxs.map UInt16.toNat ⊆ List.range n := by
    intro j hj
    obtain ⟨idx, hidx, rfl⟩ := List.mem_map.mp hj
    exact mem_range.mpr (hinside idx hidx)
  have hle := (subperm_of_subset hnodup' hsub).length_le
  rwa [length_map, length_range] at hle

/-- The call returns the number of the leaves, and `iov` and `flags` hold what they say, in order.
-/
def Flattened (leaves : List VirtqDesc) : Prop :=
  (∃ fuel, (processDescriptorChain zm mem vq copyFlags fuel).pc = .returned) ∧
  ∀ fuel, (processDescriptorChain zm mem vq copyFlags fuel).pc = .returned →
    (processDescriptorChain zm mem vq copyFlags fuel).chainLen = leaves.length ∧
    (∀ heap, (processDescriptorChain zm mem vq copyFlags fuel).iov heap =
      leaves.map (VirtqDesc.buffer zm vq.zoneId)) ∧
    (copyFlags = true → ∀ heap, (processDescriptorChain zm mem vq copyFlags fuel).flags heap =
      leaves.map VirtqDesc.flags)

/-- **Well-formed chains are flattened**, for every acyclic chain of descriptors of the table, if
and only if the caller asks for the flags or there is no leaf. The size of the queue is one that
fits an `int`. -/
theorem descriptor_chain_flattened_iff {idxs : List UInt16} {leaves : List VirtqDesc}
    (h : Published zm mem vq vq.head idxs leaves) (hacyclic : idxs.Nodup)
    (hinside : ∀ idx ∈ idxs, idx.toNat < vq.num.toNat) (hnum : vq.num.toNat < 2 ^ 31)
    (hfull : virtqueueIsEmpty vq = false) :
    Flattened zm mem vq copyFlags leaves ↔ copyFlags = true ∨ leaves = [] := by
  have hchain := h.chainFrom zm mem vq (length_le_of_nodup hacyclic hinside)
  -- an index has 16 bits, so that the number of leaves fits an `int` for any size of the queue
  have hidxs := length_le_of_nodup hacyclic fun idx _ => idx.toNat_lt
  have hlen := (h.chainFrom zm mem vq hidxs).length_lt
  cases copyFlags with
  | true =>
    refine iff_of_true ⟨hchain.returns zm mem vq hfull hnum (by omega), fun fuel hret => ?_⟩
      (.inl rfl)
    obtain ⟨hcount, hrec⟩ := hchain.result zm mem vq hfull hnum (by omega) hret
    exact ⟨hcount, fun heap => iov_eq zm vq hcount hrec heap,
      fun _ heap => flags_eq zm vq hcount hrec heap⟩
  | false =>
    constructor
    · rintro ⟨⟨fuel, hret⟩, hresult⟩
      have hzero := (processDescriptorChain_flagless zm mem vq fuel).returned hret
      rw [(hresult fuel hret).1] at hzero
      exact .inr (length_eq_zero_iff.mp (by omega))
    · rintro (hflags | rfl)
      · cases hflags
      · have hleads := (hchain.counted zm mem vq false hfull hnum (by decide)).trans
          (record_returns zm mem vq false (lt_irrefl _) _ _)
        refine ⟨hleads.imp fun _ hfuel => congrArg Chain.pc hfuel, fun fuel hret => ?_⟩
        rw [processDescriptorChain, unique ⟨fuel, rfl⟩ hleads
          (step_eq_self zm mem vq false (.inl hret)) (step_eq_self zm mem vq false (.inl rfl))]
        exact ⟨rfl, fun _ => rfl, fun hflags => by cases hflags⟩

end Flatten

/-- One descriptor: a buffer at a multiple of 256. -/
def sampleDesc (addr len flags next : UInt8) : List UInt8 :=
  [0, addr, 0, 0, 0, 0, 0, 0, len, 0, 0, 0, flags, 0, next, 0]

/-- Memory with the table of a queue at `0x1000` and another one in the guest's page. -/
def sampleTables (table indirect : List (List UInt8)) : HostMem := fun a =>
  if a < 0x10000 then table.flatten.getD (a - 0x1000).toNat 0
  else indirect.flatten.getD (a - 0x10100).toNat 0

/-- A queue with four descriptors, of which `head` has been published. -/
def sampleChainQueue (head : UInt16) : VirtQueue where
  zoneId := ⟨1, one_lt_maxZones⟩
  num := 4
  descTable := 0x1000
  availRing := ⟨0, 1, fun _ => head⟩
  usedRing := ⟨0, 0, fun _ => ⟨0, 0⟩, 0⟩
  lastAvailIdx := 0
  lastUsedIdx := 0
  eventIdxEnabled := false

/-- The descriptor 2 and, at its end, the indirect descriptor 0 with a table of two entries. -/
def sampleChain : HostMem :=
  sampleTables [sampleDesc 1 32 4 0, sampleDesc 0 0 0 0, sampleDesc 2 8 1 0]
    [sampleDesc 3 8 1 1, sampleDesc 4 8 2 0]

theorem descriptor_chain_flattened_sample :
    ∃ fuel, (processDescriptorChain samplePage sampleChain (sampleChainQueue 2) true fuel).pc =
        .returned ∧
      (processDescriptorChain samplePage sampleChain (sampleChainQueue 2) true fuel).chainLen = 3 ∧
      ∀ heap, (processDescriptorChain samplePage sampleChain (sampleChainQueue 2) true fuel).iov
        heap = [⟨0x10200, 8⟩, ⟨0x10300, 8⟩, ⟨0x10400, 8⟩] := by
  have hchain : Published samplePage sampleChain (sampleChainQueue 2) (sampleChainQueue 2).head
      [2, 0] [⟨0x200, 8, 1, 0⟩, ⟨0x300, 8, 1, 1⟩, ⟨0x400, 8, 2, 0⟩] :=
    .link ⟨by decide, by decide⟩ (by decide)
      (.indirect ⟨by decide, by decide, by decide⟩ (by decide))
  have hinside : ∀ idx ∈ ([2, 0] : List UInt16), idx.toNat < (sampleChainQueue 2).num.toNat :=
    forall_mem_cons.mpr ⟨by decide, forall_mem_singleton.mpr (by decide)⟩
  obtain ⟨⟨fuel, hret⟩, hresult⟩ := (descriptor_chain_flattened_iff samplePage sampleChain
    (sampleChainQueue 2) true hchain (by decide) hinside (by decide) (by decide)).mpr (.inl rfl)
  obtain ⟨hlen, hiov, -⟩ := hresult fuel hret
  exact ⟨fuel, hret, hlen, hiov⟩

/-- The same chain for a caller that wants no flags: the call ends the daemon at the first leaf. -/
theorem flagless_chain_crashes :
    (processDescriptorChain samplePage sampleChain (sampleChainQueue 2) false 3).pc = .crashed ∧
      ¬ Flattened samplePage sampleChain (sampleChainQueue 2) false
        [⟨0x200, 8, 1, 0⟩, ⟨0x300, 8, 1, 1⟩, ⟨0x400, 8, 2, 0⟩] := by
  refine ⟨by decide, fun h => ?_⟩
  obtain ⟨⟨fuel, hret⟩, hresult⟩ := h
  have hzero := (processDescriptorChain_flagless samplePage sampleChain _ fuel).returned hret
  rw [(hresult fuel hret).1] at hzero
  exact absurd hzero (by decide)

end HvisorRux.Tool
