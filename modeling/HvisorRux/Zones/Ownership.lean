import HvisorRux.Zones.Lifecycle
import Mathlib.Order.Bounds.Basic

/-!
# Ownership of cpus

A zone has a set of cpus, and the data of a cpu has a reference to its zone. The two agree, and no
cpu is in two zones, as long as a new zone is given cpus that belong to none: `zone_create` takes
whatever cpus the configuration names, and `hv_zone_start` asks whether the first of them is running
only after that. Then the call fails, but the zone stays.
-/

namespace HvisorRux.Zones

open Common List Option KeyedList

variable {o : Overflow} {env : CreateEnv} {s s' : Hv} {config : HvZoneConfig} {ivc : IvcTables}
  {r : Hv × Except HvErrorNum Unit} {z : Zone}

/-! ## What the hypercalls do -/

@[simp] theorem powerOn_addZone {entry ipa c : ℕ} :
    ((s.addZone z ivc entry ipa).cpus c).powerOn = (s.cpus c).powerOn := by
  unfold Hv.addZone
  dsimp only
  split <;> rfl

theorem zone_addZone {entry ipa c : ℕ} : ((s.addZone z ivc entry ipa).cpus c).zone =
      if z.cpuSet.containsCpu c = true then some s.nextPtr else (s.cpus c).zone := by
  unfold Hv.addZone
  dsimp only
  split <;> rfl

/-- A test that `hv_zone_start` makes before it creates the zone fails: the caller is not in the
root zone, the configuration has another size, or there is a zone with its number. -/
def Hv.Refuses (s : Hv) (caller : ℕ) (config : HvZoneConfig) (configSize : ℕ) : Prop :=
  s.isThisRootZone caller = some false ∨ configSize ≠ sizeOfHvZoneConfig ∨
    s.findZone config.zoneId.toNat ≠ none

/-- `hv_zone_start` refuses a call before it changes anything, or it creates the zone and then looks
at the first cpu. -/
theorem hvZoneStart_cases {caller configSize : ℕ}
    (h : hvZoneStart o env s caller config configSize = some r) :
    (s.Refuses caller config configSize ∧ ∃ e, r = (s, .error e)) ∨
    (¬ s.Refuses caller config configSize ∧ s.findZone config.zoneId.toNat = none ∧
      ∃ z ivc ipa bootCpu, Built o env s.ivc config z ivc ∧ z.cpuSet.firstCpu = some bootCpu ∧
      r = (s.addZone z ivc config.entryPoint.toNat ipa,
        if (s.cpus bootCpu).powerOn = true then .error .ebusy else .ok ())) := by
  obtain ⟨isRoot, hroot, h⟩ := bind_eq_some_iff.mp h
  split at h
  · next hnot =>
    obtain rfl : isRoot = false := by simpa using hnot
    exact .inl ⟨.inl hroot, .eperm, (some.inj h).symm⟩
  next hisRoot =>
  split at h
  · next hsize => exact .inl ⟨.inr (.inl hsize), .einval, (some.inj h).symm⟩
  next hsize =>
  obtain ⟨r', hcreate, h⟩ := bind_eq_some_iff.mp h
  obtain ⟨hfind, rfl⟩ | ⟨hfind, z, ivc, ipa, hbuilt, rfl⟩ := zoneCreate_cases hcreate
  · exact .inl ⟨.inr (.inr hfind), .eexist, (some.inj h).symm⟩
  have hpasses : ¬ s.Refuses caller config configSize := by
    rintro (hfalse | hother | hthere)
    · rw [hroot] at hfalse
      exact hisRoot (by rw [some.inj hfalse]; rfl)
    · exact hsize hother
    · exact hthere hfind
  obtain ⟨bootCpu, hboot, h⟩ := bind_eq_some_iff.mp h
  refine .inr ⟨hpasses, hfind, z, ivc, ipa, bootCpu, hbuilt, hboot, ?_⟩
  rw [powerOn_addZone] at h
  split at h
  · next hon => rw [if_pos hon, some.inj h]
  · next hoff => rw [if_neg hoff, some.inj h]

theorem hvZoneShutdown_cases {caller zoneId : ℕ} (h : hvZoneShutdown s caller zoneId = some r) :
    (∃ e, r = (s, .error e)) ∨ ∃ z, s.findZone zoneId = some z ∧
      r = ({ s.releaseCpus z.zone.cpuSet with
        zones := KeyedList.remove ZoneRef.id zoneId s.zones }, .ok ()) := by
  obtain ⟨isRoot, -, h⟩ := bind_eq_some_iff.mp h
  split at h
  · exact .inl ⟨.eperm, (some.inj h).symm⟩
  split at h
  · exact .inl ⟨.einval, (some.inj h).symm⟩
  split at h
  · exact .inl ⟨.eexist, (some.inj h).symm⟩
  rename_i z hfind
  obtain ⟨-, h⟩ := ite_none_left_eq_some.mp h
  obtain ⟨s₁, hremove, h⟩ := bind_eq_some_iff.mp h
  obtain ⟨z', -, hremove⟩ := bind_eq_some_iff.mp hremove
  obtain ⟨-, hremove⟩ := ite_none_left_eq_some.mp hremove
  cases hremove
  exact .inr ⟨z, hfind, (some.inj h).symm⟩

/-! ## A failed start -/

/-- **When a failed start changes nothing.** A call of `hv_zone_start` that fails leaves the
hypervisor as it was exactly if a test before the creation refuses it. The other failure, a first
cpu that is on, comes when the zone is listed. -/
theorem failed_start_unchanged_iff {caller configSize : ℕ} {e : HvErrorNum}
    (h : hvZoneStart o env s caller config configSize = some (s', .error e)) :
    s' = s ↔ s.Refuses caller config configSize := by
  obtain ⟨hrefuses, e', heq⟩ | ⟨hpasses, -, z, ivc, ipa, bootCpu, -, -, heq⟩ := hvZoneStart_cases h
  · exact iff_of_true (congrArg Prod.fst heq) hrefuses
  · refine iff_of_false (fun hsame => ?_) hpasses
    have hzones : (s.addZone z ivc config.entryPoint.toNat ipa).zones = s.zones :=
      congrArg Hv.zones ((congrArg Prod.fst heq).symm.trans hsame)
    have hlength := congrArg List.length hzones
    rw [Hv.addZone, length_append] at hlength
    exact absurd hlength (Nat.ne_of_gt (Nat.lt_succ_self _))

/-! ## Runs -/

/-- Cpus and zones agree on who belongs to whom. -/
structure Hv.Owned (s : Hv) : Prop where
  disjoint : s.zones.Pairwise fun z z' =>
    ∀ c, ¬(z.zone.cpuSet.containsCpu c = true ∧ z'.zone.cpuSet.containsCpu c = true)
  ids : (s.zones.map ZoneRef.id).Nodup
  owner : ∀ z ∈ s.zones, ∀ c, z.zone.cpuSet.containsCpu c = true ↔ (s.cpus c).zone = some z.ptr

/-- A zone that can be created names cpus that exist and that belong to no zone. -/
def Hv.NamesFreeCpus (s : Hv) (config : HvZoneConfig) : Prop :=
  (s.findZone config.zoneId.toNat).isNone = true →
    ∀ c ∈ config.cpus, c < maxCpuNum ∧ ∀ z ∈ s.zones, z.zone.cpuSet.containsCpu c = false
deriving Decidable

/-- Every zone is given free cpus. -/
def FreeCpus (s : Hv) : HvEvent → Prop
  | .create config _ => s.NamesFreeCpus config
  | .zoneStart _ config _ _ => s.NamesFreeCpus config
  | _ => True

instance (s : Hv) (e : HvEvent) : Decidable (FreeCpus s e) := by
  cases e <;> unfold FreeCpus <;> infer_instance

/-- The invariant: besides, no reference is used twice. -/
structure OwnInv (s : Hv) : Prop where
  ids : (s.zones.map ZoneRef.id).Nodup
  ptrs : (s.zones.map ZoneRef.ptr).Nodup
  zoneFresh : ∀ z ∈ s.zones, z.ptr < s.nextPtr
  cpuFresh : ∀ c ptr, (s.cpus c).zone = some ptr → ptr < s.nextPtr
  owner : ∀ z ∈ s.zones, ∀ c, z.zone.cpuSet.containsCpu c = true ↔ (s.cpus c).zone = some z.ptr

namespace OwnInv

theorem init : OwnInv Hv.init where
  ids := .nil
  ptrs := .nil
  zoneFresh _ hz := absurd hz not_mem_nil
  cpuFresh _ _ h := by cases h
  owner _ hz := absurd hz not_mem_nil

section

variable (h : OwnInv s)

include h

theorem owned : s.Owned where
  __ := h
  disjoint := by
    have hptrs : s.zones.Pairwise fun z z' => z.ptr ≠ z'.ptr := pairwise_map.mp h.ptrs
    refine hptrs.imp_of_mem fun hz hz' hne c hc => hne ?_
    have hown := (h.owner _ hz c).mp hc.1
    have hown' := (h.owner _ hz' c).mp hc.2
    exact some.inj (hown.symm.trans hown')

/-- A step that leaves the zones and the references to them keeps the invariant. -/
theorem congr (hzones : s'.zones = s.zones) (hnext : s'.nextPtr = s.nextPtr)
    (hcpus : ∀ c, (s'.cpus c).zone = (s.cpus c).zone) : OwnInv s' where
  ids := hzones ▸ h.ids
  ptrs := hzones ▸ h.ptrs
  zoneFresh := by
    rw [hzones, hnext]
    exact h.zoneFresh
  cpuFresh := by
    intro c ptr
    rw [hcpus, hnext]
    exact h.cpuFresh c ptr
  owner := by
    intro z hz c
    rw [hcpus]
    exact h.owner z (hzones ▸ hz) c

theorem updateCpu {c : ℕ} {f : PerCpu → PerCpu} (hf : ∀ cpu, (f cpu).zone = cpu.zone) :
    OwnInv (s.updateCpu c f) := by
  exact h.congr rfl rfl ((Function.forall_update_iff s.cpus fun c' cpu =>
    cpu.zone = (s.cpus c').zone).mpr ⟨hf _, fun _ _ => rfl⟩)

theorem addZone (hfind : s.findZone config.zoneId.toNat = none) (hfree : s.NamesFreeCpus config)
    {entry ipa : ℕ} (hbuilt : Built o env s.ivc config z ivc) :
    OwnInv (s.addZone z ivc entry ipa) := by
  have hfree := hfree (by rw [hfind]; rfl)
  have hids := find_eq_none.mp hfind
  refine ⟨?_, ?_, ?_, ?_, ?_⟩
  · exact nodup_concat h.ids fun z' hz' heq => hids z' hz' (heq.trans hbuilt.id)
  · exact nodup_concat h.ptrs fun z' hz' heq => (h.zoneFresh z' hz').ne heq
  · intro z' hz'
    obtain hz' | hz' := mem_append.mp hz'
    · exact (h.zoneFresh z' hz').trans (Nat.lt_succ_self _)
    · obtain rfl := mem_singleton.mp hz'
      exact Nat.lt_succ_self _
  · intro c ptr hptr
    rw [zone_addZone] at hptr
    split at hptr
    · exact some.inj hptr ▸ Nat.lt_succ_self _
    · exact (h.cpuFresh c ptr hptr).trans (Nat.lt_succ_self _)
  · intro z' hz' c
    rw [zone_addZone]
    obtain hz' | hz' := mem_append.mp hz'
    · have hlt := h.zoneFresh z' hz'
      split
      · next hc =>
        have hnot := (hfree c ((hbuilt.cpus c).mp hc)).2 z' hz'
        rw [hnot, some.injEq]
        simp only [Bool.false_eq_true, false_iff]
        omega
      · exact h.owner z' hz' c
    · obtain rfl := mem_singleton.mp hz'
      split
      · next hc => exact ⟨fun _ => rfl, fun _ => hc⟩
      · next hc =>
        refine ⟨fun hc' => absurd hc' hc, fun hptr => ?_⟩
        exact absurd (h.cpuFresh c _ hptr) (Nat.lt_irrefl _)

/-- The cpus of a zone that is removed belong to no other zone. -/
theorem shutdown {zoneId : ℕ} {z : ZoneRef} (hfind : s.findZone zoneId = some z) :
    OwnInv { s.releaseCpus z.zone.cpuSet with
      zones := KeyedList.remove ZoneRef.id zoneId s.zones } := by
  have hz := mem_of_find hfind
  have hsub : (KeyedList.remove ZoneRef.id zoneId s.zones).Sublist s.zones := eraseP_sublist
  refine ⟨h.ids.sublist (hsub.map _), h.ptrs.sublist (hsub.map _), ?_, ?_, ?_⟩
  · exact fun z' hz' => h.zoneFresh z' (hsub.subset hz')
  · intro c ptr hptr
    simp only [Hv.releaseCpus] at hptr
    split at hptr
    · cases hptr
    · exact h.cpuFresh c ptr hptr
  · intro z' hz' c
    obtain ⟨hz', hne⟩ := (mem_remove h.ids).mp hz'
    simp only [Hv.releaseCpus]
    split
    · next hc =>
      -- the cpu points to the removed zone, so it is not in the other one
      have hown := (h.owner z hz c).mp hc
      refine iff_of_false (fun hc' => hne ?_) (by simp)
      have hptr : z'.ptr = z.ptr :=
        some.inj (((h.owner z' hz' c).mp hc').symm.trans hown)
      rw [inj_on_of_nodup_map h.ptrs hz' hz hptr]
      exact key_of_find hfind
    · exact h.owner z' hz' c

theorem step {e : HvEvent} (hfree : FreeCpus s e) (hs : hvStep o s e = some s') : OwnInv s' := by
  cases e with
  | create config env =>
    obtain ⟨r, hr, rfl⟩ := map_eq_some_iff.mp hs
    obtain ⟨-, rfl⟩ | ⟨hfind, z, ivc, ipa, hbuilt, rfl⟩ := zoneCreate_cases hr
    · exact h
    · exact h.addZone hfind hfree hbuilt
  | zoneStart caller config configSize env =>
    obtain ⟨r, hr, rfl⟩ := map_eq_some_iff.mp hs
    obtain ⟨-, e, rfl⟩ | ⟨-, hfind, z, ivc, ipa, bootCpu, hbuilt, -, rfl⟩ := hvZoneStart_cases hr
    · exact h
    · exact h.addZone hfind hfree hbuilt
  | zoneShutdown caller zoneId =>
    obtain ⟨r, hr, rfl⟩ := map_eq_some_iff.mp hs
    obtain ⟨e, rfl⟩ | ⟨z, hfind, rfl⟩ := hvZoneShutdown_cases hr
    · exact h
    · exact h.shutdown hfind
  | cpuOn target entry =>
    cases hs
    refine h.updateCpu fun cpu => ?_
    split <;> rfl
  | cpuRun cpu =>
    obtain ⟨-, rfl⟩ := ite_some_none_eq_some.mp hs
    exact h.updateCpu fun _ => rfl
  | cpuIdle cpu =>
    cases hs
    exact h.updateCpu fun _ => rfl

end

end OwnInv

/-- **Each cpu belongs to at most one zone.** In every run in which new zones are given free cpus,
zones have different numbers and disjoint sets of cpus, and a cpu is in the set of a zone if and
only if it points to the zone. -/
theorem cpus_owned (h : Reach (hvStep o) FreeCpus Hv.init s) : s.Owned :=
  (h.invariant OwnInv OwnInv.init fun _ _ _ hinv hok hs => hinv.step hok hs).owned

/-! ## The root zone and a second one -/

/-- A zone without memory, interrupts and devices. -/
def sampleConfig (zoneId : UInt32) (cpuBits : UInt64) : HvZoneConfig :=
  { (default : HvZoneConfig) with
    zoneId := zoneId
    cpuBits := cpuBits
    entryPoint := 0x40400000
    archConfig :=
      { (default : HvArchZoneConfig) with gicdBase := 0x8000000, gicrBase := 0x80a0000 } }

def sampleEnv : CreateEnv where
  pt := Stage2.MemorySet.sample.pt
  failedPt := Stage2.MemorySet.sample.pt
  alloc := fun _ => 0x50000000
  bars := []

/-- The root zone runs on cpu 0; another zone with cpu 2 is started and shut down, and started
again. -/
theorem cpus_owned_sample :
    ∃ s, Reach (hvStep .panics) FreeCpus Hv.init s ∧
      s.zones.map (fun z => (z.id, z.ptr)) = [(0, 0), (1, 2)] ∧ (s.cpus 2).zone = some 2 ∧
      s.Owned := by
  have hrun : (run (hvStep .panics) FreeCpus Hv.init
      [.create (sampleConfig 0 0b0011) sampleEnv, .cpuRun 0,
        .zoneStart 0 (sampleConfig 1 0b0100) sizeOfHvZoneConfig sampleEnv, .cpuRun 2,
        .zoneShutdown 0 1, .zoneStart 0 (sampleConfig 1 0b0100) sizeOfHvZoneConfig sampleEnv]).map
      (fun s => (s.zones.map (fun z => (z.id, z.ptr)), (s.cpus 2).zone)) =
        some ([(0, 0), (1, 2)], some 2) := by decide +kernel
  obtain ⟨s, hreach, hval⟩ := exists_of_run hrun
  exact ⟨s, hreach, congrArg Prod.fst hval, congrArg Prod.snd hval, cpus_owned hreach⟩

/-- A zone that is started with a cpu of the root zone takes it away; the root zone still has it in
its set. -/
theorem cpu_in_two_zones : (run (hvStep .panics) anyStep Hv.init
      [.create (sampleConfig 0 0b0011) sampleEnv, .cpuRun 0,
        .zoneStart 0 (sampleConfig 1 0b0010) sizeOfHvZoneConfig sampleEnv]).map
      (fun s => (s.zones.map (fun z => (z.ptr, z.zone.cpuSet.containsCpu 1)), (s.cpus 1).zone)) =
        some ([(0, true), (1, true)], some 1) := by
  decide +kernel

/-- The root zone is created on the cpus 0 and 1, and both run. -/
def sampleBoot : List HvEvent :=
  [.create (sampleConfig 0 0b0011) sampleEnv, .cpuRun 0, .cpuRun 1]

/-- A zone with the number of the root zone is not started, and nothing changes. -/
theorem failed_start_unchanged_sample :
    ∃ s s', run (hvStep .panics) anyStep Hv.init sampleBoot = some s ∧
      hvZoneStart .panics sampleEnv s 0 (sampleConfig 0 0b0010) sizeOfHvZoneConfig =
        some (s', .error .eexist) ∧ s' = s := by
  have hrun : ((run (hvStep .panics) anyStep Hv.init sampleBoot).bind fun s =>
      (hvZoneStart .panics sampleEnv s 0 (sampleConfig 0 0b0010) sizeOfHvZoneConfig).map fun r =>
        (r.2, (s.findZone 0).isSome)) = some (.error .eexist, true) := by decide +kernel
  obtain ⟨s, hs, hmap⟩ := bind_eq_some_iff.mp hrun
  obtain ⟨⟨s', res⟩, hr, hval⟩ := map_eq_some_iff.mp hmap
  obtain ⟨rfl, hthere⟩ := Prod.mk.inj hval
  have hrefuses := isSome_iff_ne_none.mp hthere
  exact ⟨s, s', hs, hr, (failed_start_unchanged_iff hr).mpr (.inr (.inr hrefuses))⟩

/-- A zone with the running cpu 1 is not started, but it is listed, and cpu 1 points to it. -/
theorem busy_start_leaves_zone : ((run (hvStep .panics) anyStep Hv.init sampleBoot).bind fun s =>
      (hvZoneStart .panics sampleEnv s 0 (sampleConfig 1 0b0010) sizeOfHvZoneConfig).map fun r =>
        (r.2, (s.zones.length, s.cpus 1), (r.1.zones.length, r.1.cpus 1))) =
      some (.error .ebusy, (1, ⟨0x40400000, invalidAddress, true, some 0, false⟩),
        (2, ⟨0x40400000, invalidAddress, true, some 1, true⟩)) := by
  decide +kernel

end HvisorRux.Zones
