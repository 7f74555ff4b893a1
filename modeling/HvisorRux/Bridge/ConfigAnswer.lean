import HvisorRux.Bridge.RequestRing

/-!
# Configuration accesses and their answers

A cpu recognises the answer to its request only by a change of its counter `cfg_flags[cpu]`. The
daemon increments it for every configuration access, but also for a notification that no device
matches (`virtio_handle_req`, first return). `OwnAnswer` is the intended contract. It fails when a
cpu issues a configuration access while such a notification of its own is still in the ring
(`config_answer_stolen`), and holds in every run in which this never happens.
-/

namespace HvisorRux.Bridge

open Common Function List Option

variable {Cpu δ : Type} {pushed : List (DeviceReq Cpu)} {Q : ℕ → DeviceReq Cpu → Prop}
  {req : DeviceReq Cpu}

/-- The requests for which the daemon increments `cfg_flags[src_cpu]`. -/
def Devices.bumps (d : Devices δ) (req : DeviceReq Cpu) : Bool :=
  !req.needInterrupt || (d.find req).isNone

/-- Every configuration access that has returned, returned after the daemon processed its own
request, and a read returned the value the daemon computed for that request. -/
def OwnAnswer (s : State Cpu δ) : Prop :=
  ∀ c mmio k value, s.vcpu c = .done mmio k value → mmio.isNotify = false →
    k < s.handled.length ∧ s.handled[k]? = some (mmio.request c) ∧
      (mmio.isWrite = false → value = s.answers[k]?)

/-- The side condition: a cpu reads its counter for a configuration access only when none of its own
notifications that the daemon has still to process is unmatched. -/
def NoStrayNotify [DecidableEq Cpu] (d : Devices δ) (s : State Cpu δ) (e : Event Cpu δ) : Prop :=
  match e with
  | .vcpu c =>
    match s.vcpu c with
    | .readFlag mmio => mmio.isNotify = false →
        ∀ r ∈ s.pushed.drop s.handled.length, r.srcCpu = c → r.needInterrupt = true →
          (d.find r).isSome
    | _ => True
  | _ => True

instance [DecidableEq Cpu] (d : Devices δ) (s : State Cpu δ) (e : Event Cpu δ) :
    Decidable (NoStrayNotify d s e) := by
  unfold NoStrayNotify
  split
  · split <;> infer_instance
  · infer_instance

/-! ## The invariant -/

/-- Every request of cpu `c` from position `n` of the history on satisfies `Q`. -/
def FromOn (pushed : List (DeviceReq Cpu)) (n : ℕ) (c : Cpu) (Q : ℕ → DeviceReq Cpu → Prop) :
    Prop :=
  ∀ j r, n ≤ j → pushed[j]? = some r → r.srcCpu = c → Q j r

theorem FromOn.mono {n n' : ℕ} {c : Cpu} {Q' : ℕ → DeviceReq Cpu → Prop} (h : FromOn pushed n c Q)
    (hn : n ≤ n') (hQ : ∀ j r, n' ≤ j → Q j r → Q' j r) : FromOn pushed n' c Q' :=
  fun j r hj hr hc => hQ j r hj (h j r (hn.trans hj) hr hc)

/-- A push of another cpu adds nothing to check. -/
theorem FromOn.push {n : ℕ} {c : Cpu} (h : FromOn pushed n c Q)
    (hreq : req.srcCpu = c → Q pushed.length req) : FromOn (pushed ++ [req]) n c Q := by
  intro j r hj hr hc
  by_cases hlt : j < pushed.length
  · rw [getElem?_append_left hlt] at hr
    exact h j r hj hr hc
  · rw [getElem?_append_right (by omega)] at hr
    obtain ⟨hj0, rfl⟩ : j - pushed.length = 0 ∧ req = r := by
      simpa [getElem?_singleton] using hr
    obtain rfl : j = pushed.length := by omega
    exact hreq hc

/-- The wait of cpu `c` for the answer to its request, the `k`-th of the history, when `n` requests
are handled: either the counter is unchanged and only the cpu's own request can change it, or it
has been incremented exactly once and the cpu's value is the answer. -/
def Waiting (d : Devices δ) (pushed : List (DeviceReq Cpu)) (n : ℕ) (answers : List UInt64)
    (flag value : UInt64) (c : Cpu) (mmio : MMIOAccess) (old : UInt64) (k : ℕ) : Prop :=
  pushed[k]? = some (mmio.request c) ∧
    ((n ≤ k ∧ flag = old ∧ FromOn pushed n c fun j r => j = k ∨ d.bumps r = false) ∨
      (k < n ∧ flag = old + 1 ∧ answers[k]? = some value ∧
        FromOn pushed n c fun _ r => d.bumps r = false))

/-- What is known about a cpu at each program point, from the histories (`n` requests handled) and
the cpu's own counter and value. -/
def CpuInv (d : Devices δ) (pushed : List (DeviceReq Cpu)) (n : ℕ) (answers : List UInt64)
    (flag value : UInt64) (c : Cpu) : VcpuPc → Prop
  | .write mmio old | .publish mmio old =>
    FromOn pushed n c (fun _ r => r.needInterrupt = true) ∧
      (mmio.isNotify = false → flag = old ∧ FromOn pushed n c fun _ r => d.bumps r = false)
  | .wakeup mmio old k | .unlock mmio old k =>
    (mmio.isNotify = true → FromOn pushed n c fun _ r => r.needInterrupt = true) ∧
      (mmio.isNotify = false → Waiting d pushed n answers flag value c mmio old k)
  | .spin mmio old k =>
    mmio.isNotify = false ∧ Waiting d pushed n answers flag value c mmio old k
  | .readValue mmio k =>
    pushed[k]? = some (mmio.request c) ∧ k < n ∧ answers[k]? = some value ∧
      FromOn pushed n c fun _ r => d.bumps r = false
  | .done mmio k result =>
    FromOn pushed n c (fun _ r => r.needInterrupt = true) ∧
      (mmio.isNotify = false → pushed[k]? = some (mmio.request c) ∧ k < n ∧
        (mmio.isWrite = false → result = answers[k]?))
  | _ => FromOn pushed n c fun _ r => r.needInterrupt = true

/-- What is known while the daemon stores an answer: the request it works on increments the counter,
and after the first store its cpu's value is the answer. -/
def DaemonInv (d : Devices δ) (cur : DeviceReq Cpu) (values : Cpu → UInt64) : DaemonPc → Prop
  | .setValue _ => d.bumps cur = true
  | .setFlag value => d.bumps cur = true ∧ values cur.srcCpu = value
  | _ => True

/-- The invariant of answer matching, on top of the ring invariant. -/
structure AnswerInv (d : Devices δ) (s : State Cpu δ) : Prop where
  ring : RingInv s
  cpu : ∀ c, CpuInv d s.pushed s.handled.length s.answers (s.bridge.cfgFlags c)
    (s.bridge.cfgValues c) c (s.vcpu c)
  daemon : DaemonInv d s.current s.bridge.cfgValues s.daemon

/-- A request that increments no counter is a notification. -/
theorem Devices.needInterrupt_of_bumps {d : Devices δ} {r : DeviceReq Cpu}
    (h : d.bumps r = false) : r.needInterrupt = true := by
  simp only [bumps, Bool.or_eq_false_iff, Bool.not_eq_false'] at h
  exact h.1

theorem AnswerInv.init (d : Devices δ) (unused : DeviceReq Cpu) (dev : δ) :
    AnswerInv d (init unused dev) where
  ring := RingInv.init unused dev
  cpu := fun _ j r _ hr => by simp [Bridge.init] at hr
  daemon := trivial

/-- In a state that satisfies the invariant every returned access has its own answer. -/
theorem AnswerInv.ownAnswer {d : Devices δ} {s : State Cpu δ} (h : AnswerInv d s) :
    OwnAnswer s := by
  intro c mmio k value hc hn
  have hcpu := h.cpu c
  rw [hc] at hcpu
  obtain ⟨hk, hlt, hval⟩ := hcpu.2 hn
  obtain ⟨rest, hrest⟩ := h.ring.handled_prefix
  rw [← hrest, getElem?_append_left hlt] at hk
  exact ⟨hlt, hk, hval⟩

/-! ## Steps of a cpu -/

section Steps

variable [DecidableEq Cpu] {d : Devices δ} {s s' : State Cpu δ} {c : Cpu} {pc : VcpuPc}
  {value : UInt64} {mmio : MMIOAccess}

omit [DecidableEq Cpu] in
/-- The request the daemon looks at is the next one of the history. -/
theorem AnswerInv.current_getElem? (h : AnswerInv d s) (hbusy : s.daemon.busy)
    (hne : s.daemon ≠ .advance) : s.pushed[s.handled.length]? = some s.current := by
  have hlt := h.ring.busy hbusy
  rw [h.ring.current_eq hlt, ← State.frontPos_of_ne hne]
  exact getElem?_eq_getElem hlt

omit [DecidableEq Cpu] in
/-- While the daemon works on a request, no push changes what it sees. -/
theorem RingInv.current_stable (h : RingInv s) (h' : RingInv s') (hdaemon : s'.daemon = s.daemon)
    (hhandled : s'.handled = s.handled) (hpushed : s.pushed <+: s'.pushed)
    (hbusy : s.daemon.busy) : s'.current = s.current := by
  have hpos : s'.frontPos = s.frontPos := by
    unfold State.frontPos
    rw [hdaemon, hhandled]
  have hlt := h.busy hbusy
  have hlt' : s'.frontPos < s'.pushed.length := h'.busy (hdaemon ▸ hbusy)
  rw [h.current_eq hlt, h'.current_eq hlt', hpushed.getElem hlt]
  simp only [hpos]

omit [DecidableEq Cpu] in
/-- A step that the daemon takes no part in keeps the invariant when it keeps it for every cpu. -/
theorem AnswerInv.of_cpus (h : AnswerInv d s) (hring : RingInv s') (hdaemon : s'.daemon = s.daemon)
    (hhandled : s'.handled = s.handled) (hpushed : s.pushed <+: s'.pushed)
    (hvalues : s'.bridge.cfgValues = s.bridge.cfgValues)
    (hcpu : ∀ c, CpuInv d s'.pushed s'.handled.length s'.answers (s'.bridge.cfgFlags c)
      (s'.bridge.cfgValues c) c (s'.vcpu c)) : AnswerInv d s' := by
  refine ⟨hring, hcpu, ?_⟩
  have hcur := h.ring.current_stable hring hdaemon hhandled hpushed
  have hd := h.daemon
  rw [hdaemon, hvalues]
  cases hpc : s.daemon <;> rw [hpc] at hd hcur <;> first
    | trivial
    | (rw [hcur trivial]; exact hd)

/-- Moving cpu `c` to a program point whose part of the invariant is known. -/
theorem AnswerInv.move (h : AnswerInv d s) {l : Option Cpu} {w : Bool} {b : VirtioBridge Cpu}
    (hring : RingInv ({ s with bridge := b, lock := l, wakePending := w }.setPc c pc))
    (hflags : b.cfgFlags = s.bridge.cfgFlags) (hvalues : b.cfgValues = s.bridge.cfgValues)
    (hcpu : CpuInv d s.pushed s.handled.length s.answers (s.bridge.cfgFlags c)
      (s.bridge.cfgValues c) c pc) :
    AnswerInv d ({ s with bridge := b, lock := l, wakePending := w }.setPc c pc) := by
  refine h.of_cpus hring rfl rfl (prefix_refl _) hvalues ?_
  exact (forall_update_iff s.vcpu fun c' => CpuInv d s.pushed s.handled.length s.answers
    (b.cfgFlags c') (b.cfgValues c') c').mpr
      ⟨hflags ▸ hvalues ▸ hcpu, fun c' _ => hflags ▸ hvalues ▸ h.cpu c'⟩

omit [DecidableEq Cpu] in
/-- A push of another cpu keeps what is known about cpu `c`. -/
theorem CpuInv.push {n : ℕ} {answers : List UInt64} {flag : UInt64}
    (h : CpuInv d pushed n answers flag value c pc) (hreq : req.srcCpu ≠ c) :
    CpuInv d (pushed ++ [req]) n answers flag value c pc := by
  have hpush : ∀ {Q : ℕ → DeviceReq Cpu → Prop}, FromOn pushed n c Q →
      FromOn (pushed ++ [req]) n c Q := fun hQ => hQ.push fun heq => absurd heq hreq
  have hget : ∀ {k : ℕ} {r : DeviceReq Cpu}, pushed[k]? = some r →
      (pushed ++ [req])[k]? = some r := by
    intro k r hk
    rw [getElem?_append_left (List.getElem?_eq_some_iff.mp hk).1]
    exact hk
  have hwait : ∀ {mmio : MMIOAccess} {old : UInt64} {k : ℕ},
      Waiting d pushed n answers flag value c mmio old k →
        Waiting d (pushed ++ [req]) n answers flag value c mmio old k := by
    rintro mmio old k ⟨hk, ⟨hle, hflag, hQ⟩ | ⟨hlt, hflag, hval, hQ⟩⟩
    · exact ⟨hget hk, .inl ⟨hle, hflag, hpush hQ⟩⟩
    · exact ⟨hget hk, .inr ⟨hlt, hflag, hval, hpush hQ⟩⟩
  cases pc with
  | guest | lock _ | check _ | readFlag _ => exact hpush h
  | write _ _ | publish _ _ => exact ⟨hpush h.1, fun hn => ⟨(h.2 hn).1, hpush (h.2 hn).2⟩⟩
  | wakeup _ _ _ | unlock _ _ _ => exact ⟨fun hn => hpush (h.1 hn), fun hn => hwait (h.2 hn)⟩
  | spin _ _ _ => exact ⟨h.1, hwait h.2⟩
  | readValue _ _ => exact ⟨hget h.1, h.2.1, h.2.2.1, hpush h.2.2.2⟩
  | done _ _ _ =>
    refine ⟨hpush h.1, ?_⟩
    intro hn
    obtain ⟨hk, hrest⟩ := h.2 hn
    exact ⟨hget hk, hrest⟩

/-- Publishing a request starts the wait for its answer. -/
theorem AnswerInv.publishReq (h : AnswerInv d s) {old : UInt64}
    (hc : s.vcpu c = .publish mmio old) :
    AnswerInv d ({ s with
      bridge := s.bridge.publishReq
      pushed := s.pushed ++ [mmio.request c] }.setPc c (.wakeup mmio old s.pushed.length)) := by
  refine h.of_cpus (h.ring.publishReq hc) rfl rfl (prefix_append _ _) rfl ?_
  intro c'
  show CpuInv d (s.pushed ++ [mmio.request c]) s.handled.length s.answers (s.bridge.cfgFlags c')
    (s.bridge.cfgValues c') c' (update s.vcpu c (.wakeup mmio old s.pushed.length) c')
  by_cases hcc : c' = c
  · subst hcc
    rw [update_self]
    have hcpu := h.cpu c'
    rw [hc] at hcpu
    refine ⟨fun hn => hcpu.1.push fun _ => hn, fun hn => ⟨by simp, .inl ?_⟩⟩
    obtain ⟨hflag, hquiet⟩ := hcpu.2 hn
    refine ⟨h.ring.handled_prefix.length_le, hflag, ?_⟩
    exact (hquiet.mono le_rfl fun _ _ _ hq => .inr hq).push fun _ => .inl rfl
  · rw [update_of_ne hcc]
    exact (h.cpu c').push (Ne.symm hcc)

/-- Every step of `mmio_virtio_handler` that meets the side condition keeps the invariant. -/
theorem AnswerInv.vcpuStep (h : AnswerInv d s) (hok : NoStrayNotify d s (.vcpu c))
    (hs : vcpuStep s c = some s') : AnswerInv d s' := by
  have hring := h.ring.vcpuStep hs
  have hcpu := h.cpu c
  unfold Bridge.vcpuStep at hs
  split at hs
  case h_1 => contradiction
  case h_2 mmio hc =>
    rw [hc] at hcpu
    split at hs
    · cases hs; exact h.move hring rfl rfl hcpu
    · contradiction
  case h_3 mmio hc =>
    rw [hc] at hcpu
    split at hs <;> cases hs <;> exact h.move hring rfl rfl hcpu
  case h_4 mmio hc =>
    rw [hc] at hcpu
    cases hs
    -- the side condition is needed here: the counter that is read must be the cpu's own
    refine h.move hring rfl rfl ⟨hcpu, fun hn => ⟨rfl, ?_⟩⟩
    intro j r hj hr hrc
    simp only [NoStrayNotify, hc] at hok
    have hmem : r ∈ s.pushed.drop s.handled.length := by
      refine mem_iff_getElem?.mpr ⟨j - s.handled.length, ?_⟩
      rw [getElem?_drop, Nat.add_sub_cancel' hj]
      exact hr
    have hint := hcpu j r hj hr hrc
    have hfound := hok hn r hmem hrc hint
    rw [Devices.bumps, hint, isNone_eq_false_iff.mpr hfound]
    rfl
  case h_5 mmio old hc | h_7 mmio old k hc =>
    rw [hc] at hcpu; cases hs; exact h.move hring rfl rfl hcpu
  case h_6 mmio old hc => cases hs; exact h.publishReq hc
  case h_8 mmio old k hc =>
    rw [hc] at hcpu
    cases hs
    apply h.move hring rfl rfl
    cases hn : mmio.isNotify with
    | true => exact ⟨hcpu.1 hn, fun hf => absurd (hn.symm.trans hf) (by simp)⟩
    | false => exact ⟨hn, hcpu.2 hn⟩
  case h_9 mmio old k hc =>
    rw [hc] at hcpu
    rcases hcpu with ⟨-, hk, hwait⟩
    split at hs
    · cases hs; exact h
    rename_i hchanged
    cases hs
    rcases hwait with ⟨-, hflag, -⟩ | ⟨hlt, -, hval, hquiet⟩
    · exact absurd hflag hchanged
    apply h.move hring rfl rfl
    cases hw : mmio.isWrite with
    | true =>
      refine ⟨hquiet.mono le_rfl fun _ _ _ hq => Devices.needInterrupt_of_bumps hq, ?_⟩
      intro _
      exact ⟨hk, hlt, fun hf => absurd (hw.symm.trans hf) (by simp)⟩
    | false => exact ⟨hk, hlt, hval, hquiet⟩
  case h_10 mmio k hc =>
    rw [hc] at hcpu
    cases hs
    rcases hcpu with ⟨hk, hlt, hval, hquiet⟩
    refine h.move hring rfl rfl ⟨?_, fun _ => ⟨hk, hlt, fun _ => hval.symm⟩⟩
    exact hquiet.mono le_rfl fun _ _ _ hq => Devices.needInterrupt_of_bumps hq
  case h_11 => contradiction

/-! ## Steps of the daemon -/

section Answer

variable {pushed : List (DeviceReq Cpu)} {n : ℕ} {answers : List UInt64} {flag value v : UInt64}
  {cur : DeviceReq Cpu}

omit [DecidableEq Cpu] in
theorem FromOn.succ (hQ : FromOn pushed n c Q) : FromOn pushed (n + 1) c Q :=
  hQ.mono (Nat.le_succ n) fun _ _ _ hq => hq

/-- A cpu none of whose requests increments the counter keeps it. -/
theorem FromOn.flag_eq (hQ : FromOn pushed n c fun _ r => d.bumps r = false)
    (hcur : pushed[n]? = some cur) :
    (if cur.srcCpu = c ∧ d.bumps cur = true then flag + 1 else flag) = flag := by
  rw [if_neg]
  rintro ⟨hcc, hb⟩
  exact absurd ((hQ n cur le_rfl hcur hcc).symm.trans hb) (by simp)

/-- Processing the next request `cur` of the history, answered with `v`, either ends the wait of
cpu `c` or leaves it waiting. -/
theorem Waiting.answer {old : UInt64} {k : ℕ}
    (h : Waiting d pushed n answers flag value c mmio old k) (hn : mmio.isNotify = false)
    (hlen : answers.length = n) (hcur : pushed[n]? = some cur)
    (hv : cur.srcCpu = c → d.bumps cur = true → value = v) :
    Waiting d pushed (n + 1) (answers ++ [v])
      (if cur.srcCpu = c ∧ d.bumps cur = true then flag + 1 else flag) value c mmio old k := by
  rcases h with ⟨hk, ⟨hle, hflag, hQ⟩ | ⟨hlt, hflag, hval, hQ⟩⟩
  · refine ⟨hk, ?_⟩
    by_cases hbump : cur.srcCpu = c ∧ d.bumps cur = true
    · -- the cpu's own request has been answered
      rcases hbump with ⟨hcc, hb⟩
      obtain rfl : n = k := (hQ n cur le_rfl hcur hcc).resolve_right
        fun hf => absurd (hf.symm.trans hb) (by simp)
      rw [if_pos ⟨hcc, hb⟩, hflag, hv hcc hb]
      refine .inr ⟨Nat.lt_succ_self n, rfl, by simp [hlen], ?_⟩
      exact hQ.mono (Nat.le_succ n) fun j r hj hq => hq.resolve_left (by omega)
    · rw [if_neg hbump, hflag]
      have hne : n ≠ k := by
        rintro rfl
        obtain rfl : cur = mmio.request c := some.inj (hcur.symm.trans hk)
        exact hbump ⟨rfl, by simp [Devices.bumps, MMIOAccess.request, hn]⟩
      exact .inl ⟨by omega, rfl, hQ.succ⟩
  · rw [hQ.flag_eq hcur]
    refine ⟨hk, .inr ⟨by omega, hflag, ?_, hQ.succ⟩⟩
    rw [getElem?_append_left (hlen.symm ▸ hlt)]
    exact hval

/-- The end of `virtio_handle_req` for the next request `cur` of the history, answered with `v`:
what is known about cpu `c` with its counter incremented iff the request is its own and increments
it. -/
theorem CpuInv.answer (h : CpuInv d pushed n answers flag value c pc) (hlen : answers.length = n)
    (hcur : pushed[n]? = some cur) (hv : cur.srcCpu = c → d.bumps cur = true → value = v) :
    CpuInv d pushed (n + 1) (answers ++ [v])
      (if cur.srcCpu = c ∧ d.bumps cur = true then flag + 1 else flag) value c pc := by
  have hanswer : ∀ {k : ℕ} {o : Option UInt64}, k < n → answers[k]? = o →
      (answers ++ [v])[k]? = o := by
    intro k o hk ho
    rw [getElem?_append_left (hlen.symm ▸ hk)]
    exact ho
  cases pc with
  | guest | lock _ | check _ | readFlag _ => exact FromOn.succ h
  | write _ _ | publish _ _ =>
    refine ⟨h.1.succ, ?_⟩
    intro hn
    obtain ⟨hflag, hQ⟩ := h.2 hn
    exact ⟨(hQ.flag_eq hcur).trans hflag, hQ.succ⟩
  | wakeup _ _ _ | unlock _ _ _ =>
    exact ⟨fun hn => (h.1 hn).succ, fun hn => (h.2 hn).answer hn hlen hcur hv⟩
  | spin _ _ _ => exact ⟨h.1, h.2.answer h.1 hlen hcur hv⟩
  | readValue _ _ =>
    rcases h with ⟨hk, hlt, hval, hQ⟩
    exact ⟨hk, by omega, hanswer hlt hval, hQ.succ⟩
  | done _ _ _ =>
    refine ⟨h.1.succ, ?_⟩
    intro hn
    obtain ⟨hk, hlt, hval⟩ := h.2 hn
    exact ⟨hk, by omega, fun hw => (hval hw).trans (hanswer hlt rfl).symm⟩

omit [DecidableEq Cpu] in
/-- Storing an answer for another request touches no value a cpu still has to read. -/
theorem CpuInv.setValue (h : CpuInv d pushed n answers flag value c pc)
    (hcur : pushed[n]? = some cur) (hc : cur.srcCpu = c) (hb : d.bumps cur = true) :
    CpuInv d pushed n answers flag v c pc := by
  have hno : ¬ FromOn pushed n c fun _ r => d.bumps r = false := fun hQ =>
    absurd ((hQ n cur le_rfl hcur hc).symm.trans hb) (by simp)
  have hwait : ∀ {mmio : MMIOAccess} {old : UInt64} {k : ℕ},
      Waiting d pushed n answers flag value c mmio old k →
        Waiting d pushed n answers flag v c mmio old k := by
    rintro mmio old k ⟨hk, hcase⟩
    exact ⟨hk, .inl (hcase.resolve_right fun hans => hno hans.2.2.2)⟩
  cases pc with
  | wakeup _ _ _ | unlock _ _ _ => exact ⟨h.1, fun hn => hwait (h.2 hn)⟩
  | spin _ _ _ => exact ⟨h.1, hwait h.2⟩
  | readValue _ _ => exact absurd h.2.2.2 hno
  | _ => exact h

end Answer

section

variable (h : AnswerInv d s)

include h

/-- `virtio_handle_req` either answers the notification of a device it knows, which increments no
counter, or goes on to store the answer of a request that does. -/
theorem AnswerInv.handleReq (hpc : s.daemon = .handle) (hring : RingInv (handleReq d s)) :
    AnswerInv d (handleReq d s) := by
  have hcur := h.current_getElem? (by rw [hpc]; trivial) (by rw [hpc]; simp)
  unfold Bridge.handleReq at hring ⊢
  split
  · next hfind =>
    rw [hfind] at hring
    have hb : d.bumps s.current = true := by simp [Devices.bumps, hfind]
    exact ⟨hring, h.cpu, hb⟩
  rename_i i hfind
  rw [hfind] at hring
  dsimp only at hring ⊢
  split
  · next hint =>
    rw [if_pos hint] at hring
    have hb : d.bumps s.current = false := by simp [Devices.bumps, hint, hfind]
    refine ⟨hring, ?_, trivial⟩
    intro c
    have hans := fun v => (h.cpu c).answer (v := v) h.ring.answers_length hcur
      fun _ hb' => absurd (hb.symm.trans hb') (by simp)
    simp only [hb, Bool.false_eq_true, and_false, if_false] at hans
    rw [length_append]
    exact hans _
  · next hint =>
    rw [if_neg hint] at hring
    have hb : d.bumps s.current = true := by simp [Devices.bumps, hint]
    exact ⟨hring, h.cpu, hb⟩

/-- The store to `cfg_values` goes to the cpu whose request is being answered. -/
theorem AnswerInv.setValue (hpc : s.daemon = .setValue value)
    (hs : daemonStep d s = some s') : AnswerInv d s' := by
  have hring := h.ring.daemonStep hs
  have hcur := h.current_getElem? (by rw [hpc]; trivial) (by rw [hpc]; simp)
  have hb := h.daemon
  simp only [Bridge.daemonStep, hpc] at hs
  rw [hpc] at hb
  cases hs
  refine ⟨hring, ?_, hb, update_self _ _ _⟩
  intro c
  by_cases hcc : s.current.srcCpu = c
  · exact (h.cpu c).setValue hcur hcc hb
  · show CpuInv d _ _ _ _ (update s.bridge.cfgValues s.current.srcCpu value c) c _
    rw [update_of_ne (Ne.symm hcc)]
    exact h.cpu c

/-- The increment of `cfg_flags` answers the request with the value stored before. -/
theorem AnswerInv.setFlag (hpc : s.daemon = .setFlag value)
    (hs : daemonStep d s = some s') : AnswerInv d s' := by
  have hring := h.ring.daemonStep hs
  have hcur := h.current_getElem? (by rw [hpc]; trivial) (by rw [hpc]; simp)
  have hd := h.daemon
  simp only [Bridge.daemonStep, hpc] at hs
  rw [hpc] at hd
  rcases hd with ⟨hb, hval⟩
  cases hs
  refine ⟨hring, ?_, trivial⟩
  intro c
  have hans := (h.cpu c).answer (v := value) h.ring.answers_length hcur fun hcc _ => hcc ▸ hval
  by_cases hcc : s.current.srcCpu = c
  · subst hcc
    rw [if_pos ⟨rfl, hb⟩] at hans
    simpa [update_self] using hans
  · rw [if_neg fun hand => hcc hand.1] at hans
    simpa [update_of_ne (Ne.symm hcc)] using hans

/-- Every step of `handle_virtio_requests` keeps the invariant. -/
theorem AnswerInv.daemonStep (hs : daemonStep d s = some s') : AnswerInv d s' := by
  have hring := h.ring.daemonStep hs
  have hstep := hs
  unfold Bridge.daemonStep at hs
  split at hs
  case h_1 | h_4 | h_8 | h_10 => cases hs; exact ⟨hring, h.cpu, trivial⟩
  case h_2 =>
    split at hs
    · cases hs; exact ⟨hring, h.cpu, trivial⟩
    · contradiction
  case h_3 =>
    cases hs
    refine ⟨hring, h.cpu, ?_⟩
    show DaemonInv d _ _ (if isQueueEmpty s.localFront s.bridge.reqRear then .idle else .clear)
    split <;> trivial
  case h_5 hpc => cases hs; exact h.handleReq hpc hring
  case h_6 value hpc => exact h.setValue hpc hstep
  case h_7 value hpc => exact h.setFlag hpc hstep
  case h_9 => contradiction
  case h_11 =>
    cases hs
    refine ⟨hring, h.cpu, ?_⟩
    show DaemonInv d _ _ (if isQueueEmpty s.localFront s.bridge.reqRear then .sigwait else .poll)
    split <;> trivial

end

/-! ## Whole runs -/

/-- Every step of the system that meets the side condition keeps the invariant. -/
theorem AnswerInv.step (h : AnswerInv d s) {e : Event Cpu δ} (hok : NoStrayNotify d s e)
    (hs : step d s e = some s') : AnswerInv d s' := by
  have hring := h.ring.step hs
  cases e with
  | access c mmio =>
    obtain ⟨hc, rfl⟩ := ite_some_none_eq_some.mp hs
    have hcpu := h.cpu c
    rw [hc] at hcpu
    exact h.move hring rfl rfl hcpu
  | vcpu c => exact h.vcpuStep hok hs
  | resume c =>
    have hcpu := h.cpu c
    simp only [Bridge.step] at hs
    split at hs
    · next hc =>
      cases hs
      rw [hc] at hcpu
      exact h.move hring rfl rfl hcpu.1
    · contradiction
  | daemon => exact h.daemonStep hs
  | timer expired =>
    obtain ⟨-, rfl⟩ := ite_some_none_eq_some.mp hs
    refine ⟨hring, h.cpu, ?_⟩
    show DaemonInv d _ _ (if expired then .arm else .poll)
    split <;> trivial
  | device dev => cases hs; exact ⟨hring, h.cpu, h.daemon⟩

/-- **Configuration accesses get their own answer**, for any number of cpus and any interleaving in
which no cpu reads its counter for a configuration access while an unmatched notification of its
own is still to be processed. -/
theorem config_answer_own (d : Devices δ) (unused : DeviceReq Cpu) (dev : δ) (s : State Cpu δ)
    (h : Reach (Bridge.step d) (NoStrayNotify d) (Bridge.init unused dev) s) : OwnAnswer s :=
  (h.invariant (AnswerInv d) (AnswerInv.init d unused dev)
    fun _ _ _ hinv hok hs => hinv.step hok hs).ownAnswer

end Steps

/-! ## A stolen answer -/

/-- The cpu notifies an address at which no device is configured, goes on, and reads a register
while the notification is still in the ring. The daemon's answer to the notification changes the
cpu's counter before the daemon has looked at the read. -/
def stolenSchedule : List (Event Unit Unit) :=
  [.daemon] ++ sampleAccess (sampleNotify 0xa004000) ++ [.resume ()] ++ sampleAccess sampleRead ++
    List.replicate 6 .daemon ++ [.vcpu (), .vcpu ()]

/-- Without the side condition a read returns before its request is processed, with the value of the
stray notification. -/
theorem config_answer_stolen :
    ¬ ∀ s, Reach (Bridge.step sampleDevices) anyStep sampleInit s → OwnAnswer s := by
  intro h
  have hrun : ∃ s, run (Bridge.step sampleDevices) anyStep sampleInit stolenSchedule = some s ∧
      s.vcpu () = .done sampleRead 1 (some virtMagic) ∧ s.handled.length = 1 :=
    ⟨_, rfl, rfl, rfl⟩
  rcases hrun with ⟨s, hs, hc, hlen⟩
  obtain ⟨hlt, -⟩ := h s (reach_of_run hs) () sampleRead 1 (some virtMagic) hc rfl
  omega

/-- The same read after the daemon has emptied the ring: the run meets the side condition and the
read returns the register. -/
theorem config_answer_own_sample :
    ∃ s : State Unit Unit, s.vcpu () = .done sampleRead 1 (some 7) ∧ OwnAnswer s := by
  have hrun : ∃ s, run (Bridge.step sampleDevices) (NoStrayNotify sampleDevices) sampleInit
      ([.daemon] ++ sampleAccess (sampleNotify 0xa004000) ++ [.resume ()] ++
        List.replicate 7 .daemon ++ sampleAccess sampleRead ++ List.replicate 6 .daemon ++
        [.vcpu (), .vcpu ()]) = some s ∧ s.vcpu () = .done sampleRead 1 (some 7) :=
    ⟨_, rfl, rfl⟩
  rcases hrun with ⟨s, hs, hc⟩
  exact ⟨s, hc, config_answer_own _ _ _ s (reach_of_run hs)⟩

end HvisorRux.Bridge
