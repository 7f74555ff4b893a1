import HvisorRux.Zones.IvcSections
import HvisorRux.Zones.Ownership

/-!
# Accesses to a control table

`mmio_ivc_handler` looks up the zone in `IVC_INFOS`, the table in what it finds, the record in
`IVC_RECORDS` and, for the peer id, the zone among the peers of the record; it unwraps every result.
The tables are filled by `ivc_init` and outlive the zones.

The searches succeed if no configuration of a zone is refused after another one was accepted, since
then the zone gets no entry in `IVC_INFOS` although a table is registered, and if no zone takes over
the peer id of one that is alive.
-/

namespace HvisorRux.Zones

open Common Option OrdMap

/-! ## The condition -/

section

variable (o : Overflow) (alloc : ℕ → ℕ) (zoneId : ℕ)

/-- All configurations are accepted. -/
def allAccepted : IvcTables → List HvIvcConfig → Bool
  | _, [] => true
  | t, c :: cs =>
    match insertIvcRecord o alloc t c zoneId with
    | some (.ok (t', _)) => allAccepted t' cs
    | _ => false

/-- All configurations are accepted, or already the first one is refused. -/
def allOrNone (t : IvcTables) (configs : List HvIvcConfig) : Bool :=
  allAccepted o alloc zoneId t configs ||
    (configs.head?.all fun c => insertIvcRecord o alloc t c zoneId == some (.error ()))

/-- The peer id is not that of another zone that is alive. -/
def sparesPeer (alive : ℕ → Bool) (t : IvcTables) (c : HvIvcConfig) : Bool :=
  (t.records.get? c.ivcId.toNat).all fun rec =>
    (rec.peerInfos.get? c.peerId.toNat).all fun info =>
      decide (info.zoneId = zoneId) || !alive info.zoneId

/-- No accepted configuration takes over the peer id of another zone that is alive. -/
def sparesPeers (alive : ℕ → Bool) : IvcTables → List HvIvcConfig → Bool
  | _, [] => true
  | t, c :: cs =>
    match insertIvcRecord o alloc t c zoneId with
    | some (.ok (t', _)) => sparesPeer zoneId alive t c && sparesPeers alive t' cs
    | _ => true

end

def Hv.alive (s : Hv) (zoneId : ℕ) : Bool := (s.findZone zoneId).isSome

/-- The configurations of a zone that can be created are accepted as a whole or not at all, and take
no peer id from a zone that is alive. -/
def Hv.IvcFits (o : Overflow) (s : Hv) (config : HvZoneConfig) (env : CreateEnv) : Prop :=
  s.alive config.zoneId.toNat = false → ∀ configs ∈ config.ivcConfig,
    allOrNone o env.alloc config.zoneId.toNat s.ivc configs = true ∧
    sparesPeers o env.alloc config.zoneId.toNat s.alive s.ivc configs = true
deriving Decidable

/-- The configurations of every zone fit. -/
def IvcFit (o : Overflow) (s : Hv) : HvEvent → Prop
  | .create config env => s.IvcFits o config env
  | .zoneStart _ config _ env => s.IvcFits o config env
  | _ => True

instance (o : Overflow) (s : Hv) (e : HvEvent) : Decidable (IvcFit o s e) :=
  match e with
  | .create _ _ | .zoneStart _ _ _ _ => inferInstanceAs (Decidable (Hv.IvcFits _ _ _ _))
  | .zoneShutdown _ _ | .cpuOn _ _ | .cpuRun _ | .cpuIdle _ => isTrue trivial

/-! ## Peers -/

/-- The zone is a peer in the record. -/
def HasPeer (t : IvcTables) (ivcId zoneId : ℕ) : Prop :=
  ∃ rec, t.records.get? ivcId = some rec ∧ ∃ p ∈ rec.peerInfos, p.2.zoneId = zoneId

section

variable {o : Overflow} {alloc : ℕ → ℕ} {c : HvIvcConfig} {s s' : IvcState} {ivcId zoneId : ℕ}

theorem Accepted.hasPeer (h : Accepted o alloc c s s') :
    HasPeer s'.tables c.ivcId.toNat s.zone.id := by
  obtain ⟨rec, -, htables, -⟩ := h.joined
  refine ⟨rec.addPeer c s.zone.id, ?_, (c.peerId.toNat, _), mem_insert.mpr (.inl rfl), rfl⟩
  rw [htables, IvcTables.setRecord, get?_insert, if_pos rfl]

/-- A zone stays a peer unless another one takes over its peer id. -/
theorem HasPeer.accepted (h : HasPeer s.tables ivcId zoneId) (hacc : Accepted o alloc c s s')
    (hspares : ∀ rec, s.tables.records.get? c.ivcId.toNat = some rec → ∀ info,
      rec.peerInfos.get? c.peerId.toNat = some info → info.zoneId = zoneId → zoneId = s.zone.id) :
    HasPeer s'.tables ivcId zoneId := by
  obtain ⟨rec, hget, p, hp, hzone⟩ := h
  obtain ⟨rec', hjoins, htables, -⟩ := hacc.joined
  by_cases hid : ivcId = c.ivcId.toNat
  · subst hid
    obtain rfl : rec' = rec := by
      cases hjoins with
      | existing hget' => exact some.inj (hget'.symm.trans hget)
      | new hnone => rw [hnone] at hget; cases hget
    by_cases hpeer : p.1 = c.peerId.toNat
    · have hinfo : rec'.peerInfos.get? c.peerId.toNat = some p.2 :=
        get?_eq_some.mpr (hpeer ▸ hp)
      rw [hspares rec' hget p.2 hinfo hzone]
      exact hacc.hasPeer
    · refine ⟨rec'.addPeer c s.zone.id, ?_, p, mem_insert.mpr (.inr ⟨hp, hpeer⟩), hzone⟩
      rw [htables, IvcTables.setRecord, get?_insert, if_pos rfl]
  · refine ⟨rec, ?_, p, hp, hzone⟩
    rw [htables, IvcTables.setRecord, get?_insert, if_neg hid]
    exact hget

variable {cs : List HvIvcConfig} {r : IvcState × Bool} {alive : ℕ → Bool}

/-- A zone that is alive stays a peer. -/
theorem HasPeer.loop (h : HasPeer s.tables ivcId zoneId)
    (hspares : sparesPeers o alloc s.zone.id alive s.tables cs = true)
    (halive : alive zoneId = true ∨ zoneId = s.zone.id)
    (hloop : ivcInitLoop o alloc cs s = some r) : HasPeer r.1.tables ivcId zoneId := by
  induction cs generalizing s with
  | nil => exact some.inj hloop ▸ h
  | cons c cs ih =>
    obtain ⟨-, rfl⟩ | ⟨s₁, start, hres, hacc, hrest⟩ := ivcInitLoop_cons hloop
    · exact h
    rw [sparesPeers, hres, Bool.and_eq_true] at hspares
    have hid := hacc.id_eq
    refine ih (h.accepted hacc ?_) (hid ▸ hspares.2) (hid ▸ halive) hrest
    intro rec hget info hinfo hzoneId
    have hspare := hspares.1
    rw [sparesPeer, hget, all_some, hinfo, all_some, Bool.or_eq_true,
      decide_eq_true_eq, hzoneId] at hspare
    obtain hspare | hdead := hspare
    · exact hspare
    · obtain halive | heq := halive
      · rw [halive] at hdead
        cases hdead
      · exact heq

/-- What a run of the loop to its end gives the zone. -/
theorem ivcInitLoop_done (hspares : sparesPeers o alloc s.zone.id alive s.tables cs = true)
    (hloop : ivcInitLoop o alloc cs s = some (s', true)) :
    (∀ c ∈ cs, HasPeer s'.tables c.ivcId.toNat s.zone.id) ∧
      ∀ m ∈ s'.zone.mmio, m ∈ s.zone.mmio ∨ ∃ c ∈ cs, m.arg = c.controlTableIpa.toNat := by
  induction cs generalizing s with
  | nil =>
    cases hloop
    exact ⟨fun c hc => absurd hc List.not_mem_nil, fun m hm => .inl hm⟩
  | cons c cs ih =>
    obtain ⟨-, heq⟩ | ⟨s₁, start, hres, hacc, hrest⟩ := ivcInitLoop_cons hloop
    · cases congrArg Prod.snd heq
    rw [sparesPeers, hres, Bool.and_eq_true] at hspares
    obtain ⟨mmio, hmmio, hzone⟩ := hacc.zone
    have hid := hacc.id_eq
    have hspares₁ := hid.symm ▸ hspares.2
    obtain ⟨hpeers, htables⟩ := ih hspares₁ hrest
    refine ⟨fun c' hc' => ?_, fun m hm => ?_⟩
    · obtain rfl | hc' := List.mem_cons.mp hc'
      · exact hacc.hasPeer.loop hspares₁ (.inr hid.symm) hrest
      · exact hid ▸ hpeers c' hc'
    · obtain hm | ⟨c', hc', harg⟩ := htables m hm
      · rw [hzone] at hm
        obtain hm | ⟨-, harg⟩ := mem_registerMmio hmmio hm
        · exact .inl hm
        · exact .inr ⟨c, List.mem_cons_self, harg⟩
      · exact .inr ⟨c', List.mem_cons_of_mem _ hc', harg⟩

theorem ivcInitLoop_allAccepted (hall : allAccepted o alloc s.zone.id s.tables cs = true)
    (hloop : ivcInitLoop o alloc cs s = some r) : r.2 = true := by
  induction cs generalizing s with
  | nil => exact some.inj hloop ▸ rfl
  | cons c cs ih =>
    obtain ⟨hres, -⟩ | ⟨s₁, start, hres, hacc, hrest⟩ := ivcInitLoop_cons hloop
    · rw [allAccepted, hres] at hall
      cases hall
    · rw [allAccepted, hres] at hall
      exact ih (hacc.id_eq.symm ▸ hall) hrest

/-- The loop gets to its end if all configurations are accepted, and does nothing if the first one
is refused. -/
theorem ivcInitLoop_allOrNone (hall : allOrNone o alloc s.zone.id s.tables cs = true)
    (hloop : ivcInitLoop o alloc cs s = some r) : r.2 = true ∨ r = (s, false) := by
  rw [allOrNone, Bool.or_eq_true] at hall
  obtain hall | hnone := hall
  · exact .inl (ivcInitLoop_allAccepted hall hloop)
  cases cs with
  | nil => exact .inl (some.inj hloop ▸ rfl)
  | cons c cs =>
    rw [List.head?_cons, all_some, beq_iff_eq] at hnone
    obtain ⟨-, heq⟩ | ⟨s₁, start, hres, -⟩ := ivcInitLoop_cons hloop
    · exact .inr heq
    · cases hres.symm.trans hnone

end

/-! ## The searches of the handler -/

/-- What the handler looks up for a table of the zone is there. -/
def Answered (t : IvcTables) (zoneId base : ℕ) : Prop :=
  ∃ info, t.infos.get? zoneId = some info ∧ (∃ e ∈ info, e.ctIpa.toNat = base) ∧
    ∀ e ∈ info, HasPeer t e.ivcId.toNat zoneId

theorem Answered.handler {t : IvcTables} {zoneId base : ℕ} (h : Answered t zoneId base)
    (mmio : Gic.MMIOAccess) : (mmioIvcHandler t zoneId mmio base).isSome = true := by
  obtain ⟨info, hinfo, ⟨e, he, hbase⟩, hpeers⟩ := h
  have hfind : (info.find? (·.ctIpa.toNat = base)).isSome = true :=
    List.find?_isSome.mpr ⟨e, he, decide_eq_true hbase⟩
  obtain ⟨entry, hentry⟩ := isSome_iff_exists.mp hfind
  obtain ⟨rec, hrec, p, hp, hzone⟩ := hpeers entry (List.mem_of_find?_eq_some hentry)
  have hpeer : (rec.peerInfos.entries.find? (·.2.zoneId = zoneId)).isSome = true :=
    List.find?_isSome.mpr ⟨p, hp, decide_eq_true hzone⟩
  simp only [mmioIvcHandler, hinfo, hentry, hrec, bind_eq_bind, bind_some]
  split_ifs
  · rfl
  · rfl
  · rfl
  · rfl
  · rw [isSome_map]
    exact hpeer
  · split <;> rfl
  · rfl

section

variable {o : Overflow} {alloc : ℕ → ℕ} {cs : List HvIvcConfig} {s s' : IvcState} {alive : ℕ → Bool}

/-- `ivc_init` of another zone. -/
theorem Answered.ivcInit {zoneId base : ℕ} (h : Answered s.tables zoneId base)
    (hne : zoneId ≠ s.zone.id) (halive : alive zoneId = true)
    (hspares : sparesPeers o alloc s.zone.id alive s.tables cs = true)
    (hinit : ivcInit o alloc cs s = some s') : Answered s'.tables zoneId base := by
  obtain ⟨info, hinfo, hbase, hpeers⟩ := h
  obtain ⟨r, hloop, rfl⟩ := map_eq_some_iff.mp hinit
  obtain ⟨hid, -, hinfos⟩ := ivcInitLoop_frame hloop
  have hpeers' := fun e he => (hpeers e he).loop hspares (.inl halive) hloop
  split
  · refine ⟨info, ?_, hbase, hpeers'⟩
    rw [IvcState.setInfo, get?_insert, hid, if_neg hne, hinfos]
    exact hinfo
  · exact ⟨info, hinfos ▸ hinfo, hbase, hpeers'⟩

/-- `ivc_init` of the zone itself. -/
theorem answered_of_ivcInit (hall : allOrNone o alloc s.zone.id s.tables cs = true)
    (hspares : sparesPeers o alloc s.zone.id alive s.tables cs = true)
    (hinit : ivcInit o alloc cs s = some s') (hnone : ∀ m ∈ s.zone.mmio, m.handler ≠ .ivc)
    {m : MMIOConfig} (hm : m ∈ s'.zone.mmio) (hivc : m.handler = .ivc) :
    Answered s'.tables s.zone.id m.arg := by
  obtain ⟨⟨s₁, done⟩, hloop, rfl⟩ := map_eq_some_iff.mp hinit
  obtain rfl | heq := ivcInitLoop_allOrNone hall hloop
  · obtain ⟨hid, -⟩ := ivcInitLoop_frame hloop
    obtain ⟨hpeers, htables⟩ := ivcInitLoop_done hspares hloop
    obtain hm | ⟨c, hc, harg⟩ := htables m hm
    · exact absurd hivc (hnone m hm)
    · refine ⟨cs.map (·.infoEntry), ?_, ⟨c.infoEntry, List.mem_map_of_mem hc, harg.symm⟩, ?_⟩
      · rw [if_pos rfl, IvcState.setInfo, get?_insert, hid, if_pos rfl]
      · intro e he
        obtain ⟨c', hc', rfl⟩ := List.mem_map.mp he
        exact hpeers c' hc'
  · cases heq
    exact absurd hivc (hnone m hm)

end

/-! ## Runs -/

/-- The zones have different numbers, and the handler can answer for every table registered. -/
structure IvcInv (s : Hv) : Prop where
  ids : (s.zones.map ZoneRef.id).Nodup
  answered : ∀ z ∈ s.zones, ∀ m ∈ z.zone.mmio, m.handler = .ivc → Answered s.ivc z.id m.arg

namespace IvcInv

theorem init : IvcInv Hv.init := ⟨.nil, fun _ hz => absurd hz List.not_mem_nil⟩

variable {o : Overflow} {env : CreateEnv} {s s' : Hv} {config : HvZoneConfig}

theorem addZone (h : IvcInv s) (hfind : s.findZone config.zoneId.toNat = none)
    (hfits : s.IvcFits o config env) {z : Zone} {ivc : IvcTables} {entry ipa : ℕ}
    (hbuilt : Built o env s.ivc config z ivc) : IvcInv (s.addZone z ivc entry ipa) := by
  obtain ⟨configs, z₀, r, hconfigs, hinit, rfl, hid, hnone, htables⟩ := hbuilt.ivcInit
  have hids := KeyedList.find_eq_none.mp hfind
  have hzoneId : z₀.id = config.zoneId.toNat := hid.trans hbuilt.id
  obtain ⟨hall, hspares⟩ := hfits (by rw [Hv.alive, hfind]; rfl) configs hconfigs
  rw [← hzoneId] at hall hspares
  constructor
  · exact KeyedList.nodup_concat h.ids fun z' hz' heq => hids z' hz' (heq.trans hbuilt.id)
  · intro z' hz' m hm hivc
    obtain hz' | hz' := List.mem_append.mp hz'
    · refine (h.answered z' hz' m hm hivc).ivcInit (hzoneId ▸ hids z' hz') ?_ hspares hinit
      exact KeyedList.find_isSome.mpr (List.mem_map_of_mem hz')
    · obtain rfl := List.mem_singleton.mp hz'
      have hanswered := answered_of_ivcInit hall hspares hinit hnone (htables m hm hivc) hivc
      rw [hid] at hanswered
      exact hanswered

theorem step (h : IvcInv s) {e : HvEvent} (hfit : IvcFit o s e) (hs : hvStep o s e = some s') :
    IvcInv s' := by
  cases e with
  | create config env =>
    obtain ⟨r, hr, rfl⟩ := map_eq_some_iff.mp hs
    obtain ⟨-, rfl⟩ | ⟨hfind, z, ivc, ipa, hbuilt, rfl⟩ := zoneCreate_cases hr
    · exact h
    · exact h.addZone hfind hfit hbuilt
  | zoneStart caller config configSize env =>
    obtain ⟨r, hr, rfl⟩ := map_eq_some_iff.mp hs
    obtain ⟨-, e, rfl⟩ | ⟨-, hfind, z, ivc, ipa, bootCpu, hbuilt, -, rfl⟩ := hvZoneStart_cases hr
    · exact h
    · exact h.addZone hfind hfit hbuilt
  | zoneShutdown caller zoneId =>
    obtain ⟨r, hr, rfl⟩ := map_eq_some_iff.mp hs
    obtain ⟨e, rfl⟩ | ⟨z, -, rfl⟩ := hvZoneShutdown_cases hr
    · exact h
    · have hsub : (KeyedList.remove ZoneRef.id zoneId s.zones).Sublist s.zones :=
        List.eraseP_sublist
      exact ⟨h.ids.sublist (hsub.map _), fun z hz => h.answered z (hsub.subset hz)⟩
  | cpuOn target entry | cpuIdle cpu =>
    cases hs
    exact ⟨h.ids, h.answered⟩
  | cpuRun cpu =>
    obtain ⟨-, rfl⟩ := ite_some_none_eq_some.mp hs
    exact ⟨h.ids, h.answered⟩

end IvcInv

end HvisorRux.Zones
