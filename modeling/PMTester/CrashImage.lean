import PMTester.MonitorSteps

/-!
# The crash image

What the replay device holds when the check begins, in every run of the program
and for every order in which guest, monitor and harness take their steps: the
snapshot, with the writes in it that were logged. It is the record device of the
moment at which the tracker was unloaded just when the writes that were not
logged make no difference.
-/
namespace PMTester

open Bytes Memory Loop Script ClientSocket

/-- The devices: the tracked range is the front of the record device, the replays go to the front
of the replay device, and nothing else is written there before it is mounted. -/
structure Testbed.Layout (W : Testbed) (s : Settings) : Prop where
  record : W.device s.recordDevicePath = some (W.range s).rangeStart.toNat
  replay : W.device s.replayDevicePath = some W.base.toNat
  snapshot : W.device snapshotFile = none
  size : (W.range s).length ≤ recordSize * 2 ^ 20
  space : W.base.toNat + (W.range s).length ≤ 2 ^ 64
  apart : (W.range s).rangeEnd.toNat ≤ W.base.toNat ∨
    W.base.toNat + recordSize * 2 ^ 20 ≤ (W.range s).rangeStart.toNat
  avoids : ∀ e, W.guest e → e.Avoids W.base.toNat (W.range s).length
  fits : ∀ e r, W.guest e → e.record (W.range s) = some r → r.Fits W.base
  stores : StoresBlock W.physicalMemoryRw

/-- The guest's writes that the tracker logged. -/
def Machine.logged (m : Machine) : List GuestEvent := (m.written.filter (·.2)).map (·.1)

/-- All of the guest's writes since the snapshot. -/
def Machine.events (m : Machine) : List GuestEvent := m.written.map (·.1)

/-- The last byte that some events put at an address, over the snapshot. -/
def Machine.overSnapshot (m : Machine) (s : Settings) (W : Testbed) (events : List GuestEvent)
    (i : Nat) : UInt8 :=
  (lastStored events ((W.range s).rangeStart.toNat + i)).getD (m.snapshot i)

theorem lastStored_concat (events : List GuestEvent) (e : GuestEvent) (a : Nat) (b : UInt8) :
    (lastStored (events ++ [e]) a).getD b =
      (lastStored [e] a).getD ((lastStored events a).getD b) := by
  have hrun : guestRun (events ++ [e]) (fun _ => b) = guestRun [e] (guestRun events fun _ => b) := by
    simp [guestRun]
  have happly := congrFun hrun a
  rwa [guestRun_apply, guestRun_apply, guestRun_apply] at happly

theorem effect_apply (e : GuestEvent) (m : Mem) (a : Nat) :
    e.effect m a = (lastStored [e] a).getD (m a) := by
  rw [← guestRun_apply]
  rfl

section Memory

variable (W : Testbed) (s : Settings)

/-- From the snapshot on: the tracked range holds what the events put there, and the trace what
was logged of them. -/
structure Captured (m : Machine) (k : Nat) : Prop where
  guest : ∀ x ∈ m.written, W.guest x.1
  flagged : ∀ x ∈ m.written, x.2 = true → x.1.isLogged (W.range s) = true
  unlogged : k = 0 → m.logged = []
  record : ∀ i < (W.range s).length, (m.atUnload.getD m.mem) ((W.range s).rangeStart.toNat + i) =
    m.overSnapshot s W m.events i
  log : 1 ≤ k → m.wtOut = trace (W.range s) m.logged

/-- From the restoration on: the replay region holds the snapshot, until the logged writes are
replayed into it. -/
structure Restored (m : Machine) (k : Nat) : Prop where
  before : k < 3 → ∀ i < (W.range s).length, m.mem (W.base.toNat + i) = m.snapshot i
  after : 3 ≤ k → m.logged ≠ [] → ∀ i < (W.range s).length,
    m.mem (W.base.toNat + i) = m.overSnapshot s W m.logged i

variable {W s} {fresh : SockMessage} {p : Phase} {m m' : Machine} {k : Nat}

/-- Once the tracker is unloaded nothing is noted any more. -/
theorem Monitored.observe_late (h : Monitored W fresh s p m k) (hk : 2 ≤ k) (e : GuestEvent) :
    (m.observe e).written = m.written ∧ (m.observe e).wtOut = m.wtOut := by
  have hunloaded : m.atUnload.isNone = false := by
    have hsome := h.unloaded.mpr hk
    cases hu : m.atUnload with
    | none => simp [hu] at hsome
    | some _ => rfl
  have hne : k ≠ 1 := by omega
  simp [Machine.observe, hunloaded, h.tracker, hne]

theorem Monitored.observe_early (h : Monitored W fresh s p m k) (hk : k < 2) (e : GuestEvent) :
    (m.observe e).written = m.written ++ [(e, decide (k = 1) && e.isLogged (W.range s))] ∧
      (m.observe e).wtOut = m.wtOut ++ if k = 1 then e.logged (W.range s) else [] := by
  have hunloaded : m.atUnload = none := by
    have hnone := mt h.unloaded.mp (by omega)
    simpa using hnone
  by_cases hone : k = 1
  · simp [Machine.observe, hunloaded, h.tracker, hone]
  · simp [Machine.observe, hunloaded, h.tracker, hone]

theorem logged_eq_nil {t : WriteTracker.Range} {e : GuestEvent} (h : e.isLogged t = false) :
    e.logged t = [] := by
  have hrecord : e.record t = none := by simpa [GuestEvent.isLogged] using h
  rw [GuestEvent.logged_eq, hrecord]
  rfl

theorem Captured.observe (h : Captured W s m k) (hm : Monitored W fresh s p m k) {e : GuestEvent}
    (he : W.guest e) : Captured W s (m.observe e) k := by
  by_cases hk : k < 2
  · obtain ⟨hwritten, hwt⟩ := hm.observe_early hk e
    have hunloaded : m.atUnload = none := by simpa using mt hm.unloaded.mp (by omega)
    have hevents : (m.observe e).events = m.events ++ [e] := by simp [Machine.events, hwritten]
    constructor
    · intro x hx
      rw [hwritten, List.mem_append, List.mem_singleton] at hx
      obtain hx | rfl := hx
      · exact h.guest x hx
      · exact he
    · intro x hx
      rw [hwritten, List.mem_append, List.mem_singleton] at hx
      obtain hx | rfl := hx
      · exact h.flagged x hx
      · simp
    · intro hzero
      have hold := h.unlogged hzero
      simp only [Machine.logged] at hold ⊢
      simpa [hwritten, hzero] using hold
    · intro i hi
      have hold := h.record i hi
      simp only [hunloaded, Option.getD_none] at hold
      simp only [Machine.overSnapshot, hevents, lastStored_concat]
      change (m.atUnload.getD (e.effect m.mem)) _ =
        (lastStored [e] _).getD (m.overSnapshot s W m.events i)
      rw [hunloaded, Option.getD_none, effect_apply, hold]
    · intro hone
      have hk1 : k = 1 := by omega
      have hold := h.log hone
      simp only [Machine.logged] at hold ⊢
      rw [hwt, hwritten, hold, if_pos hk1]
      cases hlogged : e.isLogged (W.range s) with
      | true => simp [hk1, trace]
      | false => simp [logged_eq_nil hlogged]
  · obtain ⟨hwritten, hwt⟩ := hm.observe_late (by omega) e
    obtain ⟨u, hu⟩ := Option.isSome_iff_exists.mp (hm.unloaded.mpr (by omega))
    have hevents : (m.observe e).events = m.events := congrArg (List.map Prod.fst) hwritten
    have hlogged : (m.observe e).logged = m.logged := by
      simp only [Machine.logged, hwritten]
    constructor
    · rw [hwritten]
      exact h.guest
    · rw [hwritten]
      exact h.flagged
    · omega
    · intro i hi
      have hold := h.record i hi
      simp only [Machine.overSnapshot, hevents]
      rw [hu] at hold
      change (m.atUnload.getD _) _ = _
      rw [hu]
      exact hold
    · intro hone
      rw [hwt, hlogged]
      exact h.log hone

theorem Restored.observe (h : Restored W s m k) (hlayout : W.Layout s)
    (hm : Monitored W fresh s p m k) {e : GuestEvent} (he : W.guest e) :
    Restored W s (m.observe e) k := by
  have hsame : ∀ i < (W.range s).length,
      (m.observe e).mem (W.base.toNat + i) = m.mem (W.base.toNat + i) := by
    intro i hi
    exact guestRun_avoids _ _ [e] (by simpa using hlayout.avoids e he) m.mem _ (by omega) (by omega)
  constructor
  · intro hk i hi
    rw [hsame i hi]
    exact h.before hk i hi
  · intro hk
    obtain ⟨hwritten, -⟩ := hm.observe_late (by omega) e
    have hlogged : (m.observe e).logged = m.logged := by
      simp only [Machine.logged, hwritten]
    rw [hlogged]
    intro hne i hi
    rw [hsame i hi]
    exact h.after hk hne i hi

theorem Captured.advance (h : Captured W s m k) (hm : Monitored W fresh s p m k)
    (hexec : Executed W s k m m') : Captured W s m' (k + 1) := by
  have hlogged : m'.logged = m.logged := by simp only [Machine.logged, hexec.written]
  have hevents : m'.events = m.events := congrArg (List.map Prod.fst) hexec.written
  have hunloaded := hm.unloaded
  constructor
  · rw [hexec.written]
    exact h.guest
  · rw [hexec.written]
    exact h.flagged
  · omega
  · intro i hi
    have hold := h.record i hi
    simp only [Machine.overSnapshot, hevents, hexec.snapshot] at hold ⊢
    rw [← hold, hexec.atUnload]
    by_cases hone : k = 1
    · have hnone : m.atUnload = none := by simpa using mt hunloaded.mp (by omega)
      rw [if_pos hone, hnone]
      rfl
    · rw [if_neg hone]
      by_cases htwo : k = 2
      · obtain ⟨u, hu⟩ := Option.isSome_iff_exists.mp (hunloaded.mpr (by omega))
        rw [hu]
        rfl
      · rw [hexec.mem htwo]
  · intro _
    rw [hlogged, hexec.wtOut]
    by_cases hzero : k = 0
    · rw [if_pos hzero, h.unlogged hzero]
      rfl
    · rw [if_neg hzero]
      exact h.log (by omega)

/-- The replayer stores what was logged, at the base. -/
theorem Captured.replayed (h : Captured W s m k) (hlayout : W.Layout s) (hk : 1 ≤ k)
    (hne : m.logged ≠ []) {locals : Replayer.Locals} {mem : Mem}
    (hexits : Exits (Replayer.body W.physicalMemoryRw W.base) ⟨locals, ⟨m.wtOut, true⟩, m.mem⟩
      (.done mem)) :
    mem = storeAll m.mem (replayStores (W.range s) W.base m.logged) := by
  have hmem (e : GuestEvent) (he : e ∈ m.logged) :
      W.guest e ∧ e.isLogged (W.range s) = true := by
    simp only [Machine.logged, List.mem_map, List.mem_filter] at he
    obtain ⟨x, ⟨hx, hflag⟩, rfl⟩ := he
    exact ⟨h.guest x hx, h.flagged x hx hflag⟩
  obtain ⟨e, he⟩ := List.exists_mem_of_ne_nil _ hne
  have hstored : ∀ r ∈ m.logged.filterMap (GuestEvent.record (W.range s)),
      r.StoredBy W.physicalMemoryRw W.base := by
    intro r hr
    obtain ⟨e, he, her⟩ := List.mem_filterMap.mp hr
    exact (hlayout.fits e r (hmem e he).1 her).storedBy hlayout.stores
  have hreplay := replay_stores W.physicalMemoryRw (W.range s) W.base m.logged
    ⟨e, he, (hmem e he).2⟩ hstored locals m.mem
  rw [h.log hk] at hexits
  cases hexits.unique hreplay
  rfl

theorem Captured.filter_logged (h : Captured W s m k) :
    m.logged.filter (GuestEvent.isLogged (W.range s)) = m.logged := by
  rw [List.filter_eq_self]
  intro e he
  simp only [Machine.logged, List.mem_map, List.mem_filter] at he
  obtain ⟨x, ⟨hx, hflag⟩, rfl⟩ := he
  exact h.flagged x hx hflag

theorem Restored.advance (h : Restored W s m k) (hcaptured : Captured W s m k)
    (hlayout : W.Layout s) (hexec : Executed W s k m m') : Restored W s m' (k + 1) := by
  have hlogged : m'.logged = m.logged := by simp only [Machine.logged, hexec.written]
  constructor
  · intro hk i hi
    rw [hexec.mem (by omega), hexec.snapshot]
    exact h.before (by omega) i hi
  · rw [hlogged]
    intro hk hne i hi
    simp only [Machine.overSnapshot, hexec.snapshot]
    by_cases htwo : k = 2
    · obtain ⟨locals, hexits⟩ := hexec.replay htwo
      rw [hcaptured.replayed hlayout (by omega) hne hexits, storeAll_apply,
        lastByte_replayStores _ _ hlayout.space, hcaptured.filter_logged,
        h.before (by omega) i hi]
    · rw [hexec.mem htwo]
      exact h.after (by omega) hne i hi

end Memory

section Run

variable (W : Testbed) (fresh : SockMessage) (s : Settings)

/-- What holds in a phase, with the monitor `k` commands far. -/
structure InPhase (p : Phase) (m : Machine) (k : Nat) : Prop where
  monitored : Monitored W fresh s p m k
  unmounted : p ≠ .checking → m.replayMounted = false
  captured : p ≠ .setup → p ≠ .checking → Captured W s m k
  restored : p ≠ .setup → p ≠ .snapshotted → p ≠ .checking → Restored W s m k

variable {W fresh s} {p p' : Phase} {m m' : Machine} {k : Nat}

theorem InPhase.observe (h : InPhase W fresh s p m k) (hlayout : W.Layout s) {e : GuestEvent}
    (he : m.replayMounted = true ∨ W.guest e) : InPhase W fresh s p (m.observe e) k := by
  have hguest (hp : p ≠ .checking) : W.guest e := by
    obtain hmounted | he := he
    · rw [h.unmounted hp] at hmounted
      cases hmounted
    · exact he
  constructor
  · exact h.monitored.observe e
  · exact h.unmounted
  · intro hsetup hp
    exact (h.captured hsetup hp).observe h.monitored (hguest hp)
  · intro hsetup hsnapshotted hp
    exact (h.restored hsetup hsnapshotted hp).observe hlayout h.monitored (hguest hp)

theorem InPhase.advance (h : InPhase W fresh s p m k) (hlayout : W.Layout s) (hk : k < p.sent)
    (hexec : Executed W s k m m') : InPhase W fresh s p m' (k + 1) := by
  constructor
  · exact h.monitored.advance hk hexec
  · rw [hexec.mounted]
    exact h.unmounted
  · intro hsetup hp
    exact (h.captured hsetup hp).advance h.monitored hexec
  · intro hsetup hsnapshotted hp
    exact (h.restored hsetup hsnapshotted hp).advance (h.captured hsetup hp) hlayout hexec

/-- The guest and the monitor keep the invariant. -/
theorem InPhase.happens (h : InPhase W fresh s p m k) (hs : s.Plain) (hlayout : W.Layout s)
    (hstep : W.Happens m m') : ∃ k, InPhase W fresh s p m' k := by
  cases hstep with
  | event e he => exact ⟨k, h.observe hlayout he⟩
  | execute hqueue hexec =>
    obtain ⟨hk, hexec⟩ := h.monitored.executed hs hqueue hexec
    exact ⟨k + 1, h.advance hlayout hk hexec⟩

theorem InPhase.snapshot (h : InPhase W fresh s .setup m k) (hlayout : W.Layout s) {status : Int}
    (hcopies : W.Copies s.recordDevicePath snapshotFile recordSize status m m') :
    InPhase W fresh s (if status = 0 then .snapshotted else .setup) m' k := by
  have hk : k = 0 := Nat.le_zero.mp h.monitored.le
  by_cases hstatus : status = 0
  · have hunloaded : m.atUnload = none := by simpa using mt h.monitored.unloaded.mp (by omega)
    simp only [Testbed.Copies, hstatus, ne_eq, not_true_eq_false, if_false, hlayout.record,
      hlayout.snapshot, if_true] at hcopies
    subst hcopies
    rw [if_pos hstatus]
    constructor
    · exact h.monitored.congr rfl rfl rfl rfl rfl
    · exact fun _ => h.unmounted (by decide)
    · intro _ _
      constructor
      · simp
      · simp
      · intro _
        rfl
      · intro i _
        simp only [hunloaded]
        rfl
      · omega
    · simp
  · simp only [Testbed.Copies, hstatus, ne_eq, not_false_eq_true, if_true] at hcopies
    obtain ⟨mem, snapshot, rfl⟩ := hcopies
    rw [if_neg hstatus]
    constructor
    · exact h.monitored.congr rfl rfl rfl rfl rfl
    · exact fun _ => h.unmounted (by decide)
    · simp
    · simp

theorem InPhase.restore (h : InPhase W fresh s .snapshotted m k) (hlayout : W.Layout s)
    {status : Int}
    (hcopies : W.Copies snapshotFile s.replayDevicePath recordSize status m m') :
    InPhase W fresh s (if status = 0 then .restored else .setup) m' k := by
  have hk : k = 0 := Nat.le_zero.mp h.monitored.le
  by_cases hstatus : status = 0
  · have hunloaded : m.atUnload = none := by simpa using mt h.monitored.unloaded.mp (by omega)
    have hcaptured := h.captured (by decide) (by decide)
    have hsize := hlayout.size
    simp only [Testbed.Copies, hstatus, ne_eq, not_true_eq_false, if_false, hlayout.replay,
      hlayout.snapshot, if_true] at hcopies
    subst hcopies
    rw [if_pos hstatus]
    constructor
    · exact h.monitored.congr rfl rfl rfl rfl rfl
    · exact fun _ => h.unmounted (by decide)
    · intro _ _
      refine ⟨hcaptured.guest, hcaptured.flagged, hcaptured.unlogged, fun i hi => ?_, hcaptured.log⟩
      have hold := hcaptured.record i hi
      have hapart := hlayout.apart
      have hend : i < (W.range s).rangeEnd.toNat - (W.range s).rangeStart.toNat := hi
      simp only [hunloaded, Option.getD_none] at hold ⊢
      rw [if_neg (by omega)]
      exact hold
    · intro _ _ _
      constructor
      · intro _ i hi
        simp only
        rw [if_pos (by omega), Nat.add_sub_cancel_left]
      · omega
  · simp only [Testbed.Copies, hstatus, ne_eq, not_false_eq_true, if_true] at hcopies
    obtain ⟨mem, snapshot, rfl⟩ := hcopies
    rw [if_neg hstatus]
    constructor
    · exact h.monitored.congr rfl rfl rfl rfl rfl
    · exact fun _ => h.unmounted (by decide)
    · simp
    · simp

theorem InPhase.send (h : InPhase W fresh s p m k) (hnext : p.next = some p') {line : Path}
    (hline : (commandLines fresh s)[p.sent]? = some line) :
    InPhase W fresh s p' (m.receive line) k := by
  obtain ⟨-, hsetup, hsnapshotted, hp, -⟩ := Phase.next_spec hnext
  have hcaptured := h.captured hsetup hp
  have hrestored := h.restored hsetup hsnapshotted hp
  constructor
  · exact h.monitored.send hnext hline
  · exact fun _ => h.unmounted hp
  · intro _ _
    exact ⟨hcaptured.guest, hcaptured.flagged, hcaptured.unlogged, hcaptured.record, hcaptured.log⟩
  · intro _ _ _
    exact ⟨hrestored.before, hrestored.after⟩

theorem InPhase.mountReplay (h : InPhase W fresh s .replayed m k) {mounted : Bool} :
    InPhase W fresh s .checking { m with replayMounted := mounted } k := by
  constructor
  · exact h.monitored.congr rfl rfl rfl rfl rfl
  · simp
  · simp
  · simp

/-- A step of the harness takes the invariant to the next stage. -/
theorem InPhase.reacts {g g' : Stage} (h : InPhase W fresh s g.phase m k) (hlayout : W.Layout s)
    {q : HarnessCall} {a : q.Answer} (hstep : PhaseStep fresh s g q a g')
    (hreacts : W.Reacts m q a m') : InPhase W fresh s g'.phase m' k := by
  cases hstep with
  | neutral hq a =>
    rw [reacts_neutral hq hreacts]
    exact h
  | snapshot status => exact h.snapshot hlayout hreacts.2
  | restore status => exact h.restore hlayout hreacts.2
  | send hnext hline n =>
    have hm' : m' = if 0 ≤ n then m.receive _ else m := hreacts
    rw [hm']
    dsimp only
    split
    · exact h.send hnext hline
    · exact h
  | receive err =>
    obtain ⟨-, rfl⟩ := hreacts
    exact h
  | fork forked =>
    have hsame : m' = m := hreacts
    rw [hsame]
    exact h
  | mountReplay c status =>
    rw [hreacts.2]
    split
    · exact h.mountReplay
    · exact h.mountReplay

theorem InPhase.env (hs : s.Plain) (hlayout : W.Layout s) (g : Stage) (q : HarnessCall)
    (a : q.Answer) (g' : Stage) (m m' : Machine) (hstep : PhaseStep fresh s g q a g')
    (henv : W.env m q a m') (h : ∃ k, InPhase W fresh s g.phase m k) :
    ∃ k, InPhase W fresh s g'.phase m' k := by
  obtain ⟨m₁, hmany, hreacts⟩ := henv
  have hm₁ : ∃ k, InPhase W fresh s g.phase m₁ k := by
    clear hreacts
    induction hmany with
    | refl => exact h
    | tail _ hlast ih =>
      obtain ⟨k, hk⟩ := ih
      exact hk.happens hs hlayout hlast
  obtain ⟨k, hk⟩ := hm₁
  exact ⟨k, hk.reacts hlayout hstep hreacts⟩

theorem InPhase.start {m : Machine} (h : m.Fresh) : InPhase W fresh s .setup m 0 := by
  constructor
  · exact ⟨Nat.le_refl 0, h.sent, h.queue, h.plugins, by simp [h.atUnload]⟩
  · exact fun _ => h.replayMounted
  · simp
  · simp

end Run

/-- When the check begins and the monitor is done, the replay device holds the snapshot with the
logged writes in it. It is the record device of the moment at which the tracker was unloaded exactly
when the writes since the snapshot that were not logged make no difference. -/
theorem crash_image (W : Testbed) (fresh : SockMessage) (rounds : Nat) (opts : List Opt)
    (files : List Path) (s : Settings) (hopts : Settings.parse opts {} = some s) (hs : s.Plain)
    (hlayout : W.Layout s) (m₀ m : Machine) (h₀ : m₀.Fresh) (c : FSCommands)
    (hcheck : Asks W.env (Main.main rounds fresh opts files) m₀
      (.system (.mount c s.replayDevicePath mntPointReplay)) m)
    (hidle : m.queue = []) (hlogged : m.logged ≠ []) :
    (∀ i < (W.range s).length, m.mem (W.base.toNat + i) = m.overSnapshot s W m.logged i) ∧
      ∃ u, m.atUnload = some u ∧
        ((∀ i < (W.range s).length,
            m.mem (W.base.toNat + i) = u ((W.range s).rangeStart.toNat + i)) ↔
          ∀ i < (W.range s).length,
            m.overSnapshot s W m.logged i = m.overSnapshot s W m.events i) := by
  obtain ⟨g, ⟨k, hk⟩, hplace⟩ := (main_follows fresh rounds opts files hopts).asks
    ⟨0, InPhase.start h₀⟩ (InPhase.env hs hlayout) hcheck
  obtain ⟨g', hstep⟩ := hplace 0
  cases hstep with
  | neutral hq _ => exact absurd rfl hq
  | mountReplay c _ =>
    have hfour : k = 4 := hk.monitored.idle hidle
    have hcaptured := hk.captured (by decide) (by decide)
    have hafter := (hk.restored (by decide) (by decide) (by decide)).after (by omega) hlogged
    obtain ⟨u, hu⟩ := Option.isSome_iff_exists.mp (hk.monitored.unloaded.mpr (by omega))
    have hrecord := hcaptured.record
    rw [hu] at hrecord
    refine ⟨hafter, u, hu, ?_⟩
    constructor
    · intro hsame i hi
      rw [← hafter i hi, hsame i hi]
      exact hrecord i hi
    · intro hsame i hi
      rw [hafter i hi, hsame i hi]
      exact (hrecord i hi).symm

theorem quiet_step {m : Machine} {q : HarnessCall} {a : q.Answer} {m' : Machine}
    (h : smallTestbed.Reacts m q a m') : smallTestbed.env m q a m' := ⟨m, .refl, h⟩

theorem reply_step {m m' : Machine} {line : Path} (hqueue : m.queue = [line])
    (h : smallTestbed.Executes line { m with queue := [] } m') (hnone : m'.queue = []) :
    smallTestbed.env m .receive .eNone m' :=
  ⟨m', .single (.execute hqueue h), fun _ => hnone, rfl⟩

theorem smallLayout : smallTestbed.Layout {} := by
  constructor
  · rfl
  · rfl
  · rfl
  · decide
  · decide
  · exact .inl (by decide)
  · rintro e rfl
    exact .inl (by decide)
  · rintro e r rfl hr
    cases hr
    change _ ≤ _
    decide
  · exact fun _ _ _ _ => rfl

/-- The replayer reads the trace of the small event. -/
theorem reply_replayer {m : Machine} (hqueue : m.queue = [completeCommand
      (buildLoadPluginMsg newMessage .pReplay beginReplayAddr (path "0x48000000".toList))])
    (htrace : m.wtOut = trace (smallTestbed.range {}) [smallEvent]) :
    smallTestbed.env m .receive .eNone
      { m with
        queue := []
        mem := storeAll m.mem (replayStores (smallTestbed.range {}) smallTestbed.base [smallEvent])
        plugins := m.plugins ++ [.replayer] } := by
  have hstored : ∀ r ∈ [smallEvent].filterMap (GuestEvent.record (smallTestbed.range {})),
      r.StoredBy smallTestbed.physicalMemoryRw smallTestbed.base := by
    intro r hr
    obtain ⟨e, he, her⟩ := List.mem_filterMap.mp hr
    exact (smallLayout.fits e r (List.mem_singleton.mp he) her).storedBy smallLayout.stores
  have hreplay := replay_stores smallTestbed.physicalMemoryRw (smallTestbed.range {})
    smallTestbed.base [smallEvent] ⟨smallEvent, by simp, rfl⟩ hstored ⟨0, 0, 0, 0, []⟩ m.mem
  rw [← htrace] at hreplay
  exact reply_step hqueue ((executes_replayer _).mpr ⟨_, _, _, fun _ => rfl, hreplay, rfl⟩) rfl

/-- A run with one write. -/
theorem smallRun_asks : ∃ m, Asks smallTestbed.env (Main.main 1 newMessage [] [[]]) smallMachine
    (.system (.mount .nova (path "/dev/pmem1".toList) mntPointReplay)) m ∧ m.queue = [] ∧
      m.logged = [smallEvent] ∧ m.events = [smallEvent] := by
  refine asks_next (some 1) (quiet_step rfl) ?_
  refine asks_next (some 2) (quiet_step rfl) ?_
  refine asks_next (some 3) (quiet_step rfl) ?_
  refine asks_next (4 : Nat) (quiet_step rfl) ?_
  refine asks_next () (quiet_step rfl) ?_
  refine asks_next (some 5) (quiet_step rfl) ?_
  refine asks_next (0 : Int) (quiet_step ⟨rfl, rfl⟩) ?_
  refine asks_next (.ok () : Except Int Unit) (quiet_step rfl) ?_
  refine asks_next (0 : Int) (quiet_step ⟨rfl, rfl⟩) ?_
  refine asks_next (0 : Int) (quiet_step ⟨rfl, rfl⟩) ?_
  refine asks_next (0 : Int) (quiet_step ⟨rfl, rfl⟩) ?_
  refine asks_next (0 : Int) (quiet_step ⟨rfl, rfl⟩) ?_
  refine asks_next (1 : Int) (quiet_step rfl) ?_
  refine asks_next SockError.eNone
    (reply_step rfl ((executes_tracker smallPlain).mpr rfl) rfl) ?_
  refine asks_next (0 : Int) ⟨_, .single (.event smallEvent (.inr rfl)), ⟨rfl, rfl⟩⟩ ?_
  refine asks_next ForkResult.parent (quiet_step rfl) ?_
  refine asks_next (0 : Int) (quiet_step rfl) ?_
  refine asks_next (3 : Int) (quiet_step rfl) ?_
  refine asks_next (0 : Int) (quiet_step rfl) ?_
  refine asks_next ((⟨fun _ => 1, fun _ => 1, fun _ => 0⟩, ⟨[], 0⟩) :
    Tester.ReadEnv × Transfer.Source) (quiet_step rfl) ?_
  refine asks_next (1 : Int) (quiet_step rfl) ?_
  refine asks_next SockError.eNone (reply_step rfl (executes_unload.mpr rfl) rfl) ?_
  refine asks_next (.ok () : Except Int Unit) (quiet_step rfl) ?_
  refine asks_next (1 : Int) (quiet_step rfl) ?_
  refine asks_next SockError.eNone (reply_replayer rfl rfl) ?_
  refine asks_next (1 : Int) (quiet_step rfl) ?_
  refine asks_next SockError.eNone (reply_step rfl (executes_unload.mpr rfl) rfl) ?_
  exact asks_here ⟨rfl, rfl, rfl⟩

theorem crash_image_small : ∃ m : Machine, ∃ u : Mem,
    Asks smallTestbed.env (Main.main 1 newMessage [] [[]]) smallMachine
      (.system (.mount .nova (path "/dev/pmem1".toList) mntPointReplay)) m ∧
    m.atUnload = some u ∧ m.mem 0x48000010 = 7 ∧
    ∀ i < 0x8000000, m.mem (0x48000000 + i) = u (0x40000000 + i) := by
  obtain ⟨m, hasks, hidle, hlogged, hevents⟩ := smallRun_asks
  obtain ⟨hmem, u, hu, hsame⟩ := crash_image smallTestbed newMessage 1 [] [[]] {} rfl smallPlain
    smallLayout smallMachine m ⟨rfl, rfl, rfl, rfl, rfl⟩ .nova hasks hidle (by simp [hlogged])
  refine ⟨m, u, hasks, hu, ?_, ?_⟩
  · rw [hlogged] at hmem
    exact (hmem 0x10 (by decide)).trans rfl
  · exact hsame.mpr fun i _ => by rw [hlogged, hevents]

end PMTester
