import PMTester.TraceReplay

/-!
# Writes that cross the ends of the tracked range

`mem_write_callback` looks only at the address at which a write begins. A write
that begins in front of the range is not logged, also when it reaches into it,
and one that begins inside is logged in full, also when it runs past the end.
-/
namespace PMTester

open Bytes Memory Loop

def GuestEvent.toStore : GuestEvent → Option Store
  | .write _ pa data => some ⟨pa.toNat, data.val⟩
  | .flush _ _ => none
  | .fence _ => none

def Record.toStore (base : UInt64) : Record → Option Store
  | .write _ offset data => some ⟨(base + offset).toNat, data.val⟩
  | .flush _ _ => none
  | .fence _ => none

/-- The byte that the last guest write to an address stored there. -/
def lastStored (events : List GuestEvent) (a : Nat) : Option UInt8 :=
  lastByte (events.filterMap GuestEvent.toStore) a

/-- What the replayer stores for the trace of a run. -/
def replayStores (t : WriteTracker.Range) (base : UInt64) (events : List GuestEvent) : List Store :=
  (events.filterMap (GuestEvent.record t)).filterMap (Record.toStore base)

def GuestEvent.isLogged (t : WriteTracker.Range) (e : GuestEvent) : Bool := (e.record t).isSome

/-- Replaying the trace puts the bytes stored last into the region, from any memory and any values
of the locals, and writes nowhere else. -/
def Clips (t : WriteTracker.Range) (base : UInt64) (events : List GuestEvent) : Prop :=
  ∀ rw, StoresBlock rw → ∀ locals m, ∃ m',
    Exits (Replayer.body rw base) ⟨locals, ⟨trace t events, true⟩, m⟩ (.done m') ∧
    (∀ i < t.length, m' (base.toNat + i) =
      (lastStored events (t.rangeStart.toNat + i)).getD (m (base.toNat + i))) ∧
    ∀ a, a < base.toNat ∨ base.toNat + t.length ≤ a → m' a = m a

/-- Something is logged, what begins in the range ends in it, and the writes that are not logged
make no difference to the last bytes of the range. -/
structure CrossesHarmlessly (t : WriteTracker.Range) (events : List GuestEvent) : Prop where
  logged : ∃ e ∈ events, e.isLogged t = true
  ends : ∀ pc pa data, GuestEvent.write pc pa data ∈ events → t.contains pa = true →
    pa.toNat + data.val.length ≤ t.rangeEnd.toNat
  starts : ∀ i < t.length, lastStored events (t.rangeStart.toNat + i) =
    lastStored (events.filter (GuestEvent.isLogged t)) (t.rangeStart.toNat + i)

/-- The memory after a run of the guest, byte by byte. -/
theorem guestRun_apply (events : List GuestEvent) (m : Mem) (a : Nat) :
    guestRun events m a = (lastStored events a).getD (m a) := by
  have hstores : guestRun events m = storeAll m (events.filterMap GuestEvent.toStore) := by
    induction events generalizing m with
    | nil => rfl
    | cons e events ih =>
      have hrun : guestRun (e :: events) m = guestRun events (e.effect m) := rfl
      rw [hrun, ih]
      cases e <;> rfl
  rw [hstores, storeAll_apply]
  rfl

theorem records_apply (base : UInt64) (rs : List Record) (m : Mem) :
    rs.foldl (fun m r => r.apply base m) m = storeAll m (rs.filterMap (Record.toStore base)) := by
  induction rs generalizing m with
  | nil => rfl
  | cons r rs ih =>
    rw [List.foldl_cons, ih]
    cases r <;> rfl

theorem records_ne_nil (t : WriteTracker.Range) (events : List GuestEvent) :
    events.filterMap (GuestEvent.record t) ≠ [] ↔ ∃ e ∈ events, e.isLogged t = true := by
  simp only [ne_eq, List.filterMap_eq_nil_iff, not_forall, GuestEvent.isLogged,
    Option.isSome_iff_ne_none, exists_prop]

/-- The replay of a run that is logged, by an emulator that stores its blocks. -/
theorem replay_stores (rw : Nat → List UInt8 → Mem → Mem) (t : WriteTracker.Range) (base : UInt64)
    (events : List GuestEvent) (hlogged : ∃ e ∈ events, e.isLogged t = true)
    (hstored : ∀ r ∈ events.filterMap (GuestEvent.record t), r.StoredBy rw base)
    (locals : Replayer.Locals) (m : Mem) :
    Exits (Replayer.body rw base) ⟨locals, ⟨trace t events, true⟩, m⟩
      (.done (storeAll m (replayStores t base events))) := by
  have hexits := replay_trace rw base _ ((records_ne_nil t events).mpr hlogged) hstored locals m
  rwa [← trace_eq, records_apply] at hexits

section Region

variable (t : WriteTracker.Range) (base : UInt64) (hbase : base.toNat + t.length ≤ 2 ^ 64)

include hbase

/-- A logged write is replayed at the distance from the base that it had from the range. -/
theorem byteAt_replayed (e : GuestEvent) (i : Nat) :
    ((e.record t).bind (Record.toStore base)).bind (·.byteAt (base.toNat + i)) =
      if e.isLogged t then e.toStore.bind (·.byteAt (t.rangeStart.toNat + i)) else none := by
  cases e with
  | write pc pa data =>
    cases hc : t.contains pa with
    | false => simp [GuestEvent.record, GuestEvent.isLogged, hc]
    | true =>
      have haddress := t.replay_address base pa hbase hc
      have hin := (t.contains_iff pa).mp hc
      have hle : base.toNat + (pa.toNat - t.rangeStart.toNat) ≤ base.toNat + i ↔
          pa.toNat ≤ t.rangeStart.toNat + i := by omega
      have hsub : base.toNat + i - (base.toNat + (pa.toNat - t.rangeStart.toNat)) =
          t.rangeStart.toNat + i - pa.toNat := by omega
      simp [GuestEvent.record, GuestEvent.isLogged, hc, Record.toStore, GuestEvent.toStore,
        Store.byteAt, haddress, hle, hsub]
  | flush pc offset => simp [GuestEvent.record, GuestEvent.isLogged, Record.toStore,
      GuestEvent.toStore]
  | fence pc => simp [GuestEvent.record, GuestEvent.isLogged, Record.toStore, GuestEvent.toStore]

theorem lastByte_replayStores (events : List GuestEvent) (i : Nat) :
    lastByte (replayStores t base events) (base.toNat + i) =
      lastStored (events.filter (GuestEvent.isLogged t)) (t.rangeStart.toNat + i) := by
  unfold lastStored lastByte replayStores
  rw [List.filterMap_filterMap, List.filterMap_filterMap, List.filterMap_filterMap,
    List.filterMap_filter]
  congr 2
  funext e
  rw [← byteAt_replayed t base hbase e i]
  cases e.record t <;> rfl

/-- Where what begins in the range ends in it, the replay stays in the region. -/
theorem replayStores_within (events : List GuestEvent)
    (hends : ∀ pc pa data, GuestEvent.write pc pa data ∈ events → t.contains pa = true →
      pa.toNat + data.val.length ≤ t.rangeEnd.toNat) :
    ∀ r ∈ events.filterMap (GuestEvent.record t), ∀ s, r.toStore base = some s →
      base.toNat ≤ s.offset ∧ s.stop ≤ base.toNat + t.length := by
  intro r hr s hs
  obtain ⟨e, he, her⟩ := List.mem_filterMap.mp hr
  cases e with
  | write pc pa data =>
    simp only [GuestEvent.record, Option.ite_none_right_eq_some] at her
    obtain ⟨hc, heq⟩ := her
    cases heq
    cases hs
    have hend := hends pc pa data he hc
    have hin := (t.contains_iff pa).mp hc
    simp only [Store.stop, t.replay_address base pa hbase hc]
    unfold WriteTracker.Range.length
    omega
  | flush pc offset =>
    cases her
    cases hs
  | fence pc =>
    cases her
    cases hs

/-- A write that runs past the end of the range is replayed behind the region. -/
theorem replayStores_behind (events : List GuestEvent) (pc pa : UInt64) (data : Buffer)
    (he : GuestEvent.write pc pa data ∈ events) (hc : t.contains pa = true)
    (hpast : t.rangeEnd.toNat < pa.toNat + data.val.length) :
    lastByte (replayStores t base events) (base.toNat + t.length) ≠ none := by
  have hin := (t.contains_iff pa).mp hc
  intro hnone
  rw [lastByte_eq_none] at hnone
  have hstore : Store.mk (base + (pa - t.rangeStart)).toNat data.val ∈ replayStores t base events := by
    refine List.mem_filterMap.mpr ⟨.write pc (pa - t.rangeStart) data, ?_, rfl⟩
    exact List.mem_filterMap.mpr ⟨_, he, by simp [GuestEvent.record, hc]⟩
  have hreach := (Store.byteAt_eq_none _ _).mp (hnone _ hstore)
  simp only [Store.stop, t.replay_address base pa hbase hc] at hreach
  unfold WriteTracker.Range.length at hreach
  omega

end Region

/-- Without a record the only round works on what the locals happen to hold, which may be a write of
any byte to the base. -/
theorem clips_logged (t : WriteTracker.Range) (base : UInt64) (events : List GuestEvent)
    (h : Clips t base events) : ∃ e ∈ events, e.isLogged t = true := by
  by_contra hnone
  have htrace : trace t events = [] := by
    have hrecords := not_not.mp (mt (records_ne_nil t events).mp hnone)
    rw [trace_eq, hrecords]
    rfl
  have hany (b : UInt8) : b = if 0 < t.length then
      (lastStored events t.rangeStart.toNat).getD 0 else 0 := by
    obtain ⟨m', hexits, hin, hout⟩ := h (fun address bytes m => store m address bytes)
      (fun _ _ _ _ => rfl) ⟨0, Replayer.write, 0, 1, [b]⟩ fun _ => 0
    have hend := replay_end (fun address bytes m => store m address bytes) base
      (.write 0 0 ⟨[b], by simp⟩) (fun _ => rfl) ⟨0, Replayer.write, 0, 1, [b]⟩
      ⟨rfl, rfl, rfl, rfl⟩ fun _ => 0
    rw [htrace] at hexits
    cases hend.unique hexits
    have hbyte : store (fun _ => 0) (base + 0).toNat [b] base.toNat = b := by simp [store]
    by_cases hlength : 0 < t.length
    · rw [if_pos hlength]
      exact hbyte.symm.trans (hin 0 hlength)
    · rw [if_neg hlength]
      exact hbyte.symm.trans (hout base.toNat (by omega))
  exact absurd ((hany 0).trans (hany 1).symm) (by decide)

/-- Two choices that agree whatever the default is are the same. -/
theorem getD_all (x y : Option UInt8) (h : ∀ b, x.getD b = y.getD b) : x = y := by
  have hnext (b : UInt8) : b + 1 ≠ b := by
    intro heq
    have := congrArg UInt8.toNat heq
    simp at this
    omega
  cases x with
  | none =>
    cases y with
    | none => rfl
    | some c => exact absurd (h (c + 1)) (hnext c)
  | some b =>
    cases y with
    | none => exact absurd (h (b + 1)).symm (hnext b)
    | some c => exact congrArg some (h 0)

/-- What clipping says about an emulator that stores every block. -/
theorem clips_plain (t : WriteTracker.Range) (base : UInt64) (events : List GuestEvent)
    (hlogged : ∃ e ∈ events, e.isLogged t = true) (h : Clips t base events) (m : Mem) :
    (∀ i < t.length, storeAll m (replayStores t base events) (base.toNat + i) =
      (lastStored events (t.rangeStart.toNat + i)).getD (m (base.toNat + i))) ∧
    ∀ a, a < base.toNat ∨ base.toNat + t.length ≤ a →
      storeAll m (replayStores t base events) a = m a := by
  have hstored : ∀ r ∈ events.filterMap (GuestEvent.record t),
      r.StoredBy (fun address bytes m => store m address bytes) base := by
    intro r _
    cases r with
    | write pc offset data => exact fun m => rfl
    | flush pc offset => trivial
    | fence pc => trivial
  obtain ⟨m', hexits, hin, hout⟩ := h (fun address bytes m => store m address bytes)
    (fun _ _ _ _ => rfl) ⟨0, 0, 0, 0, []⟩ m
  have hreplay := replay_stores _ t base events hlogged hstored ⟨0, 0, 0, 0, []⟩ m
  cases hreplay.unique hexits
  exact ⟨hin, hout⟩

section Clipping

variable {t : WriteTracker.Range} {base : UInt64} (hbase : base.toNat + t.length ≤ 2 ^ 64)
  {events : List GuestEvent}

include hbase

/-- A byte behind the region keeps its value only if nothing is stored there. -/
theorem Clips.ends (h : Clips t base events) (pc pa : UInt64) (data : Buffer)
    (he : GuestEvent.write pc pa data ∈ events) (hc : t.contains pa = true) :
    pa.toNat + data.val.length ≤ t.rangeEnd.toNat := by
  by_contra hpast
  obtain ⟨b, hb⟩ := Option.ne_none_iff_exists'.mp
    (replayStores_behind t base hbase events pc pa data he hc (by omega))
  have hsame (c : UInt8) : (some b).getD c = (none : Option UInt8).getD c := by
    have hout := (clips_plain t base events (clips_logged t base events h) h fun _ => c).2
      (base.toNat + t.length) (Or.inr (Nat.le_refl _))
    rwa [storeAll_apply, hb] at hout
  cases getD_all _ _ hsame

theorem Clips.starts (h : Clips t base events) (i : Nat) (hi : i < t.length) :
    lastStored events (t.rangeStart.toNat + i) =
      lastStored (events.filter (GuestEvent.isLogged t)) (t.rangeStart.toNat + i) := by
  symm
  apply getD_all
  intro b
  have hin := (clips_plain t base events (clips_logged t base events h) h fun _ => b).1 i hi
  rwa [storeAll_apply, lastByte_replayStores t base hbase] at hin

/-- No store of the replay reaches an address outside the region. -/
theorem CrossesHarmlessly.outside (h : CrossesHarmlessly t events) (a : Nat)
    (ha : a < base.toNat ∨ base.toNat + t.length ≤ a) :
    lastByte (replayStores t base events) a = none := by
  rw [lastByte_eq_none]
  intro s hs
  obtain ⟨r, hr, hrs⟩ := List.mem_filterMap.mp hs
  obtain ⟨hlo, hhi⟩ := replayStores_within t base hbase events h.ends r hr s hrs
  rw [Store.byteAt_eq_none]
  omega

theorem CrossesHarmlessly.storedBy (h : CrossesHarmlessly t events)
    {rw : Nat → List UInt8 → Mem → Mem} (hrw : StoresBlock rw) :
    ∀ r ∈ events.filterMap (GuestEvent.record t), r.StoredBy rw base := by
  intro r hr
  have hwithin := replayStores_within t base hbase events h.ends r hr
  apply Record.Fits.storedBy hrw
  cases r with
  | write pc offset data => exact (hwithin _ rfl).2.trans hbase
  | flush pc offset => trivial
  | fence pc => trivial

theorem CrossesHarmlessly.clips (h : CrossesHarmlessly t events) : Clips t base events := by
  intro rw hrw locals m
  refine ⟨_, replay_stores rw t base events h.logged (h.storedBy hbase hrw) locals m, ?_, ?_⟩
  · intro i hi
    rw [storeAll_apply, lastByte_replayStores t base hbase, h.starts i hi]
  · intro a ha
    rw [storeAll_apply, h.outside hbase a ha]
    rfl

end Clipping

/-- The replay of a run clips its writes to the range exactly when something is logged, no write
that begins in the range runs past its end, and those that begin in front of it make no difference. -/
theorem range_clipping_iff (t : WriteTracker.Range) (base : UInt64)
    (hbase : base.toNat + t.length ≤ 2 ^ 64) (events : List GuestEvent) :
    Clips t base events ↔ CrossesHarmlessly t events := by
  constructor
  · intro h
    exact ⟨clips_logged t base events h, h.ends hbase, h.starts hbase⟩
  · intro h
    exact h.clips hbase

/-- A write that reaches into the range from in front of it, and is overwritten there. -/
def overwritten : List GuestEvent :=
  [.write 1 15 ⟨[3, 4], by decide⟩, .write 2 16 ⟨[6], by decide⟩]

theorem range_clipping_overwritten : Clips smallRange 100 overwritten := by
  apply (range_clipping_iff smallRange 100 (by decide) overwritten).mpr
  constructor
  · exact ⟨.write 2 16 ⟨[6], by decide⟩, by simp [overwritten], by decide⟩
  · intro pc pa data he hc
    simp only [overwritten, List.mem_cons, List.not_mem_nil, or_false] at he
    rcases he with heq | heq <;> cases heq <;> decide
  · decide

/-- A byte that is stored from in front of the range is lost, and one that is stored behind it is
written behind the region. -/
theorem range_clipping_fails :
    ¬ Clips smallRange 100 [.write 1 16 ⟨[7], by decide⟩, .write 2 15 ⟨[1, 2], by decide⟩] ∧
    ¬ Clips smallRange 100 [.write 1 19 ⟨[1, 2], by decide⟩] := by
  constructor
  · intro h
    have hin := (clips_plain _ _ _ ⟨_, List.mem_cons_self, by decide⟩ h fun _ => 0).1 0 (by decide)
    exact absurd hin (by decide)
  · intro h
    have hout := (clips_plain _ _ _ ⟨_, List.mem_cons_self, by decide⟩ h fun _ => 0).2 104
      (by decide)
    exact absurd hout (by decide)

end PMTester
