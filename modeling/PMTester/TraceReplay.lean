import PMTester.Replayer

/-!
# Replaying a memory trace

The replayer's loop takes the tracker's log apart record by record and repeats
the last record once more at the end of the file. Because storing a block twice
is storing it once, the replay region ends with the content of the tracked range.
-/
namespace PMTester

open Bytes Memory Loop

/-- A buffer in memory; no array has more than `PTRDIFF_MAX` bytes. -/
abbrev Buffer := { bytes : List UInt8 // bytes.length < 2 ^ 63 }

/-- A record of the trace. -/
inductive Record where
  | write (pc offset : UInt64) (data : Buffer)
  | flush (pc offset : UInt64)
  | fence (pc : UInt64)

namespace Record

def size (data : Buffer) : UInt64 := UInt64.ofNat data.val.length

theorem size_toNat (data : Buffer) : (size data).toNat = data.val.length := by
  have hdata := data.property
  rw [size, UInt64.toNat_ofNat', Nat.mod_eq_of_lt (by omega)]

def encode : Record → List UInt8
  | .write pc offset data => WriteTracker.logOutput pc .write offset (size data) data.val
  | .flush pc offset => WriteTracker.logOutput pc .flush offset 0 []
  | .fence pc => WriteTracker.logOutput pc .fence 0 0 []

/-- The effect of a record on the memory it is replayed into. -/
def apply (base : UInt64) : Record → Mem → Mem
  | .write _ offset data, m => store m (base + offset).toNat data.val
  | .flush _ _, m => m
  | .fence _, m => m

/-- The replayer's locals hold this record: what a round without input works on. -/
def Held : Record → Replayer.Locals → Prop
  | .write _ offset data, l =>
    l.type = Replayer.write ∧ l.offset = offset ∧ l.writeSize = size data ∧ l.writeData = data.val
  | .flush _ _, l => l.type = Replayer.flush
  | .fence _, l => l.type = Replayer.fence

theorem apply_idem (base : UInt64) (r : Record) (m : Mem) :
    r.apply base (r.apply base m) = r.apply base m := by
  cases r with
  | write pc offset data => exact store_idem _ _ _
  | flush pc offset => rfl
  | fence pc => rfl

theorem length_resize (data : List UInt8) (n : Nat) : (Replayer.resize data n).length = n := by
  simp only [Replayer.resize, List.length_append, List.length_take, List.length_replicate]
  omega

/-- The locals after a record is read in full. -/
def load : Record → Replayer.Locals → Replayer.Locals
  | .write pc offset data, _ => ⟨pc, Replayer.write, offset, size data, data.val⟩
  | .flush pc offset, l => { l with pc := pc, type := Replayer.flush, offset := offset }
  | .fence pc, l => { l with pc := pc, type := Replayer.fence }

theorem held_load (r : Record) (l : Replayer.Locals) : Held r (r.load l) := by
  cases r with
  | write pc offset data => exact ⟨rfl, rfl, rfl, rfl⟩
  | flush pc offset => rfl
  | fence pc => rfl

theorem word_mod (w : UInt64) : w.toNat % 256 ^ 8 = w.toNat := Nat.mod_eq_of_lt w.toNat_lt

/-- The loop reads a record that is there in full, whatever the locals held. -/
theorem decode_encode (r : Record) (l : Replayer.Locals) (rest : List UInt8) :
    Replayer.decode l ⟨r.encode ++ rest, true⟩ = some (r.load l, ⟨rest, true⟩) := by
  cases r with
  | write pc offset data =>
    have hdata := data.property
    have hsize : ¬ (2 ^ 63 ≤ data.val.length) := by omega
    have htake : data.val.take data.val.length = data.val := List.take_length
    simp only [encode, WriteTracker.logOutput, WriteTracker.EventType.code, List.append_assoc,
      Replayer.decode, IStream.readUint_append, word_mod, size_toNat, htake]
    rw [Nat.mod_eq_of_lt (show data.val.length < 256 ^ 8 by omega), if_pos (by decide),
      if_neg hsize, IStream.readInto_append _ _ _ (length_resize _ _).symm]
    simp [load, size, Replayer.write]
  | flush pc offset =>
    simp only [encode, WriteTracker.logOutput, WriteTracker.EventType.code, List.append_assoc,
      Replayer.decode, IStream.readUint_append, word_mod]
    rw [if_neg (by decide), if_pos (by decide)]
    simp [load, Replayer.flush]
  | fence pc =>
    simp only [encode, WriteTracker.logOutput, WriteTracker.EventType.code, List.append_assoc,
      Replayer.decode, IStream.readUint_append, word_mod, List.nil_append]
    rw [if_neg (by decide), if_neg (by decide)]
    simp [load, Replayer.fence]

/-- At the end of the file every read fails and the locals keep the last record. -/
theorem decode_end (r : Record) (l : Replayer.Locals) (h : Held r l) :
    Replayer.decode l ⟨[], true⟩ = some (l, ⟨[], false⟩) := by
  have htype : l.type.toNat % 256 ^ 4 = l.type.toNat := Nat.mod_eq_of_lt l.type.toNat_lt
  simp only [Replayer.decode, IStream.readUint_end 8 _ (by decide), IStream.readUint_failed,
    word_mod, htype, UInt64.ofNat_toNat, UInt32.ofNat_toNat, IStream.readInto_failed]
  cases r with
  | write pc offset data =>
    obtain ⟨ht, -, hsize, hdata⟩ := h
    have hbound := data.property
    have hsame : Replayer.resize l.writeData l.writeSize.toNat = l.writeData := by
      simp [Replayer.resize, hsize, hdata, size_toNat]
    rw [if_pos ht, if_neg (by rw [hsize, size_toNat]; omega), hsame]
  | flush pc offset =>
    have ht : l.type = Replayer.flush := h
    rw [if_neg (by rw [ht]; decide), if_pos ht]
  | fence pc =>
    have ht : l.type = Replayer.fence := h
    rw [if_neg (by rw [ht]; decide), if_neg (by rw [ht]; decide)]

end Record

/-- `panda_physical_memory_rw` with a buffer to write: it stores the buffer at the
address, for every block that ends inside the address space. -/
def StoresBlock (rw : Nat → List UInt8 → Mem → Mem) : Prop :=
  ∀ address bytes m, address + bytes.length ≤ 2 ^ 64 → rw address bytes m = store m address bytes

/-- The write of a record ends inside the address space. -/
def Record.Fits (base : UInt64) : Record → Prop
  | .write _ offset data => (base + offset).toNat + data.val.length ≤ 2 ^ 64
  | .flush _ _ => True
  | .fence _ => True

/-- The emulator stores the block of a record. -/
def Record.StoredBy (rw : Nat → List UInt8 → Mem → Mem) (base : UInt64) : Record → Prop
  | .write _ offset data =>
    ∀ m, rw (base + offset).toNat data.val m = store m (base + offset).toNat data.val
  | .flush _ _ => True
  | .fence _ => True

theorem Record.Fits.storedBy {rw : Nat → List UInt8 → Mem → Mem} (hrw : StoresBlock rw)
    {base : UInt64} {r : Record} (h : r.Fits base) : r.StoredBy rw base := by
  cases r with
  | write pc offset data => exact fun m => hrw _ _ _ h
  | flush pc offset => trivial
  | fence pc => trivial

section Rounds

variable (rw : Nat → List UInt8 → Mem → Mem) (base : UInt64)

/-- The memory effect of a round whose locals hold a record. -/
theorem apply_of_held (r : Record) (hstored : r.StoredBy rw base) (l : Replayer.Locals)
    (h : r.Held l) (m : Mem) :
    (if l.type = Replayer.write then rw (base + l.offset).toNat l.writeData m else m) =
      r.apply base m := by
  cases r with
  | write pc offset data =>
    obtain ⟨ht, hoffset, -, hdata⟩ := h
    rw [if_pos ht, hoffset, hdata]
    exact hstored m
  | flush pc offset =>
    have ht : l.type = Replayer.flush := h
    rw [if_neg (by rw [ht]; decide)]
    rfl
  | fence pc =>
    have ht : l.type = Replayer.fence := h
    rw [if_neg (by rw [ht]; decide)]
    rfl

/-- A round that leaves a record in the locals applies it. -/
theorem body_of_decode (r : Record) (hstored : r.StoredBy rw base) (l l' : Replayer.Locals)
    (unread : List UInt8) (input : IStream)
    (hdecode : Replayer.decode l ⟨unread, true⟩ = some (l', input)) (h : r.Held l') (m : Mem) :
    Replayer.body rw base ⟨l, ⟨unread, true⟩, m⟩ = .inr ⟨l', input, r.apply base m⟩ := by
  simp only [Replayer.body, hdecode, ↓reduceIte]
  rw [apply_of_held rw base r hstored l' h m]

/-- The last round, at the end of the file, applies what the locals hold. -/
theorem replay_end (last : Record) (hlast : last.StoredBy rw base) (l : Replayer.Locals)
    (hl : last.Held l) (m : Mem) :
    Exits (Replayer.body rw base) ⟨l, ⟨[], true⟩, m⟩ (.done (last.apply base m)) := by
  have hstale := body_of_decode rw base last hlast l l [] ⟨[], false⟩ (last.decode_end l hl) hl m
  exact Exits.next hstale (Exits.done (by simp [Replayer.body]))

/-- The loop on a trace of whole records that follow a held one: they are applied
in order, and the last of them once more. -/
theorem replay_records (last : Record) (hlast : last.StoredBy rw base) (rs : List Record)
    (hrs : ∀ r ∈ rs, r.StoredBy rw base) (l : Replayer.Locals) (hl : last.Held l) (m : Mem)
    (hm : last.apply base m = m) :
    Exits (Replayer.body rw base) ⟨l, ⟨rs.flatMap Record.encode, true⟩, m⟩
      (.done (rs.foldl (fun m r => r.apply base m) m)) := by
  induction rs generalizing last l m with
  | nil =>
    have hend := replay_end rw base last hlast l hl m
    rwa [hm] at hend
  | cons r rs ih =>
    have hr := hrs r (by simp)
    have hround := body_of_decode rw base r hr l _ _ _
      (r.decode_encode l (rs.flatMap Record.encode)) (r.held_load l) m
    rw [List.flatMap_cons, List.foldl_cons]
    exact Exits.next hround
      (ih r hr (fun r' hr' => hrs r' (by simp [hr'])) _ (r.held_load l) _ (r.apply_idem base m))

/-- A nonempty trace is replayed in full, from any values of the locals. -/
theorem replay_trace (rs : List Record) (hne : rs ≠ []) (hrs : ∀ r ∈ rs, r.StoredBy rw base)
    (l : Replayer.Locals) (m : Mem) :
    Exits (Replayer.body rw base) ⟨l, ⟨rs.flatMap Record.encode, true⟩, m⟩
      (.done (rs.foldl (fun m r => r.apply base m) m)) := by
  cases rs with
  | nil => exact absurd rfl hne
  | cons r rs =>
    have hr := hrs r (by simp)
    have hround := body_of_decode rw base r hr l _ _ _
      (r.decode_encode l (rs.flatMap Record.encode)) (r.held_load l) m
    rw [List.flatMap_cons, List.foldl_cons]
    exact Exits.next hround (replay_records rw base r hr rs (fun r' hr' => hrs r' (by simp [hr'])) _
      (r.held_load l) _ (r.apply_idem base m))

end Rounds

/-- What happens in the guest: a physical write, an executed flush, an executed fence. -/
inductive GuestEvent where
  | write (pc pa : UInt64) (data : Buffer)
  | flush (pc offset : UInt64)
  | fence (pc : UInt64)

namespace GuestEvent

/-- What an event appends to the trace. -/
def logged (t : WriteTracker.Range) : GuestEvent → List UInt8
  | .write pc pa data => WriteTracker.memWriteCallback t pc pa (Record.size data) data.val
  | .flush pc offset => WriteTracker.logOutput pc .flush offset 0 []
  | .fence pc => WriteTracker.logOutput pc .fence 0 0 []

/-- The effect of an event on guest memory. -/
def effect : GuestEvent → Mem → Mem
  | .write _ pa data, m => store m pa.toNat data.val
  | .flush _ _, m => m
  | .fence _, m => m

/-- The record of an event, for events that have one. -/
def record (t : WriteTracker.Range) : GuestEvent → Option Record
  | .write pc pa data => if t.contains pa then some (.write pc (pa - t.rangeStart) data) else none
  | .flush pc offset => some (.flush pc offset)
  | .fence pc => some (.fence pc)

/-- A write lies wholly inside the tracked range or wholly outside of it. -/
def Aligned (t : WriteTracker.Range) : GuestEvent → Prop
  | .write _ pa data =>
    (t.rangeStart.toNat ≤ pa.toNat ∧ pa.toNat + data.val.length ≤ t.rangeEnd.toNat) ∨
      pa.toNat + data.val.length ≤ t.rangeStart.toNat ∨ t.rangeEnd.toNat ≤ pa.toNat
  | .flush _ _ => True
  | .fence _ => True

/-- A write does not touch an interval of addresses. -/
def Avoids (start size : Nat) : GuestEvent → Prop
  | .write _ pa data =>
    pa.toNat + data.val.length ≤ start ∨ start + size ≤ pa.toNat
  | .flush _ _ => True
  | .fence _ => True

theorem logged_eq (t : WriteTracker.Range) (e : GuestEvent) :
    e.logged t = (e.record t).toList.flatMap Record.encode := by
  cases e with
  | write pc pa data =>
    cases hc : t.contains pa <;>
      simp [logged, record, WriteTracker.memWriteCallback, hc, Record.encode]
  | flush pc offset => simp [logged, record, Record.encode]
  | fence pc => simp [logged, record, Record.encode]

end GuestEvent

/-- The trace of a run, and the guest memory after it. -/
def trace (t : WriteTracker.Range) (events : List GuestEvent) : List UInt8 :=
  events.flatMap (GuestEvent.logged t)

def guestRun (events : List GuestEvent) (m : Mem) : Mem := events.foldl (fun m e => e.effect m) m

theorem trace_eq (t : WriteTracker.Range) (events : List GuestEvent) :
    trace t events = (events.filterMap (GuestEvent.record t)).flatMap Record.encode := by
  induction events with
  | nil => rfl
  | cons e events ih =>
    have hrest : trace t (e :: events) = e.logged t ++ trace t events := by simp [trace]
    rw [hrest, ih, GuestEvent.logged_eq]
    cases he : e.record t <;> simp [he]

namespace WriteTracker.Range

def length (t : Range) : Nat := t.rangeEnd.toNat - t.rangeStart.toNat

theorem contains_iff (t : Range) (pa : UInt64) :
    t.contains pa = true ↔ t.rangeStart.toNat ≤ pa.toNat ∧ pa.toNat < t.rangeEnd.toNat := by
  simp [contains, UInt64.le_iff_toNat_le, UInt64.lt_iff_toNat_lt]

/-- The replay address of an address in the range, without wrap. -/
theorem replay_address (t : Range) (base pa : UInt64)
    (hbase : base.toNat + t.length ≤ 2 ^ 64) (hpa : t.contains pa = true) :
    (base + (pa - t.rangeStart)).toNat = base.toNat + (pa.toNat - t.rangeStart.toNat) := by
  rw [contains_iff] at hpa
  have hlength : pa.toNat - t.rangeStart.toNat < t.length := by
    unfold length
    omega
  have hsub : (pa - t.rangeStart).toNat = pa.toNat - t.rangeStart.toNat :=
    UInt64.toNat_sub_of_le _ _ (UInt64.le_iff_toNat_le.mpr hpa.1)
  rw [UInt64.toNat_add, hsub, Nat.mod_eq_of_lt (by omega)]

end WriteTracker.Range

/-- A run leaves an interval alone that its writes avoid. -/
theorem guestRun_avoids (start size : Nat) (events : List GuestEvent)
    (h : ∀ e ∈ events, e.Avoids start size) (m : Mem) (i : Nat) (hlo : start ≤ i)
    (hhi : i < start + size) : guestRun events m i = m i := by
  induction events generalizing m with
  | nil => rfl
  | cons e events ih =>
    have hrest := ih (fun e' he' => h e' (by simp [he'])) (e.effect m)
    have hstep : e.effect m i = m i := by
      have he := h e (by simp)
      cases e with
      | write pc pa data =>
        simp only [GuestEvent.Avoids] at he
        exact store_outside _ _ _ _ (by omega)
      | flush pc offset => rfl
      | fence pc => rfl
    exact hrest.trans hstep

section Region

variable (t : WriteTracker.Range) (base : UInt64) (hbase : base.toNat + t.length ≤ 2 ^ 64)

include hbase

/-- A record of an aligned event stays inside the replay region. -/
theorem record_within (e : GuestEvent) (halign : e.Aligned t) (pc offset : UInt64) (data : Buffer)
    (h : e.record t = some (.write pc offset data)) :
    base.toNat ≤ (base + offset).toNat ∧
      (base + offset).toNat + data.val.length ≤ base.toNat + t.length := by
  cases e with
  | write pc' pa data' =>
    simp only [GuestEvent.record, Option.ite_none_right_eq_some] at h
    obtain ⟨hc, heq⟩ := h
    cases heq
    rw [t.replay_address base pa hbase hc]
    rw [WriteTracker.Range.contains_iff] at hc
    simp only [GuestEvent.Aligned] at halign
    unfold WriteTracker.Range.length
    omega
  | flush pc offset => simp [GuestEvent.record] at h
  | fence pc => simp [GuestEvent.record] at h

theorem record_fits (e : GuestEvent) (halign : e.Aligned t) (r : Record)
    (h : e.record t = some r) : r.Fits base := by
  cases r with
  | write pc offset data =>
    have hin := record_within t base hbase e halign pc offset data h
    simp only [Record.Fits]
    omega
  | flush pc offset => trivial
  | fence pc => trivial

/-- One event keeps the replay region equal to the tracked range. -/
theorem region_step (e : GuestEvent) (halign : e.Aligned t) (g r : Mem)
    (h : ∀ i < t.length, r (base.toNat + i) = g (t.rangeStart.toNat + i)) (i : Nat)
    (hi : i < t.length) :
    (e.record t).toList.foldl (fun m r => r.apply base m) r (base.toNat + i) =
      e.effect g (t.rangeStart.toNat + i) := by
  cases e with
  | write pc pa data =>
    cases hc : t.contains pa with
    | true =>
      have haddress := t.replay_address base pa hbase hc
      have hin := (t.contains_iff pa).mp hc
      simp only [GuestEvent.record, hc, ↓reduceIte, Option.toList_some, List.foldl_cons,
        List.foldl_nil, Record.apply, GuestEvent.effect, haddress]
      exact store_shift _ _ _ _ _ _ _ (h i hi) (by omega) (by omega)
    | false =>
      have hout : ¬ (t.rangeStart.toNat ≤ pa.toNat ∧ pa.toNat < t.rangeEnd.toNat) := by
        rw [← t.contains_iff pa, hc]
        decide
      have hi' : i < t.rangeEnd.toNat - t.rangeStart.toNat := hi
      simp only [GuestEvent.Aligned] at halign
      simp only [GuestEvent.record, hc, Bool.false_eq_true, ↓reduceIte, Option.toList_none,
        List.foldl_nil, GuestEvent.effect]
      rw [h i hi, store_outside _ _ _ _ (by omega)]
  | flush pc offset => exact h i hi
  | fence pc => exact h i hi

/-- One event replays into the replay region only. -/
theorem outside_step (e : GuestEvent) (halign : e.Aligned t) (m : Mem) (a : Nat)
    (ha : a < base.toNat ∨ base.toNat + t.length ≤ a) :
    (e.record t).toList.foldl (fun m r => r.apply base m) m a = m a := by
  cases hr : e.record t with
  | none => rfl
  | some r =>
    cases r with
    | write pc offset data =>
      have hin := record_within t base hbase e halign pc offset data hr
      exact store_outside _ _ _ _ (by omega)
    | flush pc offset => rfl
    | fence pc => rfl

/-- The records of a run turn a copy of the initial range into a copy of the final one. -/
theorem region_run (events : List GuestEvent) (halign : ∀ e ∈ events, e.Aligned t) (g r : Mem)
    (h : ∀ i < t.length, r (base.toNat + i) = g (t.rangeStart.toNat + i)) :
    (∀ i < t.length,
      (events.filterMap (GuestEvent.record t)).foldl (fun m r => r.apply base m) r
        (base.toNat + i) = guestRun events g (t.rangeStart.toNat + i)) ∧
      ∀ a, a < base.toNat ∨ base.toNat + t.length ≤ a →
        (events.filterMap (GuestEvent.record t)).foldl (fun m r => r.apply base m) r a = r a := by
  induction events generalizing g r with
  | nil => exact ⟨h, fun a _ => rfl⟩
  | cons e events ih =>
    have he := halign e (by simp)
    have hsplit : (e :: events).filterMap (GuestEvent.record t) =
        (e.record t).toList ++ events.filterMap (GuestEvent.record t) := by
      cases hr : e.record t <;> simp [hr]
    obtain ⟨hin, hout⟩ := ih (fun e' he' => halign e' (by simp [he'])) (e.effect g)
      ((e.record t).toList.foldl (fun m r => r.apply base m) r)
      (region_step t base hbase e he g r h)
    rw [hsplit, List.foldl_append]
    exact ⟨hin, fun a ha => (hout a ha).trans (outside_step t base hbase e he r a ha)⟩

end Region

/-- Replaying the trace of a run makes the replay region equal to the tracked range
and changes nothing else. -/
theorem replay_equivalence (rw : Nat → List UInt8 → Mem → Mem) (hrw : StoresBlock rw)
    (t : WriteTracker.Range) (base : UInt64) (hbase : base.toNat + t.length ≤ 2 ^ 64)
    (events : List GuestEvent) (halign : ∀ e ∈ events, e.Aligned t)
    (havoid : ∀ e ∈ events, e.Avoids base.toNat t.length) (htrace : trace t events ≠ [])
    (m : Mem) (hm : ∀ i < t.length, m (base.toNat + i) = m (t.rangeStart.toNat + i))
    (locals : Replayer.Locals) :
    ∃ m', Exits (Replayer.body rw base) ⟨locals, ⟨trace t events, true⟩, guestRun events m⟩
        (.done m') ∧
      (∀ i < t.length, m' (base.toNat + i) = guestRun events m (t.rangeStart.toNat + i)) ∧
      ∀ a, a < base.toNat ∨ base.toNat + t.length ≤ a → m' a = guestRun events m a := by
  have hcopy : ∀ i < t.length,
      guestRun events m (base.toNat + i) = m (t.rangeStart.toNat + i) := by
    intro i hi
    rw [guestRun_avoids _ _ events havoid m _ (by omega) (by omega), hm i hi]
  have hrecords : events.filterMap (GuestEvent.record t) ≠ [] := by
    intro hnil
    rw [trace_eq, hnil] at htrace
    exact htrace rfl
  have hstored : ∀ r ∈ events.filterMap (GuestEvent.record t), r.StoredBy rw base := by
    intro r hr
    obtain ⟨e, he, her⟩ := List.mem_filterMap.mp hr
    exact (record_fits t base hbase e (halign e he) r her).storedBy hrw
  have hexits := replay_trace rw base _ hrecords hstored locals (guestRun events m)
  rw [← trace_eq] at hexits
  obtain ⟨hin, hout⟩ := region_run t base hbase events halign m (guestRun events m) hcopy
  exact ⟨_, hexits, hin, hout⟩

def smallRange : WriteTracker.Range := ⟨16, 20⟩

/-- Two overlapping writes into the range, one outside of it, and a flush. -/
def smallRun : List GuestEvent :=
  [.write 1 17 ⟨[7, 8], by decide⟩, .flush 2 1, .write 3 18 ⟨[9], by decide⟩,
    .write 4 40 ⟨[5], by decide⟩]

theorem replay_equivalence_small :
    ∃ m', Exits (Replayer.body (fun address bytes m => store m address bytes) 100)
        ⟨⟨0, 5, 0, 0, []⟩, ⟨trace smallRange smallRun, true⟩, guestRun smallRun fun _ => 0⟩
        (.done m') ∧ m' 101 = 7 ∧ m' 102 = 9 ∧ m' 40 = 5 := by
  obtain ⟨m', hexits, hin, hout⟩ := replay_equivalence (fun address bytes m => store m address bytes)
    (fun _ _ _ _ => rfl) smallRange 100 (by decide) smallRun
    (by simp [smallRun, smallRange, GuestEvent.Aligned])
    (by simp [smallRun, smallRange, GuestEvent.Avoids, WriteTracker.Range.length])
    (by decide) (fun _ => 0) (fun _ _ => rfl) ⟨0, 5, 0, 0, []⟩
  exact ⟨m', hexits, (hin 1 (by decide)).trans (by decide), (hin 2 (by decide)).trans (by decide),
    (hout 40 (by decide)).trans (by decide)⟩

end PMTester
