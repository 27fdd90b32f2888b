import PMTester.ChangeLog
import PMTester.FrameSize

/-!
# Round trip of the change log

A log of recorded mods without removals is read back as `wire` leaves each mod.
That is the mod itself, its stat data apart, unless a mod of the creating type
carries a location: the write of a directory records one, and the frame of a
creation has no place for it.
-/
namespace PMTester

open Bytes Memory Word

def DiskMod.isCheckpoint (m : DiskMod) : Bool := m.modType == .kCheckpointMod

/-- The fields a log is meant to carry: all but the stat data. -/
def DiskMod.logged (m : DiskMod) : DiskMod := { m with postModStats := {} }

/-- A list of mods cut at its checkpoints. An empty segment in front is not kept. -/
def segments (mods : List DiskMod) : List (List DiskMod) :=
  match mods.splitOnP DiskMod.isCheckpoint with
  | [] :: rest => rest
  | segs => segs

theorem DiskMod.modType_wire (m : DiskMod) : m.wire.modType = m.modType := by
  unfold DiskMod.wire
  split_ifs <;> rfl

namespace Tester

theorem addMod_checkpoint (mods : List (List DiskMod)) (m : DiskMod)
    (hm : m.isCheckpoint = true) : addMod mods m = mods ++ [[]] := by
  have ht : m.modType = .kCheckpointMod := by simpa [DiskMod.isCheckpoint] using hm
  simp [addMod, ht]

theorem addMod_other (mods : List (List DiskMod)) (last : List DiskMod) (m : DiskMod)
    (hm : m.isCheckpoint = false) : addMod (mods ++ [last]) m = mods ++ [last ++ [m]] := by
  have ht : m.modType ≠ .kCheckpointMod := by simpa [DiskMod.isCheckpoint] using hm
  simp [addMod, ht]

theorem addMod_first (m : DiskMod) (hm : m.isCheckpoint = false) : addMod [] m = [[m]] := by
  have ht : m.modType ≠ .kCheckpointMod := by simpa [DiskMod.isCheckpoint] using hm
  simp [addMod, ht]

/-- The reader's open segment goes on with the front of what is left. -/
theorem foldl_addMod (mods : List (List DiskMod)) (last l : List DiskMod) :
    l.foldl addMod (mods ++ [last]) =
      mods ++ (l.splitOnP DiskMod.isCheckpoint).modifyHead (last ++ ·) := by
  induction l generalizing mods last with
  | nil => simp [List.splitOnP_nil]
  | cons m l ih =>
    rw [List.foldl_cons, List.splitOnP_cons_eq_if_modifyHead]
    cases hm : m.isCheckpoint with
    | true =>
      rw [addMod_checkpoint _ m hm, ih (mods ++ [last]) []]
      cases l.splitOnP DiskMod.isCheckpoint <;> simp
    | false =>
      rw [addMod_other _ _ m hm, ih mods (last ++ [m])]
      simp [Function.comp_def]

/-- From empty `mods_`, the reader builds the segments. -/
theorem foldl_addMod_nil (l : List DiskMod) : l.foldl addMod [] = segments l := by
  cases l with
  | nil => rfl
  | cons m l =>
    rw [List.foldl_cons, segments, List.splitOnP_cons_eq_if_modifyHead]
    cases hm : m.isCheckpoint with
    | true =>
      have hfold := foldl_addMod [] [] l
      rw [addMod_checkpoint _ m hm, hfold]
      cases l.splitOnP DiskMod.isCheckpoint <;> simp
    | false =>
      have hfold := foldl_addMod [] [m] l
      rw [List.nil_append, List.nil_append] at hfold
      rw [addMod_first m hm, hfold]
      cases l.splitOnP DiskMod.isCheckpoint <;> simp

theorem addMod_wire (mods : List (List DiskMod)) (m : DiskMod) :
    addMod (mods.map (List.map DiskMod.wire)) m.wire =
      (addMod mods m).map (List.map DiskMod.wire) := by
  unfold addMod
  rw [DiskMod.modType_wire]
  split
  · simp
  · cases mods using List.reverseRecOn with
    | nil => simp
    | append_singleton front last => simp

/-- The frames keep the cut at the checkpoints. -/
theorem segments_wire (mods : List DiskMod) :
    segments (mods.map DiskMod.wire) = (segments mods).map (List.map DiskMod.wire) := by
  have hfold (start : List (List DiskMod)) :
      (mods.map DiskMod.wire).foldl addMod (start.map (List.map DiskMod.wire)) =
        (mods.foldl addMod start).map (List.map DiskMod.wire) := by
    induction mods generalizing start with
    | nil => rfl
    | cons m rest ih => rw [List.map_cons, List.foldl_cons, List.foldl_cons, addMod_wire, ih]
  simpa [foldl_addMod_nil] using hfold []

theorem flatten_foldl_addMod (l : List DiskMod) (mods : List (List DiskMod)) :
    (l.foldl addMod mods).flatten = mods.flatten ++ l.filter fun m => !m.isCheckpoint := by
  induction l generalizing mods with
  | nil => simp
  | cons m l ih =>
    rw [List.foldl_cons, ih]
    cases hm : m.isCheckpoint with
    | true => simp [addMod_checkpoint _ m hm, hm]
    | false =>
      rcases List.eq_nil_or_concat mods with rfl | ⟨front, last, rfl⟩
      · simp [addMod_first m hm, hm]
      · rw [List.concat_eq_append, addMod_other _ _ m hm]
        simp [hm]

end Tester

/-- No mod is lost, added or moved by the cut. -/
theorem flatten_segments (l : List DiskMod) :
    (segments l).flatten = l.filter fun m => !m.isCheckpoint := by
  rw [← Tester.foldl_addMod_nil, Tester.flatten_foldl_addMod]
  rfl

namespace DiskMod

/-- What the writer needs to put a mod down as its format, in one piece. -/
structure Writable (dm : DiskMod) : Prop where
  encodable : Encodable dm
  nulFree : (0 : UInt8) ∉ dm.path
  data : dm.fileModData.length < 2 ^ 31 - 16
  kept : dm.modType ≠ .kRemoveMod

theorem Writable.size {dm : DiskMod} (h : Writable dm) :
    dm.getSerializeSize = dm.format.length :=
  getSerializeSize_eq dm h.encodable (by have := h.data; omega) h.kept

theorem Writable.length_lt {dm : DiskMod} (h : Writable dm) : dm.format.length < 2 ^ 33 := by
  have hpath := h.encodable.path
  have hdata := h.data
  have hrange : (formatRange dm).length ≤ 16 + dm.fileModData.length := by
    unfold formatRange
    split
    · simp
    · simp
      omega
  have hrest : (if dm.nameOnly then [] else formatRange dm).length ≤
      16 + dm.fileModData.length := by
    split
    · simp
    · exact hrange
  have hbody : (if dm.headerOnly then []
      else formatChange dm ++ if dm.nameOnly then [] else formatRange dm).length ≤
      dm.path.length + 18 + dm.fileModData.length := by
    split
    · simp
    · rw [List.length_append, length_formatChange]
      omega
  simp only [format, formatBody, List.length_append, length_be, length_formatHeader]
  omega

/-- The return values of the serializing functions stay nonnegative. -/
theorem Writable.outcome {dm : DiskMod} (h : Writable dm) : dm.serialize.outcome = .buffer := by
  by_cases hh : dm.headerOnly
  · rw [serialize_headerOnly dm hh]
  by_cases hn : dm.nameOnly
  · rw [serialize_nameOnly dm hh hn h.encodable.path]
  have hdir := (h.encodable.file.resolve_left hh).resolve_left hn
  obtain ⟨range, res, hrange, -, -⟩ :=
    serializeDataRange_eq (12 + (dm.path.length + 2)) dm h.encodable.data
  have hres : 0 ≤ res := by
    have hdata := h.data
    unfold serializeDataRange at hrange
    split at hrange
    · cases hrange
      decide
    · rename_i hr
      have hlen := h.encodable.data.resolve_left hr
      split at hrange
      · cases hrange
      · cases hrange
        rw [toInt_of_fits _ (by omega) (by omega)]
        omega
  rw [serialize_file dm hh hn hdir h.encodable.path range res hrange, if_neg (by omega)]

theorem Writable.fits {dm : DiskMod} (h : Writable dm) :
    (dm.serialize.stores.any fun st => dm.format.length < st.stop) = false := by
  obtain ⟨htiles, -⟩ := serialize_tiles dm h.encodable
  rw [List.any_eq_false]
  intro st hst
  have hstop := (tiles_within _ _ _ htiles st hst).2
  simpa using hstop

/-- The reader takes the format of a mod for one frame. -/
theorem Writable.framed {dm : DiskMod} (h : Writable dm) :
    Tester.Framed dm.format (wire dm) := by
  have hlt := h.length_lt
  have hfront : dm.format.take 8 = be 8 dm.getSerializeSize :=
    List.take_left' (length_be 8 dm.getSerializeSize)
  constructor
  · simp [format]
  · omega
  · rw [hfront, ofBe_be, h.size, Nat.mod_eq_of_lt (by omega)]
  · exact deserialize_format _ dm h.encodable h.nulFree

end DiskMod

/-- The writer leaves the formats of its mods in the file, one after the other. -/
theorem RecordCmFsOps.serialize_eq (fresh : Nat → Mem) (answers : Nat → Int)
    (hans : ∀ n, 1 ≤ answers n) (mods : List DiskMod) (hmods : ∀ m ∈ mods, m.Writable)
    (rounds : Nat) (hr : (mods.flatMap DiskMod.format).length < rounds) (k : Transfer.Sink) :
    ∃ calls, serialize fresh answers rounds mods k =
      some (.ret 0, ⟨k.written ++ mods.flatMap DiskMod.format, calls⟩) := by
  induction mods generalizing k with
  | nil => exact ⟨k.calls, by simp [serialize]⟩
  | cons m mods ih =>
    have hm := hmods m (by simp)
    have hlt := hm.length_lt
    simp only [List.flatMap_cons, List.length_append] at hr
    have hframe := DiskMod.frame_format m hm.encodable hm.size (fresh mods.length)
    obtain ⟨calls, hwrite⟩ := writeWhole_eq answers hans m.format (by omega) rounds k (by omega)
    obtain ⟨calls', hrest⟩ := ih (fun m' hm' => hmods m' (by simp [hm'])) (by omega)
      ⟨k.written ++ m.format, calls⟩
    refine ⟨calls', ?_⟩
    simp only [serialize, hm.fits, hm.outcome, DiskMod.serialize_size, hm.size, hframe, hwrite,
      Bool.false_eq_true, ↓reduceIte, hrest, List.flatMap_cons, List.append_assoc]
    rfl

/-- Writer and reader together, up to what the frames do not carry. -/
theorem log_read_back (mods : List DiskMod) (hmods : ∀ m ∈ mods, m.Writable)
    (fresh : Nat → Mem) (answers : Nat → Int) (hans : ∀ n, 1 ≤ answers n) (env : Tester.ReadEnv)
    (hsize : ∀ n, 8 ≤ env.sizeAnswers n) (hbody : ∀ n, 1 ≤ env.bodyAnswers n)
    (rounds : Nat) (hr : (mods.flatMap DiskMod.format).length < rounds) :
    ∃ k, RecordCmFsOps.serialize fresh answers rounds mods ⟨[], 0⟩ = some (.ret 0, k) ∧
      Tester.getChangeData env rounds [] ⟨k.written, 0⟩ =
        some (.ret Tester.success, segments (mods.map DiskMod.wire)) := by
  obtain ⟨calls, hwrite⟩ := RecordCmFsOps.serialize_eq fresh answers hans mods hmods rounds hr ⟨[], 0⟩
  refine ⟨_, hwrite, ?_⟩
  have hread := Tester.getChangeData_eq env hsize hbody rounds
    (mods.map fun m => (m.format, m.wire)) (by
      intro e he
      obtain ⟨m, hm, rfl⟩ := List.mem_map.mp he
      exact (hmods m hm).framed) (by simpa [List.flatMap_map] using hr) [] 0
  rw [List.nil_append, ← Tester.foldl_addMod_nil]
  simpa [List.flatMap_map, List.foldl_map] using hread

/-- A mod that some recorder appends in some run. -/
def Producible (m : DiskMod) : Prop :=
  ∃ (σ : Type) (h : Host σ) (fs : σ) (ops : List CmOp), RefusesDirTrunc h.toFsFns ∧
    m ∈ (RecordCmFsOps.run h ops (World.start fs)).mods

theorem recorded_of_producible (m : DiskMod) (h : Producible m) : Recorded m := by
  obtain ⟨σ, h, fs, ops, hdir, hm⟩ := h
  exact RecordCmFsOps.run_recorded hdir ops (World.start fs) (by simp [World.start]) m hm

/-- A frame carries a recorded mod in full, unless it is a creation with a location. -/
theorem wire_eq_logged_iff (m : DiskMod) (h : Recorded m) (hr : m.modType ≠ .kRemoveMod) :
    m.wire = m.logged ↔ (m.modType = .kCreateMod → m.fileModLocation = 0) := by
  cases h with
  | marker t ht =>
    rcases ht with rfl | rfl <;> simp [DiskMod.wire, DiskMod.headerOnly, DiskMod.logged]
  | created p stats dir location =>
    simp [DiskMod.wire, DiskMod.headerOnly, DiskMod.nameOnly, DiskMod.logged, eq_comm]
  | named t ht p =>
    have ht : t = .kFsyncMod := ht.resolve_right hr
    simp [ht, DiskMod.wire, DiskMod.headerOnly, DiskMod.nameOnly, DiskMod.logged]
  | ranged t o hto p stats location len =>
    rcases hto with ⟨rfl, rfl⟩ | ⟨rfl | rfl, ho⟩
    · simp [DiskMod.wire, DiskMod.headerOnly, DiskMod.nameOnly, DiskMod.logged, DiskMod.rangeOnly]
    · simp [DiskMod.wire, DiskMod.headerOnly, DiskMod.nameOnly, DiskMod.logged, DiskMod.rangeOnly,
        ho]
    · simp [DiskMod.wire, DiskMod.headerOnly, DiskMod.nameOnly, DiskMod.logged, DiskMod.rangeOnly,
        ho]
  | data t ht o ho p stats location len bytes hlen hbound =>
    rcases ht with rfl | rfl <;>
      simp [DiskMod.wire, DiskMod.headerOnly, DiskMod.nameOnly, DiskMod.logged, DiskMod.rangeOnly,
        ho]

/-- The log of `mods` is written and read back complete: enough rounds give the
success values and every segment with all logged fields. -/
def RoundTrips (fresh : Nat → Mem) (answers : Nat → Int) (env : Tester.ReadEnv)
    (mods : List DiskMod) : Prop :=
  ∃ bound, ∀ rounds ≥ bound, ∃ k,
    RecordCmFsOps.serialize fresh answers rounds mods ⟨[], 0⟩ = some (.ret 0, k) ∧
      Tester.getChangeData env rounds [] ⟨k.written, 0⟩ =
        some (.ret Tester.success, segments (mods.map DiskMod.logged))

/-- Segments of two readings of the same mods are equal only if the readings are. -/
theorem segments_map_inj (f g : DiskMod → DiskMod) (mods : List DiskMod)
    (hf : ∀ m ∈ mods, (f m).modType = m.modType) (hg : ∀ m ∈ mods, (g m).modType = m.modType)
    (h : segments (mods.map f) = segments (mods.map g)) :
    ∀ m ∈ mods, m.modType ≠ .kCheckpointMod → f m = g m := by
  have hkeep : ∀ f : DiskMod → DiskMod, (∀ m ∈ mods, (f m).modType = m.modType) →
      ((mods.map f).filter fun m => !m.isCheckpoint) =
        (mods.filter fun m => !m.isCheckpoint).map f := by
    intro f hf
    rw [List.filter_map]
    congr 1
    apply List.filter_congr
    intro m hm
    simp [DiskMod.isCheckpoint, hf m hm]
  have hflat := congrArg List.flatten h
  rw [flatten_segments, flatten_segments, hkeep f hf, hkeep g hg] at hflat
  intro m hm ht
  exact List.map_inj_left.mp hflat m (by simp [hm, DiskMod.isCheckpoint, ht])

/-- With as many rounds as both readings need, the log is read back as it is decoded. -/
theorem roundTrips_iff (mods : List DiskMod) (hrec : ∀ m ∈ mods, Recorded m)
    (hmods : ∀ m ∈ mods, m.Writable) (fresh : Nat → Mem) (answers : Nat → Int)
    (hans : ∀ n, 1 ≤ answers n) (env : Tester.ReadEnv) (hsize : ∀ n, 8 ≤ env.sizeAnswers n)
    (hbody : ∀ n, 1 ≤ env.bodyAnswers n) :
    RoundTrips fresh answers env mods ↔
      ∀ m ∈ mods, m.modType = .kCreateMod → m.fileModLocation = 0 := by
  have hback := log_read_back mods hmods fresh answers hans env hsize hbody
  have hwire : ∀ m ∈ mods, m.wire = m.logged ↔ (m.modType = .kCreateMod → m.fileModLocation = 0) :=
    fun m hm => wire_eq_logged_iff m (hrec m hm) (hmods m hm).kept
  constructor
  · rintro ⟨bound, hround⟩ m hm ht
    let rounds := bound + (mods.flatMap DiskMod.format).length + 1
    obtain ⟨k, hwrite, hread⟩ := hround rounds (by omega)
    obtain ⟨k', hwrite', hread'⟩ := hback rounds (by omega)
    rw [hwrite] at hwrite'
    cases hwrite'
    rw [hread] at hread'
    have hsegs : segments (mods.map DiskMod.wire) = segments (mods.map DiskMod.logged) := by
      simpa using hread'.symm
    have heq := segments_map_inj DiskMod.wire DiskMod.logged mods
      (fun m _ => by unfold DiskMod.wire; split_ifs <;> rfl) (fun _ _ => rfl) hsegs m hm
      (by simp [ht])
    exact (hwire m hm).mp heq ht
  · intro hzero
    have hmap : mods.map DiskMod.wire = mods.map DiskMod.logged := by
      apply List.map_congr_left
      intro m hm
      exact (hwire m hm).mpr (hzero m hm)
    refine ⟨(mods.flatMap DiskMod.format).length + 1, ?_⟩
    intro rounds hr
    rw [← hmap]
    exact hback rounds (by omega)

/-- The log round trip holds exactly for the lists in which no creation carries a location. -/
theorem log_round_trip (mods : List DiskMod) (hrec : ∀ m ∈ mods, Producible m)
    (hkept : ∀ m ∈ mods, m.modType ≠ .kRemoveMod) (hnul : ∀ m ∈ mods, (0 : UInt8) ∉ m.path)
    (hpath : ∀ m ∈ mods, m.path.length < 2 ^ 31 - 2)
    (hdata : ∀ m ∈ mods, m.fileModData.length < 2 ^ 31 - 16)
    (fresh : Nat → Mem) (answers : Nat → Int) (hans : ∀ n, 1 ≤ answers n) (env : Tester.ReadEnv)
    (hsize : ∀ n, 8 ≤ env.sizeAnswers n) (hbody : ∀ n, 1 ≤ env.bodyAnswers n) :
    RoundTrips fresh answers env mods ↔
      ∀ m ∈ mods, m.modType = .kCreateMod → m.fileModLocation = 0 := by
  have hrec' : ∀ m ∈ mods, Recorded m := fun m hm => recorded_of_producible m (hrec m hm)
  exact roundTrips_iff mods hrec' (fun m hm => ⟨DiskMod.encodable_of_recorded m (hrec' m hm)
    (hpath m hm), hnul m hm, hdata m hm, hkept m hm⟩) fresh answers hans env hsize hbody

/-- The recorder's mods of a run from an empty file system that hands out descriptor 3 first. -/
def posixMods (ops : List CmOp) : List DiskMod :=
  (RecordCmFsOps.run (posix splitPath) ops (World.start (PosixFs.empty 3))).mods

theorem producible_posixMods (ops : List CmOp) (m : DiskMod) (hm : m ∈ posixMods ops) :
    Producible m :=
  ⟨PosixFs, posix splitPath, PosixFs.empty 3, ops, posix_refusesDirTrunc splitPath, hm⟩

/-- Two writes around a failing rename of the open file to a directory. -/
def directoryWriteRun : List CmOp :=
  [.open2 (path ['/', 'f']) (oCreat ||| oRdwr) 0o644#32, .write 3 [7], .mkdir (path ['/', 'd']) 0#32,
    .rename (path ['/', 'f']) (path ['/', 'd']), .write 3 [9]]

theorem log_round_trip_write :
    RoundTrips (fun _ _ => 170) (fun _ => 3) ⟨fun _ => 8, fun _ => 1, fun _ => 5⟩
      (posixMods (directoryWriteRun.take 3)) :=
  (log_round_trip _ (producible_posixMods _) (by decide +kernel) (by decide +kernel)
    (by decide +kernel) (by decide +kernel) _ _ (fun _ => by decide) _ (fun _ => by simp)
    (fun _ => by simp)).mpr (by decide +kernel)

/-- The second write of `directoryWriteRun` is recorded at location 1 and read back at 0. -/
theorem directory_write_lost :
    (∀ m ∈ posixMods directoryWriteRun, Producible m ∧ m.modType ≠ .kRemoveMod ∧
      (0 : UInt8) ∉ m.path ∧ m.path.length < 2 ^ 31 - 2 ∧ m.fileModData.length < 2 ^ 31 - 16) ∧
      ¬ RoundTrips (fun _ _ => 170) (fun _ => 3) ⟨fun _ => 8, fun _ => 1, fun _ => 5⟩
        (posixMods directoryWriteRun) := by
  have hkept : ∀ m ∈ posixMods directoryWriteRun, m.modType ≠ .kRemoveMod ∧
      (0 : UInt8) ∉ m.path ∧ m.path.length < 2 ^ 31 - 2 ∧
      m.fileModData.length < 2 ^ 31 - 16 := by decide +kernel
  have hrec : ∀ m ∈ posixMods directoryWriteRun, Recorded m :=
    fun m hm => recorded_of_producible m (producible_posixMods _ m hm)
  refine ⟨fun m hm => ⟨producible_posixMods _ m hm, hkept m hm⟩, fun hround => ?_⟩
  have hzero := (roundTrips_iff _ hrec (fun m hm => by
    obtain ⟨ht, hnul, hpath, hdata⟩ := hkept m hm
    exact ⟨DiskMod.encodable_of_recorded m (hrec m hm) hpath, hnul, hdata, ht⟩)
    _ _ (fun _ => by decide) _ (fun _ => by simp) (fun _ => by simp)).mp hround
  exact absurd hzero (by decide +kernel)

end PMTester
