import PMTester.TestRun
import PMTester.Posix
import PMTester.Verdict

/-!
# The test `j-lang150`

The test that comes with the harness, run by `BaseTestCase::Run` on any kernel,
from the calls it makes to the comparison that the parent makes of its log. Its
two writes bypass the recorder.
-/
namespace PMTester

open Script Transfer Memory Bytes

/-- A call through the recorder whose value is an `int`. -/
def Workload.callInt {σ : Type} (op : CmOp) (next : Int → Workload σ) : Workload σ :=
  .call op fun
    | .ret value => next value
    | _ => next 0

theorem Workload.outcome_callInt {σ S : Type} {cm : CmFsOps σ S} {op : CmOp} {s s' : S} {value : Int}
    (h : cm.call op s = (.ret value, s')) (next : Int → Workload σ) :
    (callInt op next).outcome cm s = (next value).outcome cm s' := by
  simp only [callInt, outcome, h]
  rfl

namespace JLang150

section

variable {σ : Type} (h : Host σ) (errno : σ → Int) (writeData : Int → UInt32 → UInt32 → σ → Int × σ)
  (mntDir : Path)

def aPath : Path := mntDir ++ path "/A".toList
def aFooPath : Path := mntDir ++ path "/A/foo".toList

def returnErrno : Workload σ := .direct (fun fs => (errno fs, fs)) .done

/-- `run`. `mkdir` and `WriteData` do not go through `cm_`. -/
def run (checkpoint : Int) : Workload σ :=
  .direct (h.fnMkdir (cStr (aPath mntDir)) 0o777#32) fun res =>
  if res < 0 then returnErrno errno
  else .callInt (.open2 (aFooPath mntDir) (oRdwr ||| oCreat) 0o777#32) fun fdAFoo =>
  if fdAFoo < 0 then .callInt (.close fdAFoo) fun _ => returnErrno errno
  else .direct (writeData fdAFoo 0 32768) fun res =>
  if res < 0 then .callInt (.close fdAFoo) fun _ => returnErrno errno
  else .direct (writeData fdAFoo 0 5000) fun res =>
  if res < 0 then .callInt (.close fdAFoo) fun _ => returnErrno errno
  else .callInt (.fsync fdAFoo) fun res =>
  if res < 0 then returnErrno errno
  else .callInt .checkpoint fun res =>
  if res < 0 then .done (-1)
  else if 0 + 1 = checkpoint then .done 1
  else .callInt (.close fdAFoo) fun res =>
  if res < 0 then returnErrno errno
  else .done 0

/-- All calls of the test up to its checkpoint succeed. -/
def Completes (fs : σ) : Prop :=
  let made := h.fnMkdir (cStr (aPath mntDir)) 0o777#32 fs
  let opened := RecordCmFsOps.cmOpen2 h (aFooPath mntDir) (oRdwr ||| oCreat) 0o777#32
    (World.start made.2)
  0 ≤ made.1 ∧ ∃ fd, opened.1 = .ret fd ∧ 0 ≤ fd ∧
    let first := writeData fd 0 32768 opened.2.fs
    let second := writeData fd 0 5000 first.2
    let synced := h.fnFsync fd second.2
    0 ≤ first.1 ∧ 0 ≤ second.1 ∧ 0 ≤ synced.1 ∧ 0 ≤ (h.toFsFns.cmCheckpoint synced.2).1

/-- The mod of an opening that creates the file. -/
def createMod (stats : Stat) : DiskMod :=
  { path := aFooPath mntDir, postModStats := stats, directoryMod := stats.isDir }

/-- The mods of the opening. -/
def Creates (mods : List DiskMod) : Prop := mods = [] ∨ ∃ stats, mods = [createMod mntDir stats]

def fsyncMod : DiskMod := { path := aFooPath mntDir, modType := .kFsyncMod }

/-- The log of a test that completes, and of one that does not. -/
def LogShape (complete : Prop) (mods : List DiskMod) : Prop :=
  ∃ created, Creates mntDir created ∧
    (complete → mods = created ++ [fsyncMod mntDir, { modType := .kCheckpointMod }]) ∧
    (¬ complete → mods = [] ∨ mods = created ∨ mods = created ++ [fsyncMod mntDir])

variable {h errno writeData mntDir}

/-- An opening enters the descriptor, and adds the creation if there is one. -/
theorem call_open2 (h : Host σ) (mntDir : Path) (fs : σ) :
    ∃ fd w, RecordCmFsOps.call h (.open2 (aFooPath mntDir) (oRdwr ||| oCreat) 0o777#32)
        (World.start fs) = (.ret fd, w) ∧
      (fd < 0 → w.mods = []) ∧ (0 ≤ fd → w.fdMap fd = some (aFooPath mntDir)) ∧
      Creates mntDir w.mods := by
  have hflags : (oRdwr ||| oCreat).has oTrunc = false := by decide
  simp only [RecordCmFsOps.call, RecordCmFsOps.cmOpen2, RecordCmFsOps.openWith]
  split
  · rename_i hneg
    refine ⟨_, _, rfl, fun _ => rfl, ?_, .inl rfl⟩
    omega
  · rename_i hneg
    refine ⟨_, _, rfl, fun hfd => absurd hfd hneg, fun _ => ?_, ?_⟩
    · simp only [RecordCmFsOps.cmOpenCommon]
      split_ifs <;> simp [World.push, World.start, insertFd]
    · simp only [RecordCmFsOps.cmOpenCommon, hflags, Bool.or_false]
      split
      · rename_i hnew
        split
        · exact .inl rfl
        · exact .inr ⟨_, rfl⟩
      · exact .inl rfl

/-- The rest of the test returns, with such a log. -/
def Logs (h : Host σ) (mntDir : Path) (complete : Prop) (x : Workload σ) (w : World σ) : Prop :=
  ∃ res w', x.outcome (recordCmFsOps h) w = (some res, w') ∧
    LogShape mntDir complete (loggedMods (some res, w'))

/-- Where the test may stop before its end. -/
def Stopped (mntDir : Path) (mods : List DiskMod) : Prop :=
  ∃ created, Creates mntDir created ∧
    (mods = [] ∨ mods = created ∨ mods = created ++ [fsyncMod mntDir])

section Steps

variable {complete : Prop} {w w' : World σ}

theorem logs_direct {act : σ → Int × σ} {next : Int → Workload σ}
    (hnext : Logs h mntDir complete (next (act w.fs).1) { w with fs := (act w.fs).2 }) :
    Logs h mntDir complete (.direct act next) w := hnext

theorem logs_call {op : CmOp} {value : Int} {next : Int → Workload σ}
    (hcall : RecordCmFsOps.call h op w = (.ret value, w'))
    (hnext : Logs h mntDir complete (next value) w') :
    Logs h mntDir complete (.callInt op next) w := by
  obtain ⟨res, w'', hend, hlog⟩ := hnext
  exact ⟨res, w'', (Workload.outcome_callInt hcall next).trans hend, hlog⟩

theorem logs_stop {x : Workload σ} {res : Int} (hend : x.outcome (recordCmFsOps h) w = (some res, w'))
    (hcomplete : ¬ complete) (hmods : Stopped mntDir w'.mods) : Logs h mntDir complete x w := by
  obtain ⟨created, hcreates, hmods⟩ := hmods
  refine ⟨res, w', hend, created, hcreates, fun hc => absurd hc hcomplete, fun _ => ?_⟩
  simp only [loggedMods]
  split
  · exact .inl rfl
  · exact hmods

theorem logs_returnErrno (hcomplete : ¬ complete) (hmods : Stopped mntDir w.mods) :
    Logs h mntDir complete (returnErrno errno) w :=
  logs_stop rfl hcomplete hmods

theorem call_close (fd : Int) (w : World σ) :
    ∃ res w', RecordCmFsOps.call h (.close fd) w = (.ret res, w') ∧ w'.mods = w.mods := by
  simp only [RecordCmFsOps.call, RecordCmFsOps.cmClose]
  split
  · exact ⟨_, _, rfl, rfl⟩
  · exact ⟨_, _, rfl, rfl⟩

theorem logs_close (hcomplete : ¬ complete) (fd : Int) (hmods : Stopped mntDir w.mods) :
    Logs h mntDir complete (.callInt (.close fd) fun _ => returnErrno errno) w := by
  obtain ⟨closed, w', hclose, hsame⟩ := call_close fd w
  exact logs_call hclose (logs_returnErrno hcomplete (hsame ▸ hmods))

/-- The end of a test that has made its checkpoint. -/
theorem logs_end (herrno : ∀ fs, 0 ≤ errno fs) (hcomplete : complete) (fd : Int)
    {created : List DiskMod} (hcreates : Creates mntDir created)
    (hmods : w.mods = created ++ [fsyncMod mntDir, { modType := .kCheckpointMod }]) :
    Logs h mntDir complete (.callInt (.close fd) fun res =>
      if res < 0 then returnErrno errno else .done 0) w := by
  obtain ⟨closed, w', hclose, hsame⟩ := call_close fd w
  apply logs_call hclose
  have hshape : LogShape mntDir complete w'.mods :=
    ⟨created, hcreates, fun _ => hsame.trans hmods, fun hnot => absurd hcomplete hnot⟩
  split
  · refine ⟨_, _, rfl, ?_⟩
    simpa [loggedMods, Int.not_lt.mpr (herrno _)] using hshape
  · exact ⟨_, _, rfl, hshape⟩

theorem call_fsync {fd : Int} {p : Path} (hentry : w.fdMap fd = some p) :
    ∃ w', RecordCmFsOps.call h (.fsync fd) w = (.ret (h.fnFsync fd w.fs).1, w') ∧
      w'.fs = (h.fnFsync fd w.fs).2 ∧
      w'.mods = w.mods ++
        if (h.fnFsync fd w.fs).1 < 0 then [] else [{ path := p, modType := .kFsyncMod }] := by
  simp only [RecordCmFsOps.call, RecordCmFsOps.cmFsync, RecordCmFsOps.fsyncWith, hentry]
  split
  · exact ⟨_, rfl, rfl, (List.append_nil _).symm⟩
  · exact ⟨_, rfl, rfl, rfl⟩

theorem call_checkpoint (w : World σ) :
    ∃ w', RecordCmFsOps.call h .checkpoint w = (.ret (h.toFsFns.cmCheckpoint w.fs).1, w') ∧
      w'.mods = w.mods ++
        if (h.toFsFns.cmCheckpoint w.fs).1 < 0 then [] else [{ modType := .kCheckpointMod }] := by
  simp only [RecordCmFsOps.call, RecordCmFsOps.cmCheckpoint]
  split
  · exact ⟨_, rfl, (List.append_nil _).symm⟩
  · exact ⟨_, rfl, rfl⟩

end Steps

/-- What the log of the test looks like, on every kernel. -/
theorem run_logs (h : Host σ) (herrno : ∀ fs, 0 ≤ errno fs)
    (writeData : Int → UInt32 → UInt32 → σ → Int × σ) (mntDir : Path) (fs : σ) :
    Logs h mntDir (Completes h writeData mntDir fs) (run h errno writeData mntDir 0)
      (World.start fs) := by
  have hempty : Stopped mntDir [] := ⟨[], .inl rfl, .inl rfl⟩
  apply logs_direct
  split
  · rename_i hmade
    exact logs_returnErrno (fun hc => absurd hc.1 (Int.not_le.mpr hmade)) hempty
  rename_i hmade
  obtain ⟨fd, w, hopen, hneg, hentry, hcreates⟩ :=
    call_open2 h mntDir (h.fnMkdir (cStr (aPath mntDir)) 0o777#32 fs).2
  have hcomplete : Completes h writeData mntDir fs ↔ 0 ≤ fd ∧
      0 ≤ (writeData fd 0 32768 w.fs).1 ∧
      0 ≤ (writeData fd 0 5000 (writeData fd 0 32768 w.fs).2).1 ∧
      0 ≤ (h.fnFsync fd (writeData fd 0 5000 (writeData fd 0 32768 w.fs).2).2).1 ∧
      0 ≤ (h.toFsFns.cmCheckpoint
        (h.fnFsync fd (writeData fd 0 5000 (writeData fd 0 32768 w.fs).2).2).2).1 := by
    have hopened : RecordCmFsOps.cmOpen2 h (aFooPath mntDir) (oRdwr ||| oCreat) 0o777#32
      (World.start (h.fnMkdir (cStr (aPath mntDir)) 0o777#32 fs).2) = (.ret fd, w) := hopen
    simp only [Completes, hopened]
    constructor
    · rintro ⟨-, fd', hfd, hrest⟩
      cases hfd
      exact hrest
    · exact fun hrest => ⟨Int.not_lt.mp hmade, fd, rfl, hrest⟩
  apply logs_call hopen
  split
  · rename_i hfd
    exact logs_close (fun hc => absurd (hcomplete.mp hc).1 (Int.not_le.mpr hfd)) fd
      ⟨_, hcreates, .inr (.inl rfl)⟩
  rename_i hfd
  apply logs_direct
  split
  · rename_i hfirst
    exact logs_close (fun hc => absurd (hcomplete.mp hc).2.1 (Int.not_le.mpr hfirst)) fd
      ⟨_, hcreates, .inr (.inl rfl)⟩
  rename_i hfirst
  apply logs_direct
  split
  · rename_i hsecond
    exact logs_close (fun hc => absurd (hcomplete.mp hc).2.2.1 (Int.not_le.mpr hsecond)) fd
      ⟨_, hcreates, .inr (.inl rfl)⟩
  rename_i hsecond
  obtain ⟨synced, hsync, hsyncedFs, hsyncedMods⟩ := call_fsync (h := h)
    (w := { w with fs := (writeData fd 0 5000 (writeData fd 0 32768 w.fs).2).2 })
    (hentry (Int.not_lt.mp hfd))
  apply logs_call hsync
  split
  · rename_i hsynced
    rw [if_pos hsynced, List.append_nil] at hsyncedMods
    exact logs_returnErrno (fun hc => absurd (hcomplete.mp hc).2.2.2.1 (Int.not_le.mpr hsynced))
      ⟨_, hcreates, .inr (.inl hsyncedMods)⟩
  rename_i hsynced
  rw [if_neg hsynced] at hsyncedMods
  obtain ⟨checked, hcheck, hcheckedMods⟩ := call_checkpoint (h := h) synced
  apply logs_call hcheck
  rw [hsyncedFs] at hcheckedMods ⊢
  split
  · rename_i hchecked
    rw [if_pos hchecked, List.append_nil] at hcheckedMods
    exact logs_stop rfl (fun hc => absurd (hcomplete.mp hc).2.2.2.2 (Int.not_le.mpr hchecked))
      ⟨_, hcreates, .inr (.inr (hcheckedMods.trans hsyncedMods))⟩
  rename_i hchecked
  rw [if_neg hchecked, hsyncedMods, List.append_assoc] at hcheckedMods
  exact logs_end herrno (hcomplete.mpr ⟨Int.not_lt.mp hfd, Int.not_lt.mp hfirst,
    Int.not_lt.mp hsecond, Int.not_lt.mp hsynced, Int.not_lt.mp hchecked⟩) fd hcreates hcheckedMods

end

theorem aFoo_plain : (aFooPath mntPointRecord).length = 16 ∧ (0 : UInt8) ∉ aFooPath mntPointRecord := by
  decide

theorem writable_create (stats : Stat) : (createMod mntPointRecord stats).Writable :=
  ⟨⟨.inr (.inl (.inr rfl)), .inr rfl, by simp [createMod, aFoo_plain]⟩, aFoo_plain.2,
    by simp [createMod], by simp [createMod]⟩

theorem writable_fsync : (fsyncMod mntPointRecord).Writable :=
  ⟨⟨by decide, by decide, by decide⟩, by decide, by decide, by decide⟩

theorem writable_checkpoint : DiskMod.Writable { modType := .kCheckpointMod } :=
  ⟨⟨by decide, by decide, by decide⟩, by decide, by decide, by decide⟩

theorem length_format_le {m : DiskMod} (hm : m.path.length ≤ 16) (hn : m.headerOnly ∨ m.nameOnly) :
    m.format.length ≤ 30 := by
  simp only [DiskMod.format, DiskMod.formatBody, List.length_append, Bytes.length_be,
    DiskMod.length_formatHeader]
  split
  · simp
  · rename_i hh
    rw [if_pos (hn.resolve_left hh), List.append_nil, DiskMod.length_formatChange]
    omega

theorem length_formats_le {mods : List DiskMod} {n : Nat} (h : ∀ m ∈ mods, m.format.length ≤ n) :
    (mods.flatMap DiskMod.format).length ≤ mods.length * n := by
  induction mods with
  | nil => simp
  | cons m rest ih =>
    have hm := h m (by simp)
    have hrest := ih fun m' hm' => h m' (by simp [hm'])
    rw [List.flatMap_cons, List.length_append, List.length_cons, Nat.succ_mul]
    omega

theorem mem_logShape {complete : Prop} {mods : List DiskMod}
    (h : LogShape mntPointRecord complete mods) :
    mods.length ≤ 3 ∧ ∀ m ∈ mods, (∃ stats, m = createMod mntPointRecord stats) ∨
      m = fsyncMod mntPointRecord ∨ m = { modType := .kCheckpointMod } := by
  obtain ⟨created, hcreates, hdone, hstopped⟩ := h
  have hcreated : created.length ≤ 1 ∧ ∀ m ∈ created, ∃ stats, m = createMod mntPointRecord stats := by
    obtain rfl | ⟨stats, rfl⟩ := hcreates
    · simp
    · simp
  by_cases hcomplete : complete
  · rw [hdone hcomplete]
    constructor
    · simpa using hcreated.1
    · intro m hm
      obtain hm | hm := List.mem_append.mp hm
      · exact .inl (hcreated.2 m hm)
      · exact .inr (by simpa using hm)
  · obtain rfl | rfl | rfl := hstopped hcomplete
    · simp
    · exact ⟨by omega, fun m hm => .inl (hcreated.2 m hm)⟩
    · constructor
      · simp
        omega
      · intro m hm
        obtain hm | hm := List.mem_append.mp hm
        · exact .inl (hcreated.2 m hm)
        · exact .inr (.inl (by simpa using hm))

/-- The log is one that can be written, in few rounds. -/
theorem logShape_writable {complete : Prop} {mods : List DiskMod}
    (h : LogShape mntPointRecord complete mods) :
    (∀ m ∈ mods, m.Writable) ∧ (mods.flatMap DiskMod.format).length ≤ 90 := by
  obtain ⟨hlength, hmem⟩ := mem_logShape h
  constructor
  · intro m hm
    obtain ⟨stats, rfl⟩ | rfl | rfl := hmem m hm
    · exact writable_create stats
    · exact writable_fsync
    · exact writable_checkpoint
  · have hformat : ∀ m ∈ mods, m.format.length ≤ 30 := by
      intro m hm
      obtain ⟨stats, rfl⟩ | rfl | rfl := hmem m hm
      · exact length_format_le (by simp [createMod, aFoo_plain]) (.inr (.inr rfl))
      · exact length_format_le (by simp [fsyncMod, aFoo_plain]) (.inr (.inl rfl))
      · exact length_format_le (Nat.zero_le _) (.inl (.inl rfl))
    have hsum := length_formats_le hformat
    omega

theorem LogShape.no_checkpoint {complete : Prop} {mods : List DiskMod}
    (h : LogShape mntPointRecord complete mods) (hnot : ¬ complete) :
    ∀ m ∈ mods, m.isCheckpoint = false := by
  obtain ⟨created, hcreates, -, hstopped⟩ := h
  have hcreated : ∀ m ∈ created, m.isCheckpoint = false := by
    obtain rfl | ⟨stats, rfl⟩ := hcreates
    · simp
    · simp [createMod, DiskMod.isCheckpoint]
  obtain rfl | rfl | rfl := hstopped hnot
  · simp
  · exact hcreated
  · intro m hm
    obtain hm | hm := List.mem_append.mp hm
    · exact hcreated m hm
    · cases List.mem_singleton.mp hm
      rfl

theorem checkedSegment_two (segment last : List DiskMod) :
    Tester.checkedSegment [segment, last] = some segment := by
  simp [Tester.checkedSegment, Word.toInt]

theorem checkedSegment_one (segment : List DiskMod) : Tester.checkedSegment [segment] = none := by
  simp [Tester.checkedSegment, Word.toInt]

/-- The comparison that the log asks for. -/
theorem checkedSegment_logShape {complete : Prop} {mods : List DiskMod}
    (h : LogShape mntPointRecord complete mods) :
    (complete → ∃ segment, Tester.checkedSegment (segments mods) = some segment ∧
      segment.find? Tester.stops = some (fsyncMod mntPointRecord)) ∧
    (¬ complete → Tester.checkedSegment (segments mods) = none) := by
  obtain ⟨created, hcreates, hdone, hstopped⟩ := h
  constructor
  · intro hcomplete
    rw [hdone hcomplete]
    obtain rfl | ⟨stats, rfl⟩ := hcreates
    · exact ⟨_, checkedSegment_two [fsyncMod _] [], rfl⟩
    · exact ⟨_, checkedSegment_two [createMod _ stats, fsyncMod _] [], rfl⟩
  · intro hnot
    obtain rfl | ⟨stats, rfl⟩ := hcreates
    · obtain rfl | rfl | rfl := hstopped hnot
      · rfl
      · rfl
      · exact checkedSegment_one [fsyncMod _]
    · obtain rfl | rfl | rfl := hstopped hnot
      · rfl
      · exact checkedSegment_one [createMod _ stats]
      · exact checkedSegment_one [createMod _ stats, fsyncMod _]

section

variable {σ τ : Type} (h : Host σ) (errno : σ → Int)
  (writeData : Int → UInt32 → UInt32 → σ → Int × σ) (fs : σ)

/-- The changes that are read are those of a child that has run the test to its end. -/
structure ChildWrote (answer : Tester.ReadEnv × Source) : Prop where
  sizes : ∀ n, 8 ≤ answer.1.sizeAnswers n
  bodies : ∀ n, 1 ≤ answer.1.bodyAnswers n
  written : ∃ fresh answers rounds res k, (∀ n, 1 ≤ answers n) ∧ 90 < rounds ∧
    BaseTestCase.runLogged h fresh answers rounds (run h errno writeData mntPointRecord 0) fs =
      some (some res, k) ∧ answer.2 = ⟨k.written, 0⟩

variable {h errno writeData fs}

variable (h errno writeData fs) in
/-- The mods that the child writes. -/
def childMods : List DiskMod :=
  loggedMods ((run h errno writeData mntPointRecord 0).outcome (recordCmFsOps h) (World.start fs))

theorem childMods_shape (h : Host σ) (herrno : ∀ fs, 0 ≤ errno fs)
    (writeData : Int → UInt32 → UInt32 → σ → Int × σ) (fs : σ) :
    LogShape mntPointRecord (Completes h writeData mntPointRecord fs)
      (childMods h errno writeData fs) := by
  obtain ⟨res, w, hend, hshape⟩ := run_logs h herrno writeData mntPointRecord fs
  rwa [childMods, hend]

/-- They are the log that is read. -/
theorem ChildWrote.readsLog (herrno : ∀ fs, 0 ≤ errno fs) {answer : Tester.ReadEnv × Source}
    (hwrote : ChildWrote h errno writeData fs answer) :
    ReadsLog (childMods h errno writeData fs) answer := by
  obtain ⟨hsizes, hbodies, fresh, answers, rounds, res', k, hans, hrounds, hrun, hfile⟩ := hwrote
  obtain ⟨res, w, hend, hshape⟩ := run_logs h herrno writeData mntPointRecord fs
  obtain ⟨hwritable, hlength⟩ := logShape_writable hshape
  rw [childMods, hend]
  refine ⟨hsizes, hbodies, fresh, answers, rounds, k, hans, by omega, ?_, hfile⟩
  simp only [BaseTestCase.runLogged, hend] at hrun
  by_cases hres : res < 0
  · rw [if_pos hres] at hrun
    cases hrun
    simp [loggedMods, hres, RecordCmFsOps.serialize]
  · rw [if_neg hres] at hrun
    simp only [loggedMods, hres, if_false] at hwritable hlength ⊢
    obtain ⟨calls, hwrite⟩ := RecordCmFsOps.serialize_eq fresh answers hans w.mods hwritable rounds
      (by omega) ⟨[], 0⟩
    rw [hwrite] at hrun ⊢
    cases hrun
    rfl

/-- A run of the program on this test compares the file `A/foo`, if the kernel has let the test
complete. If not, the log has no checkpoint, and an exception ends every run that comes to the
check. -/
theorem jlang150_checks_foo (h : Host σ) (errno : σ → Int) (herrno : ∀ fs, 0 ≤ errno fs)
    (writeData : Int → UInt32 → UInt32 → σ → Int × σ) (fs : σ) (d : DiskChecks τ) (a : Comparing d)
    (rounds : Nat) (hrounds : 90 < rounds) (fresh : SockMessage) (opts : List Opt) (s : Settings)
    (hopts : Settings.parse opts {} = some s) (files : List Path) (disks : τ) (e : MainExit)
    (l : Ledger τ)
    (hends : ComesTo (ledgerEnv a (ChildWrote h errno writeData fs))
      (Main.main rounds fresh opts files) (.fresh disks) e l) :
    (e = .returned 0 → l.mountFailed = false →
      Completes h writeData mntPointRecord fs ∧
        l.compared = [.entriesAtPath (path "/A/foo".toList)] ∧
        ∃ equal, Tester.verdict d (d.compareEntriesAtPath (path "/A/foo".toList)) disks =
            (equal, l.disks) ∧
          l.stats = [({} : TestSuiteResult).tallyTimingResult (checkInfo equal)]) ∧
      (¬ Completes h writeData mntPointRecord fs →
        (∀ m ∈ childMods h errno writeData fs, m.isCheckpoint = false) ∧
          (l.inspected = true → e = .aborted)) ∧
      (e = .aborted → getFSCommands s.fs = none ∨ ¬ Completes h writeData mntPointRecord fs ∨
        a.result (.entriesAtPath (path "/A/foo".toList)) disks = .badAlloc) := by
  have hshape := childMods_shape h herrno writeData fs
  obtain ⟨hwritable, hlength⟩ := logShape_writable hshape
  obtain ⟨hdone, hnot⟩ := checkedSegment_logShape hshape
  have hverdict := (wp_main (a := a) (fun _ hwrote => hwrote.readsLog herrno) hwritable (by omega)
    fresh hopts files disks).ends hends
  refine ⟨?_, fun hincomplete => ⟨hshape.no_checkpoint hincomplete, ?_⟩, ?_⟩
  · rintro rfl hmounted
    obtain ⟨suite, hchecked, hstats⟩ := hverdict
    obtain ⟨equal, hcheck, hcompared, -, -, rfl⟩ := hchecked.checked hmounted
    by_cases hcomplete : Completes h writeData mntPointRecord fs
    · obtain ⟨segment, hsegment, hfind⟩ := hdone hcomplete
      refine ⟨hcomplete, ?_, equal, ?_, hstats⟩
      · rw [hcompared, hsegment, Option.bind_some, hfind]
        rfl
      · rw [Tester.checkDiskAndSnapshotContents, hsegment, Option.map_some, Tester.checkLoop_eq,
          hfind] at hcheck
        exact Option.some.inj hcheck
    · rw [Tester.checkDiskAndSnapshotContents, hnot hcomplete] at hcheck
      cases hcheck
  · exact fun hinspected => hverdict.aborted_of_no_segment (hnot hincomplete) hinspected
  · rintro rfl
    obtain ⟨-, ⟨-, hfs⟩ | ⟨-, hnone⟩⟩ | ⟨⟨segment, first, hsegment, hfind, -, hthrown⟩, -, -⟩ :=
      hverdict
    · exact .inl hfs
    · refine .inr (.inl fun hcomplete => ?_)
      obtain ⟨segment, hsegment, -⟩ := hdone hcomplete
      cases hsegment.symm.trans hnone
    · by_cases hcomplete : Completes h writeData mntPointRecord fs
      · obtain ⟨segment', hsegment', hfind'⟩ := hdone hcomplete
        cases hsegment.symm.trans hsegment'
        cases hfind.symm.trans hfind'
        exact .inr (.inr hthrown)
      · exact .inr (.inl hcomplete)

end

/-- A file system with the mount point. -/
def mountedFs : PosixFs :=
  ((posix splitPath).fnMkdir mntPointRecord 0o755#32
    ((posix splitPath).fnMkdir (path "/mnt".toList) 0o755#32 (PosixFs.empty 3)).2).2

/-- What the test leaves there. -/
def smallOutcome : Option Int × World PosixFs :=
  (run (posix splitPath) (fun _ => 17) (fun _ _ _ fs => (0, fs)) mntPointRecord 0).outcome
    (recordCmFsOps (posix splitPath)) (World.start mountedFs)

theorem childWrote_small :
    ChildWrote (posix splitPath) (fun _ => 17) (fun _ _ _ fs => (0, fs)) mountedFs
      (wholeAnswer smallMods) := by
  obtain ⟨res, w, hend, hshape⟩ := run_logs (posix splitPath) (fun _ => by decide : ∀ _, 0 ≤ (17 : Int))
    (fun _ _ _ fs => (0, fs)) mntPointRecord mountedFs
  have hsmall : smallOutcome.1 = some 0 ∧
      smallOutcome.2.mods.flatMap DiskMod.format = smallMods.flatMap DiskMod.format := by
    decide +kernel
  have houtcome : smallOutcome = (some res, w) := hend
  rw [houtcome] at hsmall
  obtain ⟨hres, hformat⟩ := hsmall
  cases hres
  obtain ⟨hwritable, hlength⟩ := logShape_writable hshape
  obtain ⟨calls, hwrite⟩ := RecordCmFsOps.serialize_eq (fun _ _ => 0) (fun _ => 1)
    (fun _ => Int.le_refl 1) w.mods hwritable 91 (Nat.lt_succ_of_le hlength) ⟨[], 0⟩
  refine ⟨fun _ => Int.le_refl 8, fun _ => by simp [wholeAnswer], fun _ _ => 0, fun _ => 1, 91, 0,
    ⟨w.mods.flatMap DiskMod.format, calls⟩, fun _ => Int.le_refl 1, by decide, ?_, ?_⟩
  · simp only [BaseTestCase.runLogged, hend, hwrite]
    rfl
  · exact congrArg (Source.mk · 0) hformat.symm

theorem jlang150_checks_foo_small : ∃ l, ComesTo
      (ledgerEnv (.total Tester.recording)
        (ChildWrote (posix splitPath) (fun _ => 17) (fun _ _ _ fs => (0, fs)) mountedFs))
      (Main.main 100 ClientSocket.newMessage [] [[]]) (.fresh []) (.returned 0) l ∧
    l.compared = [.entriesAtPath (path "/A/foo".toList)] := by
  obtain ⟨l, hends, hmounted⟩ := quietRun_ends (a := .total Tester.recording) childWrote_small
    (readsLog_whole writable_smallMods) writable_smallMods length_smallMods checkedSegment_smallMods
    [] fun _ _ => ⟨_, rfl⟩
  have hchecks := jlang150_checks_foo (posix splitPath) (fun _ => 17) (fun _ => by decide)
    (fun _ _ _ fs => (0, fs)) mountedFs Tester.recording (.total Tester.recording) 100 (by decide)
    ClientSocket.newMessage [] {} rfl [[]] [] (.returned 0) l hends
  exact ⟨l, hends, (hchecks.1 rfl hmounted).2.1⟩

end JLang150

end PMTester
