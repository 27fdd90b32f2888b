import PMTester.LogRoundTrip
import PMTester.RedoLog

/-!
# The files at a checkpoint

What the parent reads from the file of changes is a redo log: the segments in
front of a checkpoint take the files of the start to those of the moment of the
checkpoint. Recorder, writer and reader are taken together.
-/
namespace PMTester

open Run Word Memory Transfer PosixFs RecordCmFsOps

/-- A path that a frame can carry. -/
structure FitPath (p : Path) : Prop where
  nulFree : (0 : UInt8) ∉ p
  short : p.length < 2 ^ 31 - 2

theorem FitPath.nil : FitPath [] := ⟨by simp, by simp⟩

/-- What a recorded mod needs to be writable. -/
structure FitMod (m : DiskMod) : Prop where
  path : FitPath m.path
  data : m.fileModData.length < 2 ^ 31 - 16
  kept : m.modType ≠ .kRemoveMod

theorem noData_short : ([] : List UInt8).length < 2 ^ 31 - 16 := by simp

theorem FitMod.writable {m : DiskMod} (h : FitMod m) (hrec : Recorded m) : m.Writable :=
  ⟨DiskMod.encodable_of_recorded m hrec h.path.short, h.path.nulFree, h.data, h.kept⟩

/-- The calls of `Plain`, the syncs and the checkpoints. -/
def Redoable : CmOp → Prop
  | .fsync _ | .fdatasync _ | .sync | .syncFileRange _ _ _ _ | .checkpoint => True
  | op => Plain op

/-- The arguments of a call fit into a frame. -/
def FitArgs : CmOp → Prop
  | .open p _ | .open2 p _ _ => FitPath p
  | .write _ buf | .pwrite _ buf _ => buf.length < 2 ^ 31 - 16
  | _ => True

/-- Everything that the recorder holds fits, and `n` of its mods are checkpoints. -/
structure Fit {σ : Type} (n : Nat) (w : World σ) : Prop where
  fds : ∀ fd p, w.fdMap fd = some p → FitPath p
  mods : ∀ m ∈ w.mods, FitMod m
  markers : w.mods.countP DiskMod.isCheckpoint = n

theorem Fit.start {σ : Type} (fs : σ) : Fit 0 (World.start fs) :=
  ⟨by simp [World.start], by simp [World.start], rfl⟩

section

variable {σ : Type} {h : Host σ} {w : World σ} {n : Nat}

theorem Fit.withFs (hw : Fit n w) (fs : σ) : Fit n { w with fs := fs } :=
  ⟨hw.fds, hw.mods, hw.markers⟩

theorem Fit.push (hw : Fit n w) {m : DiskMod} (hm : FitMod m) :
    Fit (n + [m].countP DiskMod.isCheckpoint) (w.push m) := by
  refine ⟨hw.fds, fun m' hm' => ?_, ?_⟩
  · obtain hm' | hm' := List.mem_append.mp hm'
    · exact hw.mods m' hm'
    · rwa [List.mem_singleton.mp hm']
  · rw [World.push, List.countP_append, hw.markers]

/-- A mod that is no checkpoint. -/
theorem Fit.pushOther (hw : Fit n w) {m : DiskMod} (hm : FitMod m)
    (ht : m.modType ≠ .kCheckpointMod) : Fit n (w.push m) := by
  have hpush := hw.push hm
  have hcount : [m].countP DiskMod.isCheckpoint = 0 := by simp [DiskMod.isCheckpoint, ht]
  rwa [hcount] at hpush

theorem Fit.insert (hw : Fit n w) (fd : Int) {p : Path} (hp : FitPath p) :
    Fit n { w with fdMap := insertFd w.fdMap fd p } := by
  refine ⟨fun fd' q hq => ?_, hw.mods, hw.markers⟩
  by_cases hfd : fd' = fd
  · subst hfd
    have hq : (w.fdMap fd').getD p = q := by simpa [insertFd] using hq
    cases hold : w.fdMap fd' with
    | none =>
      rw [hold] at hq
      exact hq ▸ hp
    | some q' =>
      rw [hold] at hq
      exact hq ▸ hw.fds fd' q' hold
  · exact hw.fds fd' q (by simpa [insertFd, hfd] using hq)

theorem openWith_fit (fnOpen : Path → σ → Int × σ) {p : Path} (flags : Flags) (hw : Fit n w)
    (hp : FitPath p) : Fit n (openWith h fnOpen p flags w).2 := by
  simp only [openWith]
  split
  · exact hw.withFs _
  · simp only [cmOpenCommon]
    have hopened := fun fd fs => (hw.withFs fs).insert fd hp
    split
    · split
      · exact (hopened _ _).withFs _
      · refine ((hopened _ _).withFs _).pushOther ⟨hp, noData_short, ?_⟩ ?_
        · dsimp only
          split <;> decide
        · dsimp only
          split <;> decide
    · exact hopened _ _

theorem recordWrite_fit {p : Path} (pre : Stat) (location : UInt64) {buf : List UInt8} (res : Int)
    (hw : Fit n w) (hp : FitPath p) (hbuf : buf.length < 2 ^ 31 - 16) :
    Fit n (recordWrite h p pre location buf res w).2 := by
  simp only [recordWrite]
  split
  · exact hw.withFs _
  · split
    · exact hw.withFs _
    · refine (hw.withFs _).pushOther ⟨hp, ?_, ?_⟩ ?_
      · simp only [List.length_take]
        omega
      · dsimp only
        split <;> decide
      · dsimp only
        split <;> decide

theorem fitMod_dir (location : UInt64) :
    FitMod { fileModLocation := location, directoryMod := true } :=
  ⟨FitPath.nil, noData_short, nofun⟩

theorem cmWrite_fit (fd : Int) {buf : List UInt8} (hw : Fit n w)
    (hbuf : buf.length < 2 ^ 31 - 16) : Fit n (cmWrite h fd buf w).2 := by
  unfold cmWrite
  cases hp : w.fdMap fd with
  | none => exact hw
  | some p =>
    dsimp only
    split
    · exact hw.withFs _
    · split
      · exact hw.withFs _
      · split
        · exact hw.withFs _
        · split
          · exact (hw.withFs _).pushOther (fitMod_dir _) nofun
          · exact recordWrite_fit _ _ _ (hw.withFs _) (hw.fds fd p hp) hbuf

theorem cmPwrite_fit (fd : Int) {buf : List UInt8} (offset : Int) (hw : Fit n w)
    (hbuf : buf.length < 2 ^ 31 - 16) : Fit n (cmPwrite h fd buf offset w).2 := by
  unfold cmPwrite
  cases hp : w.fdMap fd with
  | none => exact hw
  | some p =>
    dsimp only
    split
    · exact hw.withFs _
    · split
      · exact hw.withFs _
      · split
        · exact (hw.withFs _).pushOther (fitMod_dir _) nofun
        · exact recordWrite_fit _ _ _ (hw.withFs _) (hw.fds fd p hp) hbuf

theorem fsyncWith_fit (fnFsync : Int → σ → Int × σ) (fd : Int) (hw : Fit n w) :
    Fit n (fsyncWith fnFsync fd w).2 := by
  unfold fsyncWith
  dsimp only
  split
  · exact hw.withFs _
  · cases hp : w.fdMap fd with
    | none => exact hw.withFs _
    | some p => exact (hw.withFs _).pushOther ⟨hw.fds fd p hp, noData_short, nofun⟩ nofun

theorem cmSyncFileRange_fit (fd : Int) (offset nbytes : Nat) (flags : Flags) (hw : Fit n w) :
    Fit n (cmSyncFileRange h fd offset nbytes flags w).2 := by
  unfold cmSyncFileRange
  dsimp only
  split
  · exact hw.withFs _
  · cases hp : w.fdMap fd with
    | none => exact hw.withFs _
    | some p =>
      dsimp only
      split
      · exact hw.withFs _
      · exact (hw.withFs _).pushOther ⟨hw.fds fd p hp, noData_short, nofun⟩ nofun

theorem cmClose_fit (fd : Int) (hw : Fit n w) : Fit n (cmClose h fd w).2 := by
  simp only [cmClose]
  split
  · exact hw.withFs _
  · refine ⟨fun fd' p hp => ?_, hw.mods, hw.markers⟩
    by_cases hfd : fd' = fd
    · simp [hfd] at hp
    · exact hw.fds fd' p (by simpa [hfd] using hp)

variable (hcheckpoint : ∀ fs, 0 ≤ (h.toFsFns.cmCheckpoint fs).1)
include hcheckpoint

/-- A call keeps everything fit, and counts if it is a checkpoint. -/
theorem call_fit (op : CmOp) (hop : Redoable op) (hargs : FitArgs op) (hw : Fit n w) :
    Fit (n + [op].count .checkpoint) (call h op w).2 := by
  cases op with
  | «open» p flags => exact openWith_fit _ flags hw hargs
  | open2 p flags mode => exact openWith_fit _ flags hw hargs
  | lseek fd offset whence => exact hw.withFs _
  | write fd buf => exact cmWrite_fit fd hw hargs
  | pwrite fd buf offset => exact cmPwrite_fit fd offset hw hargs
  | close fd => exact cmClose_fit fd hw
  | fsync fd => exact fsyncWith_fit _ fd hw
  | fdatasync fd => exact fsyncWith_fit _ fd hw
  | sync => exact (hw.withFs _).pushOther ⟨FitPath.nil, noData_short, by simp⟩ (by simp)
  | syncFileRange fd offset nbytes flags => exact cmSyncFileRange_fit fd offset nbytes flags hw
  | checkpoint =>
    simp only [call, cmCheckpoint]
    rw [if_neg (Int.not_lt.mpr (hcheckpoint w.fs))]
    have hm : FitMod { modType := .kCheckpointMod } := ⟨FitPath.nil, noData_short, by simp⟩
    exact (hw.withFs _).push hm
  | mknod | mkdir | mmap | msync | munmap | fallocate | rename | unlink | remove =>
    exact absurd hop id

/-- Every mod of a run on arguments that fit has a frame, and every checkpoint its mod. -/
theorem run_fit (ops : List CmOp) (hops : ∀ op ∈ ops, Redoable op ∧ FitArgs op) (hw : Fit n w) :
    Fit (n + ops.count .checkpoint) (run h ops w) := by
  induction ops generalizing w n with
  | nil => exact hw
  | cons op ops ih =>
    obtain ⟨hop, hargs⟩ := hops op (by simp)
    have hrest := ih (fun op' hop' => hops op' (by simp [hop'])) (call_fit hcheckpoint op hop hargs hw)
    have hcount : n + (op :: ops).count .checkpoint =
        n + [op].count .checkpoint + ops.count .checkpoint := by
      rw [List.count_cons, List.count_cons, List.count_nil]
      omega
    rw [run_cons, hcount]
    exact hrest

end

section

variable {resolve : Path → Name}

theorem posix_checkpoint (resolve : Path → Name) (fs : PosixFs) :
    0 ≤ ((posix resolve).toFsFns.cmCheckpoint fs).1 := Int.one_nonneg

/-- Mods that a redo passes over. -/
theorem replayMod_marker (resolve : Path → Name) (files : Name → Option (List UInt8)) {m : DiskMod}
    (h : m.modType = .kFsyncMod ∨ m.modType = .kSyncMod ∨ m.modType = .kSyncFileRangeMod ∨
      m.modType = .kCheckpointMod) : replayMod resolve files m = files := by
  rcases h with h | h | h | h <;> simp [replayMod, h]

theorem Tracked.withFs {w : World PosixFs} (h : Tracked resolve w) {fs : PosixFs}
    (hfs : fs = w.fs ∨ fs = w.fs.called) : Tracked resolve { w with fs := fs } := by
  obtain rfl | rfl := hfs
  · exact h
  · exact ⟨WellFormed.called h.fs, h.fd⟩

theorem attempt_doFsync (fd : Int) (s : PosixFs) : (s.attempt (doFsync fd)).2 = s.called := by
  obtain hatt | ⟨c, r, s', hsync, hatt⟩ := attempt_cases s (doFsync fd)
  · rw [hatt]
  · rw [hatt]
    exact doFsync_cases hsync

/-- A step that changes no file and logs nothing but a marker. -/
theorem marker_logs {w : World PosixFs} (h : Tracked resolve w) {fs : PosixFs}
    (hfs : fs = w.fs ∨ fs = w.fs.called) {m : DiskMod}
    (hm : m.modType = .kFsyncMod ∨ m.modType = .kSyncMod ∨ m.modType = .kSyncFileRangeMod ∨
      m.modType = .kCheckpointMod) :
    (Tracked resolve { w with fs := fs } ∧ Logs resolve w { w with fs := fs }) ∧
      Tracked resolve (World.push { w with fs := fs } m) ∧
        Logs resolve w (World.push { w with fs := fs } m) := by
  have hfiles : fs.files = w.fs.files := by
    obtain rfl | rfl := hfs
    · rfl
    · rfl
  have htracked := h.withFs hfs
  refine ⟨⟨htracked, Replays.same rfl hfiles⟩, ⟨htracked.fs, htracked.fd⟩, Replays.push rfl ?_⟩
  rw [replayMod_marker _ _ hm]
  exact hfiles.symm

theorem fsyncWith_logs {w : World PosixFs} (h : Tracked resolve w) (fd : Int) :
    Tracked resolve (fsyncWith (fun fd s => s.attempt (doFsync fd)) fd w).2 ∧
      Logs resolve w (fsyncWith (fun fd s => s.attempt (doFsync fd)) fd w).2 := by
  have hmarker := fun p => marker_logs (m := { path := p, modType := .kFsyncMod }) h
    (.inr (attempt_doFsync fd w.fs)) (.inl rfl)
  unfold fsyncWith
  dsimp only
  split
  · exact (hmarker []).1
  · cases w.fdMap fd with
    | none => exact (hmarker []).1
    | some p => exact (hmarker p).2

theorem cmSyncFileRange_logs {w : World PosixFs} (h : Tracked resolve w) (fd : Int)
    (offset nbytes : Nat) (flags : Flags) :
    Tracked resolve (cmSyncFileRange (posix resolve) fd offset nbytes flags w).2 ∧
      Logs resolve w (cmSyncFileRange (posix resolve) fd offset nbytes flags w).2 := by
  have hmarker := fun m hm => marker_logs (m := m) h (.inr (attempt_doFsync fd w.fs)) hm
  have hstat : ∀ p s, ((posix resolve).fnStat p s).2 = s := by
    intro p s
    simp only [posix]
    split <;> rfl
  unfold cmSyncFileRange
  dsimp only
  split
  · exact (hmarker { modType := .kFsyncMod } (.inl rfl)).1
  · cases w.fdMap fd with
    | none => exact (hmarker { modType := .kFsyncMod } (.inl rfl)).1
    | some p =>
      dsimp only
      rw [hstat]
      split
      · exact (hmarker { modType := .kFsyncMod } (.inl rfl)).1
      · exact (hmarker _ (.inr (.inr (.inl rfl)))).2

/-- One call keeps the invariant, and its mods replay its effect on the files. -/
theorem call_redo (w : World PosixFs) (op : CmOp) (h : Tracked resolve w) (hop : Redoable op)
    (hclose : CloseKeeps w op) :
    Tracked resolve (call (posix resolve) op w).2 ∧
      Logs resolve w (call (posix resolve) op w).2 := by
  cases op with
  | fsync fd => exact fsyncWith_logs h fd
  | fdatasync fd => exact fsyncWith_logs h fd
  | sync => exact (marker_logs h (.inl rfl) (.inr (.inl rfl))).2
  | syncFileRange fd offset nbytes flags => exact cmSyncFileRange_logs h fd offset nbytes flags
  | checkpoint => exact (marker_logs h (.inl rfl) (.inr (.inr (.inr rfl)))).2
  | «open» | open2 | lseek | write | pwrite | close => exact call_logs w h _ hop hclose
  | mknod | mkdir | mmap | msync | munmap | fallocate | rename | unlink | remove =>
    exact absurd hop id

/-- So does a run. -/
theorem run_redo {w : World PosixFs} (h : Tracked resolve w) (ops : List CmOp)
    (hops : ∀ op ∈ ops, Redoable op) (hclose : CloseKeepsRun resolve ops w) :
    Tracked resolve (run (posix resolve) ops w) ∧ Logs resolve w (run (posix resolve) ops w) :=
  replays_run (fun w op => Redoable op ∧ CloseKeeps w op) (Tracked resolve)
    (fun w op h hop => call_redo w op h hop.1 hop.2) ops w h
    ((allowed_of_forall _ _ ops hops w).and hclose)

theorem start_redo (s : PosixFs) (hs : s.WellFormed) (ops : List CmOp)
    (hops : ∀ op ∈ ops, Redoable op) (hclose : CloseKeepsRun resolve ops (World.start s)) :
    (run (posix resolve) ops (World.start s)).mods.foldl (replayMod resolve) s.files =
      (run (posix resolve) ops (World.start s)).fs.files := by
  obtain ⟨-, ms, hmods, hfiles⟩ := run_redo (tracked_start resolve s hs) ops hops hclose
  have hms : (run (posix resolve) ops (World.start s)).mods = ms := hmods
  rw [hms]
  exact hfiles

/-- A checkpoint of the run stands in its log, behind the mods of the calls before it. -/
theorem mods_checkpoint (resolve : Path → Name) (s : PosixFs) (hs : s.WellFormed)
    (before after : List CmOp) (hops : ∀ op ∈ before ++ .checkpoint :: after, Redoable op)
    (hclose : CloseKeepsRun resolve (before ++ .checkpoint :: after) (World.start s)) :
    ∃ rest, (run (posix resolve) (before ++ .checkpoint :: after) (World.start s)).mods =
      (run (posix resolve) before (World.start s)).mods ++ { modType := .kCheckpointMod } :: rest := by
  rw [List.append_cons] at hclose
  obtain ⟨hfront, hback⟩ := (allowed_append _ _ _).mp hclose
  obtain ⟨htracked, -⟩ := run_redo (tracked_start resolve s hs)
    (before ++ [CmOp.checkpoint])
    (fun op hop => hops op (by
      rw [List.append_cons]
      exact List.mem_append_left _ hop)) hfront
  obtain ⟨-, rest, hmods, -⟩ :=
    run_redo htracked after (fun op hop => hops op (by simp [hop])) hback
  refine ⟨rest, ?_⟩
  rw [List.append_cons, run_append, hmods, run_append]
  exact List.append_assoc _ [_] rest

end

/-- A redo passes over the fallocate options. -/
theorem replayMod_fallocate (resolve : Path → Name) (files : Name → Option (List UInt8))
    {m : DiskMod} (ht : m.modType ≠ .kCreateMod) (ho : m.modOpts.isFallocate = true) :
    replayMod resolve files m = files := by
  unfold replayMod
  cases hopts : m.modOpts <;> rw [hopts] at ho
  all_goals first
    | exact absurd ho Bool.false_ne_true
    | cases htype : m.modType <;> first | exact absurd htype ht | rfl

/-- What a frame leaves out plays no part in a redo. -/
theorem replayMod_wire (resolve : Path → Name) (files : Name → Option (List UInt8)) (m : DiskMod) :
    replayMod resolve files m.wire = replayMod resolve files m := by
  have hmarker (h : m.modType = .kFsyncMod ∨ m.modType = .kSyncMod ∨
      m.modType = .kSyncFileRangeMod ∨ m.modType = .kCheckpointMod) :
      replayMod resolve files m.wire = replayMod resolve files m := by
    rw [replayMod_marker resolve files h, replayMod_marker resolve files (DiskMod.modType_wire m ▸ h)]
  by_cases hh : m.headerOnly
  · obtain hh | hh := hh
    · exact hmarker (.inr (.inr (.inr hh)))
    · exact hmarker (.inr (.inl hh))
  by_cases hn : m.nameOnly
  · have hpath : m.wire.path = m.path := by simp only [DiskMod.wire, hh, hn, if_true, if_false]
    obtain ht | ht := hn
    · exact hmarker (.inl ht)
    · simp only [replayMod, DiskMod.modType_wire, ht, hpath]
  by_cases hr : m.rangeOnly
  · obtain ht | ho := hr
    · exact hmarker (.inr (.inr (.inl ht)))
    · have ht : m.modType ≠ .kCreateMod := fun ht => hn (.inr ht)
      have hopts : m.wire.modOpts = m.modOpts := by simp only [DiskMod.wire, hh, hn, if_false]
      rw [replayMod_fallocate resolve files ht ho,
        replayMod_fallocate resolve files (DiskMod.modType_wire m ▸ ht) (hopts ▸ ho)]
  · simp only [replayMod, DiskMod.wire, hh, hn, hr, if_false]

/-- The cut at the checkpoints makes no difference to a redo. -/
theorem foldl_segments (resolve : Path → Name) (mods : List DiskMod)
    (files : Name → Option (List UInt8)) :
    (segments (mods.map DiskMod.wire)).flatten.foldl (replayMod resolve) files =
      mods.foldl (replayMod resolve) files := by
  rw [flatten_segments]
  induction mods generalizing files with
  | nil => rfl
  | cons m mods ih =>
    rw [List.map_cons, List.filter_cons, List.foldl_cons]
    cases hm : m.wire.isCheckpoint with
    | true =>
      have ht : m.wire.modType = .kCheckpointMod := by simpa [DiskMod.isCheckpoint] using hm
      have hskip := replayMod_marker resolve files (.inr (.inr (.inr ht)))
      rw [replayMod_wire] at hskip
      rw [hskip]
      exact ih files
    | false =>
      simp only [Bool.not_false, if_true, List.foldl_cons]
      rw [replayMod_wire]
      exact ih _

/-- The segments of what stands before a checkpoint are the first segments. -/
theorem take_segments (front rest : List DiskMod) (m : DiskMod) (hm : m.isCheckpoint = true) :
    (segments (front ++ m :: rest)).take (segments front).length = segments front := by
  rw [← Tester.foldl_addMod_nil, ← Tester.foldl_addMod_nil, List.foldl_append, List.foldl_cons,
    Tester.addMod_checkpoint _ m hm, Tester.foldl_addMod, List.take_left' rfl]

/-- The mods of a run have frames. -/
theorem run_writable (resolve : Path → Name) (s : PosixFs) (ops : List CmOp)
    (hops : ∀ op ∈ ops, Redoable op ∧ FitArgs op) :
    ∀ m ∈ (run (posix resolve) ops (World.start s)).mods, m.Writable := by
  have hfit := run_fit (posix_checkpoint resolve) ops hops (Fit.start s)
  have hrec := run_recorded (posix_refusesDirTrunc resolve) ops (World.start s) (by simp [World.start])
  exact fun m hm => (hfit.mods m hm).writable (hrec m hm)

/-- The segments of a run that were complete at a checkpoint. -/
theorem redo_before (resolve : Path → Name) (s : PosixFs) (hs : s.WellFormed)
    (before after : List CmOp) (hops : ∀ op ∈ before ++ .checkpoint :: after, Redoable op)
    (hclose : CloseKeepsRun resolve (before ++ .checkpoint :: after) (World.start s)) :
    ((segments ((run (posix resolve) (before ++ .checkpoint :: after) (World.start s)).mods.map
        DiskMod.wire)).take
          (segments (run (posix resolve) before (World.start s)).mods).length).flatten.foldl
            (replayMod resolve) s.files =
      (run (posix resolve) before (World.start s)).fs.files := by
  obtain ⟨rest, hrest⟩ := mods_checkpoint resolve s hs before after hops hclose
  have hwire : DiskMod.isCheckpoint (DiskMod.wire { modType := .kCheckpointMod }) = true := rfl
  have hlength (mods : List DiskMod) :
      (segments mods).length = (segments (mods.map DiskMod.wire)).length := by
    rw [Tester.segments_wire, List.length_map]
  rw [hrest, List.map_append, List.map_cons, hlength, take_segments _ _ _ hwire, foldl_segments]
  exact start_redo s hs before (fun op hop => hops op (by simp [hop]))
    ((allowed_append _ _ _).mp hclose).1

theorem short_of_le {buf : List UInt8} (h : buf.length ≤ 4096) : buf.length < 2 ^ 31 - 16 :=
  by omega

/-- A file written before a checkpoint, and again behind it. -/
def checkpointRun : List CmOp :=
  [.open2 (path ['/', 'f']) (oCreat ||| oRdwr) 0o644#32, .write 3 [1, 2, 3], .fsync 3, .checkpoint,
    .pwrite 3 [9] 1, .sync]

end PMTester
