import PMTester.Passthrough
import PMTester.Posix

/-!
# Transparency of recording

The recording wrapper adds stat and seek calls of its own. As long as these
succeed, every call returns what the forwarding wrapper returns and leaves the
same file system; a stat of the recorded path fails once the file is unlinked
or renamed, and then the recorded call is not made at all.
-/
namespace PMTester

open Word RecordCmFsOps

/-- The calls that the recorder adds have no side effects. -/
structure QuietProbes {σ : Type} (fns : FsFns σ) : Prop where
  stat : ∀ p s, (fns.fnStat p s).2 = s
  pathExists : ∀ p s, (fns.fnPathExists p s).2 = s
  lseek : ∀ fd s, (fns.fnLseek fd 0 seekCur s).2 = s

section

variable {σ : Type} {h : Host σ}

/-- What a call must find for the recorder to be out of the way: paths that still exist for
the calls that stat, entries for the calls that look a descriptor up, results that
fit, and no `CmSyncFileRange`. -/
def Clean (h : Host σ) (w : World σ) : CmOp → Prop
  | .write fd buf => ∃ p, w.fdMap fd = some p ∧ 0 ≤ (h.fnStat p w.fs).1.1 ∧
      (toInt (h.fnWrite fd buf w.fs).1).toNat ≤ buf.length
  | .pwrite fd buf offset => ∃ p, w.fdMap fd = some p ∧ 0 ≤ (h.fnStat p w.fs).1.1 ∧
      toInt (h.fnPwrite fd buf offset w.fs).1 = (h.fnPwrite fd buf offset w.fs).1 ∧
      (h.fnPwrite fd buf offset w.fs).1.toNat ≤ buf.length
  | .mmap addr length prot flags fd offset =>
    (h.fnMmap addr length prot flags fd offset w.fs).1 ≠ mapFailed →
      (!prot.has protWrite || flags.has mapPrivate || flags.has mapAnonymous) = false →
      (w.fdMap fd).isSome
  | .msync addr length flags =>
    0 ≤ (h.fnMsync addr length flags w.fs).1 →
      ((h.order w.mmapMap).find? (MmapEntry.covers addr)).isSome →
      length < 2 ^ 63 ∧ (load (h.memory (h.fnMsync addr length flags w.fs).2) addr length).isSome
  | .fallocate fd mode offset len =>
    0 ≤ (h.fnStat (cStr ((w.fdMap fd).getD [])) w.fs).1.1 ∧
      (0 ≤ (h.fnFallocate fd mode offset len w.fs).1 →
        0 ≤ (h.fnStat (cStr ((w.fdMap fd).getD []))
          (h.fnFallocate fd mode offset len w.fs).2).1.1 ∧
        (mode.has fallocFlPunchHole && !mode.has fallocFlKeepSize) = false)
  | .fsync fd => 0 ≤ (h.fnFsync fd w.fs).1 → (w.fdMap fd).isSome
  | .fdatasync fd => 0 ≤ (h.fnFdatasync fd w.fs).1 → (w.fdMap fd).isSome
  | .syncFileRange _ _ _ _ => False
  | _ => True

/-- A recorded call and its forwarded twin: same result, same file system. -/
def Same (recorded : CmResult × World σ) (forwarded : CmResult × σ) : Prop :=
  recorded.1 = forwarded.1 ∧ recorded.2.fs = forwarded.2

theorem recordWrite_same (hq : QuietProbes h.toFsFns) (p : Path) (pre : Stat) (location : UInt64)
    (buf : List UInt8) (res : Int) (w : World σ) (hle : res.toNat ≤ buf.length) :
    Same (recordWrite h p pre location buf res w) (.ret res, w.fs) := by
  have hstat := hq.stat p w.fs
  have hlt : ¬ buf.length < res.toNat := by omega
  simp only [recordWrite, hlt, ↓reduceIte]
  split
  · exact ⟨rfl, hstat⟩
  · exact ⟨rfl, hstat⟩

theorem openWith_same (hq : QuietProbes h.toFsFns) (fnOpen : Path → σ → Int × σ) (p : Path)
    (flags : Flags) (w : World σ) :
    Same (openWith h fnOpen p flags w) (PassthroughCmFsOps.forward (fnOpen (cStr p) w.fs)) := by
  have hexists := hq.pathExists (cStr p) w.fs
  simp only [openWith, PassthroughCmFsOps.forward]
  rw [hexists]
  split
  · exact ⟨rfl, rfl⟩
  · refine ⟨rfl, ?_⟩
    simp only [cmOpenCommon]
    split
    · split <;> exact hq.stat _ _
    · rfl

theorem cmWrite_same (hq : QuietProbes h.toFsFns) (fd : Int) (buf : List UInt8) (w : World σ)
    (hc : Clean h w (.write fd buf)) :
    Same (cmWrite h fd buf w) (.ret (toInt (h.fnWrite fd buf w.fs).1), (h.fnWrite fd buf w.fs).2) := by
  obtain ⟨p, hp, hstat, hle⟩ := hc
  have hpre := hq.stat p w.fs
  have hseek := hq.lseek fd w.fs
  have hlocation : ∀ location : UInt64, ¬ location < 0 := fun location => UInt64.not_lt_zero
  simp only [cmWrite, hp]
  rw [if_neg (Int.not_lt.mpr hstat), hpre, hseek, if_neg (hlocation _)]
  split
  · exact ⟨rfl, rfl⟩
  split
  · exact ⟨rfl, rfl⟩
  · exact recordWrite_same hq _ _ _ _ _ _ hle

theorem cmPwrite_same (hq : QuietProbes h.toFsFns) (fd : Int) (buf : List UInt8) (offset : Int)
    (w : World σ) (hc : Clean h w (.pwrite fd buf offset)) :
    Same (cmPwrite h fd buf offset w)
      (PassthroughCmFsOps.forward (h.fnPwrite fd buf offset w.fs)) := by
  obtain ⟨p, hp, hstat, hfits, hle⟩ := hc
  have hpre := hq.stat p w.fs
  simp only [cmPwrite, hp]
  rw [if_neg (Int.not_lt.mpr hstat), hpre, hfits]
  split
  · exact ⟨rfl, rfl⟩
  split
  · exact ⟨rfl, rfl⟩
  · exact recordWrite_same hq _ _ _ _ _ _ hle

theorem cmFallocate_same (hq : QuietProbes h.toFsFns) (fd : Int) (mode : Flags) (offset len : Int)
    (w : World σ) (hc : Clean h w (.fallocate fd mode offset len)) :
    Same (cmFallocate h fd mode offset len w)
      (PassthroughCmFsOps.forward (h.fnFallocate fd mode offset len w.fs)) := by
  obtain ⟨hstat, hpost⟩ := hc
  have hentry : (insertFd w.fdMap fd [] fd).getD [] = (w.fdMap fd).getD [] := by
    simp [insertFd]
  have hpre := hq.stat (cStr ((w.fdMap fd).getD [])) w.fs
  simp only [cmFallocate, hentry]
  rw [if_neg (Int.not_lt.mpr hstat), hpre]
  split
  · exact ⟨rfl, rfl⟩
  · rename_i hres
    obtain ⟨hpost, hpunch⟩ := hpost (Int.not_lt.mp hres)
    rw [if_neg (Int.not_lt.mpr hpost), if_neg (by rw [hpunch]; decide)]
    exact ⟨rfl, hq.stat _ _⟩

theorem fsyncWith_same (fnFsync : Int → σ → Int × σ) (fd : Int) (w : World σ)
    (hc : 0 ≤ (fnFsync fd w.fs).1 → (w.fdMap fd).isSome) :
    Same (fsyncWith fnFsync fd w) (PassthroughCmFsOps.forward (fnFsync fd w.fs)) := by
  simp only [fsyncWith]
  split
  · exact ⟨rfl, rfl⟩
  · rename_i hres
    obtain ⟨p, hp⟩ := Option.isSome_iff_exists.mp (hc (Int.not_lt.mp hres))
    simp only [hp]
    exact ⟨rfl, rfl⟩

/-- A clean call is transparent. -/
theorem call_same (hq : QuietProbes h.toFsFns) (garbage : Int) (op : CmOp) (w : World σ)
    (hc : Clean h w op) :
    Same (call h op w) (PassthroughCmFsOps.call h.toFsFns garbage op w.fs) := by
  cases op with
  | «open» p flags => exact openWith_same hq (fun p => h.fnOpen p flags) p flags w
  | open2 p flags mode => exact openWith_same hq (fun p => h.fnOpen2 p flags mode) p flags w
  | write fd buf => exact cmWrite_same hq fd buf w hc
  | pwrite fd buf offset => exact cmPwrite_same hq fd buf offset w hc
  | mmap addr length prot flags fd offset =>
    simp only [call, cmMmap]
    split
    · exact ⟨rfl, rfl⟩
    split
    · exact ⟨rfl, rfl⟩
    · rename_i hmapped hshared
      obtain ⟨p, hp⟩ := Option.isSome_iff_exists.mp (hc hmapped (by simpa using hshared))
      simp only [hp]
      exact ⟨rfl, rfl⟩
  | msync addr length flags =>
    simp only [call, cmMsync]
    split
    · exact ⟨rfl, rfl⟩
    · rename_i hres
      split
      · exact ⟨rfl, rfl⟩
      · rename_i e he
        obtain ⟨hlen, hload⟩ := hc (Int.not_lt.mp hres) (by rw [he]; rfl)
        obtain ⟨bytes, hbytes⟩ := Option.isSome_iff_exists.mp hload
        rw [if_neg (by omega), hbytes]
        exact ⟨rfl, rfl⟩
  | munmap addr length =>
    simp only [call, cmMunmap]
    split <;> exact ⟨rfl, rfl⟩
  | fallocate fd mode offset len => exact cmFallocate_same hq fd mode offset len w hc
  | close fd =>
    simp only [call, cmClose]
    split <;> exact ⟨rfl, rfl⟩
  | mkdir p mode =>
    simp only [call, cmMkdir]
    split <;> exact ⟨rfl, rfl⟩
  | unlink p =>
    simp only [call, cmUnlink, removeWith]
    split <;> exact ⟨rfl, rfl⟩
  | remove p =>
    simp only [call, cmRemove, removeWith]
    split <;> exact ⟨rfl, rfl⟩
  | fsync fd => exact fsyncWith_same h.fnFsync fd w hc
  | fdatasync fd => exact fsyncWith_same h.fnFdatasync fd w hc
  | checkpoint =>
    simp only [call, cmCheckpoint]
    split <;> exact ⟨rfl, rfl⟩
  | syncFileRange => exact absurd hc id
  | mknod | lseek | rename | sync => exact ⟨rfl, rfl⟩

/-- Every call of the recorded run of a workload is clean in the state it is made in. -/
def CleanRun (h : Host σ) : Workload σ → World σ → Prop
  | .done _, _ => True
  | .call op next, w => Clean h w op ∧ CleanRun h (next (call h op w).1) (call h op w).2
  | .direct act next, w => CleanRun h (next (act w.fs).1) { w with fs := (act w.fs).2 }

/-- A clean workload runs the same through both wrappers, whatever it does with its results. -/
theorem exec_same (hq : QuietProbes h.toFsFns) (garbage : Int) (test : Workload σ) (w : World σ)
    (hc : CleanRun h test w) :
    test.exec (passthroughCmFsOps h.toFsFns garbage) w.fs = test.exec (recordCmFsOps h) w := by
  induction test generalizing w with
  | done res => rfl
  | call op next ih =>
    obtain ⟨hop, hnext⟩ := hc
    obtain ⟨hres, hfs⟩ := call_same hq garbage op w hop
    have hrest := ih (call h op w).1 (call h op w).2 hnext
    have hrecord : (recordCmFsOps h).call op w = call h op w := rfl
    have hpass : (passthroughCmFsOps h.toFsFns garbage).call op w.fs =
        ((call h op w).1, (call h op w).2.fs) := Prod.ext hres.symm hfs.symm
    simp only [Workload.exec, hrecord, hpass, passthroughCmFsOps_fs, recordCmFsOps_fs, hrest]
  | direct act next ih =>
    have hrest := ih (act w.fs).1 { w with fs := (act w.fs).2 } hc
    simp only [Workload.exec, passthroughCmFsOps_fs, passthroughCmFsOps_setFs, recordCmFsOps_fs,
      recordCmFsOps_setFs]
    rw [← hrest]

end

/-- Stopping at a checkpoint cuts the run off there. -/
theorem stopAt_prefix {σ S : Type} (cm : CmFsOps σ S) (checkpoint : Int) (test : Workload σ)
    (n : Int) (s : S) : ((test.stopAt checkpoint n).exec cm s).events <+: (test.exec cm s).events := by
  induction test generalizing n s with
  | done res => exact List.prefix_refl _
  | call op next ih =>
    simp only [Workload.stopAt, Workload.exec]
    cases hret : (cm.call op s).1.returns with
    | false => exact List.prefix_refl _
    | true =>
      simp only [↓reduceIte, TestRun.after, List.cons_prefix_cons, true_and]
      split
      · split
        · exact List.nil_prefix
        · exact ih _ _ _
      · exact ih _ _ _
  | direct act next ih =>
    simp only [Workload.stopAt, Workload.exec, TestRun.after, List.cons_prefix_cons, true_and]
    exact ih _ _ _

/-- A test that is asked for no checkpoint never stops at one. -/
theorem stopAt_zero {σ : Type} (test : Workload σ) (n : Int) (hn : 0 ≤ n) :
    test.stopAt 0 n = test := by
  induction test generalizing n with
  | done res => rfl
  | call op next ih =>
    simp only [Workload.stopAt, Workload.call.injEq, true_and]
    funext res
    rw [if_neg (show ¬ n + 1 = 0 by omega), ih res (n + 1) (by omega), ih res n hn, ite_self]
  | direct act next ih =>
    simp only [Workload.stopAt, Workload.direct.injEq, true_and]
    funext res
    exact ih res n hn

/-- In a run whose calls are all clean, the recorder returns and does what the forwarding
wrapper returns and does, and a test run up to a checkpoint sees what the recorded run saw. -/
theorem recording_transparent {σ : Type} (h : Host σ) (hq : QuietProbes h.toFsFns) (garbage : Int)
    (test : Workload σ) (fs : σ) (hc : CleanRun h test (World.start fs)) :
    test.exec (passthroughCmFsOps h.toFsFns garbage) fs =
        test.exec (recordCmFsOps h) (World.start fs) ∧
      ∀ checkpoint, checkpoint ≠ 0 →
        (BaseTestCase.run h garbage test checkpoint fs).events <+:
          (BaseTestCase.run h garbage test 0 fs).events := by
  have hsame := exec_same hq garbage test (World.start fs) hc
  refine ⟨hsame, fun checkpoint hne => ?_⟩
  simp only [BaseTestCase.run, hne, ↓reduceIte, stopAt_zero test 0 (by omega)]
  rw [← hsame]
  exact stopAt_prefix _ _ _ _ _

theorem posix_quietProbes (resolve : Path → Name) : QuietProbes (posix resolve).toFsFns where
  stat p s := by
    simp only [posix]
    split <;> rfl
  pathExists p s := rfl
  lseek fd s := by
    have hcur : ¬ seekCur = seekSet := by decide
    simp only [posix, PosixFs.doLseek, hcur, ↓reduceIte, Int.add_zero]
    split
    · rfl
    · rename_i f hf
      split
      · rfl
      · exact PosixFs.setFd_self s fd f hf

/-- Create a file and write to it twice, once after removing it when `unlinked` is set. -/
def unlinkedWrite (unlinked : Bool) : Workload PosixFs :=
  .call (.open2 (path ['/', 'f']) (oCreat ||| oRdwr) 0o644#32) fun _ =>
    .call (.write 3 [1]) fun _ =>
      if unlinked then
        .call (.unlink (path ['/', 'f'])) fun _ => .call (.write 3 [2]) fun _ => .done 0
      else .call (.write 3 [2]) fun _ => .done 0

theorem recording_transparent_write :
    (unlinkedWrite false).exec (passthroughCmFsOps (posix splitPath).toFsFns 0)
        (PosixFs.empty 3) =
      (unlinkedWrite false).exec (recordCmFsOps (posix splitPath))
        (World.start (PosixFs.empty 3)) :=
  (recording_transparent (posix splitPath) (posix_quietProbes splitPath) 0 (unlinkedWrite false)
    (PosixFs.empty 3)
    ⟨trivial, ⟨path ['/', 'f'], by decide +kernel, by decide +kernel, by decide +kernel⟩,
      ⟨path ['/', 'f'], by decide +kernel, by decide +kernel, by decide +kernel⟩, trivial⟩).1

/-- The recorder does not write to a file that has been unlinked since it was opened. -/
theorem unlinked_write_not_transparent :
    QuietProbes (posix splitPath).toFsFns ∧
      (unlinkedWrite true).exec (passthroughCmFsOps (posix splitPath).toFsFns 0)
          (PosixFs.empty 3) ≠
        (unlinkedWrite true).exec (recordCmFsOps (posix splitPath))
          (World.start (PosixFs.empty 3)) := by
  refine ⟨posix_quietProbes splitPath, fun h => ?_⟩
  have hresults := congrArg (fun r => r.events.map Prod.fst) h
  exact absurd hresults (by decide +kernel)

end PMTester
