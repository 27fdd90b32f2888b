import PMTester.RecordOps

/-!
# `PassthroughCmFsOps` and the test runner

The wrapper that only forwards, the common interface of both wrappers, and
`BaseTestCase::Run`, which runs a test's workload through one of them. A workload
may use every result it gets, and may also make system calls of its own.
-/
namespace PMTester

open Word

namespace PassthroughCmFsOps

variable {σ : Type} (fns : FsFns σ)

/-- A forwarded call that returns an integer as it is. -/
def forward (res : Int × σ) : CmResult × σ := (.ret res.1, res.2)

/-- Each call of the interface. `CmSyncFileRange` has no return statement: `garbage` is what
its caller reads. -/
def call (garbage : Int) : CmOp → σ → CmResult × σ
  | .mknod p mode dev, s => forward (fns.fnMknod (cStr p) mode dev s)
  | .mkdir p mode, s => forward (fns.fnMkdir (cStr p) mode s)
  | .open p flags, s => forward (fns.fnOpen (cStr p) flags s)
  | .open2 p flags mode, s => forward (fns.fnOpen2 (cStr p) flags mode s)
  | .lseek fd offset whence, s => forward (fns.fnLseek fd offset whence s)
  | .write fd buf, s => (.ret (toInt (fns.fnWrite fd buf s).1), (fns.fnWrite fd buf s).2)
  | .pwrite fd buf offset, s => forward (fns.fnPwrite fd buf offset s)
  | .mmap addr length prot flags fd offset, s =>
    (.ret (fns.fnMmap addr length prot flags fd offset s).1,
      (fns.fnMmap addr length prot flags fd offset s).2)
  | .msync addr length flags, s => forward (fns.fnMsync addr length flags s)
  | .munmap addr length, s => forward (fns.fnMunmap addr length s)
  | .fallocate fd mode offset len, s => forward (fns.fnFallocate fd mode offset len s)
  | .close fd, s => forward (fns.fnClose fd s)
  | .rename oldPath newPath, s => forward (fns.fnRename oldPath newPath s)
  | .unlink p, s => forward (fns.fnUnlink (cStr p) s)
  | .remove p, s => forward (fns.fnRemove (cStr p) s)
  | .fsync fd, s => forward (fns.fnFsync fd s)
  | .fdatasync fd, s => forward (fns.fnFdatasync fd s)
  | .sync, s => (.void, fns.fnSync s)
  | .syncFileRange fd offset nbytes flags, s =>
    (.ret garbage, (fns.fnSyncFileRange fd offset nbytes flags s).2)
  | .checkpoint, s => forward (fns.cmCheckpoint s)

end PassthroughCmFsOps

/-- The interface both wrappers implement, over the states `S` of a wrapper. -/
structure CmFsOps (σ S : Type) where
  call : CmOp → S → CmResult × S
  fs : S → σ
  setFs : S → σ → S

def recordCmFsOps {σ : Type} (h : Host σ) : CmFsOps σ (World σ) where
  call := RecordCmFsOps.call h
  fs := World.fs
  setFs w fs := { w with fs := fs }

def passthroughCmFsOps {σ : Type} (fns : FsFns σ) (garbage : Int) : CmFsOps σ σ where
  call := PassthroughCmFsOps.call fns garbage
  fs := id
  setFs _ fs := fs

@[simp] theorem recordCmFsOps_fs {σ : Type} (h : Host σ) (w : World σ) :
    (recordCmFsOps h).fs w = w.fs := rfl
@[simp] theorem recordCmFsOps_setFs {σ : Type} (h : Host σ) (w : World σ) (fs : σ) :
    (recordCmFsOps h).setFs w fs = { w with fs := fs } := rfl
@[simp] theorem passthroughCmFsOps_fs {σ : Type} (fns : FsFns σ) (garbage : Int) (s : σ) :
    (passthroughCmFsOps fns garbage).fs s = s := rfl
@[simp] theorem passthroughCmFsOps_setFs {σ : Type} (fns : FsFns σ) (garbage : Int) (s fs : σ) :
    (passthroughCmFsOps fns garbage).setFs s fs = fs := rfl

/-- The body of a test: calls through `cm_`, and system calls made directly. -/
inductive Workload (σ : Type) where
  | done (res : Int)
  | call (op : CmOp) (next : CmResult → Workload σ)
  | direct (act : σ → Int × σ) (next : Int → Workload σ)

/-- What can be seen of a run: every result with the file system after it, and the result of
the test; `none` when an exception ends it. -/
structure TestRun (σ : Type) where
  events : List (CmResult × σ)
  res : Option Int

def TestRun.after {σ : Type} (e : CmResult × σ) (r : TestRun σ) : TestRun σ :=
  { r with events := e :: r.events }

/-- Calls that come back to their caller. -/
def CmResult.returns : CmResult → Bool
  | .ret _ | .void => true
  | _ => false

def Workload.exec {σ S : Type} (cm : CmFsOps σ S) : Workload σ → S → TestRun σ
  | .done res, _ => ⟨[], some res⟩
  | .call op next, s =>
    let (res, s') := cm.call op s
    if res.returns then ((next res).exec cm s').after (res, cm.fs s')
    else ⟨[(res, cm.fs s')], none⟩
  | .direct act next, s =>
    let (res, fs) := act (cm.fs s)
    ((next res).exec cm (cm.setFs s fs)).after (.ret res, fs)

/-- A call that reports an error. -/
def CmResult.failed : CmResult → Bool
  | .ret res => res < 0
  | _ => false

/-- A test stops with 1 once it has made as many checkpoints as it was asked for;
`localCheckpoint` counts those made so far, the failed ones left out. -/
def Workload.stopAt {σ : Type} (checkpoint : Int) : Workload σ → Int → Workload σ
  | .done res, _ => .done res
  | .call op next, localCheckpoint =>
    .call op fun res =>
      if op = .checkpoint ∧ res.failed = false then
        if localCheckpoint + 1 = checkpoint then .done 1
        else (next res).stopAt checkpoint (localCheckpoint + 1)
      else (next res).stopAt checkpoint localCheckpoint
  | .direct act next, localCheckpoint =>
    .direct act fun res => (next res).stopAt checkpoint localCheckpoint

/-- `BaseTestCase::Run` up to the end of the test; the log is written after it. -/
def BaseTestCase.run {σ : Type} (h : Host σ) (garbage : Int) (test : Workload σ)
    (checkpoint : Int) (fs : σ) : TestRun σ :=
  if checkpoint = 0 then (test.stopAt checkpoint 0).exec (recordCmFsOps h) (World.start fs)
  else (test.stopAt checkpoint 0).exec (passthroughCmFsOps h.toFsFns garbage) fs

end PMTester
