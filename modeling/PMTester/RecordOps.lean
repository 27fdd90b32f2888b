import Mathlib.Logic.Function.Basic
import PMTester.FsFns
import PMTester.DiskMod

/-!
# `RecordCmFsOps`

Every operation of the recording wrapper, over an arbitrary `Host`. A call may
also end in an exception of `std::unordered_map::at` or `operator new`, in a
failed assertion, or in an access outside a buffer; the result says which.
-/
namespace PMTester

open Word

/-- How a wrapper call ends. -/
inductive CmResult where
  | ret (value : Int)
  | void
  | outOfRange
  | badAlloc
  | assertFailed
  | fault
  deriving DecidableEq, Repr

/-- The count of one call fits the `int` it is stored in. -/
theorem toInt_count {n : Nat} (h : n ≤ maxRwCount) : toInt (n : Int) = n := by
  have hmax : maxRwCount < 2 ^ 31 := by decide
  exact toInt_of_fits _ (by omega) (by omega)

/-- The state of the file system together with the members of one `RecordCmFsOps`. -/
structure World (σ : Type) where
  fs : σ
  fdMap : Int → Option Path
  mmapMap : List MmapEntry
  mods : List DiskMod

/-- A newly constructed `RecordCmFsOps`. -/
def World.start {σ : Type} (fs : σ) : World σ := ⟨fs, fun _ => none, [], []⟩

/-- `mods_.push_back(mod)`. -/
def World.push {σ : Type} (w : World σ) (mod : DiskMod) : World σ :=
  { w with mods := w.mods ++ [mod] }

@[simp] theorem World.push_fs {σ : Type} (w : World σ) (mod : DiskMod) :
    (w.push mod).fs = w.fs := rfl

/-- `fd_map_.insert({fd, pathname})`: an entry that is already there stays. -/
def insertFd (m : Int → Option Path) (fd : Int) (pathname : Path) : Int → Option Path :=
  Function.update m fd (some ((m fd).getD pathname))

/-- `std::string::find`: the first position at which `needle` occurs. -/
def find (needle : Path) : Path → Option Nat
  | [] => if needle = [] then some 0 else none
  | c :: rest =>
    if needle.isPrefixOf (c :: rest) then some 0 else (find needle rest).map (· + 1)

/-- The loop body of `CmRename` on one entry of `fd_map_`. -/
def renamed (oldPath newPath entry : Path) : Path :=
  if entry = oldPath then newPath
  else
    match find oldPath entry with
    | none => entry
    | some found => entry.take found ++ newPath ++ entry.drop (found + oldPath.length)

namespace RecordCmFsOps

variable {σ : Type} (h : Host σ)

def cmMknod (pathname : Path) (mode : Flags) (dev : Nat) (w : World σ) : CmResult × World σ :=
  let (res, fs) := h.fnMknod (cStr pathname) mode dev w.fs
  (.ret res, { w with fs := fs })

def cmMkdir (pathname : Path) (mode : Flags) (w : World σ) : CmResult × World σ :=
  let (res, fs) := h.fnMkdir (cStr pathname) mode w.fs
  let w := { w with fs := fs }
  if res < 0 then (.ret res, w)
  else
    (.ret res, w.push {
      directoryMod := true, path := pathname, modType := .kCreateMod, modOpts := .kNoneOpt })

def cmOpenCommon (fd : Int) (pathname : Path) (pathExists : Bool) (flags : Flags)
    (w : World σ) : World σ :=
  let w := { w with fdMap := insertFd w.fdMap fd pathname }
  if !pathExists || flags.has oTrunc then
    let ((postStatRes, postModStats), fs) := h.fnStat (cStr pathname) w.fs
    let w := { w with fs := fs }
    if postStatRes < 0 then w
    else
      w.push {
        postModStats := postModStats, directoryMod := postModStats.isDir,
        modType := if !pathExists then .kCreateMod else .kDataMetadataMod,
        modOpts := if !pathExists then .kNoneOpt else .kTruncateOpt, path := pathname }
  else w

/-- Both overloads of `CmOpen`, over the system call they make. -/
def openWith (fnOpen : Path → σ → Int × σ) (pathname : Path) (flags : Flags) (w : World σ) :
    CmResult × World σ :=
  let (pathExists, fs) := h.fnPathExists (cStr pathname) w.fs
  let (res, fs) := fnOpen (cStr pathname) fs
  let w := { w with fs := fs }
  if res < 0 then (.ret res, w)
  else (.ret res, cmOpenCommon h res pathname pathExists flags w)

def cmOpen (pathname : Path) (flags : Flags) : World σ → CmResult × World σ :=
  openWith h (fun p => h.fnOpen p flags) pathname flags

def cmOpen2 (pathname : Path) (flags mode : Flags) : World σ → CmResult × World σ :=
  openWith h (fun p => h.fnOpen2 p flags mode) pathname flags

def cmLseek (fd offset whence : Int) (w : World σ) : CmResult × World σ :=
  let (res, fs) := h.fnLseek fd offset whence w.fs
  (.ret res, { w with fs := fs })

/-- The end of `CmWrite` and `CmPwrite` for a file: the second stat and the mod. A `memcpy` of more
bytes than the caller's buffer has reads past it. -/
def recordWrite (pathname : Path) (preStat : Stat) (location : UInt64) (buf : List UInt8)
    (writeRes : Int) (w : World σ) : CmResult × World σ :=
  let ((res, postModStats), fs) := h.fnStat pathname w.fs
  let w := { w with fs := fs }
  if res < 0 then (.ret writeRes, w)
  else if buf.length < writeRes.toNat then (.fault, w)
  else
    (.ret writeRes, w.push {
      fileModLocation := location, fileModLen := intToUlong writeRes, path := pathname,
      postModStats := postModStats,
      modType := if preStat.stSize ≠ postModStats.stSize then .kDataMetadataMod else .kDataMod,
      modOpts := .kNoneOpt, fileModData := buf.take writeRes.toNat })

/-- `file_mod_location` is unsigned, so the test for a negative one never fires. -/
def cmWrite (fd : Int) (buf : List UInt8) (w : World σ) : CmResult × World σ :=
  match w.fdMap fd with
  | none => (.outOfRange, w)
  | some pathname =>
    let ((res, preStat), fs) := h.fnStat pathname w.fs
    if res < 0 then (.ret res, { w with fs := fs })
    else
      let (position, fs) := h.fnLseek fd 0 seekCur fs
      let location := intToUlong position
      if location < 0 then (.ret (toInt location.toNat), { w with fs := fs })
      else
        let (written, fs) := h.fnWrite fd buf fs
        let writeRes := toInt written
        let w := { w with fs := fs }
        if writeRes < 0 then (.ret writeRes, w)
        else if preStat.isDir then
          (.ret writeRes, w.push {
            modOpts := .kNoneOpt, fileModLocation := location, directoryMod := true })
        else recordWrite h pathname preStat location buf writeRes w

def cmPwrite (fd : Int) (buf : List UInt8) (offset : Int) (w : World σ) : CmResult × World σ :=
  match w.fdMap fd with
  | none => (.outOfRange, w)
  | some pathname =>
    let ((res, preStat), fs) := h.fnStat pathname w.fs
    if res < 0 then (.ret res, { w with fs := fs })
    else
      let (written, fs) := h.fnPwrite fd buf offset fs
      let writeRes := toInt written
      let w := { w with fs := fs }
      if writeRes < 0 then (.ret writeRes, w)
      else if preStat.isDir then
        (.ret writeRes, w.push { modOpts := .kNoneOpt, directoryMod := true })
      else recordWrite h pathname preStat (intToUlong offset) buf writeRes w

/-- `mmap_map_.insert`, through a tuple of two `unsigned int`. -/
def insertMmap (entries : List MmapEntry) (base : Nat) (pathname : Path) (offset : Int)
    (length : Nat) : List MmapEntry :=
  if entries.any (·.base == base) then entries
  else entries ++ [⟨base, pathname, toUnsigned (intToUlong offset).toNat, toUnsigned length⟩]

def cmMmap (addr length : Nat) (prot flags : Flags) (fd offset : Int) (w : World σ) :
    CmResult × World σ :=
  let (res, fs) := h.fnMmap addr length prot flags fd offset w.fs
  let w := { w with fs := fs }
  if res = mapFailed then (.ret res, w)
  else if !prot.has protWrite || flags.has mapPrivate || flags.has mapAnonymous then (.ret res, w)
  else
    match w.fdMap fd with
    | none => (.outOfRange, w)
    | some pathname =>
      (.ret res, { w with mmapMap := insertMmap w.mmapMap res pathname offset length })

/-- The search condition of `CmMsync`, on pointers. -/
def MmapEntry.covers (addr : Nat) (e : MmapEntry) : Bool :=
  e.base ≤ addr && addr < toUlong (e.base + e.length)

/-- No array has more than `PTRDIFF_MAX` bytes. -/
def cmMsync (addr length : Nat) (flags : Flags) (w : World σ) : CmResult × World σ :=
  let (res, fs) := h.fnMsync addr length flags w.fs
  let w := { w with fs := fs }
  if res < 0 then (.ret res, w)
  else
    match (h.order w.mmapMap).find? (MmapEntry.covers addr) with
    | none => (.ret res, w)
    | some e =>
      if 2 ^ 63 ≤ length then (.badAlloc, w)
      else
        match load (h.memory w.fs) addr length with
        | none => (.fault, w)
        | some bytes =>
          (.ret res, w.push {
            modType := .kDataMod,
            modOpts := if flags.has msAsync then .kMsAsyncOpt else .kMsSyncOpt,
            path := e.path, fileModLocation := intToUlong (e.offset + ((addr : Int) - e.base)),
            fileModLen := UInt64.ofNat length, fileModData := bytes })

def cmMunmap (addr length : Nat) (w : World σ) : CmResult × World σ :=
  let (res, fs) := h.fnMunmap addr length w.fs
  let w := { w with fs := fs }
  if res < 0 then (.ret res, w)
  else (.ret res, { w with mmapMap := w.mmapMap.filter (·.base != addr) })

/-- The option chain of `CmFallocate`, after the assertion on `FALLOC_FL_PUNCH_HOLE`. -/
def fallocateOpts (mode : Flags) : ModOpts :=
  if mode.has fallocFlPunchHole then .kPunchHoleKeepSizeOpt
  else if mode.has fallocFlCollapseRange then .kCollapseRangeOpt
  else if mode.has fallocFlZeroRange then
    if mode.has fallocFlKeepSize then .kZeroRangeKeepSizeOpt else .kZeroRangeOpt
  else if mode.has fallocFlKeepSize then .kFallocateKeepSizeOpt
  else .kFallocateOpt

/-- `fd_map_[fd]` creates an empty entry when there is none. -/
def cmFallocate (fd : Int) (mode : Flags) (offset len : Int) (w : World σ) : CmResult × World σ :=
  let w := { w with fdMap := insertFd w.fdMap fd [] }
  let pathname := (w.fdMap fd).getD []
  let ((preStatRes, preStat), fs) := h.fnStat (cStr pathname) w.fs
  if preStatRes < 0 then (.ret preStatRes, { w with fs := fs })
  else
    let (res, fs) := h.fnFallocate fd mode offset len fs
    if res < 0 then (.ret res, { w with fs := fs })
    else
      let ((postStatRes, postStat), fs) := h.fnStat (cStr pathname) fs
      let w := { w with fs := fs }
      if postStatRes < 0 then (.ret postStatRes, w)
      else if mode.has fallocFlPunchHole && !mode.has fallocFlKeepSize then (.assertFailed, w)
      else
        (.ret res, w.push {
          modType := if preStat.stSize ≠ postStat.stSize ∨ preStat.stBlocks ≠ postStat.stBlocks
            then .kDataMetadataMod else .kDataMod,
          path := pathname, fileModLocation := intToUlong offset, fileModLen := intToUlong len,
          modOpts := fallocateOpts mode })

def cmClose (fd : Int) (w : World σ) : CmResult × World σ :=
  let (res, fs) := h.fnClose fd w.fs
  let w := { w with fs := fs }
  if res < 0 then (.ret res, w)
  else (.ret res, { w with fdMap := Function.update w.fdMap fd none })

/-- The descriptor paths change before the system call is made, and whatever it returns. -/
def cmRename (oldPath newPath : Path) (w : World σ) : CmResult × World σ :=
  let w := { w with fdMap := fun fd => (w.fdMap fd).map (renamed oldPath newPath) }
  let (res, fs) := h.fnRename oldPath newPath w.fs
  (.ret res, { w with fs := fs })

/-- `CmUnlink` and `CmRemove`, over the system call they make. -/
def removeWith (fnRemove : Path → σ → Int × σ) (pathname : Path) (w : World σ) :
    CmResult × World σ :=
  let (res, fs) := fnRemove (cStr pathname) w.fs
  let w := { w with fs := fs }
  if res < 0 then (.ret res, w)
  else (.ret res, w.push { modType := .kRemoveMod, modOpts := .kNoneOpt, path := pathname })

def cmUnlink : Path → World σ → CmResult × World σ := removeWith h.fnUnlink

def cmRemove : Path → World σ → CmResult × World σ := removeWith h.fnRemove

/-- `CmFsync` and `CmFdatasync`, over the system call they make. -/
def fsyncWith (fnFsync : Int → σ → Int × σ) (fd : Int) (w : World σ) : CmResult × World σ :=
  let (res, fs) := fnFsync fd w.fs
  let w := { w with fs := fs }
  if res < 0 then (.ret res, w)
  else
    match w.fdMap fd with
    | none => (.outOfRange, w)
    | some pathname =>
      (.ret res, w.push { modType := .kFsyncMod, modOpts := .kNoneOpt, path := pathname })

def cmFsync : Int → World σ → CmResult × World σ := fsyncWith h.fnFsync

def cmFdatasync : Int → World σ → CmResult × World σ := fsyncWith h.fnFdatasync

def cmSync (w : World σ) : CmResult × World σ :=
  let w := { w with fs := h.fnSync w.fs }
  (.void, w.push { modType := .kSyncMod, modOpts := .kNoneOpt })

def cmSyncFileRange (fd : Int) (offset nbytes : Nat) (flags : Flags) (w : World σ) :
    CmResult × World σ :=
  let (res, fs) := h.fnSyncFileRange fd offset nbytes flags w.fs
  let w := { w with fs := fs }
  if res < 0 then (.ret res, w)
  else
    match w.fdMap fd with
    | none => (.outOfRange, w)
    | some pathname =>
      let ((postStatRes, postModStats), fs) := h.fnStat pathname w.fs
      let w := { w with fs := fs }
      if postStatRes < 0 then (.ret postStatRes, w)
      else
        (.ret res, w.push {
          modType := .kSyncFileRangeMod, modOpts := .kNoneOpt, path := pathname,
          postModStats := postModStats, fileModLocation := UInt64.ofNat offset,
          fileModLen := UInt64.ofNat nbytes })

def cmCheckpoint (w : World σ) : CmResult × World σ :=
  let (res, fs) := h.toFsFns.cmCheckpoint w.fs
  let w := { w with fs := fs }
  if res < 0 then (.ret res, w)
  else (.ret res, w.push { modType := .kCheckpointMod, modOpts := .kNoneOpt })

end RecordCmFsOps

/-- The calls of the `CmFsOps` interface, with their arguments. -/
inductive CmOp where
  | mknod (pathname : Path) (mode : Flags) (dev : Nat)
  | mkdir (pathname : Path) (mode : Flags)
  | open (pathname : Path) (flags : Flags)
  | open2 (pathname : Path) (flags mode : Flags)
  | lseek (fd offset whence : Int)
  | write (fd : Int) (buf : List UInt8)
  | pwrite (fd : Int) (buf : List UInt8) (offset : Int)
  | mmap (addr length : Nat) (prot flags : Flags) (fd offset : Int)
  | msync (addr length : Nat) (flags : Flags)
  | munmap (addr length : Nat)
  | fallocate (fd : Int) (mode : Flags) (offset len : Int)
  | close (fd : Int)
  | rename (oldPath newPath : Path)
  | unlink (pathname : Path)
  | remove (pathname : Path)
  | fsync (fd : Int)
  | fdatasync (fd : Int)
  | sync
  | syncFileRange (fd : Int) (offset nbytes : Nat) (flags : Flags)
  | checkpoint
  deriving DecidableEq, Repr

namespace RecordCmFsOps

variable {σ : Type} (h : Host σ)

def call : CmOp → World σ → CmResult × World σ
  | .mknod p mode dev => cmMknod h p mode dev
  | .mkdir p mode => cmMkdir h p mode
  | .open p flags => cmOpen h p flags
  | .open2 p flags mode => cmOpen2 h p flags mode
  | .lseek fd offset whence => cmLseek h fd offset whence
  | .write fd buf => cmWrite h fd buf
  | .pwrite fd buf offset => cmPwrite h fd buf offset
  | .mmap addr length prot flags fd offset => cmMmap h addr length prot flags fd offset
  | .msync addr length flags => cmMsync h addr length flags
  | .munmap addr length => cmMunmap h addr length
  | .fallocate fd mode offset len => cmFallocate h fd mode offset len
  | .close fd => cmClose h fd
  | .rename oldPath newPath => cmRename h oldPath newPath
  | .unlink p => cmUnlink h p
  | .remove p => cmRemove h p
  | .fsync fd => cmFsync h fd
  | .fdatasync fd => cmFdatasync h fd
  | .sync => cmSync h
  | .syncFileRange fd offset nbytes flags => cmSyncFileRange h fd offset nbytes flags
  | .checkpoint => cmCheckpoint h

/-- A run of calls through one recorder. A call that throws leaves what it did so far. -/
def run (ops : List CmOp) (w : World σ) : World σ := ops.foldl (fun w op => (call h op w).2) w

@[simp] theorem run_cons (op : CmOp) (ops : List CmOp) (w : World σ) :
    run h (op :: ops) w = run h ops (call h op w).2 := rfl

theorem run_append (xs ys : List CmOp) (w : World σ) :
    run h (xs ++ ys) w = run h ys (run h xs w) := by
  simp [run, List.foldl_append]

end RecordCmFsOps

end PMTester
