import Mathlib.Data.List.AList
import PMTester.Types

/-!
# The disk comparison

A mounted tree is given by what the system calls answer on it: `stat` and
`lstat` at each path, whether `opendir` succeeds, the order in which `readdir`
lists a directory, and the digest that `md5sum` prints.
-/
namespace PMTester

def dtDir : Nat := 4
def dtReg : Nat := 8
def dtLnk : Nat := 10

/-- `struct dirent`. -/
@[ext] structure Dirent where
  dIno : Nat
  dOff : Int
  dReclen : Nat
  dType : Nat
  dName : Path
  deriving DecidableEq, Repr

mutual

/-- What is found at one path. A `none` is a `stat` or `lstat` that fails. -/
inductive Node where
  | dir (stat : Option Stat) (opens : Bool) (entries : Entries)
  | reg (stat : Option Stat) (md5sum : Path)
  | lnk (lstat target : Option Stat)
  | special (fmt : Flags) (stat : Option Stat)
  /-- The entries `.` and `..` of a directory. -/
  | dots (stat : Option Stat)

/-- The directory stream, in the order of `readdir`. -/
inductive Entries where
  | nil
  | cons (dirEntry : Dirent) (node : Node) (rest : Entries)

end

/-- `stat` follows a symbolic link. -/
def Node.stat : Node → Option Stat
  | .dir stat _ _ => stat
  | .reg stat _ => stat
  | .lnk _ target => target
  | .special _ stat => stat
  | .dots stat => stat

def Node.lstat : Node → Option Stat
  | .lnk lstat _ => lstat
  | node => node.stat

def Node.md5sum : Node → Path
  | .reg _ md5sum => md5sum
  | _ => []

@[ext] structure FileAttributes where
  dirAttr : Dirent
  statAttr : Stat
  md5sum : Path
  deriving DecidableEq, Repr

namespace FileAttributes

/-- The constructor leaves `st_ino` as it finds it (`==` stands for `=`); `get_contents`
sets all of `stat_attr` before it stores an entry. -/
def init (stIno : Nat) : FileAttributes :=
  { dirAttr :=
      { dIno := 2 ^ 64 - 1, dOff := -1, dReclen := 2 ^ 16 - 1, dType := 255, dName := [] },
    statAttr :=
      { stIno := stIno, stMode := 0xffffffff#32, stNlink := 2 ^ 64 - 1, stUid := 2 ^ 32 - 1,
        stGid := 2 ^ 32 - 1, stSize := -1, stBlksize := -1, stBlocks := -1 },
    md5sum := [] }

/-- `d_name` is copied into 256 bytes, the last of which is a NUL. -/
def setDirAttr (fa : FileAttributes) (a : Dirent) : FileAttributes :=
  { fa with
    dirAttr :=
      { dIno := a.dIno, dOff := a.dOff, dReclen := a.dReclen, dType := a.dType,
        dName := a.dName.take 255 } }

/-- The buffer keeps its content when the call fails. -/
def setStatAttr (fa : FileAttributes) (answer : Option Stat) : FileAttributes :=
  match answer with
  | none => fa
  | some st => { fa with statAttr := st }

def setMd5sum (fa : FileAttributes) (digest : Path) : FileAttributes :=
  { fa with md5sum := digest }

def compareDirAttr (fa : FileAttributes) (a : Dirent) : Bool :=
  decide (fa.dirAttr.dIno = a.dIno ∧ fa.dirAttr.dOff = a.dOff ∧ fa.dirAttr.dReclen = a.dReclen ∧
    fa.dirAttr.dType = a.dType ∧ fa.dirAttr.dName = a.dName)

def compareStatAttr (fa : FileAttributes) (a : Stat) : Bool :=
  decide (fa.statAttr.stIno = a.stIno ∧ fa.statAttr.stMode = a.stMode ∧
    fa.statAttr.stNlink = a.stNlink ∧ fa.statAttr.stUid = a.stUid ∧
    fa.statAttr.stGid = a.stGid ∧ fa.statAttr.stSize = a.stSize ∧
    fa.statAttr.stBlksize = a.stBlksize ∧ fa.statAttr.stBlocks = a.stBlocks)

/-- The result of `string::compare` as a `bool`: true when the digests differ. -/
def compareMd5sum (fa : FileAttributes) (a : Path) : Bool := decide (fa.md5sum ≠ a)

@[simp] theorem compareDirAttr_iff (fa : FileAttributes) (a : Dirent) :
    fa.compareDirAttr a = true ↔ fa.dirAttr = a := by
  simp [compareDirAttr, Dirent.ext_iff]

@[simp] theorem compareStatAttr_iff (fa : FileAttributes) (a : Stat) :
    fa.compareStatAttr a = true ↔ fa.statAttr = a := by
  simp [compareStatAttr, Stat.ext_iff]

@[simp] theorem compareMd5sum_eq_false (fa : FileAttributes) (a : Path) :
    fa.compareMd5sum a = false ↔ fa.md5sum = a := by
  simp [compareMd5sum]

def isRegularFile (fa : FileAttributes) : Bool := fa.statAttr.isReg

end FileAttributes

abbrev Contents := AList fun _ : Path => FileAttributes

structure DiskContents where
  diskPath : Path
  mountPoint : Path
  contents : Contents := ∅

def slash : UInt8 := UInt8.ofNat '/'.toNat

def dot : Path := path ['.']
def dotdot : Path := path ['.', '.']

/-- `"/mnt/pmem0"`. -/
def basePath : Path := path ['/', 'm', 'n', 't', '/', 'p', 'm', 'e', 'm', '0']

/-- The disks that the tester mounts at its two mount points. -/
def recordDisk : DiskContents := { diskPath := path ['0'], mountPoint := basePath }

def replayDisk : DiskContents :=
  { diskPath := path ['1'], mountPoint := path ['/', 'm', 'n', 't', '/', 'p', 'm', 'e', 'm', '1'] }

mutual

/-- `get_contents(path)`, with what is mounted there. -/
def getContents (mountPoint path : Path) : Node → Contents → Contents
  | .dir _ true entries, contents => readEntries mountPoint path entries contents
  | _, contents => contents

/-- The loop over the directory stream. -/
def readEntries (mountPoint path : Path) : Entries → Contents → Contents
  | .nil, contents => contents
  | .cons dirEntry node rest, contents =>
    let currentPath := path ++ slash :: dirEntry.dName
    let relativePath := currentPath.drop mountPoint.length
    let fa := FileAttributes.init 0
    readEntries mountPoint path rest <|
      match node.stat with
      | none => contents
      | some st =>
        if dirEntry.dType = dtDir then
          if dirEntry.dName = dot ∨ dirEntry.dName = dotdot then contents
          else
            let fa := (fa.setDirAttr dirEntry).setStatAttr (some st)
            getContents mountPoint currentPath node (contents.insert relativePath fa)
        else if dirEntry.dType = dtLnk then
          match node.lstat with
          | none => contents
          | some lst => contents.insert relativePath (fa.setStatAttr (some lst))
        else if dirEntry.dType = dtReg then
          contents.insert relativePath ((fa.setMd5sum node.md5sum).setStatAttr (some st))
        else contents.insert relativePath (fa.setStatAttr (some st))

end

/-- One round of the entry-wise comparison; false when it reports a difference. -/
def sameEntry (compareContents : Contents) (path : Path) (fa : FileAttributes) : Bool :=
  match compareContents.lookup path with
  | none => false
  | some fb =>
    if !fa.compareDirAttr fb.dirAttr || !fa.compareStatAttr fb.statAttr then false
    else if fa.isRegularFile then !fa.compareMd5sum fb.md5sum
    else true

/-- The report in `diff_file` is left out; both disks keep what they collected. -/
def DiskContents.compareDiskContents (disk compareDisk : DiskContents) (root compareRoot : Node) :
    Bool × DiskContents × DiskContents :=
  if disk.diskPath = compareDisk.diskPath then (true, disk, compareDisk)
  else
    let contents := getContents disk.mountPoint basePath root disk.contents
    let compareContents :=
      getContents compareDisk.mountPoint compareDisk.mountPoint compareRoot compareDisk.contents
    let retValue := decide (contents.entries.length = compareContents.entries.length)
    let retValue := contents.foldl
      (fun retValue path fa => retValue && sameEntry compareContents path fa) retValue
    (retValue, { disk with contents := contents },
      { compareDisk with contents := compareContents })

end PMTester
