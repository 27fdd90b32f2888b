import PMTester.ChangeLog
import PMTester.FileCompare
import PMTester.Lib.Script
import PMTester.MonitorCommand
import PMTester.TesterCheck
import PMTester.TestResults

/-!
# The harness

`main` and the methods of `Tester` and `ClassLoader` that it calls, as a script:
every system call, every command line and every message is a question to the
environment. What is printed on the way is left out, apart from the results.
`rounds` bounds the loops.
-/
namespace PMTester

inductive FSCommands where
  | dax | nova | pmfs
  deriving DecidableEq, Repr

namespace FSCommands

def fsName : FSCommands → Path
  | .dax => path "dax".toList
  | .nova => path "NOVA".toList
  | .pmfs => path "pmfs".toList

def getMountCommand (c : FSCommands) (devPath mountPoint : Path) : Path :=
  match c with
  | .dax => path "mount -t ext4 -o dax ".toList ++ devPath ++ path " ".toList ++ mountPoint
  | .nova | .pmfs =>
    path "mount -t ".toList ++ c.fsName ++ path " ".toList ++ devPath ++ path " ".toList ++ mountPoint

/-- Every one of them also mounts the device. -/
def getMkfsCommand (c : FSCommands) (devPath mountPoint : Path) : Path :=
  match c with
  | .dax =>
    path "mkfs.ext4 -b 4096 ".toList ++ devPath ++ path "; ".toList ++
      c.getMountCommand devPath mountPoint
  | .nova | .pmfs =>
    path "mount -t ".toList ++ c.fsName ++ path " -o init ".toList ++ devPath ++ path " ".toList ++
      mountPoint

end FSCommands

def getFSCommands (fsName : Path) : Option FSCommands :=
  [FSCommands.dax, .nova, .pmfs].find? fun c => fsName == c.fsName

/-- What the harness passes to `system`. -/
inductive ShellCommand where
  | dd (input output : Path) (count : Nat)
  | mkfs (c : FSCommands) (devPath mountPoint : Path)
  | mount (c : FSCommands) (devPath mountPoint : Path)
  | grepMounts
  | workload
  | ls (dir : Path)
  | diff
  | umount (mountPoint : Path)
  deriving DecidableEq, Repr

def ShellCommand.text : ShellCommand → Path
  | .dd input output count =>
    path "dd if=".toList ++ input ++ path " of=".toList ++ output ++ path " bs=1M count=".toList ++
      path (Nat.toDigits 10 count)
  | .mkfs c devPath mountPoint => c.getMkfsCommand devPath mountPoint
  | .mount c devPath mountPoint => c.getMountCommand devPath mountPoint
  | .grepMounts => path "mount | grep pmem".toList
  | .workload => path "./workload".toList
  | .ls dir => path "ls ".toList ++ dir
  | .diff => path "diff -qr /mnt/pmem0 /mnt/pmem1".toList
  | .umount mountPoint => path "umount ".toList ++ mountPoint

def mntPointRecord : Path := path "/mnt/pmem0".toList
def mntPointReplay : Path := path "/mnt/pmem1".toList

/-- `MNT_POINT_SNAPSHOT "/" SNAPSHOT_NAME`. -/
def snapshotFile : Path := path "/mnt/ramdisk/snapshot.snap".toList

/-- `fork` comes back in the parent and in the child. -/
inductive ForkResult where
  | failed | child | parent
  deriving DecidableEq, Repr

inductive HarnessCall where
  | dlopen (path : Path)
  | dlsym (handle : Nat) (name : Path)
  | dlclose (handle : Nat)
  | create (factory : Nat)
  | destroy (defactory : Option Nat) (instance_ : Nat)
  | initValues (instance_ : Option Nat) (mountDir : Path) (filesysSize : Int)
  | connect (addr : Path) (port : UInt32)
  | system (command : ShellCommand)
  | umount (target : Path)
  | usleep (usec : Nat)
  | send (line : Path)
  | receive
  | fork
  | waitpid
  | openChanges (write : Bool)
  | testRun (instance_ : Option Nat) (changeFd checkpoint : Int)
  | close (fd : Int)
  | lseek (fd : Int)
  | readChanges (fd : Int)
  | compare (c : Comparison)
  | sanityChecks
  | printResults (info : SingleTestInfo)
  | printStats (suite : TestSuiteResult)

/-- What a question is answered with. Pointers that may be `NULL` and calls that set `errno` have
the failure as an answer; `waitpid` answers with the status it leaves, `readChanges` with the file
and what the calls of `read` do to it. A comparison may also not come back. -/
abbrev HarnessCall.Answer : HarnessCall → Type
  | .dlopen _ | .dlsym _ _ => Option Nat
  | .create _ => Nat
  | .connect _ _ => Option Nat
  | .umount _ => Except Int Unit
  | .receive => SockError
  | .fork => ForkResult
  | .readChanges _ => Tester.ReadEnv × Transfer.Source
  | .compare _ => CompareResult
  | .sanityChecks => Bool
  | .system _ | .send _ | .waitpid | .openChanges _ | .testRun _ _ _ | .lseek _ => Int
  | _ => Unit

abbrev Harness := Script HarnessCall HarnessCall.Answer

def ask (q : HarnessCall) : Harness q.Answer := Script.call q

def caseHandleErr : Int := -1
def caseInitErr : Int := -2
def caseDestErr : Int := -3

structure ClassLoader where
  loaderHandle : Option Nat := none
  factory : Option Nat := none
  defactory : Option Nat := none
  instance_ : Option Nat := none
  deriving DecidableEq, Repr

namespace ClassLoader

def loadClass (l : ClassLoader) (path factoryName defactoryName : Path) :
    Harness (Int × ClassLoader) := do
  match ← ask (.dlopen path) with
  | none => return (caseHandleErr, { l with loaderHandle := none })
  | some handle =>
    match ← ask (.dlsym handle factoryName) with
    | none =>
      ask (.dlclose handle)
      return (caseInitErr, { l with loaderHandle := none, factory := none, defactory := none })
    | some factory =>
      match ← ask (.dlsym handle defactoryName) with
      | none =>
        ask (.dlclose handle)
        return (caseDestErr, { l with loaderHandle := none, factory := none, defactory := none })
      | some defactory =>
        let instance_ ← ask (.create factory)
        return (Tester.success, ⟨some handle, some factory, some defactory, some instance_⟩)

def unloadClass (l : ClassLoader) : Harness ClassLoader :=
  match l.loaderHandle, l.instance_ with
  | some handle, some instance_ => do
    ask (.destroy l.defactory instance_)
    ask (.dlclose handle)
    return {}
  | _, _ => return l

end ClassLoader

def snapErr : Int := -1
def restoreErr : Int := -2
def fmtErr : Int := -4
def umntErr : Int := -5

/-- `EBUSY`. -/
def ebusy : Int := 16

/-- How a process of the program ends. -/
inductive MainExit where
  | returned (code : Int)
  /-- The child that runs the test. -/
  | child (code : Int)
  /-- An assertion or an exception that nothing catches. -/
  | aborted
  /-- A read or a store that leaves its buffer. -/
  | fault
  | unfinished
  deriving DecidableEq, Repr

/-- `Tester`, with the suite that `StartTestSuite` puts in. -/
structure Tester where
  deviceSize : Nat
  fs : Path
  fsCommands : Option FSCommands
  recordDevicePath : Path
  replayDevicePath : Path
  testLoader : ClassLoader := {}
  suite : TestSuiteResult := {}
  recordDevMounted : Bool := false
  mods : List (List DiskMod) := []

namespace Tester

def snapshotDevice (t : Tester) : Harness Int := do
  let res ← ask (.system (.dd t.recordDevicePath snapshotFile t.deviceSize))
  return if res ≠ 0 then snapErr else success

def restoreSnapshot (t : Tester) : Harness Int := do
  let res ← ask (.system (.dd snapshotFile t.replayDevicePath t.deviceSize))
  return if res ≠ 0 then restoreErr else success

/-- `set_fs` asserts that there are commands. -/
def mountDevice (c : FSCommands) (devicePath mountPoint : Path) : Harness Int := do
  let res ← ask (.system (.mount c devicePath mountPoint))
  return PMTester.mountDevice res

def formatAndMountDevice (c : FSCommands) (devicePath mountPoint : Path) : Harness Int := do
  let res ← ask (.system (.mkfs c devicePath mountPoint))
  return if res ≠ 0 then fmtErr else success

/-- `TEST_CLASS_FACTORY`. -/
def testClassFactory : Path := path "test_case_get_instance".toList

/-- `TEST_CLASS_DEFACTORY`. -/
def testClassDefactory : Path := path "test_case_delete_instance".toList

/-- The result, and `errno` after it. -/
def umountDevice (t : Tester) : Harness (Int × Int × Tester) := do
  match ← ask (.umount mntPointRecord) with
  | .error errno => return (umntErr, errno, { t with recordDevMounted := true })
  | .ok _ => return (success, 0, { t with recordDevMounted := false })

def testLoadClass (t : Tester) (classPath : Path) : Harness (Int × Tester) := do
  let (res, l) ← t.testLoader.loadClass classPath testClassFactory testClassDefactory
  return (res, { t with testLoader := l })

def testUnloadClass (t : Tester) : Harness Tester := do
  let l ← t.testLoader.unloadClass
  return { t with testLoader := l }

/-- The loop of `cleanup_harness`. -/
def umountLoop : Nat → Tester → Harness (Option (Int × Tester))
  | 0, _ => return none
  | rounds + 1, t => do
    let (umountRes, err, t) ← t.umountDevice
    if umountRes < 0 then
      ask (.usleep 500)
      if err = ebusy then umountLoop rounds t else return some (umountRes, t)
    else return some (umountRes, t)

/-- `none` while the device stays busy. -/
def cleanupHarness (rounds : Nat) (t : Tester) : Harness (Option Tester) := do
  match ← umountLoop rounds t with
  | none => return none
  | some (umountRes, t) =>
    let t ← t.testUnloadClass
    if umountRes < 0 then return some t else return some { t with fsCommands := none }

def askVerdict (c : Comparison) : Harness CompareResult := do
  match ← ask (.compare c) with
  | .ret ret =>
    if ret then
      let sane ← ask .sanityChecks
      return .ret (if sane = false then false else ret)
    else return .ret ret
  | thrown => return thrown

/-- The loop of `check_disk_and_snapshot_contents`. -/
def askLoop : List DiskMod → Harness CompareResult
  | [] => return .ret false
  | lastMod :: rest =>
    if lastMod.modType = .kFsyncMod then askVerdict (.entriesAtPath (belowMountPoint lastMod.path))
    else if lastMod.modType = .kSyncMod then askVerdict .diskContents
    else if lastMod.modType = .kDataMod ∨ lastMod.modType = .kSyncFileRangeMod then
      askVerdict (.fileContents (belowMountPoint lastMod.path)
        (Word.toInt lastMod.fileModLocation.toNat) (Word.toInt lastMod.fileModLen.toNat))
    else askLoop rest

/-- `test_check`; an error when `mods_.at` or a comparison throws, or a comparison stores in front of
its buffer. -/
def testCheck (t : Tester) (c : FSCommands) (devicePath : Path) :
    Harness (Except MainExit Tester) := do
  if (← mountDevice c devicePath mntPointReplay) ≠ success then return .ok t
  else if (← mountDevice c t.recordDevicePath mntPointRecord) ≠ success then return .ok t
  else
    let _ ← ask (.system .grepMounts)
    let _ ← ask (.system (.ls mntPointRecord))
    let _ ← ask (.system (.ls mntPointReplay))
    let _ ← ask (.system .diff)
    match checkedSegment t.mods with
    | none => return .error .aborted
    | some segment =>
      match ← askLoop segment with
      | .ret retVal =>
        let testInfo : SingleTestInfo :=
          if !retVal then { dataTest := DataTestResult.setError {} .kAutoCheckFailed } else {}
        ask (.printResults testInfo)
        return .ok { t with suite := t.suite.tallyTimingResult testInfo }
      | .badAlloc => return .error .aborted
      | .fault => return .error .fault

end Tester

/-- What `getopt_long` returns, with `optarg`. -/
inductive Opt where
  | b (optarg : Path)
  | d (optarg : Path)
  | e (optarg : Path)
  | f (optarg : Path)
  | i (optarg : Path)
  | p (optarg : UInt32)
  | r (optarg : Path)
  | v
  | other

structure Settings where
  remoteIp : Path := path "192.168.122.1".toList
  remotePort : UInt32 := 4444
  beginTraceAddr : Path := path "0x40000000".toList
  endTraceAddr : Path := path "0x48000000".toList
  fs : Path := path "NOVA".toList
  recordDevicePath : Path := path "/dev/pmem0".toList
  replayDevicePath : Path := path "/dev/pmem1".toList

def Settings.parse : List Opt → Settings → Option Settings
  | [], s => some s
  | .b optarg :: rest, s => parse rest { s with beginTraceAddr := optarg }
  | .d optarg :: rest, s => parse rest { s with recordDevicePath := optarg }
  | .e optarg :: rest, s => parse rest { s with endTraceAddr := optarg }
  | .f optarg :: rest, s => parse rest { s with fs := optarg }
  | .i optarg :: rest, s => parse rest { s with remoteIp := optarg }
  | .p optarg :: rest, s => parse rest { s with remotePort := optarg }
  | .r optarg :: rest, s => parse rest { s with replayDevicePath := optarg }
  | .v :: rest, s => parse rest s
  | .other :: _, _ => none

/-- `begin_replay_addr`; no option changes it. -/
def beginReplayAddr : Path := path "0x48000000".toList

/-- In megabytes, from the default addresses. -/
def recordSize : Nat := (0x48000000 - 0x40000000) / 1024 / 1024

namespace Main

/-- The error exit of most steps. -/
def giveUp (rounds : Nat) (t : Tester) : Harness MainExit := do
  match ← t.cleanupHarness rounds with
  | none => return .unfinished
  | some _ => return .returned (-1)

/-- A command and the reply to it, which is not looked at. -/
def command (sockfd : Nat) (msg : SockMessage) (next : Harness MainExit) : Harness MainExit := do
  let sent ← ask (.send (ClientSocket.completeCommand msg))
  if (ClientSocket.sendCommand sockfd (fun _ => sent) msg).1 ≠ .eNone then return .returned (-1)
  else
    let _ ← ask .receive
    next

/-- Step 2: the file system on the record device, and its image on the replay device. NOVA is
unmounted for the snapshot only. -/
def prepare (rounds : Nat) (c : FSCommands) (t : Tester) (next : Tester → Harness MainExit) :
    Harness MainExit := do
  if (← Tester.formatAndMountDevice c t.recordDevicePath mntPointRecord) ≠ Tester.success then
    giveUp rounds t
  else unmountNova t fun t => do
    if (← t.snapshotDevice) ≠ Tester.success then giveUp rounds t
    else if (← t.restoreSnapshot) ≠ Tester.success then giveUp rounds t
    else remountNova t fun t => do
      let _ ← ask (.system .grepMounts)
      next t
where
  unmountNova (t : Tester) (next : Tester → Harness MainExit) : Harness MainExit :=
    if t.fs = FSCommands.nova.fsName then do
      let (res, _, t) ← t.umountDevice
      if res ≠ Tester.success then giveUp rounds t else next t
    else next t
  remountNova (t : Tester) (next : Tester → Harness MainExit) : Harness MainExit :=
    if t.fs = FSCommands.nova.fsName then do
      if (← Tester.mountDevice c t.recordDevicePath mntPointRecord) ≠ Tester.success then
        giveUp rounds t
      else next t
    else next t

/-- `WIFEXITED`. -/
def wifexited (status : Int) : Bool := status % 128 == 0

/-- Step 3: the test in a child process, and the changes it has recorded. -/
def runTest (rounds : Nat) (t : Tester) (next : Tester → Harness MainExit) : Harness MainExit := do
  let _ ← ask (.system .workload)
  match ← ask .fork with
  | .failed => giveUp rounds t
  | .child =>
    let changeFd ← ask (.openChanges true)
    if changeFd < 0 then return .child changeFd
    else
      let res ← ask (.testRun t.testLoader.instance_ changeFd 0)
      ask (.close changeFd)
      return .child res
  | .parent =>
    let status ← ask .waitpid
    if wifexited status = false then giveUp rounds t
    else
      let changeFd ← ask (.openChanges false)
      if changeFd < 0 then giveUp rounds t
      else if (← ask (.lseek changeFd)) < 0 then giveUp rounds t
      else
        let (env, file) ← ask (.readChanges changeFd)
        match Tester.getChangeData env rounds t.mods file with
        | none => return .unfinished
        | some (.ret res, mods) =>
          if res ≠ Tester.success then giveUp rounds { t with mods := mods }
          else next { t with mods := mods }
        | some (.fault, _) => return .fault
        | some _ => return .aborted

/-- Steps 7 and 8: the check, the statistics and the end. -/
def finish (rounds : Nat) (c : FSCommands) (s : Settings) (t : Tester) : Harness MainExit := do
  match ← t.testCheck c s.replayDevicePath with
  | .error e => return e
  | .ok t =>
    ask (.printStats t.suite)
    match ← t.cleanupHarness rounds with
    | none => return .unfinished
    | some _ =>
      let _ ← ask (.system (.umount mntPointReplay))
      return .returned 0

/-- From the socket on. `fresh` is what a new message holds in the fields that nothing sets. -/
def connected (rounds : Nat) (fresh : SockMessage) (c : FSCommands) (s : Settings) (t : Tester)
    (sockfd : Nat) : Harness MainExit :=
  prepare rounds c t fun t =>
    command sockfd
      (ClientSocket.buildLoadPluginMsg fresh .pWritetracker s.beginTraceAddr s.endTraceAddr) <|
    runTest rounds t fun t =>
    command sockfd (ClientSocket.buildUnloadPluginMsg fresh 0) do
      let (res, _, t) ← t.umountDevice
      if res ≠ Tester.success then giveUp rounds t
      else
        command sockfd
          (ClientSocket.buildLoadPluginMsg fresh .pReplay beginReplayAddr s.endTraceAddr) <|
        command sockfd (ClientSocket.buildUnloadPluginMsg fresh 0) <|
        finish rounds c s t

/-- `main`, on what `getopt_long` finds: the options and the arguments that are left. -/
def main (rounds : Nat) (fresh : SockMessage) (opts : List Opt) (files : List Path) :
    Harness MainExit :=
  match Settings.parse opts {}, files with
  | none, _ | some _, [] => return .returned (-1)
  | some s, testCasePath :: _ =>
    match getFSCommands s.fs with
    | none => return .aborted
    | some c => do
      let t : Tester :=
        { deviceSize := recordSize, fs := s.fs, fsCommands := some c,
          recordDevicePath := s.recordDevicePath, replayDevicePath := s.replayDevicePath }
      let (res, t) ← t.testLoadClass testCasePath
      if res ≠ Tester.success then giveUp rounds t
      else
        ask (.initValues t.testLoader.instance_ mntPointRecord recordSize)
        match ← ask (.connect s.remoteIp s.remotePort) with
        | none => return .returned (-1)
        | some sockfd => connected rounds fresh c s t sockfd

end Main

end PMTester
