import PMTester.Testbed

/-!
# The phases of a run

What the harness may do when: the snapshot before its restoration, one command
after the other to the monitor, and the replay device mounted after the last
one. `main_follows` says that `main` keeps to it, whatever it is answered.
-/
namespace PMTester

open Script ClientSocket

inductive Phase where
  | setup | snapshotted | restored | tracking | tracked | replaying | replayed | checking
  deriving DecidableEq, Repr

namespace Phase

/-- How many commands were sent. -/
def sent : Phase → Nat
  | .setup | .snapshotted | .restored => 0
  | .tracking => 1
  | .tracked => 2
  | .replaying => 3
  | .replayed | .checking => 4

/-- The phase after the next command. -/
def next : Phase → Option Phase
  | .restored => some .tracking
  | .tracking => some .tracked
  | .tracked => some .replaying
  | .replaying => some .replayed
  | _ => none

end Phase

/-- A phase, and whether the last command was answered. -/
structure Stage where
  phase : Phase
  answered : Bool

namespace Stage

def start : Stage := ⟨.setup, true⟩

end Stage

section

variable (fresh : SockMessage) (s : Settings)

/-- The command lines of a run. -/
def commandLines : List Path :=
  [completeCommand (buildLoadPluginMsg fresh .pWritetracker s.beginTraceAddr s.endTraceAddr),
    completeCommand (buildUnloadPluginMsg fresh 0),
    completeCommand (buildLoadPluginMsg fresh .pReplay beginReplayAddr s.endTraceAddr),
    completeCommand (buildUnloadPluginMsg fresh 0)]

/-- Questions that may come at any time. -/
def Neutral : HarnessCall → Prop
  | .system (.dd _ _ _) | .send _ | .receive | .fork => False
  | .system (.mount _ _ mountPoint) => mountPoint ≠ mntPointReplay
  | _ => True

/-- The questions of loading, unloading and unmounting. -/
def Housekeeping : HarnessCall → Prop
  | .dlopen _ | .dlsym _ _ | .dlclose _ | .create _ | .destroy _ _ | .umount _ | .usleep _ => True
  | _ => False

theorem Housekeeping.neutral (q : HarnessCall) (h : Housekeeping q) : Neutral q := by
  cases q with
  | dlopen _ | dlsym _ _ | dlclose _ | create _ | destroy _ _ | umount _ | usleep _ => trivial
  | _ => exact absurd h id

/-- The questions of the content check. -/
def AboutDisks : HarnessCall → Prop
  | .compare _ | .sanityChecks => True
  | _ => False

theorem AboutDisks.neutral (q : HarnessCall) (h : AboutDisks q) : Neutral q := by
  cases q with
  | compare c => trivial
  | sanityChecks => trivial
  | _ => exact absurd h id

inductive PhaseStep : Protocol HarnessCall HarnessCall.Answer Stage
  | neutral {g : Stage} {q : HarnessCall} (h : Neutral q) (a : q.Answer) : PhaseStep g q a g
  | snapshot {b : Bool} (status : Int) :
      PhaseStep ⟨.setup, b⟩ (.system (.dd s.recordDevicePath snapshotFile recordSize)) status
        ⟨if status = 0 then .snapshotted else .setup, b⟩
  | restore {b : Bool} (status : Int) :
      PhaseStep ⟨.snapshotted, b⟩ (.system (.dd snapshotFile s.replayDevicePath recordSize)) status
        ⟨if status = 0 then .restored else .setup, b⟩
  | send {p p' : Phase} (hnext : p.next = some p') {line : Path}
      (hline : (commandLines fresh s)[p.sent]? = some line) (n : Int) :
      PhaseStep ⟨p, true⟩ (.send line) n ⟨if 0 ≤ n then p' else p, false⟩
  | receive {p : Phase} {b : Bool} (err : SockError) : PhaseStep ⟨p, b⟩ .receive err ⟨p, true⟩
  | fork (forked : ForkResult) : PhaseStep ⟨.tracking, true⟩ .fork forked ⟨.tracking, true⟩
  | mountReplay (c : FSCommands) (status : Int) :
      PhaseStep ⟨.replayed, true⟩ (.system (.mount c s.replayDevicePath mntPointReplay)) status
        ⟨.checking, true⟩

/-- Success comes only after the check. -/
def Finished (e : MainExit) (g : Stage) : Prop := e = .returned 0 → g = ⟨.checking, true⟩

variable {fresh s}

theorem only_ask {ok : HarnessCall → Prop} {q : HarnessCall} (hq : ok q) :
    (ask q).Only ok fun _ => True :=
  only_call hq

theorem only_loadClass (l : ClassLoader) (classPath factoryName defactoryName : Path) :
    (l.loadClass classPath factoryName defactoryName).Only Housekeeping fun _ => True := by
  apply only_bind (only_ask trivial)
  rintro (_ | handle) -
  · exact only_pure trivial
  · apply only_bind (only_ask trivial)
    rintro (_ | factory) -
    · exact only_bind (only_ask trivial) fun _ _ => only_pure trivial
    · apply only_bind (only_ask trivial)
      rintro (_ | defactory) -
      · exact only_bind (only_ask trivial) fun _ _ => only_pure trivial
      · exact only_bind (only_ask trivial) fun _ _ => only_pure trivial

theorem only_unloadClass (l : ClassLoader) : l.unloadClass.Only Housekeeping fun _ => True := by
  unfold ClassLoader.unloadClass
  split
  · exact only_bind (only_ask trivial) fun _ _ =>
      only_bind (only_ask trivial) fun _ _ => only_pure trivial
  · exact only_pure trivial

/-- The devices that the tester was given. -/
structure Tester.Uses (s : Settings) (t : Tester) : Prop where
  size : t.deviceSize = recordSize
  record : t.recordDevicePath = s.recordDevicePath
  replay : t.replayDevicePath = s.replayDevicePath

namespace Tester

variable {t : Tester}

theorem Uses.withMods (ht : t.Uses s) (mods : List (List DiskMod)) :
    ({ t with mods := mods } : Tester).Uses s :=
  ⟨ht.size, ht.record, ht.replay⟩

theorem Uses.withMounted (ht : t.Uses s) (mounted : Bool) :
    ({ t with recordDevMounted := mounted } : Tester).Uses s :=
  ⟨ht.size, ht.record, ht.replay⟩

theorem only_testLoadClass (t : Tester) (classPath : Path) :
    (t.testLoadClass classPath).Only Housekeeping fun r => ∃ l, r.2 = { t with testLoader := l } :=
  only_bind (only_loadClass _ _ _ _) fun r _ => only_pure ⟨r.2, rfl⟩

theorem only_umountDevice (t : Tester) : t.umountDevice.Only Housekeeping
    fun r => ∃ mounted, r.2.2 = { t with recordDevMounted := mounted } := by
  apply only_bind (only_ask trivial)
  rintro (errno | _) -
  · exact only_pure ⟨true, rfl⟩
  · exact only_pure ⟨false, rfl⟩

theorem only_umountLoop (rounds : Nat) (t : Tester) :
    (umountLoop rounds t).Only Housekeeping fun _ => True := by
  induction rounds generalizing t with
  | zero => exact only_pure trivial
  | succ rounds ih =>
    apply only_bind (only_umountDevice t)
    rintro ⟨umountRes, err, t'⟩ -
    dsimp only
    split
    · apply only_bind (only_ask trivial)
      intro _ _
      split
      · exact ih t'
      · exact only_pure trivial
    · exact only_pure trivial

theorem only_testUnloadClass (t : Tester) : t.testUnloadClass.Only Housekeeping fun _ => True :=
  only_bind (only_unloadClass _) fun _ _ => only_pure trivial

theorem only_cleanupHarness (rounds : Nat) (t : Tester) :
    (t.cleanupHarness rounds).Only Housekeeping fun _ => True := by
  apply only_bind (only_umountLoop rounds t)
  rintro (_ | ⟨umountRes, t'⟩) -
  · exact only_pure trivial
  · apply only_bind (only_testUnloadClass t')
    intro _ _
    split
    · exact only_pure trivial
    · exact only_pure trivial

theorem only_mountDevice (c : FSCommands) (devicePath : Path) {mountPoint : Path}
    (h : mountPoint ≠ mntPointReplay) :
    (mountDevice c devicePath mountPoint).Only Neutral fun _ => True :=
  only_bind (only_ask h) fun _ _ => only_pure trivial

theorem only_formatAndMountDevice (c : FSCommands) (devicePath mountPoint : Path) :
    (formatAndMountDevice c devicePath mountPoint).Only Neutral fun _ => True :=
  only_bind (only_ask trivial) fun _ _ => only_pure trivial

theorem only_askVerdict (c : Comparison) : (askVerdict c).Only AboutDisks fun _ => True := by
  apply only_bind (only_ask trivial)
  rintro (ret | _ | _) -
  · dsimp only
    split
    · exact only_bind (only_ask trivial) fun _ _ => only_pure trivial
    · exact only_pure trivial
  · exact only_pure trivial
  · exact only_pure trivial

theorem only_askLoop (segment : List DiskMod) : (askLoop segment).Only AboutDisks fun _ => True := by
  induction segment with
  | nil => exact only_pure trivial
  | cons m rest ih =>
    unfold askLoop
    split
    · exact only_askVerdict _
    · split
      · exact only_askVerdict _
      · split
        · exact only_askVerdict _
        · exact ih

end Tester

/-- A part of the program that asks neutral questions only. -/
theorem follows_neutral {R' R : Type} {done : R → Stage → Prop} {x : Harness R'}
    {post : R' → Prop} {f : R' → Harness R} {g : Stage} (hx : x.Only Neutral post)
    (hf : ∀ r, post r → Follows (PhaseStep fresh s) done (f r) g) :
    Follows (PhaseStep fresh s) done (x >>= f) g :=
  hx.follows (fun _ a hq => .neutral hq a) hf

theorem follows_housekeeping {R' R : Type} {done : R → Stage → Prop} {x : Harness R'}
    {post : R' → Prop} {f : R' → Harness R} {g : Stage} (hx : x.Only Housekeeping post)
    (hf : ∀ r, post r → Follows (PhaseStep fresh s) done (f r) g) :
    Follows (PhaseStep fresh s) done (x >>= f) g :=
  follows_neutral (hx.mono Housekeeping.neutral) hf

/-- One neutral question. -/
theorem follows_ask {R : Type} {done : R → Stage → Prop} {q : HarnessCall} {f : q.Answer → Harness R}
    {g : Stage} (hf : ∀ a, Follows (PhaseStep fresh s) done (f a) g)
    (hq : Neutral q := by exact trivial) : Follows (PhaseStep fresh s) done (ask q >>= f) g :=
  follows_neutral (only_ask hq) fun a _ => hf a

/-- A command that was sent, and the reply to it. -/
theorem follows_command {p p' : Phase} (hnext : p.next = some p') (sockfd : Nat) {msg : SockMessage}
    (hline : (commandLines fresh s)[p.sent]? = some (completeCommand msg)) {next : Harness MainExit}
    (h : Follows (PhaseStep fresh s) Finished next ⟨p', true⟩) :
    Follows (PhaseStep fresh s) Finished (Main.command sockfd msg next) ⟨p, true⟩ := by
  intro n
  refine ⟨_, .send hnext hline n, ?_⟩
  have hsock : ¬ (sockfd : Int) < 0 := by omega
  by_cases hn : 0 ≤ n
  · have hnone : (sendCommand sockfd (fun _ => n) msg).1 = .eNone := by
      simp [sendCommand, hsock, Int.not_lt.mpr hn]
    rw [if_pos hn]
    change Follows _ _ (if (sendCommand sockfd (fun _ => n) msg).1 ≠ .eNone then _ else _) _
    rw [if_neg (by simp [hnone])]
    exact fun err => ⟨_, .receive err, h⟩
  · have hother : (sendCommand sockfd (fun _ => n) msg).1 = .eOther := by
      simp [sendCommand, hsock, Int.not_le.mp hn]
    rw [if_neg hn]
    change Follows _ _ (if (sendCommand sockfd (fun _ => n) msg).1 ≠ .eNone then _ else _) _
    rw [if_pos (by simp [hother])]
    intro herr
    exact absurd herr (by decide)

theorem follows_giveUp (rounds : Nat) (t : Tester) (g : Stage) :
    Follows (PhaseStep fresh s) Finished (Main.giveUp rounds t) g := by
  apply follows_housekeeping (Tester.only_cleanupHarness rounds t)
  rintro (_ | _) -
  · exact nofun
  · exact nofun

/-- The check mounts the replay device first, and does not return from `main` itself. -/
theorem follows_testCheck (t : Tester) (c : FSCommands) :
    Follows (PhaseStep fresh s) (fun r g => g = ⟨.checking, true⟩ ∧ r ≠ .error (.returned 0))
      (t.testCheck c s.replayDevicePath) ⟨.replayed, true⟩ := by
  unfold Tester.testCheck
  intro status
  refine ⟨_, .mountReplay c status, ?_⟩
  change Follows _ _ (if mountDevice status ≠ _ then _ else _) _
  split
  · exact ⟨rfl, by simp⟩
  · apply follows_neutral (Tester.only_mountDevice c _ (by decide))
    intro res _
    split
    · exact ⟨rfl, by simp⟩
    · refine follows_ask fun _ => follows_ask fun _ => follows_ask fun _ => follows_ask fun _ => ?_
      split
      · exact ⟨rfl, by simp⟩
      · apply follows_neutral ((Tester.only_askLoop _).mono AboutDisks.neutral)
        rintro (retVal | _ | _) -
        · exact follows_ask fun _ => ⟨rfl, by simp⟩
        · exact ⟨rfl, by simp⟩
        · exact ⟨rfl, by simp⟩

theorem follows_finish (t : Tester) (rounds : Nat) (c : FSCommands) :
    Follows (PhaseStep fresh s) Finished (Main.finish rounds c s t) ⟨.replayed, true⟩ := by
  unfold Main.finish
  rw [follows_bind]
  apply (follows_testCheck t c).mono
  rintro (e | t) g ⟨rfl, hreturns⟩
  · exact fun he => absurd (congrArg Except.error he) hreturns
  · refine follows_ask fun _ => ?_
    apply follows_housekeeping (Tester.only_cleanupHarness rounds t)
    rintro (_ | _) -
    · exact nofun
    · exact follows_ask fun _ _ => rfl

section Steps

variable {t : Tester} (ht : t.Uses s)

include ht

variable {next : Tester → Harness MainExit}

theorem follows_unmountNova {g : Stage} (rounds : Nat)
    (h : ∀ t : Tester, t.Uses s → Follows (PhaseStep fresh s) Finished (next t) g) :
    Follows (PhaseStep fresh s) Finished (Main.prepare.unmountNova rounds t next) g := by
  unfold Main.prepare.unmountNova
  split
  · apply follows_housekeeping (Tester.only_umountDevice t)
    rintro ⟨res, err, t'⟩ ⟨mounted, rfl⟩
    dsimp only
    split
    · exact follows_giveUp rounds _ g
    · exact h _ (ht.withMounted mounted)
  · exact h t ht

theorem follows_remountNova {g : Stage} (rounds : Nat) (c : FSCommands)
    (h : ∀ t : Tester, t.Uses s → Follows (PhaseStep fresh s) Finished (next t) g) :
    Follows (PhaseStep fresh s) Finished (Main.prepare.remountNova rounds c t next) g := by
  unfold Main.prepare.remountNova
  split
  · apply follows_neutral (Tester.only_mountDevice c _ (by decide))
    intro res _
    split
    · exact follows_giveUp rounds t g
    · exact h t ht
  · exact h t ht

theorem follows_snapshotDevice {f : Int → Harness MainExit}
    (hok : Follows (PhaseStep fresh s) Finished (f Tester.success) ⟨.snapshotted, true⟩)
    (herr : Follows (PhaseStep fresh s) Finished (f snapErr) ⟨.setup, true⟩) :
    Follows (PhaseStep fresh s) Finished (t.snapshotDevice >>= f) ⟨.setup, true⟩ := by
  rw [Tester.snapshotDevice, ht.size, ht.record]
  intro status
  refine ⟨_, .snapshot status, ?_⟩
  change Follows _ _ (f (if status ≠ 0 then _ else _)) _
  by_cases hstatus : status = 0
  · rw [if_pos hstatus, if_neg (by simpa using hstatus)]
    exact hok
  · rw [if_neg hstatus, if_pos hstatus]
    exact herr

theorem follows_restoreSnapshot {f : Int → Harness MainExit}
    (hok : Follows (PhaseStep fresh s) Finished (f Tester.success) ⟨.restored, true⟩)
    (herr : Follows (PhaseStep fresh s) Finished (f restoreErr) ⟨.setup, true⟩) :
    Follows (PhaseStep fresh s) Finished (t.restoreSnapshot >>= f) ⟨.snapshotted, true⟩ := by
  rw [Tester.restoreSnapshot, ht.size, ht.replay]
  intro status
  refine ⟨_, .restore status, ?_⟩
  change Follows _ _ (f (if status ≠ 0 then _ else _)) _
  by_cases hstatus : status = 0
  · rw [if_pos hstatus, if_neg (by simpa using hstatus)]
    exact hok
  · rw [if_neg hstatus, if_pos hstatus]
    exact herr

/-- The image is taken and restored before anything is sent. -/
theorem follows_prepare (rounds : Nat) (c : FSCommands)
    (h : ∀ t : Tester, t.Uses s → Follows (PhaseStep fresh s) Finished (next t) ⟨.restored, true⟩) :
    Follows (PhaseStep fresh s) Finished (Main.prepare rounds c t next) ⟨.setup, true⟩ := by
  unfold Main.prepare
  apply follows_neutral (Tester.only_formatAndMountDevice c _ _)
  intro res _
  split
  · exact follows_giveUp rounds t _
  · apply follows_unmountNova ht
    intro t ht
    apply follows_snapshotDevice ht
    · apply follows_restoreSnapshot ht
      · apply follows_remountNova ht
        intro t ht
        exact follows_ask fun _ => h t ht
      · exact follows_giveUp rounds t _
    · exact follows_giveUp rounds t _

/-- The child starts when the reply to the first command is in. -/
theorem follows_runTest (rounds : Nat)
    (h : ∀ t : Tester, t.Uses s → Follows (PhaseStep fresh s) Finished (next t) ⟨.tracking, true⟩) :
    Follows (PhaseStep fresh s) Finished (Main.runTest rounds t next) ⟨.tracking, true⟩ := by
  unfold Main.runTest
  refine follows_ask fun _ => ?_
  intro forked
  refine ⟨_, .fork forked, ?_⟩
  cases forked with
  | failed => exact follows_giveUp rounds t _
  | child =>
    refine follows_ask fun changeFd => ?_
    split
    · exact nofun
    · refine follows_ask fun res => ?_
      exact follows_ask fun _ => nofun
  | parent =>
    refine follows_ask fun status => ?_
    split
    · exact follows_giveUp rounds t _
    · refine follows_ask fun changeFd => ?_
      split
      · exact follows_giveUp rounds t _
      · refine follows_ask fun offset => ?_
        split
        · exact follows_giveUp rounds t _
        · refine follows_ask fun answer => ?_
          obtain ⟨env, file⟩ := answer
          dsimp only
          split
          · exact nofun
          · split
            · exact follows_giveUp rounds _ _
            · exact h _ (ht.withMods _)
          · exact nofun
          · exact nofun

/-- From the socket on. -/
theorem follows_connected (rounds : Nat) (c : FSCommands) (sockfd : Nat) :
    Follows (PhaseStep fresh s) Finished (Main.connected rounds fresh c s t sockfd) ⟨.setup, true⟩ := by
  apply follows_prepare ht
  intro t ht
  apply follows_command (by rfl) _ rfl
  apply follows_runTest ht
  intro t ht
  apply follows_command (by rfl) _ rfl
  apply follows_housekeeping (Tester.only_umountDevice t)
  rintro ⟨res, err, t⟩ ⟨mounted, rfl⟩
  dsimp only
  split
  · exact follows_giveUp rounds _ _
  · apply follows_command rfl _ rfl
    apply follows_command (by rfl) _ rfl
    exact follows_finish _ rounds c

end Steps

/-- The program keeps to the phases, whatever it is answered. -/
theorem main_follows (fresh : SockMessage) (rounds : Nat) (opts : List Opt) (files : List Path)
    (hs : Settings.parse opts {} = some s) :
    Follows (PhaseStep fresh s) Finished (Main.main rounds fresh opts files) ⟨.setup, true⟩ := by
  unfold Main.main
  rw [hs]
  cases files with
  | nil => exact nofun
  | cons testCasePath _ =>
    dsimp only
    split
    · exact nofun
    · apply follows_housekeeping (Tester.only_testLoadClass _ testCasePath)
      rintro ⟨res, t⟩ ⟨l, rfl⟩
      dsimp only
      split
      · exact follows_giveUp rounds _ _
      · refine follows_ask fun _ => follows_ask fun sockfd => ?_
        cases sockfd with
        | none => exact nofun
        | some sockfd => exact follows_connected ⟨rfl, rfl, rfl⟩ rounds _ sockfd

end

end PMTester
