import PMTester.CrashImage
import PMTester.PerfectReplay

/-!
# The verdict on a crash image

The harness, the emulated guest and the disks of the check together. What the
two mount points answer during the check depends on the bytes of the replay
device at the moment of its mounting, and these are the crash image. So a run
that returns 0 counts what the comparison says about the crash image, and when
no write that makes a difference was missed, about the record device of the
moment at which the tracker was unloaded.
-/
namespace PMTester

open Script ClientSocket

/-- What the mount points answer is what the bytes of a replay device hold that was mounted. -/
def ReadsReplay (W : Testbed) (read : (Nat → UInt8) → MountedTrees) (trees : MountedTrees) :
    (q : HarnessCall) → q.Answer → Machine × Ledger CheckState → Prop
  | .system (.mount _ devicePath mountPoint), status, x =>
    mountPoint = mntPointReplay → status = 0 → ∀ start, W.device devicePath = some start →
      read (fun i => x.1.mem (start + i)) = trees
  | _, _, _ => True

/-- The guest and its emulator, and the disks of the check. -/
def benchEnv (W : Testbed) (read : (Nat → UInt8) → MountedTrees) (host : DirHost HostFs)
    (depth : Nat) (trees : MountedTrees) (mods : List DiskMod) :
    Env HarnessCall HarnessCall.Answer (Machine × Ledger CheckState) :=
  Env.both W.env (ledgerEnv (Tester.comparing host depth trees) (ReadsLog mods))
    (ReadsReplay W read trees)

/-- Replies are waited for, and the file systems lie in the tracked range. -/
structure Bench (W : Testbed) (s : Settings) (read : (Nat → UInt8) → MountedTrees) : Prop where
  plain : s.Plain
  layout : W.Layout s
  waits : W.waits
  inRange : ∀ bytes bytes', (∀ i < (W.range s).length, bytes i = bytes' i) →
    read bytes = read bytes'

/-- A mount that has failed stays failed. -/
theorem ledger_mountFailed {τ : Type} {d : DiskChecks τ} {c : Comparing d}
    {reads : Tester.ReadEnv × Transfer.Source → Prop} {q : HarnessCall} {a : q.Answer}
    {l l' : Ledger τ} (hstep : ledgerEnv c reads l q a l') (h : l'.mountFailed = false) :
    l.mountFailed = false := by
  unfold ledgerEnv at hstep
  split at hstep
  · rwa [hstep.2] at h
  · rwa [hstep.2] at h
  · rwa [hstep] at h
  · rwa [hstep] at h
  · rw [hstep, Bool.or_eq_false_iff] at h
    exact h.1
  · rwa [hstep] at h
  · rwa [hstep.2] at h
  · rwa [hstep] at h

section Judged

variable (W : Testbed) (s : Settings) (read : (Nat → UInt8) → MountedTrees) (trees : MountedTrees)

/-- The trees of the check are those of the crash image, and the writes since the snapshot give the
record device of the moment at which the tracker was unloaded. -/
structure Judged (m : Machine) (mountFailed : Bool) : Prop where
  image : mountFailed = false → m.logged ≠ [] → read (m.overSnapshot s W m.logged) = trees
  recorded : ∃ u, m.atUnload = some u ∧ ∀ i < (W.range s).length,
    m.overSnapshot s W m.events i = u ((W.range s).rangeStart.toNat + i)

variable {W s read trees} {fresh : SockMessage} {p : Phase} {m m' : Machine} {b : Bool} {k : Nat}

theorem Judged.congr (h : Judged W s read trees m b) (hwritten : m'.written = m.written)
    (hsnapshot : m'.snapshot = m.snapshot) (hunload : m'.atUnload = m.atUnload) :
    Judged W s read trees m' b := by
  have hlogged : m'.logged = m.logged := by rw [Machine.logged, hwritten, Machine.logged]
  have hevents : m'.events = m.events := by rw [Machine.events, hwritten, Machine.events]
  have hover : m'.overSnapshot s W = m.overSnapshot s W := by
    funext events i
    rw [Machine.overSnapshot, hsnapshot, Machine.overSnapshot]
  constructor
  · rw [hlogged, hover]
    exact h.image
  · rw [hunload, hevents, hover]
    exact h.recorded

/-- The writes of a guest after the unloading are no part of the image. -/
theorem Judged.happens (h : Judged W s read trees m b) (hs : s.Plain)
    (hmonitored : Monitored W fresh s p m k) (hstep : W.Happens m m') :
    Judged W s read trees m' b := by
  obtain ⟨u, hu, -⟩ := h.recorded
  cases hstep with
  | event e he => exact h.congr (by simp [Machine.observe, hu]) rfl rfl
  | execute hqueue hexec =>
    obtain ⟨-, hexec⟩ := hmonitored.executed hs hqueue hexec
    have hk : k ≠ 1 := by
      have hunloaded := hmonitored.unloaded.mp (by simp [hu])
      omega
    exact h.congr hexec.written hexec.snapshot (by rw [hexec.atUnload, if_neg hk])

/-- The check begins with the crash image. -/
theorem Judged.mountReplay (hbench : Bench W s read) (hphase : InPhase W fresh s .replayed m k)
    (hidle : m.queue = [])
    (hmounted : b = false → read (fun i => m.mem (W.base.toNat + i)) = trees) :
    Judged W s read trees m b := by
  have hfour : k = 4 := hphase.monitored.idle hidle
  have hcaptured := hphase.captured (by decide) (by decide)
  have hrestored := hphase.restored (by decide) (by decide) (by decide)
  obtain ⟨u, hu⟩ := Option.isSome_iff_exists.mp (hphase.monitored.unloaded.mpr (by omega))
  constructor
  · intro hb hlogged
    rw [← hmounted hb]
    apply hbench.inRange
    intro i hi
    exact (hrestored.after (by omega) hlogged i hi).symm
  · have hrecord := hcaptured.record
    rw [hu] at hrecord
    exact ⟨u, hu, fun i hi => (hrecord i hi).symm⟩

end Judged

section Run

variable (W : Testbed) (fresh : SockMessage) (s : Settings) (read : (Nat → UInt8) → MountedTrees)
  (trees : MountedTrees)

structure AtStage (g : Stage) (x : Machine × Ledger CheckState) : Prop where
  inStep : InStep W fresh s g x.1
  inPhase : ∃ k, InPhase W fresh s g.phase x.1 k
  judged : g.phase = .checking → Judged W s read trees x.1 x.2.mountFailed

variable {W fresh s read trees}

theorem AtStage.happens {g : Stage} {m m' : Machine} {l : Ledger CheckState}
    (h : AtStage W fresh s read trees g (m, l)) (hbench : Bench W s read)
    (hstep : W.Happens m m') : AtStage W fresh s read trees g (m', l) := by
  obtain ⟨k, hk⟩ := h.inPhase
  exact ⟨h.inStep.happens hbench.plain hstep, hk.happens hbench.plain hbench.layout hstep,
    fun hg => (h.judged hg).happens hbench.plain hk.monitored hstep⟩

/-- A step of the harness begins the check with the crash image, or keeps it. -/
theorem AtStage.reacts {d : DiskChecks CheckState} {c : Comparing d}
    {reads : Tester.ReadEnv × Transfer.Source → Prop} {g g' : Stage} {m m' : Machine}
    {l l' : Ledger CheckState} {q : HarnessCall} {a : q.Answer}
    (h : AtStage W fresh s read trees g (m, l))
    (hbench : Bench W s read) (hstep : PhaseStep fresh s g q a g') (hreacts : W.Reacts m q a m')
    (hledger : ledgerEnv c reads l q a l')
    (hmount : ReadsReplay W read trees q a (m', l')) : AtStage W fresh s read trees g' (m', l') := by
  obtain ⟨k, hk⟩ := h.inPhase
  refine ⟨h.inStep.reacts hstep hreacts, ⟨k, hk.reacts hbench.layout hstep hreacts⟩, fun hg => ?_⟩
  cases hstep with
  | neutral hq a =>
    rw [reacts_neutral hq hreacts]
    have hjudged := h.judged hg
    exact ⟨fun hfailed => hjudged.image (ledger_mountFailed hledger hfailed), hjudged.recorded⟩
  | snapshot status =>
    dsimp only at hg
    split at hg <;> cases hg
  | restore status =>
    dsimp only at hg
    split at hg <;> cases hg
  | send hnext hline n =>
    obtain ⟨-, -, -, hp, hp'⟩ := Phase.next_spec hnext
    dsimp only at hg
    split at hg
    · exact absurd hg hp'
    · exact absurd hg hp
  | receive err =>
    obtain ⟨-, rfl⟩ := hreacts
    have hjudged := h.judged hg
    exact ⟨fun hfailed => hjudged.image (ledger_mountFailed hledger hfailed), hjudged.recorded⟩
  | fork forked => cases hg
  | mountReplay c status =>
    have hjudged : Judged W s read trees m l'.mountFailed := by
      refine .mountReplay hbench hk (h.inStep.1 rfl hbench.waits) fun hfailed => ?_
      have hstatus : status = 0 := by
        rw [show l' = _ from hledger] at hfailed
        simpa using (Bool.or_eq_false_iff.mp hfailed).2
      have htrees := hmount rfl hstatus _ hbench.layout.replay
      rw [hreacts.2, if_pos ⟨hstatus, rfl⟩] at htrees
      exact htrees
    rw [hreacts.2]
    split
    · exact hjudged.congr rfl rfl rfl
    · exact hjudged

theorem AtStage.env (hbench : Bench W s read) {host : DirHost HostFs} {depth : Nat}
    {mods : List DiskMod} (g : Stage) (q : HarnessCall)
    (a : q.Answer) (g' : Stage) (x x' : Machine × Ledger CheckState)
    (hstep : PhaseStep fresh s g q a g') (henv : benchEnv W read host depth trees mods x q a x')
    (h : AtStage W fresh s read trees g x) : AtStage W fresh s read trees g' x' := by
  obtain ⟨⟨m₁, hmany, hreacts⟩, hledger, hmount⟩ := henv
  have hm₁ : AtStage W fresh s read trees g (m₁, x.2) := by
    clear hreacts
    induction hmany with
    | refl => exact h
    | tail _ hlast ih => exact ih.happens hbench hlast
  exact hm₁.reacts hbench hstep hreacts hledger hmount

theorem AtStage.start {m : Machine} {l : Ledger CheckState} (h : m.Fresh) :
    AtStage W fresh s read trees .start (m, l) :=
  ⟨InStep.start h, ⟨0, InPhase.start h⟩, fun hg => by cases hg⟩

end Run

/-- A run of the program that has returned 0, with both devices mounted and some write logged. -/
structure BenchRun (W : Testbed) (read : (Nat → UInt8) → MountedTrees) (host : DirHost HostFs)
    (depth : Nat) (trees : MountedTrees) (fs : HostFs) (mods : List DiskMod) (opts : List Opt)
    (s : Settings) (m : Machine) (l : Ledger CheckState) : Prop where
  ends : ∃ rounds fresh files, ∃ m₀ : Machine, (mods.flatMap DiskMod.format).length < rounds ∧
    m₀.Fresh ∧ ComesTo (benchEnv W read host depth trees mods)
      (Main.main rounds fresh opts files)
      (m₀, .fresh (Tester.newDisks s.recordDevicePath s.replayDevicePath fs)) (.returned 0) (m, l)
  mounted : l.mountFailed = false
  logged : m.logged ≠ []

section

variable {W : Testbed} {s : Settings} {read : (Nat → UInt8) → MountedTrees} {host : DirHost HostFs}
  {depth : Nat} {trees : MountedTrees} {fs : HostFs} {mods : List DiskMod} {opts : List Opt}
  {m : Machine} {l : Ledger CheckState}

theorem BenchRun.judged (h : BenchRun W read host depth trees fs mods opts s m l)
    (hopts : Settings.parse opts {} = some s) (hbench : Bench W s read) :
    Judged W s read trees m l.mountFailed := by
  obtain ⟨rounds, fresh, files, m₀, -, h₀, hends⟩ := h.ends
  obtain ⟨g, hstage, hdone⟩ := (main_follows fresh rounds opts files hopts).ends
    (AtStage.start h₀) (AtStage.env hbench) hends
  exact hstage.judged (congrArg Stage.phase (hdone rfl))

theorem BenchRun.checked (h : BenchRun W read host depth trees fs mods opts s m l)
    (hopts : Settings.parse opts {} = some s) (hmods : ∀ m ∈ mods, m.Writable) :
    ∃ suite, Checked (Tester.comparing host depth trees) mods
      (Tester.newDisks s.recordDevicePath s.replayDevicePath fs) suite l ∧ l.stats = [suite] := by
  obtain ⟨rounds, fresh, files, m₀, hr, -, hends⟩ := h.ends
  exact (wp_main (fun _ h => h) hmods hr fresh hopts files _).ends hends.right

/-- The answer of the comparison is what the suite has counted. -/
theorem benchRun_counted {r : Readdir} (hmounts : Mounts r host trees fs)
    (hopts : Settings.parse opts {} = some s) (hmods : ∀ m ∈ mods, m.Writable) :
    ∃ bound, ∀ depth ≥ bound, ∀ m l, BenchRun W read host depth trees fs mods opts s m l →
      ∃ value, Tester.compared trees s.recordDevicePath s.replayDevicePath (segments mods) fs =
          some (.ret value) ∧
        l.stats = [({} : TestSuiteResult).tallyTimingResult (checkInfo value)] := by
  obtain ⟨bound, hbound⟩ := hmounts.counted s.recordDevicePath s.replayDevicePath mods
  refine ⟨bound, fun depth hdepth m l hrun => ?_⟩
  obtain ⟨suite, hchecked, hstats⟩ := hrun.checked hopts hmods
  obtain ⟨value, hcompared, hsuite, -⟩ := hbound depth hdepth suite l hchecked hrun.mounted
  exact ⟨value, hcompared, by rw [hstats, hsuite]⟩

end

/-- On one device there is nothing to compare. -/
theorem compareResult_same (trees : MountedTrees) (device : Path) (fs : HostFs) (c : Comparison) :
    Tester.compareResult trees (Tester.newDisks device device fs) c = .ret true := by
  cases c with
  | entriesAtPath p => simp [Tester.compareResult, Tester.newDisks, DiskContents.compareEntriesAtPath]
  | diskContents => simp [Tester.compareResult, Tester.newDisks, DiskContents.compareMaps]
  | fileContents p offset length =>
    simp [Tester.compareResult, Tester.newDisks, DiskContents.compareFileContents]

/-- What is mounted depends on the byte that the small guest writes. -/
def smallRead (bytes : Nat → UInt8) : MountedTrees :=
  if bytes 0x10 = 7 then alikeTrees else { alikeTrees with compareRoot := rootWith .nil }

theorem smallBench : Bench smallTestbed {} smallRead where
  plain := smallPlain
  layout := smallLayout
  waits := trivial
  inRange bytes bytes' h := by rw [smallRead, h 0x10 (by decide), smallRead]

section

variable {depth : Nat} {m m' : Machine} {l l' : Ledger CheckState}

/-- A run of the small bench that begins with this answer. -/
theorem bench_next {q : HarnessCall} {next : q.Answer → Harness MainExit} {e : MainExit}
    {P : Machine × Ledger CheckState → Prop} (a : q.Answer) (hm : smallTestbed.env m q a m')
    (hl : ledgerEnv (Tester.comparing readOnlyReplay depth alikeTrees) (ReadsLog syncMods) l q a l')
    (hread : ReadsReplay smallTestbed smallRead alikeTrees q a (m', l'))
    (hrest : ∃ x, ComesTo (benchEnv smallTestbed smallRead readOnlyReplay depth alikeTrees syncMods)
      (next a) (m', l') e x ∧ P x) :
    ∃ x, ComesTo (benchEnv smallTestbed smallRead readOnlyReplay depth alikeTrees syncMods)
      (.ask q next) (m, l) e x ∧ P x :=
  ends_next a ⟨hm, hl, hread⟩ hrest

theorem bench_askVerdict {f : CompareResult → Harness MainExit} {e : MainExit}
    {P : Machine × Ledger CheckState → Prop} (c : Comparison) {value : Bool}
    (hvalue : Tester.compareResult alikeTrees l.disks c = .ret value)
    (hnext : ∀ equal disks, ∃ x,
      ComesTo (benchEnv smallTestbed smallRead readOnlyReplay depth alikeTrees syncMods)
        (f (.ret equal)) (m, l.after [c] disks) e x ∧ P x) :
    ∃ x, ComesTo (benchEnv smallTestbed smallRead readOnlyReplay depth alikeTrees syncMods)
      (Tester.askVerdict c >>= f) (m, l) e x ∧ P x := by
  refine bench_next (.ret value : CompareResult) (quiet_step rfl) ⟨hvalue.symm, rfl⟩ trivial ?_
  cases value with
  | false => exact hnext _ _
  | true => exact bench_next _ (quiet_step rfl) ⟨rfl, rfl⟩ trivial (hnext _ _)

/-- The check of the crash image, and the end of the run. -/
theorem smallBench_finish (depth : Nat) {m : Machine} {P : Machine × Ledger CheckState → Prop}
    (hbyte : m.mem 0x48000010 = 7)
    (hP : ∀ x, x.2.mountFailed = false → x.1.written = m.written → x.1.atUnload = m.atUnload → P x) :
    ∃ x, ComesTo (benchEnv smallTestbed smallRead readOnlyReplay depth alikeTrees syncMods)
      (Main.finish 100 .nova {} (quietTester (segments (syncMods.map DiskMod.wire))))
      (m, .fresh syncDisks) (.returned 0) x ∧ P x := by
  have hsegment : Tester.checkedSegment (segments (syncMods.map DiskMod.wire)) =
      some [{ modType := .kSyncMod }] := by decide
  have hequal : Tester.compareResult alikeTrees syncDisks .diskContents = .ret true :=
    Option.some.inj alikeTrees_compared
  refine bench_next (0 : Int) (quiet_step ⟨rfl, rfl⟩) rfl ?_ ?_
  · rintro - - start hstart
    cases hstart
    exact if_pos hbyte
  refine bench_next (0 : Int) (quiet_step ⟨rfl, rfl⟩) rfl (fun h => absurd h (by decide)) ?_
  refine bench_next (0 : Int) (quiet_step ⟨rfl, rfl⟩) rfl trivial ?_
  refine bench_next (0 : Int) (quiet_step ⟨rfl, rfl⟩) rfl trivial ?_
  refine bench_next (0 : Int) (quiet_step ⟨rfl, rfl⟩) rfl trivial ?_
  refine bench_next (0 : Int) (quiet_step ⟨rfl, rfl⟩) rfl trivial ?_
  dsimp only [Script.bind, quietTester]
  rw [hsegment]
  dsimp only
  change ∃ x, ComesTo _ ((Tester.askVerdict .diskContents >>= _) >>= _) _ _ _ ∧ _
  rw [bind_assoc]
  refine bench_askVerdict .diskContents hequal fun equal disks => ?_
  refine bench_next () (quiet_step rfl) rfl trivial ?_
  refine bench_next () (quiet_step rfl) rfl trivial ?_
  refine bench_next (.ok () : Except Int Unit) (quiet_step rfl) rfl trivial ?_
  refine bench_next () (quiet_step rfl) rfl trivial ?_
  refine bench_next () (quiet_step rfl) rfl trivial ?_
  refine bench_next (0 : Int) (quiet_step ⟨rfl, rfl⟩) rfl trivial ?_
  exact ⟨_, .here _ _, hP _ rfl rfl rfl⟩

/-- A run with one write and a `sync`. -/
theorem smallBench_ends (depth : Nat) :
    ∃ x, ComesTo (benchEnv smallTestbed smallRead readOnlyReplay depth alikeTrees syncMods)
        (Main.main 100 newMessage [] [[]]) (smallMachine, .fresh syncDisks) (.returned 0) x ∧
      x.2.mountFailed = false ∧ x.1.logged = [smallEvent] ∧ x.1.events = [smallEvent] ∧
      ∃ u, x.1.atUnload = some u ∧ u 0x40000010 = 7 := by
  have hread := (readsLog_whole writable_syncMods).getChangeData writable_syncMods
    (show (syncMods.flatMap DiskMod.format).length < 99 + 1 by decide +kernel)
  refine bench_next (some 1) (quiet_step rfl) rfl trivial ?_
  refine bench_next (some 2) (quiet_step rfl) rfl trivial ?_
  refine bench_next (some 3) (quiet_step rfl) rfl trivial ?_
  refine bench_next (4 : Nat) (quiet_step rfl) rfl trivial ?_
  refine bench_next () (quiet_step rfl) rfl trivial ?_
  refine bench_next (some 5) (quiet_step rfl) rfl trivial ?_
  refine bench_next (0 : Int) (quiet_step ⟨rfl, rfl⟩) rfl trivial ?_
  refine bench_next (.ok () : Except Int Unit) (quiet_step rfl) rfl trivial ?_
  refine bench_next (0 : Int) (quiet_step ⟨rfl, rfl⟩) rfl trivial ?_
  refine bench_next (0 : Int) (quiet_step ⟨rfl, rfl⟩) rfl trivial ?_
  refine bench_next (0 : Int) (quiet_step ⟨rfl, rfl⟩) rfl (fun h => absurd h (by decide)) ?_
  refine bench_next (0 : Int) (quiet_step ⟨rfl, rfl⟩) rfl trivial ?_
  refine bench_next (1 : Int) (quiet_step rfl) rfl trivial ?_
  refine bench_next SockError.eNone
    (reply_step rfl ((executes_tracker smallPlain).mpr rfl) rfl) rfl trivial ?_
  refine bench_next (0 : Int) ⟨_, .single (.event smallEvent (.inr rfl)), ⟨rfl, rfl⟩⟩ rfl trivial ?_
  refine bench_next ForkResult.parent (quiet_step rfl) rfl trivial ?_
  refine bench_next (0 : Int) (quiet_step rfl) rfl trivial ?_
  refine bench_next (3 : Int) (quiet_step rfl) rfl trivial ?_
  refine bench_next (0 : Int) (quiet_step rfl) rfl trivial ?_
  refine bench_next (wholeAnswer syncMods) (quiet_step rfl)
    ⟨readsLog_whole writable_syncMods, rfl⟩ trivial ?_
  dsimp only [Script.bind]
  rw [hread]
  refine bench_next (1 : Int) (quiet_step rfl) rfl trivial ?_
  refine bench_next SockError.eNone (reply_step rfl (executes_unload.mpr rfl) rfl) rfl trivial ?_
  refine bench_next (.ok () : Except Int Unit) (quiet_step rfl) rfl trivial ?_
  refine bench_next (1 : Int) (quiet_step rfl) rfl trivial ?_
  refine bench_next SockError.eNone (reply_replayer rfl rfl) rfl trivial ?_
  refine bench_next (1 : Int) (quiet_step rfl) rfl trivial ?_
  refine bench_next SockError.eNone (reply_step rfl (executes_unload.mpr rfl) rfl) rfl trivial ?_
  refine smallBench_finish depth ?_ ?_
  · rfl
  · rintro x hmounted hwritten hunload
    refine ⟨hmounted, ?_, ?_, ?_⟩
    · rw [Machine.logged, hwritten]
      rfl
    · rw [Machine.events, hwritten]
      rfl
    · rw [hunload]
      exact ⟨_, rfl, rfl⟩

end

theorem smallBench_run (depth : Nat) : ∃ m l,
    BenchRun smallTestbed smallRead readOnlyReplay depth alikeTrees mountedTwice syncMods [] {} m l ∧
      m.logged = [smallEvent] ∧ m.events = [smallEvent] ∧
      ∃ u, m.atUnload = some u ∧ u 0x40000010 = 7 := by
  obtain ⟨⟨m, l⟩, hends, hmounted, hlogged, hevents, hunload⟩ := smallBench_ends depth
  refine ⟨m, l, ⟨⟨100, newMessage, [[]], smallMachine, by decide +kernel, ⟨rfl, rfl, rfl, rfl, rfl⟩,
    hends⟩, hmounted, ?_⟩, hlogged, hevents, hunload⟩
  rw [hlogged]
  exact List.cons_ne_nil _ _

end PMTester
