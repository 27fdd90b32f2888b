import PMTester.Phases

/-!
# The harness and the monitor

The monitor executes its commands later than they are sent. Whenever it does, it
executes them in order, each finds the plugins that the one before it left, and
the index 0 of the unload commands is the plugin that this run has loaded.
-/
namespace PMTester

open Bytes Memory Loop Script ClientSocket

/-- The options name addresses. -/
structure Settings.Plain (s : Settings) : Prop where
  beginGiven : s.beginTraceAddr ≠ []
  endGiven : s.endTraceAddr ≠ []
  beginPlain : PlainValue s.beginTraceAddr
  endPlain : PlainValue s.endTraceAddr

namespace Testbed

variable (W : Testbed) (s : Settings)

def range : WriteTracker.Range := ⟨W.parseUlong s.beginTraceAddr, W.parseUlong s.endTraceAddr⟩

def base : UInt64 := W.parseUlong beginReplayAddr

end Testbed

/-- The plugins that are loaded after some commands of a run. -/
def pluginsAt (t : WriteTracker.Range) : Nat → List Plugin
  | 1 => [.writetracker t]
  | 3 => [.replayer]
  | _ => []

section Commands

variable (fresh : SockMessage) (s : Settings)

theorem readLoad_tracker (hs : s.Plain) :
    readLoad (completeCommand
      (buildLoadPluginMsg fresh .pWritetracker s.beginTraceAddr s.endTraceAddr)) =
      some ⟨writetracker, [(startKey, s.beginTraceAddr), (endKey, s.endTraceAddr)]⟩ := by
  rw [readLoad_of_start fresh hs.beginGiven hs.beginPlain hs.endPlain]
  simp [given, hs.beginGiven, hs.endGiven]

theorem completeCommand_replayer (end_ : Path) :
    completeCommand (buildLoadPluginMsg fresh .pReplay beginReplayAddr end_) =
      completeCommand (buildLoadPluginMsg newMessage .pReplay beginReplayAddr []) := by
  simp [completeCommand, buildLoadPluginMsg]

theorem readLoad_replayer (end_ : Path) :
    readLoad (completeCommand (buildLoadPluginMsg fresh .pReplay beginReplayAddr end_)) =
      some ⟨replayer, [(baseKey, beginReplayAddr)]⟩ := by
  rw [completeCommand_replayer]
  decide +kernel

theorem completeCommand_unload :
    completeCommand (buildUnloadPluginMsg fresh 0) =
      completeCommand (buildUnloadPluginMsg newMessage 0) := by
  simp [completeCommand, buildUnloadPluginMsg]

theorem readLoad_unload : readLoad (completeCommand (buildUnloadPluginMsg fresh 0)) = none := by
  rw [completeCommand_unload]
  decide +kernel

theorem readUnload_unload :
    readUnload (completeCommand (buildUnloadPluginMsg fresh 0)) = some 0 := by
  rw [completeCommand_unload]
  decide +kernel

end Commands

section Monitored

variable (W : Testbed) (fresh : SockMessage) (s : Settings)

/-- The monitor has executed the first `k` of the commands that were sent. -/
structure Monitored (p : Phase) (m : Machine) (k : Nat) : Prop where
  le : k ≤ p.sent
  sent : m.sent = (commandLines fresh s).take p.sent
  queue : m.queue = ((commandLines fresh s).take p.sent).drop k
  plugins : m.plugins = pluginsAt (W.range s) k
  unloaded : m.atUnload.isSome ↔ 2 ≤ k

variable {W fresh s} {p : Phase} {m m' : Machine} {k : Nat}

theorem Monitored.tracker (h : Monitored W fresh s p m k) :
    m.tracker = if k = 1 then some (W.range s) else none := by
  rw [Machine.tracker, h.plugins]
  match k with
  | 0 | 1 | 2 | 3 => rfl
  | _ + 4 => rfl

theorem Monitored.observe (h : Monitored W fresh s p m k) (e : GuestEvent) :
    Monitored W fresh s p (m.observe e) k :=
  ⟨h.le, h.sent, h.queue, h.plugins, h.unloaded⟩

theorem sent_le (p : Phase) : p.sent ≤ 4 := by
  cases p <;> decide

/-- What the command does that the monitor executes next. -/
structure Executed (W : Testbed) (s : Settings) (k : Nat) (m m' : Machine) : Prop where
  queue : m'.queue = m.queue.drop 1
  sent : m'.sent = m.sent
  plugins : m'.plugins = pluginsAt (W.range s) (k + 1)
  snapshot : m'.snapshot = m.snapshot
  written : m'.written = m.written
  mounted : m'.replayMounted = m.replayMounted
  atUnload : m'.atUnload = if k = 1 then some m.mem else m.atUnload
  wtOut : m'.wtOut = if k = 0 then [] else m.wtOut
  mem : k ≠ 2 → m'.mem = m.mem
  replay : k = 2 → ∃ locals, Exits (Replayer.body W.physicalMemoryRw W.base)
    ⟨locals, ⟨m.wtOut, true⟩, m.mem⟩ (.done m'.mem)

/-- The next command that is executed is the next one that was sent. -/
theorem Monitored.line (h : Monitored W fresh s p m k) {line : Path} {rest : List Path}
    (hqueue : m.queue = line :: rest) : k < p.sent ∧ (commandLines fresh s)[k]? = some line := by
  have hdrop : ((commandLines fresh s).take p.sent).drop k = line :: rest := h.queue.symm.trans hqueue
  have hget : ((commandLines fresh s).take p.sent)[k]? = some line := by
    rw [← List.head?_drop, hdrop]
    rfl
  obtain ⟨hlt, -⟩ := List.getElem?_eq_some_iff.mp hget
  have hk : k < p.sent := by
    rw [List.length_take] at hlt
    omega
  rw [List.getElem?_take_of_lt hk] at hget
  exact ⟨hk, hget⟩

theorem trackedRange_options :
    W.trackedRange [(startKey, s.beginTraceAddr), (endKey, s.endTraceAddr)] = W.range s := by
  have hne : (startKey == endKey) = false := by decide
  simp [Testbed.trackedRange, Testbed.argument, Testbed.range, hne]

theorem replayBase_options : W.replayBase [(baseKey, beginReplayAddr)] = W.base := by
  simp [Testbed.replayBase, Testbed.argument, Testbed.base]

theorem executes_tracker (hs : s.Plain) : W.Executes (completeCommand
      (buildLoadPluginMsg fresh .pWritetracker s.beginTraceAddr s.endTraceAddr)) m m' ↔
    m' = { m with plugins := m.plugins ++ [.writetracker (W.range s)], wtOut := [] } := by
  rw [Testbed.Executes, readLoad_tracker fresh s hs]
  simp only [if_true, trackedRange_options]

theorem executes_unload :
    W.Executes (completeCommand (buildUnloadPluginMsg fresh 0)) m m' ↔ m' = m.unload 0 := by
  rw [Testbed.Executes, readLoad_unload, readUnload_unload]

theorem executes_replayer (end_ : Path) : W.Executes (completeCommand
      (buildLoadPluginMsg fresh .pReplay beginReplayAddr end_)) m m' ↔
    ∃ locals file mem, (m.tracker = none → file = m.wtOut) ∧
      Exits (Replayer.body W.physicalMemoryRw W.base) ⟨locals, ⟨file, true⟩, m.mem⟩ (.done mem) ∧
      m' = { m with mem := mem, plugins := m.plugins ++ [.replayer] } := by
  have hname : ¬ replayer = writetracker := by decide
  rw [Testbed.Executes, readLoad_replayer]
  simp only [hname, if_false, if_true, replayBase_options]

theorem Monitored.executed (hs : s.Plain) (h : Monitored W fresh s p m k) {line : Path}
    {rest : List Path} (hqueue : m.queue = line :: rest)
    (hexec : W.Executes line { m with queue := rest } m') :
    k < p.sent ∧ Executed W s k m m' := by
  obtain ⟨hk, hline⟩ := h.line hqueue
  have hsent := sent_le p
  have htracker := h.tracker
  have hplugins := h.plugins
  refine ⟨hk, ?_⟩
  match k with
  | 0 =>
    cases hline
    rw [executes_tracker hs] at hexec
    subst hexec
    exact ⟨by simp [hqueue], rfl, by simp [hplugins, pluginsAt], rfl, rfl, rfl, rfl, rfl,
      fun _ => rfl, by simp⟩
  | 1 =>
    cases hline
    rw [executes_unload] at hexec
    have hunloaded : m.atUnload = none := by simpa using h.unloaded
    subst hexec
    exact ⟨by simp [hqueue, Machine.unload], rfl, by simp [hplugins, pluginsAt, Machine.unload], rfl,
      rfl, rfl, by simp [hplugins, pluginsAt, Machine.unload, hunloaded], rfl, fun _ => rfl, by simp⟩
  | 2 =>
    cases hline
    rw [executes_replayer] at hexec
    obtain ⟨locals, file, mem, hfile, hexits, rfl⟩ := hexec
    rw [hfile htracker] at hexits
    exact ⟨by simp [hqueue], rfl, by simp [hplugins, pluginsAt], rfl, rfl, rfl, rfl, rfl, by simp,
      fun _ => ⟨locals, hexits⟩⟩
  | 3 =>
    cases hline
    rw [executes_unload] at hexec
    subst hexec
    exact ⟨by simp [hqueue, Machine.unload], rfl, by simp [hplugins, pluginsAt, Machine.unload], rfl,
      rfl, rfl, by simp [hplugins, pluginsAt, Machine.unload], rfl, fun _ => rfl, by simp⟩
  | _ + 4 => omega

/-- The monitor goes from one command to the next. -/
theorem Monitored.advance (h : Monitored W fresh s p m k) (hk : k < p.sent)
    (hexec : Executed W s k m m') : Monitored W fresh s p m' (k + 1) := by
  constructor
  · exact hk
  · exact hexec.sent.trans h.sent
  · rw [hexec.queue, h.queue, List.drop_drop]
  · exact hexec.plugins
  · rw [hexec.atUnload]
    split
    · simp
      omega
    · rw [h.unloaded]
      omega

theorem Monitored.congr {p' : Phase} (h : Monitored W fresh s p m k) (hsent : p'.sent = p.sent)
    (hlines : m'.sent = m.sent) (hqueue : m'.queue = m.queue) (hplugins : m'.plugins = m.plugins)
    (hunload : m'.atUnload = m.atUnload) : Monitored W fresh s p' m' k := by
  constructor
  · rw [hsent]
    exact h.le
  · rw [hsent, hlines]
    exact h.sent
  · rw [hsent, hqueue]
    exact h.queue
  · rw [hplugins]
    exact h.plugins
  · rw [hunload]
    exact h.unloaded

theorem Phase.next_spec {p' : Phase} (hnext : p.next = some p') :
    p'.sent = p.sent + 1 ∧ p ≠ .setup ∧ p ≠ .snapshotted ∧ p ≠ .checking ∧ p' ≠ .checking := by
  cases p <;> cases hnext <;> decide

theorem Monitored.send {p' : Phase} (h : Monitored W fresh s p m k) (hnext : p.next = some p')
    {line : Path} (hline : (commandLines fresh s)[p.sent]? = some line) :
    Monitored W fresh s p' (m.receive line) k := by
  obtain ⟨hsent, -⟩ := Phase.next_spec hnext
  have hle := h.le
  have hlength := List.length_take_of_le (List.getElem?_eq_some_iff.mp hline).1.le
  have htake : (commandLines fresh s).take p'.sent = (commandLines fresh s).take p.sent ++ [line] := by
    rw [hsent, List.take_add_one, hline, Option.toList_some]
  constructor
  · omega
  · rw [htake, Machine.receive, h.sent]
  · rw [htake, List.drop_append_of_le_length (by omega)]
    simp only [Machine.receive, h.queue]
  · exact h.plugins
  · exact h.unloaded

end Monitored

section Run

variable {W : Testbed} {fresh : SockMessage} {s : Settings} {m m' : Machine} {g g' : Stage}

theorem reacts_neutral {q : HarnessCall} (hq : Neutral q) {a : q.Answer} (h : W.Reacts m q a m') :
    m' = m := by
  cases q with
  | system command =>
    cases command with
    | dd input output count => exact absurd hq id
    | mount c devPath mountPoint =>
      have hreplay : mountPoint ≠ mntPointReplay := hq
      exact h.2.trans (if_neg fun hmounted => hreplay hmounted.2)
    | _ => exact h.2
  | send line => exact absurd hq id
  | receive => exact absurd hq id
  | _ => exact h

theorem copies_keeps {input output : Path} {count : Nat} {status : Int}
    (h : W.Copies input output count status m m') :
    m'.sent = m.sent ∧ m'.queue = m.queue ∧ m'.plugins = m.plugins ∧
      m'.atUnload = m.atUnload := by
  unfold Testbed.Copies at h
  split at h
  · obtain ⟨mem, snapshot, rfl⟩ := h
    exact ⟨rfl, rfl, rfl, rfl⟩
  · split at h
    · rw [h]
      split <;> exact ⟨rfl, rfl, rfl, rfl⟩
    · rw [h]
      split <;> exact ⟨rfl, rfl, rfl, rfl⟩
    · rw [h]
      exact ⟨rfl, rfl, rfl, rfl⟩

/-- What holds at a stage: after the reply to a command that was waited for, nothing is left to
be executed. -/
def InStep (W : Testbed) (fresh : SockMessage) (s : Settings) (g : Stage) (m : Machine) : Prop :=
  (g.answered = true → W.waits → m.queue = []) ∧ ∃ k, Monitored W fresh s g.phase m k

theorem InStep.happens (h : InStep W fresh s g m) (hs : s.Plain) (hstep : W.Happens m m') :
    InStep W fresh s g m' := by
  obtain ⟨hidle, k, hk⟩ := h
  cases hstep with
  | event e he => exact ⟨hidle, k, hk.observe e⟩
  | execute hqueue hexec =>
    obtain ⟨hlt, hexec⟩ := hk.executed hs hqueue hexec
    refine ⟨fun hanswered hwaits => ?_, k + 1, hk.advance hlt hexec⟩
    rw [hidle hanswered hwaits] at hqueue
    cases hqueue

/-- A step of the harness takes the invariant to the next stage. -/
theorem InStep.reacts (h : InStep W fresh s g m) {q : HarnessCall} {a : q.Answer}
    (hstep : PhaseStep fresh s g q a g') (hreacts : W.Reacts m q a m') :
    InStep W fresh s g' m' := by
  obtain ⟨hidle, k, hk⟩ := h
  cases hstep with
  | neutral hq a =>
    rw [reacts_neutral hq hreacts]
    exact ⟨hidle, k, hk⟩
  | snapshot status =>
    obtain ⟨hlines, hqueue, hplugins, hunload⟩ := copies_keeps hreacts.2
    refine ⟨by rwa [hqueue], k, hk.congr ?_ hlines hqueue hplugins hunload⟩
    dsimp only
    split <;> rfl
  | restore status =>
    obtain ⟨hlines, hqueue, hplugins, hunload⟩ := copies_keeps hreacts.2
    refine ⟨by rwa [hqueue], k, hk.congr ?_ hlines hqueue hplugins hunload⟩
    dsimp only
    split <;> rfl
  | send hnext hline n =>
    have hm' : m' = if 0 ≤ n then m.receive _ else m := hreacts
    rw [hm']
    refine ⟨by simp, k, ?_⟩
    dsimp only
    split
    · exact hk.send hnext hline
    · exact hk
  | receive err =>
    obtain ⟨hwaits, rfl⟩ := hreacts
    exact ⟨fun _ => hwaits, k, hk⟩
  | fork forked =>
    have hsame : m' = m := hreacts
    rw [hsame]
    exact ⟨hidle, k, hk⟩
  | mountReplay c status =>
    rw [hreacts.2]
    split
    · exact ⟨hidle, k, hk.congr rfl rfl rfl rfl rfl⟩
    · exact ⟨hidle, k, hk.congr rfl rfl rfl rfl rfl⟩

theorem InStep.env (hs : s.Plain) (g : Stage) (q : HarnessCall) (a : q.Answer) (g' : Stage)
    (m m' : Machine) (hstep : PhaseStep fresh s g q a g') (henv : W.env m q a m')
    (h : InStep W fresh s g m) : InStep W fresh s g' m' := by
  obtain ⟨m₁, hmany, hreacts⟩ := henv
  have hm₁ : InStep W fresh s g m₁ := by
    clear hreacts
    induction hmany with
    | refl => exact h
    | tail _ hlast ih => exact ih.happens hs hlast
  exact hm₁.reacts hstep hreacts

/-- A machine before a run. -/
structure Machine.Fresh (m : Machine) : Prop where
  plugins : m.plugins = []
  queue : m.queue = []
  sent : m.sent = []
  atUnload : m.atUnload = none
  replayMounted : m.replayMounted = false

theorem InStep.start (h : m.Fresh) : InStep W fresh s .start m :=
  ⟨fun _ _ => h.queue, 0, Nat.le_refl 0, h.sent, h.queue, h.plugins, by simp [h.atUnload]⟩

end Run

/-- At every moment of a run the commands that were sent are the first of the four, the monitor has
executed the first of these, and has the plugins loaded that they leave. If replies are waited for,
the tracker is loaded when the test starts, and nothing is loaded or left to be executed when the
check begins and after success. -/
structure KeepsStep (W : Testbed) (fresh : SockMessage) (s : Settings) (x : Harness MainExit)
    (m₀ : Machine) : Prop where
  order : ∀ y m, Reaches W.env x m₀ y m → m.sent <+: commandLines fresh s ∧
    ∃ k ≤ m.sent.length, m.queue = m.sent.drop k ∧ m.plugins = pluginsAt (W.range s) k
  tracked : W.waits → ∀ m, Asks W.env x m₀ .fork m →
    m.plugins = [.writetracker (W.range s)] ∧ m.queue = []
  checked : W.waits → ∀ c m,
    Asks W.env x m₀ (.system (.mount c s.replayDevicePath mntPointReplay)) m →
      m.plugins = [] ∧ m.queue = []
  finished : W.waits → ∀ m, ComesTo W.env x m₀ (.returned 0) m → m.plugins = [] ∧ m.queue = []

theorem Monitored.le_length {W : Testbed} {fresh : SockMessage} {s : Settings} {p : Phase}
    {m : Machine} {k : Nat} (h : Monitored W fresh s p m k) :
    k ≤ ((commandLines fresh s).take p.sent).length := by
  have hle := h.le
  have hsent := sent_le p
  simp only [List.length_take, commandLines, List.length_cons, List.length_nil]
  omega

theorem Monitored.idle {W : Testbed} {fresh : SockMessage} {s : Settings} {p : Phase} {m : Machine}
    {k : Nat} (h : Monitored W fresh s p m k) (hidle : m.queue = []) : k = p.sent := by
  have hqueue := h.queue
  have hle := h.le
  have hsent := sent_le p
  rw [hidle] at hqueue
  have hlength := congrArg List.length hqueue
  simp [commandLines] at hlength
  omega

/-- The harness and the monitor keep in step, in every run of the program. -/
theorem commands_in_step (W : Testbed) (fresh : SockMessage) (rounds : Nat) (opts : List Opt)
    (files : List Path) (s : Settings) (hopts : Settings.parse opts {} = some s) (hs : s.Plain)
    (m₀ : Machine) (h₀ : m₀.Fresh) : KeepsStep W fresh s (Main.main rounds fresh opts files) m₀ := by
  have hfollows := main_follows fresh rounds opts files hopts
  have hstart : InStep W fresh s .start m₀ := InStep.start h₀
  constructor
  · intro y m hreach
    obtain ⟨g, -, -, k, hk⟩ := hfollows.invariant hstart (InStep.env hs) hreach
    rw [hk.sent]
    exact ⟨List.take_prefix _ _, k, hk.le_length, hk.queue, hk.plugins⟩
  · intro hwaits m hasks
    obtain ⟨g, ⟨hidle, k, hk⟩, hplace⟩ := hfollows.asks hstart (InStep.env hs) hasks
    obtain ⟨g', hstep⟩ := hplace .parent
    cases hstep with
    | neutral hq _ => exact absurd hq id
    | fork _ =>
      have hnone := hidle rfl hwaits
      cases hk.idle hnone
      exact ⟨hk.plugins, hnone⟩
  · intro hwaits c m hasks
    obtain ⟨g, ⟨hidle, k, hk⟩, hplace⟩ := hfollows.asks hstart (InStep.env hs) hasks
    obtain ⟨g', hstep⟩ := hplace 0
    cases hstep with
    | neutral hq _ => exact absurd rfl hq
    | mountReplay c _ =>
      have hnone := hidle rfl hwaits
      cases hk.idle hnone
      exact ⟨hk.plugins, hnone⟩
  · intro hwaits m hends
    obtain ⟨g, ⟨hidle, k, hk⟩, hdone⟩ := hfollows.ends hstart (InStep.env hs) hends
    cases hdone rfl
    have hnone := hidle rfl hwaits
    cases hk.idle hnone
    exact ⟨hk.plugins, hnone⟩

/-- A write to the record device. -/
def smallEvent : GuestEvent := .write 1 0x40000010 ⟨[7], by decide⟩

/-- The default devices, and a guest that makes only this write. -/
def smallTestbed : Testbed where
  parseUlong p := if p = path "0x40000000".toList then 0x40000000 else 0x48000000
  physicalMemoryRw address bytes m := store m address bytes
  device p :=
    if p = path "/dev/pmem0".toList then some 0x40000000
    else if p = path "/dev/pmem1".toList then some 0x48000000
    else none
  exits _ status := status = 0
  guest e := e = smallEvent
  waits := True

def smallMachine : Machine := ⟨fun _ => 0, fun _ => 0, [], [], [], [], false, [], none⟩

theorem smallPlain : Settings.Plain {} :=
  ⟨by decide, by decide, ⟨by decide, by decide, by decide, by decide⟩,
    ⟨by decide, by decide, by decide, by decide⟩⟩

theorem commands_in_step_small :
    KeepsStep smallTestbed newMessage {} (Main.main 1 newMessage [] [[]]) smallMachine :=
  commands_in_step smallTestbed newMessage 1 [] [[]] {} rfl smallPlain smallMachine
    ⟨rfl, rfl, rfl, rfl, rfl⟩

end PMTester
