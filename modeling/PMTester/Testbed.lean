import Mathlib.Logic.Relation
import PMTester.Harness
import PMTester.RangeClipping

/-!
# The guest and its emulator

The environment of the harness: the memory of the guest, which runs and writes
to it all the time, and the monitor of the emulator, which executes the command
lines it was sent one after the other, sooner or later, and loads and unloads
the plugins. Three variables keep what happened: the command lines that were
sent, the writes since the snapshot until the tracker was unloaded, and the
memory at that moment.
-/
namespace PMTester

open Bytes Memory Loop

namespace ClientSocket

/-- A decimal number. -/
def readDecimal (digits : Path) : Option Nat :=
  if digits ≠ [] ∧ digits.all (fun b => 48 ≤ b && b ≤ 57) then
    some (digits.foldl (fun n b => 10 * n + (b.toNat - 48)) 0)
  else none

/-- `unload_plugin INDEX`. -/
def readUnload (line : Path) : Option Nat :=
  match line.splitOn newline with
  | [command, []] =>
    match command.splitOn space with
    | [word, index] => if word = unloadPlugin then readDecimal index else none
    | _ => none
  | _ => none

end ClientSocket

/-- A loaded plugin. -/
inductive Plugin where
  | writetracker (t : WriteTracker.Range)
  | replayer

/-- What the harness finds: where the devices lie, what its commands may exit with, what the guest
writes while the replay device is not mounted, and whether a reply is read to its end, so that
`ReceiveReply` returns only when the monitor is done. -/
structure Testbed where
  parseUlong : Path → UInt64
  physicalMemoryRw : Nat → List UInt8 → Mem → Mem
  device : Path → Option Nat
  exits : Path → Int → Prop
  guest : GuestEvent → Prop
  waits : Prop

structure Machine where
  mem : Mem
  snapshot : Mem
  plugins : List Plugin
  wtOut : List UInt8
  queue : List Path
  /-- All command lines that have arrived. -/
  sent : List Path
  replayMounted : Bool
  /-- The guest's writes since the snapshot, and which of them the tracker logged. -/
  written : List (GuestEvent × Bool)
  /-- The memory when the tracker was unloaded. -/
  atUnload : Option Mem

namespace Machine

/-- The range of the tracker, when it is loaded. -/
def tracker (m : Machine) : Option WriteTracker.Range :=
  m.plugins.findSome? fun
    | .writetracker t => some t
    | .replayer => none

/-- A command line arrives at the monitor. -/
def receive (m : Machine) (line : Path) : Machine :=
  { m with queue := m.queue ++ [line], sent := m.sent ++ [line] }

/-- Something happens in the guest. -/
def observe (m : Machine) (e : GuestEvent) : Machine :=
  { m with
    mem := e.effect m.mem
    wtOut := m.wtOut ++ m.tracker.elim [] fun t => e.logged t
    written :=
      if m.atUnload.isNone then m.written ++ [(e, m.tracker.elim false fun t => e.isLogged t)]
      else m.written }

def unload (m : Machine) (index : Nat) : Machine :=
  { m with
    plugins := m.plugins.eraseIdx index
    atUnload :=
      match m.plugins[index]? with
      | some (.writetracker _) => m.atUnload.or (some m.mem)
      | _ => m.atUnload }

end Machine

namespace Testbed

variable (W : Testbed)

/-- `panda_parse_ulong_opt`. -/
def argument (args : List (Path × Path)) (key : Path) (default : UInt64) : UInt64 :=
  ((args.find? fun arg => arg.1 == key).map fun arg => W.parseUlong arg.2).getD default

/-- The range that the tracker takes from its arguments. -/
def trackedRange (args : List (Path × Path)) : WriteTracker.Range :=
  ⟨W.argument args ClientSocket.startKey 0x40000000, W.argument args ClientSocket.endKey 0x48000000⟩

def replayBase (args : List (Path × Path)) : UInt64 :=
  W.argument args ClientSocket.baseKey 0x40000000

/-- The monitor executes a command line. The replayer reads the trace that the tracker has closed;
of a trace that is still open it may read any part. -/
def Executes (line : Path) (m m' : Machine) : Prop :=
  match ClientSocket.readLoad line with
  | some ⟨name, args⟩ =>
    if name = ClientSocket.writetracker then
      m' = { m with plugins := m.plugins ++ [.writetracker (W.trackedRange args)], wtOut := [] }
    else if name = ClientSocket.replayer then
      ∃ locals file mem,
        (m.tracker = none → file = m.wtOut) ∧
        Exits (Replayer.body W.physicalMemoryRw (W.replayBase args)) ⟨locals, ⟨file, true⟩, m.mem⟩
          (.done mem) ∧
        m' = { m with mem := mem, plugins := m.plugins ++ [.replayer] }
    else m' = m
  | none =>
    match ClientSocket.readUnload line with
    | some index => m' = m.unload index
    | none => m' = m

/-- What goes on while the harness waits. -/
inductive Happens : Machine → Machine → Prop
  | event {m : Machine} (e : GuestEvent) (he : m.replayMounted = true ∨ W.guest e) :
      Happens m (m.observe e)
  | execute {m m' : Machine} {line : Path} {rest : List Path} (hqueue : m.queue = line :: rest)
      (h : W.Executes line { m with queue := rest } m') : Happens m m'

/-- `dd` between a device and the snapshot. One that fails may have copied anything. -/
def Copies (input output : Path) (count : Nat) (status : Int) (m m' : Machine) : Prop :=
  if status ≠ 0 then ∃ mem snapshot, m' = { m with mem := mem, snapshot := snapshot }
  else
    match W.device input, W.device output with
    | some start, none =>
      m' = if output = snapshotFile then
          { m with snapshot := fun i => m.mem (start + i), written := [] }
        else m
    | none, some start =>
      m' = if input = snapshotFile then
          { m with mem := fun a =>
              if start ≤ a ∧ a < start + count * 2 ^ 20 then m.snapshot (a - start) else m.mem a }
        else m
    | _, _ => m' = m

/-- What a question of the harness does besides what goes on anyway. -/
def Reacts (m : Machine) : (q : HarnessCall) → q.Answer → Machine → Prop
  | .system command, status, m' =>
    W.exits command.text status ∧
      match command with
      | .dd input output count => W.Copies input output count status m m'
      | .mount _ _ mountPoint =>
        m' = if status = 0 ∧ mountPoint = mntPointReplay then { m with replayMounted := true } else m
      | _ => m' = m
  | .send line, n, m' => m' = if 0 ≤ n then m.receive line else m
  | .receive, _, m' => (W.waits → m.queue = []) ∧ m' = m
  | _, _, m' => m' = m

/-- The environment of the harness. -/
def env : Script.Env HarnessCall HarnessCall.Answer Machine := fun m q a m' =>
  ∃ m₁, Relation.ReflTransGen W.Happens m m₁ ∧ W.Reacts m₁ q a m'

end Testbed

end PMTester
