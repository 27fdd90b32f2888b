import PMTester.ReceiveReply

/-!
# The commands sent to the monitor

`SendCommand` puts a command line together from a message. The monitor reads a
line as words and takes what stands behind the name of a plugin for its
arguments; without a space between the two it looks for a plugin by another name.
-/
namespace PMTester

inductive QemuCommand where
  | cListPlugins | cLoadPlugin | cUnloadPlugin
  deriving DecidableEq, Repr

inductive Plugins where
  | pWritetracker | pReplay
  deriving DecidableEq, Repr

structure CommandOpts where
  pluginName : Plugins
  start : Path
  end_ : Path
  id : UInt32
  deriving DecidableEq, Repr

structure SockMessage where
  qCmd : QemuCommand
  needResponse : Bool
  qCmdOptions : CommandOpts
  deriving DecidableEq, Repr

namespace ClientSocket

def space : UInt8 := UInt8.ofNat ' '.toNat
def comma : UInt8 := UInt8.ofNat ','.toNat
def equals : UInt8 := UInt8.ofNat '='.toNat
def newline : UInt8 := UInt8.ofNat '\n'.toNat

def listPlugins : Path := path ['l', 'i', 's', 't', '_', 'p', 'l', 'u', 'g', 'i', 'n', 's']
def loadPlugin : Path := path ['l', 'o', 'a', 'd', '_', 'p', 'l', 'u', 'g', 'i', 'n']
def unloadPlugin : Path :=
  path ['u', 'n', 'l', 'o', 'a', 'd', '_', 'p', 'l', 'u', 'g', 'i', 'n']
def writetracker : Path := path ['w', 'r', 'i', 't', 'e', 't', 'r', 'a', 'c', 'k', 'e', 'r']
def replayer : Path := path ['r', 'e', 'p', 'l', 'a', 'y', 'e', 'r']
def startKey : Path := path ['s', 't', 'a', 'r', 't']
def endKey : Path := path ['e', 'n', 'd']
def baseKey : Path := path ['b', 'a', 's', 'e']

def buildLoadPluginMsg (msg : SockMessage) (pluginName : Plugins) (start end_ : Path) : SockMessage :=
  { msg with
    qCmd := .cLoadPlugin
    needResponse := false
    qCmdOptions := { msg.qCmdOptions with pluginName := pluginName, start := start, end_ := end_ } }

def buildUnloadPluginMsg (msg : SockMessage) (idx : UInt32) : SockMessage :=
  { msg with
    qCmd := .cUnloadPlugin
    needResponse := false
    qCmdOptions := { msg.qCmdOptions with id := idx } }

/-- The command line of a message. The enumerations have no values for the default branches. -/
def completeCommand (msg : SockMessage) : Path :=
  let options := msg.qCmdOptions
  (match msg.qCmd with
  | .cListPlugins => listPlugins
  | .cLoadPlugin =>
    loadPlugin ++ [space] ++
      match options.pluginName with
      | .pWritetracker =>
        let isCustomStart := !options.start.isEmpty
        writetracker ++
          (if !options.start.isEmpty then [space] ++ startKey ++ [equals] ++ options.start else []) ++
          if !options.end_.isEmpty then
            (if isCustomStart then [comma] else []) ++ endKey ++ [equals] ++ options.end_
          else []
      | .pReplay =>
        replayer ++
          if !options.start.isEmpty then [space] ++ baseKey ++ [equals] ++ options.start else []
  | .cUnloadPlugin => unloadPlugin ++ [space] ++ path (Nat.toDigits 10 options.id.toNat)) ++ [newline]

/-- `SendCommand`: its result and the line it hands to `send`, whose result is a parameter. -/
def sendCommand (sockfd : Int) (send : Path → Int) (msg : SockMessage) : SockError × Option Path :=
  if sockfd < 0 then (.eNotConnected, none)
  else
    let line := completeCommand msg
    if send line < 0 then (.eOther, some line) else (.eNone, some line)

/-- A command `load_plugin` with its arguments. -/
structure LoadCommand where
  name : Path
  args : List (Path × Path)
  deriving DecidableEq, Repr

/-- `key=value`. -/
def readArg (arg : Path) : Option (Path × Path) :=
  match arg.splitOn equals with
  | [key, value] => if key = [] then none else some (key, value)
  | _ => none

def readWords : List Path → Option LoadCommand
  | [word, name] => if word = loadPlugin ∧ name ≠ [] then some ⟨name, []⟩ else none
  | [word, name, args] =>
    if word = loadPlugin ∧ name ≠ [] then
      ((args.splitOn comma).mapM readArg).map fun args => ⟨name, args⟩
    else none
  | _ => none

/-- `load_plugin NAME [key=value[,key=value]]`, a line of two or three words. -/
def readLoad (line : Path) : Option LoadCommand :=
  match line.splitOn newline with
  | [command, []] => readWords (command.splitOn space)
  | _ => none

/-- The argument of a field that was given. -/
def given (key value : Path) : List (Path × Path) := if value = [] then [] else [(key, value)]

/-- The line of a message for the tracker reads back as the tracker with the fields that are given. -/
def ReadsBack (msg : SockMessage) (start end_ : Path) : Prop :=
  ∀ sockfd send, 0 ≤ sockfd → ∃ line,
    (sendCommand sockfd send (buildLoadPluginMsg msg .pWritetracker start end_)).2 = some line ∧
    readLoad line = some ⟨writetracker, given startKey start ++ given endKey end_⟩

/-- A value without the characters that separate words, arguments and lines. -/
structure PlainValue (value : Path) : Prop where
  space : ClientSocket.space ∉ value
  comma : ClientSocket.comma ∉ value
  equals : ClientSocket.equals ∉ value
  newline : ClientSocket.newline ∉ value

theorem sendCommand_line {sockfd : Int} (h : 0 ≤ sockfd) (send : Path → Int) (msg : SockMessage) :
    (sendCommand sockfd send msg).2 = some (completeCommand msg) := by
  rw [sendCommand, if_neg (by omega)]
  by_cases hsend : send (completeCommand msg) < 0 <;> simp [hsend]

theorem readArg_pair {key value : Path} (hkey : key ≠ []) (hequals : equals ∉ key)
    (hvalue : equals ∉ value) : readArg (key ++ equals :: value) = some (key, value) := by
  simp [readArg, List.splitOn_append_cons_self_of_not_mem hequals, List.splitOn_eq_singleton hvalue,
    hkey]

theorem readLoad_line {command : Path} (hnewline : newline ∉ command) :
    readLoad (command ++ [newline]) = readWords (command.splitOn space) := by
  have hline : (command ++ [newline]).splitOn newline = [command, []] := by
    rw [List.splitOn_append_cons_self_of_not_mem hnewline]
    rfl
  rw [readLoad, hline]

/-- A plugin without arguments. -/
theorem readLoad_name {name : Path} (hne : name ≠ []) (hspace : space ∉ name)
    (hnewline : newline ∉ name) :
    readLoad (loadPlugin ++ space :: name ++ [newline]) = some ⟨name, []⟩ := by
  have hword : space ∉ loadPlugin ∧ newline ∉ loadPlugin ∧ newline ≠ space := by decide
  rw [readLoad_line (by simp [hword, hnewline]),
    List.splitOn_append_cons_self_of_not_mem hword.1, List.splitOn_eq_singleton hspace]
  simp [readWords, hne]

/-- A plugin and its arguments. -/
theorem readLoad_args {name args : Path} (hne : name ≠ []) (hname : space ∉ name ∧ newline ∉ name)
    (hargs : space ∉ args ∧ newline ∉ args) :
    readLoad (loadPlugin ++ space :: (name ++ space :: args) ++ [newline]) =
      ((args.splitOn comma).mapM readArg).map fun args => ⟨name, args⟩ := by
  have hword : space ∉ loadPlugin ∧ newline ∉ loadPlugin ∧ newline ≠ space := by decide
  rw [readLoad_line (by simp [hword, hname.2, hargs.2]),
    List.splitOn_append_cons_self_of_not_mem hword.1,
    List.splitOn_append_cons_self_of_not_mem hname.1, List.splitOn_eq_singleton hargs.1]
  simp [readWords, hne]

section Tracker

variable (msg : SockMessage) {start end_ : Path}

/-- With a start the arguments are a word of their own. -/
theorem command_of_start (hstart : start ≠ []) :
    completeCommand (buildLoadPluginMsg msg .pWritetracker start end_) =
      loadPlugin ++ space :: (writetracker ++ space :: (startKey ++ equals :: start ++
        if end_ = [] then [] else comma :: (endKey ++ equals :: end_))) ++ [newline] := by
  have hgiven : start.isEmpty = false := by simpa using hstart
  by_cases hend : end_ = []
  · simp [completeCommand, buildLoadPluginMsg, hgiven, hend]
  · have hgivenEnd : end_.isEmpty = false := by simpa using hend
    simp [completeCommand, buildLoadPluginMsg, hgiven, hgivenEnd, hend]

/-- Without a start the end is glued to the name. -/
theorem command_of_no_start :
    completeCommand (buildLoadPluginMsg msg .pWritetracker [] end_) =
      loadPlugin ++ space :: (writetracker ++
        if end_ = [] then [] else endKey ++ equals :: end_) ++ [newline] := by
  by_cases hend : end_ = []
  · simp [completeCommand, buildLoadPluginMsg, hend]
  · have hgivenEnd : end_.isEmpty = false := by simpa using hend
    simp [completeCommand, buildLoadPluginMsg, hgivenEnd, hend]

/-- The literal parts of a command hold no separators. -/
theorem literals_plain : (space ∉ writetracker ∧ newline ∉ writetracker) ∧
    PlainValue startKey ∧ PlainValue endKey ∧
    (space ≠ equals ∧ newline ≠ equals ∧ comma ≠ equals ∧ space ≠ comma ∧ newline ≠ comma) := by
  refine ⟨by decide, ?_, ?_, by decide⟩ <;> constructor <;> decide

/-- The arguments with a start are read back, with and without an end. -/
theorem readLoad_of_start (hstart : start ≠ []) (hs : PlainValue start) (he : PlainValue end_) :
    readLoad (completeCommand (buildLoadPluginMsg msg .pWritetracker start end_)) =
      some ⟨writetracker, given startKey start ++ given endKey end_⟩ := by
  obtain ⟨hname, hsk, hek, hse, hne, hce, hsc, hnc⟩ := literals_plain
  have hfirst : readArg (startKey ++ equals :: start) = some (startKey, start) :=
    readArg_pair (by decide) hsk.equals hs.equals
  have hcomma : comma ∉ startKey ++ equals :: start := by simp [hsk.comma, hs.comma, hce]
  rw [command_of_start msg hstart]
  by_cases hend : end_ = []
  · rw [if_pos hend, List.append_nil, readLoad_args (by decide) hname
      (by simp [hsk.space, hs.space, hse, hsk.newline, hs.newline, hne]),
      List.splitOn_eq_singleton hcomma]
    simp [hfirst, given, hstart, hend]
  · have hsecond : readArg (endKey ++ equals :: end_) = some (endKey, end_) :=
      readArg_pair (by decide) hek.equals he.equals
    have hcommaEnd : comma ∉ endKey ++ equals :: end_ := by simp [hek.comma, he.comma, hce]
    rw [if_neg hend, readLoad_args (by decide) hname
      (by simp [hsk.space, hs.space, hse, hsk.newline, hs.newline, hne, hek.space, he.space, hsc,
        hek.newline, he.newline, hnc]),
      List.splitOn_append_cons_self_of_not_mem hcomma, List.splitOn_eq_singleton hcommaEnd]
    simp [hfirst, hsecond, given, hstart, hend]

/-- Without a start the name of the plugin is the tracker's only when there is no end. -/
theorem readLoad_of_no_start (he : PlainValue end_) :
    readLoad (completeCommand (buildLoadPluginMsg msg .pWritetracker [] end_)) =
      some ⟨writetracker ++ if end_ = [] then [] else endKey ++ equals :: end_, []⟩ := by
  obtain ⟨hname, -, hek, hse, hne, -⟩ := literals_plain
  have hne' : writetracker ≠ [] := by decide
  rw [command_of_no_start]
  apply readLoad_name
  · simp [hne']
  · by_cases hend : end_ = [] <;> simp [hend, hname, hek.space, he.space, hse]
  · by_cases hend : end_ = [] <;> simp [hend, hname, hek.newline, he.newline, hne]

theorem readsBack_iff_line (start end_ : Path) : ReadsBack msg start end_ ↔
    readLoad (completeCommand (buildLoadPluginMsg msg .pWritetracker start end_)) =
      some ⟨writetracker, given startKey start ++ given endKey end_⟩ := by
  constructor
  · intro h
    obtain ⟨line, hsent, hread⟩ := h 0 (fun _ => 0) (by decide)
    rw [sendCommand_line (by decide)] at hsent
    rwa [Option.some.inj hsent]
  · intro h sockfd send hsockfd
    exact ⟨_, sendCommand_line hsockfd send _, h⟩

/-- The command of a message for the tracker reads back as the message exactly when there is a start
or no end. -/
theorem command_reads_back_iff (hs : PlainValue start) (he : PlainValue end_) :
    ReadsBack msg start end_ ↔ start ≠ [] ∨ end_ = [] := by
  rw [readsBack_iff_line]
  by_cases hstart : start = []
  · subst hstart
    rw [readLoad_of_no_start msg he]
    by_cases hend : end_ = []
    · simp [hend, given]
    · simp [hend, given]
  · exact iff_of_true (readLoad_of_start msg hstart hs he) (.inl hstart)

end Tracker

/-- A new message. -/
def newMessage : SockMessage := ⟨.cListPlugins, false, ⟨.pWritetracker, [], [], 0⟩⟩

theorem command_reads_back_iff_range :
    ReadsBack newMessage (path ['0', 'x', '4', '0']) (path ['0', 'x', '4', '8']) :=
  (command_reads_back_iff newMessage ⟨by decide, by decide, by decide, by decide⟩
    ⟨by decide, by decide, by decide, by decide⟩).mpr (.inl (by decide))

/-- An end without a start: the monitor is asked for the plugin `writetrackerend=0x48`. -/
theorem end_without_start : ¬ ∀ (msg : SockMessage) (start end_ : Path), PlainValue start →
    PlainValue end_ → ReadsBack msg start end_ := by
  intro h
  have hend : PlainValue (path ['0', 'x', '4', '8']) := ⟨by decide, by decide, by decide, by decide⟩
  have hread := h newMessage [] _ ⟨by decide, by decide, by decide, by decide⟩ hend
  rw [readsBack_iff_line, readLoad_of_no_start newMessage hend] at hread
  exact absurd hread (by decide)

end ClientSocket

end PMTester
