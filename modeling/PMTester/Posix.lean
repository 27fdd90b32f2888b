import PMTester.RecordedMods

/-!
# A reference file system

A POSIX-like file system below `FsFns`: names, inodes and open files, with an
environment that may refuse any changing call, shorten any write and hand out
any free descriptor number. A refused call changes nothing, but for a close that
fails after it has released the number. `resolve` is the kernel's reading of a
path string, left open here: it decides which strings name the same file. Memory
mapping and `fallocate` are not supported.
-/
namespace PMTester

open Word

/-- The components of a resolved path; the root is empty. -/
abbrev Name := List Path

inductive FileKind where
  | regular | directory | special
  deriving DecidableEq, Repr

structure Inode where
  kind : FileKind
  data : List UInt8
  deriving DecidableEq, Repr

structure OpenFile where
  ino : Nat
  pos : Nat
  writable : Bool
  append : Bool
  deriving DecidableEq, Repr

/-- What the environment decides about one changing call. -/
structure Choice where
  refuse : Bool
  /-- A close that is refused has released the descriptor all the same. -/
  release : Bool
  count : Nat
  fd : Int
  deriving DecidableEq, Repr

structure PosixFs where
  names : List (Name × Nat)
  inodes : Nat → Inode
  /-- Inode numbers from here on are unused. -/
  fresh : Nat
  fds : Int → Option OpenFile
  choices : Nat → Choice
  calls : Nat

/-- The largest `off_t`. -/
def maxOffset : Nat := 2 ^ 63 - 1

/-- Store bytes at a position of a file, zero-filling any gap before it. -/
def storeAt (data : List UInt8) (pos : Nat) (bytes : List UInt8) : List UInt8 :=
  if bytes = [] then data
  else data.take pos ++ List.replicate (pos - data.length) 0 ++ bytes ++
    data.drop (pos + bytes.length)

@[simp] theorem storeAt_nil (data : List UInt8) (pos : Nat) : storeAt data pos [] = data := rfl

theorem length_storeAt (data : List UInt8) (pos : Nat) (bytes : List UInt8) :
    (storeAt data pos bytes).length =
      if bytes = [] then data.length else max data.length (pos + bytes.length) := by
  unfold storeAt
  split
  · rfl
  · simp only [List.length_append, List.length_take, List.length_replicate, List.length_drop]
    omega

theorem storeAt_before (data : List UInt8) (pos i : Nat) (bytes : List UInt8) (h : i < pos) :
    (storeAt data pos bytes).getD i 0 = data.getD i 0 := by
  unfold storeAt
  split
  · rfl
  · simp only [List.getD_eq_getElem?_getD, List.append_assoc]
    by_cases hlen : i < data.length
    · rw [List.getElem?_append_left (by simp; omega), List.getElem?_take_of_lt h]
    · rw [List.getElem?_append_right (by simp; omega), List.getElem?_append_left (by simp; omega),
        List.getElem?_eq_none (l := data) (by omega), List.getElem?_replicate_of_lt (by simp; omega)]
      rfl

theorem storeAt_inside (data : List UInt8) (pos i : Nat) (bytes : List UInt8)
    (h : i < bytes.length) : (storeAt data pos bytes)[pos + i]? = bytes[i]? := by
  have hne : bytes ≠ [] := List.length_pos_iff.mp (by omega)
  have hgap : (data.take pos ++ List.replicate (pos - data.length) (0 : UInt8)).length = pos := by
    simp
    omega
  rw [storeAt, if_neg hne, List.append_assoc, List.getElem?_append_right (by omega), hgap,
    List.getElem?_append_left (by omega), Nat.add_sub_cancel_left]

theorem storeAt_behind (data : List UInt8) (pos i : Nat) (bytes : List UInt8)
    (h : pos + bytes.length ≤ i) : (storeAt data pos bytes).getD i 0 = data.getD i 0 := by
  unfold storeAt
  split
  · rfl
  · have hlen : (data.take pos ++ List.replicate (pos - data.length) (0 : UInt8) ++ bytes).length =
        pos + bytes.length := by
      simp
      omega
    have hi : pos + bytes.length + (i - (pos + bytes.length)) = i := by omega
    simp only [List.getD_eq_getElem?_getD]
    rw [List.getElem?_append_right (by omega), hlen, List.getElem?_drop, hi]

/-- A path string as the kernel splits it: components without empty ones and `.`. -/
def splitPath (p : Path) : Name :=
  (p.splitOn (UInt8.ofNat '/'.toNat)).filter fun c => c != [] && c != path ['.']

namespace PosixFs

def ino? (s : PosixFs) (name : Name) : Option Nat := s.names.lookup name

def isDirectory (s : PosixFs) (name : Name) : Bool :=
  match s.ino? name with
  | none => false
  | some i => (s.inodes i).kind == .directory

/-- Whether a directory entry can be made under this name. -/
def canCreate (s : PosixFs) (name : Name) : Bool :=
  name != [] && (s.ino? name).isNone && s.isDirectory name.dropLast

def addName (s : PosixFs) (name : Name) (i : Nat) : PosixFs :=
  { s with names := (name, i) :: s.names.filter (·.1 != name) }

def dropName (s : PosixFs) (name : Name) : PosixFs :=
  { s with names := s.names.filter (·.1 != name) }

def create (s : PosixFs) (name : Name) (kind : FileKind) : PosixFs :=
  { s.addName name s.fresh with
    inodes := Function.update s.inodes s.fresh ⟨kind, []⟩, fresh := s.fresh + 1 }

def isEmptyDir (s : PosixFs) (name : Name) : Bool :=
  s.names.all fun e => !(name.isPrefixOf e.1) || e.1 == name

def setData (s : PosixFs) (i : Nat) (data : List UInt8) : PosixFs :=
  { s with inodes := Function.update s.inodes i { s.inodes i with data := data } }

def setFd (s : PosixFs) (fd : Int) (f : Option OpenFile) : PosixFs :=
  { s with fds := Function.update s.fds fd f }

/-- The state with one more environment choice used up. -/
def called (s : PosixFs) : PosixFs := { s with calls := s.calls + 1 }

/-- One changing call: the environment's choice is used up, and a refusal changes nothing else. -/
def attempt (s : PosixFs) (act : Choice → PosixFs → Option (Int × PosixFs)) : Int × PosixFs :=
  let c := s.choices s.calls
  let s := s.called
  if c.refuse then (-1, s) else (act c s).getD (-1, s)

@[simp] theorem ino?_called (s : PosixFs) (name : Name) : s.called.ino? name = s.ino? name := rfl
@[simp] theorem inodes_called (s : PosixFs) : s.called.inodes = s.inodes := rfl
@[simp] theorem fresh_called (s : PosixFs) : s.called.fresh = s.fresh := rfl
@[simp] theorem fds_called (s : PosixFs) : s.called.fds = s.fds := rfl
@[simp] theorem ino?_setData (s : PosixFs) (i : Nat) (data : List UInt8) (name : Name) :
    (s.setData i data).ino? name = s.ino? name := rfl
@[simp] theorem ino?_setFd (s : PosixFs) (fd : Int) (f : Option OpenFile) (name : Name) :
    (s.setFd fd f).ino? name = s.ino? name := rfl
@[simp] theorem inodes_setFd (s : PosixFs) (fd : Int) (f : Option OpenFile) :
    (s.setFd fd f).inodes = s.inodes := rfl
@[simp] theorem inodes_setData (s : PosixFs) (i : Nat) (data : List UInt8) :
    (s.setData i data).inodes = Function.update s.inodes i { s.inodes i with data := data } := rfl
@[simp] theorem inodes_create (s : PosixFs) (name : Name) (kind : FileKind) :
    (s.create name kind).inodes = Function.update s.inodes s.fresh ⟨kind, []⟩ := rfl
@[simp] theorem fds_setData (s : PosixFs) (i : Nat) (data : List UInt8) :
    (s.setData i data).fds = s.fds := rfl

theorem lookup_filter_ne (names : List (Name × Nat)) (name other : Name) (h : other ≠ name) :
    (names.filter (·.1 != name)).lookup other = names.lookup other := by
  induction names with
  | nil => rfl
  | cons e rest ih =>
    obtain ⟨n, i⟩ := e
    by_cases he : n = name
    · have hne : (other == name) = false := by simp [h]
      simpa [he, List.lookup_cons, hne] using ih
    · simp [he, List.lookup_cons, ih]

theorem ino?_create (s : PosixFs) (name other : Name) (kind : FileKind) :
    (s.create name kind).ino? other = if other = name then some s.fresh else s.ino? other := by
  by_cases h : other = name
  · simp [ino?, create, addName, h]
  · have hne : (other == name) = false := by simp [h]
    simp [ino?, create, addName, List.lookup_cons, hne, h, lookup_filter_ne _ _ _ h]

theorem ino?_dropName (s : PosixFs) (name other : Name) :
    (s.dropName name).ino? other = if other = name then none else s.ino? other := by
  by_cases h : other = name
  · have hnone : (s.dropName name).ino? name = none := by
      rw [ino?, List.lookup_eq_none_iff]
      intro e he
      have hne : e.1 ≠ name := by simpa using (List.mem_filter.mp he).2
      simpa using hne.symm
    simp [h, hnone]
  · simp [ino?, dropName, h, lookup_filter_ne _ _ _ h]

def modeOf : FileKind → Flags
  | .regular => sIfreg
  | .directory => sIfdir
  | .special => 0o020000#32

def statOf (s : PosixFs) (i : Nat) : Stat :=
  { stIno := i, stMode := modeOf (s.inodes i).kind, stSize := (s.inodes i).data.length }

/-- Open flags that give write access. -/
def writes (flags : Flags) : Bool :=
  flags &&& oAccmode == oWronly || flags &&& oAccmode == oRdwr

def openFile (flags : Flags) (i : Nat) : OpenFile := ⟨i, 0, writes flags, flags.has oAppend⟩

def doMknod (name : Name) (mode : Flags) (_ : Choice) (s : PosixFs) : Option (Int × PosixFs) :=
  if s.canCreate name && mode &&& sIfmt != sIfdir then
    let kind := if mode &&& sIfmt == 0#32 || mode &&& sIfmt == sIfreg then FileKind.regular
      else FileKind.special
    some (0, s.create name kind)
  else none

def doMkdir (name : Name) (_ : Choice) (s : PosixFs) : Option (Int × PosixFs) :=
  if s.canCreate name then some (0, s.create name .directory) else none

def doOpen (name : Name) (flags : Flags) (c : Choice) (s : PosixFs) : Option (Int × PosixFs) :=
  if c.fd < 0 ∨ (s.fds c.fd).isSome then none
  else
    match s.ino? name with
    | none =>
      if flags.has oCreat && s.canCreate name then
        some (c.fd, (s.create name .regular).setFd c.fd (some (openFile flags s.fresh)))
      else none
    | some i =>
      if flags.has oCreat && flags.has oExcl then none
      else
        match (s.inodes i).kind with
        | .directory =>
          if writes flags || flags.has oTrunc || flags.has oCreat then none
          else some (c.fd, s.setFd c.fd (some (openFile flags i)))
        | .special => some (c.fd, s.setFd c.fd (some (openFile flags i)))
        | .regular =>
          let s := if flags.has oTrunc then s.setData i [] else s
          some (c.fd, s.setFd c.fd (some (openFile flags i)))

def doLseek (fd offset whence : Int) (s : PosixFs) : Int × PosixFs :=
  match s.fds fd with
  | none => (-1, s)
  | some f =>
    let base? : Option Int :=
      if whence = seekSet then some 0
      else if whence = seekCur then some f.pos
      else if whence = seekEnd then some (s.inodes f.ino).data.length
      else none
    match base? with
    | none => (-1, s)
    | some base =>
      let pos := base + offset
      if (s.inodes f.ino).kind = .special ∨ pos < 0 ∨ (maxOffset : Int) < pos then (-1, s)
      else (pos, s.setFd fd (some { f with pos := pos.toNat }))

/-- Store a prefix of `buf` at a position of an open regular file; `none` when refused. -/
def storeOpen (f : OpenFile) (pos : Nat) (buf : List UInt8) (c : Choice) (s : PosixFs) :
    Option (Nat × PosixFs) :=
  if !f.writable || (s.inodes f.ino).kind != .regular then none
  else if buf ≠ [] ∧ maxOffset ≤ pos then none
  else
    let n := min (min buf.length c.count) (min maxRwCount (maxOffset - pos))
    some (n, s.setData f.ino (storeAt (s.inodes f.ino).data pos (buf.take n)))

def doWrite (fd : Int) (buf : List UInt8) (c : Choice) (s : PosixFs) : Option (Int × PosixFs) :=
  match s.fds fd with
  | none => none
  | some f =>
    let pos := if f.append then (s.inodes f.ino).data.length else f.pos
    (storeOpen f pos buf c s).map fun (n, s) =>
      ((n : Int), s.setFd fd (some { f with pos := pos + n }))

def doPwrite (fd : Int) (buf : List UInt8) (offset : Int) (c : Choice) (s : PosixFs) :
    Option (Int × PosixFs) :=
  match s.fds fd with
  | none => none
  | some f =>
    if offset < 0 then none
    else
      let pos := if f.append then (s.inodes f.ino).data.length else offset.toNat
      (storeOpen f pos buf c s).map fun (n, s) => ((n : Int), s)

/-- A close, which may report an error after it has released the descriptor. -/
def doClose (fd : Int) (s : PosixFs) : Int × PosixFs :=
  let c := s.choices s.calls
  let s := s.called
  if (s.fds fd).isNone then (-1, s)
  else if c.refuse then (-1, if c.release then s.setFd fd none else s)
  else (0, s.setFd fd none)

/-- Move an entry and everything below it; what was at the new name is gone. -/
def move (s : PosixFs) (old new : Name) : PosixFs :=
  { s with
    names := (s.names.filter fun e => !new.isPrefixOf e.1).map fun e =>
      if old.isPrefixOf e.1 then (new ++ e.1.drop old.length, e.2) else e }

def doRename (old new : Name) (_ : Choice) (s : PosixFs) : Option (Int × PosixFs) :=
  match s.ino? old with
  | none => none
  | some i =>
    if old = new then some (0, s)
    else if old.isPrefixOf new || new == [] || !s.isDirectory new.dropLast then none
    else
      match s.ino? new with
      | none => some (0, s.move old new)
      | some j =>
        if i = j then some (0, s)
        else
          match (s.inodes i).kind == .directory, (s.inodes j).kind == .directory with
          | true, true => if s.isEmptyDir new then some (0, s.move old new) else none
          | false, false => some (0, s.move old new)
          | _, _ => none

def doUnlink (name : Name) (_ : Choice) (s : PosixFs) : Option (Int × PosixFs) :=
  match s.ino? name with
  | none => none
  | some i => if (s.inodes i).kind = .directory then none else some (0, s.dropName name)

def doRemove (name : Name) (c : Choice) (s : PosixFs) : Option (Int × PosixFs) :=
  match s.ino? name with
  | none => none
  | some i =>
    if (s.inodes i).kind = .directory then
      if name != [] && s.isEmptyDir name then some (0, s.dropName name) else none
    else doUnlink name c s

def doFsync (fd : Int) (_ : Choice) (s : PosixFs) : Option (Int × PosixFs) :=
  if (s.fds fd).isSome then some (0, s) else none

/-- A changing call is refused, or acts on the state with the choice used up. -/
theorem attempt_cases (s : PosixFs) (act : Choice → PosixFs → Option (Int × PosixFs)) :
    s.attempt act = (-1, s.called) ∨
      ∃ c r s', act c s.called = some (r, s') ∧ s.attempt act = (r, s') := by
  unfold attempt
  cases hr : (s.choices s.calls).refuse with
  | true => exact Or.inl (by simp [hr])
  | false =>
    cases ha : act (s.choices s.calls) s.called with
    | none => exact Or.inl (by simp [hr, ha])
    | some p => exact Or.inr ⟨_, p.1, p.2, ha, by simp [hr, ha]⟩

/-- What an open can do: make a file, or open an existing entry, emptying it on `O_TRUNC`. -/
theorem doOpen_cases {name : Name} {flags : Flags} {c : Choice} {s s' : PosixFs} {r : Int}
    (h : doOpen name flags c s = some (r, s')) :
    r = c.fd ∧ 0 ≤ c.fd ∧ s.fds c.fd = none ∧
      ((s.ino? name = none ∧ s.canCreate name = true ∧
          s' = (s.create name .regular).setFd c.fd (some (openFile flags s.fresh))) ∨
        ∃ i, s.ino? name = some i ∧ ((s.inodes i).kind = .directory → flags.has oTrunc = false) ∧
          s' = (if (s.inodes i).kind = .regular ∧ flags.has oTrunc = true then s.setData i []
            else s).setFd c.fd (some (openFile flags i))) := by
  unfold doOpen at h
  split at h
  · cases h
  rename_i hfd
  have hpos : 0 ≤ c.fd := by
    by_contra hneg
    exact hfd (Or.inl (by omega))
  have hnone : s.fds c.fd = none := by
    cases hf : s.fds c.fd with
    | none => rfl
    | some f => exact absurd (Or.inr (by simp [hf])) hfd
  cases hname : s.ino? name with
  | none =>
    simp only [hname] at h
    split at h
    · rename_i hcreate
      have hcan : s.canCreate name = true := by simp_all
      cases h
      exact ⟨rfl, hpos, hnone, Or.inl ⟨rfl, hcan, rfl⟩⟩
    · cases h
  | some i =>
    simp only [hname] at h
    split at h
    · cases h
    cases hkind : (s.inodes i).kind with
    | directory =>
      simp only [hkind] at h
      split at h
      · cases h
      rename_i hdir
      cases h
      exact ⟨rfl, hpos, hnone, Or.inr ⟨i, rfl, fun _ => by simp_all, by simp [hkind]⟩⟩
    | special =>
      simp only [hkind] at h
      cases h
      exact ⟨rfl, hpos, hnone, Or.inr ⟨i, rfl, by simp [hkind], by simp [hkind]⟩⟩
    | regular =>
      simp only [hkind] at h
      cases h
      exact ⟨rfl, hpos, hnone, Or.inr ⟨i, rfl, by simp [hkind], by simp [hkind]⟩⟩

theorem setFd_self (s : PosixFs) (fd : Int) (f : OpenFile) (hf : s.fds fd = some f) :
    s.setFd fd (some f) = s := by
  simp [setFd, ← hf]

/-- A query of the position leaves the state as it is. -/
theorem doLseek_cur (s : PosixFs) (fd : Int) (f : OpenFile) (hf : s.fds fd = some f)
    (hpos : f.pos ≤ maxOffset) :
    doLseek fd 0 seekCur s =
      if (s.inodes f.ino).kind = .special then (-1, s) else ((f.pos : Int), s) := by
  have hsame := setFd_self s fd f hf
  have hbound : ¬ maxOffset < f.pos := by omega
  have hneg : ¬ (f.pos : Int) < 0 := by omega
  have hcur : ¬ seekCur = seekSet := by decide
  simp [doLseek, hf, hcur, hsame, hbound, hneg]

/-- A query of the position changes nothing, even where there is no position. -/
theorem doLseek_cur_state (s : PosixFs) (fd : Int) : (doLseek fd 0 seekCur s).2 = s := by
  cases hf : s.fds fd with
  | none => simp [doLseek, hf]
  | some f =>
    by_cases hpos : f.pos ≤ maxOffset
    · rw [doLseek_cur s fd f hf hpos]
      split <;> rfl
    · have hcur : ¬ seekCur = seekSet := by decide
      have hbound : maxOffset < f.pos := by omega
      simp [doLseek, hf, hcur, hbound]

/-- Seeking moves the position of one open file, within the offsets there are. -/
theorem doLseek_cases (fd offset whence : Int) (s : PosixFs) :
    (doLseek fd offset whence s).2 = s ∨ ∃ f pos, s.fds fd = some f ∧ pos ≤ maxOffset ∧
      (doLseek fd offset whence s).2 = s.setFd fd (some { f with pos := pos }) := by
  unfold doLseek
  cases hf : s.fds fd with
  | none => exact Or.inl rfl
  | some f =>
    dsimp only
    split
    · exact Or.inl rfl
    · split
      · exact Or.inl rfl
      · exact Or.inr ⟨f, _, rfl, by omega, rfl⟩

/-- A store to an open file: where it may happen, and what it changes. -/
theorem storeOpen_cases {f : OpenFile} {pos n : Nat} {buf : List UInt8} {c : Choice}
    {s s' : PosixFs} (h : storeOpen f pos buf c s = some (n, s')) :
    (s.inodes f.ino).kind = .regular ∧ n ≤ buf.length ∧ n ≤ maxRwCount ∧
      (pos ≤ maxOffset → pos + n ≤ maxOffset) ∧ (buf.take n ≠ [] → pos < maxOffset) ∧
      s' = s.setData f.ino (storeAt (s.inodes f.ino).data pos (buf.take n)) := by
  unfold storeOpen at h
  split at h
  · cases h
  rename_i hkind
  split at h
  · cases h
  rename_i hpos
  cases h
  have hreg : (s.inodes f.ino).kind = .regular := by simp_all
  refine ⟨hreg, by omega, by omega, by omega, ?_, rfl⟩
  intro hne
  have hbuf : buf ≠ [] := by
    rintro rfl
    simp at hne
  by_contra hge
  exact hpos ⟨hbuf, by omega⟩

theorem doWrite_cases {fd : Int} {buf : List UInt8} {c : Choice} {s s' : PosixFs} {r : Int}
    (h : doWrite fd buf c s = some (r, s')) :
    ∃ f n pos s₁, s.fds fd = some f ∧
      pos = (if f.append then (s.inodes f.ino).data.length else f.pos) ∧
      storeOpen f pos buf c s = some (n, s₁) ∧ r = n ∧
      s' = s₁.setFd fd (some { f with pos := pos + n }) := by
  unfold doWrite at h
  cases hf : s.fds fd with
  | none => simp [hf] at h
  | some f =>
    simp only [hf, Option.map_eq_some_iff] at h
    obtain ⟨⟨n, s₁⟩, hstore, heq⟩ := h
    cases heq
    exact ⟨f, n, _, s₁, rfl, rfl, hstore, rfl, rfl⟩

theorem doPwrite_cases {fd : Int} {buf : List UInt8} {offset : Int} {c : Choice} {s s' : PosixFs}
    {r : Int} (h : doPwrite fd buf offset c s = some (r, s')) :
    ∃ f n pos, s.fds fd = some f ∧ 0 ≤ offset ∧
      pos = (if f.append then (s.inodes f.ino).data.length else offset.toNat) ∧
      storeOpen f pos buf c s = some (n, s') ∧ r = n := by
  unfold doPwrite at h
  cases hf : s.fds fd with
  | none => simp [hf] at h
  | some f =>
    simp only [hf] at h
    split at h
    · cases h
    rename_i hoffset
    simp only [Option.map_eq_some_iff] at h
    obtain ⟨⟨n, s₁⟩, hstore, heq⟩ := h
    cases heq
    exact ⟨f, n, _, rfl, by omega, rfl, hstore, rfl⟩

/-- A close fails and changes nothing, or it releases an open descriptor, whatever it reports. -/
theorem doClose_cases (fd : Int) (s : PosixFs) :
    doClose fd s = (-1, s.called) ∨ (s.fds fd).isSome = true ∧
      ∃ r, (r = 0 ∨ r = -1) ∧ doClose fd s = (r, s.called.setFd fd none) := by
  unfold doClose
  cases hfd : s.fds fd with
  | none => exact Or.inl (by simp [hfd])
  | some f =>
    cases hrefuse : (s.choices s.calls).refuse with
    | false => exact Or.inr ⟨rfl, 0, Or.inl rfl, by simp [hfd, hrefuse]⟩
    | true =>
      cases hrelease : (s.choices s.calls).release with
      | false => exact Or.inl (by simp [hfd, hrefuse, hrelease])
      | true => exact Or.inr ⟨rfl, -1, Or.inr rfl, by simp [hfd, hrefuse, hrelease]⟩

theorem doMknod_cases {name : Name} {mode : Flags} {c : Choice} {s s' : PosixFs} {r : Int}
    (h : doMknod name mode c s = some (r, s')) : r = 0 ∧ ∃ kind, s' = s.create name kind := by
  unfold doMknod at h
  split at h
  · cases h
    exact ⟨rfl, _, rfl⟩
  · cases h

theorem doMkdir_cases {name : Name} {c : Choice} {s s' : PosixFs} {r : Int}
    (h : doMkdir name c s = some (r, s')) : r = 0 ∧ s' = s.create name .directory := by
  unfold doMkdir at h
  split at h
  · cases h
    exact ⟨rfl, rfl⟩
  · cases h

theorem doUnlink_cases {name : Name} {c : Choice} {s s' : PosixFs} {r : Int}
    (h : doUnlink name c s = some (r, s')) : r = 0 ∧ s' = s.dropName name := by
  unfold doUnlink at h
  split at h
  · cases h
  · split at h
    · cases h
    · cases h
      exact ⟨rfl, rfl⟩

theorem doRemove_cases {name : Name} {c : Choice} {s s' : PosixFs} {r : Int}
    (h : doRemove name c s = some (r, s')) : r = 0 ∧ s' = s.dropName name := by
  unfold doRemove at h
  split at h
  · cases h
  split at h
  · split at h
    · cases h
      exact ⟨rfl, rfl⟩
    · cases h
  · exact doUnlink_cases h

/-- A rename succeeds with 0, and between two names of one file it does nothing. -/
theorem doRename_cases {old new : Name} {c : Choice} {s s' : PosixFs} {r : Int}
    (h : doRename old new c s = some (r, s')) :
    r = 0 ∧ (s.ino? old = s.ino? new → s' = s) := by
  unfold doRename at h
  cases hold : s.ino? old with
  | none => simp [hold] at h
  | some i =>
    simp only [hold] at h
    split at h
    · cases h
      exact ⟨rfl, fun _ => rfl⟩
    split at h
    · cases h
    cases hnew : s.ino? new with
    | none =>
      simp only [hnew] at h
      cases h
      exact ⟨rfl, fun he => by simp at he⟩
    | some j =>
      simp only [hnew] at h
      split at h
      · cases h
        exact ⟨rfl, fun _ => rfl⟩
      rename_i hij
      have hne : ¬ some i = some j := fun he => hij (Option.some.inj he)
      split at h
      · split at h
        · cases h
          exact ⟨rfl, fun he => absurd he hne⟩
        · cases h
      · cases h
        exact ⟨rfl, fun he => absurd he hne⟩
      · cases h

theorem doFsync_cases {fd : Int} {c : Choice} {s s' : PosixFs} {r : Int}
    (h : doFsync fd c s = some (r, s')) : s' = s := by
  unfold doFsync at h
  split at h
  · cases h
    rfl
  · cases h

theorem attempt_doOpen_not_dir (name : Name) (flags : Flags) (s : PosixFs)
    (htrunc : flags.has oTrunc = true) (hres : 0 ≤ (s.attempt (doOpen name flags)).1)
    (i : Nat) (hi : (s.attempt (doOpen name flags)).2.ino? name = some i) :
    ((s.attempt (doOpen name flags)).2.inodes i).kind ≠ .directory := by
  rcases attempt_cases s (doOpen name flags) with hatt | ⟨c, r, s', hopen, hatt⟩
  · simp [hatt] at hres
  rw [hatt] at hi ⊢
  obtain ⟨-, -, -, ⟨-, -, rfl⟩ | ⟨j, hj, hdir, rfl⟩⟩ := doOpen_cases hopen
  · have hfresh : s.fresh = i := by simpa [ino?_create] using hi
    simp [hfresh]
  · have hnot : (s.inodes j).kind ≠ .directory := fun hk => by simp [hdir hk] at htrunc
    have hji : j = i := by
      split at hi <;> exact Option.some.inj (hj.symm.trans hi)
    subst hji
    split <;> simp [hnot]

end PosixFs

open PosixFs in
/-- `DefaultFsFns` over the reference file system. -/
def posix (resolve : Path → Name) : Host PosixFs where
  fnMknod p mode _ s := s.attempt (doMknod (resolve (cStr p)) mode)
  fnMkdir p _ s := s.attempt (doMkdir (resolve (cStr p)))
  fnOpen p flags s := s.attempt (doOpen (resolve (cStr p)) flags)
  fnOpen2 p flags _ s := s.attempt (doOpen (resolve (cStr p)) flags)
  fnLseek fd offset whence s := doLseek fd offset whence s
  fnWrite fd buf s := s.attempt (doWrite fd buf)
  fnPwrite fd buf offset s := s.attempt (doPwrite fd buf offset)
  fnMmap _ _ _ _ _ _ s := (mapFailed, s)
  fnMsync _ _ _ s := (-1, s)
  fnMunmap _ _ s := (-1, s)
  fnFallocate _ _ _ _ s := (-1, s)
  fnClose fd s := doClose fd s
  fnRename old new s := s.attempt (doRename (resolve (cStr old)) (resolve (cStr new)))
  fnUnlink p s := s.attempt (doUnlink (resolve (cStr p)))
  fnRemove p s := s.attempt (doRemove (resolve (cStr p)))
  fnStat p s :=
    match s.ino? (resolve (cStr p)) with
    | none => ((-1, {}), s)
    | some i => ((0, s.statOf i), s)
  fnPathExists p s := ((s.ino? (resolve (cStr p))).isSome, s)
  fnFsync fd s := s.attempt (doFsync fd)
  fnFdatasync fd s := s.attempt (doFsync fd)
  fnSync s := s
  fnSyncFileRange fd _ _ _ s := s.attempt (doFsync fd)
  cmCheckpoint s := (1, s)
  memory _ _ := none
  order := id
  order_perm l := List.Perm.refl l

open PosixFs in
/-- The reference file system never truncates a directory. -/
theorem posix_refusesDirTrunc (resolve : Path → Name) :
    RefusesDirTrunc (posix resolve).toFsFns := by
  have hstat : ∀ p (s : PosixFs),
      (∀ i, s.ino? (resolve (cStr p)) = some i → (s.inodes i).kind ≠ .directory) →
      ((posix resolve).fnStat p s).1.2.isDir = false := by
    intro p s hs
    cases hi : s.ino? (resolve (cStr p)) with
    | none => simp [posix, hi, Stat.isDir, sIfmt, sIfdir]
    | some i =>
      have hk := hs i hi
      cases hkind : (s.inodes i).kind with
      | directory => exact absurd hkind hk
      | regular | special =>
        simp [posix, hi, statOf, Stat.isDir, modeOf, hkind, sIfmt, sIfdir, sIfreg]
  intro p flags s ht
  exact ⟨fun hres => hstat p _ (attempt_doOpen_not_dir _ flags s ht hres),
    fun mode hres => hstat p _ (attempt_doOpen_not_dir _ flags s ht hres)⟩

/-- A file system with an empty root directory whose environment refuses nothing
and hands out the descriptors `first`, `first + 1`, and so on, one for each call. -/
def PosixFs.empty (first : Int) : PosixFs where
  names := [([], 0)]
  inodes _ := ⟨.directory, []⟩
  fresh := 1
  fds _ := none
  choices n := ⟨false, false, maxRwCount, first + n⟩
  calls := 0

end PMTester
