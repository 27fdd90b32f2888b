import PMTester.RedoLog

/-!
# Mods and names that are used again

A descriptor refers to a file, its entry in `fd_map_` to a name. The two part
when the name is removed: from then on the name is absent or belongs to a newer
file, and what is recorded through the descriptor is recorded under that name.
They also part when a `CmClose` fails and releases the descriptor all the same.
-/
namespace PMTester

open Run Word PosixFs RecordCmFsOps

/-- The calls of a run in which names come and go under open descriptors. -/
def NamesReused : CmOp → Prop
  | .open _ _ | .open2 _ _ _ | .write _ _ | .pwrite _ _ _ | .fsync _ | .unlink _ | .remove _
  | .close _ => True
  | _ => False

/-- The file a descriptor is open on. -/
def PosixFs.fileOf (s : PosixFs) (fd : Int) : Option Nat := (s.fds fd).map OpenFile.ino

/-- The descriptor through which a call records something about a file. -/
def CmOp.through : CmOp → Option Int
  | .write fd _ | .pwrite fd _ _ | .fsync fd => some fd
  | _ => none

/-- What the call records through a descriptor is about the file that the recorded path
names at that moment. -/
def Attributes (resolve : Path → Name) (w : World PosixFs) (op : CmOp) : Prop :=
  ∀ fd m, op.through = some fd → (call (posix resolve) op w).2.mods = w.mods ++ [m] →
    ∃ i, w.fs.fileOf fd = some i ∧ w.fs.ino? (resolve (cStr m.path)) = some i

def AttributedRun (resolve : Path → Name) : List CmOp → World PosixFs → Prop :=
  Allowed (fun w op => (call (posix resolve) op w).2) (Attributes resolve)

/-- A recorder, with the descriptors whose name has been removed since they were opened. -/
structure Watched where
  world : World PosixFs
  dead : Int → Bool

/-- A name is there before a step and not after it. -/
def removes (s s' : PosixFs) (name : Name) : Bool := (s.ino? name).isSome && (s'.ino? name).isNone

def Watched.after (resolve : Path → Name) (o : Watched) (w' : World PosixFs) : Watched where
  world := w'
  dead fd :=
    match w'.fdMap fd with
    | none => false
    | some p => o.dead fd || removes o.world.fs w'.fs (resolve (cStr p))

def watch (resolve : Path → Name) (o : Watched) (op : CmOp) : Watched :=
  o.after resolve (call (posix resolve) op o.world).2

/-- The call comes to nothing: its system call fails or, for a write, its path does not exist. -/
def Stopped (resolve : Path → Name) (s : PosixFs) (p : Path) : CmOp → Prop
  | .write fd buf =>
    s.ino? (resolve (cStr p)) = none ∨ ((posix resolve).fnWrite fd buf s).1 < 0
  | .pwrite fd buf offset =>
    s.ino? (resolve (cStr p)) = none ∨ ((posix resolve).fnPwrite fd buf offset s).1 < 0
  | .fsync fd => ((posix resolve).fnFsync fd s).1 < 0
  | _ => True

/-- Through a descriptor whose name has been removed, the call comes to nothing. -/
def Idle (resolve : Path → Name) (o : Watched) (op : CmOp) : Prop :=
  ∀ fd p, op.through = some fd → o.world.fdMap fd = some p → o.dead fd = true →
    Stopped resolve o.world.fs p op

/-- The two states agree on names, kinds of files and what descriptors are open on. -/
structure SameFiles (s s' : PosixFs) : Prop where
  ino? : ∀ name, s'.ino? name = s.ino? name
  fresh : s'.fresh = s.fresh
  kind : ∀ i, (s'.inodes i).kind = (s.inodes i).kind
  fileOf : ∀ fd, s'.fileOf fd = s.fileOf fd

theorem SameFiles.called (s : PosixFs) : SameFiles s s.called :=
  ⟨fun _ => rfl, rfl, fun _ => rfl, fun _ => rfl⟩

theorem SameFiles.trans {s s' s'' : PosixFs} (h : SameFiles s s') (h' : SameFiles s' s'') :
    SameFiles s s'' :=
  ⟨fun name => (h'.ino? name).trans (h.ino? name), h'.fresh.trans h.fresh,
    fun i => (h'.kind i).trans (h.kind i), fun fd => (h'.fileOf fd).trans (h.fileOf fd)⟩

theorem kind_setData (s : PosixFs) (i j : Nat) (data : List UInt8) :
    ((s.setData i data).inodes j).kind = (s.inodes j).kind := by
  by_cases h : j = i
  · simp [h]
  · simp [h]

theorem fileOf_setFd (s : PosixFs) (fd fd' : Int) (f : Option OpenFile) :
    (s.setFd fd f).fileOf fd' = if fd' = fd then f.map OpenFile.ino else s.fileOf fd' := by
  by_cases h : fd' = fd
  · simp [fileOf, setFd, h]
  · simp [fileOf, setFd, h]

theorem SameFiles.write {s s' : PosixFs} {fd : Int} {buf : List UInt8} {c : Choice} {r : Int}
    (h : doWrite fd buf c s = some (r, s')) : SameFiles s s' := by
  obtain ⟨f, n, pos, s₁, hf, -, hstore, -, rfl⟩ := doWrite_cases h
  obtain ⟨-, -, -, -, -, rfl⟩ := storeOpen_cases hstore
  refine ⟨fun _ => rfl, rfl, fun i => kind_setData s _ i _, fun fd' => ?_⟩
  rw [fileOf_setFd]
  split
  · rename_i hfd
    simp [PosixFs.fileOf, hfd, hf]
  · rfl

theorem SameFiles.pwrite {s s' : PosixFs} {fd : Int} {buf : List UInt8} {offset : Int} {c : Choice}
    {r : Int} (h : doPwrite fd buf offset c s = some (r, s')) : SameFiles s s' := by
  obtain ⟨f, n, pos, -, -, -, hstore, -⟩ := doPwrite_cases h
  obtain ⟨-, -, -, -, -, rfl⟩ := storeOpen_cases hstore
  exact ⟨fun _ => rfl, rfl, fun i => kind_setData s _ i _, fun _ => rfl⟩

section

variable {resolve : Path → Name}

/-- Descriptors keep their file; their name is that file's, or has been removed and is now
absent or that of another, regular file. -/
structure Watching (resolve : Path → Name) (o : Watched) : Prop where
  known : ∀ name i, o.world.fs.ino? name = some i → i < o.world.fs.fresh
  file : ∀ fd p, o.world.fdMap fd = some p → ∃ i, o.world.fs.fileOf fd = some i ∧
    i < o.world.fs.fresh
  alive : ∀ fd p i, o.world.fdMap fd = some p → o.dead fd = false →
    o.world.fs.fileOf fd = some i → o.world.fs.ino? (resolve (cStr p)) = some i
  dead : ∀ fd p i j, o.world.fdMap fd = some p → o.dead fd = true →
    o.world.fs.fileOf fd = some i → o.world.fs.ino? (resolve (cStr p)) = some j →
      j ≠ i ∧ (o.world.fs.inodes j).kind = .regular
  entry : ∀ fd, o.dead fd = true → o.world.fdMap fd ≠ none

@[simp] theorem after_world (o : Watched) (w' : World PosixFs) :
    (o.after resolve w').world = w' := rfl

theorem after_dead {o : Watched} {w' : World PosixFs} {fd : Int} {p : Path}
    (hp : (o.after resolve w').world.fdMap fd = some p) : (o.after resolve w').dead fd =
      (o.dead fd || removes o.world.fs w'.fs (resolve (cStr p))) := by
  have hp' : w'.fdMap fd = some p := hp
  simp [Watched.after, hp']

theorem after_entry (o : Watched) (w' : World PosixFs) (fd : Int)
    (h : (o.after resolve w').dead fd = true) : (o.after resolve w').world.fdMap fd ≠ none := by
  intro hnone
  have hnone' : w'.fdMap fd = none := hnone
  simp [Watched.after, hnone'] at h

theorem removes_eq_false {s s' : PosixFs} {name : Name}
    (h : ∀ i, s.ino? name = some i → s'.ino? name = some i) : removes s s' name = false := by
  cases hi : s.ino? name with
  | none => simp [removes, hi]
  | some i => simp [removes, h i hi]

/-- A step that leaves the names and the remaining descriptors alone. -/
theorem Watching.keep {o : Watched} (ho : Watching resolve o) {w' : World PosixFs}
    (hino : ∀ name, w'.fs.ino? name = o.world.fs.ino? name)
    (hfresh : w'.fs.fresh = o.world.fs.fresh)
    (hkind : ∀ i, (w'.fs.inodes i).kind = (o.world.fs.inodes i).kind)
    (hfd : ∀ fd p, w'.fdMap fd = some p →
      o.world.fdMap fd = some p ∧ w'.fs.fileOf fd = o.world.fs.fileOf fd) :
    Watching resolve (o.after resolve w') := by
  have hdead : ∀ fd p, w'.fdMap fd = some p →
      (o.after resolve w').dead fd = o.dead fd := by
    intro fd p hp
    rw [after_dead hp, removes_eq_false fun i hi => (hino _).trans hi, Bool.or_false]
  refine ⟨?_, ?_, ?_, ?_, fun fd h => after_entry _ _ fd h⟩
  · intro name i hi
    rw [after_world, hfresh]
    exact ho.known name i ((hino name).symm.trans hi)
  · intro fd p hp
    obtain ⟨hold, hfile⟩ := hfd fd p hp
    rw [after_world, hfresh, hfile]
    exact ho.file fd p hold
  · intro fd p i hp halive hi
    obtain ⟨hold, hfile⟩ := hfd fd p hp
    rw [after_world, hino]
    exact ho.alive fd p i hold ((hdead fd p hp).symm.trans halive) (hfile.symm.trans hi)
  · intro fd p i j hp hgone hi hj
    obtain ⟨hold, hfile⟩ := hfd fd p hp
    rw [after_world, hkind]
    exact ho.dead fd p i j hold ((hdead fd p hp).symm.trans hgone) (hfile.symm.trans hi)
      ((hino _).symm.trans hj)

theorem Watching.same {o : Watched} (ho : Watching resolve o) {w' : World PosixFs}
    (hfs : SameFiles o.world.fs w'.fs) (hmap : w'.fdMap = o.world.fdMap) :
    Watching resolve (o.after resolve w') :=
  ho.keep hfs.ino? hfs.fresh hfs.kind fun fd p hp => ⟨by rw [← hmap]; exact hp, hfs.fileOf fd⟩

/-- A step after which one name is absent. -/
theorem Watching.remove {o : Watched} (ho : Watching resolve o) (name : Name)
    {w' : World PosixFs} (hfs : w'.fs = o.world.fs.called.dropName name)
    (hmap : w'.fdMap = o.world.fdMap) : Watching resolve (o.after resolve w') := by
  have hino : ∀ other, w'.fs.ino? other =
      if other = name then none else o.world.fs.ino? other := by
    intro other
    rw [hfs, ino?_dropName, ino?_called]
  have hkept : ∀ other i, w'.fs.ino? other = some i →
      other ≠ name ∧ o.world.fs.ino? other = some i := by
    intro other i hi
    rw [hino] at hi
    split at hi
    · cases hi
    · rename_i hne
      exact ⟨hne, hi⟩
  refine ⟨?_, ?_, ?_, ?_, fun fd h => after_entry _ _ fd h⟩
  · intro other i hi
    rw [after_world, hfs]
    exact ho.known other i (hkept other i hi).2
  · intro fd p hp
    rw [after_world, hfs]
    exact ho.file fd p (hmap ▸ hp)
  · intro fd p i hp halive hi
    rw [after_dead hp, Bool.or_eq_false_iff] at halive
    rw [after_world, hfs] at hi
    have hold := ho.alive fd p i (hmap ▸ hp) halive.1 hi
    have hne : resolve (cStr p) ≠ name := by
      intro heq
      have hgone := halive.2
      rw [heq] at hgone hold
      simp [removes, hold, hino] at hgone
    rw [after_world, hino, if_neg hne]
    exact hold
  · intro fd p i j hp hgone hi hj
    obtain ⟨hne, hold⟩ := hkept _ j hj
    have hdead : o.dead fd = true := by
      rw [after_dead hp] at hgone
      simpa [removes, hino, hne, hold] using hgone
    rw [after_world, hfs] at hi ⊢
    exact ho.dead fd p i j (hmap ▸ hp) hdead hi hold

/-- A descriptor that is opened is not in the map yet. -/
theorem Watching.unused {o : Watched} (ho : Watching resolve o) {fd : Int}
    (hfd : o.world.fs.fds fd = none) : o.world.fdMap fd = none := by
  cases hp : o.world.fdMap fd with
  | none => rfl
  | some q =>
    obtain ⟨i, hi, -⟩ := ho.file fd q hp
    simp [fileOf, hfd] at hi

/-- A step that opens a descriptor, on a file that the path names, perhaps a new one. -/
theorem Watching.open {o : Watched} (ho : Watching resolve o) (fs : PosixFs)
    (hknown : ∀ name i, fs.ino? name = some i → i < fs.fresh)
    (hfresh : o.world.fs.fresh ≤ fs.fresh)
    (hkeep : ∀ name i, o.world.fs.ino? name = some i → fs.ino? name = some i)
    (hnew : ∀ name j, fs.ino? name = some j → o.world.fs.ino? name = some j ∨
      j = o.world.fs.fresh ∧ (fs.inodes j).kind = .regular)
    (hkind : ∀ i < o.world.fs.fresh, (fs.inodes i).kind = (o.world.fs.inodes i).kind)
    (hfds : ∀ fd, fs.fileOf fd = o.world.fs.fileOf fd) {fd : Int}
    (hfd : o.world.fs.fds fd = none) (p : Path) (i : Nat)
    (hino : fs.ino? (resolve (cStr p)) = some i) (flags : Flags) {w' : World PosixFs}
    (hfs : w'.fs = fs.setFd fd (some (openFile flags i)))
    (hmap : w'.fdMap = insertFd o.world.fdMap fd p) : Watching resolve (o.after resolve w') := by
  have hnone := ho.unused hfd
  have hfile : ∀ fd', w'.fs.fileOf fd' =
      if fd' = fd then some i else o.world.fs.fileOf fd' := by
    intro fd'
    rw [hfs, fileOf_setFd, hfds]
    rfl
  have hentry : ∀ fd' q, w'.fdMap fd' = some q →
      fd' = fd ∧ p = q ∨ fd' ≠ fd ∧ o.world.fdMap fd' = some q := by
    intro fd' q hq
    rw [hmap, insertFd, hnone] at hq
    by_cases hfd' : fd' = fd
    · subst hfd'
      exact Or.inl ⟨rfl, by simpa using hq⟩
    · exact Or.inr ⟨hfd', by simpa [hfd'] using hq⟩
  have hdead : ∀ fd' q, w'.fdMap fd' = some q → (o.after resolve w').dead fd' = o.dead fd' := by
    intro fd' q hq
    have hstays : removes o.world.fs w'.fs (resolve (cStr q)) = false := by
      rw [hfs]
      exact removes_eq_false fun i hi => hkeep _ i hi
    have hq' : (o.after resolve w').world.fdMap fd' = some q := hq
    rw [after_dead hq', hstays, Bool.or_false]
  refine ⟨?_, ?_, ?_, ?_, fun fd h => after_entry _ _ fd h⟩
  · intro name j hj
    rw [after_world, hfs] at hj ⊢
    exact hknown name j hj
  · intro fd' q hq
    rw [after_world, hfile]
    have hfresh' : w'.fs.fresh = fs.fresh := by rw [hfs]; rfl
    rcases hentry fd' q hq with ⟨rfl, rfl⟩ | ⟨hne, hold⟩
    · exact ⟨i, by simp, hfresh' ▸ hknown _ i hino⟩
    · obtain ⟨j, hj, hlt⟩ := ho.file fd' q hold
      exact ⟨j, by rw [if_neg hne]; exact hj, by omega⟩
  · intro fd' q j hq halive hj
    rw [after_world, hfile] at hj
    rw [after_world, hfs]
    rcases hentry fd' q hq with ⟨rfl, rfl⟩ | ⟨hne, hold⟩
    · have hij : i = j := by simpa using hj
      exact hij ▸ hino
    · rw [if_neg hne] at hj
      exact hkeep _ j (ho.alive fd' q j hold ((hdead fd' q hq).symm.trans halive) hj)
  · intro fd' q j k hq hgone hj hk
    have hwas : o.dead fd' = true := (hdead fd' q hq).symm.trans hgone
    rw [after_world, hfile] at hj
    rw [after_world, hfs] at hk ⊢
    rcases hentry fd' q hq with ⟨rfl, rfl⟩ | ⟨hne, hold⟩
    · exact absurd hnone (ho.entry fd' hwas)
    · rw [if_neg hne] at hj
      rcases hnew _ k hk with hk' | ⟨rfl, hreg⟩
      · obtain ⟨hkj, hreg⟩ := ho.dead fd' q j k hold hwas hj hk'
        exact ⟨hkj, (hkind k (ho.known _ k hk')).trans hreg⟩
      · obtain ⟨j', hj', hlt⟩ := ho.file fd' q hold
        have hjj : j = j' := Option.some.inj (hj.symm.trans hj')
        exact ⟨by omega, hreg⟩

theorem opened_watching {o : Watched} (ho : Watching resolve o) {p : Path} {flags : Flags}
    {w' : World PosixFs} (hopen : Opened resolve p flags o.world w') :
    Watching resolve (o.after resolve w') := by
  cases hopen with
  | failed => exact ho.same (SameFiles.called _) rfl
  | created fd m hfd hino hcan ht hp =>
    refine ho.open (o.world.fs.called.create (resolve (cStr p)) .regular) ?_ (Nat.le_succ _) ?_ ?_ ?_
      (fun _ => rfl) hfd p _ (by simp [ino?_create]) flags rfl rfl
    · intro name i hi
      rw [ino?_create] at hi
      show i < o.world.fs.fresh + 1
      split at hi
      · have hi' : o.world.fs.fresh = i := Option.some.inj hi
        omega
      · have hlt := ho.known name i hi
        omega
    · intro name i hi
      have hne : name ≠ resolve (cStr p) := by
        rintro rfl
        simp [hino] at hi
      simp [ino?_create, hne, hi]
    · intro name j hj
      rw [ino?_create] at hj
      split at hj
      · have hj' : o.world.fs.fresh = j := Option.some.inj hj
        exact Or.inr ⟨hj'.symm, by simp [← hj']⟩
      · exact Or.inl hj
    · intro i hi
      have hne : i ≠ o.world.fs.fresh := by omega
      simp [hne]
  | opened fd i hfd hino =>
    exact ho.open o.world.fs.called ho.known (Nat.le_refl _) (fun _ _ hi => hi)
      (fun _ _ hj => Or.inl hj) (fun _ _ => rfl) (fun _ => rfl) hfd p i hino flags rfl rfl
  | emptied fd i m hfd hino ht hopt hp =>
    split
    · exact ho.open (o.world.fs.called.setData i []) ho.known (Nat.le_refl _) (fun _ _ hi => hi)
        (fun _ _ hj => Or.inl hj) (fun j _ => kind_setData _ _ _ _) (fun _ => rfl) hfd p i hino
        flags rfl rfl
    · exact ho.open o.world.fs.called ho.known (Nat.le_refl _) (fun _ _ hi => hi)
        (fun _ _ hj => Or.inl hj) (fun _ _ => rfl) (fun _ => rfl) hfd p i hino flags rfl rfl

/-- What a call records through a descriptor: nothing when it is stopped, else one mod under the
recorded path. Names and descriptors stay as they are. -/
structure Reports (w w' : World PosixFs) (p : Path) (stopped : Prop) : Prop where
  nothing : stopped → w'.mods = w.mods
  something : ¬ stopped → ∃ m, m.path = p ∧ w'.mods = w.mods ++ [m]
  files : SameFiles w.fs w'.fs
  map : w'.fdMap = w.fdMap

theorem SameFiles.refl (s : PosixFs) : SameFiles s s :=
  ⟨fun _ => rfl, rfl, fun _ => rfl, fun _ => rfl⟩

/-- A call that only leaves a possibly changed file system behind. -/
theorem Reports.quiet {w : World PosixFs} {s' : PosixFs} (h : SameFiles w.fs s') (p : Path)
    {stopped : Prop} (hstopped : stopped) : Reports w { w with fs := s' } p stopped :=
  ⟨fun _ => rfl, fun hgoes => absurd hstopped hgoes, h, rfl⟩

theorem Reports.push {w : World PosixFs} {s' : PosixFs} (h : SameFiles w.fs s') (m : DiskMod)
    {stopped : Prop} (hgoes : ¬ stopped) :
    Reports w (World.push { w with fs := s' } m) m.path stopped :=
  ⟨fun hstopped => absurd hstopped hgoes, fun _ => ⟨m, rfl, rfl⟩, h, rfl⟩

/-- The second half of a write through a descriptor whose path names a file. -/
theorem recordWrite_reports {w : World PosixFs} {s' : PosixFs} (h : SameFiles w.fs s') {p : Path}
    {j : Nat} (hj : w.fs.ino? (resolve (cStr p)) = some j) (pre : Stat) (location : UInt64)
    {buf : List UInt8} {n : Nat} (hn : n ≤ buf.length) {stopped : Prop} (hgoes : ¬ stopped) :
    Reports w (recordWrite (posix resolve) p pre location buf n { w with fs := s' }).2 p
      stopped := by
  rw [recordWrite_posix p pre location buf n _ j ((h.ino? _).trans hj) hn]
  exact Reports.push h _ hgoes

theorem cmWrite_reports {w : World PosixFs} {fd : Int} {buf : List UInt8} {p : Path}
    (hp : w.fdMap fd = some p)
    (hkind : ∀ i j, w.fs.fileOf fd = some i → w.fs.ino? (resolve (cStr p)) = some j →
      (w.fs.inodes i).kind = .regular → (w.fs.inodes j).kind = .regular) :
    Reports w (cmWrite (posix resolve) fd buf w).2 p
      (Stopped resolve w.fs p (.write fd buf)) := by
  cases hj : w.fs.ino? (resolve (cStr p)) with
  | none =>
    have hcall : (cmWrite (posix resolve) fd buf w).2 = { w with fs := w.fs } := by
      simp [cmWrite, hp, posix, hj]
    rw [hcall]
    exact Reports.quiet (SameFiles.refl _) p (Or.inl hj)
  | some j =>
    have hwrite : (posix resolve).fnWrite fd buf w.fs = w.fs.attempt (doWrite fd buf) := rfl
    rcases attempt_cases w.fs (doWrite fd buf) with hatt | ⟨c, r, s', hdo, hatt⟩
    · rw [hatt] at hwrite
      rw [cmWrite_posix_failed hp hj hwrite]
      exact Reports.quiet (SameFiles.called _) p (Or.inr (by simp [hwrite]))
    · obtain ⟨f, n, pos, s₁, hf, -, hstore, rfl, -⟩ := doWrite_cases hdo
      obtain ⟨hreg, hn, hmax, -, -, -⟩ := storeOpen_cases hstore
      rw [hatt] at hwrite
      have hfile : w.fs.fileOf fd = some f.ino := by
        simp [fileOf, show w.fs.fds fd = some f from hf]
      rw [cmWrite_posix_stored hp hj (hkind f.ino j hfile hj hreg) hmax hwrite]
      have hsame : SameFiles w.fs s' := (SameFiles.called _).trans (SameFiles.write hdo)
      exact recordWrite_reports hsame hj _ _ hn (by simp [Stopped, hj, hwrite])

theorem cmPwrite_reports {w : World PosixFs} {fd : Int} {buf : List UInt8} {offset : Int}
    {p : Path} (hp : w.fdMap fd = some p)
    (hkind : ∀ i j, w.fs.fileOf fd = some i → w.fs.ino? (resolve (cStr p)) = some j →
      (w.fs.inodes i).kind = .regular → (w.fs.inodes j).kind = .regular) :
    Reports w (cmPwrite (posix resolve) fd buf offset w).2 p
      (Stopped resolve w.fs p (.pwrite fd buf offset)) := by
  cases hj : w.fs.ino? (resolve (cStr p)) with
  | none =>
    have hcall : (cmPwrite (posix resolve) fd buf offset w).2 = { w with fs := w.fs } := by
      simp [cmPwrite, hp, posix, hj]
    rw [hcall]
    exact Reports.quiet (SameFiles.refl _) p (Or.inl hj)
  | some j =>
    have hwrite : (posix resolve).fnPwrite fd buf offset w.fs =
        w.fs.attempt (doPwrite fd buf offset) := rfl
    rcases attempt_cases w.fs (doPwrite fd buf offset) with hatt | ⟨c, r, s', hdo, hatt⟩
    · rw [hatt] at hwrite
      rw [cmPwrite_posix_failed hp hj hwrite]
      exact Reports.quiet (SameFiles.called _) p (Or.inr (by simp [hwrite]))
    · obtain ⟨f, n, pos, hf, -, -, hstore, rfl⟩ := doPwrite_cases hdo
      obtain ⟨hreg, hn, hmax, -, -, -⟩ := storeOpen_cases hstore
      rw [hatt] at hwrite
      have hfile : w.fs.fileOf fd = some f.ino := by
        simp [fileOf, show w.fs.fds fd = some f from hf]
      rw [cmPwrite_posix_stored hp hj (hkind f.ino j hfile hj hreg) hmax hwrite]
      have hsame : SameFiles w.fs s' := (SameFiles.called _).trans (SameFiles.pwrite hdo)
      exact recordWrite_reports hsame hj _ _ hn (by simp [Stopped, hj, hwrite])

theorem SameFiles.fsync (resolve : Path → Name) (s : PosixFs) (fd : Int) :
    SameFiles s ((posix resolve).fnFsync fd s).2 := by
  show SameFiles s (s.attempt (doFsync fd)).2
  rcases attempt_cases s (doFsync fd) with hatt | ⟨c, r, s', hdo, hatt⟩
  · rw [hatt]
    exact SameFiles.called _
  · rw [hatt, doFsync_cases hdo]
    exact SameFiles.called _

theorem cmFsync_reports {w : World PosixFs} {fd : Int} {p : Path} (hp : w.fdMap fd = some p) :
    Reports w (cmFsync (posix resolve) fd w).2 p (Stopped resolve w.fs p (.fsync fd)) := by
  have hsame := SameFiles.fsync resolve w.fs fd
  by_cases hres : ((posix resolve).fnFsync fd w.fs).1 < 0
  · have hcall : (cmFsync (posix resolve) fd w).2 =
        { w with fs := ((posix resolve).fnFsync fd w.fs).2 } := by
      simp [cmFsync, fsyncWith, hres]
    rw [hcall]
    exact Reports.quiet hsame p hres
  · simp only [cmFsync, fsyncWith, hres, hp, ↓reduceIte]
    exact Reports.push hsame _ hres

/-- What a call records through a descriptor that has an entry. -/
theorem Watching.reports {o : Watched} (ho : Watching resolve o) (op : CmOp) {fd : Int} {p : Path}
    (hthrough : op.through = some fd) (hp : o.world.fdMap fd = some p) :
    Reports o.world (call (posix resolve) op o.world).2 p (Stopped resolve o.world.fs p op) := by
  have hkind : ∀ i j, o.world.fs.fileOf fd = some i →
      o.world.fs.ino? (resolve (cStr p)) = some j →
      (o.world.fs.inodes i).kind = .regular → (o.world.fs.inodes j).kind = .regular := by
    intro i j hi hj hreg
    cases hdead : o.dead fd with
    | false =>
      have hij : i = j := Option.some.inj ((ho.alive fd p i hp hdead hi).symm.trans hj)
      exact hij ▸ hreg
    | true => exact (ho.dead fd p i j hp hdead hi hj).2
  cases op with
  | write fd' buf =>
    cases hthrough
    exact cmWrite_reports hp hkind
  | pwrite fd' buf offset =>
    cases hthrough
    exact cmPwrite_reports hp hkind
  | fsync fd' =>
    cases hthrough
    exact cmFsync_reports hp
  | mknod | mkdir | «open» | open2 | lseek | mmap | msync | munmap | fallocate | close | rename
  | unlink | remove | fdatasync | sync | syncFileRange | checkpoint => cases hthrough

/-- A descriptor without an entry: `at` throws, if not before the system call then after it. -/
theorem reports_no_entry (resolve : Path → Name) {w : World PosixFs} (op : CmOp) {fd : Int}
    (hthrough : op.through = some fd) (hnone : w.fdMap fd = none) (p : Path) :
    Reports w (call (posix resolve) op w).2 p True := by
  cases op with
  | write fd' buf =>
    cases hthrough
    have hcall : (call (posix resolve) (.write fd buf) w).2 = { w with fs := w.fs } := by
      simp [call, cmWrite, hnone]
    rw [hcall]
    exact Reports.quiet (SameFiles.refl _) p trivial
  | pwrite fd' buf offset =>
    cases hthrough
    have hcall : (call (posix resolve) (.pwrite fd buf offset) w).2 = { w with fs := w.fs } := by
      simp [call, cmPwrite, hnone]
    rw [hcall]
    exact Reports.quiet (SameFiles.refl _) p trivial
  | fsync fd' =>
    cases hthrough
    have hcall : (call (posix resolve) (.fsync fd) w).2 =
        { w with fs := ((posix resolve).fnFsync fd w.fs).2 } := by
      simp only [call, cmFsync, fsyncWith, hnone]
      split <;> rfl
    rw [hcall]
    exact Reports.quiet (SameFiles.fsync _ _ _) p trivial
  | mknod | mkdir | «open» | open2 | lseek | mmap | msync | munmap | fallocate | close | rename
  | unlink | remove | fdatasync | sync | syncFileRange | checkpoint => cases hthrough

theorem Watching.through {o : Watched} (ho : Watching resolve o) (op : CmOp) {fd : Int}
    (hthrough : op.through = some fd) : Watching resolve (watch resolve o op) := by
  cases hp : o.world.fdMap fd with
  | none =>
    have hreports := reports_no_entry resolve op hthrough hp []
    exact ho.same hreports.files hreports.map
  | some p =>
    have hreports := ho.reports op hthrough hp
    exact ho.same hreports.files hreports.map

theorem Watching.removeWith {o : Watched} (ho : Watching resolve o)
    (fnRemove : Path → PosixFs → Int × PosixFs)
    (act : Choice → PosixFs → Option (Int × PosixFs)) (p : Path)
    (hfn : fnRemove (cStr p) o.world.fs = o.world.fs.attempt act)
    (hact : ∀ c s r s', act c s = some (r, s') → r = 0 ∧ s' = s.dropName (resolve (cStr p))) :
    Watching resolve (o.after resolve (RecordCmFsOps.removeWith fnRemove p o.world).2) := by
  rcases attempt_cases o.world.fs act with hatt | ⟨c, r, s', hdo, hatt⟩
  · rw [hatt] at hfn
    have hcall : (RecordCmFsOps.removeWith fnRemove p o.world).2 =
        { o.world with fs := o.world.fs.called } := by
      simp [RecordCmFsOps.removeWith, hfn]
    rw [hcall]
    exact ho.same (SameFiles.called _) rfl
  · obtain ⟨rfl, rfl⟩ := hact c _ r s' hdo
    rw [hatt] at hfn
    simp only [RecordCmFsOps.removeWith, hfn, Int.lt_irrefl, ↓reduceIte]
    exact ho.remove (resolve (cStr p)) rfl rfl

/-- One call keeps the invariant. -/
theorem watch_watching (o : Watched) (op : CmOp) (ho : Watching resolve o) (hop : NamesReused op)
    (hclose : CloseKeeps o.world op) : Watching resolve (watch resolve o op) := by
  cases op with
  | «open» p flags =>
    exact opened_watching ho (openWith_opened _ p flags o.world fun s => by simp [posix, cStr_cStr])
  | open2 p flags mode =>
    exact opened_watching ho (openWith_opened _ p flags o.world fun s => by simp [posix, cStr_cStr])
  | write fd buf => exact ho.through _ rfl
  | pwrite fd buf offset => exact ho.through _ rfl
  | fsync fd => exact ho.through _ rfl
  | unlink p =>
    exact ho.removeWith _ (doUnlink (resolve (cStr p))) p (by simp [posix, cStr_cStr])
      fun _ _ _ _ h => doUnlink_cases h
  | remove p =>
    exact ho.removeWith _ (doRemove (resolve (cStr p))) p (by simp [posix, cStr_cStr])
      fun _ _ _ _ h => doRemove_cases h
  | close fd =>
    have hfn : (posix resolve).fnClose fd o.world.fs = doClose fd o.world.fs := rfl
    rcases hclose.cases with hfail | hclosed
    · rw [hfail] at hfn
      have hcall : (call (posix resolve) (.close fd) o.world).2 =
          { o.world with fs := o.world.fs.called } := by
        simp [call, cmClose, hfn]
      rw [watch, hcall]
      exact ho.same (SameFiles.called _) rfl
    · rw [hclosed] at hfn
      have hcall : (call (posix resolve) (.close fd) o.world).2 =
          { o.world with
            fs := o.world.fs.called.setFd fd none,
            fdMap := Function.update o.world.fdMap fd none } := by
        simp [call, cmClose, hfn]
      rw [watch, hcall]
      refine ho.keep (fun _ => rfl) rfl (fun _ => rfl) ?_
      intro fd' p hp
      have hne : fd' ≠ fd := by
        rintro rfl
        simp at hp
      refine ⟨by simpa [hne] using hp, ?_⟩
      show (o.world.fs.called.setFd fd none).fileOf fd' = _
      rw [fileOf_setFd, if_neg hne]
      rfl
  | mknod | mkdir | lseek | mmap | msync | munmap | fallocate | rename | fdatasync | sync
  | syncFileRange | checkpoint => exact absurd hop id

/-- What a call records is about the file that the path names, exactly when a call through a
descriptor whose name has been removed comes to nothing. -/
theorem attributes_iff (o : Watched) (op : CmOp) (ho : Watching resolve o) :
    Attributes resolve o.world op ↔ Idle resolve o op := by
  cases hthrough : op.through with
  | none => simp [Attributes, Idle, hthrough]
  | some fd =>
    cases hp : o.world.fdMap fd with
    | none =>
      have hnothing := (reports_no_entry resolve op hthrough hp []).nothing trivial
      constructor
      · intro _ fd' p hthrough' hp'
        cases hthrough.symm.trans hthrough'
        simp [hp] at hp'
      · intro _ fd' m _ hm
        simp [hnothing] at hm
    | some p =>
      have hreports := ho.reports op hthrough hp
      obtain ⟨i, hi, -⟩ := ho.file fd p hp
      constructor
      · intro hattributes fd' p' hthrough' hp' hdead
        cases hthrough.symm.trans hthrough'
        cases hp.symm.trans hp'
        by_contra hgoes
        obtain ⟨m, rfl, hm⟩ := hreports.something hgoes
        obtain ⟨j, hj, hname⟩ := hattributes fd m hthrough hm
        exact (ho.dead fd _ j j hp hdead hj hname).1 rfl
      · intro hidle fd' m hthrough' hm
        cases hthrough.symm.trans hthrough'
        have hgoes : ¬ Stopped resolve o.world.fs p op := by
          intro hstopped
          have hnothing := hreports.nothing hstopped
          rw [hm] at hnothing
          simp at hnothing
        obtain ⟨m', hpath, hm'⟩ := hreports.something hgoes
        have hmm : m = m' := by simpa using hm.symm.trans hm'
        cases hdead : o.dead fd with
        | false => exact ⟨i, hi, by rw [hmm, hpath]; exact ho.alive fd p i hp hdead hi⟩
        | true => exact absurd (hidle fd p hthrough hp hdead) hgoes

/-- Where no `CmClose` fails and releases an open descriptor, whatever a run records through
descriptors is about the file that the recorded path names at that moment, exactly when every call
through a descriptor whose name has been removed comes to nothing. -/
theorem attributed_iff (resolve : Path → Name) (s : PosixFs)
    (hs : ∀ name i, s.ino? name = some i → i < s.fresh) (ops : List CmOp)
    (hops : ∀ op ∈ ops, NamesReused op) (hclose : CloseKeepsRun resolve ops (World.start s)) :
    AttributedRun resolve ops (World.start s) ↔
      Allowed (watch resolve) (Idle resolve) ops ⟨World.start s, fun _ => false⟩ := by
  have hstart : Watching resolve ⟨World.start s, fun _ => false⟩ :=
    ⟨hs, fun fd p hp => by simp [World.start] at hp, fun fd p i hp => by simp [World.start] at hp,
      fun fd p i j hp => by simp [World.start] at hp, fun fd hdead => by simp at hdead⟩
  have hworld : AttributedRun resolve ops (World.start s) ↔
      Allowed (watch resolve) (fun o op => Attributes resolve o.world op) ops
        ⟨World.start s, fun _ => false⟩ :=
    (allowed_part Watched.world (fun _ _ => rfl) ops ⟨World.start s, fun _ => false⟩).symm
  rw [hworld]
  have hkeeps : Allowed (watch resolve) (fun o op => CloseKeeps o.world op) ops
      ⟨World.start s, fun _ => false⟩ :=
    (allowed_part Watched.world (fun _ _ => rfl) ops _).mpr hclose
  exact allowed_congr (Watching resolve) (fun o op ho hop => watch_watching o op ho hop.1 hop.2)
    (fun o op ho _ => attributes_iff o op ho) ops _ hstart
    ((allowed_of_forall _ _ ops hops _).and hkeeps)

end

/-- A file is written through its descriptor, removed and made again. -/
def reusedName : List CmOp :=
  [.open2 (path ['/', 'f']) (oCreat ||| oRdwr) 0o644#32, .write 3 [1], .unlink (path ['/', 'f']),
    .write 3 [2], .open2 (path ['/', 'f']) (oCreat ||| oRdwr) 0o644#32]

theorem attributed_iff_reusedName :
    AttributedRun splitPath reusedName (World.start (PosixFs.empty 3)) := by
  refine (attributed_iff splitPath _ (empty_wellFormed 3).known reusedName
    (by simp [reusedName, NamesReused]) ⟨trivial, trivial, trivial, trivial, trivial, trivial⟩).mpr
    ⟨?_, ?_, ?_, ?_, ?_, trivial⟩
  · intro fd p hthrough
    cases hthrough
  · intro fd p hthrough hp hdead
    cases hthrough
    exact absurd hdead (by decide +kernel)
  · intro fd p hthrough
    cases hthrough
  · intro fd p hthrough hp hdead
    cases hthrough
    have hpath : path ['/', 'f'] = p := by
      apply Option.some.inj
      rw [← hp]
      decide +kernel
    exact Or.inl (by rw [← hpath]; decide +kernel)
  · intro fd p hthrough
    cases hthrough

/-- A write through the descriptor of the removed file is recorded as one to the new file. -/
theorem newer_file_blamed :
    ¬ AttributedRun splitPath (reusedName ++ [.write 3 [3]]) (World.start (PosixFs.empty 3)) := by
  rintro ⟨-, -, -, -, -, hlast, -⟩
  obtain ⟨i, hi, hname⟩ := hlast 3 {
    fileModLocation := 1, fileModLen := 1, path := path ['/', 'f'], modType := .kDataMod,
    postModStats := { stIno := 2, stMode := sIfreg }, fileModData := [3] } rfl (by decide +kernel)
  have hold : i = 1 := by
    apply Option.some.inj
    rw [← hi]
    decide +kernel
  have hnew : i = 2 := by
    apply Option.some.inj
    rw [← hname]
    decide +kernel
  omega

end PMTester
