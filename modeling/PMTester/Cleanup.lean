import PMTester.Phases

/-!
# What a run leaves behind

The library of the test class, the test object made from it, and the mount of
the record device. Whatever the system answers, each is released once and not
used after that. Only the exits after a socket error skip the cleanup.
-/
namespace PMTester

open Script

/-- What `dlsym` has found. -/
structure Symbol where
  handle : Nat
  name : Path
  address : Nat
  deriving DecidableEq, Repr

/-- A test object, and the function that made it. -/
structure TestObject where
  factory : Nat
  instance_ : Nat
  deriving DecidableEq, Repr

/-- What a run holds and has destroyed, and which of its calls have failed. The symbols are those of
the open handles. -/
structure Held where
  handles : List Nat := []
  symbols : List Symbol := []
  objects : List TestObject := []
  destroyed : List Nat := []
  recordMounted : Bool := false
  /-- The last attempt to unmount the record device. -/
  umountFailed : Bool := false
  socketFailed : Bool := false

namespace Held

/-- A mount command that exits with 0 has mounted the device. -/
def mounted (s : Held) (mountPoint : Path) (status : Int) : Held :=
  if mountPoint = mntPointRecord ∧ status = 0 then { s with recordMounted := true } else s

def note (s : Held) : (q : HarnessCall) → q.Answer → Held
  | .dlopen _, some handle => { s with handles := handle :: s.handles }
  | .dlsym handle name, some address => { s with symbols := ⟨handle, name, address⟩ :: s.symbols }
  | .dlclose handle, _ =>
    { s with
      handles := s.handles.erase handle
      symbols := s.symbols.filter fun found => found.handle ≠ handle }
  | .create factory, instance_ => { s with objects := ⟨factory, instance_⟩ :: s.objects }
  | .destroy _ instance_, _ =>
    { s with
      objects := s.objects.filter fun o => o.instance_ ≠ instance_
      destroyed := instance_ :: s.destroyed }
  | .system (.mkfs _ _ mountPoint), status => s.mounted mountPoint status
  | .system (.mount _ _ mountPoint), status => s.mounted mountPoint status
  | .umount target, .ok _ =>
    if target = mntPointRecord then { s with recordMounted := false, umountFailed := false } else s
  | .umount target, .error _ =>
    if target = mntPointRecord then { s with umountFailed := true } else s
  | .connect _ _, none => { s with socketFailed := true }
  | .send _, n => if n < 0 then { s with socketFailed := true } else s
  | _, _ => s

end Held

/-- Every answer may come. -/
def anyAnswer : Env HarnessCall HarnessCall.Answer Held := fun s q a s' => s' = s.note q a

/-- Where the test class is. -/
inductive Loading where
  | absent
  | opened (handle : Nat)
  | found (handle factory : Nat)
  | ready (handle factory defactory : Nat)
  | loaded (handle factory defactory instance_ : Nat)
  | deleted (handle factory defactory instance_ : Nat)
  /-- The library was closed again, with the object that was destroyed. -/
  | closed (instance_ : Option Nat)

namespace Loading

def handles : Loading → List Nat
  | .absent | .closed _ => []
  | .opened handle | .found handle _ | .ready handle _ _ | .loaded handle _ _ _
  | .deleted handle _ _ _ => [handle]

def symbols : Loading → List Symbol
  | .absent | .opened _ | .closed _ => []
  | .found handle factory => [⟨handle, Tester.testClassFactory, factory⟩]
  | .ready handle factory defactory | .loaded handle factory defactory _
  | .deleted handle factory defactory _ =>
    [⟨handle, Tester.testClassDefactory, defactory⟩, ⟨handle, Tester.testClassFactory, factory⟩]

def objects : Loading → List TestObject
  | .loaded _ factory _ instance_ => [⟨factory, instance_⟩]
  | _ => []

def destroyed : Loading → List Nat
  | .deleted _ _ _ instance_ => [instance_]
  | .closed instance_ => instance_.toList
  | _ => []

end Loading

structure Owned where
  loading : Loading
  socketFailed : Bool
  /-- Nothing was mounted since the last attempt to unmount. -/
  umounted : Bool

namespace Owned

def start : Owned := ⟨.absent, false, true⟩

/-- A command that may mount the record device. -/
def mounts (g : Owned) (mountPoint : Path) : Owned :=
  if mountPoint = mntPointRecord then { g with umounted := false } else g

end Owned

/-- Questions that neither take nor release anything. -/
def Inert : HarnessCall → Prop
  | .dlopen _ | .dlsym _ _ | .dlclose _ | .create _ | .destroy _ _ | .initValues _ _ _
  | .testRun _ _ _ | .connect _ _ | .send _ | .umount _ | .system (.mkfs _ _ _)
  | .system (.mount _ _ _) => False
  | _ => True

inductive OwnStep : Protocol HarnessCall HarnessCall.Answer Owned
  | inert {g : Owned} {q : HarnessCall} (h : Inert q) (a : q.Answer) : OwnStep g q a g
  | dlopenFailed {b c : Bool} (path : Path) :
      OwnStep ⟨.absent, b, c⟩ (.dlopen path) none ⟨.absent, b, c⟩
  | dlopen {b c : Bool} (path : Path) (handle : Nat) :
      OwnStep ⟨.absent, b, c⟩ (.dlopen path) (some handle) ⟨.opened handle, b, c⟩
  | dlsymFailed {g : Owned} {handle : Nat} (h : g.loading.handles = [handle]) (name : Path) :
      OwnStep g (.dlsym handle name) none g
  | dlsymFactory {b c : Bool} {handle : Nat} (factory : Nat) :
      OwnStep ⟨.opened handle, b, c⟩ (.dlsym handle Tester.testClassFactory) (some factory)
        ⟨.found handle factory, b, c⟩
  | dlsymDefactory {b c : Bool} {handle factory : Nat} (defactory : Nat) :
      OwnStep ⟨.found handle factory, b, c⟩ (.dlsym handle Tester.testClassDefactory)
        (some defactory) ⟨.ready handle factory defactory, b, c⟩
  | create {b c : Bool} {handle factory defactory : Nat} (instance_ : Nat) :
      OwnStep ⟨.ready handle factory defactory, b, c⟩ (.create factory) instance_
        ⟨.loaded handle factory defactory instance_, b, c⟩
  | initValues {b c : Bool} {handle factory defactory instance_ : Nat} (mountDir : Path)
      (filesysSize : Int) :
      OwnStep ⟨.loaded handle factory defactory instance_, b, c⟩
        (.initValues (some instance_) mountDir filesysSize) ()
        ⟨.loaded handle factory defactory instance_, b, c⟩
  | testRun {b c : Bool} {handle factory defactory instance_ : Nat} (changeFd checkpoint res : Int) :
      OwnStep ⟨.loaded handle factory defactory instance_, b, c⟩
        (.testRun (some instance_) changeFd checkpoint) res
        ⟨.loaded handle factory defactory instance_, b, c⟩
  | destroy {b c : Bool} {handle factory defactory instance_ : Nat} :
      OwnStep ⟨.loaded handle factory defactory instance_, b, c⟩
        (.destroy (some defactory) instance_) () ⟨.deleted handle factory defactory instance_, b, c⟩
  | dlcloseOpened {b c : Bool} (handle : Nat) :
      OwnStep ⟨.opened handle, b, c⟩ (.dlclose handle) () ⟨.closed none, b, c⟩
  | dlcloseFound {b c : Bool} {factory : Nat} (handle : Nat) :
      OwnStep ⟨.found handle factory, b, c⟩ (.dlclose handle) () ⟨.closed none, b, c⟩
  | dlcloseDeleted {b c : Bool} {factory defactory instance_ : Nat} (handle : Nat) :
      OwnStep ⟨.deleted handle factory defactory instance_, b, c⟩ (.dlclose handle) ()
        ⟨.closed (some instance_), b, c⟩
  | mkfs {g : Owned} (c : FSCommands) (devPath mountPoint : Path) (status : Int) :
      OwnStep g (.system (.mkfs c devPath mountPoint)) status (g.mounts mountPoint)
  | mount {g : Owned} (c : FSCommands) (devPath mountPoint : Path) (status : Int) :
      OwnStep g (.system (.mount c devPath mountPoint)) status (g.mounts mountPoint)
  | umount {g : Owned} (res : Except Int Unit) :
      OwnStep g (.umount mntPointRecord) res { g with umounted := true }
  | connect {g : Owned} (addr : Path) (port : UInt32) (sockfd : Option Nat) :
      OwnStep g (.connect addr port) sockfd { g with socketFailed := g.socketFailed || sockfd.isNone }
  | send {g : Owned} (line : Path) (n : Int) :
      OwnStep g (.send line) n { g with socketFailed := g.socketFailed || decide (n < 0) }

/-- The state of the system where the program is at this point. -/
structure Holds (g : Owned) (s : Held) : Prop where
  handles : s.handles = g.loading.handles
  symbols : s.symbols = g.loading.symbols
  objects : s.objects = g.loading.objects
  destroyed : s.destroyed = g.loading.destroyed
  socketFailed : s.socketFailed = g.socketFailed
  umounted : g.umounted = true → s.recordMounted = true → s.umountFailed = true

theorem Holds.start : Holds .start {} :=
  ⟨rfl, rfl, rfl, rfl, rfl, fun _ h => by cases h⟩

theorem note_inert {q : HarnessCall} (hq : Inert q) (a : q.Answer) (s : Held) : s.note q a = s := by
  cases q with
  | system command =>
    cases command with
    | mkfs c devPath mountPoint => exact absurd hq id
    | mount c devPath mountPoint => exact absurd hq id
    | _ => rfl
  | dlopen _ | dlsym _ _ | dlclose _ | create _ | destroy _ _ | initValues _ _ _ | testRun _ _ _
  | connect _ _ | send _ | umount _ => exact absurd hq id
  | _ => rfl

theorem Holds.mounts {g : Owned} {s : Held} (h : Holds g s) (mountPoint : Path) (status : Int) :
    Holds (g.mounts mountPoint) (s.mounted mountPoint status) := by
  unfold Owned.mounts Held.mounted
  by_cases hpoint : mountPoint = mntPointRecord
  · rw [if_pos hpoint]
    by_cases hstatus : status = 0
    · rw [if_pos ⟨hpoint, hstatus⟩]
      exact ⟨h.handles, h.symbols, h.objects, h.destroyed, h.socketFailed, nofun⟩
    · rw [if_neg fun hboth => hstatus hboth.2]
      exact ⟨h.handles, h.symbols, h.objects, h.destroyed, h.socketFailed, nofun⟩
  · rw [if_neg hpoint, if_neg fun hboth => hpoint hboth.1]
    exact h

/-- A step that changes the test class only. -/
theorem Holds.reload {g : Owned} {s s' : Held} (h : Holds g s) (loading : Loading)
    (hhandles : s'.handles = loading.handles) (hsymbols : s'.symbols = loading.symbols)
    (hobjects : s'.objects = loading.objects) (hdestroyed : s'.destroyed = loading.destroyed)
    (hrest : s' = { s with
      handles := s'.handles
      symbols := s'.symbols
      objects := s'.objects
      destroyed := s'.destroyed }) :
    Holds { g with loading := loading } s' := by
  refine ⟨hhandles, hsymbols, hobjects, hdestroyed, ?_, ?_⟩
  · rw [hrest]
    exact h.socketFailed
  · rw [hrest]
    exact h.umounted

/-- Every step of the program keeps the account. -/
theorem Holds.step (g : Owned) (q : HarnessCall) (a : q.Answer) (g' : Owned) (s s' : Held)
    (hstep : OwnStep g q a g') (hs' : anyAnswer s q a s') (h : Holds g s) : Holds g' s' := by
  have hnote : s' = s.note q a := hs'
  subst hnote
  have hhandles := h.handles
  have hsymbols := h.symbols
  have hobjects := h.objects
  have hdestroyed := h.destroyed
  cases hstep with
  | inert hq a =>
    rw [note_inert hq]
    exact h
  | dlopenFailed path => exact h
  | dlopen path handle =>
    exact h.reload (.opened handle) (by simp [Held.note, hhandles, Loading.handles]) hsymbols
      hobjects hdestroyed rfl
  | dlsymFailed _ name => exact h
  | dlsymFactory factory =>
    exact h.reload (.found _ factory) hhandles
      (by simp [Held.note, hsymbols, Loading.symbols]) hobjects hdestroyed rfl
  | dlsymDefactory defactory =>
    exact h.reload (.ready _ _ defactory) hhandles
      (by simp [Held.note, hsymbols, Loading.symbols]) hobjects hdestroyed rfl
  | create instance_ =>
    exact h.reload (.loaded _ _ _ instance_) hhandles hsymbols
      (by simp [Held.note, hobjects, Loading.objects]) hdestroyed rfl
  | initValues mountDir filesysSize => exact h
  | testRun changeFd checkpoint res => exact h
  | destroy =>
    exact h.reload (.deleted _ _ _ _) hhandles hsymbols
      (by simp [Held.note, hobjects, Loading.objects])
      (by simp [Held.note, hdestroyed, Loading.destroyed]) rfl
  | dlcloseOpened handle =>
    exact h.reload (.closed none) (by simp [Held.note, hhandles, Loading.handles])
      (by simp [Held.note, hsymbols, Loading.symbols]) hobjects hdestroyed rfl
  | dlcloseFound handle =>
    exact h.reload (.closed none) (by simp [Held.note, hhandles, Loading.handles])
      (by simp [Held.note, hsymbols, Loading.symbols]) hobjects hdestroyed rfl
  | dlcloseDeleted handle =>
    exact h.reload (.closed (some _)) (by simp [Held.note, hhandles, Loading.handles])
      (by simp [Held.note, hsymbols, Loading.symbols]) hobjects hdestroyed rfl
  | mkfs c devPath mountPoint status => exact h.mounts mountPoint status
  | mount c devPath mountPoint status => exact h.mounts mountPoint status
  | umount res =>
    cases res with
    | error errno => exact ⟨hhandles, hsymbols, hobjects, hdestroyed, h.socketFailed, fun _ _ => rfl⟩
    | ok _ =>
      exact ⟨hhandles, hsymbols, hobjects, hdestroyed, h.socketFailed,
        fun _ hmounted => by cases hmounted⟩
  | connect addr port sockfd =>
    cases sockfd with
    | none => exact ⟨hhandles, hsymbols, hobjects, hdestroyed, by simp [Held.note], h.umounted⟩
    | some _ =>
      exact ⟨hhandles, hsymbols, hobjects, hdestroyed, by simpa [Held.note] using h.socketFailed,
        h.umounted⟩
  | send line n =>
    by_cases hn : n < 0
    · simp only [Held.note, hn, if_true]
      exact ⟨hhandles, hsymbols, hobjects, hdestroyed, by simp, h.umounted⟩
    · simp only [Held.note, hn, if_false]
      exact ⟨hhandles, hsymbols, hobjects, hdestroyed, by simpa using h.socketFailed, h.umounted⟩

/-- The tester's loader where the test class is. -/
def Loads (l : ClassLoader) : Loading → Prop
  | .absent | .closed _ => l = {}
  | .loaded handle factory defactory instance_ =>
    l = ⟨some handle, some factory, some defactory, some instance_⟩
  | _ => False

def Unloaded : Loading → Prop
  | .absent | .closed _ => True
  | _ => False

theorem Unloaded.nothing {l : Loading} (h : Unloaded l) :
    l.handles = [] ∧ l.objects = [] ∧ l.destroyed.length ≤ 1 := by
  cases l with
  | absent => exact ⟨rfl, rfl, Nat.zero_le 1⟩
  | closed instance_ =>
    refine ⟨rfl, rfl, ?_⟩
    cases instance_ with
    | none => exact Nat.zero_le 1
    | some _ => exact Nat.le_refl 1
  | _ => exact absurd h id

/-- After a return the class is unloaded and the device unmounted as far as that is possible, but
for the returns after a socket error. -/
def Released (e : MainExit) (g : Owned) : Prop :=
  ∀ code, e = .returned code →
    if g.socketFailed then
      ∃ handle factory defactory instance_, g.loading = .loaded handle factory defactory instance_
    else Unloaded g.loading ∧ g.umounted = true

section

variable {l : Loading} {b c : Bool} {t : Tester}

/-- A question that takes and releases nothing. -/
theorem owns_ask {R : Type} {done : R → Owned → Prop} {q : HarnessCall} {f : q.Answer → Harness R}
    {g : Owned} (hf : ∀ a, Follows OwnStep done (f a) g) (hq : Inert q := by exact trivial) :
    Follows OwnStep done (ask q >>= f) g :=
  fun a => ⟨g, .inert hq a, hf a⟩

theorem owns_inert {R' R : Type} {done : R → Owned → Prop} {x : Harness R'} {post : R' → Prop}
    {f : R' → Harness R} {g : Owned} (hx : x.Only Inert post)
    (hf : ∀ r, post r → Follows OwnStep done (f r) g) : Follows OwnStep done (x >>= f) g :=
  hx.follows (fun _ a hq => .inert hq a) hf

theorem owns_loadClass (classPath : Path) :
    Follows OwnStep
      (fun r g => ∃ l, g = ⟨l, b, c⟩ ∧ Loads r.2 l ∧
        if r.1 = Tester.success then
          ∃ handle factory defactory instance_, l = .loaded handle factory defactory instance_
        else Unloaded l)
      (ClassLoader.loadClass {} classPath Tester.testClassFactory Tester.testClassDefactory)
      ⟨.absent, b, c⟩ := by
  intro opened
  cases opened with
  | none => exact ⟨_, .dlopenFailed classPath, .absent, rfl, rfl, trivial⟩
  | some handle =>
    refine ⟨_, .dlopen classPath handle, ?_⟩
    intro factory
    cases factory with
    | none =>
      exact ⟨_, .dlsymFailed rfl _, fun _ =>
        ⟨_, .dlcloseOpened handle, .closed none, rfl, rfl, trivial⟩⟩
    | some factory =>
      refine ⟨_, .dlsymFactory factory, ?_⟩
      intro defactory
      cases defactory with
      | none =>
        exact ⟨_, .dlsymFailed rfl _, fun _ =>
          ⟨_, .dlcloseFound handle, .closed none, rfl, rfl, trivial⟩⟩
      | some defactory =>
        refine ⟨_, .dlsymDefactory defactory, ?_⟩
        intro instance_
        exact ⟨_, .create instance_, _, rfl, rfl, _, _, _, _, rfl⟩

theorem owns_testUnloadClass (ht : Loads t.testLoader l) :
    Follows OwnStep (fun _ g => ∃ l, g = ⟨l, b, c⟩ ∧ Unloaded l) t.testUnloadClass ⟨l, b, c⟩ := by
  unfold Tester.testUnloadClass ClassLoader.unloadClass
  cases l with
  | absent =>
    have hloader : t.testLoader = {} := ht
    rw [hloader]
    exact ⟨_, rfl, trivial⟩
  | closed instance_ =>
    have hloader : t.testLoader = {} := ht
    rw [hloader]
    exact ⟨_, rfl, trivial⟩
  | loaded handle factory defactory instance_ =>
    have hloader : t.testLoader = ⟨some handle, some factory, some defactory, some instance_⟩ := ht
    rw [hloader]
    exact fun _ => ⟨_, .destroy, fun _ => ⟨_, .dlcloseDeleted handle, _, rfl, trivial⟩⟩
  | opened _ | found _ _ | ready _ _ _ | deleted _ _ _ _ => exact absurd ht id

theorem owns_umountDevice (ht : Loads t.testLoader l) :
    Follows OwnStep (fun r g => g = ⟨l, b, true⟩ ∧ Loads r.2.2.testLoader l) t.umountDevice
      ⟨l, b, c⟩ := by
  intro res
  refine ⟨_, .umount res, ?_⟩
  cases res with
  | error errno => exact ⟨rfl, ht⟩
  | ok _ => exact ⟨rfl, ht⟩

theorem owns_umountLoop (rounds : Nat) (ht : Loads t.testLoader l) :
    Follows OwnStep (fun r g => ∀ x ∈ r, g = ⟨l, b, true⟩ ∧ Loads x.2.testLoader l)
      (Tester.umountLoop rounds t) ⟨l, b, c⟩ := by
  induction rounds generalizing t c with
  | zero =>
    intro x hx
    cases hx
  | succ rounds ih =>
    rw [Tester.umountLoop, follows_bind]
    apply (owns_umountDevice ht).mono
    rintro ⟨umountRes, err, t'⟩ g ⟨rfl, ht'⟩
    dsimp only
    split
    · refine owns_ask fun _ => ?_
      split
      · exact ih ht'
      · rintro x ⟨⟩
        exact ⟨rfl, ht'⟩
    · rintro x ⟨⟩
      exact ⟨rfl, ht'⟩

theorem owns_cleanupHarness (rounds : Nat) (ht : Loads t.testLoader l) :
    Follows OwnStep (fun r g => r.isSome = true → ∃ l, g = ⟨l, b, true⟩ ∧ Unloaded l)
      (t.cleanupHarness rounds) ⟨l, b, c⟩ := by
  rw [Tester.cleanupHarness, follows_bind]
  apply (owns_umountLoop rounds ht).mono
  rintro (_ | ⟨umountRes, t'⟩) g hloop
  · exact nofun
  · obtain ⟨rfl, ht'⟩ := hloop _ rfl
    rw [follows_bind]
    apply (owns_testUnloadClass ht').mono
    rintro t'' g hunloaded
    split
    · exact fun _ => hunloaded
    · exact fun _ => hunloaded

theorem owns_giveUp (rounds : Nat) (ht : Loads t.testLoader l) :
    Follows OwnStep Released (Main.giveUp rounds t) ⟨l, false, c⟩ := by
  rw [Main.giveUp, follows_bind]
  apply (owns_cleanupHarness rounds ht).mono
  rintro (_ | t') g hclean
  · exact nofun
  · obtain ⟨l, rfl, hunloaded⟩ := hclean rfl
    exact fun _ _ => ⟨hunloaded, rfl⟩

section Connected

variable {handle factory defactory instance_ : Nat}
  (ht : Loads t.testLoader (.loaded handle factory defactory instance_))

/-- A command that cannot be sent ends the run where it is. -/
theorem owns_command (sockfd : Nat) (msg : SockMessage) {next : Harness MainExit}
    (h : Follows OwnStep Released next ⟨.loaded handle factory defactory instance_, false, c⟩) :
    Follows OwnStep Released (Main.command sockfd msg next)
      ⟨.loaded handle factory defactory instance_, false, c⟩ := by
  intro n
  refine ⟨_, .send _ n, ?_⟩
  have hsock : ¬ (sockfd : Int) < 0 := by omega
  change Follows _ _
    (if (ClientSocket.sendCommand sockfd (fun _ => n) msg).1 ≠ .eNone then _ else _) _
  by_cases hn : n < 0
  · rw [if_pos (by simp [ClientSocket.sendCommand, hsock, hn])]
    intro _ _
    simp [hn]
  · rw [if_neg (by simp [ClientSocket.sendCommand, hsock, hn])]
    refine owns_ask fun _ => ?_
    simpa [hn] using h

theorem owns_mountDevice {R : Type} {done : R → Owned → Prop} (fsc : FSCommands)
    (devicePath mountPoint : Path) {f : Int → Harness R}
    (hf : ∀ res c, Follows OwnStep done (f res) ⟨l, b, c⟩) :
    Follows OwnStep done (Tester.mountDevice fsc devicePath mountPoint >>= f) ⟨l, b, c⟩ := by
  intro status
  refine ⟨_, .mount fsc devicePath mountPoint status, ?_⟩
  unfold Owned.mounts
  split <;> exact hf _ _

include ht

variable {next : Tester → Harness MainExit}
  (h : ∀ (t : Tester) (c : Bool), Loads t.testLoader (.loaded handle factory defactory instance_) →
    Follows OwnStep Released (next t) ⟨.loaded handle factory defactory instance_, false, c⟩)

include h

theorem owns_unmountNova (rounds : Nat) : Follows OwnStep Released
    (Main.prepare.unmountNova rounds t next)
    ⟨.loaded handle factory defactory instance_, false, c⟩ := by
  unfold Main.prepare.unmountNova
  split
  · rw [follows_bind]
    apply (owns_umountDevice ht).mono
    rintro ⟨res, err, t'⟩ g ⟨rfl, ht'⟩
    dsimp only
    split
    · exact owns_giveUp rounds ht'
    · exact h t' _ ht'
  · exact h t _ ht

theorem owns_remountNova (rounds : Nat) (fsc : FSCommands) : Follows OwnStep Released
    (Main.prepare.remountNova rounds fsc t next)
    ⟨.loaded handle factory defactory instance_, false, c⟩ := by
  unfold Main.prepare.remountNova
  split
  · apply owns_mountDevice
    intro res c
    split
    · exact owns_giveUp rounds ht
    · exact h t c ht
  · exact h t c ht

theorem owns_prepare (rounds : Nat) (fsc : FSCommands) : Follows OwnStep Released
    (Main.prepare rounds fsc t next) ⟨.loaded handle factory defactory instance_, false, c⟩ := by
  unfold Main.prepare
  intro formatted
  refine ⟨_, .mkfs fsc t.recordDevicePath mntPointRecord formatted, ?_⟩
  change Follows _ _ (if (if formatted ≠ 0 then _ else _) ≠ _ then _ else _) _
  rw [Owned.mounts, if_pos rfl]
  split
  · exact owns_giveUp rounds ht
  · apply owns_unmountNova ht
    intro t c ht
    refine owns_ask fun snapped => ?_
    change Follows _ _ (if (if snapped ≠ 0 then _ else _) ≠ _ then _ else _) _
    split
    · exact owns_giveUp rounds ht
    · refine owns_ask fun restored => ?_
      change Follows _ _ (if (if restored ≠ 0 then _ else _) ≠ _ then _ else _) _
      split
      · exact owns_giveUp rounds ht
      · apply owns_remountNova ht
        intro t c ht
        exact owns_ask fun _ => h t c ht

theorem owns_runTest (rounds : Nat) : Follows OwnStep Released (Main.runTest rounds t next)
    ⟨.loaded handle factory defactory instance_, false, c⟩ := by
  unfold Main.runTest
  refine owns_ask fun _ => owns_ask fun forked => ?_
  cases forked with
  | failed => exact owns_giveUp rounds ht
  | child =>
    refine owns_ask fun changeFd => ?_
    split
    · exact nofun
    · have hloader : t.testLoader = ⟨some handle, some factory, some defactory, some instance_⟩ := ht
      rw [hloader]
      intro res
      exact ⟨_, .testRun changeFd 0 res, owns_ask fun _ => nofun⟩
  | parent =>
    refine owns_ask fun status => ?_
    split
    · exact owns_giveUp rounds ht
    · refine owns_ask fun changeFd => ?_
      split
      · exact owns_giveUp rounds ht
      · refine owns_ask fun offset => ?_
        split
        · exact owns_giveUp rounds ht
        · refine owns_ask fun answer => ?_
          obtain ⟨env, file⟩ := answer
          dsimp only
          split
          · exact nofun
          · split
            · exact owns_giveUp rounds ht
            · exact h _ _ ht
          · exact nofun
          · exact nofun

end Connected

theorem AboutDisks.inert (q : HarnessCall) (h : AboutDisks q) : Inert q := by
  cases q with
  | compare c => trivial
  | sanityChecks => trivial
  | _ => exact absurd h id

theorem owns_testCheck (ht : Loads t.testLoader l) (fsc : FSCommands) (devicePath : Path) :
    Follows OwnStep
      (fun r g => ∃ c, g = ⟨l, b, c⟩ ∧ match r with
        | .error e => ∀ code, e ≠ .returned code
        | .ok t => Loads t.testLoader l)
      (t.testCheck fsc devicePath) ⟨l, b, c⟩ := by
  unfold Tester.testCheck
  apply owns_mountDevice
  intro res c
  split
  · exact ⟨c, rfl, ht⟩
  · apply owns_mountDevice
    intro res c
    split
    · exact ⟨c, rfl, ht⟩
    · refine owns_ask fun _ => owns_ask fun _ => owns_ask fun _ => owns_ask fun _ => ?_
      split
      · exact ⟨c, rfl, by simp⟩
      · apply owns_inert ((Tester.only_askLoop _).mono AboutDisks.inert)
        rintro (retVal | _ | _) -
        · exact owns_ask fun _ => ⟨c, rfl, ht⟩
        · exact ⟨c, rfl, by simp⟩
        · exact ⟨c, rfl, by simp⟩

theorem owns_finish (ht : Loads t.testLoader l) (rounds : Nat) (fsc : FSCommands) (s : Settings) :
    Follows OwnStep Released (Main.finish rounds fsc s t) ⟨l, false, c⟩ := by
  rw [Main.finish, follows_bind]
  apply (owns_testCheck ht fsc s.replayDevicePath).mono
  rintro (e | t) g ⟨c, rfl, ht⟩
  · exact fun code he => absurd he (ht code)
  · refine owns_ask fun _ => ?_
    rw [follows_bind]
    apply (owns_cleanupHarness rounds ht).mono
    rintro (_ | t') g hclean
    · exact nofun
    · obtain ⟨l, rfl, hunloaded⟩ := hclean rfl
      exact owns_ask fun _ _ _ => ⟨hunloaded, rfl⟩

theorem owns_connected {handle factory defactory instance_ : Nat}
    (ht : Loads t.testLoader (.loaded handle factory defactory instance_)) (rounds : Nat)
    (fresh : SockMessage) (fsc : FSCommands) (s : Settings) (sockfd : Nat) :
    Follows OwnStep Released (Main.connected rounds fresh fsc s t sockfd)
      ⟨.loaded handle factory defactory instance_, false, c⟩ := by
  apply owns_prepare ht
  intro t c ht
  apply owns_command
  apply owns_runTest ht
  intro t c ht
  apply owns_command
  rw [follows_bind]
  apply (owns_umountDevice ht).mono
  rintro ⟨res, err, t⟩ g ⟨rfl, ht⟩
  dsimp only
  split
  · exact owns_giveUp rounds ht
  · apply owns_command
    apply owns_command
    exact owns_finish ht rounds fsc s

end

theorem main_owns (rounds : Nat) (fresh : SockMessage) (opts : List Opt) (files : List Path) :
    Follows OwnStep Released (Main.main rounds fresh opts files) .start := by
  have hnothing : Released (.returned (-1)) .start := fun _ _ => ⟨trivial, rfl⟩
  unfold Main.main
  split
  · exact hnothing
  · exact hnothing
  · split
    · exact nofun
    · rw [follows_bind, Tester.testLoadClass, follows_bind]
      apply (owns_loadClass _).mono
      rintro ⟨res, loader⟩ g ⟨l, rfl, hloads, hres⟩
      change Follows _ _ (if res ≠ _ then _ else _) _
      by_cases hsuccess : res = Tester.success
      · rw [if_neg (not_not.mpr hsuccess)]
        dsimp only at hres
        rw [if_pos hsuccess] at hres
        obtain ⟨handle, factory, defactory, instance_, rfl⟩ := hres
        have hloader : loader = ⟨some handle, some factory, some defactory, some instance_⟩ := hloads
        rw [hloader]
        refine fun _ => ⟨_, .initValues _ _, fun sockfd => ⟨_, .connect _ _ sockfd, ?_⟩⟩
        cases sockfd with
        | none => exact fun _ _ => ⟨_, _, _, _, rfl⟩
        | some sockfd =>
          exact owns_connected (t := { testLoader := _, .. }) rfl rounds fresh _ _ sockfd
      · rw [if_pos hsuccess]
        exact owns_giveUp rounds hloads

/-- What a run takes is used while it holds it and released once, with the function of the library
that made it, and what is left at the end depends on whether a socket call has failed. -/
structure ReleasesAll (x : Harness MainExit) : Prop where
  dlclose : ∀ handle s, Asks anyAnswer x {} (.dlclose handle) s →
    s.handles = [handle] ∧ s.objects = []
  create : ∀ factory s, Asks anyAnswer x {} (.create factory) s →
    s.objects = [] ∧ s.destroyed = [] ∧
      ∃ handle, s.handles = [handle] ∧ ⟨handle, Tester.testClassFactory, factory⟩ ∈ s.symbols
  destroy : ∀ defactory instance_ s, Asks anyAnswer x {} (.destroy defactory instance_) s →
    s.destroyed = [] ∧ ∃ handle factory function, defactory = some function ∧
      s.handles = [handle] ∧ s.objects = [⟨factory, instance_⟩] ∧
      ⟨handle, Tester.testClassFactory, factory⟩ ∈ s.symbols ∧
      ⟨handle, Tester.testClassDefactory, function⟩ ∈ s.symbols
  initValues : ∀ instance_ mountDir size s,
    Asks anyAnswer x {} (.initValues instance_ mountDir size) s →
      s.handles.length = 1 ∧ ∃ object, instance_ = some object.instance_ ∧ s.objects = [object]
  testRun : ∀ instance_ changeFd checkpoint s,
    Asks anyAnswer x {} (.testRun instance_ changeFd checkpoint) s →
      s.handles.length = 1 ∧ ∃ object, instance_ = some object.instance_ ∧ s.objects = [object]
  ends : ∀ code s, ComesTo anyAnswer x {} (.returned code) s →
    if s.socketFailed then s.handles.length = 1 ∧ s.objects.length = 1 ∧ s.destroyed = []
    else s.handles = [] ∧ s.objects = [] ∧ s.destroyed.length ≤ 1 ∧
      (s.recordMounted = true → s.umountFailed = true)

/-- Where a question is asked, the account is that of a place where it may be asked. -/
theorem main_asks {rounds : Nat} {fresh : SockMessage} {opts : List Opt} {files : List Path}
    {q : HarnessCall} {s : Held} (h : Asks anyAnswer (Main.main rounds fresh opts files) {} q s)
    (a : q.Answer) : ∃ g g', Holds g s ∧ OwnStep g q a g' := by
  obtain ⟨g, hg, hplace⟩ := (main_owns rounds fresh opts files).asks Holds.start Holds.step h
  obtain ⟨g', hstep⟩ := hplace a
  exact ⟨g, g', hg, hstep⟩

/-- Whatever it is answered, a run of the program releases all it takes, unless it ends with an
error of the socket. -/
theorem main_releases (rounds : Nat) (fresh : SockMessage) (opts : List Opt) (files : List Path) :
    ReleasesAll (Main.main rounds fresh opts files) := by
  constructor
  · intro handle s h
    obtain ⟨g, g', hg, hstep⟩ := main_asks h ()
    cases hstep with
    | inert hq _ => exact absurd hq id
    | dlcloseOpened handle => exact ⟨hg.handles, hg.objects⟩
    | dlcloseFound handle => exact ⟨hg.handles, hg.objects⟩
    | dlcloseDeleted handle => exact ⟨hg.handles, hg.objects⟩
  · intro factory s h
    obtain ⟨g, g', hg, hstep⟩ := main_asks h 0
    cases hstep with
    | inert hq _ => exact absurd hq id
    | create _ =>
      exact ⟨hg.objects, hg.destroyed, _, hg.handles, by simp [hg.symbols, Loading.symbols]⟩
  · intro defactory instance_ s h
    obtain ⟨g, g', hg, hstep⟩ := main_asks h ()
    cases hstep with
    | inert hq _ => exact absurd hq id
    | destroy =>
      exact ⟨hg.destroyed, _, _, _, rfl, hg.handles, hg.objects,
        by simp [hg.symbols, Loading.symbols], by simp [hg.symbols, Loading.symbols]⟩
  · intro instance_ mountDir size s h
    obtain ⟨g, g', hg, hstep⟩ := main_asks h ()
    cases hstep with
    | inert hq _ => exact absurd hq id
    | initValues mountDir size =>
      exact ⟨congrArg List.length hg.handles, _, rfl, hg.objects⟩
  · intro instance_ changeFd checkpoint s h
    obtain ⟨g, g', hg, hstep⟩ := main_asks h 0
    cases hstep with
    | inert hq _ => exact absurd hq id
    | testRun changeFd checkpoint res =>
      exact ⟨congrArg List.length hg.handles, _, rfl, hg.objects⟩
  · intro code s h
    obtain ⟨g, hg, hdone⟩ :=
      (main_owns rounds fresh opts files).ends Holds.start Holds.step h
    have hreleased := hdone code rfl
    have hhandles := hg.handles
    have hobjects := hg.objects
    have hdestroyed := hg.destroyed
    have hsocket := hg.socketFailed
    cases hfailed : g.socketFailed with
    | true =>
      rw [hfailed] at hreleased hsocket
      obtain ⟨handle, factory, defactory, instance_, hloading⟩ := hreleased
      rw [hloading] at hhandles hobjects hdestroyed
      rw [if_pos hsocket, hhandles, hobjects, hdestroyed]
      exact ⟨rfl, rfl, rfl⟩
    | false =>
      rw [hfailed] at hreleased hsocket
      obtain ⟨hunloaded, humounted⟩ := hreleased
      rw [if_neg (by simp [hsocket]), hhandles, hobjects, hdestroyed]
      exact ⟨hunloaded.nothing.1, hunloaded.nothing.2.1, hunloaded.nothing.2.2,
        hg.umounted humounted⟩

end PMTester
