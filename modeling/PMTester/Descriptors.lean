import PMTester.Lib.Run
import PMTester.Posix

/-!
# The descriptor map

Over any kernel that hands out unused descriptor numbers, `fd_map_` names the
path of the most recent open of every open descriptor. Two calls can spoil
this: `CmFallocate` on a number that is not open, whose `operator[]` leaves an
entry that the `insert` of a later open keeps, and a `CmClose` that fails after
the kernel has released the descriptor.
-/
namespace PMTester

open Run RecordCmFsOps

/-- The same descriptors are open. -/
def Keeps {σ : Type} (isOpen : σ → Int → Prop) (s s' : σ) : Prop := ∀ fd, isOpen s' fd ↔ isOpen s fd

theorem Keeps.trans {σ : Type} {isOpen : σ → Int → Prop} {s s' s'' : σ}
    (h : Keeps isOpen s s') (h' : Keeps isOpen s' s'') : Keeps isOpen s s'' :=
  fun fd => (h' fd).trans (h fd)

/-- An open returns a number that was not in use, or none. -/
def Opens {σ : Type} (isOpen : σ → Int → Prop) (s : σ) (r : Int × σ) : Prop :=
  if r.1 < 0 then Keeps isOpen s r.2
  else ¬isOpen s r.1 ∧ isOpen r.2 r.1 ∧ ∀ fd, fd ≠ r.1 → (isOpen r.2 fd ↔ isOpen s fd)

/-- A successful close releases the number; a failed one may release it too. -/
def Closes {σ : Type} (isOpen : σ → Int → Prop) (fd : Int) (s : σ) (r : Int × σ) : Prop :=
  (¬r.1 < 0 → ¬isOpen r.2 fd) ∧ (isOpen r.2 fd → isOpen s fd) ∧
    ∀ fd', fd' ≠ fd → (isOpen r.2 fd' ↔ isOpen s fd')

/-- What the calls below the wrapper do to the descriptors in use. -/
structure DescriptorTable {σ : Type} (fns : FsFns σ) (isOpen : σ → Int → Prop) : Prop where
  «open» : ∀ p flags s, Opens isOpen s (fns.fnOpen p flags s)
  open2 : ∀ p flags mode s, Opens isOpen s (fns.fnOpen2 p flags mode s)
  close : ∀ fd s, Closes isOpen fd s (fns.fnClose fd s)
  mknod : ∀ p mode dev s, Keeps isOpen s (fns.fnMknod p mode dev s).2
  mkdir : ∀ p mode s, Keeps isOpen s (fns.fnMkdir p mode s).2
  lseek : ∀ fd offset whence s, Keeps isOpen s (fns.fnLseek fd offset whence s).2
  write : ∀ fd buf s, Keeps isOpen s (fns.fnWrite fd buf s).2
  pwrite : ∀ fd buf offset s, Keeps isOpen s (fns.fnPwrite fd buf offset s).2
  mmap : ∀ addr length prot flags fd offset s,
    Keeps isOpen s (fns.fnMmap addr length prot flags fd offset s).2
  msync : ∀ addr length flags s, Keeps isOpen s (fns.fnMsync addr length flags s).2
  munmap : ∀ addr length s, Keeps isOpen s (fns.fnMunmap addr length s).2
  fallocate : ∀ fd mode offset len s, Keeps isOpen s (fns.fnFallocate fd mode offset len s).2
  unlink : ∀ p s, Keeps isOpen s (fns.fnUnlink p s).2
  remove : ∀ p s, Keeps isOpen s (fns.fnRemove p s).2
  stat : ∀ p s, Keeps isOpen s (fns.fnStat p s).2
  pathExists : ∀ p s, Keeps isOpen s (fns.fnPathExists p s).2
  fsync : ∀ fd s, Keeps isOpen s (fns.fnFsync fd s).2
  fdatasync : ∀ fd s, Keeps isOpen s (fns.fnFdatasync fd s).2
  sync : ∀ s, Keeps isOpen s (fns.fnSync s)
  syncFileRange : ∀ fd offset nbytes flags s,
    Keeps isOpen s (fns.fnSyncFileRange fd offset nbytes flags s).2
  checkpoint : ∀ s, Keeps isOpen s (fns.cmCheckpoint s).2

/-- The pathname that the most recent `CmOpen` returning each descriptor was given. -/
def noteOpen (op : CmOp) (res : CmResult) (opened : Int → Option Path) : Int → Option Path :=
  match op, res with
  | .open p _, .ret fd | .open2 p _ _, .ret fd =>
    if fd < 0 then opened else Function.update opened fd (some p)
  | _, _ => opened

/-- A recorder together with what an observer of its calls knows about the descriptors. -/
structure Observed (σ : Type) where
  world : World σ
  opened : Int → Option Path

section

variable {σ : Type} (h : Host σ)

def observe (o : Observed σ) (op : CmOp) : Observed σ :=
  ⟨(call h op o.world).2, noteOpen op (call h op o.world).1 o.opened⟩

def openedBy (ops : List CmOp) (fs : σ) : Int → Option Path :=
  (ops.foldl (observe h) ⟨World.start fs, fun _ => none⟩).opened

/-- No rename, `CmFallocate` only on open descriptors, and no `CmClose` that fails and
releases the descriptor all the same. -/
def Careful (isOpen : σ → Int → Prop) (w : World σ) : CmOp → Prop
  | .rename _ _ => False
  | .fallocate fd _ _ _ => isOpen w.fs fd
  | .close fd =>
    (h.fnClose fd w.fs).1 < 0 → isOpen w.fs fd → isOpen (h.fnClose fd w.fs).2 fd
  | _ => True

def CarefulRun (isOpen : σ → Int → Prop) : List CmOp → World σ → Prop :=
  Allowed (fun w op => (call h op w).2) (Careful h isOpen)

end

/-- Only open descriptors have an entry, and the entry of one that was returned by `CmOpen`
is the path it was last opened with. -/
structure Mapped {σ : Type} (isOpen : σ → Int → Prop) (o : Observed σ) : Prop where
  entry_open : ∀ fd, o.world.fdMap fd ≠ none → isOpen o.world.fs fd
  names : ∀ fd p, isOpen o.world.fs fd → o.opened fd = some p → o.world.fdMap fd = some p

section

variable {σ : Type} {h : Host σ} {isOpen : σ → Int → Prop}

/-- The call leaves the map and the open descriptors alone. -/
def Quiet (isOpen : σ → Int → Prop) (w w' : World σ) : Prop :=
  w'.fdMap = w.fdMap ∧ Keeps isOpen w.fs w'.fs

theorem recordWrite_quiet (hd : DescriptorTable h.toFsFns isOpen) (p : Path) (pre : Stat)
    (location : UInt64) (buf : List UInt8) (res : Int) (w : World σ) :
    Quiet isOpen w (recordWrite h p pre location buf res w).2 := by
  simp only [recordWrite]
  split
  · exact ⟨rfl, hd.stat _ _⟩
  split
  · exact ⟨rfl, hd.stat _ _⟩
  · exact ⟨rfl, hd.stat _ _⟩

theorem cmWrite_quiet (hd : DescriptorTable h.toFsFns isOpen) (fd : Int) (buf : List UInt8)
    (w : World σ) : Quiet isOpen w (cmWrite h fd buf w).2 := by
  simp only [cmWrite]
  split
  · exact ⟨rfl, fun _ => Iff.rfl⟩
  rename_i p hp
  have hstat := hd.stat p w.fs
  have hseek := hstat.trans (hd.lseek fd 0 seekCur _)
  have hwrite := hseek.trans (hd.write fd buf _)
  split
  · exact ⟨rfl, hstat⟩
  split
  · exact ⟨rfl, hseek⟩
  split
  · exact ⟨rfl, hwrite⟩
  split
  · exact ⟨rfl, hwrite⟩
  · obtain ⟨hmap, hkeep⟩ := recordWrite_quiet hd p (h.fnStat p w.fs).1.2 _ buf _
      { w with fs := (h.fnWrite fd buf (h.fnLseek fd 0 seekCur (h.fnStat p w.fs).2).2).2 }
    exact ⟨hmap, hwrite.trans hkeep⟩

theorem cmPwrite_quiet (hd : DescriptorTable h.toFsFns isOpen) (fd : Int) (buf : List UInt8)
    (offset : Int) (w : World σ) : Quiet isOpen w (cmPwrite h fd buf offset w).2 := by
  simp only [cmPwrite]
  split
  · exact ⟨rfl, fun _ => Iff.rfl⟩
  rename_i p hp
  have hstat := hd.stat p w.fs
  have hwrite := hstat.trans (hd.pwrite fd buf offset _)
  split
  · exact ⟨rfl, hstat⟩
  split
  · exact ⟨rfl, hwrite⟩
  split
  · exact ⟨rfl, hwrite⟩
  · obtain ⟨hmap, hkeep⟩ := recordWrite_quiet hd p (h.fnStat p w.fs).1.2 _ buf _
      { w with fs := (h.fnPwrite fd buf offset (h.fnStat p w.fs).2).2 }
    exact ⟨hmap, hwrite.trans hkeep⟩

theorem removeWith_quiet (fnRemove : Path → σ → Int × σ)
    (hfn : ∀ p s, Keeps isOpen s (fnRemove p s).2) (p : Path) (w : World σ) :
    Quiet isOpen w (removeWith fnRemove p w).2 := by
  simp only [removeWith]
  split
  · exact ⟨rfl, hfn _ _⟩
  · exact ⟨rfl, hfn _ _⟩

theorem fsyncWith_quiet (fnFsync : Int → σ → Int × σ)
    (hfn : ∀ fd s, Keeps isOpen s (fnFsync fd s).2) (fd : Int) (w : World σ) :
    Quiet isOpen w (fsyncWith fnFsync fd w).2 := by
  simp only [fsyncWith]
  split
  · exact ⟨rfl, hfn _ _⟩
  split
  · exact ⟨rfl, hfn _ _⟩
  · exact ⟨rfl, hfn _ _⟩

theorem cmSyncFileRange_quiet (hd : DescriptorTable h.toFsFns isOpen) (fd : Int)
    (offset nbytes : Nat) (flags : Flags) (w : World σ) :
    Quiet isOpen w (cmSyncFileRange h fd offset nbytes flags w).2 := by
  have hsync := hd.syncFileRange fd offset nbytes flags w.fs
  simp only [cmSyncFileRange]
  split
  · exact ⟨rfl, hsync⟩
  split
  · exact ⟨rfl, hsync⟩
  rename_i p hp
  split
  · exact ⟨rfl, hsync.trans (hd.stat p _)⟩
  · exact ⟨rfl, hsync.trans (hd.stat p _)⟩

theorem cmMsync_quiet (hd : DescriptorTable h.toFsFns isOpen) (addr length : Nat) (flags : Flags)
    (w : World σ) : Quiet isOpen w (cmMsync h addr length flags w).2 := by
  have hsync := hd.msync addr length flags w.fs
  simp only [cmMsync]
  split
  · exact ⟨rfl, hsync⟩
  split
  · exact ⟨rfl, hsync⟩
  split
  · exact ⟨rfl, hsync⟩
  split
  · exact ⟨rfl, hsync⟩
  · exact ⟨rfl, hsync⟩

theorem Mapped.quiet {o : Observed σ} {w' : World σ} (hm : Mapped isOpen o)
    (hq : Quiet isOpen o.world w') : Mapped isOpen ⟨w', o.opened⟩ := by
  obtain ⟨hmap, hkeep⟩ := hq
  constructor
  · intro fd hfd
    rw [hmap] at hfd
    exact (hkeep fd).mpr (hm.entry_open fd hfd)
  · intro fd p hfd hp
    rw [hmap]
    exact hm.names fd p ((hkeep fd).mp hfd) hp

/-- Both overloads of `CmOpen` keep the invariant: the number that is returned has no entry. -/
theorem openWith_mapped (hd : DescriptorTable h.toFsFns isOpen)
    (fnOpen : Path → σ → Int × σ) (hfn : ∀ p s, Opens isOpen s (fnOpen p s)) (p : Path)
    (flags : Flags) (op : CmOp)
    (hnote : ∀ res opened, noteOpen op (.ret res) opened =
      if res < 0 then opened else Function.update opened res (some p))
    (o : Observed σ) (hm : Mapped isOpen o) :
    Mapped isOpen ⟨(openWith h fnOpen p flags o.world).2,
      noteOpen op (openWith h fnOpen p flags o.world).1 o.opened⟩ := by
  have hexists := hd.pathExists (cStr p) o.world.fs
  have hopen := hfn (cStr p) (h.fnPathExists (cStr p) o.world.fs).2
  cases hr : fnOpen (cStr p) (h.fnPathExists (cStr p) o.world.fs).2 with
  | mk res fs =>
    rw [hr] at hopen
    simp only [openWith, hr]
    by_cases hneg : res < 0
    · simp only [Opens, hneg, ↓reduceIte] at hopen
      simp only [hneg, ↓reduceIte, hnote]
      have hquiet : Quiet isOpen o.world { o.world with fs := fs } :=
        ⟨rfl, hexists.trans hopen⟩
      exact hm.quiet hquiet
    · simp only [Opens, hneg, ↓reduceIte] at hopen
      obtain ⟨hnew, hnow, hother⟩ := hopen
      simp only [hneg, ↓reduceIte, hnote]
      have hnone : o.world.fdMap res = none := by
        by_contra hentry
        exact hnew ((hexists res).mpr (hm.entry_open res hentry))
      have hinsert : insertFd o.world.fdMap res p =
          Function.update o.world.fdMap res (some p) := by simp [insertFd, hnone]
      have hopened : Mapped isOpen ⟨{ o.world with
          fs := fs, fdMap := Function.update o.world.fdMap res (some p) },
          Function.update o.opened res (some p)⟩ := by
        constructor
        · intro fd hfd
          by_cases he : fd = res
          · exact he ▸ hnow
          · have hold : o.world.fdMap fd ≠ none := by simpa [he] using hfd
            exact (hother fd he).mpr ((hexists fd).mpr (hm.entry_open fd hold))
        · intro fd q hfd hq
          by_cases he : fd = res
          · subst he
            simpa using hq
          · have hold : o.opened fd = some q := by simpa [he] using hq
            simpa [he] using hm.names fd q ((hexists fd).mp ((hother fd he).mp hfd)) hold
      apply hopened.quiet
      simp only [cmOpenCommon, hinsert]
      split
      · split
        · exact ⟨rfl, hd.stat _ _⟩
        · exact ⟨rfl, hd.stat _ _⟩
      · exact ⟨rfl, fun _ => Iff.rfl⟩

theorem cmClose_mapped (hd : DescriptorTable h.toFsFns isOpen) (fd : Int) (o : Observed σ)
    (hm : Mapped isOpen o) (hop : Careful h isOpen o.world (.close fd)) :
    Mapped isOpen ⟨(cmClose h fd o.world).2, o.opened⟩ := by
  obtain ⟨hrelease, hbefore, hother⟩ := hd.close fd o.world.fs
  simp only [cmClose]
  split
  · rename_i hneg
    constructor
    · intro fd' hfd'
      by_cases he : fd' = fd
      · subst he
        exact hop hneg (hm.entry_open fd' hfd')
      · exact (hother fd' he).mpr (hm.entry_open fd' hfd')
    · intro fd' p hfd' hp
      by_cases he : fd' = fd
      · subst he
        exact hm.names fd' p (hbefore hfd') hp
      · exact hm.names fd' p ((hother fd' he).mp hfd') hp
  · rename_i hpos
    constructor
    · intro fd' hfd'
      have he : fd' ≠ fd := by
        rintro rfl
        simp at hfd'
      have hold : o.world.fdMap fd' ≠ none := by simpa [he] using hfd'
      exact (hother fd' he).mpr (hm.entry_open fd' hold)
    · intro fd' p hfd' hp
      have he : fd' ≠ fd := by
        rintro rfl
        exact hrelease hpos hfd'
      simpa [he] using hm.names fd' p ((hother fd' he).mp hfd') hp

theorem cmFallocate_mapped (hd : DescriptorTable h.toFsFns isOpen) (fd : Int) (mode : Flags)
    (offset len : Int) (o : Observed σ) (hm : Mapped isOpen o) (hopen : isOpen o.world.fs fd) :
    Mapped isOpen ⟨(cmFallocate h fd mode offset len o.world).2, o.opened⟩ := by
  have hinsert : Mapped isOpen
      ⟨{ o.world with fdMap := insertFd o.world.fdMap fd [] }, o.opened⟩ := by
    constructor
    · intro fd' hfd'
      by_cases he : fd' = fd
      · exact he ▸ hopen
      · exact hm.entry_open fd' (by simpa [insertFd, he] using hfd')
    · intro fd' p hfd' hp
      have hold := hm.names fd' p hfd' hp
      by_cases he : fd' = fd
      · subst he
        simp [insertFd, hold]
      · simpa [insertFd, he] using hold
  apply hinsert.quiet
  simp only [cmFallocate]
  have hpre := hd.stat (cStr ((insertFd o.world.fdMap fd [] fd).getD [])) o.world.fs
  have hcall := hpre.trans (hd.fallocate fd mode offset len _)
  split
  · exact ⟨rfl, hpre⟩
  split
  · exact ⟨rfl, hcall⟩
  split
  · exact ⟨rfl, hcall.trans (hd.stat _ _)⟩
  split
  · exact ⟨rfl, hcall.trans (hd.stat _ _)⟩
  · exact ⟨rfl, hcall.trans (hd.stat _ _)⟩

/-- Every careful call keeps the invariant. -/
theorem call_mapped (hd : DescriptorTable h.toFsFns isOpen) (o : Observed σ) (op : CmOp)
    (hm : Mapped isOpen o) (hop : Careful h isOpen o.world op) :
    Mapped isOpen (observe h o op) := by
  cases op with
  | «open» p flags =>
    exact openWith_mapped hd _ (fun p s => hd.open p flags s) p flags (.open p flags)
      (fun _ _ => rfl) o hm
  | open2 p flags mode =>
    exact openWith_mapped hd _ (fun p s => hd.open2 p flags mode s) p flags (.open2 p flags mode)
      (fun _ _ => rfl) o hm
  | close fd => exact cmClose_mapped hd fd o hm hop
  | fallocate fd mode offset len => exact cmFallocate_mapped hd fd mode offset len o hm hop
  | rename old new => exact absurd hop id
  | mknod p mode dev => exact hm.quiet ⟨rfl, hd.mknod _ mode dev _⟩
  | mkdir p mode =>
    apply hm.quiet
    simp only [call, cmMkdir]
    split
    · exact ⟨rfl, hd.mkdir _ mode _⟩
    · exact ⟨rfl, hd.mkdir _ mode _⟩
  | lseek fd offset whence => exact hm.quiet ⟨rfl, hd.lseek fd offset whence _⟩
  | write fd buf => exact hm.quiet (cmWrite_quiet hd fd buf o.world)
  | pwrite fd buf offset => exact hm.quiet (cmPwrite_quiet hd fd buf offset o.world)
  | mmap addr length prot flags fd offset =>
    have hmap := hd.mmap addr length prot flags fd offset o.world.fs
    apply hm.quiet
    simp only [call, cmMmap]
    split
    · exact ⟨rfl, hmap⟩
    split
    · exact ⟨rfl, hmap⟩
    split
    · exact ⟨rfl, hmap⟩
    · exact ⟨rfl, hmap⟩
  | msync addr length flags => exact hm.quiet (cmMsync_quiet hd addr length flags o.world)
  | munmap addr length =>
    apply hm.quiet
    simp only [call, cmMunmap]
    split
    · exact ⟨rfl, hd.munmap addr length _⟩
    · exact ⟨rfl, hd.munmap addr length _⟩
  | unlink p => exact hm.quiet (removeWith_quiet _ hd.unlink p o.world)
  | remove p => exact hm.quiet (removeWith_quiet _ hd.remove p o.world)
  | fsync fd => exact hm.quiet (fsyncWith_quiet _ hd.fsync fd o.world)
  | fdatasync fd => exact hm.quiet (fsyncWith_quiet _ hd.fdatasync fd o.world)
  | sync => exact hm.quiet ⟨rfl, hd.sync _⟩
  | syncFileRange fd offset nbytes flags =>
    exact hm.quiet (cmSyncFileRange_quiet hd fd offset nbytes flags o.world)
  | checkpoint =>
    apply hm.quiet
    simp only [call, cmCheckpoint]
    split
    · exact ⟨rfl, hd.checkpoint _⟩
    · exact ⟨rfl, hd.checkpoint _⟩

end

/-- After a run of careful calls, the entry of every descriptor that is open and was returned
by `CmOpen` is the pathname of the most recent `CmOpen` that returned it. -/
theorem fdMap_names_opened {σ : Type} (h : Host σ) (isOpen : σ → Int → Prop)
    (hd : DescriptorTable h.toFsFns isOpen) (fs : σ) (ops : List CmOp)
    (hops : CarefulRun h isOpen ops (World.start fs)) (fd : Int) (p : Path)
    (hopen : isOpen (run h ops (World.start fs)).fs fd) (hp : openedBy h ops fs fd = some p) :
    (run h ops (World.start fs)).fdMap fd = some p := by
  have hstart : Mapped isOpen ⟨World.start fs, fun _ => none⟩ :=
    ⟨fun fd hfd => absurd rfl hfd, fun fd p _ hp => by cases hp⟩
  have hworld : (ops.foldl (observe h) ⟨World.start fs, fun _ => none⟩).world =
      run h ops (World.start fs) := foldl_part Observed.world (fun _ _ => rfl) ops _
  have hrun := invariant (Mapped isOpen) (fun o op hm hop => call_mapped hd o op hm hop) ops _ hstart
    ((allowed_part Observed.world (fun _ _ => rfl) ops ⟨World.start fs, fun _ => none⟩).mpr hops)
  rw [← hworld] at hopen ⊢
  exact hrun.names fd p hopen hp

namespace PosixFs

def IsOpen (s : PosixFs) (fd : Int) : Prop := (s.fds fd).isSome = true

theorem keeps_of_fds {s s' : PosixFs} (h : s'.fds = s.fds) : Keeps IsOpen s s' := by
  intro fd
  rw [IsOpen, IsOpen, h]

theorem keeps_setFd {s s' : PosixFs} (h : s'.fds = s.fds) (fd : Int) (f f' : OpenFile)
    (hf : s.fds fd = some f) : Keeps IsOpen s (s'.setFd fd (some f')) := by
  intro fd'
  by_cases he : fd' = fd
  · simp [IsOpen, setFd, he, hf]
  · simp [IsOpen, setFd, he, h]

/-- A changing call keeps what its action keeps. -/
theorem attempt_keeps (s : PosixFs) (act : Choice → PosixFs → Option (Int × PosixFs))
    (hact : ∀ c s r s', act c s = some (r, s') → Keeps IsOpen s s') :
    Keeps IsOpen s (s.attempt act).2 := by
  rcases attempt_cases s act with hatt | ⟨c, r, s', hdo, hatt⟩
  · rw [hatt]
    exact fun _ => Iff.rfl
  · rw [hatt]
    exact hact c s.called r s' hdo

theorem doOpen_opens (s : PosixFs) (name : Name) (flags : Flags) :
    Opens IsOpen s (s.attempt (doOpen name flags)) := by
  rcases attempt_cases s (doOpen name flags) with hatt | ⟨c, r, s', hdo, hatt⟩
  · rw [hatt]
    exact fun _ => Iff.rfl
  obtain ⟨rfl, hpos, hfree, hcase⟩ := doOpen_cases hdo
  have hfds : ∃ t f, s' = PosixFs.setFd t c.fd (some f) ∧ t.fds = s.fds := by
    obtain ⟨-, -, rfl⟩ | ⟨i, -, -, rfl⟩ := hcase
    · exact ⟨_, _, rfl, rfl⟩
    · refine ⟨_, _, rfl, ?_⟩
      split <;> rfl
  obtain ⟨t, f, rfl, ht⟩ := hfds
  have hneg : ¬c.fd < 0 := by omega
  have hfree : s.fds c.fd = none := hfree
  rw [hatt]
  simp only [Opens, hneg, ↓reduceIte]
  refine ⟨by simp [IsOpen, hfree], by simp [IsOpen, setFd], fun fd he => ?_⟩
  simp [IsOpen, setFd, he, ht]

theorem doClose_closes (s : PosixFs) (fd : Int) : Closes IsOpen fd s (doClose fd s) := by
  rcases doClose_cases fd s with hclose | ⟨-, r, -, hclose⟩
  · rw [hclose]
    exact ⟨fun hpos => absurd (show (-1 : Int) < 0 by decide) hpos, id, fun _ _ => Iff.rfl⟩
  have hgone : ¬IsOpen (s.called.setFd fd none) fd := by simp [IsOpen, setFd]
  rw [hclose]
  refine ⟨fun _ => hgone, fun hopen => absurd hopen hgone, fun fd' he => ?_⟩
  simp [IsOpen, setFd, he]

end PosixFs

open PosixFs in
/-- The reference file system treats descriptors as the kernel does. -/
theorem posix_descriptorTable (resolve : Path → Name) :
    DescriptorTable (posix resolve).toFsFns IsOpen where
  «open» p flags s := doOpen_opens s _ flags
  open2 p flags mode s := doOpen_opens s _ flags
  close fd s := doClose_closes s fd
  mknod p mode dev s := by
    apply attempt_keeps s
    intro c s r s' hdo
    obtain ⟨-, kind, rfl⟩ := doMknod_cases hdo
    exact keeps_of_fds rfl
  mkdir p mode s := by
    apply attempt_keeps s
    intro c s r s' hdo
    obtain ⟨-, rfl⟩ := doMkdir_cases hdo
    exact keeps_of_fds rfl
  lseek fd offset whence s := by
    rcases doLseek_cases fd offset whence s with hsame | ⟨f, pos, hf, -, hmove⟩
    · exact keeps_of_fds (congrArg fds hsame)
    · intro fd'
      exact (hmove ▸ keeps_setFd rfl fd f _ hf fd' : IsOpen (doLseek fd offset whence s).2 fd' ↔ _)
  write fd buf s := by
    apply attempt_keeps s
    intro c s r s' hdo
    obtain ⟨f, n, pos, s₁, hf, -, hstore, -, rfl⟩ := doWrite_cases hdo
    obtain ⟨-, -, -, -, -, rfl⟩ := storeOpen_cases hstore
    exact keeps_setFd rfl fd f _ hf
  pwrite fd buf offset s := by
    apply attempt_keeps s
    intro c s r s' hdo
    obtain ⟨f, n, pos, -, -, -, hstore, -⟩ := doPwrite_cases hdo
    obtain ⟨-, -, -, -, -, rfl⟩ := storeOpen_cases hstore
    exact keeps_of_fds rfl
  mmap addr length prot flags fd offset s := keeps_of_fds rfl
  msync addr length flags s := keeps_of_fds rfl
  munmap addr length s := keeps_of_fds rfl
  fallocate fd mode offset len s := keeps_of_fds rfl
  unlink p s := by
    apply attempt_keeps s
    intro c s r s' hdo
    obtain ⟨-, rfl⟩ := doUnlink_cases hdo
    exact keeps_of_fds rfl
  remove p s := by
    apply attempt_keeps s
    intro c s r s' hdo
    obtain ⟨-, rfl⟩ := doRemove_cases hdo
    exact keeps_of_fds rfl
  stat p s := by
    apply keeps_of_fds
    simp only [posix]
    split <;> rfl
  pathExists p s := keeps_of_fds rfl
  fsync fd s :=
    attempt_keeps s _ fun c s r s' hdo => keeps_of_fds (congrArg fds (doFsync_cases hdo))
  fdatasync fd s :=
    attempt_keeps s _ fun c s r s' hdo => keeps_of_fds (congrArg fds (doFsync_cases hdo))
  sync s := keeps_of_fds rfl
  syncFileRange fd offset nbytes flags s :=
    attempt_keeps s _ fun c s r s' hdo => keeps_of_fds (congrArg fds (doFsync_cases hdo))
  checkpoint s := keeps_of_fds rfl

/-- A file system that hands out descriptor 3 whenever it is free. -/
def oneDescriptor : PosixFs := { PosixFs.empty 3 with choices := fun _ => ⟨false, false, maxRwCount, 3⟩ }

/-- Descriptor 3 is opened, written to, closed and used again for another file. -/
def reuseRun : List CmOp :=
  [.open2 (path ['/', 'f']) (oCreat ||| oRdwr) 0o644#32, .write 3 [1], .fallocate 3 0#32 0 8,
    .close 3, .open2 (path ['/', 'g']) (oCreat ||| oRdwr) 0o644#32]

theorem fdMap_names_opened_reuse :
    (run (posix splitPath) reuseRun (World.start oneDescriptor)).fdMap 3 = some (path ['/', 'g']) :=
  fdMap_names_opened (posix splitPath) PosixFs.IsOpen (posix_descriptorTable splitPath)
    oneDescriptor reuseRun
    ⟨trivial, trivial, by simp only [Careful, PosixFs.IsOpen]; decide +kernel,
      fun hneg => absurd hneg (by decide +kernel), trivial, trivial⟩
    3 (path ['/', 'g']) (by simp only [PosixFs.IsOpen]; decide +kernel) (by decide +kernel)

/-- `CmFallocate` on number 3 before it is open leaves an empty path, which the open that
returns 3 does not replace. -/
theorem fallocate_spoils_entry :
    DescriptorTable (posix splitPath).toFsFns PosixFs.IsOpen ∧
      ∃ ops : List CmOp, (∀ old new, CmOp.rename old new ∉ ops) ∧
        ∃ fd p, PosixFs.IsOpen (run (posix splitPath) ops (World.start oneDescriptor)).fs fd ∧
          openedBy (posix splitPath) ops oneDescriptor fd = some p ∧
          (run (posix splitPath) ops (World.start oneDescriptor)).fdMap fd ≠ some p := by
  refine ⟨posix_descriptorTable splitPath,
    [.fallocate 3 0#32 0 8, .open2 (path ['/', 'f']) (oCreat ||| oRdwr) 0o644#32], by simp, 3,
    path ['/', 'f'], ?_, by decide +kernel, by decide +kernel⟩
  simp only [PosixFs.IsOpen]
  decide +kernel

end PMTester
