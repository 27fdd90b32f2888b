import PMTester.DeadNames
import PMTester.MsyncLocation

/-!
# Which file `CmMsync` names

A mapping's entry keeps a copy of the descriptor's path. `CmRename` rewrites the
paths of the descriptors and not these copies, so what `CmMsync` records is the
name the file has only if the renames since the `CmMmap` have, taken together,
led back to that path. The file is followed by its name: a rename moves the name
of every file at or below the old one, and a file at the new one loses its own.
-/
namespace PMTester

open Run Word PosixFs RecordCmFsOps

/-- Where a file named `n` is after an entry has been moved from `old` to `new`. -/
def follow (old new n : Name) : Option Name :=
  if new.isPrefixOf n then none
  else if old.isPrefixOf n then some (new ++ n.drop old.length)
  else some n

/-- Where a file named `n` is after a call. -/
def followOp (resolve : Path → Name) (s : PosixFs) (n : Name) : CmOp → Option Name
  | .rename old new =>
    if ((posix resolve).fnRename old new s).1 < 0 ∨
        s.ino? (resolve (cStr old)) = s.ino? (resolve (cStr new)) then some n
    else follow (resolve (cStr old)) (resolve (cStr new)) n
  | _ => some n

/-- What a call does to the files. -/
def filesAfter (resolve : Path → Name) (s : PosixFs) : CmOp → PosixFs
  | .open p flags => ((posix resolve).fnOpen p flags s).2
  | .open2 p flags mode => ((posix resolve).fnOpen2 p flags mode s).2
  | .close fd => ((posix resolve).fnClose fd s).2
  | .rename old new => ((posix resolve).fnRename old new s).2
  | _ => s

def followRun (resolve : Path → Name) : List CmOp → PosixFs → Name → Option Name
  | [], _, n => some n
  | op :: ops, s, n => (followOp resolve s n op).bind (followRun resolve ops (filesAfter resolve s op))

/-- The calls of a run in which mapped files are renamed. -/
def MovesFiles : CmOp → Prop
  | .open _ _ | .open2 _ _ _ | .mmap _ _ _ _ _ _ | .msync _ _ _ | .munmap _ _ | .close _
  | .rename _ _ => True
  | _ => False

/-- A kernel whose calls on files and names are those of the reference file system, and whose
calls on mappings leave the files alone. -/
structure OverPosix {σ : Type} (h : Host σ) (resolve : Path → Name) (files : σ → PosixFs) :
    Prop where
  fnOpen : ∀ p flags s,
    Prod.map id files (h.fnOpen p flags s) = (posix resolve).fnOpen p flags (files s)
  fnOpen2 : ∀ p flags mode s,
    Prod.map id files (h.fnOpen2 p flags mode s) = (posix resolve).fnOpen2 p flags mode (files s)
  fnClose : ∀ fd s, Prod.map id files (h.fnClose fd s) = (posix resolve).fnClose fd (files s)
  fnRename : ∀ old new s,
    Prod.map id files (h.fnRename old new s) = (posix resolve).fnRename old new (files s)
  fnStat : ∀ p s, files (h.fnStat p s).2 = files s
  fnPathExists : ∀ p s, files (h.fnPathExists p s).2 = files s
  fnMmap : ∀ addr length prot flags fd offset s,
    files (h.fnMmap addr length prot flags fd offset s).2 = files s
  fnMsync : ∀ addr length flags s, files (h.fnMsync addr length flags s).2 = files s
  fnMunmap : ∀ addr length s, files (h.fnMunmap addr length s).2 = files s

/-- The numbers of the files that have a name or are open are in use. -/
structure Numbered (s : PosixFs) : Prop where
  names : ∀ n i, s.ino? n = some i → i < s.fresh
  opened : ∀ fd i, s.fileOf fd = some i → i < s.fresh

theorem lookup_map_filter {α : Type} [BEq α] [LawfulBEq α] (names : List (α × Nat)) (f : α → α)
    (g : α → Bool) (hf : ∀ a b, g a = true → g b = true → f a = f b → a = b) (m : α) (i : Nat) :
    ((names.filter fun e => g e.1).map fun e => (f e.1, e.2)).lookup m = some i ↔
      ∃ n, g n = true ∧ f n = m ∧ names.lookup n = some i := by
  induction names with
  | nil => simp
  | cons e rest ih =>
    obtain ⟨n, j⟩ := e
    by_cases hg : g n = true
    · rw [List.filter_cons_of_pos (by simpa using hg), List.map_cons]
      by_cases hm : f n = m
      · have hfound : (m == f n) = true := by simp [hm]
        rw [List.lookup_cons, hfound]
        constructor
        · intro hj
          exact ⟨n, hg, hm, by simpa using hj⟩
        · rintro ⟨n', hg', hm', hlookup⟩
          have hsame := hf n' n hg' hg (hm'.trans hm.symm)
          subst hsame
          simpa using hlookup
      · have hother : (m == f n) = false := by simpa using Ne.symm hm
        rw [List.lookup_cons, hother, ih]
        refine exists_congr fun n' => and_congr_right fun _ => and_congr_right fun hm' => ?_
        have hne : n' ≠ n := by
          rintro rfl
          exact hm hm'
        have hlater : (n' == n) = false := by simpa using hne
        rw [List.lookup_cons, hlater]
    · rw [List.filter_cons_of_neg (by simpa using hg), ih]
      refine exists_congr fun n' => and_congr_right fun hg' => and_congr_right fun _ => ?_
      have hne : n' ≠ n := by
        rintro rfl
        exact hg hg'
      have hlater : (n' == n) = false := by simpa using hne
      rw [List.lookup_cons, hlater]

/-- The new name of an entry that a move keeps. -/
def movedName (old new n : Name) : Name :=
  if old.isPrefixOf n then new ++ n.drop old.length else n

theorem movedName_injective {old new a b : Name} (ha : ¬ new <+: a) (hb : ¬ new <+: b)
    (hsame : movedName old new a = movedName old new b) : a = b := by
  unfold movedName at hsame
  by_cases hoa : old.isPrefixOf a = true
  · by_cases hob : old.isPrefixOf b = true
    · rw [if_pos hoa, if_pos hob, List.append_cancel_left_eq] at hsame
      obtain ⟨x, rfl⟩ := List.isPrefixOf_iff_prefix.mp hoa
      obtain ⟨y, rfl⟩ := List.isPrefixOf_iff_prefix.mp hob
      rw [List.drop_left, List.drop_left] at hsame
      rw [hsame]
    · rw [if_pos hoa, if_neg hob] at hsame
      exact absurd ⟨_, hsame⟩ hb
  · by_cases hob : old.isPrefixOf b = true
    · rw [if_neg hoa, if_pos hob] at hsame
      exact absurd ⟨_, hsame.symm⟩ ha
    · rw [if_neg hoa, if_neg hob] at hsame
      exact hsame

theorem follow_eq_some {old new n m : Name} :
    follow old new n = some m ↔ ¬ new <+: n ∧ movedName old new n = m := by
  unfold follow movedName
  by_cases hnew : new <+: n
  · simp [hnew]
  · simp only [List.isPrefixOf_iff_prefix, hnew, not_false_eq_true, true_and, if_false]
    split <;> simp

/-- After a move a file has the names to which its names before lead. -/
theorem ino?_move (s : PosixFs) (old new m : Name) (i : Nat) :
    (s.move old new).ino? m = some i ↔ ∃ n, s.ino? n = some i ∧ follow old new n = some m := by
  have hmap : (s.move old new).names = (s.names.filter fun e => !new.isPrefixOf e.1).map fun e =>
      (movedName old new e.1, e.2) := by
    have hentry : (fun e : Name × Nat => if old.isPrefixOf e.1 then
        (new ++ e.1.drop old.length, e.2) else e) = fun e => (movedName old new e.1, e.2) := by
      funext e
      unfold movedName
      split <;> rfl
    exact congrArg (fun f => List.map f _) hentry
  have hinj : ∀ a b : Name, (!new.isPrefixOf a) = true → (!new.isPrefixOf b) = true →
      movedName old new a = movedName old new b → a = b :=
    fun a b ha hb => movedName_injective (by simpa [← List.isPrefixOf_iff_prefix] using ha)
      (by simpa [← List.isPrefixOf_iff_prefix] using hb)
  rw [PosixFs.ino?, hmap, lookup_map_filter s.names _ (fun n => !new.isPrefixOf n) hinj]
  apply exists_congr
  intro n
  rw [follow_eq_some, PosixFs.ino?]
  simp only [Bool.not_eq_true', ← Bool.not_eq_true, List.isPrefixOf_iff_prefix]
  tauto

/-- A rename that is made moves the entry, unless both names are of one file. -/
theorem doRename_moves {old new : Name} {c : Choice} {s s' : PosixFs} {r : Int}
    (h : doRename old new c s = some (r, s')) :
    s' = if s.ino? old = s.ino? new then s else s.move old new := by
  obtain ⟨-, hsame⟩ := doRename_cases h
  by_cases hboth : s.ino? old = s.ino? new
  · rw [if_pos hboth]
    exact hsame hboth
  · rw [if_neg hboth]
    unfold doRename at h
    cases hold : s.ino? old with
    | none => simp [hold] at h
    | some i =>
      have hne : old ≠ new := fun heq => hboth (by rw [heq])
      simp only [hold, if_neg hne] at h
      split at h
      · cases h
      cases hnew : s.ino? new with
      | none =>
        simp only [hnew] at h
        cases h
        rfl
      | some j =>
        have hij : ¬ i = j := fun heq => hboth (by rw [hold, hnew, heq])
        simp only [hnew, if_neg hij] at h
        split at h
        · split at h
          · cases h
            rfl
          · cases h
        · cases h
          rfl
        · cases h

section

variable {resolve : Path → Name}

/-- The names of a file after a call are those to which its names before lead. -/
theorem names_step {s : PosixFs} {i : Nat} (hi : i < s.fresh) (op : CmOp)
    (m : Name) : (filesAfter resolve s op).ino? m = some i ↔
      ∃ n, s.ino? n = some i ∧ followOp resolve s n op = some m := by
  have hquiet : ∀ s' : PosixFs, s'.ino? m = s.ino? m → (s'.ino? m = some i ↔
      ∃ n, s.ino? n = some i ∧ some n = some m) := by
    intro s' hsame
    simp [hsame]
  have hopen : ∀ name flags, ((s.attempt (doOpen name flags)).2.ino? m = some i ↔
      ∃ n, s.ino? n = some i ∧ some n = some m) := by
    intro name flags
    rcases attempt_cases s (doOpen name flags) with hatt | ⟨c, r, s', hact, hatt⟩
    · rw [hatt]
      exact hquiet _ rfl
    · rw [hatt]
      obtain ⟨-, -, -, ⟨hnone, -, rfl⟩ | ⟨j, -, -, rfl⟩⟩ := doOpen_cases hact
      · rw [ino?_setFd, ino?_create]
        have hnone : s.ino? name = none := hnone
        split
        · rename_i hm
          have hfresh : ¬ s.fresh = i := by omega
          simp [hfresh, hm, hnone]
        · exact hquiet s.called rfl
      · apply hquiet
        rw [ino?_setFd]
        split <;> rfl
  cases op with
  | «open» p flags => exact hopen _ _
  | open2 p flags mode => exact hopen _ _
  | close fd =>
    apply hquiet
    rcases doClose_cases fd s with hclose | ⟨-, r, -, hclose⟩
    · exact congrArg (fun p => p.2.ino? m) hclose
    · exact congrArg (fun p => p.2.ino? m) hclose
  | rename old new =>
    rcases attempt_cases s (doRename (resolve (cStr old)) (resolve (cStr new))) with
      hatt | ⟨c, r, s', hact, hatt⟩
    · have hres : (posix resolve).fnRename old new s = (-1, s.called) := hatt
      have hneg : (-1 : Int) < 0 := by decide
      simp only [filesAfter, followOp, hres, hneg, true_or, ↓reduceIte]
      exact hquiet _ rfl
    · have hres : (posix resolve).fnRename old new s = (r, s') := hatt
      have hr : ¬ r < 0 := by
        rw [(doRename_cases hact).1]
        decide
      simp only [filesAfter, followOp, hres, hr, false_or]
      rw [doRename_moves hact, ino?_called, ino?_called]
      by_cases hboth : s.ino? (resolve (cStr old)) = s.ino? (resolve (cStr new))
      · simp only [if_pos hboth]
        exact hquiet _ rfl
      · simp only [if_neg hboth]
        exact ino?_move s _ _ m i
  | _ => exact hquiet _ rfl

theorem Numbered.open {s : PosixFs} (hs : Numbered s) (name : Name) (flags : Flags) :
    Numbered (s.attempt (doOpen name flags)).2 ∧
      s.fresh ≤ (s.attempt (doOpen name flags)).2.fresh := by
  rcases attempt_cases s (doOpen name flags) with hatt | ⟨c, r, s', hact, hatt⟩
  · rw [hatt]
    exact ⟨⟨hs.names, hs.opened⟩, Nat.le_refl _⟩
  · rw [hatt]
    obtain ⟨-, -, -, ⟨-, -, rfl⟩ | ⟨j, hj, -, rfl⟩⟩ := doOpen_cases hact
    · refine ⟨⟨?_, ?_⟩, Nat.le_succ _⟩
      · intro n i hi
        rw [ino?_setFd, ino?_create] at hi
        change i < s.fresh + 1
        split at hi
        · have hfresh : s.fresh = i := Option.some.inj hi
          omega
        · exact Nat.lt_succ_of_lt (hs.names n i hi)
      · intro fd i hi
        rw [fileOf_setFd] at hi
        change i < s.fresh + 1
        split at hi
        · have hfresh : s.fresh = i := Option.some.inj hi
          omega
        · exact Nat.lt_succ_of_lt (hs.opened fd i hi)
    · have hj : s.ino? name = some j := hj
      split
      · refine ⟨⟨hs.names, fun fd i hi => ?_⟩, Nat.le_refl _⟩
        rw [fileOf_setFd] at hi
        split at hi
        · exact Option.some.inj hi ▸ hs.names name j hj
        · exact hs.opened fd i hi
      · refine ⟨⟨hs.names, fun fd i hi => ?_⟩, Nat.le_refl _⟩
        rw [fileOf_setFd] at hi
        split at hi
        · exact Option.some.inj hi ▸ hs.names name j hj
        · exact hs.opened fd i hi

/-- The numbers in use stay in use, and no number is handed out twice. -/
theorem numbered_step {s : PosixFs} (hs : Numbered s) (op : CmOp) :
    Numbered (filesAfter resolve s op) ∧ s.fresh ≤ (filesAfter resolve s op).fresh := by
  cases op with
  | «open» p flags => exact hs.open _ _
  | open2 p flags mode => exact hs.open _ _
  | close fd =>
    rcases doClose_cases fd s with hclose | ⟨-, r, -, hclose⟩
    · have hafter : filesAfter resolve s (.close fd) = s.called := congrArg Prod.snd hclose
      rw [hafter]
      exact ⟨⟨hs.names, hs.opened⟩, Nat.le_refl _⟩
    · have hafter : filesAfter resolve s (.close fd) = s.called.setFd fd none :=
        congrArg Prod.snd hclose
      rw [hafter]
      refine ⟨⟨hs.names, fun fd' i hi => ?_⟩, Nat.le_refl _⟩
      rw [fileOf_setFd] at hi
      split at hi
      · cases hi
      · exact hs.opened fd' i hi
  | rename old new =>
    rcases attempt_cases s (doRename (resolve (cStr old)) (resolve (cStr new))) with
      hatt | ⟨c, r, s', hact, hatt⟩
    · have hafter : filesAfter resolve s (.rename old new) = s.called := congrArg Prod.snd hatt
      rw [hafter]
      exact ⟨⟨hs.names, hs.opened⟩, Nat.le_refl _⟩
    · have hafter : filesAfter resolve s (.rename old new) = s' := congrArg Prod.snd hatt
      rw [hafter, doRename_moves hact]
      split
      · exact ⟨⟨hs.names, hs.opened⟩, Nat.le_refl _⟩
      · refine ⟨⟨fun n i hi => ?_, hs.opened⟩, Nat.le_refl _⟩
        obtain ⟨n', hn', -⟩ := (ino?_move _ _ _ _ _).mp hi
        exact hs.names n' i hn'
  | _ => exact ⟨hs, Nat.le_refl _⟩

/-- The names of a file after a run are those to which its names before lead. -/
theorem names_run (ops : List CmOp) {s : PosixFs} (hs : Numbered s) {i : Nat} (hi : i < s.fresh)
    (m : Name) : (ops.foldl (filesAfter resolve) s).ino? m = some i ↔
      ∃ n, s.ino? n = some i ∧ followRun resolve ops s n = some m := by
  induction ops generalizing s with
  | nil => simp [followRun]
  | cons op ops ih =>
    obtain ⟨hnext, hfresh⟩ : Numbered (filesAfter resolve s op) ∧
      s.fresh ≤ (filesAfter resolve s op).fresh := numbered_step hs op
    rw [List.foldl_cons, ih hnext (by omega)]
    simp only [followRun, Option.bind_eq_some_iff]
    constructor
    · rintro ⟨k, hk, hrest⟩
      obtain ⟨n, hn, hstep⟩ := (names_step hi op k).mp hk
      exact ⟨n, hn, k, hstep, hrest⟩
    · rintro ⟨n, hn, k, hstep, hrest⟩
      exact ⟨k, (names_step hi op k).mpr ⟨n, hn, hstep⟩, hrest⟩

section

variable {σ : Type} {h : Host σ} {files : σ → PosixFs}

theorem openWith_files (hfiles : OverPosix h resolve files) {fnOpen : Path → σ → Int × σ}
    {after : PosixFs} {p : Path} {flags : Flags} {w : World σ}
    (hopen : ∀ s, files s = files w.fs → files (fnOpen (cStr p) s).2 = after) :
    files (openWith h fnOpen p flags w).2.fs = after := by
  have hafter := hopen _ (hfiles.fnPathExists (cStr p) w.fs)
  simp only [openWith, cmOpenCommon]
  repeat' split
  all_goals simp only [World.push_fs, hfiles.fnStat]; exact hafter

/-- Each call of the run does to the files what its system call does. -/
theorem call_files (hfiles : OverPosix h resolve files) (w : World σ) (op : CmOp)
    (hop : MovesFiles op) : files (call h op w).2.fs = filesAfter resolve (files w.fs) op := by
  cases op with
  | «open» p flags =>
    apply openWith_files hfiles
    intro s hs
    have hsame := congrArg Prod.snd (hfiles.fnOpen (cStr p) flags s)
    rw [hs] at hsame
    simpa [posix, cStr_cStr, filesAfter] using hsame
  | open2 p flags mode =>
    apply openWith_files hfiles
    intro s hs
    have hsame := congrArg Prod.snd (hfiles.fnOpen2 (cStr p) flags mode s)
    rw [hs] at hsame
    simpa [posix, cStr_cStr, filesAfter] using hsame
  | close fd =>
    have hsame := congrArg Prod.snd (hfiles.fnClose fd w.fs)
    simp only [call, cmClose]
    split <;> exact hsame
  | rename old new => exact congrArg Prod.snd (hfiles.fnRename old new w.fs)
  | mmap addr length prot flags fd offset =>
    simp only [call, cmMmap]
    repeat' split
    all_goals exact hfiles.fnMmap _ _ _ _ _ _ _
  | munmap addr length =>
    simp only [call, cmMunmap]
    split <;> exact hfiles.fnMunmap _ _ _
  | msync addr length flags =>
    simp only [call, cmMsync]
    repeat' split
    all_goals exact hfiles.fnMsync _ _ _ _
  | _ => exact absurd hop id

theorem run_files (hfiles : OverPosix h resolve files) (ops : List CmOp)
    (hops : ∀ op ∈ ops, MovesFiles op) (w : World σ) :
    files (run h ops w).fs = ops.foldl (filesAfter resolve) (files w.fs) := by
  induction ops generalizing w with
  | nil => rfl
  | cons op ops ih =>
    rw [run_cons, ih (fun op' hop' => hops op' (List.mem_cons_of_mem _ hop')),
      call_files hfiles w op (hops op List.mem_cons_self), List.foldl_cons]

/-- A mod of `CmMsync` carries the path of the entry that was found. -/
theorem cmMsync_path {w : World σ} {addr len : Nat} {syncFlags : Flags} {mod : DiskMod}
    (hmods : (cmMsync h addr len syncFlags w).2.mods = w.mods ++ [mod]) :
    ∃ e ∈ w.mmapMap, MmapEntry.covers addr e = true ∧ mod.path = e.path := by
  unfold cmMsync at hmods
  dsimp only at hmods
  split at hmods
  · simp at hmods
  split at hmods
  · simp at hmods
  rename_i e hfind
  have hentry : e ∈ w.mmapMap := (h.order_perm w.mmapMap).subset (List.mem_of_find?_eq_some hfind)
  split at hmods
  · simp at hmods
  split at hmods
  · simp at hmods
  have hmod := List.singleton_inj.mp (List.append_cancel_left hmods)
  exact ⟨e, hentry, List.find?_some hfind, by rw [← hmod]⟩

end

end

/-- In a run that renames mapped files, what `CmMsync` records inside a mapping carries a name of
the mapped file exactly when the renames since the `CmMmap` lead from a name the file had then to
the path its descriptor was recorded under. -/
theorem msync_path_iff {σ : Type} (h : Host σ) (live : σ → Set Mapping) (hk : AddressSpace h live)
    (resolve : Path → Name) (files : σ → PosixFs) (hfiles : OverPosix h resolve files)
    (w : World σ) (hstart : w.mmapMap = []) (hlive : Separate (live w.fs))
    (hnumbered : Numbered (files w.fs)) (before after : List CmOp)
    (hops : ∀ op ∈ before ++ after, MovesFiles op) (hint length base : Nat) (prot flags : Flags)
    (fd offset : Int) (p : Path)
    (hregular : RegularRun h live (before ++ .mmap hint length prot flags fd offset :: after) w)
    (hfd : (run h before w).fdMap fd = some p)
    (hmap : (h.fnMmap hint length prot flags fd offset (run h before w).fs).1 = base)
    (hbase : base ≠ mapFailed)
    (hshared : (⟨⟨base, length⟩, prot, flags⟩ : Mapping).shared = true)
    (hstays : Stays h base after (run h (before ++ [.mmap hint length prot flags fd offset]) w))
    (i : Nat) (hi : (files (run h before w).fs).fileOf fd = some i) (addr len : Nat)
    (syncFlags : Flags) (hinside : Span.Holds ⟨base, length⟩ addr) (mod : DiskMod)
    (hmods : (cmMsync h addr len syncFlags
        (run h (before ++ .mmap hint length prot flags fd offset :: after) w)).2.mods =
      (run h (before ++ .mmap hint length prot flags fd offset :: after) w).mods ++ [mod]) :
    (files (run h (before ++ .mmap hint length prot flags fd offset :: after) w).fs).ino?
        (resolve (cStr mod.path)) = some i ↔
      ∃ n, (files (run h before w).fs).ino? n = some i ∧
        followRun resolve after (files (run h before w).fs) n = some (resolve (cStr p)) := by
  have hend := run_tabled hk hstart hlive hregular hfd hmap hbase hshared hstays
  obtain ⟨e, he, hcovers, hpath⟩ := cmMsync_path hmods
  rw [hend.covers_only rfl hinside he hcovers] at hpath
  have hfsBefore := run_files hfiles before (fun op hop => hops op (List.mem_append_left _ hop)) w
  have hnumbered' : Numbered (files (run h before w).fs) := by
    rw [hfsBefore]
    exact invariant Numbered (fun _ op hs _ => (numbered_step hs op).1) before _ hnumbered
      (allowed_of_forall _ (fun _ => True) before (fun _ _ => trivial) _)
  rw [run_append, run_cons, run_files hfiles after (fun op hop => hops op (List.mem_append_right _ hop)),
    call_files hfiles _ (.mmap hint length prot flags fd offset) trivial, hpath]
  exact names_run after hnumbered' (hnumbered'.opened fd i hi) _

theorem withMappings_overPosix (resolve : Path → Name) :
    OverPosix (withMappings (posix resolve)) resolve Prod.fst where
  fnOpen _ _ _ := rfl
  fnOpen2 _ _ _ _ := rfl
  fnClose _ _ := rfl
  fnRename _ _ _ := rfl
  fnStat p s := by
    simp only [withMappings, onFiles, posix]
    split <;> rfl
  fnPathExists _ _ := rfl
  fnMmap _ _ _ _ _ _ s := by
    simp only [withMappings]
    split <;> rfl
  fnMsync _ _ _ s := by
    simp only [withMappings]
    split <;> rfl
  fnMunmap _ _ s := by
    simp only [withMappings]
    split <;> rfl

theorem empty_numbered (first : Int) : Numbered (PosixFs.empty first) :=
  ⟨(empty_wellFormed first).known, fun _ _ hi => by cases hi⟩

/-- The mapped file is renamed and gets its name back. -/
def backAndForth : List CmOp :=
  [.rename (path ['/', 'f']) (path ['/', 'g']), .rename (path ['/', 'g']) (path ['/', 'f'])]

/-- The mod of a `CmMsync` of the first 16 bytes of the mapping. -/
def syncedMod : DiskMod :=
  { modType := .kDataMod, modOpts := .kMsSyncOpt, path := path ['/', 'f'], fileModLen := 16,
    fileModData := List.replicate 16 0 }

theorem msync_path_back :
    (run (withMappings (posix splitPath))
        (openRun ++ .mmap 0 4096 (protWrite ||| 1#32) 1#32 3 0 :: backAndForth)
        (World.start (PosixFs.empty 3, []))).fs.1.ino? (splitPath (cStr syncedMod.path)) = some 1 :=
  (msync_path_iff (withMappings (posix splitPath)) mappingsOf (withMappings_addressSpace _)
    splitPath Prod.fst (withMappings_overPosix splitPath) (World.start (PosixFs.empty 3, [])) rfl
    ⟨fun _ hm => absurd hm List.not_mem_nil, fun _ hm => absurd hm List.not_mem_nil⟩
    (empty_numbered 3) openRun backAndForth (by simp [openRun, backAndForth, MovesFiles]) 0 4096
    4096 (protWrite ||| 1#32) 1#32 3 0 (path ['/', 'f'])
    ⟨trivial, show Flags.has _ _ = false by decide, trivial, trivial, trivial⟩
    (by decide +kernel) (by decide +kernel) (by decide) (by decide)
    ⟨fun _ heq => (by cases heq), fun _ heq => (by cases heq), trivial⟩ 1 (by decide +kernel) 4096
    16 0#32 (by decide) syncedMod (by decide +kernel)).mpr
    ⟨splitPath (path ['/', 'f']), by decide +kernel, by decide +kernel⟩

/-- After a rename of the mapped file the mod still carries the old name, which no file has. -/
theorem msync_path_stale :
    (cmMsync (withMappings (posix splitPath)) 4096 16 0#32
        (run (withMappings (posix splitPath))
          (openRun ++ [.mmap 0 4096 (protWrite ||| 1#32) 1#32 3 0,
            .rename (path ['/', 'f']) (path ['/', 'g'])])
          (World.start (PosixFs.empty 3, [])))).2.mods.getLast? = some syncedMod ∧
      (run (withMappings (posix splitPath))
          (openRun ++ [.mmap 0 4096 (protWrite ||| 1#32) 1#32 3 0,
            .rename (path ['/', 'f']) (path ['/', 'g'])])
          (World.start (PosixFs.empty 3, []))).fdMap 3 = some (path ['/', 'g']) ∧
      (run (withMappings (posix splitPath))
          (openRun ++ [.mmap 0 4096 (protWrite ||| 1#32) 1#32 3 0,
            .rename (path ['/', 'f']) (path ['/', 'g'])])
          (World.start (PosixFs.empty 3, []))).fs.1.ino? (splitPath (path ['/', 'g'])) = some 1 ∧
      (run (withMappings (posix splitPath))
          (openRun ++ [.mmap 0 4096 (protWrite ||| 1#32) 1#32 3 0,
            .rename (path ['/', 'f']) (path ['/', 'g'])])
          (World.start (PosixFs.empty 3, []))).fs.1.ino? (splitPath (cStr syncedMod.path)) ≠
        some 1 := by
  refine ⟨by decide +kernel, by decide +kernel, by decide +kernel, by decide +kernel⟩

end PMTester
