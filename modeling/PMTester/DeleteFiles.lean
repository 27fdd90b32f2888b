import PMTester.DiskSoundness
import PMTester.HostFs

/-!
# `deleteFiles`

The recursive delete of the sanity checks. It tells files from directories with
calls that follow symbolic links, and removes by composed path, where the last
component is not followed.
-/
namespace PMTester

/-- The calls of the checker on directories and names. `none` is a failed call, which changes
nothing; `opendir` stands for the whole directory stream, `stat` tells whether it is a directory. -/
structure DirHost (σ : Type) where
  opendir : Path → σ → Option (List Path)
  stat : Path → σ → Option Bool
  unlink : Path → σ → Option σ
  rmdir : Path → σ → Option σ
  openCreat : Path → σ → Option σ

variable {σ : Type}

def isEmptyDirOrFile (host : DirHost σ) (path : Path) (s : σ) : Bool :=
  match host.opendir path s with
  | none => true
  | some names => decide (names.length ≤ 2)

def isFile (host : DirHost σ) (path : Path) (s : σ) : Bool :=
  match host.stat path s with
  | none => false
  | some isDir => !isDir

/-- The result of a call compared with 0, and the state after it. -/
def succeeded (s : σ) (result : Option σ) : Option Bool × σ :=
  match result with
  | some s' => (some true, s')
  | none => (some false, s)

/-- The loop over a directory stream; `delete` is the recursive call. -/
def deleteEntries (host : DirHost σ) (delete : Path → σ → Option Bool × σ) (path : Path) :
    List Path → σ → Option Bool × σ
  | [], s => (some true, s)
  | name :: rest, s =>
    if name = dot ∨ name = dotdot then deleteEntries host delete path rest s
    else
      let subpath := path ++ slash :: name
      let subpathIsFile := isFile host subpath s
      match delete subpath s with
      | (some true, s) =>
        if !subpathIsFile then
          match host.rmdir subpath s with
          | some s => deleteEntries host delete path rest s
          | none => (some false, s)
        else deleteEntries host delete path rest s
      | (res, s) => (res, s)

/-- `deleteFiles` with a bound on the depth of the recursion; `none` when it is not enough. -/
def deleteFiles (host : DirHost σ) : Nat → Path → σ → Option Bool × σ
  | 0, _, s => (none, s)
  | depth + 1, path, s =>
    if path = [] then (some true, s)
    else if isEmptyDirOrFile host path s then
      if path = basePath then (some true, s)
      else if isFile host path s then succeeded s (host.unlink path s)
      else succeeded s (host.rmdir path s)
    else
      match host.opendir path s with
      | none => (some false, s)
      | some names => deleteEntries host (deleteFiles host depth) path names s

/-- What the removals preserve on the paths that are visited. -/
structure Preserved (host : DirHost σ) (Visited : Path → Prop) (P : σ → Prop) : Prop where
  down : ∀ q s names name, Visited q → P s → host.opendir q s = some names → name ∈ names →
    name ≠ dot → name ≠ dotdot → Visited (q ++ slash :: name)
  unlink : ∀ q s s', Visited q → P s → isFile host q s = true → q ≠ basePath →
    host.unlink q s = some s' → P s'
  rmdir : ∀ q s s', Visited q → P s → host.rmdir q s = some s' → P s'

theorem Preserved.entries {host : DirHost σ} {Visited : Path → Prop} {P : σ → Prop}
    (h : Preserved host Visited P) {delete : Path → σ → Option Bool × σ}
    (hdelete : ∀ q s, Visited q → P s → P (delete q s).2) {path : Path} {names : List Path}
    (hnames : ∀ name ∈ names, name ≠ dot → name ≠ dotdot → Visited (path ++ slash :: name)) {s : σ}
    (hs : P s) : P (deleteEntries host delete path names s).2 := by
  induction names generalizing s with
  | nil => exact hs
  | cons name rest ih =>
    have ih {s : σ} (hs : P s) : P (deleteEntries host delete path rest s).2 :=
      ih (fun name hname => hnames name (List.mem_cons_of_mem _ hname)) hs
    rw [deleteEntries]
    by_cases hdots : name = dot ∨ name = dotdot
    · rw [if_pos hdots]
      exact ih hs
    · rw [if_neg hdots]
      rw [not_or] at hdots
      have hvisited := hnames name (List.mem_cons_self ..) hdots.1 hdots.2
      have hdeleted := hdelete _ s hvisited hs
      simp only
      split
      · next s₁ hres =>
        rw [hres] at hdeleted
        split
        · split
          · next s₂ hrmdir => exact ih (h.rmdir _ _ _ hvisited hdeleted hrmdir)
          · exact hdeleted
        · exact ih hdeleted
      · next hres => rwa [hres] at hdeleted

theorem Preserved.run {host : DirHost σ} {Visited : Path → Prop} {P : σ → Prop}
    (h : Preserved host Visited P) (depth : Nat) {path : Path} (hpath : Visited path) {s : σ}
    (hs : P s) : P (deleteFiles host depth path s).2 := by
  induction depth generalizing path s with
  | zero => exact hs
  | succ depth ih =>
    rw [deleteFiles]
    split
    · exact hs
    · split
      · split
        · exact hs
        · next hbase =>
          split
          · next hfile =>
            cases hunlink : host.unlink path s with
            | none => exact hs
            | some s' => exact h.unlink _ _ _ hpath hs hfile hbase hunlink
          · cases hrmdir : host.rmdir path s with
            | none => exact hs
            | some s' => exact h.rmdir _ _ _ hpath hs hrmdir
      · split
        · exact hs
        · next names hopen =>
          exact h.entries (fun q s hq hs => ih hq hs)
            (fun name hname hdot hdotdot => h.down _ _ _ _ hpath hs hopen hname hdot hdotdot) hs

/-- The order in which the streams list their entries, for each path that is opened. -/
structure Readdir where
  order : Path → List Path → List Path
  perm : ∀ path names, (order path names).Perm names

namespace HostFs

def host (r : Readdir) : DirHost HostFs where
  opendir path fs := (fs.opendir path).map fun d => r.order path (dot :: dotdot :: fs.children d)
  stat path fs := fs.stat path
  unlink path fs := (fs.unlink path).map fs.remove
  rmdir path fs := (fs.rmdir path).map fs.remove
  openCreat path fs := fs.openCreat path

/-- The entries located in the tree rooted at a path. -/
def InTree (fs : HostFs) (p : Path) (l : Loc) : Prop :=
  ∃ root, fs.resolve .nofollow p = some root ∧ root <:+ l

theorem resolve_eq_some {fs : HostFs} {mode : Mode} {p : Path} {l : Loc} :
    fs.resolve mode p = some l ↔ cStr p ≠ [] ∧
      (trailingSlash (cStr p) = true →
        Walks fs .follow maxSymlinks (fs.start (cStr p)) (components (cStr p)) l ∧
          fs.entry l = some .dir) ∧
      (trailingSlash (cStr p) = false →
        Walks fs mode maxSymlinks (fs.start (cStr p)) (components (cStr p)) l) := by
  rw [resolve]
  by_cases hempty : cStr p = []
  · simp [hempty]
  · cases hslash : trailingSlash (cStr p) with
    | true => simp [hempty, Option.filter_eq_some_iff, walk_iff]
    | false => simp [hempty, walk_iff]

theorem target_eq_some {fs : HostFs} {p : Path} {l : Loc} :
    fs.target p = some l ↔ ∃ name, (components (cStr p)).getLast? = some name ∧ name ≠ dot ∧
      name ≠ dotdot ∧
      Walks fs .nofollow maxSymlinks (fs.start (cStr p)) (components (cStr p)) l := by
  rw [target]
  cases hlast : (components (cStr p)).getLast? with
  | none => simp
  | some name =>
    by_cases hdots : name = dot ∨ name = dotdot
    · simp only [if_pos hdots]
      constructor
      · intro h
        cases h
      · rintro ⟨name', heq, hdot, hdotdot, -⟩
        cases heq
        exact absurd hdots (not_or.mpr ⟨hdot, hdotdot⟩)
    · simp only [if_neg hdots, walk_iff]
      rw [not_or] at hdots
      constructor
      · intro h
        exact ⟨name, rfl, hdots.1, hdots.2, h⟩
      · rintro ⟨-, -, -, -, h⟩
        exact h

theorem Sub.start {fs fs' : HostFs} (hsub : Sub fs' fs) (p : Path) : fs'.start p = fs.start p := by
  rw [HostFs.start, HostFs.start, hsub.1]

theorem Sub.resolve {fs fs' : HostFs} (hsub : Sub fs' fs) {mode : Mode} (hmode : mode ≠ .create)
    {p : Path} {l : Loc} (h : fs'.resolve mode p = some l) : fs.resolve mode p = some l := by
  rw [resolve_eq_some, hsub.start] at h
  rw [resolve_eq_some]
  obtain ⟨hne, hslash, hplain⟩ := h
  refine ⟨hne, fun h => ?_, fun h => (hplain h).mono hsub hmode⟩
  obtain ⟨hwalk, hdir⟩ := hslash h
  exact ⟨hwalk.mono hsub (by decide), hsub.2 _ _ hdir⟩

theorem Sub.target {fs fs' : HostFs} (hsub : Sub fs' fs) {p : Path} {l : Loc}
    (h : fs'.target p = some l) : fs.target p = some l := by
  rw [target_eq_some, hsub.start] at h
  rw [target_eq_some]
  obtain ⟨name, hlast, hdot, hdotdot, hwalk⟩ := h
  exact ⟨name, hlast, hdot, hdotdot, hwalk.mono hsub (by decide)⟩

theorem Sub.opendir {fs fs' : HostFs} (hsub : Sub fs' fs) {p : Path} {d : Loc}
    (h : fs'.opendir p = some d) : fs.opendir p = some d := by
  obtain ⟨hres, hdir⟩ := Option.filter_eq_some_iff.mp h
  exact Option.filter_eq_some_iff.mpr ⟨hsub.resolve (by decide) hres,
    decide_eq_true (hsub.2 _ _ (of_decide_eq_true hdir))⟩

theorem Sub.stat {fs fs' : HostFs} (hsub : Sub fs' fs) {p : Path} {isDir : Bool}
    (h : fs'.stat p = some isDir) : fs.stat p = some isDir := by
  obtain ⟨e, hbind, rfl⟩ := Option.map_eq_some_iff.mp h
  obtain ⟨l, hres, he⟩ := Option.bind_eq_some_iff.mp hbind
  rw [HostFs.stat, hsub.resolve (by decide) hres, Option.bind_some, hsub.2 _ _ he, Option.map_some]

theorem unlink_eq_some {fs : HostFs} {p : Path} {l : Loc} : fs.unlink p = some l ↔
    ¬ trailingSlash (cStr p) ∧ fs.target p = some l ∧ ∃ e, fs.entry l = some e ∧ e ≠ .dir := by
  rw [HostFs.unlink]
  split
  · next hslash => simp [hslash]
  · next hslash =>
    rw [Option.filter_eq_some_iff]
    cases fs.entry l <;> simp [hslash]

theorem rmdir_eq_some {fs : HostFs} {p : Path} {l : Loc} : fs.rmdir p = some l ↔
    fs.target p = some l ∧ fs.entry l = some .dir ∧ fs.children l = [] := by
  rw [HostFs.rmdir, Option.filter_eq_some_iff]
  simp

theorem opendir_eq_some {fs : HostFs} {p : Path} {d : Loc} : fs.opendir p = some d ↔
    fs.resolve .follow p = some d ∧ fs.entry d = some .dir := by
  rw [HostFs.opendir, Option.filter_eq_some_iff]
  simp

theorem Sub.unlink {fs fs' : HostFs} (hsub : Sub fs' fs) {p : Path} {l : Loc}
    (h : fs'.unlink p = some l) : fs.unlink p = some l := by
  rw [unlink_eq_some] at h ⊢
  obtain ⟨hslash, htarget, e, he, hne⟩ := h
  exact ⟨hslash, hsub.target htarget, e, hsub.2 _ _ he, hne⟩

/-- What is removed is called by the last component. -/
theorem target_cons {fs : HostFs} {p : Path} {l : Loc} (h : fs.target p = some l) :
    ∃ name d front, components (cStr p) = front ++ [name] ∧ l = name :: d ∧
      Walks fs .follow maxSymlinks (fs.start (cStr p)) front d := by
  obtain ⟨name, hlast, hdot, hdotdot, hwalk⟩ := target_eq_some.mp h
  obtain ⟨front, hfront⟩ := List.getLast?_eq_some_iff.mp hlast
  rw [hfront] at hwalk
  obtain ⟨d, m, hd, -, hl⟩ := hwalk.split (List.cons_ne_nil _ _)
  refine ⟨name, d, front, hfront, ?_, hd⟩
  cases hl with
  | dot => exact absurd rfl hdot
  | dotdot => exact absurd rfl hdotdot
  | name _ _ _ _ _ hl =>
    cases hl
    rfl
  | link _ _ _ _ hfollow => exact absurd ⟨rfl, rfl⟩ hfollow
  | lastLink => rfl
  | new _ _ _ _ hmode => cases hmode

theorem target_ne_nil {fs : HostFs} {p : Path} {l : Loc} (h : fs.target p = some l) : l ≠ [] := by
  obtain ⟨name, d, -, -, rfl, -⟩ := target_cons h
  exact List.cons_ne_nil _ _

theorem entry_remove_self {fs : HostFs} {p : Path} {l : Loc} (h : fs.target p = some l) :
    (fs.remove l).entry l = none := by
  rw [entry_remove fs (target_ne_nil h), if_pos List.suffix_rfl]

/-- A directory that can be removed is where its path ends, whether that is followed or not. -/
theorem resolve_of_rmdir {fs : HostFs} {mode : Mode} (hmode : mode ≠ .create) {p : Path} {l : Loc}
    (h : fs.rmdir p = some l) : fs.resolve mode p = some l := by
  obtain ⟨htarget, hdir, -⟩ := rmdir_eq_some.mp h
  obtain ⟨name, hlast, -, -, hwalk⟩ := target_eq_some.mp htarget
  have hfollow := hwalk.follow (by simp [hdir])
  rw [resolve_eq_some]
  constructor
  · intro hempty
    rw [hempty] at hlast
    cases hlast
  constructor
  · intro _
    exact ⟨hfollow, hdir⟩
  · intro _
    cases mode with
    | follow => exact hfollow
    | nofollow => exact hwalk
    | create => exact absurd rfl hmode

/-- A directory that can be removed can be opened. -/
theorem opendir_of_rmdir {fs : HostFs} {p : Path} {l : Loc} (h : fs.rmdir p = some l) :
    fs.opendir p = some l :=
  opendir_eq_some.mpr ⟨resolve_of_rmdir (by decide) h, (rmdir_eq_some.mp h).2.1⟩

/-- `q` is composed from `p` by names of directories that are opened, links included. -/
inductive Reaches (fs : HostFs) : Path → Path → Prop
  | here {p : Path} : Reaches fs p p
  | into {p q name : Path} {d : Loc} : fs.opendir p = some d → name ∈ fs.children d →
      Reaches fs (p ++ slash :: name) q → Reaches fs p q

theorem Reaches.down {fs : HostFs} {p q name : Path} {d : Loc} (h : Reaches fs p q)
    (hd : fs.opendir q = some d) (hname : name ∈ fs.children d) :
    Reaches fs p (q ++ slash :: name) := by
  induction h with
  | here => exact .into hd hname .here
  | into hd' hname' _ ih => exact .into hd' hname' (ih hd)

theorem validName_of_mem {fs : HostFs} {name : Path} {d : Loc} (h : name ∈ fs.children d) :
    ValidName name := by
  obtain ⟨e, he⟩ := (fs.mem_children name d).mp h
  exact (parent_dir he).2

end HostFs

theorem components_child (q : Path) {name : Path} (hname : ValidName name) :
    components (q ++ slash :: name) = components q ++ [name] := by
  rw [components, List.splitOn_append_cons_self, List.splitOn_eq_singleton hname.slash_notMem,
    List.filter_append]
  simp [components, hname.ne_nil]

theorem trailingSlash_child (q : Path) {name : Path} (hname : ValidName name) :
    trailingSlash (q ++ slash :: name) = false := by
  have hlast : (q ++ slash :: name).getLast? = name.getLast? := by
    rw [List.getLast?_append_cons, List.getLast?_cons_of_ne_nil hname.ne_nil]
  rw [trailingSlash, hlast, beq_eq_false_iff_ne]
  intro h
  exact hname.slash_notMem (List.mem_of_getLast? h)

/-- A name has no NUL, so that a composed path is cut where the front part is cut. -/
theorem cStr_child (q : Path) {name : Path} (hname : ValidName name) :
    cStr (q ++ slash :: name) = if 0 ∈ q then cStr q else q ++ slash :: name := by
  split
  · next h => exact cStr_append_of_mem h _
  · next h =>
    have htail : 0 ∉ slash :: name := by
      rw [List.mem_cons, not_or]
      exact ⟨by decide, hname.nul_notMem⟩
    rw [cStr_append_of_notMem h, cStr_eq_self htail]

namespace HostFs

/-- A visited path continues the first one, unless a NUL cuts both. -/
theorem Reaches.components {fs : HostFs} {p q : Path} (h : Reaches fs p q) :
    cStr q = cStr p ∨ (cStr p ≠ [] ∧ fs.start (cStr q) = fs.start (cStr p) ∧
      ∃ names, names ≠ [] ∧ PMTester.components (cStr q) = PMTester.components (cStr p) ++ names) := by
  induction h with
  | here => exact .inl rfl
  | @into p q name d hd hname _ ih =>
    have hvalid := validName_of_mem hname
    have hne := (resolve_eq_some.mp (opendir_eq_some.mp hd).1).1
    rw [cStr_child p hvalid] at ih
    by_cases hnul : 0 ∈ p
    · rwa [if_pos hnul] at ih
    · rw [if_neg hnul] at ih
      rw [cStr_eq_self hnul] at hne ⊢
      have hstart : fs.start (p ++ slash :: name) = fs.start p := by
        rw [start, start, List.head?_append_of_ne_nil _ hne]
      refine .inr ⟨hne, ?_⟩
      rcases ih with heq | ⟨-, hq, names, hnames, hcomponents⟩
      · exact ⟨by rw [heq, hstart], [name], by simp, by rw [heq, components_child p hvalid]⟩
      · refine ⟨hq.trans hstart, name :: names, by simp, ?_⟩
        rw [hcomponents, components_child p hvalid, List.append_assoc, List.singleton_append]

/-- At this path the function would remove the entry at `l`: the path leads to no directory with
entries, and the call for what it leads to would succeed. -/
structure Removes (fs : HostFs) (q : Path) (l : Loc) : Prop where
  stop : ∀ d, fs.opendir q = some d → fs.children d = []
  call : (fs.stat q = some false ∧ q ≠ basePath ∧ fs.unlink q = some l) ∨
    (fs.stat q ≠ some false ∧ fs.rmdir q = some l)

/-- Links that are followed do not lead to an entry outside the tree that can be removed. -/
def NoEscape (fs : HostFs) (p : Path) : Prop :=
  ∀ q l, Reaches fs p q → Removes fs q l → fs.InTree p l

theorem isFile_host {r : Readdir} {q : Path} {fs : HostFs} :
    isFile (host r) q fs = true ↔ fs.stat q = some false := by
  simp only [isFile, host]
  cases fs.stat q with
  | none => simp
  | some isDir => cases isDir <;> simp

/-- Wherever a visited directory can be removed, the root of the tree is still there. -/
theorem root_of_rmdir {fs fs' : HostFs} (hsub : Sub fs' fs) {p q : Path} (hq : Reaches fs p q)
    {l : Loc} (h : fs'.rmdir q = some l) :
    ∃ root, fs.resolve .nofollow p = some root ∧ (root = l ∨ ∃ e, fs'.entry root = some e) := by
  obtain ⟨htarget, hdir, -⟩ := rmdir_eq_some.mp h
  obtain ⟨name, hlast, -, -, hwalk⟩ := target_eq_some.mp htarget
  suffices hroot : ∃ root, fs'.resolve .nofollow p = some root ∧
      (root = l ∨ ∃ e, fs'.entry root = some e) by
    obtain ⟨root, hroot, hin⟩ := hroot
    exact ⟨root, hsub.resolve (by decide) hroot, hin⟩
  rcases hq.components with heq | ⟨hne, hstart, names, hnames, hcomponents⟩
  · have hsame : fs'.rmdir p = some l := by
      rw [← h, HostFs.rmdir, HostFs.rmdir, HostFs.target, HostFs.target, heq]
    exact ⟨l, resolve_of_rmdir (by decide) hsame, .inl rfl⟩
  · rw [hsub.start, hstart, ← hsub.start, hcomponents] at hwalk
    obtain ⟨d, -, hd, hdirD, -⟩ := hwalk.split hnames
    cases hslash : trailingSlash (cStr p) with
    | true =>
      refine ⟨d, resolve_eq_some.mpr ⟨hne, fun _ => ⟨hd, hdirD⟩, fun h => ?_⟩, .inr ⟨_, hdirD⟩⟩
      rw [hslash] at h
      cases h
    | false =>
      obtain ⟨root, hroot⟩ := hd.nofollow
      refine ⟨root, resolve_eq_some.mpr ⟨hne, fun h => ?_, fun _ => hroot⟩,
        .inr (hroot.entry_some (by decide))⟩
      rw [hslash] at h
      cases h

/-- The state of a run whose removals so far were in the tree. -/
structure Inside (fs : HostFs) (p : Path) (fs' : HostFs) : Prop where
  sub : Sub fs' fs
  outside : ∀ l, ¬ fs.InTree p l → fs'.entry l = fs.entry l

theorem Inside.remove {fs fs' : HostFs} {p : Path} (h : Inside fs p fs') {l : Loc} (hl : l ≠ [])
    (hin : fs.InTree p l) : Inside fs p (fs'.remove l) := by
  refine ⟨(sub_remove fs' hl).trans h.sub, fun other hout => ?_⟩
  rw [entry_remove fs' hl, if_neg, h.outside other hout]
  intro hbelow
  obtain ⟨root, hroot, hl⟩ := hin
  exact hout ⟨root, hroot, hl.trans hbelow⟩

theorem Inside.unlink {fs fs' : HostFs} {p : Path} (h : Inside fs p fs') (hno : NoEscape fs p)
    {q : Path} (hq : Reaches fs p q) (hfile : fs'.stat q = some false) (hbase : q ≠ basePath)
    {l : Loc} (hunlink : fs'.unlink q = some l) : Inside fs p (fs'.remove l) := by
  have hstat := h.sub.stat hfile
  have hl := target_ne_nil (unlink_eq_some.mp hunlink).2.1
  refine h.remove hl (hno q l hq ⟨fun d hd => ?_, .inl ⟨hstat, hbase, h.sub.unlink hunlink⟩⟩)
  obtain ⟨hres, hdir⟩ := opendir_eq_some.mp hd
  rw [HostFs.stat, hres, Option.bind_some, hdir] at hstat
  simp at hstat

/-- Outside the tree nothing was removed, so a directory that is empty there was empty from the
start. -/
theorem Inside.rmdir {fs fs' : HostFs} {p : Path} (h : Inside fs p fs') (hno : NoEscape fs p)
    {q : Path} (hq : Reaches fs p q) {l : Loc} (hrmdir : fs'.rmdir q = some l) :
    Inside fs p (fs'.remove l) := by
  obtain ⟨htarget, hdir, hempty⟩ := rmdir_eq_some.mp hrmdir
  refine h.remove (target_ne_nil htarget) ?_
  by_contra hout
  obtain ⟨root, hroot, hthere⟩ := root_of_rmdir h.sub hq hrmdir
  have hdir₀ := h.sub.2 _ _ hdir
  have hempty₀ : fs.children l = [] := by
    apply List.eq_nil_iff_forall_not_mem.mpr
    intro name hname
    obtain ⟨e, he⟩ := (fs.mem_children name l).mp hname
    have hkept : ∃ e, fs'.entry (name :: l) = some e := by
      by_cases hin : fs.InTree p (name :: l)
      · obtain ⟨root', hroot', hbelow⟩ := hin
        rw [hroot] at hroot'
        cases hroot'
        cases List.suffix_cons_iff.mp hbelow with
        | inl heq =>
          subst heq
          cases hthere with
          | inl heq => exact absurd heq (List.cons_ne_self name l)
          | inr hthere => exact hthere
        | inr hbelow => exact absurd ⟨root, hroot, hbelow⟩ hout
      · exact ⟨e, (h.outside _ hin).trans he⟩
    have hmem := (fs'.mem_children name l).mpr hkept
    rw [hempty] at hmem
    cases hmem
  have hrmdir₀ : fs.rmdir q = some l :=
    rmdir_eq_some.mpr ⟨h.sub.target htarget, hdir₀, hempty₀⟩
  have hopen := opendir_of_rmdir hrmdir₀
  refine hout (hno q l hq ⟨fun d hd => ?_, .inr ⟨?_, hrmdir₀⟩⟩)
  · rw [hopen] at hd
    cases hd
    exact hempty₀
  · rw [HostFs.stat, (opendir_eq_some.mp hopen).1, Option.bind_some, hdir₀]
    simp

theorem preserved_inside {fs : HostFs} {p : Path} (hno : NoEscape fs p) (r : Readdir) :
    Preserved (host r) (Reaches fs p) (Inside fs p) where
  down := by
    intro q fs' names name hq h hopen hname hdot hdotdot
    obtain ⟨d, hd, rfl⟩ := Option.map_eq_some_iff.mp hopen
    have hmem := (r.perm q _).mem_iff.mp hname
    have hchild : name ∈ fs'.children d := by simpa [hdot, hdotdot] using hmem
    obtain ⟨e, he⟩ := (fs'.mem_children name d).mp hchild
    exact hq.down (h.sub.opendir hd) ((fs.mem_children name d).mpr ⟨e, h.sub.2 _ _ he⟩)
  unlink := by
    intro q fs' fs'' hq h hfile hbase hunlink
    obtain ⟨l, hl, rfl⟩ := Option.map_eq_some_iff.mp hunlink
    exact h.unlink hno hq (isFile_host.mp hfile) hbase hl
  rmdir := by
    intro q fs' fs'' hq h hrmdir
    obtain ⟨l, hl, rfl⟩ := Option.map_eq_some_iff.mp hrmdir
    exact h.rmdir hno hq hl

/-- A run only removes entries. -/
theorem preserved_sub (fs : HostFs) (r : Readdir) :
    Preserved (host r) (fun _ => True) (Sub · fs) where
  down := fun _ _ _ _ _ _ _ _ _ _ => trivial
  unlink := by
    intro q fs' fs'' _ h _ _ hunlink
    obtain ⟨l, hl, rfl⟩ := Option.map_eq_some_iff.mp hunlink
    exact (sub_remove fs' (target_ne_nil (unlink_eq_some.mp hl).2.1)).trans h
  rmdir := by
    intro q fs' fs'' _ h hrmdir
    obtain ⟨l, hl, rfl⟩ := Option.map_eq_some_iff.mp hrmdir
    exact (sub_remove fs' (target_ne_nil (rmdir_eq_some.mp hl).1)).trans h

theorem deleteFiles_sub (r : Readdir) (depth : Nat) (path : Path) (fs : HostFs) :
    Sub (deleteFiles (host r) depth path fs).2 fs :=
  (preserved_sub fs r).run depth trivial (Sub.refl fs)

theorem deleteEntries_sub (r : Readdir) (depth : Nat) (path : Path) (names : List Path)
    (fs : HostFs) : Sub (deleteEntries (host r) (deleteFiles (host r) depth) path names fs).2 fs :=
  (preserved_sub fs r).entries (fun q _ _ h => (deleteFiles_sub r depth q _).trans h)
    (fun _ _ _ _ => trivial) (Sub.refl fs)

theorem entry_none_of_sub {fs fs' : HostFs} (h : Sub fs' fs) {l : Loc} (hl : fs.entry l = none) :
    fs'.entry l = none := by
  cases he : fs'.entry l with
  | none => rfl
  | some e =>
    have := h.2 l e he
    simp [hl] at this

/-- The name leads from one composed path to another. -/
def Leads (q path name : Path) : Prop := path ++ slash :: (name ++ [slash]) <+: q ++ [slash]

instance (q path name : Path) : Decidable (Leads q path name) := inferInstanceAs (Decidable (_ <+: _))

theorem Leads.unique {q path name name' : Path} (hname : slash ∉ name) (hname' : slash ∉ name')
    (h : Leads q path name) (h' : Leads q path name') : name = name' := by
  obtain ⟨rest, hrest⟩ := h
  obtain ⟨rest', hrest'⟩ := h'
  have heq : name ++ slash :: rest = name' ++ slash :: rest' := by
    simpa using hrest.trans hrest'.symm
  exact name_unique name name' _ _ hname hname' (.inr ⟨rest, rfl⟩) (.inr ⟨rest', rfl⟩) heq

theorem Reaches.continues {fs : HostFs} {p q : Path} (h : Reaches fs p q) :
    p = q ∨ p ++ [slash] <+: q := by
  induction h with
  | here => exact .inl rfl
  | @into p q name d _ _ _ ih =>
    have hfirst : p ++ [slash] <+: p ++ slash :: name := ⟨name, by simp⟩
    rcases ih with rfl | ih
    · exact .inr hfirst
    · exact .inr (hfirst.trans ((List.prefix_append _ _).trans ih))

/-- Directory streams that begin with the name on the way to `q`. -/
def orderTo (q : Path) : Readdir where
  order path names :=
    match names.find? fun name => decide (Leads q path name) with
    | some name => name :: names.erase name
    | none => names
  perm := by
    intro path names
    split
    · next name hname => exact (List.perm_cons_erase (List.mem_of_find?_eq_some hname)).symm
    · rfl

theorem orderTo_first {fs : HostFs} {q p name : Path} {d : Loc} (hname : name ∈ fs.children d)
    (hq : Reaches fs (p ++ slash :: name) q) :
    ∃ rest, (orderTo q).order p (dot :: dotdot :: fs.children d) = name :: rest := by
  have hleads : Leads q p name := by
    cases hq.continues with
    | inl heq => exact ⟨[], by simp [← heq]⟩
    | inr hfront =>
      have hfirst : p ++ slash :: (name ++ [slash]) <+: q := by simpa using hfront
      exact hfirst.trans (List.prefix_append _ _)
  cases hfind : (dot :: dotdot :: fs.children d).find? fun n => decide (Leads q p n) with
  | none =>
    have hnot := List.find?_eq_none.mp hfind name (by simp [hname])
    exact absurd hleads (by simpa using hnot)
  | some first =>
    have hfirst : Leads q p first := by simpa using List.find?_some hfind
    have hslash : slash ∉ first := by
      have hmem := List.mem_of_find?_eq_some hfind
      simp only [List.mem_cons] at hmem
      rcases hmem with rfl | rfl | hmem
      · decide
      · decide
      · exact (validName_of_mem hmem).slash_notMem
    obtain rfl := hfirst.unique hslash (validName_of_mem hname).slash_notMem hleads
    refine ⟨(dot :: dotdot :: fs.children d).erase first, ?_⟩
    simp only [orderTo, hfind]

theorem opendir_ne_nil {fs : HostFs} {p : Path} {d : Loc} (h : fs.opendir p = some d) : p ≠ [] := by
  rintro rfl
  exact (resolve_eq_some.mp (opendir_eq_some.mp h).1).1 rfl

theorem isEmptyDirOrFile_host {r : Readdir} {p : Path} {fs : HostFs} :
    isEmptyDirOrFile (host r) p fs = true ↔ ∀ d, fs.opendir p = some d → fs.children d = [] := by
  simp only [isEmptyDirOrFile, host]
  cases hopen : fs.opendir p with
  | none => simp
  | some d =>
    have hlen := (r.perm p (dot :: dotdot :: fs.children d)).length_eq
    simp [hlen, ← List.length_eq_zero_iff]

/-- The call on the path of the entry itself. Only the mount point is left to the caller. -/
theorem removes_here (r : Readdir) {fs : HostFs} {q : Path} {l : Loc} (hrem : Removes fs q l) :
    (deleteFiles (host r) 1 q fs).2.entry l = none ∨
      (fs.rmdir q = some l ∧ isFile (host r) q fs = false ∧
        deleteFiles (host r) 1 q fs = (some true, fs)) := by
  have hne : q ≠ [] := by
    rintro rfl
    rcases hrem.call with ⟨-, -, hcall⟩ | ⟨-, hcall⟩
    · exact absurd hcall (by simp [HostFs.unlink, HostFs.target, PMTester.components, cStr])
    · exact absurd hcall (by simp [HostFs.rmdir, HostFs.target, PMTester.components, cStr])
  have hstop := isEmptyDirOrFile_host (r := r).mpr hrem.stop
  rw [deleteFiles, if_neg hne, if_pos hstop]
  rcases hrem.call with ⟨hstat, hbase, hcall⟩ | ⟨hstat, hcall⟩
  · rw [if_neg hbase, if_pos (isFile_host.mpr hstat)]
    left
    simp only [host, hcall, Option.map_some, succeeded]
    exact entry_remove_self (unlink_eq_some.mp hcall).2.1
  · have hfile : isFile (host r) q fs = false := by
      rw [← Bool.not_eq_true, isFile_host]
      exact hstat
    by_cases hbase : q = basePath
    · exact .inr ⟨hcall, hfile, by rw [if_pos hbase]⟩
    · rw [if_neg hbase, hfile]
      left
      simp only [host, hcall, Option.map_some, succeeded, Bool.false_eq_true, if_false]
      exact entry_remove_self (rmdir_eq_some.mp hcall).1

/-- A round of the loop whose recursive call removes the entry. -/
theorem deleteEntries_gone (r : Readdir) (depth : Nat) {fs : HostFs} {path name : Path} {l : Loc}
    (hdots : ¬ (name = dot ∨ name = dotdot))
    (hgone : (deleteFiles (host r) depth (path ++ slash :: name) fs).2.entry l = none)
    (rest : List Path) :
    (deleteEntries (host r) (deleteFiles (host r) depth) path (name :: rest) fs).2.entry l =
      none := by
  rw [deleteEntries, if_neg hdots]
  simp only
  split
  · next fs₁ hrun =>
    have hgone₁ : fs₁.entry l = none := by rwa [hrun] at hgone
    split
    · split
      · next fs₂ hrmdir =>
        have hsub := (preserved_sub fs₁ r).rmdir _ _ _ trivial (Sub.refl fs₁) hrmdir
        exact entry_none_of_sub (deleteEntries_sub _ _ _ _ _) (entry_none_of_sub hsub hgone₁)
      · exact hgone₁
    · exact entry_none_of_sub (deleteEntries_sub _ _ _ _ _) hgone₁
  · next hrun => rwa [hrun] at hgone

/-- On a run in that order the entry is removed, unless it is the mount point and its caller removes
it. -/
theorem reaches_removes {fs : HostFs} {p q : Path} {l : Loc} (hq : Reaches fs p q)
    (hrem : Removes fs q l) :
    ∃ depth, (deleteFiles (host (orderTo q)) depth p fs).2.entry l = none ∨
      (p = q ∧ fs.rmdir q = some l ∧ isFile (host (orderTo q)) q fs = false ∧
        deleteFiles (host (orderTo q)) depth p fs = (some true, fs)) := by
  induction hq with
  | @here q =>
    refine ⟨1, ?_⟩
    cases removes_here (orderTo q) hrem with
    | inl hgone => exact .inl hgone
    | inr hleft => exact .inr ⟨rfl, hleft⟩
  | @into p q name d hopen hname hq ih =>
    obtain ⟨depth, hdepth⟩ := ih hrem
    obtain ⟨rest, hrest⟩ := orderTo_first hname hq
    have hvalid := validName_of_mem hname
    have hmore : ¬ isEmptyDirOrFile (host (orderTo q)) p fs = true := by
      rw [isEmptyDirOrFile_host]
      intro hall
      have hempty := hall d hopen
      rw [hempty] at hname
      cases hname
    have hnames : (host (orderTo q)).opendir p fs = some (name :: rest) := by
      simp only [host, hopen, Option.map_some, hrest]
    refine ⟨depth + 1, .inl ?_⟩
    rw [deleteFiles, if_neg (opendir_ne_nil hopen), if_neg hmore, hnames]
    show (deleteEntries _ _ p (name :: rest) fs).2.entry l = none
    rcases hdepth with hgone | ⟨rfl, hcall, hfile, hrun⟩
    · exact deleteEntries_gone _ depth hvalid.not_dots hgone rest
    · have hrmdir : (host (orderTo (p ++ slash :: name))).rmdir (p ++ slash :: name) fs =
          some (fs.remove l) := by
        simp only [host, hcall, Option.map_some]
      rw [deleteEntries, if_neg hvalid.not_dots]
      simp only [hrun, hfile, Bool.not_false, if_true, hrmdir]
      exact entry_none_of_sub (deleteEntries_sub _ _ _ _ _)
        (entry_remove_self (rmdir_eq_some.mp hcall).1)

/-- Whatever the order of the directory streams, no entry outside the tree is removed. -/
def Contained (fs : HostFs) (p : Path) : Prop :=
  ∀ (r : Readdir) (depth : Nat) (l : Loc), ¬ fs.InTree p l →
    (deleteFiles (host r) depth p fs).2.entry l = fs.entry l

/-- `deleteFiles` stays inside its tree exactly where no link leads it to an entry outside that can
be removed. -/
theorem deleteFiles_contained_iff (fs : HostFs) (p : Path) : Contained fs p ↔ NoEscape fs p := by
  constructor
  · intro h q l hq hrem
    by_contra hout
    have hthere : ∃ e, fs.entry l = some e := by
      rcases hrem.call with ⟨-, -, hcall⟩ | ⟨-, hcall⟩
      · obtain ⟨-, -, e, he, -⟩ := unlink_eq_some.mp hcall
        exact ⟨e, he⟩
      · exact ⟨_, (rmdir_eq_some.mp hcall).2.1⟩
    obtain ⟨e, he⟩ := hthere
    obtain ⟨depth, hgone | ⟨rfl, hcall, -, -⟩⟩ := reaches_removes hq hrem
    · rw [h (orderTo q) depth l hout, he] at hgone
      cases hgone
    · exact hout ⟨l, resolve_of_rmdir (by decide) hcall, List.suffix_rfl⟩
  · intro h r depth l hout
    exact ((preserved_inside h r).run depth .here ⟨Sub.refl fs, fun _ _ => rfl⟩).outside l hout

/-- Streams that list a directory as it is. -/
def inOrder : Readdir := ⟨fun _ names => names, fun _ _ => .refl _⟩

def etc : Path := path ['e', 't', 'c']
def passwd : Path := path ['p', 'a', 's', 's', 'w', 'd']
def mnt : Path := path ['m', 'n', 't']
def pmem0 : Path := path ['p', 'm', 'e', 'm', '0']

/-- `/mnt/pmem0/l` is a link to `/etc`. -/
def linkOut : HostFs where
  entries := [([etc], .dir), ([passwd, etc], .regular), ([mnt], .dir), ([pmem0, mnt], .dir),
    ([path ['l'], pmem0, mnt], .link (slash :: etc))]
  cwd := []
  nodup := by decide
  closed := by
    intro x hx
    simp only [List.mem_cons, List.not_mem_nil, or_false] at hx
    rcases hx with rfl | rfl | rfl | rfl | rfl <;> exact ⟨_, _, rfl, by decide, by decide⟩

theorem passwd_removed : ¬ ∀ (fs : HostFs) (p : Path), Contained fs p := by
  intro h
  have hkept := h linkOut basePath inOrder 3 [passwd, etc]
  have hroot : linkOut.resolve .nofollow basePath = some [pmem0, mnt] := by decide +kernel
  have hout : ¬ linkOut.InTree basePath [passwd, etc] := by
    rintro ⟨root, hroot', hbelow⟩
    rw [hroot] at hroot'
    cases hroot'
    exact absurd hbelow (by decide)
  have hgone : (deleteFiles (host inOrder) 3 basePath linkOut).2.entry [passwd, etc] = none := by
    decide +kernel
  have hthere : linkOut.entry [passwd, etc] = some .regular := by decide +kernel
  rw [hkept hout, hthere] at hgone
  cases hgone

end HostFs

end PMTester
