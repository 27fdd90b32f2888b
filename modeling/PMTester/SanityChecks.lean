import Mathlib.Data.List.Sort
import PMTester.DeleteTree

/-!
# The sanity checks

`makeFiles` puts a file into every directory that `get_contents` collects, and
`deleteFiles` then removes everything. A healthy tree without links passes: the
file in each directory is what makes `deleteFiles` leave the directory to its
caller instead of removing it itself.
-/
namespace PMTester

variable {σ : Type}

/-- `"_dummy"`. -/
def dummyName : Path := path ['_', 'd', 'u', 'm', 'm', 'y']

/-- The loop of `makeFiles` over the collected entries. -/
def makeDummies (host : DirHost σ) (base : Path) :
    List (Sigma fun _ : Path => FileAttributes) → σ → Bool × σ
  | [], s => (true, s)
  | ⟨key, fa⟩ :: rest, s =>
    if fa.statAttr.isDir then
      let filepath := base ++ key ++ slash :: dummyName
      match host.openCreat filepath s with
      | none => (false, s)
      | some s => makeDummies host base rest s
    else makeDummies host base rest s

/-- `makeFiles`, with the tree that `get_contents` finds at the base path. A `std::map` is walked in
the order of its keys. -/
def DiskContents.makeFiles (host : DirHost σ) (disk : DiskContents) (base : Path) (root : Node)
    (s : σ) : Bool × DiskContents × σ :=
  let contents := getContents disk.mountPoint base root disk.contents
  let made := makeDummies host base
    (contents.entries.mergeSort fun a b => decide (a.1 ≤ b.1)) s
  (made.1, { disk with contents := contents }, made.2)

def DiskContents.sanityChecks (host : DirHost σ) (depth : Nat) (disk : DiskContents) (root : Node)
    (s : σ) : Option Bool × DiskContents × σ :=
  match disk.makeFiles host basePath root s with
  | (false, disk, s) => (some false, disk, s)
  | (true, disk, s) =>
    let deleted := deleteFiles host depth basePath s
    (deleted.1, disk, deleted.2)

mutual

/-- The calls of `get_contents` answer with this tree at a location. -/
def Node.Presents (fs : HostFs) (l : Loc) : Node → Prop
  | .dir stat opens entries => fs.entry l = some .dir ∧ stat.isSome ∧ opens = true ∧
      (∀ name ∈ fs.children l, name ∈ entries.names) ∧ entries.Presents fs l
  | .reg stat _ => fs.entry l = some .regular ∧ stat.isSome
  | .special _ stat => fs.entry l = some .special ∧ stat.isSome
  | .lnk lstat _ => (∃ target, fs.entry l = some (.link target)) ∧ lstat.isSome
  | .dots _ => False

def Entries.Presents (fs : HostFs) (l : Loc) : Entries → Prop
  | .nil => True
  | .cons dirEntry node rest =>
    (node.isDots = true ∨ node.Presents fs (dirEntry.dName :: l)) ∧ rest.Presents fs l

end

/-- The attributes say that an entry is a directory. -/
def Occurrence.IsDir (o : Occurrence) : Prop := ∃ fa, o.attrs = some fa ∧ fa.statAttr.isDir = true

/-- A node whose collected attributes say so is a directory. -/
theorem Node.isDir_of_collected {fs : HostFs} {l : Loc} {node : Node} {dirEntry : Dirent}
    {fa : FileAttributes} (hmode : ∀ st, node.lstat = some st → st.stMode &&& sIfmt = node.fmt)
    (hwf : node.WellFormed) (h : node.Presents fs l) (hfa : node.collected dirEntry = some fa)
    (hdir : fa.statAttr.isDir = true) : fs.entry l = some .dir := by
  have hfmt : node.fmt = sIfdir := by
    rw [(node.collected_describes dirEntry fa hmode hwf hfa).fmt_eq]
    simpa [Stat.isDir] using hdir
  cases node with
  | dir stat opens entries => exact h.1
  | reg stat md5sum => exact absurd hfmt (show sIfreg ≠ sIfdir by decide)
  | lnk lstat target => exact absurd hfmt (show sIflnk ≠ sIfdir by decide)
  | special fmt stat => exact absurd hfmt hwf.1
  | dots stat => exact h.elim

/-- The node at a directory is one that is read. -/
theorem Node.dir_of_presents {fs : HostFs} {l : Loc} {node : Node} (h : node.Presents fs l)
    (hdir : fs.entry l = some .dir) : ∃ stat entries, node = .dir (some stat) true entries := by
  cases node with
  | dir stat opens entries =>
    obtain ⟨-, hstat, rfl, -⟩ := h
    obtain ⟨st, rfl⟩ := Option.isSome_iff_exists.mp hstat
    exact ⟨st, entries, rfl⟩
  | reg stat md5sum => exact absurd (h.1.symm.trans hdir) (by simp)
  | lnk lstat target =>
    obtain ⟨⟨t, ht⟩, -⟩ := h
    exact absurd (ht.symm.trans hdir) (by simp)
  | special fmt stat => exact absurd (h.1.symm.trans hdir) (by simp)
  | dots stat => exact h.elim

mutual

/-- What is collected as a directory is one. -/
theorem Node.census_dir (fs : HostFs) (root ns : Loc) (node : Node) (hwf : node.WellFormed)
    (h : node.Presents fs (ns ++ root)) (o : Occurrence) (ho : o ∈ node.census true (pathOf ns))
    (hdir : o.IsDir) : ∃ ms, o.path = pathOf (ms ++ ns) ∧ ms ≠ [] ∧
      fs.entry (ms ++ ns ++ root) = some .dir := by
  cases node with
  | dir stat opens entries =>
    obtain ⟨-, -, rfl, -, hentries⟩ := h
    exact entries.census_dir fs root ns hwf hentries o ho hdir
  | reg stat md5sum => simp [Node.census] at ho
  | lnk lstat target => simp [Node.census] at ho
  | special fmt stat => simp [Node.census] at ho
  | dots stat => simp [Node.census] at ho

theorem Entries.census_dir (fs : HostFs) (root ns : Loc) (entries : Entries)
    (hwf : entries.WellFormed) (h : entries.Presents fs (ns ++ root)) (o : Occurrence)
    (ho : o ∈ entries.census true (pathOf ns)) (hdir : o.IsDir) :
    ∃ ms, o.path = pathOf (ms ++ ns) ∧ ms ≠ [] ∧ fs.entry (ms ++ ns ++ root) = some .dir := by
  cases entries with
  | nil => simp [Entries.census] at ho
  | cons dirEntry node rest =>
    obtain ⟨-, -, -, -, hmode, hnode, hrest⟩ := hwf
    obtain ⟨hpresents, hpresentsRest⟩ := h
    cases hdots : node.isDots with
    | true =>
      simp only [Entries.census, hdots, if_true] at ho
      exact rest.census_dir fs root ns hrest hpresentsRest o ho hdir
    | false =>
      have hpresents := hpresents.resolve_left (by simp [hdots])
      simp only [Entries.census, hdots, Bool.false_eq_true, if_false, List.mem_cons,
        List.mem_append, Bool.true_and] at ho
      rcases ho with rfl | hin | hin
      · obtain ⟨fa, hfa, hfaDir⟩ := hdir
        exact ⟨[dirEntry.dName], rfl, by simp,
          node.isDir_of_collected hmode hnode hpresents (by simpa using hfa) hfaDir⟩
      · have hbelow : o ∈ node.census true (pathOf (dirEntry.dName :: ns)) := by
          cases hstat : node.stat.isSome with
          | true => rwa [hstat] at hin
          | false =>
            cases node with
            | dir stat opens entries => exact absurd hpresents.2.1 (by simpa [Node.stat] using hstat)
            | _ => simp [Node.census] at hin
        obtain ⟨ms, hpath, -, hentry⟩ :=
          node.census_dir fs root (dirEntry.dName :: ns) hnode hpresents o hbelow hdir
        exact ⟨ms ++ [dirEntry.dName], by simpa using hpath, by simp, by simpa using hentry⟩
      · exact rest.census_dir fs root ns hrest hpresentsRest o hin hdir

end

mutual

/-- Every directory of the tree is collected. -/
theorem Node.dir_census (fs : HostFs) (root ns : Loc) (node : Node) (hwf : node.WellFormed)
    (h : node.Presents fs (ns ++ root)) (ms : Loc) (hms : ms ≠ [])
    (hdir : fs.entry (ms ++ (ns ++ root)) = some .dir) :
    ∃ o ∈ node.census true (pathOf ns), o.path = pathOf (ms ++ ns) ∧ o.IsDir := by
  obtain ⟨front, name, rfl⟩ := List.eq_nil_or_concat ms |>.resolve_left hms
  have hbelow : ns ++ root <:+ front.concat name ++ (ns ++ root) := List.suffix_append _ _
  have hne : ns ++ root ≠ front.concat name ++ (ns ++ root) := by
    intro heq
    have := congrArg List.length heq
    simp at this
    omega
  have hself := HostFs.dir_of_suffix hdir hbelow hne
  obtain ⟨e, he⟩ := HostFs.entry_of_suffix hdir
    (show name :: (ns ++ root) <:+ front.concat name ++ (ns ++ root) from ⟨front, by simp⟩)
  cases node with
  | dir stat opens entries =>
    obtain ⟨-, -, rfl, hnames, hentries⟩ := h
    have hname := hnames name ((fs.mem_children name _).mpr ⟨e, he⟩)
    obtain ⟨o, ho, hpath, hisDir⟩ := entries.dir_census fs root ns hwf hentries front name
      (HostFs.parent_dir he).2 hname (by simpa using hdir)
    exact ⟨o, ho, by simpa using hpath, hisDir⟩
  | reg stat md5sum => exact absurd (h.1.symm.trans hself) (by simp)
  | lnk lstat target =>
    obtain ⟨⟨t, ht⟩, -⟩ := h
    exact absurd (ht.symm.trans hself) (by simp)
  | special fmt stat => exact absurd (h.1.symm.trans hself) (by simp)
  | dots stat => exact h.elim

theorem Entries.dir_census (fs : HostFs) (root ns : Loc) (entries : Entries)
    (hwf : entries.WellFormed) (h : entries.Presents fs (ns ++ root)) (ms : Loc) (name : Path)
    (hvalid : ValidName name) (hname : name ∈ entries.names)
    (hdir : fs.entry (ms ++ name :: (ns ++ root)) = some .dir) :
    ∃ o ∈ entries.census true (pathOf ns), o.path = pathOf (ms ++ name :: ns) ∧ o.IsDir := by
  cases entries with
  | nil => cases hname
  | cons dirEntry node rest =>
    obtain ⟨-, -, hdotsName, -, hmode, hnode, hrest⟩ := hwf
    obtain ⟨hpresents, hpresentsRest⟩ := h
    have inRest (hin : name ∈ rest.names) : ∃ o ∈ rest.census true (pathOf ns),
        o.path = pathOf (ms ++ name :: ns) ∧ o.IsDir :=
      rest.dir_census fs root ns hrest hpresentsRest ms name hvalid hin hdir
    cases hdots : node.isDots with
    | true =>
      have hne : name ≠ dirEntry.dName := by
        rintro rfl
        exact (hdotsName.mp hdots).elim hvalid.ne_dot hvalid.ne_dotdot
      obtain ⟨o, ho, hresult⟩ := inRest ((List.mem_cons.mp hname).resolve_left hne)
      refine ⟨o, ?_, hresult⟩
      simpa only [Entries.census, hdots, if_true] using ho
    | false =>
      have hpresents := hpresents.resolve_left (by simp [hdots])
      simp only [Entries.census, hdots, Bool.false_eq_true, if_false, if_true, Bool.true_and]
      rcases List.mem_cons.mp hname with rfl | hin
      · by_cases hms : ms = []
        · subst hms
          obtain ⟨st, entries, rfl⟩ := Node.dir_of_presents hpresents hdir
          have hst : st.stMode &&& sIfmt = sIfdir := hmode st rfl
          exact ⟨_, List.mem_cons_self, rfl, _, rfl,
            by simp [FileAttributes.setStatAttr, Stat.isDir, hst]⟩
        · obtain ⟨o, ho, hpath, hisDir⟩ :=
            node.dir_census fs root (dirEntry.dName :: ns) hnode hpresents ms hms hdir
          obtain ⟨st, entries, rfl⟩ := Node.dir_of_presents hpresents
            (HostFs.dir_of_suffix hdir (List.suffix_append _ _) (by
              intro heq
              exact hms (List.append_left_eq_self.mp heq.symm)))
          exact ⟨o, List.mem_cons_of_mem _ (List.mem_append_left _ ho), hpath, hisDir⟩
      · obtain ⟨o, ho, hresult⟩ := inRest hin
        exact ⟨o, List.mem_cons_of_mem _ (List.mem_append_right _ ho), hresult⟩

end

theorem mem_insertAll {l : List (Path × FileAttributes)} {c : Contents} {key : Path}
    {fa : FileAttributes} (h : (insertAll l c).lookup key = some fa) :
    (key, fa) ∈ l ∨ c.lookup key = some fa := by
  induction l generalizing c with
  | nil => exact .inr h
  | cons entry l ih =>
    cases ih h with
    | inl hin => exact .inl (List.mem_cons_of_mem _ hin)
    | inr hin =>
      by_cases hkey : key = entry.1
      · subst hkey
        rw [AList.lookup_insert] at hin
        cases hin
        exact .inl List.mem_cons_self
      · rw [AList.lookup_insert_ne hkey] at hin
        exact .inr hin

theorem lookup_insertAll_other {l : List (Path × FileAttributes)} {c : Contents} {key : Path}
    (h : key ∉ l.map Prod.fst) : (insertAll l c).lookup key = c.lookup key := by
  induction l generalizing c with
  | nil => rfl
  | cons entry l ih =>
    rw [List.map_cons, List.mem_cons, not_or] at h
    exact (ih h.2).trans (AList.lookup_insert_ne h.1)

theorem insertAll_mem {l : List (Path × FileAttributes)} {c : Contents} {key : Path}
    {fa : FileAttributes} (hnodup : (l.map Prod.fst).Nodup) (h : (key, fa) ∈ l) :
    (insertAll l c).lookup key = some fa := by
  induction l generalizing c with
  | nil => cases h
  | cons entry l ih =>
    rw [List.map_cons, List.nodup_cons] at hnodup
    rcases List.mem_cons.mp h with rfl | h
    · exact (lookup_insertAll_other hnodup.1).trans (AList.lookup_insert _)
    · exact ih hnodup.2 h

/-- The map lists only directories of the tree as directories. -/
def ListsDirs (fs : HostFs) (c : Contents) : Prop :=
  ∀ key fa, c.lookup key = some fa → fa.statAttr.isDir = true →
    ∃ ms, key = pathOf ms ∧ ms ≠ [] ∧ fs.entry (ms ++ HostFs.mountRoot) = some .dir

/-- The map lists every directory of the tree. -/
def ListsAllDirs (fs : HostFs) (c : Contents) : Prop :=
  ∀ ms, ms ≠ [] → fs.entry (ms ++ HostFs.mountRoot) = some .dir →
    ∃ fa, c.lookup (pathOf ms) = some fa ∧ fa.statAttr.isDir = true

theorem getContents_dirs {fs : HostFs} {node : Node} (hwf : node.WellFormed)
    (h : node.Presents fs HostFs.mountRoot) {c : Contents} (hc : ListsDirs fs c) :
    ListsDirs fs (getContents basePath basePath node c) ∧
      ListsAllDirs fs (getContents basePath basePath node c) := by
  have hall : getContents basePath basePath node c = insertAll (seen node.occurrences) c := by
    have heq := getContents_eq basePath [] node hwf c
    rwa [List.append_nil] at heq
  rw [hall]
  constructor
  · intro key fa hlookup hdir
    cases mem_insertAll hlookup with
    | inl hin =>
      obtain ⟨o, ho, hattrs, rfl⟩ := (mem_seen _ key fa).mp hin
      obtain ⟨ms, hpath, hms, hentry⟩ := node.census_dir fs HostFs.mountRoot [] hwf h o ho
        ⟨fa, hattrs, hdir⟩
      exact ⟨ms, by simpa using hpath, hms, by simpa using hentry⟩
    | inr hin => exact hc key fa hin hdir
  · intro ms hms hentry
    obtain ⟨o, ho, hpath, fa, hattrs, hdir⟩ :=
      node.dir_census fs HostFs.mountRoot [] hwf h ms hms hentry
    have hin : (pathOf ms, fa) ∈ seen node.occurrences :=
      (mem_seen _ _ _).mpr ⟨o, ho, hattrs, by simpa using hpath⟩
    exact ⟨fa, insertAll_mem (seen_nodup node hwf) hin, hdir⟩

namespace HostFs

/-- A `_dummy` that exists is a regular file. -/
def DummiesRegular (fs : HostFs) : Prop :=
  ∀ d e, mountRoot <:+ d → fs.entry (dummyName :: d) = some e → e = .regular

theorem openCreat_dummy {fs : HostFs} {d : Loc} (hd : fs.entry d = some .dir)
    (h : ∀ e, fs.entry (dummyName :: d) = some e → e = .regular) :
    ∃ fs', fs.openCreat (pathOf (dummyName :: d)) = some fs' ∧
      ∀ l, fs'.entry l = if l = dummyName :: d then some .regular else fs.entry l := by
  have hvalid : ValidName dummyName := by decide
  cases he : fs.entry (dummyName :: d) with
  | some e =>
    obtain rfl := h e he
    have hres : fs.resolve .create (pathOf (dummyName :: d)) = some (dummyName :: d) :=
      resolve_pathOf hvalid hd (walks_last he (by simp))
    refine ⟨fs, by simp only [openCreat, hres, he, if_true], fun l => ?_⟩
    split
    · next heq => rw [heq, he]
    · rfl
  | none =>
    have hres : fs.resolve .create (pathOf (dummyName :: d)) = some (dummyName :: d) :=
      resolve_pathOf hvalid hd (.new hd hvalid.ne_dot hvalid.ne_dotdot he rfl)
    refine ⟨fs.create dummyName d hvalid hd he, ?_, entry_create fs dummyName d hvalid hd he⟩
    simp only [openCreat, hres, he]
    rw [if_neg (by simp), dif_pos ⟨hvalid, hd, trivial⟩]

/-- The state with regular `_dummy` files in some directories of the tree. -/
structure Dummied (fs fs' : HostFs) : Prop where
  kept : ∀ l e, fs.entry l = some e → fs'.entry l = some e
  fresh : ∀ l e, fs'.entry l = some e → fs.entry l = some e ∨
    (e = .regular ∧ ∃ d, l = dummyName :: d)

theorem Dummied.refl (fs : HostFs) : Dummied fs fs := ⟨fun _ _ h => h, fun _ _ h => .inl h⟩

theorem Dummied.trans {fs fs' fs'' : HostFs} (h : Dummied fs fs') (h' : Dummied fs' fs'') :
    Dummied fs fs'' := by
  constructor
  · intro l e he
    exact h'.kept l e (h.kept l e he)
  · intro l e he
    cases h'.fresh l e he with
    | inl hold => exact h.fresh l e hold
    | inr hnew => exact .inr hnew

theorem Dummied.dummiesRegular {fs fs' : HostFs} (h : Dummied fs fs') (hfs : DummiesRegular fs) :
    DummiesRegular fs' := by
  intro d e hd he
  rcases h.fresh _ e he with hold | ⟨hregular, -⟩
  · exact hfs d e hd hold
  · exact hregular

theorem makeDummies_succeeds (r : Readdir) {fs : HostFs} (hdummies : DummiesRegular fs)
    (entries : List (Sigma fun _ : Path => FileAttributes))
    (hdirs : ∀ entry ∈ entries, entry.2.statAttr.isDir = true →
      ∃ ms, entry.1 = pathOf ms ∧ ms ≠ [] ∧ fs.entry (ms ++ mountRoot) = some .dir) :
    ∃ fs', makeDummies (host r) basePath entries fs = (true, fs') ∧ Dummied fs fs' ∧
      ∀ entry ∈ entries, entry.2.statAttr.isDir = true →
        ∃ ms, entry.1 = pathOf ms ∧ fs'.entry (dummyName :: (ms ++ mountRoot)) = some .regular := by
  induction entries generalizing fs with
  | nil => exact ⟨fs, rfl, .refl fs, by simp⟩
  | cons entry rest ih =>
    obtain ⟨key, fa⟩ := entry
    cases hdir : fa.statAttr.isDir with
    | false =>
      obtain ⟨fs', hrun, hdummied, hmade⟩ := ih hdummies
        fun entry hentry => hdirs entry (List.mem_cons_of_mem _ hentry)
      refine ⟨fs', by simpa [makeDummies, hdir] using hrun, hdummied, ?_⟩
      intro entry hentry hentryDir
      rcases List.mem_cons.mp hentry with rfl | hentry
      · rw [hdir] at hentryDir
        cases hentryDir
      · exact hmade entry hentry hentryDir
    | true =>
      obtain ⟨ms, (hkey : key = pathOf ms), -, hms⟩ := hdirs ⟨key, fa⟩ List.mem_cons_self hdir
      have hroot : mountRoot <:+ ms ++ mountRoot := List.suffix_append _ _
      obtain ⟨fs₁, hopen, hentries⟩ := openCreat_dummy hms fun e => hdummies _ e hroot
      have hfile : basePath ++ key ++ slash :: dummyName = pathOf (dummyName :: (ms ++ mountRoot)) := by
        rw [pathOf_cons, pathOf_append, basePath_eq, hkey]
      have hdummied₁ : Dummied fs fs₁ := by
        constructor
        · intro l e he
          rw [hentries l]
          split
          · next heq =>
            subst heq
            rw [hdummies _ e hroot he]
          · exact he
        · intro l e he
          rw [hentries l] at he
          split at he
          · next heq => exact .inr ⟨(Option.some.inj he).symm, _, heq⟩
          · exact .inl he
      obtain ⟨fs', hrun, hdummied, hmade⟩ := ih (hdummied₁.dummiesRegular hdummies)
        fun entry hentry hentryDir => by
          obtain ⟨ms', hkey', hne', hms'⟩ := hdirs entry (List.mem_cons_of_mem _ hentry) hentryDir
          exact ⟨ms', hkey', hne', hdummied₁.kept _ _ hms'⟩
      have hcall : (host r).openCreat (basePath ++ key ++ slash :: dummyName) fs = some fs₁ := by
        rw [hfile]
        exact hopen
      refine ⟨fs', ?_, hdummied₁.trans hdummied, ?_⟩
      · simp only [makeDummies, hdir, if_true, hcall]
        exact hrun
      · intro entry hentry hentryDir
        rcases List.mem_cons.mp hentry with rfl | hentry
        · exact ⟨ms, hkey, hdummied.kept _ _ (by rw [hentries, if_pos rfl])⟩
        · exact hmade entry hentry hentryDir

theorem exists_height (fs : HostFs) : ∃ height, ∀ l e, fs.entry l = some e → l.length ≤ height := by
  have hlist (entries : List (Loc × Entry)) : ∃ height, ∀ x ∈ entries, x.1.length ≤ height := by
    induction entries with
    | nil => exact ⟨0, by simp⟩
    | cons x rest ih =>
      obtain ⟨height, hheight⟩ := ih
      refine ⟨max x.1.length height, fun y hy => ?_⟩
      rcases List.mem_cons.mp hy with rfl | hy
      · exact Nat.le_max_left _ _
      · exact (hheight y hy).trans (Nat.le_max_right _ _)
  obtain ⟨height, hheight⟩ := hlist fs.entries
  refine ⟨height, fun l e he => ?_⟩
  cases l with
  | nil => exact Nat.zero_le _
  | cons name d => exact hheight _ ((fs.mem_entries name d e).mpr he)

/-- With a file in every directory the tree can be deleted. -/
theorem deletable_of_dummied {fs fs' : HostFs} (h : Dummied fs fs')
    (hlinks : ∀ l target, mountRoot <:+ l → fs.entry l ≠ some (.link target))
    (hdirs : ∀ ms, ms ≠ [] → fs.entry (ms ++ mountRoot) = some .dir →
      fs'.entry (dummyName :: (ms ++ mountRoot)) = some .regular) {depth : Nat}
    (hdepth : ∀ l e, fs'.entry l = some e → l.length ≤ depth) : Deletable fs' mountRoot depth := by
  constructor
  · intro l target hbelow _ he
    rcases h.fresh l _ he with hold | ⟨hregular, -⟩
    · exact hlinks l target hbelow hold
    · cases hregular
  · intro l hbelow hne he
    rcases h.fresh l _ he with hold | ⟨hregular, -⟩
    · obtain ⟨ms, rfl⟩ := hbelow
      have hms : ms ≠ [] := by
        rintro rfl
        exact hne rfl
      exact ⟨dummyName, .regular, hdirs ms hms hold⟩
    · cases hregular
  · intro l e _ _ he
    exact (hdepth l e he).trans (Nat.le_add_left _ _)

end HostFs

/-- What the map holds before the checks: nothing, or what was collected from the same tree. -/
def CollectedBefore (fs : HostFs) (c : Contents) : Prop :=
  c = ∅ ∨ ∃ node : Node, node.WellFormed ∧ node.Presents fs HostFs.mountRoot ∧
    c = getContents basePath basePath node ∅

theorem listsDirs_empty (fs : HostFs) : ListsDirs fs ∅ := by
  intro key fa hlookup
  rw [AList.lookup_empty] at hlookup
  cases hlookup

theorem CollectedBefore.listsDirs {fs : HostFs} {c : Contents} (h : CollectedBefore fs c) :
    ListsDirs fs c := by
  rcases h with rfl | ⟨node, hwf, hpresents, rfl⟩
  · exact listsDirs_empty fs
  · exact (getContents_dirs hwf hpresents (listsDirs_empty fs)).1

/-- `makeFiles` puts a file into every directory below the mount root. -/
theorem makeFiles_dummies (r : Readdir) {fs : HostFs} {node : Node} {disk : DiskContents}
    (hmount : disk.mountPoint = basePath) (hwf : node.WellFormed)
    (hpresents : node.Presents fs HostFs.mountRoot) (hdummies : fs.DummiesRegular)
    (hcontents : CollectedBefore fs disk.contents) :
    ∃ disk' fs', disk.makeFiles (HostFs.host r) basePath node fs = (true, disk', fs') ∧
      HostFs.Dummied fs fs' ∧ ∀ ms, ms ≠ [] → fs.entry (ms ++ HostFs.mountRoot) = some .dir →
        fs'.entry (dummyName :: (ms ++ HostFs.mountRoot)) = some .regular := by
  obtain ⟨hlists, hlistsAll⟩ := getContents_dirs hwf hpresents hcontents.listsDirs
  rw [DiskContents.makeFiles, hmount]
  generalize getContents basePath basePath node disk.contents = contents at hlists hlistsAll
  obtain ⟨fs', hrun, hdummied, hmade⟩ := HostFs.makeDummies_succeeds r hdummies
    (contents.entries.mergeSort fun a b => decide (a.1 ≤ b.1))
    fun entry hentry hdir =>
      hlists entry.1 entry.2 (AList.mem_lookup_iff.mpr (List.mem_mergeSort.mp hentry)) hdir
  refine ⟨{ disk with contents := contents }, fs', by simp only [hrun, hmount], hdummied, ?_⟩
  intro ms hms hentry
  obtain ⟨fa, hlookup, hdir⟩ := hlistsAll ms hms hentry
  obtain ⟨ms', hkey, hdummy⟩ := hmade ⟨pathOf ms, fa⟩
    (List.mem_mergeSort.mpr (AList.mem_lookup_iff.mp hlookup)) hdir
  have hvalid : ∀ name ∈ ms, ValidName name := fun name hname =>
    HostFs.valid_of_entry hentry name (List.mem_append_left _ hname)
  have hvalid' : ∀ name ∈ ms', ValidName name := fun name hname =>
    HostFs.valid_of_entry hdummy name (List.mem_cons_of_mem _ (List.mem_append_left _ hname))
  rwa [pathOf_inj hvalid hvalid' hkey]

/-- With a file in every directory, `deleteFiles` empties a mount root without links. -/
theorem deleteFiles_dummied (r : Readdir) {fs fs₁ : HostFs}
    (hroot : fs.entry HostFs.mountRoot = some .dir)
    (hlinks : ∀ l target, HostFs.mountRoot <:+ l → fs.entry l ≠ some (.link target))
    (hdummied : HostFs.Dummied fs fs₁)
    (hdirs : ∀ ms, ms ≠ [] → fs.entry (ms ++ HostFs.mountRoot) = some .dir →
      fs₁.entry (dummyName :: (ms ++ HostFs.mountRoot)) = some .regular) :
    ∃ bound, ∀ depth ≥ bound, ∃ fs',
      deleteFiles (HostFs.host r) depth basePath fs₁ = (some true, fs') ∧
      fs'.entry HostFs.mountRoot = some .dir ∧ fs'.children HostFs.mountRoot = [] := by
  obtain ⟨height, hheight⟩ := fs₁.exists_height
  have hroot₁ : fs₁.entry HostFs.mountRoot = some .dir := hdummied.kept _ _ hroot
  refine ⟨height + 1, fun depth hdepth => ?_⟩
  obtain ⟨depth, rfl⟩ := Nat.exists_eq_add_of_le' (show 1 ≤ depth by omega)
  have hdeletable : fs₁.Deletable HostFs.mountRoot depth :=
    HostFs.deletable_of_dummied hdummied hlinks hdirs fun l e he => (hheight l e he).trans (by omega)
  obtain ⟨fs', hdelete, hcleared⟩ := HostFs.deleteFiles_mountRoot r hroot₁ hdeletable
  refine ⟨fs', hdelete, ?_, ?_⟩
  · exact hcleared.entry_self.trans hroot₁
  · exact hcleared.children

/-- The checks accept every tree without links and leave the mount root empty. -/
theorem sanityChecks_accept (r : Readdir) (fs : HostFs) (node : Node) (disk : DiskContents)
    (hmount : disk.mountPoint = basePath) (hroot : fs.entry HostFs.mountRoot = some .dir)
    (hwf : node.WellFormed) (hpresents : node.Presents fs HostFs.mountRoot)
    (hlinks : ∀ l target, HostFs.mountRoot <:+ l → fs.entry l ≠ some (.link target))
    (hdummies : fs.DummiesRegular) (hcontents : CollectedBefore fs disk.contents) :
    ∃ bound, ∀ depth ≥ bound, ∃ disk' fs',
      disk.sanityChecks (HostFs.host r) depth node fs = (some true, disk', fs') ∧
      fs'.entry HostFs.mountRoot = some .dir ∧ fs'.children HostFs.mountRoot = [] := by
  obtain ⟨disk', fs₁, hmake, hdummied, hdirs⟩ :=
    makeFiles_dummies r hmount hwf hpresents hdummies hcontents
  obtain ⟨bound, hbound⟩ := deleteFiles_dummied r hroot hlinks hdummied hdirs
  refine ⟨bound, fun depth hdepth => ?_⟩
  obtain ⟨fs', hdelete, hemptied⟩ := hbound depth hdepth
  refine ⟨disk', fs', ?_, hemptied⟩
  rw [DiskContents.sanityChecks, hmake]
  simp only [hdelete]

/-- An empty directory and a file below the mount root. -/
def smallTree : HostFs where
  entries := [([HostFs.mnt], .dir), (HostFs.mountRoot, .dir),
    (path ['d'] :: HostFs.mountRoot, .dir), (path ['f'] :: HostFs.mountRoot, .regular)]
  cwd := []
  nodup := by decide
  closed := by
    intro x hx
    simp only [List.mem_cons, List.not_mem_nil, or_false] at hx
    rcases hx with rfl | rfl | rfl | rfl <;> exact ⟨_, _, rfl, by decide, by decide⟩

def smallNode : Node :=
  rootWith (.cons (dirent (path ['d']) dtDir) (rootWith .nil) (regular 'f' .nil))

theorem smallNode_wellFormed : smallNode.WellFormed := by
  refine rootWith_wellFormed _ ⟨by decide, by decide, by decide, reportsType_dir, ?_,
    rootWith_wellFormed .nil trivial (by decide), regular_wellFormed 'f' .nil trivial (by decide)
      (by decide) (by decide)⟩ (by decide)
  rintro st ⟨⟩
  decide

theorem smallNode_presents : smallNode.Presents smallTree HostFs.mountRoot := by
  refine ⟨by decide, rfl, rfl, by decide, .inl rfl, .inl rfl, .inr ?_, .inr ?_, trivial⟩
  · exact ⟨by decide, rfl, rfl, by decide, .inl rfl, .inl rfl, trivial⟩
  · exact ⟨by decide, rfl⟩

/-- A tree whose listed entries are neither links nor called `_dummy` has no others. -/
theorem kinds_of_entries {fs : HostFs}
    (hall : ∀ x ∈ fs.entries, (∀ target, x.2 ≠ .link target) ∧ x.1.head? ≠ some dummyName)
    {l : Loc} {e : Entry} (h : fs.entry l = some e) :
    (∀ target, e ≠ .link target) ∧ l.head? ≠ some dummyName := by
  cases l with
  | nil =>
    cases h
    simp
  | cons name d => exact hall _ ((fs.mem_entries name d e).mpr h)

theorem smallTree_kinds {l : Loc} {e : Entry} (h : smallTree.entry l = some e) :
    (∀ target, e ≠ .link target) ∧ l.head? ≠ some dummyName := by
  apply kinds_of_entries _ h
  intro x hx
  simp only [smallTree, List.mem_cons, List.not_mem_nil, or_false] at hx
  rcases hx with rfl | rfl | rfl | rfl <;> exact ⟨by simp, by decide⟩

theorem sanityChecks_accept_small :
    ∃ bound, ∀ depth ≥ bound, ∃ disk' fs',
      recordDisk.sanityChecks (HostFs.host HostFs.inOrder) depth smallNode smallTree =
        (some true, disk', fs') ∧
      fs'.entry HostFs.mountRoot = some .dir ∧ fs'.children HostFs.mountRoot = [] := by
  refine sanityChecks_accept HostFs.inOrder smallTree smallNode recordDisk rfl (by decide)
    smallNode_wellFormed smallNode_presents ?_ ?_ (.inl rfl)
  · intro l target _ h
    exact (smallTree_kinds h).1 target rfl
  · intro d e _ h
    exact absurd rfl (smallTree_kinds h).2

end PMTester
