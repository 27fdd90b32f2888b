import Mathlib.Data.List.Lookmap
import Mathlib.Data.List.Infix
import PMTester.DiskContents

/-!
# A directory tree with symbolic links

The file system below the checker's calls: every entry has a location, the list
of names from it up to the root, innermost first. Paths are resolved as the
kernel does it, component by component and through symbolic links up to a limit;
whether the last component is followed depends on the call.
-/
namespace PMTester

/-- Where an entry is: its name, the name of its directory, and so on up to the root. -/
abbrev Loc := List Path

inductive Entry where
  | dir | regular | special
  | link (target : Path)
  deriving DecidableEq, Repr

/-- A name an entry can have. -/
def ValidName (name : Path) : Prop :=
  name ≠ [] ∧ slash ∉ name ∧ 0 ∉ name ∧ name ≠ dot ∧ name ≠ dotdot

instance (name : Path) : Decidable (ValidName name) := inferInstanceAs (Decidable (_ ∧ _ ∧ _ ∧ _ ∧ _))

namespace ValidName

variable {name : Path} (h : ValidName name)
include h

theorem ne_nil : name ≠ [] := h.1

theorem slash_notMem : slash ∉ name := h.2.1

theorem nul_notMem : 0 ∉ name := h.2.2.1

theorem ne_dot : name ≠ dot := h.2.2.2.1

theorem ne_dotdot : name ≠ dotdot := h.2.2.2.2

theorem not_dots : ¬ (name = dot ∨ name = dotdot) := not_or.mpr ⟨h.ne_dot, h.ne_dotdot⟩

end ValidName

/-- Every entry is in a directory. The root directory itself is not listed. -/
structure HostFs where
  entries : List (Loc × Entry)
  cwd : Loc
  nodup : (entries.map Prod.fst).Nodup
  closed : ∀ x ∈ entries, ∃ name d, x.1 = name :: d ∧ ValidName name ∧
    (d = [] ∨ (d, Entry.dir) ∈ entries)

namespace HostFs

def entry (fs : HostFs) (l : Loc) : Option Entry :=
  if l = [] then some .dir else fs.entries.lookup l

/-- The names in a directory. -/
def children (fs : HostFs) (d : Loc) : List Path :=
  fs.entries.filterMap fun x =>
    match x.1 with
    | name :: parent => if parent = d then some name else none
    | [] => none

@[simp] theorem entry_nil (fs : HostFs) : fs.entry [] = some .dir := rfl

theorem entry_cons (fs : HostFs) (name : Path) (d : Loc) :
    fs.entry (name :: d) = fs.entries.lookup (name :: d) := if_neg (List.cons_ne_nil name d)

theorem lookup_of_mem {entries : List (Loc × Entry)} (hnodup : (entries.map Prod.fst).Nodup)
    {l : Loc} {e : Entry} (h : (l, e) ∈ entries) : entries.lookup l = some e := by
  induction entries with
  | nil => cases h
  | cons x rest ih =>
    obtain ⟨hx, hrest⟩ := List.nodup_cons.mp hnodup
    rcases List.mem_cons.mp h with rfl | h
    · exact List.lookup_cons_self
    · have hne : (l == x.1) = false := by
        rw [beq_eq_false_iff_ne]
        rintro rfl
        exact hx (List.mem_map.mpr ⟨_, h, rfl⟩)
      rw [List.lookup_cons, hne]
      exact ih hrest h

theorem mem_of_lookup {entries : List (Loc × Entry)} {l : Loc} {e : Entry}
    (h : entries.lookup l = some e) : (l, e) ∈ entries := by
  obtain ⟨before, after, rfl, -⟩ := List.lookup_eq_some_iff.mp h
  simp

theorem mem_entries (fs : HostFs) (name : Path) (d : Loc) (e : Entry) :
    (name :: d, e) ∈ fs.entries ↔ fs.entry (name :: d) = some e := by
  rw [entry_cons]
  exact ⟨lookup_of_mem fs.nodup, mem_of_lookup⟩

/-- What contains an entry is a directory. -/
theorem parent_dir {fs : HostFs} {name : Path} {d : Loc} {e : Entry}
    (h : fs.entry (name :: d) = some e) : fs.entry d = some .dir ∧ ValidName name := by
  obtain ⟨name', d', heq, hvalid, hd⟩ := fs.closed _ ((fs.mem_entries name d e).mpr h)
  cases heq
  rcases hd with rfl | hd
  · exact ⟨rfl, hvalid⟩
  · cases d with
    | nil => exact ⟨rfl, hvalid⟩
    | cons name' d' => exact ⟨(fs.mem_entries _ _ _).mp hd, hvalid⟩

theorem mem_children (fs : HostFs) (name : Path) (d : Loc) :
    name ∈ fs.children d ↔ ∃ e, fs.entry (name :: d) = some e := by
  rw [children, List.mem_filterMap]
  constructor
  · rintro ⟨⟨l, e⟩, hmem, hname⟩
    cases l with
    | nil => cases hname
    | cons name' parent =>
      by_cases hd : parent = d
      · obtain rfl : name' = name := by simpa [hd] using hname
        subst hd
        exact ⟨e, (fs.mem_entries _ _ _).mp hmem⟩
      · simp [hd] at hname
  · rintro ⟨e, he⟩
    exact ⟨(name :: d, e), (fs.mem_entries _ _ _).mpr he, by simp⟩

theorem children_eq_nil {fs : HostFs} {d : Loc} :
    fs.children d = [] ↔ ∀ name, fs.entry (name :: d) = none := by
  simp only [List.eq_nil_iff_forall_not_mem, mem_children, not_exists,
    Option.eq_none_iff_forall_ne_some]

theorem nodup_children (fs : HostFs) (d : Loc) : (fs.children d).Nodup := by
  have hpairs := List.pairwise_map.mp fs.nodup
  refine List.Pairwise.filterMap _ ?_ hpairs
  rintro ⟨l, e⟩ ⟨l', e'⟩ hne name hname name' hname' rfl
  cases l with
  | nil => cases hname
  | cons n parent =>
    cases l' with
    | nil => cases hname'
    | cons n' parent' =>
      by_cases hd : parent = d
      · by_cases hd' : parent' = d
        · have hn : n = name := by simpa [hd] using hname
          have hn' : n' = name := by simpa [hd'] using hname'
          exact hne (by rw [hd, hd', hn, hn'])
        · simp [hd'] at hname'
      · simp [hd] at hname

/-- The state without an entry and what is below it. -/
def remove (fs : HostFs) (l : Loc) : HostFs where
  entries := fs.entries.filter fun x => !decide (l <:+ x.1)
  cwd := fs.cwd
  nodup := fs.nodup.sublist (List.filter_sublist.map _)
  closed := by
    intro x hx
    obtain ⟨hmem, hkeep⟩ := List.mem_filter.mp hx
    obtain ⟨name, d, heq, hvalid, hd⟩ := fs.closed x hmem
    refine ⟨name, d, heq, hvalid, hd.imp id fun hd => List.mem_filter.mpr ⟨hd, ?_⟩⟩
    rw [heq] at hkeep
    have hnot : ¬ l <:+ name :: d := by simpa using hkeep
    simpa using fun h : l <:+ d => hnot (h.trans (List.suffix_cons name d))

theorem entry_remove (fs : HostFs) {l : Loc} (hl : l ≠ []) (other : Loc) :
    (fs.remove l).entry other = if l <:+ other then none else fs.entry other := by
  cases other with
  | nil =>
    have hnot : ¬ l <:+ [] := fun h => hl (List.suffix_nil.mp h)
    simp [hnot]
  | cons name d =>
    have hiff (e : Entry) : (fs.remove l).entry (name :: d) = some e ↔
        fs.entry (name :: d) = some e ∧ ¬ l <:+ name :: d := by
      rw [← mem_entries, ← mem_entries, remove, List.mem_filter]
      simp
    ext e
    rw [hiff]
    by_cases h : l <:+ name :: d <;> simp [h]

/-- The state with one more regular file. -/
def create (fs : HostFs) (name : Path) (d : Loc) (hname : ValidName name)
    (hd : fs.entry d = some .dir) (hnew : fs.entry (name :: d) = none) : HostFs where
  entries := (name :: d, .regular) :: fs.entries
  cwd := fs.cwd
  nodup := by
    rw [List.map_cons, List.nodup_cons]
    refine ⟨fun hmem => ?_, fs.nodup⟩
    obtain ⟨⟨l, e⟩, he, rfl⟩ := List.mem_map.mp hmem
    have := (fs.mem_entries name d e).mp he
    simp [hnew] at this
  closed := by
    intro x hx
    rcases List.mem_cons.mp hx with rfl | hx
    · refine ⟨name, d, rfl, hname, ?_⟩
      cases d with
      | nil => exact .inl rfl
      | cons name' d' => exact .inr (List.mem_cons_of_mem _ ((fs.mem_entries _ _ _).mpr hd))
    · obtain ⟨name', d', heq, hvalid, hd'⟩ := fs.closed x hx
      exact ⟨name', d', heq, hvalid, hd'.imp id (List.mem_cons_of_mem _)⟩

theorem entry_create (fs : HostFs) (name : Path) (d : Loc) (hname : ValidName name)
    (hd : fs.entry d = some .dir) (hnew : fs.entry (name :: d) = none) (l : Loc) :
    (fs.create name d hname hd hnew).entry l =
      if l = name :: d then some .regular else fs.entry l := by
  cases l with
  | nil => simp
  | cons name' d' =>
    rw [entry_cons, create, List.lookup_cons, ← entry_cons]
    by_cases h : name' :: d' = name :: d
    · simp [h]
    · have hne : (name' :: d' == name :: d) = false := by simpa using h
      rw [hne, if_neg h]

end HostFs

/-- What a call does about the last component: a symbolic link there is followed or not, a name
that does not exist yet is an error or not. -/
inductive Mode where
  | follow | nofollow | create
  deriving DecidableEq, Repr

def components (p : Path) : List Path := (p.splitOn slash).filter (· != [])

def trailingSlash (p : Path) : Bool := p.getLast? == some slash

/-- A trailing slash of a link target asks for a directory. -/
def linkComponents (target : Path) : List Path :=
  components target ++ if trailingSlash target then [dot] else []

/-- The number of links followed in one path. -/
def maxSymlinks : Nat := 40

namespace HostFs

/-- The directory a path is read from. -/
def start (fs : HostFs) (p : Path) : Loc := if p.head? = some slash then [] else fs.cwd

/-- Resolve components from a directory on; `jump` goes on behind a link. -/
def walkFrom (fs : HostFs) (mode : Mode) (jump : Loc → List Path → Option Loc) :
    Loc → List Path → Option Loc
  | cur, [] => if (fs.entry cur).isSome then some cur else none
  | cur, name :: rest =>
    if fs.entry cur ≠ some .dir then none
    else if name = dot then walkFrom fs mode jump cur rest
    else if name = dotdot then walkFrom fs mode jump cur.tail rest
    else
      match fs.entry (name :: cur) with
      | none => if rest = [] ∧ mode = .create then some (name :: cur) else none
      | some (.link target) =>
        if rest = [] ∧ mode = .nofollow then some (name :: cur)
        else jump (if target.head? = some slash then [] else cur) (linkComponents target ++ rest)
      | some _ => walkFrom fs mode jump (name :: cur) rest

/-- Resolution with at most `links` links to follow. -/
def walk (fs : HostFs) (mode : Mode) : Nat → Loc → List Path → Option Loc
  | 0 => walkFrom fs mode fun _ _ => none
  | links + 1 => walkFrom fs mode (walk fs mode links)

/-- What a path names. A trailing slash asks for a directory. -/
def resolve (fs : HostFs) (mode : Mode) (path : Path) : Option Loc :=
  let p := cStr path
  if p = [] then none
  else if trailingSlash p then
    (fs.walk .follow maxSymlinks (fs.start p) (components p)).filter fun l =>
      fs.entry l = some .dir
  else fs.walk mode maxSymlinks (fs.start p) (components p)

/-- The entry that `unlink` and `rmdir` remove: the last component is not followed and must be a
name. -/
def target (fs : HostFs) (path : Path) : Option Loc :=
  let p := cStr path
  match (components p).getLast? with
  | none => none
  | some name =>
    if name = dot ∨ name = dotdot then none
    else fs.walk .nofollow maxSymlinks (fs.start p) (components p)

def opendir (fs : HostFs) (path : Path) : Option Loc :=
  (fs.resolve .follow path).filter fun l => fs.entry l = some .dir

/-- Whether `stat` reports a directory; `none` when it fails. -/
def stat (fs : HostFs) (path : Path) : Option Bool :=
  ((fs.resolve .follow path).bind fs.entry).map fun e => decide (e = .dir)

def unlink (fs : HostFs) (path : Path) : Option Loc :=
  if trailingSlash (cStr path) then none
  else (fs.target path).filter fun l => (fs.entry l).isSome ∧ fs.entry l ≠ some .dir

def rmdir (fs : HostFs) (path : Path) : Option Loc :=
  (fs.target path).filter fun l => fs.entry l = some .dir ∧ fs.children l = []

/-- `open` with `O_CREAT|O_RDWR`. A directory cannot be opened for writing; a special file is taken
to refuse. -/
def openCreat (fs : HostFs) (path : Path) : Option HostFs :=
  match fs.resolve .create path with
  | none => none
  | some [] => none
  | some (name :: d) =>
    if fs.entry (name :: d) = some .regular then some fs
    else if h : ValidName name ∧ fs.entry d = some .dir ∧ fs.entry (name :: d) = none then
      some (fs.create name d h.1 h.2.1 h.2.2)
    else none

/-- The steps of a resolution that succeeds. -/
inductive Walks (fs : HostFs) (mode : Mode) : Nat → Loc → List Path → Loc → Prop
  | done {links : Nat} {cur : Loc} {e : Entry} : fs.entry cur = some e → Walks fs mode links cur [] cur
  | dot {links : Nat} {cur l : Loc} {rest : List Path} : fs.entry cur = some .dir →
      Walks fs mode links cur rest l → Walks fs mode links cur (dot :: rest) l
  | dotdot {links : Nat} {cur l : Loc} {rest : List Path} : fs.entry cur = some .dir →
      Walks fs mode links cur.tail rest l → Walks fs mode links cur (dotdot :: rest) l
  | name {links : Nat} {cur l : Loc} {name : Path} {rest : List Path} {e : Entry} :
      fs.entry cur = some .dir → name ≠ PMTester.dot → name ≠ PMTester.dotdot →
      fs.entry (name :: cur) = some e → (∀ t, e ≠ .link t) →
      Walks fs mode links (name :: cur) rest l → Walks fs mode links cur (name :: rest) l
  | link {links : Nat} {cur l : Loc} {name target : Path} {rest : List Path} :
      fs.entry cur = some .dir → name ≠ PMTester.dot → name ≠ PMTester.dotdot →
      fs.entry (name :: cur) = some (.link target) → ¬ (rest = [] ∧ mode = .nofollow) →
      Walks fs mode links (if target.head? = some slash then [] else cur)
        (linkComponents target ++ rest) l →
      Walks fs mode (links + 1) cur (name :: rest) l
  | lastLink {links : Nat} {cur : Loc} {name target : Path} :
      fs.entry cur = some .dir → name ≠ PMTester.dot → name ≠ PMTester.dotdot →
      fs.entry (name :: cur) = some (.link target) → mode = .nofollow →
      Walks fs mode links cur [name] (name :: cur)
  | new {links : Nat} {cur : Loc} {name : Path} :
      fs.entry cur = some .dir → name ≠ PMTester.dot → name ≠ PMTester.dotdot →
      fs.entry (name :: cur) = none → mode = .create → Walks fs mode links cur [name] (name :: cur)

/-- One component that is a name. -/
theorem walkFrom_name_iff {fs : HostFs} {mode : Mode} {links : Nat}
    {jump : Loc → List Path → Option Loc}
    (hjump : ∀ cur cs l, jump cur cs = some l ↔ ∃ n, links = n + 1 ∧ Walks fs mode n cur cs l)
    {name : Path} {rest : List Path} {l : Loc}
    (ih : ∀ cur, fs.walkFrom mode jump cur rest = some l ↔ Walks fs mode links cur rest l)
    {cur : Loc} (hdir : fs.entry cur = some .dir) (hdot : name ≠ PMTester.dot)
    (hdotdot : name ≠ PMTester.dotdot) :
    (match fs.entry (name :: cur) with
      | none => if rest = [] ∧ mode = .create then some (name :: cur) else none
      | some (.link target) =>
        if rest = [] ∧ mode = .nofollow then some (name :: cur)
        else jump (if target.head? = some slash then [] else cur) (linkComponents target ++ rest)
      | some _ => fs.walkFrom mode jump (name :: cur) rest) = some l ↔
      Walks fs mode links cur (name :: rest) l := by
  constructor
  · intro h
    split at h
    · next hnone =>
      split at h
      · next hlast =>
        cases h
        obtain ⟨rfl, hmode⟩ := hlast
        exact .new hdir hdot hdotdot hnone hmode
      · cases h
    · next target hlink =>
      split at h
      · next hlast =>
        cases h
        obtain ⟨rfl, hmode⟩ := hlast
        exact .lastLink hdir hdot hdotdot hlink hmode
      · next hfollow =>
        obtain ⟨n, rfl, hwalk⟩ := (hjump _ _ _).mp h
        exact .link hdir hdot hdotdot hlink hfollow hwalk
    · next e hother hentry =>
      exact .name hdir hdot hdotdot hentry hother ((ih _).mp h)
  · intro h
    cases h with
    | dot => exact absurd rfl hdot
    | dotdot => exact absurd rfl hdotdot
    | @name _ _ _ _ _ e _ _ _ hentry hother hwalk =>
      rw [hentry]
      cases e with
      | link t => exact absurd rfl (hother t)
      | dir => exact (ih _).mpr hwalk
      | regular => exact (ih _).mpr hwalk
      | special => exact (ih _).mpr hwalk
    | link _ _ _ hlink hfollow hwalk =>
      rw [hlink]
      exact (if_neg hfollow).trans ((hjump _ _ _).mpr ⟨_, rfl, hwalk⟩)
    | lastLink _ _ _ hlink hmode =>
      rw [hlink]
      exact if_pos ⟨rfl, hmode⟩
    | new _ _ _ hnone hmode =>
      rw [hnone]
      exact if_pos ⟨rfl, hmode⟩

/-- The loop over the components, whatever derivations there are behind a link. -/
theorem walkFrom_iff {fs : HostFs} {mode : Mode} {links : Nat}
    {jump : Loc → List Path → Option Loc}
    (hjump : ∀ cur cs l, jump cur cs = some l ↔ ∃ n, links = n + 1 ∧ Walks fs mode n cur cs l)
    (cur : Loc) (cs : List Path) (l : Loc) :
    fs.walkFrom mode jump cur cs = some l ↔ Walks fs mode links cur cs l := by
  induction cs generalizing cur with
  | nil =>
    rw [walkFrom]
    constructor
    · intro h
      split at h
      · next hsome =>
        cases h
        obtain ⟨e, he⟩ := Option.isSome_iff_exists.mp hsome
        exact .done he
      · cases h
    · rintro ⟨he⟩
      next he => simp [he]
  | cons name rest ih =>
    rw [walkFrom]
    by_cases hdir : fs.entry cur = some .dir
    · rw [if_neg (not_not_intro hdir)]
      by_cases hdot : name = PMTester.dot
      · rw [if_pos hdot, ih, hdot]
        constructor
        · exact .dot hdir
        · intro h
          cases h with
          | dot _ h => exact h
          | name _ hne => exact absurd rfl hne
          | link _ hne => exact absurd rfl hne
          | lastLink _ hne => exact absurd rfl hne
          | new _ hne => exact absurd rfl hne
      · rw [if_neg hdot]
        by_cases hdotdot : name = PMTester.dotdot
        · rw [if_pos hdotdot, ih, hdotdot]
          constructor
          · exact .dotdot hdir
          · intro h
            cases h with
            | dotdot _ h => exact h
            | name _ _ hne => exact absurd rfl hne
            | link _ _ hne => exact absurd rfl hne
            | lastLink _ _ hne => exact absurd rfl hne
            | new _ _ hne => exact absurd rfl hne
        · rw [if_neg hdotdot]
          exact walkFrom_name_iff hjump ih hdir hdot hdotdot
    · rw [if_pos hdir]
      constructor
      · intro h
        cases h
      · intro h
        cases h <;> contradiction

theorem walk_iff {fs : HostFs} {mode : Mode} {links : Nat} {cur : Loc} {cs : List Path} {l : Loc} :
    fs.walk mode links cur cs = some l ↔ Walks fs mode links cur cs l := by
  induction links generalizing cur cs l with
  | zero =>
    apply walkFrom_iff
    intro cur cs l
    simp
  | succ links ih =>
    apply walkFrom_iff
    intro cur cs l
    rw [ih]
    simp

/-- Every entry of the one state is an entry of the other. -/
def Sub (fs' fs : HostFs) : Prop := fs'.cwd = fs.cwd ∧ ∀ l e, fs'.entry l = some e → fs.entry l = some e

theorem Sub.refl (fs : HostFs) : Sub fs fs := ⟨rfl, fun _ _ h => h⟩

theorem Sub.trans {fs fs' fs'' : HostFs} (h : Sub fs fs') (h' : Sub fs' fs'') : Sub fs fs'' :=
  ⟨h.1.trans h'.1, fun l e he => h'.2 l e (h.2 l e he)⟩

theorem sub_remove (fs : HostFs) {l : Loc} (hl : l ≠ []) : Sub (fs.remove l) fs := by
  refine ⟨rfl, fun other e he => ?_⟩
  rw [entry_remove fs hl] at he
  split at he
  · cases he
  · exact he

/-- Removing entries makes no path resolve that did not, and none resolve differently. -/
theorem Walks.mono {fs fs' : HostFs} (hsub : Sub fs' fs) {mode : Mode} (hmode : mode ≠ .create)
    {links : Nat} {cur l : Loc} {cs : List Path} (h : Walks fs' mode links cur cs l) :
    Walks fs mode links cur cs l := by
  induction h with
  | done he => exact .done (hsub.2 _ _ he)
  | dot hdir _ ih => exact .dot (hsub.2 _ _ hdir) ih
  | dotdot hdir _ ih => exact .dotdot (hsub.2 _ _ hdir) ih
  | name hdir hdot hdotdot he hother _ ih =>
    exact .name (hsub.2 _ _ hdir) hdot hdotdot (hsub.2 _ _ he) hother ih
  | link hdir hdot hdotdot he hfollow _ ih =>
    exact .link (hsub.2 _ _ hdir) hdot hdotdot (hsub.2 _ _ he) hfollow ih
  | lastLink hdir hdot hdotdot he hlast =>
    exact .lastLink (hsub.2 _ _ hdir) hdot hdotdot (hsub.2 _ _ he) hlast
  | new _ _ _ _ hcreate => exact absurd hcreate hmode

/-- What a path names exists. -/
theorem Walks.entry_some {fs : HostFs} {mode : Mode} (hmode : mode ≠ .create) {links : Nat}
    {cur l : Loc} {cs : List Path} (h : Walks fs mode links cur cs l) : ∃ e, fs.entry l = some e := by
  induction h with
  | done he => exact ⟨_, he⟩
  | dot _ _ ih => exact ih
  | dotdot _ _ ih => exact ih
  | name _ _ _ _ _ _ ih => exact ih
  | link _ _ _ _ _ _ ih => exact ih
  | lastLink _ _ _ he _ => exact ⟨_, he⟩
  | new _ _ _ _ hcreate => exact absurd hcreate hmode

/-- The front part of a path is followed to a directory, the rest is resolved from there. -/
theorem Walks.split {fs : HostFs} {mode : Mode} {links : Nat} {cur l : Loc} {cs rest : List Path}
    (h : Walks fs mode links cur (cs ++ rest) l) (hrest : rest ≠ []) :
    ∃ d m, Walks fs .follow links cur cs d ∧ fs.entry d = some .dir ∧ Walks fs mode m d rest l := by
  have hstop {links : Nat} {cur l : Loc} (h : Walks fs mode links cur rest l) :
      ∃ d m, Walks fs .follow links cur [] d ∧ fs.entry d = some .dir ∧
        Walks fs mode m d rest l := by
    have hdir : fs.entry cur = some .dir := by
      cases h with
      | done => exact absurd rfl hrest
      | dot hdir | dotdot hdir | name hdir | link hdir | lastLink hdir | new hdir => exact hdir
    exact ⟨cur, links, .done hdir, hdir, h⟩
  generalize hall : cs ++ rest = all at h
  induction h generalizing cs with
  | done =>
    rw [List.append_eq_nil_iff] at hall
    exact absurd hall.2 hrest
  | dot hdir hwalk ih =>
    cases cs with
    | nil =>
      obtain rfl : rest = _ := hall
      exact hstop (.dot hdir hwalk)
    | cons name cs =>
      obtain ⟨rfl, rfl⟩ := List.cons.inj hall
      obtain ⟨d, m, hd, hin, hl⟩ := ih rfl
      exact ⟨d, m, .dot hdir hd, hin, hl⟩
  | dotdot hdir hwalk ih =>
    cases cs with
    | nil =>
      obtain rfl : rest = _ := hall
      exact hstop (.dotdot hdir hwalk)
    | cons name cs =>
      obtain ⟨rfl, rfl⟩ := List.cons.inj hall
      obtain ⟨d, m, hd, hin, hl⟩ := ih rfl
      exact ⟨d, m, .dotdot hdir hd, hin, hl⟩
  | name hdir hdot hdotdot he hother hwalk ih =>
    cases cs with
    | nil =>
      obtain rfl : rest = _ := hall
      exact hstop (.name hdir hdot hdotdot he hother hwalk)
    | cons name cs =>
      obtain ⟨rfl, rfl⟩ := List.cons.inj hall
      obtain ⟨d, m, hd, hin, hl⟩ := ih rfl
      exact ⟨d, m, .name hdir hdot hdotdot he hother hd, hin, hl⟩
  | link hdir hdot hdotdot he hfollow hwalk ih =>
    cases cs with
    | nil =>
      obtain rfl : rest = _ := hall
      exact hstop (.link hdir hdot hdotdot he hfollow hwalk)
    | cons name cs =>
      obtain ⟨rfl, rfl⟩ := List.cons.inj hall
      obtain ⟨d, m, hd, hin, hl⟩ := ih (List.append_assoc _ _ _)
      exact ⟨d, m, .link hdir hdot hdotdot he (by simp) hd, hin, hl⟩
  | lastLink hdir hdot hdotdot he hlast =>
    cases cs with
    | nil =>
      obtain rfl : rest = _ := hall
      exact hstop (.lastLink hdir hdot hdotdot he hlast)
    | cons name cs =>
      obtain ⟨-, hnil⟩ := List.cons.inj hall
      exact absurd (List.append_eq_nil_iff.mp hnil).2 hrest
  | new hdir hdot hdotdot he hcreate =>
    cases cs with
    | nil =>
      obtain rfl : rest = _ := hall
      exact hstop (.new hdir hdot hdotdot he hcreate)
    | cons name cs =>
      obtain ⟨-, hnil⟩ := List.cons.inj hall
      exact absurd (List.append_eq_nil_iff.mp hnil).2 hrest

/-- From the directory that the front part leads to, the rest is resolved. -/
theorem Walks.append {fs : HostFs} {mode : Mode} {links : Nat} {cur d l : Loc}
    {cs rest : List Path} (h : Walks fs .follow links cur cs d) (hrest : rest ≠ [])
    (hl : ∀ m, Walks fs mode m d rest l) : Walks fs mode links cur (cs ++ rest) l := by
  induction h with
  | done _ => exact hl _
  | dot hdir _ ih => exact .dot hdir (ih hl)
  | dotdot hdir _ ih => exact .dotdot hdir (ih hl)
  | name hdir hdot hdotdot he hother _ ih => exact .name hdir hdot hdotdot he hother (ih hl)
  | link hdir hdot hdotdot he _ _ ih =>
    have hwalk := ih hl
    rw [List.append_assoc] at hwalk
    exact .link hdir hdot hdotdot he (by simp [hrest]) hwalk
  | lastLink _ _ _ _ hlast => cases hlast
  | new _ _ _ _ hcreate => cases hcreate

/-- Where a path can be followed, its last entry can be found. -/
theorem Walks.nofollow {fs : HostFs} {links : Nat} {cur l : Loc} {cs : List Path}
    (h : Walks fs .follow links cur cs l) : ∃ l', Walks fs .nofollow links cur cs l' := by
  induction h with
  | done he => exact ⟨_, .done he⟩
  | dot hdir _ ih =>
    obtain ⟨l', hl'⟩ := ih
    exact ⟨l', .dot hdir hl'⟩
  | dotdot hdir _ ih =>
    obtain ⟨l', hl'⟩ := ih
    exact ⟨l', .dotdot hdir hl'⟩
  | name hdir hdot hdotdot he hother _ ih =>
    obtain ⟨l', hl'⟩ := ih
    exact ⟨l', .name hdir hdot hdotdot he hother hl'⟩
  | @link _ _ _ _ _ rest hdir hdot hdotdot he _ _ ih =>
    by_cases hlast : rest = []
    · subst hlast
      exact ⟨_, .lastLink hdir hdot hdotdot he rfl⟩
    · obtain ⟨l', hl'⟩ := ih
      exact ⟨l', .link hdir hdot hdotdot he (fun h => hlast h.1) hl'⟩
  | lastLink _ _ _ _ hmode => cases hmode
  | new _ _ _ _ hmode => cases hmode

/-- An entry that is no link is also found by following it. -/
theorem Walks.follow {fs : HostFs} {links : Nat} {cur l : Loc} {cs : List Path}
    (h : Walks fs .nofollow links cur cs l) (hl : ∀ t, fs.entry l ≠ some (.link t)) :
    Walks fs .follow links cur cs l := by
  induction h with
  | done he => exact .done he
  | dot hdir _ ih => exact .dot hdir (ih hl)
  | dotdot hdir _ ih => exact .dotdot hdir (ih hl)
  | name hdir hdot hdotdot he hother _ ih => exact .name hdir hdot hdotdot he hother (ih hl)
  | link hdir hdot hdotdot he _ _ ih => exact .link hdir hdot hdotdot he (by simp) (ih hl)
  | lastLink _ _ _ he _ => exact absurd he (hl _)
  | new _ _ _ _ hmode => cases hmode

end HostFs
end PMTester
