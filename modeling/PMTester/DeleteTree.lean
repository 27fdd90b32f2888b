import PMTester.DeleteFiles

/-!
# `deleteFiles` on a tree without links

A path leads to a directory when it does so whatever is gone below that. The
removal of a subdirectory is left to the recursive call when it is empty and to
its caller when it is not; the caller does not know the difference, and fails on
what the recursive call has removed already.
-/
namespace PMTester

/-- The path from the root directory to a location. -/
def pathOf : Loc → Path
  | [] => []
  | name :: d => pathOf d ++ slash :: name

@[simp] theorem pathOf_cons (name : Path) (d : Loc) : pathOf (name :: d) = pathOf d ++ slash :: name :=
  rfl

theorem pathOf_append (l d : Loc) : pathOf (l ++ d) = pathOf d ++ pathOf l := by
  induction l with
  | nil => simp [pathOf]
  | cons name l ih => simp [ih]

section Paths

variable {l : Loc} (hl : ∀ name ∈ l, ValidName name)
include hl

theorem components_pathOf : components (pathOf l) = l.reverse := by
  induction l with
  | nil => rfl
  | cons name d ih =>
    rw [pathOf_cons, components_child _ (hl name (by simp)),
      ih fun n hn => hl n (List.mem_cons_of_mem _ hn), List.reverse_cons]

theorem nul_notMem_pathOf : 0 ∉ pathOf l := by
  induction l with
  | nil => simp [pathOf]
  | cons name d ih =>
    have hname := hl name (by simp)
    have hrest := ih fun n hn => hl n (List.mem_cons_of_mem _ hn)
    have hslash : (0 : UInt8) ≠ slash := by decide
    simp [hrest, hname.nul_notMem, hslash]

theorem cStr_pathOf : cStr (pathOf l) = pathOf l := cStr_eq_self (nul_notMem_pathOf hl)

theorem trailingSlash_pathOf : trailingSlash (pathOf l) = false := by
  cases l with
  | nil => rfl
  | cons name d => exact trailingSlash_child _ (hl name (by simp))

end Paths

theorem head_pathOf {l : Loc} (hl : l ≠ []) : (pathOf l).head? = some slash := by
  induction l with
  | nil => exact absurd rfl hl
  | cons name d ih =>
    cases d with
    | nil => rfl
    | cons name' d' =>
      have hd := ih (List.cons_ne_nil _ _)
      have hne : pathOf (name' :: d') ≠ [] := by
        intro hnil
        rw [hnil] at hd
        cases hd
      rw [pathOf_cons, List.head?_append_of_ne_nil _ hne, hd]

theorem pathOf_ne_nil {l : Loc} (hl : l ≠ []) : pathOf l ≠ [] := by
  intro hnil
  have hhead := head_pathOf hl
  rw [hnil] at hhead
  cases hhead

/-- Locations with the same path are the same. -/
theorem pathOf_inj {l l' : Loc} (hl : ∀ name ∈ l, ValidName name)
    (hl' : ∀ name ∈ l', ValidName name) (h : pathOf l = pathOf l') : l = l' := by
  have hrev : l.reverse = l'.reverse := by rw [← components_pathOf hl, h, components_pathOf hl']
  exact List.reverse_injective hrev

namespace HostFs

theorem valid_of_entry {fs : HostFs} {l : Loc} {e : Entry} (h : fs.entry l = some e) :
    ∀ name ∈ l, ValidName name := by
  induction l generalizing e with
  | nil => simp
  | cons name d ih =>
    obtain ⟨hd, hname⟩ := parent_dir h
    intro n hn
    rcases List.mem_cons.mp hn with rfl | hn
    · exact hname
    · exact ih hd n hn

/-- Everything that contains an entry is a directory. -/
theorem dir_of_suffix {fs : HostFs} {l d : Loc} {e : Entry} (h : fs.entry l = some e) (hd : d <:+ l)
    (hne : d ≠ l) : fs.entry d = some .dir := by
  induction l generalizing e with
  | nil => exact absurd (List.suffix_nil.mp hd) hne
  | cons name parent ih =>
    have hparent := (parent_dir h).1
    cases List.suffix_cons_iff.mp hd with
    | inl heq => exact absurd heq hne
    | inr hd =>
      by_cases hsame : d = parent
      · rw [hsame]
        exact hparent
      · exact ih hparent hd hsame

/-- The names of a directory lead to it, whatever comes behind them. -/
theorem walks_through {fs : HostFs} {mode : Mode} {links : Nat} {d l : Loc} {rest : List Path}
    (hd : fs.entry d = some .dir) (h : Walks fs mode links d rest l) :
    Walks fs mode links [] (d.reverse ++ rest) l := by
  induction d generalizing rest with
  | nil => exact h
  | cons name d ih =>
    obtain ⟨hparent, hname⟩ := parent_dir hd
    rw [List.reverse_cons, List.append_assoc]
    exact ih hparent (.name hparent hname.ne_dot hname.ne_dotdot hd (by simp) h)

theorem walks_last {fs : HostFs} {mode : Mode} {links : Nat} {name : Path} {d : Loc} {e : Entry}
    (he : fs.entry (name :: d) = some e) (hlink : ∀ t, e ≠ .link t) :
    Walks fs mode links d [name] (name :: d) := by
  obtain ⟨hd, hname⟩ := parent_dir he
  exact .name hd hname.ne_dot hname.ne_dotdot he hlink (.done he)

theorem start_pathOf (fs : HostFs) {l : Loc} (hl : l ≠ []) : fs.start (pathOf l) = [] := by
  rw [start, if_pos (head_pathOf hl)]

theorem resolve_pathOf {fs : HostFs} {mode : Mode} {name : Path} {d : Loc} {l : Loc}
    (hname : ValidName name) (hd : fs.entry d = some .dir)
    (h : Walks fs mode maxSymlinks d [name] l) : fs.resolve mode (pathOf (name :: d)) = some l := by
  have hvalid : ∀ n ∈ name :: d, ValidName n := by
    intro n hn
    rcases List.mem_cons.mp hn with rfl | hn
    · exact hname
    · exact valid_of_entry hd n hn
  rw [resolve_eq_some, cStr_pathOf hvalid, trailingSlash_pathOf hvalid, components_pathOf hvalid,
    start_pathOf fs (List.cons_ne_nil _ _), List.reverse_cons]
  exact ⟨pathOf_ne_nil (List.cons_ne_nil _ _), fun hslash => absurd hslash Bool.false_ne_true,
    fun _ => walks_through hd h⟩

theorem below_of_child {l l' : Loc} {name : Path} (h : name :: l <:+ l') : l <:+ l' ∧ l' ≠ l := by
  constructor
  · exact (List.suffix_cons name l).trans h
  · rintro rfl
    have hlen := h.length_le
    rw [List.length_cons] at hlen
    omega

/-- A state in which some of what is below a directory is gone, and nothing else. -/
structure Pruned (fs fs' : HostFs) (l : Loc) : Prop where
  sub : Sub fs' fs
  kept : ∀ l', (l <:+ l' → l' = l) → fs'.entry l' = fs.entry l'

theorem Pruned.refl (fs : HostFs) (l : Loc) : Pruned fs fs l := ⟨.refl fs, fun _ _ => rfl⟩

theorem Pruned.trans {fs fs₁ fs₂ : HostFs} {l : Loc} (h : Pruned fs fs₁ l) (h' : Pruned fs₁ fs₂ l) :
    Pruned fs fs₂ l :=
  ⟨h'.sub.trans h.sub, fun l' hl' => (h'.kept l' hl').trans (h.kept l' hl')⟩

/-- What is below an entry is below its directory. -/
theorem Pruned.up {fs fs' : HostFs} {l : Loc} {name : Path} (h : Pruned fs fs' (name :: l)) :
    Pruned fs fs' l := by
  refine ⟨h.sub, fun l' hl' => h.kept l' fun hin => ?_⟩
  obtain ⟨hbelow, hne⟩ := below_of_child hin
  exact absurd (hl' hbelow) hne

theorem Pruned.entry_self {fs fs' : HostFs} {l : Loc} (h : Pruned fs fs' l) :
    fs'.entry l = fs.entry l := h.kept l fun _ => rfl

/-- The path leads to the directory, whatever is gone below it. -/
structure LeadsTo (fs : HostFs) (p : Path) (l : Loc) : Prop where
  nul : 0 ∉ p
  opens : ∀ fs', Pruned fs fs' l → fs'.opendir p = some l

theorem leadsTo_pathOf {fs : HostFs} {name : Path} {d : Loc}
    (hl : fs.entry (name :: d) = some .dir) : LeadsTo fs (pathOf (name :: d)) (name :: d) := by
  refine ⟨nul_notMem_pathOf (valid_of_entry hl), fun fs' hpruned => ?_⟩
  have hl' := hpruned.entry_self.trans hl
  obtain ⟨hd, hname⟩ := parent_dir hl'
  exact opendir_eq_some.mpr
    ⟨resolve_pathOf hname hd (.name hd hname.ne_dot hname.ne_dotdot hl' (by simp) (.done hl')), hl'⟩

section Led

variable {fs : HostFs} {p : Path} {l : Loc} (h : LeadsTo fs p l)
include h

theorem LeadsTo.opendir : fs.opendir p = some l := h.opens fs (.refl fs l)

theorem LeadsTo.dir : fs.entry l = some .dir := (opendir_eq_some.mp h.opendir).2

theorem LeadsTo.nonempty : p ≠ [] := opendir_ne_nil h.opendir

theorem LeadsTo.of_pruned {fs' : HostFs} (hpruned : Pruned fs fs' l) : LeadsTo fs' p l :=
  ⟨h.nul, fun fs'' hpruned' => h.opens fs'' (hpruned.trans hpruned')⟩

/-- A walk on from the directory. -/
theorem LeadsTo.walks {mode : Mode} {l' : Loc} {rest : List Path} (hrest : rest ≠ [])
    (hwalk : ∀ m, Walks fs mode m l rest l') :
    Walks fs mode maxSymlinks (fs.start p) (components p ++ rest) l' := by
  obtain ⟨-, hslash, hplain⟩ := resolve_eq_some.mp (opendir_eq_some.mp h.opendir).1
  rw [cStr_eq_self h.nul] at hslash hplain
  have hfront : Walks fs .follow maxSymlinks (fs.start p) (components p) l := by
    cases htrailing : trailingSlash p with
    | true => exact (hslash htrailing).1
    | false => exact hplain htrailing
  exact hfront.append hrest hwalk

theorem LeadsTo.start_child (name : Path) : fs.start (p ++ slash :: name) = fs.start p := by
  rw [start, start, List.head?_append_of_ne_nil _ h.nonempty]

theorem LeadsTo.cStr_child {name : Path} (hname : ValidName name) :
    cStr (p ++ slash :: name) = p ++ slash :: name := by
  rw [PMTester.cStr_child p hname, if_neg h.nul]

theorem LeadsTo.child_ne_nil (name : Path) : p ++ slash :: name ≠ [] :=
  List.append_ne_nil_of_left_ne_nil h.nonempty _

theorem LeadsTo.resolve_child {mode : Mode} {name : Path} {l' : Loc} (hname : ValidName name)
    (hwalk : ∀ m, Walks fs mode m l [name] l') : fs.resolve mode (p ++ slash :: name) = some l' := by
  rw [resolve_eq_some, h.cStr_child hname, trailingSlash_child p hname, components_child p hname,
    h.start_child]
  exact ⟨h.child_ne_nil name, fun hslash => absurd hslash Bool.false_ne_true,
    fun _ => h.walks (List.cons_ne_nil _ _) hwalk⟩

theorem LeadsTo.child {name : Path} (he : fs.entry (name :: l) = some .dir) :
    LeadsTo fs (p ++ slash :: name) (name :: l) := by
  obtain ⟨-, hname⟩ := parent_dir he
  have hslash : (0 : UInt8) ≠ slash := by decide
  refine ⟨by simp [h.nul, hname.nul_notMem, hslash], fun fs' hpruned => ?_⟩
  have he' := hpruned.entry_self.trans he
  exact opendir_eq_some.mpr
    ⟨(h.of_pruned hpruned.up).resolve_child hname fun _ => walks_last he' (by simp), he'⟩

theorem LeadsTo.target_child {name : Path} {e : Entry} (he : fs.entry (name :: l) = some e) :
    fs.target (p ++ slash :: name) = some (name :: l) := by
  obtain ⟨hl, hname⟩ := parent_dir he
  rw [target_eq_some, h.cStr_child hname, components_child p hname, h.start_child]
  refine ⟨name, by simp, hname.ne_dot, hname.ne_dotdot,
    h.walks (List.cons_ne_nil _ _) fun m => ?_⟩
  by_cases hlink : ∃ t, e = .link t
  · obtain ⟨t, rfl⟩ := hlink
    exact .lastLink hl hname.ne_dot hname.ne_dotdot he rfl
  · exact walks_last he fun t ht => hlink ⟨t, ht⟩

theorem LeadsTo.resolve_follow {name : Path} {e : Entry} (he : fs.entry (name :: l) = some e)
    (hlink : ∀ t, e ≠ .link t) : fs.resolve .follow (p ++ slash :: name) = some (name :: l) :=
  h.resolve_child (parent_dir he).2 fun _ => walks_last he hlink

theorem LeadsTo.stat_child {name : Path} {e : Entry} (he : fs.entry (name :: l) = some e)
    (hlink : ∀ t, e ≠ .link t) : fs.stat (p ++ slash :: name) = some (decide (e = .dir)) := by
  rw [stat, h.resolve_follow he hlink, Option.bind_some, he, Option.map_some]

theorem LeadsTo.opendir_file {name : Path} {e : Entry} (he : fs.entry (name :: l) = some e)
    (hlink : ∀ t, e ≠ .link t) (hdir : e ≠ .dir) : fs.opendir (p ++ slash :: name) = none := by
  rw [HostFs.opendir, h.resolve_follow he hlink, Option.filter_some, he]
  simp [hdir]

theorem LeadsTo.unlink_child {name : Path} {e : Entry} (he : fs.entry (name :: l) = some e)
    (hdir : e ≠ .dir) : fs.unlink (p ++ slash :: name) = some (name :: l) := by
  obtain ⟨-, hname⟩ := parent_dir he
  rw [unlink_eq_some, h.cStr_child hname, trailingSlash_child p hname]
  exact ⟨Bool.false_ne_true, h.target_child he, e, he, hdir⟩

theorem LeadsTo.rmdir_child {name : Path} (he : fs.entry (name :: l) = some .dir)
    (hempty : fs.children (name :: l) = []) :
    fs.rmdir (p ++ slash :: name) = some (name :: l) :=
  rmdir_eq_some.mpr ⟨h.target_child he, he, hempty⟩

/-- `rmdir` fails where nothing is left, and where something is left in the directory. -/
theorem LeadsTo.rmdir_eq_none {fs' : HostFs} (hsub : Sub fs' fs) {name : Path} {e : Entry}
    (he : fs.entry (name :: l) = some e)
    (hno : fs'.entry (name :: l) = none ∨ fs'.children (name :: l) ≠ []) :
    fs'.rmdir (p ++ slash :: name) = none := by
  cases hrmdir : fs'.rmdir (p ++ slash :: name) with
  | none => rfl
  | some l' =>
    obtain ⟨htarget, hdir, hempty⟩ := rmdir_eq_some.mp hrmdir
    have hsame := (hsub.target htarget).symm.trans (h.target_child he)
    obtain rfl := Option.some.inj hsame
    cases hno with
    | inl hnone =>
      rw [hnone] at hdir
      cases hdir
    | inr hsome => exact absurd hempty hsome

end Led

/-- `/mnt/pmem0`. -/
def mountRoot : Loc := [pmem0, mnt]

theorem basePath_eq : basePath = pathOf mountRoot := by decide

/-- The state without what is below a directory. -/
def Cleared (fs fs' : HostFs) (l : Loc) : Prop :=
  ∀ l', fs'.entry l' = if l <:+ l' ∧ l' ≠ l then none else fs.entry l'

/-- The state without an entry and what is below it. -/
def Removed (fs fs' : HostFs) (l : Loc) : Prop :=
  ∀ l', fs'.entry l' = if l <:+ l' then none else fs.entry l'

theorem removed_remove (fs : HostFs) {l : Loc} (hl : l ≠ []) : Removed fs (fs.remove l) l :=
  entry_remove fs hl

theorem Cleared.removed {fs fs₁ fs₂ : HostFs} {l : Loc} (h : Cleared fs fs₁ l)
    (h' : Removed fs₁ fs₂ l) : Removed fs fs₂ l := by
  intro l'
  rw [h' l', h l']
  by_cases hbelow : l <:+ l'
  · simp [hbelow]
  · simp [hbelow]

/-- What is below a directory is below one of its entries. -/
theorem child_of_suffix {l l' : Loc} (h : l <:+ l') (hne : l' ≠ l) : ∃ name, name :: l <:+ l' := by
  obtain ⟨front, rfl⟩ := h
  have hfront : front ≠ [] := by
    rintro rfl
    exact hne rfl
  obtain ⟨front, name, rfl⟩ := List.eq_nil_or_concat front |>.resolve_left hfront
  exact ⟨name, front, by simp⟩

/-- A directory is cleared when one of its entries is removed and then all the others. -/
theorem Removed.cleared {fs fs₁ fs₂ : HostFs} {name : Path} {l : Loc}
    (h : Removed fs fs₁ (name :: l)) (h' : Cleared fs₁ fs₂ l) : Cleared fs fs₂ l := by
  intro l'
  rw [h' l', h l']
  by_cases hbelow : name :: l <:+ l'
  · rw [if_pos (below_of_child hbelow), if_pos (below_of_child hbelow)]
  · rw [if_neg hbelow]

/-- Removing one entry of a directory leaves the others. -/
theorem Removed.child {fs fs' : HostFs} {name : Path} {l : Loc} (h : Removed fs fs' (name :: l))
    (other : Path) : fs'.entry (other :: l) = if other = name then none else fs.entry (other :: l) := by
  rw [h]
  by_cases hname : other = name
  · rw [hname, if_pos List.suffix_rfl, if_pos rfl]
  · rw [if_neg hname, if_neg]
    intro hin
    cases List.suffix_cons_iff.mp hin with
    | inl heq => exact hname (List.cons.inj heq).1.symm
    | inr hin => exact (below_of_child hin).2 rfl

theorem Removed.child_some {fs fs' : HostFs} {name other : Path} {l : Loc} {e : Entry}
    (h : Removed fs fs' (name :: l)) (he : fs'.entry (other :: l) = some e) :
    other ≠ name ∧ fs.entry (other :: l) = some e := by
  rw [h.child] at he
  split at he
  · cases he
  · next hne => exact ⟨hne, he⟩

theorem Cleared.entry_self {fs fs' : HostFs} {l : Loc} (h : Cleared fs fs' l) :
    fs'.entry l = fs.entry l := by
  rw [h l, if_neg fun hbelow => hbelow.2 rfl]

theorem Cleared.children {fs fs' : HostFs} {l : Loc} (h : Cleared fs fs' l) :
    fs'.children l = [] := by
  rw [children_eq_nil]
  intro name
  rw [h, if_pos (below_of_child List.suffix_rfl)]

theorem Cleared.pruned {fs fs' : HostFs} {l : Loc} (h : Cleared fs fs' l) (hsub : Sub fs' fs) :
    Pruned fs fs' l := by
  refine ⟨hsub, fun l' hl' => ?_⟩
  rw [h l', if_neg fun hbelow => hbelow.2 (hl' hbelow.1)]

theorem Removed.pruned {fs fs' : HostFs} {l : Loc} {name : Path} (h : Removed fs fs' (name :: l))
    (hsub : Sub fs' fs) : Pruned fs fs' l := by
  refine ⟨hsub, fun l' hl' => ?_⟩
  have hout : ¬ name :: l <:+ l' := by
    intro hin
    obtain ⟨hbelow, hne⟩ := below_of_child hin
    exact hne (hl' hbelow)
  rw [h l', if_neg hout]

theorem entry_of_suffix {fs : HostFs} {l d : Loc} {e : Entry} (h : fs.entry l = some e)
    (hd : d <:+ l) : ∃ e', fs.entry d = some e' := by
  by_cases hsame : d = l
  · exact ⟨e, by rw [hsame, h]⟩
  · exact ⟨.dir, dir_of_suffix h hd hsame⟩

theorem cleared_of_empty {fs : HostFs} {l : Loc} (h : ∀ name, fs.entry (name :: l) = none) :
    Cleared fs fs l := by
  intro l'
  split
  · next hbelow =>
    obtain ⟨name, hname⟩ := child_of_suffix hbelow.1 hbelow.2
    cases he : fs.entry l' with
    | none => rfl
    | some e =>
      obtain ⟨e', he'⟩ := entry_of_suffix he hname
      rw [h name] at he'
      cases he'
  · rfl

/-- What `deleteFiles` relies on below a directory: no links, no empty directory, and a bound on the
depth. -/
structure Deletable (fs : HostFs) (l : Loc) (depth : Nat) : Prop where
  plain : ∀ l' t, l <:+ l' → l' ≠ l → fs.entry l' ≠ some (.link t)
  filled : ∀ l', l <:+ l' → l' ≠ l → fs.entry l' = some .dir → ∃ name e, fs.entry (name :: l') = some e
  height : ∀ l' e, l <:+ l' → l' ≠ l → fs.entry l' = some e → l'.length ≤ l.length + depth

/-- Below a directory there are no links, and its depth is bounded. -/
structure LinkFree (fs : HostFs) (l : Loc) (depth : Nat) : Prop where
  plain : ∀ l' t, l <:+ l' → l' ≠ l → fs.entry l' ≠ some (.link t)
  height : ∀ l' e, l <:+ l' → l' ≠ l → fs.entry l' = some e → l'.length ≤ l.length + depth

theorem Deletable.linkFree {fs : HostFs} {l : Loc} {depth : Nat} (h : Deletable fs l depth) :
    LinkFree fs l depth := ⟨h.plain, h.height⟩

theorem LinkFree.of_removed {fs fs' : HostFs} {l : Loc} {depth : Nat} (h : LinkFree fs l depth)
    {name : Path} (hremoved : Removed fs fs' (name :: l)) : LinkFree fs' l depth := by
  have hold {l' : Loc} {e : Entry} (he : fs'.entry l' = some e) : fs.entry l' = some e := by
    rw [hremoved l'] at he
    split at he
    · cases he
    · exact he
  constructor
  · intro l' t hbelow hne he
    exact h.plain l' t hbelow hne (hold he)
  · intro l' e hbelow hne he
    exact h.height l' e hbelow hne (hold he)

theorem LinkFree.child {fs : HostFs} {l : Loc} {depth : Nat} (h : LinkFree fs l (depth + 1))
    (name : Path) : LinkFree fs (name :: l) depth := by
  constructor
  · intro l' t hbelow _
    obtain ⟨hin, hne⟩ := below_of_child hbelow
    exact h.plain l' t hin hne
  · intro l' e hbelow _ he
    obtain ⟨hin, hne⟩ := below_of_child hbelow
    have hlen := h.height l' e hin hne he
    rw [List.length_cons]
    omega

theorem LinkFree.child_plain {fs : HostFs} {l : Loc} {depth : Nat} (h : LinkFree fs l depth)
    {name : Path} {e : Entry} (he : fs.entry (name :: l) = some e) (t : Path) : e ≠ .link t := by
  rintro rfl
  exact h.plain _ t (List.suffix_cons name l) (List.cons_ne_self name l) he

/-- What a directory with this path must be like for `deleteFiles` to empty it: no directory below
it is empty, and no file below it is called like the mount root. The empty directory that is called
like the mount root is left to the caller. -/
structure Emptiable (fs : HostFs) (p : Path) (l : Loc) : Prop where
  filled : ∀ ms, ms ≠ [] → fs.entry (ms ++ l) = some .dir → p ++ pathOf ms ≠ basePath →
    ∃ name e, fs.entry (name :: (ms ++ l)) = some e
  files : ∀ ms e, ms ≠ [] → fs.entry (ms ++ l) = some e → e ≠ .dir → p ++ pathOf ms ≠ basePath

/-- The same for one entry of the directory and what is below it. -/
structure Removable (fs : HostFs) (p : Path) (l : Loc) (name : Path) (e : Entry) : Prop where
  filled : e = .dir → p ++ slash :: name ≠ basePath → ∃ child e', fs.entry (child :: name :: l) = some e'
  file : e ≠ .dir → p ++ slash :: name ≠ basePath
  below : Emptiable fs (p ++ slash :: name) (name :: l)

theorem pathOf_concat (p : Path) (ms : List Path) (name : Path) :
    p ++ pathOf (ms ++ [name]) = p ++ slash :: name ++ pathOf ms := by
  rw [pathOf_append, ← List.append_assoc]
  rfl

/-- A directory is emptied when each of its entries is removed. -/
theorem emptiable_iff {fs : HostFs} {p : Path} {l : Loc} : Emptiable fs p l ↔
    ∀ name e, fs.entry (name :: l) = some e → Removable fs p l name e := by
  have hloc (ms : List Path) (name : Path) : ms ++ [name] ++ l = ms ++ name :: l := by simp
  constructor
  · intro h name e he
    refine ⟨?_, ?_, ?_, ?_⟩
    · rintro rfl hbase
      exact h.filled [name] (List.cons_ne_nil _ _) he hbase
    · intro hdir
      exact h.files [name] e (List.cons_ne_nil _ _) he hdir
    · intro ms _ hms hbase
      have hfilled := h.filled (ms ++ [name]) (by simp)
      rw [hloc, pathOf_concat] at hfilled
      exact hfilled hms hbase
    · intro ms e' _ hms hdir
      have hfiles := h.files (ms ++ [name]) e' (by simp)
      rw [hloc, pathOf_concat] at hfiles
      exact hfiles hms hdir
  · intro h
    have hentry {ms : List Path} {e : Entry} (hne : ms ≠ []) (hms : fs.entry (ms ++ l) = some e) :
        ∃ front name, ms = front ++ [name] ∧ ∃ e', fs.entry (name :: l) = some e' := by
      obtain ⟨front, name, rfl⟩ := (List.eq_nil_or_concat ms).resolve_left hne
      rw [List.concat_eq_append, hloc] at hms
      exact ⟨front, name, List.concat_eq_append, entry_of_suffix hms (List.suffix_append _ _)⟩
    constructor
    · intro ms hne hms hbase
      obtain ⟨front, name, rfl, e', he'⟩ := hentry hne hms
      rw [hloc] at hms ⊢
      by_cases hfront : front = []
      · subst hfront
        exact (h name _ hms).filled rfl hbase
      · rw [pathOf_concat] at hbase
        exact (h name e' he').below.filled front hfront hms hbase
    · intro ms e hne hms hdir
      obtain ⟨front, name, rfl, e', he'⟩ := hentry hne hms
      rw [hloc] at hms
      by_cases hfront : front = []
      · subst hfront
        exact (h name _ hms).file hdir
      · rw [pathOf_concat]
        exact (h name e' he').below.files front e hfront hms hdir

/-- Only what is below a directory counts. -/
theorem Emptiable.congr {fs fs' : HostFs} {p : Path} {l : Loc}
    (hsame : ∀ l', l <:+ l' → fs'.entry l' = fs.entry l') (h : Emptiable fs p l) :
    Emptiable fs' p l := by
  constructor
  · intro ms hne hms hbase
    rw [hsame _ (List.suffix_append _ _)] at hms
    obtain ⟨name, e, he⟩ := h.filled ms hne hms hbase
    exact ⟨name, e, (hsame _ ((List.suffix_append _ _).trans (List.suffix_cons _ _))).trans he⟩
  · intro ms e hne hms hdir
    rw [hsame _ (List.suffix_append _ _)] at hms
    exact h.files ms e hne hms hdir

/-- The removal of one entry does not touch another one, or what is below it. -/
theorem Removed.other {fs fs' : HostFs} {name other : Path} {l : Loc}
    (h : Removed fs fs' (name :: l)) (hne : other ≠ name) {l' : Loc} (hl' : other :: l <:+ l') :
    fs'.entry l' = fs.entry l' := by
  rw [h l', if_neg]
  intro hin
  obtain ⟨front, rfl⟩ := hl'
  obtain ⟨front', hfront'⟩ := hin
  have hlen := congrArg List.length hfront'
  simp only [List.length_append, List.length_cons] at hlen
  have hsame := List.append_inj hfront' (by omega)
  exact hne (List.cons.inj hsame.2).1.symm

theorem Removable.of_removed {fs fs' : HostFs} {p : Path} {l : Loc} {name other : Path} {e : Entry}
    (hremoved : Removed fs fs' (name :: l)) (hne : other ≠ name) :
    Removable fs' p l other e ↔ Removable fs p l other e := by
  have hsame {l' : Loc} (hl' : other :: l <:+ l') := hremoved.other hne hl'
  constructor
  · intro h
    refine ⟨fun hdir hbase => ?_, h.file, h.below.congr fun l' hl' => (hsame hl').symm⟩
    obtain ⟨child, e', he'⟩ := h.filled hdir hbase
    exact ⟨child, e', (hsame (List.suffix_cons _ _)).symm.trans he'⟩
  · intro h
    refine ⟨fun hdir hbase => ?_, h.file, h.below.congr fun l' hl' => hsame hl'⟩
    obtain ⟨child, e', he'⟩ := h.filled hdir hbase
    exact ⟨child, e', (hsame (List.suffix_cons _ _)).trans he'⟩

theorem none_of_not_exists {fs : HostFs} {l : Loc} (h : ¬ ∃ name e, fs.entry (name :: l) = some e)
    (name : Path) : fs.entry (name :: l) = none := by
  cases he : fs.entry (name :: l) with
  | none => rfl
  | some e => exact absurd ⟨name, e, he⟩ h

theorem emptiable_of_empty {fs : HostFs} {l : Loc} (hempty : ∀ name, fs.entry (name :: l) = none)
    (p : Path) : Emptiable fs p l := by
  rw [emptiable_iff]
  intro name e he
  rw [hempty name] at he
  cases he

/-- What a call on a directory does, by what is below the directory. -/
structure Decides (r : Readdir) (depth : Nat) (fs : HostFs) (p : Path) (l : Loc) : Prop where
  empties : Emptiable fs p l →
    ∃ fs', deleteFiles (host r) depth p fs = (some true, fs') ∧ Cleared fs fs' l
  leaves : ¬ Emptiable fs p l →
    ∀ fs', deleteFiles (host r) depth p fs = (some true, fs') → fs'.children l ≠ []

section Entries

variable (r : Readdir) {depth : Nat} {fs : HostFs} {p : Path} {l : Loc} {name : Path} {e : Entry}

/-- A call on an empty directory removes it, unless it is called like the mount root. -/
theorem deleteFiles_empty (h : LeadsTo fs p l) (hempty : ∀ child, fs.entry (child :: l) = none) :
    deleteFiles (host r) (depth + 1) p fs =
      if p = basePath then (some true, fs) else succeeded fs ((host r).rmdir p fs) := by
  have hstop : isEmptyDirOrFile (host r) p fs = true := by
    rw [isEmptyDirOrFile_host, h.opendir]
    intro d hd
    cases hd
    exact children_eq_nil.mpr hempty
  have hfile : ¬ isFile (host r) p fs = true := by
    rw [isFile_host, stat, (opendir_eq_some.mp h.opendir).1, Option.bind_some, h.dir]
    simp
  rw [deleteFiles, if_neg h.nonempty, if_pos hstop, if_neg hfile]

/-- The loop is left with the result of a call that does not succeed. -/
theorem deleteEntries_stop {delete : Path → HostFs → Option Bool × HostFs} (hname : ValidName name)
    (hrun : (delete (p ++ slash :: name) fs).1 ≠ some true) (rest : List Path) :
    deleteEntries (host r) delete p (name :: rest) fs = delete (p ++ slash :: name) fs := by
  rw [deleteEntries, if_neg hname.not_dots]
  simp only

section Led

variable (h : LeadsTo fs p l) (he : fs.entry (name :: l) = some e) (hlink : ∀ t, e ≠ .link t)
include h he hlink

theorem isFile_child : isFile (host r) (p ++ slash :: name) fs = !decide (e = .dir) := by
  rw [Bool.eq_iff_iff, isFile_host, h.stat_child he hlink]
  by_cases hdir : e = .dir <;> simp [hdir]

/-- A call on a file removes it, unless it is called like the mount root. -/
theorem deleteFiles_file (depth : Nat) (hdir : e ≠ .dir) :
    deleteFiles (host r) (depth + 1) (p ++ slash :: name) fs =
      (some true, if p ++ slash :: name = basePath then fs else fs.remove (name :: l)) := by
  have hstop : isEmptyDirOrFile (host r) (p ++ slash :: name) fs = true := by
    rw [isEmptyDirOrFile_host, h.opendir_file he hlink hdir]
    simp
  have hfile : isFile (host r) (p ++ slash :: name) fs = true := by
    rw [isFile_child r h he hlink, decide_eq_false hdir]
    rfl
  have hunlink : (host r).unlink (p ++ slash :: name) fs = some (fs.remove (name :: l)) := by
    simp only [host, h.unlink_child he hdir, Option.map_some]
  rw [deleteFiles, if_neg (h.child_ne_nil name), if_pos hstop]
  by_cases hbase : p ++ slash :: name = basePath
  · rw [if_pos hbase, if_pos hbase]
  · rw [if_neg hbase, if_neg hbase, if_pos hfile, hunlink, succeeded]

/-- A round goes on behind a call that succeeds, and removes a directory itself. -/
theorem deleteEntries_next {delete : Path → HostFs → Option Bool × HostFs} {fs₁ : HostFs}
    (hrun : delete (p ++ slash :: name) fs = (some true, fs₁)) (rest : List Path) :
    deleteEntries (host r) delete p (name :: rest) fs =
      if e = .dir then
        match (host r).rmdir (p ++ slash :: name) fs₁ with
        | some fs₂ => deleteEntries (host r) delete p rest fs₂
        | none => (some false, fs₁)
      else deleteEntries (host r) delete p rest fs₁ := by
  obtain ⟨-, hname⟩ := parent_dir he
  rw [deleteEntries, if_neg hname.not_dots]
  simp only [isFile_child r h he hlink, Bool.not_not, decide_eq_true_eq, hrun]
  split
  · cases (host r).rmdir (p ++ slash :: name) fs₁ <;> rfl
  · rfl

/-- A round on an entry that is removed. The call clears a directory and leaves it to the loop. -/
theorem deleteEntries_removes (hrem : Removable fs p l name e)
    (hchild : e = .dir → (∃ child e', fs.entry (child :: name :: l) = some e') →
      Decides r (depth + 1) fs (p ++ slash :: name) (name :: l)) (rest : List Path) :
    ∃ fs₁, deleteEntries (host r) (deleteFiles (host r) (depth + 1)) p (name :: rest) fs =
        deleteEntries (host r) (deleteFiles (host r) (depth + 1)) p rest fs₁ ∧
      Removed fs fs₁ (name :: l) ∧ Sub fs₁ fs := by
  have hcons := List.cons_ne_nil name l
  by_cases hdir : e = .dir
  · subst hdir
    have hsubdir := h.child he
    obtain ⟨fs₁, hrun, hcleared⟩ : ∃ fs₁,
        deleteFiles (host r) (depth + 1) (p ++ slash :: name) fs = (some true, fs₁) ∧
          Cleared fs fs₁ (name :: l) := by
      by_cases hsome : ∃ child e', fs.entry (child :: name :: l) = some e'
      · exact (hchild rfl hsome).empties hrem.below
      · have hempty := none_of_not_exists hsome
        have hbase : p ++ slash :: name = basePath := by
          by_contra hbase
          exact hsome (hrem.filled rfl hbase)
        refine ⟨fs, ?_, cleared_of_empty hempty⟩
        rw [deleteFiles_empty r hsubdir hempty, if_pos hbase]
    have hsub : Sub fs₁ fs := by
      have hrunSub := deleteFiles_sub r (depth + 1) (p ++ slash :: name) fs
      rwa [hrun] at hrunSub
    have hrmdir : (host r).rmdir (p ++ slash :: name) fs₁ = some (fs₁.remove (name :: l)) := by
      have hcall := (h.of_pruned (hcleared.pruned hsub).up).rmdir_child
        (hcleared.entry_self.trans he) hcleared.children
      simp only [host, hcall, Option.map_some]
    refine ⟨fs₁.remove (name :: l), ?_, hcleared.removed (removed_remove fs₁ hcons),
      (sub_remove fs₁ hcons).trans hsub⟩
    rw [deleteEntries_next r h he hlink hrun, if_pos rfl, hrmdir]
  · have hrun := deleteFiles_file r h he hlink depth hdir
    rw [if_neg (hrem.file hdir)] at hrun
    refine ⟨fs.remove (name :: l), ?_, removed_remove fs hcons, sub_remove fs hcons⟩
    rw [deleteEntries_next r h he hlink hrun, if_neg hdir]

/-- The call on a directory that is not removed leaves the loop nothing to remove. -/
theorem rmdir_of_kept {fs₁ : HostFs} (hdir : e = .dir) (hrem : ¬ Removable fs p l name e)
    (hchild : (∃ child e', fs.entry (child :: name :: l) = some e') →
      Decides r (depth + 1) fs (p ++ slash :: name) (name :: l))
    (hrun : deleteFiles (host r) (depth + 1) (p ++ slash :: name) fs = (some true, fs₁)) :
    (host r).rmdir (p ++ slash :: name) fs₁ = none := by
  subst hdir
  have hsub : Sub fs₁ fs := by
    have hrunSub := deleteFiles_sub r (depth + 1) (p ++ slash :: name) fs
    rwa [hrun] at hrunSub
  have hno : fs₁.entry (name :: l) = none ∨ fs₁.children (name :: l) ≠ [] := by
    by_cases hsome : ∃ child e', fs.entry (child :: name :: l) = some e'
    · right
      apply (hchild hsome).leaves _ fs₁ hrun
      intro hbelow
      exact hrem ⟨fun _ _ => hsome, fun hdir => absurd rfl hdir, hbelow⟩
    · left
      have hempty := none_of_not_exists hsome
      have hbase : p ++ slash :: name ≠ basePath := by
        intro hbase
        exact hrem ⟨fun _ hne => absurd hbase hne, fun hdir => absurd rfl hdir,
          emptiable_of_empty hempty _⟩
      have hrmdir := h.rmdir_child he (children_eq_nil.mpr hempty)
      rw [deleteFiles_empty r (h.child he) hempty, if_neg hbase] at hrun
      simp only [host, hrmdir, Option.map_some, succeeded, Prod.mk.injEq, true_and] at hrun
      rw [← hrun, entry_remove fs (List.cons_ne_nil _ _), if_pos List.suffix_rfl]
  simp only [host, h.rmdir_eq_none hsub he hno, Option.map_none]

/-- A round on an entry that is not removed ends the loop without success or passes it over. -/
theorem deleteEntries_keeps (hrem : ¬ Removable fs p l name e)
    (hchild : e = .dir → (∃ child e', fs.entry (child :: name :: l) = some e') →
      Decides r (depth + 1) fs (p ++ slash :: name) (name :: l)) (rest : List Path) :
    (∀ fs', deleteEntries (host r) (deleteFiles (host r) (depth + 1)) p (name :: rest) fs ≠
        (some true, fs')) ∨
      deleteEntries (host r) (deleteFiles (host r) (depth + 1)) p (name :: rest) fs =
        deleteEntries (host r) (deleteFiles (host r) (depth + 1)) p rest fs := by
  by_cases hdir : e = .dir
  · left
    intro fs'
    by_cases hok : (deleteFiles (host r) (depth + 1) (p ++ slash :: name) fs).1 = some true
    · have hrun : deleteFiles (host r) (depth + 1) (p ++ slash :: name) fs = (some true, _) :=
        Prod.ext hok rfl
      rw [deleteEntries_next r h he hlink hrun, if_pos hdir,
        rmdir_of_kept r h he hlink hdir hrem (hchild hdir) hrun]
      simp
    · rw [deleteEntries_stop r (parent_dir he).2 hok]
      intro heq
      exact hok (by rw [heq])
  · right
    have hnone : ∀ child, fs.entry (child :: name :: l) = none := by
      apply none_of_not_exists
      rintro ⟨child, e', hc⟩
      have hparent := (parent_dir hc).1
      rw [he] at hparent
      exact hdir (Option.some.inj hparent)
    have hbase : p ++ slash :: name = basePath := by
      by_contra hbase
      exact hrem ⟨fun hd => absurd hd hdir, fun _ => hbase, emptiable_of_empty hnone _⟩
    have hrun := deleteFiles_file r h he hlink depth hdir
    rw [if_pos hbase] at hrun
    rw [deleteEntries_next r h he hlink hrun, if_neg hdir]

end Led

end Entries

theorem nodup_stream (fs : HostFs) (l : Loc) : (dot :: dotdot :: fs.children l).Nodup := by
  have hdot : dot ∉ fs.children l := fun h => (validName_of_mem h).ne_dot rfl
  have hdotdot : dotdot ∉ fs.children l := fun h => (validName_of_mem h).ne_dotdot rfl
  have hdots : dot ≠ dotdot := by decide
  simp [hdot, hdotdot, hdots, nodup_children]

/-- Names of entries that a directory has, besides the dot entries, each once. -/
structure Lists (fs : HostFs) (l : Loc) (names : List Path) : Prop where
  nodup : names.Nodup
  only : ∀ name ∈ names, name ≠ dot → name ≠ dotdot → ∃ e, fs.entry (name :: l) = some e

theorem Lists.tail {fs : HostFs} {l : Loc} {name : Path} {rest : List Path}
    (h : Lists fs l (name :: rest)) : Lists fs l rest :=
  ⟨(List.nodup_cons.mp h.nodup).2, fun n hn => h.only n (List.mem_cons_of_mem _ hn)⟩

/-- The other names are still those of entries when an entry is gone. -/
theorem Lists.of_removed {fs fs' : HostFs} {l : Loc} {name : Path} {rest : List Path}
    (h : Lists fs l (name :: rest)) (hremoved : Removed fs fs' (name :: l)) : Lists fs' l rest := by
  obtain ⟨hnot, -⟩ := List.nodup_cons.mp h.nodup
  refine ⟨h.tail.nodup, fun n hn hdot hdotdot => ?_⟩
  have hne : n ≠ name := fun heq => hnot (heq ▸ hn)
  rw [hremoved.child, if_neg hne]
  exact h.tail.only n hn hdot hdotdot

section Loop

variable (r : Readdir) {depth : Nat} {p : Path} {l : Loc}
  (hchild : ∀ {fs : HostFs} {name : Path}, LeadsTo fs (p ++ slash :: name) (name :: l) →
    (∃ child e, fs.entry (child :: name :: l) = some e) → LinkFree fs (name :: l) depth →
    Decides r (depth + 1) fs (p ++ slash :: name) (name :: l))
include hchild

/-- The loop removes the entries it is given, when it is given all that are left. -/
theorem deleteEntries_clears {fs : HostFs} {names : List Path} (h : LeadsTo fs p l)
    (hfree : LinkFree fs l (depth + 1)) (hrem : Emptiable fs p l) (hlists : Lists fs l names)
    (hall : ∀ name e, fs.entry (name :: l) = some e → name ∈ names) :
    ∃ fs', deleteEntries (host r) (deleteFiles (host r) (depth + 1)) p names fs = (some true, fs') ∧
      Cleared fs fs' l := by
  induction names generalizing fs with
  | nil =>
    refine ⟨fs, rfl, cleared_of_empty (none_of_not_exists ?_)⟩
    rintro ⟨name, e, he⟩
    exact List.not_mem_nil (hall name e he)
  | cons name rest ih =>
    by_cases hdots : name = dot ∨ name = dotdot
    · rw [deleteEntries, if_pos hdots]
      refine ih h hfree hrem hlists.tail fun n e he => ?_
      rcases List.mem_cons.mp (hall n e he) with rfl | hn
      · exact absurd hdots (parent_dir he).2.not_dots
      · exact hn
    · rw [not_or] at hdots
      obtain ⟨e, he⟩ := hlists.only name List.mem_cons_self hdots.1 hdots.2
      obtain ⟨fs₁, hround, hremoved, hsub⟩ := deleteEntries_removes r h he (hfree.child_plain he)
        (emptiable_iff.mp hrem name e he) (fun hdir hsome =>
          hchild (h.child (hdir ▸ he)) hsome (hfree.child name)) rest
      have hrem₁ : Emptiable fs₁ p l := by
        rw [emptiable_iff] at hrem ⊢
        intro n e' he'
        obtain ⟨hne, he'⟩ := hremoved.child_some he'
        exact (Removable.of_removed hremoved hne).mpr (hrem n e' he')
      have hall₁ : ∀ n e', fs₁.entry (n :: l) = some e' → n ∈ rest := by
        intro n e' he'
        obtain ⟨hne, he'⟩ := hremoved.child_some he'
        exact (List.mem_cons.mp (hall n e' he')).resolve_left hne
      obtain ⟨fs', hrest, hcleared⟩ := ih (h.of_pruned (hremoved.pruned hsub))
        (hfree.of_removed hremoved) hrem₁ (hlists.of_removed hremoved) hall₁
      exact ⟨fs', by rw [hround, hrest], hremoved.cleared hcleared⟩

/-- An entry that is not removed is still there when the loop succeeds. -/
theorem deleteEntries_leaves {fs : HostFs} {names : List Path} (h : LeadsTo fs p l)
    (hfree : LinkFree fs l (depth + 1)) {kept : Path} {e : Entry}
    (hkept : fs.entry (kept :: l) = some e) (hrem : ¬ Removable fs p l kept e)
    (hlists : Lists fs l names) {fs' : HostFs}
    (hrun : deleteEntries (host r) (deleteFiles (host r) (depth + 1)) p names fs = (some true, fs')) :
    fs'.children l ≠ [] := by
  induction names generalizing fs with
  | nil =>
    obtain rfl : fs = fs' := (Prod.mk.inj hrun).2
    exact List.ne_nil_of_mem ((fs.mem_children kept l).mpr ⟨e, hkept⟩)
  | cons name rest ih =>
    by_cases hdots : name = dot ∨ name = dotdot
    · rw [deleteEntries, if_pos hdots] at hrun
      exact ih h hfree hkept hrem hlists.tail hrun
    · rw [not_or] at hdots
      obtain ⟨e', he'⟩ := hlists.only name List.mem_cons_self hdots.1 hdots.2
      have hcall : e' = .dir → (∃ child e, fs.entry (child :: name :: l) = some e) →
          Decides r (depth + 1) fs (p ++ slash :: name) (name :: l) := fun hdir hsome =>
        hchild (h.child (hdir ▸ he')) hsome (hfree.child name)
      by_cases hname : Removable fs p l name e'
      · obtain ⟨fs₁, hround, hremoved, hsub⟩ :=
          deleteEntries_removes r h he' (hfree.child_plain he') hname hcall rest
        have hne : kept ≠ name := by
          rintro rfl
          rw [hkept] at he'
          exact hrem (Option.some.inj he' ▸ hname)
        have hkept₁ : fs₁.entry (kept :: l) = some e := by rw [hremoved.child, if_neg hne, hkept]
        rw [hround] at hrun
        exact ih (h.of_pruned (hremoved.pruned hsub)) (hfree.of_removed hremoved) hkept₁
          (fun hgone => hrem ((Removable.of_removed hremoved hne).mp hgone))
          (hlists.of_removed hremoved) hrun
      · cases deleteEntries_keeps r h he' (hfree.child_plain he') hname hcall rest with
        | inl hfail => exact absurd hrun (hfail fs')
        | inr hround =>
          rw [hround] at hrun
          exact ih h hfree hkept hrem hlists.tail hrun

end Loop

/-- What a call on a directory with entries does. -/
theorem deleteFiles_decides (r : Readdir) (depth : Nat) {fs : HostFs} {p : Path} {l : Loc}
    (h : LeadsTo fs p l) (hsome : ∃ name e, fs.entry (name :: l) = some e)
    (hfree : LinkFree fs l depth) : Decides r (depth + 1) fs p l := by
  induction depth generalizing fs p l with
  | zero =>
    obtain ⟨name, e, he⟩ := hsome
    have hlen := hfree.height _ e (List.suffix_cons _ _) (List.cons_ne_self _ _) he
    rw [List.length_cons] at hlen
    omega
  | succ depth ih =>
    have hmore : ¬ isEmptyDirOrFile (host r) p fs = true := by
      rw [isEmptyDirOrFile_host]
      intro hnone
      obtain ⟨name, e, he⟩ := hsome
      rw [children_eq_nil.mp (hnone _ h.opendir)] at he
      cases he
    have hperm := r.perm p (dot :: dotdot :: fs.children l)
    have hnames : (host r).opendir p fs = some (r.order p (dot :: dotdot :: fs.children l)) := by
      simp only [host, h.opendir, Option.map_some]
    have hlists : Lists fs l (r.order p (dot :: dotdot :: fs.children l)) := by
      constructor
      · exact hperm.nodup_iff.mpr (nodup_stream fs l)
      · intro name hmem hdot hdotdot
        have hin := hperm.mem_iff.mp hmem
        exact (fs.mem_children name l).mp (by simpa [hdot, hdotdot] using hin)
    have hall : ∀ name e, fs.entry (name :: l) = some e →
        name ∈ r.order p (dot :: dotdot :: fs.children l) := by
      intro name e he
      have hin := (fs.mem_children name l).mpr ⟨e, he⟩
      exact hperm.mem_iff.mpr (by simp [hin])
    have hrun : deleteFiles (host r) (depth + 1 + 1) p fs =
        deleteEntries (host r) (deleteFiles (host r) (depth + 1)) p
          (r.order p (dot :: dotdot :: fs.children l)) fs := by
      rw [deleteFiles, if_neg h.nonempty, if_neg hmore, hnames]
    constructor
    · intro hrem
      rw [hrun]
      exact deleteEntries_clears r ih h hfree hrem hlists hall
    · intro hrem fs'
      rw [hrun]
      obtain ⟨kept, e, hkept, hrem⟩ : ∃ name e, fs.entry (name :: l) = some e ∧
          ¬ Removable fs p l name e := by
        rw [emptiable_iff] at hrem
        push Not at hrem
        exact hrem
      exact deleteEntries_leaves r ih h hfree hkept hrem hlists

/-- Nothing below the mount root is called like it. -/
theorem emptiable_basePath {fs : HostFs} {l : Loc}
    (h : ∀ l', l <:+ l' → l' ≠ l → fs.entry l' = some .dir →
      ∃ name e, fs.entry (name :: l') = some e) : Emptiable fs basePath l := by
  constructor
  · intro ms hne hdir _
    exact h _ (List.suffix_append _ _) (fun heq => hne (List.append_left_eq_self.mp heq)) hdir
  · intro ms e hne _ _ heq
    exact pathOf_ne_nil hne (List.append_right_eq_self.mp heq)

theorem leadsTo_basePath {fs : HostFs} (h : fs.entry mountRoot = some .dir) :
    LeadsTo fs basePath mountRoot := by
  rw [basePath_eq]
  exact leadsTo_pathOf h

/-- A deletable mount root is cleared, also when it is empty. -/
theorem deleteFiles_mountRoot (r : Readdir) {depth : Nat} {fs : HostFs}
    (hroot : fs.entry mountRoot = some .dir) (h : Deletable fs mountRoot depth) :
    ∃ fs', deleteFiles (host r) (depth + 1) basePath fs = (some true, fs') ∧
      Cleared fs fs' mountRoot := by
  have hpath := leadsTo_basePath hroot
  by_cases hsome : ∃ name e, fs.entry (name :: mountRoot) = some e
  · exact (deleteFiles_decides r depth hpath hsome h.linkFree).empties
      (emptiable_basePath h.filled)
  · have hempty := none_of_not_exists hsome
    refine ⟨fs, ?_, cleared_of_empty hempty⟩
    rw [deleteFiles_empty r hpath hempty, if_pos rfl]

end HostFs

end PMTester
