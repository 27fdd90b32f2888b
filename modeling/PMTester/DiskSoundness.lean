import Mathlib.Data.List.Perm.Subperm
import PMTester.DiskContents

/-!
# What the disk comparison misses

`census` lists every entry of a tree once, together with the attributes that
`get_contents` collects for it, if it gets there. The comparison decides
equality of the collected part; two trees that it calls equal can differ in the
rest.
-/
namespace PMTester

/-- An entry of a tree below its root: the relative path, the type bits, the digest of a
regular file, and what `get_contents` collects for it. -/
structure Occurrence where
  path : Path
  fmt : Flags
  digest : Option Path
  attrs : Option FileAttributes

/-- What two trees must share to be the same: path, kind and data. -/
def Occurrence.item (o : Occurrence) : Path × Flags × Option Path := (o.path, o.fmt, o.digest)

namespace Node

def isDots : Node → Bool
  | .dots _ => true
  | _ => false

/-- The file type bits of `st_mode`. -/
def fmt : Node → Flags
  | .dir _ _ _ => sIfdir
  | .reg _ _ => sIfreg
  | .lnk _ _ => sIflnk
  | .special fmt _ => fmt
  | .dots _ => sIfdir

def digest : Node → Option Path
  | .reg _ md5sum => some md5sum
  | _ => none

/-- The attributes that are stored for a node that the loop comes to. -/
def collected (dirEntry : Dirent) : Node → Option FileAttributes
  | .dir stat _ _ =>
    stat.map fun st => ((FileAttributes.init 0).setDirAttr dirEntry).setStatAttr (some st)
  | .reg stat md5sum =>
    stat.map fun st => ((FileAttributes.init 0).setMd5sum md5sum).setStatAttr (some st)
  | .lnk lstat target =>
    target.bind fun _ => lstat.map fun st => (FileAttributes.init 0).setStatAttr (some st)
  | .special _ stat => stat.map fun st => (FileAttributes.init 0).setStatAttr (some st)
  | .dots _ => none

end Node

mutual

/-- The entries below a node at `rel`. -/
def Node.census (reached : Bool) (rel : Path) : Node → List Occurrence
  | .dir _ opens entries => entries.census (reached && opens) rel
  | _ => []

def Entries.census (reached : Bool) (rel : Path) : Entries → List Occurrence
  | .nil => []
  | .cons dirEntry node rest =>
    if node.isDots then rest.census reached rel
    else
      { path := rel ++ slash :: dirEntry.dName, fmt := node.fmt, digest := node.digest,
        attrs := if reached then node.collected dirEntry else none } ::
      (node.census (reached && node.stat.isSome) (rel ++ slash :: dirEntry.dName) ++
        rest.census reached rel)

end

/-- The paths and attributes that are collected. -/
def seen (l : List Occurrence) : List (Path × FileAttributes) :=
  l.filterMap fun o => o.attrs.map fun fa => (o.path, fa)

/-- The entries for which nothing is collected. -/
def missed (l : List Occurrence) : List Occurrence := l.filter fun o => o.attrs.isNone

def Node.occurrences (root : Node) : List Occurrence := root.census true []

/-- The two trees have the same relative paths, of the same kind, with the same digests. -/
def SameTree (r₁ r₂ : Node) : Prop :=
  ∀ item, item ∈ r₁.occurrences.map Occurrence.item ↔ item ∈ r₂.occurrences.map Occurrence.item

/-- The entries that `get_contents` reaches have the same attributes. -/
def SeenAlike (r₁ r₂ : Node) : Prop :=
  ∀ entry, entry ∈ seen r₁.occurrences ↔ entry ∈ seen r₂.occurrences

/-- The entries that it does not reach, or skips, are the same. -/
def MissedAlike (r₁ r₂ : Node) : Prop :=
  ∀ item, item ∈ (missed r₁.occurrences).map Occurrence.item ↔
    item ∈ (missed r₂.occurrences).map Occurrence.item

/-- `readdir` reports the true type. -/
def ReportsType (dType : Nat) (fmt : Flags) : Prop :=
  (dType = dtDir ↔ fmt = sIfdir) ∧ (dType = dtReg ↔ fmt = sIfreg) ∧ (dType = dtLnk ↔ fmt = sIflnk)

instance (dType : Nat) (fmt : Flags) : Decidable (ReportsType dType fmt) :=
  inferInstanceAs (Decidable (_ ∧ _ ∧ _))

theorem reportsType_dir : ReportsType dtDir sIfdir := by decide
theorem reportsType_reg : ReportsType dtReg sIfreg := by decide
theorem reportsType_lnk : ReportsType dtLnk sIflnk := by decide

def Entries.names : Entries → List Path
  | .nil => []
  | .cons dirEntry _ rest => dirEntry.dName :: rest.names

mutual

/-- A tree as a file system presents it. -/
def Node.WellFormed : Node → Prop
  | .dir _ _ entries => entries.WellFormed
  | .special fmt _ => fmt ≠ sIfdir ∧ fmt ≠ sIfreg ∧ fmt ≠ sIflnk
  | _ => True

/-- No name occurs twice in a directory, and none has a slash in it. -/
def Entries.WellFormed : Entries → Prop
  | .nil => True
  | .cons dirEntry node rest =>
    slash ∉ dirEntry.dName ∧ dirEntry.dName ∉ rest.names ∧
    (node.isDots = true ↔ dirEntry.dName = dot ∨ dirEntry.dName = dotdot) ∧
    ReportsType dirEntry.dType node.fmt ∧
    (∀ st, node.lstat = some st → st.stMode &&& sIfmt = node.fmt) ∧
    node.WellFormed ∧ rest.WellFormed

end

def insertAll (l : List (Path × FileAttributes)) (c : Contents) : Contents :=
  l.foldl (fun c entry => c.insert entry.1 entry.2) c

theorem insertAll_append (l₁ l₂ : List (Path × FileAttributes)) (c : Contents) :
    insertAll (l₁ ++ l₂) c = insertAll l₂ (insertAll l₁ c) := by
  simp [insertAll]

theorem seen_append (l₁ l₂ : List Occurrence) : seen (l₁ ++ l₂) = seen l₁ ++ seen l₂ := by
  simp [seen]

theorem seen_cons (o : Occurrence) (l : List Occurrence) : seen (o :: l) = seen [o] ++ seen l :=
  seen_append [o] l

mutual

theorem Node.seen_census_false (node : Node) (rel : Path) :
    seen (node.census false rel) = [] := by
  cases node with
  | dir stat opens entries => simpa [Node.census] using entries.seen_census_false rel
  | reg stat md5sum => rfl
  | lnk lstat target => rfl
  | special fmt stat => rfl
  | dots stat => rfl

theorem Entries.seen_census_false (entries : Entries) (rel : Path) :
    seen (entries.census false rel) = [] := by
  cases entries with
  | nil => rfl
  | cons dirEntry node rest =>
    have hrest := rest.seen_census_false rel
    have hnode := node.seen_census_false (rel ++ slash :: dirEntry.dName)
    cases hdots : node.isDots with
    | true => simpa [Entries.census, hdots] using hrest
    | false =>
      simp only [Entries.census, hdots, Bool.false_eq_true, if_false, Bool.false_and]
      rw [seen_cons, seen_append, hnode, hrest]
      rfl

end

/-- What the loop body does with one entry that is neither `.` nor `..`. -/
theorem readEntries_cons (mountPoint path : Path) (dirEntry : Dirent) (node : Node)
    (rest : Entries) (c : Contents) (h : (Entries.cons dirEntry node rest).WellFormed)
    (hdots : node.isDots = false) :
    readEntries mountPoint path (.cons dirEntry node rest) c =
      readEntries mountPoint path rest
        (match node.collected dirEntry with
        | none => c
        | some fa => getContents mountPoint (path ++ slash :: dirEntry.dName) node
            (c.insert ((path ++ slash :: dirEntry.dName).drop mountPoint.length) fa)) := by
  obtain ⟨-, -, hname, ⟨hdir, hreg, hlnk⟩, -, hnode, -⟩ := h
  rw [hdots] at hname
  have hname : ¬(dirEntry.dName = dot ∨ dirEntry.dName = dotdot) := by
    intro hd
    exact absurd (hname.mpr hd) (by simp)
  rw [readEntries]
  congr 1
  cases node with
  | dir stat opens entries =>
    have ht : dirEntry.dType = dtDir := hdir.mpr rfl
    cases stat with
    | none => simp [Node.stat, Node.collected]
    | some st => simp [Node.stat, Node.collected, ht, hname]
  | reg stat md5sum =>
    have ht : dirEntry.dType = dtReg := hreg.mpr rfl
    cases stat with
    | none => simp [Node.stat, Node.collected]
    | some st =>
      simp [Node.stat, Node.collected, ht, dtReg, dtDir, dtLnk, Node.md5sum, getContents]
  | lnk lstat target =>
    have ht : dirEntry.dType = dtLnk := hlnk.mpr rfl
    cases target with
    | none => simp [Node.stat, Node.collected]
    | some st =>
      cases lstat with
      | none => simp [Node.stat, Node.collected, ht, dtDir, dtLnk, Node.lstat]
      | some lst => simp [Node.stat, Node.collected, ht, dtDir, dtLnk, Node.lstat, getContents]
  | special fmt stat =>
    obtain ⟨hnd, hnr, hnl⟩ := hnode
    have hd : dirEntry.dType ≠ dtDir := fun he => hnd (hdir.mp he)
    have hr : dirEntry.dType ≠ dtReg := fun he => hnr (hreg.mp he)
    have hl : dirEntry.dType ≠ dtLnk := fun he => hnl (hlnk.mp he)
    cases stat with
    | none => simp [Node.stat, Node.collected]
    | some st => simp [Node.stat, Node.collected, hd, hr, hl, getContents]
  | dots stat => simp [Node.isDots] at hdots

theorem Node.collected_none_below (dirEntry : Dirent) (node : Node) (rel : Path)
    (h : node.collected dirEntry = none) :
    seen (node.census node.stat.isSome rel) = [] := by
  cases node with
  | dir stat opens entries =>
    cases stat with
    | none => exact Node.seen_census_false _ rel
    | some st => simp [Node.collected] at h
  | reg stat md5sum => rfl
  | lnk lstat target => rfl
  | special fmt stat => rfl
  | dots stat => rfl

theorem Node.stat_of_collected (dirEntry : Dirent) (node : Node) (fa : FileAttributes)
    (h : node.collected dirEntry = some fa) : node.stat.isSome = true := by
  cases node with
  | dir stat opens entries => cases stat <;> simp_all [Node.collected, Node.stat]
  | reg stat md5sum => cases stat <;> simp_all [Node.collected, Node.stat]
  | lnk lstat target => cases target <;> simp_all [Node.collected, Node.stat]
  | special fmt stat => cases stat <;> simp_all [Node.collected, Node.stat]
  | dots stat => simp [Node.collected] at h

mutual

/-- `get_contents` inserts the entries it sees, in the order of the census. -/
theorem getContents_eq (mountPoint rel : Path) (node : Node) (h : node.WellFormed)
    (c : Contents) :
    getContents mountPoint (mountPoint ++ rel) node c =
      insertAll (seen (node.census true rel)) c := by
  cases node with
  | dir stat opens entries =>
    cases opens with
    | true =>
      simp only [getContents, Node.census, Bool.and_true]
      exact readEntries_eq mountPoint rel entries h c
    | false =>
      simp only [getContents, Node.census, Bool.and_false]
      rw [Entries.seen_census_false]
      rfl
  | reg stat md5sum => rfl
  | lnk lstat target => rfl
  | special fmt stat => rfl
  | dots stat => rfl

theorem readEntries_eq (mountPoint rel : Path) (entries : Entries) (h : entries.WellFormed)
    (c : Contents) :
    readEntries mountPoint (mountPoint ++ rel) entries c =
      insertAll (seen (entries.census true rel)) c := by
  cases entries with
  | nil => rfl
  | cons dirEntry node rest =>
    obtain ⟨-, -, hname, ⟨hdir, -, -⟩, -, hnode, hrest⟩ := id h
    have ihRest := readEntries_eq mountPoint rel rest hrest
    have ihNode := getContents_eq mountPoint (rel ++ slash :: dirEntry.dName) node hnode
    rw [← List.append_assoc] at ihNode
    cases hdots : node.isDots with
    | true =>
      have hskip := hname.mp hdots
      have ht : dirEntry.dType = dtDir := by
        apply hdir.mpr
        cases node <;> simp_all [Node.isDots, Node.fmt]
      rw [readEntries]
      simp only [ht, hskip, if_true, Entries.census, hdots]
      rw [← ihRest]
      cases node.stat <;> rfl
    | false =>
      rw [readEntries_cons _ _ _ _ _ _ h hdots]
      simp only [Entries.census, hdots, Bool.false_eq_true, if_false, if_true, Bool.true_and]
      rw [seen_cons, seen_append, insertAll_append, insertAll_append, ← ihRest]
      congr 1
      cases hfa : node.collected dirEntry with
      | none =>
        rw [Node.collected_none_below dirEntry node _ hfa]
        simp [seen, insertAll]
      | some fa =>
        rw [Node.stat_of_collected dirEntry node fa hfa]
        exact (ihNode _).trans (by simp [seen, insertAll])

end

/-- The names of a directory are told apart by what comes before the next slash. -/
theorem name_unique (n₁ n₂ t₁ t₂ : Path) (h₁ : slash ∉ n₁) (h₂ : slash ∉ n₂)
    (ht₁ : t₁ = [] ∨ ∃ t, t₁ = slash :: t) (ht₂ : t₂ = [] ∨ ∃ t, t₂ = slash :: t)
    (h : n₁ ++ t₁ = n₂ ++ t₂) : n₁ = n₂ := by
  have first (n t : Path) (hn : slash ∉ n) (ht : t = [] ∨ ∃ t', t = slash :: t') :
      (n ++ t).takeWhile (· != slash) = n := by
    have hall : ∀ b ∈ n, (b != slash) = true := by
      intro b hb
      simp only [bne_iff_ne, ne_eq]
      intro he
      exact hn (he ▸ hb)
    rw [List.takeWhile_append_of_pos hall]
    obtain rfl | ⟨t', rfl⟩ := ht <;> simp
  calc n₁ = (n₁ ++ t₁).takeWhile (· != slash) := (first n₁ t₁ h₁ ht₁).symm
    _ = (n₂ ++ t₂).takeWhile (· != slash) := by rw [h]
    _ = n₂ := first n₂ t₂ h₂ ht₂

/-- `p` is the path of an entry called `name` in the directory at `rel`, or lies below it. -/
def Under (rel name p : Path) : Prop :=
  ∃ tail, p = rel ++ slash :: (name ++ tail) ∧ (tail = [] ∨ ∃ t, tail = slash :: t)

theorem Under.name_eq {rel n₁ n₂ p : Path} (h₁ : slash ∉ n₁) (h₂ : slash ∉ n₂)
    (hp₁ : Under rel n₁ p) (hp₂ : Under rel n₂ p) : n₁ = n₂ := by
  obtain ⟨t₁, rfl, ht₁⟩ := hp₁
  obtain ⟨t₂, he, ht₂⟩ := hp₂
  have he : n₁ ++ t₁ = n₂ ++ t₂ := by simpa using he
  exact name_unique n₁ n₂ t₁ t₂ h₁ h₂ ht₁ ht₂ he

mutual

/-- Below a node at `rel` every path continues `rel` with a slash. -/
theorem Node.census_below (reached : Bool) (rel : Path) (node : Node) (o : Occurrence)
    (h : o ∈ node.census reached rel) : ∃ t, o.path = rel ++ slash :: t := by
  cases node with
  | dir stat opens entries =>
    obtain ⟨name, -, tail, he, -⟩ := entries.census_under (reached && opens) rel o h
    exact ⟨name ++ tail, he⟩
  | reg stat md5sum => simp [Node.census] at h
  | lnk lstat target => simp [Node.census] at h
  | special fmt stat => simp [Node.census] at h
  | dots stat => simp [Node.census] at h

theorem Entries.census_under (reached : Bool) (rel : Path) (entries : Entries) (o : Occurrence)
    (h : o ∈ entries.census reached rel) : ∃ name ∈ entries.names, Under rel name o.path := by
  cases entries with
  | nil => simp [Entries.census] at h
  | cons dirEntry node rest =>
    have inRest (hr : o ∈ rest.census reached rel) :
        ∃ name ∈ (Entries.cons dirEntry node rest).names, Under rel name o.path := by
      obtain ⟨name, hn, hu⟩ := rest.census_under reached rel o hr
      exact ⟨name, List.mem_cons_of_mem _ hn, hu⟩
    cases hdots : node.isDots with
    | true =>
      simp only [Entries.census, hdots, if_true] at h
      exact inRest h
    | false =>
      simp only [Entries.census, hdots, Bool.false_eq_true, if_false, List.mem_cons,
        List.mem_append] at h
      obtain rfl | hn | hr := h
      · exact ⟨dirEntry.dName, List.mem_cons_self, [], by simp, .inl rfl⟩
      · obtain ⟨t, ht⟩ := node.census_below _ _ o hn
        exact ⟨dirEntry.dName, List.mem_cons_self, slash :: t, by simp [ht], .inr ⟨t, rfl⟩⟩
      · exact inRest hr

end

theorem Entries.slash_notMem (entries : Entries) (h : entries.WellFormed) :
    ∀ name ∈ entries.names, slash ∉ name := by
  induction entries using Entries.rec (motive_1 := fun _ => True) with
  | nil => simp [Entries.names]
  | cons dirEntry node rest _ ih =>
    intro name hn
    obtain ⟨hs, -, -, -, -, -, hrest⟩ := h
    obtain rfl | hn := List.mem_cons.mp hn
    · exact hs
    · exact ih hrest name hn
  | _ => trivial

mutual

theorem Node.census_nodup (reached : Bool) (rel : Path) (node : Node) (h : node.WellFormed) :
    ((node.census reached rel).map Occurrence.path).Nodup := by
  cases node with
  | dir stat opens entries => exact entries.census_nodup (reached && opens) rel h
  | reg stat md5sum => exact List.nodup_nil
  | lnk lstat target => exact List.nodup_nil
  | special fmt stat => exact List.nodup_nil
  | dots stat => exact List.nodup_nil

theorem Entries.census_nodup (reached : Bool) (rel : Path) (entries : Entries)
    (h : entries.WellFormed) : ((entries.census reached rel).map Occurrence.path).Nodup := by
  cases entries with
  | nil => exact List.nodup_nil
  | cons dirEntry node rest =>
    obtain ⟨hs, hfresh, -, -, -, hnode, hrest⟩ := h
    have ihRest := rest.census_nodup reached rel hrest
    cases hdots : node.isDots with
    | true => simpa [Entries.census, hdots] using ihRest
    | false =>
      have ihNode := node.census_nodup (reached && node.stat.isSome)
        (rel ++ slash :: dirEntry.dName) hnode
      have apart (p : Path) (hp : Under rel dirEntry.dName p) :
          p ∉ (rest.census reached rel).map Occurrence.path := by
        intro hmem
        obtain ⟨o, ho, rfl⟩ := List.mem_map.mp hmem
        obtain ⟨name, hname, hu⟩ := rest.census_under reached rel o ho
        have he := hp.name_eq hs (rest.slash_notMem hrest name hname) hu
        exact hfresh (he ▸ hname)
      simp only [Entries.census, hdots, Bool.false_eq_true, if_false, List.map_cons,
        List.map_append, List.nodup_cons, List.mem_append]
      refine ⟨?_, List.nodup_append'.mpr ⟨ihNode, ihRest, ?_⟩⟩
      · intro hmem
        obtain hn | hr := hmem
        · obtain ⟨o, ho, he⟩ := List.mem_map.mp hn
          obtain ⟨t, ht⟩ := node.census_below _ _ o ho
          have hlen := congrArg List.length (he.symm.trans ht)
          simp at hlen
        · exact apart _ ⟨[], by simp, .inl rfl⟩ hr
      · intro p hn hr
        obtain ⟨o, ho, rfl⟩ := List.mem_map.mp hn
        obtain ⟨t, ht⟩ := node.census_below _ _ o ho
        exact apart _ ⟨slash :: t, by simp [ht], .inr ⟨t, rfl⟩⟩ hr

end

theorem occurrence_unique (root : Node) (h : root.WellFormed) (o o' : Occurrence)
    (ho : o ∈ root.occurrences) (ho' : o' ∈ root.occurrences) (he : o.path = o'.path) : o = o' :=
  List.inj_on_of_nodup_map (root.census_nodup true [] h) ho ho' he

theorem seen_path_subset (l : List Occurrence) :
    ((seen l).map Prod.fst).Sublist (l.map Occurrence.path) := by
  induction l with
  | nil => exact List.Sublist.refl []
  | cons o l ih =>
    rw [seen_cons]
    cases hfa : o.attrs with
    | none => simpa [seen, hfa] using ih.cons o.path
    | some fa => simpa [seen, hfa] using ih

theorem seen_nodup (root : Node) (h : root.WellFormed) :
    ((seen root.occurrences).map Prod.fst).Nodup :=
  (seen_path_subset root.occurrences).nodup (root.census_nodup true [] h)

/-- The kind and the data of an entry can be read off what is collected for it. -/
structure FileAttributes.Describes (fa : FileAttributes) (fmt : Flags) (digest : Option Path) :
    Prop where
  fmt_eq : fmt = fa.statAttr.stMode &&& sIfmt
  digest_eq : digest = if fa.isRegularFile then some fa.md5sum else none
  md5sum_eq : fa.isRegularFile = false → fa.md5sum = []

theorem Node.collected_describes (dirEntry : Dirent) (node : Node) (fa : FileAttributes)
    (hmode : ∀ st, node.lstat = some st → st.stMode &&& sIfmt = node.fmt)
    (h : node.WellFormed) (hfa : node.collected dirEntry = some fa) :
    fa.Describes node.fmt node.digest := by
  cases node with
  | dir stat opens entries =>
    obtain ⟨st, rfl, rfl⟩ := Option.map_eq_some_iff.mp hfa
    have hm : st.stMode &&& sIfmt = sIfdir := hmode st rfl
    have hreg : st.isReg = false := by simp [Stat.isReg, hm]; decide
    exact ⟨hm.symm, by simp [FileAttributes.isRegularFile, FileAttributes.setStatAttr, hreg,
      Node.digest], fun _ => rfl⟩
  | reg stat md5sum =>
    obtain ⟨st, rfl, rfl⟩ := Option.map_eq_some_iff.mp hfa
    have hm : st.stMode &&& sIfmt = sIfreg := hmode st rfl
    have hreg : st.isReg = true := by simp [Stat.isReg, hm]
    refine ⟨hm.symm, by simp [FileAttributes.isRegularFile, FileAttributes.setStatAttr,
      FileAttributes.setMd5sum, hreg, Node.digest], ?_⟩
    simp [FileAttributes.isRegularFile, FileAttributes.setStatAttr, hreg]
  | lnk lstat target =>
    obtain ⟨tst, rfl, hl⟩ := Option.bind_eq_some_iff.mp hfa
    obtain ⟨st, rfl, rfl⟩ := Option.map_eq_some_iff.mp hl
    have hm : st.stMode &&& sIfmt = sIflnk := hmode st rfl
    have hreg : st.isReg = false := by simp [Stat.isReg, hm]; decide
    exact ⟨hm.symm, by simp [FileAttributes.isRegularFile, FileAttributes.setStatAttr, hreg,
      Node.digest], fun _ => rfl⟩
  | special fmt stat =>
    obtain ⟨st, rfl, rfl⟩ := Option.map_eq_some_iff.mp hfa
    have hm : st.stMode &&& sIfmt = fmt := hmode st rfl
    have hreg : st.isReg = false := by simpa [Stat.isReg, hm] using h.2.1
    exact ⟨hm.symm, by simp [FileAttributes.isRegularFile, FileAttributes.setStatAttr, hreg,
      Node.digest], fun _ => rfl⟩
  | dots stat => simp [Node.collected] at hfa

mutual

theorem Node.census_describes (reached : Bool) (rel : Path) (node : Node) (h : node.WellFormed)
    (o : Occurrence) (ho : o ∈ node.census reached rel) (fa : FileAttributes)
    (hfa : o.attrs = some fa) : fa.Describes o.fmt o.digest := by
  cases node with
  | dir stat opens entries => exact entries.census_describes _ rel h o ho fa hfa
  | reg stat md5sum => simp [Node.census] at ho
  | lnk lstat target => simp [Node.census] at ho
  | special fmt stat => simp [Node.census] at ho
  | dots stat => simp [Node.census] at ho

theorem Entries.census_describes (reached : Bool) (rel : Path) (entries : Entries)
    (h : entries.WellFormed) (o : Occurrence) (ho : o ∈ entries.census reached rel)
    (fa : FileAttributes) (hfa : o.attrs = some fa) : fa.Describes o.fmt o.digest := by
  cases entries with
  | nil => simp [Entries.census] at ho
  | cons dirEntry node rest =>
    obtain ⟨-, -, -, -, hmode, hnode, hrest⟩ := h
    cases hdots : node.isDots with
    | true =>
      simp only [Entries.census, hdots, if_true] at ho
      exact rest.census_describes reached rel hrest o ho fa hfa
    | false =>
      simp only [Entries.census, hdots, Bool.false_eq_true, if_false, List.mem_cons,
        List.mem_append] at ho
      obtain rfl | hn | hr := ho
      · cases reached with
        | true => exact node.collected_describes dirEntry fa hmode hnode (by simpa using hfa)
        | false => simp at hfa
      · exact node.census_describes _ _ hnode o hn fa hfa
      · exact rest.census_describes reached rel hrest o hr fa hfa

end

theorem mem_seen (l : List Occurrence) (p : Path) (fa : FileAttributes) :
    (p, fa) ∈ seen l ↔ ∃ o ∈ l, o.attrs = some fa ∧ o.path = p := by
  simp [seen]

theorem seen_md5sum (root : Node) (h : root.WellFormed) (p : Path) (fa : FileAttributes)
    (hfa : (p, fa) ∈ seen root.occurrences) : fa.isRegularFile = false → fa.md5sum = [] := by
  obtain ⟨o, ho, hattrs, -⟩ := (mem_seen _ p fa).mp hfa
  exact (root.census_describes true [] h o ho fa hattrs).md5sum_eq

theorem insertAll_entries (l : List (Path × FileAttributes)) (c : Contents)
    (hnd : (l.map Prod.fst).Nodup) (hfresh : ∀ entry ∈ l, entry.1 ∉ c) :
    (insertAll l c).entries =
      (l.map fun entry => (⟨entry.1, entry.2⟩ : Sigma fun _ : Path => FileAttributes)).reverse ++
        c.entries := by
  induction l generalizing c with
  | nil => rfl
  | cons entry l ih =>
    rw [List.map_cons, List.nodup_cons] at hnd
    obtain ⟨hnot, hnd⟩ := hnd
    have hnew : entry.1 ∉ c := hfresh entry List.mem_cons_self
    have hrest : ∀ e ∈ l, e.1 ∉ c.insert entry.1 entry.2 := by
      intro e he
      rw [AList.mem_insert]
      rintro (heq | hin)
      · exact hnot (heq ▸ List.mem_map_of_mem he)
      · exact hfresh e (List.mem_cons_of_mem _ he) hin
    calc (insertAll (entry :: l) c).entries
        = (insertAll l (c.insert entry.1 entry.2)).entries := rfl
      _ = _ := by rw [ih _ hnd hrest, AList.entries_insert_of_notMem hnew]; simp

/-- The contents that are collected from an empty map. -/
def collect (root : Node) : Contents := insertAll (seen root.occurrences) ∅

theorem collect_entries (root : Node) (h : root.WellFormed) :
    (collect root).entries = ((seen root.occurrences).map
      fun entry => (⟨entry.1, entry.2⟩ : Sigma fun _ : Path => FileAttributes)).reverse := by
  have he := insertAll_entries _ ∅ (seen_nodup root h) (fun _ _ => AList.notMem_empty _)
  simpa [collect] using he

theorem mem_collect (root : Node) (h : root.WellFormed) (p : Path) (fa : FileAttributes) :
    (⟨p, fa⟩ : Sigma fun _ : Path => FileAttributes) ∈ (collect root).entries ↔
      (p, fa) ∈ seen root.occurrences := by
  simp [collect_entries root h]

theorem lookup_collect (root : Node) (h : root.WellFormed) (p : Path) (fa : FileAttributes) :
    (collect root).lookup p = some fa ↔ (p, fa) ∈ seen root.occurrences := by
  rw [← mem_collect root h]
  exact AList.mem_lookup_iff

theorem length_collect (root : Node) (h : root.WellFormed) :
    (collect root).entries.length = (seen root.occurrences).length := by
  simp [collect_entries root h]

/-- The loop over the map reports no difference if no round does. -/
theorem foldl_and (c : Contents) (f : Path → FileAttributes → Bool) (b : Bool) :
    c.foldl (fun retValue path fa => retValue && f path fa) b = true ↔
      b = true ∧ ∀ p fa, ⟨p, fa⟩ ∈ c.entries → f p fa = true := by
  obtain ⟨entries, hnd⟩ := c
  unfold AList.foldl
  simp only
  clear hnd
  induction entries generalizing b with
  | nil => simp
  | cons e es ih =>
    rw [List.foldl_cons, ih]
    constructor
    · rintro ⟨hb, hes⟩
      obtain ⟨hb, he⟩ := Bool.and_eq_true_iff.mp hb
      refine ⟨hb, fun p fa hmem => ?_⟩
      obtain rfl | hmem := List.mem_cons.mp hmem
      · exact he
      · exact hes p fa hmem
    · rintro ⟨hb, hall⟩
      refine ⟨by simp [hb, hall e.1 e.2 List.mem_cons_self], fun p fa hmem => ?_⟩
      exact hall p fa (List.mem_cons_of_mem _ hmem)

/-- When only regular files have a digest, entries match if they are equal. -/
theorem sameEntry_iff (c : Contents) (p : Path) (fa : FileAttributes)
    (hfa : fa.isRegularFile = false → fa.md5sum = [])
    (hc : ∀ fb, c.lookup p = some fb → fb.isRegularFile = false → fb.md5sum = []) :
    sameEntry c p fa = true ↔ c.lookup p = some fa := by
  cases hl : c.lookup p with
  | none => simp [sameEntry, hl]
  | some fb =>
    have hfb := hc fb hl
    have hmatch : sameEntry c p fa = true ↔ fa.dirAttr = fb.dirAttr ∧ fa.statAttr = fb.statAttr ∧
        (fa.isRegularFile = true → fa.md5sum = fb.md5sum) := by
      simp only [sameEntry, hl]
      cases hreg : fa.isRegularFile <;> simp [and_assoc]
    rw [hmatch, Option.some_inj]
    constructor
    · rintro ⟨hdir, hstat, hmd5⟩
      have hkind : fb.isRegularFile = fa.isRegularFile := by
        simp [FileAttributes.isRegularFile, hstat]
      rw [FileAttributes.ext_iff]
      refine ⟨hdir.symm, hstat.symm, ?_⟩
      cases hreg : fa.isRegularFile with
      | true => exact (hmd5 hreg).symm
      | false => rw [hfa hreg, hfb (hkind.trans hreg)]
    · rintro rfl
      exact ⟨rfl, rfl, fun _ => rfl⟩

/-- The comparison decides whether the collected parts are equal. -/
theorem compare_iff (disk compareDisk : DiskContents) (root compareRoot : Node)
    (hpath : disk.diskPath ≠ compareDisk.diskPath) (hmount : disk.mountPoint = basePath)
    (hnew : disk.contents = ∅) (hnew' : compareDisk.contents = ∅)
    (h : root.WellFormed) (h' : compareRoot.WellFormed) :
    (disk.compareDiskContents compareDisk root compareRoot).1 = true ↔
      SeenAlike root compareRoot := by
  have hc : getContents basePath basePath root ∅ = collect root := by
    simpa [collect, Node.occurrences] using getContents_eq basePath [] root h ∅
  have hc' : getContents compareDisk.mountPoint compareDisk.mountPoint compareRoot ∅ =
      collect compareRoot := by
    simpa [collect, Node.occurrences] using
      getContents_eq compareDisk.mountPoint [] compareRoot h' ∅
  have hround (p : Path) (fa : FileAttributes) (hmem : (p, fa) ∈ seen root.occurrences) :
      sameEntry (collect compareRoot) p fa = true ↔ (p, fa) ∈ seen compareRoot.occurrences := by
    rw [sameEntry_iff _ p fa (seen_md5sum root h p fa hmem), lookup_collect compareRoot h']
    intro fb hfb
    exact seen_md5sum compareRoot h' p fb ((lookup_collect compareRoot h' p fb).mp hfb)
  simp only [DiskContents.compareDiskContents, hpath, if_false, hmount, hnew, hnew', hc, hc',
    foldl_and, decide_eq_true_eq, length_collect _ h, length_collect _ h', mem_collect _ h]
  constructor
  · rintro ⟨hlen, hall⟩ entry
    have hsub : seen root.occurrences ⊆ seen compareRoot.occurrences :=
      fun e he => (hround e.1 e.2 he).mp (hall e.1 e.2 he)
    have hperm := (List.subperm_of_subset (seen_nodup root h).of_map hsub).perm_of_length_le
      (Nat.le_of_eq hlen.symm)
    exact hperm.mem_iff
  · intro halike
    refine ⟨?_, fun p fa hmem => (hround p fa hmem).mpr ((halike (p, fa)).mp hmem)⟩
    exact ((List.perm_ext_iff_of_nodup (seen_nodup root h).of_map
      (seen_nodup compareRoot h').of_map).mpr halike).length_eq

/-- The item of a collected entry is a function of the path and the attributes. -/
theorem item_of_seen (root : Node) (h : root.WellFormed) (o : Occurrence) (fa : FileAttributes)
    (ho : o ∈ root.occurrences) (hfa : o.attrs = some fa) :
    o.item = (o.path, fa.statAttr.stMode &&& sIfmt,
      if fa.isRegularFile then some fa.md5sum else none) := by
  have hd := root.census_describes true [] h o ho fa hfa
  simp [Occurrence.item, hd.fmt_eq, hd.digest_eq]

theorem SeenAlike.symm {r₁ r₂ : Node} (h : SeenAlike r₁ r₂) : SeenAlike r₂ r₁ :=
  fun entry => (h entry).symm

theorem MissedAlike.symm {r₁ r₂ : Node} (h : MissedAlike r₁ r₂) : MissedAlike r₂ r₁ :=
  fun item => (h item).symm

theorem SameTree.symm {r₁ r₂ : Node} (h : SameTree r₁ r₂) : SameTree r₂ r₁ :=
  fun item => (h item).symm

theorem mem_missed_items (l : List Occurrence) (item : Path × Flags × Option Path) :
    item ∈ (missed l).map Occurrence.item ↔ ∃ o ∈ l, o.attrs = none ∧ o.item = item := by
  simp [missed, and_assoc]

/-- One inclusion of `SameTree`. -/
theorem items_subset (r₁ r₂ : Node) (h₁ : r₁.WellFormed) (h₂ : r₂.WellFormed)
    (hseen : SeenAlike r₁ r₂) (hmissed : MissedAlike r₁ r₂) (item : Path × Flags × Option Path)
    (h : item ∈ r₁.occurrences.map Occurrence.item) :
    item ∈ r₂.occurrences.map Occurrence.item := by
  obtain ⟨o, ho, rfl⟩ := List.mem_map.mp h
  cases hfa : o.attrs with
  | none =>
    have hm := (hmissed o.item).mp ((mem_missed_items _ _).mpr ⟨o, ho, hfa, rfl⟩)
    obtain ⟨o', ho', -, he⟩ := (mem_missed_items _ _).mp hm
    exact List.mem_map.mpr ⟨o', ho', he⟩
  | some fa =>
    have hs := (hseen (o.path, fa)).mp ((mem_seen _ _ _).mpr ⟨o, ho, hfa, rfl⟩)
    obtain ⟨o', ho', hfa', hp⟩ := (mem_seen _ _ _).mp hs
    refine List.mem_map.mpr ⟨o', ho', ?_⟩
    rw [item_of_seen r₁ h₁ o fa ho hfa, item_of_seen r₂ h₂ o' fa ho' hfa', hp]

/-- One inclusion of `MissedAlike`: a missed entry is not collected on the other side. -/
theorem missed_subset (r₁ r₂ : Node) (h₁ : r₁.WellFormed) (hseen : SeenAlike r₁ r₂)
    (hsame : SameTree r₁ r₂) (item : Path × Flags × Option Path)
    (h : item ∈ (missed r₁.occurrences).map Occurrence.item) :
    item ∈ (missed r₂.occurrences).map Occurrence.item := by
  obtain ⟨o, ho, hnone, rfl⟩ := (mem_missed_items _ _).mp h
  have hin := (hsame o.item).mp (List.mem_map.mpr ⟨o, ho, rfl⟩)
  obtain ⟨o', ho', he⟩ := List.mem_map.mp hin
  refine (mem_missed_items _ _).mpr ⟨o', ho', ?_, he⟩
  cases hfa : o'.attrs with
  | none => rfl
  | some fa =>
    have hs := (hseen (o'.path, fa)).mpr ((mem_seen _ _ _).mpr ⟨o', ho', hfa, rfl⟩)
    obtain ⟨o'', ho'', hfa'', hp⟩ := (mem_seen _ _ _).mp hs
    have hpath : o''.path = o.path := hp.trans (congrArg Prod.fst he)
    rw [occurrence_unique r₁ h₁ o'' o ho'' ho hpath, hnone] at hfa''
    cases hfa''

/-- When the collected parts agree, the trees are the same if the rest agrees too. -/
theorem sameTree_iff_missedAlike (r₁ r₂ : Node) (h₁ : r₁.WellFormed) (h₂ : r₂.WellFormed)
    (hseen : SeenAlike r₁ r₂) : SameTree r₁ r₂ ↔ MissedAlike r₁ r₂ := by
  constructor
  · intro hsame item
    exact ⟨missed_subset r₁ r₂ h₁ hseen hsame item,
      missed_subset r₂ r₁ h₂ hseen.symm hsame.symm item⟩
  · intro hmissed item
    exact ⟨items_subset r₁ r₂ h₁ h₂ hseen hmissed item,
      items_subset r₂ r₁ h₂ h₁ hseen.symm hmissed.symm item⟩

/-- A positive answer is right exactly when equal collected parts come with equal rests. -/
theorem comparison_sound (disk compareDisk : DiskContents) (root compareRoot : Node)
    (hpath : disk.diskPath ≠ compareDisk.diskPath) (hmount : disk.mountPoint = basePath)
    (hnew : disk.contents = ∅) (hnew' : compareDisk.contents = ∅)
    (h : root.WellFormed) (h' : compareRoot.WellFormed) :
    ((disk.compareDiskContents compareDisk root compareRoot).1 = true →
        SameTree root compareRoot) ↔
      (SeenAlike root compareRoot → MissedAlike root compareRoot) := by
  rw [compare_iff disk compareDisk root compareRoot hpath hmount hnew hnew' h h']
  constructor
  · intro hsound hseen
    exact (sameTree_iff_missedAlike root compareRoot h h' hseen).mp (hsound hseen)
  · intro hrest hseen
    exact (sameTree_iff_missedAlike root compareRoot h h' hseen).mpr (hrest hseen)

def dirent (dName : Path) (dType : Nat) : Dirent :=
  { dIno := 2, dOff := 0, dReclen := 24, dType := dType, dName := dName }

/-- A root directory with some entries after `.` and `..`. -/
def rootWith (entries : Entries) : Node :=
  .dir (some { stMode := sIfdir }) true
    (.cons (dirent dot dtDir) (.dots (some { stMode := sIfdir }))
      (.cons (dirent dotdot dtDir) (.dots (some { stMode := sIfdir })) entries))

def regular (name : Char) (rest : Entries) : Entries :=
  .cons (dirent (path [name]) dtReg) (.reg (some { stMode := sIfreg }) (path ['5'])) rest

def danglingLink (name : Char) (rest : Entries) : Entries :=
  .cons (dirent (path [name]) dtLnk) (.lnk (some { stMode := sIflnk }) none) rest

theorem rootWith_wellFormed (entries : Entries) (h : entries.WellFormed)
    (hdots : dot ∉ entries.names ∧ dotdot ∉ entries.names) : (rootWith entries).WellFormed := by
  refine ⟨by decide, ?_, by decide, reportsType_dir, ?_, trivial, by decide, hdots.2, by decide,
    reportsType_dir, ?_, trivial, h⟩
  · simpa [Entries.names, dirent] using ⟨by decide, hdots.1⟩
  · rintro st ⟨⟩
    decide
  · rintro st ⟨⟩
    decide

theorem regular_wellFormed (name : Char) (rest : Entries) (h : rest.WellFormed)
    (hslash : slash ∉ path [name]) (hnew : path [name] ∉ rest.names)
    (hdot : path [name] ≠ dot ∧ path [name] ≠ dotdot) : (regular name rest).WellFormed := by
  refine ⟨hslash, hnew, by simp [Node.isDots, dirent, hdot], reportsType_reg, ?_, trivial, h⟩
  rintro st ⟨⟩
  decide

theorem danglingLink_wellFormed (name : Char) (rest : Entries) (h : rest.WellFormed)
    (hslash : slash ∉ path [name]) (hnew : path [name] ∉ rest.names)
    (hdot : path [name] ≠ dot ∧ path [name] ≠ dotdot) : (danglingLink name rest).WellFormed := by
  refine ⟨hslash, hnew, by simp [Node.isDots, dirent, hdot], reportsType_lnk, ?_, trivial, h⟩
  rintro st ⟨⟩
  decide

/-- Two files that `readdir` lists in either order. -/
theorem comparison_sound_two_files :
    (recordDisk.compareDiskContents replayDisk (rootWith (regular 'f' (regular 'g' .nil)))
      (rootWith (regular 'g' (regular 'f' .nil)))).1 = true ∧
    SameTree (rootWith (regular 'f' (regular 'g' .nil)))
      (rootWith (regular 'g' (regular 'f' .nil))) := by
  have hequal : (recordDisk.compareDiskContents replayDisk
      (rootWith (regular 'f' (regular 'g' .nil)))
      (rootWith (regular 'g' (regular 'f' .nil)))).1 = true := by decide +kernel
  refine ⟨hequal, (comparison_sound recordDisk replayDisk _ _ (by decide) rfl rfl rfl ?_ ?_).mpr
    ?_ hequal⟩
  · refine rootWith_wellFormed _ ?_ (by decide)
    exact regular_wellFormed 'f' _ (regular_wellFormed 'g' .nil trivial (by decide) (by decide)
      (by decide)) (by decide) (by decide) (by decide)
  · refine rootWith_wellFormed _ ?_ (by decide)
    exact regular_wellFormed 'g' _ (regular_wellFormed 'f' .nil trivial (by decide) (by decide)
      (by decide)) (by decide) (by decide) (by decide)
  · intro _ item
    exact Iff.rfl

/-- A symbolic link without a target is not seen at all: a root that holds one compares equal
to an empty root. -/
theorem dangling_link_unseen :
    (rootWith (danglingLink 'l' .nil)).WellFormed ∧ (rootWith .nil).WellFormed ∧
    (recordDisk.compareDiskContents replayDisk (rootWith (danglingLink 'l' .nil))
      (rootWith .nil)).1 = true ∧
    ¬SameTree (rootWith (danglingLink 'l' .nil)) (rootWith .nil) := by
  refine ⟨rootWith_wellFormed _ ?_ (by decide), rootWith_wellFormed _ trivial (by decide),
    by decide +kernel, ?_⟩
  · exact danglingLink_wellFormed 'l' .nil trivial (by decide) (by decide) (by decide)
  · intro hsame
    have hin := (hsame (path ['/', 'l'], sIflnk, none)).mp (by decide)
    exact absurd hin (by decide)

end PMTester
