import PMTester.SanityChecks

/-!
# Which trees `deleteFiles` empties

Without the files that `makeFiles` adds, a directory that is empty from the
start is removed twice, by the call on it and by its caller, and the second
removal fails.
-/
namespace PMTester
namespace HostFs

/-- Given depth enough, the call returns true and leaves the directory there and empty. -/
def Empties (r : Readdir) (fs : HostFs) (p : Path) (l : Loc) : Prop :=
  ∃ bound, ∀ depth ≥ bound, ∃ fs', deleteFiles (host r) depth p fs = (some true, fs') ∧
    fs'.entry l = some .dir ∧ fs'.children l = []

/-- A directory in a tree without links that is not empty. -/
structure Filled (fs : HostFs) (l : Loc) : Prop where
  filled : ∃ name e, fs.entry (name :: l) = some e
  plain : ∀ l' target, l <:+ l' → l' ≠ l → fs.entry l' ≠ some (.link target)

/-- From the height of the tree on, more depth changes nothing. -/
theorem Filled.decides {fs : HostFs} {l : Loc} (hl : Filled fs l) (r : Readdir) {p : Path}
    (hpath : LeadsTo fs p l) : ∃ bound, ∀ depth ≥ bound, Decides r depth fs p l := by
  obtain ⟨height, hheight⟩ := fs.exists_height
  refine ⟨height + 1, fun depth hdepth => ?_⟩
  obtain ⟨depth, rfl⟩ := Nat.exists_eq_add_of_le' (show 1 ≤ depth by omega)
  apply deleteFiles_decides r depth hpath hl.filled
  constructor
  · exact hl.plain
  · intro l' e _ _ he
    exact (hheight l' e he).trans (by omega)

theorem Filled.empties {fs : HostFs} {l : Loc} (hl : Filled fs l) (r : Readdir) {p : Path}
    (hpath : LeadsTo fs p l) (h : Emptiable fs p l) : Empties r fs p l := by
  obtain ⟨bound, hbound⟩ := hl.decides r hpath
  refine ⟨bound, fun depth hdepth => ?_⟩
  obtain ⟨fs', hrun, hcleared⟩ := (hbound depth hdepth).empties h
  exact ⟨fs', hrun, hcleared.entry_self.trans hpath.dir, hcleared.children⟩

theorem Filled.emptiable {fs : HostFs} {l : Loc} (hl : Filled fs l) {r : Readdir} {p : Path}
    (hpath : LeadsTo fs p l) (h : Empties r fs p l) : Emptiable fs p l := by
  obtain ⟨bound, hbound⟩ := hl.decides r hpath
  obtain ⟨enough, henough⟩ := h
  obtain ⟨fs', hrun, -, hempty⟩ := henough (max bound enough) (Nat.le_max_right _ _)
  by_contra hnot
  exact (hbound _ (Nat.le_max_left _ _)).leaves hnot fs' hrun hempty

/-- In a tree without links, whatever the order of its streams, a directory that is not empty is
emptied exactly when nothing below it stands in the way: an empty directory, unless it has the path
of the mount root, or a file that has that path. -/
theorem deleteFiles_empties_iff (r : Readdir) (fs : HostFs) (p : Path) (l : Loc)
    (hpath : LeadsTo fs p l) (hl : Filled fs l) : Empties r fs p l ↔ Emptiable fs p l := by
  constructor
  · intro h
    exact hl.emptiable hpath h
  · intro h
    exact hl.empties r hpath h

/-- A directory with a file, and a file, below the mount root. -/
def filledTree : HostFs where
  entries := [([mnt], .dir), (mountRoot, .dir), (path ['d'] :: mountRoot, .dir),
    (path ['g'] :: path ['d'] :: mountRoot, .regular), (path ['f'] :: mountRoot, .regular)]
  cwd := []
  nodup := by decide
  closed := by
    intro x hx
    simp only [List.mem_cons, List.not_mem_nil, or_false] at hx
    rcases hx with rfl | rfl | rfl | rfl | rfl <;> exact ⟨_, _, rfl, by decide, by decide⟩

theorem filled_of_entries {fs : HostFs} {l : Loc} (hsome : ∃ name e, fs.entry (name :: l) = some e)
    (hall : ∀ x ∈ fs.entries, ∀ target, x.2 ≠ .link target) : Filled fs l := by
  refine ⟨hsome, fun l' target _ _ he => ?_⟩
  cases l' with
  | nil => cases he
  | cons name d => exact hall _ ((fs.mem_entries name d _).mpr he) target rfl

theorem filledTree_emptiable : Emptiable filledTree basePath mountRoot := by
  apply emptiable_basePath
  intro l' hbelow hne hdir
  obtain ⟨name, d, rfl⟩ : ∃ name d, l' = name :: d := by
    cases l' with
    | nil => exact absurd hbelow (by decide)
    | cons name d => exact ⟨name, d, rfl⟩
  have hmem := (filledTree.mem_entries name d .dir).mpr hdir
  simp only [filledTree, List.mem_cons, Prod.mk.injEq, List.not_mem_nil, or_false, reduceCtorEq,
    and_false, and_true] at hmem
  rcases hmem with heq | heq | heq
  · rw [heq] at hbelow
    exact absurd hbelow (by decide)
  · exact absurd heq hne
  · rw [heq]
    exact ⟨path ['g'], .regular, by decide⟩

theorem deleteFiles_empties_iff_filled : Empties inOrder filledTree basePath mountRoot := by
  have hpath : LeadsTo filledTree basePath mountRoot := leadsTo_basePath (by decide)
  have hl : Filled filledTree mountRoot := by
    apply filled_of_entries ⟨path ['f'], .regular, by decide⟩
    intro x hx target
    simp only [filledTree, List.mem_cons, List.not_mem_nil, or_false] at hx
    rcases hx with rfl | rfl | rfl | rfl | rfl <;> simp
  exact (deleteFiles_empties_iff inOrder filledTree basePath mountRoot hpath hl).mpr
    filledTree_emptiable

/-- With an empty directory and a file below the mount root the call fails. -/
theorem empty_directory_removed_twice : ¬ ∀ (r : Readdir) (fs : HostFs) (p : Path) (l : Loc),
    LeadsTo fs p l → Filled fs l → Empties r fs p l := by
  intro h
  have hpath : LeadsTo smallTree basePath mountRoot := leadsTo_basePath (by decide)
  have hl : Filled smallTree mountRoot := by
    apply filled_of_entries ⟨path ['f'], .regular, by decide⟩
    intro x hx target
    simp only [smallTree, List.mem_cons, List.not_mem_nil, or_false] at hx
    rcases hx with rfl | rfl | rfl | rfl <;> simp
  have hempties := hl.emptiable hpath (h inOrder smallTree basePath mountRoot hpath hl)
  obtain ⟨name, e, he⟩ := hempties.filled [path ['d']] (by decide) (by decide) (by decide)
  have hmem := (smallTree.mem_entries name _ e).mpr he
  simp [smallTree, mountRoot] at hmem

end HostFs
end PMTester
