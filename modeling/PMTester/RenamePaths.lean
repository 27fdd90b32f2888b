import PMTester.Posix

/-!
# What a rename does to the descriptor paths

`CmRename` searches every descriptor path for the old name as a substring and
replaces its first occurrence. That is the move of the renamed entry and of what
is below it, unless some other path merely contains the old name.
-/
namespace PMTester

open RecordCmFsOps

/-- `find` returns the first occurrence. -/
theorem find_eq_some {needle s : Path} {found : Nat} (h : find needle s = some found) :
    needle <+: s.drop found ∧ ∀ i < found, ¬ needle <+: s.drop i := by
  induction s generalizing found with
  | nil =>
    by_cases hn : needle = []
    · have hzero : 0 = found := by simpa [find, hn] using h
      subst hzero
      exact ⟨by simp [hn], fun i hi => absurd hi (Nat.not_lt_zero i)⟩
    · simp [find, hn] at h
  | cons c rest ih =>
    by_cases hprefix : needle.isPrefixOf (c :: rest) = true
    · have hzero : 0 = found := by simpa [find, hprefix] using h
      subst hzero
      exact ⟨by simpa using hprefix, fun i hi => absurd hi (Nat.not_lt_zero i)⟩
    · obtain ⟨j, hj, rfl⟩ : ∃ j, find needle rest = some j ∧ j + 1 = found := by
        simpa [find, hprefix] using h
      obtain ⟨hat, hbefore⟩ := ih hj
      refine ⟨hat, fun i hi => ?_⟩
      cases i with
      | zero => simpa using hprefix
      | succ i => exact hbefore i (by omega)

/-- `find` returns `npos` when there is no occurrence. -/
theorem find_eq_none {needle s : Path} (h : find needle s = none) : ¬ needle <:+: s := by
  induction s with
  | nil =>
    have hn : needle ≠ [] := by
      intro hn
      simp [find, hn] at h
    simpa using hn
  | cons c rest ih =>
    by_cases hprefix : needle.isPrefixOf (c :: rest) = true
    · simp [find, hprefix] at h
    · have hrest : find needle rest = none := by simpa [find, hprefix] using h
      rw [List.infix_cons_iff]
      rintro (hhere | hlater)
      · exact hprefix (by simpa using hhere)
      · exact ih hrest hlater

/-- A path is cut by `find` into what stands before the occurrence, the occurrence and the rest. -/
theorem find_split {needle s : Path} {found : Nat} (h : find needle s = some found) :
    s = s.take found ++ needle ++ s.drop (found + needle.length) := by
  obtain ⟨⟨rest, hrest⟩, -⟩ := find_eq_some h
  have hdrop : s.drop (found + needle.length) = rest := by
    rw [← List.drop_drop, ← hrest, List.drop_left]
  rw [hdrop, List.append_assoc, hrest, List.take_append_drop]

/-- The renamed entry itself and the paths below it. -/
def Affected (oldPath entry : Path) : Prop := entry = oldPath ∨ oldPath ++ path ['/'] <+: entry

instance (oldPath entry : Path) : Decidable (Affected oldPath entry) :=
  inferInstanceAs (Decidable (_ ∨ _))

/-- Where an entry is after the rename. -/
def moved (oldPath newPath entry : Path) : Path :=
  if Affected oldPath entry then newPath ++ entry.drop oldPath.length else entry

theorem renamed_affected {oldPath entry : Path} (newPath : Path) (h : Affected oldPath entry) :
    renamed oldPath newPath entry = newPath ++ entry.drop oldPath.length := by
  by_cases hsame : entry = oldPath
  · simp [renamed, hsame]
  · obtain ⟨rest, rfl⟩ := h.resolve_left hsame
    have hprefix : oldPath <+: oldPath ++ path ['/'] ++ rest := by simp
    have hfind : find oldPath (oldPath ++ path ['/'] ++ rest) = some 0 := by
      cases hf : find oldPath (oldPath ++ path ['/'] ++ rest) with
      | none => exact absurd hprefix.isInfix (find_eq_none hf)
      | some found =>
        cases found with
        | zero => rfl
        | succ found => exact absurd hprefix ((find_eq_some hf).2 0 (by omega))
    simp only [renamed, if_neg hsame, hfind, List.take_zero, List.nil_append, Nat.zero_add]

theorem renamed_absent {oldPath entry : Path} (newPath : Path) (h : ¬ oldPath <:+: entry) :
    renamed oldPath newPath entry = entry := by
  have hsame : entry ≠ oldPath := by
    rintro rfl
    exact h List.infix_rfl
  cases hf : find oldPath entry with
  | none => simp [renamed, hsame, hf]
  | some found =>
    exact absurd ⟨entry.take found, entry.drop (found + oldPath.length), (find_split hf).symm⟩ h

/-- An entry that contains the old name elsewhere keeps its path only when the names are equal. -/
theorem renamed_contains {oldPath newPath entry : Path} (haffected : ¬ Affected oldPath entry)
    (h : oldPath <:+: entry) : renamed oldPath newPath entry = entry ↔ oldPath = newPath := by
  have hsame : entry ≠ oldPath := fun he => haffected (Or.inl he)
  cases hf : find oldPath entry with
  | none => exact absurd h (find_eq_none hf)
  | some found =>
    have hsplit := find_split hf
    have hrenamed : renamed oldPath newPath entry =
        entry.take found ++ newPath ++ entry.drop (found + oldPath.length) := by
      simp [renamed, hsame, hf]
    constructor
    · intro hkept
      have hboth : entry.take found ++ newPath ++ entry.drop (found + oldPath.length) =
          entry.take found ++ oldPath ++ entry.drop (found + oldPath.length) := by
        rw [← hrenamed, hkept, ← hsplit]
      exact (List.append_cancel_left (List.append_cancel_right hboth)).symm
    · rintro rfl
      rw [hrenamed, ← hsplit]

/-- The loop body of `CmRename` moves an entry rightly unless the entry contains the old name
without being affected. -/
theorem renamed_eq_moved_iff (oldPath newPath entry : Path) :
    renamed oldPath newPath entry = moved oldPath newPath entry ↔
      oldPath = newPath ∨ Affected oldPath entry ∨ ¬ oldPath <:+: entry := by
  by_cases haffected : Affected oldPath entry
  · simp [moved, haffected, renamed_affected newPath haffected]
  · by_cases hinfix : oldPath <:+: entry
    · simp [moved, haffected, hinfix, renamed_contains haffected hinfix]
    · simp [moved, haffected, hinfix, renamed_absent newPath hinfix]

/-- `CmRename` moves exactly the affected descriptor paths just when the two names are equal or
no descriptor path merely contains the old name. -/
theorem rename_moves_iff {σ : Type} (h : Host σ) (w : World σ) (oldPath newPath : Path) :
    (∀ fd, (cmRename h oldPath newPath w).2.fdMap fd =
        (w.fdMap fd).map (moved oldPath newPath)) ↔
      oldPath = newPath ∨
        ∀ fd entry, w.fdMap fd = some entry → Affected oldPath entry ∨ ¬ oldPath <:+: entry := by
  have hentry : ∀ fd, (cmRename h oldPath newPath w).2.fdMap fd =
      (w.fdMap fd).map (renamed oldPath newPath) := fun fd => rfl
  simp only [hentry]
  constructor
  · intro hmoves
    by_cases hsame : oldPath = newPath
    · exact Or.inl hsame
    · right
      intro fd entry hfd
      have hmove := hmoves fd
      rw [hfd] at hmove
      have hmoved := (renamed_eq_moved_iff oldPath newPath entry).mp (Option.some.inj hmove)
      exact hmoved.resolve_left hsame
  · intro hcond fd
    cases hfd : w.fdMap fd with
    | none => rfl
    | some entry =>
      have hok : oldPath = newPath ∨ Affected oldPath entry ∨ ¬ oldPath <:+: entry :=
        hcond.imp_right fun hall => hall fd entry hfd
      simp [(renamed_eq_moved_iff oldPath newPath entry).mpr hok]

/-- Two open files, the name of one a prefix of the name of the other. -/
def siblingRun : List CmOp :=
  [.open2 (path ['/', 'f']) (oCreat ||| oRdwr) 0o644#32,
    .open2 (path ['/', 'f', 'o', 'o']) (oCreat ||| oRdwr) 0o644#32]

/-- After renaming `/f` to `/g` the descriptor of `/foo` is recorded under `/goo`. -/
theorem rename_moves_sibling :
    (cmRename (posix splitPath) (path ['/', 'f']) (path ['/', 'g'])
        (run (posix splitPath) siblingRun (World.start (PosixFs.empty 3)))).1 = .ret 0 ∧
      ¬ ∀ fd, (cmRename (posix splitPath) (path ['/', 'f']) (path ['/', 'g'])
          (run (posix splitPath) siblingRun (World.start (PosixFs.empty 3)))).2.fdMap fd =
        ((run (posix splitPath) siblingRun (World.start (PosixFs.empty 3))).fdMap fd).map
          (moved (path ['/', 'f']) (path ['/', 'g'])) := by
  refine ⟨by decide +kernel, fun h => ?_⟩
  exact absurd (h 4) (by decide +kernel)

end PMTester
