import PMTester.DiskSoundness

/-!
# The comparison of two contents maps

The loop of `compare_disk_contents` looks every key of the first map up in the
second, through an operator that inserts what it does not find. Nothing is
inserted, because the key was found before. The keys of the second map alone
are never visited: a map of the same size that has all keys of the first has no
others.
-/
namespace PMTester

/-- `contents[path]`: a missing key is inserted with a new value. -/
def Contents.subscript (contents : Contents) (path : Path) : FileAttributes × Contents :=
  match contents.lookup path with
  | some fa => (fa, contents)
  | none => (FileAttributes.init 0, contents.insert path (FileAttributes.init 0))

/-- One round of the entry-wise comparison, with the map of the other disk. -/
def compareRound (state : Bool × Contents) (i : Σ _ : Path, FileAttributes) : Bool × Contents :=
  let iFa := i.2
  if state.2.lookup i.1 = none then (false, state.2)
  else
    let (jFa, compareContents) := Contents.subscript state.2 i.1
    if !iFa.compareDirAttr jFa.dirAttr || !iFa.compareStatAttr jFa.statAttr then
      (false, compareContents)
    else if iFa.isRegularFile then
      if iFa.compareMd5sum jFa.md5sum then (false, compareContents) else (state.1, compareContents)
    else (state.1, compareContents)

/-- The entries in the order of a `std::map`. -/
def Contents.inOrder (contents : Contents) : List (Σ _ : Path, FileAttributes) :=
  contents.entries.mergeSort fun i j => decide (i.1 ≤ j.1)

/-- `compare_disk_contents` on the maps as they are; the report in `diff_file` is left out. -/
def DiskContents.compareMaps (disk compareDisk : DiskContents) (root compareRoot : Node) :
    Bool × DiskContents × DiskContents :=
  if disk.diskPath = compareDisk.diskPath then (true, disk, compareDisk)
  else
    let contents := getContents disk.mountPoint basePath root disk.contents
    let compareContents :=
      getContents compareDisk.mountPoint compareDisk.mountPoint compareRoot compareDisk.contents
    let retValue := decide (contents.entries.length = compareContents.entries.length)
    let state := contents.inOrder.foldl compareRound (retValue, compareContents)
    (state.1, { disk with contents := contents }, { compareDisk with contents := state.2 })

/-- What the comparators ask of two entries under one key. -/
def EntriesAgree (fa fb : FileAttributes) : Prop :=
  fa.compareDirAttr fb.dirAttr = true ∧ fa.compareStatAttr fb.statAttr = true ∧
    (fa.statAttr.isReg = true → fa.md5sum = fb.md5sum)

/-- The same keys, and entries that agree at each of them. -/
def MapsAgree (contents compareContents : Contents) : Prop :=
  (∀ p, p ∈ contents ↔ p ∈ compareContents) ∧
    ∀ p fa fb, contents.lookup p = some fa → compareContents.lookup p = some fb →
      EntriesAgree fa fb

section Keys

variable {α : Type*} {β : α → Type*}

/-- As many keys, and all keys of the one among those of the other, are the same keys. -/
theorem same_keys_of_subset (c c' : AList β) (hsize : c.entries.length = c'.entries.length)
    (hsub : ∀ a ∈ c, a ∈ c') (a : α) : a ∈ c ↔ a ∈ c' := by
  have hsubset : c.keys ⊆ c'.keys := fun k hk => AList.mem_keys.mp (hsub k (AList.mem_keys.mpr hk))
  have hlen : c'.keys.length ≤ c.keys.length := by
    simpa [AList.keys, List.keys] using Nat.le_of_eq hsize.symm
  have hperm := (List.subperm_of_subset c.keys_nodup hsubset).perm_of_length_le hlen
  simpa [AList.mem_keys] using hperm.mem_iff (a := a)

theorem same_size_of_same_keys (c c' : AList β) (hkeys : ∀ a, a ∈ c ↔ a ∈ c') :
    c.entries.length = c'.entries.length := by
  have hperm : c.keys.Perm c'.keys := by
    rw [List.perm_ext_iff_of_nodup c.keys_nodup c'.keys_nodup]
    intro a
    simpa [AList.mem_keys] using hkeys a
  simpa [AList.keys, List.keys] using hperm.length_eq

end Keys

theorem subscript_of_found (contents : Contents) (path : Path) (fa : FileAttributes)
    (h : contents.lookup path = some fa) : contents.subscript path = (fa, contents) := by
  simp [Contents.subscript, h]

/-- A round inserts nothing, and lowers the flag exactly if the entries differ. -/
theorem compareRound_eq (retValue : Bool) (c' : Contents) (i : Σ _ : Path, FileAttributes) :
    compareRound (retValue, c') i = (retValue && sameEntry c' i.1 i.2, c') := by
  cases hfound : c'.lookup i.1 with
  | none => simp [compareRound, sameEntry, hfound]
  | some fb =>
    simp only [compareRound, sameEntry, hfound, subscript_of_found _ _ _ hfound, reduceCtorEq,
      if_false]
    cases i.2.compareDirAttr fb.dirAttr with
    | false => simp
    | true =>
      cases i.2.compareStatAttr fb.statAttr with
      | false => simp
      | true =>
        cases i.2.isRegularFile with
        | false => simp
        | true => cases i.2.compareMd5sum fb.md5sum <;> simp

/-- By induction on the rounds: the flag is lowered for good, and the map is kept. -/
theorem compareRounds_eq (l : List (Σ _ : Path, FileAttributes)) (retValue : Bool)
    (c' : Contents) :
    l.foldl compareRound (retValue, c') = (retValue && l.all fun i => sameEntry c' i.1 i.2, c') := by
  induction l generalizing retValue with
  | nil => simp
  | cons i l ih =>
    rw [List.foldl_cons, compareRound_eq, ih, List.all_cons, Bool.and_assoc]

theorem mem_inOrder (c : Contents) (i : Σ _ : Path, FileAttributes) :
    i ∈ c.inOrder ↔ i ∈ c.entries :=
  (List.mergeSort_perm _ _).mem_iff

theorem lookup_iff_inOrder (c : Contents) (p : Path) (fa : FileAttributes) :
    ⟨p, fa⟩ ∈ c.inOrder ↔ c.lookup p = some fa := by
  rw [mem_inOrder]
  exact AList.mem_lookup_iff.symm

theorem sameEntry_of_found (c' : Contents) (p : Path) (fa fb : FileAttributes)
    (h : c'.lookup p = some fb) : sameEntry c' p fa = true ↔ EntriesAgree fa fb := by
  have hregular : fa.statAttr.isReg = fa.isRegularFile := rfl
  simp only [sameEntry, h, EntriesAgree, hregular]
  cases fa.compareDirAttr fb.dirAttr with
  | false => simp
  | true =>
    cases fa.compareStatAttr fb.statAttr with
    | false => simp
    | true => cases fa.isRegularFile <;> simp

/-- Every entry of the first map has a partner that agrees with it. -/
theorem all_sameEntry_iff (c c' : Contents) :
    (∀ i ∈ c.inOrder, sameEntry c' i.1 i.2 = true) ↔
      ∀ p fa, c.lookup p = some fa → ∃ fb, c'.lookup p = some fb ∧ EntriesAgree fa fb := by
  constructor
  · intro hall p fa hfa
    have hround := hall ⟨p, fa⟩ ((lookup_iff_inOrder c p fa).mpr hfa)
    cases hfb : c'.lookup p with
    | none => simp [sameEntry, hfb] at hround
    | some fb => exact ⟨fb, rfl, (sameEntry_of_found c' p fa fb hfb).mp hround⟩
  · intro hall i hi
    obtain ⟨fb, hfb, hagree⟩ := hall i.1 i.2 ((lookup_iff_inOrder c i.1 i.2).mp hi)
    exact (sameEntry_of_found c' i.1 i.2 fb hfb).mpr hagree

/-- The size check and one visit of each entry of the first map decide agreement. -/
theorem mapsAgree_iff (c c' : Contents) :
    (c.entries.length = c'.entries.length ∧ ∀ i ∈ c.inOrder, sameEntry c' i.1 i.2 = true) ↔
      MapsAgree c c' := by
  rw [all_sameEntry_iff]
  constructor
  · rintro ⟨hsize, hall⟩
    have hsub : ∀ p ∈ c, p ∈ c' := by
      intro p hp
      obtain ⟨fa, hfa⟩ := Option.isSome_iff_exists.mp (AList.lookup_isSome.mpr hp)
      obtain ⟨fb, hfb, -⟩ := hall p fa hfa
      exact AList.lookup_isSome.mp (by simp [hfb])
    constructor
    · exact same_keys_of_subset c c' hsize hsub
    · intro p fa fb hfa hfb
      obtain ⟨fb', hfb', hagree⟩ := hall p fa hfa
      rw [hfb, Option.some_inj] at hfb'
      exact hfb' ▸ hagree
  · rintro ⟨hkeys, hagree⟩
    constructor
    · exact same_size_of_same_keys c c' hkeys
    · intro p fa hfa
      have hp : p ∈ c' := (hkeys p).mp (AList.lookup_isSome.mp (by simp [hfa]))
      obtain ⟨fb, hfb⟩ := Option.isSome_iff_exists.mp (AList.lookup_isSome.mpr hp)
      exact ⟨fb, hfb, hagree p fa fb hfa hfb⟩

/-- The comparison through the inserting operator is the one that looks entries up. -/
theorem compareMaps_eq (disk compareDisk : DiskContents) (root compareRoot : Node) :
    disk.compareMaps compareDisk root compareRoot =
      disk.compareDiskContents compareDisk root compareRoot := by
  unfold DiskContents.compareMaps DiskContents.compareDiskContents
  by_cases hpath : disk.diskPath = compareDisk.diskPath
  · rw [if_pos hpath, if_pos hpath]
  · rw [if_neg hpath, if_neg hpath]
    simp only [compareRounds_eq, Prod.mk.injEq, and_true]
    rw [Bool.eq_iff_iff, foldl_and, Bool.and_eq_true, List.all_eq_true]
    apply and_congr_right
    intro _
    constructor
    · intro hall p fa hmem
      exact hall ⟨p, fa⟩ ((mem_inOrder _ _).mpr hmem)
    · intro hall i hi
      exact hall i.1 i.2 ((mem_inOrder _ i).mp hi)

/-- What one call returns and leaves, for two disks with different paths. -/
theorem compareMaps_spec (disk compareDisk : DiskContents) (root compareRoot : Node)
    (hpath : disk.diskPath ≠ compareDisk.diskPath) (contents compareContents : Contents)
    (hc : contents = getContents disk.mountPoint basePath root disk.contents)
    (hc' : compareContents =
      getContents compareDisk.mountPoint compareDisk.mountPoint compareRoot compareDisk.contents) :
    ((disk.compareMaps compareDisk root compareRoot).1 = true ↔
      MapsAgree contents compareContents) ∧
    (disk.compareMaps compareDisk root compareRoot).2 =
      ({ disk with contents := contents }, { compareDisk with contents := compareContents }) := by
  unfold DiskContents.compareMaps
  rw [if_neg hpath, ← hc, ← hc']
  simp only [compareRounds_eq, Bool.and_eq_true, decide_eq_true_eq, List.all_eq_true, and_true]
  exact mapsAgree_iff contents compareContents

/-- The comparison finds every difference of the collected maps on either side, and changes
neither map. -/
theorem map_comparison_complete (disk compareDisk : DiskContents) (root compareRoot : Node)
    (hpath : disk.diskPath ≠ compareDisk.diskPath) :
    let contents := getContents disk.mountPoint basePath root disk.contents
    let compareContents :=
      getContents compareDisk.mountPoint compareDisk.mountPoint compareRoot compareDisk.contents
    let result := disk.compareMaps compareDisk root compareRoot
    (result.1 = true ↔
      (∀ p, p ∈ contents ↔ p ∈ compareContents) ∧
      ∀ p fa fb, contents.lookup p = some fa → compareContents.lookup p = some fb →
        fa.compareDirAttr fb.dirAttr = true ∧ fa.compareStatAttr fb.statAttr = true ∧
        (fa.statAttr.isReg = true → fa.md5sum = fb.md5sum)) ∧
    (∀ p ∈ compareContents, p ∉ contents → result.1 = false) ∧
    result.2.1 = { disk with contents := contents } ∧
    result.2.2 = { compareDisk with contents := compareContents } := by
  intro contents compareContents result
  obtain ⟨hret, hkept⟩ :=
    compareMaps_spec disk compareDisk root compareRoot hpath contents compareContents rfl rfl
  refine ⟨hret, ?_, congrArg Prod.fst hkept, congrArg Prod.snd hkept⟩
  intro p hp hnot
  rw [Bool.eq_false_iff]
  intro htrue
  exact hnot ((hret.mp htrue).1 p |>.mpr hp)

/-- A file that only the compared disk has is found. -/
theorem map_comparison_extra_file :
    (recordDisk.compareMaps replayDisk (rootWith (regular 'f' .nil))
      (rootWith (regular 'f' (regular 'g' .nil)))).1 = false := by
  have hfound := map_comparison_complete recordDisk replayDisk (rootWith (regular 'f' .nil))
    (rootWith (regular 'f' (regular 'g' .nil))) (by decide)
  exact hfound.2.1 (path ['/', 'g']) (by decide) (by decide)

end PMTester
