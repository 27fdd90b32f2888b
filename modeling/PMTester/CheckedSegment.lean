import PMTester.LogRoundTrip
import PMTester.TesterCheck

/-!
# The segment that is checked

`GetChangeData` opens a segment at every checkpoint, and one at the first mod
when that is no checkpoint. `check_disk_and_snapshot_contents` takes the segment
before the last. A log whose only checkpoint stands in front has one segment,
and the lookup throws.
-/
namespace PMTester

open Word

/-- The mods between the last checkpoint and the one before it, or the start of the log. -/
def lastSegment (log : List DiskMod) : List DiskMod :=
  let upTo := (log.reverse.dropWhile fun m => !m.isCheckpoint).drop 1
  (upTo.takeWhile fun m => !m.isCheckpoint).reverse

/-- The log has one checkpoint, and it is its first mod. -/
def OnlyLeading (log : List DiskMod) : Prop :=
  ∃ checkpoint rest, log = checkpoint :: rest ∧ checkpoint.isCheckpoint = true ∧
    ∀ m ∈ rest, m.isCheckpoint = false

/-- More segments than an `int` can count, where the index wraps to one that is equal to the
right one. -/
def Wraps (log : List DiskMod) : Prop :=
  let last := (segments log).length - 1
  2 ^ 31 ≤ last ∧ 0 < last % 2 ^ 32 ∧ last % 2 ^ 32 < 2 ^ 31 ∧
    (segments log)[last % 2 ^ 32 - 1]? = some (lastSegment log)

/-- A log with a checkpoint, cut at its last one. -/
theorem split_at_last (log : List DiskMod) (h : ∃ m ∈ log, m.isCheckpoint = true) :
    ∃ front checkpoint tail, log = front ++ checkpoint :: tail ∧ checkpoint.isCheckpoint = true ∧
      ∀ m ∈ tail, m.isCheckpoint = false := by
  induction log with
  | nil => simp at h
  | cons m log ih =>
    by_cases hrest : ∃ m' ∈ log, m'.isCheckpoint = true
    · obtain ⟨front, checkpoint, tail, rfl, hcp, htail⟩ := ih hrest
      exact ⟨m :: front, checkpoint, tail, rfl, hcp, htail⟩
    · have hquiet : ∀ m' ∈ log, m'.isCheckpoint = false := by
        intro m' hm'
        simpa using fun hc => hrest ⟨m', hm', hc⟩
      obtain ⟨m', hm', hcp⟩ := h
      cases List.mem_cons.mp hm' with
      | inl hsame => exact ⟨[], m, log, rfl, hsame ▸ hcp, hquiet⟩
      | inr hlater => exact absurd ⟨m', hlater, hcp⟩ hrest

theorem lastSegment_split {front tail : List DiskMod} {checkpoint : DiskMod}
    (hcp : checkpoint.isCheckpoint = true) (htail : ∀ m ∈ tail, m.isCheckpoint = false) :
    lastSegment (front ++ checkpoint :: tail) =
      (front.reverse.takeWhile fun m => !m.isCheckpoint).reverse := by
  have hdrop : (front ++ checkpoint :: tail).reverse.dropWhile (fun m => !m.isCheckpoint) =
      checkpoint :: front.reverse := by
    rw [List.reverse_append, List.reverse_cons, List.append_assoc,
      List.dropWhile_append_of_pos (by simpa using htail)]
    simp [hcp]
  simp only [lastSegment, hdrop, List.drop_one, List.tail_cons]

theorem onlyLeading_split {front tail : List DiskMod} {checkpoint : DiskMod}
    (hcp : checkpoint.isCheckpoint = true) (htail : ∀ m ∈ tail, m.isCheckpoint = false) :
    OnlyLeading (front ++ checkpoint :: tail) ↔ front = [] := by
  constructor
  · rintro ⟨first, rest, hlog, -, hrest⟩
    cases front with
    | nil => rfl
    | cons m front =>
      have htails : front ++ checkpoint :: tail = rest := (List.cons.inj hlog).2
      have hquiet := hrest checkpoint (by simp [← htails])
      simp [hcp] at hquiet
  · rintro rfl
    exact ⟨checkpoint, tail, rfl, hcp, htail⟩

namespace Tester

/-- What follows the last checkpoint is a segment of its own. -/
theorem foldl_addMod_split {front tail : List DiskMod} {checkpoint : DiskMod}
    (hcp : checkpoint.isCheckpoint = true) (htail : ∀ m ∈ tail, m.isCheckpoint = false) :
    (front ++ checkpoint :: tail).foldl addMod [] = front.foldl addMod [] ++ [tail] := by
  rw [List.foldl_append, List.foldl_cons, addMod_checkpoint _ _ hcp, foldl_addMod,
    List.splitOnP_eq_singleton htail]
  simp

/-- The segment that is open after some mods holds those since the last checkpoint. -/
theorem getLast?_foldl_addMod (front : List DiskMod) (h : front ≠ []) :
    (front.foldl addMod []).getLast? =
      some (front.reverse.takeWhile fun m => !m.isCheckpoint).reverse := by
  induction front using List.reverseRecOn with
  | nil => exact absurd rfl h
  | append_singleton front m ih =>
    rw [List.foldl_append, List.foldl_cons, List.foldl_nil, List.reverse_append]
    cases hm : m.isCheckpoint with
    | true => simp [addMod_checkpoint _ m hm, hm]
    | false =>
      cases front with
      | nil => simp [addMod_first m hm, hm]
      | cons m' front =>
        have hlast := ih (by simp)
        obtain ⟨mods, hmods⟩ := List.getLast?_eq_some_iff.mp hlast
        rw [hmods, addMod_other _ _ m hm, List.getLast?_concat]
        simp [hm]

/-- Which segment is looked up, when there is one more than `mods` has. -/
theorem checkedSegment_concat (mods : List (List DiskMod)) (last : List DiskMod) :
    checkedSegment (mods ++ [last]) =
      if 0 < mods.length % 2 ^ 32 ∧ mods.length % 2 ^ 32 < 2 ^ 31 then
        (mods ++ [last])[mods.length % 2 ^ 32 - 1]?
      else none := by
  have hlen : (((mods ++ [last]).length : Int) - 1) = mods.length := by simp
  simp only [checkedSegment, hlen]
  by_cases hindex : 0 < mods.length % 2 ^ 32 ∧ mods.length % 2 ^ 32 < 2 ^ 31
  · have hvalue : toInt mods.length = (mods.length % 2 ^ 32 : Nat) := by
      unfold toInt
      omega
    have hposition : (((mods.length % 2 ^ 32 : Nat) : Int) - 1).toNat =
        mods.length % 2 ^ 32 - 1 := by
      omega
    rw [if_pos hindex, hvalue, if_neg (by omega), hposition]
  · have hvalue : toInt mods.length - 1 < 0 := by
      unfold toInt
      omega
    rw [if_neg hindex, if_pos hvalue]

end Tester

/-- Over the mods of a log, in any number. -/
theorem checkedSegment_segments_iff (log : List DiskMod) (h : ∃ m ∈ log, m.isCheckpoint = true) :
    Tester.checkedSegment (segments log) = some (lastSegment log) ↔
      (¬ OnlyLeading log ∧ (segments log).length ≤ 2 ^ 31) ∨ Wraps log := by
  obtain ⟨front, checkpoint, tail, rfl, hcp, htail⟩ := split_at_last log h
  rw [onlyLeading_split hcp htail]
  unfold Wraps
  rw [← Tester.foldl_addMod_nil, Tester.foldl_addMod_split hcp htail, Tester.checkedSegment_concat,
    lastSegment_split hcp htail, List.length_append, List.length_singleton, Nat.add_sub_cancel]
  by_cases hfront : front = []
  · subst hfront
    simp
  have hlast := Tester.getLast?_foldl_addMod front hfront
  generalize front.foldl Tester.addMod [] = mods at hlast ⊢
  have hpositive : 0 < mods.length := by
    cases mods with
    | nil => simp at hlast
    | cons _ _ => simp
  by_cases hint : mods.length < 2 ^ 31
  · have hmod : mods.length % 2 ^ 32 = mods.length := Nat.mod_eq_of_lt (by omega)
    have hhere : (mods ++ [tail])[mods.length - 1]? =
        some (front.reverse.takeWhile fun m => !m.isCheckpoint).reverse := by
      rw [List.getElem?_append_left (by omega), ← List.getLast?_eq_getElem?, hlast]
    rw [hmod, if_pos ⟨hpositive, hint⟩, hhere]
    exact iff_of_true rfl (Or.inl ⟨hfront, by omega⟩)
  · have hmany : ¬ mods.length + 1 ≤ 2 ^ 31 := by omega
    by_cases hindex : 0 < mods.length % 2 ^ 32 ∧ mods.length % 2 ^ 32 < 2 ^ 31
    · rw [if_pos hindex]
      constructor
      · intro hsame
        exact Or.inr ⟨by omega, hindex.1, hindex.2, hsame⟩
      · rintro (hsmall | hwraps)
        · exact absurd hsmall.2 hmany
        · exact hwraps.2.2.2
    · rw [if_neg hindex]
      refine iff_of_false (by simp) ?_
      rintro (hsmall | hwraps)
      · exact hmany hsmall.2
      · exact hindex ⟨hwraps.2.1, hwraps.2.2.1⟩

/-- After a log has been read, the segment inspected is there and ends at the last checkpoint
exactly when that checkpoint is not both the first mod and the only one, as far as an `int` can
count the segments. -/
theorem checked_segment_iff (env : Tester.ReadEnv) (hsize : ∀ n, 8 ≤ env.sizeAnswers n)
    (hbody : ∀ n, 1 ≤ env.bodyAnswers n) (rounds : Nat) (log : List (List UInt8 × DiskMod))
    (hlog : ∀ e ∈ log, Tester.Framed e.1 e.2) (hrounds : (log.flatMap (·.1)).length < rounds)
    (hcheckpoint : ∃ e ∈ log, e.2.isCheckpoint = true) :
    ∃ mods, Tester.getChangeData env rounds [] ⟨log.flatMap (·.1), 0⟩ =
        some (.ret Tester.success, mods) ∧
      (Tester.checkedSegment mods = some (lastSegment (log.map (·.2))) ↔
        (¬ OnlyLeading (log.map (·.2)) ∧ (segments (log.map (·.2))).length ≤ 2 ^ 31) ∨
          Wraps (log.map (·.2))) := by
  obtain ⟨e, he, hcp⟩ := hcheckpoint
  refine ⟨segments (log.map (·.2)), ?_, ?_⟩
  · rw [Tester.getChangeData_eq env hsize hbody rounds log hlog hrounds, Tester.foldl_addMod_nil]
  · exact checkedSegment_segments_iff _ ⟨e.2, List.mem_map_of_mem he, hcp⟩

def checkpointMod : DiskMod := { modType := .kCheckpointMod }

theorem framed_checkpoint : Tester.Framed checkpointMod.format checkpointMod :=
  ⟨by decide +kernel, by decide +kernel, by decide +kernel, rfl⟩

theorem framed_fsync : Tester.Framed (Tester.fsyncOf 'a').format (Tester.fsyncOf 'a') :=
  ⟨by decide +kernel, by decide +kernel, by decide +kernel, rfl⟩

/-- Frames of checkpoints and of a synced file between and behind them. -/
def frames (mods : List DiskMod) : List (List UInt8 × DiskMod) := mods.map fun m => (m.format, m)

theorem framed_frames (mods : List DiskMod)
    (h : ∀ m ∈ mods, m = checkpointMod ∨ m = Tester.fsyncOf 'a') :
    ∀ e ∈ frames mods, Tester.Framed e.1 e.2 := by
  intro e he
  obtain ⟨m, hm, rfl⟩ := List.mem_map.mp he
  cases h m hm with
  | inl hcp => exact hcp ▸ framed_checkpoint
  | inr hfsync => exact hfsync ▸ framed_fsync

/-- Complete reads. -/
def wholeReads : Tester.ReadEnv := ⟨fun _ => 8, fun _ => 100, fun _ => 0⟩

/-- A log with checkpoints in front, side by side and at the end. -/
def checkpointLog : List DiskMod :=
  [checkpointMod, Tester.fsyncOf 'a', checkpointMod, checkpointMod]

theorem checkpointLog_not_onlyLeading : ¬ OnlyLeading ((frames checkpointLog).map (·.2)) := by
  rintro ⟨checkpoint, rest, hlog, -, hrest⟩
  cases hlog
  exact absurd (hrest checkpointMod (by decide)) (by decide)

theorem checked_segment_checkpointLog :
    ∃ mods, Tester.getChangeData wholeReads 500 [] ⟨(frames checkpointLog).flatMap (·.1), 0⟩ =
        some (.ret Tester.success, mods) ∧
      Tester.checkedSegment mods = some (lastSegment ((frames checkpointLog).map (·.2))) :=
  (checked_segment_iff wholeReads (fun _ => Int.le_refl 8)
    (fun _ => show (1 : Int) ≤ 100 by decide) 500 (frames checkpointLog)
    (framed_frames _ (by decide)) (by decide +kernel)
    ⟨(checkpointMod.format, checkpointMod), by decide, by decide⟩).imp
    fun _ hread => ⟨hread.1, hread.2.mpr (Or.inl ⟨checkpointLog_not_onlyLeading, by decide⟩)⟩

/-- A file is synced after the only checkpoint, which is the first mod; the lookup throws. -/
theorem leading_checkpoint_throws :
    Tester.getChangeData wholeReads 500 []
        ⟨(frames [checkpointMod, Tester.fsyncOf 'a']).flatMap (·.1), 0⟩ =
      some (.ret Tester.success, [[Tester.fsyncOf 'a']]) ∧
    lastSegment [checkpointMod, Tester.fsyncOf 'a'] = [] ∧
    Tester.checkedSegment [[Tester.fsyncOf 'a']] = none := by
  refine ⟨?_, by decide +kernel, by decide +kernel⟩
  rw [Tester.getChangeData_eq wholeReads (fun _ => Int.le_refl 8)
    (fun _ => show (1 : Int) ≤ 100 by decide) 500 _ (framed_frames _ (by decide))
    (by decide +kernel), Tester.foldl_addMod_nil]
  rfl

end PMTester
