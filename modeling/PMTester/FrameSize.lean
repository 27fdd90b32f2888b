import PMTester.Posix

/-!
# Size agreement of the codec

`GetSerializeSize`, `Serialize` and `Deserialize` agree on every mod a recorder
can append except `kRemoveMod`: the size ends before location and length, which
the encoder stores and the decoder reads nevertheless.
-/
namespace PMTester

open Bytes Memory Word

namespace DiskMod

/-- The three functions agree: the stores fill the allocated buffer exactly, and
the decoder stays inside it. -/
structure SizeAgrees (dm : DiskMod) : Prop where
  count : storedCount dm.serialize.stores = dm.getSerializeSize
  inside : ∀ s ∈ dm.serialize.stores, s.stop ≤ dm.getSerializeSize
  covered : ∀ i < dm.getSerializeSize, ∃ s ∈ dm.serialize.stores, s.offset ≤ i ∧ i < s.stop
  decoded : ∀ fresh, deserialize (dm.serialize.frame fresh) ≠ .error .outOfBounds

/-- Every mod of a recorded shape is one the encoder can lay down. -/
theorem encodable_of_recorded (dm : DiskMod) (h : Recorded dm)
    (hpath : dm.path.length < 2 ^ 31 - 2) : Encodable dm := by
  cases h with
  | marker t ht => exact ⟨Or.inl ht, Or.inr rfl, hpath⟩
  | created p stats dir location => exact ⟨Or.inr (Or.inl (Or.inr rfl)), Or.inr rfl, hpath⟩
  | named t ht p => exact ⟨Or.inr (Or.inr rfl), Or.inr rfl, hpath⟩
  | ranged t o hto p stats location len =>
    refine ⟨Or.inr (Or.inr rfl), Or.inl ?_, hpath⟩
    rcases hto with ⟨ht, -⟩ | ⟨-, ho⟩
    · exact Or.inl ht
    · exact Or.inr ho
  | data t ht o ho p stats location len bytes hlen hbound =>
    exact ⟨Or.inr (Or.inr rfl), Or.inr hlen, hpath⟩

theorem recorded_data_bound (dm : DiskMod) (h : Recorded dm) :
    dm.fileModData.length < 2 ^ 63 := by
  cases h with
  | data t ht o ho p stats location len bytes hlen hbound => exact hbound
  | marker | created | named | ranged => exact Nat.two_pow_pos 63

/-- The frame of a mod whose size is right is its format, whatever the buffer held. -/
theorem frame_format (dm : DiskMod) (h : Encodable dm)
    (hsize : dm.getSerializeSize = dm.format.length) (fresh : Mem) :
    dm.serialize.frame fresh = dm.format := by
  rw [frame_eq dm h fresh (by omega), hsize, List.take_length]

theorem sizeAgrees_of_size (dm : DiskMod) (h : Encodable dm) (hnul : (0 : UInt8) ∉ dm.path)
    (hsize : dm.getSerializeSize = dm.format.length) : SizeAgrees dm := by
  obtain ⟨htiles, hblocks⟩ := serialize_tiles dm h
  constructor
  · rw [← length_blocks, hblocks, hsize]
  · rw [hsize]
    exact fun s hs => (tiles_within _ _ _ htiles s hs).2
  · rw [hsize]
    exact fun i hi => tiles_cover _ _ _ htiles i (by omega) hi
  · intro fresh
    rw [frame_format dm h hsize fresh, format, deserialize_format _ dm h hnul]
    simp

/-- A removal is sixteen bytes longer than its size. -/
theorem removal_overrun (dm : DiskMod) (h : Recorded dm) (hpath : dm.path.length < 2 ^ 31 - 2)
    (hr : dm.modType = .kRemoveMod) :
    storedCount dm.serialize.stores = dm.getSerializeSize + 16 := by
  obtain ⟨-, hblocks⟩ := serialize_tiles dm (encodable_of_recorded dm h hpath)
  have hh : ¬ dm.headerOnly := by simp [headerOnly, hr]
  have hn : ¬ dm.nameOnly := by simp [nameOnly, hr]
  have hempty : dm.fileModData = [] := by
    cases h with
    | data t ht => rcases ht with ht | ht <;> simp [ht] at hr
    | marker | created | named | ranged => rfl
  rw [← length_blocks, hblocks, getSerializeSize_remove dm hpath hr]
  simp only [format, formatBody, hh, hn, ↓reduceIte, List.length_append, length_be,
    length_formatHeader, length_formatChange, formatRange, hempty, ite_self, List.length_nil]
  omega

theorem recorded_sizeAgrees_iff (dm : DiskMod) (h : Recorded dm)
    (hnul : (0 : UInt8) ∉ dm.path) (hpath : dm.path.length < 2 ^ 31 - 2) :
    SizeAgrees dm ↔ dm.modType ≠ .kRemoveMod := by
  have hen := encodable_of_recorded dm h hpath
  constructor
  · intro hagree hr
    have hover := removal_overrun dm h hpath hr
    have hcount := hagree.count
    omega
  · intro hr
    exact sizeAgrees_of_size dm hen hnul
      (getSerializeSize_eq dm hen (recorded_data_bound dm h) hr)

end DiskMod

open RecordCmFsOps

/-- For every mod some run can append, with a path a system call accepts, the
codec's three functions agree exactly when the mod is not a removal. -/
theorem frame_sizes_agree {σ : Type} (h : Host σ) (hdir : RefusesDirTrunc h.toFsFns) (fs : σ)
    (ops : List CmOp) (m : DiskMod) (hm : m ∈ (run h ops (World.start fs)).mods)
    (hnul : (0 : UInt8) ∉ m.path) (hpath : m.path.length < 2 ^ 31 - 2) :
    m.SizeAgrees ↔ m.modType ≠ .kRemoveMod :=
  DiskMod.recorded_sizeAgrees_iff m
    (run_recorded hdir ops (World.start fs) (by simp [World.start]) m hm) hnul hpath

/-- Create a file and remove it again. -/
def unlinkRun : List CmOp :=
  [.open2 (path ['/', 'f']) (oCreat ||| oRdwr) 0o644#32, .unlink (path ['/', 'f'])]

theorem frame_sizes_agree_create :
    ({ path := path ['/', 'f'], postModStats := { stMode := sIfreg, stIno := 1 } } :
      DiskMod).SizeAgrees :=
  (frame_sizes_agree (posix splitPath) (posix_refusesDirTrunc splitPath) (PosixFs.empty 3)
    unlinkRun _ (by decide +kernel) (by decide) (by decide)).mpr (by decide)

/-- The removal of `unlinkRun` is recorded with a size its frame does not keep to. -/
theorem unlink_frame_overruns :
    RefusesDirTrunc (posix splitPath).toFsFns ∧
      ∃ m ∈ (run (posix splitPath) unlinkRun (World.start (PosixFs.empty 3))).mods,
        (0 : UInt8) ∉ m.path ∧ m.path.length < 2 ^ 31 - 2 ∧ ¬ m.SizeAgrees := by
  refine ⟨posix_refusesDirTrunc splitPath,
    { path := path ['/', 'f'], modType := .kRemoveMod }, by decide +kernel, by decide, by decide, ?_⟩
  intro h
  exact absurd h.count (by decide +kernel)

end PMTester
