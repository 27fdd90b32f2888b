import Mathlib.Data.List.TakeWhile
import PMTester.DiskContents
import PMTester.Lib.IStream
import PMTester.Lib.Memory
import PMTester.Lib.Word

/-!
# The comparison of a range of two files

`compare_file_contents` takes the range as two `int`, reads it from both files
into buffers that are not cleared, and compares the buffers with `strcmp`. So a
range is compared up to the first NUL only, a read that falls short leaves what
the allocator left in its buffer, and a range beyond 2 ^ 31 is another one.
-/
namespace PMTester

open Memory Word

/-- How the call ends; it may also end in an exception of `operator new[]`, or with a store in
front of a buffer. -/
inductive CompareResult where
  | ret (value : Bool)
  | badAlloc
  | fault
  deriving DecidableEq, Repr

/-- What is found at a path: nothing that `stat` sees, nothing that can be opened, or the bytes. -/
abbrev FilesAt := Path → Option (Option (List UInt8))

/-- One of the two buffers after the read, with the terminating NUL. -/
def filledBuffer (fresh : Mem) (data : List UInt8) (offset : Int) (length : Nat) : List UInt8 :=
  ((IStream.seekg data offset).readInto (image fresh length)).1 ++ [0]

/-- The comparison of two open files, with what the new buffers hold. The size of `new char[length + 1]`
wraps, and a negative one is refused. For -1 nothing is read, and `buffer[length]` is in front of
the buffer. -/
def compareBuffers (fresh₁ fresh₂ : Mem) (data₁ data₂ : List UInt8) (offset length : Int) :
    CompareResult :=
  if toInt (length + 1) < 0 then .badAlloc
  else if length < 0 then .fault
  else
    .ret (decide (cStr (filledBuffer fresh₁ data₁ offset length.toNat) =
      cStr (filledBuffer fresh₂ data₂ offset length.toNat)))

/-- The report in `diff_file` is left out. -/
def DiskContents.compareFileContents (disk compareDisk : DiskContents) (files : FilesAt)
    (fresh₁ fresh₂ : Mem) (p : Path) (offset length : Int) : CompareResult :=
  if disk.diskPath = compareDisk.diskPath then .ret true
  else
    match files (basePath ++ p), files (compareDisk.mountPoint ++ p) with
    | some (some data₁), some (some data₂) => compareBuffers fresh₁ fresh₂ data₁ data₂ offset length
    | _, _ => .ret false

/-- The bytes of a range, cut at the end of the file. -/
def rangeOf (data : List UInt8) (location len : UInt64) : List UInt8 :=
  (data.drop location.toNat).take len.toNat

/-- The bytes that the read delivers. -/
def delivered (data : List UInt8) (offset : Int) (n : Nat) : List UInt8 :=
  if offset < 0 then [] else (data.drop offset.toNat).take n

/-- The C string in the buffer does not depend on what the buffer held before. -/
def Closed (n : Nat) (r : List UInt8) : Prop := r.length = n ∨ 0 ∈ r

/-- A read falls short without a NUL, and has delivered only the beginning of the other string. -/
def Undecided (n : Nat) (r₁ r₂ : List UInt8) : Prop :=
  ¬ Closed n r₁ ∧ r₁ <+: cStr r₂ ∨ ¬ Closed n r₂ ∧ r₂ <+: cStr r₁

/-- The bytes are equal, or they differ at the first NUL or before it. -/
def Visible (r₁ r₂ : List UInt8) : Prop :=
  r₁ = r₂ ∨ ∃ k, r₁.take k = r₂.take k ∧ 0 ∉ r₁.take k ∧ r₁[k]? ≠ r₂[k]?

/-- The ranges in which the comparison of two disks can be trusted, for two files of these bytes:
nothing is narrowed, the reads decide, and what differs is not hidden behind a NUL. -/
def Comparable (data₁ data₂ : List UInt8) (location len : UInt64) : Prop :=
  location.toNat < 2 ^ 31 ∧ len.toNat < 2 ^ 31 - 1 ∧
    ¬ Undecided len.toNat (rangeOf data₁ location len) (rangeOf data₂ location len) ∧
    Visible (rangeOf data₁ location len) (rangeOf data₂ location len)

instance (n : Nat) (r : List UInt8) : Decidable (Closed n r) :=
  inferInstanceAs (Decidable (_ ∨ _))

instance (n : Nat) (r₁ r₂ : List UInt8) : Decidable (Undecided n r₁ r₂) :=
  inferInstanceAs (Decidable (_ ∨ _))

theorem length_delivered_le (data : List UInt8) (offset : Int) (n : Nat) :
    (delivered data offset n).length ≤ n := by
  unfold delivered
  split
  · exact Nat.zero_le n
  · rw [List.length_take]
    omega

/-- The buffer holds the delivered bytes, and behind them its old ones. -/
theorem filledBuffer_eq (fresh : Mem) (data : List UInt8) (offset : Int) (n : Nat) :
    filledBuffer fresh data offset n = delivered data offset n ++
      ((image fresh n).drop (delivered data offset n).length ++ [0]) := by
  have hlen : (image fresh n).length = n := by simp [image]
  unfold filledBuffer delivered
  by_cases hoffset : offset < 0
  · simp [IStream.seekg, IStream.readInto, IStream.read, hoffset]
  · simp only [IStream.seekg, IStream.readInto, IStream.read, hoffset, hlen, if_false, Bool.not_true,
      Bool.false_eq_true]
    split
    · simp
    · rename_i hshort
      rw [List.take_of_length_le (by omega)]
      simp

/-- The string in a buffer is that of the delivered bytes, and goes on only if they are open. -/
theorem cStr_filledBuffer (fresh : Mem) (data : List UInt8) (offset : Int) (n : Nat) :
    ∃ tail, cStr (filledBuffer fresh data offset n) = cStr (delivered data offset n) ++ tail ∧
      (Closed n (delivered data offset n) → tail = []) := by
  rw [filledBuffer_eq]
  by_cases hnul : 0 ∈ delivered data offset n
  · exact ⟨[], by rw [cStr_append_of_mem hnul, List.append_nil], fun _ => rfl⟩
  · refine ⟨_, by rw [cStr_append_of_notMem hnul, cStr_eq_self hnul], fun hclosed => ?_⟩
    have hfull : (delivered data offset n).length = n := hclosed.resolve_right hnul
    have hlen : (image fresh n).length = n := by simp [image]
    rw [hfull, List.drop_of_length_le (by omega)]
    rfl

theorem cStr_zeros (k : Nat) : cStr (List.replicate k 0 ++ [0]) = [] := by
  cases k with
  | zero => rfl
  | succ k => simp [cStr, List.replicate_succ]

theorem image_getD (l : List UInt8) (n : Nat) (h : l.length ≤ n) :
    image (fun i => l.getD i 0) n = l ++ List.replicate (n - l.length) 0 := by
  apply List.ext_getElem
  · simp [image]
    omega
  · intro i hi hi'
    by_cases hl : i < l.length
    · simp [image, hl]
    · rw [List.getElem_append_right (by omega)]
      simp [image, List.getElem?_eq_none (Nat.le_of_not_lt hl)]

/-- Behind an open read the new buffer may hold any string that fits. -/
theorem filledBuffer_choose (data : List UInt8) (offset : Int) (n : Nat) (t : List UInt8)
    (hopen : 0 ∉ delivered data offset n) (ht : 0 ∉ t)
    (hfits : (delivered data offset n).length + t.length ≤ n) :
    ∃ fresh, cStr (filledBuffer fresh data offset n) = delivered data offset n ++ t := by
  refine ⟨fun i => (delivered data offset n ++ t).getD i 0, ?_⟩
  rw [filledBuffer_eq, image_getD _ _ (by rw [List.length_append]; exact hfits), List.append_assoc,
    List.drop_left, cStr_append_of_notMem hopen, List.append_assoc, cStr_append_of_notMem ht,
    cStr_zeros, List.append_nil]

/-- Some content of the new buffer ends the string where the read ended. -/
theorem filledBuffer_plain (data : List UInt8) (offset : Int) (n : Nat) :
    ∃ fresh, cStr (filledBuffer fresh data offset n) = cStr (delivered data offset n) := by
  by_cases hnul : 0 ∈ delivered data offset n
  · obtain ⟨tail, htail, hclosed⟩ := cStr_filledBuffer (fun _ => 0) data offset n
    exact ⟨fun _ => 0, by rw [htail, hclosed (Or.inr hnul), List.append_nil]⟩
  · obtain ⟨fresh, hfresh⟩ := filledBuffer_choose data offset n [] hnul List.not_mem_nil
      (by simpa using length_delivered_le data offset n)
    exact ⟨fresh, by rw [hfresh, List.append_nil, cStr_eq_self hnul]⟩

theorem length_cStr_le (p : Path) : (cStr p).length ≤ p.length := by
  exact (List.takeWhile_prefix _).length_le

theorem zero_notMem_cStr (p : Path) : (0 : UInt8) ∉ cStr p := by
  intro hmem
  have hne := List.mem_takeWhile_imp hmem
  simp at hne

/-- After an open read of the beginning of the other string, the buffers may come out equal and
may come out different. -/
theorem open_ambiguous (data₁ data₂ : List UInt8) (offset : Int) (n : Nat)
    (hopen : ¬ Closed n (delivered data₁ offset n))
    (hbegins : delivered data₁ offset n <+: cStr (delivered data₂ offset n)) :
    ∃ same other fresh, cStr (filledBuffer same data₁ offset n) =
        cStr (filledBuffer fresh data₂ offset n) ∧
      cStr (filledBuffer other data₁ offset n) ≠ cStr (filledBuffer fresh data₂ offset n) := by
  obtain ⟨hshort, hnul⟩ := not_or.mp hopen
  have hle := length_delivered_le data₁ offset n
  obtain ⟨t, ht⟩ := hbegins
  obtain ⟨fresh, hfresh⟩ := filledBuffer_plain data₂ offset n
  have hfits : (delivered data₁ offset n).length + t.length ≤ n := by
    rw [← List.length_append, ht]
    exact (length_cStr_le _).trans (length_delivered_le data₂ offset n)
  have htfree : 0 ∉ t := fun hmem =>
    zero_notMem_cStr (delivered data₂ offset n) (ht ▸ List.mem_append_right _ hmem)
  obtain ⟨same, hsame⟩ := filledBuffer_choose data₁ offset n t hnul htfree hfits
  have hother : ∃ t' : List UInt8, t' ≠ t ∧ 0 ∉ t' ∧ t'.length ≤ 1 := by
    by_cases hempty : t = []
    · exact ⟨[1], by simp [hempty], by decide, Nat.le_refl 1⟩
    · exact ⟨[], fun heq => hempty heq.symm, List.not_mem_nil, Nat.zero_le 1⟩
  obtain ⟨t', hne, hfree, hone⟩ := hother
  obtain ⟨other, hother⟩ := filledBuffer_choose data₁ offset n t' hnul hfree (by omega)
  refine ⟨same, other, fresh, by rw [hsame, ht, hfresh], ?_⟩
  rw [hother, hfresh, ← ht]
  exact fun heq => hne (List.append_cancel_left heq)

/-- The two C strings agree for every content of the new buffers, or differ for every one,
exactly when no read is undecided. -/
theorem buffers_agree_iff (data₁ data₂ : List UInt8) (offset : Int) (n : Nat) (same : Prop) :
    (∀ fresh₁ fresh₂, cStr (filledBuffer fresh₁ data₁ offset n) =
        cStr (filledBuffer fresh₂ data₂ offset n) ↔ same) ↔
      ¬ Undecided n (delivered data₁ offset n) (delivered data₂ offset n) ∧
        (cStr (delivered data₁ offset n) = cStr (delivered data₂ offset n) ↔ same) := by
  constructor
  · intro h
    constructor
    · rintro (⟨hopen, hbegins⟩ | ⟨hopen, hbegins⟩)
      · obtain ⟨fresh, other, fresh₂, heq, hne⟩ := open_ambiguous data₁ data₂ offset n hopen hbegins
        exact hne ((h other fresh₂).mpr ((h fresh fresh₂).mp heq))
      · obtain ⟨fresh, other, fresh₁, heq, hne⟩ := open_ambiguous data₂ data₁ offset n hopen hbegins
        exact hne ((h fresh₁ other).mpr ((h fresh₁ fresh).mp heq.symm)).symm
    · obtain ⟨fresh₁, hfresh₁⟩ := filledBuffer_plain data₁ offset n
      obtain ⟨fresh₂, hfresh₂⟩ := filledBuffer_plain data₂ offset n
      rw [← h fresh₁ fresh₂, hfresh₁, hfresh₂]
  · rintro ⟨hdecided, hsame⟩ fresh₁ fresh₂
    obtain ⟨hfirst, hsecond⟩ := not_or.mp hdecided
    obtain ⟨tail₁, htail₁, hclosed₁⟩ := cStr_filledBuffer fresh₁ data₁ offset n
    obtain ⟨tail₂, htail₂, hclosed₂⟩ := cStr_filledBuffer fresh₂ data₂ offset n
    rw [htail₁, htail₂, ← hsame]
    by_cases h₁ : Closed n (delivered data₁ offset n)
    · rw [hclosed₁ h₁, List.append_nil]
      by_cases h₂ : Closed n (delivered data₂ offset n)
      · rw [hclosed₂ h₂, List.append_nil]
      · have hself := cStr_eq_self (not_or.mp h₂).2
        have hnot : ¬ delivered data₂ offset n <+: cStr (delivered data₁ offset n) :=
          fun hbegins => hsecond ⟨h₂, hbegins⟩
        rw [hself]
        refine iff_of_false (fun heq => hnot ⟨tail₂, heq.symm⟩) (fun heq => hnot ?_)
        exact ⟨[], by rw [List.append_nil, heq]⟩
    · have hself := cStr_eq_self (not_or.mp h₁).2
      have hnot : ¬ delivered data₁ offset n <+: cStr (delivered data₂ offset n) :=
        fun hbegins => hfirst ⟨h₁, hbegins⟩
      rw [hself]
      refine iff_of_false (fun heq => ?_) (fun heq => hnot ?_)
      · have hshared : delivered data₁ offset n <+: cStr (delivered data₂ offset n) ++ tail₂ :=
          ⟨tail₁, heq⟩
        by_cases h₂ : Closed n (delivered data₂ offset n)
        · rw [hclosed₂ h₂, List.append_nil] at hshared
          exact hnot hshared
        · have hself₂ := cStr_eq_self (not_or.mp h₂).2
          cases List.prefix_or_prefix_of_prefix hshared (List.prefix_append _ _) with
          | inl hbegins => exact hnot hbegins
          | inr hbegins => exact hsecond ⟨h₂, by rw [hself]; rwa [hself₂] at hbegins⟩
      · exact ⟨[], by rw [List.append_nil, heq]⟩

/-- The `int` sum overflows only at its last value. -/
theorem size_negative_iff (x : Int) :
    toInt (toInt x + 1) < 0 ↔ toInt x < -1 ∨ toInt x = 2 ^ 31 - 1 := by
  unfold toInt
  omega

/-- Strings that come out equal are those of equal bytes, or of bytes that differ behind a NUL. -/
theorem visible_or_same (r₁ r₂ : List UInt8) : Visible r₁ r₂ ∨ cStr r₁ = cStr r₂ := by
  induction r₁ generalizing r₂ with
  | nil =>
    cases r₂ with
    | nil => exact Or.inr rfl
    | cons b r₂ => exact Or.inl (Or.inr ⟨0, rfl, List.not_mem_nil, by simp⟩)
  | cons a r₁ ih =>
    cases r₂ with
    | nil => exact Or.inl (Or.inr ⟨0, rfl, List.not_mem_nil, by simp⟩)
    | cons b r₂ =>
      by_cases hab : a = b
      · subst hab
        by_cases ha : a = 0
        · exact Or.inr (by simp [cStr, ha])
        · rcases ih r₂ with (rfl | ⟨k, htake, hnul, hdiffer⟩) | hsame
          · exact Or.inl (Or.inl rfl)
          · refine Or.inl (Or.inr ⟨k + 1, ?_, ?_, ?_⟩)
            · rw [List.take_succ_cons, List.take_succ_cons, htake]
            · rw [List.take_succ_cons, List.mem_cons]
              exact not_or.mpr ⟨fun h => ha h.symm, hnul⟩
            · simpa using hdiffer
          · exact Or.inr (by simpa [cStr, ha] using hsame)
      · exact Or.inl (Or.inr ⟨0, rfl, List.not_mem_nil, by simpa using hab⟩)

/-- A read that ends where the other one has a NUL is undecided. -/
theorem open_of_ended {n : Nat} {p b : List UInt8} (hp : 0 ∉ p) (hb : b ≠ [])
    (hlen : (p ++ b).length ≤ n) : ¬ Closed n p ∧ p <+: cStr (p ++ b) := by
  have hpos := List.length_pos_iff.mpr hb
  rw [List.length_append] at hlen
  refine ⟨not_or.mpr ⟨by omega, hp⟩, ?_⟩
  rw [cStr_append_of_notMem hp]
  exact List.prefix_append _ _

/-- A difference at the first NUL or before it makes the strings different, unless a read ends
there. -/
theorem cStr_ne_of_differ {n k : Nat} {r₁ r₂ : List UInt8} (h₁ : r₁.length ≤ n)
    (h₂ : r₂.length ≤ n) (hdecided : ¬ Undecided n r₁ r₂) (htake : r₁.take k = r₂.take k)
    (hnul : 0 ∉ r₁.take k) (hdiffer : r₁[k]? ≠ r₂[k]?) : cStr r₁ ≠ cStr r₂ := by
  obtain ⟨p, a, b, hp, rfl, rfl, hhead⟩ : ∃ p a b, 0 ∉ p ∧ r₁ = p ++ a ∧ r₂ = p ++ b ∧
      a.head? ≠ b.head? :=
    ⟨r₁.take k, r₁.drop k, r₂.drop k, hnul, (List.take_append_drop k r₁).symm,
      by rw [htake, List.take_append_drop], by rwa [List.head?_drop, List.head?_drop]⟩
  intro hsame
  rw [cStr_append_of_notMem hp, cStr_append_of_notMem hp] at hsame
  have htails := List.append_cancel_left hsame
  cases a with
  | nil =>
    have hb : b ≠ [] := fun hb => hhead (by rw [hb])
    rw [List.append_nil] at hdecided
    exact hdecided (Or.inl (open_of_ended hp hb h₂))
  | cons x a =>
    cases b with
    | nil =>
      rw [List.append_nil] at hdecided
      exact hdecided (Or.inr (open_of_ended hp (List.cons_ne_nil x a) h₁))
    | cons y b =>
      have hne : x ≠ y := by simpa using hhead
      by_cases hx : x = 0
      · by_cases hy : y = 0
        · exact hne (hx.trans hy.symm)
        · simp [cStr, hx, hy] at htails
      · by_cases hy : y = 0
        · simp [cStr, hx, hy] at htails
        · simp [cStr, hx, hy, hne] at htails

/-- Where the reads decide, the strings tell whether the bytes are equal just when a difference of
the bytes is visible. -/
theorem strings_tell_iff {n : Nat} {r₁ r₂ : List UInt8} (h₁ : r₁.length ≤ n) (h₂ : r₂.length ≤ n)
    (hdecided : ¬ Undecided n r₁ r₂) : (cStr r₁ = cStr r₂ ↔ r₁ = r₂) ↔ Visible r₁ r₂ := by
  constructor
  · intro htell
    rcases visible_or_same r₁ r₂ with hvisible | hsame
    · exact hvisible
    · exact Or.inl (htell.mp hsame)
  · rintro (rfl | ⟨k, htake, hnul, hdiffer⟩)
    · exact iff_of_true rfl rfl
    · refine iff_of_false (cStr_ne_of_differ h₁ h₂ hdecided htake hnul hdiffer) ?_
      exact fun heq => hdiffer (by rw [heq])

/-- A range that `int` can hold is the one that is read. -/
theorem delivered_eq_rangeOf (data : List UInt8) {location len : UInt64}
    (hlocation : location.toNat < 2 ^ 31) (hlen : len.toNat < 2 ^ 31) :
    delivered data (toInt location.toNat) (toInt len.toNat).toNat = rangeOf data location len := by
  rw [toInt_of_fits _ (by omega) (by omega), toInt_of_fits _ (by omega) (by omega), delivered,
    if_neg (by omega), Int.toNat_natCast, Int.toNat_natCast, rangeOf]

/-- The call answers whether the two ranges are equal, whatever its buffers hold. -/
def Exact (disk compareDisk : DiskContents) (files : FilesAt) (p : Path) (data₁ data₂ : List UInt8)
    (location len : UInt64) : Prop :=
  ∀ fresh₁ fresh₂, disk.compareFileContents compareDisk files fresh₁ fresh₂ p
      (toInt location.toNat) (toInt len.toNat) =
    .ret (decide (rangeOf data₁ location len = rangeOf data₂ location len))

/-- On a range that `int` can hold, the comparison of two disks is exact where the range is
`Comparable`, and nowhere else. -/
theorem exact_iff_comparable {disk compareDisk : DiskContents} {files : FilesAt} {p : Path}
    {data₁ data₂ : List UInt8} (hdisk : disk.diskPath ≠ compareDisk.diskPath)
    (h₁ : files (basePath ++ p) = some (some data₁))
    (h₂ : files (compareDisk.mountPoint ++ p) = some (some data₂)) {location len : UInt64}
    (hlocation : location.toNat < 2 ^ 31) (hlen : len.toNat < 2 ^ 31) :
    Exact disk compareDisk files p data₁ data₂ location len ↔
      Comparable data₁ data₂ location len := by
  have hint : toInt len.toNat = len.toNat := toInt_of_fits _ (by omega) (by omega)
  simp only [Exact, DiskContents.compareFileContents, if_neg hdisk, h₁, h₂, compareBuffers,
    size_negative_iff, Comparable]
  by_cases hlast : len.toNat = 2 ^ 31 - 1
  · have hnegative : toInt len.toNat < -1 ∨ toInt len.toNat = 2 ^ 31 - 1 := by omega
    simp only [if_pos hnegative, reduceCtorEq, forall_const, false_iff]
    omega
  · have hnegative : ¬ (toInt len.toNat < -1 ∨ toInt len.toNat = 2 ^ 31 - 1) := by omega
    have hone : ¬ toInt len.toNat < 0 := by omega
    simp only [if_neg hnegative, if_neg hone, CompareResult.ret.injEq, decide_eq_decide]
    rw [buffers_agree_iff, delivered_eq_rangeOf data₁ hlocation hlen,
      delivered_eq_rangeOf data₂ hlocation hlen, hint, Int.toNat_natCast]
    have hbound (data : List UInt8) : (rangeOf data location len).length ≤ len.toNat := by
      rw [rangeOf, List.length_take]
      omega
    constructor
    · rintro ⟨hdecided, htell⟩
      exact ⟨hlocation, by omega, hdecided,
        (strings_tell_iff (hbound data₁) (hbound data₂) hdecided).mp htell⟩
    · rintro ⟨-, -, hdecided, hvisible⟩
      exact ⟨hdecided, (strings_tell_iff (hbound data₁) (hbound data₂) hdecided).mpr hvisible⟩

/-- Of two files that can be opened, the call says for every content of its buffers whether the
ranges are equal if they are `Comparable`, and on one and the same disk if the files are equal. For
two disks and a range that `int` can hold it does so only then. -/
theorem file_compare_iff (disk compareDisk : DiskContents) (files : FilesAt) (p : Path)
    (data₁ data₂ : List UInt8) (h₁ : files (basePath ++ p) = some (some data₁))
    (h₂ : files (compareDisk.mountPoint ++ p) = some (some data₂)) (location len : UInt64) :
    ((if disk.diskPath = compareDisk.diskPath then data₁ = data₂
        else Comparable data₁ data₂ location len) →
      Exact disk compareDisk files p data₁ data₂ location len) ∧
    (disk.diskPath ≠ compareDisk.diskPath → location.toNat < 2 ^ 31 → len.toNat < 2 ^ 31 →
      Exact disk compareDisk files p data₁ data₂ location len →
        Comparable data₁ data₂ location len) := by
  constructor
  · by_cases hdisk : disk.diskPath = compareDisk.diskPath
    · rw [if_pos hdisk]
      rintro rfl fresh₁ fresh₂
      simp [DiskContents.compareFileContents, hdisk]
    · rw [if_neg hdisk]
      intro hcomparable
      have hlen := hcomparable.2.1
      exact (exact_iff_comparable hdisk h₁ h₂ hcomparable.1 (by omega)).mpr hcomparable
  · intro hdisk hlocation hlen
    exact (exact_iff_comparable hdisk h₁ h₂ hlocation hlen).mp

/-- The same name on the record and on the replay disk. -/
def twoFiles (data₁ data₂ : List UInt8) : FilesAt := fun p =>
  if p = basePath ++ path ['/', 'f'] then some (some data₁)
  else if p = replayDisk.mountPoint ++ path ['/', 'f'] then some (some data₂) else none

theorem file_compare_text :
    recordDisk.compareFileContents replayDisk (twoFiles [7, 8, 9] [7, 8, 5]) (fun _ => 1)
        (fun _ => 2) (path ['/', 'f']) (toInt (0 : UInt64).toNat) (toInt (3 : UInt64).toNat) =
      .ret (decide (rangeOf [7, 8, 9] 0 3 = rangeOf [7, 8, 5] 0 3)) :=
  (file_compare_iff recordDisk replayDisk (twoFiles [7, 8, 9] [7, 8, 5]) (path ['/', 'f']) [7, 8, 9]
    [7, 8, 5] (by decide) (by decide) 0 3).1
    (by
      rw [if_neg (by decide)]
      exact ⟨by decide, by decide, by decide, Or.inr ⟨2, by decide⟩⟩) (fun _ => 1) (fun _ => 2)

/-- Two files that differ behind a NUL are found equal, and two equal files of one byte are found
different in a range of two when their buffers were. -/
theorem file_compare_wrong :
    (recordDisk.compareFileContents replayDisk (twoFiles [0, 1] [0, 2]) (fun _ => 0) (fun _ => 0)
        (path ['/', 'f']) (toInt (0 : UInt64).toNat) (toInt (2 : UInt64).toNat) = .ret true ∧
      rangeOf [0, 1] 0 2 ≠ rangeOf [0, 2] 0 2) ∧
    recordDisk.compareFileContents replayDisk (twoFiles [5] [5]) (fun _ => 1) (fun _ => 2)
        (path ['/', 'f']) (toInt (0 : UInt64).toNat) (toInt (2 : UInt64).toNat) = .ret false ∧
      rangeOf [5] 0 2 = rangeOf [5] 0 2 := by
  refine ⟨⟨by decide, by decide⟩, by decide, rfl⟩

end PMTester
