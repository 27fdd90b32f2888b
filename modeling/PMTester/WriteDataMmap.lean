import PMTester.WriteData
import PMTester.Lib.Memory

/-!
# `WriteDataMmap`

The same contract as `WriteData`, through a shared mapping of the pages of the
range. Addresses are relative to the pointer `mmap` returned; `mmap` maps whole
pages, and a store outside them is a fault.
-/
namespace PMTester
open Word Loop Memory

/-- Which of the calls succeed, from the lengths they are given. -/
structure MmapHost where
  mmap : (length position : UInt32) → Bool
  msync : (length : UInt32) → Bool

/-- The bytes a mapping of this length makes accessible: whole pages. -/
def mappedSize (length : Nat) : Nat := (length + 4095) / 4096 * 4096

/-- `memcpy` of a piece of the test data block into the mapping; `none` is a fault. -/
def memcpyBlock (mapped address source count : Nat) (m : Mem) : Option Mem :=
  if address + count ≤ mapped ∧ source + count ≤ kTestDataSize.toNat then
    some (store m address ((kTestDataBlock.drop source).take count))
  else none

/-- The part of the block up to the first block boundary. -/
def mmapHead (mapped : Nat) (offset : UInt32) (m : Mem) : Option Mem :=
  if roundedOffset offset - offset ≠ 0 then
    let testDataOffset := offset &&& (kTestDataSize - 1)
    memcpyBlock mapped (offset &&& 4095).toNat testDataOffset.toNat
      (kTestDataSize - testDataOffset).toNat m
  else some m

/-- One round of the loop over the rest; `total` is `size - rounded_offset_diff`. -/
def mmapRound (mapped : Nat) (diff total : UInt32) :
    UInt32 × Mem → Option Mem ⊕ (UInt32 × Mem)
  | (numWritten, m) =>
    if numWritten ≠ total then
      let toWrite := if total < numWritten + kTestDataSize then total - numWritten
        else kTestDataSize
      match memcpyBlock mapped (diff.toNat + numWritten.toNat) 0 toWrite.toNat m with
      | some m => .inr (numWritten + toWrite, m)
      | none => .inl none
    else .inl (some m)

/-- What the mapping shows of the file from `base` on; behind the end it is zero. -/
def mappedFile (data : List UInt8) (base : Nat) : Mem := fun address => data.getD (base + address) 0

/-- The file with the bytes of the mapping in it; a mapping does not make it longer. -/
def syncedFile (data : List UInt8) (base mapped : Nat) (m : Mem) : List UInt8 :=
  image (fun p => if base ≤ p ∧ p < base + mapped then m (p - base) else data.getD p 0) data.length

/-- `WriteDataMmap` on a file with these bytes, with a bound on the rounds of its loop. -/
def writeDataMmap (host : MmapHost) (rounds : Nat) (offset size : UInt32) (data : List UInt8) :
    Option (CmResult × List UInt8) :=
  let mapSize := size + (offset &&& 4095)
  let base := (offset &&& ~~~4095)
  if host.mmap size base then
    let mapped := mappedSize size.toNat
    let diff := roundedOffset offset - offset
    match mmapHead mapped offset (mappedFile data base.toNat) with
    | none => some (.fault, data)
    | some m =>
      match loop (mmapRound mapped diff (size - diff)) rounds (0, m) with
      | none => none
      | some none => some (.fault, data)
      | some (some m) =>
        some (.ret (if host.msync mapSize then 0 else -1), syncedFile data base.toNat mapped m)
  else some (.ret (-1), data)

/-- Whole blocks from `address` on, `n` bytes of them; every other byte is as before. -/
structure Copied (m m' : Mem) (address n : Nat) : Prop where
  inside : ∀ i < n, some (m' (address + i)) = kTestDataBlock[i % 4096]?
  outside : ∀ a, a < address ∨ address + n ≤ a → m' a = m a

theorem Copied.start (m : Mem) (address : Nat) : Copied m m address 0 :=
  ⟨fun _ hi => absurd hi (Nat.not_lt_zero _), fun _ _ => rfl⟩

theorem Copied.extend {m m' : Mem} {address n count : Nat} (h : Copied m m' address n)
    (hn : n % 4096 = 0) (hcount : count ≤ 4096) :
    Copied m (store m' (address + n) ((kTestDataBlock.drop 0).take count)) address (n + count) := by
  have hlen := length_blockPiece (show 0 + count ≤ 4096 by omega)
  constructor
  · intro i hi
    by_cases hin : i < n
    · rw [store_outside _ _ _ _ (by omega)]
      exact h.inside i hin
    · obtain ⟨j, rfl⟩ := Nat.exists_eq_add_of_le (Nat.le_of_not_lt hin)
      have hj : j < ((kTestDataBlock.drop 0).take count).length := by omega
      have hmod : (n + j) % 4096 = 0 + j := by omega
      rw [← Nat.add_assoc, store_inside _ _ _ _ hj, ← List.getElem?_eq_getElem hj, hmod,
        getElem?_blockPiece _ (by omega)]
  · intro a ha
    rw [store_outside _ _ _ _ (by omega), h.outside a (by omega)]

theorem memcpyBlock_ok {mapped address source count : Nat} (m : Mem)
    (hmapped : address + count ≤ mapped) (hsource : source + count ≤ 4096) :
    memcpyBlock mapped address source count m =
      some (store m address ((kTestDataBlock.drop source).take count)) :=
  if_pos ⟨hmapped, hsource⟩

/-- The bytes that a round copies. -/
def chunk (total numWritten : UInt32) : UInt32 :=
  if total < numWritten + kTestDataSize then total - numWritten else kTestDataSize

/-- While the counter does not wrap, a round copies a block, or all that is left. -/
theorem chunk_spec {total n : UInt32} (htotal : total.toNat ≤ 2 ^ 32 - 4096)
    (hlt : n.toNat < total.toNat) (hn : n.toNat % 4096 = 0) :
    (chunk total n).toNat = min (total.toNat - n.toNat) 4096 ∧
      (n + chunk total n).toNat = n.toNat + (chunk total n).toNat ∧
      ((n + chunk total n).toNat % 4096 = 0 ∨ n + chunk total n = total) := by
  have hsize : kTestDataSize.toNat = 4096 := rfl
  have hnext : (n + kTestDataSize).toNat = n.toNat + kTestDataSize.toNat :=
    toNat_counter_add (by omega)
  have hlast : total < n + kTestDataSize ↔ total.toNat < n.toNat + 4096 := by
    rw [UInt32.lt_iff_toNat_lt, hnext, hsize]
  have hrest : (total - n).toNat = total.toNat - n.toNat :=
    UInt32.toNat_sub_of_le _ _ (UInt32.le_iff_toNat_le.mpr (Nat.le_of_lt hlt))
  have hcount : (chunk total n).toNat = min (total.toNat - n.toNat) 4096 := by
    unfold chunk
    split
    · next h => have := hlast.mp h; omega
    · next h => have := mt hlast.mpr h; omega
  have hadd : (n + chunk total n).toNat = n.toNat + (chunk total n).toNat :=
    toNat_counter_add (by omega)
  refine ⟨hcount, hadd, ?_⟩
  by_cases hfull : (chunk total n).toNat = 4096
  · exact .inl (by omega)
  · exact .inr (UInt32.toNat_inj.mp (by omega))

/-- Where the counter can wrap, it goes past `total` block by block. -/
theorem chunk_wraps {total n : UInt32} (htotal : 2 ^ 32 - 4096 < total.toNat)
    (hn : n.toNat % 4096 = 0) :
    n ≠ total ∧ chunk total n = kTestDataSize ∧ (n + chunk total n).toNat % 4096 = 0 := by
  have hlt := n.toNat_lt
  have hsize : kTestDataSize.toNat = 4096 := rfl
  have hend : n ≠ total := by
    rintro rfl
    omega
  have hnext : (n + kTestDataSize).toNat = (n.toNat + 4096) % 2 ^ 32 := by
    rw [UInt32.toNat_add, hsize]
  have hfull : ¬ total < n + kTestDataSize := by
    rw [UInt32.lt_iff_toNat_lt, hnext]
    omega
  have hchunk : chunk total n = kTestDataSize := if_neg hfull
  refine ⟨hend, hchunk, ?_⟩
  rw [hchunk, hnext]
  omega

theorem mmapRound_next (mapped : Nat) (diff : UInt32) {total n : UInt32} (hend : n ≠ total) (m : Mem) :
    mmapRound mapped diff total (n, m) =
      match memcpyBlock mapped (diff.toNat + n.toNat) 0 (chunk total n).toNat m with
      | some m => .inr (n + chunk total n, m)
      | none => .inl none := by
  simp only [mmapRound, ne_eq, hend, not_false_eq_true, if_true, chunk]

/-- While the counter does not wrap, the loop copies `total` bytes. -/
theorem mmapRound_copies {mapped : Nat} {diff total : UInt32}
    (hfits : diff.toNat + total.toNat ≤ mapped) (htotal : total.toNat ≤ 2 ^ 32 - 4096) {m₀ m : Mem}
    {n : UInt32} (hn : n.toNat ≤ total.toNat) (hblock : n.toNat % 4096 = 0 ∨ n = total)
    (hm : Copied m₀ m diff.toNat n.toNat) {rounds : Nat}
    (hrounds : total.toNat - n.toNat < rounds) :
    ∃ m', loop (mmapRound mapped diff total) rounds (n, m) = some (some m') ∧
      Copied m₀ m' diff.toNat total.toNat := by
  induction rounds generalizing n m with
  | zero => omega
  | succ rounds ih =>
    by_cases hend : n = total
    · subst hend
      exact ⟨m, loop_done (by simp [mmapRound]) _, hm⟩
    · have hmultiple := hblock.resolve_right hend
      have hne : n.toNat ≠ total.toNat := fun h => hend (UInt32.toNat_inj.mp h)
      obtain ⟨hcount, hadd, hnext⟩ := chunk_spec htotal (by omega) hmultiple
      have hround := mmapRound_next mapped diff hend m
      rw [memcpyBlock_ok m (by omega) (by omega)] at hround
      rw [loop_next hround]
      refine ih (by omega) hnext ?_ (by omega)
      rw [hadd]
      exact hm.extend hmultiple (by omega)

theorem mmapLoop_copies {mapped : Nat} {diff total : UInt32}
    (hfits : diff.toNat + total.toNat ≤ mapped) (htotal : total.toNat ≤ 2 ^ 32 - 4096) (m : Mem)
    {rounds : Nat} (hrounds : total.toNat < rounds) :
    ∃ m', loop (mmapRound mapped diff total) rounds (0, m) = some (some m') ∧
      Copied m m' diff.toNat total.toNat :=
  mmapRound_copies hfits htotal (Nat.zero_le _) (.inl rfl) (Copied.start m _)
    (Nat.lt_of_le_of_lt (Nat.sub_le _ _) hrounds)

/-- Where the counter wraps before it reaches `total`, the loop does not end. -/
theorem mmapRound_never {mapped : Nat} {diff total : UInt32} (htotal : 2 ^ 32 - 4096 < total.toNat)
    {n : UInt32} (hn : n.toNat % 4096 = 0) (m m' : Mem) (rounds : Nat) :
    loop (mmapRound mapped diff total) rounds (n, m) ≠ some (some m') := by
  induction rounds generalizing n m with
  | zero => simp [loop]
  | succ rounds ih =>
    obtain ⟨hend, -, hnext⟩ := chunk_wraps htotal hn
    have hround := mmapRound_next mapped diff hend m
    cases hcopy : memcpyBlock mapped (diff.toNat + n.toNat) 0 (chunk total n).toNat m with
    | none =>
      rw [hcopy] at hround
      rw [loop_done hround]
      simp
    | some m₁ =>
      rw [hcopy] at hround
      rw [loop_next hround]
      exact ih hnext m₁

theorem toNat_pageOffset (offset : UInt32) : (offset &&& 4095).toNat = offset.toNat % 4096 :=
  toNat_and_mask offset 4095 12 rfl

theorem toNat_pageBase (offset : UInt32) :
    (offset &&& ~~~4095).toNat = offset.toNat / 4096 * 4096 :=
  toNat_and_not_mask offset 4095 12 rfl

/-- What `mmapRound` copies in the end, also where the size is less than the first part. -/
theorem toNat_restSize (offset size : UInt32) :
    (size - (roundedOffset offset - offset)).toNat =
      (2 ^ 32 - (4096 - offset.toNat % 4096) % 4096 + size.toNat) % 2 ^ 32 := by
  rw [UInt32.toNat_sub, toNat_headSize]

theorem mappedSize_le (size : Nat) : size ≤ mappedSize size ∧ mappedSize size % 4096 = 0 := by
  unfold mappedSize
  omega

/-- The loop on a range that is at least as long as its first part. -/
theorem mmapRest_copies (offset size : UInt32)
    (hhead : (4096 - offset.toNat % 4096) % 4096 ≤ size.toNat)
    (hrest : size.toNat - (4096 - offset.toNat % 4096) % 4096 ≤ 2 ^ 32 - 4096) (m : Mem)
    {rounds : Nat} (hrounds : size.toNat < rounds) :
    ∃ m', loop (mmapRound (mappedSize size.toNat) (roundedOffset offset - offset)
        (size - (roundedOffset offset - offset))) rounds (0, m) = some (some m') ∧
      Copied m m' ((4096 - offset.toNat % 4096) % 4096)
        (size.toNat - (4096 - offset.toNat % 4096) % 4096) := by
  have hmapped := mappedSize_le size.toNat
  have hsize := size.toNat_lt
  have htotal : (size - (roundedOffset offset - offset)).toNat =
      size.toNat - (4096 - offset.toNat % 4096) % 4096 := by
    rw [toNat_restSize]
    omega
  have hfits : (roundedOffset offset - offset).toNat +
      (size - (roundedOffset offset - offset)).toNat ≤ mappedSize size.toNat := by
    rw [toNat_headSize]
    omega
  obtain ⟨m', hloop, hm'⟩ := mmapLoop_copies hfits (by omega) m (show _ < rounds by omega)
  rw [toNat_headSize, htotal] at hm'
  exact ⟨m', hloop, hm'⟩

theorem mmapHead_aligned {offset : UInt32} (h : offset.toNat % 4096 = 0) (mapped : Nat) (m : Mem) :
    mmapHead mapped offset m = some m := by
  simp [mmapHead, (roundedOffset_eq_iff offset).mpr h]

theorem mmapHead_unaligned {offset : UInt32} (h : offset.toNat % 4096 ≠ 0) {mapped : Nat}
    (hmapped : 4096 ≤ mapped) (m : Mem) :
    mmapHead mapped offset m = some (store m (offset.toNat % 4096)
      ((kTestDataBlock.drop (offset.toNat % 4096)).take (4096 - offset.toNat % 4096))) := by
  have hdiff : roundedOffset offset - offset ≠ 0 := by
    intro hzero
    have hsize := toNat_headSize offset
    rw [hzero] at hsize
    change 0 = _ at hsize
    omega
  have hcount : (kTestDataSize - (offset &&& 4095)).toNat = 4096 - offset.toNat % 4096 := by
    rw [UInt32.toNat_sub, toNat_pageOffset]
    have hsize : kTestDataSize.toNat = 4096 := rfl
    omega
  have hmask : kTestDataSize - 1 = 4095 := rfl
  rw [mmapHead, if_pos hdiff]
  simp only [hmask, toNat_pageOffset, hcount]
  exact memcpyBlock_ok m (by omega) (by omega)

theorem length_syncedFile (data : List UInt8) (base mapped : Nat) (m : Mem) :
    (syncedFile data base mapped m).length = data.length := by
  simp [syncedFile, image]

theorem getElem?_syncedFile (data : List UInt8) (base mapped p : Nat) (m : Mem)
    (hp : p < data.length) : (syncedFile data base mapped m)[p]? =
      some (if base ≤ p ∧ p < base + mapped then m (p - base) else data.getD p 0) := by
  simp [syncedFile, image, hp]

/-- A mapping that holds the right bytes leaves the right file. -/
theorem syncedFile_patterned {data : List UInt8} {base mapped page size : Nat} {m : Mem}
    (hlen : base + page + size ≤ data.length) (hsize : 0 < size) (hmapped : page + size ≤ mapped)
    (hin : ∀ a, page ≤ a → a < page + size → some (m a) = kTestDataBlock[(base + a) % 4096]?)
    (hout : ∀ a, a < page ∨ page + size ≤ a → m a = mappedFile data base a) :
    Patterned data (syncedFile data base mapped m) (base + page) size := by
  constructor
  · intro p hlo hhi
    obtain ⟨a, rfl⟩ := Nat.exists_eq_add_of_le (show base ≤ p by omega)
    rw [getElem?_syncedFile _ _ _ _ _ (by omega), if_pos ⟨hlo.trans' (by omega), by omega⟩,
      Nat.add_sub_cancel_left]
    exact hin a (by omega) (by omega)
  · intro p hp
    by_cases hend : p < data.length
    · rw [List.getD_eq_getElem?_getD, getElem?_syncedFile _ _ _ _ _ hend, Option.getD_some]
      split
      · next hpage =>
        obtain ⟨a, rfl⟩ := Nat.exists_eq_add_of_le hpage.1
        rw [Nat.add_sub_cancel_left]
        exact hout a (by omega)
      · rfl
    · rw [List.getD_eq_default _ _ (by rw [length_syncedFile]; omega),
        List.getD_eq_default _ _ (by omega)]
  · rw [length_syncedFile, if_neg (by omega)]
    omega

/-- Both calls succeed. -/
def MmapHost.Succeeds (host : MmapHost) : Prop :=
  (∀ length position, host.mmap length position = true) ∧ ∀ length, host.msync length = true

/-- The function returns 0 exactly where its loop ends without a fault. -/
theorem writeDataMmap_ret {host : MmapHost} (hhost : host.Succeeds) {offset size : UInt32}
    {data : List UInt8} {m : Mem}
    (hhead : mmapHead (mappedSize size.toNat) offset
      (mappedFile data (offset &&& ~~~4095).toNat) = some m) (rounds : Nat) (data' : List UInt8) :
    writeDataMmap host rounds offset size data = some (.ret 0, data') ↔
      ∃ m', loop (mmapRound (mappedSize size.toNat) (roundedOffset offset - offset)
          (size - (roundedOffset offset - offset))) rounds (0, m) = some (some m') ∧
        data' = syncedFile data (offset &&& ~~~4095).toNat (mappedSize size.toNat) m' := by
  simp only [writeDataMmap, hhost.1, hhost.2, if_true, hhead]
  cases hloop : loop (mmapRound (mappedSize size.toNat) (roundedOffset offset - offset)
      (size - (roundedOffset offset - offset))) rounds (0, m) with
  | none => simp
  | some exit =>
    cases exit with
    | none => simp
    | some m' =>
      constructor
      · intro h
        cases h
        exact ⟨m', rfl, rfl⟩
      · rintro ⟨m'', hm, rfl⟩
        cases hm
        rfl

/-- For every file that holds the range, `WriteDataMmap` returns 0 and leaves what `WriteData`
leaves. -/
def Agrees (offset size : UInt32) : Prop :=
  ∀ (host : MmapHost) (answers : Nat → Int) (data : List UInt8), host.Succeeds →
    (∀ i, 0 < answers i) → offset.toNat + size.toNat ≤ data.length →
    ∃ bound, ∀ rounds ≥ bound, ∃ data' calls,
      writeDataMmap host rounds offset size data = some (.ret 0, data') ∧
      writeData answers rounds offset size ⟨data, 0⟩ = some (.ret 0, ⟨data', calls⟩)

/-- The mapping after the whole function, where the range starts on a block boundary or ends at the
first one. -/
theorem mmap_patterned {offset size : UInt32} (hpos : 0 < size.toNat)
    (h : (offset.toNat % 4096 = 0 ∧ size.toNat ≤ 2 ^ 32 - 4096) ∨
      (offset.toNat % 4096 ≠ 0 ∧ size.toNat = 4096 - offset.toNat % 4096)) (m₀ : Mem) :
    ∃ m, mmapHead (mappedSize size.toNat) offset m₀ = some m ∧
      ∀ rounds > size.toNat, ∃ m', loop (mmapRound (mappedSize size.toNat)
          (roundedOffset offset - offset) (size - (roundedOffset offset - offset))) rounds (0, m) =
          some (some m') ∧
        (∀ a, offset.toNat % 4096 ≤ a → a < offset.toNat % 4096 + size.toNat →
          some (m' a) = kTestDataBlock[a % 4096]?) ∧
        ∀ a, a < offset.toNat % 4096 ∨ offset.toNat % 4096 + size.toNat ≤ a → m' a = m₀ a := by
  have hmapped := mappedSize_le size.toNat
  rcases h with ⟨hpage, hsmall⟩ | ⟨hpage, hexact⟩
  · refine ⟨m₀, mmapHead_aligned hpage _ _, fun rounds hrounds => ?_⟩
    obtain ⟨m', hloop, hm'⟩ := mmapRest_copies offset size (by omega) (by omega) m₀ hrounds
    refine ⟨m', hloop, fun a _ ha => ?_, fun a ha => hm'.outside a (by omega)⟩
    have hin := hm'.inside a (by omega)
    have hplace : (4096 - offset.toNat % 4096) % 4096 + a = a := by omega
    rwa [hplace] at hin
  · refine ⟨_, mmapHead_unaligned hpage (by omega) _, fun rounds hrounds => ?_⟩
    have hfits : offset.toNat % 4096 + (4096 - offset.toNat % 4096) ≤ 4096 := by omega
    have hlen := length_blockPiece hfits
    obtain ⟨m', hloop, hm'⟩ := mmapRest_copies offset size (by omega) (by omega)
      (store m₀ (offset.toNat % 4096) ((kTestDataBlock.drop (offset.toNat % 4096)).take
        (4096 - offset.toNat % 4096))) hrounds
    refine ⟨m', hloop, fun a hlo hhi => ?_, fun a ha => ?_⟩
    · obtain ⟨i, rfl⟩ := Nat.exists_eq_add_of_le hlo
      have hcount : i < 4096 - offset.toNat % 4096 := by omega
      have hi := hlen.symm ▸ hcount
      have hmod : (offset.toNat % 4096 + i) % 4096 = offset.toNat % 4096 + i := by omega
      rw [hm'.outside _ (by omega), store_inside _ _ _ _ hi, ← List.getElem?_eq_getElem hi, hmod,
        getElem?_blockPiece _ (by omega)]
    · rw [hm'.outside a (by omega), store_outside _ _ _ _ (by omega)]

theorem agrees_of_mapped {offset size : UInt32} (hpos : 0 < size.toNat)
    (hroom : offset.toNat + size.toNat < 2 ^ 32)
    (h : (offset.toNat % 4096 = 0 ∧ size.toNat ≤ 2 ^ 32 - 4096) ∨
      (offset.toNat % 4096 ≠ 0 ∧ size.toNat = 4096 - offset.toNat % 4096)) :
    Agrees offset size := by
  intro host answers data hhost hans hlen
  have hmapped := mappedSize_le size.toNat
  have hbase := toNat_pageBase offset
  obtain ⟨m, hhead, hloops⟩ := mmap_patterned hpos h (mappedFile data (offset &&& ~~~4095).toNat)
  refine ⟨size.toNat + 1, fun rounds hrounds => ?_⟩
  obtain ⟨m', hloop, hin, hout⟩ := hloops rounds hrounds
  obtain ⟨⟨content, calls⟩, hwrite, hpattern⟩ := writeData_succeeds hans offset size (by omega) data
    (show size.toNat < rounds from hrounds)
  have hsynced : Patterned data (syncedFile data (offset &&& ~~~4095).toNat
      (mappedSize size.toNat) m') ((offset &&& ~~~4095).toNat + offset.toNat % 4096)
      size.toNat := by
    refine syncedFile_patterned (by omega) hpos (by omega) (fun a hlo hhi => ?_) hout
    have hphase : ((offset &&& ~~~4095).toNat + a) % 4096 = a % 4096 := by omega
    rw [hin a hlo hhi, hphase]
  have hstart : (offset &&& ~~~4095).toNat + offset.toNat % 4096 = offset.toNat := by omega
  rw [hstart] at hsynced
  refine ⟨_, calls, (writeDataMmap_ret hhost hhead rounds _).mpr ⟨m', hloop, rfl⟩, ?_⟩
  rw [hwrite, hsynced.unique hpattern]

/-- A file of zero bytes that just holds the range, and calls that succeed. -/
theorem Agrees.run {offset size : UInt32} (h : Agrees offset size) :
    ∃ rounds data' calls,
      writeDataMmap ⟨fun _ _ => true, fun _ => true⟩ rounds offset size
        (List.replicate (offset.toNat + size.toNat) 0) = some (.ret 0, data') ∧
      writeData (fun _ => 1) rounds offset size
        ⟨List.replicate (offset.toNat + size.toNat) 0, 0⟩ = some (.ret 0, ⟨data', calls⟩) ∧
      size.toNat < rounds := by
  obtain ⟨bound, hbound⟩ := h ⟨fun _ _ => true, fun _ => true⟩ (fun _ => 1)
    (List.replicate (offset.toNat + size.toNat) 0) ⟨fun _ _ => rfl, fun _ => rfl⟩
    (fun _ => by decide) (by simp)
  obtain ⟨data', calls, hmmap, hwrite⟩ := hbound (max bound (size.toNat + 1)) (by omega)
  exact ⟨_, data', calls, hmmap, hwrite, by omega⟩

/-- The part before the first block boundary is stored in the first page. -/
theorem mmapHead_some (offset size : UInt32) (hpos : 0 < size.toNat) (m : Mem) :
    ∃ m', mmapHead (mappedSize size.toNat) offset m = some m' := by
  have hmapped := mappedSize_le size.toNat
  by_cases h : offset.toNat % 4096 = 0
  · exact ⟨m, mmapHead_aligned h _ _⟩
  · exact ⟨_, mmapHead_unaligned h (by omega) m⟩

theorem not_agrees_wrapped {offset size : UInt32} (hpos : 0 < size.toNat)
    (htotal : 2 ^ 32 - 4096 < (size - (roundedOffset offset - offset)).toNat) :
    ¬ Agrees offset size := by
  intro h
  obtain ⟨rounds, data', calls, hmmap, -, -⟩ := h.run
  obtain ⟨m, hhead⟩ := mmapHead_some offset size hpos
    (mappedFile (List.replicate (offset.toNat + size.toNat) 0) (offset &&& ~~~4095).toNat)
  obtain ⟨m', hloop, -⟩ :=
    (writeDataMmap_ret ⟨fun _ _ => rfl, fun _ => rfl⟩ hhead rounds data').mp hmmap
  exact mmapRound_never htotal rfl m m' rounds hloop

theorem kTestDataBlock_nonzero : (0 : UInt8) ∉ kTestDataBlock := by
  intro h
  obtain ⟨piece, hpiece, hmem⟩ := List.mem_flatten.mp h
  rw [List.eq_of_mem_replicate hpiece] at hmem
  exact absurd hmem (by decide)

theorem not_agrees_displaced {offset size : UInt32} (hroom : offset.toNat + size.toNat < 2 ^ 32)
    (hpage : offset.toNat % 4096 ≠ 0) (hlong : 4096 - offset.toNat % 4096 < size.toNat) :
    ¬ Agrees offset size := by
  intro h
  have hmapped := mappedSize_le size.toNat
  have hbase := toNat_pageBase offset
  obtain ⟨rounds, data', calls, hmmap, hwrite, hrounds⟩ := h.run
  have hpages : 4096 ≤ mappedSize size.toNat := by omega
  have hhead := mmapHead_unaligned hpage hpages
    (mappedFile (List.replicate (offset.toNat + size.toNat) 0) (offset &&& ~~~4095).toNat)
  obtain ⟨m', hloop, rfl⟩ :=
    (writeDataMmap_ret ⟨fun _ _ => rfl, fun _ => rfl⟩ hhead rounds data').mp hmmap
  have hfits : offset.toNat % 4096 + (4096 - offset.toNat % 4096) ≤ 4096 := by omega
  have hlen := length_blockPiece hfits
  obtain ⟨m'', hloop', hm'⟩ := mmapRest_copies offset size (by omega) (by omega)
    (store (mappedFile (List.replicate (offset.toNat + size.toNat) 0)
      (offset &&& ~~~4095).toNat) (offset.toNat % 4096)
      ((kTestDataBlock.drop (offset.toNat % 4096)).take (4096 - offset.toNat % 4096))) hrounds
  obtain rfl : m' = m'' := by
    rw [hloop] at hloop'
    cases hloop'
    rfl
  have hlast : (syncedFile (List.replicate (offset.toNat + size.toNat) 0)
      (offset &&& ~~~4095).toNat (mappedSize size.toNat) m')[offset.toNat + size.toNat - 1]? =
      some 0 := by
    rw [getElem?_syncedFile _ _ _ _ _ (by rw [List.length_replicate]; omega)]
    split
    · next hin =>
      rw [hm'.outside _ (by omega), store_outside _ _ _ _ (by omega), mappedFile,
        List.getD_replicate _ (by omega)]
    · rw [List.getD_replicate _ (by omega)]
  obtain ⟨⟨content, calls'⟩, hwrite', hpattern⟩ := writeData_succeeds
    (fun _ => show (0 : Int) < 1 by decide) offset size (by omega)
    (List.replicate (offset.toNat + size.toNat) 0) hrounds
  rw [hwrite] at hwrite'
  cases hwrite'
  have hin := hpattern.inside (offset.toNat + size.toNat - 1) (by omega) (by omega)
  rw [hlast] at hin
  exact kTestDataBlock_nonzero (List.mem_of_getElem? hin.symm)

/-- `WriteDataMmap` does what `WriteData` does on block boundaries up to the last block of the
32-bit range, and from elsewhere only where the range ends at the next boundary. -/
theorem writeDataMmap_agrees_iff (offset size : UInt32) (hpos : 0 < size.toNat)
    (hroom : offset.toNat + size.toNat < 2 ^ 32) :
    Agrees offset size ↔
      (offset.toNat % 4096 = 0 ∧ size.toNat ≤ 2 ^ 32 - 4096) ∨
      (offset.toNat % 4096 ≠ 0 ∧ size.toNat = 4096 - offset.toNat % 4096) := by
  have hsize := size.toNat_lt
  have htotal := toNat_restSize offset size
  refine ⟨fun hagrees => ?_, agrees_of_mapped hpos hroom⟩
  by_contra hcond
  by_cases hlong : offset.toNat % 4096 ≠ 0 ∧ 4096 - offset.toNat % 4096 < size.toNat
  · exact not_agrees_displaced hroom hlong.1 hlong.2 hagrees
  · exact not_agrees_wrapped hpos (by omega) hagrees

/-- One byte behind a block boundary: the loop copies a block behind the mapped page. -/
theorem writeDataMmap_disagrees : ¬ ∀ offset size : UInt32, 0 < size.toNat →
    offset.toNat + size.toNat < 2 ^ 32 → Agrees offset size := by
  intro h
  obtain ⟨bound, hbound⟩ := h 1 1 (by decide) (by decide) ⟨fun _ _ => true, fun _ => true⟩
    (fun _ => 1) [0, 0] ⟨fun _ _ => rfl, fun _ => rfl⟩ (fun _ => by decide) (by decide)
  obtain ⟨data', calls, hmmap, -⟩ := hbound (bound + 1) (by omega)
  have hfault : writeDataMmap ⟨fun _ _ => true, fun _ => true⟩ (bound + 1) 1 1 [0, 0] =
      some (.fault, [0, 0]) := rfl
  rw [hfault] at hmmap
  cases hmmap

/-- Two blocks at a block boundary, and nine bytes up to one. -/
theorem writeDataMmap_agrees_iff_examples : Agrees 4096 8192 ∧ Agrees 4087 9 :=
  ⟨(writeDataMmap_agrees_iff 4096 8192 (by decide) (by decide)).mpr (.inl (by decide)),
    (writeDataMmap_agrees_iff 4087 9 (by decide) (by decide)).mpr (.inr (by decide))⟩

end PMTester
