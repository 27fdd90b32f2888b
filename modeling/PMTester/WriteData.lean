import PMTester.Posix
import PMTester.Lib.Loop
import PMTester.Lib.Transfer

/-!
# `WriteData`

The helper of the workloads that fills a range of a file with known data. Its
three loops (to the next block boundary, whole blocks, the rest) hand pieces of
one 4096-byte block to `pwrite` and count in `unsigned int`. A `Target` is the
file together with the number of `pwrite` calls made; `answers` is what the
environment says to each call in turn.
-/
namespace PMTester
open Word Loop Transfer

/-- The size of the test data block. -/
def kTestDataSize : UInt32 := 4096

/-- The text of the test data block, without the terminating byte behind it. -/
def kTestDataBlock : List UInt8 :=
  (List.replicate 128 (path ['a', 'b', 'c', 'd', 'e', 'f', 'g', 'h', 'i', 'j', 'k', 'l', 'm', 'n',
    'o', 'p', 'q', 'r', 's', 't', 'u', 'v', 'w', 'x', 'y', 'z', '1', '2', '3', '4', '5',
    '6'])).flatten

structure Target where
  data : List UInt8
  calls : Nat
  deriving DecidableEq, Repr

/-- One `pwrite`: a positive answer is cut to the bytes asked for. -/
def pwrite (answers : Nat → Int) (bytes : List UInt8) (position : Nat) (f : Target) :
    Int × Target :=
  let res := granted maxRwCount bytes.length (answers f.calls)
  (res, ⟨storeAt f.data position (bytes.take res.toNat), f.calls + 1⟩)

/-- How a loop is left: the function returns, or the loop ends with `num_written`. -/
abbrev Exit := Except CmResult UInt32 × Target

/-- `int res = pwrite(fd, kTestDataBlock + source, count, position)` and the check of `res`.
Reading past the end of the block is a fault. -/
def pwriteBlock {σ : Type} (answers : Nat → Int) (source count position : UInt32)
    (next : UInt32 → σ) (f : Target) : Exit ⊕ (σ × Target) :=
  if kTestDataSize.toNat < source.toNat + count.toNat then .inl (.error .fault, f)
  else
    let written := pwrite answers ((kTestDataBlock.drop source.toNat).take count.toNat)
      position.toNat f
    let res := toInt written.1
    if res < 0 then .inl (.error (.ret res), written.2)
    else .inr (next (UInt32.ofInt res), written.2)

/-- One round of the loop up to the next block boundary. -/
def headRound (answers : Nat → Int) (offset toWrite : UInt32) :
    UInt32 × Target → Exit ⊕ (UInt32 × Target)
  | (numWritten, f) =>
    if numWritten < toWrite then
      let modOffset := (numWritten + offset) &&& (kTestDataSize - 1)
      if modOffset < kTestDataSize then
        pwriteBlock answers modOffset (toWrite - numWritten) (offset + numWritten)
          (fun res => numWritten + res) f
      else .inl (.error .assertFailed, f)
    else .inl (.ok numWritten, f)

/-- One round of the loop over the whole blocks. -/
def pageRound (answers : Nat → Int) (offset alignedSize : UInt32) :
    (UInt32 × UInt32) × Target → Exit ⊕ ((UInt32 × UInt32) × Target)
  | ((numWritten, alignedWritten), f) =>
    if alignedWritten < alignedSize then
      let modOffset := alignedWritten &&& (kTestDataSize - 1)
      pwriteBlock answers modOffset (kTestDataSize - modOffset) (offset + numWritten)
        (fun res => (numWritten + res, alignedWritten + res)) f
    else .inl (.ok numWritten, f)

/-- One round of the loop over the last part of a block. -/
def tailRound (answers : Nat → Int) (offset size : UInt32) :
    (UInt32 × UInt32) × Target → Exit ⊕ ((UInt32 × UInt32) × Target)
  | ((numWritten, endWritten), f) =>
    if numWritten < size then
      if endWritten < kTestDataSize then
        let modOffset := endWritten &&& (kTestDataSize - 1)
        pwriteBlock answers modOffset (size - numWritten) (offset + numWritten)
          (fun res => (numWritten + res, endWritten + res)) f
      else .inl (.error .assertFailed, f)
    else .inl (.ok numWritten, f)

/-- What follows a loop, unless it returned from the function. -/
def afterLoop (exit : Option Exit) (rest : UInt32 → Target → Option (CmResult × Target)) :
    Option (CmResult × Target) :=
  match exit with
  | none => none
  | some (.error r, f) => some (r, f)
  | some (.ok numWritten, f) => rest numWritten f

def roundedOffset (offset : UInt32) : UInt32 :=
  (offset + (kTestDataSize - 1)) &&& ~~~(kTestDataSize - 1)

def alignedSize (offset size : UInt32) : UInt32 :=
  if kTestDataSize ≤ size then (size - (roundedOffset offset - offset)) &&& ~~~(kTestDataSize - 1)
  else 0

/-- `WriteData`, with a bound on the rounds of each loop; `none` when a loop needs more. -/
def writeData (answers : Nat → Int) (rounds : Nat) (offset size : UInt32) (f : Target) :
    Option (CmResult × Target) :=
  let head :=
    if roundedOffset offset ≠ offset then
      let toWrite := if size < roundedOffset offset - offset then size
        else roundedOffset offset - offset
      loop (headRound answers offset toWrite) rounds (0, f)
    else some (.ok 0, f)
  afterLoop head fun numWritten f =>
    afterLoop (loop (pageRound answers offset (alignedSize offset size)) rounds
        ((numWritten, 0), f)) fun numWritten f =>
      if numWritten = size then some (.ret 0, f)
      else
        afterLoop (loop (tailRound answers offset size) rounds ((numWritten, 0), f))
          fun _ f => some (.ret 0, f)

/-- The first `n` bytes of the range are those of the block, the rest of the file is as before;
a gap behind the old end reads as zero. -/
structure Patterned (data data' : List UInt8) (offset n : Nat) : Prop where
  inside : ∀ p, offset ≤ p → p < offset + n → data'[p]? = kTestDataBlock[p % 4096]?
  outside : ∀ p, p < offset ∨ offset + n ≤ p → data'.getD p 0 = data.getD p 0
  length : data'.length = if n = 0 then data.length else max data.length (offset + n)

theorem Patterned.start (data : List UInt8) (offset : Nat) : Patterned data data offset 0 :=
  ⟨fun _ _ _ => by omega, fun _ _ => rfl, by simp⟩

/-- The old content determines the new one. -/
theorem Patterned.unique {data d d' : List UInt8} {offset n : Nat}
    (h : Patterned data d offset n) (h' : Patterned data d' offset n) : d = d' := by
  have hlen : d.length = d'.length := h.length.trans h'.length.symm
  apply List.ext_getElem hlen
  intro p hp hp'
  by_cases hin : offset ≤ p ∧ p < offset + n
  · have heq := (h.inside p hin.1 hin.2).trans (h'.inside p hin.1 hin.2).symm
    rw [List.getElem?_eq_getElem hp, List.getElem?_eq_getElem hp'] at heq
    exact Option.some.inj heq
  · have heq := (h.outside p (by omega)).trans (h'.outside p (by omega)).symm
    rwa [List.getD_eq_getElem _ _ hp, List.getD_eq_getElem _ _ hp'] at heq

theorem length_kTestDataBlock : kTestDataBlock.length = 4096 := by
  rw [kTestDataBlock, List.length_flatten, List.map_replicate, List.sum_replicate_nat]
  rfl

/-- A piece inside the block. -/
theorem length_blockPiece {source count : Nat} (h : source + count ≤ 4096) :
    ((kTestDataBlock.drop source).take count).length = count := by
  have hblock := length_kTestDataBlock
  rw [List.length_take, List.length_drop]
  omega

theorem getElem?_blockPiece (source : Nat) {count i : Nat} (hi : i < count) :
    ((kTestDataBlock.drop source).take count)[i]? = kTestDataBlock[source + i]? := by
  rw [List.getElem?_take_of_lt hi, List.getElem?_drop]

/-- One more piece of the block, stored where the pattern ends and taken from the same place of
the block. -/
theorem Patterned.extend {data data' : List UInt8} {offset n : Nat}
    (h : Patterned data data' offset n) {k : Nat} (hpos : 0 < k)
    (hk : (offset + n) % 4096 + k ≤ 4096) :
    Patterned data (storeAt data' (offset + n)
      ((kTestDataBlock.drop ((offset + n) % 4096)).take k)) offset (n + k) := by
  have hblock := length_kTestDataBlock
  have hlen := length_blockPiece hk
  have hne : (kTestDataBlock.drop ((offset + n) % 4096)).take k ≠ [] :=
    List.length_pos_iff.mp (by omega)
  constructor
  · intro p hlo hhi
    by_cases hp : p < offset + n
    · have hold := h.inside p hlo hp
      have hin : p < data'.length := by
        by_contra hout
        rw [List.getElem?_eq_none (by omega), List.getElem?_eq_getElem (by omega)] at hold
        cases hold
      have hlong : p < (storeAt data' (offset + n)
          ((kTestDataBlock.drop ((offset + n) % 4096)).take k)).length := by
        rw [length_storeAt, if_neg hne]
        omega
      have hsame := storeAt_before data' (offset + n) p
        ((kTestDataBlock.drop ((offset + n) % 4096)).take k) hp
      rw [List.getD_eq_getElem _ _ hlong, List.getD_eq_getElem _ _ hin] at hsame
      rw [← hold, List.getElem?_eq_getElem hlong, List.getElem?_eq_getElem hin, hsame]
    · obtain ⟨i, rfl⟩ := Nat.exists_eq_add_of_le (Nat.le_of_not_lt hp)
      have hmod : (offset + n + i) % 4096 = (offset + n) % 4096 + i := by omega
      rw [storeAt_inside _ _ _ _ (by omega), getElem?_blockPiece _ (by omega), hmod]
  · intro p hp
    rw [← h.outside p (by omega)]
    cases hp with
    | inl hp => exact storeAt_before _ _ _ _ (by omega)
    | inr hp => exact storeAt_behind _ _ _ _ (by omega)
  · rw [length_storeAt, if_neg hne, h.length, hlen, if_neg (show ¬ n + k = 0 by omega)]
    split <;> omega

/-- What the environment may answer: a positive count or an error that fits an `int`. -/
def PwriteAnswer (answer : Int) : Prop := answer ≠ 0 ∧ -2 ^ 31 ≤ answer

variable {answers : Nat → Int} (hans : ∀ i, PwriteAnswer (answers i))

include hans in
/-- A call for a nonempty piece of the block stores a nonempty part of it or fails. -/
theorem pwriteBlock_cases {σ : Type} (source count position : UInt32) (next : UInt32 → σ)
    (f : Target) (hcount : 0 < count.toNat) (hin : source.toNat + count.toNat ≤ 4096) :
    (0 < answers f.calls ∧ ∃ k : UInt32, 0 < k.toNat ∧ k.toNat ≤ count.toNat ∧
      pwriteBlock answers source count position next f = .inr (next k,
        ⟨storeAt f.data position.toNat ((kTestDataBlock.drop source.toNat).take k.toNat),
          f.calls + 1⟩)) ∨
    (answers f.calls < 0 ∧ pwriteBlock answers source count position next f =
      .inl (.error (.ret (answers f.calls)), ⟨f.data, f.calls + 1⟩)) := by
  have hinside : ¬ kTestDataSize.toNat < source.toNat + count.toNat := by
    have hsize : kTestDataSize.toNat = 4096 := rfl
    omega
  have hlen := length_blockPiece hin
  obtain ⟨hne, hlow⟩ := hans f.calls
  by_cases hneg : answers f.calls < 0
  · refine .inr ⟨hneg, ?_⟩
    have hgrant (cap available : Nat) :
        granted cap available (answers f.calls) = answers f.calls := if_pos hneg
    have hint : toInt (answers f.calls) = answers f.calls := toInt_of_fits _ hlow (by omega)
    have hnone : (answers f.calls).toNat = 0 := by omega
    simp [pwriteBlock, pwrite, hinside, hgrant, hint, hneg, hnone]
  · obtain ⟨n, hn, hpos, hle, hcap⟩ := granted_progress maxRwCount
      ((kTestDataBlock.drop source.toNat).take count.toNat).length (answers f.calls) (by decide)
      (by omega) (by omega)
    have hword : (UInt32.ofInt n).toNat = n := toNat_ofInt_natCast n (by omega)
    refine .inl ⟨by omega, UInt32.ofInt n, by omega, by omega, ?_⟩
    have hmin : min n count.toNat = n := by omega
    have hnonneg : ¬ (n : Int) < 0 := by omega
    simp only [pwriteBlock, pwrite, hinside, if_false, hn, toInt_count hcap, hnonneg, hword,
      Int.toNat_natCast, List.take_take, hmin]

/-- No call has failed so far, and the first `n` bytes of the range are written. -/
structure Progress (answers : Nat → Int) (data : List UInt8) (offset n : Nat) (f : Target) :
    Prop where
  calls : ∀ i < f.calls, 0 < answers i
  content : Patterned data f.data offset n

/-- The last call made is the first one that failed. -/
structure Failed (answers : Nat → Int) (data : List UInt8) (offset stop : Nat) (r : CmResult)
    (f : Target) : Prop where
  calls : ∃ last, f.calls = last + 1 ∧ (∀ i < last, 0 < answers i) ∧ answers last < 0 ∧
    r = .ret (answers last)
  content : ∃ n ≤ stop, Patterned data f.data offset n

/-- A loop that writes the range up to `stop`: `num` is `num_written`, `Ok` ties the loop's other
counter to it. -/
structure Segment {σ : Type} (answers : Nat → Int) (offset stop : Nat) (num : σ → UInt32)
    (Ok : σ → Prop) (body : σ × Target → Exit ⊕ (σ × Target)) : Prop where
  done : ∀ s f, Ok s → (num s).toNat = stop → body (s, f) = .inl (.ok (num s), f)
  step : ∀ s f, Ok s → (num s).toNat < stop → ∃ source count position next,
    body (s, f) = pwriteBlock answers source count position next f ∧
    source.toNat = (offset + (num s).toNat) % 4096 ∧ position.toNat = offset + (num s).toNat ∧
    0 < count.toNat ∧ source.toNat + count.toNat ≤ 4096 ∧ (num s).toNat + count.toNat ≤ stop ∧
    ∀ k : UInt32, k.toNat ≤ count.toNat →
      Ok (next k) ∧ (num (next k)).toNat = (num s).toNat + k.toNat

include hans in
/-- Such a loop ends: at `stop`, or with the first call that failed. -/
theorem Segment.run {σ : Type} {offset stop : Nat} {num : σ → UInt32} {Ok : σ → Prop}
    {body : σ × Target → Exit ⊕ (σ × Target)} (h : Segment answers offset stop num Ok body)
    {data : List UInt8} {s : σ} {f : Target} (hs : Ok s) (hle : (num s).toNat ≤ stop)
    (hf : Progress answers data offset (num s).toNat f) {rounds : Nat}
    (hrounds : stop - (num s).toNat < rounds) :
    (∃ n f', loop body rounds (s, f) = some (.ok n, f') ∧ n.toNat = stop ∧
      Progress answers data offset stop f') ∨
    (∃ r f', loop body rounds (s, f) = some (.error r, f') ∧
      Failed answers data offset stop r f') := by
  induction rounds generalizing s f with
  | zero => omega
  | succ rounds ih =>
    by_cases hstop : (num s).toNat = stop
    · exact .inl ⟨num s, f, loop_done (h.done s f hs hstop) _, hstop, hstop ▸ hf⟩
    · obtain ⟨source, count, position, next, hbody, hsource, hposition, hcount, hin, hroom, hnext⟩ :=
        h.step s f hs (by omega)
      rcases pwriteBlock_cases hans source count position next f hcount hin with
        ⟨hpos, k, hk, hkc, hcall⟩ | ⟨hneg, hcall⟩
      · obtain ⟨hok, hnum⟩ := hnext k hkc
        rw [loop_next (hbody.trans hcall)]
        refine ih hok (by omega) ⟨?_, ?_⟩ (by omega)
        · intro i hi
          rcases Nat.lt_succ_iff_lt_or_eq.mp hi with hi | rfl
          · exact hf.calls i hi
          · exact hpos
        · rw [hnum, hposition, hsource]
          exact hf.content.extend hk (by omega)
      · refine .inr ⟨_, _, loop_done (hbody.trans hcall) _, ?_, (num s).toNat, hle, hf.content⟩
        exact ⟨f.calls, rfl, hf.calls, hneg, rfl⟩

theorem toNat_blockMask : (kTestDataSize - 1).toNat = 2 ^ 12 - 1 := rfl

/-- The distance from an offset to the next block boundary, also where the sum wraps. -/
theorem toNat_headSize (offset : UInt32) :
    (roundedOffset offset - offset).toNat = (4096 - offset.toNat % 4096) % 4096 := by
  have hround : (roundedOffset offset).toNat =
      (offset.toNat + (2 ^ 12 - 1)) % 2 ^ 32 / 2 ^ 12 * 2 ^ 12 := by
    rw [roundedOffset, toNat_and_not_mask _ _ 12 toNat_blockMask, UInt32.toNat_add,
      toNat_blockMask]
  have hlt := offset.toNat_lt
  rw [UInt32.toNat_sub, hround]
  omega

theorem roundedOffset_eq_iff (offset : UInt32) :
    roundedOffset offset = offset ↔ offset.toNat % 4096 = 0 := by
  have hsize := toNat_headSize offset
  constructor
  · intro heq
    rw [heq, UInt32.sub_self] at hsize
    have hzero : (0 : UInt32).toNat = 0 := rfl
    omega
  · intro hmod
    have hzero : roundedOffset offset - offset = 0 := by
      apply UInt32.toNat_inj.mp
      rw [hsize, hmod]
      rfl
    rw [← UInt32.sub_add_cancel (roundedOffset offset) offset, hzero, UInt32.zero_add]

theorem toNat_alignedSize (offset size : UInt32) :
    (alignedSize offset size).toNat = if 4096 ≤ size.toNat
      then (size.toNat - (4096 - offset.toNat % 4096) % 4096) / 4096 * 4096 else 0 := by
  have hle : kTestDataSize ≤ size ↔ 4096 ≤ size.toNat := UInt32.le_iff_toNat_le
  have hlt := size.toNat_lt
  unfold alignedSize
  by_cases h : 4096 ≤ size.toNat
  · rw [if_pos (hle.mpr h), if_pos h, toNat_and_not_mask _ _ 12 toNat_blockMask, UInt32.toNat_sub,
      toNat_headSize]
    omega
  · rw [if_neg (fun hc => h (hle.mp hc)), if_neg h]
    rfl

/-- A counter or a position after one more call. -/
theorem toNat_counter_add {n k : UInt32} (h : n.toNat + k.toNat < 2 ^ 32) :
    (n + k).toNat = n.toNat + k.toNat := by
  rw [UInt32.toNat_add, Nat.mod_eq_of_lt h]

theorem headRound_segment (answers : Nat → Int) (offset toWrite : UInt32)
    (hsize : toWrite.toNat ≤ (4096 - offset.toNat % 4096) % 4096)
    (hroom : offset.toNat + toWrite.toNat ≤ 2 ^ 32) :
    Segment answers offset.toNat toWrite.toNat id (fun _ => True)
      (headRound answers offset toWrite) := by
  constructor
  · intro n f _ hn
    have hge : ¬ n < toWrite := by
      rw [UInt32.lt_iff_toNat_lt]
      exact Nat.not_lt_of_le (Nat.le_of_eq hn.symm)
    simp only [headRound, hge, if_false, id]
  · intro n f _ hn
    have hlt : n < toWrite := UInt32.lt_iff_toNat_lt.mpr hn
    simp only [id] at hn
    have hsource : ((n + offset) &&& (kTestDataSize - 1)).toNat =
        (offset.toNat + n.toNat) % 4096 := by
      rw [toNat_and_mask _ _ 12 toNat_blockMask, UInt32.toNat_add]
      omega
    have hassert : ((n + offset) &&& (kTestDataSize - 1)) < kTestDataSize := by
      rw [UInt32.lt_iff_toNat_lt, hsource]
      exact Nat.mod_lt _ (by decide)
    have hcount : (toWrite - n).toNat = toWrite.toNat - n.toNat :=
      UInt32.toNat_sub_of_le _ _ (UInt32.le_iff_toNat_le.mpr (Nat.le_of_lt hn))
    have hposition : (offset + n).toNat = offset.toNat + n.toNat := toNat_counter_add (by omega)
    refine ⟨_, toWrite - n, offset + n, fun res => n + res, ?_, hsource, hposition, ?_, ?_, ?_, ?_⟩
    · simp only [headRound, hlt, if_true, hassert]
    · omega
    · omega
    · simp only [id]
      omega
    · intro k hk
      have hadd : n.toNat + k.toNat < 2 ^ 32 := by
        have := toWrite.toNat_lt
        omega
      exact ⟨trivial, toNat_counter_add hadd⟩

theorem pageRound_segment (answers : Nat → Int) (offset pages : UInt32) (start : Nat)
    (haligned : 0 < pages.toNat → (offset.toNat + start) % 4096 = 0)
    (hpages : pages.toNat % 4096 = 0) (hstop : start + pages.toNat < 2 ^ 32)
    (hroom : offset.toNat + (start + pages.toNat) ≤ 2 ^ 32) :
    Segment answers offset.toNat (start + pages.toNat) Prod.fst
      (fun s => s.1.toNat = start + s.2.toNat) (pageRound answers offset pages) := by
  constructor
  · rintro ⟨n, a⟩ f (hok : n.toNat = start + a.toNat) (hn : n.toNat = start + pages.toNat)
    have hge : ¬ a < pages := by
      rw [UInt32.lt_iff_toNat_lt]
      omega
    simp only [pageRound, hge, if_false]
  · rintro ⟨n, a⟩ f (hok : n.toNat = start + a.toNat) (hn : n.toNat < start + pages.toNat)
    have hlt : a < pages := by
      rw [UInt32.lt_iff_toNat_lt]
      omega
    have hblock := haligned (by omega)
    have hmod : (a &&& (kTestDataSize - 1)).toNat = a.toNat % 4096 :=
      toNat_and_mask _ _ 12 toNat_blockMask
    have hcount : (kTestDataSize - (a &&& (kTestDataSize - 1))).toNat = 4096 - a.toNat % 4096 := by
      rw [UInt32.toNat_sub, hmod]
      have hsize : kTestDataSize.toNat = 4096 := rfl
      omega
    have hposition : (offset + n).toNat = offset.toNat + n.toNat := toNat_counter_add (by omega)
    refine ⟨a &&& (kTestDataSize - 1), kTestDataSize - (a &&& (kTestDataSize - 1)), offset + n,
      fun res => (n + res, a + res), ?_, ?_, hposition, ?_, ?_, ?_, ?_⟩
    · simp only [pageRound, hlt, if_true]
    · change _ = (offset.toNat + n.toNat) % 4096
      omega
    · omega
    · omega
    · change n.toNat + _ ≤ _
      omega
    · intro k hk
      have hnum : (n + k).toNat = n.toNat + k.toNat := toNat_counter_add (by omega)
      have hcounter : (a + k).toNat = a.toNat + k.toNat := toNat_counter_add (by omega)
      exact ⟨by simp only [hnum, hcounter, hok, Nat.add_assoc], hnum⟩

theorem tailRound_segment (answers : Nat → Int) (offset size : UInt32) (start : Nat)
    (haligned : start < size.toNat → (offset.toNat + start) % 4096 = 0)
    (hshort : size.toNat < start + 4096) (hroom : offset.toNat + size.toNat ≤ 2 ^ 32) :
    Segment answers offset.toNat size.toNat Prod.fst
      (fun s => s.1.toNat = start + s.2.toNat) (tailRound answers offset size) := by
  constructor
  · rintro ⟨n, e⟩ f (hok : n.toNat = start + e.toNat) (hn : n.toNat = size.toNat)
    have hge : ¬ n < size := by
      rw [UInt32.lt_iff_toNat_lt]
      omega
    simp only [tailRound, hge, if_false]
  · rintro ⟨n, e⟩ f (hok : n.toNat = start + e.toNat) (hn : n.toNat < size.toNat)
    have hsize := size.toNat_lt
    have hlt : n < size := UInt32.lt_iff_toNat_lt.mpr hn
    have hblock := haligned (by omega)
    have hassert : e < kTestDataSize := by
      rw [UInt32.lt_iff_toNat_lt]
      change e.toNat < 4096
      omega
    have hmod : (e &&& (kTestDataSize - 1)).toNat = e.toNat % 4096 :=
      toNat_and_mask _ _ 12 toNat_blockMask
    have hcount : (size - n).toNat = size.toNat - n.toNat :=
      UInt32.toNat_sub_of_le _ _ (UInt32.le_iff_toNat_le.mpr (Nat.le_of_lt hn))
    have hposition : (offset + n).toNat = offset.toNat + n.toNat := toNat_counter_add (by omega)
    refine ⟨e &&& (kTestDataSize - 1), size - n, offset + n, fun res => (n + res, e + res), ?_, ?_,
      hposition, ?_, ?_, ?_, ?_⟩
    · simp only [tailRound, hlt, if_true, hassert]
    · change _ = (offset.toNat + n.toNat) % 4096
      omega
    · omega
    · omega
    · change n.toNat + _ ≤ _
      omega
    · intro k hk
      have hnum : (n + k).toNat = n.toNat + k.toNat := toNat_counter_add (by omega)
      have hcounter : (e + k).toNat = e.toNat + k.toNat := toNat_counter_add (by omega)
      exact ⟨by simp only [hnum, hcounter, hok, Nat.add_assoc], hnum⟩

/-- The function has returned 0 with the whole range written, or the value of a failed call. -/
def Ends (answers : Nat → Int) (data : List UInt8) (offset size : Nat) : CmResult × Target → Prop
  | (r, f) => (r = .ret 0 ∧ Progress answers data offset size f) ∨
      Failed answers data offset size r f

include hans in
/-- A loop of the function, together with what follows it. -/
theorem Segment.afterLoop {σ : Type} {offset stop size : Nat} {num : σ → UInt32} {Ok : σ → Prop}
    {body : σ × Target → Exit ⊕ (σ × Target)} (h : Segment answers offset stop num Ok body)
    {data : List UInt8} {s : σ} {f : Target} (hs : Ok s) (hle : (num s).toNat ≤ stop)
    (hf : Progress answers data offset (num s).toNat f) {rounds : Nat} (hsize : stop ≤ size)
    (hrounds : size < rounds) {rest : UInt32 → Target → Option (CmResult × Target)}
    (hrest : ∀ n f', n.toNat = stop → Progress answers data offset stop f' →
      ∃ out, rest n f' = some out ∧ Ends answers data offset size out) :
    ∃ out, afterLoop (loop body rounds (s, f)) rest = some out ∧
      Ends answers data offset size out := by
  have hmore : stop - (num s).toNat < rounds := by omega
  rcases h.run hans hs hle hf hmore with ⟨n, f', hloop, hn, hf'⟩ | ⟨r, f', hloop, hfail⟩
  · obtain ⟨out, hout, hends⟩ := hrest n f' hn hf'
    exact ⟨out, by rw [hloop]; exact hout, hends⟩
  · obtain ⟨n, hn, hpattern⟩ := hfail.content
    exact ⟨(r, f'), by rw [hloop]; rfl, .inr ⟨hfail.calls, n, by omega, hpattern⟩⟩

/-- Where the first loop stops: at the next block boundary, or before it at the end of the range. -/
theorem toNat_toWrite (offset size : UInt32) :
    (if size < roundedOffset offset - offset then size else roundedOffset offset - offset).toNat =
      min size.toNat ((4096 - offset.toNat % 4096) % 4096) := by
  have hhead := toNat_headSize offset
  split
  · next hless =>
    have := UInt32.lt_iff_toNat_lt.mp hless
    omega
  · next hless =>
    have := mt UInt32.lt_iff_toNat_lt.mpr hless
    omega

/-- The second loop writes whole blocks and leaves less than one. -/
theorem alignedSize_bounds (offset size : UInt32) {start : Nat}
    (hstart : start = min size.toNat ((4096 - offset.toNat % 4096) % 4096)) :
    (alignedSize offset size).toNat % 4096 = 0 ∧
      start + (alignedSize offset size).toNat ≤ size.toNat ∧
      size.toNat < start + (alignedSize offset size).toNat + 4096 := by
  rw [toNat_alignedSize]
  split <;> omega

include hans in
/-- The loops behind the first one, which stopped at `start`. -/
theorem writeData_rest_ends (offset size : UInt32) {data : List UInt8} {rounds start : Nat}
    {n : UInt32} {f : Target} (hn : n.toNat = start)
    (hstart : start = min size.toNat ((4096 - offset.toNat % 4096) % 4096))
    (hf : Progress answers data offset.toNat start f) (hrounds : size.toNat < rounds)
    (hroom : offset.toNat + size.toNat ≤ 2 ^ 32) :
    ∃ out,
      (afterLoop (loop (pageRound answers offset (alignedSize offset size)) rounds ((n, 0), f))
        fun numWritten f => if numWritten = size then some (.ret 0, f) else
          afterLoop (loop (tailRound answers offset size) rounds ((numWritten, 0), f))
            fun _ f => some (.ret 0, f)) = some out ∧
      Ends answers data offset.toNat size.toNat out := by
  have hsize := size.toNat_lt
  obtain ⟨haligned, hle, hlt⟩ := alignedSize_bounds offset size hstart
  have hboundary : start < size.toNat → (offset.toNat + start) % 4096 = 0 := by omega
  have hpage := pageRound_segment answers offset (alignedSize offset size) start
    (fun hpos => hboundary (by omega)) haligned (by omega) (by omega)
  refine hpage.afterLoop hans (s := (n, 0)) hn (by simp only; omega) (by rw [hn]; exact hf) hle
    hrounds ?_
  intro n' f' hn' hf'
  by_cases hdone : n' = size
  · refine ⟨_, if_pos hdone, .inl ⟨rfl, ?_⟩⟩
    rw [← hdone, hn']
    exact hf'
  · rw [if_neg hdone]
    have hnext : start + (alignedSize offset size).toNat < size.toNat →
        (offset.toNat + (start + (alignedSize offset size).toNat)) % 4096 = 0 := by
      intro hless
      have hblock := hboundary (by omega)
      omega
    have htail := tailRound_segment answers offset size _ hnext hlt hroom
    refine htail.afterLoop hans (s := (n', 0)) hn' (by simp only; omega) (by rw [hn']; exact hf')
      (Nat.le_refl _) hrounds ?_
    intro n'' f'' hn'' hf''
    exact ⟨_, rfl, .inl ⟨rfl, hf''⟩⟩

include hans in
theorem writeData_ends (offset size : UInt32) (hroom : offset.toNat + size.toNat ≤ 2 ^ 32)
    (data : List UInt8) {rounds : Nat} (hrounds : size.toNat < rounds) :
    ∃ out, writeData answers rounds offset size ⟨data, 0⟩ = some out ∧
      Ends answers data offset.toNat size.toNat out := by
  have hstart : Progress answers data offset.toNat 0 ⟨data, 0⟩ :=
    ⟨fun _ hi => absurd hi (Nat.not_lt_zero _), Patterned.start data _⟩
  by_cases hblock : roundedOffset offset = offset
  · have hmod := (roundedOffset_eq_iff offset).mp hblock
    have hzero : (0 : UInt32).toNat = 0 := rfl
    simp only [writeData, hblock, ne_eq, not_true_eq_false, if_false]
    exact writeData_rest_ends hans offset size hzero (by omega) hstart hrounds hroom
  · have hwrite := toNat_toWrite offset size
    have hhead := headRound_segment answers offset (if size < roundedOffset offset - offset
      then size else roundedOffset offset - offset) (by omega) (by omega)
    simp only [writeData, ne_eq, hblock, not_false_eq_true, if_true]
    refine hhead.afterLoop hans (s := 0) trivial (Nat.zero_le _) hstart (by omega) hrounds ?_
    intro n f hn hf
    exact writeData_rest_ends hans offset size hn hwrite hf hrounds hroom

/-- Where no call fails. -/
theorem writeData_succeeds {answers : Nat → Int} (hpos : ∀ i, 0 < answers i)
    (offset size : UInt32) (hroom : offset.toNat + size.toNat ≤ 2 ^ 32) (data : List UInt8)
    {rounds : Nat} (hrounds : size.toNat < rounds) :
    ∃ f, writeData answers rounds offset size ⟨data, 0⟩ = some (.ret 0, f) ∧
      Patterned data f.data offset.toNat size.toNat := by
  have hans (i : Nat) : PwriteAnswer (answers i) := by
    have := hpos i
    constructor <;> omega
  obtain ⟨⟨r, f⟩, hout, ⟨rfl, hf⟩ | hfail⟩ := writeData_ends hans offset size hroom data hrounds
  · exact ⟨f, hout, hf.content⟩
  · obtain ⟨last, -, -, hneg, -⟩ := hfail.calls
    have := hpos last
    omega

/-- From some number of rounds on `WriteData` returns, without a fault and past its assertions. If
no call fails it returns 0 and the range holds the pattern; if one fails, that call is the last
one, its value is returned, and the pattern fills a prefix of the range. -/
theorem writeData_exact (answers : Nat → Int) (hans : ∀ i, PwriteAnswer (answers i))
    (offset size : UInt32) (hroom : offset.toNat + size.toNat ≤ 2 ^ 32) (data : List UInt8) :
    ∃ bound, ∀ rounds ≥ bound, ∃ r f,
      writeData answers rounds offset size ⟨data, 0⟩ = some (.ret r, f) ∧
      ((∀ i < f.calls, 0 < answers i) →
        r = 0 ∧ Patterned data f.data offset.toNat size.toNat) ∧
      (∀ i < f.calls, answers i < 0 → f.calls = i + 1 ∧ r = answers i ∧
        ∃ n ≤ size.toNat, Patterned data f.data offset.toNat n) := by
  refine ⟨size.toNat + 1, fun rounds hrounds => ?_⟩
  obtain ⟨⟨r, f⟩, hout, ⟨rfl, hf⟩ | hfail⟩ := writeData_ends hans offset size hroom data hrounds
  · refine ⟨0, f, hout, fun _ => ⟨rfl, hf.content⟩, fun i hi hneg => ?_⟩
    have := hf.calls i hi
    omega
  · obtain ⟨last, hlast, hbefore, hneg, rfl⟩ := hfail.calls
    refine ⟨answers last, f, hout, fun hpos => ?_, fun i hi hi' => ?_⟩
    · have := hpos last (by omega)
      omega
    · by_cases heq : i = last
      · exact ⟨heq ▸ hlast, by rw [heq], hfail.content⟩
      · have := hbefore i (by omega)
        omega

/-- Twenty bytes across a block boundary behind the end of a short file, in pieces. -/
theorem writeData_exact_pieces :
    ∃ bound, ∀ rounds ≥ bound, ∃ f,
      writeData (fun i => if i = 0 then 3 else 100) rounds 4090 20 ⟨[7], 0⟩ = some (.ret 0, f) ∧
      Patterned [7] f.data 4090 20 := by
  have hans (i : Nat) : (0 : Int) < if i = 0 then 3 else 100 := by
    split <;> decide
  obtain ⟨bound, hbound⟩ := writeData_exact (fun i => if i = 0 then 3 else 100)
    (fun i => by have := hans i; constructor <;> omega) 4090 20 (by decide) [7]
  refine ⟨bound, fun rounds hrounds => ?_⟩
  obtain ⟨r, f, hrun, hdone, -⟩ := hbound rounds hrounds
  obtain ⟨rfl, hpattern⟩ := hdone fun i _ => hans i
  exact ⟨f, hrun, hpattern⟩

end PMTester
