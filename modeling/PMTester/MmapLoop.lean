import PMTester.WriteDataMmap

/-!
# The page loop of `WriteDataMmap`

Its exit test compares two 32-bit counters for inequality. The loop is looked at
on its own, with a mapping in which every `memcpy` has room.
-/
namespace PMTester
open Word Loop Memory

/-- One round of the loop in its counters: `num_written`, and the bytes copied so far. -/
def mmapCounters (total : UInt32) : UInt32 × Nat → Nat ⊕ (UInt32 × Nat)
  | (numWritten, copied) =>
    if numWritten ≠ total then
      let toWrite := if total < numWritten + kTestDataSize then total - numWritten
        else kTestDataSize
      .inr (numWritten + toWrite, copied + toWrite.toNat)
    else .inl copied

/-- The bytes that are copied before the loop. -/
def headCopied (offset : UInt32) : Nat :=
  if roundedOffset offset - offset ≠ 0 then
    (kTestDataSize - (offset &&& (kTestDataSize - 1))).toNat
  else 0

/-- The loop reaches its end, and not more than `size` bytes are copied by then, those in front of
the loop included. -/
def LoopEnds (offset size : UInt32) : Prop :=
  ∃ copied, Exits (mmapCounters (size - (roundedOffset offset - offset))) (0, headCopied offset)
    copied ∧ copied ≤ size.toNat

theorem mmapCounters_done (total : UInt32) (copied : Nat) :
    mmapCounters total (total, copied) = .inl copied := by
  simp [mmapCounters]

theorem mmapCounters_next {total n : UInt32} (hend : n ≠ total) (copied : Nat) :
    mmapCounters total (n, copied) =
      .inr (n + chunk total n, copied + (chunk total n).toNat) := by
  simp [mmapCounters, hend, chunk]

/-- A loop over a mapping that ends without a fault goes through these counters. -/
theorem exits_of_mapping {mapped : Nat} {diff total n : UInt32} {m m' : Mem} {rounds : Nat}
    (h : loop (mmapRound mapped diff total) rounds (n, m) = some (some m')) (copied : Nat) :
    ∃ copied', Exits (mmapCounters total) (n, copied) copied' := by
  induction rounds generalizing n m copied with
  | zero => cases h
  | succ rounds ih =>
    by_cases hend : n = total
    · subst hend
      exact ⟨copied, Exits.done (mmapCounters_done n copied)⟩
    · have hround := mmapRound_next mapped diff hend m
      cases hcopy : memcpyBlock mapped (diff.toNat + n.toNat) 0 (chunk total n).toNat m with
      | none =>
        rw [hcopy] at hround
        rw [loop_done hround] at h
        cases h
      | some m₁ =>
        rw [hcopy] at hround
        rw [loop_next hround] at h
        obtain ⟨copied', hexits⟩ := ih h (copied + (chunk total n).toNat)
        exact ⟨copied', Exits.next (mmapCounters_next hend copied) hexits⟩

/-- While the counter does not wrap, the loop ends and has copied what was left. -/
theorem mmapCounters_exits {total : UInt32} (htotal : total.toNat ≤ 2 ^ 32 - 4096) (left : Nat)
    {n : UInt32} (hn : n.toNat + left = total.toNat) (hblock : n.toNat % 4096 = 0 ∨ n = total)
    (copied : Nat) : Exits (mmapCounters total) (n, copied) (copied + left) := by
  induction left using Nat.strong_induction_on generalizing n copied with
  | _ left ih =>
    by_cases hend : n = total
    · subst hend
      obtain rfl : left = 0 := by omega
      exact Exits.done (mmapCounters_done n copied)
    · have hne : n.toNat ≠ total.toNat := fun h => hend (UInt32.toNat_inj.mp h)
      obtain ⟨hcount, hadd, hnext⟩ := chunk_spec htotal (by omega) (hblock.resolve_right hend)
      have hrest := ih (left - (chunk total n).toNat) (by omega) (by omega) hnext
        (copied + (chunk total n).toNat)
      rw [Nat.add_assoc, Nat.add_sub_cancel' (by omega)] at hrest
      exact Exits.next (mmapCounters_next hend copied) hrest

/-- Where the counter wraps before it reaches `total`, no number of rounds is enough. -/
theorem mmapCounters_never {total : UInt32} (htotal : 2 ^ 32 - 4096 < total.toNat) {n : UInt32}
    (hn : n.toNat % 4096 = 0) (copied : Nat) (rounds : Nat) :
    loop (mmapCounters total) rounds (n, copied) = none := by
  induction rounds generalizing n copied with
  | zero => rfl
  | succ rounds ih =>
    obtain ⟨hend, -, hnext⟩ := chunk_wraps htotal hn
    rw [loop_next (mmapCounters_next hend copied)]
    exact ih hnext _

theorem headCopied_eq (offset : UInt32) :
    headCopied offset = (4096 - offset.toNat % 4096) % 4096 := by
  have hhead := toNat_headSize offset
  have hsize : kTestDataSize.toNat = 4096 := rfl
  have hmask : kTestDataSize - 1 = 4095 := rfl
  have hcount : (kTestDataSize - (offset &&& 4095)).toNat = 4096 - offset.toNat % 4096 := by
    rw [UInt32.toNat_sub, toNat_pageOffset]
    omega
  unfold headCopied
  rw [hmask, hcount]
  by_cases hzero : roundedOffset offset - offset = 0
  · rw [if_neg (not_not.mpr hzero), ← hhead, hzero]
    rfl
  · have hne : (roundedOffset offset - offset).toNat ≠ 0 :=
      fun h => hzero (UInt32.toNat_inj.mp h)
    rw [if_pos hzero]
    omega

/-- The loop ends exactly where the range reaches its first block boundary and not more than the
last block of the 32-bit range behind it. -/
theorem mmap_loop_ends_iff (offset size : UInt32) :
    LoopEnds offset size ↔ (4096 - offset.toNat % 4096) % 4096 ≤ size.toNat ∧
      size.toNat - (4096 - offset.toNat % 4096) % 4096 ≤ 2 ^ 32 - 4096 := by
  have hsize := size.toNat_lt
  have htotal := toNat_restSize offset size
  constructor
  · rintro ⟨copied, ⟨rounds, hexits⟩, -⟩
    by_contra hcond
    rw [mmapCounters_never (by omega) rfl] at hexits
    cases hexits
  · rintro ⟨hhead, hrest⟩
    refine ⟨_, mmapCounters_exits (by omega) _ (Nat.zero_add _) (.inl rfl) _, ?_⟩
    rw [headCopied_eq]
    omega

/-- With the largest size from offset 0 on, the target is less than a block below `2 ^ 32`. -/
theorem mmap_loop_never_ends : ¬ ∀ offset size : UInt32, LoopEnds offset size := by
  intro h
  obtain ⟨copied, ⟨rounds, hexits⟩, -⟩ := h 0 4294967295
  have htotal : 2 ^ 32 - 4096 < ((4294967295 : UInt32) - (roundedOffset 0 - 0)).toNat := by decide
  rw [mmapCounters_never htotal rfl] at hexits
  cases hexits

end PMTester
