import PMTester.LogRoundTrip

/-!
# A change log that was cut off

The process that writes the log may stop at any byte. `GetChangeData` gives up
with -1 when the body of a mod is missing. When the file ends inside a size
field, the bytes that are missing are those the local variable held before.
-/
namespace PMTester

open Bytes Memory Word Loop Transfer

namespace Tester

/-- A read that is granted more than what is left delivers what is left. -/
theorem read_rest (answers : Nat → Int) (hans : ∀ n, 8 ≤ answers n) (tail : List UInt8)
    (hlen : tail.length ≤ 8) (calls : Nat) :
    Transfer.read maxRwCount answers 8 ⟨tail, calls⟩ =
      ((tail.length : Int), tail, ⟨[], calls + 1⟩) := by
  have hgranted : granted maxRwCount (min 8 tail.length) (answers calls) = tail.length := by
    have hmax : 8 ≤ maxRwCount := by decide
    have hcalls := hans calls
    unfold granted
    rw [if_neg (by omega)]
    omega
  simp [Transfer.read, hgranted]

/-- A chunk whose end is missing is given up. -/
theorem readChunk_short (answers : Nat → Int) (hans : ∀ n, 1 ≤ answers n) (rounds size : Nat)
    (data rest : List UInt8) (calls : Nat) (hshort : data.length + rest.length < size)
    (hr : rest.length < rounds) :
    ∃ f, loop (readChunkBody answers size) rounds (data, ⟨rest, calls⟩) = some (none, f) := by
  induction rounds generalizing data rest calls with
  | zero => omega
  | succ rounds ih =>
    have hlt : data.length < size := by omega
    by_cases hrest : rest = []
    · subst hrest
      have hcalls := hans calls
      have hneg : ¬ answers calls < 0 := by omega
      have hmin : min (answers calls) 0 = 0 := by omega
      have h0 : toInt 0 = 0 := by decide
      refine ⟨⟨[], calls + 1⟩, loop_done ?_ rounds⟩
      simp [readChunkBody, hlt, Transfer.read, granted, hneg, hmin, h0]
    · obtain ⟨n, hpos, -, hle, hcap, hread⟩ :=
        read_progress maxRwCount answers (size - data.length) ⟨rest, calls⟩ (by decide) (by omega)
          hrest (hans _)
      have hn : toInt (n : Int) = n := toInt_count hcap
      have hbody : readChunkBody answers size (data, ⟨rest, calls⟩) =
          .inr (data ++ rest.take n, ⟨rest.drop n, calls + 1⟩) := by
        have hne : n ≠ 0 := by omega
        simp [readChunkBody, hlt, hread, hn, hne]
      have hle' : n ≤ rest.length := hle
      obtain ⟨f, hnext⟩ := ih (data ++ rest.take n) (rest.drop n) (calls + 1)
        (by simp only [List.length_append, List.length_take, List.length_drop]; omega)
        (by rw [List.length_drop]; omega)
      exact ⟨f, by rw [loop_next hbody, hnext]⟩

/-- A frame that ends behind its size field is given up with -1. -/
theorem getChangeDataBody_body_cut (env : ReadEnv) (hsize : ∀ n, 8 ≤ env.sizeAnswers n)
    (hbody : ∀ n, 1 ≤ env.bodyAnswers n) (rounds : Nat) (mods : List (List DiskMod))
    (frame : List UInt8) (mod : DiskMod) (hframe : Framed frame mod) (j : Nat) (hlo : 8 ≤ j)
    (hhi : j < frame.length) (hr : j < rounds) (calls : Nat) :
    getChangeDataBody env rounds (mods, ⟨frame.take j, calls⟩) = .inl (some (.ret (-1), mods)) := by
  have hread := read_size env.sizeAnswers hsize (frame.take j) (by rw [List.length_take]; omega)
    calls
  have hfront : (frame.take j).take 8 = frame.take 8 := by
    rw [List.take_take, Nat.min_eq_left hlo]
  have hlen : (frame.take 8).length = 8 := by
    rw [List.length_take]
    omega
  rw [hfront] at hread
  have hstale : (le 8 (env.stale (calls + 1)).toNat).drop (frame.take 8).length = [] := by
    apply List.drop_eq_nil_of_le
    simp [hlen]
  have h8 : toInt 8 = 8 := by decide
  have hbound : ¬ (2 ^ 63 ≤ frame.length) := by
    have := hframe.bound
    omega
  have hsmall : ¬ (frame.length < 8) := by omega
  have hrest : ((frame.take j).drop 8).length = j - 8 := by
    rw [List.length_drop, List.length_take]
    omega
  obtain ⟨f, hchunk⟩ := readChunk_short env.bodyAnswers hbody rounds frame.length (frame.take 8)
    ((frame.take j).drop 8) (calls + 1) (by omega) (by omega)
  simp only [getChangeDataBody, hread, h8, hstale, List.append_nil, hframe.size, hbound, hsmall,
    hchunk, ↓reduceIte]
  rfl

/-- The size that is formed when the file ends inside a size field. -/
def formedSize (tail : List UInt8) (stale : UInt64) : Nat :=
  ofBe (tail ++ (le 8 stale.toNat).drop tail.length)

/-- What a round does when the file ends inside a size field. -/
theorem getChangeDataBody_size_cut (env : ReadEnv) (hsize : ∀ n, 8 ≤ env.sizeAnswers n)
    (hbody : ∀ n, 1 ≤ env.bodyAnswers n) (rounds : Nat) (mods : List (List DiskMod))
    (tail : List UInt8) (hpos : tail ≠ []) (hlen : tail.length ≤ 8) (calls : Nat) (hr : 0 < rounds) :
    (8 < formedSize tail (env.stale (calls + 1)) →
      formedSize tail (env.stale (calls + 1)) < 2 ^ 63 →
      getChangeDataBody env rounds (mods, ⟨tail, calls⟩) = .inl (some (.ret (-1), mods))) ∧
    (formedSize tail (env.stale (calls + 1)) < 8 →
      getChangeDataBody env rounds (mods, ⟨tail, calls⟩) = .inl (some (.fault, mods))) := by
  have hread := read_rest env.sizeAnswers hsize tail hlen calls
  have hres : toInt (tail.length : Int) = tail.length := toInt_of_fits _ (by omega) (by omega)
  have hneg : ¬ (tail.length : Int) < 0 := by omega
  have hzero : ¬ (tail.length : Int) = 0 := by
    have := List.length_pos_iff.mpr hpos
    omega
  obtain ⟨buf, hbuf⟩ : ∃ buf, tail ++ (le 8 (env.stale (calls + 1)).toNat).drop tail.length = buf :=
    ⟨_, rfl⟩
  have hbuflen : buf.length = 8 := by
    rw [← hbuf, List.length_append, List.length_drop, length_le]
    omega
  unfold formedSize
  rw [hbuf]
  constructor
  · intro hlo hhi
    have hbound : ¬ 2 ^ 63 ≤ ofBe buf := by omega
    have hsmall : ¬ ofBe buf < 8 := by omega
    obtain ⟨f, hchunk⟩ := readChunk_short env.bodyAnswers hbody rounds (ofBe buf) buf [] (calls + 1)
      (by rw [List.length_nil]; omega) (by simpa using hr)
    simp only [getChangeDataBody, hread, hres, hneg, hzero, hbuf, hbound, hsmall, hchunk,
      ↓reduceIte]
  · intro hsmall
    have hbound : ¬ 2 ^ 63 ≤ ofBe buf := by omega
    simp only [getChangeDataBody, hread, hres, hneg, hzero, hbuf, hbound, hsmall, ↓reduceIte]

/-- The bytes of a size that are there are its high bytes, the others are stale. -/
theorem formedSize_cut (size high low : Nat) (hwidth : high + low = 8) (stale : UInt64) :
    ∃ rest < 256 ^ low, (stale = 0 → rest = 0) ∧
      formedSize ((be 8 size).take high) stale =
        size / 256 ^ low % 256 ^ high * 256 ^ low + rest := by
  have htake : (be 8 size).take high = be high (size / 256 ^ low) := by
    rw [← hwidth, be_add]
    exact List.take_left' (length_be _ _)
  have hle : le 8 stale.toNat = le high stale.toNat ++ le low (stale.toNat / 256 ^ high) := by
    rw [← hwidth, le_add]
  have hdrop : (le 8 stale.toNat).drop high = le low (stale.toNat / 256 ^ high) := by
    rw [hle]
    exact List.drop_left' (length_le _ _)
  refine ⟨ofBe (le low (stale.toNat / 256 ^ high)), ?_, ?_, ?_⟩
  · simpa using ofBe_lt (le low (stale.toNat / 256 ^ high))
  · rintro rfl
    simp [ofBe_le_zero]
  · rw [formedSize, htake, length_be, hdrop, ofBe_append, ofBe_be, length_le]

end Tester

/-- The bytes of a complete log. -/
def logOf (mods : List DiskMod) : List UInt8 := mods.flatMap DiskMod.format

@[simp] theorem logOf_nil : logOf [] = [] := rfl

@[simp] theorem logOf_append (xs ys : List DiskMod) : logOf (xs ++ ys) = logOf xs ++ logOf ys := by
  simp [logOf]

@[simp] theorem logOf_cons (m : DiskMod) (rest : List DiskMod) :
    logOf (m :: rest) = m.format ++ logOf rest := rfl

/-- The first `n` bytes of the log are the log of its first mods. -/
def OnBoundary (mods : List DiskMod) (n : Nat) : Prop :=
  ∃ i, (logOf mods).take n = logOf (mods.take i)

/-- The first `n` bytes of the log end `j` bytes into the frame of `m`. -/
def EndsInside (mods : List DiskMod) (n : Nat) (m : DiskMod) (j : Nat) : Prop :=
  ∃ before after, mods = before ++ m :: after ∧ n = (logOf before).length + j ∧ 0 < j ∧
    j < m.format.length

theorem EndsInside.take {mods : List DiskMod} {n : Nat} {m : DiskMod} {j : Nat}
    {before after : List DiskMod} (hmods : mods = before ++ m :: after)
    (hn : n = (logOf before).length + j) (hj : j < m.format.length) :
    (logOf mods).take n = logOf before ++ m.format.take j := by
  rw [hmods, hn, logOf_append, logOf_cons, List.take_length_add_append,
    List.take_append_of_le_length (by omega)]

/-- Every prefix ends on a boundary or inside a frame. -/
theorem boundary_or_inside (mods : List DiskMod) (n : Nat) :
    OnBoundary mods n ∨ ∃ m j, EndsInside mods n m j := by
  induction mods generalizing n with
  | nil => exact Or.inl ⟨0, by simp⟩
  | cons m rest ih =>
    by_cases hzero : n = 0
    · exact Or.inl ⟨0, by simp [hzero]⟩
    by_cases hlt : n < m.format.length
    · exact Or.inr ⟨m, n, [], rest, rfl, by simp, by omega, hlt⟩
    · have hfront : (logOf (m :: rest)).take n =
          m.format ++ (logOf rest).take (n - m.format.length) := by
        rw [logOf_cons, List.take_append, List.take_of_length_le (by omega)]
      rcases ih (n - m.format.length) with ⟨i, hi⟩ | ⟨m', j, before, after, hrest, hn, hpos, hj⟩
      · exact Or.inl ⟨i + 1, by rw [hfront, hi, List.take_succ_cons, logOf_cons]⟩
      · refine Or.inr ⟨m', j, m :: before, after, by rw [hrest]; rfl, ?_, hpos, hj⟩
        rw [logOf_cons, List.length_append]
        omega

/-- No prefix does both. -/
theorem EndsInside.not_boundary {mods : List DiskMod} {n : Nat} {m : DiskMod} {j : Nat}
    (h : EndsInside mods n m j) : ¬ OnBoundary mods n := by
  rintro ⟨i, hi⟩
  obtain ⟨before, after, hmods, hn, hpos, hj⟩ := h
  rw [EndsInside.take hmods hn hj, hmods, List.take_append] at hi
  have hlen := congrArg List.length hi
  rw [logOf_append, List.length_append, List.length_append, List.length_take] at hlen
  by_cases hi' : i ≤ before.length
  · have hsplit : (logOf (before.take i)).length ≤ (logOf before).length := by
      conv_rhs => rw [← List.take_append_drop i before, logOf_append, List.length_append]
      omega
    rw [Nat.sub_eq_zero_of_le hi', List.take_zero, logOf_nil, List.length_nil] at hlen
    omega
  · obtain ⟨k, hk⟩ : ∃ k, i - before.length = k + 1 := ⟨i - before.length - 1, by omega⟩
    rw [hk, List.take_succ_cons, logOf_cons, List.length_append,
      List.take_of_length_le (by omega)] at hlen
    omega

/-- The prefix ends inside a size field of which only zero bytes are there. -/
def SizeUnknown (mods : List DiskMod) (n : Nat) : Prop :=
  ∃ m j, EndsInside mods n m j ∧ j < 8 ∧ m.format.length < 256 ^ (8 - j)

/-- The first `n` bytes of the written log are read with `SUCCESS` if they end on a boundary
and rejected with a negative value if not, whatever the local size variable holds. -/
def CutRejected (fresh : Nat → Mem) (answers sizeAnswers bodyAnswers : Nat → Int)
    (mods : List DiskMod) (n : Nat) : Prop :=
  ∀ stale, ∃ bound, ∀ rounds ≥ bound, ∃ k r segs,
    RecordCmFsOps.serialize fresh answers rounds mods ⟨[], 0⟩ = some (.ret 0, k) ∧
      Tester.getChangeData ⟨sizeAnswers, bodyAnswers, stale⟩ rounds [] ⟨k.written.take n, 0⟩ =
        some (.ret r, segs) ∧
      (r = Tester.success ↔ OnBoundary mods n) ∧ (r ≠ Tester.success → r < 0)

/-- The reader gets through the complete frames in front of a cut. -/
theorem getChangeData_cut (env : Tester.ReadEnv) (hsize : ∀ n, 8 ≤ env.sizeAnswers n)
    (hbody : ∀ n, 1 ≤ env.bodyAnswers n) (before : List DiskMod)
    (hmods : ∀ m ∈ before, m.Writable) (tail : List UInt8) (rounds : Nat)
    (hr : (logOf before).length < rounds) (result : CmResult)
    (hlast : ∀ mods calls, Tester.getChangeDataBody env rounds (mods, ⟨tail, calls⟩) =
      .inl (some (result, mods))) :
    Tester.getChangeData env rounds [] ⟨logOf before ++ tail, 0⟩ =
      some (result, segments (before.map DiskMod.wire)) := by
  have hlog : ∀ e ∈ before.map fun m => (m.format, m.wire), Tester.Framed e.1 e.2 := by
    intro e he
    obtain ⟨m, hm, rfl⟩ := List.mem_map.mp he
    exact (hmods m hm).framed
  have hflat : (before.map fun m => (m.format, m.wire)).flatMap (·.1) = logOf before := by
    simp [logOf, List.flatMap_map]
  have hcount := Tester.length_le_of_framed _ hlog
  rw [hflat] at hcount
  obtain ⟨fuel, hfuel⟩ : ∃ n, rounds =
      (before.map fun m => (m.format, m.wire)).length + (n + 1) :=
    ⟨rounds - (before.map fun m => (m.format, m.wire)).length - 1, by omega⟩
  obtain ⟨calls, hrun⟩ := Tester.getChangeData_frames env hsize hbody rounds _ hlog
    (by rw [hflat]; exact hr) tail (fuel + 1) [] 0
  rw [hflat, ← hfuel] at hrun
  rw [Tester.getChangeData, hrun, loop_done (hlast _ calls), ← Tester.foldl_addMod_nil]
  simp [Function.comp_def]

/-- The high bytes of a size that fits its field, as a number. -/
theorem high_bytes (size high low : Nat) (hwidth : high + low = 8) (hsize : size < 2 ^ 33) :
    size / 256 ^ low % 256 ^ high = size / 256 ^ low := by
  apply Nat.mod_eq_of_lt
  apply Nat.div_lt_of_lt_mul
  rw [← Nat.pow_add, Nat.add_comm, hwidth]
  omega

/-- A size field that ends inside a frame: its first bytes are those of the frame's length. -/
theorem formedSize_inside {m : DiskMod} (hm : m.Writable) {j : Nat} (hlt : j < 8)
    (stale : UInt64) : ∃ rest < 256 ^ (8 - j), (stale = 0 → rest = 0) ∧
      Tester.formedSize (m.format.take j) stale =
        m.format.length / 256 ^ (8 - j) * 256 ^ (8 - j) + rest := by
  have hfield : m.format.take j = (be 8 m.getSerializeSize).take j := by
    rw [DiskMod.format, List.take_append_of_le_length (by rw [length_be]; omega)]
  obtain ⟨rest, hrest, hzero, hformed⟩ :=
    Tester.formedSize_cut m.getSerializeSize j (8 - j) (by omega) stale
  rw [hm.size, high_bytes _ _ _ (by omega) hm.length_lt, ← hm.size, ← hfield] at hformed
  exact ⟨rest, hrest, hzero, by rw [hformed, hm.size]⟩

/-- A cut inside a frame, when enough bytes of the size are there. -/
theorem getChangeData_inside {mods : List DiskMod} (hmods : ∀ m ∈ mods, m.Writable)
    (env : Tester.ReadEnv) (hsize : ∀ n, 8 ≤ env.sizeAnswers n)
    (hbody : ∀ n, 1 ≤ env.bodyAnswers n) {n : Nat} {m : DiskMod} {j : Nat}
    (hinside : EndsInside mods n m j) (hknown : j < 8 → 256 ^ (8 - j) ≤ m.format.length)
    (rounds : Nat) (hr : (logOf mods).length < rounds) :
    ∃ segs, Tester.getChangeData env rounds [] ⟨(logOf mods).take n, 0⟩ =
      some (.ret (-1), segs) := by
  obtain ⟨before, after, rfl, hn, hpos, hj⟩ := hinside
  have hm : m.Writable := hmods m (by simp)
  rw [logOf_append, logOf_cons, List.length_append, List.length_append] at hr
  rw [EndsInside.take rfl hn hj]
  refine ⟨_, getChangeData_cut env hsize hbody before (fun m hm => hmods m (by simp [hm])) _ rounds
    (by omega) _ fun segs calls => ?_⟩
  by_cases hlt : j < 8
  · have hlen : (m.format.take j).length = j := by
      rw [List.length_take]
      omega
    obtain ⟨rest, hrest, -, hformed⟩ := formedSize_inside hm hlt (env.stale (calls + 1))
    have hbound := hm.length_lt
    have hhigh : 256 ^ (8 - j) ≤ m.format.length / 256 ^ (8 - j) * 256 ^ (8 - j) :=
      Nat.le_mul_of_pos_left _ (Nat.div_pos (hknown hlt) (Nat.pow_pos (by decide)))
    have hdiv := Nat.div_mul_le_self m.format.length (256 ^ (8 - j))
    have hbyte : 256 ^ 1 ≤ 256 ^ (8 - j) := Nat.pow_le_pow_right (by decide) (by omega)
    have hwide : 256 ^ (8 - j) ≤ 256 ^ 7 := Nat.pow_le_pow_right (by decide) (by omega)
    exact (Tester.getChangeDataBody_size_cut env hsize hbody rounds segs (m.format.take j)
      (List.ne_nil_of_length_pos (by omega)) (by omega) calls (by omega)).1 (by omega) (by omega)
  · exact Tester.getChangeDataBody_body_cut env hsize hbody rounds segs m.format m.wire hm.framed j
      (by omega) hj (by omega) calls

/-- A cut inside a size field of which only zero bytes are there, above a zero variable. -/
theorem getChangeData_unknown {mods : List DiskMod} (hmods : ∀ m ∈ mods, m.Writable)
    (env : Tester.ReadEnv) (hsize : ∀ n, 8 ≤ env.sizeAnswers n)
    (hbody : ∀ n, 1 ≤ env.bodyAnswers n) (hstale : ∀ n, env.stale n = 0) {n : Nat}
    (hunknown : SizeUnknown mods n) (rounds : Nat) (hr : (logOf mods).length < rounds) :
    ∃ segs, Tester.getChangeData env rounds [] ⟨(logOf mods).take n, 0⟩ = some (.fault, segs) := by
  obtain ⟨m, j, ⟨before, after, rfl, hn, hpos, hj⟩, hlt, hshort⟩ := hunknown
  have hm : m.Writable := hmods m (by simp)
  rw [logOf_append, logOf_cons, List.length_append, List.length_append] at hr
  rw [EndsInside.take rfl hn hj]
  refine ⟨_, getChangeData_cut env hsize hbody before (fun m hm => hmods m (by simp [hm])) _ rounds
    (by omega) _ fun segs calls => ?_⟩
  have hlen : (m.format.take j).length = j := by
    rw [List.length_take]
    omega
  obtain ⟨rest, -, hzero, hformed⟩ := formedSize_inside hm hlt (env.stale (calls + 1))
  rw [hzero (hstale _), Nat.div_eq_of_lt hshort] at hformed
  exact (Tester.getChangeDataBody_size_cut env hsize hbody rounds segs (m.format.take j)
    (List.ne_nil_of_length_pos (by omega)) (by omega) calls (by omega)).2 (by omega)

theorem cutRejected_iff (mods : List DiskMod) (hmods : ∀ m ∈ mods, m.Writable)
    (fresh : Nat → Mem) (answers sizeAnswers bodyAnswers : Nat → Int) (hans : ∀ n, 1 ≤ answers n)
    (hsize : ∀ n, 8 ≤ sizeAnswers n) (hbody : ∀ n, 1 ≤ bodyAnswers n) (n : Nat) :
    CutRejected fresh answers sizeAnswers bodyAnswers mods n ↔ ¬ SizeUnknown mods n := by
  have hwrite : ∀ rounds ≥ (logOf mods).length + 1, ∃ calls,
      RecordCmFsOps.serialize fresh answers rounds mods ⟨[], 0⟩ =
        some (.ret 0, ⟨logOf mods, calls⟩) := by
    intro rounds hr
    simpa [logOf] using
      RecordCmFsOps.serialize_eq fresh answers hans mods hmods rounds (by unfold logOf at hr; omega)
        ⟨[], 0⟩
  constructor
  · intro hrejected hunknown
    obtain ⟨bound, hread⟩ := hrejected fun _ => 0
    let rounds := bound + (logOf mods).length + 1
    obtain ⟨k, r, segs, hwritten, hresult, -⟩ := hread rounds (by omega)
    obtain ⟨calls, hwritten'⟩ := hwrite rounds (by omega)
    rw [hwritten] at hwritten'
    cases hwritten'
    obtain ⟨segs', hfault⟩ := getChangeData_unknown hmods ⟨sizeAnswers, bodyAnswers, fun _ => 0⟩
      hsize hbody (fun _ => rfl) hunknown rounds (by omega)
    rw [hresult] at hfault
    cases hfault
  · intro hknown stale
    refine ⟨(logOf mods).length + 1, fun rounds hr => ?_⟩
    obtain ⟨calls, hwritten⟩ := hwrite rounds hr
    rcases boundary_or_inside mods n with hboundary | ⟨m, j, hinside⟩
    · obtain ⟨i, hi⟩ := hboundary
      have hle : (logOf (mods.take i)).length < rounds := by
        rw [← hi, List.length_take]
        omega
      have hend := getChangeData_cut ⟨sizeAnswers, bodyAnswers, stale⟩ hsize hbody (mods.take i)
        (fun m hm => hmods m (List.mem_of_mem_take hm)) [] rounds hle _
        (Tester.getChangeDataBody_end _ hsize rounds)
      rw [List.append_nil, ← hi] at hend
      exact ⟨_, Tester.success, _, hwritten, hend, iff_of_true rfl ⟨i, hi⟩, fun hne => absurd rfl hne⟩
    · have hbytes : j < 8 → 256 ^ (8 - j) ≤ m.format.length := by
        intro hlt
        by_contra hshort
        exact hknown ⟨m, j, hinside, hlt, by omega⟩
      obtain ⟨segs, hresult⟩ := getChangeData_inside hmods ⟨sizeAnswers, bodyAnswers, stale⟩ hsize
        hbody hinside hbytes rounds (by omega)
      exact ⟨_, -1, segs, hwritten, hresult, iff_of_false (by decide) hinside.not_boundary,
        fun _ => by decide⟩

/-- A cut-off log is rejected, and a complete one accepted, except where the cut leaves only
zero bytes of a size field. -/
theorem cut_log_rejected_iff (mods : List DiskMod) (hrec : ∀ m ∈ mods, Producible m)
    (hkept : ∀ m ∈ mods, m.modType ≠ .kRemoveMod) (hnul : ∀ m ∈ mods, (0 : UInt8) ∉ m.path)
    (hpath : ∀ m ∈ mods, m.path.length < 2 ^ 31 - 2)
    (hdata : ∀ m ∈ mods, m.fileModData.length < 2 ^ 31 - 16) (fresh : Nat → Mem)
    (answers sizeAnswers bodyAnswers : Nat → Int) (hans : ∀ n, 1 ≤ answers n)
    (hsize : ∀ n, 8 ≤ sizeAnswers n) (hbody : ∀ n, 1 ≤ bodyAnswers n) (n : Nat) :
    CutRejected fresh answers sizeAnswers bodyAnswers mods n ↔ ¬ SizeUnknown mods n :=
  cutRejected_iff mods (fun m hm => ⟨DiskMod.encodable_of_recorded m
    (recorded_of_producible m (hrec m hm)) (hpath m hm), hnul m hm, hdata m hm, hkept m hm⟩) fresh
    answers sizeAnswers bodyAnswers hans hsize hbody n

/-- The mod of a run that makes one file. -/
def createdMod : DiskMod :=
  { path := path ['/', 'f'], postModStats := { stIno := 1, stMode := sIfreg } }

theorem posixMods_create : posixMods (directoryWriteRun.take 1) = [createdMod] := by
  decide +kernel

theorem cut_log_rejected_iff_create :
    CutRejected (fun _ _ => 170) (fun _ => 3) (fun _ => 8) (fun _ => 1)
      (posixMods (directoryWriteRun.take 1)) 9 := by
  refine (cut_log_rejected_iff _ (producible_posixMods _) (by decide +kernel) (by decide +kernel)
    (by decide +kernel) (by decide +kernel) _ _ _ _ (fun _ => by decide) (fun _ => by decide)
    (fun _ => by decide) 9).mpr ?_
  rintro ⟨m, j, ⟨before, after, hmods, hn, -, -⟩, hlt, -⟩
  rw [posixMods_create] at hmods
  cases before with
  | nil =>
    rw [logOf_nil, List.length_nil] at hn
    omega
  | cons m' before => simp at hmods

/-- Of the log of one new file a single byte is left; with zeros behind it, the size is 0. -/
theorem one_byte_faults :
    (∀ m ∈ posixMods (directoryWriteRun.take 1), Producible m ∧ m.modType ≠ .kRemoveMod ∧
      (0 : UInt8) ∉ m.path ∧ m.path.length < 2 ^ 31 - 2 ∧ m.fileModData.length < 2 ^ 31 - 16) ∧
      ¬ CutRejected (fun _ _ => 170) (fun _ => 3) (fun _ => 8) (fun _ => 1)
        (posixMods (directoryWriteRun.take 1)) 1 := by
  have hkept : ∀ m ∈ posixMods (directoryWriteRun.take 1), m.modType ≠ .kRemoveMod ∧
      (0 : UInt8) ∉ m.path ∧ m.path.length < 2 ^ 31 - 2 ∧
      m.fileModData.length < 2 ^ 31 - 16 := by decide +kernel
  refine ⟨fun m hm => ⟨producible_posixMods _ m hm, hkept m hm⟩, fun hrejected => ?_⟩
  refine (cutRejected_iff _ (fun m hm => ?_) _ _ _ _ (fun _ => by decide) (fun _ => by decide)
    (fun _ => by decide) 1).mp hrejected ?_
  · obtain ⟨ht, hnul, hpath, hdata⟩ := hkept m hm
    have hrec := recorded_of_producible m (producible_posixMods _ m hm)
    exact ⟨DiskMod.encodable_of_recorded m hrec hpath, hnul, hdata, ht⟩
  · exact ⟨createdMod, 1, ⟨[], [], posixMods_create, rfl, by decide, by decide +kernel⟩, by decide,
      by decide +kernel⟩

end PMTester
