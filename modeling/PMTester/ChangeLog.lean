import PMTester.RecordOps
import PMTester.Codec
import PMTester.Lib.Loop
import PMTester.Lib.Transfer

/-!
# The change log

`RecordCmFsOps::Serialize` writes one frame for each mod, `Tester::GetChangeData`
reads them back and cuts them into segments. Both loop over partial transfers;
`rounds` bounds the rounds of every loop, and `none` means that it was too small.
-/
namespace PMTester

open Bytes Memory Word Loop Transfer

namespace RecordCmFsOps

/-- One round of `WriteWhole`; the state is `written` and the file. -/
def writeWholeBody (answers : Nat → Int) (size : Nat) (data : List UInt8) :
    Nat × Sink → (Int × Sink) ⊕ (Nat × Sink)
  | (written, k) =>
    if written < size then
      let (n, k) := write maxRwCount answers ((data.drop written).take (size - written)) k
      let res := toInt n
      if res < 0 then .inl (res, k) else .inr (toUlong (written + res.toNat), k)
    else .inl (0, k)

def writeWhole (answers : Nat → Int) (rounds size : Nat) (data : List UInt8) (k : Sink) :
    Option (Int × Sink) :=
  loop (writeWholeBody answers size data) rounds (0, k)

/-- `Serialize` on the mods still to be written. `fresh` is what each buffer holds
when it is allocated; a store behind the buffer's end is a fault. -/
def serialize (fresh : Nat → Mem) (answers : Nat → Int) (rounds : Nat) :
    List DiskMod → Sink → Option (CmResult × Sink)
  | [], k => some (.ret 0, k)
  | mod :: mods, k =>
    let s := mod.serialize
    if s.stores.any fun st => s.size < st.stop then some (.fault, k)
    else
      match s.outcome with
      | .nullptr => some (.ret (-1), k)
      | .assertFailed => some (.assertFailed, k)
      | .badRead => some (.fault, k)
      | .buffer =>
        match writeWhole answers rounds s.size (s.frame (fresh mods.length)) k with
        | none => none
        | some (res, k) =>
          if res < 0 then some (.ret (-1), k) else serialize fresh answers rounds mods k

/-- Short writes, however many, leave the whole buffer in the file. -/
theorem writeWhole_rest (answers : Nat → Int) (hans : ∀ n, 1 ≤ answers n) (data : List UInt8)
    (hdata : data.length < 2 ^ 64) (rounds written : Nat) (k : Sink) (hw : written ≤ data.length)
    (hr : data.length - written < rounds) :
    ∃ calls, loop (writeWholeBody answers data.length data) rounds (written, k) =
      some (0, ⟨k.written ++ data.drop written, calls⟩) := by
  induction rounds generalizing written k with
  | zero => omega
  | succ rounds ih =>
    by_cases hlt : written < data.length
    · have htake : (data.drop written).take (data.length - written) = data.drop written :=
        List.take_of_length_le (by simp)
      have hne : data.drop written ≠ [] := by simp [hlt]
      obtain ⟨n, hpos, hle, hcap, hwrite⟩ :=
        write_progress maxRwCount answers (data.drop written) k (by decide) hne (hans _)
      rw [List.length_drop] at hle
      have hn : toInt (n : Int) = n := toInt_count hcap
      have hbody : writeWholeBody answers data.length data (written, k) =
          .inr (written + n, ⟨k.written ++ (data.drop written).take n, k.calls + 1⟩) := by
        have hneg : ¬ ((n : Int) < 0) := by omega
        simp [writeWholeBody, hlt, htake, hwrite, hn, hneg, toUlong_of_lt _
          (show written + n < 2 ^ 64 by omega)]
      obtain ⟨calls, hrest⟩ := ih (written + n) ⟨_, k.calls + 1⟩ (by omega) (by omega)
      refine ⟨calls, ?_⟩
      rw [loop_next hbody, hrest, List.append_assoc, ← List.drop_drop, List.take_append_drop]
    · have hdone : written = data.length := by omega
      exact ⟨k.calls, loop_done (by simp [writeWholeBody, hdone]) rounds⟩

theorem writeWhole_eq (answers : Nat → Int) (hans : ∀ n, 1 ≤ answers n) (data : List UInt8)
    (hdata : data.length < 2 ^ 64) (rounds : Nat) (k : Sink) (hr : data.length < rounds) :
    ∃ calls, writeWhole answers rounds data.length data k =
      some (0, ⟨k.written ++ data, calls⟩) := by
  simpa [writeWhole] using writeWhole_rest answers hans data hdata rounds 0 k (by omega) (by omega)

end RecordCmFsOps

namespace Tester

def success : Int := 0

/-- What the environment decides for `GetChangeData`: the answers to the reads of
a size and of a body, and what the local size variable holds before each read. -/
structure ReadEnv where
  sizeAnswers : Nat → Int
  bodyAnswers : Nat → Int
  stale : Nat → UInt64

/-- The end of the loop of `GetChangeData`: a checkpoint opens a new segment. -/
def addMod (mods : List (List DiskMod)) (mod : DiskMod) : List (List DiskMod) :=
  if mod.modType = .kCheckpointMod then mods ++ [[]]
  else
    let mods := if mods.isEmpty then [[]] else mods
    mods.dropLast ++ [mods.getLast?.getD [] ++ [mod]]

/-- One round of the loop that fills the buffer. `data` is the part filled so far,
`read_data` bytes long. -/
def readChunkBody (answers : Nat → Int) (nextChunkSize : Nat) :
    List UInt8 × Source → (Option (List UInt8) × Source) ⊕ (List UInt8 × Source)
  | (data, f) =>
    if data.length < nextChunkSize then
      let (res, bytes, f) := Transfer.read maxRwCount answers (nextChunkSize - data.length) f
      if toInt res ≤ 0 then .inl (none, f) else .inr (data ++ bytes, f)
    else .inl (some data, f)

/-- One round of `GetChangeData`; the state is `mods_` and the file. No array has more than
`PTRDIFF_MAX` bytes, and one of less than 8 has no room for the size that is copied into it. -/
def getChangeDataBody (env : ReadEnv) (rounds : Nat) : List (List DiskMod) × Source →
    Option (CmResult × List (List DiskMod)) ⊕ (List (List DiskMod) × Source)
  | (mods, f) =>
    let (res, bytes, f) := Transfer.read maxRwCount env.sizeAnswers 8 f
    let readRes := toInt res
    if readRes < 0 then .inl (some (.ret readRes, mods))
    else if readRes = 0 then .inl (some (.ret success, mods))
    else
      let buf := bytes ++ (le 8 (env.stale f.calls).toNat).drop bytes.length
      let nextChunkSize := ofBe buf
      if 2 ^ 63 ≤ nextChunkSize then .inl (some (.badAlloc, mods))
      else if nextChunkSize < 8 then .inl (some (.fault, mods))
      else
        match loop (readChunkBody env.bodyAnswers nextChunkSize) rounds (buf, f) with
        | none => .inl none
        | some (none, _) => .inl (some (.ret (-1), mods))
        | some (some data, f) =>
          match DiskMod.deserialize data with
          | .error _ => .inl (some (.fault, mods))
          | .ok mod => .inr (addMod mods mod, f)

def getChangeData (env : ReadEnv) (rounds : Nat) (mods : List (List DiskMod)) (f : Source) :
    Option (CmResult × List (List DiskMod)) :=
  (loop (getChangeDataBody env rounds) rounds (mods, f)).join

/-- Short reads, however many, fill the buffer with the bytes that come next. -/
theorem readChunk_eq (answers : Nat → Int) (hans : ∀ n, 1 ≤ answers n) (rounds : Nat)
    (data rest after : List UInt8) (calls : Nat) (hr : rest.length < rounds) :
    ∃ calls', loop (readChunkBody answers (data ++ rest).length) rounds
      (data, ⟨rest ++ after, calls⟩) = some (some (data ++ rest), ⟨after, calls'⟩) := by
  induction rounds generalizing data rest calls with
  | zero => omega
  | succ rounds ih =>
    by_cases hrest : rest = []
    · subst hrest
      exact ⟨calls, loop_done (by simp [readChunkBody]) rounds⟩
    · have hlen : 0 < rest.length := List.length_pos_iff.mpr hrest
      obtain ⟨n, hpos, hle, -, hcap, hread⟩ :=
        read_progress maxRwCount answers rest.length ⟨rest ++ after, calls⟩ (by decide) hlen
          (by simp [hrest]) (hans _)
      have hn : toInt (n : Int) = n := toInt_count hcap
      have hbody : readChunkBody answers (data ++ rest).length (data, ⟨rest ++ after, calls⟩) =
          .inr (data ++ rest.take n, ⟨rest.drop n ++ after, calls + 1⟩) := by
        have hne : n ≠ 0 := by omega
        simp [readChunkBody, hlen, hread, hn, hne, List.take_append_of_le_length hle,
          List.drop_append_of_le_length hle]
      obtain ⟨calls', hnext⟩ := ih (data ++ rest.take n) (rest.drop n) (calls + 1) (by
        rw [List.length_drop]
        omega)
      rw [List.append_assoc, List.take_append_drop] at hnext
      exact ⟨calls', by rw [loop_next hbody, hnext]⟩

/-- A byte list that `GetChangeData` reads as one mod. -/
structure Framed (frame : List UInt8) (mod : DiskMod) : Prop where
  long : 8 ≤ frame.length
  bound : frame.length < 2 ^ 63
  size : ofBe (frame.take 8) = frame.length
  decoded : DiskMod.deserialize frame = .ok mod

/-- A complete read of the size field. -/
theorem read_size (answers : Nat → Int) (hans : ∀ n, 8 ≤ answers n) (bytes : List UInt8)
    (hlen : 8 ≤ bytes.length) (calls : Nat) :
    Transfer.read maxRwCount answers 8 ⟨bytes, calls⟩ =
      (8, bytes.take 8, ⟨bytes.drop 8, calls + 1⟩) := by
  have hgranted : granted maxRwCount (min 8 bytes.length) (answers calls) = 8 := by
    have hmax : 8 ≤ maxRwCount := by decide
    have hcalls := hans calls
    unfold granted
    rw [if_neg (by omega)]
    omega
  simp [Transfer.read, hgranted]

theorem read_end (answers : Nat → Int) (hans : ∀ n, 8 ≤ answers n) (calls : Nat) :
    Transfer.read maxRwCount answers 8 ⟨[], calls⟩ = (0, [], ⟨[], calls + 1⟩) := by
  have hcalls := hans calls
  have hneg : ¬ (answers calls < 0) := by omega
  have hmin : min (answers calls) 0 = 0 := by omega
  simp [Transfer.read, granted, hneg, hmin]

/-- One round reads one frame. -/
theorem getChangeDataBody_frame (env : ReadEnv) (hsize : ∀ n, 8 ≤ env.sizeAnswers n)
    (hbody : ∀ n, 1 ≤ env.bodyAnswers n) (rounds : Nat) (mods : List (List DiskMod))
    (frame after : List UInt8) (mod : DiskMod) (hframe : Framed frame mod) (calls : Nat)
    (hr : frame.length < rounds) :
    ∃ calls', getChangeDataBody env rounds (mods, ⟨frame ++ after, calls⟩) =
      .inr (addMod mods mod, ⟨after, calls'⟩) := by
  have hlong := hframe.long
  have hfront : (frame ++ after).take 8 = frame.take 8 := List.take_append_of_le_length hlong
  have hback : (frame ++ after).drop 8 = frame.drop 8 ++ after :=
    List.drop_append_of_le_length hlong
  have hread := read_size env.sizeAnswers hsize (frame ++ after)
    (by rw [List.length_append]; omega) calls
  rw [hfront, hback] at hread
  obtain ⟨calls', hchunk⟩ := readChunk_eq env.bodyAnswers hbody rounds (frame.take 8)
    (frame.drop 8) after (calls + 1) (by rw [List.length_drop]; omega)
  rw [List.take_append_drop] at hchunk
  have hstale : (le 8 (env.stale (calls + 1)).toNat).drop (frame.take 8).length = [] := by
    apply List.drop_eq_nil_of_le
    simp [hlong]
  have h8 : toInt 8 = 8 := by decide
  have hbound : ¬ (2 ^ 63 ≤ frame.length) := by
    have := hframe.bound
    omega
  have hsmall : ¬ (frame.length < 8) := by omega
  refine ⟨calls', ?_⟩
  simp only [getChangeDataBody, hread, h8, hstale, List.append_nil, hframe.size, hbound, hsmall,
    hchunk, hframe.decoded, ↓reduceIte]
  rfl

/-- Frames are read each once and in order, whatever stands behind them. -/
theorem getChangeData_frames (env : ReadEnv) (hsize : ∀ n, 8 ≤ env.sizeAnswers n)
    (hbody : ∀ n, 1 ≤ env.bodyAnswers n) (rounds : Nat) (log : List (List UInt8 × DiskMod))
    (hlog : ∀ e ∈ log, Framed e.1 e.2) (hr : (log.flatMap (·.1)).length < rounds)
    (tail : List UInt8) (fuel : Nat) (mods : List (List DiskMod)) (calls : Nat) :
    ∃ calls', loop (getChangeDataBody env rounds) (log.length + fuel)
        (mods, ⟨log.flatMap (·.1) ++ tail, calls⟩) =
      loop (getChangeDataBody env rounds) fuel
        ((log.map (·.2)).foldl addMod mods, ⟨tail, calls'⟩) := by
  induction log generalizing mods calls with
  | nil => exact ⟨calls, by simp⟩
  | cons e log ih =>
    simp only [List.flatMap_cons, List.length_append] at hr
    obtain ⟨calls', hstep⟩ := getChangeDataBody_frame env hsize hbody rounds mods e.1
      (log.flatMap (·.1) ++ tail) e.2 (hlog e (by simp)) calls (by omega)
    obtain ⟨calls'', hrest⟩ := ih (fun e' he' => hlog e' (by simp [he'])) (by omega)
      (addMod mods e.2) calls'
    refine ⟨calls'', ?_⟩
    rw [List.flatMap_cons, List.append_assoc, List.length_cons, Nat.add_right_comm,
      loop_next hstep, hrest]
    rfl

/-- At the end of the file the loop ends with `SUCCESS`. -/
theorem getChangeDataBody_end (env : ReadEnv) (hsize : ∀ n, 8 ≤ env.sizeAnswers n) (rounds : Nat)
    (mods : List (List DiskMod)) (calls : Nat) :
    getChangeDataBody env rounds (mods, ⟨[], calls⟩) = .inl (some (.ret success, mods)) := by
  have h0 : toInt 0 = 0 := by decide
  simp [getChangeDataBody, read_end _ hsize, h0]

theorem length_le_of_framed (log : List (List UInt8 × DiskMod))
    (hlog : ∀ e ∈ log, Framed e.1 e.2) : log.length ≤ (log.flatMap (·.1)).length := by
  induction log with
  | nil => simp
  | cons e log ih =>
    have hlong := (hlog e (by simp)).long
    have hrest := ih fun e' he' => hlog e' (by simp [he'])
    simp only [List.flatMap_cons, List.length_append, List.length_cons]
    omega

theorem getChangeData_eq (env : ReadEnv) (hsize : ∀ n, 8 ≤ env.sizeAnswers n)
    (hbody : ∀ n, 1 ≤ env.bodyAnswers n) (rounds : Nat) (log : List (List UInt8 × DiskMod))
    (hlog : ∀ e ∈ log, Framed e.1 e.2) (hr : (log.flatMap (·.1)).length < rounds)
    (mods : List (List DiskMod)) (calls : Nat) :
    getChangeData env rounds mods ⟨log.flatMap (·.1), calls⟩ =
      some (.ret success, (log.map (·.2)).foldl addMod mods) := by
  have hcount := length_le_of_framed log hlog
  obtain ⟨fuel, rfl⟩ : ∃ n, rounds = log.length + (n + 1) :=
    ⟨rounds - log.length - 1, by omega⟩
  obtain ⟨calls', hrun⟩ := getChangeData_frames env hsize hbody _ log hlog hr [] (fuel + 1) mods
    calls
  rw [List.append_nil] at hrun
  rw [getChangeData, hrun, loop_done (getChangeDataBody_end env hsize _ _ calls')]
  rfl

end Tester

end PMTester
