import PMTester.CutLog

/-!
# Which change logs are accepted

`GetChangeData` on any bytes. It ends on every file, and it returns success
exactly on the files that are frames one after the other, with the mods of these
frames in their segments. Allocations of less than 2 ^ 63 bytes are granted.
-/
namespace PMTester

open Bytes Memory Word Loop Transfer

theorem except_bind_ok {ε α β : Type} {x : Except ε α} {f : α → Except ε β} {b : β}
    (h : x >>= f = .ok b) : ∃ a, x = .ok a ∧ f a = .ok b := by
  cases x with
  | error e => cases h
  | ok a => exact ⟨a, rfl, h⟩

namespace DiskMod

theorem take_sound {n : Nat} {data bytes rest : List UInt8} (h : take n data = .ok (bytes, rest)) :
    data = bytes ++ rest ∧ bytes.length = n := by
  unfold take at h
  split at h
  · rename_i hn
    cases h
    exact ⟨(List.take_append_drop n data).symm, by simp [hn]⟩
  · cases h

theorem takeUint_sound {width value : Nat} {data rest : List UInt8}
    (h : takeUint width data = .ok (value, rest)) :
    data = be width value ++ rest ∧ value < 256 ^ width := by
  unfold takeUint at h
  split at h
  · rename_i bytes rest' htake
    cases h
    obtain ⟨rfl, rfl⟩ := take_sound htake
    exact ⟨by rw [be_ofBe], ofBe_lt bytes⟩
  · cases h

/-- The path read is what stands before the first NUL. -/
theorem readPath_sound {path tmp data result rest : List UInt8}
    (h : readPath path tmp data = .ok (result, rest)) :
    ∃ p, data = p ++ 0 :: rest ∧ (0 : UInt8) ∉ p ∧ result = path ++ tmp ++ p := by
  induction data generalizing path tmp with
  | nil => cases h
  | cons c data ih =>
    rw [readPath] at h
    split at h
    · rename_i hc
      cases h
      exact ⟨[], by simp [hc], by simp, by simp⟩
    · rename_i hc
      have hnul (p : List UInt8) (hp : (0 : UInt8) ∉ p) : (0 : UInt8) ∉ c :: p := by
        simp [hp, Ne.symm hc]
      split at h
      · obtain ⟨p, rfl, hp, rfl⟩ := ih h
        exact ⟨c :: p, rfl, hnul p hp, by simp⟩
      · obtain ⟨p, rfl, hp, rfl⟩ := ih h
        exact ⟨c :: p, rfl, hnul p hp, by simp⟩

/-- The layout of a mod behind its size. Any byte but 0 marks a directory. -/
def layout (dm : DiskMod) (dir : UInt8) : List UInt8 :=
  formatHeader dm ++
    if dm.headerOnly then []
    else dm.path ++ [0, dir] ++ if dm.nameOnly then [] else formatRange dm

/-- A mod as a frame can carry it. -/
structure Carried (dm : DiskMod) (dir : UInt8) : Prop where
  fields : dm.wire = dm
  path : (0 : UInt8) ∉ dm.path
  dir : ¬ dm.headerOnly → dm.directoryMod = (dir != 0)
  data : dm.headerOnly ∨ dm.nameOnly ∨ dm.rangeOnly ∨ dm.fileModData.length = dm.fileModLen.toNat

theorem dirByte_ne_zero {dir : Nat} (h : dir < 256 ^ 1) : (dir != 0) = (UInt8.ofNat dir != 0) := by
  rw [Bool.eq_iff_iff]
  simp only [bne_iff_ne, ne_eq, not_iff_not, ← UInt8.toNat_inj, UInt8.toNat_ofNat']
  simp
  omega

/-- The bytes say what was decoded from them. -/
theorem deserialize_sound {data : List UInt8} {m : DiskMod} (h : deserialize data = .ok m) :
    ∃ dir slack, Carried m dir ∧ data = data.take 8 ++ (layout m dir ++ slack) := by
  unfold deserialize at h
  obtain ⟨⟨size, data₁⟩, htake, h₁⟩ := except_bind_ok h
  obtain ⟨⟨t, data₂⟩, ht, h₂⟩ := except_bind_ok h₁
  obtain ⟨⟨o, data₃⟩, ho, h₅⟩ := except_bind_ok h₂
  clear h h₁ h₂
  obtain ⟨rfl, hsize⟩ := take_sound htake
  obtain ⟨rfl, htlt⟩ := takeUint_sound ht
  obtain ⟨rfl, holt⟩ := takeUint_sound ho
  obtain ⟨modType, rfl⟩ : ∃ modType : ModType, t = modType.code :=
    ⟨_, (ModType.code_ofCode htlt).symm⟩
  obtain ⟨modOpts, rfl⟩ : ∃ modOpts : ModOpts, o = modOpts.code :=
    ⟨_, (ModOpts.code_ofCode holt).symm⟩
  rw [List.take_left' hsize]
  simp only [ModType.ofCode_code, ModOpts.ofCode_code] at h₅
  split at h₅
  · rename_i hh
    cases h₅
    exact ⟨0, data₃, ⟨by simp [wire, hh], by simp, fun hnot => absurd hh hnot, .inl hh⟩,
      by simp [layout, hh, formatHeader]⟩
  · rename_i hh
    obtain ⟨⟨path, data₄⟩, hpath, h₆⟩ := except_bind_ok h₅
    obtain ⟨⟨dir, data₅⟩, hdir, h₇⟩ := except_bind_ok h₆
    clear h₅ h₆
    obtain ⟨p, rfl, hnul, rfl⟩ := readPath_sound hpath
    obtain ⟨rfl, hlt⟩ := takeUint_sound hdir
    have hbyte : be 1 dir = [UInt8.ofNat dir] := rfl
    have hh' : ¬ (modType = .kCheckpointMod ∨ modType = .kSyncMod) := hh
    dsimp only at h₇
    rw [dirByte_ne_zero hlt] at h₇
    split at h₇
    · rename_i hn
      cases h₇
      refine ⟨UInt8.ofNat dir, data₅, ⟨?_, hnul, fun _ => rfl, .inr (.inl hn)⟩, ?_⟩
      · simp only [wire, headerOnly, nameOnly, hh', hn, if_false, if_true]
      · simp only [layout, headerOnly, nameOnly, hh', hn, if_false, if_true, hbyte]
        simp [formatHeader]
    · rename_i hn
      obtain ⟨⟨location, data₆⟩, htakeLocation, h₈⟩ := except_bind_ok h₇
      obtain ⟨⟨len, data₇⟩, htakeLen, h₉⟩ := except_bind_ok h₈
      clear h₇ h₈
      obtain ⟨rfl, hlocation⟩ := takeUint_sound htakeLocation
      obtain ⟨rfl, hlen⟩ := takeUint_sound htakeLen
      have hlocation' : (UInt64.ofNat location).toNat = location := by
        simpa using Nat.mod_eq_of_lt hlocation
      have hlen' : (UInt64.ofNat len).toNat = len := by simpa using Nat.mod_eq_of_lt hlen
      dsimp only at h₉
      split at h₉
      · rename_i hr
        cases h₉
        have hr' : modType = .kSyncFileRangeMod ∨ modOpts.isFallocate = true := hr
        refine ⟨UInt8.ofNat dir, data₇, ⟨?_, hnul, fun _ => rfl, .inr (.inr (.inl hr))⟩, ?_⟩
        · simp only [wire, headerOnly, nameOnly, hh', hn, if_false, ite_self]
        · simp only [layout, headerOnly, nameOnly, formatRange, rangeOnly, hh', hn, hr', if_false,
            if_true, hbyte, hlocation', hlen']
          simp [formatHeader]
      · rename_i hr
        have hr' : ¬ (modType = .kSyncFileRangeMod ∨ modOpts.isFallocate = true) := hr
        split at h₉
        · obtain ⟨⟨bytes, slack⟩, hbytes, h₁₀⟩ := except_bind_ok h₉
          clear h₉
          obtain ⟨rfl, rfl⟩ := take_sound hbytes
          cases h₁₀
          refine ⟨UInt8.ofNat dir, slack, ⟨?_, hnul, fun _ => rfl, .inr (.inr (.inr ?_))⟩, ?_⟩
          · simp only [wire, headerOnly, nameOnly, rangeOnly, hh', hn, hr', if_false]
          · exact hlen'.symm
          · simp only [layout, headerOnly, nameOnly, formatRange, rangeOnly, hh', hn, hr', if_false,
              hbyte, hlocation', hlen']
            simp [formatHeader]
        · rename_i hzero
          cases h₉
          have hzero : len = 0 := Nat.eq_zero_of_not_pos hzero
          refine ⟨UInt8.ofNat dir, data₇, ⟨?_, hnul, fun _ => rfl, .inr (.inr (.inr ?_))⟩, ?_⟩
          · simp only [wire, headerOnly, nameOnly, hh', hn, if_false, ite_self]
          · simp [hzero]
          · simp only [layout, headerOnly, nameOnly, formatRange, rangeOnly, hh', hn, hr', if_false,
              hbyte, hlocation', hlen']
            simp [formatHeader]

/-- What the bytes say is decoded from them, whatever stands behind. -/
theorem deserialize_complete {m : DiskMod} {dir : UInt8} (h : Carried m dir) {size : List UInt8}
    (hsize : size.length = 8) (slack : List UInt8) :
    deserialize (size ++ (layout m dir ++ slack)) = .ok m := by
  have hfields := h.fields
  by_cases hh : m.headerOnly
  · have hh' : ({ modType := m.modType, modOpts := m.modOpts } : DiskMod).headerOnly := hh
    simp only [wire, hh, if_true] at hfields
    simp only [deserialize, layout, formatHeader, hh, if_true, List.append_assoc, List.nil_append]
    rw [take_append hsize]
    simp only [Except.bind, bind, takeUint_be 2 _ _ m.modType.code_lt,
      takeUint_be 2 _ _ m.modOpts.code_lt, ModType.ofCode_code, ModOpts.ofCode_code, hh', if_true]
    exact congrArg Except.ok hfields
  have hh' : ¬ ({ modType := m.modType, modOpts := m.modOpts } : DiskMod).headerOnly := hh
  have hdir : (dir.toNat != 0) = m.directoryMod := by
    rw [h.dir hh, Bool.eq_iff_iff]
    simp [← UInt8.toNat_inj]
  have hassoc (rest : List UInt8) : m.path ++ [0, dir] ++ rest = m.path ++ 0 :: dir :: rest := by
    simp
  simp only [wire, hh, if_false] at hfields
  simp only [deserialize, layout, formatHeader, hh, if_false, hassoc, List.append_assoc,
    List.cons_append]
  rw [take_append hsize]
  simp only [Except.bind, bind, takeUint_be 2 _ _ m.modType.code_lt,
    takeUint_be 2 _ _ m.modOpts.code_lt, ModType.ofCode_code, ModOpts.ofCode_code, hh', if_false,
    readPath_append _ _ _ _ h.path, takeUint_byte, hdir, List.nil_append]
  by_cases hn : m.nameOnly
  · have hn' : m.modType = .kFsyncMod ∨ m.modType = .kCreateMod := hn
    rw [if_pos hn] at hfields
    rw [if_pos hn']
    exact congrArg Except.ok hfields
  have hn' : ¬ (m.modType = .kFsyncMod ∨ m.modType = .kCreateMod) := hn
  have hloc : m.fileModLocation.toNat < 256 ^ 8 := m.fileModLocation.toNat_lt
  have hlen : m.fileModLen.toNat < 256 ^ 8 := m.fileModLen.toNat_lt
  rw [if_neg hn] at hfields
  simp only [hn, hn', if_false, formatRange, List.append_assoc, takeUint_be _ _ _ hloc,
    takeUint_be _ _ _ hlen, UInt64.ofNat_toNat]
  by_cases hr : m.rangeOnly
  · have hr' : m.modType = .kSyncFileRangeMod ∨ m.modOpts.isFallocate = true := hr
    rw [if_pos hr] at hfields
    simp only [rangeOnly, hr', if_true]
    exact congrArg Except.ok hfields
  · have hr' : ¬ (m.modType = .kSyncFileRangeMod ∨ m.modOpts.isFallocate = true) := hr
    have hdata : m.fileModData.length = m.fileModLen.toNat :=
      ((h.data.resolve_left hh).resolve_left hn).resolve_left hr
    rw [if_neg hr] at hfields
    simp only [rangeOnly, hr', if_false, take_append hdata]
    split
    · exact congrArg Except.ok hfields
    · have hempty : m.fileModData = [] := List.eq_nil_of_length_eq_zero (by omega)
      rw [hempty] at hfields
      exact congrArg Except.ok hfields

end DiskMod

namespace Tester

variable {env : ReadEnv}

/-- The read of a size takes up to eight bytes. -/
theorem read_upto (answers : Nat → Int) (hans : ∀ n, 8 ≤ answers n) (bytes : List UInt8)
    (calls : Nat) :
    Transfer.read maxRwCount answers 8 ⟨bytes, calls⟩ =
      (((bytes.take 8).length : Int), bytes.take 8, ⟨bytes.drop 8, calls + 1⟩) := by
  by_cases hlen : 8 ≤ bytes.length
  · have hread := read_size answers hans bytes hlen calls
    rwa [List.length_take, Nat.min_eq_left hlen]
  · have hread := read_rest answers hans bytes (by omega) calls
    rwa [List.take_of_length_le (by omega), List.drop_of_length_le (by omega)]

/-- A header does not fit into the bytes of the size. -/
theorem deserialize_short {data : List UInt8} (h : data.length = 8) :
    ∃ fault, DiskMod.deserialize data = .error fault := by
  have hsize : DiskMod.take 8 data = .ok (data, []) := by
    simp [DiskMod.take, h, List.take_of_length_le, List.drop_of_length_le]
  refine ⟨.outOfBounds, ?_⟩
  simp only [DiskMod.deserialize, hsize]
  rfl

/-- What a round can do: it ends at the end of the file, gives the file up, or reads one frame. -/
theorem getChangeDataBody_cases (hsize : ∀ n, 8 ≤ env.sizeAnswers n)
    (hbody : ∀ n, 1 ≤ env.bodyAnswers n) (rounds : Nat) (mods : List (List DiskMod))
    (bytes : List UInt8) (hr : bytes.length < rounds) (calls : Nat) :
    (bytes = [] ∧ getChangeDataBody env rounds (mods, ⟨bytes, calls⟩) =
        .inl (some (.ret success, mods))) ∨
      (∃ r, r ≠ .ret success ∧ getChangeDataBody env rounds (mods, ⟨bytes, calls⟩) =
        .inl (some (r, mods))) ∨
      ∃ frame m rest calls', Framed frame m ∧ bytes = frame ++ rest ∧
        getChangeDataBody env rounds (mods, ⟨bytes, calls⟩) =
          .inr (addMod mods m, ⟨rest, calls'⟩) := by
  by_cases hempty : bytes = []
  · subst hempty
    exact .inl ⟨rfl, getChangeDataBody_end env hsize rounds mods calls⟩
  refine .inr ?_
  have hread := read_upto env.sizeAnswers hsize bytes calls
  have htake : 0 < (bytes.take 8).length := by
    have hpos := List.length_pos_iff.mpr hempty
    rw [List.length_take]
    omega
  have htake8 : (bytes.take 8).length ≤ 8 := List.length_take_le 8 bytes
  have hres : toInt ((bytes.take 8).length : Int) = (bytes.take 8).length :=
    toInt_of_fits _ (by omega) (by omega)
  have hneg : ¬ ((bytes.take 8).length : Int) < 0 := by omega
  have hzero : ¬ ((bytes.take 8).length : Int) = 0 := by omega
  obtain ⟨buf, hbuf⟩ : ∃ buf, bytes.take 8 ++
      (le 8 (env.stale (calls + 1)).toNat).drop (bytes.take 8).length = buf := ⟨_, rfl⟩
  have hbuflen : buf.length = 8 := by
    rw [← hbuf, List.length_append, List.length_drop, length_le]
    omega
  simp only [getChangeDataBody, hread, hres, hneg, hzero, hbuf, if_false]
  by_cases hbig : 2 ^ 63 ≤ ofBe buf
  · exact .inl ⟨.badAlloc, by simp, if_pos hbig⟩
  rw [if_neg hbig]
  by_cases hsmall : ofBe buf < 8
  · exact .inl ⟨.fault, by simp, if_pos hsmall⟩
  rw [if_neg hsmall]
  by_cases hroom : ofBe buf ≤ 8 + (bytes.drop 8).length
  · have hlength : (buf ++ (bytes.drop 8).take (ofBe buf - 8)).length = ofBe buf := by
      rw [List.length_append, List.length_take]
      omega
    obtain ⟨calls', hchunk⟩ := readChunk_eq env.bodyAnswers hbody rounds buf
      ((bytes.drop 8).take (ofBe buf - 8)) ((bytes.drop 8).drop (ofBe buf - 8)) (calls + 1)
      (by rw [List.length_take, List.length_drop]; omega)
    rw [hlength, List.take_append_drop] at hchunk
    rw [hchunk]
    cases hdecoded : DiskMod.deserialize (buf ++ (bytes.drop 8).take (ofBe buf - 8)) with
    | error fault => exact .inl ⟨.fault, by simp, by simp [hdecoded]⟩
    | ok m =>
      by_cases hlen : bytes.length < 8
      · have hnone : bytes.drop 8 = [] := List.drop_of_length_le (by omega)
        rw [hnone, List.take_nil, List.append_nil] at hdecoded
        obtain ⟨fault, hfault⟩ := deserialize_short hbuflen
        rw [hfault] at hdecoded
        cases hdecoded
      · have hfront : buf = bytes.take 8 := by
          rw [← hbuf, List.drop_of_length_le (by simp; omega), List.append_nil]
        refine .inr ⟨_, m, (bytes.drop 8).drop (ofBe buf - 8), calls',
          ⟨?_, ?_, ?_, hdecoded⟩, ?_, by simp only [hdecoded]⟩
        · omega
        · omega
        · rw [hlength, List.take_left' hbuflen]
        · rw [hfront, List.append_assoc, List.take_append_drop, List.take_append_drop]
  · obtain ⟨f, hchunk⟩ := readChunk_short env.bodyAnswers hbody rounds (ofBe buf) buf
      (bytes.drop 8) (calls + 1) (by omega) (by rw [List.length_drop]; omega)
    rw [hchunk]
    exact .inl ⟨.ret (-1), by decide, rfl⟩

/-- The rounds on what is left of a file, with the mods read so far. -/
theorem getChangeData_run (hsize : ∀ n, 8 ≤ env.sizeAnswers n)
    (hbody : ∀ n, 1 ≤ env.bodyAnswers n) (rounds fuel : Nat) (mods : List (List DiskMod))
    (bytes : List UInt8) (hr : bytes.length < rounds) (hfuel : bytes.length < fuel) (calls : Nat) :
    ∃ r mods', loop (getChangeDataBody env rounds) fuel (mods, ⟨bytes, calls⟩) =
        some (some (r, mods')) ∧
      (r = .ret success → ∃ log : List (List UInt8 × DiskMod), (∀ e ∈ log, Framed e.1 e.2) ∧
        bytes = log.flatMap (·.1) ∧ mods' = (log.map (·.2)).foldl addMod mods) := by
  induction fuel generalizing mods bytes calls with
  | zero => omega
  | succ fuel ih =>
    obtain ⟨rfl, hend⟩ | ⟨r, hr', hend⟩ | ⟨frame, m, rest, calls', hframe, rfl, hnext⟩ :=
      getChangeDataBody_cases hsize hbody rounds mods bytes hr calls
    · exact ⟨_, _, loop_done hend fuel, fun _ => ⟨[], by simp⟩⟩
    · exact ⟨r, mods, loop_done hend fuel, fun h => absurd h hr'⟩
    · have hlong := hframe.long
      rw [List.length_append] at hr hfuel
      obtain ⟨r, mods', hrun, hlog⟩ := ih (addMod mods m) rest (by omega) (by omega) calls'
      refine ⟨r, mods', (loop_next hnext fuel).trans hrun, fun h => ?_⟩
      obtain ⟨log, hframes, rfl, rfl⟩ := hlog h
      refine ⟨(frame, m) :: log, ?_, rfl, rfl⟩
      intro e he
      obtain rfl | he := List.mem_cons.mp he
      · exact hframe
      · exact hframes e he

/-- One entry of a log: the length of the entry, a mod, and bytes that nothing reads. -/
structure Entry (frame : List UInt8) (m : DiskMod) : Prop where
  bound : frame.length < 2 ^ 63
  laidOut : ∃ dir slack, m.Carried dir ∧ frame = be 8 frame.length ++ (m.layout dir ++ slack)

theorem framed_iff_entry (frame : List UInt8) (m : DiskMod) : Framed frame m ↔ Entry frame m := by
  constructor
  · intro h
    obtain ⟨dir, slack, hcarried, hframe⟩ := DiskMod.deserialize_sound h.decoded
    have hlen : (frame.take 8).length = 8 := by
      have hlong := h.long
      rw [List.length_take]
      omega
    have hfield := be_ofBe (frame.take 8)
    rw [hlen, h.size] at hfield
    exact ⟨h.bound, dir, slack, hcarried, by rwa [hfield]⟩
  · intro h
    obtain ⟨dir, slack, hcarried, hframe⟩ := h.laidOut
    have hbound := h.bound
    have hfront : frame.take 8 = be 8 frame.length := by
      conv_lhs => rw [hframe]
      exact List.take_left' (length_be _ _)
    have hlong := congrArg List.length hframe
    rw [List.length_append, length_be] at hlong
    refine ⟨by omega, hbound, ?_, ?_⟩
    · rw [hfront, ofBe_be]
      exact Nat.mod_eq_of_lt (by omega)
    · rw [hframe]
      exact DiskMod.deserialize_complete hcarried (length_be 8 _) slack

/-- On every file the reader ends, and it returns success exactly when the file is made of entries
only; it has then the mods of the entries, cut at the checkpoints. -/
theorem change_log_accepted_iff (env : ReadEnv) (hsize : ∀ n, 8 ≤ env.sizeAnswers n)
    (hbody : ∀ n, 1 ≤ env.bodyAnswers n) (rounds : Nat) (bytes : List UInt8)
    (hr : bytes.length < rounds) :
    ∃ r mods, getChangeData env rounds [] ⟨bytes, 0⟩ = some (r, mods) ∧
      (r = .ret success ↔ ∃ log : List (List UInt8 × DiskMod), (∀ e ∈ log, Entry e.1 e.2) ∧
        bytes = log.flatMap (·.1)) ∧
      ∀ log : List (List UInt8 × DiskMod), (∀ e ∈ log, Entry e.1 e.2) →
        bytes = log.flatMap (·.1) → mods = segments (log.map (·.2)) := by
  obtain ⟨r, mods, hrun, hlog⟩ := getChangeData_run hsize hbody rounds rounds [] bytes hr hr 0
  have hends : getChangeData env rounds [] ⟨bytes, 0⟩ = some (r, mods) := by
    rw [getChangeData, hrun]
    rfl
  have haccepts : ∀ log : List (List UInt8 × DiskMod), (∀ e ∈ log, Entry e.1 e.2) →
      bytes = log.flatMap (·.1) → r = .ret success ∧ mods = segments (log.map (·.2)) := by
    rintro log hentries rfl
    have hframes : ∀ e ∈ log, Framed e.1 e.2 :=
      fun e he => (framed_iff_entry _ _).mpr (hentries e he)
    rw [getChangeData_eq env hsize hbody rounds log hframes hr, foldl_addMod_nil] at hends
    cases hends
    exact ⟨rfl, rfl⟩
  refine ⟨r, mods, hends, ⟨fun h => ?_, ?_⟩, fun log hentries hbytes =>
    (haccepts log hentries hbytes).2⟩
  · obtain ⟨log, hframes, hbytes, -⟩ := hlog h
    exact ⟨log, fun e he => (framed_iff_entry _ _).mp (hframes e he), hbytes⟩
  · rintro ⟨log, hentries, hbytes⟩
    exact (haccepts log hentries hbytes).1

/-- A mod of a type that has no name. -/
def unnamedMod : DiskMod := { path := path ['a'], modType := .other ⟨5, by decide⟩ }

/-- An entry of a type that has no name, and a checkpoint. -/
def unnamedLog : List (List UInt8 × DiskMod) :=
  [([0, 0, 0, 0, 0, 0, 0, 31, 0, 15, 0, 0, 97, 0, 0, 0, 0, 0, 0, 0, 0, 0, 0, 0, 0, 0, 0, 0, 0, 0, 0],
      unnamedMod),
    ([0, 0, 0, 0, 0, 0, 0, 12, 0, 6, 0, 0], { modType := .kCheckpointMod })]

/-- The log is accepted, and its first segment holds the mod without a name. -/
theorem change_log_accepted_iff_unnamed :
    getChangeData ⟨fun _ => 8, fun _ => 1, fun _ => 0⟩ 44 [] ⟨unnamedLog.flatMap (·.1), 0⟩ =
      some (.ret success, [[unnamedMod], []]) := by
  have hentries : ∀ e ∈ unnamedLog, Entry e.1 e.2 := by
    simp only [unnamedLog, List.forall_mem_cons, List.not_mem_nil, false_implies, implies_true,
      and_true]
    refine ⟨⟨by decide, 0, [], ⟨by decide, by decide, fun _ => rfl, ?_⟩, by decide⟩,
      by decide, 0, [], ⟨by decide, by decide, fun _ => rfl, Or.inl (Or.inl rfl)⟩, by decide⟩
    exact Or.inr (Or.inr (Or.inr rfl))
  obtain ⟨r, mods, hends, hiff, hmods⟩ := change_log_accepted_iff
    ⟨fun _ => 8, fun _ => 1, fun _ => 0⟩ (fun _ => by simp) (fun _ => by simp) 44
    (unnamedLog.flatMap (·.1)) (by decide)
  rw [hends, hiff.mpr ⟨unnamedLog, hentries, rfl⟩, hmods unnamedLog hentries rfl]
  decide

end Tester

end PMTester
