import PMTester.Lib.Patch
import PMTester.TraceReplay

/-!
# Replaying a trace that was cut off

The replayer looks for the end of the file only at the head of its loop. The
round in which the file ends goes on with what the locals hold: the bytes that
were still there, over those of earlier records or over nothing at all.
-/
namespace PMTester

open Bytes Memory Loop

/-- `panda_physical_memory_rw` with a buffer to write: it stores the buffer from the address on, in
a 64-bit address space and around its end. -/
def StoresAround (rw : Nat → List UInt8 → Mem → Mem) : Prop :=
  ∀ address bytes m, rw address bytes m = Patch.apply (Patch.block (2 ^ 64) address bytes) m

namespace Record

/-- What a record writes. -/
def patch (base : UInt64) : Record → Nat → Option UInt8
  | .write _ offset data => Patch.block (2 ^ 64) (base + offset).toNat data.val
  | .flush _ _ => Patch.skip
  | .fence _ => Patch.skip

/-- The offset in a record, if its kind has one. -/
def offset? : Record → Option UInt64
  | .write _ offset _ => some offset
  | .flush _ offset => some offset
  | .fence _ => none

def data? : Record → Option Buffer
  | .write _ _ data => some data
  | .flush _ _ => none
  | .fence _ => none

end Record

def lastOffset (rs : List Record) : Option UInt64 := (rs.filterMap Record.offset?).getLast?

def lastData (rs : List Record) : Option Buffer := (rs.filterMap Record.data?).getLast?

/-- The locals after these records. -/
def loadAll (rs : List Record) (l : Replayer.Locals) : Replayer.Locals :=
  rs.foldl (fun l r => r.load l) l

def cutType (k : Nat) (new old : UInt32) : UInt32 :=
  UInt32.ofNat (mix (min (k - 8) 4) new.toNat old.toNat)

def cutOffset (k : Nat) (new old : UInt64) : UInt64 :=
  UInt64.ofNat (mix (min (k - 12) 8) new.toNat old.toNat)

def cutSize (k new old : Nat) : Nat := mix (min (k - 20) 8) new old

def cutData (k : Nat) (new old : List UInt8) (oldSize : Nat) : List UInt8 :=
  new.take (k - 28) ++ (Replayer.resize old (cutSize k new.length oldSize)).drop (k - 28)

/-- The round in which the file ends makes no difference. The record is cut in its pc and another one
comes before it, or it is no write, or there was a write before it and the block that is stored
repeats what the whole records leave. -/
def HarmlessCut (base : UInt64) (rs : List Record) (r : Record) (k : Nat) : Prop :=
  if k ≤ 8 then rs ≠ []
  else
    match r with
    | .write _ offset data => ∃ oldOffset oldData,
      lastOffset rs = some oldOffset ∧ lastData rs = some oldData ∧
        Patch.Repeats (rs.map (Record.patch base))
          (Patch.block (2 ^ 64) (base + cutOffset k offset oldOffset).toNat
            (cutData k data.val oldData.val oldData.val.length))
    | .flush _ _ => True
    | .fence _ => True

/-- The replay of whole records and the beginning of another one applies the whole ones and nothing
else, for any values of the locals; only the vector is initialised, and empty. -/
def ReplaysComplete (base : UInt64) (rs : List Record) (rest : List UInt8) : Prop :=
  ∀ rw, StoresAround rw → ∀ l : Replayer.Locals, l.writeData = [] → ∀ m,
    Exits (Replayer.body rw base) ⟨l, ⟨rs.flatMap Record.encode ++ rest, true⟩, m⟩
      (.done (Patch.applyAll (rs.map (Record.patch base)) m))

theorem loadAll_append (rs : List Record) (r : Record) (l : Replayer.Locals) :
    loadAll (rs ++ [r]) l = r.load (loadAll rs l) := by
  simp [loadAll]

/-- A local that some of the records set holds what the last of them set it to. -/
theorem loadAll_last {β : Type} (field : Replayer.Locals → β) (sets : Record → Option β)
    (h : ∀ r l, field (r.load l) = (sets r).getD (field l)) (rs : List Record)
    (l : Replayer.Locals) :
    field (loadAll rs l) = (rs.filterMap sets).getLast?.getD (field l) := by
  induction rs using List.reverseRecOn with
  | nil => rfl
  | append_singleton rs r ih =>
    rw [loadAll_append, h, ih]
    cases hr : sets r <;> simp [hr]

theorem loadAll_offset (rs : List Record) (l : Replayer.Locals) :
    (loadAll rs l).offset = (lastOffset rs).getD l.offset := by
  apply loadAll_last (fun l => l.offset) Record.offset?
  intro r l
  cases r <;> rfl

theorem last_data (rs : List Record) {β : Type} (f : Buffer → β) :
    (rs.filterMap fun r => r.data?.map f).getLast? = (lastData rs).map f := by
  rw [lastData, ← List.getLast?_map, List.map_filterMap]

theorem loadAll_data (rs : List Record) (l : Replayer.Locals) :
    (loadAll rs l).writeData = ((lastData rs).map Subtype.val).getD l.writeData := by
  rw [← last_data]
  apply loadAll_last fun l => l.writeData
  intro r l
  cases r <;> rfl

theorem loadAll_size (rs : List Record) (l : Replayer.Locals) :
    (loadAll rs l).writeSize = ((lastData rs).map Record.size).getD l.writeSize := by
  rw [← last_data]
  apply loadAll_last fun l => l.writeSize
  intro r l
  cases r <;> rfl

/-- A type that was read from a whole record is in the first byte. -/
theorem loadAll_type (rs : List Record) (l : Replayer.Locals) (hl : rs = [] → l.type.toNat < 256) :
    (loadAll rs l).type.toNat < 256 := by
  induction rs using List.reverseRecOn with
  | nil => exact hl rfl
  | append_singleton rs r ih =>
    rw [loadAll_append]
    cases r <;> simp [Record.load, Replayer.write, Replayer.flush, Replayer.fence]

/-- A write in the list has an offset too. -/
theorem lastOffset_of_lastData {rs : List Record} {data : Buffer} (h : lastData rs = some data) :
    ∃ offset, lastOffset rs = some offset := by
  induction rs using List.reverseRecOn with
  | nil => cases h
  | append_singleton rs r ih =>
    cases r with
    | write pc offset data => exact ⟨offset, by simp [lastOffset, Record.offset?]⟩
    | flush pc offset => exact ⟨offset, by simp [lastOffset, Record.offset?]⟩
    | fence pc =>
      obtain ⟨offset, hoffset⟩ := ih (by simpa [lastData, Record.data?] using h)
      exact ⟨offset, by simpa [lastOffset, Record.offset?] using hoffset⟩

/-- Without a write the list leaves nothing anywhere. -/
theorem last_of_no_data {base : UInt64} {rs : List Record} (h : lastData rs = none) (a : Nat) :
    Patch.last (rs.map (Record.patch base)) a = none := by
  have hnone : ∀ r ∈ rs, r.patch base = Patch.skip := by
    intro r hr
    have hr' : r.data? = none := by
      have := List.getLast?_eq_none_iff.mp h
      exact List.filterMap_eq_nil_iff.mp this r hr
    cases r with
    | write pc offset data => cases hr'
    | flush pc offset => rfl
    | fence pc => rfl
  rw [Patch.last, List.getLast?_eq_none_iff, List.filterMap_eq_nil_iff]
  intro p hp
  obtain ⟨r, hr, rfl⟩ := List.mem_map.mp hp
  rw [hnone r hr]
  rfl

theorem cutSize_full {k : Nat} (hk : 28 ≤ k) {new old : Nat} (hnew : new < 2 ^ 64)
    (hold : old < 2 ^ 64) : cutSize k new old = new := by
  rw [cutSize, Nat.min_eq_right (by omega)]
  exact mix_full hnew hold

/-- The data is what the file still has, over the resized vector. -/
theorem readInto_cutData (k : Nat) (data : Buffer) (hk : k < 28 + data.val.length)
    (old : List UInt8) (oldSize : UInt64) :
    IStream.readInto (Replayer.resize old (cutSize k data.val.length oldSize.toNat))
        ⟨(data.val ++ []).take (k - 28), decide (28 ≤ k)⟩ =
      (cutData k data.val old oldSize.toNat, ⟨[], false⟩) := by
  have hdata := data.property
  by_cases hfull : 28 ≤ k
  · have hsize : data.val.length =
        (Replayer.resize old (cutSize k data.val.length oldSize.toNat)).length := by
      rw [Record.length_resize, cutSize_full hfull (by omega) oldSize.toNat_lt]
    have hshort : ¬ data.val.length ≤ k - 28 := by omega
    rw [decide_eq_true hfull, IStream.readInto_cut _ _ _ _ hsize, decide_eq_false hshort,
      List.take_nil, cutData]
  · have hnone : k - 28 = 0 := by omega
    rw [decide_eq_false hfull, IStream.readInto_failed, cutData, hnone]
    rfl

theorem encode_write (pc offset : UInt64) (data : Buffer) :
    (Record.write pc offset data).encode = le 8 pc.toNat ++ (le 4 0 ++ (le 8 offset.toNat ++
      (le 8 data.val.length ++ (data.val ++ [])))) := by
  simp [Record.encode, WriteTracker.logOutput, WriteTracker.EventType.code, Record.size_toNat]

/-- The type is read in full before the offset. -/
theorem cutType_full {k : Nat} (hk : 12 ≤ k) (new old : UInt32) : cutType k new old = new := by
  rw [cutType, Nat.min_eq_right (by omega), mix_full new.toNat_lt old.toNat_lt, UInt32.ofNat_toNat]

/-- What the locals hold after the record of a write that is cut; `none` when the size that is put
together is too much for the vector. -/
theorem decode_cut_write (pc offset : UInt64) (data : Buffer) (k : Nat)
    (hk : k < (Record.write pc offset data).encode.length) (l : Replayer.Locals) :
    ∃ pc', Replayer.decode l ⟨(Record.write pc offset data).encode.take k, true⟩ =
      if cutType k 0 l.type = Replayer.write then
        if 2 ^ 63 ≤ cutSize k data.val.length l.writeSize.toNat then none
        else some (⟨pc', Replayer.write, cutOffset k offset l.offset,
          UInt64.ofNat (cutSize k data.val.length l.writeSize.toNat),
          cutData k data.val l.writeData l.writeSize.toNat⟩, ⟨[], false⟩)
      else some (⟨pc', cutType k 0 l.type, l.offset, l.writeSize, l.writeData⟩, ⟨[], false⟩) := by
  have hshort : k < 28 + data.val.length := by
    rw [encode_write] at hk
    simp only [List.length_append, length_le, List.length_nil] at hk
    omega
  have htype : UInt32.ofNat (mix (min (k - 8) 4) 0 l.type.toNat) = cutType k 0 l.type := rfl
  refine ⟨UInt64.ofNat (mix (min k 8) pc.toNat l.pc.toNat), ?_⟩
  rw [encode_write, Replayer.decode, IStream.readUint_cut _ _ (by simp) l.pc.toNat_lt]
  simp only
  rw [IStream.readUint_cut _ _ (by simp; omega) l.type.toNat_lt]
  simp only [htype]
  by_cases hwrite : cutType k 0 l.type = Replayer.write
  · have hgood : (true && decide (8 ≤ k) && decide (4 ≤ k - 8) && decide (8 ≤ k - 8 - 4) &&
        decide (8 ≤ k - 8 - 4 - 8)) = decide (28 ≤ k) := by
      rw [Bool.eq_iff_iff]
      simp
      omega
    have hbehind : k - 8 - 4 - 8 - 8 = k - 28 := by omega
    have hsize : mix (min (k - 8 - 4 - 8) 8) data.val.length l.writeSize.toNat =
        cutSize k data.val.length l.writeSize.toNat := rfl
    rw [if_pos hwrite, if_pos hwrite, IStream.readUint_cut _ _ (by simp; omega) l.offset.toNat_lt]
    simp only
    rw [IStream.readUint_cut _ _ (by simp; omega) l.writeSize.toNat_lt]
    simp only [hgood, hbehind, hsize, readInto_cutData k data hshort]
    rw [hwrite]
    rfl
  · have hk12 : ¬ 12 ≤ k := fun h => hwrite (cutType_full h 0 l.type)
    have hgood : (true && decide (8 ≤ k) && decide (4 ≤ k - 8)) = false := by
      rw [Bool.eq_false_iff]
      simp
      omega
    have hempty : k - 8 - 4 = 0 := by omega
    rw [if_neg hwrite, if_neg hwrite]
    simp only [hgood, hempty, List.take_zero, IStream.readUint_failed, Record.word_mod,
      UInt64.ofNat_toNat, ite_self]

/-- A byte of the type is enough to tell a flush or a fence from a write. -/
theorem cutType_ne_write {k : Nat} (hk : 8 < k) {new : UInt32} (hnew : new.toNat % 256 ≠ 0)
    (old : UInt32) : cutType k new old ≠ Replayer.write := by
  obtain ⟨j, hj⟩ : ∃ j, min (k - 8) 4 = j + 1 := ⟨min (k - 8) 4 - 1, by omega⟩
  have hlt : mix (j + 1) new.toNat old.toNat < 2 ^ 32 := by
    apply mix_lt _ old.toNat_lt
    have hbytes : j + 1 ≤ 4 := by omega
    exact Nat.pow_dvd_pow 256 hbytes
  intro hwrite
  have hzero : mix (j + 1) new.toNat old.toNat = 0 := by
    have := congrArg UInt32.toNat hwrite
    rwa [cutType, hj, UInt32.toNat_ofNat', Nat.mod_eq_of_lt hlt] at this
  have hlow := mix_mod (j + 1) new.toNat old.toNat
  rw [hzero, Nat.zero_mod] at hlow
  have hdvd : 256 ∣ 256 ^ (j + 1) := ⟨256 ^ j, Nat.pow_succ'⟩
  have hnew256 := Nat.dvd_trans hdvd (Nat.dvd_of_mod_eq_zero hlow.symm)
  exact hnew (Nat.mod_eq_zero_of_dvd hnew256)

/-- A flush or a fence that is cut behind the first byte of its type leaves no write. -/
theorem decode_cut_other {r : Record} (hr : r.data? = none) {k : Nat} (h8 : 8 < k)
    (hk : k < r.encode.length) (l : Replayer.Locals) :
    ∃ l', Replayer.decode l ⟨r.encode.take k, true⟩ = some (l', ⟨[], false⟩) ∧
      l'.type ≠ Replayer.write := by
  cases r with
  | write pc offset data => cases hr
  | flush pc offset =>
    have hbytes : (Record.flush pc offset).encode =
        le 8 pc.toNat ++ (le 4 1 ++ (le 8 offset.toNat ++ [])) := by
      simp [Record.encode, WriteTracker.logOutput, WriteTracker.EventType.code]
    have htype : UInt32.ofNat (mix (min (k - 8) 4) 1 l.type.toNat) = cutType k 1 l.type := rfl
    have hcode : (1 : UInt32).toNat % 256 ≠ 0 := by decide
    have hwrite := cutType_ne_write h8 hcode l.type
    rw [hbytes] at hk ⊢
    simp only [List.length_append, length_le, List.length_nil] at hk
    rw [Replayer.decode, IStream.readUint_cut _ _ (by simp) l.pc.toNat_lt]
    simp only
    rw [IStream.readUint_cut _ _ (by simp; omega) l.type.toNat_lt]
    simp only [htype, if_neg hwrite]
    by_cases hflush : cutType k 1 l.type = Replayer.flush
    · have hgood : (true && decide (8 ≤ k) && decide (4 ≤ k - 8) && decide (8 ≤ k - 8 - 4)) = false := by
        rw [Bool.eq_false_iff]
        simp
        omega
      rw [if_pos hflush, IStream.readUint_cut _ _ (by simp; omega) l.offset.toNat_lt]
      simp only [hgood, List.take_nil]
      exact ⟨_, rfl, hwrite⟩
    · have hk12 : ¬ 12 ≤ k := fun h => hflush (cutType_full h 1 l.type)
      have hgood : (true && decide (8 ≤ k) && decide (4 ≤ k - 8)) = false := by
        rw [Bool.eq_false_iff]
        simp
        omega
      have hempty : k - 8 - 4 = 0 := by omega
      rw [if_neg hflush, hgood, hempty, List.take_zero]
      exact ⟨_, rfl, hwrite⟩
  | fence pc =>
    have hbytes : (Record.fence pc).encode = le 8 pc.toNat ++ (le 4 2 ++ []) := by
      simp [Record.encode, WriteTracker.logOutput, WriteTracker.EventType.code]
    have htype : UInt32.ofNat (mix (min (k - 8) 4) 2 l.type.toNat) = cutType k 2 l.type := rfl
    have hcode : (2 : UInt32).toNat % 256 ≠ 0 := by decide
    have hwrite := cutType_ne_write h8 hcode l.type
    rw [hbytes] at hk ⊢
    simp only [List.length_append, length_le, List.length_nil] at hk
    have hgood : (true && decide (8 ≤ k) && decide (4 ≤ k - 8)) = false := by
      rw [Bool.eq_false_iff]
      simp
      omega
    rw [Replayer.decode, IStream.readUint_cut _ _ (by simp) l.pc.toNat_lt]
    simp only
    rw [IStream.readUint_cut _ _ (by simp; omega) l.type.toNat_lt]
    simp only [htype, if_neg hwrite, hgood, List.take_nil, IStream.readUint_failed]
    by_cases hflush : cutType k 2 l.type = Replayer.flush
    · rw [if_pos hflush]
      exact ⟨_, rfl, hwrite⟩
    · rw [if_neg hflush]
      exact ⟨_, rfl, hwrite⟩

section Replay

variable {rw : Nat → List UInt8 → Mem → Mem} (hrw : StoresAround rw) (base : UInt64)

include hrw

/-- A round on a whole record applies it. -/
theorem body_record (r : Record) (l : Replayer.Locals) (rest : List UInt8) (m : Mem) :
    Replayer.body rw base ⟨l, ⟨r.encode ++ rest, true⟩, m⟩ =
      .inr ⟨r.load l, ⟨rest, true⟩, Patch.apply (r.patch base) m⟩ := by
  simp only [Replayer.body, if_true, r.decode_encode]
  cases r with
  | write pc offset data => simp [Record.load, Record.patch, hrw _ _ m]
  | flush pc offset => simp [Record.load, Record.patch, Replayer.flush, Replayer.write]
  | fence pc => simp [Record.load, Record.patch, Replayer.fence, Replayer.write]

/-- The whole records are applied one after the other. -/
theorem exits_records (rs : List Record) (rest : List UInt8) (l : Replayer.Locals) (m : Mem)
    {result : Replayer.Result}
    (h : Exits (Replayer.body rw base)
      ⟨loadAll rs l, ⟨rest, true⟩, Patch.applyAll (rs.map (Record.patch base)) m⟩ result) :
    Exits (Replayer.body rw base) ⟨l, ⟨rs.flatMap Record.encode ++ rest, true⟩, m⟩ result := by
  induction rs generalizing l m with
  | nil => exact h
  | cons r rs ih =>
    rw [List.flatMap_cons, List.append_assoc]
    exact Exits.next (body_record hrw base r l _ m) (ih (r.load l) _ h)

/-- The loop ends behind a round that reaches the end of the file. -/
theorem exits_last {l l' : Replayer.Locals} {bytes : List UInt8} {m : Mem}
    (h : Replayer.decode l ⟨bytes, true⟩ = some (l', ⟨[], false⟩)) :
    Exits (Replayer.body rw base) ⟨l, ⟨bytes, true⟩, m⟩ (.done
      (if l'.type = Replayer.write then
        Patch.apply (Patch.block (2 ^ 64) (base + l'.offset).toNat l'.writeData) m else m)) := by
  have hround : Replayer.body rw base ⟨l, ⟨bytes, true⟩, m⟩ = .inr ⟨l', ⟨[], false⟩,
      if l'.type = Replayer.write then
        Patch.apply (Patch.block (2 ^ 64) (base + l'.offset).toNat l'.writeData) m else m⟩ := by
    simp only [Replayer.body, if_true, h, hrw _ _ m]
  exact Exits.next hround (Exits.done (by simp [Replayer.body]))

/-- The whole replay of a trace that ends inside the record of a write. -/
theorem exits_cut_write (rs : List Record) (pc offset : UInt64) (data : Buffer) (k : Nat)
    (hk : k < (Record.write pc offset data).encode.length) (l : Replayer.Locals) (m : Mem) :
    Exits (Replayer.body rw base)
      ⟨l, ⟨rs.flatMap Record.encode ++ (Record.write pc offset data).encode.take k, true⟩, m⟩
      (if cutType k 0 (loadAll rs l).type = Replayer.write then
        if 2 ^ 63 ≤ cutSize k data.val.length (loadAll rs l).writeSize.toNat then
          .lengthError (Patch.applyAll (rs.map (Record.patch base)) m)
        else .done (Patch.apply
          (Patch.block (2 ^ 64) (base + cutOffset k offset (loadAll rs l).offset).toNat
            (cutData k data.val (loadAll rs l).writeData (loadAll rs l).writeSize.toNat))
          (Patch.applyAll (rs.map (Record.patch base)) m))
      else .done (Patch.applyAll (rs.map (Record.patch base)) m)) := by
  apply exits_records hrw
  obtain ⟨pc', hdecode⟩ := decode_cut_write pc offset data k hk (loadAll rs l)
  by_cases hwrite : cutType k 0 (loadAll rs l).type = Replayer.write
  · rw [if_pos hwrite] at hdecode ⊢
    by_cases hsize : 2 ^ 63 ≤ cutSize k data.val.length (loadAll rs l).writeSize.toNat
    · rw [if_pos hsize] at hdecode ⊢
      exact Exits.done (by simp [Replayer.body, hdecode])
    · rw [if_neg hsize] at hdecode ⊢
      exact exits_last hrw base hdecode
  · rw [if_neg hwrite] at hdecode ⊢
    have hlast := exits_last hrw base (m := Patch.applyAll (rs.map (Record.patch base)) m) hdecode
    rwa [if_neg hwrite] at hlast

end Replay

/-- Where only whole records are applied, the block of the last round repeats what they leave. -/
theorem ReplaysComplete.repeats {base : UInt64} {rs : List Record} {pc offset : UInt64}
    {data : Buffer} {k : Nat}
    (h : ReplaysComplete base rs ((Record.write pc offset data).encode.take k))
    (hk : k < (Record.write pc offset data).encode.length) {l : Replayer.Locals}
    (hl : l.writeData = []) (hwrite : cutType k 0 (loadAll rs l).type = Replayer.write) :
    cutSize k data.val.length (loadAll rs l).writeSize.toNat < 2 ^ 63 ∧
      Patch.Repeats (rs.map (Record.patch base))
        (Patch.block (2 ^ 64) (base + cutOffset k offset (loadAll rs l).offset).toNat
          (cutData k data.val (loadAll rs l).writeData (loadAll rs l).writeSize.toNat)) := by
  have hrw : StoresAround fun address bytes => Patch.apply (Patch.block (2 ^ 64) address bytes) :=
    fun _ _ _ => rfl
  have hresult (m : Mem) := (exits_cut_write hrw base rs pc offset data k hk l m).unique
    (h _ hrw l hl m)
  simp only [if_pos hwrite] at hresult
  by_cases hsize : 2 ^ 63 ≤ cutSize k data.val.length (loadAll rs l).writeSize.toNat
  · have := hresult fun _ => 0
    rw [if_pos hsize] at this
    cases this
  · have : Nontrivial UInt8 := ⟨0, 1, by decide⟩
    simp only [if_neg hsize, Replayer.Result.done.injEq] at hresult
    exact ⟨Nat.lt_of_not_le hsize, (Patch.apply_eq_iff _ _).mp hresult⟩

/-- Inside the pc all records look like writes. -/
theorem take_encode (r : Record) {k : Nat} (hk : k ≤ 8) :
    ∃ pc, r.encode.take k = (Record.write pc 0 ⟨[], by decide⟩).encode.take k := by
  have hpc (pc : UInt64) (tail : List UInt8) : (le 8 pc.toNat ++ tail).take k = (le 8 pc.toNat).take k :=
    List.take_append_of_le_length (by simpa using hk)
  cases r with
  | write pc offset data => exact ⟨pc, by rw [encode_write, encode_write, hpc, hpc]⟩
  | flush pc offset =>
    refine ⟨pc, ?_⟩
    rw [encode_write, Record.encode, WriteTracker.logOutput, List.append_assoc, hpc, hpc]
  | fence pc =>
    refine ⟨pc, ?_⟩
    rw [encode_write, Record.encode, WriteTracker.logOutput, List.append_assoc, hpc, hpc]

theorem cutType_stale {k : Nat} (hk : k ≤ 8) (new old : UInt32) : cutType k new old = old := by
  have hnone : min (k - 8) 4 = 0 := by omega
  rw [cutType, hnone, mix_zero, UInt32.ofNat_toNat]

/-- The high bytes of the type of a whole record are zero. -/
theorem cutType_write {k : Nat} (hk : 8 < k) {old : UInt32} (hold : old.toNat < 256) :
    cutType k 0 old = Replayer.write := by
  obtain ⟨j, hj⟩ : ∃ j, min (k - 8) 4 = j + 1 := ⟨min (k - 8) 4 - 1, by omega⟩
  have hpow : 256 ≤ 256 ^ (j + 1) := Nat.le_self_pow (by omega) 256
  have hmix : mix (j + 1) 0 old.toNat = 0 := mix_full (by omega) (by omega)
  rw [cutType, hj]
  change UInt32.ofNat (mix (j + 1) 0 old.toNat) = _
  rw [hmix]
  rfl

/-- The sizes of two buffers do not mix to more than a vector can have. -/
theorem cutSize_lt (k : Nat) (new old : Buffer) :
    cutSize k new.val.length old.val.length < 2 ^ 63 := by
  have hnew := new.property
  have hold := old.property
  by_cases hk : 28 ≤ k
  · rw [cutSize_full hk (by omega) (by omega)]
    exact hnew
  · apply mix_lt _ hold
    have hpow : (2 : Nat) ^ 63 = 256 ^ 7 * 2 ^ 7 := by decide
    rw [hpow]
    exact Nat.dvd_mul_right_of_dvd (Nat.pow_dvd_pow 256 (by omega)) _

/-- The highest byte of an uninitialised size stays, until the size is read in full. -/
theorem le_cutSize {k : Nat} (hk : k < 28) (new : Nat) : 2 ^ 63 ≤ cutSize k new (2 ^ 63) := by
  obtain ⟨j, hj⟩ : ∃ j, min (k - 20) 8 + j = 7 := ⟨7 - min (k - 20) 8, by omega⟩
  have hpow : (2 : Nat) ^ 63 = 2 ^ 7 * 256 ^ j * 256 ^ min (k - 20) 8 := by
    rw [Nat.mul_assoc, ← Nat.pow_add, Nat.add_comm j, hj]
    decide
  rw [cutSize, mix, hpow, Nat.mul_div_cancel _ (Nat.pow_pos (by decide))]
  exact Nat.le_add_left _ _

/-- A cut inside the pc repeats the last whole record, or works on nothing at all. -/
theorem replaysComplete_in_pc (base : UInt64) (rs : List Record) (r : Record) {k : Nat}
    (hk : k ≤ 8) : ReplaysComplete base rs (r.encode.take k) ↔ rs ≠ [] := by
  obtain ⟨pc, htake⟩ := take_encode r hk
  have hlen : k < (Record.write pc 0 ⟨[], by decide⟩).encode.length := by
    rw [encode_write]
    simp
    omega
  rw [htake]
  constructor
  · rintro h rfl
    have hsize := (h.repeats hlen (l := ⟨0, 0, 0, UInt64.ofNat (2 ^ 63), []⟩) rfl
      (cutType_stale hk _ _)).1
    exact absurd (le_cutSize (show k < 28 by omega) 0) (Nat.not_le_of_lt hsize)
  · intro hne rw hrw l _ m
    obtain ⟨front, last, hrs⟩ := List.eq_nil_or_concat rs |>.resolve_left hne
    rw [List.concat_eq_append] at hrs
    subst hrs
    have hexits := exits_cut_write hrw base (front ++ [last]) pc 0 ⟨[], by decide⟩ k hlen l m
    rw [cutType_stale hk, loadAll_append] at hexits
    cases last with
    | write pc' offset data =>
      have hdata := data.property
      have hoffset : cutOffset k 0 offset = offset := by
        have hnone : min (k - 12) 8 = 0 := by omega
        rw [cutOffset, hnone, mix_zero, UInt64.ofNat_toNat]
      have hsize (new : Nat) : cutSize k new data.val.length = data.val.length := by
        have hnone : min (k - 20) 8 = 0 := by omega
        rw [cutSize, hnone, mix_zero]
      have hstale : cutData k [] data.val data.val.length = data.val := by
        have hnone : k - 28 = 0 := by omega
        simp [cutData, hsize, Replayer.resize, hnone]
      have hrepeats := Patch.repeats_last (front.map (Record.patch base))
        ((Record.write pc' offset data).patch base)
      simp only [Record.load, if_true, Record.size_toNat, hsize, hoffset, hstale] at hexits
      rw [if_neg (by omega)] at hexits
      rw [List.map_append, List.map_singleton] at hexits ⊢
      rwa [← Record.patch, Patch.apply_of_repeats hrepeats] at hexits
    | flush pc' offset =>
      have htype : ((Record.flush pc' offset).load (loadAll front l)).type ≠ Replayer.write :=
        (by decide : Replayer.flush ≠ Replayer.write)
      rwa [if_neg htype] at hexits
    | fence pc' =>
      have htype : ((Record.fence pc').load (loadAll front l)).type ≠ Replayer.write :=
        (by decide : Replayer.fence ≠ Replayer.write)
      rwa [if_neg htype] at hexits

/-- A cut behind the first byte of the type of a write stores a block if there was a write before,
and does anything otherwise. -/
theorem replaysComplete_in_write (base : UInt64) (rs : List Record) (pc offset : UInt64)
    (data : Buffer) {k : Nat} (h8 : 8 < k) (hk : k < (Record.write pc offset data).encode.length) :
    ReplaysComplete base rs ((Record.write pc offset data).encode.take k) ↔
      ∃ oldOffset oldData, lastOffset rs = some oldOffset ∧ lastData rs = some oldData ∧
        Patch.Repeats (rs.map (Record.patch base))
          (Patch.block (2 ^ 64) (base + cutOffset k offset oldOffset).toNat
            (cutData k data.val oldData.val oldData.val.length)) := by
  cases hold : lastData rs with
  | none =>
    refine iff_of_false (fun h => ?_) (by simp)
    have htype (size : UInt64) : cutType k 0 (loadAll rs ⟨0, 0, 0, size, []⟩).type = Replayer.write :=
      cutType_write h8 (loadAll_type rs _ fun _ => (by decide : (0 : UInt32).toNat < 256))
    by_cases hfull : k < 28
    · have hsize := (h.repeats hk rfl (htype (UInt64.ofNat (2 ^ 63)))).1
      rw [loadAll_size, hold] at hsize
      exact absurd (le_cutSize hfull _) (Nat.not_le_of_lt hsize)
    · have hrepeats := (h.repeats hk rfl (htype 0)).2
      have hshort : k < 28 + data.val.length := by
        rw [encode_write] at hk
        simp only [List.length_append, length_le, List.length_nil] at hk
        omega
      generalize hcells : cutData k data.val _ _ = cells at hrepeats
      cases cells with
      | nil =>
        have hdata := data.property
        have hlen := congrArg List.length hcells
        simp only [cutData, List.length_append, List.length_drop, Record.length_resize,
          cutSize_full (Nat.le_of_not_lt hfull) (show data.val.length < 2 ^ 64 by omega)
            (UInt64.toNat_lt _), List.length_take, List.length_nil] at hlen
        omega
      | cons b rest =>
        have hb := hrepeats _ b (Patch.block_first _ _ (by decide) b rest)
        rw [last_of_no_data hold] at hb
        cases hb
  | some oldData =>
    obtain ⟨oldOffset, hoffset⟩ := lastOffset_of_lastData hold
    have htype (l : Replayer.Locals) : cutType k 0 (loadAll rs l).type = Replayer.write := by
      refine cutType_write h8 (loadAll_type rs l ?_)
      rintro rfl
      cases hold
    constructor
    · intro h
      have hrepeats := (h.repeats hk (l := ⟨0, 0, 0, 0, []⟩) rfl (htype _)).2
      rw [loadAll_offset, loadAll_data, loadAll_size, hold, hoffset] at hrepeats
      refine ⟨oldOffset, oldData, hoffset, rfl, ?_⟩
      simpa only [Option.map_some, Option.getD_some, Record.size_toNat] using hrepeats
    · rintro ⟨oldOffset', oldData', hoffset', ⟨⟩, hrepeats⟩ rw hrw l _ m
      obtain rfl : oldOffset = oldOffset' := by
        rw [hoffset] at hoffset'
        exact Option.some.inj hoffset'
      have hexits := exits_cut_write hrw base rs pc offset data k hk l m
      simp only [htype l, if_true, loadAll_offset, loadAll_data, loadAll_size, hold, hoffset,
        Option.map_some, Option.getD_some, Record.size_toNat] at hexits
      rw [if_neg (Nat.not_le_of_lt (cutSize_lt k data oldData))] at hexits
      rwa [Patch.apply_of_repeats hrepeats] at hexits

/-- Only the whole records of a trace are replayed, and nothing else, exactly when the round in
which the file ends makes no difference. -/
theorem cut_trace_iff (base : UInt64) (rs : List Record) (r : Record) (k : Nat)
    (hk : k < r.encode.length) :
    ReplaysComplete base rs (r.encode.take k) ↔ HarmlessCut base rs r k := by
  by_cases h8 : k ≤ 8
  · unfold HarmlessCut
    rw [replaysComplete_in_pc base rs r h8, if_pos h8]
  · unfold HarmlessCut
    rw [if_neg h8]
    have h8 : 8 < k := by omega
    have hother (hr : r.data? = none) : ReplaysComplete base rs (r.encode.take k) := by
      intro rw hrw l _ m
      obtain ⟨l', hdecode, hwrite⟩ := decode_cut_other hr h8 hk (loadAll rs l)
      have hlast := exits_last hrw base (m := Patch.applyAll (rs.map (Record.patch base)) m) hdecode
      rw [if_neg hwrite] at hlast
      exact exits_records hrw base rs _ l m hlast
    cases r with
    | write pc offset data => exact replaysComplete_in_write base rs pc offset data h8 hk
    | flush pc offset => exact iff_of_true (hother rfl) trivial
    | fence pc => exact iff_of_true (hother rfl) trivial

/-- A write of two bytes that begins like this one, and another that ends differently. -/
def firstWrite : Record := .write 0x1000 0 ⟨[10, 11], by decide⟩
def secondWrite : Record := .write 0x1004 0 ⟨[10, 12], by decide⟩

/-- The first byte of the second write is there, and the second byte of the first one. -/
theorem cut_trace_iff_same_byte :
    ReplaysComplete 0x48000000 [firstWrite] (secondWrite.encode.take 29) := by
  have hoffset : cutOffset 29 0 0 = 0 := by decide
  have hdata : cutData 29 [10, 12] [10, 11] 2 = [10, 11] := by decide
  have hblock : Patch.Repeats ([firstWrite].map (Record.patch 0x48000000))
      (Patch.block (2 ^ 64) (0x48000000 + cutOffset 29 0 0).toNat (cutData 29 [10, 12] [10, 11] 2)) := by
    rw [hoffset, hdata]
    exact Patch.repeats_last [] (firstWrite.patch 0x48000000)
  refine (cut_trace_iff 0x48000000 [firstWrite] secondWrite 29 (by decide)).mpr ?_
  unfold HarmlessCut
  rw [if_neg (by decide)]
  exact ⟨0, ⟨[10, 11], by decide⟩, rfl, rfl, hblock⟩

/-- A write that is cut behind its first byte is replayed with a zero in place of the second. -/
theorem cut_write_replayed : ¬ ∀ (base : UInt64) (rs : List Record) (r : Record) (k : Nat),
    k < r.encode.length → (k = 0 → rs = []) → ReplaysComplete base rs (r.encode.take k) := by
  intro h
  have hcomplete := h 0x48000000 [] firstWrite 29 (by decide) (by decide)
  obtain ⟨_, _, _, hdata, _⟩ := (replaysComplete_in_write 0x48000000 [] 0x1000 0 _ (by decide)
    (by decide)).mp hcomplete
  cases hdata

end PMTester
