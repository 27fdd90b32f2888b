import PMTester.Types
import PMTester.Lib.Bytes
import PMTester.Lib.Memory
import PMTester.Lib.Word

/-!
# `DiskMod` and its serialized form

A `DiskMod` describes one change to the file system. `serialize` is kept as the
list of `memcpy`s the source performs, with their offsets, so that a store
outside the allocated buffer is visible; `deserialize` reads from a buffer of
known length and reports a read past its end. Allocations are assumed to
succeed.
-/
namespace PMTester

open Bytes Memory Word

/-- `other` is what a cast of two bytes makes of a value that no enumerator names; it counts
from the last enumerator. -/
inductive ModType where
  | kCreateMod | kDataMetadataMod | kMetadataMod | kDataMod | kDataMmapMod
  | kRemoveMod | kCheckpointMod | kFsyncMod | kSyncMod | kSyncFileRangeMod
  | other (above : Fin (2 ^ 16 - 10))
  deriving DecidableEq, Repr

inductive ModOpts where
  | kNoneOpt | kTruncateOpt
  | kFallocateOpt | kFallocateKeepSizeOpt | kPunchHoleKeepSizeOpt
  | kCollapseRangeOpt | kZeroRangeOpt | kZeroRangeKeepSizeOpt | kInsertRangeOpt
  | kMsAsyncOpt | kMsSyncOpt
  | other (above : Fin (2 ^ 16 - 11))
  deriving DecidableEq, Repr

/-- The default value is the one `DiskMod::Reset` leaves. `fileModData` holds the
bytes behind the data pointer; a null pointer has none. -/
structure DiskMod where
  path : Path := []
  modType : ModType := .kCreateMod
  modOpts : ModOpts := .kNoneOpt
  postModStats : Stat := {}
  directoryMod : Bool := false
  fileModData : List UInt8 := []
  fileModLocation : UInt64 := 0
  fileModLen : UInt64 := 0
  directoryAddedEntry : Path := []
  deriving DecidableEq, Repr

/-- A read that leaves the buffer. -/
inductive Fault where
  | outOfBounds
  deriving DecidableEq, Repr

def ModType.code : ModType → Nat
  | .kCreateMod => 0
  | .kDataMetadataMod => 1
  | .kMetadataMod => 2
  | .kDataMod => 3
  | .kDataMmapMod => 4
  | .kRemoveMod => 5
  | .kCheckpointMod => 6
  | .kFsyncMod => 7
  | .kSyncMod => 8
  | .kSyncFileRangeMod => 9
  | .other above => above + 10

def ModType.ofCode : Nat → ModType
  | 0 => .kCreateMod
  | 1 => .kDataMetadataMod
  | 2 => .kMetadataMod
  | 3 => .kDataMod
  | 4 => .kDataMmapMod
  | 5 => .kRemoveMod
  | 6 => .kCheckpointMod
  | 7 => .kFsyncMod
  | 8 => .kSyncMod
  | 9 => .kSyncFileRangeMod
  | above + 10 => .other ⟨above % (2 ^ 16 - 10), Nat.mod_lt _ (by decide)⟩

def ModOpts.code : ModOpts → Nat
  | .kNoneOpt => 0
  | .kTruncateOpt => 1
  | .kFallocateOpt => 2
  | .kFallocateKeepSizeOpt => 3
  | .kPunchHoleKeepSizeOpt => 4
  | .kCollapseRangeOpt => 5
  | .kZeroRangeOpt => 6
  | .kZeroRangeKeepSizeOpt => 7
  | .kInsertRangeOpt => 8
  | .kMsAsyncOpt => 9
  | .kMsSyncOpt => 10
  | .other above => above + 11

def ModOpts.ofCode : Nat → ModOpts
  | 0 => .kNoneOpt
  | 1 => .kTruncateOpt
  | 2 => .kFallocateOpt
  | 3 => .kFallocateKeepSizeOpt
  | 4 => .kPunchHoleKeepSizeOpt
  | 5 => .kCollapseRangeOpt
  | 6 => .kZeroRangeOpt
  | 7 => .kZeroRangeKeepSizeOpt
  | 8 => .kInsertRangeOpt
  | 9 => .kMsAsyncOpt
  | 10 => .kMsSyncOpt
  | above + 11 => .other ⟨above % (2 ^ 16 - 11), Nat.mod_lt _ (by decide)⟩

@[simp] theorem ModType.ofCode_code (t : ModType) : ModType.ofCode t.code = t := by
  cases t with
  | other above => exact congrArg ModType.other (Fin.ext (Nat.mod_eq_of_lt above.isLt))
  | _ => rfl

@[simp] theorem ModOpts.ofCode_code (o : ModOpts) : ModOpts.ofCode o.code = o := by
  cases o with
  | other above => exact congrArg ModOpts.other (Fin.ext (Nat.mod_eq_of_lt above.isLt))
  | _ => rfl

/-- Two bytes are not changed by the cast. -/
theorem ModType.code_ofCode {code : Nat} (h : code < 256 ^ 2) : (ModType.ofCode code).code = code := by
  unfold ModType.ofCode
  split
  case h_11 above => exact congrArg (· + 10) (Nat.mod_eq_of_lt (by omega))
  all_goals rfl

theorem ModOpts.code_ofCode {code : Nat} (h : code < 256 ^ 2) : (ModOpts.ofCode code).code = code := by
  unfold ModOpts.ofCode
  split
  case h_12 above => exact congrArg (· + 11) (Nat.mod_eq_of_lt (by omega))
  all_goals rfl

theorem ModType.code_lt (t : ModType) : t.code < 256 ^ 2 := by
  cases t with
  | other above => exact Nat.add_lt_of_lt_sub above.isLt
  | _ => decide

theorem ModOpts.code_lt (o : ModOpts) : o.code < 256 ^ 2 := by
  cases o with
  | other above => exact Nat.add_lt_of_lt_sub above.isLt
  | _ => decide

/-- The fallocate options, whose mods carry a range but no data. -/
def ModOpts.isFallocate : ModOpts → Bool
  | .kFallocateOpt | .kFallocateKeepSizeOpt | .kPunchHoleKeepSizeOpt | .kCollapseRangeOpt
  | .kZeroRangeOpt | .kZeroRangeKeepSizeOpt | .kInsertRangeOpt => true
  | _ => false

namespace DiskMod

/-- The types that end right after the header. -/
def headerOnly (dm : DiskMod) : Prop :=
  dm.modType = .kCheckpointMod ∨ dm.modType = .kSyncMod

/-- The test all three codec functions use for "just the offset and length". -/
def rangeOnly (dm : DiskMod) : Prop :=
  dm.modType = .kSyncFileRangeMod ∨ dm.modOpts.isFallocate = true

instance (dm : DiskMod) : Decidable dm.headerOnly :=
  inferInstanceAs (Decidable (_ ∨ _))

instance (dm : DiskMod) : Decidable dm.rangeOnly :=
  inferInstanceAs (Decidable (_ ∨ _))

/-- Number of bytes in serialized form, as a `uint64_t`. -/
def getSerializeSize (dm : DiskMod) : Nat :=
  let res := 2 * 2 + 8
  if dm.headerOnly then res
  else
    let res := res + 1
    let res := res + (dm.path.length + 1)
    if dm.modType = .kFsyncMod ∨ dm.modType = .kRemoveMod ∨ dm.modType = .kCreateMod then
      toUlong res
    else if dm.rangeOnly then toUlong (res + 2 * 8)
    else if dm.directoryMod then toUlong (res + (dm.directoryAddedEntry.length + 1))
    else toUlong (res + 2 * 8 + dm.fileModLen.toNat)

/-- How a call of `serialize` ends. -/
inductive Outcome where
  | buffer | nullptr | assertFailed | badRead
  deriving DecidableEq, Repr

/-- A call of `serialize`: the size allocated, the stores made, and the outcome. -/
structure Serialized where
  size : Nat
  stores : List Store
  outcome : Outcome
  deriving DecidableEq, Repr

def serializeHeader (bufOffset : Nat) (dm : DiskMod) : List Store × Int :=
  ([⟨bufOffset, be 2 dm.modType.code⟩, ⟨bufOffset + 2, be 2 dm.modOpts.code⟩], 2 * 2)

def serializeChangeHeader (bufOffset : Nat) (dm : DiskMod) : List Store × Int :=
  let size := toUnsigned (dm.path.length + 1)
  ([⟨bufOffset, (dm.path ++ [0]).take size⟩,
    ⟨bufOffset + size, [if dm.directoryMod then 1 else 0]⟩], toInt (size + 1))

/-- `none` when the `memcpy` of the data would read past the data it has. -/
def serializeDataRange (bufOffset : Nat) (dm : DiskMod) : Option (List Store × Int) :=
  let range : List Store := [⟨bufOffset, be 8 dm.fileModLocation.toNat⟩,
    ⟨bufOffset + 8, be 8 dm.fileModLen.toNat⟩]
  if dm.rangeOnly then some (range, 2 * 8)
  else if dm.fileModData.length < dm.fileModLen.toNat then none
  else some (range ++ [⟨bufOffset + 16, dm.fileModData.take dm.fileModLen.toNat⟩],
    toInt (2 * 8 + dm.fileModLen.toNat))

/-- `SerializeDirectoryMod`, which is called for a directory, is an assertion that fails. -/
def serialize (dm : DiskMod) : Serialized :=
  let modSize := dm.getSerializeSize
  let sizeStore : Store := ⟨0, be 8 modSize⟩
  let bufOffset := 8
  let (header, res) := serializeHeader bufOffset dm
  if res < 0 then ⟨modSize, sizeStore :: header, .nullptr⟩
  else
    let bufOffset := toUnsigned (bufOffset + res.toNat)
    if dm.headerOnly then ⟨modSize, sizeStore :: header, .buffer⟩
    else
      let (change, res) := serializeChangeHeader bufOffset dm
      let stores := sizeStore :: (header ++ change)
      if res < 0 then ⟨modSize, stores, .nullptr⟩
      else if dm.modType = .kFsyncMod ∨ dm.modType = .kCreateMod then ⟨modSize, stores, .buffer⟩
      else
        let bufOffset := toUnsigned (bufOffset + res.toNat)
        if dm.directoryMod then ⟨modSize, stores, .assertFailed⟩
        else
          match serializeDataRange bufOffset dm with
          | none => ⟨modSize, stores, .badRead⟩
          | some (range, res) =>
            ⟨modSize, stores ++ range, if res < 0 then .nullptr else .buffer⟩

/-- The buffer a call of `serialize` returns, allocated with arbitrary content. -/
def Serialized.frame (s : Serialized) (fresh : Mem) : List UInt8 :=
  image (storeAll fresh s.stores) s.size

/-- Read `n` bytes at the front of what is left of the buffer. -/
def take (n : Nat) (data : List UInt8) : Except Fault (List UInt8 × List UInt8) :=
  if n ≤ data.length then .ok (data.take n, data.drop n) else .error .outOfBounds

/-- `memcpy` into an unsigned integer of `width` bytes, then `be16toh`/`be64toh`. -/
def takeUint (width : Nat) (data : List UInt8) : Except Fault (Nat × List UInt8) :=
  match take width data with
  | .ok (bytes, rest) => .ok (ofBe bytes, rest)
  | .error e => .error e

/-- The character loop over the path. `tmp` holds the characters read since the
last flush; the rest of the 128-byte array is zero. -/
def readPath (path tmp : List UInt8) : List UInt8 → Except Fault (List UInt8 × List UInt8)
  | [] => .error .outOfBounds
  | c :: rest =>
    if c = 0 then .ok (path ++ tmp, rest)
    else if (tmp ++ [c]).length = 128 - 1 then readPath (path ++ (tmp ++ [c])) [] rest
    else readPath path (tmp ++ [c]) rest

/-- Blind deserialization of a buffer. -/
def deserialize (data : List UInt8) : Except Fault DiskMod := do
  let (_, data) ← take 8 data
  let (t, data) ← takeUint 2 data
  let modType := ModType.ofCode t
  let (o, data) ← takeUint 2 data
  let modOpts := ModOpts.ofCode o
  let res : DiskMod := { modType := modType, modOpts := modOpts }
  if res.headerOnly then
    return res
  else
    let (path, data) ← readPath [] [] data
    let (dir, data) ← takeUint 1 data
    let res := { res with path := path, directoryMod := dir != 0 }
    if res.modType = .kFsyncMod ∨ res.modType = .kCreateMod then
      return res
    else
      let (location, data) ← takeUint 8 data
      let (len, data) ← takeUint 8 data
      let res := { res with
        fileModLocation := UInt64.ofNat location, fileModLen := UInt64.ofNat len }
      if res.rangeOnly then
        return res
      else if 0 < len then
        let (bytes, _) ← take len data
        return { res with fileModData := bytes }
      else
        return res

end DiskMod

end PMTester
