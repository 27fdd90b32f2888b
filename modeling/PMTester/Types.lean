import Mathlib.Algebra.Ring.Nat
import Mathlib.Algebra.Ring.Int.Defs
import Mathlib.Data.List.Basic

/-!
System data types shared by the recorder, the log and the checker: C strings as
byte lists, `struct stat` with the fields the program reads, and the flag bits
the program tests, with their Linux values.
-/
namespace PMTester

/-- A `std::string`; the terminating NUL is not part of the list. -/
abbrev Path := List UInt8

/-- What a callee sees of a string passed as `c_str()`: it ends at the first NUL. -/
def cStr (p : Path) : Path := p.takeWhile (· != 0)

theorem cStr_cStr (p : Path) : cStr (cStr p) = cStr p := by
  induction p with
  | nil => rfl
  | cons b rest ih =>
    cases hb : (b != 0) with
    | false => simp [cStr, hb]
    | true => simpa [cStr, hb] using ih

theorem cStr_append_of_mem {bytes : List UInt8} (h : 0 ∈ bytes) (tail : List UInt8) :
    cStr (bytes ++ tail) = cStr bytes := by
  induction bytes with
  | nil => cases h
  | cons b rest ih =>
    by_cases hb : b = 0
    · simp [cStr, hb]
    · have hrest := ih (by simpa [Ne.symm hb] using h)
      simpa [cStr, hb] using hrest

theorem cStr_append_of_notMem {bytes : List UInt8} (h : 0 ∉ bytes) (tail : List UInt8) :
    cStr (bytes ++ tail) = bytes ++ cStr tail := by
  apply List.takeWhile_append_of_pos
  intro b hb
  simpa using ne_of_mem_of_not_mem hb h

theorem cStr_eq_self {p : Path} (h : 0 ∉ p) : cStr p = p := by
  simpa [cStr] using cStr_append_of_notMem h []

/-- An ASCII literal as a path. -/
def path (s : List Char) : Path := s.map fun c => UInt8.ofNat c.toNat

abbrev Flags := BitVec 32

/-- `flags & bit`, as a condition. -/
def Flags.has (flags bit : Flags) : Bool := flags &&& bit != 0#32

def oAccmode : Flags := 3#32
def oWronly : Flags := 1#32
def oRdwr : Flags := 2#32
def oCreat : Flags := 64#32
def oExcl : Flags := 128#32
def oTrunc : Flags := 512#32
def oAppend : Flags := 1024#32

def protWrite : Flags := 2#32
def mapPrivate : Flags := 2#32
def mapAnonymous : Flags := 32#32
def msAsync : Flags := 1#32

def fallocFlKeepSize : Flags := 1#32
def fallocFlPunchHole : Flags := 2#32
def fallocFlCollapseRange : Flags := 8#32
def fallocFlZeroRange : Flags := 16#32

def seekSet : Int := 0
def seekCur : Int := 1
def seekEnd : Int := 2

/-- `read` and `write` move at most this many bytes in one call. -/
def maxRwCount : Nat := 0x7ffff000

def sIfmt : Flags := 0o170000#32
def sIfdir : Flags := 0o040000#32
def sIfreg : Flags := 0o100000#32
def sIflnk : Flags := 0o120000#32

/-- `struct stat`. The default value is the zeroed buffer that `DiskMod::Reset` leaves. -/
@[ext] structure Stat where
  stIno : Nat := 0
  stMode : Flags := 0#32
  stNlink : Nat := 0
  stUid : Nat := 0
  stGid : Nat := 0
  stSize : Int := 0
  stBlksize : Int := 0
  stBlocks : Int := 0
  deriving DecidableEq, Repr

def Stat.isDir (s : Stat) : Bool := s.stMode &&& sIfmt == sIfdir
def Stat.isReg (s : Stat) : Bool := s.stMode &&& sIfmt == sIfreg

end PMTester
