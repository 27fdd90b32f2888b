import PMTester.Types

/-!
# The interface below the wrapper

`FsFns` is the class of the same name: the system calls the wrapper makes, over
an arbitrary state, so that a theorem about all `FsFns` is a theorem about every
file system behaviour. A `Host` adds the two things the recorder takes from its
process rather than from `FsFns`: the memory `CmMsync` copies from, and the
iteration order of its hash map.
-/
namespace PMTester

structure FsFns (σ : Type) where
  fnMknod : Path → Flags → Nat → σ → Int × σ
  fnMkdir : Path → Flags → σ → Int × σ
  fnOpen : Path → Flags → σ → Int × σ
  fnOpen2 : Path → Flags → Flags → σ → Int × σ
  fnLseek : Int → Int → Int → σ → Int × σ
  fnWrite : Int → List UInt8 → σ → Int × σ
  fnPwrite : Int → List UInt8 → Int → σ → Int × σ
  fnMmap : Nat → Nat → Flags → Flags → Int → Int → σ → Nat × σ
  fnMsync : Nat → Nat → Flags → σ → Int × σ
  fnMunmap : Nat → Nat → σ → Int × σ
  fnFallocate : Int → Flags → Int → Int → σ → Int × σ
  fnClose : Int → σ → Int × σ
  fnRename : Path → Path → σ → Int × σ
  fnUnlink : Path → σ → Int × σ
  fnRemove : Path → σ → Int × σ
  fnStat : Path → σ → (Int × Stat) × σ
  fnPathExists : Path → σ → Bool × σ
  fnFsync : Int → σ → Int × σ
  fnFdatasync : Int → σ → Int × σ
  fnSync : σ → σ
  fnSyncFileRange : Int → Nat → Nat → Flags → σ → Int × σ
  cmCheckpoint : σ → Int × σ

/-- `MAP_FAILED`, that is `(void*) -1`. -/
def mapFailed : Nat := 2 ^ 64 - 1

/-- A value of `mmap_map_` with its key: a mapping's address, file, offset and length. -/
structure MmapEntry where
  base : Nat
  path : Path
  offset : Nat
  length : Nat
  deriving DecidableEq, Repr

structure Host (σ : Type) extends FsFns σ where
  /-- The mapped bytes of the process; `none` where an access would fault. -/
  memory : σ → Nat → Option UInt8
  order : List MmapEntry → List MmapEntry
  order_perm : ∀ l, (order l).Perm l

/-- `memcpy` of `length` bytes from an address, or a fault. -/
def load (memory : Nat → Option UInt8) (address length : Nat) : Option (List UInt8) :=
  (List.range length).mapM fun i => memory (address + i)

theorem length_mapM_some {α β : Type} (f : α → Option β) (xs : List α) (ys : List β)
    (h : xs.mapM f = some ys) : ys.length = xs.length := by
  induction xs generalizing ys with
  | nil => simp_all
  | cons x xs ih =>
    rw [List.mapM_cons] at h
    cases hx : f x with
    | none => simp [hx] at h
    | some y =>
      cases hxs : xs.mapM f with
      | none => simp [hx, hxs] at h
      | some zs =>
        have hys : y :: zs = ys := by simpa [hx, hxs] using h
        rw [← hys, List.length_cons, List.length_cons, ih zs hxs]

theorem load_length (memory : Nat → Option UInt8) (address length : Nat) (bytes : List UInt8)
    (h : load memory address length = some bytes) : bytes.length = length := by
  simpa using length_mapM_some _ _ _ h

end PMTester
