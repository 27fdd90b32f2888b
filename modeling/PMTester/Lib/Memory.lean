import Mathlib.Algebra.Ring.Nat
import Mathlib.Data.List.Range
import Mathlib.Data.List.GetD

/-!
Byte-addressed memory and block stores. A block store is one `memcpy`: it
replaces the bytes at consecutive addresses and leaves every other byte alone.
A list of stores `Tiles` an interval when each begins where the one before it
ended; such a list has the effect of one store of the concatenated blocks.
-/
namespace PMTester.Memory

abbrev Mem := Nat → UInt8

/-- Copy a block of bytes to an address. -/
def store (m : Mem) (address : Nat) (bytes : List UInt8) : Mem :=
  fun i => if address ≤ i then (bytes[i - address]?).getD (m i) else m i

@[simp] theorem store_nil (m : Mem) (address : Nat) : store m address [] = m := by
  funext i
  simp [store]

theorem store_inside (m : Mem) (address i : Nat) (bytes : List UInt8)
    (h : i < bytes.length) : store m address bytes (address + i) = bytes[i] := by
  simp [store, h]

theorem store_outside (m : Mem) (address i : Nat) (bytes : List UInt8)
    (h : i < address ∨ address + bytes.length ≤ i) : store m address bytes i = m i := by
  unfold store
  split
  · rw [List.getElem?_eq_none (by omega), Option.getD_none]
  · rfl

/-- A store looks the same from every base: only the distance to its address counts. -/
theorem store_shift (m m' : Mem) (address address' i i' : Nat) (bytes : List UInt8)
    (hm : m i = m' i') (hle : address ≤ i ↔ address' ≤ i') (hsub : i - address = i' - address') :
    store m address bytes i = store m' address' bytes i' := by
  simp only [store, hm, hsub, hle]

/-- Storing the same block twice is storing it once. -/
theorem store_idem (m : Mem) (address : Nat) (bytes : List UInt8) :
    store (store m address bytes) address bytes = store m address bytes := by
  funext i
  by_cases h : address ≤ i ∧ i < address + bytes.length
  · obtain ⟨j, rfl⟩ := Nat.exists_eq_add_of_le h.1
    rw [store_inside _ _ _ _ (by omega), store_inside _ _ _ _ (by omega)]
  · rw [store_outside _ _ _ _ (by omega)]

/-- Two adjacent stores are one store of the concatenation. -/
theorem store_append (m : Mem) (address : Nat) (xs ys : List UInt8) :
    store (store m address xs) (address + xs.length) ys = store m address (xs ++ ys) := by
  funext i
  simp only [store]
  by_cases hx : address ≤ i
  · by_cases hy : address + xs.length ≤ i
    · have hsub : i - address - xs.length = i - (address + xs.length) := by omega
      rw [if_pos hx, if_pos hx, if_pos hy, List.getElem?_append_right (by omega), hsub,
        List.getElem?_eq_none (l := xs) (by omega), Option.getD_none]
    · rw [if_pos hx, if_pos hx, if_neg hy, List.getElem?_append_left (by omega)]
  · rw [if_neg hx, if_neg hx, if_neg (by omega)]

/-- One `memcpy` into a buffer: where it starts and what it copies. -/
structure Store where
  offset : Nat
  bytes : List UInt8
  deriving DecidableEq, Repr

def Store.stop (s : Store) : Nat := s.offset + s.bytes.length

def storeAll (m : Mem) (stores : List Store) : Mem :=
  stores.foldl (fun m s => store m s.offset s.bytes) m

/-- The byte that a store puts at an address, if it reaches it. -/
def Store.byteAt (s : Store) (a : Nat) : Option UInt8 :=
  if s.offset ≤ a then s.bytes[a - s.offset]? else none

/-- The byte that the last store to reach an address puts there. -/
def lastByte (stores : List Store) (a : Nat) : Option UInt8 :=
  (stores.filterMap (·.byteAt a)).getLast?

theorem Store.byteAt_eq_none (s : Store) (a : Nat) :
    s.byteAt a = none ↔ a < s.offset ∨ s.stop ≤ a := by
  unfold Store.byteAt Store.stop
  split
  · rw [List.getElem?_eq_none_iff]
    omega
  · exact iff_of_true rfl (by omega)

theorem lastByte_cons (s : Store) (rest : List Store) (a : Nat) :
    lastByte (s :: rest) a = (lastByte rest a).or (s.byteAt a) := by
  unfold lastByte
  cases hs : s.byteAt a with
  | none => simp [hs]
  | some b => simp [hs, List.getLast?_cons]

theorem lastByte_eq_none (stores : List Store) (a : Nat) :
    lastByte stores a = none ↔ ∀ s ∈ stores, s.byteAt a = none := by
  simp [lastByte]

/-- After a list of stores an address holds the byte of the last one to reach it. -/
theorem storeAll_apply (m : Mem) (stores : List Store) (a : Nat) :
    storeAll m stores a = (lastByte stores a).getD (m a) := by
  induction stores generalizing m with
  | nil => rfl
  | cons s rest ih =>
    have hstep : store m s.offset s.bytes a = (s.byteAt a).getD (m a) := by
      unfold store Store.byteAt
      split <;> rfl
    have hrest : storeAll m (s :: rest) a = storeAll (store m s.offset s.bytes) rest a := rfl
    rw [hrest, ih, hstep, lastByte_cons]
    cases lastByte rest a <;> rfl

/-- Number of bytes a list of stores copies. -/
def storedCount (stores : List Store) : Nat := (stores.map (·.bytes.length)).sum

/-- The first `size` bytes of a buffer. -/
def image (m : Mem) (size : Nat) : List UInt8 := (List.range size).map m

/-- The blocks a list of stores copies, in order. -/
def blocks (stores : List Store) : List UInt8 := stores.flatMap (·.bytes)

theorem length_blocks (stores : List Store) : (blocks stores).length = storedCount stores := by
  simp [blocks, storedCount, List.length_flatMap]

/-- The stores cover the interval from `start` to `stop` without gap or overlap. -/
def Tiles : Nat → List Store → Nat → Prop
  | start, [], stop => start = stop
  | start, s :: rest, stop => s.offset = start ∧ Tiles s.stop rest stop

@[simp] theorem tiles_nil (start stop : Nat) : Tiles start [] stop ↔ start = stop := Iff.rfl
@[simp] theorem tiles_cons (start stop : Nat) (s : Store) (rest : List Store) :
    Tiles start (s :: rest) stop ↔ s.offset = start ∧ Tiles s.stop rest stop := Iff.rfl

theorem tiles_append (start mid stop : Nat) (xs ys : List Store)
    (hx : Tiles start xs mid) (hy : Tiles mid ys stop) : Tiles start (xs ++ ys) stop := by
  induction xs generalizing start with
  | nil =>
    subst hx
    exact hy
  | cons s rest ih => exact ⟨hx.1, ih s.stop hx.2⟩

theorem tiles_stop (start stop : Nat) (stores : List Store) (h : Tiles start stores stop) :
    stop = start + storedCount stores := by
  induction stores generalizing start with
  | nil => simpa [storedCount] using h.symm
  | cons s rest ih =>
    have hrest := ih s.stop h.2
    have hs : s.offset = start := h.1
    simp only [Store.stop, storedCount, List.map_cons, List.sum_cons] at hrest ⊢
    omega

/-- Stores that tile an interval act as one store of the concatenated blocks. -/
theorem storeAll_tiles (m : Mem) (start stop : Nat) (stores : List Store)
    (h : Tiles start stores stop) : storeAll m stores = store m start (blocks stores) := by
  induction stores generalizing m start with
  | nil => simp [storeAll, blocks]
  | cons s rest ih =>
    have hs : s.offset = start := h.1
    have hrest := ih (store m s.offset s.bytes) s.stop h.2
    change storeAll (store m s.offset s.bytes) rest = _
    rw [hrest, Store.stop, hs, store_append]
    rfl

/-- The front of a buffer tiled from its first byte holds the front of the blocks. -/
theorem image_of_tiles (m : Mem) (size stop : Nat) (stores : List Store)
    (h : Tiles 0 stores stop) (hsize : size ≤ stop) :
    image (storeAll m stores) size = (blocks stores).take size := by
  have hlen : (blocks stores).length = stop := by
    have hstop := tiles_stop 0 stop stores h
    rw [length_blocks]
    omega
  rw [storeAll_tiles m 0 stop stores h]
  apply List.ext_getElem
  · simp [image, hlen, hsize]
  · intro i hi hi'
    have hi : i < size := by simpa [image] using hi
    have hin := store_inside m 0 i (blocks stores) (by omega)
    simpa [image] using hin

/-- Every store of a tiling ends inside the interval. -/
theorem tiles_within (start stop : Nat) (stores : List Store) (h : Tiles start stores stop) :
    ∀ s ∈ stores, start ≤ s.offset ∧ s.stop ≤ stop := by
  induction stores generalizing start with
  | nil => simp
  | cons s rest ih =>
    have hend := tiles_stop s.stop stop rest h.2
    have hs : s.offset = start := h.1
    intro t ht
    rcases List.mem_cons.mp ht with rfl | ht
    · exact ⟨by omega, by omega⟩
    · have hrest := ih s.stop h.2 t ht
      simp only [Store.stop] at hrest ⊢
      omega

/-- Every byte of the interval is covered by some store of the tiling. -/
theorem tiles_cover (start stop : Nat) (stores : List Store) (h : Tiles start stores stop)
    (i : Nat) (hlo : start ≤ i) (hhi : i < stop) :
    ∃ s ∈ stores, s.offset ≤ i ∧ i < s.stop := by
  induction stores generalizing start with
  | nil =>
    have : start = stop := h
    omega
  | cons s rest ih =>
    have hs : s.offset = start := h.1
    by_cases hi : i < s.stop
    · exact ⟨s, by simp, by omega, hi⟩
    · obtain ⟨t, ht, hcover⟩ := ih s.stop h.2 (by omega)
      exact ⟨t, by simp [ht], hcover⟩

end PMTester.Memory
