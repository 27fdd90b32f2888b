import Mathlib.Data.Nat.Find
import PMTester.RenamePaths

/-!
# The end of a monitor reply

`ReceiveReply` reads from the socket until it finds the end marker. Every `recv`
overwrites the front of one stack buffer, and what is searched is the buffer as
a C string: it may end early, inside the bytes just read, or run on into bytes
that earlier reads or earlier calls left behind them.
-/
namespace PMTester

inductive SockError where
  | eNotConnected | eAlreadyConnected | eOther | eNone
  deriving DecidableEq, Repr

def BUFLEN : Nat := 4096

/-- The string that the monitor ends a reply with. -/
def cmEOF : Path := path ['c', 'm', 'E', 'O', 'F']

/-- What `recv` leaves in the buffer. -/
def recvInto (chunk buffer : List UInt8) : List UInt8 := chunk ++ buffer.drop chunk.length

/-- `ReceiveReply`: the result and the number of `recv` calls made, `none` while it waits for more.
`chunks` is what the calls deliver, nothing for a result of 0 or less; `beyond` is what lies
behind the buffer. -/
def receiveReply (beyond : List UInt8) :
    List UInt8 → List (List UInt8) → Option (SockError × Nat)
  | _, [] => none
  | buffer, chunk :: rest =>
    if chunk = [] then some (.eOther, 1)
    else
      let buffer := recvInto chunk buffer
      let compare := cStr (buffer ++ beyond)
      match find cmEOF compare with
      | some _ => some (.eNone, 1)
      | none => (receiveReply beyond buffer rest).map fun r => (r.1, r.2 + 1)

/-- The first place below `n` at which `P` holds. -/
def FirstAt (P : Nat → Prop) (n k : Nat) : Prop := k < n ∧ P k ∧ ∀ j < k, ¬ P j

/-- Two properties begin at the same place when they agree up to the place where one begins. -/
theorem firstAt_congr_iff {P Q : Nat → Prop} {n : Nat} :
    (∀ k, FirstAt P n k ↔ FirstAt Q n k) ↔ ∀ i < n, (∀ j < i, ¬ Q j) → (P i ↔ Q i) := by
  classical
  constructor
  · intro h i hi hbefore
    constructor
    · intro hp
      have hex : ∃ k, P k := ⟨i, hp⟩
      have hle : Nat.find hex ≤ i := Nat.find_min' hex hp
      have hfirst : FirstAt P n (Nat.find hex) :=
        ⟨by omega, Nat.find_spec hex, fun j hj => Nat.find_min hex hj⟩
      have hq := ((h _).mp hfirst).2.1
      have heq : Nat.find hex = i := by
        by_contra hne
        exact hbefore _ (by omega) hq
      rwa [heq] at hq
    · intro hq
      exact ((h i).mpr ⟨hi, hq, hbefore⟩).2.1
  · intro h k
    constructor
    · rintro ⟨hk, hp, hbefore⟩
      have hnone : ∀ j < k, ¬ Q j := by
        intro j
        induction j using Nat.strong_induction_on with
        | _ j ih =>
          intro hj hq
          exact hbefore j hj ((h j (by omega) fun i hi => ih i hi (by omega)).mpr hq)
      exact ⟨hk, (h k hk hnone).mp hp, hnone⟩
    · rintro ⟨hk, hq, hbefore⟩
      have hnone : ∀ j < k, ¬ P j := fun j hj hp =>
        hbefore j hj ((h j (by omega) fun i hi => hbefore i (by omega)).mp hp)
      exact ⟨hk, (h k hk hbefore).mpr hq, hnone⟩

/-- The marker occurs in these bytes. -/
def Marked (bytes : List UInt8) : Prop := cmEOF <:+: bytes

instance (bytes : List UInt8) : Decidable (Marked bytes) := inferInstanceAs (Decidable (_ <:+: _))

theorem find_cmEOF_none {s : Path} : find cmEOF s = none ↔ ¬ Marked s := by
  constructor
  · exact find_eq_none
  · intro h
    cases hf : find cmEOF s with
    | none => rfl
    | some found =>
      exact absurd ⟨s.take found, s.drop (found + cmEOF.length), (find_split hf).symm⟩ h

/-- The buffer after these reads. -/
def held (buffer : List UInt8) (chunks : List (List UInt8)) : List UInt8 :=
  chunks.foldl (fun buffer chunk => recvInto chunk buffer) buffer

/-- The marker is found after the read at this place. -/
def Sees (beyond buffer : List UInt8) (chunks : List (List UInt8)) (i : Nat) : Prop :=
  Marked (cStr (held buffer (chunks.take (i + 1)) ++ beyond))

theorem sees_zero (beyond buffer chunk : List UInt8) (rest : List (List UInt8)) :
    Sees beyond buffer (chunk :: rest) 0 ↔ Marked (cStr (recvInto chunk buffer ++ beyond)) :=
  Iff.rfl

/-- The function returns `eNone` at the first read after which it finds the marker. -/
theorem receiveReply_eNone_iff (beyond buffer : List UInt8) (chunks : List (List UInt8))
    (hchunks : ∀ c ∈ chunks, c ≠ []) (k : Nat) :
    receiveReply beyond buffer chunks = some (.eNone, k) ↔
      ∃ i, k = i + 1 ∧ FirstAt (Sees beyond buffer chunks) chunks.length i := by
  induction chunks generalizing buffer k with
  | nil => simp [receiveReply, FirstAt]
  | cons chunk rest ih =>
    have hchunk : chunk ≠ [] := hchunks chunk (by simp)
    have hrest := ih (recvInto chunk buffer) fun c hc => hchunks c (by simp [hc])
    cases hfind : find cmEOF (cStr (recvInto chunk buffer ++ beyond)) with
    | some found =>
      have hsees : Sees beyond buffer (chunk :: rest) 0 := by
        rw [sees_zero]
        by_contra hnot
        rw [find_cmEOF_none.mpr hnot] at hfind
        cases hfind
      simp only [receiveReply, hchunk, if_false, hfind]
      constructor
      · intro h
        cases h
        exact ⟨0, rfl, by simp, hsees, fun j hj => absurd hj (Nat.not_lt_zero j)⟩
      · rintro ⟨i, rfl, -, -, hbefore⟩
        cases i with
        | zero => rfl
        | succ i => exact absurd hsees (hbefore 0 (by omega))
    | none =>
      have hnot : ¬ Sees beyond buffer (chunk :: rest) 0 := find_cmEOF_none.mp hfind
      simp only [receiveReply, hchunk, if_false, hfind, Option.map_eq_some_iff, Prod.exists,
        Prod.mk.injEq]
      constructor
      · rintro ⟨err, j, hreply, rfl, rfl⟩
        obtain ⟨i, rfl, hlt, hsees, hbefore⟩ := (hrest j).mp hreply
        refine ⟨i + 1, rfl, by simpa using hlt, hsees, fun j hj => ?_⟩
        cases j with
        | zero => exact hnot
        | succ j => exact hbefore j (by omega)
      · rintro ⟨i, rfl, hlt, hsees, hbefore⟩
        cases i with
        | zero => exact absurd hsees hnot
        | succ i =>
          have hfirst : FirstAt (Sees beyond (recvInto chunk buffer) rest) rest.length i :=
            ⟨by simpa using hlt, hsees, fun j hj => hbefore (j + 1) (by omega)⟩
          exact ⟨_, _, (hrest (i + 1)).mpr ⟨i, rfl, hfirst⟩, rfl, rfl⟩

/-- The byte at a place of the buffer: it comes from the last read that was longer, or was there
before the first one. -/
def leftAt (buffer : List UInt8) (earlier : List (List UInt8)) (j : Nat) : UInt8 :=
  match earlier.reverse.find? fun c => j < c.length with
  | some c => c.getD j 0
  | none => buffer.getD j 0

/-- The bytes of the buffer behind its first `n`. -/
def leftBehind (buffer : List UInt8) (earlier : List (List UInt8)) (n : Nat) : List UInt8 :=
  (List.range' n (BUFLEN - n)).map (leftAt buffer earlier)

theorem length_held (buffer : List UInt8) (chunks : List (List UInt8))
    (hbuffer : buffer.length = BUFLEN) (hchunks : ∀ c ∈ chunks, c.length ≤ BUFLEN) :
    (held buffer chunks).length = BUFLEN := by
  induction chunks generalizing buffer with
  | nil => exact hbuffer
  | cons chunk rest ih =>
    have hchunk := hchunks chunk (by simp)
    refine ih (recvInto chunk buffer) ?_ fun c hc => hchunks c (by simp [hc])
    simp only [recvInto, List.length_append, List.length_drop]
    omega

theorem held_concat (buffer : List UInt8) (chunks : List (List UInt8)) (chunk : List UInt8) :
    held buffer (chunks ++ [chunk]) = recvInto chunk (held buffer chunks) := by
  simp [held]

theorem held_getD (buffer : List UInt8) (chunks : List (List UInt8)) (j : Nat) :
    (held buffer chunks).getD j 0 = leftAt buffer chunks j := by
  induction chunks using List.reverseRecOn with
  | nil => rfl
  | append_singleton chunks chunk ih =>
    rw [held_concat, leftAt, List.reverse_append, List.reverse_singleton, List.singleton_append,
      List.find?_cons, recvInto]
    by_cases hj : j < chunk.length
    · rw [List.getD_append _ _ _ _ hj]
      simp [hj]
    · have hj' : chunk.length + (j - chunk.length) = j := by omega
      rw [List.getD_append_right _ _ _ _ (by omega), List.getD_eq_getElem?_getD,
        List.getElem?_drop, hj', ← List.getD_eq_getElem?_getD, ih]
      simp [hj, leftAt]

theorem drop_held (buffer : List UInt8) (chunks : List (List UInt8)) (n : Nat)
    (hbuffer : buffer.length = BUFLEN) (hchunks : ∀ c ∈ chunks, c.length ≤ BUFLEN) :
    (held buffer chunks).drop n = leftBehind buffer chunks n := by
  have hlen := length_held buffer chunks hbuffer hchunks
  apply List.ext_getElem
  · simp [leftBehind, hlen]
  · intro i hi hi'
    have hin : n + i < (held buffer chunks).length := by
      simp only [List.length_drop] at hi
      omega
    simp only [leftBehind, List.getElem_drop, List.getElem_map, List.getElem_range', Nat.one_mul]
    rw [← held_getD, List.getD_eq_getElem _ _ hin]

/-- What is searched after a read: the bytes read and the ones left behind them, up to a NUL. -/
theorem sees_iff {beyond buffer : List UInt8} {chunks : List (List UInt8)}
    (hbuffer : buffer.length = BUFLEN) (hchunks : ∀ c ∈ chunks, c.length ≤ BUFLEN) {i : Nat}
    (hi : i < chunks.length) :
    Sees beyond buffer chunks i ↔
      Marked (cStr (chunks[i] ++ (leftBehind buffer (chunks.take i) chunks[i].length ++ beyond))) := by
  have hearlier : ∀ c ∈ chunks.take i, c.length ≤ BUFLEN :=
    fun c hc => hchunks c (List.mem_of_mem_take hc)
  rw [Sees, List.take_succ_eq_append_getElem hi, held_concat, recvInto,
    drop_held buffer _ _ hbuffer hearlier, List.append_assoc]

/-- The marker is complete after the read at this place. -/
def Complete (chunks : List (List UInt8)) (i : Nat) : Prop := Marked (chunks.take (i + 1)).flatten

/-- `eNone` is returned at the first read that completes the marker, and only there. -/
def Framed (beyond buffer : List UInt8) (chunks : List (List UInt8)) : Prop :=
  ∀ k, receiveReply beyond buffer chunks = some (.eNone, k) ↔
    ∃ i, k = i + 1 ∧ FirstAt (Complete chunks) chunks.length i

/-- The segmentations on which the buffer does no harm: what is left behind the bytes of a read does
not make up a marker before the stream has one, and the read that completes the marker brings it
whole before any NUL, or is itself without NUL and has a marker made up behind it. -/
structure Kept (beyond buffer : List UInt8) (chunks : List (List UInt8)) : Prop where
  before : ∀ i (hi : i < chunks.length), ¬ Complete chunks i → 0 ∉ chunks[i] →
    ¬ Marked (chunks[i] ++ cStr (leftBehind buffer (chunks.take i) chunks[i].length ++ beyond))
  completing : ∀ i (hi : i < chunks.length), FirstAt (Complete chunks) chunks.length i →
    Marked (cStr chunks[i]) ∨ (0 ∉ chunks[i] ∧
      Marked (chunks[i] ++ cStr (leftBehind buffer (chunks.take i) chunks[i].length ++ beyond)))

theorem Marked.mono {s t : List UInt8} (h : Marked s) (hst : s <:+: t) : Marked t := h.trans hst

/-- The bytes of one read are among the bytes received by then. -/
theorem chunk_within {chunks : List (List UInt8)} {i : Nat} (hi : i < chunks.length) :
    chunks[i] <:+: (chunks.take (i + 1)).flatten := by
  rw [List.take_succ_eq_append_getElem hi, List.flatten_append, List.flatten_singleton]
  exact (List.suffix_append _ _).isInfix

theorem Complete.mono {chunks : List (List UInt8)} {i j : Nat} (hij : i ≤ j)
    (h : Complete chunks i) : Complete chunks j := by
  have hsplit : chunks.take (j + 1) =
      chunks.take (i + 1) ++ (chunks.drop (i + 1)).take (j - i) := by
    have hcount : j + 1 = (i + 1) + (j - i) := by omega
    rw [hcount, List.take_add]
  rw [Complete, hsplit, List.flatten_append]
  exact Marked.mono h (List.prefix_append _ _).isInfix

/-- The reply is framed by the marker alone exactly on the segmentations that are kept. -/
theorem receiveReply_framed_iff (beyond buffer : List UInt8) (chunks : List (List UInt8))
    (hbuffer : buffer.length = BUFLEN) (hchunks : ∀ c ∈ chunks, 1 ≤ c.length ∧ c.length ≤ BUFLEN) :
    Framed beyond buffer chunks ↔ Kept beyond buffer chunks := by
  have hne : ∀ c ∈ chunks, c ≠ [] := fun c hc => List.length_pos_iff.mp (hchunks c hc).1
  have hlen : ∀ c ∈ chunks, c.length ≤ BUFLEN := fun c hc => (hchunks c hc).2
  have hfirst : Framed beyond buffer chunks ↔ ∀ k, FirstAt (Sees beyond buffer chunks)
      chunks.length k ↔ FirstAt (Complete chunks) chunks.length k := by
    simp only [Framed, receiveReply_eNone_iff beyond buffer chunks hne]
    constructor
    · intro h k
      have hk := h (k + 1)
      simpa using hk
    · intro h k
      simp only [h]
  rw [hfirst, firstAt_congr_iff]
  constructor
  · intro h
    constructor
    · intro i hi hnot hnul
      have hbefore : ∀ j < i, ¬ Complete chunks j := fun j hj hc => hnot (hc.mono (by omega))
      have hsees := mt (h i hi hbefore).mp hnot
      rwa [sees_iff hbuffer hlen hi, cStr_append_of_notMem hnul] at hsees
    · rintro i hi ⟨-, hcomplete, hbefore⟩
      have hsees := (h i hi hbefore).mpr hcomplete
      rw [sees_iff hbuffer hlen hi] at hsees
      by_cases hnul : 0 ∈ chunks[i]
      · rw [cStr_append_of_mem hnul] at hsees
        exact .inl hsees
      · rw [cStr_append_of_notMem hnul] at hsees
        exact .inr ⟨hnul, hsees⟩
  · rintro ⟨hearly, hlate⟩ i hi hbefore
    rw [sees_iff hbuffer hlen hi]
    constructor
    · intro hsees
      by_contra hnot
      by_cases hnul : 0 ∈ chunks[i]
      · rw [cStr_append_of_mem hnul] at hsees
        have hfront : cStr chunks[i] <:+: chunks[i] := (List.takeWhile_prefix _).isInfix
        exact hnot (hsees.mono (hfront.trans (chunk_within hi)))
      · rw [cStr_append_of_notMem hnul] at hsees
        exact hearly i hi hnot hnul hsees
    · intro hcomplete
      rcases hlate i hi ⟨hi, hcomplete, hbefore⟩ with hwhole | ⟨hnul, hmade⟩
      · by_cases hnul : 0 ∈ chunks[i]
        · rw [cStr_append_of_mem hnul]
          exact hwhole
        · rw [cStr_append_of_notMem hnul]
          rw [cStr_eq_self hnul] at hwhole
          exact hwhole.mono (List.prefix_append _ _).isInfix
      · rw [cStr_append_of_notMem hnul]
        exact hmade

/-- A marker that arrives in two parts. -/
theorem splitMarker_not_framed : ¬ Framed [] (List.replicate BUFLEN 0)
    [path ['c', 'm', 'E'], path ['O', 'F']] := by
  intro h
  have hfirst : FirstAt (Complete [path ['c', 'm', 'E'], path ['O', 'F']]) 2 1 := by
    refine ⟨by decide, show Marked _ by decide, fun j hj => ?_⟩
    obtain rfl : j = 0 := by omega
    exact show ¬ Marked _ by decide
  have hreply := (h 2).mpr ⟨1, rfl, hfirst⟩
  have hwaits : receiveReply [] (List.replicate BUFLEN 0)
      [path ['c', 'm', 'E'], path ['O', 'F']] = none := by decide +kernel
  rw [hwaits] at hreply
  cases hreply

theorem segmentation_matters : ¬ ∀ (beyond buffer : List UInt8) (chunks : List (List UInt8)),
    buffer.length = BUFLEN → (∀ c ∈ chunks, 1 ≤ c.length ∧ c.length ≤ BUFLEN) →
    Framed beyond buffer chunks := by
  intro h
  exact splitMarker_not_framed (h [] _ _ List.length_replicate (by decide))

theorem receiveReply_framed_iff_split : ¬ Kept [] (List.replicate BUFLEN 0)
    [path ['c', 'm', 'E'], path ['O', 'F']] := by
  intro h
  exact splitMarker_not_framed ((receiveReply_framed_iff [] (List.replicate BUFLEN 0)
    [path ['c', 'm', 'E'], path ['O', 'F']] List.length_replicate (by decide)).mpr h)

end PMTester
