import PMTester.WriteData

/-!
# Several calls of `WriteData`

A test fills a file with several calls. What they leave depends on the bytes that
they cover and on nothing else: neither their order nor a repetition, nor the
pieces in which the kernel took them, can be seen in the file.
-/
namespace PMTester

open Word Loop Transfer

/-- A call on the file, with the answers to its `pwrite`s. -/
structure WriteCall where
  answers : Nat → Int
  offset : UInt32
  size : UInt32

namespace WriteCall

/-- The kernel's answers, and a range that ends inside the 32 bits of a position. -/
structure Valid (c : WriteCall) : Prop where
  answers : ∀ i, PwriteAnswer (c.answers i)
  room : c.offset.toNat + c.size.toNat ≤ 2 ^ 32

def Covers (c : WriteCall) (p : Nat) : Prop :=
  c.offset.toNat ≤ p ∧ p < c.offset.toNat + c.size.toNat

end WriteCall

/-- The calls of a test, which gives up at the first one that fails. -/
def writeDataAll (rounds : Nat) : List WriteCall → List UInt8 → Option (CmResult × List UInt8)
  | [], data => some (.ret 0, data)
  | c :: cs, data =>
    match writeData c.answers rounds c.offset c.size ⟨data, 0⟩ with
    | none => none
    | some (.ret res, f) =>
      if res < 0 then some (.ret res, f.data) else writeDataAll rounds cs f.data
    | some (r, f) => some (r, f.data)

/-- The bytes at these positions are those of the block, all others are as before; the file ends
where it did, or behind the last of the positions. -/
structure FilledAt (data data' : List UInt8) (positions : Nat → Prop) : Prop where
  inside : ∀ p, positions p → data'[p]? = kTestDataBlock[p % 4096]?
  outside : ∀ p, ¬ positions p → data'.getD p 0 = data.getD p 0
  length : ∀ n, data'.length ≤ n ↔ data.length ≤ n ∧ ∀ p, positions p → p < n

theorem FilledAt.start (data : List UInt8) : FilledAt data data fun _ => False :=
  ⟨fun _ h => h.elim, fun _ _ => rfl, fun n => by simp⟩

/-- The old content and the positions determine the new content. -/
theorem FilledAt.unique {data d d' : List UInt8} {positions positions' : Nat → Prop}
    (h : FilledAt data d positions) (h' : FilledAt data d' positions')
    (hsame : ∀ p, positions p ↔ positions' p) : d = d' := by
  have hlength : ∀ n, d.length ≤ n ↔ d'.length ≤ n := by
    intro n
    rw [h.length, h'.length]
    simp only [hsame]
  have hlen : d.length = d'.length :=
    le_antisymm ((hlength _).mpr le_rfl) ((hlength _).mp le_rfl)
  apply List.ext_getElem hlen
  intro p hp hp'
  by_cases hin : positions p
  · have heq := (h.inside p hin).trans (h'.inside p ((hsame p).mp hin)).symm
    rw [List.getElem?_eq_getElem hp, List.getElem?_eq_getElem hp'] at heq
    exact Option.some.inj heq
  · have heq := (h.outside p hin).trans (h'.outside p (mt (hsame p).mpr hin)).symm
    rwa [List.getD_eq_getElem _ _ hp, List.getD_eq_getElem _ _ hp'] at heq

/-- A range that is written behind other calls. The file does not become shorter by it. -/
theorem FilledAt.patterned {data d d' : List UInt8} {positions : Nat → Prop}
    (h : FilledAt data d positions) {offset n : Nat} (hnext : Patterned d d' offset n) :
    FilledAt data d' fun p => positions p ∨ offset ≤ p ∧ p < offset + n := by
  constructor
  · intro p hp
    by_cases hin : offset ≤ p ∧ p < offset + n
    · exact hnext.inside p hin.1 hin.2
    · have hold := h.inside p (hp.resolve_right hin)
      have hblock : p % 4096 < kTestDataBlock.length := by
        rw [length_kTestDataBlock]
        omega
      have hlong : p < d.length := by
        by_contra hshort
        rw [List.getElem?_eq_none (by omega), List.getElem?_eq_getElem hblock] at hold
        cases hold
      have hlong' : p < d'.length := by
        rw [hnext.length]
        split <;> omega
      have hsame := hnext.outside p (by omega)
      rw [List.getD_eq_getElem _ _ hlong', List.getD_eq_getElem _ _ hlong] at hsame
      rw [← hold, List.getElem?_eq_getElem hlong', List.getElem?_eq_getElem hlong, hsame]
  · intro p hp
    rw [hnext.outside p (by by_contra hin; exact hp (.inr (by omega))),
      h.outside p fun hin => hp (.inl hin)]
  · intro m
    have hold := h.length m
    have hlen := hnext.length
    constructor
    · intro hm
      have hd : d.length ≤ m := by
        split at hlen <;> omega
      refine ⟨(hold.mp hd).1, fun p hp => ?_⟩
      obtain hp | hp := hp
      · exact (hold.mp hd).2 p hp
      · split at hlen <;> omega
    · rintro ⟨hdata, hpositions⟩
      have hd := hold.mpr ⟨hdata, fun p hp => hpositions p (.inl hp)⟩
      split at hlen
      · omega
      · have hlast := hpositions (offset + n - 1) (.inr (by omega))
        omega

def Covered (cs : List WriteCall) (p : Nat) : Prop := ∃ c ∈ cs, c.Covers p

/-- The calls fill positions that they cover, and all of these if none of them has failed. -/
structure Leaves (cs : List WriteCall) (data : List UInt8) (r : Int) (data' : List UInt8) :
    Prop where
  result : r ≤ 0
  content : ∃ reached : Nat → Prop, FilledAt data data' reached ∧
    (∀ p, reached p → Covered cs p) ∧ (r = 0 → ∀ p, Covered cs p → reached p)

/-- The calls behind others that have filled their positions. -/
theorem writeDataAll_filled (cs : List WriteCall) (hcs : ∀ c ∈ cs, c.Valid) {rounds : Nat}
    (hrounds : 2 ^ 32 ≤ rounds) {data d : List UInt8} {before : Nat → Prop}
    (hd : FilledAt data d before) :
    ∃ (r : Int) (d' : List UInt8) (reached : Nat → Prop),
      writeDataAll rounds cs d = some (.ret r, d') ∧ r ≤ 0 ∧
        FilledAt data d' (fun p => before p ∨ reached p) ∧ (∀ p, reached p → Covered cs p) ∧
        (r = 0 → ∀ p, Covered cs p → reached p) := by
  induction cs generalizing d before with
  | nil =>
    refine ⟨0, d, fun _ => False, rfl, Int.le_refl 0, by simpa using hd, fun _ h => h.elim, ?_⟩
    rintro - p ⟨c, hc, -⟩
    cases hc
  | cons c cs ih =>
    have hc := hcs c (by simp)
    have hsize := c.size.toNat_lt
    obtain ⟨⟨r, f⟩, hrun, ⟨rfl, hdone⟩ | hfailed⟩ :=
      writeData_ends hc.answers c.offset c.size hc.room d (Nat.lt_of_lt_of_le hsize hrounds)
    · obtain ⟨r, d', reached, hrest, hr, hfilled, hcovered, hall⟩ :=
        ih (fun c' hc' => hcs c' (by simp [hc'])) (hd.patterned hdone.content)
      refine ⟨r, d', fun p => c.Covers p ∨ reached p, ?_, hr, ?_, ?_, ?_⟩
      · simp only [writeDataAll, hrun, Int.lt_irrefl, if_false, hrest]
      · simpa only [or_assoc, ← WriteCall.Covers.eq_def] using hfilled
      · rintro p (hp | hp)
        · exact ⟨c, by simp, hp⟩
        · obtain ⟨c', hc', hp'⟩ := hcovered p hp
          exact ⟨c', by simp [hc'], hp'⟩
      · rintro hzero p ⟨c', hc', hp⟩
        obtain rfl | hc' := List.mem_cons.mp hc'
        · exact .inl hp
        · exact .inr (hall hzero p ⟨c', hc', hp⟩)
    · obtain ⟨last, -, -, hneg, rfl⟩ := hfailed.calls
      obtain ⟨n, hn, hcontent⟩ := hfailed.content
      refine ⟨c.answers last, f.data, fun p => c.offset.toNat ≤ p ∧ p < c.offset.toNat + n, ?_,
        Int.le_of_lt hneg, hd.patterned hcontent, ?_, fun hzero => ?_⟩
      · simp only [writeDataAll, hrun, hneg, if_true]
      · intro p hp
        exact ⟨c, by simp, hp.1, by omega⟩
      · omega

theorem writeDataAll_leaves (cs : List WriteCall) (hcs : ∀ c ∈ cs, c.Valid) {rounds : Nat}
    (hrounds : 2 ^ 32 ≤ rounds) (data : List UInt8) :
    ∃ r d, writeDataAll rounds cs data = some (.ret r, d) ∧ Leaves cs data r d := by
  obtain ⟨r, d, reached, hrun, hr, hfilled, hcovered, hall⟩ :=
    writeDataAll_filled cs hcs hrounds (FilledAt.start data)
  simp only [false_or] at hfilled
  exact ⟨r, d, hrun, hr, reached, hfilled, hcovered, hall⟩

/-- From some number of rounds on two lists of calls that cover the same bytes return. Each fills
what it has reached and nothing else, and if no call fails they leave the same file. -/
theorem writeData_runs_agree (cs cs' : List WriteCall) (hcs : ∀ c ∈ cs, c.Valid)
    (hcs' : ∀ c ∈ cs', c.Valid) (hcover : ∀ p, Covered cs p ↔ Covered cs' p)
    (data : List UInt8) :
    ∃ bound, ∀ rounds ≥ bound, ∃ r d r' d',
      writeDataAll rounds cs data = some (.ret r, d) ∧ Leaves cs data r d ∧
        writeDataAll rounds cs' data = some (.ret r', d') ∧ Leaves cs' data r' d' ∧
        (r = 0 → r' = 0 → d = d') := by
  refine ⟨2 ^ 32, fun rounds hrounds => ?_⟩
  obtain ⟨r, d, hrun, hleaves⟩ := writeDataAll_leaves cs hcs hrounds data
  obtain ⟨r', d', hrun', hleaves'⟩ := writeDataAll_leaves cs' hcs' hrounds data
  refine ⟨r, d, r', d', hrun, hleaves, hrun', hleaves', fun hr hr' => ?_⟩
  obtain ⟨reached, hfilled, hcovered, hall⟩ := hleaves.content
  obtain ⟨reached', hfilled', hcovered', hall'⟩ := hleaves'.content
  refine hfilled.unique hfilled' fun p => ⟨fun hp => ?_, fun hp => ?_⟩
  · exact hall' hr' p ((hcover p).mp (hcovered p hp))
  · exact hall hr p ((hcover p).mpr (hcovered' p hp))

/-- The two calls of the shipped test, of which the second repeats a part of the first. -/
theorem writeData_runs_agree_repeated :
    ∃ bound, ∀ rounds ≥ bound, ∃ r d r' d',
      writeDataAll rounds [⟨fun _ => 4096, 0, 32768⟩, ⟨fun _ => 4096, 0, 5000⟩] [] =
          some (.ret r, d) ∧
        writeDataAll rounds [⟨fun _ => 1, 0, 32768⟩] [] = some (.ret r', d') ∧
        (r = 0 → r' = 0 → d = d') := by
  have hvalid (n : Int) (hn : 0 < n) (size : UInt32) : WriteCall.Valid ⟨fun _ => n, 0, size⟩ := by
    refine ⟨fun _ => ⟨by dsimp only; omega, by dsimp only; omega⟩, ?_⟩
    have hsize := size.toNat_lt
    change 0 + size.toNat ≤ 2 ^ 32
    omega
  have hcover (p : Nat) :
      Covered [⟨fun _ => 4096, 0, 32768⟩, ⟨fun _ => 4096, 0, 5000⟩] p ↔
        Covered [⟨fun _ => 1, 0, 32768⟩] p := by
    have hlong : (32768 : UInt32).toNat = 32768 := rfl
    have hshort : (5000 : UInt32).toNat = 5000 := rfl
    simp only [Covered, WriteCall.Covers, List.mem_cons, List.not_mem_nil, or_false,
      exists_eq_or_imp, exists_eq_left, hlong, hshort]
    omega
  obtain ⟨bound, hbound⟩ := writeData_runs_agree
    [⟨fun _ => 4096, 0, 32768⟩, ⟨fun _ => 4096, 0, 5000⟩] [⟨fun _ => 1, 0, 32768⟩]
    (by simp [hvalid]) (by simp [hvalid]) hcover []
  refine ⟨bound, fun rounds hrounds => ?_⟩
  obtain ⟨r, d, r', d', hrun, -, hrun', -, hsame⟩ := hbound rounds hrounds
  exact ⟨r, d, r', d', hrun, hrun', hsame⟩

end PMTester
