import PMTester.MmapTable

/-!
# Where `CmMsync` says the data is

The offset and the length of a mapping go into its entry through two
`unsigned int`. An offset from 2 ^ 32 on is recorded modulo 2 ^ 32, and of a
longer mapping only the first bytes, as many as its length modulo 2 ^ 32, are
found again.
-/
namespace PMTester

open Run Word RecordCmFsOps

theorem toUnsigned_intToUlong (x : Int) :
    (toUnsigned (intToUlong x).toNat : Int) = x % 2 ^ 32 := by
  simp only [toUnsigned, intToUlong, UInt64.toNat_ofNat']
  omega

/-- What the mod of a successful `CmMsync` should say. -/
def RecordsMsync {σ : Type} (h : Host σ) (w : World σ) (addr length : Nat) (flags : Flags)
    (p : Path) (location : Int) : Prop :=
  ∃ mod, (cmMsync h addr length flags w).2.mods = w.mods ++ [mod] ∧ mod.path = p ∧
    (mod.fileModLocation.toNat : Int) = location ∧ mod.fileModLen.toNat = length

/-- The mapping at `base` stays: no `CmMunmap` of its address succeeds. -/
def Stays {σ : Type} (h : Host σ) (base : Nat) : List CmOp → World σ → Prop :=
  Allowed (fun w op => (call h op w).2) fun w op =>
    ∀ length, op = .munmap base length → (h.fnMunmap base length w.fs).1 < 0

section

variable {σ : Type} {h : Host σ} {live : σ → Set Mapping}

theorem mem_insertMmap_of_mem {entries : List MmapEntry} {e : MmapEntry} (he : e ∈ entries)
    (base length : Nat) (p : Path) (offset : Int) :
    e ∈ insertMmap entries base p offset length := by
  unfold insertMmap
  split
  · exact he
  · exact List.mem_append_left _ he

/-- A call keeps the entry of a mapping that it does not unmap. -/
theorem call_keeps_entry {w : World σ} {e : MmapEntry} (he : e ∈ w.mmapMap) (op : CmOp)
    (hstays : ∀ length, op = .munmap e.base length → (h.fnMunmap e.base length w.fs).1 < 0) :
    e ∈ (call h op w).2.mmapMap := by
  by_cases hmaps : op.maps = true
  · cases op with
    | mmap addr length prot flags fd offset =>
      simp only [call, cmMmap]
      repeat' split
      all_goals first | exact he | exact mem_insertMmap_of_mem he _ _ _ _
    | munmap addr length =>
      simp only [call, cmMunmap]
      split
      · exact he
      · rename_i hres
        refine List.mem_filter.mpr ⟨he, ?_⟩
        have hne : e.base ≠ addr := by
          rintro rfl
          exact hres (hstays length rfl)
        simpa using hne
    | _ => simp [CmOp.maps] at hmaps
  · rw [call_mmapMap op w (by simpa using hmaps)]
    exact he

/-- The entry that a successful `CmMmap` of a writable file mapping makes. -/
def newEntry (base : Nat) (p : Path) (offset : Int) (length : Nat) : MmapEntry :=
  ⟨base, p, toUnsigned (intToUlong offset).toNat, toUnsigned length⟩

/-- No entry of another mapping stands at the address of a new one. -/
theorem mmap_makes_entry (hk : AddressSpace h live) {w : World σ} (hw : Booked live w)
    {hint length base : Nat} {prot flags : Flags} {fd offset : Int} {p : Path} {fs : σ}
    (hfd : w.fdMap fd = some p) (hfixed : flags.has mapFixed = false)
    (hmap : h.fnMmap hint length prot flags fd offset w.fs = (base, fs)) (hbase : base ≠ mapFailed)
    (hshared : (⟨⟨base, length⟩, prot, flags⟩ : Mapping).shared = true) :
    newEntry base p offset length ∈ (cmMmap h hint length prot flags fd offset w).2.mmapMap := by
  obtain ⟨hsize, -, hapart, -⟩ :=
    hk.mmap hint length prot flags fd offset w.fs hfixed base fs hmap hbase
  have htracked : (!prot.has protWrite || flags.has mapPrivate || flags.has mapAnonymous) = false := by
    simpa [Mapping.shared, and_assoc] using hshared
  have hfresh : w.mmapMap.any (·.base == base) = false := by
    rw [List.any_eq_false]
    intro e he hsame
    obtain ⟨m, hm, -, hstart, -⟩ := hw.tracked e he
    have hlive := (hw.separate.inside m hm).1
    have hsame : e.base = base := by simpa using hsame
    have hdisjoint := hapart m hm
    simp only [Span.Apart] at hdisjoint
    omega
  simp only [cmMmap, hmap, if_neg hbase, htracked, hfd, insertMmap, hfresh, Bool.false_eq_true,
    ↓reduceIte]
  exact List.mem_append_right _ (List.mem_singleton.mpr rfl)

/-- A mapping is live as long as it is not unmapped. -/
theorem call_keeps_mapping (hk : AddressSpace h live) {w : World σ} (hw : Booked live w)
    {m : Mapping} (hm : m ∈ live w.fs) (op : CmOp) (hop : Regular h live w op)
    (hstays : ∀ length, op = .munmap m.span.start length →
      (h.fnMunmap m.span.start length w.fs).1 < 0) : m ∈ live (call h op w).2.fs := by
  by_cases hmaps : op.maps = true
  · cases op with
    | mmap hint length prot flags fd offset =>
      have hfs : (call h (.mmap hint length prot flags fd offset) w).2.fs =
          (h.fnMmap hint length prot flags fd offset w.fs).2 := by
        simp only [call, cmMmap]
        repeat' split
        all_goals rfl
      rw [hfs]
      by_cases hfailed : (h.fnMmap hint length prot flags fd offset w.fs).1 = mapFailed
      · rw [hk.mmap_failed _ _ _ _ _ _ _ hfailed]
        exact hm
      · obtain ⟨-, -, -, hlive⟩ := hk.mmap hint length prot flags fd offset w.fs hop _ _ rfl hfailed
        rw [hlive]
        exact Or.inr hm
    | munmap addr length =>
      have hfs : (call h (.munmap addr length) w).2.fs = (h.fnMunmap addr length w.fs).2 := by
        simp only [call, cmMunmap]
        split <;> rfl
      rw [hfs]
      by_cases hfailed : (h.fnMunmap addr length w.fs).1 < 0
      · rw [hk.munmap_failed _ _ _ hfailed]
        exact hm
      · rw [hk.munmap addr length w.fs hfailed (hop.exact hw.separate hfailed)]
        refine ⟨hm, fun hspan => ?_⟩
        have haddr : m.span.start = addr := by rw [hspan]
        exact hfailed (haddr ▸ hstays length (by rw [haddr]))
    | _ => simp [CmOp.maps] at hmaps
  · rw [hk.other op w (by simpa using hmaps)]
    exact hm

/-- What holds of a mapping and its entry from its `CmMmap` until it is unmapped. -/
structure Tabled (live : σ → Set Mapping) (m : Mapping) (e : MmapEntry) (w : World σ) :
    Prop where
  booked : Booked live w
  mapping : m ∈ live w.fs
  entry : e ∈ w.mmapMap

theorem call_tabled (hk : AddressSpace h live) {m : Mapping} {e : MmapEntry}
    (hbase : e.base = m.span.start) (w : World σ) (op : CmOp) (hw : Tabled live m e w)
    (hop : Regular h live w op ∧ ∀ length, op = .munmap m.span.start length →
      (h.fnMunmap m.span.start length w.fs).1 < 0) : Tabled live m e (call h op w).2 where
  booked := call_booked hk w op hw.booked hop.1
  mapping := call_keeps_mapping hk hw.booked hw.mapping op hop.1 hop.2
  entry := call_keeps_entry hw.entry op (hbase ▸ hop.2)

/-- The address is inside what the entry kept of the mapping's length. -/
def InRecordedLength (base length addr : Nat) : Prop :=
  addr - base < length % 2 ^ 32 ∧ base + length % 2 ^ 32 < 2 ^ 64

theorem covers_iff (addr : Nat) (e : MmapEntry) :
    MmapEntry.covers addr e = true ↔ e.base ≤ addr ∧ addr < toUlong (e.base + e.length) := by
  simp [MmapEntry.covers]

theorem covers_newEntry {base length addr : Nat} (p : Path) (offset : Int) (hle : base ≤ addr)
    (hbound : base + length ≤ 2 ^ 64) :
    MmapEntry.covers addr (newEntry base p offset length) = true ↔
      InRecordedLength base length addr := by
  rw [covers_iff]
  change base ≤ addr ∧ addr < toUlong (base + toUnsigned length) ↔ _
  unfold toUlong toUnsigned InRecordedLength
  omega

/-- Inside a mapping the search can find no entry but the one of that mapping. -/
theorem Tabled.covers_only {m : Mapping} {e e' : MmapEntry} {w : World σ}
    (hw : Tabled live m e w) (hbase : e.base = m.span.start) {addr : Nat}
    (hinside : m.span.Holds addr) (he' : e' ∈ w.mmapMap)
    (hcovers : MmapEntry.covers addr e' = true) : e' = e := by
  obtain ⟨m', hm', -, hstart, hwithin⟩ := hw.booked.within e' he'
  have hholds := hwithin.holds addr (covers_holds hcovers)
  have hsame : m' = m := by
    cases hw.booked.separate.apart m' hm' m hw.mapping with
    | inl heq => exact heq
    | inr hapart => exact absurd hinside (hapart.not_both addr hholds)
  subst hsame
  exact List.inj_on_of_nodup_map hw.booked.keys he' hw.entry (hstart.symm.trans hbase.symm)

theorem Tabled.search {m : Mapping} {e : MmapEntry} {w : World σ} (hw : Tabled live m e w)
    (hbase : e.base = m.span.start) {addr : Nat} (hinside : m.span.Holds addr) :
    (h.order w.mmapMap).find? (MmapEntry.covers addr) =
      if MmapEntry.covers addr e then some e else none := by
  rw [hw.booked.search]
  cases hfind : w.mmapMap.find? (MmapEntry.covers addr) with
  | none =>
    have hnot := List.find?_eq_none.mp hfind e hw.entry
    rw [if_neg hnot]
  | some e' =>
    have hcovers := List.find?_some hfind
    have heq := hw.covers_only hbase hinside (List.mem_of_find?_eq_some hfind) hcovers
    subst heq
    rw [if_pos hcovers]

/-- What is recorded once the search has found an entry and nothing went wrong after it. -/
theorem cmMsync_found {w : World σ} {addr len : Nat} {syncFlags : Flags} {e : MmapEntry} {r : Int}
    (hsearch : (h.order w.mmapMap).find? (MmapEntry.covers addr) = some e)
    (hres : (cmMsync h addr len syncFlags w).1 = .ret r) (hr : 0 ≤ r) :
    ∃ mod, (cmMsync h addr len syncFlags w).2.mods = w.mods ++ [mod] ∧ mod.path = e.path ∧
      mod.fileModLocation = intToUlong (e.offset + ((addr : Int) - e.base)) ∧
      mod.fileModLen.toNat = len := by
  unfold cmMsync at hres ⊢
  dsimp only at hres ⊢
  split at hres
  · rename_i hneg
    have hres := CmResult.ret.inj hres
    omega
  rename_i hok
  simp only [if_neg hok, hsearch] at hres ⊢
  split at hres
  · cases hres
  rename_i hlen
  rw [if_neg hlen]
  split at hres
  · cases hres
  refine ⟨_, rfl, rfl, rfl, ?_⟩
  rw [UInt64.toNat_ofNat', Nat.mod_eq_of_lt (by omega)]

/-- A successful `CmMsync` inside a mapping says the right place exactly when the offset survived
and the address is inside the recorded length. -/
theorem Tabled.msync {base length : Nat} {prot flags : Flags} {p : Path} {offset : Int}
    {w : World σ} (hw : Tabled live ⟨⟨base, length⟩, prot, flags⟩ (newEntry base p offset length) w)
    {addr len : Nat} {syncFlags : Flags} (hinside : Span.Holds ⟨base, length⟩ addr)
    {r : Int} (hres : (cmMsync h addr len syncFlags w).1 = .ret r) (hr : 0 ≤ r) :
    RecordsMsync h w addr len syncFlags p (offset + (addr - base)) ↔
      0 ≤ offset ∧ offset < 2 ^ 32 ∧ InRecordedLength base length addr := by
  have hsearch := hw.search (h := h) rfl hinside
  have hcovers := covers_newEntry p offset hinside.1
    (hw.booked.separate.inside _ hw.mapping).2
  have hoffset := toUnsigned_intToUlong offset
  by_cases hneg : (h.fnMsync addr len syncFlags w.fs).1 < 0
  · simp only [cmMsync, if_pos hneg, CmResult.ret.injEq] at hres
    rw [hres] at hneg
    omega
  by_cases hfound : InRecordedLength base length addr
  · rw [if_pos (hcovers.mpr hfound)] at hsearch
    obtain ⟨mod, hmods, hpath, hlocation, hlen⟩ := cmMsync_found hsearch hres hr
    have hvalue : (mod.fileModLocation.toNat : Int) = offset % 2 ^ 32 + (addr - base) := by
      have hle := hinside.1
      have hshort := hfound.1
      have hmod := Nat.mod_lt length (show 2 ^ 32 > 0 by decide)
      have hsum : ((newEntry base p offset length).offset : Int) +
          ((addr : Int) - (newEntry base p offset length).base) =
            ((offset % 2 ^ 32 + (addr - base)).toNat : Nat) := by
        simp only [newEntry, hoffset]
        dsimp only at hle
        omega
      rw [hlocation, hsum, intToUlong_natCast _ (by omega)]
      dsimp only at hle
      omega
    constructor
    · rintro ⟨mod', hmods', -, hlocation', -⟩
      have hsame := List.singleton_inj.mp (List.append_cancel_left (hmods'.symm.trans hmods))
      rw [hsame, hvalue] at hlocation'
      exact ⟨by omega, by omega, hfound⟩
    · rintro ⟨hlow, hhigh, -⟩
      exact ⟨mod, hmods, hpath, by omega, hlen⟩
  · rw [if_neg (fun hc => hfound (hcovers.mp hc))] at hsearch
    simp only [RecordsMsync, cmMsync, if_neg hneg, hsearch]
    simp [hfound]

/-- A successful `CmMmap` of a writable file mapping makes the mapping and its entry. -/
theorem mmap_tabled (hk : AddressSpace h live) {w : World σ} (hw : Booked live w)
    {hint length base : Nat} {prot flags : Flags} {fd offset : Int} {p : Path} {fs : σ}
    (hfd : w.fdMap fd = some p) (hfixed : flags.has mapFixed = false)
    (hmap : h.fnMmap hint length prot flags fd offset w.fs = (base, fs)) (hbase : base ≠ mapFailed)
    (hshared : (⟨⟨base, length⟩, prot, flags⟩ : Mapping).shared = true) :
    Tabled live ⟨⟨base, length⟩, prot, flags⟩ (newEntry base p offset length)
      (cmMmap h hint length prot flags fd offset w).2 where
  booked := mmap_booked hk hw hint length prot flags fd offset hfixed
  mapping := by
    have hfs : (cmMmap h hint length prot flags fd offset w).2.fs = fs := by
      simp only [cmMmap, hmap]
      repeat' split
      all_goals rfl
    rw [hfs, (hk.mmap hint length prot flags fd offset w.fs hfixed base fs hmap hbase).2.2.2]
    exact Or.inl rfl
  entry := mmap_makes_entry hk hw hfd hfixed hmap hbase hshared

end

/-- In any run, a mapping that is not unmapped keeps the entry its `CmMmap` made. -/
theorem run_tabled {σ : Type} {h : Host σ} {live : σ → Set Mapping} (hk : AddressSpace h live)
    {w : World σ} (hstart : w.mmapMap = []) (hlive : Separate (live w.fs)) {before after : List CmOp}
    {hint length base : Nat} {prot flags : Flags} {fd offset : Int} {p : Path}
    (hregular : RegularRun h live (before ++ .mmap hint length prot flags fd offset :: after) w)
    (hfd : (run h before w).fdMap fd = some p)
    (hmap : (h.fnMmap hint length prot flags fd offset (run h before w).fs).1 = base)
    (hbase : base ≠ mapFailed)
    (hshared : (⟨⟨base, length⟩, prot, flags⟩ : Mapping).shared = true)
    (hstays : Stays h base after (run h (before ++ [.mmap hint length prot flags fd offset]) w)) :
    Tabled live ⟨⟨base, length⟩, prot, flags⟩ (newEntry base p offset length)
      (run h (before ++ .mmap hint length prot flags fd offset :: after) w) := by
  obtain ⟨hbefore, hfixed, hafter⟩ := (allowed_append _ _ _).mp hregular
  have hbooked : Booked live (run h before w) :=
    invariant (Booked live) (call_booked hk) before w
      ⟨hlive, by simp [hstart], by simp [hstart]⟩ hbefore
  have htabled := mmap_tabled hk hbooked hfd hfixed (Prod.ext hmap rfl) hbase hshared
  rw [run_append] at hstays
  rw [run_append, run_cons]
  exact invariant (Tabled live ⟨⟨base, length⟩, prot, flags⟩ (newEntry base p offset length))
    (call_tabled hk rfl) after _ htabled (hafter.and hstays)

/-- In any run, a successful `CmMsync` inside a mapping that is still there names the mapped file,
the offset and the length exactly when the mapping's offset is below 2 ^ 32 and the address is
within the first `length % 2 ^ 32` bytes. -/
theorem msync_location_iff {σ : Type} (h : Host σ) (live : σ → Set Mapping)
    (hk : AddressSpace h live) (w : World σ) (hstart : w.mmapMap = [])
    (hlive : Separate (live w.fs)) (before after : List CmOp) (hint length base : Nat)
    (prot flags : Flags) (fd offset : Int) (p : Path)
    (hregular : RegularRun h live (before ++ .mmap hint length prot flags fd offset :: after) w)
    (hfd : (run h before w).fdMap fd = some p)
    (hmap : (h.fnMmap hint length prot flags fd offset (run h before w).fs).1 = base)
    (hbase : base ≠ mapFailed)
    (hshared : (⟨⟨base, length⟩, prot, flags⟩ : Mapping).shared = true)
    (hstays : Stays h base after (run h (before ++ [.mmap hint length prot flags fd offset]) w))
    (addr len : Nat) (syncFlags : Flags) (hinside : Span.Holds ⟨base, length⟩ addr) (r : Int)
    (hres : (cmMsync h addr len syncFlags
      (run h (before ++ .mmap hint length prot flags fd offset :: after) w)).1 = .ret r)
    (hr : 0 ≤ r) :
    RecordsMsync h (run h (before ++ .mmap hint length prot flags fd offset :: after) w) addr len
        syncFlags p (offset + (addr - base)) ↔
      0 ≤ offset ∧ offset < 2 ^ 32 ∧ InRecordedLength base length addr :=
  (run_tabled hk hstart hlive hregular hfd hmap hbase hshared hstays).msync hinside hres hr

/-- The calls before the mappings below: a file is made and opened. -/
def openRun : List CmOp := [.open2 (path ['/', 'f']) (oCreat ||| oRdwr) 0o644#32]

/-- Two mappings of the file and a `CmMsync` in the first of them. -/
theorem msync_location_two :
    RecordsMsync (withMappings (posix splitPath))
      (run (withMappings (posix splitPath))
        (openRun ++ .mmap 0 8192 (protWrite ||| 1#32) 1#32 3 4096 ::
          [.mmap 0 4096 (protWrite ||| 1#32) 1#32 3 0]) (World.start (PosixFs.empty 3, [])))
      8192 16 0#32 (path ['/', 'f']) (4096 + (((8192 : Nat) : Int) - ((4096 : Nat) : Int))) :=
  (msync_location_iff (withMappings (posix splitPath)) mappingsOf (withMappings_addressSpace _)
    (World.start (PosixFs.empty 3, [])) rfl
    ⟨fun _ hm => absurd hm List.not_mem_nil, fun _ hm => absurd hm List.not_mem_nil⟩
    openRun [.mmap 0 4096 (protWrite ||| 1#32) 1#32 3 0] 0 8192 4096 (protWrite ||| 1#32) 1#32 3
    4096 (path ['/', 'f'])
    ⟨trivial, show Flags.has _ _ = false by decide, show Flags.has _ _ = false by decide, trivial⟩
    (by decide +kernel) (by decide +kernel) (by decide) (by decide)
    ⟨fun _ heq => (by cases heq), trivial⟩ 8192 16 0#32 (by decide) 0 (by decide +kernel)
    (by decide)).mpr ⟨by decide, by decide, by decide, by decide⟩

/-- With a mapping at offset 2 ^ 32 the mod names offset 0, and with one of 2 ^ 32 bytes there is
no mod. -/
theorem msync_location_wrong :
    ¬ RecordsMsync (withMappings (posix splitPath))
        (run (withMappings (posix splitPath))
          (openRun ++ [.mmap 0 4096 (protWrite ||| 1#32) 1#32 3 4294967296])
          (World.start (PosixFs.empty 3, [])))
        4096 16 0#32 (path ['/', 'f']) 4294967296 ∧
      ¬ RecordsMsync (withMappings (posix splitPath))
        (run (withMappings (posix splitPath))
          (openRun ++ [.mmap 0 4294967296 (protWrite ||| 1#32) 1#32 3 0])
          (World.start (PosixFs.empty 3, [])))
        4096 16 0#32 (path ['/', 'f']) 0 := by
  constructor
  · rintro ⟨mod, hmods, -, hlocation, -⟩
    have hlast := congrArg (fun mods => mods.getLast?.map DiskMod.fileModLocation) hmods
    have hzero : some (0 : UInt64) = some mod.fileModLocation := by
      rw [List.getLast?_concat] at hlast
      exact Eq.trans (by decide +kernel) hlast
    rw [← Option.some.inj hzero] at hlocation
    exact absurd hlocation (by decide)
  · rintro ⟨mod, hmods, -⟩
    have hcount := congrArg List.length hmods
    rw [List.length_append, List.length_singleton] at hcount
    exact absurd hcount (by decide +kernel)

end PMTester
