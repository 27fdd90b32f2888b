import Mathlib.Data.List.Nodup
import Mathlib.Data.Set.Insert
import PMTester.Lib.Run
import PMTester.Lib.Span
import PMTester.Posix

/-!
# The table of mappings

`mmap_map_` next to the mappings that the kernel keeps for the process. Each
entry belongs to the live mapping at its key, so entries are as disjoint as the
mappings are, and the search of `CmMsync` has at most one answer.
-/
namespace PMTester

open Run Word RecordCmFsOps

def mapFixed : Flags := 16#32

/-- A mapping of the process, with the protection and the flags it was made with. -/
structure Mapping where
  span : Span
  prot : Flags
  flags : Flags
  deriving DecidableEq, Repr

/-- A writable mapping of a file whose stores reach the file. -/
def Mapping.shared (m : Mapping) : Bool :=
  m.prot.has protWrite && !m.flags.has mapPrivate && !m.flags.has mapAnonymous

/-- The mappings lie in the address space, and each is apart from the others. -/
structure Separate (live : Set Mapping) : Prop where
  inside : ∀ m ∈ live, 0 < m.span.size ∧ m.span.start + m.span.size ≤ 2 ^ 64
  apart : ∀ m ∈ live, ∀ m' ∈ live, m = m' ∨ m.span.Apart m'.span

def CmOp.maps : CmOp → Bool
  | .mmap _ _ _ _ _ _ | .munmap _ _ => true
  | _ => false

/-- What the kernel does to the mappings: a new one is placed apart from all others, and a
range that meets no mapping but an equal one is unmapped exactly. -/
structure AddressSpace {σ : Type} (h : Host σ) (live : σ → Set Mapping) : Prop where
  mmap_failed : ∀ addr length prot flags fd offset s,
    (h.fnMmap addr length prot flags fd offset s).1 = mapFailed →
      live (h.fnMmap addr length prot flags fd offset s).2 = live s
  mmap : ∀ addr length prot flags fd offset s, Flags.has flags mapFixed = false →
    ∀ res s', h.fnMmap addr length prot flags fd offset s = (res, s') → res ≠ mapFailed →
      0 < length ∧ res + length ≤ 2 ^ 64 ∧
        (∀ m ∈ live s, Span.Apart ⟨res, length⟩ m.span) ∧
        live s' = insert ⟨⟨res, length⟩, prot, flags⟩ (live s)
  munmap_failed : ∀ addr length s, (h.fnMunmap addr length s).1 < 0 →
    live (h.fnMunmap addr length s).2 = live s
  munmap : ∀ addr length s, ¬ (h.fnMunmap addr length s).1 < 0 →
    (∀ m ∈ live s, m.span = ⟨addr, length⟩ ∨ m.span.Apart ⟨addr, length⟩) →
      live (h.fnMunmap addr length s).2 = {m ∈ live s | m.span ≠ ⟨addr, length⟩}
  other : ∀ op w, CmOp.maps op = false → live (call h op w).2.fs = live w.fs

/-- No `MAP_FIXED`, and a `CmMunmap` that succeeds is given the pointer and the length of a
live mapping, or a range in which nothing is mapped. -/
def Regular {σ : Type} (h : Host σ) (live : σ → Set Mapping) (w : World σ) : CmOp → Prop
  | .mmap _ _ _ flags _ _ => Flags.has flags mapFixed = false
  | .munmap addr length =>
    (h.fnMunmap addr length w.fs).1 < 0 ∨ (∃ m ∈ live w.fs, m.span = ⟨addr, length⟩) ∨
      ∀ m ∈ live w.fs, m.span.Apart ⟨addr, length⟩
  | _ => True

def RegularRun {σ : Type} (h : Host σ) (live : σ → Set Mapping) : List CmOp → World σ → Prop :=
  Allowed (fun w op => (call h op w).2) (Regular h live)

def MmapEntry.span (e : MmapEntry) : Span := ⟨e.base, e.length⟩

/-- Every entry has a key of its own, at which a mapping that reaches a file is live. -/
structure Booked {σ : Type} (live : σ → Set Mapping) (w : World σ) : Prop where
  separate : Separate (live w.fs)
  keys : (w.mmapMap.map MmapEntry.base).Nodup
  tracked : ∀ e ∈ w.mmapMap, ∃ m ∈ live w.fs, m.shared = true ∧ m.span.start = e.base ∧
    e.length ≤ m.span.size

/-- What the table says about addresses does not depend on the order of its entries. -/
structure Unambiguous {σ : Type} (h : Host σ) (live : σ → Set Mapping) (w : World σ) : Prop where
  disjoint : w.mmapMap.Pairwise fun e e' => e.span.Apart e'.span
  inside : ∀ e ∈ w.mmapMap, ∃ m ∈ live w.fs, m.shared = true ∧ e.span.Within m.span
  atMostOne : ∀ addr length flags, (cmMsync h addr length flags w).2.mods = w.mods ∨
    ∃ mod, (cmMsync h addr length flags w).2.mods = w.mods ++ [mod]
  anyOrder : ∀ h' : Host σ, h'.toFsFns = h.toFsFns → h'.memory = h.memory →
    ∀ addr length flags, cmMsync h' addr length flags w = cmMsync h addr length flags w
  untracked : ∀ addr length flags, (∀ m ∈ live w.fs, m.span.Holds addr → m.shared = false) →
    (cmMsync h addr length flags w).2.mods = w.mods

section

variable {σ : Type} {h : Host σ} {live : σ → Set Mapping}

theorem Separate.insert {s : Set Mapping} (hs : Separate s) (m : Mapping)
    (hsize : 0 < m.span.size) (hbound : m.span.start + m.span.size ≤ 2 ^ 64)
    (hapart : ∀ m' ∈ s, m.span.Apart m'.span) : Separate (insert m s) := by
  constructor
  · rintro n (rfl | hn)
    · exact ⟨hsize, hbound⟩
    · exact hs.inside n hn
  · rintro n (rfl | hn) n' (rfl | hn')
    · exact Or.inl rfl
    · exact Or.inr (hapart n' hn')
    · exact Or.inr (hapart n hn).symm
    · exact hs.apart n hn n' hn'

theorem Separate.subset {s t : Set Mapping} (hs : Separate s) (ht : ∀ m ∈ t, m ∈ s) :
    Separate t :=
  ⟨fun m hm => hs.inside m (ht m hm), fun m hm m' hm' => hs.apart m (ht m hm) m' (ht m' hm')⟩

/-- A range that is one of the mappings meets no other. -/
theorem Separate.exact {s : Set Mapping} (hs : Separate s) {m : Mapping} (hm : m ∈ s) :
    ∀ m' ∈ s, m'.span = m.span ∨ m'.span.Apart m.span := by
  intro m' hm'
  rcases hs.apart m' hm' m hm with rfl | hapart
  · exact Or.inl rfl
  · exact Or.inr hapart

theorem mem_insertMmap {entries : List MmapEntry} {base length : Nat} {p : Path} {offset : Int}
    {e : MmapEntry} (he : e ∈ insertMmap entries base p offset length) :
    e ∈ entries ∨ e.base = base ∧ e.length = toUnsigned length := by
  unfold insertMmap at he
  split at he
  · exact Or.inl he
  · cases List.mem_append.mp he with
    | inl hold => exact Or.inl hold
    | inr hnew =>
      have heq := List.mem_singleton.mp hnew
      subst heq
      exact Or.inr ⟨rfl, rfl⟩

theorem insertMmap_keys {entries : List MmapEntry} (hkeys : (entries.map MmapEntry.base).Nodup)
    (base length : Nat) (p : Path) (offset : Int) :
    ((insertMmap entries base p offset length).map MmapEntry.base).Nodup := by
  unfold insertMmap
  split
  · exact hkeys
  · rename_i hfresh
    have hne : base ∉ entries.map MmapEntry.base := by simpa using hfresh
    rw [List.map_append, List.map_singleton, List.nodup_append_comm]
    exact List.nodup_cons.mpr ⟨hne, hkeys⟩

theorem mmap_booked (hk : AddressSpace h live) {w : World σ} (hw : Booked live w)
    (addr length : Nat) (prot flags : Flags) (fd offset : Int)
    (hfixed : flags.has mapFixed = false) :
    Booked live (cmMmap h addr length prot flags fd offset w).2 := by
  cases hres : h.fnMmap addr length prot flags fd offset w.fs with
  | mk res fs =>
    by_cases hfailed : res = mapFailed
    · have hlive := hk.mmap_failed addr length prot flags fd offset w.fs (by rw [hres]; exact hfailed)
      rw [hres] at hlive
      simp only [cmMmap, hres, hfailed, ↓reduceIte]
      exact ⟨hlive ▸ hw.separate, hw.keys, hlive ▸ hw.tracked⟩
    obtain ⟨hsize, hbound, hapart, hlive⟩ :=
      hk.mmap addr length prot flags fd offset w.fs hfixed res fs hres hfailed
    have hseparate : Separate (live fs) := by
      rw [hlive]
      exact hw.separate.insert _ hsize hbound hapart
    have hkept : ∀ e ∈ w.mmapMap, ∃ m ∈ live fs, m.shared = true ∧ m.span.start = e.base ∧
        e.length ≤ m.span.size := by
      intro e he
      obtain ⟨m, hm, hrest⟩ := hw.tracked e he
      exact ⟨m, by rw [hlive]; exact Or.inr hm, hrest⟩
    cases huntracked : !prot.has protWrite || flags.has mapPrivate || flags.has mapAnonymous with
    | true =>
      simp only [cmMmap, hres, hfailed, huntracked, ↓reduceIte]
      exact ⟨hseparate, hw.keys, hkept⟩
    | false =>
      cases hfd : w.fdMap fd with
      | none =>
        simp only [cmMmap, hres, hfailed, huntracked, hfd, ↓reduceIte, Bool.false_eq_true]
        exact ⟨hseparate, hw.keys, hkept⟩
      | some p =>
        simp only [cmMmap, hres, hfailed, huntracked, hfd, ↓reduceIte, Bool.false_eq_true]
        refine ⟨hseparate, insertMmap_keys hw.keys _ _ _ _, ?_⟩
        intro e he
        rcases mem_insertMmap he with hold | ⟨hbase, hlength⟩
        · exact hkept e hold
        · refine ⟨⟨⟨res, length⟩, prot, flags⟩, by rw [hlive]; exact Or.inl rfl, ?_, hbase.symm, ?_⟩
          · simpa [Mapping.shared, and_assoc] using huntracked
          · rw [hlength]
            exact Nat.mod_le length _

/-- A regular `CmMunmap` that succeeds meets no mapping but an equal one. -/
theorem Regular.exact {w : World σ} {addr length : Nat}
    (hregular : Regular h live w (.munmap addr length)) (hs : Separate (live w.fs))
    (hres : ¬ (h.fnMunmap addr length w.fs).1 < 0) :
    ∀ m ∈ live w.fs, m.span = ⟨addr, length⟩ ∨ m.span.Apart ⟨addr, length⟩ := by
  rcases hregular with hneg | ⟨m, hm, hspan⟩ | hnothing
  · exact absurd hneg hres
  · exact hspan ▸ hs.exact hm
  · exact fun m hm => Or.inr (hnothing m hm)

theorem munmap_booked (hk : AddressSpace h live) {w : World σ} (hw : Booked live w)
    (addr length : Nat) (hregular : Regular h live w (.munmap addr length)) :
    Booked live (cmMunmap h addr length w).2 := by
  cases hres : h.fnMunmap addr length w.fs with
  | mk res fs =>
    by_cases hfailed : res < 0
    · have hlive := hk.munmap_failed addr length w.fs (by rw [hres]; exact hfailed)
      rw [hres] at hlive
      simp only [cmMunmap, hres, hfailed, ↓reduceIte]
      exact ⟨hlive ▸ hw.separate, hw.keys, hlive ▸ hw.tracked⟩
    have hexact := hregular.exact hw.separate (by rw [hres]; exact hfailed)
    have hlive := hk.munmap addr length w.fs (by rw [hres]; exact hfailed) hexact
    rw [hres] at hlive
    simp only [cmMunmap, hres, hfailed, ↓reduceIte]
    refine ⟨?_, hw.keys.sublist (List.filter_sublist.map _), ?_⟩
    · rw [hlive]
      exact hw.separate.subset fun m hm => hm.1
    · intro e he
      obtain ⟨hold, hkey⟩ := List.mem_filter.mp he
      obtain ⟨m, hm, hshared, hstart, hlength⟩ := hw.tracked e hold
      refine ⟨m, ?_, hshared, hstart, hlength⟩
      rw [hlive]
      refine ⟨hm, fun hspan => ?_⟩
      rw [hspan] at hstart
      simp [← hstart] at hkey

theorem openWith_mmapMap (fnOpen : Path → σ → Int × σ) (p : Path) (flags : Flags) (w : World σ) :
    (openWith h fnOpen p flags w).2.mmapMap = w.mmapMap := by
  simp only [openWith]
  split
  · rfl
  · simp only [cmOpenCommon]
    repeat' split
    all_goals rfl

theorem recordWrite_mmapMap (p : Path) (pre : Stat) (location : UInt64) (buf : List UInt8)
    (res : Int) (w : World σ) :
    (recordWrite h p pre location buf res w).2.mmapMap = w.mmapMap := by
  simp only [recordWrite]
  repeat' split
  all_goals rfl

/-- No call but `CmMmap` and `CmMunmap` touches the table. -/
theorem call_mmapMap (op : CmOp) (w : World σ) (hop : op.maps = false) :
    (call h op w).2.mmapMap = w.mmapMap := by
  cases op with
  | mmap | munmap => simp [CmOp.maps] at hop
  | «open» | open2 => exact openWith_mmapMap _ _ _ _
  | mknod | lseek | rename | sync => rfl
  | mkdir => simp only [call, cmMkdir]; split <;> rfl
  | close => simp only [call, cmClose]; split <;> rfl
  | checkpoint => simp only [call, cmCheckpoint]; split <;> rfl
  | unlink => simp only [call, cmUnlink, removeWith]; split <;> rfl
  | remove => simp only [call, cmRemove, removeWith]; split <;> rfl
  | write =>
    simp only [call, cmWrite]
    repeat' split
    all_goals first | rfl | exact recordWrite_mmapMap _ _ _ _ _ _
  | pwrite =>
    simp only [call, cmPwrite]
    repeat' split
    all_goals first | rfl | exact recordWrite_mmapMap _ _ _ _ _ _
  | msync =>
    simp only [call, cmMsync]
    repeat' split
    all_goals rfl
  | fallocate =>
    simp only [call, cmFallocate]
    repeat' split
    all_goals rfl
  | fsync =>
    simp only [call, cmFsync, fsyncWith]
    repeat' split
    all_goals rfl
  | fdatasync =>
    simp only [call, cmFdatasync, fsyncWith]
    repeat' split
    all_goals rfl
  | syncFileRange =>
    simp only [call, cmSyncFileRange]
    repeat' split
    all_goals rfl

theorem call_booked (hk : AddressSpace h live) (w : World σ) (op : CmOp) (hw : Booked live w)
    (hop : Regular h live w op) : Booked live (call h op w).2 := by
  by_cases hmaps : op.maps = true
  · cases op with
    | mmap addr length prot flags fd offset =>
      exact mmap_booked hk hw addr length prot flags fd offset hop
    | munmap addr length => exact munmap_booked hk hw addr length hop
    | mknod | mkdir | «open» | open2 | lseek | write | pwrite | msync | fallocate | close | rename
    | unlink | remove | fsync | fdatasync | sync | syncFileRange | checkpoint =>
      simp [CmOp.maps] at hmaps
  · have hquiet : op.maps = false := by simpa using hmaps
    have hlive := hk.other op w hquiet
    have hmap := call_mmapMap (h := h) op w hquiet
    exact ⟨hlive ▸ hw.separate, hmap ▸ hw.keys, by rw [hlive, hmap]; exact hw.tracked⟩

theorem Booked.within {w : World σ} (hw : Booked live w) (e : MmapEntry) (he : e ∈ w.mmapMap) :
    ∃ m ∈ live w.fs, m.shared = true ∧ m.span.start = e.base ∧ e.span.Within m.span := by
  obtain ⟨m, hm, hshared, hstart, hlength⟩ := hw.tracked e he
  refine ⟨m, hm, hshared, hstart, ?_⟩
  simp only [Span.Within, MmapEntry.span]
  omega

theorem Booked.apart {w : World σ} (hw : Booked live w) {e e' : MmapEntry} (he : e ∈ w.mmapMap)
    (he' : e' ∈ w.mmapMap) (hbase : e.base ≠ e'.base) : e.span.Apart e'.span := by
  obtain ⟨m, hm, -, hstart, hwithin⟩ := hw.within e he
  obtain ⟨m', hm', -, hstart', hwithin'⟩ := hw.within e' he'
  rcases hw.separate.apart m hm m' hm' with rfl | hapart
  · exact absurd (hstart.symm.trans hstart') hbase
  · exact hapart.of_within hwithin hwithin'

theorem covers_holds {addr : Nat} {e : MmapEntry} (hcovers : MmapEntry.covers addr e = true) :
    e.span.Holds addr := by
  have hwrap : toUlong (e.base + e.length) ≤ e.base + e.length := Nat.mod_le _ _
  simp only [MmapEntry.covers, Bool.and_eq_true, decide_eq_true_eq] at hcovers
  simp only [Span.Holds, MmapEntry.span]
  omega

theorem Booked.covers_unique {w : World σ} (hw : Booked live w) (addr : Nat) :
    ∀ e ∈ w.mmapMap, ∀ e' ∈ w.mmapMap, MmapEntry.covers addr e = true →
      MmapEntry.covers addr e' = true → e = e' := by
  intro e he e' he' hcovers hcovers'
  have hbase : e.base = e'.base := by
    by_contra hne
    exact (hw.apart he he' hne).not_both addr (covers_holds hcovers) (covers_holds hcovers')
  exact List.inj_on_of_nodup_map hw.keys he he' hbase

/-- The outcome of the search, in whatever order the table is. -/
theorem Booked.search {w : World σ} (hw : Booked live w) (h' : Host σ) (addr : Nat) :
    (h'.order w.mmapMap).find? (MmapEntry.covers addr) = w.mmapMap.find? (MmapEntry.covers addr) :=
  (find?_of_perm _ (h'.order_perm w.mmapMap).symm (hw.covers_unique addr)).symm

theorem cmMsync_mods (addr length : Nat) (flags : Flags) (w : World σ) :
    (cmMsync h addr length flags w).2.mods = w.mods ∨
      ∃ mod, (cmMsync h addr length flags w).2.mods = w.mods ++ [mod] := by
  simp only [cmMsync]
  split
  · exact Or.inl rfl
  split
  · exact Or.inl rfl
  split
  · exact Or.inl rfl
  split
  · exact Or.inl rfl
  · exact Or.inr ⟨_, rfl⟩

theorem Booked.unambiguous {w : World σ} (hw : Booked live w) : Unambiguous h live w := by
  constructor
  · have hkeys : w.mmapMap.Pairwise (·.base ≠ ·.base) := List.pairwise_map.mp hw.keys
    exact hkeys.imp_of_mem fun he he' hbase => hw.apart he he' hbase
  · intro e he
    obtain ⟨m, hm, hshared, -, hwithin⟩ := hw.within e he
    exact ⟨m, hm, hshared, hwithin⟩
  · exact fun addr length flags => cmMsync_mods addr length flags w
  · intro h' hfns hmemory addr length flags
    simp only [cmMsync, hw.search, hfns, hmemory]
  · intro addr length flags hnone
    have hsearch : (h.order w.mmapMap).find? (MmapEntry.covers addr) = none := by
      rw [hw.search, List.find?_eq_none]
      intro e he hcovers
      obtain ⟨m, hm, hshared, -, hwithin⟩ := hw.within e he
      have hprivate := hnone m hm (hwithin.holds addr (covers_holds hcovers))
      simp [hshared] at hprivate
    simp only [cmMsync, hsearch]
    split <;> rfl

/-- In every state reached, the table of mappings is unambiguous. -/
theorem mmap_unambiguous (h : Host σ) (live : σ → Set Mapping) (hk : AddressSpace h live)
    (w : World σ) (hstart : w.mmapMap = []) (hlive : Separate (live w.fs)) (ops : List CmOp)
    (hregular : RegularRun h live ops w) : Unambiguous h live (run h ops w) := by
  have hbooked : Booked live w := ⟨hlive, by simp [hstart], by simp [hstart]⟩
  exact (invariant (Booked live) (call_booked hk) ops w hbooked hregular).unambiguous

end

/-- The first page boundary after every mapping. -/
def nextBase (mappings : List Mapping) : Nat :=
  (mappings.foldr (fun m top => max (m.span.start + m.span.size) top) 4096 + 4095) / 4096 * 4096

/-- A call of the kernel below, which leaves the mappings as they are. -/
def onFiles {σ α : Type} (f : σ → α × σ) (s : σ × List Mapping) : α × σ × List Mapping :=
  ((f s.1).1, (f s.1).2, s.2)

/-- A kernel with an address space of its own beside the files of another. It places every
mapping after all others, refuses `MAP_FIXED`, and unmaps whole mappings only. -/
def withMappings {σ : Type} (h : Host σ) : Host (σ × List Mapping) where
  fnMknod p mode dev := onFiles (h.fnMknod p mode dev)
  fnMkdir p mode := onFiles (h.fnMkdir p mode)
  fnOpen p flags := onFiles (h.fnOpen p flags)
  fnOpen2 p flags mode := onFiles (h.fnOpen2 p flags mode)
  fnLseek fd offset whence := onFiles (h.fnLseek fd offset whence)
  fnWrite fd buf := onFiles (h.fnWrite fd buf)
  fnPwrite fd buf offset := onFiles (h.fnPwrite fd buf offset)
  fnMmap _ length prot flags _ _ s :=
    let base := nextBase s.2
    if length = 0 ∨ 2 ^ 47 < base + length ∨ flags.has mapFixed then (mapFailed, s)
    else (base, s.1, ⟨⟨base, length⟩, prot, flags⟩ :: s.2)
  fnMsync addr _ _ s :=
    if s.2.any fun m => decide (m.span.Holds addr) then (0, s) else (-1, s)
  fnMunmap addr length s :=
    if length = 0 then (-1, s) else (0, s.1, s.2.filter (·.span != ⟨addr, length⟩))
  fnFallocate fd mode offset len := onFiles (h.fnFallocate fd mode offset len)
  fnClose fd := onFiles (h.fnClose fd)
  fnRename old new := onFiles (h.fnRename old new)
  fnUnlink p := onFiles (h.fnUnlink p)
  fnRemove p := onFiles (h.fnRemove p)
  fnStat p := onFiles (h.fnStat p)
  fnPathExists p := onFiles (h.fnPathExists p)
  fnFsync fd := onFiles (h.fnFsync fd)
  fnFdatasync fd := onFiles (h.fnFdatasync fd)
  fnSync s := (h.fnSync s.1, s.2)
  fnSyncFileRange fd offset nbytes flags := onFiles (h.fnSyncFileRange fd offset nbytes flags)
  cmCheckpoint := onFiles h.toFsFns.cmCheckpoint
  memory s addr := if s.2.any fun m => decide (m.span.Holds addr) then some 0 else none
  order := h.order
  order_perm := h.order_perm

def mappingsOf {σ : Type} (s : σ × List Mapping) : Set Mapping := {m | m ∈ s.2}

theorem nextBase_after (mappings : List Mapping) (m : Mapping) (hm : m ∈ mappings) :
    m.span.start + m.span.size ≤ nextBase mappings := by
  have hfold : m.span.start + m.span.size ≤
      mappings.foldr (fun m top => max (m.span.start + m.span.size) top) 4096 := by
    induction mappings with
    | nil => simp at hm
    | cons m' rest ih =>
      rw [List.foldr_cons]
      rcases List.mem_cons.mp hm with rfl | hrest
      · omega
      · have := ih hrest
        omega
  unfold nextBase
  omega

theorem withMappings_openWith {σ : Type} (h : Host σ) (f : Path → σ → Int × σ) (p : Path)
    (flags : Flags) (w : World (σ × List Mapping)) :
    (openWith (withMappings h) (fun p => onFiles (f p)) p flags w).2.fs.2 = w.fs.2 := by
  simp only [openWith]
  split
  · rfl
  · simp only [cmOpenCommon]
    repeat' split
    all_goals rfl

theorem withMappings_recordWrite {σ : Type} (h : Host σ) (p : Path) (pre : Stat)
    (location : UInt64) (buf : List UInt8) (res : Int) (w : World (σ × List Mapping)) :
    (recordWrite (withMappings h) p pre location buf res w).2.fs.2 = w.fs.2 := by
  simp only [recordWrite]
  repeat' split
  all_goals rfl

theorem withMappings_other {σ : Type} (h : Host σ) (op : CmOp) (w : World (σ × List Mapping))
    (hop : op.maps = false) : (call (withMappings h) op w).2.fs.2 = w.fs.2 := by
  cases op with
  | mmap | munmap => simp [CmOp.maps] at hop
  | «open» p flags => exact withMappings_openWith h (fun p => h.fnOpen p flags) p flags w
  | open2 p flags mode => exact withMappings_openWith h (fun p => h.fnOpen2 p flags mode) p flags w
  | mknod | lseek | rename | sync => rfl
  | mkdir => simp only [call, cmMkdir]; split <;> rfl
  | close => simp only [call, cmClose]; split <;> rfl
  | checkpoint => simp only [call, cmCheckpoint]; split <;> rfl
  | unlink => simp only [call, cmUnlink, removeWith]; split <;> rfl
  | remove => simp only [call, cmRemove, removeWith]; split <;> rfl
  | write =>
    simp only [call, cmWrite]
    repeat' split
    all_goals first | rfl | exact withMappings_recordWrite _ _ _ _ _ _ _
  | pwrite =>
    simp only [call, cmPwrite]
    repeat' split
    all_goals first | rfl | exact withMappings_recordWrite _ _ _ _ _ _ _
  | msync addr length flags =>
    have hmsync : ((withMappings h).fnMsync addr length flags w.fs).2 = w.fs := by
      simp only [withMappings]
      split <;> rfl
    simp only [call, cmMsync]
    repeat' split
    all_goals exact congrArg Prod.snd hmsync
  | fallocate =>
    simp only [call, cmFallocate]
    repeat' split
    all_goals rfl
  | fsync =>
    simp only [call, cmFsync, fsyncWith]
    repeat' split
    all_goals rfl
  | fdatasync =>
    simp only [call, cmFdatasync, fsyncWith]
    repeat' split
    all_goals rfl
  | syncFileRange =>
    simp only [call, cmSyncFileRange]
    repeat' split
    all_goals rfl

theorem withMappings_addressSpace {σ : Type} (h : Host σ) :
    AddressSpace (withMappings h) mappingsOf := by
  constructor
  · intro addr length prot flags fd offset s hfailed
    simp only [withMappings] at hfailed ⊢
    split at hfailed
    · rename_i hrefused
      rw [if_pos hrefused]
    · rename_i hplaced
      simp only [mapFailed] at hfailed
      omega
  · intro addr length prot flags fd offset s hfixed res s' hmap hres
    simp only [withMappings] at hmap
    split at hmap
    · exact absurd (congrArg Prod.fst hmap).symm hres
    · rename_i hplaced
      cases hmap
      refine ⟨by omega, by omega, fun m hm => Or.inr (nextBase_after s.2 m hm), ?_⟩
      ext m
      simp [mappingsOf]
  · intro addr length s hfailed
    simp only [withMappings] at hfailed ⊢
    split at hfailed
    · rename_i hempty
      rw [if_pos hempty]
    · exact absurd hfailed (Int.lt_irrefl 0)
  · intro addr length s hres hexact
    simp only [withMappings] at hres ⊢
    split at hres
    · exact absurd (by simp) hres
    · rename_i hlength
      rw [if_neg hlength]
      ext m
      simp [mappingsOf]
  · intro op w hop
    rw [mappingsOf, withMappings_other h op w hop]
    rfl

/-- A shared and a private mapping of one file, a `CmMsync` inside each, and the address of
the first reused after it is unmapped. -/
def mmapRun : List CmOp :=
  [.open2 (path ['/', 'f']) (oCreat ||| oRdwr) 0o644#32,
    .mmap 0 8192 (protWrite ||| 1#32) 1#32 3 0, .mmap 0 100 (protWrite ||| 1#32) mapPrivate 3 0,
    .msync 8192 16 0#32, .msync 12288 16 0#32, .munmap 12288 100, .munmap 4096 8192,
    .mmap 0 4096 (protWrite ||| 1#32) 1#32 3 4096]

theorem mmap_unambiguous_run :
    Unambiguous (withMappings (posix splitPath)) mappingsOf
      (run (withMappings (posix splitPath)) mmapRun (World.start (PosixFs.empty 3, []))) :=
  mmap_unambiguous _ mappingsOf (withMappings_addressSpace _) _ rfl
    ⟨fun _ hm => absurd hm (List.not_mem_nil), fun _ hm => absurd hm (List.not_mem_nil)⟩ mmapRun
    ⟨trivial, show Flags.has _ _ = false by decide, show Flags.has _ _ = false by decide, trivial,
      trivial,
      Or.inr (Or.inl ⟨⟨⟨12288, 100⟩, protWrite ||| 1#32, mapPrivate⟩,
        by show _ ∈ (_ : List Mapping); decide +kernel, rfl⟩),
      Or.inr (Or.inl ⟨⟨⟨4096, 8192⟩, protWrite ||| 1#32, 1#32⟩,
        by show _ ∈ (_ : List Mapping); decide +kernel, rfl⟩),
      show Flags.has _ _ = false by decide, trivial⟩

end PMTester
