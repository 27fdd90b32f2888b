import PMTester.DiskMod

/-!
# The frame format of a `DiskMod`

`format` is the layout documented above `DiskMod::Serialize`, as one byte list.
The stores of `serialize` tile exactly that layout, and `deserialize` reads it
back. The size field of a frame is right for every type but `kRemoveMod`, whose
size leaves out the sixteen bytes of location and length that are written and
read all the same.
-/
namespace PMTester.DiskMod

open Bytes Memory Word

/-- The types that end after path and directory flag, for encoder and decoder alike. -/
def nameOnly (dm : DiskMod) : Prop := dm.modType = .kFsyncMod ∨ dm.modType = .kCreateMod

instance (dm : DiskMod) : Decidable dm.nameOnly := inferInstanceAs (Decidable (_ ∨ _))

def formatHeader (dm : DiskMod) : List UInt8 := be 2 dm.modType.code ++ be 2 dm.modOpts.code

def formatChange (dm : DiskMod) : List UInt8 :=
  dm.path ++ [0] ++ [if dm.directoryMod then 1 else 0]

def formatRange (dm : DiskMod) : List UInt8 :=
  be 8 dm.fileModLocation.toNat ++ be 8 dm.fileModLen.toNat ++
    if dm.rangeOnly then [] else dm.fileModData

/-- The bytes behind the size field. -/
def formatBody (dm : DiskMod) : List UInt8 :=
  formatHeader dm ++
    if dm.headerOnly then []
    else formatChange dm ++ if dm.nameOnly then [] else formatRange dm

def format (dm : DiskMod) : List UInt8 := be 8 dm.getSerializeSize ++ formatBody dm

/-- What the encoder needs of a mod that it can write down: it is not a change to
a directory beyond its name, and its data is as long as its length field. -/
structure Encodable (dm : DiskMod) : Prop where
  file : dm.headerOnly ∨ dm.nameOnly ∨ dm.directoryMod = false
  data : dm.rangeOnly ∨ dm.fileModData.length = dm.fileModLen.toNat
  path : dm.path.length < 2 ^ 31 - 2

theorem serializeChangeHeader_eq (bufOffset : Nat) (dm : DiskMod) (h : dm.path.length < 2 ^ 31 - 2) :
    serializeChangeHeader bufOffset dm =
      ([⟨bufOffset, dm.path ++ [0]⟩,
        ⟨bufOffset + (dm.path.length + 1), [if dm.directoryMod then 1 else 0]⟩],
        ((dm.path.length + 2 : Nat) : Int)) := by
  have hsize : toUnsigned (dm.path.length + 1) = dm.path.length + 1 := toUnsigned_of_lt _ (by omega)
  have hres : toInt ((dm.path.length + 1 : Nat) + 1) = (dm.path.length + 2 : Nat) := by
    rw [toInt_of_fits _ (by omega) (by omega)]
    omega
  have htake : (dm.path ++ [0]).take (dm.path.length + 1) = dm.path ++ [0] :=
    List.take_of_length_le (by simp)
  simp only [serializeChangeHeader, hsize, hres, htake]

/-- The data range is written in full, whatever its length does to the return value. -/
theorem serializeDataRange_eq (bufOffset : Nat) (dm : DiskMod)
    (h : dm.rangeOnly ∨ dm.fileModData.length = dm.fileModLen.toNat) :
    ∃ stores res, serializeDataRange bufOffset dm = some (stores, res) ∧
      Tiles bufOffset stores (bufOffset + (formatRange dm).length) ∧
      blocks stores = formatRange dm := by
  by_cases hr : dm.rangeOnly
  · refine ⟨_, _, if_pos hr, ?_, ?_⟩
    · simp [formatRange, hr, Store.stop]
    · simp [formatRange, hr, blocks]
  · have hlen : dm.fileModData.length = dm.fileModLen.toNat := h.resolve_left hr
    have htake : dm.fileModData.take dm.fileModLen.toNat = dm.fileModData :=
      List.take_of_length_le (by omega)
    have hstores : serializeDataRange bufOffset dm = some
        ([⟨bufOffset, be 8 dm.fileModLocation.toNat⟩, ⟨bufOffset + 8, be 8 dm.fileModLen.toNat⟩,
          ⟨bufOffset + 16, dm.fileModData⟩], toInt (2 * 8 + dm.fileModLen.toNat)) := by
      simp [serializeDataRange, hr, hlen, htake]
    refine ⟨_, _, hstores, ?_, ?_⟩
    · simp [formatRange, hr, Store.stop]
      omega
    · simp [formatRange, hr, blocks]

/-- The size field, the two header stores and the two stores of the change header. -/
def frontStores (dm : DiskMod) : List Store :=
  [⟨0, be 8 dm.getSerializeSize⟩, ⟨8, be 2 dm.modType.code⟩, ⟨10, be 2 dm.modOpts.code⟩,
    ⟨12, dm.path ++ [0]⟩, ⟨12 + (dm.path.length + 1), [if dm.directoryMod then 1 else 0]⟩]

theorem frontStores_tiles (dm : DiskMod) :
    Tiles 0 dm.frontStores (12 + (dm.path.length + 2)) ∧
      blocks dm.frontStores = be 8 dm.getSerializeSize ++ (formatHeader dm ++ formatChange dm) := by
  constructor
  · simp [frontStores, Store.stop]
    omega
  · simp [frontStores, blocks, formatHeader, formatChange]

theorem serialize_headerOnly (dm : DiskMod) (h : dm.headerOnly) :
    dm.serialize = ⟨dm.getSerializeSize, [⟨0, be 8 dm.getSerializeSize⟩,
      ⟨8, be 2 dm.modType.code⟩, ⟨10, be 2 dm.modOpts.code⟩], .buffer⟩ := by
  simp [serialize, serializeHeader, h]

theorem serialize_nameOnly (dm : DiskMod) (hh : ¬ dm.headerOnly) (hn : dm.nameOnly)
    (hpath : dm.path.length < 2 ^ 31 - 2) :
    dm.serialize = ⟨dm.getSerializeSize, dm.frontStores, .buffer⟩ := by
  have hoff : toUnsigned 12 = 12 := rfl
  have hres : ¬ ((dm.path.length : Int) + 2 < 0) := by omega
  simp only [nameOnly] at hn
  simp [serialize, serializeHeader, serializeChangeHeader_eq _ dm hpath, hh, hn, hoff, hres,
    frontStores]

/-- A change to a file: the front, then the data range. -/
theorem serialize_file (dm : DiskMod) (hh : ¬ dm.headerOnly) (hn : ¬ dm.nameOnly)
    (hdir : dm.directoryMod = false) (hpath : dm.path.length < 2 ^ 31 - 2)
    (range : List Store) (res : Int)
    (hrange : serializeDataRange (12 + (dm.path.length + 2)) dm = some (range, res)) :
    dm.serialize = ⟨dm.getSerializeSize, dm.frontStores ++ range,
      if res < 0 then .nullptr else .buffer⟩ := by
  have hoff : toUnsigned 12 = 12 := rfl
  have hres : ¬ ((dm.path.length : Int) + 2 < 0) := by omega
  have hoff' : toUnsigned (12 + ((dm.path.length : Int) + 2).toNat) =
      12 + (dm.path.length + 2) := by
    rw [toUnsigned_of_lt _ (by omega)]
    omega
  simp only [nameOnly] at hn
  simp [serialize, serializeHeader, serializeChangeHeader_eq _ dm hpath, hh, hn, hoff, hres, hoff',
    hrange, hdir, frontStores]

theorem serialize_size (dm : DiskMod) : dm.serialize.size = dm.getSerializeSize := by
  simp only [serialize, serializeHeader, serializeChangeHeader]
  split_ifs <;> first | rfl | (split <;> rfl)

/-- The stores of an encodable mod lay the format down without gap or overlap. -/
theorem serialize_tiles (dm : DiskMod) (h : Encodable dm) :
    Tiles 0 dm.serialize.stores dm.format.length ∧ blocks dm.serialize.stores = dm.format := by
  by_cases hh : dm.headerOnly
  · rw [serialize_headerOnly dm hh]
    simp [format, formatBody, formatHeader, hh, Store.stop, blocks]
  obtain ⟨htiles, hblocks⟩ := frontStores_tiles dm
  have hlen : (blocks dm.frontStores).length = 12 + (dm.path.length + 2) := by
    have hstop := tiles_stop _ _ _ htiles
    rw [length_blocks]
    omega
  by_cases hn : dm.nameOnly
  · rw [serialize_nameOnly dm hh hn h.path]
    have hformat : dm.format = blocks dm.frontStores := by
      simp [format, formatBody, hh, hn, hblocks]
    rw [hformat, hlen]
    exact ⟨htiles, rfl⟩
  · have hdir : dm.directoryMod = false := (h.file.resolve_left hh).resolve_left hn
    obtain ⟨range, res, hrange, hrtiles, hrblocks⟩ :=
      serializeDataRange_eq (12 + (dm.path.length + 2)) dm h.data
    rw [serialize_file dm hh hn hdir h.path range res hrange]
    have hformat : dm.format = blocks dm.frontStores ++ formatRange dm := by
      simp [format, formatBody, hh, hn, hblocks]
    constructor
    · rw [hformat, List.length_append, hlen]
      exact tiles_append _ _ _ _ _ htiles hrtiles
    · rw [hformat, ← hrblocks]
      simp [blocks]

theorem length_formatHeader (dm : DiskMod) : (formatHeader dm).length = 4 := by
  simp [formatHeader]

theorem length_formatChange (dm : DiskMod) : (formatChange dm).length = dm.path.length + 2 := by
  simp [formatChange]

/-- The size computation agrees with the layout unless the mod is a removal. -/
theorem getSerializeSize_eq (dm : DiskMod) (h : Encodable dm)
    (hdata : dm.fileModData.length < 2 ^ 63) (hr : dm.modType ≠ .kRemoveMod) :
    dm.getSerializeSize = dm.format.length := by
  have hpath := h.path
  by_cases hh : dm.headerOnly
  · simp [getSerializeSize, format, formatBody, length_formatHeader, hh]
  by_cases hn : dm.nameOnly
  · have hn' : dm.modType = .kFsyncMod ∨ dm.modType = .kRemoveMod ∨ dm.modType = .kCreateMod := by
      rcases hn with hn | hn <;> simp [hn]
    simp only [getSerializeSize, hh, hn', ↓reduceIte, format, formatBody, hn, List.length_append,
      length_be, length_formatHeader, length_formatChange, List.length_nil]
    rw [toUlong_of_lt _ (by omega)]
    omega
  have hn' : ¬ (dm.modType = .kFsyncMod ∨ dm.modType = .kRemoveMod ∨ dm.modType = .kCreateMod) := by
    rintro (hn' | hn' | hn')
    · exact hn (Or.inl hn')
    · exact hr hn'
    · exact hn (Or.inr hn')
  have hdir : dm.directoryMod = false := (h.file.resolve_left hh).resolve_left hn
  by_cases hrange : dm.rangeOnly
  · simp only [getSerializeSize, hh, hn', hrange, ↓reduceIte, format, formatBody, hn,
      List.length_append, length_be, length_formatHeader, length_formatChange, formatRange,
      List.length_nil]
    rw [toUlong_of_lt _ (by omega)]
    omega
  · have hlen := h.data.resolve_left hrange
    simp only [getSerializeSize, hh, hn', hrange, hdir, Bool.false_eq_true, ↓reduceIte, format,
      formatBody, hn, List.length_append, length_be, length_formatHeader, length_formatChange,
      formatRange]
    rw [toUlong_of_lt _ (by omega)]
    omega

/-- The size of a removal stops before its data range. -/
theorem getSerializeSize_remove (dm : DiskMod) (hpath : dm.path.length < 2 ^ 31 - 2)
    (hr : dm.modType = .kRemoveMod) : dm.getSerializeSize = 12 + (dm.path.length + 2) := by
  have hh : ¬ dm.headerOnly := by simp [headerOnly, hr]
  simp only [getSerializeSize, hh, hr, true_or, or_true, ↓reduceIte]
  rw [toUlong_of_lt _ (by omega)]
  omega

@[simp] theorem take_append {front rest : List UInt8} {n : Nat} (width : front.length = n) :
    take n (front ++ rest) = .ok (front, rest) := by
  subst width
  simp [take]

theorem takeUint_be (width value : Nat) (rest : List UInt8) (h : value < 256 ^ width) :
    takeUint width (be width value ++ rest) = .ok (value, rest) := by
  simp [takeUint, take_append, ofBe_be, Nat.mod_eq_of_lt h]

theorem takeUint_byte (b : UInt8) (rest : List UInt8) :
    takeUint 1 (b :: rest) = .ok (b.toNat, rest) := by
  simp [takeUint, take, ofBe, ofLe]

/-- The chunked reader collects a NUL-free path of any length. -/
theorem readPath_append (path tmp p rest : List UInt8) (h : (0 : UInt8) ∉ p) :
    readPath path tmp (p ++ 0 :: rest) = .ok (path ++ tmp ++ p, rest) := by
  induction p generalizing path tmp with
  | nil => simp [readPath]
  | cons c p ih =>
    have hc : c ≠ 0 := fun hc => h (by simp [hc])
    have hp : (0 : UInt8) ∉ p := fun hp => h (by simp [hp])
    rw [List.cons_append, readPath, if_neg hc]
    split
    · rw [ih _ _ hp]
      simp
    · rw [ih _ _ hp]
      simp

/-- What a reader of the frame gets back: the fields the layout carries. -/
def wire (dm : DiskMod) : DiskMod :=
  if dm.headerOnly then { modType := dm.modType, modOpts := dm.modOpts }
  else if dm.nameOnly then
    { path := dm.path, modType := dm.modType, modOpts := dm.modOpts,
      directoryMod := dm.directoryMod }
  else
    { path := dm.path, modType := dm.modType, modOpts := dm.modOpts,
      directoryMod := dm.directoryMod, fileModLocation := dm.fileModLocation,
      fileModLen := dm.fileModLen, fileModData := if dm.rangeOnly then [] else dm.fileModData }

/-- The decoder after the header, on a mod that has a path. -/
theorem deserialize_change (n : Nat) (dm : DiskMod) (rest : List UInt8) (hnul : (0 : UInt8) ∉ dm.path)
    (hh : ¬ dm.headerOnly) :
    deserialize (be 8 n ++ (formatHeader dm ++ (formatChange dm ++ rest))) = do
      let res : DiskMod :=
        { path := dm.path, modType := dm.modType, modOpts := dm.modOpts,
          directoryMod := dm.directoryMod }
      if res.nameOnly then return res
      else
        let (location, data) ← takeUint 8 rest
        let (len, data) ← takeUint 8 data
        let res := { res with
          fileModLocation := UInt64.ofNat location, fileModLen := UInt64.ofNat len }
        if res.rangeOnly then return res
        else if 0 < len then
          let (bytes, _) ← take len data
          return { res with fileModData := bytes }
        else return res := by
  have hh' : ¬ ({ modType := dm.modType, modOpts := dm.modOpts } : DiskMod).headerOnly := hh
  have hdir : ((if dm.directoryMod then 1 else 0 : UInt8).toNat != 0) = dm.directoryMod := by
    cases dm.directoryMod <;> rfl
  have hassoc : formatChange dm ++ rest =
      dm.path ++ 0 :: ((if dm.directoryMod then 1 else 0) :: rest) := by
    simp [formatChange]
  rw [hassoc]
  simp only [deserialize, formatHeader, List.append_assoc]
  rw [take_append (length_be 8 n)]
  simp only [Except.bind, bind, takeUint_be 2 _ _ dm.modType.code_lt,
    takeUint_be 2 _ _ dm.modOpts.code_lt, ModType.ofCode_code, ModOpts.ofCode_code, hh', ↓reduceIte,
    readPath_append _ _ _ _ hnul, takeUint_byte, hdir, List.nil_append]
  rfl

theorem deserialize_headerOnly (n : Nat) (dm : DiskMod) (rest : List UInt8) (hh : dm.headerOnly) :
    deserialize (be 8 n ++ (formatHeader dm ++ rest)) =
      .ok { modType := dm.modType, modOpts := dm.modOpts } := by
  have hh' : ({ modType := dm.modType, modOpts := dm.modOpts } : DiskMod).headerOnly := hh
  simp only [deserialize, formatHeader, List.append_assoc]
  rw [take_append (length_be 8 n)]
  simp only [Except.bind, bind, takeUint_be 2 _ _ dm.modType.code_lt,
    takeUint_be 2 _ _ dm.modOpts.code_lt, ModType.ofCode_code, ModOpts.ofCode_code, hh', ↓reduceIte]
  rfl

/-- Decoding a frame gives back every field the layout carries, whatever its size field says. -/
theorem deserialize_format (n : Nat) (dm : DiskMod) (h : Encodable dm)
    (hnul : (0 : UInt8) ∉ dm.path) : deserialize (be 8 n ++ formatBody dm) = .ok (wire dm) := by
  by_cases hh : dm.headerOnly
  · simpa [formatBody, hh, wire] using deserialize_headerOnly n dm [] hh
  by_cases hn : dm.nameOnly
  · have hchange := deserialize_change n dm [] hnul hh
    have hn' : dm.modType = .kFsyncMod ∨ dm.modType = .kCreateMod := hn
    simp only [formatBody, hh, hn, ↓reduceIte]
    rw [hchange]
    simp [nameOnly, hn', wire, hh, pure, Except.pure]
  have hn' : ¬ (dm.modType = .kFsyncMod ∨ dm.modType = .kCreateMod) := hn
  have hloc : dm.fileModLocation.toNat < 256 ^ 8 := dm.fileModLocation.toNat_lt
  have hlen : dm.fileModLen.toNat < 256 ^ 8 := dm.fileModLen.toNat_lt
  simp only [formatBody, hh, hn, ↓reduceIte]
  rw [deserialize_change n dm _ hnul hh]
  simp only [formatRange, List.append_assoc, takeUint_be _ _ _ hloc, takeUint_be _ _ _ hlen,
    nameOnly, hn', ↓reduceIte, bind, Except.bind, UInt64.ofNat_toNat]
  by_cases hr : dm.rangeOnly
  · simp only [rangeOnly] at hr
    simp [wire, hh, hn, rangeOnly, hr, pure, Except.pure]
  · have hdata := h.data.resolve_left hr
    simp only [rangeOnly] at hr
    by_cases hz : 0 < dm.fileModLen.toNat
    · have htake : take dm.fileModLen.toNat (dm.fileModData ++ []) = .ok (dm.fileModData, []) :=
        take_append hdata
      rw [List.append_nil] at htake
      simp [wire, hh, hn, rangeOnly, hr, hz, htake, pure, Except.pure]
    · have hempty : dm.fileModData = [] := List.eq_nil_of_length_eq_zero (by omega)
      simp [wire, hh, hn, rangeOnly, hr, hz, hempty, pure, Except.pure]

/-- The bytes handed to the log: the buffer, whatever it held when it was allocated. -/
theorem frame_eq (dm : DiskMod) (h : Encodable dm) (fresh : Mem)
    (hsize : dm.getSerializeSize ≤ dm.format.length) :
    dm.serialize.frame fresh = dm.format.take dm.getSerializeSize := by
  obtain ⟨htiles, hblocks⟩ := serialize_tiles dm h
  have hs : dm.serialize.size = dm.getSerializeSize := serialize_size dm
  rw [Serialized.frame, hs, image_of_tiles fresh _ _ _ htiles hsize, hblocks]

end PMTester.DiskMod
