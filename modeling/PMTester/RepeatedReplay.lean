import PMTester.CutTrace

/-!
# Replays over one another

The replayer can be loaded again while the replay region still holds what an
earlier replay has put there. A later replay hides the earlier ones exactly when
it stores wherever one of these has stored.
-/
namespace PMTester

open Memory Loop

/-- The record stores a byte at this address. -/
def Record.StoresAt (base : UInt64) (r : Record) (a : Nat) : Prop := r.patch base a ≠ none

/-- Traces that are replayed one after the other, each over what the one before it left. Only the
vector of the locals is initialised. -/
inductive Replayed (rw : Nat → List UInt8 → Mem → Mem) (base : UInt64) :
    List (List Record) → Mem → Mem → Prop where
  | nil (m : Mem) : Replayed rw base [] m m
  | cons {rs : List Record} {rest : List (List Record)} {m m' m'' : Mem} (l : Replayer.Locals)
      (hempty : l.writeData = [])
      (hexits : Exits (Replayer.body rw base) ⟨l, ⟨rs.flatMap Record.encode, true⟩, m⟩ (.done m'))
      (hrest : Replayed rw base rest m' m'') : Replayed rw base (rs :: rest) m m''

section

variable {rw : Nat → List UInt8 → Mem → Mem} (hrw : StoresAround rw) (base : UInt64)
include hrw

/-- A replay applies the records of its trace. -/
theorem exits_trace {rs : List Record} (hne : rs ≠ []) {l : Replayer.Locals}
    (hempty : l.writeData = []) (m : Mem) :
    Exits (Replayer.body rw base) ⟨l, ⟨rs.flatMap Record.encode, true⟩, m⟩
      (.done (Patch.applyAll (rs.map (Record.patch base)) m)) := by
  have hcomplete := (replaysComplete_in_pc base rs (.fence 0) (Nat.zero_le 8)).mpr hne
  simpa using hcomplete rw hrw l hempty m

theorem replayed_iff (traces : List (List Record)) (hne : ∀ rs ∈ traces, rs ≠ []) (m m' : Mem) :
    Replayed rw base traces m m' ↔
      m' = Patch.applyAll (traces.flatten.map (Record.patch base)) m := by
  induction traces generalizing m with
  | nil =>
    constructor
    · rintro ⟨⟩
      rfl
    · rintro rfl
      exact .nil _
  | cons rs rest ih =>
    have hfirst := hne rs (by simp)
    have hsplit : Patch.applyAll ((rs :: rest).flatten.map (Record.patch base)) m =
        Patch.applyAll (rest.flatten.map (Record.patch base))
          (Patch.applyAll (rs.map (Record.patch base)) m) := by
      simp [Patch.applyAll, List.foldl_append]
    rw [hsplit]
    constructor
    · rintro (_ | ⟨l, hempty, hexits, hrest⟩)
      have hsame := hexits.unique (exits_trace hrw base hfirst hempty m)
      cases hsame
      exact (ih (fun rs' hrs' => hne rs' (by simp [hrs'])) _).mp hrest
    · intro h
      exact .cons ⟨0, 0, 0, 0, []⟩ rfl (exits_trace hrw base hfirst rfl m)
        ((ih (fun rs' hrs' => hne rs' (by simp [hrs'])) _).mpr h)

end

/-- Replays that came before cannot be seen in what the last one leaves, whatever was in memory,
exactly when the last one stores wherever one of them has stored. -/
theorem earlier_replays_hidden_iff (rw : Nat → List UInt8 → Mem → Mem) (hrw : StoresAround rw)
    (base : UInt64) (earlier : List (List Record)) (hearlier : ∀ rs ∈ earlier, rs ≠ [])
    (last : List Record) (hlast : last ≠ []) :
    (∀ m, ∃ m', Replayed rw base (earlier ++ [last]) m m' ∧ Replayed rw base [last] m m') ↔
      ∀ rs ∈ earlier, ∀ r ∈ rs, ∀ a, r.StoresAt base a → ∃ r' ∈ last, r'.StoresAt base a := by
  have hall : ∀ rs ∈ earlier ++ [last], rs ≠ [] := by
    intro rs hrs
    obtain hrs | hrs := List.mem_append.mp hrs
    · exact hearlier rs hrs
    · rwa [List.mem_singleton.mp hrs]
  have hone : ∀ rs ∈ [last], rs ≠ [] := fun rs hrs => List.mem_singleton.mp hrs ▸ hlast
  have : Nontrivial UInt8 := ⟨0, 1, by decide⟩
  have hreached (rs : List Record) (a : Nat) :
      Patch.Reached (rs.map (Record.patch base)) a ↔ ∃ r ∈ rs, r.StoresAt base a := by
    simp [Patch.Reached, Record.StoresAt]
  have hsplit (m : Mem) : Patch.applyAll ((earlier ++ [last]).flatten.map (Record.patch base)) m =
      Patch.applyAll (last.map (Record.patch base))
        (Patch.applyAll (earlier.flatten.map (Record.patch base)) m) := by
    simp [Patch.applyAll, List.foldl_append]
  simp only [replayed_iff hrw base _ hall, replayed_iff hrw base _ hone, hsplit, exists_eq_left,
    List.flatten_singleton]
  rw [Patch.applyAll_absorbs_iff]
  simp only [hreached, List.mem_flatten]
  constructor
  · intro h rs hrs r hr a ha
    exact h a ⟨r, ⟨rs, hrs, hr⟩, ha⟩
  · rintro h a ⟨r, ⟨rs, hrs, hr⟩, ha⟩
    exact h rs hrs r hr a ha

/-- The first write alone, then both: as if the first one had not been replayed before. -/
theorem earlier_replays_hidden_iff_prefix :
    ∃ m', Replayed (fun address bytes m => Patch.apply (Patch.block (2 ^ 64) address bytes) m)
        0x48000000 [[firstWrite], [firstWrite, secondWrite]] (fun _ => 0) m' ∧
      Replayed (fun address bytes m => Patch.apply (Patch.block (2 ^ 64) address bytes) m)
        0x48000000 [[firstWrite, secondWrite]] (fun _ => 0) m' := by
  refine (earlier_replays_hidden_iff _ (fun _ _ _ => rfl) 0x48000000 [[firstWrite]] (by simp)
    [firstWrite, secondWrite] (by simp)).mpr ?_ _
  intro rs hrs r hr a ha
  rw [List.mem_singleton.mp hrs] at hr
  rw [List.mem_singleton.mp hr] at ha
  exact ⟨firstWrite, by simp, ha⟩

end PMTester
