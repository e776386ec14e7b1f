import UserFace800.Control.Locations
import UserFace800.Mixer.Persist
/-!
# What the model may hold

The bounds the model's type documents (`WellFormed`), and everything that writes to
it: commands off the socket, a saved blob, an old saved matrix. Some of the writers
clamp and some do not, so the bounds are kept by the writes that bring nothing out of
them (`Clean`), and by no other (`apply_wellFormed`): a write that does not clamp
leaves a model out of bounds whenever it is given one.
-/
open UserFace800.Lib UserFace800.Protocol UserFace800.Mixer

namespace UserFace800.Mixer

/-- The flags a place may have: phase for crosspoints, loopback for outputs. -/
def Place.allowed : Place → BitVec 8
  | .cell _ _ _ => kMfMuted ||| kMfInverted
  | .output _ => kMfMuted ||| kMfRec

/-- A cell within the bounds of its place. -/
structure Place.Holds (p : Place) (c : Cell) : Prop where
  gain : c.gain ≤ kMixerMax
  flags : c.flags &&& ~~~p.allowed = 0

/-- Every gain a magnitude up to the maximum, every flag one its place has, and no
pairing past the last pair. -/
structure MixerModel.WellFormed (m : MixerModel) : Prop where
  places : ∀ p : Place, p.Holds (m.get p)
  pairs : ∀ (k : MixerSrcKind) (i : ℕ), 14 ≤ i → (m.bits k).getLsbD i = false

theorem Place.holds_blank (p : Place) : p.Holds {} := ⟨by decide, BitVec.zero_and⟩

theorem Place.holds_unity (p : Place) : p.Holds { gain := kMixerUnity } := ⟨by decide, BitVec.zero_and⟩

theorem resetDefaults_wellFormed (dbq : ℕ) (diag : Bool) : (MixerModel.resetDefaults dbq diag).WellFormed := by
  constructor
  · intro p
    cases p with
    | cell kind s d =>
      cases kind with
      | input => exact Place.holds_blank _
      | playback =>
        change Place.Holds _ (if s = d ∧ s < min dbq kCh ∧ diag then { gain := kMixerUnity } else {})
        split
        · exact Place.holds_unity _
        · exact Place.holds_blank _
    | output o =>
      change Place.Holds _ (if o < min dbq kCh then { gain := kMixerUnity } else {})
      split
      · exact Place.holds_unity _
      · exact Place.holds_blank _
  · intro k i _
    cases k <;> exact BitVec.getLsbD_zero

/-- A copied column has the places' kind and so their bounds. -/
theorem copiedFrom_place (src dest : ℕ) (p : Place) :
    ∃ p' : Place, copiedFrom src dest (.place p) = .place p' ∧ p'.allowed = p.allowed := by
  cases p with
  | output o => exact ⟨_, rfl, rfl⟩
  | cell kind s d =>
    unfold copiedFrom
    dsimp only
    split
    · exact ⟨_, rfl, rfl⟩
    · exact ⟨_, rfl, rfl⟩

end UserFace800.Mixer

namespace UserFace800.Control

/-- A write to the model, whoever makes it. -/
inductive Change where
  | command (c : CtlCommand)
  | blob (b : Blob)
  | cells (cs : List Quadlet)

namespace Change

/-- What a change does to the model. -/
def apply (m : MixerModel) : Change → MixerModel
  | .command c => c.edit m
  | .blob b => m.fromBlob b
  | .cells cs => m.importCells cs

/-- What it brings is within bounds. A saved gain is clamped when it is read, so a blob
is judged by its flags and pairings only; a saved cell is judged by its coefficient. -/
def Clean : Change → Prop
  | .command c => ∀ p : Place, c.spot = .place p →
    match c.type with
    | .setMixer | .setFader => c.coeff ≤ kMixerMax
    | .setCellFlags | .setOutFlags => (c.flags &&& c.mask).setWidth 8 &&& ~~~p.allowed = 0
    | _ => True
  | .blob b => (∀ p : Place, (b.get p).flags &&& ~~~p.allowed = 0) ∧
    ∀ i, 14 ≤ i → b.stereoIn.getLsbD i = false ∧ b.stereoPb.getLsbD i = false
  | .cells cs => ∀ p : Place, (quadletCoeff (cs.getD p.index 0)).natAbs ≤ 0x10000 ∧
    (quadletCoeff (cs.getD p.index 0) < 0 → kMfInverted &&& ~~~p.allowed = 0)

/-! ## Each writer -/

/-- Flags outside the mask are as before; those in it are the command's. -/
theorem merged_allowed (c : CtlCommand) {f a : BitVec 8} (h : f &&& ~~~a = 0) :
    c.mergeFlags f &&& ~~~a = (c.flags &&& c.mask).setWidth 8 &&& ~~~a := by
  have hold : (f &&& (~~~c.mask).setWidth 8) &&& ~~~a = 0 := by
    rw [BitVec.and_assoc, BitVec.and_comm _ (~~~a), ← BitVec.and_assoc, h]
    exact BitVec.zero_and
  unfold CtlCommand.mergeFlags
  rw [BitVec.and_or_distrib_right, hold]
  exact BitVec.zero_or

theorem edit_pairs (c : CtlCommand) {m : MixerModel} (hm : m.WellFormed) (k : MixerSrcKind) (i : ℕ) (hi : 14 ≤ i) :
    ((c.edit m).bits k).getLsbD i = false := by
  have hK := kCh_eq
  rw [c.bits_edit]
  split
  · rw [if_neg (by omega)]
    exact hm.pairs k i hi
  · exact hm.pairs k i hi

theorem edit_wellFormed (c : CtlCommand) {m : MixerModel} (hm : m.WellFormed) :
    (c.edit m).WellFormed ↔ (Change.command c).Clean := by
  have hlook : ∀ p, (c.edit m).get p = (c.edit m).look (.place p) := fun _ => rfl
  constructor
  · intro h p hp
    -- the spot the command lands on shows what it brought
    have hplace := h.places p
    rw [hlook, c.look_edit] at hplace
    cases ht : c.type <;> simp only [ht] at hplace ⊢
    case setMixer | setFader =>
      rw [if_pos hp.symm] at hplace
      exact hplace.gain
    case setCellFlags | setOutFlags =>
      rw [if_pos hp.symm] at hplace
      rw [← merged_allowed c (hm.places p).flags]
      exact hplace.flags
  · intro h
    refine ⟨fun p => ?_, edit_pairs c hm⟩
    have hold := hm.places p
    have hclean := h p
    rw [hlook, c.look_edit]
    cases ht : c.type <;> simp only [ht] at hclean ⊢ <;> try exact hold
    case setMixer | setFader =>
      split
      · rename_i hp
        exact ⟨hclean hp.symm, hold.flags⟩
      · exact hold
    case setCellFlags | setOutFlags =>
      split
      · rename_i hp
        exact ⟨hold.gain, (merged_allowed c hold.flags).trans (hclean hp.symm)⟩
      · exact hold
    case submix =>
      split
      · split
        · exact p.holds_blank
        · exact hold
      · -- a copied cell comes from a place with the same bounds
        obtain ⟨p', hp', hallowed⟩ := copiedFrom_place c.src.toNat c.dest.toNat p
        rw [hp']
        exact ⟨(hm.places p').gain, by rw [← hallowed]; exact (hm.places p').flags⟩

theorem fromBlob_wellFormed (m : MixerModel) (b : Blob) : (m.fromBlob b).WellFormed ↔ (Change.blob b).Clean := by
  constructor
  · intro h
    refine ⟨fun p => ?_, fun i hi => ⟨h.pairs .input i hi, h.pairs .playback i hi⟩⟩
    have hplace := h.places p
    rw [get_fromBlob] at hplace
    exact hplace.flags
  · rintro ⟨hflags, hpairs⟩
    refine ⟨fun p => ?_, fun k i hi => ?_⟩
    · rw [get_fromBlob]
      exact ⟨clampGain_le _, hflags p⟩
    · cases k
      · exact (hpairs i hi).1
      · exact (hpairs i hi).2

/-- A cell taken from a coefficient is within bounds if the coefficient is. -/
theorem holds_adopt (p : Place) (q : Quadlet) : p.Holds (MixerModel.adopt (quadletCoeff q)) ↔
    (quadletCoeff q).natAbs ≤ 0x10000 ∧ (quadletCoeff q < 0 → kMfInverted &&& ~~~p.allowed = 0) := by
  have hlo : -2 ^ 31 ≤ quadletCoeff q := BitVec.le_toInt q
  have hhi : quadletCoeff q < 2 ^ 31 := BitVec.toInt_lt
  have hgain : coeffMagnitude (quadletCoeff q) ≤ kMixerMax ↔ (quadletCoeff q).natAbs ≤ 0x10000 := by
    rw [BitVec.le_def, coeffMagnitude_toNat (by omega)]
    exact Iff.rfl
  have hflags : (MixerModel.adopt (quadletCoeff q)).flags &&& ~~~p.allowed = 0 ↔
      (quadletCoeff q < 0 → kMfInverted &&& ~~~p.allowed = 0) := by
    unfold MixerModel.adopt
    dsimp only
    split
    · rename_i h
      exact ⟨fun hf _ => hf, fun hf => hf h⟩
    · rename_i h
      exact ⟨fun _ hn => absurd hn h, fun _ => BitVec.zero_and⟩
  exact ⟨fun h => ⟨hgain.1 h.gain, hflags.1 h.flags⟩, fun h => ⟨hgain.2 h.1, hflags.2 h.2⟩⟩

theorem importCells_wellFormed {m : MixerModel} (hm : m.WellFormed) (cs : List Quadlet) :
    (m.importCells cs).WellFormed ↔ (Change.cells cs).Clean := by
  constructor
  · intro h p
    have hplace := h.places p
    rw [get_importCells] at hplace
    exact (holds_adopt p _).1 hplace
  · intro h
    refine ⟨fun p => ?_, fun k => ?_⟩
    · rw [get_importCells]
      exact (holds_adopt p _).2 (h p)
    · cases k
      · exact hm.pairs .input
      · exact hm.pairs .playback

theorem apply_wellFormed {m : MixerModel} (hm : m.WellFormed) (a : Change) : (a.apply m).WellFormed ↔ a.Clean := by
  cases a with
  | command c => exact edit_wellFormed c hm
  | blob b => exact fromBlob_wellFormed m b
  | cells cs => exact importCells_wellFormed hm cs

/-! ## Runs -/

/-- A model within bounds stays so through a run exactly if every write is clean. -/
theorem foldl_wellFormed {m : MixerModel} (hm : m.WellFormed) (as : List Change) :
    (∀ pre, pre <+: as → (pre.foldl apply m).WellFormed) ↔ ∀ a ∈ as, a.Clean := by
  induction as generalizing m with
  | nil =>
    constructor
    · intro _ a ha
      cases ha
    · intro _ pre hpre
      obtain rfl := List.prefix_nil.1 hpre
      exact hm
  | cons a as ih =>
    constructor
    · intro h
      -- the first state after the start tells about the first write
      have hclean : a.Clean := (apply_wellFormed hm a).1 (h [a] ⟨as, rfl⟩)
      have hnext := (apply_wellFormed hm a).2 hclean
      have hrest := (ih hnext).1 fun pre hpre => h (a :: pre) (List.cons_prefix_cons.2 ⟨rfl, hpre⟩)
      exact List.forall_mem_cons.2 ⟨hclean, hrest⟩
    · intro h pre hpre
      obtain ⟨hclean, hrest⟩ := List.forall_mem_cons.1 h
      have hnext := (apply_wellFormed hm a).2 hclean
      cases pre with
      | nil => exact hm
      | cons b pre =>
        obtain ⟨rfl, htail⟩ := List.cons_prefix_cons.1 hpre
        exact (ih hnext).2 hrest pre htail

end Change

/-- From the defaults, in every state of a run. -/
theorem representation (dbq : ℕ) (diag : Bool) (as : List Change) :
    (∀ pre, pre <+: as → (pre.foldl Change.apply (MixerModel.resetDefaults dbq diag)).WellFormed) ↔
      ∀ a ∈ as, a.Clean :=
  Change.foldl_wellFormed (resetDefaults_wellFormed dbq diag) as

/-- A gain off the socket is stored as it came. -/
theorem loud_fader : ¬∀ pre, pre <+: [Change.command { type := .setFader, coeff := 0x10001 }] →
    (pre.foldl Change.apply (MixerModel.resetDefaults 28 true)).WellFormed := by
  intro h
  have hgain := ((h _ (List.prefix_refl _)).places (.output 0)).gain
  revert hgain
  decide

end UserFace800.Control
