import UserFace800.Mixer.Render
import Mathlib.Data.List.GetD
/-!
# Saving the mixer

What a saved mixer becomes at the next start. A cell is written three ways: as the
model has it, as the blob has it (gains clamped when it is read back), and as the
quadlet the device gets (gains clamped, mute as gain 0, phase as the sign). All
three render alike, because `signedCoeff` clamps as `clampGain` does and never gives
an inverted 0: `quadlet_clampGain` and `quadlet_adopt`, one lemma for each way back.
-/
open UserFace800.Protocol

namespace UserFace800.Mixer

/-! ## Coefficients -/

theorem clampGain_toNat (g : Quadlet) : (MixerModel.clampGain g).toNat = min g.toNat 0x10000 := by
  unfold MixerModel.clampGain kMixerMax
  split
  · rename_i h
    exact (Nat.min_eq_right (Nat.le_of_lt (BitVec.lt_def.1 h))).symm
  · rename_i h
    exact (Nat.min_eq_left (Nat.le_of_not_lt fun hlt => h (BitVec.lt_def.2 hlt))).symm

theorem clampGain_le (g : Quadlet) : MixerModel.clampGain g ≤ kMixerMax := by
  rw [BitVec.le_def, clampGain_toNat]
  exact Nat.min_le_right _ _

theorem clampGain_of_le {g : Quadlet} (h : g ≤ kMixerMax) : MixerModel.clampGain g = g := by
  unfold MixerModel.clampGain
  exact if_neg (BitVec.not_lt.2 h)

theorem clampGain_clampGain (g : Quadlet) :
    MixerModel.clampGain (MixerModel.clampGain g) = MixerModel.clampGain g := clampGain_of_le (clampGain_le g)

/-- The clamp of the coefficient is the clamp of the model. -/
theorem signedCoeff_eq (g : Quadlet) (inverted : Bool) :
    signedCoeff g inverted = if inverted then -((max 1 (min g.toNat 0x10000) : ℕ) : ℤ) else
    (min g.toNat 0x10000 : ℕ) := by
  rw [← clampGain_toNat]
  unfold signedCoeff
  dsimp only
  change (if inverted then -(if MixerModel.clampGain g = 0 then 1 else ((MixerModel.clampGain g).toNat : ℤ))
    else ((MixerModel.clampGain g).toNat : ℤ)) = _
  cases inverted with
  | false => rfl
  | true =>
    rw [if_pos rfl, if_pos rfl]
    split
    · rename_i h
      rw [h]
      rfl
    · rename_i h
      have hpos : (MixerModel.clampGain g).toNat ≠ 0 := fun h0 => h (BitVec.eq_of_toNat_eq h0)
      rw [Nat.max_eq_right (Nat.one_le_iff_ne_zero.2 hpos)]

theorem signedCoeff_bounds (g : Quadlet) (inverted : Bool) :
    -0x10000 ≤ signedCoeff g inverted ∧ signedCoeff g inverted ≤ 0x10000 := by
  rw [signedCoeff_eq]
  cases inverted <;> simp only [Bool.false_eq_true, if_false, if_true] <;> omega

/-- A coefficient survives the quadlet. -/
theorem quadletCoeff_coeffQuadlet {v : ℤ} (lo : -0x10000 ≤ v) (hi : v ≤ 0x10000) : quadletCoeff (coeffQuadlet v) = v :=
  BitVec.toInt_ofInt_eq_self (by decide) (by omega) (by omega)

theorem coeffMagnitude_toNat {v : ℤ} (h : v.natAbs < 2 ^ 32) : (coeffMagnitude v).toNat = v.natAbs := by
  unfold coeffMagnitude
  rw [BitVec.toNat_ofInt]
  split <;> omega

/-! ## Cells -/

theorem quadlet_clampGain (c : Cell) : quadlet { c with gain := MixerModel.clampGain c.gain } = quadlet c := by
  unfold quadlet Cell.has
  dsimp only
  by_cases hm : (c.flags &&& kMfMuted != 0) = true
  · rw [if_pos hm, if_pos hm]
  · rw [if_neg hm, if_neg hm, signedCoeff_eq, signedCoeff_eq, clampGain_toNat, Nat.min_assoc, Nat.min_self]

/-- The sign is the phase and the rest is the gain: nothing is lost, as an inverted
zero is -1 already. -/
theorem quadlet_adopt {v : ℤ} (lo : -0x10000 ≤ v) (hi : v ≤ 0x10000) :
    quadlet (MixerModel.adopt v) = coeffQuadlet v := by
  have hmuted : (MixerModel.adopt v).has kMfMuted = false := by
    unfold MixerModel.adopt Cell.has
    dsimp only
    split <;> rfl
  have hinverted : (MixerModel.adopt v).has kMfInverted = decide (v < 0) := by
    unfold MixerModel.adopt Cell.has
    dsimp only
    split
    · rename_i h
      rw [decide_eq_true h]
      rfl
    · rename_i h
      rw [decide_eq_false h]
      rfl
  unfold quadlet
  rw [hmuted, hinverted, signedCoeff_eq]
  congr 1
  change (if decide (v < 0) = true then -((max 1 (min (coeffMagnitude v).toNat 0x10000) : ℕ) : ℤ)
    else ((min (coeffMagnitude v).toNat 0x10000 : ℕ) : ℤ)) = v
  rw [coeffMagnitude_toNat (by omega)]
  by_cases h : v < 0
  · rw [if_pos (decide_eq_true h)]
    omega
  · rw [if_neg (by rw [decide_eq_false h]; decide)]
    omega

theorem quadlet_adopt_quadlet (c : Cell) : quadlet (MixerModel.adopt (quadletCoeff (quadlet c))) = quadlet c := by
  obtain ⟨lo, hi⟩ := signedCoeff_bounds (if c.has kMfMuted then kMixerMute else c.gain) (c.has kMfInverted)
  unfold quadlet at *
  rw [quadletCoeff_coeffQuadlet lo hi]
  exact quadlet_adopt lo hi

/-! ## Models -/

/-- What a blob has for a place. -/
def Blob.get (b : Blob) : Place → Cell
  | .cell .input s d => ⟨b.inputGain s d, b.inputFlags s d⟩
  | .cell .playback s d => ⟨b.playbackGain s d, b.playbackFlags s d⟩
  | .output o => ⟨b.outputGain o, b.outputFlags o⟩

theorem get_toBlob (m : MixerModel) (p : Place) : m.toBlob.get p = m.get p := by
  cases p with
  | cell kind s d => cases kind <;> rfl
  | output o => rfl

theorem get_fromBlob (t : MixerModel) (b : Blob) (p : Place) :
    (t.fromBlob b).get p = { b.get p with gain := MixerModel.clampGain (b.get p).gain } := by
  cases p with
  | cell kind s d => cases kind <;> rfl
  | output o => rfl

/-- What a place is given by a matrix. -/
theorem get_importCells (t : MixerModel) (cells : List Quadlet) (p : Place) :
    (t.importCells cells).get p = MixerModel.adopt (quadletCoeff (cells.getD p.index 0)) := by
  rw [List.getD_eq_getElem?_getD, ← p.indexOf_addr]
  unfold MixerModel.importCells
  cases p with
  | cell kind s d =>
    cases kind <;> dsimp only [MixerModel.get, Place.addr, coeffAddr]
    · cases cells[MixerShadow.indexOf (inputCoeffAddr s d)]? <;> rfl
    · cases cells[MixerShadow.indexOf (playbackCoeffAddr s d)]? <;> rfl
  | output o =>
    dsimp only [MixerModel.get, Place.addr]
    cases cells[MixerShadow.indexOf (outputFaderAddr o)]? <;> rfl

/-- Only the quadlets of the places show. -/
theorem render_of_quadlet {m m' : MixerModel} (h : ∀ p, quadlet (m'.get p) = quadlet (m.get p)) :
    m'.render = m.render := by
  apply MixerShadow.ext_cells
  intro i
  rw [render_cells, render_cells]
  unfold MixerModel.image
  cases placeOf i with
  | none => rfl
  | some p => exact h p

theorem render_fromBlob (t m : MixerModel) : (t.fromBlob m.toBlob).render = m.render :=
  render_of_quadlet fun p => by rw [get_fromBlob, get_toBlob, quadlet_clampGain]

theorem render_importCells (t m : MixerModel) : (t.importCells (List.ofFn m.render.cells)).render = m.render := by
  apply render_of_quadlet
  intro p
  have hcell : (List.ofFn m.render.cells).getD p.index 0 = quadlet (m.get p) := by
    rw [List.getD_eq_getElem _ _ (by rw [List.length_ofFn]; exact p.index_lt), List.getElem_ofFn, render_cells]
    unfold MixerModel.image
    rw [placeOf_index]
  rw [get_importCells, hcell, quadlet_adopt_quadlet]

/-- A blob read back once is as it will be read ever after. -/
theorem toBlob_fromBlob_idem (t t' : MixerModel) (b : Blob) :
    (t'.fromBlob (t.fromBlob b).toBlob).toBlob = (t.fromBlob b).toBlob := by
  unfold MixerModel.fromBlob MixerModel.toBlob
  simp only [clampGain_clampGain]

/-- A mixer through the blob, a blob through a mixer, and a mixer through the rendered matrix of the old format. -/
theorem persistence (m t : MixerModel) :
    (∀ p, ((t.fromBlob m.toBlob).get p).flags = (m.get p).flags ∧
      ((t.fromBlob m.toBlob).get p).gain.toNat = min (m.get p).gain.toNat 0x10000) ∧
    (t.fromBlob m.toBlob).stereoIn = m.stereoIn ∧ (t.fromBlob m.toBlob).stereoPb = m.stereoPb ∧
    (t.fromBlob m.toBlob).render = m.render ∧
    (∀ (b : Blob) (t' : MixerModel), (t'.fromBlob (t.fromBlob b).toBlob).toBlob = (t.fromBlob b).toBlob) ∧
    (t.importCells (List.ofFn m.render.cells)).render = m.render := by
  refine ⟨fun p => ?_, rfl, rfl, render_fromBlob t m, fun b t' => toBlob_fromBlob_idem t t' b, render_importCells t m⟩
  rw [get_fromBlob, get_toBlob]
  exact ⟨rfl, clampGain_toNat _⟩

end UserFace800.Mixer
