import UserFace800.Mixer.Model
import UserFace800.Lib.Writes
/-!
# Rendering

`render` in closed form. A `Place` is a crosspoint or an output of the model;
places have disjoint cells in the matrix RAM (the fader row lies in the block of
destination 31, which no place has), so the rendered image holds the quadlet of
the place a cell belongs to and 0 elsewhere, whatever the order of the writes.
`render_of_agree` is the rule for incremental edits: if two models agree outside
some places, rewriting those places turns one image into the other.
-/
open UserFace800.Lib UserFace800.Protocol

namespace UserFace800.Mixer

/-- A crosspoint or an output of the model. -/
inductive Place where
  | cell (kind : MixerSrcKind) (src dest : Fin kCh)
  | output (out : Fin kCh)
  deriving DecidableEq

namespace MixerModel

/-- What the model has at a place. -/
def get (m : MixerModel) : Place → Cell
  | .cell .input s d => m.inputs s d
  | .cell .playback s d => m.playback s d
  | .output o => m.outputs o

end MixerModel

/-! ## Where the addresses lie -/

/-- The first cell of a kind in a destination's block. -/
def half : MixerSrcKind → ℕ
  | .input => 0
  | .playback => 32

/-- The cell `coeffAddr` names, for any 16-bit indices. -/
def cellIndex (kind : MixerSrcKind) (src dest : ℕ) : ℕ := 64 * dest + half kind + src

/-- The cell `outputFaderAddr` names. -/
def faderIndex (out : ℕ) : ℕ := 2016 + out

/-- Where the device has it. -/
def Place.addr : Place → ℕ
  | .cell kind s d => coeffAddr kind s d
  | .output o => outputFaderAddr o

/-- Its index in the matrix RAM. -/
def Place.index : Place → ℕ
  | .cell kind s d => cellIndex kind s d
  | .output o => faderIndex o

theorem coeffAddr_eq (kind : MixerSrcKind) {src dest : ℕ} (hs : src < 2 ^ 16) (hd : dest < 2 ^ 16) :
    coeffAddr kind src dest = Reg.kMixerRam + 4 * cellIndex kind src dest := by
  cases kind <;> simp only [coeffAddr, inputCoeffAddr, playbackCoeffAddr, cellIndex, half, kMixerBlock] <;> omega

theorem outputFaderAddr_eq {out : ℕ} (ho : out < 2 ^ 16) :
    outputFaderAddr out = Reg.kMixerRam + 4 * faderIndex out := by
  simp only [outputFaderAddr, kOutputFaderBase, faderIndex]
  omega

theorem indexOf_ram {i : ℕ} (h : i < 2 ^ 32) : MixerShadow.indexOf (Reg.kMixerRam + 4 * i) = i := by
  unfold MixerShadow.indexOf Reg.kMixerRam
  omega

theorem Place.addr_eq (p : Place) : p.addr = Reg.kMixerRam + 4 * p.index := by
  have := kCh_eq
  cases p with
  | cell kind s d => exact coeffAddr_eq kind (by omega) (by omega)
  | output o => exact outputFaderAddr_eq (by omega)

theorem Place.index_lt (p : Place) : p.index < kCells := by
  have := kCh_eq
  have := kCells_eq
  cases p with
  | cell kind s d => cases kind <;> simp only [index, cellIndex, half] <;> omega
  | output o => simp only [index, faderIndex]; omega

theorem Place.indexOf_addr (p : Place) : MixerShadow.indexOf p.addr = p.index := by
  rw [p.addr_eq, indexOf_ram]
  have := p.index_lt
  have := kCells_eq
  omega

/-- The place a cell belongs to. -/
def placeOf (i : ℕ) : Option Place :=
  if h : i / 64 < kCh ∧ i % 32 < kCh then
    some (.cell (if i % 64 < 32 then .input else .playback) ⟨i % 32, h.2⟩ ⟨i / 64, h.1⟩)
  else if h : 2016 ≤ i ∧ i < 2016 + kCh then some (.output ⟨i - 2016, by omega⟩)
  else none

theorem placeOf_index (p : Place) : placeOf p.index = some p := by
  have := kCh_eq
  cases p with
  | cell kind s d =>
    have hs := s.isLt
    have hd := d.isLt
    cases kind with
    | input =>
      have h1 : cellIndex .input s d / 64 = d := by simp only [cellIndex, half]; omega
      have h2 : cellIndex .input s d % 32 = s := by simp only [cellIndex, half]; omega
      have h3 : cellIndex .input s d % 64 < 32 := by simp only [cellIndex, half]; omega
      simp only [Place.index, placeOf, h1, h2, h3, hs, hd, and_self, dite_true, if_true]
    | playback =>
      have h1 : cellIndex .playback s d / 64 = d := by simp only [cellIndex, half]; omega
      have h2 : cellIndex .playback s d % 32 = s := by simp only [cellIndex, half]; omega
      have h3 : ¬ cellIndex .playback s d % 64 < 32 := by simp only [cellIndex, half]; omega
      simp only [Place.index, placeOf, h1, h2, h3, hs, hd, and_self, dite_true, if_false]
  | output o =>
    have ho := o.isLt
    have h1 : ¬ (faderIndex o / 64 < kCh ∧ faderIndex o % 32 < kCh) := by simp only [faderIndex]; omega
    have h2 : 2016 ≤ faderIndex o ∧ faderIndex o < 2016 + kCh := by simp only [faderIndex]; omega
    rw [Place.index, placeOf, dif_neg h1, dif_pos h2]
    simp only [faderIndex, Nat.add_sub_cancel_left]

theorem placeOf_eq_some {i : ℕ} {p : Place} : placeOf i = some p ↔ p.index = i := by
  constructor
  · unfold placeOf
    intro h
    split at h
    · cases h
      simp only [Place.index, cellIndex]
      split <;> simp only [half] <;> omega
    · split at h <;> cases h
      simp only [Place.index, faderIndex]
      omega
  · rintro rfl
    exact placeOf_index p

/-! ## The rendered image -/

/-- What the rendered image holds in cell `i`. -/
def MixerModel.image (m : MixerModel) (i : ℕ) : Quadlet :=
  match placeOf i with
  | some p => quadlet (m.get p)
  | none => kMixerMute

/-- The write that renders one place. -/
def MixerModel.renderPlace (m : MixerModel) (p : Place) : Write := ⟨p.addr, quadlet (m.get p)⟩

theorem setCell_hit (sh : MixerShadow) (i : Fin kCells) (q : Quadlet) : (sh.setCell i q).cells i = q := by
  unfold MixerShadow.setCell
  rw [dif_pos i.isLt]
  exact Function.update_self _ _ _

theorem setCell_missed (sh : MixerShadow) {n : ℕ} {i : Fin kCells} (h : n ≠ i) (q : Quadlet) :
    (sh.setCell n q).cells i = sh.cells i := by
  unfold MixerShadow.setCell
  split
  · exact Function.update_of_ne (fun e => h (congrArg Fin.val e).symm) _ _
  · rfl

theorem setAt_eq (sh : MixerShadow) (w : Write) :
    sh.setAt w = sh.setCell (MixerShadow.indexOf w.addr) w.value := rfl

theorem setAt_pointWrite :
    PointWrite MixerShadow.cells MixerShadow.setAt (fun w i => MixerShadow.indexOf w.addr = i) Write.value := by
  intro sh w i
  constructor
  · intro h
    rw [setAt_eq, h, setCell_hit]
  · intro h
    rw [setAt_eq, setCell_missed sh h]

/-- An address outside the RAM leaves the image alone. -/
theorem setAt_outside {sh : MixerShadow} {w : Write} (h : kCells ≤ MixerShadow.indexOf w.addr) :
    sh.setAt w = sh := by
  rw [setAt_eq, MixerShadow.setCell, dif_neg (Nat.not_lt.2 h)]

theorem mem_renderWrites {m : MixerModel} {w : Write} : w ∈ m.renderWrites ↔ ∃ p, w = m.renderPlace p := by
  unfold MixerModel.renderWrites
  simp only [List.mem_append, List.mem_flatMap, List.mem_finRange, true_and, List.mem_cons, List.not_mem_nil,
    or_false, List.mem_map]
  constructor
  · rintro (⟨d, s, rfl | rfl⟩ | ⟨o, rfl⟩)
    · exact ⟨.cell .input s d, rfl⟩
    · exact ⟨.cell .playback s d, rfl⟩
    · exact ⟨.output o, rfl⟩
  · rintro ⟨p, rfl⟩
    cases p with
    | cell kind s d =>
      left
      refine ⟨d, s, ?_⟩
      cases kind
      · exact .inl rfl
      · exact .inr rfl
    | output o => exact .inr ⟨o, rfl⟩

theorem renderPlace_hits {m : MixerModel} {p : Place} {i : ℕ} :
    MixerShadow.indexOf (m.renderPlace p).addr = i ↔ placeOf i = some p := by
  rw [placeOf_eq_some, MixerModel.renderPlace, p.indexOf_addr]

/-- A rendered place agrees with the image wherever it lands. -/
theorem renderPlace_value {m : MixerModel} {p : Place} {i : ℕ}
    (h : MixerShadow.indexOf (m.renderPlace p).addr = i) : (m.renderPlace p).value = m.image i := by
  rw [renderPlace_hits] at h
  simp only [MixerModel.image, h, MixerModel.renderPlace]

theorem render_cells (m : MixerModel) (i : Fin kCells) : m.render.cells i = m.image i := by
  have hf : ∀ w ∈ m.renderWrites, MixerShadow.indexOf w.addr = i → w.value = m.image i := by
    intro w hw h
    obtain ⟨p, rfl⟩ := mem_renderWrites.1 hw
    exact renderPlace_value h
  unfold MixerModel.render
  cases hp : placeOf i with
  | none =>
    refine foldl_keep setAt_pointWrite (fun i : Fin kCells => m.image i) _ _ i hf ?_
    simp only [MixerModel.image, hp]
    rfl
  | some p =>
    refine foldl_hit setAt_pointWrite (fun i : Fin kCells => m.image i) _ _ i hf ?_
    exact ⟨_, mem_renderWrites.2 ⟨p, rfl⟩, renderPlace_hits.2 hp⟩

theorem MixerShadow.ext_cells {a b : MixerShadow} (h : ∀ i, a.cells i = b.cells i) : a = b := by
  cases a
  cases b
  congr
  funext i
  exact h i

/-- Rewriting the places two models differ in turns one image into the other. -/
theorem render_of_agree {m m' : MixerModel} (ps : List Place) (h : ∀ p, p ∉ ps → m'.get p = m.get p) :
    (ps.map m'.renderPlace).foldl MixerShadow.setAt m.render = m'.render := by
  apply MixerShadow.ext_cells
  intro i
  rw [render_cells]
  have hf : ∀ w ∈ ps.map m'.renderPlace, MixerShadow.indexOf w.addr = i → w.value = m'.image i := by
    intro w hw hi
    obtain ⟨p, -, rfl⟩ := List.mem_map.1 hw
    exact renderPlace_value hi
  by_cases hit : ∃ p ∈ ps, placeOf i = some p
  · obtain ⟨p, hp, hi⟩ := hit
    exact foldl_hit setAt_pointWrite (fun i : Fin kCells => m'.image i) _ _ i hf
      ⟨_, List.mem_map_of_mem hp, renderPlace_hits.2 hi⟩
  · refine foldl_keep setAt_pointWrite (fun i : Fin kCells => m'.image i) _ _ i hf ?_
    rw [render_cells]
    unfold MixerModel.image
    cases hi : placeOf i with
    | none => rfl
    | some p => simp only [h p fun hp => hit ⟨p, hp, hi⟩]

/-! ## Edits by place -/

theorem renderCell_place (m : MixerModel) (kind : MixerSrcKind) (s d : Fin kCh) :
    m.renderCell kind s d = m.renderPlace (.cell kind s d) := by
  cases kind <;> simp [MixerModel.renderCell, MixerModel.cell, MixerModel.renderPlace, Place.addr, MixerModel.get]

theorem renderOutput_place (m : MixerModel) (o : Fin kCh) : m.renderOutput o = m.renderPlace (.output o) := by
  simp [MixerModel.renderOutput, MixerModel.output, MixerModel.renderPlace, Place.addr, MixerModel.get]

theorem setGrid_of_ne {g : Fin kCh → Fin kCh → Cell} {s d s' d' : Fin kCh} {c : Cell} (h : ¬ (s' = s ∧ d' = d)) :
    setGrid g s d c s' d' = g s' d' := by
  unfold setGrid
  by_cases hs : s' = s
  · subst hs
    rw [Function.update_self, Function.update_of_ne fun hd => h ⟨rfl, hd⟩]
  · rw [Function.update_of_ne hs]

theorem get_setCell_of_ne {m : MixerModel} {kind : MixerSrcKind} {s d : Fin kCh} {c : Cell} {p : Place}
    (h : p ≠ .cell kind s d) : (m.setCell kind s d c).get p = m.get p := by
  have hr : (s : ℕ) < kCh ∧ (d : ℕ) < kCh := ⟨s.isLt, d.isLt⟩
  cases kind <;> simp only [MixerModel.setCell, hr, and_self, dite_true]
  all_goals
    cases p with
    | output o => rfl
    | cell k s' d' =>
      cases k
      all_goals first | rfl | exact setGrid_of_ne fun e => h (by rw [e.1, e.2])

theorem get_setOutput_of_ne {m : MixerModel} {o : Fin kCh} {c : Cell} {p : Place} (h : p ≠ .output o) :
    (m.setOutput o c).get p = m.get p := by
  simp only [MixerModel.setOutput, o.isLt, dite_true]
  cases p with
  | cell k s d => cases k <;> rfl
  | output o' => exact Function.update_of_ne (fun e => h (by rw [e])) _ _

/-- An index out of range changes only the scratch cell. -/
theorem get_setCell_scratch {m : MixerModel} {kind : MixerSrcKind} {src dest : ℕ} {c : Cell} (p : Place)
    (h : ¬ (src < kCh ∧ dest < kCh)) : (m.setCell kind src dest c).get p = m.get p := by
  simp only [MixerModel.setCell, h, dite_false]
  cases p with
  | cell k s d => cases k <;> rfl
  | output o => rfl

theorem get_setOutput_scratch {m : MixerModel} {out : ℕ} {c : Cell} (p : Place) (h : ¬ out < kCh) :
    (m.setOutput out c).get p = m.get p := by
  simp only [MixerModel.setOutput, h, dite_false]
  cases p with
  | cell k s d => cases k <;> rfl
  | output o => rfl

theorem get_setStereo (m : MixerModel) (kind : MixerSrcKind) (ch : ℕ) (on : Bool) (p : Place) :
    (m.setStereo kind ch on).get p = m.get p := by
  unfold MixerModel.setStereo
  split
  · rfl
  · cases kind <;> cases p with
    | cell k s d => cases k <;> rfl
    | output o => rfl

/-- The places of a destination's column, in the order they are rendered. -/
def column (d : Fin kCh) : List Place :=
  (List.finRange kCh).flatMap fun s => [.cell .input s d, .cell .playback s d]

theorem mem_column {d d' : Fin kCh} {k : MixerSrcKind} {s : Fin kCh} (h : Place.cell k s d' ∉ column d) : d' ≠ d := by
  rintro rfl
  apply h
  simp only [column, List.mem_flatMap, List.mem_finRange, true_and]
  exact ⟨s, by cases k <;> simp⟩

theorem get_copySubmix_of_not_mem {m : MixerModel} {src : ℕ} {d : Fin kCh} {p : Place} (h : p ∉ column d) :
    (m.copySubmix src d).get p = m.get p := by
  unfold MixerModel.copySubmix
  split
  · cases p with
    | output o => rfl
    | cell k s d' => cases k <;> exact Function.update_of_ne (mem_column h) _ _
  · rfl

theorem get_clearSubmix_of_not_mem {m : MixerModel} {d : Fin kCh} {p : Place} (h : p ∉ column d) :
    (m.clearSubmix d).get p = m.get p := by
  unfold MixerModel.clearSubmix
  split
  · cases p with
    | output o => rfl
    | cell k s d' => cases k <;> exact Function.update_of_ne (mem_column h) _ _
  · rfl

theorem copySubmix_outside (m : MixerModel) (src : ℕ) {dest : ℕ} (h : ¬ dest < kCh) : m.copySubmix src dest = m := by
  unfold MixerModel.copySubmix
  rw [dif_neg fun e => h e.2.1]

theorem clearSubmix_outside (m : MixerModel) {dest : ℕ} (h : ¬ dest < kCh) : m.clearSubmix dest = m := by
  unfold MixerModel.clearSubmix
  rw [dif_neg h]

end UserFace800.Mixer
