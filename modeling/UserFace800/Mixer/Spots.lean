import UserFace800.Mixer.Render
/-!
# Edits by spot

A `Spot` is a cell an access can reach: a place, or the scratch cell every index out
of range falls on. Reading a model is `look`, and each edit has one equation for what
`look` gives afterwards, for any indices, so nothing downstream needs to ask whether
an index was in range.
-/

namespace UserFace800.Mixer

/-- A place of the model, or the scratch cell. -/
inductive Spot where
  | place (p : Place)
  | scratch
  deriving DecidableEq

namespace MixerModel

/-- What is at a spot. -/
def look (m : MixerModel) : Spot → Cell
  | .place p => m.get p
  | .scratch => m.scratch

end MixerModel

/-- Where `cell` lands. -/
def cellSpot (kind : MixerSrcKind) (src dest : ℕ) : Spot :=
  if hs : src < kCh then if hd : dest < kCh then .place (.cell kind ⟨src, hs⟩ ⟨dest, hd⟩) else .scratch else .scratch

/-- Where `output` lands. -/
def outputSpot (out : ℕ) : Spot := if h : out < kCh then .place (.output ⟨out, h⟩) else .scratch

theorem cellSpot_inside (kind : MixerSrcKind) {src dest : ℕ} (h : src < kCh ∧ dest < kCh) :
    cellSpot kind src dest = .place (.cell kind ⟨src, h.1⟩ ⟨dest, h.2⟩) := by
  unfold cellSpot
  rw [dif_pos h.1, dif_pos h.2]

theorem cellSpot_outside (kind : MixerSrcKind) {src dest : ℕ} (h : ¬(src < kCh ∧ dest < kCh)) :
    cellSpot kind src dest = .scratch := by
  unfold cellSpot
  split
  · rename_i hs
    exact dif_neg fun hd => h ⟨hs, hd⟩
  · rfl

theorem cell_eq_look (m : MixerModel) (kind : MixerSrcKind) (src dest : ℕ) :
    m.cell kind src dest = m.look (cellSpot kind src dest) := by
  unfold MixerModel.cell
  split
  · rename_i h
    rw [cellSpot_inside kind h]
    cases kind <;> rfl
  · rename_i h
    rw [cellSpot_outside kind h]
    rfl

theorem output_eq_look (m : MixerModel) (out : ℕ) : m.output out = m.look (outputSpot out) := by
  unfold MixerModel.output outputSpot
  split <;> rfl

theorem setGrid_self (g : Fin kCh → Fin kCh → Cell) (s d : Fin kCh) (c : Cell) : setGrid g s d c s d = c := by
  unfold setGrid
  rw [Function.update_self, Function.update_self]

theorem look_setCell (m : MixerModel) (kind : MixerSrcKind) (src dest : ℕ) (c : Cell) (q : Spot) :
    (m.setCell kind src dest c).look q = if q = cellSpot kind src dest then c else m.look q := by
  by_cases h : src < kCh ∧ dest < kCh
  · rw [cellSpot_inside kind h]
    cases q with
    | scratch =>
      unfold MixerModel.setCell
      rw [dif_pos h, if_neg (by simp)]
      cases kind <;> rfl
    | place p =>
      by_cases hp : p = .cell kind ⟨src, h.1⟩ ⟨dest, h.2⟩
      · subst hp
        rw [if_pos rfl]
        unfold MixerModel.setCell
        rw [dif_pos h]
        cases kind <;> exact setGrid_self _ _ _ _
      · rw [if_neg fun e => hp (Spot.place.inj e)]
        exact get_setCell_of_ne hp
  · rw [cellSpot_outside kind h]
    cases q with
    | scratch =>
      unfold MixerModel.setCell
      rw [dif_neg h, if_pos rfl]
      rfl
    | place p =>
      rw [if_neg (by simp)]
      exact get_setCell_scratch p h

theorem look_setOutput (m : MixerModel) (out : ℕ) (c : Cell) (q : Spot) :
    (m.setOutput out c).look q = if q = outputSpot out then c else m.look q := by
  unfold outputSpot
  by_cases h : out < kCh
  · rw [dif_pos h]
    cases q with
    | scratch =>
      unfold MixerModel.setOutput
      rw [dif_pos h, if_neg (by simp)]
      rfl
    | place p =>
      by_cases hp : p = .output ⟨out, h⟩
      · subst hp
        rw [if_pos rfl]
        unfold MixerModel.setOutput
        rw [dif_pos h]
        exact Function.update_self _ _ _
      · rw [if_neg fun e => hp (Spot.place.inj e)]
        exact get_setOutput_of_ne hp
  · rw [dif_neg h]
    cases q with
    | scratch =>
      unfold MixerModel.setOutput
      rw [dif_neg h, if_pos rfl]
      rfl
    | place p =>
      rw [if_neg (by simp)]
      exact get_setOutput_scratch p h

theorem look_setStereo (m : MixerModel) (kind : MixerSrcKind) (ch : ℕ) (on : Bool) (q : Spot) :
    (m.setStereo kind ch on).look q = m.look q := by
  cases q with
  | place p => exact get_setStereo m kind ch on p
  | scratch =>
    change (m.setStereo kind ch on).scratch = m.scratch
    unfold MixerModel.setStereo
    split
    · rfl
    · cases kind <;> rfl

/-! ## Columns -/

/-- The crosspoints that feed output `dest`; none if it is out of range. -/
def inColumn (dest : ℕ) : Spot → Bool
  | .place (.cell _ _ d) => d.val == dest
  | _ => false

/-- The spot a copied submix takes its cell from. -/
def copiedFrom (src dest : ℕ) (q : Spot) : Spot :=
  match q with
  | .place (.cell kind s d) => if h : src < kCh ∧ d.val = dest then .place (.cell kind s ⟨src, h.1⟩) else q
  | _ => q

theorem copiedFrom_of_not {src dest : ℕ} {q : Spot} (h : inColumn dest q = false) : copiedFrom src dest q = q := by
  unfold copiedFrom
  split
  · rename_i kind s d
    refine dif_neg fun hc => ?_
    rw [inColumn, hc.2, beq_self_eq_true] at h
    cases h
  · rfl

theorem inColumn_copiedFrom {src dest : ℕ} (hs : src < kCh) (hne : src ≠ dest) (q : Spot) :
    inColumn dest (copiedFrom src dest q) = false := by
  cases q with
  | scratch => rfl
  | place p =>
    cases p with
    | output o => rfl
    | cell kind s d =>
      unfold copiedFrom
      dsimp only
      by_cases hd : d.val = dest
      · rw [dif_pos ⟨hs, hd⟩]
        exact beq_false_of_ne hne
      · rw [dif_neg fun hc => hd hc.2]
        exact beq_false_of_ne hd

/-- A column copied onto itself is read where it is written, so the guard of
`copy_submix` needs no case of its own. -/
theorem look_copySubmix (m : MixerModel) (src dest : ℕ) (q : Spot) :
    (m.copySubmix src dest).look q = m.look (copiedFrom src dest q) := by
  by_cases h : src < kCh ∧ dest < kCh ∧ src ≠ dest
  · unfold MixerModel.copySubmix
    rw [dif_pos h]
    cases q with
    | scratch => rfl
    | place p =>
      cases p with
      | output o => rfl
      | cell kind s d =>
        unfold copiedFrom
        dsimp only
        by_cases hd : d.val = dest
        · obtain rfl : d = ⟨dest, h.2.1⟩ := Fin.ext hd
          rw [dif_pos ⟨h.1, rfl⟩]
          cases kind <;> exact Function.update_self _ _ _
        · rw [dif_neg fun hc => hd hc.2]
          have hne : d ≠ ⟨dest, h.2.1⟩ := fun e => hd (congrArg Fin.val e)
          cases kind <;> exact Function.update_of_ne hne _ _
  · unfold MixerModel.copySubmix
    rw [dif_neg h]
    congr 1
    unfold copiedFrom
    split
    · rename_i kind s d
      split
      · rename_i hc
        -- the column itself
        have hsame : src = dest := by
          by_contra hne
          exact h ⟨hc.1, hc.2 ▸ d.isLt, hne⟩
        have hsrc : (⟨src, hc.1⟩ : Fin kCh) = d := Fin.ext (hsame.trans hc.2.symm)
        rw [hsrc]
      · rfl
    · rfl

theorem look_clearSubmix (m : MixerModel) (dest : ℕ) (q : Spot) :
    (m.clearSubmix dest).look q = if inColumn dest q then {} else m.look q := by
  by_cases h : dest < kCh
  · unfold MixerModel.clearSubmix
    rw [dif_pos h]
    cases q with
    | scratch => rfl
    | place p =>
      cases p with
      | output o => rfl
      | cell kind s d =>
        unfold inColumn
        by_cases hd : d.val = dest
        · obtain rfl : d = ⟨dest, h⟩ := Fin.ext hd
          rw [if_pos (beq_self_eq_true _)]
          cases kind <;> exact Function.update_self _ _ _
        · rw [if_neg (by simpa using hd)]
          have hne : d ≠ ⟨dest, h⟩ := fun e => hd (congrArg Fin.val e)
          cases kind <;> exact Function.update_of_ne hne _ _
  · rw [clearSubmix_outside m h, if_neg]
    intro hc
    unfold inColumn at hc
    split at hc
    · rename_i kind s d
      exact h (beq_iff_eq.1 hc ▸ d.isLt)
    · cases hc

/-! ## Pairings -/

namespace MixerModel

/-- The pairings of one kind of source. -/
def bits (m : MixerModel) : MixerSrcKind → BitVec 32
  | .playback => m.stereoPb
  | .input => m.stereoIn

theorem bits_setCell (m : MixerModel) (kind : MixerSrcKind) (src dest : ℕ) (c : Cell) (k : MixerSrcKind) :
    (m.setCell kind src dest c).bits k = m.bits k := by
  unfold setCell
  split
  · cases kind <;> rfl
  · rfl

theorem bits_setOutput (m : MixerModel) (out : ℕ) (c : Cell) (k : MixerSrcKind) :
    (m.setOutput out c).bits k = m.bits k := by
  unfold setOutput
  split <;> rfl

theorem bits_copySubmix (m : MixerModel) (src dest : ℕ) (k : MixerSrcKind) :
    (m.copySubmix src dest).bits k = m.bits k := by
  unfold copySubmix
  split <;> rfl

theorem bits_clearSubmix (m : MixerModel) (dest : ℕ) (k : MixerSrcKind) :
    (m.clearSubmix dest).bits k = m.bits k := by
  unfold clearSubmix
  split <;> rfl

/-- Setting or clearing one bit of a word. -/
theorem getLsbD_put {n : ℕ} (hn : n < 32) (b : BitVec 32) (on : Bool) (i : ℕ) :
    (if on then b ||| (1 : BitVec 32) <<< n else b &&& ~~~((1 : BitVec 32) <<< n)).getLsbD i =
      if i = n then on else b.getLsbD i := by
  have hone : ((1 : BitVec 32) <<< n).getLsbD i = decide (i = n) := by
    rw [BitVec.getLsbD_shiftLeft, show (1 : BitVec 32) = 1#32 from rfl, BitVec.getLsbD_one, Bool.eq_iff_iff]
    simp only [Bool.and_eq_true, Bool.not_eq_true', decide_eq_true_eq, decide_eq_false_iff_not]
    omega
  cases on with
  | false =>
    rw [if_neg (by decide), BitVec.getLsbD_and, BitVec.getLsbD_not, hone]
    by_cases hi : i = n
    · rw [if_pos hi, decide_eq_true hi, Bool.not_true, Bool.and_false, Bool.and_false]
    · rw [if_neg hi, decide_eq_false hi, Bool.not_false, Bool.and_true]
      by_cases h32 : i < 32
      · rw [decide_eq_true h32, Bool.and_true]
      · rw [BitVec.getLsbD_of_ge b i (Nat.le_of_not_lt h32), Bool.false_and]
  | true =>
    rw [if_pos rfl, BitVec.getLsbD_or, hone]
    by_cases hi : i = n
    · rw [if_pos hi, decide_eq_true hi, Bool.or_true]
    · rw [if_neg hi, decide_eq_false hi, Bool.or_false]

/-- An edit of pairings sets the bit of the channel's pair. -/
theorem bits_setStereo (m : MixerModel) (kind : MixerSrcKind) (ch : ℕ) (on : Bool) (k : MixerSrcKind) (i : ℕ) :
    ((m.setStereo kind ch on).bits k).getLsbD i =
      if k = kind ∧ ch < kCh ∧ i = ch / 2 then on else (m.bits k).getLsbD i := by
  have hK := kCh_eq
  unfold setStereo
  by_cases h : ch < kCh
  · rw [if_neg (Nat.not_le.2 h)]
    have hput := fun b => getLsbD_put (show ch / 2 < 32 by omega) b on i
    cases kind <;> cases k
    · simp only [h, true_and]
      exact hput m.stereoIn
    · exact (if_neg fun e => (nomatch e.1)).symm
    · exact (if_neg fun e => (nomatch e.1)).symm
    · simp only [h, true_and]
      exact hput m.stereoPb
  · rw [if_pos (Nat.le_of_not_lt h), if_neg fun e => h e.2.1]

end MixerModel

/-- A model is its spots and its pairings. -/
theorem MixerModel.ext_look {m m' : MixerModel} (h : ∀ q, m'.look q = m.look q) (hb : ∀ k, m'.bits k = m.bits k) :
    m' = m := by
  have hin : m'.stereoIn = m.stereoIn := hb .input
  have hpb : m'.stereoPb = m.stereoPb := hb .playback
  have hinputs : m'.inputs = m.inputs := by
    funext s d
    exact h (.place (.cell .input s d))
  have hplayback : m'.playback = m.playback := by
    funext s d
    exact h (.place (.cell .playback s d))
  have houtputs : m'.outputs = m.outputs := by
    funext o
    exact h (.place (.output o))
  have hscratch : m'.scratch = m.scratch := h .scratch
  cases m
  cases m'
  simp_all only

end UserFace800.Mixer
