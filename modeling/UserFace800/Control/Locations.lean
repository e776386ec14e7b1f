import UserFace800.Lib.Flow
import UserFace800.Mixer.Spots
import UserFace800.Control.Drain
/-!
# What a command writes and where it reads

The model and the settings as locations: the gain and the flag bits of each spot, the
pairing bits, the settings. Every command is a flow over them (`reads`): it gives
constants to the locations it targets, except a copied submix, which gives a column
what another column held. Both drains run these flows in order (`drainCtl_kept`,
`drainCtlIdle_kept`).
-/
open UserFace800.Lib UserFace800.Protocol UserFace800.Mixer

namespace UserFace800.Control

/-- What commands change: `g_model` and `g_settings`. -/
abbrev Kept := MixerModel × SettingsShadow

namespace CtlCommand

/-- What a command does to the model and to the settings. -/
def act (s : Kept) (c : CtlCommand) : Kept := (c.edit s.1, c.adopt s.2)

/-- The spot whose cell a gain or flag command changes. -/
def spot (c : CtlCommand) : Spot :=
  match c.type with
  | .setFader | .setOutFlags => outputSpot c.out.toNat
  | _ => cellSpot c.kind c.src.toNat c.dest.toNat

theorem look_edit (c : CtlCommand) (m : MixerModel) (q : Spot) : (c.edit m).look q =
    match c.type with
    | .setMixer | .setFader => if q = c.spot then { m.look q with gain := c.coeff } else m.look q
    | .setCellFlags | .setOutFlags =>
      if q = c.spot then { m.look q with flags := c.mergeFlags (m.look q).flags } else m.look q
    | .submix =>
      if c.on ≠ 0 then if inColumn c.dest.toNat q then {} else m.look q
      else m.look (copiedFrom c.src.toNat c.dest.toNat q)
    | _ => m.look q := by
  unfold edit spot
  cases c.type <;> dsimp only
  case setMixer | setCellFlags =>
    rw [look_setCell, cell_eq_look]
    split
    · rename_i h
      rw [h]
    · rfl
  case setFader | setOutFlags =>
    rw [look_setOutput, output_eq_look]
    split
    · rename_i h
      rw [h]
    · rfl
  case setStereo => exact look_setStereo m _ _ _ q
  case submix =>
    split
    · exact look_clearSubmix m _ q
    · exact look_copySubmix m _ _ q

theorem bits_edit (c : CtlCommand) (m : MixerModel) (k : MixerSrcKind) (i : ℕ) : ((c.edit m).bits k).getLsbD i =
    match c.type with
    | .setStereo => if k = c.kind ∧ c.src.toNat < kCh ∧ i = c.src.toNat / 2 then c.on != 0 else (m.bits k).getLsbD i
    | _ => (m.bits k).getLsbD i := by
  unfold edit
  cases c.type <;> dsimp only
  case setMixer | setCellFlags => rw [MixerModel.bits_setCell]
  case setFader | setOutFlags => rw [MixerModel.bits_setOutput]
  case setStereo => exact MixerModel.bits_setStereo m _ _ _ k i
  case submix =>
    split
    · rw [MixerModel.bits_clearSubmix]
    · rw [MixerModel.bits_copySubmix]

/-- A flag command sets the bits of its mask. -/
theorem mergeFlags_bit (c : CtlCommand) (f : BitVec 8) (i : Fin 8) :
    (c.mergeFlags f).getLsbD i = if c.mask.getLsbD i then c.flags.getLsbD i else f.getLsbD i := by
  have hi : (i : ℕ) < 16 := by omega
  unfold mergeFlags
  rw [BitVec.getLsbD_or, BitVec.getLsbD_and, BitVec.getLsbD_setWidth, BitVec.getLsbD_setWidth, BitVec.getLsbD_not,
    BitVec.getLsbD_and, decide_eq_true i.isLt, decide_eq_true hi, Bool.true_and, Bool.true_and, Bool.true_and]
  cases c.mask.getLsbD i with
  | false => simp
  | true => simp

end CtlCommand

/-! ## Locations -/

/-- A location: a spot's gain, one of its flag bits, a pairing bit, or the settings. -/
inductive Loc where
  | gain (q : Spot)
  | flag (q : Spot) (i : Fin 8)
  | pair (k : MixerSrcKind) (i : Fin 32)
  | settings
  deriving DecidableEq

/-- What a location holds. -/
inductive Value where
  | gain (g : Quadlet)
  | bit (b : Bool)
  | settings (s : SettingsShadow)
  deriving DecidableEq

/-- What a location holds now. -/
def Kept.read (s : Kept) : Loc → Value
  | .gain q => .gain (s.1.look q).gain
  | .flag q i => .bit ((s.1.look q).flags.getLsbD i)
  | .pair k i => .bit ((s.1.bits k).getLsbD i)
  | .settings => .settings s.2

theorem Cell.ext_bits {c c' : Cell} (hg : c.gain = c'.gain) (hf : ∀ i : Fin 8, c.flags.getLsbD i = c'.flags.getLsbD i) :
    c = c' := by
  cases c
  cases c'
  obtain rfl : _ = _ := hg
  congr 1
  exact BitVec.eq_of_getLsbD_eq fun i hi => hf ⟨i, hi⟩

theorem Kept.read_injective : Function.Injective Kept.read := by
  intro s t h
  have hsettings : s.2 = t.2 := Value.settings.inj (congrFun h .settings)
  have hlook : ∀ q, s.1.look q = t.1.look q := by
    intro q
    exact Cell.ext_bits (Value.gain.inj (congrFun h (.gain q))) fun i => Value.bit.inj (congrFun h (.flag q i))
  have hbits : ∀ k, s.1.bits k = t.1.bits k := by
    intro k
    exact BitVec.eq_of_getLsbD_eq fun i hi => Value.bit.inj (congrFun h (.pair k ⟨i, hi⟩))
  exact Prod.ext (MixerModel.ext_look hlook hbits) hsettings

namespace CtlCommand

/-- Where each location gets its value from. -/
def flow (c : CtlCommand) (l : Loc) : Source Loc Value :=
  match c.type, l with
  | .setMixer, .gain q | .setFader, .gain q => if q = c.spot then .const (.gain c.coeff) else .copy l
  | .setCellFlags, .flag q i | .setOutFlags, .flag q i =>
    if q = c.spot ∧ c.mask.getLsbD i = true then .const (.bit (c.flags.getLsbD i)) else .copy l
  | .setStereo, .pair k i =>
    if k = c.kind ∧ c.src.toNat < kCh ∧ i.val = c.src.toNat / 2 then .const (.bit (c.on != 0)) else .copy l
  | .submix, .gain q =>
    if c.on ≠ 0 then if inColumn c.dest.toNat q then .const (.gain kMixerMute) else .copy l
    else .copy (.gain (copiedFrom c.src.toNat c.dest.toNat q))
  | .submix, .flag q i =>
    if c.on ≠ 0 then if inColumn c.dest.toNat q then .const (.bit false) else .copy l
    else .copy (.flag (copiedFrom c.src.toNat c.dest.toNat q) i)
  | .setSettings, .settings => .const (.settings c.settings)
  | _, _ => .copy l

/-- Each command is its flow. -/
theorem reads : Reads Kept.read act flow where
  faithful := Kept.read_injective
  act := by
    intro s c
    funext l
    unfold act Flow.apply flow
    cases l with
    | gain q =>
      change Value.gain ((c.edit s.1).look q).gain = _
      rw [look_edit]
      cases c.type <;> dsimp only <;> try rfl
      case setMixer | setFader | setCellFlags | setOutFlags => split <;> rfl
      case submix => split <;> [split <;> rfl; rfl]
    | flag q i =>
      change Value.bit (((c.edit s.1).look q).flags.getLsbD i) = _
      rw [look_edit]
      cases c.type <;> dsimp only <;> try rfl
      case setMixer | setFader => split <;> rfl
      case setCellFlags | setOutFlags =>
        by_cases hq : q = c.spot
        · rw [if_pos hq]
          dsimp only
          rw [mergeFlags_bit]
          cases hm : c.mask.getLsbD i with
          | false =>
            rw [if_neg (by decide), if_neg fun h => (nomatch h.2)]
            rfl
          | true =>
            rw [if_pos rfl, if_pos ⟨hq, rfl⟩]
            rfl
        · rw [if_neg hq, if_neg fun h => hq h.1]
          rfl
      case submix =>
        split
        · split
          · exact congrArg Value.bit BitVec.getLsbD_zero
          · rfl
        · rfl
    | pair k i =>
      change Value.bit (((c.edit s.1).bits k).getLsbD i) = _
      rw [bits_edit]
      cases c.type <;> dsimp only <;> try rfl
      case setStereo => split <;> rfl
    | settings =>
      change Value.settings (c.adopt s.2) = _
      unfold adopt
      cases c.type <;> rfl

end CtlCommand

/-! ## The drains -/

namespace Daemon

/-- What commands change, of a daemon. -/
def kept (d : Daemon) : Kept := (d.model, d.settings)

theorem foldl_act (cs : List CtlCommand) (s : Kept) :
    cs.foldl CtlCommand.act s = (cs.foldl (fun m c => c.edit m) s.1, cs.foldl (fun t c => c.adopt t) s.2) := by
  induction cs generalizing s with
  | nil => rfl
  | cons c cs ih =>
    rw [List.foldl_cons, ih]
    rfl

theorem drainCtl_kept (d : Daemon) (cs : List CtlCommand) : (d.drainCtl cs).kept = cs.foldl CtlCommand.act d.kept := by
  induction cs generalizing d with
  | nil => rfl
  | cons c cs ih =>
    have hone : (d.pumpCommand c).kept = CtlCommand.act d.kept c := by
      simp only [kept, pumpCommand, foldl_mark, CtlCommand.act]
    change ((d.pumpCommand c).drainCtl cs).kept = _
    rw [ih, hone, List.foldl_cons]

theorem drainCtlIdle_kept (d : Daemon) (cs : List CtlCommand) :
    (d.drainCtlIdle cs).kept = cs.foldl CtlCommand.act d.kept := by
  rw [foldl_act]
  unfold drainCtlIdle
  split <;> rfl

end Daemon

end UserFace800.Control
