import UserFace800.Control.Daemon
import UserFace800.Mixer.Render
import UserFace800.Lib.Run
/-!
# What a drain writes where

The pump updates its image cell by cell, the idle drain and a session start
render it whole. `edit_get` and `touched_eq` say which places a command edits and
rewrites; from them the two paths agree (`image_agrees`) as long as a command out
of range, whose cell is the scratch cell, is also out of the RAM. The same
indices decide which registers the pump can be made to write
(`contained_iff`).
-/
open UserFace800.Lib UserFace800.Protocol UserFace800.Mixer

namespace UserFace800.Control

theorem foldl_outside {ws : List Write} {sh : MixerShadow} (h : ∀ w ∈ ws, kCells ≤ MixerShadow.indexOf w.addr) :
    ws.foldl MixerShadow.setAt sh = sh := by
  induction ws with
  | nil => rfl
  | cons w ws ih =>
    rw [List.foldl_cons, setAt_outside (h w List.mem_cons_self)]
    exact ih fun v hv => h v (List.mem_cons_of_mem _ hv)

/-! ## The places a command edits -/

namespace CtlCommand

/-- The places of the model a command edits; none when it is out of range. -/
def places (c : CtlCommand) : List Place :=
  match c.type with
  | .setMixer | .setCellFlags =>
    if h : c.src.toNat < kCh ∧ c.dest.toNat < kCh then [.cell c.kind ⟨c.src.toNat, h.1⟩ ⟨c.dest.toNat, h.2⟩] else []
  | .setFader | .setOutFlags => if h : c.out.toNat < kCh then [.output ⟨c.out.toNat, h⟩] else []
  | .submix => if h : c.dest.toNat < kCh then column ⟨c.dest.toNat, h⟩ else []
  | _ => []

/-- The indices a command renders are those of channels. -/
def InRange (c : CtlCommand) : Prop :=
  match c.type with
  | .setMixer | .setCellFlags => c.src.toNat < kCh ∧ c.dest.toNat < kCh
  | .setFader | .setOutFlags => c.out.toNat < kCh
  | .submix => c.dest.toNat < kCh
  | _ => True

/-- The cells a command renders lie past the end of the RAM. -/
def OutsideRam (c : CtlCommand) : Prop :=
  match c.type with
  | .setMixer | .setCellFlags => kCells ≤ cellIndex c.kind c.src.toNat c.dest.toNat
  | .setFader | .setOutFlags => kCells ≤ faderIndex c.out.toNat
  | .submix => kCells ≤ cellIndex .input 0 c.dest.toNat
  | _ => True

theorem edit_get (c : CtlCommand) (m : MixerModel) {p : Place} (h : p ∉ c.places) : (c.edit m).get p = m.get p := by
  unfold places at h
  unfold edit
  cases ht : c.type <;> simp only [ht] at h ⊢
  case setMixer | setCellFlags =>
    split at h
    · rename_i hr
      exact get_setCell_of_ne (s := ⟨_, hr.1⟩) (d := ⟨_, hr.2⟩) (fun e => h (List.mem_singleton.2 e))
    · rename_i hr
      exact get_setCell_scratch p hr
  case setFader | setOutFlags =>
    split at h
    · rename_i hr
      exact get_setOutput_of_ne (o := ⟨_, hr⟩) (fun e => h (List.mem_singleton.2 e))
    · rename_i hr
      exact get_setOutput_scratch p hr
  case setStereo => exact get_setStereo m _ _ _ p
  case submix =>
    split at h
    · rename_i hr
      split
      · exact get_clearSubmix_of_not_mem (d := ⟨_, hr⟩) h
      · exact get_copySubmix_of_not_mem (d := ⟨_, hr⟩) h
    · rename_i hr
      rw [copySubmix_outside m _ hr, clearSubmix_outside m hr, ite_self]

theorem touched_eq (c : CtlCommand) (m : MixerModel) (h : c.InRange) : c.touched m = c.places.map m.renderPlace := by
  unfold InRange at h
  unfold places touched
  cases ht : c.type <;> simp only [ht] at h ⊢ <;> try rfl
  case setMixer | setCellFlags =>
    rw [dif_pos h]
    exact congrArg (fun w => [w]) (renderCell_place m c.kind ⟨_, h.1⟩ ⟨_, h.2⟩)
  case setFader | setOutFlags =>
    rw [dif_pos h]
    exact congrArg (fun w => [w]) (renderOutput_place m ⟨_, h⟩)
  case submix =>
    rw [dif_pos h, column, List.map_flatMap, ← List.map_coe_finRange_eq_range, List.flatMap_map]
    congr 1
    funext s
    simp only [List.map_cons, List.map_nil, ← renderCell_place]

/-- Where each rendered cell of a command lies, whatever the model. -/
theorem touched_index (c : CtlCommand) (m : MixerModel) (h : c.OutsideRam) :
    ∀ w ∈ c.touched m, kCells ≤ MixerShadow.indexOf w.addr := by
  have hs := c.src.isLt
  have hd := c.dest.isLt
  have ho := c.out.isLt
  have hcell : ∀ k s, s < 2 ^ 16 → kCells ≤ cellIndex k s c.dest.toNat →
      kCells ≤ MixerShadow.indexOf (m.renderCell k s c.dest.toNat).addr := by
    intro k s hs16 hk
    have hb : cellIndex k s c.dest.toNat < 2 ^ 32 := by cases k <;> simp only [cellIndex, half] <;> omega
    rw [show (m.renderCell k s c.dest.toNat).addr = _ from coeffAddr_eq k hs16 hd, indexOf_ram hb]
    exact hk
  have hout : kCells ≤ faderIndex c.out.toNat → kCells ≤ MixerShadow.indexOf (m.renderOutput c.out.toNat).addr := by
    intro hk
    have hb : faderIndex c.out.toNat < 2 ^ 32 := by simp only [faderIndex]; omega
    rw [show (m.renderOutput c.out.toNat).addr = _ from outputFaderAddr_eq ho, indexOf_ram hb]
    exact hk
  unfold OutsideRam at h
  unfold touched
  intro w hw
  cases ht : c.type <;> simp only [ht] at h hw <;> try cases hw <;> done
  case setMixer | setCellFlags => rw [List.mem_singleton.1 hw]; exact hcell _ _ hs h
  case setFader | setOutFlags => rw [List.mem_singleton.1 hw]; exact hout h
  case submix =>
    simp only [List.mem_flatMap, List.mem_range, List.mem_cons, List.not_mem_nil, or_false] at hw
    obtain ⟨s, hsl, rfl | rfl⟩ := hw <;> have hK := kCh_eq
    · exact hcell .input s (by omega) (by simp only [cellIndex, half] at h ⊢; omega)
    · exact hcell .playback s (by omega) (by simp only [cellIndex, half] at h ⊢; omega)

/-- A command whose rendered cells are those of the places it edits, or none of
the RAM's. -/
def StaysInPlace (c : CtlCommand) : Prop := c.InRange ∨ c.OutsideRam

instance (c : CtlCommand) : Decidable c.InRange := by
  unfold InRange
  split <;> infer_instance

instance (c : CtlCommand) : Decidable c.OutsideRam := by
  unfold OutsideRam
  split <;> infer_instance

instance (c : CtlCommand) : Decidable c.StaysInPlace := inferInstanceAs (Decidable (_ ∨ _))

theorem places_nil (c : CtlCommand) (h : ¬ c.InRange) : c.places = [] := by
  unfold InRange at h
  unfold places
  cases ht : c.type <;> simp only [ht] at h ⊢
  case setMixer | setCellFlags | setFader | setOutFlags | submix => rw [dif_neg h]

/-- Rendering what a command touched brings the image up to date. -/
theorem render_touched (c : CtlCommand) (m : MixerModel) (h : c.StaysInPlace) :
    (c.touched (c.edit m)).foldl MixerShadow.setAt m.render = (c.edit m).render := by
  by_cases hr : c.InRange
  · rw [c.touched_eq _ hr]
    exact render_of_agree c.places fun p hp => c.edit_get m hp
  · have hsame : m.render = (c.edit m).render := by
      have hget : ∀ p, p ∉ ([] : List Place) → (c.edit m).get p = m.get p := fun p _ =>
        c.edit_get m (by rw [c.places_nil hr]; exact List.not_mem_nil)
      have h0 := render_of_agree [] hget
      rwa [List.map_nil, List.foldl_nil] at h0
    rw [foldl_outside (c.touched_index _ (h.resolve_left hr)), hsame]

end CtlCommand

/-! ## The pump's image -/

namespace Daemon

theorem foldl_mark (ws : List Write) (d : Daemon) :
    ws.foldl mark d = { d with
      mixer := ws.foldl MixerShadow.setAt d.mixer
      ctlDirty := ws.foldl (fun m w => m.set w.addr w.value) d.ctlDirty } := by
  induction ws generalizing d with
  | nil => rfl
  | cons w ws ih =>
    rw [List.foldl_cons, ih]
    rfl

@[simp] theorem pumpCommand_model (d : Daemon) (c : CtlCommand) : (d.pumpCommand c).model = c.edit d.model := by
  simp only [pumpCommand, foldl_mark]

theorem pumpCommand_mixer (d : Daemon) (c : CtlCommand) :
    (d.pumpCommand c).mixer = (c.touched (c.edit d.model)).foldl MixerShadow.setAt d.mixer := by
  simp only [pumpCommand, foldl_mark]

theorem pumpCommand_ctlDirty (d : Daemon) (c : CtlCommand) : (d.pumpCommand c).ctlDirty =
    (c.touched (c.edit d.model)).foldl (fun m w => m.set w.addr w.value) d.ctlDirty := by
  simp only [pumpCommand, foldl_mark]

theorem drainCtl_model (d : Daemon) (cs : List CtlCommand) :
    (d.drainCtl cs).model = cs.foldl (fun m c => c.edit m) d.model := by
  induction cs generalizing d with
  | nil => rfl
  | cons c cs ih =>
    show ((d.pumpCommand c).drainCtl cs).model = _
    rw [ih, pumpCommand_model, List.foldl_cons]

/-- The image is the rendered model. -/
def Rendered (d : Daemon) : Prop := d.mixer = d.model.render

theorem pumpCommand_rendered {d : Daemon} {c : CtlCommand} (hd : d.Rendered) (hc : c.StaysInPlace) :
    (d.pumpCommand c).Rendered := by
  unfold Rendered at *
  rw [pumpCommand_mixer, pumpCommand_model, hd, c.render_touched _ hc]

theorem drainCtl_rendered {d : Daemon} {cs : List CtlCommand} (hd : d.Rendered) (hcs : ∀ c ∈ cs, c.StaysInPlace) :
    (d.drainCtl cs).Rendered := by
  induction cs generalizing d with
  | nil => exact hd
  | cons c cs ih =>
    apply ih (pumpCommand_rendered hd (hcs c List.mem_cons_self))
    intro e he
    exact hcs e (List.mem_cons_of_mem _ he)

@[simp] theorem snapshot_model (d : Daemon) : d.snapshot.model = d.model := rfl
@[simp] theorem snapshot_mixer (d : Daemon) : d.snapshot.mixer = d.mixer := rfl

theorem pushDirty_model (d : Daemon) : d.pushDirty.model = d.model := by
  unfold pushDirty
  split <;> rfl

theorem pushDirty_mixer (d : Daemon) : d.pushDirty.mixer = d.mixer := by
  unfold pushDirty
  split <;> rfl

theorem pushDirty_ctlDirty (d : Daemon) : d.pushDirty.ctlDirty = d.ctlDirty.rest kCtlWritesPerTick := by
  unfold pushDirty
  split <;> rfl

theorem drainCtlIdle_model (d : Daemon) (cs : List CtlCommand) :
    (d.drainCtlIdle cs).model = cs.foldl (fun m c => c.edit m) d.model := by
  unfold drainCtlIdle
  split <;> rfl

/-- Commands that change nothing leave the model alone. -/
theorem edit_of_not_changes {c : CtlCommand} (h : changes c = false) (m : MixerModel) : c.edit m = m := by
  unfold changes at h
  unfold CtlCommand.edit
  cases ht : c.type <;> simp [ht] at h ⊢

/-- The whole-matrix path renders the model whatever the commands were. -/
theorem drainCtlIdle_rendered {d : Daemon} (cs : List CtlCommand) (hd : d.Rendered) : (d.drainCtlIdle cs).Rendered := by
  unfold Rendered drainCtlIdle
  split
  · rfl
  · rename_i h
    have hm : cs.foldl (fun m c => c.edit m) d.model = d.model := by
      clear hd
      induction cs with
      | nil => rfl
      | cons c cs ih =>
        simp only [List.any_cons, Bool.or_eq_true, not_or, Bool.not_eq_true] at h
        rw [List.foldl_cons, edit_of_not_changes h.1]
        exact ih (by simp [h.2])
    show d.mixer = (cs.foldl (fun m c => c.edit m) d.model).render
    rw [hm]
    exact hd

end Daemon

namespace World

/-- Every command the pump drains stays in place. -/
def CommandsStay (_ : World) : Act → Prop
  | .tick cs => ∀ c ∈ cs, c.StaysInPlace
  | _ => True

theorem step_rendered (w : World) (a : Act) (v : World) (hw : w.daemon.Rendered) (ha : CommandsStay w a)
    (h : w.step a = some v) : v.daemon.Rendered := by
  cases a with
  | idle cs =>
    simp only [step] at h
    split at h <;> cases h
    exact Daemon.drainCtlIdle_rendered cs hw
  | tick cs =>
    simp only [step] at h
    split at h <;> cases h
    have hd := Daemon.drainCtl_rendered hw ha
    show (w.daemon.tick cs).mixer = (w.daemon.tick cs).model.render
    unfold Daemon.tick
    rw [Daemon.pushDirty_mixer, Daemon.pushDirty_model]
    exact hd
  | start rate channel garbage =>
    have hs : (if w.up then w.write w.daemon.stopWrites else w).daemon = w.daemon := by split <;> rfl
    simp only [step] at h
    split at h
    · cases h
      rw [hs]
      exact hw
    · split at h <;> cases h
      · exact (congrArg Daemon.Rendered hs).mpr hw
      · rfl

/-- In every state of every run whose drained commands stay in place, the image
is the rendered model; and draining such commands cell by cell gives the same
model and the same image as rendering the matrix whole. -/
theorem image_agrees (diag : Bool) (saved : Saved) (pub : Option Published) (ram : ℕ → Quadlet) (as : List Act)
    (w : World) (hm : Meets step CommandsStay (boot diag saved pub ram) as)
    (h : run step (boot diag saved pub ram) as = some w) (cs : List CtlCommand) (hcs : ∀ c ∈ cs, c.StaysInPlace) :
    w.daemon.mixer = w.daemon.model.render ∧
    (w.daemon.drainCtl cs).mixer = (w.daemon.drainCtl cs).model.render ∧
    (w.daemon.drainCtl cs).model = (w.daemon.drainCtlIdle cs).model ∧
    (w.daemon.drainCtl cs).mixer = (w.daemon.drainCtlIdle cs).mixer := by
  have hw : w.daemon.Rendered := hm.inv (fun w => w.daemon.Rendered) step_rendered h rfl
  have hd := Daemon.drainCtl_rendered hw hcs
  have hmodel : (w.daemon.drainCtl cs).model = (w.daemon.drainCtlIdle cs).model := by
    rw [Daemon.drainCtl_model, Daemon.drainCtlIdle_model]
  refine ⟨hw, hd, hmodel, ?_⟩
  rw [Daemon.drainCtlIdle_rendered cs hw, ← hmodel]
  exact hd

instance (w : World) (a : Act) : Decidable (CommandsStay w a) := by
  unfold CommandsStay
  split <;> infer_instance

/-- Input 4 to output 3 at unity. -/
def route : CtlCommand := { type := .setMixer, src := 3, dest := 2, coeff := 0x8000 }

theorem image_agrees_route : ∃ w, run step (boot true .absent none fun _ => 0)
      [.start 48000 true fun _ => 7, .tick [route]] = some w ∧
    w.daemon.mixer = w.daemon.model.render ∧
    (w.daemon.drainCtl [route]).mixer = (w.daemon.drainCtlIdle [route]).mixer := by
  have hm : Meets step CommandsStay (boot true .absent none fun _ => 0)
      [.start 48000 true fun _ => 7, .tick [route]] := by decide +kernel
  have hr : (run step (boot true .absent none fun _ => 0)
      [.start 48000 true fun _ => 7, .tick [route]]).isSome = true := by decide +kernel
  obtain ⟨w, hw⟩ := Option.isSome_iff_exists.1 hr
  obtain ⟨himg, -, -, heq⟩ := image_agrees true .absent none (fun _ => 0) _ w hm hw [route] (by decide +kernel)
  exact ⟨w, hw, himg, heq⟩

end World

/-- Input 33 does not exist: its gain goes to the scratch cell, and its address
is that of playback channel 1 into output 1. -/
def stray : CtlCommand := { type := .setMixer, src := 32, dest := 0, coeff := 0 }

/-- The pump mutes a crosspoint of its image which the model, and with it the
whole-matrix path, has at unity. -/
theorem stray_differs :
    ((Daemon.boot true .absent none).drainCtl [stray]).mixer.cells 32 = 0 ∧
    ((Daemon.boot true .absent none).drainCtl [stray]).model.render.cells 32 = kMixerUnity ∧
    ((Daemon.boot true .absent none).drainCtlIdle [stray]).mixer.cells 32 = kMixerUnity := by
  have hidle := Daemon.drainCtlIdle_rendered (d := Daemon.boot true .absent none) [stray] rfl
  refine ⟨by decide +kernel, ?_, ?_⟩
  · rw [render_cells]
    decide +kernel
  · rw [hidle, render_cells]
    decide +kernel

end UserFace800.Control
