import UserFace800.Control.Drain
/-!
# The device converges to the model

Model, dirty map and device RAM, over every interleaving of drains, ticks and
session (re)starts with in-range commands: what is pending for a cell is its
rendered value, and a cell with nothing pending already holds it (`Inv`). A
restart writes the whole matrix, so it may come at any point, whatever the
device's RAM held before.
-/
open UserFace800.Lib UserFace800.Protocol UserFace800.Mixer

namespace UserFace800.Control

/-- The address of cell `i` of the matrix RAM. -/
def cellAddr (i : ℕ) : ℕ := Reg.kMixerRam + 4 * i

theorem cellAddr_inj {i j : ℕ} (h : cellAddr i = cellAddr j) : i = j := by
  unfold cellAddr at h
  omega

theorem renderPlace_addr (m : MixerModel) (p : Place) : (m.renderPlace p).addr = cellAddr p.index := p.addr_eq

/-! ## Device writes -/

/-- A write to a register past the matrix RAM. -/
def PastRam : DevWrite → Prop
  | .quadlet a _ => cellAddr kCells ≤ a
  | .block a _ => cellAddr kCells ≤ a

theorem apply_pastRam {w : DevWrite} (h : PastRam w) (ram : ℕ → Quadlet) (i : Fin kCells) :
    DevWrite.apply ram w (cellAddr i) = ram (cellAddr i) := by
  have hi : cellAddr i < cellAddr kCells := by
    have := i.isLt
    unfold cellAddr
    omega
  cases w with
  | quadlet a v => exact Function.update_of_ne (fun e => by simp only [PastRam] at h; omega) _ _
  | block a vs =>
    simp only [PastRam] at h
    simp only [DevWrite.apply]
    rw [if_neg fun e => by omega]

theorem foldl_pastRam {ws : List DevWrite} (h : ∀ w ∈ ws, PastRam w) (ram : ℕ → Quadlet) (i : Fin kCells) :
    ws.foldl DevWrite.apply ram (cellAddr i) = ram (cellAddr i) := by
  induction ws generalizing ram with
  | nil => rfl
  | cons w ws ih =>
    rw [List.foldl_cons, ih (fun v hv => h v (List.mem_cons_of_mem _ hv)), apply_pastRam (h w List.mem_cons_self)]

theorem cellAddr_kCells : cellAddr kCells = 0x80082000 := rfl

theorem direct_pastRam (c : CtlCommand) (d : Daemon) : ∀ w ∈ c.direct d, PastRam w := by
  intro w hw
  unfold CtlCommand.direct at hw
  cases ht : c.type <;> simp only [ht] at hw
  case setOutFlags =>
    split at hw
    · rw [List.mem_singleton.1 hw, PastRam, cellAddr_kCells, Reg.kOutputRecMask]
      decide
    · cases hw
  case setSettings =>
    rcases List.mem_pair.1 hw with rfl | rfl <;>
      simp only [PastRam, cellAddr_kCells, Reg.kConfBlock, Reg.kClockConfig] <;> decide
  all_goals cases hw

theorem drainWrites_pastRam (d : Daemon) (cs : List CtlCommand) : ∀ w ∈ d.drainWrites cs, PastRam w := by
  induction cs generalizing d with
  | nil => exact fun w hw => by cases hw
  | cons c cs ih =>
    intro w hw
    rcases List.mem_append.1 hw with hw | hw
    · exact direct_pastRam c d w hw
    · exact ih _ w hw

theorem stopWrites_pastRam (d : Daemon) : ∀ w ∈ d.stopWrites, PastRam w := by
  intro w hw
  rcases List.mem_pair.1 hw with rfl | rfl <;>
    simp only [PastRam, cellAddr_kCells, Reg.kStatus0, Reg.kInitBankStop] <;> decide

theorem setupWrites_pastRam (d : Daemon) (rate : Quadlet) : ∀ w ∈ d.setupWrites rate, PastRam w := by
  intro w hw
  simp only [Daemon.setupWrites, List.mem_cons, List.not_mem_nil, or_false] at hw
  rcases hw with rfl | rfl | rfl | rfl | rfl <;> simp only [PastRam, cellAddr_kCells, Reg.kHostLed,
    Reg.kConfBlock, Reg.kStatus0, Reg.kOutputRecMask, Reg.kInitBankStream] <;> decide

/-- A quadlet write is a point write of the device's registers. -/
theorem quadlet_pointWrite : PointWrite (fun ram x => ram x)
    (fun ram (e : ℕ × Quadlet) => DevWrite.apply ram (.quadlet e.1 e.2)) (fun e x => e.1 = x) Prod.snd := by
  intro ram e x
  constructor
  · rintro rfl
    exact Function.update_self _ _ _
  · intro h
    exact Function.update_of_ne (Ne.symm h) _ _

theorem foldl_quadlets (es : List (ℕ × Quadlet)) (ram : ℕ → Quadlet) :
    (es.map fun e => DevWrite.quadlet e.1 e.2).foldl DevWrite.apply ram =
      es.foldl (fun ram e => DevWrite.apply ram (.quadlet e.1 e.2)) ram :=
  List.foldl_map

/-- After a session start the RAM holds the rendered matrix, whatever it held. -/
theorem applyWrites_ram (d : Daemon) (rate : Quadlet) (ram : ℕ → Quadlet) (i : Fin kCells) :
    (d.applyWrites rate).foldl DevWrite.apply ram (cellAddr i) = d.model.image i := by
  unfold Daemon.applyWrites
  rw [List.foldl_append, foldl_pastRam]
  · have hmap : (d.model.render.applyAll.map fun w => DevWrite.quadlet w.addr w.value) =
        (d.model.render.applyAll.map fun w => (w.addr, w.value)).map fun e => DevWrite.quadlet e.1 e.2 := by
      rw [List.map_map]
      rfl
    rw [hmap, foldl_quadlets]
    refine foldl_hit quadlet_pointWrite (fun x => d.model.image ((x - Reg.kMixerRam) / 4)) _ ram (cellAddr i) ?_ ?_
      |>.trans ?_
    · intro e he hx
      simp only [MixerShadow.applyAll, List.map_map, List.mem_map, List.mem_finRange, true_and] at he
      obtain ⟨j, rfl⟩ := he
      have hj : (j : ℕ) = i := cellAddr_inj (by unfold cellAddr at *; simp only [Function.comp] at hx; omega)
      have hidx : (cellAddr i - Reg.kMixerRam) / 4 = i := by unfold cellAddr; omega
      simp only [Function.comp, render_cells, hidx, hj]
    · refine ⟨(cellAddr i, d.model.render.cells i), ?_, rfl⟩
      simp only [MixerShadow.applyAll, List.map_map, List.mem_map, List.mem_finRange, true_and]
      exact ⟨i, by simp only [Function.comp, cellAddr, Nat.mul_comm]⟩
    · show d.model.image ((cellAddr i - Reg.kMixerRam) / 4) = _
      rw [show (cellAddr i - Reg.kMixerRam) / 4 = (i : ℕ) by unfold cellAddr; omega]
  · intro w hw
    rcases List.mem_pair.1 hw with rfl | rfl <;>
      simp only [PastRam, cellAddr_kCells, Reg.kStatus0, Reg.kInitBankStart] <;> decide

/-! ## The simulation relation -/

/-- What is pending is what the model renders; what is not pending is there. -/
structure Tracks (d : Daemon) (ram : ℕ → Quadlet) : Prop where
  pending : ∀ (i : Fin kCells) v, d.ctlDirty.get (cellAddr i) = some v → v = d.model.image i
  clean : ∀ i : Fin kCells, d.ctlDirty.get (cellAddr i) = none → ram (cellAddr i) = d.model.image i

/-- The map as a memory of optional values. -/
theorem dirty_pointWrite : PointWrite (fun (m : SortedMap ℕ Quadlet) a => m.get a)
    (fun m (w : Write) => m.set w.addr w.value) (fun w a => w.addr = a) (fun w => some w.value) := by
  intro m w a
  constructor
  · intro h
    exact (m.get_set w.addr a w.value).trans (if_pos h)
  · intro h
    exact (m.get_set w.addr a w.value).trans (if_neg h)

theorem image_of_not_touched (c : CtlCommand) (m : MixerModel) {i : ℕ}
    (h : ∀ p ∈ c.places, placeOf i ≠ some p) : (c.edit m).image i = m.image i := by
  unfold MixerModel.image
  cases hp : placeOf i with
  | none => rfl
  | some p => simp only [c.edit_get m fun hm => h p hm hp]

/-- The map after a command: what the edit renders at the places it touched. -/
theorem pumpCommand_get {d : Daemon} {c : CtlCommand} (hc : c.InRange) (i : Fin kCells) :
    (d.pumpCommand c).ctlDirty.get (cellAddr i) = some ((c.edit d.model).image i) ∨
    (d.pumpCommand c).ctlDirty.get (cellAddr i) = d.ctlDirty.get (cellAddr i) ∧
      (c.edit d.model).image i = d.model.image i := by
  rw [Daemon.pumpCommand_ctlDirty, c.touched_eq _ hc]
  have hits : ∀ p, ((c.edit d.model).renderPlace p).addr = cellAddr i ↔ placeOf i = some p := by
    intro p
    rw [renderPlace_addr, placeOf_eq_some]
    exact ⟨cellAddr_inj, fun h => by rw [h]⟩
  by_cases hp : ∃ p ∈ c.places, placeOf i = some p
  · obtain ⟨p, hm, hp⟩ := hp
    left
    refine foldl_hit dirty_pointWrite (fun _ => some ((c.edit d.model).image i)) _ _ (cellAddr i) ?_ ?_
    · intro w hw ha
      obtain ⟨q, -, rfl⟩ := List.mem_map.1 hw
      rw [hits] at ha
      simp only [MixerModel.renderPlace, MixerModel.image, ha]
    · exact ⟨_, List.mem_map_of_mem hm, (hits p).2 hp⟩
  · right
    refine ⟨foldl_missed dirty_pointWrite _ _ (cellAddr i) ?_, image_of_not_touched c _ ?_⟩
    · intro w hw ha
      obtain ⟨q, hq, rfl⟩ := List.mem_map.1 hw
      exact hp ⟨q, hq, (hits q).1 ha⟩
    · intro p hm h
      exact hp ⟨p, hm, h⟩

theorem pumpCommand_tracks {d : Daemon} {ram : ℕ → Quadlet} {c : CtlCommand} (ht : Tracks d ram) (hc : c.InRange) :
    Tracks (d.pumpCommand c) ram := by
  constructor
  · intro i v hv
    rw [Daemon.pumpCommand_model]
    rcases pumpCommand_get (d := d) hc i with h | ⟨h, himg⟩
    · rw [h] at hv
      exact (Option.some.inj hv).symm
    · rw [h] at hv
      rw [himg]
      exact ht.pending i v hv
  · intro i hn
    rw [Daemon.pumpCommand_model]
    rcases pumpCommand_get (d := d) hc i with h | ⟨h, himg⟩
    · rw [h] at hn
      cases hn
    · rw [h] at hn
      rw [himg]
      exact ht.clean i hn

theorem drainCtl_tracks {d : Daemon} {ram : ℕ → Quadlet} {cs : List CtlCommand} (ht : Tracks d ram)
    (hcs : ∀ c ∈ cs, c.InRange) : Tracks (d.drainCtl cs) ram := by
  induction cs generalizing d with
  | nil => exact ht
  | cons c cs ih =>
    apply ih (pumpCommand_tracks ht (hcs c List.mem_cons_self))
    intro e he
    exact hcs e (List.mem_cons_of_mem _ he)

theorem Tracks.of_ram {d : Daemon} {ram ram' : ℕ → Quadlet} (ht : Tracks d ram)
    (h : ∀ i : Fin kCells, ram' (cellAddr i) = ram (cellAddr i)) : Tracks d ram' :=
  ⟨ht.pending, fun i hn => by rw [h, ht.clean i hn]⟩

/-- Pushing moves entries from the map to the device. -/
theorem pushDirty_tracks {d : Daemon} {ram : ℕ → Quadlet} (ht : Tracks d ram) :
    Tracks d.pushDirty ((d.toPush.map fun e => DevWrite.quadlet e.1 e.2).foldl DevWrite.apply ram) := by
  constructor
  · intro i v hv
    rw [Daemon.pushDirty_model]
    rw [Daemon.pushDirty_ctlDirty, SortedMap.get_eq_some_iff] at hv
    exact ht.pending i v ((SortedMap.get_eq_some_iff _ _ _).2 (List.mem_of_mem_drop hv))
  · intro i hn
    rw [Daemon.pushDirty_model]
    rw [Daemon.pushDirty_ctlDirty] at hn
    rw [foldl_quadlets]
    by_cases h : ∃ e ∈ d.toPush, e.1 = cellAddr i
    · refine foldl_hit quadlet_pointWrite (fun _ => d.model.image i) _ _ (cellAddr i) ?_ h
      intro e he ha
      have hg := SortedMap.get_front he
      rw [ha] at hg
      exact ht.pending i _ hg
    · have hmiss : ∀ e ∈ d.toPush, e.1 ≠ cellAddr i := fun e he ha => h ⟨e, he, ha⟩
      rw [SortedMap.get_rest_of_not_front hmiss] at hn
      rw [foldl_missed quadlet_pointWrite _ _ (cellAddr i) hmiss]
      exact ht.clean i hn

namespace World

/-- Every command the pump drains has channel indices. -/
def CommandsInRange (_ : World) : Act → Prop
  | .tick cs => ∀ c ∈ cs, c.InRange
  | _ => True

/-- In a session the device tracks the model; before it nothing is pending. -/
structure Inv (w : World) : Prop where
  tracks : w.up = true → Tracks w.daemon w.ram
  before : w.up = false → w.daemon.ctlDirty = .empty

theorem boot_inv (diag : Bool) (saved : Saved) (pub : Option Published) (ram : ℕ → Quadlet) :
    Inv (boot diag saved pub ram) :=
  ⟨fun h => (nomatch h), fun _ => rfl⟩

theorem tick_tracks {w : World} {cs : List CtlCommand} (ht : Tracks w.daemon w.ram) (hcs : ∀ c ∈ cs, c.InRange) :
    Tracks (w.daemon.tick cs) (w.write (w.daemon.tickWrites cs)).ram := by
  have hd := drainCtl_tracks ht hcs
  have hram : Tracks (w.daemon.drainCtl cs) ((w.daemon.drainWrites cs).foldl DevWrite.apply w.ram) :=
    hd.of_ram fun i => foldl_pastRam (drainWrites_pastRam _ _) _ i
  unfold write Daemon.tickWrites
  rw [List.foldl_append]
  exact pushDirty_tracks hram

theorem sessionStart_tracks {d : Daemon} (rate : Quadlet) (ram : ℕ → Quadlet)
    (hp : ∀ (i : Fin kCells) v, d.ctlDirty.get (cellAddr i) = some v → v = d.model.image i) :
    Tracks (d.sessionStart rate) ((d.applyWrites rate).foldl DevWrite.apply ram) :=
  ⟨hp, fun i _ => applyWrites_ram d rate ram i⟩

theorem Inv.pending {w : World} (hi : Inv w) (i : Fin kCells) (v : Quadlet)
    (h : w.daemon.ctlDirty.get (cellAddr i) = some v) : v = w.daemon.model.image i := by
  cases hu : w.up with
  | true => exact (hi.tracks hu).pending i v h
  | false =>
    rw [hi.before hu, SortedMap.get_empty] at h
    cases h

theorem stop_tracks {w : World} (ht : Tracks w.daemon w.ram) :
    Tracks w.daemon (w.write w.daemon.stopWrites).ram :=
  ht.of_ram fun i => foldl_pastRam (stopWrites_pastRam _) _ i

theorem step_inv (w : World) (a : Act) (v : World) (hi : Inv w) (ha : CommandsInRange w a) (h : w.step a = some v) :
    Inv v := by
  cases a with
  | idle cs =>
    simp only [step] at h
    split at h
    · cases h
    · rename_i hu
      cases h
      refine ⟨fun hu' => absurd hu' hu, fun _ => ?_⟩
      have he := hi.before (Bool.not_eq_true _ ▸ hu)
      simp only [Daemon.drainCtlIdle]
      split <;> exact he
  | tick cs =>
    simp only [step] at h
    split at h
    · rename_i hu
      cases h
      exact ⟨fun _ => tick_tracks (hi.tracks hu) ha, fun hu' => by simp [write, hu] at hu'⟩
    · cases h
  | start rate channel garbage =>
    have hstop : Inv (if w.up then w.write w.daemon.stopWrites else w) := by
      split
      · rename_i hu
        exact ⟨fun _ => stop_tracks (hi.tracks hu), fun hu' => by simp [write, hu] at hu'⟩
      · exact hi
    simp only [step] at h
    split at h
    · cases h
      exact hstop
    · split at h
      · cases h
        -- no channel: nothing of the matrix was written
        refine ⟨fun hu => ?_, fun hu => hstop.before hu⟩
        exact (hstop.tracks hu).of_ram fun i => foldl_pastRam (setupWrites_pastRam _ _) _ i
      · cases h
        refine ⟨fun _ => ?_, fun hu => Bool.noConfusion hu⟩
        simp only [write]
        exact sessionStart_tracks rate garbage hi.pending

/-! ## Convergence -/

theorem tick_nil_model (d : Daemon) : (d.tick []).model = d.model := Daemon.pushDirty_model d

/-- `n` ticks without commands leave the model alone and the map without its
first `8 n` entries. -/
theorem run_quiet (w : World) (hu : w.up = true) (n : ℕ) :
    ∃ v, run step w (List.replicate n (.tick [])) = some v ∧ v.up = true ∧ v.daemon.model = w.daemon.model ∧
      v.daemon.ctlDirty.entries = w.daemon.ctlDirty.entries.drop (8 * n) := by
  induction n generalizing w with
  | zero => exact ⟨w, rfl, hu, rfl, rfl⟩
  | succ n ih =>
    have hstep : w.step (.tick []) =
        some { w.write (w.daemon.tickWrites []) with daemon := w.daemon.tick [] } := by
      simp only [step, hu, if_true]
    obtain ⟨v, hv, hup, hmodel, hent⟩ :=
      ih { w.write (w.daemon.tickWrites []) with daemon := w.daemon.tick [] } hu
    refine ⟨v, run_cons_some hstep hv, hup, hmodel.trans (tick_nil_model _), ?_⟩
    have htick : (w.daemon.tick []).ctlDirty = w.daemon.ctlDirty.rest 8 := Daemon.pushDirty_ctlDirty _
    rw [hent, htick, SortedMap.rest, List.drop_drop, show 8 + 8 * n = 8 * (n + 1) by omega]

theorem quiet_inRange (w : World) (n : ℕ) : Meets step CommandsInRange w (List.replicate n (.tick [])) := by
  induction n generalizing w with
  | zero => trivial
  | succ n ih => exact ⟨fun c hc => (by cases hc), fun t _ => ih t⟩

/-- In every run with in-range commands, in a session, at every tick boundary:
what is pending for a matrix address, or else what the device holds there, is
its rendered value; and after `⌈|ctlDirty| / 8⌉` ticks or more without commands
the device's RAM is the rendered model. -/
theorem converges (diag : Bool) (saved : Saved) (pub : Option Published) (ram : ℕ → Quadlet) (as : List Act)
    (w : World) (hm : Meets step CommandsInRange (boot diag saved pub ram) as)
    (h : run step (boot diag saved pub ram) as = some w) (hu : w.up = true) :
    (∀ i : Fin kCells, (w.daemon.ctlDirty.get (cellAddr i)).getD (w.ram (cellAddr i)) =
      w.daemon.model.render.cells i) ∧
    ∀ n, (w.daemon.ctlDirty.entries.length + 7) / 8 ≤ n →
      ∃ v, run step w (List.replicate n (.tick [])) = some v ∧ v.daemon.model = w.daemon.model ∧
        ∀ i : Fin kCells, v.ram (cellAddr i) = w.daemon.model.render.cells i := by
  have hi := hm.inv Inv step_inv h (boot_inv diag saved pub ram)
  constructor
  · intro i
    rw [render_cells]
    cases hg : w.daemon.ctlDirty.get (cellAddr i) with
    | none => exact (hi.tracks hu).clean i hg
    | some v => exact (hi.tracks hu).pending i v hg
  · intro n hn
    obtain ⟨v, hv, hup, hmodel, hent⟩ := run_quiet w hu n
    refine ⟨v, hv, hmodel, fun i => ?_⟩
    have hiv := (quiet_inRange w n).inv Inv step_inv hv hi
    have hnil : v.daemon.ctlDirty.entries = [] := by
      rw [hent]
      exact List.drop_eq_nil_of_le (by omega)
    have hnone : v.daemon.ctlDirty.get (cellAddr i) = none := by
      unfold SortedMap.get
      rw [hnil]
      rfl
    rw [(hiv.tracks hup).clean i hnone, hmodel, render_cells]

instance (w : World) : ∀ a, Decidable (CommandsInRange w a)
  | .tick cs => inferInstanceAs (Decidable (∀ c ∈ cs, c.InRange))
  | .idle _ => .isTrue trivial
  | .start _ _ _ => .isTrue trivial

/-- Two sessions, the second started while a route is pending. -/
def restarted : List Act := [.start 48000 true fun _ => 7, .tick [route], .start 96000 true fun _ => 9]

theorem converges_restarted : ∃ w, run step (boot true .absent none fun _ => 0) restarted = some w ∧
    ∀ i : Fin kCells, (w.daemon.ctlDirty.get (cellAddr i)).getD (w.ram (cellAddr i)) =
      w.daemon.model.render.cells i := by
  have hm : Meets step CommandsInRange (boot true .absent none fun _ => 0) restarted := by decide +kernel
  have hr : (run step (boot true .absent none fun _ => 0) restarted).map (·.up) = some true := by decide +kernel
  obtain ⟨w, hw, hu⟩ := Option.map_eq_some_iff.1 hr
  exact ⟨w, hw, (converges true .absent none (fun _ => 0) _ w hm hw hu).1⟩

end World

end UserFace800.Control
