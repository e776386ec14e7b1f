import UserFace800.Control.Converge
/-!
# Writes the device does not take

`wq` reports whether the device took a write. The pump's push loop erases the entry
either way, and `apply_all` goes on to the next cell, so a write that fails is not
pending any more: `world_lost` is the run in which a route never arrives. A failure
does no harm where the cell holds the value already (`Taken`); in a run whose failures
are all of that kind every step ends as if none had failed (`stepLossy_eq`), and
the device has what the model renders whenever nothing is pending.
-/
open UserFace800.Lib UserFace800.Protocol UserFace800.Mixer

namespace UserFace800.Control

/-! ## Writes that fail -/

/-- The writes that get through, `ok i` telling whether the `i`-th does. -/
def landed : (ℕ → Bool) → List DevWrite → List DevWrite
  | _, [] => []
  | ok, w :: ws => if ok 0 then w :: landed (fun i => ok (i + 1)) ws else landed (fun i => ok (i + 1)) ws

/-- Every write that fails finds its register as it would have left it. -/
inductive Taken : (ℕ → Bool) → List DevWrite → (ℕ → Quadlet) → Prop
  | nil (ok : ℕ → Bool) (ram : ℕ → Quadlet) : Taken ok [] ram
  | cons {ok : ℕ → Bool} {w : DevWrite} {ws : List DevWrite} {ram : ℕ → Quadlet} :
    (ok 0 = false → DevWrite.apply ram w = ram) → Taken (fun i => ok (i + 1)) ws (DevWrite.apply ram w) →
      Taken ok (w :: ws) ram

theorem landed_taken {ok : ℕ → Bool} {ws : List DevWrite} {ram : ℕ → Quadlet} (h : Taken ok ws ram) :
    (landed ok ws).foldl DevWrite.apply ram = ws.foldl DevWrite.apply ram := by
  induction h with
  | nil ok ram => rfl
  | @cons ok w ws ram hw _ ih =>
    unfold landed
    cases hok : ok 0 with
    | false =>
      rw [if_neg Bool.false_ne_true, List.foldl_cons, ← ih, hw hok]
    | true =>
      rw [if_pos rfl, List.foldl_cons, List.foldl_cons]
      exact ih

theorem taken_all (ws : List DevWrite) (ram : ℕ → Quadlet) : Taken (fun _ => true) ws ram := by
  induction ws generalizing ram with
  | nil => exact .nil _ _
  | cons w ws ih => exact .cons (fun h => (nomatch h)) (ih _)

theorem landed_none (ws : List DevWrite) : landed (fun _ => false) ws = [] := by
  induction ws with
  | nil => rfl
  | cons w ws ih => exact ih

/-! ## The daemon and such a device -/

namespace Daemon

/-- `apply_all` of the rendered matrix. -/
def matrixWrites (d : Daemon) : List DevWrite := d.model.render.applyAll.map fun w => .quadlet w.addr w.value

/-- The push loop of one tick, after the drain. -/
def pushWrites (d : Daemon) : List DevWrite := d.toPush.map fun e => .quadlet e.1 e.2

/-- What a session start writes after the matrix. -/
def startWrites (rate : Quadlet) : List DevWrite :=
  let dbq := dataBlockQuadlets (speedForRate rate)
  [.quadlet Reg.kInitBankStart (0x80000000 ||| BitVec.ofNat 32 dbq ||| 0x800),
    .block Reg.kStatus0 (List.replicate dbq 0)]

theorem tickWrites_eq (d : Daemon) (cs : List CtlCommand) :
    d.tickWrites cs = d.drainWrites cs ++ (d.drainCtl cs).pushWrites := rfl

theorem applyWrites_eq (d : Daemon) (rate : Quadlet) : d.applyWrites rate = d.matrixWrites ++ startWrites rate := rfl

end Daemon

namespace World

/-- A step, and which of its matrix writes the device takes. -/
abbrev Try := Act × (ℕ → Bool)

/-- As `World.step`, but of the matrix writes the device takes some. -/
def stepLossy (w : World) : Try → Option World
  | (.tick cs, ok) =>
    if w.up then
      some { w.write (w.daemon.drainWrites cs ++ landed ok (w.daemon.drainCtl cs).pushWrites) with
        daemon := w.daemon.tick cs }
    else none
  | (.start rate channel garbage, ok) =>
    let stopped := if w.up then w.write w.daemon.stopWrites else w
    if !isSupportedRate rate then some stopped
    else if !channel then some (stopped.write (w.daemon.setupWrites rate))
    else
      let blank : World := ⟨w.daemon, garbage, true⟩
      some { blank.write (landed ok w.daemon.matrixWrites ++ Daemon.startWrites rate) with
        daemon := w.daemon.sessionStart rate }
  | (.idle cs, _) => w.step (.idle cs)

/-- Every matrix write that fails in this step finds its value there. -/
def TakenStep (w : World) : Try → Prop
  | (.tick cs, ok) => Taken ok (w.daemon.drainCtl cs).pushWrites ((w.daemon.drainWrites cs).foldl DevWrite.apply w.ram)
  | (.start rate channel garbage, ok) =>
    isSupportedRate rate = true → channel = true → Taken ok w.daemon.matrixWrites garbage
  | (.idle _, _) => True

/-- A device that takes everything. -/
theorem takenStep_all (w : World) (a : Act) : w.TakenStep (a, fun _ => true) := by
  cases a with
  | idle cs => trivial
  | tick cs => exact taken_all _ _
  | start rate channel garbage => exact fun _ _ => taken_all _ _

/-- Such a step ends as it would have with a device that takes everything. -/
theorem stepLossy_eq {w : World} {a : Try} (h : w.TakenStep a) : w.stepLossy a = w.step a.1 := by
  obtain ⟨a, ok⟩ := a
  cases a with
  | idle cs => rfl
  | tick cs =>
    unfold TakenStep at h
    unfold stepLossy step write
    dsimp only at h ⊢
    rw [Daemon.tickWrites_eq, List.foldl_append, List.foldl_append, landed_taken h]
  | start rate channel garbage =>
    unfold TakenStep at h
    unfold stepLossy step
    dsimp only at h ⊢
    by_cases hr : (!isSupportedRate rate) = true
    · rw [if_pos hr, if_pos hr]
    · rw [if_neg hr, if_neg hr]
      by_cases hc : (!channel) = true
      · rw [if_pos hc, if_pos hc]
      · rw [if_neg hc, if_neg hc]
        rw [Bool.not_eq_true, Bool.not_eq_false'] at hr hc
        have htaken := landed_taken (h hr hc)
        unfold write
        rw [Daemon.applyWrites_eq, List.foldl_append, List.foldl_append, htaken]

/-- In every run with in-range commands and no failed write but those, at every tick
boundary at which nothing is pending. -/
theorem failed_writes {diag : Bool} {saved : Saved} {pub : Option Published} {ram : ℕ → Quadlet} {as : List Try}
    {w : World} (hm : Meets stepLossy (fun w a => CommandsInRange w a.1 ∧ w.TakenStep a) (boot diag saved pub ram) as)
    (h : run stepLossy (boot diag saved pub ram) as = some w) (hu : w.up = true)
    (hnone : w.daemon.ctlDirty.entries = []) (i : Fin kCells) : w.ram (cellAddr i) = w.daemon.model.render.cells i := by
  have hi : Inv w := hm.inv Inv (fun v a u hv hok hstep => by
    rw [stepLossy_eq hok.2] at hstep
    exact step_inv v a.1 u hv hok.1 hstep) h (boot_inv diag saved pub ram)
  have hget : w.daemon.ctlDirty.get (cellAddr i) = none := by
    unfold SortedMap.get
    rw [hnone]
    rfl
  rw [(hi.tracks hu).clean i hget, render_cells]

/-- A session brought up by a fresh daemon. -/
def started : World :=
  { daemon := (Daemon.boot true .absent none).sessionStart 48000
    ram := ((Daemon.boot true .absent none).applyWrites 48000).foldl DevWrite.apply fun _ => 7
    up := true }

/-- It starts, and one route comes in. -/
def routed (ok : ℕ → Bool) : List Try := [(.start 48000 true fun _ => 7, fun _ => true), (.tick [route], ok)]

theorem routed_start : stepLossy (boot true .absent none fun _ => 0) (.start 48000 true fun _ => 7, fun _ => true) =
    some started := by
  rw [stepLossy_eq (takenStep_all _ _)]
  unfold step
  dsimp only
  rw [if_neg (by decide), if_neg (by decide)]
  unfold started write boot
  dsimp only

/-- The device has the defaults. -/
theorem started_ram (i : Fin kCells) : started.ram (cellAddr i) = (Daemon.boot true .absent none).model.image i := by
  unfold started
  dsimp only
  exact applyWrites_ram (Daemon.boot true .absent none) 48000 (fun _ => 7) i

theorem write_nil (w : World) : (w.write []).ram = w.ram := rfl

theorem routed_tick (ok : ℕ → Bool) : stepLossy started (.tick [route], ok) =
    some { started.write (landed ok (started.daemon.drainCtl [route]).pushWrites) with
      daemon := started.daemon.tick [route] } := rfl

theorem routed_run (ok : ℕ → Bool) : run stepLossy (boot true .absent none fun _ => 0) (routed ok) =
    some { started.write (landed ok (started.daemon.drainCtl [route]).pushWrites) with
      daemon := started.daemon.tick [route] } :=
  run_cons_some routed_start (run_cons_some (routed_tick ok) rfl)

theorem routed_nothing_pending : (started.daemon.tick [route]).ctlDirty.entries = [] := by
  unfold Daemon.tick
  rw [Daemon.pushDirty_ctlDirty]
  rfl

theorem routed_model : (started.daemon.tick [route]).model = route.edit (Daemon.boot true .absent none).model := by
  unfold Daemon.tick
  rw [Daemon.pushDirty_model, Daemon.drainCtl_model]
  rfl

theorem routed_inRange (ok : ℕ → Bool) : ∀ a ∈ routed ok, ∀ w, CommandsInRange w a.1 := by
  intro a ha w
  unfold routed at ha
  rcases List.mem_pair.1 ha with rfl | rfl
  · trivial
  · intro c hc
    rw [List.mem_singleton.1 hc]
    decide

/-- The route, and next to it one that is silent as it was; the device takes the first of
the two writes. -/
def silent : CtlCommand := { route with dest := 3, coeff := 0 }
/-- A session, and a tick of whose two writes the second fails. -/
def halfRouted : List Try :=
  [(.start 48000 true fun _ => 7, fun _ => true), (.tick [route, silent], fun i => i == 0)]

theorem halfRouted_writes : (started.daemon.drainCtl [route, silent]).pushWrites =
    [.quadlet (cellAddr 131) 0x8000, .quadlet (cellAddr 195) 0] := by
  decide +kernel

/-- The write that fails finds its value there. -/
theorem halfRouted_taken : started.TakenStep (.tick [route, silent], fun i => i == 0) := by
  have hdrain : started.daemon.drainWrites [route, silent] = [] := rfl
  have hother : cellAddr (195 : Fin kCells) ≠ cellAddr (131 : Fin kCells) := by decide
  have hzero : started.ram (cellAddr (195 : Fin kCells)) = 0 := by
    rw [started_ram]
    decide
  unfold TakenStep
  dsimp only
  rw [hdrain, List.foldl_nil, halfRouted_writes]
  generalize started.ram = ram at hzero
  refine .cons (fun h => absurd h Bool.noConfusion) (.cons (fun _ => ?_) (.nil _ _))
  refine Function.update_eq_self_iff.2 ?_
  exact ((Function.update_of_ne hother _ _).trans hzero).symm

theorem halfRouted_tick : stepLossy started (.tick [route, silent], fun i => i == 0) =
    some { started.write [.quadlet (cellAddr 131) 0x8000] with daemon := started.daemon.tick [route, silent] } := by
  unfold stepLossy
  dsimp only
  rw [halfRouted_writes]
  rfl

theorem halfRouted_run : run stepLossy (boot true .absent none fun _ => 0) halfRouted =
    some { started.write [.quadlet (cellAddr 131) 0x8000] with daemon := started.daemon.tick [route, silent] } :=
  run_cons_some routed_start (run_cons_some halfRouted_tick rfl)

/-- The second write fails, and the device has both values. -/
theorem failed_writes_route : ∃ w, run stepLossy (boot true .absent none fun _ => 0) halfRouted = some w ∧
    landed (fun i => i == 0) (started.daemon.drainCtl [route, silent]).pushWrites = [.quadlet (cellAddr 131) 0x8000] ∧
    ∀ i : Fin kCells, w.ram (cellAddr i) = w.daemon.model.render.cells i := by
  have hm : Meets stepLossy (fun w a => CommandsInRange w a.1 ∧ w.TakenStep a) (boot true .absent none fun _ => 0)
      halfRouted := by
    refine ⟨⟨trivial, takenStep_all _ _⟩, fun t ht => ?_⟩
    cases routed_start.symm.trans ht
    refine ⟨⟨fun c hc => ?_, halfRouted_taken⟩, fun _ _ => trivial⟩
    rcases List.mem_pair.1 hc with rfl | rfl <;> decide
  refine ⟨_, halfRouted_run, by rw [halfRouted_writes]; rfl, failed_writes hm halfRouted_run rfl ?_⟩
  unfold Daemon.tick
  rw [Daemon.pushDirty_ctlDirty]
  decide +kernel

/-- Where it does not, and nobody will try again. -/
theorem world_lost : ∃ w, run stepLossy (boot true .absent none fun _ => 0) (routed fun _ => false) = some w ∧
    Meets stepLossy (fun w a => CommandsInRange w a.1) (boot true .absent none fun _ => 0) (routed fun _ => false) ∧
    w.up = true ∧ w.daemon.ctlDirty.entries = [] ∧ ∃ i : Fin kCells,
    w.ram (cellAddr i) ≠ w.daemon.model.render.cells i := by
  refine ⟨_, routed_run _, Meets.of_forall (routed_inRange _), rfl, routed_nothing_pending, 131, ?_⟩
  dsimp only
  rw [landed_none, write_nil, started_ram, render_cells, routed_model]
  decide

end World

end UserFace800.Control
