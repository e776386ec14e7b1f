import UserFace800.Control.Restart
/-!
# Nothing saved or shown lags the model

Both drains save and publish on a trigger of their own, that something was pushed or
marked, not that the model changed. `Drained` says what that comes to: a drain that
took one edit has taken a snapshot after all of them, and one that took no snapshot has
left the mixer as it was. So after every step of every run the snapshot and the
published mixer are those of the model (`published_current`), whatever is left to push.
-/
open UserFace800.Lib UserFace800.Protocol UserFace800.Mixer

namespace UserFace800.Control

/-- The commands of an event. -/
def Event.commands : Event → List CtlCommand
  | .act (.idle cs) => cs
  | .act (.tick cs) => cs
  | _ => []

/-! ## A drain -/

/-- What a front-end sees of the mixer is the model, and the image. -/
structure Daemon.Shown (d : Daemon) : Prop where
  model : ∀ p, d.pub = some p → p.model = d.model.toBlob
  cells : ∀ p, d.pub = some p → p.cells = d.mixer

/-- A drain of `cs` took a snapshot after its last edit, or there was none. -/
inductive Drained (cs : List CtlCommand) (d d' : Daemon) : Prop
  | fresh (seq : d'.stateSnapSeq = d.stateSnapSeq + 1) (snap : d'.stateSnap = d'.model.toBlob) (shown : d'.Shown)
  | quiet (none : ∀ c ∈ cs, c.edits = false) (model : d'.model = d.model) (mixer : d'.mixer = d.mixer)
      (snap : d'.stateSnap = d.stateSnap) (seq : d'.stateSnapSeq = d.stateSnapSeq)
      (pub : ∀ p, d'.pub = some p → ∃ q, d.pub = some q ∧ p.model = q.model ∧ p.cells = q.cells)

namespace Daemon

theorem shown_snapshot (d : Daemon) : d.snapshot.Shown := by
  constructor <;> intro p hp
  all_goals
    obtain ⟨q, -, rfl⟩ := Option.map_eq_some_iff.1 hp
    rfl

/-- The pump shows settings at once, the mixer only with a snapshot. -/
theorem pumpCommand_pub (d : Daemon) (c : CtlCommand) : ∀ p, (d.pumpCommand c).pub = some p →
    ∃ q, d.pub = some q ∧ p.model = q.model ∧ p.cells = q.cells := by
  intro p hp
  simp only [pumpCommand, foldl_mark] at hp
  split at hp
  · obtain ⟨q, hq, rfl⟩ := Option.map_eq_some_iff.1 hp
    exact ⟨q, hq, rfl, rfl⟩
  · exact ⟨p, hp, rfl, rfl⟩

theorem drainCtl_pub (d : Daemon) (cs : List CtlCommand) : ∀ p, (d.drainCtl cs).pub = some p →
    ∃ q, d.pub = some q ∧ p.model = q.model ∧ p.cells = q.cells := by
  induction cs generalizing d with
  | nil => exact fun p hp => ⟨p, hp, rfl, rfl⟩
  | cons c cs ih =>
    intro p hp
    obtain ⟨q, hq, hm, hc⟩ := ih (d.pumpCommand c) p hp
    obtain ⟨r, hr, hm', hc'⟩ := d.pumpCommand_pub c q hq
    exact ⟨r, hr, hm.trans hm', hc.trans hc'⟩

theorem drainCtl_mixer {d : Daemon} {cs : List CtlCommand} (hdirty : (d.drainCtl cs).ctlDirty.entries = [])
    (hstate : (d.drainCtl cs).stateDirty = false) : (d.drainCtl cs).mixer = d.mixer := by
  obtain ⟨-, -, hnone⟩ := drainCtl_clean hdirty hstate
  clear hdirty hstate
  induction cs generalizing d with
  | nil => rfl
  | cons c cs ih =>
    have htouched : c.touched (c.edit d.model) = [] := by
      have hc := hnone c List.mem_cons_self
      unfold CtlCommand.edits changes at hc
      unfold CtlCommand.touched
      cases ht : c.type <;> simp [ht] at hc ⊢
    refine (ih fun e he => hnone e (List.mem_cons_of_mem _ he)).trans ?_
    rw [pumpCommand_mixer, htouched, List.foldl_nil]

theorem tick_drained (d : Daemon) (cs : List CtlCommand) : Drained cs d (d.tick cs) := by
  obtain ⟨hsnap, hseq⟩ := drainCtl_snap d cs
  unfold tick pushDirty
  dsimp only
  split
  · refine .fresh ?_ rfl (shown_snapshot _)
    rw [← hseq]
    rfl
  · -- nothing to push and nothing marked
    rename_i hclean
    rw [not_or, not_not, Bool.not_eq_true] at hclean
    have hdirty := front_nil hclean.1
    obtain ⟨-, -, hnone⟩ := drainCtl_clean hdirty hclean.2
    refine .quiet hnone ?_ (drainCtl_mixer hdirty hclean.2) hsnap hseq (d.drainCtl_pub cs)
    exact (d.drainCtl_model cs).trans (foldl_edit hnone d.model)

theorem idle_drained (d : Daemon) (cs : List CtlCommand) : Drained cs d (d.drainCtlIdle cs) := by
  unfold drainCtlIdle
  dsimp only
  split
  · refine .fresh rfl rfl ?_
    constructor <;> intro p hp
    all_goals
      obtain ⟨q, hq, rfl⟩ := Option.map_eq_some_iff.1 hp
      obtain ⟨r, -, rfl⟩ := Option.map_eq_some_iff.1 hq
      rfl
  · rename_i hno
    have hnone := not_edits hno
    exact .quiet hnone (foldl_edit hnone d.model) rfl rfl rfl fun p hp => ⟨p, hp, rfl, rfl⟩

end Daemon

/-! ## A run -/

namespace World

/-- An event that drains nothing leaves the model, what is saved and what is shown; a
session start renders the image again. -/
theorem process_lag {w v : World} {e : Event} (hp : w.process e = some v) :
    Drained e.commands w.daemon v.daemon ∨
    (e.commands = [] ∧ v.daemon.model = w.daemon.model ∧ v.daemon.stateSnap = w.daemon.stateSnap ∧
      v.daemon.stateSnapSeq = w.daemon.stateSnapSeq ∧ v.daemon.pub = w.daemon.pub ∧
      (v.daemon.mixer = w.daemon.mixer ∨ v.daemon.mixer = w.daemon.model.render)) := by
  cases e with
  | act a =>
    simp only [process] at hp
    cases a with
    | idle cs =>
      simp only [step] at hp
      split at hp <;> cases hp
      exact .inl (Daemon.idle_drained w.daemon cs)
    | tick cs =>
      simp only [step] at hp
      split at hp <;> cases hp
      exact .inl (Daemon.tick_drained w.daemon cs)
    | start rate channel garbage =>
      right
      have hs : (if w.up then w.write w.daemon.stopWrites else w).daemon = w.daemon := by split <;> rfl
      simp only [step] at hp
      split at hp
      · cases hp
        rw [hs]
        exact ⟨rfl, rfl, rfl, rfl, rfl, .inl rfl⟩
      · split at hp <;> cases hp
        · have hd : ((if w.up then w.write w.daemon.stopWrites else w).write
              (w.daemon.setupWrites rate)).daemon = w.daemon := hs
          rw [hd]
          exact ⟨rfl, rfl, rfl, rfl, rfl, .inl rfl⟩
        · exact ⟨rfl, rfl, rfl, rfl, rfl, .inr rfl⟩
  | clock want =>
    right
    simp only [process] at hp
    split at hp
    · split at hp <;> cases hp <;> exact ⟨rfl, rfl, rfl, rfl, rfl, .inl rfl⟩
    · cases hp

theorem process_seq {w v : World} {e : Event} (hp : w.process e = some v) :
    ∃ k ≤ 1, v.daemon.stateSnapSeq = w.daemon.stateSnapSeq + BitVec.ofNat 64 k := by
  rcases process_lag hp with (⟨hseq, -, -⟩ | ⟨-, -, -, -, hseq, -⟩) | ⟨-, -, -, hseq, -, -⟩
  · exact ⟨1, le_refl 1, hseq⟩
  · exact ⟨0, Nat.zero_le 1, by rw [hseq, BitVec.add_zero]⟩
  · exact ⟨0, Nat.zero_le 1, by rw [hseq, BitVec.add_zero]⟩

theorem run_seq {w v : World} {es : List Event} (h : run process w es = some v) :
    ∃ k ≤ es.length, v.daemon.stateSnapSeq = w.daemon.stateSnapSeq + BitVec.ofNat 64 k := by
  induction es generalizing w with
  | nil =>
    cases h
    exact ⟨0, le_refl 0, (BitVec.add_zero _).symm⟩
  | cons e es ih =>
    rw [run_cons, Option.bind_eq_some_iff] at h
    obtain ⟨u, hu, h⟩ := h
    obtain ⟨j, hj, hstep⟩ := process_seq hu
    obtain ⟨k, hk, hrest⟩ := ih h
    refine ⟨j + k, by rw [List.length_cons]; omega, ?_⟩
    rw [hrest, hstep, BitVec.add_assoc, ← BitVec.ofNat_add]

/-- One edit, and the step has counted a snapshot. -/
theorem process_edit {w v : World} {e : Event} (hp : w.process e = some v)
    (h : (∃ c ∈ e.commands, c.edits = true) ∨ v.daemon.model ≠ w.daemon.model) :
    v.daemon.stateSnapSeq = w.daemon.stateSnapSeq + 1 ∧ v.daemon.stateSnap = v.daemon.model.toBlob := by
  rcases process_lag hp with (⟨hseq, hsnap, -⟩ | ⟨hnone, hmodel, -, -, -, -⟩) | ⟨hnil, hmodel, -, -, -, -⟩
  · exact ⟨hseq, hsnap⟩
  · rcases h with ⟨c, hc, hed⟩ | hne
    · rw [hnone c hc] at hed
      cases hed
    · exact absurd hmodel hne
  · rcases h with ⟨c, hc, -⟩ | hne
    · rw [hnil] at hc
      cases hc
    · exact absurd hmodel hne

theorem run_saved {w v : World} {es : List Event} (h : run process w es = some v)
    (hs : (∃ e ∈ es, ∃ c ∈ e.commands, c.edits = true) ∨ w.daemon.stateSnap = w.daemon.model.toBlob) :
    v.daemon.stateSnap = v.daemon.model.toBlob := by
  induction es generalizing w with
  | nil =>
    cases h
    rcases hs with ⟨e, he, -⟩ | hs
    · cases he
    · exact hs
  | cons e es ih =>
    rw [run_cons, Option.bind_eq_some_iff] at h
    obtain ⟨u, hu, h⟩ := h
    apply ih h
    by_cases hed : ∃ c ∈ e.commands, c.edits = true
    · exact .inr (process_edit hu (.inl hed)).2
    rcases hs with ⟨f, hf, hfc⟩ | hs
    · rcases List.mem_cons.1 hf with rfl | hf
      · exact absurd hfc hed
      · exact .inl ⟨f, hf, hfc⟩
    · -- saved before, and either saved again or left alone
      right
      rcases process_lag hu with (⟨-, hsnap, -⟩ | ⟨-, hmodel, -, hsnap, -, -⟩) | ⟨-, hmodel, hsnap, -, -, -⟩
      · exact hsnap
      · rw [hsnap, hmodel, hs]
      · rw [hsnap, hmodel, hs]

theorem process_shown {w v : World} {e : Event} (hp : w.process e = some v)
    (hw : ∀ p, w.daemon.pub = some p → p.model = w.daemon.model.toBlob) :
    ∀ p, v.daemon.pub = some p → p.model = v.daemon.model.toBlob := by
  intro p hpub
  rcases process_lag hp with (⟨-, -, hshown⟩ | ⟨-, hmodel, -, -, -, hsame⟩) | ⟨-, hmodel, -, -, hsame, -⟩
  · exact hshown.model p hpub
  · obtain ⟨q, hq, hm, -⟩ := hsame p hpub
    rw [hm, hmodel, hw q hq]
  · rw [hsame] at hpub
    rw [hmodel, hw p hpub]

/-- The image shown is the image, and that of the model. -/
structure ImageShown (w : World) : Prop where
  rendered : w.daemon.Rendered
  cells : ∀ p, w.daemon.pub = some p → p.cells = w.daemon.mixer

theorem process_rendered {w v : World} {e : Event} (hw : w.daemon.Rendered) (hc : ∀ c ∈ e.commands, c.InRange)
    (hp : w.process e = some v) : v.daemon.Rendered := by
  cases e with
  | act a =>
    refine step_rendered w a v hw ?_ hp
    cases a with
    | tick cs => exact fun c hcs => .inl (hc c hcs)
    | _ => trivial
  | clock want =>
    simp only [process] at hp
    split at hp
    · split at hp <;> cases hp <;> exact hw
    · cases hp

theorem process_image {w v : World} {e : Event} (hw : w.ImageShown) (hc : ∀ c ∈ e.commands, c.InRange)
    (hp : w.process e = some v) : v.ImageShown := by
  refine ⟨process_rendered hw.rendered hc hp, fun p hpub => ?_⟩
  rcases process_lag hp with (⟨-, -, hshown⟩ | ⟨-, -, hmixer, -, -, hsame⟩) | ⟨-, -, -, -, hsame, hmixer⟩
  · exact hshown.cells p hpub
  · obtain ⟨q, hq, -, hcells⟩ := hsame p hpub
    rw [hcells, hmixer, hw.cells q hq]
  · rw [hsame] at hpub
    rw [hw.cells p hpub]
    rcases hmixer with hmixer | hmixer
    · exact hmixer.symm
    · -- a session start renders what was rendered already
      exact hw.rendered.trans hmixer.symm

/-- After every step of every run, once an edit was taken: the snapshot is the model's,
its count has gone up with or after the last step that edited or changed the model, and
front-ends see the model; the image too if every command so far was in range. -/
theorem published_current {diag : Bool} {saved : Saved} {pub : Option Published} {ram : ℕ → Quadlet}
    {es : List Event} {w : World} (h : run process (boot diag saved pub ram) es = some w) :
    ((∃ e ∈ es, ∃ c ∈ e.commands, c.edits = true) → w.daemon.stateSnap = w.daemon.model.toBlob) ∧
    (∀ before e after u v, es = before ++ e :: after → run process (boot diag saved pub ram) before = some u →
      u.process e = some v → (∃ c ∈ e.commands, c.edits = true) ∨ v.daemon.model ≠ u.daemon.model →
      ∃ k, 1 ≤ k ∧ k ≤ after.length + 1 ∧
        w.daemon.stateSnapSeq = u.daemon.stateSnapSeq + BitVec.ofNat 64 k) ∧
    (∀ p, w.daemon.pub = some p → p.model = w.daemon.model.toBlob ∧
      ((∀ e ∈ es, ∀ c ∈ e.commands, c.InRange) → p.cells = w.daemon.mixer)) := by
  refine ⟨fun hed => run_saved h (.inl hed), ?_, fun p hpub => ⟨?_, fun hin => ?_⟩⟩
  · rintro before e after u v rfl hu hv hed
    obtain ⟨u', hu', hrest⟩ := run_append_inv h
    cases hu.symm.trans hu'
    rw [run_cons, hv, Option.bind_some] at hrest
    obtain ⟨k, hk, hseq⟩ := run_seq hrest
    refine ⟨1 + k, Nat.le_add_right 1 k, by omega, ?_⟩
    rw [hseq, (process_edit hv hed).1, BitVec.add_assoc, BitVec.ofNat_add]
    rfl
  · have hboot : ∀ p, (boot diag saved pub ram).daemon.pub = some p →
        p.model = (boot diag saved pub ram).daemon.model.toBlob := by
      intro p hp
      obtain ⟨q, -, rfl⟩ := Option.map_eq_some_iff.1 hp
      rfl
    exact run_inv (fun w => ∀ p, w.daemon.pub = some p → p.model = w.daemon.model.toBlob)
      (fun s e t hs ht => process_shown ht hs) h hboot p hpub
  · have hm : Meets process (fun _ e => ∀ c ∈ e.commands, c.InRange) (boot diag saved pub ram) es :=
      .of_forall fun e he _ => hin e he
    have hboot : (boot diag saved pub ram).ImageShown := by
      refine ⟨rfl, fun p hp => ?_⟩
      obtain ⟨q, -, rfl⟩ := Option.map_eq_some_iff.1 hp
      rfl
    exact (hm.inv ImageShown (fun s e t hs hc ht => process_image hs hc ht) h hboot).cells p hpub

/-- A route set while streaming, and a restart at another rate. -/
theorem published_current_route : ∃ w p, run process
      (boot true .absent (some ⟨(Daemon.boot true .absent none).mixer, .zero, {}⟩) fun _ => 0)
      [.act (.start 48000 true fun _ => 7), .act (.tick [route]), .act (.start 96000 true fun _ => 7)] = some w ∧
    w.daemon.pub = some p ∧ w.daemon.stateSnap = w.daemon.model.toBlob ∧ p.cells = w.daemon.mixer := by
  have hr : ((run process (boot true .absent (some ⟨(Daemon.boot true .absent none).mixer, .zero, {}⟩) fun _ => 0)
      [.act (.start 48000 true fun _ => 7), .act (.tick [route]),
        .act (.start 96000 true fun _ => 7)]).bind fun w => w.daemon.pub).isSome = true := by decide +kernel
  obtain ⟨p, hp⟩ := Option.isSome_iff_exists.1 hr
  obtain ⟨w, hw, hpub⟩ := Option.bind_eq_some_iff.1 hp
  obtain ⟨hsnap, -, hshown⟩ := published_current hw
  refine ⟨w, p, hw, hpub, hsnap ⟨.act (.tick [route]), by simp, route, List.mem_singleton_self _, rfl⟩,
    (hshown p hpub).2 ?_⟩
  intro e he c hc
  simp only [List.mem_cons, List.not_mem_nil, or_false] at he
  rcases he with rfl | rfl | rfl <;> simp only [Event.commands, List.mem_singleton, List.not_mem_nil] at hc
  rw [hc]
  decide

end World

end UserFace800.Control
