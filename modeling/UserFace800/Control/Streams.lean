import UserFace800.Control.Locations
/-!
# Dropping and interleaving commands

Two laws of the command language, for both drains. `superseded_dropped`: a command
may be dropped exactly if nothing it changed is carried to the end by the commands
after it. A later command for the same target ends that, except where a submix was
copied in between. `streams_commute`: streams that copy no submix and share no target
give the same state in every interleaving.
-/
open UserFace800.Lib UserFace800.Protocol UserFace800.Mixer

namespace UserFace800.Control

namespace CtlCommand

/-- The locations a command sets. -/
def Targets (c : CtlCommand) (l : Loc) : Prop :=
  match c.type, l with
  | .setMixer, .gain q | .setFader, .gain q => q = c.spot
  | .setCellFlags, .flag q i | .setOutFlags, .flag q i => q = c.spot ∧ c.mask.getLsbD i = true
  | .setStereo, .pair k i => k = c.kind ∧ c.src.toNat < kCh ∧ i.val = c.src.toNat / 2
  | .submix, .gain q | .submix, .flag q _ => inColumn c.dest.toNat q = true
  | .setSettings, .settings => True
  | _, _ => False

theorem keeps_of_not_targets {c : CtlCommand} {l : Loc} (h : ¬c.Targets l) : Flow.Keeps c.flow l := by
  unfold Targets at h
  unfold Flow.Keeps flow
  cases l <;> cases ht : c.type <;> simp only [ht] at h ⊢ <;> try rfl
  case gain.setMixer | gain.setFader | flag.setCellFlags | flag.setOutFlags | pair.setStereo => exact if_neg h
  case gain.submix | flag.submix =>
    rw [Bool.not_eq_true] at h
    rw [copiedFrom_of_not h, h, if_neg Bool.false_ne_true, ite_self]
  case settings.setSettings => exact absurd trivial h

/-- The one command that reads the state: a submix copied, not cleared. -/
def Copies (c : CtlCommand) : Prop := c.type = .submix ∧ c.on = 0

/-- Any other command gives its targets constants. -/
theorem not_carries_of_targets {c : CtlCommand} (hc : ¬c.Copies) {k l : Loc} (hl : c.Targets l) :
    ¬Flow.Carries c.flow k l := by
  unfold Copies at hc
  unfold Targets at hl
  unfold Flow.Carries flow
  intro h
  cases l <;> cases ht : c.type <;> simp only [ht, true_and] at hc hl h
  case gain.submix | flag.submix =>
    rw [if_pos hc, if_pos hl] at h
    cases h
  case settings.setSettings => cases h
  all_goals first
    | exact hl
    | rw [if_pos hl] at h; cases h

theorem inPlace {c : CtlCommand} (hc : ¬c.Copies) : Flow.InPlace c.flow := by
  intro k l h
  by_cases hl : c.Targets l
  · exact absurd h (not_carries_of_targets hc hl)
  · exact Source.copy.inj (h.symm.trans (keeps_of_not_targets hl))

/-- A submix copied onto itself, or from a column there is not, sets nothing. -/
def Overwrites (c : CtlCommand) : Prop := c.Copies → c.src.toNat < kCh ∧ c.src ≠ c.dest

/-- What is overwritten is nowhere afterwards. -/
theorem Overwrites.not_carries {c : CtlCommand} (hc : c.Overwrites) {k : Loc} (hk : c.Targets k) (l : Loc) :
    ¬Flow.Carries c.flow k l := by
  intro h
  by_cases hcopy : c.Copies
  · -- every location is read outside the column that is overwritten
    obtain ⟨hs, hne⟩ := hc hcopy
    have hne' : c.src.toNat ≠ c.dest.toNat := fun e => hne (BitVec.eq_of_toNat_eq e)
    obtain ⟨ht, hon⟩ := hcopy
    unfold Flow.Carries flow at h
    unfold Targets at hk
    have hfrom := inColumn_copiedFrom hs hne'
    cases l <;> simp only [ht, hon, ne_eq, not_true_eq_false, if_false, Source.copy.injEq] at h
    all_goals
      subst h
      simp only [ht, hfrom, Bool.false_eq_true] at hk
  · obtain rfl := inPlace hcopy k l h
    exact not_carries_of_targets hcopy hk h

/-! ## Dropping a command -/

/-- A later command of the same type for the same target. -/
def Supersedes (c' c : CtlCommand) : Prop :=
  c'.type = c.type ∧
    match c.type with
    | .setMixer | .setFader => c'.spot = c.spot
    | .setCellFlags | .setOutFlags => c'.spot = c.spot ∧ c'.mask = c.mask
    | .setStereo => c'.kind = c.kind ∧ c'.src = c.src
    | .submix => c'.dest = c.dest
    | _ => True

theorem Supersedes.targets {c' c : CtlCommand} (h : c'.Supersedes c) {l : Loc} (hl : c.Targets l) : c'.Targets l := by
  obtain ⟨ht, hsame⟩ := h
  unfold Targets at hl ⊢
  rw [ht]
  cases l <;> cases hc : c.type <;> simp only [hc] at hl hsame ⊢
  case gain.setMixer | gain.setFader => rw [hsame]; exact hl
  case flag.setCellFlags | flag.setOutFlags => rw [hsame.1, hsame.2]; exact hl
  case pair.setStereo => rw [hsame.1, hsame.2]; exact hl
  case gain.submix | flag.submix => rw [hsame]; exact hl

/-- Nothing `c` changes in `s` is carried to the end of the commands after it. -/
def Forgotten (s : Kept) (c : CtlCommand) (rest : List CtlCommand) : Prop :=
  ∀ k l, (Flow.seq (rest.map flow)).Carries k l → (act s c).read k = s.read k

/-- It is where the target is set again before any submix is copied. -/
theorem forgotten_of_superseded (s : Kept) {c c' : CtlCommand} {mid post : List CtlCommand} (hs : c'.Supersedes c)
    (hmid : ∀ x ∈ mid, ¬x.Copies) (hc' : c'.Overwrites) : Forgotten s c (mid ++ c' :: post) := by
  intro k l h
  rw [List.map_append, Flow.carries_seq_append] at h
  obtain ⟨j, hj, h⟩ := h
  rw [List.map_cons, Flow.seq, Flow.carries_andThen] at h
  obtain ⟨i, hi, -⟩ := h
  have hplace : (Flow.seq (mid.map flow)).InPlace := by
    apply Flow.seq_inPlace
    intro f hf
    obtain ⟨x, hx, rfl⟩ := List.mem_map.1 hf
    exact inPlace (hmid x hx)
  -- up to the superseding command the value stays where it is, and there it ends
  obtain rfl := hplace k j hj
  have hkeep : ¬c.Targets k := fun hk => hc'.not_carries (hs.targets hk) i hi
  rw [reads.act, (keeps_of_not_targets hkeep).apply]

end CtlCommand

/-- A command may be dropped exactly if what it changed is forgotten. -/
theorem superseded_dropped (d : Daemon) (before rest : List CtlCommand) (c : CtlCommand) :
    ((d.drainCtl (before ++ c :: rest)).kept = (d.drainCtl (before ++ rest)).kept ↔
      CtlCommand.Forgotten (before.foldl CtlCommand.act d.kept) c rest) ∧
    ((d.drainCtlIdle (before ++ c :: rest)).kept = (d.drainCtlIdle (before ++ rest)).kept ↔
      CtlCommand.Forgotten (before.foldl CtlCommand.act d.kept) c rest) ∧
    ∀ mid c' post, rest = mid ++ c' :: post → c'.Supersedes c → (∀ x ∈ mid, ¬x.Copies) → c'.Overwrites →
      CtlCommand.Forgotten (before.foldl CtlCommand.act d.kept) c rest := by
  have hdrop : (before ++ c :: rest).foldl CtlCommand.act d.kept = (before ++ rest).foldl CtlCommand.act d.kept ↔
      CtlCommand.Forgotten (before.foldl CtlCommand.act d.kept) c rest := by
    rw [List.foldl_append, List.foldl_append, List.foldl_cons]
    exact CtlCommand.reads.foldl_eq_iff _ _ rest
  refine ⟨?_, ?_, ?_⟩
  · rw [Daemon.drainCtl_kept, Daemon.drainCtl_kept]
    exact hdrop
  · rw [Daemon.drainCtlIdle_kept, Daemon.drainCtlIdle_kept]
    exact hdrop
  · rintro mid c' post rfl hs hmid hc'
    exact CtlCommand.forgotten_of_superseded _ hs hmid hc'

/-- Input 1 to output 1, at unity and then at half of it. -/
def raised : CtlCommand := { type := .setMixer, coeff := 0x8000 }
/-- The same cell at half of it. -/
def lowered : CtlCommand := { type := .setMixer, coeff := 0x4000 }

/-- Output 1's submix onto output 2. -/
def copied : CtlCommand := { type := .submix, src := 0, dest := 1 }

theorem superseded_dropped_route : ((Daemon.boot true .absent none).drainCtl [raised, lowered]).kept =
    ((Daemon.boot true .absent none).drainCtl [lowered]).kept := by
  have hdrop := superseded_dropped (Daemon.boot true .absent none) [] [lowered] raised
  refine hdrop.1.2 (hdrop.2.2 [] lowered [] rfl ⟨rfl, rfl⟩ (fun x hx => (nomatch hx)) fun hc => ?_)
  exact absurd hc.1 (by decide)

/-- The copy has what was superseded. -/
theorem raised_copied : lowered.Supersedes raised ∧ (∀ c ∈ [raised, copied, lowered], c.InRange) ∧
    ((Daemon.boot true .absent none).drainCtl [raised, copied, lowered]).kept ≠
      ((Daemon.boot true .absent none).drainCtl [copied, lowered]).kept ∧
    ((Daemon.boot true .absent none).drainCtlIdle [raised, copied, lowered]).kept ≠
      ((Daemon.boot true .absent none).drainCtlIdle [copied, lowered]).kept := by
  have hne : [raised, copied, lowered].foldl CtlCommand.act (Daemon.boot true .absent none).kept ≠
      [copied, lowered].foldl CtlCommand.act (Daemon.boot true .absent none).kept := by
    intro h
    have hgain := congrArg (fun s : Kept => (s.1.inputs 0 1).gain) h
    revert hgain
    decide
  refine ⟨⟨rfl, rfl⟩, by decide, ?_, ?_⟩
  · rw [Daemon.drainCtl_kept, Daemon.drainCtl_kept]
    exact hne
  · rw [Daemon.drainCtlIdle_kept, Daemon.drainCtlIdle_kept]
    exact hne

/-! ## Interleaving streams -/

namespace CtlCommand

theorem apart {x y : CtlCommand} (hx : ¬x.Copies) (hy : ¬y.Copies) (h : ∀ l, ¬(x.Targets l ∧ y.Targets l)) :
    Flow.Apart x.flow y.flow where
  targets l := by
    by_cases hl : x.Targets l
    · exact .inr (keeps_of_not_targets fun hl' => h l ⟨hl, hl'⟩)
    · exact .inl (keeps_of_not_targets hl)
  left k l hc := by
    obtain rfl := inPlace hx k l hc
    exact .inr hc
  right k l hc := by
    obtain rfl := inPlace hy k l hc
    exact .inr hc

/-- A gain command leaves every flag alone. -/
theorem edit_gain (c : CtlCommand) (m : MixerModel) (q : Spot) (h : c.type = .setMixer ∨ c.type = .setFader) :
    ((c.edit m).look q).flags = (m.look q).flags := by
  rw [look_edit]
  rcases h with h | h <;> rw [h] <;> dsimp only <;> split <;> rfl

/-- A flag command leaves every gain alone, and every bit outside its mask. -/
theorem edit_flags (c : CtlCommand) (m : MixerModel) (q : Spot)
    (h : c.type = .setCellFlags ∨ c.type = .setOutFlags) : ((c.edit m).look q).gain = (m.look q).gain ∧
      ∀ i : Fin 8, c.mask.getLsbD i = false →
        ((c.edit m).look q).flags.getLsbD i = (m.look q).flags.getLsbD i := by
  have hmerge : (c.edit m).look q =
      if q = c.spot then { m.look q with flags := c.mergeFlags (m.look q).flags } else m.look q := by
    rw [look_edit]
    rcases h with h | h <;> rw [h]
  rw [hmerge]
  split
  · refine ⟨rfl, fun i hi => ?_⟩
    dsimp only
    rw [mergeFlags_bit, hi, if_neg Bool.false_ne_true]
  · exact ⟨rfl, fun _ _ => rfl⟩

end CtlCommand

/-- Two streams that copy no submix and share no target, in any two interleavings:
the drains leave the same model, settings and image. A gain command and a flag
command for one cell share no target. -/
theorem streams_commute {xs ys zs zs' : List CtlCommand} (hcopy : ∀ c ∈ xs ++ ys, ¬c.Copies)
    (hapart : ∀ x ∈ xs, ∀ y ∈ ys, ∀ l, ¬(x.Targets l ∧ y.Targets l)) (h : Interleave xs ys zs)
    (h' : Interleave xs ys zs') (d : Daemon) :
    (d.drainCtl zs).kept = (d.drainCtl zs').kept ∧ (d.drainCtlIdle zs).kept = (d.drainCtlIdle zs').kept ∧
    (d.drainCtl zs).model.render = (d.drainCtl zs').model.render ∧
    (d.Rendered → (∀ c ∈ xs ++ ys, c.InRange) → (d.drainCtl zs).mixer = (d.drainCtl zs').mixer ∧
      (d.drainCtlIdle zs).mixer = (d.drainCtlIdle zs').mixer) ∧
    (∀ (c : CtlCommand) (m : MixerModel) (q : Spot), c.type = .setMixer ∨ c.type = .setFader →
      ((c.edit m).look q).flags = (m.look q).flags) ∧
    ∀ (c : CtlCommand) (m : MixerModel) (q : Spot), c.type = .setCellFlags ∨ c.type = .setOutFlags →
      ((c.edit m).look q).gain = (m.look q).gain ∧ ∀ i : Fin 8, c.mask.getLsbD i = false →
        ((c.edit m).look q).flags.getLsbD i = (m.look q).flags.getLsbD i := by
  have hcomm : ∀ x ∈ xs, ∀ y ∈ ys, ∀ s,
      CtlCommand.act (CtlCommand.act s x) y = CtlCommand.act (CtlCommand.act s y) x := by
    intro x hx y hy s
    refine CtlCommand.reads.comm (CtlCommand.apart ?_ ?_ (hapart x hx y hy)) s
    · exact hcopy x (List.mem_append_left _ hx)
    · exact hcopy y (List.mem_append_right _ hy)
  have hsame : zs.foldl CtlCommand.act d.kept = zs'.foldl CtlCommand.act d.kept := by
    rw [h.foldl hcomm, h'.foldl hcomm]
  have hpump : (d.drainCtl zs).kept = (d.drainCtl zs').kept := by
    rw [Daemon.drainCtl_kept, Daemon.drainCtl_kept, hsame]
  have hidle : (d.drainCtlIdle zs).kept = (d.drainCtlIdle zs').kept := by
    rw [Daemon.drainCtlIdle_kept, Daemon.drainCtlIdle_kept, hsame]
  have hmodel : (d.drainCtl zs).model = (d.drainCtl zs').model := congrArg Prod.fst hpump
  refine ⟨hpump, hidle, congrArg MixerModel.render hmodel, fun hd hr => ⟨?_, ?_⟩,
    fun c m q ht => c.edit_gain m q ht, fun c m q ht => c.edit_flags m q ht⟩
  · have hz := Daemon.drainCtl_rendered hd fun c hc => .inl (hr c (h.perm.mem_iff.2 hc))
    have hz' := Daemon.drainCtl_rendered hd fun c hc => .inl (hr c (h'.perm.mem_iff.2 hc))
    exact hz.trans ((congrArg MixerModel.render hmodel).trans hz'.symm)
  · have hz := Daemon.drainCtlIdle_rendered zs hd
    have hz' := Daemon.drainCtlIdle_rendered zs' hd
    exact hz.trans ((congrArg (fun s : Kept => s.1.render) hidle).trans hz'.symm)

/-- Mute of the cell whose gain `raised` sets, and its pairing. -/
def muted : CtlCommand := { type := .setCellFlags, mask := 1, flags := 1 }
/-- Inputs 1 and 2 as a stereo pair. -/
def paired : CtlCommand := { type := .setStereo, src := 1, on := 1 }

theorem streams_commute_muted :
    ((Daemon.boot true .absent none).drainCtl [raised, muted, lowered, paired]).kept =
      ((Daemon.boot true .absent none).drainCtl [muted, paired, raised, lowered]).kept := by
  have hapart : ∀ x ∈ [raised, lowered], ∀ y ∈ [muted, paired], ∀ l, ¬(x.Targets l ∧ y.Targets l) := by
    intro x hx y hy l
    rw [List.mem_pair] at hx hy
    rcases hx with rfl | rfl <;> rcases hy with rfl | rfl <;> rintro ⟨h1, h2⟩ <;>
      cases l <;> simp only [CtlCommand.Targets, raised, lowered, muted, paired] at h1 h2
  have hcopy : ∀ c ∈ [raised, lowered] ++ [muted, paired], ¬c.Copies := by
    intro c hc h
    revert h
    unfold CtlCommand.Copies
    revert c
    decide
  exact (streams_commute hcopy hapart (.left _ (.right _ (.left _ (.right _ .nil))))
    (.right _ (.right _ (.left _ (.left _ .nil)))) _).1

end UserFace800.Control
