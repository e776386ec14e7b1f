import Mathlib.Data.List.Basic
import Mathlib.Data.BitVec
/-!
# Runs of a step function

A system is a step function `step : σ → α → Option σ`: the action `a` is
enabled in `s` when `step s a` is `some`, and leads to that state. A schedule
is the list of actions taken, so a theorem about every list of actions is a
theorem about every interleaving of the parties whose actions they are.

`run_inv` is the invariant rule. `Meets` restricts a schedule step by step
(each action judged in the state it is taken in), `Meets.inv` is the
invariant rule for such runs and `Meets.sim` the simulation rule.
-/

namespace UserFace800.Lib

variable {σ α : Type}

/-- The state after the actions, `none` once one of them is not enabled. -/
def run (step : σ → α → Option σ) : σ → List α → Option σ
  | s, [] => some s
  | s, a :: as => (step s a).bind fun t => run step t as

/-- Every action of the schedule meets `ok` in the state it is taken in. -/
def Meets (step : σ → α → Option σ) (ok : σ → α → Prop) : σ → List α → Prop
  | _, [] => True
  | s, a :: as => ok s a ∧ ∀ t, step s a = some t → Meets step ok t as

instance decidableMeets (step : σ → α → Option σ) (ok : σ → α → Prop) [∀ s a, Decidable (ok s a)] :
    ∀ s as, Decidable (Meets step ok s as)
  | _, [] => .isTrue trivial
  | s, a :: as =>
    match h : step s a with
    | none => decidable_of_iff (ok s a) ⟨fun hk => ⟨hk, fun t ht => by rw [h] at ht; cases ht⟩, fun hk => hk.1⟩
    | some t =>
      have := decidableMeets step ok t as
      decidable_of_iff (ok s a ∧ Meets step ok t as)
        ⟨fun hk => ⟨hk.1, fun u hu => by rw [h] at hu; cases hu; exact hk.2⟩, fun hk => ⟨hk.1, hk.2 t h⟩⟩

variable {step : σ → α → Option σ}

@[simp] theorem run_nil (s : σ) : run step s [] = some s := rfl

theorem run_cons (s : σ) (a : α) (as : List α) :
    run step s (a :: as) = (step s a).bind fun t => run step t as := rfl

theorem run_cons_some {s t u : σ} {a : α} {as : List α} (h : step s a = some t) (h' : run step t as = some u) :
    run step s (a :: as) = some u := by
  rw [run_cons, h]; exact h'

theorem run_append (s : σ) (as bs : List α) :
    run step s (as ++ bs) = (run step s as).bind fun t => run step t bs := by
  induction as generalizing s with
  | nil => rfl
  | cons a as ih =>
    simp only [List.cons_append, run_cons]
    cases step s a with
    | none => rfl
    | some t => exact ih t

theorem run_append_some {s t u : σ} {as bs : List α} (h : run step s as = some t) (h' : run step t bs = some u) :
    run step s (as ++ bs) = some u := by
  rw [run_append, h]; exact h'

/-- What every step keeps, every run keeps. -/
theorem run_inv (I : σ → Prop) (hstep : ∀ s a t, I s → step s a = some t → I t)
    {s t : σ} {as : List α} (h : run step s as = some t) (hs : I s) : I t := by
  induction as generalizing s with
  | nil => cases h; exact hs
  | cons a as ih =>
    rw [run_cons, Option.bind_eq_some_iff] at h
    obtain ⟨u, hu, h⟩ := h
    exact ih h (hstep s a u hs hu)

/-- What every step meeting `ok` keeps, every run of such steps keeps. -/
theorem Meets.inv {ok : σ → α → Prop} (I : σ → Prop) (hstep : ∀ s a t, I s → ok s a → step s a = some t → I t)
    {s t : σ} {as : List α} (hm : Meets step ok s as) (h : run step s as = some t) (hs : I s) : I t := by
  induction as generalizing s with
  | nil => cases h; exact hs
  | cons a as ih =>
    rw [run_cons, Option.bind_eq_some_iff] at h
    obtain ⟨u, hu, h⟩ := h
    exact ih (hm.2 u hu) h (hstep s a u hs hm.1 hu)

/-- A simulation: where each step meeting `ok` is matched by actions of another system, up to
`R`, so is each run of such steps. -/
theorem Meets.sim {τ β : Type} {step' : τ → β → Option τ} {ok : σ → α → Prop} (R : σ → τ → Prop)
    (hstep : ∀ s a t c, R s c → ok s a → step s a = some t → ∃ bs d, run step' c bs = some d ∧ R t d)
    {s t : σ} {as : List α} (hm : Meets step ok s as) (h : run step s as = some t) {c : τ} (hR : R s c) :
    ∃ bs d, run step' c bs = some d ∧ R t d := by
  induction as generalizing s c with
  | nil =>
    cases h
    exact ⟨[], c, rfl, hR⟩
  | cons a as ih =>
    rw [run_cons, Option.bind_eq_some_iff] at h
    obtain ⟨u, hu, h⟩ := h
    obtain ⟨bs, d, hbs, hd⟩ := hstep s a u c hR hm.1 hu
    obtain ⟨bs', d', hbs', hd'⟩ := ih (hm.2 u hu) h hd
    exact ⟨bs ++ bs', d', run_append_some hbs hbs', hd'⟩

/-- Actions that meet `ok` in every state. -/
theorem Meets.of_forall {ok : σ → α → Prop} {s : σ} {as : List α} (h : ∀ a ∈ as, ∀ t, ok t a) : Meets step ok s as := by
  induction as generalizing s with
  | nil => trivial
  | cons a as ih =>
    exact ⟨h a List.mem_cons_self s, fun t _ => ih fun b hb => h b (List.mem_cons_of_mem _ hb)⟩

theorem Meets.and {ok ok' : σ → α → Prop} {s : σ} {as : List α} (hm : Meets step ok s as) (hm' : Meets step ok' s as) :
    Meets step (fun s a => ok s a ∧ ok' s a) s as := by
  induction as generalizing s with
  | nil => trivial
  | cons a as ih => exact ⟨⟨hm.1, hm'.1⟩, fun t ht => ih (hm.2 t ht) (hm'.2 t ht)⟩

theorem meets_append {ok : σ → α → Prop} {s t : σ} {as : List α} (h : run step s as = some t) (bs : List α) :
    Meets step ok s (as ++ bs) ↔ Meets step ok s as ∧ Meets step ok t bs := by
  induction as generalizing s with
  | nil =>
    cases h
    exact ⟨fun hm => ⟨trivial, hm⟩, fun hm => hm.2⟩
  | cons a as ih =>
    rw [run_cons, Option.bind_eq_some_iff] at h
    obtain ⟨u, hu, h⟩ := h
    have hu' : ∀ v, step s a = some v → v = u := by
      intro v hv
      rw [hu] at hv
      exact (Option.some.inj hv).symm
    constructor
    · rintro ⟨ha, hrest⟩
      have hm := (ih h).1 (hrest u hu)
      exact ⟨⟨ha, fun v hv => hu' v hv ▸ hm.1⟩, hm.2⟩
    · rintro ⟨⟨ha, hrest⟩, hbs⟩
      exact ⟨ha, fun v hv => hu' v hv ▸ (ih h).2 ⟨hrest u hu, hbs⟩⟩

theorem Meets.append {ok : σ → α → Prop} {s t : σ} {as bs : List α} (hm : Meets step ok s as)
    (h : run step s as = some t) (hm' : Meets step ok t bs) : Meets step ok s (as ++ bs) :=
  (meets_append h bs).2 ⟨hm, hm'⟩

/-- Where a step keeps `P` exactly if it meets `ok`, a run keeps `P` throughout exactly
if all of its steps meet it. -/
theorem meets_iff_always {ok : σ → α → Prop} (I P : σ → Prop)
    (hstep : ∀ s a t, I s → P s → step s a = some t → I t ∧ (P t ↔ ok s a)) {s t : σ} {as : List α}
    (h : run step s as = some t) (hI : I s) (hP : P s) :
    (∀ bs u, bs <+: as → run step s bs = some u → P u) ↔ Meets step ok s as := by
  induction as generalizing s with
  | nil =>
    refine ⟨fun _ => trivial, fun _ bs u hbs hu => ?_⟩
    rw [List.prefix_nil] at hbs
    subst hbs
    cases hu
    exact hP
  | cons a as ih =>
    rw [run_cons, Option.bind_eq_some_iff] at h
    obtain ⟨v, hv, h⟩ := h
    obtain ⟨hIv, hPv⟩ := hstep s a v hI hP hv
    constructor
    · intro hall
      have hPv' := hall [a] v (by simp) (run_cons_some hv rfl)
      refine ⟨hPv.1 hPv', fun w hw => ?_⟩
      cases hv.symm.trans hw
      refine (ih h hIv hPv').1 fun bs u hbs hu => hall (a :: bs) u ?_ (run_cons_some hv hu)
      exact (List.prefix_cons_inj a).2 hbs
    · rintro ⟨hok, hrest⟩ bs u hbs hu
      cases bs with
      | nil =>
        cases hu
        exact hP
      | cons b bs =>
        obtain ⟨rfl, hsub⟩ := List.cons_prefix_cons.1 hbs
        rw [run_cons, hv, Option.bind_some] at hu
        exact (ih h hIv (hPv.2 hok)).2 (hrest v hv) bs u hsub hu

theorem run_append_inv {s u : σ} {as bs : List α} (h : run step s (as ++ bs) = some u) :
    ∃ t, run step s as = some t ∧ run step t bs = some u := by
  rw [run_append, Option.bind_eq_some_iff] at h
  exact h

/-- A block of actions that leads from `f n` to `f (n + 1)` for every `n` below `N`,
taken `N` times. -/
theorem run_replicate (f : ℕ → σ) (block : List α) (N : ℕ) (hb : ∀ n < N, run step (f n) block = some (f (n + 1))) :
    run step (f 0) (List.replicate N block).flatten = some (f N) := by
  induction N with
  | zero => rfl
  | succ N ih =>
    rw [List.replicate_succ', List.flatten_append, List.flatten_singleton]
    exact run_append_some (ih fun n hn => hb n (Nat.lt_succ_of_lt hn)) (hb N (Nat.lt_succ_self N))

theorem meets_replicate {ok : σ → α → Prop} (f : ℕ → σ) (block : List α) (N : ℕ)
    (hb : ∀ n < N, run step (f n) block = some (f (n + 1))) (hm : ∀ n < N, Meets step ok (f n) block) :
    Meets step ok (f 0) (List.replicate N block).flatten := by
  induction N with
  | zero => trivial
  | succ N ih =>
    rw [List.replicate_succ', List.flatten_append, List.flatten_singleton]
    exact (ih (fun n hn => hb n (Nat.lt_succ_of_lt hn)) fun n hn => hm n (Nat.lt_succ_of_lt hn)).append
      (run_replicate f block N fun n hn => hb n (Nat.lt_succ_of_lt hn)) (hm N (Nat.lt_succ_self N))

end UserFace800.Lib
