import Mathlib.Logic.Function.Defs
/-!
# Commands as simultaneous assignments

A command that gives each location of a state a constant or what some location held
before is a `Flow`. Flows compose (`andThen`, `seq`), so a list of commands is one
flow, and which locations of the start it still carries to the end can be read off it
without a state: two starts end alike exactly if they agree on what is carried
(`apply_eq_iff`), and flows that leave each other's locations alone commute
(`apply_comm`).

A system is given by how a state is read, `read : σ → L → V`, and by the flow of each
command (`Reads`). `Interleave` orders two streams of commands in every way that keeps
each stream's own order.
-/

namespace UserFace800.Lib

variable {L V σ α : Type}

/-- Where a location's value comes from. -/
inductive Source (L V : Type) where
  | const (v : V)
  | copy (l : L)

/-- The value a source gives. -/
def Source.eval (s : L → V) : Source L V → V
  | .const v => v
  | .copy l => s l

/-- A simultaneous assignment to all locations. -/
abbrev Flow (L V : Type) := L → Source L V

namespace Flow

/-- Every location keeps what it holds. -/
def id : Flow L V := .copy

/-- What a flow does to the values. -/
def apply (f : Flow L V) (s : L → V) : L → V := fun l => (f l).eval s

/-- First `f`, then `g`. -/
def andThen (f g : Flow L V) : Flow L V := fun l =>
  match g l with
  | .const v => .const v
  | .copy k => f k

/-- The flows one after another. -/
def seq : List (Flow L V) → Flow L V
  | [] => id
  | f :: fs => f.andThen (seq fs)

/-- `l` ends with what `k` held at the start. -/
def Carries (f : Flow L V) (k l : L) : Prop := f l = .copy k

/-- `l` is left alone. -/
def Keeps (f : Flow L V) (l : L) : Prop := f l = .copy l

theorem Keeps.apply {f : Flow L V} {l : L} (h : f.Keeps l) (s : L → V) : f.apply s l = s l := by
  unfold Flow.apply
  rw [h]
  rfl

@[simp] theorem id_apply (s : L → V) : (id : Flow L V).apply s = s := rfl

theorem andThen_apply (f g : Flow L V) (s : L → V) : (f.andThen g).apply s = g.apply (f.apply s) := by
  funext l
  unfold apply andThen
  cases g l <;> rfl

theorem carries_andThen {f g : Flow L V} {k l : L} :
    (f.andThen g).Carries k l ↔ ∃ j, f.Carries k j ∧ g.Carries j l := by
  unfold Carries andThen
  constructor
  · intro h
    cases hg : g l with
    | const v =>
      rw [hg] at h
      cases h
    | copy j =>
      rw [hg] at h
      exact ⟨j, h, rfl⟩
  · rintro ⟨j, hf, hg⟩
    rw [hg]
    exact hf

theorem carries_seq_append {fs gs : List (Flow L V)} {k l : L} :
    (seq (fs ++ gs)).Carries k l ↔ ∃ j, (seq fs).Carries k j ∧ (seq gs).Carries j l := by
  induction fs generalizing k with
  | nil =>
    constructor
    · exact fun h => ⟨k, rfl, h⟩
    · rintro ⟨j, hj, h⟩
      obtain rfl : j = k := Source.copy.inj hj
      exact h
  | cons f fs ih =>
    rw [List.cons_append, seq, carries_andThen]
    constructor
    · rintro ⟨i, hf, h⟩
      obtain ⟨j, hi, hj⟩ := ih.1 h
      exact ⟨j, carries_andThen.2 ⟨i, hf, hi⟩, hj⟩
    · rintro ⟨j, h, hj⟩
      obtain ⟨i, hf, hi⟩ := carries_andThen.1 h
      exact ⟨i, hf, ih.2 ⟨j, hi, hj⟩⟩

/-- Nothing is carried elsewhere. -/
def InPlace (f : Flow L V) : Prop := ∀ k l, f.Carries k l → k = l

theorem seq_inPlace {fs : List (Flow L V)} (h : ∀ f ∈ fs, f.InPlace) : (seq fs).InPlace := by
  induction fs with
  | nil => exact fun k l hc => (Source.copy.inj hc).symm
  | cons f fs ih =>
    intro k l hc
    obtain ⟨j, hj, hl⟩ := carries_andThen.1 hc
    have hrest := ih (fun g hg => h g (List.mem_cons_of_mem _ hg)) j l hl
    exact (h f List.mem_cons_self k j hj).trans hrest

/-- The starts that end alike are those that agree on what is carried. -/
theorem apply_eq_iff (f : Flow L V) (s t : L → V) : f.apply s = f.apply t ↔ ∀ k l, f.Carries k l → s k = t k := by
  constructor
  · intro h k l hc
    have hl := congrFun h l
    unfold apply at hl
    rw [hc] at hl
    exact hl
  · intro h
    funext l
    unfold apply
    cases hl : f l with
    | const v => rfl
    | copy k => exact h k l hl

/-- Neither flow touches a location the other touches or reads. -/
structure Apart (f g : Flow L V) : Prop where
  targets : ∀ l, f.Keeps l ∨ g.Keeps l
  left : ∀ k l, f.Carries k l → g.Keeps k ∨ f.Keeps l
  right : ∀ k l, g.Carries k l → f.Keeps k ∨ g.Keeps l

/-- One side of the exchange, at a location only `f` may change. -/
theorem apply_outside {f g : Flow L V} {l : L} (hg : g.Keeps l) (hf : ∀ k, f.Carries k l → g.Keeps k ∨ f.Keeps l)
    (s : L → V) : g.apply (f.apply s) l = f.apply (g.apply s) l := by
  rw [hg.apply]
  unfold apply
  cases hl : f l with
  | const v => rfl
  | copy k =>
    rcases hf k hl with hk | hk
    · exact (hk.apply s).symm
    · obtain rfl : k = l := Source.copy.inj (hl.symm.trans hk)
      exact (hg.apply s).symm

theorem apply_comm {f g : Flow L V} (h : Apart f g) (s : L → V) : g.apply (f.apply s) = f.apply (g.apply s) := by
  funext l
  rcases h.targets l with hf | hg
  · exact (apply_outside hf (fun k => h.right k l) s).symm
  · exact apply_outside hg (fun k => h.left k l) s

end Flow

/-! ## Systems of commands -/

/-- What a command does to a state is its flow, and a state is what is read of it. -/
structure Reads (read : σ → L → V) (act : σ → α → σ) (flow : α → Flow L V) : Prop where
  faithful : Function.Injective read
  act : ∀ s a, read (act s a) = (flow a).apply (read s)

namespace Reads

variable {read : σ → L → V} {act : σ → α → σ} {flow : α → Flow L V}

theorem foldl (h : Reads read act flow) (s : σ) (as : List α) :
    read (as.foldl act s) = (Flow.seq (as.map flow)).apply (read s) := by
  induction as generalizing s with
  | nil => rfl
  | cons a as ih =>
    rw [List.foldl_cons, ih, h.act, List.map_cons, Flow.seq, Flow.andThen_apply]

/-- Two states end alike exactly if they agree on what the commands carry. -/
theorem foldl_eq_iff (h : Reads read act flow) (s t : σ) (as : List α) :
    as.foldl act s = as.foldl act t ↔
      ∀ k l, (Flow.seq (as.map flow)).Carries k l → read s k = read t k := by
  rw [← h.faithful.eq_iff, h.foldl, h.foldl, Flow.apply_eq_iff]

theorem comm (h : Reads read act flow) {a b : α} (hab : (flow a).Apart (flow b)) (s : σ) :
    act (act s a) b = act (act s b) a := by
  apply h.faithful
  rw [h.act, h.act, h.act, h.act, Flow.apply_comm hab]

end Reads

/-! ## Interleavings -/

/-- `zs` merges the two streams, each in its own order. -/
inductive Interleave : List α → List α → List α → Prop
  | nil : Interleave [] [] []
  | left {xs ys zs : List α} (x : α) : Interleave xs ys zs → Interleave (x :: xs) ys (x :: zs)
  | right {xs ys zs : List α} (y : α) : Interleave xs ys zs → Interleave xs (y :: ys) (y :: zs)

theorem Interleave.perm {xs ys zs : List α} (h : Interleave xs ys zs) : (xs ++ ys).Perm zs := by
  induction h with
  | nil => exact .nil
  | left x _ ih => exact ih.cons x
  | right y _ ih => exact List.perm_middle.trans (ih.cons y)

/-- A command that commutes with all of a list may come before or after it. -/
theorem foldl_exchange {act : σ → α → σ} {y : α} {xs : List α} (h : ∀ x ∈ xs, ∀ s, act (act s x) y = act (act s y) x)
    (s : σ) : act (xs.foldl act s) y = xs.foldl act (act s y) := by
  induction xs generalizing s with
  | nil => rfl
  | cons x xs ih =>
    rw [List.foldl_cons, List.foldl_cons, ih (fun z hz => h z (List.mem_cons_of_mem _ hz)), h x List.mem_cons_self]

/-- If every command of one stream commutes with every one of the other, the
streams may as well run one after the other. -/
theorem Interleave.foldl {act : σ → α → σ} {xs ys zs : List α} (h : Interleave xs ys zs)
    (hc : ∀ x ∈ xs, ∀ y ∈ ys, ∀ s, act (act s x) y = act (act s y) x) (s : σ) :
    zs.foldl act s = ys.foldl act (xs.foldl act s) := by
  induction h generalizing s with
  | nil => rfl
  | left x _ ih =>
    rw [List.foldl_cons, ih fun z hz y hy => hc z (List.mem_cons_of_mem _ hz) y hy]
    rfl
  | @right xs ys zs y _ ih =>
    rw [List.foldl_cons, ih fun x hx z hz => hc x hx z (List.mem_cons_of_mem _ hz), List.foldl_cons,
      foldl_exchange (fun x hx => hc x hx y List.mem_cons_self)]

end UserFace800.Lib
