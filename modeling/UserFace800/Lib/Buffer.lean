import Mathlib.Data.List.Basic
import Mathlib.Data.List.Induction
/-!
# Buffers filled by loops

A buffer is a list, and a write outside it fails. `Writes f i b` says that `f` writes `b` at
`i` over what was there, whatever the buffer is, and nothing else. What two such steps write
one after the other is `seq`; a loop whose turns write blocks of one width next to each
other writes all of them (`loop`), and may itself be a turn of another. A loop that pushes what it
reads ends with a list of just that (`mapM_range`).
-/

namespace UserFace800.Lib.Buffer

variable {α β : Type}

/-- `buf[i] = x`. -/
def put (buf : List α) (i : ℕ) (x : α) : Option (List α) := if i < buf.length then some (buf.set i x) else none

/-- `f` writes `b` at `i`. -/
def Writes (f : List α → Option (List α)) (i : ℕ) (b : List α) : Prop :=
  ∀ pre rest, pre.length = i → b.length ≤ rest.length → f (pre ++ rest) = some (pre ++ b ++ rest.drop b.length)

theorem writes_put (i : ℕ) (x : α) : Writes (fun buf => put buf i x) i [x] := by
  intro pre rest hpre hrest
  obtain ⟨y, rest, rfl⟩ : ∃ y ys, rest = y :: ys := List.exists_cons_of_length_pos hrest
  subst hpre
  dsimp only [put]
  rw [if_pos (by simp), List.set_append_right _ _ (Nat.le_refl _), Nat.sub_self]
  simp

theorem writes_nil (i : ℕ) : Writes (pure : List α → Option (List α)) i [] := by
  intro pre rest _ _
  simp

theorem Writes.seq {f g : List α → Option (List α)} {i : ℕ} {b c : List α} (hf : Writes f i b)
    (hg : Writes g (i + b.length) c) : Writes (fun buf => f buf >>= g) i (b ++ c) := by
  intro pre rest hpre hrest
  rw [List.length_append] at hrest
  have hrest' : c.length ≤ (rest.drop b.length).length := by
    rw [List.length_drop]
    omega
  dsimp only
  rw [hf pre rest hpre (by omega), Option.bind_eq_bind, Option.bind_some,
    hg _ _ (by rw [List.length_append, hpre]) hrest', List.drop_drop, List.length_append, List.append_assoc pre b c]

theorem length_blocks {block : ℕ → List α} {n w : ℕ} (hw : ∀ k < n, (block k).length = w) :
    ((List.range n).flatMap block).length = n * w := by
  induction n with
  | zero => simp
  | succ n ih =>
    rw [List.range_succ, List.flatMap_append, List.flatMap_singleton, List.length_append,
      ih fun k hk => hw k (by omega), hw n (by omega), Nat.succ_mul]

/-- `n` turns, of which the `k`-th writes the `k`-th block. -/
theorem Writes.loop (w : ℕ) {step : List α → ℕ → Option (List α)} {block : ℕ → List α} {n i : ℕ}
    (h : ∀ k < n, Writes (fun buf => step buf k) (i + k * w) (block k)) (hw : ∀ k < n, (block k).length = w) :
    Writes (fun buf => (List.range n).foldlM step buf) i ((List.range n).flatMap block) := by
  induction n with
  | zero => exact writes_nil i
  | succ n ih =>
    have hstep : Writes (fun buf => step buf n) (i + ((List.range n).flatMap block).length) (block n) := by
      rw [length_blocks fun k hk => hw k (by omega)]
      exact h n (by omega)
    have hseq := (ih (fun k hk => h k (by omega)) fun k hk => hw k (by omega)).seq hstep
    intro pre rest hpre hrest
    rw [List.range_succ, List.flatMap_append, List.flatMap_singleton] at hrest ⊢
    rw [← hseq pre rest hpre hrest]
    simp only [List.foldlM_append, List.foldlM_cons, List.foldlM_nil, bind_pure]

/-- A loop that ends had no turn that fails. -/
theorem foldlM_turn {step : β → ℕ → Option β} {n : ℕ} {b b' : β} (h : (List.range n).foldlM step b = some b') {k : ℕ}
    (hk : k < n) : ∃ c, step c k ≠ none := by
  induction n generalizing b' with
  | zero => cases hk
  | succ n ih =>
    rw [List.range_succ, List.foldlM_append, Option.bind_eq_bind, Option.bind_eq_some_iff] at h
    obtain ⟨c, hc, hlast⟩ := h
    rcases Nat.lt_succ_iff_lt_or_eq.1 hk with hk | rfl
    · exact ih hc hk
    · refine ⟨c, fun hnone => ?_⟩
      rw [List.foldlM_cons, hnone] at hlast
      cases hlast

/-- A loop that pushes what each turn reads. -/
theorem mapM_range {f : ℕ → Option β} {ys : List β} (h : ∀ k (hk : k < ys.length), f k = some ys[k]) :
    (List.range ys.length).mapM f = some ys := by
  induction ys using List.reverseRecOn with
  | nil => rfl
  | append_singleton ys y ih =>
    have hys : (List.range ys.length).mapM f = some ys := by
      apply ih
      intro k hk
      rw [h k (by simp; omega), List.getElem_append_left hk]
    have hy : f ys.length = some y := by
      rw [h ys.length (by simp)]
      simp
    rw [List.length_append, List.length_singleton, List.range_succ, List.mapM_append, hys]
    simp [hy]

/-- A step that reads first. -/
theorem Writes.bind {x : Option β} {y : β} {f : β → List α → Option (List α)} {i : ℕ} {b : List α} (hx : x = some y)
    (hf : Writes (f y) i b) : Writes (fun buf => x >>= fun y => f y buf) i b := by
  rw [hx]
  exact hf

end UserFace800.Lib.Buffer
