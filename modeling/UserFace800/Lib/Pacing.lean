import Mathlib.Data.List.Basic
/-!
# Events paced in time

The times of some events, the latest first. They are paced if of any `n + 1` in a row the
last is `gap` after the first. `Paced.cons` is how such a list grows: the new event must be
`gap` after the `n`-th before it. `Paced.length_le` bounds how many events there are.
-/

namespace UserFace800.Lib

/-- Of `n + 1` successive times, latest first, the ends are `gap` apart. -/
def Paced (n gap : ℕ) (ts : List ℕ) : Prop := ∀ i a b, ts[i]? = some a → ts[i + n]? = some b → b + gap ≤ a

variable {n gap : ℕ} {ts : List ℕ}

theorem paced_nil : Paced n gap [] := fun _ _ _ h => nomatch h

theorem Paced.cons {t : ℕ} (h : Paced n gap ts) (ht : ∀ b, (t :: ts)[n]? = some b → b + gap ≤ t) :
    Paced n gap (t :: ts) := by
  intro i a b ha hb
  cases i with
  | zero =>
    rw [Nat.zero_add] at hb
    exact Option.some.inj ha ▸ ht b hb
  | succ i =>
    rw [Nat.add_right_comm, List.getElem?_cons_succ] at hb
    exact h i a b ha hb

theorem Paced.of_append {us : List ℕ} (h : Paced n gap (us ++ ts)) : Paced n gap us := by
  intro i a b ha hb
  refine h i a b ?_ ?_
  · rw [List.getElem?_append_left (List.getElem?_eq_some_iff.1 ha).1, ha]
  · rw [List.getElem?_append_left (List.getElem?_eq_some_iff.1 hb).1, hb]

theorem Paced.drop (h : Paced n gap ts) (k : ℕ) : Paced n gap (ts.drop k) := by
  intro i a b ha hb
  rw [List.getElem?_drop] at ha hb
  exact h (k + i) a b ha (by rwa [Nat.add_assoc])

/-- At most `n` events each `gap`. -/
theorem Paced.length_le (hn : 0 < n) (hgap : 0 < gap) {lo hi : ℕ} (h : Paced n gap ts) (hsorted : ts.Pairwise (· ≥ ·))
    (hlo : ∀ t ∈ ts, lo ≤ t) (hhi : ∀ t ∈ ts, t ≤ hi) : ts.length ≤ n * ((hi - lo) / gap + 1) := by
  induction hlen : ts.length using Nat.strongRecOn generalizing ts hi with
  | ind len ih =>
    rcases Nat.lt_or_ge n len with hlong | hshort
    · have hb : n < ts.length := hlen ▸ hlong
      have ha : 0 < ts.length := by omega
      -- the `n`-th event is `gap` before the first, and so are those before it
      have hfar := h 0 ts[0] ts[n] (List.getElem?_eq_getElem ha) (by rw [Nat.zero_add, List.getElem?_eq_getElem hb])
      have htop := hhi _ (List.getElem_mem ha)
      have hbottom := hlo _ (List.getElem_mem hb)
      have hrest : ∀ t ∈ ts.drop n, t ≤ ts[n] := by
        intro t ht
        rw [List.drop_eq_getElem_cons hb] at ht
        rcases List.mem_cons.1 ht with rfl | ht
        · exact Nat.le_refl _
        · have hp := hsorted.drop (i := n)
          rw [List.drop_eq_getElem_cons hb, List.pairwise_cons] at hp
          exact hp.1 t ht
      have hcount := ih (len - n) (by omega) (h.drop n) (hsorted.drop) (fun t ht => hlo t (List.mem_of_mem_drop ht))
        (fun t ht => Nat.le_trans (hrest t ht) (show ts[n] ≤ hi - gap by omega)) (by rw [List.length_drop, hlen])
      have hdiv : (hi - lo) / gap = (hi - gap - lo) / gap + 1 := by
        rw [show hi - lo = hi - gap - lo + gap by omega, Nat.add_div_right _ hgap]
      rw [hdiv, Nat.mul_add, Nat.mul_one]
      omega
    · exact Nat.le_trans hshort (Nat.le_mul_of_pos_right n (Nat.succ_pos _))

end UserFace800.Lib
