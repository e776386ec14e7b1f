import Mathlib.Data.List.Basic
import Mathlib.Data.BitVec
/-!
# Folding point writes into a memory

`PointWrite read write hits val`: a write `w` stores `val w` at the locations it
hits and leaves every other location alone. After a list of such writes that
agree on what belongs where (each stores `f i` wherever it lands), a location
holds `f i` if it was hit and its old contents if not (`foldl_writes`), in
whatever order the writes went.
-/

namespace UserFace800.Lib

variable {σ ω ι ν : Type}

/-- `write` stores `val w` where `w` hits and nothing elsewhere. -/
def PointWrite (read : σ → ι → ν) (write : σ → ω → σ) (hits : ω → ι → Prop) (val : ω → ν) : Prop :=
  ∀ s w i, (hits w i → read (write s w) i = val w) ∧ (¬ hits w i → read (write s w) i = read s i)

variable {read : σ → ι → ν} {write : σ → ω → σ} {hits : ω → ι → Prop} {val : ω → ν}

theorem foldl_missed (hw : PointWrite read write hits val) (ws : List ω) (s : σ) (i : ι)
    (h : ∀ w ∈ ws, ¬ hits w i) : read (ws.foldl write s) i = read s i := by
  induction ws generalizing s with
  | nil => rfl
  | cons w ws ih =>
    rw [List.foldl_cons, ih _ fun v hv => h v (by simp [hv])]
    exact (hw s w i).2 (h w (by simp))

/-- Writes that agree with `f` leave `f i` at every location they hit. -/
theorem foldl_hit (hw : PointWrite read write hits val) (f : ι → ν) (ws : List ω) (s : σ) (i : ι)
    (hf : ∀ w ∈ ws, hits w i → val w = f i) (h : ∃ w ∈ ws, hits w i) : read (ws.foldl write s) i = f i := by
  induction ws generalizing s with
  | nil => obtain ⟨w, hm, _⟩ := h; cases hm
  | cons w ws ih =>
    rw [List.foldl_cons]
    by_cases hrest : ∃ v ∈ ws, hits v i
    · exact ih _ (fun v hv => hf v (by simp [hv])) hrest
    · -- `w` is the last write to land here
      rw [foldl_missed hw _ _ _ fun v hv hh => hrest ⟨v, hv, hh⟩]
      obtain ⟨v, hv, hh⟩ := h
      rcases List.mem_cons.1 hv with rfl | hv
      · rw [(hw s v i).1 hh, hf v (by simp) hh]
      · exact absurd ⟨v, hv, hh⟩ hrest

/-- Writes that agree with a memory already holding `f` there change nothing. -/
theorem foldl_keep (hw : PointWrite read write hits val) (f : ι → ν) (ws : List ω) (s : σ) (i : ι)
    (hf : ∀ w ∈ ws, hits w i → val w = f i) (hs : read s i = f i) : read (ws.foldl write s) i = f i := by
  by_cases h : ∃ w ∈ ws, hits w i
  · exact foldl_hit hw f ws s i hf h
  · rw [foldl_missed hw _ _ _ fun w hw hh => h ⟨w, hw, hh⟩, hs]

end UserFace800.Lib
