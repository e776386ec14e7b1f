import Mathlib.Data.List.Basic
/-!
# Scripts

A party that carries out a list of operations, one at a time, may be looked at, or stopped,
between any two of them. `Along exec P Q s is` says that `P` holds at each of these points
and `Q` at the end. `along_append` composes scripts: what the first leaves is what the
second begins in.
-/

namespace UserFace800.Lib

variable {σ ι : Type} {exec : σ → ι → σ} {P Q : σ → Prop} {s : σ}

/-- While the instructions run `P` holds, and `Q` at their end. -/
def Along (exec : σ → ι → σ) (P Q : σ → Prop) (s : σ) (is : List ι) : Prop :=
  (∀ js, js <+: is → P (js.foldl exec s)) ∧ Q (is.foldl exec s)

theorem along_nil : Along exec P Q s [] ↔ P s ∧ Q s := by
  simp [Along]

theorem along_cons {i : ι} {is : List ι} : Along exec P Q s (i :: is) ↔ P s ∧ Along exec P Q (exec s i) is := by
  constructor
  · rintro ⟨hP, hQ⟩
    exact ⟨hP [] (List.nil_prefix), fun js hjs => hP (i :: js) ((List.prefix_cons_inj i).2 hjs), hQ⟩
  · rintro ⟨hs, hP, hQ⟩
    refine ⟨fun js hjs => ?_, hQ⟩
    cases js with
    | nil => exact hs
    | cons j js =>
      obtain ⟨rfl, hrest⟩ := List.cons_prefix_cons.1 hjs
      exact hP js hrest

theorem Along.now {is : List ι} (h : Along exec P Q s is) : P s := h.1 [] List.nil_prefix

theorem along_append {is js : List ι} :
    Along exec P Q s (is ++ js) ↔ Along exec P (fun t => Along exec P Q t js) s is := by
  induction is generalizing s with
  | nil => exact ⟨fun h => along_nil.2 ⟨h.now, h⟩, fun h => (along_nil.1 h).2⟩
  | cons i is ih =>
    rw [List.cons_append, along_cons, along_cons, ih]

theorem Along.mono {Q' : σ → Prop} {is : List ι} (h : Along exec P Q s is) (hQ : ∀ t, P t → Q t → Q' t) :
    Along exec P Q' s is := ⟨h.1, hQ _ (h.1 is (List.prefix_refl is)) h.2⟩

/-- Operations that change nothing. -/
theorem Along.idle {is : List ι} (hP : P s) (hQ : Q s) (h : ∀ i ∈ is, exec s i = s) : Along exec P Q s is := by
  induction is with
  | nil => exact along_nil.2 ⟨hP, hQ⟩
  | cons i is ih =>
    refine along_cons.2 ⟨hP, ?_⟩
    rw [h i List.mem_cons_self]
    exact ih fun j hj => h j (List.mem_cons_of_mem _ hj)

end UserFace800.Lib
