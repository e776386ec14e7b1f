import Mathlib.Order.Lattice
import Mathlib.Data.List.Basic
/-!
# Ordered maps

A map kept as a list of entries with strictly increasing keys, which is what
iterating a `std::map` shows. `set` is insert-or-assign, `front n` and `rest n`
are the first `n` entries in key order and the map without them.
-/

namespace UserFace800.Lib

variable {κ ν : Type} [LinearOrder κ]

/-- Entries with strictly increasing keys. -/
structure SortedMap (κ ν : Type) [LinearOrder κ] where
  entries : List (κ × ν)
  sorted : entries.Pairwise fun a b => a.1 < b.1

namespace SortedMap

/-- The empty map. -/
def empty : SortedMap κ ν := ⟨[], .nil⟩

/-- The value under key `k` in a list of entries. -/
def find (k : κ) : List (κ × ν) → Option ν
  | [] => none
  | e :: es => if e.1 = k then some e.2 else find k es

/-- The value of a key. -/
def get (m : SortedMap κ ν) (k : κ) : Option ν := find k m.entries

/-- Insert or assign, keeping the order. -/
def put (k : κ) (v : ν) : List (κ × ν) → List (κ × ν)
  | [] => [(k, v)]
  | e :: es => if k < e.1 then (k, v) :: e :: es else if k = e.1 then (k, v) :: es else e :: put k v es

theorem mem_put {k : κ} {v : ν} {es : List (κ × ν)} {e : κ × ν} (h : e ∈ put k v es) : e = (k, v) ∨ e ∈ es := by
  induction es with
  | nil => simpa [put] using h
  | cons d ds ih =>
    unfold put at h
    split at h
    · rcases List.mem_cons.1 h with h | h
      · exact .inl h
      · exact .inr h
    · split at h
      · rcases List.mem_cons.1 h with h | h
        · exact .inl h
        · exact .inr (List.mem_cons_of_mem _ h)
      · rcases List.mem_cons.1 h with h | h
        · exact .inr (h ▸ List.mem_cons_self)
        · exact (ih h).imp_right (List.mem_cons_of_mem _)

theorem put_sorted (k : κ) (v : ν) {es : List (κ × ν)} (h : es.Pairwise fun a b => a.1 < b.1) :
    (put k v es).Pairwise fun a b => a.1 < b.1 := by
  induction es with
  | nil => exact List.pairwise_singleton _ _
  | cons e es ih =>
    obtain ⟨he, hes⟩ := List.pairwise_cons.1 h
    unfold put
    split
    · rename_i hlt
      refine List.pairwise_cons.2 ⟨fun d hd => ?_, h⟩
      rcases List.mem_cons.1 hd with rfl | hd
      · exact hlt
      · exact lt_trans hlt (he d hd)
    · split
      · rename_i _ heq
        exact List.pairwise_cons.2 ⟨fun d hd => heq ▸ he d hd, hes⟩
      · rename_i hnlt hne
        refine List.pairwise_cons.2 ⟨fun d hd => ?_, ih hes⟩
        rcases mem_put hd with rfl | hd
        · exact lt_of_le_of_ne (not_lt.1 hnlt) fun h => hne h.symm
        · exact he d hd

/-- The key has this value now. -/
def set (m : SortedMap κ ν) (k : κ) (v : ν) : SortedMap κ ν := ⟨put k v m.entries, put_sorted k v m.sorted⟩

theorem find_put (k k' : κ) (v : ν) (es : List (κ × ν)) :
    find k' (put k v es) = if k = k' then some v else find k' es := by
  induction es with
  | nil => simp [put, find]
  | cons e es ih =>
    unfold put
    split
    · rfl
    · split
      · rename_i heq
        subst heq
        by_cases h : e.1 = k' <;> simp [find, h]
      · rename_i hne
        by_cases h : e.1 = k'
        · have hk : k ≠ k' := fun hk => hne (hk.trans h.symm)
          simp [find, h, hk]
        · simp [find, h, ih]

@[simp] theorem get_empty (k : κ) : (empty : SortedMap κ ν).get k = none := rfl

theorem get_set (m : SortedMap κ ν) (k k' : κ) (v : ν) :
    (m.set k v).get k' = if k = k' then some v else m.get k' :=
  find_put k k' v m.entries

theorem find_eq_some_iff {es : List (κ × ν)} (h : es.Pairwise fun a b => a.1 < b.1) (k : κ) (v : ν) :
    find k es = some v ↔ (k, v) ∈ es := by
  induction es with
  | nil => simp [find]
  | cons e es ih =>
    obtain ⟨he, hes⟩ := List.pairwise_cons.1 h
    by_cases hk : e.1 = k
    · subst hk
      simp only [find, if_true, Option.some.injEq, List.mem_cons]
      constructor
      · rintro rfl; exact .inl rfl
      · rintro (h | h)
        · rw [← h]
        · exact absurd (he _ h) (lt_irrefl _)
    · have : (k, v) ≠ e := fun h => hk (by rw [← h])
      simp [find, hk, ih hes, this]

theorem get_eq_some_iff (m : SortedMap κ ν) (k : κ) (v : ν) : m.get k = some v ↔ (k, v) ∈ m.entries :=
  find_eq_some_iff m.sorted k v

/-- The first `n` entries. -/
def front (m : SortedMap κ ν) (n : ℕ) : List (κ × ν) := m.entries.take n

/-- What is left without them. -/
def rest (m : SortedMap κ ν) (n : ℕ) : SortedMap κ ν := ⟨m.entries.drop n, m.sorted.drop⟩

theorem get_front {m : SortedMap κ ν} {n : ℕ} {e : κ × ν} (h : e ∈ m.front n) : m.get e.1 = some e.2 :=
  (m.get_eq_some_iff _ _).2 (List.mem_of_mem_take h)

theorem get_rest_of_not_front {m : SortedMap κ ν} {n : ℕ} {k : κ} (h : ∀ e ∈ m.front n, e.1 ≠ k) :
    (m.rest n).get k = m.get k := by
  apply Option.ext
  intro v
  rw [get_eq_some_iff, get_eq_some_iff]
  refine ⟨List.mem_of_mem_drop, fun hm => ?_⟩
  rw [← List.take_append_drop n m.entries, List.mem_append] at hm
  exact hm.resolve_left fun hf => h _ hf rfl

/-- Some value is stored under `k`. -/
def Has (m : SortedMap κ ν) (k : κ) : Prop := (m.get k).isSome

theorem not_has_empty (k : κ) : ¬ (empty : SortedMap κ ν).Has k := by
  unfold Has
  simp

theorem has_set (m : SortedMap κ ν) (k k' : κ) (v : ν) : (m.set k v).Has k' ↔ k = k' ∨ m.Has k' := by
  unfold Has
  rw [get_set]
  by_cases h : k = k' <;> simp [h]

/-- Every key is either among the first `n` entries or in what is left. -/
theorem has_split (m : SortedMap κ ν) (n : ℕ) (k : κ) : m.Has k ↔ (∃ e ∈ m.front n, e.1 = k) ∨ (m.rest n).Has k := by
  unfold Has
  by_cases h : ∃ e ∈ m.front n, e.1 = k
  · obtain ⟨e, he, rfl⟩ := h
    rw [get_front he]
    exact ⟨fun _ => .inl ⟨e, he, rfl⟩, fun _ => rfl⟩
  · have hne : ∀ e ∈ m.front n, e.1 ≠ k := fun e he hk => h ⟨e, he, hk⟩
    rw [get_rest_of_not_front hne]
    exact ⟨.inr, fun hk => hk.resolve_left h⟩

end SortedMap

end UserFace800.Lib
