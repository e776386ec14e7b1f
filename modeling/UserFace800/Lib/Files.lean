import Mathlib.Logic.Function.Basic
import Mathlib.Data.List.Basic
import Mathlib.Data.BitVec
/-!
# Files behind names

A directory maps names to inodes, and an inode is a list of words. A handle
writes to the inode it opened, at its own offset and through a buffer, whatever
happens to the name in the meantime: a rename moves the name and not the
handle. `Owns` is what a writer that has a name to itself can rely on, and the
rules below carry it from `create` through `put` and `flush` to the rename.
-/

namespace UserFace800.Lib

/-- Names, what they are names of, and the contents. -/
structure Files (N W : Type) where
  inode : ℕ → List W
  dir : N → Option ℕ
  /-- The next inode number. -/
  fresh : ℕ

/-- An open stream: its inode, its offset, and what it has not written yet. -/
structure Handle (W : Type) where
  inode : ℕ
  pos : ℕ
  buf : List W

/-- Writing `ws` at `pos`; a gap before it reads as zeros. -/
def overwrite {W : Type} [Zero W] (pos : ℕ) (ws file : List W) : List W :=
  file.take pos ++ List.replicate (pos - file.length) 0 ++ ws ++ file.drop (pos + ws.length)

theorem overwrite_end {W : Type} [Zero W] (ws file : List W) : overwrite file.length ws file = file ++ ws := by
  unfold overwrite
  simp

/-- `fwrite`: into the buffer. -/
def Handle.put {W : Type} (h : Handle W) (ws : List W) : Handle W := { h with buf := h.buf ++ ws }

namespace Files

variable {N W : Type}

/-- The contents under a name. -/
def file (fs : Files N W) (n : N) : Option (List W) := (fs.dir n).map fs.inode

/-- `fopen(n, "wb")`: truncate what the name has, else make it a new inode. -/
def create [DecidableEq N] (fs : Files N W) (n : N) : Files N W × Handle W :=
  match fs.dir n with
  | some k => ({ fs with inode := Function.update fs.inode k [] }, ⟨k, 0, []⟩)
  | none =>
    ({ inode := Function.update fs.inode fs.fresh []
       dir := Function.update fs.dir n (some fs.fresh)
       fresh := fs.fresh + 1 }, ⟨fs.fresh, 0, []⟩)

/-- The first `k` buffered words reach the inode. -/
def flush [Zero W] (fs : Files N W) (h : Handle W) (k : ℕ) : Files N W × Handle W :=
  ({ fs with inode := Function.update fs.inode h.inode (overwrite h.pos (h.buf.take k) (fs.inode h.inode)) },
    { h with pos := h.pos + (h.buf.take k).length, buf := h.buf.drop k })

/-- Moving name `a` over name `b`; there must be an `a`. -/
def rename [DecidableEq N] (fs : Files N W) (a b : N) : Option (Files N W) :=
  (fs.dir a).map fun k => { fs with dir := Function.update (Function.update fs.dir b (some k)) a none }

/-- The name is gone; an open file is not. -/
def remove [DecidableEq N] (fs : Files N W) (n : N) : Files N W := { fs with dir := Function.update fs.dir n none }

/-- Inode numbers are taken in order, and no inode has two names. -/
structure Wf (fs : Files N W) : Prop where
  lt : ∀ n k, fs.dir n = some k → k < fs.fresh
  inj : ∀ n m k, fs.dir n = some k → fs.dir m = some k → n = m

/-- The handle is the writer of the file under `n`, and has been given `c` since it opened it. -/
structure Owns (fs : Files N W) (h : Handle W) (n : N) (c : List W) : Prop where
  dir : fs.dir n = some h.inode
  pos : h.pos = (fs.inode h.inode).length
  given : fs.inode h.inode ++ h.buf = c

variable {fs : Files N W} {h : Handle W} {n : N} {c : List W}

/-! ## Writing -/

theorem Owns.put (ho : Owns fs h n c) (ws : List W) : Owns fs (h.put ws) n (c ++ ws) := by
  refine ⟨ho.dir, ho.pos, ?_⟩
  rw [← ho.given, List.append_assoc]
  rfl

theorem Owns.flush [Zero W] (ho : Owns fs h n c) (k : ℕ) : Owns (fs.flush h k).1 (fs.flush h k).2 n c := by
  unfold Files.flush
  rw [ho.pos, overwrite_end]
  refine ⟨ho.dir, ?_, ?_⟩
  · simp
  · simp only [Function.update_self, List.append_assoc, List.take_append_drop]
    exact ho.given

/-- Once everything given is flushed, the name has it. -/
theorem Owns.file [Zero W] (ho : Owns fs h n c) : (fs.flush h h.buf.length).1.file n = some c := by
  have hf := ho.flush h.buf.length
  have hb : (fs.flush h h.buf.length).2.buf = [] := List.drop_length
  have hg := hf.given
  rw [hb, List.append_nil] at hg
  unfold Files.file
  rw [hf.dir, Option.map_some, hg]

theorem flush_wf [Zero W] (hw : fs.Wf) (h : Handle W) (k : ℕ) : (fs.flush h k).1.Wf := ⟨hw.lt, hw.inj⟩

theorem file_flush [Zero W] (hw : fs.Wf) (hd : fs.dir n = some h.inode) {m : N} (hm : m ≠ n) (k : ℕ) :
    (fs.flush h k).1.file m = fs.file m := by
  unfold Files.flush Files.file
  cases hj : fs.dir m with
  | none => rfl
  | some j =>
    have hne : j ≠ h.inode := by
      rintro rfl
      exact hm (hw.inj m n _ hj hd)
    simp [Function.update_of_ne hne]

/-! ## Opening -/

variable [DecidableEq N]

theorem create_owns (fs : Files N W) (n : N) : Owns (fs.create n).1 (fs.create n).2 n [] := by
  unfold create
  split
  · rename_i k hk
    exact ⟨hk, by simp, by simp⟩
  · exact ⟨by simp, by simp, by simp⟩

theorem create_wf (hw : fs.Wf) (n : N) : (fs.create n).1.Wf := by
  unfold create
  split
  · exact ⟨hw.lt, hw.inj⟩
  · rename_i hn
    have hlt : ∀ m k, Function.update fs.dir n (some fs.fresh) m = some k → m ≠ n → fs.dir m = some k := by
      intro m k h hm
      rwa [Function.update_of_ne hm] at h
    have hself : ∀ k, Function.update fs.dir n (some fs.fresh) n = some k → k = fs.fresh := by
      intro k h
      rw [Function.update_self, Option.some.injEq] at h
      exact h.symm
    constructor
    · intro m k h
      by_cases hm : m = n
      · rw [hm] at h
        exact (hself k h) ▸ Nat.lt_succ_self _
      · exact Nat.lt_succ_of_lt (hw.lt m k (hlt m k h hm))
    · intro m m' k h h'
      by_cases hm : m = n <;> by_cases hm' : m' = n
      · rw [hm, hm']
      · rw [hm] at h
        exact absurd (hself k h) (Nat.ne_of_lt (hw.lt m' k (hlt m' k h' hm')))
      · rw [hm'] at h'
        exact absurd (hself k h') (Nat.ne_of_lt (hw.lt m k (hlt m k h hm)))
      · exact hw.inj m m' k (hlt m k h hm) (hlt m' k h' hm')

theorem file_create (hw : fs.Wf) {m : N} (hm : m ≠ n) : (fs.create n).1.file m = fs.file m := by
  unfold create file
  split
  · rename_i k hk
    cases hd : fs.dir m with
    | none => rfl
    | some j =>
      have hj : j ≠ k := by
        rintro rfl
        exact hm (hw.inj m n j hd hk)
      simp [Function.update_of_ne hj]
  · simp only [Function.update_of_ne hm]
    cases hd : fs.dir m with
    | none => rfl
    | some j => simp [Function.update_of_ne (Nat.ne_of_lt (hw.lt m j hd))]

/-! ## Renaming and removing -/

theorem rename_spec {a b : N} {fs' : Files N W} (hab : a ≠ b) (hw : fs.Wf) (hr : fs.rename a b = some fs') :
    fs'.Wf ∧ fs'.file b = fs.file a := by
  unfold rename at hr
  obtain ⟨k, hk, rfl⟩ := Option.map_eq_some_iff.1 hr
  have hdir : ∀ m j, Function.update (Function.update fs.dir b (some k)) a none m = some j →
      (m = b ∧ j = k) ∨ (m ≠ a ∧ fs.dir m = some j) := by
    intro m j h
    by_cases hma : m = a
    · simp [hma] at h
    · rw [Function.update_of_ne hma] at h
      by_cases hmb : m = b
      · rw [hmb, Function.update_self, Option.some.injEq] at h
        exact .inl ⟨hmb, h.symm⟩
      · rw [Function.update_of_ne hmb] at h
        exact .inr ⟨hma, h⟩
  refine ⟨⟨?_, ?_⟩, ?_⟩
  · intro m j h
    rcases hdir m j h with ⟨-, rfl⟩ | ⟨-, h⟩
    · exact hw.lt a _ hk
    · exact hw.lt m j h
  · intro m m' j h h'
    rcases hdir m j h with ⟨hm, hj⟩ | ⟨hma, h⟩ <;> rcases hdir m' j h' with ⟨hm', hj'⟩ | ⟨hma', h'⟩
    · rw [hm, hm']
    · exact absurd (hw.inj m' a k (hj ▸ h') hk) hma'
    · exact absurd (hw.inj m a k (hj' ▸ h) hk) hma
    · exact hw.inj m m' j h h'
  · unfold file
    simp [Function.update_of_ne hab.symm, hk]

theorem remove_wf (hw : fs.Wf) (n : N) : (fs.remove n).Wf := by
  have hdir : ∀ m j, (fs.remove n).dir m = some j → fs.dir m = some j := by
    intro m j h
    by_cases hm : m = n
    · simp [remove, hm] at h
    · simpa [remove, Function.update_of_ne hm] using h
  exact ⟨fun m j h => hw.lt m j (hdir m j h), fun m m' j h h' => hw.inj m m' j (hdir m j h) (hdir m' j h')⟩

theorem file_remove {m : N} (hm : m ≠ n) : (fs.remove n).file m = fs.file m := by
  unfold remove file
  simp [Function.update_of_ne hm]

end Files

end UserFace800.Lib
