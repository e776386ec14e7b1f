import UserFace800.Lib.Run
import UserFace800.Lib.Files
import Mathlib.Data.List.OfFn
/-!
# Saving the mixer state

The pump publishes a snapshot of the mixer model (`g_stateSnap`, then the bump
of `g_stateSnapSeq`), the saver thread writes it to the state file once it has
been stable for a second, and `~SaverGuard` writes it once more at shutdown.
All three work on shared words and on one temporary file. The file at
`state_path()` is a whole published snapshot as long as no one writes the
snapshot while it is being read and the two savers do not share the temporary
file (`whole_snapshot`); `torn_snapshot` is the run in which the pump does.
-/
open UserFace800.Lib

namespace UserFace800.Store

/-- A word of the state file. -/
abbrev Word := BitVec 32

/-- `kMagic` of the state file, "UFS1". -/
def kStateMagic : Word := 0x55465331
/-- The version written today, whose size is in bytes. -/
def kStateVersion : Word := 2

/-- `sizeof(MixerModel::Blob) / 4`. -/
def kBlobWords : ℕ := 1997

theorem kBlobWords_eq : kBlobWords = 1997 := rfl

/-- `MixerModel::Blob`, word by word. -/
abbrev Blob := Fin kBlobWords → Word

/-- A blob as the words `fwrite` writes. -/
def words (b : Blob) : List Word := List.ofFn b

/-- `StateHeader`: magic, version, bytes, reserved. -/
def header : List Word := [kStateMagic, kStateVersion, BitVec.ofNat 32 (4 * kBlobWords), 0]

/-- The file a whole save of `b` leaves. -/
def image (b : Blob) : List Word := header ++ words b

/-- `state_path()`, and that with `.tmp` after it. -/
inductive Name where
  | state | tmp
  deriving DecidableEq

/-- The two names and what they are names of. -/
abbrev Fs := Files Name Word

/-! ## `save_blob` -/

/-- Where a call of `save_blob` is. After a short write `failed` is true and
the stream is closed without writing more. -/
inductive Save where
  | opening
  | header (h : Handle Word)
  | data (h : Handle Word) (i : ℕ)
  | failed (h : Handle Word)
  | rename
  | remove
  | done (ok : Bool)

/-- One step of `save_blob`. Every call into the C library may fail, and the
stream may pass buffered words on at any time. -/
inductive SaveAct where
  | fopen (ok : Bool)
  | fwriteHeader (ok : Bool)
  | fwriteWord (ok : Bool)
  | drain (n : ℕ)
  | fclose (n : ℕ) (ok : Bool)
  | rename (ok : Bool)
  | remove (ok : Bool)

/-- `fclose`: the rest of the buffer reaches the file, or only `n` words of it. -/
def Save.fclose (fs : Fs) (h : Handle Word) (written : Bool) (n : ℕ) (ok : Bool) : Fs × Save :=
  if ok then ((fs.flush h h.buf.length).1, if written then .rename else .remove)
  else ((fs.flush h n).1, .remove)

/-- Where a call goes on, by what the C library says. -/
def Save.step (snap : Blob) (fs : Fs) : Save → SaveAct → Option (Fs × Save)
  | .opening, .fopen ok => some (if ok then ((fs.create .tmp).1, .header (fs.create .tmp).2) else (fs, .done false))
  | .header h, .fwriteHeader ok => some (fs, if ok then .data (h.put Store.header) 0 else .failed h)
  | .header h, .drain n => some ((fs.flush h n).1, .header (fs.flush h n).2)
  | .data h i, .fwriteWord ok =>
    if hi : i < kBlobWords then some (fs, if ok then .data (h.put [snap ⟨i, hi⟩]) (i + 1) else .failed h) else none
  | .data h i, .drain n => some ((fs.flush h n).1, .data (fs.flush h n).2 i)
  | .data h i, .fclose n ok => if i = kBlobWords then some (Save.fclose fs h true n ok) else none
  | .failed h, .drain n => some ((fs.flush h n).1, .failed (fs.flush h n).2)
  | .failed h, .fclose n ok => some (Save.fclose fs h false n ok)
  | .rename, .rename ok => if ok then (fs.rename .tmp .state).map fun fs' => (fs', .done true) else some (fs, .remove)
  | .remove, .remove ok => some (if ok then fs.remove .tmp else fs, .done false)
  | _, _ => none

/-- Between the call's `fopen` and its `rename` or `remove`. -/
def Save.Holds : Save → Prop
  | .opening | .done _ => False
  | _ => True

/-- Some words of the snapshot are read and some are not. -/
def Save.Reading : Save → Prop
  | .data _ i => 0 < i ∧ i < kBlobWords
  | _ => False

/-! ## The daemon -/

/-- The main thread: the pump, then `~SaverGuard`. -/
inductive Pump where
  | idle
  | publishing (b : Blob) (i : ℕ)
  | saving (v : Save)
  | stopping
  | joining
  | exited

/-- Where the saver thread is. -/
inductive SaverPc where
  | loop
  | asleep
  | saving (seq : ℕ) (v : Save)
  | exited

/-- The saver thread. -/
structure Saver where
  seen : ℕ := 0
  lastSeq : ℕ := 0
  stable : ℕ := 0
  pc : SaverPc := .loop

/-- After the nap: whether there is something new that has been stable. -/
def Saver.wake (v : Saver) (seq : ℕ) : Saver :=
  if seq ≠ v.lastSeq then { v with lastSeq := seq, stable := 0, pc := .loop }
  else if seq = v.seen ∨ seq = 0 then { v with pc := .loop }
  else if v.stable + 1 < 4 then { v with stable := v.stable + 1, pc := .loop }
  else { v with stable := v.stable + 1, pc := .saving seq .opening }

/-- `published` is what the pump has published so far, latest first, and
`earlier` what an earlier run left in the file. -/
structure World where
  snap : Blob
  seq : ℕ := 0
  run : Bool := true
  fs : Fs
  pump : Pump := .idle
  saver : Saver := {}
  published : List Blob := []
  earlier : Option Blob

/-- One step of the main thread, up to `finish` of `~SaverGuard`, or of the saver thread. -/
inductive Act where
  | publish (b : Blob)
  | word
  | bump
  | shutdown
  | guard (a : SaveAct)
  | stop
  | join
  | check
  | wake
  | save (a : SaveAct)
  | finish

namespace World

/-- `to_blob` is copied into the snapshot word by word. -/
def copyWord (s : World) : Option World :=
  match s.pump with
  | .publishing b i =>
    if hi : i < kBlobWords then
      some { s with snap := Function.update s.snap ⟨i, hi⟩ (b ⟨i, hi⟩), pump := .publishing b (i + 1) }
    else none
  | _ => none

/-- The whole snapshot is copied, and its sequence number counted up. -/
def bump (s : World) : Option World :=
  match s.pump with
  | .publishing b i =>
    if i = kBlobWords then
      some { s with seq := (s.seq + 1) % 2 ^ 64, pump := .idle, published := b :: s.published }
    else none
  | _ => none

/-- A step of the last save, in `~SaverGuard`. -/
def guardStep (s : World) (a : SaveAct) : Option World :=
  match s.pump with
  | .saving v => (v.step s.snap s.fs a).map fun r => { s with fs := r.1, pump := .saving r.2 }
  | _ => none

/-- `g_stateRun.store(false)`, after the final save if there was one. -/
def stop (s : World) : Option World :=
  match s.pump with
  | .stopping | .saving (.done _) => some { s with run := false, pump := .joining }
  | _ => none

/-- A step of a save of the saver thread. -/
def saverStep (s : World) (a : SaveAct) : Option World :=
  match s.saver.pc with
  | .saving q v => (v.step s.snap s.fs a).map fun r => { s with fs := r.1, saver.pc := .saving q r.2 }
  | _ => none

/-- The saver thread has saved, or will try again. -/
def finish (s : World) : Option World :=
  match s.saver.pc with
  | .saving q (.done ok) =>
    some { s with saver := { s.saver with seen := if ok then q else s.saver.seen, pc := .loop } }
  | _ => none

/-- The main thread and the saver thread, step by step. -/
def step (s : World) : Act → Option World
  | .publish b => match s.pump with
    | .idle => some { s with pump := .publishing b 0 }
    | _ => none
  | .word => s.copyWord
  | .bump => s.bump
  | .shutdown => match s.pump with
    | .idle => some { s with pump := if s.seq ≠ 0 then .saving .opening else .stopping }
    | _ => none
  | .guard a => s.guardStep a
  | .stop => s.stop
  | .join => match s.pump, s.saver.pc with
    | .joining, .exited => some { s with pump := .exited }
    | _, _ => none
  | .check => match s.saver.pc with
    | .loop => some { s with saver.pc := if s.run then .asleep else .exited }
    | _ => none
  | .wake => match s.saver.pc with
    | .asleep => some { s with saver := s.saver.wake s.seq }
    | _ => none
  | .save a => s.saverStep a
  | .finish => s.finish

end World

/-- A daemon at start: an empty snapshot, and on disk what an earlier run left,
if anything, with perhaps a stale temporary file. -/
def boot (earlier : Option Blob) (leftover : Option (List Word)) : World where
  snap := fun _ => 0
  fs :=
    { inode := fun k => if k = 0 then (earlier.map image).getD [] else leftover.getD []
      dir := fun n => match n with
        | .state => earlier.map fun _ => 0
        | .tmp => leftover.map fun _ => 1
      fresh := 2 }
  earlier

/-! ## When the snapshots stay whole -/

/-- Part of a publication's words are written, or all and the bump is still to come. -/
def Pump.Midway : Pump → Prop
  | .publishing _ i => 0 < i
  | _ => False

/-- The last save has the temporary file. -/
def Pump.Holds : Pump → Prop
  | .saving v => v.Holds
  | _ => False

/-- The saver thread has the temporary file. -/
def SaverPc.Holds : SaverPc → Prop
  | .saving _ v => v.Holds
  | _ => False

/-- The saver thread is part way through the snapshot. -/
def SaverPc.Reading : SaverPc → Prop
  | .saving _ v => v.Reading
  | _ => False

/-- The step leaves snapshot and temporary file to whoever is using them: no
word is copied into the snapshot while the saver is part way through it, the
saver reads no word of a publication under way, and no save opens the temporary
file while the other has it. -/
def World.Apart (s : World) : Act → Prop
  | .word => ¬ s.saver.pc.Reading
  | .save (.fwriteWord _) => ¬ s.pump.Midway
  | .save (.fopen _) => ¬ s.pump.Holds
  | .guard (.fopen _) => ¬ s.saver.pc.Holds
  | _ => True

/-- What a file at `state_path()` must be. -/
def World.Whole (s : World) : Prop :=
  ∀ f, s.fs.file .state = some f → ∃ b, (b ∈ s.published ∨ s.earlier = some b) ∧ f = image b

/-! ## One save -/

/-- A save under way has written the first words of one published snapshot, and
until it has read them all the shared snapshot is that one. -/
def Save.Sound (published : List Blob) (snap : Blob) (fs : Fs) : Save → Prop
  | .header h => fs.Owns h .tmp []
  | .data h i => i ≤ kBlobWords ∧ ∃ b ∈ published, fs.Owns h .tmp (Store.header ++ (words b).take i) ∧
      (0 < i → i < kBlobWords → snap = b)
  | .failed h => fs.dir .tmp = some h.inode
  | .rename => ∃ b ∈ published, fs.file .tmp = some (image b)
  | _ => True

theorem Save.Sound.mono {published : List Blob} {snap : Blob} {fs : Fs} {v : Save} (hs : v.Sound published snap fs)
    (b : Blob) : v.Sound (b :: published) snap fs := by
  cases v with
  | data h i =>
    obtain ⟨hi, b', hb', ho, hr⟩ := hs
    exact ⟨hi, b', List.mem_cons_of_mem _ hb', ho, hr⟩
  | rename =>
    obtain ⟨b', hb', hf⟩ := hs
    exact ⟨b', List.mem_cons_of_mem _ hb', hf⟩
  | _ => exact hs

/-- The snapshot may be written while no save is part way through it. -/
theorem Save.Sound.snap {published : List Blob} {snap snap' : Blob} {fs : Fs} {v : Save}
    (hs : v.Sound published snap fs) (hr : ¬ v.Reading) : v.Sound published snap' fs := by
  cases v with
  | data h i =>
    obtain ⟨hi, b, hb, ho, -⟩ := hs
    exact ⟨hi, b, hb, ho, fun h0 hn => absurd ⟨h0, hn⟩ hr⟩
  | _ => exact hs

theorem take_words (b : Blob) {i : ℕ} (hi : i < kBlobWords) :
    (words b).take i ++ [b ⟨i, hi⟩] = (words b).take (i + 1) := by
  have hl : i < (words b).length := by
    rw [words, List.length_ofFn]
    exact hi
  have hg : (words b)[i] = b ⟨i, hi⟩ := List.getElem_ofFn _
  rw [List.take_succ_eq_append_getElem hl, hg]

theorem take_all (b : Blob) : (words b).take kBlobWords = words b :=
  List.take_of_length_le (le_of_eq (List.length_ofFn))

/-- The first word decides which snapshot it is, the others go after it. -/
theorem Save.Sound.word {published : List Blob} {snap : Blob} {fs : Fs} {hd : Handle Word} {i : ℕ}
    (hs : (Save.data hd i).Sound published snap fs) (hmem : snap ∈ published) (hlt : i < kBlobWords) :
    (Save.data (hd.put [snap ⟨i, hlt⟩]) (i + 1)).Sound published snap fs := by
  obtain ⟨-, b, -, ho, hr⟩ := hs
  refine ⟨hlt, snap, hmem, ?_, fun _ _ => rfl⟩
  have hpre : Store.header ++ (words b).take i = Store.header ++ (words snap).take i := by
    rcases Nat.eq_zero_or_pos i with rfl | hpos
    · rw [List.take_zero, List.take_zero]
    · rw [hr hpos hlt]
  have hput := ho.put [snap ⟨i, hlt⟩]
  rw [hpre, List.append_assoc, take_words] at hput
  exact hput

/-- What the buffer holds reaches the temporary file only. -/
theorem flush_tmp {fs : Fs} {hd : Handle Word} (hw : fs.Wf) (hdir : fs.dir .tmp = some hd.inode) (n : ℕ) :
    (fs.flush hd n).1.Wf ∧ (fs.flush hd n).1.file .state = fs.file .state :=
  ⟨Files.flush_wf hw hd n, Files.file_flush hw hdir (by decide) n⟩

theorem state_ne_tmp : Name.state ≠ Name.tmp := by decide

section
variable {snap : Blob} {fs fs' : Fs} {v v' : Save} {a : SaveAct} {published : List Blob}

theorem Save.opening_sound (hw : fs.Wf) (h : Save.opening.step snap fs a = some (fs', v')) :
    fs'.Wf ∧ v'.Sound published snap fs' ∧ fs'.file .state = fs.file .state := by
  cases a with
  | fopen ok =>
    cases ok with
    | true =>
      cases h
      exact ⟨Files.create_wf hw .tmp, Files.create_owns fs Name.tmp, Files.file_create hw state_ne_tmp⟩
    | false =>
      cases h
      exact ⟨hw, trivial, rfl⟩
  | _ => cases h

theorem Save.header_sound {hd : Handle Word} (hw : fs.Wf) (hs : (Save.header hd).Sound published snap fs)
    (hne : published ≠ []) (h : (Save.header hd).step snap fs a = some (fs', v')) :
    fs'.Wf ∧ v'.Sound published snap fs' ∧ fs'.file .state = fs.file .state := by
  cases a with
  | fwriteHeader ok =>
    cases h
    cases ok with
    | true =>
      obtain ⟨b, hb⟩ := List.exists_mem_of_ne_nil _ hne
      exact ⟨hw, ⟨Nat.zero_le _, b, hb, hs.put Store.header, fun h0 => absurd h0 (lt_irrefl 0)⟩, rfl⟩
    | false => exact ⟨hw, hs.dir, rfl⟩
  | drain n =>
    cases h
    obtain ⟨hw', hstate⟩ := flush_tmp hw hs.dir n
    exact ⟨hw', hs.flush n, hstate⟩
  | _ => cases h

theorem Save.data_sound {hd : Handle Word} {i : ℕ} (hw : fs.Wf) (hs : (Save.data hd i).Sound published snap fs)
    (hsnap : ∀ ok, a = .fwriteWord ok → snap ∈ published) (h : (Save.data hd i).step snap fs a = some (fs', v')) :
    fs'.Wf ∧ v'.Sound published snap fs' ∧ fs'.file .state = fs.file .state := by
  cases a with
  | fwriteWord ok =>
    have hmem := hsnap ok rfl
    simp only [Save.step] at h
    split at h
    · rename_i hlt
      cases h
      cases ok with
      | true => exact ⟨hw, hs.word hmem hlt, rfl⟩
      | false =>
        obtain ⟨-, b, -, ho, -⟩ := hs
        exact ⟨hw, ho.dir, rfl⟩
    · cases h
  | drain n =>
    cases h
    obtain ⟨hi, b, hb, ho, hr⟩ := hs
    obtain ⟨hw', hstate⟩ := flush_tmp hw ho.dir n
    exact ⟨hw', ⟨hi, b, hb, ho.flush n, hr⟩, hstate⟩
  | fclose n ok =>
    obtain ⟨-, b, hb, ho, -⟩ := hs
    simp only [Save.step] at h
    split at h
    · rename_i hall
      rw [hall, take_all] at ho
      cases ok with
      | true =>
        cases h
        obtain ⟨hw', hstate⟩ := flush_tmp hw ho.dir hd.buf.length
        exact ⟨hw', ⟨b, hb, ho.file⟩, hstate⟩
      | false =>
        cases h
        obtain ⟨hw', hstate⟩ := flush_tmp hw ho.dir n
        exact ⟨hw', trivial, hstate⟩
    · cases h
  | _ => cases h

theorem Save.failed_sound {hd : Handle Word} (hw : fs.Wf) (hs : (Save.failed hd).Sound published snap fs)
    (h : (Save.failed hd).step snap fs a = some (fs', v')) :
    fs'.Wf ∧ v'.Sound published snap fs' ∧ fs'.file .state = fs.file .state := by
  cases a with
  | drain n =>
    cases h
    obtain ⟨hw', hstate⟩ := flush_tmp hw hs n
    exact ⟨hw', hs, hstate⟩
  | fclose n ok =>
    cases ok with
    | true =>
      cases h
      obtain ⟨hw', hstate⟩ := flush_tmp hw hs hd.buf.length
      exact ⟨hw', trivial, hstate⟩
    | false =>
      cases h
      obtain ⟨hw', hstate⟩ := flush_tmp hw hs n
      exact ⟨hw', trivial, hstate⟩
  | _ => cases h

/-- The rename puts the published snapshot in the state file's place. -/
theorem Save.rename_sound (hw : fs.Wf) (hs : Save.rename.Sound published snap fs)
    (h : Save.rename.step snap fs a = some (fs', v')) : fs'.Wf ∧ v'.Sound published snap fs' ∧
      (fs'.file .state = fs.file .state ∨ ∃ b ∈ published, fs'.file .state = some (image b)) := by
  cases a with
  | rename ok =>
    simp only [Save.step] at h
    split at h
    · obtain ⟨fs1, hf, he⟩ := Option.map_eq_some_iff.1 h
      cases he
      obtain ⟨b, hb, hfile⟩ := hs
      obtain ⟨hw', hmoved⟩ := Files.rename_spec state_ne_tmp.symm hw hf
      exact ⟨hw', trivial, .inr ⟨b, hb, hmoved.trans hfile⟩⟩
    · cases h
      exact ⟨hw, trivial, .inl rfl⟩
  | _ => cases h

theorem Save.remove_sound (hw : fs.Wf) (h : Save.remove.step snap fs a = some (fs', v')) :
    fs'.Wf ∧ v'.Sound published snap fs' ∧ fs'.file .state = fs.file .state := by
  cases a with
  | remove ok =>
    cases h
    cases ok with
    | true => exact ⟨Files.remove_wf hw .tmp, trivial, Files.file_remove state_ne_tmp⟩
    | false => exact ⟨hw, trivial, rfl⟩
  | _ => cases h

/-- A step of a save keeps it sound, and changes the state file to a published
snapshot or not at all. -/
theorem Save.step_sound (hw : fs.Wf) (hs : v.Sound published snap fs)
    (hsnap : ∀ ok, a = .fwriteWord ok → snap ∈ published)
    (hne : published ≠ []) (h : v.step snap fs a = some (fs', v')) :
    fs'.Wf ∧ v'.Sound published snap fs' ∧
      (fs'.file .state = fs.file .state ∨ ∃ b ∈ published, fs'.file .state = some (image b)) := by
  cases v with
  | opening =>
    obtain ⟨hw', hs', hstate⟩ := Save.opening_sound hw h
    exact ⟨hw', hs', .inl hstate⟩
  | header hd =>
    obtain ⟨hw', hs', hstate⟩ := Save.header_sound hw hs hne h
    exact ⟨hw', hs', .inl hstate⟩
  | data hd i =>
    obtain ⟨hw', hs', hstate⟩ := Save.data_sound hw hs hsnap h
    exact ⟨hw', hs', .inl hstate⟩
  | failed hd =>
    obtain ⟨hw', hs', hstate⟩ := Save.failed_sound hw hs h
    exact ⟨hw', hs', .inl hstate⟩
  | rename => exact Save.rename_sound hw hs h
  | remove =>
    obtain ⟨hw', hs', hstate⟩ := Save.remove_sound hw h
    exact ⟨hw', hs', .inl hstate⟩
  | done ok => cases a <;> cases h

end

/-- A save that takes a step has the temporary file or opens it. -/
theorem Save.holds_or_opens {snap : Blob} {fs : Fs} {v : Save} {a : SaveAct} {r : Fs × Save}
    (h : v.step snap fs a = some r) : v.Holds ∨ ∃ ok, a = .fopen ok := by
  cases v with
  | opening =>
    cases a with
    | fopen ok => exact .inr ⟨ok, rfl⟩
    | _ => cases h
  | done ok => cases a <;> cases h
  | _ => exact .inl trivial

theorem Save.Sound.of_idle {published : List Blob} {snap : Blob} {fs : Fs} {v : Save} (hv : ¬ v.Holds) :
    v.Sound published snap fs := by
  cases v with
  | opening | done => trivial
  | _ => exact absurd trivial hv

/-! ## The run -/

/-- While the pump is not publishing, the snapshot is one it has published. -/
def Pump.Sound (published : List Blob) (snap : Blob) (fs : Fs) : Pump → Prop
  | .publishing b i => (∀ j : Fin kBlobWords, j.val < i → snap j = b j) ∧ (i = 0 → published ≠ [] → snap ∈ published)
  | .saving v => snap ∈ published ∧ v.Sound published snap fs
  | _ => published ≠ [] → snap ∈ published

/-- A save of the saver thread is sound, and something was published before it. -/
def SaverPc.Sound (published : List Blob) (snap : Blob) (fs : Fs) : SaverPc → Prop
  | .saving _ v => published ≠ [] ∧ v.Sound published snap fs
  | _ => True

theorem Pump.Sound.mem {published : List Blob} {snap : Blob} {fs : Fs} {p : Pump} (h : p.Sound published snap fs)
    (hm : ¬ p.Midway) (hp : published ≠ []) : snap ∈ published := by
  cases p with
  | publishing b i => exact h.2 (Nat.eq_zero_of_not_pos hm) hp
  | saving v => exact h.1
  | _ => exact h hp

theorem Pump.Sound.of_idle {published : List Blob} {snap : Blob} {fs fs' : Fs} {p : Pump}
    (h : p.Sound published snap fs) (hp : ¬ p.Holds) : p.Sound published snap fs' := by
  cases p with
  | saving v => exact ⟨h.1, .of_idle hp⟩
  | _ => exact h

theorem SaverPc.Sound.of_idle {published : List Blob} {snap : Blob} {fs fs' : Fs} {pc : SaverPc}
    (h : pc.Sound published snap fs) (hp : ¬ pc.Holds) : pc.Sound published snap fs' := by
  cases pc with
  | saving q v => exact ⟨h.1, .of_idle hp⟩
  | _ => trivial

namespace World

/-- What every state reached by steps that keep apart satisfies. -/
structure Inv (s : World) : Prop where
  wf : s.fs.Wf
  whole : s.Whole
  seq : s.seq ≠ 0 → s.published ≠ []
  pump : s.pump.Sound s.published s.snap s.fs
  saver : s.saver.pc.Sound s.published s.snap s.fs
  apart : s.pump.Holds → ¬ s.saver.pc.Holds

variable {s t : World}

theorem Whole.of_file {fs : Fs} (hw : s.Whole)
    (hf : fs.file .state = s.fs.file .state ∨ ∃ b ∈ s.published, fs.file .state = some (image b)) :
    ∀ f, fs.file .state = some f → ∃ b, (b ∈ s.published ∨ s.earlier = some b) ∧ f = image b := by
  intro f hff
  rcases hf with he | ⟨b, hb, he⟩
  · exact hw f (he ▸ hff)
  · rw [he, Option.some.injEq] at hff
    exact ⟨b, .inl hb, hff.symm⟩

theorem copyWord_inv (hi : s.Inv) (ha : s.Apart .word) (h : s.copyWord = some t) : t.Inv := by
  unfold copyWord at h
  split at h
  · rename_i b i hp
    split at h
    · rename_i hlt
      cases h
      have hpump := hi.pump
      rw [hp] at hpump
      refine ⟨hi.wf, hi.whole, hi.seq, ⟨?_, fun h0 => (nomatch h0)⟩, ?_, fun h => h.elim⟩
      · intro j hj
        by_cases hji : j = ⟨i, hlt⟩
        · rw [hji]
          simp
        · have hne : j.val ≠ i := fun he => hji (Fin.ext he)
          simp only [Function.update_of_ne hji]
          exact hpump.1 j (by omega)
      · have hsaver := hi.saver
        simp only [Apart] at ha
        cases hpc : s.saver.pc with
        | saving q v =>
          rw [hpc] at hsaver ha
          exact ⟨hsaver.1, hsaver.2.snap ha⟩
        | _ => trivial
    · cases h
  · cases h

theorem bump_inv (hi : s.Inv) (h : s.bump = some t) : t.Inv := by
  unfold bump at h
  split at h
  · rename_i b i hp
    split at h
    · rename_i hall
      cases h
      have hpump := hi.pump
      rw [hp] at hpump
      have hsnap : s.snap = b := funext fun j => hpump.1 j (hall ▸ j.isLt)
      refine ⟨hi.wf, ?_, fun _ => List.cons_ne_nil _ _, fun _ => hsnap ▸ List.mem_cons_self, ?_, fun h => h.elim⟩
      · intro f hf
        obtain ⟨b', hb', he⟩ := hi.whole f hf
        exact ⟨b', hb'.imp_left (List.mem_cons_of_mem _), he⟩
      · have hsaver := hi.saver
        cases hpc : s.saver.pc with
        | saving q v =>
          rw [hpc] at hsaver
          exact ⟨List.cons_ne_nil _ _, hsaver.2.mono b⟩
        | _ => trivial
    · cases h
  · cases h

theorem guardStep_inv (hi : s.Inv) {a : SaveAct} (ha : s.Apart (.guard a)) (h : s.guardStep a = some t) : t.Inv := by
  unfold guardStep at h
  split at h
  · rename_i v hp
    obtain ⟨⟨fs', v'⟩, hv, rfl⟩ := Option.map_eq_some_iff.1 h
    have hpump := hi.pump
    rw [hp] at hpump
    have hidle : ¬ s.saver.pc.Holds := by
      rcases Save.holds_or_opens hv with hh | ⟨ok, rfl⟩
      · exact hi.apart (hp ▸ hh)
      · exact ha
    obtain ⟨hw, hs, hf⟩ := Save.step_sound hi.wf hpump.2 (fun _ _ => hpump.1) (List.ne_nil_of_mem hpump.1) hv
    exact ⟨hw, hi.whole.of_file hf, hi.seq, ⟨hpump.1, hs⟩, hi.saver.of_idle hidle, fun _ => hidle⟩
  · cases h

theorem saverStep_inv (hi : s.Inv) {a : SaveAct} (ha : s.Apart (.save a)) (h : s.saverStep a = some t) : t.Inv := by
  unfold saverStep at h
  split at h
  · rename_i q v hpc
    obtain ⟨⟨fs', v'⟩, hv, rfl⟩ := Option.map_eq_some_iff.1 h
    have hsaver := hi.saver
    rw [hpc] at hsaver
    have hidle : ¬ s.pump.Holds := by
      intro hp
      rcases Save.holds_or_opens hv with hh | ⟨ok, rfl⟩
      · exact hi.apart hp (hpc ▸ hh)
      · exact ha hp
    have hsnap : ∀ ok, a = .fwriteWord ok → s.snap ∈ s.published := by
      rintro ok rfl
      exact hi.pump.mem ha hsaver.1
    obtain ⟨hw, hs, hf⟩ := Save.step_sound hi.wf hsaver.2 hsnap hsaver.1 hv
    exact ⟨hw, hi.whole.of_file hf, hi.seq, hi.pump.of_idle hidle, ⟨hsaver.1, hs⟩, fun hp => absurd hp hidle⟩
  · cases h

theorem wake_inv (hi : s.Inv) : { s with saver := s.saver.wake s.seq }.Inv := by
  have hidle : ¬ (s.saver.wake s.seq).pc.Holds := by
    unfold Saver.wake
    split_ifs <;> exact id
  refine ⟨hi.wf, hi.whole, hi.seq, hi.pump, ?_, fun _ => hidle⟩
  show (s.saver.wake s.seq).pc.Sound s.published s.snap s.fs
  unfold Saver.wake
  split_ifs with h1 h2 h3
  · trivial
  · trivial
  · trivial
  · exact ⟨hi.seq fun h0 => h2 (.inr h0), trivial⟩

theorem stop_inv (hi : s.Inv) (h : s.stop = some t) : t.Inv := by
  have hmid : ¬ s.pump.Midway := by
    unfold stop at h
    split at h
    · rename_i hp
      exact hp ▸ id
    · rename_i hp
      exact hp ▸ id
    · cases h
  have ht : t = { s with run := false, pump := .joining } := by
    unfold stop at h
    split at h <;> cases h <;> rfl
  rw [ht]
  exact ⟨hi.wf, hi.whole, hi.seq, hi.pump.mem hmid, hi.saver, fun h => h.elim⟩

theorem finish_inv (hi : s.Inv) (h : s.finish = some t) : t.Inv := by
  unfold finish at h
  split at h
  · cases h
    exact ⟨hi.wf, hi.whole, hi.seq, hi.pump, trivial, fun _ => id⟩
  · cases h

theorem step_inv (s : World) (a : Act) (t : World) (hi : s.Inv) (ha : s.Apart a) (h : s.step a = some t) : t.Inv := by
  cases a with
  | publish b =>
    simp only [step] at h
    split at h
    · rename_i hp
      cases h
      exact ⟨hi.wf, hi.whole, hi.seq, ⟨fun j hj => (nomatch hj), fun _ => hi.pump.mem (hp ▸ id)⟩, hi.saver,
        fun h => h.elim⟩
    · cases h
  | word => exact copyWord_inv hi ha h
  | bump => exact bump_inv hi h
  | shutdown =>
    simp only [step] at h
    split at h
    · rename_i hp
      cases h
      refine ⟨hi.wf, hi.whole, hi.seq, ?_, hi.saver, ?_⟩
      · dsimp only
        split
        · rename_i h0
          exact ⟨hi.pump.mem (hp ▸ id) (hi.seq h0), trivial⟩
        · exact hi.pump.mem (hp ▸ id)
      · dsimp only
        split <;> exact False.elim
    · cases h
  | guard a => exact guardStep_inv hi ha h
  | stop => exact stop_inv hi h
  | join =>
    simp only [step] at h
    split at h
    · rename_i hp hpc
      cases h
      exact ⟨hi.wf, hi.whole, hi.seq, hi.pump.mem (hp ▸ id), hi.saver, fun h => h.elim⟩
    · cases h
  | check =>
    simp only [step] at h
    split at h
    · cases h
      refine ⟨hi.wf, hi.whole, hi.seq, hi.pump, ?_, fun _ => ?_⟩
      · dsimp only
        split <;> trivial
      · dsimp only
        split <;> exact id
    · cases h
  | wake =>
    simp only [step] at h
    split at h
    · cases h
      exact wake_inv hi
    · cases h
  | save a => exact saverStep_inv hi ha h
  | finish => exact finish_inv hi h

end World

theorem boot_dir (earlier : Option Blob) (leftover : Option (List Word)) {n : Name} {k : ℕ}
    (h : (boot earlier leftover).fs.dir n = some k) : n = .state ∧ k = 0 ∨ n = .tmp ∧ k = 1 := by
  cases n with
  | state =>
    obtain ⟨b, -, rfl⟩ := Option.map_eq_some_iff.1 h
    exact .inl ⟨rfl, rfl⟩
  | tmp =>
    obtain ⟨f, -, rfl⟩ := Option.map_eq_some_iff.1 h
    exact .inr ⟨rfl, rfl⟩

theorem boot_inv (earlier : Option Blob) (leftover : Option (List Word)) : (boot earlier leftover).Inv := by
  refine ⟨⟨?_, ?_⟩, ?_, fun h => absurd rfl h, fun h => absurd rfl h, trivial, fun h => h.elim⟩
  · intro n k h
    show k < 2
    rcases boot_dir earlier leftover h with ⟨-, rfl⟩ | ⟨-, rfl⟩ <;> decide
  · intro n m k h h'
    rcases boot_dir earlier leftover h with ⟨rfl, rfl⟩ | ⟨rfl, rfl⟩ <;>
      rcases boot_dir earlier leftover h' with ⟨rfl, h⟩ | ⟨rfl, h⟩ <;> first | rfl | cases h
  · intro f hf
    cases earlier with
    | none => cases hf
    | some b =>
      cases hf
      exact ⟨b, .inr rfl, rfl⟩

/-- For every interleaving of pump, saver thread and shutdown whose steps keep
apart, with any failures: the state file is at all times a whole snapshot. -/
theorem whole_snapshot (earlier : Option Blob) (leftover : Option (List Word)) (acts : List Act) (t : World)
    (hm : Meets World.step World.Apart (boot earlier leftover) acts)
    (h : run World.step (boot earlier leftover) acts = some t) : t.Whole :=
  (hm.inv World.Inv World.step_inv h (boot_inv earlier leftover)).whole

/-! ## Whole runs of publishing and saving -/

/-- A publication of `b`. -/
def publication (b : Blob) : List Act := .publish b :: ((List.replicate kBlobWords [Act.word]).flatten ++ [.bump])

/-- Five naps of the saver: it sees the new sequence number, then counts to four. -/
def naps : List Act := (List.replicate 5 [Act.check, .wake]).flatten

/-- The saver writes `n` words. -/
def reading (n : ℕ) : List Act := (List.replicate n [Act.save (.fwriteWord true)]).flatten

/-- `n` words of the publication are copied. -/
def World.copied (s : World) (b : Blob) (n : ℕ) : World :=
  { s with snap := fun j => if j.val < n then b j else s.snap j, pump := .publishing b n }

theorem copied_step (s : World) (b : Blob) {n : ℕ} (hn : n < kBlobWords) :
    run World.step (s.copied b n) [.word] = some (s.copied b (n + 1)) := by
  have hstep : (s.copied b n).copyWord = some (s.copied b (n + 1)) := by
    simp only [World.copyWord, World.copied, hn, dif_pos]
    congr 2
    funext j
    by_cases hj : j = ⟨n, hn⟩
    · simp [hj]
    · have hne : j.val ≠ n := fun he => hj (Fin.ext he)
      rw [Function.update_of_ne hj]
      simp only [show j.val < n + 1 ↔ j.val < n by omega]
  exact run_cons_some hstep rfl

theorem run_publication {s : World} (hp : s.pump = .idle) (b : Blob) :
    run World.step s (publication b) =
      some { s with snap := b, seq := (s.seq + 1) % 2 ^ 64, published := b :: s.published } := by
  have hstart : s.step (.publish b) = some (s.copied b 0) := by
    simp [World.step, World.copied, hp]
  have hwords := run_replicate (s.copied b) [Act.word] kBlobWords fun n hn => copied_step s b hn
  refine run_cons_some hstart (run_append_some hwords ?_)
  have hbump : (s.copied b kBlobWords).bump =
      some { s with snap := b, seq := (s.seq + 1) % 2 ^ 64, published := b :: s.published } := by
    simp [World.bump, World.copied, hp]
  exact run_cons_some hbump rfl

/-- The saver has written words `m` to `m + n` of the snapshot. -/
def World.read (s : World) (q : ℕ) (h : Handle Word) (m n : ℕ) : World :=
  { s with saver.pc := .saving q (.data { h with buf := h.buf ++ ((words s.snap).drop m).take n } (m + n)) }

theorem read_step (s : World) (q : ℕ) (h : Handle Word) {m n : ℕ} (hn : m + n < kBlobWords) :
    run World.step (s.read q h m n) [.save (.fwriteWord true)] = some (s.read q h m (n + 1)) := by
  have hl : m + n < (words s.snap).length := by
    rw [words, List.length_ofFn]
    exact hn
  have hg : ((words s.snap).drop m)[n]? = some (s.snap ⟨m + n, hn⟩) := by
    rw [List.getElem?_drop, List.getElem?_eq_getElem hl]
    exact congrArg some (List.getElem_ofFn _)
  have htake : ((words s.snap).drop m).take (n + 1) = ((words s.snap).drop m).take n ++ [s.snap ⟨m + n, hn⟩] := by
    rw [List.take_add_one, hg]
    rfl
  have hstep : (s.read q h m n).saverStep (.fwriteWord true) = some (s.read q h m (n + 1)) := by
    simp [World.saverStep, World.read, Save.step, hn, htake, Handle.put, Nat.add_assoc]
  exact run_cons_some hstep rfl

theorem read_zero (s : World) (q : ℕ) (h : Handle Word) (m : ℕ) (hp : s.saver.pc = .saving q (.data h m)) :
    s.read q h m 0 = s := by
  simp [World.read, ← hp]

theorem run_reading (s : World) (q : ℕ) (h : Handle Word) (m n : ℕ) (hn : m + n ≤ kBlobWords)
    (hp : s.saver.pc = .saving q (.data h m)) :
    run World.step s (reading n) = some (s.read q h m n) := by
  have := run_replicate (s.read q h m) [Act.save (.fwriteWord true)] n fun i hi => read_step s q h (by omega)
  rwa [read_zero s q h m hp] at this

theorem run_naps {s : World} (hr : s.run = true) (hs : s.seq = 1) (hv : s.saver = {}) :
    run World.step s naps = some { s with saver := ⟨0, 1, 4, .saving 1 .opening⟩ } := by
  cases s
  cases hr
  cases hs
  cases hv
  rfl

/-- A fresh daemon has published `b`, and the saver has written the header. -/
def opened (b : Blob) : World :=
  { boot none none with
    snap := b
    seq := 1
    published := [b]
    fs := ((boot none none).fs.create .tmp).1
    saver := ⟨0, 1, 4, .saving 1 (.data ⟨2, 0, header⟩ 0)⟩ }

/-- A publication, and the saver thread up to the header. -/
def opening (b : Blob) : List Act := publication b ++ (naps ++ [.save (.fopen true), .save (.fwriteHeader true)])

theorem run_opening (b : Blob) : run World.step (boot none none) (opening b) = some (opened b) :=
  run_append_some (run_publication rfl b) (run_append_some (run_naps rfl rfl rfl) rfl)

/-- The saver closes and renames what it has written. -/
def closing : List Act := [.save (.fclose 0 true), .save (.rename true)]

theorem run_closing {s : World} {q : ℕ} {h : Handle Word} {c : List Word} (hw : s.fs.Wf)
    (hp : s.saver.pc = .saving q (.data h kBlobWords)) (ho : s.fs.Owns h .tmp c) :
    ∃ t, run World.step s closing = some t ∧ t.published = s.published ∧ t.earlier = s.earlier ∧
      t.fs.file .state = some c := by
  have hdir : (s.fs.flush h h.buf.length).1.dir .tmp = some h.inode := ho.dir
  obtain ⟨fs, hr⟩ : ∃ fs, (s.fs.flush h h.buf.length).1.rename .tmp .state = some fs := by
    unfold Files.rename
    rw [hdir]
    exact ⟨_, rfl⟩
  have hfile := (Files.rename_spec (by decide) (Files.flush_wf hw h _) hr).2.trans ho.file
  have hclose : s.saverStep (.fclose 0 true) =
      some { s with fs := (s.fs.flush h h.buf.length).1, saver.pc := .saving q .rename } := by
    simp [World.saverStep, hp, Save.step, Save.fclose]
  refine ⟨{ s with fs, saver.pc := .saving q (.done true) }, run_cons_some hclose (run_cons_some ?_ rfl), rfl, rfl,
    hfile⟩
  simp [World.step, World.saverStep, Save.step, hr]

theorem opened_owns (b : Blob) (buf : List Word) : (opened b).fs.Owns ⟨2, 0, buf⟩ .tmp buf :=
  (Files.create_owns (boot none none).fs Name.tmp).put buf

theorem opened_wf (b : Blob) : (opened b).fs.Wf := Files.create_wf (boot_inv none none).wf .tmp

/-! ## A snapshot saved whole -/

/-- A blob of zeros. -/
def zeros : Blob := fun _ => 0
/-- A blob of ones. -/
def ones : Blob := fun _ => 1

theorem meets_publication {s : World} (hp : s.pump = .idle) (hr : ¬ s.saver.pc.Reading) (b : Blob) :
    Meets World.step World.Apart s (publication b) := by
  have hstart : s.step (.publish b) = some (s.copied b 0) := by
    simp [World.step, World.copied, hp]
  refine ⟨trivial, fun t ht => ?_⟩
  rw [hstart] at ht
  cases ht
  exact (meets_replicate (s.copied b) [Act.word] kBlobWords (fun n hn => copied_step s b hn)
    fun n _ => ⟨hr, fun _ _ => trivial⟩).append (run_replicate _ _ _ fun n hn => copied_step s b hn)
    (.of_forall fun a ha t => by cases List.mem_singleton.1 ha; trivial)

theorem meets_opening (b : Blob) : Meets World.step World.Apart (boot none none) (opening b) := by
  refine (meets_publication rfl id b).append (run_publication rfl b) (Meets.append ?_ (run_naps rfl rfl rfl) ?_)
  · refine .of_forall fun a ha t => ?_
    rcases List.mem_flatten.1 ha with ⟨l, hl, ha⟩
    cases List.eq_of_mem_replicate hl
    simp only [List.mem_cons, List.not_mem_nil, or_false] at ha
    rcases ha with rfl | rfl <;> trivial
  · exact ⟨id, fun _ _ => ⟨trivial, fun _ _ => trivial⟩⟩

/-- One publication, saved from beginning to end. -/
def saved : List Act := opening ones ++ (reading kBlobWords ++ closing)


/-- The saver thread has written every word. -/
def savedWorld : World := (opened ones).read 1 ⟨2, 0, header⟩ 0 kBlobWords

theorem run_saved : run World.step (opened ones) (reading kBlobWords) = some savedWorld :=
  run_reading (opened ones) 1 ⟨2, 0, header⟩ 0 kBlobWords (by omega) rfl

theorem savedWorld_pc : savedWorld.saver.pc = .saving 1 (.data ⟨2, 0, image ones⟩ kBlobWords) := by
  have h : header ++ ((words ones).drop 0).take kBlobWords = image ones := by
    rw [List.drop_zero, take_all]
    rfl
  unfold savedWorld World.read
  simp only [Nat.zero_add]
  rw [← h]
  rfl

theorem meets_reading : Meets World.step World.Apart (opened ones) (reading kBlobWords) := by
  have h : Meets World.step World.Apart ((opened ones).read 1 ⟨2, 0, header⟩ 0 0) (reading kBlobWords) :=
    meets_replicate _ _ kBlobWords (fun i hi => read_step _ 1 _ (by omega)) fun i _ => ⟨id, fun _ _ => trivial⟩
  rwa [read_zero _ _ _ _ rfl] at h

theorem whole_snapshot_saved : ∃ t, run World.step (boot none none) saved = some t ∧ t.Whole ∧
    t.fs.file .state = some (image ones) := by
  have hwf : savedWorld.fs.Wf := opened_wf ones
  have ho : savedWorld.fs.Owns ⟨2, 0, image ones⟩ .tmp (image ones) := opened_owns ones (image ones)
  obtain ⟨t, h, -, -, hf⟩ := run_closing hwf savedWorld_pc ho
  have hrun := run_append_some (run_opening ones) (run_append_some run_saved h)
  refine ⟨t, hrun, whole_snapshot none none saved t ?_ hrun, hf⟩
  refine (meets_opening ones).append (run_opening ones) (meets_reading.append run_saved ?_)
  exact ⟨trivial, fun _ _ => ⟨trivial, fun _ _ => trivial⟩⟩

/-! ## A snapshot torn by the pump -/

/-- The pump publishes ones after the saver has read one word of the zeros. -/
def torn : List Act := (opening zeros ++ (reading 1 ++ (publication ones ++ reading 1996))) ++ closing

/-- A file of one word of one snapshot and the rest of another. -/
def tornWords : List Word := header ++ ((words zeros).drop 0).take 1 ++ ((words ones).drop 1).take 1996

theorem words_get (b : Blob) {i : ℕ} (hi : i < kBlobWords) : (words b)[i]? = some (b ⟨i, hi⟩) := by
  unfold words
  rw [List.getElem?_ofFn, dif_pos hi]

theorem torn_ne {b : Blob} (hb : b = ones ∨ b = zeros) : tornWords ≠ image b := by
  intro he
  have hn := kBlobWords_eq
  have hfirst : ((words zeros).drop 0).take 1 = [0] := by
    rw [List.drop_zero, ← take_words zeros (by omega), List.take_zero]
    rfl
  have hcons : 0 :: ((words ones).drop 1).take 1996 = words b := by
    unfold tornWords image at he
    rw [hfirst, List.append_assoc, List.append_cancel_left_eq, List.singleton_append] at he
    exact he
  have h0 := words_get b (show 0 < kBlobWords by omega)
  have h1 := words_get b (show 1 < kBlobWords by omega)
  rw [← hcons] at h0 h1
  rw [List.getElem?_cons_zero, Option.some.injEq] at h0
  rw [List.getElem?_cons_succ, List.getElem?_take_of_lt (by omega), List.getElem?_drop,
    words_get ones (by omega), Option.some.injEq] at h1
  rcases hb with rfl | rfl
  · exact absurd h0 (by unfold ones; decide)
  · exact absurd h1 (by unfold ones zeros; decide)

/-- The daemon when the saver has read to the end. -/
def tornWorld : World :=
  World.read { (opened zeros).read 1 ⟨2, 0, header⟩ 0 1 with snap := ones, seq := 2, published := [ones, zeros] } 1
    ⟨2, 0, header ++ ((words zeros).drop 0).take 1⟩ 1 1996

theorem run_torn : run World.step (boot none none)
    (opening zeros ++ (reading 1 ++ (publication ones ++ reading 1996))) = some tornWorld := by
  have h1 := run_reading (opened zeros) 1 ⟨2, 0, header⟩ 0 1 (by rw [kBlobWords_eq]; omega) rfl
  have h2 : run World.step ((opened zeros).read 1 ⟨2, 0, header⟩ 0 1) (publication ones) = _ := run_publication rfl ones
  exact run_append_some (run_opening zeros)
    (run_append_some h1 (run_append_some h2 (run_reading _ 1 _ 1 1996 (by rw [kBlobWords_eq]) rfl)))

theorem tornWorld_pc : tornWorld.saver.pc = .saving 1 (.data ⟨2, 0, tornWords⟩ kBlobWords) := by
  have h : 1 + 1996 = kBlobWords := by rw [kBlobWords_eq]
  rw [← h]
  rfl

/-- The state file then has the header, one zero, and 1996 ones. -/
theorem torn_snapshot : ∃ t, run World.step (boot none none) torn = some t ∧ ¬ t.Whole := by
  have hwf : tornWorld.fs.Wf := opened_wf zeros
  have ho : tornWorld.fs.Owns ⟨2, 0, tornWords⟩ .tmp tornWords := opened_owns zeros tornWords
  obtain ⟨t, h, hp, he, hf⟩ := run_closing hwf tornWorld_pc ho
  refine ⟨t, run_append_some run_torn h, ?_⟩
  intro hw
  obtain ⟨b, hb, himg⟩ := hw _ hf
  have hpub : t.published = [ones, zeros] := hp
  have hear : t.earlier = none := he
  rw [hpub, hear] at hb
  rcases hb with hb | hb
  · exact torn_ne (by simpa using hb) himg
  · cases hb

end UserFace800.Store
