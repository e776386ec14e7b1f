import UserFace800.Lib.Run
import UserFace800.Lib.Cursor
import Mathlib.Logic.Function.Basic
/-!
# Seqlocks

One writer brackets the stores of a payload with two stores of a sequence word,
the first making it odd, the second even. Readers sample the word, copy the
payload, sample again, and believe the copy if the two samples agree. Every load
and store is a step, and any number of readers run against the writer.

`coherent` is what this buys: a read that reports success returned the contents
one completed publish left, as long as the sequence word has not come round. It
rests on two facts about a step. The writer keeps `WriterAt`: while the word is
even the payload is the contents after the publishes completed so far. A reader
keeps `ReaderOk`: as long as the word is still its first sample, everything
copied so far is from those contents.
-/

namespace UserFace800.Lib.Seqlock

variable {R W V : Type}

/-- What the writer executes: the sequence word into its register, the register
plus `k` into the sequence word, one word of the payload. -/
inductive Instr (W V : Type) where
  | load
  | mark (k : BitVec 64)
  | put (w : W) (v : V)

/-- The stores, as instructions. -/
def puts (stores : List (W × V)) : List (Instr W V) := stores.map fun x => .put x.1 x.2

/-- The store that ends a publish: from the register, or from the word loaded again. -/
def closing (reload : Bool) : List (Instr W V) := if reload then [.load, .mark 1] else [.mark 2]

/-- A publish of these stores, in order. -/
def bracket (reload : Bool) (stores : List (W × V)) : List (Instr W V) :=
  .load :: .mark 1 :: (puts stores ++ closing reload)

theorem puts_closing_ne (stores : List (W × V)) (reload : Bool) : puts stores ++ closing reload ≠ [] := by
  cases reload <;> exact List.append_ne_nil_of_right_ne_nil _ (List.cons_ne_nil _ _)

/-- What distinguishes one seqlock from another: how a publish ends and what it
may store; the orders a reader may copy in, how often it tries, which first
samples it goes on with, and which it reports as a success. -/
structure Protocol (W V : Type) where
  reload : Bool
  stores : List (W × V) → Bool
  order : List W → Bool
  tries : ℕ
  enter : BitVec 64 → Bool
  accept : BitVec 64 → Bool

/-- Where a reader is: about to sample with some attempts left, copying, or back
with its verdict and its copy. -/
inductive Reader (W V : Type) where
  | idle
  | sample (order : List W) (tries : ℕ)
  | copy (order : List W) (tries : ℕ) (s0 : BitVec 64) (todo : List W) (got : List (W × V))
  | back (ok : Bool) (s0 : BitVec 64) (got : List (W × V))

/-- `log` is the stores of each completed publish, `cur` those of the one in progress. -/
structure State (R W V : Type) where
  seq : BitVec 64
  data : W → V
  reg : BitVec 64 := 0
  todo : List (Instr W V) := []
  cur : List (W × V) := []
  log : List (List (W × V)) := []
  readers : R → Reader W V := fun _ => .idle

/-- No publish yet, over these contents. -/
def State.init (data : W → V) : State R W V := { seq := 0, data }

/-- The writer begins a publish or executes an instruction, a reader is called or takes a step. -/
inductive Act (R W V : Type) where
  | publish (stores : List (W × V))
  | write
  | call (r : R) (order : List W)
  | read (r : R)

variable [DecidableEq W]

/-- The contents after the stores. -/
def putAll (data : W → V) (stores : List (W × V)) : W → V := stores.foldl (fun d x => Function.update d x.1 x.2) data

/-- The contents after the publishes of `log`. -/
def contents (data : W → V) (log : List (List (W × V))) : W → V := log.foldl putAll data

/-- One instruction of the writer, without what follows it. -/
def exec (s : State R W V) : Instr W V → State R W V
  | .load => { s with reg := s.seq }
  | .mark k => { s with seq := s.reg + k }
  | .put w v => { s with data := Function.update s.data w v }

/-- The next instruction; the last one completes the publish. -/
def stepWriter (s : State R W V) : Option (State R W V) :=
  match s.todo with
  | [] => none
  | i :: rest =>
    let t := { exec s i with todo := rest }
    some (if rest.isEmpty then { t with log := s.log ++ [s.cur] } else t)

/-- After a sample that does not agree: try again, or give up. -/
def retry (order : List W) (s0 : BitVec 64) (got : List (W × V)) : ℕ → Reader W V
  | 0 => .back false s0 got
  | n + 1 => .sample order (n + 1)

/-- The next access of a reader. -/
def stepReader (p : Protocol W V) (s : State R W V) : Reader W V → Option (Reader W V)
  | .idle => none
  | .back _ _ _ => none
  | .sample _ 0 => none
  | .sample order (n + 1) => some (if p.enter s.seq then .copy order n s.seq order [] else retry order s.seq [] n)
  | .copy order n s0 (w :: ws) got => some (.copy order n s0 ws (got ++ [(w, s.data w)]))
  | .copy order n s0 [] got => some (if s.seq = s0 then .back (p.accept s0) s0 got else retry order s0 got n)

/-- Whether a reader may be called. -/
def Reader.free : Reader W V → Bool
  | .idle => true
  | .back _ _ _ => true
  | .sample _ _ => false
  | .copy _ _ _ _ _ => false

/-- A step of the writer or of one reader. -/
def step [DecidableEq R] (p : Protocol W V) (s : State R W V) : Act R W V → Option (State R W V)
  | .publish stores =>
    if s.todo.isEmpty ∧ p.stores stores then some { s with todo := bracket p.reload stores, cur := stores } else none
  | .write => stepWriter s
  | .call r order =>
    if (s.readers r).free ∧ p.order order then
      some { s with readers := Function.update s.readers r (.sample order p.tries) }
    else none
  | .read r => (stepReader p s (s.readers r)).map fun x => { s with readers := Function.update s.readers r x }

/-! ## The writer -/

/-- The sequence word after `n` completed publishes. -/
def even (n : ℕ) : BitVec 64 := Cursor.cur 64 (2 * n)

theorem even_toNat (n : ℕ) : (even n).toNat % 2 = 0 := by
  simp only [even, Cursor.cur, BitVec.toNat_ofNat]
  omega

theorem even_succ_odd (n : ℕ) : (even n + 1).toNat % 2 = 1 := by
  unfold even
  rw [Cursor.cur_succ]
  simp only [Cursor.cur, BitVec.toNat_ofNat]
  omega

theorem even_add_one_add_one (n : ℕ) : even n + 1 + 1 = even (n + 1) := by
  unfold even
  rw [Cursor.cur_succ, Cursor.cur_succ, Nat.mul_add_one]

theorem even_add_two (n : ℕ) : even n + 2 = even (n + 1) := by
  rw [← even_add_one_add_one, BitVec.add_assoc]
  rfl

theorem even_ne_odd (k n : ℕ) : even n + 1 ≠ even k := by
  intro h
  have := even_succ_odd n
  rw [h, even_toNat] at this
  cases this

/-- Below 2^63 publishes the word does not come round. -/
theorem even_inj {k n : ℕ} (hk : k ≤ n) (hn : n < 2 ^ 63) (h : even n = even k) : k = n := by
  have := (Cursor.cur_eq_iff (w := 64) (m := 2 * k) (n := 2 * n) (by omega) (by omega)).1 h.symm
  omega

/-- Where the writer is in a publish of `cur`, over the contents `base` that `n`
publishes left: what it has still to execute, and the words. -/
inductive WriterAt (reload : Bool) (n : ℕ) (base : W → V) (cur : List (W × V)) :
    List (Instr W V) → BitVec 64 → (W → V) → BitVec 64 → Prop
  | idle (reg : BitVec 64) : WriterAt reload n base cur [] (even n) base reg
  | loading (reg : BitVec 64) : WriterAt reload n base cur (bracket reload cur) (even n) base reg
  | marking : WriterAt reload n base cur (.mark 1 :: (puts cur ++ closing reload)) (even n) base (even n)
  | filling (before rest : List (W × V)) (h : cur = before ++ rest) :
      WriterAt reload n base cur (puts rest ++ closing reload) (even n + 1) (putAll base before) (even n)
  | closing (h : reload = true) :
      WriterAt reload n base cur [.mark 1] (even n + 1) (putAll base cur) (even n + 1)

/-- While the sequence word is even the payload is whole. -/
theorem WriterAt.whole {reload : Bool} {n k : ℕ} {base data : W → V} {cur : List (W × V)} {todo : List (Instr W V)}
    {seq reg : BitVec 64} (h : WriterAt reload n base cur todo seq data reg) (hk : seq = even k) :
    seq = even n ∧ data = base := by
  cases h with
  | idle => exact ⟨rfl, rfl⟩
  | loading => exact ⟨rfl, rfl⟩
  | marking => exact ⟨rfl, rfl⟩
  | filling before rest h => exact absurd hk (even_ne_odd k n)
  | closing h => exact absurd hk (even_ne_odd k n)

/-- The sequence word is the even one of `n`, or odd. -/
theorem WriterAt.seq_cases {reload : Bool} {n : ℕ} {base data : W → V} {cur : List (W × V)} {todo : List (Instr W V)}
    {seq reg : BitVec 64} (h : WriterAt reload n base cur todo seq data reg) : seq = even n ∨ seq = even n + 1 := by
  cases h with
  | idle => exact .inl rfl
  | loading => exact .inl rfl
  | marking => exact .inl rfl
  | filling before rest h => exact .inr rfl
  | closing h => exact .inr rfl

/-- A writer with nothing left to execute has the words of `n` whole publishes. -/
theorem WriterAt.rest {reload : Bool} {n : ℕ} {base data : W → V} {cur : List (W × V)} {todo : List (Instr W V)}
    {seq reg : BitVec 64} (h : WriterAt reload n base cur todo seq data reg) (ht : todo = []) :
    seq = even n ∧ data = base := by
  cases h with
  | idle => exact ⟨rfl, rfl⟩
  | loading => cases ht
  | marking => cases ht
  | filling before rest h => exact absurd ht (puts_closing_ne rest reload)
  | closing => cases ht

/-- The writer is where its instructions left to do say. -/
def State.writerOk (p : Protocol W V) (data : W → V) (s : State R W V) : Prop :=
  WriterAt p.reload s.log.length (contents data s.log) s.cur s.todo s.seq s.data s.reg

/-- A fill that stores the words of `ws`. -/
theorem putAll_map (data : W → V) (ws : List W) (v : W → V) (w : W) :
    putAll data (ws.map fun w => (w, v w)) w = if w ∈ ws then v w else data w := by
  induction ws generalizing data with
  | nil => rfl
  | cons u ws ih =>
    unfold putAll at ih ⊢
    rw [List.map_cons, List.foldl_cons, ih]
    by_cases hw : w ∈ ws
    · rw [if_pos hw, if_pos (List.mem_cons_of_mem _ hw)]
    · rw [if_neg hw]
      by_cases hu : w = u
      · rw [hu, Function.update_self, if_pos List.mem_cons_self]
      · rw [Function.update_of_ne hu, if_neg fun h => (List.mem_cons.1 h).elim hu hw]

theorem contents_append (data : W → V) (log : List (List (W × V))) (cur : List (W × V)) :
    contents data (log ++ [cur]) = putAll (contents data log) cur := by
  unfold contents
  rw [List.foldl_append]
  rfl

theorem putAll_append (data : W → V) (before : List (W × V)) (x : W × V) :
    putAll data (before ++ [x]) = Function.update (putAll data before) x.1 x.2 := by
  unfold putAll
  rw [List.foldl_append]
  rfl

theorem stepWriter_more {s : State R W V} {i : Instr W V} {rest : List (Instr W V)} (h : s.todo = i :: rest)
    (hr : rest ≠ []) : stepWriter s = some { exec s i with todo := rest } := by
  cases rest with
  | nil => exact absurd rfl hr
  | cons j rest =>
    unfold stepWriter
    rw [h]
    rfl

theorem stepWriter_last {s : State R W V} {i : Instr W V} (h : s.todo = [i]) :
    stepWriter s = some { exec s i with todo := [], log := s.log ++ [s.cur] } := by
  unfold stepWriter
  rw [h]
  rfl

/-- One instruction: the writer stays at a place of its publish. It leaves the
sequence word alone or makes it odd, or it completes the publish. -/
theorem stepWriter_ok {p : Protocol W V} {data : W → V} {s t : State R W V} (h : s.writerOk p data)
    (hs : stepWriter s = some t) :
    t.writerOk p data ∧ t.readers = s.readers ∧
      ((t.log = s.log ∧ (t.seq = s.seq ∨ ∀ k, t.seq ≠ even k)) ∨ ∃ c, t.log = s.log ++ [c]) := by
  obtain ⟨seq, d, reg, todo, cur, log, readers⟩ := s
  unfold State.writerOk at h ⊢
  dsimp only at h
  cases h with
  | idle => cases hs
  | loading =>
    cases hs
    exact ⟨.marking, rfl, .inl ⟨rfl, .inl rfl⟩⟩
  | marking =>
    rw [stepWriter_more rfl (puts_closing_ne cur p.reload)] at hs
    cases hs
    exact ⟨.filling [] cur rfl, rfl, .inl ⟨rfl, .inr fun k => even_ne_odd k _⟩⟩
  | filling before rest h =>
    cases rest with
    | cons x rest =>
      rw [stepWriter_more rfl (puts_closing_ne rest p.reload)] at hs
      cases hs
      refine ⟨?_, rfl, .inl ⟨rfl, .inl rfl⟩⟩
      dsimp only [exec]
      rw [← putAll_append]
      exact .filling (before ++ [x]) rest (by rw [List.append_assoc]; exact h)
    | nil =>
      rw [List.append_nil] at h
      subst h
      cases hp : p.reload with
      | false =>
        rw [hp, stepWriter_last rfl] at hs
        cases hs
        refine ⟨?_, rfl, .inr ⟨_, rfl⟩⟩
        dsimp only [exec]
        rw [even_add_two, ← contents_append, List.length_append]
        exact .idle _
      | true =>
        rw [hp, stepWriter_more rfl (List.cons_ne_nil _ _)] at hs
        cases hs
        exact ⟨.closing rfl, rfl, .inl ⟨rfl, .inl rfl⟩⟩
  | closing hp =>
    rw [stepWriter_last rfl] at hs
    cases hs
    refine ⟨?_, rfl, .inr ⟨_, rfl⟩⟩
    dsimp only [exec]
    rw [even_add_one_add_one, ← contents_append, List.length_append]
    exact .idle _

/-! ## A reader -/

/-- What a reader has copied is what the first `k` publishes left, if the
sequence word is still its first sample; what it reports, unconditionally. -/
def ReaderOk (p : Protocol W V) (data : W → V) (seq : BitVec 64) (log : List (List (W × V))) : Reader W V → Prop
  | .idle => True
  | .sample order _ => p.order order = true
  | .copy order _ s0 todo got => p.order order = true ∧ p.enter s0 = true ∧ got.map Prod.fst ++ todo = order ∧
    ∃ k ≤ log.length, s0 = even k ∧
      (seq = even k → k = log.length → ∀ x ∈ got, x.2 = contents data (log.take k) x.1)
  | .back ok s0 got => ok = true → p.enter s0 = true ∧ p.accept s0 = true ∧ p.order (got.map Prod.fst) = true ∧
    ∃ k ≤ log.length, s0 = even k ∧ ∀ x ∈ got, x.2 = contents data (log.take k) x.1

theorem readerOk_retry {p : Protocol W V} {data : W → V} {seq s0 : BitVec 64} {log : List (List (W × V))}
    {order : List W} (ho : p.order order = true) (got : List (W × V)) (n : ℕ) :
    ReaderOk p data seq log (retry order s0 got n) := by
  cases n with
  | zero =>
    intro h
    cases h
  | succ n => exact ho

/-- The reader's own step. -/
theorem stepReader_ok {p : Protocol W V} (hodd : ∀ s0, p.enter s0 = true → s0.toNat % 2 = 0) {data : W → V}
    {s : State R W V} (hw : s.writerOk p data) (hn : s.log.length < 2 ^ 63) {x y : Reader W V}
    (hx : ReaderOk p data s.seq s.log x) (hs : stepReader p s x = some y) : ReaderOk p data s.seq s.log y := by
  cases x with
  | idle => cases hs
  | back ok s0 got => cases hs
  | sample order tries =>
    cases tries with
    | zero => cases hs
    | succ n =>
      cases hs
      by_cases he : p.enter s.seq = true
      · rw [if_pos he]
        rcases hw.seq_cases with hseq | hseq
        · exact ⟨hx, he, rfl, s.log.length, le_refl _, hseq, fun _ _ x hx => (nomatch hx)⟩
        · have := hodd _ he
          rw [hseq, even_succ_odd] at this
          cases this
      · rw [if_neg he]
        exact readerOk_retry hx [] n
  | copy order n s0 todo got =>
    obtain ⟨ho, he, hgot, k, hk, hs0, hagree⟩ := hx
    cases todo with
    | cons w ws =>
      cases hs
      refine ⟨ho, he, ?_, k, hk, hs0, ?_⟩
      · rw [List.map_append, List.append_assoc]
        exact hgot
      · intro hseq hkn x hx
        rcases List.mem_append.1 hx with hx | hx
        · exact hagree hseq hkn x hx
        · rw [List.mem_singleton.1 hx, (hw.whole hseq).2, hkn, List.take_length]
    | nil =>
      cases hs
      by_cases hseq : s.seq = s0
      · rw [if_pos hseq]
        intro hacc
        rw [List.append_nil] at hgot
        have hev : s.seq = even k := hseq.trans hs0
        have hkn : k = s.log.length := even_inj hk hn ((hw.whole hev).1.symm.trans hev)
        exact ⟨he, hacc, by rw [hgot]; exact ho, k, hk, hs0, hagree hev hkn⟩
      · rw [if_neg hseq]
        exact readerOk_retry ho got n

/-- Anything the writer does: what was copied stays right, or the sequence word
is no longer the first sample. -/
theorem ReaderOk.writer {p : Protocol W V} {data : W → V} {seq seq' : BitVec 64} {log log' : List (List (W × V))}
    {x : Reader W V} (hx : ReaderOk p data seq log x)
    (hmove : (log' = log ∧ (seq' = seq ∨ ∀ k, seq' ≠ even k)) ∨ ∃ c, log' = log ++ [c]) :
    ReaderOk p data seq' log' x := by
  have hlen : log.length ≤ log'.length := by
    rcases hmove with ⟨rfl, -⟩ | ⟨c, rfl⟩
    · exact le_refl _
    · rw [List.length_append]
      exact Nat.le_add_right _ _
  have htake : ∀ k ≤ log.length, log'.take k = log.take k := by
    intro k hk
    rcases hmove with ⟨rfl, -⟩ | ⟨c, rfl⟩
    · rfl
    · exact List.take_append_of_le_length hk
  cases x with
  | idle => trivial
  | sample order n => exact hx
  | copy order n s0 todo got =>
    obtain ⟨ho, he, hgot, k, hk, hs0, hagree⟩ := hx
    refine ⟨ho, he, hgot, k, hk.trans hlen, hs0, ?_⟩
    intro hev hkn
    rw [htake k hk]
    rcases hmove with ⟨rfl, rfl | hodd⟩ | ⟨c, rfl⟩
    · exact hagree hev hkn
    · exact absurd hev (hodd k)
    · rw [hkn, List.length_append] at hk
      exact absurd hk (Nat.not_succ_le_self _)
  | back ok s0 got =>
    intro h
    obtain ⟨he, hacc, hgot, k, hk, hs0, hagree⟩ := hx h
    exact ⟨he, hacc, hgot, k, hk.trans hlen, hs0, by rw [htake k hk]; exact hagree⟩

/-! ## The system -/

/-- The invariant: the writer is at a place of a publish, and no reader has
copied a mixture. -/
structure State.Ok (p : Protocol W V) (data : W → V) (s : State R W V) : Prop where
  writer : s.writerOk p data
  readers : ∀ r, ReaderOk p data s.seq s.log (s.readers r)

theorem step_ok [DecidableEq R] {p : Protocol W V} (hodd : ∀ s0, p.enter s0 = true → s0.toNat % 2 = 0) {data : W → V}
    {s t : State R W V} {a : Act R W V} (h : s.Ok p data) (hn : s.log.length < 2 ^ 63) (hs : step p s a = some t) :
    t.Ok p data := by
  cases a with
  | publish stores =>
    simp only [step] at hs
    split at hs
    · rename_i hidle
      cases hs
      refine ⟨?_, h.readers⟩
      obtain ⟨hseq, hdata⟩ := h.writer.rest (List.isEmpty_iff.1 hidle.1)
      unfold State.writerOk
      dsimp only
      rw [hseq, hdata]
      exact .loading _
    · cases hs
  | write =>
    obtain ⟨hw, hr, hmove⟩ := stepWriter_ok h.writer hs
    refine ⟨hw, fun r => ?_⟩
    rw [hr]
    exact (h.readers r).writer hmove
  | call r order =>
    simp only [step] at hs
    split at hs
    · rename_i hfree
      cases hs
      refine ⟨h.writer, fun r' => ?_⟩
      dsimp only
      by_cases hr : r' = r
      · rw [hr, Function.update_self]
        exact hfree.2
      · rw [Function.update_of_ne hr]
        exact h.readers r'
    · cases hs
  | read r =>
    simp only [step, Option.map_eq_some_iff] at hs
    obtain ⟨x, hx, rfl⟩ := hs
    refine ⟨h.writer, fun r' => ?_⟩
    dsimp only
    by_cases hr : r' = r
    · rw [hr, Function.update_self]
      exact stepReader_ok hodd h.writer hn (h.readers r) hx
    · rw [Function.update_of_ne hr]
      exact h.readers r'

/-- Publishes only accumulate. -/
theorem step_log [DecidableEq R] {p : Protocol W V} {s t : State R W V} {a : Act R W V} (hs : step p s a = some t) :
    s.log.length ≤ t.log.length := by
  cases a with
  | publish stores =>
    simp only [step] at hs
    split at hs <;> cases hs
    exact le_refl _
  | write =>
    simp only [step, stepWriter] at hs
    split at hs
    · cases hs
    · rename_i i rest htodo
      have hexec : (exec s i).log = s.log := by cases i <;> rfl
      cases hs
      split
      · rw [List.length_append]
        exact Nat.le_add_right _ _
      · exact le_of_eq (congrArg List.length hexec.symm)
  | call r order =>
    simp only [step] at hs
    split at hs <;> cases hs
    exact le_refl _
  | read r =>
    simp only [step, Option.map_eq_some_iff] at hs
    obtain ⟨x, hx, rfl⟩ := hs
    exact le_refl _

/-- Run lemma. -/
theorem run_ok [DecidableEq R] {p : Protocol W V} (hodd : ∀ s0, p.enter s0 = true → s0.toNat % 2 = 0) {data : W → V}
    {s : State R W V} {as : List (Act R W V)} (hr : run (step p) (.init data) as = some s)
    (hn : s.log.length < 2 ^ 63) : s.Ok p data := by
  refine run_inv (fun s => s.log.length < 2 ^ 63 → s.Ok p data) (fun s a t hs ht hn => ?_) hr (fun _ => ?_) hn
  · have hlt := lt_of_le_of_lt (step_log ht) hn
    exact step_ok hodd (hs hlt) hlt ht
  · exact ⟨.idle _, fun r => trivial⟩

/-- Every read that reports success, in every interleaving with fewer than 2^63
completed publishes, copied the payload as one of them left it, or as it was
before the first. -/
theorem coherent [DecidableEq R] {p : Protocol W V} (hodd : ∀ s0, p.enter s0 = true → s0.toNat % 2 = 0) {data : W → V}
    {s : State R W V} {as : List (Act R W V)} (hr : run (step p) (.init data) as = some s)
    (hn : s.log.length < 2 ^ 63) {r : R} {s0 : BitVec 64} {got : List (W × V)}
    (hback : s.readers r = .back true s0 got) :
    p.enter s0 = true ∧ p.accept s0 = true ∧ ∃ order, p.order order = true ∧ ∃ k ≤ s.log.length,
      s0 = even k ∧ got = order.map fun w => (w, contents data (s.log.take k) w) := by
  have h := (run_ok hodd hr hn).readers r
  rw [hback] at h
  obtain ⟨he, hacc, horder, k, hk, hs0, hgot⟩ := h rfl
  refine ⟨he, hacc, got.map Prod.fst, horder, k, hk, hs0, ?_⟩
  rw [List.map_map]
  refine (List.map_id got).symm.trans (List.map_congr_left fun x hx => ?_)
  exact Prod.ext rfl (hgot x hx)

/-- Only publishes the protocol admits are in the log. -/
def State.Stored (p : Protocol W V) (s : State R W V) : Prop :=
  (s.todo = [] ∨ p.stores s.cur = true) ∧ ∀ stores ∈ s.log, p.stores stores = true

theorem step_stored [DecidableEq R] {p : Protocol W V} {s t : State R W V} {a : Act R W V} (h : s.Stored p)
    (hs : step p s a = some t) : t.Stored p := by
  obtain ⟨hcur, hlog⟩ := h
  cases a with
  | publish stores =>
    simp only [step] at hs
    split at hs
    · rename_i hfree
      cases hs
      exact ⟨.inr hfree.2, hlog⟩
    · cases hs
  | write =>
    simp only [step, stepWriter] at hs
    split at hs
    · cases hs
    · rename_i i rest htodo
      have hcur : p.stores s.cur = true := hcur.resolve_left (by rw [htodo]; exact List.cons_ne_nil _ _)
      have hexec : (exec s i).log = s.log ∧ (exec s i).cur = s.cur := by cases i <;> exact ⟨rfl, rfl⟩
      cases hs
      split
      · refine ⟨.inr (by rw [← hexec.2] at hcur; exact hcur), ?_⟩
        intro stores hmem
        rcases List.mem_append.1 hmem with hmem | hmem
        · exact hlog stores hmem
        · rw [List.mem_singleton.1 hmem]
          exact hcur
      · exact ⟨.inr (by rw [← hexec.2] at hcur; exact hcur), by rw [← hexec.1] at hlog; exact hlog⟩
  | call r order =>
    simp only [step] at hs
    split at hs <;> cases hs
    exact ⟨hcur, hlog⟩
  | read r =>
    simp only [step, Option.map_eq_some_iff] at hs
    obtain ⟨x, hx, rfl⟩ := hs
    exact ⟨hcur, hlog⟩

theorem run_stored [DecidableEq R] {p : Protocol W V} {data : W → V} {s : State R W V} {as : List (Act R W V)}
    (hr : run (step p) (.init data) as = some s) : s.Stored p :=
  run_inv (State.Stored p) (fun _ _ _ => step_stored) hr ⟨.inl rfl, fun _ h => (nomatch h)⟩

/-- What a reader that refuses sequence 0 returns: some publish's stores over
what was there. -/
theorem coherent_published [DecidableEq R] {p : Protocol W V} (hodd : ∀ s0, p.enter s0 = true → s0.toNat % 2 = 0)
    (hzero : p.enter 0 = false ∨ p.accept 0 = false) {data : W → V} {s : State R W V} {as : List (Act R W V)}
    (hr : run (step p) (.init data) as = some s) (hn : s.log.length < 2 ^ 63) {r : R} {s0 : BitVec 64}
    {got : List (W × V)} (hback : s.readers r = .back true s0 got) :
    ∃ order, p.order order = true ∧ ∃ stores ∈ s.log, p.stores stores = true ∧ ∃ base,
      got = order.map fun w => (w, putAll base stores w) := by
  obtain ⟨he, hacc, order, ho, k, hk, hs0, hgot⟩ := coherent hodd hr hn hback
  cases k with
  | zero =>
    rw [show s0 = 0 from hs0] at he hacc
    rcases hzero with h | h
    · rw [h] at he
      cases he
    · rw [h] at hacc
      cases hacc
  | succ k =>
    have hmem : s.log[k] ∈ s.log := List.getElem_mem hk
    refine ⟨order, ho, s.log[k], hmem, (run_stored hr).2 _ hmem, contents data (s.log.take k), ?_⟩
    rw [hgot, List.take_succ_eq_append_getElem hk]
    exact List.map_congr_left fun w _ => by rw [contents_append]

/-! ## Undisturbed calls -/

section

variable [DecidableEq R] {p : Protocol W V}

theorem run_puts (s : State R W V) (rest : List (W × V)) (tail : List (Instr W V)) (ht : tail ≠ [])
    (htodo : s.todo = puts rest ++ tail) : run (step p) s (List.replicate rest.length .write) =
      some { s with data := putAll s.data rest, todo := tail } := by
  induction rest generalizing s with
  | nil =>
    obtain ⟨seq, d, reg, todo, cur, log, readers⟩ := s
    cases htodo
    rfl
  | cons x rest ih =>
    have hne : puts rest ++ tail ≠ [] := List.append_ne_nil_of_right_ne_nil _ ht
    refine run_cons_some (stepWriter_more htodo hne) ?_
    exact ih { exec s (.put x.1 x.2) with todo := puts rest ++ tail } rfl

theorem run_closing (s : State R W V) (htodo : s.todo = closing p.reload) (hreg : s.seq = s.reg + 1) :
    run (step p) s (List.replicate (closing (W := W) (V := V) p.reload).length .write) = some { s with
      seq := s.reg + 2, reg := if p.reload then s.seq else s.reg, todo := [], log := s.log ++ [s.cur] } := by
  obtain ⟨seq, d, reg, todo, cur, log, readers⟩ := s
  dsimp only at htodo hreg
  subst htodo hreg
  cases hp : p.reload with
  | false => rfl
  | true =>
    have hseq : reg + 2 = reg + 1 + 1 := by
      rw [BitVec.add_assoc]
      rfl
    rw [hseq]
    rfl

/-- A publish nobody else runs in the middle of. -/
theorem run_publish {s : State R W V} (htodo : s.todo = []) (stores : List (W × V)) (hst : p.stores stores = true) :
    run (step p) s (.publish stores :: List.replicate (bracket p.reload stores).length .write) = some { s with
      seq := s.seq + 2, data := putAll s.data stores, reg := if p.reload then s.seq + 1 else s.seq, cur := stores,
      log := s.log ++ [stores] } := by
  obtain ⟨seq, d, reg, todo, cur, log, readers⟩ := s
  dsimp only at htodo
  subst htodo
  have hpub : step p ⟨seq, d, reg, [], cur, log, readers⟩ (.publish stores) =
      some ⟨seq, d, reg, bracket p.reload stores, stores, log, readers⟩ := by
    simp only [step, List.isEmpty_nil, hst, and_self, if_true]
  have hload : step p ⟨seq, d, reg, bracket p.reload stores, stores, log, readers⟩ .write =
      some ⟨seq, d, seq, .mark 1 :: (puts stores ++ closing p.reload), stores, log, readers⟩ := rfl
  have hmark : step p ⟨seq, d, seq, .mark 1 :: (puts stores ++ closing p.reload), stores, log, readers⟩ .write =
      some ⟨seq + 1, d, seq, puts stores ++ closing p.reload, stores, log, readers⟩ :=
    stepWriter_more (s := ⟨seq, d, seq, .mark 1 :: (puts stores ++ closing p.reload), stores, log, readers⟩) rfl
      (puts_closing_ne stores p.reload)
  have hlen : (puts stores ++ closing p.reload : List (Instr W V)).length =
      stores.length + (closing (W := W) (V := V) p.reload).length := by
    rw [List.length_append, puts, List.length_map]
  refine run_cons_some hpub (run_cons_some hload (run_cons_some hmark ?_))
  rw [hlen, ← List.replicate_append_replicate]
  exact run_append_some (run_puts _ stores (closing p.reload) (by cases p.reload <;> exact List.cons_ne_nil _ _) rfl)
    (run_closing _ rfl rfl)

theorem run_copy (s : State R W V) (r : R) (order : List W) (n : ℕ) (s0 : BitVec 64) (todo : List W)
    (got : List (W × V)) (hr : s.readers r = .copy order n s0 todo got) :
    run (step p) s (List.replicate todo.length (.read r)) = some { s with
      readers := Function.update s.readers r (.copy order n s0 [] (got ++ todo.map fun w => (w, s.data w))) } := by
  induction todo generalizing s got with
  | nil =>
    rw [List.map_nil, List.append_nil, ← hr, Function.update_eq_self]
    rfl
  | cons w ws ih =>
    have hstep : step p s (.read r) = some { s with
        readers := Function.update s.readers r (.copy order n s0 ws (got ++ [(w, s.data w)])) } := by
      simp only [step, hr, stepReader, Option.map_some]
    refine run_cons_some hstep ?_
    rw [ih _ _ (Function.update_self _ _ _)]
    simp only [Function.update_idem, List.map_cons, List.append_assoc, List.singleton_append]

/-- A read nobody publishes in the middle of. -/
theorem run_read {s : State R W V} {r : R} (hr : (s.readers r).free = true) (order : List W) (ho : p.order order = true)
    {n : ℕ} (hn : p.tries = n + 1) (he : p.enter s.seq = true) :
    run (step p) s (.call r order :: .read r :: (List.replicate order.length (.read r) ++ [.read r])) = some { s with
      readers := Function.update s.readers r (.back (p.accept s.seq) s.seq (order.map fun w => (w, s.data w))) } := by
  have hcall : step p s (.call r order) =
      some { s with readers := Function.update s.readers r (.sample order (n + 1)) } := by
    simp only [step, hr, ho, hn, and_self, if_true]
  have hsample : step p { s with readers := Function.update s.readers r (.sample order (n + 1)) } (.read r) =
      some { s with readers := Function.update s.readers r (.copy order n s.seq order []) } := by
    simp only [step, Function.update_self, stepReader, if_pos he, Option.map_some, Function.update_idem]
  refine run_cons_some hcall (run_cons_some hsample ?_)
  rw [run_append, run_copy _ r order n s.seq order [] (Function.update_self _ _ _)]
  simp only [Option.bind_some, run_cons, run_nil, step, Function.update_self, stepReader, Function.update_idem,
    if_true, List.nil_append, Option.map_some]

/-- The words after such a publish. -/
theorem run_publish_words {s : State R W V} (htodo : s.todo = []) (stores : List (W × V))
    (hst : p.stores stores = true) :
    ∃ as t, run (step p) s as = some t ∧ t.todo = [] ∧ t.seq = s.seq + 2 ∧ t.data = putAll s.data stores ∧
      t.log = s.log ++ [stores] ∧ t.readers = s.readers :=
  ⟨_, _, run_publish htodo stores hst, htodo, rfl, rfl, rfl, rfl⟩

/-- Publish and read in turn: the reader is back with what was published. -/
theorem run_published {s : State R W V} (htodo : s.todo = []) (stores : List (W × V)) (hst : p.stores stores = true)
    {r : R} (hr : (s.readers r).free = true) (order : List W) (ho : p.order order = true) {n : ℕ}
    (hn : p.tries = n + 1) (he : p.enter (s.seq + 2) = true) :
    ∃ as t, run (step p) s as = some t ∧ t.log = s.log ++ [stores] ∧ t.readers r =
      .back (p.accept (s.seq + 2)) (s.seq + 2) (order.map fun w => (w, putAll s.data stores w)) := by
  obtain ⟨as, t, hrun, -, hseq, hdata, hlog, hreaders⟩ := run_publish_words htodo stores hst
  have hread := run_read (p := p) (s := t) (r := r) (by rw [hreaders]; exact hr) order ho hn (by rw [hseq]; exact he)
  refine ⟨_, _, run_append_some hrun hread, hlog, ?_⟩
  rw [← hseq, ← hdata]
  exact Function.update_self _ _ _

end

end UserFace800.Lib.Seqlock
