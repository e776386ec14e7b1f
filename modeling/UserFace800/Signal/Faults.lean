import UserFace800.Signal.Analyse
/-!
# Dropped or altered

What is done to a signal on its way is a mark for each frame: kept, lost, or altered to a
value that is no encoding. The analyser keeps the index of the last valid sample over an
altered one, so to the next valid sample the altered frames are missing as the lost ones
are. It tells the two apart exactly if nothing is altered; or if so much is that the index
has come round in between (`told_iff`).
-/

namespace UserFace800.Signal

/-- What becomes of a sample of the signal. -/
inductive Mark where
  | kept
  | altered (v : Sample)
  | lost
  deriving DecidableEq

namespace Mark

/-- The sample was altered. -/
def isAltered : Mark → Bool
  | altered _ => true
  | kept | lost => false

end Mark

open Mark

/-- What is recorded of channel `c` from frame `i` on. -/
def recording (c : BitVec 32) : ℕ → List Mark → List Sample
  | _, [] => []
  | i, .kept :: ms => encoded c i :: recording c (i + 1) ms
  | i, .altered v :: ms => v :: recording c (i + 1) ms
  | i, .lost :: ms => recording c (i + 1) ms

/-- The runs of lost frames, counted at their ends. -/
def runs : List Mark → ℕ
  | [] => 0
  | .lost :: ms => (if ms.head? = some .lost then 0 else 1) + runs ms
  | .kept :: ms => runs ms
  | .altered _ :: ms => runs ms

/-- The first and the last frame are kept, no run is half a period, and what replaces a sample is no encoding. -/
structure Damaged (ms : List Mark) : Prop where
  first : ms.head? = some .kept
  last : ms.getLast? = some .kept
  short : ¬ List.replicate 32767 .lost <:+: ms
  invalid : ∀ v, .altered v ∈ ms → testsigValid v = false

/-- A report that tells what was done. -/
structure Told (r : TestSigReport) (ms : List Mark) : Prop where
  gaps : r.gaps = runs ms
  droppedFrames : r.droppedFrames = ms.count .lost
  notEncoded : r.notEncoded = ms.countP isAltered
  repeats : r.repeats = 0
  backwards : r.backwards = 0
  wrongChannel : r.wrongChannel = 0

/-- How many frames are missing or altered in front of each kept one, `n` of them so far. -/
def stretches : ℕ → List Mark → List ℕ
  | _, [] => []
  | n, .kept :: ms => n :: stretches 0 ms
  | n, .altered _ :: ms => stretches (n + 1) ms
  | n, .lost :: ms => stretches (n + 1) ms

/-- The stretches between the kept frames are, modulo the period, those of the lost frames. -/
structure Plain (ms : List Mark) : Prop where
  /-- No stretch looks like a repeat or a step back. -/
  near : ∀ n ∈ stretches 0 ms, n % 2 ^ 16 < 2 ^ 15 - 1
  /-- The altered frames are what whole periods hide. -/
  hidden : ms.countP isAltered = 2 ^ 16 * ((stretches 0 ms).map (· / 2 ^ 16)).sum
  apart : (stretches 0 ms).countP (· % 2 ^ 16 ≠ 0) = runs ms

/-! ## What the walk counts -/

namespace Analysis

variable {c : BitVec 32} {a : Analysis}

/-- The counts a walk adds are those of the stretches. -/
structure Counted (a b : Analysis) (ns : List ℕ) (altered : ℕ) : Prop where
  gaps : b.r.gaps = a.r.gaps + ns.countP fun n => 2 ≤ (n + 1) % 2 ^ 16 ∧ (n + 1) % 2 ^ 16 < 2 ^ 15
  droppedFrames : b.r.droppedFrames =
    a.r.droppedFrames + (ns.map fun n =>
      if 2 ≤ (n + 1) % 2 ^ 16 ∧ (n + 1) % 2 ^ 16 < 2 ^ 15 then (n + 1) % 2 ^ 16 - 1 else 0).sum
  notEncoded : b.r.notEncoded = a.r.notEncoded + altered
  repeats : b.r.repeats = a.r.repeats + ns.countP fun n => (n + 1) % 2 ^ 16 = 0
  backwards : b.r.backwards = a.r.backwards + ns.countP fun n => 2 ^ 15 ≤ (n + 1) % 2 ^ 16
  wrongChannel : b.r.wrongChannel = a.r.wrongChannel

/-- `n` frames after the last valid sample, which was that of frame `i`. -/
theorem walk_counted (hc : c < 16) (ms : List Mark) (hinvalid : ∀ v, .altered v ∈ ms → testsigValid v = false)
    (hseen : a.seen = true) {i n : ℕ} (hprev : a.prevIndex.toNat = i % 2 ^ 16) (f : ℕ) :
    Counted a (a.walk c f (recording c (i + n + 1) ms)) (stretches n ms) (ms.countP isAltered) := by
  induction ms generalizing a i n f with
  | nil => exact ⟨rfl, rfl, rfl, rfl, rfl, rfl⟩
  | cons m ms ih =>
    have hrest : ∀ v, .altered v ∈ ms → testsigValid v = false := fun v hv => hinvalid v (List.mem_cons_of_mem _ hv)
    cases m with
    | kept =>
      obtain ⟨hv, hch, hix⟩ := (encoded_iff hc _ (i + n + 1)).1 rfl
      have hnext : Next c a (a.observe c f (encoded c (i + n + 1))) (encoded c (i + n + 1)) ((n + 1) % 2 ^ 16) := by
        refine observe_next hseen hv (by omega) (Nat.mod_lt _ (by decide)) ?_
        rw [hix, hprev]
        omega
      have hgo := ih hrest hnext.seen (i := i + n + 1) (n := 0) (by rw [hnext.prev, hix]) (f + 1)
      rw [recording, walk, stretches]
      constructor
      · rw [hgo.gaps, hnext.gaps, List.countP_cons]
        simp only [decide_eq_true_eq]
        omega
      · rw [hgo.droppedFrames, hnext.dropped, List.map_cons, List.sum_cons, Nat.add_assoc]
      · rw [hgo.notEncoded, hnext.notEncoded]
        rfl
      · rw [hgo.repeats, hnext.repeats, List.countP_cons]
        simp only [decide_eq_true_eq]
        omega
      · rw [hgo.backwards, hnext.backwards, List.countP_cons]
        simp only [decide_eq_true_eq]
        omega
      · rw [hgo.wrongChannel, hnext.wrongChannel, if_neg (not_not.2 hch)]
        rfl
    | altered v =>
      obtain ⟨e, he⟩ := observe_altered c f (hinvalid v List.mem_cons_self) (.inl hseen)
      have hgo :=
        ih hrest (a := a.observe c f v) (by rw [he]; exact hseen) (i := i) (n := n + 1)
          (by rw [he]; exact hprev) (f + 1)
      rw [recording, walk, stretches]
      constructor
      · rw [show i + n + 1 + 1 = i + (n + 1) + 1 by omega, hgo.gaps, he]
      · rw [show i + n + 1 + 1 = i + (n + 1) + 1 by omega, hgo.droppedFrames, he]
      · rw [show i + n + 1 + 1 = i + (n + 1) + 1 by omega, hgo.notEncoded, he, List.countP_cons_of_pos rfl]
        dsimp only
        omega
      · rw [show i + n + 1 + 1 = i + (n + 1) + 1 by omega, hgo.repeats, he]
      · rw [show i + n + 1 + 1 = i + (n + 1) + 1 by omega, hgo.backwards, he]
      · rw [show i + n + 1 + 1 = i + (n + 1) + 1 by omega, hgo.wrongChannel, he]
    | lost =>
      have hgo := ih hrest hseen (i := i) (n := n + 1) hprev f
      rw [recording, stretches, show i + n + 1 + 1 = i + (n + 1) + 1 by omega]
      exact hgo

end Analysis

/-! ## The stretches of a damaged signal -/

/-- The marks end with a kept one, if `n` frames are still to be accounted for. -/
def Ends (n : ℕ) (ms : List Mark) : Prop := (ms = [] ∧ n = 0) ∨ ms.getLast? = some .kept

theorem ends_kept {n : ℕ} {ms : List Mark} (h : Ends n (.kept :: ms)) : Ends 0 ms := by
  rcases h with ⟨hnil, -⟩ | hlast
  · cases hnil
  · cases ms with
    | nil => exact .inl ⟨rfl, rfl⟩
    | cons m ms => exact .inr (by rw [List.getLast?_cons_cons] at hlast; exact hlast)

theorem ends_other {n : ℕ} {m : Mark} {ms : List Mark} (h : Ends n (m :: ms)) (hm : m ≠ .kept) : Ends (n + 1) ms := by
  rcases h with ⟨hnil, -⟩ | hlast
  · cases hnil
  · cases ms with
    | nil => exact absurd (Option.some.inj hlast) hm
    | cons m' ms => exact .inr (by rw [List.getLast?_cons_cons] at hlast; exact hlast)

theorem sum_stretches {n : ℕ} {ms : List Mark} (h : Ends n ms) :
    (stretches n ms).sum = n + ms.count .lost + ms.countP isAltered := by
  induction ms generalizing n with
  | nil =>
    rcases h with ⟨-, rfl⟩ | hlast
    · rfl
    · cases hlast
  | cons m ms ih =>
    cases m with
    | kept =>
      rw [stretches, List.sum_cons, ih (ends_kept h), List.count_cons_of_ne (by decide),
        List.countP_cons_of_neg (by decide)]
      omega
    | altered v =>
      rw [stretches, ih (ends_other h (by simp)), List.count_cons_of_ne (by simp), List.countP_cons_of_pos rfl]
      omega
    | lost =>
      rw [stretches, ih (ends_other h (by decide)), List.count_cons_self, List.countP_cons_of_neg (by decide)]
      omega

/-- Where nothing is altered, a stretch is a run. -/
theorem stretches_lost {n : ℕ} {ms : List Mark} (hnone : ms.countP isAltered = 0) {k : ℕ}
    (hshort : ¬ List.replicate k .lost <:+: List.replicate n .lost ++ ms) : ∀ m ∈ stretches n ms, m < k := by
  induction ms generalizing n with
  | nil => exact fun m hm => nomatch hm
  | cons m ms ih =>
    cases m with
    | kept =>
      rw [List.countP_cons_of_neg (by decide)] at hnone
      have hn : n < k := by
        by_contra hle
        rw [Nat.not_lt] at hle
        have hrun : List.replicate k Mark.lost <:+: List.replicate n Mark.lost := by
          rw [List.infix_replicate_iff, List.length_replicate]
          exact ⟨hle, rfl⟩
        exact hshort (hrun.trans (List.prefix_append _ _).isInfix)
      refine List.forall_mem_cons.2 ⟨hn, ih hnone fun hinfix => hshort ?_⟩
      rw [List.replicate_zero, List.nil_append] at hinfix
      exact hinfix.trans ⟨List.replicate n .lost ++ [.kept], [], by simp⟩
    | altered v => rw [List.countP_cons_of_pos rfl] at hnone; cases hnone
    | lost =>
      rw [List.countP_cons_of_neg (by decide)] at hnone
      refine ih hnone fun hinfix => hshort ?_
      rw [List.replicate_succ', List.append_assoc, List.singleton_append] at hinfix
      exact hinfix

/-- Its end is where the run is counted. -/
theorem countP_stretches {n : ℕ} {ms : List Mark} (h : Ends n ms) (hnone : ms.countP isAltered = 0) :
    (stretches n ms).countP (· ≠ 0) = runs ms + if n ≠ 0 ∧ ms.head? ≠ some .lost then 1 else 0 := by
  induction ms generalizing n with
  | nil =>
    rcases h with ⟨-, rfl⟩ | hlast
    · rfl
    · cases hlast
  | cons m ms ih =>
    cases m with
    | kept =>
      rw [List.countP_cons_of_neg (by decide)] at hnone
      rw [stretches, List.countP_cons, ih (ends_kept h) hnone, runs]
      simp
    | altered v => rw [List.countP_cons_of_pos rfl] at hnone; cases hnone
    | lost =>
      rw [List.countP_cons_of_neg (by decide)] at hnone
      rw [stretches, ih (ends_other h (by decide)) hnone, runs]
      by_cases hhead : ms.head? = some .lost
      · simp [hhead]
      · simp [hhead]
        omega

theorem sum_mod (ns : List ℕ) (k : ℕ) : (ns.map (· % k)).sum + k * (ns.map (· / k)).sum = ns.sum := by
  induction ns with
  | nil => rfl
  | cons n ns ih =>
    have hn := Nat.mod_add_div n k
    simp only [List.map_cons, List.sum_cons, Nat.mul_add] at ih ⊢
    omega

/-! ## When the report tells -/

/-- What is counted of stretches none of which looks like a repeat or a step back. -/
theorem counted_near {ns : List ℕ} (hnear : ∀ n ∈ ns, n % 2 ^ 16 < 2 ^ 15 - 1) :
    (ns.countP fun n => 2 ≤ (n + 1) % 2 ^ 16 ∧ (n + 1) % 2 ^ 16 < 2 ^ 15) = ns.countP (· % 2 ^ 16 ≠ 0) ∧
    (ns.map fun n => if 2 ≤ (n + 1) % 2 ^ 16 ∧ (n + 1) % 2 ^ 16 < 2 ^ 15 then (n + 1) % 2 ^ 16 - 1 else 0) =
      ns.map (· % 2 ^ 16) := by
  constructor
  · refine List.countP_congr fun n hn => ?_
    have := hnear n hn
    simp only [decide_eq_true_eq]
    omega
  · refine List.map_congr_left fun n hn => ?_
    have := hnear n hn
    split <;> omega

theorem near_iff (ns : List ℕ) : (∀ n ∈ ns, n % 2 ^ 16 < 2 ^ 15 - 1) ↔
    (ns.countP fun n => (n + 1) % 2 ^ 16 = 0) = 0 ∧ (ns.countP fun n => 2 ^ 15 ≤ (n + 1) % 2 ^ 16) = 0 := by
  rw [List.countP_eq_zero, List.countP_eq_zero, ← forall₂_and]
  refine forall₂_congr fun n hn => ?_
  simp only [decide_eq_true_eq]
  omega

/-- Without an altered frame the condition holds; with fewer than a period of them it does not. -/
theorem plain_iff {ms : List Mark} (h : Damaged ms) (hfew : ms.countP isAltered < 2 ^ 16) :
    Plain ms ↔ ms.countP isAltered = 0 := by
  constructor
  · intro hplain
    have := hplain.hidden
    omega
  · intro hnone
    have hends : Ends 0 ms := .inr h.last
    have hshort := stretches_lost (n := 0) hnone h.short
    have hmod : (stretches 0 ms).map (· % 2 ^ 16) = stretches 0 ms := by
      conv_rhs => rw [← List.map_id (stretches 0 ms)]
      refine List.map_congr_left fun n hn => Nat.mod_eq_of_lt ?_
      have := hshort n hn
      omega
    refine ⟨fun n hn => ?_, ?_, ?_⟩
    · have := hshort n hn
      omega
    · have hsum := sum_mod (stretches 0 ms) (2 ^ 16)
      rw [hmod] at hsum
      omega
    · have hcount := countP_stretches hends hnone
      rw [if_neg (fun hno => hno.1 rfl), Nat.add_zero] at hcount
      rw [← hcount]
      refine List.countP_congr fun n hn => ?_
      have := hshort n hn
      simp only [decide_eq_true_eq]
      omega

/-- The report on a damaged signal, in terms of its stretches. -/
theorem analyse_counted {c : BitVec 32} (hc : c < 16) {ms : List Mark} (h : Damaged ms) (i : ℕ) :
    Analysis.Counted {} (({} : Analysis).walk c 0 (recording c i ms)) (stretches 0 ms) (ms.countP isAltered) := by
  obtain ⟨ms, rfl⟩ : ∃ rest, ms = .kept :: rest := by
    cases ms with
    | nil => cases h.first
    | cons m ms => exact ⟨ms, by rw [Option.some.inj h.first]⟩
  obtain ⟨hv, hch, hix⟩ := (encoded_iff hc _ i).1 rfl
  have hfirst : Analysis.First c {} (({} : Analysis).observe c 0 (encoded c i)) (encoded c i) :=
    Analysis.observe_first _ _ rfl hv (testsigSample_ne_zero _ _)
  have hgo :=
    Analysis.walk_counted hc ms (fun v hv => h.invalid v (List.mem_cons_of_mem _ hv)) hfirst.seen (i := i) (n := 0)
    (by rw [hfirst.prev, hix]) 1
  rw [recording, Analysis.walk, stretches]
  constructor
  · rw [hgo.gaps, hfirst.gaps, List.countP_cons_of_neg (by decide)]
  · rw [hgo.droppedFrames, hfirst.dropped, List.map_cons, List.sum_cons, if_neg (by decide), Nat.zero_add]
    exact (Nat.zero_add _).symm
  · rw [hgo.notEncoded, hfirst.notEncoded]
    rfl
  · rw [hgo.repeats, hfirst.repeats, List.countP_cons_of_neg (by decide)]
  · rw [hgo.backwards, hfirst.backwards, List.countP_cons_of_neg (by decide)]
  · rw [hgo.wrongChannel, hfirst.wrongChannel, if_neg (not_not.2 hch)]

/-- The counts tell what was done exactly if the stretches are plain; below a period of
altered frames, if there are none. -/
theorem told_iff {c : BitVec 32} (hc : c < 16) {ms : List Mark} (h : Damaged ms) {frames : ℕ → Sample}
    {frameCount channels col i : ℕ} (hrec : column frames frameCount channels col = recording c i ms) :
    (Told (testsigAnalyse frames frameCount channels col c) ms ↔ Plain ms) ∧
      (ms.countP isAltered < 2 ^ 16 → (Plain ms ↔ ms.countP isAltered = 0)) := by
  refine ⟨?_, plain_iff h⟩
  have hcounted := analyse_counted hc h i
  have hsum := sum_stretches (n := 0) (.inr h.last)
  have hmod := sum_mod (stretches 0 ms) (2 ^ 16)
  rw [testsigAnalyse, hrec]
  have hgaps := hcounted.gaps
  have hdropped := hcounted.droppedFrames
  have hrepeats := hcounted.repeats
  have hbackwards := hcounted.backwards
  rw [Nat.zero_add] at hgaps hdropped hrepeats hbackwards
  constructor
  · intro htold
    have hnear := (near_iff _).2 ⟨hrepeats.symm.trans htold.repeats, hbackwards.symm.trans htold.backwards⟩
    obtain ⟨hcount, hmap⟩ := counted_near hnear
    rw [hcount, htold.gaps] at hgaps
    rw [hmap, htold.droppedFrames] at hdropped
    exact ⟨hnear, by omega, hgaps.symm⟩
  · intro hplain
    obtain ⟨hzero, hfar⟩ := (near_iff _).1 hplain.near
    obtain ⟨hcount, hmap⟩ := counted_near hplain.near
    rw [hcount] at hgaps
    rw [hmap] at hdropped
    have hhidden := hplain.hidden
    refine ⟨hgaps.trans hplain.apart, by omega, ?_, hrepeats.trans hzero, hbackwards.trans hfar, hcounted.wrongChannel⟩
    rw [hcounted.notEncoded]
    exact Nat.zero_add _

theorem not_long {ms : List Mark} (h : ms.length < 32767) : ¬ List.replicate 32767 .lost <:+: ms := by
  intro hinfix
  have hle := hinfix.length_le
  rw [List.length_replicate] at hle
  exact absurd h (Nat.not_lt.2 hle)

/-- Five frames, of which the third and the fourth are lost. -/
def twoLost : List Mark := [.kept, .kept, .lost, .lost, .kept]

theorem two_lost : Damaged twoLost := by
  refine ⟨rfl, rfl, not_long (by decide), fun v hv => ?_⟩
  simp [twoLost] at hv

theorem told_iff_lost : Told (testsigAnalyse (fun f => (recording 0 0 twoLost).getD f 0) 3 1 0 0) twoLost := by
  have htold := @told_iff 0 (by decide) twoLost two_lost (fun f => (recording 0 0 twoLost).getD f 0) 3 1 0 0 (by decide)
  exact htold.1.2 ((htold.2 (by decide)).2 rfl)

/-- Three frames, of which the second is altered. -/
def oneAltered : List Mark := [.kept, .altered 0, .kept]

/-- The altered frame is reported as a dropped one, too. -/
theorem altered_dropped : Damaged oneAltered ∧
    (testsigAnalyse (fun f => (recording 0 0 oneAltered).getD f 0) 3 1 0 0).notEncoded = 1 ∧
    (testsigAnalyse (fun f => (recording 0 0 oneAltered).getD f 0) 3 1 0 0).gaps = 1 ∧
    (testsigAnalyse (fun f => (recording 0 0 oneAltered).getD f 0) 3 1 0 0).droppedFrames = 1 ∧
    ¬ Told (testsigAnalyse (fun f => (recording 0 0 oneAltered).getD f 0) 3 1 0 0) oneAltered := by
  have hgaps : (testsigAnalyse (fun f => (recording 0 0 oneAltered).getD f 0) 3 1 0 0).gaps = 1 := by decide +kernel
  refine ⟨⟨rfl, rfl, not_long (by decide), ?_⟩, by decide +kernel, hgaps, by decide +kernel, fun htold => ?_⟩
  · intro v hv
    simp only [oneAltered, List.mem_cons, reduceCtorEq, Mark.altered.injEq, List.not_mem_nil, or_false, false_or] at hv
    rw [hv]
    decide
  · have := htold.gaps
    rw [hgaps] at this
    exact absurd this (by decide)

end UserFace800.Signal
