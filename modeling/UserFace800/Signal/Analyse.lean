import UserFace800.Signal.Encoding
/-!
# The analyser

`testsig_analyse` walks one column of a recording. What one sample does to its counts is
one of six things, by what the sample is and which index the last valid one had
(`observe_silence` to `observe_next`); every count only grows. So a report is clean exactly
if no sample but leading zeros strays from the signal (`clean_iff`).
-/
open UserFace800.Lib.Bits

namespace UserFace800.Signal

/-- What can be wrong with a sample. -/
inductive TestSigFault where
  | gap
  | repeated
  | backwards
  | wrongChannel
  | notEncoded
  deriving DecidableEq

/-- A fault, where it was, and by how much. -/
structure TestSigEvent where
  fault : TestSigFault
  channel : BitVec 32
  frame : ℕ
  delta : ℤ
  sawChannel : BitVec 32
  deriving DecidableEq

/-- The counts are of frames of one recording, so 64 bits hold them. -/
structure TestSigReport where
  started : Bool := false
  framesChecked : ℕ := 0
  gaps : ℕ := 0
  repeats : ℕ := 0
  backwards : ℕ := 0
  wrongChannel : ℕ := 0
  notEncoded : ℕ := 0
  droppedFrames : ℕ := 0
  events : List TestSigEvent := []
  deriving DecidableEq

/-- The signal was found, and nothing was wrong with it. -/
def TestSigReport.clean (r : TestSigReport) : Bool :=
  r.started && r.gaps == 0 && r.repeats == 0 && r.backwards == 0 && r.wrongChannel == 0 && r.notEncoded == 0

/-- The events a report has room for. -/
def kTestSigMaxEvents : ℕ := 64

/-- Past that an event is dropped. -/
def pushEvent (events : List TestSigEvent) (e : TestSigEvent) : List TestSigEvent :=
  if events.length < kTestSigMaxEvents then events ++ [e] else events

/-- The report with the two locals of the loop, `have` and `prevIndex`. -/
structure Analysis where
  r : TestSigReport := {}
  seen : Bool := false
  prevIndex : BitVec 32 := 0

namespace Analysis

/-- The index that should come next. -/
def expect (a : Analysis) : BitVec 32 := (a.prevIndex + 1) &&& kTestSigIndexMask

/-- How far the index is ahead of the last one, forward across the wrap. -/
def delta (a : Analysis) (ix : BitVec 32) : ℤ :=
  let d := (ix.toNat : ℤ) - a.prevIndex.toNat
  if d < 0 then d + kTestSigPeriod else d

/-- What the index of a valid sample says after another one. -/
def discontinuity (a : Analysis) (expectChannel : BitVec 32) (f : ℕ) (ix ch : BitVec 32) (r : TestSigReport) :
    TestSigReport :=
  let d := a.delta ix
  if ix ≠ a.expect then
    if d = 0 then
      { r with repeats := r.repeats + 1, events := pushEvent r.events ⟨.repeated, expectChannel, f, 0, ch⟩ }
    else if 0 < d ∧ d < kTestSigPeriod / 2 then
      { r with
        gaps := r.gaps + 1
        droppedFrames := r.droppedFrames + (d - 1).toNat
        events := pushEvent r.events ⟨.gap, expectChannel, f, d, ch⟩ }
    else
      { r with
        backwards := r.backwards + 1
        events := pushEvent r.events ⟨.backwards, expectChannel, f, d - kTestSigPeriod, ch⟩ }
  else r

/-- A turn of the loop: frame `f` of the recording has the sample `s`. -/
def observe (expectChannel : BitVec 32) (a : Analysis) (f : ℕ) (s : Sample) : Analysis :=
  if a.seen = false ∧ s = 0 then a
  else
    let ch := testsigChannelOf s
    let ix := testsigIndexOf s
    let r := a.r
    if testsigValid s = false then
      { a with
        r := { r with
          notEncoded := r.notEncoded + 1
          events := pushEvent r.events ⟨.notEncoded, expectChannel, f, 0, ch⟩ } }
    else
      let r :=
        if ch ≠ expectChannel then
          { r with
            wrongChannel := r.wrongChannel + 1
            events := pushEvent r.events ⟨.wrongChannel, expectChannel, f, 0, ch⟩ }
        else r
      if a.seen = false then
        { r := { r with started := true, framesChecked := r.framesChecked + 1 }, seen := true, prevIndex := ix }
      else
        let r := a.discontinuity expectChannel f ix ch r
        { a with r := { r with framesChecked := r.framesChecked + 1 }, prevIndex := ix }

/-- The loop over a column from frame `f` on. -/
def walk (expectChannel : BitVec 32) (a : Analysis) (f : ℕ) : List Sample → Analysis
  | [] => a
  | s :: ss => (a.observe expectChannel f s).walk expectChannel (f + 1) ss

end Analysis

/-- One column of a frame-major recording. -/
def column (frames : ℕ → Sample) (frameCount channels col : ℕ) : List Sample :=
  (List.range frameCount).map fun f => frames (f * channels + col)

/-- The report on one column of a recording. -/
def testsigAnalyse (frames : ℕ → Sample) (frameCount channels col : ℕ) (expectChannel : BitVec 32) : TestSigReport :=
  (({} : Analysis).walk expectChannel 0 (column frames frameCount channels col)).r

/-- The signal of channel `c` from frame `i` on. -/
def signal (c : BitVec 32) (i n : ℕ) : List Sample := (List.range n).map fun k => encoded c (i + k)

/-! ## What a sample does to the counts -/

theorem signal_succ (c : BitVec 32) (i n : ℕ) : signal c i (n + 1) = encoded c i :: signal c (i + 1) n := by
  unfold signal
  rw [List.range_succ_eq_map, List.map_cons, List.map_map, Nat.add_zero]
  congr 1
  apply List.map_congr_left
  intro k _
  rw [Function.comp_apply, Nat.succ_eq_add_one]
  congr 1
  omega

theorem signal_mod (c : BitVec 32) {i j : ℕ} (h : i % 2 ^ 16 = j % 2 ^ 16) (n : ℕ) : signal c i n = signal c j n := by
  unfold signal
  refine List.map_congr_left fun k _ => ?_
  rw [encoded_eq_iff]
  omega

/-- The counts that make a report unclean. -/
def TestSigReport.faults (r : TestSigReport) : ℕ := r.gaps + r.repeats + r.backwards + r.wrongChannel + r.notEncoded

theorem clean_iff_faults (r : TestSigReport) : r.clean = true ↔ r.started = true ∧ r.faults = 0 := by
  unfold TestSigReport.clean TestSigReport.faults
  simp only [Bool.and_eq_true, beq_iff_eq]
  constructor
  · rintro ⟨⟨⟨⟨⟨hs, hg⟩, hr⟩, hb⟩, hw⟩, hn⟩
    exact ⟨hs, by omega⟩
  · rintro ⟨hs, hsum⟩
    exact ⟨⟨⟨⟨⟨hs, by omega⟩, by omega⟩, by omega⟩, by omega⟩, by omega⟩

namespace Analysis

variable {ec : BitVec 32} {a : Analysis} {f : ℕ} {s : Sample}

theorem observe_silence (h : a.seen = false) : a.observe ec f 0 = a := by
  rw [observe, if_pos ⟨h, rfl⟩]

/-- A value that is no encoding counts as such, and the index expected next stays. -/
theorem observe_altered (ec : BitVec 32) (f : ℕ) (hv : testsigValid s = false) (hs : a.seen = true ∨ s ≠ 0) :
    ∃ e, a.observe ec f s = { a with r := { a.r with notEncoded := a.r.notEncoded + 1, events := e } } := by
  have hgo : ¬ (a.seen = false ∧ s = 0) := by
    rintro ⟨hno, hzero⟩
    rcases hs with hs | hs
    · rw [hno] at hs
      cases hs
    · exact hs hzero
  rw [observe, if_neg hgo]
  dsimp only
  rw [if_pos hv]
  exact ⟨_, rfl⟩

/-- The first valid sample. -/
structure First (ec : BitVec 32) (a b : Analysis) (s : Sample) : Prop where
  seen : b.seen = true
  prev : b.prevIndex = testsigIndexOf s
  started : b.r.started = true
  checked : b.r.framesChecked = a.r.framesChecked + 1
  gaps : b.r.gaps = a.r.gaps
  dropped : b.r.droppedFrames = a.r.droppedFrames
  repeats : b.r.repeats = a.r.repeats
  backwards : b.r.backwards = a.r.backwards
  wrongChannel : b.r.wrongChannel = a.r.wrongChannel + if testsigChannelOf s ≠ ec then 1 else 0
  notEncoded : b.r.notEncoded = a.r.notEncoded

theorem observe_first (ec : BitVec 32) (f : ℕ) (hseen : a.seen = false) (hv : testsigValid s = true) (hs : s ≠ 0) :
    First ec a (a.observe ec f s) s := by
  rw [observe, if_neg (fun h => hs h.2)]
  dsimp only
  rw [if_neg (by rw [hv]; decide), if_pos hseen]
  by_cases hch : testsigChannelOf s ≠ ec
  · rw [if_pos hch]
    constructor <;> first | rfl | rw [if_pos hch]
  · rw [if_neg hch]
    constructor <;> first | rfl | (rw [if_neg hch]; rfl)

/-- A valid sample `d` frames after the last one, modulo the period. -/
structure Next (ec : BitVec 32) (a b : Analysis) (s : Sample) (d : ℕ) : Prop where
  seen : b.seen = true
  prev : b.prevIndex = testsigIndexOf s
  started : b.r.started = a.r.started
  checked : b.r.framesChecked = a.r.framesChecked + 1
  gaps : b.r.gaps = a.r.gaps + if 2 ≤ d ∧ d < 2 ^ 15 then 1 else 0
  dropped : b.r.droppedFrames = a.r.droppedFrames + if 2 ≤ d ∧ d < 2 ^ 15 then d - 1 else 0
  repeats : b.r.repeats = a.r.repeats + if d = 0 then 1 else 0
  backwards : b.r.backwards = a.r.backwards + if 2 ^ 15 ≤ d then 1 else 0
  wrongChannel : b.r.wrongChannel = a.r.wrongChannel + if testsigChannelOf s ≠ ec then 1 else 0
  notEncoded : b.r.notEncoded = a.r.notEncoded

theorem expect_toNat (a : Analysis) : a.expect.toNat = (a.prevIndex.toNat + 1) % 2 ^ 16 := by
  rw [expect, toNat_mask 16 rfl, BitVec.toNat_add, show (1 : BitVec 32).toNat = 1 from rfl]
  omega

theorem index_lt (s : Sample) : (testsigIndexOf s).toNat < 2 ^ 16 := mask_lt 16 rfl _

theorem delta_eq {ix : BitVec 32} {d : ℕ} (hp : a.prevIndex.toNat < 2 ^ 16) (hd : d < 2 ^ 16)
    (hix : ix.toNat = (a.prevIndex.toNat + d) % 2 ^ 16) : a.delta ix = d := by
  unfold delta kTestSigPeriod
  dsimp only
  split <;> omega

/-- What an index `d` ahead of the last one changes. -/
structure Jump (d : ℕ) (r q : TestSigReport) : Prop where
  gaps : q.gaps = r.gaps + if 2 ≤ d ∧ d < 2 ^ 15 then 1 else 0
  dropped : q.droppedFrames = r.droppedFrames + if 2 ≤ d ∧ d < 2 ^ 15 then d - 1 else 0
  repeats : q.repeats = r.repeats + if d = 0 then 1 else 0
  backwards : q.backwards = r.backwards + if 2 ^ 15 ≤ d then 1 else 0
  rest : q.started = r.started ∧ q.framesChecked = r.framesChecked ∧ q.wrongChannel = r.wrongChannel ∧
      q.notEncoded = r.notEncoded

theorem discontinuity_jump (ec : BitVec 32) (f : ℕ) {ix : BitVec 32} (ch : BitVec 32) (r : TestSigReport)
    (hp : a.prevIndex.toNat < 2 ^ 16) {d : ℕ} (hd : d < 2 ^ 16)
    (hix : ix.toNat = (a.prevIndex.toNat + d) % 2 ^ 16) : Jump d r (a.discontinuity ec f ix ch r) := by
  have hexpect : ix = a.expect ↔ d = 1 := by
    rw [← BitVec.toNat_inj, expect_toNat, hix]
    omega
  unfold discontinuity
  dsimp only
  rw [delta_eq hp hd hix, show kTestSigPeriod / 2 = 2 ^ 15 from rfl]
  rcases (show d = 1 ∨ d = 0 ∨ (2 ≤ d ∧ d < 2 ^ 15) ∨ 2 ^ 15 ≤ d by omega) with rfl | rfl | ⟨htwo, hhalf⟩ | hhalf
  · rw [if_neg (not_not.2 (hexpect.2 rfl))]
    exact ⟨rfl, rfl, rfl, rfl, rfl, rfl, rfl, rfl⟩
  · rw [if_pos (fun h => absurd (hexpect.1 h) (by decide)), if_pos (show ((0 : ℕ) : ℤ) = 0 from rfl)]
    exact ⟨rfl, rfl, rfl, rfl, rfl, rfl, rfl, rfl⟩
  · rw [if_pos (fun h => absurd (hexpect.1 h) (by omega)), if_neg (by omega), if_pos (by omega)]
    refine ⟨?_, ?_, ?_, ?_, rfl, rfl, rfl, rfl⟩
    · rw [if_pos ⟨htwo, hhalf⟩]
    · rw [if_pos ⟨htwo, hhalf⟩]
      dsimp only
      omega
    · rw [if_neg (by omega)]
      rfl
    · rw [if_neg (by omega)]
      rfl
  · rw [if_pos (fun h => absurd (hexpect.1 h) (by omega)), if_neg (by omega), if_neg (by omega)]
    refine ⟨?_, ?_, ?_, ?_, rfl, rfl, rfl, rfl⟩
    · rw [if_neg (by omega)]
      rfl
    · rw [if_neg (by omega)]
      rfl
    · rw [if_neg (by omega)]
      rfl
    · rw [if_pos hhalf]

theorem observe_next (hseen : a.seen = true) (hv : testsigValid s = true) (hp : a.prevIndex.toNat < 2 ^ 16) {d : ℕ}
    (hd : d < 2 ^ 16) (hix : (testsigIndexOf s).toNat = (a.prevIndex.toNat + d) % 2 ^ 16) :
    Next ec a (a.observe ec f s) s d := by
  have hseen' : ¬ a.seen = false := by
    rw [hseen]
    decide
  rw [observe, if_neg (fun h => hseen' h.1)]
  dsimp only
  rw [if_neg (by rw [hv]; decide), if_neg hseen']
  by_cases hch : testsigChannelOf s ≠ ec
  · rw [if_pos hch]
    have hjump := discontinuity_jump ec f (testsigChannelOf s) ({ a.r with
      wrongChannel := a.r.wrongChannel + 1
      events := pushEvent a.r.events ⟨.wrongChannel, ec, f, 0, testsigChannelOf s⟩ }) hp hd hix
    obtain ⟨hstarted, hchecked, hwrong, hencoded⟩ := hjump.rest
    refine ⟨hseen, rfl, hstarted, congrArg (· + 1) hchecked, hjump.gaps, hjump.dropped, hjump.repeats, hjump.backwards,
      ?_, hencoded⟩
    rw [if_pos hch]
    exact hwrong
  · rw [if_neg hch]
    have hjump := discontinuity_jump ec f (testsigChannelOf s) a.r hp hd hix
    obtain ⟨hstarted, hchecked, hwrong, hencoded⟩ := hjump.rest
    refine ⟨hseen, rfl, hstarted, congrArg (· + 1) hchecked, hjump.gaps, hjump.dropped, hjump.repeats, hjump.backwards,
      ?_, hencoded⟩
    rw [if_neg hch]
    exact hwrong

/-- How far a sample's index is ahead, in frames. -/
def ahead (a : Analysis) (s : Sample) : ℕ := ((testsigIndexOf s).toNat + 2 ^ 16 - a.prevIndex.toNat) % 2 ^ 16

theorem ahead_lt (a : Analysis) (s : Sample) : a.ahead s < 2 ^ 16 := Nat.mod_lt _ (by decide)

theorem index_ahead (hp : a.prevIndex.toNat < 2 ^ 16) (s : Sample) :
    (testsigIndexOf s).toNat = (a.prevIndex.toNat + a.ahead s) % 2 ^ 16 := by
  have hlt := index_lt s
  unfold ahead
  omega

/-- A sample is silence, altered, the first one or a next one. -/
theorem observe_cases (ec : BitVec 32) (f : ℕ) (s : Sample) (hp : a.prevIndex.toNat < 2 ^ 16) :
    (a.seen = false ∧ s = 0 ∧ a.observe ec f s = a) ∨
    (testsigValid s = false ∧
      ∃ e, a.observe ec f s = { a with r := { a.r with notEncoded := a.r.notEncoded + 1, events := e } }) ∨
    (a.seen = false ∧ testsigValid s = true ∧ First ec a (a.observe ec f s) s) ∨
    (a.seen = true ∧ testsigValid s = true ∧ Next ec a (a.observe ec f s) s (a.ahead s)) := by
  by_cases hs : a.seen = false ∧ s = 0
  · obtain ⟨hseen, rfl⟩ := hs
    exact .inl ⟨hseen, rfl, observe_silence hseen⟩
  · right
    have hgo : a.seen = true ∨ s ≠ 0 := by
      cases hseen : a.seen with
      | true => exact .inl rfl
      | false => exact .inr fun h => hs ⟨hseen, h⟩
    cases hv : testsigValid s with
    | false => exact .inl ⟨rfl, observe_altered _ _ hv hgo⟩
    | true =>
      right
      cases hseen : a.seen with
      | true => exact .inr ⟨rfl, rfl, observe_next hseen hv hp (ahead_lt a s) (index_ahead hp s)⟩
      | false =>
        refine .inl ⟨rfl, rfl, observe_first _ _ hseen hv ?_⟩
        rcases hgo with hgo | hgo
        · rw [hseen] at hgo
          cases hgo
        · exact hgo

theorem observe_prev (ec : BitVec 32) (hp : a.prevIndex.toNat < 2 ^ 16) (f : ℕ) (s : Sample) :
    (a.observe ec f s).prevIndex.toNat < 2 ^ 16 := by
  rcases observe_cases ec f s hp with ⟨-, -, h⟩ | ⟨-, e, h⟩ | ⟨-, -, h⟩ | ⟨-, -, h⟩
  · rw [h]
    exact hp
  · rw [h]
    exact hp
  · rw [h.prev]
    exact index_lt s
  · rw [h.prev]
    exact index_lt s

/-- No count ever goes down. -/
theorem observe_faults (ec : BitVec 32) (hp : a.prevIndex.toNat < 2 ^ 16) (f : ℕ) (s : Sample) :
    a.r.faults ≤ (a.observe ec f s).r.faults := by
  unfold TestSigReport.faults
  rcases observe_cases ec f s hp with ⟨-, -, h⟩ | ⟨-, e, h⟩ | ⟨-, -, h⟩ | ⟨-, -, h⟩
  · rw [h]
  · rw [h]
    dsimp only
    omega
  · rw [h.gaps, h.repeats, h.backwards, h.wrongChannel, h.notEncoded]
    omega
  · rw [h.gaps, h.repeats, h.backwards, h.wrongChannel, h.notEncoded]
    omega

theorem walk_faults (ec : BitVec 32) (ss : List Sample) (hp : a.prevIndex.toNat < 2 ^ 16) (f : ℕ) :
    a.r.faults ≤ (a.walk ec f ss).r.faults := by
  induction ss generalizing a f with
  | nil => exact le_refl _
  | cons s ss ih => exact (observe_faults ec hp f s).trans (ih (observe_prev ec hp f s) (f + 1))

/-! ## Clean recordings -/

theorem ahead_one_iff (hp : a.prevIndex.toNat < 2 ^ 16) (s : Sample) :
    a.ahead s = 1 ↔ (testsigIndexOf s).toNat = (a.prevIndex.toNat + 1) % 2 ^ 16 := by
  have hlt := index_lt s
  unfold ahead
  omega

/-- The first sample is no fault exactly if it is the channel's. -/
theorem first_clean (ec : BitVec 32) (hseen : a.seen = false) (hs : s ≠ 0) (hp : a.prevIndex.toNat < 2 ^ 16) (f : ℕ) :
    (a.observe ec f s).r.faults = a.r.faults ↔ testsigValid s = true ∧ testsigChannelOf s = ec := by
  unfold TestSigReport.faults
  rcases observe_cases ec f s hp with ⟨-, hzero, -⟩ | ⟨hv, e, h⟩ | ⟨-, hv, h⟩ | ⟨hno, -, -⟩
  · exact absurd hzero hs
  · rw [h, hv]
    dsimp only
    constructor
    · intro hsum
      omega
    · rintro ⟨hno, -⟩
      cases hno
  · rw [h.gaps, h.repeats, h.backwards, h.wrongChannel, h.notEncoded]
    by_cases hch : testsigChannelOf s = ec
    · simp [hch, hv]
    · simp only [hch, ne_eq, not_false_eq_true, if_true, and_false, iff_false]
      omega
  · rw [hseen] at hno
    cases hno

/-- A further sample is no fault exactly if it is the frame after the last. -/
theorem next_clean (hec : ec < 16) (hseen : a.seen = true) (hp : a.prevIndex.toNat < 2 ^ 16) (f : ℕ) (s : Sample) :
    (a.observe ec f s).r.faults = a.r.faults ↔ s = encoded ec (a.prevIndex.toNat + 1) := by
  rw [encoded_iff hec, ← ahead_one_iff hp]
  unfold TestSigReport.faults
  rcases observe_cases ec f s hp with ⟨hno, -, -⟩ | ⟨hv, e, h⟩ | ⟨hno, -, -⟩ | ⟨-, hv, h⟩
  · rw [hseen] at hno
    cases hno
  · rw [h, hv]
    dsimp only
    constructor
    · intro hsum
      omega
    · rintro ⟨hno, -⟩
      cases hno
  · rw [hseen] at hno
    cases hno
  · rw [h.gaps, h.repeats, h.backwards, h.wrongChannel, h.notEncoded]
    constructor
    · intro hsum
      refine ⟨hv, ?_, ?_⟩
      · by_contra hch
        rw [if_pos hch] at hsum
        omega
      · -- every other distance counts as a gap, a repeat or a step back
        by_contra hone
        split_ifs at hsum <;> omega
    · rintro ⟨-, hch, hone⟩
      simp [hch, hone]

theorem observe_seen (ec : BitVec 32) (hseen : a.seen = true) (hp : a.prevIndex.toNat < 2 ^ 16) (f : ℕ) (s : Sample) :
    (a.observe ec f s).seen = true ∧ (a.observe ec f s).r.started = a.r.started := by
  rcases observe_cases ec f s hp with ⟨hno, -, -⟩ | ⟨-, e, h⟩ | ⟨hno, -, -⟩ | ⟨-, -, h⟩
  · rw [hseen] at hno
    cases hno
  · rw [h]
    exact ⟨hseen, rfl⟩
  · rw [hseen] at hno
    cases hno
  · exact ⟨h.seen, h.started⟩

theorem walk_started (ss : List Sample) (hseen : a.seen = true) (hp : a.prevIndex.toNat < 2 ^ 16) (f : ℕ) :
    (a.walk ec f ss).r.started = a.r.started := by
  induction ss generalizing a f with
  | nil => rfl
  | cons s ss ih =>
    obtain ⟨hb, hstarted⟩ := observe_seen ec hseen hp f s
    exact (ih hb (observe_prev ec hp f s) (f + 1)).trans hstarted

/-- The frame that is due. -/
theorem observe_due (hec : ec < 16) (hseen : a.seen = true) (hp : a.prevIndex.toNat < 2 ^ 16) (f : ℕ) :
    (a.observe ec f (encoded ec (a.prevIndex.toNat + 1))).prevIndex.toNat = (a.prevIndex.toNat + 1) % 2 ^ 16 ∧
      (a.observe ec f (encoded ec (a.prevIndex.toNat + 1))).r.framesChecked = a.r.framesChecked + 1 := by
  obtain ⟨hv, -, hix⟩ := (encoded_iff hec _ (a.prevIndex.toNat + 1)).1 rfl
  have h : Next ec a (a.observe ec f (encoded ec (a.prevIndex.toNat + 1))) _ 1 :=
    observe_next hseen hv hp (by decide) hix
  exact ⟨by rw [h.prev, hix], h.checked⟩

/-- Once begun, a walk adds no fault exactly if the signal goes on to the end; then every sample is checked. -/
theorem walk_clean (hec : ec < 16) (ss : List Sample) (hseen : a.seen = true) (hp : a.prevIndex.toNat < 2 ^ 16)
    (f : ℕ) : ((a.walk ec f ss).r.faults = a.r.faults ↔ ss = signal ec (a.prevIndex.toNat + 1) ss.length) ∧
      (ss = signal ec (a.prevIndex.toNat + 1) ss.length →
        (a.walk ec f ss).r.framesChecked = a.r.framesChecked + ss.length) := by
  induction ss generalizing a f with
  | nil => exact ⟨⟨fun _ => rfl, fun _ => rfl⟩, fun _ => rfl⟩
  | cons s ss ih =>
    have hb := (observe_seen ec hseen hp f s).1
    have hpb := observe_prev ec hp f s
    have hnext := next_clean hec hseen hp f s
    rw [List.length_cons, signal_succ, walk]
    by_cases hs : s = encoded ec (a.prevIndex.toNat + 1)
    · obtain ⟨hclean, hchecked⟩ := ih hb hpb (f + 1)
      obtain ⟨hprev, hone⟩ := observe_due hec hseen hp f
      rw [← hs] at hprev hone
      rw [hnext.2 hs, signal_mod ec (show _ = (a.prevIndex.toNat + 1 + 1) % 2 ^ 16 by rw [hprev]; omega)] at hclean
      rw [signal_mod ec (show _ = (a.prevIndex.toNat + 1 + 1) % 2 ^ 16 by rw [hprev]; omega)] at hchecked
      rw [hclean, ← hs, List.cons_inj_right]
      refine ⟨Iff.rfl, fun h => ?_⟩
      rw [hchecked h, hone]
      omega
    · -- the fault counted here is never taken back
      have hgrown : (a.observe ec f s).r.faults ≠ a.r.faults := fun h => hs (hnext.1 h)
      have hup := observe_faults ec hp f s
      have hkept := walk_faults ec ss hpb (f + 1)
      refine ⟨⟨fun h => ?_, fun h => ?_⟩, fun h => ?_⟩
      · omega
      · exact absurd (List.cons.inj h).1 hs
      · exact absurd (List.cons.inj h).1 hs

end Analysis

/-- Silence, then the signal of the channel to the end, `n` frames of it. -/
def Undamaged (ec : BitVec 32) (ss : List Sample) (n : ℕ) : Prop :=
  0 < n ∧ ∃ silence i, ss = List.replicate silence 0 ++ signal ec i n

variable {ec : BitVec 32}

theorem undamaged_silence {ss : List Sample} {n : ℕ} : Undamaged ec (0 :: ss) n ↔ Undamaged ec ss n := by
  constructor
  · rintro ⟨hn, silence, i, h⟩
    refine ⟨hn, ?_⟩
    cases silence with
    | zero =>
      obtain ⟨n, rfl⟩ := Nat.exists_eq_succ_of_ne_zero (Nat.pos_iff_ne_zero.1 hn)
      rw [List.replicate_zero, List.nil_append, signal_succ] at h
      exact absurd (List.cons.inj h).1.symm (testsigSample_ne_zero _ _)
    | succ silence =>
      rw [List.replicate_succ, List.cons_append] at h
      exact ⟨silence, i, (List.cons.inj h).2⟩
  · rintro ⟨hn, silence, i, rfl⟩
    exact ⟨hn, silence + 1, i, by rw [List.replicate_succ, List.cons_append]⟩

theorem undamaged_sample {s : Sample} {ss : List Sample} {n : ℕ} (hs : s ≠ 0) :
    Undamaged ec (s :: ss) n ↔ n = ss.length + 1 ∧ ∃ i, s = encoded ec i ∧ ss = signal ec (i + 1) ss.length := by
  constructor
  · rintro ⟨hn, silence, i, h⟩
    cases silence with
    | zero =>
      obtain ⟨n, rfl⟩ := Nat.exists_eq_succ_of_ne_zero (Nat.pos_iff_ne_zero.1 hn)
      rw [List.replicate_zero, List.nil_append, signal_succ] at h
      obtain ⟨hs, hss⟩ := List.cons.inj h
      have hlen : ss.length = n := by
        rw [hss]
        simp [signal]
      rw [hlen]
      exact ⟨rfl, i, hs, hss⟩
    | succ silence =>
      rw [List.replicate_succ, List.cons_append] at h
      exact absurd (List.cons.inj h).1 hs
  · rintro ⟨rfl, i, rfl, hss⟩
    refine ⟨Nat.succ_pos _, 0, i, ?_⟩
    rw [List.replicate_zero, List.nil_append, signal_succ, ← hss]

open Analysis in
/-- A walk over the column, from the front or what silence there is in front. -/
theorem walk_undamaged (hec : ec < 16) (ss : List Sample) (f : ℕ) :
    ((({} : Analysis).walk ec f ss).r.clean = true ↔ ∃ n, Undamaged ec ss n) ∧
      ∀ n, Undamaged ec ss n → (({} : Analysis).walk ec f ss).r.framesChecked = n := by
  induction ss generalizing f with
  | nil =>
    have hno : ∀ n, ¬ Undamaged ec [] n := by
      rintro n ⟨hn, silence, i, h⟩
      have := congrArg List.length h
      simp [signal] at this
      omega
    refine ⟨⟨fun h => ?_, fun ⟨n, h⟩ => absurd h (hno n)⟩, fun n h => absurd h (hno n)⟩
    cases h
  | cons s ss ih =>
    rw [walk]
    by_cases hs : s = 0
    · rw [hs, observe_silence rfl]
      simp only [undamaged_silence]
      exact ih (f + 1)
    · have hp : ({} : Analysis).prevIndex.toNat < 2 ^ 16 := by decide
      have hfirst := first_clean ec rfl hs hp f
      have hpb := observe_prev ec hp f s
      have hkept := walk_faults ec ss hpb (f + 1)
      simp only [undamaged_sample hs]
      by_cases hbegins : testsigValid s = true ∧ testsigChannelOf s = ec
      · have h := observe_first ec f (a := {}) rfl hbegins.1 hs
        have hzero := hfirst.2 hbegins
        obtain ⟨hclean, hchecked⟩ := walk_clean hec ss h.seen hpb (f + 1)
        rw [hzero] at hclean
        -- whichever frame the first sample is taken for, the one due next is the same
        have hdue : (∃ i, s = encoded ec i ∧ ss = signal ec (i + 1) ss.length) ↔
            ss = signal ec ((observe ec {} f s).prevIndex.toNat + 1) ss.length := by
          rw [h.prev]
          constructor
          · rintro ⟨i, hi, hss⟩
            obtain ⟨-, -, hix⟩ := (encoded_iff hec s i).1 hi
            rw [signal_mod ec (show _ = (i + 1) % 2 ^ 16 by rw [hix]; omega)]
            exact hss
          · intro hss
            refine ⟨(testsigIndexOf s).toNat, (encoded_iff hec s _).2 ⟨hbegins.1, hbegins.2, ?_⟩, hss⟩
            rw [Nat.mod_eq_of_lt (index_lt s)]
        rw [clean_iff_faults, walk_started ss h.seen hpb, h.started, hdue]
        constructor
        · constructor
          · rintro ⟨-, hfaults⟩
            exact ⟨_, rfl, hclean.1 hfaults⟩
          · rintro ⟨n, -, hss⟩
            exact ⟨rfl, hclean.2 hss⟩
        · rintro n ⟨rfl, hss⟩
          rw [hchecked hss, h.checked]
          exact Nat.add_comm _ _
      · have hgrown : (observe ec {} f s).r.faults ≠ 0 := fun h => hbegins (hfirst.1 h)
        have hno : ∀ n, ¬ (n = ss.length + 1 ∧ ∃ i, s = encoded ec i ∧ ss = signal ec (i + 1) ss.length) := by
          rintro n ⟨-, i, hi, -⟩
          obtain ⟨hv, hch, -⟩ := (encoded_iff hec s i).1 hi
          exact hbegins ⟨hv, hch⟩
        refine ⟨⟨fun h => ?_, fun ⟨n, h⟩ => absurd h (hno n)⟩, fun n h => absurd h (hno n)⟩
        have hfaults := ((clean_iff_faults _).1 h).2
        omega

/-- A column is reported clean exactly if it is silence and then the signal of its channel, to
the end; then the frames checked are those of the signal. -/
theorem clean_iff (frames : ℕ → Sample) (frameCount channels col : ℕ) {expectChannel : BitVec 32}
    (hec : expectChannel < 16) : ((testsigAnalyse frames frameCount channels col expectChannel).clean = true ↔
      ∃ n, Undamaged expectChannel (column frames frameCount channels col) n) ∧
    ∀ n, Undamaged expectChannel (column frames frameCount channels col) n →
      (testsigAnalyse frames frameCount channels col expectChannel).framesChecked = n :=
  walk_undamaged hec (column frames frameCount channels col) 0

/-- A frame of silence, then frames 65535 and 0 of channel 3. -/
theorem clean_iff_wrap : (testsigAnalyse (fun i => [0, encoded 3 65535, encoded 3 65536].getD i 0) 3 1 0 3).clean =
    true ∧ (testsigAnalyse (fun i => [0, encoded 3 65535, encoded 3 65536].getD i 0) 3 1 0 3).framesChecked = 2 := by
  have h : Undamaged 3 (column (fun i => [0, encoded 3 65535, encoded 3 65536].getD i 0) 3 1 0) 2 :=
    ⟨by decide, 1, 65535, by decide⟩
  have hclean :=
    clean_iff (fun i => [0, encoded 3 65535, encoded 3 65536].getD i 0) 3 1 0 (show (3 : BitVec 32) < 16 by decide)
  exact ⟨hclean.1.2 ⟨2, h⟩, hclean.2 2 h⟩

end UserFace800.Signal
