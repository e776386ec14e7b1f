import UserFace800.Lib.Run
import UserFace800.Lib.Logged
import Mathlib.Data.Rat.Floor
import Mathlib.Tactic.Linarith
/-!
# The zero-timestamp clock

`ZeroTimeStampClock` of `uf_zero_timestamp.hpp`. Host times are 64-bit counters
and their arithmetic is logged, so that one definition says what `next` returns
and which additions and subtractions it makes. Sample counts are exact: a double
is a rational, an infinity or not a number. `timeline` is what the HAL depends
on: whatever the daemon publishes, the anchor it gets back is a period boundary,
never moves backwards, and is never stale.
-/
open UserFace800.Lib

namespace UserFace800.Clock

/-- A double. -/
inductive Double where
  | fin (q : ℚ)
  | inf (negative : Bool)
  | nan

/-- `x * n` truncated to `uint64_t`, at least 1. A product too large for the
conversion has no value in the source; here it stays as large as it is, and
infinity stands at 2^64. -/
def ticks (x : Double) (n : ℚ) : ℕ :=
  match x with
  | .fin q => if 1 ≤ q * n then ⌊q * n⌋.toNat else 1
  | .inf false => 2 ^ 64
  | .inf true => 1
  | .nan => 1

/-- An addition, a subtraction, or a step of the seed counter, with its operands. -/
inductive Op where
  | add (a b : ℕ)
  | sub (a b : ℕ)
  | bump (seed : ℕ)
  deriving DecidableEq

/-- The 64-bit result is not the exact one. -/
def Op.Wraps : Op → Prop
  | .add a b => 2 ^ 64 ≤ a + b
  | .sub a b => a < b
  | .bump seed => 2 ^ 64 ≤ seed + 1

instance (o : Op) : Decidable o.Wraps := by
  unfold Op.Wraps
  split <;> infer_instance

/-- A computation that logs its 64-bit operations, since each could wrap. -/
abbrev Calc := Logged Op

/-- `uint64_t` addition. -/
def add64 (a b : ℕ) : Calc ℕ := .note (.add a b) ((a + b) % 2 ^ 64)
/-- `uint64_t` subtraction. -/
def sub64 (a b : ℕ) : Calc ℕ := .note (.sub a b) ((a + 2 ^ 64 - b) % 2 ^ 64)
/-- `++seed_`. -/
def bump (seed : ℕ) : Calc ℕ := .note (.bump seed) ((seed + 1) % 2 ^ 64)

/-- `ZeroTimeStampClock`; frame counts are whole numbers. -/
structure ZeroTimeStampClock where
  period : ℕ
  ticksPerPeriod : ℕ
  staleMarginTicks : ℕ
  sample : ℤ := 0
  host : ℕ := 0
  seed : ℕ := 1
  offset : ℤ := 0
  devSampleSeen : ℤ := 0
  locked : Bool := false
  started : Bool := false
  deriving DecidableEq

/-- An anchor, and the seed of the timeline it is on. -/
structure Stamp where
  sampleTime : ℤ
  hostTime : ℕ
  seed : ℕ
  deriving DecidableEq

/-- The fixed part of the staleness window. -/
def kStaleMarginNanos : ℚ := 43000000

namespace ZeroTimeStampClock

/-- The free-run slope, in ticks a period. -/
def setTicksPerFrame (c : ZeroTimeStampClock) (ticksPerFrame : Double) : ZeroTimeStampClock :=
  { c with ticksPerPeriod := ticks ticksPerFrame c.period }

/-- The constructor; a period of 0 counts as 1. -/
def init (period : ℕ) (ticksPerFrame ticksPerSecond : Double) : ZeroTimeStampClock :=
  setTicksPerFrame
    { period := if period = 0 then 1 else period
      ticksPerPeriod := 1
      staleMarginTicks := ticks ticksPerSecond (kStaleMarginNanos / 1000000000) }
    ticksPerFrame

/-- How far behind an anchor may fall. -/
def staleTicks (c : ZeroTimeStampClock) : Calc ℕ := add64 c.staleMarginTicks c.ticksPerPeriod

/-- `plausible`: a device anchor we are willing to believe. -/
def plausibleAnchor (c : ZeroTimeStampClock) (now : ℕ) (devSample : Double) (devHost : ℕ) : Calc Bool :=
  match devSample with
  | .fin q =>
    if devHost = 0 ∨ q < 0 then pure false
    else if devHost > now then do
      let ahead ← sub64 devHost now
      pure (ahead ≤ c.ticksPerPeriod)
    else do
      let behind ← sub64 now devHost
      let stale ← c.staleTicks
      pure (behind ≤ stale)
  | _ => pure false

/-- The anchor's frame count, quantised to the period. -/
def quantise (c : ZeroTimeStampClock) (devSample : Double) : ℤ :=
  match devSample with
  | .fin q => ⌊q / c.period⌋ * c.period
  | _ => 0

/-- Graft a device timeline gained or restarted onto our own. -/
def graft (c : ZeroTimeStampClock) (s : ℤ) : Calc ZeroTimeStampClock :=
  if !c.locked ∨ s < c.devSampleSeen then do
    let seed ← bump c.seed
    pure { c with offset := c.sample + c.period - s, locked := true, seed }
  else pure c

/-- Adopt a wholly newer anchor. -/
def adopt (c : ZeroTimeStampClock) (s : ℤ) (devHost : ℕ) : ZeroTimeStampClock :=
  if s + c.offset > c.sample ∧ devHost ≥ c.host then
    { c with devSampleSeen := s, sample := s + c.offset, host := devHost }
  else { c with devSampleSeen := s }

/-- `devValid && plausible(..)`. -/
def believes (c : ZeroTimeStampClock) (now : ℕ) (devValid : Bool) (devSample : Double) (devHost : ℕ) : Calc Bool :=
  if devValid then c.plausibleAnchor now devSample devHost else pure false

/-- The first half of `next`: follow a plausible device anchor. -/
def follow (c : ZeroTimeStampClock) (now : ℕ) (devValid : Bool) (devSample : Double) (devHost : ℕ) :
    Calc ZeroTimeStampClock := do
  let believed ← c.believes now devValid devSample devHost
  if believed then do
    let d ← c.graft (c.quantise devSample)
    pure (d.adopt (c.quantise devSample) devHost)
  else pure c

/-- The anchor to be returned has become stale. -/
def lose (c : ZeroTimeStampClock) : Calc ZeroTimeStampClock := do
  let seed ← bump c.seed
  pure { c with locked := false, seed }

/-- Lose the device clock when the anchor is stale. -/
def unlock (c : ZeroTimeStampClock) (lag : ℕ) : Calc ZeroTimeStampClock :=
  if c.locked then do
    let stale ← c.staleTicks
    if lag > stale then c.lose else pure c
  else pure c

/-- Free-run at the nominal rate. -/
def freeRun (c : ZeroTimeStampClock) (lag : ℕ) : Calc ZeroTimeStampClock :=
  if c.locked then pure c
  else
    let periods := lag / c.ticksPerPeriod
    if periods ≠ 0 then do
      let host ← add64 c.host (periods * c.ticksPerPeriod % 2 ^ 64)
      pure { c with sample := c.sample + periods * c.period, host }
    else pure c

/-- The second half of `next`: whatever produced the anchor, it must be fresh. -/
def catchUp (c : ZeroTimeStampClock) (now : ℕ) : Calc ZeroTimeStampClock :=
  if now > c.host then do
    let lag ← sub64 now c.host
    let c ← c.unlock lag
    c.freeRun lag
  else pure c

/-- The first call starts the timeline at its own time. -/
def start (c : ZeroTimeStampClock) (now : ℕ) : ZeroTimeStampClock :=
  if c.started then c else { c with started := true, host := now }

/-- What `next` returns. -/
def stamp (c : ZeroTimeStampClock) : Stamp := ⟨c.sample, c.host, c.seed⟩

/-- `next`: the clock afterwards, whose `stamp` is returned. -/
def next (c : ZeroTimeStampClock) (now : ℕ) (devValid : Bool) (devSample : Double) (devHost : ℕ) :
    Calc ZeroTimeStampClock := do
  let c ← (c.start now).follow now devValid devSample devHost
  c.catchUp now

end ZeroTimeStampClock

/-! ## The calls a host makes -/

/-- A call of the clock. -/
inductive Call where
  | setTicksPerFrame (ticksPerFrame : Double)
  | next (now : BitVec 64) (devValid : Bool) (devSample : Double) (devHost : BitVec 64)

/-- What one call of `next` returned, the staleness window as of that call, and
the operations it made. -/
structure Outcome where
  now : ℕ
  stamp : Stamp
  stale : ℕ
  log : List Op

/-- The outcomes of the calls of `next`, in order. -/
def outcomes : ZeroTimeStampClock → List Call → List Outcome
  | _, [] => []
  | c, .setTicksPerFrame x :: calls => outcomes (c.setTicksPerFrame x) calls
  | c, .next now v s h :: calls =>
    let r := c.next now.toNat v s h.toNat
    ⟨now.toNat, r.val.stamp, r.val.staleTicks.val, r.log⟩ :: outcomes r.val calls

/-! ## One call -/

theorem ticks_pos (x : Double) (n : ℚ) : 0 < ticks x n := by
  unfold ticks
  split
  · split
    · rename_i q h
      have : 1 ≤ ⌊q * n⌋ := Int.le_floor.2 (by exact_mod_cast h)
      omega
    · exact Nat.one_pos
  all_goals decide

/-- Only the seed counter may wrap, and only from its last value. -/
def Sound (o : Op) : Prop := o.Wraps → o = .bump (2 ^ 64 - 1)

theorem sound_add {a b : ℕ} (h : a + b < 2 ^ 64) : Sound (.add a b) := fun hw => absurd hw (Nat.not_le.2 h)

theorem sound_sub {a b : ℕ} (h : b ≤ a) : Sound (.sub a b) := fun hw => absurd hw (Nat.not_lt.2 h)

theorem sound_bump {seed : ℕ} (h : seed < 2 ^ 64) : Sound (.bump seed) := by
  intro hw
  simp only [Op.Wraps] at hw
  rw [show seed = 2 ^ 64 - 1 by omega]

theorem add64_val {a b : ℕ} (h : a + b < 2 ^ 64) : (add64 a b).val = a + b := Nat.mod_eq_of_lt h

theorem sub64_val {a b : ℕ} (h : b ≤ a) (ha : a < 2 ^ 64) : (sub64 a b).val = a - b := by
  show (a + 2 ^ 64 - b) % 2 ^ 64 = a - b
  omega

theorem bump_val_lt (seed : ℕ) : (bump seed).val < 2 ^ 64 := Nat.mod_lt _ (by decide)

/-- The staleness window fits a machine word for every slope the calls set. -/
def Fits (period margin : ℕ) (calls : List Call) : Prop :=
  ∀ x, .setTicksPerFrame x ∈ calls → margin + ticks x period < 2 ^ 64

/-- What an outcome of a clock of this period must be. -/
structure Outcome.Safe (period : ℕ) (o : Outcome) : Prop where
  boundary : ∃ k : ℕ, o.stamp.sampleTime = k * period
  fresh : o.now ≤ o.stamp.hostTime + o.stale
  exact : ∀ op ∈ o.log, Sound op

/-- One stamp is not behind another. -/
def Outcome.Before (a b : Outcome) : Prop :=
  a.stamp.sampleTime ≤ b.stamp.sampleTime ∧ a.stamp.hostTime ≤ b.stamp.hostTime

namespace ZeroTimeStampClock

/-- What every reachable clock satisfies: positive period and slope, a staleness
window that fits, and a timeline and offset made of whole periods. -/
structure Inv (c : ZeroTimeStampClock) : Prop where
  period : 0 < c.period
  ticks : 0 < c.ticksPerPeriod
  fits : c.staleMarginTicks + c.ticksPerPeriod < 2 ^ 64
  host : c.host < 2 ^ 64
  seed : c.seed < 2 ^ 64
  nonneg : 0 ≤ c.sample
  boundary : (c.period : ℤ) ∣ c.sample
  offset : (c.period : ℤ) ∣ c.offset

/-- A step of `next` from `c` to `d`: the invariant is kept, the timeline does
not move backwards, and the constants are the same. -/
structure Advances (c d : ZeroTimeStampClock) : Prop where
  inv : d.Inv
  sample : c.sample ≤ d.sample
  host : c.host ≤ d.host
  period : d.period = c.period
  ticks : d.ticksPerPeriod = c.ticksPerPeriod
  margin : d.staleMarginTicks = c.staleMarginTicks
  started : c.started = true → d.started = true

theorem Advances.refl {c : ZeroTimeStampClock} (hi : c.Inv) : Advances c c :=
  ⟨hi, le_refl _, le_refl _, rfl, rfl, rfl, id⟩

theorem Advances.trans {c d e : ZeroTimeStampClock} (h : Advances c d) (h' : Advances d e) : Advances c e :=
  ⟨h'.inv, h.sample.trans h'.sample, h.host.trans h'.host, h'.period.trans h.period, h'.ticks.trans h.ticks,
    h'.margin.trans h.margin, fun hs => h'.started (h.started hs)⟩

variable {c : ZeroTimeStampClock}

theorem staleTicks_logs (hi : c.Inv) : Logged.Logs Sound c.staleTicks := (Logged.logs_note _ _).2 (sound_add hi.fits)

theorem staleTicks_val (hi : c.Inv) : c.staleTicks.val = c.staleMarginTicks + c.ticksPerPeriod := add64_val hi.fits

theorem plausibleAnchor_logs (hi : c.Inv) (now : ℕ) (devSample : Double) (devHost : ℕ) :
    Logged.Logs Sound (c.plausibleAnchor now devSample devHost) := by
  unfold plausibleAnchor
  split
  · split
    · exact Logged.logs_pure _
    · split
      · rename_i h
        exact .bind ((Logged.logs_note _ _).2 (sound_sub (le_of_lt h))) (Logged.logs_pure _)
      · rename_i h
        refine .bind ((Logged.logs_note _ _).2 (sound_sub (Nat.le_of_not_lt h))) ?_
        exact .bind (staleTicks_logs hi) (Logged.logs_pure _)
  · exact Logged.logs_pure _

theorem quantise_dvd (c : ZeroTimeStampClock) (devSample : Double) : (c.period : ℤ) ∣ c.quantise devSample := by
  unfold quantise
  split
  · exact Dvd.intro_left _ rfl
  · exact dvd_zero _

theorem graft_spec (hi : c.Inv) {s : ℤ} (hs : (c.period : ℤ) ∣ s) :
    Logged.Logs Sound (c.graft s) ∧ Advances c (c.graft s).val := by
  unfold graft
  split
  · refine ⟨.bind ((Logged.logs_note _ _).2 (sound_bump hi.seed)) (Logged.logs_pure _), ?_⟩
    have ho : (c.period : ℤ) ∣ c.sample + c.period - s := dvd_sub (dvd_add hi.boundary (dvd_refl _)) hs
    exact ⟨{ hi with seed := bump_val_lt _, offset := ho }, le_refl _, le_refl _, rfl, rfl, rfl, id⟩
  · exact ⟨Logged.logs_pure _, .refl hi⟩

theorem adopt_spec (hi : c.Inv) {s : ℤ} (hs : (c.period : ℤ) ∣ s) {devHost : ℕ} (hd : devHost < 2 ^ 64) :
    Advances c (c.adopt s devHost) := by
  unfold adopt
  split
  · rename_i h
    have hn : 0 ≤ s + c.offset := le_of_lt (lt_of_le_of_lt hi.nonneg h.1)
    exact ⟨{ hi with host := hd, nonneg := hn, boundary := dvd_add hs hi.offset }, le_of_lt h.1, h.2, rfl, rfl, rfl, id⟩
  · exact ⟨{ hi with }, le_refl _, le_refl _, rfl, rfl, rfl, id⟩

theorem believes_logs (hi : c.Inv) (now : ℕ) (devValid : Bool) (devSample : Double) (devHost : ℕ) :
    Logged.Logs Sound (c.believes now devValid devSample devHost) := by
  unfold believes
  split
  · exact plausibleAnchor_logs hi now devSample devHost
  · exact Logged.logs_pure _

theorem follow_spec (hi : c.Inv) (now : ℕ) (devValid : Bool) (devSample : Double) {devHost : ℕ}
    (hd : devHost < 2 ^ 64) : Logged.Logs Sound (c.follow now devValid devSample devHost) ∧
      Advances c (c.follow now devValid devSample devHost).val := by
  have hs := c.quantise_dvd devSample
  obtain ⟨hgl, hga⟩ := graft_spec hi hs
  have hs' : ((c.graft (c.quantise devSample)).val.period : ℤ) ∣ c.quantise devSample := by
    rw [hga.period]
    exact hs
  have hadopt := adopt_spec hga.inv hs' hd
  unfold follow
  constructor
  · refine .bind (believes_logs hi now devValid devSample devHost) ?_
    split
    · exact .bind hgl (Logged.logs_pure _)
    · exact Logged.logs_pure _
  · rw [Logged.val_bind]
    split
    · exact hga.trans hadopt
    · exact .refl hi

theorem lose_spec (hi : c.Inv) : Logged.Logs Sound c.lose ∧ Advances c c.lose.val :=
  ⟨.bind ((Logged.logs_note _ _).2 (sound_bump hi.seed)) (Logged.logs_pure _),
    { hi with seed := bump_val_lt _ }, le_refl _, le_refl _, rfl, rfl, rfl, id⟩

/-- A clock still locked after `unlock` is not stale. -/
theorem unlock_spec (hi : c.Inv) (lag : ℕ) :
    Logged.Logs Sound (c.unlock lag) ∧ Advances c (c.unlock lag).val ∧ (c.unlock lag).val.host = c.host ∧
      ((c.unlock lag).val.locked = true → lag ≤ c.staleMarginTicks + c.ticksPerPeriod) := by
  unfold unlock
  by_cases hl : c.locked = true
  · rw [if_pos hl, Logged.val_bind, staleTicks_val hi]
    refine ⟨.bind (staleTicks_logs hi) ?_, ?_⟩
    · split
      · exact (lose_spec hi).1
      · exact Logged.logs_pure _
    · split
      · exact ⟨(lose_spec hi).2, rfl, fun h => (nomatch h)⟩
      · rename_i h
        exact ⟨.refl hi, rfl, fun _ => Nat.le_of_not_lt h⟩
  · rw [if_neg hl]
    exact ⟨Logged.logs_pure _, .refl hi, rfl, fun h => absurd h hl⟩

/-- Free-running leaves less than a period between the anchor and now. -/
theorem freeRun_spec (hi : c.Inv) {now : ℕ} (hn : now < 2 ^ 64) (hh : c.host ≤ now)
    (hl : c.locked = true → now - c.host ≤ c.staleMarginTicks + c.ticksPerPeriod) :
    Logged.Logs Sound (c.freeRun (now - c.host)) ∧ Advances c (c.freeRun (now - c.host)).val ∧
      now ≤ (c.freeRun (now - c.host)).val.host + (c.staleMarginTicks + c.ticksPerPeriod) := by
  have ht := hi.ticks
  unfold freeRun
  by_cases hlock : c.locked = true
  · rw [if_pos hlock]
    have := hl hlock
    exact ⟨Logged.logs_pure _, .refl hi, show now ≤ c.host + _ by omega⟩
  · rw [if_neg hlock]
    have hle : (now - c.host) / c.ticksPerPeriod * c.ticksPerPeriod ≤ now - c.host := Nat.div_mul_le_self _ _
    have hmod : (now - c.host) / c.ticksPerPeriod * c.ticksPerPeriod + (now - c.host) % c.ticksPerPeriod =
        now - c.host := Nat.div_add_mod' _ _
    have hlt := Nat.mod_lt (now - c.host) ht
    have hsmall : (now - c.host) / c.ticksPerPeriod * c.ticksPerPeriod % 2 ^ 64 =
        (now - c.host) / c.ticksPerPeriod * c.ticksPerPeriod := Nat.mod_eq_of_lt (by omega)
    dsimp only
    split
    · rw [hsmall]
      have hsum : c.host + (now - c.host) / c.ticksPerPeriod * c.ticksPerPeriod < 2 ^ 64 := by omega
      have hval := add64_val hsum
      have hsample : (0 : ℤ) ≤ ((now - c.host) / c.ticksPerPeriod : ℕ) * (c.period : ℤ) := by positivity
      refine ⟨.bind ((Logged.logs_note _ _).2 (sound_add hsum)) (Logged.logs_pure _), ?_, ?_⟩
      · refine ⟨{ hi with host := ?_, nonneg := ?_, boundary := ?_ }, ?_, ?_, rfl, rfl, rfl, id⟩
        · exact lt_of_eq_of_lt hval hsum
        · exact add_nonneg hi.nonneg hsample
        · exact dvd_add hi.boundary (Dvd.intro_left _ rfl)
        · exact le_add_of_nonneg_right hsample
        · rw [Logged.val_bind]
          show c.host ≤ (add64 _ _).val
          rw [hval]
          omega
      · rw [Logged.val_bind]
        show now ≤ (add64 _ _).val + _
        rw [hval]
        omega
    · rename_i hz
      rw [not_not.1 hz] at hmod
      exact ⟨Logged.logs_pure _, .refl hi, show now ≤ c.host + _ by omega⟩

theorem catchUp_spec (hi : c.Inv) {now : ℕ} (hn : now < 2 ^ 64) :
    Logged.Logs Sound (c.catchUp now) ∧ Advances c (c.catchUp now).val ∧
      now ≤ (c.catchUp now).val.host + (c.staleMarginTicks + c.ticksPerPeriod) := by
  unfold catchUp
  split
  · rename_i h
    have hh : c.host ≤ now := le_of_lt h
    have hlag : (sub64 now c.host).val = now - c.host := sub64_val hh hn
    obtain ⟨hul, hua, huh, hus⟩ := unlock_spec hi (now - c.host)
    have hfree := freeRun_spec hua.inv hn (by rw [huh]; exact hh) (by rw [huh, hua.margin, hua.ticks]; exact hus)
    rw [huh, hua.margin, hua.ticks] at hfree
    obtain ⟨hfl, hfa, hff⟩ := hfree
    rw [Logged.val_bind, Logged.val_bind, hlag]
    refine ⟨.bind ((Logged.logs_note _ _).2 (sound_sub hh)) ?_, hua.trans hfa, hff⟩
    rw [hlag]
    exact .bind hul hfl
  · exact ⟨Logged.logs_pure _, .refl hi, show now ≤ c.host + _ by omega⟩

theorem start_spec (hi : c.Inv) {now : ℕ} (hn : now < 2 ^ 64) (hz : c.started = false → c.host = 0) :
    Advances c (c.start now) ∧ (c.start now).started = true := by
  unfold start
  split
  · rename_i h
    exact ⟨.refl hi, h⟩
  · rename_i h
    have hz := hz (Bool.not_eq_true _ ▸ h)
    exact ⟨⟨{ hi with host := hn }, le_refl _, show c.host ≤ now by omega, rfl, rfl, rfl, fun _ => rfl⟩, rfl⟩

theorem next_spec (hi : c.Inv) {now devHost : ℕ} (hn : now < 2 ^ 64) (hd : devHost < 2 ^ 64) (devValid : Bool)
    (devSample : Double) (hz : c.started = false → c.host = 0) :
    Logged.Logs Sound (c.next now devValid devSample devHost) ∧
      Advances c (c.next now devValid devSample devHost).val ∧
      (c.next now devValid devSample devHost).val.started = true ∧
      now ≤ (c.next now devValid devSample devHost).val.host + (c.staleMarginTicks + c.ticksPerPeriod) := by
  obtain ⟨hsa, hst⟩ := start_spec hi hn hz
  obtain ⟨hfl, hfa⟩ := follow_spec hsa.inv now devValid devSample hd
  obtain ⟨hcl, hca, hcf⟩ := catchUp_spec hfa.inv hn
  rw [hfa.margin, hfa.ticks, hsa.margin, hsa.ticks] at hcf
  exact ⟨.bind hfl hcl, hsa.trans (hfa.trans hca), hca.started (hfa.started hst), hcf⟩

theorem setTicksPerFrame_inv (hi : c.Inv) {x : Double} (hx : c.staleMarginTicks + Clock.ticks x c.period < 2 ^ 64) :
    (c.setTicksPerFrame x).Inv :=
  { hi with ticks := ticks_pos x _, fits := hx }

/-! ## The timeline -/

theorem Inv.sample_eq (hi : c.Inv) : ∃ k : ℕ, c.sample = k * c.period := by
  obtain ⟨j, hj⟩ := hi.boundary
  have hp : (0 : ℤ) < c.period := by exact_mod_cast hi.period
  have hnn : 0 ≤ j := by
    by_contra hneg
    have := hi.nonneg
    rw [hj] at this
    nlinarith
  refine ⟨j.toNat, ?_⟩
  rw [hj, Int.toNat_of_nonneg hnn, mul_comm]

/-- Run lemma: from a clock that satisfies the invariant every outcome is safe,
none is behind the clock's own anchor, and none is behind an earlier one. -/
theorem outcomes_safe (hi : c.Inv) (hz : c.started = false → c.host = 0) {calls : List Call}
    (hf : Fits c.period c.staleMarginTicks calls) :
    (outcomes c calls).Pairwise Outcome.Before ∧
      ∀ o ∈ outcomes c calls, o.Safe c.period ∧ c.sample ≤ o.stamp.sampleTime ∧ c.host ≤ o.stamp.hostTime := by
  induction calls generalizing c with
  | nil => exact ⟨.nil, fun o ho => (nomatch ho)⟩
  | cons call calls ih =>
    have hrest : Fits c.period c.staleMarginTicks calls := fun x hx => hf x (List.mem_cons_of_mem _ hx)
    cases call with
    | setTicksPerFrame x =>
      exact ih (setTicksPerFrame_inv hi (hf x List.mem_cons_self)) hz hrest
    | next now v s h =>
      obtain ⟨hl, ha, hs, hfresh⟩ := next_spec hi now.isLt h.isLt v s hz
      have hz' : (c.next now.toNat v s h.toNat).val.started = false →
          (c.next now.toNat v s h.toNat).val.host = 0 := by
        intro hns
        rw [hs] at hns
        cases hns
      obtain ⟨hp, hall⟩ := ih ha.inv hz' (by rw [ha.period, ha.margin]; exact hrest)
      rw [ha.period] at hall
      refine ⟨List.pairwise_cons.2 ⟨fun o ho => (hall o ho).2, hp⟩, ?_⟩
      intro o ho
      rcases List.mem_cons.1 ho with rfl | ho
      · refine ⟨⟨?_, ?_, hl⟩, ha.sample, ha.host⟩
        · rw [← ha.period]
          exact ha.inv.sample_eq
        · rw [staleTicks_val ha.inv, ha.margin, ha.ticks]
          exact hfresh
      · obtain ⟨hsafe, h1, h2⟩ := hall o ho
        exact ⟨hsafe, ha.sample.trans h1, ha.host.trans h2⟩

end ZeroTimeStampClock

/-- The constructor's stale margin, in ticks. -/
def marginTicks (ticksPerSecond : Double) : ℕ := ticks ticksPerSecond (kStaleMarginNanos / 1000000000)

theorem init_period {period : ℕ} (hp : 0 < period) (x y : Double) :
    (ZeroTimeStampClock.init period x y).period = period :=
  if_neg (Nat.ne_of_gt hp)

theorem init_inv {period : ℕ} (hp : 0 < period) {x y : Double} (hf : marginTicks y + ticks x period < 2 ^ 64) :
    (ZeroTimeStampClock.init period x y).Inv := by
  have hx := ticks_pos x (ZeroTimeStampClock.init period x y).period
  have hxp := ticks_pos x period
  refine ⟨by rw [init_period hp]; exact hp, hx, ?_, Nat.two_pow_pos 64, show 1 < 2 ^ 64 by decide, le_refl _,
    dvd_zero _, dvd_zero _⟩
  show marginTicks y + ticks x (if period = 0 then 1 else period : ℕ) < 2 ^ 64
  rw [if_neg (Nat.ne_of_gt hp)]
  exact hf

/-- For every period, and every sequence of calls with any arguments: each stamp
is at a period boundary and not behind the ones before it, its host time is at
most the staleness window of that call behind `now`, and no 64-bit addition or
subtraction wraps except the seed counter's step from 2^64 - 1. -/
theorem timeline (period : ℕ) (hp : 0 < period) (ticksPerFrame ticksPerSecond : Double) (calls : List Call)
    (hf : Fits period (marginTicks ticksPerSecond) (.setTicksPerFrame ticksPerFrame :: calls)) :
    (outcomes (.init period ticksPerFrame ticksPerSecond) calls).Pairwise Outcome.Before ∧
      ∀ o ∈ outcomes (.init period ticksPerFrame ticksPerSecond) calls, o.Safe period := by
  have hrest : Fits period (marginTicks ticksPerSecond) calls := fun x hx => hf x (List.mem_cons_of_mem _ hx)
  have hi : (ZeroTimeStampClock.init period ticksPerFrame ticksPerSecond).Inv :=
    init_inv hp (hf ticksPerFrame List.mem_cons_self)
  have h := ZeroTimeStampClock.outcomes_safe hi (fun _ => rfl) (by rw [init_period hp]; exact hrest)
  rw [init_period hp] at h
  exact ⟨h.1, fun o ho => (h.2 o ho).1⟩

/-- A 24 MHz host clock at 48 kHz: lock, lose the device, and free-run. -/
def session : List Call :=
  [.next 1000000 true (.fin 1000) 1000000, .next 1300000 true (.fin 1600) 1290000, .next 9000000 true .nan 5]

theorem fits_nominal : marginTicks (.fin 24000000) + ticks (.fin 500) (512 : ℕ) < 2 ^ 64 := by
  simp only [marginTicks, ticks, kStaleMarginNanos]
  norm_num
  decide

theorem timeline_session : (outcomes (.init 512 (.fin 500) (.fin 24000000)) session).Pairwise Outcome.Before ∧
    ∀ o ∈ outcomes (.init 512 (.fin 500) (.fin 24000000)) session, o.Safe 512 := by
  refine timeline 512 (by decide) (.fin 500) (.fin 24000000) session ?_
  intro x hx
  simp only [session, List.mem_cons, reduceCtorEq, List.not_mem_nil, or_false, Call.setTicksPerFrame.injEq] at hx
  subst hx
  exact fits_nominal

/-! ## The seed counter -/

/-- The clock after a call. -/
def step (c : ZeroTimeStampClock) : Call → Option ZeroTimeStampClock
  | .setTicksPerFrame x => some (c.setTicksPerFrame x)
  | .next now v s h => some (c.next now.toNat v s h.toNat).val

theorem outcomes_append {c d : ZeroTimeStampClock} {as : List Call} (h : run step c as = some d) (bs : List Call) :
    outcomes c (as ++ bs) = outcomes c as ++ outcomes d bs := by
  induction as generalizing c with
  | nil =>
    cases h
    rfl
  | cons a as ih =>
    cases a with
    | setTicksPerFrame x => exact ih h
    | next now v s dh =>
      simp only [List.cons_append, outcomes]
      rw [ih h]

/-- Locked at 5 with the device at frame 0, whatever the seed. -/
def restarting (seed : ℕ) : ZeroTimeStampClock where
  period := 512
  ticksPerPeriod := 256000
  staleMarginTicks := 1032000
  host := 5
  seed
  offset := 512
  locked := true
  started := true

/-- The device gets to frame 512 and starts again at 0, with host times we do not adopt. -/
def restart : List Call := [.next 5 true (.fin 512) 4, .next 5 true (.fin 0) 4]

theorem run_first : run step (.init 512 (.fin 500) (.fin 24000000))
    [.next 5 true (.fin 0) 4] = some (restarting 2) := by
  decide +kernel

open ZeroTimeStampClock in
theorem next_ahead (s : ℕ) : ((restarting s).next 5 true (.fin 512) 4).val =
    { restarting s with devSampleSeen := 512 } := by
  have hb : ((restarting s).believes 5 true (.fin 512) 4).val = true := by
    simp [believes, plausibleAnchor, restarting, staleTicks, sub64, add64]
    norm_num
  have hq : (restarting s).quantise (.fin 512) = 512 := by simp [quantise, restarting]
  simp only [next, start, follow, Logged.val_bind]
  rw [if_pos (show (restarting s).started = true from rfl), hb, hq]
  simp [graft, adopt, catchUp, restarting]

open ZeroTimeStampClock in
/-- With the device count back at 0 the clock grafts, and the seed steps. -/
theorem next_behind (s : ℕ) :
    (({ restarting s with devSampleSeen := 512 } : ZeroTimeStampClock).next 5 true (.fin 0) 4).val =
        restarting ((s + 1) % 2 ^ 64) ∧
      .bump s ∈ (({ restarting s with devSampleSeen := 512 } : ZeroTimeStampClock).next 5 true (.fin 0) 4).log := by
  have hb : (({ restarting s with devSampleSeen := 512 } : ZeroTimeStampClock).believes 5 true (.fin 0) 4).val =
    true := by
    simp [believes, plausibleAnchor, restarting, staleTicks, sub64, add64]
  have hq : ({ restarting s with devSampleSeen := 512 } : ZeroTimeStampClock).quantise (.fin 0) = 0 := by
    simp [quantise, restarting]
  simp only [next, start, follow, Logged.val_bind, Logged.log_bind]
  rw [if_pos (show (restarting s).started = true from rfl), hb, hq]
  constructor
  · simp [graft, adopt, catchUp, restarting, bump]
  · simp [graft, restarting, bump]

theorem run_restart (n : ℕ) :
    run step (restarting ((n + 2) % 2 ^ 64)) restart = some (restarting ((n + 1 + 2) % 2 ^ 64)) := by
  have h := (next_behind ((n + 2) % 2 ^ 64)).1
  rw [← next_ahead, Nat.mod_add_mod] at h
  exact congrArg some h

theorem restart_bumps (s : ℕ) : ∃ o ∈ outcomes (restarting s) restart, .bump s ∈ o.log := by
  refine ⟨_, List.mem_cons_of_mem _ List.mem_cons_self, ?_⟩
  have h := (next_behind s).2
  rw [← next_ahead] at h
  exact h

/-- 2^64 - 2 such restarts, from the first anchor on. -/
def rewinds : List Call := .next 5 true (.fin 0) 4 :: ((List.replicate (2 ^ 64 - 3) restart).flatten ++ restart)

theorem fits_restarts (n : ℕ) : Fits 512 (marginTicks (.fin 24000000))
    (.next 5 true (.fin 0) 4 :: ((List.replicate n restart).flatten ++ restart)) := by
  intro x hx
  simp [restart, List.mem_replicate] at hx

/-- The seed is a 64-bit counter of discontinuities, and its step from 2^64 - 1
wraps: the operation `timeline` leaves out. -/
theorem seed_wraps : Fits 512 (marginTicks (.fin 24000000)) (.setTicksPerFrame (.fin 500) :: rewinds) ∧
    ∃ o ∈ outcomes (.init 512 (.fin 500) (.fin 24000000)) rewinds, ∃ op ∈ o.log, op.Wraps := by
  constructor
  · intro x hx
    rcases List.mem_cons.1 hx with hx | hx
    · cases hx
      exact fits_nominal
    · exact fits_restarts _ x hx
  · have hrun := run_append_some run_first
      (run_replicate (fun n => restarting ((n + 2) % 2 ^ 64)) restart (2 ^ 64 - 3) fun n _ => run_restart n)
    obtain ⟨o, ho, hb⟩ := restart_bumps ((2 ^ 64 - 3 + 2) % 2 ^ 64)
    refine ⟨o, ?_, _, hb, by decide⟩
    have := outcomes_append hrun restart
    show o ∈ outcomes _ (([.next 5 true (.fin 0) 4] ++ (List.replicate (2 ^ 64 - 3) restart).flatten) ++ restart)
    rw [this]
    exact List.mem_append_right _ ho

end UserFace800.Clock
