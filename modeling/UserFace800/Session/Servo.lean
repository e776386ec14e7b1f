import UserFace800.Session.TxPacing
import Mathlib.Algebra.Order.Field.Rat
import Mathlib.Tactic.Linarith
import Mathlib.Tactic.NormNum
import Mathlib.Tactic.Ring
/-!
# What the servo adds up to

Each full packet carries `sytInterval` frames, and one more or less whenever the debt
against the measured rate has reached a frame. With every packet full the frames sent
and the debt carried add up to the measured rate exactly (`Balanced`), so over any
number of cycles the frames are what the rate asks for but for less than two. The
estimates are taken only near `baseRate`, the rate of a cadence with every packet full:
`servo_tracks` says the servo follows the device at the multiples of 8 kHz and at no
other rate.
-/
open UserFace800.Lib UserFace800.Protocol UserFace800.Audio
open UserFace800.Dext (isFullPacket isFullPacket_mod)
open UserFace800.Lib.Bresenham (IsTaken)

namespace UserFace800.Session

/-- What happens packet by packet: a turn of the loop, the check before it, an estimate, a
slot committed. -/
inductive ServoAct where
  | packet
  | beginTick (sent : ℕ)
  | second (fVsBus : ℚ)
  | commit (slot : Slot)

namespace TxPacing

/-- The fill with its servo, packet by packet. -/
def servoStep (s : TxPacing) : ServoAct → Option TxPacing
  | .packet => some s.fillNext
  | .beginTick sent => some (s.beginTick sent)
  | .second fVsBus => some { s with servo := s.servo.estimate fVsBus }
  | .commit slot => if s.play.acquireWrite then some { s with play := s.play.commitWrite slot } else none

/-- A session at a rate, just started. -/
def session (rate : Quadlet) (x : TxFill) (play : SlotQueue) : TxPacing :=
  start rate.toNat (Geometry.ofRate rate) x play

end TxPacing

/-- Every estimate of the schedule is `m`. -/
def Steady (m : ℚ) (as : List ServoAct) : Prop := ∀ f, ServoAct.second f ∈ as → f = m

/-- The servo tracks `m` at a rate: the estimate is accepted; once it is, the frames of any
stretch of cycles are `m / 8000` a cycle but for a bounded number; and the accumulator
stays within bounds it is never clamped to. -/
structure Tracks (rate : Quadlet) (m : ℚ) : Prop where
  accepted : ∀ x play as s, Steady m as → run TxPacing.servoStep (.session rate x play) as = some s →
    (s.servo.estimate m).servoReady = true
  bounded : ∃ C : ℚ, ∀ x play as bs s t, Steady m (as ++ bs) →
      run TxPacing.servoStep (.session rate x play) as = some s →
    s.servo.servoReady = true → run TxPacing.servoStep s bs = some t →
    |((t.put : ℚ) - s.put) - ((t.turns : ℚ) - s.turns) * m / 8000| ≤ C
  unclamped : ∀ x play as s, Steady m as → run TxPacing.servoStep (.session rate x play) as = some s →
    -4 < s.servo.servoAccum ∧ s.servo.servoAccum < 4 ∧ Servo.clamp s.servo.accrued = s.servo.accrued

namespace Servo

variable {s : Servo} {syt : ℕ}

/-- The servo before its first estimate, and after any number of estimates of `m`. -/
structure Follows (m : ℚ) (s : Servo) : Prop where
  near : s.baseRate - 60 < m ∧ m < s.baseRate + 60
  measured : s.servoReady = true → s.measuredRate = m
  idle : s.servoReady = false → s.servoAccum = 0 ∧ s.measuredRate - 60 < s.baseRate ∧ s.baseRate < s.measuredRate + 60
  small : -1 < s.servoAccum ∧ s.servoAccum < 1

variable {m : ℚ}

theorem Follows.accrued (h : Follows m s) : -2 < s.accrued ∧ s.accrued < 2 := by
  obtain ⟨hlow, hhigh⟩ := h.near
  obtain ⟨hl, hr⟩ := h.small
  have hdebt : -1 < (s.measuredRate - s.baseRate) / 8000 ∧ (s.measuredRate - s.baseRate) / 8000 < 1 := by
    cases hready : s.servoReady with
    | true =>
      rw [h.measured hready]
      constructor <;> linarith
    | false =>
      obtain ⟨-, hb, hb'⟩ := h.idle hready
      constructor <;> linarith
  unfold Servo.accrued
  constructor <;> linarith [hdebt.1, hdebt.2]

theorem Follows.unclamped (h : Follows m s) : clamp s.accrued = s.accrued := by
  obtain ⟨hl, hr⟩ := h.accrued
  unfold clamp
  rw [if_neg (by linarith), if_neg (by linarith)]

theorem Follows.estimate (h : Follows m s) : Follows m (s.estimate m) ∧ (s.estimate m).servoReady = true := by
  unfold Servo.estimate
  rw [if_pos h.near]
  refine ⟨⟨h.near, fun _ => ?_, fun hno => (nomatch hno), h.small⟩, rfl⟩
  dsimp only
  split
  · rename_i hready
    rw [h.measured hready]
    ring
  · rfl

/-- The frames of a packet, and what is still owed after it, are what was owed before and
the packet's share. -/
theorem packet_balance (h : Follows m s) (hsyt : 1 ≤ syt) : Follows m (s.packet syt).1 ∧
    (s.servoReady = true → (s.packet syt).1.servoReady = true ∧
      ((s.packet syt).2 : ℚ) + (s.packet syt).1.servoAccum = syt + s.accrued) := by
  unfold packet
  split
  · rename_i hready
    obtain ⟨hlow, hhigh⟩ := h.accrued
    rw [h.unclamped]
    dsimp only
    have hno : s.servoReady = false → False := fun hf => by rw [hready] at hf; cases hf
    split
    · rename_i hge
      refine ⟨⟨h.near, h.measured, fun hf => (hno hf).elim, by constructor <;> linarith⟩, fun _ => ⟨hready, ?_⟩⟩
      push_cast
      ring
    · split
      · rename_i hle
        refine ⟨⟨h.near, h.measured, fun hf => (hno hf).elim, by constructor <;> linarith⟩, fun _ => ⟨hready, ?_⟩⟩
        rw [Nat.cast_sub hsyt, Nat.cast_one]
        ring
      · rename_i hlt hgt
        refine ⟨⟨h.near, h.measured, fun hf => (hno hf).elim, ?_⟩, fun _ => ⟨hready, rfl⟩⟩
        constructor <;> linarith
  · rename_i hready
    exact ⟨h, fun hr => absurd hr hready⟩

end Servo

/-! ## Multiples of 8 kHz -/

theorem ofRate_full {rate : Quadlet} (h : rate.toNat % 8000 = 0) :
    (Geometry.ofRate rate).fullCount = kTxSlots ∧ 8000 * (Geometry.ofRate rate).sytInterval = rate.toNat := by
  unfold Geometry.ofRate
  dsimp only
  rw [if_pos h]
  exact ⟨rfl, Nat.mul_div_cancel' (Nat.dvd_of_mod_eq_zero h)⟩

theorem every_packet_full (p : ℕ) : isFullPacket (p % kTxSlots) kTxSlots kTxSlots = true := by
  rw [isFullPacket_mod (by decide) (by decide), IsTaken, Nat.mul_div_cancel _ (by decide),
    Nat.mul_div_cancel _ (by decide)]
  exact Nat.lt_succ_self _

theorem supported_rates {rate : Quadlet} (h : isSupportedRate rate = true) :
    rate.toNat % 8000 = 0 ∧ 8000 ≤ rate.toNat ∨ rate = 44100 ∨ rate = 88200 ∨ rate = 176400 := by
  simp only [isSupportedRate, kRates, List.any_cons, List.any_nil, Bool.or_false, Bool.or_eq_true, beq_iff_eq] at h
  rcases h with rfl | rfl | rfl | rfl | rfl | rfl | rfl | rfl | rfl
  case inr.inl => exact .inr (.inl rfl)
  case inr.inr.inr.inr.inl => exact .inr (.inr (.inl rfl))
  case inr.inr.inr.inr.inr.inr.inr.inl => exact .inr (.inr (.inr rfl))
  all_goals exact .inl (by decide)

namespace TxPacing

/-- A session at a multiple of 8 kHz, with a servo that follows `m`. -/
structure InStep (rate : Quadlet) (m : ℚ) (s : TxPacing) : Prop where
  geometry : s.geometry = Geometry.ofRate rate
  base : s.servo.baseRate = rate.toNat
  follows : s.servo.Follows m

/-- The frames put into packets and the debt, against the rate. -/
def balance (m : ℚ) (s : TxPacing) : ℚ := s.put + s.servo.servoAccum - s.turns * m / 8000

variable {rate : Quadlet} {m : ℚ} {s t : TxPacing}

theorem session_inStep (h8 : rate.toNat % 8000 = 0) (hm : |m - rate.toNat| < 60) (x : TxFill) (play : SlotQueue) :
    InStep rate m (session rate x play) := by
  obtain ⟨hlow, hhigh⟩ := abs_lt.1 hm
  have hbase : (session rate x play).servo.baseRate = rate.toNat := by
    change ((8000 * (Geometry.ofRate rate).sytInterval : ℕ) : ℚ) = _
    rw [(ofRate_full h8).2]
  have hmeasured : (session rate x play).servo.measuredRate = rate.toNat := rfl
  refine ⟨rfl, hbase,
    ⟨?_, fun hno => (nomatch hno), fun _ => ⟨rfl, ?_⟩, by constructor <;> norm_num [session, start, Servo.start]⟩⟩
  · rw [hbase]
    constructor <;> linarith
  · rw [hbase, hmeasured]
    constructor <;> linarith

theorem fillNext_balance (h8 : rate.toNat % 8000 = 0) (hr : 8000 ≤ rate.toNat) (h : InStep rate m s) :
    InStep rate m s.fillNext ∧ (s.servo.servoReady = true → s.fillNext.servo.servoReady = true ∧
      s.fillNext.balance m = s.balance m) := by
  obtain ⟨hcount, hsyt⟩ := ofRate_full h8
  have hpos : 1 ≤ (Geometry.ofRate rate).sytInterval := by omega
  obtain ⟨hfollows, hready⟩ := Servo.packet_balance h.follows hpos
  have hbase : (s.servo.packet (Geometry.ofRate rate).sytInterval).1.baseRate = rate.toNat := by
    rw [← h.base]
    unfold Servo.packet
    split
    · dsimp only
      split
      · rfl
      · split <;> rfl
    · rfl
  unfold fillNext
  dsimp only
  rw [h.geometry, hcount, if_pos (every_packet_full s.txFillPkt)]
  refine ⟨⟨rfl, hbase, hfollows⟩, fun hr => ?_⟩
  obtain ⟨hr', hsum⟩ := hready hr
  refine ⟨hr', ?_⟩
  have hsytq : (8000 : ℚ) * ((Geometry.ofRate rate).sytInterval : ℚ) = rate.toNat := by exact_mod_cast hsyt
  unfold balance
  dsimp only
  unfold Servo.accrued at hsum
  rw [h.follows.measured hr, h.base] at hsum
  push_cast
  linarith

theorem servoStep_balance (h8 : rate.toNat % 8000 = 0) (hr : 8000 ≤ rate.toNat) (h : InStep rate m s) {a : ServoAct}
    (ha : Steady m [a]) (hs : s.servoStep a = some t) :
    InStep rate m t ∧ (s.servo.servoReady = true → t.servo.servoReady = true ∧ t.balance m = s.balance m) := by
  cases a with
  | packet =>
    cases hs
    exact fillNext_balance h8 hr h
  | beginTick sent =>
    cases hs
    exact ⟨⟨h.geometry, h.base, h.follows⟩, fun hready => ⟨hready, rfl⟩⟩
  | second fVsBus =>
    cases hs
    cases ha fVsBus (List.mem_singleton_self _)
    obtain ⟨hfollows, hready⟩ := h.follows.estimate
    have hsame : (s.servo.estimate m).baseRate = s.servo.baseRate ∧
        (s.servo.estimate m).servoAccum = s.servo.servoAccum := by
      unfold Servo.estimate
      split <;> exact ⟨rfl, rfl⟩
    refine ⟨⟨h.geometry, hsame.1.trans h.base, hfollows⟩, fun _ => ⟨hready, ?_⟩⟩
    unfold balance
    dsimp only
    rw [hsame.2]
  | commit slot =>
    simp only [servoStep] at hs
    split at hs <;> cases hs
    exact ⟨⟨h.geometry, h.base, h.follows⟩, fun hready => ⟨hready, rfl⟩⟩

theorem run_balance (h8 : rate.toNat % 8000 = 0) (hr : 8000 ≤ rate.toNat) (h : InStep rate m s) {as : List ServoAct}
    (ha : Steady m as) (hs : run servoStep s as = some t) :
    InStep rate m t ∧ (s.servo.servoReady = true → t.servo.servoReady = true ∧ t.balance m = s.balance m) := by
  induction as generalizing s with
  | nil =>
    cases hs
    exact ⟨h, fun hready => ⟨hready, rfl⟩⟩
  | cons a as ih =>
    rw [run_cons, Option.bind_eq_some_iff] at hs
    obtain ⟨u, hu, hs⟩ := hs
    obtain ⟨hstep, hkeep⟩ := servoStep_balance h8 hr h (fun f hf => ha f (by simp_all)) hu
    obtain ⟨hrest, hkeep'⟩ := ih hstep (fun f hf => ha f (List.mem_cons_of_mem _ hf)) hs
    refine ⟨hrest, fun hready => ?_⟩
    obtain ⟨hready', hbal⟩ := hkeep hready
    obtain ⟨hready'', hbal'⟩ := hkeep' hready'
    exact ⟨hready'', hbal'.trans hbal⟩

end TxPacing

theorem tracks_of_multiple {rate : Quadlet} (h8 : rate.toNat % 8000 = 0) (hr : 8000 ≤ rate.toNat) {m : ℚ}
    (hm : |m - rate.toNat| < 60) : Tracks rate m where
  accepted := by
    intro x play as s ha hs
    exact (TxPacing.run_balance h8 hr (TxPacing.session_inStep h8 hm x play) ha hs).1.follows.estimate.2
  bounded := by
    refine ⟨2, fun x play as bs s t ha hs hready ht => ?_⟩
    have hin := (TxPacing.run_balance h8 hr (TxPacing.session_inStep h8 hm x play)
      (fun f hf => ha f (List.mem_append_left _ hf)) hs).1
    obtain ⟨hout, hkeep⟩ := TxPacing.run_balance h8 hr hin (fun f hf => ha f (List.mem_append_right _ hf)) ht
    have hbal := (hkeep hready).2
    unfold TxPacing.balance at hbal
    obtain ⟨h1, h2⟩ := hin.follows.small
    obtain ⟨h3, h4⟩ := hout.follows.small
    have hdrift : ((t.put : ℚ) - s.put) - ((t.turns : ℚ) - s.turns) * m / 8000 =
        s.servo.servoAccum - t.servo.servoAccum := by linarith
    rw [hdrift]
    apply le_of_lt
    rw [abs_lt]
    constructor <;> linarith
  unclamped := by
    intro x play as s ha hs
    have hfollows := (TxPacing.run_balance h8 hr (TxPacing.session_inStep h8 hm x play) ha hs).1.follows
    obtain ⟨hlow, hhigh⟩ := hfollows.small
    exact ⟨by linarith, by linarith, hfollows.unclamped⟩

/-! ## The other rates -/

/-- At a blocking rate the base rate is that of a cadence the session does not send, and no
estimate near the session's rate is near it. -/
theorem refused {rate : Quadlet} (h : rate = 44100 ∨ rate = 88200 ∨ rate = 176400) {m : ℚ} (hm : |m - rate.toNat| < 60)
    (x : TxFill) (play : SlotQueue) : ((TxPacing.session rate x play).servo.estimate m).servoReady = false := by
  obtain ⟨-, hhigh⟩ := abs_lt.1 hm
  have hfar : rate.toNat + 120 < 8000 * (Geometry.ofRate rate).sytInterval := by
    rcases h with rfl | rfl | rfl <;> decide
  have hbase : (rate.toNat : ℚ) + 120 < (TxPacing.session rate x play).servo.baseRate := by
    change (rate.toNat : ℚ) + 120 < ((8000 * (Geometry.ofRate rate).sytInterval : ℕ) : ℚ)
    exact_mod_cast hfar
  unfold Servo.estimate
  rw [if_neg]
  · rfl
  · rintro ⟨hlow, -⟩
    linarith

theorem not_tracks {rate : Quadlet} (h : rate = 44100 ∨ rate = 88200 ∨ rate = 176400) {m : ℚ}
    (hm : |m - rate.toNat| < 60) : ¬ Tracks rate m := by
  intro htracks
  have hready := htracks.accepted (TxFill.new kMaxChannels) {} [] _ (fun f hf => (nomatch hf)) rfl
  rw [refused h hm] at hready
  cases hready

/-- The servo tracks the device at the rates that are multiples of 8 kHz, and only there. -/
theorem servo_tracks {rate : Quadlet} (hr : isSupportedRate rate = true) {m : ℚ} (hm : |m - rate.toNat| < 60) :
    Tracks rate m ↔ rate.toNat % 8000 = 0 := by
  rcases supported_rates hr with ⟨h8, hge⟩ | hblocking
  · exact ⟨fun _ => h8, fun _ => tracks_of_multiple h8 hge hm⟩
  · have hmod : rate.toNat % 8000 ≠ 0 := by
      rcases hblocking with rfl | rfl | rfl <;> decide
    exact ⟨fun htracks => absurd htracks (not_tracks hblocking hm), fun h8 => absurd h8 hmod⟩

theorem servo_tracks_48k : Tracks 48000 48002 := by
  have hrate : (48000 : Quadlet).toNat = 48000 := rfl
  have hm : |(48002 : ℚ) - ((48000 : Quadlet).toNat : ℚ)| < 60 := by
    rw [hrate]
    norm_num
  have hmod : (48000 : Quadlet).toNat % 8000 = 0 := by decide
  exact (servo_tracks (by decide) hm).2 hmod

/-- At 44.1 kHz an estimate of a device that runs half a frame fast is refused. -/
theorem untracked : isSupportedRate 44100 = true ∧ |(88201 / 2 : ℚ) - ((44100 : Quadlet).toNat : ℚ)| < 60 ∧
    ¬ Tracks 44100 (88201 / 2) := by
  have hrate : (44100 : Quadlet).toNat = 44100 := rfl
  have hm : |(88201 / 2 : ℚ) - ((44100 : Quadlet).toNat : ℚ)| < 60 := by
    rw [hrate]
    norm_num
  exact ⟨by decide, hm, not_tracks (.inl rfl) hm⟩

end UserFace800.Session
