import UserFace800.Audio.TxFill
import UserFace800.Dext.TransmitRing
import Mathlib.Data.Rat.Floor
/-!
# The paced fill

The pump keeps the transmit ring written ahead of the controller: each tick it fills the
packets from its cursor to 64 past the last one sent. A tick that finds the cursor less
than 8 ahead moves it there without filling what it passes. `lead_fresh` says when the
packets about to go out hold what was written for them: as long as no tick comes more
than 56 packets after the one before.

The frames a packet carries are the servo's choice (`Session.Servo`), and what they
hold is `TxFill`'s. Rates are exact rationals here.
-/
open UserFace800.Lib UserFace800.Protocol UserFace800.Audio
open UserFace800.Dext (isFullPacket IsFull kITPackets)

namespace UserFace800.Session

/-- The slots of the transmit ring. -/
def kTxSlots : ℕ := 640

/-- How far the fill leads. -/
def kTxLeadPkts : ℕ := 64

/-- How far it must at least. -/
def kTxMinLeadPkts : ℕ := 8

/-! ## Packet geometry -/

/-- The packets of a whole pattern. -/
def kBlockingRingLen : ℕ := 640

/-- The frames of a full packet. -/
def framesPerPacket : Speed → ℕ
  | .x1 => 8
  | .x2 => 16
  | .x4 => 32

/-- The full packets of a ring, whose product is of 32 bits. -/
def blockingFullCount (rate : Quadlet) (speed : Speed) : ℕ :=
  (rate * BitVec.ofNat 32 kBlockingRingLen).toNat / (8000 * framesPerPacket speed)

/-- What a session sends: frames and bytes of a full packet, full packets a lap. -/
structure Geometry where
  dbq : ℕ
  sytInterval : ℕ
  fullPayload : ℕ
  fullCount : ℕ
  deriving DecidableEq

/-- As `session_start` computes it. -/
def Geometry.ofRate (rate : Quadlet) : Geometry :=
  let speed := speedForRate rate
  let dbq := dataBlockQuadlets speed
  if rate.toNat % 8000 = 0 then
    let sytInterval := rate.toNat / 8000
    { dbq, sytInterval, fullPayload := sytInterval * dbq * 4, fullCount := kTxSlots }
  else
    let sytInterval := framesPerPacket speed
    { dbq, sytInterval, fullPayload := sytInterval * dbq * 4, fullCount := blockingFullCount rate speed }

/-! ## The servo -/

/-- The variables of the servo, in rationals. -/
structure Servo where
  servoAccum : ℚ := 0
  servoReady : Bool := false
  measuredRate : ℚ
  baseRate : ℚ

namespace Servo

/-- A servo at the nominal rate. -/
def start (rate : ℚ) (g : Geometry) : Servo where
  measuredRate := rate
  baseRate := ((8000 * g.sytInterval : ℕ) : ℚ)

/-- The estimate of a second, if it is near the base rate. -/
def estimate (s : Servo) (fVsBus : ℚ) : Servo :=
  if s.baseRate - 60 < fVsBus ∧ fVsBus < s.baseRate + 60 then
    { s with
      measuredRate := if s.servoReady then 4 / 5 * s.measuredRate + 1 / 5 * fVsBus else fVsBus
      servoReady := true }
  else s

/-- The accumulator with the debt of one more packet, before the clamp. -/
def accrued (s : Servo) : ℚ := s.servoAccum + (s.measuredRate - s.baseRate) / 8000

/-- At most four frames either way. -/
def clamp (a : ℚ) : ℚ := if a > 4 then 4 else if a < -4 then -4 else a

/-- One full packet: the servo afterwards and the frames it carries. -/
def packet (s : Servo) (sytInterval : ℕ) : Servo × ℕ :=
  if s.servoReady then
    let a := clamp s.accrued
    if a ≥ 1 then ({ s with servoAccum := a - 1 }, sytInterval + 1)
    else if a ≤ -1 then ({ s with servoAccum := a + 1 }, sytInterval - 1)
    else ({ s with servoAccum := a }, sytInterval)
  else (s, sytInterval)

end Servo

/-! ## A tick -/

/-- What was last written into a slot of the transmit ring. -/
structure Packet where
  index : ℕ
  frames : List (List Quadlet)

/-- The pump's transmit variables, and the ring. Not in the source are `turns` and `put`,
the packets the loop has passed and the frames it put into full ones. -/
structure TxPacing where
  geometry : Geometry
  txFillPkt : ℕ := kTxSlots
  txLastSent : ℕ := 0
  txResyncs : ℕ := 0
  servo : Servo
  slotBytes : ℕ → ℕ
  txBuf : ℕ → Option Packet := fun _ => none
  txSrc : TxFill
  play : SlotQueue := {}
  turns : ℕ := 0
  put : ℕ := 0

/-- The frames of one packet. -/
def takeFrames (dbq : ℕ) : ℕ → TxFill → SlotQueue → TxFill × SlotQueue × List (List Quadlet)
  | 0, x, play => (x, play, [])
  | n + 1, x, play =>
    let y := x.frame play
    let r := takeFrames dbq n y.1 y.2
    (r.1, r.2.1, PacedFill.encode y.1.last dbq :: r.2.2)

namespace TxPacing

/-- A session just started, `TxFill` as the one before left it. -/
def start (rate : ℚ) (g : Geometry) (txSrc : TxFill) (play : SlotQueue) : TxPacing where
  geometry := g
  servo := .start rate g
  slotBytes := fun _ => g.fullPayload
  txSrc := txSrc
  play := play

/-- A turn of the loop; an empty packet has no payload. -/
def fillNext (s : TxPacing) : TxPacing :=
  let g := s.geometry
  let slot := s.txFillPkt % kTxSlots
  if isFullPacket slot g.fullCount kTxSlots then
    let r := s.servo.packet g.sytInterval
    let f := takeFrames g.dbq r.2 s.txSrc.beginPacket s.play
    { s with
      txFillPkt := s.txFillPkt + 1
      servo := r.1
      slotBytes := Function.update s.slotBytes slot (r.2 * g.dbq * 4)
      txBuf := Function.update s.txBuf slot (some ⟨s.txFillPkt, f.2.2⟩)
      txSrc := f.1
      play := f.2.1
      turns := s.turns + 1
      put := s.put + r.2 }
  else { s with txFillPkt := s.txFillPkt + 1, turns := s.turns + 1 }

/-- `n` packets. -/
def fill (s : TxPacing) : ℕ → TxPacing
  | 0 => s
  | n + 1 => s.fillNext.fill n

/-- The race is lost: the cursor is close behind the head, or more than a lap ahead. -/
def lost (s : TxPacing) (sent : ℕ) : Prop := s.txFillPkt < sent + kTxMinLeadPkts ∨ kTxSlots < s.txFillPkt - sent

instance (s : TxPacing) (sent : ℕ) : Decidable (s.lost sent) := inferInstanceAs (Decidable (_ ∨ _))

/-- A tick begins with the sent cursor, and with a new lead if the old is lost. -/
def beginTick (s : TxPacing) (sent : ℕ) : TxPacing :=
  { s with
    txLastSent := sent
    txFillPkt := if s.lost sent then sent + kTxLeadPkts else s.txFillPkt
    txResyncs := if s.lost sent then s.txResyncs + 1 else s.txResyncs
    txSrc := s.txSrc.beginTick }

/-- The paced fill of a tick that finds `sent` packets sent. -/
def tick (s : TxPacing) (sent : ℕ) : TxPacing :=
  (s.beginTick sent).fill (sent + kTxLeadPkts - (s.beginTick sent).txFillPkt)

end TxPacing

/-- The steps of the pump's transmit half, and of the plugin. -/
inductive PacingAct where
  /-- The plugin commits a slot. -/
  | commit (slot : Slot)
  /-- A second has passed, and the rate was estimated. -/
  | second (fVsBus : ℚ)
  | tick (sent : ℕ)

namespace TxPacing

/-- The controller's count of packets sent never goes back. -/
def step (s : TxPacing) : PacingAct → Option TxPacing
  | .commit slot => if s.play.acquireWrite then some { s with play := s.play.commitWrite slot } else none
  | .second fVsBus => some { s with servo := s.servo.estimate fVsBus }
  | .tick sent => if s.txLastSent ≤ sent then some (s.tick sent) else none

/-! ## What the loop fills -/

theorem kTxSlots_eq : kTxSlots = 640 := rfl
theorem kTxLeadPkts_eq : kTxLeadPkts = 64 := rfl
theorem kTxMinLeadPkts_eq : kTxMinLeadPkts = 8 := rfl

@[simp] theorem fillNext_txFillPkt (s : TxPacing) : s.fillNext.txFillPkt = s.txFillPkt + 1 := by
  unfold fillNext
  dsimp only
  split <;> rfl

@[simp] theorem fillNext_geometry (s : TxPacing) : s.fillNext.geometry = s.geometry := by
  unfold fillNext
  dsimp only
  split <;> rfl

@[simp] theorem fillNext_txLastSent (s : TxPacing) : s.fillNext.txLastSent = s.txLastSent := by
  unfold fillNext
  dsimp only
  split <;> rfl

/-- A turn writes the slot of its packet, if that is full, and no other. -/
theorem fillNext_txBuf (s : TxPacing) (slot : ℕ) :
    s.fillNext.txBuf slot = s.txBuf slot ∨
    slot = s.txFillPkt % kTxSlots ∧ ∃ fs, s.fillNext.txBuf slot = some ⟨s.txFillPkt, fs⟩ := by
  unfold fillNext
  dsimp only
  split
  · by_cases hs : slot = s.txFillPkt % kTxSlots
    · subst hs
      exact .inr ⟨rfl, _, Function.update_self _ _ _⟩
    · exact .inl (Function.update_of_ne hs _ _)
  · exact .inl rfl

theorem fillNext_full (s : TxPacing) (hf : IsFull s.geometry.fullCount s.txFillPkt) :
    ∃ fs, s.fillNext.txBuf (s.txFillPkt % kTxSlots) = some ⟨s.txFillPkt, fs⟩ := by
  have hslot : isFullPacket (s.txFillPkt % kTxSlots) s.geometry.fullCount kTxSlots = true := hf
  unfold fillNext
  dsimp only
  rw [if_pos hslot]
  exact ⟨_, Function.update_self _ _ _⟩

@[simp] theorem fill_txFillPkt (s : TxPacing) (n : ℕ) : (s.fill n).txFillPkt = s.txFillPkt + n := by
  induction n generalizing s with
  | zero => rfl
  | succ n ih =>
    rw [fill, ih, fillNext_txFillPkt]
    omega

@[simp] theorem fill_geometry (s : TxPacing) (n : ℕ) : (s.fill n).geometry = s.geometry := by
  induction n generalizing s with
  | zero => rfl
  | succ n ih => rw [fill, ih, fillNext_geometry]

@[simp] theorem fill_txLastSent (s : TxPacing) (n : ℕ) : (s.fill n).txLastSent = s.txLastSent := by
  induction n generalizing s with
  | zero => rfl
  | succ n ih => rw [fill, ih, fillNext_txLastSent]

/-- A slot none of the loop's packets falls on stays as it is. -/
theorem fill_other (s : TxPacing) (n slot : ℕ)
    (h : ∀ q, s.txFillPkt ≤ q → q < s.txFillPkt + n → q % kTxSlots ≠ slot) : (s.fill n).txBuf slot = s.txBuf slot := by
  induction n generalizing s with
  | zero => rfl
  | succ n ih =>
    have hrest : ∀ q, s.fillNext.txFillPkt ≤ q → q < s.fillNext.txFillPkt + n → q % kTxSlots ≠ slot := by
      intro q hq hq'
      rw [fillNext_txFillPkt] at hq hq'
      exact h q (by omega) (by omega)
    rw [fill, ih s.fillNext hrest]
    rcases s.fillNext_txBuf slot with hsame | ⟨hslot, -⟩
    · exact hsame
    · exact absurd hslot.symm (h s.txFillPkt (le_refl _) (by omega))

/-- Within a lap, every full packet of the loop is in its slot afterwards. -/
theorem fill_full (s : TxPacing) (n p : ℕ) (hn : n ≤ kTxSlots) (hp : s.txFillPkt ≤ p) (hp' : p < s.txFillPkt + n)
    (hf : IsFull s.geometry.fullCount p) : ∃ fs, (s.fill n).txBuf (p % kTxSlots) = some ⟨p, fs⟩ := by
  have hk := kTxSlots_eq
  induction n generalizing s with
  | zero => omega
  | succ n ih =>
    rcases Nat.eq_or_lt_of_le hp with rfl | hlt
    · -- what comes after it in the loop is less than a lap further
      have hother : ∀ q, s.fillNext.txFillPkt ≤ q → q < s.fillNext.txFillPkt + n →
          q % kTxSlots ≠ s.txFillPkt % kTxSlots := by
        intro q hq hq'
        rw [fillNext_txFillPkt] at hq hq'
        rw [hk] at hn ⊢
        omega
      rw [fill, fill_other s.fillNext n _ hother]
      exact s.fillNext_full hf
    · exact ih s.fillNext (by omega) (by rw [fillNext_txFillPkt]; omega) (by rw [fillNext_txFillPkt]; omega)
        (by rw [fillNext_geometry]; exact hf)

@[simp] theorem tick_txLastSent (s : TxPacing) (sent : ℕ) : (s.tick sent).txLastSent = sent := by
  unfold tick
  rw [fill_txLastSent]
  rfl

@[simp] theorem tick_geometry (s : TxPacing) (sent : ℕ) : (s.tick sent).geometry = s.geometry := by
  unfold tick
  rw [fill_geometry]
  rfl

/-- Nothing in the ring is of a packet the cursor has not passed. -/
def Behind (s : TxPacing) : Prop := ∀ slot pk, s.txBuf slot = some pk → pk.index < s.txFillPkt

theorem fill_behind {s : TxPacing} (h : Behind s) (n : ℕ) : Behind (s.fill n) := by
  induction n generalizing s with
  | zero => exact h
  | succ n ih =>
    apply ih
    intro slot pk hpk
    rw [fillNext_txFillPkt]
    rcases s.fillNext_txBuf slot with hsame | ⟨-, fs, hnew⟩
    · exact Nat.lt_succ_of_lt (h slot pk (hsame ▸ hpk))
    · cases hnew.symm.trans hpk
      exact Nat.lt_succ_self _

/-! ## The lead -/

/-- The packets the controller is about to transmit are in their slots. -/
def Fresh (s : TxPacing) : Prop :=
  ∀ p, kTxSlots ≤ p → s.txLastSent + kTxMinLeadPkts ≤ p → p < s.txLastSent + kTxLeadPkts →
    IsFull s.geometry.fullCount p → ∃ pk, s.txBuf (p % kTxSlots) = some pk ∧ pk.index = p

/-- A tick comes in time: at most 56 packets after the one before, in the first lap not
past packet 632; or none of the packets due has a payload. -/
def InTime (s : TxPacing) : PacingAct → Prop
  | .tick sent =>
    sent ≤ max (kTxSlots - kTxMinLeadPkts) (s.txLastSent + (kTxLeadPkts - kTxMinLeadPkts)) ∨
      ∀ p, sent + kTxMinLeadPkts ≤ p → p < sent + kTxLeadPkts → ¬ IsFull s.geometry.fullCount p
  | _ => True

/-- Where the cursor is after a tick. -/
structure Inv (g : Geometry) (s : TxPacing) : Prop where
  geometry : s.geometry = g
  cursor : s.txFillPkt = max kTxSlots (s.txLastSent + kTxLeadPkts)
  behind : s.Behind

variable {s t : TxPacing} {g : Geometry}

theorem start_inv (rate : ℚ) (g : Geometry) (x : TxFill) (play : SlotQueue) : Inv g (start rate g x play) :=
  ⟨rfl, rfl, fun _ _ hpk => nomatch hpk⟩

theorem lost_iff (h : Inv g s) {sent : ℕ} (hs : s.txLastSent ≤ sent) :
    s.lost sent ↔ ¬ sent ≤ max (kTxSlots - kTxMinLeadPkts) (s.txLastSent + (kTxLeadPkts - kTxMinLeadPkts)) := by
  have hc := h.cursor
  rw [kTxSlots_eq, kTxLeadPkts_eq] at hc
  unfold lost
  rw [kTxSlots_eq, kTxMinLeadPkts_eq, kTxLeadPkts_eq]
  omega

/-- Where a tick leaves the cursor: a lead past the head, moved or filled up to. -/
theorem beginTick_txFillPkt (h : Inv g s) {sent : ℕ} (hs : s.txLastSent ≤ sent) :
    s.txFillPkt ≤ (s.beginTick sent).txFillPkt ∧
    (s.beginTick sent).txFillPkt + (sent + kTxLeadPkts - (s.beginTick sent).txFillPkt) =
      max kTxSlots (sent + kTxLeadPkts) := by
  have hc := h.cursor
  have hlost := lost_iff h hs
  unfold beginTick
  dsimp only
  by_cases hl : s.lost sent
  · have hlate := hlost.1 hl
    rw [if_pos hl]
    simp only [kTxSlots_eq, kTxMinLeadPkts_eq, kTxLeadPkts_eq] at hc hlate ⊢
    omega
  · have htime := mt hlost.2 hl
    rw [if_neg hl]
    simp only [kTxSlots_eq, kTxMinLeadPkts_eq, kTxLeadPkts_eq] at hc htime ⊢
    omega

theorem tick_inv (h : Inv g s) {sent : ℕ} (hs : s.txLastSent ≤ sent) : Inv g (s.tick sent) := by
  obtain ⟨hmono, hend⟩ := beginTick_txFillPkt h hs
  unfold tick
  refine ⟨(fill_geometry _ _).trans h.geometry, ?_, ?_⟩
  · rw [fill_txFillPkt, fill_txLastSent]
    exact hend
  · apply fill_behind
    exact fun slot pk hpk => (h.behind slot pk hpk).trans_le hmono

/-- A tick in time fills on from where the last one stopped. -/
theorem tick_fresh (h : Inv g s) (hf : s.Fresh) {sent : ℕ} (hs : s.txLastSent ≤ sent) (hl : ¬ s.lost sent) :
    (s.tick sent).Fresh := by
  have hc := h.cursor
  have hb : s.beginTick sent = { s with txLastSent := sent, txSrc := s.txSrc.beginTick } := by
    unfold beginTick
    rw [if_neg hl, if_neg hl]
  unfold tick
  rw [hb]
  dsimp only
  intro p hp hlow hhigh hfull
  rw [fill_txLastSent] at hlow hhigh
  rw [fill_geometry] at hfull
  dsimp only at hlow hhigh hfull
  have hlap : sent + kTxLeadPkts ≤ s.txFillPkt + kTxSlots ∧ sent + kTxLeadPkts ≤ p + kTxSlots := by
    have htime := mt (lost_iff h hs).2 hl
    simp only [kTxSlots_eq, kTxMinLeadPkts_eq, kTxLeadPkts_eq] at hc htime hlow hhigh hp ⊢
    omega
  by_cases hnew : s.txFillPkt ≤ p
  · obtain ⟨fs, hfs⟩ := fill_full { s with txLastSent := sent, txSrc := s.txSrc.beginTick }
      (sent + kTxLeadPkts - s.txFillPkt) p (by omega) hnew (by dsimp only; omega) hfull
    exact ⟨_, hfs, rfl⟩
  · -- filled before, and the loop's packets are less than a lap further
    rw [fill_other]
    · refine hf p hp (by omega) ?_ hfull
      simp only [kTxSlots_eq, kTxLeadPkts_eq] at hc hp ⊢
      omega
    · dsimp only
      intro q hq hq'
      simp only [kTxSlots_eq] at hlap ⊢
      omega

/-- A tick too late fills nothing: what is due is still as the lap before left it. -/
theorem tick_lost (h : Inv g s) {sent : ℕ} (hl : s.lost sent) {p : ℕ} (hlow : sent + kTxMinLeadPkts ≤ p)
    (hlate : s.txFillPkt < sent + kTxMinLeadPkts) :
    ∀ pk, (s.tick sent).txBuf (p % kTxSlots) = some pk → pk.index < p := by
  intro pk hpk
  have hnone : sent + kTxLeadPkts - (s.beginTick sent).txFillPkt = 0 := by
    unfold beginTick
    dsimp only
    rw [if_pos hl, Nat.sub_self]
  unfold tick at hpk
  rw [hnone] at hpk
  have hold := h.behind _ pk hpk
  omega

/-- After a tick too late the lead is fresh only if nothing is due. -/
theorem lost_fresh_iff (h : Inv g s) {sent : ℕ} (hle : s.txLastSent ≤ sent) (hl : s.lost sent) : (s.tick sent).Fresh ↔
    ∀ p, sent + kTxMinLeadPkts ≤ p → p < sent + kTxLeadPkts → ¬ IsFull s.geometry.fullCount p := by
  have hc := h.cursor
  have hlate : s.txFillPkt < sent + kTxMinLeadPkts := by
    rcases hl with hl | hl
    · exact hl
    · rw [kTxSlots_eq, kTxLeadPkts_eq] at *
      omega
  have hpast : kTxSlots ≤ sent + kTxMinLeadPkts := by
    rw [hc] at hlate
    exact (Nat.le_max_left _ _).trans (Nat.le_of_lt hlate)
  constructor
  · intro hfresh p hlow hhigh hfull
    obtain ⟨pk, hpk, hidx⟩ := hfresh p (hpast.trans hlow) (by rwa [tick_txLastSent]) (by rwa [tick_txLastSent])
      (by rwa [tick_geometry])
    have hlt := tick_lost h hl hlow hlate pk hpk
    omega
  · intro hnone p _ hlow hhigh hfull
    rw [tick_txLastSent] at hlow hhigh
    rw [tick_geometry] at hfull
    exact absurd hfull (hnone p hlow hhigh)

theorem step_inTime (s : TxPacing) (a : PacingAct) (t : TxPacing) (h : Inv g s) (hf : s.Fresh)
    (hs : s.step a = some t) :
    Inv g t ∧ (t.Fresh ↔ s.InTime a) := by
  cases a with
  | commit slot =>
    simp only [step] at hs
    split at hs <;> cases hs
    exact ⟨⟨h.geometry, h.cursor, h.behind⟩, ⟨fun _ => trivial, fun _ => hf⟩⟩
  | second fVsBus =>
    cases hs
    exact ⟨⟨h.geometry, h.cursor, h.behind⟩, ⟨fun _ => trivial, fun _ => hf⟩⟩
  | tick sent =>
    simp only [step] at hs
    split at hs <;> cases hs
    rename_i hle
    refine ⟨tick_inv h hle, ?_⟩
    have hlost := lost_iff h hle
    by_cases hl : s.lost sent
    · rw [lost_fresh_iff h hle hl]
      refine ⟨.inr, fun hin => ?_⟩
      rcases hin with hin | hnone
      · exact absurd hin (hlost.1 hl)
      · exact hnone
    · refine ⟨fun _ => .inl ?_, fun _ => tick_fresh h hf hle hl⟩
      by_contra hin
      exact hl (hlost.2 hin)

theorem start_fresh (rate : ℚ) (g : Geometry) (x : TxFill) (play : SlotQueue) : (start rate g x play).Fresh := by
  intro p hp _ hhigh
  have hsent : (start rate g x play).txLastSent = 0 := rfl
  rw [hsent, kTxLeadPkts_eq] at hhigh
  rw [kTxSlots_eq] at hp
  omega

/-- With half of the packets full or more, some packet due has a payload. -/
theorem inTime_iff (hhalf : kTxSlots ≤ 2 * s.geometry.fullCount) (hle : s.geometry.fullCount ≤ kTxSlots) (sent : ℕ) :
    s.InTime (.tick sent) ↔
      sent ≤ max (kTxSlots - kTxMinLeadPkts) (s.txLastSent + (kTxLeadPkts - kTxMinLeadPkts)) := by
  refine ⟨fun hin => hin.resolve_right fun hnone => ?_, .inl⟩
  have hlead := kTxLeadPkts_eq
  have hmin := kTxMinLeadPkts_eq
  rcases Dext.full_or_next (show s.geometry.fullCount ≤ kITPackets from hle)
    (show kITPackets ≤ 2 * s.geometry.fullCount from hhalf) (sent + kTxMinLeadPkts) with hf | hf
  · exact hnone _ (le_refl _) (by omega) hf
  · exact hnone _ (Nat.le_succ _) (by omega) hf

/-- After every tick of a run the packets due are in their slots, exactly if every tick of
it comes in time. -/
theorem lead_fresh (rate : ℚ) (g : Geometry) (x : TxFill) (play : SlotQueue) {as : List PacingAct} {t : TxPacing}
    (h : run step (start rate g x play) as = some t) :
    ((∀ bs u, bs <+: as → run step (start rate g x play) bs = some u → u.Fresh) ↔
      Meets step InTime (start rate g x play) as) ∧
    (kTxSlots ≤ 2 * g.fullCount → g.fullCount ≤ kTxSlots → ∀ (s : TxPacing) (sent : ℕ), s.geometry = g →
      (s.InTime (.tick sent) ↔
        sent ≤ max (kTxSlots - kTxMinLeadPkts) (s.txLastSent + (kTxLeadPkts - kTxMinLeadPkts)))) := by
  refine ⟨meets_iff_always (Inv g) Fresh step_inTime h (start_inv rate g x play) (start_fresh rate g x play), ?_⟩
  rintro hhalf hle s sent rfl
  exact inTime_iff hhalf hle sent

/-- A session at 48 kHz. -/
def streaming : TxPacing := start 48000 (Geometry.ofRate 48000) (TxFill.new kMaxChannels) {}

theorem lead_fresh_steady : ∃ t, run step streaming [.tick 600, .tick 650, .tick 706] = some t ∧ t.Fresh := by
  have hr : run step streaming [.tick 600, .tick 650, .tick 706] =
      some (((streaming.tick 600).tick 650).tick 706) := by
    simp [run_cons, step, streaming, start]
  refine ⟨_, hr, ((lead_fresh _ _ _ _ hr).1.2 ?_) _ _ (List.prefix_refl _) hr⟩
  refine ⟨.inl (by decide), fun u hu => ⟨.inl ?_, fun v hv => ⟨.inl ?_, fun _ _ => trivial⟩⟩⟩
  · have hle : (start 48000 (Geometry.ofRate 48000) (TxFill.new kMaxChannels) {}).txLastSent ≤ 600 := by decide
    rw [step, if_pos hle] at hu
    rw [← Option.some.inj hu, tick_txLastSent]
    decide
  · rw [step] at hv
    split at hv <;> cases hv
    rw [tick_txLastSent]
    decide

/-- A tick comes 100 packets after the one before: packet 708 is due, and its slot has
nothing of it. -/
theorem stalled : ∃ t, run step streaming [.tick 600, .tick 700] = some t ∧
    IsFull t.geometry.fullCount 708 ∧ ¬ t.Fresh := by
  have hr : run step streaming [.tick 600, .tick 700] = some ((streaming.tick 600).tick 700) := by
    simp [run_cons, step, streaming, start]
  have hinv : Inv (Geometry.ofRate 48000) (streaming.tick 600) := tick_inv (start_inv _ _ _ _) (Nat.zero_le _)
  have hfull : IsFull ((streaming.tick 600).tick 700).geometry.fullCount 708 := by
    rw [tick_geometry, tick_geometry]
    decide
  have hlost : (streaming.tick 600).lost 700 := by
    rw [lost_iff hinv (by rw [tick_txLastSent]; decide), tick_txLastSent]
    decide
  have hlate : (streaming.tick 600).txFillPkt < 700 + kTxMinLeadPkts := by
    rw [hinv.cursor, tick_txLastSent]
    decide
  refine ⟨_, hr, hfull, fun hfresh => ?_⟩
  have hdue : 700 + kTxMinLeadPkts ≤ 708 ∧ 708 < 700 + kTxLeadPkts := by decide
  obtain ⟨pk, hpk, hidx⟩ := hfresh 708 (by decide) (by rw [tick_txLastSent]; exact hdue.1)
    (by rw [tick_txLastSent]; exact hdue.2) hfull
  have hlt := tick_lost hinv hlost hdue.1 hlate pk hpk
  omega

end TxPacing

end UserFace800.Session
