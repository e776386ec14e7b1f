import UserFace800.Dext.Iso
import UserFace800.Lib.Cursor
import UserFace800.Lib.Bresenham
/-!
# The transmit ring

`IsoTxStart` fills the ring once and the controller goes round it for ever; it
never waits. What the driver knows of it is the status of each slot, which a
refill clears and the transmission of a full packet sets. `Transmit.Inv` is why
that is enough: a status found set below the fill cursor was set in the lap the
cursor counts, since a slot is cleared only after the lap before was seen gone.
`transmit_cursors` is what follows for the two cursors.
-/
open UserFace800.Lib UserFace800.Lib.Cursor
open UserFace800.Lib.Bresenham (IsTaken)

namespace UserFace800.Dext

theorem kITPackets_eq : kITPackets = 640 := rfl

/-- Packet `p` carries a payload. -/
def IsFull (fullCount p : ℕ) : Prop := isFullPacket (p % kITPackets) fullCount kITPackets = true

instance (fullCount p : ℕ) : Decidable (IsFull fullCount p) := inferInstanceAs (Decidable (_ = _))

/-- The controller transmits packet `k`; `status` is whether an empty one leaves
a status too. -/
def Transmit.transmit (x : Transmit) (k : ℕ) (status : Bool) : Transmit :=
  if IsFull x.itFullCount k ∨ status = true then { x with itDesc := Function.update x.itDesc (k % kITPackets) true }
  else x

/-- The driver and the controller: how many packets it has transmitted since
`IsoTxStart`, and how often each slot was sent. -/
structure TransmitRing where
  iso : Iso
  transmitted : ℕ := 0
  sends : ℕ → ℕ := fun _ => 0

/-- The steps of the controller and of the driver's methods. -/
inductive TransmitAct where
  | transmit (status : Bool)
  | isoTxRefill (upTo : ℕ)
  | isoTxSent
  /-- The interrupt finds these cursors in the control block. -/
  | isoCompletion (control : UFOhciControl) (host : ℕ) (cycle : BitVec 32)
  | pump (release txFill : ℕ)

namespace TransmitRing

/-- After `IsoTxStart`, on a driver in any state. -/
def start (v : Iso) (fullCount : ℕ) : TransmitRing where
  iso := { v with tx := v.tx.start fullCount }

/-- Packets go when they go; the daemon refills behind them. -/
def step (s : TransmitRing) : TransmitAct → Option TransmitRing
  | .transmit status => some { s with
      iso.tx := s.iso.tx.transmit s.transmitted status
      transmitted := s.transmitted + 1
      sends := Function.update s.sends (s.transmitted % kITPackets) (s.sends (s.transmitted % kITPackets) + 1) }
  | .isoTxRefill upTo => some { s with iso.tx := s.iso.tx.refill upTo }
  | .isoTxSent => some { s with iso.tx := s.iso.tx.advance }
  | .isoCompletion control host cycle => some { s with iso := { s.iso with control }.isoCompletion host cycle }
  | .pump release txFill => some { s with iso := s.iso.pump release txFill }

end TransmitRing

/-! ## The transmit cursors -/

/-- With `transmitted` packets since the start: the fill cursor is at most a lap
ahead of the sent cursor, what the sent cursor has passed is gone, and a status
set in the lap below the fill cursor is of that lap. -/
structure Transmit.Inv (x : Transmit) (fullCount transmitted : ℕ) : Prop where
  running : x.itRunning = true
  count : x.itFullCount = fullCount
  sent_le : x.itSentCursor ≤ x.itFillCursor
  fill_le : x.itFillCursor ≤ x.itSentCursor + kITPackets
  gone : ∀ p < x.itSentCursor, IsFull fullCount p → p < transmitted
  armed : ∀ p < x.itFillCursor, x.itFillCursor ≤ p + kITPackets → IsFull fullCount p →
    x.itDesc (p % kITPackets) = true → p < transmitted

namespace Transmit

variable {x : Transmit} {fullCount transmitted : ℕ}

theorem start_inv (x : Transmit) (fullCount : ℕ) : (x.start fullCount).Inv fullCount 0 where
  running := rfl
  count := rfl
  sent_le := Nat.zero_le _
  fill_le := le_of_eq (Nat.zero_add _).symm
  gone := fun _ hp => absurd hp (Nat.not_lt_zero _)
  armed := fun _ _ _ _ hset => Bool.noConfusion hset

/-- The packet going out is not a lap behind one whose status counts. -/
theorem transmit_inv (hi : x.Inv fullCount transmitted) (status : Bool) :
    (x.transmit transmitted status).Inv fullCount (transmitted + 1) := by
  unfold transmit
  split
  · refine { hi with gone := fun p hp hf => Nat.lt_succ_of_lt (hi.gone p hp hf), armed := ?_ }
    intro p hp hlap hf hset
    have hp : p < x.itFillCursor := hp
    by_cases hmod : p % kITPackets = transmitted % kITPackets
    · -- were it ahead of the controller, the lap before it would be seen gone
      by_contra hge
      have hahead := lap_le hmod.symm (by omega)
      have hfill := hi.fill_le
      have hbefore : IsFull fullCount (p - kITPackets) := by
        have hback : p - kITPackets + kITPackets = p := by omega
        unfold IsFull at hf ⊢
        rwa [← hback, Nat.add_mod_right] at hf
      have := hi.gone (p - kITPackets) (by omega) hbefore
      omega
    · dsimp only at hset
      rw [Function.update_of_ne hmod] at hset
      exact Nat.lt_succ_of_lt (hi.armed p hp hlap hf hset)
  · exact { hi with
      gone := fun p hp hf => Nat.lt_succ_of_lt (hi.gone p hp hf)
      armed := fun p hp hlap hf hset => Nat.lt_succ_of_lt (hi.armed p hp hlap hf hset) }

/-- The scan passes full packets whose status is set, and stays below the fill cursor. -/
theorem scan_spec (x : Transmit) (fuel sent : ℕ) (hle : sent ≤ x.itFillCursor) :
    sent ≤ x.scan fuel sent ∧ x.scan fuel sent ≤ x.itFillCursor ∧
      ∀ p, sent ≤ p → p < x.scan fuel sent → IsFull x.itFullCount p → x.itDesc (p % kITPackets) = true := by
  induction fuel generalizing sent with
  | zero => exact ⟨le_refl _, hle, fun p hp hlt => absurd hlt (Nat.not_lt.2 hp)⟩
  | succ fuel ih =>
    unfold scan
    split
    · split
      · exact ⟨le_refl _, hle, fun p hp hlt => absurd hlt (Nat.not_lt.2 hp)⟩
      · rename_i hlt hstop
        obtain ⟨h1, h2, h3⟩ := ih (sent + 1) hlt
        refine ⟨Nat.le_of_succ_le h1, h2, fun p hp hps hf => ?_⟩
        rcases Nat.eq_or_lt_of_le hp with rfl | hp
        · by_contra hclear
          exact hstop ⟨hf, Bool.not_eq_true _ ▸ hclear⟩
        · exact h3 p hp hps hf
    · exact ⟨le_refl _, hle, fun p hp hlt => absurd hlt (Nat.not_lt.2 hp)⟩

theorem advance_inv (hi : x.Inv fullCount transmitted) : x.advance.Inv fullCount transmitted := by
  obtain ⟨h1, h2, h3⟩ := x.scan_spec (x.itFillCursor - x.itSentCursor) x.itSentCursor hi.sent_le
  have hfill := hi.fill_le
  unfold advance
  rw [if_pos hi.running]
  refine { hi with sent_le := h2, fill_le := hfill.trans (Nat.add_le_add_right h1 _), gone := ?_ }
  intro p hp hf
  rcases Nat.lt_or_ge p x.itSentCursor with hlt | hge
  · exact hi.gone p hlt hf
  · exact hi.armed p (hp.trans_le h2) (by omega) hf (h3 p hge hp (hi.count ▸ hf))

/-- A slot is cleared for the lap after the one it was seen gone in. -/
theorem refillLoop_inv (upTo fuel : ℕ) (hi : x.Inv fullCount transmitted) :
    (x.refillLoop upTo fuel).Inv fullCount transmitted := by
  induction fuel generalizing x with
  | zero => exact hi
  | succ fuel ih =>
    unfold refillLoop
    split
    · rename_i hroom
      have hsent := hi.sent_le
      refine ih { hi with sent_le := Nat.le_succ_of_le hsent, fill_le := by dsimp only; omega, armed := ?_ }
      intro p hp hlap hf hset
      have hp : p < x.itFillCursor + 1 := hp
      have hlap : x.itFillCursor + 1 ≤ p + kITPackets := hlap
      by_cases hmod : p % kITPackets = x.itFillCursor % kITPackets
      · simp [hmod] at hset
      · dsimp only at hset
        rw [Function.update_of_ne hmod] at hset
        have hne : p ≠ x.itFillCursor := fun he => hmod (he ▸ rfl)
        exact hi.armed p (by omega) (by omega) hf hset
    · exact hi

theorem refill_inv (hi : x.Inv fullCount transmitted) (upTo : ℕ) : (x.refill upTo).Inv fullCount transmitted := by
  unfold refill
  rw [if_pos hi.running]
  exact refillLoop_inv upTo kITPackets hi

/-- A fill cursor of 0 is not applied. -/
theorem handBack_inv (hi : x.Inv fullCount transmitted) (upTo : ℕ) :
    (if upTo ≠ 0 then x.refill upTo else x).Inv fullCount transmitted := by
  split
  · exact refill_inv hi upTo
  · exact hi

end Transmit

/-! ## The blocking cadence -/

section
variable {n f : ℕ}

/-- In 32 bits it is the even distribution, as long as the products fit. -/
theorem isFullPacket_taken {i : ℕ} (hi : i < n) (hnf : n * f < 2 ^ 32) : isFullPacket i f n = true ↔ IsTaken n f i := by
  rcases Nat.eq_zero_or_pos f with rfl | hf
  · unfold isFullPacket IsTaken
    simp
  · have hn : n ≤ n * f := Nat.le_mul_of_pos_right n hf
    have hnext : (i + 1) * f ≤ n * f := Nat.mul_le_mul_right f hi
    have hle : i * f ≤ (i + 1) * f := Nat.mul_le_mul_right f (Nat.le_succ i)
    unfold isFullPacket
    rw [Nat.mod_eq_of_lt (show i + 1 < 2 ^ 32 by omega), Nat.mod_eq_of_lt (show (i + 1) * f < 2 ^ 32 by omega),
      Nat.mod_eq_of_lt (show i * f < 2 ^ 32 by omega)]
    exact decide_eq_true_iff

theorem isFullPacket_mod (hn : 0 < n) (hnf : n * f < 2 ^ 32) (p : ℕ) :
    isFullPacket (p % n) f n = true ↔ IsTaken n f p := by
  rw [isFullPacket_taken (Nat.mod_lt p hn) hnf, Bresenham.isTaken_mod hn]

end

/-- With at least half of the packets full, no two empty ones follow each other. -/
theorem full_or_next {fullCount : ℕ} (hF : fullCount ≤ kITPackets) (hhalf : kITPackets ≤ 2 * fullCount) (p : ℕ) :
    IsFull fullCount p ∨ IsFull fullCount (p + 1) := by
  have hn := kITPackets_eq
  have hfits : kITPackets * fullCount < 2 ^ 32 := by
    rw [hn] at hF ⊢
    omega
  rw [IsFull, IsFull, isFullPacket_mod (by omega) hfits, isFullPacket_mod (by omega) hfits]
  exact Bresenham.isTaken_or_next (by omega) hF hhalf p

/-! ## Every interleaving -/

namespace TransmitRing

/-- What the controller has transmitted, it has sent slot by slot. -/
structure Inv (fullCount : ℕ) (s : TransmitRing) : Prop where
  tx : s.iso.tx.Inv fullCount s.transmitted
  sends : ∀ p < s.transmitted, p / kITPackets + 1 ≤ s.sends (p % kITPackets)

variable {s t : TransmitRing} {fullCount : ℕ}

theorem start_inv (v : Iso) (fullCount : ℕ) : (start v fullCount).Inv fullCount where
  tx := v.tx.start_inv fullCount
  sends := fun _ hp => absurd hp (Nat.not_lt_zero _)

theorem transmit_sends (hi : s.Inv fullCount) (p : ℕ) (hp : p < s.transmitted + 1) :
    p / kITPackets + 1 ≤ Function.update s.sends (s.transmitted % kITPackets)
      (s.sends (s.transmitted % kITPackets) + 1) (p % kITPackets) := by
  have hn := kITPackets_eq
  rcases Nat.eq_or_lt_of_le (Nat.le_of_lt_succ hp) with rfl | hlt
  · rw [Function.update_self]
    rcases Nat.lt_or_ge s.transmitted kITPackets with hfirst | hlater
    · rw [Nat.div_eq_of_lt hfirst]
      omega
    · -- the lap before
      have hbefore := hi.sends (s.transmitted - kITPackets) (by omega)
      rw [hn] at hbefore ⊢
      have hdiv : (s.transmitted - 640) / 640 + 1 = s.transmitted / 640 := by omega
      have hmod : (s.transmitted - 640) % 640 = s.transmitted % 640 := by omega
      rw [hmod] at hbefore
      omega
  · have hold := hi.sends p hlt
    by_cases hmod : p % kITPackets = s.transmitted % kITPackets
    · rw [hmod, Function.update_self, ← hmod]
      omega
    · rwa [Function.update_of_ne hmod]

theorem step_inv (s : TransmitRing) (a : TransmitAct) (t : TransmitRing) (hi : s.Inv fullCount)
    (h : s.step a = some t) : t.Inv fullCount := by
  cases a with
  | transmit status =>
    cases h
    exact ⟨Transmit.transmit_inv hi.tx status, transmit_sends hi⟩
  | isoTxRefill upTo =>
    cases h
    exact ⟨Transmit.refill_inv hi.tx upTo, hi.sends⟩
  | isoTxSent =>
    cases h
    exact ⟨Transmit.advance_inv hi.tx, hi.sends⟩
  | isoCompletion control host cycle =>
    cases h
    exact ⟨Transmit.advance_inv (Transmit.handBack_inv hi.tx control.txFillUpTo), hi.sends⟩
  | pump release txFill =>
    cases h
    exact ⟨Transmit.advance_inv (Transmit.handBack_inv hi.tx txFill), hi.sends⟩

/-- The sent cursor is pinned by the last full packet it passed. -/
theorem Inv.sent_le_transmitted (hi : s.Inv fullCount) (hF : fullCount ≤ kITPackets)
    (hhalf : kITPackets ≤ 2 * fullCount) : s.iso.tx.itSentCursor ≤ s.transmitted + 1 := by
  rcases Nat.lt_or_ge s.iso.tx.itSentCursor 2 with hlt | hge
  · omega
  · rcases full_or_next hF hhalf (s.iso.tx.itSentCursor - 2) with hf | hf
    · have := hi.tx.gone (s.iso.tx.itSentCursor - 2) (by omega) hf
      omega
    · have := hi.tx.gone (s.iso.tx.itSentCursor - 2 + 1) (by omega) hf
      omega

end TransmitRing

/-- From `IsoTxStart`, after any interleaving of the controller's transmissions,
refills to anywhere, scans and interrupts: the fill cursor is at most a lap ahead
of the sent cursor; every full packet the sent cursor has passed was transmitted,
in its lap; and if at least half the packets are full, the sent cursor is at most
one ahead of the controller. -/
theorem transmit_cursors (v : Iso) {fullCount : ℕ} (hF : fullCount ≤ kITPackets) {as : List TransmitAct}
    {s : TransmitRing} (h : run TransmitRing.step (TransmitRing.start v fullCount) as = some s) :
    (s.iso.tx.itSentCursor ≤ s.iso.tx.itFillCursor ∧
      s.iso.tx.itFillCursor ≤ s.iso.tx.itSentCursor + kITPackets) ∧
    (∀ p < s.iso.tx.itSentCursor, IsFull fullCount p →
      p < s.transmitted ∧ p / kITPackets + 1 ≤ s.sends (p % kITPackets)) ∧
    (kITPackets ≤ 2 * fullCount → s.iso.tx.itSentCursor ≤ s.transmitted + 1) := by
  have hi := run_inv (TransmitRing.Inv fullCount) TransmitRing.step_inv h (TransmitRing.start_inv v fullCount)
  refine ⟨⟨hi.tx.sent_le, hi.tx.fill_le⟩, ?_, hi.sent_le_transmitted hF⟩
  intro p hp hf
  have hgone := hi.tx.gone p hp hf
  exact ⟨hgone, hi.sends p hgone⟩

/-- Three of four packets full: the first, an empty one, is passed on faith, and
the scan stops at the third, which the controller has not reached. -/
theorem transmit_cursors_scan : ∃ s, run TransmitRing.step (TransmitRing.start {} 480)
      [.transmit false, .isoTxRefill 700, .transmit true, .isoCompletion ⟨0, 700⟩ 5 0] = some s ∧
    (s.transmitted = 2 ∧ s.iso.tx.itSentCursor = 2) ∧ s.iso.tx.itSentCursor ≤ s.transmitted + 1 := by
  have h : (run TransmitRing.step (TransmitRing.start {} 480)
      [.transmit false, .isoTxRefill 700, .transmit true, .isoCompletion ⟨0, 700⟩ 5 0]).map
      (fun s => (s.transmitted, s.iso.tx.itSentCursor)) = some (2, 2) := by decide +kernel
  obtain ⟨s, hrun, hs⟩ := Option.map_eq_some_iff.1 h
  rw [Prod.mk.injEq] at hs
  exact ⟨s, hrun, hs, (transmit_cursors {} (by decide) hrun).2.2 (by decide)⟩

end UserFace800.Dext
