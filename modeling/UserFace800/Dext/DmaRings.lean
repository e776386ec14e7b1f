import UserFace800.Dext.CaptureRing
import UserFace800.Dext.Dma
import UserFace800.Dext.TransmitRing
/-!
# The rings are what the controller makes of the descriptors

The models of the capture and of the transmit ring take for granted that packet `k` is that
of slot `k mod n`. Here it follows from the branch words: `capture_refines` and
`transmit_refines` find, for every run of the driver and the controller that follows its
descriptors, the run of the ring. `one_shot` is about the program that does not loop.
-/
open UserFace800.Lib

namespace UserFace800.Dext

namespace Iso

variable {v w : Iso}

/-- What moves cursors does so in the model of the capture ring. -/
theorem Moves.capture (h : v.Moves w) {c : CaptureRing} (hc : c.iso.rx = v.rx) : ∃ as d,
    run CaptureRing.step c as = some d ∧ d.iso.rx = w.rx ∧ d.completed = c.completed ∧ d.slots = c.slots := by
  cases h with
  | isoCompleted => exact ⟨[.isoCompletedCount], _, rfl, by rw [← hc], rfl, rfl⟩
  | isoRelease upTo => exact ⟨[.isoRelease upTo], _, rfl, by rw [← hc], rfl, rfl⟩
  | isoTxSent | isoTxRefill => exact ⟨[], _, rfl, hc, rfl, rfl⟩
  | pump release txFill =>
    refine ⟨[.pump release txFill], _, rfl, ?_, rfl, rfl⟩
    simp only [Iso.pump, hc]
  | isoCompletion control host cycle =>
    refine ⟨[.isoCompletion control host cycle], _, rfl, ?_, rfl, rfl⟩
    simp only [Iso.isoCompletion, publish, scanCursors, applyControl, hc]

theorem Moves.transmit (h : v.Moves w) {c : TransmitRing} (hc : c.iso.tx = v.tx) : ∃ as d,
    run TransmitRing.step c as = some d ∧ d.iso.tx = w.tx ∧ d.transmitted = c.transmitted := by
  cases h with
  | isoCompleted | isoRelease => exact ⟨[], _, rfl, hc, rfl⟩
  | isoTxSent => exact ⟨[.isoTxSent], _, rfl, by rw [← hc], rfl⟩
  | isoTxRefill upTo => exact ⟨[.isoTxRefill upTo], _, rfl, by rw [← hc], rfl⟩
  | pump release txFill =>
    refine ⟨[.pump release txFill], _, rfl, ?_, rfl⟩
    simp only [Iso.pump, hc]
  | isoCompletion control host cycle =>
    refine ⟨[.isoCompletion control host cycle], _, rfl, ?_, rfl⟩
    simp only [Iso.isoCompletion, publish, scanCursors, applyControl, hc]

end Iso

namespace Dma

variable {m : DmaMap} {s t : Dma}

/-! ## The capture ring -/

/-- No call starts or stops capture. -/
def KeepsCapture (_ : Dma) : DmaAct → Prop
  | .call .isoStart _ | .call .isoStop _ | .call .isoStartCont _ => False
  | _ => True

instance (s : Dma) : ∀ a, Decidable (s.KeepsCapture a)
  | .call .isoStart _ | .call .isoStop _ | .call .isoStartCont _ => .isFalse id
  | .call .isoPoll _ | .call .isoCompleted _ | .call .isoRelease _ | .call .isoTxStart _ | .call .isoTxStop _
  | .call .isoTxSent _ | .call .isoTxRefill _ | .call .isoTxSetBytes _ | .call .pump _
  | .resized | .isoCompletion .. | .receive .. | .transmit _ | .skip => .isTrue trivial

/-- The address of a slot. -/
def slotAddr (m : DmaMap) (i : ℕ) : ℕ := m.isoAddr + kUFOhciIsoSlotBytes * i

/-- A capture in a ring is the capture ring `c`: cursors, counts and slots. -/
structure CapturesAs (m : DmaMap) (s : Dma) (c : CaptureRing) : Prop where
  inv : Inv m s
  ring : s.oneShot = false
  running : s.rxPtr.isSome = true
  rx : c.iso.rx = s.iso.rx
  completed : c.completed = s.rxCount
  slots : ∀ i < kUFOhciIsoMaxPackets, s.mem (slotAddr m i) = c.slots i

theorem receive_capturesAs {c : CaptureRing} (hs : CapturesAs m s c) {channel : U32} {len : ℕ}
    (h : s.receive m channel len = some t) : ∃ as d, run CaptureRing.step c as = some d ∧ CapturesAs m t d := by
  have hinv := receive_inv hs.inv h
  obtain ⟨p, hp⟩ := Option.isSome_iff_exists.1 hs.running
  have hc := hs.inv.rx p hp
  obtain ⟨-, i, hn, hi512, rfl⟩ := receive_spec hc hp h
  refine ⟨[.complete], _, rfl, hinv, hs.ring, ?_, ?_, ?_, fun j hj => ?_⟩
  · show (if s.oneShot = true ∧ _ then none else some _).isSome = true
    rw [if_neg fun h => Bool.noConfusion (hs.ring.symm.trans h.1)]
    rfl
  · show c.iso.rx.complete c.completed = s.iso.rx.complete s.rxCount
    rw [hs.rx, hs.completed]
  · show c.completed + 1 = s.rxCount + 1
    rw [hs.completed]
  · show Function.update s.mem (slotAddr m i) s.rxCount (slotAddr m j) =
      Function.update c.slots (c.completed % c.iso.rx.isoPackets) c.completed j
    rw [hs.completed, hs.rx, ← hn]
    by_cases hij : j = i
    · rw [hij, Function.update_self, Function.update_self]
    · have haddr : slotAddr m j ≠ slotAddr m i := by
        unfold slotAddr kUFOhciIsoSlotBytes
        omega
      rw [Function.update_of_ne haddr, Function.update_of_ne hij]
      exact hs.slots j hj

theorem isoTxStop_rx (s : Dma) : s.isoTxStop.oneShot = s.oneShot ∧ s.isoTxStop.rxPtr = s.rxPtr ∧
    s.isoTxStop.iso.rx = s.iso.rx ∧ s.isoTxStop.rxCount = s.rxCount ∧ s.isoTxStop.mem = s.mem := by
  unfold isoTxStop
  split <;> exact ⟨rfl, rfl, rfl, rfl, rfl⟩

theorem step_capturesAs (s : Dma) (a : DmaAct) (t : Dma) (c : CaptureRing) (hs : CapturesAs m s c)
    (hok : s.KeepsCapture a)
    (h : s.step m a = some t) : ∃ as d, run CaptureRing.step c as = some d ∧ CapturesAs m t d := by
  have hinv := step_inv s a t hs.inv h
  have hmoves {iso : Iso} (hv : s.iso.Moves iso) (hinv : Inv m { s with iso }) :
      ∃ as d, run CaptureRing.step c as = some d ∧ CapturesAs m { s with iso } d := by
    obtain ⟨as, d, hrun, hrx, hcompleted, hslots⟩ := hv.capture hs.rx
    exact ⟨as, d, hrun, hinv, hs.ring, hs.running, hrx, hcompleted.trans hs.completed, hslots ▸ hs.slots⟩
  -- what is left alone is left alone there too
  have hsame (hring : t.oneShot = s.oneShot) (hptr : t.rxPtr = s.rxPtr) (hrx : t.iso.rx = s.iso.rx)
      (hcount : t.rxCount = s.rxCount) (hmem : t.mem = s.mem) : ∃ as d, run CaptureRing.step c as = some d ∧
      CapturesAs m t d :=
    ⟨[], c, rfl, hinv, hring ▸ hs.ring, hptr ▸ hs.running, hrx ▸ hs.rx, hcount ▸ hs.completed, hmem ▸ hs.slots⟩
  cases a with
  | call selector scalarInput =>
    cases (call_calls h).2 with
    | moves _ _ iso hv => exact hmoves hv hinv
    | isoStart | isoStop | isoStartCont => exact hok.elim
    | unchanged | isoTxStart | isoTxSetBytes => exact hsame rfl rfl rfl rfl rfl
    | isoTxStop =>
      obtain ⟨hring, hptr, hrx, hcount, hmem⟩ := s.isoTxStop_rx
      exact hsame hring hptr hrx hcount hmem
  | resized =>
    obtain ⟨r, -, rfl⟩ := Option.map_eq_some_iff.1 h
    exact hsame rfl rfl rfl rfl rfl
  | isoCompletion control host cycle =>
    obtain rfl := Option.some.inj h
    exact hmoves (.isoCompletion control host cycle) hinv
  | receive channel len => exact receive_capturesAs hs h
  | transmit status =>
    obtain ⟨-, i, len, hdrLen, -, -, -, -, -, rfl⟩ := transmit_spec hs.inv h
    exact hsame rfl rfl rfl rfl rfl
  | skip =>
    obtain rfl := skip_spec hs.inv h
    exact hsame rfl rfl rfl rfl rfl

/-- After `IsoStartContinuous`, until capture is started or stopped again, the driver and the
controller that follows its descriptors are a run of the capture ring: the same cursors and
statuses, and in the memory of slot `i` what the ring has there. So a packet stays where its
number says until the one a ring later, and none is counted that has not arrived. -/
theorem capture_refines (m : DmaMap) {as bs : List DmaAct} (h : run (step m) {} as = some s) (channel : U32)
    (hm : Meets (step m) KeepsCapture (s.isoStartContinuous m channel) bs)
    (h' : run (step m) (s.isoStartContinuous m channel) bs = some t) :
    (∃ cs c, run CaptureRing.step (CaptureRing.start s.iso fun i => s.mem (slotAddr m i)) cs = some c ∧
      c.iso.rx = t.iso.rx ∧ c.completed = t.rxCount ∧ ∀ i < kUFOhciIsoMaxPackets, t.mem (slotAddr m i) = c.slots i) ∧
    (∀ k < t.rxCount, t.mem (slotAddr m (k % kUFOhciIsoMaxPackets)) = k ↔ t.rxCount ≤ k + kUFOhciIsoMaxPackets) ∧
    t.iso.rx.isoWriteCursor ≤ t.rxCount := by
  have hi := run_inv (Inv m) step_inv h (inv_init m)
  have hstart : CapturesAs m (s.isoStartContinuous m channel) (CaptureRing.start s.iso fun i => s.mem (slotAddr m i)) :=
    ⟨isoStartContinuous_inv hi channel, rfl, rfl, rfl, rfl, fun _ _ => rfl⟩
  obtain ⟨cs, c, hc, hs⟩ := hm.sim (CapturesAs m) step_capturesAs h' hstart
  have hinv := run_inv CaptureRing.Inv CaptureRing.step_inv hc (CaptureRing.start_inv _ _)
  refine ⟨⟨cs, c, hc, hs.rx, hs.completed, hs.slots⟩, fun k hk => ?_, ?_⟩
  · rw [← hs.completed] at hk ⊢
    rw [hs.slots _ (Nat.mod_lt _ (by decide))]
    exact hinv.slot_iff hk
  · rw [← hs.rx, ← hs.completed]
    exact hinv.rx.done

/-- Two packets, of which the interrupt counts the first. -/
def countedOnce : List DmaAct := [.receive 1 300, .isoCompletion {} 7 0, .receive 1 300]

theorem capture_refines_counted : ∃ t, run (step placed) (isoStartContinuous placed {} 1) countedOnce = some t ∧
    t.rxCount = 2 ∧ t.mem (slotAddr placed (1 % kUFOhciIsoMaxPackets)) = 1 ∧ t.iso.rx.isoWriteCursor ≤ t.rxCount := by
  have hr : (run (step placed) (isoStartContinuous placed {} 1) countedOnce).map (fun t => t.rxCount) = some 2 := by
    decide +kernel
  obtain ⟨t, ht, hcount⟩ := Option.map_eq_some_iff.1 hr
  have hcount : t.rxCount = 2 := hcount
  have hm : Meets (step placed) KeepsCapture (isoStartContinuous placed {} 1) countedOnce := by decide +kernel
  obtain ⟨-, hmem, hwrite⟩ := capture_refines placed (show run (step placed) {} [] = some {} from rfl) 1 hm ht
  exact ⟨t, ht, hcount, (hmem 1 (by omega)).2 (by rw [hcount]; decide), hwrite⟩

/-! ## The transmit ring -/

/-- No call starts or stops transmission, or empties the slot of a full packet. -/
def KeepsTransmit (s : Dma) : DmaAct → Prop
  | .call .isoTxStart _ | .call .isoTxStop _ => False
  | .call .isoTxSetBytes (slot :: payloadBytes :: _) =>
    payloadBytes.setWidth 32 ≠ (0 : U32) ∨ ¬ IsFull s.iso.tx.itFullCount (slot.setWidth 32).toNat
  | _ => True

instance (s : Dma) : ∀ a, Decidable (s.KeepsTransmit a)
  | .call .isoTxStart _ | .call .isoTxStop _ => .isFalse id
  | .call .isoTxSetBytes (_ :: _ :: _) => inferInstanceAs (Decidable (_ ∨ _))
  | .call .isoTxSetBytes [] | .call .isoTxSetBytes [_] | .call .isoStart _ | .call .isoPoll _ | .call .isoStop _
  | .call .isoStartCont _ | .call .isoCompleted _ | .call .isoRelease _ | .call .isoTxSent _ | .call .isoTxRefill _
  | .call .pump _ | .resized | .isoCompletion .. | .receive .. | .transmit _ | .skip => .isTrue trivial

/-- A transmission is the transmit ring `c`: cursors and counts, and its full blocks are full. -/
structure TransmitsAs (m : DmaMap) (s : Dma) (c : TransmitRing) : Prop where
  inv : Inv m s
  running : s.iso.tx.itRunning = true
  tx : c.iso.tx = s.iso.tx
  transmitted : c.transmitted = s.txCount
  full : ∀ i < kITPackets, IsFull s.iso.tx.itFullCount i → (s.txWords i).payload.reqCount ≠ 0

theorem transmit_transmitsAs {c : TransmitRing} (hs : TransmitsAs m s c) {status : Bool}
    (h : s.transmit m status = some t) : ∃ as d, run TransmitRing.step c as = some d ∧ TransmitsAs m t d := by
  have hinv := transmit_inv hs.inv h
  obtain ⟨-, i, len, hdrLen, hn, hw, hlen, -, -, rfl⟩ := transmit_spec hs.inv h
  have hi : i < kITPackets := hn ▸ Nat.mod_lt _ (by decide)
  -- a full packet is never empty, so it leaves a status whatever an empty one does
  have hfull (hf : IsFull s.iso.tx.itFullCount s.txCount) : len ≠ 0 := by
    rintro rfl
    refine hs.full i hi ?_ (by rw [hw]; rfl)
    unfold IsFull at hf ⊢
    rwa [hn, Nat.mod_mod]
  refine ⟨[.transmit (decide (len ≠ 0) || status)], _, rfl, hinv, hs.running, ?_, ?_, hs.full⟩
  · show c.iso.tx.transmit c.transmitted (decide (len ≠ 0) || status) = _
    rw [hs.tx, hs.transmitted]
    unfold Transmit.transmit
    have hiff : (IsFull s.iso.tx.itFullCount s.txCount ∨ (decide (len ≠ 0) || status) = true) ↔
        (len ≠ 0 ∨ status = true) := by
      rw [Bool.or_eq_true, decide_eq_true_eq]
      exact ⟨fun h => h.elim (fun hf => .inl (hfull hf)) id, .inr⟩
    simp only [hiff, ← hn]
    split <;> rfl
  · show c.transmitted + 1 = s.txCount + 1
    rw [hs.transmitted]

theorem isoStop_tx (s : Dma) :
    s.isoStop.iso.tx = s.iso.tx ∧ s.isoStop.txCount = s.txCount ∧ s.isoStop.txWords = s.txWords := by
  unfold isoStop
  split <;> exact ⟨rfl, rfl, rfl⟩

theorem step_transmitsAs (s : Dma) (a : DmaAct) (t : Dma) (c : TransmitRing) (hs : TransmitsAs m s c)
    (hok : s.KeepsTransmit a)
    (h : s.step m a = some t) : ∃ as d, run TransmitRing.step c as = some d ∧ TransmitsAs m t d := by
  have hinv := step_inv s a t hs.inv h
  have hmoves {iso : Iso} (hv : s.iso.Moves iso) (hinv : Inv m { s with iso }) :
      ∃ as d, run TransmitRing.step c as = some d ∧ TransmitsAs m { s with iso } d := by
    obtain ⟨as, d, hrun, htx, htransmitted⟩ := hv.transmit hs.tx
    obtain ⟨hrunning, hcount⟩ := hv.tx_frame
    exact ⟨as, d, hrun, hinv, hrunning.trans hs.running, htx, htransmitted.trans hs.transmitted, hcount ▸ hs.full⟩
  have hsame (htx : t.iso.tx = s.iso.tx) (hcount : t.txCount = s.txCount) (hwords : t.txWords = s.txWords) :
      ∃ as d, run TransmitRing.step c as = some d ∧ TransmitsAs m t d :=
    ⟨[], c, rfl, hinv, htx ▸ hs.running, htx ▸ hs.tx, hcount ▸ hs.transmitted, htx ▸ hwords ▸ hs.full⟩
  cases a with
  | call selector scalarInput =>
    cases (call_calls h).2 with
    | moves _ _ iso hv => exact hmoves hv hinv
    | unchanged | isoStart | isoStartCont => exact hsame rfl rfl rfl
    | isoStop =>
      obtain ⟨htx, hcount, hwords⟩ := s.isoStop_tx
      exact hsame htx hcount hwords
    | isoTxStart | isoTxStop => exact hok.elim
    | isoTxSetBytes slot bytes rest hrun hslot hle =>
      refine ⟨[], c, rfl, hinv, hs.running, hs.tx, hs.transmitted, fun i hi hf => ?_⟩
      unfold setReqCount
      dsimp only
      by_cases hne : i = (slot.setWidth 32).toNat
      · rw [hne, Function.update_self]
        have hbytes : bytes.setWidth 32 ≠ (0 : U32) := by
          rcases hok with hok | hok
          · exact hok
          · exact absurd (hne ▸ hf) hok
        exact fun hzero => hbytes ((DmaMap.setWidth_eq_zero hle).1 hzero)
      · rw [Function.update_of_ne hne]
        exact hs.full i hi hf
  | resized =>
    obtain ⟨⟨slot, bytes⟩, hres, rfl⟩ := Option.map_eq_some_iff.1 h
    refine ⟨[], c, rfl, hinv, hs.running, hs.tx, hs.transmitted, fun i hi hf => ?_⟩
    unfold setHdr1
    dsimp only
    by_cases hne : i = slot
    · rw [hne, Function.update_self]
      exact hs.full slot (hne ▸ hi) (hne ▸ hf)
    · rw [Function.update_of_ne hne]
      exact hs.full i hi hf
  | isoCompletion control host cycle =>
    obtain rfl := Option.some.inj h
    exact hmoves (.isoCompletion control host cycle) hinv
  | receive channel len =>
    obtain ⟨p, hp⟩ : ∃ p, s.rxPtr = some p := by
      cases hp : s.rxPtr with
      | none => simp [step, receive, hp] at h
      | some p => exact ⟨p, rfl⟩
    obtain ⟨-, i, -, -, rfl⟩ := receive_spec (hs.inv.rx p hp) hp h
    exact hsame rfl rfl rfl
  | transmit status => exact transmit_transmitsAs hs h
  | skip =>
    obtain rfl := skip_spec hs.inv h
    exact hsame rfl rfl rfl

/-- After `IsoTxStart`, until transmission is started or stopped again and as long as no full
packet is resized to nothing, the driver and the controller that follows its blocks are a
run of the transmit ring. So every full packet the sent cursor has passed is on the wire, and
with half of the packets full the cursor is at most one ahead of the controller. -/
theorem transmit_refines (m : DmaMap) {as bs : List DmaAct} (h : run (step m) {} as = some s)
    (hidle : s.resizing = none) (channel : U32) {fullPayloadBytes fullCount : U32} (hbytes : fullPayloadBytes ≠ 0)
    (hle : fullPayloadBytes.toNat ≤ kUFOhciTxSlotBytes) (hF : fullCount.toNat ≤ kITPackets)
    (hm : Meets (step m) KeepsTransmit (s.isoTxStart m channel fullPayloadBytes fullCount) bs)
    (h' : run (step m) (s.isoTxStart m channel fullPayloadBytes fullCount) bs = some t) :
    (∃ cs c, run TransmitRing.step (TransmitRing.start s.iso fullCount.toNat) cs = some c ∧
      c.iso.tx = t.iso.tx ∧ c.transmitted = t.txCount) ∧
    (∀ p < t.iso.tx.itSentCursor, IsFull fullCount.toNat p → p < t.txCount) ∧
    (kITPackets ≤ 2 * fullCount.toNat → t.iso.tx.itSentCursor ≤ t.txCount + 1) := by
  have hi := run_inv (Inv m) step_inv h (inv_init m)
  have hstart : TransmitsAs m (s.isoTxStart m channel fullPayloadBytes fullCount)
      (TransmitRing.start s.iso fullCount.toNat) := by
    refine ⟨isoTxStart_inv hi hidle channel fullCount hle, rfl, rfl, rfl, fun i hlt hf => ?_⟩
    have hfull : isFullPacket i fullCount.toNat kITPackets = true := by
      have hf : IsFull fullCount.toNat i := hf
      unfold IsFull at hf
      rwa [Nat.mod_eq_of_lt hlt] at hf
    unfold isoTxStart
    dsimp only
    rw [if_pos hlt, hfull, if_pos rfl]
    exact fun hzero => hbytes ((DmaMap.setWidth_eq_zero hle).1 hzero)
  obtain ⟨cs, c, hc, hs⟩ := hm.sim (TransmitsAs m) step_transmitsAs h' hstart
  have hinv := run_inv (TransmitRing.Inv fullCount.toNat) TransmitRing.step_inv hc (TransmitRing.start_inv _ _)
  refine ⟨⟨cs, c, hc, hs.tx, hs.transmitted⟩, ?_, ?_⟩
  · rw [← hs.tx, ← hs.transmitted]
    exact hinv.tx.gone
  · rw [← hs.tx, ← hs.transmitted]
    exact hinv.sent_le_transmitted hF

/-- The servo shortens a packet while the stream runs. -/
def shortened : List DmaAct :=
  [.transmit false, .call .isoTxSetBytes [1, 80], .transmit false, .resized, .call .pump [0, 641], .transmit true,
    .call .isoTxSent []]

theorem transmit_refines_shortened : ∃ t, run (step placed) (isoTxStart placed {} 5 96 480) shortened = some t ∧
    t.txCount = 3 ∧ t.iso.tx.itSentCursor = 3 ∧ t.iso.tx.itSentCursor ≤ t.txCount + 1 := by
  have hr : (run (step placed) (isoTxStart placed {} 5 96 480) shortened).map
      (fun t => (t.txCount, t.iso.tx.itSentCursor)) =
      some (3, 3) := by decide +kernel
  obtain ⟨t, ht, hsame⟩ := Option.map_eq_some_iff.1 hr
  obtain ⟨hcount, hsent⟩ := Prod.mk.inj hsame
  have hm : Meets (step placed) KeepsTransmit (isoTxStart placed {} 5 96 480) shortened := by decide +kernel
  obtain ⟨-, -, hclose⟩ :=
    transmit_refines placed (show run (step placed) {} [] = some {} from rfl) rfl 5
      (by decide) (by decide) (by decide) hm ht
  exact ⟨t, ht, hcount, hsent, hclose (by decide)⟩

/-! ## A one-shot capture -/

/-- No call starts or stops capture or releases anything, and neither does an interrupt. -/
def KeepsOneShot (s : Dma) : DmaAct → Prop
  | .call .isoRelease _ | .call .pump _ => False
  | .isoCompletion control _ _ => control.releaseUpTo = 0
  | a => s.KeepsCapture a

/-- The first `rxCount` descriptors are done and hold their packets, and no others are. -/
structure Landed (m : DmaMap) (n : ℕ) (s : Dma) : Prop where
  inv : Inv m s
  oneShot : s.oneShot = true
  packets : s.iso.rx.isoPackets = n
  le : s.rxCount ≤ n
  ended : s.rxPtr = none → s.rxCount = n
  status : ∀ i < n, s.iso.rx.isoDesc i = true ↔ i < s.rxCount
  mem : ∀ i < s.rxCount, s.mem (slotAddr m i) = i

variable {n : ℕ}

theorem receive_landed (hs : Landed m n s) {channel : U32} {len : ℕ} (h : s.receive m channel len = some t) :
    Landed m n t := by
  have hinv := receive_inv hs.inv h
  obtain ⟨p, hp⟩ : ∃ p, s.rxPtr = some p := by
    cases hp : s.rxPtr with
    | none => simp [receive, hp] at h
    | some p => exact ⟨p, rfl⟩
  have hc := hs.inv.rx p hp
  have hin := hc.first hs.oneShot
  obtain ⟨-, i, hn, -, rfl⟩ := receive_spec hc hp h
  rw [Nat.mod_eq_of_lt hin] at hn
  subst hn
  have hpackets := hs.packets
  refine ⟨hinv, hs.oneShot, hpackets, ?_, fun hnone => ?_, fun j hj => ?_, fun j hj => ?_⟩
  · show s.rxCount + 1 ≤ n
    omega
  · have hnone : (if s.oneShot = true ∧ s.iso.rx.isoPackets ≤ s.rxCount + 1 then none
        else some (m.rxBranch ((s.rxCount + 1) % s.iso.rx.isoPackets))) = none := hnone
    split at hnone
    next hend =>
      show s.rxCount + 1 = n
      omega
    next => cases hnone
  · show Function.update s.iso.rx.isoDesc (s.rxCount % s.iso.rx.isoPackets) true j = true ↔ j < s.rxCount + 1
    rw [Nat.mod_eq_of_lt hin]
    by_cases hj' : j = s.rxCount
    · rw [hj', Function.update_self]
      exact ⟨fun _ => Nat.lt_succ_self _, fun _ => rfl⟩
    · rw [Function.update_of_ne hj', hs.status j hj]
      omega
  · have hj : j < s.rxCount + 1 := hj
    show Function.update s.mem (slotAddr m s.rxCount) s.rxCount (slotAddr m j) = j
    by_cases hj' : j = s.rxCount
    · rw [hj', Function.update_self]
    · have haddr : slotAddr m j ≠ slotAddr m s.rxCount := by
        unfold slotAddr kUFOhciIsoSlotBytes
        omega
      rw [Function.update_of_ne haddr]
      exact hs.mem j (by omega)

theorem step_landed (s : Dma) (a : DmaAct) (t : Dma) (hs : Landed m n s) (hok : s.KeepsOneShot a)
    (h : s.step m a = some t) :
    Landed m n t := by
  have hinv := step_inv s a t hs.inv h
  have hsame (hring : t.oneShot = s.oneShot) (hptr : t.rxPtr = s.rxPtr)
      (hpackets : t.iso.rx.isoPackets = s.iso.rx.isoPackets)
      (hdesc : t.iso.rx.isoDesc = s.iso.rx.isoDesc) (hcount : t.rxCount = s.rxCount) (hmem : t.mem = s.mem) :
      Landed m n t :=
    ⟨hinv, hring ▸ hs.oneShot, hpackets ▸ hs.packets, hcount ▸ hs.le, hcount ▸ hptr ▸ hs.ended,
      hcount ▸ hdesc ▸ hs.status, hcount ▸ hmem ▸ hs.mem⟩
  cases a with
  | call selector scalarInput =>
    cases (call_calls h).2 with
    | moves _ _ iso hv hdesc =>
      rcases hdesc with hdesc | rfl | rfl
      · exact hsame rfl rfl hv.rx_frame.1 hdesc rfl rfl
      · exact hok.elim
      · exact hok.elim
    | isoStart | isoStop | isoStartCont => exact hok.elim
    | unchanged | isoTxStart | isoTxSetBytes => exact hsame rfl rfl rfl rfl rfl rfl
    | isoTxStop =>
      obtain ⟨hring, hptr, hrx, hcount, hmem⟩ := s.isoTxStop_rx
      exact hsame hring hptr (hrx ▸ rfl) (hrx ▸ rfl) hcount hmem
  | resized =>
    obtain ⟨r, -, rfl⟩ := Option.map_eq_some_iff.1 h
    exact hsame rfl rfl rfl rfl rfl rfl
  | isoCompletion control host cycle =>
    obtain rfl := Option.some.inj h
    refine hsame rfl rfl (Iso.Moves.isoCompletion control host cycle).rx_frame.1 ?_ rfl rfl
    have hok : control.releaseUpTo = 0 := hok
    simp only [Iso.isoCompletion, Iso.publish, Iso.scanCursors, Iso.applyControl, hok, ne_eq, not_true_eq_false,
      if_false]
    split <;> rfl
  | receive channel len => exact receive_landed hs h
  | transmit status =>
    obtain ⟨-, i, len, hdrLen, -, -, -, -, -, rfl⟩ := transmit_spec hs.inv h
    exact hsame rfl rfl rfl rfl rfl rfl
  | skip =>
    obtain rfl := skip_spec hs.inv h
    exact hs

theorem isoPoll_eq {c : ℕ} (hc : c ≤ s.iso.rx.isoPackets)
    (hstatus : ∀ i < s.iso.rx.isoPackets, s.iso.rx.isoDesc i = true ↔ i < c) : s.isoPoll = c := by
  unfold isoPoll
  obtain ⟨k, hk⟩ := Nat.exists_eq_add_of_le hc
  have hfront : ∀ i ∈ List.range c, s.iso.rx.isoDesc i = true := by
    intro i hi
    have hi := List.mem_range.1 hi
    exact (hstatus i (by omega)).2 hi
  rw [hk, List.range_add, List.takeWhile_append_of_pos hfront]
  cases k with
  | zero => simp
  | succ k =>
    have hnot : s.iso.rx.isoDesc c = false := by
      rw [← Bool.not_eq_true, hstatus c (by omega)]
      exact Nat.lt_irrefl c
    rw [List.range_succ_eq_map, List.map_cons, Nat.add_zero, List.takeWhile_cons_of_neg (by simp [hnot])]
    simp

/-- A one-shot capture of `n` packets, until capture is started or stopped again or something
is released: the controller takes `n` packets and stops by itself, `IsoPoll` says how many
there are, and slot `i` holds packet `i`. -/
theorem one_shot (m : DmaMap) {as bs : List DmaAct} (h : run (step m) {} as = some s) (channel : U32) {packets : U32}
    (hpos : 0 < packets.toNat) (hle : packets.toNat ≤ kUFOhciIsoMaxPackets)
    (hm : Meets (step m) KeepsOneShot (s.isoStart m channel packets) bs)
    (h' : run (step m) (s.isoStart m channel packets) bs = some t) :
    t.isoPoll = t.rxCount ∧ t.rxCount ≤ packets.toNat ∧ (t.rxPtr = none ↔ t.rxCount = packets.toNat) ∧
    ∀ i < t.rxCount, t.mem (slotAddr m i) = i := by
  have hi := run_inv (Inv m) step_inv h (inv_init m)
  have hstart : Landed m packets.toNat (s.isoStart m channel packets) := by
    refine ⟨isoStart_inv hi channel hpos hle, rfl, rfl, Nat.zero_le _, fun h => (nomatch h), fun i hlt => ?_,
      fun i hlt => absurd hlt (Nat.not_lt_zero i)⟩
    unfold isoStart
    dsimp only
    rw [if_pos hlt]
    exact ⟨fun h => (nomatch h), fun h => absurd h (Nat.not_lt_zero i)⟩
  have hs := hm.inv (Landed m packets.toNat) step_landed h' hstart
  refine ⟨isoPoll_eq (hs.packets ▸ hs.le) (hs.packets ▸ hs.status), hs.le, ⟨hs.ended, fun hall => ?_⟩, hs.mem⟩
  by_contra hsome
  obtain ⟨p, hp⟩ := Option.ne_none_iff_exists'.1 hsome
  have := (hs.inv.rx p hp).first hs.oneShot
  rw [hs.packets] at this
  omega

/-- Two packets asked for, with a poll in between. -/
theorem one_shot_two : ∃ t, run (step placed) (isoStart placed {} 1 2)
    [.receive 1 300, .call .isoPoll [], .receive 1 5000] = some t ∧ t.isoPoll = 2 ∧ t.rxPtr = none := by
  have hr : (run (step placed) (isoStart placed {} 1 2) [.receive 1 300, .call .isoPoll [], .receive 1 5000]).map
      (fun t => t.rxCount) = some 2 := by decide +kernel
  obtain ⟨t, ht, hcount⟩ := Option.map_eq_some_iff.1 hr
  have hm : Meets (step placed) KeepsOneShot (isoStart placed {} 1 2)
      [.receive 1 300, .call .isoPoll [], .receive 1 5000] :=
    .of_forall (by simp [KeepsOneShot, KeepsCapture])
  obtain ⟨hpoll, -, hended, -⟩ := one_shot placed (show run (step placed) {} [] = some {} from rfl) 1
    (show 0 < (2 : U32).toNat by decide) (by decide) hm ht
  exact ⟨t, ht, hpoll.trans hcount, hended.2 hcount⟩

end Dma

end UserFace800.Dext
