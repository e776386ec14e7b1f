import UserFace800.Lib.Run
import Mathlib.Order.Nat
import Mathlib.Tactic.Common
/-!
# The isochronous contexts of the dext

The capture ring and the transmit ring of the driver, with the cursors it keeps
into each, and the page it shares with the daemon: the status the completion
interrupt publishes and the control block it applies. `Receive.Inv` is what the
capture cursors satisfy: the write cursor never passes what the controller has
completed since the ring was started.
-/

namespace UserFace800.Dext

/-- The descriptors and slots of the capture ring. -/
def kUFOhciIsoMaxPackets : ℕ := 512

/-- Every eighth descriptor raises an interrupt. -/
def kUFOhciIrqEvery : ℕ := 8

/-- The blocks of the transmit ring. -/
def kITPackets : ℕ := 640

theorem kUFOhciIsoMaxPackets_eq : kUFOhciIsoMaxPackets = 512 := rfl

/-- Whether packet `i` of the ring is a full one, in 32-bit arithmetic. -/
def isFullPacket (i fullCount ringLen : ℕ) : Bool :=
  ((i + 1) % 2 ^ 32 * fullCount % 2 ^ 32) / ringLen > (i * fullCount % 2 ^ 32) / ringLen

/-! ## Capture -/

/-- The capture half of the driver's state; `isoDesc i` is whether the
controller has set the transfer status of descriptor `i`. -/
structure Receive where
  isoDesc : ℕ → Bool := fun _ => false
  isoPackets : ℕ := kUFOhciIsoMaxPackets
  isoWriteCursor : ℕ := 0
  isoReadCursor : ℕ := 0
  isoRunning : Bool := true
  isoContinuous : Bool := true

namespace Receive

/-- The scan loop; it takes less than `isoPackets` turns and is given as many. -/
def scan (r : Receive) : ℕ → ℕ → ℕ
  | 0, w => w
  | fuel + 1, w =>
    if w - r.isoReadCursor < r.isoPackets then
      if r.isoDesc (w % r.isoPackets) then r.scan fuel (w + 1) else w
    else w

/-- Advance the write cursor over completed descriptors. -/
def advance (r : Receive) : Receive := { r with isoWriteCursor := r.scan r.isoPackets r.isoWriteCursor }

/-- `n` turns of the release loop. -/
def rearm (r : Receive) : ℕ → Receive
  | 0 => r
  | n + 1 =>
    rearm { r with
      isoDesc := Function.update r.isoDesc (r.isoReadCursor % r.isoPackets) false
      isoReadCursor := r.isoReadCursor + 1 } n

/-- `uf_iso_release`: re-arm the descriptors below `upTo`. -/
def release (r : Receive) (upTo : ℕ) : Receive :=
  if r.isoPackets = 0 then r else r.rearm (min upTo r.isoWriteCursor - r.isoReadCursor)

/-- `IsoStartContinuous`. -/
def startContinuous (_ : Receive) : Receive := {}

/-- `IsoStop`. -/
def stop (r : Receive) : Receive := if r.isoRunning then { r with isoRunning := false, isoContinuous := false } else r

/-- The controller completes packet `k`, whether or not its slot was released. -/
def complete (r : Receive) (k : ℕ) : Receive :=
  { r with isoDesc := Function.update r.isoDesc (k % r.isoPackets) true }

end Receive

/-! ## Transmit -/

/-- The transmit half of the driver's state. -/
structure Transmit where
  itDesc : ℕ → Bool := fun _ => false
  itFullCount : ℕ := 0
  itSentCursor : ℕ := 0
  itFillCursor : ℕ := 0
  itRunning : Bool := false

namespace Transmit

/-- The scan loop: a full packet is gone when it has a status, an empty one at once. -/
def scan (x : Transmit) : ℕ → ℕ → ℕ
  | 0, sent => sent
  | fuel + 1, sent =>
    if sent < x.itFillCursor then
      if isFullPacket (sent % kITPackets) x.itFullCount kITPackets ∧ x.itDesc (sent % kITPackets) = false then sent
      else x.scan fuel (sent + 1)
    else sent

/-- Advance the sent cursor over the packets gone. -/
def advance (x : Transmit) : Transmit :=
  if x.itRunning then { x with itSentCursor := x.scan (x.itFillCursor - x.itSentCursor) x.itSentCursor } else x

/-- The refill loop: statuses are cleared up to `upTo`, a ring ahead of the sent cursor at most. -/
def refillLoop (x : Transmit) (upTo : ℕ) : ℕ → Transmit
  | 0 => x
  | fuel + 1 =>
    if x.itFillCursor < upTo ∧ x.itFillCursor - x.itSentCursor < kITPackets then
      refillLoop { x with
        itDesc := Function.update x.itDesc (x.itFillCursor % kITPackets) false
        itFillCursor := x.itFillCursor + 1 } upTo fuel
    else x

/-- `uf_it_refill`. -/
def refill (x : Transmit) (upTo : ℕ) : Transmit :=
  if x.itRunning then x.refillLoop upTo kITPackets else x

/-- `IsoTxStart`: the whole ring starts filled and status-cleared. -/
def start (_ : Transmit) (fullCount : ℕ) : Transmit :=
  { itFullCount := fullCount, itFillCursor := kITPackets, itRunning := true }

/-- `IsoTxStop`. -/
def stop (x : Transmit) : Transmit := { x with itRunning := false }

end Transmit

/-! ## The shared page and the completion interrupt -/

/-- The status page, as a read finds it. -/
structure UFOhciStatus where
  seq : ℕ := 0
  irqCount : ℕ := 0
  rxCompleted : ℕ := 0
  txSent : ℕ := 0
  hostTime : ℕ := 0
  cycleTimer : BitVec 32 := 0
  irqEvery : ℕ := 0

/-- The control block: the daemon's two cursors. -/
structure UFOhciControl where
  releaseUpTo : ℕ := 0
  txFillUpTo : ℕ := 0

/-- The iso part of `UFFireWireOHCI_IVars`. -/
structure Iso where
  rx : Receive := {}
  tx : Transmit := {}
  isoIrqCount : ℕ := 0
  isoIrqEvery : ℕ := kUFOhciIrqEvery
  status : UFOhciStatus := {}
  control : UFOhciControl := {}

namespace Iso

/-- The daemon's cursors, applied by the interrupt. -/
def applyControl (v : Iso) : Iso :=
  { v with
    rx := if v.control.releaseUpTo ≠ 0 then v.rx.release v.control.releaseUpTo else v.rx
    tx := if v.control.txFillUpTo ≠ 0 then v.tx.refill v.control.txFillUpTo else v.tx }

/-- Both cursors go on over what the controller has completed. -/
def scanCursors (v : Iso) : Iso :=
  { v with
    rx := if v.rx.isoRunning ∧ v.rx.isoContinuous then v.rx.advance else v.rx
    tx := v.tx.advance }

/-- The seqlock publication, as one step: two bumps of `seq` around the payload. -/
def publish (v : Iso) (host : ℕ) (cycle : BitVec 32) : Iso :=
  { v with
    isoIrqCount := v.isoIrqCount + 1
    status :=
      { seq := v.status.seq + 2
        irqCount := v.isoIrqCount + 1
        rxCompleted := v.rx.isoWriteCursor
        txSent := v.tx.itSentCursor
        hostTime := host
        cycleTimer := cycle
        irqEvery := v.isoIrqEvery } }

/-- `uf_iso_completion`. -/
def isoCompletion (v : Iso) (host : ℕ) (cycle : BitVec 32) : Iso :=
  (v.applyControl.scanCursors).publish host cycle

/-- `kUFOhciPump`: release and refill, then where the controller is. -/
def pump (v : Iso) (release txFill : ℕ) : Iso :=
  { v with
    rx := (v.rx.release release).advance
    tx := (if txFill ≠ 0 then v.tx.refill txFill else v.tx).advance }

end Iso

/-! ## The capture cursors -/

/-- With `completed` packets since the start: the write cursor is at most a ring
ahead of the read cursor and never ahead of the controller, and every status in
between is of a packet completed. -/
structure Receive.Inv (r : Receive) (completed : ℕ) : Prop where
  packets : r.isoPackets = kUFOhciIsoMaxPackets
  read : r.isoReadCursor ≤ r.isoWriteCursor
  write : r.isoWriteCursor ≤ r.isoReadCursor + kUFOhciIsoMaxPackets
  done : r.isoWriteCursor ≤ completed
  armed : ∀ k, r.isoWriteCursor ≤ k → k < r.isoReadCursor + kUFOhciIsoMaxPackets →
    r.isoDesc (k % kUFOhciIsoMaxPackets) = true → k < completed

namespace Receive

variable {r : Receive} {completed : ℕ}

theorem startContinuous_inv (r : Receive) : r.startContinuous.Inv 0 :=
  ⟨rfl, le_refl 0, Nat.zero_le _, le_refl 0, fun _ _ _ h => (nomatch h)⟩

theorem stop_inv (hi : r.Inv completed) : r.stop.Inv completed := by
  unfold stop
  split
  · exact ⟨hi.packets, hi.read, hi.write, hi.done, hi.armed⟩
  · exact hi

theorem complete_inv (hi : r.Inv completed) : (r.complete completed).Inv (completed + 1) := by
  have hp := hi.packets
  refine ⟨hp, hi.read, hi.write, Nat.le_succ_of_le hi.done, ?_⟩
  intro k hk hlt hset
  have hk : r.isoWriteCursor ≤ k := hk
  have hlt : k < r.isoReadCursor + kUFOhciIsoMaxPackets := hlt
  simp only [complete, hp] at hset
  have hread := hi.read
  have hdone := hi.done
  by_cases hmod : k % kUFOhciIsoMaxPackets = completed % kUFOhciIsoMaxPackets
  · -- a later packet on this slot would be a whole ring ahead
    by_contra hge
    have := Nat.sub_mod_eq_zero_of_mod_eq hmod
    have hdvd := Nat.dvd_of_mod_eq_zero this
    have hn := Nat.le_of_dvd (by omega) hdvd
    omega
  · rw [Function.update_of_ne hmod] at hset
    exact Nat.lt_succ_of_lt (hi.armed k hk hlt hset)

/-- The scan moves over set statuses only, and not past the ring. -/
theorem scan_spec (r : Receive) (hp : 0 < r.isoPackets) (fuel w : ℕ) (hw : w ≤ r.isoReadCursor + r.isoPackets) :
    w ≤ r.scan fuel w ∧ r.scan fuel w ≤ r.isoReadCursor + r.isoPackets ∧
      ∀ k, w ≤ k → k < r.scan fuel w → r.isoDesc (k % r.isoPackets) = true := by
  induction fuel generalizing w with
  | zero => exact ⟨le_refl w, hw, fun k hk hlt => absurd hlt (Nat.not_lt.2 hk)⟩
  | succ fuel ih =>
    unfold scan
    split
    · split
      · rename_i hroom hset
        obtain ⟨h1, h2, h3⟩ := ih (w + 1) (by omega)
        refine ⟨Nat.le_of_succ_le h1, h2, fun k hk hlt => ?_⟩
        rcases Nat.eq_or_lt_of_le hk with rfl | hk
        · exact hset
        · exact h3 k hk hlt
      · exact ⟨le_refl w, hw, fun k hk hlt => absurd hlt (Nat.not_lt.2 hk)⟩
    · exact ⟨le_refl w, hw, fun k hk hlt => absurd hlt (Nat.not_lt.2 hk)⟩

theorem advance_inv (hi : r.Inv completed) :
    r.advance.Inv completed ∧ r.isoWriteCursor ≤ r.advance.isoWriteCursor := by
  have hp := hi.packets
  have hn := kUFOhciIsoMaxPackets_eq
  have hspec := r.scan_spec (by omega) r.isoPackets r.isoWriteCursor (hp.symm ▸ hi.write)
  unfold advance
  generalize r.scan r.isoPackets r.isoWriteCursor = w at hspec ⊢
  rw [hp] at hspec
  obtain ⟨h1, h2, h3⟩ := hspec
  have hread := hi.read
  have hdone : w ≤ completed := by
    rcases Nat.eq_or_lt_of_le h1 with rfl | hlt
    · exact hi.done
    · have hset := h3 (w - 1) (by omega) (by omega)
      have := hi.armed (w - 1) (by omega) (by omega) hset
      omega
  refine ⟨⟨hp, hread.trans h1, h2, hdone, ?_⟩, h1⟩
  intro k hk hlt hset
  exact hi.armed k (h1.trans hk) hlt hset

/-- One turn of the release loop, below the write cursor. -/
theorem rearm_one (hi : r.Inv completed) (hlt : r.isoReadCursor < r.isoWriteCursor) :
    Inv { r with
      isoDesc := Function.update r.isoDesc (r.isoReadCursor % r.isoPackets) false
      isoReadCursor := r.isoReadCursor + 1 } completed := by
  have hp := hi.packets
  have hwrite := hi.write
  refine ⟨hp, hlt, by dsimp only; omega, hi.done, ?_⟩
  intro k hk hlt' hset
  simp only [hp] at hk hlt' hset
  by_cases hmod : k % kUFOhciIsoMaxPackets = r.isoReadCursor % kUFOhciIsoMaxPackets
  · simp [hmod] at hset
  · rw [Function.update_of_ne hmod] at hset
    refine hi.armed k hk ?_ hset
    -- the one packet that is new in range is the one re-armed
    have hne : k ≠ r.isoReadCursor + kUFOhciIsoMaxPackets := by
      rintro rfl
      exact hmod (Nat.add_mod_right _ _)
    omega

theorem rearm_inv (n : ℕ) (hi : r.Inv completed) (hn : r.isoReadCursor + n ≤ r.isoWriteCursor) :
    (r.rearm n).Inv completed ∧ (r.rearm n).isoWriteCursor = r.isoWriteCursor := by
  induction n generalizing r with
  | zero => exact ⟨hi, rfl⟩
  | succ n ih =>
    have hone := rearm_one hi (by omega)
    exact ih hone (by dsimp only; omega)

@[simp] theorem rearm_read (r : Receive) (n : ℕ) : (r.rearm n).isoReadCursor = r.isoReadCursor + n := by
  induction n generalizing r with
  | zero => rfl
  | succ n ih =>
    unfold rearm
    rw [ih]
    exact Nat.succ_add_eq_add_succ _ _

/-- A release moves the read cursor forward, and not past what it is given. -/
theorem release_read (r : Receive) (upTo : ℕ) :
    r.isoReadCursor ≤ (r.release upTo).isoReadCursor ∧ (r.release upTo).isoReadCursor ≤ max r.isoReadCursor upTo := by
  unfold release
  split
  · exact ⟨le_refl _, Nat.le_max_left _ _⟩
  · rw [rearm_read]
    omega

theorem release_inv (hi : r.Inv completed) (upTo : ℕ) :
    (r.release upTo).Inv completed ∧ (r.release upTo).isoWriteCursor = r.isoWriteCursor := by
  have hread := hi.read
  unfold release
  split
  · exact ⟨hi, rfl⟩
  · exact rearm_inv _ hi (by omega)

end Receive

namespace Transmit

theorem advance_fill (x : Transmit) : x.advance.itFillCursor = x.itFillCursor := by
  unfold advance
  split <;> rfl

/-- A refill does not move the fill cursor past what it is given. -/
theorem refill_fill (x : Transmit) (upTo : ℕ) : (x.refill upTo).itFillCursor ≤ max x.itFillCursor upTo := by
  have hloop (fuel : ℕ) (x : Transmit) : (x.refillLoop upTo fuel).itFillCursor ≤ max x.itFillCursor upTo := by
    induction fuel generalizing x with
    | zero => exact Nat.le_max_left _ _
    | succ fuel ih =>
      unfold refillLoop
      split
      · refine (ih _).trans ?_
        dsimp only
        omega
      · exact Nat.le_max_left _ _
  unfold refill
  split
  · exact hloop _ x
  · exact Nat.le_max_left _ _

/-- Neither does the hand-back of one, where 0 stands for none. -/
theorem handBack_fill (x : Transmit) (upTo : ℕ) :
    (if upTo ≠ 0 then x.refill upTo else x).advance.itFillCursor ≤ max x.itFillCursor upTo := by
  rw [advance_fill]
  split
  · exact x.refill_fill upTo
  · exact Nat.le_max_left _ _

end Transmit

namespace Iso

variable {v : Iso} {completed : ℕ}

/-- The interrupt keeps the capture cursors right and publishes the write cursor. -/
theorem isoCompletion_inv (hi : v.rx.Inv completed) (host : ℕ) (cycle : BitVec 32) :
    (v.isoCompletion host cycle).rx.Inv completed ∧
      (v.isoCompletion host cycle).status.rxCompleted = (v.isoCompletion host cycle).rx.isoWriteCursor := by
  refine ⟨?_, rfl⟩
  have h1 : v.applyControl.rx.Inv completed := by
    unfold applyControl
    dsimp only
    split
    · exact (Receive.release_inv hi _).1
    · exact hi
  show v.applyControl.scanCursors.rx.Inv completed
  unfold scanCursors
  dsimp only
  split
  · exact (Receive.advance_inv h1).1
  · exact h1

theorem isoCompletion_read (v : Iso) (host : ℕ) (cycle : BitVec 32) :
    v.rx.isoReadCursor ≤ (v.isoCompletion host cycle).rx.isoReadCursor ∧
      (v.isoCompletion host cycle).rx.isoReadCursor ≤ max v.rx.isoReadCursor v.control.releaseUpTo := by
  have happly : v.rx.isoReadCursor ≤ v.applyControl.rx.isoReadCursor ∧
      v.applyControl.rx.isoReadCursor ≤ max v.rx.isoReadCursor v.control.releaseUpTo := by
    unfold applyControl
    dsimp only
    split
    · exact v.rx.release_read _
    · exact ⟨le_refl _, Nat.le_max_left _ _⟩
  have hscan : v.applyControl.scanCursors.rx.isoReadCursor = v.applyControl.rx.isoReadCursor := by
    unfold scanCursors
    dsimp only
    split <;> rfl
  exact ⟨hscan ▸ happly.1, hscan ▸ happly.2⟩

theorem isoCompletion_fill (v : Iso) (host : ℕ) (cycle : BitVec 32) :
    (v.isoCompletion host cycle).tx.itFillCursor ≤ max v.tx.itFillCursor v.control.txFillUpTo :=
  v.tx.handBack_fill _

theorem pump_read (v : Iso) (release txFill : ℕ) :
    (v.pump release txFill).rx.isoReadCursor ≤ max v.rx.isoReadCursor release :=
  (v.rx.release_read release).2

theorem pump_fill (v : Iso) (release txFill : ℕ) :
    (v.pump release txFill).tx.itFillCursor ≤ max v.tx.itFillCursor txFill :=
  v.tx.handBack_fill _

theorem pump_inv (hi : v.rx.Inv completed) (release txFill : ℕ) :
    (v.pump release txFill).rx.Inv completed ∧ v.rx.isoWriteCursor ≤ (v.pump release txFill).rx.isoWriteCursor := by
  obtain ⟨hr, hw⟩ := Receive.release_inv hi release
  obtain ⟨ha, hle⟩ := Receive.advance_inv hr
  exact ⟨ha, hw ▸ hle⟩

end Iso

end UserFace800.Dext
