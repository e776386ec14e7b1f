import UserFace800.Dext.Iso
import UserFace800.Lib.Cursor
/-!
# The capture ring

The descriptor ring branches to itself, so the controller never stops: packet `k`
overwrites slot `k mod 512` whether or not the slot was released. A slot the two
cursors enclose therefore holds the packet they say exactly as long as the
controller has not come round to it again (`capture_ring`), and always does if
the controller never does (`Ahead`); after a stall of more than the ring it does
not (`lapped_slot`).
-/
open UserFace800.Lib UserFace800.Lib.Cursor

namespace UserFace800.Dext

/-- The driver and the controller: how many packets it has completed since
`IsoStartContinuous`, and which packet each slot holds; and the packets the
daemon has read, in order. -/
structure CaptureRing where
  iso : Iso
  completed : ℕ := 0
  slots : ℕ → ℕ
  drained : List ℕ := []

/-- The steps of the controller, of the driver's methods and of the daemon. -/
inductive CaptureAct where
  | complete
  | isoCompletedCount
  | isoRelease (upTo : ℕ)
  /-- The interrupt finds these cursors in the control block. -/
  | isoCompletion (control : UFOhciControl) (host : ℕ) (cycle : BitVec 32)
  | pump (release txFill : ℕ)
  /-- The daemon reads the next slot. -/
  | drain

namespace CaptureRing

/-- After `IsoStartContinuous`, on a driver in any state. -/
def start (v : Iso) (slots : ℕ → ℕ) : CaptureRing where
  iso := { v with rx := v.rx.startContinuous }
  slots

/-- Packets come when they come; the daemon reads what it has been told of. -/
def step (s : CaptureRing) : CaptureAct → Option CaptureRing
  | .complete => some { s with
      iso.rx := s.iso.rx.complete s.completed
      slots := Function.update s.slots (s.completed % s.iso.rx.isoPackets) s.completed
      completed := s.completed + 1 }
  | .isoCompletedCount => some { s with iso.rx := s.iso.rx.advance }
  | .isoRelease upTo => some { s with iso.rx := s.iso.rx.release upTo }
  | .isoCompletion control host cycle => some { s with iso := { s.iso with control }.isoCompletion host cycle }
  | .pump release txFill => some { s with iso := s.iso.pump release txFill }
  | .drain =>
    -- what it reads it has been told of and not released
    if s.iso.rx.isoReadCursor ≤ s.drained.length ∧ s.drained.length < s.iso.rx.isoWriteCursor then
      some { s with drained := s.drained ++ [s.slots (s.drained.length % kUFOhciIsoMaxPackets)] }
    else none

/-- The controller completes a packet into a slot that was released. -/
def Ahead (s : CaptureRing) : CaptureAct → Prop
  | .complete => s.completed < s.iso.rx.isoReadCursor + kUFOhciIsoMaxPackets
  | _ => True

instance (s : CaptureRing) : ∀ a, Decidable (s.Ahead a)
  | .complete => inferInstanceAs (Decidable (_ < _))
  | .isoCompletedCount => .isTrue trivial
  | .isoRelease _ => .isTrue trivial
  | .isoCompletion _ _ _ => .isTrue trivial
  | .pump _ _ => .isTrue trivial
  | .drain => .isTrue trivial

/-! ## What the slots hold -/

/-- A slot holds the last packet that went there. -/
structure Inv (s : CaptureRing) : Prop where
  rx : s.iso.rx.Inv s.completed
  slots : ∀ k < s.completed, s.completed ≤ k + kUFOhciIsoMaxPackets → s.slots (k % kUFOhciIsoMaxPackets) = k

variable {s t : CaptureRing}

theorem start_inv (v : Iso) (slots : ℕ → ℕ) : (start v slots).Inv where
  rx := Receive.startContinuous_inv v.rx
  slots := fun _ hk => absurd hk (Nat.not_lt_zero _)

theorem complete_slots (hi : s.Inv) (k : ℕ) (hk : k < s.completed + 1)
    (hlap : s.completed + 1 ≤ k + kUFOhciIsoMaxPackets) :
    Function.update s.slots (s.completed % s.iso.rx.isoPackets) s.completed (k % kUFOhciIsoMaxPackets) = k := by
  rw [hi.rx.packets]
  rcases Nat.eq_or_lt_of_le (Nat.le_of_lt_succ hk) with rfl | hlt
  · exact Function.update_self _ _ _
  · have hmod : k % kUFOhciIsoMaxPackets ≠ s.completed % kUFOhciIsoMaxPackets := by
      intro he
      have := lap_le he hlt
      omega
    rw [Function.update_of_ne hmod]
    exact hi.slots k hlt (by omega)

theorem step_inv (s : CaptureRing) (a : CaptureAct) (t : CaptureRing) (hi : s.Inv) (h : s.step a = some t) :
    t.Inv := by
  cases a with
  | complete =>
    cases h
    exact ⟨Receive.complete_inv hi.rx, complete_slots hi⟩
  | isoCompletedCount =>
    cases h
    exact ⟨(Receive.advance_inv hi.rx).1, hi.slots⟩
  | isoRelease upTo =>
    cases h
    exact ⟨(Receive.release_inv hi.rx upTo).1, hi.slots⟩
  | isoCompletion control host cycle =>
    cases h
    have hrx : ({ s.iso with control } : Iso).rx.Inv s.completed := hi.rx
    exact ⟨(Iso.isoCompletion_inv hrx host cycle).1, hi.slots⟩
  | pump release txFill =>
    cases h
    exact ⟨(Iso.pump_inv hi.rx release txFill).1, hi.slots⟩
  | drain =>
    simp only [step] at h
    split at h
    · cases h
      exact ⟨hi.rx, hi.slots⟩
    · cases h

/-- A slot holds packet `k` until the controller comes round to it again. -/
theorem Inv.slot_iff (hi : s.Inv) {k : ℕ} (hk : k < s.completed) :
    s.slots (k % kUFOhciIsoMaxPackets) = k ↔ s.completed ≤ k + kUFOhciIsoMaxPackets := by
  refine ⟨fun he => ?_, hi.slots k hk⟩
  by_contra hlap
  have hn := kUFOhciIsoMaxPackets_eq
  -- the packet of the last lap on this slot
  have hlast := hi.slots (s.completed - 1 - (s.completed - 1 - k) % kUFOhciIsoMaxPackets) (by omega) (by
    have := Nat.mod_lt (s.completed - 1 - k) (show 0 < kUFOhciIsoMaxPackets by omega)
    omega)
  have hmod : (s.completed - 1 - (s.completed - 1 - k) % kUFOhciIsoMaxPackets) % kUFOhciIsoMaxPackets =
      k % kUFOhciIsoMaxPackets := by
    rw [hn]
    omega
  rw [hmod, he] at hlast
  have := Nat.mod_lt (s.completed - 1 - k) (show 0 < kUFOhciIsoMaxPackets by omega)
  omega

/-! ## While the controller is less than a ring ahead -/

/-- The invariant of a run in which the controller never laps the read cursor. -/
structure InStep (s : CaptureRing) : Prop extends Inv s where
  ahead : s.completed ≤ s.iso.rx.isoReadCursor + kUFOhciIsoMaxPackets
  drained : s.drained = List.range s.drained.length

theorem InStep.slot (hi : s.InStep) {k : ℕ} (hread : s.iso.rx.isoReadCursor ≤ k)
    (hwrite : k < s.iso.rx.isoWriteCursor) : s.slots (k % kUFOhciIsoMaxPackets) = k :=
  (hi.slot_iff (hwrite.trans_le hi.rx.done)).2 (hi.ahead.trans (Nat.add_le_add_right hread _))

theorem step_inStep (s : CaptureRing) (a : CaptureAct) (t : CaptureRing) (hi : s.InStep) (hok : s.Ahead a)
    (h : s.step a = some t) : t.InStep := by
  have ht := step_inv s a t hi.toInv h
  cases a with
  | complete =>
    cases h
    exact ⟨ht, hok, hi.drained⟩
  | isoCompletedCount =>
    cases h
    exact ⟨ht, hi.ahead, hi.drained⟩
  | isoRelease upTo =>
    cases h
    exact ⟨ht, hi.ahead.trans (Nat.add_le_add_right (s.iso.rx.release_read upTo).1 _), hi.drained⟩
  | isoCompletion control host cycle =>
    cases h
    have hread := (Iso.isoCompletion_read { s.iso with control } host cycle).1
    exact ⟨ht, hi.ahead.trans (Nat.add_le_add_right hread _), hi.drained⟩
  | pump release txFill =>
    cases h
    exact ⟨ht, hi.ahead.trans (Nat.add_le_add_right (s.iso.rx.release_read release).1 _), hi.drained⟩
  | drain =>
    simp only [step] at h
    split at h
    · rename_i hnext
      cases h
      refine ⟨ht, hi.ahead, ?_⟩
      rw [hi.slot hnext.1 hnext.2, List.length_append, List.length_singleton, List.range_succ, ← hi.drained]
    · cases h

end CaptureRing

/-- After `IsoStartContinuous`, in every interleaving of packets completed, scans,
releases to anywhere and interrupts, the write cursor is at most a ring ahead of
the read cursor, and a slot between them holds the packet of its index exactly if
the controller has not completed the one a ring later. If the controller only
completes packets into slots that were released, all of them do, and the daemon
reads the packets in order, each once. -/
theorem capture_ring (v : Iso) (slots : ℕ → ℕ) {as : List CaptureAct} {s : CaptureRing}
    (h : run CaptureRing.step (CaptureRing.start v slots) as = some s) :
    (s.iso.rx.isoReadCursor ≤ s.iso.rx.isoWriteCursor ∧
      s.iso.rx.isoWriteCursor ≤ s.iso.rx.isoReadCursor + kUFOhciIsoMaxPackets) ∧
    (∀ k, s.iso.rx.isoReadCursor ≤ k → k < s.iso.rx.isoWriteCursor →
      (s.slots (k % kUFOhciIsoMaxPackets) = k ↔ s.completed ≤ k + kUFOhciIsoMaxPackets)) ∧
    (Meets CaptureRing.step CaptureRing.Ahead (CaptureRing.start v slots) as →
      (∀ k, s.iso.rx.isoReadCursor ≤ k → k < s.iso.rx.isoWriteCursor → s.slots (k % kUFOhciIsoMaxPackets) = k) ∧
        s.drained = List.range s.drained.length) := by
  have hstart := CaptureRing.start_inv v slots
  have hi := run_inv CaptureRing.Inv CaptureRing.step_inv h hstart
  refine ⟨⟨hi.rx.read, hi.rx.write⟩, fun k _ hk => hi.slot_iff (hk.trans_le hi.rx.done), fun hm => ?_⟩
  have hs := hm.inv CaptureRing.InStep CaptureRing.step_inStep h ⟨hstart, Nat.zero_le _, rfl⟩
  exact ⟨fun k => hs.slot, hs.drained⟩

/-- Two packets read and released, and a third completed. -/
def capturing : List CaptureAct :=
  [.complete, .complete, .isoCompletion {} 5 0, .drain, .drain, .complete, .isoCompletion ⟨2, 0⟩ 6 0]

theorem capture_ring_released : ∃ s, run CaptureRing.step (CaptureRing.start {} fun _ => 7) capturing = some s ∧
    (s.iso.rx.isoReadCursor = 2 ∧ s.iso.rx.isoWriteCursor = 3) ∧ s.slots 2 = 2 ∧
    s.drained = List.range s.drained.length := by
  have h : (run CaptureRing.step (CaptureRing.start {} fun _ => 7) capturing).map
      (fun s => (s.iso.rx.isoReadCursor, s.iso.rx.isoWriteCursor)) = some (2, 3) := by decide +kernel
  have hm : Meets CaptureRing.step CaptureRing.Ahead (CaptureRing.start {} fun _ => 7) capturing := by decide +kernel
  obtain ⟨s, hrun, hs⟩ := Option.map_eq_some_iff.1 h
  rw [Prod.mk.injEq] at hs
  obtain ⟨hread, hwrite⟩ := hs
  obtain ⟨hslots, hdrained⟩ := (capture_ring {} (fun _ => 7) hrun).2.2 hm
  exact ⟨s, hrun, ⟨hread, hwrite⟩, hslots 2 (by omega) (by omega), hdrained⟩

/-! ## A stall of more than the ring -/

namespace CaptureRing

/-- The controller completes `n` packets and nobody scans. -/
theorem run_complete (s : CaptureRing) (n : ℕ) : ∃ t, run step s (List.replicate n .complete) = some t ∧
    t.completed = s.completed + n ∧ t.iso.rx.isoReadCursor = s.iso.rx.isoReadCursor ∧
    t.iso.rx.isoWriteCursor = s.iso.rx.isoWriteCursor ∧
    ∀ i, s.iso.rx.isoDesc i = true → t.iso.rx.isoDesc i = true := by
  induction n generalizing s with
  | zero => exact ⟨s, rfl, rfl, rfl, rfl, fun _ => id⟩
  | succ n ih =>
    obtain ⟨t, hrun, hcompleted, hread, hwrite, hset⟩ := ih { s with
      iso.rx := s.iso.rx.complete s.completed
      slots := Function.update s.slots (s.completed % s.iso.rx.isoPackets) s.completed
      completed := s.completed + 1 }
    refine ⟨t, run_cons_some rfl hrun, by rw [hcompleted]; dsimp only; omega, hread, hwrite, fun i hi => hset i ?_⟩
    simp only [Receive.complete, Function.update_apply]
    split
    · rfl
    · exact hi

end CaptureRing

/-- The ring filled once and one packet more, and then a scan: slot 0 is offered
as packet 0 and holds packet 512. -/
theorem lapped_slot : ∃ s, run CaptureRing.step (CaptureRing.start {} fun _ => 7)
      (List.replicate 513 .complete ++ [.isoCompletedCount]) = some s ∧
    (s.iso.rx.isoReadCursor = 0 ∧ 0 < s.iso.rx.isoWriteCursor) ∧ s.slots 0 = 512 := by
  obtain ⟨first, hstep, hfirst⟩ : ∃ u, (CaptureRing.start {} fun _ => 7).step .complete = some u ∧
      (u.completed = 1 ∧ u.iso.rx.isoReadCursor = 0 ∧ u.iso.rx.isoWriteCursor = 0) ∧ u.iso.rx.isoDesc 0 = true :=
    ⟨_, rfl, ⟨rfl, rfl, rfl⟩, rfl⟩
  obtain ⟨⟨hcompleted, hread, hwrite⟩, hset⟩ := hfirst
  obtain ⟨t, hrun, htc, htr, htw, htset⟩ := first.run_complete 512
  have hlap := run_cons_some hstep hrun
  have hi := run_inv CaptureRing.Inv CaptureRing.step_inv hlap (CaptureRing.start_inv {} fun _ => 7)
  have hp := hi.rx.packets
  have hn := kUFOhciIsoMaxPackets_eq
  have hslot := hi.slots 512 (by omega) (by omega)
  refine ⟨_, run_append_some hlap rfl, ⟨htr.trans hread, ?_⟩, hslot⟩
  -- the scan takes slot 0, whose status is that of packet 512
  have hzero : t.iso.rx.isoWriteCursor = 0 := htw.trans hwrite
  have hscan : 0 < t.iso.rx.scan (511 + 1) 0 := by
    unfold Receive.scan
    rw [if_pos (by omega), if_pos (by rw [Nat.zero_mod]; exact htset 0 hset)]
    exact (t.iso.rx.scan_spec (by omega) 511 1 (by omega)).1
  have hadvance : t.iso.rx.advance.isoWriteCursor = t.iso.rx.scan (511 + 1) 0 := by
    unfold Receive.advance
    rw [hzero, hp, hn]
  exact hadvance ▸ hscan

end UserFace800.Dext
