import UserFace800.Audio.Playback
import UserFace800.Dext.Capture
import UserFace800.Protocol.Codec
/-!
# The capture path

The pump decodes the frames of each packet into the slot in hand and commits it
when it is full; a frame that finds no slot and none to acquire is dropped.
CoreAudio calls `OnReadClientInput` once for each input stream of an IO cycle:
the first call takes the cycle's frames from the ring, every call reads its
columns of them. The two threads are interleaved between any two accesses of the
ring. `capture_path` says the cycles read what was captured, from the start and
without a gap but what was dropped.
-/
open UserFace800.Lib UserFace800.Lib.FrameQueue UserFace800.Protocol
open UserFace800.Dext (kDextSlotBytes framesInPayload)

namespace UserFace800.Audio

/-- A received packet: the length in its header, and the slot past the header. -/
structure Packet where
  len : ℕ
  payload : ℕ → BitVec 8

namespace Packet

/-- `nframes`, of a length the slot can hold. -/
def frames (p : Packet) (dbq : ℕ) : ℕ :=
  if p.len ≠ 0 ∧ p.len ≤ kDextSlotBytes - 8 then framesInPayload p.len dbq else 0

/-- Frame `k` as it goes into the ring: `decode_frame`, each sample at the top of
its column, and silence where the device has no channel. -/
def frame (p : Packet) (dbq k : ℕ) : Frame := fun c =>
  if c.1 < dbq then decodeSampleLe p.payload (k * dbq * 4 + c * 4) <<< 8 else 0

/-- The frames of a packet, in order. -/
def decoded (p : Packet) (dbq : ℕ) : List Frame := (List.range (p.frames dbq)).map (p.frame dbq)

end Packet

/-- A call of `OnReadClientInput`. -/
structure InputCall where
  stream : Stream
  sampleTime : ℚ
  bytesCount : ℕ

/-- The frames a call asks for, by the width of its own stream. -/
def InputCall.frames (call : InputCall) : ℕ := min (call.bytesCount / (call.stream.chan * 4)) kMaxCycleFrames

/-- An IO cycle: the frames it took from the ring, whether the ring was short of
more, and what its calls returned (by frame and channel of the stream). -/
structure InCycle where
  sampleTime : ℚ
  frames : ℕ
  pulled : List Frame := []
  short : Bool := false
  calls : List (InputCall × (ℕ → ℕ → BitVec 32)) := []

/-- Frame `f` of the cycle: silence where the ring was short. -/
def InCycle.frame (cy : InCycle) (f : ℕ) : Frame := cy.pulled[f]?.getD fun _ => 0

/-- Where the plugin is: outside `OnReadClientInput`, or in `fillStageFromRing`. -/
inductive InPhase where
  | idle
  | filling (f : ℕ) (call : InputCall)

/-- The pump's drain, the ring and the input half of `UFIOHandler`. Not in the
source are `packets` (those of the session), `arrived` (their frames so far, each
with whether it went into a slot), `earlier` (the frames committed by the sessions
before), `done` and `cycle` (the cycles before, and the last one). Before the first
one the stage is silent. -/
structure CapturePath where
  capture : SlotQueue := {}
  dbq : ℕ
  packet : Option (Packet × ℕ) := none
  capSlot : Option Slot := none
  capFill : ℕ := 0
  inStage : ℕ → Frame := fun _ _ => 0
  rdSlot : Option Slot := none
  rdFrame : ℕ := 0
  inCycle : ℚ := -1
  inPhase : InPhase := .idle
  packets : List Packet := []
  arrived : List (Frame × Bool) := []
  earlier : List Frame := []
  done : List InCycle := []
  cycle : InCycle := ⟨-1, kMaxCycleFrames, [], true, []⟩

/-- The steps of the drain and of the plugin's callback. -/
inductive CaptureAct where
  /-- The drain comes to a packet. -/
  | packet (p : Packet)
  /-- A turn of its loop over the frames; a slot acquired holds what an earlier lap left. -/
  | frame (stale : Slot)
  /-- `restart_session` has succeeded. -/
  | restart (dbq : ℕ)
  | call (call : InputCall)
  /-- A turn of `fillStageFromRing`. -/
  | fill

namespace CapturePath

/-! ## The drain -/

/-- Whether there is a slot for the next frame. -/
def accepts (s : CapturePath) : Bool := s.capSlot.isSome || s.capture.acquireWrite

/-- A frame goes into the slot, and a full slot to the ring. -/
def store (s : CapturePath) (slot : Slot) (capFill : ℕ) (x : Frame) : CapturePath :=
  let slot := slot.setFrame capFill x
  if kFramesPerSlot ≤ capFill + 1 then
    { s with
      capture := s.capture.commitWrite
        { slot with
          frameCount := BitVec.ofNat 32 (capFill + 1)
          channelCount := BitVec.ofNat 32 (min s.dbq kMaxChannels) }
      capSlot := none
      capFill := capFill + 1 }
  else { s with capSlot := some slot, capFill := capFill + 1 }

/-- Frame `k` of the packet has come. -/
def arrive (s : CapturePath) (p : Packet) (k : ℕ) : CapturePath :=
  { s with packet := some (p, k + 1), arrived := s.arrived ++ [(p.frame s.dbq k, s.accepts)] }

/-- A turn of the drain's loop over the frames: stored, or dropped when there is no slot; past
the last the packet is done. -/
def frame (s : CapturePath) (stale : Slot) (p : Packet) (k : ℕ) : CapturePath :=
  if k < p.frames s.dbq then
    match s.capSlot with
    | some slot => (s.arrive p k).store slot s.capFill (p.frame s.dbq k)
    | none =>
      if s.capture.acquireWrite then (s.arrive p k).store stale 0 (p.frame s.dbq k)
      -- a full ring drops the frame
      else { s.arrive p k with capSlot := none, capFill := 0 }
  else { s with packet := none }

/-- The new session drops the slot in hand. -/
def restart (s : CapturePath) (dbq : ℕ) : CapturePath :=
  { s with
    dbq
    capSlot := none
    capFill := 0
    packets := []
    arrived := []
    earlier := FrameQueue.frames Slot.frame kFramesPerSlot s.capture.committed }

/-! ## The plugin -/

/-- What a call returns: the columns of its stream. -/
def columns (inStage : ℕ → Frame) (call : InputCall) : ℕ → ℕ → BitVec 32 := fun f c =>
  if h : f < call.frames ∧ c < call.stream.chan ∧ call.stream.base + c < kMaxChannels then
    inStage f ⟨call.stream.base + c, h.2.2⟩
  else 0

/-- The call's columns of the stage go to its buffer. -/
def copyOut (s : CapturePath) (call : InputCall) : CapturePath :=
  { s with
    inPhase := .idle
    cycle := { s.cycle with calls := s.cycle.calls ++ [(call, columns s.inStage call)] } }

/-- `OnReadClientInput`, up to the fill. -/
def onReadClientInput (s : CapturePath) (call : InputCall) : CapturePath :=
  if call.stream.chan = 0 ∨ kMaxChannels ≤ call.stream.base then s
  -- the first stream of a cycle takes it from the ring
  else if call.sampleTime ≠ s.inCycle then
    { s with
      inCycle := call.sampleTime
      inPhase := .filling 0 call
      done := s.done ++ [s.cycle]
      cycle := ⟨call.sampleTime, call.frames, [], false, []⟩ }
  else s.copyOut call

/-- The rest of the cycle is silent. -/
def silence (s : CapturePath) (f : ℕ) (call : InputCall) : CapturePath :=
  { s with
    rdSlot := none
    rdFrame := 0
    inStage := fun g => if f ≤ g ∧ g < call.frames then fun _ => 0 else s.inStage g
    cycle := { s.cycle with short := true } }

/-- A turn of the loop of `fillStageFromRing`, up to its next access of the ring. -/
def fill (s : CapturePath) (f : ℕ) (call : InputCall) : CapturePath :=
  if f < call.frames then
    match s.rdSlot with
    | some slot =>
      if slot.frameCount.toNat ≤ s.rdFrame then { s with capture := s.capture.commitRead, rdSlot := none }
      else
        { s with
          inStage := Function.update s.inStage f (slot.frame s.rdFrame)
          rdFrame := s.rdFrame + 1
          inPhase := .filling (f + 1) call
          cycle := { s.cycle with pulled := s.cycle.pulled ++ [slot.frame s.rdFrame] } }
    | none =>
      match s.capture.acquireRead with
      | some slot => { s with rdSlot := some slot, rdFrame := 0 }
      | none => (s.silence f call).copyOut call
  else s.copyOut call

/-- A packet comes when the one before is done, a call when the stage is filled. -/
def step (s : CapturePath) (a : CaptureAct) : Option CapturePath :=
  match a, s.packet, s.inPhase with
  | .packet p, none, _ => some { s with packet := some (p, 0), packets := s.packets ++ [p] }
  | .frame stale, some (p, k), _ => some (s.frame stale p k)
  | .restart dbq, none, _ => some (s.restart dbq)
  | .call call, _, .idle => some (s.onReadClientInput call)
  | .fill, _, .filling f call => some (s.fill f call)
  | _, _, _ => none

/-- A session whose packets have blocks of `dbq` quadlets. -/
def start (dbq : ℕ) : CapturePath where
  dbq

/-- The frames of the session that went into a slot. -/
def captured (s : CapturePath) : List Frame := (s.arrived.filter (·.2)).map (·.1)

/-- The frames the cycles took. -/
def pulled (s : CapturePath) : List Frame := (s.done ++ [s.cycle]).flatMap (·.pulled)

/-- The frames of the packet in hand that are still to come. -/
def remaining (s : CapturePath) : List Frame :=
  match s.packet with
  | some (p, k) => (p.decoded s.dbq).drop k
  | none => []

/-! ## The two sides of the ring -/

variable {s t : CapturePath}

/-- The slots hold what was captured, and the cycles have taken the first of it. -/
structure Piped (s : CapturePath) : Prop where
  full : ∀ slot ∈ s.capture.committed, slot.frameCount = BitVec.ofNat 32 kFramesPerSlot
  packed : Packed Slot.frame kFramesPerSlot s.capture.committed s.capSlot s.capFill (s.earlier ++ s.captured)
  unpacked : Unpacked Slot.frame kFramesPerSlot s.capture.committed s.capture.taken s.rdSlot s.rdFrame s.pulled

theorem captured_arrive (s : CapturePath) (p : Packet) (k : ℕ) :
    (s.arrive p k).captured = if s.accepts then s.captured ++ [p.frame s.dbq k] else s.captured := by
  unfold captured arrive
  cases s.accepts <;> simp

/-- A frame that has a slot is the next one in it. -/
theorem store_piped (hfull : ∀ slot ∈ t.capture.committed, slot.frameCount = BitVec.ofNat 32 kFramesPerSlot)
    (hu : Unpacked Slot.frame kFramesPerSlot t.capture.committed t.capture.taken t.rdSlot t.rdFrame t.pulled)
    {slot : Slot} {capFill : ℕ} {sent : List Frame} {x : Frame}
    (hp : Packed Slot.frame kFramesPerSlot t.capture.committed (some slot) capFill sent)
    (hsent : t.earlier ++ t.captured = sent ++ [x]) : (t.store slot capFill x).Piped := by
  have hroom := hp.room slot rfl
  have hself := slot.frame_setFrame_self hroom x
  have hold (p : ℕ) (hlt : p < capFill) : (slot.setFrame capFill x).frame p = slot.frame p :=
    slot.frame_setFrame_ne (Nat.ne_of_lt hlt) x
  have hwrite := hp.write hold
  rw [hself, ← hsent] at hwrite
  unfold store
  dsimp only
  split
  · rename_i hlast
    have hlast : capFill + 1 = kFramesPerSlot := Nat.le_antisymm hroom hlast
    rw [hlast] at hwrite ⊢
    rw [← Playback.part_counts _ (BitVec.ofNat 32 kFramesPerSlot) (BitVec.ofNat 32 (min t.dbq kMaxChannels))] at hwrite
    refine ⟨?_, Packed.commit hwrite _, hu.append _⟩
    intro slot' hslot'
    rcases List.mem_append.1 hslot' with hslot' | hslot'
    · exact hfull slot' hslot'
    · rw [List.mem_singleton.1 hslot']
  · rename_i hmore
    exact ⟨hfull, ⟨hwrite, fun _ _ => Nat.not_le.1 hmore⟩, hu⟩

theorem frame_piped (hi : s.Piped) (stale : Slot) (p : Packet) (k : ℕ) : (s.frame stale p k).Piped := by
  have hpacked := hi.packed
  have hcaptured := s.captured_arrive p k
  have hsent (haccepts : s.accepts = true) :
      (s.arrive p k).earlier ++ (s.arrive p k).captured = s.earlier ++ s.captured ++ [p.frame s.dbq k] := by
    rw [hcaptured, if_pos haccepts, ← List.append_assoc]
    rfl
  unfold frame
  split
  · cases hs : s.capSlot with
    | some slot =>
      rw [hs] at hpacked
      exact store_piped (t := s.arrive p k) hi.full hi.unpacked hpacked (hsent (by simp [accepts, hs]))
    | none =>
      rw [hs] at hpacked
      dsimp only
      split
      · rename_i hroom
        exact store_piped (t := s.arrive p k) hi.full hi.unpacked (hpacked.acquire (by decide) stale)
          (hsent (by simp [accepts, hroom]))
      · rename_i hnone
        have haccepts : s.accepts = false := by simp [accepts, hs, hnone]
        rw [haccepts] at hcaptured
        refine ⟨hi.full, ⟨?_, fun _ h => nomatch h⟩, hi.unpacked⟩
        exact (congrArg (s.earlier ++ ·) hcaptured).trans hpacked.sent
  · exact ⟨hi.full, hpacked, hi.unpacked⟩

theorem pulled_eq (s : CapturePath) : s.pulled = s.done.flatMap (·.pulled) ++ s.cycle.pulled := by simp [pulled]

theorem copyOut_piped (hi : s.Piped) (call : InputCall) : (s.copyOut call).Piped := by
  refine ⟨hi.full, hi.packed, ?_⟩
  have hpulled : (s.copyOut call).pulled = s.pulled := by
    rw [pulled_eq, pulled_eq]
    rfl
  rw [hpulled]
  exact hi.unpacked

theorem onReadClientInput_piped (hi : s.Piped) (call : InputCall) : (s.onReadClientInput call).Piped := by
  unfold onReadClientInput
  split
  · exact hi
  · split
    · refine ⟨hi.full, hi.packed, ?_⟩
      have hu := hi.unpacked
      unfold pulled at hu ⊢
      rw [List.flatMap_append, List.flatMap_singleton, List.append_nil]
      exact hu
    · exact copyOut_piped hi call

theorem kFramesPerSlot_toNat : (BitVec.ofNat 32 kFramesPerSlot).toNat = kFramesPerSlot := rfl

theorem fill_piped (hi : s.Piped) (f : ℕ) (call : InputCall) : (s.fill f call).Piped := by
  have hu := hi.unpacked
  unfold fill
  split
  · split
    · rename_i slot hs
      rw [hs] at hu
      have hmem := List.mem_of_getElem? (hu.holds slot rfl).1
      rw [hi.full slot hmem, kFramesPerSlot_toNat]
      split
      · rename_i hend
        exact ⟨hi.full, hi.packed, hu.release hend s.rdFrame⟩
      · rename_i hmore
        refine ⟨hi.full, hi.packed, ?_⟩
        have hread := hu.read (Nat.not_le.1 hmore)
        rw [pulled_eq, List.append_assoc, ← hs] at hread
        rw [pulled_eq]
        exact hread
    · rename_i hs
      rw [hs] at hu
      split
      · rename_i slot hslot
        exact ⟨hi.full, hi.packed, hu.acquire hslot⟩
      · refine copyOut_piped (s := s.silence f call) ⟨hi.full, hi.packed, ?_⟩ call
        have hdry := hu.dry 0
        rw [pulled_eq] at hdry ⊢
        exact hdry
  · exact copyOut_piped hi call

theorem step_piped (s : CapturePath) (a : CaptureAct) (t : CapturePath) (hi : s.Piped) (h : s.step a = some t) :
    t.Piped := by
  unfold step at h
  split at h
  · cases h
    exact ⟨hi.full, hi.packed, hi.unpacked⟩
  · cases h
    exact frame_piped hi _ _ _
  · cases h
    exact ⟨hi.full, ⟨(List.append_nil _).trans (List.append_nil _).symm, fun _ h => nomatch h⟩, hi.unpacked⟩
  · cases h
    exact onReadClientInput_piped hi _
  · cases h
    exact fill_piped hi _ _
  · cases h

theorem start_piped (dbq : ℕ) : (start dbq).Piped :=
  ⟨fun _ h => absurd h List.not_mem_nil, Packed.init _, Unpacked.init _ _⟩

/-! ## What arrives -/

/-- The frames that came are those of the session's packets. -/
def Drained (s : CapturePath) : Prop := s.arrived.map (·.1) ++ s.remaining = s.packets.flatMap (·.decoded s.dbq)

theorem remaining_packet {p : Packet} {k : ℕ} (hp : s.packet = some (p, k)) :
    s.remaining = (p.decoded s.dbq).drop k := by
  unfold remaining
  rw [hp]

theorem store_drained (hi : t.Drained) (slot : Slot) (capFill : ℕ) (x : Frame) : (t.store slot capFill x).Drained := by
  unfold store
  dsimp only
  split <;> exact hi

theorem arrive_drained (hi : s.Drained) {p : Packet} {k : ℕ} (hp : s.packet = some (p, k)) (hk : k < p.frames s.dbq) :
    (s.arrive p k).Drained := by
  unfold Drained at hi
  have hdrop : (p.decoded s.dbq).drop k = p.frame s.dbq k :: (p.decoded s.dbq).drop (k + 1) := by
    have hlt : k < (p.decoded s.dbq).length := by simpa [Packet.decoded] using hk
    rw [List.drop_eq_getElem_cons hlt]
    simp [Packet.decoded]
  rw [remaining_packet hp, hdrop] at hi
  unfold Drained
  rw [show (s.arrive p k).packets = s.packets from rfl, show (s.arrive p k).dbq = s.dbq from rfl, ← hi]
  simp [arrive, remaining]

theorem frame_drained (hi : s.Drained) (stale : Slot) {p : Packet} {k : ℕ} (hp : s.packet = some (p, k)) :
    (s.frame stale p k).Drained := by
  unfold frame
  split
  · rename_i hk
    have harrive := arrive_drained hi hp hk
    split
    · exact store_drained harrive _ _ _
    · split
      · exact store_drained harrive _ _ _
      · exact harrive
  · rename_i hk
    unfold Drained at hi
    have hdone : (p.decoded s.dbq).drop k = [] := by
      refine List.drop_eq_nil_of_le ?_
      simpa [Packet.decoded] using Nat.not_lt.1 hk
    rw [remaining_packet hp, hdone] at hi
    exact hi

theorem fill_drain (s : CapturePath) (f : ℕ) (call : InputCall) : (s.fill f call).arrived = s.arrived ∧
    (s.fill f call).packet = s.packet ∧ (s.fill f call).packets = s.packets ∧ (s.fill f call).dbq = s.dbq := by
  unfold fill copyOut
  split
  · split
    · split <;> exact ⟨rfl, rfl, rfl, rfl⟩
    · split <;> exact ⟨rfl, rfl, rfl, rfl⟩
  · exact ⟨rfl, rfl, rfl, rfl⟩

theorem onReadClientInput_drain (s : CapturePath) (call : InputCall) : (s.onReadClientInput call).arrived = s.arrived ∧
    (s.onReadClientInput call).packet = s.packet ∧ (s.onReadClientInput call).packets = s.packets ∧
    (s.onReadClientInput call).dbq = s.dbq := by
  unfold onReadClientInput copyOut
  split
  · exact ⟨rfl, rfl, rfl, rfl⟩
  · split <;> exact ⟨rfl, rfl, rfl, rfl⟩

theorem Drained.of_eq (hi : s.Drained) (harrived : t.arrived = s.arrived) (hpacket : t.packet = s.packet)
    (hpackets : t.packets = s.packets) (hdbq : t.dbq = s.dbq) : t.Drained := by
  unfold Drained remaining at hi ⊢
  rw [harrived, hpacket, hpackets, hdbq]
  exact hi

theorem step_drained (s : CapturePath) (a : CaptureAct) (t : CapturePath) (hi : s.Drained) (h : s.step a = some t) :
    t.Drained := by
  unfold step at h
  split at h
  · rename_i p hp
    cases h
    unfold Drained remaining at hi
    rw [hp, List.append_nil] at hi
    simp [Drained, remaining, hi]
  · rename_i stale p k hp
    cases h
    exact frame_drained hi stale hp
  · rename_i dbq hp
    cases h
    simp [Drained, remaining, restart, hp]
  · rename_i call hphase
    cases h
    obtain ⟨harrived, hpacket, hpackets, hdbq⟩ := s.onReadClientInput_drain call
    exact hi.of_eq harrived hpacket hpackets hdbq
  · rename_i f call hphase
    cases h
    obtain ⟨harrived, hpacket, hpackets, hdbq⟩ := s.fill_drain f call
    exact hi.of_eq harrived hpacket hpackets hdbq
  · cases h

/-! ## The cycles -/

/-- A cycle is as many frames as it took from the ring, silent after them if that ran
short, and every call returned its columns of these. -/
structure Settled (cy : InCycle) : Prop where
  le : cy.pulled.length ≤ cy.frames
  whole : cy.pulled.length = cy.frames ∨ cy.short = true
  calls : ∀ r ∈ cy.calls, r.1.sampleTime = cy.sampleTime ∧ ∀ f < cy.frames, r.2 f = columns cy.frame r.1 f

/-- The stage holds the cycle, as far as the fill has come. -/
def AtFrame (s : CapturePath) : InPhase → Prop
  | .idle => Settled s.cycle ∧ ∀ f < s.cycle.frames, s.inStage f = s.cycle.frame f
  | .filling f call =>
    (call.sampleTime = s.cycle.sampleTime ∧ call.frames = s.cycle.frames ∧ s.cycle.calls = []) ∧
      (s.cycle.pulled.length = f ∧ f ≤ s.cycle.frames) ∧ ∀ g < f, s.inStage g = s.cycle.frame g

/-- Every cycle so far was handed out whole, and the stage holds the one at hand. -/
structure Staged (s : CapturePath) : Prop where
  done : ∀ cy ∈ s.done, Settled cy
  cycle : s.inCycle = s.cycle.sampleTime
  phase : AtFrame s s.inPhase

theorem columns_congr {inStage inStage' : ℕ → Frame} {call : InputCall} {f : ℕ} (h : inStage f = inStage' f) :
    columns inStage call f = columns inStage' call f := by
  funext c
  unfold columns
  rw [h]

theorem copyOut_staged (hdone : ∀ cy ∈ s.done, Settled cy) (hcycle : s.inCycle = s.cycle.sampleTime)
    (hsettled : Settled s.cycle) (hstage : ∀ f < s.cycle.frames, s.inStage f = s.cycle.frame f) {call : InputCall}
    (hcall : call.sampleTime = s.cycle.sampleTime) : Staged (s.copyOut call) := by
  refine ⟨hdone, hcycle, ⟨hsettled.le, hsettled.whole, ?_⟩, hstage⟩
  intro r hr
  rcases List.mem_append.1 hr with hr | hr
  · exact hsettled.calls r hr
  · rw [List.mem_singleton.1 hr]
    exact ⟨hcall, fun f hf => columns_congr (hstage f hf)⟩

theorem onReadClientInput_staged (hi : Staged s) (hphase : s.inPhase = .idle) (call : InputCall) :
    Staged (s.onReadClientInput call) := by
  have hin := hi.phase
  rw [hphase] at hin
  unfold onReadClientInput
  split
  · exact hi
  · split
    · refine ⟨?_, rfl, ⟨rfl, rfl, rfl⟩, ⟨rfl, Nat.zero_le _⟩, fun g hg => absurd hg (Nat.not_lt_zero _)⟩
      intro cy hcy
      rcases List.mem_append.1 hcy with hcy | hcy
      · exact hi.done cy hcy
      · exact List.mem_singleton.1 hcy ▸ hin.1
    · rename_i hsame
      exact copyOut_staged hi.done hi.cycle hin.1 hin.2 ((not_not.1 hsame).trans hi.cycle)

/-- A frame more in the cycle leaves those before it. -/
theorem frame_pulled (cy : InCycle) (x : Frame) {g : ℕ} (hg : g ≤ cy.pulled.length) :
    ({ cy with pulled := cy.pulled ++ [x] } : InCycle).frame g = if g = cy.pulled.length then x else cy.frame g := by
  unfold InCycle.frame
  dsimp only
  split_ifs with heq
  · rw [heq, List.getElem?_concat_length]
    rfl
  · rw [List.getElem?_append_left (Nat.lt_of_le_of_ne hg heq)]

theorem fill_staged (hi : Staged s) {f : ℕ} {call : InputCall} (hphase : s.inPhase = .filling f call) :
    Staged (s.fill f call) := by
  have hin := hi.phase
  rw [hphase] at hin
  obtain ⟨⟨htime, hframes, hcalls⟩, ⟨hlen, hle⟩, hstage⟩ := hin
  have hno (r) (hr : r ∈ s.cycle.calls) (P : Prop) : P := absurd (hcalls ▸ hr) List.not_mem_nil
  unfold fill
  split
  · rename_i hf
    split
    · split
      · exact ⟨hi.done, hi.cycle, hi.phase⟩
      · refine ⟨hi.done, hi.cycle, ⟨htime, hframes, hcalls⟩, ⟨?_, hframes ▸ hf⟩, ?_⟩
        · rw [List.length_append, hlen, List.length_singleton]
        · intro g hg
          dsimp only
          rw [frame_pulled s.cycle _ (hlen ▸ Nat.lt_succ_iff.1 hg), hlen, Function.update_apply]
          split_ifs with heq
          · rfl
          · exact hstage g (Nat.lt_of_le_of_ne (Nat.lt_succ_iff.1 hg) heq)
    · split
      · exact ⟨hi.done, hi.cycle, hi.phase⟩
      · refine copyOut_staged (s := s.silence f call) hi.done hi.cycle
          ⟨hlen ▸ hle, .inr rfl, fun r hr => hno r hr _⟩ ?_ htime
        intro g hg
        by_cases hlt : g < f
        · exact (if_neg fun h => absurd h.1 (Nat.not_le.2 hlt)).trans (hstage g hlt)
        · -- past the frames taken the cycle is silent, as the stage is
          have hsilent : s.cycle.frame g = fun _ => 0 := by
            unfold InCycle.frame
            rw [List.getElem?_eq_none (hlen ▸ Nat.not_lt.1 hlt)]
            rfl
          exact (if_pos ⟨Nat.not_lt.1 hlt, hframes ▸ hg⟩).trans hsilent.symm
  · rename_i hf
    have hend : f = s.cycle.frames := Nat.le_antisymm hle (hframes ▸ Nat.not_lt.1 hf)
    exact copyOut_staged hi.done hi.cycle ⟨hlen ▸ hle, .inl (hlen.trans hend), fun r hr => hno r hr _⟩
      (fun g hg => hstage g (hend ▸ hg)) htime

/-- The drain has nothing of the cycles. -/
theorem frame_plugin (s : CapturePath) (stale : Slot) (p : Packet) (k : ℕ) : s.frame stale p k = { s with
    capture := (s.frame stale p k).capture
    packet := (s.frame stale p k).packet
    capSlot := (s.frame stale p k).capSlot
    capFill := (s.frame stale p k).capFill
    arrived := (s.frame stale p k).arrived } := by
  unfold frame store arrive
  dsimp only
  split
  · split
    · split <;> rfl
    · split
      · split <;> rfl
      · rfl
  · rfl

theorem step_staged (s : CapturePath) (a : CaptureAct) (t : CapturePath) (hi : Staged s) (h : s.step a = some t) :
    Staged t := by
  unfold step at h
  split at h
  · cases h
    exact ⟨hi.done, hi.cycle, hi.phase⟩
  · cases h
    rw [frame_plugin]
    exact ⟨hi.done, hi.cycle, hi.phase⟩
  · cases h
    exact ⟨hi.done, hi.cycle, hi.phase⟩
  · rename_i hphase
    cases h
    exact onReadClientInput_staged hi hphase _
  · rename_i hphase
    cases h
    exact fill_staged hi hphase
  · cases h

theorem start_staged (dbq : ℕ) : Staged (start dbq) where
  done := fun _ h => absurd h List.not_mem_nil
  cycle := rfl
  phase := ⟨⟨Nat.zero_le _, .inr rfl, fun _ h => absurd h List.not_mem_nil⟩, fun _ _ => rfl⟩

/-! ## What the cycles read -/

/-- Once the cycles have come to the end of the ring, only the frames of the slot
being filled are not with them. -/
theorem Piped.drained (hi : s.Piped) (hslot : s.rdSlot = none) (hread : s.capture.acquireRead = none) :
    s.earlier ++ s.captured = s.pulled ++ inHand Slot.frame s.capSlot s.capFill := by
  have hu := hi.unpacked
  have hall : s.capture.committed.take s.capture.taken = s.capture.committed :=
    List.take_of_length_le (List.getElem?_eq_none_iff.1 hread)
  rw [hslot] at hu
  rw [hu.received, hall, hi.packed.sent]
  simp only [inHand, List.append_nil]

/-- For every run of packets of any length and calls of any streams and sizes: the
cycles have taken the frames that went into the slots from the first on, each once;
those of the session are the frames of its packets as decoded, but for those that
came when there was neither a slot in hand nor one to acquire; a cycle is the frames
it took, silent at the end if the ring ran short, and each of its calls returned its
columns of these. What was not taken is in the ring or in the slot being filled. -/
theorem capture_path {dbq : ℕ} {as : List CaptureAct} {s : CapturePath} (h : run step (start dbq) as = some s) :
    s.pulled <+: s.earlier ++ s.captured ∧
      s.arrived.map (·.1) ++ s.remaining = s.packets.flatMap (·.decoded s.dbq) ∧
      (∀ cy ∈ s.done, Settled cy) ∧ AtFrame s s.inPhase ∧
      (s.rdSlot = none → s.capture.acquireRead = none →
        s.earlier ++ s.captured = s.pulled ++ inHand Slot.frame s.capSlot s.capFill ∧
          ∀ slot, s.capSlot = some slot → s.capFill < kFramesPerSlot) := by
  have hpiped := run_inv Piped step_piped h (start_piped dbq)
  have hdrained := run_inv Drained step_drained h rfl
  have hstaged := run_inv Staged step_staged h (start_staged dbq)
  exact ⟨prefix_sent hpiped.packed hpiped.unpacked, hdrained, hstaged.done, hstaged.phase,
    fun hslot hread => ⟨hpiped.drained hslot hread, hpiped.packed.room⟩⟩

/-- Two packets of a channel make a slot, and the first cycle reads a frame of it. -/
def aSlot : List CaptureAct :=
  .packet ⟨1024, fun i => BitVec.ofNat 8 i⟩ :: List.replicate 257 (.frame ⟨0, 0, fun _ => 0⟩) ++
    .packet ⟨1024, fun i => BitVec.ofNat 8 i⟩ :: List.replicate 256 (.frame ⟨0, 0, fun _ => 0⟩) ++
      [.call ⟨⟨0, 1⟩, 0, 4⟩, .fill, .fill, .fill, .call ⟨⟨1, 1⟩, 0, 4⟩]

theorem capture_path_slot : ∃ s, run step (start 1) aSlot = some s ∧ s.cycle.calls.length = 2 ∧ s.pulled.length = 1 ∧
    s.pulled <+: s.earlier ++ s.captured := by
  have h : (run step (start 1) aSlot).map (fun s => (s.cycle.calls.length, s.pulled.length)) = some (2, 1) := by
    decide +kernel
  obtain ⟨s, hrun, hs⟩ := Option.map_eq_some_iff.1 h
  simp only [Prod.mk.injEq] at hs
  exact ⟨s, hrun, hs.1, hs.2, (capture_path hrun).1⟩

end CapturePath

end UserFace800.Audio
