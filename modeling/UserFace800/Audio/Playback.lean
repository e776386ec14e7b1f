import UserFace800.Audio.TxFill
import Mathlib.Data.Rat.Floor
/-!
# The playback path

CoreAudio calls `OnWriteMixedOutput` once for each output stream of an IO cycle,
each call with the samples of its own columns. The handler puts a cycle together
at full width and moves it to the ring when the last stream has contributed, or
the next cycle begins; the daemon's `TxFill` takes it from there. The plugin's
thread is interleaved with the daemon's between any two frames it moves.
`playback_path` says that what the daemon takes is what the cycles were, from the
start and without a gap but where the ring was full.
-/
open UserFace800.Lib UserFace800.Lib.FrameQueue

namespace UserFace800.Audio

/-- The frames the plugin's stages have room for. -/
def kMaxCycleFrames : ℕ := 4096

/-- An output stream: its first column, `firstChannel`, and its width. -/
structure Stream where
  base : ℕ
  chan : ℕ
  deriving DecidableEq

/-- The channel is one of the stream's. -/
def Stream.covers (st : Stream) (c : ℕ) : Prop := st.base ≤ c ∧ c < st.base + st.chan

instance (st : Stream) (c : ℕ) : Decidable (st.covers c) := inferInstanceAs (Decidable (_ ∧ _))

/-- A call of `OnWriteMixedOutput`. -/
structure OutputCall where
  stream : Stream
  sampleTime : ℚ
  bytes : ℕ → BitVec 32
  bytesCount : ℕ

namespace OutputCall

/-- The frames a call brings, by the width of its own stream. -/
def frames (call : OutputCall) : ℕ := min (call.bytesCount / (call.stream.chan * 4)) kMaxCycleFrames

/-- The sample of frame `f` for column `c`. -/
def sample (call : OutputCall) (f c : ℕ) : BitVec 32 := call.bytes (f * call.stream.chan + (c - call.stream.base))

end OutputCall

/-- An IO cycle: its calls so far, how many of its frames were moved to the ring,
and whether the rest was dropped on a full ring. -/
structure Cycle where
  sampleTime : ℚ
  frames : ℕ
  calls : List OutputCall := []
  kept : ℕ := 0
  cut : Bool := false

namespace Cycle

/-- Frame `f` of the cycle: each stream that contributed in its own columns, the
others silent. -/
def frame (cy : Cycle) (f : ℕ) : Frame := fun c =>
  match cy.calls.find? fun call => call.stream.covers c with
  | some call => call.sample f c
  | none => 0

/-- The frames of a cycle, in order. -/
def assembled (cy : Cycle) : List Frame := (List.range cy.frames).map cy.frame

/-- The frames of it that were moved to the ring. -/
def moved (cy : Cycle) : List Frame := cy.assembled.take cy.kept

end Cycle

/-- Where the plugin is: outside `OnWriteMixedOutput`, or in `flushStageToRing`,
called before the call given begins its cycle, or at the end of a cycle. -/
inductive OutPhase where
  | idle
  | flushing (f : ℕ) (call : Option OutputCall)

/-- The output half of `UFIOHandler`, the ring and `TxFill`. Not in the source are
`calls` (the calls so far), `done` and `cycle` (the cycles before, and the last
one), `sent` (the frames moved to slots), `real` (the frames taken by `TxFill`) and
`asked` (the calls of its `frame`). -/
structure Playback where
  outStage : ℕ → Frame := fun _ _ => 0
  wrSlot : Option Slot := none
  wrFrame : ℕ := 0
  outCycle : ℚ := -1
  outFrames : ℕ := 0
  outStreamsSeen : ℕ := 0
  outStreamCount : ℕ
  outPhase : OutPhase := .idle
  play : SlotQueue := {}
  txSrc : TxFill := TxFill.new kMaxChannels
  calls : List OutputCall := []
  done : List Cycle := []
  cycle : Cycle := ⟨-1, 0, [], 0, false⟩
  sent : List Frame := []
  real : List ((ℕ × ℕ) × Frame) := []
  asked : ℕ := 0

/-- The steps of the plugin's callback and of the daemon's fill. -/
inductive PlaybackAct where
  | call (call : OutputCall)
  /-- A turn of the flush loop; a slot acquired holds what an earlier lap left. -/
  | flush (stale : Slot)
  | beginTick
  | beginPacket
  | frame

namespace Playback

/-- A stream's columns go into the stage; after the last stream the cycle goes to
the ring. -/
def contribute (s : Playback) (call : OutputCall) : Playback :=
  { s with
    outStage := fun f c => if f < call.frames ∧ call.stream.covers c then call.sample f c else s.outStage f c
    outStreamsSeen := s.outStreamsSeen + 1
    outPhase := if s.outStreamCount ≤ s.outStreamsSeen + 1 then .flushing 0 none else .idle
    cycle := { s.cycle with calls := s.cycle.calls ++ [call] } }

/-- The first call of a cycle clears the stage. -/
def clearStage (s : Playback) (call : OutputCall) : Playback :=
  { s with
    outCycle := call.sampleTime
    outFrames := call.frames
    outStreamsSeen := 0
    outStage := fun f c => if f < call.frames then 0 else s.outStage f c
    done := s.done ++ [s.cycle]
    cycle := ⟨call.sampleTime, call.frames, [], 0, false⟩ }

/-- `OnWriteMixedOutput`, up to the flush. -/
def onWriteMixedOutput (s : Playback) (call : OutputCall) : Playback :=
  if call.stream.chan = 0 ∨ kMaxChannels ≤ call.stream.base then s
  -- what was staged of another cycle is flushed first
  else if call.sampleTime ≠ s.outCycle then { s with outPhase := .flushing 0 (some call) }
  else s.contribute call

/-- After `flushStageToRing`. -/
def flushed (s : Playback) (call : Option OutputCall) : Playback :=
  match call with
  | some call => (clearStage { s with outFrames := 0 } call).contribute call
  | none => { s with outFrames := 0, outCycle := -1, outPhase := .idle }

/-- Frame `f` of the stage goes into the slot, and a full slot to the ring. -/
def moveFrame (s : Playback) (slot : Slot) (wrFrame f : ℕ) (call : Option OutputCall) : Playback :=
  let slot := slot.setFrame wrFrame (s.outStage f)
  let s := { s with
    wrFrame := wrFrame + 1
    outPhase := .flushing (f + 1) call
    sent := s.sent ++ [s.outStage f]
    cycle := { s.cycle with kept := s.cycle.kept + 1 } }
  if kFramesPerSlot ≤ wrFrame + 1 then
    { s with
      play := s.play.commitWrite
        { slot with frameCount := BitVec.ofNat 32 (wrFrame + 1), channelCount := BitVec.ofNat 32 kMaxChannels }
      wrSlot := none }
  else { s with wrSlot := some slot }

/-- A turn of the loop of `flushStageToRing`. -/
def flush (s : Playback) (stale : Slot) (f : ℕ) (call : Option OutputCall) : Playback :=
  if f < s.outFrames then
    match s.wrSlot with
    | some slot => s.moveFrame slot s.wrFrame f call
    | none =>
      if s.play.acquireWrite then s.moveFrame stale 0 f call
      -- the rest of the cycle is dropped
      else flushed { s with wrSlot := none, wrFrame := 0, cycle := { s.cycle with cut := true } } call
  else s.flushed call

/-- A call comes when the flush before it is over; the fill goes on beside it. -/
def step (s : Playback) (a : PlaybackAct) : Option Playback :=
  match a, s.outPhase with
  | .call call, .idle => some ({ s with calls := s.calls ++ [call] }.onWriteMixedOutput call)
  | .flush stale, .flushing f call => some (s.flush stale f call)
  | .beginTick, _ => some { s with txSrc := s.txSrc.beginTick }
  | .beginPacket, _ => some { s with txSrc := s.txSrc.beginPacket }
  | .frame, _ =>
    let (txSrc, play) := s.txSrc.frame s.play
    some { s with play, txSrc, real := TxFill.log s.real txSrc play, asked := s.asked + 1 }
  | _, _ => none

/-- A device of `outStreamCount` output streams. -/
def start (outStreamCount : ℕ) : Playback where
  outStreamCount

/-- A call is that of a stream to the last cycle, which it has not contributed to,
or the first one of a cycle with another sample time. -/
def Cyclic (streams : List Stream) (s : Playback) : PlaybackAct → Prop
  | .call call =>
    call.stream ∈ streams ∧ 0 ≤ call.sampleTime ∧
      (call.sampleTime = s.cycle.sampleTime →
        call.frames = s.cycle.frames ∧ call.stream ∉ s.cycle.calls.map (·.stream))
  | _ => True

instance (streams : List Stream) (s : Playback) : ∀ a, Decidable (Cyclic streams s a)
  | .call _ => inferInstanceAs (Decidable (_ ∧ _ ∧ (_ → _ ∧ _)))
  | .flush _ | .beginTick | .beginPacket | .frame => .isTrue trivial

/-! ## The stage -/

variable {streams : List Stream} {s t : Playback}

/-- No column belongs to two streams. -/
def Disjoint (streams : List Stream) : Prop :=
  ∀ a ∈ streams, ∀ b ∈ streams, a ≠ b → ∀ c, ¬ (a.covers c ∧ b.covers c)

/-- A stream that contributes fills its columns and leaves the others. -/
theorem frame_contribute (hd : Disjoint streams) {cy : Cycle} {call : OutputCall} (hcall : call.stream ∈ streams)
    (hmem : ∀ st ∈ cy.calls.map (·.stream), st ∈ streams) (hnew : call.stream ∉ cy.calls.map (·.stream)) (f : ℕ)
    (c : Fin kMaxChannels) : ({ cy with calls := cy.calls ++ [call] } : Cycle).frame f c =
      if call.stream.covers c then call.sample f c else cy.frame f c := by
  unfold Cycle.frame
  rw [List.find?_append]
  split_ifs with hcov
  · -- no stream before it has the column
    have hnone : cy.calls.find? (fun call => call.stream.covers c) = none := by
      rw [List.find?_eq_none]
      intro call' hcall' hcov'
      have hstream := List.mem_map_of_mem (f := (·.stream)) hcall'
      have hne : call'.stream ≠ call.stream := fun he => hnew (he ▸ hstream)
      exact hd _ (hmem _ hstream) _ hcall hne c ⟨of_decide_eq_true hcov', hcov⟩
    simp [hnone, hcov]
  · have hlast : [call].find? (fun call => call.stream.covers c) = none := by simp [hcov]
    rw [hlast, Option.or_none]

theorem assembled_take_succ (cy : Cycle) {n : ℕ} (hn : n < cy.frames) :
    cy.assembled.take (n + 1) = cy.assembled.take n ++ [cy.frame n] := by
  have hlt : n < cy.assembled.length := by simpa [Cycle.assembled] using hn
  rw [List.take_succ_eq_append_getElem hlt]
  simp [Cycle.assembled]

/-! ## The two sides of the ring -/

/-- The slots hold what was sent, and `TxFill` has taken the first of it. -/
structure Piped (s : Playback) : Prop where
  packed : Packed Slot.frame kFramesPerSlot s.play.committed s.wrSlot s.wrFrame s.sent
  sane : s.txSrc.Sane s.play
  width : s.txSrc.channels = kMaxChannels
  reads : s.txSrc.Reads s.play s.real

/-- The counts of a slot are not in its frames. -/
theorem part_counts (s : Slot) (frameCount channelCount : BitVec 32) (n : ℕ) :
    part Slot.frame { s with frameCount, channelCount } n = part Slot.frame s n := rfl

theorem moveFrame_piped (hi : s.Piped) {slot : Slot} {wrFrame : ℕ}
    (hp : Packed Slot.frame kFramesPerSlot s.play.committed (some slot) wrFrame s.sent) (f : ℕ)
    (call : Option OutputCall) : (s.moveFrame slot wrFrame f call).Piped := by
  have hroom := hp.room slot rfl
  have hself := slot.frame_setFrame_self hroom (s.outStage f)
  have hold (p : ℕ) (hlt : p < wrFrame) : (slot.setFrame wrFrame (s.outStage f)).frame p = slot.frame p :=
    slot.frame_setFrame_ne (Nat.ne_of_lt hlt) (s.outStage f)
  have hwrite := hp.write hold
  rw [hself] at hwrite
  unfold moveFrame
  dsimp only
  -- a full slot is committed
  split
  · rename_i hfull
    have hlast : wrFrame + 1 = kFramesPerSlot := Nat.le_antisymm hroom hfull
    rw [hlast] at hwrite ⊢
    rw [← part_counts _ (BitVec.ofNat 32 kFramesPerSlot) (BitVec.ofNat 32 kMaxChannels)] at hwrite
    exact ⟨Packed.commit hwrite _, hi.sane.commitWrite ⟨rfl, rfl⟩, hi.width, hi.reads.commitWrite _⟩
  · rename_i hmore
    exact ⟨⟨hwrite, fun _ _ => Nat.not_le.1 hmore⟩, hi.sane, hi.width, hi.reads⟩

theorem flushed_piped (hi : s.Piped) (call : Option OutputCall) : (s.flushed call).Piped := by
  cases call with
  | none => exact ⟨hi.packed, hi.sane, hi.width, hi.reads⟩
  | some call => exact ⟨hi.packed, hi.sane, hi.width, hi.reads⟩

theorem flush_piped (hi : s.Piped) (stale : Slot) (f : ℕ) (call : Option OutputCall) :
    (s.flush stale f call).Piped := by
  have hpacked := hi.packed
  unfold flush
  split
  · cases hs : s.wrSlot with
    | some slot =>
      rw [hs] at hpacked
      exact moveFrame_piped hi hpacked f call
    | none =>
      rw [hs] at hpacked
      dsimp only
      split
      · exact moveFrame_piped hi (hpacked.acquire (by decide) stale) f call
      · exact flushed_piped (s := { s with wrSlot := none, wrFrame := 0, cycle := { s.cycle with cut := true } })
          ⟨⟨hpacked.sent, fun _ h => nomatch h⟩, hi.sane, hi.width, hi.reads⟩ call
  · exact flushed_piped hi call

theorem onWriteMixedOutput_piped (hi : s.Piped) (call : OutputCall) : (s.onWriteMixedOutput call).Piped := by
  unfold onWriteMixedOutput
  split
  · exact hi
  · split <;> exact ⟨hi.packed, hi.sane, hi.width, hi.reads⟩

theorem commitRead_committed (x : TxFill) (play : SlotQueue) : (x.frame play).2.committed = play.committed := by
  unfold TxFill.frame TxFill.giveBack
  dsimp only
  split
  · split <;> rfl
  · rfl

/-- The three ways a step goes: a call begins, the flush takes a turn, or
`TxFill` moves and the plugin is as it was. -/
theorem step_cases {a : PlaybackAct} (h : s.step a = some t) :
    (∃ call, a = .call call ∧ s.outPhase = .idle ∧
        t = ({ s with calls := s.calls ++ [call] } : Playback).onWriteMixedOutput call) ∨
      (∃ stale f call, s.outPhase = .flushing f call ∧ t = s.flush stale f call) ∨
      t = { s with play := t.play, txSrc := t.txSrc, real := t.real, asked := t.asked } := by
  unfold step at h
  split at h
  · rename_i call hp
    exact .inl ⟨call, rfl, hp, (Option.some.inj h).symm⟩
  · rename_i stale f call hp
    exact .inr (.inl ⟨stale, f, call, hp, (Option.some.inj h).symm⟩)
  · cases h
    exact .inr (.inr rfl)
  · cases h
    exact .inr (.inr rfl)
  · cases h
    exact .inr (.inr rfl)
  · cases h

theorem frame_piped (hi : s.Piped) :
    Piped { s with
      play := (s.txSrc.frame s.play).2
      txSrc := (s.txSrc.frame s.play).1
      real := TxFill.log s.real (s.txSrc.frame s.play).1 (s.txSrc.frame s.play).2
      asked := s.asked + 1 } where
  packed := by
    dsimp only
    rw [commitRead_committed]
    exact hi.packed
  sane := TxFill.frame_sane hi.sane
  width := (s.txSrc.frame_channels s.play).trans hi.width
  reads := TxFill.frame_reads hi.sane hi.reads

theorem step_piped (s : Playback) (a : PlaybackAct) (t : Playback) (hi : s.Piped) (h : s.step a = some t) :
    t.Piped := by
  unfold step at h
  split at h
  · rename_i call hp
    cases h
    exact onWriteMixedOutput_piped (s := { s with calls := s.calls ++ [call] })
      ⟨hi.packed, hi.sane, hi.width, hi.reads⟩ call
  · cases h
    exact flush_piped hi _ _ _
  · cases h
    exact ⟨hi.packed, ⟨hi.sane.full, hi.sane.silent, hi.sane.inHand⟩, hi.width, hi.reads⟩
  · cases h
    exact ⟨hi.packed, ⟨hi.sane.full, hi.sane.silent, hi.sane.inHand⟩, hi.width, hi.reads⟩
  · cases h
    exact frame_piped hi
  · cases h

theorem start_piped (n : ℕ) : (start n).Piped :=
  ⟨Packed.init _, TxFill.new_sane _, rfl, TxFill.new_reads _⟩

/-! ## The cycles -/

/-- The calls of a cycle are of one sample time and frame count, one for a stream. -/
structure Grouped (streams : List Stream) (cy : Cycle) : Prop where
  common : ∀ call ∈ cy.calls, call.sampleTime = cy.sampleTime ∧ call.frames = cy.frames
  nodup : (cy.calls.map (·.stream)).Nodup
  mem : ∀ st ∈ cy.calls.map (·.stream), st ∈ streams

/-- All of it was moved but a tail that a full ring cut. -/
def Over (cy : Cycle) : Prop := cy.kept = cy.frames ∨ cy.cut = true

/-- The flush has come to frame `f`. -/
def AtFrame (s : Playback) (f : ℕ) : Prop :=
  (f < s.outFrames → s.outFrames = s.cycle.frames ∧ s.cycle.kept = f) ∧ (s.outFrames ≤ f → Over s.cycle)

/-- Between the calls: the cycle is with the ring, or waits for its next stream. -/
inductive Between (streams : List Stream) (s : Playback) : Prop where
  | handed (hcycle : s.outCycle = -1) (hframes : s.outFrames = 0) (hover : Over s.cycle)
      (hall : s.cycle.sampleTime < 0 ∨ streams.length ≤ s.cycle.calls.length)
  | waiting (hcycle : s.outCycle = s.cycle.sampleTime) (hframes : s.outFrames = s.cycle.frames)
      (hkept : s.cycle.kept = 0) (hseen : s.outStreamsSeen = s.cycle.calls.length)

/-- What a flush was called for: all streams have contributed, or a call waits to
begin the next cycle. -/
def Waits (streams : List Stream) (s : Playback) : Option OutputCall → Prop
  | none => streams.length ≤ s.cycle.calls.length
  | some call => call.stream ∈ streams ∧ 0 ≤ call.sampleTime ∧ call.sampleTime ≠ s.cycle.sampleTime

/-- Where the plugin is in a cycle. -/
def InPhase (streams : List Stream) (s : Playback) : OutPhase → Prop
  | .idle => Between streams s
  | .flushing f call => AtFrame s f ∧ Waits streams s call

/-- The call that waits for the flush. -/
def pending : OutPhase → List OutputCall
  | .idle => []
  | .flushing _ call => call.toList

/-- What the plugin has staged and moved is what the cycles were. -/
structure Staged (streams : List Stream) (s : Playback) : Prop where
  count : s.outStreamCount = streams.length
  stage : ∀ f < s.cycle.frames, s.outStage f = s.cycle.frame f
  sent : s.sent = s.done.flatMap Cycle.moved ++ s.cycle.moved
  isOver : ∀ cy ∈ s.done, Over cy
  grouped : ∀ cy ∈ s.done ++ [s.cycle], Grouped streams cy
  distinct : ((s.done ++ [s.cycle]).map (·.sampleTime)).IsChain (· ≠ ·)

theorem Staged.grouped_cycle (hi : Staged streams s) : Grouped streams s.cycle :=
  hi.grouped s.cycle (List.mem_append_right _ (List.mem_singleton_self _))

/-- How much of the last cycle was moved is not in what it is. -/
theorem Staged.moved (hi : Staged streams s) (kept : ℕ) (cut : Bool) (hcount : t.outStreamCount = s.outStreamCount)
    (hstage : t.outStage = s.outStage) (hdone : t.done = s.done) (hcycle : t.cycle = { s.cycle with kept, cut })
    (hsent : t.sent = s.done.flatMap Cycle.moved ++ Cycle.moved { s.cycle with kept, cut }) : Staged streams t where
  count := hcount.trans hi.count
  stage := by
    rw [hcycle, hstage]
    exact hi.stage
  sent := by
    rw [hdone, hcycle]
    exact hsent
  isOver := by
    rw [hdone]
    exact hi.isOver
  grouped := by
    rw [hdone, hcycle]
    intro cy hcy
    rcases List.mem_append.1 hcy with hcy | hcy
    · exact hi.grouped cy (List.mem_append_left _ hcy)
    · have hlast := hi.grouped_cycle
      rw [List.mem_singleton.1 hcy]
      exact ⟨hlast.common, hlast.nodup, hlast.mem⟩
  distinct := by
    have hdistinct := hi.distinct
    rw [List.map_append] at hdistinct
    rw [hdone, hcycle, List.map_append]
    exact hdistinct

/-- Nor is anything of the slots, the ring and the phase. -/
theorem Staged.of_eq (hi : Staged streams s) (hcount : t.outStreamCount = s.outStreamCount)
    (hstage : t.outStage = s.outStage)
    (hdone : t.done = s.done) (hcycle : t.cycle = s.cycle) (hsent : t.sent = s.sent) : Staged streams t :=
  hi.moved s.cycle.kept s.cycle.cut hcount hstage hdone hcycle (hsent.trans hi.sent)

/-- The cycles hold the calls so far, but for the one that waits. -/
def Called (s : Playback) (waits : List OutputCall) : Prop :=
  s.calls = (s.done ++ [s.cycle]).flatMap (·.calls) ++ waits

/-- A stream contributes once. -/
theorem contribute_staged (hd : Disjoint streams) (hi : Staged streams s) (hkept : s.cycle.kept = 0) {call : OutputCall}
    (hcall : call.stream ∈ streams) (hcommon : call.sampleTime = s.cycle.sampleTime ∧ call.frames = s.cycle.frames)
    (hnew : call.stream ∉ s.cycle.calls.map (·.stream)) : Staged streams (s.contribute call) where
  count := hi.count
  stage := by
    intro f hf
    funext c
    have hframe := frame_contribute hd hcall hi.grouped_cycle.mem hnew f c
    refine Eq.trans ?_ hframe.symm
    have hlt : f < call.frames := hcommon.2 ▸ hf
    simp only [contribute, hlt, true_and]
    split_ifs
    · rfl
    · exact congrFun (hi.stage f hf) c
  sent := by
    rw [show (s.contribute call).sent = s.sent from rfl, hi.sent]
    simp [contribute, Cycle.moved, hkept]
  isOver := hi.isOver
  grouped := by
    intro cy hcy
    rcases List.mem_append.1 hcy with hcy | hcy
    · exact hi.grouped cy (List.mem_append_left _ hcy)
    · rw [List.mem_singleton.1 hcy]
      have hcycle := hi.grouped_cycle
      refine ⟨?_, ?_, ?_⟩
      · intro call' hcall'
        rcases List.mem_append.1 hcall' with hcall' | hcall'
        · exact hcycle.common call' hcall'
        · exact List.mem_singleton.1 hcall' ▸ hcommon
      · simp only [contribute, List.map_append, List.map_cons, List.map_nil]
        refine hcycle.nodup.append (List.nodup_singleton _) ?_
        simpa using hnew
      · intro st hst
        simp only [contribute, List.map_append, List.map_cons, List.map_nil] at hst
        rcases List.mem_append.1 hst with hst | hst
        · exact hcycle.mem st hst
        · exact List.mem_singleton.1 hst ▸ hcall
  distinct := by
    have h := hi.distinct
    rw [List.map_append] at h ⊢
    exact h

/-- A new cycle has no frame in the stage. -/
theorem clearStage_staged (hi : Staged streams s) (hover : Over s.cycle) {call : OutputCall}
    (hne : call.sampleTime ≠ s.cycle.sampleTime) : Staged streams (s.clearStage call) where
  count := hi.count
  stage := by
    intro f hf
    funext c
    exact if_pos hf
  sent := by
    rw [clearStage, List.flatMap_append, List.flatMap_singleton, ← hi.sent]
    exact (List.append_nil _).symm
  isOver := by
    intro cy hcy
    rcases List.mem_append.1 hcy with hcy | hcy
    · exact hi.isOver cy hcy
    · exact List.mem_singleton.1 hcy ▸ hover
  grouped := by
    intro cy hcy
    rcases List.mem_append.1 hcy with hcy | hcy
    · exact hi.grouped cy hcy
    · rw [List.mem_singleton.1 hcy]
      exact ⟨fun _ h => absurd h List.not_mem_nil, List.nodup_nil, fun _ h => absurd h List.not_mem_nil⟩
  distinct := by
    rw [clearStage, List.map_append, List.map_singleton, List.isChain_append]
    refine ⟨hi.distinct, List.isChain_singleton _, ?_⟩
    intro x hx y hy
    rw [List.map_append, List.map_singleton, List.getLast?_concat, Option.mem_some_iff] at hx
    rw [List.head?_cons, Option.mem_some_iff] at hy
    -- a new cycle begins with a sample time that is not the last one's
    rw [← hx, ← hy]
    exact hne.symm

theorem clearStage_called {call : OutputCall} {waits : List OutputCall} (hc : Called s waits) :
    Called (s.clearStage call) waits := by
  unfold Called at hc ⊢
  rw [show (s.clearStage call).calls = s.calls from rfl, hc]
  simp [clearStage]

/-- After a stream has contributed: the flush begins, or the next stream is awaited. -/
theorem contribute_phase (hcount : s.outStreamCount = streams.length) (hcycle : s.outCycle = s.cycle.sampleTime)
    (hframes : s.outFrames = s.cycle.frames) (hkept : s.cycle.kept = 0)
    (hseen : s.outStreamsSeen = s.cycle.calls.length)
    (call : OutputCall) : InPhase streams (s.contribute call) (s.contribute call).outPhase := by
  have hlen : (s.contribute call).cycle.calls.length = s.outStreamsSeen + 1 := by simp [contribute, hseen]
  by_cases hall : s.outStreamCount ≤ s.outStreamsSeen + 1
  · have hphase : (s.contribute call).outPhase = .flushing 0 none := if_pos hall
    rw [hphase]
    refine ⟨⟨fun _ => ⟨hframes, hkept⟩, fun hzero => .inl ?_⟩, ?_⟩
    · exact hkept.trans ((Nat.le_zero.1 hzero).symm.trans hframes)
    · unfold Waits
      rw [hlen, ← hcount]
      exact hall
  · have hphase : (s.contribute call).outPhase = .idle := if_neg hall
    rw [hphase]
    exact .waiting hcycle hframes hkept hlen.symm

theorem contribute_called {call : OutputCall} (hc : Called s [call]) :
    Called (s.contribute call) (pending (s.contribute call).outPhase) := by
  have hpending : pending (s.contribute call).outPhase = [] := by
    unfold contribute
    dsimp only
    split <;> rfl
  unfold Called at hc ⊢
  rw [hpending, show (s.contribute call).calls = s.calls from rfl, hc]
  simp [contribute]

/-- What the cycles were is what the calls brought, wherever the flush is. -/
structure Conserved (streams : List Stream) (s : Playback) : Prop where
  staged : Staged streams s
  called : Called s (pending s.outPhase)
  phase : InPhase streams s s.outPhase

theorem flushed_conserved (hd : Disjoint streams) (hi : Staged streams s) (hover : Over s.cycle)
    {call : Option OutputCall}
    (hc : Called s call.toList) (hw : Waits streams s call) : Conserved streams (s.flushed call) := by
  cases call with
  | none =>
    exact ⟨hi.of_eq rfl rfl rfl rfl rfl, hc, .handed rfl rfl hover (.inr hw)⟩
  | some call =>
    have hclear := clearStage_staged (s := { s with outFrames := 0 }) (hi.of_eq rfl rfl rfl rfl rfl) hover hw.2.2
    have hcleared : Called (clearStage { s with outFrames := 0 } call) [call] :=
      clearStage_called (s := { s with outFrames := 0 }) hc
    refine ⟨contribute_staged hd hclear rfl hw.1 ⟨rfl, rfl⟩ List.not_mem_nil, contribute_called hcleared, ?_⟩
    · exact contribute_phase (s := clearStage { s with outFrames := 0 } call) hi.count rfl rfl rfl rfl call

theorem moveFrame_conserved (hi : Conserved streams s) {f : ℕ} {call : Option OutputCall}
    (hphase : s.outPhase = .flushing f call) (hf : f < s.outFrames) (slot : Slot) (wrFrame : ℕ) :
    Conserved streams (s.moveFrame slot wrFrame f call) := by
  have hin := hi.phase
  have hcalled := hi.called
  rw [hphase] at hin hcalled
  obtain ⟨⟨hat, -⟩, hw⟩ := hin
  obtain ⟨hframes, hkept⟩ := hat hf
  have hlt : s.cycle.kept < s.cycle.frames := hkept ▸ hframes ▸ hf
  have hmoved : Cycle.moved { s.cycle with kept := s.cycle.kept + 1 } = s.cycle.moved ++ [s.outStage f] := by
    rw [hi.staged.stage f (hkept ▸ hlt), ← hkept]
    exact assembled_take_succ s.cycle hlt
  -- in either branch only the slot, the ring and the phase differ
  have hstaged (t : Playback) (ht : t = { s with
      play := t.play
      wrSlot := t.wrSlot
      wrFrame := wrFrame + 1
      outPhase := .flushing (f + 1) call
      sent := s.sent ++ [s.outStage f]
      cycle := { s.cycle with kept := s.cycle.kept + 1 } }) : Conserved streams t := by
    rw [ht]
    refine ⟨hi.staged.moved (s.cycle.kept + 1) s.cycle.cut rfl rfl rfl rfl ?_, ?_, ⟨?_, ?_⟩, ?_⟩
    · dsimp only
      rw [hmoved, hi.staged.sent, List.append_assoc]
    · unfold Called at hcalled ⊢
      rw [List.flatMap_append] at hcalled ⊢
      exact hcalled
    · exact fun _ => ⟨hframes, congrArg (· + 1) hkept⟩
    · exact fun hend => .inl (Nat.le_antisymm hlt (hframes ▸ hkept ▸ hend))
    · cases call with
      | none => exact hw
      | some call => exact hw
  unfold moveFrame
  dsimp only
  split
  · exact hstaged _ rfl
  · exact hstaged _ rfl

theorem flush_conserved (hd : Disjoint streams) (hi : Conserved streams s) (stale : Slot) {f : ℕ}
    {call : Option OutputCall} (hphase : s.outPhase = .flushing f call) : Conserved streams (s.flush stale f call) := by
  have hin := hi.phase
  have hcalled := hi.called
  rw [hphase] at hin hcalled
  have hstaged := hi.staged
  unfold flush
  split
  · rename_i hf
    split
    · exact moveFrame_conserved hi hphase hf _ _
    · split
      · exact moveFrame_conserved hi hphase hf _ _
      · have hcut : Staged streams { s with wrSlot := none, wrFrame := 0, cycle := { s.cycle with cut := true } } :=
          hstaged.moved s.cycle.kept true rfl rfl rfl rfl hstaged.sent
        refine flushed_conserved hd hcut (.inr rfl) ?_ ?_
        · unfold Called pending at *
          rw [List.flatMap_append] at hcalled ⊢
          exact hcalled
        · cases call with
          | none => exact hin.2
          | some call => exact hin.2
  · rename_i hf
    exact flushed_conserved hd hstaged (hin.1.2 (Nat.not_lt.1 hf)) hcalled hin.2

/-- A stream that has not contributed is missing from the cycle. -/
theorem calls_lt {cy : Cycle} (h : Grouped streams cy) {st : Stream} (hst : st ∈ streams)
    (hnew : st ∉ cy.calls.map (·.stream)) : cy.calls.length < streams.length := by
  by_contra hle
  have hperm := (List.subperm_of_subset h.nodup h.mem).perm_of_length_le (by simpa using hle)
  exact hnew (hperm.mem_iff.2 hst)

theorem call_conserved (hd : Disjoint streams) (hw : ∀ st ∈ streams, 0 < st.chan ∧ st.base < kMaxChannels)
    (hi : Conserved streams s) (hphase : s.outPhase = .idle) {call : OutputCall} (hok : Cyclic streams s (.call call)) :
    Conserved streams (({ s with calls := s.calls ++ [call] } : Playback).onWriteMixedOutput call) := by
  have hin := hi.phase
  have hcalled := hi.called
  rw [hphase] at hin hcalled
  have hstaged : Staged streams { s with calls := s.calls ++ [call] } := hi.staged.of_eq rfl rfl rfl rfl rfl
  have hc : Called { s with calls := s.calls ++ [call] } [call] := by
    unfold Called pending at *
    rw [List.append_nil] at hcalled
    exact congrArg (· ++ [call]) hcalled
  obtain ⟨hstream, htime, hsame⟩ := hok
  obtain ⟨hchan, hbase⟩ := hw _ hstream
  unfold onWriteMixedOutput
  rw [if_neg (by omega)]
  dsimp only
  cases hin with
  | handed hcycle hframes hover hall =>
    have hne : call.sampleTime ≠ s.outCycle := by
      rw [hcycle]
      linarith
    rw [if_pos hne]
    refine ⟨hstaged.of_eq rfl rfl rfl rfl rfl, hc, ?_⟩
    refine ⟨⟨fun hlt => absurd hlt (by simp [hframes]), fun _ => hover⟩, hstream, htime, ?_⟩
    -- a cycle of this sample time would have every stream already
    intro heq
    rcases hall with hneg | hall
    · exact absurd (heq ▸ htime) (not_le.2 hneg)
    · exact absurd (calls_lt hi.staged.grouped_cycle hstream (hsame heq).2) (Nat.not_lt.2 hall)
  | waiting hcycle hframes hkept hseen =>
    split
    · rename_i hne
      refine ⟨hstaged.of_eq rfl rfl rfl rfl rfl, hc, ?_⟩
      refine ⟨⟨fun _ => ⟨hframes, hkept⟩, fun hzero => .inl ?_⟩, hstream, htime, hcycle ▸ hne⟩
      exact hkept.trans ((Nat.le_zero.1 hzero).symm.trans hframes)
    · rename_i heq
      have heq : call.sampleTime = s.cycle.sampleTime := (not_not.1 heq).trans hcycle
      obtain ⟨hcommon, hnew⟩ := hsame heq
      exact ⟨contribute_staged hd hstaged hkept hstream ⟨heq, hcommon⟩ hnew, contribute_called hc,
        contribute_phase hstaged.count hcycle hframes hkept hseen call⟩

/-- The cycles have nothing of the other side. -/
theorem Conserved.consumer (hi : Conserved streams s) (play : SlotQueue) (txSrc : TxFill)
    (real : List ((ℕ × ℕ) × Frame)) (asked : ℕ) : Conserved streams { s with play, txSrc, real, asked } where
  staged := hi.staged.of_eq rfl rfl rfl rfl rfl
  called := hi.called
  phase := by
    have hin := hi.phase
    dsimp only
    revert hin
    cases s.outPhase with
    | idle =>
      intro hin
      cases hin with
      | handed hcycle hframes hover hall => exact .handed hcycle hframes hover hall
      | waiting hcycle hframes hkept hseen => exact .waiting hcycle hframes hkept hseen
    | flushing f call =>
      intro hin
      cases call with
      | none => exact hin
      | some call => exact hin

theorem step_conserved (hd : Disjoint streams) (hw : ∀ st ∈ streams, 0 < st.chan ∧ st.base < kMaxChannels)
    (s : Playback)
    (a : PlaybackAct) (t : Playback) (hi : Conserved streams s) (hok : Cyclic streams s a) (h : s.step a = some t) :
    Conserved streams t := by
  rcases step_cases h with ⟨call, rfl, hphase, rfl⟩ | ⟨stale, f, call, hphase, rfl⟩ | ht
  · exact call_conserved hd hw hi hphase hok
  · exact flush_conserved hd hi stale hphase
  · rw [ht]
    exact hi.consumer t.play t.txSrc t.real t.asked

theorem start_conserved (streams : List Stream) : Conserved streams (start streams.length) where
  staged := ⟨rfl, fun _ h => absurd h (Nat.not_lt_zero _), rfl, fun _ h => absurd h List.not_mem_nil,
    fun cy hcy => by
      rw [List.mem_singleton.1 hcy]
      exact ⟨fun _ h => absurd h List.not_mem_nil, List.nodup_nil, fun _ h => absurd h List.not_mem_nil⟩,
    List.isChain_singleton _⟩
  called := rfl
  phase := .handed rfl rfl (.inl rfl) (.inl (neg_one_lt_zero (R := ℚ)))

/-! ## What the daemon takes -/

/-- Every call of `frame` either took a frame or is counted as held. -/
def Counted (s : Playback) : Prop := ∃ held, s.asked = s.real.length + held ∧ s.txSrc.held = BitVec.ofNat 64 held

theorem frame_counted (hi : Counted s) : Counted { s with
    play := (s.txSrc.frame s.play).2
    txSrc := (s.txSrc.frame s.play).1
    real := TxFill.log s.real (s.txSrc.frame s.play).1 (s.txSrc.frame s.play).2
    asked := s.asked + 1 } := by
  obtain ⟨held, hasked, hheld⟩ := hi
  have hframe := s.txSrc.frame_held s.play
  by_cases hslot : (s.txSrc.frame s.play).1.slot.isSome
  · rw [if_pos hslot] at hframe
    refine ⟨held, ?_, hframe.trans hheld⟩
    rw [TxFill.log, if_pos hslot, List.length_append, List.length_singleton, hasked]
    dsimp only
    omega
  · rw [if_neg hslot] at hframe
    refine ⟨held + 1, ?_, ?_⟩
    · rw [TxFill.log, if_neg hslot, hasked]
      rfl
    · rw [hframe, hheld, BitVec.ofNat_add]
      rfl

/-- The plugin's steps have nothing of the daemon's counts. -/
theorem flush_counts (s : Playback) (stale : Slot) (f : ℕ) (call : Option OutputCall) :
    (s.flush stale f call).asked = s.asked ∧ (s.flush stale f call).real = s.real ∧
    (s.flush stale f call).txSrc = s.txSrc := by
  unfold flush moveFrame flushed
  dsimp only
  split
  · split
    · split <;> exact ⟨rfl, rfl, rfl⟩
    · split
      · split <;> exact ⟨rfl, rfl, rfl⟩
      · split <;> exact ⟨rfl, rfl, rfl⟩
  · split <;> exact ⟨rfl, rfl, rfl⟩

theorem onWriteMixedOutput_counts (s : Playback) (call : OutputCall) : (s.onWriteMixedOutput call).asked = s.asked ∧
    (s.onWriteMixedOutput call).real = s.real ∧ (s.onWriteMixedOutput call).txSrc = s.txSrc := by
  unfold onWriteMixedOutput
  split
  · exact ⟨rfl, rfl, rfl⟩
  · split <;> exact ⟨rfl, rfl, rfl⟩

theorem step_counted (s : Playback) (a : PlaybackAct) (t : Playback) (hi : Counted s) (h : s.step a = some t) :
    Counted t := by
  unfold step at h
  split at h
  · rename_i call hp
    cases h
    obtain ⟨hasked, hreal, htx⟩ := onWriteMixedOutput_counts { s with calls := s.calls ++ [call] } call
    unfold Counted
    rw [hasked, hreal, htx]
    exact hi
  · rename_i stale f call hp
    cases h
    obtain ⟨hasked, hreal, htx⟩ := s.flush_counts stale f call
    unfold Counted
    rw [hasked, hreal, htx]
    exact hi
  · cases h
    exact hi
  · cases h
    exact hi
  · cases h
    exact frame_counted hi
  · cases h

theorem numbered_frames (slots : List Slot) :
    (frames (numbered kMaxChannels) kFramesPerSlot slots.zipIdx).map Prod.snd =
    frames Slot.frame kFramesPerSlot slots := by
  have hpart (s : Slot × ℕ) : (part (numbered kMaxChannels) s kFramesPerSlot).map Prod.snd =
      part Slot.frame s.1 kFramesPerSlot := by
    unfold part
    rw [List.map_map]
    refine List.map_congr_left fun p _ => funext fun c => ?_
    exact if_pos c.2
  unfold frames
  rw [List.map_flatMap, funext hpart, ← List.flatMap_map Prod.fst fun s => part Slot.frame s kFramesPerSlot,
    List.zipIdx_map_fst]

/-- Once `TxFill` has come to the end of the ring, only the frames of the slot
being filled are not with it. -/
theorem Piped.drained (hi : s.Piped) (hslot : s.txSrc.slot = none) (hread : s.play.acquireRead = none) :
    s.sent = s.real.map Prod.snd ++ inHand Slot.frame s.wrSlot s.wrFrame := by
  have hreads := hi.reads
  unfold TxFill.Reads at hreads
  rw [hslot, hi.width] at hreads
  have hall : s.play.committed.zipIdx.take s.play.taken = s.play.committed.zipIdx := by
    refine List.take_of_length_le ?_
    rw [List.length_zipIdx]
    exact List.getElem?_eq_none_iff.1 hread
  rw [hreads.received, hall]
  simp only [Option.map_none, inHand, List.append_nil]
  rw [numbered_frames]
  exact hi.packed.sent

/-- For every run of cycles with any subset of the streams in any order, between any
moves of `TxFill`: it has taken the frames moved to the ring from the first on, each
once; these are the cycles' frames in order, but for the tails that a full ring cut
and what is not flushed of the last cycle; and the cycles are what the calls were.
A frame that was moved and not taken is in the ring or in the slot being filled. -/
theorem playback_path {streams : List Stream} (hd : Disjoint streams)
    (hw : ∀ st ∈ streams, 0 < st.chan ∧ st.base < kMaxChannels) {as : List PlaybackAct} {s : Playback}
    (hm : Meets step (Cyclic streams) (start streams.length) as) (h : run step (start streams.length) as = some s) :
    s.real.map Prod.snd <+: s.sent ∧ (s.real.map Prod.fst).Nodup ∧ Counted s ∧
      s.sent = (s.done ++ [s.cycle]).flatMap Cycle.moved ∧ (∀ cy ∈ s.done, cy.kept = cy.frames ∨ cy.cut = true) ∧
      (∀ cy ∈ s.done ++ [s.cycle], Grouped streams cy) ∧
      ((s.done ++ [s.cycle]).map (·.sampleTime)).IsChain (· ≠ ·) ∧
      s.calls = (s.done ++ [s.cycle]).flatMap (·.calls) ++ pending s.outPhase ∧
      (s.txSrc.slot = none → s.play.acquireRead = none →
        s.sent = s.real.map Prod.snd ++ inHand Slot.frame s.wrSlot s.wrFrame ∧
          ∀ slot, s.wrSlot = some slot → s.wrFrame < kFramesPerSlot) := by
  have hpiped := run_inv Piped step_piped h (start_piped _)
  have hconserved := hm.inv (Conserved streams) (step_conserved hd hw) h (start_conserved streams)
  have hcounted := run_inv Counted step_counted h ⟨0, rfl, rfl⟩
  have hreads := hpiped.reads
  unfold TxFill.Reads at hreads
  have hle := hreads.prefix_frames
  refine ⟨?_, ?_, hcounted, ?_, hconserved.staged.isOver, hconserved.staged.grouped, hconserved.staged.distinct,
    hconserved.called, fun hslot hread => ⟨hpiped.drained hslot hread, hpiped.packed.room⟩⟩
  · rw [hpiped.width] at hle
    have hsnd := hle.map Prod.snd
    rw [numbered_frames] at hsnd
    exact hsnd.trans hpiped.packed.frames_le
  · exact (hle.sublist.map Prod.fst).nodup (PacedFill.numbers_nodup _ _)
  · rw [List.flatMap_append, List.flatMap_singleton]
    exact hconserved.staged.sent

/-- Two cycles of a slot's length, of the second of two streams, and the first frame
taken. -/
def aSlot : List PlaybackAct :=
  .call ⟨⟨2, 1⟩, 0, fun f => BitVec.ofNat 32 f, 2048⟩ :: .flush ⟨0, 0, fun _ => 0⟩ ::
    .call ⟨⟨2, 1⟩, 512, fun f => BitVec.ofNat 32 f, 2048⟩ :: List.replicate 512 (.flush ⟨0, 0, fun _ => 0⟩) ++
      [.beginTick, .beginPacket, .frame]

theorem playback_path_slot : ∃ s, run step (start 2) aSlot = some s ∧ s.real.length = 1 ∧
    s.real.map Prod.snd <+: s.sent ∧ s.sent = (s.done ++ [s.cycle]).flatMap Cycle.moved := by
  have h : (run step (start 2) aSlot).map (·.real.length) = some 1 := by decide +kernel
  have hm : Meets step (Cyclic [⟨0, 2⟩, ⟨2, 1⟩]) (start 2) aSlot := by decide +kernel
  have hd : Disjoint [⟨0, 2⟩, ⟨2, 1⟩] := by
    intro a ha b hb hne c ⟨hac, hbc⟩
    unfold Stream.covers at hac hbc
    rcases List.mem_pair.1 ha with rfl | rfl
    · rcases List.mem_pair.1 hb with rfl | rfl
      · exact hne rfl
      · dsimp only at hac hbc
        omega
    · rcases List.mem_pair.1 hb with rfl | rfl
      · dsimp only at hac hbc
        omega
      · exact hne rfl
  obtain ⟨s, hrun, hreal⟩ := Option.map_eq_some_iff.1 h
  obtain ⟨hle, -, -, hsent, -⟩ := playback_path hd (by decide) hm hrun
  exact ⟨s, hrun, hreal, hle, hsent⟩

end Playback

end UserFace800.Audio
