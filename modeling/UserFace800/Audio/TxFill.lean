import UserFace800.Audio.SlotQueue
import UserFace800.Protocol.Registers
/-!
# What goes into a transmit packet

`TxFill` of `uf_tx_fill.hpp` against the playback ring, as the paced fill of the
pump calls it. `frame_reads` says what a call takes from the ring: the frame
after the last one taken, of the slot in hand or the next, or none. The two
things `restart_session` leaves as they were follow: a slot in hand is dropped
without being given back (`unrepeated`, `repeated_frame`), and the channel count
is still that of the first session (`carried`, `cut_off`).
-/
open UserFace800.Lib UserFace800.Lib.FrameQueue UserFace800.Protocol

namespace UserFace800.Audio

/-- `TxFill`: the slot in hand and the place in it, the last frame, the latches and the
counters. -/
structure TxFill where
  slot : Option Slot := none
  pos : ℕ := 0
  channels : ℕ
  held : BitVec 64 := 0
  heldRun : BitVec 32 := 0
  dryPacket : Bool := false
  dryTick : Bool := false
  last : Frame := fun _ => 0

namespace TxFill

/-- `TxFill(channels)`. -/
def new (channels : ℕ) : TxFill where
  channels := min channels kMaxChannels

/-- The tick's latch is open again. -/
def beginTick (x : TxFill) : TxFill := { x with dryTick := false }

/-- The packet's latch is open again. -/
def beginPacket (x : TxFill) : TxFill := { x with dryPacket := false }

/-- A slot read to its end is given back. -/
def giveBack (x : TxFill) (play : SlotQueue) : TxFill × SlotQueue :=
  match x.slot with
  | some slot => if slot.frameCount.toNat ≤ x.pos then ({ x with slot := none }, play.commitRead) else (x, play)
  | none => (x, play)

/-- The one attempt of a packet to acquire the next. -/
def acquire (x : TxFill) (play : SlotQueue) : TxFill :=
  if x.slot.isNone && !x.dryPacket then
    match play.acquireRead with
    | some slot => { x with slot := some slot, pos := 0 }
    | none => { x with pos := 0, dryPacket := true, dryTick := true }
  else x

/-- The frame of the slot in hand, or the last one once more, decaying. -/
def emit (x : TxFill) : TxFill :=
  match x.slot with
  | some slot =>
    let nsrc := if slot.channelCount ≠ 0 then slot.channelCount.toNat else x.channels
    { x with
      last := fun c =>
        if c.1 < x.channels then if c.1 < nsrc then slot.sample (x.pos * nsrc + c) else 0 else x.last c
      pos := x.pos + 1
      heldRun := 0 }
  | none =>
    { x with
      last := fun c =>
        if x.heldRun ≠ 0 ∧ c.1 < x.channels then x.last c - (x.last c).sshiftRight 8 else x.last c
      heldRun := x.heldRun + 1
      held := x.held + 1 }

/-- `frame`: the samples are in `last`. -/
def frame (x : TxFill) (play : SlotQueue) : TxFill × SlotQueue :=
  let (x, play) := x.giveBack play
  ((x.acquire play).emit, play)

/-- The slot in hand is forgotten, not given back. -/
def reset (x : TxFill) : TxFill := { x with slot := none, pos := 0, dryPacket := false, dryTick := false }

end TxFill

/-! ## What a call takes from the ring -/

/-- A slot as the plugin commits it. -/
def Slot.Full (s : Slot) : Prop :=
  s.frameCount = BitVec.ofNat 32 kFramesPerSlot ∧ s.channelCount = BitVec.ofNat 32 kMaxChannels

/-- Frame `p` of slot number `k`, in its first `channels` channels. -/
def numbered (channels : ℕ) (s : Slot × ℕ) (p : ℕ) : (ℕ × ℕ) × Frame :=
  ((s.2, p), fun c => if c.1 < channels then s.1.frame p c else 0)

namespace TxFill

/-- A frame taken from the ring is logged with its slot and its place there. -/
def log (real : List ((ℕ × ℕ) × Frame)) (x : TxFill) (play : SlotQueue) : List ((ℕ × ℕ) × Frame) :=
  if x.slot.isSome then real ++ [((play.taken, x.pos - 1), x.last)] else real

/-- The slot in hand is the next one to give back, and the channels past the last
are silent. -/
structure Sane (x : TxFill) (play : SlotQueue) : Prop where
  full : ∀ s ∈ play.committed, s.Full
  silent : ∀ c, x.channels ≤ c.1 → x.last c = 0
  inHand : ∀ s, x.slot = some s → play.committed[play.taken]? = some s ∧ x.pos ≤ kFramesPerSlot

/-- The frames taken are those before the position in the ring. -/
def Reads (x : TxFill) (play : SlotQueue) (real : List ((ℕ × ℕ) × Frame)) : Prop :=
  Unpacked (numbered x.channels) kFramesPerSlot play.committed.zipIdx play.taken (x.slot.map (·, play.taken)) x.pos real

variable {x : TxFill} {play : SlotQueue} {real : List ((ℕ × ℕ) × Frame)}

theorem new_sane (channels : ℕ) : (new channels).Sane {} where
  full := fun _ hs => absurd hs List.not_mem_nil
  silent := fun _ _ => rfl
  inHand := fun _ h => nomatch h

theorem new_reads (channels : ℕ) : (new channels).Reads {} [] := Unpacked.init _ _

theorem Sane.commitWrite (h : x.Sane play) {s : Slot} (hs : s.Full) : x.Sane (play.commitWrite s) where
  full := by
    intro s' hs'
    rcases List.mem_append.1 hs' with hs' | hs'
    · exact h.full s' hs'
    · exact List.mem_singleton.1 hs' ▸ hs
  silent := h.silent
  inHand := by
    intro s' hs'
    obtain ⟨hget, hpos⟩ := h.inHand s' hs'
    refine ⟨?_, hpos⟩
    rw [← hget]
    exact List.getElem?_append_left (List.getElem?_eq_some_iff.1 hget).1

theorem Reads.commitWrite (h : x.Reads play real) (s : Slot) : x.Reads (play.commitWrite s) real := by
  have happ := Unpacked.append h [(s, play.committed.length)]
  have hzip : play.committed.zipIdx ++ [(s, play.committed.length)] = (play.committed ++ [s]).zipIdx := by
    simp [List.zipIdx_append]
  rwa [hzip] at happ

theorem Sane.slot_full (h : x.Sane play) {s : Slot} (hs : x.slot = some s) : s.Full :=
  h.full s (List.mem_of_getElem? (h.inHand s hs).1)

theorem kFramesPerSlot_toNat : (BitVec.ofNat 32 kFramesPerSlot).toNat = kFramesPerSlot := rfl

/-- After `giveBack` a slot in hand has a frame left. -/
theorem giveBack_sane (h : x.Sane play) : (x.giveBack play).1.Sane (x.giveBack play).2 ∧
    ∀ s, (x.giveBack play).1.slot = some s → (x.giveBack play).1.pos < kFramesPerSlot := by
  unfold giveBack
  split
  · rename_i slot hs
    rw [(h.slot_full hs).1, kFramesPerSlot_toNat]
    split
    · exact ⟨⟨h.full, h.silent, fun _ hs => nomatch hs⟩, fun _ hs => nomatch hs⟩
    · rename_i hmore
      exact ⟨h, fun _ _ => Nat.not_le.1 hmore⟩
  · rename_i hs
    exact ⟨h, fun s hs' => by rw [hs] at hs'; cases hs'⟩

theorem giveBack_reads (h : x.Sane play) (hr : x.Reads play real) :
    (x.giveBack play).1.Reads (x.giveBack play).2 real := by
  unfold giveBack
  split
  · rename_i slot hs
    rw [(h.slot_full hs).1, kFramesPerSlot_toNat]
    unfold Reads at hr
    rw [hs] at hr
    split
    · rename_i hend
      exact hr.release hend x.pos
    · unfold Reads
      rw [hs]
      exact hr
  · exact hr

theorem acquire_sane (h : x.Sane play) (hpos : ∀ s, x.slot = some s → x.pos < kFramesPerSlot) :
    (x.acquire play).Sane play ∧ ∀ s, (x.acquire play).slot = some s → (x.acquire play).pos < kFramesPerSlot := by
  unfold acquire
  split
  · rename_i hnone
    simp only [Bool.and_eq_true, Option.isNone_iff_eq_none] at hnone
    split
    · rename_i slot hslot
      refine ⟨⟨h.full, h.silent, fun s hs => ⟨?_, Nat.zero_le _⟩⟩, fun _ _ => Nat.zero_lt_succ _⟩
      exact Option.some.inj hs ▸ hslot
    · refine ⟨⟨h.full, h.silent, fun s hs => ?_⟩, fun s hs => ?_⟩
      · exact absurd (hnone.1.symm.trans hs) (Option.some_ne_none s).symm
      · exact absurd (hnone.1.symm.trans hs) (Option.some_ne_none s).symm
  · exact ⟨h, hpos⟩

theorem acquire_reads (hr : x.Reads play real) : (x.acquire play).Reads play real := by
  unfold acquire
  split
  · rename_i hnone
    simp only [Bool.and_eq_true, Option.isNone_iff_eq_none] at hnone
    unfold Reads at hr ⊢
    rw [hnone.1] at hr
    split
    · rename_i slot hslot
      have hget : play.committed.zipIdx[play.taken]? = some (slot, play.taken) := by
        rw [List.getElem?_zipIdx, show play.committed[play.taken]? = some slot from hslot]
        simp
      exact hr.acquire hget
    · dsimp only
      rw [hnone.1]
      exact hr.dry 0
  · exact hr

/-- The samples of a full slot, as the consumer indexes them. -/
theorem emit_last (h : x.Sane play) {s : Slot} (hs : x.slot = some s) :
    x.emit.last = (numbered x.channels (s, play.taken) x.pos).2 := by
  obtain ⟨-, hchannels⟩ := h.slot_full hs
  funext c
  have hne : s.channelCount ≠ 0 := by
    rw [hchannels]
    decide
  have hnsrc : s.channelCount.toNat = kMaxChannels := by
    rw [hchannels]
    rfl
  simp only [emit, hs, if_pos hne, hnsrc, numbered]
  split
  · rw [if_pos c.2]
    rfl
  · rename_i hc
    exact h.silent c (Nat.not_lt.1 hc)

theorem emit_some {s : Slot} (hs : x.slot = some s) :
    x.emit.slot = some s ∧ x.emit.pos = x.pos + 1 ∧ x.emit.channels = x.channels := by
  unfold emit
  rw [hs]
  exact ⟨rfl, rfl, rfl⟩

theorem emit_none (hs : x.slot = none) : x.emit.slot = none ∧ x.emit.pos = x.pos ∧ x.emit.channels = x.channels := by
  unfold emit
  rw [hs]
  exact ⟨rfl, rfl, rfl⟩

theorem emit_channels (x : TxFill) : x.emit.channels = x.channels := by
  unfold emit
  split <;> rfl

/-- A held frame is silent where the last real one was. -/
theorem emit_held (hs : x.slot = none) {c : Fin kMaxChannels} (hc : x.channels ≤ c.1) : x.emit.last c = x.last c := by
  unfold emit
  rw [hs]
  exact if_neg fun h => absurd h.2 (Nat.not_lt.2 hc)

theorem emit_sane (h : x.Sane play) (hpos : ∀ s, x.slot = some s → x.pos < kFramesPerSlot) : x.emit.Sane play where
  full := h.full
  silent := by
    rw [emit_channels]
    intro c hc
    cases hs : x.slot with
    | some s =>
      rw [emit_last h hs]
      exact if_neg (Nat.not_lt.2 hc)
    | none =>
      rw [emit_held hs hc]
      exact h.silent c hc
  inHand := by
    intro s hs'
    cases hs : x.slot with
    | some s₀ =>
      obtain ⟨hslot, hp, -⟩ := emit_some hs
      rw [hslot] at hs'
      rw [hp]
      exact ⟨(h.inHand s (hs.trans hs')).1, hpos s₀ hs⟩
    | none =>
      rw [(emit_none hs).1] at hs'
      cases hs'

theorem emit_reads (h : x.Sane play) (hpos : ∀ s, x.slot = some s → x.pos < kFramesPerSlot) (hr : x.Reads play real) :
    x.emit.Reads play (log real x.emit play) := by
  unfold Reads at hr ⊢
  unfold log
  cases hs : x.slot with
  | some s =>
    obtain ⟨hslot, hp, hch⟩ := emit_some hs
    rw [hs] at hr
    rw [hslot, hp, hch, emit_last h hs]
    exact hr.read (hpos s hs)
  | none =>
    obtain ⟨hslot, hp, hch⟩ := emit_none hs
    rw [hs] at hr
    rw [hslot, hp, hch]
    exact hr

theorem frame_sane (h : x.Sane play) : (x.frame play).1.Sane (x.frame play).2 := by
  obtain ⟨hback, hpos⟩ := giveBack_sane h
  obtain ⟨hacquire, hpos⟩ := acquire_sane hback hpos
  exact emit_sane hacquire hpos

/-- A call takes the frame after the last one taken, or none. -/
theorem frame_reads (h : x.Sane play) (hr : x.Reads play real) :
    (x.frame play).1.Reads (x.frame play).2 (log real (x.frame play).1 (x.frame play).2) := by
  obtain ⟨hback, hpos⟩ := giveBack_sane h
  obtain ⟨hacquire, hpos⟩ := acquire_sane hback hpos
  exact emit_reads hacquire hpos (acquire_reads (giveBack_reads h hr))

/-- Before it emits, a call changes the slot, the place in it and the dry flags only. -/
theorem giveBack_keeps (x : TxFill) (play : SlotQueue) :
    (x.giveBack play).1 = { x with slot := (x.giveBack play).1.slot } := by
  unfold giveBack
  split
  · split <;> rfl
  · rfl

theorem acquire_keeps (x : TxFill) (play : SlotQueue) : x.acquire play = { x with
    slot := (x.acquire play).slot
    pos := (x.acquire play).pos
    dryPacket := (x.acquire play).dryPacket
    dryTick := (x.acquire play).dryTick } := by
  unfold acquire
  split
  · split <;> rfl
  · rfl

theorem frame_channels (x : TxFill) (play : SlotQueue) : (x.frame play).1.channels = x.channels := by
  have hback := congrArg TxFill.channels (x.giveBack_keeps play)
  have hacquire := congrArg TxFill.channels ((x.giveBack play).1.acquire_keeps (x.giveBack play).2)
  exact ((emit_channels _).trans hacquire).trans hback

/-- A call counts as held exactly if nothing was taken. -/
theorem frame_held (x : TxFill) (play : SlotQueue) :
    (x.frame play).1.held = if (x.frame play).1.slot.isSome then x.held else x.held + 1 := by
  have hback := congrArg TxFill.held (x.giveBack_keeps play)
  have hacquire := congrArg TxFill.held ((x.giveBack play).1.acquire_keeps (x.giveBack play).2)
  have hemit (y : TxFill) : y.emit.held = if y.emit.slot.isSome then y.held else y.held + 1 := by
    cases hs : y.slot with
    | some s => simp [emit, hs]
    | none => simp [emit, hs]
  have hframe := hemit ((x.giveBack play).1.acquire (x.giveBack play).2)
  rw [hacquire.trans hback] at hframe
  exact hframe

/-- What a call that finds a slot returns. -/
theorem frame_last (h : x.Sane play) {s : Slot} (hs : (x.frame play).1.slot = some s) :
    (x.frame play).1.last = (numbered x.channels (s, (x.frame play).2.taken) ((x.frame play).1.pos - 1)).2 := by
  obtain ⟨hback, hpos⟩ := giveBack_sane h
  obtain ⟨hacquire, -⟩ := acquire_sane hback hpos
  have hch := (emit_channels ((x.giveBack play).1.acquire (x.giveBack play).2)).symm.trans (x.frame_channels play)
  cases hslot : ((x.giveBack play).1.acquire (x.giveBack play).2).slot with
  | some s' =>
    obtain ⟨hsame, hp, -⟩ := emit_some hslot
    have he : s' = s := Option.some.inj (hsame.symm.trans hs)
    have hlast := emit_last hacquire hslot
    rw [hch, he] at hlast
    rw [show (x.frame play).1.pos = _ from hp, Nat.add_sub_cancel]
    exact hlast
  | none => exact absurd ((emit_none hslot).1.symm.trans hs) (Option.some_ne_none s).symm

end TxFill

/-! ## Across session restarts -/

/-- `encode_sample`. -/
def encodeSample (sample24 : BitVec 32) : Quadlet := sample24 <<< 8

/-- A frame of the ring as it was transmitted: its slot and place there, the
session's channel count and the quadlets. -/
structure Transmitted where
  slot : Slot
  pos : ℕ
  dbq : ℕ
  quadlets : List Quadlet

/-- The paced fill and the plugin. `real` and `wire` are not in the source: the
frames taken from the ring, and what became of them. -/
structure PacedFill where
  play : SlotQueue := {}
  txSrc : TxFill
  dbq : ℕ
  real : List ((ℕ × ℕ) × Frame) := []
  wire : List Transmitted := []

/-- The plugin's commits, the pump's calls, and a restarted session. -/
inductive FillAct where
  /-- The plugin commits a slot. -/
  | commit (audio : Fin (kFramesPerSlot * kMaxChannels) → BitVec 32)
  | beginTick
  | beginPacket
  | frame
  /-- `restart_session` has succeeded. -/
  | restart (rate : Quadlet)

namespace PacedFill

/-- A session at `rate`. -/
def start (rate : Quadlet) : PacedFill where
  txSrc := TxFill.new (dataBlockQuadlets (speedForRate rate))
  dbq := dataBlockQuadlets (speedForRate rate)

/-- A frame into the packet. -/
def encode (x : Frame) (dbq : ℕ) : List Quadlet :=
  (List.range dbq).map fun c => encodeSample ((if h : c < kMaxChannels then x ⟨c, h⟩ else 0).sshiftRight 8)

/-- A call of `frame`; what it reads is kept in the history. -/
def frame (s : PacedFill) : PacedFill :=
  let (x, play) := s.txSrc.frame s.play
  { s with
    play
    txSrc := x
    real := TxFill.log s.real x play
    wire := match x.slot with
      | some slot => s.wire ++ [⟨slot, x.pos - 1, s.dbq, encode x.last s.dbq⟩]
      | none => s.wire }

/-- The plugin commits full slots only. -/
def step (s : PacedFill) : FillAct → Option PacedFill
  | .commit audio =>
    if s.play.acquireWrite then
      some { s with play := s.play.commitWrite ⟨BitVec.ofNat 32 kFramesPerSlot, BitVec.ofNat 32 kMaxChannels, audio⟩ }
    else none
  | .beginTick => some { s with txSrc := s.txSrc.beginTick }
  | .beginPacket => some { s with txSrc := s.txSrc.beginPacket }
  | .frame => some s.frame
  | .restart rate =>
    if isSupportedRate rate then
      some { s with txSrc := s.txSrc.reset, dbq := dataBlockQuadlets (speedForRate rate) }
    else none

variable {s t : PacedFill}

/-! ### No frame twice -/

/-- A restart finds every slot taken given back. -/
def GivenBack (s : PacedFill) : FillAct → Prop
  | .restart _ => s.txSrc.slot.isNone = true
  | _ => True

instance (s : PacedFill) : ∀ a, Decidable (s.GivenBack a)
  | .restart _ => inferInstanceAs (Decidable (_ = true))
  | .commit _ | .beginTick | .beginPacket | .frame => .isTrue trivial

/-- The frames of the slots committed, in order. -/
def committedFrames (s : PacedFill) : List ((ℕ × ℕ) × Frame) :=
  frames (numbered s.txSrc.channels) kFramesPerSlot s.play.committed.zipIdx

theorem slot_full (audio : Fin (kFramesPerSlot * kMaxChannels) → BitVec 32) :
    Slot.Full ⟨BitVec.ofNat 32 kFramesPerSlot, BitVec.ofNat 32 kMaxChannels, audio⟩ := ⟨rfl, rfl⟩

theorem step_sane (s : PacedFill) (a : FillAct) (t : PacedFill) (hi : s.txSrc.Sane s.play) (h : s.step a = some t) :
    t.txSrc.Sane t.play := by
  cases a with
  | commit audio =>
    simp only [step] at h
    split at h
    · cases h
      exact hi.commitWrite (slot_full audio)
    · cases h
  | beginTick | beginPacket =>
    cases h
    exact ⟨hi.full, hi.silent, hi.inHand⟩
  | frame =>
    cases h
    exact TxFill.frame_sane hi
  | restart rate =>
    simp only [step] at h
    split at h
    · cases h
      exact ⟨hi.full, hi.silent, fun _ hs => nomatch hs⟩
    · cases h

theorem step_reads (s : PacedFill) (a : FillAct) (t : PacedFill)
    (hi : s.txSrc.Sane s.play ∧ s.txSrc.Reads s.play s.real) (hok : s.GivenBack a) (h : s.step a = some t) :
    t.txSrc.Sane t.play ∧ t.txSrc.Reads t.play t.real := by
  refine ⟨step_sane s a t hi.1 h, ?_⟩
  cases a with
  | commit audio =>
    simp only [step] at h
    split at h
    · cases h
      exact hi.2.commitWrite _
    · cases h
  | beginTick | beginPacket =>
    cases h
    exact hi.2
  | frame =>
    cases h
    exact TxFill.frame_reads hi.1 hi.2
  | restart rate =>
    simp only [step] at h
    split at h
    · cases h
      have hr := hi.2
      unfold TxFill.Reads at hr
      rw [Option.isNone_iff_eq_none.1 hok] at hr
      exact hr.dry 0
    · cases h

/-- No two frames of the slots have one number. -/
theorem numbers_nodup (channels : ℕ) (slots : List Slot) :
    ((frames (numbered channels) kFramesPerSlot slots.zipIdx).map Prod.fst).Nodup := by
  have hpart (s : Slot × ℕ) : (part (numbered channels) s kFramesPerSlot).map Prod.fst =
      (List.range kFramesPerSlot).map (Prod.mk s.2) := by
    simp [part, numbered, Function.comp_def]
  have hproduct : (frames (numbered channels) kFramesPerSlot slots.zipIdx).map Prod.fst =
      List.product (List.range slots.length) (List.range kFramesPerSlot) := by
    unfold frames List.product
    rw [List.map_flatMap, List.range_eq_range' (n := slots.length), ← List.zipIdx_map_snd 0 slots, List.flatMap_map]
    exact congrArg (fun f => List.flatMap f slots.zipIdx) (funext hpart)
  rw [hproduct]
  exact List.Nodup.product List.nodup_range List.nodup_range

end PacedFill

/-- From the start at any rate, in a run in which every restart finds the slot in
hand given back: the frames taken from the ring are the first of those the plugin
committed, with their samples, and none of them is taken twice. -/
theorem unrepeated (rate : Quadlet) {as : List FillAct} {s : PacedFill}
    (hm : Meets PacedFill.step PacedFill.GivenBack (PacedFill.start rate) as)
    (h : run PacedFill.step (PacedFill.start rate) as = some s) :
    s.real <+: s.committedFrames ∧ (s.real.map Prod.fst).Nodup := by
  have hi := hm.inv (fun s => s.txSrc.Sane s.play ∧ s.txSrc.Reads s.play s.real) PacedFill.step_reads h
    ⟨TxFill.new_sane _, TxFill.new_reads _⟩
  have hle := hi.2.prefix_frames
  exact ⟨hle, (hle.sublist.map Prod.fst).nodup (PacedFill.numbers_nodup _ _)⟩

/-- A slot is committed and its first frame transmitted. -/
def playing : List FillAct := [.commit fun _ => 0, .beginTick, .beginPacket, .frame]

theorem unrepeated_frame : ∃ s, run PacedFill.step (PacedFill.start 48000) (.restart 44100 :: playing) = some s ∧
    s.real.length = 1 ∧ (s.real.map Prod.fst).Nodup := by
  have h : (run PacedFill.step (PacedFill.start 48000) (.restart 44100 :: playing)).map (·.real.length) = some 1 := by
    decide +kernel
  have hm : Meets PacedFill.step PacedFill.GivenBack (PacedFill.start 48000) (.restart 44100 :: playing) := by
    decide +kernel
  obtain ⟨s, hrun, hreal⟩ := Option.map_eq_some_iff.1 h
  exact ⟨s, hrun, hreal, (unrepeated 48000 hm hrun).2⟩

/-- The session restarts with the slot in hand, and its first frame is transmitted
once more. -/
theorem repeated_frame : ∃ s,
    run PacedFill.step (PacedFill.start 48000)
      (playing ++ [.restart 44100, .beginTick, .beginPacket, .frame]) = some s ∧
      s.real.map Prod.fst = [(0, 0), (0, 0)] ∧ ¬ (s.real.map Prod.fst).Nodup := by
  have h : (run PacedFill.step (PacedFill.start 48000)
      (playing ++ [.restart 44100, .beginTick, .beginPacket, .frame])).map (·.real.map Prod.fst) =
      some [(0, 0), (0, 0)] := by decide +kernel
  obtain ⟨s, hrun, hreal⟩ := Option.map_eq_some_iff.1 h
  refine ⟨s, hrun, hreal, ?_⟩
  rw [hreal]
  decide

/-! ### The channels of the session -/

theorem dataBlockQuadlets_le (speed : Speed) : dataBlockQuadlets speed ≤ kMaxChannels := by
  cases speed <;> decide

namespace PacedFill

/-- Of the channels of a session the source carries the first `channels`. -/
structure Carries (channels : ℕ) (s : PacedFill) : Prop where
  sane : s.txSrc.Sane s.play
  width : s.txSrc.channels = channels
  dbq : s.dbq ≤ kMaxChannels
  wire : ∀ e ∈ s.wire, e.dbq ≤ kMaxChannels ∧ e.quadlets = encode (numbered channels (e.slot, 0) e.pos).2 e.dbq

variable {channels : ℕ}

theorem start_carries (rate : Quadlet) : (start rate).Carries (dataBlockQuadlets (speedForRate rate)) where
  sane := TxFill.new_sane _
  width := Nat.min_eq_left (dataBlockQuadlets_le _)
  dbq := dataBlockQuadlets_le _
  wire := fun _ he => absurd he List.not_mem_nil

theorem frame_carries {s : PacedFill} (hi : s.Carries channels) : s.frame.Carries channels where
  sane := TxFill.frame_sane hi.sane
  width := (s.txSrc.frame_channels s.play).trans hi.width
  dbq := hi.dbq
  wire := by
    intro e he
    simp only [frame] at he
    split at he
    · rename_i slot hslot
      rcases List.mem_append.1 he with he | he
      · exact hi.wire e he
      · rw [List.mem_singleton] at he
        subst he
        have hlast := TxFill.frame_last hi.sane hslot
        rw [hi.width] at hlast
        exact ⟨hi.dbq, congrArg (encode · s.dbq) hlast⟩
    · exact hi.wire e he

theorem step_carries (s : PacedFill) (a : FillAct) (t : PacedFill) (hi : s.Carries channels) (h : s.step a = some t) :
    t.Carries channels := by
  have hsane := step_sane s a t hi.sane h
  cases a with
  | commit audio =>
    simp only [step] at h
    split at h
    · cases h
      exact { hi with sane := hsane }
    · cases h
  | beginTick | beginPacket =>
    cases h
    exact { hi with sane := hsane }
  | frame =>
    cases h
    exact frame_carries hi
  | restart rate =>
    simp only [step] at h
    split at h
    · cases h
      exact { hi with sane := hsane, dbq := dataBlockQuadlets_le _ }
    · cases h

theorem encode_get (x : Frame) {dbq : ℕ} (c : Fin kMaxChannels) (hc : c.1 < dbq) :
    (encode x dbq)[c.1]? = some (encodeSample ((x c).sshiftRight 8)) := by
  have hrange : (List.range dbq)[c.1]? = some c.1 := by simp [hc]
  simp only [encode, List.getElem?_map, hrange, Option.map_some, dif_pos c.2]

end PacedFill

theorem encodeSample_zero : encodeSample ((0 : BitVec 32).sshiftRight 8) = 0 := by decide

/-- From the start at any rate, through restarts at any supported rates: a frame
of the ring is transmitted with the slot's samples in all channels of its session
exactly if it has nothing to say in those the first session did not have. -/
theorem carried (rate : Quadlet) {as : List FillAct} {s : PacedFill}
    (h : run PacedFill.step (PacedFill.start rate) as = some s) : ∀ e ∈ s.wire,
    (∀ c : Fin kMaxChannels, c.1 < e.dbq →
      e.quadlets[c.1]? = some (encodeSample ((e.slot.frame e.pos c).sshiftRight 8))) ↔
      ∀ c : Fin kMaxChannels, dataBlockQuadlets (speedForRate rate) ≤ c.1 → c.1 < e.dbq →
        encodeSample ((e.slot.frame e.pos c).sshiftRight 8) = 0 := by
  intro e he
  have hi := run_inv (PacedFill.Carries (dataBlockQuadlets (speedForRate rate))) PacedFill.step_carries h
    (PacedFill.start_carries rate)
  obtain ⟨-, hwire⟩ := hi.wire e he
  have hget (c : Fin kMaxChannels) (hc : c.1 < e.dbq) : e.quadlets[c.1]? = some
      (encodeSample
        ((if c.1 < dataBlockQuadlets (speedForRate rate) then e.slot.frame e.pos c else 0).sshiftRight 8)) := by
    rw [hwire, PacedFill.encode_get _ c hc]
    rfl
  constructor
  · intro hall c hge hc
    have hsame := (hget c hc).symm.trans (hall c hc)
    rw [if_neg (Nat.not_lt.2 hge), encodeSample_zero] at hsame
    exact (Option.some.inj hsame).symm
  · intro hzero c hc
    rw [hget c hc]
    split
    · rfl
    · rename_i hge
      rw [encodeSample_zero, hzero c (Nat.not_lt.1 hge) hc]

/-- One frame at −6 dBFS in every channel. -/
def tone : Fin (kFramesPerSlot * kMaxChannels) → BitVec 32 := fun _ => 0x40000000

/-- The daemon starts at 48 kHz and plays at 96. -/
theorem carried_narrower : ∃ s, run PacedFill.step (PacedFill.start 48000)
      [.restart 96000, .commit tone, .beginTick, .beginPacket, .frame] = some s ∧
    s.wire.map (·.dbq) = [20] ∧ ∀ e ∈ s.wire, ∀ c : Fin kMaxChannels, c.1 < e.dbq →
      e.quadlets[c.1]? = some (encodeSample ((e.slot.frame e.pos c).sshiftRight 8)) := by
  have h : (run PacedFill.step (PacedFill.start 48000)
      [.restart 96000, .commit tone, .beginTick, .beginPacket, .frame]).map (·.wire.map (·.dbq)) = some [20] := by
    decide +kernel
  obtain ⟨s, hrun, hdbq⟩ := Option.map_eq_some_iff.1 h
  refine ⟨s, hrun, hdbq, fun e he => (carried 48000 hrun e he).2 fun c hge hc => ?_⟩
  have hmem : e.dbq ∈ s.wire.map (·.dbq) := List.mem_map_of_mem he
  rw [hdbq, List.mem_singleton] at hmem
  rw [hmem] at hc
  exact absurd (hge.trans_lt hc) (by decide)

/-- The daemon starts at 96 kHz and plays at 48: the last channel is silent. -/
theorem cut_off : ∃ s, run PacedFill.step (PacedFill.start 96000)
      [.restart 48000, .commit tone, .beginTick, .beginPacket, .frame] = some s ∧
    ∃ e ∈ s.wire, e.dbq = 28 ∧ e.quadlets[27]? = some 0 ∧
      encodeSample ((e.slot.frame e.pos ⟨27, by decide⟩).sshiftRight 8) = 0x40000000 := by
  have h : (run PacedFill.step (PacedFill.start 96000)
      [.restart 48000, .commit tone, .beginTick, .beginPacket, .frame]).map (fun s => s.wire.map fun e =>
        (e.dbq, e.quadlets[27]?, encodeSample ((e.slot.frame e.pos ⟨27, by decide⟩).sshiftRight 8))) =
      some [(28, some 0, 0x40000000)] := by decide +kernel
  obtain ⟨s, hrun, hs⟩ := Option.map_eq_some_iff.1 h
  obtain ⟨e, he, heq⟩ := List.mem_map.1 (hs ▸ List.mem_singleton_self _)
  simp only [Prod.mk.injEq] at heq
  exact ⟨s, hrun, e, he, heq⟩

end UserFace800.Audio
