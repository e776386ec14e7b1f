import UserFace800.Audio.CapturePath
/-!
# The input meters

The pump meters a frame where it has a slot for it, or where a WAV capture runs, and
counts it in `deviceFrames` either way. With the ring full, as it is while no client
reads it, and no capture running the meters stand still. `meters_cover` says that the
meters of an interval between two readings are those of its frames exactly if this never
happens in it, whatever the plugin does. The sums of squares, which are doubles, are
left out.
-/
open UserFace800.Lib UserFace800.Protocol

namespace UserFace800.Audio

/-- The magnitude of a sample: negated as 64 bits, so that the lowest one has one. -/
def magnitude (s : BitVec 32) : BitVec 32 := if s.toInt < 0 then BitVec.ofInt 32 (-s.toInt) else s

/-- `MeterBank`, less the sums of squares, which are floating point. -/
structure MeterBank where
  peak : Fin kMaxChannels → BitVec 32 := fun _ => 0
  frames : BitVec 32 := 0

namespace MeterBank

/-- A frame's first `n` channels count for the peaks. -/
def addFrame (m : MeterBank) (samples : Frame) (n : ℕ) : MeterBank where
  peak := fun i =>
    if i.1 < min n kMaxChannels ∧ m.peak i < magnitude (samples i) then magnitude (samples i) else m.peak i
  frames := m.frames + 1

/-- `take` reads the meters and starts again. -/
def reset (_ : MeterBank) : MeterBank := {}

end MeterBank

/-- The pump's drain with its meters and its WAV capture. Not in the source are
`received` and `added`, the frames since the last reading and those of them metered. -/
structure Metering where
  path : CapturePath
  inMeters : MeterBank := {}
  capWavPath : Bool
  capWavLimit : ℕ
  capWavFrames : ℕ := 0
  capWavDone : Bool
  deviceFrames : ℕ := 0
  received : List Frame := []
  added : List Frame := []

/-- The capture path's steps, and the WAV capture. -/
inductive MeterAct where
  | path (a : CaptureAct)
  /-- SIGUSR1 starts a WAV capture. -/
  | armCapture

namespace Metering

/-- A WAV capture is running. -/
def capturing (s : Metering) : Bool := s.capWavPath && !s.capWavDone

/-- A frame goes into the WAV capture, if one is running. -/
def capture (s : Metering) : Metering :=
  if s.capturing then
    { s with capWavFrames := s.capWavFrames + 1, capWavDone := decide (s.capWavLimit ≤ s.capWavFrames + 1) }
  else s

/-- A frame is metered, if there is a slot for it or a capture running. -/
def meter (s : Metering) (x : Frame) : Metering :=
  -- the branch that decodes the frame, for the ring and the capture
  if s.path.accepts || s.capturing then
    capture { s with
      inMeters := s.inMeters.addFrame x (min s.path.dbq kMaxChannels)
      received := s.received ++ [x]
      added := s.added ++ [x] }
  else { s with received := s.received ++ [x] }

/-- What a turn of the drain's loop does besides the ring. -/
def turn (s : Metering) : Metering :=
  match s.path.packet with
  | some (p, k) =>
    if k < p.frames s.path.dbq then s.meter (p.frame s.path.dbq k)
    -- the packet is through: its frames count, metered or not
    else { s with deviceFrames := s.deviceFrames + p.frames s.path.dbq }
  | none => s

/-- The drain's turn over a frame meters it too. -/
def step (s : Metering) : MeterAct → Option Metering
  | .path (.frame stale) => (s.path.step (.frame stale)).map fun path => { s.turn with path }
  | .path a => (s.path.step a).map fun path => { s with path }
  | .armCapture =>
    if s.path.packet.isSome then none
    else if s.capWavPath then some { s with capWavFrames := 0, capWavDone := false }
    else some s

/-- The meters are read, between two drains. -/
def take (s : Metering) : Metering := { s with inMeters := s.inMeters.reset, received := [], added := [] }

/-- A frame to come has a slot in hand or one free in the ring, or a capture runs. -/
def Heard (s : Metering) : MeterAct → Prop
  | .path (.frame _) => ∀ r ∈ s.path.packet, r.2 < r.1.frames s.path.dbq → s.path.accepts = true ∨ s.capturing = true
  | _ => True

instance (s : Metering) : ∀ a, Decidable (s.Heard a)
  | .path (.frame _) => inferInstanceAs (Decidable (∀ r ∈ s.path.packet, _ → _ ∨ _))
  | .path (.packet _) | .path (.restart _) | .path (.call _) | .path .fill | .armCapture => .isTrue trivial

/-- The largest magnitude of a channel. -/
def loudest (frames : List Frame) (c : Fin kMaxChannels) : ℕ := (frames.map fun x => (x c).toInt.natAbs).foldl max 0

end Metering

/-! ## The bank -/

theorem magnitude_toNat (s : BitVec 32) : (magnitude s).toNat = s.toInt.natAbs := by
  have hlt := s.isLt
  have hint := BitVec.toInt_eq_toNat_cond s
  unfold magnitude
  split
  · rw [BitVec.toNat_ofInt]
    split at hint <;> omega
  · split at hint <;> omega

theorem MeterBank.addFrame_peak (m : MeterBank) {x : Frame} {n : ℕ} {c : Fin kMaxChannels} (hx : n ≤ c.1 → x c = 0) :
    ((m.addFrame x n).peak c).toNat = max (m.peak c).toNat (x c).toInt.natAbs := by
  have hmag := magnitude_toNat (x c)
  unfold addFrame
  dsimp only
  split
  · rename_i h
    have hlt := BitVec.lt_def.1 h.2
    omega
  · rename_i h
    by_cases hn : n ≤ c.1
    · rw [hx hn] at *
      simp
    · have hge : ¬ m.peak c < magnitude (x c) := fun hlt => h ⟨by omega, hlt⟩
      rw [BitVec.lt_def] at hge
      omega

namespace Metering

theorem loudest_concat (frames : List Frame) (x : Frame) (c : Fin kMaxChannels) :
    loudest (frames ++ [x]) c = max (loudest frames c) (x c).toInt.natAbs := by
  unfold loudest
  rw [List.map_append, List.foldl_append]
  rfl

variable {s t : Metering}

/-! ## One turn -/

/-- What holds of the meters since they were read at `taken` frames. -/
structure Kept (taken : ℕ) (s : Metering) : Prop where
  frames : s.inMeters.frames = BitVec.ofNat 32 s.added.length
  peak : ∀ c, (s.inMeters.peak c).toNat = loudest s.added c
  added : s.added.Sublist s.received
  within : ∀ p k, s.path.packet = some (p, k) → k ≤ p.frames s.path.dbq ∧ taken + s.received.length = s.deviceFrames + k
  between : s.path.packet = none → taken + s.received.length = s.deviceFrames

theorem frame_silent (p : Packet) (dbq k : ℕ) {c : Fin kMaxChannels} (hc : min dbq kMaxChannels ≤ c.1) :
    p.frame dbq k c = 0 := by
  have hlt := c.2
  unfold Packet.frame
  rw [if_neg (by omega)]

theorem capture_keeps (s : Metering) : s.capture.path = s.path ∧ s.capture.inMeters = s.inMeters ∧
    s.capture.received = s.received ∧ s.capture.added = s.added ∧ s.capture.deviceFrames = s.deviceFrames := by
  unfold capture
  split <;> exact ⟨rfl, rfl, rfl, rfl, rfl⟩

/-- A frame is received, and metered if it is heard. -/
theorem meter_cases (s : Metering) (x : Frame) :
    (s.meter x).path = s.path ∧ (s.meter x).deviceFrames = s.deviceFrames ∧ (s.meter x).received = s.received ++ [x] ∧
    (((s.path.accepts || s.capturing) = true ∧ (s.meter x).added = s.added ++ [x] ∧
        (s.meter x).inMeters = s.inMeters.addFrame x (min s.path.dbq kMaxChannels)) ∨
      ((s.path.accepts || s.capturing) = false ∧ (s.meter x).added = s.added ∧ (s.meter x).inMeters = s.inMeters)) := by
  unfold meter
  by_cases h : (s.path.accepts || s.capturing) = true
  · rw [if_pos h]
    obtain ⟨hpath, hmeters, hreceived, hadded, hdevice⟩ := capture_keeps { s with
      inMeters := s.inMeters.addFrame x (min s.path.dbq kMaxChannels)
      received := s.received ++ [x]
      added := s.added ++ [x] }
    exact ⟨hpath, hdevice, hreceived, .inl ⟨h, hadded, hmeters⟩⟩
  · rw [if_neg h]
    exact ⟨rfl, rfl, rfl, .inr ⟨Bool.eq_false_of_not_eq_true h, rfl, rfl⟩⟩

theorem meter_kept {taken : ℕ} (hs : s.Kept taken) (p : Packet) (k : ℕ) :
    (s.meter (p.frame s.path.dbq k)).inMeters.frames = BitVec.ofNat 32 (s.meter (p.frame s.path.dbq k)).added.length ∧
      (∀ c, ((s.meter (p.frame s.path.dbq k)).inMeters.peak c).toNat =
        loudest (s.meter (p.frame s.path.dbq k)).added c) ∧
      (s.meter (p.frame s.path.dbq k)).added.Sublist (s.meter (p.frame s.path.dbq k)).received := by
  obtain ⟨-, -, hreceived, ⟨-, hadded, hmeters⟩ | ⟨-, hadded, hmeters⟩⟩ := s.meter_cases (p.frame s.path.dbq k)
  · rw [hreceived, hadded, hmeters]
    refine ⟨?_, fun c => ?_, hs.added.append (List.Sublist.refl _)⟩
    · rw [List.length_append, List.length_singleton, BitVec.ofNat_add]
      exact congrArg (· + 1) hs.frames
    · rw [MeterBank.addFrame_peak _ (frame_silent p s.path.dbq k), loudest_concat, hs.peak]
  · rw [hreceived, hadded, hmeters]
    exact ⟨hs.frames, hs.peak, hs.added.trans (List.sublist_append_left _ _)⟩

end Metering

/-! ## The drain beneath -/

namespace CapturePath

theorem frame_packet (s : CapturePath) (stale : Slot) (p : Packet) (k : ℕ) : (s.frame stale p k).dbq = s.dbq ∧
    (s.frame stale p k).packet = if k < p.frames s.dbq then some (p, k + 1) else none := by
  unfold frame
  by_cases hk : k < p.frames s.dbq
  · rw [if_pos hk, if_pos hk]
    have hstore (t : CapturePath) (slot : Slot) (capFill : ℕ) (x : Frame) :
        (t.store slot capFill x).dbq = t.dbq ∧ (t.store slot capFill x).packet = t.packet := by
      unfold store
      dsimp only
      split <;> exact ⟨rfl, rfl⟩
    split
    · exact hstore _ _ _ _
    · split
      · exact hstore _ _ _ _
      · exact ⟨rfl, rfl⟩
  · rw [if_neg hk, if_neg hk]
    exact ⟨rfl, rfl⟩

/-- Any other action leaves the packet in hand, or takes the next. -/
theorem step_packet {s t : CapturePath} {a : CaptureAct} (ha : ∀ stale, a ≠ .frame stale) (h : s.step a = some t) :
    (t.packet = s.packet ∧ ∀ r, s.packet = some r → t.dbq = s.dbq) ∨
    (s.packet = none ∧ ∃ p, t.packet = some (p, 0)) := by
  unfold step at h
  split at h
  · rename_i hp
    cases h
    exact .inr ⟨hp, _, rfl⟩
  · exact absurd rfl (ha _)
  · rename_i hp
    cases h
    refine .inl ⟨rfl, fun r hr => ?_⟩
    rw [hp] at hr
    cases hr
  · cases h
    obtain ⟨-, hpacket, -, hdbq⟩ := s.onReadClientInput_drain _
    exact .inl ⟨hpacket, fun _ _ => hdbq⟩
  · cases h
    obtain ⟨-, hpacket, -, hdbq⟩ := s.fill_drain _ _
    exact .inl ⟨hpacket, fun _ _ => hdbq⟩
  · cases h

end CapturePath

namespace Metering

variable {s t : Metering}

/-- A step that is no turn of the drain's loop leaves the meters and the counters. -/
theorem step_other {a : MeterAct} (ha : ∀ stale, a ≠ .path (.frame stale)) (h : s.step a = some t) :
    t.inMeters = s.inMeters ∧ t.received = s.received ∧ t.added = s.added ∧ t.deviceFrames = s.deviceFrames ∧
      ((t.path.packet = s.path.packet ∧ ∀ r, s.path.packet = some r → t.path.dbq = s.path.dbq) ∨
        (s.path.packet = none ∧ ∃ p, t.path.packet = some (p, 0))) := by
  cases a with
  | path a =>
    have ha' : ∀ stale, a ≠ .frame stale := fun stale h => ha stale (congrArg MeterAct.path h)
    have hstep : (s.path.step a).map (fun path => { s with path }) = some t := by
      cases a with
      | frame stale => exact absurd rfl (ha' stale)
      | packet p | restart dbq | call call | fill => exact h
    obtain ⟨path, hpath, rfl⟩ := Option.map_eq_some_iff.1 hstep
    exact ⟨rfl, rfl, rfl, rfl, CapturePath.step_packet ha' hpath⟩
  | armCapture =>
    rw [step] at h
    split at h
    · cases h
    · split at h
      · cases h
        exact ⟨rfl, rfl, rfl, rfl, .inl ⟨rfl, fun _ _ => rfl⟩⟩
      · cases h
        exact ⟨rfl, rfl, rfl, rfl, .inl ⟨rfl, fun _ _ => rfl⟩⟩

/-- A turn of the drain's loop is a frame, or the end of the packet. -/
theorem step_frame {stale : Slot} (h : s.step (.path (.frame stale)) = some t) :
    ∃ p k, s.path.packet = some (p, k) ∧ t.path.dbq = s.path.dbq ∧
      ((k < p.frames s.path.dbq ∧ t.path.packet = some (p, k + 1) ∧
          t = { s.meter (p.frame s.path.dbq k) with path := t.path }) ∨
        (p.frames s.path.dbq ≤ k ∧ t.path.packet = none ∧
          t = { s with path := t.path, deviceFrames := s.deviceFrames + p.frames s.path.dbq })) := by
  obtain ⟨path, hpath, rfl⟩ := Option.map_eq_some_iff.1 h
  cases hp : s.path.packet with
  | none => simp [CapturePath.step, hp] at hpath
  | some r =>
    obtain ⟨p, k⟩ := r
    have hframe : s.path.frame stale p k = path := by simpa [CapturePath.step, hp] using hpath
    obtain ⟨hdbq, hpacket⟩ := s.path.frame_packet stale p k
    rw [hframe] at hdbq hpacket
    refine ⟨p, k, rfl, hdbq, ?_⟩
    unfold turn
    rw [hp]
    dsimp only
    by_cases hk : k < p.frames s.path.dbq
    · rw [if_pos hk] at hpacket ⊢
      exact .inl ⟨hk, hpacket, rfl⟩
    · rw [if_neg hk] at hpacket ⊢
      exact .inr ⟨Nat.not_lt.1 hk, hpacket, rfl⟩

theorem step_kept {taken : ℕ} (s : Metering) (a : MeterAct) (t : Metering) (hs : s.Kept taken) (h : s.step a = some t) :
    t.Kept taken := by
  by_cases ha : ∃ stale, a = .path (.frame stale)
  · obtain ⟨stale, rfl⟩ := ha
    obtain ⟨p, k, hp, hdbq, hturn⟩ := step_frame h
    obtain ⟨hle, hcount⟩ := hs.within p k hp
    rcases hturn with ⟨hk, hpacket, hmeter⟩ | ⟨hk, hpacket, hend⟩
    · obtain ⟨hframes, hpeak, hadded⟩ := meter_kept hs p k
      obtain ⟨-, hdevice, hreceived, -⟩ := s.meter_cases (p.frame s.path.dbq k)
      rw [hmeter]
      refine ⟨hframes, hpeak, hadded, fun p' k' hp' => ?_, fun hnone => ?_⟩
      · rw [hpacket] at hp'
        cases hp'
        refine ⟨hdbq ▸ hk, ?_⟩
        simp only [hdevice, hreceived, List.length_append, List.length_singleton]
        omega
      · rw [hpacket] at hnone
        cases hnone
    · rw [hend]
      refine ⟨hs.frames, hs.peak, hs.added, fun p' k' hp' => ?_, fun _ => ?_⟩
      · rw [hpacket] at hp'
        cases hp'
      · dsimp only
        omega
  · obtain ⟨hmeters, hreceived, hadded, hdevice, hpacket⟩ := step_other (fun stale h => ha ⟨stale, h⟩) h
    refine ⟨by rw [hmeters, hadded, hs.frames], fun c => by rw [hmeters, hadded, hs.peak],
      by rw [hadded, hreceived]; exact hs.added, fun p k hp => ?_, fun hnone => ?_⟩
    · rw [hreceived, hdevice]
      rcases hpacket with ⟨hsame, hdbq⟩ | ⟨hnone, p', hp'⟩
      · rw [hsame] at hp
        rw [hdbq _ hp]
        exact hs.within p k hp
      · rw [hp'] at hp
        cases hp
        exact ⟨Nat.zero_le _, hs.between hnone⟩
    · rw [hreceived, hdevice]
      rcases hpacket with ⟨hsame, -⟩ | ⟨-, p', hp'⟩
      · exact hs.between (hsame ▸ hnone)
      · rw [hp'] at hnone
        cases hnone

/-! ## An interval -/

/-- What a step adds to the frames received, and to those metered. -/
theorem step_counts {a : MeterAct} (h : s.step a = some t) :
    (s.Heard a ∧ t.received.length = s.received.length ∧ t.added.length = s.added.length) ∨
    (s.Heard a ∧ t.received.length = s.received.length + 1 ∧ t.added.length = s.added.length + 1) ∨
    (¬s.Heard a ∧ t.received.length = s.received.length + 1 ∧ t.added.length = s.added.length) := by
  by_cases ha : ∃ stale, a = .path (.frame stale)
  · obtain ⟨stale, rfl⟩ := ha
    obtain ⟨p, k, hp, -, ⟨hk, -, hmeter⟩ | ⟨hk, -, hend⟩⟩ := step_frame h
    · have hheard : s.Heard (.path (.frame stale)) ↔ (s.path.accepts || s.capturing) = true := by
        rw [Bool.or_eq_true]
        exact ⟨fun hh => hh (p, k) hp hk, fun hh _ _ _ => hh⟩
      rw [hheard, hmeter]
      obtain ⟨-, -, hreceived, ⟨hmet, hadded, -⟩ | ⟨hmet, hadded, -⟩⟩ := s.meter_cases (p.frame s.path.dbq k)
      · refine .inr (.inl ⟨hmet, ?_, ?_⟩)
        · rw [hreceived, List.length_append, List.length_singleton]
        · rw [hadded, List.length_append, List.length_singleton]
      · refine .inr (.inr ⟨Bool.eq_false_iff.1 hmet, ?_, by rw [hadded]⟩)
        rw [hreceived, List.length_append, List.length_singleton]
    · refine .inl ⟨fun r hp' hk' => ?_, by rw [hend], by rw [hend]⟩
      rw [hp] at hp'
      cases hp'
      exact absurd hk' (Nat.not_lt.2 hk)
  · obtain ⟨-, hreceived, hadded, -⟩ := step_other (fun stale h => ha ⟨stale, h⟩) h
    refine .inl ⟨?_, by rw [hreceived], by rw [hadded]⟩
    cases a with
    | armCapture => trivial
    | path a =>
      cases a with
      | frame stale => exact absurd ⟨stale, rfl⟩ ha
      | packet p | restart dbq | call call | fill => trivial

theorem step_missing {a : MeterAct} (h : s.step a = some t) (hlt : s.added.length < s.received.length) :
    t.added.length < t.received.length := by
  rcases step_counts h with ⟨-, hr, ha⟩ | ⟨-, hr, ha⟩ | ⟨-, hr, ha⟩ <;> omega

/-- A frame that was not metered is missing from then on, so that all are there exactly
if each was heard. -/
theorem heard_iff {as : List MeterAct} (h : run step s as = some t) (hs : s.added.length = s.received.length) :
    t.added.length = t.received.length ↔ Meets step Heard s as := by
  induction as generalizing s with
  | nil =>
    cases h
    exact ⟨fun _ => trivial, fun _ => hs⟩
  | cons a as ih =>
    rw [run_cons, Option.bind_eq_some_iff] at h
    obtain ⟨u, hu, h⟩ := h
    have hheard : s.Heard a → u.added.length = u.received.length := by
      intro hh
      rcases step_counts hu with ⟨-, hr, ha⟩ | ⟨-, hr, ha⟩ | ⟨hno, -⟩
      · omega
      · omega
      · exact absurd hh hno
    constructor
    · intro heq
      by_cases hh : s.Heard a
      · refine ⟨hh, fun v hv => ?_⟩
        rw [← Option.some.inj (hu.symm.trans hv)]
        exact (ih h (hheard hh)).1 heq
      · rcases step_counts hu with ⟨hh', -⟩ | ⟨hh', -⟩ | ⟨-, hr, ha⟩
        · exact absurd hh' hh
        · exact absurd hh' hh
        -- the frame is missing now, and no later step adds it
        · have hmissing :=
            run_inv (fun v => v.added.length < v.received.length) (fun _ _ _ hlt hstep => step_missing hstep hlt) h
            (by omega)
          omega
    · intro ⟨hh, hrest⟩
      exact (ih h (hheard hh)).2 (hrest u hu)

/-- The meters are those of the frames since they were read: each was added once, their
number is the increase of `deviceFrames`, and the peaks are theirs. -/
structure Covers (s t : Metering) : Prop where
  added : t.added = t.received
  frames : t.inMeters.frames.toNat = t.deviceFrames - s.deviceFrames
  peak : ∀ c, (t.inMeters.peak c).toNat = loudest t.received c

/-- From one reading to the next, for every ring and plugin, and packets of any length:
the meters cover the frames received exactly if each of these had a slot in hand or one
free in the ring, or came while a WAV capture ran, and 32 bits hold their number. -/
theorem meters_cover {as : List MeterAct} (hs : s.path.packet = none) (h : run step s.take as = some t)
    (ht : t.path.packet = none) :
    Covers s t ↔ Meets step Heard s.take as ∧ t.received.length < 2 ^ 32 := by
  have hkept : t.Kept s.deviceFrames := by
    apply run_inv (Kept s.deviceFrames) step_kept h
    refine ⟨rfl, fun _ => rfl, List.Sublist.refl _, fun p k hp => ?_, fun _ => rfl⟩
    rw [show s.take.path.packet = s.path.packet from rfl, hs] at hp
    cases hp
  have hheard := heard_iff h rfl
  have hcount := hkept.between ht
  have hle := hkept.added.length_le
  have hframes : t.inMeters.frames.toNat = t.added.length % 2 ^ 32 := by
    rw [hkept.frames, BitVec.toNat_ofNat]
  constructor
  · intro ⟨hadded, hincrease, hpeak⟩
    refine ⟨hheard.1 (congrArg List.length hadded), ?_⟩
    omega
  · intro ⟨hmeets, hfits⟩
    have hadded := hkept.added.eq_of_length (hheard.2 hmeets)
    refine ⟨hadded, ?_, fun c => ?_⟩
    · rw [hframes, hadded]
      omega
    · rw [← hadded]
      exact hkept.peak c

/-- The daemon without a WAV capture, whose ring holds this many slots nobody has read. -/
def unread (slots : ℕ) : Metering where
  path := { CapturePath.start 1 with capture := ⟨List.replicate slots ⟨512, 1, fun _ => 0⟩, 0⟩ }
  capWavPath := false
  capWavLimit := 0
  capWavDone := false

/-- A packet of one frame. -/
def oneFrame : List MeterAct :=
  [.path (.packet ⟨4, fun _ => 1⟩), .path (.frame ⟨0, 0, fun _ => 0⟩), .path (.frame ⟨0, 0, fun _ => 0⟩)]

theorem meters_cover_one : ∃ t, run step (unread 7).take oneFrame = some t ∧ t.received.length = 1 ∧
    Covers (unread 7) t := by
  have h : (run step (unread 7).take oneFrame).map (fun t => (t.received.length, t.path.packet.isNone)) =
      some (1, true) := by
    decide +kernel
  obtain ⟨t, hrun, ht⟩ := Option.map_eq_some_iff.1 h
  simp only [Prod.mk.injEq, Option.isNone_iff_eq_none] at ht
  have hmeets : Meets step Heard (unread 7).take oneFrame := by decide +kernel
  exact ⟨t, hrun, ht.1, (meters_cover rfl hrun ht.2).2 ⟨hmeets, by rw [ht.1]; decide⟩⟩

/-- With nobody reading the ring, a full one, a frame is received and not metered. -/
theorem unmetered : ∃ t, run step (unread 8).take oneFrame = some t ∧ (unread 8).path.packet = none ∧
    t.path.packet = none ∧
    t.deviceFrames - (unread 8).deviceFrames = 1 ∧ t.inMeters.frames = 0 ∧ t.received ≠ t.added := by
  have h : (run step (unread 8).take oneFrame).map (fun t => (t.path.packet.isNone, t.deviceFrames, t.inMeters.frames,
      t.received.length, t.added.length)) = some (true, 1, 0, 1, 0) := by
    decide +kernel
  obtain ⟨t, hrun, ht⟩ := Option.map_eq_some_iff.1 h
  simp only [Prod.mk.injEq, Option.isNone_iff_eq_none] at ht
  obtain ⟨hpacket, hdevice, hframes, hreceived, hadded⟩ := ht
  refine ⟨t, hrun, rfl, hpacket, hdevice, hframes, fun heq => ?_⟩
  rw [heq, hadded] at hreceived
  cases hreceived

end Metering

end UserFace800.Audio
