import UserFace800.Dext.MidiIn
import Mathlib.Data.List.Nodup
/-!
# Each MIDI byte once

The read cursor is kept by the driver, the write position is the controller's, and
three calls move the cursor: a poll on to where it stopped, a re-arm to the front of an
emptied buffer, and `MidiInEnable` to the front of a buffer it does not empty. So a
quadlet is returned at most once as long as `MidiInEnable` finds none in the buffer that
was returned before (`midi_once`); else it is returned again (`midi_replayed`).

Quadlets are told apart by their number in the order the controller stored them.
-/
open UserFace800.Lib

namespace UserFace800.Dext

namespace MidiIn

/-- Without the device nothing is enabled. -/
def midiInEnable (s : MidiIn) (ff800Found : Bool) (highIndex : Quadlet) : MidiIn :=
  if ff800Found then { s with midiHighIndex := highIndex.setWidth 16, arReqReadBytes := 0, midiInOn := true } else s

/-- The driver gives out no more bytes. -/
def midiInDisable (s : MidiIn) : MidiIn := { s with midiInOn := false }

/-- What the controller has filled. -/
def written (s : MidiIn) : ℕ := kARBufferBytes - s.resCount

/-- The controller stores words of any requests, whole or not, behind the others. -/
def store (s : MidiIn) (ws : List Quadlet) : MidiIn :=
  { s with
    arReq := fun i => if s.written / 4 ≤ i then ws.getD (i - s.written / 4) (s.arReq i) else s.arReq i
    resCount := s.resCount - 4 * ws.length }

theorem receive_eq (s : MidiIn) (r : Inbound) : s.receive r = s.store r.words := rfl

/-- The places of the buffer a walk takes bytes from, turn by turn as `walk`. -/
def reads (s : MidiIn) (written : ℕ) : ℕ → ℕ → ℕ → List ℕ
  | 0, _, _ => []
  | fuel + 1, off, room =>
    if off + 16 ≤ written ∧ 0 < room then
      let o := off / 4
      let hit := addressed s.midiHighIndex (s.arReq (o + 1)) (s.arReq (o + 2))
      if tcode (s.arReq o) = 1 then
        let len := dataLen (s.arReq (o + 3))
        let adv := 16 + (len + 3) / 4 * 4 + 4
        let here := if hit then ((List.range ((len + 3) / 4)).take room).map (o + 4 + ·) else []
        if len > kARBufferBytes ∨ off + adv > written then []
        else here ++ s.reads written fuel (off + adv) (room - here.length)
      else if tcode (s.arReq o) = 0 then
        let here := if hit then [o + 3] else []
        if off + 20 > written then [] else here ++ s.reads written fuel (off + 20) (room - here.length)
      else []
    else []

/-- The places a poll returns the bytes of. -/
def taken (s : MidiIn) (capacity : ℕ) : List ℕ :=
  if s.midiInOn then s.reads s.written s.written s.arReqReadBytes capacity else []

/-! ## A walk -/

variable {s : MidiIn}

/-- Places among `n` from `lo` on, in order, as many as there is room for at most. -/
structure Places (lo n room : ℕ) (here : List ℕ) : Prop where
  length : here.length ≤ room
  sorted : here.Pairwise (· < ·)
  within : ∀ p ∈ here, lo ≤ p ∧ p < lo + n

theorem places_nil (lo n room : ℕ) : Places lo n room [] := ⟨Nat.zero_le _, List.Pairwise.nil, fun _ hp => (nomatch hp)⟩

/-- The places of a block's payload. -/
theorem places_block (lo n room : ℕ) : Places lo n room (((List.range n).take room).map (lo + ·)) where
  length := by
    rw [List.length_map, List.length_take]
    exact Nat.min_le_left _ _
  sorted := by
    refine List.Pairwise.map _ (fun a b hab => Nat.add_lt_add_left hab _) ?_
    exact List.Pairwise.sublist (List.take_sublist _ _) List.pairwise_lt_range
  within := by
    intro p hp
    obtain ⟨i, hi, rfl⟩ := List.mem_map.1 hp
    exact ⟨Nat.le_add_right _ _, Nat.add_lt_add_left (List.mem_range.1 (List.mem_of_mem_take hi)) _⟩

theorem places_quadlet (lo : ℕ) {room : ℕ} (hroom : 0 < room) : Places lo 1 room [lo] where
  length := hroom
  sorted := List.pairwise_singleton _ _
  within := by
    intro p hp
    rw [List.mem_singleton.1 hp]
    exact ⟨le_refl _, Nat.lt_succ_self _⟩

/-- What a request addressed to us puts out. -/
theorem emitted (s : MidiIn) (hit : Bool) (out : List Byte) (here : List ℕ) :
    (if hit then out ++ here.map (fun p => lowByte (s.arReq p)) else out) =
      out ++ (if hit then here else []).map fun p => lowByte (s.arReq p) := by
  cases hit with
  | true => rfl
  | false => exact (List.append_nil out).symm

/-- A turn stops, or moves on past the places it takes bytes from. -/
theorem walk_turn (s : MidiIn) (written capacity fuel off : ℕ) (out : List Byte) :
    (∃ d, s.walk written capacity (fuel + 1) off out = ⟨off, out, d⟩ ∧
      s.reads written (fuel + 1) off (capacity - out.length) = []) ∨
    ∃ here next, s.walk written capacity (fuel + 1) off out =
        s.walk written capacity fuel next (out ++ here.map fun p => lowByte (s.arReq p)) ∧
      s.reads written (fuel + 1) off (capacity - out.length) =
        here ++ s.reads written fuel next (capacity - out.length - here.length) ∧
      here.length ≤ capacity - out.length ∧ here.Pairwise (· < ·) ∧ next % 4 = off % 4 ∧ off ≤ next ∧ next ≤ written ∧
      ∀ p ∈ here, off / 4 ≤ p ∧ p < next / 4 := by
  rw [walk, reads]
  by_cases hgo : off + 16 ≤ written ∧ out.length < capacity
  · have hroom : off + 16 ≤ written ∧ 0 < capacity - out.length := ⟨hgo.1, Nat.sub_pos_of_lt hgo.2⟩
    rw [if_pos hgo, if_pos hroom]
    dsimp only
    generalize hhit : addressed s.midiHighIndex (s.arReq (off / 4 + 1)) (s.arReq (off / 4 + 2)) = hit
    by_cases h1 : tcode (s.arReq (off / 4)) = 1
    · rw [if_pos h1, if_pos h1]
      generalize hlen : dataLen (s.arReq (off / 4 + 3)) = len
      have hblock : Places (off / 4 + 4) ((len + 3) / 4) (capacity - out.length)
          (if hit then ((List.range ((len + 3) / 4)).take (capacity - out.length)).map (off / 4 + 4 + ·) else []) := by
        split
        · exact places_block _ _ _
        · exact places_nil _ _ _
      have hbytes : s.payloadBytes (off / 4 + 4) ((len + 3) / 4) (capacity - out.length) =
          (((List.range ((len + 3) / 4)).take (capacity - out.length)).map (off / 4 + 4 + ·)).map
            fun p => lowByte (s.arReq p) := by
        rw [List.map_map]
        rfl
      split
      · exact .inl ⟨true, rfl, rfl⟩
      · rw [hbytes, emitted]
        refine .inr ⟨_, _, rfl, rfl, hblock.length, hblock.sorted, by omega, by omega, by omega, fun p hp => ?_⟩
        have hin := hblock.within p hp
        omega
    · rw [if_neg h1, if_neg h1]
      by_cases h0 : tcode (s.arReq (off / 4)) = 0
      · rw [if_pos h0, if_pos h0]
        have hquadlet : Places (off / 4 + 3) 1 (capacity - out.length) (if hit then [off / 4 + 3] else []) := by
          split
          · exact places_quadlet _ hroom.2
          · exact places_nil _ _ _
        split
        · exact .inl ⟨false, rfl, rfl⟩
        · have hemitted := s.emitted hit out [off / 4 + 3]
          rw [List.map_singleton] at hemitted
          rw [hemitted]
          refine .inr ⟨_, _, rfl, rfl, hquadlet.length, hquadlet.sorted, by omega, by omega, by omega, fun p hp => ?_⟩
          have hin := hquadlet.within p hp
          omega
      · rw [if_neg h0, if_neg h0]
        exact .inl ⟨true, rfl, rfl⟩
  · have hroom : ¬ (off + 16 ≤ written ∧ 0 < capacity - out.length) := fun h => hgo ⟨h.1, Nat.lt_of_sub_pos h.2⟩
    rw [if_neg hgo, if_neg hroom]
    exact .inl ⟨false, rfl, rfl⟩

/-- The bytes put out are those of the places read. -/
theorem walk_out (s : MidiIn) (written capacity fuel off : ℕ) (out : List Byte) (hout : out.length ≤ capacity) :
    (s.walk written capacity fuel off out).out =
      out ++ (s.reads written fuel off (capacity - out.length)).map fun p => lowByte (s.arReq p) := by
  induction fuel generalizing off out with
  | zero => simp [walk, reads]
  | succ fuel ih =>
    rcases s.walk_turn written capacity fuel off out with ⟨d, hw, hr⟩ | ⟨here, next, hw, hr, hlen, -⟩
    · rw [hw, hr, List.map_nil, List.append_nil]
    · have hout' : (out ++ here.map fun p => lowByte (s.arReq p)).length = out.length + here.length := by
        rw [List.length_append, List.length_map]
      rw [hw, hr, ih next (out ++ here.map fun p => lowByte (s.arReq p)) (by omega), hout', List.append_assoc,
        ← List.map_append, Nat.sub_sub]

/-- They lie in order between where the walk began and where it stopped. -/
theorem walk_reads (s : MidiIn) (written capacity fuel off : ℕ) (out : List Byte) (hout : out.length ≤ capacity)
    (hoff : off ≤ written) :
    (s.walk written capacity fuel off out).off % 4 = off % 4 ∧ off ≤ (s.walk written capacity fuel off out).off ∧
    (s.walk written capacity fuel off out).off ≤ written ∧
    (s.reads written fuel off (capacity - out.length)).Pairwise (· < ·) ∧
    ∀ p ∈ s.reads written fuel off (capacity - out.length),
      off / 4 ≤ p ∧ p < (s.walk written capacity fuel off out).off / 4 := by
  induction fuel generalizing off out with
  | zero => exact ⟨rfl, le_refl _, hoff, List.Pairwise.nil, fun p hp => (nomatch hp)⟩
  | succ fuel ih =>
    rcases s.walk_turn written capacity fuel off out with
      ⟨d, hw, hr⟩ | ⟨here, next, hw, hr, hlen, hsorted, hmod, hle, hnext, hin⟩
    · rw [hw, hr]
      exact ⟨rfl, le_refl _, hoff, List.Pairwise.nil, fun p hp => (nomatch hp)⟩
    · have hout' : (out ++ here.map fun p => lowByte (s.arReq p)).length = out.length + here.length := by
        rw [List.length_append, List.length_map]
      obtain ⟨hmod', hle', hend, hsorted', hin'⟩ :=
        ih next (out ++ here.map fun p => lowByte (s.arReq p)) (by omega) hnext
      rw [hout', ← Nat.sub_sub] at hsorted' hin'
      rw [hw, hr]
      have hmono : next / 4 ≤
          (s.walk written capacity fuel next (out ++ here.map fun p => lowByte (s.arReq p))).off / 4 :=
        Nat.div_le_div_right hle'
      refine ⟨hmod'.trans hmod, hle.trans hle', hend, ?_, ?_⟩
      · refine List.pairwise_append.2 ⟨hsorted, hsorted', fun a ha b hb => ?_⟩
        exact (hin a ha).2.trans_le (hin' b hb).1
      · intro p hp
        rcases List.mem_append.1 hp with hp | hp
        · exact ⟨(hin p hp).1, (hin p hp).2.trans_le hmono⟩
        · exact ⟨(Nat.div_le_div_right hle).trans (hin' p hp).1, (hin' p hp).2⟩

end MidiIn

/-! ## The port over restarts of the daemon -/

/-- The driver, the quadlets stored so far, and what the polls returned: the bytes, and
the numbers of the quadlets they are the low bytes of. -/
structure Feed where
  driver : MidiIn
  placed : List Quadlet := []
  took : List ℕ := []
  got : List Byte := []

/-- The device fills the buffer; the daemon enables, disables and polls. -/
inductive FeedAct where
  | place (ws : List Quadlet)
  | enable (ff800Found : Bool) (highIndex : Quadlet)
  | disable
  | poll (capacity : ℕ)
  | rearm

namespace Feed

/-- The number of the quadlet at the front of the buffer. -/
def base (f : Feed) : ℕ := f.placed.length - f.driver.written / 4

/-- A poll, and the quadlets it took its bytes from. -/
def poll (f : Feed) (capacity : ℕ) : Feed :=
  let r := f.driver.midiInPoll capacity
  { f with driver := r.1, took := f.took ++ (f.driver.taken capacity).map (f.base + ·), got := f.got ++ r.2 }

/-- The controller stores what there is room for. -/
def step (f : Feed) : FeedAct → Option Feed
  | .place ws =>
    if 4 * ws.length ≤ f.driver.resCount then
      some { f with driver := f.driver.store ws, placed := f.placed ++ ws }
    else none
  | .enable ff800Found highIndex => some { f with driver := f.driver.midiInEnable ff800Found highIndex }
  | .disable => some { f with driver := f.driver.midiInDisable }
  | .poll capacity => some (f.poll capacity)
  | .rearm => some { f with driver := f.driver.rearm }

/-- `MidiInEnable` finds nothing in the buffer that was returned before. -/
def Unread (f : Feed) : FeedAct → Prop
  | .enable ff800Found _ => ff800Found = true → ∀ i ∈ f.took, i < f.base
  | _ => True

/-- The buffer holds the last quadlets stored, none is returned twice, and none that was
returned lies from the cursor on. -/
structure Inv (f : Feed) : Prop where
  res : f.driver.resCount ≤ kARBufferBytes
  quads : f.driver.resCount % 4 = 0
  fits : f.driver.written / 4 ≤ f.placed.length
  aligned : f.driver.arReqReadBytes % 4 = 0
  cursor : f.driver.arReqReadBytes ≤ f.driver.written
  mem : f.driver.Holds 0 (f.placed.drop f.base)
  once : f.took.Nodup
  below : ∀ i ∈ f.took, i < f.base + f.driver.arReqReadBytes / 4
  bytes : f.got = f.took.map fun i => lowByte (f.placed.getD i 0)

variable {f : Feed}

theorem Inv.length (h : Inv f) : f.base + f.driver.written / 4 = f.placed.length := Nat.sub_add_cancel h.fits

/-- What the buffer has at a place is the quadlet of that number. -/
theorem Inv.get (h : Inv f) {p : ℕ} (hp : p < f.driver.written / 4) :
    f.driver.arReq p = f.placed.getD (f.base + p) 0 := by
  have hlen := h.length
  have hm := h.mem p (by rw [List.length_drop]; omega)
  rw [Nat.zero_add] at hm
  rw [hm, List.getElem_drop, List.getD_eq_getElem _ _ (by omega)]

theorem Inv.low (h : Inv f) {i : ℕ} (hi : i ∈ f.took) : i < f.placed.length := by
  have hlen := h.length
  have hb := h.below i hi
  have hc := h.cursor
  omega

/-- A re-arm empties the buffer. -/
theorem rearm_inv (h : Inv f) : Inv { f with driver := f.driver.rearm } := by
  have hw : (f.driver.rearm).written = 0 := Nat.sub_self _
  have hbase : ({ f with driver := f.driver.rearm } : Feed).base = f.placed.length := by
    unfold base
    rw [hw]
    rfl
  have hquads : kARBufferBytes % 4 = 0 := by decide
  refine ⟨le_refl _, hquads, hw.symm ▸ Nat.zero_le _, rfl, Nat.zero_le _, ?_, h.once, ?_, h.bytes⟩
  · intro i hi
    rw [hbase, List.drop_length] at hi
    cases hi
  · intro i hi
    rw [hbase]
    exact (h.low hi).trans_le (Nat.le_add_right _ _)

/-- What is stored goes behind what the buffer had. -/
theorem store_base (h : Inv f) {ws : List Quadlet} (hws : 4 * ws.length ≤ f.driver.resCount) :
    (f.driver.store ws).written = f.driver.written + 4 * ws.length ∧
      ({ f with driver := f.driver.store ws, placed := f.placed ++ ws } : Feed).base = f.base := by
  have hres := h.res
  have hw : (f.driver.store ws).written = f.driver.written + 4 * ws.length := by
    change kARBufferBytes - (f.driver.resCount - 4 * ws.length) = kARBufferBytes - f.driver.resCount + 4 * ws.length
    omega
  refine ⟨hw, ?_⟩
  unfold base
  rw [hw, List.length_append]
  omega

theorem store_mem (h : Inv f) (ws : List Quadlet) : (f.driver.store ws).Holds 0 ((f.placed ++ ws).drop f.base) := by
  have hlen := h.length
  intro i hi
  have hlt : f.base + i < (f.placed ++ ws).length := Nat.add_lt_of_lt_sub' (List.length_drop ▸ hi)
  have hget : ((f.placed ++ ws).drop f.base)[i] = (f.placed ++ ws)[f.base + i] := List.getElem_drop
  rw [List.length_append] at hlt
  rw [hget, Nat.zero_add]
  change (if f.driver.written / 4 ≤ i then ws.getD (i - f.driver.written / 4) (f.driver.arReq i)
    else f.driver.arReq i) = _
  split
  · rename_i hle
    rw [List.getElem_append_right (by omega), List.getD_eq_getElem _ _ (by omega)]
    congr 1
    omega
  · rename_i hlt
    rw [List.getElem_append_left (by omega), h.get (by omega), List.getD_eq_getElem _ _ (by omega)]

theorem place_inv (h : Inv f) {ws : List Quadlet} (hws : 4 * ws.length ≤ f.driver.resCount) :
    Inv { f with driver := f.driver.store ws, placed := f.placed ++ ws } := by
  have hquads := h.quads
  have hlen := h.length
  obtain ⟨hw, hbase⟩ := store_base h hws
  refine ⟨(Nat.sub_le _ _).trans h.res, ?_, ?_, h.aligned, ?_, ?_, h.once, ?_, ?_⟩
  · change (f.driver.resCount - 4 * ws.length) % 4 = 0
    omega
  · rw [hw, List.length_append]
    omega
  · rw [hw]
    exact h.cursor.trans (Nat.le_add_right _ _)
  · rw [hbase]
    exact store_mem h ws
  · rw [hbase]
    exact h.below
  · refine h.bytes.trans (List.map_congr_left fun i hi => ?_)
    rw [List.getD_append _ _ _ _ (h.low hi)]

theorem enable_inv (h : Inv f) {found : Bool} {highIndex : Quadlet} (hu : f.Unread (.enable found highIndex)) :
    Inv { f with driver := f.driver.midiInEnable found highIndex } := by
  cases found with
  | false => exact h
  | true =>
    refine ⟨h.res, h.quads, h.fits, rfl, Nat.zero_le _, h.mem, h.once, fun i hi => ?_, h.bytes⟩
    exact (hu rfl i hi).trans_le (Nat.le_add_right _ _)

/-- Quadlets returned in order from the cursor on, which moves past them. -/
theorem taken_inv (h : Inv f) {off : ℕ} {ps : List ℕ} (hmod : off % 4 = f.driver.arReqReadBytes % 4)
    (hle : f.driver.arReqReadBytes ≤ off) (hend : off ≤ f.driver.written) (hsorted : ps.Pairwise (· < ·))
    (hin : ∀ p ∈ ps, f.driver.arReqReadBytes / 4 ≤ p ∧ p < off / 4) :
    Inv { f with
      driver := { f.driver with arReqReadBytes := off }
      took := f.took ++ ps.map (f.base + ·)
      got := f.got ++ ps.map fun p => lowByte (f.driver.arReq p) } := by
  refine ⟨h.res, h.quads, h.fits, hmod.trans h.aligned, hend, h.mem, ?_, ?_, ?_⟩
  · refine List.nodup_append'.2 ⟨h.once, ?_, ?_⟩
    · exact List.Nodup.map (fun a b hab => Nat.add_left_cancel hab) (hsorted.imp fun hab => Nat.ne_of_lt hab)
    · intro i hi hi'
      obtain ⟨p, hp, rfl⟩ := List.mem_map.1 hi'
      have hb := h.below _ hi
      have hp' := (hin p hp).1
      omega
  · intro i hi
    change i < f.base + off / 4
    rcases List.mem_append.1 hi with hi | hi
    · exact (h.below i hi).trans_le (Nat.add_le_add_left (Nat.div_le_div_right hle) _)
    · obtain ⟨p, hp, rfl⟩ := List.mem_map.1 hi
      exact Nat.add_lt_add_left (hin p hp).2 _
  · dsimp only
    rw [List.map_append, ← h.bytes, List.map_map]
    congr 1
    refine List.map_congr_left fun p hp => congrArg lowByte (h.get ?_)
    exact (hin p hp).2.trans_le (Nat.div_le_div_right hend)

/-- A poll returns quadlets from the cursor on and moves it past them. -/
theorem poll_inv (h : Inv f) (capacity : ℕ) : Inv (f.poll capacity) := by
  unfold poll MidiIn.midiInPoll MidiIn.taken
  by_cases hon : f.driver.midiInOn = true
  · have hout := f.driver.walk_out f.driver.written capacity f.driver.written f.driver.arReqReadBytes [] (Nat.zero_le _)
    obtain ⟨hmod, hle, hend, hsorted, hin⟩ :=
      f.driver.walk_reads f.driver.written capacity f.driver.written f.driver.arReqReadBytes [] (Nat.zero_le _) h.cursor
    simp only [List.nil_append, List.length_nil, Nat.sub_zero] at hout hsorted hin
    have hmoved := taken_inv h hmod hle hend hsorted hin
    rw [← hout] at hmoved
    rw [if_pos hon, if_pos hon]
    change Inv ({ f with
      driver := _
      took :=
        f.took ++ (f.driver.reads f.driver.written f.driver.written f.driver.arReqReadBytes capacity).map (f.base + ·)
      got := _ } : Feed)
    dsimp only
    split
    · exact rearm_inv hmoved
    · split
      · exact rearm_inv hmoved
      · exact hmoved
  · rw [if_neg hon, if_neg hon]
    simpa only [List.map_nil, List.append_nil] using h

theorem step_inv (f : Feed) (a : FeedAct) (g : Feed) (h : Inv f) (ha : f.Unread a) (hs : f.step a = some g) :
    Inv g := by
  cases a with
  | place ws =>
    simp only [step] at hs
    split at hs
    · rename_i hws
      cases hs
      exact place_inv h hws
    · cases hs
  | enable found highIndex =>
    cases hs
    exact enable_inv h ha
  | disable =>
    cases hs
    exact ⟨h.res, h.quads, h.fits, h.aligned, h.cursor, h.mem, h.once, h.below, h.bytes⟩
  | poll capacity =>
    cases hs
    exact poll_inv h capacity
  | rearm =>
    cases hs
    exact rearm_inv h

end Feed

/-- As `uf_hw_bring_up` leaves it. -/
def broughtUp : Feed where
  driver := { midiInOn := false, midiHighIndex := 0 }

theorem broughtUp_inv : Feed.Inv broughtUp :=
  ⟨le_refl _, by decide, Nat.zero_le _, rfl, Nat.zero_le _, fun _ hi => (nomatch hi), List.nodup_nil,
    fun _ hi => (nomatch hi), rfl⟩

/-- Whatever is stored, and in whatever order it is polled, re-armed, disabled and enabled
around: as long as each `MidiInEnable` finds nothing in the buffer that was returned
before, no quadlet is returned twice, and each byte is the low one of its quadlet. -/
theorem midi_once {acts : List FeedAct} {f : Feed} (hm : Meets Feed.step Feed.Unread broughtUp acts)
    (h : run Feed.step broughtUp acts = some f) :
    f.took.Nodup ∧ (∀ i ∈ f.took, i < f.placed.length) ∧ f.got = f.took.map fun i => lowByte (f.placed.getD i 0) := by
  have hinv := hm.inv Feed.Inv Feed.step_inv h broughtUp_inv
  exact ⟨hinv.once, fun i hi => hinv.low hi, hinv.bytes⟩

instance (f : Feed) : ∀ a, Decidable (f.Unread a)
  | .enable ff800Found _ => inferInstanceAs (Decidable (ff800Found = true → ∀ i ∈ f.took, i < f.base))
  | .place _ => .isTrue trivial
  | .disable => .isTrue trivial
  | .poll _ => .isTrue trivial
  | .rearm => .isTrue trivial

/-- The daemon restarts between two bytes. -/
def restarted (between : List FeedAct) : List FeedAct :=
  [.enable true 1, .place (short 0xfe).words, .poll 8] ++ between ++
    [.disable, .enable true 1, .place (short 0xf8).words, .poll 8]

/-- With a re-arm in between. -/
theorem midi_once_rearmed : ∃ f, run Feed.step broughtUp (restarted [.rearm]) = some f ∧
    f.took.Nodup ∧ f.got = [0xfe, 0xf8] := by
  have h : (run Feed.step broughtUp (restarted [.rearm])).map (fun f => f.got) = some [0xfe, 0xf8] := by decide +kernel
  obtain ⟨f, hf, hgot⟩ := Option.map_eq_some_iff.1 h
  exact ⟨f, hf, (midi_once (by decide +kernel) hf).1, hgot⟩

/-- Without one, the first byte is returned again. -/
theorem midi_replayed : ∃ f, run Feed.step broughtUp (restarted []) = some f ∧
    ¬ f.took.Nodup ∧ f.got = [0xfe, 0xfe, 0xf8] := by
  have h : (run Feed.step broughtUp (restarted [])).map (fun f => (f.took, f.got)) =
      some ([3, 3, 8], [0xfe, 0xfe, 0xf8]) := by decide +kernel
  obtain ⟨f, hf, hsame⟩ := Option.map_eq_some_iff.1 h
  obtain ⟨htook, hgot⟩ := Prod.mk.inj hsame
  refine ⟨f, hf, ?_, hgot⟩
  rw [htook]
  decide

end UserFace800.Dext
