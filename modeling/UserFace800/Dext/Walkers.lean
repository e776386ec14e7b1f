import UserFace800.Dext.MidiReplay
import Mathlib.Data.List.TakeWhile
/-!
# The two walkers of the AR-request buffer

Peers read from us as well as write to us: config ROM and CSR reads lie in the buffer
between the MIDI writes. `DebugPollInbound` sizes every request there is, `MidiInPoll`
only the writes; a read it takes for a loss of alignment, and what is behind the read goes
with the buffer. `walkers_agree` says the two find the same packets, and no MIDI byte is
lost, exactly if none of the requests is a read.
-/
open UserFace800.Lib

namespace UserFace800.Dext

/-! ## Requests of any kind -/

/-- A well-formed request as the controller stores it, trailer included. -/
inductive PeerRequest where
  | write (r : Inbound)
  | readQuadlet (q0 q1 q2 trailer : Quadlet) (wf : tcode q0 = 4)
  | readBlock (q0 q1 q2 q3 trailer : Quadlet) (wf : tcode q0 = 5)

/-- What `DebugPollInbound` logs of a packet. -/
structure InboundLine where
  tcode : ℕ
  src : BitVec 16
  addr : BitVec 64
  len : ℕ
  deriving DecidableEq

/-- The log line of a request. -/
def inboundLine (q0 q1 q2 : Quadlet) (len : ℕ) : InboundLine where
  tcode := tcode q0
  src := (q1 >>> 16).setWidth 16
  addr := destOffset q1 q2
  len := len

namespace PeerRequest

/-- The request as it lies in the buffer. -/
def words : PeerRequest → List Quadlet
  | .write r => r.words
  | .readQuadlet q0 q1 q2 trailer _ => [q0, q1, q2, trailer]
  | .readBlock q0 q1 q2 q3 trailer _ => [q0, q1, q2, q3, trailer]

/-- It asks for data. -/
def isRead : PeerRequest → Bool
  | .write _ => false
  | .readQuadlet .. | .readBlock .. => true

/-- The MIDI bytes it carries; a read carries none. -/
def midi (index : BitVec 16) : PeerRequest → List Byte
  | .write r => r.midi index
  | .readQuadlet .. | .readBlock .. => []

/-- The line it should be logged with. -/
def line : PeerRequest → InboundLine
  | .write (.quadlet q0 q1 q2 ..) => inboundLine q0 q1 q2 0
  | .write (.block q0 q1 q2 q3 ..) => inboundLine q0 q1 q2 (dataLen q3)
  | .readQuadlet q0 q1 q2 .. => inboundLine q0 q1 q2 0
  | .readBlock q0 q1 q2 q3 .. => inboundLine q0 q1 q2 (dataLen q3)

end PeerRequest

/-! ## The walkers -/

namespace MidiIn

/-- The packet at `off`: what is logged of it, and its extent, 0 if its tcode is none of the four. -/
def inbound (s : MidiIn) (off : ℕ) : InboundLine × ℕ :=
  let o := off / 4
  let line := inboundLine (s.arReq o) (s.arReq (o + 1)) (s.arReq (o + 2))
  let len := dataLen (s.arReq (o + 3))
  match tcode (s.arReq o) with
  | 0x0 => (line 0, 16 + 4)
  | 0x1 => (line len, 16 + (len + 3) / 4 * 4 + 4)
  | 0x4 => (line 0, 12 + 4)
  | 0x5 => (line len, 16 + 4)
  | _ => (line 0, 0)

/-- The `while` loop of `DebugPollInbound`, with the lines logged so far. -/
def debugWalk (s : MidiIn) (written : ℕ) : ℕ → ℕ → List InboundLine → ℕ × List InboundLine
  | 0, off, lines => (off, lines)
  | fuel + 1, off, lines =>
    if off + 16 ≤ written then
      let (line, adv) := s.inbound off
      -- unknown: skip the rest
      if adv = 0 then (written, lines ++ [line])
      else s.debugWalk written fuel (off + adv) (lines ++ [line])
    else (off, lines)

/-- `DebugPollInbound`: its own cursor afterwards, and the lines. -/
def debugPollInbound (s : MidiIn) (dbgArReadBytes : ℕ) : ℕ × List InboundLine :=
  s.debugWalk s.written s.written dbgArReadBytes []

/-- The buffer: whole requests, then the beginning of one that is still coming in, cut
off at any quadlet or within one. -/
structure Filled (s : MidiIn) (rs : List PeerRequest) (tail : List Quadlet) : Prop where
  holds : s.Holds 0 (rs.flatMap PeerRequest.words ++ tail)
  room : s.resCount ≤ kARBufferBytes
  written : s.written / 4 = (rs.flatMap PeerRequest.words ++ tail).length
  incomplete : ∃ r : PeerRequest, tail <+: r.words ∧ tail.length < r.words.length

/-- A walk from the front: where the cursor is after `n` turns. -/
def midiCursor (s : MidiIn) (capacity n : ℕ) : ℕ := (s.walk s.written capacity n 0 []).off

/-- Where the debug walker stands after `n` turns. -/
def debugCursor (s : MidiIn) (n : ℕ) : ℕ := (s.debugWalk s.written n 0 []).1

/-- Both walkers come to rest at the same places of what is written, and `MidiInPoll`
returns the bytes of every request. -/
structure Agrees (s : MidiIn) (capacity : ℕ) (rs : List PeerRequest) : Prop where
  boundaries : ∀ off ≤ s.written, (∃ n, s.midiCursor capacity n = off) ↔ ∃ n, s.debugCursor n = off
  midi : (s.midiInPoll capacity).2 = rs.flatMap (PeerRequest.midi s.midiHighIndex)

end MidiIn

/-! ## What a header says -/

namespace PeerRequest

/-- The quadlet the requests so far end at. -/
def extent (rs : List PeerRequest) : ℕ := (rs.flatMap words).length

@[simp] theorem extent_nil : extent [] = 0 := rfl

@[simp] theorem extent_cons (r : PeerRequest) (rs : List PeerRequest) :
    extent (r :: rs) = r.words.length + extent rs := by
  rw [extent, List.flatMap_cons, List.length_append, extent]

@[simp] theorem extent_append (rs qs : List PeerRequest) : extent (rs ++ qs) = extent rs + extent qs := by
  rw [extent, List.flatMap_append, List.length_append, extent, extent]

theorem words_length (r : PeerRequest) : 4 ≤ r.words.length := by
  rcases r with (_ | _) | _ | _ <;> simp [words, Inbound.words]

/-- A request has at most a byte for each of its quadlets. -/
theorem midi_length (index : BitVec 16) (r : PeerRequest) : (r.midi index).length ≤ r.words.length := by
  rcases r with (_ | _) | _ | _
  · simp only [midi, Inbound.midi, words, Inbound.words]
    split <;> simp
  · simp only [midi, Inbound.midi, words, Inbound.words]
    split <;> simp
    omega
  · exact Nat.zero_le _
  · exact Nat.zero_le _

end PeerRequest

namespace MidiIn

variable {s : MidiIn}

open PeerRequest

/-- The first four quadlets of a request, which a trailer may be one of, say what it is. -/
theorem inbound_eq (r : PeerRequest) {o : ℕ} (h : ∀ i < 4, s.arReq (o + i) = r.words.getD i 0) :
    s.inbound (4 * o) = (r.line, 4 * r.words.length) := by
  have ho : 4 * o / 4 = o := Nat.mul_div_cancel_left o (by decide)
  have h0 := h 0 (by decide)
  have h1 := h 1 (by decide)
  have h2 := h 2 (by decide)
  have h3 := h 3 (by decide)
  unfold inbound
  rcases r with (⟨q0, q1, q2, data, trailer, wf⟩ | ⟨q0, q1, q2, q3, payload, trailer, wf, len⟩) |
    ⟨q0, q1, q2, trailer, wf⟩ | ⟨q0, q1, q2, q3, trailer, wf⟩
  all_goals
    simp only [words, Inbound.words, List.cons_append, List.getD_cons_zero, List.getD_cons_succ,
      Nat.add_zero] at h0 h1 h2 h3
    simp only [ho, h0, h1, h2, h3, wf, line, words, Inbound.words, List.length_cons, List.length_append,
      List.length_nil]
  -- left is the block write, whose payload is as long as its header says
  rw [len]
  congr 1
  omega

/-- Both walkers size a write alike. -/
theorem inbound_block {o : ℕ} (h : tcode (s.arReq o) = 1) :
    (s.inbound (4 * o)).2 = 16 + (dataLen (s.arReq (o + 3)) + 3) / 4 * 4 + 4 := by
  rw [inbound, Nat.mul_div_cancel_left o (by decide), h]
  rfl

theorem inbound_quadlet {o : ℕ} (h : tcode (s.arReq o) = 0) : (s.inbound (4 * o)).2 = 20 := by
  rw [inbound, Nat.mul_div_cancel_left o (by decide), h]
  rfl

theorem Holds.getD {o : ℕ} {ws : List Quadlet} (h : s.Holds o ws) {i : ℕ} (hi : i < ws.length) :
    s.arReq (o + i) = ws.getD i 0 := by
  rw [h i hi, List.getD_eq_getElem _ _ hi]

/-- An incomplete request is sized as the whole one, once its header is there. -/
theorem inbound_incomplete {r : PeerRequest} {tail : List Quadlet} {o : ℕ} (hm : s.Holds o tail) (hr : tail <+: r.words)
    (hfour : 4 ≤ tail.length) : s.inbound (4 * o) = (r.line, 4 * r.words.length) := by
  refine inbound_eq r fun i hi => ?_
  rw [hm.getD (by omega)]
  obtain ⟨rest, hrest⟩ := hr
  rw [← hrest, List.getD_append _ _ _ _ (by omega)]

/-- The debug walker goes past whole requests one by one, of any kind. -/
theorem debugWalk_requests (rs : List PeerRequest) (n : ℕ) (lines : List InboundLine) {written o : ℕ}
    (hm : s.Holds o (rs.flatMap words)) (hw : 4 * (o + extent rs) ≤ written) :
    s.debugWalk written (n + rs.length) (4 * o) lines =
      s.debugWalk written n (4 * (o + extent rs)) (lines ++ rs.map line) := by
  induction rs generalizing o lines with
  | nil => simp
  | cons r rs ih =>
    rw [List.flatMap_cons] at hm
    rw [extent_cons] at hw
    have hlen := r.words_length
    have hr : s.inbound (4 * o) = (r.line, 4 * r.words.length) :=
      inbound_eq r fun i hi => hm.left.getD (by omega)
    rw [List.length_cons, ← Nat.add_assoc, debugWalk, if_pos (by omega), hr]
    dsimp only
    rw [if_neg (by omega), ← Nat.mul_add, ih _ hm.right (by omega), extent_cons, Nat.add_assoc, List.map_cons,
      List.append_assoc, List.singleton_append]

/-- Of an incomplete request it logs a line as soon as the header is there, and goes past what is written. -/
theorem debugWalk_incomplete {r : PeerRequest} {tail : List Quadlet} {written o : ℕ} (n : ℕ) (lines : List InboundLine)
    (hm : s.Holds o tail) (hr : tail <+: r.words) (hlt : tail.length < r.words.length)
    (hw : written / 4 = o + tail.length) :
    (s.debugWalk written n (4 * o) lines).1 = 4 * o ∨ written < (s.debugWalk written n (4 * o) lines).1 := by
  cases n with
  | zero => exact .inl rfl
  | succ n =>
    rw [debugWalk]
    split
    · right
      have hfour : 4 ≤ tail.length := by omega
      rw [inbound_incomplete hm hr hfour]
      dsimp only
      rw [if_neg (by omega)]
      -- the next turn finds too little written for another header
      cases n with
      | zero =>
        rw [debugWalk]
        dsimp only
        omega
      | succ n =>
        rw [debugWalk, if_neg (by omega)]
        dsimp only
        omega
    · exact .inl rfl

/-- With room for everything `MidiInPoll` goes past whole writes one by one. -/
theorem walk_writes (rs : List PeerRequest) (n : ℕ) (out : List Byte) {written capacity o : ℕ}
    (hm : s.Holds o (rs.flatMap words))
    (hrs : ∀ r ∈ rs, r.isRead = false) (hw : 4 * (o + extent rs) ≤ written) (hb : written ≤ kARBufferBytes)
    (hcap : kARBufferBytes ≤ capacity) (hout : out.length ≤ o) :
    s.walk written capacity (n + rs.length) (4 * o) out =
      s.walk written capacity n (4 * (o + extent rs)) (out ++ rs.flatMap (PeerRequest.midi s.midiHighIndex)) := by
  induction rs generalizing o out with
  | nil => simp
  | cons r rs ih =>
    rw [List.flatMap_cons] at hm
    rw [extent_cons] at hw
    have hlen := r.words_length
    have hmidi := r.midi_length s.midiHighIndex
    obtain ⟨hr, hrest⟩ := List.forall_mem_cons.1 hrs
    cases r with
    | write r =>
      have hsize : r.size = 4 * (PeerRequest.write r).words.length := rfl
      have htake : (r.midi s.midiHighIndex).take (capacity - out.length) = (PeerRequest.write r).midi s.midiHighIndex :=
        List.take_of_length_le (show ((PeerRequest.write r).midi s.midiHighIndex).length ≤ _ by omega)
      rw [List.length_cons, ← Nat.add_assoc, walk_cons r hm.left (by omega) hb (by omega), htake]
      rw [show r.words.length = (PeerRequest.write r).words.length from rfl]
      rw [ih _ hm.right hrest (by omega) (by rw [List.length_append]; omega), extent_cons, Nat.add_assoc,
        List.flatMap_cons, List.append_assoc]
    | readQuadlet => cases hr
    | readBlock => cases hr

/-- It stops in front of a read, having returned what it had. -/
theorem walk_read {r : PeerRequest} {written capacity n o : ℕ} {out : List Byte} (hm : s.Holds o r.words)
    (hr : r.isRead = true) : (s.walk written capacity n (4 * o) out).off = 4 * o ∧
      (s.walk written capacity n (4 * o) out).out = out := by
  have ho : 4 * o / 4 = o := Nat.mul_div_cancel_left o (by decide)
  have hlen := r.words_length
  have h0 := hm.getD (show 0 < r.words.length by omega)
  rw [Nat.add_zero] at h0
  have htcode : tcode (s.arReq o) = 4 ∨ tcode (s.arReq o) = 5 := by
    rw [h0]
    cases r with
    | write r => cases hr
    | readQuadlet q0 q1 q2 trailer wf => exact .inl wf
    | readBlock q0 q1 q2 q3 trailer wf => exact .inr wf
  cases n with
  | zero => exact ⟨rfl, rfl⟩
  | succ n =>
    rw [walk, ho]
    dsimp only
    split
    · rw [if_neg (by omega), if_neg (by omega)]
      exact ⟨rfl, rfl⟩
    · exact ⟨rfl, rfl⟩

/-- And in front of an incomplete request. -/
theorem walk_incomplete {r : PeerRequest} {tail : List Quadlet} {written capacity n o : ℕ} {out : List Byte}
    (hm : s.Holds o tail) (hr : tail <+: r.words) (hlt : tail.length < r.words.length)
    (hw : written / 4 = o + tail.length) :
    (s.walk written capacity n (4 * o) out).off = 4 * o ∧ (s.walk written capacity n (4 * o) out).out = out := by
  have ho : 4 * o / 4 = o := Nat.mul_div_cancel_left o (by decide)
  cases n with
  | zero => exact ⟨rfl, rfl⟩
  | succ n =>
    rw [walk, ho]
    dsimp only
    split
    · rename_i hgo
      have hadv := inbound_incomplete hm hr (by omega)
      split
      · rename_i htcode
        have hsize := inbound_block htcode
        rw [hadv] at hsize
        rw [if_pos (by omega)]
        exact ⟨rfl, rfl⟩
      · split
        · rename_i htcode
          have hsize := inbound_quadlet htcode
          rw [hadv] at hsize
          rw [if_pos (by omega)]
          exact ⟨rfl, rfl⟩
        · exact ⟨rfl, rfl⟩
    · exact ⟨rfl, rfl⟩

theorem length_le_extent (rs : List PeerRequest) : rs.length ≤ extent rs := by
  induction rs with
  | nil => exact Nat.zero_le _
  | cons r rs ih =>
    have hlen := r.words_length
    rw [List.length_cons, extent_cons]
    omega

/-! ## The two walks of a buffer -/

variable {rs : List PeerRequest} {tail : List Quadlet}

theorem Filled.complete (h : s.Filled rs tail) : 4 * (extent rs + tail.length) ≤ s.written := by
  have hw := h.written
  rw [List.length_append] at hw
  have : extent rs = (rs.flatMap words).length := rfl
  omega

theorem Filled.le (_ : s.Filled rs tail) : s.written ≤ kARBufferBytes := Nat.sub_le _ _

/-- What is written past the whole requests is the incomplete one. -/
theorem Filled.tail_written (h : s.Filled rs tail) : s.written / 4 = extent rs + tail.length := by
  rw [h.written, List.length_append, extent]

theorem Filled.tail_holds (h : s.Filled rs tail) : s.Holds (extent rs) tail := by
  have hm := h.holds.right
  rw [Nat.zero_add] at hm
  exact hm

theorem debugWalk_lines (written n off : ℕ) (lines : List InboundLine) :
    lines <+: (s.debugWalk written n off lines).2 := by
  induction n generalizing off lines with
  | zero => exact List.prefix_refl _
  | succ n ih =>
    rw [debugWalk]
    split
    · split
      split
      · exact List.prefix_append _ _
      · exact (List.prefix_append _ _).trans (ih _ _)
    · exact List.prefix_refl _

/-- Every whole request is logged, in order, whatever it is. -/
theorem debugPollInbound_lines (h : s.Filled rs tail) : rs.map line <+: (s.debugPollInbound 0).2 := by
  have hcomplete := h.complete
  have hlen := length_le_extent rs
  obtain ⟨m, hm⟩ := Nat.exists_eq_add_of_le' (show rs.length ≤ s.written by omega)
  have hwalk := debugWalk_requests rs m [] h.holds.left (show 4 * (0 + extent rs) ≤ s.written by omega)
  rw [← hm] at hwalk
  rw [debugPollInbound, show (0 : ℕ) = 4 * 0 from rfl, hwalk]
  exact debugWalk_lines _ _ _ _

theorem debugCursor_iff (h : s.Filled rs tail) {off : ℕ} (hoff : off ≤ s.written) :
    (∃ n, s.debugCursor n = off) ↔ ∃ n, 4 * extent (rs.take n) = off := by
  have hcomplete := h.complete
  have hle : ∀ n, extent (rs.take n) ≤ extent rs := by
    intro n
    conv_rhs => rw [← List.take_append_drop n rs, extent_append]
    exact Nat.le_add_right _ _
  have hcursor : ∀ n ≤ rs.length, s.debugCursor n = 4 * extent (rs.take n) := by
    intro n hn
    have hmn : s.Holds 0 ((rs.take n).flatMap words) := by
      have hm := h.holds.left
      rw [← List.take_append_drop n rs, List.flatMap_append] at hm
      exact hm.left
    have hwalk :=
      debugWalk_requests (rs.take n) 0 [] hmn (show 4 * (0 + extent (rs.take n)) ≤ s.written by have := hle n; omega)
    rw [List.length_take, Nat.min_eq_left hn, Nat.zero_add, Nat.zero_add] at hwalk
    rw [debugCursor, hwalk, debugWalk]
  constructor
  · rintro ⟨n, rfl⟩
    rcases Nat.le_total n rs.length with hn | hn
    · exact ⟨n, (hcursor n hn).symm⟩
    · obtain ⟨m, rfl⟩ := Nat.exists_eq_add_of_le' hn
      obtain ⟨r, hr, hlt⟩ := h.incomplete
      refine ⟨rs.length, ?_⟩
      rw [List.take_length]
      have hwalk := debugWalk_requests rs m [] h.holds.left (show 4 * (0 + extent rs) ≤ s.written by omega)
      rw [Nat.zero_add] at hwalk
      unfold debugCursor at hoff ⊢
      rw [hwalk] at hoff ⊢
      rcases debugWalk_incomplete m ([] ++ rs.map line) h.tail_holds hr hlt h.tail_written with heq | hgt
      · exact heq.symm
      · exact absurd hoff (Nat.not_le.2 hgt)
  · rintro ⟨n, rfl⟩
    rcases Nat.le_total n rs.length with hn | hn
    · exact ⟨n, hcursor n hn⟩
    · refine ⟨rs.length, ?_⟩
      rw [hcursor _ (le_refl _), List.take_length, List.take_of_length_le hn]

/-- The writes in front of the first read. -/
def served (rs : List PeerRequest) : List PeerRequest := rs.takeWhile fun r => !r.isRead

theorem served_spec (rs : List PeerRequest) : ∃ rest, rs = served rs ++ rest ∧ (∀ r ∈ served rs, r.isRead = false) ∧
    ∀ r, rest.head? = some r → r.isRead = true := by
  refine ⟨rs.dropWhile fun r => !r.isRead, List.takeWhile_append_dropWhile.symm, fun r hr => ?_, fun r hr => ?_⟩
  · simpa using List.mem_takeWhile_imp hr
  · have hne : rs.dropWhile (fun r => !r.isRead) ≠ [] := by
      intro hnil
      rw [hnil] at hr
      cases hr
    have hhead := List.head_dropWhile_not (fun r : PeerRequest => !r.isRead) hne
    rw [List.head?_eq_some_head hne] at hr
    rw [Option.some.inj hr] at hhead
    simpa using hhead

/-- `MidiInPoll` serves the writes in front of the first read, and comes no further. -/
theorem walk_served (h : s.Filled rs tail) {capacity : ℕ} (hcap : kARBufferBytes ≤ capacity) (n : ℕ) :
    (s.walk s.written capacity n 0 []).off = 4 * extent ((served rs).take n) ∧
      ((served rs).length ≤ n →
        (s.walk s.written capacity n 0 []).out = (served rs).flatMap (PeerRequest.midi s.midiHighIndex)) := by
  obtain ⟨rest, hrs, hwrites, hread⟩ := served_spec rs
  have hcomplete := h.complete
  have hm := h.holds.left
  rw [hrs, List.flatMap_append] at hm
  rw [hrs, extent_append] at hcomplete
  -- after the served requests every further turn ends where it is
  have hstuck : ∀ m out, (s.walk s.written capacity m (4 * extent (served rs)) out).off = 4 * extent (served rs) ∧
      (s.walk s.written capacity m (4 * extent (served rs)) out).out = out := by
    intro m out
    cases rest with
    | nil =>
      obtain ⟨r, hr, hlt⟩ := h.incomplete
      have htail := h.tail_holds
      have hwritten := h.tail_written
      rw [hrs, List.append_nil] at htail hwritten
      exact walk_incomplete htail hr hlt hwritten
    | cons r rest =>
      have hr := hm.right
      rw [Nat.zero_add, List.flatMap_cons] at hr
      exact walk_read hr.left (hread r rfl)
  have hwalk : ∀ (qs : List PeerRequest) m, (∃ more, served rs = qs ++ more) →
      s.walk s.written capacity (m + qs.length) 0 [] =
        s.walk s.written capacity m (4 * extent qs) (qs.flatMap (PeerRequest.midi s.midiHighIndex)) := by
    rintro qs m ⟨more, hmore⟩
    rw [hmore, List.flatMap_append] at hm
    rw [hmore, extent_append] at hcomplete
    have hgo := walk_writes qs m [] hm.left.left
      (fun r hr => hwrites r (hmore ▸ List.mem_append_left _ hr)) (by omega) h.le hcap (Nat.zero_le _)
    rw [Nat.mul_zero, Nat.zero_add, List.nil_append] at hgo
    exact hgo
  rcases Nat.le_total n (served rs).length with hn | hn
  · have htake : ((served rs).take n).length = n := by rw [List.length_take, Nat.min_eq_left hn]
    have hgo := hwalk ((served rs).take n) 0 ⟨_, (List.take_append_drop n _).symm⟩
    rw [htake, Nat.zero_add] at hgo
    rw [hgo, walk]
    refine ⟨rfl, fun hle => ?_⟩
    rw [List.take_of_length_le hle]
  · obtain ⟨m, rfl⟩ := Nat.exists_eq_add_of_le' hn
    rw [hwalk (served rs) m ⟨[], (List.append_nil _).symm⟩, List.take_of_length_le (Nat.le_add_left _ _)]
    exact ⟨(hstuck m _).1, fun _ => (hstuck m _).2⟩

theorem midiInPoll_out (hon : s.midiInOn = true) (hstart : s.arReqReadBytes = 0) (capacity : ℕ) :
    (s.midiInPoll capacity).2 = (s.walk s.written capacity s.written 0 []).out := by
  unfold midiInPoll
  rw [if_pos hon, hstart]
  dsimp only
  split
  · rfl
  · split <;> rfl

/-- Each walker from the front of the buffer, `MidiInPoll` with room for everything: they
agree exactly if no request is a read. -/
theorem walkers_agree (h : s.Filled rs tail) (hon : s.midiInOn = true) (hstart : s.arReqReadBytes = 0) {capacity : ℕ}
    (hcap : kARBufferBytes ≤ capacity) : s.Agrees capacity rs ↔ ∀ r ∈ rs, r.isRead = false := by
  have hcomplete := h.complete
  obtain ⟨rest, hrs, hwrites, -⟩ := served_spec rs
  have hmidi : ∀ n, s.midiCursor capacity n = 4 * extent ((served rs).take n) := fun n => (walk_served h hcap n).1
  constructor
  · intro hagrees
    -- the debug walker comes to the end of the last request, `MidiInPoll` only to that of the served ones
    obtain ⟨n, hn⟩ := (hagrees.boundaries (4 * extent rs) (by omega)).2
      ((debugCursor_iff h (by omega)).2 ⟨rs.length, by rw [List.take_length]⟩)
    rw [hmidi] at hn
    have hle : extent ((served rs).take n) ≤ extent (served rs) := by
      conv_rhs => rw [← List.take_append_drop n (served rs), extent_append]
      exact Nat.le_add_right _ _
    have hsum : extent rs = extent (served rs) + extent rest := by
      conv_lhs => rw [hrs, extent_append]
    have hrest := length_le_extent rest
    have hnil : rest = [] := List.length_eq_zero_iff.1 (by omega)
    rw [hnil, List.append_nil] at hrs
    rw [hrs]
    exact hwrites
  · intro hall
    have hserved : served rs = rs := List.takeWhile_eq_self_iff.2 fun r hr => by rw [hall r hr]; rfl
    constructor
    · intro off hoff
      rw [debugCursor_iff h hoff]
      simp only [hmidi, hserved]
    · have hlen := length_le_extent rs
      rw [midiInPoll_out hon hstart, (walk_served h hcap _).2 (by rw [hserved]; omega), hserved]

/-- Two MIDI bytes, and the beginning of a read. -/
def twoWrites : List PeerRequest := [.write (short 0x90), .write (short 0xfe)]

/-- A buffer that the quadlets are the front of. -/
def bufferOf (ws : List Quadlet) : MidiIn where
  midiHighIndex := 1
  arReq := fun i => ws.getD i 0
  resCount := kARBufferBytes - 4 * ws.length

theorem bufferOf_holds (ws : List Quadlet) : (bufferOf ws).Holds 0 ws := by
  intro i hi
  rw [Nat.zero_add]
  exact List.getD_eq_getElem _ _ hi

theorem walkers_agree_writes : (bufferOf (twoWrites.flatMap words ++ [0x40, 0])).Filled twoWrites [0x40, 0] ∧
    (bufferOf (twoWrites.flatMap words ++ [0x40, 0])).Agrees 4096 twoWrites := by
  have h : (bufferOf (twoWrites.flatMap words ++ [0x40, 0])).Filled twoWrites [0x40, 0] := by
    exact ⟨bufferOf_holds _, by decide, by decide, .readQuadlet 0x40 0 0 0 rfl, ⟨[0, 0], rfl⟩, by decide⟩
  exact ⟨h, (walkers_agree h rfl rfl (le_refl _)).2 (by decide)⟩

theorem tcode_read : tcode 0x40 = 4 := rfl

/-- A read of ours, say of the config ROM, and a MIDI byte behind it. -/
def readFirst : List PeerRequest := [.readQuadlet 0x40 0xffff 0xf0000400 0 tcode_read, .write (short 0xfe)]

theorem read_hides : (bufferOf (readFirst.flatMap words)).Filled readFirst [] ∧
    ((bufferOf (readFirst.flatMap words)).midiInPoll 4096).2 = [] ∧
    readFirst.flatMap (PeerRequest.midi 1) = [0xfe] ∧ ¬ (bufferOf (readFirst.flatMap words)).Agrees 4096 readFirst := by
  have hpoll : ((bufferOf (readFirst.flatMap words)).midiInPoll 4096).2 = [] := by decide +kernel
  have hholds : (bufferOf (readFirst.flatMap words)).Holds 0 (readFirst.flatMap words ++ []) := by
    rw [List.append_nil]
    exact bufferOf_holds _
  refine ⟨⟨hholds, by decide, by decide, .readQuadlet 0x40 0 0 0 rfl, List.nil_prefix, by decide⟩, hpoll, by decide, ?_⟩
  intro hagrees
  have hmidi := hagrees.midi
  rw [hpoll] at hmidi
  exact absurd hmidi (by decide)

end MidiIn

end UserFace800.Dext
