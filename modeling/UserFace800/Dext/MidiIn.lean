import UserFace800.Lib.Run
import Mathlib.Data.List.GetD
import Mathlib.Data.BitVec
import Mathlib.Tactic.IntervalCases
/-!
# MIDI in

The FF800 writes MIDI to an address of ours, and the controller puts these
requests, one after the other and each with a trailer, into the AR-request
buffer. `MidiInPoll` walks the buffer from where it last stopped and returns the
low byte of each payload quadlet, at most eight. `midi_in` says what the polls
return in all: every byte of the requests they reach, in order, and they reach
every request unless the buffer has become full.
-/
open UserFace800.Lib

namespace UserFace800.Dext

/-- A quadlet of a request. -/
abbrev Quadlet := BitVec 32

/-- A MIDI byte. -/
abbrev Byte := BitVec 8

/-- The size of the request buffer. -/
def kARBufferBytes : ℕ := 4096

theorem kARBufferBytes_eq : kARBufferBytes = 4096 := rfl

/-- The transaction code in the first quadlet. -/
def tcode (q0 : Quadlet) : ℕ := ((q0 >>> 4) &&& 0xf).toNat

/-- The length of a block in the fourth. -/
def dataLen (q3 : Quadlet) : ℕ := (q3 >>> 16).toNat

/-- The MIDI byte of a quadlet. -/
def lowByte (q : Quadlet) : Byte := (q &&& 0xff).setWidth 8

/-- The 48-bit destination offset, and the high part of it that MIDI is told by. -/
def destOffset (q1 q2 : Quadlet) : BitVec 64 := ((q1 &&& 0xffff).setWidth 64 <<< 32) ||| q2.setWidth 64

/-- The upper half of the offset is the MIDI address's. -/
def addressed (midiHighIndex : BitVec 16) (q1 q2 : Quadlet) : Bool :=
  destOffset q1 q2 >>> 32 == midiHighIndex.setWidth 64

/-! ## Inbound requests -/

/-- A well-formed write request as the controller stores it, trailer included. -/
inductive Inbound where
  | quadlet (q0 q1 q2 data trailer : Quadlet) (wf : tcode q0 = 0)
  | block (q0 q1 q2 q3 : Quadlet) (payload : List Quadlet) (trailer : Quadlet) (wf : tcode q0 = 1)
      (len : payload.length = (dataLen q3 + 3) / 4)

namespace Inbound

/-- The request as it lies in the buffer. -/
def words : Inbound → List Quadlet
  | .quadlet q0 q1 q2 data trailer _ => [q0, q1, q2, data, trailer]
  | .block q0 q1 q2 q3 payload trailer _ _ => q0 :: q1 :: q2 :: q3 :: payload ++ [trailer]

/-- Its bytes there. -/
def size (r : Inbound) : ℕ := 4 * r.words.length

/-- The MIDI bytes of a request: the low byte of each payload quadlet, if it is
addressed to us. -/
def midi (index : BitVec 16) : Inbound → List Byte
  | .quadlet _ q1 q2 data _ _ => if addressed index q1 q2 then [lowByte data] else []
  | .block _ q1 q2 _ payload _ _ _ => if addressed index q1 q2 then payload.map lowByte else []

end Inbound

/-- The bytes of several. -/
def bytes (rs : List Inbound) : ℕ := (rs.map Inbound.size).sum

/-! ## The driver -/

/-- The driver's part of MIDI input: the request buffer, and how far it is read. -/
structure MidiIn where
  midiInOn : Bool := true
  midiHighIndex : BitVec 16
  arReq : ℕ → Quadlet := fun _ => 0
  resCount : ℕ := kARBufferBytes
  arReqReadBytes : ℕ := 0

/-- Where a walk of the buffer stopped, and what it returns. -/
structure Walk where
  off : ℕ
  out : List Byte
  desync : Bool

namespace MidiIn

/-- `uf_arreq_rearm`. -/
def rearm (s : MidiIn) : MidiIn := { s with resCount := kARBufferBytes, arReqReadBytes := 0 }

/-- The payload loop: `count` quadlets from the `o`-th of the buffer, as far as there is room. -/
def payloadBytes (s : MidiIn) (o count room : ℕ) : List Byte :=
  ((List.range count).take room).map fun i => lowByte (s.arReq (o + i))

/-- The `while` loop; each turn moves on by 20 bytes at least. -/
def walk (s : MidiIn) (written capacity : ℕ) : ℕ → ℕ → List Byte → Walk
  | 0, off, out => ⟨off, out, false⟩
  | fuel + 1, off, out =>
    if off + 16 ≤ written ∧ out.length < capacity then
      let o := off / 4
      let hit := addressed s.midiHighIndex (s.arReq (o + 1)) (s.arReq (o + 2))
      if tcode (s.arReq o) = 1 then
        let len := dataLen (s.arReq (o + 3))
        let adv := 16 + (len + 3) / 4 * 4 + 4
        if len > kARBufferBytes ∨ off + adv > written then ⟨off, out, true⟩
        else
          s.walk written capacity fuel (off + adv)
            (if hit then out ++ s.payloadBytes (o + 4) ((len + 3) / 4) (capacity - out.length) else out)
      else if tcode (s.arReq o) = 0 then
        if off + 20 > written then ⟨off, out, false⟩
        else s.walk written capacity fuel (off + 20) (if hit then out ++ [lowByte (s.arReq (o + 3))] else out)
      else ⟨off, out, true⟩
    else ⟨off, out, false⟩

/-- `MidiInPoll`: the driver afterwards and the bytes. -/
def midiInPoll (s : MidiIn) (capacity : ℕ) : MidiIn × List Byte :=
  if s.midiInOn then
    let written := kARBufferBytes - s.resCount
    let w := s.walk written capacity written s.arReqReadBytes []
    let s := { s with arReqReadBytes := w.off }
    if w.desync then (s.rearm, w.out)
    -- recycled whether or not everything in it was read
    else if s.resCount = 0 then (s.rearm, w.out)
    else (s, w.out)
  else (s, [])

/-- The controller places a request behind the others. -/
def receive (s : MidiIn) (r : Inbound) : MidiIn :=
  let base := (kARBufferBytes - s.resCount) / 4
  { s with
    arReq := fun i => if base ≤ i then r.words.getD (i - base) (s.arReq i) else s.arReq i
    resCount := s.resCount - r.size }

end MidiIn

/-! ## The user client -/

/-- `kUFOhciMidiInPoll`: the bytes from the `i`-th on, packed into one scalar. -/
def packBytes : ℕ → List Byte → BitVec 64
  | _, [] => 0
  | i, b :: bs => if i < 8 then (b.setWidth 64 <<< (8 * i)) ||| packBytes (i + 1) bs else 0

/-- `midi_poll_in`: the daemon takes them apart again. -/
def unpackBytes (count : ℕ) (packed : BitVec 64) : List Byte :=
  if count = 0 ∨ count > 8 then []
  else (List.range count).map fun i => ((packed >>> (8 * i)) &&& 0xff).setWidth 8

/-- The driver, the requests placed so far and the bytes the polls returned. -/
structure Port where
  driver : MidiIn
  placed : List Inbound := []
  got : List Byte := []

/-- The device sends a request, or the daemon polls. -/
inductive PortAct where
  | place (r : Inbound)
  | poll

namespace Port

/-- The daemon's poll takes eight bytes at most, packed into a scalar. -/
def poll (p : Port) : Port :=
  let r := p.driver.midiInPoll 8
  { p with driver := r.1, got := p.got ++ unpackBytes r.2.length (packBytes 0 r.2) }

/-- Requests are placed as long as they fit into the buffer in all. -/
def step (p : Port) : PortAct → Option Port
  | .place r =>
    if bytes p.placed + r.size ≤ kARBufferBytes then
      some { p with driver := p.driver.receive r, placed := p.placed ++ [r] }
    else none
  | .poll => some p.poll

end Port

/-- MIDI in just enabled, with the buffer empty. -/
def enabled (index : BitVec 16) : Port where
  driver := { midiHighIndex := index }

/-! ## Packing -/

theorem getLsbD_packBytes (i m : ℕ) (bs : List Byte) (hm : m < 64) :
    (packBytes i bs).getLsbD m = (decide (8 * i ≤ m) && (bs.getD (m / 8 - i) 0).getLsbD (m % 8)) := by
  induction bs generalizing i with
  | nil => simp [packBytes]
  | cons b bs ih =>
    unfold packBytes
    split
    · rw [BitVec.getLsbD_or, ih, BitVec.getLsbD_shiftLeft, BitVec.getLsbD_setWidth]
      rcases Nat.lt_trichotomy (m / 8) i with hlt | heq | hgt
      · have h1 : ¬ 8 * i ≤ m := by omega
        have h2 : ¬ 8 * (i + 1) ≤ m := by omega
        simp [h1, h2, show m < 8 * i by omega]
      · have h1 : 8 * i ≤ m := by omega
        have h2 : ¬ 8 * (i + 1) ≤ m := by omega
        have h3 : m / 8 - i = 0 := by omega
        simp [h1, h2, h3, hm, show ¬ m < 8 * i by omega, show m % 8 < 64 by omega, show m - 8 * i = m % 8 by omega]
      · have h1 : 8 * i ≤ m := by omega
        have h2 : 8 * (i + 1) ≤ m := by omega
        have h3 : m / 8 - i = (m / 8 - (i + 1)) + 1 := by omega
        rw [h3, List.getD_cons_succ, BitVec.getLsbD_of_ge b (m - 8 * i) (by omega)]
        simp [h1, h2]
    · have h1 : ¬ 8 * i ≤ m := by omega
      simp [h1]

theorem unpack_pack (bs : List Byte) (hl : bs.length ≤ 8) : unpackBytes bs.length (packBytes 0 bs) = bs := by
  unfold unpackBytes
  split
  · rename_i h0
    exact (List.length_eq_zero_iff.1 (by omega)).symm
  · apply List.ext_getElem
    · simp
    · intro i h1 h2
      rw [List.getElem_map, List.getElem_range]
      apply BitVec.eq_of_getLsbD_eq
      intro t ht
      have hbit : (0xff : BitVec 64).getLsbD t = true := by interval_cases t <;> decide
      have hd : (8 * i + t) / 8 = i := by omega
      have hr : (8 * i + t) % 8 = t := by omega
      rw [BitVec.getLsbD_setWidth, BitVec.getLsbD_and, BitVec.getLsbD_ushiftRight,
        getLsbD_packBytes 0 (8 * i + t) bs (by omega), hbit, hd, hr]
      simp [ht, h2]

/-! ## The buffer as a queue of requests -/

/-- What a walk does, in terms of the requests: serve them one by one while
there is room, and of the last as much as there is room for. -/
def serve (index : BitVec 16) (capacity : ℕ) : List Byte → List Inbound → List Byte × List Inbound
  | out, [] => (out, [])
  | out, r :: rs =>
    if out.length < capacity then serve index capacity (out ++ (r.midi index).take (capacity - out.length)) rs
    else (out, r :: rs)

/-- The buffer has `ws` from the `o`-th quadlet on. -/
def MidiIn.Holds (s : MidiIn) (o : ℕ) (ws : List Quadlet) : Prop := ∀ i (h : i < ws.length), s.arReq (o + i) = ws[i]

theorem MidiIn.Holds.left {s : MidiIn} {o : ℕ} {ws vs : List Quadlet} (h : s.Holds o (ws ++ vs)) : s.Holds o ws := by
  intro i hi
  rw [h i (by rw [List.length_append]; omega), List.getElem_append_left hi]

theorem MidiIn.Holds.right {s : MidiIn} {o : ℕ} {ws vs : List Quadlet} (h : s.Holds o (ws ++ vs)) :
    s.Holds (o + ws.length) vs := by
  intro i hi
  rw [Nat.add_assoc, h (ws.length + i) (by rw [List.length_append]; omega), List.getElem_append_right (by omega)]
  congr 1
  omega

theorem bytes_cons (r : Inbound) (rs : List Inbound) : bytes (r :: rs) = r.size + bytes rs := List.sum_cons

theorem bytes_append (rs qs : List Inbound) : bytes (rs ++ qs) = bytes rs + bytes qs := by
  unfold bytes
  rw [List.map_append, List.sum_append]

theorem bytes_eq (rs : List Inbound) : bytes rs = 4 * (rs.flatMap Inbound.words).length := by
  induction rs with
  | nil => rfl
  | cons r rs ih =>
    rw [bytes_cons, ih, List.flatMap_cons, List.length_append, Inbound.size]
    omega

namespace MidiIn

variable {s : MidiIn}

theorem payloadBytes_eq {o : ℕ} {ws : List Quadlet} (h : s.Holds o ws) (room : ℕ) :
    s.payloadBytes o ws.length room = (ws.map lowByte).take room := by
  unfold payloadBytes
  rw [List.map_take]
  congr 1
  apply List.ext_getElem
  · simp
  · intro i h1 h2
    simp only [List.getElem_map, List.getElem_range]
    rw [h i (by simpa using h2)]

/-- One turn of the loop takes one request. -/
theorem walk_cons (r : Inbound) {written capacity fuel o : ℕ} {out : List Byte} (hm : s.Holds o r.words)
    (hw : 4 * o + r.size ≤ written) (hb : written ≤ kARBufferBytes) (hout : out.length < capacity) :
    s.walk written capacity (fuel + 1) (4 * o) out =
      s.walk written capacity fuel (4 * (o + r.words.length))
        (out ++ (r.midi s.midiHighIndex).take (capacity - out.length)) := by
  have ho : 4 * o / 4 = o := Nat.mul_div_cancel_left o (by decide)
  cases r with
  | quadlet q0 q1 q2 data trailer wf =>
    have h0 : s.arReq o = q0 := hm 0 (by simp [Inbound.words])
    have h1 : s.arReq (o + 1) = q1 := hm 1 (by simp [Inbound.words])
    have h2 : s.arReq (o + 2) = q2 := hm 2 (by simp [Inbound.words])
    have h3 : s.arReq (o + 3) = data := hm 3 (by simp [Inbound.words])
    have hsize : 4 * o + 20 ≤ written := hw
    have hhit : (if addressed s.midiHighIndex q1 q2 = true then out ++ [lowByte data] else out) =
        out ++ ((Inbound.quadlet q0 q1 q2 data trailer wf).midi s.midiHighIndex).take (capacity - out.length) := by
      simp only [Inbound.midi]
      split
      · rw [List.take_of_length_le (by rw [List.length_singleton]; omega)]
      · rw [List.take_nil, List.append_nil]
    rw [walk, if_pos ⟨by omega, hout⟩]
    simp only [ho, h0, h1, h2, h3, wf, if_true]
    rw [if_neg (by decide), if_neg (by omega), hhit]
    rfl
  | block q0 q1 q2 q3 payload trailer wf len =>
    have hwords : (Inbound.block q0 q1 q2 q3 payload trailer wf len).words =
        [q0, q1, q2, q3] ++ (payload ++ [trailer]) := rfl
    have hlen : (Inbound.block q0 q1 q2 q3 payload trailer wf len).words.length = 5 + payload.length := by
      rw [hwords]
      simp
      omega
    have h0 : s.arReq o = q0 := hm 0 (by simp [Inbound.words])
    have h1 : s.arReq (o + 1) = q1 := hm 1 (by simp [Inbound.words])
    have h2 : s.arReq (o + 2) = q2 := hm 2 (by simp [Inbound.words])
    have h3 : s.arReq (o + 3) = q3 := hm 3 (by simp [Inbound.words])
    have hpay : s.Holds (o + 4) payload := by
      rw [hwords] at hm
      exact hm.right.left
    rw [Inbound.size, hlen] at hw
    have hk := kARBufferBytes_eq
    have hhit : (if addressed s.midiHighIndex q1 q2 = true then
          out ++ s.payloadBytes (o + 4) ((dataLen q3 + 3) / 4) (capacity - out.length) else out) =
        out ++ ((Inbound.block q0 q1 q2 q3 payload trailer wf len).midi s.midiHighIndex).take
          (capacity - out.length) := by
      simp only [Inbound.midi]
      rw [← len, payloadBytes_eq hpay]
      split
      · rfl
      · rw [List.take_nil, List.append_nil]
    rw [walk, if_pos ⟨by omega, hout⟩]
    simp only [ho, h0, h1, h2, h3, wf, if_true]
    -- the length fits: it is that of the payload, which is in the buffer
    rw [if_neg (by omega), hhit, hlen]
    congr 1
    omega

/-- The walk serves the requests the buffer holds, and stops at the first it does not serve. -/
theorem walk_serve (rs : List Inbound) {written capacity fuel o : ℕ} {out : List Byte}
    (hm : s.Holds o (rs.flatMap Inbound.words)) (hw : 4 * o + bytes rs = written) (hb : written ≤ kARBufferBytes)
    (hf : rs.length ≤ fuel) :
    s.walk written capacity fuel (4 * o) out =
      ⟨written - bytes (serve s.midiHighIndex capacity out rs).2, (serve s.midiHighIndex capacity out rs).1,
        false⟩ := by
  induction rs generalizing o out fuel with
  | nil =>
    have hw' : 4 * o = written := hw
    cases fuel with
    | zero => rw [walk, hw']; rfl
    | succ fuel =>
      rw [walk, if_neg (by omega), hw']
      rfl
  | cons r rs ih =>
    rw [List.flatMap_cons] at hm
    rw [bytes_cons] at hw
    obtain ⟨fuel, rfl⟩ : ∃ f, fuel = f + 1 := ⟨fuel - 1, by rw [List.length_cons] at hf; omega⟩
    unfold serve
    split
    · rename_i hout
      rw [walk_cons r hm.left (by omega) hb hout]
      have hsize : r.size = 4 * r.words.length := rfl
      exact ih hm.right (by omega) (by rw [List.length_cons] at hf; omega)
    · rename_i hout
      rw [walk, if_neg (fun h => hout h.2), bytes_cons]
      congr 1
      omega

end MidiIn

/-! ## What the polls return -/

/-- The requests fit into the room a poll has, up to the one it stops at: none
fills it with bytes of its own left over. -/
def Fits (index : BitVec 16) : ℕ → List Inbound → Prop
  | _, [] => True
  | room, r :: rs => room = 0 ∨ (r.midi index).length ≤ room ∧ Fits index (room - (r.midi index).length) rs

instance decidableFits (index : BitVec 16) : ∀ room rs, Decidable (Fits index room rs)
  | _, [] => .isTrue trivial
  | room, r :: rs =>
    have := decidableFits index (room - (r.midi index).length) rs
    inferInstanceAs (Decidable (room = 0 ∨ (r.midi index).length ≤ room ∧ Fits index (room - (r.midi index).length) rs))

/-- The requests from the `off`-th byte of the buffer on. -/
def unread : ℕ → List Inbound → List Inbound
  | _, [] => []
  | off, r :: rs => if r.size ≤ off then unread (off - r.size) rs else r :: rs

/-- The requests in the buffer that no poll has reached. -/
def Port.pending (p : Port) : List Inbound :=
  if p.driver.resCount = kARBufferBytes then [] else unread p.driver.arReqReadBytes p.placed

/-- No poll fills up in the middle of a block. -/
def Port.Whole (p : Port) : PortAct → Prop
  | .poll => Fits p.driver.midiHighIndex 8 p.pending
  | .place _ => True

instance (p : Port) : ∀ a, Decidable (p.Whole a)
  | .poll => decidableFits p.driver.midiHighIndex 8 p.pending
  | .place _ => .isTrue trivial

theorem size_pos (r : Inbound) : 20 ≤ r.size := by
  have h : 5 ≤ r.words.length := by
    cases r <;> simp [Inbound.words]
  have : r.size = 4 * r.words.length := rfl
  omega

theorem length_le_bytes (rs : List Inbound) : rs.length ≤ bytes rs := by
  induction rs with
  | nil => exact Nat.zero_le _
  | cons r rs ih =>
    have := size_pos r
    rw [bytes_cons, List.length_cons]
    omega

theorem unread_append (served pending : List Inbound) : unread (bytes served) (served ++ pending) = pending := by
  induction served with
  | nil =>
    cases pending with
    | nil => rfl
    | cons r rs =>
      have := size_pos r
      have h0 : bytes [] = 0 := rfl
      rw [h0, List.nil_append, unread, if_neg (by omega)]
  | cons r rs ih =>
    rw [bytes_cons, List.cons_append, unread, if_pos (by omega), Nat.add_sub_cancel_left, ih]

/-- The served requests are a prefix, and what was put out is all their bytes. -/
theorem serve_spec (index : BitVec 16) (capacity : ℕ) (rs : List Inbound) (out : List Byte)
    (hout : out.length ≤ capacity) (hf : Fits index (capacity - out.length) rs) :
    ∃ served, rs = served ++ (serve index capacity out rs).2 ∧
      (serve index capacity out rs).1 = out ++ served.flatMap (Inbound.midi index) ∧
      (serve index capacity out rs).1.length ≤ capacity := by
  induction rs generalizing out with
  | nil => exact ⟨[], rfl, by simp [serve], hout⟩
  | cons r rs ih =>
    unfold serve
    split
    · rename_i hlt
      obtain h0 | ⟨hlen, hrest⟩ := hf
      · omega
      · rw [List.take_of_length_le hlen]
        have hlen' : (out ++ r.midi index).length ≤ capacity := by
          rw [List.length_append]
          omega
        have hroom : capacity - (out ++ r.midi index).length = capacity - out.length - (r.midi index).length := by
          rw [List.length_append]
          omega
        obtain ⟨served, h1, h2, h3⟩ := ih (out ++ r.midi index) hlen' (hroom ▸ hrest)
        refine ⟨r :: served, ?_, ?_, h3⟩
        · rw [List.cons_append, ← h1]
        · rw [h2, List.flatMap_cons, List.append_assoc]
    · exact ⟨[], rfl, by simp, hout⟩

/-- It stops short of the end only when it is full. -/
theorem serve_full (index : BitVec 16) (capacity : ℕ) (rs : List Inbound) (out : List Byte) :
    (serve index capacity out rs).2 = [] ∨ capacity ≤ (serve index capacity out rs).1.length := by
  induction rs generalizing out with
  | nil => exact .inl rfl
  | cons r rs ih =>
    unfold serve
    split
    · exact ih _
    · rename_i hout
      exact .inr (Nat.le_of_not_lt hout)

/-- With room, the first request is served. -/
theorem serve_progress (index : BitVec 16) {capacity : ℕ} (hc : 0 < capacity) {rs : List Inbound} (hn : rs ≠ []) :
    (serve index capacity [] rs).2.length < rs.length := by
  have hle : ∀ (rs : List Inbound) (out : List Byte), (serve index capacity out rs).2.length ≤ rs.length := by
    intro rs
    induction rs with
    | nil => exact fun _ => le_refl 0
    | cons r rs ih =>
      intro out
      unfold serve
      split
      · exact (ih _).trans (Nat.le_succ _)
      · exact le_refl _
  cases rs with
  | nil => exact absurd rfl hn
  | cons r rs =>
    have hroom : ([] : List Byte).length < capacity := hc
    unfold serve
    rw [if_pos hroom]
    exact Nat.lt_succ_of_le (hle rs _)

/-! ## The run -/

/-- Before the buffer is full: the polls have reached the served requests. -/
structure Port.Live (p : Port) (index : BitVec 16) (served pending : List Inbound) : Prop where
  on : p.driver.midiInOn = true
  high : p.driver.midiHighIndex = index
  placed : p.placed = served ++ pending
  room : bytes p.placed ≤ kARBufferBytes
  res : p.driver.resCount = kARBufferBytes - bytes p.placed
  off : p.driver.arReqReadBytes = bytes served
  mem : p.driver.Holds 0 (p.placed.flatMap Inbound.words)
  got : p.got = served.flatMap (Inbound.midi index)

/-- After a poll that found the buffer full and recycled it. -/
structure Port.Recycled (p : Port) (index : BitVec 16) (served discarded : List Inbound) : Prop where
  on : p.driver.midiInOn = true
  placed : p.placed = served ++ discarded
  full : bytes p.placed = kARBufferBytes
  res : p.driver.resCount = kARBufferBytes
  off : p.driver.arReqReadBytes = 0
  got : p.got = served.flatMap (Inbound.midi index)

/-- A poll of the schedule finds the buffer full: the polls before it have returned the
bytes of `before`, and it returns those of `last` and recycles the buffer. -/
def Port.RecycledBy (index : BitVec 16) (acts : List PortAct) (before last : List Inbound) : Prop :=
  ∃ pre post p, acts = pre ++ .poll :: post ∧ run Port.step (enabled index) pre = some p ∧ p.driver.resCount = 0 ∧
    p.got = before.flatMap (Inbound.midi index) ∧
    p.poll.got = p.got ++ last.flatMap (Inbound.midi index) ∧ p.poll.driver.resCount = kARBufferBytes

/-- What a buffer is recycled with was reached, or the poll was full. -/
def Port.Full (index : BitVec 16) (acts : List PortAct) (served discarded : List Inbound) : Prop :=
  discarded = [] ∨ ∃ before last, served = before ++ last ∧ (last.flatMap (Inbound.midi index)).length = 8 ∧
    Port.RecycledBy index acts before last

namespace Port

variable {p t : Port} {index : BitVec 16} {served pending : List Inbound}

theorem Live.pending_eq (h : Live p index served pending) : p.pending = pending := by
  unfold Port.pending
  split
  · rename_i hres
    -- nothing is in the buffer, so nothing was placed
    have hr := h.res
    have hroom := h.room
    have hk := kARBufferBytes_eq
    have hp := h.placed
    cases hpl : p.placed with
    | nil =>
      rw [hpl] at hp
      exact (List.append_eq_nil_iff.1 hp.symm).2.symm
    | cons r rs =>
      have := size_pos r
      rw [hpl, bytes_cons] at hr hroom
      omega
  · rw [h.off, h.placed, unread_append]

theorem enabled_live (index : BitVec 16) : Live (enabled index) index [] [] :=
  ⟨rfl, rfl, rfl, Nat.zero_le _, rfl, rfl, fun _ hi => (nomatch hi), rfl⟩

theorem receive_live (h : Live p index served pending) {r : Inbound} (hr : bytes p.placed + r.size ≤ kARBufferBytes) :
    Live { p with driver := p.driver.receive r, placed := p.placed ++ [r] } index served (pending ++ [r]) := by
  have hres := h.res
  have hsize : bytes (p.placed ++ [r]) = bytes p.placed + r.size := by
    rw [bytes_append, bytes_cons]
    rfl
  have hbase : (kARBufferBytes - p.driver.resCount) / 4 = (p.placed.flatMap Inbound.words).length := by
    have := bytes_eq p.placed
    omega
  refine ⟨h.on, h.high, by rw [h.placed, List.append_assoc], ?_, ?_, h.off, ?_, h.got⟩
  · exact hsize ▸ hr
  · rw [hsize]
    show p.driver.resCount - r.size = _
    omega
  · intro i hi
    simp only [List.flatMap_append, List.flatMap_singleton, List.length_append] at hi ⊢
    show (if _ ≤ 0 + i then r.words.getD (0 + i - _) (p.driver.arReq (0 + i)) else p.driver.arReq (0 + i)) = _
    rw [hbase, Nat.zero_add]
    split
    · rename_i hle
      rw [List.getElem_append_right hle, List.getD_eq_getElem _ _ (by omega)]
    · rename_i hlt
      have := h.mem i (by omega)
      rw [Nat.zero_add] at this
      rw [List.getElem_append_left (by omega), this]

/-- A poll that finds requests pending reaches some of them, and the rest is still pending
unless the buffer is full; a poll that leaves a rest has returned eight bytes. -/
theorem poll_live (h : Live p index served pending) (hf : Fits index 8 pending) :
    ∃ more rest, pending = more ++ rest ∧ (pending ≠ [] → rest.length < pending.length) ∧
      (rest = [] ∨ (more.flatMap (Inbound.midi index)).length = 8) ∧
      (Live p.poll index (served ++ more) rest ∨
        p.driver.resCount = 0 ∧ Recycled p.poll index (served ++ more) rest) := by
  obtain ⟨more, hmore, hout, hlen⟩ := serve_spec index 8 pending [] (Nat.zero_le 8) hf
  have hk := kARBufferBytes_eq
  have hres := h.res
  have hroom := h.room
  have hwritten : kARBufferBytes - p.driver.resCount = bytes p.placed := by omega
  have hbytes : bytes p.placed = bytes served + bytes pending := by rw [h.placed, bytes_append]
  have hrest : bytes pending = bytes more + bytes (serve index 8 [] pending).2 := by
    rw [← bytes_append, ← hmore]
  have hoff : p.driver.arReqReadBytes = 4 * (0 + (served.flatMap Inbound.words).length) := by
    rw [h.off, bytes_eq, Nat.zero_add]
  have hmem : p.driver.Holds (0 + (served.flatMap Inbound.words).length) (pending.flatMap Inbound.words) := by
    have hm := h.mem
    rw [h.placed, List.flatMap_append] at hm
    exact hm.right
  have hfuel : pending.length ≤ bytes p.placed := by
    have := length_le_bytes pending
    omega
  have hwalk : p.driver.walk (bytes p.placed) 8 (bytes p.placed) p.driver.arReqReadBytes [] =
      ⟨bytes (served ++ more), more.flatMap (Inbound.midi index), false⟩ := by
    rw [hoff, p.driver.walk_serve pending hmem (by rw [← hoff, h.off, hbytes]) hroom hfuel, h.high, hout, bytes_append]
    congr 1
    omega
  rw [hout, List.nil_append] at hlen
  have hpack : unpackBytes (more.flatMap (Inbound.midi index)).length
      (packBytes 0 (more.flatMap (Inbound.midi index))) =
      more.flatMap (Inbound.midi index) := unpack_pack _ hlen
  have hlast : (serve index 8 [] pending).2 = [] ∨ (more.flatMap (Inbound.midi index)).length = 8 := by
    refine (serve_full index 8 pending []).imp_right fun h8 => ?_
    rw [hout, List.nil_append] at h8
    exact le_antisymm hlen h8
  refine ⟨more, _, hmore, serve_progress index (by decide), hlast, ?_⟩
  have hplaced : p.placed = (served ++ more) ++ (serve index 8 [] pending).2 := by
    rw [List.append_assoc, ← hmore, h.placed]
  have hgot : p.got ++ more.flatMap (Inbound.midi index) = (served ++ more).flatMap (Inbound.midi index) := by
    rw [h.got, List.flatMap_append]
  unfold poll MidiIn.midiInPoll
  simp only [h.on, if_true, hwritten, hwalk, Bool.false_eq_true, if_false]
  split
  · rename_i hfull
    have hall : bytes p.placed = kARBufferBytes := by omega
    exact .inr ⟨hfull, rfl, hplaced, hall, rfl, rfl, by rw [hpack]; exact hgot⟩
  · exact .inl ⟨rfl, h.high, hplaced, hroom, hres, rfl, h.mem, by rw [hpack]; exact hgot⟩

/-- A recycled buffer is empty, and stays so. -/
theorem poll_recycled {discarded : List Inbound} (h : Recycled p index served discarded) :
    Recycled p.poll index served discarded := by
  have hwalk : p.driver.walk 0 8 0 p.driver.arReqReadBytes [] = ⟨0, [], false⟩ := by
    rw [h.off]
    rfl
  unfold poll MidiIn.midiInPoll
  simp only [h.on, if_true, h.res, Nat.sub_self, hwalk, Bool.false_eq_true, if_false]
  rw [if_neg (by decide)]
  have hgot : p.got ++ [] = p.got := List.append_nil p.got
  exact ⟨rfl, h.placed, h.full, rfl, rfl, hgot.trans h.got⟩

theorem RecycledBy.append {acts : List PortAct} {before last : List Inbound} (h : RecycledBy index acts before last)
    (more : List PortAct) : RecycledBy index (acts ++ more) before last := by
  obtain ⟨pre, post, p, rfl, hrest⟩ := h
  exact ⟨pre, post ++ more, p, by simp, hrest⟩

theorem Full.append {acts : List PortAct} {discarded : List Inbound} (h : Full index acts served discarded)
    (more : List PortAct) : Full index (acts ++ more) served discarded := by
  refine h.imp_right ?_
  rintro ⟨before, last, hserved, hlast, hby⟩
  exact ⟨before, last, hserved, hlast, hby.append more⟩

/-- The poll behind a schedule that has left requests pending. -/
theorem poll_full {acts : List PortAct} {more rest : List Inbound} (h : run step (enabled index) acts = some p)
    (hl : Live p index served pending) (hres : p.driver.resCount = 0)
    (hd : Recycled p.poll index (served ++ more) rest)
    (hrest : rest = [] ∨ (more.flatMap (Inbound.midi index)).length = 8) :
    Full index (acts ++ [.poll]) (served ++ more) rest := by
  refine hrest.imp_right fun h8 => ⟨served, more, rfl, h8, acts, [], p, rfl, h, hres, hl.got, ?_, hd.res⟩
  rw [hd.got, hl.got, List.flatMap_append]

/-- What every schedule leads to whose polls do not fill up in a block. -/
theorem reaches (acts : List PortAct) (hm : Meets step Whole (enabled index) acts)
    (h : run step (enabled index) acts = some t) : (∃ served pending, Live t index served pending) ∨
      ∃ served discarded, Recycled t index served discarded ∧ Full index acts served discarded := by
  induction acts using List.reverseRecOn generalizing t with
  | nil =>
    cases h
    exact .inl ⟨[], [], enabled_live index⟩
  | append_singleton acts a ih =>
    obtain ⟨p, hp, ha⟩ := run_append_inv h
    obtain ⟨hmp, hma, -⟩ := (meets_append hp [a]).1 hm
    have hstep : p.step a = some t := by simpa [run_cons] using ha
    rcases ih hmp hp with ⟨served, pending, hl⟩ | ⟨served, discarded, hd, hfull⟩
    · cases a with
      | place r =>
        simp only [step] at hstep
        split at hstep
        · rename_i hr
          cases hstep
          exact .inl ⟨served, _, receive_live hl hr⟩
        · cases hstep
      | poll =>
        cases hstep
        have hf : Fits index 8 pending := by
          rw [← hl.high, ← hl.pending_eq]
          exact hma
        obtain ⟨more, rest, -, -, hrest, hl' | ⟨hres, hd⟩⟩ := poll_live hl hf
        · exact .inl ⟨_, _, hl'⟩
        · exact .inr ⟨_, _, hd, poll_full hp hl hres hd hrest⟩
    · cases a with
      | place r =>
        simp only [step] at hstep
        split at hstep
        · have := size_pos r
          have := hd.full
          omega
        · cases hstep
      | poll =>
        cases hstep
        exact .inr ⟨served, discarded, poll_recycled hd, hfull.append [.poll]⟩

theorem recycled_polls {discarded : List Inbound} (n : ℕ) (hd : Recycled p index served discarded)
    (h : run step p (List.replicate n .poll) = some t) : Recycled t index served discarded := by
  induction n generalizing p with
  | zero =>
    cases h
    exact hd
  | succ n ih => exact ih (poll_recycled hd) h

theorem Live.not_recycled {done discarded : List Inbound} (h : Live p index served pending) :
    ¬Recycled p index done discarded := by
  intro hd
  have hres := h.res
  have hk := kARBufferBytes_eq
  rw [hd.res, hd.full] at hres
  omega

theorem polls_placed (n : ℕ) (h : run step p (List.replicate n .poll) = some t) : t.placed = p.placed := by
  induction n generalizing p with
  | zero =>
    cases h
    rfl
  | succ n ih =>
    have hrest : run step p.poll (List.replicate n .poll) = some t := h
    exact (ih hrest).trans rfl

/-- Enough polls reach every pending request, unless the buffer is full. -/
theorem drained (n : ℕ) (hl : Live p index served pending) (hn : pending.length ≤ n)
    (hm : Meets step Whole p (List.replicate n .poll)) (h : run step p (List.replicate n .poll) = some t) :
    (∃ all, Live t index all []) ∨ ∃ served discarded, Recycled t index served discarded := by
  induction n generalizing p served pending with
  | zero =>
    cases h
    rw [List.length_eq_zero_iff.1 (Nat.le_zero.1 hn)] at hl
    exact .inl ⟨served, hl⟩
  | succ n ih =>
    have hf : Fits index 8 pending := by
      rw [← hl.high, ← hl.pending_eq]
      exact hm.1
    obtain ⟨more, rest, hpending, hless, -, hl' | ⟨-, hd⟩⟩ := poll_live hl hf
    · refine ih hl' ?_ (hm.2 _ rfl) h
      cases pending with
      | nil =>
        rw [(List.append_eq_nil_iff.1 hpending.symm).2]
        exact Nat.zero_le n
      | cons r rs =>
        have := hless (List.cons_ne_nil r rs)
        omega
    · exact .inr ⟨_, _, recycled_polls n hd h⟩

end Port

/-- For every sequence of requests that fit into the buffer and every schedule of polls that
do not fill up in the middle of a block, ended by enough polls: what was returned is, in
order and each once, the MIDI bytes of the requests placed, less those that a poll, having
returned eight bytes itself, found in a full buffer and recycled with it. -/
theorem midi_in (index : BitVec 16) (acts : List PortAct) (n : ℕ) (t : Port)
    (hm : Meets Port.step Port.Whole (enabled index) (acts ++ List.replicate n .poll))
    (h : run Port.step (enabled index) (acts ++ List.replicate n .poll) = some t) (hn : t.placed.length ≤ n) :
    ∃ served discarded, t.placed = served ++ discarded ∧ t.got = served.flatMap (Inbound.midi index) ∧
      (discarded = [] ∨ bytes t.placed = kARBufferBytes ∧ ∃ before last, served = before ++ last ∧
        (last.flatMap (Inbound.midi index)).length = 8 ∧
        Port.RecycledBy index (acts ++ List.replicate n .poll) before last) := by
  rcases Port.reaches _ hm h with ⟨served, pending, hl⟩ | ⟨served, discarded, hd, hfull⟩
  · obtain ⟨p, hp, hpolls⟩ := run_append_inv h
    obtain ⟨hm1, hm2⟩ := (meets_append hp _).1 hm
    rcases Port.reaches acts hm1 hp with ⟨before, waiting, hlp⟩ | ⟨before, discarded, hdp, -⟩
    · have hlen : waiting.length ≤ n := by
        rw [Port.polls_placed n hpolls, hlp.placed, List.length_append] at hn
        omega
      rcases Port.drained n hlp hlen hm2 hpolls with ⟨all, ha⟩ | ⟨all, discarded, hd⟩
      · exact ⟨all, [], ha.placed, ha.got, .inl rfl⟩
      · exact absurd hd hl.not_recycled
    · exact absurd (Port.recycled_polls n hdp hpolls) hl.not_recycled
  · exact ⟨served, discarded, hd.placed, hd.got, hfull.imp_right fun hlast => ⟨hd.full, hlast⟩⟩

/-- One byte for the index 1, and three of them in a block. -/
def short (data : Quadlet) : Inbound := .quadlet 0 1 0 data 0 rfl

/-- A block write of three MIDI bytes. -/
def chord : Inbound := .block 0x10 1 0 0x000c0000 [0x90, 0x40, 0x7f] 0 rfl rfl

/-- Quadlets and blocks, polled in between. -/
def playing : List PortAct := [.place (short 0xfe), .poll, .place chord, .place (short 0xfe), .place chord]

theorem midi_in_playing : ∃ t, run Port.step (enabled 1) (playing ++ List.replicate 4 .poll) = some t ∧
    t.got = [0xfe, 0x90, 0x40, 0x7f, 0xfe, 0x90, 0x40, 0x7f] ∧
    ∃ served discarded, t.placed = served ++ discarded ∧ t.got = served.flatMap (Inbound.midi 1) ∧
      (discarded = [] ∨ bytes t.placed = kARBufferBytes ∧ ∃ before last, served = before ++ last ∧
        (last.flatMap (Inbound.midi 1)).length = 8 ∧
        Port.RecycledBy 1 (playing ++ List.replicate 4 .poll) before last) := by
  have h : (run Port.step (enabled 1) (playing ++ List.replicate 4 .poll)).map (fun t => (t.got, t.placed.length)) =
      some ([0xfe, 0x90, 0x40, 0x7f, 0xfe, 0x90, 0x40, 0x7f], 4) := by decide +kernel
  obtain ⟨t, hrun, ht⟩ := Option.map_eq_some_iff.1 h
  rw [Prod.mk.injEq] at ht
  exact ⟨t, hrun, ht.1, midi_in 1 playing 4 t (by decide +kernel) hrun (le_of_eq ht.2)⟩

/-! ## A full buffer -/

/-- A block of 974 quadlets for another address. -/
def filler : Inbound := .block 0x10 2 0 0x0f380000 (List.replicate 974 0) 0 rfl (List.length_replicate)

/-- The filler and nine bytes fill the buffer, and a poll comes. -/
def filling : List PortAct :=
  .place filler :: ((List.range 9).map fun i => .place (short (BitVec.ofNat 32 i))) ++ [.poll]

/-- The poll has room for eight bytes and recycles the buffer with the ninth. -/
theorem full_buffer_drops : ∃ t, run Port.step (enabled 1) (filling ++ List.replicate 10 .poll) = some t ∧
    bytes t.placed ≤ kARBufferBytes ∧ t.got ≠ t.placed.flatMap (Inbound.midi 1) := by
  have h : (run Port.step (enabled 1) (filling ++ List.replicate 10 .poll)).map
      (fun t => (bytes t.placed, t.got.length, (t.placed.flatMap (Inbound.midi 1)).length)) = some (4096, 8, 9) := by
    decide +kernel
  obtain ⟨t, hrun, ht⟩ := Option.map_eq_some_iff.1 h
  simp only [Prod.mk.injEq] at ht
  obtain ⟨hb, hg, hm⟩ := ht
  refine ⟨t, hrun, le_of_eq hb, fun he => ?_⟩
  rw [he, hm] at hg
  exact absurd hg (by decide)

end UserFace800.Dext
