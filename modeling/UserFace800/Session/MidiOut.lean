import UserFace800.Lib.Run
import UserFace800.Lib.Buffer
import UserFace800.Lib.Bits
import UserFace800.Protocol.Registers
import UserFace800.Protocol.Codec
import UserFace800.Dext.AtHeader
/-!
# MIDI out

`midi_send_to_ff800` sends the bytes an application passes it as block writes, a byte in each
quadlet and at most nine quadlets in a block, and sleeps after each block as long as the device
takes to pass it on. `Chunked` says what a call does. CoreMIDI calls it only once `main` has a
connection (`Bridge`), so whatever was passed is what the device gets (`bridge_wire`).
-/
open UserFace800.Lib UserFace800.Lib.Buffer UserFace800.Lib.Bits UserFace800.Protocol UserFace800.Dext

namespace UserFace800.Session

/-- A MIDI byte. -/
abbrev Byte := BitVec 8

/-! ## The framing -/

/-- The quadlets of the longest block write. -/
def kMidiMaxQuads : ℕ := 9

/-- Where they are written. -/
def kMidiOutAddr : BitVec 64 := BitVec.ofNat 64 Reg.kMidiOut

/-- The speed of a MIDI line. -/
def kMidiBaud : U32 := 31250

/-- `bytes` points at the byte `p`; `none` is a read past the end. -/
def midiOutQuadlets (bytes : List Byte) (p n : ℕ) : Option (List U32) :=
  let n := if n > kMidiMaxQuads then kMidiMaxQuads else n
  (List.range n).mapM fun i => bytes[p + i]?.map fun b => b.setWidth 32

/-- The time the bytes take on it. -/
def midiThrottleNs (nbytes : U32) : BitVec 64 := nbytes.setWidth 64 * 8 * (1000000000 / kMidiBaud.setWidth 64)

/-- The byte of a quadlet. -/
def midiInByte (quad : U32) : Byte := (quad &&& 0xff).setWidth 8

/-- The quadlet at the byte `i`; `none` is a read past the end. -/
def quadletAt (payload : List Byte) (i : ℕ) : Option U32 :=
  if i + 3 < payload.length then some (le32ToHost (fun j => payload.getD j 0) i) else none

/-- `i` counts up to `len_bytes` in fours. -/
def midiInBytes (payload : List Byte) (lenBytes : ℕ) : Option (List Byte) :=
  (List.range (lenBytes / 4)).mapM fun k => (quadletAt payload (k * 4)).map midiInByte

/-! ## The daemon -/

/-- 0 is none. -/
abbrev IoConnect := BitVec 32

/-- What is done to send: a block write, a pause. -/
inductive MidiOut where
  | wblock (off : BitVec 64) (q : List U32)
  | usleep (us : U32)
  deriving DecidableEq

/-- The loop from `i` on; `none` is a read past the end, or more iterations than `fuel`. -/
def midiSendLoop (bytes : List Byte) : ℕ → ℕ → Option (List MidiOut)
  | 0, _ => none
  | fuel + 1, i =>
    if i < bytes.length then do
      let chunk := if bytes.length - i < kMidiMaxQuads then bytes.length - i else kMidiMaxQuads
      let quads ← midiOutQuadlets bytes i chunk
      let rest ← midiSendLoop bytes fuel (i + chunk)
      pure (.wblock kMidiOutAddr quads :: .usleep ((midiThrottleNs (BitVec.ofNat 32 chunk) / 1000).setWidth 32) :: rest)
    else some []

/-- `midi_send_to_ff800`; without a connection it sends nothing. -/
def midiSendToFf800 (gConn : IoConnect) (bytes : List Byte) (fuel : ℕ) : Option (List MidiOut) :=
  if gConn = 0 then some [] else midiSendLoop bytes fuel 0

/-- The packets of a list, one after the other. -/
def midiReadProc (gConn : IoConnect) (pktlist : List (List Byte)) (fuel : ℕ) : Option (List MidiOut) := do
  let outs ← pktlist.mapM fun data => midiSendToFf800 gConn data fuel
  pure outs.flatten

/-- The quadlets of a block write. -/
def MidiOut.block : MidiOut → Option (List U32)
  | wblock _ q => some q
  | usleep _ => none

/-- The microseconds of a pause. -/
def MidiOut.pause : MidiOut → ℕ
  | wblock _ _ => 0
  | usleep us => us.toNat

/-- The block writes among what is done. -/
def blocks (out : List MidiOut) : List (List U32) := out.filterMap MidiOut.block

/-- Their payloads, one after the other. -/
def wire (out : List MidiOut) : List Byte := (blocks out).flatMap serialized

/-! ## Quadlets and bytes -/

/-- The bytes from `p` on, as many as are asked for and nine at most. -/
theorem midiOutQuadlets_eq {bytes : List Byte} {p n : ℕ} (h : p + min n kMidiMaxQuads ≤ bytes.length) :
    midiOutQuadlets bytes p n = some (((bytes.drop p).take (min n kMidiMaxQuads)).map fun b => b.setWidth 32) := by
  have hcap : (if n > kMidiMaxQuads then kMidiMaxQuads else n) = min n kMidiMaxQuads := by
    split <;> omega
  have hlen : (((bytes.drop p).take (min n kMidiMaxQuads)).map fun b => b.setWidth 32).length =
      min n kMidiMaxQuads := by
    rw [List.length_map, List.length_take, List.length_drop]
    omega
  unfold midiOutQuadlets
  dsimp only
  rw [hcap]
  conv_lhs => rw [← hlen]
  apply mapM_range
  intro k hk
  rw [hlen] at hk
  rw [List.getElem?_eq_getElem (by omega)]
  simp

theorem midiInByte_setWidth (b : Byte) : midiInByte (b.setWidth 32) = b := by
  rw [midiInByte, low_byte (by decide)]
  simp

theorem midiInBytes_serialized (quads : List U32) :
    midiInBytes (serialized quads) (serialized quads).length = some (quads.map midiInByte) := by
  have hlen : (serialized quads).length / 4 = (quads.map midiInByte).length := by
    rw [length_serialized, Nat.mul_div_cancel _ (by decide), List.length_map]
  rw [midiInBytes, hlen]
  apply mapM_range
  intro k hk
  rw [List.length_map] at hk
  have hquad := le32_flatMap quads [] hk
  rw [List.append_nil] at hquad
  rw [quadletAt, if_pos (by rw [length_serialized]; omega), serialized, hquad, List.getElem_map]
  rfl

/-! ## A call -/

/-- Blocks of up to nine quadlets that hold the bytes, and sleeps of 256 µs for each byte. -/
structure Chunked (bytes : List Byte) (out : List MidiOut) : Prop where
  quads : (blocks out).flatten = bytes.map fun b => b.setWidth 32
  sized : ∀ q ∈ blocks out, 1 ≤ q.length ∧ q.length ≤ kMidiMaxQuads
  addressed : ∀ off q, .wblock off q ∈ out → off = kMidiOutAddr
  paced : (out.map MidiOut.pause).sum = 256 * bytes.length

theorem chunked_nil : Chunked [] [] where
  quads := rfl
  sized := fun _ h => nomatch h
  addressed := fun _ _ h => nomatch h
  paced := rfl

theorem Chunked.append {bytes bytes' : List Byte} {out out' : List MidiOut} (h : Chunked bytes out)
    (h' : Chunked bytes' out') : Chunked (bytes ++ bytes') (out ++ out') where
  quads := by
    rw [blocks, List.filterMap_append, List.flatten_append, List.map_append]
    exact congrArg₂ (· ++ ·) h.quads h'.quads
  sized := by
    intro q hq
    rw [blocks, List.filterMap_append, List.mem_append] at hq
    exact hq.elim (h.sized q) (h'.sized q)
  addressed := by
    intro off q hq
    exact (List.mem_append.1 hq).elim (h.addressed off q) (h'.addressed off q)
  paced := by
    rw [List.map_append, List.sum_append, h.paced, h'.paced, List.length_append, Nat.mul_add]

/-- 8 bits at 31250 baud are 256 µs. -/
theorem pause_eq {n : ℕ} (hn : n ≤ kMidiMaxQuads) :
    ((midiThrottleNs (BitVec.ofNat 32 n) / 1000).setWidth 32).toNat = 256 * n := by
  have hn : n ≤ 9 := hn
  interval_cases n <;> rfl

/-- What an iteration does with its bytes. -/
def sendChunk (bytes : List Byte) : List MidiOut :=
  [.wblock kMidiOutAddr (bytes.map fun b => b.setWidth 32),
    .usleep ((midiThrottleNs (BitVec.ofNat 32 bytes.length) / 1000).setWidth 32)]

theorem sendChunk_chunked {bytes : List Byte} (hne : 1 ≤ bytes.length) (hmax : bytes.length ≤ kMidiMaxQuads) :
    Chunked bytes (sendChunk bytes) where
  quads := List.append_nil _
  sized := by
    intro q hq
    rw [List.mem_singleton.1 hq, List.length_map]
    exact ⟨hne, hmax⟩
  addressed := by
    intro off q hq
    simp only [sendChunk, List.mem_cons, MidiOut.wblock.injEq, reduceCtorEq, List.not_mem_nil, or_false] at hq
    exact hq.1
  paced := (Nat.zero_add _).trans (pause_eq hmax)

/-- The iteration at `i` takes the next bytes, which are some and not too many. -/
theorem midiSendLoop_step {bytes : List Byte} {i : ℕ} (hi : i < bytes.length) :
    ∃ n, 0 < n ∧ Chunked ((bytes.drop i).take n) (sendChunk ((bytes.drop i).take n)) ∧
    ∀ fuel, midiSendLoop bytes (fuel + 1) i =
    (midiSendLoop bytes fuel (i + n)).map (sendChunk ((bytes.drop i).take n) ++ ·) := by
  obtain ⟨n, hn⟩ : ∃ n, n = min (bytes.length - i) kMidiMaxQuads := ⟨_, rfl⟩
  have hmax : min n kMidiMaxQuads = n := by omega
  have hpos : 0 < n := hn ▸ lt_min (by omega) (by decide)
  have hlen : ((bytes.drop i).take n).length = n := by
    rw [List.length_take, List.length_drop]
    omega
  refine ⟨n, hpos, sendChunk_chunked (by omega) (by omega), fun fuel => ?_⟩
  have hchunk : (if bytes.length - i < kMidiMaxQuads then bytes.length - i else kMidiMaxQuads) = n := by
    split <;> omega
  have hquads := @midiOutQuadlets_eq bytes i n (by omega)
  rw [hmax] at hquads
  rw [midiSendLoop, if_pos hi]
  dsimp only
  rw [hchunk, hquads, Option.bind_eq_bind, Option.bind_some, sendChunk, hlen]
  cases midiSendLoop bytes fuel (i + n) <;> rfl

theorem midiSendLoop_chunked {bytes : List Byte} {fuel i : ℕ} {out : List MidiOut}
    (h : midiSendLoop bytes fuel i = some out) :
    Chunked (bytes.drop i) out := by
  induction fuel generalizing i out with
  | zero => cases h
  | succ fuel ih =>
    by_cases hi : i < bytes.length
    · obtain ⟨n, -, hn, hstep⟩ := midiSendLoop_step hi
      rw [hstep, Option.map_eq_some_iff] at h
      obtain ⟨rest, hrest, rfl⟩ := h
      have hall := hn.append (ih hrest)
      rwa [← List.drop_drop, List.take_append_drop] at hall
    · rw [midiSendLoop, if_neg hi] at h
      cases h
      rw [List.drop_eq_nil_of_le (by omega)]
      exact chunked_nil

/-- Each iteration takes a byte at least. -/
theorem midiSendLoop_ends {bytes : List Byte} {fuel i : ℕ} (h : bytes.length - i < fuel) :
    ∃ out, midiSendLoop bytes fuel i = some out := by
  induction fuel generalizing i with
  | zero => cases h
  | succ fuel ih =>
    by_cases hi : i < bytes.length
    · obtain ⟨n, hpos, -, hstep⟩ := midiSendLoop_step hi
      obtain ⟨out, hout⟩ := ih (i := i + n) (by omega)
      exact ⟨_, by rw [hstep, hout, Option.map_some]⟩
    · exact ⟨[], by rw [midiSendLoop, if_neg hi]⟩

section
variable {gConn : IoConnect} (hconn : gConn ≠ 0)
include hconn

theorem midiSendToFf800_chunked {bytes : List Byte} {fuel : ℕ} {out : List MidiOut}
    (h : midiSendToFf800 gConn bytes fuel = some out) : Chunked bytes out := by
  rw [midiSendToFf800, if_neg hconn] at h
  exact midiSendLoop_chunked h

theorem midiSendToFf800_ends {bytes : List Byte} {fuel : ℕ} (h : bytes.length < fuel) :
    ∃ out, midiSendToFf800 gConn bytes fuel = some out := by
  rw [midiSendToFf800, if_neg hconn]
  exact midiSendLoop_ends h

/-- The packets of a list are sent one after the other. -/
theorem midiReadProc_chunked {pktlist : List (List Byte)} {fuel : ℕ} {out : List MidiOut}
    (h : midiReadProc gConn pktlist fuel = some out) : Chunked pktlist.flatten out := by
  rw [midiReadProc, Option.bind_eq_bind, Option.bind_eq_some_iff] at h
  obtain ⟨outs, houts, h⟩ := h
  cases h
  induction pktlist generalizing outs with
  | nil =>
    cases houts
    exact chunked_nil
  | cons data pktlist ih =>
    rw [List.mapM_cons, Option.bind_eq_bind, Option.bind_eq_some_iff] at houts
    obtain ⟨out, hout, houts⟩ := houts
    rw [Option.bind_eq_bind, Option.bind_eq_some_iff] at houts
    obtain ⟨rest, hrest, houts⟩ := houts
    cases houts
    exact (midiSendToFf800_chunked hconn hout).append (ih rest hrest)

theorem midiReadProc_ends {pktlist : List (List Byte)} {fuel : ℕ} (h : ∀ data ∈ pktlist, data.length < fuel) :
    ∃ out, midiReadProc gConn pktlist fuel = some out := by
  induction pktlist with
  | nil => exact ⟨[], rfl⟩
  | cons data pktlist ih =>
    obtain ⟨out, hout⟩ := midiSendToFf800_ends hconn (h data List.mem_cons_self)
    obtain ⟨rest, hrest⟩ := ih fun d hd => h d (List.mem_cons_of_mem _ hd)
    rw [midiReadProc, Option.bind_eq_bind, Option.bind_eq_some_iff] at hrest
    obtain ⟨outs, houts, -⟩ := hrest
    exact ⟨(out :: outs).flatten, by rw [midiReadProc, List.mapM_cons, hout, houts]; rfl⟩

end

/-- The payloads of its blocks are decoded to the bytes. -/
theorem Chunked.lossless {bytes : List Byte} {out : List MidiOut} (h : Chunked bytes out) :
    midiInBytes (wire out) (wire out).length = some bytes := by
  have hwire : wire out = serialized (blocks out).flatten := by
    rw [wire, serialized, List.flatMap_def, List.flatMap_def, List.map_flatten, List.flatten_flatten, List.map_map]
    rfl
  have hback : (bytes.map fun b => b.setWidth 32).map midiInByte = bytes := by
    rw [List.map_map]
    exact List.map_id'' midiInByte_setWidth bytes
  rw [hwire, midiInBytes_serialized, h.quads, hback]

/-- The dext accepts every block, and sends it to the register as one request. -/
theorem Chunked.performed {bytes : List Byte} {out : List MidiOut} (h : Chunked bytes out) {v : Ivars}
    (hfound : v.ff800Found = true) {off : BitVec 64} {q : List U32} (hq : .wblock off q ∈ out) :
    v.perform (.writeBlock off q) = some (v.request 0x1 kMidiOutAddr (BitVec.ofNat 32 (q.length * 4) <<< 16)) := by
  obtain ⟨hne, hmax⟩ := h.sized q (List.mem_filterMap.2 ⟨_, hq, rfl⟩)
  have hmax : q.length ≤ 9 := hmax
  have hlen : ¬ (q.length = 0 ∨ q.length > kUFOhciMaxBlockQuadlets) := by
    unfold kUFOhciMaxBlockQuadlets
    omega
  rw [Ivars.perform, if_pos hfound, if_neg hlen, h.addressed off q hq]

/-! ## When it is called -/

/-- Where `main` is. -/
inductive MainPhase where
  | waiting
  | attached
  | bridging
  | stopped
  deriving DecidableEq

/-- Not in the source are `sent`, all that was sent so far, and `passed`, the bytes CoreMIDI has
passed. -/
structure Bridge where
  gConn : IoConnect := 0
  phase : MainPhase := .waiting
  sent : List MidiOut := []
  passed : List Byte := []

/-- The bridge's steps, from the device to the packets. -/
inductive BridgeAct where
  /-- A turn of the loop that looks for the device. -/
  | openDext (conn : IoConnect) (answers : Bool)
  | createEndpoints
  | midiReadProc (pktlist : List (List Byte)) (fuel : ℕ)
  | disposeEndpoints

namespace Bridge

/-- It waits for the device, makes its endpoints, and sends what comes. -/
def step (s : Bridge) (a : BridgeAct) : Option Bridge :=
  match a, s.phase with
  | .openDext conn answers, .waiting =>
    some (if conn ≠ 0 ∧ answers then { s with gConn := conn, phase := .attached } else s)
  | .createEndpoints, .attached => some { s with phase := .bridging }
  | .midiReadProc pktlist fuel, .bridging =>
    (midiReadProc s.gConn pktlist fuel).map fun out =>
    { s with sent := s.sent ++ out, passed := s.passed ++ pktlist.flatten }
  | .disposeEndpoints, .bridging => some { s with phase := .stopped }
  | _, _ => none

/-- From when the device has answered, there is a connection. -/
structure Inv (s : Bridge) : Prop where
  connected : s.phase = .attached ∨ s.phase = .bridging → s.gConn ≠ 0
  chunked : Chunked s.passed s.sent

theorem init_inv : Inv {} where
  connected := fun h => by simp at h
  chunked := chunked_nil

theorem step_inv (s : Bridge) (a : BridgeAct) (t : Bridge) (hi : s.Inv) (h : s.step a = some t) : t.Inv := by
  unfold step at h
  split at h
  · cases h
    split
    · rename_i hconn
      exact ⟨fun _ => hconn.1, hi.chunked⟩
    · exact hi
  · rename_i hp
    cases h
    exact ⟨fun _ => hi.connected (.inl hp), hi.chunked⟩
  · rename_i hp
    rw [Option.map_eq_some_iff] at h
    obtain ⟨out, hout, rfl⟩ := h
    have hconn := hi.connected (.inr hp)
    exact ⟨fun _ => hconn, hi.chunked.append (midiReadProc_chunked hconn hout)⟩
  · cases h
    exact ⟨fun hp => by simp at hp, hi.chunked⟩
  · cases h

end Bridge

section
variable {acts : List BridgeAct} {s : Bridge} (h : run Bridge.step {} acts = some s)
include h

/-- Whatever CoreMIDI has passed is what the blocks sent so far hold. -/
theorem bridge_wire : midiInBytes (wire s.sent) (wire s.sent).length = some s.passed :=
  (run_inv Bridge.Inv Bridge.step_inv h Bridge.init_inv).chunked.lossless

theorem bridge_connected (hp : s.phase = .bridging) : s.gConn ≠ 0 :=
  (run_inv Bridge.Inv Bridge.step_inv h Bridge.init_inv).connected (.inr hp)

/-- While there are endpoints, every list of packets is sent to its end. -/
theorem bridge_takes (hp : s.phase = .bridging) (pktlist : List (List Byte)) :
    ∃ fuel t, run Bridge.step {} (acts ++ [.midiReadProc pktlist fuel]) = some t ∧
    t.passed = s.passed ++ pktlist.flatten := by
  have hfuel : ∀ data ∈ pktlist, data.length < pktlist.flatten.length + 1 := by
    intro data hdata
    exact Nat.lt_succ_of_le (List.sublist_flatten_of_mem hdata).length_le
  obtain ⟨out, hout⟩ := midiReadProc_ends (bridge_connected h hp) hfuel
  have hstep : s.step (.midiReadProc pktlist (pktlist.flatten.length + 1)) =
      some { s with sent := s.sent ++ out, passed := s.passed ++ pktlist.flatten } := by
    simp only [Bridge.step, hp, hout, Option.map_some]
  exact ⟨_, _, run_append_some h (run_cons_some hstep rfl), rfl⟩

end

/-- A call ends and sends its bytes, and no call comes without a connection. -/
theorem midi_out_lossless : (∀ gConn : IoConnect, gConn ≠ 0 → ∀ (bytes : List Byte) (fuel : ℕ), bytes.length < fuel →
      ∃ out, midiSendToFf800 gConn bytes fuel = some out ∧
        (∀ q ∈ blocks out, 1 ≤ q.length ∧ q.length ≤ kMidiMaxQuads) ∧
        midiInBytes (wire out) (wire out).length = some bytes) ∧
    ∀ (acts : List BridgeAct) (s : Bridge), run Bridge.step {} acts = some s → s.phase = .bridging → s.gConn ≠ 0 := by
  refine ⟨fun gConn hconn bytes fuel hfuel => ?_, fun _ _ => bridge_connected⟩
  obtain ⟨out, hout⟩ := midiSendToFf800_ends hconn hfuel
  have hchunked := midiSendToFf800_chunked hconn hout
  exact ⟨out, hout, hchunked.sized, hchunked.lossless⟩

/-- Twelve bytes. -/
theorem midi_out_lossless_twelve : ∃ out, midiSendToFf800 0x907 (List.replicate 12 0xf8) 13 = some out ∧
    (∀ q ∈ blocks out, 1 ≤ q.length ∧ q.length ≤ kMidiMaxQuads) ∧
    midiInBytes (wire out) (wire out).length = some (List.replicate 12 0xf8) :=
  midi_out_lossless.1 0x907 (by decide) (List.replicate 12 0xf8) 13 (by decide)

example : midiSendToFf800 0x907 [1, 2, 3, 4, 5, 6, 7, 8, 9, 10] 3 =
    some [.wblock 0x80180000 [1, 2, 3, 4, 5, 6, 7, 8, 9], .usleep 2304, .wblock 0x80180000 [10], .usleep 256] := by
      decide

end UserFace800.Session
