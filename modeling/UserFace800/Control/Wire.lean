import UserFace800.Control.Proto
import Mathlib.Data.List.GetD
/-!
# Messages on the wire

`handle` reads one message and leaves the rest of the stream, so a stream of
whole messages is read message by message whatever they are (`handle_append`),
and whatever a stream holds, what is read off it are whole messages of this
version and of the sizes their types have (`handle_keep`). The messages of
`Client` (`uf_ctl_client.hpp`) are such, and the command that comes out is the
call that went in.
-/
open UserFace800.Protocol

namespace UserFace800.Control

/-! ## Fields of a stream -/

theorem u8At_append {msg : List Byte} {off : ℕ} (h : off < msg.length) (rest : List Byte) :
    u8At (msg ++ rest) off = u8At msg off := List.getD_append _ _ _ _ h

theorem u16At_append {msg : List Byte} {off : ℕ} (h : off + 2 ≤ msg.length) (rest : List Byte) :
    u16At (msg ++ rest) off = u16At msg off := by
  unfold u16At
  rw [u8At_append (by omega), u8At_append (by omega)]

theorem u32At_append {msg : List Byte} {off : ℕ} (h : off + 4 ≤ msg.length) (rest : List Byte) :
    u32At (msg ++ rest) off = u32At msg off := by
  unfold u32At
  rw [u16At_append (by omega), u16At_append (by omega)]

/-- The length a header gives does not depend on what follows it. -/
theorem length_append {msg : List Byte} (h : 8 ≤ msg.length) (rest : List Byte) :
    u32At (msg ++ rest) 4 = u32At msg 4 := u32At_append h rest

@[simp] theorem u16At_zero (a b : Byte) (l : List Byte) : u16At (a :: b :: l) 0 = b ++ a := rfl
@[simp] theorem u16At_cons (a : Byte) (l : List Byte) (k : ℕ) : u16At (a :: l) (k + 1) = u16At l k := rfl
@[simp] theorem u32At_zero (a b c d : Byte) (l : List Byte) : u32At (a :: b :: c :: d :: l) 0 = (d ++ c) ++ (b ++ a) :=
  rfl
@[simp] theorem u32At_cons (a : Byte) (l : List Byte) (k : ℕ) : u32At (a :: l) (k + 1) = u32At l k := rfl
@[simp] theorem boolAt_zero (a : Byte) (l : List Byte) : boolAt (a :: l) 0 = (a != 0) := rfl
@[simp] theorem boolAt_cons (a : Byte) (l : List Byte) (k : ℕ) : boolAt (a :: l) (k + 1) = boolAt l k := rfl

/-! ## Frames -/

/-- A message whose header gives its own length, within bounds. -/
structure Frame (msg : List Byte) : Prop where
  header : kHeaderBytes ≤ msg.length
  max : msg.length ≤ kMaxMsgBytes
  length : (u32At msg 4).toNat = msg.length

theorem kHeaderBytes_eq : kHeaderBytes = 8 := rfl
theorem kMaxMsgBytes_eq : kMaxMsgBytes = 256 := rfl

/-- What `handle` does with a whole message, the version check and the switch. -/
def dispatch (sent : Bool) (msg rest : List Byte) : Handled :=
  if u16At msg 0 ≠ kCtlVersion then
    .drop (if MsgType.ofRaw (u16At msg 2) = some .hello then some { ok := 0 } else none)
  else
    match MsgType.ofRaw (u16At msg 2) with
    | none => .keep none none rest
    | some .hello => if sent then .keep (some { ok := 1 }) none rest else .drop (some { ok := 1 })
    | some t =>
      match t.size with
      | none => .keep none none rest
      | some n => if msg.length = n then .keep none (some (t.command msg)) rest else .drop none

/-- `handle` reads the frame at the front of the stream. -/
theorem handle_frame (sent : Bool) {msg : List Byte} (h : Frame msg) (rest : List Byte) :
    handle sent (msg ++ rest) = dispatch sent msg rest := by
  have h8 := h.header
  have hmax := h.max
  rw [kHeaderBytes_eq] at h8
  have hlen : (msg ++ rest).length = msg.length + rest.length := List.length_append
  unfold handle
  dsimp only
  rw [u16At_append (by omega), u16At_append (by omega), u32At_append (by omega), h.length, hlen, kHeaderBytes_eq]
  rw [if_neg (by omega), if_neg (by omega), if_neg (by omega), List.drop_left]
  unfold dispatch
  split
  · rfl
  · cases MsgType.ofRaw (u16At msg 2) with
    | none => rfl
    | some t =>
      cases t <;> dsimp only [MsgType.size]
      all_goals
        split
        · rename_i hn
          rw [← hn, List.take_left]
        · rfl

/-- Or there is none, and the client is dropped. -/
theorem handle_cases (sent : Bool) (stream : List Byte) :
    handle sent stream = .drop none ∨ ∃ msg rest, stream = msg ++ rest ∧ Frame msg := by
  by_cases h : stream.length < 8 ∨ (u32At stream 4).toNat < 8 ∨ (u32At stream 4).toNat > kMaxMsgBytes ∨
      stream.length < (u32At stream 4).toNat
  · left
    unfold handle
    dsimp only
    rw [kHeaderBytes_eq]
    by_cases h8 : stream.length < 8
    · rw [if_pos h8]
    · rw [if_neg h8]
      by_cases hb : (u32At stream 4).toNat < 8 ∨ (u32At stream 4).toNat > kMaxMsgBytes
      · rw [if_pos hb]
      · rw [if_neg hb, if_pos (by omega)]
  · right
    generalize hn : (u32At stream 4).toNat = n at h
    have happend := List.take_append_drop n stream
    have hmsg : (stream.take n).length = n := List.length_take_of_le (by omega)
    have h8 : 8 ≤ (stream.take n).length := by omega
    refine ⟨stream.take n, stream.drop n, happend.symm, by rw [hmsg, kHeaderBytes_eq]; omega, by omega, ?_⟩
    have hfield := length_append h8 (stream.drop n)
    rw [happend] at hfield
    rw [← hfield, hn, hmsg]

/-- A frame of this version, of the size its type has. -/
structure WellFormed (msg : List Byte) : Prop extends Frame msg where
  version : u16At msg 0 = kCtlVersion
  size : ∀ t n, MsgType.ofRaw (u16At msg 2) = some t → t.size = some n → msg.length = n

/-- The command a message carries, if its type has one. -/
def commandOf (msg : List Byte) : Option CtlCommand :=
  match MsgType.ofRaw (u16At msg 2) with
  | some t => if t.size = some msg.length then some (t.command msg) else none
  | none => none

theorem dispatch_keep {sent : Bool} {msg rest tail : List Byte} {ack : Option HelloAck} {cmd : Option CtlCommand}
    (hf : Frame msg) (h : dispatch sent msg rest = .keep ack cmd tail) :
    tail = rest ∧ WellFormed msg ∧ cmd = commandOf msg := by
  unfold dispatch at h
  split at h
  · cases h
  rename_i hversion
  rw [not_not] at hversion
  unfold commandOf
  cases ht : MsgType.ofRaw (u16At msg 2) with
  | none =>
    rw [ht] at h
    cases h
    refine ⟨rfl, { hf with version := hversion, size := fun t n h => ?_ }, rfl⟩
    rw [ht] at h
    cases h
  | some t =>
    rw [ht] at h
    have hcases : tail = rest ∧
        (t.size = none ∧ cmd = none ∨ t.size = some msg.length ∧ cmd = some (t.command msg)) := by
      cases t <;> dsimp only [MsgType.size] at h ⊢
      case hello =>
        split at h
        · cases h
          exact ⟨rfl, .inl ⟨rfl, rfl⟩⟩
        · cases h
      case helloAck =>
        cases h
        exact ⟨rfl, .inl ⟨rfl, rfl⟩⟩
      all_goals
        split at h
        · rename_i hsize
          cases h
          rw [hsize]
          exact ⟨rfl, .inr ⟨rfl, rfl⟩⟩
        · cases h
    have hsize : ∀ t' n, some t = some t' → t'.size = some n → msg.length = n := by
      rintro t' n ⟨⟩ hn
      rcases hcases.2 with ⟨hs, -⟩ | ⟨hs, -⟩
      · rw [hs] at hn
        cases hn
      · rw [hs] at hn
        cases hn
        rfl
    refine ⟨hcases.1, { hf with version := hversion, size := by rw [ht]; exact hsize }, ?_⟩
    dsimp only
    rcases hcases.2 with ⟨hs, hc⟩ | ⟨hs, hc⟩
    · rw [hs, hc]
      rfl
    · rw [hs, hc, if_pos rfl]

/-- Whatever the stream: a message that keeps the client is well formed, and the
command pushed is its own. -/
theorem handle_keep {sent : Bool} {stream rest : List Byte} {ack : Option HelloAck} {cmd : Option CtlCommand}
    (h : handle sent stream = .keep ack cmd rest) :
    ∃ msg, stream = msg ++ rest ∧ WellFormed msg ∧ cmd = commandOf msg := by
  rcases handle_cases sent stream with hd | ⟨msg, tail, rfl, hf⟩
  · rw [hd] at h
    cases h
  · rw [handle_frame sent hf] at h
    obtain ⟨rfl, hw, hc⟩ := dispatch_keep hf h
    exact ⟨msg, rfl, hw, hc⟩

/-- A well-formed message with a command is read whole and its command pushed. -/
theorem dispatch_command {sent : Bool} {msg : List Byte} (hversion : u16At msg 0 = kCtlVersion) {t : MsgType}
    (ht : MsgType.ofRaw (u16At msg 2) = some t) (hs : t.size = some msg.length) (rest : List Byte) :
    dispatch sent msg rest = .keep none (some (t.command msg)) rest := by
  unfold dispatch
  rw [if_neg (not_not.2 hversion), ht]
  cases t <;> dsimp only [MsgType.size] at hs ⊢
  case hello => cases hs
  case helloAck => cases hs
  all_goals rw [if_pos (Option.some.inj hs).symm]

/-- A message of a type without a handler is skipped. -/
theorem dispatch_skipped {sent : Bool} {msg : List Byte} (hversion : u16At msg 0 = kCtlVersion)
    (ht : MsgType.ofRaw (u16At msg 2) = none ∨ MsgType.ofRaw (u16At msg 2) = some .helloAck) (rest : List Byte) :
    dispatch sent msg rest = .keep none none rest := by
  unfold dispatch
  rw [if_neg (not_not.2 hversion)]
  rcases ht with ht | ht <;> rw [ht]
  rfl

/-! ## What a client sends -/

/-- Two bytes, little-endian. -/
def le16 (x : BitVec 16) : List Byte := [x.extractLsb' 0 8, x.extractLsb' 8 8]
/-- Four bytes, little-endian. -/
def le32 (x : BitVec 32) : List Byte :=
  [x.extractLsb' 0 8, x.extractLsb' 8 8, x.extractLsb' 16 8, x.extractLsb' 24 8]

theorem word16 (x : BitVec 16) : x.extractLsb' 8 8 ++ x.extractLsb' 0 8 = x := by
  apply BitVec.eq_of_getLsbD_eq
  intro i hi
  rw [BitVec.getLsbD_append]
  split
  · rename_i h
    simp [h]
  · rename_i h
    have hlt : i - 8 < 8 := by omega
    simp [hlt, Nat.add_sub_cancel' (Nat.le_of_not_lt h)]

theorem word32 (x : BitVec 32) :
    (x.extractLsb' 24 8 ++ x.extractLsb' 16 8) ++ (x.extractLsb' 8 8 ++ x.extractLsb' 0 8) = x := by
  apply BitVec.eq_of_getLsbD_eq
  intro i hi
  simp only [BitVec.getLsbD_append, BitVec.getLsbD_extractLsb']
  split
  · split
    · rename_i h
      simp [h]
    · have hlt : i - 8 < 8 := by omega
      simp [hlt, show 8 + (i - 8) = i by omega]
  · split
    · rename_i h
      simp [h, show 16 + (i - (8 + 8)) = i by omega]
    · have hlt : i - (8 + 8) - 8 < 8 := by omega
      simp [hlt, show 24 + (i - (8 + 8) - 8) = i by omega]

/-- The number of a level. -/
def InputLevel.raw : InputLevel → Quadlet
  | .loGain => 0
  | .p4dBu => 1
  | .m10dBV => 2
  | .other r => r

/-- The number of a level. -/
def OutputLevel.raw : OutputLevel → Quadlet
  | .hiGain => 0
  | .p4dBu => 1
  | .m10dBV => 2
  | .other r => r

/-- The number of a level. -/
def PhonesLevel.raw : PhonesLevel → Quadlet
  | .p4dBu => 0
  | .m10dBV => 1
  | .hiGain => 2
  | .other r => r

/-- The number of a source. -/
def InputSource.raw : InputSource → Quadlet
  | .unset => 0
  | .front => 1
  | .rear => 2
  | .other r => r

/-- The number of a reference. -/
def SyncRef.raw : SyncRef → Quadlet
  | .adat1 => 0
  | .adat2 => 1
  | .spdif => 2
  | .wordClock => 3
  | .tco => 4
  | .other r => r

/-- Each word has one name: the values of the source's type. -/
structure Settings where
  s : SettingsShadow
  input_level : InputLevel.ofRaw (InputLevel.raw s.input_level) = s.input_level
  output_level : OutputLevel.ofRaw (OutputLevel.raw s.output_level) = s.output_level
  phones_level : PhonesLevel.ofRaw (PhonesLevel.raw s.phones_level) = s.phones_level
  input1 : InputSource.ofRaw (InputSource.raw s.input1) = s.input1
  input7 : InputSource.ofRaw (InputSource.raw s.input7) = s.input7
  input8 : InputSource.ofRaw (InputSource.raw s.input8) = s.input8
  sync_ref : SyncRef.ofRaw (SyncRef.raw s.sync_ref) = s.sync_ref

/-- A `bool` as a byte. -/
def boolByte (b : Bool) : Byte := if b then 1 else 0

/-- The 48 bytes of a `SettingsShadow`; the compiler may leave anything in the padding. -/
def settingsBytes (st : SettingsShadow) (pad : ℕ → Byte) : List Byte :=
  [boolByte st.phantom7, boolByte st.phantom8, boolByte st.phantom9, boolByte st.phantom10] ++
  le32 (InputLevel.raw st.input_level) ++ le32 (OutputLevel.raw st.output_level) ++
  le32 (PhonesLevel.raw st.phones_level) ++ [boolByte st.filter, boolByte st.drive, pad 18, pad 19] ++
  le32 (InputSource.raw st.input1) ++ le32 (InputSource.raw st.input7) ++ le32 (InputSource.raw st.input8) ++
  [boolByte st.spdif_out_pro, boolByte st.spdif_out_emphasis, boolByte st.spdif_out_nonaudio,
    boolByte st.spdif_out_optical, boolByte st.spdif_in_optical, boolByte st.clock_master, pad 38, pad 39] ++
  le32 (SyncRef.raw st.sync_ref) ++ [boolByte st.word_clock_1x, boolByte st.disable_limiter, pad 46, pad 47]

/-- The calls of `Client`. A kind is any 16-bit value of its enumeration. -/
inductive Call where
  | setMixer (kind src dest : BitVec 16) (coeff : BitVec 32)
  | setFader (out : BitVec 16) (coeff : BitVec 32)
  | setCellFlags (kind src dest mask value : BitVec 16)
  | setOutFlags (out mask value : BitVec 16)
  | setStereo (kind channel : BitVec 16) (on : Bool)
  | copySubmix (src dest : BitVec 16)
  | clearSubmix (out : BitVec 16)
  | setSettings (st : Settings) (pad : ℕ → Byte) (rate : BitVec 32)

/-- `MsgHeader`, as it is sent. -/
def header (type : BitVec 16) (length : BitVec 32) : List Byte := le16 kCtlVersion ++ le16 type ++ le32 length

namespace Call

/-- What the call sends. -/
def bytes : Call → List Byte
  | .setMixer kind src dest coeff => header 3 20 ++ le16 kind ++ le16 src ++ le16 dest ++ le16 0 ++ le32 coeff
  | .setFader out coeff => header 4 16 ++ le16 out ++ le16 0 ++ le32 coeff
  | .setCellFlags kind src dest mask value =>
    header 6 20 ++ le16 kind ++ le16 src ++ le16 dest ++ le16 mask ++ le16 value ++ le16 0
  | .setOutFlags out mask value => header 7 16 ++ le16 out ++ le16 mask ++ le16 value ++ le16 0
  | .setStereo kind channel on => header 8 16 ++ le16 kind ++ le16 channel ++ le16 (if on then 1 else 0) ++ le16 0
  | .copySubmix src dest => header 9 16 ++ le16 src ++ le16 dest ++ le32 0
  | .clearSubmix out => header 9 16 ++ le16 0 ++ le16 out ++ le32 1
  | .setSettings st pad rate => header 5 64 ++ le32 rate ++ le32 0 ++ settingsBytes st.s pad

/-- What the call asks for. -/
def command : Call → CtlCommand
  | .setMixer kind src dest coeff => { type := .setMixer, srcKind := kind, src, dest, coeff }
  | .setFader out coeff => { type := .setFader, out, coeff }
  | .setCellFlags kind src dest mask value =>
    { type := .setCellFlags, srcKind := kind, src, dest, mask, flags := value }
  | .setOutFlags out mask value => { type := .setOutFlags, out, mask, flags := value }
  | .setStereo kind channel on => { type := .setStereo, srcKind := kind, src := channel, on := if on then 1 else 0 }
  | .copySubmix src dest => { type := .submix, src, dest, on := 0 }
  | .clearSubmix out => { type := .submix, src := 0, dest := out, on := 1 }
  | .setSettings st _ rate => { type := .setSettings, rate, settings := st.s }

/-- The message type of a call. -/
def type : Call → MsgType
  | .setMixer .. => .setMixer
  | .setFader .. => .setFader
  | .setCellFlags .. => .setCellFlags
  | .setOutFlags .. => .setOutFlags
  | .setStereo .. => .setStereo
  | .copySubmix .. => .submix
  | .clearSubmix .. => .submix
  | .setSettings .. => .setSettings

/-- The header of every call's message gives this version, its type, and its length. -/
theorem bytes_header (c : Call) :
    u16At c.bytes 0 = kCtlVersion ∧ MsgType.ofRaw (u16At c.bytes 2) = some c.type ∧
      c.type.size = some c.bytes.length ∧ (u32At c.bytes 4).toNat = c.bytes.length := by
  cases c <;>
    simp only [bytes, header, settingsBytes, le16, le32, List.cons_append, List.nil_append, u16At_zero, u16At_cons,
      u32At_zero, u32At_cons, word16, word32, List.length_cons, List.length_nil] <;>
    exact ⟨trivial, rfl, rfl, rfl⟩

theorem bytes_frame (c : Call) : Frame c.bytes := by
  refine ⟨?_, ?_, c.bytes_header.2.2.2⟩ <;> cases c <;> exact Nat.le_of_ble_eq_true rfl

theorem boolByte_ne (b : Bool) : (boolByte b != 0) = b := by
  cases b <;> rfl

theorem settingsAt_bytes (st : Settings) (pad : ℕ → Byte) (rate : BitVec 32) :
    settingsAt (Call.setSettings st pad rate).bytes 16 = st.s := by
  simp only [bytes, header, settingsBytes, le16, le32, List.cons_append, List.nil_append, settingsAt, boolAt_zero,
    boolAt_cons, u32At_zero, u32At_cons, word32, boolByte_ne, st.input_level, st.output_level, st.phones_level,
    st.input1, st.input7, st.input8, st.sync_ref]

/-- The receiver's copy of a message is the sender's. -/
theorem command_bytes (c : Call) : c.type.command c.bytes = c.command := by
  cases c
  case setSettings st pad rate =>
    have hs := settingsAt_bytes st pad rate
    simp only [type, MsgType.command, command, hs, CtlCommand.mk.injEq, true_and, and_true]
    simp only [bytes, header, le16, le32, List.cons_append, List.nil_append, u32At_zero, u32At_cons, word32]
  all_goals
    simp only [type, MsgType.command, command, bytes, header, le16, le32, List.cons_append, List.nil_append,
      u16At_zero, u16At_cons, u32At_zero, u32At_cons, word16, word32]
  -- a submix is cleared or copied by whether its last word is 0
  case copySubmix => rfl
  case clearSubmix => rfl

/-- One call, one command. -/
theorem handle_bytes (sent : Bool) (c : Call) (rest : List Byte) :
    handle sent (c.bytes ++ rest) = .keep none (some c.command) rest := by
  obtain ⟨hversion, ht, hs, -⟩ := c.bytes_header
  rw [handle_frame sent c.bytes_frame, dispatch_command hversion ht hs, c.command_bytes]

end Call

/-! ## A connection -/

/-- A message of this version whose type this daemon has no handler for. -/
structure Unknown where
  type : BitVec 16
  body : List Byte
  unknown : MsgType.ofRaw type = none ∨ MsgType.ofRaw type = some .helloAck
  length : kHeaderBytes + body.length ≤ kMaxMsgBytes

/-- The message, as it is sent. -/
def Unknown.bytes (u : Unknown) : List Byte := header u.type (BitVec.ofNat 32 (kHeaderBytes + u.body.length)) ++ u.body

theorem Unknown.handle_bytes (sent : Bool) (u : Unknown) (rest : List Byte) :
    handle sent (u.bytes ++ rest) = .keep none none rest := by
  have hmax := u.length
  rw [kHeaderBytes_eq, kMaxMsgBytes_eq] at hmax
  have hlen : u.bytes.length = 8 + u.body.length := List.length_append
  have hfields : u16At u.bytes 0 = kCtlVersion ∧ u16At u.bytes 2 = u.type ∧
      u32At u.bytes 4 = BitVec.ofNat 32 (8 + u.body.length) := by
    simp only [Unknown.bytes, header, le16, le32, List.cons_append, List.nil_append, u16At_zero, u16At_cons,
      u32At_zero, u32At_cons, word16, word32, kHeaderBytes_eq, and_self]
  have hframe : Frame u.bytes := by
    refine ⟨by rw [kHeaderBytes_eq]; omega, by rw [kMaxMsgBytes_eq]; omega, ?_⟩
    rw [hfields.2.2, BitVec.toNat_ofNat]
    omega
  rw [handle_frame sent hframe, dispatch_skipped hfields.1 (by rw [hfields.2.1]; exact u.unknown)]

/-- What a client may send after its handshake. -/
inductive Item where
  | call (c : Call)
  | unknown (u : Unknown)

/-- The item, as it is sent. -/
def Item.bytes : Item → List Byte
  | .call c => c.bytes
  | .unknown u => u.bytes

/-- The command the daemon makes of it, if any. -/
def Item.command : Item → Option CtlCommand
  | .call c => some c.command
  | .unknown _ => none

theorem Item.handle_bytes (sent : Bool) (i : Item) (rest : List Byte) :
    handle sent (i.bytes ++ rest) = .keep none i.command rest := by
  cases i with
  | call c => exact c.handle_bytes sent rest
  | unknown u => exact u.handle_bytes sent rest

/-- What a number of calls of `handle` pushed, whether all of them kept the
client, and what is left. A client that is dropped is not read again. -/
structure Received where
  cmds : List CtlCommand
  kept : Bool
  rest : List Byte

/-- `sent` is the fate of the answer of each call, should it give one. -/
def handles : List Bool → List Byte → Received
  | [], stream => ⟨[], true, stream⟩
  | sent :: sents, stream =>
    match handle sent stream with
    | .drop _ => ⟨[], false, stream⟩
    | .keep _ cmd rest =>
      let r := handles sents rest
      { r with cmds := cmd.toList ++ r.cmds }

theorem handles_items (sents : List Bool) (items : List Item) (hlen : sents.length = items.length) :
    handles sents (items.flatMap Item.bytes) = ⟨items.filterMap Item.command, true, []⟩ := by
  induction items generalizing sents with
  | nil =>
    rw [List.eq_nil_of_length_eq_zero hlen]
    rfl
  | cons i items ih =>
    cases sents with
    | nil => cases hlen
    | cons sent sents =>
      rw [List.flatMap_cons, handles, i.handle_bytes]
      dsimp only
      rw [ih sents (Nat.succ.inj hlen), List.filterMap_cons]
      cases i <;> rfl

theorem handles_messages (sents : List Bool) (stream : List Byte) :
    ∃ msgs : List (List Byte), stream = msgs.flatten ++ (handles sents stream).rest ∧
      (∀ msg ∈ msgs, WellFormed msg) ∧ (handles sents stream).cmds = msgs.filterMap commandOf := by
  induction sents generalizing stream with
  | nil => exact ⟨[], rfl, fun msg h => (nomatch h), rfl⟩
  | cons sent sents ih =>
    unfold handles
    cases hh : handle sent stream with
    | drop ack => exact ⟨[], rfl, fun msg h => (nomatch h), rfl⟩
    | keep ack cmd rest =>
      obtain ⟨msg, hmsg, hwell, hcmd⟩ := handle_keep hh
      obtain ⟨msgs, hrest, hall, hcmds⟩ := ih rest
      refine ⟨msg :: msgs, ?_, ?_, ?_⟩
      · rw [List.flatten_cons, List.append_assoc, ← hrest]
        exact hmsg
      · intro m hm
        rcases List.mem_cons.1 hm with rfl | hm
        · exact hwell
        · exact hall m hm
      · dsimp only
        rw [List.filterMap_cons, ← hcmd, hcmds]
        cases cmd <;> rfl

/-- Any calls and unknown messages, sent and read one `handle` each: one command
for each call, in order and with its fields, and every `handle` keeps the client.
Any stream at all, any number of calls of `handle`: what is pushed is the commands
of whole messages at the front of it, each of this version, of a length within
bounds, and of its type's size; nothing comes from what is behind them. -/
theorem wire_framing :
    (∀ (items : List Item) (sents : List Bool), sents.length = items.length →
      handles sents (items.flatMap Item.bytes) = ⟨items.filterMap Item.command, true, []⟩) ∧
    ∀ (sents : List Bool) (stream : List Byte), ∃ msgs : List (List Byte),
      stream = msgs.flatten ++ (handles sents stream).rest ∧ (∀ msg ∈ msgs, WellFormed msg) ∧
      (handles sents stream).cmds = msgs.filterMap commandOf :=
  ⟨fun items sents h => handles_items sents items h, handles_messages⟩

/-- A route, a message from the future, a loopback. -/
theorem wire_framing_three : handles [true, true, true]
    ([.call (.setMixer 1 2 3 0x8000), .unknown ⟨77, [1, 2, 3], .inl rfl, by decide⟩, .call (.setOutFlags 5 4 4)].flatMap
      Item.bytes) =
    ⟨[{ type := .setMixer, srcKind := 1, src := 2, dest := 3, coeff := 0x8000 },
      { type := .setOutFlags, out := 5, mask := 4, flags := 4 }], true, []⟩ :=
  wire_framing.1 [.call (.setMixer 1 2 3 0x8000), .unknown ⟨77, [1, 2, 3], .inl rfl, by decide⟩,
    .call (.setOutFlags 5 4 4)] [true, true, true] rfl

end UserFace800.Control
