import UserFace800.Lib.Bits
import UserFace800.Protocol.Codec
import UserFace800.Dext.BusReset
import Mathlib.Tactic.IntervalCases
/-!
# Headers of asynchronous requests

The request builders of `async.hpp` and `build_at_header` are what the tests test. The driver
packs the same header itself (`uf_at_header`) and lays it out in a descriptor block with
`ohci_build_at_block`. `at_headers` says that the two agree on every request, that the
fields are in the packet, and where the block has the header and its last descriptor.
-/
open UserFace800.Lib.Bits

namespace UserFace800.Dext

/-! ## The library -/

/-- `u32 header[4]`. -/
structure Header where
  q0 : U32 := 0
  q1 : U32 := 0
  q2 : U32 := 0
  q3 : U32 := 0
  deriving DecidableEq

/-- The `i`-th quadlet. -/
def Header.get (h : Header) : ℕ → U32
  | 0 => h.q0
  | 1 => h.q1
  | 2 => h.q2
  | _ => h.q3

/-- `Packet`: a header, how many of its quadlets are sent, and a payload. -/
structure Packet where
  header : Header := {}
  count : ℕ := 0
  payload : List (BitVec 8) := []

/-- The transaction code of a quadlet write. -/
def kWriteQuadletReq : U32 := 0x0

/-- The transaction code of a block write. -/
def kWriteBlockReq : U32 := 0x1

/-- The transaction code of a quadlet read. -/
def kReadQuadletReq : U32 := 0x4

/-- The transaction code of a block read. -/
def kReadBlockReq : U32 := 0x5

/-- The retry code of every request. -/
def kRetryX : U32 := 0x1

/-- The upper 16 of an address's 48 bits. -/
def addrHi (a : BitVec 64) : BitVec 16 := (a >>> 32 &&& 0xffff).setWidth 16

/-- The lower 32 of them. -/
def addrLo (a : BitVec 64) : U32 := (a &&& 0xffffffff).setWidth 32

/-- Bits 4 to 7 of the first quadlet. -/
def hdrTcode (h : Header) : U32 := (h.q0 &&& 0x000000f0) >>> 4

/-- Bits 10 to 15 of the first quadlet. -/
def hdrTlabel (h : Header) : U32 := (h.q0 &&& 0x0000fc00) >>> 10

/-- Bits 8 and 9 of the first quadlet. -/
def hdrRetry (h : Header) : U32 := (h.q0 &&& 0x00000300) >>> 8

/-- The upper half of the first quadlet. -/
def hdrDestination (h : Header) : U32 := (h.q0 &&& 0xffff0000) >>> 16

/-- The 48-bit address in the second and third quadlets. -/
def hdrOffset (h : Header) : BitVec 64 := (h.q1 &&& 0x0000ffff).setWidth 64 <<< 32 ||| h.q2.setWidth 64

/-- The data of a quadlet write. -/
def hdrQuadletData (h : Header) : U32 := h.q3

/-- The length of a block. -/
def hdrDataLength (h : Header) : U32 := (h.q3 &&& 0xffff0000) >>> 16

/-- The extended transaction code, 0 for a block. -/
def hdrExtendedTcode (h : Header) : U32 := h.q3 &&& 0x0000ffff

/-- The first three quadlets; the fourth is left. -/
def setRequestCommon (h : Header) (dest : BitVec 16) (tlabel tcode : U32) (offset : BitVec 64) : Header :=
  { h with
    q0 := dest.setWidth 32 <<< 16 ||| (tlabel &&& 0x3f) <<< 10 ||| kRetryX <<< 8 ||| (tcode &&& 0xf) <<< 4
    q1 := (addrHi offset).setWidth 32
    q2 := addrLo offset }

/-- A quadlet read has no fourth quadlet. -/
def readQuadletRequest (dest : BitVec 16) (tlabel : U32) (offset : BitVec 64) : Packet where
  header := setRequestCommon {} dest tlabel kReadQuadletReq offset
  count := 3

/-- A quadlet write has its value there. -/
def writeQuadletRequest (dest : BitVec 16) (tlabel : U32) (offset : BitVec 64) (value : U32) : Packet where
  header := { setRequestCommon {} dest tlabel kWriteQuadletReq offset with q3 := value }
  count := 4

/-- A block read has its length there. -/
def readBlockRequest (dest : BitVec 16) (tlabel : U32) (offset : BitVec 64) (length : U32) : Packet where
  header := { setRequestCommon {} dest tlabel kReadBlockReq offset with q3 := (length &&& 0xffff) <<< 16 }
  count := 4

/-- A block write has the length of its payload there. -/
def writeBlockRequest (dest : BitVec 16) (tlabel : U32) (offset : BitVec 64) (data : List (BitVec 8)) : Packet where
  header :=
    { setRequestCommon {} dest tlabel kWriteBlockReq offset with q3 := (BitVec.ofNat 32 data.length &&& 0xffff) <<< 16 }
  count := 4
  payload := data

/-- The header of the controller's format, and how many of its quadlets are used. -/
structure AtHeader where
  q : Header := {}
  count : ℕ := 0
  deriving DecidableEq

/-- `build_at_header`: the packet's fields, put where the controller wants them. -/
def buildAtHeader (pkt : Packet) (speed : U32) : AtHeader where
  q :=
    { q0 := (speed &&& 0x7) <<< 16 ||| hdrTlabel pkt.header <<< 10 ||| hdrRetry pkt.header <<< 8 |||
        hdrTcode pkt.header <<< 4
      q1 := hdrDestination pkt.header <<< 16 ||| (hdrOffset pkt.header >>> 32 &&& 0xffff).setWidth 32
      q2 := (hdrOffset pkt.header &&& 0xffffffff).setWidth 32
      q3 := pkt.header.q3 }
  count := pkt.count

/-! ## The driver -/

/-- `uf_at_header`: the driver's own builder. -/
def ufAtHeader (tcode : U32) (tlabel : BitVec 8) (dest : BitVec 16) (offset : BitVec 64) (dataOrLen speed : U32) :
    AtHeader where
  q :=
    { q0 := (speed &&& 0x7) <<< 16 ||| (tlabel &&& 0x3f).setWidth 32 <<< 10 ||| (1 <<< 8 : U32) |||
        (tcode &&& 0xf) <<< 4
      q1 := dest.setWidth 32 <<< 16 ||| (offset >>> 32 &&& 0xffff).setWidth 32
      q2 := (offset &&& 0xffffffff).setWidth 32
      q3 := dataOrLen }
  count := if tcode = 0x4 then 3 else 4

/-- A descriptor of the controller, 16 bytes. -/
structure Descriptor where
  reqCount : BitVec 16 := 0
  control : BitVec 16 := 0
  dataAddress : U32 := 0
  branchAddress : U32 := 0
  resCount : BitVec 16 := 0
  transferStatus : BitVec 16 := 0
  deriving DecidableEq

namespace Descriptor

/-- `DESC_OUTPUT_LAST`. -/
def outputLast : U32 := 1 <<< 12

/-- `DESC_KEY_IMMEDIATE`. -/
def keyImmediate : U32 := 2 <<< 8

/-- `DESC_IRQ_ALWAYS`. -/
def irqAlways : U32 := 3 <<< 4

/-- `DESC_BRANCH_ALWAYS`. -/
def branchAlways : U32 := 3 <<< 2

/-- The four quadlets of a descriptor, as the immediate header is read from it and written to it. -/
def quadlet (d : Descriptor) : ℕ → U32
  | 0 => d.reqCount.setWidth 32 ||| d.control.setWidth 32 <<< 16
  | 1 => d.dataAddress
  | 2 => d.branchAddress
  | _ => d.resCount.setWidth 32 ||| d.transferStatus.setWidth 32 <<< 16

/-- A store to one of the four. -/
def setQuadlet (d : Descriptor) (v : U32) : ℕ → Descriptor
  | 0 => { d with reqCount := v.setWidth 16, control := (v >>> 16).setWidth 16 }
  | 1 => { d with dataAddress := v }
  | 2 => { d with branchAddress := v }
  | _ => { d with resCount := v.setWidth 16, transferStatus := (v >>> 16).setWidth 16 }

/-- `DESC_OUTPUT_LAST`. -/
def isLast (d : Descriptor) : Bool := d.control &&& outputLast.setWidth 16 != 0

/-- The descriptor ends its block. -/
def markLast (d : Descriptor) : Descriptor :=
  { d with control := d.control ||| (outputLast ||| irqAlways ||| branchAlways).setWidth 16 }

end Descriptor

/-- The block at `d`, and Z. -/
def ohciBuildAtBlock (d : ℕ → Descriptor) (header : Header) (headerQuads : ℕ) (payloadAddr payloadLen : U32) :
    (ℕ → Descriptor) × ℕ :=
  let d := fun i => if i < 4 then {} else d i
  let d := Function.update d 0
    { d 0 with
      control := Descriptor.keyImmediate.setWidth 16
      reqCount := (BitVec.ofNat 32 headerQuads * 4).setWidth 16 }
  let d := (List.range headerQuads).foldl
    (fun d i => Function.update d (1 + i / 4) ((d (1 + i / 4)).setQuadlet (header.get i) (i % 4))) d
  if 0 < payloadLen then
    let d := Function.update d 2 { d 2 with reqCount := payloadLen.setWidth 16, dataAddress := payloadAddr }
    (Function.update d 2 (d 2).markLast, 3)
  else (Function.update d 0 (d 0).markLast, 2)

/-- The descriptor that `uf_at_run` polls. -/
def lastIdx (z : ℕ) : ℕ := if z = 3 then 2 else 0

/-! ## What the packet says -/

section
variable (h : Header) (dest : BitVec 16) (tlabel tcode : U32) (offset : BitVec 64)

theorem hdrTcode_common : hdrTcode (setRequestCommon h dest tlabel tcode offset) = tcode &&& 0xf := by
  apply field_eq 4 rfl (mask_lt 4 rfl _)
  intro i hi
  unfold setRequestCommon kRetryX
  interval_cases i <;> simp

theorem hdrTlabel_common : hdrTlabel (setRequestCommon h dest tlabel tcode offset) = tlabel &&& 0x3f := by
  apply field_eq 6 rfl (mask_lt 6 rfl _)
  intro i hi
  unfold setRequestCommon kRetryX
  interval_cases i <;> simp

theorem hdrRetry_common : hdrRetry (setRequestCommon h dest tlabel tcode offset) = kRetryX := by
  apply field_eq 2 rfl (by decide)
  intro i hi
  unfold setRequestCommon kRetryX
  interval_cases i <;> simp

theorem hdrDestination_common : hdrDestination (setRequestCommon h dest tlabel tcode offset) = dest.setWidth 32 := by
  apply field_eq 16 rfl
  · rw [BitVec.toNat_setWidth_of_le (by decide)]
    exact dest.isLt
  intro i hi
  unfold setRequestCommon kRetryX
  interval_cases i <;> simp

theorem hdrOffset_common : hdrOffset (setRequestCommon h dest tlabel tcode offset) = offset &&& 0xffffffffffff := by
  apply BitVec.eq_of_getLsbD_eq
  intro i hi
  unfold hdrOffset setRequestCommon addrHi addrLo
  interval_cases i <;> simp

end

/-- A label is of six bits. -/
theorem label_low (tlabel : BitVec 8) :
    (tlabel &&& 0x3f).setWidth 32 &&& (0x3f : U32) = (tlabel &&& 0x3f).setWidth 32 := by
  apply mask_eq 6 rfl
  rw [BitVec.toNat_setWidth_of_le (by decide)]
  exact mask_lt 6 rfl tlabel

/-- The driver's header is the library's, repacked. -/
theorem buildAtHeader_common {p : Packet} {x : U32} {dest : BitVec 16} {tlabel : BitVec 8} {tcode : U32}
    {offset : BitVec 64}
    (hp : p.header = setRequestCommon { q3 := x } dest ((tlabel &&& 0x3f).setWidth 32) tcode offset)
    (hcount : p.count = if tcode = 0x4 then 3 else 4) (speed : U32) :
    buildAtHeader p speed = ufAtHeader tcode tlabel dest offset x speed := by
  have hhi : (offset &&& 0xffffffffffff) >>> 32 &&& (0xffff : BitVec 64) = offset >>> 32 &&& (0xffff : BitVec 64) := by
    rw [BitVec.ushiftRight_and_distrib, BitVec.and_assoc]
    rfl
  have hlo : offset &&& 0xffffffffffff &&& (0xffffffff : BitVec 64) = offset &&& 0xffffffff := by
    rw [BitVec.and_assoc]
    rfl
  unfold buildAtHeader ufAtHeader
  rw [hp, hdrTcode_common, hdrTlabel_common, hdrRetry_common, hdrDestination_common, hdrOffset_common, label_low, hhi,
    hlo, hcount]
  rfl

/-! ## The operations -/

/-- Quadlets as they lie in a payload. -/
def serialized (quads : List U32) : List (BitVec 8) := quads.flatMap Protocol.leBytes

namespace Op

/-- The operation's transaction code. -/
def tcode : Op → U32
  | readQuadlet _ => kReadQuadletReq
  | readBlock _ _ => kReadBlockReq
  | writeQuadlet _ _ => kWriteQuadletReq
  | writeBlock _ _ => kWriteBlockReq

/-- The address it is of. -/
def offset : Op → BitVec 64
  | readQuadlet offset => offset
  | readBlock offset _ => offset
  | writeQuadlet offset _ => offset
  | writeBlock offset _ => offset

/-- How many quadlets a block has. -/
def count : Op → ℕ
  | readQuadlet _ => 0
  | readBlock _ count => count
  | writeQuadlet _ _ => 0
  | writeBlock _ quads => quads.length

/-- The library's packet. -/
def packet (op : Op) (dest : BitVec 16) (tlabel : U32) : Packet :=
  match op with
  | readQuadlet offset => readQuadletRequest dest tlabel offset
  | readBlock offset count => readBlockRequest dest tlabel offset (BitVec.ofNat 32 count * 4)
  | writeQuadlet offset value => writeQuadletRequest dest tlabel offset value
  | writeBlock offset quads => writeBlockRequest dest tlabel offset (serialized quads)

/-- The header as `uf_read_quadlet`, `uf_read_block`, `uf_write_quadlet` and `uf_write_block` have
it built, of the label `tl`. -/
def atHeader (op : Op) (dest : BitVec 16) (tl : BitVec 8) (speed : U32) : AtHeader :=
  match op with
  | readQuadlet offset => ufAtHeader 0x4 tl dest offset 0 speed
  | readBlock offset count => ufAtHeader 0x5 tl dest offset ((BitVec.ofNat 32 count * 4) <<< 16) speed
  | writeQuadlet offset value => ufAtHeader 0x0 tl dest offset value speed
  | writeBlock offset quads => ufAtHeader 0x1 tl dest offset ((BitVec.ofNat 32 quads.length * 4) <<< 16) speed

/-- The block they have built from it. -/
def block (op : Op) (dest : BitVec 16) (tl : BitVec 8) (speed payloadAddr : U32) (d : ℕ → Descriptor) :
    (ℕ → Descriptor) × ℕ :=
  let h := op.atHeader dest tl speed
  match op with
  | writeBlock _ quads => ohciBuildAtBlock d h.q h.count payloadAddr (BitVec.ofNat 32 quads.length * 4)
  | _ => ohciBuildAtBlock d h.q h.count 0 0

/-- The data or the length is in the fourth quadlet. -/
def Carried (op : Op) (h : Header) : Prop :=
  match op with
  | readQuadlet _ => True
  | readBlock _ count => hdrDataLength h = BitVec.ofNat 32 (count * 4) ∧ hdrExtendedTcode h = 0
  | writeQuadlet _ value => hdrQuadletData h = value
  | writeBlock _ quads => hdrDataLength h = BitVec.ofNat 32 (quads.length * 4) ∧ hdrExtendedTcode h = 0

end Op

theorem length_serialized (quads : List U32) : (serialized quads).length = quads.length * 4 := by
  induction quads with
  | nil => rfl
  | cons v quads ih =>
    rw [serialized, List.flatMap_cons, List.length_append, List.length_cons (a := v), Nat.succ_mul, Nat.add_comm]
    exact congrArg (· + 4) ih

/-- A length of 16 bits goes into its field whole. -/
theorem length_low {n : ℕ} (h : n < 2 ^ 16) : BitVec.ofNat 32 n &&& (0xffff : U32) = BitVec.ofNat 32 n := by
  apply mask_eq 16 rfl
  rwa [BitVec.toNat_ofNat, Nat.mod_eq_of_lt (by omega)]

theorem blockBytes_eq (n : ℕ) : BitVec.ofNat 32 n * 4 = BitVec.ofNat 32 (n * 4) := by
  apply BitVec.eq_of_toNat_eq
  simp

theorem atHeader_eq {op : Op} (hlen : op.count * 4 < 2 ^ 16) (dest : BitVec 16) (tlabel : BitVec 8) (speed : U32) :
    op.atHeader dest tlabel speed = buildAtHeader (op.packet dest ((tlabel &&& 0x3f).setWidth 32)) speed := by
  symm
  cases op with
  | readQuadlet offset => exact buildAtHeader_common rfl rfl speed
  | readBlock offset count =>
    have hlen : count * 4 < 2 ^ 16 := hlen
    have hlow : BitVec.ofNat 32 count * 4 &&& (0xffff : U32) = BitVec.ofNat 32 count * 4 := by
      rw [blockBytes_eq, length_low hlen]
    apply buildAtHeader_common _ rfl
    rw [Op.packet, readBlockRequest, hlow]
    rfl
  | writeQuadlet offset value => exact buildAtHeader_common rfl rfl speed
  | writeBlock offset quads =>
    have hlen : quads.length * 4 < 2 ^ 16 := hlen
    have hlow : BitVec.ofNat 32 (serialized quads).length &&& (0xffff : U32) = BitVec.ofNat 32 quads.length * 4 := by
      rw [length_serialized, length_low hlen, blockBytes_eq]
    apply buildAtHeader_common _ rfl
    rw [Op.packet, writeBlockRequest, hlow]
    rfl

theorem tcode_low (op : Op) : op.tcode &&& 0xf = op.tcode := by
  cases op <;> simp [Op.tcode, kReadQuadletReq, kReadBlockReq, kWriteQuadletReq, kWriteBlockReq]

theorem packet_header (op : Op) (dest : BitVec 16) (tlabel : U32) : ∃ x,
    (op.packet dest tlabel).header = setRequestCommon { q3 := x } dest tlabel op.tcode op.offset := by
  cases op <;> exact ⟨_, rfl⟩

theorem hdrDataLength_shifted {h : Header} {n : ℕ} (hn : n < 2 ^ 16) (hq : h.q3 = BitVec.ofNat 32 n <<< 16) :
    hdrDataLength h = BitVec.ofNat 32 n ∧ hdrExtendedTcode h = 0 := by
  constructor
  · apply field_eq 16 rfl
    · rwa [BitVec.toNat_ofNat, Nat.mod_eq_of_lt (by omega)]
    · intro i hi
      rw [hq]
      interval_cases i <;> simp
  · rw [hdrExtendedTcode, hq]
    apply BitVec.eq_of_getLsbD_eq
    intro i hi
    interval_cases i <;> simp

theorem packet_carried {op : Op} (hlen : op.count * 4 < 2 ^ 16) (dest : BitVec 16) (tlabel : U32) :
    op.Carried (op.packet dest tlabel).header := by
  cases op with
  | readQuadlet offset => trivial
  | readBlock offset count =>
    have hlen : count * 4 < 2 ^ 16 := hlen
    apply hdrDataLength_shifted hlen
    rw [Op.packet, readBlockRequest, blockBytes_eq, length_low hlen]
  | writeQuadlet offset value => rfl
  | writeBlock offset quads =>
    have hlen : quads.length * 4 < 2 ^ 16 := hlen
    apply hdrDataLength_shifted hlen
    rw [Op.packet, writeBlockRequest, length_serialized, length_low hlen]

/-- The request an operation sends has the fields of this header. -/
theorem perform_atHeader {v : Ivars} {op : Op} {r : Request} (h : v.perform op = some r) (tl : BitVec 8) (speed : U32) :
    op.atHeader r.dest tl speed = ufAtHeader (BitVec.ofNat 32 r.tcode) tl r.dest r.offset r.dataOrLen speed := by
  unfold Ivars.perform at h
  split at h
  · cases op with
    | readQuadlet offset =>
      cases h
      rfl
    | readBlock offset count =>
      dsimp only at h
      split at h
      · cases h
      · cases h
        rw [Op.atHeader, blockBytes_eq]
        rfl
    | writeQuadlet offset value =>
      cases h
      rfl
    | writeBlock offset quads =>
      dsimp only at h
      split at h
      · cases h
      · cases h
        rw [Op.atHeader, blockBytes_eq]
        rfl
  · cases h

/-! ## The block -/

theorem quadlet_setQuadlet (d : Descriptor) (v : U32) {j k : ℕ} (hj : j < 4) (hk : k < 4) :
    (d.setQuadlet v j).quadlet k = if k = j then v else d.quadlet k := by
  have hhalves : (v.setWidth 16).setWidth 32 ||| ((v >>> 16).setWidth 16).setWidth 32 <<< 16 = v := by
    apply BitVec.eq_of_getLsbD_eq
    intro i hi
    interval_cases i <;> simp
  interval_cases j <;> interval_cases k <;> first | exact hhalves | rfl

/-- The header in a descriptor, quadlet by quadlet. -/
def Descriptor.immediate (h : Header) (n : ℕ) : Descriptor :=
  (List.range n).foldl (fun d i => d.setQuadlet (h.get i) i) {}

theorem foldl_immediate (d : ℕ → Descriptor) (h : Header) {n : ℕ} (hn : n ≤ 4) :
    (List.range n).foldl (fun d i => Function.update d (1 + i / 4) ((d (1 + i / 4)).setQuadlet (h.get i) (i % 4))) d =
      Function.update d 1 ((List.range n).foldl (fun d i => d.setQuadlet (h.get i) i) (d 1)) := by
  induction n with
  | zero => exact (Function.update_eq_self 1 d).symm
  | succ n ih =>
    rw [List.range_succ, List.foldl_append, List.foldl_append, ih (by omega)]
    simp only [List.foldl_cons, List.foldl_nil, show n / 4 = 0 by omega, Nat.mod_eq_of_lt (show n < 4 by omega),
      Nat.add_zero, Function.update_self, Function.update_idem]

/-- The descriptors of a block. -/
theorem ohciBuildAtBlock_get (d : ℕ → Descriptor) (h : Header) {n : ℕ} (hn : n ≤ 4) (addr len : U32) (i : ℕ) :
    (ohciBuildAtBlock d h n addr len).1 i =
      if i = 0 then
        let d0 : Descriptor :=
          { control := Descriptor.keyImmediate.setWidth 16, reqCount := (BitVec.ofNat 32 n * 4).setWidth 16 }
        if 0 < len then d0 else d0.markLast
      else if i = 1 then Descriptor.immediate h n
      else if i = 2 ∧ 0 < len then Descriptor.markLast { reqCount := len.setWidth 16, dataAddress := addr }
      else if i < 4 then {} else d i := by
  unfold ohciBuildAtBlock Descriptor.immediate
  dsimp only
  rw [foldl_immediate _ _ hn]
  by_cases hlen : 0 < len
  · simp only [hlen, and_true]
    by_cases h0 : i = 0
    · subst h0; simp
    · by_cases h1 : i = 1
      · subst h1; simp
      · by_cases h2 : i = 2
        · subst h2; simp
        · simp [h0, h1, h2]
  · simp only [hlen, and_false, if_false]
    by_cases h0 : i = 0
    · subst h0; simp
    · by_cases h1 : i = 1
      · subst h1; simp
      · simp [h0, h1]

theorem ohciBuildAtBlock_z (d : ℕ → Descriptor) (h : Header) (n : ℕ) (addr len : U32) :
    (ohciBuildAtBlock d h n addr len).2 = if 0 < len then 3 else 2 := by
  unfold ohciBuildAtBlock
  dsimp only
  split <;> rfl

theorem immediate_quadlet (h : Header) {n : ℕ} (hn : n ≤ 4) {k : ℕ} (hk : k < 4) :
    (Descriptor.immediate h n).quadlet k = if k < n then h.get k else 0 := by
  induction n with
  | zero =>
    rw [if_neg (Nat.not_lt_zero k)]
    change ({} : Descriptor).quadlet k = 0
    interval_cases k <;> decide
  | succ n ih =>
    rw [Descriptor.immediate, List.range_succ, List.foldl_append, List.foldl_cons, List.foldl_nil,
      quadlet_setQuadlet _ _ (by omega) hk]
    by_cases hkn : k = n
    · rw [if_pos hkn, if_pos (by omega), hkn]
    · rw [if_neg hkn]
      refine (ih (by omega)).trans ?_
      simp only [show k < n ↔ k < n + 1 by omega]

theorem isLast_eq (d : Descriptor) : d.isLast = d.control.getLsbD 12 := by
  rw [Descriptor.isLast, show Descriptor.outputLast.setWidth 16 = BitVec.twoPow 16 12 from rfl, test_bit _ (by decide)]

theorem bit_markLast (d : Descriptor) : d.markLast.control.getLsbD 12 = true := by
  rw [Descriptor.markLast, BitVec.getLsbD_or]
  exact Bool.or_true _

/-- The bit is that of the top half of the first quadlet. -/
theorem bit_quadlet (d : Descriptor) : d.control.getLsbD 12 = (d.quadlet 0).getLsbD 28 := by
  rw [Descriptor.quadlet, BitVec.getLsbD_or]
  simp

/-- Where a block has its header, and its last descriptor. -/
structure Laid (d d' : ℕ → Descriptor) (h : AtHeader) (z : ℕ) : Prop where
  header : ∀ k < h.count, (d' 1).quadlet k = h.q.get k
  reqCount : (d' 0).reqCount = BitVec.ofNat 16 (4 * h.count)
  last : ∀ i < 4, (d' i).isLast = true ↔ i = lastIdx z
  rest : ∀ i, 4 ≤ i → d' i = d i

/-- A header with a clear bit where its descriptor would be marked. -/
theorem ohciBuildAtBlock_laid (d : ℕ → Descriptor) {h : AtHeader} (hcount : h.count ≤ 4)
    (hbit : h.q.q0.getLsbD 28 = false)
    (addr len : U32) : Laid d (ohciBuildAtBlock d h.q h.count addr len).1 h
    (ohciBuildAtBlock d h.q h.count addr len).2 := by
  have himmediate : (Descriptor.immediate h.q h.count).control[12] = false := by
    rw [← BitVec.getLsbD_eq_getElem, bit_quadlet, immediate_quadlet _ hcount (by decide)]
    split
    · exact hbit
    · rfl
  have hget := ohciBuildAtBlock_get d h.q hcount addr len
  refine ⟨?_, ?_, ?_, ?_⟩
  · intro k hk
    rw [hget, if_neg (by decide), if_pos rfl, immediate_quadlet _ hcount (by omega), if_pos hk]
  · have hbytes : (BitVec.ofNat 32 h.count * 4).setWidth 16 = BitVec.ofNat 16 (4 * h.count) := by
      rw [blockBytes_eq, Nat.mul_comm]
      apply BitVec.eq_of_toNat_eq
      rw [BitVec.toNat_setWidth, BitVec.toNat_ofNat, BitVec.toNat_ofNat]
      omega
    rw [hget, if_pos rfl]
    dsimp only
    rw [← hbytes]
    split <;> rfl
  · intro i hi
    rw [hget, ohciBuildAtBlock_z, lastIdx]
    by_cases hlen : 0 < len
    · simp only [hlen, and_true, if_true]
      interval_cases i <;> simp [isLast_eq, himmediate, bit_markLast, Descriptor.keyImmediate]
    · simp only [hlen, and_false, if_false]
      interval_cases i <;> simp [isLast_eq, himmediate, bit_markLast]
  · intro i hi
    rw [hget, if_neg (by omega), if_neg (by omega), if_neg (by omega), if_neg (by omega)]

theorem atHeader_count (op : Op) (dest : BitVec 16) (tl : BitVec 8) (speed : U32) :
    (op.atHeader dest tl speed).count ≤ 4 := by
  cases op <;> simp [Op.atHeader, ufAtHeader]

theorem atHeader_bit (op : Op) (dest : BitVec 16) (tl : BitVec 8) (speed : U32) :
    (op.atHeader dest tl speed).q.q0.getLsbD 28 = false := by
  cases op <;> simp [Op.atHeader, ufAtHeader]

/-- The driver's headers and blocks, against the library's packets. -/
theorem at_headers (op : Op) (dest : BitVec 16) (tlabel : BitVec 8) (speed payloadAddr : U32) (d : ℕ → Descriptor)
    (hoffset : op.offset.toNat < 2 ^ 48) (hlen : op.count * 4 < 2 ^ 16) :
    let label := (tlabel &&& 0x3f).setWidth 32
    let p := op.packet dest label
    let h := op.atHeader dest (tlabel &&& 0x3f) speed
    let b := op.block dest (tlabel &&& 0x3f) speed payloadAddr d
    h = buildAtHeader p speed ∧
      (hdrTcode p.header = op.tcode ∧ hdrTlabel p.header = label ∧ hdrRetry p.header = kRetryX ∧
        hdrDestination p.header = dest.setWidth 32 ∧ hdrOffset p.header = op.offset ∧ op.Carried p.header) ∧
      Laid d b.1 h b.2 := by
  intro label p h b
  obtain ⟨x, hp⟩ := packet_header op dest label
  have hlabel : label &&& (0x3f : U32) = label := label_low tlabel
  have hoff : op.offset &&& 0xffffffffffff = op.offset := mask_eq 48 rfl hoffset
  refine ⟨?_, ⟨?_, ?_, ?_, ?_, ?_, packet_carried hlen dest label⟩, ?_⟩
  · have := atHeader_eq hlen dest (tlabel &&& 0x3f) speed
    rwa [BitVec.and_assoc, BitVec.and_self] at this
  · rw [hp, hdrTcode_common, tcode_low]
  · rw [hp, hdrTlabel_common, hlabel]
  · rw [hp, hdrRetry_common]
  · rw [hp, hdrDestination_common]
  · rw [hp, hdrOffset_common, hoff]
  · have hlaid := ohciBuildAtBlock_laid d (atHeader_count op dest (tlabel &&& 0x3f) speed)
      (atHeader_bit op dest (tlabel &&& 0x3f) speed)
    cases op <;> exact hlaid _ _

/-- A block write of three quadlets. -/
theorem at_headers_conf :
    let op := Op.writeBlock 0xfc88f014 [1, 2, 3]
    Laid (fun _ => {}) (op.block 0xffc1 (0x47 &&& 0x3f) 2 0xdead0000 fun _ => {}).1
    (op.atHeader 0xffc1 (0x47 &&& 0x3f) 2) 3 ∧
      op.atHeader 0xffc1 (0x47 &&& 0x3f) 2 = buildAtHeader (op.packet 0xffc1 7) 2 := by
  have h := at_headers (.writeBlock 0xfc88f014 [1, 2, 3]) 0xffc1 0x47 2 0xdead0000 (fun _ => {}) (by decide) (by decide)
  exact ⟨h.2.2, h.1⟩

end UserFace800.Dext
