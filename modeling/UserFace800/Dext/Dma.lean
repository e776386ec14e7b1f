import UserFace800.Dext.AtHeader
import UserFace800.Dext.Iso
/-!
# What the controller is told to transfer

`Dext.Iso` has the cursors and the status of the isochronous descriptors. This is the rest
of their words: where a packet goes, how long it may be, which descriptor is next. The
controller follows them by address from the command pointer on, whatever a client calls.

`dma_contained` says that it stays on the two tables and in the two buffers, and that a
header says what its payload is, but for a slot caught between the two stores of a resize.
-/
open UserFace800.Lib

namespace UserFace800.Dext

/-- The size of a capture slot. -/
def kUFOhciIsoSlotBytes : ℕ := 2048

/-- The size of a transmit slot. -/
def kUFOhciTxSlotBytes : ℕ := 2048

/-! ## Addresses -/

/-- What bring-up gives the driver: of `PrepareForDMA` one segment below 4 GB for each
buffer, the tables aligned as they were created, and the device's speed. -/
structure DmaMap where
  isoAddr : ℕ
  isoDescAddr : ℕ
  itDescAddr : ℕ
  itPayAddr : ℕ
  ff800Speed : U32
  iso_fits : isoAddr + kUFOhciIsoSlotBytes * kUFOhciIsoMaxPackets ≤ 2 ^ 32
  isoDesc_fits : isoDescAddr + 16 * kUFOhciIsoMaxPackets ≤ 2 ^ 32
  itDesc_fits : itDescAddr + 64 * kITPackets ≤ 2 ^ 32
  itPay_fits : itPayAddr + kUFOhciTxSlotBytes * kITPackets ≤ 2 ^ 32
  isoDesc_aligned : 16 ∣ isoDescAddr
  itDesc_aligned : 4096 ∣ itDescAddr

/-- An address with Z, the length of the block there, in its low bits. -/
def branchTo (addr z : ℕ) : U32 := BitVec.ofNat 32 addr ||| BitVec.ofNat 32 z

/-- How the controller takes such a word apart. -/
def branchAddr (p : U32) : ℕ := p.toNat / 16 * 16

/-- How many descriptors it fetches, 0 for the end of the program. -/
def branchZ (p : U32) : ℕ := p.toNat % 16

theorem branchTo_toNat {addr z : ℕ} (haddr : addr < 2 ^ 32) (halign : 16 ∣ addr) (hz : z < 16) :
    (branchTo addr z).toNat = addr + z := by
  obtain ⟨k, rfl⟩ := halign
  rw [branchTo, BitVec.toNat_or, BitVec.toNat_ofNat, BitVec.toNat_ofNat, Nat.mod_eq_of_lt haddr,
    Nat.mod_eq_of_lt (by omega)]
  exact (Nat.two_pow_add_eq_or_of_lt (i := 4) hz k).symm

theorem branchAddr_branchTo {addr z : ℕ} (haddr : addr < 2 ^ 32) (halign : 16 ∣ addr) (hz : z < 16) :
    branchAddr (branchTo addr z) = addr := by
  rw [branchAddr, branchTo_toNat haddr halign hz]
  obtain ⟨k, rfl⟩ := halign
  omega

theorem branchZ_branchTo {addr z : ℕ} (haddr : addr < 2 ^ 32) (halign : 16 ∣ addr) (hz : z < 16) :
    branchZ (branchTo addr z) = z := by
  rw [branchZ, branchTo_toNat haddr halign hz]
  obtain ⟨k, rfl⟩ := halign
  omega

/-! ## Words -/

namespace Descriptor

/-- `DESC_INPUT_LAST`. -/
def inputLast : U32 := 3 <<< 12

/-- `DESC_STATUS`. -/
def status : U32 := 1 <<< 11

end Descriptor

/-- A transmit block: the key descriptor, the two header quadlets that fill the second one,
and the payload's descriptor. -/
structure TxBlock where
  key : Descriptor := {}
  hdr0 : U32 := 0
  hdr1 : U32 := 0
  payload : Descriptor := {}

/-- `IT_HDR_Q0`, `IT_HDR_Q1` and `IR_MATCH`. -/
def itHdrQ0 (spd tag ch sy : U32) : U32 :=
  (spd &&& 7) <<< 16 ||| (tag &&& 3) <<< 14 ||| (ch &&& 0x3f) <<< 8 ||| (0xa : U32) <<< 4 ||| (sy &&& 0xf)

/-- `IT_HDR_Q1`: the length, in its upper half. -/
def itHdrQ1 (len : U32) : U32 := (len &&& 0xffff) <<< 16

/-- `IR_MATCH`: the tags, the sync and the channel to match. -/
def irMatch (tags sync ch : U32) : U32 := tags <<< 28 ||| sync <<< 8 ||| (ch &&& 0x3f)

/-- How the controller takes the last two apart. -/
def hdrDataLen (q1 : U32) : ℕ := (q1 >>> 16).toNat

/-- The channel a context matches. -/
def matchChannel (w : U32) : U32 := w &&& 0x3f

theorem hdrDataLen_itHdrQ1 {len : U32} (h : len.toNat ≤ kUFOhciTxSlotBytes) : hdrDataLen (itHdrQ1 len) = len.toNat := by
  have hlt : len.toNat < 2 ^ 16 := by
    unfold kUFOhciTxSlotBytes at h
    omega
  unfold hdrDataLen itHdrQ1
  rw [show (len &&& 0xffff) = len by
    apply BitVec.eq_of_toNat_eq
    rw [BitVec.toNat_and, show (0xffff : U32).toNat = 2 ^ 16 - 1 from rfl, Nat.and_two_pow_sub_one_eq_mod,
      Nat.mod_eq_of_lt hlt]]
  simp only [BitVec.toNat_ushiftRight, BitVec.toNat_shiftLeft, Nat.shiftLeft_eq, Nat.shiftRight_eq_div_pow]
  omega

theorem matchChannel_irMatch (ch : U32) : matchChannel (irMatch 0xf 0 ch) = ch &&& 0x3f := by
  unfold matchChannel irMatch
  rw [BitVec.and_or_distrib_right, BitVec.and_assoc, BitVec.and_self]
  exact BitVec.zero_or

namespace DmaMap

variable (m : DmaMap)

/-- The branch word to capture descriptor `i`. -/
def rxBranch (i : ℕ) : U32 := branchTo (m.isoDescAddr + 16 * i) 1

/-- The branch word to transmit block `i`. -/
def txBranch (i : ℕ) : U32 := branchTo (m.itDescAddr + 64 * i) 3

/-- Capture descriptor `i`: one slot, and where to go on. -/
def rxDescriptor (i : ℕ) (irq : Bool) (branch : U32) : Descriptor where
  reqCount := BitVec.ofNat 16 kUFOhciIsoSlotBytes
  control := (Descriptor.inputLast ||| Descriptor.status ||| Descriptor.branchAlways |||
    if irq then Descriptor.irqAlways else 0).setWidth 16
  dataAddress := BitVec.ofNat 32 (m.isoAddr + i * kUFOhciIsoSlotBytes)
  branchAddress := branch

/-- Block `i` as `IsoTxStart` writes it, but that the header may be of another length. -/
def txBlock (channel : U32) (i : ℕ) (payloadBytes hdrBytes : U32) : TxBlock where
  key := { control := Descriptor.keyImmediate.setWidth 16, reqCount := 8, branchAddress := m.txBranch i }
  hdr0 := itHdrQ0 m.ff800Speed 0 channel 0
  hdr1 := itHdrQ1 hdrBytes
  payload :=
    { control := (Descriptor.outputLast ||| Descriptor.status ||| Descriptor.branchAlways).setWidth 16
      reqCount := payloadBytes.setWidth 16
      dataAddress := BitVec.ofNat 32 (m.itPayAddr + i * kUFOhciTxSlotBytes)
      branchAddress := m.txBranch ((i + 1) % kITPackets) }

end DmaMap

/-! ## The driver and the controller -/

/-- What the controller did, each with the number of packets since the context was started:
a packet received on a channel into memory, or one sent from it, with the channel the
client asked for; or the fetch of something that is no block of the table. -/
inductive Transfer where
  | receive (asked channel : U32) (count addr len : ℕ)
  | send (asked : U32) (count addr len : ℕ) (hdr0 hdr1 : U32) (resizing : Bool)
  | wild

/-- `rxPtr` and `txPtr` are the words the contexts fetch by next, `none` when they do not
run; `resizing` is a slot between the two stores of a resize. Not in the source: `mem`,
which packet was last received where; what the two contexts were started with; how many packets
there were since; and the transfers. -/
structure Dma where
  iso : Iso := { rx := { isoPackets := 0, isoRunning := false, isoContinuous := false } }
  rxWords : ℕ → Descriptor := fun _ => {}
  txWords : ℕ → TxBlock := fun _ => {}
  rxMatch : U32 := 0
  rxPtr : Option U32 := none
  txPtr : Option U32 := none
  resizing : Option (ℕ × U32) := none
  mem : ℕ → ℕ := fun _ => 0
  rxChannel : U32 := 0
  txChannel : U32 := 0
  oneShot : Bool := false
  rxCount : ℕ := 0
  txCount : ℕ := 0
  transfers : List Transfer := []

/-- What a method returns. -/
inductive IOReturn where
  | success | badArgument | notReady
  deriving DecidableEq

/-- The selectors of the isochronous methods. -/
inductive IsoSelector where
  | isoStart | isoPoll | isoStop | isoStartCont | isoCompleted | isoRelease
  | isoTxStart | isoTxStop | isoTxSent | isoTxRefill | isoTxSetBytes | pump

/-- A call of a method, or a step of the controller or of its interrupt. -/
inductive DmaAct where
  | call (selector : IsoSelector) (scalarInput : List (BitVec 64))
  /-- The second store of `IsoTxSetSlotBytes`, which returns then. -/
  | resized
  /-- The interrupt finds these cursors in the control block. -/
  | isoCompletion (control : UFOhciControl) (host : ℕ) (cycle : BitVec 32)
  | receive (channel : U32) (len : ℕ)
  /-- An empty packet may leave a status or not. -/
  | transmit (status : Bool)
  /-- A cycle without a packet, on an underrun. -/
  | skip

namespace Dma

variable (m : DmaMap)

/-! ### The methods -/

/-- `IsoStart`: a program of `packets` descriptors that ends with the last. -/
def isoStart (s : Dma) (channel packets : U32) : Dma :=
  let n := packets.toNat
  { s with
    iso.rx := { s.iso.rx with
      isoDesc := fun i => if i < n then false else s.iso.rx.isoDesc i, isoPackets := n, isoRunning := true }
    rxWords := fun i =>
      if i < n then m.rxDescriptor i false (if i + 1 < n then m.rxBranch (i + 1) else 0) else s.rxWords i
    rxMatch := irMatch 0xf 0 channel, rxPtr := some (m.rxBranch 0)
    rxChannel := channel, oneShot := true, rxCount := 0 }

/-- How many packets have landed, from the front. -/
def isoPoll (s : Dma) : ℕ := ((List.range s.iso.rx.isoPackets).takeWhile fun i => s.iso.rx.isoDesc i).length

/-- The receive context is stopped, if it runs. -/
def isoStop (s : Dma) : Dma :=
  if s.iso.rx.isoRunning then { s with iso.rx := s.iso.rx.stop, rxPtr := none } else s

/-- `IsoStartContinuous`: all descriptors, in a ring. -/
def isoStartContinuous (s : Dma) (channel : U32) : Dma :=
  let n := kUFOhciIsoMaxPackets
  { s with
    iso.rx := s.iso.rx.startContinuous, iso.isoIrqEvery := kUFOhciIrqEvery
    rxWords := fun i =>
      if i < n then m.rxDescriptor i (i % kUFOhciIrqEvery == 0) (m.rxBranch ((i + 1) % n)) else s.rxWords i
    rxMatch := irMatch 0xf 0 channel, rxPtr := some (m.rxBranch 0)
    rxChannel := channel, oneShot := false, rxCount := 0 }

/-- `IsoTxStart`: a ring of blocks, the full ones spread evenly. -/
def isoTxStart (s : Dma) (channel fullPayloadBytes fullCount : U32) : Dma :=
  { s with
    iso.tx := s.iso.tx.start fullCount.toNat
    txWords := fun i =>
      if i < kITPackets then
        let payloadBytes := if isFullPacket i fullCount.toNat kITPackets then fullPayloadBytes else 0
        m.txBlock channel i payloadBytes payloadBytes
      else s.txWords i
    txPtr := some (m.txBranch 0)
    txChannel := channel, txCount := 0 }

/-- The first store of `IsoTxSetSlotBytes`. -/
def setReqCount (s : Dma) (slot : ℕ) (payloadBytes : U32) : Dma :=
  let b := s.txWords slot
  { s with
    txWords := Function.update s.txWords slot { b with payload.reqCount := payloadBytes.setWidth 16 }
    resizing := some (slot, payloadBytes) }

/-- The second store of it. -/
def setHdr1 (s : Dma) (slot : ℕ) (payloadBytes : U32) : Dma :=
  let b := s.txWords slot
  { s with txWords := Function.update s.txWords slot { b with hdr1 := itHdrQ1 payloadBytes }, resizing := none }

/-- The transmit context is stopped, if it runs. -/
def isoTxStop (s : Dma) : Dma :=
  if s.iso.tx.itRunning then { s with iso.tx := s.iso.tx.stop, txPtr := none } else s

/-- `ExternalMethod`, with the scalar output. -/
def externalMethod (s : Dma) (selector : IsoSelector) (scalarInput : List (BitVec 64)) : IOReturn × List ℕ × Dma :=
  match selector, scalarInput with
  | .isoStart, channel :: packets :: _ =>
    let packets : U32 := packets.setWidth 32
    if packets = 0 ∨ kUFOhciIsoMaxPackets < packets.toNat then (.badArgument, [], s)
    else (.success, [], s.isoStart m (channel.setWidth 32) packets)
  | .isoPoll, _ => (.success, [s.isoPoll], s)
  | .isoStop, _ => (.success, [], s.isoStop)
  | .isoStartCont, channel :: _ => (.success, [], s.isoStartContinuous m (channel.setWidth 32))
  | .isoCompleted, _ =>
    let rx := s.iso.rx.advance
    (.success, [rx.isoWriteCursor], { s with iso.rx := rx })
  | .isoRelease, upTo :: _ => (.success, [], { s with iso.rx := s.iso.rx.release upTo.toNat })
  | .isoTxStart, channel :: fullPayloadBytes :: fullCount :: _ =>
    let fullPayloadBytes : U32 := fullPayloadBytes.setWidth 32
    let fullCount : U32 := fullCount.setWidth 32
    if fullPayloadBytes = 0 ∨ kUFOhciTxSlotBytes < fullPayloadBytes.toNat ∨ kITPackets < fullCount.toNat then
      (.badArgument, [], s)
    else (.success, [], s.isoTxStart m (channel.setWidth 32) fullPayloadBytes fullCount)
  | .isoTxStop, _ => (.success, [], s.isoTxStop)
  | .isoTxSent, _ =>
    if s.iso.tx.itRunning then
      let tx := s.iso.tx.advance
      (.success, [tx.itSentCursor], { s with iso.tx := tx })
    else (.notReady, [], s)
  | .isoTxRefill, upTo :: _ =>
    if s.iso.tx.itRunning then (.success, [], { s with iso.tx := s.iso.tx.refill upTo.toNat }) else (.notReady, [], s)
  | .isoTxSetBytes, slot :: payloadBytes :: _ =>
    let slot : ℕ := (slot.setWidth 32).toNat
    let payloadBytes : U32 := payloadBytes.setWidth 32
    if s.iso.tx.itRunning then
      if kITPackets ≤ slot ∨ kUFOhciTxSlotBytes < payloadBytes.toNat then (.badArgument, [], s)
      else (.success, [], s.setReqCount slot payloadBytes)
    else (.notReady, [], s)
  | .pump, upTo :: txFill :: _ =>
    let iso := s.iso.pump upTo.toNat txFill.toNat
    (.success, [iso.rx.isoWriteCursor, if iso.tx.itRunning then iso.tx.itSentCursor else 0], { s with iso })
  | _, _ => (.badArgument, [], s)

/-! ### The controller -/

/-- The capture descriptor fetched by `p`: one of the table, that takes a packet. -/
def rxFetch (s : Dma) (p : U32) : Option ℕ :=
  let i := (branchAddr p - m.isoDescAddr) / 16
  if branchAddr p = m.isoDescAddr + 16 * i ∧ i < kUFOhciIsoMaxPackets ∧ branchZ p = 1 ∧
      (s.rxWords i).control &&& Descriptor.inputLast.setWidth 16 = Descriptor.inputLast.setWidth 16 then
    some i
  else none

/-- The transmit block fetched by `p`: one of the table, of an immediate header and a payload. -/
def txFetch (s : Dma) (p : U32) : Option ℕ :=
  let i := (branchAddr p - m.itDescAddr) / 64
  if branchAddr p = m.itDescAddr + 64 * i ∧ i < kITPackets ∧ branchZ p = 3 ∧
      (s.txWords i).key.control = Descriptor.keyImmediate.setWidth 16 ∧ (s.txWords i).key.reqCount = 8 ∧
      (s.txWords i).payload.control &&& Descriptor.outputLast.setWidth 16 = Descriptor.outputLast.setWidth 16 then
    some i
  else none

/-- The next block, or the end of the program. -/
def following (branch : U32) : Option U32 := if branchZ branch = 0 then none else some branch

/-- A packet on a channel the context matches goes where the descriptor fetched says. -/
def receive (s : Dma) (channel : U32) (len : ℕ) : Option Dma :=
  s.rxPtr.bind fun p =>
  if matchChannel s.rxMatch = channel then
    some <| match s.rxFetch m p with
    | none => { s with rxPtr := none, transfers := s.transfers ++ [.wild] }
    | some i =>
      let d := s.rxWords i
      { s with
        iso.rx.isoDesc := Function.update s.iso.rx.isoDesc i true
        rxPtr := following d.branchAddress
        mem := Function.update s.mem d.dataAddress.toNat s.rxCount
        rxCount := s.rxCount + 1
        transfers :=
          s.transfers ++ [.receive s.rxChannel channel s.rxCount d.dataAddress.toNat (min len d.reqCount.toNat)] }
  else none

/-- A packet is sent from the block fetched. -/
def transmit (s : Dma) (status : Bool) : Option Dma :=
  s.txPtr.map fun p =>
  match s.txFetch m p with
  | none => { s with txPtr := none, transfers := s.transfers ++ [.wild] }
  | some i =>
    let b := s.txWords i
    { s with
      iso.tx.itDesc :=
        if b.payload.reqCount ≠ 0 ∨ status = true then Function.update s.iso.tx.itDesc i true else s.iso.tx.itDesc
      txPtr := following b.payload.branchAddress
      txCount := s.txCount + 1
      transfers := s.transfers ++ [.send s.txChannel s.txCount b.payload.dataAddress.toNat b.payload.reqCount.toNat
        b.hdr0 b.hdr1 (s.resizing.any fun r => r.1 == i)] }

/-- A cycle is lost, by the skip address of the block fetched. -/
def skip (s : Dma) : Option Dma :=
  s.txPtr.map fun p =>
  match s.txFetch m p with
  | none => { s with txPtr := none, transfers := s.transfers ++ [.wild] }
  | some i => { s with txPtr := following (s.txWords i).key.branchAddress }

/-- Calls do not overlap; the controller goes on beside them. -/
def step (s : Dma) : DmaAct → Option Dma
  | .call selector scalarInput =>
    -- the driver serves one call at a time
    if s.resizing.isSome then none else some (s.externalMethod m selector scalarInput).2.2
  | .resized => s.resizing.map fun r => s.setHdr1 r.1 r.2
  | .isoCompletion control host cycle => some { s with iso := { s.iso with control }.isoCompletion host cycle }
  | .receive channel len => s.receive m channel len
  | .transmit status => s.transmit m status
  | .skip => s.skip m

end Dma

/-! ## Addresses fetched by -/

namespace DmaMap

variable (m : DmaMap)

theorem rxBranch_spec {i : ℕ} (hi : i < kUFOhciIsoMaxPackets) :
    branchAddr (m.rxBranch i) = m.isoDescAddr + 16 * i ∧ branchZ (m.rxBranch i) = 1 := by
  have hfits := m.isoDesc_fits
  have hlt : m.isoDescAddr + 16 * i < 2 ^ 32 := by omega
  have halign : 16 ∣ m.isoDescAddr + 16 * i := Nat.dvd_add m.isoDesc_aligned (Nat.dvd_mul_right 16 i)
  exact ⟨branchAddr_branchTo hlt halign (by decide), branchZ_branchTo hlt halign (by decide)⟩

theorem txBranch_spec {i : ℕ} (hi : i < kITPackets) :
    branchAddr (m.txBranch i) = m.itDescAddr + 64 * i ∧ branchZ (m.txBranch i) = 3 := by
  have hfits := m.itDesc_fits
  have hlt : m.itDescAddr + 64 * i < 2 ^ 32 := by omega
  have halign : 16 ∣ m.itDescAddr + 64 * i :=
    Nat.dvd_add ((by decide : 16 ∣ 4096).trans m.itDesc_aligned) ⟨4 * i, by omega⟩
  exact ⟨branchAddr_branchTo hlt halign (by decide), branchZ_branchTo hlt halign (by decide)⟩

theorem following_rxBranch {i : ℕ} (hi : i < kUFOhciIsoMaxPackets) :
    Dma.following (m.rxBranch i) = some (m.rxBranch i) := by
  rw [Dma.following, (m.rxBranch_spec hi).2, if_neg (by decide)]

theorem following_txBranch {i : ℕ} (hi : i < kITPackets) : Dma.following (m.txBranch i) = some (m.txBranch i) := by
  rw [Dma.following, (m.txBranch_spec hi).2, if_neg (by decide)]

theorem rxDescriptor_takes (i : ℕ) (irq : Bool) (branch : U32) : (m.rxDescriptor i irq branch).control &&&
    Descriptor.inputLast.setWidth 16 = Descriptor.inputLast.setWidth 16 := by
  unfold rxDescriptor
  dsimp only
  cases irq <;> decide

theorem txBlock_sends (channel : U32) (i : ℕ) (len hdrLen : U32) : (m.txBlock channel i len hdrLen).payload.control &&&
    Descriptor.outputLast.setWidth 16 = Descriptor.outputLast.setWidth 16 := by
  unfold txBlock
  dsimp only
  decide

theorem rxDescriptor_dataAddress {i : ℕ} (hi : i < kUFOhciIsoMaxPackets) (irq : Bool) (branch : U32) :
    (m.rxDescriptor i irq branch).dataAddress.toNat = m.isoAddr + kUFOhciIsoSlotBytes * i := by
  have hfits := m.iso_fits
  have hle : kUFOhciIsoSlotBytes * i < kUFOhciIsoSlotBytes * kUFOhciIsoMaxPackets :=
    Nat.mul_lt_mul_of_pos_left hi (by decide)
  unfold rxDescriptor
  rw [BitVec.toNat_ofNat, Nat.mul_comm i, Nat.mod_eq_of_lt (by omega)]

theorem txBlock_dataAddress {i : ℕ} (hi : i < kITPackets) (channel len hdrLen : U32) :
    (m.txBlock channel i len hdrLen).payload.dataAddress.toNat = m.itPayAddr + kUFOhciTxSlotBytes * i := by
  have hfits := m.itPay_fits
  have hle : kUFOhciTxSlotBytes * i < kUFOhciTxSlotBytes * kITPackets := Nat.mul_lt_mul_of_pos_left hi (by decide)
  unfold txBlock
  rw [BitVec.toNat_ofNat, Nat.mul_comm i, Nat.mod_eq_of_lt (by omega)]

/-- A length in range survives the cut to 16 bits. -/
theorem setWidth_eq_zero {len : U32} (hlen : len.toNat ≤ kUFOhciTxSlotBytes) :
    (len.setWidth 16 : BitVec 16) = 0 ↔ len = 0 := by
  unfold kUFOhciTxSlotBytes at hlen
  rw [← BitVec.toNat_inj, ← BitVec.toNat_inj, BitVec.toNat_setWidth, Nat.mod_eq_of_lt (by omega)]
  rfl

theorem txBlock_reqCount (channel : U32) (i : ℕ) {len : U32} (hdrLen : U32) (hlen : len.toNat ≤ kUFOhciTxSlotBytes) :
    (m.txBlock channel i len hdrLen).payload.reqCount.toNat = len.toNat := by
  unfold txBlock kUFOhciTxSlotBytes at *
  rw [BitVec.toNat_setWidth, Nat.mod_eq_of_lt (by omega)]

end DmaMap

namespace Dma

variable {m : DmaMap} {s t : Dma} {p : U32}

theorem rxFetch_rxBranch {i : ℕ} (hi : i < kUFOhciIsoMaxPackets) {irq : Bool} {branch : U32}
    (hw : s.rxWords i = m.rxDescriptor i irq branch) : s.rxFetch m (m.rxBranch i) = some i := by
  obtain ⟨haddr, hz⟩ := m.rxBranch_spec hi
  have hindex : (m.isoDescAddr + 16 * i - m.isoDescAddr) / 16 = i := by omega
  unfold rxFetch
  simp only [haddr, hz, hindex]
  rw [if_pos ⟨trivial, hi, trivial, hw ▸ m.rxDescriptor_takes i irq branch⟩]

theorem txFetch_txBranch {i : ℕ} (hi : i < kITPackets) {channel len hdrLen : U32}
    (hw : s.txWords i = m.txBlock channel i len hdrLen) : s.txFetch m (m.txBranch i) = some i := by
  obtain ⟨haddr, hz⟩ := m.txBranch_spec hi
  have hindex : (m.itDescAddr + 64 * i - m.itDescAddr) / 64 = i := by omega
  unfold txFetch
  simp only [haddr, hz, hindex]
  rw [if_pos ⟨trivial, hi, trivial, by rw [hw]; rfl, by rw [hw]; rfl, hw ▸ m.txBlock_sends channel i len hdrLen⟩]

/-! ## The two programs -/

/-- Where descriptor `i` of the capture program leads. -/
def rxNext (m : DmaMap) (s : Dma) (i : ℕ) : U32 :=
  if s.oneShot = true ∧ s.iso.rx.isoPackets ≤ i + 1 then 0 else m.rxBranch ((i + 1) % s.iso.rx.isoPackets)

/-- The capture context runs and fetches by `p` next. -/
structure Capturing (m : DmaMap) (s : Dma) (p : U32) : Prop where
  running : s.iso.rx.isoRunning = true
  pos : 0 < s.iso.rx.isoPackets
  le : s.iso.rx.isoPackets ≤ kUFOhciIsoMaxPackets
  ring : s.oneShot = false → s.iso.rx.isoPackets = kUFOhciIsoMaxPackets
  first : s.oneShot = true → s.rxCount < s.iso.rx.isoPackets
  asked : s.rxMatch = irMatch 0xf 0 s.rxChannel
  ptr : p = m.rxBranch (s.rxCount % s.iso.rx.isoPackets)
  words : ∀ i < s.iso.rx.isoPackets, ∃ irq, s.rxWords i = m.rxDescriptor i irq (s.rxNext m i)

/-- The transmit program: each block of some length, and of the same in its header unless
it is being resized. -/
def TxProgram (m : DmaMap) (s : Dma) : Prop :=
  ∀ i < kITPackets, ∃ len hdrLen : U32, s.txWords i = m.txBlock s.txChannel i len hdrLen ∧
    len.toNat ≤ kUFOhciTxSlotBytes ∧ hdrLen.toNat ≤ kUFOhciTxSlotBytes ∧ (hdrLen = len ∨ s.resizing = some (i, len))

/-- Inside its buffer at the place of its number, on the channel asked for, and with a
header that says its length. -/
def Contained (m : DmaMap) : Transfer → Prop
  | .receive asked channel count addr len => channel = asked &&& 0x3f ∧
      addr = m.isoAddr + kUFOhciIsoSlotBytes * (count % kUFOhciIsoMaxPackets) ∧ len ≤ kUFOhciIsoSlotBytes
  | .send asked count addr len hdr0 hdr1 resizing => hdr0 = itHdrQ0 m.ff800Speed 0 asked 0 ∧
      addr = m.itPayAddr + kUFOhciTxSlotBytes * (count % kITPackets) ∧ len ≤ kUFOhciTxSlotBytes ∧
      hdrDataLen hdr1 ≤ kUFOhciTxSlotBytes ∧ (resizing = false → hdrDataLen hdr1 = len)
  | .wild => False

/-- While a context runs its program is the table's, and it fetches from the block its count
says. -/
structure Inv (m : DmaMap) (s : Dma) : Prop where
  rx : ∀ p, s.rxPtr = some p → s.Capturing m p
  tx : s.iso.tx.itRunning = true → s.TxProgram m
  txAt : ∀ p, s.txPtr = some p → s.iso.tx.itRunning = true ∧ p = m.txBranch (s.txCount % kITPackets)
  pending : ∀ slot len, s.resizing = some (slot, len) → s.iso.tx.itRunning = true ∧ slot < kITPackets ∧
    ∃ hdrLen : U32, s.txWords slot = m.txBlock s.txChannel slot len hdrLen ∧ len.toNat ≤ kUFOhciTxSlotBytes
  contained : ∀ x ∈ s.transfers, Contained m x

/-! ## One packet -/

/-- A packet received goes where its number says. -/
theorem receive_spec (hc : s.Capturing m p) (hp : s.rxPtr = some p) {channel : U32} {len : ℕ}
    (h : s.receive m channel len = some t) : channel = s.rxChannel &&& 0x3f ∧
    ∃ i, i = s.rxCount % s.iso.rx.isoPackets ∧ i = s.rxCount % kUFOhciIsoMaxPackets ∧ t = { s with
      iso.rx := s.iso.rx.complete s.rxCount
      rxPtr := if s.oneShot = true ∧ s.iso.rx.isoPackets ≤ i + 1 then none
        else some (m.rxBranch ((i + 1) % s.iso.rx.isoPackets))
      mem := Function.update s.mem (m.isoAddr + kUFOhciIsoSlotBytes * i) s.rxCount
      rxCount := s.rxCount + 1
      transfers := s.transfers ++ [.receive s.rxChannel channel s.rxCount (m.isoAddr + kUFOhciIsoSlotBytes * i)
        (min len kUFOhciIsoSlotBytes)] } := by
  obtain ⟨-, hpos, hle, hring, hfirst, hasked, hptr, hwords⟩ := hc
  have hi := Nat.mod_lt s.rxCount hpos
  obtain ⟨irq, hw⟩ := hwords _ hi
  have hfetch := rxFetch_rxBranch (Nat.lt_of_lt_of_le hi hle) hw
  rw [← hptr] at hfetch
  have hmod : s.rxCount % s.iso.rx.isoPackets = s.rxCount % kUFOhciIsoMaxPackets := by
    cases hone : s.oneShot with
    | false => rw [hring hone]
    | true =>
      have := hfirst hone
      rw [Nat.mod_eq_of_lt this, Nat.mod_eq_of_lt (by omega)]
  unfold receive at h
  rw [hp, Option.bind_some] at h
  split at h
  next hch =>
    rw [hasked, matchChannel_irMatch] at hch
    refine ⟨hch.symm, _, rfl, hmod, ?_⟩
    simp only [hfetch, hw, m.rxDescriptor_dataAddress (Nat.lt_of_lt_of_le hi hle)] at h
    rw [← Option.some.inj h]
    have hnext : following (s.rxNext m (s.rxCount % s.iso.rx.isoPackets)) =
        if s.oneShot = true ∧ s.iso.rx.isoPackets ≤ s.rxCount % s.iso.rx.isoPackets + 1 then none
        else some (m.rxBranch ((s.rxCount % s.iso.rx.isoPackets + 1) % s.iso.rx.isoPackets)) := by
      unfold rxNext
      split
      · rfl
      · exact m.following_rxBranch (Nat.lt_of_lt_of_le (Nat.mod_lt _ hpos) hle)
    rw [← hnext]
    rfl
  next => cases h

theorem receive_inv (hi : s.Inv m) {channel : U32} {len : ℕ} (h : s.receive m channel len = some t) : t.Inv m := by
  obtain ⟨p, hp⟩ : ∃ p, s.rxPtr = some p := by
    cases hp : s.rxPtr with
    | none => simp [receive, hp] at h
    | some p => exact ⟨p, rfl⟩
  have hc := hi.rx p hp
  obtain ⟨hch, i, hn, hi512, rfl⟩ := receive_spec hc hp h
  refine ⟨fun q hq => ?_, hi.tx, hi.txAt, hi.pending, fun x hx => ?_⟩
  · have hq : (if s.oneShot = true ∧ s.iso.rx.isoPackets ≤ i + 1 then none
        else some (m.rxBranch ((i + 1) % s.iso.rx.isoPackets))) = some q := hq
    split at hq
    next => cases hq
    next hmore =>
      refine { hc with first := fun hone => ?_, ptr := ?_ }
      · have hone : s.oneShot = true := hone
        have hin := hc.first hone
        rw [Nat.mod_eq_of_lt hin] at hn
        have : ¬ s.iso.rx.isoPackets ≤ i + 1 := fun hle => hmore ⟨hone, hle⟩
        show s.rxCount + 1 < s.iso.rx.isoPackets
        omega
      · show q = m.rxBranch ((s.rxCount + 1) % s.iso.rx.isoPackets)
        rw [← Option.some.inj hq, hn, Nat.mod_add_mod]
  · rcases List.mem_append.1 hx with hx | hx
    · exact hi.contained x hx
    · rw [List.mem_singleton.1 hx]
      exact ⟨hch, by rw [hi512], Nat.min_le_right _ _⟩

/-- So does a packet sent. -/
theorem transmit_spec (hi : s.Inv m) {status : Bool} (h : s.transmit m status = some t) : s.iso.tx.itRunning = true ∧
    ∃ i len hdrLen, i = s.txCount % kITPackets ∧ s.txWords i = m.txBlock s.txChannel i len hdrLen ∧
    len.toNat ≤ kUFOhciTxSlotBytes ∧ hdrLen.toNat ≤ kUFOhciTxSlotBytes ∧ (hdrLen = len ∨ s.resizing = some (i, len)) ∧
    t = { s with
      iso.tx.itDesc := if len ≠ 0 ∨ status = true then Function.update s.iso.tx.itDesc i true else s.iso.tx.itDesc
      txPtr := some (m.txBranch ((s.txCount + 1) % kITPackets))
      txCount := s.txCount + 1
      transfers := s.transfers ++ [.send s.txChannel s.txCount (m.itPayAddr + kUFOhciTxSlotBytes * i) len.toNat
        (itHdrQ0 m.ff800Speed 0 s.txChannel 0) (itHdrQ1 hdrLen) (s.resizing.any fun r => r.1 == i)] } := by
  unfold transmit at h
  obtain ⟨p, hp, h⟩ := Option.map_eq_some_iff.1 h
  obtain ⟨hrun, hptr⟩ := hi.txAt p hp
  have hlt : s.txCount % kITPackets < kITPackets := Nat.mod_lt _ (by decide)
  obtain ⟨len, hdrLen, hw, hlen, hhdr, hsame⟩ := hi.tx hrun _ hlt
  have hfetch := txFetch_txBranch hlt hw
  rw [← hptr] at hfetch
  refine ⟨hrun, _, len, hdrLen, rfl, hw, hlen, hhdr, hsame, ?_⟩
  simp only [hfetch, hw, m.txBlock_dataAddress hlt, m.txBlock_reqCount _ _ _ hlen] at h
  rw [← h]
  have hzero : ((m.txBlock s.txChannel (s.txCount % kITPackets) len hdrLen).payload.reqCount ≠ 0) = (len ≠ 0) :=
    propext (not_congr (DmaMap.setWidth_eq_zero hlen))
  have hnext : following (m.txBlock s.txChannel (s.txCount % kITPackets) len hdrLen).payload.branchAddress =
      some (m.txBranch ((s.txCount + 1) % kITPackets)) := by
    rw [← Nat.mod_add_mod]
    exact m.following_txBranch (Nat.mod_lt _ (by decide))
  rw [hnext]
  simp only [hzero]
  rfl

theorem transmit_inv (hi : s.Inv m) {status : Bool} (h : s.transmit m status = some t) : t.Inv m := by
  obtain ⟨hrun, i, len, hdrLen, hn, -, hlen, hhdr, hsame, rfl⟩ := transmit_spec hi h
  refine ⟨fun q hq => { hi.rx q hq with }, hi.tx, fun q hq => ⟨hrun, (Option.some.inj hq).symm⟩, hi.pending,
    fun x hx => ?_⟩
  rcases List.mem_append.1 hx with hx | hx
  · exact hi.contained x hx
  · rw [List.mem_singleton.1 hx]
    refine ⟨rfl, by rw [hn], hlen, ?_, fun hnot => ?_⟩
    · rw [hdrDataLen_itHdrQ1 hhdr]
      exact hhdr
    · rw [hdrDataLen_itHdrQ1 hhdr]
      rcases hsame with rfl | hres
      · rfl
      · simp [hres] at hnot

/-- A cycle without a packet is spent on the same block. -/
theorem skip_spec (hi : s.Inv m) (h : s.skip m = some t) : t = s := by
  unfold skip at h
  obtain ⟨p, hp, h⟩ := Option.map_eq_some_iff.1 h
  obtain ⟨hrun, hptr⟩ := hi.txAt p hp
  have hlt : s.txCount % kITPackets < kITPackets := Nat.mod_lt _ (by decide)
  obtain ⟨len, hdrLen, hw, -⟩ := hi.tx hrun _ hlt
  have hfetch := txFetch_txBranch hlt hw
  rw [← hptr] at hfetch
  simp only [hfetch, hw] at h
  have hself : following (m.txBlock s.txChannel (s.txCount % kITPackets) len hdrLen).key.branchAddress = s.txPtr := by
    rw [hp, hptr]
    exact m.following_txBranch hlt
  rw [hself] at h
  exact h.symm

end Dma

/-! ## What only moves cursors -/

/-- The calls and the interrupt that move cursors and clear statuses. -/
inductive Iso.Moves (v : Iso) : Iso → Prop where
  | isoCompleted : Moves v { v with rx := v.rx.advance }
  | isoRelease (upTo : ℕ) : Moves v { v with rx := v.rx.release upTo }
  | isoTxSent : Moves v { v with tx := v.tx.advance }
  | isoTxRefill (upTo : ℕ) : Moves v { v with tx := v.tx.refill upTo }
  | pump (release txFill : ℕ) : Moves v (v.pump release txFill)
  | isoCompletion (control : UFOhciControl) (host : ℕ) (cycle : BitVec 32) :
    Moves v ({ v with control }.isoCompletion host cycle)

namespace Receive

theorem rearm_frame (r : Receive) (n : ℕ) :
    (r.rearm n).isoPackets = r.isoPackets ∧ (r.rearm n).isoRunning = r.isoRunning := by
  induction n generalizing r with
  | zero => exact ⟨rfl, rfl⟩
  | succ n ih => exact ih _

theorem release_frame (r : Receive) (upTo : ℕ) :
    (r.release upTo).isoPackets = r.isoPackets ∧ (r.release upTo).isoRunning = r.isoRunning := by
  unfold release
  split
  · exact ⟨rfl, rfl⟩
  · exact r.rearm_frame _

end Receive

namespace Transmit

theorem advance_frame (x : Transmit) : x.advance.itRunning = x.itRunning ∧ x.advance.itFullCount = x.itFullCount := by
  unfold advance
  split <;> exact ⟨rfl, rfl⟩

theorem refill_frame (x : Transmit) (upTo : ℕ) :
    (x.refill upTo).itRunning = x.itRunning ∧ (x.refill upTo).itFullCount = x.itFullCount := by
  have hloop (fuel : ℕ) (x : Transmit) :
      (x.refillLoop upTo fuel).itRunning = x.itRunning ∧ (x.refillLoop upTo fuel).itFullCount = x.itFullCount := by
    induction fuel generalizing x with
    | zero => exact ⟨rfl, rfl⟩
    | succ fuel ih =>
      unfold refillLoop
      split
      · exact ih _
      · exact ⟨rfl, rfl⟩
  unfold refill
  split
  · exact hloop _ x
  · exact ⟨rfl, rfl⟩

theorem handBack_frame (x : Transmit) (upTo : ℕ) :
    (if upTo ≠ 0 then x.refill upTo else x).advance.itRunning = x.itRunning ∧
    (if upTo ≠ 0 then x.refill upTo else x).advance.itFullCount = x.itFullCount := by
  obtain ⟨h1, h2⟩ := (if upTo ≠ 0 then x.refill upTo else x).advance_frame
  rw [h1, h2]
  split
  · exact x.refill_frame upTo
  · exact ⟨rfl, rfl⟩

end Transmit

namespace Iso

variable {v w : Iso}

theorem isoCompletion_rx_frame (v : Iso) (host : ℕ) (cycle : BitVec 32) :
    (v.isoCompletion host cycle).rx.isoPackets = v.rx.isoPackets ∧
    (v.isoCompletion host cycle).rx.isoRunning = v.rx.isoRunning := by
  have happly : v.applyControl.rx.isoPackets = v.rx.isoPackets ∧ v.applyControl.rx.isoRunning = v.rx.isoRunning := by
    unfold applyControl
    dsimp only
    split
    · exact v.rx.release_frame _
    · exact ⟨rfl, rfl⟩
  have hscan : v.applyControl.scanCursors.rx.isoPackets = v.applyControl.rx.isoPackets ∧
      v.applyControl.scanCursors.rx.isoRunning = v.applyControl.rx.isoRunning := by
    unfold scanCursors
    dsimp only
    split <;> exact ⟨rfl, rfl⟩
  exact ⟨hscan.1.trans happly.1, hscan.2.trans happly.2⟩

theorem Moves.rx_frame (h : v.Moves w) : w.rx.isoPackets = v.rx.isoPackets ∧ w.rx.isoRunning = v.rx.isoRunning := by
  cases h with
  | isoCompleted | isoTxSent | isoTxRefill => exact ⟨rfl, rfl⟩
  | isoRelease upTo => exact v.rx.release_frame upTo
  | pump release txFill => exact v.rx.release_frame release
  | isoCompletion control host cycle => exact isoCompletion_rx_frame { v with control } host cycle

theorem Moves.tx_frame (h : v.Moves w) : w.tx.itRunning = v.tx.itRunning ∧ w.tx.itFullCount = v.tx.itFullCount := by
  cases h with
  | isoCompleted | isoRelease => exact ⟨rfl, rfl⟩
  | isoTxSent => exact v.tx.advance_frame
  | isoTxRefill upTo => exact v.tx.refill_frame upTo
  | pump release txFill => exact v.tx.handBack_frame txFill
  | isoCompletion control host cycle => exact v.tx.handBack_frame control.txFillUpTo

end Iso

namespace Dma

variable {m : DmaMap} {s t : Dma}

/-- What a call can do, with the checks it has passed. -/
inductive Calls (m : DmaMap) (s : Dma) : IsoSelector → List (BitVec 64) → Dma → Prop where
  | unchanged (selector : IsoSelector) (scalarInput : List (BitVec 64)) : Calls m s selector scalarInput s
  | moves (selector : IsoSelector) (scalarInput : List (BitVec 64)) (iso : Iso) (hv : s.iso.Moves iso)
      (hdesc : iso.rx.isoDesc = s.iso.rx.isoDesc ∨ selector = .isoRelease ∨ selector = .pump) :
      Calls m s selector scalarInput { s with iso }
  | isoStart (scalarInput : List (BitVec 64)) (channel packets : U32) (hpos : 0 < packets.toNat)
      (hle : packets.toNat ≤ kUFOhciIsoMaxPackets) : Calls m s .isoStart scalarInput (s.isoStart m channel packets)
  | isoStop (scalarInput : List (BitVec 64)) : Calls m s .isoStop scalarInput s.isoStop
  | isoStartCont (scalarInput : List (BitVec 64)) (channel : U32) :
      Calls m s .isoStartCont scalarInput (s.isoStartContinuous m channel)
  | isoTxStart (scalarInput : List (BitVec 64)) (channel fullPayloadBytes fullCount : U32) (hne : fullPayloadBytes ≠ 0)
      (hle : fullPayloadBytes.toNat ≤ kUFOhciTxSlotBytes) (hcount : fullCount.toNat ≤ kITPackets) :
      Calls m s .isoTxStart scalarInput (s.isoTxStart m channel fullPayloadBytes fullCount)
  | isoTxStop (scalarInput : List (BitVec 64)) : Calls m s .isoTxStop scalarInput s.isoTxStop
  | isoTxSetBytes (slot payloadBytes : BitVec 64) (rest : List (BitVec 64)) (hrun : s.iso.tx.itRunning = true)
      (hslot : (slot.setWidth 32).toNat < kITPackets) (hle : (payloadBytes.setWidth 32).toNat ≤ kUFOhciTxSlotBytes) :
      Calls m s .isoTxSetBytes (slot :: payloadBytes :: rest)
        (s.setReqCount (slot.setWidth 32).toNat (payloadBytes.setWidth 32))

theorem isoStart_calls (m : DmaMap) (s : Dma) (scalarInput : List (BitVec 64)) :
    Calls m s .isoStart scalarInput (s.externalMethod m .isoStart scalarInput).2.2 := by
  match scalarInput with
  | [] | [_] => exact .unchanged ..
  | channel :: packets :: _ =>
    unfold externalMethod
    dsimp only
    split
    next => exact .unchanged ..
    next hok =>
      rw [not_or, Nat.not_lt] at hok
      exact .isoStart _ _ _ (Nat.pos_of_ne_zero fun h => hok.1 (BitVec.eq_of_toNat_eq h)) hok.2

theorem isoTxStart_calls (m : DmaMap) (s : Dma) (scalarInput : List (BitVec 64)) :
    Calls m s .isoTxStart scalarInput (s.externalMethod m .isoTxStart scalarInput).2.2 := by
  match scalarInput with
  | [] | [_] | [_, _] => exact .unchanged ..
  | channel :: fullPayloadBytes :: fullCount :: _ =>
    unfold externalMethod
    dsimp only
    split
    next => exact .unchanged ..
    next hok =>
      rw [not_or, not_or, Nat.not_lt, Nat.not_lt] at hok
      exact .isoTxStart _ _ _ _ hok.1 hok.2.1 hok.2.2

theorem isoTxSent_calls (m : DmaMap) (s : Dma) (scalarInput : List (BitVec 64)) :
    Calls m s .isoTxSent scalarInput (s.externalMethod m .isoTxSent scalarInput).2.2 := by
  unfold externalMethod
  dsimp only
  split
  · exact .moves _ _ _ .isoTxSent (.inl rfl)
  · exact .unchanged ..

theorem isoTxRefill_calls (m : DmaMap) (s : Dma) (scalarInput : List (BitVec 64)) :
    Calls m s .isoTxRefill scalarInput (s.externalMethod m .isoTxRefill scalarInput).2.2 := by
  match scalarInput with
  | [] => exact .unchanged ..
  | upTo :: _ =>
    unfold externalMethod
    dsimp only
    split
    · exact .moves _ _ _ (.isoTxRefill _) (.inl rfl)
    · exact .unchanged ..

theorem isoTxSetBytes_calls (m : DmaMap) (s : Dma) (scalarInput : List (BitVec 64)) :
    Calls m s .isoTxSetBytes scalarInput (s.externalMethod m .isoTxSetBytes scalarInput).2.2 := by
  match scalarInput with
  | [] | [_] => exact .unchanged ..
  | slot :: payloadBytes :: rest =>
    unfold externalMethod
    dsimp only
    split
    next hrun =>
      split
      next => exact .unchanged ..
      next hok =>
        rw [not_or, Nat.not_le, Nat.not_lt] at hok
        exact .isoTxSetBytes _ _ _ hrun hok.1 hok.2
    next => exact .unchanged ..

theorem externalMethod_calls (m : DmaMap) (s : Dma) (selector : IsoSelector) (scalarInput : List (BitVec 64)) :
    Calls m s selector scalarInput (s.externalMethod m selector scalarInput).2.2 := by
  cases selector with
  | isoStart => exact isoStart_calls m s scalarInput
  | isoPoll => exact .unchanged ..
  | isoStop => exact .isoStop _
  | isoStartCont =>
    match scalarInput with
    | [] => exact .unchanged ..
    | channel :: _ => exact .isoStartCont _ _
  | isoCompleted => exact .moves _ _ _ .isoCompleted (.inl rfl)
  | isoRelease =>
    match scalarInput with
    | [] => exact .unchanged ..
    | upTo :: _ => exact .moves _ _ _ (.isoRelease _) (.inr (.inl rfl))
  | isoTxStart => exact isoTxStart_calls m s scalarInput
  | isoTxStop => exact .isoTxStop _
  | isoTxSent => exact isoTxSent_calls m s scalarInput
  | isoTxRefill => exact isoTxRefill_calls m s scalarInput
  | isoTxSetBytes => exact isoTxSetBytes_calls m s scalarInput
  | pump =>
    match scalarInput with
    | [] | [_] => exact .unchanged ..
    | upTo :: txFill :: _ => exact .moves _ _ _ (.pump _ _) (.inr (.inr rfl))

theorem call_calls {selector : IsoSelector} {scalarInput : List (BitVec 64)}
    (h : s.step m (.call selector scalarInput) = some t) : s.resizing = none ∧ Calls m s selector scalarInput t := by
  simp only [step] at h
  split at h
  next => cases h
  next hidle =>
    obtain rfl := Option.some.inj h
    exact ⟨by simpa using hidle, externalMethod_calls m s selector scalarInput⟩

/-! ## Nothing goes astray -/

theorem Inv.moves (hi : s.Inv m) {iso : Iso} (h : s.iso.Moves iso) : Inv m { s with iso } := by
  obtain ⟨hpackets, hrx⟩ := h.rx_frame
  have htx := h.tx_frame.1
  refine ⟨fun p hp => ?_, fun hrun => hi.tx (htx ▸ hrun), fun p hp => ?_, fun slot len hres => ?_, hi.contained⟩
  · obtain ⟨hrunning, hpos, hle, hring, hfirst, hasked, hptr, hwords⟩ := hi.rx p hp
    refine ⟨hrx ▸ hrunning, hpackets ▸ hpos, hpackets ▸ hle, hpackets ▸ hring, hpackets ▸ hfirst, hasked,
      hpackets ▸ hptr, ?_⟩
    unfold rxNext at hwords ⊢
    dsimp only
    rw [hpackets]
    exact hwords
  · obtain ⟨hrun, hptr⟩ := hi.txAt p hp
    exact ⟨htx ▸ hrun, hptr⟩
  · obtain ⟨hrun, hpending⟩ := hi.pending slot len hres
    exact ⟨htx ▸ hrun, hpending⟩

theorem isoStart_inv (hi : s.Inv m) (channel : U32) {packets : U32} (hpos : 0 < packets.toNat)
    (hle : packets.toNat ≤ kUFOhciIsoMaxPackets) : (s.isoStart m channel packets).Inv m := by
  refine { hi with rx := ?_ }
  rintro p ⟨⟩
  refine ⟨rfl, hpos, hle, fun h => (nomatch h), fun _ => hpos, rfl, ?_, fun i hlt => ⟨false, ?_⟩⟩
  · show m.rxBranch 0 = m.rxBranch (0 % packets.toNat)
    rw [Nat.zero_mod]
  · have hlt : i < packets.toNat := hlt
    show (if i < packets.toNat then m.rxDescriptor i false _ else _) = m.rxDescriptor i false
      (if true = true ∧ packets.toNat ≤ i + 1 then 0 else m.rxBranch ((i + 1) % packets.toNat))
    rw [if_pos hlt]
    by_cases hmore : i + 1 < packets.toNat
    · rw [if_pos hmore, if_neg fun h => Nat.not_le.2 hmore h.2, Nat.mod_eq_of_lt hmore]
    · rw [if_neg hmore, if_pos ⟨rfl, Nat.not_lt.1 hmore⟩]

theorem isoStartContinuous_inv (hi : s.Inv m) (channel : U32) : (s.isoStartContinuous m channel).Inv m := by
  refine { hi with rx := ?_ }
  rintro p ⟨⟩
  refine ⟨rfl, (by decide : 0 < kUFOhciIsoMaxPackets), le_refl _, fun _ => rfl, fun h => (nomatch h), rfl, rfl,
    fun i hlt => ⟨i % kUFOhciIrqEvery == 0, ?_⟩⟩
  have hnext : (s.isoStartContinuous m channel).rxNext m i = m.rxBranch ((i + 1) % kUFOhciIsoMaxPackets) :=
    if_neg fun h => Bool.noConfusion h.1
  rw [hnext]
  exact if_pos hlt

theorem isoStop_inv (hi : s.Inv m) : s.isoStop.Inv m := by
  unfold isoStop
  split
  · exact { hi with rx := fun p hp => nomatch hp }
  · exact hi

theorem isoTxStart_inv (hi : s.Inv m) (hidle : s.resizing = none) (channel : U32) {fullPayloadBytes : U32}
    (fullCount : U32)
    (hle : fullPayloadBytes.toNat ≤ kUFOhciTxSlotBytes) :
    (s.isoTxStart m channel fullPayloadBytes fullCount).Inv m := by
  refine ⟨fun p hp => { hi.rx p hp with }, fun _ i hlt => ?_, ?_, fun slot len hres => ?_, hi.contained⟩
  · have hbytes : (if isFullPacket i fullCount.toNat kITPackets then fullPayloadBytes else 0).toNat ≤
      kUFOhciTxSlotBytes := by
      split
      · exact hle
      · exact Nat.zero_le _
    exact ⟨_, _, if_pos hlt, hbytes, hbytes, .inl rfl⟩
  · rintro p ⟨⟩
    exact ⟨rfl, rfl⟩
  · exact absurd (hidle.symm.trans hres) (by simp)

theorem isoTxStop_inv (hi : s.Inv m) (hidle : s.resizing = none) : s.isoTxStop.Inv m := by
  unfold isoTxStop
  split
  · exact ⟨fun p hp => { hi.rx p hp with }, fun h => (nomatch h), fun p hp => (nomatch hp),
      fun slot len hres => absurd (hidle.symm.trans hres) (by simp), hi.contained⟩
  · exact hi

/-- Between its two stores a slot is the one being resized. -/
theorem setReqCount_inv (hi : s.Inv m) (hidle : s.resizing = none) (hrun : s.iso.tx.itRunning = true) {slot : ℕ}
    (hslot : slot < kITPackets) {bytes : U32}
    (hle : bytes.toNat ≤ kUFOhciTxSlotBytes) : (s.setReqCount slot bytes).Inv m := by
  obtain ⟨len, hdrLen, hw, -, hhdr, -⟩ := hi.tx hrun slot hslot
  have hnew : (s.setReqCount slot bytes).txWords slot = m.txBlock s.txChannel slot bytes hdrLen := by
    unfold setReqCount
    dsimp only
    rw [Function.update_self, hw]
    rfl
  refine ⟨fun p hp => { hi.rx p hp with }, fun _ i hlt => ?_, hi.txAt, ?_, hi.contained⟩
  · by_cases hne : i = slot
    · subst hne
      exact ⟨bytes, hdrLen, hnew, hle, hhdr, .inr rfl⟩
    · obtain ⟨len', hdrLen', hw', hlen', hhdr', hsame'⟩ := hi.tx hrun i hlt
      refine ⟨len', hdrLen', (Function.update_of_ne hne ..).trans hw', hlen', hhdr', .inl ?_⟩
      rw [hidle] at hsame'
      exact hsame'.resolve_right (by simp)
  · rintro _ _ ⟨⟩
    exact ⟨hrun, hslot, hdrLen, hnew, hle⟩

theorem setHdr1_inv (hi : s.Inv m) {slot : ℕ} {bytes : U32} (hres : s.resizing = some (slot, bytes)) :
    (s.setHdr1 slot bytes).Inv m := by
  obtain ⟨hrun, hslot, hdrLen, hw, hle⟩ := hi.pending slot bytes hres
  refine ⟨fun p hp => { hi.rx p hp with }, fun _ i hlt => ?_, hi.txAt, fun _ _ h => (nomatch h), hi.contained⟩
  by_cases hne : i = slot
  · subst hne
    refine ⟨bytes, bytes, ?_, hle, hle, .inl rfl⟩
    unfold setHdr1
    dsimp only
    rw [Function.update_self, hw]
    rfl
  · obtain ⟨len', hdrLen', hw', hlen', hhdr', hsame'⟩ := hi.tx hrun i hlt
    refine ⟨len', hdrLen', (Function.update_of_ne hne ..).trans hw', hlen', hhdr', .inl (hsame'.resolve_right ?_)⟩
    rw [hres]
    exact fun h => hne (congrArg Prod.fst (Option.some.inj h)).symm

theorem step_inv (s : Dma) (a : DmaAct) (t : Dma) (hi : s.Inv m) (h : s.step m a = some t) : t.Inv m := by
  cases a with
  | call selector scalarInput =>
    obtain ⟨hidle, hcalls⟩ := call_calls h
    cases hcalls with
    | unchanged => exact hi
    | moves _ _ iso hv => exact hi.moves hv
    | isoStart _ channel packets hpos hle => exact isoStart_inv hi channel hpos hle
    | isoStop => exact isoStop_inv hi
    | isoStartCont _ channel => exact isoStartContinuous_inv hi channel
    | isoTxStart _ channel bytes fullCount _ hle => exact isoTxStart_inv hi hidle channel fullCount hle
    | isoTxStop => exact isoTxStop_inv hi hidle
    | isoTxSetBytes slot bytes rest hrun hslot hle => exact setReqCount_inv hi hidle hrun hslot hle
  | resized =>
    obtain ⟨⟨slot, bytes⟩, hres, rfl⟩ := Option.map_eq_some_iff.1 h
    exact setHdr1_inv hi hres
  | isoCompletion control host cycle =>
    obtain rfl := Option.some.inj h
    exact hi.moves (.isoCompletion control host cycle)
  | receive channel len => exact receive_inv hi h
  | transmit status => exact transmit_inv hi h
  | skip => exact skip_spec hi h ▸ hi

theorem inv_init (m : DmaMap) : Inv m {} where
  rx _ h := nomatch h
  tx h := nomatch h
  txAt _ h := nomatch h
  pending _ _ h := nomatch h
  contained _ h := nomatch h

/-- In every run of calls with any arguments, interrupts with any cursors, and packets:
whatever is transferred stays inside its buffer, at the place of its number in the ring, on
the channel asked for, and is sent under a header of its length unless it is the one slot
being resized; and once stopped, a context transfers nothing. -/
theorem dma_contained (m : DmaMap) {as : List DmaAct} (h : run (step m) {} as = some s) :
    (∀ x ∈ s.transfers, Contained m x) ∧ (s.iso.rx.isoRunning = false → s.rxPtr = none) ∧
    (s.iso.tx.itRunning = false → s.txPtr = none) := by
  have hi := run_inv (Inv m) step_inv h (inv_init m)
  refine ⟨hi.contained, fun hrun => ?_, fun hrun => ?_⟩
  · by_contra hsome
    obtain ⟨p, hp⟩ := Option.ne_none_iff_exists'.1 hsome
    exact Bool.noConfusion (hrun.symm.trans (hi.rx p hp).running)
  · by_contra hsome
    obtain ⟨p, hp⟩ := Option.ne_none_iff_exists'.1 hsome
    exact Bool.noConfusion (hrun.symm.trans (hi.txAt p hp).1)

/-- Buffers as a host may place them. -/
def placed : DmaMap where
  isoAddr := 0x10000000
  isoDescAddr := 0x80004010
  itDescAddr := 0x80008000
  itPayAddr := 0xffec0000
  ff800Speed := 3
  iso_fits := by decide
  isoDesc_fits := by decide
  itDesc_fits := by decide
  itPay_fits := by decide
  isoDesc_aligned := by decide
  itDesc_aligned := by decide

/-- A packet goes out while its slot is being resized, and one too long comes in. -/
def resizingSlot : List DmaAct :=
  [.call .isoTxStart [5, 96, 480], .call .isoStartCont [1], .transmit false, .call .isoTxSetBytes [1, 80], .skip,
    .transmit true, .receive 1 4000, .resized, .call .isoStop []]

theorem dma_contained_resizing : ∃ s, run (step placed) {} resizingSlot = some s ∧ s.transfers.length = 3 ∧
    (∀ x ∈ s.transfers, Contained placed x) ∧ s.rxPtr = none := by
  have hr : (run (step placed) {} resizingSlot).map (fun s => (s.transfers.length, s.iso.rx.isoRunning)) =
      some (3, false) := by
    decide +kernel
  obtain ⟨s, hs, hsame⟩ := Option.map_eq_some_iff.1 hr
  obtain ⟨hlen, hstopped⟩ := Prod.mk.inj hsame
  obtain ⟨hall, hrx, -⟩ := dma_contained placed hs
  exact ⟨s, hs, hlen, hall, hrx hstopped⟩

end Dma

end UserFace800.Dext
