import UserFace800.Lib.Run
import UserFace800.Lib.Logged
import Mathlib.Data.BitVec
import Mathlib.Tactic.IntervalCases
/-!
# Bus resets and the node of the FF800

After a bus reset `InterruptOccurred` walks the self-ID packets, and
`ohci_identify` reads the config ROM of every node that may be the FF800. What
it recognises is cached for the register operations of the user client. Nothing
clears the cache: `current` says when what is cached is from the last completed
self-ID, and `stale_node` is the run in which it is not.
-/
open UserFace800.Lib

namespace UserFace800.Dext

/-- A quadlet of the bus or of a register. -/
abbrev U32 := BitVec 32

/-! ## The identity gate -/

/-- RME's OUI. -/
def kOuiRme : U32 := 0x000a35

/-- The model id all Firefaces share. -/
def kModelIdFireface : U32 := 0x101800

/-- The models, told apart by the unit's version. -/
inductive UFModel where
  | unknown | ff800 | ff400 | ufx | ucx | ff802
  deriving DecidableEq

/-- The model a unit version is. -/
def modelFromUnitVersion (version : U32) : UFModel :=
  if version = 1 then .ff800
  else if version = 2 then .ff400
  else if version = 3 then .ufx
  else if version = 4 then .ucx
  else if version = 5 then .ff802
  else .unknown

/-- The identity is an FF800's, in all four fields. -/
def isFF800 (vendorId specifierId modelId version : U32) : Bool :=
  vendorId == kOuiRme && specifierId == kOuiRme && modelId == kModelIdFireface &&
    modelFromUnitVersion version == .ff800

/-- What a config ROM says a node is. -/
structure RomIdentity where
  vendorId : U32 := 0
  specifierId : U32 := 0
  modelId : U32 := 0
  version : U32 := 0
  hasUnit : Bool := false

/-- An entry's key. -/
def entryKeyId (e : U32) : U32 := (e >>> 24) &&& 0x3f

/-- An entry's type: immediate, offset, leaf or directory. -/
def entryKeyType (e : U32) : U32 := (e >>> 30) &&& 0x3

/-- An entry's 24-bit value. -/
def entryValue (e : U32) : U32 := e &&& 0x00ffffff

/-- The entries of the directory whose header is at `dir`, with their indices. -/
def entries (q : List U32) (dir : ℕ) : List (ℕ × U32) :=
  ((List.range' 1 ((q.getD dir 0 >>> 16) &&& 0xffff).toNat).takeWhile fun i => dir + i < q.length).map
    fun i => (dir + i, q.getD (dir + i) 0)

/-- A root directory entry: the vendor, or where the unit directory is. -/
def rootEntry (s : RomIdentity × ℕ) (e : ℕ × U32) : RomIdentity × ℕ :=
  if entryKeyId e.2 = 0x03 ∧ entryKeyType e.2 = 0 then ({ s.1 with vendorId := entryValue e.2 }, s.2)
  else if entryKeyId e.2 = 0x11 ∧ entryKeyType e.2 = 3 then (s.1, e.1 + (entryValue e.2).toNat)
  else s

/-- A unit directory entry: one of the three fields, whatever its type. -/
def unitEntry (id : RomIdentity) (e : ℕ × U32) : RomIdentity :=
  if entryKeyId e.2 = 0x12 then { id with specifierId := entryValue e.2 }
  else if entryKeyId e.2 = 0x13 then { id with version := entryValue e.2 }
  else if entryKeyId e.2 = 0x17 then { id with modelId := entryValue e.2 }
  else id

/-- The identity a ROM gives, as far as its directories lie inside the array. -/
def parseConfigRom (q : List U32) : RomIdentity :=
  let root := 1 + ((q.getD 0 0 >>> 24) &&& 0xff).toNat
  if root ≥ q.length then {}
  else
    let r := (entries q root).foldl rootEntry ({}, 0)
    if r.2 ≠ 0 ∧ r.2 < q.length then { (entries q r.2).foldl unitEntry r.1 with hasUnit := true } else r.1

/-- The ROM is an FF800's. -/
def romIsFF800 (id : RomIdentity) : Bool := isFF800 id.vendorId id.specifierId id.modelId id.version

/-! ## Reading a config ROM -/

/-- How the transactions of one identification end: the answer, if any, to the
`k`-th request, to this node and address at this speed. -/
abbrev Answers := ℕ → BitVec 16 → BitVec 64 → ℕ → Option U32

/-- Where a node's config ROM is. -/
def romBase : BitVec 64 := 0xfffff0000400

/-- The four bytes, the other way round. -/
def bswap32 (x : U32) : U32 :=
  (x <<< 24) ||| ((x &&& 0xff00) <<< 8) ||| ((x >>> 8) &&& 0xff00) ||| (x >>> 24)

/-- Up to `tries` requests at one speed, of which the first is the `k`-th. -/
def ask (read : Answers) (node : BitVec 16) (spd : ℕ) : ℕ → ℕ → Option U32 × ℕ
  | 0, k => (none, k)
  | tries + 1, k =>
    match read k node romBase spd with
    | some val => (some val, k + 1)
    | none => ask read node spd tries (k + 1)

/-- Ten tries at the self-ID speed, then at every speed below it. -/
def firstQuadlet (read : Answers) (node : BitVec 16) : ℕ → ℕ → Option (U32 × ℕ × ℕ)
  | 0, k =>
    match ask read node 0 10 k with
    | (some val, k) => some (val, 0, k)
    | (none, _) => none
  | spd + 1, k =>
    match ask read node (spd + 1) 10 k with
    | (some val, k) => some (val, spd + 1, k)
    | (none, k) => firstQuadlet read node spd k

/-- The quadlets from the `i`-th on, up to the first that fails; the rest stay 0. -/
def restQuadlets (read : Answers) (node : BitVec 16) (spd : ℕ) : ℕ → ℕ → ℕ → List U32
  | 0, _, _ => []
  | n + 1, i, k =>
    match read k node (romBase + BitVec.ofNat 64 (i * 4)) spd with
    | some val => bswap32 val :: restQuadlets read node spd n (i + 1) (k + 1)
    | none => List.replicate (n + 1) 0

/-- The speed that answered and the 24 quadlets read, in host order. -/
def readRom (read : Answers) (node : BitVec 16) (speed : ℕ) : Option (ℕ × List U32) :=
  (firstQuadlet read node speed 0).map fun r =>
    (r.2.1, bswap32 r.1 :: restQuadlets read node r.2.1 23 1 r.2.2)

/-! ## The driver's state -/

/-- `recognised` is not in the source: the node of the last recognition since
the last self-ID complete event. -/
structure Ivars where
  ff800Found : Bool := false
  ff800Cmc : Bool := false
  ff800Node : BitVec 16 := 0
  ff800Speed : ℕ := 0
  localNodeId : BitVec 16 := 0
  generation : U32 := 0
  isRoot : Bool := false
  forcedFF800Root : Bool := false
  romHeader : U32 := 0
  recognised : Option (BitVec 16) := none
  deriving DecidableEq

/-- What the handler reads from the controller and the bus in one interrupt:
`nodeID i` is the `i`-th read of the NodeID register, `selfId` the self-ID
buffer, and `read j` the transactions made for the `j`-th self-ID packet. -/
structure Interrupt where
  event : U32
  isoXmit : U32 := 0
  isoRecv : U32 := 0
  selfIDCount : U32 := 0
  nodeID : ℕ → U32 := fun _ => 0
  selfId : ℕ → U32 := fun _ => 0
  read : ℕ → Answers := fun _ _ _ _ _ => none
  phy1 : BitVec 8 := 0

/-- The registers the handler writes. -/
inductive Reg where
  | intEventClear | intMaskClear | intMaskSet | isoXmitIntEventClear | isoRecvIntEventClear
  | linkControlSet | configROMhdr | phyReset
  deriving DecidableEq

/-- A register write, or the call of `uf_iso_completion`. -/
inductive Effect where
  | write (r : Reg) (v : U32)
  | isoCompletion
  deriving DecidableEq

/-- A computation that logs what it does to the controller. -/
abbrev Mmio := Logged Effect

/-- A register write. -/
def regWrite (r : Reg) (v : U32) : Mmio Unit := .note (.write r v) ()

/-- A bus reset has begun. -/
def intBusReset : U32 := 1 <<< 17

/-- The self-ID buffer is filled. -/
def intSelfIDComplete : U32 := 1 <<< 16

/-- A posted write has failed. -/
def intPostedWriteErr : U32 := 1 <<< 8

/-- A cycle ran too long. -/
def intCycleTooLong : U32 := 1 <<< 25

/-- A transmit context has an event. -/
def intIsochTx : U32 := 1 <<< 6

/-- A receive context has one. -/
def intIsochRx : U32 := 1 <<< 7

/-- The self-ID stream was received with an error. -/
def selfIDCountError : U32 := 1 <<< 31

/-- Our own node number is settled. -/
def nodeIDValid : U32 := 1 <<< 31

/-- We are root. -/
def nodeIDRoot : U32 := 1 <<< 30

/-- The link sends cycle starts when it is root. -/
def linkControlCycleMaster : U32 := 1 <<< 21

/-- The receive context in use. -/
def kIRContext : ℕ := 0

namespace Interrupt

/-- Some of the bits are set in the event register. -/
def has (e : Interrupt) (bits : U32) : Bool := e.event &&& bits != 0

/-- The `j`-th self-ID quadlet and the one that must be its complement. -/
def id (e : Interrupt) (j : ℕ) : U32 := e.selfId (1 + 2 * j)

/-- What must be its complement. -/
def id2 (e : Interrupt) (j : ℕ) : U32 := e.selfId (2 + 2 * j)

/-- How many self-ID packets there are. -/
def count (e : Interrupt) : ℕ := ((e.selfIDCount &&& 0x7fc) >>> 2 >>> 1).toNat

/-- The first valid NodeID of `n` reads from the `i`-th, else the last one. -/
def awaitNodeID (e : Interrupt) : ℕ → ℕ → U32 → U32
  | 0, _, last => last
  | n + 1, i, _ => if e.nodeID i &&& nodeIDValid ≠ 0 then e.nodeID i else e.awaitNodeID n (i + 1) (e.nodeID i)

/-- The NodeID register as the handler has it: fifty reads at most. -/
def nodeReg (e : Interrupt) : U32 := e.awaitNodeID 50 0 0

/-- Our own node number. -/
def localPhy (e : Interrupt) : U32 := e.nodeReg &&& 0x3f

end Interrupt

/-- The node number of a self-ID packet. -/
def phyId (id : U32) : U32 := (id >>> 24) &&& 0x3f

/-- The link of the packet's node is on. -/
def linkActive (id : U32) : Bool := id &&& 0x00400000 != 0

/-- The speed code of a self-ID packet. -/
def scode (id : U32) : ℕ := ((id >>> 14) &&& 0x3).toNat

/-- The node id on the local bus. -/
def nodeOf (id : U32) : BitVec 16 := 0xffc0 ||| (phyId id).setWidth 16

/-- A self-ID packet proper, not an extended one. -/
def isSelfId (id : U32) : Bool := (id >>> 30) &&& 0x3 == 2 && id &&& 0x00800000 == 0

namespace Ivars

/-- `ohci_identify`: a node whose ROM reads as an FF800's is cached, any other is let be. -/
def ohciIdentify (v : Ivars) (read : Answers) (node : BitVec 16) (speed : ℕ) : Ivars :=
  match readRom read node speed with
  | none => v
  | some (spd, rom) =>
    if romIsFF800 (parseConfigRom rom) then
      { v with
        ff800Found := true
        ff800Node := node
        ff800Speed := spd
        ff800Cmc := rom.getD 2 0 &&& 0x40000000 != 0
        recognised := some node }
    else v

/-- One packet of the walk. -/
def visit (v : Ivars) (e : Interrupt) (j : ℕ) : Ivars :=
  if isSelfId (e.id j) then
    let v := { v with localNodeId := 0xffc0 ||| e.localPhy.setWidth 16 }
    if linkActive (e.id j) ∧ phyId (e.id j) ≠ e.localPhy then
      v.ohciIdentify (e.read j) (nodeOf (e.id j)) (scode (e.id j))
    else v
  else v

/-- `n` packets from the `j`-th on, up to the first bad checksum. -/
def walk (v : Ivars) (e : Interrupt) : ℕ → ℕ → Ivars
  | 0, _ => v
  | n + 1, j => if e.id j = ~~~ e.id2 j then (v.visit e j).walk e n (j + 1) else v

/-- Take root back, once per episode. -/
def takeRoot (v : Ivars) (e : Interrupt) : Mmio Ivars :=
  if v.isRoot then pure { v with forcedFF800Root := false }
  else if v.forcedFF800Root then pure v
  else do
    regWrite .phyReset (((e.phy1 &&& ~~~0x3f) ||| 0x3f ||| 0x80 ||| 0x40).setWidth 32)
    pure { v with forcedFF800Root := true }

/-- What a completed self-ID leads to, past the early returns. -/
def busResetWork (v : Ivars) (e : Interrupt) : Mmio Ivars := do
  regWrite .linkControlSet linkControlCycleMaster
  let v := { v with
    isRoot := e.nodeReg &&& nodeIDRoot != 0
    generation := (e.selfId 0 >>> 16) &&& 0xff }
  let v := v.walk e e.count 0
  regWrite .configROMhdr v.romHeader
  regWrite .intEventClear intBusReset
  regWrite .intMaskSet intBusReset
  v.takeRoot e

/-- `if (event & Int_selfIDComplete)`, with its two early returns. -/
def selfIDComplete (v : Ivars) (e : Interrupt) : Mmio Ivars :=
  if e.has intSelfIDComplete then
    let v := { v with recognised := none }
    if e.selfIDCount &&& selfIDCountError ≠ 0 ∨ e.nodeReg &&& nodeIDValid = 0 then do
      regWrite .intMaskSet intBusReset
      pure v
    else v.busResetWork e
  else pure v

/-- The controller clears the cycle master bit then; a root sets it again. -/
def cycleTooLong (v : Ivars) (e : Interrupt) : Mmio Unit :=
  if e.has intCycleTooLong ∧ v.isRoot then regWrite .linkControlSet linkControlCycleMaster else pure ()

end Ivars

/-- A bus reset is masked until its self-ID is complete. -/
def Interrupt.maskBusReset (e : Interrupt) : Mmio Unit :=
  if e.has intBusReset then regWrite .intMaskClear intBusReset else pure ()

/-- A per-context event register is written back if it is not 0. -/
def clearEvents (r : Reg) (events : U32) : Mmio Unit := if events ≠ 0 then regWrite r events else pure ()

/-- The receive events are cleared, and the context's completion served. -/
def isochRx (rx : U32) : Mmio Unit := do
  clearEvents .isoRecvIntEventClear rx
  if rx &&& (1 <<< kIRContext) ≠ 0 then .note .isoCompletion () else pure ()

/-- The two isochronous causes. -/
def Interrupt.isochronous (e : Interrupt) : Mmio Unit := do
  if e.has intIsochTx then clearEvents .isoXmitIntEventClear e.isoXmit else pure ()
  if e.has intIsochRx then isochRx e.isoRecv else pure ()

/-- The handler, with what it reads given as `e`. -/
def Ivars.interruptOccurred (v : Ivars) (e : Interrupt) : Mmio Ivars :=
  if e.event = 0 ∨ e.event = 0xffffffff then pure v
  else do
    regWrite .intEventClear (e.event &&& ~~~(intBusReset ||| intPostedWriteErr))
    e.maskBusReset
    e.isochronous
    v.cycleTooLong e
    v.selfIDComplete e

/-! ## Register operations of the user client -/

/-- A register operation a client asks for. -/
inductive Op where
  | readQuadlet (offset : BitVec 64)
  | readBlock (offset : BitVec 64) (count : ℕ)
  | writeQuadlet (offset : BitVec 64) (value : U32)
  | writeBlock (offset : BitVec 64) (quads : List U32)

/-- The header of a request, as `uf_at_header` builds it (less the label). -/
structure Request where
  tcode : ℕ
  dest : BitVec 16
  offset : BitVec 64
  dataOrLen : U32
  speed : ℕ
  deriving DecidableEq

/-- The longest block written. -/
def kUFOhciMaxBlockQuadlets : ℕ := 32

/-- The longest block read. -/
def kUFOhciMaxReadQuadlets : ℕ := 256

/-- A request to the node that is cached, at its speed. -/
def Ivars.request (v : Ivars) (tcode : ℕ) (offset : BitVec 64) (dataOrLen : U32) : Request :=
  { tcode, dest := v.ff800Node, offset, dataOrLen, speed := v.ff800Speed }

/-- The request an operation sends, if it sends one: a block has a length. -/
def Ivars.perform (v : Ivars) (op : Op) : Option Request :=
  if v.ff800Found then
    match op with
    | .readQuadlet offset => some (v.request 0x4 offset 0)
    | .readBlock offset count =>
      if count = 0 ∨ count > kUFOhciMaxReadQuadlets then none
      else some (v.request 0x5 offset (BitVec.ofNat 32 (count * 4) <<< 16))
    | .writeQuadlet offset value => some (v.request 0x0 offset value)
    | .writeBlock offset quads =>
      if quads.length = 0 ∨ quads.length > kUFOhciMaxBlockQuadlets then none
      else some (v.request 0x1 offset (BitVec.ofNat 32 (quads.length * 4) <<< 16))
  else none

/-- The driver, and each request sent with what was recognised at the time. -/
structure World where
  v : Ivars := {}
  sent : List (Request × Option (BitVec 16)) := []
  deriving DecidableEq

/-- An interrupt, or an operation of a client. -/
inductive Act where
  | interrupt (e : Interrupt)
  | op (o : Op)

/-- An operation sends its request, if it may. -/
def World.step (w : World) : Act → Option World
  | .interrupt e => some { w with v := (w.v.interruptOccurred e).val }
  | .op o => some { w with sent := (w.v.perform o).toList.map (fun r => (r, w.v.recognised)) ++ w.sent }

/-! ## When what is cached is current -/

/-- The `j`-th packet is of an active node other than ours whose ROM reads as an FF800's. -/
def Interrupt.recognises (e : Interrupt) (j : ℕ) : Bool :=
  isSelfId (e.id j) && linkActive (e.id j) && phyId (e.id j) != e.localPhy &&
    ((readRom (e.read j) (nodeOf (e.id j)) (scode (e.id j))).any fun r => romIsFF800 (parseConfigRom r.2))

/-- Some packet from the `j`-th to the `n`-th after it, before any bad checksum, is recognised. -/
def Interrupt.Hits (e : Interrupt) (n j : ℕ) : Prop :=
  ∃ i, j ≤ i ∧ i < j + n ∧ (∀ k ≤ i, j ≤ k → e.id k = ~~~ e.id2 k) ∧ e.recognises i = true

/-- The self-ID stream has an FF800: no error, our node number valid, and a
packet of the walk that is recognised. -/
def Interrupt.Recognises (e : Interrupt) : Prop :=
  e.selfIDCount &&& selfIDCountError = 0 ∧ e.nodeReg &&& nodeIDValid ≠ 0 ∧ e.Hits e.count 0

/-- The event set read has a completed self-ID. -/
def Interrupt.Completes (e : Interrupt) : Prop :=
  e.event ≠ 0 ∧ e.event ≠ 0xffffffff ∧ e.has intSelfIDComplete = true

/-- A completed self-ID finds the FF800, or finds nothing cached. -/
def World.Settles (w : World) : Act → Prop
  | .interrupt e => e.Completes → w.v.ff800Found = false ∨ e.Recognises
  | .op _ => True

/-- A node that is cached was recognised since the last completed self-ID. -/
def Ivars.Current (v : Ivars) : Prop := v.ff800Found = true → v.recognised = some v.ff800Node

/-- So was the node of every request sent, when it was sent. -/
structure World.Safe (w : World) : Prop where
  current : w.v.Current
  sent : ∀ r ∈ w.sent, r.2 = some r.1.dest

/-- A recognition is cached. -/
structure Ivars.Fresh (v : Ivars) : Prop where
  found : v.ff800Found = true
  node : v.recognised = some v.ff800Node

/-- Nothing was recognised on the way from `v` to `v'`. -/
structure Ivars.Same (v v' : Ivars) : Prop where
  found : v'.ff800Found = v.ff800Found
  node : v'.ff800Node = v.ff800Node
  recognised : v'.recognised = v.recognised

namespace Ivars

variable {v v' v'' : Ivars} {e : Interrupt}

theorem Same.trans (h : Same v v') (h' : Same v' v'') : Same v v'' :=
  ⟨h'.found.trans h.found, h'.node.trans h.node, h'.recognised.trans h.recognised⟩

theorem Fresh.same (h : Fresh v) (hs : Same v v') : Fresh v' :=
  ⟨hs.found.trans h.found, by rw [hs.recognised, hs.node, h.node]⟩

theorem Fresh.to_current (h : Fresh v) : Current v := fun _ => h.node

theorem visit_fresh {j : ℕ} (h : e.recognises j = true) (v : Ivars) : Fresh (v.visit e j) := by
  simp only [Interrupt.recognises, Bool.and_eq_true, bne_iff_ne, Option.any_eq_true] at h
  obtain ⟨⟨⟨hid, hlink⟩, hphy⟩, ⟨spd, rom⟩, hrom, hff⟩ := h
  unfold visit ohciIdentify
  simp only [hid, hlink, hphy, hrom, hff, if_true, ne_eq, not_false_eq_true, and_self]
  exact ⟨rfl, rfl⟩

theorem visit_same {j : ℕ} (h : e.recognises j ≠ true) (v : Ivars) : Same v (v.visit e j) := by
  unfold visit
  split
  · rename_i hid
    dsimp only
    split
    · rename_i hlink
      unfold ohciIdentify
      split
      · exact ⟨rfl, rfl, rfl⟩
      · rename_i spd rom hrom
        split
        · rename_i hff
          refine absurd ?_ h
          simp [Interrupt.recognises, hid, hlink.1, hlink.2, hrom, hff]
        · exact ⟨rfl, rfl, rfl⟩
    · exact ⟨rfl, rfl, rfl⟩
  · exact ⟨rfl, rfl, rfl⟩

end Ivars

theorem Interrupt.hits_succ (e : Interrupt) (n j : ℕ) :
    e.Hits (n + 1) j ↔ e.id j = ~~~ e.id2 j ∧ (e.recognises j = true ∨ e.Hits n (j + 1)) := by
  constructor
  · rintro ⟨i, hji, hin, hok, hr⟩
    refine ⟨hok j hji (le_refl j), ?_⟩
    rcases Nat.eq_or_lt_of_le hji with rfl | hlt
    · exact .inl hr
    · exact .inr ⟨i, hlt, by omega, fun k hk hjk => hok k hk (by omega), hr⟩
  · rintro ⟨hj, hr | ⟨i, hji, hin, hok, hr⟩⟩
    · exact ⟨j, le_refl j, by omega, fun k hk hjk => Nat.le_antisymm hk hjk ▸ hj, hr⟩
    · refine ⟨i, by omega, by omega, fun k hk hjk => ?_, hr⟩
      rcases Nat.eq_or_lt_of_le hjk with rfl | hlt
      · exact hj
      · exact hok k hk hlt

namespace Ivars

variable {v : Ivars} {e : Interrupt}

/-- Run lemma of the walk: it recognises the FF800 if some packet does, and
changes nothing else. -/
theorem walk_spec (v : Ivars) (e : Interrupt) (n j : ℕ) :
    (e.Hits n j → Fresh (v.walk e n j)) ∧ (¬ e.Hits n j → Same v (v.walk e n j)) ∧
    (Fresh v → Fresh (v.walk e n j)) := by
  induction n generalizing v j with
  | zero =>
    refine ⟨?_, fun _ => ⟨rfl, rfl, rfl⟩, id⟩
    rintro ⟨i, hji, hin, -⟩
    omega
  | succ n ih =>
    rw [e.hits_succ]
    unfold walk
    split
    · rename_i hok
      obtain ⟨hhit, hmiss, hkeep⟩ := ih (v.visit e j) (j + 1)
      refine ⟨?_, ?_, ?_⟩
      · rintro ⟨-, hr | hh⟩
        · exact hkeep (visit_fresh hr v)
        · exact hhit hh
      · intro hn
        rw [not_and, not_or] at hn
        obtain ⟨hr, hh⟩ := hn hok
        exact (visit_same hr v).trans (hmiss hh)
      · intro hf
        by_cases hr : e.recognises j = true
        · exact hkeep (visit_fresh hr v)
        · exact hkeep (hf.same (visit_same hr v))
    · rename_i hbad
      exact ⟨fun h => absurd h.1 hbad, fun _ => ⟨rfl, rfl, rfl⟩, id⟩

theorem takeRoot_same (v : Ivars) (e : Interrupt) : Same v (v.takeRoot e).val := by
  unfold takeRoot
  split
  · exact ⟨rfl, rfl, rfl⟩
  · split <;> exact ⟨rfl, rfl, rfl⟩

theorem current_of_none (hn : v.recognised = none) : Current v ↔ v.ff800Found = false := by
  unfold Current
  rw [hn]
  simp

/-- After a completed self-ID the cache is current just when the FF800 was
recognised in it or nothing was cached before it. -/
theorem selfIDComplete_current (h : e.has intSelfIDComplete = true) :
    Current (v.selfIDComplete e).val ↔ v.ff800Found = false ∨ e.Recognises := by
  unfold selfIDComplete Interrupt.Recognises
  rw [if_pos h]
  dsimp only
  split
  · rename_i hbad
    have hno : ¬ (e.selfIDCount &&& selfIDCountError = 0 ∧ e.nodeReg &&& nodeIDValid ≠ 0 ∧ e.Hits e.count 0) := by
      rintro ⟨h1, h2, -⟩
      exact hbad.elim (fun hb => hb h1) h2
    rw [or_iff_left hno]
    exact current_of_none rfl
  · rename_i hok
    rw [not_or, not_not] at hok
    simp only [hok, ne_eq, not_false_eq_true, true_and, busResetWork, Logged.val_bind]
    obtain ⟨hhit, hmiss, -⟩ := walk_spec { v with
      recognised := none
      isRoot := e.nodeReg &&& nodeIDRoot != 0
      generation := (e.selfId 0 >>> 16) &&& 0xff } e e.count 0
    by_cases hh : e.Hits e.count 0
    · exact iff_of_true ((hhit hh).same (takeRoot_same _ e)).to_current (.inr hh)
    · have hs := (hmiss hh).trans (takeRoot_same _ e)
      rw [or_iff_left hh, current_of_none hs.recognised, hs.found]

/-- The step lemma: an interrupt leaves the cache current just when it was and
no self-ID completed, or the self-ID settles it. -/
theorem interruptOccurred_current (v : Ivars) (e : Interrupt) :
    Current (v.interruptOccurred e).val ↔
      (e.Completes → v.ff800Found = false ∨ e.Recognises) ∧ (¬ e.Completes → Current v) := by
  unfold interruptOccurred Interrupt.Completes
  split
  · rename_i h0
    have hno : ¬ (e.event ≠ 0 ∧ e.event ≠ 0xffffffff ∧ e.has intSelfIDComplete = true) := by
      rintro ⟨h1, h2, -⟩
      exact h0.elim h1 h2
    exact ⟨fun h => ⟨fun hc => absurd hc hno, fun _ => h⟩, fun h => h.2 hno⟩
  · rename_i h0
    rw [not_or] at h0
    simp only [Logged.val_bind]
    by_cases hs : e.has intSelfIDComplete = true
    · have hyes : e.event ≠ 0 ∧ e.event ≠ 0xffffffff ∧ e.has intSelfIDComplete = true := ⟨h0.1, h0.2, hs⟩
      rw [selfIDComplete_current hs]
      exact ⟨fun h => ⟨fun _ => h, fun hn => absurd hyes hn⟩, fun h => h.1 hyes⟩
    · have hkeep : (v.selfIDComplete e).val = v := by
        unfold selfIDComplete
        rw [if_neg hs]
        rfl
      rw [hkeep]
      exact ⟨fun h => ⟨fun hc => absurd hc.2.2 hs, fun _ => h⟩, fun h => h.2 fun hc => hs hc.2.2⟩

theorem perform_dest {op : Op} {r : Request} (hc : v.Current) (h : v.perform op = some r) :
    v.recognised = some r.dest := by
  unfold perform at h
  split at h
  · rename_i hf
    have hdest : r.dest = v.ff800Node := by
      cases op <;> simp only [Option.some.injEq] at h
      case readBlock => split at h <;> cases h; rfl
      case writeBlock => split at h <;> cases h; rfl
      all_goals rw [← h]; rfl
    rw [hdest]
    exact hc hf
  · cases h

end Ivars

theorem step_safe (w : World) (a : Act) (w' : World) (hs : w.Safe) (ha : w.Settles a) (h : w.step a = some w') :
    w'.Safe := by
  cases a with
  | interrupt e =>
    cases h
    exact ⟨(Ivars.interruptOccurred_current w.v e).2 ⟨ha, fun _ => hs.current⟩, hs.sent⟩
  | op o =>
    cases h
    refine ⟨hs.current, fun r hr => ?_⟩
    rcases List.mem_append.1 hr with hr | hr
    · obtain ⟨q, hq, rfl⟩ := List.mem_map.1 hr
      exact Ivars.perform_dest hs.current (Option.mem_toList.1 hq)
    · exact hs.sent r hr

/-- In every run of interrupts, with any self-ID streams and ROM reads, and
register operations: if every completed self-ID finds the FF800 or finds nothing
cached, then what is cached is always from the last one, and no request ever
went to a node that was not. -/
theorem current (acts : List Act) (w : World) (hm : Meets World.step World.Settles {} acts)
    (h : run World.step {} acts = some w) : w.Safe :=
  hm.inv World.Safe step_safe h ⟨fun hf => (nomatch hf), fun _ hr => (nomatch hr)⟩

/-! ## Runs -/

/-- A config ROM of an FF800. -/
def ff800Rom : List U32 :=
  [0x04040000, 0x31333934, 0x20FF7000, 0x000A3512, 0x34567890, 0x00020000, 0x03000A35, 0xD1000002, 0,
    0x00030000, 0x12000A35, 0x13000001, 0x17101800]

example : romIsFF800 (parseConfigRom ff800Rom) = true := by decide +kernel

/-- A node that answers with that ROM, in bus order. -/
def answering : Answers := fun _ _ address _ => some (bswap32 (ff800Rom.getD ((address - romBase).toNat / 4) 0))

/-- Two active nodes: we are node 0, and node 1 answers as an FF800. -/
def plugged : Interrupt where
  event := intSelfIDComplete
  selfIDCount := 4 <<< 2
  nodeID := fun _ => nodeIDValid
  selfId := fun k => [0, 0x80400000, ~~~0x80400000, 0x81400000, ~~~0x81400000].getD k 0
  read := fun _ => answering

/-- The FF800 is gone and we are alone. -/
def unplugged : Interrupt where
  event := intSelfIDComplete
  selfIDCount := 2 <<< 2
  nodeID := fun _ => nodeIDValid ||| nodeIDRoot
  selfId := fun k => [0, 0x80400000, ~~~0x80400000].getD k 0

theorem plugged_recognises : plugged.Recognises := by
  refine ⟨by decide, by decide, 1, Nat.zero_le 1, by decide, ?_, by decide +kernel⟩
  intro k hk _
  interval_cases k <;> decide

/-- The FF800 comes, is used, and is found again after another bus reset. -/
def replugging : List Act :=
  [.interrupt plugged, .op (.readQuadlet 0x801c0000), .interrupt plugged, .op (.writeBlock 0x8010051c [0])]

theorem current_replugged : ∃ w, run World.step {} replugging = some w ∧ w.sent.length = 2 ∧ w.Safe := by
  have h : (run World.step {} replugging).map (fun w => w.sent.length) = some 2 := by decide +kernel
  obtain ⟨w, hrun, hlen⟩ := Option.map_eq_some_iff.1 h
  refine ⟨w, hrun, hlen, current replugging w ?_ hrun⟩
  exact ⟨fun _ => .inl rfl, fun _ _ => ⟨trivial, fun _ _ => ⟨fun _ => .inr plugged_recognises, fun _ _ =>
    ⟨trivial, fun _ _ => trivial⟩⟩⟩⟩

/-- Unplugged, the FF800 stays cached at its old node, and a register read is
sent there. -/
theorem stale_node : ∃ w, run World.step {}
    [.interrupt plugged, .interrupt unplugged, .op (.readQuadlet 0x801c0000)] = some w ∧
    w.v.ff800Found = true ∧ w.v.recognised = none ∧ ¬ w.Safe := by
  have h : (run World.step {} [.interrupt plugged, .interrupt unplugged, .op (.readQuadlet 0x801c0000)]).map
      (fun w => (w.v.ff800Found, w.v.recognised)) = some (true, none) := by decide +kernel
  obtain ⟨w, hrun, hw⟩ := Option.map_eq_some_iff.1 h
  rw [Prod.mk.injEq] at hw
  refine ⟨w, hrun, hw.1, hw.2, fun hs => ?_⟩
  have := hs.current hw.1
  rw [hw.2] at this
  cases this

end UserFace800.Dext
