import UserFace800.Lib.Bits
import UserFace800.Dext.BusReset
/-!
# Self-ID packets

`parse_self_ids` of `selfid.hpp` is what the tests test; the interrupt handler has a loop
of its own, over pairs of a quadlet and its complement and with the shifts and masks the
other way round. `self_ids` says the two find the same nodes, that the loop stays inside the
buffer whatever length the controller reports, and whom it identifies; and that
`make_self_id_zero` is read back.
-/
open UserFace800.Lib UserFace800.Lib.Bits

namespace UserFace800.Dext

/-! ## The library's parser -/

/-- `SelfId`: what a self-ID packet zero says. -/
structure SelfId where
  phyId : U32
  linkActive : Bool
  gapCount : U32
  scode : U32
  contender : Bool
  initiatedReset : Bool
  deriving DecidableEq

namespace SelfId

/-- The node id on the local bus. -/
def nodeId (s : SelfId) : BitVec 16 := 0xffc0 ||| (s.phyId &&& 0x3f).setWidth 16

/-- The fields of a packet. -/
def ofQuadlet (q : U32) : SelfId where
  phyId := (q &&& 0x3f000000) >>> 24
  linkActive := q &&& 0x00400000 != 0
  gapCount := (q &&& 0x003f0000) >>> 16
  scode := (q &&& 0x0000c000) >>> 14
  contender := q &&& 0x00000800 != 0
  initiatedReset := q &&& 0x00000002 != 0

end SelfId

/-- The packet identifier of a self-ID. -/
def kPacketIdSelfId : U32 := 2

/-- A PHY packet's identifier. -/
def selfIdPacketIdentifier (q : U32) : U32 := (q &&& 0xc0000000) >>> 30

/-- The packet is an extended one. -/
def selfIdIsExtended (q : U32) : Bool := q &&& 0x00800000 != 0

/-- `parse_self_ids`: the packets zero of a stream. -/
def parseSelfIds (quadlets : List U32) : List SelfId :=
  quadlets.filterMap fun q =>
    if selfIdPacketIdentifier q ≠ kPacketIdSelfId then none
    else if selfIdIsExtended q then none
    else some (.ofQuadlet q)

/-- `make_self_id_zero`, whose ports are all absent. -/
def makeSelfIdZero (phyId : U32) (linkActive : Bool) (gapCount scode : U32) (contender morePackets : Bool) : U32 :=
  kPacketIdSelfId <<< 30 ||| (phyId &&& 0x3f) <<< 24 ||| (if linkActive then (0x00400000 : U32) else 0) |||
  (gapCount &&& 0x3f) <<< 16 |||
    (scode &&& 0x3) <<< 14 ||| (if contender then (0x00000800 : U32) else 0) |||
    (if morePackets then (0x1 : U32) else 0)

/-! ## The driver's loop -/

/-- What the handler logs of a node. -/
structure NodeLine where
  phyId : U32
  linkActive : Bool
  scode : ℕ
  gapCount : U32
  contender : Bool
  nodeId : BitVec 16
  deriving DecidableEq

/-- The log line the handler writes for a packet. -/
def nodeLine (id : U32) : NodeLine where
  phyId := phyId id
  linkActive := linkActive id
  scode := scode id
  gapCount := (id >>> 16) &&& 0x3f
  contender := id &&& 0x00000800 != 0
  nodeId := nodeOf id

/-- A read of the self-ID buffer, a node logged, or a call of `ohci_identify`. -/
inductive SelfIdEvent where
  | read (i : ℕ)
  | node (n : NodeLine)
  | identify (node : BitVec 16) (speed : ℕ)

namespace Ivars

/-- `visit` with what it logs and calls. -/
def visitLogged (v : Ivars) (e : Interrupt) (j : ℕ) : Logged SelfIdEvent Ivars :=
  if isSelfId (e.id j) then do
    .note (.node (nodeLine (e.id j))) ()
    let v := { v with localNodeId := 0xffc0 ||| e.localPhy.setWidth 16 }
    if linkActive (e.id j) ∧ phyId (e.id j) ≠ e.localPhy then
      .note (.identify (nodeOf (e.id j)) (scode (e.id j)))
        (v.ohciIdentify (e.read j) (nodeOf (e.id j)) (scode (e.id j)))
    else pure v
  else pure v

/-- `walk` with its reads. -/
def walkLogged (v : Ivars) (e : Interrupt) : ℕ → ℕ → Logged SelfIdEvent Ivars
  | 0, _ => pure v
  | n + 1, j => do
    let id ← .note (.read (1 + 2 * j)) (e.selfId (1 + 2 * j))
    let id2 ← .note (.read (2 + 2 * j)) (e.selfId (2 + 2 * j))
    if id = ~~~ id2 then do
      let v ← v.visitLogged e j
      v.walkLogged e n (j + 1)
    else pure v

/-- The handler's work on the self-ID buffer; it also logs the first five quadlets. -/
def selfIds (v : Ivars) (e : Interrupt) : Logged SelfIdEvent Ivars := do
  let header ← .note (.read 0) (e.selfId 0)
  ⟨(), [.read 0, .read 1, .read 2, .read 3, .read 4]⟩
  { v with generation := (header >>> 16) &&& 0xff }.walkLogged e e.count 0

theorem visitLogged_val (v : Ivars) (e : Interrupt) (j : ℕ) : (v.visitLogged e j).val = v.visit e j := by
  unfold visitLogged visit
  split
  · rw [Logged.val_bind]
    dsimp only
    split <;> rfl
  · rfl

/-- The loop is the one of the handler. -/
theorem walkLogged_val (v : Ivars) (e : Interrupt) (n j : ℕ) : (v.walkLogged e n j).val = v.walk e n j := by
  induction n generalizing v j with
  | zero => rfl
  | succ n ih =>
    rw [walkLogged, walk, Logged.val_bind, Logged.val_bind]
    change (if e.id j = ~~~ e.id2 j then (v.visitLogged e j >>= fun v => v.walkLogged e n (j + 1)) else pure v).val = _
    split
    · rw [Logged.val_bind, ih, visitLogged_val]
    · rfl

end Ivars

/-! ## Both find the same nodes -/

/-- The same, from the library's fields. -/
def SelfId.line (s : SelfId) : NodeLine where
  phyId := s.phyId
  linkActive := s.linkActive
  scode := s.scode.toNat
  gapCount := s.gapCount
  contender := s.contender
  nodeId := s.nodeId

theorem isSelfId_iff (q : U32) :
    isSelfId q = true ↔ selfIdPacketIdentifier q = kPacketIdSelfId ∧ selfIdIsExtended q = false := by
  rw [selfIdPacketIdentifier, mask_shift q _ 0x3 30 rfl, isSelfId, Bool.and_eq_true, beq_iff_eq, beq_iff_eq,
    selfIdIsExtended, bne_eq_false_iff_eq]
  rfl

theorem line_ofQuadlet (q : U32) : (SelfId.ofQuadlet q).line = nodeLine q := by
  unfold SelfId.line SelfId.ofQuadlet SelfId.nodeId nodeLine nodeOf phyId linkActive scode
  rw [mask_shift q 0x3f000000 0x3f 24 rfl, mask_shift q 0x003f0000 0x3f 16 rfl, mask_shift q 0x0000c000 0x3 14 rfl,
    BitVec.and_assoc, BitVec.and_self]

/-- A quadlet is a node's or it is skipped. -/
theorem parseSelfIds_cons (q : U32) (qs : List U32) : parseSelfIds (q :: qs) =
    if isSelfId q then .ofQuadlet q :: parseSelfIds qs else parseSelfIds qs := by
  unfold parseSelfIds
  rw [List.filterMap_cons]
  by_cases h : isSelfId q = true
  · obtain ⟨hid, hext⟩ := (isSelfId_iff q).1 h
    simp [h, hid, hext]
  · rw [if_neg h]
    rw [isSelfId_iff, not_and_or, Bool.not_eq_false] at h
    by_cases hid : selfIdPacketIdentifier q = kPacketIdSelfId
    · simp [hid, h.resolve_left (not_not_intro hid)]
    · simp [hid]

/-- The nodes logged, in order. -/
def nodesOf (log : List SelfIdEvent) : List NodeLine :=
  log.filterMap fun
    | .node n => some n
    | _ => none

/-- The calls of `ohci_identify`, in order. -/
def identifiedOf (log : List SelfIdEvent) : List (BitVec 16 × ℕ) :=
  log.filterMap fun
    | .identify node speed => some (node, speed)
    | _ => none

/-- The buffer indices read. -/
def readsOf (log : List SelfIdEvent) : List ℕ :=
  log.filterMap fun
    | .read i => some i
    | _ => none

/-- The nodes to identify: the active ones but our own. -/
def SelfId.identified (localPhy : U32) (s : SelfId) : Option (BitVec 16 × ℕ) :=
  if s.linkActive ∧ s.phyId ≠ localPhy then some (s.nodeId, s.scode.toNat) else none

namespace Interrupt

/-- The first quadlets of `n` pairs from the `j`-th on, before the first whose second is not the complement. -/
def firstsFrom (e : Interrupt) (n j : ℕ) : List U32 :=
  ((List.range' j n).takeWhile fun j => e.id j = ~~~ e.id2 j).map e.id

/-- The first quadlets of the packets the handler walks. -/
def firsts (e : Interrupt) : List U32 := e.firstsFrom e.count 0

theorem firstsFrom_succ (e : Interrupt) (n j : ℕ) : e.firstsFrom (n + 1) j =
    if e.id j = ~~~ e.id2 j then e.id j :: e.firstsFrom n (j + 1) else [] := by
  rw [firstsFrom, List.range'_succ, List.takeWhile_cons]
  split <;> simp_all [firstsFrom]

/-- The size field is of nine bits. -/
theorem count_le (e : Interrupt) : e.count ≤ 255 := by
  have hmask : (e.selfIDCount &&& 0x7fc).toNat ≤ 0x7fc := by
    rw [BitVec.toNat_and]
    exact Nat.and_le_right
  unfold count
  rw [BitVec.toNat_ushiftRight, BitVec.toNat_ushiftRight, Nat.shiftRight_eq_div_pow, Nat.shiftRight_eq_div_pow]
  omega

end Interrupt

namespace Ivars

/-- What one packet logs. -/
theorem visitLogged_log (v : Ivars) (e : Interrupt) (j : ℕ) : (v.visitLogged e j).log =
    if isSelfId (e.id j) then .node (nodeLine (e.id j)) ::
      (((SelfId.ofQuadlet (e.id j)).identified e.localPhy).map fun c => .identify c.1 c.2).toList
    else [] := by
  have hline := line_ofQuadlet (e.id j)
  have hlink : (SelfId.ofQuadlet (e.id j)).linkActive = linkActive (e.id j) := congrArg NodeLine.linkActive hline
  have hphy : (SelfId.ofQuadlet (e.id j)).phyId = phyId (e.id j) := congrArg NodeLine.phyId hline
  have hnode : (SelfId.ofQuadlet (e.id j)).nodeId = nodeOf (e.id j) := congrArg NodeLine.nodeId hline
  have hscode : (SelfId.ofQuadlet (e.id j)).scode.toNat = scode (e.id j) := congrArg NodeLine.scode hline
  unfold visitLogged SelfId.identified
  rw [hlink, hphy, hnode, hscode]
  split
  · rw [Logged.log_bind]
    dsimp only
    split <;> rfl
  · rfl

theorem walkLogged_log (v : Ivars) (e : Interrupt) (n j : ℕ) : (v.walkLogged e (n + 1) j).log =
    .read (1 + 2 * j) :: .read (2 + 2 * j) ::
      if e.id j = ~~~ e.id2 j then (v.visitLogged e j).log ++ ((v.visitLogged e j).val.walkLogged e n (j + 1)).log
      else [] := by
  rw [walkLogged, Logged.log_bind, Logged.log_bind]
  change SelfIdEvent.read _ :: SelfIdEvent.read _ ::
    (if e.id j = ~~~ e.id2 j then (v.visitLogged e j >>= fun v => v.walkLogged e n (j + 1)) else pure v).log = _
  split <;> rfl

/-- The nodes are those of the parser. -/
theorem walkLogged_nodes (v : Ivars) (e : Interrupt) (n j : ℕ) :
    nodesOf (v.walkLogged e n j).log = (parseSelfIds (e.firstsFrom n j)).map SelfId.line := by
  induction n generalizing v j with
  | zero => rfl
  | succ n ih =>
    rw [walkLogged_log, e.firstsFrom_succ]
    split
    · rw [parseSelfIds_cons, visitLogged_log]
      split
      · rw [List.map_cons, line_ofQuadlet, ← ih (v.visitLogged e j).val]
        cases (SelfId.ofQuadlet (e.id j)).identified e.localPhy <;> rfl
      · exact ih _ _
    · rfl

/-- So are the nodes identified. -/
theorem walkLogged_identified (v : Ivars) (e : Interrupt) (n j : ℕ) :
    identifiedOf (v.walkLogged e n j).log =
    (parseSelfIds (e.firstsFrom n j)).filterMap (SelfId.identified e.localPhy) := by
  induction n generalizing v j with
  | zero => rfl
  | succ n ih =>
    rw [walkLogged_log, e.firstsFrom_succ]
    split
    · rw [parseSelfIds_cons, visitLogged_log]
      split
      · rw [List.filterMap_cons, ← ih (v.visitLogged e j).val]
        cases (SelfId.ofQuadlet (e.id j)).identified e.localPhy <;> rfl
      · exact ih _ _
    · rfl

theorem walkLogged_reads (v : Ivars) (e : Interrupt) (n j : ℕ) :
    ∀ i ∈ readsOf (v.walkLogged e n j).log, i ≤ 2 * (j + n) := by
  induction n generalizing v j with
  | zero =>
    intro i hi
    cases hi
  | succ n ih =>
    have hrest : ∀ i ∈ readsOf ((v.visitLogged e j).val.walkLogged e n (j + 1)).log, i ≤ 2 * (j + 1 + n) := ih _ _
    rw [walkLogged_log, visitLogged_log]
    intro i hi
    rcases List.mem_cons.1 hi with rfl | hi
    · omega
    rcases List.mem_cons.1 hi with rfl | hi
    · omega
    have hi : i ∈ readsOf ((v.visitLogged e j).val.walkLogged e n (j + 1)).log := by
      split at hi
      · split at hi
        · cases h : (SelfId.ofQuadlet (e.id j)).identified e.localPhy <;> rw [h] at hi <;> exact hi
        · exact hi
      · cases hi
    have := hrest i hi
    omega

theorem selfIds_log (v : Ivars) (e : Interrupt) :
    (v.selfIds e).log = [.read 0, .read 0, .read 1, .read 2, .read 3, .read 4] ++
    ({ v with generation := (e.selfId 0 >>> 16) &&& 0xff }.walkLogged e e.count 0).log := rfl

end Ivars

/-! ## What is made is read back -/

/-- The fields of a quadlet of `make_self_id_zero`, in their ranges. -/
structure Zero where
  phyId : U32
  linkActive : Bool
  gapCount : U32
  scode : U32
  contender : Bool
  morePackets : Bool
  phyId_lt : phyId < 64
  gapCount_lt : gapCount < 64
  scode_lt : scode < 4

namespace Zero

/-- The packet. -/
def quadlet (z : Zero) : U32 := makeSelfIdZero z.phyId z.linkActive z.gapCount z.scode z.contender z.morePackets

/-- What it says. -/
def selfId (z : Zero) : SelfId where
  phyId := z.phyId
  linkActive := z.linkActive
  gapCount := z.gapCount
  scode := z.scode
  contender := z.contender
  initiatedReset := false

end Zero

/-- A quadlet of a stream: one that was made, or one the parser is to skip. -/
inductive StreamQuadlet where
  | zero (z : Zero)
  | extended (q : U32) (h : selfIdIsExtended q = true)
  | other (q : U32) (h : selfIdPacketIdentifier q ≠ kPacketIdSelfId)

namespace StreamQuadlet

/-- The quadlet itself. -/
def quadlet : StreamQuadlet → U32
  | zero z => z.quadlet
  | extended q _ => q
  | other q _ => q

/-- What a packet zero says; the others are left out. -/
def selfId : StreamQuadlet → Option SelfId
  | zero z => some z.selfId
  | extended _ _ => none
  | other _ _ => none

end StreamQuadlet

theorem makeSelfIdZero_bit (phyId gapCount scode : U32) (linkActive contender morePackets : Bool) {i : ℕ}
    (hi : i < 32) : (makeSelfIdZero phyId linkActive gapCount scode contender morePackets).getLsbD i =
      (decide (i = 31) || (decide (24 ≤ i) && (phyId &&& 0x3f).getLsbD (i - 24)) || (linkActive && decide (22 = i)) ||
        (decide (16 ≤ i) && (gapCount &&& 0x3f).getLsbD (i - 16)) ||
        (decide (14 ≤ i) && (scode &&& 0x3).getLsbD (i - 14)) ||
        (contender && decide (11 = i)) || (morePackets && decide (0 = i))) := by
  have hsel : (kPacketIdSelfId <<< 30).getLsbD i = decide (i = 31) := by
    rw [show kPacketIdSelfId <<< 30 = BitVec.twoPow 32 31 from rfl, BitVec.getLsbD_twoPow]
    simp [eq_comm]
  have hlink := flag_bit linkActive (show 22 < 32 by decide) i
  have hcontender := flag_bit contender (show 11 < 32 by decide) i
  have hmore := flag_bit morePackets (show 0 < 32 by decide) i
  rw [makeSelfIdZero]
  simp only [BitVec.getLsbD_or, BitVec.getLsbD_shiftLeft, hsel]
  rw [← hlink, ← hcontender, ← hmore]
  simp only [hi, decide_true, Bool.true_and, ← decide_not, not_lt]
  rfl

namespace Zero

theorem isSelfId_quadlet (z : Zero) : isSelfId z.quadlet = true := by
  rw [isSelfId_iff, quadlet]
  constructor
  · apply field_eq 2 rfl (by decide)
    intro i hi
    rw [makeSelfIdZero_bit _ _ _ _ _ _ (by omega)]
    interval_cases i <;> simp [kPacketIdSelfId]
  · rw [selfIdIsExtended, show (0x00800000 : U32) = BitVec.twoPow 32 23 from rfl, test_bit _ (by decide),
      makeSelfIdZero_bit _ _ _ _ _ _ (by decide)]
    simp

theorem ofQuadlet_quadlet (z : Zero) : SelfId.ofQuadlet z.quadlet = z.selfId := by
  have hbit : ∀ i < 32, z.quadlet.getLsbD i = _ := fun _ => makeSelfIdZero_bit _ _ _ _ _ _
  have hphy : (z.quadlet &&& 0x3f000000) >>> 24 = z.phyId := by
    apply field_eq 6 rfl z.phyId_lt
    intro i hi
    rw [hbit _ (by omega)]
    interval_cases i <;> simp
  have hgap : (z.quadlet &&& 0x003f0000) >>> 16 = z.gapCount := by
    apply field_eq 6 rfl z.gapCount_lt
    intro i hi
    rw [hbit _ (by omega)]
    interval_cases i <;> simp
  have hscode : (z.quadlet &&& 0x0000c000) >>> 14 = z.scode := by
    apply field_eq 2 rfl z.scode_lt
    intro i hi
    rw [hbit _ (by omega)]
    interval_cases i <;> simp
  have hlink : (z.quadlet &&& 0x00400000 != 0) = z.linkActive := by
    rw [show (0x00400000 : U32) = BitVec.twoPow 32 22 from rfl, test_bit _ (by decide), hbit _ (by decide)]
    simp
  have hcontender : (z.quadlet &&& 0x00000800 != 0) = z.contender := by
    rw [show (0x00000800 : U32) = BitVec.twoPow 32 11 from rfl, test_bit _ (by decide), hbit _ (by decide)]
    simp
  have hreset : (z.quadlet &&& 0x00000002 != 0) = false := by
    rw [show (0x00000002 : U32) = BitVec.twoPow 32 1 from rfl, test_bit _ (by decide), hbit _ (by decide)]
    simp
  rw [SelfId.ofQuadlet, hphy, hgap, hscode, hlink, hcontender, hreset]
  rfl

end Zero

/-- Of a stream, the parser finds what was made, in order. -/
theorem parseSelfIds_stream (s : List StreamQuadlet) :
    parseSelfIds (s.map StreamQuadlet.quadlet) = s.filterMap StreamQuadlet.selfId := by
  induction s with
  | nil => rfl
  | cons x s ih =>
    rw [List.map_cons, parseSelfIds_cons, ih]
    cases x with
    | zero z =>
      rw [StreamQuadlet.quadlet, if_pos z.isSelfId_quadlet, z.ofQuadlet_quadlet]
      rfl
    | extended q h =>
      rw [StreamQuadlet.quadlet, if_neg (fun hq => by simp [((isSelfId_iff q).1 hq).2] at h)]
      rfl
    | other q h =>
      rw [StreamQuadlet.quadlet, if_neg (fun hq => h ((isSelfId_iff q).1 hq).1)]
      rfl

/-- The walk is the handler's; the nodes it logs and those it identifies are the parser's,
every read is inside the buffer, and the parser reads back what `make_self_id_zero` makes. -/
theorem self_ids (v : Ivars) (e : Interrupt) (s : List StreamQuadlet) :
    (v.selfIds e).val = { v with generation := (e.selfId 0 >>> 16) &&& 0xff }.walk e e.count 0 ∧
      nodesOf (v.selfIds e).log = (parseSelfIds e.firsts).map SelfId.line ∧
      identifiedOf (v.selfIds e).log = (parseSelfIds e.firsts).filterMap (SelfId.identified e.localPhy) ∧
      (∀ i ∈ readsOf (v.selfIds e).log, i < 512) ∧
      parseSelfIds (s.map StreamQuadlet.quadlet) = s.filterMap StreamQuadlet.selfId := by
  refine ⟨Ivars.walkLogged_val _ _ _ _, Ivars.walkLogged_nodes _ _ _ _, Ivars.walkLogged_identified _ _ _ _, ?_,
    parseSelfIds_stream s⟩
  intro i hi
  have hcount := e.count_le
  rw [Ivars.selfIds_log, readsOf, List.filterMap_append, List.mem_append] at hi
  rcases hi with hi | hi
  · have : i ∈ [0, 0, 1, 2, 3, 4] := hi
    simp only [List.mem_cons, List.not_mem_nil, or_false] at this
    omega
  · have := Ivars.walkLogged_reads _ _ _ _ i hi
    omega

end UserFace800.Dext
