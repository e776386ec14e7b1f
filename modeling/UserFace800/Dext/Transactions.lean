import UserFace800.Lib.Bits
import UserFace800.Dext.BusReset
import UserFace800.Dext.MidiIn
/-!
# Asynchronous transactions

One call at a time sends a request and, if it is a read, looks for the response
at the head of the AR buffer, which it has re-armed for it. A write does not wait
for its response; that comes when it comes, behind whatever is in the buffer
since it was last re-armed. `first_response` says a read succeeds exactly if the
first response since then is its own; `hidden_response` is the read that comes
after a write and times out.
-/
open UserFace800.Lib

namespace UserFace800.Dext

/-! ## Response packets -/

/-- A response's transaction label. -/
def tlabelOf (q0 : Quadlet) : ℕ := ((q0 >>> 10) &&& 0x3f).toNat

/-- Its response code. -/
def rcodeOf (q1 : Quadlet) : ℕ := ((q1 >>> 12) &&& 0xf).toNat

/-- The event code of its trailer. -/
def evtOf (trailer : Quadlet) : ℕ := ((trailer >>> 16) &&& 0x1f).toNat

/-- The four operations. -/
inductive Call where
  | readQuadlet
  | readBlock (count : ℕ)
  | writeQuadlet
  | writeBlock (count : ℕ)
  deriving DecidableEq

namespace Call

/-- It returns data. -/
def isRead : Call → Bool
  | .readQuadlet | .readBlock _ => true
  | .writeQuadlet | .writeBlock _ => false

/-- `kIOReturnBadArgument`. -/
def isBad : Call → Bool
  | .readBlock count => count == 0 || decide (count > kUFOhciMaxReadQuadlets)
  | .writeBlock count => count == 0 || decide (count > kUFOhciMaxBlockQuadlets)
  | .readQuadlet | .writeQuadlet => false

end Call

/-- A request as it was sent. -/
structure Txn where
  call : Call
  tl : BitVec 8
  deriving DecidableEq

/-- A packet of the device's, in its quadlets and the trailer, is a response to the
request: of its label and kind, and of no more bytes than were asked for. -/
def Txn.Answers (r : Txn) (p : List Quadlet) : Prop :=
  tlabelOf (p.getD 0 0) = r.tl.toNat ∧
    match r.call with
    | .readQuadlet => tcode (p.getD 0 0) = 0x6 ∧ p.length = 5
    | .readBlock count =>
      tcode (p.getD 0 0) = 0x7 ∧ dataLen (p.getD 3 0) ≤ count * 4 ∧ p.length = 5 + (dataLen (p.getD 3 0) + 3) / 4
    | .writeQuadlet | .writeBlock _ => tcode (p.getD 0 0) = 0x2 ∧ p.length = 4

instance (r : Txn) (p : List Quadlet) : Decidable (r.Answers p) :=
  match h : r.call with
  | .readQuadlet => decidable_of_iff (_ ∧ _ ∧ _) (by rw [Txn.Answers, h])
  | .readBlock count => decidable_of_iff (_ ∧ _ ∧ _ ∧ _) (by rw [Txn.Answers, h])
  | .writeQuadlet => decidable_of_iff (_ ∧ _ ∧ _) (by rw [Txn.Answers, h])
  | .writeBlock count => decidable_of_iff (_ ∧ _ ∧ _) (by rw [Txn.Answers, h])

/-- It says `rcode` 0 and `ack_complete`. -/
def Complete (p : List Quadlet) : Prop := rcodeOf (p.getD 1 0) = 0 ∧ evtOf (p.getD (p.length - 1) 0) = 0x11

instance (p : List Quadlet) : Decidable (Complete p) := inferInstanceAs (Decidable (_ ∧ _))

/-- The data of a response. -/
def Call.data (call : Call) (p : List Quadlet) : List Quadlet :=
  match call with
  | .readQuadlet => [p.getD 3 0]
  | .readBlock count => (List.range count).map fun k => if k * 4 < dataLen (p.getD 3 0) then p.getD (4 + k) 0 else 0
  | .writeQuadlet | .writeBlock _ => []

/-! ## The transactor -/

/-- What a call returns. -/
inductive Outcome where
  | success (data : List Quadlet)
  | ioError
  | timeout
  deriving DecidableEq

/-- How `uf_at_run` ends: with the event code the controller wrote, a dead context, or
neither in time. -/
inductive AtRun where
  | evt (e : BitVec 5)
  | dead
  | timeout

/-- What the call returns by it alone, if it returns. -/
def AtRun.outcome : AtRun → Option Outcome
  | .evt e => if e = 0x11 ∨ e = 0x12 then none else some .ioError
  | .dead => some .ioError
  | .timeout => some .timeout

/-- Where a call is: in `uf_at_run` for the attempt given, or before that poll of
the head of the AR buffer. -/
inductive CallPhase where
  | idle
  | sending (r : Txn) (attempt : ℕ)
  | polling (r : Txn) (i : ℕ)
  deriving DecidableEq

/-- A read that has returned: the number of its request, its outcome, and the
responses since the AR buffer was last re-armed, each with the number of the
request it is to. -/
structure Returned where
  request : ℕ
  call : Call
  outcome : Outcome
  arrived : List (ℕ × List Quadlet)

/-- Not in the source are `requests` (those sent so far), `arrived` (the responses
since the last re-arm) and `returned`. -/
structure Transactor where
  tlabel : BitVec 8 := 0
  arCPU : ℕ → Quadlet := fun _ => 0
  arPos : ℕ := 0
  phase : CallPhase := .idle
  requests : List Txn := []
  arrived : List (ℕ × List Quadlet) := []
  returned : List Returned := []

/-- The call's steps, and the controller's. -/
inductive TransactorAct where
  | call (call : Call)
  | atRun (result : AtRun)
  | poll
  /-- The controller puts a response to request `k` into the AR buffer. -/
  | deliver (k : ℕ) (p : List Quadlet)

namespace Transactor

/-- The quadlets of the AR buffer. -/
def arQuadlets : ℕ := kARBufferBytes / 4

/-- `uf_ar_rearm`. -/
def rearm (s : Transactor) : Transactor :=
  { s with
    arCPU := fun i => if i < 8 then 0 else s.arCPU i
    arPos := 0
    arrived := [] }

/-- A call up to `uf_at_run`: `uf_write_quadlet` alone does not re-arm. -/
def begin (s : Transactor) (call : Call) : Transactor :=
  if call.isBad then s
  else
    let r : Txn := ⟨call, s.tlabel &&& 0x3f⟩
    let s := { s with tlabel := s.tlabel + 1, phase := .sending r 0, requests := s.requests ++ [r] }
    match call with
    | .writeQuadlet => s
    | _ => s.rearm

/-- The call returns. -/
def done (s : Transactor) (call : Call) (outcome : Outcome) : Transactor :=
  { s with
    phase := .idle
    returned := if call.isRead then s.returned ++ [⟨s.requests.length - 1, call, outcome, s.arrived⟩] else s.returned }

/-- After `uf_at_run`: all calls but `uf_write_quadlet` try three times, and re-arm
after each failure. -/
def sent (s : Transactor) (result : AtRun) (r : Txn) (attempt : ℕ) : Transactor :=
  match result.outcome with
  -- a write returns without waiting for its response
  | none => if r.call.isRead then { s with phase := .polling r 0 } else s.done r.call (.success [])
  | some outcome =>
    if r.call = .writeQuadlet then s.done r.call outcome
    else if attempt + 1 < 3 then { s.rearm with phase := .sending r (attempt + 1) }
    else s.rearm.done r.call outcome

/-- What `uf_read_quadlet` or `uf_read_block` makes of the head of the buffer. -/
def head (r : Txn) (arCPU : ℕ → Quadlet) : Option Outcome :=
  match r.call with
  | .readQuadlet =>
    if tcode (arCPU 0) = 0x6 ∧ tlabelOf (arCPU 0) = r.tl.toNat then
      if evtOf (arCPU 4) ≠ 0x11 then some .ioError
      else if rcodeOf (arCPU 1) ≠ 0 then some .ioError
      else some (.success [arCPU 3])
    else none
  | .readBlock count =>
    if tcode (arCPU 0) = 0x7 ∧ tlabelOf (arCPU 0) = r.tl.toNat then
      let len := min (dataLen (arCPU 3)) (count * 4)
      if rcodeOf (arCPU 1) ≠ 0 then some .ioError
      else if 4 + len / 4 + 1 > arQuadlets then some .ioError
      else if evtOf (arCPU (4 + (len + 3) / 4)) ≠ 0x11 then some .ioError
      else some (.success ((List.range count).map fun k => if k * 4 < len then arCPU (4 + k) else 0))
    else none
  | .writeQuadlet | .writeBlock _ => none

/-- A look at the head of the AR buffer; the hundredth is the last. -/
def poll (s : Transactor) (r : Txn) (i : ℕ) : Transactor :=
  match head r s.arCPU with
  | some outcome => s.done r.call outcome
  | none => if i + 1 < 100 then { s with phase := .polling r (i + 1) } else s.done r.call .timeout

/-- The descriptor branches to itself: at the end of the buffer the controller goes
on at its head. -/
def deliver (s : Transactor) (k : ℕ) (p : List Quadlet) : Transactor :=
  { s with
    arCPU := fun i =>
      let j := (i + arQuadlets - s.arPos % arQuadlets) % arQuadlets
      if i < arQuadlets ∧ j < p.length then p.getD j 0 else s.arCPU i
    arPos := s.arPos + p.length
    arrived := s.arrived ++ [(k, p)] }

/-- One call at a time; responses come when they come. -/
def step (s : Transactor) (a : TransactorAct) : Option Transactor :=
  match a, s.phase with
  | .call call, .idle => some (s.begin call)
  | .atRun result, .sending r attempt => some (s.sent result r attempt)
  | .poll, .polling r i => some (s.poll r i)
  | .deliver k p, _ =>
    match s.requests[k]? with
    | some r => if r.Answers p then some (s.deliver k p) else none
    | none => none
  | _, _ => none

/-- A driver that has sent nothing, over any memory. -/
def start (arCPU : ℕ → Quadlet) : Transactor where
  arCPU

/-! ## The buffer -/

variable {s t : Transactor}

/-- What was written since the last re-arm. -/
def written (s : Transactor) : List Quadlet := s.arrived.flatMap (·.2)

/-- The labels go round, and the buffer holds the responses as they came while they
fit in it. -/
structure Buffered (s : Transactor) : Prop where
  tlabel : s.tlabel = BitVec.ofNat 8 s.requests.length
  labels : ∀ k r, s.requests[k]? = some r → r.tl.toNat = k % 64
  answers : ∀ e ∈ s.arrived, ∃ r, s.requests[e.1]? = some r ∧ r.Answers e.2
  pos : s.arPos = s.written.length
  holds : s.arPos ≤ arQuadlets → ∀ i < s.arPos, s.arCPU i = s.written.getD i 0

theorem rearm_buffered (hi : s.Buffered) : s.rearm.Buffered where
  tlabel := hi.tlabel
  labels := hi.labels
  answers := fun _ h => absurd h List.not_mem_nil
  pos := rfl
  holds := fun _ i h => absurd h (Nat.not_lt_zero i)

theorem done_buffered (hi : s.Buffered) (call : Call) (outcome : Outcome) : (s.done call outcome).Buffered :=
  ⟨hi.tlabel, hi.labels, hi.answers, hi.pos, hi.holds⟩

theorem label_toNat (n : ℕ) : (BitVec.ofNat 8 n &&& 0x3f).toNat = n % 64 := by
  rw [Bits.toNat_mask 6 rfl, BitVec.toNat_ofNat]
  omega

/-- The next request has the next label. -/
theorem request_buffered (hi : s.Buffered) (call : Call) (phase : CallPhase) : Buffered { s with
    tlabel := s.tlabel + 1
    phase
    requests := s.requests ++ [⟨call, s.tlabel &&& 0x3f⟩] } where
  tlabel := by
    rw [List.length_append, List.length_singleton, BitVec.ofNat_add, hi.tlabel]
    rfl
  labels := by
    intro k r hr
    rcases Nat.lt_trichotomy k s.requests.length with hlt | heq | hgt
    · rw [List.getElem?_append_left hlt] at hr
      exact hi.labels k r hr
    · rw [heq, List.getElem?_concat_length] at hr
      rw [← Option.some.inj hr, hi.tlabel, heq]
      exact label_toNat _
    · rw [List.getElem?_eq_none (by simp; omega)] at hr
      cases hr
  answers := by
    intro e he
    obtain ⟨r, hr, hanswers⟩ := hi.answers e he
    refine ⟨r, ?_, hanswers⟩
    rw [← hr]
    exact List.getElem?_append_left (List.getElem?_eq_some_iff.1 hr).1
  pos := hi.pos
  holds := hi.holds

/-- A response has at least its header and the trailer. -/
theorem answers_length {r : Txn} {p : List Quadlet} (h : r.Answers p) : 4 ≤ p.length := by
  obtain ⟨-, h⟩ := h
  cases hc : r.call with
  | readQuadlet | readBlock _ | writeQuadlet | writeBlock _ =>
    simp only [hc] at h
    omega

theorem deliver_buffered (hi : s.Buffered) {k : ℕ} {p : List Quadlet} {r : Txn} (hr : s.requests[k]? = some r)
    (hp : r.Answers p) : (s.deliver k p).Buffered where
  tlabel := hi.tlabel
  labels := hi.labels
  answers := by
    intro e he
    rcases List.mem_append.1 he with he | he
    · exact hi.answers e he
    · rw [List.mem_singleton.1 he]
      exact ⟨r, hr, hp⟩
  pos := by
    have hpos := hi.pos
    simp only [written, deliver, List.flatMap_append, List.length_append, List.flatMap_singleton] at hpos ⊢
    rw [hpos]
  holds := by
    intro hfit i hlt
    have hlen := answers_length hp
    have hfit : s.arPos + p.length ≤ arQuadlets := hfit
    have hlt : i < s.arPos + p.length := hlt
    have hwritten : (s.deliver k p).written = s.written ++ p := by simp [written, deliver]
    have hmod : s.arPos % arQuadlets = s.arPos := Nat.mod_eq_of_lt (by omega)
    rw [hwritten]
    simp only [deliver, hmod]
    by_cases hold : i < s.arPos
    · -- the packet does not reach round to it
      have hj : (i + arQuadlets - s.arPos) % arQuadlets = i + arQuadlets - s.arPos := Nat.mod_eq_of_lt (by omega)
      rw [if_neg (by rw [hj]; omega), List.getD_append _ _ _ _ (hi.pos ▸ hold)]
      exact hi.holds (by omega) i hold
    · have hj : (i + arQuadlets - s.arPos) % arQuadlets = i - s.arPos := by
        rw [show i + arQuadlets - s.arPos = i - s.arPos + arQuadlets by omega, Nat.add_mod_right]
        exact Nat.mod_eq_of_lt (by omega)
      rw [if_pos (by rw [hj]; omega), hj, List.getD_append_right _ _ _ _ (hi.pos ▸ Nat.not_lt.1 hold), hi.pos]

/-! ## The head of the buffer -/

/-- What a read makes of an own response. -/
def taken (call : Call) (p : List Quadlet) : Outcome := if Complete p then .success (call.data p) else .ioError

theorem head_readQuadlet {tl : BitVec 8} {p : List Quadlet} {arCPU : ℕ → Quadlet}
    (hp : Txn.Answers ⟨.readQuadlet, tl⟩ p)
    (har : ∀ i < p.length, arCPU i = p.getD i 0) : head ⟨.readQuadlet, tl⟩ arCPU = some (taken .readQuadlet p) := by
  obtain ⟨hlabel, htcode, hlen⟩ := hp
  have hget (i : ℕ) (hi : i < 5) : p.getD i 0 = arCPU i := (har i (hlen ▸ hi)).symm
  rw [hget 0 (by decide)] at hlabel htcode
  have hcomplete : Complete p ↔ rcodeOf (arCPU 1) = 0 ∧ evtOf (arCPU 4) = 0x11 := by
    rw [← hget 1 (by decide), ← hget 4 (by decide), Complete, hlen]
  have hhead : head ⟨.readQuadlet, tl⟩ arCPU = if evtOf (arCPU 4) ≠ 0x11 then some .ioError
      else if rcodeOf (arCPU 1) ≠ 0 then some .ioError else some (.success [arCPU 3]) := if_pos ⟨htcode, hlabel⟩
  rw [hhead]
  by_cases hevt : evtOf (arCPU 4) = 0x11
  · by_cases hrcode : rcodeOf (arCPU 1) = 0
    · rw [if_neg (not_not.2 hevt), if_neg (not_not.2 hrcode), taken, if_pos (hcomplete.2 ⟨hrcode, hevt⟩),
        ← hget 3 (by decide)]
      rfl
    · rw [if_neg (not_not.2 hevt), if_pos hrcode, taken, if_neg fun h => hrcode (hcomplete.1 h).1]
  · rw [if_pos hevt, taken, if_neg fun h => hevt (hcomplete.1 h).2]

theorem head_readBlock {tl : BitVec 8} {count : ℕ} (hcount : count ≤ kUFOhciMaxReadQuadlets) {p : List Quadlet}
    {arCPU : ℕ → Quadlet} (hp : Txn.Answers ⟨.readBlock count, tl⟩ p) (har : ∀ i < p.length, arCPU i = p.getD i 0) :
    head ⟨.readBlock count, tl⟩ arCPU = some (taken (.readBlock count) p) := by
  obtain ⟨hlabel, htcode, hle, hlen⟩ := hp
  have hget (i : ℕ) (hi : i < p.length) : p.getD i 0 = arCPU i := (har i hi).symm
  rw [hget 0 (by omega)] at hlabel htcode
  rw [hget 3 (by omega)] at hle hlen
  have hlast : p.length - 1 = 4 + (dataLen (arCPU 3) + 3) / 4 := by omega
  have hcomplete : Complete p ↔
      rcodeOf (arCPU 1) = 0 ∧ evtOf (arCPU (4 + (dataLen (arCPU 3) + 3) / 4)) = 0x11 := by
    rw [← hget 1 (by omega), ← hget _ (hlast ▸ by omega), Complete, hlast]
  have hdata : Call.data (.readBlock count) p =
      (List.range count).map fun k => if k * 4 < dataLen (arCPU 3) then arCPU (4 + k) else 0 := by
    refine List.map_congr_left fun k _ => ?_
    rw [hget 3 (by omega)]
    split
    · exact hget _ (by omega)
    · rfl
  have hfits : ¬ 4 + dataLen (arCPU 3) / 4 + 1 > arQuadlets := by
    have h1 : kUFOhciMaxReadQuadlets = 256 := rfl
    have h2 : arQuadlets = 1024 := rfl
    omega
  have hhead : head ⟨.readBlock count, tl⟩ arCPU = if rcodeOf (arCPU 1) ≠ 0 then some .ioError
      else if evtOf (arCPU (4 + (dataLen (arCPU 3) + 3) / 4)) ≠ 0x11 then some .ioError
      else some (.success (Call.data (.readBlock count) p)) := by
    refine (if_pos ⟨htcode, hlabel⟩).trans ?_
    rw [Nat.min_eq_left hle, if_neg hfits, hdata]
  rw [hhead]
  by_cases hrcode : rcodeOf (arCPU 1) = 0
  · rw [if_neg (not_not.2 hrcode)]
    by_cases hevt : evtOf (arCPU (4 + (dataLen (arCPU 3) + 3) / 4)) = 0x11
    · rw [if_neg (not_not.2 hevt), taken, if_pos (hcomplete.2 ⟨hrcode, hevt⟩)]
    · rw [if_pos hevt, taken, if_neg fun h => hevt (hcomplete.1 h).2]
  · rw [if_pos hrcode, taken, if_neg fun h => hrcode (hcomplete.1 h).1]

/-- An own response at the head is taken. -/
theorem head_own {r : Txn} {p : List Quadlet} {arCPU : ℕ → Quadlet} (hread : r.call.isRead = true)
    (hbad : r.call.isBad = false) (hp : r.Answers p) (har : ∀ i < p.length, arCPU i = p.getD i 0) :
    head r arCPU = some (taken r.call p) := by
  obtain ⟨call, tl⟩ := r
  cases call with
  | readQuadlet => exact head_readQuadlet hp har
  | readBlock count =>
    refine head_readBlock ?_ hp har
    simp only [Call.isBad, Bool.or_eq_false_iff, decide_eq_false_iff_not] at hbad
    exact Nat.not_lt.1 hbad.2
  | writeQuadlet => cases hread
  | writeBlock count => cases hread

/-- Another's is not. -/
theorem head_other {r : Txn} {arCPU : ℕ → Quadlet} (h : tlabelOf (arCPU 0) ≠ r.tl.toNat) : head r arCPU = none := by
  unfold head
  split
  · exact if_neg fun hh => h hh.2
  · exact if_neg fun hh => h hh.2
  · rfl
  · rfl

theorem head_empty {r : Txn} {arCPU : ℕ → Quadlet} (h : arCPU 0 = 0) : head r arCPU = none := by
  have htcode : tcode (arCPU 0) = 0 := by
    rw [h]
    rfl
  unfold head
  rw [htcode]
  split
  · exact if_neg fun hh => absurd hh.1 (by decide)
  · exact if_neg fun hh => absurd hh.1 (by decide)
  · rfl
  · rfl

/-! ## What a read returns -/

/-- A read in progress: its request is the last one sent, and the responses since the
last re-arm are to requests that have other labels, or its own. -/
structure Waits (s : Transactor) (r : Txn) : Prop where
  current : s.requests[s.requests.length - 1]? = some r
  good : r.call.isBad = false
  near : ∀ e ∈ s.arrived, s.requests.length ≤ e.1 + 64
  fits : s.arPos ≤ arQuadlets
  fresh : s.arrived = [] → s.arCPU 0 = 0

/-- A read makes of the buffer what it would of the first response alone. -/
theorem head_first (hi : s.Buffered) {r : Txn} (hread : r.call.isRead = true) (hw : s.Waits r) : head r s.arCPU =
    match s.arrived.head? with
    | some (k, p) => if k = s.requests.length - 1 then some (taken r.call p) else none
    | none => none := by
  have hanswers := hi.answers
  have hnear := hw.near
  have hholds := hi.holds hw.fits
  have hpos := hi.pos
  unfold written at hholds hpos
  cases harrived : s.arrived with
  | nil => exact head_empty (hw.fresh harrived)
  | cons e rest =>
    -- nothing was written over the first response, so the head is its header
    obtain ⟨k, p⟩ := e
    rw [harrived] at hanswers hnear hholds hpos
    obtain ⟨r', hr', hp⟩ := hanswers _ List.mem_cons_self
    have hle := hnear _ List.mem_cons_self
    have hlen : p.length ≤ s.arPos := by
      rw [hpos, List.flatMap_cons, List.length_append]
      exact Nat.le_add_right _ _
    have har (i : ℕ) (hlt : i < p.length) : s.arCPU i = p.getD i 0 := by
      rw [hholds i (hlt.trans_le hlen), List.flatMap_cons]
      exact List.getD_append _ _ _ _ hlt
    dsimp only [List.head?_cons]
    split_ifs with hk
    · have heq : r' = r := Option.some.inj (hr'.symm.trans ((congrArg (s.requests[·]?) hk).trans hw.current))
      exact head_own hread hw.good (heq ▸ hp) har
    · -- fewer than 64 requests apart, so with another label
      have hlt : k < s.requests.length := (List.getElem?_eq_some_iff.1 hr').1
      refine head_other ?_
      have h4 : 4 ≤ p.length := answers_length hp
      rw [har 0 (by omega), hp.1, hi.labels _ _ hr', hi.labels _ _ hw.current]
      dsimp only at hle
      omega

/-- What a read that has returned makes of its responses. -/
def Exact (e : Returned) : Prop := ∀ d, e.outcome = .success d ↔
  ∃ p, e.arrived.head? = some (e.request, p) ∧ Complete p ∧ e.call.data p = d

theorem taken_success (call : Call) (p : List Quadlet) (d : List Quadlet) :
    taken call p = .success d ↔ Complete p ∧ call.data p = d := by
  unfold taken
  split_ifs with h
  · simp [h]
  · simp [h]

/-- A poll that finds a response returns what is there. -/
theorem found_exact (hi : s.Buffered) {r : Txn} (hread : r.call.isRead = true) (hw : s.Waits r) {outcome : Outcome}
    (h : head r s.arCPU = some outcome) : Exact ⟨s.requests.length - 1, r.call, outcome, s.arrived⟩ := by
  rw [head_first hi hread hw] at h
  intro d
  dsimp only
  split at h
  · rename_i k p hhead
    split_ifs at h with hk
    · rw [← Option.some.inj h, taken_success, hhead, hk]
      simp
  · cases h

/-- One that times out has an other's response first, or none. -/
theorem timeout_exact (hi : s.Buffered) {r : Txn} (hread : r.call.isRead = true) (hw : s.Waits r)
    (h : head r s.arCPU = none) : Exact ⟨s.requests.length - 1, r.call, .timeout, s.arrived⟩ := by
  rw [head_first hi hread hw] at h
  intro d
  refine ⟨fun hd => (nomatch hd), fun ⟨p, hhead, _⟩ => ?_⟩
  dsimp only at hhead
  rw [hhead] at h
  simp at h

/-! ## The runs -/

/-- The read in progress. -/
def reading : CallPhase → Option Txn
  | .idle => none
  | .sending r _ | .polling r _ => if r.call.isRead then some r else none

/-- Fewer than 64 requests are between a response's and it. -/
def Near (s : Transactor) : TransactorAct → Prop
  | .deliver k _ => s.requests.length ≤ k + 64
  | _ => True

/-- While a read is in progress, what has come since the last re-arm fits in the buffer. -/
def Fits (s : Transactor) : TransactorAct → Prop
  | .deliver _ p => (reading s.phase).isSome = true → s.arPos + p.length ≤ arQuadlets
  | _ => True

instance (s : Transactor) : ∀ a, Decidable (Near s a)
  | .deliver _ _ => inferInstanceAs (Decidable (_ ≤ _))
  | .call _ | .atRun _ | .poll => .isTrue trivial

instance (s : Transactor) : ∀ a, Decidable (Fits s a)
  | .deliver _ _ => inferInstanceAs (Decidable (_ → _))
  | .call _ | .atRun _ | .poll => .isTrue trivial

/-- The buffer holds the responses since the re-arm, and every read returned what its head said. -/
structure Inv (s : Transactor) : Prop where
  buffered : s.Buffered
  waits : ∀ r, reading s.phase = some r → s.Waits r
  exact : ∀ e ∈ s.returned, Exact e

theorem done_inv (hb : s.Buffered) (hexact : ∀ e ∈ s.returned, Exact e) {call : Call} {outcome : Outcome}
    (h : call.isRead = true → Exact ⟨s.requests.length - 1, call, outcome, s.arrived⟩) : (s.done call outcome).Inv where
  buffered := done_buffered hb call outcome
  waits := fun _ h => nomatch h
  exact := by
    intro e he
    simp only [done] at he
    split at he
    · rename_i hread
      rcases List.mem_append.1 he with he | he
      · exact hexact e he
      · exact List.mem_singleton.1 he ▸ h hread
    · exact hexact e he

/-- The read in progress goes on with nothing in the buffer. -/
theorem rearm_waits {r : Txn} (hcurrent : s.requests[s.requests.length - 1]? = some r) (hgood : r.call.isBad = false) :
    s.rearm.Waits r where
  current := hcurrent
  good := hgood
  near := fun _ h => absurd h List.not_mem_nil
  fits := Nat.zero_le _
  fresh := fun _ => rfl

theorem begin_inv (hi : s.Inv) (call : Call) : (s.begin call).Inv := by
  unfold begin
  split
  · exact hi
  · rename_i hgood
    have hb := request_buffered hi.buffered call (.sending ⟨call, s.tlabel &&& 0x3f⟩ 0)
    have hwaits : Waits (rearm { s with
        tlabel := s.tlabel + 1
        phase := .sending ⟨call, s.tlabel &&& 0x3f⟩ 0
        requests := s.requests ++ [⟨call, s.tlabel &&& 0x3f⟩] }) ⟨call, s.tlabel &&& 0x3f⟩ :=
      rearm_waits (by simp) (by simpa using hgood)
    cases call with
    | writeQuadlet => exact ⟨hb, fun _ h => (nomatch h), hi.exact⟩
    | readQuadlet | readBlock count =>
      refine ⟨rearm_buffered hb, fun r hr => ?_, hi.exact⟩
      cases hr
      exact hwaits
    | writeBlock count => exact ⟨rearm_buffered hb, fun _ h => (nomatch h), hi.exact⟩

/-- What a read had when it sent its request it has when it polls. -/
theorem Waits.phase {r : Txn} (h : s.Waits r) (phase : CallPhase) : Waits { s with phase } r :=
  ⟨h.current, h.good, h.near, h.fits, h.fresh⟩

theorem Buffered.phase (h : s.Buffered) (phase : CallPhase) : Buffered { s with phase } :=
  ⟨h.tlabel, h.labels, h.answers, h.pos, h.holds⟩

theorem outcome_ne {result : AtRun} {outcome : Outcome} (h : result.outcome = some outcome) (d : List Quadlet) :
    outcome ≠ .success d := by
  cases result with
  | evt e =>
    simp only [AtRun.outcome] at h
    split at h
    · cases h
    · cases h
      exact Outcome.noConfusion
  | dead | timeout =>
    cases h
    exact Outcome.noConfusion

theorem sent_inv (hi : s.Inv) {r : Txn} {attempt : ℕ} (hphase : s.phase = .sending r attempt) (result : AtRun) :
    (s.sent result r attempt).Inv := by
  have hwaits := hi.waits
  rw [hphase] at hwaits
  unfold sent
  split
  · split
    · rename_i hread
      refine ⟨hi.buffered.phase _, fun r' hr' => ?_, hi.exact⟩
      rw [← show reading (.sending r attempt) = reading (.polling r 0) from rfl] at hr'
      exact (hwaits r' hr').phase _
    · rename_i hwrite
      exact done_inv hi.buffered hi.exact fun h => absurd h hwrite
  · rename_i outcome houtcome
    split
    · rename_i hwrite
      refine done_inv hi.buffered hi.exact fun h => ?_
      rw [hwrite] at h
      cases h
    · split
      · refine ⟨(rearm_buffered hi.buffered).phase _, fun r' hr' => ?_, hi.exact⟩
        have hw := hwaits r' hr'
        exact (rearm_waits hw.current hw.good).phase _
      · refine done_inv (rearm_buffered hi.buffered) hi.exact fun _ d => ?_
        exact ⟨fun h => absurd h (outcome_ne houtcome d), fun ⟨p, hhead, _⟩ => (nomatch hhead)⟩

theorem poll_inv (hi : s.Inv) {r : Txn} {i : ℕ} (hphase : s.phase = .polling r i) : (s.poll r i).Inv := by
  have hwaits := hi.waits
  rw [hphase] at hwaits
  unfold poll
  split
  · rename_i outcome hhead
    refine done_inv hi.buffered hi.exact fun hread => ?_
    exact found_exact hi.buffered hread (hwaits r (if_pos hread)) hhead
  · rename_i hhead
    split
    · exact ⟨hi.buffered.phase _, fun r' hr' => (hwaits r' hr').phase _, hi.exact⟩
    · refine done_inv hi.buffered hi.exact fun hread => ?_
      exact timeout_exact hi.buffered hread (hwaits r (if_pos hread)) hhead

theorem deliver_inv (hi : s.Inv) {k : ℕ} {p : List Quadlet} {r : Txn} (hr : s.requests[k]? = some r) (hp : r.Answers p)
    (hnear : Near s (.deliver k p)) (hfits : Fits s (.deliver k p)) : (s.deliver k p).Inv where
  buffered := deliver_buffered hi.buffered hr hp
  waits := by
    intro r' hr'
    have hw := hi.waits r' hr'
    refine ⟨hw.current, hw.good, fun e he => ?_, ?_, ?_⟩
    · rcases List.mem_append.1 he with he | he
      · exact hw.near e he
      · rw [List.mem_singleton.1 he]
        exact hnear
    · refine hfits ?_
      rw [show reading s.phase = some r' from hr']
      rfl
    · intro h
      simp [deliver] at h
  exact := hi.exact

theorem step_inv (s : Transactor) (a : TransactorAct) (t : Transactor) (hi : s.Inv) (hok : Near s a ∧ Fits s a)
    (h : s.step a = some t) : t.Inv := by
  unfold step at h
  split at h
  · cases h
    exact begin_inv hi _
  · rename_i hphase
    cases h
    exact sent_inv hi hphase _
  · rename_i hphase
    cases h
    exact poll_inv hi hphase
  · split at h
    · rename_i r hr
      split_ifs at h with hp
      cases h
      exact deliver_inv hi hr hp hok.1 hok.2
    · cases h
  · cases h

theorem start_inv (arCPU : ℕ → Quadlet) : (start arCPU).Inv where
  buffered := ⟨rfl, fun _ _ h => (nomatch h), fun _ h => absurd h List.not_mem_nil, rfl,
    fun _ i h => absurd h (Nat.not_lt_zero i)⟩
  waits := fun _ h => nomatch h
  exact := fun _ h => absurd h List.not_mem_nil

/-- A read succeeds with the data of a response to it. -/
def Own (e : Returned) : Prop :=
  ∀ d, e.outcome = .success d → ∃ p, (e.request, p) ∈ e.arrived ∧ e.call.data p = d

/-- A read whose response came succeeds with the data of it. -/
def Finds (e : Returned) : Prop :=
  ∀ p, (e.request, p) ∈ e.arrived → Complete p → e.outcome = .success (e.call.data p)

/-- A response to the read, if one came, is what came first. -/
def First (e : Returned) : Prop :=
  ∀ p, (e.request, p) ∈ e.arrived → Complete p →
    ∃ q, e.arrived.head? = some (e.request, q) ∧ Complete q ∧ e.call.data q = e.call.data p

/-- For every run of calls and every order of responses, fewer than 64 requests from
their own, that fit in the buffer while a read is in progress: no read returns the
data of a response that is not to it, and a read finds its response exactly if that
is the first since the buffer was last re-armed. -/
theorem first_response {arCPU : ℕ → Quadlet} {as : List TransactorAct} {s : Transactor}
    (hm : Meets step (fun s a => Near s a ∧ Fits s a) (start arCPU) as) (h : run step (start arCPU) as = some s) :
    ∀ e ∈ s.returned, Own e ∧ (Finds e ↔ First e) := by
  have hi := hm.inv Inv step_inv h (start_inv arCPU)
  intro e he
  have hexact := hi.exact e he
  refine ⟨fun d hd => ?_, fun hfinds p hp hcomplete => ?_, fun hfirst p hp hcomplete => ?_⟩
  · obtain ⟨p, hhead, -, hdata⟩ := (hexact d).1 hd
    exact ⟨p, List.mem_of_head? hhead, hdata⟩
  · exact (hexact _).1 (hfinds p hp hcomplete)
  · exact (hexact _).2 (hfirst p hp hcomplete)

/-- The response to a write, and to the read after it. -/
def writeResponse : List Quadlet := [0x120, 0, 0, 0x00110000]

/-- A response to the first label, of one quadlet. -/
def readResponse : List Quadlet := [0x560, 0, 0, 0x12345678, 0x00110000]

/-- The response to the write comes before the read re-arms. -/
def readAfter : List TransactorAct :=
  [.call .writeQuadlet, .atRun (.evt 0x12), .deliver 0 writeResponse, .call .readQuadlet, .atRun (.evt 0x12), .poll,
    .deliver 1 readResponse, .poll]

theorem first_response_read : ∃ s, run step (start fun _ => 0) readAfter = some s ∧
    s.returned.map (·.outcome) = [.success [0x12345678]] ∧ ∀ e ∈ s.returned, Own e ∧ (Finds e ↔ First e) := by
  have h : (run step (start fun _ => 0) readAfter).map (·.returned.map (·.outcome)) = some [.success [0x12345678]] := by
    decide
  have hm : Meets step (fun s a => Near s a ∧ Fits s a) (start fun _ => 0) readAfter := by decide
  obtain ⟨s, hrun, houtcome⟩ := Option.map_eq_some_iff.1 h
  exact ⟨s, hrun, houtcome, first_response hm hrun⟩

/-- It comes after, and before the response to the read. -/
def readBehind : List TransactorAct :=
  [.call .writeQuadlet, .atRun (.evt 0x12), .call .readQuadlet, .atRun (.evt 0x12), .deliver 0 writeResponse,
    .deliver 1 readResponse] ++ List.replicate 100 .poll

/-- The read times out with its response in the buffer. -/
theorem hidden_response : Meets step Near (start fun _ => 0) readBehind ∧
    ∃ s, run step (start fun _ => 0) readBehind = some s ∧ ∃ e ∈ s.returned,
      (e.request, readResponse) ∈ e.arrived ∧ Complete readResponse ∧ e.outcome = .timeout ∧ ¬ Finds e := by
  have h : (run step (start fun _ => 0) readBehind).map (·.returned.map fun e => (e.request, e.arrived, e.outcome)) =
      some [(1, [(0, writeResponse), (1, readResponse)], .timeout)] := by rfl
  have hcomplete : Complete readResponse := by decide
  obtain ⟨s, hrun, hs⟩ := Option.map_eq_some_iff.1 h
  obtain ⟨e, he, heq⟩ := List.mem_map.1 (hs ▸ List.mem_singleton_self _)
  simp only [Prod.mk.injEq] at heq
  obtain ⟨hrequest, harrived, houtcome⟩ := heq
  have hmem : (e.request, readResponse) ∈ e.arrived := by
    rw [hrequest, harrived]
    decide
  refine ⟨by decide +kernel, s, hrun, e, he, hmem, hcomplete, houtcome, fun hfinds => ?_⟩
  have hsuccess := hfinds readResponse hmem hcomplete
  rw [houtcome] at hsuccess
  cases hsuccess

end Transactor

end UserFace800.Dext
