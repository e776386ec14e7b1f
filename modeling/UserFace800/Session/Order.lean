import UserFace800.Lib.Script
import UserFace800.Control.Daemon
import UserFace800.Dext.Dma
import UserFace800.Session.TxPacing
import Mathlib.Data.Finset.Range
import Mathlib.Data.Finset.Max
/-!
# The order of a session's operations

A session is brought up in an order the device depends on, and taken down in another: fetch
disabled, the format, comm-start, the two contexts, fetch enabled; fetch disabled, the
contexts stopped, comm-stop. A device that fetches with no stream plays noise. The daemon
can be killed between any two operations, and the next one begins with whatever it left: the
contexts run on in the driver.

`session_order` is that all the same, at no point of any run, the device fetches a channel
without a stream to fetch it from; but a daemon that follows one that was killed must not
begin with fewer channels (`narrower_start`).
-/
open UserFace800.Lib UserFace800.Protocol UserFace800.Control

namespace UserFace800.Session

/-- What the daemon does to the device, and to the contexts of the driver. -/
inductive SessionOp where
  | write (w : DevWrite)
  | isoStop
  | isoTxStop
  | isoStartCont (channel : Quadlet)
  | isoTxStart (channel fullPayload fullCount : ℕ)

/-- The channels the device fetches, whether it was told to start, the format it was given,
and the channels and formats of the two contexts that run. -/
structure StreamState where
  fetch : Finset ℕ := ∅
  comm : Bool := false
  format : List Quadlet := []
  capture : Option Quadlet := none
  transmit : Option (ℕ × ℕ × ℕ) := none

namespace StreamState

/-- The fetch mask has a quadlet for each channel; 0 is to fetch it. -/
def setFetch (v : StreamState) (mask : List Quadlet) : StreamState :=
  { v with fetch := v.fetch.filter (mask.length ≤ ·) ∪ (Finset.range mask.length).filter (mask[·]? = some 0) }

/-- What an operation does to the device or to a context. -/
def exec (v : StreamState) : SessionOp → StreamState
  | .write (.quadlet a x) => if a = Reg.kInitBankStart then { v with comm := x.msb } else v
  | .write (.block a xs) =>
    if a = Reg.kStatus0 then v.setFetch xs
    else if a = Reg.kInitBankStream then { v with format := xs }
    else if a = Reg.kInitBankStop then { v with comm := false }
    else v
  | .isoStop => { v with capture := none }
  | .isoTxStop => { v with transmit := none }
  | .isoStartCont channel => { v with capture := some channel }
  | .isoTxStart channel fullPayload fullCount =>
    if fullPayload = 0 ∨ Dext.kUFOhciTxSlotBytes < fullPayload ∨ Dext.kITPackets < fullCount then v
    else { v with transmit := some (channel, fullPayload, fullCount) }

variable {v : StreamState} (mask : List Quadlet)

@[simp] theorem exec_fetch : v.exec (.write (.block Reg.kStatus0 mask)) = v.setFetch mask := rfl

@[simp] theorem exec_format : v.exec (.write (.block Reg.kInitBankStream mask)) = { v with format := mask } := rfl

@[simp] theorem exec_commStop : v.exec (.write (.block Reg.kInitBankStop mask)) = { v with comm := false } := rfl

@[simp] theorem exec_commStart (x : Quadlet) :
    v.exec (.write (.quadlet Reg.kInitBankStart x)) = { v with comm := x.msb } := rfl

end StreamState

/-- `session_stop` of a session of `dbq` channels. -/
def stopOps (dbq : ℕ) : List SessionOp :=
  [.write (.block Reg.kStatus0 (List.replicate dbq 1)), .isoStop, .isoTxStop,
    .write (.block Reg.kInitBankStop [0, 0, 0])]

/-- `session_start` once the device has published its channel: the matrix, comm-start, the
contexts, fetch. -/
def upOps (d : Daemon) (rate channel : Quadlet) : List SessionOp :=
  let g := Geometry.ofRate rate
  (d.model.render.applyAll.map fun w => .write (.quadlet w.addr w.value)) ++
    [.write (.quadlet Reg.kInitBankStart (0x80000000 ||| BitVec.ofNat 32 g.dbq ||| 0x800)), .isoStartCont channel,
      .isoTxStart 1 g.fullPayload g.fullCount, .write (.block Reg.kStatus0 (List.replicate g.dbq 0))]

/-- `session_start`; `channel` is what the device publishes in time, if it does. -/
def startOps (d : Daemon) (rate : Quadlet) (channel : Option Quadlet) : List SessionOp :=
  if isSupportedRate rate then
    (d.setupWrites rate).map .write ++ match channel with
      | some channel => upOps d rate channel
      | none => []
  else []

theorem Geometry.ofRate_dbq (rate : Quadlet) : (Geometry.ofRate rate).dbq = dataBlockQuadlets (speedForRate rate) := by
  unfold ofRate
  split <;> rfl

/-- The register write it is, if it is one. -/
def SessionOp.toWrite : SessionOp → Option DevWrite
  | .write w => some w
  | _ => none

theorem stopOps_writes (d : Daemon) : (stopOps d.dbq).filterMap SessionOp.toWrite = d.stopWrites := rfl

theorem filterMap_writes (ws : List DevWrite) : (ws.map SessionOp.write).filterMap SessionOp.toWrite = ws := by
  rw [List.filterMap_map]
  exact List.filterMap_some

/-- The register writes are those of the control plane's model. -/
theorem startOps_writes (d : Daemon) {rate : Quadlet} (hrate : isSupportedRate rate = true) (channel : Quadlet) :
    (startOps d rate (some channel)).filterMap SessionOp.toWrite = d.setupWrites rate ++ d.applyWrites rate := by
  have hmatrix := filterMap_writes (d.model.render.applyAll.map fun w => .quadlet w.addr w.value)
  rw [List.map_map] at hmatrix
  unfold startOps
  rw [if_pos hrate, List.filterMap_append, filterMap_writes]
  refine congrArg (d.setupWrites rate ++ ·) ?_
  simp only [upOps, Daemon.applyWrites, List.filterMap_append, ← Geometry.ofRate_dbq]
  exact congrArg₂ (· ++ ·) hmatrix rfl

/-- A daemon and its device: what is left of the operations it carries out, the channels of
its `ses`, and the rate and channel of the session these operations bring up, if they do. -/
structure Lifecycle where
  streams : StreamState := {}
  todo : List SessionOp := []
  ses : Option ℕ := none
  session : Option (Quadlet × Quadlet) := none

/-- The mixer and the settings are what they are by the time of a session start. -/
inductive LifeAct where
  | op
  | start (d : Daemon) (rate : Quadlet) (channel : Option Quadlet)
  | restart (d : Daemon) (rate : Quadlet) (channel : Option Quadlet)
  | stop
  /-- The daemon is killed, or crashes, and another takes its place. -/
  | killed

namespace Lifecycle

/-- The session that a start brings up. -/
def outcome (rate : Quadlet) (channel : Option Quadlet) : Option (Quadlet × Quadlet) :=
  if isSupportedRate rate then channel.map (rate, ·) else none

/-- `ses` is assigned when the start has returned. -/
def adopt (s : Lifecycle) : Lifecycle :=
  match s.todo, s.session with
  | [], some (rate, _) => { s with ses := some (Geometry.ofRate rate).dbq }
  | _, _ => s

/-- The daemon starts, restarts and stops a session, one operation after another, and may be
killed. -/
def step (s : Lifecycle) : LifeAct → Option Lifecycle
  | .op =>
    match s.todo with
    | op :: ops => some { s with streams := s.streams.exec op, todo := ops }.adopt
    | [] => none
  | .start d rate channel =>
    if s.todo = [] ∧ s.ses = none then
      some { s with todo := startOps d rate channel, session := outcome rate channel }
    else none
  | .restart d rate channel =>
    match s.todo, s.ses with
    | [], some dbq => some { s with todo := stopOps dbq ++ startOps d rate channel, session := outcome rate channel }
    | _, _ => none
  | .stop =>
    match s.todo, s.ses with
    | [], some dbq => some { s with todo := stopOps dbq, session := none }
    | _, _ => none
  | .killed => some { streams := s.streams }

/-- The first session of a daemon has all the channels that are fetched. -/
def Wide (s : Lifecycle) : LifeAct → Prop
  | .start _ rate _ => ∀ c ∈ s.streams.fetch, c < (Geometry.ofRate rate).dbq
  | _ => True

instance (s : Lifecycle) : ∀ a, Decidable (s.Wide a)
  | .start _ _ _ => inferInstanceAs (Decidable (∀ c ∈ _, _))
  | .op | .restart _ _ _ | .stop | .killed => .isTrue trivial

end Lifecycle

/-! ## What each script does -/

namespace StreamState

variable {v : StreamState}

/-- What must hold between any two operations: what is fetched is streamed, and what is
streamed was started. -/
structure Safe (v : StreamState) : Prop where
  fetch : v.fetch.Nonempty → v.comm = true ∧ v.capture.isSome ∧ v.transmit.isSome
  comm : v.capture.isSome ∨ v.transmit.isSome → v.comm = true

/-- A session at this rate, on this channel. -/
structure Streaming (v : StreamState) (rate channel : Quadlet) : Prop where
  fetch : v.fetch = Finset.range (Geometry.ofRate rate).dbq
  comm : v.comm = true
  format : v.format = [rate, (BitVec.ofNat 32 (Geometry.ofRate rate).dbq <<< 11) ||| 1,
    BitVec.ofNat 32 (Geometry.ofRate rate).dbq ||| 0x800]
  capture : v.capture = some channel
  transmit : v.transmit = some (1, (Geometry.ofRate rate).fullPayload, (Geometry.ofRate rate).fullCount)

theorem Safe.of_empty (hf : v.fetch = ∅) (hc : v.capture.isSome ∨ v.transmit.isSome → v.comm = true) : v.Safe :=
  ⟨fun h => by simp [hf] at h, hc⟩

theorem setFetch_ones {n : ℕ} (h : ∀ c ∈ v.fetch, c < n) : (v.setFetch (List.replicate n 1)).fetch = ∅ := by
  simp only [setFetch, List.length_replicate]
  refine Finset.union_eq_empty.2 ⟨Finset.filter_eq_empty_iff.2 fun c hc => Nat.not_le.2 (h c hc), ?_⟩
  refine Finset.filter_eq_empty_iff.2 fun c hc => ?_
  rw [List.getElem?_replicate, if_pos (Finset.mem_range.1 hc)]
  decide

theorem setFetch_zeros {n : ℕ} (h : v.fetch = ∅) : (v.setFetch (List.replicate n 0)).fetch = Finset.range n := by
  simp only [setFetch, List.length_replicate, h, Finset.filter_empty, Finset.empty_union]
  refine Finset.filter_true_of_mem fun c hc => ?_
  rw [List.getElem?_replicate, if_pos (Finset.mem_range.1 hc)]

/-- `session_stop` ends in silence. -/
theorem Safe.stop_along {n : ℕ} (hs : v.Safe) (h : ∀ c ∈ v.fetch, c < n) :
    Along exec Safe (fun u => u.fetch = ∅) v (stopOps n) := by
  have hoff := setFetch_ones h
  refine along_cons.2 ⟨hs, along_cons.2 ⟨?_, along_cons.2 ⟨?_, along_cons.2 ⟨?_, along_nil.2 ⟨?_, hoff⟩⟩⟩⟩⟩
  · exact .of_empty hoff hs.comm
  · exact .of_empty hoff fun h => hs.comm (.inr (h.resolve_left (by simp [exec])))
  · exact .of_empty hoff fun h => absurd h (by simp [exec])
  · exact .of_empty hoff fun h => absurd h (by rw [exec_commStop]; simp [exec])

/-- The writes up to the wait for the channel leave nothing fetched. -/
theorem Safe.setup_along {d : Daemon} {rate : Quadlet} (hs : v.Safe)
    (h : ∀ c ∈ v.fetch, c < (Geometry.ofRate rate).dbq) : Along exec Safe (fun u => u.fetch = ∅ ∧
      u.format = [rate, (BitVec.ofNat 32 (Geometry.ofRate rate).dbq <<< 11) ||| 1,
        BitVec.ofNat 32 (Geometry.ofRate rate).dbq ||| 0x800]) v ((d.setupWrites rate).map .write) := by
  rw [Geometry.ofRate_dbq] at h ⊢
  have hoff := setFetch_ones h
  have hsafe := Safe.of_empty hoff hs.comm
  -- the host LED, the conf block, fetch, the record mask, the format
  exact along_cons.2 ⟨hs, along_cons.2 ⟨hs, along_cons.2 ⟨hs, along_cons.2 ⟨hsafe, along_cons.2 ⟨hsafe,
    along_nil.2 ⟨.of_empty hoff hs.comm, hoff, rfl⟩⟩⟩⟩⟩⟩

/-- `IsoTxStart` accepts what `session_start` gives it at each supported rate. -/
theorem exec_isoTxStart (v : StreamState) {rate : Quadlet} (h : isSupportedRate rate = true) :
    v.exec (.isoTxStart 1 (Geometry.ofRate rate).fullPayload (Geometry.ofRate rate).fullCount) =
      { v with transmit := some (1, (Geometry.ofRate rate).fullPayload, (Geometry.ofRate rate).fullCount) } := by
  have hfits : ∀ r ∈ kRates, ¬((Geometry.ofRate r.1).fullPayload = 0 ∨
      Dext.kUFOhciTxSlotBytes < (Geometry.ofRate r.1).fullPayload ∨
      Dext.kITPackets < (Geometry.ofRate r.1).fullCount) := by
    decide
  obtain ⟨r, hr, he⟩ := List.any_eq_true.1 h
  exact if_neg (beq_iff_eq.1 he ▸ hfits r hr)

/-- The rest of `session_start`, from a device that fetches nothing. -/
theorem up_along (d : Daemon) (channel : Quadlet) {rate : Quadlet} (hrate : isSupportedRate rate = true) (hs : v.Safe)
    (hoff : v.fetch = ∅) (hformat : v.format = [rate, (BitVec.ofNat 32 (Geometry.ofRate rate).dbq <<< 11) ||| 1,
      BitVec.ofNat 32 (Geometry.ofRate rate).dbq ||| 0x800]) :
    Along exec Safe (fun u => u.Streaming rate channel) v (upOps d rate channel) := by
  have hmatrix : ∀ op ∈ d.model.render.applyAll.map fun w => SessionOp.write (.quadlet w.addr w.value),
      v.exec op = v := by
    intro op hop
    obtain ⟨w, hw, rfl⟩ := List.mem_map.1 hop
    obtain ⟨i, -, rfl⟩ := List.mem_map.1 hw
    refine if_neg ?_
    have := i.isLt
    simp only [Reg.kMixerRam, Reg.kInitBankStart, Mixer.kCells] at this ⊢
    omega
  rw [upOps, along_append]
  generalize (d.model.render.applyAll.map fun w => SessionOp.write (.quadlet w.addr w.value)) = matrix at hmatrix
  refine Along.idle hs ?_ hmatrix
  have hmsb : (0x80000000 ||| BitVec.ofNat 32 (Geometry.ofRate rate).dbq ||| 0x800 : Quadlet).msb = true := by
    simp only [BitVec.msb_or, Bool.or_eq_true]
    exact .inl (.inl rfl)
  rw [along_cons, along_cons, along_cons, along_cons, along_nil, exec_commStart, hmsb, exec_isoTxStart _ hrate,
    exec_fetch]
  have hfetch := setFetch_zeros (n := (Geometry.ofRate rate).dbq) hoff
  exact ⟨hs, .of_empty hoff fun _ => rfl, .of_empty hoff fun _ => rfl, .of_empty hoff fun _ => rfl,
    ⟨fun _ => ⟨rfl, rfl, rfl⟩, fun _ => rfl⟩, hfetch, rfl, hformat, rfl, rfl⟩

/-- `session_start` on a device that fetches no more channels than it has at this rate. -/
theorem Safe.start_along {d : Daemon} {rate : Quadlet} {channel : Option Quadlet} (hs : v.Safe)
    (h : ∀ c ∈ v.fetch, c < (Geometry.ofRate rate).dbq) : Along exec Safe (fun u =>
      match Lifecycle.outcome rate channel with
      | some (rate, channel) => u.Streaming rate channel
      | none => v.fetch = ∅ → u.fetch = ∅) v (startOps d rate channel) := by
  unfold startOps Lifecycle.outcome
  by_cases hrate : isSupportedRate rate = true
  · rw [if_pos hrate, if_pos hrate, along_append]
    refine (hs.setup_along h).mono fun u hu hend => ?_
    cases channel with
    | none => exact along_nil.2 ⟨hu, fun _ => hend.1⟩
    | some channel =>
      exact up_along d channel hrate hu hend.1 hend.2
  · rw [if_neg hrate, if_neg hrate]
    exact along_nil.2 ⟨hs, id⟩

end StreamState

namespace Lifecycle

variable {s t : Lifecycle}

/-- What the operations under way end in. -/
def Ends (s : Lifecycle) (v : StreamState) : Prop :=
  match s.session with
  | some (rate, channel) => v.Streaming rate channel
  | none => ∀ dbq, s.ses = some dbq → ∀ c ∈ v.fetch, c < dbq

/-- The operations to come keep the device safe at each of them, and end as they should. -/
structure Inv (s : Lifecycle) : Prop where
  along : Along StreamState.exec StreamState.Safe s.Ends s.streams s.todo
  ses : s.todo = [] → ∀ r ∈ s.session, s.ses = some (Geometry.ofRate r.1).dbq

/-- Of a session that has ended or is up, only its channels are fetched. -/
theorem Inv.fetch (hi : s.Inv) (htodo : s.todo = []) {dbq : ℕ} (hses : s.ses = some dbq) :
    ∀ c ∈ s.streams.fetch, c < dbq := by
  have hends : s.Ends s.streams := by
    have := hi.along
    rw [htodo, along_nil] at this
    exact this.2
  unfold Ends at hends
  split at hends
  next r c hr =>
    obtain rfl := Option.some.inj (hses.symm.trans (hi.ses htodo _ hr))
    intro c hc
    rw [hends.fetch] at hc
    exact Finset.mem_range.1 hc
  next => exact hends dbq hses

theorem startOps_ne {d : Daemon} {rate : Quadlet} {channel : Option Quadlet} {r : Quadlet × Quadlet}
    (h : outcome rate channel = some r) : startOps d rate channel ≠ [] := by
  unfold outcome at h
  split at h
  next hrate =>
    unfold startOps
    rw [if_pos hrate]
    exact List.append_ne_nil_of_left_ne_nil (List.cons_ne_nil _ _) _
  next => cases h

theorem start_inv : ({} : Lifecycle).Inv where
  along := along_nil.2 ⟨.of_empty rfl fun h => h.elim nofun nofun, nofun⟩
  ses _ _ h := nomatch h

theorem adopt_inv (h : Along StreamState.exec StreamState.Safe s.Ends s.streams s.todo) : s.adopt.Inv := by
  unfold adopt
  split
  next r c htodo hr =>
    refine ⟨h.mono fun u _ hu => ?_, fun _ x hx => ?_⟩
    · simpa only [Ends, hr] using hu
    · cases hr.symm.trans hx
      rfl
  next hnot => exact ⟨h, fun htodo x hx => absurd htodo fun htodo => hnot x.1 x.2 htodo hx⟩

theorem step_inv (s : Lifecycle) (a : LifeAct) (t : Lifecycle) (hi : s.Inv) (hok : s.Wide a) (h : s.step a = some t) :
    t.Inv := by
  cases a with
  | op =>
    cases htodo : s.todo with
    | nil => simp [step, htodo] at h
    | cons op ops =>
      simp only [step, htodo, Option.some.injEq] at h
      subst h
      have := hi.along
      rw [htodo, along_cons] at this
      exact adopt_inv this.2
  | start d rate channel =>
    simp only [step, Option.ite_none_right_eq_some, Option.some.injEq] at h
    obtain ⟨⟨-, hses⟩, rfl⟩ := h
    refine ⟨(hi.along.now.start_along hok).mono fun u _ hu => ?_, fun htodo x hx => absurd htodo (startOps_ne hx)⟩
    dsimp only [Ends]
    split at hu
    next => exact hu
    next => exact fun dbq h => nomatch hses.symm.trans h
  | restart d rate channel =>
    simp only [step] at h
    split at h
    next dbq htodo hses =>
      obtain rfl := Option.some.inj h
      refine ⟨along_append.2 ((hi.along.now.stop_along (hi.fetch htodo hses)).mono fun v hv hoff => ?_),
        fun htodo => absurd htodo (List.append_ne_nil_of_left_ne_nil (List.cons_ne_nil _ _) _)⟩
      refine (hv.start_along fun c hc => by simp [hoff] at hc).mono fun u _ hu => ?_
      dsimp only [Ends]
      split at hu
      next => exact hu
      next =>
        intro _ _ c hc
        simp [hu hoff] at hc
    next => cases h
  | stop =>
    simp only [step] at h
    split at h
    next dbq htodo hses =>
      obtain rfl := Option.some.inj h
      refine ⟨(hi.along.now.stop_along (hi.fetch htodo hses)).mono fun v _ hoff => ?_, fun _ _ h => (nomatch h)⟩
      intro _ _ c hc
      simp [hoff] at hc
    next => cases h
  | killed =>
    cases h
    exact ⟨along_nil.2 ⟨hi.along.now, fun _ h => (nomatch h)⟩, fun _ _ h => (nomatch h)⟩

/-- In every run of daemons on one device, each started, restarted, stopped and killed
between any two operations, with the rates and mixers they have by then and channels
published or not, as long as none that follows a killed one begins with fewer channels than
are fetched: nothing is fetched that is not streamed, and nothing streamed that was not
started; and when a start has returned a session, both ends have its format. -/
theorem session_order {as : List LifeAct} (hm : Meets step Wide {} as) (h : run step {} as = some s) :
    s.streams.Safe ∧ (s.todo = [] → ∀ r ∈ s.session, s.streams.Streaming r.1 r.2) := by
  have hi := hm.inv Inv step_inv h start_inv
  refine ⟨hi.along.now, fun htodo r hr => ?_⟩
  have halong := hi.along
  rw [htodo, along_nil] at halong
  have hends := halong.2
  rw [Ends, show s.session = some (r.1, r.2) from hr] at hends
  exact hends

/-- A daemon is killed in its first session start; the next finds no channel at first. -/
def cutOff (d : Daemon) : List LifeAct :=
  [.start d 48000 (some 3), .op, .op, .op, .killed, .start d 48000 none, .op, .op, .op, .op, .op,
    .start d 48000 (some 5)]

theorem session_order_cutOff :
    ∃ s, run step {} (cutOff (.boot false .absent none) ++ List.replicate 2057 .op) = some s ∧
    s.streams.Safe ∧ s.streams.Streaming 48000 5 := by
  have hr : (run step {} (cutOff (.boot false .absent none) ++ List.replicate 2057 .op)).map (fun s =>
      (s.todo.length, s.session)) = some (0, some (48000, 5)) := by decide +kernel
  obtain ⟨s, hs, hsame⟩ := Option.map_eq_some_iff.1 hr
  obtain ⟨htodo, hsession⟩ := Prod.mk.inj hsame
  have hm : Meets step Wide {} (cutOff (.boot false .absent none) ++ List.replicate 2057 .op) := by
    obtain ⟨u, hu, -⟩ := Option.bind_eq_some_iff.1 ((run_append _ _ _).symm.trans hs)
    exact (meets_append hu _).2 ⟨by decide +kernel, .of_forall fun a ha _ => (List.eq_of_mem_replicate ha) ▸ trivial⟩
  obtain ⟨hsafe, hup⟩ := session_order hm hs
  exact ⟨s, hs, hsafe, hup (List.length_eq_zero_iff.1 htodo) _ hsession⟩

/-- After a session of 28 channels was killed, one of 12 leaves the others fetched when it
stops its contexts. -/
def narrower (d : Daemon) : List LifeAct :=
  [.start d 48000 (some 3)] ++ List.replicate 2057 .op ++ [.killed, .start d 192000 (some 3)] ++
  List.replicate 2057 .op ++
    [.stop, .op, .op, .op]

theorem narrower_start : ∃ s, run step {} (narrower (.boot false .absent none)) = some s ∧ ¬s.streams.Safe := by
  have hr : (run step {} (narrower (.boot false .absent none))).map (fun s =>
      (s.streams.fetch.card, s.streams.transmit.isSome)) = some (16, false) := by decide +kernel
  obtain ⟨s, hs, hsame⟩ := Option.map_eq_some_iff.1 hr
  obtain ⟨hfetch, hsilent⟩ := Prod.mk.inj hsame
  refine ⟨s, hs, fun hsafe => ?_⟩
  have := (hsafe.fetch (Finset.card_pos.1 (by omega))).2.2
  simp [hsilent] at this

end Lifecycle

end UserFace800.Session
