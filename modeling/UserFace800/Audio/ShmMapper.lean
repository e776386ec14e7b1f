import UserFace800.Lib.Run
import Mathlib.Logic.Function.Basic
import Mathlib.Data.List.Perm.Basic
/-!
# Staying attached to the daemon's rings

`ShmMapper`: the daemon unlinks and re-creates both rings whenever it starts, so a
thread of the plugin maps each ring by name every half second and compares the run
ids written into the rings. A newer ring replaces the mapping in use; the old one is
unmapped five seconds later, for an IO callback may still be inside it.

Addresses are numbers that `mmap` hands out again once they are unmapped, so every
mapping has a serial number as well, which the plugin does not see. `shm_mapper_safe`
says that no callback of up to five seconds loses the ring it loaded and that nothing
is unmapped twice, in use, or never.
-/
open UserFace800.Lib

namespace UserFace800.Audio

/-- `kCaptureName` and `kPlaybackName`. -/
inductive RingName where
  | capture | playback
  deriving DecidableEq

/-- The words of a shared-memory object the mapper and its hook touch. -/
structure RingObject where
  magic : BitVec 32 := 0
  instanceId : BitVec 64 := 0
  requestedRate : BitVec 32 := 0
  requestSeq : BitVec 64 := 0

/-- `kMagic` of a ring, "UFR3". -/
def kMagic : BitVec 32 := 0x55465233

/-- A mapping: which object it shows and its serial number. -/
structure Mapping where
  object : ℕ
  serial : ℕ

/-- Where the thread is. `refresh` opens the object, maps it as a probe, reads the
magic, compares the run ids, exchanges the pointer, retires the old mapping and, for
the capture ring, runs the hook, a store and an increment; `reap` walks the retired
list with one reading of the clock. -/
inductive Poll where
  | sleeping
  | refresh (m : RingName)
  | opened (m : RingName) (object : ℕ)
  | probed (m : RingName) (probe : ℕ)
  | checked (m : RingName) (probe : ℕ)
  | swapping (m : RingName) (probe : ℕ)
  | swapped (m : RingName) (old : Option ℕ)
  | attached (m : RingName)
  | requested
  | polled
  | reaping (now : ℕ) (i : ℕ)
  deriving DecidableEq

/-- An IO callback: the ring it loaded, when, and the serial of that mapping. -/
structure Callback where
  ring : ℕ
  serial : ℕ
  start : ℕ

/-- The ring objects, the mappings of the plugin's process, and where its poll is. -/
structure ShmMapper where
  now : ℕ := 0
  linked : RingName → Option ℕ := fun _ => none
  objects : ℕ → RingObject := fun _ => {}
  created : ℕ := 0
  maps : ℕ → Option Mapping := fun _ => none
  mapped : ℕ := 0
  ring : RingName → Option ℕ := fun _ => none
  retired : List (ℕ × ℕ) := []
  poll : Poll := .refresh .capture
  /-- The constructor refreshes both rings before there is a thread. -/
  constructing : Bool := true
  onAttach : Bool := false
  callbacks : List Callback := []
  /-- The serials unmapped so far. -/
  unmapped : List ℕ := []
  /-- How often the pointer was exchanged. -/
  swaps : RingName → ℕ := fun _ => 0

/-- `std::chrono::seconds(5)`, in nanoseconds. -/
def kGrace : ℕ := 5000000000

/-- One system call or access of the daemon, of the plugin's poll or of a callback. -/
inductive MapAct where
  | tick (d : ℕ)
  /-- The daemon's `shm_unlink`, `shm_open` with `O_CREAT`, and `init`, word by word. -/
  | unlink (m : RingName)
  | create (m : RingName)
  | initMagic (o : ℕ)
  | initInstance (o : ℕ) (id : BitVec 64)
  | initRequest (o : ℕ)
  /-- The plugin's thread; `mmap` picks any address that is free. -/
  | wake
  | openFails
  | openRing
  | mmapFails
  | mmap (addr : ℕ)
  | readMagic
  | compare
  | exchange
  | retire
  | hook (rate : BitVec 32)
  | bump
  | startReap
  | reap
  | setOnCaptureAttach
  /-- An IO callback loads the pointer, and returns. -/
  | enter (m : RingName)
  | leave (i : ℕ)

namespace ShmMapper

/-- Behind the refresh of a ring: the other ring, or the retired list. -/
def after : RingName → Poll
  | .capture => .refresh .playback
  | .playback => .polled

/-- A store to an object. -/
def modify (s : ShmMapper) (o : ℕ) (f : RingObject → RingObject) : ShmMapper :=
  { s with objects := Function.update s.objects o (f (s.objects o)) }

/-- What is read through a pointer, `none` where nothing is mapped. -/
def read (s : ShmMapper) (addr : ℕ) : Option RingObject := (s.maps addr).map fun mp => s.objects mp.object

/-- A store through a mapping, if there is one at the address. -/
def write (s : ShmMapper) (addr : ℕ) (f : RingObject → RingObject) : Option ShmMapper :=
  (s.maps addr).map fun mp => s.modify mp.object f

/-- What was mapped at the address is there no more. -/
def munmap (s : ShmMapper) (addr : ℕ) : ShmMapper := { s with
  maps := Function.update s.maps addr none
  unmapped := s.unmapped ++ ((s.maps addr).map (·.serial)).toList }

/-- `mmap` of the object, at an address that is free. -/
def probeAt (s : ShmMapper) (addr o : ℕ) (m : RingName) : Option ShmMapper :=
  match s.maps addr with
  | some _ => none
  | none => some { s with
      maps := Function.update s.maps addr (some ⟨o, s.mapped⟩), mapped := s.mapped + 1, poll := .probed m addr }

/-- A daemon's `shm_open` of a name it has unlinked. -/
def createRing (s : ShmMapper) (m : RingName) : Option ShmMapper :=
  match s.linked m with
  | some _ => none
  | none => some { s with
      linked := Function.update s.linked m (some s.created)
      objects := Function.update s.objects s.created {}, created := s.created + 1 }

/-- The identity check, against the ring in use. -/
def compareRuns (s : ShmMapper) (m : RingName) (probe : ℕ) : Option ShmMapper :=
  match s.ring m with
  | none => some { s with poll := .swapping m probe }
  | some cur => (s.read cur).bind fun c => (s.read probe).map fun r =>
      if c.instanceId = r.instanceId then { s.munmap probe with poll := after m }
      else { s with poll := .swapping m probe }

/-- `exchange` of the ring's pointer. -/
def swap (s : ShmMapper) (m : RingName) (probe : ℕ) : ShmMapper := { s with
  ring := Function.update s.ring m (some probe), swaps := Function.update s.swaps m (s.swaps m + 1)
  poll := .swapped m (s.ring m) }

/-- One turn of the loop over the retired list. -/
def reapOne (s : ShmMapper) (now i : ℕ) : ShmMapper :=
  match s.retired[i]? with
  | none => { s with poll := .sleeping }
  | some (addr, since) =>
    if now - since > kGrace then { s.munmap addr with retired := s.retired.eraseIdx i }
    else { s with poll := .reaping now (i + 1) }

/-- The poll goes from place to place of its turn; the daemon, the clock and the callbacks go
beside it. -/
def step (s : ShmMapper) (a : MapAct) : Option ShmMapper :=
  match a, s.poll with
  | .tick d, _ => some { s with now := s.now + d }
  | .unlink m, _ => some { s with linked := Function.update s.linked m none }
  | .create m, _ => s.createRing m
  | .initMagic o, _ => some (s.modify o fun r => { r with magic := kMagic })
  | .initInstance o id, _ => some (s.modify o fun r => { r with instanceId := id })
  | .initRequest o, _ => some (s.modify o fun r => { r with requestedRate := 0, requestSeq := 0 })
  | .wake, .sleeping => some { s with poll := .refresh .capture }
  | .openFails, .refresh m => some { s with poll := after m }
  | .openRing, .refresh m => (s.linked m).map fun o => { s with poll := .opened m o }
  | .mmapFails, .opened m _ => some { s with poll := after m }
  | .mmap addr, .opened m o => s.probeAt addr o m
  | .readMagic, .probed m probe => (s.read probe).map fun r =>
      if r.magic ≠ kMagic then { s.munmap probe with poll := after m } else { s with poll := .checked m probe }
  | .compare, .checked m probe => s.compareRuns m probe
  | .exchange, .swapping m probe => some (s.swap m probe)
  | .retire, .swapped m old => some { s with
      retired := s.retired ++ (old.map fun addr => (addr, s.now)).toList, poll := .attached m }
  | .hook rate, .attached m =>
      if m = .capture ∧ s.onAttach then (s.ring m).bind fun cap =>
        ({ s with poll := .requested } : ShmMapper).write cap fun r => { r with requestedRate := rate }
      else some { s with poll := after m }
  | .bump, .requested => (s.ring .capture).bind fun cap =>
      ({ s with poll := after .capture } : ShmMapper).write cap fun r => { r with requestSeq := r.requestSeq + 1 }
  | .startReap, .polled =>
      if s.constructing then some { s with constructing := false, poll := .sleeping }
      else some { s with poll := .reaping s.now 0 }
  | .reap, .reaping now i => some (s.reapOne now i)
  | .setOnCaptureAttach, _ => some { s with onAttach := true }
  | .enter m, _ =>
      match s.ring m with
      | none => some s
      | some addr => (s.maps addr).map fun mp => { s with callbacks := s.callbacks ++ [⟨addr, mp.serial, s.now⟩] }
  | .leave i, _ => some { s with callbacks := s.callbacks.eraseIdx i }
  | _, _ => none

/-! ## What is mapped -/

/-- The probe being looked at, and the mapping taken out of use and not yet listed. -/
def probe : Poll → List ℕ
  | .probed _ p | .checked _ p | .swapping _ p => [p]
  | _ => []

/-- The mapping the exchange has just taken out of use. -/
def leaving : Poll → List ℕ
  | .swapped _ old => old.toList
  | _ => []

/-- The mappings the plugin has to unmap some day. -/
def held (s : ShmMapper) : List ℕ :=
  probe s.poll ++ (s.ring .capture).toList ++ (s.ring .playback).toList ++ leaving s.poll ++ s.retired.map (·.1)

/-- The callback's ring is where it was when it was loaded. -/
def Shows (s : ShmMapper) (c : Callback) : Prop := ∃ mp, s.maps c.ring = some mp ∧ mp.serial = c.serial

/-- What most steps do to the mappings: nothing. -/
structure Keeps (s t : ShmMapper) : Prop where
  now : s.now ≤ t.now
  maps : t.maps = s.maps
  mapped : t.mapped = s.mapped
  ring : t.ring = s.ring
  retired : t.retired = s.retired
  unmapped : t.unmapped = s.unmapped
  callbacks : t.callbacks = s.callbacks
  swaps : t.swaps = s.swaps
  probe : probe t.poll = probe s.poll
  leaving : leaving t.poll = leaving s.poll
  reaping : ∀ now i, t.poll = .reaping now i → s.poll = .reaping now i ∨ now = s.now ∧ i = 0 ∨
    ∃ j e, i = j + 1 ∧ s.poll = .reaping now j ∧ s.retired[j]? = some e ∧ now ≤ e.2 + kGrace

/-- What a step can do to the mappings and to the callbacks. -/
inductive Effect (s : ShmMapper) : ShmMapper → Prop where
  | keeps {t : ShmMapper} (h : Keeps s t) : Effect s t
  | map {m : RingName} {addr o : ℕ} (hpoll : s.poll = .opened m o) (hfree : s.maps addr = none) : Effect s { s with
      maps := Function.update s.maps addr (some ⟨o, s.mapped⟩), mapped := s.mapped + 1, poll := .probed m addr }
  | drop {m : RingName} {addr : ℕ} (hprobe : ShmMapper.probe s.poll = [addr])
      (hleaving : ShmMapper.leaving s.poll = []) :
      Effect s { s.munmap addr with poll := after m }
  | exchange {m : RingName} {addr : ℕ} (hpoll : s.poll = .swapping m addr) : Effect s (s.swap m addr)
  | retire {m : RingName} {old : Option ℕ} (hpoll : s.poll = .swapped m old) : Effect s { s with
      retired := s.retired ++ (old.map fun addr => (addr, s.now)).toList, poll := .attached m }
  | reap {now i addr since : ℕ} (hpoll : s.poll = .reaping now i) (hentry : s.retired[i]? = some (addr, since))
      (hold : since + kGrace < now) : Effect s { s.munmap addr with retired := s.retired.eraseIdx i }
  | enter {m : RingName} {addr : ℕ} {mp : Mapping} (hring : s.ring m = some addr) (hmap : s.maps addr = some mp) :
      Effect s { s with callbacks := s.callbacks ++ [⟨addr, mp.serial, s.now⟩] }
  | leave (i : ℕ) : Effect s { s with callbacks := s.callbacks.eraseIdx i }

variable {s t : ShmMapper}

theorem Keeps.refl (s : ShmMapper) : Keeps s s :=
  ⟨Nat.le_refl _, rfl, rfl, rfl, rfl, rfl, rfl, rfl, rfl, rfl, fun _ _ h => .inl h⟩

@[simp] theorem probe_after (m : RingName) : probe (after m) = [] := by cases m <;> rfl
@[simp] theorem leaving_after (m : RingName) : leaving (after m) = [] := by cases m <;> rfl
@[simp] theorem after_ne_reaping (m : RingName) (now i : ℕ) : after m ≠ .reaping now i := by cases m <;> simp [after]

/-- The thread moves on, between two places where it holds the same mappings. -/
theorem Keeps.goto {q : Poll} (hprobe : ShmMapper.probe q = ShmMapper.probe s.poll)
    (hleaving : ShmMapper.leaving q = ShmMapper.leaving s.poll) (hq : ∀ now i, q ≠ .reaping now i) :
    Keeps s { s with poll := q } :=
  ⟨Nat.le_refl _, rfl, rfl, rfl, rfl, rfl, rfl, rfl, hprobe, hleaving, fun now i h => absurd h (hq now i)⟩

theorem createRing_effect {m : RingName} (h : s.createRing m = some t) : Effect s t := by
  unfold createRing at h
  split at h
  · cases h
  · exact Option.some.inj h ▸ .keeps { Keeps.refl s with }

theorem probeAt_effect {addr o : ℕ} {m : RingName} (hp : s.poll = .opened m o) (h : s.probeAt addr o m = some t) :
    Effect s t := by
  unfold probeAt at h
  split at h
  · cases h
  next hfree => exact Option.some.inj h ▸ .map hp hfree

/-- The probe is dropped if it is the ring in use, and kept to be swapped in if not. -/
theorem compareRuns_effect {m : RingName} {p : ℕ} (hp : s.poll = .checked m p) (h : s.compareRuns m p = some t) :
    Effect s t := by
  have hswap : Keeps s { s with poll := .swapping m p } := .goto (by rw [hp]; rfl) (by rw [hp]; rfl) (by simp)
  unfold compareRuns at h
  split at h
  · exact Option.some.inj h ▸ .keeps hswap
  next cur _ =>
    obtain ⟨c, -, h⟩ := Option.bind_eq_some_iff.1 h
    obtain ⟨r, -, rfl⟩ := Option.map_eq_some_iff.1 h
    split
    · exact .drop (by rw [hp]; rfl) (by rw [hp]; rfl)
    · exact .keeps hswap

/-- An entry past its grace is unmapped; the turn passes over one that is not. -/
theorem reapOne_effect {now i : ℕ} (hp : s.poll = .reaping now i) : Effect s (s.reapOne now i) := by
  unfold reapOne
  split
  · exact .keeps (.goto (by rw [hp]; rfl) (by rw [hp]; rfl) (by simp))
  next addr since hentry =>
    split
    next hold => exact .reap hp hentry (by omega)
    next hold =>
      refine .keeps { Keeps.refl s with probe := by rw [hp]; rfl, leaving := by rw [hp]; rfl, reaping := ?_ }
      rintro now' i' ⟨⟩
      exact .inr (.inr ⟨i, _, rfl, hp, hentry, by simp only; omega⟩)

theorem step_effect {a : MapAct} (h : s.step a = some t) : Effect s t := by
  have same {u : ShmMapper} (h : some u = some t) (hu : Keeps s u) : Effect s t := Option.some.inj h ▸ .keeps hu
  unfold step at h
  split at h
  next d _ => exact same h { Keeps.refl s with now := Nat.le_add_right _ _ }
  next m _ => exact same h { Keeps.refl s with }
  next m _ => exact createRing_effect h
  next => exact same h { Keeps.refl s with }
  next => exact same h { Keeps.refl s with }
  next => exact same h { Keeps.refl s with }
  next hp => exact same h (.goto (by rw [hp]; rfl) (by rw [hp]; rfl) (by simp))
  next m hp => exact same h (.goto (by rw [hp]; simp; rfl) (by rw [hp]; simp; rfl) (by simp))
  next m hp =>
    obtain ⟨o, -, h⟩ := Option.map_eq_some_iff.1 h
    exact same (congrArg some h) (.goto (by rw [hp]; rfl) (by rw [hp]; rfl) (by simp))
  next m o hp => exact same h (.goto (by rw [hp]; simp; rfl) (by rw [hp]; simp; rfl) (by simp))
  next addr m o hp => exact probeAt_effect hp h
  next m p hp =>
    obtain ⟨r, -, rfl⟩ := Option.map_eq_some_iff.1 h
    split
    · exact .drop (by rw [hp]; rfl) (by rw [hp]; rfl)
    · exact .keeps (.goto (by rw [hp]; rfl) (by rw [hp]; rfl) (by simp))
  next m p hp => exact compareRuns_effect hp h
  next m p hp => exact Option.some.inj h ▸ .exchange hp
  next m old hp => exact Option.some.inj h ▸ .retire hp
  next rate m hp =>
    split at h
    · obtain ⟨cap, -, h⟩ := Option.bind_eq_some_iff.1 h
      obtain ⟨mp, -, rfl⟩ := Option.map_eq_some_iff.1 h
      exact .keeps { Keeps.goto (s := s) (q := .requested) (by rw [hp]; rfl) (by rw [hp]; rfl) (by simp) with }
    · exact same h (.goto (by rw [hp]; simp; rfl) (by rw [hp]; simp; rfl) (by simp))
  next hp =>
    obtain ⟨cap, -, h⟩ := Option.bind_eq_some_iff.1 h
    obtain ⟨mp, -, rfl⟩ := Option.map_eq_some_iff.1 h
    exact .keeps
      { Keeps.goto (s := s) (q := after .capture) (by rw [hp]; simp; rfl) (by rw [hp]; simp; rfl) (by simp) with }
  next hp =>
    split at h
    · exact same h { Keeps.goto (s := s) (q := .sleeping) (by rw [hp]; rfl) (by rw [hp]; rfl) (by simp) with }
    · refine same h { Keeps.refl s with probe := by rw [hp]; rfl, leaving := by rw [hp]; rfl, reaping := ?_ }
      rintro now i ⟨⟩
      exact .inr (.inl ⟨rfl, rfl⟩)
  next now i hp => exact Option.some.inj h ▸ reapOne_effect hp
  next => exact same h { Keeps.refl s with }
  next m _ =>
    split at h
    · exact same h (Keeps.refl s)
    next addr hring =>
      obtain ⟨mp, hmap, rfl⟩ := Option.map_eq_some_iff.1 h
      exact .enter hring hmap
  next => exact Option.some.inj h ▸ .leave _
  next => cases h

/-! ## Nothing is unmapped too early, twice or never -/

/-- The mapping a callback has loaded is in place, out of the thread's hands before it
was ever in use, and retired no earlier than it was loaded. -/
structure Pinned (s : ShmMapper) (c : Callback) : Prop where
  shows : s.Shows c
  probe : c.ring ∉ probe s.poll
  since : ∀ e ∈ s.retired, e.1 = c.ring → c.start ≤ e.2

/-- Every mapping has one owner and is unmapped once, and one that a callback is in stays as
long as the grace. -/
structure Inv (s : ShmMapper) : Prop where
  nodup : s.held.Nodup
  owned : ∀ addr, (s.maps addr).isSome ↔ addr ∈ s.held
  serials : ∀ addr mp, s.maps addr = some mp → mp.serial < s.mapped ∧ mp.serial ∉ s.unmapped
  distinct : ∀ addr addr' mp mp', s.maps addr = some mp → s.maps addr' = some mp' → mp.serial = mp'.serial →
      addr = addr'
  past : ∀ n ∈ s.unmapped, n < s.mapped
  once : s.unmapped.Nodup
  clock : ∀ now i, s.poll = .reaping now i → now ≤ s.now
  reaped : ∀ now i, s.poll = .reaping now i → ∀ e ∈ s.retired.take i, now ≤ e.2 + kGrace
  callbacks : ∀ c ∈ s.callbacks, c.start ≤ s.now ∧ (s.Pinned c ∨ c.start + kGrace < s.now)

theorem Keeps.held (h : Keeps s t) : t.held = s.held := by
  unfold ShmMapper.held
  rw [h.probe, h.leaving, h.ring, h.retired]

theorem Keeps.inv (h : Keeps s t) (hi : Inv s) : Inv t where
  nodup := h.held ▸ hi.nodup
  owned addr := by rw [h.maps, h.held]; exact hi.owned addr
  serials addr mp hmp := by
    rw [h.maps] at hmp
    rw [h.mapped, h.unmapped]
    exact hi.serials addr mp hmp
  distinct addr addr' mp mp' hmp hmp' := by
    rw [h.maps] at hmp hmp'
    exact hi.distinct addr addr' mp mp' hmp hmp'
  past n hn := by
    rw [h.unmapped] at hn
    exact h.mapped ▸ hi.past n hn
  once := h.unmapped ▸ hi.once
  clock now i hp := by
    rcases h.reaping now i hp with hp | ⟨rfl, -⟩ | ⟨j, -, -, hp, -⟩
    · exact (hi.clock now i hp).trans h.now
    · exact h.now
    · exact (hi.clock now j hp).trans h.now
  reaped now i hp e he := by
    rw [h.retired] at he
    rcases h.reaping now i hp with hp | ⟨-, rfl⟩ | ⟨j, e', rfl, hp, hget, hyoung⟩
    · exact hi.reaped now i hp e he
    · simp at he
    · rw [List.take_add_one, hget] at he
      rcases List.mem_append.1 he with he | he
      · exact hi.reaped now j hp e he
      · simp at he
        exact he ▸ hyoung
  callbacks c hc := by
    rw [h.callbacks] at hc
    obtain ⟨hstart, hpin⟩ := hi.callbacks c hc
    refine ⟨hstart.trans h.now, hpin.imp (fun hpin => ?_) fun hlate => hlate.trans_le h.now⟩
    refine ⟨?_, h.probe ▸ hpin.probe, h.retired ▸ hpin.since⟩
    obtain ⟨mp, hmp⟩ := hpin.shows
    exact ⟨mp, h.maps ▸ hmp⟩

/-- What `munmap` does to the mappings, of an address that is given up. -/
theorem munmap_maps {addr : ℕ} {mp : Mapping} (hmp : s.maps addr = some mp) :
    (∀ addr' mp', (s.munmap addr).maps addr' = some mp' → addr' ≠ addr ∧ s.maps addr' = some mp') ∧
    (s.munmap addr).unmapped = s.unmapped ++ [mp.serial] := by
  constructor
  · intro addr' mp' h
    simp only [ShmMapper.munmap, Function.update_apply] at h
    split at h
    · cases h
    next hne => exact ⟨hne, h⟩
  · simp [ShmMapper.munmap, hmp]

/-- One mapping given up, everything else in its place. -/
theorem Inv.drop (hi : Inv s) {addr : ℕ} (hheld : s.held.Perm (addr :: t.held)) (hmaps : t.maps = (s.munmap addr).maps)
    (hunmapped : t.unmapped = (s.munmap addr).unmapped) (hmapped : t.mapped = s.mapped) (hnow : t.now = s.now)
    (hclock : ∀ now i, t.poll = .reaping now i → s.poll = .reaping now i)
    (hreaped : ∀ now i, t.poll = .reaping now i → t.retired.take i = s.retired.take i)
    (hcallbacks : t.callbacks = s.callbacks) (hprobe : ∀ a ∈ ShmMapper.probe t.poll, a ∈ ShmMapper.probe s.poll)
    (hretired : ∀ e ∈ t.retired, e ∈ s.retired)
    (hpinned : ∀ c ∈ s.callbacks, s.Pinned c → c.ring = addr → c.start + kGrace < s.now) : Inv t := by
  have hnodup : (addr :: t.held).Nodup := hheld.nodup_iff.1 hi.nodup
  obtain ⟨mp, hmp⟩ := Option.isSome_iff_exists.1 ((hi.owned addr).2 (hheld.mem_iff.2 List.mem_cons_self))
  obtain ⟨hother, hlist⟩ := munmap_maps hmp
  obtain ⟨hlt, hnew⟩ := hi.serials addr mp hmp
  constructor
  · exact (List.nodup_cons.1 hnodup).2
  · intro addr'
    by_cases hne : addr' = addr
    · subst hne
      refine iff_of_false ?_ (List.nodup_cons.1 hnodup).1
      simp [hmaps, ShmMapper.munmap]
    · have hmem : addr' ∈ s.held ↔ addr' ∈ t.held := by rw [hheld.mem_iff, List.mem_cons, or_iff_right hne]
      rw [← hmem, ← hi.owned, hmaps]
      simp [ShmMapper.munmap, Function.update_of_ne hne]
  · intro addr' mp' hmp'
    obtain ⟨hne, hmp'⟩ := hother addr' mp' (hmaps ▸ hmp')
    rw [hunmapped, hlist, hmapped]
    obtain ⟨hlt', hnew'⟩ := hi.serials addr' mp' hmp'
    refine ⟨hlt', fun hmem => ?_⟩
    rcases List.mem_append.1 hmem with hmem | hmem
    · exact hnew' hmem
    · exact hne (hi.distinct addr' addr mp' mp hmp' hmp (List.mem_singleton.1 hmem))
  · intro a b mpa mpb ha hb
    exact hi.distinct a b mpa mpb (hother a mpa (hmaps ▸ ha)).2 (hother b mpb (hmaps ▸ hb)).2
  · intro n hn
    rw [hunmapped, hlist] at hn
    rw [hmapped]
    rcases List.mem_append.1 hn with hn | hn
    · exact hi.past n hn
    · exact List.mem_singleton.1 hn ▸ hlt
  · rw [hunmapped, hlist]
    exact List.nodup_append.2 ⟨hi.once, List.nodup_singleton _, fun a ha b hb hab =>
      hnew (List.mem_singleton.1 hb ▸ hab ▸ ha)⟩
  · intro now i hp
    exact hnow ▸ hi.clock now i (hclock now i hp)
  · intro now i hp
    rw [hreaped now i hp]
    exact hi.reaped now i (hclock now i hp)
  · intro c hc
    rw [hcallbacks] at hc
    rw [hnow]
    obtain ⟨hstart, hpin⟩ := hi.callbacks c hc
    refine ⟨hstart, ?_⟩
    rcases hpin with hpin | hlate
    · by_cases hat : c.ring = addr
      · exact .inr (hpinned c hc hpin hat)
      · obtain ⟨mpc, hmpc, hserial⟩ := hpin.shows
        refine .inl ⟨⟨mpc, ?_, hserial⟩, fun h => hpin.probe (hprobe _ h), fun e he => hpin.since e (hretired e he)⟩
        rw [hmaps]
        simpa [ShmMapper.munmap, Function.update_of_ne hat] using hmpc
    · exact .inr hlate

theorem Inv.map (hi : Inv s) {m : RingName} {addr o : ℕ} (hpoll : s.poll = .opened m o) (hfree : s.maps addr = none) :
    Inv { s with
      maps := Function.update s.maps addr (some ⟨o, s.mapped⟩), mapped := s.mapped + 1, poll := .probed m addr } := by
  have hnot : addr ∉ s.held := fun h => by simpa [hfree] using (hi.owned addr).2 h
  have hheld : ∀ q : Poll, ShmMapper.probe q = [addr] → ShmMapper.leaving q = [] →
      addr :: s.held = ShmMapper.probe q ++ (s.ring .capture).toList ++ (s.ring .playback).toList ++
        ShmMapper.leaving q ++ s.retired.map (·.1) := by
    intro q hq hq'
    rw [hq, hq', held, hpoll]
    rfl
  have hget : ∀ addr' mp, Function.update s.maps addr (some ⟨o, s.mapped⟩) addr' = some mp →
      addr' = addr ∧ mp.serial = s.mapped ∨ addr' ≠ addr ∧ s.maps addr' = some mp := by
    intro addr' mp h
    rw [Function.update_apply] at h
    split at h
    next heq =>
      cases h
      exact .inl ⟨heq, rfl⟩
    next hne => exact .inr ⟨hne, h⟩
  constructor
  · rw [held, ← hheld (.probed m addr) rfl rfl]
    exact List.nodup_cons.2 ⟨hnot, hi.nodup⟩
  · intro addr'
    rw [held, ← hheld (.probed m addr) rfl rfl, List.mem_cons, ← hi.owned]
    by_cases hne : addr' = addr
    · simp [hne]
    · simp [hne]
  · intro addr' mp h
    rcases hget addr' mp h with ⟨-, hserial⟩ | ⟨-, h⟩
    · exact ⟨hserial ▸ Nat.lt_succ_self _, fun hmem => absurd (hi.past _ hmem) (hserial ▸ Nat.lt_irrefl _)⟩
    · exact ⟨Nat.lt_succ_of_lt (hi.serials addr' mp h).1, (hi.serials addr' mp h).2⟩
  · intro a b mpa mpb ha hb hab
    rcases hget a mpa ha with ⟨hat, hnew⟩ | ⟨-, hold⟩ <;> rcases hget b mpb hb with ⟨hbt, hnew'⟩ | ⟨-, hold'⟩
    · exact hat.trans hbt.symm
    · have := (hi.serials b mpb hold').1
      omega
    · have := (hi.serials a mpa hold).1
      omega
    · exact hi.distinct a b mpa mpb hold hold' hab
  · exact fun n hn => Nat.lt_succ_of_lt (hi.past n hn)
  · exact hi.once
  · rintro now i ⟨⟩
  · rintro now i ⟨⟩
  · intro c hc
    obtain ⟨hstart, hpin⟩ := hi.callbacks c hc
    refine ⟨hstart, hpin.imp_left fun hpin => ?_⟩
    obtain ⟨mp, hmp, hserial⟩ := hpin.shows
    have hne : c.ring ≠ addr := by
      rintro rfl
      rw [hfree] at hmp
      cases hmp
    exact ⟨⟨mp, by simpa [Function.update_of_ne hne] using hmp, hserial⟩, by simpa [ShmMapper.probe] using hne,
      hpin.since⟩

/-- Two ways to hold the same mappings. -/
theorem Inv.shift (hi : Inv s) (hheld : s.held.Perm t.held) (hmaps : t.maps = s.maps) (hmapped : t.mapped = s.mapped)
    (hunmapped : t.unmapped = s.unmapped) (hclock : ∀ now i, t.poll ≠ .reaping now i)
    (hcallbacks : ∀ c ∈ t.callbacks, c.start ≤ t.now ∧ (t.Pinned c ∨ c.start + kGrace < t.now)) : Inv t where
  nodup := hheld.nodup_iff.1 hi.nodup
  owned addr := by rw [hmaps, hi.owned, hheld.mem_iff]
  serials addr mp h := by
    rw [hmapped, hunmapped]
    exact hi.serials addr mp (hmaps ▸ h)
  distinct a b mpa mpb ha hb := hi.distinct a b mpa mpb (hmaps ▸ ha) (hmaps ▸ hb)
  past n hn := hmapped ▸ hi.past n (hunmapped ▸ hn)
  once := hunmapped ▸ hi.once
  clock now i h := absurd h (hclock now i)
  reaped now i h := absurd h (hclock now i)
  callbacks := hcallbacks

theorem Inv.exchange (hi : Inv s) {m : RingName} {addr : ℕ} (hpoll : s.poll = .swapping m addr) :
    Inv (s.swap m addr) := by
  refine hi.shift ?_ rfl rfl rfl (fun _ _ => by simp [swap]) fun c hc => ?_
  · refine List.perm_iff_count.2 fun a => ?_
    cases m <;> simp [held, swap, hpoll, ShmMapper.probe, ShmMapper.leaving, List.count_cons] <;> omega
  · obtain ⟨hstart, hpin⟩ := hi.callbacks c hc
    exact ⟨hstart, hpin.imp_left fun hpin => ⟨hpin.shows, by simp [swap, ShmMapper.probe], hpin.since⟩⟩

theorem Inv.retire (hi : Inv s) {m : RingName} {old : Option ℕ} (hpoll : s.poll = .swapped m old) : Inv { s with
      retired := s.retired ++ (old.map fun addr => (addr, s.now)).toList, poll := .attached m } := by
  refine hi.shift ?_ rfl rfl rfl (fun _ _ => by simp) fun c hc => ?_
  · refine List.perm_iff_count.2 fun a => ?_
    cases old <;> simp [held, hpoll, ShmMapper.probe, ShmMapper.leaving, List.count_cons]
  · obtain ⟨hstart, hpin⟩ := hi.callbacks c hc
    refine ⟨hstart, hpin.imp_left fun hpin => ⟨hpin.shows, by simp [ShmMapper.probe], fun e he heq => ?_⟩⟩
    rcases List.mem_append.1 he with he | he
    · exact hpin.since e he heq
    · simp only [Option.mem_toList, Option.map_eq_some_iff] at he
      obtain ⟨addr, -, rfl⟩ := he
      exact hstart

/-- An old enough entry of the retired list, at the place the loop looks at. -/
theorem Inv.reap (hi : Inv s) {now i addr since : ℕ} (hpoll : s.poll = .reaping now i)
    (hentry : s.retired[i]? = some (addr, since)) (hold : since + kGrace < now) :
    Inv { s.munmap addr with retired := s.retired.eraseIdx i } := by
  obtain ⟨hlt, hget⟩ := List.getElem?_eq_some_iff.1 hentry
  have hperm : (s.retired.map (·.1)).Perm (addr :: (s.retired.eraseIdx i).map (·.1)) := by
    simpa [hget] using (List.getElem_cons_eraseIdx_perm hlt).symm.map (·.1)
  refine hi.drop (s := s) ?_ rfl rfl rfl rfl (fun _ _ h => h) ?_ rfl (fun _ h => h)
    (fun e he => List.mem_of_mem_eraseIdx he) ?_
  · refine List.perm_iff_count.2 fun a => ?_
    have hcount := List.perm_iff_count.1 hperm a
    simp only [held, ShmMapper.munmap, List.count_append, List.count_cons] at hcount ⊢
    omega
  · intro now' i' hp
    obtain ⟨rfl, rfl⟩ := Poll.reaping.inj (hpoll.symm.trans hp)
    exact List.take_eraseIdx_eq_take_of_le s.retired i i (Nat.le_refl i)
  · rintro c - hpin rfl
    have hsince := hpin.since _ (List.mem_of_getElem? hentry) rfl
    have hclock := hi.clock now i hpoll
    simp only at hsince
    omega

/-- A probe that is not wanted. -/
theorem Inv.dropProbe (hi : Inv s) {m : RingName} {addr : ℕ} (hprobe : ShmMapper.probe s.poll = [addr])
    (hleaving : ShmMapper.leaving s.poll = []) : Inv { s.munmap addr with poll := after m } := by
  have hheld : s.held.Perm (addr :: { s.munmap addr with poll := after m }.held) := by
    simp [held, ShmMapper.munmap, hprobe, hleaving]
  refine hi.drop hheld rfl rfl rfl rfl (fun _ _ h => absurd h (after_ne_reaping _ _ _))
    (fun _ _ h => absurd h (after_ne_reaping _ _ _)) rfl (by simp) (fun e he => he) fun c _ hpin heq => ?_
  exact absurd (by rw [hprobe, heq]; exact List.mem_singleton_self _) hpin.probe

theorem Inv.setCallbacks (hi : Inv s) (cs : List Callback)
    (hcs : ∀ c ∈ cs, c.start ≤ s.now ∧ (s.Pinned c ∨ c.start + kGrace < s.now)) : Inv { s with callbacks := cs } where
  nodup := hi.nodup
  owned := hi.owned
  serials := hi.serials
  distinct := hi.distinct
  past := hi.past
  once := hi.once
  clock := hi.clock
  reaped := hi.reaped
  callbacks c hc := by
    obtain ⟨hstart, hpin⟩ := hcs c hc
    exact ⟨hstart, hpin.imp_left fun hpin => ⟨hpin.shows, hpin.probe, hpin.since⟩⟩

/-- A ring in use is no probe, and no retired mapping. -/
theorem Inv.ring_apart (hi : Inv s) {m : RingName} {addr : ℕ} (hring : s.ring m = some addr) :
    addr ∉ ShmMapper.probe s.poll ∧ ∀ e ∈ s.retired, e.1 ≠ addr := by
  have hnodup := hi.nodup
  have hcount : s.held.count addr ≤ 1 := List.nodup_iff_count_le_one.1 hnodup addr
  simp only [held, List.count_append] at hcount
  have hone : 1 ≤ (s.ring .capture).toList.count addr + (s.ring .playback).toList.count addr := by
    cases m <;> simp [hring]
  constructor
  · intro hmem
    have := List.count_pos_iff.2 hmem
    omega
  · intro e he heq
    have := List.count_pos_iff.2 (List.mem_map_of_mem (f := (·.1)) he)
    rw [heq] at this
    omega

theorem Inv.ring_mapped (hi : Inv s) {m : RingName} {addr : ℕ} (hring : s.ring m = some addr) :
    ∃ mp, s.maps addr = some mp := by
  refine Option.isSome_iff_exists.1 ((hi.owned addr).2 ?_)
  cases m <;> simp [held, hring]

theorem step_inv (s : ShmMapper) (a : MapAct) (t : ShmMapper) (hi : Inv s) (h : s.step a = some t) : Inv t := by
  cases step_effect h with
  | keeps h => exact h.inv hi
  | map hpoll hfree => exact hi.map hpoll hfree
  | drop hprobe hleaving => exact hi.dropProbe hprobe hleaving
  | exchange hpoll => exact hi.exchange hpoll
  | retire hpoll => exact hi.retire hpoll
  | reap hpoll hentry hold => exact hi.reap hpoll hentry hold
  | leave i => exact hi.setCallbacks _ fun c hc => hi.callbacks c (List.mem_of_mem_eraseIdx hc)
  | @enter m addr mp hring hmap =>
    refine hi.setCallbacks _ fun c hc => ?_
    rcases List.mem_append.1 hc with hc | hc
    · exact hi.callbacks c hc
    · obtain rfl := List.mem_singleton.1 hc
      obtain ⟨hprobe, hretired⟩ := hi.ring_apart hring
      exact ⟨Nat.le_refl _, .inl ⟨⟨mp, hmap, rfl⟩, hprobe, fun e he heq => absurd heq (hretired e he)⟩⟩

theorem start_inv : Inv {} := by
  constructor <;> simp [held, ShmMapper.probe, ShmMapper.leaving]

theorem run_inv {as : List MapAct} (h : run step {} as = some s) : Inv s := Lib.run_inv Inv step_inv h start_inv

/-- What the mapper promises: `callbacks` of up to five seconds find the ring they
loaded; what is mapped is what is `held`, once each; no mapping goes twice; and what
a walk over the retired list leaves behind is not older than five seconds. -/
structure Safe (s : ShmMapper) : Prop where
  callbacks : ∀ c ∈ s.callbacks, s.now ≤ c.start + kGrace → s.Shows c
  nodup : s.held.Nodup
  owned : ∀ addr, (s.maps addr).isSome ↔ addr ∈ s.held
  once : s.unmapped.Nodup ∧ ∀ addr mp, s.maps addr = some mp → mp.serial ∉ s.unmapped
  reaped : ∀ now i, s.poll = .reaping now i → ∀ e ∈ s.retired.take i, now ≤ e.2 + kGrace

/-- In every run of the daemons, the thread and the callbacks. -/
theorem shm_mapper_safe {as : List MapAct} (h : run step {} as = some s) : s.Safe where
  callbacks c hc hnow := by
    rcases ((run_inv h).callbacks c hc).2 with hpin | hlate
    · exact hpin.shows
    · omega
  nodup := (run_inv h).nodup
  owned := (run_inv h).owned
  once := ⟨(run_inv h).once, fun addr mp hmp => ((run_inv h).serials addr mp hmp).2⟩
  reaped := (run_inv h).reaped

/-- A daemon starts, its ring of that name object `o`; it fills in the magic and its run id. -/
def daemonStart (m : RingName) (o : ℕ) (runId : BitVec 64) : List MapAct :=
  [.unlink m, .create m, .initMagic o, .initInstance o runId, .initRequest o]

/-- The thread finds it and maps it. -/
def attaching (addr : ℕ) : List MapAct := [.openRing, .mmap addr, .readMagic, .compare, .exchange, .retire, .hook 48000]

/-- The plugin comes up on one daemon's capture ring, the next daemon starts, and a callback
that loaded the first ring is inside it when the second takes its place. -/
def replaced : List MapAct :=
  daemonStart .capture 0 7 ++ attaching 64 ++ [.openFails, .startReap] ++
  daemonStart .capture 1 9 ++ [.wake, .enter .capture] ++ attaching 65 ++ [.openFails, .startReap]

/-- Six seconds later the old ring goes, and that callback has lasted too long. -/
def outlived : List MapAct :=
  replaced ++ [.reap, .reap, .tick 6000000000, .wake, .openRing, .mmap 66, .readMagic, .compare, .openFails, .startReap,
    .enter .capture, .reap]

theorem shm_mapper_safe_outlived :
    ∃ s, run step {} outlived = some s ∧ s.callbacks.length = 2 ∧ s.unmapped = [2, 0] ∧ s.Safe :=
  ⟨_, rfl, rfl, rfl, shm_mapper_safe (show run step {} outlived = some _ from rfl)⟩

end ShmMapper
end UserFace800.Audio
