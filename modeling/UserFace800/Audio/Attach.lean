import UserFace800.Audio.ShmMapper
/-!
# What the plugin is attached to

Two consequences of how `ShmMapper` tells rings apart. By run id: a turn of its thread
that nothing disturbs ends with every ring that is there attached, and asks a daemon it
has just found for the rate (`poll_follows`). By address: `UFIOHandler` drops the slot it
holds when the pointer it loads is another one than last time, and `held_slot` says when
that is enough. The address of a ring unmapped long ago can come back (`held_slot_reused`).
-/
open UserFace800.Lib

namespace UserFace800.Audio
namespace ShmMapper

variable {s t : ShmMapper}

/-! ## A turn of the thread attaches what is there -/

/-- The ring in use is the object. -/
def Attached (s : ShmMapper) (m : RingName) (o : ℕ) : Prop :=
  ∃ addr mp, s.ring m = some addr ∧ s.maps addr = some mp ∧ mp.object = o

/-- An object that is linked now and the one in use have the same run id only if they are one. -/
def Distinct (s : ShmMapper) (m : RingName) : Prop :=
  ∀ o o', s.linked m = some o → s.Attached m o' → (s.objects o').instanceId = (s.objects o).instanceId → o' = o

/-- During the turn no daemon starts and no call of the thread fails, but to open a ring
that is not there. CoreAudio stays at `rate`. -/
def quiet (rate : BitVec 32) (s : ShmMapper) : MapAct → Bool
  | .tick _ | .openRing | .mmap _ | .readMagic | .compare | .exchange | .retire | .bump | .startReap | .reap
  | .enter _ | .leave _ => true
  | .openFails => match s.poll with
    | .refresh m => (s.linked m).isNone
    | _ => true
  | .hook r => r == rate
  | _ => false

/-- The refresh of the ring is past its exchange. -/
def passed : Poll → RingName → Prop
  | .refresh .capture, _ | .opened .capture _, _ | .probed .capture _, _ | .checked .capture _, _
  | .swapping .capture _, _ => False
  | .swapped .capture _, m | .attached .capture, m | .requested, m => m = .capture
  | .refresh .playback, m | .opened .playback _, m | .probed .playback _, m | .checked .playback _, m
  | .swapping .playback _, m => m = .capture
  | _, _ => True

/-- The object opened is the one linked, and the probe shows it. -/
def Looking (s : ShmMapper) : Prop :=
  match s.poll with
  | .opened m o => s.linked m = some o
  | .probed m p | .checked m p | .swapping m p => ∃ mp, s.maps p = some mp ∧ s.linked m = some mp.object
  | _ => True

/-- What has become of the linked capture ring `o` since `s₀`. -/
def Stage (rate : BitVec 32) (s₀ s : ShmMapper) (o : ℕ) : Poll → Prop
  | .refresh .capture | .opened .capture _ | .probed .capture _ | .checked .capture _ =>
    s.objects o = s₀.objects o ∧ (s.Attached .capture o ↔ s₀.Attached .capture o)
  | .swapping .capture _ | .swapped .capture _ | .attached .capture =>
    s.objects o = s₀.objects o ∧ ¬ s₀.Attached .capture o
  | .requested => s.objects o = { s₀.objects o with requestedRate := rate } ∧ ¬ s₀.Attached .capture o
  | _ => (s₀.Attached .capture o → s.objects o = s₀.objects o) ∧ (¬ s₀.Attached .capture o →
    s.objects o = { s₀.objects o with requestedRate := rate, requestSeq := (s₀.objects o).requestSeq + 1 })

/-- A turn of the poll that began in `s₀` has come to `s`, and only the poll has moved: what it
has passed is attached, and what the capture hook has done by then. -/
structure Turn (rate : BitVec 32) (s₀ s : ShmMapper) : Prop where
  inv : Inv s
  linked : s.linked = s₀.linked
  onAttach : s.onAttach = s₀.onAttach
  words : ∀ o, (s.objects o).magic = (s₀.objects o).magic ∧ (s.objects o).instanceId = (s₀.objects o).instanceId
  distinct : ∀ m, s.Distinct m
  looking : s.Looking
  passed : ∀ m o, passed s.poll m → s.linked m = some o → (s.objects o).magic = kMagic → s.Attached m o
  stage : s.onAttach = true → ∀ o, s.linked .capture = some o → (s.objects o).magic = kMagic → Stage rate s₀ s o s.poll

variable {rate : BitVec 32} {s₀ : ShmMapper}

theorem attached_congr {m : RingName} (hring : t.ring m = s.ring m)
    (hmaps : ∀ addr, s.ring m = some addr → t.maps addr = s.maps addr) (o : ℕ) : t.Attached m o ↔ s.Attached m o := by
  unfold Attached
  rw [hring]
  refine exists_congr fun addr => exists_congr fun mp => and_congr_right fun h => ?_
  rw [hmaps addr h]

/-- A step that leaves the rings, the objects and the names alone. -/
theorem Turn.move (ht : Turn rate s₀ s) (hinv : Inv t) (hlinked : t.linked = s.linked) (hhook : t.onAttach = s.onAttach)
    (hobjects : t.objects = s.objects) (hring : t.ring = s.ring)
    (hmaps : ∀ m addr, s.ring m = some addr → t.maps addr = s.maps addr) (hlook : t.Looking)
    (hpassed : ∀ m o, ShmMapper.passed t.poll m → s.linked m = some o → (s.objects o).magic = kMagic → s.Attached m o)
    (hstage : s.onAttach = true → ∀ o, s.linked .capture = some o → (s.objects o).magic = kMagic →
      Stage rate s₀ s o s.poll → Stage rate s₀ s o t.poll) : Turn rate s₀ t := by
  have hatt (m o) : t.Attached m o ↔ s.Attached m o := attached_congr (congrFun hring m) (hmaps m) o
  have hcongr (o) (q : Poll) : Stage rate s₀ s o q → Stage rate s₀ t o q := by
    intro h
    unfold Stage at h ⊢
    rw [hobjects]
    split at h <;> simpa [hatt] using h
  refine ⟨hinv, hlinked.trans ht.linked, hhook.trans ht.onAttach, hobjects ▸ ht.words, fun m o o' => ?_, hlook,
    fun m o hp ho hmagic => ?_, fun hon o ho hmagic => ?_⟩
  · rw [hlinked, hatt, hobjects]
    exact ht.distinct m o o'
  · rw [hlinked] at ho
    rw [hobjects] at hmagic
    exact (hatt m o).2 (hpassed m o hp ho hmagic)
  · rw [hlinked] at ho
    rw [hobjects] at hmagic
    rw [hhook] at hon
    exact hcongr o _ (hstage hon o ho hmagic (ht.stage hon o ho hmagic))

/-- The places of a refresh before its run ids are compared. -/
def early (m : RingName) : Poll → Prop
  | .refresh n | .opened n _ | .probed n _ | .checked n _ => n = m
  | _ => False

theorem passed_early {m n : RingName} {p : Poll} (h : early m p) :
    ShmMapper.passed p n ↔ m = .playback ∧ n = .capture := by
  cases m <;> cases p <;> first | exact h.elim | (cases h; simp [ShmMapper.passed])

theorem stage_early {o : ℕ} {p q : Poll} (m : RingName) (hp : early m p) (hq : early m q) (h : Stage rate s₀ s o p) :
    Stage rate s₀ s o q := by
  cases m <;> cases p <;> first | exact hp.elim | (cases hp; cases q <;> first | exact hq.elim | (cases hq; exact h))

/-- From one of these places to another. -/
theorem Turn.onward (ht : Turn rate s₀ s) (hinv : Inv t) (hlinked : t.linked = s.linked)
    (hhook : t.onAttach = s.onAttach) (hobjects : t.objects = s.objects) (hring : t.ring = s.ring)
    (hmaps : ∀ m addr, s.ring m = some addr → t.maps addr = s.maps addr) (hlook : t.Looking) {m : RingName}
    (hs : early m s.poll) (ht' : early m t.poll) : Turn rate s₀ t :=
  ht.move hinv hlinked hhook hobjects hring hmaps hlook
    (fun n o hp => ht.passed n o ((passed_early hs).2 ((passed_early ht').1 hp)))
    fun _ _ _ _ => stage_early m hs ht'

/-- A refresh that ends without an exchange: what is linked is in use, or there is nothing to use. -/
theorem Turn.finish (ht : Turn rate s₀ s) {m : RingName} (hs : early m s.poll) (hinv : Inv t)
    (hlinked : t.linked = s.linked)
    (hhook : t.onAttach = s.onAttach) (hobjects : t.objects = s.objects) (hring : t.ring = s.ring)
    (hmaps : ∀ m addr, s.ring m = some addr → t.maps addr = s.maps addr) (hpoll : t.poll = after m)
    (hdone : ∀ o, s.linked m = some o → (s.objects o).magic = kMagic → s.Attached m o) : Turn rate s₀ t := by
  refine ht.move hinv hlinked hhook hobjects hring hmaps ?_ (fun n o hp ho hmagic => ?_) fun _ o ho hmagic hstage => ?_
  · unfold Looking
    rw [hpoll]
    cases m <;> trivial
  · by_cases hn : n = m
    · subst hn
      exact hdone o ho hmagic
    · refine ht.passed n o ((passed_early hs).2 ?_) ho hmagic
      rw [hpoll] at hp
      cases m <;> cases n <;> simp_all [after, ShmMapper.passed]
  · rw [hpoll]
    cases m with
    | capture =>
      obtain ⟨hsame, hiff⟩ : Stage rate s₀ s o (.refresh .capture) := stage_early .capture hs rfl hstage
      exact ⟨fun _ => hsame, fun hnew => absurd (hiff.1 (hdone o ho hmagic)) hnew⟩
    | playback => exact stage_early (q := .refresh .playback) .playback hs rfl hstage

/-- The mappings in use survive what is unmapped from the thread's hands or off the list. -/
theorem Inv.ring_munmap (hi : Inv s) {gone : ℕ} (hgone : gone ∈ ShmMapper.probe s.poll ∨ ∃ e ∈ s.retired, e.1 = gone)
    (m : RingName) (addr : ℕ) (hring : s.ring m = some addr) : (s.munmap gone).maps addr = s.maps addr := by
  obtain ⟨hprobe, hretired⟩ := hi.ring_apart hring
  refine Function.update_of_ne ?_ _ _
  rintro rfl
  rcases hgone with hgone | ⟨e, he, heq⟩
  · exact hprobe hgone
  · exact hretired e he heq

theorem Turn.exchange (ht : Turn rate s₀ s) {m : RingName} {addr : ℕ} (hpoll : s.poll = .swapping m addr) :
    Turn rate s₀ (s.swap m addr) := by
  have hlook := ht.looking
  unfold Looking at hlook
  rw [hpoll] at hlook
  obtain ⟨mp, hmap, hlinked⟩ := hlook
  have hother (n : RingName) (hn : n ≠ m) (o : ℕ) : (s.swap m addr).Attached n o ↔ s.Attached n o :=
    attached_congr (s := s) (t := s.swap m addr) (Function.update_of_ne hn _ _) (fun _ _ => rfl) o
  have hnew (o : ℕ) (h : (s.swap m addr).Attached m o) : o = mp.object := by
    obtain ⟨addr', mp', hring, hmap', rfl⟩ := h
    obtain rfl := Option.some.inj ((Function.update_self m _ s.ring).symm.trans hring)
    obtain rfl := Option.some.inj (hmap.symm.trans hmap')
    rfl
  refine ⟨ht.inv.exchange hpoll, ht.linked, ht.onAttach, ht.words, fun n o o' ho hatt hid => ?_, trivial,
    fun n o hp ho hmagic => ?_, fun hon o ho hmagic => ?_⟩
  · by_cases hn : n = m
    · subst hn
      obtain rfl := hnew o' hatt
      exact Option.some.inj (hlinked.symm.trans ho)
    · exact ht.distinct n o o' ho ((hother n hn o').1 hatt) hid
  · by_cases hn : n = m
    · subst hn
      exact ⟨addr, mp, Function.update_self .., hmap, Option.some.inj (hlinked.symm.trans ho)⟩
    · refine (hother n hn o).2 (ht.passed n o ?_ ho hmagic)
      rw [hpoll]
      cases m <;> cases n <;> simp_all [ShmMapper.passed, swap]
  · have hstage := ht.stage hon o ho hmagic
    rw [hpoll] at hstage
    cases m <;> exact hstage

/-- The hook's two stores go to the linked capture ring. -/
theorem Turn.write (ht : Turn rate s₀ s) {q : Poll} {f : RingObject → RingObject} {cap : ℕ}
    (hcap : s.ring .capture = some cap)
    (hcaptured : ∀ o, s.linked .capture = some o → (s.objects o).magic = kMagic → s.Attached .capture o)
    (h : ({ s with poll := q } : ShmMapper).write cap f = some t)
    (hkeeps : Keeps s { s with poll := q }) (hf : ∀ r, (f r).magic = r.magic ∧ (f r).instanceId = r.instanceId)
    (hlook : ({ s with poll := q } : ShmMapper).Looking)
    (hpassed : ∀ m, ShmMapper.passed q m → m = .capture ∨ ShmMapper.passed s.poll m)
    (hstage : ∀ o, Stage rate s₀ s o s.poll → Stage rate s₀ (s.modify o f) o q) : Turn rate s₀ t := by
  obtain ⟨mp, hmp, rfl⟩ := Option.map_eq_some_iff.1 h
  have hatt (m o) : (({ s with poll := q } : ShmMapper).modify mp.object f).Attached m o ↔ s.Attached m o :=
    attached_congr rfl (fun _ _ => rfl) o
  have hwords (o) : ((({ s with poll := q } : ShmMapper).modify mp.object f).objects o).magic = (s.objects o).magic ∧
      ((({ s with poll := q } : ShmMapper).modify mp.object f).objects o).instanceId = (s.objects o).instanceId := by
    simp only [modify, Function.update_apply]
    split
    next heq => exact heq ▸ hf _
    next => exact ⟨rfl, rfl⟩
  have hk : Keeps s (({ s with poll := q } : ShmMapper).modify mp.object f) := { hkeeps with }
  refine ⟨hk.inv ht.inv, ht.linked, ht.onAttach, fun o => ?_, fun m o o' ho ha hid => ?_, hlook,
    fun m o hp ho hmagic => ?_, fun hon o ho hmagic => ?_⟩
  · exact ⟨(hwords o).1.trans (ht.words o).1, (hwords o).2.trans (ht.words o).2⟩
  · rw [(hwords o').2, (hwords o).2] at hid
    exact ht.distinct m o o' ho ((hatt m o').1 ha) hid
  · rw [(hwords o).1] at hmagic
    rcases hpassed m hp with rfl | hp
    · exact (hatt _ o).2 (hcaptured o ho hmagic)
    · exact (hatt m o).2 (ht.passed m o hp ho hmagic)
  · rw [(hwords o).1] at hmagic
    -- the ring written through is the linked one
    obtain ⟨addr, mp', hring, hmap, rfl⟩ := hcaptured o ho hmagic
    obtain rfl := Option.some.inj (hcap.symm.trans hring)
    obtain rfl := Option.some.inj (hmp.symm.trans hmap)
    exact hstage _ (ht.stage hon _ ho hmagic)

/-- A ring that is not the one in use is to be taken. -/
theorem Turn.compared (ht : Turn rate s₀ s) {m : RingName} {p : ℕ} (hpoll : s.poll = .checked m p)
    (hinv : Inv { s with poll := .swapping m p }) (hlook : ∃ mp, s.maps p = some mp ∧ s.linked m = some mp.object)
    (hnew : ∀ o, s.linked m = some o → ¬ s.Attached m o) : Turn rate s₀ { s with poll := .swapping m p } := by
  refine ht.move hinv rfl rfl rfl rfl (fun _ _ _ => rfl) hlook (fun n o hp => ht.passed n o ?_)
    fun _ o ho _ hstage => ?_
  · rw [hpoll]
    cases m <;> exact hp
  · rw [hpoll] at hstage
    cases m with
    | capture => exact ⟨hstage.1, fun h => hnew o ho (hstage.2.2 h)⟩
    | playback => exact hstage

/-- Nothing off the list is in use. -/
theorem Turn.reapOne (ht : Turn rate s₀ s) {now i : ℕ} (hpoll : s.poll = .reaping now i)
    (hinv : Inv (s.reapOne now i)) :
    Turn rate s₀ (s.reapOne now i) := by
  have hpass (m o) : s.linked m = some o → (s.objects o).magic = kMagic → s.Attached m o :=
    ht.passed m o (by rw [hpoll]; trivial)
  have hstage (o) : Stage rate s₀ s o s.poll → Stage rate s₀ s o .sleeping := by
    rw [hpoll]
    exact id
  unfold ShmMapper.reapOne at hinv ⊢
  cases hentry : s.retired[i]? with
  | none =>
    rw [hentry] at hinv
    exact ht.move hinv rfl rfl rfl rfl (fun _ _ _ => rfl) trivial (fun m o _ => hpass m o) fun _ o _ _ => hstage o
  | some e =>
    obtain ⟨addr, since⟩ := e
    rw [hentry] at hinv
    by_cases hold : now - since > kGrace
    · simp only [hold, if_true] at hinv ⊢
      refine ht.move hinv rfl rfl rfl rfl (ht.inv.ring_munmap (.inr ⟨_, List.mem_of_getElem? hentry, rfl⟩)) ?_ ht.passed
        fun _ _ _ _ h => h
      rw [Looking, show (s.munmap addr).poll = s.poll from rfl, hpoll]
      trivial
    · simp only [hold, if_false] at hinv ⊢
      exact ht.move hinv rfl rfl rfl rfl (fun _ _ _ => rfl) trivial (fun m o _ => hpass m o) fun _ o _ _ => hstage o

/-- The name is opened: what is found is the object linked. -/
theorem Turn.openRing (ht : Turn rate s₀ s) {m : RingName} (hp : s.poll = .refresh m) (hinv : Inv t)
    (h : ((s.linked m).map fun o => { s with poll := .opened m o }) = some t) : Turn rate s₀ t := by
  obtain ⟨o, ho, rfl⟩ := Option.map_eq_some_iff.1 h
  exact ht.onward (m := m) hinv rfl rfl rfl rfl (fun _ _ _ => rfl) ho (by rw [hp]; rfl) rfl

/-- It is mapped, away from the rings in use. -/
theorem Turn.mmap (ht : Turn rate s₀ s) {m : RingName} {addr o : ℕ} (hp : s.poll = .opened m o) (hinv : Inv t)
    (h : s.probeAt addr o m = some t) : Turn rate s₀ t := by
  have hlook := ht.looking
  rw [Looking, hp] at hlook
  unfold probeAt at h
  split at h
  · cases h
  next hfree =>
    obtain rfl := Option.some.inj h
    refine ht.onward (m := m) hinv rfl rfl rfl rfl (fun n cur hring => ?_) ⟨_, Function.update_self .., hlook⟩
      (by rw [hp]; rfl) rfl
    obtain ⟨mp, hmp⟩ := ht.inv.ring_mapped hring
    refine Function.update_of_ne ?_ _ _
    rintro rfl
    exact absurd (hfree.symm.trans hmp) (by simp)

/-- A ring that is not initialised yet is given up, which is no loss. -/
theorem Turn.readMagic (ht : Turn rate s₀ s) {m : RingName} {p : ℕ} (hp : s.poll = .probed m p) (hinv : Inv t)
    (h : ((s.read p).map fun r =>
      if r.magic ≠ kMagic then { s.munmap p with poll := after m } else { s with poll := .checked m p }) = some t) :
    Turn rate s₀ t := by
  have hlook := ht.looking
  rw [Looking, hp] at hlook
  obtain ⟨mp, hmp, hlinked⟩ := hlook
  obtain ⟨r, hr, rfl⟩ := Option.map_eq_some_iff.1 h
  rw [read, hmp] at hr
  obtain rfl := Option.some.inj hr
  split
  next hmagic =>
    rw [if_pos hmagic] at hinv
    refine ht.finish (m := m) (by rw [hp]; rfl) hinv rfl rfl rfl rfl
      (ht.inv.ring_munmap (.inl (by rw [hp]; exact List.mem_singleton_self _))) rfl fun o ho hready => ?_
    obtain rfl := Option.some.inj (hlinked.symm.trans ho)
    exact absurd hready hmagic
  next hmagic =>
    rw [if_neg hmagic] at hinv
    exact ht.onward (m := m) hinv rfl rfl rfl rfl (fun _ _ _ => rfl) ⟨mp, hmp, hlinked⟩ (by rw [hp]; rfl) rfl

/-- A ring with the run id of the one in use is that one. -/
theorem Turn.compare (ht : Turn rate s₀ s) {m : RingName} {p : ℕ} (hp : s.poll = .checked m p) (hinv : Inv t)
    (h : s.compareRuns m p = some t) : Turn rate s₀ t := by
  have hlook := ht.looking
  rw [Looking, hp] at hlook
  obtain ⟨mp, hmp, hlinked⟩ := hlook
  unfold compareRuns at h
  split at h
  next hring =>
    obtain rfl := Option.some.inj h
    refine ht.compared hp hinv ⟨mp, hmp, hlinked⟩ fun o ho hatt => ?_
    obtain ⟨addr, _, hring', -⟩ := hatt
    exact absurd (hring.symm.trans hring') (by simp)
  next cur hring =>
    obtain ⟨c, hc, h⟩ := Option.bind_eq_some_iff.1 h
    obtain ⟨r, hr, rfl⟩ := Option.map_eq_some_iff.1 h
    obtain ⟨mpc, hmpc, rfl⟩ := Option.map_eq_some_iff.1 hc
    rw [read, hmp] at hr
    obtain rfl := Option.some.inj hr
    split
    next hid =>
      rw [if_pos hid] at hinv
      refine ht.finish (m := m) (by rw [hp]; rfl) hinv rfl rfl rfl rfl
        (ht.inv.ring_munmap (.inl (by rw [hp]; exact List.mem_singleton_self _))) rfl fun o ho _ => ?_
      obtain rfl := Option.some.inj (hlinked.symm.trans ho)
      exact ⟨cur, mpc, hring, hmpc, ht.distinct m _ _ hlinked ⟨cur, mpc, hring, hmpc, rfl⟩ hid⟩
    next hid =>
      rw [if_neg hid] at hinv
      refine ht.compared hp hinv ⟨mp, hmp, hlinked⟩ fun o ho hatt => hid ?_
      obtain ⟨addr, mp', hring', hmap', rfl⟩ := hatt
      obtain rfl := Option.some.inj (hring.symm.trans hring')
      obtain rfl := Option.some.inj (hmpc.symm.trans hmap')
      exact congrArg (fun o => (s.objects o).instanceId) (Option.some.inj (ho.symm.trans hlinked))

/-- The ring taken out of use is listed. -/
theorem Turn.retire (ht : Turn rate s₀ s) {m : RingName} {old : Option ℕ} (hp : s.poll = .swapped m old)
    {retired : List (ℕ × ℕ)} (hinv : Inv { s with retired, poll := .attached m }) :
    Turn rate s₀ { s with retired, poll := .attached m } := by
  refine ht.move hinv rfl rfl rfl rfl (fun _ _ _ => rfl) trivial (fun n o hpass => ht.passed n o ?_)
    fun _ o _ _ hstage => ?_
  · rw [hp]
    cases m <;> exact hpass
  · rw [hp] at hstage
    cases m <;> exact hstage

/-- The hook's first store, if this is the ring it is for. -/
theorem Turn.hook (ht : Turn rate s₀ s) {m : RingName} (hp : s.poll = .attached m) (hinv : Inv t)
    (h : (if m = .capture ∧ s.onAttach then (s.ring m).bind fun cap =>
        ({ s with poll := .requested } : ShmMapper).write cap fun r => { r with requestedRate := rate }
      else some { s with poll := after m }) = some t) : Turn rate s₀ t := by
  split at h
  next hcond =>
    obtain ⟨rfl, -⟩ := hcond
    obtain ⟨cap, hcap, h⟩ := Option.bind_eq_some_iff.1 h
    refine ht.write hcap (fun o => ht.passed .capture o (by rw [hp]; rfl)) h
      (.goto (by rw [hp]; rfl) (by rw [hp]; rfl) (by simp)) (fun _ => ⟨rfl, rfl⟩) trivial (fun m hm => .inl hm)
      fun o hstage => ?_
    rw [hp] at hstage
    refine ⟨?_, hstage.2⟩
    rw [← hstage.1]
    exact Function.update_self ..
  next hcond =>
    obtain rfl := Option.some.inj h
    refine ht.move hinv rfl rfl rfl rfl (fun _ _ _ => rfl) ?_ (fun n o hpass => ht.passed n o ?_)
      fun hon o _ _ hstage => ?_
    · cases m <;> trivial
    · rw [hp]
      cases m
      · exact hpass
      · trivial
    · rw [hp] at hstage
      cases m
      · exact absurd ⟨rfl, hon⟩ hcond
      · exact hstage

/-- Its second. -/
theorem Turn.bump (ht : Turn rate s₀ s) (hp : s.poll = .requested)
    (h : ((s.ring .capture).bind fun cap =>
      ({ s with poll := after .capture } : ShmMapper).write cap fun r => { r with requestSeq := r.requestSeq + 1 }) =
        some t) : Turn rate s₀ t := by
  obtain ⟨cap, hcap, h⟩ := Option.bind_eq_some_iff.1 h
  refine ht.write hcap (fun o => ht.passed .capture o (by rw [hp]; rfl)) h
    (.goto (by rw [hp]; rfl) (by rw [hp]; rfl) (by simp [after])) (fun _ => ⟨rfl, rfl⟩) trivial (fun m hm => .inl hm)
    fun o hstage => ?_
  rw [hp] at hstage
  refine ⟨fun hold => absurd hold hstage.2, fun _ => ?_⟩
  refine (Function.update_self ..).trans ?_
  rw [hstage.1]

/-- Both refreshes are over. -/
theorem Turn.polled (ht : Turn rate s₀ s) (hp : s.poll = .polled) {constructing : Bool} {q : Poll}
    (hq : q = .sleeping ∨ ∃ now, q = .reaping now 0) (hinv : Inv { s with constructing, poll := q }) :
    Turn rate s₀ { s with constructing, poll := q } := by
  refine ht.move hinv rfl rfl rfl rfl (fun _ _ _ => rfl) ?_ (fun m o _ => ht.passed m o (by rw [hp]; trivial))
    fun _ o _ _ hstage => ?_
  · rcases hq with rfl | ⟨now, rfl⟩ <;> trivial
  · rw [hp] at hstage
    rcases hq with rfl | ⟨now, rfl⟩ <;> exact hstage

/-- Time passes, and callbacks come and go. -/
theorem Turn.callbacks (ht : Turn rate s₀ s) {now : ℕ} {callbacks : List Callback}
    (hinv : Inv { s with now, callbacks }) : Turn rate s₀ { s with now, callbacks } :=
  ht.move hinv rfl rfl rfl rfl (fun _ _ _ => rfl) ht.looking ht.passed fun _ _ _ _ h => h

theorem step_turn (s : ShmMapper) (a : MapAct) (t : ShmMapper) (ht : Turn rate s₀ s) (hq : quiet rate s a)
    (h : s.step a = some t) : Turn rate s₀ t := by
  have hinv := step_inv s a t ht.inv h
  unfold step at h
  split at h
  next =>
    obtain rfl := Option.some.inj h
    exact ht.callbacks hinv
  next => cases hq
  next => cases hq
  next => cases hq
  next => cases hq
  next => cases hq
  next => cases hq
  next m hp =>
    obtain rfl := Option.some.inj h
    refine ht.finish (m := m) (by rw [hp]; rfl) hinv rfl rfl rfl rfl (fun _ _ _ => rfl) rfl fun o ho => ?_
    simp [quiet, hp, ho] at hq
  next m hp => exact ht.openRing hp hinv h
  next => cases hq
  next addr m o hp => exact ht.mmap hp hinv h
  next m p hp => exact ht.readMagic hp hinv h
  next m p hp => exact ht.compare hp hinv h
  next m p hp => exact Option.some.inj h ▸ ht.exchange hp
  next m old hp =>
    obtain rfl := Option.some.inj h
    exact ht.retire hp hinv
  next r m hp =>
    obtain rfl : r = rate := eq_of_beq hq
    exact ht.hook hp hinv h
  next hp => exact ht.bump hp h
  next hp =>
    split at h
    · obtain rfl := Option.some.inj h
      exact ht.polled hp (.inl rfl) hinv
    · obtain rfl := Option.some.inj h
      exact ht.polled hp (.inr ⟨_, rfl⟩) hinv
  next now i hp => exact Option.some.inj h ▸ ht.reapOne hp (Option.some.inj h ▸ hinv)
  next => cases hq
  next m _ =>
    split at h
    · exact Option.some.inj h ▸ ht
    · obtain ⟨mp, -, rfl⟩ := Option.map_eq_some_iff.1 h
      exact ht.callbacks hinv
  next =>
    obtain rfl := Option.some.inj h
    exact ht.callbacks hinv
  next => cases h

/-- A turn of the thread in which every call succeeds and no daemon starts, from any state
the plugin can be in. A ring that is initialised is the one in use at its end; the capture
ring, if it was not in use before, has been asked for the host's rate, once. -/
theorem poll_follows {pre as : List MapAct} (hs : run step {} pre = some s) (hstart : s.poll = .refresh .capture)
    (hdistinct : ∀ m, s.Distinct m) (hquiet : Meets step (fun s a => quiet rate s a) s as) (h : run step s as = some t)
    (hend : t.poll = .sleeping) :
    (∀ m o, s.linked m = some o → (s.objects o).magic = kMagic → t.Attached m o) ∧
    (s.onAttach = true → ∀ o, s.linked .capture = some o → (s.objects o).magic = kMagic →
      (s.Attached .capture o → t.objects o = s.objects o) ∧ (¬ s.Attached .capture o →
        t.objects o = { s.objects o with requestedRate := rate, requestSeq := (s.objects o).requestSeq + 1 })) := by
  have hturn : Turn rate s s := by
    refine ⟨run_inv hs, rfl, rfl, fun _ => ⟨rfl, rfl⟩, hdistinct, ?_, fun m o hp => ?_, fun _ o _ _ => ?_⟩
    · rw [Looking, hstart]
      trivial
    · rw [hstart] at hp
      exact hp.elim
    · rw [hstart]
      exact ⟨rfl, Iff.rfl⟩
  have ht : Turn rate s t := hquiet.inv (Turn rate s) step_turn h hturn
  refine ⟨fun m o ho hmagic => ht.passed m o ?_ (ht.linked ▸ ho) ((ht.words o).1 ▸ hmagic), fun hon o ho hmagic => ?_⟩
  · rw [hend]
    trivial
  · have hstage := ht.stage (ht.onAttach ▸ hon) o (ht.linked ▸ ho) ((ht.words o).1 ▸ hmagic)
    rw [hend] at hstage
    exact hstage

/-- Attached to one daemon, with the next one's capture ring there. -/
def restarted : List MapAct :=
  daemonStart .capture 0 7 ++ attaching 64 ++ [.openFails, .startReap, .setOnCaptureAttach] ++
  daemonStart .capture 1 9 ++ [.wake]

/-- The whole turn that finds the new ring, and reaps the old one. -/
def turn : List MapAct := attaching 65 ++ [.bump, .openFails, .startReap, .tick 20, .reap, .reap]

theorem restarted_distinct {s : ShmMapper} (h : run step {} restarted = some s) (m : RingName) : s.Distinct m := by
  obtain rfl := Option.some.inj ((show run step {} restarted = some _ from rfl).symm.trans h)
  cases m with
  | capture =>
    rintro _ _ ⟨⟩ ⟨_, _, ⟨⟩, ⟨⟩, rfl⟩ hid
    exact absurd hid (by decide)
  | playback =>
    rintro o o' ⟨⟩

theorem poll_follows_restart :
    ∃ s t, run step {} restarted = some s ∧ run step s turn = some t ∧ t.Attached .capture 1 ∧
    (t.objects 1).requestedRate = 48000 ∧ (t.objects 1).requestSeq = 1 := by
  obtain ⟨s, hs⟩ : ∃ s, run step {} restarted = some s := ⟨_, rfl⟩
  have hs' := Option.some.inj ((show run step {} restarted = some _ from rfl).symm.trans hs)
  obtain ⟨t, ht⟩ : ∃ t, run step s turn = some t := hs' ▸ ⟨_, rfl⟩
  have hend : t.poll = .sleeping := by
    subst hs'
    obtain rfl := Option.some.inj ((show run step _ turn = some _ from rfl).symm.trans ht)
    rfl
  have hquiet : Meets step (fun s a => quiet 48000 s a) s turn := by
    subst hs'
    decide
  obtain ⟨hatt, hasked⟩ := poll_follows hs (by subst hs'; rfl) (restarted_distinct hs) hquiet ht hend
  have hnew : ¬ s.Attached .capture 1 := by
    subst hs'
    rintro ⟨_, _, ⟨⟩, ⟨⟩, h⟩
    exact absurd h (by decide)
  have hobject := (hasked (by subst hs'; rfl) 1 (by subst hs'; rfl) (by subst hs'; rfl)).2 hnew
  refine ⟨s, t, hs, ht, hatt .capture 1 (by subst hs'; rfl) (by subst hs'; rfl), ?_, ?_⟩
  · rw [hobject]
  · rw [hobject]
    subst hs'
    rfl

end ShmMapper

/-! ## A slot held between two callbacks -/

/-- `UFIOHandler`'s own pointers beside the mapper: the ring of the last callback and the
slot it left half used, here the mapping the slot lies in. Not in the source: the exchanges
there had been by that callback, and for every callback that went on with a held slot, the
mapping of the slot and the mapping of the ring it takes it for one of. -/
structure IOHandler where
  mapper : ShmMapper := {}
  last : RingName → Option ℕ := fun _ => none
  slot : RingName → Option ℕ := fun _ => none
  swaps : RingName → ℕ := fun _ => 0
  used : List (ℕ × ℕ) := []

/-- How a callback leaves its slot: untouched, given back, or given back and another taken. -/
inductive SlotEnd where
  | same | none | fresh
  deriving DecidableEq

/-- The mapper's steps, and a whole callback. -/
inductive IOAct where
  | map (a : MapAct)
  | callback (m : RingName) (atEnd : SlotEnd)

namespace IOHandler

/-- The pointer check at the head of `OnReadClientInput` and `OnWriteMixedOutput`. -/
def check (s : IOHandler) (m : RingName) (addr : ℕ) : IOHandler :=
  if s.last m = some addr then s
  else { s with last := Function.update s.last m (some addr), slot := Function.update s.slot m none }

/-- The rest of the callback, with the ring it has loaded. -/
def work (s : IOHandler) (m : RingName) (serial : ℕ) (atEnd : SlotEnd) : IOHandler := { s with
  used := s.used ++ ((s.slot m).map fun held => (held, serial)).toList
  slot := Function.update s.slot m (match atEnd with
    | .same => s.slot m
    | .none => none
    | .fresh => some serial)
  swaps := Function.update s.swaps m (s.mapper.swaps m) }

/-- A callback without a ring does nothing. -/
def step (s : IOHandler) : IOAct → Option IOHandler
  | .map a => (s.mapper.step a).map fun mapper => { s with mapper }
  | .callback m atEnd =>
    match s.mapper.ring m with
    | none => some s
    | some addr => (s.mapper.maps addr).map fun mp => (s.check m addr).work m mp.serial atEnd

/-- Since the last callback on that ring, the pointer was exchanged once at most. -/
def AtMostOnce (s : IOHandler) : IOAct → Prop
  | .map _ => True
  | .callback m _ => s.mapper.swaps m ≤ s.swaps m + 1

instance (s : IOHandler) : ∀ a, Decidable (s.AtMostOnce a)
  | .map _ => inferInstanceAs (Decidable True)
  | .callback m _ => inferInstanceAs (Decidable (s.mapper.swaps m ≤ s.swaps m + 1))

/-- The slot is one of the ring it was taken from: that ring is in use until the exchange,
and the one exchanged for it is elsewhere while both are mapped. -/
structure Holds (s : IOHandler) (m : RingName) (addr held : ℕ) : Prop where
  before : s.mapper.swaps m = s.swaps m →
    s.mapper.ring m = some addr ∧ ∃ mp, s.mapper.maps addr = some mp ∧ mp.serial = held
  after : s.mapper.swaps m = s.swaps m + 1 → s.mapper.ring m ≠ some addr

/-- A slot left half used is of the ring in use, until the second exchange since then. -/
structure Inv (s : IOHandler) : Prop where
  mapper : s.mapper.Inv
  swaps : ∀ m, s.swaps m ≤ s.mapper.swaps m
  holds : ∀ m addr held, s.last m = some addr → s.slot m = some held → s.Holds m addr held
  used : ∀ u ∈ s.used, u.1 = u.2

variable {s t : IOHandler}

/-- The rings in use are where they were, the exchanges as many. -/
theorem Inv.mapped (hi : Inv s) {mapper : ShmMapper} (hinv : mapper.Inv) (hring : mapper.ring = s.mapper.ring)
    (hswaps : mapper.swaps = s.mapper.swaps)
    (hmaps : ∀ m addr, s.mapper.ring m = some addr → mapper.maps addr = s.mapper.maps addr) :
    Inv { s with mapper } where
  mapper := hinv
  swaps m := hswaps ▸ hi.swaps m
  holds m addr held hlast hslot := by
    obtain ⟨hbefore, hafter⟩ := hi.holds m addr held hlast hslot
    constructor
    · intro h
      obtain ⟨hcur, hmap⟩ := hbefore (hswaps ▸ h)
      exact ⟨hring ▸ hcur, hmaps m addr hcur ▸ hmap⟩
    · intro h
      exact hring ▸ hafter (hswaps ▸ h)
  used := hi.used

theorem Inv.swapped (hi : Inv s) {m : RingName} {probe : ℕ} (hpoll : s.mapper.poll = .swapping m probe) :
    Inv { s with mapper := s.mapper.swap m probe } where
  mapper := hi.mapper.exchange hpoll
  swaps n := by
    refine (hi.swaps n).trans ?_
    simp only [ShmMapper.swap, Function.update_apply]
    split
    next h => exact h ▸ Nat.le_succ _
    next => exact Nat.le_refl _
  holds n addr held hlast hslot := by
    obtain ⟨hbefore, hafter⟩ := hi.holds n addr held hlast hslot
    by_cases hn : n = m
    · subst hn
      have hle := hi.swaps n
      refine ⟨fun h => ?_, fun h => ?_⟩
      · simp only [ShmMapper.swap, Function.update_self] at h
        omega
      · simp only [ShmMapper.swap, Function.update_self, Nat.add_right_cancel_iff] at h
        -- the probe was mapped while the ring in use still was
        have hapart := (hi.mapper.ring_apart (hbefore h).1).1
        simp only [hpoll, ShmMapper.probe, List.mem_singleton] at hapart
        simpa [ShmMapper.swap] using Ne.symm hapart
    · simp only [ShmMapper.swap] at *
      constructor <;> simpa only [Function.update_of_ne hn]
  used := hi.used

theorem Inv.map (hi : Inv s) {a : MapAct} {mapper : ShmMapper} (h : s.mapper.step a = some mapper) :
    Inv { s with mapper } := by
  have hinv := ShmMapper.step_inv _ a _ hi.mapper h
  cases ShmMapper.step_effect h with
  | keeps hk => exact hi.mapped hinv hk.ring hk.swaps fun _ _ _ => by rw [hk.maps]
  | map hpoll hfree =>
    refine hi.mapped hinv rfl rfl fun m addr hring => Function.update_of_ne ?_ _ _
    obtain ⟨mp, hmp⟩ := hi.mapper.ring_mapped hring
    rintro rfl
    exact absurd (hfree.symm.trans hmp) (by simp)
  | drop hprobe =>
    exact hi.mapped hinv rfl rfl (hi.mapper.ring_munmap (.inl (by rw [hprobe]; exact List.mem_singleton_self _)))
  | exchange hpoll => exact hi.swapped hpoll
  | retire => exact hi.mapped hinv rfl rfl fun _ _ _ => rfl
  | reap hpoll hentry =>
    exact hi.mapped hinv rfl rfl (hi.mapper.ring_munmap (.inr ⟨_, List.mem_of_getElem? hentry, rfl⟩))
  | enter => exact hi.mapped hinv rfl rfl fun _ _ _ => rfl
  | leave => exact hi.mapped hinv rfl rfl fun _ _ _ => rfl

/-- The check leaves no slot of another ring. -/
theorem Inv.checked (hi : Inv s) {m : RingName} {addr : ℕ} {mp : Mapping} (hring : s.mapper.ring m = some addr)
    (hmap : s.mapper.maps addr = some mp) (honce : s.mapper.swaps m ≤ s.swaps m + 1) {held : ℕ}
    (hheld : (s.check m addr).slot m = some held) : held = mp.serial := by
  unfold check at hheld
  split at hheld
  next hlast =>
    obtain ⟨hbefore, hafter⟩ := hi.holds m addr held hlast hheld
    have hle := hi.swaps m
    rcases (show s.mapper.swaps m = s.swaps m ∨ s.mapper.swaps m = s.swaps m + 1 by omega) with h | h
    · obtain ⟨-, mp', hmap', hserial⟩ := hbefore h
      obtain rfl := Option.some.inj (hmap.symm.trans hmap')
      exact hserial.symm
    · exact absurd hring (hafter h)
  next => simp at hheld

@[simp] theorem check_mapper (s : IOHandler) (m : RingName) (addr : ℕ) : (s.check m addr).mapper = s.mapper := by
  unfold check
  split <;> rfl

@[simp] theorem check_swaps (s : IOHandler) (m : RingName) (addr : ℕ) : (s.check m addr).swaps = s.swaps := by
  unfold check
  split <;> rfl

@[simp] theorem check_used (s : IOHandler) (m : RingName) (addr : ℕ) : (s.check m addr).used = s.used := by
  unfold check
  split <;> rfl

theorem check_last (s : IOHandler) (m : RingName) (addr : ℕ) :
    (s.check m addr).last = Function.update s.last m (some addr) := by
  unfold check
  split
  next h => rw [← h, Function.update_eq_self]
  next => rfl

theorem check_slot (s : IOHandler) {m n : RingName} (addr : ℕ) (hn : n ≠ m) : (s.check m addr).slot n = s.slot n := by
  unfold check
  split
  · rfl
  · exact Function.update_of_ne hn _ _

theorem Inv.callback (hi : Inv s) {m : RingName} {addr : ℕ} {mp : Mapping} (hring : s.mapper.ring m = some addr)
    (hmap : s.mapper.maps addr = some mp) (honce : s.mapper.swaps m ≤ s.swaps m + 1) (atEnd : SlotEnd) :
    Inv ((s.check m addr).work m mp.serial atEnd) where
  mapper := by simpa [work] using hi.mapper
  swaps n := by
    simp only [work, check_mapper, check_swaps, Function.update_apply]
    split
    next h => exact h ▸ Nat.le_refl _
    next => exact hi.swaps n
  holds n addr' held hlast hslot := by
    simp only [work, check_last, Function.update_apply] at hlast hslot
    by_cases hn : n = m
    · subst hn
      simp only [if_true, Option.some.injEq] at hlast hslot
      subst hlast
      have hheld : held = mp.serial := by
        cases atEnd with
        | same => exact hi.checked hring hmap honce hslot
        | none => cases hslot
        | fresh => exact (Option.some.inj hslot).symm
      refine ⟨fun _ => ?_, fun h => ?_⟩
      · simp only [work, check_mapper]
        exact ⟨hring, mp, hmap, hheld.symm⟩
      · simp only [work, check_mapper, Function.update_self] at h
        omega
    · simp only [hn, if_false, check_slot s addr hn] at hlast hslot
      obtain ⟨hbefore, hafter⟩ := hi.holds n addr' held hlast hslot
      constructor <;> simpa only [work, check_mapper, check_swaps, Function.update_of_ne hn]
  used u hu := by
    simp only [work, check_used] at hu
    rcases List.mem_append.1 hu with hu | hu
    · exact hi.used u hu
    · obtain ⟨held, hheld, rfl⟩ := Option.map_eq_some_iff.1 (Option.mem_toList.1 hu)
      exact hi.checked hring hmap honce hheld

theorem step_inv (s : IOHandler) (a : IOAct) (t : IOHandler) (hi : Inv s) (ha : s.AtMostOnce a)
    (h : s.step a = some t) : Inv t := by
  cases a with
  | map a =>
    obtain ⟨mapper, hmapper, rfl⟩ := Option.map_eq_some_iff.1 h
    exact hi.map hmapper
  | callback m atEnd =>
    simp only [step] at h
    cases hring : s.mapper.ring m with
    | none =>
      rw [hring] at h
      exact Option.some.inj h ▸ hi
    | some addr =>
      rw [hring] at h
      obtain ⟨mp, hmap, rfl⟩ := Option.map_eq_some_iff.1 h
      exact hi.callback hring hmap ha atEnd

theorem start_inv : Inv {} where
  mapper := ShmMapper.start_inv
  swaps _ := Nat.le_refl _
  holds _ _ _ h := nomatch h
  used _ h := nomatch h

/-- A callback takes a slot, the next one goes on with it, and after the ring has been
replaced the one after that starts afresh. -/
def playing : List IOAct :=
  (ShmMapper.daemonStart .capture 0 7 ++ ShmMapper.attaching 64 ++ [MapAct.openFails, .startReap]).map IOAct.map ++
  [.callback .capture .fresh, .callback .capture .same] ++
  (ShmMapper.daemonStart .capture 1 9 ++ [MapAct.wake] ++ ShmMapper.attaching 65).map IOAct.map ++
  [.callback .capture .fresh, .callback .capture .none]

/-- Two daemons later, and no callback in between: the first ring's address is free by then,
the third ring is mapped there, and the callback goes on with a slot of the first. -/
def reused : List IOAct :=
  (ShmMapper.replaced.take 14).map IOAct.map ++ [.callback .capture .fresh] ++
  (ShmMapper.replaced.drop 14 ++
    [MapAct.reap, .reap, .tick 6000000000, .wake, .openFails, .openFails, .startReap, .reap, .reap] ++
    ShmMapper.daemonStart .capture 2 11 ++ [MapAct.wake] ++ ShmMapper.attaching 64).map IOAct.map ++
  [.callback .capture .same]

theorem held_slot_reused : ∃ s, run step {} reused = some s ∧ s.used = [(0, 2)] :=
  ⟨_, rfl, rfl⟩

end IOHandler
end UserFace800.Audio
