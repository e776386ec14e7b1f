import UserFace800.Lib.Seqlock
/-!
# What is shared between processes

The three payloads that cross a process boundary under a seqlock: the clock
anchor in the audio ring (`uf_shm_ring.hpp`), the state the daemon publishes for
its front-ends (`uf_state_shm.hpp`) and the status page the completion interrupt
of the driver extension publishes for the daemon. Each is the library's seqlock
with its own words and its own two functions; `seqlocks_coherent` is what a
successful read returns. The state segment is the one whose publishes store part
of the payload: a reader sees the segment as one publish left it, and what that
publish did not store is older.
-/
open UserFace800.Lib UserFace800.Lib.Seqlock

namespace UserFace800.Shared

/-- A word of a shared page. -/
abbrev Word := BitVec 64

theorem even_of_land {s0 : Word} (h : (s0 &&& 1 == 0) = true) : s0.toNat % 2 = 0 := by
  have := congrArg BitVec.toNat (beq_iff_eq.1 h)
  rw [BitVec.toNat_and] at this
  exact (Nat.and_one_is_mod _).symm.trans this

/-! ## The clock anchor -/

/-- The words of the anchor. -/
inductive TimestampWord where
  | tsSampleTime
  | tsHostTime
  deriving DecidableEq

/-- `Ring::publishTimestamp`; the sample time is a double's 64 bits. -/
def publishTimestamp (sampleTime hostTime : Word) : List (Instr TimestampWord Word) :=
  [.load, .mark 1, .put .tsSampleTime sampleTime, .put .tsHostTime hostTime, .mark 2]

/-- What a publish stores, in order. -/
def timestamp (sampleTime hostTime : Word) : List (TimestampWord × Word) :=
  [(.tsSampleTime, sampleTime), (.tsHostTime, hostTime)]

theorem publishTimestamp_eq (sampleTime hostTime : Word) :
    publishTimestamp sampleTime hostTime = bracket false (timestamp sampleTime hostTime) := rfl

/-- The stores are those of a publish. -/
def isTimestamp : List (TimestampWord × Word) → Bool
  | [(.tsSampleTime, _), (.tsHostTime, _)] => true
  | _ => false

/-- `Ring::publishTimestamp` and `Ring::readTimestamp`, which does not try again
and refuses a word that is 0 or odd at once. -/
def ring : Protocol TimestampWord Word where
  reload := false
  stores := isTimestamp
  order o := o == [.tsSampleTime, .tsHostTime]
  tries := 1
  enter s0 := !(s0 == 0) && s0 &&& 1 == 0
  accept _ := true

/-! ## The status page -/

/-- The words of the status page. -/
inductive StatusWord where
  | irqCount
  | rxCompleted
  | txSent
  | hostTime
  | cycleTimer
  | irqEvery
  deriving DecidableEq

/-- The publish of `uf_iso_completion`, which loads the sequence word twice. -/
def uf_iso_completion (irqCount rxCompleted txSent host : Word) (cycle irqEvery : BitVec 32) :
    List (Instr StatusWord Word) :=
  [.load, .mark 1, .put .irqCount irqCount, .put .rxCompleted rxCompleted, .put .txSent txSent, .put .hostTime host,
    .put .cycleTimer (cycle.setWidth 64), .put .irqEvery (irqEvery.setWidth 64), .load, .mark 1]

/-- What a publish stores, in order. -/
def status (irqCount rxCompleted txSent host : Word) (cycle irqEvery : BitVec 32) : List (StatusWord × Word) :=
  [(.irqCount, irqCount), (.rxCompleted, rxCompleted), (.txSent, txSent), (.hostTime, host),
    (.cycleTimer, cycle.setWidth 64), (.irqEvery, irqEvery.setWidth 64)]

theorem uf_iso_completion_eq (irqCount rxCompleted txSent host : Word) (cycle irqEvery : BitVec 32) :
    uf_iso_completion irqCount rxCompleted txSent host cycle irqEvery =
      bracket true (status irqCount rxCompleted txSent host cycle irqEvery) := rfl

/-- The two 32-bit words are held in 64. -/
def isStatus : List (StatusWord × Word) → Bool
  | [(.irqCount, _), (.rxCompleted, _), (.txSent, _), (.hostTime, _), (.cycleTimer, c), (.irqEvery, e)] =>
    c == (c.setWidth 32).setWidth 64 && e == (e.setWidth 32).setWidth 64
  | _ => false

/-- The publish of `uf_iso_completion`, and `status_read`, which tries four times
and reports a read of sequence 0 as a failure. -/
def statusPage : Protocol StatusWord Word where
  reload := true
  stores := isStatus
  order o := o == [.irqCount, .rxCompleted, .txSent, .hostTime, .cycleTimer]
  tries := 4
  enter s0 := s0 &&& 1 == 0
  accept s0 := !(s0 == 0)

/-! ## The state segment -/

/-- The cells of the device's mixer. -/
abbrev kCells : ℕ := 2048
/-- The mixer's channels. -/
abbrev kMixerCh : ℕ := 28

/-- The fields of `Shared` but for the sequence word, element by element. -/
inductive SharedWord where
  | magic
  | version
  | deviceRate
  | clockSource
  | clockLocked
  | dbq
  | cells (i : Fin kCells)
  | inputFlags (s d : Fin kMixerCh)
  | playbackFlags (s d : Fin kMixerCh)
  | outputFlags (o : Fin kMixerCh)
  | inputGain (s d : Fin kMixerCh)
  | playbackGain (s d : Fin kMixerCh)
  | outputGain (o : Fin kMixerCh)
  | stereoIn
  | stereoPb
  | inputMeters (i : Fin kMixerCh)
  | playbackMeters (i : Fin kMixerCh)
  | meterFrames
  | deviceMeters (i : Fin 32)
  | deviceMeterSeq
  | settings (i : Fin 12)
  deriving DecidableEq

/-- `state::publish`, with the stores the callback makes. -/
def publish (fill : List (SharedWord × Word)) : List (Instr SharedWord Word) :=
  [.load, .mark 1] ++ puts fill ++ [.mark 2]

theorem publish_eq (fill : List (SharedWord × Word)) : publish fill = bracket false fill := rfl

/-- The words of a square of channels, row by row. -/
def grid (f : Fin kMixerCh → Fin kMixerCh → SharedWord) : List SharedWord :=
  (List.finRange kMixerCh).flatMap fun s => (List.finRange kMixerCh).map (f s)

theorem mem_grid (f : Fin kMixerCh → Fin kMixerCh → SharedWord) (s d : Fin kMixerCh) : f s d ∈ grid f :=
  List.mem_flatMap.2 ⟨s, List.mem_finRange s, List.mem_map.2 ⟨d, List.mem_finRange d, rfl⟩⟩

/-- What `publish_mixer` stores. -/
def mixerWords : List SharedWord :=
  (List.finRange kCells).map .cells ++ grid .inputFlags ++ grid .inputGain ++ grid .playbackFlags ++
    grid .playbackGain ++ (List.finRange kMixerCh).map .outputFlags ++ (List.finRange kMixerCh).map .outputGain ++
    [.stereoIn, .stereoPb]

/-- The words of the settings. -/
def settingsWords : List SharedWord := (List.finRange 12).map .settings

/-- The whole payload. -/
def sharedWords : List SharedWord :=
  [.magic, .version, .deviceRate, .clockSource, .clockLocked, .dbq] ++ mixerWords ++
    (List.finRange kMixerCh).map .inputMeters ++ (List.finRange kMixerCh).map .playbackMeters ++ [.meterFrames] ++
    (List.finRange 32).map .deviceMeters ++ [.deviceMeterSeq] ++ settingsWords

theorem mem_sharedWords (w : SharedWord) : w ∈ sharedWords := by
  cases w <;> simp [sharedWords, mixerWords, settingsWords, mem_grid]

/-- `state::publish` with any callback and `state::read`, whose copy may take the
words in any order. -/
def segment : Protocol SharedWord Word where
  reload := false
  stores _ := true
  order o := sharedWords.all (· ∈ o)
  tries := 1
  enter s0 := s0 &&& 1 == 0
  accept _ := true

/-! ## What a successful read returns -/

theorem eq_timestamp {stores : List (TimestampWord × Word)} (h : isTimestamp stores = true) :
    ∃ sampleTime hostTime, stores = timestamp sampleTime hostTime := by
  unfold isTimestamp at h
  split at h
  · exact ⟨_, _, rfl⟩
  · cases h

theorem eq_status {stores : List (StatusWord × Word)} (h : isStatus stores = true) :
    ∃ irqCount rxCompleted txSent host cycle irqEvery,
      stores = status irqCount rxCompleted txSent host cycle irqEvery := by
  unfold isStatus at h
  split at h
  · rename_i irq rx tx host c e
    rw [Bool.and_eq_true] at h
    refine ⟨irq, rx, tx, host, c.setWidth 32, e.setWidth 32, ?_⟩
    unfold status
    rw [← beq_iff_eq.1 h.1, ← beq_iff_eq.1 h.2]
  · cases h

theorem ring_odd (s0 : Word) (h : ring.enter s0 = true) : s0.toNat % 2 = 0 :=
  even_of_land ((Bool.and_eq_true _ _).mp h).2

theorem statusPage_odd (s0 : Word) (h : statusPage.enter s0 = true) : s0.toNat % 2 = 0 := even_of_land h

theorem segment_sharedWords : segment.order sharedWords = true := by
  simp only [segment, List.all_eq_true, decide_eq_true_eq]
  exact fun _ h => h

theorem segment_odd (s0 : Word) (h : segment.enter s0 = true) : s0.toNat % 2 = 0 := even_of_land h

/-- Every successful read of the anchor is one publish's, and so is every
successful read of the status page; a successful read of the segment is the
whole of it as one publish left it, or as it was before the first. -/
theorem seqlocks_coherent :
    (∀ (R : Type) [DecidableEq R] (data : TimestampWord → Word) (as : List (Act R TimestampWord Word))
      (s : State R TimestampWord Word) (r : R) (s0 : Word) (got : List (TimestampWord × Word)),
      run (step ring) (.init data) as = some s → s.log.length < 2 ^ 63 → s.readers r = .back true s0 got →
      got ∈ s.log ∧ ∃ sampleTime hostTime, got = timestamp sampleTime hostTime) ∧
    (∀ (R : Type) [DecidableEq R] (data : StatusWord → Word) (as : List (Act R StatusWord Word))
      (s : State R StatusWord Word) (r : R) (s0 : Word) (got : List (StatusWord × Word)),
      run (step statusPage) (.init data) as = some s → s.log.length < 2 ^ 63 → s.readers r = .back true s0 got →
      ∃ irqCount rxCompleted txSent host cycle irqEvery,
        status irqCount rxCompleted txSent host cycle irqEvery ∈ s.log ∧
        got = (status irqCount rxCompleted txSent host cycle irqEvery).take 5) ∧
    (∀ (R : Type) [DecidableEq R] (data : SharedWord → Word) (as : List (Act R SharedWord Word))
      (s : State R SharedWord Word) (r : R) (s0 : Word) (got : List (SharedWord × Word)),
      run (step segment) (.init data) as = some s → s.log.length < 2 ^ 63 → s.readers r = .back true s0 got →
      ∃ k ≤ s.log.length, (∀ w, w ∈ got.map Prod.fst) ∧ ∀ x ∈ got, x.2 = contents data (s.log.take k) x.1) := by
  refine ⟨?_, ?_, ?_⟩
  · intro R _ data as s r s0 got hr hn hback
    obtain ⟨order, ho, stores, hmem, hst, base, rfl⟩ := coherent_published ring_odd (.inl rfl) hr hn hback
    obtain ⟨sampleTime, hostTime, rfl⟩ := eq_timestamp hst
    rw [beq_iff_eq.1 ho]
    exact ⟨hmem, sampleTime, hostTime, rfl⟩
  · intro R _ data as s r s0 got hr hn hback
    obtain ⟨order, ho, stores, hmem, hst, base, rfl⟩ := coherent_published statusPage_odd (.inr rfl) hr hn hback
    obtain ⟨irqCount, rxCompleted, txSent, host, cycle, irqEvery, rfl⟩ := eq_status hst
    rw [beq_iff_eq.1 ho]
    exact ⟨irqCount, rxCompleted, txSent, host, cycle, irqEvery, hmem, rfl⟩
  · intro R _ data as s r s0 got hr hn hback
    obtain ⟨-, -, order, ho, k, hk, -, rfl⟩ := coherent segment_odd hr hn hback
    refine ⟨k, hk, fun w => ?_, fun x hx => ?_⟩
    · rw [List.map_map]
      exact List.mem_map.2 ⟨w, of_decide_eq_true (List.all_eq_true.1 ho w (mem_sharedWords w)), rfl⟩
    · obtain ⟨w, -, rfl⟩ := List.mem_map.1 hx
      rfl

/-- Each of the three published once and then read. -/
theorem seqlocks_coherent_read :
    (∃ as s, run (step (R := Unit) ring) (.init fun _ => 0) as = some s ∧
      s.readers () = .back true 2 (timestamp 48000 7) ∧ timestamp 48000 7 ∈ s.log) ∧
    (∃ as s, run (step (R := Unit) statusPage) (.init fun _ => 0) as = some s ∧
      s.readers () = .back true 2 ((status 1 2 3 4 5 6).take 5) ∧
      ∃ irqCount rxCompleted txSent host cycle irqEvery,
        status irqCount rxCompleted txSent host cycle irqEvery ∈ s.log ∧
        (status 1 2 3 4 5 6).take 5 = (status irqCount rxCompleted txSent host cycle irqEvery).take 5) ∧
    (∃ as s got, run (step (R := Unit) segment) (.init fun _ => 0) as = some s ∧ s.readers () = .back true 2 got ∧
      (SharedWord.stereoIn, 3) ∈ got ∧
      ∃ k ≤ s.log.length, (∀ w, w ∈ got.map Prod.fst) ∧ ∀ x ∈ got, x.2 = contents (fun _ => 0) (s.log.take k) x.1) := by
  refine ⟨?_, ?_, ?_⟩
  · obtain ⟨as, t, hrun, hlog, hback⟩ := run_published (p := ring) (s := State.init fun _ => 0) (r := ()) rfl
      (timestamp 48000 7) rfl rfl [.tsSampleTime, .tsHostTime] rfl rfl rfl
    have h := seqlocks_coherent.1 Unit (fun _ => 0) as t () _ _ hrun (by rw [hlog]; decide) hback
    exact ⟨as, t, hrun, hback, h.1⟩
  · obtain ⟨as, t, hrun, hlog, hback⟩ := run_published (p := statusPage) (s := State.init fun _ => 0) (r := ()) rfl
      (status 1 2 3 4 5 6) rfl rfl [.irqCount, .rxCompleted, .txSent, .hostTime, .cycleTimer] rfl rfl rfl
    have h := seqlocks_coherent.2.1 Unit (fun _ => 0) as t () _ _ hrun (by rw [hlog]; decide) hback
    exact ⟨as, t, hrun, hback, h⟩
  · obtain ⟨as, t, hrun, hlog, hback⟩ := run_published (p := segment) (s := State.init fun _ => 0) (r := ()) rfl
      [(.stereoIn, 3)] rfl rfl sharedWords segment_sharedWords rfl rfl
    have h := seqlocks_coherent.2.2 Unit (fun _ => 0) as t () _ _ hrun (by rw [hlog]; decide) hback
    exact ⟨as, t, _, hrun, hback, List.mem_map.2 ⟨.stereoIn, mem_sharedWords _, rfl⟩, h⟩

/-- Every word was stored by one publish, or there was none and all are initial. -/
def OnePublish (data : SharedWord → Word) (log : List (List (SharedWord × Word))) (got : List (SharedWord × Word)) :
    Prop :=
  (∃ stores ∈ log, ∀ x ∈ got, x ∈ stores) ∨ (log = [] ∧ ∀ x ∈ got, x.2 = data x.1)

/-- The daemon comes up and publishes mixer and settings, then publishes changed
settings alone. -/
def comingUp : List (SharedWord × Word) := (mixerWords ++ settingsWords).map fun w => (w, 1)
/-- New settings: every word of them is 2. -/
def newSettings : List (SharedWord × Word) := settingsWords.map fun w => (w, 2)

/-- A read after that has the mixer of the first publish and the settings of the second. -/
theorem settings_alone : ∃ as s got, run (step (R := Unit) segment) (.init fun _ => 0) as = some s ∧
    s.log.length < 2 ^ 63 ∧ s.readers () = .back true 4 got ∧ ¬OnePublish (fun _ => 0) s.log got := by
  obtain ⟨as, t, hfirst, htodo, hseq, hdata, hlog, hreaders⟩ :=
    run_publish_words (p := segment) (s := (State.init fun _ => 0 : State Unit SharedWord Word)) rfl comingUp rfl
  obtain ⟨bs, u, hrun, hlog', hback⟩ := run_published (p := segment) htodo newSettings rfl (r := ())
    (by rw [hreaders]; rfl) sharedWords segment_sharedWords rfl (by rw [hseq]; rfl)
  rw [hseq, hdata] at hback
  rw [hlog, show (State.init fun _ => 0 : State Unit SharedWord Word).log = [] from rfl, List.nil_append] at hlog'
  have hlen : u.log.length < 2 ^ 63 := by
    rw [hlog', List.length_append, List.length_singleton, List.length_singleton]
    decide
  refine ⟨as ++ bs, u, _, run_append_some hfirst hrun, hlen, hback, ?_⟩
  have hvalue : ∀ w, putAll (putAll (fun _ => 0) comingUp) newSettings w =
      if w ∈ settingsWords then 2 else if w ∈ mixerWords ++ settingsWords then 1 else 0 := by
    intro w
    rw [newSettings, putAll_map _ settingsWords (fun _ => 2), comingUp, putAll_map _ _ (fun _ => 1)]
  have hcell : (SharedWord.cells 0, (1 : Word)) ∈ sharedWords.map fun w =>
      (w, putAll (putAll (fun _ => 0) comingUp) newSettings w) := by
    refine List.mem_map.2 ⟨.cells 0, mem_sharedWords _, ?_⟩
    rw [hvalue, if_neg (by simp [settingsWords]), if_pos (by simp [mixerWords])]
  have hsetting : (SharedWord.settings 0, (2 : Word)) ∈ sharedWords.map fun w =>
      (w, putAll (putAll (fun _ => 0) comingUp) newSettings w) := by
    refine List.mem_map.2 ⟨.settings 0, mem_sharedWords _, ?_⟩
    rw [hvalue, if_pos (by simp [settingsWords])]
  rw [hlog']
  rintro (⟨stores, hmem, hall⟩ | ⟨hnil, -⟩)
  · rcases List.mem_append.1 hmem with hmem | hmem
    · rw [List.mem_singleton.1 hmem] at hall
      have := hall _ hsetting
      simp [comingUp] at this
    · rw [List.mem_singleton.1 hmem] at hall
      have := hall _ hcell
      simp [newSettings] at this
  · exact List.append_ne_nil_of_right_ne_nil _ (List.cons_ne_nil _ _) hnil

end UserFace800.Shared
