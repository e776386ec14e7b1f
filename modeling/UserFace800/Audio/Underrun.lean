import UserFace800.Audio.TxFill
/-!
# When the playback ring runs dry

A packet that finds no slot is filled with the last frame, again exactly and then
decaying: every further frame takes a 256th off each sample. The shift rounds toward
minus infinity, so a positive sample sticks below 256, where the encoder's own shift
makes it 0, and a negative one comes all the way. `underrun` says what holds of every
state and every sequence of calls, whatever the ring does between them.
-/
open UserFace800.Lib

namespace UserFace800.Audio

namespace TxFill

/-- What the pump and the plugin do with a `TxFill`. -/
inductive FillCall where
  | beginTick
  | beginPacket
  /-- The ring may have any slots. -/
  | frame (play : SlotQueue)
  /-- The slot in hand is memory the plugin shares. -/
  | overwrite (slot : Slot)

/-- What one call does to it. -/
def call (x : TxFill) : FillCall → TxFill
  | .beginTick => x.beginTick
  | .beginPacket => x.beginPacket
  | .frame play => (x.frame play).1
  | .overwrite slot => { x with slot := x.slot.map fun _ => slot }

/-- The calls, one after the other. -/
def after (x : TxFill) (calls : List FillCall) : TxFill := calls.foldl call x

/-- The frame comes from the ring. -/
def takes (x : TxFill) (play : SlotQueue) : Bool := (x.frame play).1.slot.isSome

/-- `acquireRead` is called, and returns null. -/
def misses (x : TxFill) (play : SlotQueue) : Bool :=
  let (x, play) := x.giveBack play
  x.slot.isNone && !x.dryPacket && play.acquireRead.isNone

/-- 1 for a frame call of which `p` holds. -/
def count (x : TxFill) (p : TxFill → SlotQueue → Bool) : FillCall → ℕ
  | .frame play => if p x play then 1 else 0
  | _ => 0

/-- The frame calls of which `p` holds, each in the state it comes in. -/
def total (p : TxFill → SlotQueue → Bool) : TxFill → List FillCall → ℕ
  | _, [] => 0
  | x, a :: calls => x.count p a + total p (x.call a) calls

/-- The times `acquireRead` found nothing. -/
def missed (x : TxFill) (calls : List FillCall) : ℕ := total misses x calls

/-- The frames taken from the ring. -/
def taken (x : TxFill) (calls : List FillCall) : ℕ := total takes x calls

/-- The frames not taken from the ring. -/
def invented (x : TxFill) (calls : List FillCall) : ℕ := total (fun x play => !x.takes play) x calls

/-- What the calls leave of `x`. -/
structure Underrun (x : TxFill) (calls : List FillCall) : Prop where
  misses : .beginPacket ∉ calls → x.missed calls ≤ 1
  repeats : ∀ play play', x.takes play = true → (x.frame play).1.taken calls = 0 → (x.frame play).1.invented calls = 0 →
    ((x.frame play).1.after calls).takes play' = false →
    (((x.frame play).1.after calls).frame play').1.last = (x.frame play).1.last
  fits : ∀ c, ((x.after calls).last c - ((x.after calls).last c).sshiftRight 8).toInt =
    ((x.after calls).last c).toInt - (((x.after calls).last c).sshiftRight 8).toInt
  decays : x.taken calls = 0 → ∀ c, ((x.after calls).last c).toInt.natAbs ≤ (x.last c).toInt.natAbs ∧
    (0 ≤ (x.last c).toInt → 0 ≤ ((x.after calls).last c).toInt) ∧
    ((x.last c).toInt ≤ 0 → ((x.after calls).last c).toInt ≤ 0)
  silent : x.taken calls = 0 → ∀ c : Fin kMaxChannels, c.1 < x.channels →
    2 * (x.last c).toInt.natAbs < x.invented calls → ((x.after calls).last c).sshiftRight 8 = 0
  held : (x.after calls).held = x.held + BitVec.ofNat 64 (x.invented calls)

/-! ## A sample -/

/-- A sample less a 256th of it. -/
def decay (v : BitVec 32) : BitVec 32 := v - v.sshiftRight 8

theorem shift_toInt (v : BitVec 32) : (v.sshiftRight 8).toInt = v.toInt / 256 := by
  rw [BitVec.toInt_sshiftRight, Int.shiftRight_eq_div_pow]
  rfl

/-- The subtraction is exact. -/
theorem decay_toInt (v : BitVec 32) : (decay v).toInt = v.toInt - (v.sshiftRight 8).toInt := by
  have hlow := BitVec.le_toInt v
  have hhigh := BitVec.toInt_lt (x := v)
  unfold decay
  rw [BitVec.toInt_sub, shift_toInt]
  apply Int.bmod_eq_of_le <;> omega

theorem shift_zero_iff (v : BitVec 32) : v.sshiftRight 8 = 0 ↔ 0 ≤ v.toInt ∧ v.toInt < 256 := by
  rw [← BitVec.toInt_inj, shift_toInt, show (0 : BitVec 32).toInt = 0 from rfl]
  omega

/-- A decaying sample comes closer to 0, on its side of it. -/
theorem decay_toward (v : BitVec 32) : (decay v).toInt.natAbs ≤ v.toInt.natAbs ∧
    (0 ≤ v.toInt → 0 ≤ (decay v).toInt) ∧ (v.toInt ≤ 0 → (decay v).toInt ≤ 0) := by
  have hd := decay_toInt v
  rw [shift_toInt] at hd
  refine ⟨?_, fun h => ?_, fun h => ?_⟩ <;> omega

/-- One that is not 0 on the wire yet comes closer by 1 at least; then it stays. -/
theorem decay_silent (v : BitVec 32) :
    if v.sshiftRight 8 = 0 then decay v = v else (decay v).toInt.natAbs < v.toInt.natAbs := by
  split
  · rename_i h
    unfold decay
    rw [h]
    exact BitVec.sub_zero v
  · rename_i h
    rw [shift_zero_iff] at h
    have hd := decay_toInt v
    rw [shift_toInt] at hd
    omega

/-- A sample after `n` held frames; the first after a real one repeats it. -/
def fade (heldRun v : BitVec 32) : ℕ → BitVec 32
  | 0 => v
  | n + 1 => fade (heldRun + 1) (if heldRun ≠ 0 then decay v else v) n

theorem fade_toward (heldRun v : BitVec 32) (n : ℕ) : (fade heldRun v n).toInt.natAbs ≤ v.toInt.natAbs ∧
    (0 ≤ v.toInt → 0 ≤ (fade heldRun v n).toInt) ∧ (v.toInt ≤ 0 → (fade heldRun v n).toInt ≤ 0) := by
  induction n generalizing heldRun v with
  | zero => exact ⟨le_refl _, id, id⟩
  | succ n ih =>
    rw [fade]
    split
    · obtain ⟨hle, hpos, hneg⟩ := ih (heldRun + 1) (decay v)
      obtain ⟨hle', hpos', hneg'⟩ := decay_toward v
      exact ⟨hle.trans hle', fun h => hpos (hpos' h), fun h => hneg (hneg' h)⟩
    · exact ih (heldRun + 1) v

theorem fade_stays {v : BitVec 32} (h : v.sshiftRight 8 = 0) (heldRun : BitVec 32) (n : ℕ) : fade heldRun v n = v := by
  have hdecay := decay_silent v
  rw [if_pos h] at hdecay
  induction n generalizing heldRun with
  | zero => rfl
  | succ n ih => rw [fade, hdecay, ite_self, ih]

/-- Each frame brings a sample closer, but for one in 2^32 whose run counts as 0. -/
theorem fade_silent (heldRun v : BitVec 32) {n : ℕ} (h : 2 * v.toInt.natAbs + (if heldRun = 0 then 1 else 0) ≤ n) :
    (fade heldRun v n).sshiftRight 8 = 0 := by
  induction n generalizing heldRun v with
  | zero =>
    rw [fade, shift_zero_iff]
    omega
  | succ n ih =>
    by_cases hv : v.sshiftRight 8 = 0
    · rw [fade_stays hv]
      exact hv
    · -- twice the magnitude, and one more while the run counts as 0, goes down each frame
      have hcloser := decay_silent v
      rw [if_neg hv] at hcloser
      rw [fade]
      apply ih
      by_cases hzero : heldRun = 0
      · rw [if_pos hzero] at h
        rw [if_neg (not_not.2 hzero), hzero, if_neg (by decide)]
        omega
      · rw [if_neg hzero] at h
        rw [if_pos hzero]
        split <;> omega

/-! ## A call -/

variable {x : TxFill} {play : SlotQueue}

/-- A frame comes from the ring, or is the last one held. -/
theorem frame_cases (x : TxFill) (play : SlotQueue) : (x.frame play).1.channels = x.channels ∧
    ((x.takes play = true ∧ (x.frame play).1.heldRun = 0) ∨
      (x.takes play = false ∧ (x.frame play).1.heldRun = x.heldRun + 1 ∧
        ∀ c, (x.frame play).1.last c = if x.heldRun ≠ 0 ∧ c.1 < x.channels then decay (x.last c) else x.last c)) := by
  refine ⟨x.frame_channels play, ?_⟩
  have hkeeps : ((x.giveBack play).1.acquire (x.giveBack play).2).last = x.last ∧
      ((x.giveBack play).1.acquire (x.giveBack play).2).heldRun = x.heldRun ∧
      ((x.giveBack play).1.acquire (x.giveBack play).2).channels = x.channels := by
    rw [acquire_keeps, giveBack_keeps]
    exact ⟨rfl, rfl, rfl⟩
  obtain ⟨hlast, hrun, hchannels⟩ := hkeeps
  cases hs : ((x.giveBack play).1.acquire (x.giveBack play).2).slot with
  | some s => exact .inl ⟨by simp [takes, frame, emit, hs], by simp [frame, emit, hs]⟩
  | none =>
    refine .inr ⟨by simp [takes, frame, emit, hs], by simp [frame, emit, hs, hrun], fun c => ?_⟩
    simp only [frame, emit, hs, hrun, hchannels, hlast]
    rfl

/-- A miss is the last of its packet. -/
theorem frame_dry (x : TxFill) (play : SlotQueue) : (x.misses play = true → (x.frame play).1.dryPacket = true) ∧
    (x.dryPacket = true → x.misses play = false ∧ (x.frame play).1.dryPacket = true) := by
  have hemit (y : TxFill) : y.emit.dryPacket = y.dryPacket := by
    unfold emit
    split <;> rfl
  have hback := congrArg TxFill.dryPacket (x.giveBack_keeps play)
  have hframe : (x.frame play).1.dryPacket = ((x.giveBack play).1.acquire (x.giveBack play).2).dryPacket := hemit _
  rw [hframe]
  unfold misses
  constructor
  · intro h
    simp only [Bool.and_eq_true, Option.isNone_iff_eq_none] at h
    unfold acquire
    rw [if_pos (by simp [h.1]), h.2]
  · intro h
    have hdry : (x.giveBack play).1.dryPacket = true := hback.trans h
    constructor
    · simp [hdry]
    · unfold acquire
      rw [if_neg (by simp [hdry])]
      exact hdry

/-- The other calls leave the samples alone. -/
theorem call_other {a : FillCall} (ha : ∀ play, a ≠ .frame play) : (x.call a).last = x.last ∧
    (x.call a).heldRun = x.heldRun ∧ (x.call a).channels = x.channels ∧ (x.call a).held = x.held ∧
    (∀ p, x.count p a = 0) ∧ (a ≠ .beginPacket → (x.call a).dryPacket = x.dryPacket) := by
  cases a with
  | frame play => exact absurd rfl (ha play)
  | beginTick | overwrite slot => exact ⟨rfl, rfl, rfl, rfl, fun _ => rfl, fun _ => rfl⟩
  | beginPacket => exact ⟨rfl, rfl, rfl, rfl, fun _ => rfl, fun h => absurd rfl h⟩

/-! ## Sequences of calls -/

theorem missed_le (x : TxFill) {calls : List FillCall} (h : .beginPacket ∉ calls) :
    x.missed calls ≤ if x.dryPacket then 0 else 1 := by
  induction calls generalizing x with
  | nil => exact Nat.zero_le _
  | cons a calls ih =>
    rw [List.mem_cons, not_or] at h
    have hrest := ih (x.call a) h.2
    have hsum : x.missed (a :: calls) = x.count TxFill.misses a + (x.call a).missed calls := rfl
    cases a with
    | beginPacket => exact absurd rfl h.1
    | beginTick | overwrite slot =>
      rw [hsum]
      exact (Nat.zero_add _).symm ▸ hrest
    | frame play =>
      have hcall : (x.call (.frame play)).dryPacket = (x.frame play).1.dryPacket := rfl
      have hcount : x.count TxFill.misses (.frame play) = if x.misses play then 1 else 0 := rfl
      obtain ⟨hmiss, hdry⟩ := x.frame_dry play
      rw [hcall] at hrest
      rw [hsum, hcount]
      cases hx : x.dryPacket with
      | true =>
        obtain ⟨hno, hstill⟩ := hdry hx
        rw [hstill] at hrest
        simp only [hno, if_true, Bool.false_eq_true, if_false, Nat.zero_add] at hrest ⊢
        exact hrest
      | false =>
        cases hm : x.misses play with
        | true =>
          rw [hmiss hm] at hrest
          simp only [if_true] at hrest
          simp only [if_true, Bool.false_eq_true, if_false]
          omega
        | false =>
          simp only [Bool.false_eq_true, if_false]
          split at hrest <;> omega

/-- With no frame from the ring, each sample fades by as many frames as were held. -/
theorem held_samples (x : TxFill) {calls : List FillCall} (h : x.taken calls = 0) (c : Fin kMaxChannels) :
    (x.after calls).heldRun = x.heldRun + BitVec.ofNat 32 (x.invented calls) ∧
      (x.after calls).last c =
        if c.1 < x.channels then fade x.heldRun (x.last c) (x.invented calls) else x.last c := by
  induction calls generalizing x with
  | nil => exact ⟨(BitVec.add_zero _).symm, (ite_self _).symm⟩
  | cons a calls ih =>
    have hinvented : x.invented (a :: calls) = x.count (fun x play => !x.takes play) a + (x.call a).invented calls :=
      rfl
    have htaken : x.count takes a + (x.call a).taken calls = 0 := h
    obtain ⟨hrun, hlast⟩ := ih (x.call a) (Nat.add_eq_zero_iff.1 htaken).2
    change ((x.call a).after calls).heldRun = _ ∧ ((x.call a).after calls).last c = _
    rw [hrun, hlast, hinvented]
    by_cases ha : ∃ play, a = .frame play
    · obtain ⟨play, rfl⟩ := ha
      have hcall : x.call (.frame play) = (x.frame play).1 := rfl
      obtain ⟨hchannels, ⟨htakes, -⟩ | ⟨htakes, hrun', hlast'⟩⟩ := x.frame_cases play
      · simp [count, htakes] at htaken
      · have hone : x.count (fun x play => !x.takes play) (.frame play) = 1 := by simp [count, htakes]
        rw [hone, hcall, hchannels, hrun', hlast', Nat.add_comm 1]
        refine ⟨?_, ?_⟩
        · rw [BitVec.ofNat_add, BitVec.add_assoc, BitVec.add_comm (BitVec.ofNat 32 _)]
          rfl
        · by_cases hc : c.1 < x.channels
          · simp only [hc, and_true, if_true, fade]
          · simp only [hc, and_false, if_false]
    · obtain ⟨hlast', hrun', hchannels, -, hcount, -⟩ := call_other (x := x) fun play h => ha ⟨play, h⟩
      rw [hlast', hrun', hchannels, hcount, Nat.zero_add]
      exact ⟨rfl, rfl⟩

theorem after_held (x : TxFill) (calls : List FillCall) :
    (x.after calls).held = x.held + BitVec.ofNat 64 (x.invented calls) := by
  induction calls generalizing x with
  | nil => exact (BitVec.add_zero _).symm
  | cons a calls ih =>
    have hinvented : x.invented (a :: calls) = x.count (fun x play => !x.takes play) a + (x.call a).invented calls :=
      rfl
    rw [show (x.after (a :: calls)).held = ((x.call a).after calls).held from rfl, ih, hinvented, BitVec.ofNat_add,
      ← BitVec.add_assoc]
    apply congrArg (· + _)
    by_cases ha : ∃ play, a = .frame play
    · obtain ⟨play, rfl⟩ := ha
      rw [show (x.call (.frame play)).held = (x.frame play).1.held from rfl, x.frame_held play]
      cases hs : (x.frame play).1.slot.isSome <;> simp [count, takes, hs]
    · obtain ⟨-, -, -, hheld, hcount, -⟩ := call_other (x := x) fun play h => ha ⟨play, h⟩
      rw [hheld, hcount]
      exact (BitVec.add_zero _).symm

/-- For every state and every sequence of calls, whatever the ring has at each of them
and the plugin writes in between. Between two calls of `beginPacket` at most one acquire
fails. The first frame held after one of the ring is that frame. No subtraction leaves
the 32 bits. While frames are held, no sample grows or changes its sign; after twice its
magnitude of them it is 0 on the wire, and stays so while they are held. `held` counts
the frames that did not come from the ring. -/
theorem underrun (x : TxFill) (calls : List FillCall) : x.Underrun calls where
  misses := by
    intro h
    have hle := x.missed_le h
    split at hle <;> omega
  repeats := by
    intro play play' htakes htaken hinvented hheld
    rcases (x.frame_cases play).2 with ⟨-, hrun⟩ | ⟨hno, -⟩
    · funext c
      obtain ⟨hrun', hlast⟩ := (x.frame play).1.held_samples htaken c
      rw [hinvented, hrun] at hrun'
      rw [hinvented, fade, ite_self] at hlast
      rcases (((x.frame play).1.after calls).frame_cases play').2 with ⟨hyes, -⟩ | ⟨-, -, hlast'⟩
      · rw [hyes] at hheld
        cases hheld
      · rw [hlast' c, if_neg fun h => h.1 hrun', hlast]
    · rw [hno] at htakes
      cases htakes
  fits := fun c => decay_toInt _
  decays := by
    intro htaken c
    rw [(x.held_samples htaken c).2]
    split
    · exact fade_toward _ _ _
    · exact ⟨le_refl _, id, id⟩
  silent := by
    intro htaken c hc hlong
    rw [(x.held_samples htaken c).2, if_pos hc]
    apply fade_silent
    split <;> omega
  held := x.after_held calls

end TxFill

end UserFace800.Audio
