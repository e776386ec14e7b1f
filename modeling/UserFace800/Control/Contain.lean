import UserFace800.Control.Drain
/-!
# Which registers a client can reach

Every address the pump enters into its map of dirty cells is pushed to the device
as a quadlet write, whatever it is. `ticks` runs the pump over the commands a
sequence of messages enqueues; `contained_iff` says exactly which messages keep
those addresses inside the mixer matrix.
-/
open UserFace800.Lib UserFace800.Protocol UserFace800.Mixer

namespace UserFace800.Control

/-- The command `handle` enqueues for a message, if it accepts it. -/
def accepted (msg : List Byte) : Option CtlCommand :=
  match handle true msg with
  | .keep _ c _ => c
  | .drop _ => none

/-- The pump run over the commands of successive ticks, with all it pushed. -/
def Daemon.ticks : Daemon → List (List CtlCommand) → Daemon × List (ℕ × Quadlet)
  | d, [] => (d, [])
  | d, cs :: rest => (((d.tick cs).ticks rest).1, (d.drainCtl cs).toPush ++ ((d.tick cs).ticks rest).2)

/-- The address of a crosspoint or of an output fader. -/
def Matrix (a : ℕ) : Prop := ∃ p : Place, a = p.addr

/-- A matrix address lies in the mixer RAM. -/
theorem Matrix.in_ram {a : ℕ} (h : Matrix a) : Reg.kMixerRam ≤ a ∧ a < Reg.kMixerRam + 0x2000 := by
  obtain ⟨p, rfl⟩ := h
  have := p.index_lt
  have := kCells_eq
  rw [p.addr_eq]
  omega

theorem matrix_iff (i : ℕ) : Matrix (Reg.kMixerRam + 4 * i) ↔ (placeOf i).isSome := by
  rw [Option.isSome_iff_exists]
  constructor
  · rintro ⟨p, h⟩
    rw [p.addr_eq] at h
    exact ⟨p, placeOf_eq_some.2 (by omega)⟩
  · rintro ⟨p, h⟩
    exact ⟨p, by rw [p.addr_eq, placeOf_eq_some.1 h]⟩

theorem placeOf_isSome (i : ℕ) :
    (placeOf i).isSome ↔ (i / 64 < kCh ∧ i % 32 < kCh) ∨ (2016 ≤ i ∧ i < 2016 + kCh) := by
  unfold placeOf
  split
  · rename_i h
    simp [h]
  · rename_i h
    split
    · rename_i h'
      simp [h']
    · rename_i h'
      simp [h, h']

namespace CtlCommand

/-- The cell a message names is a crosspoint's or a fader's, if only by
running from one channel's block into another's; the outputs it names exist. -/
def Contained (c : CtlCommand) : Prop :=
  let i := cellIndex c.kind c.src.toNat c.dest.toNat
  match c.type with
  | .setMixer | .setCellFlags => (i / 64 < kCh ∧ i % 32 < kCh) ∨ (2016 ≤ i ∧ i < 2016 + kCh)
  | .setFader | .setOutFlags => c.out.toNat < kCh
  | .submix => c.dest.toNat < kCh
  | _ => True

theorem renderCell_matrix (m : MixerModel) (k : MixerSrcKind) {s d : ℕ} (hs : s < 2 ^ 16) (hd : d < 2 ^ 16) :
    Matrix (m.renderCell k s d).addr ↔ (placeOf (cellIndex k s d)).isSome := by
  rw [show (m.renderCell k s d).addr = _ from coeffAddr_eq k hs hd, matrix_iff]

theorem renderOutput_matrix (m : MixerModel) {o : ℕ} (ho : o < 2 ^ 16) :
    Matrix (m.renderOutput o).addr ↔ o < kCh := by
  rw [show (m.renderOutput o).addr = _ from outputFaderAddr_eq ho, matrix_iff, placeOf_isSome]
  have := kCh_eq
  simp only [faderIndex]
  omega

/-- The cells a command renders are matrix cells exactly when it is contained. -/
theorem touched_matrix (c : CtlCommand) (m : MixerModel) :
    (∀ w ∈ c.touched m, Matrix w.addr) ↔ c.Contained := by
  have hs := c.src.isLt
  have hd := c.dest.isLt
  have ho := c.out.isLt
  unfold touched Contained
  cases ht : c.type <;> simp only [List.mem_singleton, forall_eq, List.not_mem_nil, false_imp_iff, implies_true]
  case setMixer | setCellFlags => rw [renderCell_matrix m _ hs hd, placeOf_isSome]
  case setFader | setOutFlags => exact renderOutput_matrix m ho
  case submix =>
    have hK := kCh_eq
    constructor
    · intro h
      have h0 := h (m.renderCell .input 0 c.dest.toNat)
        (List.mem_flatMap.2 ⟨0, List.mem_range.2 (by omega), List.mem_cons_self⟩)
      rw [renderCell_matrix m _ (by omega) hd, placeOf_isSome] at h0
      simp only [cellIndex, half] at h0
      omega
    · intro h w hw
      obtain ⟨s, hsl, hw⟩ := List.mem_flatMap.1 hw
      have hsl := List.mem_range.1 hsl
      simp only [List.mem_cons, List.not_mem_nil, or_false] at hw
      rcases hw with rfl | rfl
      · rw [renderCell_matrix m _ (by omega) hd, placeOf_isSome]
        simp only [cellIndex, half]
        omega
      · rw [renderCell_matrix m _ (by omega) hd, placeOf_isSome]
        simp only [cellIndex, half]
        omega

/-- The addresses a command enters do not depend on the model. -/
theorem touched_addr (c : CtlCommand) (m m' : MixerModel) :
    (c.touched m).map Write.addr = (c.touched m').map Write.addr := by
  unfold touched
  cases c.type <;> simp only [List.map_flatMap, List.map_cons, List.map_nil] <;> rfl

end CtlCommand

/-! ## The addresses a run enters -/

namespace Daemon

theorem foldl_set_has (ws : List Write) (m : SortedMap ℕ Quadlet) (a : ℕ) :
    (ws.foldl (fun m w => m.set w.addr w.value) m).Has a ↔ m.Has a ∨ a ∈ ws.map Write.addr := by
  induction ws generalizing m with
  | nil => simp
  | cons w ws ih =>
    rw [List.foldl_cons, ih, SortedMap.has_set, List.map_cons, List.mem_cons]
    constructor
    · rintro ((rfl | h) | h)
      · exact .inr (.inl rfl)
      · exact .inl h
      · exact .inr (.inr h)
    · rintro (h | rfl | h)
      · exact .inl (.inr h)
      · exact .inl (.inl rfl)
      · exact .inr h

/-- The addresses a command enters. -/
def entered (c : CtlCommand) : List ℕ := (c.touched {}).map Write.addr

theorem drainCtl_has (d : Daemon) (cs : List CtlCommand) (a : ℕ) :
    (d.drainCtl cs).ctlDirty.Has a ↔ d.ctlDirty.Has a ∨ ∃ c ∈ cs, a ∈ entered c := by
  induction cs generalizing d with
  | nil => simp [drainCtl]
  | cons c cs ih =>
    rw [drainCtl, List.foldl_cons, ← drainCtl, ih, pumpCommand_ctlDirty, foldl_set_has, c.touched_addr _ {}, or_assoc]
    simp only [List.mem_cons, exists_eq_or_imp, entered]

/-- Every address ever entered is still to be pushed or was pushed, and no other
address is. -/
theorem ticks_reach (d : Daemon) (batches : List (List CtlCommand)) (a : ℕ) :
    ((d.ticks batches).1.ctlDirty.Has a ∨ ∃ e ∈ (d.ticks batches).2, e.1 = a) ↔
      d.ctlDirty.Has a ∨ ∃ cs ∈ batches, ∃ c ∈ cs, a ∈ entered c := by
  induction batches generalizing d with
  | nil => simp [ticks]
  | cons cs rest ih =>
    have hsplit : (d.ctlDirty.Has a ∨ ∃ c ∈ cs, a ∈ entered c) ↔
        (∃ e ∈ (d.drainCtl cs).toPush, e.1 = a) ∨ (d.tick cs).ctlDirty.Has a := by
      rw [← drainCtl_has, SortedMap.has_split _ kCtlWritesPerTick, tick, pushDirty_ctlDirty]
      rfl
    have hbatch : (d.ctlDirty.Has a ∨ ∃ es ∈ cs :: rest, ∃ c ∈ es, a ∈ entered c) ↔
        (d.ctlDirty.Has a ∨ ∃ c ∈ cs, a ∈ entered c) ∨ ∃ es ∈ rest, ∃ c ∈ es, a ∈ entered c := by
      simp only [List.mem_cons, or_and_right, exists_or, exists_eq_left, or_assoc]
    have hpush : (∃ e ∈ (d.ticks (cs :: rest)).2, e.1 = a) ↔
        (∃ e ∈ (d.drainCtl cs).toPush, e.1 = a) ∨ ∃ e ∈ ((d.tick cs).ticks rest).2, e.1 = a := by
      simp only [ticks, List.mem_append, or_and_right, exists_or]
    rw [hbatch, hsplit, hpush, or_assoc, ← ih (d.tick cs)]
    exact or_left_comm

/-- Only settings make the drain write a quadlet of its own. -/
theorem direct_quadlet {c : CtlCommand} {d : Daemon} {a : ℕ} {v : Quadlet} (h : DevWrite.quadlet a v ∈ c.direct d) :
    c.type = .setSettings := by
  unfold CtlCommand.direct at h
  cases ht : c.type <;> simp only [ht] at h
  case setSettings => rfl
  case setOutFlags =>
    split at h
    · cases List.mem_singleton.1 h
    · cases h
  all_goals cases h

/-- Whatever messages come in, over however many ticks: the addresses entered
for pushing are all matrix addresses if and only if every command the messages
enqueue is contained. No command but `SetSettings` writes a quadlet otherwise. -/
theorem contained_iff (d : Daemon) (hd : d.ctlDirty = .empty) (batches : List (List (List Byte))) :
    ((∀ a, ((d.ticks (batches.map (·.filterMap accepted))).1.ctlDirty.Has a ∨
        ∃ e ∈ (d.ticks (batches.map (·.filterMap accepted))).2, e.1 = a) → Matrix a) ↔
      ∀ msgs ∈ batches, ∀ msg ∈ msgs, ∀ c, accepted msg = some c → c.Contained) ∧
    ∀ c : CtlCommand, c.type ≠ .setSettings → ∀ d a v, DevWrite.quadlet a v ∉ c.direct d := by
  refine ⟨?_, fun c hc d a v h => hc (direct_quadlet h)⟩
  simp only [ticks_reach, hd, SortedMap.not_has_empty, false_or]
  constructor
  · intro h msgs hm msg hmsg c hc
    rw [← c.touched_matrix {}]
    intro w hw
    have hcs : c ∈ msgs.filterMap accepted := List.mem_filterMap.2 ⟨msg, hmsg, hc⟩
    exact h _ ⟨_, List.mem_map_of_mem hm, c, hcs, List.mem_map_of_mem hw⟩
  · rintro h a ⟨cs, hcs, c, hc, ha⟩
    obtain ⟨msgs, hm, rfl⟩ := List.mem_map.1 hcs
    obtain ⟨msg, hmsg, hacc⟩ := List.mem_filterMap.1 hc
    obtain ⟨w, hw, rfl⟩ := List.mem_map.1 ha
    exact (c.touched_matrix {}).2 (h msgs hm msg hmsg c hacc) w hw

end Daemon

/-- A `SetMixer` of input 1 into output 4097 at unity, as it comes off the wire. -/
def farMessage : List Byte := [2, 0, 3, 0, 20, 0, 0, 0, 0, 0, 0, 0, 0, 0x10, 0, 0, 0, 0x80, 0, 0]

/-- A `SetMixer` of input 1 into output 2. -/
def nearMessage : List Byte := [2, 0, 3, 0, 20, 0, 0, 0, 0, 0, 0, 0, 1, 0, 0, 0, 0, 0x80, 0, 0]

theorem contained_iff_near : (accepted nearMessage).isSome = true ∧
    ∀ a, ((Daemon.boot true .absent none).ticks [[nearMessage].filterMap accepted]).1.ctlDirty.Has a ∨
      (∃ e ∈ ((Daemon.boot true .absent none).ticks [[nearMessage].filterMap accepted]).2, e.1 = a) → Matrix a := by
  refine ⟨by decide, ((Daemon.boot true .absent none).contained_iff rfl [[nearMessage]]).1.2 ?_⟩
  intro msgs hm msg hmsg c hc
  rw [List.mem_singleton.1 hm] at hmsg
  rw [List.mem_singleton.1 hmsg] at hc
  cases hc
  exact .inl (by decide)

/-- The message is accepted, and the pump writes it to the MIDI output. -/
theorem far_reaches_midi :
    ((Daemon.boot true .absent none).ticks [[farMessage].filterMap accepted]).2 = [(Reg.kMidiOut, 0x8000)] ∧
    ¬ Matrix Reg.kMidiOut := by
  refine ⟨by decide +kernel, fun h => ?_⟩
  have := h.in_ram.2
  simp [Reg.kMidiOut, Reg.kMixerRam] at this

end UserFace800.Control
