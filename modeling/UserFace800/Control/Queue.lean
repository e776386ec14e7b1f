import UserFace800.Lib.Run
import UserFace800.Lib.Cursor
import UserFace800.Control.Proto
/-!
# The command queue

`CtlQueue` of `uf_ctl_server.hpp`: the socket thread pushes, the pump pops, and a
push into a full queue drops the oldest command by advancing the consumer's
cursor. Every atomic access and every slot copy is a step. `Apart` is what keeps
a dropping push out of the way of a pop in progress; the code does not enforce
it, and `popped_overtakes` shows what a pop then returns.
-/
open UserFace800.Lib UserFace800.Lib.Cursor

namespace UserFace800.Control.Queue

/-- The slots of the queue. -/
abbrev kSlots : ℕ := 256

theorem kSlots_eq : kSlots = 256 := rfl

variable {α : Type}

/-- `CtlQueue`, of any commands. -/
structure CtlQueue (α : Type) where
  slot : Fin kSlots → α
  head : BitVec 64 := 0
  tail : BitVec 64 := 0
  dropped : BitVec 32 := 0

/-- Where `push` is, with the command and the cursors it has loaded: about to
load `tail`, to advance it, to count the drop, to fill the slot, to publish. -/
inductive Producer (α : Type) where
  | idle
  | gotHead (c : α) (h : BitVec 64)
  | advance (c : α) (h t : BitVec 64)
  | count (c : α) (h : BitVec 64)
  | put (c : α) (h : BitVec 64)
  | publish (c : α) (h : BitVec 64)

/-- Where `pop` is: about to load `head`, to copy the slot, to store `tail`. -/
inductive Consumer (α : Type) where
  | idle
  | gotTail (t : BitVec 64)
  | copying (t : BitVec 64)
  | copied (t : BitVec 64) (c : α)

/-- The commands published, those returned by a pop, and the drops. -/
structure History (α : Type) where
  pushed : List α := []
  popped : List α := []
  drops : ℕ := 0

/-- The queue, where each side is, and what has happened so far. -/
structure Sys (α : Type) where
  q : CtlQueue α
  prod : Producer α := .idle
  cons : Consumer α := .idle
  hist : History α := {}

/-- An empty queue. -/
def Sys.init (blank : α) : Sys α := { q := { slot := fun _ => blank } }

/-- One access of `push` or of `pop`. -/
inductive Act (α : Type) where
  | push (c : α)
  | loadTail
  | advanceTail
  | countDropped
  | putSlot
  | storeHead
  | pop
  | loadHead
  | copySlot
  | storeTail

/-- The steps of `push`. -/
def stepProducer (s : Sys α) : Act α → Option (Sys α)
  | .push c => match s.prod with
    | .idle => some { s with prod := .gotHead c s.q.head }
    | _ => none
  | .loadTail => match s.prod with
    | .gotHead c h =>
      if (h - s.q.tail).toNat ≥ kSlots then some { s with prod := .advance c h s.q.tail }
      else some { s with prod := .put c h }
    | _ => none
  | .advanceTail => match s.prod with
    | .advance c h t => some { s with q := { s.q with tail := t + 1 }, prod := .count c h }
    | _ => none
  | .countDropped => match s.prod with
    | .count c h => some { s with
        q := { s.q with dropped := s.q.dropped + 1 }, prod := .put c h,
        hist := { s.hist with drops := s.hist.drops + 1 } }
    | _ => none
  | .putSlot => match s.prod with
    | .put c h => some { s with
        q := { s.q with slot := Function.update s.q.slot (index kSlots h) c }, prod := .publish c h }
    | _ => none
  | .storeHead => match s.prod with
    | .publish c h => some { s with
        q := { s.q with head := h + 1 }, prod := .idle,
        hist := { s.hist with pushed := s.hist.pushed ++ [c] } }
    | _ => none
  | _ => none

/-- The steps of `pop`; finding the queue empty ends it. -/
def stepConsumer (s : Sys α) : Act α → Option (Sys α)
  | .pop => match s.cons with
    | .idle => some { s with cons := .gotTail s.q.tail }
    | _ => none
  | .loadHead => match s.cons with
    | .gotTail t =>
      if t = s.q.head then some { s with cons := .idle } else some { s with cons := .copying t }
    | _ => none
  | .copySlot => match s.cons with
    | .copying t => some { s with cons := .copied t (s.q.slot (index kSlots t)) }
    | _ => none
  | .storeTail => match s.cons with
    | .copied t c => some { s with
        q := { s.q with tail := t + 1 }, cons := .idle,
        hist := { s.hist with popped := s.hist.popped ++ [c] } }
    | _ => none
  | _ => none

/-- An access of either side. -/
def step (s : Sys α) (a : Act α) : Option (Sys α) := (stepProducer s a).or (stepConsumer s a)

/-! ## Keeping a dropping push apart from a pop -/

/-- A push that advances `tail` past the oldest command does so while `tail` is
where it loaded it or one further, with no pop between its copy and its store at
another cursor; and a push fills no slot that a pop has loaded the cursor of and
not copied yet. -/
def Apart (s : Sys α) (a : Act α) : Prop :=
  match a, s.prod, s.cons with
  | .advanceTail, .advance _ _ t, .copied u _ => (s.q.tail = t ∨ s.q.tail = t + 1) ∧ (u = t ∨ u = t + 1)
  | .advanceTail, .advance _ _ t, _ => s.q.tail = t ∨ s.q.tail = t + 1
  | .putSlot, .put _ h, .gotTail u => u ≠ h - BitVec.ofNat 64 kSlots
  | .putSlot, .put _ h, .copying u => u ≠ h - BitVec.ofNat 64 kSlots
  | _, _, _ => True

instance (s : Sys α) (a : Act α) : Decidable (Apart s a) := by
  unfold Apart
  split <;> infer_instance

/-! ## The invariant

`T` is the true count behind `tail`. A pop in progress works from the count `L`,
which a dropping push may have passed by one. -/

/-- The first command whose slot must still hold it: `L` until the pop in
progress has copied it. -/
def low (s : Sys α) (T L : ℕ) : ℕ :=
  match s.cons with
  | .copied _ _ => T
  | _ => L

/-- What the producer has loaded is what it was: `head` is its own, `tail` may have moved since. -/
def Producer.Ok (s : Sys α) (T L : ℕ) : Prop :=
  let H := s.hist.pushed.length
  match s.prod with
  | .idle => True
  | .gotHead _ h => h = cur 64 H
  | .advance _ h t => h = cur 64 H ∧ kSlots ≤ H ∧ t = cur 64 (H - kSlots)
  | .count _ h => h = cur 64 H ∧ H < T + kSlots
  | .put _ h => h = cur 64 H ∧ H < T + kSlots
  | .publish c h => h = cur 64 H ∧ H < low s T L + kSlots ∧ s.q.slot (Fin.ofNat kSlots H) = c

/-- What the consumer has loaded is its place, and what it has copied the command there. -/
def Consumer.Ok (s : Sys α) (T L : ℕ) : Prop :=
  match s.cons with
  | .idle => L = T
  | .gotTail t => t = cur 64 L
  | .copying t => t = cur 64 L ∧ L < s.hist.pushed.length
  | .copied t c => t = cur 64 L ∧ s.hist.pushed[L]? = some c

/-- The drop about to be counted. -/
def pending (s : Sys α) : ℕ :=
  match s.prod with
  | .count _ _ => 1
  | _ => 0

/-- `tail` stands at `T` and the consumer at `L`, at most one behind: what lies between them and
`head` is as it was pushed, and what is missing was dropped. -/
structure InvAt (s : Sys α) (T L : ℕ) : Prop where
  head : s.q.head = cur 64 s.hist.pushed.length
  tail : s.q.tail = cur 64 T
  le : T ≤ s.hist.pushed.length
  cap : s.hist.pushed.length ≤ T + kSlots
  lag : L ≤ T
  lead : T ≤ L + 1
  room : s.hist.pushed.length ≤ low s T L + kSlots
  prod : Producer.Ok s T L
  cons : Consumer.Ok s T L
  live : ∀ k c, low s T L ≤ k → s.hist.pushed[k]? = some c → s.q.slot (Fin.ofNat kSlots k) = c
  order : s.hist.popped.Sublist (s.hist.pushed.take L)
  missing : T ≤ s.hist.popped.length + s.hist.drops + pending s
  dropped : s.q.dropped = cur 32 s.hist.drops

/-- The invariant at some place of both. -/
def Inv (s : Sys α) : Prop := ∃ T L, InvAt s T L

theorem init_inv (blank : α) : Inv (Sys.init blank) := by
  refine ⟨0, 0, ?_⟩
  constructor <;> simp [Sys.init, cur, Producer.Ok, Consumer.Ok, low]

section Steps
variable {q : CtlQueue α} {prod : Producer α} {cons : Consumer α} {hist : History α} {T L : ℕ} {c : α}
  {h t : BitVec 64}

theorem InvAt.low_le {s : Sys α} (hi : InvAt s T L) : low s T L ≤ T := by
  unfold low
  split
  · exact le_refl T
  · exact hi.lag

/-! ### The producer -/

theorem push_inv (hi : InvAt ⟨q, .idle, cons, hist⟩ T L) (c : α) : InvAt ⟨q, .gotHead c q.head, cons, hist⟩ T L :=
  { hi with prod := hi.head }

theorem loadTail_full_inv (hi : InvAt ⟨q, .gotHead c h, cons, hist⟩ T L) (hf : (h - q.tail).toNat ≥ kSlots) :
    InvAt ⟨q, .advance c h q.tail, cons, hist⟩ T L := by
  have hh : h = cur 64 hist.pushed.length := hi.prod
  have ht : q.tail = cur 64 T := hi.tail
  have hle : T ≤ hist.pushed.length := hi.le
  have hcap : hist.pushed.length ≤ T + kSlots := hi.cap
  have := kSlots_eq
  rw [hh, ht, cur_sub hle (by omega)] at hf
  have hT : T = hist.pushed.length - kSlots := by omega
  have hfull : kSlots ≤ hist.pushed.length := by omega
  exact { hi with prod := ⟨hh, hfull, by rw [ht, hT]⟩ }

theorem loadTail_room_inv (hi : InvAt ⟨q, .gotHead c h, cons, hist⟩ T L) (hf : ¬ (h - q.tail).toNat ≥ kSlots) :
    InvAt ⟨q, .put c h, cons, hist⟩ T L := by
  have hh : h = cur 64 hist.pushed.length := hi.prod
  have ht : q.tail = cur 64 T := hi.tail
  have hle : T ≤ hist.pushed.length := hi.le
  have hcap : hist.pushed.length ≤ T + kSlots := hi.cap
  have := kSlots_eq
  rw [hh, ht, cur_sub hle (by omega)] at hf
  have hlt : hist.pushed.length < T + kSlots := by omega
  exact { hi with prod := ⟨hh, hlt⟩ }

/-- Where `tail` is when a dropping push advances it. -/
theorem advance_count (hi : InvAt ⟨q, .advance c h t, cons, hist⟩ T L) (ha : q.tail = t ∨ q.tail = t + 1) :
    T = hist.pushed.length - kSlots ∨ T = hist.pushed.length - kSlots + 1 := by
  obtain ⟨-, hfull, ht⟩ : _ ∧ kSlots ≤ hist.pushed.length ∧ t = cur 64 (hist.pushed.length - kSlots) := hi.prod
  have htl : q.tail = cur 64 T := hi.tail
  have hle : T ≤ hist.pushed.length := hi.le
  have hcap : hist.pushed.length ≤ T + kSlots := hi.cap
  have := kSlots_eq
  rw [htl, ht, cur_succ] at ha
  rcases ha with e | e
  · exact .inl ((cur_eq_iff (by omega) (by omega)).1 e.symm).symm
  · rcases Nat.lt_or_ge T (hist.pushed.length - kSlots + 1) with hlt | hge
    · exact .inl (by omega)
    · exact .inr ((cur_eq_iff hge (by omega)).1 e.symm).symm

/-- A pop that has copied is not behind `tail` then: it would hold another cursor. -/
theorem copied_count {u : BitVec 64} {d : α} (hi : InvAt ⟨q, .advance c h t, .copied u d, hist⟩ T L)
    (hu : u = t ∨ u = t + 1) :
    hist.pushed.length - kSlots ≤ L := by
  obtain ⟨-, hfull, ht⟩ : _ ∧ kSlots ≤ hist.pushed.length ∧ t = cur 64 (hist.pushed.length - kSlots) := hi.prod
  obtain ⟨huL, -⟩ : u = cur 64 L ∧ hist.pushed[L]? = some d := hi.cons
  have hle : T ≤ hist.pushed.length := hi.le
  have hcap : hist.pushed.length ≤ T + kSlots := hi.cap
  have hlag := hi.lag
  have hlead := hi.lead
  have := kSlots_eq
  by_contra hlt
  rw [huL, ht, cur_succ] at hu
  rcases hu with e | e
  · have := (cur_eq_iff (by omega) (by omega)).1 e
    omega
  · have := (cur_eq_iff (by omega) (by omega)).1 e
    omega

theorem advanceTail_inv (hi : InvAt ⟨q, .advance c h t, cons, hist⟩ T L)
    (ha : Apart ⟨q, .advance c h t, cons, hist⟩ .advanceTail) :
    Inv ⟨{ q with tail := t + 1 }, .count c h, cons, hist⟩ := by
  obtain ⟨hh, hfull, ht⟩ : h = cur 64 hist.pushed.length ∧ kSlots ≤ hist.pushed.length ∧
    t = cur 64 (hist.pushed.length - kSlots) := hi.prod
  have hle : T ≤ hist.pushed.length := hi.le
  have hcap : hist.pushed.length ≤ T + kSlots := hi.cap
  have hlag := hi.lag
  have hlead := hi.lead
  have hroom := hi.room
  have hmiss : T ≤ hist.popped.length + hist.drops + 0 := hi.missing
  have hlow := hi.low_le
  have hK := kSlots_eq
  have htail : t + 1 = cur 64 (hist.pushed.length - kSlots + 1) := by rw [ht, cur_succ]
  have hT : T = hist.pushed.length - kSlots ∨ T = hist.pushed.length - kSlots + 1 := by
    apply advance_count hi
    cases cons with
    | copied u d => exact ha.1
    | _ => exact ha
  have hcount : hist.pushed.length - kSlots + 1 ≤ hist.popped.length + hist.drops + 1 := by omega
  cases cons with
  | idle =>
    have hL : L = T := hi.cons
    refine ⟨hist.pushed.length - kSlots + 1, hist.pushed.length - kSlots + 1, hi.head, htail, ?_, ?_, le_refl _, ?_, ?_,
      ⟨hh, ?_⟩, rfl, ?_, ?_, hcount, hi.dropped⟩
    · show _ ≤ hist.pushed.length; omega
    · show hist.pushed.length ≤ _; omega
    · omega
    · show hist.pushed.length ≤ _ + 1 + kSlots; omega
    · show hist.pushed.length < _; omega
    · intro k d hk
      have hk : hist.pushed.length - kSlots + 1 ≤ k := hk
      exact hi.live k d (show L ≤ k by omega)
    · exact hi.order.trans (List.take_sublist_take_left (by omega))
  | gotTail u | copying u =>
    have hroom : hist.pushed.length ≤ L + kSlots := hroom
    refine ⟨hist.pushed.length - kSlots + 1, L, hi.head, htail, ?_, ?_, ?_, ?_, hroom, ⟨hh, ?_⟩, hi.cons, hi.live,
      hi.order, hcount, hi.dropped⟩
    · show _ ≤ hist.pushed.length; omega
    · show hist.pushed.length ≤ _; omega
    · omega
    · omega
    · show hist.pushed.length < _; omega
  | copied u d =>
    have hL := copied_count hi ha.2
    refine ⟨hist.pushed.length - kSlots + 1, L, hi.head, htail, ?_, ?_, ?_, ?_, ?_, ⟨hh, ?_⟩, hi.cons, ?_,
      hi.order, hcount, hi.dropped⟩
    · show _ ≤ hist.pushed.length; omega
    · show hist.pushed.length ≤ _; omega
    · omega
    · omega
    · show hist.pushed.length ≤ _ + 1 + kSlots; omega
    · show hist.pushed.length < _; omega
    · intro k e hk
      have hk : hist.pushed.length - kSlots + 1 ≤ k := hk
      exact hi.live k e (show T ≤ k by omega)

theorem countDropped_inv (hi : InvAt ⟨q, .count c h, cons, hist⟩ T L) :
    InvAt ⟨{ q with dropped := q.dropped + 1 }, .put c h, cons, { hist with drops := hist.drops + 1 }⟩ T L := by
  have hmiss : T ≤ hist.popped.length + hist.drops + 1 := hi.missing
  have hd : q.dropped = cur 32 hist.drops := hi.dropped
  refine { hi with missing := ?_, dropped := ?_ }
  · show T ≤ hist.popped.length + (hist.drops + 1) + 0
    omega
  · show q.dropped + 1 = cur 32 (hist.drops + 1)
    rw [hd, cur_succ]

/-- A slot is filled only when no live command is in it. -/
theorem put_room (hi : InvAt ⟨q, .put c h, cons, hist⟩ T L) (ha : Apart ⟨q, .put c h, cons, hist⟩ .putSlot) :
    hist.pushed.length < low ⟨q, .put c h, cons, hist⟩ T L + kSlots := by
  obtain ⟨hh, hlt⟩ : h = cur 64 hist.pushed.length ∧ hist.pushed.length < T + kSlots := hi.prod
  have hroom : hist.pushed.length ≤ low _ T L + kSlots := hi.room
  have hne : ∀ u, u = cur 64 L → u ≠ h - BitVec.ofNat 64 kSlots → hist.pushed.length ≠ L + kSlots := by
    intro u hu hne e
    apply hne
    rw [hu, hh, e]
    apply BitVec.eq_of_toNat_eq
    simp [cur, BitVec.toNat_sub]
    omega
  cases cons with
  | idle =>
    have hL : L = T := hi.cons
    show hist.pushed.length < L + kSlots
    omega
  | gotTail u => exact lt_of_le_of_ne hroom (hne u hi.cons ha)
  | copying u => exact lt_of_le_of_ne hroom (hne u hi.cons.1 ha)
  | copied u d => exact hlt

theorem putSlot_inv (hi : InvAt ⟨q, .put c h, cons, hist⟩ T L) (ha : Apart ⟨q, .put c h, cons, hist⟩ .putSlot) :
    InvAt ⟨{ q with slot := Function.update q.slot (index kSlots h) c }, .publish c h, cons, hist⟩ T L := by
  have hlt := put_room hi ha
  obtain ⟨hh, -⟩ : h = cur 64 hist.pushed.length ∧ _ := hi.prod
  have hidx : index kSlots h = Fin.ofNat kSlots hist.pushed.length := by
    rw [hh]
    exact index_cur (show kSlots = 2 ^ 8 from rfl) (by decide) _
  refine { hi with prod := ⟨hh, hlt, ?_⟩, live := ?_ }
  · show Function.update q.slot (index kSlots h) c _ = c
    rw [hidx, Function.update_self]
  · intro k d hk hkd
    have hk' : k < hist.pushed.length := (List.getElem?_eq_some_iff.1 hkd).1
    have hk2 : low ⟨q, .put c h, cons, hist⟩ T L ≤ k := hk
    show Function.update q.slot (index kSlots h) c _ = d
    rw [hidx, Function.update_of_ne (ofNat_ne_of_lt hk' (by omega))]
    exact hi.live k d hk hkd

theorem storeHead_inv (hi : InvAt ⟨q, .publish c h, cons, hist⟩ T L) :
    InvAt ⟨{ q with head := h + 1 }, .idle, cons, { hist with pushed := hist.pushed ++ [c] }⟩ T L := by
  obtain ⟨hh, hlt, hslot⟩ : h = cur 64 hist.pushed.length ∧
    hist.pushed.length < low ⟨q, .publish c h, cons, hist⟩ T L + kSlots ∧ _ := hi.prod
  have hlow := hi.low_le
  have hle : T ≤ hist.pushed.length := hi.le
  have hlag := hi.lag
  have hlen : (hist.pushed ++ [c]).length = hist.pushed.length + 1 := by simp
  refine ⟨?_, hi.tail, ?_, ?_, hi.lag, hi.lead, ?_, trivial, ?_, ?_, ?_, hi.missing, hi.dropped⟩
  · show h + 1 = cur 64 (hist.pushed ++ [c]).length
    rw [hlen, hh, cur_succ]
  · show T ≤ (hist.pushed ++ [c]).length
    omega
  · show (hist.pushed ++ [c]).length ≤ _
    omega
  · show (hist.pushed ++ [c]).length ≤ low ⟨q, .publish c h, cons, hist⟩ T L + kSlots
    omega
  · cases cons with
    | copying u => exact ⟨hi.cons.1, lt_of_lt_of_le hi.cons.2 (by simp)⟩
    | copied u d =>
      obtain ⟨hu, hd⟩ : u = cur 64 L ∧ hist.pushed[L]? = some d := hi.cons
      exact ⟨hu, (List.getElem?_append_left (List.getElem?_eq_some_iff.1 hd).1).trans hd⟩
    | _ => exact hi.cons
  · intro k d hk hkd
    have hkd : (hist.pushed ++ [c])[k]? = some d := hkd
    rcases Nat.lt_or_ge k hist.pushed.length with hk' | hk'
    · rw [List.getElem?_append_left hk'] at hkd
      exact hi.live k d hk hkd
    · have hb := (List.getElem?_eq_some_iff.1 hkd).1
      have hk0 : k = hist.pushed.length := by omega
      subst hk0
      rw [List.getElem?_concat_length] at hkd
      cases hkd
      exact hslot
  · show hist.popped.Sublist ((hist.pushed ++ [c]).take L)
    rw [List.take_append_of_le_length (by omega)]
    exact hi.order

/-! ### The consumer -/

theorem pop_inv (hi : InvAt ⟨q, prod, .idle, hist⟩ T L) : InvAt ⟨q, prod, .gotTail q.tail, hist⟩ T L := by
  have hL : L = T := hi.cons
  have ht : q.tail = cur 64 T := hi.tail
  exact { hi with cons := show q.tail = cur 64 L by rw [hL, ht] }

theorem loadHead_empty_inv (hi : InvAt ⟨q, prod, .gotTail t, hist⟩ T L) (he : t = q.head) :
    InvAt ⟨q, prod, .idle, hist⟩ T L := by
  have ht : t = cur 64 L := hi.cons
  have hh : q.head = cur 64 hist.pushed.length := hi.head
  have hle : T ≤ hist.pushed.length := hi.le
  have hcap : hist.pushed.length ≤ T + kSlots := hi.cap
  have hlag := hi.lag
  have hlead := hi.lead
  have := kSlots_eq
  rw [ht, hh] at he
  have hL := (cur_eq_iff (by omega) (by omega)).1 he
  exact { hi with cons := show L = T by omega }

theorem loadHead_some_inv (hi : InvAt ⟨q, prod, .gotTail t, hist⟩ T L) (hne : t ≠ q.head) :
    InvAt ⟨q, prod, .copying t, hist⟩ T L := by
  have ht : t = cur 64 L := hi.cons
  have hh : q.head = cur 64 hist.pushed.length := hi.head
  have hle : T ≤ hist.pushed.length := hi.le
  have hlag := hi.lag
  refine { hi with cons := ⟨ht, ?_⟩ }
  show L < hist.pushed.length
  refine lt_of_le_of_ne (by omega) fun e => hne ?_
  rw [ht, hh, e]

theorem copySlot_inv (hi : InvAt ⟨q, prod, .copying t, hist⟩ T L) :
    InvAt ⟨q, prod, .copied t (q.slot (index kSlots t)), hist⟩ T L := by
  obtain ⟨ht, hlt⟩ : t = cur 64 L ∧ L < hist.pushed.length := hi.cons
  have hlag := hi.lag
  have hcap : hist.pushed.length ≤ T + kSlots := hi.cap
  have hidx : index kSlots t = Fin.ofNat kSlots L := by
    rw [ht]
    exact index_cur (show kSlots = 2 ^ 8 from rfl) (by decide) _
  have hget : hist.pushed[L]? = some (q.slot (index kSlots t)) := by
    rw [List.getElem?_eq_getElem hlt, hidx, hi.live L _ (le_refl _) (List.getElem?_eq_getElem hlt)]
  refine { hi with cons := ⟨ht, hget⟩, room := hcap, live := ?_, prod := ?_ }
  · cases prod with
    | publish c h =>
      obtain ⟨h1, h2, h3⟩ : h = cur 64 hist.pushed.length ∧ hist.pushed.length < L + kSlots ∧ _ := hi.prod
      exact ⟨h1, show hist.pushed.length < T + kSlots by omega, h3⟩
    | _ => exact hi.prod
  · intro k d hk
    have hk : T ≤ k := hk
    exact hi.live k d (show L ≤ k by omega)

theorem storeTail_inv (hi : InvAt ⟨q, prod, .copied t c, hist⟩ T L) :
    Inv ⟨{ q with tail := t + 1 }, prod, .idle, { hist with popped := hist.popped ++ [c] }⟩ := by
  obtain ⟨ht, hget⟩ : t = cur 64 L ∧ hist.pushed[L]? = some c := hi.cons
  obtain ⟨hlt, hc⟩ := List.getElem?_eq_some_iff.1 hget
  have hlag := hi.lag
  have hlead := hi.lead
  have hcap : hist.pushed.length ≤ T + kSlots := hi.cap
  refine ⟨L + 1, L + 1, hi.head, ?_, hlt, ?_, le_refl _, by omega, ?_, ?_, rfl, ?_, ?_, ?_, hi.dropped⟩
  · show t + 1 = _
    rw [ht, cur_succ]
  · show hist.pushed.length ≤ _
    omega
  · show hist.pushed.length ≤ L + 1 + kSlots
    omega
  · cases prod with
    | count d h | put d h =>
      obtain ⟨h1, h2⟩ : h = cur 64 hist.pushed.length ∧ hist.pushed.length < T + kSlots := hi.prod
      exact ⟨h1, show hist.pushed.length < L + 1 + kSlots by omega⟩
    | publish d h =>
      obtain ⟨h1, h2, h3⟩ : h = cur 64 hist.pushed.length ∧ hist.pushed.length < T + kSlots ∧ _ := hi.prod
      exact ⟨h1, show hist.pushed.length < L + 1 + kSlots by omega, h3⟩
    | _ => exact hi.prod
  · intro k d hk
    have hk : L + 1 ≤ k := hk
    exact hi.live k d (show T ≤ k by omega)
  · show (hist.popped ++ [c]).Sublist (hist.pushed.take (L + 1))
    rw [List.take_succ_eq_append_getElem hlt, ← hc]
    exact hi.order.append (List.Sublist.refl _)
  · have hm : T ≤ hist.popped.length + hist.drops + pending ⟨q, prod, .copied t c, hist⟩ := hi.missing
    show L + 1 ≤ (hist.popped ++ [c]).length + hist.drops + pending ⟨q, prod, .copied t c, hist⟩
    rw [List.length_append, List.length_singleton]
    omega

end Steps

theorem producer_inv {s t : Sys α} {a : Act α} (hi : Inv s) (ha : Apart s a) (h : stepProducer s a = some t) :
    Inv t := by
  obtain ⟨T, L, hi⟩ := hi
  obtain ⟨q, prod, cons, hist⟩ := s
  cases a with
  | push c =>
    cases prod <;> cases h
    exact ⟨T, L, push_inv hi c⟩
  | loadTail =>
    cases prod with
    | gotHead c hd =>
      simp only [stepProducer] at h
      split at h <;> cases h
      · rename_i hf
        exact ⟨T, L, loadTail_full_inv hi hf⟩
      · rename_i hf
        exact ⟨T, L, loadTail_room_inv hi hf⟩
    | _ => cases h
  | advanceTail =>
    cases prod <;> cases h
    exact advanceTail_inv hi ha
  | countDropped =>
    cases prod <;> cases h
    exact ⟨T, L, countDropped_inv hi⟩
  | putSlot =>
    cases prod <;> cases h
    exact ⟨T, L, putSlot_inv hi ha⟩
  | storeHead =>
    cases prod <;> cases h
    exact ⟨T, L, storeHead_inv hi⟩
  | _ => cases h

theorem consumer_inv {s t : Sys α} {a : Act α} (hi : Inv s) (h : stepConsumer s a = some t) : Inv t := by
  obtain ⟨T, L, hi⟩ := hi
  obtain ⟨q, prod, cons, hist⟩ := s
  cases a with
  | pop =>
    cases cons <;> cases h
    exact ⟨T, L, pop_inv hi⟩
  | loadHead =>
    cases cons with
    | gotTail tl =>
      simp only [stepConsumer] at h
      split at h <;> cases h
      · rename_i he
        exact ⟨T, L, loadHead_empty_inv hi he⟩
      · rename_i hne
        exact ⟨T, L, loadHead_some_inv hi hne⟩
    | _ => cases h
  | copySlot =>
    cases cons <;> cases h
    exact ⟨T, L, copySlot_inv hi⟩
  | storeTail =>
    cases cons <;> cases h
    exact storeTail_inv hi
  | _ => cases h

theorem step_inv (s : Sys α) (a : Act α) (t : Sys α) (hi : Inv s) (ha : Apart s a) (h : step s a = some t) : Inv t := by
  rcases Option.or_eq_some_iff.1 h with h | ⟨-, h⟩
  · exact producer_inv hi ha h
  · exact consumer_inv hi h

/-! ## What comes out -/

/-- Both sides idle and nothing left to pop. -/
def Sys.Drained (s : Sys α) : Prop := s.prod = .idle ∧ s.cons = .idle ∧ s.q.tail = s.q.head

/-- Along every interleaving that keeps dropping pushes apart from pops, the
commands popped are the pushed ones in push order, each at most once; `dropped`
counts the drops modulo 2³²; and once the queue is drained no more commands are
missing than were dropped. -/
theorem popped_in_order (blank : α) (as : List (Act α)) (s : Sys α) (hm : Meets step Apart (Sys.init blank) as)
    (h : run step (Sys.init blank) as = some s) :
    s.hist.popped.Sublist s.hist.pushed ∧ s.q.dropped = cur 32 s.hist.drops ∧
    (s.Drained → s.hist.pushed.length ≤ s.hist.popped.length + s.hist.drops) := by
  obtain ⟨T, L, hi⟩ := hm.inv Inv step_inv h (init_inv blank)
  refine ⟨hi.order.trans (List.take_sublist _ _), hi.dropped, ?_⟩
  rintro ⟨hp, -, he⟩
  have hcap := hi.cap
  have hmiss := hi.missing
  have := kSlots_eq
  rw [hi.tail, hi.head] at he
  have hT := (cur_eq_iff hi.le (by omega)).1 he
  simp only [pending, hp] at hmiss
  omega

/-- The fader command that carries `n`. -/
def fader (n : ℕ) : CtlCommand := { type := .setFader, coeff := BitVec.ofNat 32 n }

/-- A push into a queue with room. -/
def pushAll (c : CtlCommand) : List (Act CtlCommand) := [.push c, .loadTail, .putSlot, .storeHead]

/-- A push that drops the oldest. -/
def pushDrop (c : CtlCommand) : List (Act CtlCommand) :=
  [.push c, .loadTail, .advanceTail, .countDropped, .putSlot, .storeHead]

/-- Pushes until the queue is full. -/
def fillQueue : List (Act CtlCommand) := (List.range kSlots).flatMap fun n => pushAll (fader n)

/-- The queue is filled, one more push drops command 0, and a pop returns 1. -/
def dropThenPop : List (Act CtlCommand) := fillQueue ++ pushDrop (fader 256) ++ [.pop, .loadHead, .copySlot, .storeTail]

theorem popped_in_order_drop : ∃ s, run step (Sys.init (fader 0)) dropThenPop = some s ∧
    s.hist.popped = [fader 1] ∧ s.hist.popped.Sublist s.hist.pushed := by
  have hm : Meets step Apart (Sys.init (fader 0)) dropThenPop := by decide +kernel
  have hr : (run step (Sys.init (fader 0)) dropThenPop).map (·.hist.popped) = some [fader 1] := by decide +kernel
  obtain ⟨s, h, hp⟩ := Option.map_eq_some_iff.1 hr
  exact ⟨s, h, hp, (popped_in_order _ _ s hm h).1⟩

/-- A pop loads its cursor from the full queue, a whole dropping push goes by,
and the pop then copies the slot that push filled. -/
def dropDuringPop : List (Act CtlCommand) :=
  fillQueue ++ [.pop, .loadHead] ++ pushDrop (fader 256) ++
  [.copySlot, .storeTail, .pop, .loadHead, .copySlot, .storeTail]

/-- The newest command is returned first, an older one after it. -/
theorem popped_overtakes : ∃ s, run step (Sys.init (fader 0)) dropDuringPop = some s ∧
    s.hist.popped = [fader 256, fader 1] ∧ ¬ s.hist.popped.Sublist s.hist.pushed := by
  have hr : (run step (Sys.init (fader 0)) dropDuringPop).map (fun s => (s.hist.popped, s.hist.pushed)) =
      some ([fader 256, fader 1], (List.range 257).map fader) := by decide +kernel
  obtain ⟨s, h, hp⟩ := Option.map_eq_some_iff.1 hr
  obtain ⟨hpop, hpush⟩ := Prod.mk.inj hp
  refine ⟨s, h, hpop, ?_⟩
  rw [hpop, hpush]
  decide +kernel

end UserFace800.Control.Queue
