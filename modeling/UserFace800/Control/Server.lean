import UserFace800.Lib.Run
import UserFace800.Control.Wire
import Mathlib.Algebra.BigOperators.Group.List.Lemmas
import Mathlib.Algebra.Order.BigOperators.Group.List
import Mathlib.Algebra.Order.Group.Nat
/-!
# The socket thread

`CtlServer::serve` and the receives of `CtlServer::handle`: one thread polls every
client, then reads one message of each ready one, first the header and then the
rest, and each receive waits for all of its bytes. Clients connect, send and close
whenever they like. The thread's own steps are a function of the state, so what it
can reach while nobody sends is one run; `a_client_hangs` says when that run gets to
a client's message and when it never does. An answer goes out at once here, or fails.
-/
open UserFace800.Lib

namespace UserFace800.Control

/-- Where the thread is: in `poll`, about to look at the clients the poll found
ready, or in one of the two receives of a client's message. -/
inductive Pc where
  | poll
  | visit (todo : List ℕ)
  | header (k : ℕ) (todo : List ℕ)
  | body (k : ℕ) (hdr : List Byte) (todo : List ℕ)

/-- `fds` are the accepted clients in the order they are polled, `pending` those
that have connected; `sock` is what a client has sent and nobody has received.
`pushed` is everything enqueued, with the client it came from. -/
structure CtlServer where
  fds : List ℕ := []
  pending : List ℕ := []
  sock : ℕ → List Byte := fun _ => []
  closed : ℕ → Bool := fun _ => false
  pc : Pc := .poll
  pushed : List (ℕ × CtlCommand) := []

namespace CtlServer

/-- The client is closed and erased. -/
def drop (s : CtlServer) (k : ℕ) (todo : List ℕ) : CtlServer := { s with fds := s.fds.erase k, pc := .visit todo }

/-- `n` bytes are received from client `k`. -/
def receive (s : CtlServer) (k n : ℕ) : CtlServer := { s with sock := Function.update s.sock k ((s.sock k).drop n) }

/-- The rest of `handle`, with the whole message. -/
def finish (s : CtlServer) (sent : Bool) (k : ℕ) (msg : List Byte) (todo : List ℕ) : CtlServer :=
  match handle sent msg with
  | .drop _ => s.drop k todo
  | .keep _ cmd _ => { s with pc := .visit todo, pushed := s.pushed ++ cmd.toList.map fun c => (k, c) }

/-- The first receive; `none` while it waits. A closed socket gives what it has. -/
def recvHeader (s : CtlServer) (k : ℕ) (todo : List ℕ) : Option CtlServer :=
  if kHeaderBytes ≤ (s.sock k).length then
    let hdr := (s.sock k).take kHeaderBytes
    let length := (u32At hdr 4).toNat
    -- the length is checked before it is trusted
    if length < kHeaderBytes ∨ length > kMaxMsgBytes then some ((s.receive k kHeaderBytes).drop k todo)
    else some { s.receive k kHeaderBytes with pc := .body k hdr todo }
  else if s.closed k then some (s.drop k todo)
  else none

/-- The second. -/
def recvBody (s : CtlServer) (sent : Bool) (k : ℕ) (hdr : List Byte) (todo : List ℕ) : Option CtlServer :=
  let rest := (u32At hdr 4).toNat - kHeaderBytes
  if rest ≤ (s.sock k).length then some ((s.receive k rest).finish sent k (hdr ++ (s.sock k).take rest) todo)
  else if s.closed k then some (s.drop k todo)
  else none

/-- The next step of the thread. `sent` is the fate of an answer, should it give one. -/
def serve (s : CtlServer) (sent : Bool) : Option CtlServer :=
  match s.pc with
  | .poll =>
    let ready := s.fds.filter fun k => !(s.sock k).isEmpty || s.closed k
    -- a client accepted now is in the next poll
    match s.pending with
    | k :: rest => some { s with fds := s.fds ++ [k], pending := rest, pc := .visit ready }
    | [] => if ready.isEmpty then some s else some { s with pc := .visit ready }
  | .visit [] => some { s with pc := .poll }
  | .visit (k :: todo) => some { s with pc := .header k todo }
  | .header k todo => s.recvHeader k todo
  | .body k hdr todo => s.recvBody sent k hdr todo

/-- A step of the server's thread, where `sent` says that a reply went out, or of a client. -/
inductive Act where
  | serve (sent : Bool)
  | connect (k : ℕ)
  | send (k : ℕ) (bytes : List Byte)
  | close (k : ℕ)

/-- The server's thread goes on by itself; a client connects, sends and closes. -/
def step (s : CtlServer) : Act → Option CtlServer
  | .serve sent => s.serve sent
  | .connect k =>
    if k ∈ s.fds ++ s.pending then none
    else some { s with
      pending := s.pending ++ [k], sock := Function.update s.sock k [], closed := Function.update s.closed k false }
  | .send k bytes =>
    if k ∈ s.fds ++ s.pending ∧ s.closed k = false then
      some { s with sock := Function.update s.sock k (s.sock k ++ bytes) }
    else none
  | .close k => if k ∈ s.fds ++ s.pending then some { s with closed := Function.update s.closed k true } else none

/-- What of a client's message the thread has already received. -/
def taken (s : CtlServer) (k : ℕ) : List Byte :=
  match s.pc with
  | .body j hdr _ => if j = k then hdr else []
  | _ => []

/-- What the client has sent that `handle` has not returned for. -/
def unread (s : CtlServer) (k : ℕ) : List Byte := s.taken k ++ s.sock k

/-- The client's next message is whole and carries this command. -/
def Holds (s : CtlServer) (k : ℕ) (c : CtlCommand) : Prop :=
  k ∈ s.fds ++ s.pending ∧ ∃ msg rest, s.unread k = msg ++ rest ∧ WellFormed msg ∧ commandOf msg = some c

/-- The thread alone gets to pushing it, and to nothing else of this client first. -/
def Serves (s : CtlServer) (k : ℕ) (c : CtlCommand) : Prop :=
  ∃ (sents : List Bool) (t : CtlServer) (before : List (ℕ × CtlCommand)),
    run step s (sents.map .serve) = some t ∧ t.pushed = s.pushed ++ before ++ [(k, c)] ∧ ∀ e ∈ before, e.1 ≠ k

end CtlServer

/-! ## Whole messages -/

theorem Frame.unique {a b x y : List Byte} (ha : Frame a) (hb : Frame b) (h : a ++ x = b ++ y) : a = b ∧ x = y := by
  have ha8 := ha.header
  have hb8 := hb.header
  rw [kHeaderBytes_eq] at ha8 hb8
  have hlen : a.length = b.length := by
    have hfa := length_append ha8 x
    have hfb := length_append hb8 y
    rw [← ha.length, ← hb.length, ← hfa, ← hfb, h]
  exact List.append_inj h hlen

/-- A header whose length is out of bounds. -/
def Refused (bs : List Byte) : Prop :=
  kHeaderBytes ≤ bs.length ∧ ((u32At bs 4).toNat < kHeaderBytes ∨ (u32At bs 4).toNat > kMaxMsgBytes)

theorem Refused.not_frame {msg rest : List Byte} (h : Refused (msg ++ rest)) : ¬Frame msg := by
  intro hf
  have h8 := hf.header
  have hmax := hf.max
  have hlen := hf.length
  have hbad := h.2
  rw [kHeaderBytes_eq] at h8 hbad
  rw [length_append h8] at hbad
  omega

/-- Bytes the thread reads to their end, or to where it drops the client,
without waiting for more. -/
inductive Settled : List Byte → Prop
  | nil : Settled []
  | refused {bs : List Byte} : Refused bs → Settled bs
  | dropped {msg rest : List Byte} : Frame msg → ¬WellFormed msg → Settled (msg ++ rest)
  | frame {msg rest : List Byte} : Frame msg → Settled rest → Settled (msg ++ rest)

/-- Behind a message that keeps the client the bytes are settled again. -/
theorem Settled.tail {msg rest : List Byte} (h : Settled (msg ++ rest)) (hw : WellFormed msg) : Settled rest := by
  generalize hbs : msg ++ rest = bs at h
  cases h with
  | nil =>
    have h8 := hw.header
    rw [List.append_eq_nil_iff] at hbs
    rw [hbs.1] at h8
    cases h8
  | refused h =>
    rw [← hbs] at h
    exact absurd hw.toFrame h.not_frame
  | dropped hf hn =>
    obtain ⟨rfl, -⟩ := hw.toFrame.unique hf hbs
    exact absurd hw hn
  | frame hf h =>
    obtain ⟨-, rfl⟩ := hw.toFrame.unique hf hbs
    exact h

/-- What the thread can act on: a header out of bounds, or a whole message. -/
def Decisive (bs : List Byte) : Prop := Refused bs ∨ ∃ msg rest, bs = msg ++ rest ∧ Frame msg

theorem Settled.decisive {bs : List Byte} (h : Settled bs) (hne : bs ≠ []) : Decisive bs := by
  cases h with
  | nil => exact absurd rfl hne
  | refused h => exact .inl h
  | dropped hf _ => exact .inr ⟨_, _, rfl, hf⟩
  | frame hf _ => exact .inr ⟨_, _, rfl, hf⟩

namespace CtlServer

/-! ## One step of the thread -/

/-- The clients this round has still to look at. -/
def visits (s : CtlServer) : List ℕ :=
  match s.pc with
  | .poll => []
  | .visit todo => todo
  | .header k todo => k :: todo
  | .body k _ todo => k :: todo

/-- Clients are told apart, a round visits each once, those it visits have
something to read or are gone, and a header in hand is one within bounds. -/
structure Inv (s : CtlServer) : Prop where
  nodup : (s.fds ++ s.pending).Nodup
  once : s.visits.Nodup
  open_ : ∀ k ∈ s.visits, k ∈ s.fds
  ready : ∀ k ∈ s.visits, s.unread k ≠ [] ∨ s.closed k = true
  hdr : ∀ k hdr todo, s.pc = .body k hdr todo → hdr.length = kHeaderBytes ∧ ¬Refused hdr

/-- Steps to the next receive, at most, with the connections still to accept. -/
def order (s : CtlServer) : ℕ :=
  5 * s.pending.length +
    match s.pc with
    | .visit [] => 4
    | .poll => 3
    | .visit (_ :: _) => 2
    | .header _ _ => 1
    | .body _ _ _ => 0

/-- What a step of the thread does. It moves on without reading, unless there is nothing to
read at all; or it takes a well-formed message off a client's bytes and pushes its command,
if it has one; or it drops a client that has no message with a command to give. -/
inductive Served (s t : CtlServer) : Prop
  | quiet (clients : t.fds ++ t.pending = s.fds ++ s.pending) (unread : ∀ k, t.unread k = s.unread k)
      (pushed : t.pushed = s.pushed) (less : t.order < s.order ∨ ∀ k ∈ s.fds ++ s.pending, s.unread k = [])
  | took (k : ℕ) (msg : List Byte) (mem : k ∈ s.fds) (well : WellFormed msg) (front : s.unread k = msg ++ t.unread k)
      (others : ∀ j, j ≠ k → t.unread j = s.unread j) (clients : t.fds ++ t.pending = s.fds ++ s.pending)
      (pushed : t.pushed = s.pushed ++ (commandOf msg).toList.map fun c => (k, c))
  | dropped (k : ℕ) (mem : k ∈ s.fds) (clients : t.fds = s.fds.erase k ∧ t.pending = s.pending)
      (unread : ∀ j, j ≠ k → t.unread j = s.unread j) (pushed : t.pushed = s.pushed)
      (reason : ∀ msg rest, s.unread k = msg ++ rest → WellFormed msg → commandOf msg = none)

theorem order_visit {s : CtlServer} {todo : List ℕ} (h : s.pc = .visit todo) :
    s.order ≤ 5 * s.pending.length + 4 ∧ (todo ≠ [] → s.order = 5 * s.pending.length + 2) := by
  unfold order
  rw [h]
  cases todo with
  | nil => exact ⟨le_refl _, fun h => absurd rfl h⟩
  | cons k todo => exact ⟨Nat.add_le_add_left (show 2 ≤ 4 by decide) _, fun _ => rfl⟩

theorem order_poll {s : CtlServer} (h : s.pc = .poll) : s.order = 5 * s.pending.length + 3 := by
  unfold order
  rw [h]

/-- Outside its own body nothing of a client's message is taken. -/
theorem unread_eq {s : CtlServer} {j : ℕ} (h : ∀ hdr todo, s.pc ≠ .body j hdr todo) : s.unread j = s.sock j := by
  unfold unread taken
  split
  · rename_i k hdr todo hpc
    rw [if_neg]
    · rfl
    · rintro rfl
      exact h hdr todo hpc
  · rfl

theorem unread_visit {s : CtlServer} {todo : List ℕ} (h : s.pc = .visit todo) (j : ℕ) : s.unread j = s.sock j :=
  unread_eq fun _ _ e => nomatch h.symm.trans e

theorem unread_header {s : CtlServer} {k : ℕ} {todo : List ℕ} (h : s.pc = .header k todo) (j : ℕ) :
    s.unread j = s.sock j := unread_eq fun _ _ e => nomatch h.symm.trans e

theorem unread_poll {s : CtlServer} (h : s.pc = .poll) (j : ℕ) : s.unread j = s.sock j :=
  unread_eq fun _ _ e => nomatch h.symm.trans e

theorem unread_body {s : CtlServer} {k : ℕ} {hdr : List Byte} {todo : List ℕ} (h : s.pc = .body k hdr todo) :
    s.unread k = hdr ++ s.sock k := by
  unfold unread taken
  rw [h]
  dsimp only
  rw [if_pos rfl]

theorem unread_body_of_ne {s : CtlServer} {k j : ℕ} {hdr : List Byte} {todo : List ℕ} (h : s.pc = .body k hdr todo)
    (hj : j ≠ k) : s.unread j = s.sock j := by
  apply unread_eq
  intro hdr' todo' e
  cases h.symm.trans e
  exact hj rfl

/-- Done with the client being visited, whether it stays or is erased. -/
theorem visited_spec {s t : CtlServer} {k : ℕ} {todo : List ℕ} (hi : s.Inv) (hv : s.visits = k :: todo)
    (hpc : t.pc = .visit todo) (hsub : t.fds.Sublist s.fds) (hmem : ∀ j ∈ s.fds, j ≠ k → j ∈ t.fds)
    (hpending : t.pending = s.pending) (hclosed : t.closed = s.closed) (hsock : ∀ j, j ≠ k → t.sock j = s.unread j) :
    t.Inv ∧ ∀ j, j ≠ k → t.unread j = s.unread j := by
  have hunread : ∀ j, j ≠ k → t.unread j = s.unread j := by
    intro j hj
    rw [unread_visit hpc, hsock j hj]
  have hvt : t.visits = todo := by
    unfold visits
    rw [hpc]
  have honce := hi.once
  have hopen := hi.open_
  have hready := hi.ready
  rw [hv] at honce hopen hready
  have hne : ∀ j ∈ todo, j ≠ k := by
    rintro j hj rfl
    exact (List.nodup_cons.1 honce).1 hj
  refine ⟨⟨?_, ?_, ?_, ?_, ?_⟩, hunread⟩
  · rw [hpending]
    exact hi.nodup.sublist (hsub.append_right _)
  · rw [hvt]
    exact (List.nodup_cons.1 honce).2
  · intro j hj
    rw [hvt] at hj
    exact hmem j (hopen j (List.mem_cons_of_mem _ hj)) (hne j hj)
  · intro j hj
    rw [hvt] at hj
    rw [hunread j (hne j hj), hclosed]
    exact hready j (List.mem_cons_of_mem _ hj)
  · intro j hdr todo' h
    rw [hpc] at h
    cases h

theorem drop_spec {s t : CtlServer} {k : ℕ} {todo : List ℕ} (hi : s.Inv) (hv : s.visits = k :: todo)
    (hdrop : t.pc = .visit todo ∧ t.fds = s.fds.erase k ∧ t.pending = s.pending ∧ t.closed = s.closed ∧
      t.pushed = s.pushed) (hsock : ∀ j, j ≠ k → t.sock j = s.unread j)
    (hreason : ∀ msg rest, s.unread k = msg ++ rest → WellFormed msg → commandOf msg = none) :
    t.Inv ∧ t.closed = s.closed ∧ Served s t := by
  obtain ⟨hpc, hfds, hpending, hclosed, hpushed⟩ := hdrop
  have hk : k ∈ s.fds := hi.open_ k (by rw [hv]; exact List.mem_cons_self)
  obtain ⟨hinv, hunread⟩ := visited_spec hi hv hpc (by rw [hfds]; exact List.erase_sublist)
    (fun j hj hne => by rw [hfds]; exact (List.mem_erase_of_ne hne).2 hj) hpending hclosed hsock
  exact ⟨hinv, hclosed, .dropped k hk ⟨hfds, hpending⟩ hunread hpushed hreason⟩

/-- A message with a command keeps the client, whatever happens to answers. -/
theorem dispatch_of_command {sent : Bool} {msg : List Byte} {c : CtlCommand} (hw : WellFormed msg)
    (hc : commandOf msg = some c) (rest : List Byte) : dispatch sent msg rest = .keep none (some c) rest := by
  unfold commandOf at hc
  split at hc
  · rename_i t ht
    split at hc
    · rename_i hs
      cases hc
      exact dispatch_command hw.version ht hs rest
    · cases hc
  · cases hc

/-- A header that is not refused is in hand from now on. -/
theorem header_kept {s : CtlServer} {k : ℕ} {todo : List ℕ} (hi : s.Inv) (hpc : s.pc = .header k todo)
    (hv : s.visits = k :: todo) (hsock : ∀ j, j ≠ k → (s.receive k kHeaderBytes).sock j = s.unread j)
    (htake : ((s.sock k).take kHeaderBytes).length = kHeaderBytes) (hok : ¬Refused ((s.sock k).take kHeaderBytes)) :
    ({ s.receive k kHeaderBytes with pc := .body k ((s.sock k).take kHeaderBytes) todo } : CtlServer).Inv ∧
    Served s { s.receive k kHeaderBytes with pc := .body k ((s.sock k).take kHeaderBytes) todo } := by
  have hunread : ∀ j, ({ s.receive k kHeaderBytes with
      pc := .body k ((s.sock k).take kHeaderBytes) todo } : CtlServer).unread j = s.unread j := by
    intro j
    by_cases hj : j = k
    · rw [hj, unread_body rfl, unread_header hpc k]
      show (s.sock k).take kHeaderBytes ++ Function.update s.sock k _ k = s.sock k
      rw [Function.update_self, List.take_append_drop]
    · rw [unread_body_of_ne rfl hj]
      exact hsock j hj
  have hless : ({ s.receive k kHeaderBytes with
      pc := .body k ((s.sock k).take kHeaderBytes) todo } : CtlServer).order < s.order := by
    unfold order
    rw [hpc]
    exact Nat.lt_succ_self _
  refine ⟨⟨hi.nodup, ?_, ?_, ?_, ?_⟩, .quiet rfl hunread rfl (.inl hless)⟩
  · have := hi.once
    rw [hv] at this
    exact this
  · have := hi.open_
    rw [hv] at this
    exact this
  · have := hi.ready
    rw [hv] at this
    intro j hj
    rw [hunread j]
    exact this j hj
  · rintro j hdr todo' ⟨⟩
    exact ⟨htake, hok⟩

theorem recvHeader_spec {s t : CtlServer} {k : ℕ} {todo : List ℕ} (hi : s.Inv) (hpc : s.pc = .header k todo)
    (h : s.recvHeader k todo = some t) : t.Inv ∧ t.closed = s.closed ∧ Served s t := by
  have hv : s.visits = k :: todo := by
    unfold visits
    rw [hpc]
  have hsock : ∀ j, j ≠ k → (s.receive k kHeaderBytes).sock j = s.unread j := by
    intro j hj
    rw [unread_header hpc]
    exact Function.update_of_ne hj _ _
  have hhere := unread_header hpc k
  unfold recvHeader at h
  dsimp only at h
  split at h
  · rename_i hlen
    -- the header is there: refused, or in hand from now on
    have htake : ((s.sock k).take kHeaderBytes).length = kHeaderBytes := List.length_take_of_le hlen
    have hfield : u32At (s.sock k) 4 = u32At ((s.sock k).take kHeaderBytes) 4 := by
      conv_lhs => rw [← List.take_append_drop kHeaderBytes (s.sock k)]
      exact length_append (by rw [htake, kHeaderBytes_eq]) _
    split at h
    · rename_i hbad
      cases h
      refine drop_spec hi hv ⟨rfl, rfl, rfl, rfl, rfl⟩ hsock fun msg rest hfront hw => ?_
      rw [hhere] at hfront
      have hr : Refused (s.sock k) := ⟨hlen, by rw [hfield]; exact hbad⟩
      rw [hfront] at hr
      exact absurd hw.toFrame hr.not_frame
    · rename_i hok
      cases h
      obtain ⟨hinv, hserved⟩ := header_kept hi hpc hv hsock htake fun hr => hok hr.2
      exact ⟨hinv, rfl, hserved⟩
  · rename_i hlen
    split at h
    · cases h
      refine drop_spec hi hv ⟨rfl, rfl, rfl, rfl, rfl⟩ (fun j _ => (unread_header hpc j).symm)
        fun msg rest hfront hw => ?_
      rw [hhere] at hfront
      have h8 := hw.header
      rw [hfront, List.length_append] at hlen
      exact absurd (Nat.le_trans h8 (Nat.le_add_right _ _)) hlen
    · cases h

/-- The header in hand and the rest make the message the header claims. -/
theorem body_frame {hdr rest : List Byte} (hlen : hdr.length = kHeaderBytes) (hok : ¬Refused hdr)
    (hrest : rest.length = (u32At hdr 4).toNat - kHeaderBytes) : Frame (hdr ++ rest) := by
  have hbounds : kHeaderBytes ≤ (u32At hdr 4).toNat ∧ (u32At hdr 4).toNat ≤ kMaxMsgBytes := by
    constructor
    · exact Nat.le_of_not_lt fun h => hok ⟨le_of_eq hlen.symm, .inl h⟩
    · exact Nat.le_of_not_lt fun h => hok ⟨le_of_eq hlen.symm, .inr h⟩
  have happend : (hdr ++ rest).length = (u32At hdr 4).toNat := by
    rw [List.length_append, hlen, hrest]
    omega
  refine ⟨by rw [happend]; exact hbounds.1, by rw [happend]; exact hbounds.2, ?_⟩
  rw [length_append (by rw [hlen, kHeaderBytes_eq]), happend]

/-- A whole message: `handle` does with it what it does with the stream's front. -/
theorem finish_spec {s : CtlServer} {sent : Bool} {k n : ℕ} {hdr : List Byte} {todo : List ℕ} (hi : s.Inv)
    (hv : s.visits = k :: todo) (hsock : ∀ j, j ≠ k → (s.receive k n).sock j = s.unread j)
    (hf : Frame (hdr ++ (s.sock k).take n)) (hfront : s.unread k = (hdr ++ (s.sock k).take n) ++ (s.sock k).drop n)
    {t : CtlServer} (ht : (s.receive k n).finish sent k (hdr ++ (s.sock k).take n) todo = t) :
    t.Inv ∧ t.closed = s.closed ∧ Served s t := by
  have hhandle : handle sent (hdr ++ (s.sock k).take n) = dispatch sent (hdr ++ (s.sock k).take n) [] := by
    conv_lhs => rw [← List.append_nil (hdr ++ (s.sock k).take n)]
    exact handle_frame sent hf []
  unfold finish at ht
  cases hd : dispatch sent (hdr ++ (s.sock k).take n) [] with
  | drop ack =>
    rw [hhandle, hd] at ht
    subst ht
    refine drop_spec hi hv ⟨rfl, rfl, rfl, rfl, rfl⟩ hsock fun msg rest hfront' hw => ?_
    obtain ⟨rfl, -⟩ := hw.toFrame.unique hf (hfront'.symm.trans hfront)
    cases hc : commandOf (hdr ++ (s.sock k).take n) with
    | none => rfl
    | some c =>
      rw [dispatch_of_command hw hc] at hd
      cases hd
  | keep ack cmd rest =>
    rw [hhandle, hd] at ht
    subst ht
    have hk : k ∈ s.fds := hi.open_ k (by rw [hv]; exact List.mem_cons_self)
    obtain ⟨-, hw, hcmd⟩ := dispatch_keep hf hd
    obtain ⟨hinv, hunread⟩ := visited_spec (t := { s.receive k n with
      pc := .visit todo, pushed := s.pushed ++ cmd.toList.map fun c => (k, c) }) hi hv rfl (List.Sublist.refl _)
      (fun j hj _ => hj) rfl rfl hsock
    refine ⟨hinv, rfl, .took k _ hk hw ?_ hunread rfl (by rw [← hcmd]; rfl)⟩
    rw [hfront, unread_visit rfl]
    show _ = _ ++ Function.update s.sock k _ k
    rw [Function.update_self]

theorem recvBody_spec {s t : CtlServer} {sent : Bool} {k : ℕ} {hdr : List Byte} {todo : List ℕ} (hi : s.Inv)
    (hpc : s.pc = .body k hdr todo) (h : s.recvBody sent k hdr todo = some t) :
    t.Inv ∧ t.closed = s.closed ∧ Served s t := by
  have hv : s.visits = k :: todo := by
    unfold visits
    rw [hpc]
  obtain ⟨hlen, hok⟩ := hi.hdr k hdr todo hpc
  have hhdr : 8 ≤ hdr.length := by rw [hlen, kHeaderBytes_eq]
  have hhere := unread_body hpc
  unfold recvBody at h
  dsimp only at h
  generalize hn : (u32At hdr 4).toNat - kHeaderBytes = n at h
  have hsock : ∀ j, j ≠ k → (s.receive k n).sock j = s.unread j := by
    intro j hj
    rw [unread_body_of_ne hpc hj]
    exact Function.update_of_ne hj _ _
  split at h
  · rename_i hle
    cases h
    have hf : Frame (hdr ++ (s.sock k).take n) := body_frame hlen hok (by rw [List.length_take_of_le hle, hn])
    have hfront : s.unread k = (hdr ++ (s.sock k).take n) ++ (s.sock k).drop n := by
      rw [hhere, List.append_assoc, List.take_append_drop]
    exact finish_spec hi hv hsock hf hfront rfl
  · rename_i hle
    split at h
    · cases h
      refine drop_spec hi hv ⟨rfl, rfl, rfl, rfl, rfl⟩ (fun j hj => (unread_body_of_ne hpc hj).symm)
        fun msg rest hfront hw => ?_
      -- the message would be longer than what there is
      have hlong := congrArg List.length (hhere.symm.trans hfront)
      have hfield := length_append hhdr (s.sock k)
      have hmsg := hw.length
      have h8 := hw.header
      rw [kHeaderBytes_eq] at h8
      rw [← length_append h8 rest, ← hfront, hhere, hfield] at hmsg
      rw [List.length_append, List.length_append] at hlong
      rw [kHeaderBytes_eq] at hn hlen
      omega
    · cases h

/-- The clients a poll finds ready. -/
def readyFds (s : CtlServer) : List ℕ := s.fds.filter fun k => !(s.sock k).isEmpty || s.closed k

theorem mem_readyFds {s : CtlServer} {k : ℕ} : k ∈ s.readyFds ↔ k ∈ s.fds ∧ (s.sock k ≠ [] ∨ s.closed k = true) := by
  unfold readyFds
  rw [List.mem_filter, Bool.or_eq_true, Bool.not_eq_true', List.isEmpty_eq_false_iff]

/-- A poll that returns, with or without a connection to accept. -/
theorem poll_spec {s t : CtlServer} (hi : s.Inv) (hpc : s.pc = .poll) (hpct : t.pc = .visit s.readyFds)
    (hclients : t.fds ++ t.pending = s.fds ++ s.pending) (hfds : ∀ k ∈ s.fds, k ∈ t.fds) (hsock : t.sock = s.sock)
    (hclosed : t.closed = s.closed) (hpushed : t.pushed = s.pushed) (hless : t.order < s.order) :
    t.Inv ∧ t.closed = s.closed ∧ Served s t := by
  have hunread : ∀ k, t.unread k = s.unread k := by
    intro k
    rw [unread_visit hpct, unread_poll hpc, hsock]
  have hvt : t.visits = s.readyFds := by
    unfold visits
    rw [hpct]
  refine ⟨⟨?_, ?_, ?_, ?_, ?_⟩, hclosed, .quiet hclients hunread hpushed (.inl hless)⟩
  · rw [hclients]
    exact hi.nodup
  · rw [hvt]
    exact (hi.nodup.sublist (List.sublist_append_left _ _)).filter _
  · intro k hk
    rw [hvt, mem_readyFds] at hk
    exact hfds k hk.1
  · intro k hk
    rw [hvt, mem_readyFds] at hk
    rw [unread_visit hpct, hsock, hclosed]
    exact hk.2
  · intro k hdr todo h
    rw [hpct] at h
    cases h

/-- Moving on within a round, or out of it. -/
theorem visit_spec {s t : CtlServer} {todo : List ℕ} (hi : s.Inv) (hpc : s.pc = .visit todo) (hv : t.visits = todo)
    (hunread : ∀ k, t.unread k = s.unread k) (hbody : ∀ k hdr rest, t.pc ≠ .body k hdr rest)
    (hsame : t.fds = s.fds ∧ t.pending = s.pending ∧ t.closed = s.closed ∧ t.pushed = s.pushed)
    (hless : t.order < s.order) : t.Inv ∧ t.closed = s.closed ∧ Served s t := by
  obtain ⟨hfds, hpending, hclosed, hpushed⟩ := hsame
  have hvs : s.visits = todo := by
    unfold visits
    rw [hpc]
  have hclients : t.fds ++ t.pending = s.fds ++ s.pending := by rw [hfds, hpending]
  refine ⟨⟨?_, ?_, ?_, ?_, ?_⟩, hclosed, .quiet hclients hunread hpushed (.inl hless)⟩
  · rw [hclients]
    exact hi.nodup
  · rw [hv, ← hvs]
    exact hi.once
  · rw [hv, ← hvs, hfds]
    exact hi.open_
  · intro k hk
    rw [hv, ← hvs] at hk
    rw [hunread, hclosed]
    exact hi.ready k hk
  · intro k hdr rest h
    exact absurd h (hbody k hdr rest)

/-- One step of the thread. -/
theorem serve_spec {s t : CtlServer} {sent : Bool} (hi : s.Inv) (h : s.serve sent = some t) :
    t.Inv ∧ t.closed = s.closed ∧ Served s t := by
  unfold serve at h
  cases hpc : s.pc with
  | poll =>
    rw [hpc] at h
    dsimp only at h
    split at h
    · rename_i k rest hpending
      cases h
      refine poll_spec hi hpc rfl (by rw [hpending]; exact List.append_assoc s.fds [k] rest)
        (fun j hj => List.mem_append_left _ hj) rfl rfl rfl ?_
      have hle := (order_visit (s := { s with fds := s.fds ++ [k], pending := rest, pc := .visit s.readyFds }) rfl).1
      refine lt_of_le_of_lt hle ?_
      rw [order_poll hpc, hpending, List.length_cons]
      dsimp only
      omega
    · rename_i hpending
      split at h
      · rename_i hnone
        cases h
        refine ⟨hi, rfl, .quiet rfl (fun _ => rfl) rfl (.inr fun k hk => ?_)⟩
        rw [hpending, List.append_nil] at hk
        rw [unread_poll hpc]
        by_contra hne
        have hready : k ∈ s.readyFds := mem_readyFds.2 ⟨hk, .inl hne⟩
        unfold readyFds at hready
        rw [List.isEmpty_iff.1 hnone] at hready
        cases hready
      · rename_i hsome
        cases h
        refine poll_spec hi hpc rfl rfl (fun j hj => hj) rfl rfl rfl ?_
        have hne : s.readyFds ≠ [] := fun h => hsome (List.isEmpty_iff.2 h)
        have hvisit := (order_visit (s := { s with pc := .visit s.readyFds }) rfl).2 hne
        rw [order_poll hpc]
        exact lt_of_eq_of_lt hvisit (Nat.lt_succ_self _)
  | visit todo =>
    rw [hpc] at h
    cases todo with
    | nil =>
      cases h
      refine visit_spec hi hpc rfl (fun j => (unread_visit hpc j).symm) (fun _ _ _ h => (nomatch h))
        ⟨rfl, rfl, rfl, rfl⟩ ?_
      unfold order
      rw [hpc]
      exact Nat.lt_succ_self _
    | cons k todo =>
      cases h
      refine visit_spec hi hpc rfl (fun j => (unread_visit hpc j).symm) (fun _ _ _ h => (nomatch h))
        ⟨rfl, rfl, rfl, rfl⟩ ?_
      unfold order
      rw [hpc]
      exact Nat.lt_succ_self _
  | header k todo =>
    rw [hpc] at h
    exact recvHeader_spec hi hpc h
  | body k hdr todo =>
    rw [hpc] at h
    exact recvBody_spec hi hpc h

/-! ## The thread does not wait on whole messages -/

/-- The client whose receive the thread is in. -/
def current (s : CtlServer) : Option ℕ :=
  match s.pc with
  | .header k _ => some k
  | .body k _ _ => some k
  | _ => none

theorem current_mem {s : CtlServer} {k : ℕ} (h : s.current = some k) : k ∈ s.visits := by
  unfold current at h
  unfold visits
  split at h <;> cases h
  · rename_i hpc
    rw [hpc]
    exact List.mem_cons_self
  · rename_i hpc
    rw [hpc]
    exact List.mem_cons_self

/-- It waits only in the receive of a client that is still there and whose bytes
stop short. -/
theorem serve_enabled {s : CtlServer} (hi : s.Inv) (sent : Bool)
    (hgo : ∀ k, s.current = some k → s.closed k = true ∨ Decisive (s.unread k)) : ∃ t, s.serve sent = some t := by
  unfold serve
  cases hpc : s.pc with
  | poll =>
    dsimp only
    split
    · exact ⟨_, rfl⟩
    · split <;> exact ⟨_, rfl⟩
  | visit todo => cases todo <;> exact ⟨_, rfl⟩
  | header k todo =>
    have hgo := hgo k (by unfold current; rw [hpc])
    rw [unread_header hpc] at hgo
    dsimp only
    unfold recvHeader
    split
    · dsimp only
      split <;> exact ⟨_, rfl⟩
    · rename_i hlen
      rw [if_pos]
      · exact ⟨_, rfl⟩
      · refine hgo.resolve_right fun hd => hlen ?_
        rcases hd with hr | ⟨msg, rest, hfront, hf⟩
        · exact hr.1
        · rw [hfront, List.length_append]
          exact Nat.le_trans hf.header (Nat.le_add_right _ _)
  | body k hdr todo =>
    have hgo := hgo k (by unfold current; rw [hpc])
    obtain ⟨hlen, hok⟩ := hi.hdr k hdr todo hpc
    have hhdr : 8 ≤ hdr.length := by rw [hlen, kHeaderBytes_eq]
    rw [unread_body hpc] at hgo
    dsimp only
    unfold recvBody
    dsimp only
    split
    · exact ⟨_, rfl⟩
    · rename_i hle
      rw [if_pos]
      · exact ⟨_, rfl⟩
      · have hfield := length_append hhdr (s.sock k)
        refine hgo.resolve_right fun hd => ?_
        rcases hd with hr | ⟨msg, rest, hfront, hf⟩
        · have hbad := hr.2
          rw [hfield] at hbad
          exact hok ⟨le_of_eq hlen.symm, hbad⟩
        · have hlong := congrArg List.length hfront
          have hmsg := hf.length
          have h8 := hf.header
          rw [kHeaderBytes_eq] at h8 hlen
          rw [← length_append h8 rest, ← hfront, hfield] at hmsg
          rw [List.length_append, List.length_append] at hlong
          rw [kHeaderBytes_eq] at hle
          omega

/-! ## It gets to every whole message -/

/-- Bytes and clients still to be dealt with. -/
def load (s : CtlServer) : ℕ := ((s.fds ++ s.pending).map fun k => (s.unread k).length + 1).sum

theorem load_quiet {s t : CtlServer} (hclients : t.fds ++ t.pending = s.fds ++ s.pending)
    (hunread : ∀ k, t.unread k = s.unread k) : t.load = s.load := by
  unfold load
  rw [hclients]
  exact congrArg List.sum (List.map_congr_left fun k _ => by rw [hunread])

theorem load_took {s t : CtlServer} {k : ℕ} {msg : List Byte} (hk : k ∈ s.fds) (hw : WellFormed msg)
    (hfront : s.unread k = msg ++ t.unread k) (hothers : ∀ j, j ≠ k → t.unread j = s.unread j)
    (hclients : t.fds ++ t.pending = s.fds ++ s.pending) : t.load < s.load := by
  have h8 := hw.header
  rw [kHeaderBytes_eq] at h8
  have hlt : (t.unread k).length + 1 < (s.unread k).length + 1 := by
    rw [hfront, List.length_append]
    omega
  unfold load
  rw [hclients]
  apply List.sum_lt_sum
  · intro j _
    by_cases hj : j = k
    · rw [hj]
      exact le_of_lt hlt
    · rw [hothers j hj]
  · exact ⟨k, List.mem_append_left _ hk, hlt⟩

theorem load_dropped {s t : CtlServer} {k : ℕ} (hi : s.Inv) (hk : k ∈ s.fds) (hfds : t.fds = s.fds.erase k)
    (hpending : t.pending = s.pending) (hothers : ∀ j, j ≠ k → t.unread j = s.unread j) : t.load < s.load := by
  have hmem : k ∈ s.fds ++ s.pending := List.mem_append_left _ hk
  have hclients : t.fds ++ t.pending = (s.fds ++ s.pending).erase k := by
    rw [hfds, hpending, List.erase_append_left _ hk]
  have hsame : ((s.fds ++ s.pending).erase k).map (fun j => (t.unread j).length + 1) =
      ((s.fds ++ s.pending).erase k).map fun j => (s.unread j).length + 1 := by
    refine List.map_congr_left fun j hj => ?_
    rw [hothers j ((List.Nodup.mem_erase_iff hi.nodup).1 hj).1]
  unfold load
  rw [hclients, hsame, ← List.sum_map_erase _ hmem]
  omega

/-- Every other client has sent whole messages only, or is gone. -/
def Calm (s : CtlServer) (k : ℕ) : Prop :=
  ∀ j ∈ s.fds ++ s.pending, j ≠ k → s.closed j = true ∨ Settled (s.unread j)

theorem Serves.before {s t : CtlServer} {k : ℕ} {c : CtlCommand} (new : List (ℕ × CtlCommand))
    (hs : s.serve true = some t) (hpushed : t.pushed = s.pushed ++ new) (hnew : ∀ e ∈ new, e.1 ≠ k)
    (h : t.Serves k c) : s.Serves k c := by
  obtain ⟨sents, u, before, hr, hu, hb⟩ := h
  refine ⟨true :: sents, u, new ++ before, run_cons_some (show step s (.serve true) = some t from hs) hr, ?_, ?_⟩
  · rw [hu, hpushed]
    simp only [List.append_assoc]
  · intro e he
    rcases List.mem_append.1 he with he | he
    · exact hnew e he
    · exact hb e he

theorem Holds.kept {s t : CtlServer} {k : ℕ} {c : CtlCommand} (hh : s.Holds k c)
    (hclient : k ∈ s.fds ++ s.pending → k ∈ t.fds ++ t.pending) (hunread : t.unread k = s.unread k) : t.Holds k c := by
  obtain ⟨hmem, msg, rest, hfront, hmsg⟩ := hh
  exact ⟨hclient hmem, msg, rest, hunread.trans hfront, hmsg⟩

theorem Calm.kept {s t : CtlServer} {k : ℕ} (hc : s.Calm k) (hclosed : t.closed = s.closed)
    (hclients : ∀ j ∈ t.fds ++ t.pending, j ∈ s.fds ++ s.pending)
    (hunread : ∀ j ∈ t.fds ++ t.pending, Settled (s.unread j) → Settled (t.unread j)) : t.Calm k := by
  intro j hj hjk
  rw [hclosed]
  exact (hc j (hclients j hj) hjk).imp_right (hunread j hj)

/-- The receive the thread is in, if any, is of a client that lets it end. -/
theorem calm_current {s : CtlServer} {k : ℕ} {c : CtlCommand} (hi : s.Inv) (hh : s.Holds k c) (hc : s.Calm k) {j : ℕ}
    (hj : s.current = some j) : s.closed j = true ∨ Decisive (s.unread j) := by
  obtain ⟨-, msg, rest, hfront, hw, -⟩ := hh
  by_cases hjk : j = k
  · rw [hjk, hfront]
    exact .inr (.inr ⟨msg, rest, rfl, hw.toFrame⟩)
  · have hv := current_mem hj
    rcases hi.ready j hv with hne | hclosed
    · exact (hc j (List.mem_append_left _ (hi.open_ j hv)) hjk).imp_right fun h => h.decisive hne
    · exact .inl hclosed

/-- A step in which nothing is read brings the thread nearer to a receive. -/
theorem holds_order {s t : CtlServer} {k : ℕ} {c : CtlCommand} (hh : s.Holds k c)
    (hless : t.order < s.order ∨ ∀ j ∈ s.fds ++ s.pending, s.unread j = []) : t.order < s.order := by
  obtain ⟨hmem, msg, rest, hfront, hw, -⟩ := hh
  refine hless.resolve_right fun hempty => ?_
  have h8 := hw.header
  rw [hempty k hmem] at hfront
  rw [(List.append_eq_nil_iff.1 hfront.symm).1] at h8
  cases h8

/-- The induction is on what is left to deal with, and for steps that read
nothing on the way to the next receive. -/
theorem serves_of_calm {s : CtlServer} {k : ℕ} {c : CtlCommand} (hi : s.Inv) (hh : s.Holds k c) (hc : s.Calm k) :
    s.Serves k c := by
  induction hl : s.load using Nat.strong_induction_on generalizing s with
  | _ l ihl =>
  induction ho : s.order using Nat.strong_induction_on generalizing s with
  | _ o iho =>
    obtain ⟨t, ht⟩ := serve_enabled hi true fun j hj => calm_current hi hh hc hj
    obtain ⟨hit, hclosed, hserved⟩ := serve_spec hi ht
    cases hserved with
    | quiet clients unread pushed less =>
      have hht : t.Holds k c := hh.kept (fun h => clients ▸ h) (unread k)
      have hct : t.Calm k := hc.kept hclosed (fun j hj => clients ▸ hj) fun j _ h => (unread j).symm ▸ h
      refine Serves.before [] ht (by rw [pushed, List.append_nil]) (fun e he => (nomatch he)) ?_
      exact iho t.order (by rw [← ho]; exact holds_order hh less) hit hht hct (by rw [load_quiet clients unread, hl])
        rfl
    | took j msg' mem well front others clients pushed =>
      by_cases hjk : j = k
      · -- the message is the one we are waiting for
        subst hjk
        obtain ⟨-, msg, rest, hfront, hw, hcmd⟩ := hh
        obtain ⟨rfl, -⟩ := well.toFrame.unique hw.toFrame (front.symm.trans hfront)
        refine ⟨[true], t, [], run_cons_some (show step s (.serve true) = some t from ht) rfl, ?_,
          fun e he => (nomatch he)⟩
        rw [pushed, hcmd, List.append_nil]
        rfl
      · have hht : t.Holds k c := hh.kept (fun h => clients ▸ h) (others k (Ne.symm hjk))
        have hct : t.Calm k := by
          refine hc.kept hclosed (fun i hm => clients ▸ hm) fun i _ h => ?_
          by_cases hij : i = j
          · rw [hij, front] at h
            rw [hij]
            exact h.tail well
          · rwa [others i hij]
        refine Serves.before _ ht pushed ?_ (ihl t.load ?_ hit hht hct rfl)
        · intro e he
          obtain ⟨c', -, rfl⟩ := List.mem_map.1 he
          exact hjk
        · rw [← hl]
          exact load_took mem well front others clients
    | dropped j mem clients unread pushed reason =>
      -- not the one we are waiting for, which has a message with a command
      have hjk : j ≠ k := by
        rintro rfl
        obtain ⟨-, msg, rest, hfront, hw, hcmd⟩ := hh
        have := reason msg rest hfront hw
        rw [hcmd] at this
        cases this
      have hclients : t.fds ++ t.pending = (s.fds ++ s.pending).erase j := by
        rw [clients.1, clients.2, List.erase_append_left _ mem]
      have hht : t.Holds k c :=
        hh.kept (fun hmem => hclients ▸ (List.mem_erase_of_ne (Ne.symm hjk)).2 hmem) (unread k (Ne.symm hjk))
      have hleft : ∀ i ∈ t.fds ++ t.pending, i ≠ j ∧ i ∈ s.fds ++ s.pending := by
        intro i hm
        rw [hclients] at hm
        exact (List.Nodup.mem_erase_iff hi.nodup).1 hm
      have hct : t.Calm k :=
        hc.kept hclosed (fun i hm => (hleft i hm).2) fun i hm h => (unread i (hleft i hm).1).symm ▸ h
      refine Serves.before [] ht (by rw [pushed, List.append_nil]) (fun e he => (nomatch he)) ?_
      refine ihl t.load ?_ hit hht hct rfl
      rw [← hl]
      exact load_dropped hi mem clients.1 clients.2 unread

/-! ## Runs -/

/-- What a client does leaves the thread where it is, and takes nothing away. -/
theorem Inv.asked {s t : CtlServer} (hi : s.Inv) (hpc : t.pc = s.pc) (hnodup : (t.fds ++ t.pending).Nodup)
    (hfds : t.fds = s.fds)
    (hready : ∀ k ∈ s.fds, (s.sock k ≠ [] → t.sock k ≠ []) ∧ (s.closed k = true → t.closed k = true)) : t.Inv := by
  have hvisits : t.visits = s.visits := by
    unfold visits
    rw [hpc]
  have htaken : ∀ k, t.taken k = s.taken k := by
    intro k
    unfold taken
    rw [hpc]
  refine ⟨hnodup, ?_, ?_, ?_, ?_⟩
  · rw [hvisits]
    exact hi.once
  · rw [hvisits, hfds]
    exact hi.open_
  · intro k hk
    rw [hvisits] at hk
    obtain ⟨hsock, hclosed⟩ := hready k (hi.open_ k hk)
    refine (hi.ready k hk).imp (fun hne => ?_) hclosed
    unfold unread at hne ⊢
    rw [htaken, Ne, List.append_eq_nil_iff]
    rintro ⟨h1, h2⟩
    rw [h1, List.nil_append] at hne
    exact hsock hne h2
  · rw [hpc]
    exact hi.hdr

/-- Every step there is: the thread's, or what a client does. -/
inductive Stepped (s : CtlServer) : Act → CtlServer → Prop
  | serve {sent : Bool} {t : CtlServer} : s.serve sent = some t → Stepped s (.serve sent) t
  | connect {k : ℕ} : k ∉ s.fds ++ s.pending → Stepped s (.connect k) { s with
      pending := s.pending ++ [k], sock := Function.update s.sock k [], closed := Function.update s.closed k false }
  | send {k : ℕ} {bytes : List Byte} : Stepped s (.send k bytes)
      { s with sock := Function.update s.sock k (s.sock k ++ bytes) }
  | close {k : ℕ} : Stepped s (.close k) { s with closed := Function.update s.closed k true }

theorem stepped {s t : CtlServer} {a : Act} (h : step s a = some t) : Stepped s a t := by
  cases a with
  | serve sent => exact .serve h
  | connect k =>
    simp only [step] at h
    split at h <;> cases h
    rename_i hk
    exact .connect hk
  | send k bytes =>
    simp only [step] at h
    split at h <;> cases h
    exact .send
  | close k =>
    simp only [step] at h
    split at h <;> cases h
    exact .close

theorem step_inv {s t : CtlServer} {a : Act} (hi : s.Inv) (h : step s a = some t) : t.Inv := by
  cases stepped h with
  | serve h => exact (serve_spec hi h).1
  | @connect k hk =>
    refine hi.asked rfl ?_ rfl fun j hj => ?_
    · dsimp only
      rw [← List.append_assoc, List.nodup_append]
      refine ⟨hi.nodup, List.nodup_singleton k, ?_⟩
      rintro x hx y hy rfl
      rw [List.mem_singleton] at hy
      exact hk (hy ▸ hx)
    · have hjk : j ≠ k := by
        rintro rfl
        exact hk (List.mem_append_left _ hj)
      dsimp only
      rw [Function.update_of_ne hjk, Function.update_of_ne hjk]
      exact ⟨id, id⟩
  | @send k bytes =>
    refine hi.asked rfl hi.nodup rfl fun j _ => ⟨fun hne => ?_, id⟩
    dsimp only
    by_cases hjk : j = k
    · subst hjk
      rw [Function.update_self]
      exact List.append_ne_nil_of_left_ne_nil hne _
    · rw [Function.update_of_ne hjk]
      exact hne
  | @close k =>
    refine hi.asked rfl hi.nodup rfl fun j _ => ⟨id, fun hc => ?_⟩
    dsimp only
    by_cases hjk : j = k
    · subst hjk
      exact Function.update_self _ _ _
    · rw [Function.update_of_ne hjk]
      exact hc

theorem inv_start : ({} : CtlServer).Inv :=
  ⟨List.nodup_nil, List.nodup_nil, fun _ h => (nomatch h), fun _ h => (nomatch h), fun _ _ _ h => (nomatch h)⟩

/-- No client stops short of a message end, unless the thread drops it before that. -/
def Whole (s : CtlServer) : Act → Prop
  | .send k bytes => Settled (s.unread k ++ bytes)
  | _ => True

/-- What a client has sent between two steps of such a run. -/
theorem step_settled {s t : CtlServer} {a : Act} (hi : s.Inv) (hs : ∀ k ∈ s.fds ++ s.pending, Settled (s.unread k))
    (hok : s.Whole a) (h : step s a = some t) : ∀ k ∈ t.fds ++ t.pending, Settled (t.unread k) := by
  intro j hj
  cases stepped h with
  | serve h =>
    obtain ⟨-, -, hserved⟩ := serve_spec hi h
    cases hserved with
    | quiet clients unread pushed less =>
      rw [clients] at hj
      rw [unread]
      exact hs j hj
    | took k msg mem well front others clients pushed =>
      rw [clients] at hj
      have hsj := hs j hj
      by_cases hjk : j = k
      · subst hjk
        rw [front] at hsj
        exact hsj.tail well
      · rw [others j hjk]
        exact hsj
    | dropped k mem clients unread pushed reason =>
      rw [clients.1, clients.2, ← List.erase_append_left _ mem, List.Nodup.mem_erase_iff hi.nodup] at hj
      rw [unread j hj.1]
      exact hs j hj.2
  | @connect k hk =>
    dsimp only at hj
    rw [← List.append_assoc, List.mem_append, List.mem_singleton] at hj
    by_cases hjk : j = k
    · -- the thread is in no receive of a client it has not accepted
      subst hjk
      rw [unread_eq]
      · dsimp only
        rw [Function.update_self]
        exact .nil
      · intro hdr todo hpc
        refine hk (List.mem_append_left _ (hi.open_ j ?_))
        unfold visits
        rw [show s.pc = _ from hpc]
        exact List.mem_cons_self
    · unfold unread
      dsimp only
      rw [Function.update_of_ne hjk]
      exact hs j (hj.resolve_right hjk)
  | @send k bytes =>
    unfold unread
    dsimp only
    by_cases hjk : j = k
    · subst hjk
      rw [Function.update_self, ← List.append_assoc]
      exact hok
    · rw [Function.update_of_ne hjk]
      exact hs j hj
  | close => exact hs j hj

/-- Who acts. -/
def Act.client : Act → Option ℕ
  | .serve _ => none
  | .connect k => some k
  | .send k _ => some k
  | .close k => some k

/-- The thread is in a receive of a client that has stopped in the middle of a message. -/
structure Hung (s : CtlServer) (j : ℕ) : Prop where
  current : s.current = some j
  open_ : s.closed j = false
  short : ¬Decisive (s.unread j)

/-- In the body of the message it is, at the latest, where it stays. -/
theorem serve_hung {s t : CtlServer} {j : ℕ} {sent : Bool} (hi : s.Inv) (hh : s.Hung j) (h : s.serve sent = some t) :
    t.Hung j ∧ t.pushed = s.pushed := by
  obtain ⟨hcur, hopen, hshort⟩ := hh
  unfold current at hcur
  unfold serve at h
  cases hpc : s.pc with
  | poll =>
    rw [hpc] at hcur
    cases hcur
  | visit todo =>
    rw [hpc] at hcur
    cases hcur
  | header k todo =>
    rw [hpc] at hcur h
    cases hcur
    rw [unread_header hpc] at hshort
    dsimp only at h
    unfold recvHeader at h
    dsimp only at h
    split at h
    · rename_i hlen
      have h8 : 8 ≤ ((s.sock j).take kHeaderBytes).length := by rw [List.length_take_of_le hlen, kHeaderBytes_eq]
      have hfield := length_append h8 ((s.sock j).drop kHeaderBytes)
      rw [List.take_append_drop] at hfield
      rw [← hfield] at h
      rw [if_neg fun hbad => hshort (.inl ⟨hlen, hbad⟩)] at h
      cases h
      refine ⟨⟨rfl, hopen, ?_⟩, rfl⟩
      rw [unread_body rfl]
      show ¬Decisive (_ ++ Function.update s.sock j _ j)
      rw [Function.update_self, List.take_append_drop]
      exact hshort
    · rw [if_neg (by rw [hopen]; decide)] at h
      cases h
  | body k hdr todo =>
    rw [hpc] at hcur h
    cases hcur
    obtain ⟨hlen, hok⟩ := hi.hdr j hdr todo hpc
    rw [unread_body hpc] at hshort
    dsimp only at h
    unfold recvBody at h
    dsimp only at h
    split at h
    · rename_i hle
      have hf := body_frame hlen hok (List.length_take_of_le hle)
      refine absurd (.inr ⟨_, (s.sock j).drop ((u32At hdr 4).toNat - kHeaderBytes), ?_, hf⟩) hshort
      rw [List.append_assoc, List.take_append_drop]
    · rw [if_neg (by rw [hopen]; decide)] at h
      cases h

/-- Whatever the thread and everyone else do. -/
theorem step_hung {s t : CtlServer} {j : ℕ} {a : Act} (hi : s.Inv) (hh : s.Hung j) (ha : a.client ≠ some j)
    (h : step s a = some t) : t.Hung j ∧ t.pushed = s.pushed := by
  obtain ⟨hcur, hopen, hshort⟩ := hh
  have hne : ∀ k, a.client = some k → j ≠ k := by
    rintro k hk rfl
    exact ha hk
  cases stepped h with
  | serve h => exact serve_hung hi ⟨hcur, hopen, hshort⟩ h
  | @connect k hk =>
    refine ⟨⟨hcur, (Function.update_of_ne (hne k rfl) _ _).trans hopen, ?_⟩, rfl⟩
    unfold unread
    dsimp only
    rw [Function.update_of_ne (hne k rfl)]
    exact hshort
  | @send k bytes =>
    refine ⟨⟨hcur, hopen, ?_⟩, rfl⟩
    unfold unread
    dsimp only
    rw [Function.update_of_ne (hne k rfl)]
    exact hshort
  | @close k => exact ⟨⟨hcur, (Function.update_of_ne (hne k rfl) _ _).trans hopen, hshort⟩, rfl⟩

theorem run_hung {s t : CtlServer} {j : ℕ} {as : List Act} (hi : s.Inv) (hh : s.Hung j)
    (ha : ∀ a ∈ as, a.client ≠ some j) (h : run step s as = some t) : t.pushed = s.pushed := by
  have hm : Meets step (fun _ a => a.client ≠ some j) s as := Meets.of_forall fun a ham _ => ha a ham
  have hkeep := hm.inv (fun u => u.Inv ∧ u.Hung j ∧ u.pushed = s.pushed)
    (fun u a v hu hok hv => by
      obtain ⟨hiu, hhu, hpu⟩ := hu
      obtain ⟨hhv, hpv⟩ := step_hung hiu hhu hok hv
      exact ⟨step_inv hiu hv, hhv, hpv.trans hpu⟩) h ⟨hi, hh, rfl⟩
  exact hkeep.2.2

/-- A message of the client library is one the thread can serve. -/
theorem holds_call {s : CtlServer} {k : ℕ} (hk : k ∈ s.fds ++ s.pending) (c : Call) (rest : List Byte)
    (h : s.unread k = c.bytes ++ rest) : s.Holds k c.command := by
  obtain ⟨msg, hmsg, hw, hcmd⟩ := handle_keep (Call.handle_bytes true c rest)
  exact ⟨hk, msg, rest, h.trans hmsg, hw, hcmd.symm⟩

/-- Two clients connect and are accepted; the first sends these bytes, the second moves a crosspoint. -/
def twoClients (bytes : List Byte) : List Act :=
  [.connect 1, .connect 2, .serve true, .serve true, .serve true, .serve true, .send 1 bytes,
    .send 2 (Call.setMixer 1 2 3 0x8000).bytes]

/-- The state they leave. -/
def twoSent (bytes : List Byte) : CtlServer :=
  { fds := [1, 2]
    sock := Function.update (Function.update (Function.update (Function.update (fun _ => []) 1 []) 2 []) 1 bytes) 2
      (Call.setMixer 1 2 3 0x8000).bytes
    closed := Function.update (Function.update (fun _ => false) 1 false) 2 false }

theorem Hung.not_serves {s : CtlServer} {j : ℕ} (hh : s.Hung j) (hi : s.Inv) (k : ℕ) (c : CtlCommand) :
    ¬s.Serves k c := by
  rintro ⟨sents, t, before, hr, hp, -⟩
  have hsame := run_hung hi hh (fun a ha => by
    obtain ⟨sent, -, rfl⟩ := List.mem_map.1 ha
    exact nofun) hr
  rw [hsame, List.append_assoc, List.self_eq_append_right] at hp
  exact List.append_ne_nil_of_right_ne_nil _ (List.cons_ne_nil _ _) hp

end CtlServer

end UserFace800.Control
