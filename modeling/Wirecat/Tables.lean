import Wirecat.Frames
import Wirecat.Keystrokes
import Wirecat.Descriptors
import Wirecat.SharedOutput

/-!
# Tables of connections

The broker and the multi-session listener hold many connections at once, each in a slot of a
table, and they treat them alike. A connection that is accepted is checked, and let into a
free slot or dismissed; what is in a slot is read from and written to; a connection is closed
in the same step in which its slot is freed. Everything else they do has nothing to do with a
connection (`Wirecat.Uninvolved`).

A ledger of these connections – which of them are open, which of them were found to be
permitted – is kept by such a program as soon as it is kept by these few steps. This is what
`Wirecat.TableRule` asks for, and from it the two programs are walked through once for every
ledger: `Wirecat.TableRule.keeps_brokerRound` and `Wirecat.TableRule.keeps_multiRound`.
-/

namespace Wirecat

open CString Interaction

-- how long a label is does not matter here, and is not to be computed
attribute [local irreducible] outputPrefix

/-! ### What is done with a table -/

/-- Whether a descriptor is a connection that was accepted. -/
def Fd.isConn : Fd → Bool
  | .conn _ _ => true
  | _ => false

/-- **The requests that are about no connection**: nothing is opened or closed, nobody is looked at, and nothing is
exchanged with a connection that was accepted. -/
def Uninvolved : Sys → Bool
  | .read _ fd _ _ _ | .write _ fd _ => !fd.isConn
  | .getpeername _ | .sslConnect _ | .sslAccept _ | .sslRead _ _ _ | .sslWrite _ _ _
  | .sslStreamConclude _ | .sslShutdown _ | .sslHandleEvents _ | .shutdownWrite _ => false
  | e => Neutral e

/-- The requests made for the connections in the slots of a table. -/
def Serves (fds : ℕ → Option Fd) : Sys → Prop
  | .read _ fd _ _ _ | .write _ fd _ => fd.isConn = false ∨ ∃ i, fds i = some fd
  | e => Uninvolved e = true

/-- **A rule for a table of connections**: how a ledger stands with a table of `max` slots, and
with a connection that came in and is not in it yet. -/
structure TableRule (K : Type) (cfg : Config) where
  legal : Hist → (e : Sys) → Resp e → Prop
  ledger : Accounts Sys Resp K
  max : ℕ
  /-- The holdings that go with a table. -/
  Seated : (ℕ → Option Fd) → Set K → Prop
  /-- The same, while a connection has come in. -/
  Arrived : (ℕ → Option Fd) → Fd → Set K → Prop
  /-- The same, once that was found to be permitted. -/
  Admitted : (ℕ → Option Fd) → Fd → Set K → Prop
  uninvolved : ∀ {e : Sys}, Uninvolved e = true → ∀ r, ledger.Inert ∅ ⟨e, r⟩
  read : ∀ {fds : ℕ → Option Fd} {S : Set K} {i : ℕ} {fd : Fd}, Seated fds S → fds i = some fd →
    ∀ via cap off len r, ledger.Inert S ⟨.read via fd cap off len, r⟩
  write : ∀ {fds : ℕ → Option Fd} {S : Set K} {i : ℕ} {fd : Fd}, Seated fds S → fds i = some fd →
    ∀ via buf r, ledger.Inert S ⟨.write via fd buf, r⟩
  leave : ∀ {fds : ℕ → Option Fd} {S : Set K}, Seated fds S → ∀ i,
    ledger.Keeps legal S (wcatCloseQuiet? (fds i)) fun _ => Seated (Function.update fds i none)
  accept : ∀ {fds : ℕ → Option Fd} {S : Set K}, Seated fds S → ∀ listener sizes,
    ledger.Keeps legal S (wcatAccept listener sizes)
      fun r S' => r.elim (Seated fds S') fun peer => Arrived fds peer.fd S'
  check : ∀ {fds : ℕ → Option Fd} {S : Set K} {fd : Fd}, Arrived fds fd S →
    ledger.Keeps legal S (wcatAccessCheckFd cfg fd)
      fun ok S' => if ok then Admitted fds fd S' else Arrived fds fd S'
  arrived : ∀ {fds : ℕ → Option Fd} {S : Set K} {fd : Fd}, Admitted fds fd S → Arrived fds fd S
  dismiss : ∀ {fds : ℕ → Option Fd} {S : Set K} {fd : Fd}, Arrived fds fd S →
    ledger.Keeps legal S (wcatCloseQuiet fd) fun _ => Seated fds
  join : ∀ {fds : ℕ → Option Fd} {S : Set K} {fd : Fd}, Admitted fds fd S → ∀ {i}, i < max →
    fds i = none → Seated (Function.update fds i (some fd)) S

namespace TableRule

variable {K α β : Type} {cfg : Config} (D : TableRule K cfg)

/-- Keeping the books of the rule. -/
abbrev Keeps (S : Set K) (p : Proc α) (Q : α → Set K → Prop) : Prop := D.ledger.Keeps D.legal S p Q

variable {D} {S : Set K} {fds : ℕ → Option Fd}

/-- A request that is about no connection, and the rest of the program. -/
theorem aside {e : Sys} {k : Resp e → Proc α} {Q : α → Set K → Prop} (he : Uninvolved e = true)
    (hk : ∀ r, D.Keeps S (k r) Q) : D.Keeps S (sys e >>= k) Q :=
  Accounts.Keeps.inert (fun r => (D.uninvolved he r).mono (Set.empty_subset S)) fun _ r _ => hk r

/-- A program for the connections in the table holds what it held. -/
theorem serving {p : Proc α} {P : α → Prop} (hs : D.Seated fds S) (hp : Within (Serves fds) p P) :
    D.Keeps S p fun a S' => S' = S ∧ P a := by
  refine Accounts.keeps_of_within hp fun e r he => ?_
  cases e with
  | read via fd cap off len =>
    rcases he with hconn | ⟨i, hi⟩
    · exact (D.uninvolved (by simp [Uninvolved, hconn]) r).mono (Set.empty_subset S)
    · exact D.read hs hi via cap off len r
  | write via fd buf =>
    rcases he with hconn | ⟨i, hi⟩
    · exact (D.uninvolved (by simp [Uninvolved, hconn]) r).mono (Set.empty_subset S)
    · exact D.write hs hi via buf r
  | _ => exact (D.uninvolved he r).mono (Set.empty_subset S)

/-- Such a program, and the rest. -/
theorem beside {p : Proc α} {f : α → Proc β} {P : α → Prop} {Q : β → Set K → Prop}
    (hs : D.Seated fds S) (hp : Within (Serves fds) p P) (hf : ∀ a, P a → D.Keeps S (f a) Q) :
    D.Keeps S (p >>= f) Q :=
  (serving hs hp).bind fun a _ ha => ha.1 ▸ hf a ha.2

end TableRule

/-! ### The broker -/

/-- The descriptors in the slots of the broker. -/
def BrokerState.slotFds (s : BrokerState) (i : ℕ) : Option Fd := (s.clients i).fd

@[simp] theorem BrokerState.slotFds_set (s : BrokerState) (i : ℕ) (c : BrokerClient) :
    (s.set i c).slotFds = Function.update s.slotFds i c.fd := by
  funext j
  rcases eq_or_ne j i with rfl | hne
  · simp [BrokerState.slotFds, BrokerState.set]
  · simp [BrokerState.slotFds, BrokerState.set, hne]

/-- A client that keeps its descriptor is stored. -/
theorem BrokerState.slotFds_stored {s : BrokerState} {i : ℕ} {c : BrokerClient}
    (hfd : c.fd = (s.clients i).fd) : (s.set i c).slotFds = s.slotFds := by
  rw [BrokerState.slotFds_set, hfd]
  exact Function.update_eq_self i s.slotFds

section

variable {fds : ℕ → Option Fd}

theorem serves_flushClient {i : ℕ} {fd : Fd} (hi : fds i = some fd) (c : BrokerClient) :
    Within (Serves fds) (flushClient fd c) fun r => ∀ c' ∈ r, c'.fd = c.fd := by
  refine Within.loop (fun c' => c'.fd = c.fd) rfl fun c' hc' => ?_
  refine Within.ite (fun _ => Within.step (.inr ⟨i, hi⟩) fun r => ?_) fun _ => ?_
  · rcases r with ⟨_ | n, hn⟩ | err
    · rintro _ ⟨⟩
      exact hc'
    · exact hc'
    · cases err with
      | eintr => exact hc'
      | eagain =>
        rintro _ ⟨⟩
        exact hc'
      | _ => exact fun _ h => absurd h (by simp)
  · rintro _ ⟨⟩
    exact hc'

theorem serves_queueBytes (c : BrokerClient) (buf : Bytes) (maxBuffer : ℕ) :
    Within (Serves fds) (queueBytes c buf maxBuffer) fun r => ∀ c' ∈ r, c'.fd = c.fd := by
  have hcompact : c.compact.fd = c.fd := by
    rw [BrokerClient.compact]
    split_ifs <;> rfl
  have hleaves : Within (Serves fds) (queueBytesLeaves c buf maxBuffer) fun r => r.2.fd = c.fd :=
    Within.ite (fun _ => rfl) fun _ => Within.step rfl fun ok =>
      Within.ite (fun _ => hcompact) fun _ => hcompact
  refine hleaves.bind' ?_
  rintro ⟨_ | _, c₁⟩ hr
  · exact fun _ h => absurd h (by simp)
  · rintro _ ⟨⟩
    exact hr

theorem serves_formatChatMessage (sender : BrokerClient) (buf : Bytes) :
    Within (Serves fds) (formatChatMessage sender buf) fun _ => True := by
  have happend : ∀ b text, Within (Serves fds) (appendBytes b text) fun _ => True := by
    intro b text
    refine Within.ite (fun _ => trivial) fun _ => Within.ite (fun _ => trivial) fun _ =>
      Within.ite (fun _ => trivial) fun _ => Within.step rfl fun ok => ?_
    exact Within.ite (fun _ => trivial) fun _ => trivial
  refine Within.next (Within.forEach (fun _ => True) trivial fun c b _ => ?_) fun _ => trivial
  rcases b with _ | b
  · trivial
  refine Within.next (Within.ite (fun _ => Within.ite (fun _ => trivial) fun _ => happend _ _)
    fun _ => trivial) fun labelled => ?_
  rcases labelled with _ | b
  · trivial
  · exact (happend _ _).next fun _ => trivial

end

namespace TableRule

variable {K : Type} {cfg : Config} {D : TableRule K cfg} {S : Set K} {s : BrokerState}

theorem keeps_dropClient (hs : D.Seated s.slotFds S) (i : ℕ) :
    D.Keeps S (dropClient s i) fun s' S' =>
      D.Seated s'.slotFds S' ∧ s'.slotFds = Function.update s.slotFds i none := by
  refine (D.leave hs i).bind fun _ S' hS' => ?_
  have hset : (s.set i clientInit).slotFds = Function.update s.slotFds i none :=
    BrokerState.slotFds_set ..
  exact Accounts.keeps_pure ⟨hset ▸ hS', hset⟩

theorem keeps_brokerBroadcast (hs : D.Seated s.slotFds S) (max maxBuffer i : ℕ) (buf : Bytes) :
    D.Keeps S (brokerBroadcast max maxBuffer i buf s) fun s' => D.Seated s'.slotFds := by
  refine Accounts.Keeps.forRange (fun _ (s' : BrokerState) => D.Seated s'.slotFds) hs
    fun j _ s S' hs => ?_
  refine Accounts.Keeps.ite (fun _ => ?_) fun _ => Accounts.keeps_pure hs
  refine beside hs (serves_queueBytes _ _ _) fun c hc => ?_
  rcases c with _ | c
  · exact aside rfl fun _ => (keeps_dropClient hs j).mono fun _ _ h => h.1
  · exact Accounts.keeps_pure (BrokerState.slotFds_stored (hc c rfl) ▸ hs)

theorem keeps_brokerChunk (hs : D.Seated s.slotFds S) (max maxBuffer i : ℕ) (buf : Bytes) :
    D.Keeps S (brokerChunk cfg max maxBuffer i buf s) fun s' => D.Seated s'.slotFds := by
  refine beside hs (Within.optional rfl) fun _ _ => Accounts.Keeps.ite (fun _ => ?_)
    fun _ => keeps_brokerBroadcast hs _ _ _ _
  refine beside hs (serves_formatChatMessage _ _) fun r _ => ?_
  rcases r with _ | ⟨message, lineStart⟩
  · exact aside rfl fun _ => (keeps_dropClient hs i).mono fun _ _ h => h.1
  · have hset : (s.set i { s.clients i with lineStart := lineStart }).slotFds = s.slotFds :=
      BrokerState.slotFds_stored rfl
    exact keeps_brokerBroadcast (hset.symm ▸ hs) _ _ _ _

/-- What is done for a slot closes its connection only when it frees the slot. -/
theorem keeps_brokerSlot (hs : D.Seated s.slotFds S) (max maxBuffer : ℕ)
    (polled : List (PollFd × Revents)) (i : ℕ) :
    D.Keeps S (brokerSlot cfg max maxBuffer polled i s) fun s' => D.Seated s'.slotFds := by
  have hdrop : ∀ {s : BrokerState}, D.Seated s.slotFds S →
      D.Keeps S (dropClient s i) fun s' => D.Seated s'.slotFds := fun hs =>
    (keeps_dropClient hs i).mono fun _ _ h => h.1
  rw [brokerSlot]
  rcases hfd : (s.clients i).fd with _ | fd
  · exact Accounts.keeps_pure hs
  simp only
  rcases polledEvents polled fd with _ | r
  · exact Accounts.keeps_pure hs
  refine Accounts.Keeps.ite (fun _ => hdrop hs) fun _ => ?_
  refine beside hs (P := fun c => ∀ c' ∈ c, c'.fd = (s.clients i).fd) (Within.ite
    (fun _ => serves_flushClient hfd _) fun _ => ?_) fun c hc => ?_
  · rintro _ ⟨⟩
    rfl
  rcases c with _ | c
  · exact hdrop hs
  have hc' : D.Seated (s.set i c).slotFds S := BrokerState.slotFds_stored (hc c rfl) ▸ hs
  refine Accounts.Keeps.ite (fun _ => ?_) fun _ => Accounts.keeps_pure hc'
  have hslot : (s.set i c).slotFds i = some fd := by
    rw [BrokerState.slotFds_stored (hc c rfl), BrokerState.slotFds, hfd]
  refine beside hc' (P := fun _ => True) (Within.loop (fun _ => True) trivial fun _ _ =>
    Within.step (.inr ⟨i, hslot⟩) fun r => ?_) fun r _ => ?_
  · rcases r with _ | _ | err
    · trivial
    · trivial
    · cases err <;> trivial
  rcases r with ⟨bytes, -, -⟩ | _ | err
  · exact keeps_brokerChunk hc' _ _ _ _
  · exact hdrop hc'
  · cases err with
    | eagain => exact Accounts.keeps_pure hc'
    | _ => exact hdrop hc'

theorem keeps_brokerAccept (hs : D.Seated s.slotFds S) (listener : Fd) :
    D.Keeps S (brokerAccept cfg listener D.max s) fun r S' =>
      ∀ s', r.getD s = s' → D.Seated s'.slotFds S' := by
  have hstays : ∀ {S' : Set K} {r : Option BrokerState}, r.getD s = s → D.Seated s.slotFds S' →
      D.Keeps S' (pure r) fun r S' => ∀ s', r.getD s = s' → D.Seated s'.slotFds S' := by
    intro S' r hr hS'
    refine Accounts.keeps_pure ?_
    rintro _ rfl
    rwa [hr]
  refine (D.accept hs listener _).bind ?_
  rintro (_ | peer) S₁ hpeer
  · exact hstays rfl hpeer
  refine (D.check hpeer).bind fun allowed S₂ hallowed => ?_
  cases allowed with
  | false => exact (D.dismiss hallowed).bind fun _ S₃ hS₃ => hstays rfl hS₃
  | true =>
    rcases hfree : freeSlot D.max s with _ | i
    · exact aside rfl fun _ => (D.dismiss (D.arrived hallowed)).bind fun _ S₃ hS₃ => hstays rfl hS₃
    · have hi : i < D.max := List.mem_range.mp (List.mem_of_find?_eq_some hfree)
      have hnone : s.slotFds i = none := by
        simpa [BrokerState.slotFds] using List.find?_some hfree
      have hjoin : (s.join i peer.fd).slotFds = Function.update s.slotFds i (some peer.fd) :=
        BrokerState.slotFds_set ..
      refine aside rfl fun _ => aside rfl fun _ => Accounts.keeps_pure ?_
      rintro _ rfl
      exact hjoin.symm ▸ D.join hallowed hi hnone

/-- **A round of the broker** keeps the books. -/
theorem keeps_brokerRound (hmax : D.max = cfg.maxClients) (listener : Fd)
    (hs : D.Seated s.slotFds S) :
    D.Keeps S (brokerRound cfg listener s) fun r S' =>
      Sum.elim (fun s' => D.Seated s'.slotFds S') (fun p => D.Seated p.2.slotFds S') r := by
  refine aside rfl fun stop => Accounts.Keeps.ite (fun _ => Accounts.keeps_pure hs)
    fun _ => aside rfl fun r => ?_
  rcases r with err | _ | ⟨revents, hlen, hevent, hignored⟩
  · cases err with
    | eintr => exact Accounts.keeps_pure hs
    | _ => exact aside rfl fun _ => Accounts.keeps_pure hs
  · exact Accounts.keeps_pure hs
  refine Accounts.Keeps.bind
    (Q := fun r S' => ∀ s', r.getD s = s' → D.Seated s'.slotFds S')
    (Accounts.Keeps.ite (fun _ => hmax ▸ keeps_brokerAccept hs listener) fun _ => ?_) ?_
  · refine Accounts.keeps_pure ?_
    rintro _ rfl
    exact hs
  rintro (_ | s') S₁ hS₁
  · exact Accounts.keeps_pure (hS₁ _ rfl)
  · refine (Accounts.Keeps.forRange (fun _ s' => D.Seated s'.slotFds) (hS₁ _ rfl)
      fun i _ s S' hs => keeps_brokerSlot hs _ _ _ i).bind fun s' S' hs' => ?_
    exact Accounts.keeps_pure hs'

/-- The slots of the broker are freed one by one. -/
theorem keeps_dropClients (hs : D.Seated s.slotFds S) (n : ℕ) :
    D.Keeps S (Prog.forRange n (fun i s =>
      if (s.clients i).fd.isSome then dropClient s i else pure s) s) fun s' S' =>
        D.Seated s'.slotFds S' ∧ ∀ i, i < n → s'.slotFds i = none := by
  refine Accounts.Keeps.forRange (fun n (s : BrokerState) S' => D.Seated s.slotFds S' ∧
    ∀ i, i < n → s.slotFds i = none) ⟨hs, by simp⟩ ?_
  rintro n - s S' ⟨hs, hnone⟩
  refine Accounts.Keeps.ite (fun _ => ?_) fun hfree => Accounts.keeps_pure ⟨hs, fun i hi => ?_⟩
  · refine (keeps_dropClient hs n).mono fun s' S' h => ⟨h.1, fun i hi => ?_⟩
    rw [h.2]
    rcases eq_or_ne i n with rfl | hne
    · exact Function.update_self ..
    · rw [Function.update_of_ne hne]
      exact hnone i (by omega)
  · rcases eq_or_ne i n with rfl | hne
    · simpa [BrokerState.slotFds] using hfree
    · exact hnone i (by omega)

end TableRule

/-! ### The multi-session listener -/

/-- The descriptors in the slots of the listener. -/
def MultiState.slotFds (s : MultiState) (i : ℕ) : Option Fd := (s.sessions i).fd

@[simp] theorem MultiState.slotFds_set (s : MultiState) (i : ℕ) (session : MultiSession) :
    (s.set i session).slotFds = Function.update s.slotFds i session.fd := by
  funext j
  rcases eq_or_ne j i with rfl | hne
  · simp [MultiState.slotFds, MultiState.set]
  · simp [MultiState.slotFds, MultiState.set, hne]

theorem MultiState.slotFds_of_sessions {s s' : MultiState} (hs : s'.sessions = s.sessions) :
    s'.slotFds = s.slotFds := by
  funext i
  rw [MultiState.slotFds, hs, MultiState.slotFds]

/-- A session that keeps its descriptor is stored. -/
theorem MultiState.slotFds_stored {s : MultiState} {i : ℕ} {session : MultiSession}
    (hfd : session.fd = (s.sessions i).fd) : (s.set i session).slotFds = s.slotFds := by
  rw [MultiState.slotFds_set, hfd]
  exact Function.update_eq_self i s.slotFds

theorem MultiState.slotFds_counted (s : MultiState) (i n : ℕ) :
    (s.set i { s.sessions i with rxBytes := n }).slotFds = s.slotFds :=
  MultiState.slotFds_stored rfl

theorem SameSessions.slotFds {s s' : MultiState} (hs : SameSessions s s') :
    s'.slotFds = s.slotFds := by
  funext i
  exact (hs.kept i).1

theorem serves_multiSendLine (s : MultiState) (i : ℕ) (line : Bytes) :
    Within (Serves s.slotFds) (multiSendLine s i line)
      fun r => ∀ s' ∈ r, s'.slotFds = s.slotFds := by
  rw [multiSendLine]
  rcases hfd : (s.sessions i).fd with _ | fd
  · exact fun _ hs' => absurd hs' (by simp)
  refine Within.next (within_wcatFullWrite (fun _ => .inr ⟨i, hfd⟩) line) fun n => Within.ite (fun _ => ?_)
    fun _ => ?_
  · exact fun _ hs' => absurd hs' (by simp)
  · rintro _ ⟨⟩
    exact MultiState.slotFds_stored rfl

section

variable {fds : ℕ → Option Fd}

theorem serves_multiWriteOutput (session : MultiSession) (buf : Bytes) :
    Within (Serves fds) (multiWriteOutput session buf false)
      fun r => r.1.fd = session.fd := by
  refine Within.loop (fun p => p.1.fd = session.fd) rfl ?_
  rintro ⟨session', buf⟩ hfd
  refine Within.ite (fun _ => hfd) fun _ => Within.next ?_ fun labelled => ?_
  · refine Within.ite (fun _ => Within.ite (fun _ => trivial) fun _ => ?_) fun _ => trivial
    exact (within_wcatFullWrite (fun _ => .inl rfl) _).next fun _ => trivial
  refine Within.ite (fun _ => hfd) fun _ => ?_
  refine (within_wcatFullWrite (fun _ => .inl rfl) _).next fun n => ?_
  exact Within.ite (fun _ => hfd) fun _ => hfd

theorem serves_multiWriteAttachedOutput (buf echoPending : Bytes) :
    Within (Serves fds) (multiWriteAttachedOutput buf echoPending) fun _ => True := by
  have hwrite : ∀ c, Within (Serves fds) (wcatFullWrite .multi .stdout [c] >>= fun n =>
      pure (if n = some 1 then some [] else none : Option Bytes)) fun _ => True := fun _ =>
    (within_wcatFullWrite (fun _ => .inl rfl) _).next fun _ => trivial
  refine Within.forEach (fun _ => True) trivial fun c echo _ => ?_
  rcases echo with _ | _ | ⟨e, rest⟩
  · trivial
  · exact hwrite c
  · exact Within.ite (fun _ => trivial) fun _ => Within.ite (fun _ => trivial) fun _ => hwrite c

/-- Printing what a session sent leaves every connection in its slot. -/
theorem serves_multiOutput (i : ℕ) (buf : Bytes) (s : MultiState) :
    Within (Serves fds) (multiOutput i buf s) fun r => r.1.slotFds = s.slotFds := by
  refine Within.ite (fun _ => ?_) fun _ => ?_
  · refine (serves_multiWriteAttachedOutput buf s.echoPending).next fun echo => ?_
    rcases echo with _ | echo
    · exact MultiState.slotFds_stored rfl
    · exact MultiState.slotFds_stored rfl
  · exact (serves_multiWriteOutput (s.sessions i) buf).bind' fun r hr =>
      MultiState.slotFds_stored hr

theorem serves_multiRedrawInput (s : MultiState) :
    Within (Serves fds) (multiRedrawInput s) fun _ => True :=
  drawn_multiRedrawInput (fun _ => rfl) (fun _ => .inl rfl) s

theorem serves_multiEscape {c : UInt8} {s : MultiState} {p : Proc MultiState}
    (hp : multiEscape c s = some p) :
    Within (Serves fds) p fun s' => s'.slotFds = s.slotFds :=
  ((drawn_multiEscape (fun _ => rfl) (fun _ => .inl rfl) hp).and (within_multiEscape hp)).mono
    (fun _ he => he.1) fun _ hs' => MultiState.slotFds_of_sessions hs'.2.sessions

theorem serves_multiReadStdin (cap off : ℕ) :
    Within (Serves fds) (multiReadStdin cap off) fun _ => True := by
  refine (within_multiReadStdin cap off).mono ?_ fun _ _ => trivial
  rintro _ ⟨n, rfl⟩
  exact .inl rfl

end

/-! ### What the operator asks for -/

/-- A function of the listener that keeps the books of the rule. -/
def Seats {K : Type} {cfg : Config} (D : TableRule K cfg) (p : MultiState → Proc MultiState) : Prop :=
  ∀ s S, D.Seated s.slotFds S → D.Keeps S (p s) fun s' => D.Seated s'.slotFds

section

variable {K : Type} {cfg : Config} {D : TableRule K cfg} {S : Set K} {max : ℕ}

open TableRule

/-- A function that leaves every connection in its slot. -/
theorem Seats.stays {p : MultiState → Proc MultiState}
    (hp : ∀ s, Within (Serves s.slotFds) (p s) fun s' => s'.slotFds = s.slotFds) : Seats D p := by
  intro s S hs
  refine (serving hs (hp s)).mono fun s' S' h => ?_
  obtain ⟨rfl, hs'⟩ := h
  exact hs'.symm ▸ hs

theorem Seats.bind {p q : MultiState → Proc MultiState} (hp : Seats D p) (hq : Seats D q) :
    Seats D fun s => p s >>= q :=
  fun s S hs => (hp s S hs).bind fun s' S' hs' => hq s' S' hs'

theorem Seats.ite {c : MultiState → Prop} [DecidablePred c] {p q : MultiState → Proc MultiState}
    (hp : Seats D p) (hq : Seats D q) : Seats D fun s => if c s then p s else q s :=
  fun s S hs => Accounts.Keeps.ite (fun _ => hp s S hs) fun _ => hq s S hs

theorem seats_multiPrintPrompt :
    Seats D fun s => multiPrintPrompt s.activeId >>= fun _ => pure s :=
  Seats.stays fun _ => Within.step rfl fun _ => rfl

theorem keeps_multiSessionClose {s : MultiState} (hs : D.Seated s.slotFds S) (i : ℕ) :
    D.Keeps S (multiSessionClose s i) fun s' S' =>
      D.Seated s'.slotFds S' ∧ s'.slotFds = Function.update s.slotFds i none := by
  refine (D.leave hs i).bind fun _ S' hS' => ?_
  have hset : (s.set i multiSessionInit).slotFds = Function.update s.slotFds i none :=
    MultiState.slotFds_set ..
  exact Accounts.keeps_pure ⟨hset ▸ hS', hset⟩

theorem seats_multiSessionClose (i : ℕ) : Seats D fun s => multiSessionClose s i :=
  fun _ _ hs => (keeps_multiSessionClose hs i).mono fun _ _ h => h.1

/-- A connection that fails is closed. -/
theorem seats_multiBroadcast (line : Bytes) : Seats D (multiBroadcast max line) := by
  intro s S hs
  refine Accounts.Keeps.forRange (fun _ (s' : MultiState) => D.Seated s'.slotFds) hs
    fun i _ s S hs => ?_
  refine Accounts.Keeps.ite (fun _ => ?_) fun _ => Accounts.keeps_pure hs
  refine beside hs (serves_multiSendLine s i line) fun r hr => ?_
  rcases r with _ | s'
  · exact aside rfl fun _ => seats_multiSessionClose i s S hs
  · exact Accounts.keeps_pure (hr s' rfl ▸ hs)

theorem seats_multiSetActiveSession (id : MultiState → ℕ) :
    Seats D fun s => multiSetActiveSession max (id s) s :=
  Seats.stays fun _ => Within.ite
    (fun _ => Within.step rfl fun _ => Within.step rfl fun _ => rfl)
    fun _ => Within.step rfl fun _ => Within.step rfl fun _ => rfl

theorem seats_multiUse (arg : Bytes) : Seats D (multiUse max arg) := by
  refine Seats.stays fun s => ?_
  rw [multiUse]
  split <;> exact Within.step rfl fun _ => Within.step rfl fun _ => rfl

theorem seats_multiAttach (arg : Option Bytes) : Seats D (multiAttach max arg) :=
  Seats.stays fun _ => Within.ite (fun _ => Within.step rfl fun _ => rfl)
    fun _ => Within.step rfl fun _ => Within.step rfl fun _ => rfl

theorem seats_multiInfo (arg : Option Bytes) : Seats D (multiInfo max arg) := by
  refine Seats.stays fun s => Within.next (Within.ite (fun _ => ?_) fun _ => within_sys rfl)
    fun _ => Within.step rfl fun _ => rfl
  rw [multiPrintInfo]
  split <;> exact within_sys rfl

theorem seats_multiRename (arg : Bytes) : Seats D (multiRename max arg) := by
  refine Seats.bind (Seats.stays fun s => ?_) seats_multiPrintPrompt
  split
  · exact Within.step rfl fun _ => MultiState.slotFds_stored rfl
  · exact Within.step rfl fun _ => rfl

theorem slotFds_repairActive (s : MultiState) (max id : ℕ) :
    (s.repairActive max id).slotFds = s.slotFds := by
  rw [MultiState.repairActive]
  split_ifs <;> rfl

theorem seats_multiKill (arg : Bytes) : Seats D (multiKill max arg) := by
  refine Seats.bind (fun s S hs => ?_) seats_multiPrintPrompt
  split
  · rename_i i id rest htarget
    refine (seats_multiSessionClose i s S hs).bind fun s' S' hs' => ?_
    have hdone : D.Seated (s'.repairActive max id).slotFds S' :=
      (slotFds_repairActive s' max id).symm ▸ hs'
    exact aside rfl fun _ => beside hs' (Within.optional rfl) fun _ _ => Accounts.keeps_pure hdone
  · exact aside rfl fun _ => Accounts.keeps_pure hs

theorem seats_multiSend (arg : Bytes) : Seats D (multiSend max arg) := by
  refine Seats.bind (fun s S hs => ?_) seats_multiPrintPrompt
  have hfailed : ∀ (i id : ℕ) (s' : MultiState), D.Seated s'.slotFds S →
      D.Keeps S (multiFailure "send failed" >>= fun _ =>
        multiSessionClose s' i >>= fun s => pure (s.repairActive max id))
        fun s' => D.Seated s'.slotFds := by
    intro i id s' hs'
    refine aside rfl fun _ => (seats_multiSessionClose i s' S hs').bind fun s'' S' hs'' => ?_
    exact Accounts.keeps_pure ((slotFds_repairActive s'' max id).symm ▸ hs'')
  split
  · rename_i i id payload htarget
    refine beside hs (serves_multiSendLine s i payload) fun sent hsent => ?_
    rcases sent with _ | s'
    · exact hfailed i id s hs
    have hs' : D.Seated s'.slotFds S := hsent s' rfl ▸ hs
    refine beside hs' (serves_multiSendLine s' i [chr '\n']) fun ended hended => ?_
    rcases ended with _ | s''
    · exact hfailed i id s' hs'
    · exact Accounts.keeps_pure (hended s'' rfl ▸ hs')
  · exact aside rfl fun _ => Accounts.keeps_pure hs

theorem seats_multiAll (payload : Bytes) : Seats D (multiAll max payload) :=
  (seats_multiBroadcast payload).bind seats_multiPrintPrompt

theorem seats_multiPlainLine (line : Bytes) : Seats D (multiPlainLine max line) := by
  intro s S hs
  refine Accounts.Keeps.ite (fun _ => ?_) fun _ => ?_
  · exact aside rfl fun _ => aside rfl fun _ => Accounts.keeps_pure hs
  rcases multiFindById s max s.activeId with _ | i
  · exact aside rfl fun _ => aside rfl fun _ => Accounts.keeps_pure hs
  refine beside hs (serves_multiSendLine s i line) fun sent hsent => ?_
  rcases sent with _ | s'
  · refine aside rfl fun _ => (seats_multiSessionClose i s S hs).bind fun s' S' hs' => ?_
    exact aside rfl fun _ => Accounts.keeps_pure hs'
  · exact Accounts.keeps_pure (hsent s' rfl ▸ hs)

theorem seats_multiCommand (line command : Bytes) : Seats D (multiCommand max line command) := by
  have hshows : ∀ {e : MultiState → Screen}, Seats D fun s =>
      sys (.tty (e s)) >>= fun _ => multiPrintPrompt s.activeId >>= fun _ => pure s :=
    Seats.stays fun _ => Within.step rfl fun _ => Within.step rfl fun _ => rfl
  unfold multiCommand
  refine Seats.ite hshows (Seats.ite hshows (Seats.ite ?_ (Seats.ite ?_ ?_)))
  · exact Seats.stays fun _ => Within.step rfl fun _ => rfl
  · exact Seats.stays fun _ => Within.step rfl fun _ => rfl
  refine Seats.ite (seats_multiSetActiveSession _) (Seats.ite (seats_multiSetActiveSession _) ?_)
  refine Seats.ite hshows (Seats.ite (seats_multiUse _) (Seats.ite (seats_multiUse _) ?_))
  refine Seats.ite (seats_multiAttach _) (Seats.ite (seats_multiAttach _) ?_)
  refine Seats.ite (seats_multiAttach _) (Seats.ite (seats_multiInfo _) ?_)
  refine Seats.ite (seats_multiInfo _) (Seats.ite (seats_multiInfo _) ?_)
  refine Seats.ite (seats_multiRename _) (Seats.ite (seats_multiKill _) ?_)
  refine Seats.ite (seats_multiKill _) (Seats.ite (seats_multiSend _) ?_)
  refine Seats.ite (seats_multiAll _) (Seats.ite (seats_multiAll _) ?_)
  exact Seats.stays fun _ =>
    Within.step rfl fun _ => Within.step rfl fun _ => Within.step rfl fun _ => rfl

theorem seats_multiHandleInputLine (line : Bytes) : Seats D (multiHandleInputLine max line) :=
  Seats.ite (seats_multiCommand line _) (seats_multiPlainLine line)

/-! ### What the operator types -/

theorem seats_multiHandleStdin : Seats D (multiHandleStdin max) := by
  intro s S hs
  refine beside hs (serves_multiReadStdin _ _) fun bytes _ =>
    Accounts.Keeps.ite (fun _ => Accounts.keeps_pure hs) fun _ => ?_
  refine Accounts.Keeps.loop (fun s' => D.Seated s'.slotFds) hs fun s S hs => ?_
  rw [multiLinesRound]
  split
  · exact (seats_multiHandleInputLine _ s S hs).bind fun _ _ hs => Accounts.keeps_pure hs
  · refine Accounts.Keeps.ite (fun _ => ?_) fun _ => Accounts.keeps_pure hs
    exact (seats_multiHandleInputLine _ s S hs).bind fun _ _ hs => Accounts.keeps_pure hs

theorem seats_multiEditorByte (c : UInt8) : Seats D (multiEditorByte max c) := by
  intro s S hs
  have hredraw : ∀ s' : MultiState, s'.slotFds = s.slotFds →
      D.Keeps S (multiRedrawInput s' >>= fun _ => pure s') fun s' => D.Seated s'.slotFds :=
    fun s' hs' => beside hs (serves_multiRedrawInput s') fun _ _ => Accounts.keeps_pure (hs' ▸ hs)
  rw [multiEditorByte]
  rcases hesc : multiEscape c s with _ | p
  · rw [Option.getD_none, multiEditorText]
    refine Accounts.Keeps.ite (fun _ => Accounts.keeps_pure hs) fun _ =>
      Accounts.Keeps.ite (fun _ => ?_) fun _ => ?_
    · refine aside rfl fun _ => Accounts.Keeps.bind (seats_multiHandleInputLine _ _ S ?_)
        fun _ _ hs => Accounts.keeps_pure hs
      exact hs
    refine Accounts.Keeps.ite (fun _ => Accounts.Keeps.ite (fun _ => ?_)
      fun _ => Accounts.keeps_pure hs) fun _ => ?_
    · exact hredraw _ rfl
    · exact Accounts.Keeps.ite (fun _ => hredraw _ rfl) fun _ => Accounts.keeps_pure hs
  · refine (serving hs (serves_multiEscape hesc)).mono fun s' S' h => ?_
    obtain ⟨rfl, hs'⟩ := h
    exact hs'.symm ▸ hs

theorem serves_of_sendsOnly {s : MultiState} {i : ℕ} {sent : List Bytes} {e : Sys}
    (he : SendsOnly s i sent e) : Serves s.slotFds e := by
  cases e with
  | write via fd buf =>
    rcases he with rfl | ⟨hfd, -⟩
    · exact .inl rfl
    · exact .inr ⟨i, hfd⟩
  | tty => rfl
  | _ => exact he.elim

theorem seats_multiAttachedByte (i : ℕ) (c : UInt8) : Seats D (multiAttachedByte i c) :=
  Seats.stays fun s => (within_multiAttachedByte c s).mono (fun _ => serves_of_sendsOnly)
    fun _ hs => hs.same.slotFds

/-- **What the operator types** closes a connection only together with its slot. -/
theorem seats_multiStdin (interactive : Bool) : Seats D (multiStdin interactive max) := by
  refine Seats.ite (fun s S hs => ?_) (Seats.ite (fun s S hs => ?_) seats_multiHandleStdin)
  · rw [multiHandleAttachedStdin]
    rcases multiFindById s max s.attachedId with _ | i
    · exact aside rfl fun _ => aside rfl fun _ => Accounts.keeps_pure hs
    · refine beside hs (serves_multiReadStdin _ _) fun bytes _ => ?_
      exact Accounts.Keeps.forEach (fun s => D.Seated s.slotFds) hs fun c s S hs =>
        seats_multiAttachedByte i c s S hs
  · refine beside hs (serves_multiReadStdin _ _) fun bytes _ => ?_
    exact Accounts.Keeps.forEach (fun s => D.Seated s.slotFds) hs fun c s S hs =>
      seats_multiEditorByte c s S hs

/-! ### What the sessions send -/

theorem slotFds_repairGone (s : MultiState) (max : ℕ) : (s.repairGone max).slotFds = s.slotFds := by
  rw [MultiState.repairGone]
  split_ifs <;> rfl

variable {s : MultiState} {interactive : Bool}

theorem keeps_multiLeave (hs : D.Seated s.slotFds S) (i : ℕ) :
    D.Keeps S (multiLeave max i s) fun s' => D.Seated s'.slotFds := by
  refine aside rfl fun _ => ?_
  refine Accounts.Keeps.bind (Q := fun s' => D.Seated s'.slotFds)
    (seats_multiSessionClose i _ S ?_) fun s' S' hs' => ?_
  · split_ifs <;> exact hs
  have hgone : D.Seated (s'.repairGone max).slotFds S' := (slotFds_repairGone s' max).symm ▸ hs'
  exact Accounts.Keeps.ite (fun _ => aside rfl fun _ => Accounts.keeps_pure hgone)
    fun _ => Accounts.keeps_pure hgone

theorem keeps_multiOutputFailed (hs : D.Seated s.slotFds S) :
    D.Keeps S (multiOutputFailed s) fun r => D.Seated (slotState r).slotFds :=
  aside rfl fun _ => Accounts.keeps_pure hs

theorem keeps_multiData (hs : D.Seated s.slotFds S) (i : ℕ) (buf : Bytes) :
    D.Keeps S (multiData cfg interactive i buf s) fun r => D.Seated (slotState r).slotFds := by
  refine beside hs (Within.optional rfl) fun _ _ => beside hs (Within.optional rfl) fun _ _ => ?_
  refine beside hs (serves_multiOutput i buf _) ?_
  rintro ⟨s₁, ok⟩ hs₁
  have hout : D.Seated s₁.slotFds S := by
    rw [hs₁, MultiState.slotFds_counted]
    exact hs
  refine Accounts.Keeps.ite (fun _ => keeps_multiOutputFailed hout) fun _ => ?_
  refine beside hs (P := fun _ => True) (Within.ite (fun _ => ?_) fun _ => trivial) fun _ _ =>
    Accounts.keeps_pure hout
  exact Within.next (Within.optional rfl) fun _ => serves_multiRedrawInput s₁

theorem keeps_multiHttp (hs : D.Seated s.slotFds S) (i : ℕ) (buf : Bytes) :
    D.Keeps S (multiHttp cfg interactive max i buf s) fun r => D.Seated (slotState r).slotFds := by
  refine beside hs (Within.optional rfl) fun _ _ => beside hs (Within.optional rfl) fun _ _ => ?_
  refine beside hs (serves_multiOutput i buf _) ?_
  rintro ⟨s₁, ok⟩ hs₁
  have hout : ∀ (c : Prop) [Decidable c],
      D.Seated (if c then { s₁ with attachedId := 0 } else s₁).slotFds S := by
    intro c _
    rw [MultiState.slotFds_of_sessions (s := s₁) (by split_ifs <;> rfl), hs₁,
      MultiState.slotFds_counted]
    exact hs
  refine Accounts.Keeps.ite (fun _ => keeps_multiOutputFailed (hout _)) fun _ => aside rfl fun _ => ?_
  refine Accounts.Keeps.bind (seats_multiSessionClose i _ S (hout _)) fun s' S' hs' => ?_
  have hgone : D.Seated (s'.repairGone max).slotFds S' := (slotFds_repairGone s' max).symm ▸ hs'
  refine beside hs' (P := fun _ => True) (Within.ite (fun _ => ?_) fun _ => Within.optional rfl)
    fun _ _ => Accounts.keeps_pure hgone
  exact Within.next (Within.optional rfl) fun _ => serves_multiRedrawInput _

/-- Serving a slot closes its connection only when it frees the slot. -/
theorem keeps_multiSlot (hs : D.Seated s.slotFds S) (polled : List (PollFd × Revents)) (i : ℕ) :
    D.Keeps S (multiSlot cfg interactive max polled i s) fun r => D.Seated (slotState r).slotFds := by
  have hleave : D.Keeps S (multiLeave max i s >>= fun s => pure (Except.ok s))
      fun r => D.Seated (slotState r).slotFds :=
    (keeps_multiLeave hs i).bind fun s' S' hs' => Accounts.keeps_pure hs'
  have hstays : D.Keeps S (pure (Except.ok s)) fun r => D.Seated (slotState r).slotFds :=
    Accounts.keeps_pure hs
  rw [multiSlot]
  rcases hfd : (s.sessions i).fd with _ | fd
  · exact hstays
  dsimp only
  cases (polled.find? fun p => p.1.fd = some fd).map Prod.snd with
  | none => exact hstays
  | some r =>
  refine Accounts.Keeps.ite (fun _ => hleave) fun _ => Accounts.Keeps.ite (fun _ => ?_)
    fun _ => hstays
  refine beside hs (P := fun _ => True) (Within.loop (fun _ => True) trivial fun _ _ =>
    Within.step (.inr ⟨i, hfd⟩) fun r => ?_) fun r _ => ?_
  · rcases r with _ | _ | err
    · trivial
    · trivial
    · cases err <;> trivial
  rcases r with ⟨buf, -, -⟩ | _ | err
  · exact Accounts.Keeps.ite (fun _ => keeps_multiHttp hs i buf) fun _ => keeps_multiData hs i buf
  · exact hleave
  · exact hleave

/-! ### A round of the listener -/

theorem keeps_multiAccept (hs : D.Seated s.slotFds S) (listener : Fd) :
    D.Keeps S (multiAccept cfg listener D.max s) fun s' => D.Seated s'.slotFds := by
  refine (D.accept hs listener _).bind ?_
  rintro (_ | peer) S₁ hpeer
  · exact Accounts.keeps_pure hpeer
  refine (D.check hpeer).bind fun allowed S₂ hallowed => ?_
  cases allowed with
  | false => exact (D.dismiss hallowed).bind fun _ S₃ hS₃ => Accounts.keeps_pure hS₃
  | true =>
  refine Accounts.Keeps.ite (fun hnot => absurd hnot (by simp)) fun _ => ?_
  split
  · exact aside rfl fun _ => (D.dismiss (D.arrived hallowed)).bind fun _ S₃ hS₃ =>
      Accounts.keeps_pure hS₃
  · rename_i i hfree
    have hi : i < D.max := List.mem_range.mp (List.mem_of_find?_eq_some hfree)
    have hnone : s.slotFds i = none := by
      simpa [MultiState.slotFds, MultiSession.live] using List.find?_some hfree
    have hset : (s.join i peer).slotFds = Function.update s.slotFds i (some peer.fd) :=
      MultiState.slotFds_set ..
    have hjoin : D.Seated (s.join i peer).slotFds S₂ := hset.symm ▸ D.join hallowed hi hnone
    exact aside rfl fun _ => Accounts.Keeps.ite (fun _ => aside rfl fun _ => aside rfl fun _ =>
      Accounts.keeps_pure hjoin) fun _ => Accounts.keeps_pure hjoin

/-- **A round of the multi-session listener** keeps the books. -/
theorem TableRule.keeps_multiRound (hmax : D.max = cfg.brokerMaxClients.toNat) (listener : Fd)
    (hs : D.Seated s.slotFds S) :
    D.Keeps S (multiRound cfg interactive listener s) fun r S' =>
      Sum.elim (fun s' => D.Seated s'.slotFds S') (fun s' => D.Seated s'.slotFds S') r := by
  refine aside rfl fun stop => Accounts.Keeps.ite (fun _ => Accounts.keeps_pure hs)
    fun _ => aside rfl fun r => ?_
  rcases r with err | _ | ⟨revents, hlen, hevent, hignored⟩
  · cases err with
    | eintr => exact Accounts.keeps_pure hs
    | _ => exact aside rfl fun _ => Accounts.keeps_pure hs
  · exact Accounts.keeps_pure hs
  refine Accounts.Keeps.bind (Q := fun s' => D.Seated s'.slotFds)
    (Accounts.Keeps.ite (fun _ => hmax ▸ keeps_multiAccept hs listener)
      fun _ => Accounts.keeps_pure hs) fun s₁ S₁ h₁ => ?_
  refine Accounts.Keeps.bind (Q := fun s' => D.Seated s'.slotFds)
    (Accounts.Keeps.ite (fun _ => seats_multiStdin interactive s₁ S₁ h₁)
      fun _ => Accounts.keeps_pure h₁) fun s₂ S₂ h₂ => ?_
  refine Accounts.Keeps.bind (Q := fun r => D.Seated (slotState r).slotFds)
    (Accounts.Keeps.forRange (fun _ r => D.Seated (slotState r).slotFds) h₂
      fun i _ r S' hs' => ?_) fun r S' hs' => ?_
  · rcases r with s' | s'
    · exact Accounts.keeps_pure hs'
    · exact keeps_multiSlot hs' _ i
  · rcases r with s' | s'
    · exact Accounts.keeps_pure hs'
    · exact Accounts.keeps_pure hs'

/-- The slots of the listener are freed one by one. -/
theorem TableRule.keeps_multiSessionCloses (hs : D.Seated s.slotFds S) (n : ℕ) :
    D.Keeps S (Prog.forRange n (fun i s =>
      if (s.sessions i).live then multiSessionClose s i else pure s) s) fun s' S' =>
        D.Seated s'.slotFds S' ∧ ∀ i, i < n → s'.slotFds i = none := by
  refine Accounts.Keeps.forRange (fun n (s : MultiState) S' => D.Seated s.slotFds S' ∧
    ∀ i, i < n → s.slotFds i = none) ⟨hs, by simp⟩ ?_
  rintro n - s S' ⟨hs, hnone⟩
  refine Accounts.Keeps.ite (fun _ => ?_) fun hfree => Accounts.keeps_pure ⟨hs, fun i hi => ?_⟩
  · refine (keeps_multiSessionClose hs n).mono fun s' S' h => ⟨h.1, fun i hi => ?_⟩
    rw [h.2]
    rcases eq_or_ne i n with rfl | hne
    · exact Function.update_self ..
    · rw [Function.update_of_ne hne]
      exact hnone i (by omega)
  · rcases eq_or_ne i n with rfl | hne
    · simpa [MultiState.slotFds, MultiSession.live] using hfree
    · exact hnone i (by omega)

end

end Wirecat
