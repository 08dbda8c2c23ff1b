import Wirecat.Fidelity
import Wirecat.Proxy

/-!
# The proxy server gets on

No part of `src/proxy.c` goes round a loop without asking the system for something. A client that says
nothing keeps `read_http_header` waiting for as long as it likes, since nothing bounds that wait; but it is
the client that is waited for, and whatever it does next, the session goes on
(`Wirecat.busy_serveProxyClient`), and so does the server (`Wirecat.busy_proxyRound`).

A client that does answer cannot keep the server for ever, except by a tunnel: the header has no more
bytes than the array, the target no more addresses than were found, and the answer is short. So in
every environment that answers, and in which tunnels end, a session returns
(`Wirecat.returns_serveProxyClient`).
-/

namespace Wirecat

open CString Interaction

/-! ### Sockets -/

theorem busy_waitConnected (fd : Fd) (timeoutMs : ℤ) : Busy (waitConnected fd timeoutMs) := by
  refine Busy.loop (fun _ => (busy_request _).bind' fun r => ?_) (fun _ => asks_request) ()
  rcases r with err | _ | _
  · cases err <;> exact busy_pure _
  · exact (busy_request _).bind' fun _ => busy_pure _
  · exact (busy_request _).bind' fun _ => busy_pure _

theorem busy_connectTimed (fd : Fd) (addr : Addr) (timeoutMs : ℤ) :
    Busy (connectTimed fd addr timeoutMs) := by
  refine (busy_request _).bind' fun _ => Busy.bind' ?_ fun _ => (busy_request _).bind' fun r => ?_
  · exact Busy.ite (busy_request _) (busy_pure _)
  rcases r with _ | err
  · exact busy_pure _
  · cases err <;> first
      | exact busy_pure _
      | exact Busy.ite (busy_waitConnected fd timeoutMs) (busy_pure _)

theorem busy_resolve (host port : Bytes) (family : Family) (t : Transport) (passive : Bool) :
    Busy (resolve host port family t passive) := by
  refine (busy_request _).bind' fun r => ?_
  cases r with
  | none => exact (busy_request _).bind' fun _ => busy_pure _
  | some n => exact busy_pure _

theorem busy_firstAddress {t : Transport} {n : ℕ} {attempt : Fd → ℕ → Proc Bool}
    (hattempt : ∀ fd k, Busy (attempt fd k)) : Busy (firstAddress t n attempt) := by
  refine Busy.loop (fun k => ?_) (fun k => ?_) 0
  · refine Busy.ite ((busy_request _).bind' fun r => ?_) (busy_pure _)
    cases r with
    | error err => exact busy_pure _
    | ok m =>
      refine (hattempt _ _).bind' fun ok => Busy.ite (busy_pure _) ?_
      exact (busy_wcatCloseQuiet _).bind' fun _ => busy_pure _
  · split_ifs
    · trivial
    · rfl

theorem busy_inetConnect (host port : Bytes) (family : Family) (t : Transport) (timeoutMs : ℤ) :
    Busy (inetConnect host port family t timeoutMs) := by
  refine (busy_resolve _ _ _ _ _).bind' fun r => ?_
  cases r with
  | none => exact busy_pure _
  | some n =>
    refine busy_firstAddress fun fd k => (busy_connectTimed _ _ _).bind' fun ok => ?_
    exact Busy.ite ((busy_request _).bind' fun _ => busy_pure _) (busy_pure _)

theorem busy_inetListen (host port : Bytes) (family : Family) (t : Transport) (backlog : ℕ) :
    Busy (inetListen host port family t backlog) := by
  refine (busy_resolve _ _ _ _ _).bind' fun r => ?_
  cases r with
  | none => exact busy_pure _
  | some n =>
    refine busy_firstAddress fun fd k => (busy_request _).bind' fun _ => (busy_request _).bind'
      fun _ => (busy_request _).bind' fun err => ?_
    cases err with
    | none => exact (busy_request _).bind' fun _ => busy_pure _
    | some err => exact busy_pure _

theorem busy_wcatAccept (listener : Fd) (sizes : Option (ℕ × ℕ)) : Busy (wcatAccept listener sizes) := by
  refine Busy.loop (fun _ => (busy_request _).bind' fun r => ?_) (fun _ => asks_request) ()
  cases r with
  | error err => cases err <;> exact busy_pure _
  | ok n =>
    refine (busy_request _).bind' fun _ => ?_
    rcases sizes with _ | ⟨hostLen, portLen⟩
    · exact busy_pure _
    · exact (busy_request _).bind' fun _ => busy_pure _

theorem busy_wcatAccessCheckFd (cfg : Config) (fd : Fd) : Busy (wcatAccessCheckFd cfg fd) := by
  have hpeer : Busy (fdPeerAddr fd) := by
    refine (busy_request _).bind' fun r => ?_
    rcases r with _ | _ | _ | _ <;> exact busy_pure _
  refine Busy.ite (busy_pure _) (hpeer.bind' fun r => ?_)
  rcases r with _ | ⟨family, addr⟩
  · exact (busy_request _).bind' fun _ => busy_pure _
  · exact Busy.ite ((busy_request _).bind' fun _ => busy_pure _)
      (Busy.ite ((busy_request _).bind' fun _ => busy_pure _) (busy_pure _))

/-! ### The session of a client -/

theorem busy_readHttpHeader (fd : Fd) (len : ℕ) : Busy (readHttpHeader fd len) := by
  refine Busy.loop (fun buf => ?_) (fun buf => ?_) []
  · refine Busy.ite ((busy_request _).bind' fun r => ?_) ((busy_request _).bind' fun _ => busy_pure _)
    rcases r with ⟨bytes, hne, hle⟩ | _ | err
    · exact Busy.ite (busy_pure _) (busy_pure _)
    · exact busy_pure _
    · cases err <;> exact busy_pure _
  · rw [headerByte]
    split_ifs <;> exact asks_request

theorem busy_writeProxyResponse (fd : Fd) (status : ℕ) (text : String) :
    Busy (writeProxyResponse fd status text) :=
  Busy.ite ((busy_request _).bind' fun _ => busy_pure _)
    ((busy_wcatFullWrite _ _ _).bind' fun _ => busy_pure _)

/-- **A session gets on**, whatever its client does. -/
theorem busy_serveProxyClient (cfg : Config) (client : Fd) : Busy (serveProxyClient cfg client) := by
  refine (busy_readHttpHeader _ _).bind' fun buf => ?_
  cases buf.bind fun buf => parseConnectRequest (ofBuffer buf) 256 32 with
  | none => exact (busy_writeProxyResponse _ _ _).bind' fun _ => busy_pure _
  | some target =>
    obtain ⟨host, port⟩ := target
    refine (busy_inetConnect _ _ _ _ _).bind' fun r => ?_
    cases r with
    | none =>
      exact (busy_writeProxyResponse _ _ _).bind' fun _ => (busy_request _).bind' fun _ => busy_pure _
    | some upstream =>
      have hclose : ∀ rc : ℕ, Busy (do wcatCloseQuiet upstream; pure rc : Proc ℕ) := fun _ =>
        (busy_wcatCloseQuiet _).bind' fun _ => busy_pure _
      refine (busy_writeProxyResponse _ _ _).bind' fun told => Busy.ite (hclose 1) ?_
      refine (busy_request _).bind' fun _ => (busy_wcatRelayBidirectional _ _ _).bind' fun ok => ?_
      exact hclose _

/-- **A round of the server gets on.** -/
theorem busy_proxyRound (cfg : Config) (listener : Fd) : Busy (proxyRound cfg listener ()) := by
  refine (busy_request _).bind' fun stop => Busy.ite (busy_pure _) ?_
  refine (busy_wcatAccept _ _).bind' fun r => ?_
  cases r with
  | none => exact (busy_request _).bind' fun _ => busy_pure _
  | some peer =>
    refine (busy_wcatAccessCheckFd _ _).bind' fun allowed => Busy.ite ?_ ?_
    · exact (busy_wcatCloseQuiet _).bind' fun _ => busy_pure _
    · refine (busy_request _).bind' fun _ => (busy_serveProxyClient _ _).bind' fun rc => ?_
      exact (busy_wcatCloseQuiet _).bind' fun _ => Busy.ite (busy_pure _) (busy_pure _)

/-- **The server gets on.** -/
theorem busy_wcatProxyServerRun (cfg : Config) : Busy (wcatProxyServerRun cfg) := by
  refine (busy_inetListen _ _ _ _ _).bind' fun r => ?_
  cases r with
  | none => exact (busy_request _).bind' fun _ => busy_pure _
  | some listener =>
    refine (busy_request _).bind' fun _ => Busy.bind' (Busy.loop (fun _ => busy_proxyRound cfg listener)
      (fun _ => asks_request) ()) fun rc => ?_
    exact (busy_wcatCloseQuiet _).bind' fun _ => busy_pure _

/-! ### Environments in which it returns -/

/-- An answer that a signal cut short. -/
def eintrs : Ev → Bool
  | ⟨.read _ _ _ _ _, .error .eintr⟩ | ⟨.write _ _ _, .error .eintr⟩ | ⟨.poll _ _, .error .eintr⟩
  | ⟨.accept _, .error .eintr⟩ | ⟨.close _, some .eintr⟩ => true
  | _ => false

/-- **An environment that answers**: for every request there is an answer that no signal cut short. -/
def Answering (legal : Hist → (e : Sys) → Resp e → Prop) : Prop :=
  ∀ h e, ∃ r, legal h e r ∧ eintrs ⟨e, r⟩ = false

/-- The streams of the relay of the server. -/
def clientStream (client : Fd) : Stream :=
  { wcatStreamFromFd .clientStream client with closeOnEof := false }

/-- The other one. -/
def upstreamStream (upstream : Fd) : Stream := wcatStreamFromFd .upstreamStream upstream

/-- **Tunnels end**: whatever is relayed between a client and its target, at some time it is over. -/
def TunnelsEnd (legal : Hist → (e : Sys) → Resp e → Prop) (cfg : Config) : Prop :=
  ∀ client upstream, Returns legal (wcatRelayBidirectional (clientStream client)
    (upstreamStream upstream) cfg.relayOptions) fun _ => True

section
variable {legal : Hist → (e : Sys) → Resp e → Prop} (ha : Answering legal)

include ha

/-- A request whose answer does not matter. -/
theorem Answering.ask {α : Type} {e : Sys} {k : Resp e → Proc α} {Q : α → Prop}
    (hk : ∀ r, eintrs ⟨e, r⟩ = false → Returns legal (k r) Q) : Returns legal (sys e >>= k) Q :=
  Returns.ask (fun h => ha h e) hk

theorem Answering.request (e : Sys) : Returns legal (sys e) fun _ => True := fun h => by
  obtain ⟨r, hl, -⟩ := ha h e
  exact ⟨_, r, runs_request.mpr ⟨hl, rfl⟩, trivial⟩

theorem returns_wcatFullWrite (via : Via) (fd : Fd) (buf : Bytes) :
    Returns legal (wcatFullWrite via fd buf) fun _ => True := by
  refine Returns.loop (fun off => buf.length - off) (fun off => ?_) 0
  refine Returns.ite (fun hlt => ha.ask fun r hr => ?_) fun _ => returns_pure trivial
  rcases r with ⟨_ | n, hn⟩ | err
  · exact returns_pure trivial
  · refine returns_pure ?_
    rw [List.length_drop] at hn
    change buf.length - (off + (n + 1)) < buf.length - off
    omega
  · cases err
    case eintr => exact absurd hr (by simp [eintrs])
    all_goals exact returns_pure (a := Sum.inr none) trivial

theorem returns_wcatCloseQuiet (fd : Fd) : Returns legal (wcatCloseQuiet fd) fun _ => True := by
  refine Returns.loop (fun _ => 0) (fun _ => ha.ask fun r hr => ?_) ()
  rcases r with _ | err
  · exact returns_pure trivial
  · cases err
    case eintr => exact absurd hr (by simp [eintrs])
    all_goals exact returns_pure (a := Sum.inr ()) trivial

theorem returns_waitConnected (fd : Fd) (timeoutMs : ℤ) :
    Returns legal (waitConnected fd timeoutMs) fun _ => True := by
  refine Returns.loop (fun _ => 0) (fun _ => ha.ask fun r hr => ?_) ()
  rcases r with err | _ | _
  · cases err
    case eintr => exact absurd hr (by simp [eintrs])
    all_goals exact returns_pure (a := Sum.inr false) trivial
  · exact ha.ask fun _ _ => returns_pure trivial
  · exact ha.ask fun _ _ => returns_pure trivial

theorem returns_connectTimed (fd : Fd) (addr : Addr) (timeoutMs : ℤ) :
    Returns legal (connectTimed fd addr timeoutMs) fun _ => True := by
  have hnonblock : Returns legal (if 0 ≤ timeoutMs then sys (.setNonblock fd true) else pure true)
      fun _ => True := Returns.ite (fun _ => ha.request _) fun _ => returns_pure trivial
  refine ha.ask fun _ _ => hnonblock.bind' fun _ _ => ha.ask fun r _ => ?_
  rcases r with _ | err
  · exact returns_pure trivial
  · cases err <;> first
      | exact returns_pure trivial
      | exact Returns.ite (fun _ => returns_waitConnected ha fd timeoutMs) fun _ =>
          returns_pure trivial

/-- A target is reached, or it is not. -/
theorem returns_wcatTcpConnect (host port : Bytes) (family : Family) (timeoutMs : ℤ) :
    Returns legal (wcatTcpConnect host port family timeoutMs) fun _ => True := by
  have hresolve : Returns legal (resolve host port family .tcp false) fun _ => True := by
    refine ha.ask fun r _ => ?_
    cases r with
    | none => exact ha.ask fun _ _ => returns_pure trivial
    | some n => exact returns_pure trivial
  refine hresolve.bind' fun r _ => ?_
  cases r with
  | none => exact returns_pure trivial
  | some n =>
    -- one address after the other
    refine Returns.loop (fun k => n - k) (fun k => ?_) 0
    refine Returns.ite (fun hlt => ha.ask fun r _ => ?_) fun _ => returns_pure trivial
    have hnext : n - (k + 1) < n - k := by omega
    cases r with
    | error err => exact returns_pure hnext
    | ok m =>
      have hattempt : Returns legal (connectTimed (.sock .tcp m) (.inet host port k) timeoutMs >>=
          fun ok => if ok = true then sys (.setNonblock (.sock .tcp m) false) >>= fun _ => pure true
            else pure false) fun _ => True := by
        refine (returns_connectTimed ha _ _ _).bind' fun ok _ => ?_
        exact Returns.ite (fun _ => ha.ask fun _ _ => returns_pure trivial) fun _ =>
          returns_pure trivial
      refine hattempt.bind' fun ok _ => Returns.ite (fun _ => returns_pure trivial) fun _ => ?_
      exact (returns_wcatCloseQuiet ha _).bind' fun _ _ => returns_pure hnext

/-- **The reading of a header ends**, for every client. -/
theorem returns_readHttpHeader (fd : Fd) (len : ℕ) :
    Returns legal (readHttpHeader fd len) fun _ => True := by
  refine Returns.loop (fun buf => len - buf.length) (fun buf => ?_) []
  refine Returns.ite (fun hroom => ha.ask fun r hr => ?_) fun _ =>
    ha.ask fun _ _ => returns_pure trivial
  rcases r with ⟨bytes, hne, hle⟩ | _ | err
  · refine Returns.ite (fun _ => returns_pure trivial) fun _ => returns_pure ?_
    have hpos := List.length_pos_iff.mpr hne
    change len - (buf ++ bytes).length < len - buf.length
    rw [List.length_append]
    omega
  · exact returns_pure trivial
  · cases err
    case eintr => exact absurd hr (by simp [eintrs])
    all_goals exact returns_pure (a := Sum.inr none) trivial

theorem returns_writeProxyResponse (fd : Fd) (status : ℕ) (text : String) :
    Returns legal (writeProxyResponse fd status text) fun _ => True :=
  Returns.ite (fun _ => ha.ask fun _ _ => returns_pure trivial) fun _ =>
    (returns_wcatFullWrite ha _ _ _).bind' fun _ _ => returns_pure trivial

/-- **The session of a client ends**, whatever it sends: a header that is none, that is too long, or
that names a target that cannot be reached; or a tunnel, when that ends. -/
theorem returns_serveProxyClient {cfg : Config} (ht : TunnelsEnd legal cfg) (client : Fd) :
    Returns legal (serveProxyClient cfg client) fun _ => True := by
  refine (returns_readHttpHeader ha _ _).bind' fun buf _ => ?_
  cases buf.bind fun buf => parseConnectRequest (ofBuffer buf) 256 32 with
  | none => exact (returns_writeProxyResponse ha _ _ _).bind' fun _ _ => returns_pure trivial
  | some target =>
    obtain ⟨host, port⟩ := target
    refine (returns_wcatTcpConnect ha _ _ _ _).bind' fun r _ => ?_
    cases r with
    | none =>
      exact (returns_writeProxyResponse ha _ _ _).bind' fun _ _ =>
        ha.ask fun _ _ => returns_pure trivial
    | some upstream =>
      have hclose : ∀ rc : ℕ, Returns legal (do wcatCloseQuiet upstream; pure rc) fun _ => True :=
        fun _ => (returns_wcatCloseQuiet ha _).bind' fun _ _ => returns_pure trivial
      refine (returns_writeProxyResponse ha _ _ _).bind' fun told _ =>
        Returns.ite (fun _ => hclose 1) fun _ => ha.ask fun _ _ => ?_
      exact (ht client upstream).bind' fun ok _ => hclose _

theorem returns_wcatAccept (listener : Fd) (sizes : Option (ℕ × ℕ)) :
    Returns legal (wcatAccept listener sizes) fun _ => True := by
  refine Returns.loop (fun _ => 0) (fun _ => ha.ask fun r hr => ?_) ()
  cases r with
  | error err =>
    cases err
    case eintr => exact absurd hr (by simp [eintrs])
    all_goals exact returns_pure (a := Sum.inr none) trivial
  | ok n =>
    refine ha.ask fun _ _ => ?_
    rcases sizes with _ | ⟨hostLen, portLen⟩
    · exact returns_pure trivial
    · exact ha.ask fun _ _ => returns_pure trivial

theorem returns_wcatAccessCheckFd (cfg : Config) (fd : Fd) :
    Returns legal (wcatAccessCheckFd cfg fd) fun _ => True := by
  have hpeer : Returns legal (fdPeerAddr fd) fun _ => True := by
    refine ha.ask fun r _ => ?_
    rcases r with _ | _ | _ | _ <;> exact returns_pure trivial
  refine Returns.ite (fun _ => returns_pure trivial) fun _ => hpeer.bind' fun r _ => ?_
  rcases r with _ | ⟨family, addr⟩
  · exact ha.ask fun _ _ => returns_pure trivial
  · refine Returns.ite (fun _ => ha.ask fun _ _ => returns_pure trivial) fun _ => ?_
    exact Returns.ite (fun _ => ha.ask fun _ _ => returns_pure trivial) fun _ => returns_pure trivial

/-- **A round of the server ends**, whoever the client is. -/
theorem returns_proxyRound {cfg : Config} (ht : TunnelsEnd legal cfg) (listener : Fd) :
    Returns legal (proxyRound cfg listener ()) fun _ => True := by
  refine ha.ask fun stop _ => Returns.ite (fun _ => returns_pure trivial) fun _ => ?_
  refine (returns_wcatAccept ha _ _).bind' fun r _ => ?_
  cases r with
  | none => exact ha.ask fun _ _ => returns_pure trivial
  | some peer =>
    refine (returns_wcatAccessCheckFd ha _ _).bind' fun allowed _ => Returns.ite (fun _ => ?_) fun _ => ?_
    · exact (returns_wcatCloseQuiet ha _).bind' fun _ _ => returns_pure trivial
    · refine ha.ask fun _ _ => (returns_serveProxyClient ha ht _).bind' fun rc _ => ?_
      refine (returns_wcatCloseQuiet ha _).bind' fun _ _ => ?_
      exact Returns.ite (fun _ => returns_pure trivial) fun _ => returns_pure trivial

end

end Wirecat
