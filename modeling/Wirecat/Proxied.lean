import Wirecat.Interaction.Conditions
import Wirecat.Modes

/-!
# A proxy is not gone round

With a proxy on the command line, connecting and sending a file reach their target through it:
whoever is connected to is the proxy, and a byte goes to a peer – in the clear, or in a
handshake of TLS, or over it – only once the proxy has agreed, on that descriptor, to stand
for the target. What its agreement is, the negotiation says (`Wirecat.negotiate`).

This needs TCP. Over UDP the proxy is not asked, and the command line is accepted.
-/

namespace Wirecat

open CString Interaction

/-- The descriptor on which a request has to do with the target: everything but the dialogue
with a proxy. -/
def conversesOn : Sys → Option Fd
  | .read via fd _ _ _ | .write via fd _ =>
      if fd.isSocket && via ≠ .handshake then some fd else none
  | .sslConnect fd | .sslAccept fd | .sslRead _ fd _ | .sslWrite _ fd _ | .sslStreamConclude fd
  | .sslShutdown fd => some fd
  | _ => none

/-- **A proxy has agreed** to stand for the target of the command line, on `fd`. -/
def ProxyAgreed (cfg : Config) (proxy : Proxy) (fd : Fd) (h : Hist) : Prop :=
  ∃ g g', g' <:+ h ∧ Runs Legal (negotiate proxy.type fd cfg.hostArg cfg.portArg) g g' (some true)

/-- What is asked of every event: who is connected to is the proxy, and it has agreed before
the target is reached. -/
structure ThroughProxy (cfg : Config) (g : Hist) (ev : Ev) : Prop where
  dials : ∀ fd addr, ev.1 = .connect fd addr → ∃ proxy k,
    wcatProxyParse cfg.proxyUrl = some proxy ∧ addr = .inet proxy.host proxy.port k
  agreed : ∀ fd, conversesOn ev.1 = some fd →
    ∃ proxy, wcatProxyParse cfg.proxyUrl = some proxy ∧ ProxyAgreed cfg proxy fd g

/-- A request that is about no peer, or about the dialogue with a proxy. -/
def BesideTarget (e : Sys) : Prop := (∀ fd addr, e ≠ .connect fd addr) ∧ conversesOn e = none

section

variable {cfg : Config} {proxy : Proxy} {fd : Fd} {g h : Hist} {α : Type} {Q : α → Prop}

theorem ProxyAgreed.mono (ha : ProxyAgreed cfg proxy fd h) (hg : h <:+ g) : ProxyAgreed cfg proxy fd g := by
  obtain ⟨g₀, g₁, hsuf, hr⟩ := ha
  exact ⟨g₀, g₁, hsuf.trans hg, hr⟩

theorem besideTarget_of_domestic (e : Sys) (he : Domestic e = true) : BesideTarget e := by
  refine ⟨?_, ?_⟩
  · rintro fd addr rfl
    cases he
  · cases e with
    | read via fd | write via fd =>
      have hsock : (!fd.isSocket) = true := he
      rw [conversesOn, (Bool.not_eq_true' _).mp hsock, Bool.false_and]
      rfl
    | sslConnect | sslAccept | sslRead | sslWrite | sslStreamConclude | sslShutdown => cases he
    | _ => rfl

theorem throughProxy_of_besideTarget {e : Sys} (he : BesideTarget e) (r : Resp e) :
    ThroughProxy cfg g ⟨e, r⟩ := by
  refine ⟨fun fd addr heq => absurd heq (he.1 fd addr), fun fd hfd => ?_⟩
  rw [he.2] at hfd
  cases hfd

/-- The parts of a program before the proxy has agreed. -/
theorem always_beside {F : Sys → Prop} {p : Proc α} (hp : Within F p Q)
    (hh : Throughout (ThroughProxy cfg) [] h) (hF : ∀ e, F e → BesideTarget e) :
    Always Legal (Throughout (ThroughProxy cfg) []) p (fun a _ => Q a) h :=
  (hp.throughout hh fun _ e r _ he _ => throughProxy_of_besideTarget (hF e he) r).post_mono
    fun _ _ hQ => hQ.2

/-- The parts that follow. -/
theorem always_agreed {p : Proc α}
    (hp : Within (fun e => BesideTarget e ∨ conversesOn e = some fd) p Q)
    (hh : Throughout (ThroughProxy cfg) [] h) (hproxy : wcatProxyParse cfg.proxyUrl = some proxy)
    (ha : ProxyAgreed cfg proxy fd h) :
    Always Legal (Throughout (ThroughProxy cfg) []) p (fun a _ => Q a) h := by
  refine (hp.throughout hh fun g e r hg he _ => ?_).post_mono fun _ _ hQ => hQ.2
  rcases he with he | he
  · exact throughProxy_of_besideTarget he r
  refine ⟨fun fd' addr heq => ?_, fun fd' hfd' => ?_⟩
  · obtain rfl : e = .connect fd' addr := heq
    cases he
  · obtain rfl := Option.some.inj (he.symm.trans hfd')
    exact ⟨proxy, hproxy, ha.mono hg⟩

/-- **Connecting through a proxy** leaves it agreed. -/
theorem agreed_wcatProxyConnect (hproxy : wcatProxyParse cfg.proxyUrl = some proxy)
    (htype : proxy.type ≠ .none) (hh : Throughout (ThroughProxy cfg) [] h) :
    Always Legal (Throughout (ThroughProxy cfg) [])
      (wcatProxyConnect proxy cfg.hostArg cfg.portArg cfg.family cfg.timeoutMs)
      (fun r h' => ∀ fd ∈ r, fd.isSocket = true ∧ ProxyAgreed cfg proxy fd h') h := by
  have hsafe : Always Legal (Throughout (ThroughProxy cfg) [])
      (wcatProxyConnect proxy cfg.hostArg cfg.portArg cfg.family cfg.timeoutMs)
      (fun r _ => SockOf .tcp r) h := by
    have hq : ∀ e, Quiet e = true → BesideTarget e ∨ ∃ fd k,
        e = Sys.connect fd (.inet proxy.host proxy.port k) := fun e he =>
      .inl (besideTarget_of_domestic e (domestic_of_quiet e he))
    refine ((within_wcatProxyConnect (F := fun e => BesideTarget e ∨ ∃ fd k,
      e = .connect fd (.inet proxy.host proxy.port k)) hq (.inl ⟨by simp, rfl⟩) (fun m k => .inr ⟨.sock .tcp m, k, ?_⟩)
      (fun _ => .inl ⟨by simp, rfl⟩) (fun _ _ _ _ => .inl ⟨by simp, by simp [conversesOn]⟩)
      (fun _ _ => .inl ⟨by simp, by simp [conversesOn]⟩) cfg.family cfg.timeoutMs).throughout hh
      fun g e r _ he _ => ?_).post_mono fun _ _ hQ => hQ.2
    · rw [Proxy.dialed, if_neg htype]
    · rcases he with he | ⟨fd, k, rfl⟩
      · exact throughProxy_of_besideTarget he r
      · refine ⟨?_, fun fd' hfd' => by cases hfd'⟩
        rintro _ _ ⟨⟩
        exact ⟨proxy, k, hproxy, rfl⟩
  refine (hsafe.and (Always.of_runs (Q := fun r h' => ∀ fd ∈ r, ProxyAgreed cfg proxy fd h') ?_)).mono
    (fun _ hS => hS.1) fun r h' _ hQ fd hfd => ⟨?_, hQ.2 fd hfd⟩
  swap
  · obtain ⟨m, rfl⟩ := hQ.1 fd hfd
    rfl
  rintro h' _ hr fd ⟨⟩
  rw [wcatProxyConnect, if_neg htype] at hr
  obtain ⟨r, h₁, -, hr⟩ := runs_bind_some'.mp hr
  rcases r with _ | fd₁
  · exact absurd (runs_pure.mp hr).2 (by simp)
  obtain ⟨ok, h₂, hneg, hr⟩ := runs_bind_some'.mp hr
  cases ok with
  | true =>
    obtain ⟨rfl, hfd⟩ := runs_pure.mp hr
    obtain rfl := Option.some.inj hfd
    exact ⟨_, _, List.suffix_refl _, hneg⟩
  | false =>
    obtain ⟨-, h₃, -, hr⟩ := runs_bind_some'.mp hr
    obtain ⟨-, h₄, -, hr⟩ := runs_bind_some'.mp hr
    exact absurd (runs_pure.mp hr).2 (by simp)

/-- Conversing with the peer on `fd` is all that is done with the target. -/
theorem conversesOn_of_converses {e : Sys} (he : Converses cfg fd e) (hsock : fd.isSocket = true) :
    conversesOn e = some fd := by
  rw [Converses] at he
  split_ifs at he
  · cases e <;> first | exact he.elim | exact congrArg some he
  · cases e with
    | read via x | write via x =>
      cases via with
      | stream o =>
        obtain rfl : x = fd := he
        simp [conversesOn, hsock]
      | _ => exact he.elim
    | _ => exact he.elim

theorem beside_or_of_domestic (e : Sys) (he : Domestic e = true) :
    BesideTarget e ∨ conversesOn e = some fd :=
  .inl (besideTarget_of_domestic e he)

variable {url : Bytes} (hurl : cfg.proxyUrl = some url) (hne : url ≠ [])

include hurl hne

theorem type_ne_none (hproxy : wcatProxyParse cfg.proxyUrl = some proxy) : proxy.type ≠ .none := by
  rw [hurl, wcatProxyParse, if_neg (by simpa using hne)] at hproxy
  split_ifs at hproxy
  all_goals
    obtain ⟨_, -, rfl⟩ := Option.map_eq_some_iff.mp hproxy
    simp

/-- **Connecting** goes through the proxy. -/
theorem throughProxy_runConnect (hudp : cfg.udp = false)
    (hother : ¬(cfg.sctp = true ∨ cfg.unixSocket = true ∨ cfg.vsock = true)) :
    Always Legal (Throughout (ThroughProxy cfg) []) (runConnect cfg) (fun _ _ => True) [] := by
  have hd := besideTarget_of_domestic
  obtain ⟨hsctp, hunix, hvsock⟩ : cfg.sctp = false ∧ cfg.unixSocket = false ∧ cfg.vsock = false := by
    simpa [not_or] using hother
  have hreach : Always Legal (Throughout (ThroughProxy cfg) []) (connectSocket cfg)
      (fun r h => ∀ fd ∈ r, fd.isSocket = true ∧ ∃ proxy,
        wcatProxyParse cfg.proxyUrl = some proxy ∧ ProxyAgreed cfg proxy fd h) [] := by
    simp only [connectSocket, hudp, hunix, hvsock, hsctp, Bool.false_eq_true, if_false]
    rcases hproxy : wcatProxyParse cfg.proxyUrl with _ | proxy
    · simp only
      refine (always_beside (Q := fun r => r = none) (Within.step (hd _ rfl) fun _ =>
        Within.step (hd _ rfl) fun _ => within_pure.mpr rfl) .refl fun _ => id).post_mono ?_
      rintro _ _ rfl fd hfd
      cases hfd
    · simp only
      refine (agreed_wcatProxyConnect hproxy (type_ne_none hurl hne hproxy) .refl).post_mono ?_
      exact fun r h hr fd hfd => ⟨(hr fd hfd).1, proxy, rfl, (hr fd hfd).2⟩
  refine always_bind'.mpr (hreach.mono (fun _ => id) fun r h hh hr => ?_)
  rcases r with _ | fd
  · exact always_beside (Q := fun _ => True) (Within.step (hd _ rfl) fun _ => trivial) hh fun _ => id
  obtain ⟨hsock, proxy, hproxy, hagreed⟩ := hr fd rfl
  refine always_agreed (Q := fun _ => True) (Within.step (beside_or_of_domestic _ rfl) fun _ => ?_)
    hh hproxy hagreed
  exact within_relayPeer beside_or_of_domestic
    (fun _ he => .inr (conversesOn_of_converses he hsock)) false

/-- **Sending a file** goes through the proxy. -/
theorem throughProxy_wcatSendFile (hudp : cfg.udp = false) :
    Always Legal (Throughout (ThroughProxy cfg) []) (wcatSendFile cfg) (fun _ _ => True) [] := by
  have hd := besideTarget_of_domestic
  have hclose : ∀ fd, Within BesideTarget (wcatCloseQuiet fd) fun _ => True := fun fd =>
    within_wcatCloseQuiet (hd _ rfl)
  refine always_bind'.mpr ((always_beside (within_sys (hd _ rfl)) .refl fun _ => id).mono
    (fun _ => id) fun r h hh _ => ?_)
  rcases r with err | n
  · exact always_beside (Q := fun _ => True) (Within.step (hd _ rfl) fun _ => trivial) hh fun _ => id
  rcases hproxy : wcatProxyParse cfg.proxyUrl with _ | proxy
  · simp only
    exact always_beside (Q := fun _ => True) (Within.step (hd _ rfl) fun _ =>
      (hclose _).next fun _ => trivial) hh fun _ => id
  simp only [sendOpenFile, sendSocket, hudp, Bool.false_eq_true, if_false]
  refine always_bind'.mpr ((agreed_wcatProxyConnect hproxy (type_ne_none hurl hne hproxy) hh).mono
    (fun _ => id) fun r h hh hr => ?_)
  rcases r with _ | sock
  · exact always_beside (Q := fun _ => True) (Within.step (hd _ rfl) fun _ =>
      (hclose _).next fun _ => trivial) hh fun _ => id
  obtain ⟨hsock, hagreed⟩ := hr sock rfl
  refine always_agreed (Q := fun _ => True) ?_ hh hproxy hagreed
  refine (within_peer_networkStream beside_or_of_domestic
    (fun _ he => .inr (conversesOn_of_converses he hsock)) .dst false).bind' fun r hr => ?_
  rcases r with _ | dst
  · exact (within_wcatCloseQuiet (beside_or_of_domestic _ rfl)).next fun _ => trivial
  obtain ⟨hin, hcloseDst⟩ := hr dst rfl
  have hdo : ∀ e, Domestic e = true → BesideTarget e ∨ conversesOn e = some sock :=
    beside_or_of_domestic
  exact (within_wcatCopyStream (still_of_domestic hdo) (hdo _ rfl) (streamIn_file hdo _ n) hin _).next
    fun _ => hcloseDst.next fun _ => (within_wcatCloseQuiet (hdo _ rfl)).next fun _ => trivial

end

/-- **A proxy is not gone round**: in every run of connecting or of sending a file over TCP, with
a proxy on the command line. -/
theorem wcatMain_throughProxy {argv : List Bytes} {cfg : Config} {url : Bytes} {h : Hist}
    {o : Option ℕ} (hp : wcatParseArgs argv = .ok cfg) (hurl : cfg.proxyUrl = some url)
    (hne : url ≠ []) (hmode : cfg.mode = .connect ∨ cfg.mode = .send) (hudp : cfg.udp = false)
    (hr : Runs Legal (wcatMain argv) [] h o) : Throughout (ThroughProxy cfg) [] h := by
  have hacc := wcatParseArgs_accepted hp
  have hsome : cfg.proxyUrl ≠ none := by simp [hurl]
  have hquic : ¬cfg.quic = true := fun hon => hsome (hacc.quic_proxy hon)
  have hother : ¬(cfg.sctp = true ∨ cfg.unixSocket = true ∨ cfg.vsock = true) := fun hon =>
    hsome (hacc.transport_proxy hon)
  rw [wcatMain, hp] at hr
  simp only [dispatch] at hr
  rcases hmode with hmode | hmode
  · simp only [hmode, if_neg hquic] at hr
    exact (throughProxy_runConnect hurl hne hudp hother).safe hr
  · simp only [hmode] at hr
    exact (throughProxy_wcatSendFile hurl hne hudp).safe hr

/-- A command line with an HTTP proxy. -/
def proxyArgs : List Bytes := ["wcat", "connect", "--proxy", "http://p:1", "h", "2"].map lit

/-- What it is read as. -/
def proxyConfig : Config :=
  { mode := .connect, host := some (lit "h"), port := some (lit "2")
    proxyUrl := some (lit "http://p:1") }

theorem wcatParseArgs_proxyArgs : wcatParseArgs proxyArgs = .ok proxyConfig := by decide +kernel

/-- An environment in which the proxy agrees, byte by byte, and the target ends at once. -/
def agreeingProxy (_ : Hist) : (e : Sys) → Resp e
  | .stop => false
  | .getaddrinfo _ _ _ _ _ => some 1
  | .socket _ => .ok 3
  | .connect _ _ | .close _ => none
  | .write _ _ buf => .all buf
  | .read .handshake _ _ off len =>
      if h : 1 ≤ len then
        .data [(lit "HTTP/1.1 200 OK\r\n\r\n").getD off 0] (by simp) (by simpa using h)
      else .eof
  | .poll fds _ => .reporting fds (fds.map fun p => { pollin := p.fd = some (.sock .tcp 3) })
  | e => refuse e

/-- The run against it. -/
def proxyRun : Hist × Option ℕ := exec (lawful agreeingProxy) 100 (wcatMain proxyArgs) []

theorem wcatMain_throughProxy_proxyRun : Throughout (ThroughProxy proxyConfig) [] proxyRun.1 :=
  wcatMain_throughProxy wcatParseArgs_proxyArgs rfl (by decide) (.inl rfl) rfl
    (exec_runs (legal_lawful agreeingProxy) 100 _ [])

/-- The target is read from in it. -/
example : (proxyRun.1.any fun ev => conversesOn ev.1 = some (.sock .tcp 3)) = true := by
  decide +kernel

end Wirecat
