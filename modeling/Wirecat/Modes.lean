import Wirecat.Footprint
import Wirecat.Main

/-!
# The footprints of the modes

What the functions of `Wirecat.Main` can ask for. A mode does three kinds of things. It works
on this side of the network – with the standard streams, with a child, with files – and that
is the same everywhere (`Wirecat.Domestic`). It converses with a peer, over TLS if that was
asked for and in the clear otherwise (`Wirecat.Converses`). And it gets hold of a peer: it
connects to one, or accepts one.

The last is where the modes differ. A socket is of the transport the options select
(`Wirecat.connectTransport`, `Wirecat.listenerTransport`), or of the one an endpoint of a relay names
(`Wirecat.endpointTransport`), and the lemmas about `connect` say who is connected to
(`Wirecat.Dials`). Accepting in a loop is left out here; what is served to a peer that was accepted
is not.
-/

namespace Wirecat

open CString Interaction

/-! ### On this side of the network -/

/-- **The requests on this side of the network**: whatever is quiet, and reading and writing
what is no socket. Descriptors of any kind may be closed, and the stop flag looked at. -/
def Domestic : Sys → Bool
  | .stop | .close _ => true
  | .read _ fd _ _ _ | .write _ fd _ => !fd.isSocket
  | e => Quiet e

theorem domestic_of_quiet (e : Sys) (he : Quiet e = true) : Domestic e = true := by
  cases e <;> first | rfl | exact absurd he Bool.false_ne_true

/-- The requests of a TLS session on `fd`. -/
def SslOn (fd : Fd) : Sys → Prop
  | .sslConnect f | .sslAccept f | .sslRead _ f _ | .sslWrite _ f _ | .sslStreamConclude f
  | .sslShutdown f => f = fd
  | _ => False

/-- The requests of a TLS session on `fd` that was opened. -/
def SslTalk (fd : Fd) : Sys → Prop
  | .sslRead _ f _ | .sslWrite _ f _ | .sslStreamConclude f | .sslShutdown f => f = fd
  | _ => False

theorem sslOn_of_sslTalk {fd : Fd} {e : Sys} (he : SslTalk fd e) : SslOn fd e := by
  cases e <;> first | exact he | exact he.elim

/-- The requests of a stream over the bare descriptor `fd`. -/
def PlainOn (fd : Fd) : Sys → Prop
  | .read (.stream _) f _ _ _ | .write (.stream _) f _ => f = fd
  | _ => False

/-- **Conversing with a peer** on `fd`: over TLS when that was asked for. -/
def Converses (cfg : Config) (fd : Fd) (e : Sys) : Prop :=
  if cfg.tls = true then SslOn fd e else PlainOn fd e

section Modes

variable {F : Sys → Prop} (hd : ∀ e, Domestic e = true → F e) {cfg : Config} {fd : Fd}

include hd

theorem quiet_of_domestic (e : Sys) (he : Quiet e = true) : F e := hd e (domestic_of_quiet e he)

theorem still_of_domestic (e : Sys) (he : Still e = true) : F e :=
  still_of_quiet (quiet_of_domestic hd) e he

theorem streamIn_stdioStream : StreamIn F stdioStream := by
  refine ⟨fun len => hd _ rfl, ?_⟩
  rintro _ ⟨⟩
  exact ⟨fun buf => hd _ rfl, fun _ => hd _ rfl⟩

theorem streamIn_file (o : Obj) (n : ℕ) : StreamIn F (wcatStreamFromFd o (.file n)) := by
  refine ⟨fun len => hd _ rfl, ?_⟩
  rintro _ ⟨⟩
  exact ⟨fun buf => hd _ rfl, fun _ => hd _ rfl⟩

theorem domestic_child {fd : Fd} (hfd : fd.isChild = true) (via : Via) :
    (∀ cap off len, F (.read via fd cap off len)) ∧ ∀ buf, F (.write via fd buf) := by
  have hsock : fd.isSocket = false := by
    cases fd <;> first | rfl | exact absurd hfd Bool.false_ne_true
  exact ⟨fun _ _ _ => hd _ (by simp [Domestic, hsock]), fun _ => hd _ (by simp [Domestic, hsock])⟩

theorem streamIn_child {o : Obj} {readFd writeFd : Fd} (hread : readFd.isChild = true)
    (hwrite : writeFd.isChild = true) : StreamIn F (wcatStreamFromFdPair o readFd writeFd) := by
  refine ⟨fun len => (domestic_child hd hread _).1 _ _ _, ?_⟩
  rintro _ ⟨⟩
  exact ⟨(domestic_child hd hwrite _).2, fun _ => hd _ rfl⟩

theorem within_spawnExec (cfg : Config) : Within F (spawnExec cfg)
    fun r => ∀ proc ∈ r, proc.inFd.isChild = true ∧ proc.outFd.isChild = true := by
  refine (within_wcatProcessSpawn (quiet_of_domestic hd) (fun _ => hd _ rfl) _ _).bind' fun r hr => ?_
  rcases r with _ | proc
  · exact Within.step (hd _ rfl) fun _ _ h => absurd h (by simp)
  · exact hr

theorem within_processFinish (proc : ProcessHandle) :
    Within F (processFinish proc) fun _ => True :=
  (within_wcatProcessClose (hd _ rfl) (hd _ rfl)).next fun _ =>
    within_wcatProcessWait (still_of_domestic hd) proc

/-! ### A peer -/

/-- A stream with a peer, and its close. -/
def PeerIn (F : Sys → Prop) (net : Stream) : Prop :=
  StreamIn F net ∧ Within F (closeNetwork net) fun _ => True

omit hd in
theorem plainOn_stream {o : Obj} (hnet : ∀ e, PlainOn fd e → F e) (hc : F (.close fd)) :
    StreamIn F (wcatStreamFromFd o fd) := by
  refine ⟨fun len => hnet _ rfl, ?_⟩
  rintro _ ⟨⟩
  exact ⟨fun buf => hnet _ rfl, fun _ => hc⟩

omit hd in
theorem sslTalk_stream {o : Obj} {t : TlsStream} (hnet : ∀ e, SslTalk t.fd e → F e) :
    StreamIn F (wcatStreamFromTls o t) :=
  ⟨fun _ => hnet _ rfl, fun _ => hnet _ rfl, hnet _ rfl, hnet _ rfl⟩

/-- The stream that is opened over a descriptor is a conversation on it. -/
theorem within_peer_networkStream (hnet : ∀ e, Converses cfg fd e → F e) (obj : Obj)
    (serverSide : Bool) :
    Within F (networkStream cfg obj fd serverSide) fun r => ∀ net ∈ r, PeerIn F net := by
  have hssl : cfg.tls = true → ∀ e, SslOn fd e → F e := fun htls e he =>
    hnet e (by rwa [Converses, if_pos htls])
  refine (within_networkStream (still_of_domestic hd) (fun htls => hssl htls _ rfl)
    (fun htls => hssl htls _ rfl) (fun htls => hssl htls _ rfl) (hd _ rfl) obj serverSide).post_mono ?_
  rintro _ hnets net ⟨⟩
  refine ⟨?_, within_closeNetwork hnets (fun htls => hssl htls _ rfl) (hd _ rfl)⟩
  have hon := hnets net rfl
  split_ifs at hon with htls
  · obtain ⟨t, rfl, rfl⟩ := hon
    exact sslTalk_stream fun e he => hssl htls e (sslOn_of_sslTalk he)
  · rw [hon]
    exact plainOn_stream (fun e he => hnet e (by rwa [Converses, if_neg htls])) (hd _ rfl)

theorem within_peerStream (hnet : ∀ e, Converses cfg fd e → F e) (serverSide : Bool) :
    Within F (peerStream cfg fd serverSide) fun r => ∀ net ∈ r, PeerIn F net := by
  refine (within_peer_networkStream hd hnet .net serverSide).bind' fun r hr => ?_
  refine within_pure.mpr ?_
  split_ifs with hsctp
  swap
  · exact hr
  intro net hmem
  obtain ⟨net', -, rfl⟩ := Option.mem_map.mp hmem
  have htls : ¬cfg.tls = true := by simpa using (Bool.and_eq_true_iff.mp hsctp).1
  have hplain : ∀ e, PlainOn fd e → F e := fun e he => hnet e (by rwa [Converses, if_neg htls])
  refine ⟨⟨fun len => hplain _ rfl, ?_⟩, within_wcatCloseQuiet (hd _ rfl)⟩
  rintro _ ⟨⟩
  exact ⟨fun buf => hplain _ rfl, fun hne => absurd rfl hne⟩

theorem within_relayPeerToStdio (hnet : ∀ e, Converses cfg fd e → F e) (serverSide : Bool) :
    Within F (relayPeerToStdio cfg fd serverSide) fun _ => True := by
  refine (within_peerStream hd hnet serverSide).bind' fun r hr => ?_
  rcases r with _ | net
  · trivial
  obtain ⟨hin, hclose⟩ := hr net rfl
  exact (within_wcatRelayBidirectional (still_of_domestic hd) (hd _ rfl) hin
    (streamIn_stdioStream hd) _).next fun _ => hclose.next fun _ => trivial

theorem within_relayPeerToProcess (hnet : ∀ e, Converses cfg fd e → F e) (serverSide : Bool) :
    Within F (relayPeerToProcess cfg fd serverSide) fun _ => True := by
  refine (within_spawnExec hd cfg).bind' fun r hr => ?_
  rcases r with _ | proc
  · trivial
  obtain ⟨hin, hout⟩ := hr proc rfl
  refine (within_peerStream hd hnet serverSide).bind' fun r hr => ?_
  rcases r with _ | net
  · exact (within_processFinish hd proc).next fun _ => trivial
  obtain ⟨hstream, hclose⟩ := hr net rfl
  refine (within_wcatRelayBidirectional (still_of_domestic hd) (hd _ rfl) (a := { net with closeOnEof := false })
    hstream (streamIn_child hd hout hin) _).next fun _ => ?_
  exact (within_processFinish hd proc).next fun _ => hclose.next fun _ => trivial

/-- **Serving a peer** is work on this side, and a conversation on its descriptor. -/
theorem within_relayPeer (hnet : ∀ e, Converses cfg fd e → F e) (serverSide : Bool) :
    Within F (relayPeer cfg fd serverSide) fun _ => True :=
  Within.ite (fun _ => within_relayPeerToProcess hd hnet serverSide)
    fun _ => within_relayPeerToStdio hd hnet serverSide

/-! ### Connecting -/

/-- The transport of the socket `connect` opens, over QUIC apart. -/
def connectTransport (cfg : Config) : Transport :=
  if cfg.udp then .udp
  else if cfg.unixSocket then .unix
  else if cfg.vsock then .vsock
  else if cfg.sctp then .sctp
  else .tcp

/-- Who `connect` dials, on a socket of transport `t`: the target, or the proxy if there is
one. -/
def Dials (cfg : Config) : Transport → Addr → Prop
  | .udp, addr => cfg.udp = true ∧ ∃ k, addr = .inet cfg.hostArg cfg.portArg k
  | .unix, addr => cfg.unixSocket = true ∧ addr = .unix cfg.hostArg
  | .vsock, addr => cfg.vsock = true ∧ ∃ cid port, addr = .vsock cid port
  | .sctp, addr => cfg.sctp = true ∧ ∃ k, addr = .inet cfg.hostArg cfg.portArg k
  | .tcp, addr => ∃ proxy k, wcatProxyParse cfg.proxyUrl = some proxy ∧
      addr = .inet (proxy.dialed cfg.hostArg cfg.portArg).1
        (proxy.dialed cfg.hostArg cfg.portArg).2 k

theorem within_connectSocket (hsock : F (.socket (connectTransport cfg)))
    (hdial : ∀ t m addr, Dials cfg t addr → F (.connect (.sock t m) addr))
    (hread : ∀ m cap off len, F (.read .handshake (.sock .tcp m) cap off len))
    (hwrite : ∀ m buf, F (.write .handshake (.sock .tcp m) buf)) :
    Within F (connectSocket cfg) (SockOf (connectTransport cfg)) := by
  have hq := quiet_of_domestic hd
  rw [connectTransport] at hsock ⊢
  rw [connectSocket]
  split_ifs at hsock ⊢ with hudp hunix hvsock hsctp
  · exact within_wcatUdpConnect hq hsock (fun m k => hdial _ _ _ ⟨hudp, k, rfl⟩) (fun _ => hd _ rfl) _
  · exact within_wcatUnixConnect hq hsock (fun m => hdial _ _ _ ⟨hunix, rfl⟩) (fun _ => hd _ rfl) _
  · exact within_wcatVsockConnect hq hsock (fun m c p => hdial _ _ _ ⟨hvsock, c, p, rfl⟩)
      (fun _ => hd _ rfl) _
  · exact within_inetConnect hq hsock (fun m k => hdial _ _ _ ⟨hsctp, k, rfl⟩) (fun _ => hd _ rfl) _ _
  · rcases hproxy : wcatProxyParse cfg.proxyUrl with _ | proxy
    · exact Within.step (hd _ rfl) fun _ => Within.step (hd _ rfl) fun _ => sockOf_none
    · exact within_wcatProxyConnect hq hsock (fun m k => hdial _ _ _ ⟨proxy, k, hproxy, rfl⟩)
        (fun _ => hd _ rfl) hread hwrite _ _

/-- **Connecting and serving the peer.** -/
theorem within_runConnect (hsock : F (.socket (connectTransport cfg)))
    (hdial : ∀ t m addr, Dials cfg t addr → F (.connect (.sock t m) addr))
    (hread : ∀ m cap off len, F (.read .handshake (.sock .tcp m) cap off len))
    (hwrite : ∀ m buf, F (.write .handshake (.sock .tcp m) buf))
    (hnet : ∀ t m e, Converses cfg (.sock t m) e → F e) :
    Within F (runConnect cfg) fun _ => True := by
  refine (within_connectSocket hd hsock hdial hread hwrite).bind' fun r hr => ?_
  rcases r with _ | fd
  · exact Within.step (hd _ rfl) fun _ => trivial
  · obtain ⟨m, rfl⟩ := hr fd rfl
    exact Within.step (hd _ rfl) fun _ => within_relayPeer hd (hnet _ m) false

/-! ### QUIC -/

theorem within_serveQuicStream {quic : TlsStream} (hnet : ∀ e, SslTalk quic.fd e → F e) :
    Within F (serveQuicStream cfg quic) fun _ => True := by
  have hin : StreamIn F (wcatStreamFromTls .net quic) := sslTalk_stream hnet
  have hq := still_of_domestic hd
  refine Within.next (Within.ite (fun _ => ?_) fun _ => ?_) fun status =>
    (within_wcatTlsClose (hnet _ rfl) (hd _ rfl)).next fun _ => trivial
  · refine (within_spawnExec hd cfg).bind' fun r hr => ?_
    rcases r with _ | proc
    · trivial
    obtain ⟨hinFd, houtFd⟩ := hr proc rfl
    refine (within_wcatRelayBidirectional hq (hd _ rfl)
      (a := { wcatStreamFromTls .net quic with closeOnEof := false }) hin
      (streamIn_child hd houtFd hinFd) _).next fun _ => ?_
    exact (within_processFinish hd proc).next fun _ => trivial
  · exact (within_wcatRelayBidirectional hq (hd _ rfl) hin (streamIn_stdioStream hd) _).next
      fun _ => trivial

theorem within_runQuicConnect (hsock : F (.socket .udp))
    (hdial : ∀ m k, F (.connect (.sock .udp m) (.inet cfg.hostArg cfg.portArg k)))
    (hnet : ∀ m e, SslOn (.sock .udp m) e → F e) :
    Within F (runQuicConnect cfg) fun _ => True := by
  refine (within_wcatQuicClientOpen (quiet_of_domestic hd) hsock hdial (fun m => hnet m _ rfl)
    (fun m => hnet m _ rfl) fun _ => hd _ rfl).bind' fun r hr => ?_
  rcases r with _ | quic
  · trivial
  obtain ⟨m, hfd⟩ := hr quic rfl
  exact Within.step (hd _ rfl) fun _ => within_serveQuicStream hd fun e he =>
    hnet m e (sslOn_of_sslTalk (hfd ▸ he))

theorem within_runQuicListen (hsock : F (.socket .udp)) (hnet : ∀ m e, SslOn (.sock .udp m) e → F e) :
    Within F (runQuicListen cfg) fun _ => True := by
  have hclose : ∀ listener : QuicListener, Within F (wcatQuicListenerClose listener) fun _ => True :=
    fun listener => within_wcatCloseQuiet (hd _ rfl)
  refine (within_wcatQuicListenerOpen (quiet_of_domestic hd) hsock fun _ => hd _ rfl).bind' fun r hr => ?_
  rcases r with _ | listener
  · trivial
  obtain ⟨m, hfd⟩ := hr listener rfl
  refine Within.step (hd _ rfl) fun _ =>
    (within_wcatQuicAccept (still_of_domestic hd) (hd _ rfl) listener).bind' fun r hr => ?_
  rcases r with _ | quic
  · exact (hclose listener).next fun _ => Within.step (hd _ rfl) fun _ => trivial
  · have hquic : quic.fd = .sock .udp m := (hr quic rfl).1.trans hfd
    exact Within.step (hd _ rfl) fun _ => (within_serveQuicStream hd fun e he =>
      hnet m e (sslOn_of_sslTalk (hquic ▸ he))).next fun _ => (hclose listener).next fun _ => trivial

/-! ### Files -/

theorem within_sendOpenFile {proxy : Proxy} (hsock : F (.socket (sendTransport cfg)))
    (hdial : ∀ m k, F (.connect (.sock (sendTransport cfg) m)
      (.inet (sendPeer cfg proxy).1 (sendPeer cfg proxy).2 k)))
    (hread : ∀ m cap off len, F (.read .handshake (.sock .tcp m) cap off len))
    (hwrite : ∀ m buf, F (.write .handshake (.sock .tcp m) buf))
    (hnet : ∀ t m e, Converses cfg (.sock t m) e → F e) (n : ℕ) :
    Within F (sendOpenFile cfg proxy (.file n)) fun _ => True := by
  have hclose : Within F (wcatCloseQuiet (.file n)) fun _ => True := within_wcatCloseQuiet (hd _ rfl)
  refine (within_sendSocket (quiet_of_domestic hd) hsock hdial (fun _ => hd _ rfl) hread hwrite).bind'
    fun r hr => ?_
  rcases r with _ | sock
  · exact Within.step (hd _ rfl) fun _ => hclose.next fun _ => trivial
  obtain ⟨m, rfl⟩ := hr sock rfl
  refine (within_peer_networkStream hd (hnet _ m) .dst false).bind' fun r hr => ?_
  rcases r with _ | dst
  · exact hclose.next fun _ => trivial
  obtain ⟨hin, hcloseDst⟩ := hr dst rfl
  exact (within_wcatCopyStream (still_of_domestic hd) (hd _ rfl) (streamIn_file hd _ n) hin _).next
    fun _ => hcloseDst.next fun _ => hclose.next fun _ => trivial

/-- **Sending a file.** -/
theorem within_wcatSendFile (hsock : F (.socket (sendTransport cfg)))
    (hdial : ∀ proxy, wcatProxyParse cfg.proxyUrl = some proxy → ∀ m k,
      F (.connect (.sock (sendTransport cfg) m) (.inet (sendPeer cfg proxy).1 (sendPeer cfg proxy).2 k)))
    (hread : ∀ m cap off len, F (.read .handshake (.sock .tcp m) cap off len))
    (hwrite : ∀ m buf, F (.write .handshake (.sock .tcp m) buf))
    (hnet : ∀ t m e, Converses cfg (.sock t m) e → F e) :
    Within F (wcatSendFile cfg) fun _ => True := by
  refine Within.step (hd _ rfl) fun r => ?_
  rcases r with err | n
  · exact Within.step (hd _ rfl) fun _ => trivial
  rcases hproxy : wcatProxyParse cfg.proxyUrl with _ | proxy
  · simp only
    exact Within.step (hd _ rfl) fun _ => (within_wcatCloseQuiet (hd _ rfl)).next fun _ => trivial
  · simp only
    exact within_sendOpenFile hd hsock (hdial proxy hproxy) hread hwrite hnet n

/-- The copy of a transfer, from a source that is open. -/
theorem within_recvStream {src : Stream} (hsrc : PeerIn F src) (listener : Fd) (n : ℕ) :
    Within F (recvStream cfg src listener (.file n)) fun _ => True := by
  refine (within_wcatCopyStream (still_of_domestic hd) (hd _ rfl) hsrc.1 (streamIn_file hd _ n) _).next
    fun _ => Within.next (Within.ite (fun _ => hsrc.2) fun _ => trivial) fun _ => ?_
  exact (within_wcatCloseQuiet (hd _ rfl)).next fun _ => (within_wcatCloseQuiet (hd _ rfl)).next
    fun _ => trivial

/-! ### Listening -/

/-- The transport of the listener of a mode that accepts connections. -/
def listenerTransport (cfg : Config) : Transport :=
  if cfg.unixSocket then .unix
  else if cfg.vsock then .vsock
  else if cfg.sctp then .sctp
  else .tcp

theorem within_openListener (hsock : F (.socket (listenerTransport cfg))) :
    Within F (openListener cfg) (SockOf (listenerTransport cfg)) := by
  have hq := quiet_of_domestic hd
  rw [listenerTransport] at hsock ⊢
  rw [openListener]
  split_ifs at hsock ⊢
  · exact within_wcatUnixListen hq hsock (fun _ => hd _ rfl) _ _
  · exact within_wcatVsockListen hq hsock (fun _ => hd _ rfl) _ _ _
  · exact within_inetListen hq hsock (fun _ => hd _ rfl) _ _ _ _
  · exact within_inetListen hq hsock (fun _ => hd _ rfl) _ _ _ _

/-! ### Relays and proxies -/

/-- An endpoint that waits for a peer. -/
def Listens (spec : Bytes) : Bool := (lit "listen:").isPrefixOf spec || (lit "unix-listen:").isPrefixOf spec

/-- The transport of the socket that is opened for an endpoint, if there is one. -/
def endpointTransport (spec : Bytes) : Option Transport :=
  if spec = lit "-" ∨ spec = lit "stdio" then none
  else if (lit "tcp:").isPrefixOf spec then (splitSpecHostPort (spec.drop 4)).map fun _ => .tcp
  else if (lit "unix:").isPrefixOf spec then
    if sunPathSize ≤ (spec.drop 5).length then none else some .unix
  else if (lit "listen:").isPrefixOf spec then (splitSpecHostPort (spec.drop 7)).map fun _ => .tcp
  else if (lit "unix-listen:").isPrefixOf spec then
    if sunPathSize ≤ (spec.drop 12).length then none else some .unix
  else none

/-- Whether an endpoint can be read, and so be opened. -/
def readsEndpoint (spec : Bytes) : Bool :=
  if spec = lit "-" ∨ spec = lit "stdio" then true
  else if (lit "tcp:").isPrefixOf spec then (splitSpecHostPort (spec.drop 4)).isSome
  else if (lit "unix:").isPrefixOf spec then (spec.drop 5).length < sunPathSize
  else if (lit "listen:").isPrefixOf spec then (splitSpecHostPort (spec.drop 7)).isSome
  else if (lit "unix-listen:").isPrefixOf spec then (spec.drop 12).length < sunPathSize
  else (lit "file:").isPrefixOf spec || (lit "exec:").isPrefixOf spec || (lit "pty:").isPrefixOf spec

/-- What opening an endpoint leaves; it is `readable` when it is opened. -/
private def EndpointIn (F : Sys → Prop) (readable : Bool) (r : Except ℕ Stream × RelayEndpoint) : Prop :=
  ∀ s, r.1 = .ok s → StreamIn F s ∧ readable = true

omit hd in
private theorem within_endpointError {readable : Bool} {p : Proc Unit}
    {r : Except ℕ Stream × RelayEndpoint} {status : ℕ} (hr : r.1 = .error status)
    (hp : Within F p fun _ => True) : Within F (p >>= fun _ => pure r) (EndpointIn F readable) := by
  refine hp.next fun _ s hs => ?_
  rw [hr] at hs
  cases hs

/-- Nothing could be opened. -/
private theorem within_notOpened {readable : Bool} {p : Proc (Option Fd)} (hp : Within F p (· = none))
    (obj : Obj) (event kind : String) (context : Bytes) :
    Within F (p >>= openedEndpoint obj event context) (EndpointIn F readable) ∧
      Within F (p >>= acceptEndpoint obj kind) (EndpointIn F readable) := by
  constructor <;> refine hp.bind' ?_ <;> rintro _ rfl <;>
    exact within_endpointError rfl (within_sys (hd _ rfl))

private theorem within_openedEndpoint {readable : Bool} (hread : readable = true)
    (hnet : ∀ t m e, PlainOn (.sock t m) e → F e) (obj : Obj) {event : String} {context : Bytes}
    {t : Transport} {p : Proc (Option Fd)} (hp : Within F p (SockOf t)) :
    Within F (p >>= openedEndpoint obj event context) (EndpointIn F readable) := by
  refine hp.bind' fun r hr => ?_
  rcases r with _ | fd
  · exact within_endpointError rfl (within_sys (hd _ rfl))
  · obtain ⟨m, rfl⟩ := hr fd rfl
    rintro _ ⟨⟩
    exact ⟨plainOn_stream (hnet t m) (hd _ rfl), hread⟩

private theorem within_acceptEndpoint {readable : Bool} (hread : readable = true) (obj : Obj)
    (kind : String) {t : Transport} {p : Proc (Option Fd)} (hp : Within F p (SockOf t))
    (hguest : ∀ m, F (.accept (.sock t m)) ∧ ∀ n e, PlainOn (.conn t n) e → F e) :
    Within F (p >>= acceptEndpoint obj kind) (EndpointIn F readable) := by
  refine hp.bind' fun r hr => ?_
  rcases r with _ | listener
  · exact within_endpointError rfl (within_sys (hd _ rfl))
  obtain ⟨m, rfl⟩ := hr listener rfl
  refine (within_acceptWhenReady (still_of_domestic hd) (hd _ rfl) (hguest m).1 _).bind' fun r hr => ?_
  rcases r with _ | peer
  · exact within_endpointError rfl (within_sys (hd _ rfl))
  obtain ⟨n, hfd⟩ := hr peer rfl
  refine (within_wcatCloseQuiet (hd _ rfl)).next fun _ => ?_
  rintro _ ⟨⟩
  rw [hfd]
  exact ⟨plainOn_stream ((hguest m).2 n) (hd _ rfl), hread⟩

private theorem within_execEndpoint {readable : Bool} (hread : readable = true) (obj : Obj)
    (path : Bytes) (usePty : Bool) : Within F (execEndpoint obj path usePty) (EndpointIn F readable) := by
  refine (within_wcatProcessSpawn (quiet_of_domestic hd) (fun _ => hd _ rfl) _ _).bind' fun r hr => ?_
  rcases r with _ | proc
  · exact within_endpointError rfl (within_sys (hd _ rfl))
  · rintro _ ⟨⟩
    exact ⟨streamIn_child hd (hr proc rfl).2 (hr proc rfl).1, hread⟩

/-- An endpoint, and who is accepted if it waits for a peer. -/
theorem within_openRelayEndpoint {spec : Bytes} (hsock : ∀ t ∈ endpointTransport spec, F (.socket t))
    (hconn : ∀ t m addr, F (.connect (.sock t m) addr))
    (hnet : ∀ t m e, PlainOn (.sock t m) e → F e)
    (hguest : Listens spec = true →
      ∀ t m, F (.accept (.sock t m)) ∧ ∀ n e, PlainOn (.conn t n) e → F e) (obj : Obj) :
    Within F (openRelayEndpoint cfg obj spec) (EndpointIn F (readsEndpoint spec)) := by
  have hq := quiet_of_domestic hd
  have hlongPath : ∀ {n : ℕ}, ¬sunPathSize ≤ n → decide (n < sunPathSize) = true := fun h =>
    decide_eq_true (Nat.not_le.mp h)
  rw [endpointTransport] at hsock
  rw [openRelayEndpoint, readsEndpoint]
  split_ifs at hsock ⊢ with hstdio htcp hunix hlong hl hul hlong hfile hexec hpty
  case pos =>
    rintro _ ⟨⟩
    refine ⟨⟨fun len => hd _ rfl, ?_⟩, rfl⟩
    rintro _ ⟨⟩
    exact ⟨fun buf => hd _ rfl, fun _ => hd _ rfl⟩
  · rcases hsplit : splitSpecHostPort (spec.drop 4) with _ | ⟨host, port⟩
    · exact within_endpointError rfl (within_sys (hd _ rfl))
    · exact within_openedEndpoint hd rfl hnet obj (within_inetConnect hq (hsock _ (by simp [hsplit]))
        (fun m k => hconn _ _ _) (fun _ => hd _ rfl) _ _)
  · refine (within_notOpened hd ?_ obj _ "" _).1
    rw [wcatUnixConnect, if_pos hlong]
    exact Within.step (hd _ rfl) fun _ => within_pure.mpr rfl
  · exact within_openedEndpoint hd (hlongPath hlong) hnet obj
      (within_wcatUnixConnect hq (hsock _ rfl) (fun m => hconn _ _ _) (fun _ => hd _ rfl) _)
  · rcases hsplit : splitSpecHostPort (spec.drop 7) with _ | ⟨host, port⟩
    · exact within_endpointError rfl (within_sys (hd _ rfl))
    · exact within_acceptEndpoint hd rfl obj _ (within_inetListen hq (hsock _ (by simp [hsplit]))
        (fun _ => hd _ rfl) _ _ _ _) (hguest (by simp [Listens, hl]) _)
  · refine (within_notOpened hd ?_ obj "" _ []).2
    rw [wcatUnixListen, if_pos hlong]
    exact Within.step (hd _ rfl) fun _ => within_pure.mpr rfl
  · exact within_acceptEndpoint hd (hlongPath hlong) obj _
      (within_wcatUnixListen hq (hsock _ rfl) (fun _ => hd _ rfl) _ _)
      (hguest (by simp [Listens, hul]) _)
  · refine Within.step (hd _ rfl) fun r => ?_
    rcases r with err | n
    · exact within_endpointError rfl (within_sys (hd _ rfl))
    · rintro _ ⟨⟩
      exact ⟨streamIn_file hd obj n, by simp [hfile]⟩
  · exact within_execEndpoint hd (by simp [hexec]) obj _ _
  · exact within_execEndpoint hd (by simp [hpty]) obj _ _
  · exact within_endpointError rfl (within_sys (hd _ rfl))

theorem within_relayEndpointClose (ep : RelayEndpoint) :
    Within F (relayEndpointClose ep) fun _ => True := by
  have hclose : ∀ fd, Within F (wcatCloseQuiet? fd) fun _ => True := by
    rintro (_ | fd)
    · trivial
    · exact within_wcatCloseQuiet (hd _ rfl)
  rw [relayEndpointClose]
  rcases ep.proc with _ | proc
  · exact (hclose _).next fun _ => Within.ite (fun _ => hclose _) fun _ => trivial
  · exact (within_wcatProcessClose (hd _ rfl) (hd _ rfl)).next fun _ =>
      within_wcatProcessWait (still_of_domestic hd) proc

/-- **A relay.** The second endpoint is opened when the first could be read. -/
theorem within_runRelay (hleft : ∀ t ∈ endpointTransport (cfg.left.getD []), F (.socket t))
    (hright : readsEndpoint (cfg.left.getD []) = true →
      ∀ t ∈ endpointTransport (cfg.right.getD []), F (.socket t))
    (hconn : ∀ t m addr, F (.connect (.sock t m) addr))
    (hnet : ∀ t m e, PlainOn (.sock t m) e → F e)
    (hguest : ∀ spec ∈ [cfg.left.getD [], cfg.right.getD []], Listens spec = true →
      ∀ t m, F (.accept (.sock t m)) ∧ ∀ n e, PlainOn (.conn t n) e → F e) :
    Within F (runRelay cfg) fun _ => True := by
  refine (within_openRelayEndpoint hd hleft hconn hnet (hguest _ List.mem_cons_self) .left).bind' ?_
  rintro ⟨left, leftEp⟩ hinLeft
  rcases left with status | left
  · exact (within_relayEndpointClose hd _).next fun _ => trivial
  refine (within_openRelayEndpoint hd (hright (hinLeft _ rfl).2) hconn hnet
    (hguest _ (List.mem_cons_of_mem _ List.mem_cons_self)) .right).bind' ?_
  rintro ⟨right, rightEp⟩ hinRight
  rcases right with status | right
  · exact (within_relayEndpointClose hd _).next fun _ =>
      (within_relayEndpointClose hd _).next fun _ => trivial
  have hin : ∀ {c : Prop} [Decidable c] {s : Stream}, StreamIn F s →
      StreamIn F (if c then { s with closeOnEof := false } else s) := by
    intro c _ s hs
    split_ifs
    · exact hs
    · exact hs
  exact (within_wcatRelayBidirectional (still_of_domestic hd) (hd _ rfl) (hin (hinLeft _ rfl).1)
    (hin (hinRight _ rfl).1) _).next fun _ => (within_relayEndpointClose hd _).next fun _ =>
      (within_relayEndpointClose hd _).next fun _ => trivial

/-- **Serving the client of a proxy**, that is connected to whom it names. -/
theorem within_serveProxyClient {client : Fd}
    (hread : ∀ cap off len, F (.read .server client cap off len))
    (hwrite : ∀ buf, F (.write .server client buf)) (hclient : ∀ e, PlainOn client e → F e)
    (hsock : F (.socket .tcp))
    (hconn : ∀ m host port k, F (.connect (.sock .tcp m) (.inet host port k)))
    (hnet : ∀ m e, PlainOn (.sock .tcp m) e → F e) :
    Within F (serveProxyClient cfg client) fun _ => True := by
  have hanswer : ∀ status text, Within F (writeProxyResponse client status text) fun _ => True := by
    intro status text
    refine Within.ite (fun _ => Within.step (hd _ rfl) fun _ => trivial) fun _ => ?_
    exact (within_wcatFullWrite hwrite _).next fun _ => trivial
  refine Within.next (Within.loop (fun _ => True) trivial fun buf _ => Within.ite (fun _ => ?_)
    fun _ => Within.step (hd _ rfl) fun _ => trivial) fun header => ?_
  · refine Within.step (hread _ _ _) fun r => ?_
    rcases r with _ | _ | err
    · exact Within.ite (fun _ => trivial) fun _ => trivial
    · trivial
    · cases err <;> trivial
  rcases header.bind fun buf => parseConnectRequest (ofBuffer buf) 256 32 with _ | ⟨host, port⟩
  · exact (hanswer _ _).next fun _ => trivial
  refine (within_inetConnect (quiet_of_domestic hd) hsock (fun m k => hconn m host port k)
    (fun _ => hd _ rfl) _ _).bind' fun r hr => ?_
  rcases r with _ | upstream
  · exact (hanswer _ _).next fun _ => Within.step (hd _ rfl) fun _ => trivial
  obtain ⟨m, rfl⟩ := hr upstream rfl
  have hclose : Within F (wcatCloseQuiet (.sock .tcp m)) fun _ => True :=
    within_wcatCloseQuiet (hd _ rfl)
  have hupstream : StreamIn F (wcatStreamFromFd .upstreamStream (.sock .tcp m)) :=
    plainOn_stream (hnet m) (hd _ rfl)
  have hstream : StreamIn F { wcatStreamFromFd .clientStream client with closeOnEof := false } :=
    plainOn_stream (o := .clientStream) hclient (hd _ rfl)
  refine (hanswer _ _).next fun ok => Within.ite (fun _ => hclose.next fun _ => trivial) fun _ =>
    Within.step (hd _ rfl) fun _ => ?_
  exact (within_wcatRelayBidirectional (still_of_domestic hd) (hd _ rfl) hstream hupstream _).next
    fun _ => hclose.next fun _ => trivial

end Modes

end Wirecat
