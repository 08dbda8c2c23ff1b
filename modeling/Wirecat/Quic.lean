import Wirecat.Process
import Wirecat.Tls

/-!
# QUIC streams

`src/quic.c`, compiled against an OpenSSL that has QUIC. A QUIC connection is a
`Wirecat.TlsStream` over a UDP socket; reading and writing are those of
`Wirecat.wcatTlsRead` and `Wirecat.wcatTlsWrite`.

A stream that fails before it has a descriptor has nothing to close: the record
`wcat_tls_close` is given there was cleared by `memset`.
-/

namespace Wirecat

open CString Interaction

/-! ### The client -/

/-- `configure_client_ctx`. -/
def configureClientCtx (cfg : Config) : Proc Bool := do
  match ← configureVerify cfg.tlsVerify cfg.caFile with
  | some message => do
      logOpensslError "quic_ca" message
      pure false
  | none =>
      match ← clientCertificate cfg.clientCertFile cfg.clientKeyFile with
      | none => pure false
      | some false => do
          logOpensslError "quic_client_certificate"
            "failed to load QUIC client certificate or key"
          pure false
      | some true => pure true

/-- `set_alpn`. -/
def setAlpn (alpn : Bytes) : Proc Bool := do
  if alpn.length = 0 ∨ 255 < alpn.length then do
    sys (.setErrno .einval)
    pure false
  else sys (.ssl (.setAlpnProtos (alpn.length.toUInt8 :: alpn)))

/-- `open_udp_peer`. Once a socket is connected the loop ends, also when the address
cannot be copied. -/
def openUdpPeer (cfg : Config) : Proc (Option Fd) := do
  match ← sys (.getaddrinfo cfg.hostArg cfg.portArg cfg.family .udp false) with
  | none => do
      logOpensslError "quic_resolve" "QUIC target resolution failed"
      pure none
  | some n => do
      let fd ← Prog.loop (fun k => do
        if k < n then
          match ← sys (.socket .udp) with
          | .error _ => pure (.inl (k + 1))
          | .ok m => do
              let fd := Fd.sock .udp m
              let err ← sys (.connect fd (.inet cfg.hostArg cfg.portArg k))
              let nbio ← (if err.isNone then sys (.setNonblock fd true) else pure false)
              if !nbio then do
                closeFd fd
                pure (.inl (k + 1))
              else if !(← sys (.ssl .bioAddrDup)) then do
                closeFd fd
                pure (.inr none)
              else pure (.inr (some fd))
        else pure (.inr none)) 0
      let _ ← (if fd.isNone then
          sys (.logErrno "quic_connect" (lit "failed to open QUIC UDP peer socket"))
        else pure ())
      pure fd

/-- `wcat_quic_client_open`. -/
def wcatQuicClientOpen (cfg : Config) : Proc (Option TlsStream) := do
  let ctx ← sys (.ssl (.ctxNew false true))
  let configured ← (if ctx then configureClientCtx cfg else pure false)
  if !configured then do
    logOpensslError "quic_context" "QUIC client context creation failed"
    pure none
  else
    match ← openUdpPeer cfg with
    | none => pure none
    | some fd =>
        let s : TlsStream := ⟨fd, false, true, false⟩
        if !(← sys (.ssl .new)) then
          failOpen s (logOpensslError "quic_session" "QUIC client session creation failed")
        else if !(← sys (.ssl .bioNew)) then
          failOpen s (logOpensslError "quic_setup" "failed to attach QUIC socket")
        else do
          let _ ← sys (.ssl (.setTlsextHostName cfg.serverName))
          let hostOk ← (if cfg.tlsVerify then sys (.ssl (.set1Host cfg.serverName)) else pure true)
          if !hostOk then
            failOpen s (logOpensslError "quic_verify" "failed to configure hostname verification")
          else do
            let alpnOk ← setAlpn cfg.alpn
            let peerOk ← (if alpnOk then sys (.ssl .set1InitialPeerAddr) else pure false)
            if !peerOk then
              failOpen s (logOpensslError "quic_setup" "failed to configure QUIC session")
            else if !(← sys (.sslConnect fd)) then
              failOpen s (logOpensslError "quic_handshake" "QUIC client handshake failed")
            else do
              let verified ← (if cfg.tlsVerify then sys (.ssl .verifyResultOk) else pure true)
              if !verified then
                failOpen s (sys (.log .error "quic_verify"
                  "QUIC certificate verification failed: %s" []))
              else if !(← sys (.ssl .setBlockingMode)) then
                failOpen s (logOpensslError "quic_setup"
                  "failed to configure QUIC nonblocking mode")
              else pure (some { s with ssl := true, quicStream := true })

/-! ### The server -/

/-- `configure_server_ctx`. -/
def configureServerCtx (cfg : Config) : Proc Bool := do
  match cfg.certFile, cfg.keyFile with
  | some cert, some key =>
      if !(← useCertificate cert key) then do
        logOpensslError "quic_certificate" "failed to load QUIC certificate or key"
        pure false
      else
        match ← configureClientVerify cfg.caFile cfg.tlsRequireClientCert with
        | none => pure false
        | some false => do
            logOpensslError "quic_ca" "failed to load client certificate CA file"
            pure false
        | some true => do
            let _ ← (if cfg.tlsRequireClientCert then pure true
              else sys (.ssl (.setVerify false false)))
            let _ ← sys (.ssl (.setAlpnSelect cfg.alpn))
            pure true
  | _, _ => do
      sys (.setErrno .einval)
      pure false

/-- `wcat_quic_listener`: its socket. -/
structure QuicListener where
  fd : Fd

/-- `wcat_quic_listener_close`, of a listener that has a socket. -/
def wcatQuicListenerClose (listener : QuicListener) : Proc Unit := wcatCloseQuiet listener.fd

/-- `wcat_quic_listener_open`. -/
def wcatQuicListenerOpen (cfg : Config) : Proc (Option QuicListener) := do
  let ctx ← sys (.ssl (.ctxNew true true))
  let configured ← (if ctx then configureServerCtx cfg else pure false)
  if !configured then do
    logOpensslError "quic_context" "QUIC server context creation failed"
    pure none
  else
    match ← wcatUdpBind cfg.hostArg cfg.portArg cfg.family with
    | none => do
        sys (.logErrno "quic_bind" (lit "QUIC UDP bind failed"))
        pure none
    | some fd =>
        let listener : QuicListener := ⟨fd⟩
        if !(← sys (.setNonblock fd true)) then do
          sys (.logErrno "quic_socket" (lit "failed to configure QUIC UDP socket nonblocking"))
          wcatQuicListenerClose listener
          pure none
        else do
          let created ← sys (.ssl .newListener)
          let nonblocking ← (if created then sys (.ssl .setBlockingMode) else pure false)
          let listening ← (if nonblocking then sys (.ssl .listen) else pure false)
          if !listening then do
            logOpensslError "quic_listen" "failed to start QUIC listener"
            wcatQuicListenerClose listener
            pure none
          else pure (some listener)

/-- `quic_event_timeout_ms`: the time to the next QUIC event, at most `fallbackMs`. -/
def quicEventTimeoutMs (fd : Fd) (fallbackMs : ℕ) : Proc ℕ := do
  match ← sys (.sslEventTimeout fd) with
  | none => pure fallbackMs
  | some ms => pure (min ms fallbackMs)

/-- `wait_for_quic_activity`: whether the poll succeeded. -/
def waitForQuicActivity (fd : Fd) (fallbackMs : ℕ) : Proc Bool := do
  let (pollin, pollout) ← sys (.sslNetDesired fd)
  let timeout ← quicEventTimeoutMs fd fallbackMs
  Prog.loop (fun _ => do
    match ← sys (.poll [{ fd := some fd, pollin, pollout }] timeout) with
    | .error .eintr => pure (.inl ())
    | .error _ => pure (.inr false)
    | _ => pure (.inr true)) ()

/-- `wcat_quic_accept`. -/
def wcatQuicAccept (listener : QuicListener) : Proc (Option TlsStream) := do
  let accepted ← Prog.loop (fun _ => do
    if ← sys .stop then do
      sys (.setErrno .eintr)
      pure (.inr false)
    else if !(← sys (.sslHandleEvents listener.fd)) then do
      logOpensslError "quic_accept" "QUIC listener event handling failed"
      pure (.inr false)
    else if ← sys (.sslAcceptConnection listener.fd) then pure (.inr true)
    else if ← waitForQuicActivity listener.fd 250 then pure (.inl ())
    else do
      sys (.logErrno "quic_accept" (lit "QUIC accept poll failed"))
      pure (.inr false)) ()
  if !accepted then pure none
  else if !(← sys (.ssl .setBlockingMode)) then do
    logOpensslError "quic_accept" "failed to configure QUIC nonblocking mode"
    pure none
  else pure (some ⟨listener.fd, true, false, true⟩)

end Wirecat
