import Wirecat.Socketx

/-!
# TLS streams

`src/tls.c`, and `src/quic.c` as it is compiled against an OpenSSL that has QUIC.
OpenSSL itself is on the other side of the system interface: its calls are
requests, and what it does with the socket below is its own business. What is
modelled is the order of the calls, what each failure closes, and how the outcomes
of `SSL_read` and `SSL_write` are folded into the return codes of a stream.

The folding loses information, and this file does not restore it: a read that fails
for good and the peer's orderly end of the stream are both the end of file to the
caller of `Wirecat.wcatTlsRead`.
-/

namespace Wirecat

open CString Interaction

/-- `wcat_tls_stream`: the descriptor, whether there is a session on it (`s->ssl`),
whether closing the stream closes the descriptor, and whether the stream is QUIC.
No function sets `parent_ssl`, so the session is also the one whose events are
handled. -/
structure TlsStream where
  fd : Fd
  ssl : Bool
  ownsFd : Bool
  quicStream : Bool
  deriving DecidableEq

/-- `stream_init`. -/
def streamInit (fd : Fd) : TlsStream := ⟨fd, false, true, false⟩

/-- `log_openssl_error`. -/
def logOpensslError (event message : String) : Proc Unit :=
  sys (.log .error event "%s: %s" [.str (lit message)])

/-- `quic_handle_events`. -/
def quicHandleEvents (s : TlsStream) : Proc Unit := do
  if s.quicStream ∧ s.ssl then do
    let _ ← sys (.sslHandleEvents s.fd)
    pure ()
  else pure ()

/-- `wcat_tls_close`. -/
def wcatTlsClose (s : TlsStream) : Proc Unit := do
  let _ ← (if s.ssl then sys (.sslShutdown s.fd) else pure none)
  if s.ownsFd then wcatCloseQuiet s.fd else pure ()

/-! ### Opening -/

/-- What every failing branch of the open functions does. -/
def failOpen (s : TlsStream) (report : Proc Unit) : Proc (Option TlsStream) := do
  report
  wcatTlsClose s
  pure none

/-- Load a certificate and its key, and check that they belong together. -/
def useCertificate (cert key : Bytes) : Proc Bool := do
  if ← sys (.ssl (.useCertificateFile cert)) then
    if ← sys (.ssl (.usePrivateKeyFile key)) then sys (.ssl .checkPrivateKey) else pure false
  else pure false

/-- The verification settings of a client: the result is the error to report. -/
def configureVerify (verifyPeer : Bool) (caFile : Option Bytes) : Proc (Option String) := do
  let _ ← sys (.ssl (.setVerify verifyPeer false))
  if verifyPeer then
    match caFile with
    | some file =>
        if ← sys (.ssl (.loadVerifyLocations file)) then pure none
        else pure (some "failed to load CA file")
    | none =>
        if ← sys (.ssl .setDefaultVerifyPaths) then pure none
        else pure (some "failed to load default CA paths")
  else pure none

/-- The client certificate, when one is configured: `none` when it is incomplete,
otherwise whether it could be loaded. -/
def clientCertificate (clientCert clientKey : Option Bytes) : Proc (Option Bool) := do
  match clientCert, clientKey with
  | none, none => pure (some true)
  | some cert, some key => some <$> useCertificate cert key
  | _, _ => do
      sys (.setErrno .einval)
      pure none

/-- `wcat_tls_client_open`. -/
def wcatTlsClientOpen (fd : Fd) (servername : Bytes) (verifyPeer : Bool)
    (caFile clientCert clientKey : Option Bytes) : Proc (Option TlsStream) := do
  let s := streamInit fd
  if !(← sys (.ssl (.ctxNew false false))) then
    failOpen s (logOpensslError "tls_context" "TLS client context creation failed")
  else
    match ← configureVerify verifyPeer caFile with
    | some message => failOpen s (logOpensslError "tls_ca" message)
    | none =>
        match ← clientCertificate clientCert clientKey with
        | none => failOpen s (pure ())
        | some false => failOpen s (logOpensslError "tls_client_certificate"
            "failed to load TLS client certificate or key")
        | some true =>
            if !(← sys (.ssl .new)) then
              failOpen s (logOpensslError "tls_session" "TLS client session creation failed")
            else do
              let s := { s with ssl := true }
              let _ ← sys (.ssl (.setTlsextHostName servername))
              let hostOk ← (if verifyPeer then sys (.ssl (.set1Host servername)) else pure true)
              if !hostOk then
                failOpen s (logOpensslError "tls_verify" "failed to configure hostname verification")
              else if !(← sys (.sslConnect fd)) then
                failOpen s (logOpensslError "tls_handshake" "TLS client handshake failed")
              else
                let verified ← (if verifyPeer then sys (.ssl .verifyResultOk) else pure true)
                if !verified then
                  failOpen s (sys (.log .error "tls_verify"
                    "TLS certificate verification failed: %s" []))
                else do
                  let _ ← sys (.setNonblock fd true)
                  pure (some s)

/-- The verification of client certificates by a server: `none` when no CA file is
configured, otherwise whether it could be loaded. -/
def configureClientVerify (caFile : Option Bytes) (requireClientCert : Bool) :
    Proc (Option Bool) := do
  if requireClientCert then
    match caFile with
    | none => do
        sys (.setErrno .einval)
        pure none
    | some file =>
        if ← sys (.ssl (.loadVerifyLocations file)) then do
          let _ ← sys (.ssl (.setVerify true true))
          pure (some true)
        else pure (some false)
  else pure (some true)

/-- `wcat_tls_server_open`. -/
def wcatTlsServerOpen (fd : Fd) (cert key caFile : Option Bytes) (requireClientCert : Bool) :
    Proc (Option TlsStream) := do
  let s := streamInit fd
  match cert, key with
  | some cert, some key =>
      if !(← sys (.ssl (.ctxNew true false))) then
        failOpen s (logOpensslError "tls_context" "TLS server context creation failed")
      else if !(← useCertificate cert key) then
        failOpen s (logOpensslError "tls_certificate" "failed to load TLS certificate or key")
      else
        match ← configureClientVerify caFile requireClientCert with
        | none => failOpen s (pure ())
        | some false =>
            failOpen s (logOpensslError "tls_ca" "failed to load client certificate CA file")
        | some true =>
            if !(← sys (.ssl .new)) then
              failOpen s (logOpensslError "tls_session" "TLS server session creation failed")
            else
              let s := { s with ssl := true }
              if !(← sys (.sslAccept fd)) then
                failOpen s (logOpensslError "tls_handshake" "TLS server handshake failed")
              else
                let verified ← (if requireClientCert then sys (.ssl .verifyResultOk) else pure true)
                if !verified then
                  failOpen s (sys (.log .error "tls_verify"
                    "TLS client certificate verification failed: %s" []))
                else do
                  let _ ← sys (.setNonblock fd true)
                  pure (some s)
  | _, _ => failOpen s (sys (.setErrno .einval))

/-! ### Reading and writing -/

/-- `wcat_tls_read`, on behalf of the stream object `o`. -/
def wcatTlsRead (o : Obj) (s : TlsStream) (len : ℕ) : Proc (ReadRes len) := do
  quicHandleEvents s
  match ← sys (.sslRead o s.fd len) with
  | .data bytes pos le => pure (.data bytes pos le)
  | .error e =>
      if e = .wantRead ∨ e = .wantWrite then do
        quicHandleEvents s
        pure (.error .eagain)
      else pure .eof

/-- Wait until the descriptor is ready, again while the wait is interrupted: whether
it is. -/
def waitReady (fd : Fd) (pollin : Bool) (timeout : ℤ) : Proc (Except Errno Bool) :=
  Prog.loop (fun _ => do
    match ← sys (.poll [{ fd := some fd, pollin := pollin, pollout := !pollin }] timeout) with
    | .error .eintr => pure (.inl ())
    | .error e => pure (.inr (.error e))
    | .timeout => pure (.inr (.ok false))
    | .ready _ _ _ _ => pure (.inr (.ok true))) ()

/-- `wcat_tls_write`: the number of bytes accepted, or `none` for `-1`. -/
def wcatTlsWrite (o : Obj) (s : TlsStream) (buf : Bytes) : Proc (Option ℕ) :=
  Prog.loop (fun off => do
    if off < buf.length then do
      quicHandleEvents s
      match ← sys (.sslWrite o s.fd (buf.drop off)) with
      | .wrote n _ _ => do
          quicHandleEvents s
          pure (.inl (off + n))
      | .error e =>
          if e = .wantRead ∨ e = .wantWrite then do
            quicHandleEvents s
            match ← waitReady s.fd (e = .wantRead) (-1) with
            | .ok true => pure (.inl off)
            | _ => pure (.inr none)
          else pure (.inr none)
    else do
      quicHandleEvents s
      pure (.inr (some off))) 0

/-- `wcat_tls_pending`. -/
def wcatTlsPending (s : TlsStream) : Proc ℕ := do
  quicHandleEvents s
  sys (.sslPending s.fd)

/-- `wcat_tls_tick`: whether it succeeded. -/
def wcatTlsTick (s : TlsStream) : Proc Bool := do
  if s.quicStream ∧ s.ssl then sys (.sslHandleEvents s.fd) else pure true

/-- `wcat_tls_shutdown_write`; no caller looks at the result. -/
def wcatTlsShutdownWrite (s : TlsStream) : Proc Unit := do
  if !s.ssl then pure ()
  else if s.quicStream then
    Prog.loop (fun _ => do
      if ← sys .stop then pure (.inr ())
      else do
        quicHandleEvents s
        match ← sys (.sslStreamConclude s.fd) with
        | none => pure (.inr ())
        | some e =>
            if e = .wantRead ∨ e = .wantWrite then
              match ← waitReady s.fd (e = .wantRead) 100 with
              | .error _ => pure (.inr ())
              | .ok _ => pure (.inl ())
            else pure (.inr ())) ()
  else do
    let _ ← sys (.sslShutdown s.fd)
    pure ()

end Wirecat
