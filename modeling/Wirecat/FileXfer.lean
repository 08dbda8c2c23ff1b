import Wirecat.Proxy

/-!
# File transfer

`src/filexfer.c`: a file is copied to a connection, or a connection to a file. What
a transfer adds to `Wirecat.wcatCopyStream` is opening and closing its two ends, and
turning a failure into an exit status.

Both ends of a session are opened the same way wherever the source does it: over TLS
when it was asked for, and over the bare descriptor otherwise
(`Wirecat.networkStream`).
-/

namespace Wirecat

open CString Interaction

/-! ### The network stream of a session -/

/-- The stream over a connected descriptor, in the variable `obj`: a TLS session as a
server or as a client when `cfg->tls` is set, the descriptor itself otherwise. -/
def networkStream (cfg : Config) (obj : Obj) (fd : Fd) (serverSide : Bool) :
    Proc (Option Stream) := do
  if cfg.tls then do
    let session ← (if serverSide then
        wcatTlsServerOpen fd cfg.certFile cfg.keyFile cfg.caFile cfg.tlsRequireClientCert
      else wcatTlsClientOpen fd cfg.serverName cfg.tlsVerify cfg.caFile cfg.clientCertFile
        cfg.clientKeyFile)
    pure (session.map (wcatStreamFromTls obj))
  else pure (some (wcatStreamFromFd obj fd))

/-- The close of such a stream: `wcat_tls_close` or `wcat_close_quiet`. -/
def closeNetwork (net : Stream) : Proc Unit :=
  match net.io with
  | .tls t => wcatTlsClose t
  | .fd rawFd _ _ => wcatCloseQuiet rawFd

/-! ### Sending -/

/-- The connection a file is sent over; a proxy has no part in UDP. -/
def sendSocket (cfg : Config) (proxy : Proxy) : Proc (Option Fd) :=
  if cfg.udp then wcatUdpConnect cfg.hostArg cfg.portArg cfg.family
  else wcatProxyConnect proxy cfg.hostArg cfg.portArg cfg.family cfg.timeoutMs

/-- `wcat_send_file` with the file open. -/
def sendOpenFile (cfg : Config) (proxy : Proxy) (file : Fd) : Proc ℕ := do
  match ← sendSocket cfg proxy with
  | none => do
      sys (.logErrno "connect" (lit "connect failed"))
      wcatCloseQuiet file
      pure 1
  | some sock =>
      match ← networkStream cfg .dst sock false with
      | none => do
          wcatCloseQuiet file
          pure 1
      | some dst => do
          let ok ← wcatCopyStream (wcatStreamFromFd .src file) dst cfg.relayOptions
          closeNetwork dst
          wcatCloseQuiet file
          pure (if ok then 0 else 1)

/-- `wcat_send_file`: the exit status. -/
def wcatSendFile (cfg : Config) : Proc ℕ := do
  match ← sys (.openFile cfg.fileArg .rdonly) with
  | .error _ => do
      sys (.logErrno "file_open" cfg.fileArg)
      pure 1
  | .ok n =>
      match wcatProxyParse cfg.proxyUrl with
      | none => do
          sys (.log .error "proxy_parse" "invalid proxy URL" [])
          wcatCloseQuiet (.file n)
          pure 2
      | some proxy => sendOpenFile cfg proxy (.file n)

/-! ### Receiving -/

/-- The copy of a transfer from a source that is open, and the closes after it; the
source of a UDP transfer is the listener, which is closed last. -/
def recvStream (cfg : Config) (src : Stream) (listener file : Fd) : Proc ℕ := do
  let ok ← wcatCopyStream src (wcatStreamFromFd .dst file) cfg.relayOptions
  let _ ← (if !cfg.udp then closeNetwork src else pure ())
  wcatCloseQuiet listener
  wcatCloseQuiet file
  pure (if ok then 0 else 1)

/-- `wcat_recv_file` over a connection: one client is accepted and checked. -/
def recvClient (cfg : Config) (listener file : Fd) : Proc ℕ := do
  match ← acceptWhenReady listener (some (128, 32)) with
  | none => do
      wcatCloseQuiet listener
      wcatCloseQuiet file
      pure 1
  | some peer =>
      if !(← wcatAccessCheckFd cfg peer.fd) then do
        wcatCloseQuiet peer.fd
        wcatCloseQuiet listener
        wcatCloseQuiet file
        pure 1
      else do
        sys (.log .info "accept" "accepted %s:%s" [.str peer.host, .str peer.port])
        match ← networkStream cfg .src peer.fd true with
        | none => do
            wcatCloseQuiet listener
            wcatCloseQuiet file
            pure 1
        | some src => recvStream cfg src listener file

/-- `wcat_recv_file`: the exit status. -/
def wcatRecvFile (cfg : Config) : Proc ℕ := do
  match ← sys (.openFile cfg.fileArg .truncate) with
  | .error _ => do
      sys (.logErrno "file_open" cfg.fileArg)
      pure 1
  | .ok n =>
      let listening := if cfg.udp then wcatUdpBind cfg.hostArg cfg.portArg cfg.family
        else wcatTcpListen cfg.hostArg cfg.portArg cfg.family 16
      match ← listening with
      | none => do
          sys (.logErrno "listen" (lit "listen failed"))
          wcatCloseQuiet (.file n)
          pure 1
      | some listener =>
          if cfg.udp then recvStream cfg (wcatStreamFromFd .src listener) listener (.file n)
          else recvClient cfg listener (.file n)

end Wirecat
