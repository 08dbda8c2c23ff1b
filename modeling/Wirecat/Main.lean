import Wirecat.Broker
import Wirecat.Cli
import Wirecat.FileXfer
import Wirecat.Multi
import Wirecat.Process
import Wirecat.Quic

/-!
# The modes

The rest of `src/main.c`: what `main` runs for each mode. `connect` and `listen` relay
between a peer and the standard streams or a child process, `relay` relays between any
two endpoints, and the other modes have their own modules.

An endpoint of `relay` is a text with a prefix that says what it is; opening one leaves
its descriptors in a record, whatever came of it, and the caller closes them
(`Wirecat.relayEndpointClose`).
-/

namespace Wirecat

open CString Interaction

/-! ### Relay endpoints -/

/-- `relay_endpoint`, of which the stream is returned where it is opened. -/
structure RelayEndpoint where
  proc : Option ProcessHandle := none
  fd1 : Option Fd := none
  fd2 : Option Fd := none

/-- `relay_endpoint_close`. -/
def relayEndpointClose (ep : RelayEndpoint) : Proc Unit := do
  match ep.proc with
  | some proc => do
      wcatProcessClose proc
      wcatProcessWait proc
  | none => do
      wcatCloseQuiet? ep.fd1
      if ep.fd2 ≠ ep.fd1 then wcatCloseQuiet? ep.fd2 else pure ()

/-- `split_spec_host_port`, with the part of the text after its prefix. -/
def splitSpecHostPort (rest : Bytes) : Option (Bytes × Bytes) := splitHostPort rest 256 32

/-- What `open_relay_endpoint` does with a descriptor that was opened, or not. -/
def openedEndpoint (obj : Obj) (event : String) (context : Bytes) (fd : Option Fd) :
    Proc (Except ℕ Stream × RelayEndpoint) := do
  match fd with
  | none => do
      sys (.logErrno event context)
      pure (.error 1, {})
  | some fd => pure (.ok (wcatStreamFromFd obj fd), { fd1 := some fd })

/-- What `open_relay_endpoint` does with a listener that was opened, or not: one connection
is accepted, and takes its place. -/
def acceptEndpoint (obj : Obj) (kind : String) (listener : Option Fd) :
    Proc (Except ℕ Stream × RelayEndpoint) := do
  match listener with
  | none => do
      sys (.logErrno "relay_listen" (lit kind ++ lit " relay listen failed"))
      pure (.error 1, {})
  | some listener =>
      match ← acceptWhenReady listener none with
      | none => do
          sys (.logErrno "relay_accept" (lit kind ++ lit " relay accept failed"))
          pure (.error 1, { fd1 := some listener })
      | some peer => do
          wcatCloseQuiet listener
          pure (.ok (wcatStreamFromFd obj peer.fd), { fd1 := some peer.fd })

/-- A child process as an endpoint. -/
def execEndpoint (obj : Obj) (path : Bytes) (usePty : Bool) :
    Proc (Except ℕ Stream × RelayEndpoint) := do
  match ← wcatProcessSpawn path usePty with
  | none => do
      sys (.logErrno "relay_exec" path)
      pure (.error 1, {})
  | some proc =>
      pure (.ok (wcatStreamFromFdPair obj proc.outFd proc.inFd), { proc := some proc })

/-- An endpoint that cannot be read. -/
def badEndpoint (fmt : String) (args : List LogArg) : Proc (Except ℕ Stream × RelayEndpoint) := do
  sys (.log .error "relay_spec" fmt args)
  pure (.error 2, {})

/-- `open_relay_endpoint`, for the stream in the variable `obj`: the stream, or the status it
returned. -/
def openRelayEndpoint (cfg : Config) (obj : Obj) (spec : Bytes) :
    Proc (Except ℕ Stream × RelayEndpoint) := do
  if spec = lit "-" ∨ spec = lit "stdio" then
    pure (.ok (wcatStreamFromFdPair obj .stdin .stdout), {})
  else if (lit "tcp:").isPrefixOf spec then
    match splitSpecHostPort (spec.drop 4) with
    | none => badEndpoint "invalid tcp relay spec" []
    | some (host, port) => do
        let fd ← wcatTcpConnect host port cfg.family cfg.timeoutMs
        openedEndpoint obj "relay_connect" (lit "tcp relay connect failed") fd
  else if (lit "unix:").isPrefixOf spec then do
    let fd ← wcatUnixConnect (spec.drop 5) cfg.timeoutMs
    openedEndpoint obj "relay_connect" (lit "unix relay connect failed") fd
  else if (lit "listen:").isPrefixOf spec then
    match splitSpecHostPort (spec.drop 7) with
    | none => badEndpoint "invalid listen relay spec" []
    | some (host, port) => do
        let listener ← wcatTcpListen host port cfg.family 16
        acceptEndpoint obj "tcp" listener
  else if (lit "unix-listen:").isPrefixOf spec then do
    let listener ← wcatUnixListen (spec.drop 12) 16
    acceptEndpoint obj "unix" listener
  else if (lit "file:").isPrefixOf spec then do
    let opened ← sys (.openFile (spec.drop 5) .rdwr)
    openedEndpoint obj "relay_file" (spec.drop 5) (opened.toOption.map .file)
  else if (lit "exec:").isPrefixOf spec then execEndpoint obj (spec.drop 5) false
  else if (lit "pty:").isPrefixOf spec then execEndpoint obj (spec.drop 4) true
  else badEndpoint ("unknown relay spec '%s' (use -, tcp:host:port, listen:host:port, unix:path, " ++
    "unix-listen:path, file:path, exec:path, pty:path)") [.str spec]

/-- The relay of two endpoints that are open. With a child on one side, the end of the other
side is passed on to it and does not end the relay. -/
def relayEndpoints (cfg : Config) (left right : Stream) (leftEp rightEp : RelayEndpoint) :
    Proc ℕ := do
  let right := if leftEp.proc.isSome ∧ rightEp.proc.isNone then
    { right with closeOnEof := false } else right
  let left := if rightEp.proc.isSome ∧ leftEp.proc.isNone then
    { left with closeOnEof := false } else left
  let ok ← wcatRelayBidirectional left right cfg.relayOptions
  relayEndpointClose leftEp
  relayEndpointClose rightEp
  pure (if ok then 0 else 1)

/-- `run_relay`: the exit status. -/
def runRelay (cfg : Config) : Proc ℕ := do
  let (left, leftEp) ← openRelayEndpoint cfg .left (cfg.left.getD [])
  match left with
  | .error status => do
      relayEndpointClose leftEp
      pure status
  | .ok left => do
      let (right, rightEp) ← openRelayEndpoint cfg .right (cfg.right.getD [])
      match right with
      | .error status => do
          relayEndpointClose leftEp
          relayEndpointClose rightEp
          pure status
      | .ok right => relayEndpoints cfg left right leftEp rightEp

/-! ### A peer and the standard streams, or a child -/

/-- The standard streams. -/
def stdioStream : Stream := wcatStreamFromFdPair .stdioStream .stdin .stdout

/-- The streams of a child. -/
def procStream (proc : ProcessHandle) : Stream :=
  wcatStreamFromFdPair .procStream proc.outFd proc.inFd

/-- `relay_stream_to_stdio`: the exit status. -/
def relayStreamToStdio (cfg : Config) (net : Stream) : Proc ℕ := do
  let ok ← wcatRelayBidirectional net stdioStream cfg.relayOptions
  pure (if ok then 0 else 1)

/-- What is left to do with a child after its relay. -/
def processFinish (proc : ProcessHandle) : Proc Unit := do
  wcatProcessClose proc
  wcatProcessWait proc

/-- `wcat_process_spawn`, of `cfg->exec_path`, with the error it logs. -/
def spawnExec (cfg : Config) : Proc (Option ProcessHandle) := do
  match ← wcatProcessSpawn (cfg.execPath.getD []) cfg.pty with
  | none => do
      sys (.logErrno "process_spawn" (cfg.execPath.getD []))
      pure none
  | some proc => pure (some proc)

/-- `relay_stream_to_process`: the exit status. -/
def relayStreamToProcess (cfg : Config) (net : Stream) : Proc ℕ := do
  match ← spawnExec cfg with
  | none => pure 1
  | some proc => do
      let ok ← wcatRelayBidirectional { net with closeOnEof := false } (procStream proc)
        cfg.relayOptions
      processFinish proc
      pure (if ok then 0 else 1)

/-- The stream over a connected descriptor; SCTP has no half-close. -/
def peerStream (cfg : Config) (fd : Fd) (serverSide : Bool) : Proc (Option Stream) := do
  let net ← networkStream cfg .net fd serverSide
  pure (if !cfg.tls && cfg.sctp then net.map fun net => { net with io := .fd fd (some fd) false }
    else net)

/-- `relay_peer_to_stdio`: the exit status. -/
def relayPeerToStdio (cfg : Config) (fd : Fd) (serverSide : Bool) : Proc ℕ := do
  match ← peerStream cfg fd serverSide with
  | none => pure 1
  | some net => do
      let ok ← wcatRelayBidirectional net stdioStream cfg.relayOptions
      closeNetwork net
      pure (if ok then 0 else 1)

/-- `relay_peer_to_process`: the exit status. -/
def relayPeerToProcess (cfg : Config) (fd : Fd) (serverSide : Bool) : Proc ℕ := do
  match ← spawnExec cfg with
  | none => pure 1
  | some proc =>
      match ← peerStream cfg fd serverSide with
      | none => do
          processFinish proc
          pure 1
      | some net => do
          let ok ← wcatRelayBidirectional { net with closeOnEof := false } (procStream proc)
            cfg.relayOptions
          processFinish proc
          closeNetwork net
          pure (if ok then 0 else 1)

/-- `serve_client`, and the end of `run_connect`: the exit status. -/
def relayPeer (cfg : Config) (fd : Fd) (serverSide : Bool) : Proc ℕ :=
  if cfg.execPath.isSome then relayPeerToProcess cfg fd serverSide
  else relayPeerToStdio cfg fd serverSide

/-! ### Connecting -/

/-- `connect_socket`. -/
def connectSocket (cfg : Config) : Proc (Option Fd) := do
  if cfg.udp then wcatUdpConnect cfg.hostArg cfg.portArg cfg.family
  else if cfg.unixSocket then wcatUnixConnect cfg.hostArg cfg.timeoutMs
  else if cfg.vsock then wcatVsockConnect cfg.hostArg cfg.portArg cfg.timeoutMs
  else if cfg.sctp then wcatSctpConnect cfg.hostArg cfg.portArg cfg.family cfg.timeoutMs
  else
    match wcatProxyParse cfg.proxyUrl with
    | none => do
        sys (.log .error "proxy_parse" "invalid proxy URL" [])
        sys (.setErrno .einval)
        pure none
    | some proxy => wcatProxyConnect proxy cfg.hostArg cfg.portArg cfg.family cfg.timeoutMs

/-- `run_connect`: the exit status. -/
def runConnect (cfg : Config) : Proc ℕ := do
  match ← connectSocket cfg with
  | none => do
      sys (.logErrno "connect" (lit "connect failed"))
      pure 1
  | some fd => do
      sys (.log .info "connect" "connected to %s:%s" [.str cfg.hostArg, .str cfg.portArg])
      relayPeer cfg fd false

/-- `serve_quic_stream`: the exit status. -/
def serveQuicStream (cfg : Config) (quic : TlsStream) : Proc ℕ := do
  let net := wcatStreamFromTls .net quic
  let status ← (if cfg.execPath.isSome then relayStreamToProcess cfg net
    else relayStreamToStdio cfg net)
  wcatTlsClose quic
  pure status

/-- `run_quic_connect`: the exit status. -/
def runQuicConnect (cfg : Config) : Proc ℕ := do
  match ← wcatQuicClientOpen cfg with
  | none => pure 1
  | some quic => do
      sys (.log .info "connect" "connected to %s:%s over QUIC" [.str cfg.hostArg, .str cfg.portArg])
      serveQuicStream cfg quic

/-! ### Listening -/

/-- `run_quic_listen`: the exit status. -/
def runQuicListen (cfg : Config) : Proc ℕ := do
  match ← wcatQuicListenerOpen cfg with
  | none => pure 1
  | some listener => do
      sys (.log .info "listen" "QUIC listening on %s:%s" [.str cfg.hostArg, .str cfg.portArg])
      match ← wcatQuicAccept listener with
      | none => do
          wcatQuicListenerClose listener
          let stop ← sys .stop
          pure (if stop then 0 else 1)
      | some quic => do
          sys (.log .info "accept" "accepted QUIC peer" [])
          let status ← serveQuicStream cfg quic
          wcatQuicListenerClose listener
          pure status

/-- The condition of the loop of `run_listen`: another client is waited for when the listener
is to be kept open and no stop was asked for. -/
def listenAgain (cfg : Config) (status : ℕ) : Proc (ℕ ⊕ ℕ) := do
  if cfg.keepOpen then
    if ← sys .stop then pure (.inr status) else pure (.inl status)
  else pure (.inr status)

/-- One round of the loop of `run_listen`. -/
def listenRound (cfg : Config) (listener : Fd) (status : ℕ) : Proc (ℕ ⊕ ℕ) := do
  match ← acceptWhenReady listener (some (128, 32)) with
  | none =>
      if ← sys .stop then pure (.inr status)
      else do
        sys (.logErrno "accept" (lit "accept failed"))
        pure (.inr 1)
  | some peer =>
      if !(← wcatAccessCheckFd cfg peer.fd) then do
        wcatCloseQuiet peer.fd
        listenAgain cfg status
      else do
        sys (.log .info "accept" "accepted %s:%s" [.str peer.host, .str peer.port])
        let status ← relayPeer cfg peer.fd true
        listenAgain cfg status

/-- `run_listen`: the exit status. -/
def runListen (cfg : Config) : Proc ℕ := do
  if cfg.multi then runMultiListen cfg
  else if cfg.udp then
    match ← wcatUdpBind cfg.hostArg cfg.portArg cfg.family with
    | none => do
        sys (.logErrno "listen" (lit "UDP bind failed"))
        pure 1
    | some listener => relayPeer cfg listener true
  else
    match ← openListener cfg with
    | none => do
        sys (.logErrno "listen" (lit "listen failed"))
        pure 1
    | some listener => do
        let _ ← (if cfg.unixSocket then
            sys (.log .info "listen" "listening on unix:%s" [.str cfg.hostArg])
          else sys (.log .info "listen" "listening on %s:%s"
            [.str cfg.hostArg, .str cfg.portArg]))
        let status ← Prog.loop (listenRound cfg listener) 0
        wcatCloseQuiet listener
        pure status

/-! ### The dispatch -/

/-- The switch of `main`: the exit status of the mode. -/
def dispatch (cfg : Config) : Proc ℕ :=
  match cfg.mode with
  | .connect => if cfg.quic then runQuicConnect cfg else runConnect cfg
  | .listen => if cfg.quic then runQuicListen cfg else runListen cfg
  | .send => wcatSendFile cfg
  | .recv => wcatRecvFile cfg
  | .relay => runRelay cfg
  | .broker => wcatBrokerRun cfg
  | .proxy => wcatProxyServerRun cfg
  | .none => pure 2

/-- `main`, once the command line is read: what a run of `wcat` does. A command line that is
not accepted only prints the help. -/
def wcatMain (argv : List Bytes) : Proc ℕ :=
  match wcatParseArgs argv with
  | .ok cfg => dispatch cfg
  | .error .help => pure 0
  | .error _ => pure 2

end Wirecat
