import Wirecat.Relay

/-!
# Proxies

`src/proxy.c`, both sides. As a client, `wcat` reaches a target through a SOCKS5 or
an HTTP CONNECT proxy: it connects to the proxy and negotiates
(`Wirecat.wcatProxyConnect`). As a server it is an HTTP CONNECT proxy itself
(`Wirecat.wcatProxyServerRun`).

The negotiations read into arrays of a fixed size. The size of the array and the
place of a read in it are part of the request, so that a reply that does not fit is
visible in the history; what lies in the array afterwards is the list of its bytes
(`Wirecat.overlay`).
-/

namespace Wirecat

open CString Interaction

/-! ### The proxy of a configuration -/

/-- `split_host_port`, with the sizes of the two arrays it fills. -/
def splitHostPort (s : Bytes) (hostLen portLen : ℕ) : Option (Bytes × Bytes) :=
  match splitLast (chr ':') s with
  | none => none
  | some (host, port) =>
      if host.isEmpty ∨ port.isEmpty then none
      else if hostLen ≤ host.length ∨ portLen ≤ port.length then none
      else if (wcatParsePort port).isSome then some (host, port) else none

/-- `wcat_proxy_type`. -/
inductive ProxyType
  | none | socks5 | http
  deriving DecidableEq

/-- `wcat_proxy`. -/
structure Proxy where
  type : ProxyType
  host : Bytes
  port : Bytes
  deriving DecidableEq

/-- `wcat_proxy_parse`: the proxy a URL names, or `none` for `-1`. -/
def wcatProxyParse (url : Option Bytes) : Option Proxy :=
  let named (type : ProxyType) (rest : Bytes) :=
    (splitHostPort rest 256 16).map fun p => (⟨type, p.1, p.2⟩ : Proxy)
  match url with
  | none => some ⟨.none, [], []⟩
  | some url =>
      if url.isEmpty then some ⟨.none, [], []⟩
      else if (lit "socks5://").isPrefixOf url then named .socks5 (url.drop 9)
      else if (lit "http://").isPrefixOf url then named .http (url.drop 7)
      else none

/-! ### Negotiating -/

/-- `read_exact` into an array of `cap` bytes: whether all `len` bytes came, and the
bytes that did. -/
def readExact (fd : Fd) (cap len : ℕ) : Proc (Bool × Bytes) :=
  Prog.loop (fun got : Bytes => do
    if got.length < len then
      match ← sys (.read .handshake fd cap got.length (len - got.length)) with
      | .error .eintr => pure (.inl got)
      | .error _ | .eof => pure (.inr (false, got))
      | .data bytes _ _ => pure (.inl (got ++ bytes))
    else pure (.inr (true, got))) []

/-- The size of `rep`. -/
def repSize : ℕ := 10

/-- The byte `k` of `rep`. -/
def repByte (rep : Bytes) (k : ℕ) : UInt8 := rep.getD k 0

/-- The SOCKS5 greeting: one method, no authentication. -/
def socks5Greeting : Bytes := [0x05, 0x01, 0x00]

/-- The SOCKS5 request to connect to a named host. -/
def socks5Request (dstHost : Bytes) (port : ℕ) : Bytes :=
  [0x05, 0x01, 0x00, 0x03, dstHost.length.toUInt8] ++ dstHost ++
    [(port / 256).toUInt8, (port % 256).toUInt8]

/-- The rest of the reply to a request, the bound address, by its type `rep[3]`. -/
def socks5BoundAddress (fd : Fd) (rep : Bytes) : Proc Bool := do
  if repByte rep 3 = 0x01 then do
    let r ← readExact fd repSize 6
    pure r.1
  else if repByte rep 3 = 0x03 then do
    let r ← readExact fd repSize 1
    if !r.1 then pure false
    else do
      let r ← readExact fd repSize ((repByte r.2 0).toNat + 2)
      pure r.1
  else if repByte rep 3 = 0x04 then do
    let r ← readExact fd repSize 18
    pure r.1
  else do
    sys (.log .error "proxy" "SOCKS5 connect reply used unsupported address type 0x%02x"
      [.num (repByte rep 3).toNat])
    pure false

/-- `socks5_negotiate` from the request on, after a greeting that left `rep`. -/
def socks5Connect (fd : Fd) (dstHost : Bytes) (port : ℕ) (rep : Bytes) : Proc Bool := do
  let n ← wcatFullWrite .handshake fd (socks5Request dstHost port)
  if n ≠ some (7 + dstHost.length) then do
    sys (.log .error "proxy" "SOCKS5 connect request write failed" [])
    pure false
  else do
    let r ← readExact fd repSize 4
    let rep := overlay rep r.2
    if !r.1 || repByte rep 1 ≠ 0x00 then do
      let _ ← (if repByte rep 1 ≠ 0x00 then
          sys (.log .error "proxy" "SOCKS5 connect failed with reply code 0x%02x"
            [.num (repByte rep 1).toNat])
        else sys (.log .error "proxy" "SOCKS5 connect reply read failed" []))
      pure false
    else socks5BoundAddress fd rep

/-- `socks5_negotiate`: whether it returned `0`. -/
def socks5Negotiate (fd : Fd) (dstHost dstPort : Bytes) : Proc Bool := do
  match wcatParsePort dstPort, decide (dstHost.length ≤ 255) with
  | some port, true => do
      let n ← wcatFullWrite .handshake fd socks5Greeting
      let r ← (if n = some 3 then readExact fd repSize 2 else pure (false, []))
      if !r.1 || repByte r.2 0 ≠ 0x05 || repByte r.2 1 ≠ 0x00 then do
        sys (.log .error "proxy" "SOCKS5 server rejected no-auth negotiation" [])
        pure false
      else socks5Connect fd dstHost port r.2
  | _, _ => do
      sys (.log .error "proxy" "SOCKS5 target host or port is invalid" [])
      sys (.setErrno .einval)
      pure false

/-- The request of an HTTP CONNECT client. -/
def httpConnectRequest (dstHost dstPort : Bytes) : Bytes :=
  lit "CONNECT " ++ dstHost ++ lit ":" ++ dstPort ++ lit " HTTP/1.1\r\nHost: " ++ dstHost ++
    lit ":" ++ dstPort ++ lit "\r\nUser-Agent: wcat/0.1\r\n\r\n"

/-- The empty line that ends an HTTP header. -/
def headerEnd : Bytes := lit "\r\n\r\n"

/-- A round of the loop of `http_connect_negotiate`, which reads a byte. -/
def readByte (fd : Fd) (buf : Bytes) : Proc (Bytes ⊕ Option Bytes) := do
  if buf.length + 1 < 1024 then
    match ← sys (.read .handshake fd 1024 buf.length 1) with
    | .data bytes _ _ =>
        if isInfix headerEnd (ofBuffer (buf ++ bytes)) then pure (.inr (some (buf ++ bytes)))
        else pure (.inl (buf ++ bytes))
    | _ => do
        sys (.log .error "proxy" "HTTP CONNECT response read failed" [])
        pure (.inr none)
  else pure (.inr (some buf))

/-- The loop of `http_connect_negotiate`. -/
def readReply (fd : Fd) : Proc (Option Bytes) := Prog.loop (readByte fd) []

/-- `http_connect_negotiate`: whether it returned `0`. The response is read byte by
byte up to an empty line, or as far as the array goes. -/
def httpConnectNegotiate (fd : Fd) (dstHost dstPort : Bytes) : Proc Bool := do
  let req := httpConnectRequest dstHost dstPort
  if 512 ≤ req.length then do
    sys (.log .error "proxy" "HTTP CONNECT request is too large" [])
    sys (.setErrno .einval)
    pure false
  else do
    let n ← wcatFullWrite .handshake fd req
    if n ≠ some req.length then do
      sys (.log .error "proxy" "HTTP CONNECT request write failed" [])
      pure false
    else do
      match ← readReply fd with
      | none => pure false
      | some buf =>
          if !isInfix (lit " 200 ") (ofBuffer buf) then do
            sys (.log .error "proxy" "HTTP CONNECT proxy did not return status 200" [])
            pure false
          else pure true

/-- The negotiation a proxy asks for, of one that is not `WCAT_PROXY_NONE`. -/
def negotiate (type : ProxyType) (fd : Fd) (dstHost dstPort : Bytes) : Proc Bool :=
  match type with
  | .socks5 => socks5Negotiate fd dstHost dstPort
  | .http => httpConnectNegotiate fd dstHost dstPort
  | .none => pure false

/-- `wcat_proxy_connect`. -/
def wcatProxyConnect (proxy : Proxy) (dstHost dstPort : Bytes) (family : Family) (timeoutMs : ℤ) :
    Proc (Option Fd) := do
  if proxy.type = .none then wcatTcpConnect dstHost dstPort family timeoutMs
  else
    match ← wcatTcpConnect proxy.host proxy.port family timeoutMs with
    | none => pure none
    | some fd =>
        if ← negotiate proxy.type fd dstHost dstPort then pure (some fd)
        else do
          sys (.log .error "proxy" "proxy negotiation failed" [])
          wcatCloseQuiet fd
          pure none

/-! ### Serving -/

/-- A round of the loop of `read_http_header`, into an array of `len` bytes. -/
def headerByte (fd : Fd) (len : ℕ) (buf : Bytes) : Proc (Bytes ⊕ Option Bytes) := do
  if buf.length + 1 < len then
    match ← sys (.read .server fd len buf.length 1) with
    | .error .eintr => pure (.inl buf)
    | .error _ | .eof => pure (.inr none)
    | .data bytes _ _ =>
        if isInfix headerEnd (ofBuffer (buf ++ bytes)) then pure (.inr (some (buf ++ bytes)))
        else pure (.inl (buf ++ bytes))
  else do
    sys (.setErrno .emsgsize)
    pure (.inr none)

/-- `read_http_header` into an array of `len` bytes: what was read, or `none` for
`-1`. -/
def readHttpHeader (fd : Fd) (len : ℕ) : Proc (Option Bytes) := Prog.loop (headerByte fd len) []

/-- `parse_connect_request`, with the sizes of the arrays for the host and the port. -/
def parseConnectRequest (buf : Bytes) (hostLen portLen : ℕ) : Option (Bytes × Bytes) :=
  if !(lit "CONNECT ").isPrefixOf buf then none
  else
    match splitFirst (chr ' ') (buf.drop 8) with
    | none => none
    | some (endpoint, _) =>
        if endpoint.length = 0 ∨ 512 ≤ endpoint.length then none
        else splitHostPort endpoint hostLen portLen

/-- `write_proxy_response`: whether it returned `0`. -/
def writeProxyResponse (fd : Fd) (status : ℕ) (text : String) : Proc Bool := do
  let response := lit "HTTP/1.1 " ++ decimal status ++ lit " " ++ lit text ++ headerEnd
  if 128 ≤ response.length then do
    sys (.setErrno .einval)
    pure false
  else do
    let n ← wcatFullWrite .server fd response
    pure (n = some response.length)

/-- `serve_proxy_client`: the exit status. -/
def serveProxyClient (cfg : Config) (client : Fd) : Proc ℕ := do
  let target := (← readHttpHeader client 4096).bind fun buf =>
    parseConnectRequest (ofBuffer buf) 256 32
  match target with
  | none => do
      let _ ← writeProxyResponse client 400 "Bad Request"
      pure 1
  | some (host, port) =>
      match ← wcatTcpConnect host port cfg.family cfg.timeoutMs with
      | none => do
          let _ ← writeProxyResponse client 502 "Bad Gateway"
          sys (.logErrno "proxy_connect" (lit "proxy upstream connect failed"))
          pure 1
      | some upstream =>
          if !(← writeProxyResponse client 200 "Connection Established") then do
            wcatCloseQuiet upstream
            pure 1
          else do
            sys (.log .info "proxy_connect" "proxy CONNECT %s:%s" [.str host, .str port])
            let clientStream := { wcatStreamFromFd .clientStream client with closeOnEof := false }
            let upstreamStream := wcatStreamFromFd .upstreamStream upstream
            let ok ← wcatRelayBidirectional clientStream upstreamStream cfg.relayOptions
            wcatCloseQuiet upstream
            pure (if ok then 0 else 1)

/-- A round of the server: a client is accepted, checked and served. `wcat_accept` never
fails with `EINTR`, so every failure of it ends the server. -/
def proxyRound (cfg : Config) (listener : Fd) (_ : Unit) : Proc (Unit ⊕ ℕ) := do
  if ← sys .stop then pure (.inr 0)
  else
    match ← wcatAccept listener (some (128, 32)) with
    | none => do
        sys (.logErrno "proxy_accept" (lit "proxy accept failed"))
        pure (.inr 1)
    | some peer =>
        if !(← wcatAccessCheckFd cfg peer.fd) then do
          wcatCloseQuiet peer.fd
          pure (.inl ())
        else do
          sys (.log .info "proxy_accept" "accepted proxy client %s:%s"
            [.str peer.host, .str peer.port])
          let rc ← serveProxyClient cfg peer.fd
          wcatCloseQuiet peer.fd
          if rc ≠ 0 ∧ !cfg.keepOpen then pure (.inr rc) else pure (.inl ())

/-- `wcat_proxy_server_run`: the exit status. -/
def wcatProxyServerRun (cfg : Config) : Proc ℕ := do
  match ← wcatTcpListen cfg.hostArg cfg.portArg cfg.family 64 with
  | none => do
      sys (.logErrno "proxy_listen" (lit "HTTP CONNECT proxy listen failed"))
      pure 1
  | some listener => do
      sys (.log .info "proxy_listen" "HTTP CONNECT proxy listening on %s:%s"
        [.str cfg.hostArg, .str cfg.portArg])
      let rc ← Prog.loop (proxyRound cfg listener) ()
      wcatCloseQuiet listener
      pure rc

end Wirecat
