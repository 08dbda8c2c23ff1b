import Wirecat.Access
import Wirecat.Util

/-!
# Opening sockets

`src/socketx.c`, and the function that waits for a connection to accept, of which
the source has two copies (in `src/main.c` and in `src/filexfer.c`).

The connect functions differ in the address family and share the rest: a socket, a
connection attempt that may be timed, and a close when it fails
(`Wirecat.connectTimed`). So do the listen functions.
-/

namespace Wirecat

open CString Interaction

/-! ### Connecting -/

/-- `wait_connected`. -/
def waitConnected (fd : Fd) (timeoutMs : ℤ) : Proc Bool :=
  Prog.loop (fun _ => do
    match ← sys (.poll [{ fd := some fd, pollin := false, pollout := true }] timeoutMs) with
    | .error .eintr => pure (.inl ())
    | .error _ => pure (.inr false)
    | .timeout => do
        sys (.setErrno .etimedout)
        pure (.inr false)
    | .ready _ _ _ _ => do
        let err ← sys (.soError fd)
        pure (.inr err.isNone)) ()

/-- The connection attempt of the connect functions: `connect`, and when a timeout
is set and the connection is in progress, waiting for it. -/
def connectTimed (fd : Fd) (addr : Addr) (timeoutMs : ℤ) : Proc Bool := do
  let _ ← sys (.setCloexec fd)
  let _ ← (if 0 ≤ timeoutMs then sys (.setNonblock fd true) else pure true)
  match ← sys (.connect fd addr) with
  | none => pure true
  | some .einprogress => if 0 ≤ timeoutMs then waitConnected fd timeoutMs else pure false
  | some _ => pure false

/-- `getaddrinfo`, with the error it reports. -/
def resolve (host port : Bytes) (family : Family) (t : Transport) (passive : Bool) :
    Proc (Option ℕ) := do
  match ← sys (.getaddrinfo host port family t passive) with
  | none => do
      sys (.log .error "resolve" "%s:%s: %s" [.str host, .str port])
      pure none
  | some n => pure (some n)

/-- The loop over the addresses of a host: a socket for each, until `attempt`
succeeds on one. -/
def firstAddress (t : Transport) (n : ℕ) (attempt : Fd → ℕ → Proc Bool) : Proc (Option Fd) :=
  Prog.loop (fun k => do
    if k < n then
      match ← sys (.socket t) with
      | .error _ => pure (.inl (k + 1))
      | .ok m =>
          if ← attempt (.sock t m) k then pure (.inr (some (.sock t m)))
          else do
            wcatCloseQuiet (.sock t m)
            pure (.inl (k + 1))
    else pure (.inr none)) 0

/-- `inet_connect`. -/
def inetConnect (host port : Bytes) (family : Family) (t : Transport) (timeoutMs : ℤ) :
    Proc (Option Fd) := do
  match ← resolve host port family t false with
  | none => pure none
  | some n => firstAddress t n fun fd k => do
      if ← connectTimed fd (.inet host port k) timeoutMs then do
        let _ ← sys (.setNonblock fd false)
        pure true
      else pure false

/-- `inet_listen`. -/
def inetListen (host port : Bytes) (family : Family) (t : Transport) (backlog : ℕ) :
    Proc (Option Fd) := do
  match ← resolve host port family t true with
  | none => pure none
  | some n => firstAddress t n fun fd k => do
      sys (.reuseaddr fd)
      sys (.setCloexec fd)
      match ← sys (.bind fd (.inet host port k)) with
      | some _ => pure false
      | none => do
          let err ← sys (.listen fd backlog)
          pure err.isNone

/-- `wcat_tcp_connect`. -/
def wcatTcpConnect (host port : Bytes) (family : Family) (timeoutMs : ℤ) : Proc (Option Fd) :=
  inetConnect host port family .tcp timeoutMs

/-- `wcat_tcp_listen`. -/
def wcatTcpListen (host port : Bytes) (family : Family) (backlog : ℕ) : Proc (Option Fd) :=
  inetListen host port family .tcp backlog

/-- `wcat_sctp_connect`. -/
def wcatSctpConnect (host port : Bytes) (family : Family) (timeoutMs : ℤ) : Proc (Option Fd) :=
  inetConnect host port family .sctp timeoutMs

/-- `wcat_sctp_listen`. -/
def wcatSctpListen (host port : Bytes) (family : Family) (backlog : ℕ) : Proc (Option Fd) :=
  inetListen host port family .sctp backlog

/-- A socket connected to one address, or closed again: what the Unix and the vsock
connect functions do with an address that is valid. -/
def socketConnect (t : Transport) (addr : Addr) (timeoutMs : ℤ) : Proc (Option Fd) := do
  match ← sys (.socket t) with
  | .error _ => pure none
  | .ok m =>
      if ← connectTimed (.sock t m) addr timeoutMs then do
        let _ ← sys (.setNonblock (.sock t m) false)
        pure (some (.sock t m))
      else do
        wcatCloseQuiet (.sock t m)
        pure none

/-- A socket listening on one address, or closed again; `prepare` is what stands
between `wcat_set_cloexec` and `bind`. -/
def socketListen (t : Transport) (addr : Addr) (prepare : Proc Unit) (backlog : ℕ) :
    Proc (Option Fd) := do
  match ← sys (.socket t) with
  | .error _ => pure none
  | .ok m => do
      sys (.setCloexec (.sock t m))
      prepare
      match ← sys (.bind (.sock t m) addr) with
      | some _ => do
          wcatCloseQuiet (.sock t m)
          pure none
      | none =>
          match ← sys (.listen (.sock t m) backlog) with
          | some _ => do
              wcatCloseQuiet (.sock t m)
              pure none
          | none => pure (some (.sock t m))

/-- The size of `sun_path`. -/
def sunPathSize : ℕ := 108

/-- `wcat_unix_connect`. -/
def wcatUnixConnect (path : Bytes) (timeoutMs : ℤ) : Proc (Option Fd) := do
  if sunPathSize ≤ path.length then do
    sys (.setErrno .enametoolong)
    pure none
  else socketConnect .unix (.unix path) timeoutMs

/-- `wcat_unix_listen`. -/
def wcatUnixListen (path : Bytes) (backlog : ℕ) : Proc (Option Fd) := do
  if sunPathSize ≤ path.length then do
    sys (.setErrno .enametoolong)
    pure none
  else socketListen .unix (.unix path) (sys (.unlink path)) backlog

/-- `parse_u32_arg`. -/
def parseU32Arg (s : Bytes) : Option ℕ :=
  if s.isEmpty then none
  else
    let c := strtoul s
    if ¬c.converted ∨ ¬c.rest.isEmpty ∨ 0xffffffff < c.value then none else some c.value

/-- `wcat_vsock_connect`, on Linux. -/
def wcatVsockConnect (cid port : Bytes) (timeoutMs : ℤ) : Proc (Option Fd) := do
  match parseU32Arg cid, parseU32Arg port with
  | some cid, some port => socketConnect .vsock (.vsock (some cid) port) timeoutMs
  | _, _ => do
      sys (.setErrno .einval)
      pure none

/-- The context identifier a vsock listener is bound to, `VMADDR_CID_ANY` being
`none`; the outer `none` is an invalid one. -/
def listenCid (cid : Bytes) : Option (Option ℕ) :=
  if cid = lit "-" ∨ cid = lit "*" ∨ cid = lit "any" then some none
  else (parseU32Arg cid).map some

/-- `wcat_vsock_listen`, on Linux. -/
def wcatVsockListen (cid port : Bytes) (backlog : ℕ) : Proc (Option Fd) := do
  match listenCid cid, parseU32Arg port with
  | some cid, some port => socketListen .vsock (.vsock cid port) (pure ()) backlog
  | _, _ => do
      sys (.setErrno .einval)
      pure none

/-- `wcat_udp_connect`. -/
def wcatUdpConnect (host port : Bytes) (family : Family) : Proc (Option Fd) := do
  match ← resolve host port family .udp false with
  | none => pure none
  | some n => firstAddress .udp n fun fd k => do
      sys (.setCloexec fd)
      let err ← sys (.connect fd (.inet host port k))
      pure err.isNone

/-- `wcat_udp_bind`. -/
def wcatUdpBind (host port : Bytes) (family : Family) : Proc (Option Fd) := do
  match ← resolve host port family .udp true with
  | none => pure none
  | some n => firstAddress .udp n fun fd k => do
      sys (.setCloexec fd)
      let err ← sys (.bind fd (.inet host port k))
      pure err.isNone

/-- The listener of a mode that accepts connections, on the transport that was asked
for: the broker and both forms of `run_listen` open it in the same way. -/
def openListener (cfg : Config) : Proc (Option Fd) :=
  if cfg.unixSocket then wcatUnixListen cfg.hostArg 16
  else if cfg.vsock then wcatVsockListen cfg.hostArg cfg.portArg 16
  else if cfg.sctp then wcatSctpListen cfg.hostArg cfg.portArg cfg.family 16
  else wcatTcpListen cfg.hostArg cfg.portArg cfg.family 16

/-! ### Accepting -/

/-- An accepted connection, with the texts `getnameinfo` gave for its peer. -/
structure Peer where
  fd : Fd
  host : Bytes
  port : Bytes

/-- `wcat_accept`; `sizes` are the sizes of the arrays for the peer's host and port,
when there are any. -/
def wcatAccept (listener : Fd) (sizes : Option (ℕ × ℕ)) : Proc (Option Peer) :=
  Prog.loop (fun _ => do
    match ← sys (.accept listener) with
    | .error .eintr => pure (.inl ())
    | .error _ => pure (.inr none)
    | .ok n => do
        let fd := listener.accepted n
        sys (.setCloexec fd)
        match sizes with
        | none => pure (.inr (some ⟨fd, [], []⟩))
        | some (hostLen, portLen) => do
            let (host, port) := (← sys (.getnameinfo fd hostLen portLen)).getD ([], [])
            pure (.inr (some ⟨fd, host, port⟩))) ()

/-- `accept_when_ready`: poll the listener in slices of 250 ms, so that a stop is
noticed. -/
def acceptWhenReady (listener : Fd) (sizes : Option (ℕ × ℕ)) : Proc (Option Peer) :=
  Prog.loop (fun _ => do
    if ← sys .stop then do
      sys (.setErrno .eintr)
      pure (.inr none)
    else
      match ← sys (.poll [{ fd := some listener, pollin := true }] 250) with
      | .error .eintr => pure (.inl ())
      | .error _ => pure (.inr none)
      | .timeout => pure (.inl ())
      | .ready revents _ _ _ =>
          let r := revents.headD .none
          if r.pollin then do
            let client ← wcatAccept listener sizes
            pure (.inr client)
          else if r.pollerr ∨ r.pollhup ∨ r.pollnval then do
            sys (.setErrno .econnaborted)
            pure (.inr none)
          else pure (.inl ())) ()

end Wirecat
