import Wirecat.Interaction.Logic
import Wirecat.CString

/-!
# The system under the program

The requests `wcat` makes of the outside world – of the kernel, of OpenSSL, of its
own log – and the answers it can get. A C function of the source becomes a value
of `Wirecat.Proc`, a program over these requests, and a claim about the source a
statement about the histories of such programs.

## What an answer can be

The types of the answers carry what the interface promises, so that no impossible
answer has to be excluded later: a `read` of `len` bytes gives between one and
`len` of them, the end of file or an error (`Wirecat.ReadRes`); a `write` accepts
no more than it was given (`Wirecat.WriteRes`); `poll` reports one set of events
for each descriptor, and none for an entry whose descriptor is negative
(`Wirecat.PollRes`).

## Descriptors

A descriptor is its number together with the call it came from
(`Wirecat.Fd`). The numbers are the kernel's and are used again after a `close`;
`Wirecat.Legal` asks no more than that a new descriptor is not one that is still
open. A read says where in its buffer the bytes go, so that a store past the end
of an array is visible in the history, and which part of the program is reading
(`Wirecat.Via`), so that the payload of a stream can be told from the dialogue
with a proxy.
-/

namespace Wirecat

open CString Interaction

/-! ### Descriptors and addresses -/

/-- The values of `errno` the source tests or sets. -/
inductive Errno
  | eintr | eagain | eio | einval | einprogress | enametoolong | etimedout | econnaborted
  | emsgsize | enotsup | enotsock | ebadf | econnreset
  | other (n : ℕ)
  deriving DecidableEq

/-- `family` of a configuration: `AF_UNSPEC`, `AF_INET` or `AF_INET6`. -/
inductive Family
  | unspec | inet | inet6
  deriving DecidableEq

/-- The transports a socket can be opened for. -/
inductive Transport
  | tcp | sctp | udp | unix | vsock
  deriving DecidableEq

/-- A descriptor: where it came from, and its number. -/
inductive Fd
  /-- `STDIN_FILENO`. -/
  | stdin
  /-- `STDOUT_FILENO`. -/
  | stdout
  /-- `STDERR_FILENO`. -/
  | stderr
  /-- A socket opened by `socket`. -/
  | sock (t : Transport) (n : ℕ)
  /-- A connection returned by `accept`. -/
  | conn (t : Transport) (n : ℕ)
  /-- A file. -/
  | file (n : ℕ)
  /-- An end of a pipe to a child process. -/
  | pipe (n : ℕ)
  /-- The master side of a pseudo-terminal. -/
  | pty (n : ℕ)
  deriving DecidableEq

/-- Whether a descriptor is a socket: what is written to it leaves the process
for a peer. -/
def Fd.isSocket : Fd → Bool
  | .sock _ _ | .conn _ _ => true
  | _ => false

/-- The transport of a socket or of a connection accepted on it. -/
def Fd.transport : Fd → Option Transport
  | .sock t _ | .conn t _ => some t
  | _ => none

/-- The connection number `n` accepted on a listener. -/
def Fd.accepted (listener : Fd) (n : ℕ) : Fd := .conn (listener.transport.getD .tcp) n

/-- An address a socket is connected or bound to. An Internet address is named by
what it was resolved from: it is number `k` in the list `getaddrinfo` gave for
that host and port. -/
inductive Addr
  | inet (host port : Bytes) (k : ℕ)
  | unix (path : Bytes)
  | vsock (cid : Option ℕ) (port : ℕ)
  deriving DecidableEq

/-- An IPv4 address, in network byte order. -/
abbrev IPv4 := {a : Bytes // a.length = 4}

/-- An IPv6 address, in network byte order. -/
abbrev IPv6 := {a : Bytes // a.length = 16}

/-- The address of a peer as `getpeername` reports it. -/
inductive SockAddr
  | inet (a : IPv4)
  | inet6 (a : IPv6)
  /-- A family that is neither `AF_INET` nor `AF_INET6`. -/
  | other
  deriving DecidableEq

/-! ### Who is asking -/

/-- The stream objects of the source, by the variables that hold them; a stream
passes its own address to its functions, so two streams are told apart by it. -/
inductive Obj
  | net | stdioStream | procStream | src | dst | clientStream | upstreamStream | left | right
  deriving DecidableEq

/-- The part of the program that reads or writes. -/
inductive Via
  /-- A stream, through the functions in its table. -/
  | stream (o : Obj)
  /-- The dialogue with an outbound proxy. -/
  | handshake
  /-- The CONNECT server. -/
  | server
  /-- The broker. -/
  | broker
  /-- The multi-session listener. -/
  | multi
  deriving DecidableEq

/-! ### Answers -/

/-- The answer to a `read` of `len` bytes. -/
inductive ReadRes (len : ℕ)
  | data (bytes : Bytes) (pos : bytes ≠ []) (le : bytes.length ≤ len)
  | eof
  | error (e : Errno)
  deriving DecidableEq

/-- The answer to a `write` of `len` bytes. -/
inductive WriteRes (len : ℕ)
  | wrote (n : ℕ) (le : n ≤ len)
  | error (e : Errno)
  deriving DecidableEq

/-- The error classes of `SSL_get_error` the source tells apart; `zeroReturn` is
the peer's orderly end of the stream. -/
inductive SslError
  | wantRead | wantWrite | zeroReturn | fatal
  deriving DecidableEq

/-- The answer to `SSL_read`. -/
inductive SslReadRes (len : ℕ)
  | data (bytes : Bytes) (pos : bytes ≠ []) (le : bytes.length ≤ len)
  | error (e : SslError)
  deriving DecidableEq

/-- The answer to `SSL_write`: it accepted exactly the first `n` bytes, or none. -/
inductive SslWriteRes (len : ℕ)
  | wrote (n : ℕ) (pos : 0 < n) (le : n ≤ len)
  | error (e : SslError)
  deriving DecidableEq

/-- An entry of the array given to `poll`; a negative descriptor is `none`. -/
structure PollFd where
  fd : Option Fd
  pollin : Bool
  pollout : Bool := false
  deriving DecidableEq

/-- The events `poll` reports for an entry. -/
structure Revents where
  pollin : Bool := false
  pollout : Bool := false
  pollerr : Bool := false
  pollhup : Bool := false
  pollnval : Bool := false
  deriving DecidableEq

/-- Nothing happened. -/
def Revents.none : Revents := {}

/-- The answer to `poll`: an error, nothing before the timeout, or one set of
events for each entry, not all of them empty. -/
inductive PollRes (fds : List PollFd)
  | error (e : Errno)
  | timeout
  | ready (revents : List Revents) (len : revents.length = fds.length)
      (event : ∃ r ∈ revents, r ≠ Revents.none)
      (ignored : ∀ p ∈ fds.zip revents, p.1.fd = none → p.2 = Revents.none)

/-! ### Requests -/

/-- The levels of the log. -/
inductive LogLevel
  | error | warn | info | debug
  deriving DecidableEq

/-- An argument of a format string. -/
inductive LogArg
  | str (s : Bytes)
  | num (n : ℤ)
  /-- An address, printed by `inet_ntop`. -/
  | addr (a : Bytes)
  deriving DecidableEq

/-- How a file is opened. -/
inductive OpenMode
  /-- `O_RDONLY`. -/
  | rdonly
  /-- `O_WRONLY | O_CREAT | O_TRUNC`. -/
  | truncate
  /-- `O_RDWR | O_CREAT`. -/
  | rdwr
  deriving DecidableEq

/-- The calls that configure OpenSSL or run a handshake; each succeeds or not. -/
inductive SslCall
  | ctxNew (server quic : Bool)
  | setVerify (peer failIfNoCert : Bool)
  | loadVerifyLocations (caFile : Bytes)
  | setDefaultVerifyPaths
  | useCertificateFile (file : Bytes)
  | usePrivateKeyFile (file : Bytes)
  | checkPrivateKey
  | new
  | setTlsextHostName (name : Bytes)
  | set1Host (name : Bytes)
  | verifyResultOk
  | setAlpnProtos (wire : Bytes)
  | setAlpnSelect (alpn : Bytes)
  | set1InitialPeerAddr
  | setBlockingMode
  | newListener
  | listen
  | bioNew
  | bioAddrDup
  deriving DecidableEq

/-- A session as the operator is shown it: its number, what it is called, and its peer. -/
structure SessionRow where
  id : ℕ
  label : Bytes
  host : Bytes
  port : Bytes
  deriving DecidableEq

/-- What the multi-session listener prints for the operator; whether it is coloured is left
out. -/
inductive Screen
  | newline
  | prompt (activeId : ℕ)
  | help
  /-- The table of the live sessions, of at most `limit`. -/
  | sessions (live : List SessionRow) (limit activeId : ℕ)
  | info (row : SessionRow) (active : Bool) (rxBytes txBytes : ℕ)
  | active (id : ℕ)
  | attached (id : ℕ)
  | renamed (id : ℕ)
  | killed (row : SessionRow)
  | failure (text : String)
  /-- The screen is cleared. -/
  | clear
  /-- The line is cleared. -/
  | clearLine
  | cursorLeft (n : ℕ)
  | cursorRight (n : ℕ)
  /-- The character before the cursor is rubbed out. -/
  | rubout
  deriving DecidableEq

/-- **The requests of the program.** -/
inductive Sys
  /-- Read the flag `wcat_stop`. -/
  | stop
  /-- Set the flag `wcat_stop`. -/
  | raiseStop
  /-- Read into an array of `cap` bytes, at `off`, at most `len` bytes. -/
  | read (via : Via) (fd : Fd) (cap off len : ℕ)
  | write (via : Via) (fd : Fd) (buf : Bytes)
  | close (fd : Fd)
  /-- `shutdown (fd, SHUT_WR)`. -/
  | shutdownWrite (fd : Fd)
  | poll (fds : List PollFd) (timeout : ℤ)
  /-- Resolve a name; the answer is how many addresses there are. -/
  | getaddrinfo (host port : Bytes) (family : Family) (t : Transport) (passive : Bool)
  | socket (t : Transport)
  | reuseaddr (fd : Fd)
  | setCloexec (fd : Fd)
  | setNonblock (fd : Fd) (enabled : Bool)
  | connect (fd : Fd) (addr : Addr)
  /-- `getsockopt (fd, SOL_SOCKET, SO_ERROR)`. -/
  | soError (fd : Fd)
  | bind (fd : Fd) (addr : Addr)
  | listen (fd : Fd) (backlog : ℕ)
  | accept (listener : Fd)
  /-- The numeric host and port of an accepted peer. -/
  | getnameinfo (fd : Fd) (hostLen portLen : ℕ)
  | getpeername (fd : Fd)
  | unlink (path : Bytes)
  | openFile (path : Bytes) (mode : OpenMode)
  | pipe
  /-- Fork a child that executes `path` on the given pipe ends. -/
  | fork (path : Bytes)
  | forkpty (path : Bytes)
  | waitpid (pid : ℕ)
  | realloc (size : ℕ)
  | ssl (call : SslCall)
  /-- `SSL_connect` on a descriptor. -/
  | sslConnect (fd : Fd)
  /-- `SSL_accept` on a descriptor. -/
  | sslAccept (fd : Fd)
  /-- `SSL_accept_connection` on a QUIC listener: whether a connection came. -/
  | sslAcceptConnection (fd : Fd)
  | sslRead (o : Obj) (fd : Fd) (len : ℕ)
  | sslWrite (o : Obj) (fd : Fd) (buf : Bytes)
  | sslPending (fd : Fd)
  | sslHandleEvents (fd : Fd)
  | sslStreamConclude (fd : Fd)
  | sslShutdown (fd : Fd)
  | sslEventTimeout (fd : Fd)
  | sslNetDesired (fd : Fd)
  | setErrno (e : Errno)
  | log (level : LogLevel) (event fmt : String) (args : List LogArg)
  | logErrno (event : String) (context : Bytes)
  | hexdump (label : String) (buf : Bytes)
  | isatty (fd : Fd)
  | tcgetattr
  /-- Switch the terminal to raw input, or restore it. -/
  | tcsetattr (raw : Bool)
  | tty (out : Screen)

/-- The answers to a request. -/
abbrev Resp : Sys → Type
  | .stop => Bool
  | .read _ _ _ _ len => ReadRes len
  | .write _ _ buf => WriteRes buf.length
  | .close _ => Option Errno
  | .shutdownWrite _ => Option Errno
  | .poll fds _ => PollRes fds
  | .getaddrinfo _ _ _ _ _ => Option ℕ
  | .socket _ => Except Errno ℕ
  | .setNonblock _ _ => Bool
  | .connect _ _ => Option Errno
  | .soError _ => Option Errno
  | .bind _ _ => Option Errno
  | .listen _ _ => Option Errno
  | .accept _ => Except Errno ℕ
  | .getnameinfo _ _ _ => Option (Bytes × Bytes)
  | .getpeername _ => Option SockAddr
  | .openFile _ _ => Except Errno ℕ
  | .pipe => Option (ℕ × ℕ)
  | .fork _ => Option ℕ
  | .forkpty _ => Option (ℕ × ℕ)
  | .waitpid _ => Except Errno ℤ
  | .realloc _ => Bool
  | .ssl _ => Bool
  | .sslConnect _ => Bool
  | .sslAccept _ => Bool
  | .sslAcceptConnection _ => Bool
  | .sslRead _ _ len => SslReadRes len
  | .sslWrite _ _ buf => SslWriteRes buf.length
  | .sslPending _ => ℕ
  | .sslHandleEvents _ => Bool
  | .sslStreamConclude _ => Option SslError
  | .sslShutdown _ => Option SslError
  | .sslEventTimeout _ => Option ℕ
  | .sslNetDesired _ => Bool × Bool
  | .isatty _ => Bool
  | .tcgetattr => Bool
  | .tcsetattr _ => Bool
  | _ => Unit

/-- A C function of the source, as a program over the system. -/
abbrev Proc (α : Type) := Prog Sys Resp α

/-- An event of the system. -/
abbrev Ev := Event Sys Resp

/-- A history of the system, newest event first. -/
abbrev Hist := History Sys Resp

/-- Make one request. -/
abbrev sys (e : Sys) : Proc (Resp e) := Prog.request e

/-! ### Which answers are legal -/

/-- The descriptors an event opens. -/
def opens : Ev → List Fd
  | ⟨.socket t, .ok n⟩ => [.sock t n]
  | ⟨.accept listener, .ok n⟩ => [listener.accepted n]
  | ⟨.openFile _ _, .ok n⟩ => [.file n]
  | ⟨.pipe, some (r, w)⟩ => [.pipe r, .pipe w]
  | ⟨.forkpty _, some (_, n)⟩ => [.pty n]
  | _ => []

/-- Whether a descriptor is open: it was opened, and not closed since. -/
def isOpen : Hist → Fd → Bool
  | [], _ => false
  | ⟨.close fd', _⟩ :: h, fd => fd ≠ fd' && isOpen h fd
  | ev :: h, fd => fd ∈ opens ev || isOpen h fd

/-- Whether the program has been asked to stop. -/
def stopped : Hist → Bool
  | [] => false
  | ⟨.stop, true⟩ :: _ => true
  | ⟨.raiseStop, _⟩ :: _ => true
  | _ :: h => stopped h

/-- The stop flag, once seen set, is not seen cleared. -/
def stopSticks (h : Hist) : Ev → Prop
  | ⟨.stop, false⟩ => stopped h = false
  | _ => True

/-- **The answers the kernel can give**: a descriptor it opens is not open
already, and the stop flag stays set. -/
def Legal (h : Hist) (e : Sys) (r : Resp e) : Prop :=
  (∀ fd ∈ opens ⟨e, r⟩, isOpen h fd = false) ∧ (opens ⟨e, r⟩).Nodup ∧ stopSticks h ⟨e, r⟩

/-- The answer of an environment that grants nothing: every request fails, and the
program is asked to stop. -/
def refuse : (e : Sys) → Resp e
  | .stop => true
  | .read _ _ _ _ _ => .eof
  | .write _ _ _ => .error .eio
  | .close _ | .shutdownWrite _ | .connect _ _ | .soError _ | .bind _ _ | .listen _ _ => some .eio
  | .poll _ _ => .error .eio
  | .getaddrinfo _ _ _ _ _ | .getnameinfo _ _ _ | .getpeername _ | .pipe | .fork _
  | .forkpty _ => none
  | .socket _ | .accept _ | .openFile _ _ | .waitpid _ => .error .eio
  | .setNonblock _ _ | .realloc _ | .ssl _ | .sslConnect _ | .sslAccept _
  | .sslAcceptConnection _ | .sslHandleEvents _ | .isatty _ | .tcgetattr | .tcsetattr _ => false
  | .sslRead _ _ _ | .sslWrite _ _ _ => .error .fatal
  | .sslPending _ => (0 : ℕ)
  | .sslStreamConclude _ | .sslShutdown _ => some .fatal
  | .sslEventTimeout _ => none
  | .sslNetDesired _ => (false, false)
  | .raiseStop | .reuseaddr _ | .setCloexec _ | .unlink _ | .setErrno _ | .log _ _ _ _
  | .logErrno _ _ | .hexdump _ _ | .tty _ => ()

/-- The answer to a write of which every byte is taken. -/
def WriteRes.all (buf : Bytes) : WriteRes buf.length := .wrote buf.length le_rfl

/-- A refusal is always legal, so no request is without a legal answer. -/
theorem legal_refuse (h : Hist) (e : Sys) : Legal h e (refuse e) := by
  cases e <;> exact ⟨by simp [opens, refuse], by simp [opens, refuse], trivial⟩

/-- Whether an event is a look at the stop flag that finds it clear. -/
def seesClear : Ev → Bool
  | ⟨.stop, false⟩ => true
  | _ => false

theorem stopSticks_iff {h : Hist} {ev : Ev} :
    (seesClear ev && stopped h) = false ↔ stopSticks h ev := by
  rw [seesClear.eq_def, stopSticks.eq_def]
  split <;> simp

instance (h : Hist) (ev : Ev) : Decidable (stopSticks h ev) := decidable_of_iff _ stopSticks_iff

instance (h : Hist) (e : Sys) (r : Resp e) : Decidable (Legal h e r) :=
  inferInstanceAs (Decidable (_ ∧ _ ∧ _))

/-- An environment that follows a script as long as that is legal. -/
def lawful (script : Hist → (e : Sys) → Resp e) (h : Hist) (e : Sys) : Resp e :=
  if Legal h e (script h e) then script h e else refuse e

theorem legal_lawful (script : Hist → (e : Sys) → Resp e) (h : Hist) (e : Sys) :
    Legal h e (lawful script h e) := by
  rw [lawful]
  split_ifs with hl
  · exact hl
  · exact legal_refuse h e

/-- How many polls a history holds. -/
def pollCount (h : Hist) : ℕ := h.countP fun ev => match ev.1 with
  | .poll _ _ => true
  | _ => false

/-- The answer of `poll` with these events, or nothing where they are not an answer. -/
def PollRes.reporting (fds : List PollFd) (revents : List Revents) : PollRes fds :=
  if h : revents.length = fds.length ∧ (∃ r ∈ revents, r ≠ Revents.none) ∧
      ∀ p ∈ fds.zip revents, p.1.fd = none → p.2 = Revents.none then
    .ready revents h.1 h.2.1 h.2.2
  else .timeout

end Wirecat
