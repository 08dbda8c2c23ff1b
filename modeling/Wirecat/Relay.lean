import Wirecat.Tls

/-!
# Relaying

`src/relay.c`: a stream is an object that can be read from, written to and half
closed, over one descriptor, over a pair of descriptors or over TLS. `Wirecat.pumpOnce`
moves one chunk from one stream to another; `Wirecat.wcatRelayBidirectional` moves
chunks both ways until the streams end, and `Wirecat.wcatCopyStream` one way.

## What a read can mean

`pump_once` reads once and tells its callers one of three things: nothing to do or a
chunk moved (`1`), the end of the source (`0`), or a destination that did not take
the chunk (`-1`). Only `EINTR` and `EAGAIN` are not an end: a read that fails with
anything else ends the source just as the end of file does.
-/

namespace Wirecat

open CString Interaction

/-! ### Streams -/

/-- What a stream is over. -/
inductive StreamIo
  /-- Descriptors: one to read from, one to write to, which `fd_shutdown_write` may
  give up, and whether it may. -/
  | fd (rawFd : Fd) (writeFd : Option Fd) (canCloseWrite : Bool)
  /-- A TLS or a QUIC stream. -/
  | tls (s : TlsStream)
  deriving DecidableEq

/-- `wcat_stream`. `obj` is the variable that holds the stream: its functions are
called with it, and no two streams of a relay share it. -/
structure Stream where
  obj : Obj
  io : StreamIo
  closeOnEof : Bool
  deriving DecidableEq

/-- `wcat_stream_from_fd`. -/
def wcatStreamFromFd (obj : Obj) (fd : Fd) : Stream := ⟨obj, .fd fd (some fd) true, true⟩

/-- `wcat_stream_from_fd_pair`. -/
def wcatStreamFromFdPair (obj : Obj) (readFd writeFd : Fd) : Stream :=
  ⟨obj, .fd readFd (some writeFd) (writeFd ≠ .stdout), readFd ≠ .stdin⟩

/-- `wcat_stream_from_tls`. -/
def wcatStreamFromTls (obj : Obj) (s : TlsStream) : Stream := ⟨obj, .tls s, true⟩

namespace Stream

variable (s : Stream)

/-- `s->fd`: the descriptor to poll. -/
def fd : Fd :=
  match s.io with
  | .fd rawFd _ _ => rawFd
  | .tls t => t.fd

/-- `s->read`. -/
def read (len : ℕ) : Proc (ReadRes len) :=
  match s.io with
  | .fd rawFd _ _ => sys (.read (.stream s.obj) rawFd len 0 len)
  | .tls t => wcatTlsRead s.obj t len

/-- `s->write`. A stream that gave up its descriptor writes to `-1`. -/
def write (buf : Bytes) : Proc (Option ℕ) :=
  match s.io with
  | .fd _ (some writeFd) _ => wcatFullWrite (.stream s.obj) writeFd buf
  | .fd _ none _ => pure (if buf.isEmpty then some 0 else none)
  | .tls t => wcatTlsWrite s.obj t buf

/-- `s->shutdown_write`: the stream with its writing side closed. -/
def shutdownWrite : Proc Stream :=
  match s.io with
  | .fd rawFd (some writeFd) true =>
      if writeFd = rawFd then do
        let _ ← sys (.shutdownWrite writeFd)
        pure s
      else do
        wcatCloseQuiet writeFd
        pure { s with io := .fd rawFd none true }
  | .fd _ _ _ => pure s
  | .tls t => do
      wcatTlsShutdownWrite t
      pure s

/-- `s->pending`, of a stream that has one. -/
def pending : Proc ℕ :=
  match s.io with
  | .fd _ _ _ => pure 0
  | .tls t => wcatTlsPending t

/-- `stream_tick`. -/
def tick : Proc Bool :=
  match s.io with
  | .fd _ _ _ => pure true
  | .tls t => wcatTlsTick t

/-- `s->tick != NULL`. -/
def hasTick : Bool :=
  match s.io with
  | .fd _ _ _ => false
  | .tls _ => true

end Stream

/-! ### One chunk -/

/-- `WCAT_BUFSIZE`. -/
def wcatBufsize : ℕ := 16384

/-- `wcat_relay_options`. -/
structure RelayOptions where
  timeoutMs : ℤ
  hex : Bool

/-- The options a configuration asks for. -/
def Config.relayOptions (cfg : Config) : RelayOptions := ⟨cfg.timeoutMs, cfg.hex⟩

/-- What `pump_once` returns. -/
inductive PumpResult
  /-- `1` -/
  | more
  /-- `0` -/
  | ended
  /-- `-1` -/
  | failed
  deriving DecidableEq

/-- `pump_once`. -/
def pumpOnce (src dst : Stream) (label : String) (opts : RelayOptions) : Proc PumpResult := do
  let r ← Prog.loop (fun _ => do
    match ← src.read wcatBufsize with
    | .error .eintr => pure (.inl ())
    | r => pure (.inr r)) ()
  match r with
  | .error .eio => pure .ended
  | .error .eagain => pure .more
  | .error _ | .eof => pure .ended
  | .data buf _ _ => do
      let _ ← (if opts.hex then sys (.hexdump label buf) else pure ())
      let n ← dst.write buf
      if n ≠ some buf.length then pure .failed else pure .more

/-- `wcat_copy_stream`: whether it returned `0`. -/
def wcatCopyStream (src dst : Stream) (opts : RelayOptions) : Proc Bool :=
  Prog.loop (fun _ => do
    if ← sys .stop then pure (.inr true)
    else
      match ← pumpOnce src dst "copy" opts with
      | .more => pure (.inl ())
      | .ended => pure (.inr true)
      | .failed => pure (.inr false)) ()

/-! ### Both ways -/

/-- The state of a relay at its loop head: the two streams, and which of them are
still read. -/
structure RelayState where
  a : Stream
  b : Stream
  aActive : Bool
  bActive : Bool

/-- The two directions of a relay. -/
inductive Dir
  | ab | ba
  deriving DecidableEq

namespace RelayState

variable (s : RelayState)

/-- The stream a direction reads. -/
def src : Dir → Stream
  | .ab => s.a
  | .ba => s.b

/-- The stream a direction writes. -/
def dst : Dir → Stream
  | .ab => s.b
  | .ba => s.a

/-- Whether the source of a direction is still read. -/
def active : Dir → Bool
  | .ab => s.aActive
  | .ba => s.bActive

/-- Replace the stream a direction writes. -/
def setDst : Dir → Stream → RelayState
  | .ab, t => { s with b := t }
  | .ba, t => { s with a := t }

/-- Stop reading the source of a direction. -/
def deactivate : Dir → RelayState
  | .ab => { s with aActive := false }
  | .ba => { s with bActive := false }

end RelayState

/-- The label a direction is dumped under. -/
def Dir.label : Dir → String
  | .ab => "a>b"
  | .ba => "b>a"

/-- A pump and what its four call sites do with the result: the state to go on with,
or the result of the relay. -/
def pumpDir (d : Dir) (opts : RelayOptions) (s : RelayState) : Proc (RelayState ⊕ Bool) := do
  match ← pumpOnce (s.src d) (s.dst d) d.label opts with
  | .more => pure (.inl s)
  | .failed => pure (.inr false)
  | .ended => do
      let t ← (s.dst d).shutdownWrite
      let s := s.setDst d t
      if (s.src d).closeOnEof then pure (.inr true) else pure (.inl (s.deactivate d))

/-- The timeout of one poll: a stream with a tick is polled in slices of 50 ms. -/
def pollTimeout (timeout : ℤ) (s : RelayState) : ℤ :=
  if (s.a.hasTick || s.b.hasTick) && (timeout < 0 || 50 < timeout) then 50 else timeout

/-- The entry of a stream in the array given to `poll`. -/
def pollEntry (fd : Fd) (active : Bool) : PollFd :=
  { fd := if active then some fd else none, pollin := active }

/-- The two pumps after a poll, of the streams that are readable or hung up. -/
def pumpReady (ra rb : Revents) (opts : RelayOptions) (s : RelayState) :
    Proc (RelayState ⊕ Bool) := do
  match ← (if ra.pollin || ra.pollhup then pumpDir .ab opts s else pure (.inl s)) with
  | .inr result => pure (.inr result)
  | .inl s => if rb.pollin || rb.pollhup then pumpDir .ba opts s else pure (.inl s)

/-- The part of a round that polls; `af` and `bf` are the descriptors of the streams
as they were when the loop was entered. -/
def pollRound (af bf : Fd) (opts : RelayOptions) (s : RelayState) : Proc (RelayState ⊕ Bool) := do
  let timeout := pollTimeout opts.timeoutMs s
  match ← sys (.poll [pollEntry af s.aActive, pollEntry bf s.bActive] timeout) with
  | .error .eintr => pure (.inl s)
  | .error _ => pure (.inr false)
  | .timeout =>
      if timeout ≠ opts.timeoutMs then pure (.inl s)
      else do
        sys (.log .warn "timeout" "relay timed out" [])
        pure (.inr true)
  | .ready revents _ _ _ => pumpReady (revents.getD 0 .none) (revents.getD 1 .none) opts s

/-- Whether a stream that is still read has bytes buffered. -/
def hasPending (active : Bool) (t : Stream) : Proc Bool := do
  if active then
    let n ← t.pending
    pure (0 < n)
  else pure false

/-- `stream_tick (a) < 0 || stream_tick (b) < 0`, negated. -/
def tickBoth (s : RelayState) : Proc Bool := do
  if ← s.a.tick then s.b.tick else pure false

/-- One round of the loop of `wcat_relay_bidirectional`: streams with bytes buffered
are pumped first, and only then are the descriptors polled. -/
def relayRound (af bf : Fd) (opts : RelayOptions) (s : RelayState) :
    Proc (RelayState ⊕ Bool) := do
  if ← sys .stop then pure (.inr true)
  else if !s.aActive && !s.bActive then pure (.inr true)
  else if !(← tickBoth s) then pure (.inr false)
  else if ← hasPending s.aActive s.a then pumpDir .ab opts s
  else if ← hasPending s.bActive s.b then pumpDir .ba opts s
  else pollRound af bf opts s

/-- `wcat_relay_bidirectional`: whether it returned `0`. -/
def wcatRelayBidirectional (a b : Stream) (opts : RelayOptions) : Proc Bool :=
  Prog.loop (relayRound a.fd b.fd opts) ⟨a, b, true, true⟩

end Wirecat
