import Wirecat.Socketx

/-!
# The broker

`src/broker.c`: every chunk read from a client is queued for all the other clients,
and each queue is written out as its client accepts it.

The clients live in slots. A slot whose descriptor is `-1` is free, and a slot is
used again by the next client that joins, so what a former owner left there has to
be gone by then (`Wirecat.dropClient` resets it).

A queue is an array with two offsets, `out_len` and `out_off`; its pending part is
what lies between them (`Wirecat.BrokerClient.pending`). The array is only moved
down when something is queued, and its capacity is whatever the last `realloc` made
it, so the bytes above `out_len` mean nothing.

With `--chat` a chunk is rendered first (`Wirecat.formatChatMessage`): every line of
a sender begins with its label, and control characters are escaped. Whether a sender
is at the start of a line is remembered with the *sender*, not with those who read
it.
-/

namespace Wirecat

open CString Interaction

/-- `SIZE_MAX`. -/
def sizeMax : ℕ := 2 ^ 64 - 1

/-! ### Clients -/

/-- `broker_client`. -/
structure BrokerClient where
  fd : Option Fd := none
  id : ℕ := 0
  lineStart : Bool := true
  out : Bytes := []
  outLen : ℕ := 0
  outOff : ℕ := 0

/-- `client_init`, and what `drop_client` makes of a slot. -/
def clientInit : BrokerClient := {}

/-- `out[out_off .. out_len)`. -/
def BrokerClient.pending (c : BrokerClient) : Bytes := (c.out.take c.outLen).drop c.outOff

/-- The variables of `wcat_broker_run` that change: the slots, and the number of the
next client, an `unsigned int`. -/
structure BrokerState where
  clients : ℕ → BrokerClient
  nextId : ℕ

/-- Store a client in slot `i`. -/
def BrokerState.set (s : BrokerState) (i : ℕ) (c : BrokerClient) : BrokerState :=
  { s with clients := Function.update s.clients i c }

/-- Give the free slot `i` to a new client. -/
def BrokerState.join (s : BrokerState) (i : ℕ) (fd : Fd) : BrokerState :=
  { s.set i { s.clients i with fd := some fd, id := s.nextId, lineStart := true } with
    nextId := (s.nextId + 1) % 2 ^ 32 }

/-- The state before the first client. -/
def brokerInit : BrokerState := ⟨fun _ => clientInit, 1⟩

/-- `drop_client`. -/
def dropClient (s : BrokerState) (i : ℕ) : Proc BrokerState := do
  wcatCloseQuiet? (s.clients i).fd
  pure (s.set i clientInit)

/-! ### Chat messages -/

/-- The message `format_chat_message` is building: the bytes so far, the capacity of
their array, and `sender->line_start`. -/
structure ChatBuffer where
  out : Bytes := []
  cap : ℕ := 0
  lineStart : Bool

/-- The capacity `append_bytes` grows an array to: doubled, `fuel` times at most, until
`need` fits. -/
def growCap : ℕ → ℕ → ℕ → ℕ
  | 0, cap, _ => cap
  | fuel + 1, cap, need =>
      if cap < need then
        if sizeMax / 2 < cap then need else growCap fuel (2 * cap) need
      else cap

/-- `append_bytes`, or `none` for `-1`. A capacity of 128 or more cannot be doubled 64
times before it is `SIZE_MAX`. -/
def appendBytes (b : ChatBuffer) (buf : Bytes) : Proc (Option ChatBuffer) := do
  if buf.length = 0 then pure (some b)
  else if sizeMax - b.out.length < buf.length then pure none
  else if b.out.length + buf.length ≤ b.cap then pure (some { b with out := b.out ++ buf })
  else do
    let nextCap := growCap 64 (if b.cap = 0 then 128 else b.cap) (b.out.length + buf.length)
    if ← sys (.realloc nextCap) then pure (some { b with out := b.out ++ buf, cap := nextCap })
    else pure none

/-- The label of a client, `<client%u> `. -/
def chatLabel (id : ℕ) : Bytes := lit "<client" ++ decimal id ++ lit "> "

/-- How a byte of a chunk is rendered. -/
def chatByte (c : UInt8) : Bytes :=
  if c = chr '\n' then [c]
  else if c = chr '\t' then [c]
  else if c = chr '\r' then lit "\\r"
  else if c < 32 ∨ c = 127 then lit "\\x" ++ [hexChar (c.toNat / 16), hexChar (c.toNat % 16)]
  else [c]

/-- One round of the loop of `format_chat_message`: the label if a line starts here,
and the byte. -/
def formatChatByte (id : ℕ) (c : UInt8) (b : ChatBuffer) : Proc (Option ChatBuffer) := do
  let labelled ← (if b.lineStart then
      if 32 ≤ (chatLabel id).length then pure none else appendBytes b (chatLabel id)
    else pure (some b))
  match labelled with
  | none => pure none
  | some b =>
      let appended ← appendBytes b (chatByte c)
      pure (appended.map fun b => { b with lineStart := decide (c = chr '\n') })

/-- `format_chat_message`: the message and `sender->line_start` after it, or `none` for
`NULL`, which is also what an array that was never allocated is. -/
def formatChatMessage (sender : BrokerClient) (buf : Bytes) : Proc (Option (Bytes × Bool)) := do
  let b ← Prog.forEach buf (fun c b =>
    match b with
    | none => pure none
    | some b => formatChatByte sender.id c b) (some { lineStart := sender.lineStart })
  pure (b.bind fun b => if b.cap = 0 then none else some (b.out, b.lineStart))

/-! ### Queues -/

/-- How `queue_bytes` moves the pending bytes to the front of the array, which keeps its
length, or forgets the offsets when nothing is pending. -/
def BrokerClient.compact (c : BrokerClient) : BrokerClient :=
  if 0 < c.outOff ∧ c.outOff < c.outLen then
    { c with
      out := overlay c.out c.pending
      outLen := c.outLen - c.outOff
      outOff := 0 }
  else if c.outLen - c.outOff = 0 then { c with outLen := 0, outOff := 0 }
  else c

/-- `queue_bytes`: whether it returned `0`, and the client as it leaves it, also when it fails. -/
def queueBytesLeaves (c : BrokerClient) (buf : Bytes) (maxBuffer : ℕ) :
    Proc (Bool × BrokerClient) := do
  let pending := c.outLen - c.outOff
  if maxBuffer < buf.length ∨ maxBuffer - buf.length < pending then pure (false, c)
  else
    let c := c.compact
    if ← sys (.realloc (c.outLen + buf.length)) then
      pure (true, { c with out := c.out.take c.outLen ++ buf, outLen := c.outLen + buf.length })
    else pure (false, c)

/-- `queue_bytes`: the client with `buf` queued, or `none` for `-1`. -/
def queueBytes (c : BrokerClient) (buf : Bytes) (maxBuffer : ℕ) : Proc (Option BrokerClient) := do
  let (queued, c) ← queueBytesLeaves c buf maxBuffer
  pure (if queued then some c else none)

/-- `flush_client` on the descriptor `fd` of the client, or `none` for `-1`. -/
def flushClient (fd : Fd) (c : BrokerClient) : Proc (Option BrokerClient) :=
  Prog.loop (fun c : BrokerClient => do
    if c.outOff < c.outLen then
      match ← sys (.write .broker fd c.pending) with
      | .error .eintr => pure (.inl c)
      | .error .eagain => pure (.inr (some c))
      | .error _ => pure (.inr none)
      | .wrote 0 _ => pure (.inr (some c))
      | .wrote (n + 1) _ => pure (.inl { c with outOff := c.outOff + (n + 1) })
    else pure (.inr (some { c with outLen := 0, outOff := 0 }))) c

/-! ### A round -/

/-- The array polled: the listener, then the clients, for writing too where something is
pending. -/
def brokerPollFds (listener : Fd) (maxClients : ℕ) (s : BrokerState) : List PollFd :=
  { fd := some listener, pollin := true } ::
    ((List.range maxClients).filter fun i => (s.clients i).fd.isSome).map fun i =>
      { fd := (s.clients i).fd, pollin := true,
        pollout := (s.clients i).outOff < (s.clients i).outLen }

/-- The first free slot. -/
def freeSlot (maxClients : ℕ) (s : BrokerState) : Option ℕ :=
  (List.range maxClients).find? fun i => (s.clients i).fd.isNone

/-- A connection is waiting: it joins, or is closed again because the limit is reached.
The result is `none` when access is denied to it, which ends the round. -/
def brokerAccept (cfg : Config) (listener : Fd) (maxClients : ℕ) (s : BrokerState) :
    Proc (Option BrokerState) := do
  match ← wcatAccept listener (some (128, 32)) with
  | none => pure (some s)
  | some peer =>
      if !(← wcatAccessCheckFd cfg peer.fd) then do
        wcatCloseQuiet peer.fd
        pure none
      else
        match freeSlot maxClients s with
        | none => do
            sys (.log .warn "broker_full" "broker client limit reached" [])
            wcatCloseQuiet peer.fd
            pure (some s)
        | some i => do
            let _ ← sys (.setNonblock peer.fd true)
            sys (.log .info "broker_join" "client %s:%s joined" [.str peer.host, .str peer.port])
            pure (some (s.join i peer.fd))

/-- The loop that queues a message for every client but the sender `i`; a client it does
not fit is dropped. -/
def brokerBroadcast (maxClients maxBuffer i : ℕ) (buf : Bytes) (s : BrokerState) :
    Proc BrokerState :=
  Prog.forRange maxClients (fun j s => do
    if (s.clients j).fd.isSome ∧ j ≠ i then
      match ← queueBytes (s.clients j) buf maxBuffer with
      | some c => pure (s.set j c)
      | none => do
          sys (.log .warn "broker_drop" "dropping slow broker client" [])
          dropClient s j
    else pure s) s

/-- What the broker logs when a chunk could not be rendered. -/
def chatFailure : Sys :=
  .log .warn "broker_drop" "dropping broker client after chat format failure" []

/-- A chunk from client `i`. -/
def brokerChunk (cfg : Config) (maxClients maxBuffer i : ℕ) (buf : Bytes) (s : BrokerState) :
    Proc BrokerState := do
  let _ ← (if cfg.hex then sys (.hexdump "broker" buf) else pure ())
  if cfg.chat then
    match ← formatChatMessage (s.clients i) buf with
    | none => do
        let _ ← sys chatFailure
        dropClient s i
    | some (message, lineStart) =>
        brokerBroadcast maxClients maxBuffer i message
          (s.set i { s.clients i with lineStart := lineStart })
  else brokerBroadcast maxClients maxBuffer i buf s

/-- `WCAT_BROKER_BUF`. -/
def brokerBuf : ℕ := 4096

/-- Reading from client `i` on its descriptor `fd`. -/
def brokerRead (cfg : Config) (maxClients maxBuffer i : ℕ) (fd : Fd) (s : BrokerState) :
    Proc BrokerState := do
  let r ← Prog.loop (fun _ => do
    match ← sys (.read .broker fd brokerBuf 0 brokerBuf) with
    | .error .eintr => pure (.inl ())
    | r => pure (.inr r)) ()
  match r with
  | .error .eagain => pure s
  | .error _ | .eof => dropClient s i
  | .data bytes _ _ => brokerChunk cfg maxClients maxBuffer i bytes s

/-- The events `poll` reported for a descriptor, if it was in the array. -/
def polledEvents (polled : List (PollFd × Revents)) (fd : Fd) : Option Revents :=
  (polled.find? fun p => p.1.fd = some fd).map Prod.snd

/-- What is done for slot `i` after `poll` reported `polled` for the clients. -/
def brokerSlot (cfg : Config) (maxClients maxBuffer : ℕ) (polled : List (PollFd × Revents)) (i : ℕ)
    (s : BrokerState) : Proc BrokerState := do
  match (s.clients i).fd with
  | none => pure s
  | some fd =>
      match polledEvents polled fd with
      | none => pure s
      | some r =>
          if r.pollerr || r.pollnval then dropClient s i
          else do
            let flushed ← (if r.pollout then flushClient fd (s.clients i)
              else pure (some (s.clients i)))
            match flushed with
            | none => dropClient s i
            | some c =>
                if r.pollin || r.pollhup then
                  brokerRead cfg maxClients maxBuffer i fd (s.set i c)
                else pure (s.set i c)

/-- The limit of clients, an `int` that was checked. -/
def Config.maxClients (cfg : Config) : ℕ := cfg.brokerMaxClients.toNat

/-- `(size_t)cfg->broker_buffer_bytes`. -/
def Config.maxBuffer (cfg : Config) : ℕ := (cfg.brokerBufferBytes % 2 ^ 64).toNat

/-- **A round of the broker**: wait, let a client join, and serve every slot. It leaves
the loop with the exit status and the slots. -/
def brokerRound (cfg : Config) (listener : Fd) (s : BrokerState) :
    Proc (BrokerState ⊕ (ℕ × BrokerState)) := do
  if ← sys .stop then pure (.inr (0, s))
  else
    match ← sys (.poll (brokerPollFds listener cfg.maxClients s)
        (if 0 ≤ cfg.timeoutMs then cfg.timeoutMs else 250)) with
    | .error .eintr => pure (.inl s)
    | .error _ => do
        sys (.logErrno "broker_poll" (lit "broker poll failed"))
        pure (.inr (1, s))
    | .timeout => pure (.inl s)
    | .ready revents _ _ _ => do
        let joined ← (if (revents.headD .none).pollin then
            brokerAccept cfg listener cfg.maxClients s
          else pure (some s))
        match joined with
        | none => pure (.inl s)
        | some s' => do
            let polled := ((brokerPollFds listener cfg.maxClients s).zip revents).tail
            let s' ← Prog.forRange cfg.maxClients
              (brokerSlot cfg cfg.maxClients cfg.maxBuffer polled) s'
            pure (.inl s')

/-- `WCAT_BROKER_LIMIT`. -/
def brokerLimit : ℤ := 256

/-- `wcat_broker_run` up to its loop: the listener, or the exit status where there is
none. -/
def brokerOpen (cfg : Config) : Proc (Except ℕ Fd) := do
  if cfg.brokerMaxClients < 1 ∨ brokerLimit < cfg.brokerMaxClients then do
    sys (.log .error "broker_config" "invalid broker client limit" [])
    pure (.error 2)
  else
    match ← openListener cfg with
    | none => do
        sys (.logErrno "listen" (lit "broker listen failed"))
        pure (.error 1)
    | some listener => do
        let _ ← (if cfg.unixSocket then
            sys (.log .info "broker_listen" "broker listening on unix:%s" [.str cfg.hostArg])
          else sys (.log .info "broker_listen" "broker listening on %s:%s"
            [.str cfg.hostArg, .str cfg.portArg]))
        pure (.ok listener)

/-- `wcat_broker_run`: the exit status. -/
def wcatBrokerRun (cfg : Config) : Proc ℕ := do
  match ← brokerOpen cfg with
  | .error status => pure status
  | .ok listener => do
      let (result, s) ← Prog.loop (brokerRound cfg listener) brokerInit
      let _ ← Prog.forRange cfg.maxClients (fun i s =>
        if (s.clients i).fd.isSome then dropClient s i else pure s) s
      wcatCloseQuiet listener
      pure result

end Wirecat
