import Wirecat.Prompt

/-!
# The multi-session listener

`run_multi_listen`: a loop around `poll` that accepts peers, hands what the operator
types to one of the handlers of `Wirecat.Prompt`, and prints what the sessions send.

Which handler gets the input is decided once for a whole `read`. What the attached
session sends is printed without labels, and what it merely echoes is left out; what
the others send is printed line by line under their labels. A session that begins with
an HTTP request is printed once and closed.
-/

namespace Wirecat

open CString Interaction

/-! ### Accepting -/

/-- The array polled: the listener, standard input, and the sessions. -/
def multiPollFds (listener : Fd) (max : ℕ) (s : MultiState) : List PollFd :=
  { fd := some listener, pollin := true } :: { fd := some .stdin, pollin := true } ::
    ((List.range max).filter fun i => (s.sessions i).live).map fun i =>
      { fd := (s.sessions i).fd, pollin := true }

/-- A peer that was accepted becomes the session in slot `i`. -/
def MultiState.join (s : MultiState) (i : ℕ) (peer : Peer) : MultiState :=
  let session := { s.sessions i with
    fd := some peer.fd
    id := s.nextId
    lineStart := true
    host := if peer.host.isEmpty then lit "peer" else peer.host
    port := if peer.port.isEmpty then lit "0" else peer.port }
  { s.set i session with
    nextId := (s.nextId + 1) % 2 ^ 32
    activeId := if s.activeId = 0 then s.nextId else s.activeId }

/-- A connection is waiting. -/
def multiAccept (cfg : Config) (listener : Fd) (max : ℕ) (s : MultiState) : Proc MultiState := do
  match ← wcatAccept listener (some (128, 32)) with
  | none => pure s
  | some peer =>
      if !(← wcatAccessCheckFd cfg peer.fd) then do
        wcatCloseQuiet peer.fd
        pure s
      else
        match (List.range max).find? fun i => !(s.sessions i).live with
        | none => do
            sys (.log .warn "multi_full" "multi session limit reached" [])
            wcatCloseQuiet peer.fd
            pure s
        | some i => do
            let s := s.join i peer
            let row := (s.sessions i).row
            sys (.log .info "multi_join" "session %u accepted from %s:%s"
              [.num row.id, .str row.host, .str row.port])
            if s.attachedId = 0 then do
              sys (.tty .newline)
              multiPrintPrompt s.activeId
              pure s
            else pure s

/-! ### Serving the sessions -/

/-- The active session is repaired after a close: another one takes its place when it is
gone. -/
def MultiState.repairGone (s : MultiState) (max : ℕ) : MultiState :=
  if s.activeId ≠ 0 ∧ (multiFindById s max s.activeId).isNone then
    { s with activeId := multiFirstSessionId s max }
  else s

/-- The session in slot `i` is closed because its peer is gone. -/
def multiLeave (max i : ℕ) (s : MultiState) : Proc MultiState := do
  let id := (s.sessions i).id
  sys (.log .info "multi_leave" "session %u closed" [.num id])
  let s := if s.attachedId = id then { s with attachedId := 0 } else s
  let s := (← multiSessionClose s i).repairGone max
  if s.attachedId = 0 then do
    multiPrintPrompt s.activeId
    pure s
  else pure s

/-- What the session in slot `i` sent is printed: without labels and echoes for the attached
one. The result says whether that succeeded. -/
def multiOutput (i : ℕ) (buf : Bytes) (s : MultiState) : Proc (MultiState × Bool) := do
  if s.attachedId = (s.sessions i).id then do
    let echo ← multiWriteAttachedOutput buf s.echoPending
    let s := s.set i { s.sessions i with lineStart := true }
    match echo with
    | some echo => pure ({ s with echoPending := echo }, true)
    | none => pure (s, false)
  else do
    let (session, ok) ← multiWriteOutput (s.sessions i) buf false
    pure (s.set i session, ok)

/-- Printing failed: the listener stops. The result `.error` leaves the loop over the
slots. -/
def multiOutputFailed (s : MultiState) : Proc (Except MultiState MultiState) := do
  sys .raiseStop
  pure (.error { s with result := 1 })

/-- The session in slot `i` began with an HTTP request: it is printed and closed. -/
def multiHttp (cfg : Config) (interactive : Bool) (max i : ℕ) (buf : Bytes) (s : MultiState) :
    Proc (Except MultiState MultiState) := do
  let _ ← (if interactive ∧ s.attachedId = 0 then sys (.tty .clearLine) else pure ())
  let session := s.sessions i
  let s := s.set i { session with rxBytes := (session.rxBytes + buf.length) % 2 ^ 64 }
  let _ ← (if cfg.hex then sys (.hexdump "multi" buf) else pure ())
  let attached := s.attachedId = session.id
  let (s, ok) ← multiOutput i buf s
  let s := if attached then { s with attachedId := 0 } else s
  if !ok then multiOutputFailed s
  else do
    let lineStart := (s.sessions i).lineStart
    sys (.log .info "multi_leave" "session %u closed" [.num session.id])
    let s := (← multiSessionClose s i).repairGone max
    let _ ← (if interactive ∧ s.attachedId = 0 then do
        let _ ← (if !lineStart then sys (.tty .newline) else pure ())
        multiRedrawInput s
      else if s.attachedId = 0 then multiPrintPrompt s.activeId
      else pure ())
    pure (.ok s)

/-- What the session in slot `i` sent is counted and printed. -/
def multiData (cfg : Config) (interactive : Bool) (i : ℕ) (buf : Bytes) (s : MultiState) :
    Proc (Except MultiState MultiState) := do
  let session := s.sessions i
  let s := s.set i { session with rxBytes := (session.rxBytes + buf.length) % 2 ^ 64 }
  let _ ← (if cfg.hex then sys (.hexdump "multi" buf) else pure ())
  let _ ← (if interactive ∧ s.attachedId = 0 then sys (.tty .clearLine) else pure ())
  let (s, ok) ← multiOutput i buf s
  if !ok then multiOutputFailed s
  else do
    let _ ← (if interactive ∧ s.attachedId = 0 then do
        let _ ← (if !(s.sessions i).lineStart then sys (.tty .newline) else pure ())
        multiRedrawInput s
      else pure ())
    pure (.ok s)

/-- `WCAT_MULTI_BUFSIZE`. -/
def multiBufsize : ℕ := 4096

/-- Reading from the session in slot `i` on its descriptor `fd`. -/
def multiRead (cfg : Config) (interactive : Bool) (max i : ℕ) (fd : Fd) (s : MultiState) :
    Proc (Except MultiState MultiState) := do
  let r ← Prog.loop (fun _ => do
    match ← sys (.read .multi fd multiBufsize 0 multiBufsize) with
    | .error .eintr => pure (.inl ())
    | r => pure (.inr r)) ()
  match r with
  | .error _ | .eof => do
      let s ← multiLeave max i s
      pure (.ok s)
  | .data buf _ _ =>
      if (s.sessions i).rxBytes = 0 ∧ multiLooksHttpRequest buf then
        multiHttp cfg interactive max i buf s
      else multiData cfg interactive i buf s

/-- What is done for slot `i` after `poll` reported `polled` for the sessions. -/
def multiSlot (cfg : Config) (interactive : Bool) (max : ℕ) (polled : List (PollFd × Revents))
    (i : ℕ) (s : MultiState) : Proc (Except MultiState MultiState) := do
  match (s.sessions i).fd with
  | none => pure (.ok s)
  | some fd =>
      match (polled.find? fun p => p.1.fd = some fd).map Prod.snd with
      | none => pure (.ok s)
      | some r =>
          if r.pollerr || r.pollnval then do
            let s ← multiLeave max i s
            pure (.ok s)
          else if r.pollin || r.pollhup then multiRead cfg interactive max i fd s
          else pure (.ok s)

/-- The loop over the slots. A failure to print leaves it, and the slots that are left are not
served. -/
def multiSlots (cfg : Config) (interactive : Bool) (max : ℕ) (polled : List (PollFd × Revents))
    (s : MultiState) : Proc (Except MultiState MultiState) :=
  Prog.forRange max (fun i (r : Except MultiState MultiState) => match r with
    | .ok s => multiSlot cfg interactive max polled i s
    | .error s => pure (.error s)) (.ok s)

/-! ### A round -/

/-- Handing standard input to one of the handlers. -/
def multiStdin (interactive : Bool) (max : ℕ) (s : MultiState) : Proc MultiState :=
  if s.attachedId ≠ 0 then multiHandleAttachedStdin max s
  else if interactive then multiHandleInteractiveStdin max s
  else multiHandleStdin max s

/-- **A round of the listener**: wait, accept, read what the operator types, and serve every
slot. It leaves the loop with the state. -/
def multiRound (cfg : Config) (interactive : Bool) (listener : Fd) (s : MultiState) :
    Proc (MultiState ⊕ MultiState) := do
  let max := cfg.brokerMaxClients.toNat
  if ← sys .stop then pure (.inr s)
  else
    match ← sys (.poll (multiPollFds listener max s)
        (if 0 ≤ cfg.timeoutMs then cfg.timeoutMs else 250)) with
    | .error .eintr => pure (.inl s)
    | .error _ => do
        sys (.logErrno "multi_poll" (lit "multi poll failed"))
        pure (.inr { s with result := 1 })
    | .timeout => pure (.inl s)
    | .ready revents _ _ _ => do
        let polled := (multiPollFds listener max s).zip revents
        let s ← (if (revents.headD .none).pollin then multiAccept cfg listener max s else pure s)
        let s ← (if (revents.getD 1 .none).pollin then multiStdin interactive max s else pure s)
        match ← multiSlots cfg interactive max (polled.drop 2) s with
        | .ok s | .error s => pure (.inl s)

/-- Putting the terminal into raw input: whether that was done. -/
def multiRawInput : Proc Bool := do
  if ← sys (.isatty .stdin) then
    if ← sys .tcgetattr then sys (.tcsetattr true) else pure false
  else pure false

/-- `WCAT_MULTI_LIMIT`. -/
def multiLimit : ℤ := 256

/-- `run_multi_listen` up to its loop: the listener and whether the line editor is used, or
the exit status. -/
def multiOpen (cfg : Config) : Proc (Except ℕ (Fd × Bool)) := do
  if cfg.brokerMaxClients < 1 ∨ multiLimit < cfg.brokerMaxClients then do
    sys (.log .error "multi_config" "invalid multi session limit" [])
    pure (.error 2)
  else
    match ← openListener cfg with
    | none => do
        sys (.logErrno "listen" (lit "multi listen failed"))
        pure (.error 1)
    | some listener => do
        let interactive ← multiRawInput
        sys (.log .info "multi_listen" "multi listener ready; use :help for commands" [])
        let _ ← (if interactive then multiRedrawInput multiInit
          else multiPrintPrompt multiInit.activeId)
        pure (.ok (listener, interactive))

/-- `run_multi_listen`: the exit status. -/
def runMultiListen (cfg : Config) : Proc ℕ := do
  match ← multiOpen cfg with
  | .error status => pure status
  | .ok (listener, interactive) => do
      let s ← Prog.loop (multiRound cfg interactive listener) multiInit
      let _ ← Prog.forRange cfg.brokerMaxClients.toNat (fun i s =>
        if (s.sessions i).live then multiSessionClose s i else pure s) s
      let _ ← (if interactive then sys (.tcsetattr false) else pure true)
      wcatCloseQuiet listener
      pure s.result

end Wirecat
