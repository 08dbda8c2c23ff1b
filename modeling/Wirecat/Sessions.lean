import Wirecat.Socketx

/-!
# Sessions

The table of the multi-session listener (`src/main.c`): one process serves several
peers, and the operator at its terminal types for one of them at a time.

A session is known to the operator by its number, and to the code by its slot; what
takes a number finds the slot first (`Wirecat.multiFindById`). Two numbers are
remembered between rounds: that of the **active** session, which plain lines are sent
to, and that of the **attached** one, whose peer the terminal belongs to. Zero is no
session.

This file has the table itself, what is sent to a session, and what is printed of what
a session sent.
-/

namespace Wirecat

open CString Interaction

/-! ### The table -/

/-- `multi_session`. -/
structure MultiSession where
  fd : Option Fd := none
  id : ℕ := 0
  name : Bytes := []
  host : Bytes := []
  port : Bytes := []
  rxBytes : ℕ := 0
  txBytes : ℕ := 0
  lineStart : Bool := true
  deriving DecidableEq

/-- `multi_session_init`, and what `multi_session_close` makes of a slot. -/
def multiSessionInit : MultiSession := {}

/-- `esc_state`: where the line editor is in an escape sequence. -/
inductive EscState
  /-- `0`: in none. -/
  | ground
  /-- `1`: after an escape. -/
  | escape
  /-- `2`: after `ESC [`. -/
  | bracket
  /-- `3`: after `ESC O`. -/
  | letterO
  /-- `100 + digit`: after `ESC [` and a digit. -/
  | digit (c : UInt8)
  /-- `99`: in a sequence that is skipped. -/
  | skip
  deriving DecidableEq

/-- The variables of `run_multi_listen` that change. The arrays are the lists of what they
hold: `input` is `input[0 .. input_len)`, and so on. -/
structure MultiState where
  sessions : ℕ → MultiSession
  nextId : ℕ := 1
  activeId : ℕ := 0
  attachedId : ℕ := 0
  input : Bytes := []
  inputCursor : ℕ := 0
  escState : EscState := .ground
  inputHistory : List Bytes := []
  /-- `input_history_pos`, `none` for `-1`. -/
  inputHistoryPos : Option ℕ := none
  attachedLine : Bytes := []
  attachedLineHeld : Bool := true
  echoPending : Bytes := []
  result : ℕ := 0

/-- The state before the first round. -/
def multiInit : MultiState := { sessions := fun _ => multiSessionInit }

/-- Store a session in slot `i`. -/
def MultiState.set (s : MultiState) (i : ℕ) (session : MultiSession) : MultiState :=
  { s with sessions := Function.update s.sessions i session }

/-- `multi_session_close`. -/
def multiSessionClose (s : MultiState) (i : ℕ) : Proc MultiState := do
  wcatCloseQuiet? (s.sessions i).fd
  pure (s.set i multiSessionInit)

/-- Whether a slot is in use. -/
def MultiSession.live (session : MultiSession) : Bool := session.fd.isSome

/-- `multi_find_by_id`: the first slot of the session, `none` for `-1`. -/
def multiFindById (s : MultiState) (max id : ℕ) : Option ℕ :=
  (List.range max).find? fun i => (s.sessions i).live && (s.sessions i).id = id

/-- The number of the first live session among these slots, `0` when there is none. -/
def firstLiveId (s : MultiState) (slots : List ℕ) : ℕ :=
  match slots.find? fun i => (s.sessions i).live with
  | some i => (s.sessions i).id
  | none => 0

/-- `multi_first_session_id`. -/
def multiFirstSessionId (s : MultiState) (max : ℕ) : ℕ := firstLiveId s (List.range max)

/-- `multi_next_session_id`: from the slot after the active session on, and round again. -/
def multiNextSessionId (s : MultiState) (max activeId : ℕ) : ℕ :=
  match multiFindById s max activeId with
  | none => multiFirstSessionId s max
  | some k =>
      match ((List.range max).drop (k + 1)).find? fun i => (s.sessions i).live with
      | some i => (s.sessions i).id
      | none => multiFirstSessionId s max

/-- `multi_prev_session_id`: from the slot before the active session down, and round again. -/
def multiPrevSessionId (s : MultiState) (max activeId : ℕ) : ℕ :=
  match multiFindById s max activeId with
  | none => multiFirstSessionId s max
  | some k =>
      match (List.range k).reverse.find? fun i => (s.sessions i).live with
      | some i => (s.sessions i).id
      | none => firstLiveId s (List.range max).reverse

/-- `multi_session_label`. -/
def multiSessionLabel (session : MultiSession) : Bytes :=
  if session.name.isEmpty then lit "peer" else session.name

/-- A session as it is shown. -/
def MultiSession.row (session : MultiSession) : SessionRow :=
  ⟨session.id, multiSessionLabel session, session.host, session.port⟩

/-! ### Sending -/

/-- `multi_send_line` to the session in slot `i`, or `none` for `-1`. -/
def multiSendLine (s : MultiState) (i : ℕ) (line : Bytes) : Proc (Option MultiState) := do
  match (s.sessions i).fd with
  | none => pure none
  | some fd =>
      let n ← wcatFullWrite .multi fd line
      if n ≠ some line.length then pure none
      else
        let session := s.sessions i
        pure (some (s.set i { session with txBytes := (session.txBytes + line.length) % 2 ^ 64 }))

/-- `(void)multi_send_line`. -/
def multiSendLine' (s : MultiState) (i : ℕ) (line : Bytes) : Proc MultiState := do
  pure ((← multiSendLine s i line).getD s)

/-- `multi_broadcast`. -/
def multiBroadcast (max : ℕ) (line : Bytes) (s : MultiState) : Proc MultiState :=
  Prog.forRange max (fun i s => do
    if (s.sessions i).live then
      match ← multiSendLine s i line with
      | some s => pure s
      | none => do
          sys (.log .warn "multi_drop" "dropping failed session %u" [.num (s.sessions i).id])
          multiSessionClose s i
    else pure s) s

/-! ### What a session sent -/

/-- The label of the lines of a session. -/
def outputPrefix (session : MultiSession) : Bytes :=
  lit "[session" ++ decimal session.id ++ lit " " ++ multiSessionLabel session ++ lit " " ++
    session.host ++ lit ":" ++ session.port ++ lit "] "

/-- The next piece of `buf` that `multi_write_output` writes: to the end of the line, or all
there is; and what is left. -/
def outputPiece (buf : Bytes) : Bytes × Bytes :=
  match splitFirst (chr '\n') buf with
  | some (line, rest) => (line ++ [chr '\n'], rest)
  | none => (buf, [])

/-- A round of `multi_write_output`: the label if a line starts, and a piece of the chunk. -/
def multiOutputRound : MultiSession × Bytes →
    Proc ((MultiSession × Bytes) ⊕ (MultiSession × Bool)) := fun (session, buf) => do
  if buf.isEmpty then pure (.inr (session, true))
  else do
    let labelled ← (if session.lineStart then do
        let label := outputPrefix session
        if 192 ≤ label.length then pure false
        else do
          let n ← wcatFullWrite .multi .stdout label
          pure (n = some label.length)
      else pure true)
    if !labelled then pure (.inr (session, false))
    else do
      let (piece, rest) := outputPiece buf
      let n ← wcatFullWrite .multi .stdout piece
      let session := { session with lineStart := piece.getLast? = some (chr '\n') }
      if n ≠ some piece.length then pure (.inr (session, false))
      else pure (.inl (session, rest))

/-- `multi_write_output`: the session and whether it returned `0`. -/
def multiWriteOutput (session : MultiSession) (buf : Bytes) (raw : Bool) :
    Proc (MultiSession × Bool) := do
  if raw then do
    let n ← wcatFullWrite .multi .stdout buf
    pure ({ session with lineStart := true }, n = some buf.length)
  else Prog.loop multiOutputRound (session, buf)

/-- `WCAT_MULTI_ECHO_PENDING`. -/
def multiEchoPending : ℕ := 8192

/-- `multi_echo_pending_append`: the oldest bytes make room, and of a text longer than the
array only the end is kept. -/
def multiEchoPendingAppend (pending buf : Bytes) : Bytes :=
  let room := multiEchoPending - pending.length
  let kept :=
    if room < buf.length then
      let drop := buf.length - room
      if pending.length ≤ drop then [] else pending.drop drop
    else pending
  let added :=
    if multiEchoPending < buf.length then buf.drop (buf.length - multiEchoPending) else buf
  kept ++ added

/-- One round of the loop of `multi_write_attached_output`: the byte is the echo of what was
typed, or it is written. The result is what is still awaited, or `none` when the write
failed. -/
def writeAttachedByte (c : UInt8) (echoPending : Bytes) : Proc (Option Bytes) := do
  match echoPending with
  | e :: rest =>
      if c = e then pure (some rest)
      else if c = chr '\r' ∧ e = chr '\n' then pure (some echoPending)
      else do
        let n ← wcatFullWrite .multi .stdout [c]
        pure (if n = some 1 then some [] else none)
  | [] => do
      let n ← wcatFullWrite .multi .stdout [c]
      pure (if n = some 1 then some [] else none)

/-- `multi_write_attached_output`, of which `line_start` is left to the caller: what is still
awaited, or `none` for `-1`. -/
def multiWriteAttachedOutput (buf echoPending : Bytes) : Proc (Option Bytes) :=
  Prog.forEach buf (fun c echo => match echo with
    | none => pure none
    | some echo => writeAttachedByte c echo) (some echoPending)

/-- `multi_looks_http_request`. -/
def multiLooksHttpRequest (buf : Bytes) : Bool :=
  ["GET ", "POST ", "HEAD ", "PUT ", "DELETE ", "OPTIONS ", "PATCH ", "TRACE ", "CONNECT ",
    "PRI * HTTP/2.0"].any fun method => (lit method).isPrefixOf buf

end Wirecat
