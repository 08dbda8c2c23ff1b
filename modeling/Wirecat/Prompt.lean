import Wirecat.Sessions

/-!
# The operator's side of the sessions

What `run_multi_listen` does with the bytes of its standard input. There are three
handlers, and a round uses one of them for everything a `read` returns:

* `Wirecat.multiHandleStdin` collects lines, when the input is not a terminal;
* `Wirecat.multiHandleInteractiveStdin` is a line editor with a history;
* `Wirecat.multiHandleAttachedStdin` passes the bytes on to the attached session,
  except that a line that is one of the words `back`, `:back` and `:detach` leaves it.
  A line that may still become such a word is *held*.

The first two give every line to `Wirecat.multiHandleInputLine`, which carries out
commands and sends anything else to the active session.
-/

namespace Wirecat

open CString Interaction

/-- `WCAT_MULTI_INPUT`. -/
def multiInput : ℕ := 8192

/-- `WCAT_MULTI_HISTORY`. -/
def multiHistory : ℕ := 64

/-- `multi_print_prompt`. -/
def multiPrintPrompt (activeId : ℕ) : Proc Unit := sys (.tty (.prompt activeId))

/-- An error message on the terminal. -/
def multiFailure (text : String) : Proc Unit := sys (.tty (.failure text))

/-! ### Arguments -/

/-- `multi_skip_space`. -/
def multiSkipSpace (s : Bytes) : Bytes := s.dropWhile fun c => c = chr ' ' || c = chr '\t'

/-- `multi_line_trim_len`, as the line it leaves. -/
def multiLineTrim (line : Bytes) : Bytes :=
  (line.reverse.dropWhile fun c => c = chr '\n' || c = chr '\r').reverse

/-- `multi_parse_id_arg`: a session number and what follows it, or `none` for `-1`. -/
def multiParseIdArg (arg : Bytes) : Option (ℕ × Bytes) :=
  let arg := multiSkipSpace arg
  if !(arg.head?.any isDigit) then none
  else
    let c := strtoul arg
    if c.value = 0 ∨ 0xffffffff < c.value then none else some (c.value, multiSkipSpace c.rest)

/-! ### Commands -/

/-- `multi_print_sessions`. -/
def multiPrintSessions (s : MultiState) (max activeId : ℕ) : Proc Unit :=
  let live := (List.range max).filter fun i => (s.sessions i).live
  sys (.tty (.sessions (live.map fun i => (s.sessions i).row) max activeId))

/-- `multi_set_active_session`. -/
def multiSetActiveSession (max id : ℕ) (s : MultiState) : Proc MultiState := do
  if id ≠ 0 ∧ (multiFindById s max id).isSome then do
    sys (.tty (.active id))
    multiPrintPrompt id
    pure { s with activeId := id }
  else do
    multiFailure "no sessions"
    multiPrintPrompt s.activeId
    pure s

/-- `:use` and `:u`. -/
def multiUse (max : ℕ) (arg : Bytes) (s : MultiState) : Proc MultiState := do
  match (multiParseIdArg arg).filter fun p => (multiFindById s max p.1).isSome with
  | some (id, _) => do
      sys (.tty (.active id))
      multiPrintPrompt id
      pure { s with activeId := id }
  | none => do
      multiFailure "no such session"
      multiPrintPrompt s.activeId
      pure s

/-- `:attach` and `:at`, without an argument for the active session. -/
def multiAttach (max : ℕ) (arg : Option Bytes) (s : MultiState) : Proc MultiState := do
  let id := match arg with
    | none => s.activeId
    | some arg => ((multiParseIdArg arg).map Prod.fst).getD 0
  if id ≠ 0 ∧ (multiFindById s max id).isSome then do
    sys (.tty (.attached id))
    pure { s with activeId := id, attachedId := id }
  else do
    multiFailure "no such session"
    multiPrintPrompt s.activeId
    pure s

/-- `multi_print_info`. -/
def multiPrintInfo (s : MultiState) (max activeId id : ℕ) : Proc Unit :=
  match multiFindById s max id with
  | none => multiFailure "no such session"
  | some i =>
      sys (.tty (.info (s.sessions i).row (activeId = id) (s.sessions i).rxBytes
        (s.sessions i).txBytes))

/-- `:info` and `:i`, without an argument for the active session. -/
def multiInfo (max : ℕ) (arg : Option Bytes) (s : MultiState) : Proc MultiState := do
  let id := match arg with
    | none => s.activeId
    | some arg => ((multiParseIdArg arg).map Prod.fst).getD 0
  let _ ← (if id ≠ 0 then multiPrintInfo s max s.activeId id
    else multiFailure "invalid session id")
  multiPrintPrompt s.activeId
  pure s

/-- The slot and the rest of an argument that begins with the number of a session. -/
def multiTarget (s : MultiState) (max : ℕ) (arg : Bytes) : Option (ℕ × ℕ × Bytes) :=
  (multiParseIdArg arg).bind fun p => (multiFindById s max p.1).map fun i => (i, p.1, p.2)

/-- `:rename`; a name is cut to the size of its array. -/
def multiRename (max : ℕ) (arg : Bytes) (s : MultiState) : Proc MultiState := do
  let s ← (match (multiTarget s max arg).filter fun t => !t.2.2.isEmpty with
    | some (i, id, name) => do
        sys (.tty (.renamed id))
        pure (s.set i { s.sessions i with name := name.take 31 })
    | none => do
        multiFailure "invalid rename target"
        pure s)
  multiPrintPrompt s.activeId
  pure s

/-- What follows the close of session `id` by a command: another session becomes active if
it was. -/
def MultiState.repairActive (s : MultiState) (max id : ℕ) : MultiState :=
  if s.activeId = id then { s with activeId := multiFirstSessionId s max } else s

/-- `:kill` and `:k`. -/
def multiKill (max : ℕ) (arg : Bytes) (s : MultiState) : Proc MultiState := do
  let s ← (match multiTarget s max arg with
    | some (i, id, _) => do
        let row := (s.sessions i).row
        let s := (← multiSessionClose s i).repairActive max id
        sys (.tty (.killed row))
        let _ ← (if s.activeId ≠ 0 then sys (.tty (.active s.activeId)) else pure ())
        pure s
    | none => do
        multiFailure "no such session"
        pure s)
  multiPrintPrompt s.activeId
  pure s

/-- `:send`. -/
def multiSend (max : ℕ) (arg : Bytes) (s : MultiState) : Proc MultiState := do
  let s ← (match (multiTarget s max arg).filter fun t => !t.2.2.isEmpty with
    | some (i, id, payload) => do
        let sent ← multiSendLine s i payload
        let ended ← (match sent with
          | some s => multiSendLine s i [chr '\n']
          | none => pure none)
        match ended with
        | some s => pure s
        | none => do
            multiFailure "send failed"
            let s ← multiSessionClose (sent.getD s) i
            pure (s.repairActive max id)
    | none => do
        multiFailure "invalid send target"
        pure s)
  multiPrintPrompt s.activeId
  pure s

/-- `:all` and `:a`. -/
def multiAll (max : ℕ) (payload : Bytes) (s : MultiState) : Proc MultiState := do
  let s ← multiBroadcast max payload s
  multiPrintPrompt s.activeId
  pure s

/-- The part of `multi_handle_input_line` for a line that begins with a colon; `command` is
the line as a string, without the end of line. -/
def multiCommand (max : ℕ) (line command : Bytes) (s : MultiState) : Proc MultiState := do
  if command = lit ":help" then do
    sys (.tty .help)
    multiPrintPrompt s.activeId
    pure s
  else if command = lit ":sessions" ∨ command = lit ":s" then do
    multiPrintSessions s max s.activeId
    multiPrintPrompt s.activeId
    pure s
  else if command = lit ":quit" ∨ command = lit ":q" then do
    sys .raiseStop
    pure s
  else if command = lit ":detach" then do
    multiPrintPrompt s.activeId
    pure { s with attachedId := 0 }
  else if command = lit ":next" ∨ command = lit ":n" then
    multiSetActiveSession max (multiNextSessionId s max s.activeId) s
  else if command = lit ":prev" ∨ command = lit ":p" then
    multiSetActiveSession max (multiPrevSessionId s max s.activeId) s
  else if command = lit ":clear" ∨ command = lit ":c" then do
    sys (.tty .clear)
    multiPrintPrompt s.activeId
    pure s
  else if (lit ":use ").isPrefixOf command then multiUse max (command.drop 5) s
  else if (lit ":u ").isPrefixOf command then multiUse max (command.drop 3) s
  else if command = lit ":attach" then multiAttach max none s
  else if (lit ":attach ").isPrefixOf command then multiAttach max (some (command.drop 8)) s
  else if (lit ":at ").isPrefixOf command then multiAttach max (some (command.drop 4)) s
  else if command = lit ":info" ∨ command = lit ":i" then multiInfo max none s
  else if (lit ":info ").isPrefixOf command then multiInfo max (some (command.drop 6)) s
  else if (lit ":i ").isPrefixOf command then multiInfo max (some (command.drop 3)) s
  else if (lit ":rename ").isPrefixOf command then multiRename max (command.drop 8) s
  else if (lit ":kill ").isPrefixOf command then multiKill max (command.drop 6) s
  else if (lit ":k ").isPrefixOf command then multiKill max (command.drop 3) s
  else if (lit ":send ").isPrefixOf command then multiSend max (command.drop 6) s
  else if (lit ":all ").isPrefixOf command then multiAll max (line.drop 5) s
  else if (lit ":a ").isPrefixOf command then multiAll max (line.drop 3) s
  else do
    multiFailure "unknown multi command"
    sys (.tty .help)
    multiPrintPrompt s.activeId
    pure s

/-- The part of `multi_handle_input_line` for a line that is no command: it is sent to the
active session, which is closed when that fails. -/
def multiPlainLine (max : ℕ) (line : Bytes) (s : MultiState) : Proc MultiState := do
  if s.activeId = 0 then do
    multiFailure "no active session"
    multiPrintPrompt s.activeId
    pure s
  else do
    let slot := multiFindById s max s.activeId
    let sent ← (match slot with
      | some i => multiSendLine s i line
      | none => pure none)
    match sent with
    | some s => pure s
    | none => do
        multiFailure "active session unavailable"
        let s ← (match slot with
          | some i => multiSessionClose s i
          | none => pure s)
        let s := { s with activeId := multiFirstSessionId s max }
        multiPrintPrompt s.activeId
        pure s

/-- `multi_handle_input_line`. -/
def multiHandleInputLine (max : ℕ) (line : Bytes) (s : MultiState) : Proc MultiState :=
  if line.head? = some (chr ':') then multiCommand max line (ofBuffer (multiLineTrim line)) s
  else multiPlainLine max line s

/-! ### Reading lines -/

/-- Reading standard input into an array of `cap` bytes that holds `off` already; a read
that fails or finds the end reads nothing. -/
def multiReadStdin (cap off : ℕ) : Proc Bytes :=
  Prog.loop (fun _ => do
    match ← sys (.read .multi .stdin cap off (cap - off)) with
    | .data bytes _ _ => pure (.inr bytes)
    | .error .eintr => pure (.inl ())
    | _ => pure (.inr [])) ()

/-- A round of the loop of `multi_handle_stdin`, which takes a line. -/
def multiLinesRound (max : ℕ) (s : MultiState) : Proc (MultiState ⊕ MultiState) :=
  match splitFirst (chr '\n') s.input with
  | some (line, rest) => do
      let s ← multiHandleInputLine max (line ++ [chr '\n']) s
      pure (.inl { s with input := rest })
  | none =>
      if s.input.length = multiInput then do
        let s ← multiHandleInputLine max s.input s
        pure (.inr { s with input := [] })
      else pure (.inr s)

/-- The loop of `multi_handle_stdin` over the lines that are complete. A line as long as the
array is complete without its end. -/
def multiHandleLines (max : ℕ) (s : MultiState) : Proc MultiState :=
  Prog.loop (multiLinesRound max) s

/-- `multi_handle_stdin`. -/
def multiHandleStdin (max : ℕ) (s : MultiState) : Proc MultiState := do
  let bytes ← multiReadStdin multiInput s.input.length
  if bytes.isEmpty then pure s
  else multiHandleLines max { s with input := s.input ++ bytes }

/-! ### The line editor -/

/-- `multi_redraw_input`. -/
def multiRedrawInput (s : MultiState) : Proc Unit := do
  sys (.tty .clearLine)
  multiPrintPrompt s.activeId
  let _ ← (if s.input.isEmpty then pure (some 0) else wcatFullWrite .multi .stderr s.input)
  if s.inputCursor < s.input.length then
    sys (.tty (.cursorLeft (s.input.length - s.inputCursor)))
  else pure ()

/-- `multi_history_save`: the entries are strings, so an entry is compared up to its first
zero. -/
def multiHistorySave (history : List Bytes) (line : Bytes) : List Bytes :=
  let line := multiLineTrim line
  if line.isEmpty then history
  else
    let line := line.take (multiInput - 1)
    if history.getLast?.any fun last =>
        (ofBuffer last).length = line.length && last.take line.length = line then history
    else (if history.length = multiHistory then history.drop 1 else history) ++ [line]

/-- The entry `k` of the history is put on the line. -/
def MultiState.recall (s : MultiState) (k : ℕ) : MultiState :=
  let line := ofBuffer (s.inputHistory.getD k [])
  { s with inputHistoryPos := some k, input := line, inputCursor := line.length }

/-- `multi_history_load`, upwards or downwards. -/
def multiHistoryLoad (up : Bool) (s : MultiState) : Proc MultiState := do
  if s.inputHistory.isEmpty then pure s
  else
    let shown := fun s : MultiState => do
      multiRedrawInput s
      pure s
    match up, s.inputHistoryPos with
    | true, none => shown (s.recall (s.inputHistory.length - 1))
    | true, some k => shown (s.recall (k - 1))
    | false, none => pure s
    | false, some k =>
        if k + 1 < s.inputHistory.length then shown (s.recall (k + 1))
        else shown { s with inputHistoryPos := none, input := [], inputCursor := 0 }

/-- `multi_handle_input_key`. -/
def multiHandleInputKey (key : UInt8) (s : MultiState) : Proc MultiState := do
  if key = chr 'A' then multiHistoryLoad true s
  else if key = chr 'B' then multiHistoryLoad false s
  else if key = chr 'D' then
    if 0 < s.inputCursor then do
      sys (.tty (.cursorLeft 1))
      pure { s with inputCursor := s.inputCursor - 1 }
    else pure s
  else if key = chr 'C' then
    if s.inputCursor < s.input.length then do
      sys (.tty (.cursorRight 1))
      pure { s with inputCursor := s.inputCursor + 1 }
    else pure s
  else if key = chr 'H' ∨ key = chr 'h' then
    if 0 < s.inputCursor then do
      sys (.tty (.cursorLeft s.inputCursor))
      pure { s with inputCursor := 0 }
    else pure s
  else if key = chr 'F' ∨ key = chr 'f' then
    if s.inputCursor < s.input.length then do
      sys (.tty (.cursorRight (s.input.length - s.inputCursor)))
      pure { s with inputCursor := s.input.length }
    else pure s
  else pure s

/-- `\033`. -/
def escape : UInt8 := 27

/-- The part of the loop of `multi_handle_interactive_stdin` for a byte in an escape
sequence, or `none` outside of one. -/
def multiEscape (c : UInt8) (s : MultiState) : Option (Proc MultiState) :=
  match s.escState with
  | .ground => none
  | .escape =>
      some (pure { s with
        escState := if c = chr '[' then .bracket else if c = chr 'O' then .letterO else .ground })
  | .bracket =>
      if c ∈ lit "ABCDHF" then some do
        let s ← multiHandleInputKey c s
        pure { s with escState := .ground }
      else some (pure { s with
        escState := if chr '0' ≤ c ∧ c ≤ chr '9' then .digit c else .ground })
  | .letterO => some do
      let key := if c = chr 'w' then chr 'H' else if c = chr 'q' then chr 'F' else c
      let s ← multiHandleInputKey key s
      pure { s with escState := .ground }
  | .digit digit => some do
      let s ← (if c = chr '~' then
          if digit = chr '1' ∨ digit = chr '7' then multiHandleInputKey (chr 'H') s
          else if digit = chr '4' ∨ digit = chr '8' then multiHandleInputKey (chr 'F') s
          else pure s
        else pure s)
      pure { s with escState := if c = chr '~' then .ground else .skip }
  | .skip =>
      some (pure { s with
        escState := if (chr 'A' ≤ c ∧ c ≤ chr 'Z') ∨ c = chr '~' then .ground else .skip })

/-- Whether a byte is one a line may hold: a tab, or one of 32 to 126. -/
def isText (c : UInt8) : Bool := c = chr '\t' || (32 ≤ c && c < 127)

/-- The part of the loop of `multi_handle_interactive_stdin` for a byte outside an escape
sequence. -/
def multiEditorText (max : ℕ) (c : UInt8) (s : MultiState) : Proc MultiState := do
  if c = escape then pure { s with escState := .escape }
  else if c = chr '\r' ∨ c = chr '\n' then do
    let line := if s.input.length < multiInput then s.input ++ [chr '\n'] else s.input
    sys (.tty .newline)
    let s := { s with inputHistory := multiHistorySave s.inputHistory line, inputHistoryPos := none }
    let s ← multiHandleInputLine max line s
    pure { s with input := [], inputCursor := 0 }
  else if c = 8 ∨ c = 127 then
    if 0 < s.inputCursor then do
      let s := { s with
        input := s.input.take (s.inputCursor - 1) ++ s.input.drop s.inputCursor
        inputCursor := s.inputCursor - 1
        inputHistoryPos := none }
      multiRedrawInput s
      pure s
    else pure s
  else if isText c ∧ s.input.length < multiInput then do
    let s := { s with
      input := s.input.take s.inputCursor ++ [c] ++ s.input.drop s.inputCursor
      inputCursor := s.inputCursor + 1
      inputHistoryPos := none }
    multiRedrawInput s
    pure s
  else pure s

/-- One byte of `multi_handle_interactive_stdin`. -/
def multiEditorByte (max : ℕ) (c : UInt8) (s : MultiState) : Proc MultiState :=
  (multiEscape c s).getD (multiEditorText max c s)

/-- `multi_handle_interactive_stdin`. -/
def multiHandleInteractiveStdin (max : ℕ) (s : MultiState) : Proc MultiState := do
  let bytes ← multiReadStdin 128 0
  Prog.forEach bytes (multiEditorByte max) s

/-! ### Attached to a session -/

/-- `multi_attached_detach_match`: whether the line may become a word that detaches, and
whether it is one. -/
def multiAttachedDetachMatch (line : Bytes) : Bool × Bool :=
  match ["back", ":back", ":detach"].find? fun word => line.isPrefixOf (lit word) with
  | some word => (true, line.length = (lit word).length)
  | none => (false, false)

/-- What is sent to the attached session, and awaited from it as an echo. -/
def multiSendTyped (i : ℕ) (text : Bytes) (s : MultiState) : Proc MultiState := do
  let s ← multiSendLine' s i text
  pure { s with echoPending := multiEchoPendingAppend s.echoPending text }

/-- Leaving the attached session. -/
def multiDetach (s : MultiState) : Proc MultiState := do
  sys (.tty .newline)
  multiPrintPrompt s.activeId
  pure { s with attachedId := 0, attachedLine := [], attachedLineHeld := true, echoPending := [] }

/-- The end of a line typed to the attached session in slot `i`. -/
def multiAttachedEnter (i : ℕ) (s : MultiState) : Proc MultiState := do
  if s.attachedLineHeld ∧ (multiAttachedDetachMatch s.attachedLine).2 then multiDetach s
  else do
    let s ← (if s.attachedLineHeld ∧ 0 < s.attachedLine.length then
        multiSendTyped i s.attachedLine s
      else pure s)
    let s ← multiSendTyped i [chr '\n'] { s with attachedLine := [], attachedLineHeld := true }
    sys (.tty .newline)
    pure s

/-- A byte of a line typed to the attached session in slot `i`. -/
def multiAttachedText (i : ℕ) (c : UInt8) (s : MultiState) : Proc MultiState := do
  let s ← (if s.attachedLine.length + 1 < multiInput ∧ isText c then do
      let s := { s with attachedLine := s.attachedLine ++ [c] }
      if s.attachedLineHeld ∧ !(multiAttachedDetachMatch s.attachedLine).1 then do
        let s ← multiSendTyped i s.attachedLine s
        pure { s with attachedLineHeld := false }
      else if !s.attachedLineHeld then multiSendTyped i [c] s
      else pure s
    else if s.attachedId ≠ 0 then multiSendTyped i [c] s
    else pure s)
  let _ ← (if 32 ≤ c ∧ c < 127 then wcatFullWrite .multi .stderr [c] else pure none)
  pure s

/-- One byte of `multi_handle_attached_stdin`, for the session in slot `i`. -/
def multiAttachedByte (i : ℕ) (c : UInt8) (s : MultiState) : Proc MultiState := do
  if c = 0x1d then multiDetach s
  else if c = 8 ∨ c = 127 then do
    let s ← (if 0 < s.attachedLine.length then do
        let s := { s with attachedLine := s.attachedLine.dropLast }
        if !s.attachedLineHeld then multiSendTyped i [c] s else pure s
      else pure s)
    sys (.tty .rubout)
    pure s
  else if c = chr '\r' ∨ c = chr '\n' then multiAttachedEnter i s
  else multiAttachedText i c s

/-- `multi_handle_attached_stdin`. -/
def multiHandleAttachedStdin (max : ℕ) (s : MultiState) : Proc MultiState := do
  match multiFindById s max s.attachedId with
  | none => do
      let s := { s with attachedId := 0, activeId := multiFirstSessionId s max }
      sys (.tty .newline)
      multiPrintPrompt s.activeId
      pure s
  | some i => do
      let bytes ← multiReadStdin 512 0
      Prog.forEach bytes (multiAttachedByte i) s

end Wirecat
