import Wirecat.Multi

/-!
# What the operator types

The three handlers of standard input in `Wirecat.Prompt` read in different ways, but what
they do with the bytes is of one kind: each handles them one after the other
(`Wirecat.multiTyped`), so that a read is no more than a fold over its bytes
(`Wirecat.runs_multiStdin`). For the line editor and for the attached session the code is
written that way. `multi_handle_stdin` is not: it looks for the lines in what it has
collected, and that this comes to the same is `Wirecat.runs_multiHandleLines`.

The latter rests on what a line leaves alone. `Wirecat.multiHandleInputLine` works on the
table of the sessions and neither reads nor changes the texts the operator is typing
(`Wirecat.Textless`), so it does not matter how much of the input is still to be looked
at when a line is carried out.
-/

namespace Wirecat

open CString Interaction

/-! ### The operator's bytes -/

/-- Who handles what the operator types. -/
inductive TypingMode
  /-- `multi_handle_stdin`. -/
  | lines
  /-- `multi_handle_interactive_stdin`. -/
  | editor
  /-- `multi_handle_attached_stdin`, for the session in slot `i`. -/
  | attached (i : ℕ)
  deriving DecidableEq

/-- The mode a read is handled in, or `none` when the attached session is gone. -/
def typingMode (interactive : Bool) (max : ℕ) (s : MultiState) : Option TypingMode :=
  if s.attachedId ≠ 0 then (multiFindById s max s.attachedId).map .attached
  else some (if interactive then .editor else .lines)

/-- The read of a mode: into an array of how many bytes, and behind how many. -/
def multiReadFor : TypingMode → MultiState → Proc Bytes
  | .lines, s => multiReadStdin multiInput s.input.length
  | .editor, _ => multiReadStdin 128 0
  | .attached _, _ => multiReadStdin 512 0

/-- One byte of `multi_handle_stdin`: it ends the line, or the line is as long as the array, or
the line goes on. -/
def multiLineByte (max : ℕ) (c : UInt8) (s : MultiState) : Proc MultiState := do
  let line := s.input ++ [c]
  if c = chr '\n' ∨ line.length = multiInput then do
    let s ← multiHandleInputLine max line s
    pure { s with input := [] }
  else pure { s with input := line }

/-- One byte of what the operator typed. -/
def multiTyped (max : ℕ) : TypingMode → UInt8 → MultiState → Proc MultiState
  | .lines => multiLineByte max
  | .editor => multiEditorByte max
  | .attached i => multiAttachedByte i

/-- The part of `multi_handle_attached_stdin` for a session that is gone. -/
def multiVanished (max : ℕ) (s : MultiState) : Proc MultiState := do
  let s := { s with attachedId := 0, activeId := multiFirstSessionId s max }
  sys (.tty .newline)
  multiPrintPrompt s.activeId
  pure s

/-! ### What a line leaves alone -/

/-- The table of `s` and the texts of `t`. -/
def MultiState.withTexts (s t : MultiState) : MultiState :=
  { t with
    sessions := s.sessions
    nextId := s.nextId
    activeId := s.activeId
    attachedId := s.attachedId
    result := s.result }

/-- A function that neither reads nor changes the texts. -/
def Textless (p : MultiState → Proc MultiState) : Prop :=
  ∀ s t, p (s.withTexts t) = p s >>= fun s' => pure (s'.withTexts t)

@[simp] theorem sessions_withTexts (s t : MultiState) : (s.withTexts t).sessions = s.sessions := rfl

@[simp] theorem activeId_withTexts (s t : MultiState) : (s.withTexts t).activeId = s.activeId := rfl

@[simp] theorem attachedId_withTexts (s t : MultiState) :
    (s.withTexts t).attachedId = s.attachedId := rfl

@[simp] theorem multiFindById_withTexts (s t : MultiState) (max id : ℕ) :
    multiFindById (s.withTexts t) max id = multiFindById s max id := rfl

@[simp] theorem multiTarget_withTexts (s t : MultiState) (max : ℕ) (arg : Bytes) :
    multiTarget (s.withTexts t) max arg = multiTarget s max arg := rfl

theorem Textless.ret (f : MultiState → MultiState)
    (hf : ∀ s t, f (s.withTexts t) = (f s).withTexts t) : Textless fun s => pure (f s) := by
  intro s t
  dsimp only
  rw [pure_bind, hf]

theorem Textless.bind {p q : MultiState → Proc MultiState} (hp : Textless p) (hq : Textless q) :
    Textless fun s => p s >>= q := by
  intro s t
  dsimp only
  rw [hp, bind_assoc, bind_assoc]
  exact bind_congr fun s' => by rw [pure_bind, hq]

/-- Requests that only depend on the table, and then a textless function. -/
theorem Textless.after {γ : Type} {r : MultiState → Proc γ} {q : MultiState → Proc MultiState}
    (hr : ∀ s t, r (s.withTexts t) = r s) (hq : Textless q) :
    Textless fun s => r s >>= fun _ => q s := by
  intro s t
  dsimp only
  rw [hr, bind_assoc]
  exact bind_congr fun _ => hq s t

theorem Textless.ite {c : MultiState → Prop} [DecidablePred c] {p q : MultiState → Proc MultiState}
    (hc : ∀ s t, c (s.withTexts t) ↔ c s) (hp : Textless p) (hq : Textless q) :
    Textless fun s => if c s then p s else q s := by
  intro s t
  dsimp only
  by_cases h : c s
  · rw [if_pos h, if_pos ((hc s t).mpr h), hp]
  · rw [if_neg h, if_neg (mt (hc s t).mp h), hq]

theorem Textless.cases {ι : Type} {o : MultiState → Option ι} {p : ι → MultiState → Proc MultiState}
    {q : MultiState → Proc MultiState} (ho : ∀ s t, o (s.withTexts t) = o s)
    (hp : ∀ x, Textless (p x)) (hq : Textless q) :
    Textless fun s => match o s with
      | some x => p x s
      | none => q s := by
  intro s t
  dsimp only
  rw [ho]
  cases o s with
  | some x => exact hp x s t
  | none => exact hq s t

theorem Textless.forRange {f : ℕ → MultiState → Proc MultiState} (hf : ∀ i, Textless (f i)) (n : ℕ) :
    Textless (Prog.forRange n f) := by
  induction n with
  | zero => exact Textless.ret id fun _ _ => rfl
  | succ n ih => exact ih.bind (hf n)

theorem textless_multiPrintPrompt :
    Textless fun s => multiPrintPrompt s.activeId >>= fun _ => pure s :=
  Textless.after (r := fun s => multiPrintPrompt s.activeId) (fun _ _ => rfl)
    (Textless.ret id fun _ _ => rfl)

theorem textless_multiSessionClose (i : ℕ) : Textless fun s => multiSessionClose s i :=
  Textless.after (r := fun s => wcatCloseQuiet? (s.sessions i).fd) (fun _ _ => rfl)
    (Textless.ret (fun s => s.set i multiSessionInit) fun _ _ => rfl)

theorem multiSendLine_withTexts (s t : MultiState) (i : ℕ) (line : Bytes) :
    multiSendLine (s.withTexts t) i line =
      multiSendLine s i line >>= fun o => pure (o.map (·.withTexts t)) := by
  simp only [multiSendLine, sessions_withTexts]
  cases (s.sessions i).fd with
  | none => rfl
  | some fd =>
    dsimp only
    rw [bind_assoc]
    refine bind_congr fun n => ?_
    split_ifs <;> rfl

theorem textless_multiBroadcast (max : ℕ) (line : Bytes) : Textless (multiBroadcast max line) := by
  refine Textless.forRange (fun i => ?_) max
  refine Textless.ite (fun _ _ => Iff.rfl) (fun s t => ?_) (Textless.ret id fun _ _ => rfl)
  rw [multiSendLine_withTexts, bind_assoc, bind_assoc]
  refine bind_congr fun o => ?_
  rw [pure_bind]
  cases o with
  | some s' => rfl
  | none =>
    exact Textless.after (r := fun s : MultiState =>
      sys (.log .warn "multi_drop" "dropping failed session %u" [.num (s.sessions i).id]))
      (fun _ _ => rfl) (textless_multiSessionClose i) s t

/-- The end of most commands. -/
theorem Textless.prompt {p : MultiState → Proc MultiState} (hp : Textless p) :
    Textless fun s => p s >>= fun s => multiPrintPrompt s.activeId >>= fun _ => pure s :=
  hp.bind textless_multiPrintPrompt

theorem textless_multiSetActiveSession (max id : ℕ) : Textless (multiSetActiveSession max id) :=
  Textless.ite (c := fun s => id ≠ 0 ∧ (multiFindById s max id).isSome) (fun _ _ => Iff.rfl)
    (fun _ _ => rfl) fun _ _ => rfl

theorem textless_multiUse (max : ℕ) (arg : Bytes) : Textless (multiUse max arg) := by
  intro s t
  simp only [multiUse, multiFindById_withTexts]
  split <;> rfl

theorem textless_multiAttach (max : ℕ) (arg : Option Bytes) : Textless (multiAttach max arg) := by
  cases arg with
  | none =>
    exact Textless.ite (c := fun s => s.activeId ≠ 0 ∧ (multiFindById s max s.activeId).isSome)
      (fun _ _ => Iff.rfl) (fun _ _ => rfl) fun _ _ => rfl
  | some arg =>
    exact Textless.ite (c := fun s => ((multiParseIdArg arg).map Prod.fst).getD 0 ≠ 0 ∧
        (multiFindById s max (((multiParseIdArg arg).map Prod.fst).getD 0)).isSome)
      (fun _ _ => Iff.rfl) (fun _ _ => rfl) fun _ _ => rfl

theorem textless_multiInfo (max : ℕ) (arg : Option Bytes) : Textless (multiInfo max arg) := by
  intro s t
  simp only [multiInfo, bind_assoc]
  cases arg <;> exact bind_congr fun _ => rfl

theorem textless_multiRename (max : ℕ) (arg : Bytes) : Textless (multiRename max arg) := by
  refine Textless.prompt fun s t => ?_
  simp only [multiTarget_withTexts]
  split <;> rfl

theorem repairActive_withTexts (s t : MultiState) (max id : ℕ) :
    (s.withTexts t).repairActive max id = (s.repairActive max id).withTexts t := by
  rw [MultiState.repairActive, MultiState.repairActive,
    apply_ite fun s : MultiState => s.withTexts t]
  rfl

theorem multiSessionClose_withTexts (s t : MultiState) (i : ℕ) :
    multiSessionClose (s.withTexts t) i =
      multiSessionClose s i >>= fun s' => pure (s'.withTexts t) :=
  textless_multiSessionClose i s t

/-- A close by a command, and the repair after it. -/
theorem textless_drop (max i id : ℕ) :
    Textless fun s => multiSessionClose s i >>= fun s => pure (s.repairActive max id) := by
  refine (textless_multiSessionClose i).bind (Textless.ret (fun s => s.repairActive max id) ?_)
  exact fun s t => repairActive_withTexts s t max id

theorem textless_multiKill (max : ℕ) (arg : Bytes) : Textless (multiKill max arg) := by
  refine Textless.prompt fun s t => ?_
  simp only [multiTarget_withTexts]
  split
  · rename_i i id rest htarget
    simp only [multiSessionClose_withTexts, sessions_withTexts, bind_assoc, pure_bind]
    refine bind_congr fun s' => bind_congr fun _ => ?_
    rw [repairActive_withTexts]
    rfl
  · rfl

/-- A send of `:send` that failed. -/
theorem textless_sendFailed (max i id : ℕ) : Textless fun s =>
    multiFailure "send failed" >>= fun _ =>
      multiSessionClose s i >>= fun s => pure (s.repairActive max id) :=
  Textless.after (r := fun _ => multiFailure "send failed") (fun _ _ => rfl) (textless_drop max i id)

theorem textless_multiSend (max : ℕ) (arg : Bytes) : Textless (multiSend max arg) := by
  refine Textless.prompt fun s t => ?_
  simp only [multiTarget_withTexts]
  split
  · rename_i i id payload htarget
    simp only [multiSendLine_withTexts, bind_assoc, pure_bind]
    refine bind_congr fun sent => ?_
    cases sent with
    | none => exact textless_sendFailed max i id s t
    | some s' =>
      simp only [Option.map_some, multiSendLine_withTexts, bind_assoc, pure_bind]
      refine bind_congr fun ended => ?_
      cases ended with
      | none => exact textless_sendFailed max i id s' t
      | some s'' => rfl
  · rfl

theorem textless_multiAll (max : ℕ) (payload : Bytes) : Textless (multiAll max payload) :=
  (textless_multiBroadcast max payload).prompt

theorem textless_multiPlainLine (max : ℕ) (line : Bytes) : Textless (multiPlainLine max line) := by
  refine Textless.ite (c := fun s => s.activeId = 0) (fun _ _ => Iff.rfl) (fun _ _ => rfl) ?_
  intro s t
  simp only [multiFindById_withTexts, activeId_withTexts]
  cases multiFindById s max s.activeId with
  | none => rfl
  | some i =>
    simp only [multiSendLine_withTexts, bind_assoc, pure_bind]
    refine bind_congr fun sent => ?_
    cases sent with
    | some s' => rfl
    | none =>
      refine Textless.after (r := fun _ => multiFailure "active session unavailable")
        (fun _ _ => rfl) ((textless_multiSessionClose i).bind ?_) s t
      exact Textless.bind (Textless.ret (fun s => { s with activeId := multiFirstSessionId s max })
        fun _ _ => rfl) textless_multiPrintPrompt

/-- A message that does not depend on the texts, the prompt, and a change of the table. -/
theorem Textless.message {r : MultiState → Proc Unit} (hr : ∀ s t, r (s.withTexts t) = r s) :
    Textless fun s => r s >>= fun _ => multiPrintPrompt s.activeId >>= fun _ => pure s :=
  Textless.after hr textless_multiPrintPrompt

theorem textless_multiCommand (max : ℕ) (line command : Bytes) :
    Textless (multiCommand max line command) := by
  have hc : ∀ {c : Prop} (_ _ : MultiState), c ↔ c := fun _ _ => Iff.rfl
  unfold multiCommand
  refine Textless.ite hc (fun _ _ => rfl) ?_
  refine Textless.ite hc (fun _ _ => rfl) ?_
  refine Textless.ite hc (fun _ _ => rfl) ?_
  refine Textless.ite hc (fun _ _ => rfl) ?_
  refine Textless.ite hc (fun s t => textless_multiSetActiveSession max _ s t) ?_
  refine Textless.ite hc (fun s t => textless_multiSetActiveSession max _ s t) ?_
  refine Textless.ite hc (fun _ _ => rfl) ?_
  refine Textless.ite hc (textless_multiUse max _) ?_
  refine Textless.ite hc (textless_multiUse max _) ?_
  refine Textless.ite hc (textless_multiAttach max _) ?_
  refine Textless.ite hc (textless_multiAttach max _) ?_
  refine Textless.ite hc (textless_multiAttach max _) ?_
  refine Textless.ite hc (textless_multiInfo max _) ?_
  refine Textless.ite hc (textless_multiInfo max _) ?_
  refine Textless.ite hc (textless_multiInfo max _) ?_
  refine Textless.ite hc (textless_multiRename max _) ?_
  refine Textless.ite hc (textless_multiKill max _) ?_
  refine Textless.ite hc (textless_multiKill max _) ?_
  refine Textless.ite hc (textless_multiSend max _) ?_
  refine Textless.ite hc (textless_multiAll max _) ?_
  refine Textless.ite hc (textless_multiAll max _) ?_
  exact fun _ _ => rfl

theorem textless_multiHandleInputLine (max : ℕ) (line : Bytes) :
    Textless (multiHandleInputLine max line) :=
  Textless.ite (c := fun _ => line.head? = some (chr ':')) (fun _ _ => Iff.rfl)
    (textless_multiCommand max line _) (textless_multiPlainLine max line)

/-! ### Reading is handling byte by byte -/

/-- What `multi_handle_stdin` keeps between two reads: a line that is not complete. -/
def Collecting (s : MultiState) : Prop := chr '\n' ∉ s.input ∧ s.input.length < multiInput

/-- A line is handled as it is, whatever is left of the input. -/
theorem multiHandleInputLine_input {γ : Type} (max : ℕ) (line input input' : Bytes) (s : MultiState)
    (k : MultiState → Proc γ) :
    (multiHandleInputLine max line { s with input := input } >>= fun s' =>
        k { s' with input := input' }) =
      multiHandleInputLine max line s >>= fun s' => k { s' with input := input' } := by
  have h := textless_multiHandleInputLine max line s { s with input := input }
  have h' := textless_multiHandleInputLine max line s s
  change multiHandleInputLine max line { s with input := input } = _ at h
  change multiHandleInputLine max line s = _ at h'
  rw [h, h']
  simp only [bind_assoc, pure_bind]
  rfl

theorem within_multiReadStdin (cap off : ℕ) :
    Within (fun e => ∃ n, e = .read .multi .stdin cap off n) (multiReadStdin cap off)
      fun bytes => bytes.length ≤ cap - off := by
  refine Within.loop (fun _ => True) trivial fun _ _ => ⟨⟨_, rfl⟩, ?_⟩
  rintro (⟨bytes, hpos, hle⟩ | _ | err)
  · exact hle
  · exact Nat.zero_le _
  · cases err <;> first | trivial | exact Nat.zero_le _

section
variable {legal : Hist → (e : Sys) → Resp e → Prop} {h h' : Hist}

/-- Bytes that end no line are collected. -/
theorem forEach_multiLineByte {max : ℕ} {bytes : Bytes} {s : MultiState} (hn : chr '\n' ∉ bytes)
    (hlt : (s.input ++ bytes).length < multiInput) :
    Prog.forEach bytes (multiLineByte max) s = pure { s with input := s.input ++ bytes } := by
  induction bytes generalizing s with
  | nil => rw [List.append_nil]; rfl
  | cons c bytes ih =>
    obtain ⟨hc, hn⟩ := not_or.mp (mt List.mem_cons.mpr hn)
    have hstep : multiLineByte max c s = pure { s with input := s.input ++ [c] } := by
      rw [List.length_append, List.length_cons] at hlt
      refine if_neg (not_or.mpr ⟨Ne.symm hc, ?_⟩)
      rw [List.length_append, List.length_singleton]
      omega
    rw [Prog.forEach, hstep]
    have hih := ih (s := { s with input := s.input ++ [c] }) hn (by simpa using hlt)
    rw [List.append_assoc, List.singleton_append] at hih
    exact hih

/-- A byte that ends a line. -/
theorem multiLineByte_end {max : ℕ} {c : UInt8} {s : MultiState}
    (hc : c = chr '\n' ∨ (s.input ++ [c]).length = multiInput) :
    multiLineByte max c s = multiHandleInputLine max (s.input ++ [c]) s >>= fun s' =>
      pure { s' with input := [] } :=
  if_pos hc

/-- The bytes up to the end of a line are handled as that line. -/
theorem forEach_multiLineByte_end {max : ℕ} {pre : Bytes} {c : UInt8} {s : MultiState}
    (hn : chr '\n' ∉ pre) (hlt : (s.input ++ pre).length < multiInput)
    (hc : c = chr '\n' ∨ (s.input ++ pre ++ [c]).length = multiInput) (rest : Bytes) :
    Prog.forEach (pre ++ c :: rest) (multiLineByte max) s =
      multiHandleInputLine max (s.input ++ pre ++ [c]) s >>= fun s' =>
        Prog.forEach rest (multiLineByte max) { s' with input := [] } := by
  have hend := @multiLineByte_end max c { s with input := s.input ++ pre } hc
  rw [Prog.forEach_append, forEach_multiLineByte hn hlt, Prog.pure_def, Prog.ret_bind,
    Prog.forEach, hend]
  have hinput := multiHandleInputLine_input max (s.input ++ pre ++ [c]) (s.input ++ pre) [] s pure
  dsimp only at hinput ⊢
  rw [hinput, ← Prog.bind_def, bind_assoc]
  rfl

/-- Where the first line of the input ends, when what was kept of it ends none. -/
theorem split_collected {kept bytes line rest : Bytes} {c : UInt8} (hk : c ∉ kept)
    (h : kept ++ bytes = line ++ c :: rest) :
    ∃ pre, line = kept ++ pre ∧ bytes = pre ++ c :: rest := by
  rcases List.append_eq_append_iff.mp h with ⟨pre, hline, hbytes⟩ | ⟨post, hkept, hrest⟩
  · exact ⟨pre, hline, hbytes⟩
  · cases post with
    | nil => exact ⟨[], by simpa using hkept.symm, by simpa using hrest.symm⟩
    | cons x post =>
      obtain ⟨rfl, -⟩ := List.cons.inj hrest
      exact absurd (hkept ▸ by simp) hk

theorem multiLinesRound_line {max : ℕ} {s : MultiState} {input line rest : Bytes}
    (hsplit : splitFirst (chr '\n') input = some (line, rest)) :
    multiLinesRound max { s with input := input } =
      multiHandleInputLine max (line ++ [chr '\n']) s >>= fun s' =>
        pure (.inl { s' with input := rest }) := by
  rw [multiLinesRound]
  dsimp only
  rw [hsplit]
  exact multiHandleInputLine_input max _ input rest s fun s' => pure (Sum.inl s')

theorem multiLinesRound_full {max : ℕ} {s : MultiState} {input : Bytes}
    (hsplit : splitFirst (chr '\n') input = none) (hfull : input.length = multiInput) :
    multiLinesRound max { s with input := input } =
      multiHandleInputLine max input s >>= fun s' => pure (.inr { s' with input := [] }) := by
  rw [multiLinesRound]
  dsimp only
  rw [hsplit, if_pos hfull]
  exact multiHandleInputLine_input max _ input [] s fun s' => pure (Sum.inr s')

theorem multiLinesRound_none {max : ℕ} {s : MultiState} {input : Bytes}
    (hsplit : splitFirst (chr '\n') input = none) (hfull : input.length ≠ multiInput) :
    multiLinesRound max { s with input := input } = pure (.inr { s with input := input }) := by
  rw [multiLinesRound]
  dsimp only
  rw [hsplit, if_neg hfull]

/-- **`multi_handle_stdin` handles its bytes one by one.** The induction is on the lines that
what was read completes. -/
theorem runs_multiHandleLines {max : ℕ} {bytes : Bytes} {s s' : MultiState} (hs : Collecting s)
    (hle : (s.input ++ bytes).length ≤ multiInput) :
    Runs legal (multiHandleLines max { s with input := s.input ++ bytes }) h h' (some s') ↔
      Runs legal (Prog.forEach bytes (multiLineByte max) s) h h' (some s') := by
  induction hn : bytes.length using Nat.strong_induction_on generalizing bytes s h with
  | _ n ih =>
    rw [multiHandleLines, runs_loop]
    cases hsplit : splitFirst (chr '\n') (s.input ++ bytes) with
    | none =>
      have hno : chr '\n' ∉ bytes := fun hmem =>
        splitFirst_eq_none.mp hsplit (List.mem_append_right _ hmem)
      by_cases hfull : (s.input ++ bytes).length = multiInput
      · -- the array is full: the last byte ends the line
        rcases List.eq_nil_or_concat bytes with rfl | ⟨pre, c, rfl⟩
        · exact absurd (by simpa using hfull) hs.2.ne
        · have hpre : chr '\n' ∉ pre := fun hmem => hno (by simp [hmem])
          rw [List.concat_eq_append, ← List.append_assoc] at hsplit hfull ⊢
          have hlt : (s.input ++ pre).length < multiInput := by
            rw [List.length_append, List.length_singleton] at hfull
            omega
          rw [forEach_multiLineByte_end hpre hlt (.inr hfull), multiLinesRound_full hsplit hfull]
          simp only [runs_bind_some', runs_pure, Prog.forEach, runs_ret]
          constructor
          · rintro ⟨_, h₁, ⟨s₁, h₂, hline, rfl, rfl⟩, rfl, rfl⟩
            exact ⟨s₁, _, hline, rfl, rfl⟩
          · rintro ⟨s₁, h₂, hline, rfl, rfl⟩
            exact ⟨_, _, ⟨s₁, _, hline, rfl, rfl⟩, rfl, rfl⟩
      · have hlt : (s.input ++ bytes).length < multiInput := by omega
        rw [multiLinesRound_none hsplit hfull, forEach_multiLineByte hno hlt]
        simp only [runs_pure]
        constructor
        · rintro ⟨_, h₁, ⟨rfl, rfl⟩, rfl, rfl⟩
          exact ⟨rfl, rfl⟩
        · rintro ⟨rfl, rfl⟩
          exact ⟨_, _, ⟨rfl, rfl⟩, rfl, rfl⟩
    | some p =>
      obtain ⟨line, rest⟩ := p
      obtain ⟨heq, hline⟩ := splitFirst_eq_some.mp hsplit
      obtain ⟨pre, rfl, rfl⟩ := split_collected hs.1 heq
      have hpre : chr '\n' ∉ pre := fun hmem => hline (List.mem_append_right _ hmem)
      have hlt : (s.input ++ pre).length < multiInput := by
        simp only [List.length_append, List.length_cons] at hle ⊢
        omega
      have hrest : rest.length < n := by
        rw [← hn, List.length_append, List.length_cons]
        omega
      -- what is left after the line is handled as if it had been read alone
      have hih : ∀ (s₁ : MultiState) (h₁ : Hist),
          Runs legal (multiHandleLines max { s₁ with input := rest }) h₁ h' (some s') ↔
            Runs legal (Prog.forEach rest (multiLineByte max) { s₁ with input := [] }) h₁ h'
              (some s') := by
        intro s₁ h₁
        refine ih rest.length hrest (s := { s₁ with input := [] }) ⟨List.not_mem_nil, show 0 < multiInput by decide⟩ ?_ rfl
        simp only [List.length_append, List.length_cons, List.nil_append] at hle ⊢
        omega
      rw [forEach_multiLineByte_end hpre hlt (.inl rfl), multiLinesRound_line hsplit]
      simp only [runs_bind_some', runs_pure]
      constructor
      · rintro ⟨_, h₁, ⟨s₁, h₂, hline, rfl, rfl⟩, hloop⟩
        exact ⟨s₁, _, hline, (hih s₁ _).mp hloop⟩
      · rintro ⟨s₁, h₂, hline, hloop⟩
        exact ⟨_, _, ⟨s₁, _, hline, rfl, rfl⟩, (hih s₁ _).mpr hloop⟩

theorem Collecting.line {max : ℕ} {c : UInt8} {s s' : MultiState} (hs : Collecting s)
    (hr : Runs legal (multiLineByte max c s) h h' (some s')) : Collecting s' := by
  by_cases hc : c = chr '\n' ∨ (s.input ++ [c]).length = multiInput
  · rw [multiLineByte_end hc, runs_bind_some'] at hr
    obtain ⟨s₁, h₁, -, hret⟩ := hr
    obtain ⟨-, rfl⟩ := runs_pure.mp hret
    exact ⟨List.not_mem_nil, show 0 < multiInput by decide⟩
  · rw [multiLineByte, if_neg hc] at hr
    obtain ⟨-, rfl⟩ := runs_pure.mp hr
    obtain ⟨hne, hlen⟩ := not_or.mp hc
    refine ⟨fun hmem => ?_, ?_⟩
    · rcases List.mem_append.mp hmem with hmem | hmem
      · exact hs.1 hmem
      · exact hne (List.mem_singleton.mp hmem).symm
    · have := hs.2
      rw [List.length_append, List.length_singleton] at hlen ⊢
      omega

/-- **Standard input is handled byte by byte**, in the mode it was read in. -/
theorem runs_multiStdin {interactive : Bool} {max : ℕ} {s s' : MultiState}
    (hs : interactive = false → Collecting s) :
    Runs legal (multiStdin interactive max s) h h' (some s') ↔
      match typingMode interactive max s with
      | none => Runs legal (multiVanished max s) h h' (some s')
      | some mode => ∃ bytes h₁, Runs legal (multiReadFor mode s) h h₁ (some bytes) ∧
          Runs legal (Prog.forEach bytes (multiTyped max mode) s) h₁ h' (some s') := by
  rw [multiStdin, typingMode]
  by_cases hatt : s.attachedId ≠ 0
  · rw [if_pos hatt, if_pos hatt, multiHandleAttachedStdin]
    cases multiFindById s max s.attachedId with
    | none => rfl
    | some i => exact runs_bind_some'
  · rw [if_neg hatt, if_neg hatt]
    cases interactive with
    | true => exact runs_bind_some'
    | false =>
      rw [if_neg (by simp), multiHandleStdin, runs_bind_some']
      refine exists_congr fun bytes => exists_congr fun h₁ => and_congr_right fun hread => ?_
      have hle := (within_multiReadStdin multiInput s.input.length).result hread
      have hc := hs rfl
      cases bytes with
      | nil => rfl
      | cons c bytes =>
        refine runs_multiHandleLines hc ?_
        have := hc.2
        rw [List.length_append]
        omega

end

end Wirecat
