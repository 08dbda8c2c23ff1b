import Wirecat.Effects

/-!
# What a byte of the operator can do

The counterpart of `Wirecat.Effects` for the bytes of standard input. A byte for the prompt
either edits, or ends a line, and then the line has its effect (`Wirecat.CommandEffect`). A
byte for the attached session changes three texts and leaves the table as it is, unless
it detaches (`Wirecat.TypedEffect`).

The three texts are the line that was begun, whether that line is held back, and what is
awaited as an echo. What becomes of them does not depend on any answer of the environment,
and `Wirecat.Typed.byte` computes it. It does so for bytes of any type: whoever wants to know
where a byte came from can give the bytes their origin and have it carried along.
-/

namespace Wirecat

open CString Interaction

variable {legal : Hist → (e : Sys) → Resp e → Prop} {h h' : Hist}

/-! ### A byte for the attached session -/

/-- What the operator has typed to the attached session: the line, whether it is held back, and
what is awaited as an echo. The bytes are of any type, so that they can be told apart. -/
structure Typed (β : Type) where
  line : List β
  held : Bool
  echo : List β

/-- What the listener keeps of it. -/
def MultiState.typed (s : MultiState) : Typed UInt8 :=
  ⟨s.attachedLine, s.attachedLineHeld, s.echoPending⟩

section
variable {β : Type}

/-- Nothing is typed. -/
def Typed.nothing : Typed β := ⟨[], true, []⟩

/-- `multi_echo_pending_append`, on bytes of any type. -/
def awaitEcho (pending text : List β) : List β :=
  let room := multiEchoPending - pending.length
  let kept :=
    if room < text.length then
      let drop := text.length - room
      if pending.length ≤ drop then [] else pending.drop drop
    else pending
  let added :=
    if multiEchoPending < text.length then text.drop (text.length - multiEchoPending) else text
  kept ++ added

/-- A text is sent. -/
def Typed.send (t : Typed β) (text : List β) : Typed β := { t with echo := awaitEcho t.echo text }

/-- Whether the byte ends a word that detaches, or is one that does. -/
def Typed.detaches (val : β → UInt8) (b : β) (t : Typed β) : Bool :=
  val b = 0x1d || ((val b = chr '\r' || val b = chr '\n') && t.held &&
    (multiAttachedDetachMatch (t.line.map val)).2)

/-- **A byte is typed**: what becomes of the texts, and which texts are sent. The bytes are
looked at through `val`, and `newline` is the byte that is sent at the end of a line. -/
def Typed.byte (val : β → UInt8) (newline b : β) (attached : Bool) (t : Typed β) :
    Typed β × List (List β) :=
  let c := val b
  if t.detaches val b then (.nothing, [])
  else if c = 8 ∨ c = 127 then
    if 0 < t.line.length then
      let t' := { t with line := t.line.dropLast }
      if t.held then (t', []) else (t'.send [b], [[b]])
    else (t, [])
  else if c = chr '\r' ∨ c = chr '\n' then
    let t' : Typed β := ⟨[], true, t.echo⟩
    if t.held ∧ 0 < t.line.length then ((t'.send t.line).send [newline], [t.line, [newline]])
    else (t'.send [newline], [[newline]])
  else if t.line.length + 1 < multiInput ∧ isText c then
    let t' := { t with line := t.line ++ [b] }
    if t.held ∧ !(multiAttachedDetachMatch (t'.line.map val)).1 then
      ({ t'.send t'.line with held := false }, [t'.line])
    else if t.held then (t', [])
    else (t'.send [b], [[b]])
  else if attached then (t.send [b], [[b]])
  else (t, [])

end

section
variable {β : Type}

/-! ### Whose bytes they are -/

/-- Every byte of the texts that can still be sent or be taken for an echo satisfies `P`. -/
structure Typed.Only (P : β → Prop) (t : Typed β) : Prop where
  echo : ∀ b ∈ t.echo, P b
  line : t.held = true → ∀ b ∈ t.line, P b

theorem mem_awaitEcho {pending text : List β} {b : β} (hb : b ∈ awaitEcho pending text) :
    b ∈ pending ∨ b ∈ text := by
  rcases List.mem_append.mp hb with hkept | hadded
  · refine .inl ?_
    dsimp only at hkept
    split_ifs at hkept
    · exact absurd hkept List.not_mem_nil
    · exact List.mem_of_mem_drop hkept
    · exact hkept
  · refine .inr ?_
    split_ifs at hadded
    · exact List.mem_of_mem_drop hadded
    · exact hadded

theorem Typed.Only.send {P : β → Prop} {t : Typed β} (ht : t.Only P) {text : List β}
    (htext : ∀ b ∈ text, P b) : (t.send text).Only P :=
  ⟨fun b hb => (mem_awaitEcho hb).elim (ht.echo b) (htext b), ht.line⟩

/-- The texts are of bytes that satisfy `P`, and so is what is sent. -/
def OnlySends (P : β → Prop) (r : Typed β × List (List β)) : Prop :=
  r.1.Only P ∧ ∀ text ∈ r.2, ∀ b ∈ text, P b

theorem Typed.Only.silent {P : β → Prop} {t : Typed β} (ht : t.Only P) : OnlySends P (t, []) :=
  ⟨ht, by simp⟩

theorem Typed.Only.sends {P : β → Prop} {t : Typed β} (ht : t.Only P) {text : List β}
    (htext : ∀ b ∈ text, P b) : OnlySends P (t.send text, [text]) :=
  ⟨ht.send htext, by simpa using htext⟩

/-- **A byte of a kind is typed** to texts of this kind, and only bytes of this kind are sent. -/
theorem Typed.Only.byte {P : β → Prop} {val : β → UInt8} {newline b : β} {attached : Bool}
    {t : Typed β} (ht : t.Only P) (hnewline : P newline) (hb : P b) :
    OnlySends P (t.byte val newline b attached) := by
  have hone : ∀ c ∈ [b], P c := by simpa using hb
  have hnl : ∀ c ∈ [newline], P c := by simpa using hnewline
  rw [Typed.byte]
  refine iteInduction (motive := OnlySends P) (fun _ => ?_) fun _ => ?_
  · exact ⟨⟨by simp [Typed.nothing], by simp [Typed.nothing]⟩, by simp⟩
  refine iteInduction (motive := OnlySends P) (fun _ => ?_) fun _ =>
    iteInduction (motive := OnlySends P) (fun _ => ?_) fun _ => ?_
  · -- a byte is rubbed out
    have hline : ({ t with line := t.line.dropLast } : Typed β).Only P :=
      ⟨ht.echo, fun hheld c hc => ht.line hheld c (List.mem_of_mem_dropLast hc)⟩
    refine iteInduction (motive := OnlySends P) (fun _ => ?_) fun _ => ht.silent
    exact iteInduction (motive := OnlySends P) (fun _ => hline.silent) fun _ => hline.sends hone
  · -- a line ends
    have hempty : (⟨[], true, t.echo⟩ : Typed β).Only P := ⟨ht.echo, by simp⟩
    refine iteInduction (motive := OnlySends P) (fun hheld => ?_) fun _ => hempty.sends hnl
    have hline := ht.line hheld.1
    refine ⟨(hempty.send hline).send hnl, ?_⟩
    simpa using ⟨hline, hnewline⟩
  · -- a line goes on
    have hline : t.held = true → ∀ c ∈ t.line ++ [b], P c := fun hheld c hc =>
      (List.mem_append.mp hc).elim (ht.line hheld c) (hone c)
    refine iteInduction (motive := OnlySends P) (fun _ => ?_) fun _ =>
      iteInduction (motive := OnlySends P) (fun _ => ht.sends hone) fun _ => ht.silent
    refine iteInduction (motive := OnlySends P) (fun hword => ?_) fun _ =>
      iteInduction (motive := OnlySends P) (fun hheld => ?_) fun hheld => ?_
    · refine ⟨⟨fun c hc => ?_, by simp⟩, by simpa using hline hword.1⟩
      exact (mem_awaitEcho hc).elim (ht.echo c) (hline hword.1 c)
    · exact (Typed.Only.silent ⟨ht.echo, hline⟩)
    · refine ⟨⟨fun c hc => ?_, fun hheld' => absurd hheld' hheld⟩, by simpa using hone⟩
      exact (mem_awaitEcho hc).elim (ht.echo c) (hone c)

end

/-! ### The handler, with these texts -/

/-- The state with other texts for the attached session. -/
def MultiState.retyped (s : MultiState) (t : Typed UInt8) : MultiState :=
  { s with attachedLine := t.line, attachedLineHeld := t.held, echoPending := t.echo }

theorem MultiState.retyped_typed (s : MultiState) : s.retyped s.typed = s := rfl

theorem multiSendLine'_retyped (s : MultiState) (t : Typed UInt8) (i : ℕ) (text : Bytes) :
    multiSendLine' (s.retyped t) i text =
      multiSendLine' s i text >>= fun s' => pure (s'.retyped t) := by
  rw [multiSendLine', multiSendLine', multiSendLine, multiSendLine]
  cases hfd : (s.sessions i).fd with
  | none => 
    rw [show ((s.retyped t).sessions i).fd = none from hfd]
    rfl
  | some fd =>
    rw [show ((s.retyped t).sessions i).fd = some fd from hfd]
    simp only [bind_assoc]
    refine bind_congr fun n => ?_
    split_ifs <;> rfl

/-- The texts are sent one after the other. -/
def multiSendTexts (i : ℕ) (texts : List Bytes) (s : MultiState) : Proc MultiState :=
  Prog.forEach texts (fun text s => multiSendLine' s i text) s

theorem multiSendTexts_one (i : ℕ) (text : Bytes) (s : MultiState) :
    multiSendTexts i [text] s = multiSendLine' s i text := by
  rw [multiSendTexts, Prog.forEach]
  exact Prog.bind_ret _

theorem multiSendTyped_retyped (s : MultiState) (t : Typed UInt8) (i : ℕ) (text : Bytes) :
    multiSendTyped i text (s.retyped t) =
      multiSendTexts i [text] s >>= fun s' => pure (s'.retyped (t.send text)) := by
  rw [multiSendTyped, multiSendLine'_retyped, multiSendTexts_one, bind_assoc]
  rfl

/-- What the terminal shows of a typed byte. -/
def typedShown (c : UInt8) (leaves : Bool) (activeId : ℕ) : Proc Unit :=
  if leaves then do
    sys (.tty .newline)
    multiPrintPrompt activeId
  else if c = 8 ∨ c = 127 then sys (.tty .rubout)
  else if c = chr '\r' ∨ c = chr '\n' then sys (.tty .newline)
  else do
    let _ ← (if 32 ≤ c ∧ c < 127 then wcatFullWrite .multi .stderr [c] else pure none)
    pure ()

/-- The texts of the byte are sent, something is shown, and the texts are kept. -/
def multiTypedAs (i : ℕ) (c : UInt8) (leaves : Bool) (r : Typed UInt8 × List Bytes)
    (s : MultiState) : Proc MultiState := do
  let s' ← multiSendTexts i r.2 s
  typedShown c leaves s.activeId
  pure (if leaves then { s'.retyped r.1 with attachedId := 0 } else s'.retyped r.1)

section
variable {i : ℕ} {c : UInt8} {s : MultiState}

theorem multiTypedAs_silent (t : Typed UInt8) : multiTypedAs i c false (t, []) s =
    typedShown c false s.activeId >>= fun _ => pure (s.retyped t) := rfl

theorem multiTypedAs_sends (t : Typed UInt8) (text : Bytes) :
    multiTypedAs i c false (t.send text, [text]) s =
      multiSendTyped i text (s.retyped t) >>= fun s' =>
        typedShown c false s.activeId >>= fun _ => pure s' := by
  rw [multiSendTyped_retyped, bind_assoc]
  rfl

/-- A byte that rubs out another one. -/
theorem multiTypedAs_rubout (h8 : c = 8 ∨ c = 127) (attached : Bool) :
    multiTypedAs i c false (s.typed.byte id (chr '\n') c attached) s =
      (if 0 < s.attachedLine.length then do
        let s := { s with attachedLine := s.attachedLine.dropLast }
        if !s.attachedLineHeld then multiSendTyped i [c] s else pure s
      else pure s) >>= fun s' => sys (.tty .rubout) >>= fun _ => pure s' := by
  have hd : s.typed.detaches id c = false := by rcases h8 with rfl | rfl <;> rfl
  have hshown : ∀ n, typedShown c false n = sys (.tty .rubout) := fun n => by
    rw [typedShown, if_neg (by simp), if_pos h8]
  rw [Typed.byte, hd, if_neg (by simp), id_eq, if_pos h8]
  by_cases hlen : 0 < s.attachedLine.length
  · rw [if_pos hlen, if_pos (show 0 < s.typed.line.length from hlen)]
    by_cases hheld : s.attachedLineHeld = true
    · rw [if_pos (show s.typed.held = true from hheld), multiTypedAs_silent, hshown]
      dsimp only
      rw [if_neg (show ¬(!s.attachedLineHeld) = true by simp [hheld])]
      rfl
    · rw [if_neg (show ¬s.typed.held = true from hheld), multiTypedAs_sends, hshown]
      dsimp only
      rw [if_pos (show (!s.attachedLineHeld) = true by simp [hheld])]
      rfl
  · rw [if_neg hlen, if_neg (show ¬0 < s.typed.line.length from hlen), multiTypedAs_silent, hshown]
    rfl

/-- The end of a line, or of a word. -/
theorem multiTypedAs_enter (h8 : ¬(c = 8 ∨ c = 127)) (hc : c = chr '\r' ∨ c = chr '\n')
    (attached : Bool) :
    multiTypedAs i c (s.typed.detaches id c) (s.typed.byte id (chr '\n') c attached) s =
      multiAttachedEnter i s := by
  have h1 : c ≠ 0x1d := by rcases hc with rfl | rfl <;> decide
  have hdet : s.typed.detaches id c =
      (s.attachedLineHeld && (multiAttachedDetachMatch s.attachedLine).2) := by
    rw [Typed.detaches]
    rcases hc with rfl | rfl <;> simp [MultiState.typed, chr]
  have hshown : ∀ n, typedShown c false n = sys (.tty .newline) := fun n => by
    rw [typedShown, if_neg (by simp), if_neg h8, if_pos hc]
  rw [multiAttachedEnter, Typed.byte]
  by_cases hword : s.attachedLineHeld ∧ (multiAttachedDetachMatch s.attachedLine).2
  · have hd : s.typed.detaches id c = true := by simpa [hdet] using hword
    rw [if_pos hword, hd, if_pos rfl]
    rfl
  · have hd : s.typed.detaches id c = false := by simpa [hdet, not_and] using hword
    rw [if_neg hword, hd, if_neg (by simp), id_eq, if_neg h8, if_pos hc]
    by_cases hheld : s.attachedLineHeld = true ∧ 0 < s.attachedLine.length
    · rw [if_pos hheld, if_pos (show s.typed.held = true ∧ 0 < s.typed.line.length from hheld)]
      rw [multiTypedAs, hshown, multiSendTexts, Prog.forEach, ← Prog.bind_def, bind_assoc]
      have hfst := multiSendTyped_retyped s s.typed i s.attachedLine
      rw [MultiState.retyped_typed, multiSendTexts_one] at hfst
      rw [hfst, bind_assoc]
      refine bind_congr fun s' => ?_
      rw [pure_bind]
      have hsnd := multiSendTyped_retyped s' ⟨[], true, (s.typed.send s.attachedLine).echo⟩ i [chr '\n']
      change _ = multiSendTyped i [chr '\n']
        (s'.retyped ⟨[], true, (s.typed.send s.attachedLine).echo⟩) >>= _
      rw [hsnd, bind_assoc]
      rfl
    · rw [if_neg hheld, if_neg (show ¬(s.typed.held = true ∧ 0 < s.typed.line.length) from hheld),
        multiTypedAs_sends, hshown]
      rfl

/-- A byte of a line. -/
theorem multiTypedAs_text (hd : s.typed.detaches id c = false) (h8 : ¬(c = 8 ∨ c = 127))
    (hc : ¬(c = chr '\r' ∨ c = chr '\n')) :
    multiTypedAs i c false (s.typed.byte id (chr '\n') c (s.attachedId ≠ 0)) s =
      multiAttachedText i c s := by
  have hshown : ∀ n, typedShown c false n = (do
      let _ ← (if 32 ≤ c ∧ c < 127 then wcatFullWrite .multi .stderr [c] else pure none)
      pure ()) := fun n => by
    rw [typedShown, if_neg (by simp), if_neg h8, if_neg hc]
  have hsilent : ∀ t, multiTypedAs i c false (t, []) s = pure (s.retyped t) >>= fun s' =>
      (if 32 ≤ c ∧ c < 127 then wcatFullWrite .multi .stderr [c] else pure none) >>= fun _ =>
        pure s' := fun t => by
    rw [multiTypedAs_silent, hshown, pure_bind, bind_assoc]
    rfl
  have hsends : ∀ t text, multiTypedAs i c false (t.send text, [text]) s =
      multiSendTyped i text (s.retyped t) >>= fun s' =>
        (if 32 ≤ c ∧ c < 127 then wcatFullWrite .multi .stderr [c] else pure none) >>= fun _ =>
          pure s' := fun t text => by
    rw [multiTypedAs_sends, hshown]
    refine bind_congr fun s' => ?_
    rw [bind_assoc]
    rfl
  rw [multiAttachedText, Typed.byte, hd, if_neg (by simp), id_eq, if_neg h8, if_neg hc]
  by_cases htext : s.attachedLine.length + 1 < multiInput ∧ isText c = true
  · rw [if_pos htext, if_pos (show s.typed.line.length + 1 < multiInput ∧ isText c = true from htext)]
    dsimp only
    rw [List.map_id]
    by_cases hword : s.attachedLineHeld = true ∧
        (!(multiAttachedDetachMatch (s.attachedLine ++ [c])).1) = true
    · rw [if_pos hword, if_pos (show s.typed.held = true ∧
        (!(multiAttachedDetachMatch (s.typed.line ++ [c])).1) = true from hword)]
      have hsend := multiSendTyped_retyped s ⟨s.attachedLine ++ [c], s.attachedLineHeld, s.echoPending⟩ i
        (s.attachedLine ++ [c])
      change _ = (multiSendTyped i (s.attachedLine ++ [c])
        (s.retyped ⟨s.attachedLine ++ [c], s.attachedLineHeld, s.echoPending⟩) >>= _) >>= _
      rw [hsend, bind_assoc, bind_assoc, multiTypedAs, hshown]
      refine bind_congr fun s' => ?_
      rw [pure_bind, pure_bind, bind_assoc]
      rfl
    · rw [if_neg hword, if_neg (show ¬(s.typed.held = true ∧
        (!(multiAttachedDetachMatch (s.typed.line ++ [c])).1) = true) from hword)]
      by_cases hheld : s.attachedLineHeld = true
      · rw [if_pos (show s.typed.held = true from hheld), hsilent,
          if_neg (show ¬(!s.attachedLineHeld) = true by simp [hheld])]
        rfl
      · rw [if_neg (show ¬s.typed.held = true from hheld), hsends,
          if_pos (show (!s.attachedLineHeld) = true by simp [hheld])]
        rfl
  · rw [if_neg htext, if_neg (show ¬(s.typed.line.length + 1 < multiInput ∧ isText c = true) from htext)]
    by_cases hatt : s.attachedId ≠ 0
    · rw [if_pos hatt, if_pos (by simpa using hatt), hsends]
      rfl
    · rw [if_neg hatt, if_neg (by simpa using hatt), hsilent]
      rfl

/-- **What a byte for the attached session does**: the texts it completes are sent one after the
other, and the texts that are kept become what `Wirecat.Typed.byte` says. -/
theorem multiAttachedByte_eq (i : ℕ) (c : UInt8) (s : MultiState) :
    multiAttachedByte i c s = multiTypedAs i c (s.typed.detaches id c)
      (s.typed.byte id (chr '\n') c (s.attachedId ≠ 0)) s := by
  rw [multiAttachedByte]
  by_cases h1 : c = 0x1d
  · have hd : s.typed.detaches id c = true := by simp [Typed.detaches, h1]
    rw [if_pos h1, Typed.byte, hd, if_pos rfl]
    rfl
  by_cases h8 : c = 8 ∨ c = 127
  · have hd : s.typed.detaches id c = false := by rcases h8 with rfl | rfl <;> rfl
    rw [if_neg h1, if_pos h8, hd, multiTypedAs_rubout h8]
  by_cases hc : c = chr '\r' ∨ c = chr '\n'
  · rw [if_neg h1, if_neg h8, if_pos hc, multiTypedAs_enter h8 hc]
  · have hd : s.typed.detaches id c = false := by
      obtain ⟨hr, hn⟩ := not_or.mp hc
      simp [Typed.detaches, h1, hr, hn]
    rw [if_neg h1, if_neg h8, if_neg hc, hd, multiTypedAs_text hd h8 hc]

end

/-! ### What it leaves behind -/

section
variable {F : Sys → Prop} {i : ℕ} {s : MultiState}

/-- A whole write only ever writes an end of the text. -/
theorem within_wcatFullWrite_suffix {via : Via} {fd : Fd} {buf : Bytes}
    (hw : ∀ b, b <:+ buf → F (.write via fd b)) :
    Within F (wcatFullWrite via fd buf) fun _ => True := by
  refine Within.loop (fun _ => True) trivial fun off _ => Within.ite (fun _ => ?_) fun _ => trivial
  refine Within.step (hw _ (List.drop_suffix off buf)) ?_
  rintro (⟨_ | n, -⟩ | err)
  · trivial
  · trivial
  · cases err <;> trivial

theorem MultiState.set_self (s : MultiState) (i : ℕ) : s.set i (s.sessions i) = s := by
  rw [MultiState.set, Function.update_eq_self]

theorem within_multiSendLine' {text : Bytes}
    (hw : ∀ fd buf, (s.sessions i).fd = some fd → buf <:+ text → F (.write .multi fd buf)) :
    Within F (multiSendLine' s i text) fun s' =>
      ∃ session, (s.sessions i).Kept session ∧ s' = s.set i session := by
  rw [multiSendLine', multiSendLine]
  split
  · exact ⟨_, .refl _, (s.set_self i).symm⟩
  · rename_i fd hfd
    rw [bind_assoc]
    refine Within.next (within_wcatFullWrite_suffix fun b hb => hw fd b hfd hb) fun n => ?_
    refine Within.bind' (Q := fun o => ∃ session, (s.sessions i).Kept session ∧
      o.getD s = s.set i session) ?_ fun _ ho => within_pure.mpr ho
    refine Within.ite (fun _ => ⟨_, .refl _, (s.set_self i).symm⟩) fun _ => ⟨_, ?_, rfl⟩
    exact ⟨rfl, rfl, fun hnone => absurd (hfd.symm.trans hnone) (by simp)⟩

/-- Sending texts counts them, and that is all. -/
def Counted (s s' : MultiState) : Prop :=
  SameSessions s s' ∧ s' = { s with sessions := s'.sessions }

theorem within_multiSendTexts {texts : List Bytes}
    (hw : ∀ fd buf text, (s.sessions i).fd = some fd → text ∈ texts → buf <:+ text →
      F (.write .multi fd buf)) :
    Within F (multiSendTexts i texts s) (Counted s) := by
  suffices hgen : ∀ s', Counted s s' → Within F (multiSendTexts i texts s') (Counted s) from
    hgen s ⟨.refl s, rfl⟩
  induction texts with
  | nil => exact fun s' hs' => hs'
  | cons text texts ih =>
    intro s' hs'
    refine (within_multiSendLine' fun fd buf hfd hsuf => ?_).bind' ?_
    · rw [(hs'.1.kept i).1] at hfd
      exact hw fd buf text hfd List.mem_cons_self hsuf
    · rintro _ ⟨session, hkept, rfl⟩
      refine ih (fun fd buf text hfd htext => hw fd buf text hfd (List.mem_cons_of_mem _ htext)) _ ?_
      refine ⟨hs'.1.trans (sameSessions_set hkept), ?_⟩
      exact congrArg (fun m => m.set i session) hs'.2

theorem within_typedShown (htty : ∀ n, F (.tty n)) (hout : ∀ buf, F (.write .multi .stderr buf))
    (c : UInt8) (leaves : Bool) (activeId : ℕ) :
    Within F (typedShown c leaves activeId) fun _ => True := by
  refine Within.ite (fun _ => Within.step (htty _) fun _ => within_sys (htty _)) fun _ => ?_
  refine Within.ite (fun _ => within_sys (htty _)) fun _ => Within.ite (fun _ => within_sys (htty _))
    fun _ => Within.next (Within.ite (fun _ => ?_) fun _ => trivial) fun _ => trivial
  exact within_wcatFullWrite hout [c]

/-- What the attached handler asks for: it writes to the session in slot `i` what is in `sent`, and
otherwise to the terminal. -/
def SendsOnly (s : MultiState) (i : ℕ) (sent : List Bytes) : Sys → Prop
  | .write _ fd buf => fd = .stderr ∨ (s.sessions i).fd = some fd ∧ ∃ text ∈ sent, buf <:+ text
  | .tty _ => True
  | _ => False

/-- What a byte for the attached session leaves behind: the texts `t`. -/
structure TypedEffect (s : MultiState) (leaves : Bool) (t : Typed UInt8) (s' : MultiState) : Prop where
  same : SameSessions s s'
  attachedId : s'.attachedId = if leaves then 0 else s.attachedId
  typed : s'.typed = t
  rest : s' = { s with
    sessions := s'.sessions
    attachedId := s'.attachedId
    attachedLine := s'.attachedLine
    attachedLineHeld := s'.attachedLineHeld
    echoPending := s'.echoPending }

theorem TypedEffect.activeId {s' : MultiState} {leaves : Bool} {t : Typed UInt8}
    (hs : TypedEffect s leaves t s') : s'.activeId = s.activeId := by
  rw [hs.rest]

theorem TypedEffect.input {s' : MultiState} {leaves : Bool} {t : Typed UInt8}
    (hs : TypedEffect s leaves t s') : s'.input = s.input := by
  rw [hs.rest]

/-- **A byte for the attached session** is typed as `Wirecat.Typed.byte` says, and nothing else is
written to the session. -/
theorem within_multiAttachedByte (c : UInt8) (s : MultiState) :
    Within (SendsOnly s i (s.typed.byte id (chr '\n') c (s.attachedId ≠ 0)).2)
      (multiAttachedByte i c s)
      (TypedEffect s (s.typed.detaches id c) (s.typed.byte id (chr '\n') c (s.attachedId ≠ 0)).1) := by
  rw [multiAttachedByte_eq]
  refine (within_multiSendTexts fun fd buf text hfd htext hsuf => .inr ⟨hfd, text, htext, hsuf⟩).bind' ?_
  rintro s' ⟨hsame, hrest⟩
  refine Within.next (within_typedShown (fun _ => trivial) (fun _ => .inl rfl) c _ _) fun _ => ?_
  generalize s'.sessions = sessions at hrest
  subst hrest
  cases s.typed.detaches id c <;> exact ⟨⟨hsame.kept, rfl⟩, rfl, rfl, rfl⟩

end

/-! ### A byte for the prompt -/

/-- The table and what is typed to the attached session are as they were. -/
structure Edited (s s' : MultiState) : Prop where
  sessions : s'.sessions = s.sessions
  nextId : s'.nextId = s.nextId
  activeId : s'.activeId = s.activeId
  attachedId : s'.attachedId = s.attachedId
  typed : s'.typed = s.typed

theorem Edited.refl (s : MultiState) : Edited s s := ⟨rfl, rfl, rfl, rfl, rfl⟩

theorem within_multiHistoryLoad (up : Bool) (s : MultiState) :
    Within (fun _ => True) (multiHistoryLoad up s) (Edited s) := by
  refine Within.ite (fun _ => .refl s) fun _ => ?_
  cases up <;> cases s.inputHistoryPos
  · exact .refl s
  · exact Within.ite (fun _ => Within.next (Within.all _) fun _ => ⟨rfl, rfl, rfl, rfl, rfl⟩)
      fun _ => Within.next (Within.all _) fun _ => ⟨rfl, rfl, rfl, rfl, rfl⟩
  · exact Within.next (Within.all _) fun _ => ⟨rfl, rfl, rfl, rfl, rfl⟩
  · exact Within.next (Within.all _) fun _ => ⟨rfl, rfl, rfl, rfl, rfl⟩

theorem within_multiHandleInputKey (key : UInt8) (s : MultiState) :
    Within (fun _ => True) (multiHandleInputKey key s) (Edited s) := by
  have hmove : ∀ n k, Within (R := Resp) (fun _ => True) (sys (.tty n) >>= fun _ =>
      pure { s with inputCursor := k }) (Edited s) :=
    fun n k => Within.step trivial fun _ => ⟨rfl, rfl, rfl, rfl, rfl⟩
  refine Within.ite (fun _ => within_multiHistoryLoad true s) fun _ => ?_
  refine Within.ite (fun _ => within_multiHistoryLoad false s) fun _ => ?_
  refine Within.ite (fun _ => Within.ite (fun _ => hmove _ _) fun _ => .refl s) fun _ => ?_
  refine Within.ite (fun _ => Within.ite (fun _ => hmove _ _) fun _ => .refl s) fun _ => ?_
  refine Within.ite (fun _ => Within.ite (fun _ => hmove _ _) fun _ => .refl s) fun _ => ?_
  exact Within.ite (fun _ => Within.ite (fun _ => hmove _ _) fun _ => .refl s) fun _ => .refl s

/-- An escape sequence only edits. -/
theorem within_multiEscape {c : UInt8} {s : MultiState} {p : Proc MultiState}
    (hp : multiEscape c s = some p) : Within (fun _ => True) p (Edited s) := by
  have hkey : ∀ key state, Within (R := Resp) (fun _ => True) (multiHandleInputKey key s >>= fun s' =>
      pure { s' with escState := state }) (Edited s) := fun key state =>
    (within_multiHandleInputKey key s).bind' fun _ h =>
      ⟨h.sessions, h.nextId, h.activeId, h.attachedId, h.typed⟩
  rw [multiEscape] at hp
  split at hp
  · exact absurd hp (by simp)
  · obtain rfl := Option.some.inj hp
    exact ⟨rfl, rfl, rfl, rfl, rfl⟩
  · split_ifs at hp <;> obtain rfl := Option.some.inj hp
    · exact hkey c .ground
    · exact ⟨rfl, rfl, rfl, rfl, rfl⟩
    · exact ⟨rfl, rfl, rfl, rfl, rfl⟩
  · obtain rfl := Option.some.inj hp
    exact hkey _ .ground
  · obtain rfl := Option.some.inj hp
    have hdone : ∀ state, ∀ s', Edited s s' → Edited s { s' with escState := state } :=
      fun _ _ h => ⟨h.sessions, h.nextId, h.activeId, h.attachedId, h.typed⟩
    refine Within.bind' (Q := Edited s) ?_ fun s' hs' => hdone _ s' hs'
    refine Within.ite (fun _ => ?_) fun _ => .refl s
    refine Within.ite (fun _ => within_multiHandleInputKey _ s) fun _ => ?_
    exact Within.ite (fun _ => within_multiHandleInputKey _ s) fun _ => .refl s
  · obtain rfl := Option.some.inj hp
    exact ⟨rfl, rfl, rfl, rfl, rfl⟩

/-- The line that a byte ends. -/
def completed : TypingMode → UInt8 → MultiState → Option Bytes
  | .lines, c, s =>
      if c = chr '\n' ∨ (s.input ++ [c]).length = multiInput then some (s.input ++ [c]) else none
  | .editor, c, s =>
      if s.escState = .ground ∧ (c = chr '\r' ∨ c = chr '\n') then
        some (if s.input.length < multiInput then s.input ++ [chr '\n'] else s.input)
      else none
  | .attached _, _, _ => none

/-- What a byte for the prompt can do: it edits, and the line it ends is carried out. -/
def CommandEffect (max : ℕ) (h h' : Hist) (s s' : MultiState) : Option Bytes → Prop
  | none => Edited s s'
  | some line => ∃ s₁ s₂, Edited s s₁ ∧ LineEffect max line h h' s₁ s₂ ∧ s₂.typed = s₁.typed ∧
      Edited s₂ s'

/-- A line leaves what is typed to the attached session alone. -/
theorem typed_multiHandleInputLine {max : ℕ} {line : Bytes} {s s' : MultiState}
    (hr : Runs legal (multiHandleInputLine max line s) h h' (some s')) : s'.typed = s.typed := by
  have htext := textless_multiHandleInputLine max line s s
  change multiHandleInputLine max line s = _ at htext
  rw [htext, runs_bind_some'] at hr
  obtain ⟨s₁, h₁, -, hret⟩ := hr
  obtain ⟨-, rfl⟩ := runs_pure.mp hret
  rfl

/-- The line is carried out in the state `s₁`, and then some texts are cleared. -/
theorem commandEffect_line {max : ℕ} {line : Bytes} {s s₁ s' : MultiState} {h₀ : Hist}
    {f : MultiState → MultiState} (hsuf : h₀ <:+ h) (hs : Edited s s₁) (hf : ∀ s, Edited s (f s))
    (hr : Runs legal (multiHandleInputLine max line s₁ >>= fun s => pure (f s)) h h' (some s')) :
    CommandEffect max h₀ h' s s' (some line) := by
  obtain ⟨s₂, h₁, hline, hret⟩ := runs_bind_some'.mp hr
  obtain ⟨rfl, rfl⟩ := runs_pure.mp hret
  have heffect := effective_multiHandleInputLine _ _ _ _ hline
  exact ⟨s₁, s₂, hs, heffect.mono hsuf (List.suffix_refl _), typed_multiHandleInputLine hline, hf s₂⟩

theorem runs_multiLineByte {max : ℕ} {c : UInt8} {s s' : MultiState}
    (hr : Runs legal (multiLineByte max c s) h h' (some s')) :
    CommandEffect max h h' s s' (completed .lines c s) := by
  by_cases hc : c = chr '\n' ∨ (s.input ++ [c]).length = multiInput
  · rw [multiLineByte_end hc] at hr
    rw [completed, if_pos hc]
    exact commandEffect_line (f := fun s => { s with input := [] }) (List.suffix_refl h) (.refl s)
      (fun _ => ⟨rfl, rfl, rfl, rfl, rfl⟩) hr
  · rw [multiLineByte, if_neg hc] at hr
    rw [completed, if_neg hc]
    obtain ⟨-, rfl⟩ := runs_pure.mp hr
    exact ⟨rfl, rfl, rfl, rfl, rfl⟩

theorem multiEscape_eq_none {c : UInt8} {s : MultiState} :
    multiEscape c s = none ↔ s.escState = .ground := by
  cases hs : s.escState <;> simp only [multiEscape, hs, reduceCtorEq]
  split_ifs <;> simp

theorem runs_multiEditorText {max : ℕ} {c : UInt8} {s s' : MultiState} (hs : s.escState = .ground)
    (hr : Runs legal (multiEditorText max c s) h h' (some s')) :
    CommandEffect max h h' s s' (completed .editor c s) := by
  have hedit : ∀ input cursor pos, Within (R := Resp) (fun _ => True)
      (multiRedrawInput { s with input := input, inputCursor := cursor, inputHistoryPos := pos } >>=
        fun _ => pure { s with input := input, inputCursor := cursor, inputHistoryPos := pos })
      (Edited s) := fun _ _ _ => Within.next (Within.all _) fun _ => ⟨rfl, rfl, rfl, rfl, rfl⟩
  by_cases hc : c = chr '\r' ∨ c = chr '\n'
  · have hesc : c ≠ escape := by rcases hc with rfl | rfl <;> decide
    rw [multiEditorText, if_neg hesc, if_pos hc] at hr
    rw [completed, if_pos ⟨hs, hc⟩]
    generalize (if s.input.length < multiInput then s.input ++ [chr '\n'] else s.input) = line at hr ⊢
    obtain ⟨_, -, hr⟩ := runs_ask.mp hr
    refine commandEffect_line (f := fun s => { s with input := [], inputCursor := 0 })
      (List.suffix_cons _ _) ?_ (fun _ => ⟨rfl, rfl, rfl, rfl, rfl⟩) hr
    exact ⟨rfl, rfl, rfl, rfl, rfl⟩
  · rw [completed, if_neg fun h => hc h.2]
    refine Within.result (F := fun _ => True) (Q := Edited s) ?_ hr
    refine Within.ite (fun _ => ⟨rfl, rfl, rfl, rfl, rfl⟩) fun _ => ?_
    rw [if_neg hc]
    refine Within.ite (fun _ => Within.ite (fun _ => hedit _ _ _) fun _ => .refl s) fun _ => ?_
    exact Within.ite (fun _ => hedit _ _ _) fun _ => .refl s

theorem runs_multiEditorByte {max : ℕ} {c : UInt8} {s s' : MultiState}
    (hr : Runs legal (multiEditorByte max c s) h h' (some s')) :
    CommandEffect max h h' s s' (completed .editor c s) := by
  rw [multiEditorByte] at hr
  cases hesc : multiEscape c s with
  | some p =>
    have hground : s.escState ≠ .ground := fun hg => by simp [multiEscape, hg] at hesc
    rw [hesc] at hr
    rw [completed, if_neg fun h => hground h.1]
    exact (within_multiEscape hesc).result hr
  | none =>
    rw [hesc] at hr
    exact runs_multiEditorText (multiEscape_eq_none.mp hesc) hr

end Wirecat
