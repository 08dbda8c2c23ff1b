import Wirecat.Frames

/-!
# The line editor

`multi_handle_interactive_stdin` keeps a line, a cursor, a history and the place in an
escape sequence; nothing else of the listener touches these (`Wirecat.MultiStep.editor`),
and a byte touches nothing else of the line editor than `Wirecat.EditorEffect` lists. A run
in which bytes are typed to the editor (`Wirecat.EditorRun`) is therefore a run of the
editor alone, with the other steps of the listener in between.

The line fits its array at all times (`Wirecat.LineFits`): what is typed is not inserted into
a full line, and an entry of the history is one byte shorter than the array. But Enter needs
room for one byte more. `Wirecat.Submits` is what Enter is for, and it is what Enter does
exactly when the line is shorter than the array: `Wirecat.submits_iff`. A full line is carried
out without its end (`Wirecat.not_submits`).
-/

namespace Wirecat

open CString Interaction

/-! ### The editor -/

/-- What the line editor keeps. -/
structure Editor where
  input : Bytes
  cursor : ℕ
  escState : EscState
  history : List Bytes
  historyPos : Option ℕ

/-- The line editor of a state. -/
def MultiState.editor (s : MultiState) : Editor :=
  ⟨s.input, s.inputCursor, s.escState, s.inputHistory, s.inputHistoryPos⟩

/-- The entry `k` of the history is put on the line. -/
def Editor.recall (e : Editor) (k : ℕ) : Editor :=
  let line := ofBuffer (e.history.getD k [])
  { e with historyPos := some k, input := line, cursor := line.length }

/-- **What a key does** to the line: it moves the cursor, or it goes through the history. -/
inductive KeyEffect (e : Editor) : Editor → Prop
  /-- Nothing. -/
  | same : KeyEffect e e
  /-- The cursor moves. -/
  | moved {k : ℕ} (hk : k ≤ e.cursor ∨ k ≤ e.input.length) : KeyEffect e { e with cursor := k }
  /-- An entry of the history is put on the line. -/
  | recalled (k : ℕ) : KeyEffect e (e.recall k)
  /-- The line is emptied, behind the last entry. -/
  | emptied : KeyEffect e { e with historyPos := none, input := [], cursor := 0 }

/-- Where an escape sequence is after one more byte. -/
def EscState.next : EscState → UInt8 → EscState
  | .ground, c => if c = Wirecat.escape then .escape else .ground
  | .escape, c => if c = chr '[' then .bracket else if c = chr 'O' then .letterO else .ground
  | .bracket, c => if chr '0' ≤ c ∧ c ≤ chr '9' then .digit c else .ground
  | .letterO, _ => .ground
  | .digit _, c => if c = chr '~' then .ground else .skip
  | .skip, c => if (chr 'A' ≤ c ∧ c ≤ chr 'Z') ∨ c = chr '~' then .ground else .skip

/-- The line that Enter ends. -/
def Editor.line (e : Editor) : Bytes :=
  if e.input.length < multiInput then e.input ++ [chr '\n'] else e.input

/-- **What a byte does** to the line. -/
inductive EditorEffect (c : UInt8) (e : Editor) : Editor → Prop
  /-- It is part of an escape sequence, and may be a key. -/
  | key {e' : Editor} (hesc : e.escState ≠ .ground) (hkey : KeyEffect e e') :
      EditorEffect c e { e' with escState := e.escState.next c }
  /-- It begins one. -/
  | begins (hground : e.escState = .ground) (hc : c = escape) :
      EditorEffect c e { e with escState := .escape }
  /-- It ends the line. -/
  | enter (hground : e.escState = .ground) (hc : c = chr '\r' ∨ c = chr '\n') :
      EditorEffect c e { e with
        input := []
        cursor := 0
        history := multiHistorySave e.history e.line
        historyPos := none }
  /-- It rubs out the byte before the cursor. -/
  | erased (hground : e.escState = .ground) (hc : c = 8 ∨ c = 127) (hcursor : 0 < e.cursor) :
      EditorEffect c e { e with
        input := e.input.take (e.cursor - 1) ++ e.input.drop e.cursor
        cursor := e.cursor - 1
        historyPos := none }
  /-- It is inserted. -/
  | inserted (hground : e.escState = .ground) (htext : isText c = true)
      (hroom : e.input.length < multiInput) :
      EditorEffect c e { e with
        input := e.input.take e.cursor ++ [c] ++ e.input.drop e.cursor
        cursor := e.cursor + 1
        historyPos := none }
  /-- It is ignored. -/
  | ignored (hground : e.escState = .ground) (hc : c ≠ escape) : EditorEffect c e e

theorem within_editor_multiHistoryLoad (up : Bool) (s : MultiState) :
    Within (fun _ => True) (multiHistoryLoad up s) fun s' => KeyEffect s.editor s'.editor := by
  refine Within.ite (fun _ => .same) fun _ => ?_
  cases up <;> cases s.inputHistoryPos
  · exact .same
  · exact Within.ite (fun _ => Within.next (Within.all _) fun _ => .recalled _)
      fun _ => Within.next (Within.all _) fun _ => .emptied
  · exact Within.next (Within.all _) fun _ => .recalled _
  · exact Within.next (Within.all _) fun _ => .recalled _

theorem within_editor_multiHandleInputKey (key : UInt8) (s : MultiState) :
    Within (fun _ => True) (multiHandleInputKey key s) fun s' => KeyEffect s.editor s'.editor := by
  have hmove : ∀ n k, k ≤ s.inputCursor ∨ k ≤ s.input.length →
      Within (R := Resp) (fun _ => True) (sys (.tty n) >>= fun _ =>
        pure { s with inputCursor := k }) fun s' => KeyEffect s.editor s'.editor :=
    fun n k hk => Within.step trivial fun _ => .moved hk
  refine Within.ite (fun _ => within_editor_multiHistoryLoad true s) fun _ => ?_
  refine Within.ite (fun _ => within_editor_multiHistoryLoad false s) fun _ => ?_
  refine Within.ite (fun _ => Within.ite (fun _ => ?_) fun _ => .same) fun _ => ?_
  · exact hmove _ _ (.inl (Nat.sub_le _ _))
  refine Within.ite (fun _ => Within.ite (fun hlt => ?_) fun _ => .same) fun _ => ?_
  · exact hmove _ _ (.inr hlt)
  refine Within.ite (fun _ => Within.ite (fun _ => ?_) fun _ => .same) fun _ => ?_
  · exact hmove _ _ (.inl (Nat.zero_le _))
  refine Within.ite (fun _ => Within.ite (fun _ => ?_) fun _ => .same) fun _ => .same
  exact hmove _ _ (.inr (le_refl _))

/-- A key, and then the place in the escape sequence. -/
theorem within_editor_key {c : UInt8} {s : MultiState} {p : Proc MultiState} {state : EscState}
    (hesc : s.escState ≠ .ground) (hnext : s.escState.next c = state)
    (hp : Within (fun _ => True) p fun s' => KeyEffect s.editor s'.editor) :
    Within (fun _ => True) (p >>= fun s' => pure { s' with escState := state })
      fun s' => EditorEffect c s.editor s'.editor := by
  subst hnext
  exact hp.bind' fun s' hs' => .key hesc hs'

theorem within_editor_multiEscape {c : UInt8} {s : MultiState} {p : Proc MultiState}
    (hp : multiEscape c s = some p) :
    Within (fun _ => True) p fun s' => EditorEffect c s.editor s'.editor := by
  have hkeep : ∀ {state}, s.escState ≠ .ground → s.escState.next c = state →
      EditorEffect c s.editor { s with escState := state }.editor := by
    rintro _ hesc rfl
    exact .key hesc .same
  have hletters : ∀ c ∈ lit "ABCDHF", ¬(chr '0' ≤ c ∧ c ≤ chr '9') := by decide +kernel
  rw [multiEscape] at hp
  split at hp
  · exact absurd hp (by simp)
  · rename_i hs
    obtain rfl := Option.some.inj hp
    exact hkeep (by simp [hs]) (by rw [hs, EscState.next])
  · rename_i hs
    split_ifs at hp with hletter hdigit <;> obtain rfl := Option.some.inj hp
    · refine within_editor_key (by simp [hs]) ?_ (within_editor_multiHandleInputKey c s)
      rw [hs, EscState.next, if_neg (hletters c hletter)]
    · exact hkeep (by simp [hs]) (by rw [hs, EscState.next, if_pos hdigit])
    · exact hkeep (by simp [hs]) (by rw [hs, EscState.next, if_neg hdigit])
  · rename_i hs
    obtain rfl := Option.some.inj hp
    exact within_editor_key (by simp [hs]) (by rw [hs, EscState.next])
      (within_editor_multiHandleInputKey _ s)
  · rename_i digit hs
    obtain rfl := Option.some.inj hp
    refine within_editor_key (by simp [hs]) (by rw [hs, EscState.next]) ?_
    refine Within.ite (fun _ => ?_) fun _ => .same
    refine Within.ite (fun _ => within_editor_multiHandleInputKey _ s) fun _ => ?_
    exact Within.ite (fun _ => within_editor_multiHandleInputKey _ s) fun _ => .same
  · rename_i hs
    obtain rfl := Option.some.inj hp
    exact hkeep (by simp [hs]) (by rw [hs, EscState.next])

/-- A line leaves the editor alone. -/
theorem within_editor_multiHandleInputLine (max : ℕ) (line : Bytes) (s : MultiState) :
    Within (fun _ => True) (multiHandleInputLine max line s) fun s' => s'.editor = s.editor := by
  have htext := textless_multiHandleInputLine max line s s
  change multiHandleInputLine max line s = _ at htext
  rw [htext]
  exact Within.next (Within.all _) fun _ => rfl

theorem within_editor_multiEditorText {max : ℕ} {c : UInt8} {s : MultiState}
    (hs : s.escState = .ground) :
    Within (fun _ => True) (multiEditorText max c s) fun s' =>
      EditorEffect c s.editor s'.editor := by
  refine Within.ite (fun hc => .begins hs hc) fun hesc => ?_
  refine Within.ite (fun hc => Within.step trivial fun _ => ?_) fun _ => ?_
  · refine (within_editor_multiHandleInputLine max _ _).bind' fun s' hs' => ?_
    obtain ⟨-, -, hstate, hhistory, hpos⟩ := Editor.mk.inj hs'
    have heffect := EditorEffect.enter (c := c) (e := s.editor) hs hc
    rw [MultiState.editor, hstate, hhistory, hpos]
    exact heffect
  refine Within.ite (fun hc => Within.ite (fun hlt => ?_) fun _ => .ignored hs hesc) fun _ => ?_
  · exact Within.next (Within.all _) fun _ => .erased hs hc hlt
  refine Within.ite (fun hc => ?_) fun _ => .ignored hs hesc
  exact Within.next (Within.all _) fun _ => .inserted hs hc.1 hc.2

/-- **A byte does nothing to the editor** that `Wirecat.EditorEffect` does not list. -/
theorem within_editor_multiEditorByte (max : ℕ) (c : UInt8) (s : MultiState) :
    Within (fun _ => True) (multiEditorByte max c s) fun s' =>
      EditorEffect c s.editor s'.editor := by
  rw [multiEditorByte]
  cases hesc : multiEscape c s with
  | some p => exact within_editor_multiEscape hesc
  | none => exact within_editor_multiEditorText (multiEscape_eq_none.mp hesc)

/-- The place in an escape sequence only depends on the bytes. -/
theorem EditorEffect.escState {c : UInt8} {e e' : Editor} (he : EditorEffect c e e') :
    e'.escState = e.escState.next c := by
  have henter : ∀ c, (c = chr '\r' ∨ c = chr '\n') → c ≠ escape := by
    rintro _ (rfl | rfl) <;> decide
  have hrubout : ∀ c, (c = 8 ∨ c = 127) → c ≠ escape := by rintro _ (rfl | rfl) <;> decide
  have hground : ∀ {c}, e.escState = .ground → c ≠ escape → e.escState = e.escState.next c := by
    intro c hg hc
    rw [hg, EscState.next, if_neg hc]
  cases he with
  | key hesc hkey => rfl
  | begins hg hc => rw [hg, EscState.next, if_pos hc]
  | enter hg hc => exact hground hg (henter c hc)
  | erased hg hc hcursor => exact hground hg (hrubout c hc)
  | inserted hg htext hroom =>
    refine hground hg ?_
    rintro rfl
    exact absurd htext (by decide)
  | ignored hg hc => exact hground hg hc

/-! ### What leaves the editor alone -/

/-- The line editor is in the frame of every slot. -/
theorem slotFrame_editor (i : ℕ) : SlotFrame i MultiState.editor where
  set _ _ := rfl
  attached _ _ := rfl
  active _ _ := rfl
  echo _ _ := rfl
  result _ _ := rfl

variable {cfg : Config} {interactive : Bool} {listener : Fd}

/-- No byte is about to be handled for the prompt. -/
def MultiPhase.unprompted (phase : MultiPhase) : Prop :=
  ∀ mode c rest polled, phase = .typing mode (c :: rest) polled → ∃ i, mode = .attached i

/-- **A step in which no byte is handled for the prompt** leaves the editor alone. -/
theorem MultiStep.editor {x y : MultiPoint} (hstep : MultiStep cfg interactive listener x y)
    (hx : x.phase.unprompted) : y.state.editor = x.state.editor := by
  cases hstep with
  | idle hr => rw [runs_multiWait hr]
  | accept hw hr => rcases runs_multiGreet hr with rfl | ⟨i, peer, -, -, rfl⟩ <;> rfl
  | quiet => rfl
  | vanished hm hr =>
    rw [runs_multiVanished hr]
    rfl
  | read hm hr => rfl
  | @typed s s' h h' mode c rest polled hr =>
    obtain ⟨i, rfl⟩ := hx mode c rest polled rfl
    have hrest := ((within_multiAttachedByte c s).result hr).rest
    rw [hrest]
    rfl
  | typedAll => rfl
  | slot hi hr => exact (within_slotFrame (slotFrame_editor _) _ _ _ _).result hr
  | broken hi hr => exact (within_slotFrame (slotFrame_editor _) _ _ _ _).result hr
  | served => rfl

/-- A step in which a byte is handled by the editor. -/
theorem MultiStep.typedEditor {x y : MultiPoint} {c : UInt8} {rest : Bytes}
    {polled : List (PollFd × Revents)} (hstep : MultiStep cfg interactive listener x y)
    (hphase : x.phase = .typing .editor (c :: rest) polled) :
    EditorEffect c x.state.editor y.state.editor ∧ y.phase = .typing .editor rest polled := by
  obtain ⟨s, h, _⟩ := x
  obtain rfl : _ = _ := hphase
  cases hstep with
  | typed hr => exact ⟨(within_editor_multiEditorByte _ c s).result hr, rfl⟩

/-! ### The line fits -/

/-- **The line fits its array**, the cursor is on the line, and so it would be with an entry of the
history. -/
structure Editor.Fits (e : Editor) : Prop where
  length : e.input.length ≤ multiInput
  cursor : e.cursor ≤ e.input.length
  entries : ∀ entry ∈ e.history, entry.length < multiInput

/-- An entry is an older one, or the line without its end. -/
theorem mem_multiHistorySave {history : List Bytes} {line entry : Bytes}
    (he : entry ∈ multiHistorySave history line) :
    entry ∈ history ∨ entry = (multiLineTrim line).take (multiInput - 1) := by
  rw [multiHistorySave] at he
  generalize (multiLineTrim line).take (multiInput - 1) = saved at he
  have hnew : ∀ old : List Bytes, old ⊆ history → entry ∈ old ++ [saved] →
      entry ∈ history ∨ entry = saved := by
    intro old hold hmem
    rcases List.mem_append.mp hmem with hmem | hmem
    · exact .inl (hold hmem)
    · exact .inr (List.mem_singleton.mp hmem)
  dsimp only at he
  split_ifs at he
  · exact .inl he
  · exact .inl he
  · exact hnew _ (List.drop_subset _ _) he
  · exact hnew _ (List.Subset.refl _) he

/-- An entry that is saved is shorter than the array. -/
theorem length_of_multiHistorySave {history : List Bytes} {line entry : Bytes}
    (he : entry ∈ multiHistorySave history line) : entry ∈ history ∨ entry.length < multiInput := by
  refine (mem_multiHistorySave he).imp_right ?_
  rintro rfl
  exact (List.length_take_le _ _).trans_lt (by decide)

theorem Editor.Fits.recall {e : Editor} (he : e.Fits) (k : ℕ) : (e.recall k).Fits := by
  refine ⟨?_, le_refl _, he.entries⟩
  refine (ofBuffer_isPrefix _).length_le.trans ?_
  rw [List.getD_eq_getElem?_getD]
  cases hentry : e.history[k]? with
  | none => exact Nat.zero_le _
  | some entry => exact (he.entries _ (List.mem_of_getElem? hentry)).le

theorem KeyEffect.fits {e e' : Editor} (hkey : KeyEffect e e') (he : e.Fits) : e'.Fits := by
  cases hkey with
  | same => exact he
  | moved hk =>
    refine ⟨he.length, ?_, he.entries⟩
    rcases hk with hk | hk
    · exact hk.trans he.cursor
    · exact hk
  | recalled k => exact he.recall k
  | emptied => exact ⟨Nat.zero_le _, le_refl _, he.entries⟩

/-- **A byte keeps the line in its array.** -/
theorem EditorEffect.fits {c : UInt8} {e e' : Editor} (hbyte : EditorEffect c e e') (he : e.Fits) :
    e'.Fits := by
  obtain ⟨hlength, hcursor, hentries⟩ := he
  cases hbyte with
  | key hesc hkey =>
    obtain ⟨hlength', hcursor', hentries'⟩ := hkey.fits ⟨hlength, hcursor, hentries⟩
    exact ⟨hlength', hcursor', hentries'⟩
  | begins hground hc => exact ⟨hlength, hcursor, hentries⟩
  | enter hground hc =>
    refine ⟨Nat.zero_le _, le_refl _, fun entry hmem => ?_⟩
    rcases length_of_multiHistorySave hmem with hold | hnew
    · exact hentries entry hold
    · exact hnew
  | erased hground hc hpos =>
    refine ⟨?_, ?_, hentries⟩ <;> simp only [List.length_append, List.length_take, List.length_drop]
    · omega
    · omega
  | inserted hground htext hroom =>
    refine ⟨?_, ?_, hentries⟩ <;>
      simp only [List.length_append, List.length_take, List.length_drop, List.length_singleton]
    · omega
    · omega
  | ignored hground hc => exact ⟨hlength, hcursor, hentries⟩

/-- What holds of the line editor between two steps. -/
def Edits (interactive : Bool) (x : MultiPoint) : Prop :=
  interactive = true → x.state.editor.Fits ∧
    ∀ mode rest polled, x.phase = .typing mode rest polled → mode ≠ .lines

theorem edits_multiStart (h : Hist) : Edits interactive (multiStart h) := by
  refine fun _ => ⟨⟨Nat.zero_le _, le_refl _, ?_⟩, by simp [multiStart]⟩
  exact fun entry hmem => absurd hmem List.not_mem_nil

theorem Edits.of_editor {x y : MultiPoint} (hx : Edits interactive x)
    (heditor : y.state.editor = x.state.editor)
    (hphase : ∀ mode rest polled, y.phase = .typing mode rest polled →
      interactive = true → mode ≠ .lines) : Edits interactive y := by
  refine fun hi => ⟨?_, fun mode rest polled hy => hphase mode rest polled hy hi⟩
  rw [heditor]
  exact (hx hi).1

theorem MultiStep.edits {x y : MultiPoint} (hstep : MultiStep cfg interactive listener x y)
    (hx : Edits interactive x) : Edits interactive y := by
  have hother : x.phase.unprompted → y.state.editor = x.state.editor := hstep.editor
  cases hstep with
  | @read s h h' mode bytes polled hm hr =>
    refine hx.of_editor rfl ?_
    rintro _ _ _ ⟨⟩ hi rfl
    rw [typingMode] at hm
    split_ifs at hm with hatt
    · simp at hm
    · simp at hm
  | @typed s s' h h' mode c rest polled hr =>
    intro hi
    obtain ⟨hfits, hmode⟩ := hx hi
    have hne := hmode _ _ _ rfl
    refine ⟨?_, by rintro _ _ _ ⟨⟩; exact hne⟩
    cases mode with
    | lines => exact absurd rfl hne
    | editor => exact ((within_editor_multiEditorByte _ c s).result hr).fits hfits
    | attached i =>
      have heditor := hother (by rintro _ _ _ _ ⟨⟩; exact ⟨i, rfl⟩)
      dsimp only at heditor ⊢
      rw [heditor]
      exact hfits
  | typedAll => exact hx.of_editor rfl (by simp)
  | idle _ => exact hx.of_editor (hother (by rintro _ _ _ _ ⟨⟩)) (by simp)
  | accept _ _ => exact hx.of_editor (hother (by rintro _ _ _ _ ⟨⟩)) (by simp)
  | quiet => exact hx.of_editor rfl (by simp)
  | vanished _ _ => exact hx.of_editor (hother (by rintro _ _ _ _ ⟨⟩)) (by simp)
  | slot _ _ => exact hx.of_editor (hother (by rintro _ _ _ _ ⟨⟩)) (by simp)
  | broken _ _ => exact hx.of_editor (hother (by rintro _ _ _ _ ⟨⟩)) (by simp)
  | served => exact hx.of_editor rfl (by simp)

/-- **At every moment of every run** the line fits. -/
theorem MultiSteps.edits {x y : MultiPoint} (hs : MultiSteps cfg interactive listener x y)
    (hx : Edits interactive x) : Edits interactive y := by
  induction hs with
  | refl => exact hx
  | tail _ hstep ih => exact hstep.edits ih

/-! ### Enter -/

/-- The part of `multi_handle_interactive_stdin` for a byte that ends the line, for whatever is done
with the line. -/
def multiEnter (handle : Bytes → MultiState → Proc MultiState) (s : MultiState) : Proc MultiState := do
  let line := if s.input.length < multiInput then s.input ++ [chr '\n'] else s.input
  sys (.tty .newline)
  let s := { s with inputHistory := multiHistorySave s.inputHistory line, inputHistoryPos := none }
  let s ← handle line s
  pure { s with input := [], inputCursor := 0 }

/-- `Wirecat.multiEditorByte`, for whatever is done with a line. -/
def multiEditorByteTo (handle : Bytes → MultiState → Proc MultiState) (max : ℕ) (c : UInt8)
    (s : MultiState) : Proc MultiState :=
  if s.escState = .ground ∧ (c = chr '\r' ∨ c = chr '\n') then multiEnter handle s
  else multiEditorByte max c s

/-- What the editor does with a line is `multi_handle_input_line`. -/
theorem multiEditorByteTo_handleInputLine (max : ℕ) (c : UInt8) (s : MultiState) :
    multiEditorByteTo (multiHandleInputLine max) max c s = multiEditorByte max c s := by
  by_cases hc : s.escState = .ground ∧ (c = chr '\r' ∨ c = chr '\n')
  · obtain ⟨hground, henter⟩ := hc
    have hesc : c ≠ escape := by rcases henter with rfl | rfl <;> decide
    rw [multiEditorByteTo, if_pos ⟨hground, henter⟩, multiEditorByte,
      multiEscape_eq_none.mpr hground, Option.getD_none, multiEditorText, if_neg hesc,
      if_pos henter]
    rfl
  · rw [multiEditorByteTo, if_neg hc]

/-- **Enter submits the line**: whatever is done with a line – and the editor hands it to
`multi_handle_input_line` – is done with the text and one line feed, and after that the line is
empty. -/
def Submits (max : ℕ) (c : UInt8) (s : MultiState) : Prop :=
  multiEditorByteTo (multiHandleInputLine max) max c s = multiEditorByte max c s ∧
  ∀ handle h h' s', Runs Legal (multiEditorByteTo handle max c s) h h' (some s') →
    ∃ s₁ s₂ h₁ h₂, Edited s s₁ ∧ h <:+ h₁ ∧
      Runs Legal (handle (s.input ++ [chr '\n']) s₁) h₁ h₂ (some s₂) ∧ h₂ <:+ h' ∧
      s' = { s₂ with input := [], inputCursor := 0 }

/-- Inside an escape sequence, Enter is a byte of the sequence. -/
theorem multiEditorByte_enter {max : ℕ} {c : UInt8} {s : MultiState}
    (hc : c = chr '\r' ∨ c = chr '\n') (hesc : s.escState ≠ .ground) :
    ∃ state, multiEditorByte max c s = pure { s with escState := state } := by
  have hletter : c ∉ lit "ABCDHF" := by rcases hc with rfl | rfl <;> decide
  have htilde : c ≠ chr '~' := by rcases hc with rfl | rfl <;> decide
  have hkey : multiHandleInputKey (if c = chr 'w' then chr 'H' else if c = chr 'q' then chr 'F'
      else c) s = pure s := by
    rcases hc with rfl | rfl <;> rfl
  rw [multiEditorByte]
  cases hs : s.escState with
  | ground => exact absurd hs hesc
  | escape => exact ⟨_, by simp only [multiEscape, hs]; rfl⟩
  | bracket => exact ⟨_, by simp only [multiEscape, hs, if_neg hletter]; rfl⟩
  | letterO => exact ⟨_, by simp only [multiEscape, hs, hkey, pure_bind]; rfl⟩
  | digit d => exact ⟨_, by simp only [multiEscape, hs, if_neg htilde, pure_bind]; rfl⟩
  | skip => exact ⟨_, by simp only [multiEscape, hs]; rfl⟩

/-- What Enter needs: to be no byte of an escape sequence, and room for the line feed. -/
theorem submits_iff_room {max : ℕ} {c : UInt8} {s : MultiState} (hc : c = chr '\r' ∨ c = chr '\n') :
    Submits max c s ↔ s.escState = .ground ∧ s.input.length < multiInput := by
  constructor
  · intro hsub
    -- a handler that notes the line tells the lines apart
    have hnote := hsub.2 fun line s' => pure { s' with attachedLine := line ++ s.attachedLine }
    have hcontra : ∀ {line : Bytes} {h h' : Hist} {s' : MultiState},
        Runs Legal (multiEditorByteTo (fun line s' =>
          pure { s' with attachedLine := line ++ s.attachedLine }) max c s) h h' (some s') →
        s'.attachedLine = line ++ s.attachedLine → line.length ≤ s.input.length → False := by
      intro line h h' s' hr hline hle
      obtain ⟨s₁, s₂, h₁, h₂, -, -, hhandle, -, rfl⟩ := hnote h h' s' hr
      obtain ⟨-, rfl⟩ := runs_pure.mp hhandle
      have hlen := congrArg List.length hline
      simp only [List.length_append, List.length_singleton] at hlen
      omega
    have hground : s.escState = .ground := by
      by_contra hesc
      obtain ⟨state, hbyte⟩ := @multiEditorByte_enter max c s hc hesc
      refine @hcontra [] [] [] { s with escState := state } ?_ rfl
        (Nat.zero_le _)
      rw [multiEditorByteTo, if_neg fun h => hesc h.1, hbyte]
      exact runs_pure.mpr ⟨rfl, rfl⟩
    refine ⟨hground, ?_⟩
    by_contra hfull
    refine @hcontra s.input [] [⟨.tty .newline, ()⟩] { s with
      input := []
      inputCursor := 0
      inputHistory := multiHistorySave s.inputHistory s.input
      inputHistoryPos := none
      attachedLine := s.input ++ s.attachedLine } ?_ rfl (le_refl _)
    rw [multiEditorByteTo, if_pos ⟨hground, hc⟩, multiEnter, if_neg hfull]
    exact runs_ask.mpr ⟨(), legal_refuse _ _, runs_pure.mpr ⟨rfl, rfl⟩⟩
  · rintro ⟨hground, hroom⟩
    refine ⟨multiEditorByteTo_handleInputLine max c s, fun handle h h' s' hr => ?_⟩
    rw [multiEditorByteTo, if_pos ⟨hground, hc⟩, multiEnter, if_pos hroom] at hr
    obtain ⟨_, -, hr⟩ := runs_ask.mp hr
    obtain ⟨s₂, h₂, hhandle, hret⟩ := runs_bind_some'.mp hr
    obtain ⟨rfl, rfl⟩ := runs_pure.mp hret
    refine ⟨_, s₂, _, _, ?_, List.suffix_cons _ _, hhandle, List.suffix_refl _, rfl⟩
    exact ⟨rfl, rfl, rfl, rfl, rfl⟩

/-- **When Enter submits the line**, at any moment of any run: when it is no byte of an escape
sequence and the line does not fill its array. -/
theorem submits_iff {h₁ : Hist} {x : MultiPoint} {c : UInt8} {rest : Bytes}
    {polled : List (PollFd × Revents)}
    (hx : MultiSteps cfg interactive listener (multiStart h₁) x)
    (hphase : x.phase = .typing .editor (c :: rest) polled) (hc : c = chr '\r' ∨ c = chr '\n') :
    Submits cfg.brokerMaxClients.toNat c x.state ↔
      x.state.escState = .ground ∧ x.state.input.length ≠ multiInput := by
  have hinteractive : interactive = true := by
    by_contra hne
    have hcollected := hx.collected (collected_multiStart h₁) (Bool.eq_false_iff.mpr hne)
    exact absurd rfl (hcollected.2 _ _ _ hphase)
  have hfits := (hx.edits (edits_multiStart h₁) hinteractive).1
  rw [submits_iff_room hc, lt_iff_le_and_ne]
  exact and_congr_right fun _ => and_iff_right hfits.length

/-! ### A line of letters -/

/-- The listener with `n` letters on its line. -/
def letters (n : ℕ) : MultiState :=
  { multiInit with input := List.replicate n (chr 'a'), inputCursor := n }

/-- The line can be drawn, and nobody asks the listener to stop meanwhile. -/
theorem exists_multiRedrawInput (s : MultiState) {h : Hist} (hclear : stopped h = false) :
    ∃ h', Runs Legal (multiRedrawInput s) h h' (some ()) ∧ stopped h' = false := by
  have hwrite : ∀ h : Hist, stopped h = false → ∃ n h',
      Runs Legal (if s.input.isEmpty then pure (some 0) else wcatFullWrite .multi .stderr s.input)
        h h' (some n) ∧ stopped h' = false := by
    intro h hclear
    split_ifs with hempty
    · exact ⟨_, h, runs_pure.mpr ⟨rfl, rfl⟩, hclear⟩
    · have hpos : 0 < s.input.length := List.length_pos_iff.mpr fun h0 => hempty (by rw [h0]; rfl)
      refine ⟨none, ⟨.write .multi .stderr s.input, .error .eio⟩ :: h, ?_, hclear⟩
      refine runs_loop.mpr ⟨.inr none, _, ?_, rfl, rfl⟩
      rw [if_pos hpos]
      exact runs_ask.mpr ⟨.error .eio, legal_refuse _ _, runs_pure.mpr ⟨rfl, rfl⟩⟩
  have hcursor : ∀ h : Hist, stopped h = false → ∃ h',
      Runs Legal (if s.inputCursor < s.input.length then
        sys (.tty (.cursorLeft (s.input.length - s.inputCursor))) else pure ()) h h' (some ()) ∧
        stopped h' = false := by
    intro h hclear
    split_ifs with hlt
    · exact ⟨_, runs_request.mpr ⟨legal_refuse _ _, rfl⟩, hclear⟩
    · exact ⟨h, runs_pure.mpr ⟨rfl, rfl⟩, hclear⟩
  obtain ⟨n, h₁, hdrawn, hclear₁⟩ := hwrite (⟨.tty (.prompt s.activeId), ()⟩ ::
    ⟨.tty .clearLine, ()⟩ :: h) hclear
  obtain ⟨h₂, hmoved, hclear₂⟩ := hcursor h₁ hclear₁
  refine ⟨h₂, runs_ask.mpr ⟨(), legal_refuse _ _, runs_ask.mpr ⟨(), legal_refuse _ _, ?_⟩⟩, hclear₂⟩
  exact runs_bind_some'.mpr ⟨n, h₁, hdrawn, hmoved⟩

/-- In a line of letters, the operator types `bytes`. -/
theorem exists_typing (n : ℕ) {h : Hist} (hclear : stopped h = false) {bytes : Bytes}
    (hne : bytes ≠ []) (hle : bytes.length ≤ 128) : ∃ h' polled, stopped h' = false ∧
      MultiSteps oneSession true (.sock .tcp 3) ⟨letters n, h, .head⟩
        ⟨letters n, h', .typing .editor bytes polled⟩ := by
  have hfds : multiPollFds (.sock .tcp 3) oneSession.brokerMaxClients.toNat (letters n) =
      [{ fd := some (.sock .tcp 3), pollin := true }, { fd := some .stdin, pollin := true }] := rfl
  have hwait : ∃ h₁, stopped h₁ = false ∧ Runs Legal (multiWait oneSession (.sock .tcp 3) (letters n))
      h h₁ (some (.inl [.none, { pollin := true }])) := by
    refine ⟨_, ?_, runs_ask.mpr ⟨false, ⟨by simp [opens], by simp [opens], hclear⟩, runs_ask.mpr
      ⟨.ready [.none, { pollin := true }] rfl ?_ ?_, ?_, runs_pure.mpr ⟨rfl, rfl⟩⟩⟩⟩
    · exact hclear
    · exact ⟨{ pollin := true }, by simp, by decide⟩
    · rw [hfds]
      decide
    · exact ⟨by simp [opens], by simp [opens], trivial⟩
  obtain ⟨h₁, hclear₁, hwait⟩ := hwait
  have hread : Runs Legal (multiReadFor .editor (letters n)) h₁
      (⟨.read .multi .stdin 128 0 128, .data bytes hne hle⟩ :: h₁) (some bytes) := by
    refine runs_loop.mpr ⟨.inr bytes, _, runs_ask.mpr ⟨.data bytes hne hle, ?_, ?_⟩, rfl, rfl⟩
    · exact ⟨by simp [opens], by simp [opens], trivial⟩
    · exact runs_pure.mpr ⟨rfl, rfl⟩
  exact ⟨⟨.read .multi .stdin 128 0 128, .data bytes hne hle⟩ :: h₁, _, hclear₁,
    .head (.accept hwait (runs_pure.mpr ⟨rfl, rfl⟩)) (.single (.read rfl hread))⟩

/-- What was typed is handled, and there is no session to serve. -/
theorem steps_typedAll {s : MultiState} {h : Hist} {polled : List (PollFd × Revents)}
    (hnone : (s.sessions 0).fd = none) : MultiSteps oneSession true (.sock .tcp 3)
      ⟨s, h, .typing .editor [] polled⟩ ⟨s, h, .head⟩ := by
  have hslot : Runs Legal (multiSlot oneSession true oneSession.brokerMaxClients.toNat polled 0 s)
      h h (some (.ok s)) := by
    rw [multiSlot, hnone]
    exact runs_pure.mpr ⟨rfl, rfl⟩
  exact .head .typedAll (.head (.slot (by decide) hslot) (.single .served))

/-- **A line of any length** can be typed, up to the size of its array. -/
theorem exists_letters {n : ℕ} (hn : n ≤ multiInput) : ∃ h, stopped h = false ∧
    MultiSteps oneSession true (.sock .tcp 3) (multiStart []) ⟨letters n, h, .head⟩ := by
  induction n with
  | zero => exact ⟨[], rfl, .refl⟩
  | succ n ih =>
    obtain ⟨h, hclear, hsteps⟩ := ih (by omega)
    obtain ⟨h₁, polled, hclear₁, htyping⟩ :=
      @exists_typing n h hclear [chr 'a'] (by simp) (by simp)
    obtain ⟨h₂, hdrawn, hclear₂⟩ := exists_multiRedrawInput (letters (n + 1)) hclear₁
    have htyped : Runs Legal (multiEditorByte 1 (chr 'a') (letters n)) h₁ h₂
        (some (letters (n + 1))) := by
      have hline : (letters n).input.take (letters n).inputCursor ++ [chr 'a'] ++
          (letters n).input.drop (letters n).inputCursor = List.replicate (n + 1) (chr 'a') := by
        simp [letters, List.replicate_succ']
      have hroom : isText (chr 'a') = true ∧ (letters n).input.length < multiInput :=
        ⟨by decide, by simpa [letters] using hn⟩
      rw [multiEditorByte, multiEscape_eq_none.mpr rfl, Option.getD_none, multiEditorText,
        if_neg (by decide), if_neg (by decide), if_neg (by decide), if_pos hroom, hline]
      exact runs_bind_some'.mpr ⟨(), h₂, hdrawn, runs_pure.mpr ⟨rfl, rfl⟩⟩
    refine ⟨h₂, hclear₂, hsteps.trans (htyping.trans (.head (.typed htyped) ?_))⟩
    exact steps_typedAll rfl

/-- The operator types `bytes` behind `n` letters. -/
theorem exists_lettersTyping {n : ℕ} (hn : n ≤ multiInput) {bytes : Bytes} (hne : bytes ≠ [])
    (hle : bytes.length ≤ 128) : ∃ h polled,
      MultiSteps oneSession true (.sock .tcp 3) (multiStart [])
        ⟨letters n, h, .typing .editor bytes polled⟩ := by
  obtain ⟨h, hclear, hsteps⟩ := exists_letters hn
  obtain ⟨h', polled, -, htyping⟩ := exists_typing n hclear hne hle
  exact ⟨h', polled, hsteps.trans htyping⟩

/-- Enter submits a line of two letters. -/
theorem submits_letters : ∃ h polled,
    MultiSteps oneSession true (.sock .tcp 3) (multiStart [])
      ⟨letters 2, h, .typing .editor [chr '\n'] polled⟩ ∧
    Submits oneSession.brokerMaxClients.toNat (chr '\n') (letters 2) := by
  obtain ⟨h, polled, hsteps⟩ := @exists_lettersTyping 2 (by decide) [chr '\n'] (by simp) (by simp)
  refine ⟨h, polled, hsteps, (submits_iff hsteps rfl (.inr rfl)).mpr ⟨rfl, ?_⟩⟩
  show (letters 2).input.length ≠ multiInput
  decide

/-- **A line of 8192 letters** is carried out without its end. -/
theorem not_submits : ∃ h polled,
    MultiSteps oneSession true (.sock .tcp 3) (multiStart [])
      ⟨letters multiInput, h, .typing .editor [chr '\n'] polled⟩ ∧
    (letters multiInput).escState = .ground ∧
    ¬Submits oneSession.brokerMaxClients.toNat (chr '\n') (letters multiInput) := by
  obtain ⟨h, polled, hsteps⟩ :=
    @exists_lettersTyping multiInput (le_refl _) [chr '\n'] (by simp) (by simp)
  refine ⟨h, polled, hsteps, rfl, fun hsub => ?_⟩
  have hroom := ((submits_iff_room (.inr rfl)).mp hsub).2
  simp [letters] at hroom

end Wirecat
