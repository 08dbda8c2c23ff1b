import Wirecat.Editor
import Wirecat.Zipper

/-!
# The keys of the line editor

A byte that is typed to the line editor is a key (`Wirecat.Key`), the last byte of an escape sequence
that is one, or a byte that is none (`Wirecat.keyOf`). What a key does to the line, the cursor and the
history is `Wirecat.Editor.press`, and what a byte does altogether is `Wirecat.Editor.byte`:
`Wirecat.byte_multiEditorByte`.

What the keys are for is said of a line with a place in it (`Wirecat.Reference`): a character is
inserted at the place, unless the line is full, Backspace rubs out the one before it, the arrows, Home
and End move the place and leave the text alone (`Wirecat.text_press`), and Up and Down show another
entry of the history, with the place at its end. The editor does the same
(`Wirecat.reference_press`), in every state in which the line fits its array and the entry that is
shown is on the line (`Wirecat.Editor.Sound`).

One key is not as simple: with the oldest entry on the line, Up recalls that entry again, which moves
the cursor to its end. `Wirecat.Reference.press` has what happens to the place there as a parameter.
-/

namespace Wirecat

open CString Interaction

/-! ### Keys -/

/-- The keys of the line editor, without Enter. -/
inductive Key
  | text (c : UInt8)
  | backspace
  | left
  | right
  | home
  | endKey
  | up
  | down

/-- The key that `multi_handle_input_key` knows by this letter. -/
def inputKey (key : UInt8) : Option Key :=
  if key = chr 'A' then some .up
  else if key = chr 'B' then some .down
  else if key = chr 'D' then some .left
  else if key = chr 'C' then some .right
  else if key = chr 'H' ∨ key = chr 'h' then some .home
  else if key = chr 'F' ∨ key = chr 'f' then some .endKey
  else none

/-- The key that a byte is, or is the last byte of. -/
def keyOf : EscState → UInt8 → Option Key
  | .ground, c =>
      if c = 8 ∨ c = 127 then some .backspace
      else if isText c then some (.text c)
      else none
  | .escape, _ => none
  | .bracket, c => if c ∈ lit "ABCDHF" then inputKey c else none
  | .letterO, c => inputKey (if c = chr 'w' then chr 'H' else if c = chr 'q' then chr 'F' else c)
  | .digit digit, c =>
      if c = chr '~' then
        if digit = chr '1' ∨ digit = chr '7' then some .home
        else if digit = chr '4' ∨ digit = chr '8' then some .endKey
        else none
      else none
  | .skip, _ => none

/-- The keys that are typed with these bytes. -/
def keys : EscState → Bytes → List Key
  | _, [] => []
  | state, c :: bytes => (keyOf state c).toList ++ keys (state.next c) bytes

/-- Another entry of the history is put on the line, upwards or downwards. -/
def Editor.load (e : Editor) (up : Bool) : Editor :=
  if e.history.isEmpty then e
  else match up, e.historyPos with
    | true, none => e.recall (e.history.length - 1)
    | true, some k => e.recall (k - 1)
    | false, none => e
    | false, some k =>
        if k + 1 < e.history.length then e.recall (k + 1)
        else { e with historyPos := none, input := [], cursor := 0 }

/-- **What a key does.** -/
def Editor.press (e : Editor) : Key → Editor
  | .text c =>
      if e.input.length < multiInput then { e with
        input := e.input.take e.cursor ++ [c] ++ e.input.drop e.cursor
        cursor := e.cursor + 1
        historyPos := none }
      else e
  | .backspace =>
      if 0 < e.cursor then { e with
        input := e.input.take (e.cursor - 1) ++ e.input.drop e.cursor
        cursor := e.cursor - 1
        historyPos := none }
      else e
  | .left => if 0 < e.cursor then { e with cursor := e.cursor - 1 } else e
  | .right => if e.cursor < e.input.length then { e with cursor := e.cursor + 1 } else e
  | .home => if 0 < e.cursor then { e with cursor := 0 } else e
  | .endKey => if e.cursor < e.input.length then { e with cursor := e.input.length } else e
  | .up => e.load true
  | .down => e.load false

theorem escState_load (e : Editor) (up : Bool) : (e.load up).escState = e.escState := by
  unfold Editor.load
  split_ifs with hempty
  · rfl
  · cases up <;> cases e.historyPos
    · rfl
    · dsimp only
      split_ifs <;> rfl
    · rfl
    · rfl

theorem escState_press (e : Editor) (k : Key) : (e.press k).escState = e.escState := by
  cases k with
  | up => exact escState_load e true
  | down => exact escState_load e false
  | _ =>
    rw [Editor.press]
    split_ifs <;> rfl

/-- The line is submitted. -/
def Editor.enter (e : Editor) : Editor :=
  { e with
    input := []
    cursor := 0
    history := multiHistorySave e.history e.line
    historyPos := none }

/-- **What a byte does** to the editor. -/
def Editor.byte (e : Editor) (c : UInt8) : Editor :=
  if e.escState = .ground ∧ (c = chr '\r' ∨ c = chr '\n') then e.enter
  else { (keyOf e.escState c).elim e e.press with escState := e.escState.next c }

/-- Outside of an escape sequence, a byte that begins none is a key or nothing. -/
theorem byte_ground {e : Editor} {c : UInt8} (hs : e.escState = .ground) (hesc : c ≠ escape)
    (henter : ¬(c = chr '\r' ∨ c = chr '\n')) :
    e.byte c = (keyOf .ground c).elim e e.press := by
  have hground : EscState.ground.next c = .ground := if_neg hesc
  rw [Editor.byte, if_neg fun h => henter h.2, hs, hground]
  cases hkey : keyOf .ground c with
  | none => exact congrArg (fun state => { e with escState := state }) hs.symm
  | some k =>
    have hkept : (e.press k).escState = .ground := (escState_press e k).trans hs
    exact congrArg (fun state => { e.press k with escState := state }) hkept.symm

theorem load_multiHistoryLoad (up : Bool) (s : MultiState) :
    Within (fun _ => True) (multiHistoryLoad up s) fun s' => s'.editor = s.editor.load up := by
  refine Within.ite (fun hempty => ?_) fun hempty => ?_
  · exact (if_pos hempty).symm
  have hload : s.editor.load up = match up, s.inputHistoryPos with
      | true, none => s.editor.recall (s.inputHistory.length - 1)
      | true, some k => s.editor.recall (k - 1)
      | false, none => s.editor
      | false, some k =>
          if k + 1 < s.inputHistory.length then s.editor.recall (k + 1)
          else { s.editor with historyPos := none, input := [], cursor := 0 } := if_neg hempty
  rw [hload]
  cases up <;> cases s.inputHistoryPos
  · exact rfl
  · refine Within.ite (fun hlt => ?_) fun hlt => ?_
    · exact Within.next (Within.all _) fun _ => (if_pos hlt).symm
    · exact Within.next (Within.all _) fun _ => (if_neg hlt).symm
  · exact Within.next (Within.all _) fun _ => rfl
  · exact Within.next (Within.all _) fun _ => rfl

theorem press_multiHandleInputKey (key : UInt8) (s : MultiState) :
    Within (fun _ => True) (multiHandleInputKey key s) fun s' =>
      s'.editor = (inputKey key).elim s.editor s.editor.press := by
  -- a key that moves the cursor, under the condition of its branch
  have hmove : ∀ n k (p : Prop) [Decidable p], Within (R := Resp) (fun _ => True)
      (if p then sys (.tty n) >>= fun _ => pure { s with inputCursor := k } else pure s)
      fun s' => s'.editor = if p then { s.editor with cursor := k } else s.editor := by
    intro n k p _
    refine Within.ite (fun hp => Within.step trivial fun _ => ?_) fun hp => ?_
    · exact (if_pos hp).symm
    · exact (if_neg hp).symm
  rw [inputKey]
  refine Within.ite (fun hkey => ?_) fun hup => ?_
  · rw [if_pos hkey]
    exact load_multiHistoryLoad true s
  refine Within.ite (fun hkey => ?_) fun hdown => ?_
  · rw [if_neg hup, if_pos hkey]
    exact load_multiHistoryLoad false s
  refine Within.ite (fun hkey => ?_) fun hleft => ?_
  · rw [if_neg hup, if_neg hdown, if_pos hkey]
    exact hmove _ _ _
  refine Within.ite (fun hkey => ?_) fun hright => ?_
  · rw [if_neg hup, if_neg hdown, if_neg hleft, if_pos hkey]
    exact hmove _ _ _
  refine Within.ite (fun hkey => ?_) fun hhome => ?_
  · rw [if_neg hup, if_neg hdown, if_neg hleft, if_neg hright, if_pos hkey]
    exact hmove _ _ _
  refine Within.ite (fun hkey => ?_) fun hend => ?_
  · rw [if_neg hup, if_neg hdown, if_neg hleft, if_neg hright, if_neg hhome, if_pos hkey]
    exact hmove _ _ _
  rw [if_neg hup, if_neg hdown, if_neg hleft, if_neg hright, if_neg hhome, if_neg hend]
  rfl

/-- A key, and then the place in the escape sequence. -/
theorem byte_of_press {c : UInt8} {s : MultiState} {p : Proc MultiState} {state : EscState}
    (hesc : s.escState ≠ .ground) (hnext : s.escState.next c = state)
    (hp : Within (fun _ => True) p fun s' =>
      s'.editor = (keyOf s.escState c).elim s.editor s.editor.press) :
    Within (fun _ => True) (p >>= fun s' => pure { s' with escState := state })
      fun s' => s'.editor = s.editor.byte c := by
  subst hnext
  refine hp.bind' fun s' hs' => ?_
  rw [Editor.byte, if_neg fun h => hesc h.1]
  exact congrArg (fun e : Editor => { e with escState := s.escState.next c }) hs'

theorem byte_multiEscape {c : UInt8} {s : MultiState} {p : Proc MultiState}
    (hp : multiEscape c s = some p) :
    Within (fun _ => True) p fun s' => s'.editor = s.editor.byte c := by
  have hkeep : ∀ {state}, s.escState ≠ .ground → s.escState.next c = state →
      keyOf s.escState c = none → { s with escState := state }.editor = s.editor.byte c := by
    rintro _ hesc rfl hnone
    have hbyte : s.editor.byte c = { (keyOf s.escState c).elim s.editor s.editor.press with
      escState := s.escState.next c } := if_neg fun h => hesc h.1
    rw [hbyte, hnone]
    rfl
  have hletters : ∀ c ∈ lit "ABCDHF", ¬(chr '0' ≤ c ∧ c ≤ chr '9') := by decide +kernel
  rw [multiEscape] at hp
  split at hp
  · exact absurd hp (by simp)
  · rename_i hs
    obtain rfl := Option.some.inj hp
    exact hkeep (by simp [hs]) (by rw [hs, EscState.next]) (by rw [hs, keyOf])
  · rename_i hs
    split_ifs at hp with hletter hdigit <;> obtain rfl := Option.some.inj hp
    · refine byte_of_press (by simp [hs]) ?_ ?_
      · rw [hs, EscState.next, if_neg (hletters c hletter)]
      · rw [hs, keyOf, if_pos hletter]
        exact press_multiHandleInputKey c s
    · exact hkeep (by simp [hs]) (by rw [hs, EscState.next, if_pos hdigit])
        (by rw [hs, keyOf, if_neg hletter])
    · exact hkeep (by simp [hs]) (by rw [hs, EscState.next, if_neg hdigit])
        (by rw [hs, keyOf, if_neg hletter])
  · rename_i hs
    obtain rfl := Option.some.inj hp
    refine byte_of_press (by simp [hs]) (by rw [hs, EscState.next]) ?_
    rw [hs, keyOf]
    exact press_multiHandleInputKey _ s
  · rename_i digit hs
    obtain rfl := Option.some.inj hp
    refine byte_of_press (by simp [hs]) (by rw [hs, EscState.next]) ?_
    rw [hs, keyOf]
    refine Within.ite (fun htilde => ?_) fun htilde => ?_
    · rw [if_pos htilde]
      refine Within.ite (fun hhome => ?_) fun hhome => ?_
      · rw [if_pos hhome]
        exact press_multiHandleInputKey (chr 'H') s
      rw [if_neg hhome]
      refine Within.ite (fun hend => ?_) fun hend => ?_
      · rw [if_pos hend]
        exact press_multiHandleInputKey (chr 'F') s
      · rw [if_neg hend]
        rfl
    · rw [if_neg htilde]
      rfl
  · rename_i hs
    obtain rfl := Option.some.inj hp
    exact hkeep (by simp [hs]) (by rw [hs, EscState.next]) (by rw [hs, keyOf])

theorem byte_multiEditorText {max : ℕ} {c : UInt8} {s : MultiState} (hs : s.escState = .ground) :
    Within (fun _ => True) (multiEditorText max c s) fun s' => s'.editor = s.editor.byte c := by
  have hstate : s.editor.escState = .ground := hs
  refine Within.ite (fun hc => ?_) fun hesc => ?_
  · have hnone : keyOf .ground c = none := by rw [hc]; decide
    have hnot : ¬(c = chr '\r' ∨ c = chr '\n') := by rw [hc]; decide
    show _ = s.editor.byte c
    rw [Editor.byte, if_neg fun h => hnot h.2, hstate, hnone, EscState.next, if_pos hc]
    rfl
  refine Within.ite (fun hc => Within.step trivial fun _ => ?_) fun henter => ?_
  · refine (within_editor_multiHandleInputLine max _ _).bind' fun s' hs' => ?_
    obtain ⟨-, -, hkept, hhistory, hpos⟩ := Editor.mk.inj hs'
    rw [Editor.byte, if_pos ⟨hs, hc⟩, MultiState.editor, hkept, hhistory, hpos]
    rfl
  rw [byte_ground hstate hesc henter, keyOf]
  refine Within.ite (fun hrub => ?_) fun hrub => ?_
  · rw [if_pos hrub]
    refine Within.ite (fun hlt => ?_) fun hlt => ?_
    · exact Within.next (Within.all _) fun _ => (if_pos hlt).symm
    · exact (if_neg hlt).symm
  rw [if_neg hrub]
  refine Within.ite (fun hc => ?_) fun hc => ?_
  · rw [if_pos hc.1]
    exact Within.next (Within.all _) fun _ => (if_pos hc.2).symm
  · show s.editor = _
    by_cases htext : isText c = true
    · rw [if_pos htext]
      exact (if_neg fun hroom => hc ⟨htext, hroom⟩).symm
    · rw [if_neg htext]
      rfl

/-- **What a byte does**, whatever the terminal answers. -/
theorem byte_multiEditorByte (max : ℕ) (c : UInt8) (s : MultiState) :
    Within (fun _ => True) (multiEditorByte max c s) fun s' => s'.editor = s.editor.byte c := by
  rw [multiEditorByte]
  cases hesc : multiEscape c s with
  | some p => exact byte_multiEscape hesc
  | none => exact byte_multiEditorText (multiEscape_eq_none.mp hesc)

/-! ### What the keys are for -/

/-- **The line editor as it is meant**: the line with the place of the cursor, the history, and the
entry of the history that is on the line. -/
structure Reference where
  line : Zipper UInt8
  history : List Bytes
  shown : Option ℕ

namespace Reference

variable (r : Reference)

/-- The entry `k` is put on the line, and the cursor at its end. -/
def showEntry (k : ℕ) : Reference :=
  let entry := r.history.getD k []
  { r with line := .ofList entry entry.length, shown := some k }

/-- The entry that Up moves to: the one before the one that is shown, or the newest. -/
def older : Option ℕ :=
  match r.shown with
  | none => if r.history = [] then none else some (r.history.length - 1)
  | some 0 => none
  | some (k + 1) => some k

/-- **What a key is for.** With the oldest entry on the line, Up does `oldest` to the place. -/
def press (oldest : Zipper UInt8 → Zipper UInt8) (r : Reference) : Key → Reference
  | .text c =>
      if r.line.text.length < multiInput then { r with line := r.line.insert c, shown := none } else r
  | .backspace => if r.line.before = [] then r else { r with line := r.line.erase, shown := none }
  | .left => { r with line := r.line.left }
  | .right => { r with line := r.line.right }
  | .home => { r with line := r.line.toStart }
  | .endKey => { r with line := r.line.toEnd }
  | .up =>
      match r.older with
      | some k => r.showEntry k
      | none => if r.history = [] then r else { r with line := oldest r.line }
  | .down =>
      match r.shown with
      | none => r
      | some k =>
          if k + 1 < r.history.length then r.showEntry (k + 1)
          else { r with line := .ofList [] 0, shown := none }

/-- The arrows to the sides, Home and End leave the text and the history alone. -/
theorem text_press (oldest : Zipper UInt8 → Zipper UInt8) {k : Key}
    (hk : k ∈ [Key.left, .right, .home, .endKey]) :
    (r.press oldest k).line.text = r.line.text ∧ (r.press oldest k).history = r.history ∧
      (r.press oldest k).shown = r.shown := by
  cases k with
  | left => exact ⟨r.line.text_left, rfl, rfl⟩
  | right => exact ⟨r.line.text_right, rfl, rfl⟩
  | home => exact ⟨r.line.text_toStart, rfl, rfl⟩
  | endKey => exact ⟨r.line.text_toEnd, rfl, rfl⟩
  | _ => simp at hk

end Reference

/-- What the editor has of this. -/
def Editor.reference (e : Editor) : Reference := ⟨.ofList e.input e.cursor, e.history, e.historyPos⟩

/-- **What holds of the editor between two bytes**: the line fits its array, nothing holds a NUL, and
the entry of the history that is shown is on the line. -/
structure Editor.Sound (e : Editor) : Prop where
  fits : e.Fits
  text : 0 ∉ e.input
  strings : ∀ entry ∈ e.history, 0 ∉ entry
  shown : ∀ k, e.historyPos = some k → e.history[k]? = some e.input

variable {e : Editor}

/-- An entry is put on the line as it is. -/
theorem Editor.Sound.recall_eq (he : e.Sound) {k : ℕ} {entry : Bytes}
    (hentry : e.history[k]? = some entry) : e.recall k =
      { e with historyPos := some k, input := entry, cursor := entry.length } := by
  have hget : ofBuffer (e.history.getD k []) = entry := by
    rw [List.getD_eq_getElem?_getD, hentry, Option.getD_some]
    exact ofBuffer_eq_self (he.strings entry (List.mem_of_getElem? hentry))
  rw [Editor.recall, hget]

theorem Editor.Sound.recall (he : e.Sound) {k : ℕ} (hk : k < e.history.length) :
    (e.recall k).Sound := by
  have hentry := List.getElem?_eq_getElem hk
  have hfits := he.fits.recall k
  rw [he.recall_eq hentry] at hfits ⊢
  refine ⟨hfits, he.strings _ (List.getElem_mem hk), he.strings, ?_⟩
  rintro _ ⟨⟩
  exact hentry

/-- The index is that of an entry. -/
theorem Editor.Sound.shown_lt (he : e.Sound) {k : ℕ} (hk : e.historyPos = some k) :
    k < e.history.length := (List.getElem?_eq_some_iff.mp (he.shown k hk)).1

/-- Where Up goes, and where Down does. -/
theorem Editor.Sound.load_up (he : e.Sound) : (e.history = [] ∧ e.load true = e) ∨
    ∃ k < e.history.length, e.load true = e.recall k ∧
      k = e.historyPos.elim (e.history.length - 1) (· - 1) := by
  unfold Editor.load
  split_ifs with hempty
  · exact .inl ⟨List.isEmpty_iff.mp hempty, rfl⟩
  have hpos : 0 < e.history.length := List.length_pos_iff.mpr fun h0 => hempty (by rw [h0]; rfl)
  right
  cases hshown : e.historyPos with
  | none => exact ⟨e.history.length - 1, by omega, rfl, rfl⟩
  | some k =>
    have hlt := he.shown_lt hshown
    exact ⟨k - 1, by omega, rfl, rfl⟩

theorem Editor.Sound.load_down (he : e.Sound) : e.load false = match e.historyPos with
    | none => e
    | some k =>
        if k + 1 < e.history.length then e.recall (k + 1)
        else { e with historyPos := none, input := [], cursor := 0 } := by
  unfold Editor.load
  split_ifs with hempty
  · cases hshown : e.historyPos with
    | none => rfl
    | some k =>
      have hlt := he.shown_lt hshown
      rw [List.isEmpty_iff.mp hempty] at hlt
      exact absurd hlt (Nat.not_lt_zero _)
  · cases e.historyPos <;> rfl

theorem Editor.Sound.load (he : e.Sound) (up : Bool) : (e.load up).Sound := by
  cases up with
  | true =>
    rcases he.load_up with ⟨-, hload⟩ | ⟨k, hk, hload, -⟩ <;> rw [hload]
    · exact he
    · exact he.recall hk
  | false =>
    rw [he.load_down]
    cases e.historyPos with
    | none => exact he
    | some k =>
      dsimp only
      split_ifs with hlt
      · exact he.recall hlt
      · exact ⟨⟨Nat.zero_le _, le_rfl, he.fits.entries⟩, by simp, he.strings, by simp⟩

/-- A move of the cursor. -/
theorem Editor.Sound.move (he : e.Sound) {k : ℕ} (hk : k ≤ e.input.length) :
    { e with cursor := k }.Sound :=
  ⟨⟨he.fits.length, hk, he.fits.entries⟩, he.text, he.strings, he.shown⟩

/-- **A key keeps the editor sound.** -/
theorem Editor.Sound.press (he : e.Sound) (k : Key) (hk : ∀ c, k = .text c → isText c = true) :
    (e.press k).Sound := by
  have hcursor := he.fits.cursor
  have hlength := he.fits.length
  have htake : ∀ n, 0 ∉ e.input.take n := fun n h0 => he.text (List.mem_of_mem_take h0)
  have hdrop : ∀ n, 0 ∉ e.input.drop n := fun n h0 => he.text (List.mem_of_mem_drop h0)
  cases k with
  | up => exact he.load true
  | down => exact he.load false
  | text c =>
    rw [Editor.press]
    split_ifs with hroom
    · refine ⟨⟨?_, ?_, he.fits.entries⟩, ?_, he.strings, by simp⟩
      · simp only [List.length_append, List.length_take, List.length_drop, List.length_singleton]
        omega
      · simp only [List.length_append, List.length_take, List.length_drop, List.length_singleton]
        omega
      · -- a NUL is no character
        have hc : 0 ∉ [c] := by
          rw [List.mem_singleton]
          rintro rfl
          exact absurd (hk 0 rfl) (by decide)
        simp [htake, hdrop, List.mem_singleton.not.mp hc]
    · exact he
  | backspace =>
    rw [Editor.press]
    split_ifs with hpos
    · refine ⟨⟨?_, ?_, he.fits.entries⟩, ?_, he.strings, by simp⟩
      · simp only [List.length_append, List.length_take, List.length_drop]
        omega
      · simp only [List.length_append, List.length_take, List.length_drop]
        omega
      · simp [htake, hdrop]
    · exact he
  | left =>
    rw [Editor.press]
    split_ifs with hpos
    · exact he.move ((Nat.sub_le _ _).trans hcursor)
    · exact he
  | right =>
    rw [Editor.press]
    split_ifs with hlt
    · exact he.move hlt
    · exact he
  | home =>
    rw [Editor.press]
    split_ifs with hpos
    · exact he.move (Nat.zero_le _)
    · exact he
  | endKey =>
    rw [Editor.press]
    split_ifs with hlt
    · exact he.move le_rfl
    · exact he

/-- The key that a byte is inserts no NUL. -/
theorem isText_of_keyOf {state : EscState} {c x : UInt8} (hkey : keyOf state c = some (.text x)) :
    isText x = true := by
  have hinput : ∀ c, inputKey c ≠ some (.text x) := by
    intro c
    rw [inputKey]
    split_ifs <;> simp
  cases state with
  | ground =>
    rw [keyOf] at hkey
    split_ifs at hkey with hrub htext
    · simp at hkey
    · obtain rfl := Key.text.inj (Option.some.inj hkey)
      exact htext
  | escape => simp [keyOf] at hkey
  | bracket =>
    rw [keyOf] at hkey
    split_ifs at hkey with hletter
    exact absurd hkey (hinput _)
  | letterO => exact absurd hkey (hinput _)
  | digit d =>
    rw [keyOf] at hkey
    split_ifs at hkey <;> simp at hkey
  | skip => simp [keyOf] at hkey

/-- The line that Enter ends holds no NUL. -/
theorem Editor.Sound.zero_not_mem_line (he : e.Sound) : 0 ∉ e.line := by
  rw [Editor.line]
  split_ifs with hroom
  · simp only [List.mem_append, not_or]
    exact ⟨he.text, by decide⟩
  · exact he.text

theorem Editor.Sound.enter (he : e.Sound) : e.enter.Sound := by
  refine ⟨⟨Nat.zero_le _, le_rfl, ?_⟩, List.not_mem_nil, ?_, by simp [Editor.enter]⟩
  · intro entry hentry
    exact (length_of_multiHistorySave hentry).elim (he.fits.entries entry) id
  · intro entry hentry
    rcases mem_multiHistorySave hentry with hold | rfl
    · exact he.strings entry hold
    · intro h0
      have hmem := List.mem_of_mem_take h0
      rw [multiLineTrim, List.mem_reverse] at hmem
      exact he.zero_not_mem_line (List.mem_reverse.mp ((List.dropWhile_suffix _).subset hmem))

/-- **A byte keeps the editor sound.** -/
theorem Editor.Sound.byte (he : e.Sound) (c : UInt8) : (e.byte c).Sound := by
  rw [Editor.byte]
  split_ifs with henter
  · exact he.enter
  · cases hkey : keyOf e.escState c with
    | none => exact ⟨⟨he.fits.length, he.fits.cursor, he.fits.entries⟩, he.text, he.strings, he.shown⟩
    | some k =>
      obtain ⟨⟨hlength, hcursor, hentries⟩, htext, hstrings, hshown⟩ :=
        he.press k fun x hx => isText_of_keyOf (hkey.trans (congrArg some hx))
      exact ⟨⟨hlength, hcursor, hentries⟩, htext, hstrings, hshown⟩

theorem Editor.Sound.bytes (he : e.Sound) (bytes : Bytes) : (bytes.foldl Editor.byte e).Sound := by
  induction bytes generalizing e with
  | nil => exact he
  | cons c bytes ih => exact ih (he.byte c)

theorem Editor.Sound.reference_recall (he : e.Sound) {k : ℕ} (hk : k < e.history.length) :
    (e.recall k).reference = e.reference.showEntry k := by
  have hentry := List.getElem?_eq_getElem hk
  rw [he.recall_eq hentry, Reference.showEntry, Editor.reference, Editor.reference,
    List.getD_eq_getElem?_getD, hentry, Option.getD_some]

/-- **The editor does what the keys are for**; and Up, with the oldest entry on the line, moves the
cursor to its end. -/
theorem reference_press (he : e.Sound) (k : Key) :
    (e.press k).reference = e.reference.press Zipper.toEnd k := by
  have hcursor := he.fits.cursor
  have hline : e.reference.line = Zipper.ofList e.input e.cursor := rfl
  cases k with
  | text c =>
    rw [Editor.press, Reference.press, hline, Zipper.text_ofList, Zipper.ofList_insert hcursor]
    split_ifs with hroom
    · rfl
    · rfl
  | backspace =>
    have hstart : e.reference.line.before = [] ↔ ¬0 < e.cursor :=
      (Zipper.before_ofList_eq_nil hcursor).trans (by omega)
    rw [Editor.press, Reference.press]
    by_cases hpos : 0 < e.cursor
    · rw [if_pos hpos, if_neg fun h => hstart.mp h hpos, hline, Zipper.ofList_erase hcursor]
      rfl
    · rw [if_neg hpos, if_pos (hstart.mpr hpos)]
  | left =>
    rw [Editor.press, Reference.press, hline, Zipper.ofList_left hcursor]
    split_ifs with hpos
    · rfl
    · rw [show e.cursor - 1 = e.cursor by omega]
      rfl
  | right =>
    rw [Editor.press, Reference.press, hline]
    split_ifs with hlt
    · rw [Zipper.ofList_right hlt]
      rfl
    · rw [Zipper.ofList_right_end (not_lt.mp hlt)]
      rfl
  | home =>
    rw [Editor.press, Reference.press, hline, Zipper.ofList_toStart]
    split_ifs with hpos
    · rfl
    · rw [← Nat.eq_zero_of_not_pos hpos]
      rfl
  | endKey =>
    rw [Editor.press, Reference.press, hline, Zipper.ofList_toEnd]
    split_ifs with hlt
    · rfl
    · rw [le_antisymm (not_lt.mp hlt) hcursor]
      rfl
  | up =>
    rw [Editor.press, Reference.press]
    rcases he.load_up with ⟨hnil, hload⟩ | ⟨k, hk, hload, hpos⟩
    · have hnone : e.historyPos = none := by
        by_contra hsome
        obtain ⟨k, hk⟩ := Option.ne_none_iff_exists'.mp hsome
        have hlt := he.shown_lt hk
        rw [hnil] at hlt
        exact Nat.not_lt_zero _ hlt
      have holder : e.reference.older = none := by
        rw [Reference.older, Editor.reference, hnone, hnil]
        rfl
      have hhistory : e.reference.history = [] := hnil
      rw [hload, holder]
      exact (if_pos hhistory).symm
    · have hne : e.reference.history ≠ [] := List.length_pos_iff.mp (Nat.zero_lt_of_lt hk)
      rw [hload]
      cases hshown : e.historyPos with
      | none =>
        have holder : e.reference.older = some k := by
          rw [Reference.older, Editor.reference, hshown, hpos, hshown]
          exact if_neg hne
        rw [holder]
        exact he.reference_recall hk
      | some j =>
        rw [hshown] at hpos
        cases j with
        | zero =>
          -- the entry is on the line already
          obtain rfl : k = 0 := hpos
          have holder : e.reference.older = none := by
            rw [Reference.older, Editor.reference, hshown]
          rw [holder, he.recall_eq (he.shown 0 hshown)]
          dsimp only
          rw [if_neg hne, hline, Zipper.ofList_toEnd, Editor.reference, Editor.reference, hshown]
        | succ j =>
          have holder : e.reference.older = some k := by
            rw [Reference.older, Editor.reference, hshown, hpos]
            rfl
          rw [holder]
          exact he.reference_recall hk
  | down =>
    rw [Editor.press, Reference.press, he.load_down]
    have hreference : e.reference.shown = e.historyPos := rfl
    rw [hreference]
    cases e.historyPos with
    | none => rfl
    | some k =>
      dsimp only
      by_cases hlt : k + 1 < e.history.length
      · rw [if_pos hlt, if_pos (show k + 1 < e.reference.history.length from hlt)]
        exact he.reference_recall hlt
      · rw [if_neg hlt, if_neg (show ¬k + 1 < e.reference.history.length from hlt)]
        rfl

/-- What a byte other than Enter does is what the key is for, if it is one. -/
theorem reference_byte (he : e.Sound) {c : UInt8} (hc : c ≠ chr '\r' ∧ c ≠ chr '\n') :
    (e.byte c).reference = (keyOf e.escState c).elim e.reference
      (e.reference.press Zipper.toEnd) := by
  rw [Editor.byte, if_neg fun h => h.2.elim hc.1 hc.2]
  cases keyOf e.escState c with
  | none => rfl
  | some k => exact reference_press he k

theorem escState_byte {c : UInt8} (hc : c ≠ chr '\r' ∧ c ≠ chr '\n') :
    (e.byte c).escState = e.escState.next c := by
  rw [Editor.byte, if_neg fun h => h.2.elim hc.1 hc.2]

/-- **A sequence of bytes** does what the keys in it are for. -/
theorem reference_bytes (he : e.Sound) {bytes : Bytes}
    (hbytes : ∀ c ∈ bytes, c ≠ chr '\r' ∧ c ≠ chr '\n') :
    (bytes.foldl Editor.byte e).reference =
      (keys e.escState bytes).foldl (Reference.press Zipper.toEnd) e.reference := by
  induction bytes generalizing e with
  | nil => rfl
  | cons c bytes ih =>
    obtain ⟨hc, hbytes⟩ := List.forall_mem_cons.mp hbytes
    rw [List.foldl_cons, ih (he.byte c) hbytes, escState_byte hc, reference_byte he hc, keys,
      List.foldl_append]
    cases keyOf e.escState c <;> rfl

end Wirecat
