import Wirecat.EscapeSequences
import Wirecat.HistoryRows
import Wirecat.Keys

/-!
# Editing in place

The line editor keeps its line in an array of 8192 bytes, of which the first `input_len` are the line.
Backspace moves what is behind the cursor down by one byte, a character moves it up by one and is
stored in the gap, and Up and Down copy a row of the history over the line. The functions on the array
(`Wirecat.Memory.multiHandleInputKey`, `Wirecat.Memory.multiEditorByte`) check every access, and the
differences of the lengths, so that a result is proof that no access was outside. The line is drawn
again after most keys, which reads it and stores nothing; that is left out here, and so is what is done
with a line that is submitted.

The variables hold the line editor of the rest of the development (`Wirecat.Memory.EditorMemory.Holds`),
and a byte keeps it so (`Wirecat.Memory.EditorMemory.Holds.byte`). With what the keys are for
(`Wirecat.reference_bytes`), that settles any run in which bytes are typed to the editor, however they
are divided into reads and whatever else happens in between: `Wirecat.editor_refines`.
-/

namespace Wirecat

open CString CArray Interaction

/-! ### The functions on the array -/

namespace Memory

/-- `multi_handle_input_key`. -/
def multiHandleInputKey (key : UInt8) (m : EditorMemory) : Option EditorMemory :=
  if key = chr 'A' then multiHistoryLoad true m
  else if key = chr 'B' then multiHistoryLoad false m
  else if key = chr 'D' then
    if 0 < m.inputCursor then some { m with inputCursor := m.inputCursor - 1 } else some m
  else if key = chr 'C' then
    if m.inputCursor < m.inputLen then some { m with inputCursor := m.inputCursor + 1 } else some m
  else if key = chr 'H' ∨ key = chr 'h' then
    if 0 < m.inputCursor then some { m with inputCursor := 0 } else some m
  else if key = chr 'F' ∨ key = chr 'f' then
    if m.inputCursor < m.inputLen then some { m with inputCursor := m.inputLen } else some m
  else some m

/-- The part of `multi_handle_interactive_stdin` for the end of a line. -/
def EditorMemory.enter (m : EditorMemory) : Option EditorMemory := do
  let m ← (if m.inputLen < multiInput then do
      some { m with input := ← m.input.store m.inputLen (chr '\n'), inputLen := m.inputLen + 1 }
    else some m)
  let line ← m.input.read 0 m.inputLen
  let history ← multiHistorySave m.history line
  some { m with history, historyPos := -1, inputLen := 0, inputCursor := 0 }

/-- The part of `multi_handle_interactive_stdin` for Backspace. -/
def EditorMemory.rubOut (m : EditorMemory) : Option EditorMemory := do
  if 0 < m.inputCursor then
    let input ← m.input.move (m.inputCursor - 1) m.inputCursor (← sub m.inputLen m.inputCursor)
    let inputLen ← sub m.inputLen 1
    some { m with input, inputLen, inputCursor := m.inputCursor - 1, historyPos := -1 }
  else some m

/-- The part of `multi_handle_interactive_stdin` for a character. -/
def EditorMemory.insert (m : EditorMemory) (c : UInt8) : Option EditorMemory := do
  let input ← m.input.move (m.inputCursor + 1) m.inputCursor (← sub m.inputLen m.inputCursor)
  let input ← input.store m.inputCursor c
  some { m with
    input
    inputLen := m.inputLen + 1
    inputCursor := m.inputCursor + 1
    historyPos := -1 }

/-- One byte of `multi_handle_interactive_stdin`. -/
def multiEditorByte (m : EditorMemory) (c : UInt8) : Option EditorMemory := do
  if m.escState = 1 then
    some { m with escState := if c = chr '[' then 2 else if c = chr 'O' then 3 else 0 }
  else if m.escState = 2 then
    if c ∈ lit "ABCDHF" then
      let m ← multiHandleInputKey c m
      some { m with escState := 0 }
    else some { m with escState := if chr '0' ≤ c ∧ c ≤ chr '9' then 100 + c.toNat else 0 }
  else if m.escState = 3 then
    let key := if c = chr 'w' then chr 'H' else if c = chr 'q' then chr 'F' else c
    let m ← multiHandleInputKey key m
    some { m with escState := 0 }
  else if 100 ≤ m.escState then
    let digit := m.escState - 100
    let m ← (if c = chr '~' then
        if digit = (chr '1').toNat ∨ digit = (chr '7').toNat then multiHandleInputKey (chr 'H') m
        else if digit = (chr '4').toNat ∨ digit = (chr '8').toNat then
          multiHandleInputKey (chr 'F') m
        else some m
      else some m)
    some { m with escState := if c = chr '~' then 0 else 99 }
  else if m.escState = 99 then
    some { m with
      escState := if (chr 'A' ≤ c ∧ c ≤ chr 'Z') ∨ c = chr '~' then 0 else m.escState }
  else if c = escape then some { m with escState := 1 }
  else if c = chr '\r' ∨ c = chr '\n' then m.enter
  else if c = 8 ∨ c = 127 then m.rubOut
  else if isText c ∧ m.inputLen < multiInput then m.insert c
  else some m

end Memory

open Memory

/-! ### What the variables hold -/

/-- `esc_state`, for a place in an escape sequence. -/
def EscState.code : EscState → ℕ
  | .ground => 0
  | .escape => 1
  | .bracket => 2
  | .letterO => 3
  | .skip => 99
  | .digit c => 100 + c.toNat

/-- **The variables hold the line editor**: the line in the first bytes of the array, and the history
in the rows. -/
structure Memory.EditorMemory.Holds (m : EditorMemory) (e : Editor) : Prop where
  input : m.input.held m.inputLen = e.input
  inputLen : m.inputLen = e.input.length
  inputCursor : m.inputCursor = e.cursor
  escState : m.escState = e.escState.code
  rows : m.history.Ok
  history : m.history.entries = e.history
  historyPos : m.historyPos = e.historyPos.elim (-1) fun k : ℕ => (k : ℤ)

namespace Memory.EditorMemory.Holds

variable {m : EditorMemory} {e : Editor}

theorem count (hm : m.Holds e) : m.history.count = e.history.length := by
  rw [← hm.history, hm.rows.length_entries]

/-- The cursor moves. -/
theorem move (hm : m.Holds e) (k : ℕ) : { m with inputCursor := k }.Holds { e with cursor := k } :=
  ⟨hm.input, hm.inputLen, rfl, hm.escState, hm.rows, hm.history, hm.historyPos⟩

/-- The place in an escape sequence is another one. -/
theorem setEscState (hm : m.Holds e) {code : ℕ} {state : EscState} (hcode : code = state.code) :
    { m with escState := code }.Holds { e with escState := state } :=
  ⟨hm.input, hm.inputLen, hm.inputCursor, hcode, hm.rows, hm.history, hm.historyPos⟩

/-- An entry is put on the line. -/
theorem recalled (hm : m.Holds e) (he : e.Sound) {k : ℕ} (hk : k < e.history.length) :
    ∃ m', m.recall k = some m' ∧ m'.Holds (e.recall k) := by
  obtain ⟨text, m', hentry, hrecall, hhistory, hpos, hesc, hlen, hcursor, hheld, -⟩ :=
    recall_eq hm.rows (hm.count.symm ▸ hk)
  rw [hm.history] at hentry
  refine ⟨m', hrecall, ?_⟩
  rw [he.recall_eq hentry]
  refine ⟨?_, hlen, hcursor, hesc.trans hm.escState, hhistory ▸ hm.rows, ?_, hpos⟩
  · rw [hlen]
    exact hheld
  · rw [hhistory]
    exact hm.history

/-- **Going through the history** in place. -/
theorem load (hm : m.Holds e) (he : e.Sound) (up : Bool) :
    ∃ m', Memory.multiHistoryLoad up m = some m' ∧ m'.Holds (e.load up) := by
  have hpos := hm.historyPos
  have hcount := hm.count
  rw [Memory.multiHistoryLoad]
  cases up with
  | true =>
    rcases he.load_up with ⟨hnil, hload⟩ | ⟨k, hk, hload, hgoal⟩
    · rw [hload, if_pos (by rw [hcount, hnil]; rfl)]
      exact ⟨m, rfl, hm⟩
    · have hindex : (if m.historyPos < 0 then (m.history.count : ℤ) - 1
          else if 0 < m.historyPos then m.historyPos - 1 else m.historyPos) = k := by
        cases hshown : e.historyPos with
        | none =>
          rw [hshown, Option.elim_none] at hpos hgoal
          rw [if_pos (by omega)]
          omega
        | some j =>
          rw [hshown, Option.elim_some] at hpos hgoal
          rw [if_neg (by omega)]
          split_ifs <;> omega
      rw [hload, if_neg (by omega), if_pos rfl, hindex]
      exact hm.recalled he hk
  | false =>
    rw [he.load_down, if_neg (show ¬false = true by simp)]
    cases hshown : e.historyPos with
    | none =>
      rw [hshown, Option.elim_none] at hpos
      rw [if_pos (show m.historyPos < 0 by omega), ite_self]
      exact ⟨m, rfl, hm⟩
    | some j =>
      rw [hshown, Option.elim_some] at hpos
      have hlt := he.shown_lt hshown
      rw [if_neg (by omega), if_neg (by omega)]
      by_cases hmore : j + 1 < e.history.length
      · rw [if_pos (by omega), hpos]
        dsimp only
        rw [if_pos hmore]
        exact hm.recalled he hmore
      · rw [if_neg (by omega)]
        dsimp only
        rw [if_neg hmore]
        exact ⟨_, rfl, rfl, rfl, rfl, hm.escState, hm.rows, hm.history, rfl⟩

/-- **A key** in place, by its letter. -/
theorem key (hm : m.Holds e) (he : e.Sound) (key : UInt8) :
    ∃ m', Memory.multiHandleInputKey key m = some m' ∧
      m'.Holds ((inputKey key).elim e e.press) := by
  have hcursor := hm.inputCursor
  have hlen := hm.inputLen
  -- a move of the cursor, under the condition of its branch
  have hmove : ∀ (p q : Prop) [Decidable p] [Decidable q] (j k : ℕ), (p ↔ q) → j = k →
      ∃ m', (if p then some { m with inputCursor := j } else some m) = some m' ∧
        m'.Holds (if q then { e with cursor := k } else e) := by
    rintro p q _ _ j _ hpq rfl
    by_cases hq : q
    · rw [if_pos (hpq.mpr hq), if_pos hq]
      exact ⟨_, rfl, hm.move j⟩
    · rw [if_neg fun hp => hq (hpq.mp hp), if_neg hq]
      exact ⟨m, rfl, hm⟩
  have hstart : 0 < m.inputCursor ↔ 0 < e.cursor := by rw [hcursor]
  have hend : m.inputCursor < m.inputLen ↔ e.cursor < e.input.length := by rw [hcursor, hlen]
  rw [Memory.multiHandleInputKey, inputKey]
  by_cases hup : key = chr 'A'
  · rw [if_pos hup, if_pos hup]
    exact hm.load he true
  rw [if_neg hup, if_neg hup]
  by_cases hdown : key = chr 'B'
  · rw [if_pos hdown, if_pos hdown]
    exact hm.load he false
  rw [if_neg hdown, if_neg hdown]
  by_cases hleft : key = chr 'D'
  · rw [if_pos hleft, if_pos hleft]
    exact hmove _ (0 < e.cursor) _ _ hstart (by rw [hcursor])
  rw [if_neg hleft, if_neg hleft]
  by_cases hright : key = chr 'C'
  · rw [if_pos hright, if_pos hright]
    exact hmove _ (e.cursor < e.input.length) _ _ hend (by rw [hcursor])
  rw [if_neg hright, if_neg hright]
  by_cases hhome : key = chr 'H' ∨ key = chr 'h'
  · rw [if_pos hhome, if_pos hhome]
    exact hmove _ (0 < e.cursor) _ _ hstart rfl
  rw [if_neg hhome, if_neg hhome]
  by_cases hlast : key = chr 'F' ∨ key = chr 'f'
  · rw [if_pos hlast, if_pos hlast]
    exact hmove _ (e.cursor < e.input.length) _ _ hend hlen
  rw [if_neg hlast, if_neg hlast]
  exact ⟨m, rfl, hm⟩

/-- **Enter** in place: the line feed is stored, if there is room for it. -/
theorem enter (hm : m.Holds e) (he : e.Sound) : ∃ m', m.enter = some m' ∧ m'.Holds e.enter := by
  have hline : ∃ m₁ : EditorMemory, (if m.inputLen < multiInput then do
        some { m with input := ← m.input.store m.inputLen (chr '\n'), inputLen := m.inputLen + 1 }
      else some m) = some m₁ ∧ m₁.input.read 0 m₁.inputLen = some e.line ∧
        m₁.history = m.history ∧ m₁.escState = m.escState := by
    rw [Editor.line, ← hm.inputLen]
    split_ifs with hroom
    · rw [Arr.store_of_lt hroom]
      refine ⟨_, rfl, ?_, rfl, rfl⟩
      dsimp only
      rw [Arr.read_of_le (by omega), Nat.zero_add, Arr.held_update hroom, hm.input, List.drop_zero]
    · have hfull : m.inputLen ≤ multiInput := hm.inputLen ▸ he.fits.length
      refine ⟨m, rfl, ?_, rfl, rfl⟩
      rw [Arr.read_of_le (by omega), Nat.zero_add, hm.input, List.drop_zero]
  obtain ⟨m₁, hstore, hread, hhistory, hesc⟩ := hline
  obtain ⟨g, hsave, hg, hentries⟩ := multiHistorySave_entries hm.rows he.zero_not_mem_line
  refine ⟨{ m₁ with history := g, historyPos := -1, inputLen := 0, inputCursor := 0 }, ?_, ?_⟩
  · simp only [EditorMemory.enter, Option.bind_eq_bind] at hstore ⊢
    rw [hstore]
    simp only [Option.bind_some, hread, hhistory, hsave]
  · refine ⟨rfl, rfl, rfl, hesc.trans hm.escState, hg, ?_, rfl⟩
    rw [hentries, hm.history]
    rfl

/-- **Backspace** in place. -/
theorem rubOut (hm : m.Holds e) (he : e.Sound) :
    ∃ m', m.rubOut = some m' ∧ m'.Holds (e.press .backspace) := by
  have hcursor := hm.inputCursor
  have hlen := hm.inputLen
  have hon := he.fits.cursor
  have hroom := he.fits.length
  rw [EditorMemory.rubOut, Editor.press, ← hcursor]
  split_ifs with hpos
  · obtain ⟨input, hmove, hheld⟩ := Arr.held_removed (a := m.input) (Nat.sub_le m.inputCursor 1)
      (show m.inputCursor ≤ m.inputLen by omega) (show m.inputLen ≤ multiInput by omega)
    refine ⟨{ m with
      input
      inputLen := m.inputLen - 1
      inputCursor := m.inputCursor - 1
      historyPos := -1 }, ?_, ?_, ?_, rfl, hm.escState, hm.rows, hm.history, rfl⟩
    · simp only [sub_of_le (show m.inputCursor ≤ m.inputLen by omega), hmove,
        sub_of_le (show 1 ≤ m.inputLen by omega), Option.bind_eq_bind, Option.bind_some]
    · rw [show m.inputCursor - (m.inputCursor - 1) = 1 by omega, hm.input] at hheld
      dsimp only
      rw [hheld, ← hm.input, Arr.take_held (by omega)]
    · simp only [List.length_append, List.length_take, List.length_drop]
      omega
  · exact ⟨m, rfl, hm⟩

/-- **A character** in place. -/
theorem insert (hm : m.Holds e) (he : e.Sound) {c : UInt8} (hroom : m.inputLen < multiInput) :
    ∃ m', m.insert c = some m' ∧ m'.Holds (e.press (.text c)) := by
  have hcursor := hm.inputCursor
  have hlen := hm.inputLen
  have hon := he.fits.cursor
  have hle : m.inputCursor ≤ m.inputLen := by omega
  obtain ⟨input, input', hmove, hstore, hheld⟩ := Arr.held_inserted (a := m.input) hle hroom c
  rw [hm.input] at hheld
  rw [Editor.press, ← hlen, if_pos hroom, ← hcursor]
  refine ⟨{ m with
    input := input'
    inputLen := m.inputLen + 1
    inputCursor := m.inputCursor + 1
    historyPos := -1 }, ?_, hheld, ?_, rfl, hm.escState, hm.rows, hm.history, rfl⟩
  · simp only [EditorMemory.insert, sub_of_le hle, hmove, hstore, Option.bind_eq_bind,
      Option.bind_some]
  · simp only [List.length_append, List.length_take, List.length_drop, List.length_singleton]
    omega

/-- A key, and then the place in the escape sequence. -/
theorem keyed {c : UInt8} {p : Option EditorMemory} {code : ℕ} (hesc : e.escState ≠ .ground)
    (hp : ∃ m', p = some m' ∧ m'.Holds ((keyOf e.escState c).elim e e.press))
    (hcode : code = (e.escState.next c).code) :
    ∃ m', (p.bind fun m' => some { m' with escState := code }) = some m' ∧ m'.Holds (e.byte c) := by
  obtain ⟨m', rfl, hm'⟩ := hp
  refine ⟨{ m' with escState := code }, rfl, ?_⟩
  rw [Editor.byte, if_neg fun h => hesc h.1]
  exact hm'.setEscState hcode

/-- A byte outside of an escape sequence. -/
theorem ground (hm : m.Holds e) (he : e.Sound) (hs : e.escState = .ground) (c : UInt8) :
    ∃ m', (if c = escape then some { m with escState := 1 }
      else if c = chr '\r' ∨ c = chr '\n' then m.enter
      else if c = 8 ∨ c = 127 then m.rubOut
      else if isText c ∧ m.inputLen < multiInput then m.insert c
      else some m) = some m' ∧ m'.Holds (e.byte c) := by
  by_cases hesc : c = escape
  · have hnone : keyOf .ground c = none := by rw [hesc]; decide
    have hnot : ¬(c = chr '\r' ∨ c = chr '\n') := by rw [hesc]; decide
    rw [if_pos hesc, Editor.byte, if_neg fun h => hnot h.2, hs, hnone, EscState.next, if_pos hesc]
    exact ⟨_, rfl, hm.setEscState rfl⟩
  rw [if_neg hesc]
  by_cases henter : c = chr '\r' ∨ c = chr '\n'
  · rw [if_pos henter, Editor.byte, if_pos ⟨hs, henter⟩]
    exact hm.enter he
  rw [if_neg henter, byte_ground hs hesc henter, keyOf]
  by_cases hrub : c = 8 ∨ c = 127
  · rw [if_pos hrub, if_pos hrub]
    exact hm.rubOut he
  rw [if_neg hrub, if_neg hrub]
  by_cases htext : isText c = true
  · rw [if_pos htext]
    by_cases hroom : m.inputLen < multiInput
    · rw [if_pos ⟨htext, hroom⟩]
      exact hm.insert he hroom
    · have hfull : ¬e.input.length < multiInput := hm.inputLen ▸ hroom
      rw [if_neg fun h => hroom h.2, Option.elim_some, Editor.press, if_neg hfull]
      exact ⟨m, rfl, hm⟩
  · rw [if_neg fun h => htext h.1, if_neg htext]
    exact ⟨m, rfl, hm⟩

/-- **A byte** in place: no access is outside of the array, and the variables hold the editor
after it. -/
theorem byte (hm : m.Holds e) (he : e.Sound) (c : UInt8) :
    ∃ m', Memory.multiEditorByte m c = some m' ∧ m'.Holds (e.byte c) := by
  have hcode := hm.escState
  have hletters : ∀ c ∈ lit "ABCDHF", ¬(chr '0' ≤ c ∧ c ≤ chr '9') := by decide +kernel
  -- a byte that is no key
  have hkeep : keyOf e.escState c = none → ∃ m', some m = some m' ∧
      m'.Holds ((keyOf e.escState c).elim e e.press) := by
    intro hnone
    rw [hnone]
    exact ⟨m, rfl, hm⟩
  rw [Memory.multiEditorByte]
  cases hs : e.escState with
  | ground =>
    rw [hs] at hcode
    have hzero : m.escState = 0 := hcode
    rw [if_neg (by omega), if_neg (by omega), if_neg (by omega), if_neg (by omega),
      if_neg (by omega)]
    exact hm.ground he hs c
  | escape =>
    rw [hs] at hcode
    have hesc : m.escState = 1 := hcode
    rw [if_pos hesc]
    refine keyed (by simp [hs]) (hkeep (by rw [hs, keyOf])) ?_
    rw [hs, EscState.next]
    split_ifs <;> rfl
  | bracket =>
    rw [hs] at hcode
    have hbracket : m.escState = 2 := hcode
    rw [if_neg (by omega), if_pos hbracket]
    by_cases hletter : c ∈ lit "ABCDHF"
    · rw [if_pos hletter]
      refine keyed (by simp [hs]) ?_ ?_
      · rw [hs, keyOf, if_pos hletter]
        exact hm.key he c
      · rw [hs, EscState.next, if_neg (hletters c hletter)]
        rfl
    · rw [if_neg hletter]
      refine keyed (by simp [hs]) (hkeep (by rw [hs, keyOf, if_neg hletter])) ?_
      rw [hs, EscState.next]
      split_ifs <;> rfl
  | letterO =>
    rw [hs] at hcode
    have hletter : m.escState = 3 := hcode
    rw [if_neg (by omega), if_neg (by omega), if_pos hletter]
    refine keyed (by simp [hs]) ?_ (by rw [hs]; rfl)
    rw [hs, keyOf]
    exact hm.key he _
  | digit d =>
    rw [hs] at hcode
    have hdigit : m.escState = 100 + d.toNat := hcode
    have hsub : m.escState - 100 = d.toNat := by omega
    have heq : ∀ x : UInt8, m.escState - 100 = x.toNat ↔ d = x := fun x => by
      rw [hsub, UInt8.toNat_inj]
    rw [if_neg (by omega), if_neg (by omega), if_neg (by omega), if_pos (by omega)]
    simp only [heq]
    refine keyed (by simp [hs]) ?_ ?_
    · rw [hs, keyOf]
      split_ifs
      · exact hm.key he (chr 'H')
      · exact hm.key he (chr 'F')
      · exact ⟨m, rfl, hm⟩
      · exact ⟨m, rfl, hm⟩
    · rw [hs, EscState.next]
      split_ifs <;> rfl
  | skip =>
    rw [hs] at hcode
    have hskip : m.escState = 99 := hcode
    rw [if_neg (by omega), if_neg (by omega), if_neg (by omega), if_neg (by omega), if_pos hskip]
    refine keyed (by simp [hs]) (hkeep (by rw [hs, keyOf])) ?_
    rw [hs, EscState.next]
    split_ifs
    · rfl
    · exact hskip

/-- **A sequence of bytes** in place. -/
theorem bytes (hm : m.Holds e) (he : e.Sound) (bs : Bytes) :
    ∃ m', bs.foldlM Memory.multiEditorByte m = some m' ∧ m'.Holds (bs.foldl Editor.byte e) := by
  induction bs generalizing m e with
  | nil => exact ⟨m, rfl, hm⟩
  | cons c bs ih =>
    obtain ⟨m₁, hbyte, hm₁⟩ := hm.byte he c
    obtain ⟨m', hrun, hm'⟩ := ih hm₁ (he.byte c)
    refine ⟨m', ?_, hm'⟩
    rw [List.foldlM_cons, hbyte]
    exact hrun

end Memory.EditorMemory.Holds

/-! ### Runs of the listener -/

/-- The arrays when the listener starts: there may be anything in them. -/
def Memory.started (input : Arr UInt8 multiInput) (rows : Arr (Arr UInt8 multiInput) multiHistory) :
    EditorMemory where
  input
  inputLen := 0
  inputCursor := 0
  escState := 0
  history := ⟨rows, 0⟩
  historyPos := -1

/-- What the variables have of the line editor as it is meant. -/
def Memory.EditorMemory.reference (m : EditorMemory) : Reference where
  line := .ofList (m.input.held m.inputLen) m.inputCursor
  history := m.history.entries
  shown := if m.historyPos < 0 then none else some m.historyPos.toNat

theorem Memory.EditorMemory.Holds.reference {m : EditorMemory} {e : Editor} (hm : m.Holds e) :
    m.reference = e.reference := by
  have hshown : (if m.historyPos < 0 then none else some m.historyPos.toNat) = e.historyPos := by
    rw [hm.historyPos]
    cases e.historyPos with
    | none => rfl
    | some k => rfl
  rw [EditorMemory.reference, hm.input, hm.inputCursor, hm.history, hshown]
  rfl

variable {cfg : Config} {interactive : Bool} {listener : Fd}

theorem holds_started (input : Arr UInt8 multiInput)
    (rows : Arr (Arr UInt8 multiInput) multiHistory) (h : Hist) :
    (Memory.started input rows).Holds (multiStart h).state.editor := by
  refine ⟨rfl, rfl, rfl, rfl, ⟨Nat.zero_le _, ?_⟩, rfl, rfl⟩
  simp [Memory.started, Arr.held]

theorem sound_multiStart (h : Hist) : (multiStart h).state.editor.Sound :=
  ⟨⟨Nat.zero_le _, le_rfl, by simp [multiStart, multiInit, MultiState.editor]⟩, List.not_mem_nil,
    by simp [multiStart, multiInit, MultiState.editor],
    by simp [multiStart, multiInit, MultiState.editor]⟩

/-- **A run is a run of the editor**: the bytes say what becomes of it. -/
theorem EditorRun.editor_eq {x y : MultiPoint} {t : List Keystroke}
    (hrun : EditorRun cfg interactive listener x t y) :
    y.state.editor = (t.map Keystroke.byte).foldl Editor.byte x.state.editor := by
  induction hrun with
  | start => rfl
  | @byte t z y c rest polled hz hphase hstep ih =>
    obtain ⟨s, h, _⟩ := z
    obtain rfl : _ = _ := hphase
    rw [List.map_append, List.foldl_append, ← ih]
    cases hstep with
    | typed hr => exact (byte_multiEditorByte _ c s).result hr
  | other hx hidle hstep ih => exact (hstep.editor hidle).trans ih

theorem EditorRun.steps {x y : MultiPoint} {t : List Keystroke}
    (hrun : EditorRun cfg interactive listener x t y) : MultiSteps cfg interactive listener x y := by
  induction hrun with
  | start => exact .refl
  | byte hx hphase hstep ih => exact ih.tail hstep
  | other hx hidle hstep ih => exact ih.tail hstep

/-- **The line editor is the one that is meant.** In a run in which `t₀` was typed, whatever that was,
and then `t`, without Enter: no access is outside of the arrays, the cursor is on the line and the line
in its array, and the text before the cursor and behind it has become what the keys in `t` make of it;
Up, with the oldest entry on the line, moves the cursor to its end. -/
theorem editor_refines {h : Hist} {x y : MultiPoint} {t₀ t : List Keystroke}
    (input : Arr UInt8 multiInput) (rows : Arr (Arr UInt8 multiInput) multiHistory)
    (hx : EditorRun cfg interactive listener (multiStart h) t₀ x)
    (hrun : EditorRun cfg interactive listener x t y)
    (hkeys : ∀ k ∈ t, k.byte ≠ chr '\r' ∧ k.byte ≠ chr '\n') :
    ∃ m m', (t₀.map Keystroke.byte).foldlM Memory.multiEditorByte (Memory.started input rows) =
        some m ∧
      (t.map Keystroke.byte).foldlM Memory.multiEditorByte m = some m' ∧
      m.Holds x.state.editor ∧ m'.Holds y.state.editor ∧
      m'.inputCursor ≤ m'.inputLen ∧ m'.inputLen ≤ multiInput ∧
      m'.reference = (keys x.state.escState (t.map Keystroke.byte)).foldl
        (Reference.press Zipper.toEnd) m.reference := by
  obtain ⟨m, hfirst, hm⟩ := (holds_started input rows h).bytes (sound_multiStart h)
    (t₀.map Keystroke.byte)
  have he := (sound_multiStart h).bytes (t₀.map Keystroke.byte)
  rw [← hx.editor_eq] at hm he
  obtain ⟨m', hthen, hm'⟩ := hm.bytes he (t.map Keystroke.byte)
  have he' := he.bytes (t.map Keystroke.byte)
  have hbytes : ∀ c ∈ t.map Keystroke.byte, c ≠ chr '\r' ∧ c ≠ chr '\n' := by
    intro c hc
    obtain ⟨k, hk, rfl⟩ := List.mem_map.mp hc
    exact hkeys k hk
  have href := reference_bytes he hbytes
  rw [← hrun.editor_eq] at hm' he' href
  refine ⟨m, m', hfirst, hthen, hm, hm', ?_, ?_, ?_⟩
  · rw [hm'.inputCursor, hm'.inputLen]
    exact he'.fits.cursor
  · rw [hm'.inputLen]
    exact he'.fits.length
  · rw [hm'.reference, hm.reference]
    exact href

/-- **Any moment of a run** of the interactive listener is reached by typing something. -/
theorem exists_editorRun {h : Hist} {y : MultiPoint}
    (hs : MultiSteps cfg true listener (multiStart h) y) :
    ∃ t, EditorRun cfg true listener (multiStart h) t y := by
  induction hs with
  | refl => exact ⟨[], .start⟩
  | @tail x y hs hstep ih =>
    obtain ⟨t, ht⟩ := ih
    by_cases htyped : ∃ c rest polled, x.phase = .typing .editor (c :: rest) polled
    · obtain ⟨c, rest, polled, hphase⟩ := htyped
      exact ⟨_, ht.byte hphase hstep⟩
    · refine ⟨t, ht.other (fun mode c rest polled hphase => ?_) hstep⟩
      cases mode with
      | lines => exact absurd rfl ((MultiSteps.edits hs (edits_multiStart h) rfl).2 _ _ _ hphase)
      | editor => exact absurd ⟨c, rest, polled, hphase⟩ htyped
      | attached i => exact ⟨i, rfl⟩

/-! ### Up, left and up -/

/-- The listener with the entry `a` on its line. -/
def recalledLine (cursor : ℕ) (state : EscState) : MultiState :=
  { letters 0 with
    input := lit "a"
    inputCursor := cursor
    escState := state
    inputHistory := [lit "a"]
    inputHistoryPos := some 0 }

/-- The listener when the line `a` was submitted. -/
def submittedLine (state : EscState) : MultiState :=
  { letters 0 with escState := state, inputHistory := [lit "a"] }

/-- The last byte of the key Up puts the entry on the line. -/
theorem exists_upKey {s : MultiState} {h : Hist} (hs : s.escState = .bracket)
    (hload : multiHistoryLoad true s =
      multiRedrawInput (recalledLine 1 .bracket) >>= fun _ => pure (recalledLine 1 .bracket))
    (hclear : stopped h = false) :
    ∃ h', Runs Legal (multiEditorByte 1 (chr 'A') s) h h' (some (recalledLine 1 .ground)) ∧
      stopped h' = false := by
  obtain ⟨h', hdrawn, hclear'⟩ := exists_multiRedrawInput (recalledLine 1 .bracket) hclear
  refine ⟨h', ?_, hclear'⟩
  have hbyte : multiEditorByte 1 (chr 'A') s =
      multiHistoryLoad true s >>= fun s => pure { s with escState := .ground } := by
    rw [multiEditorByte, multiEscape, hs]
    rfl
  rw [hbyte, hload]
  exact runs_bind_some'.mpr ⟨recalledLine 1 .bracket, h',
    runs_bind_some'.mpr ⟨(), h', hdrawn, runs_pure.mpr ⟨rfl, rfl⟩⟩, runs_pure.mpr ⟨rfl, rfl⟩⟩

/-- What a terminal sends for Up, left and Up. -/
def upLeftUp : Bytes :=
  [escape, chr '[', chr 'A', escape, chr '[', chr 'D', escape, chr '[', chr 'A']

/-- With the line `a` in the history, the operator types Up, left and Up. -/
theorem exists_upLeftUp : ∃ t₀ x t y,
    EditorRun oneSession true (.sock .tcp 3) (multiStart []) t₀ x ∧
    EditorRun oneSession true (.sock .tcp 3) x t y ∧ t.map Keystroke.byte = upLeftUp ∧
    (∀ k ∈ t, k.byte ≠ chr '\r' ∧ k.byte ≠ chr '\n') ∧
    x.state.editor = ⟨[], 0, .ground, [lit "a"], none⟩ ∧
    y.state.editor = ⟨lit "a", 1, .ground, [lit "a"], some 0⟩ := by
  obtain ⟨h, hclear, hsteps⟩ := @exists_letters 1 (by decide)
  obtain ⟨h₁, polled, hclear₁, htyping⟩ :=
    @exists_typing 1 h hclear (chr '\n' :: upLeftUp) (by decide) (by decide)
  obtain ⟨t₁, hrun₁⟩ := exists_editorRun (hsteps.trans htyping)
  have henter : ∃ h₂, Runs Legal (multiEditorByte 1 (chr '\n') (letters 1)) h₁ h₂
      (some (submittedLine .ground)) ∧ stopped h₂ = false := by
    have hbyte : multiEditorByte 1 (chr '\n') (letters 1) = sys (.tty .newline) >>= fun _ =>
        multiFailure "no active session" >>= fun _ => multiPrintPrompt 0 >>= fun _ =>
          pure (submittedLine .ground) := rfl
    rw [hbyte]
    exact ⟨_, runs_ask.mpr ⟨(), legal_refuse _ _, runs_ask.mpr ⟨(), legal_refuse _ _,
      runs_ask.mpr ⟨(), legal_refuse _ _, runs_pure.mpr ⟨rfl, rfl⟩⟩⟩⟩, hclear₁⟩
  obtain ⟨h₂, henter, hclear₂⟩ := henter
  obtain ⟨h₃, hup, hclear₃⟩ := @exists_upKey (submittedLine .bracket) h₂ rfl rfl hclear₂
  have hleft : Runs Legal (multiEditorByte 1 (chr 'D') (recalledLine 1 .bracket)) h₃
      (⟨.tty (.cursorLeft 1), ()⟩ :: h₃) (some (recalledLine 0 .ground)) := by
    have hbyte : multiEditorByte 1 (chr 'D') (recalledLine 1 .bracket) =
        sys (.tty (.cursorLeft 1)) >>= fun _ => pure (recalledLine 0 .ground) := rfl
    rw [hbyte]
    exact runs_ask.mpr ⟨(), legal_refuse _ _, runs_pure.mpr ⟨rfl, rfl⟩⟩
  obtain ⟨h₄, hup', -⟩ :=
    @exists_upKey (recalledLine 0 .bracket) (⟨.tty (.cursorLeft 1), ()⟩ :: h₃) rfl rfl hclear₃
  have hrun₂ := hrun₁.byte rfl (.typed henter)
  have hrun := @EditorRun.start oneSession true (.sock .tcp 3)
    ⟨submittedLine .ground, h₂, .typing .editor upLeftUp polled⟩
  have hrun₃ := (hrun.silent (submittedLine .escape) rfl).silent (submittedLine .bracket) rfl
  have hrun₄ := hrun₃.byte rfl (.typed hup)
  have hrun₅ := (hrun₄.silent (recalledLine 1 .escape) rfl).silent (recalledLine 1 .bracket) rfl
  have hrun₆ := hrun₅.byte rfl (.typed hleft)
  have hrun₇ := (hrun₆.silent (recalledLine 0 .escape) rfl).silent (recalledLine 0 .bracket) rfl
  have hkeys : ∀ c ∈ upLeftUp, c ≠ chr '\r' ∧ c ≠ chr '\n' := by decide +kernel
  refine ⟨_, _, _, _, hrun₂, hrun₇.byte rfl (.typed hup'), rfl, fun k hk => ?_, rfl, rfl⟩
  exact hkeys k.byte (List.mem_map_of_mem hk)

/-- What was typed moved the cursor to the end of the line. -/
theorem editor_refines_upLeftUp : ∃ x y m m',
    MultiSteps oneSession true (.sock .tcp 3) (multiStart []) x ∧
    MultiSteps oneSession true (.sock .tcp 3) x y ∧
    m.Holds x.state.editor ∧ upLeftUp.foldlM Memory.multiEditorByte m = some m' ∧
    m'.Holds y.state.editor ∧ m'.reference.line = ⟨lit "a", []⟩ := by
  obtain ⟨t₀, x, t, y, hx, hrun, hbytes, hkeys, hstate, -⟩ := exists_upLeftUp
  obtain ⟨m, m', -, hthen, hm, hm', -, -, href⟩ :=
    editor_refines Memory.blank.input Memory.blank.history.rows hx hrun hkeys
  rw [hbytes] at hthen href
  refine ⟨x, y, m, m', hx.steps, hrun.steps, hm, hthen, hm', ?_⟩
  have hground : x.state.escState = .ground := congrArg Editor.escState hstate
  rw [href, hm.reference, hstate, hground]
  decide +kernel

/-- **Up changes something with the oldest entry on the line**: it moves the cursor to its end. -/
theorem not_editor_refines : ∃ t₀ x t y,
    EditorRun oneSession true (.sock .tcp 3) (multiStart []) t₀ x ∧
    EditorRun oneSession true (.sock .tcp 3) x t y ∧
    (∀ k ∈ t, k.byte ≠ chr '\r' ∧ k.byte ≠ chr '\n') ∧
    y.state.editor.reference ≠ (keys x.state.escState (t.map Keystroke.byte)).foldl
      (Reference.press id) x.state.editor.reference := by
  obtain ⟨t₀, x, t, y, hx, hrun, hbytes, hkeys, hstate, hend⟩ := exists_upLeftUp
  refine ⟨t₀, x, t, y, hx, hrun, hkeys, ?_⟩
  have hground : x.state.escState = .ground := congrArg Editor.escState hstate
  rw [hbytes, hstate, hend, hground]
  intro heq
  exact absurd (congrArg (fun r => r.line.before) heq) (by decide +kernel)

end Wirecat
