import Mathlib.Data.List.Destutter
import Wirecat.CArray
import Wirecat.Prompt

/-!
# The history of lines

The line editor remembers 64 lines, in an array of rows of 8192 bytes each
(`Wirecat.Memory.HistoryRows`). `multi_history_save` stores a line in the next row, without its end and
with a NUL behind it; when all rows are taken, they move up by one, over the oldest. An empty line is
not stored, and neither is one that was stored last. `multi_history_load` goes through the rows with
an index of its own, which is `-1` on the line that is being typed.

What all this is for is a list: the lines without their ends, the empty ones left out, of equal ones
in a row only one, and of those the newest 64 (`Wirecat.rememberedLines`). Over any sequence of saves and
recalls (`Wirecat.HistoryOp`), the rows hold just that, every entry ends within its row, and the index
stays among the entries: `Wirecat.history_holds`.

`Wirecat.Memory.multiHistorySave` and `Wirecat.Memory.multiHistoryLoad` are the functions on the arrays,
with every access checked. What the rest of the development has of the history is the list of the
entries; the two agree (`Wirecat.multiHistorySave_entries`).
-/

namespace Wirecat

open CString CArray

/-! ### The newest of the lines -/

section
variable {α : Type}

/-- One more element, when there is room for `n`. -/
theorem rtake_concat (l : List α) (n : ℕ) (x : α) : (l ++ [x]).rtake (n + 1) =
    (if (l.rtake (n + 1)).length = n + 1 then (l.rtake (n + 1)).drop 1 else l.rtake (n + 1)) ++
      [x] := by
  rw [List.rtake_concat_succ]
  congr 1
  simp only [List.rtake, List.length_drop, List.drop_drop]
  split_ifs with hfull
  · congr 1
    omega
  · rw [show l.length - n = 0 by omega, show l.length - (n + 1) = 0 by omega]

theorem getLast?_rtake (l : List α) (n : ℕ) : (l.rtake (n + 1)).getLast? = l.getLast? := by
  induction l using List.reverseRecOn with
  | nil => rw [List.rtake_nil]
  | append_singleton t x => rw [List.rtake_concat_succ, List.getLast?_concat, List.getLast?_concat]

variable [DecidableEq α]

/-- One more element: it is left out if it is equal to the last one that was kept. -/
theorem destutter'_concat (a : α) (l : List α) (x : α) :
    (l ++ [x]).destutter' (· ≠ ·) a = if (l.destutter' (· ≠ ·) a).getLast? = some x then
      l.destutter' (· ≠ ·) a else l.destutter' (· ≠ ·) a ++ [x] := by
  induction l generalizing a with
  | nil =>
    by_cases hax : a = x
    · simp [hax]
    · simp [hax]
  | cons b l ih =>
    rw [List.cons_append]
    by_cases hab : a ≠ b
    · obtain ⟨c, t, hct⟩ := List.exists_cons_of_ne_nil (List.destutter'_ne_nil l (· ≠ ·) (a := b))
      rw [List.destutter'_cons_pos _ hab, List.destutter'_cons_pos _ hab, ih, hct,
        List.getLast?_cons_cons]
      split_ifs <;> rfl
    · rw [List.destutter'_cons_neg _ hab, List.destutter'_cons_neg _ hab, ih]

theorem destutter_concat (l : List α) (x : α) :
    (l ++ [x]).destutter (· ≠ ·) = if (l.destutter (· ≠ ·)).getLast? = some x then
      l.destutter (· ≠ ·) else l.destutter (· ≠ ·) ++ [x] := by
  cases l with
  | nil => simp
  | cons a l => exact destutter'_concat a l x

end

/-- What is remembered of a line: the line without its end, as much of it as fits a row. -/
def rememberedLine (line : Bytes) : Bytes := (multiLineTrim line).take (multiInput - 1)

theorem rememberedLine_subset (line : Bytes) : rememberedLine line ⊆ line := by
  intro c hc
  have hc := List.mem_of_mem_take hc
  rw [multiLineTrim, List.mem_reverse] at hc
  exact List.mem_reverse.mp ((List.dropWhile_suffix _).subset hc)

theorem multiLineTrim_isEmpty (line : Bytes) :
    (multiLineTrim line).isEmpty = true ↔ rememberedLine line = [] := by
  rw [rememberedLine, List.isEmpty_iff, List.take_eq_nil_iff]
  exact (or_iff_right (by decide)).symm

/-- The lines of which something is remembered. -/
def textLines (lines : List Bytes) : List Bytes := (lines.map rememberedLine).filter (· ≠ [])

/-- **What is remembered of the lines**: of equal ones in a row only one, and the newest of them. -/
def rememberedLines (lines : List Bytes) : List Bytes :=
  ((textLines lines).destutter (· ≠ ·)).rtake multiHistory

theorem textLines_concat (lines : List Bytes) (line : Bytes) : textLines (lines ++ [line]) =
    if rememberedLine line = [] then textLines lines
    else textLines lines ++ [rememberedLine line] := by
  rw [textLines, List.map_append, List.filter_append]
  split_ifs with hempty
  · simp [textLines, hempty]
  · simp [textLines, hempty]

/-- An empty line is not remembered, and a line that was remembered last is not again. -/
theorem rememberedLines_concat (lines : List Bytes) (line : Bytes) :
    rememberedLines (lines ++ [line]) =
      if rememberedLine line = [] ∨ (rememberedLines lines).getLast? = some (rememberedLine line) then
        rememberedLines lines
      else (if (rememberedLines lines).length = multiHistory then (rememberedLines lines).drop 1
        else rememberedLines lines) ++ [rememberedLine line] := by
  have hlast : (rememberedLines lines).getLast? =
      ((textLines lines).destutter (· ≠ ·)).getLast? := getLast?_rtake _ (multiHistory - 1)
  rw [hlast]
  by_cases hempty : rememberedLine line = []
  · rw [if_pos (.inl hempty), rememberedLines, textLines_concat, if_pos hempty, rememberedLines]
  · rw [rememberedLines, textLines_concat, if_neg hempty, destutter_concat]
    by_cases hsame : ((textLines lines).destutter (· ≠ ·)).getLast? = some (rememberedLine line)
    · rw [if_pos hsame, if_pos (.inr hsame), rememberedLines]
    · rw [if_neg hsame, if_neg (not_or.mpr ⟨hempty, hsame⟩)]
      exact rtake_concat _ (multiHistory - 1) _

/-! ### The rows -/

namespace Memory

/-- `input_history` and `input_history_count`. -/
structure HistoryRows where
  rows : Arr (Arr UInt8 multiInput) multiHistory
  count : ℕ

namespace HistoryRows

variable (h : HistoryRows)

/-- The entries of the history. -/
def entries : List Bytes := (h.rows.held h.count).map fun row => ofBuffer row.cells

/-- The string in the row before the next one is the line. -/
def sameAsLast (line : Bytes) : Option Bool := do
  if 0 < h.count then
    let last ← h.rows.load (h.count - 1)
    if (← last.string).length = line.length then
      some ((← last.read 0 line.length) = line)
    else some false
  else some false

/-- The rows move up, if none is left. -/
def evict : Option HistoryRows := do
  if h.count = multiHistory then
    some ⟨← h.rows.move 0 1 (multiHistory - 1), h.count - 1⟩
  else some h

/-- The line is stored in the next row. -/
def append (line : Bytes) : Option HistoryRows := do
  let row ← h.rows.load h.count
  let row ← row.copy 0 line
  let row ← row.store line.length 0
  some ⟨← h.rows.store h.count row, h.count + 1⟩

end HistoryRows

/-- `multi_history_save`. -/
def multiHistorySave (h : HistoryRows) (line : Bytes) : Option HistoryRows := do
  let line := multiLineTrim line
  if line.isEmpty then some h
  else
    let line := if multiInput ≤ line.length then line.take (multiInput - 1) else line
    if ← h.sameAsLast line then some h
    else (← h.evict).append line

end Memory

open Memory

/-- **The rows are in order**: those that are taken hold strings, and there are enough of them. -/
structure Memory.HistoryRows.Ok (h : HistoryRows) : Prop where
  count : h.count ≤ multiHistory
  ends : ∀ row ∈ h.rows.held h.count, 0 ∈ row.cells

variable {h : HistoryRows} {line : Bytes}

theorem Memory.HistoryRows.Ok.length_entries (hh : h.Ok) : h.entries.length = h.count := by
  rw [HistoryRows.entries, List.length_map, Arr.length_held hh.count]

/-- The string that an array of bytes holds. -/
theorem string_eq {n : ℕ} {row : Arr UInt8 n} (h0 : 0 ∈ row.cells) :
    row.string = some (ofBuffer row.cells) := if_pos h0

/-- The string in the last row is the last entry. -/
theorem sameAsLast_eq (hh : h.Ok) (line : Bytes) :
    h.sameAsLast line = some (decide (h.entries.getLast? = some line)) := by
  rw [HistoryRows.sameAsLast]
  split_ifs with hcount
  · obtain ⟨k, hk⟩ := Nat.exists_eq_succ_of_ne_zero hcount.ne'
    have hlt : k < multiHistory := by
      have hle := hh.count
      omega
    obtain ⟨row, hrow⟩ := Arr.exists_load (a := h.rows) hlt
    have hheld := Arr.held_succ hrow
    have h0 : 0 ∈ row.cells := hh.ends row (by rw [hk, hheld]; simp)
    have hlast : h.entries.getLast? = some (ofBuffer row.cells) := by
      rw [HistoryRows.entries, hk, hheld]
      simp
    have hle : (ofBuffer row.cells).length ≤ multiInput :=
      (ofBuffer_isPrefix _).length_le.trans row.size.le
    simp only [hk, Nat.succ_sub_one, hrow, string_eq h0, Option.bind_eq_bind, Option.bind_some, hlast,
      Option.some.injEq]
    split_ifs with hlen
    · rw [← hlen, Arr.read_of_le (by omega), Option.bind_some, List.drop_zero, Nat.zero_add,
        Arr.held, ← List.prefix_iff_eq_take.mp (ofBuffer_isPrefix row.cells)]
    · have hne : ofBuffer row.cells ≠ line := fun heq => hlen (congrArg List.length heq)
      rw [decide_eq_false hne]
  · have hempty : h.entries = [] := List.length_eq_zero_iff.mp (by rw [hh.length_entries]; omega)
    rw [hempty]
    rfl

/-- The rows move up within the array, and the oldest entry is gone. -/
theorem evict_eq (hh : h.Ok) : ∃ g, h.evict = some g ∧ g.Ok ∧ g.count < multiHistory ∧
    g.entries = if h.entries.length = multiHistory then h.entries.drop 1 else h.entries := by
  rw [HistoryRows.evict, hh.length_entries]
  split_ifs with hfull
  · obtain ⟨rows, hmove, hheld⟩ :=
      Arr.held_removed (a := h.rows) (Nat.zero_le 1) (show 1 ≤ multiHistory by decide) le_rfl
    rw [hmove]
    have hheld' : rows.held (multiHistory - 1) = (h.rows.held h.count).drop 1 := by
      rw [hfull]
      exact hheld
    refine ⟨⟨rows, h.count - 1⟩, rfl, ⟨?_, fun row hrow => ?_⟩, ?_, ?_⟩
    · exact (Nat.sub_le _ _).trans hh.count
    · rw [hfull, hheld'] at hrow
      exact hh.ends row (List.mem_of_mem_drop hrow)
    · show h.count - 1 < multiHistory
      rw [hfull]
      decide
    · rw [HistoryRows.entries, HistoryRows.entries, hfull, hheld', hfull, List.map_drop]
  · exact ⟨h, rfl, hh, lt_of_le_of_ne hh.count hfull, rfl⟩

/-- A line is stored within its row, with its end. -/
theorem append_eq (hh : h.Ok) (hcount : h.count < multiHistory) (hline : line.length < multiInput)
    (h0 : 0 ∉ line) : ∃ g, h.append line = some g ∧ g.Ok ∧ g.entries = h.entries ++ [line] := by
  obtain ⟨row, hrow⟩ := Arr.exists_load (a := h.rows) hcount
  have hcopy : 0 + line.length ≤ multiInput := by omega
  have hsplice := Arr.held_splice (a := row) hcopy
  generalize hrow' : row.splice 0 line hcopy = row' at hsplice
  have hstring : (row'.update line.length 0).string = some line := by
    refine Arr.string_of_held h0 ?_
    rw [Arr.held_update hline, ← Nat.zero_add line.length, hsplice]
    rfl
  have hends : 0 ∈ (row'.update line.length 0).cells := by
    by_contra hnone
    rw [Arr.string, if_neg hnone] at hstring
    exact absurd hstring (by simp)
  have hbuffer : ofBuffer (row'.update line.length 0).cells = line :=
    Option.some.inj ((string_eq hends).symm.trans hstring)
  have hheld := Arr.held_update (a := h.rows) hcount (row'.update line.length 0)
  refine ⟨⟨h.rows.update h.count (row'.update line.length 0), h.count + 1⟩, ?_,
    ⟨hcount, fun r hr => ?_⟩, ?_⟩
  · simp only [HistoryRows.append, hrow, Arr.copy_of_le hcopy, hrow', Arr.store_of_lt hline,
      Arr.store_of_lt hcount, Option.bind_eq_bind, Option.bind_some]
  · rw [hheld] at hr
    rcases List.mem_append.mp hr with hr | hr
    · exact hh.ends r hr
    · rw [List.mem_singleton.mp hr]
      exact hends
  · rw [HistoryRows.entries, hheld, List.map_append, HistoryRows.entries, List.map_singleton, hbuffer]

/-- **Saving a line** stores nothing outside of the rows, and remembers the line. -/
theorem multiHistorySave_rows (hh : h.Ok) (h0 : 0 ∉ line) :
    ∃ g, Memory.multiHistorySave h line = some g ∧ g.Ok ∧ g.entries =
      if rememberedLine line = [] ∨ h.entries.getLast? = some (rememberedLine line) then h.entries
      else (if h.entries.length = multiHistory then h.entries.drop 1 else h.entries) ++
        [rememberedLine line] := by
  have hcut : (if multiInput ≤ (multiLineTrim line).length then
      (multiLineTrim line).take (multiInput - 1) else multiLineTrim line) = rememberedLine line := by
    rw [rememberedLine]
    split_ifs with hlong
    · rfl
    · rw [List.take_of_length_le (by omega)]
  have hlen : (rememberedLine line).length < multiInput :=
    (List.length_take_le _ _).trans_lt (by decide)
  have h0' : 0 ∉ rememberedLine line := fun hmem => h0 (rememberedLine_subset line hmem)
  simp only [Memory.multiHistorySave, hcut, multiLineTrim_isEmpty, sameAsLast_eq hh, Option.bind_eq_bind,
    Option.bind_some, decide_eq_true_eq]
  by_cases hnone : rememberedLine line = []
  · rw [if_pos hnone, if_pos (.inl hnone)]
    exact ⟨h, rfl, hh, rfl⟩
  · rw [if_neg hnone]
    by_cases hsame : h.entries.getLast? = some (rememberedLine line)
    · rw [if_pos hsame, if_pos (.inr hsame)]
      exact ⟨h, rfl, hh, rfl⟩
    · rw [if_neg hsame, if_neg (not_or.mpr ⟨hnone, hsame⟩)]
      obtain ⟨g, hevict, hg, hcount, hentries⟩ := evict_eq hh
      obtain ⟨g', happend, hg', hentries'⟩ := append_eq hg hcount hlen h0'
      rw [hevict]
      exact ⟨g', happend, hg', by rw [hentries', hentries]⟩

/-- An entry is a string. -/
theorem zero_not_mem_entries {e : Bytes} (he : e ∈ h.entries) : 0 ∉ e := by
  obtain ⟨row, -, rfl⟩ := List.mem_map.mp he
  exact zero_not_mem_ofBuffer _

/-- The list of the entries is what the rest of the development has. -/
theorem multiHistorySave_entries (hh : h.Ok) (h0 : 0 ∉ line) :
    ∃ g, Memory.multiHistorySave h line = some g ∧ g.Ok ∧
      g.entries = multiHistorySave h.entries line := by
  obtain ⟨g, hsave, hg, hentries⟩ := multiHistorySave_rows hh h0
  refine ⟨g, hsave, hg, hentries.trans ?_⟩
  have hsame : (h.entries.getLast?.any fun last =>
      (ofBuffer last).length = (rememberedLine line).length &&
        last.take (rememberedLine line).length = rememberedLine line) = true ↔
      h.entries.getLast? = some (rememberedLine line) := by
    cases hlast : h.entries.getLast? with
    | none => simp
    | some last =>
      have hbuffer : ofBuffer last = last :=
        ofBuffer_eq_self (zero_not_mem_entries (List.mem_of_getLast? hlast))
      simp only [Option.any_some, hbuffer, Bool.and_eq_true, decide_eq_true_eq, Option.some.injEq]
      constructor
      · rintro ⟨hlen, htake⟩
        rwa [← hlen, List.take_length] at htake
      · rintro rfl
        exact ⟨rfl, List.take_length⟩
  have hfold : (multiLineTrim line).take (multiInput - 1) = rememberedLine line := rfl
  simp only [multiHistorySave, hfold, multiLineTrim_isEmpty, hsame]
  by_cases hnone : rememberedLine line = []
  · rw [if_pos (.inl hnone), if_pos hnone]
  · rw [if_neg hnone]
    exact if_congr (or_iff_right hnone) rfl rfl

/-! ### Going through the rows -/

namespace Memory

/-- The variables of the line editor: `input`, `input_len`, `input_cursor`, `esc_state`,
`input_history` with its count, and `input_history_pos`. -/
structure EditorMemory where
  input : Arr UInt8 multiInput
  inputLen : ℕ
  inputCursor : ℕ
  escState : ℕ
  history : HistoryRows
  historyPos : ℤ

/-- `history[pos]`, as a string. -/
def HistoryRows.entry (h : HistoryRows) (pos : ℤ) : Option Bytes := do
  if 0 ≤ pos then (← h.rows.load pos.toNat).string else none

/-- The end of `multi_history_load`: the entry is put on the line. -/
def EditorMemory.recall (m : EditorMemory) (pos : ℤ) : Option EditorMemory := do
  let text ← m.history.entry pos
  let input ← m.input.copy 0 text
  some { m with historyPos := pos, input, inputLen := text.length, inputCursor := text.length }

/-- `multi_history_load`, upwards or downwards. -/
def multiHistoryLoad (up : Bool) (m : EditorMemory) : Option EditorMemory :=
  if m.history.count = 0 then some m
  else if up then
    m.recall (if m.historyPos < 0 then m.history.count - 1
      else if 0 < m.historyPos then m.historyPos - 1
      else m.historyPos)
  else if m.historyPos < 0 then some m
  else if m.historyPos + 1 < m.history.count then m.recall (m.historyPos + 1)
  else some { m with historyPos := -1, inputLen := 0, inputCursor := 0 }

/-- What happens to the history: a line is submitted, or it is gone through. -/
inductive HistoryOp
  | save (line : Bytes)
  | up
  | down

/-- The part of `multi_handle_interactive_stdin` for this. -/
def EditorMemory.historyOp (m : EditorMemory) : HistoryOp → Option EditorMemory
  | .save line => do
      let history ← multiHistorySave m.history line
      some { m with history, historyPos := -1 }
  | .up => multiHistoryLoad true m
  | .down => multiHistoryLoad false m

end Memory

/-- The lines that are saved. -/
def savedLines (ops : List HistoryOp) : List Bytes :=
  ops.filterMap fun
    | .save line => some line
    | _ => none

/-- **The history is right**: the rows are in order and hold what is remembered of the lines, and the
index is `-1` or that of an entry. -/
structure Remembers (lines : List Bytes) (m : EditorMemory) : Prop where
  rows : m.history.Ok
  entries : m.history.entries = rememberedLines lines
  low : -1 ≤ m.historyPos
  high : m.historyPos < m.history.count

variable {m : EditorMemory} {lines : List Bytes}

/-- An entry is shorter than its row. -/
theorem entry_eq (hh : h.Ok) {k : ℕ} (hk : k < h.count) : ∃ text, h.entries[k]? = some text ∧
    h.entry k = some text ∧ text.length < multiInput := by
  obtain ⟨row, hrow⟩ := Arr.exists_load (a := h.rows) (hk.trans_le hh.count)
  have hheld : (h.rows.held h.count)[k]? = some row := by
    rw [Arr.held, List.getElem?_take_of_lt hk]
    exact hrow
  have h0 := hh.ends row (List.mem_of_getElem? hheld)
  refine ⟨ofBuffer row.cells, ?_, ?_, ?_⟩
  · rw [HistoryRows.entries, List.getElem?_map, hheld]
    rfl
  · simp only [HistoryRows.entry, Int.natCast_nonneg, if_true, Int.toNat_natCast, hrow,
      Option.bind_eq_bind, Option.bind_some, string_eq h0]
  · -- the row holds a NUL, and the entry none
    refine lt_of_le_of_ne ((ofBuffer_isPrefix _).length_le.trans row.size.le) fun hlen => ?_
    have hall : ofBuffer row.cells = row.cells :=
      (ofBuffer_isPrefix _).eq_of_length (hlen.trans row.size.symm)
    exact zero_not_mem_ofBuffer row.cells (hall.symm ▸ h0)

/-- **A recall** stays within the rows and the line. -/
theorem recall_eq (hh : m.history.Ok) {k : ℕ} (hk : k < m.history.count) :
    ∃ text m', m.history.entries[k]? = some text ∧ m.recall k = some m' ∧
      m'.history = m.history ∧ m'.historyPos = k ∧ m'.escState = m.escState ∧
      m'.inputLen = text.length ∧ m'.inputCursor = text.length ∧
      m'.input.held text.length = text ∧ text.length < multiInput := by
  obtain ⟨text, hget, hentry, hlen⟩ := entry_eq hh hk
  have hroom : 0 + text.length ≤ multiInput := by omega
  have hheld := Arr.held_splice (a := m.input) hroom
  rw [Nat.zero_add] at hheld
  refine ⟨text, { m with
    historyPos := k
    input := m.input.splice 0 text hroom
    inputLen := text.length
    inputCursor := text.length }, hget, ?_, rfl, rfl, rfl, rfl, rfl, hheld, hlen⟩
  simp only [EditorMemory.recall, hentry, Arr.copy_of_le hroom, Option.bind_eq_bind,
    Option.bind_some]

/-- Where an upwards key goes. -/
theorem up_eq (hm : Remembers lines m) (hne : m.history.count ≠ 0) : ∃ k : ℕ, k < m.history.count ∧
    (if m.historyPos < 0 then (m.history.count : ℤ) - 1
      else if 0 < m.historyPos then m.historyPos - 1 else m.historyPos) = k := by
  obtain ⟨-, -, hlow, hhigh⟩ := hm
  split_ifs with hneg hpos
  · exact ⟨m.history.count - 1, by omega, by omega⟩
  · exact ⟨(m.historyPos - 1).toNat, by omega, by omega⟩
  · exact ⟨m.historyPos.toNat, by omega, by omega⟩

theorem Remembers.recall (hm : Remembers lines m) {k : ℕ} (hk : k < m.history.count) :
    ∃ m', m.recall k = some m' ∧ Remembers lines m' := by
  obtain ⟨text, m', -, hrecall, hhistory, hpos, -⟩ := recall_eq hm.rows hk
  refine ⟨m', hrecall, hhistory ▸ hm.rows, hhistory ▸ hm.entries, ?_, ?_⟩
  · omega
  · rw [hhistory]
    omega

/-- **Going through the history** keeps it right. -/
theorem Remembers.load (hm : Remembers lines m) (up : Bool) :
    ∃ m', Memory.multiHistoryLoad up m = some m' ∧ Remembers lines m' := by
  rw [Memory.multiHistoryLoad]
  by_cases hne : m.history.count = 0
  · rw [if_pos hne]
    exact ⟨m, rfl, hm⟩
  rw [if_neg hne]
  cases up with
  | true =>
    obtain ⟨k, hk, hpos⟩ := up_eq hm hne
    rw [if_pos rfl, hpos]
    exact hm.recall hk
  | false =>
    rw [if_neg (by simp)]
    split_ifs with hneg hmore
    · exact ⟨m, rfl, hm⟩
    · have hpos : m.historyPos + 1 = ((m.historyPos.toNat + 1 : ℕ) : ℤ) := by omega
      rw [hpos]
      exact hm.recall (by omega)
    · exact ⟨_, rfl, hm.rows, hm.entries, le_rfl, by dsimp only; omega⟩

/-- **Submitting a line** adds it to what is remembered. -/
theorem Remembers.save (hm : Remembers lines m) (h0 : 0 ∉ line) :
    ∃ m', m.historyOp (.save line) = some m' ∧ Remembers (lines ++ [line]) m' := by
  obtain ⟨g, hsave, hg, hentries⟩ := multiHistorySave_rows hm.rows h0
  refine ⟨{ m with history := g, historyPos := -1 }, ?_, hg, ?_, le_rfl, ?_⟩
  · simp only [EditorMemory.historyOp, hsave, Option.bind_eq_bind, Option.bind_some]
  · rw [rememberedLines_concat, ← hm.entries]
    exact hentries
  · dsimp only
    omega

theorem remembers_run {ops : List HistoryOp} (hm : Remembers lines m)
    (h0 : ∀ line ∈ savedLines ops, 0 ∉ line) :
    ∃ m', ops.foldlM EditorMemory.historyOp m = some m' ∧ Remembers (lines ++ savedLines ops) m' := by
  induction ops generalizing m lines with
  | nil => exact ⟨m, rfl, by rwa [savedLines, List.filterMap_nil, List.append_nil]⟩
  | cons op ops ih =>
    have hstep : ∃ m', m.historyOp op = some m' ∧ Remembers (lines ++ savedLines [op]) m' := by
      cases op with
      | save line => exact hm.save (h0 line (by simp [savedLines]))
      | up =>
        rw [show savedLines [HistoryOp.up] = [] from rfl, List.append_nil]
        exact hm.load true
      | down =>
        rw [show savedLines [HistoryOp.down] = [] from rfl, List.append_nil]
        exact hm.load false
    obtain ⟨m₁, hop, hm₁⟩ := hstep
    have hsplit : savedLines (op :: ops) = savedLines [op] ++ savedLines ops :=
      List.filterMap_append (l := [op])
    obtain ⟨m', hrun, hm'⟩ := ih hm₁ fun line hmem => h0 line (by simp [hsplit, hmem])
    refine ⟨m', ?_, ?_⟩
    · rw [List.foldlM_cons, hop]
      exact hrun
    · rwa [hsplit, ← List.append_assoc]

/-- The arrays before anything is typed. -/
def Memory.blank : EditorMemory where
  input := .filled multiInput 0
  inputLen := 0
  inputCursor := 0
  escState := 0
  history := ⟨.filled multiHistory (.filled multiInput 0), 0⟩
  historyPos := -1

/-- **The history of lines**: whatever is submitted and however it is gone through, from an empty
history on, no access is outside of the arrays, the entries are what is to be remembered of the lines,
each of them ends in its row, and the index is `-1` or that of an entry. -/
theorem history_holds (hcount : m.history.count = 0) (hpos : m.historyPos = -1)
    {ops : List HistoryOp} (h0 : ∀ line ∈ savedLines ops, 0 ∉ line) :
    ∃ m', ops.foldlM EditorMemory.historyOp m = some m' ∧ Remembers (savedLines ops) m' := by
  have hm : Remembers [] m := by
    refine ⟨⟨by omega, ?_⟩, ?_, by omega, by omega⟩
    · rw [hcount]
      simp [Arr.held]
    · rw [HistoryRows.entries, hcount]
      rfl
  exact remembers_run hm h0

/-- Two lines, the second of them twice. -/
theorem history_holds_twice : ∃ m', List.foldlM EditorMemory.historyOp Memory.blank
    [.save (lit "a\n"), .up, .save (lit "b\n"), .save (lit "b\n"), .up, .up] = some m' ∧
      m'.history.entries = [lit "a", lit "b"] := by
  obtain ⟨m', hrun, hm'⟩ := @history_holds Memory.blank rfl rfl
    [.save (lit "a\n"), .up, .save (lit "b\n"), .save (lit "b\n"), .up, .up] (by decide +kernel)
  exact ⟨m', hrun, hm'.entries.trans (by decide +kernel)⟩

end Wirecat
