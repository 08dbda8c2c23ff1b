import Wirecat.CString

/-!
# Labels at the start of lines

A text of several parties is given labels, so that a reader can tell who said what: a label
stands in front of every line, and the bytes of the line follow it, as they are or rendered
somehow. This is done twice in the program, for the clients of a chat and for the sessions of a
listener, with other labels and other renderings (`Wirecat.labelText`).

The words of a party arrive in chunks. All that is carried from one chunk to the next is
whether a line starts there (`Wirecat.lineStartAfter`), and that is enough: the chunks do not
matter (`Wirecat.labelText_append`).

In `Wirecat.labelMarked` every byte of the text says whether it belongs to a label. The labels stand
where lines start, one each (`Wirecat.labelMarked_lines`), and without them there is what was said
(`Wirecat.labelMarked_unlabelled`).
-/

namespace Wirecat

open CString

/-! ### Lines -/

/-- Whether a line starts after a text, when one does or does not before it. -/
def lineStartAfter (lineStart : Bool) (text : Bytes) : Bool :=
  text.getLast?.elim lineStart fun c => decide (c = chr '\n')

theorem lineStartAfter_cons (lineStart : Bool) (c : UInt8) (text : Bytes) :
    lineStartAfter lineStart (c :: text) = lineStartAfter (decide (c = chr '\n')) text := by
  rw [lineStartAfter, lineStartAfter, List.getLast?_cons]
  cases text.getLast? <;> rfl

theorem lineStartAfter_append (lineStart : Bool) (x y : Bytes) :
    lineStartAfter lineStart (x ++ y) = lineStartAfter (lineStartAfter lineStart x) y := by
  induction x generalizing lineStart with
  | nil => rfl
  | cons c x ih => rw [List.cons_append, lineStartAfter_cons, lineStartAfter_cons, ih]

/-- The lines that a text starts, each with the line feed that ends it, if one does. -/
def startedLines : Bytes → List Bytes
  | [] => []
  | c :: x =>
      if c = chr '\n' then [c] :: startedLines x
      else match startedLines x with
        | [] => [[c]]
        | line :: lines => (c :: line) :: lines

/-- What the lines of a text are: all of it, cut after every line feed. -/
structure CutIntoLines (x : Bytes) (lines : List Bytes) : Prop where
  all : lines.flatten = x
  ne_nil : ∀ line ∈ lines, line ≠ []
  newline : ∀ line ∈ lines, chr '\n' ∉ line.dropLast
  ended : ∀ line ∈ lines.dropLast, line.getLast? = some (chr '\n')

theorem startedLines_cut (x : Bytes) : CutIntoLines x (startedLines x) := by
  induction x with
  | nil => exact ⟨rfl, by simp [startedLines], by simp [startedLines], by simp [startedLines]⟩
  | cons c x ih =>
    rw [startedLines]
    split_ifs with hc
    · refine ⟨by rw [List.flatten_cons, ih.all]; rfl, ?_, ?_, ?_⟩
      · simpa using ih.ne_nil
      · simpa using ih.newline
      · cases hlines : startedLines x with
        | nil => simp
        | cons line lines =>
          have hended := ih.ended
          rw [hlines] at hended
          simpa [hc] using hended
    · cases hlines : startedLines x with
      | nil =>
        have hall := ih.all
        rw [hlines] at hall
        exact ⟨by rw [← hall]; rfl, by simp, by simp, by simp⟩
      | cons line lines =>
        obtain ⟨hall, hne, hnl, hended⟩ := ih
        rw [hlines] at hall hne hnl hended
        obtain ⟨hline, hrest⟩ := List.forall_mem_cons.mp hne
        obtain ⟨hlast, hnls⟩ := List.forall_mem_cons.mp hnl
        refine ⟨by rw [← hall]; rfl, ?_, ?_, ?_⟩
        · exact List.forall_mem_cons.mpr ⟨by simp, hrest⟩
        · refine List.forall_mem_cons.mpr ⟨?_, hnls⟩
          rw [List.dropLast_cons_of_ne_nil hline]
          exact List.not_mem_cons_of_ne_of_not_mem (Ne.symm hc) hlast
        · cases lines with
          | nil => simp
          | cons next lines =>
            rw [List.dropLast_cons_cons] at hended ⊢
            obtain ⟨hfirst, hmore⟩ := List.forall_mem_cons.mp hended
            refine List.forall_mem_cons.mpr ⟨?_, hmore⟩
            rw [List.getLast?_cons_of_ne_nil hline]
            exact hfirst

/-! ### Labels -/

/-- A text with a label in front of every line, and its bytes rendered. Whether a line starts with the
first byte is given. -/
def labelText (label : Bytes) (render : UInt8 → Bytes) : Bool → Bytes → Bytes
  | _, [] => []
  | lineStart, c :: x =>
      (if lineStart then label else []) ++ render c ++ labelText label render (c = chr '\n') x

/-- Bytes that belong to a label, or that do not. -/
def marked (label : Bool) (text : Bytes) : List (Bool × UInt8) := text.map (Prod.mk label)

/-- The same text, and of every byte whether it belongs to a label. -/
def labelMarked (label : Bytes) (render : UInt8 → Bytes) : Bool → Bytes → List (Bool × UInt8)
  | _, [] => []
  | lineStart, c :: x =>
      (if lineStart then marked true label else []) ++ marked false (render c) ++
        labelMarked label render (c = chr '\n') x

/-- Lines, each with its label; the first has none when no line starts there. -/
def linesLabelled (label : Bytes) (render : UInt8 → Bytes) : Bool → List Bytes → List (Bool × UInt8)
  | true, lines => lines.flatMap fun line => marked true label ++ marked false (line.flatMap render)
  | false, [] => []
  | false, line :: lines => marked false (line.flatMap render) ++
      lines.flatMap fun line => marked true label ++ marked false (line.flatMap render)

variable (label : Bytes) (render : UInt8 → Bytes)

/-- **Chunks do not matter**: only whether a line starts is carried from one to the next. -/
theorem labelText_append (lineStart : Bool) (x y : Bytes) :
    labelText label render lineStart (x ++ y) =
      labelText label render lineStart x ++ labelText label render (lineStartAfter lineStart x) y := by
  induction x generalizing lineStart with
  | nil => rfl
  | cons c x ih =>
    rw [List.cons_append, labelText, labelText, ih, lineStartAfter_cons]
    simp only [List.append_assoc]

theorem map_snd_marked (label : Bool) (text : Bytes) : (marked label text).map Prod.snd = text := by
  rw [marked, List.map_map]
  exact List.map_id _

theorem labelMarked_text (lineStart : Bool) (x : Bytes) :
    (labelMarked label render lineStart x).map Prod.snd = labelText label render lineStart x := by
  induction x generalizing lineStart with
  | nil => rfl
  | cons c x ih =>
    rw [labelMarked, labelText, List.map_append, List.map_append, ih, map_snd_marked,
      apply_ite (List.map Prod.snd), map_snd_marked, List.map_nil]

/-- **Without the labels** the text is what was said, rendered. -/
theorem labelMarked_unlabelled (lineStart : Bool) (x : Bytes) :
    ((labelMarked label render lineStart x).filter fun c => !c.1).map Prod.snd = x.flatMap render := by
  have hlabel : (marked true label).filter (fun c => !c.1) = [] := by
    rw [marked, List.filter_map, List.map_eq_nil_iff]
    exact List.filter_false _
  have hbyte : ∀ c, (marked false (render c)).filter (fun c => !c.1) = marked false (render c) := by
    intro c
    rw [marked, List.filter_map]
    exact congrArg _ (List.filter_true _)
  induction x generalizing lineStart with
  | nil => rfl
  | cons c x ih =>
    rw [labelMarked, List.filter_append, List.filter_append, hbyte, List.map_append, ih,
      apply_ite (List.filter _), hlabel, List.filter_nil, ite_self, List.nil_append, map_snd_marked]
    rfl

theorem marked_append (mark : Bool) (x y : Bytes) :
    marked mark (x ++ y) = marked mark x ++ marked mark y := List.map_append

/-- **Every line that is started has its label**, and the labels stand nowhere else. -/
theorem labelMarked_lines (lineStart : Bool) (x : Bytes) :
    labelMarked label render lineStart x = linesLabelled label render lineStart (startedLines x) := by
  induction x generalizing lineStart with
  | nil => cases lineStart <;> rfl
  | cons c x ih =>
    rw [labelMarked, ih, startedLines]
    by_cases hc : c = chr '\n'
    · have hone : [c].flatMap render = render c := List.append_nil _
      rw [if_pos hc, decide_eq_true hc]
      cases lineStart
      · simp [linesLabelled, hone]
      · simp [linesLabelled, hone]
    · rw [if_neg hc, decide_eq_false hc]
      -- the byte joins the line that starts next, if one does
      cases startedLines x <;> cases lineStart <;>
        simp [linesLabelled, marked_append]

end Wirecat
