import Mathlib.Data.List.Infix

/-!
# Transcripts

A transcript is a text of which it is known who wrote what: a list of symbols, each
with its author. Its *lines* are the maximal runs up to and including a newline.

A line is *owned* when a single author wrote all of it and it begins with the label of
that author (`Transcript.Owned`), and a transcript is *attributed* when all its lines
are owned (`Transcript.Attributed`). Whether a text may be appended to a transcript
without spoiling that depends on the line the transcript ends in the middle of, so
everything below carries that line along.
-/

namespace Transcript

variable {A B : Type} [DecidableEq B] (nl : B)

/-! ### Lines -/

/-- The complete lines of a text that continues the line `cur`. -/
def finished (cur : List (A × B)) : List (A × B) → List (List (A × B))
  | [] => []
  | c :: t => if c.2 = nl then (cur ++ [c]) :: finished [] t else finished (cur ++ [c]) t

/-- The line a text that continues the line `cur` ends in the middle of. -/
def unfinished (cur : List (A × B)) : List (A × B) → List (A × B)
  | [] => cur
  | c :: t => if c.2 = nl then unfinished [] t else unfinished (cur ++ [c]) t

/-- The lines of a text, the last of them possibly without a newline. -/
def lines (t : List (A × B)) : List (List (A × B)) :=
  finished nl [] t ++ if unfinished nl [] t = [] then [] else [unfinished nl [] t]

variable {nl} {cur t u : List (A × B)}

theorem finished_append : finished nl cur (t ++ u) =
    finished nl cur t ++ finished nl (unfinished nl cur t) u := by
  induction t generalizing cur with
  | nil => rfl
  | cons c t ih =>
    simp only [List.cons_append, finished, unfinished]
    split_ifs
    · rw [ih, List.cons_append]
    · exact ih

theorem unfinished_append : unfinished nl cur (t ++ u) = unfinished nl (unfinished nl cur t) u := by
  induction t generalizing cur with
  | nil => rfl
  | cons c t ih =>
    simp only [List.cons_append, unfinished]
    split_ifs
    · exact ih
    · exact ih

/-- A text without a newline ends no line. -/
theorem finished_of_no_newline (ht : ∀ c ∈ t, c.2 ≠ nl) : finished nl cur t = [] := by
  induction t generalizing cur with
  | nil => rfl
  | cons c t ih =>
    rw [finished, if_neg (ht c List.mem_cons_self)]
    exact ih fun c hc => ht c (List.mem_cons_of_mem _ hc)

theorem unfinished_of_no_newline (ht : ∀ c ∈ t, c.2 ≠ nl) : unfinished nl cur t = cur ++ t := by
  induction t generalizing cur with
  | nil => simp [unfinished]
  | cons c t ih =>
    rw [unfinished, if_neg (ht c List.mem_cons_self),
      ih fun c hc => ht c (List.mem_cons_of_mem _ hc), List.append_assoc]
    rfl

/-! ### Owners -/

/-- The line is all of the author `a`, and begins with its label. -/
def OwnedBy (label : A → List B) (a : A) (line : List (A × B)) : Prop :=
  (∀ c ∈ line, c.1 = a) ∧ label a <+: line.map Prod.snd

/-- The line has an owner. -/
def Owned (label : A → List B) (line : List (A × B)) : Prop := ∃ a, OwnedBy label a line

variable (nl) in
/-- **Every line has an owner.** -/
def Attributed (label : A → List B) (t : List (A × B)) : Prop := ∀ line ∈ lines nl t, Owned label line

variable {label : A → List B} {a : A}

omit [DecidableEq B] in
/-- More of the same author keeps a line owned. -/
theorem OwnedBy.append (ho : OwnedBy label a t) (hu : ∀ c ∈ u, c.1 = a) :
    OwnedBy label a (t ++ u) := by
  refine ⟨fun c hc => ?_, ?_⟩
  · rcases List.mem_append.mp hc with h | h
    · exact ho.1 c h
    · exact hu c h
  · rw [List.map_append]
    exact ho.2.trans (List.prefix_append _ _)

/-- A transcript is attributed when its complete lines are owned, and the one it ends in
the middle of is, if there is one. -/
theorem attributed_iff : Attributed nl label t ↔ (∀ line ∈ finished nl [] t, Owned label line) ∧
    (unfinished nl [] t = [] ∨ Owned label (unfinished nl [] t)) := by
  simp only [Attributed, lines, List.mem_append]
  constructor
  · refine fun h => ⟨fun line hl => h line (.inl hl), ?_⟩
    by_cases hu : unfinished nl [] t = []
    · exact .inl hu
    · exact .inr (h _ (.inr (by simp [hu])))
  · rintro ⟨hf, hu⟩ line (hl | hl)
    · exact hf line hl
    · split_ifs at hl with h
      · simp at hl
      · obtain rfl := List.mem_singleton.mp hl
        exact hu.resolve_left h

/-- **A turn of the author `a`** after the unfinished line `cur`: the lines it completes are
its own, and it ends at the start of a line or in the middle of one of its own. -/
structure Turn (nl : B) (label : A → List B) (a : A) (cur u : List (A × B)) : Prop where
  finished : ∀ line ∈ finished nl cur u, OwnedBy label a line
  unfinished : unfinished nl cur u = [] ∨ OwnedBy label a (unfinished nl cur u)

/-- **Appending a turn** keeps a transcript attributed. -/
theorem Attributed.append (ht : Attributed nl label t)
    (hu : Turn nl label a (Transcript.unfinished nl [] t) u) : Attributed nl label (t ++ u) := by
  obtain ⟨hf, -⟩ := attributed_iff.mp ht
  refine attributed_iff.mpr ⟨fun line hl => ?_, ?_⟩
  · rw [finished_append] at hl
    rcases List.mem_append.mp hl with hl | hl
    · exact hf line hl
    · exact ⟨a, hu.finished line hl⟩
  · rw [unfinished_append]
    exact hu.unfinished.imp_right fun h => ⟨a, h⟩

end Transcript
