import Wirecat.CString

/-!
# Strings of JSON

Between its quotes a string of JSON is *text* that spells a *value* (`JsonString.Spells`): most
bytes spell themselves, a backslash begins an escape. `JsonString.read` is a reader: it takes
the text up to the first quote that is not escaped, and says what it spells and what follows.

Text that spells a value is read back as that value, and the reader stops exactly at the quote
behind it (`JsonString.read_of_spells`). So whoever writes such text between two quotes cannot be
misread, whatever the value is and whatever comes next.

A value is a sequence of bytes here. A `\u` escape of an ASCII character spells that byte; the
others, which would spell a character of several bytes, do not occur.
-/

namespace JsonString

open CString

/-- The escapes of one letter, and what they spell. -/
def shortEscapes : List (UInt8 × UInt8) :=
  [(chr '"', chr '"'), (chr '\\', chr '\\'), (chr '/', chr '/'), (chr 'b', 8), (chr 'f', 12),
    (chr 'n', chr '\n'), (chr 'r', chr '\r'), (chr 't', chr '\t')]

/-- A byte that may stand for itself: no control byte, no quote and no backslash. -/
def Plain (c : UInt8) : Prop := 32 ≤ c ∧ c ≠ chr '"' ∧ c ≠ chr '\\'

instance (c : UInt8) : Decidable (Plain c) :=
  inferInstanceAs (Decidable (32 ≤ c ∧ c ≠ chr '"' ∧ c ≠ chr '\\'))

/-- The byte that a `\u` escape spells, for ASCII. -/
def unicodeByte (a b c d : UInt8) : Option UInt8 :=
  if hexDigit a = some 0 ∧ hexDigit b = some 0 then
    (hexDigit c).bind fun hi => (hexDigit d).bind fun lo =>
      if hi < 8 then some (16 * hi + lo).toUInt8 else none
  else none

/-- **Text and the value it spells.** -/
inductive Spells : Bytes → Bytes → Prop
  | nil : Spells [] []
  /-- A byte that stands for itself. -/
  | plain {c : UInt8} {text value : Bytes} (hc : Plain c) (h : Spells text value) :
      Spells (c :: text) (c :: value)
  /-- An escape of one letter. -/
  | short {e c : UInt8} {text value : Bytes} (he : (e, c) ∈ shortEscapes) (h : Spells text value) :
      Spells (chr '\\' :: e :: text) (c :: value)
  /-- An escape by number. -/
  | unicode {a b c d x : UInt8} {text value : Bytes} (hx : unicodeByte a b c d = some x)
      (h : Spells text value) :
      Spells (chr '\\' :: chr 'u' :: a :: b :: c :: d :: text) (x :: value)

/-- What the four digits of a `\u` escape spell, and the text after them. -/
def readUnicode : Bytes → Option (UInt8 × Bytes)
  | a :: b :: c :: d :: text => (unicodeByte a b c d).map fun x => (x, text)
  | _ => none

/-- What the escape behind a backslash spells, and the text after it. -/
def readEscape : Bytes → Option (UInt8 × Bytes)
  | [] => none
  | e :: text =>
      match shortEscapes.lookup e with
      | some c => some (c, text)
      | none => if e = chr 'u' then readUnicode text else none

/-- **Reading a string** whose first quote has been read, with as many steps as there is text: its
value, and what follows the quote that ends it. -/
def readSteps : ℕ → Bytes → Option (Bytes × Bytes)
  | 0, _ => none
  | _ + 1, [] => none
  | fuel + 1, c :: text =>
      if c = chr '"' then some ([], text)
      else if c = chr '\\' then
        (readEscape text).bind fun p => (readSteps fuel p.2).map fun q => (p.1 :: q.1, q.2)
      else if Plain c then (readSteps fuel text).map fun q => (c :: q.1, q.2)
      else none

/-- Reading a string. -/
def read (text : Bytes) : Option (Bytes × Bytes) := readSteps text.length text

variable {text value rest : Bytes}

theorem readEscape_short {e c : UInt8} (he : (e, c) ∈ shortEscapes) (text : Bytes) :
    readEscape (e :: text) = some (c, text) := by
  have hlookup : shortEscapes.lookup e = some c := by
    simp only [shortEscapes, List.mem_cons, Prod.mk.injEq, List.not_mem_nil, or_false] at he
    rcases he with h | h | h | h | h | h | h | h <;> obtain ⟨rfl, rfl⟩ := h <;> rfl
  rw [readEscape, hlookup]

theorem readEscape_unicode {a b c d x : UInt8} (hx : unicodeByte a b c d = some x) (text : Bytes) :
    readEscape (chr 'u' :: a :: b :: c :: d :: text) = some (x, text) := by
  have hlookup : shortEscapes.lookup (chr 'u') = none := rfl
  rw [readEscape, hlookup]
  dsimp only
  rw [if_pos rfl, readUnicode, hx]
  rfl

theorem readSteps_of_spells (h : Spells text value) (rest : Bytes) {fuel : ℕ}
    (hfuel : text.length < fuel) :
    readSteps fuel (text ++ chr '"' :: rest) = some (value, rest) := by
  induction h generalizing fuel with
  | nil =>
    obtain ⟨fuel, rfl⟩ := Nat.exists_eq_add_of_lt hfuel
    rw [List.nil_append, readSteps, if_pos rfl]
  | @plain c text value hc h ih =>
    obtain ⟨fuel, rfl⟩ : ∃ k, fuel = k + 1 := ⟨fuel - 1, by omega⟩
    rw [List.length_cons] at hfuel
    rw [List.cons_append, readSteps, if_neg hc.2.1, if_neg hc.2.2, if_pos hc, ih (by omega)]
    rfl
  | @short e c text value he h ih =>
    obtain ⟨fuel, rfl⟩ : ∃ k, fuel = k + 1 := ⟨fuel - 1, by omega⟩
    rw [List.length_cons, List.length_cons] at hfuel
    rw [List.cons_append, List.cons_append, readSteps, if_neg (by decide), if_pos rfl,
      readEscape_short he]
    dsimp only [Option.bind_some]
    rw [ih (by omega)]
    rfl
  | @unicode a b c d x text value hx h ih =>
    obtain ⟨fuel, rfl⟩ : ∃ k, fuel = k + 1 := ⟨fuel - 1, by omega⟩
    simp only [List.length_cons] at hfuel
    simp only [List.cons_append]
    rw [readSteps, if_neg (by decide), if_pos rfl, readEscape_unicode hx]
    dsimp only [Option.bind_some]
    rw [ih (by omega)]
    rfl

/-- **Text is read back** as the value it spells, up to the quote behind it. -/
theorem read_of_spells (h : Spells text value) (rest : Bytes) :
    read (text ++ chr '"' :: rest) = some (value, rest) :=
  readSteps_of_spells h rest (by rw [List.length_append, List.length_cons]; omega)

/-- Pieces of text spell pieces of a value. -/
theorem Spells.append {text' value' : Bytes} (h : Spells text value) (h' : Spells text' value') :
    Spells (text ++ text') (value ++ value') := by
  induction h with
  | nil => exact h'
  | plain hc _ ih => exact .plain hc ih
  | short he _ ih => exact .short he ih
  | unicode hx _ ih => exact .unicode hx ih

end JsonString
