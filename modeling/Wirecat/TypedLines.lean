import Wirecat.Keystrokes

/-!
# What is sent of what was typed

A byte that is typed to the attached session is sent in one of three ways: at once, together
with the bytes that were held back before it, or at the end of the line. It is held back while
the line may still become a word that detaches (`back`, `:back`, `:detach`), and a byte that is
not text, neither a tab nor between 32 and 126 (`Wirecat.isText`), is never held back. So the bytes
of a line need not be sent in the order in which they were typed.

A line is **muddled** (`Wirecat.Muddled`) if a byte that is not text comes in the middle of
what may still become a word, or before a word. In the first case it overtakes the bytes
that are held back; in the second the line is not a word, but it detaches all the same.

The result, `Wirecat.foldl_typing`: what is sent of a text that ends with the end of a line is the
text, line feeds for carriage returns, exactly when none of its lines is muddled. A single muddled
line is enough, since what is sent is never taken back (`Wirecat.Lost`).
-/

namespace Wirecat

open CString Interaction

/-! ### Lines -/

/-- A byte that ends a line. -/
def isEnter (c : UInt8) : Bool := c = chr '\r' || c = chr '\n'

/-- What is sent for a typed byte. -/
def sentAs (c : UInt8) : UInt8 := if c = chr '\r' then chr '\n' else c

/-- The lines of what was typed, without the bytes that ended them; a line that was not ended is not
among them. -/
def typedLines : Bytes → List Bytes
  | [] => []
  | c :: w =>
      if isEnter c then [] :: typedLines w
      else match typedLines w with
        | [] => []
        | line :: lines => (c :: line) :: lines

/-- Nothing was typed, or the last byte ended a line. -/
def EndsLine (w : Bytes) : Prop := ∀ c ∈ w.getLast?, isEnter c = true

instance (w : Bytes) : Decidable (EndsLine w) :=
  inferInstanceAs (Decidable (∀ c ∈ w.getLast?, isEnter c = true))

theorem typedLines_line {line rest : Bytes} {n : UInt8} (hline : ∀ c ∈ line, isEnter c = false)
    (hn : isEnter n = true) : typedLines (line ++ n :: rest) = line :: typedLines rest := by
  induction line with
  | nil => rw [List.nil_append, typedLines, if_pos hn]
  | cons c line ih =>
    rw [List.cons_append, typedLines, if_neg (by simp [hline c List.mem_cons_self]),
      ih fun c hc => hline c (List.mem_cons_of_mem _ hc)]

/-- What was typed begins with a line. -/
theorem EndsLine.split {w : Bytes} (hw : EndsLine w) (hne : w ≠ []) : ∃ line n rest,
    w = line ++ n :: rest ∧ (∀ c ∈ line, isEnter c = false) ∧ isEnter n = true ∧ EndsLine rest := by
  induction w with
  | nil => exact absurd rfl hne
  | cons c w ih =>
    have hrest : w ≠ [] → EndsLine w := fun hw' d hd =>
      hw d (by rw [List.getLast?_cons_of_ne_nil hw']; exact hd)
    cases hc : isEnter c with
    | true =>
      refine ⟨[], c, w, rfl, by simp, hc, ?_⟩
      rcases eq_or_ne w [] with rfl | hw'
      · exact fun d hd => absurd hd (by simp)
      · exact hrest hw'
    | false =>
      rcases eq_or_ne w [] with rfl | hw'
      · exact absurd (hw c (by simp)) (by simp [hc])
      · obtain ⟨line, n, rest, rfl, hline, hn, hends⟩ := ih (hrest hw') hw'
        refine ⟨c :: line, n, rest, rfl, ?_, hn, hends⟩
        intro d hd
        rcases List.mem_cons.mp hd with rfl | hd
        · exact hc
        · exact hline d hd

/-! ### Words that detach -/

theorem detachMatch_fst {p : Bytes} : (multiAttachedDetachMatch p).1 = true ↔
    ∃ word ∈ ["back", ":back", ":detach"], p <+: lit word := by
  rw [multiAttachedDetachMatch]
  split
  · rename_i word hfind
    refine iff_of_true rfl ⟨word, List.mem_of_find?_eq_some hfind, ?_⟩
    have hp := List.find?_some hfind
    exact List.isPrefixOf_iff_prefix.mp hp
  · rename_i hfind
    refine iff_of_false (by simp) ?_
    rintro ⟨word, hword, hp⟩
    exact List.find?_eq_none.mp hfind word hword (List.isPrefixOf_iff_prefix.mpr hp)

theorem detachMatch_nil : multiAttachedDetachMatch [] = (true, false) := by decide

/-- Words are short. -/
theorem length_of_detachMatch {p : Bytes} (hp : (multiAttachedDetachMatch p).1 = true) :
    p.length ≤ 7 := by
  obtain ⟨word, hword, hpre⟩ := detachMatch_fst.mp hp
  have hlen : ∀ word ∈ ["back", ":back", ":detach"], (lit word).length ≤ 7 := by decide
  exact hpre.length_le.trans (hlen word hword)

/-- What begins a word has begun one before. -/
theorem detachMatch_earlier {p q : Bytes} (hpq : p <+: q) (hq : (multiAttachedDetachMatch q).1 = true) :
    (multiAttachedDetachMatch p).1 = true := by
  obtain ⟨word, hword, hpre⟩ := detachMatch_fst.mp hq
  exact detachMatch_fst.mpr ⟨word, hword, hpq.trans hpre⟩

/-- A word begins a word. -/
theorem detachMatch_of_exact {p : Bytes} (hp : (multiAttachedDetachMatch p).2 = true) :
    (multiAttachedDetachMatch p).1 = true := by
  rw [multiAttachedDetachMatch] at hp ⊢
  split at hp
  · rfl
  · exact absurd hp (by simp)

/-! ### Muddled lines -/

/-- The bytes of a line from the first text byte on: the part of it that may be a word. -/
def textOf (line : Bytes) : Bytes := line.dropWhile fun c => !isText c

/-- The bytes of a line before these. -/
def leadOf (line : Bytes) : Bytes := line.takeWhile fun c => !isText c

/-- A byte that is not text comes while the line may still become a word. -/
def Interrupted (line : Bytes) : Prop :=
  ∃ p c, p ≠ [] ∧ p ++ [c] <+: textOf line ∧ (multiAttachedDetachMatch p).1 = true ∧ isText c = false

/-- **A line in which bytes that are not text meet a word**: it is interrupted by one of them,
or they stand before a word. -/
def Muddled (line : Bytes) : Prop :=
  Interrupted line ∨ (multiAttachedDetachMatch (textOf line)).2 = true

theorem leadOf_append_textOf (line : Bytes) : leadOf line ++ textOf line = line :=
  List.takeWhile_append_dropWhile

theorem textOf_snoc (line : Bytes) (c : UInt8) : textOf (line ++ [c]) =
    if isText c ∨ textOf line ≠ [] then textOf line ++ [c] else [] := by
  rw [textOf, List.dropWhile_append]
  cases htext : textOf line with
  | nil =>
    rw [textOf] at htext
    rw [htext]
    cases hc : isText c <;> simp [hc]
  | cons d rest =>
    rw [textOf] at htext
    rw [htext]
    simp

theorem leadOf_snoc (line : Bytes) (c : UInt8) : leadOf (line ++ [c]) =
    if isText c ∨ textOf line ≠ [] then leadOf line else line ++ [c] := by
  have hline := leadOf_append_textOf (line ++ [c])
  rw [textOf_snoc] at hline
  split_ifs at hline ⊢ with h
  · have hold := leadOf_append_textOf line
    rw [← List.append_assoc] at hline
    exact List.append_cancel_right ((List.append_cancel_right hline).trans hold.symm)
  · rwa [List.append_nil] at hline

/-- A line is interrupted when it already was, or by its last byte. -/
theorem interrupted_snoc (line : Bytes) (c : UInt8) : Interrupted (line ++ [c]) ↔
    Interrupted line ∨ textOf line ≠ [] ∧ (multiAttachedDetachMatch (textOf line)).1 = true ∧
      isText c = false := by
  constructor
  · rintro ⟨p, d, hne, hpre, hword, hd⟩
    rw [textOf_snoc] at hpre
    split_ifs at hpre with hc
    · rcases (List.prefix_concat_iff.mp hpre) with heq | hold
      · obtain ⟨rfl, hdc⟩ := List.append_inj' heq rfl
        obtain rfl := List.singleton_inj.mp hdc
        exact .inr ⟨hne, hword, hd⟩
      · exact .inl ⟨p, d, hne, hold, hword, hd⟩
    · exact absurd (List.prefix_nil.mp hpre) (by simp)
  · rintro (⟨p, d, hne, hpre, hword, hd⟩ | ⟨hne, hword, hc⟩)
    · refine ⟨p, d, hne, ?_, hword, hd⟩
      have htext : textOf line ≠ [] := fun h0 => by
        rw [h0] at hpre
        exact absurd (List.prefix_nil.mp hpre) (by simp)
      rw [textOf_snoc, if_pos (.inr htext)]
      exact hpre.trans (List.prefix_append _ _)
    · refine ⟨textOf line, c, hne, ?_, hword, hc⟩
      rw [textOf_snoc, if_pos (.inr hne)]

/-! ### What is sent of a word -/

/-- What was typed to the attached session: the texts, whether it is still attached, and what was
sent. -/
structure Typing where
  typed : Typed UInt8
  attached : Bool
  sent : Bytes

/-- One more byte is typed. -/
def Typing.next (t : Typing) (c : UInt8) : Typing :=
  let r := t.typed.byte id (chr '\n') c t.attached
  ⟨r.1, t.attached && !t.typed.detaches id c, t.sent ++ r.2.flatten⟩

/-- A byte that neither ends a line nor rubs out nor detaches. -/
def Ordinary (c : UInt8) : Prop := isEnter c = false ∧ c ≠ 8 ∧ c ≠ 127 ∧ c ≠ 0x1d

section
variable {t : Typing} {c n : UInt8} {S line : Bytes}

theorem isEnter_iff : isEnter c = true ↔ c = chr '\r' ∨ c = chr '\n' := by
  rw [isEnter, Bool.or_eq_true, decide_eq_true_eq, decide_eq_true_eq]

theorem Ordinary.enter (hc : Ordinary c) : ¬(c = chr '\r' ∨ c = chr '\n') := fun h => by
  rw [← isEnter_iff, hc.1] at h
  exact absurd h (by simp)

theorem Ordinary.detaches (hc : Ordinary c) (t : Typed UInt8) : t.detaches id c = false := by
  obtain ⟨hr, hn⟩ := not_or.mp hc.enter
  simp [Typed.detaches, hc.2.2.2, hr, hn]

theorem Ordinary.sentAs (hc : Ordinary c) : sentAs c = c := if_neg (not_or.mp hc.enter).1

/-- What a plain byte does. -/
theorem Typing.next_plain (hc : Ordinary c) : t.next c =
    let line := t.typed.line ++ [c]
    if t.typed.line.length + 1 < multiInput ∧ isText c then
      if t.typed.held ∧ !(multiAttachedDetachMatch line).1 then
        ⟨⟨line, false, awaitEcho t.typed.echo line⟩, t.attached, t.sent ++ line⟩
      else if t.typed.held then ⟨⟨line, t.typed.held, t.typed.echo⟩, t.attached, t.sent⟩
      else ⟨⟨line, t.typed.held, awaitEcho t.typed.echo [c]⟩, t.attached, t.sent ++ [c]⟩
    else if t.attached then ⟨t.typed.send [c], t.attached, t.sent ++ [c]⟩
    else t := by
  have h8 : ¬(c = 8 ∨ c = 127) := not_or.mpr ⟨hc.2.1, hc.2.2.1⟩
  rw [Typing.next, Typed.byte, hc.detaches]
  simp only [id_eq, List.map_id, if_neg h8, if_neg hc.enter, Bool.false_eq_true, if_false,
    Bool.not_false, Bool.and_true]
  split_ifs <;> simp [Typed.send]

theorem detaches_enter (hn : isEnter n = true) (t : Typed UInt8) :
    t.detaches id n = (t.held && (multiAttachedDetachMatch t.line).2) := by
  rw [Typed.detaches, List.map_id]
  rcases isEnter_iff.mp hn with rfl | rfl <;> simp [chr]

/-- The end of a word. -/
theorem Typing.next_word (hn : isEnter n = true) (hheld : t.typed.held = true)
    (hword : (multiAttachedDetachMatch t.typed.line).2 = true) :
    t.next n = ⟨.nothing, false, t.sent⟩ := by
  have hd : t.typed.detaches id n = true := by rw [detaches_enter hn, hheld, hword, Bool.and_self]
  rw [Typing.next, Typed.byte, hd]
  simp

/-- The end of a line. -/
theorem Typing.next_line (hn : isEnter n = true)
    (hword : t.typed.held = true → (multiAttachedDetachMatch t.typed.line).2 = false) :
    (t.next n).typed.line = [] ∧ (t.next n).typed.held = true ∧ (t.next n).attached = t.attached ∧
      (t.next n).sent = t.sent ++ (if t.typed.held then t.typed.line else []) ++ [chr '\n'] := by
  have hn' := isEnter_iff.mp hn
  have h8 : ¬(n = 8 ∨ n = 127) := by rcases hn' with rfl | rfl <;> decide
  have hd : t.typed.detaches id n = false := by
    rw [detaches_enter hn]
    cases hheld : t.typed.held
    · rfl
    · rw [hword hheld]
      rfl
  rw [Typing.next, Typed.byte, hd]
  simp only [id_eq, if_neg h8, if_pos hn', Bool.false_eq_true, if_false, Bool.not_false,
    Bool.and_true]
  cases hheld : t.typed.held with
  | false => simp [Typed.send]
  | true =>
    by_cases hlen : 0 < t.typed.line.length
    · simp [Typed.send, hlen]
    · simp [Typed.send, List.length_eq_zero_iff.mp (Nat.eq_zero_of_not_pos hlen)]

/-! ### Inside a line -/

variable (S line) in
/-- **Inside a line**, after the text `S` was sent for the lines before it: the line is held back while
it may become a word, but not the bytes before its text. -/
structure OnLine (t : Typing) : Prop where
  attached : t.attached = true
  held : t.typed.held = (multiAttachedDetachMatch (textOf line)).1
  text : t.typed.held = true → t.typed.line = textOf line ∧ t.sent = S ++ leadOf line
  sent : t.typed.held = false → t.sent = S ++ line

theorem OnLine.start (hatt : t.attached = true) (hheld : t.typed.held = true)
    (hline : t.typed.line = []) (hsent : t.sent = S) : OnLine S [] t :=
  ⟨hatt, by rw [hheld]; rfl, fun _ => ⟨hline, by rw [hsent]; exact (List.append_nil S).symm⟩,
    fun h => absurd (h.symm.trans hheld) (by simp)⟩

/-- A byte that does not interrupt the line. -/
theorem OnLine.next (ht : OnLine S line t) (hc : Ordinary c) (hno : ¬Interrupted (line ++ [c])) :
    OnLine S (line ++ [c]) (t.next c) := by
  rw [interrupted_snoc, not_or] at hno
  obtain ⟨-, hno⟩ := hno
  cases hheld : t.typed.held with
  | false =>
    -- the line is no word any more, and every byte is sent as it comes
    have hno' : (multiAttachedDetachMatch (textOf line)).1 = false := by rw [← ht.held, hheld]
    have hmatch : (multiAttachedDetachMatch (textOf (line ++ [c]))).1 = false := by
      by_contra hyes
      rw [Bool.not_eq_false] at hyes
      have hpre : textOf line <+: textOf (line ++ [c]) := by
        rw [textOf_snoc, if_pos (.inr fun h0 => by simp [h0, detachMatch_nil] at hno')]
        exact List.prefix_append _ _
      rw [detachMatch_earlier hpre hyes] at hno'
      exact absurd hno' (by simp)
    have hsent := ht.sent hheld
    rw [Typing.next_plain hc]
    dsimp only
    refine iteInduction (fun _ => ?_) fun _ => ?_
    · rw [if_neg (by simp [hheld]), if_neg (by simp [hheld])]
      exact ⟨ht.attached, by rw [hmatch]; exact hheld, fun h => absurd (hheld.symm.trans h) (by simp),
        fun _ => by rw [hsent, List.append_assoc]⟩
    · rw [if_pos ht.attached]
      exact ⟨ht.attached, by rw [hmatch]; exact hheld, fun h => absurd (hheld.symm.trans h) (by simp),
        fun _ => by rw [hsent, List.append_assoc]⟩
  | true =>
    obtain ⟨hline, hsent⟩ := ht.text hheld
    have hword : (multiAttachedDetachMatch (textOf line)).1 = true := by rw [← ht.held, hheld]
    have hlen : t.typed.line.length + 1 < multiInput := by
      have hshort := length_of_detachMatch hword
      rw [hline, multiInput]
      omega
    rw [Typing.next_plain hc]
    dsimp only
    cases htext : isText c with
    | true =>
      have hsnoc : textOf (line ++ [c]) = textOf line ++ [c] := by
        rw [textOf_snoc, if_pos (.inl htext)]
      have hlead : leadOf (line ++ [c]) = leadOf line := by rw [leadOf_snoc, if_pos (.inl htext)]
      rw [if_pos ⟨hlen, rfl⟩]
      cases hmatch : (multiAttachedDetachMatch (textOf line ++ [c])).1 with
      | false =>
        rw [if_pos ⟨hheld, by rw [hline, hmatch]; rfl⟩]
        refine ⟨ht.attached, by rw [hsnoc, hmatch], fun h => absurd h (by simp), fun _ => ?_⟩
        change t.sent ++ (t.typed.line ++ [c]) = _
        rw [hsent, hline, List.append_assoc, ← List.append_assoc (leadOf line), leadOf_append_textOf]
      | true =>
        rw [if_neg (by rw [hline, hmatch]; simp), if_pos hheld]
        refine ⟨ht.attached, by rw [hsnoc, hmatch]; exact hheld, fun _ => ⟨?_, ?_⟩,
          fun h => absurd (hheld.symm.trans h) (by simp)⟩
        · change t.typed.line ++ [c] = _
          rw [hline, hsnoc]
        · rw [hlead]
          exact hsent
    | false =>
      have hempty : textOf line = [] := by
        by_contra hne
        exact hno ⟨hne, hword, htext⟩
      have hsnoc : textOf (line ++ [c]) = [] := by
        rw [textOf_snoc, if_neg (by simp [htext, hempty])]
      have hlead : leadOf (line ++ [c]) = line ++ [c] := by
        rw [leadOf_snoc, if_neg (by simp [htext, hempty])]
      have hall : leadOf line = line := by
        have := leadOf_append_textOf line
        rwa [hempty, List.append_nil] at this
      rw [if_neg (by simp), if_pos ht.attached]
      refine ⟨ht.attached, by rw [hsnoc]; exact hheld, fun _ => ⟨?_, ?_⟩,
        fun h => absurd (hheld.symm.trans h) (by simp)⟩
      · rw [hsnoc, ← hempty]
        exact hline
      · change t.sent ++ [c] = _
        rw [hsent, hlead, hall, List.append_assoc]

/-- The end of a line that is no word. -/
theorem OnLine.enter (ht : OnLine S line t) (hn : isEnter n = true)
    (hno : (multiAttachedDetachMatch (textOf line)).2 = false) :
    (t.next n).typed.line = [] ∧ (t.next n).typed.held = true ∧ (t.next n).attached = true ∧
      (t.next n).sent = S ++ line ++ [chr '\n'] := by
  obtain ⟨h1, h2, h3, h4⟩ := @Typing.next_line t n hn
    fun hheld => by rw [(ht.text hheld).1, hno]
  refine ⟨h1, h2, h3.trans ht.attached, h4.trans ?_⟩
  cases hheld : t.typed.held with
  | false => rw [ht.sent hheld, if_neg (by simp), List.append_nil]
  | true =>
    obtain ⟨hline, hsent⟩ := ht.text hheld
    rw [hsent, hline, if_pos rfl, List.append_assoc S, leadOf_append_textOf]

/-! ### What is lost -/

/-- The bytes that are still held back. -/
def Typing.waiting (t : Typing) : ℕ := if t.typed.held then t.typed.line.length else 0

/-- **The order is lost**: what was sent differs from `u` at some place, or it is too short to become
it. -/
def Lost (t : Typing) (u : Bytes) : Prop :=
  (∃ T a b more more', t.sent = T ++ a :: more ∧ u = T ++ b :: more' ∧ a ≠ b) ∨
    t.sent.length + t.waiting < u.length

theorem Lost.ne {u : Bytes} (ht : Lost t u) : t.sent ≠ u := by
  rintro rfl
  rcases ht with ⟨T, a, b, more, more', ha, hb, hne⟩ | hlen
  · rw [ha] at hb
    exact hne (List.cons.inj (List.append_cancel_left hb)).1
  · omega

/-- A byte is sent at most once, and after what was sent before it. -/
theorem Typing.next_grows (hc : Ordinary c ∨ isEnter c = true) : t.sent <+: (t.next c).sent ∧
    (t.next c).sent.length + (t.next c).waiting ≤ t.sent.length + t.waiting + 1 := by
  rcases hc with hc | hn
  · rw [Typing.next_plain hc]
    dsimp only
    split_ifs with h1 h2 h3 h4
    · exact ⟨List.prefix_append _ _, by simp [Typing.waiting, h2.1]; omega⟩
    · exact ⟨List.prefix_refl _, by simp [Typing.waiting, h3]; omega⟩
    · exact ⟨List.prefix_append _ _, by simp [Typing.waiting, h3]⟩
    · refine ⟨List.prefix_append _ _, ?_⟩
      change (t.sent ++ [c]).length + t.waiting ≤ _
      simp only [List.length_append, List.length_singleton]
      omega
    · exact ⟨List.prefix_refl _, by simp⟩
  · by_cases hword : t.typed.held = true ∧ (multiAttachedDetachMatch t.typed.line).2 = true
    · rw [Typing.next_word hn hword.1 hword.2]
      exact ⟨List.prefix_refl _, by simp [Typing.waiting, Typed.nothing]; omega⟩
    · obtain ⟨hline, hheld, -, hsent⟩ := @Typing.next_line t c hn (by simpa using hword)
      rw [hsent, List.append_assoc]
      refine ⟨List.prefix_append _ _, ?_⟩
      have hwait : (if t.typed.held then t.typed.line else []).length = t.waiting := by
        rw [Typing.waiting]
        split_ifs <;> rfl
      have hnone : (t.next c).waiting = 0 := by rw [Typing.waiting, if_pos hheld, hline]; rfl
      rw [hnone, List.length_append, List.length_append, hwait]
      simp
      omega

theorem Lost.next {u : Bytes} (ht : Lost t u) (hc : Ordinary c ∨ isEnter c = true) :
    Lost (t.next c) (u ++ [sentAs c]) := by
  obtain ⟨⟨extra, hsent⟩, hlen⟩ := t.next_grows hc
  rcases ht with ⟨T, a, b, more, more', ha, rfl, hne⟩ | hshort
  · exact .inl ⟨T, a, b, more ++ extra, more' ++ [sentAs c], by rw [← hsent, ha]; simp, by simp, hne⟩
  · refine .inr ?_
    rw [List.length_append, List.length_singleton]
    omega

/-- A byte that interrupts the line is sent before what the line holds back. -/
theorem OnLine.lost_of_interrupted (ht : OnLine S line t) (hc : Ordinary c) (hne : textOf line ≠ [])
    (hword : (multiAttachedDetachMatch (textOf line)).1 = true) (htext : isText c = false) :
    Lost (t.next c) (S ++ line ++ [c]) := by
  obtain ⟨hline, hsent⟩ := ht.text (by rw [ht.held, hword])
  obtain ⟨b, rest, htextOf⟩ := List.exists_cons_of_ne_nil hne
  have hb : isText b = true := by
    have := List.head?_dropWhile_not (fun c => !isText c) line
    rw [← textOf, htextOf] at this
    simpa using this
  refine .inl ⟨S ++ leadOf line, c, b, [], rest ++ [c], ?_, ?_, ?_⟩
  · rw [Typing.next_plain hc]
    dsimp only
    rw [if_neg (by simp [htext]), if_pos ht.attached, ← hsent]
  · have hsplit := leadOf_append_textOf line
    rw [htextOf] at hsplit
    conv_lhs => rw [← hsplit]
    simp
  · rintro rfl
    exact absurd (hb.symm.trans htext) (by simp)

/-- The end of a word is not sent, and the word is not either. -/
theorem OnLine.lost_of_word (ht : OnLine S line t) (hn : isEnter n = true)
    (hword : (multiAttachedDetachMatch (textOf line)).2 = true) :
    Lost (t.next n) (S ++ line ++ [chr '\n']) := by
  have hheld : t.typed.held = true := by rw [ht.held, detachMatch_of_exact hword]
  obtain ⟨hline, hsent⟩ := ht.text hheld
  refine .inr ?_
  rw [Typing.next_word hn hheld (by rw [hline, hword])]
  have hlead : (leadOf line).length ≤ line.length := by
    conv_rhs => rw [← leadOf_append_textOf line]
    simp
  simp only [Typing.waiting, Typed.nothing, List.length_append, List.length_singleton, hsent]
  simp
  omega

/-! ### A line, and all lines -/

/-- **Inside a line** the order is kept until the line is interrupted. -/
theorem onLine_foldl (ht : OnLine S [] t) (hline : ∀ c ∈ line, Ordinary c) :
    (¬Interrupted line → OnLine S line (line.foldl Typing.next t)) ∧
      (Interrupted line → Lost (line.foldl Typing.next t) (S ++ line)) := by
  induction line using List.reverseRecOn with
  | nil =>
    refine ⟨fun _ => ht, ?_⟩
    rintro ⟨p, c, -, hpre, -⟩
    exact absurd (List.prefix_nil.mp hpre) (by simp)
  | append_singleton line c ih =>
    obtain ⟨hgood, hbad⟩ := ih fun d hd => hline d (List.mem_append_left _ hd)
    have hc : Ordinary c := hline c (by simp)
    rw [List.foldl_append, List.foldl_cons, List.foldl_nil]
    constructor
    · intro hno
      exact (hgood fun h => hno ((interrupted_snoc line c).mpr (.inl h))).next hc hno
    · intro hyes
      rcases (interrupted_snoc line c).mp hyes with hold | ⟨hne, hword, htext⟩
      · have hlost := (hbad hold).next (.inl hc)
        rwa [hc.sentAs, List.append_assoc] at hlost
      · by_cases hold : Interrupted line
        · have hlost := (hbad hold).next (.inl hc)
          rwa [hc.sentAs, List.append_assoc] at hlost
        · rw [← List.append_assoc]
          exact (hgood hold).lost_of_interrupted hc hne hword htext

/-- Once the order is lost, it stays lost. -/
theorem Lost.foldl {u w : Bytes} (ht : Lost t u) (hw : ∀ c ∈ w, Ordinary c ∨ isEnter c = true) :
    Lost (w.foldl Typing.next t) (u ++ w.map sentAs) := by
  induction w generalizing t u with
  | nil => simpa using ht
  | cons c w ih =>
    have hlost := ih (ht.next (hw c List.mem_cons_self)) fun d hd => hw d (List.mem_cons_of_mem c hd)
    simpa using hlost

theorem map_sentAs (hline : ∀ c ∈ line, Ordinary c) : line.map sentAs = line := by
  rw [List.map_congr_left fun c hc => (hline c hc).sentAs, List.map_id']

/-- **What is sent of what was typed**, line by line: all of it in order when no line is muddled, and
otherwise something else, whatever is typed after it. -/
theorem foldl_typing {w : Bytes} (hw : ∀ c ∈ w, Ordinary c ∨ isEnter c = true) (hends : EndsLine w)
    (hatt : t.attached = true) (hheld : t.typed.held = true) (hline : t.typed.line = [])
    (hsent : t.sent = S) :
    (w.foldl Typing.next t).sent = S ++ w.map sentAs ↔ ∀ line ∈ typedLines w, ¬Muddled line := by
  induction hlen : w.length using Nat.strong_induction_on generalizing w t S with
  | _ k ih =>
  rcases eq_or_ne w [] with rfl | hne
  · simp [typedLines, hsent]
  obtain ⟨line, n, rest, rfl, hplain, hn, hrest⟩ := hends.split hne
  have hbytes : ∀ c ∈ line, Ordinary c := fun c hc =>
    (hw c (List.mem_append_left _ hc)).resolve_right (by simp [hplain c hc])
  have hwrest : ∀ c ∈ rest, Ordinary c ∨ isEnter c = true := fun c hc =>
    hw c (List.mem_append_right _ (List.mem_cons_of_mem n hc))
  have hsn : sentAs n = chr '\n' := by
    rcases isEnter_iff.mp hn with rfl | rfl <;> decide
  obtain ⟨hgood, hbad⟩ := @onLine_foldl t S line (.start hatt hheld hline hsent) hbytes
  have hmap : S ++ (line ++ n :: rest).map sentAs =
      S ++ line ++ [chr '\n'] ++ rest.map sentAs := by
    simp [map_sentAs hbytes, hsn]
  rw [typedLines_line hplain hn, hmap, List.foldl_append, List.foldl_cons, List.forall_mem_cons]
  by_cases hmuddled : Muddled line
  · have hlost : Lost ((line.foldl Typing.next t).next n) (S ++ line ++ [chr '\n']) := by
      by_cases hint : Interrupted line
      · have := (hbad hint).next (.inr hn)
        rwa [hsn] at this
      · exact (hgood hint).lost_of_word hn (hmuddled.resolve_left hint)
    exact iff_of_false (hlost.foldl hwrest).ne fun h => h.1 hmuddled
  · obtain ⟨hint, hword⟩ := not_or.mp hmuddled
    obtain ⟨h1, h2, h3, h4⟩ := (hgood hint).enter hn (by simpa using hword)
    rw [ih rest.length (by simp [← hlen]; omega) hwrest hrest h3 h2 h1 h4 rfl]
    exact ⟨fun h => ⟨hmuddled, h⟩, fun h => h.2⟩

end

end Wirecat
