import Wirecat.Editor

/-!
# Escape sequences

A terminal sends a key that is no character as a control sequence: `ESC [`, parameter bytes,
intermediate bytes, and a final byte (`Wirecat.controlSequence`). Of such a sequence the line
editor needs to know where it ends, whatever key it is. It does so byte by byte
(`Wirecat.EscState.next`), and since nothing else changes the place in a sequence, the reads in
which the bytes arrive do not matter: a run over the sequence (`Wirecat.EditorRun`) goes through
the states of the automaton, and it is enough to look at those (`Wirecat.EndsWith`).

The automaton takes some sequences to be over too early, and misses the end of others. It takes
`ESC [` to be over with a first byte that is not a digit; after a digit, it takes `~` only for the
end; and after two bytes, only a capital letter or `~`. The sequences for which that is right are
those that are `Wirecat.Recognised`, and these are all of them: `Wirecat.handled_iff`.
-/

namespace Wirecat

open CString Interaction

/-! ### Sequences -/

/-- A parameter byte or an intermediate byte of a control sequence. -/
def IsParameter (c : UInt8) : Prop := 0x20 ≤ c ∧ c ≤ 0x3f

/-- The final byte of a control sequence. -/
def IsFinal (c : UInt8) : Prop := 0x40 ≤ c ∧ c ≤ 0x7e

/-- The control sequence with the parameter bytes `p`, the intermediate bytes `q` and the final byte
`f`. -/
def controlSequence (p q : Bytes) (f : UInt8) : Bytes := escape :: chr '[' :: (p ++ q ++ [f])

/-- A capital letter or `~`: what ends a sequence that is skipped. -/
def EndsSkip (c : UInt8) : Prop := (chr 'A' ≤ c ∧ c ≤ chr 'Z') ∨ c = chr '~'

/-- **The sequences whose end the editor finds**, by the bytes between `ESC [` and the final one. -/
def Recognised (f : UInt8) : Bytes → Prop
  | [] => True
  | [d] => isDigit d = true ∧ f = chr '~'
  | d :: _ :: _ => isDigit d = true ∧ EndsSkip f

/-! ### The automaton -/

/-- The automaton comes back to the ground state at the end of these bytes, and not before. -/
def EndsWith (s : EscState) : Bytes → Prop
  | [] => True
  | c :: w => (s.next c = .ground ↔ w = []) ∧ EndsWith (s.next c) w

theorem endsWith_skip {f : UInt8} {w : Bytes} (hw : ∀ c ∈ w, IsParameter c) :
    EndsWith .skip (w ++ [f]) ↔ EndsSkip f := by
  induction w with
  | nil =>
    rw [List.nil_append, EndsWith, EndsWith, EscState.next, EndsSkip]
    split_ifs with hf
    · simpa using hf
    · simpa using hf
  | cons c w ih =>
    obtain ⟨hc, hw⟩ := List.forall_mem_cons.mp hw
    have hnext : EscState.skip.next c = .skip := by
      refine if_neg ?_
      rintro (⟨hge, -⟩ | rfl)
      · exact absurd (UInt8.le_trans hge hc.2) (by decide)
      · exact absurd hc.2 (by decide)
    rw [List.cons_append, EndsWith, hnext, ih hw]
    simp

theorem endsWith_digit {d f : UInt8} {w : Bytes} (hw : ∀ c ∈ w, IsParameter c) :
    EndsWith (.digit d) (w ++ [f]) ↔ match w with
      | [] => f = chr '~'
      | _ :: _ => EndsSkip f := by
  cases w with
  | nil =>
    rw [List.nil_append, EndsWith, EndsWith, EscState.next]
    split_ifs with hf
    · simpa using hf
    · simpa using hf
  | cons c w =>
    obtain ⟨hc, hw⟩ := List.forall_mem_cons.mp hw
    have hnext : (EscState.digit d).next c = .skip := by
      refine if_neg ?_
      rintro rfl
      exact absurd hc.2 (by decide)
    rw [List.cons_append, EndsWith, hnext, endsWith_skip hw]
    simp

/-- **The automaton finds the end** of the recognised sequences, and of no others. -/
theorem endsWith_controlSequence {p q : Bytes} {f : UInt8} (hp : ∀ c ∈ p, IsParameter c)
    (hq : ∀ c ∈ q, IsParameter c) (hf : IsFinal f) :
    EndsWith .ground (controlSequence p q f) ↔ Recognised f (p ++ q) := by
  have hesc : EscState.ground.next escape = .escape := rfl
  have hbracket : EscState.escape.next (chr '[') = .bracket := by decide
  rw [controlSequence, EndsWith, EndsWith, hesc, hbracket]
  have hpq : ∀ c ∈ p ++ q, IsParameter c := fun c hc =>
    (List.mem_append.mp hc).elim (hp c) (hq c)
  generalize p ++ q = w at hpq
  have hdigit : ∀ c, EscState.bracket.next c = if isDigit c then .digit c else .ground := by
    intro c
    rw [EscState.next]
    refine if_congr ?_ rfl rfl
    rw [isDigit, Bool.and_eq_true, decide_eq_true_eq, decide_eq_true_eq]
    rfl
  cases w with
  | nil =>
    have hend : EscState.bracket.next f = .ground := by
      refine if_neg fun h => ?_
      exact absurd (UInt8.le_trans hf.1 h.2) (by decide)
    rw [List.nil_append, EndsWith, EndsWith, hend]
    simp [Recognised]
  | cons d w =>
    have hw := (List.forall_mem_cons.mp hpq).2
    rw [List.cons_append, EndsWith, hdigit]
    cases hd : isDigit d with
    | true =>
      rw [if_pos rfl, endsWith_digit hw]
      cases w <;> simp [Recognised, hd]
    | false => cases w <;> simp [Recognised, hd]

/-! ### Runs of the editor -/

/-- A byte that was typed, and the line before and after it. -/
structure Keystroke where
  byte : UInt8
  before : Editor
  after : Editor

variable {cfg : Config} {interactive : Bool} {listener : Fd}

variable (cfg interactive listener) in
/-- **A run in which these bytes are typed to the line editor.** Between two of them, anything may
happen that is not the handling of a byte for the prompt. -/
inductive EditorRun (x₀ : MultiPoint) : List Keystroke → MultiPoint → Prop
  /-- Nothing is typed yet. -/
  | start : EditorRun x₀ [] x₀
  /-- A byte is handled. -/
  | byte {t : List Keystroke} {x y : MultiPoint} {c : UInt8} {rest : Bytes}
      {polled : List (PollFd × Revents)} (hx : EditorRun x₀ t x)
      (hphase : x.phase = .typing .editor (c :: rest) polled)
      (hstep : MultiStep cfg interactive listener x y) :
      EditorRun x₀ (t ++ [⟨c, x.state.editor, y.state.editor⟩]) y
  /-- Something else happens. -/
  | other {t : List Keystroke} {x y : MultiPoint} (hx : EditorRun x₀ t x)
      (hidle : x.phase.unprompted) (hstep : MultiStep cfg interactive listener x y) :
      EditorRun x₀ t y

/-- The keystrokes follow one another, from the line `e` on. -/
def Follow : Editor → List Keystroke → Prop
  | _, [] => True
  | e, k :: t => k.before = e ∧ EditorEffect k.byte e k.after ∧ Follow k.after t

/-- The line after these keystrokes. -/
def lineAfter (e : Editor) (t : List Keystroke) : Editor := t.getLast?.elim e Keystroke.after

theorem Follow.snoc {e e' : Editor} {t : List Keystroke} {c : UInt8} (ht : Follow e t)
    (hc : EditorEffect c (lineAfter e t) e') : Follow e (t ++ [⟨c, lineAfter e t, e'⟩]) := by
  induction t generalizing e with
  | nil => exact ⟨rfl, hc, trivial⟩
  | cons k t ih =>
    obtain ⟨hbefore, hbyte, ht⟩ := ht
    have hlast : lineAfter e (k :: t) = lineAfter k.after t := by
      rw [lineAfter, lineAfter, List.getLast?_cons]
      cases t.getLast? <;> rfl
    rw [hlast] at hc ⊢
    exact ⟨hbefore, hbyte, ih ht hc⟩

/-- **Nothing comes between two keystrokes**: each finds the line as the one before left it. -/
theorem EditorRun.follow {x₀ y : MultiPoint} {t : List Keystroke}
    (hrun : EditorRun cfg interactive listener x₀ t y) :
    Follow x₀.state.editor t ∧ y.state.editor = lineAfter x₀.state.editor t := by
  induction hrun with
  | start => exact ⟨trivial, rfl⟩
  | byte hx hphase hstep ih =>
    obtain ⟨hfollow, heditor⟩ := ih
    have heffect := (hstep.typedEditor hphase).1
    rw [heditor] at heffect ⊢
    refine ⟨hfollow.snoc heffect, ?_⟩
    rw [lineAfter, List.getLast?_append, List.getLast?_singleton]
    rfl
  | other hx hidle hstep ih => exact ⟨ih.1, (hstep.editor hidle).trans ih.2⟩

/-! ### What is made of a sequence -/

/-- The byte was inserted into the line. -/
def Keystroke.Inserts (k : Keystroke) : Prop :=
  k.after.input = k.before.input.take k.before.cursor ++ [k.byte] ++ k.before.input.drop k.before.cursor ∧
    k.after.cursor = k.before.cursor + 1 ∧ k.after.historyPos = none

/-- A byte of an escape sequence is not inserted, and neither is the one that begins it. -/
theorem not_inserts {k : Keystroke} (hk : EditorEffect k.byte k.before k.after)
    (hesc : k.before.escState ≠ .ground ∨ k.byte = escape) : ¬k.Inserts := by
  rintro ⟨hinput, hcursor, hpos⟩
  have hlonger : k.after.input.length = k.before.input.length + 1 := by
    rw [hinput]
    simp only [List.length_append, List.length_take, List.length_drop, List.length_singleton]
    omega
  obtain ⟨c, e, e'⟩ := k
  dsimp only at *
  cases hk with
  | key hstate hkey =>
    cases hkey with
    | same => exact absurd hlonger (Nat.succ_ne_self _).symm
    | moved hle => exact absurd hlonger (Nat.succ_ne_self _).symm
    | recalled j => exact absurd hpos (by simp [Editor.recall])
    | emptied => exact absurd hlonger (Nat.succ_ne_zero _).symm
  | begins hground hc => exact absurd hlonger (Nat.succ_ne_self _).symm
  | enter hground hc => exact absurd hlonger (Nat.succ_ne_zero _).symm
  | erased hground hc hlt =>
    dsimp only at hcursor
    omega
  | inserted hground htext hroom =>
    rcases hesc with hne | rfl
    · exact hne hground
    · exact absurd htext (by decide)
  | ignored hground hc => exact absurd hlonger (Nat.succ_ne_self _).symm

/-- **A sequence is handled**: the editor is back in the ground state after the last byte and not
before, and no byte is inserted. -/
structure Handled (t : List Keystroke) : Prop where
  ends : ∀ pre k post, t = pre ++ k :: post → (k.after.escState = .ground ↔ post = [])
  kept : ∀ k ∈ t, ¬k.Inserts

/-- The run of the automaton. -/
theorem Follow.endsWith {e : Editor} {t : List Keystroke} (ht : Follow e t) :
    (∀ pre k post, t = pre ++ k :: post → (k.after.escState = .ground ↔ post = [])) ↔
      EndsWith e.escState (t.map Keystroke.byte) := by
  induction t generalizing e with
  | nil => simp [EndsWith]
  | cons k t ih =>
    obtain ⟨rfl, hbyte, ht⟩ := ht
    rw [List.map_cons, EndsWith, ← hbyte.escState, List.map_eq_nil_iff, ← ih ht]
    constructor
    · intro hends
      refine ⟨hends [] k t rfl, ?_⟩
      rintro pre k' post rfl
      exact hends (k :: pre) k' post rfl
    · rintro ⟨hhead, htail⟩ pre k' post heq
      cases pre with
      | nil =>
        obtain ⟨rfl, rfl⟩ := List.cons.inj heq
        exact hhead
      | cons k₁ pre =>
        obtain ⟨rfl, rfl⟩ := List.cons.inj heq
        exact htail pre k' post rfl

/-- When the automaton comes back at the end only, every byte but the first finds it elsewhere. -/
theorem Follow.kept {e : Editor} {t : List Keystroke} (ht : Follow e t)
    (hends : EndsWith e.escState (t.map Keystroke.byte))
    (hfirst : ∀ k ∈ t.head?, k.before.escState ≠ .ground ∨ k.byte = escape) :
    ∀ k ∈ t, ¬k.Inserts := by
  induction t generalizing e with
  | nil => exact fun k hk => absurd hk List.not_mem_nil
  | cons k t ih =>
    obtain ⟨rfl, hbyte, ht⟩ := ht
    rw [List.map_cons, EndsWith, ← hbyte.escState] at hends
    obtain ⟨hground, hends⟩ := hends
    refine List.forall_mem_cons.mpr ⟨not_inserts hbyte (hfirst k rfl), ih ht hends ?_⟩
    intro k' hk'
    cases t with
    | nil => exact absurd hk' (by simp)
    | cons k₁ t =>
      obtain rfl := Option.some.inj hk'
      rw [ht.1]
      exact .inl fun h0 => absurd (hground.mp h0) (by simp)

/-- **When a control sequence is handled**, in any run from the ground state: when its end is
recognised. -/
theorem handled_iff {x₀ y : MultiPoint} {t : List Keystroke} {p q : Bytes} {f : UInt8}
    (hrun : EditorRun cfg interactive listener x₀ t y) (hground : x₀.state.escState = .ground)
    (hbytes : t.map Keystroke.byte = controlSequence p q f)
    (hp : ∀ c ∈ p, 0x30 ≤ c ∧ c ≤ 0x3f) (hq : ∀ c ∈ q, 0x20 ≤ c ∧ c ≤ 0x2f) (hf : IsFinal f) :
    Handled t ↔ Recognised f (p ++ q) := by
  have hfollow := hrun.follow.1
  have hstate : x₀.state.editor.escState = .ground := hground
  have hparam : ∀ c ∈ p, IsParameter c := fun c hc =>
    ⟨UInt8.le_trans (by decide) (hp c hc).1, (hp c hc).2⟩
  have hinter : ∀ c ∈ q, IsParameter c := fun c hc =>
    ⟨(hq c hc).1, UInt8.le_trans (hq c hc).2 (by decide)⟩
  rw [← endsWith_controlSequence hparam hinter hf, ← hbytes, ← hstate]
  constructor
  · exact fun hhandled => hfollow.endsWith.mp hhandled.ends
  · intro hends
    refine ⟨hfollow.endsWith.mpr hends, hfollow.kept hends fun k hk => .inr ?_⟩
    cases t with
    | nil => exact absurd hk (by simp)
    | cons k₁ t =>
      obtain rfl := Option.some.inj hk
      exact (List.cons.inj hbytes).1

/-! ### Two sequences -/

/-- A byte that is no key only changes the place in the sequence. -/
theorem EditorRun.silent {x₀ : MultiPoint} {t : List Keystroke} {s : MultiState} {h : Hist}
    {c : UInt8} {rest : Bytes} {polled : List (PollFd × Revents)} (s' : MultiState)
    (hrun : EditorRun cfg interactive listener x₀ t ⟨s, h, .typing .editor (c :: rest) polled⟩)
    (hs : multiEditorByte cfg.brokerMaxClients.toNat c s = pure s') :
    EditorRun cfg interactive listener x₀ (t ++ [⟨c, s.editor, s'.editor⟩])
      ⟨s', h, .typing .editor rest polled⟩ := by
  have hr : Runs Legal (multiEditorByte cfg.brokerMaxClients.toNat c s) h h (some s') := by
    rw [hs]
    exact runs_pure.mpr ⟨rfl, rfl⟩
  exact .byte hrun rfl (.typed hr)

/-- The line editor at a place in a sequence. -/
def inSequence (state : EscState) : MultiState := { letters 0 with escState := state }

/-- The sequence of the key `Ctrl` and right is handled. -/
theorem handled_ctrlRight : ∃ x₀ t y, MultiSteps oneSession true (.sock .tcp 3) (multiStart []) x₀ ∧
    EditorRun oneSession true (.sock .tcp 3) x₀ t y ∧
    t.map Keystroke.byte = controlSequence (lit "1;5") [] (chr 'C') ∧ Handled t := by
  obtain ⟨h, polled, hsteps⟩ := @exists_lettersTyping 0 (by decide)
    (controlSequence (lit "1;5") [] (chr 'C')) (by decide) (by decide)
  have hrun := @EditorRun.start oneSession true (.sock .tcp 3) ⟨letters 0, h, .typing .editor
    (controlSequence (lit "1;5") [] (chr 'C')) polled⟩
  have hrun₁ := hrun.silent (inSequence .escape) rfl
  have hrun₂ := hrun₁.silent (inSequence .bracket) rfl
  have hrun₃ := hrun₂.silent (inSequence (.digit (chr '1'))) rfl
  have hrun₄ := hrun₃.silent (inSequence .skip) rfl
  have hrun₅ := hrun₄.silent (inSequence .skip) rfl
  have hrun₆ := hrun₅.silent (inSequence .ground) rfl
  have hfinal : Recognised (chr 'C') (lit "1;5" ++ []) := ⟨by decide, .inl (by decide)⟩
  have hparam : ∀ c ∈ lit "1;5", 0x30 ≤ c ∧ c ≤ 0x3f := by decide +kernel
  exact ⟨_, _, _, hsteps, hrun₆, rfl,
    (handled_iff hrun₆ rfl rfl hparam (by simp) ⟨by decide, by decide⟩).mpr hfinal⟩

/-- **The end of `ESC [ 1 A` is missed**: the editor goes on skipping, so it swallows what is typed
next. -/
theorem not_handled : ∃ x₀ t y, MultiSteps oneSession true (.sock .tcp 3) (multiStart []) x₀ ∧
    EditorRun oneSession true (.sock .tcp 3) x₀ t y ∧ x₀.state.escState = .ground ∧
    t.map Keystroke.byte = controlSequence (lit "1") [] (chr 'A') ∧ ¬Handled t ∧
    y.state.escState = .skip := by
  obtain ⟨h, polled, hsteps⟩ := @exists_lettersTyping 0 (by decide)
    (controlSequence (lit "1") [] (chr 'A')) (by decide) (by decide)
  have hrun := @EditorRun.start oneSession true (.sock .tcp 3) ⟨letters 0, h, .typing .editor
    (controlSequence (lit "1") [] (chr 'A')) polled⟩
  have hrun₁ := hrun.silent (inSequence .escape) rfl
  have hrun₂ := hrun₁.silent (inSequence .bracket) rfl
  have hrun₃ := hrun₂.silent (inSequence (.digit (chr '1'))) rfl
  have hrun₄ := hrun₃.silent (inSequence .skip) rfl
  refine ⟨_, _, _, hsteps, hrun₄, rfl, rfl, fun hhandled => ?_, rfl⟩
  have hlast := (hhandled.ends _ _ [] rfl).mpr rfl
  exact absurd hlast (by simp [inSequence, MultiState.editor])

end Wirecat
