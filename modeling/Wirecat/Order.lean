import Wirecat.Rounds
import Wirecat.TypedLines

/-!
# Typed order

What the operator types to an attached session is to arrive there in the order in which it was
typed. The program decides it byte by byte (`Wirecat.Typing.next`), and between two bytes the
listener does other things: it accepts, it prints what the session sends, and with that the
echo that is awaited changes.

A run is therefore taken from the machine of `Wirecat.MultiStep` (`Wirecat.AttachedRun`): the bytes
that are handled for the session's slot make up the text that was typed, however they were read, and
every other step leaves the line alone and writes to the terminal only. So what the session gets is
what `Wirecat.Typing.next` sends (`Wirecat.AttachedRun.tracks`), and the order is kept exactly when
no line is muddled: `Wirecat.attachedOrder_iff`.
-/

namespace Wirecat

open CString Interaction

/-! ### The bytes of the handler -/

section
variable {legal : Hist → (e : Sys) → Resp e → Prop} {fd : Fd} {i : ℕ}

/-- What is sent of a byte, and what becomes of the line, does not depend on what is awaited. -/
theorem Typed.byte_echo {β : Type} (val : β → UInt8) (newline b : β) (attached : Bool) (line : List β)
    (held : Bool) (e e' : List β) :
    let r := (⟨line, held, e⟩ : Typed β).byte val newline b attached
    let r' := (⟨line, held, e'⟩ : Typed β).byte val newline b attached
    r'.1.line = r.1.line ∧ r'.1.held = r.1.held ∧ r'.2 = r.2 := by
  have hdetach : (⟨line, held, e'⟩ : Typed β).detaches val b =
      (⟨line, held, e⟩ : Typed β).detaches val b := rfl
  simp only [Typed.byte, hdetach]
  split_ifs <;> exact ⟨rfl, rfl, rfl⟩

theorem conveys_multiSendLine' {s : MultiState} (hfd : (s.sessions i).fd = some fd) (text : Bytes) :
    Conveys legal fd (multiSendLine' s i text) fun s' out =>
      out = text ∧ (s'.sessions i).fd = some fd := by
  rw [multiSendLine', multiSendLine, hfd]
  dsimp only
  rw [bind_assoc]
  refine (conveys_wcatFullWrite .multi text).bind ?_
  rintro n out ⟨rfl, rfl⟩
  rw [if_neg (by simp)]
  refine Conveys.pure ⟨List.append_nil _, ?_⟩
  simp [MultiState.set, hfd]

theorem conveys_multiSendTexts {s : MultiState} (hfd : (s.sessions i).fd = some fd)
    (texts : List Bytes) :
    Conveys legal fd (multiSendTexts i texts s) fun _ out => out = texts.flatten := by
  -- what is still to be sent makes up the rest of the text
  refine (Conveys.forEach (fun todo s' out => (s'.sessions i).fd = some fd ∧
    out ++ todo.flatten = texts.flatten) ?_ ⟨hfd, rfl⟩).mono fun s' out h => by simpa using h.2
  rintro text todo s' out ⟨hfd', hout⟩
  refine (conveys_multiSendLine' hfd' text).mono ?_
  rintro s'' more ⟨rfl, hfd''⟩
  exact ⟨hfd'', by rw [← hout]; simp⟩

/-- **What a byte for the attached session writes to it.** -/
theorem conveys_multiAttachedByte {s : MultiState} (hfd : (s.sessions i).fd = some fd)
    (hterm : fd ≠ .stderr) (c : UInt8) :
    Conveys legal fd (multiAttachedByte i c s) fun _ out =>
      out = (s.typed.byte id (chr '\n') c (s.attachedId ≠ 0)).2.flatten := by
  rw [multiAttachedByte_eq]
  refine (conveys_multiSendTexts hfd _).bind ?_
  rintro s' out rfl
  have hshown := within_typedShown (F := fun e => ∀ via buf, e ≠ .write via fd buf) (by simp)
    (by rintro buf via buf' ⟨⟩; exact hterm rfl) c (s.typed.detaches id c) s.activeId
  refine (Within.conveys hshown).bind ?_
  rintro _ more ⟨-, rfl⟩
  exact Conveys.pure (by simp)

end

/-! ### A run of the listener -/

/-- What is written to the terminal is written to no session. -/
theorem writtenTo_of_prints {fd : Fd} {h h' : Hist} (hs : h <:+ h')
    (hterm : fd ≠ .stdout ∧ fd ≠ .stderr) (hprints : ∀ ev, Happens h h' ev → Prints ev.1) :
    writtenTo fd h' = writtenTo fd h := by
  obtain ⟨new, rfl⟩ := hs
  induction new with
  | nil => rfl
  | cons ev new ih =>
    obtain ⟨e, r⟩ := ev
    have hprint : Prints e := hprints ⟨e, r⟩ (happens_append.mpr List.mem_cons_self)
    rw [List.cons_append, writtenTo_other]
    · exact ih fun ev hev => hprints ev (happens_append.mpr
        (List.mem_cons_of_mem _ (happens_append.mp hev)))
    · rintro via buf rfl
      exact hprint.elim hterm.1 hterm.2

variable {cfg : Config} {interactive : Bool} {listener : Fd} {i : ℕ}

variable (cfg interactive listener i) in
/-- **A run in which `w` is typed to the session in slot `i`.** Between two bytes anything may happen
that is not the handling of a byte, as long as the session stays in its slot and attached. -/
inductive AttachedRun (x₀ : MultiPoint) : Bytes → MultiPoint → Prop
  /-- Nothing is typed yet. -/
  | start : AttachedRun x₀ [] x₀
  /-- A byte is handled. -/
  | byte {w : Bytes} {x y : MultiPoint} {c : UInt8} {rest : Bytes} {polled : List (PollFd × Revents)}
      (hx : AttachedRun x₀ w x) (hphase : x.phase = .typing (.attached i) (c :: rest) polled)
      (hstep : MultiStep cfg interactive listener x y) : AttachedRun x₀ (w ++ [c]) y
  /-- Something else happens. -/
  | other {w : Bytes} {x y : MultiPoint} (hx : AttachedRun x₀ w x) (hidle : x.idle)
      (hstep : MultiStep cfg interactive listener x y)
      (hfd : (y.state.sessions i).fd = (x.state.sessions i).fd)
      (hatt : y.state.attachedId = x.state.attachedId) : AttachedRun x₀ w y

/-- The listener has what was typed. -/
structure Tracks (t : Typing) (s : MultiState) : Prop where
  line : s.attachedLine = t.typed.line
  held : s.attachedLineHeld = t.typed.held
  attached : decide (s.attachedId ≠ 0) = t.attached

/-- A byte that is handled is typed. -/
theorem Tracks.next {t : Typing} {s s' : MultiState} {c : UInt8} (ht : Tracks t s)
    (hs : TypedEffect s (s.typed.detaches id c) (s.typed.byte id (chr '\n') c (s.attachedId ≠ 0)).1 s') :
    Tracks (t.next c) s' ∧
      (t.next c).sent = t.sent ++ (s.typed.byte id (chr '\n') c (s.attachedId ≠ 0)).2.flatten := by
  obtain ⟨⟨line, held, echo⟩, attached, sent⟩ := t
  obtain ⟨hline, hheld, hatt⟩ := ht
  dsimp only at hline hheld hatt
  subst hline hheld hatt
  obtain ⟨hbyteLine, hbyteHeld, hbyteSent⟩ := Typed.byte_echo id (chr '\n') c
    (decide (s.attachedId ≠ 0)) s.attachedLine s.attachedLineHeld echo s.echoPending
  have htyped := hs.typed
  refine ⟨⟨?_, ?_, ?_⟩, by rw [Typing.next, ← hbyteSent]; rfl⟩
  · exact (congrArg Typed.line htyped).trans hbyteLine
  · exact (congrArg Typed.held htyped).trans hbyteHeld
  · rw [hs.attachedId]
    change _ = (decide (s.attachedId ≠ 0) && !s.typed.detaches id c)
    cases s.typed.detaches id c <;> simp

theorem not_refused_of_suffix {fd : Fd} {h₀ h h' : Hist} (hno : ¬Refused fd h₀ h') (hs : h <:+ h') :
    ¬Refused fd h₀ h := fun hr => hno (hr.mono (List.suffix_refl _) hs)

theorem AttachedRun.suffix {x₀ y : MultiPoint} {w : Bytes}
    (hrun : AttachedRun cfg interactive listener i x₀ w y) : x₀.hist <:+ y.hist := by
  induction hrun with
  | start => exact List.suffix_refl _
  | byte _ _ hstep ih => exact ih.trans hstep.suffix
  | other _ _ hstep _ _ ih => exact ih.trans hstep.suffix

/-- Before anything is typed. -/
def MultiState.typing (s : MultiState) : Typing := ⟨s.typed, decide (s.attachedId ≠ 0), []⟩

/-- **What a run writes to the attached session** is what is sent of the bytes that were typed, when
no write is refused. -/
theorem AttachedRun.tracks {x₀ y : MultiPoint} {w : Bytes} {fd : Fd}
    (hrun : AttachedRun cfg interactive listener i x₀ w y)
    (hfd : (x₀.state.sessions i).fd = some fd) (hterm : fd ≠ .stdout ∧ fd ≠ .stderr)
    (hno : ¬Refused fd x₀.hist y.hist) :
    Tracks (w.foldl Typing.next x₀.state.typing) y.state ∧ (y.state.sessions i).fd = some fd ∧
      writtenTo fd y.hist =
        writtenTo fd x₀.hist ++ (w.foldl Typing.next x₀.state.typing).sent := by
  induction hrun with
  | start => exact ⟨⟨rfl, rfl, rfl⟩, hfd, (List.append_nil _).symm⟩
  | @byte w x y c rest polled hx hphase hstep ih =>
    obtain ⟨ht, hfdx, hwrit⟩ := ih (not_refused_of_suffix hno hstep.suffix)
    obtain ⟨s, h, _⟩ := x
    obtain rfl : _ = _ := hphase
    rw [List.foldl_append, List.foldl_cons, List.foldl_nil]
    generalize w.foldl Typing.next x₀.state.typing = t at ht hwrit ⊢
    cases hstep with
    | @typed _ s' _ h' _ _ _ _ hr =>
      obtain ⟨htnext, hsent⟩ := ht.next ((within_multiAttachedByte c s).result hr)
      refine ⟨htnext, ?_, ?_⟩
      · rw [← hfdx]
        exact (((within_multiAttachedByte c s).result hr).same.kept i).1
      · have hbyte : ¬Refused fd h h' := fun href =>
          hno (href.mono hx.suffix (List.suffix_refl _))
        obtain ⟨text, htext, rfl⟩ := conveys_multiAttachedByte hfdx hterm.2 c h h' s' hr hbyte
        rw [htext, hwrit, hsent, List.append_assoc]
  | @other w x y hx hidle hstep hfdy hatt ih =>
    obtain ⟨ht, hfdx, hwrit⟩ := ih (not_refused_of_suffix hno hstep.suffix)
    have hquiet := hstep.quieter hidle
    refine ⟨⟨hquiet.line.trans ht.line, hquiet.held.trans ht.held, ?_⟩, hfdy.trans hfdx, ?_⟩
    · rw [hatt]
      exact ht.attached
    · rw [← hwrit]
      exact writtenTo_of_prints hstep.suffix hterm fun ev hev => hstep.prints hidle hev


/-- **When the order is kept**: what is typed to an attached session arrives there in the order in
which it was typed, line feeds for carriage returns, exactly when none of the lines is muddled. -/
theorem attachedOrder_iff {x₀ y : MultiPoint} {w : Bytes} {t : Transport} {n : ℕ}
    (hrun : AttachedRun cfg interactive listener i x₀ w y)
    (hfd : (x₀.state.sessions i).fd = some (.conn t n)) (hatt : x₀.state.attachedId ≠ 0)
    (hline : x₀.state.attachedLine = []) (hheld : x₀.state.attachedLineHeld = true)
    (hbytes : ∀ c ∈ w, c ≠ 8 ∧ c ≠ 127 ∧ c ≠ 0x1d) (hends : EndsLine w)
    (hno : ¬Refused (.conn t n) x₀.hist y.hist) :
    writtenTo (.conn t n) y.hist = writtenTo (.conn t n) x₀.hist ++ w.map sentAs ↔
      ∀ line ∈ typedLines w, ¬Muddled line := by
  obtain ⟨-, -, hwrit⟩ := hrun.tracks hfd ⟨by simp, by simp⟩ hno
  have hplain : ∀ c ∈ w, Ordinary c ∨ isEnter c = true := by
    intro c hc
    cases henter : isEnter c with
    | true => exact .inr rfl
    | false => exact .inl ⟨henter, hbytes c hc⟩
  rw [hwrit, List.append_cancel_left_eq]
  exact foldl_typing hplain hends (decide_eq_true hatt) hheld hline rfl

/-! ### Two runs -/

/-- The bytes that are still to be handled, and for which slot. -/
def MultiPhase.ahead : MultiPhase → Option (ℕ × Bytes)
  | .typing (.attached i) rest _ => some (i, rest)
  | _ => none

theorem MultiPhase.ahead_eq_some {phase : MultiPhase} {rest : Bytes}
    (hp : phase.ahead = some (i, rest)) : ∃ polled, phase = .typing (.attached i) rest polled := by
  rcases phase with _ | _ | ⟨_ | _ | j, bytes, polled⟩ | _
  case typing.attached =>
    obtain ⟨rfl, rfl⟩ := Prod.mk.inj (Option.some.inj hp)
    exact ⟨polled, rfl⟩
  all_goals cases hp

/-- The run from where `w` was read to where it is handled. -/
theorem attachedRun_advances {env : Hist → (e : Sys) → Resp e} (henv : ∀ h e, Legal h e (env h e))
    {fuel : ℕ} {w : Bytes} {x y : MultiPoint} (hx : x.phase.ahead = some (i, w))
    (hy : x.advances cfg interactive listener env fuel w.length = some y) :
    AttachedRun cfg interactive listener i x w y := by
  suffices hgen : ∀ done x₀ x, AttachedRun cfg interactive listener i x₀ done x →
      x.phase.ahead = some (i, w) → x.advances cfg interactive listener env fuel w.length = some y →
      AttachedRun cfg interactive listener i x₀ (done ++ w) y from hgen [] x x .start hx hy
  clear hx hy
  induction w with
  | nil =>
    intro done x₀ x hrun _ hy
    obtain rfl := Option.some.inj hy
    rwa [List.append_nil]
  | cons c w ih =>
    intro done x₀ x hrun hx hy
    obtain ⟨x₁, hfst, hrest⟩ := Option.bind_eq_some_iff.mp hy
    obtain ⟨polled, hphase⟩ := MultiPhase.ahead_eq_some hx
    have hstep := MultiPoint.advance_step henv hfst
    have hx₁ : x₁.phase.ahead = some (i, w) := by
      obtain ⟨s, h, _⟩ := x
      obtain rfl : _ = _ := hphase
      cases hstep
      rfl
    have hnext := ih (done ++ [c]) x₀ x₁ (.byte hrun hphase hstep) hx₁ hrest
    rwa [List.append_assoc] at hnext

/-- A peer joins, the operator attaches it, and types `text`. -/
def attachedScript (text : Bytes) (h : Hist) : (e : Sys) → Resp e
  | .stop => false
  | .poll fds _ => .reporting fds (
      if pollCount h = 0 then [{ pollin := true }, .none] else [.none, { pollin := true }, .none])
  | .accept _ => .ok 7
  | .read _ .stdin _ _ len =>
      let typed := if pollCount h = 2 then lit ":attach 1\n" else text
      if hb : typed ≠ [] ∧ typed.length ≤ len then .data typed hb.1 hb.2 else .eof
  | .write _ _ buf => WriteRes.all buf
  | e => refuse e

/-- The listener after `n` steps of this. -/
def attachedPoint (text : Bytes) (n : ℕ) : Option MultiPoint :=
  MultiPoint.advances oneSession false (.sock .tcp 3) (lawful (attachedScript text)) 1000 n
    (multiStart [])

/-- The point where `text` was read, and the point where it is handled. -/
def attachedPoints (text : Bytes) : Option (MultiPoint × MultiPoint) :=
  (attachedPoint text 21).bind fun x =>
    (x.advances oneSession false (.sock .tcp 3) (lawful (attachedScript text)) 1000 text.length).map
      fun y => (x, y)

/-- The session is attached and nothing was typed to it, and then `text` was typed, no write was
refused, and `sent` arrived. -/
def arrives (text sent : Bytes) : Bool :=
  (attachedPoints text).any fun (x, y) =>
    x.phase.ahead = some (0, text) && (x.state.sessions 0).fd = some (.conn .tcp 7) &&
      x.state.attachedId ≠ 0 && x.state.attachedLine = [] && x.state.attachedLineHeld &&
      writtenTo (.conn .tcp 7) x.hist = [] && !y.hist.any (refuses (.conn .tcp 7)) &&
      writtenTo (.conn .tcp 7) y.hist = sent

theorem exists_attachedRun {text sent : Bytes} (hx : arrives text sent = true) :
    ∃ x₀ y, MultiSteps oneSession false (.sock .tcp 3) (multiStart []) x₀ ∧
      AttachedRun oneSession false (.sock .tcp 3) 0 x₀ text y ∧
      (x₀.state.sessions 0).fd = some (.conn .tcp 7) ∧ x₀.state.attachedId ≠ 0 ∧
      x₀.state.attachedLine = [] ∧ x₀.state.attachedLineHeld = true ∧
      ¬Refused (.conn .tcp 7) x₀.hist y.hist ∧ writtenTo (.conn .tcp 7) x₀.hist = [] ∧
      writtenTo (.conn .tcp 7) y.hist = sent := by
  obtain ⟨⟨x, y⟩, hpoints, hxy⟩ := (Option.any_eq_true _ _).mp hx
  obtain ⟨x', hx', hmap⟩ := Option.bind_eq_some_iff.mp hpoints
  obtain ⟨y', hy', heq⟩ := Option.map_eq_some_iff.mp hmap
  obtain ⟨rfl, rfl⟩ := Prod.mk.inj heq
  simp only [Bool.and_eq_true, decide_eq_true_eq, Bool.not_eq_true'] at hxy
  obtain ⟨⟨⟨⟨⟨⟨⟨hphase, hfd⟩, hatt⟩, hline⟩, hheld⟩, hnone⟩, hno⟩, hsent⟩ := hxy
  exact ⟨x', y', MultiPoint.advances_steps (legal_lawful _) hx',
    attachedRun_advances (legal_lawful _) hphase hy', hfd, hatt, hline, hheld,
    not_refused_of_any hno, hnone, hsent⟩

/-- A line of letters arrives as it was typed. -/
theorem attachedOrder_letters : typedLines (lit "hi\n") = [lit "hi"] ∧
    ∀ line ∈ typedLines (lit "hi\n"), ¬Muddled line := by
  refine ⟨by decide, ?_⟩
  obtain ⟨x₀, y, -, hrun, hfd, hatt, hline, hheld, hno, hbefore, hafter⟩ :=
    @exists_attachedRun (lit "hi\n") (lit "hi\n") (by decide +kernel)
  refine (attachedOrder_iff hrun hfd hatt hline hheld (by decide +kernel) (by decide +kernel) hno).mp ?_
  rw [hbefore, hafter]
  decide

/-- **A byte overtakes another one**: `b` is held back, since it may become `back`, and the byte `C3`
of a letter that is not ASCII is sent before it. -/
theorem not_attachedOrder : ∃ x₀ y, MultiSteps oneSession false (.sock .tcp 3) (multiStart []) x₀ ∧
    AttachedRun oneSession false (.sock .tcp 3) 0 x₀ (lit "b" ++ [0xc3] ++ lit "\n") y ∧
    (x₀.state.sessions 0).fd = some (.conn .tcp 7) ∧ x₀.state.attachedId ≠ 0 ∧
    x₀.state.attachedLine = [] ∧ x₀.state.attachedLineHeld = true ∧
    (∀ line ∈ typedLines (lit "b" ++ [0xc3] ++ lit "\n"),
      line ≠ lit "back" ∧ line ≠ lit ":back" ∧ line ≠ lit ":detach") ∧
    ¬Refused (.conn .tcp 7) x₀.hist y.hist ∧ writtenTo (.conn .tcp 7) x₀.hist = [] ∧
    writtenTo (.conn .tcp 7) y.hist ≠ (lit "b" ++ [0xc3] ++ lit "\n").map sentAs := by
  obtain ⟨x₀, y, hreach, hrun, hfd, hatt, hline, hheld, hno, hbefore, hafter⟩ :=
    @exists_attachedRun (lit "b" ++ [0xc3] ++ lit "\n") ([0xc3] ++ lit "b\n") (by decide +kernel)
  refine ⟨x₀, y, hreach, hrun, hfd, hatt, hline, hheld, by decide, hno, hbefore, ?_⟩
  rw [hafter]
  decide

end Wirecat
