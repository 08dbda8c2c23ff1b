import Wirecat.Labels
import Wirecat.Responsive
import Wirecat.Sessions
import Wirecat.Written

/-!
# The output of a session

What the listener reads from a session that is not attached it prints, with a label in front of
every line (`Wirecat.multiWriteOutput`). The text is `Wirecat.outputText`, and all that is known
of such texts from `Wirecat.labelText` holds of it: it does not depend on the chunks, the labels stand
where lines start, and without them there is what the session sent.

The function prints it piece by piece. What is followed through the pieces is the text that is
written so far, and how often it was tried to write (`Wirecat.Printed`); at any moment a beginning of
the text is written (`Wirecat.Printing`). So at the end there is all of it, unless a write is
refused.

A round of the function's loop uses up a piece of the chunk, so there is no infinite sequence of
rounds. Nor is there an infinite sequence of requests, except where the writes are interrupted for
ever: no more of them are not interrupted than there are bytes in the text.
-/

namespace Wirecat

open CString Interaction

variable {legal : Hist → (e : Sys) → Resp e → Prop} {fd : Fd} {h g g' : Hist} {x y z : Bytes}

/-! ### Printing a text -/

/-- A write to `fd` that no signal interrupted. -/
def attempt (fd : Fd) : Ev → Bool
  | ⟨.write _ _ _, .error .eintr⟩ => false
  | ⟨.write _ fd' _, _⟩ => fd' = fd
  | _ => false

/-- How often it was tried to write to `fd`. -/
def attempts (fd : Fd) (h : Hist) : ℕ := h.countP (attempt fd)

theorem attempts_cons_le (fd : Fd) (ev : Ev) (h : Hist) :
    attempts fd (ev :: h) ≤ attempts fd h + 1 := by
  rw [attempts, List.countP_cons]
  split_ifs
  · exact le_rfl
  · exact Nat.le_succ _

/-- The requests that write nothing to `fd`. -/
def NotTo (fd : Fd) : Sys → Prop
  | .write _ fd' _ => fd' ≠ fd
  | _ => True

theorem notTo_iff {e : Sys} : NotTo fd e ↔ ∀ via buf, e ≠ .write via fd buf := by
  cases e with
  | write via fd' buf =>
    refine ⟨?_, fun hne heq => hne via buf (by rw [heq])⟩
    rintro hne _ _ ⟨⟩
    exact hne rfl
  | _ => exact ⟨fun _ _ _ => by simp, fun _ => trivial⟩

theorem attempts_other {e : Sys} (he : NotTo fd e) (r : Resp e) (h : Hist) :
    attempts fd (⟨e, r⟩ :: h) = attempts fd h := by
  have hno : attempt fd ⟨e, r⟩ = false := by
    cases e with
    | write via fd' buf =>
      cases r with
      | wrote n hn => exact decide_eq_false he
      | error err => cases err <;> first | rfl | exact decide_eq_false he
    | _ => rfl
  rw [attempts, List.countP_cons_of_neg (by simp [hno])]
  rfl

/-- Since `h` the text was written to `fd`, in no more attempts than it has bytes. -/
structure Printed (fd : Fd) (h : Hist) (text : Bytes) (g : Hist) : Prop where
  suffix : h <:+ g
  written : writtenTo fd g = writtenTo fd h ++ text
  attempts : attempts fd g ≤ attempts fd h + text.length

/-- Since `h` a beginning of the text was written to `fd`, in no more attempts than the text has
bytes. -/
structure Printing (fd : Fd) (h : Hist) (text : Bytes) (g : Hist) : Prop where
  suffix : h <:+ g
  written : ∃ begun, begun <+: text ∧ writtenTo fd g = writtenTo fd h ++ begun
  attempts : attempts fd g ≤ attempts fd h + text.length

theorem Printed.nil (fd : Fd) (h : Hist) : Printed fd h [] h :=
  ⟨List.suffix_refl h, (List.append_nil _).symm, le_rfl⟩

theorem Printed.trans (hx : Printed fd h x g) (hy : Printed fd g y g') : Printed fd h (x ++ y) g' where
  suffix := hx.suffix.trans hy.suffix
  written := by rw [hy.written, hx.written, List.append_assoc]
  attempts := by
    have hfirst := hx.attempts
    have hsecond := hy.attempts
    rw [List.length_append]
    omega

theorem Printed.printing (hx : Printed fd h x g) (hy : Printing fd g y g') : Printing fd h (x ++ y) g' where
  suffix := hx.suffix.trans hy.suffix
  written := by
    obtain ⟨begun, hpre, hwritten⟩ := hy.written
    refine ⟨x ++ begun, (List.prefix_append_right_inj x).mpr hpre, ?_⟩
    rw [hwritten, hx.written, List.append_assoc]
  attempts := by
    have hfirst := hx.attempts
    have hsecond := hy.attempts
    rw [List.length_append]
    omega

theorem Printing.mono (hx : Printing fd h x g) (hpre : x <+: y) : Printing fd h y g where
  suffix := hx.suffix
  written := by
    obtain ⟨begun, hbegun, hwritten⟩ := hx.written
    exact ⟨begun, hbegun.trans hpre, hwritten⟩
  attempts := by
    have hle := hpre.length_le
    have hattempts := hx.attempts
    omega

theorem Printed.begun (hx : Printed fd h x g) (hpre : x <+: y) : Printing fd h y g :=
  Printing.mono ⟨hx.suffix, ⟨x, List.prefix_rfl, hx.written⟩, hx.attempts⟩ hpre

/-- Nothing is printed meanwhile. -/
theorem Printing.after (hx : Printing fd h x g) (hy : Printed fd g [] g') : Printing fd h x g' where
  suffix := hx.suffix.trans hy.suffix
  written := by
    obtain ⟨begun, hpre, hwritten⟩ := hx.written
    exact ⟨begun, hpre, by rw [hy.written, List.append_nil, hwritten]⟩
  attempts := hy.attempts.trans hx.attempts

/-- A part of the program that writes nothing to `fd`. -/
theorem always_notTo {α : Type} {p : Proc α} {Q : α → Prop} (hp : Within (NotTo fd) p Q) (h : Hist) :
    Always legal (Printed fd h []) p (fun a _ => Q a) h :=
  (hp.always (Printed.nil fd h) fun g _ r hg he _ => ⟨hg.suffix.trans (List.suffix_cons _ _),
    (writtenTo_other (notTo_iff.mp he)).trans hg.written,
    attempts_other he r g ▸ hg.attempts⟩).post_mono fun _ _ ha => ha.2

variable (legal fd) in
/-- **A part of the program that prints a text**: at any moment a beginning of it is written. At the
end all of it is, and `Q` holds of the result; or `F` holds, because a write was refused or because
of `why`. -/
def Outputs (why : Prop) {α : Type} (p : Proc α) (text : Bytes) (Q F : α → Prop) : Prop :=
  ∀ h, Always legal (Printing fd h text) p
    (fun a g => Q a ∧ Printed fd h text g ∨ F a ∧ (why ∨ Refused fd h g)) h

section
variable {why : Prop} {α β : Type} {p : Proc α} {f : α → Proc β} {Q F : α → Prop} {Q' F' : β → Prop}

/-- A part that prints nothing. -/
theorem Outputs.silent (hp : Within (NotTo fd) p Q) : Outputs legal fd why p [] Q F :=
  fun h => (always_notTo hp h).mono (fun _ hg => hg.begun List.prefix_rfl) fun _ _ hg ha => .inl ⟨ha, hg⟩

theorem Outputs.pure {a : α} (ha : Q a) : Outputs legal fd why (Pure.pure a) [] Q F :=
  Outputs.silent ha

/-- A failure for a reason that is known. -/
theorem Outputs.fails {a : α} (hwhy : why) (ha : F a) : Outputs legal fd why (Pure.pure a) x Q F :=
  fun h => always_pure.mpr ⟨(Printed.nil fd h).begun List.nil_prefix, .inr ⟨ha, .inl hwhy⟩⟩

/-- One part after another. After a failure nothing more is printed. -/
theorem Outputs.bind (hp : Outputs legal fd why p x Q F)
    (hf : ∀ a, Q a → Outputs legal fd why (f a) y Q' F')
    (hfail : ∀ a, F a → Within (NotTo fd) (f a) F') :
    Outputs legal fd why (p >>= f) (x ++ y) Q' F' := by
  intro h
  refine always_bind'.mpr ((hp h).mono (fun g hg => hg.mono (List.prefix_append x y)) ?_)
  rintro a g hsofar (⟨ha, hdone⟩ | ⟨ha, hbecause⟩)
  · refine (hf a ha g).mono (fun g' hg' => hdone.printing hg') ?_
    rintro b g' hsofar' (⟨hb, hdone'⟩ | ⟨hb, hbecause⟩)
    · exact .inl ⟨hb, hdone.trans hdone'⟩
    · exact .inr ⟨hb, hbecause.imp_right fun href => href.mono hdone.suffix (List.suffix_refl _)⟩
  · refine (always_notTo (hfail a ha) g).mono (fun g' hg' => ?_) fun b g' hg' hb => ?_
    · exact (hsofar.after hg').mono (List.prefix_append x y)
    · exact .inr ⟨hb,
        hbecause.imp_right fun href => href.mono (List.suffix_refl h) hg'.suffix⟩

/-- What is done with the result prints nothing. -/
theorem Outputs.finish (hp : Outputs legal fd why p x Q F)
    (hf : ∀ a, Q a → Within (NotTo fd) (f a) Q') (hfail : ∀ a, F a → Within (NotTo fd) (f a) F') :
    Outputs legal fd why (p >>= f) x Q' F' := by
  rw [← List.append_nil x]
  exact hp.bind (fun a ha => Outputs.silent (hf a ha)) hfail

/-- What is done before prints nothing. -/
theorem Outputs.next {p : Proc α} {f : α → Proc β} (hp : Within (NotTo fd) p fun _ => True)
    (hf : ∀ a, Outputs legal fd why (f a) x Q' F') : Outputs legal fd why (p >>= f) x Q' F' :=
  Outputs.bind (Q := fun _ => True) (F := fun _ => False) (Outputs.silent hp) (fun a _ => hf a)
    fun _ ha => absurd ha id

theorem Outputs.mono {Q₁ F₁ : α → Prop} (hp : Outputs legal fd why p x Q F)
    (hQ : ∀ a, Q a → Q₁ a) (hF : ∀ a, F a → F₁ a) : Outputs legal fd why p x Q₁ F₁ :=
  fun h => (hp h).post_mono fun a _ ha => ha.imp (And.imp_left (hQ a)) (And.imp_left (hF a))

/-- **A loop that prints a text** piece by piece: a round that goes on has printed a piece of it, and
one that leaves the rest. `I` says what is still to be printed at the head of a round. -/
theorem Outputs.loop {σ : Type} {body : σ → Proc (σ ⊕ α)} {s : σ} (I : σ → Bytes → Prop) (h0 : I s x)
    (hbody : ∀ s text, I s text → ∃ piece rest, text = piece ++ rest ∧
      Outputs legal fd why (body s) piece
        (fun r => r.elim (fun s' => I s' rest) fun a => Q a ∧ rest = [])
        fun r => r.elim (fun _ => False) F) :
    Outputs legal fd why (Prog.loop body s) x Q F := by
  intro h
  refine Always.loop (fun s g => ∃ done rest, x = done ++ rest ∧ I s rest ∧ Printed fd h done g)
    ⟨[], x, rfl, h0, Printed.nil fd h⟩ ?_
  rintro s g ⟨done, text, rfl, hI, hdone⟩
  obtain ⟨piece, rest, rfl, hround⟩ := hbody s text hI
  refine (hround g).mono (fun g' hg' => ?_) ?_
  · exact (hdone.printing hg').mono ((List.prefix_append_right_inj done).mpr (List.prefix_append _ _))
  · rintro (s' | a) g' hsofar (⟨hr, hdone'⟩ | ⟨hr, hbecause⟩)
    · exact ⟨done ++ piece, rest, (List.append_assoc _ _ _).symm, hr, hdone.trans hdone'⟩
    · exact absurd hr id
    · obtain ⟨ha, rfl⟩ := hr
      rw [List.append_nil]
      exact .inl ⟨ha, hdone.trans hdone'⟩
    · exact .inr ⟨hr, hbecause.imp_right fun href => href.mono hdone.suffix (List.suffix_refl _)⟩

/-- **The loop over a list** of parts that print, until one is refused. -/
theorem Outputs.forEach {ι : Type} {f : ι → α → Proc α} (I : List ι → α → Bytes → Prop)
    (hf : ∀ i is a text, I (i :: is) a text → ∃ piece rest, text = piece ++ rest ∧
      Outputs legal fd why (f i a) piece (fun b => I is b rest) F)
    (hfail : ∀ i a, F a → f i a = Pure.pure a) (hend : ∀ a text, I [] a text → Q a ∧ text = [])
    {is : List ι} {a : α} (h0 : I is a x) : Outputs legal fd why (Prog.forEach is f a) x Q F := by
  induction is generalizing a x with
  | nil =>
    obtain ⟨ha, rfl⟩ := hend a x h0
    exact Outputs.pure ha
  | cons i is ih =>
    obtain ⟨piece, rest, rfl, hround⟩ := hf i is a x h0
    have hstop : ∀ (is : List ι) a, F a → Prog.forEach is f a = Pure.pure a := by
      intro is a ha
      induction is with
      | nil => rfl
      | cons i is ih =>
        change (f i a).bind _ = _
        rw [hfail i a ha]
        exact ih
    refine Outputs.bind hround (fun b hb => ih hb) fun b hb => ?_
    rw [hstop is b hb]
    exact hb

end

/-- **A whole write** prints its text. -/
theorem outputs_wcatFullWrite {why : Prop} (via : Via) (buf : Bytes) :
    Outputs legal fd why (wcatFullWrite via fd buf) buf (fun n => n = some buf.length)
      fun n => n ≠ some buf.length := by
  intro h
  have hloop : Always legal (Printing fd h buf) (wcatFullWrite via fd buf)
      (fun n g => n = some buf.length → Printed fd h buf g) h := by
    refine Always.loop (fun off g => off ≤ buf.length ∧ h <:+ g ∧
      writtenTo fd g = writtenTo fd h ++ buf.take off ∧ attempts fd g ≤ attempts fd h + off)
      ⟨Nat.zero_le _, List.suffix_refl h, by simp, le_rfl⟩ ?_
    rintro off g ⟨hoff, hsuf, hw, hcount⟩
    have hnow : Printing fd h buf g :=
      ⟨hsuf, ⟨_, List.take_prefix off buf, hw⟩, by omega⟩
    refine Always.ite (fun hlt => Always.ask hnow fun r _ => ?_) fun hge => ?_
    · have hsuf' : h <:+ (⟨.write via fd (buf.drop off), r⟩ :: g : Hist) :=
        hsuf.trans (List.suffix_cons _ _)
      have hcount' := attempts_cons_le fd ⟨.write via fd (buf.drop off), r⟩ g
      -- an attempt is made for a byte that is not written yet
      have hmade : attempts fd (⟨.write via fd (buf.drop off), r⟩ :: g) ≤
          attempts fd h + buf.length := by
        omega
      rcases r with ⟨_ | n, hle⟩ | err
      · refine always_pure.mpr ⟨⟨hsuf', ⟨_, List.take_prefix off buf, ?_⟩, hmade⟩, fun heq => ?_⟩
        · rw [writtenTo, if_pos rfl, List.take_zero, List.append_nil, hw]
        · exact absurd (Option.some.inj heq) hlt.ne
      · rw [List.length_drop] at hle
        have hw' : writtenTo fd (⟨.write via fd (buf.drop off), .wrote (n + 1) (by simp; omega)⟩ :: g) =
            writtenTo fd h ++ buf.take (off + (n + 1)) := by
          rw [writtenTo, if_pos rfl, hw, List.append_assoc, ← List.take_add]
        exact always_pure.mpr ⟨⟨hsuf', ⟨_, List.take_prefix _ buf, hw'⟩, hmade⟩, by omega, hsuf', hw',
          by omega⟩
      · have hnow' : Printing fd h buf (⟨.write via fd (buf.drop off), .error err⟩ :: g) :=
          ⟨hsuf', ⟨_, List.take_prefix off buf, hw⟩, hmade⟩
        cases err
        case eintr =>
          exact (always_pure (a := Sum.inl off)).mpr ⟨hnow', hoff, hsuf', hw, hcount⟩
        all_goals
          exact (always_pure (a := Sum.inr none) (Q := roundPost _ _)).mpr
            ⟨hnow', fun heq => absurd heq (by simp)⟩
    · have hfull : off = buf.length := by omega
      subst hfull
      rw [List.take_length] at hw
      exact always_pure.mpr ⟨hnow, fun _ => ⟨hsuf, hw, hcount⟩⟩
  intro g o hr
  refine ⟨hloop.safe hr, ?_⟩
  rintro n rfl
  by_cases hn : n = some buf.length
  · exact .inl ⟨hn, hloop.post hr hn⟩
  · exact .inr ⟨hn, .inr (wcatFullWrite_refused hr hn)⟩

/-! ### The text of a session -/

/-- What is printed for the bytes of a session: its label in front of every line, and the bytes. -/
def outputText (session : MultiSession) (x : Bytes) : Bytes :=
  labelText (outputPrefix session) (fun c => [c]) session.lineStart x

/-- The same, and of every byte whether it belongs to a label. -/
def outputMarked (session : MultiSession) (x : Bytes) : List (Bool × UInt8) :=
  labelMarked (outputPrefix session) (fun c => [c]) session.lineStart x

/-- The session when these bytes have been printed. -/
def MultiSession.printed (session : MultiSession) (x : Bytes) : MultiSession :=
  { session with lineStart := lineStartAfter session.lineStart x }

theorem printed_append (session : MultiSession) (x y : Bytes) :
    session.printed (x ++ y) = (session.printed x).printed y := by
  rw [MultiSession.printed, lineStartAfter_append]
  rfl

theorem outputText_append (session : MultiSession) (x y : Bytes) :
    outputText session (x ++ y) = outputText session x ++ outputText (session.printed x) y :=
  labelText_append _ _ _ x y

/-- Of a piece in which no line starts but the first. -/
theorem outputText_piece {session : MultiSession} (hx : x ≠ []) (hnl : chr '\n' ∉ x.dropLast) :
    outputText session x = (if session.lineStart then outputPrefix session else []) ++ x := by
  have hline : ∀ x : Bytes, chr '\n' ∉ x.dropLast →
      labelText (outputPrefix session) (fun c => [c]) false x = x := by
    intro x
    induction x with
    | nil => exact fun _ => rfl
    | cons c x ih =>
      intro hnl
      cases x with
      | nil => rfl
      | cons d x =>
        rw [List.dropLast_cons_cons, List.mem_cons, not_or] at hnl
        rw [labelText, decide_eq_false (Ne.symm hnl.1), ih hnl.2, if_neg (by simp)]
        rfl
  obtain ⟨c, x, rfl⟩ := List.exists_cons_of_ne_nil hx
  rw [outputText, labelText]
  cases x with
  | nil => exact List.append_nil _
  | cons d x =>
    rw [List.dropLast_cons_cons, List.mem_cons, not_or] at hnl
    rw [decide_eq_false (Ne.symm hnl.1), hline _ hnl.2, List.append_assoc]
    rfl

/-- A piece of a chunk ends where the line does, or the chunk. -/
theorem outputPiece_cut (buf : Bytes) : (outputPiece buf).1 ++ (outputPiece buf).2 = buf ∧
    chr '\n' ∉ (outputPiece buf).1.dropLast ∧ (buf ≠ [] → (outputPiece buf).1 ≠ []) := by
  rw [outputPiece]
  cases hsplit : splitFirst (chr '\n') buf with
  | none =>
    have hnl := splitFirst_eq_none.mp hsplit
    exact ⟨List.append_nil buf, fun hmem => hnl (List.mem_of_mem_dropLast hmem), fun hne => hne⟩
  | some p =>
    obtain ⟨line, rest⟩ := p
    obtain ⟨rfl, hnl⟩ := splitFirst_eq_some.mp hsplit
    exact ⟨by simp, by simpa using hnl, by simp⟩

theorem length_outputPiece {buf : Bytes} (hbuf : ¬buf.isEmpty = true) :
    (outputPiece buf).2.length < buf.length := by
  obtain ⟨hcut, -, hpiece⟩ := outputPiece_cut buf
  have hpos := List.length_pos_iff.mpr (hpiece (by simpa using hbuf))
  have hlen := congrArg List.length hcut
  rw [List.length_append] at hlen
  omega

/-! ### The function -/

theorem multiWriteOutput_eq (session : MultiSession) (buf : Bytes) :
    multiWriteOutput session buf false = Prog.loop multiOutputRound (session, buf) := rfl

section
variable {session : MultiSession} {buf : Bytes}

/-- The label is printed where a line starts, if it fits its array. -/
theorem outputs_label : Outputs legal .stdout (192 ≤ (outputPrefix session).length)
    (if session.lineStart then
        if 192 ≤ (outputPrefix session).length then pure false
        else wcatFullWrite .multi .stdout (outputPrefix session) >>= fun n =>
          pure (decide (n = some (outputPrefix session).length))
      else pure true) (if session.lineStart then outputPrefix session else [])
    (fun ok => ok = true) fun ok => ok = false := by
  cases session.lineStart with
  | false => exact Outputs.pure rfl
  | true =>
    rw [if_pos rfl, if_pos rfl]
    by_cases hlong : 192 ≤ (outputPrefix session).length
    · rw [if_pos hlong]
      exact Outputs.fails hlong rfl
    · rw [if_neg hlong]
      refine (outputs_wcatFullWrite .multi _).finish (fun n hn => ?_) fun n hn => ?_
      · exact decide_eq_true hn
      · exact decide_eq_false hn

/-- **A round** prints a piece of what there is to print. -/
theorem outputs_round (hbuf : buf ≠ []) :
    Outputs legal .stdout (192 ≤ (outputPrefix session).length) (multiOutputRound (session, buf))
      (outputText session (outputPiece buf).1)
      (fun r => r = .inl (session.printed (outputPiece buf).1, (outputPiece buf).2))
      fun r => r.elim (fun _ => False) fun r => r.2 = false ∧ ∃ b, r.1 = { session with lineStart := b } := by
  obtain ⟨-, hnl, hpiece⟩ := outputPiece_cut buf
  have hempty : ¬buf.isEmpty = true := by simpa using hbuf
  have hline : decide ((outputPiece buf).1.getLast? = some (chr '\n')) =
      lineStartAfter session.lineStart (outputPiece buf).1 := by
    rw [lineStartAfter, List.getLast?_eq_some_getLast (hpiece hbuf)]
    exact decide_eq_decide.mpr Option.some_inj
  rw [outputText_piece (hpiece hbuf) hnl, multiOutputRound, if_neg hempty]
  refine outputs_label.bind (fun ok hok => ?_) fun ok hok => ?_
  · subst hok
    refine (outputs_wcatFullWrite .multi _).finish (fun n hn => ?_) fun n hn => ?_
    · refine Within.ite (fun hne => absurd hn hne) fun _ => ?_
      show Sum.inl _ = Sum.inl _
      rw [MultiSession.printed, ← hline]
      rfl
    · exact Within.ite (fun _ => ⟨rfl, _, rfl⟩) fun heq => absurd hn heq
  · subst hok
    exact ⟨rfl, _, rfl⟩

/-- **A chunk** is printed, with its labels. -/
theorem outputs_multiWriteOutput (buf : Bytes) :
    Outputs legal .stdout (192 ≤ (outputPrefix session).length) (multiWriteOutput session buf false)
      (outputText session buf) (fun r => r = (session.printed buf, true))
      fun r => r.2 = false ∧ ∃ b, r.1 = { session with lineStart := b } := by
  rw [multiWriteOutput_eq]
  refine Outputs.loop (fun s text => ∃ done, buf = done ++ s.2 ∧ s.1 = session.printed done ∧
    text = outputText s.1 s.2) ⟨[], rfl, rfl, rfl⟩ ?_
  rintro ⟨session', rest⟩ _ ⟨done, rfl, rfl, rfl⟩
  by_cases hrest : rest = []
  · subst hrest
    refine ⟨[], [], rfl, Outputs.pure ⟨?_, rfl⟩⟩
    rw [List.append_nil]
  · obtain ⟨hsplit, -, -⟩ := outputPiece_cut rest
    refine ⟨_, outputText ((session.printed done).printed (outputPiece rest).1) (outputPiece rest).2,
      by rw [← outputText_append, hsplit], ?_⟩
    have hround := @outputs_round legal (session.printed done) rest hrest
    refine hround.mono ?_ fun _ hr => hr
    rintro _ rfl
    refine ⟨done ++ (outputPiece rest).1, ?_, (printed_append _ _ _).symm, rfl⟩
    rw [List.append_assoc, hsplit]

end

/-! ### One chunk after another -/

/-- The calls for the chunks of a session, until one fails. -/
def multiWriteChunks (session : MultiSession) (chunks : List Bytes) : Proc (MultiSession × Bool) :=
  Prog.forEach chunks (fun chunk r =>
    if r.2 then multiWriteOutput r.1 chunk false else pure r) (session, true)

/-- **Chunks** are printed as the stream they are cut from. -/
theorem outputs_multiWriteChunks (session : MultiSession) (chunks : List Bytes) :
    Outputs legal .stdout (192 ≤ (outputPrefix session).length) (multiWriteChunks session chunks)
      (outputText session chunks.flatten) (fun r => r = (session.printed chunks.flatten, true))
      fun r => r.2 = false := by
  refine Outputs.forEach (fun more r text => ∃ done, chunks.flatten = done ++ more.flatten ∧
    r = (session.printed done, true) ∧ text = outputText (session.printed done) more.flatten)
    ?_ ?_ ?_ ⟨[], rfl, rfl, rfl⟩
  · rintro chunk more _ _ ⟨done, hall, rfl, rfl⟩
    refine ⟨outputText (session.printed done) chunk,
      outputText ((session.printed done).printed chunk) more.flatten,
      by rw [List.flatten_cons, outputText_append], ?_⟩
    have hcall := @outputs_multiWriteOutput legal (session.printed done) chunk
    rw [if_pos rfl]
    refine hcall.mono ?_ fun _ hr => hr.1
    rintro _ rfl
    refine ⟨done ++ chunk, ?_, ?_, ?_⟩
    · rw [hall, List.flatten_cons, List.append_assoc]
    · rw [printed_append]
    · rw [printed_append]
  · intro chunk r hr
    exact if_neg (by simp [hr])
  · rintro _ _ ⟨done, hall, rfl, rfl⟩
    rw [List.flatten_nil, List.append_nil] at hall
    exact ⟨by rw [hall], rfl⟩

/-- **A round uses up a piece of the chunk.** -/
theorem length_round {session session' : MultiSession} {buf rest : Bytes}
    (hr : Runs legal (multiOutputRound (session, buf)) h g (some (.inl (session', rest)))) :
    rest.length < buf.length := by
  have hround : Within (R := Resp) (fun _ => True) (multiOutputRound (session, buf))
      fun r => ∀ s ∈ r.getLeft?, s.2.length < buf.length := by
    refine Within.ite (fun _ s hs => by simp at hs) fun hbuf => ?_
    refine Within.next (Within.all _) fun ok => Within.ite (fun _ s hs => by simp at hs) fun _ => ?_
    refine Within.next (Within.all _) fun n => Within.ite (fun _ s hs => by simp at hs) fun _ => ?_
    rintro s ⟨⟩
    exact length_outputPiece hbuf
  exact hround.result hr (session', rest) rfl

/-- **A call returns**, since every round of its loop uses up a piece of the chunk. -/
theorem returns_multiWriteOutput (ha : Answering legal) (session : MultiSession) (chunk : Bytes) :
    Returns legal (multiWriteOutput session chunk false) fun _ => True := by
  refine Returns.loop (fun s => s.2.length) (fun ⟨session, buf⟩ => ?_) (session, chunk)
  have hlabel : Returns legal (if session.lineStart then
        if 192 ≤ (outputPrefix session).length then pure false
        else wcatFullWrite .multi .stdout (outputPrefix session) >>= fun n =>
          pure (decide (n = some (outputPrefix session).length))
      else pure true) fun _ => True :=
    Returns.ite (fun _ => Returns.ite (fun _ => returns_pure trivial) fun _ =>
      (returns_wcatFullWrite ha _ _ _).bind' fun _ _ => returns_pure trivial)
      fun _ => returns_pure trivial
  refine Returns.ite (fun _ => returns_pure trivial) fun hbuf => hlabel.bind' fun ok _ =>
    Returns.ite (fun _ => returns_pure trivial) fun _ => ?_
  refine (returns_wcatFullWrite ha _ _ _).bind' fun n _ =>
    Returns.ite (fun _ => returns_pure trivial) fun _ => returns_pure ?_
  exact length_outputPiece hbuf

/-- **The output of a session**, whatever chunks its stream is read in. -/
structure OutputRendering (session : MultiSession) : Prop where
  /-- The calls print the text of the stream, or a write was refused. -/
  printed : ∀ chunks h g r, Runs Legal (multiWriteChunks session chunks) h g (some r) →
    r = (session.printed chunks.flatten, true) ∧
        writtenTo .stdout g = writtenTo .stdout h ++ outputText session chunks.flatten ∨
      r.2 = false ∧ Refused .stdout h g
  /-- At any moment a beginning of it is printed, in no more attempts than it has bytes. -/
  begun : ∀ chunks h g o, Runs Legal (multiWriteChunks session chunks) h g o →
    Printing .stdout h (outputText session chunks.flatten) g
  /-- How the stream is cut does not matter. -/
  split : ∀ chunks chunks' h g r h' g' r', chunks.flatten = chunks'.flatten →
    Runs Legal (multiWriteChunks session chunks) h g (some r) →
    Runs Legal (multiWriteChunks session chunks') h' g' (some r') → r.2 = true → r'.2 = true →
    r = r' ∧ ∃ text, writtenTo .stdout g = writtenTo .stdout h ++ text ∧
      writtenTo .stdout g' = writtenTo .stdout h' ++ text
  /-- Every line that is started has its label in front, and there are no other labels. -/
  labels : ∀ x, (outputMarked session x).map Prod.snd = outputText session x ∧
    outputMarked session x = linesLabelled (outputPrefix session) (fun c => [c]) session.lineStart
      (startedLines x) ∧ CutIntoLines x (startedLines x)
  /-- Without the labels there is the stream. -/
  unlabelled : ∀ x, ((outputMarked session x).filter fun c => !c.1).map Prod.snd = x
  /-- A call returns, in every environment that answers. -/
  returns : ∀ legal, Answering legal → ∀ chunk,
    Returns legal (multiWriteOutput session chunk false) fun _ => True
  /-- Its loop does not go round for ever, whatever the answers are. -/
  ends : ∀ f : ℕ → (MultiSession × Bytes) × Hist, ¬∀ n,
    Runs Legal (multiOutputRound (f n).1) (f n).2 (f (n + 1)).2 (some (.inl (f (n + 1)).1))

/-- **The output of a session** is its stream with its label in front of every line, if the label fits
its array. -/
theorem outputRendering (session : MultiSession) (hfits : (outputPrefix session).length < 192) :
    OutputRendering session := by
  have hprinted : ∀ chunks h g r, Runs Legal (multiWriteChunks session chunks) h g (some r) →
      r = (session.printed chunks.flatten, true) ∧
          writtenTo .stdout g = writtenTo .stdout h ++ outputText session chunks.flatten ∨
        r.2 = false ∧ Refused .stdout h g := by
    intro chunks h g r hr
    exact ((outputs_multiWriteChunks session chunks h).post hr).imp (And.imp_right Printed.written)
      (And.imp_right fun hwhy => hwhy.resolve_left (by omega))
  refine ⟨hprinted, ?_, ?_, ?_, ?_, fun _ ha chunk => returns_multiWriteOutput ha session chunk, ?_⟩
  · exact fun chunks h g o hr => (outputs_multiWriteChunks session chunks h).safe hr
  · intro chunks chunks' h g r h' g' r' hsame hr hr' hok hok'
    rcases hprinted chunks h g r hr with ⟨rfl, hw⟩ | ⟨hfail, -⟩
    · rcases hprinted chunks' h' g' r' hr' with ⟨rfl, hw'⟩ | ⟨hfail, -⟩
      · rw [hsame]
        exact ⟨rfl, _, hsame ▸ hw, hw'⟩
      · exact absurd hok' (by simp [hfail])
    · exact absurd hok (by simp [hfail])
  · exact fun x => ⟨labelMarked_text _ _ _ x, labelMarked_lines _ _ _ x, startedLines_cut x⟩
  · intro x
    rw [outputMarked, labelMarked_unlabelled]
    exact List.flatMap_pure_eq_map id x ▸ List.map_id x
  · intro f hf
    have hle : ∀ n, (f n).1.2.length + n ≤ (f 0).1.2.length := by
      intro n
      induction n with
      | zero => exact le_rfl
      | succ n ih =>
        have hshort : (f (n + 1)).1.2.length < (f n).1.2.length := length_round (hf n)
        omega
    have hlast := hle ((f 0).1.2.length + 1)
    omega

/-- The rest of a line, an empty line, and the beginning of another. -/
example : outputText { multiSessionInit with id := 2, host := lit "h", port := lit "1", lineStart := false }
    (lit "a\n\nb") = lit "a\n[session2 peer h:1] \n[session2 peer h:1] b" := by decide +kernel

/-- The label of a peer on the same machine fits. -/
theorem outputRendering_local : OutputRendering
    { multiSessionInit with id := 1, host := lit "127.0.0.1", port := lit "40000" } :=
  outputRendering _ (by decide)

end Wirecat
