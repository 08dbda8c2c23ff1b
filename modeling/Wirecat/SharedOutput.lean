import Wirecat.HttpProbe
import Wirecat.Output
import Wirecat.Transcript

/-!
# Who said what on standard output

All sessions of the listener share one standard output, and the label in front of a line says
whose line it is. In the transcript of a run (`Wirecat.ListenRun`) every byte that was printed
carries the session it was printed for, and whether it is a byte of the label or was received. A
line is that of session `N` when it is the label of `N`, followed by bytes received from `N`
(`Wirecat.OwnLine`).

The code keeps for every session whether a line of *its* output starts, while the line that
matters is the one on standard output. So a line of one session that is not finished is continued
by whichever session is printed next. The lines are all of one session each when that does not
happen (`Wirecat.InTurn`): standard output is at the start of a line whenever a session is printed
that is not in the middle of a line itself. What is then carried along a run (`Wirecat.Speaking`) is
that only the session whose line is not finished is in the middle of a line.
-/

namespace Wirecat

open CString Interaction Transcript

/-! ### Lines with an owner -/

/-- A byte on standard output: the session it was printed for, whether it belongs to the label, and
the byte. -/
abbrev Symbol := (SessionRow × Bool) × UInt8

/-- The label of a session. -/
def rowLabel (row : SessionRow) : Bytes :=
  lit "[session" ++ decimal row.id ++ lit " " ++ row.label ++ lit " " ++ row.host ++ lit ":" ++
    row.port ++ lit "] "

theorem rowLabel_ne_nil (row : SessionRow) : rowLabel row ≠ [] := by
  intro hnil
  have hlen := congrArg List.length hnil
  have hopen : (lit "[session").length = 8 := by decide
  simp only [rowLabel, List.length_append, List.length_nil] at hlen
  omega

/-- What is printed for bytes of a session, with a label where a line starts. -/
def spokenAs (row : SessionRow) (lineStart : Bool) (x : Bytes) : List Symbol :=
  (labelMarked (rowLabel row) (fun c => [c]) lineStart x).map fun m => ((row, m.1), m.2)

/-- The same, of the session in the table. -/
def symbolsOf (session : MultiSession) (x : Bytes) : List Symbol :=
  spokenAs session.row session.lineStart x

theorem symbolsOf_text (session : MultiSession) (x : Bytes) :
    (symbolsOf session x).map Prod.snd = outputText session x := by
  rw [symbolsOf, spokenAs, List.map_map, outputText, ← labelMarked_text]
  rfl

/-- The bytes of a label. -/
def labelSymbols (row : SessionRow) : List Symbol := (rowLabel row).map (Prod.mk (row, true))

theorem spokenAs_cons (row : SessionRow) (lineStart : Bool) (c : UInt8) (x : Bytes) :
    spokenAs row lineStart (c :: x) = (if lineStart then labelSymbols row else []) ++
      ((row, false), c) :: spokenAs row (c = chr '\n') x := by
  rw [spokenAs, labelMarked, List.map_append, List.map_append]
  cases lineStart
  · rfl
  · rw [if_pos rfl, if_pos rfl, marked, List.map_map, List.append_assoc]
    rfl

/-- **A line of session `id`**: its label, and then bytes that were received from it. -/
def OwnLine (id : ℕ) (line : List Symbol) : Prop :=
  ∃ row body, row.id = id ∧ line = labelSymbols row ++ body ∧ ∀ c ∈ body, c.1.1.id = id ∧ c.1.2 = false

theorem OwnLine.ne_nil {id : ℕ} {line : List Symbol} (ho : OwnLine id line) : line ≠ [] := by
  obtain ⟨row, body, -, rfl, -⟩ := ho
  intro hnil
  exact rowLabel_ne_nil row (List.map_eq_nil_iff.mp (List.append_eq_nil_iff.mp hnil).1)

theorem OwnLine.owner {id : ℕ} {line : List Symbol} (ho : OwnLine id line) :
    ∀ c ∈ line, c.1.1.id = id := by
  obtain ⟨row, body, hid, rfl, hbody⟩ := ho
  intro c hc
  rcases List.mem_append.mp hc with hc | hc
  · obtain ⟨b, -, rfl⟩ := List.mem_map.mp hc
    exact hid
  · exact (hbody c hc).1

/-- A line has one owner. -/
theorem OwnLine.unique {id id' : ℕ} {line : List Symbol} (ho : OwnLine id line)
    (ho' : OwnLine id' line) : id = id' := by
  obtain ⟨c, hc⟩ := List.exists_mem_of_ne_nil _ ho.ne_nil
  rw [← ho.owner c hc, ho'.owner c hc]

/-- A line goes on with a byte of its session. -/
theorem OwnLine.snoc {row : SessionRow} {line : List Symbol} (ho : OwnLine row.id line) (c : UInt8) :
    OwnLine row.id (line ++ [((row, false), c)]) := by
  obtain ⟨row', body, hid, rfl, hbody⟩ := ho
  refine ⟨row', body ++ [((row, false), c)], hid, List.append_assoc _ _ _, fun b hb => ?_⟩
  rcases List.mem_append.mp hb with hb | hb
  · exact hbody b hb
  · rw [List.mem_singleton.mp hb]
    exact ⟨rfl, rfl⟩

theorem ownLine_label (row : SessionRow) : OwnLine row.id (labelSymbols row) :=
  ⟨row, [], rfl, (List.append_nil _).symm, by simp⟩

/-- The lines of a transcript end at line feeds. -/
abbrev nl : UInt8 := chr '\n'

/-- Where a session is when it is printed: at the start of a line, or in the middle of one of its
own. -/
def Stands (row : SessionRow) (lineStart : Bool) (cur : List Symbol) : Prop :=
  if lineStart then cur = [] else OwnLine row.id cur

/-- **A turn of a session**: the lines that it finishes are its own, and it stops at the start of a line
or in the middle of one of its own. -/
theorem ownLines_spokenAs {row : SessionRow} (hlabel : nl ∉ rowLabel row) {lineStart : Bool}
    {cur : List Symbol} (hcur : Stands row lineStart cur) (x : Bytes) :
    (∀ line ∈ finished nl cur (spokenAs row lineStart x), OwnLine row.id line) ∧
      Stands row (lineStartAfter lineStart x) (unfinished nl cur (spokenAs row lineStart x)) := by
  induction x generalizing lineStart cur with
  | nil => exact ⟨by simp [spokenAs, labelMarked, finished], hcur⟩
  | cons c x ih =>
    -- behind the label the line is the session's own
    obtain ⟨begun, hbegun, hown⟩ : ∃ begun, OwnLine row.id begun ∧ ∀ t,
        finished nl cur ((if lineStart then labelSymbols row else []) ++ t) = finished nl begun t ∧
        unfinished nl cur ((if lineStart then labelSymbols row else []) ++ t) =
          unfinished nl begun t := by
      cases lineStart with
      | false => exact ⟨cur, hcur, fun t => ⟨rfl, rfl⟩⟩
      | true =>
        obtain rfl : cur = [] := hcur
        have hno : ∀ c ∈ labelSymbols row, c.2 ≠ nl := by
          intro c hc heq
          obtain ⟨b, hb, rfl⟩ := List.mem_map.mp hc
          exact hlabel (heq ▸ hb)
        refine ⟨labelSymbols row, ownLine_label row, fun t => ?_⟩
        rw [if_pos rfl, finished_append, unfinished_append, finished_of_no_newline hno,
          unfinished_of_no_newline hno]
        exact ⟨rfl, rfl⟩
    have hnext := hbegun.snoc c
    rw [spokenAs_cons, (hown _).1, (hown _).2, lineStartAfter_cons, finished, unfinished]
    by_cases hc : c = nl
    · rw [if_pos hc, if_pos hc, decide_eq_true hc]
      obtain ⟨hlines, hstands⟩ := @ih true [] rfl
      exact ⟨List.forall_mem_cons.mpr ⟨hnext, hlines⟩, hstands⟩
    · rw [if_neg hc, if_neg hc, decide_eq_false hc]
      exact ih hnext

/-- A beginning of a text: the line it stops in is the beginning of a line of the text. -/
theorem unfinished_begun (cur t u : List Symbol) :
    (∃ line ∈ finished nl cur (t ++ u), unfinished nl cur t <+: line) ∨
      unfinished nl cur t <+: unfinished nl cur (t ++ u) := by
  rw [finished_append, unfinished_append]
  generalize unfinished nl cur t = d
  generalize finished nl cur t = before
  induction u generalizing d with
  | nil => exact .inr List.prefix_rfl
  | cons c u ih =>
    rw [finished, unfinished]
    by_cases hc : c.2 = nl
    · rw [if_pos hc]
      exact .inl ⟨d ++ [c], by simp, List.prefix_append _ _⟩
    · rw [if_neg hc, if_neg hc]
      refine (ih (d ++ [c])).imp ?_ fun hpre => (List.prefix_append _ _).trans hpre
      rintro ⟨line, hline, hpre⟩
      exact ⟨line, hline, (List.prefix_append _ _).trans hpre⟩

/-! ### Steps that print nothing -/

/-- No session is connected to standard output. -/
def OffStdout (s : MultiState) : Prop := ∀ i, (s.sessions i).fd ≠ some .stdout

/-- Nothing was printed: every session is gone, or new, or where it was. -/
def Unprinted (s s' : MultiState) : Prop := ∀ i,
  (s'.sessions i).fd = none ∨
    ((s'.sessions i).fd ≠ some .stdout ∧ (s'.sessions i).lineStart = true) ∨
    ((s'.sessions i).fd = (s.sessions i).fd ∧ (s'.sessions i).id = (s.sessions i).id ∧
      (s'.sessions i).lineStart = (s.sessions i).lineStart)

theorem Unprinted.of_sessions {s s' : MultiState} (hs : s'.sessions = s.sessions) : Unprinted s s' :=
  fun i => .inr (.inr (by rw [hs]; exact ⟨rfl, rfl, rfl⟩))

theorem Unheard.unprinted {s s' : MultiState} (hs : Unheard s s') : Unprinted s s' := fun i =>
  (hs i).imp_right fun h => .inr ⟨h.1, h.2.1, h.2.2.2⟩

theorem Unprinted.offStdout {s s' : MultiState} (hs : Unprinted s s') (ha : OffStdout s) : OffStdout s' := by
  intro i
  rcases hs i with hgone | ⟨hne, -⟩ | ⟨hfd, -, -⟩
  · simp [hgone]
  · exact hne
  · rw [hfd]
    exact ha i

theorem Aloof.notTo {s : MultiState} (ha : OffStdout s) {e : Sys} (he : Aloof s e) : NotTo .stdout e := by
  cases e with
  | write via fd buf =>
    rcases he with hne | ⟨i, hfd⟩
    · exact hne
    · rintro rfl
      exact ha i hfd
  | _ => trivial

theorem Draws.notTo {e : Sys} (he : Draws e) : NotTo .stdout e := by
  cases e with
  | write via fd buf =>
    subst he
    show Fd.stderr ≠ Fd.stdout
    simp
  | _ => trivial

section
variable {legal : Hist → (e : Sys) → Resp e → Prop} {α : Type} {p : Proc α} {Q : α → Prop}
  {h h' : Hist} {o : Option α}

/-- A part that writes to another place prints nothing. -/
theorem written_of_notTo (hp : Within (NotTo .stdout) p Q) (hr : Runs legal p h h' o) :
    writtenTo .stdout h' = writtenTo .stdout h := by
  have hprinted := (always_notTo hp h).safe hr
  rw [hprinted.written, List.append_nil]

theorem written_of_aloof {s : MultiState} (ha : OffStdout s) (hp : Within (Aloof s) p Q)
    (hr : Runs legal p h h' o) : writtenTo .stdout h' = writtenTo .stdout h :=
  written_of_notTo (hp.mono (fun _ he => he.notTo ha) fun _ => id) hr

end

section
variable {cfg : Config} {interactive : Bool} {listener : Fd} {max i : ℕ} {s : MultiState}

theorem notTo_of_quiet (e : Sys) (he : Quiet e = true) : NotTo .stdout e := by
  cases e <;> trivial

theorem notTo_multiWait (s : MultiState) : Within (NotTo .stdout) (multiWait cfg listener s)
    fun r => ∀ s', r = .inr (.inl s') → s' = s := by
  refine Within.step trivial fun stop => Within.ite (fun _ => by rintro _ ⟨⟩) fun _ => ?_
  refine Within.step trivial fun r => ?_
  rcases r with err | _ | _
  · cases err <;> first
      | (rintro _ ⟨⟩; rfl)
      | exact Within.step trivial fun _ => by rintro _ ⟨⟩
  · rintro _ ⟨⟩
    rfl
  · rintro _ ⟨⟩

/-- A peer that joins starts a line. -/
theorem notTo_multiAccept (s : MultiState) :
    Within (NotTo .stdout) (multiAccept cfg listener max s) (Unprinted s) := by
  have hclose : ∀ fd, Within (NotTo .stdout) (wcatCloseQuiet fd) fun _ => True := fun _ =>
    within_wcatCloseQuiet trivial
  refine (within_wcatAccept (still_of_quiet notTo_of_quiet) trivial _).bind' fun peer hpeer => ?_
  cases peer with
  | none => exact Unprinted.of_sessions rfl
  | some peer =>
    obtain ⟨n, hfd⟩ := hpeer peer rfl
    have hjoin : ∀ i, Unprinted s (s.join i peer) := by
      intro i j
      rcases eq_or_ne j i with rfl | hj
      · refine .inr (.inl ?_)
        simp [MultiState.join, MultiState.set, hfd, Fd.accepted]
      · refine .inr (.inr ?_)
        have hother : (s.join i peer).sessions j = s.sessions j := Function.update_of_ne hj _ _
        rw [hother]
        exact ⟨rfl, rfl, rfl⟩
    refine (within_wcatAccessCheckFd (still_of_quiet notTo_of_quiet) trivial cfg).next fun allowed => ?_
    refine Within.ite (fun _ => (hclose _).next fun _ => .of_sessions rfl) fun _ => ?_
    split
    · exact Within.step trivial fun _ => (hclose _).next fun _ => .of_sessions rfl
    · rename_i i hfind
      refine Within.step trivial fun _ => Within.ite (fun _ => ?_) fun _ => hjoin i
      exact Within.step trivial fun _ => Within.step trivial fun _ => hjoin i

theorem notTo_multiReadFor (mode : TypingMode) (s : MultiState) :
    Within (NotTo .stdout) (multiReadFor mode s) fun _ => True := by
  have hread : ∀ cap off, Within (NotTo .stdout) (multiReadStdin cap off) fun _ => True := by
    intro cap off
    refine Within.loop (fun _ => True) trivial fun _ _ => Within.step trivial fun r => ?_
    rcases r with ⟨chunk, hne, hle⟩ | _ | err
    · trivial
    · trivial
    · cases err <;> trivial
  cases mode <;> exact hread _ _

theorem notTo_multiReceive (fd : Fd) :
    Within (NotTo .stdout) (multiReceive fd) fun _ => True := by
  refine Within.loop (fun _ => True) trivial fun _ _ => Within.step trivial fun r => ?_
  rcases r with ⟨chunk, hne, hle⟩ | _ | err
  · trivial
  · trivial
  · cases err <;> trivial

theorem notTo_multiSessionClose (s : MultiState) : Within (NotTo .stdout) (multiSessionClose s i)
    fun s' => s' = s.set i multiSessionInit := by
  refine Within.next ?_ fun _ => rfl
  cases (s.sessions i).fd with
  | none => exact trivial
  | some fd => exact within_wcatCloseQuiet trivial

theorem sessions_repairGone (s : MultiState) : (s.repairGone max).sessions = s.sessions := by
  rw [MultiState.repairGone]
  split_ifs <;> rfl

/-- A session that is closed. -/
theorem unprinted_close {s s' : MultiState} (hs : s'.sessions = s.sessions) :
    Unprinted s ((s'.set i multiSessionInit).repairGone max) := by
  intro j
  rw [sessions_repairGone]
  rcases eq_or_ne j i with rfl | hj
  · exact .inl (by simp [MultiState.set, multiSessionInit])
  · have hother : (s'.set i multiSessionInit).sessions j = s'.sessions j :=
      Function.update_of_ne hj _ _
    rw [hother, hs]
    exact .inr (.inr ⟨rfl, rfl, rfl⟩)

theorem notTo_multiLeave (s : MultiState) :
    Within (NotTo .stdout) (multiLeave max i s) (Unprinted s) := by
  refine Within.step trivial fun _ => (notTo_multiSessionClose _).bind' ?_
  rintro _ rfl
  have hclosed : Unprinted s (((if s.attachedId = (s.sessions i).id then { s with attachedId := 0 }
      else s).set i multiSessionInit).repairGone max) := by
    refine unprinted_close ?_
    split_ifs <;> rfl
  exact Within.ite (fun _ => Within.step trivial fun _ => hclosed) fun _ => hclosed

theorem notTo_multiVanished (s : MultiState) :
    Within (NotTo .stdout) (multiVanished max s) fun _ => True :=
  Within.step trivial fun _ => Within.step trivial fun _ => trivial

end

variable {cfg : Config} {interactive : Bool} {listener : Fd}

/-- **A step in which no session is read** prints nothing. -/
theorem MultiStep.unprinted {x y : MultiPoint} (hstep : MultiStep cfg interactive listener x y)
    (ha : OffStdout x.state) (hnone : ∀ i polled fd c, x.phase = .serving i polled →
      (x.state.sessions i).fd = some fd → ¬Reads fd c x.hist y.hist) :
    writtenTo .stdout y.hist = writtenTo .stdout x.hist ∧ Unprinted x.state y.state := by
  have hslot : ∀ {s h h'} {i : ℕ} {polled : List (PollFd × Revents)}
      {r : Except MultiState MultiState},
      (∀ fd c, (s.sessions i).fd = some fd → ¬Reads fd c h h') →
      Runs Legal (multiSlot cfg interactive cfg.brokerMaxClients.toNat polled i s) h h' (some r) →
      writtenTo .stdout h' = writtenTo .stdout h ∧ Unprinted s (slotState r) := by
    intro s h h' i polled r hnone hr
    cases hfd : (s.sessions i).fd with
    | none =>
      rw [multiSlot, hfd] at hr
      obtain ⟨rfl, rfl⟩ := runs_pure.mp hr
      exact ⟨rfl, .of_sessions rfl⟩
    | some fd =>
      rcases runs_multiSlot_parts hfd hr with ⟨heq, rfl⟩ | ⟨h₁, s', hreceived, rfl, hleave, -⟩ |
        ⟨c, hne, hle, h₁, hread, hpiece⟩
      · exact ⟨rfl, .of_sessions (by rw [heq])⟩
      · refine ⟨(written_of_notTo (notTo_multiLeave s) hleave).trans ?_,
          (notTo_multiLeave s).result hleave⟩
        rcases hreceived with rfl | ⟨answer, hreceive⟩
        · rfl
        · exact written_of_notTo (notTo_multiReceive fd) hreceive
      · exact absurd ⟨hne, hle, h₁, hread, hpiece.suffix⟩ (hnone fd c hfd)
  cases hstep with
  | @idle s s' h h' hr =>
    have hs' : s' = s := (notTo_multiWait s).result hr s' rfl
    exact ⟨written_of_notTo (notTo_multiWait s) hr, .of_sessions (by rw [hs'])⟩
  | @accept s s' h h₁ h' revents hw hr =>
    have hgreet : Within (NotTo .stdout) (multiGreet cfg listener revents s) (Unprinted s) :=
      Within.ite (fun _ => notTo_multiAccept s) fun _ => .of_sessions rfl
    exact ⟨(written_of_notTo hgreet hr).trans (written_of_notTo (notTo_multiWait s) hw),
      hgreet.result hr⟩
  | quiet => exact ⟨rfl, .of_sessions rfl⟩
  | vanished hm hr =>
    exact ⟨written_of_notTo (notTo_multiVanished _) hr, .of_sessions (by rw [runs_multiVanished hr])⟩
  | read hm hr => exact ⟨written_of_notTo (notTo_multiReadFor _ _) hr, .of_sessions rfl⟩
  | @typed s s' h h' mode c rest polled hr =>
    have hdeaf := deaf_multiTyped cfg.brokerMaxClients.toNat mode c s
    exact ⟨written_of_aloof ha hdeaf hr, (hdeaf.result hr).unprinted⟩
  | typedAll => exact ⟨rfl, .of_sessions rfl⟩
  | @slot s s' h h' i polled hi hr =>
    exact hslot (r := .ok s') (fun fd c => hnone i polled fd c rfl) hr
  | @broken s s' h h' i polled hi hr =>
    exact hslot (r := .error s') (fun fd c => hnone i polled fd c rfl) hr
  | served => exact ⟨rfl, .of_sessions rfl⟩

/-! ### Steps that print a chunk -/

/-- What has become of the session in slot `i` when a chunk of it was printed. -/
def PrintedChunk (i : ℕ) (c : Bytes) (s s' : MultiState) : Prop :=
  (s'.sessions i).fd = none ∨
    (s'.sessions i).fd = (s.sessions i).fd ∧ (s'.sessions i).id = (s.sessions i).id ∧
      (s'.sessions i).lineStart = lineStartAfter (s.sessions i).lineStart c

section
variable {legal : Hist → (e : Sys) → Resp e → Prop} {max i : ℕ} {s : MultiState}

theorem notTo_multiRedrawInput (s : MultiState) :
    Within (NotTo .stdout) (multiRedrawInput s) fun _ => True :=
  (draws_multiRedrawInput s).mono (fun _ he => he.notTo) fun _ => id

theorem outputs_multiOutput (hne : s.attachedId ≠ (s.sessions i).id) (c : Bytes) :
    Outputs legal .stdout (192 ≤ (outputPrefix (s.sessions i)).length) (multiOutput i c s)
      (outputText (s.sessions i) c) (fun r => r = (s.set i ((s.sessions i).printed c), true))
      fun r => r.2 = false := by
  rw [multiOutput, if_neg hne]
  refine (outputs_multiWriteOutput c).finish ?_ ?_
  · rintro _ rfl
    exact rfl
  · rintro ⟨_, ok⟩ ⟨rfl, -⟩
    exact rfl

theorem notTo_multiOutputFailed (s : MultiState) :
    Within (NotTo .stdout) (multiOutputFailed s) fun r => ∃ s', r = .error s' :=
  Within.step trivial fun _ => ⟨_, rfl⟩

/-- A chunk that was counted is printed. -/
theorem outputs_counted (hne : s.attachedId ≠ (s.sessions i).id) (c : Bytes) (n : ℕ) :
    Outputs legal .stdout (192 ≤ (outputPrefix (s.sessions i)).length)
      (multiOutput i c (s.set i { s.sessions i with rxBytes := n })) (outputText (s.sessions i) c)
      (fun r => r.2 = true ∧ PrintedChunk i c s r.1) fun r => r.2 = false := by
  have hcounted : (s.set i { s.sessions i with rxBytes := n }).sessions i =
      { s.sessions i with rxBytes := n } := Function.update_self _ _ _
  have hout := @outputs_multiOutput legal i (s.set i { s.sessions i with rxBytes := n })
    (by rw [hcounted]; exact hne) c
  rw [hcounted] at hout
  refine hout.mono ?_ fun _ hr => hr
  rintro _ rfl
  refine ⟨rfl, .inr ?_⟩
  simp [MultiState.set, MultiSession.printed]

theorem outputs_multiData (hne : s.attachedId ≠ (s.sessions i).id) (c : Bytes) :
    Outputs legal .stdout (192 ≤ (outputPrefix (s.sessions i)).length)
      (multiData cfg interactive i c s) (outputText (s.sessions i) c)
      (fun r => ∃ s', r = .ok s' ∧ PrintedChunk i c s s') fun r => ∃ s', r = .error s' := by
  refine Outputs.next (Within.optional trivial) fun _ => Outputs.next (Within.optional trivial) fun _ => ?_
  refine (outputs_counted hne c _).finish ?_ ?_
  · rintro ⟨s', ok⟩ ⟨rfl, hspoken⟩
    refine Within.ite (fun hno => absurd hno (by simp)) fun _ => Within.next ?_ fun _ => ?_
    · refine Within.ite (fun _ => Within.next (Within.optional trivial) fun _ => ?_) fun _ => trivial
      exact notTo_multiRedrawInput s'
    · exact ⟨s', rfl, hspoken⟩
  · rintro ⟨s', ok⟩ rfl
    exact Within.ite (fun _ => notTo_multiOutputFailed s') fun hno => absurd rfl hno

theorem outputs_multiHttp (hne : s.attachedId ≠ (s.sessions i).id) (c : Bytes) :
    Outputs legal .stdout (192 ≤ (outputPrefix (s.sessions i)).length)
      (multiHttp cfg interactive max i c s) (outputText (s.sessions i) c)
      (fun r => ∃ s', r = .ok s' ∧ PrintedChunk i c s s') fun r => ∃ s', r = .error s' := by
  refine Outputs.next (Within.optional trivial) fun _ => Outputs.next (Within.optional trivial) fun _ => ?_
  refine (outputs_counted hne c _).finish ?_ ?_
  · rintro ⟨s', ok⟩ ⟨rfl, -⟩
    refine Within.ite (fun hno => absurd hno (by simp)) fun _ => Within.step trivial fun _ => ?_
    refine (notTo_multiSessionClose _).bind' fun s₂ hs₂ => Within.next ?_ fun _ => ?_
    · refine Within.ite (fun _ => ?_) fun _ => Within.optional trivial
      exact Within.next (Within.optional trivial) fun _ => notTo_multiRedrawInput _
    · exact ⟨_, rfl, .inl (fd_of_closed hs₂)⟩
  · rintro ⟨s', ok⟩ rfl
    exact Within.ite (fun _ => notTo_multiOutputFailed _) fun hno => absurd rfl hno

/-- **A chunk** is printed with its labels, and what comes after that prints nothing. -/
theorem outputs_multiPiece (hne : s.attachedId ≠ (s.sessions i).id) (c : Bytes) :
    Outputs legal .stdout (192 ≤ (outputPrefix (s.sessions i)).length)
      (multiPiece cfg interactive max i c s) (outputText (s.sessions i) c)
      (fun r => ∃ s', r = .ok s' ∧ PrintedChunk i c s s') fun r => ∃ s', r = .error s' := by
  rw [multiPiece]
  split_ifs
  · exact outputs_multiHttp hne c
  · exact outputs_multiData hne c

end

/-- When this fails, the listener is told to stop. -/
def StopsOnError (p : Proc (Except MultiState MultiState)) : Prop :=
  ∀ h h' s', Runs Legal p h h' (some (.error s')) → stopped h' = true

section
variable {α : Type} {max i : ℕ}

theorem StopsOnError.next {p : Proc α} {f : α → Proc (Except MultiState MultiState)}
    (hf : ∀ a, StopsOnError (f a)) : StopsOnError (p >>= f) := by
  intro h h' s' hr
  obtain ⟨a, h₁, -, hrest⟩ := runs_bind_some'.mp hr
  exact hf a _ _ _ hrest

theorem StopsOnError.ite {c : Prop} [Decidable c] {p q : Proc (Except MultiState MultiState)}
    (hp : StopsOnError p) (hq : StopsOnError q) : StopsOnError (if c then p else q) := by
  split_ifs
  · exact hp
  · exact hq

theorem stopsOnError_ok (s : MultiState) : StopsOnError (pure (.ok s)) := by
  intro h h' s' hr
  cases (runs_pure.mp hr).2

theorem stopsOnError_multiOutputFailed (s : MultiState) : StopsOnError (multiOutputFailed s) := by
  intro h h' s' hr
  obtain ⟨_, -, hrest⟩ := runs_ask.mp hr
  rw [(runs_pure.mp hrest).1]
  rfl

theorem stopsOnError_multiPiece (c : Bytes) (s : MultiState) :
    StopsOnError (multiPiece cfg interactive max i c s) := by
  refine .ite (.next fun _ => .next fun _ => .next fun r => ?_)
    (.next fun _ => .next fun _ => .next fun r => ?_)
  · refine .ite (stopsOnError_multiOutputFailed _) (.next fun _ => .next fun _ => .next fun _ => ?_)
    exact stopsOnError_ok _
  · exact .ite (stopsOnError_multiOutputFailed _) (.next fun _ => stopsOnError_ok _)

end

/-- The listener does not go on once it is told to stop. -/
theorem MultiStep.not_stopped {x y : MultiPoint} (hstep : MultiStep cfg interactive listener x y)
    (hphase : x.phase = .head) : stopped x.hist = false := by
  have hwait : ∀ {s : MultiState} {h h' : Hist} {r : List Revents ⊕ (MultiState ⊕ MultiState)},
      Runs Legal (multiWait cfg listener s) h h' (some r) → (∀ s', r ≠ .inr (.inr s')) →
      stopped h = false := by
    intro s h h' r hr hgoes
    obtain ⟨stop, hlegal, hrest⟩ := runs_ask.mp hr
    cases stop with
    | true => exact absurd (runs_pure.mp hrest).2 (hgoes s)
    | false => exact hlegal.2.2
  cases hstep with
  | idle hr => exact hwait hr (by simp)
  | accept hw hr => exact hwait hw (by simp)
  | _ => cases hphase

/-! ### The transcript of a run -/

variable (cfg interactive listener) in
/-- **A run of the listener while no session is attached**, with the transcript of what it printed.
What is printed for a chunk is a beginning of the chunk with its labels: all of it, unless a write
was refused. `P` may restrict which session is printed when. -/
inductive ListenRun (P : List Symbol → MultiSession → Prop) (x₀ : MultiPoint) :
    List Symbol → MultiPoint → Prop
  /-- Nothing was printed yet. -/
  | start : ListenRun P x₀ [] x₀
  /-- No session is read. -/
  | silent {t : List Symbol} {x y : MultiPoint} (hx : ListenRun P x₀ t x)
      (hnone : x.state.attachedId = 0) (hstep : MultiStep cfg interactive listener x y)
      (hunread : ∀ i polled fd c, x.phase = .serving i polled →
        (x.state.sessions i).fd = some fd → ¬Reads fd c x.hist y.hist) : ListenRun P x₀ t y
  /-- A chunk is read. -/
  | chunk {t : List Symbol} {x y : MultiPoint} {i : ℕ} {polled : List (PollFd × Revents)} {fd : Fd}
      {c : Bytes} (hx : ListenRun P x₀ t x) (hnone : x.state.attachedId = 0)
      (hstep : MultiStep cfg interactive listener x y) (hphase : x.phase = .serving i polled)
      (hfd : (x.state.sessions i).fd = some fd) (hread : Reads fd c x.hist y.hist)
      (hallowed : P t (x.state.sessions i)) :
      ListenRun P x₀ (t ++ (symbolsOf (x.state.sessions i) c).take
        ((writtenTo .stdout y.hist).length - (writtenTo .stdout x.hist).length)) y

/-- A run in which any session may be printed goes on with whatever step the listener takes. -/
theorem ListenRun.goes_on {x₀ x y : MultiPoint} {t : List Symbol}
    (hx : ListenRun cfg interactive listener (fun _ _ => True) x₀ t x)
    (hnone : x.state.attachedId = 0) (hstep : MultiStep cfg interactive listener x y) :
    ∃ u, ListenRun cfg interactive listener (fun _ _ => True) x₀ (t ++ u) y := by
  by_cases hread : ∃ i polled fd c, x.phase = .serving i polled ∧ (x.state.sessions i).fd = some fd ∧
      Reads fd c x.hist y.hist
  · obtain ⟨i, polled, fd, c, hphase, hfd, hread⟩ := hread
    exact ⟨_, .chunk hx hnone hstep hphase hfd hread trivial⟩
  · refine ⟨[], ?_⟩
    rw [List.append_nil]
    exact .silent hx hnone hstep fun i polled fd c hphase hfd hr => hread ⟨i, polled, fd, c, hphase, hfd, hr⟩

/-- The lines of a transcript are each of one session: its label, followed by what was received from
it. The last may not be finished. -/
structure AttributedLines (t : List Symbol) : Prop where
  lines : ∀ line ∈ finished nl [] t, ∃ id, OwnLine id line
  last : unfinished nl [] t = [] ∨ ∃ id line, OwnLine id line ∧ unfinished nl [] t <+: line

/-- A beginning of a text whose lines are each of one session. -/
theorem AttributedLines.of_append {t u : List Symbol} (ha : AttributedLines (t ++ u)) :
    AttributedLines t := by
  refine ⟨fun line hline => ha.lines line ?_, ?_⟩
  · rw [finished_append]
    exact List.mem_append_left _ hline
  · rcases unfinished_begun [] t u with ⟨line, hline, hpre⟩ | hpre
    · obtain ⟨id, hown⟩ := ha.lines line hline
      exact .inr ⟨id, line, hown, hpre⟩
    · rcases ha.last with hnil | ⟨id, line, hown, hlast⟩
      · rw [hnil] at hpre
        exact .inl (List.prefix_nil.mp hpre)
      · exact .inr ⟨id, line, hown, hpre.trans hlast⟩

/-- **Output with owners**: since `h` the transcript was printed, and its lines are each of one
session. -/
structure AttributedOutput (h : Hist) (t : List Symbol) (g : Hist) : Prop where
  printed : writtenTo .stdout g = writtenTo .stdout h ++ t.map Prod.snd
  lines : AttributedLines t

/-- **When it is the turn of a session**: standard output is at the start of a line, or the session is
in the middle of one. The session has a number other than `0`, which stands for none, and its label
is within a line. -/
structure InTurn (t : List Symbol) (session : MultiSession) : Prop where
  number : session.id ≠ 0
  label : nl ∉ outputPrefix session
  turn : unfinished nl [] t = [] ∨ session.lineStart = false

/-- What holds between two turns: a session in the middle of a line is the one whose line is not
finished. -/
structure Speaking (t : List Symbol) (s : MultiState) : Prop where
  offStdout : OffStdout s
  lines : ∀ line ∈ finished nl [] t, ∃ id, OwnLine id line
  current : unfinished nl [] t = [] ∨ ∃ id, OwnLine id (unfinished nl [] t)
  inside : ∀ i, (s.sessions i).fd ≠ none → (s.sessions i).lineStart = false →
    OwnLine (s.sessions i).id (unfinished nl [] t)
  only : ∀ i j, (s.sessions i).fd ≠ none → (s.sessions i).lineStart = false →
    (s.sessions j).fd ≠ none → (s.sessions j).lineStart = false → i = j

theorem Speaking.attributed {t : List Symbol} {s : MultiState} (hs : Speaking t s) :
    AttributedLines t :=
  ⟨hs.lines, hs.current.imp_right fun ⟨id, hown⟩ => ⟨id, _, hown, List.prefix_rfl⟩⟩

theorem speaking_init : Speaking [] multiInit where
  offStdout _ := by simp [multiInit, multiSessionInit]
  lines _ hline := by simp [finished] at hline
  current := .inl rfl
  inside i hlive := absurd rfl hlive
  only i _ hlive := absurd rfl hlive

/-- A step that prints nothing. -/
theorem Speaking.unprinted {t : List Symbol} {s s' : MultiState} (hs : Speaking t s)
    (hu : Unprinted s s') : Speaking t s' := by
  have hsame : ∀ i, (s'.sessions i).fd ≠ none → (s'.sessions i).lineStart = false →
      (s'.sessions i).fd = (s.sessions i).fd ∧ (s'.sessions i).id = (s.sessions i).id ∧
        (s'.sessions i).lineStart = (s.sessions i).lineStart := by
    intro i hlive hmid
    rcases hu i with hgone | ⟨-, hnew⟩ | hkept
    · exact absurd hgone hlive
    · exact absurd (hnew.symm.trans hmid) (by simp)
    · exact hkept
  refine ⟨hu.offStdout hs.offStdout, hs.lines, hs.current, fun i hlive hmid => ?_,
    fun i j hlive hmid hlive' hmid' => ?_⟩
  · obtain ⟨hfd, hid, hline⟩ := hsame i hlive hmid
    rw [hid]
    exact hs.inside i (hfd ▸ hlive) (hline ▸ hmid)
  · obtain ⟨hfd, -, hline⟩ := hsame i hlive hmid
    obtain ⟨hfd', -, hline'⟩ := hsame j hlive' hmid'
    exact hs.only i j (hfd ▸ hlive) (hline ▸ hmid) (hfd' ▸ hlive') (hline' ▸ hmid')

/-- At its turn a session stands at the start of a line, or in one of its own. -/
theorem Speaking.stands {t : List Symbol} {s : MultiState} (hs : Speaking t s) {i : ℕ}
    (hlive : (s.sessions i).fd ≠ none) (hturn : InTurn t (s.sessions i)) :
    Stands (s.sessions i).row (s.sessions i).lineStart (unfinished nl [] t) := by
  rw [Stands]
  cases hline : (s.sessions i).lineStart with
  | true => exact hturn.turn.resolve_right (by simp [hline])
  | false => exact hs.inside i hlive hline

/-- **A turn of a session.** -/
theorem Speaking.spoken {t : List Symbol} {s s' : MultiState} (hs : Speaking t s) {i : ℕ} {c : Bytes}
    (hlive : (s.sessions i).fd ≠ none) (hturn : InTurn t (s.sessions i)) (hi : PrintedChunk i c s s')
    (hothers : ∀ k, k ≠ i → s'.sessions k = s.sessions k) :
    Speaking (t ++ symbolsOf (s.sessions i) c) s' := by
  have hlabel : nl ∉ rowLabel (s.sessions i).row := hturn.label
  obtain ⟨hlines, hafter⟩ := ownLines_spokenAs hlabel (hs.stands hlive hturn) c
  -- nobody else is in the middle of a line
  have hquiet : ∀ k, (s'.sessions k).fd ≠ none → (s'.sessions k).lineStart = false → k = i := by
    intro k hlive' hmid
    by_contra hk
    rw [hothers k hk] at hlive' hmid
    rcases hturn.turn with hnil | hown
    · exact (hs.inside k hlive' hmid).ne_nil hnil
    · exact hk (hs.only k i hlive' hmid hlive hown)
  refine ⟨fun k => ?_, ?_, ?_, fun k hlive' hmid => ?_, fun k l hlive₁ hmid₁ hlive₂ hmid₂ => ?_⟩
  · rcases eq_or_ne k i with rfl | hk
    · rcases hi with hgone | ⟨hfd, -, -⟩
      · simp [hgone]
      · exact hfd ▸ hs.offStdout k
    · exact hothers k hk ▸ hs.offStdout k
  · intro line hline
    rw [finished_append] at hline
    rcases List.mem_append.mp hline with hline | hline
    · exact hs.lines line hline
    · exact ⟨_, hlines line hline⟩
  · rw [unfinished_append]
    rw [Stands] at hafter
    split_ifs at hafter
    · exact .inl hafter
    · exact .inr ⟨_, hafter⟩
  · obtain rfl := hquiet k hlive' hmid
    obtain ⟨-, hid, hline⟩ := hi.resolve_left hlive'
    rw [← hline, hmid] at hafter
    rw [unfinished_append, hid]
    exact hafter
  · rw [hquiet k hlive₁ hmid₁, hquiet l hlive₂ hmid₂]

/-- **A step in which a chunk is read** prints it with its labels, and changes nothing of the other
sessions. Or a write was refused; then a beginning is printed, and the listener stops. -/
theorem MultiStep.printsChunk {x y : MultiPoint} {i : ℕ} {polled : List (PollFd × Revents)} {fd : Fd}
    {c : Bytes} (hstep : MultiStep cfg interactive listener x y) (hphase : x.phase = .serving i polled)
    (hfd : (x.state.sessions i).fd = some fd) (hread : Reads fd c x.hist y.hist)
    (hne : x.state.attachedId ≠ (x.state.sessions i).id) :
    ∃ begun, begun <+: outputText (x.state.sessions i) c ∧
      writtenTo .stdout y.hist = writtenTo .stdout x.hist ++ begun ∧
      (begun = outputText (x.state.sessions i) c ∧ PrintedChunk i c x.state y.state ∧
          (∀ k, k ≠ i → y.state.sessions k = x.state.sessions k) ∨
        y.phase = .head ∧ stopped y.hist = true) := by
  obtain ⟨s, h, _⟩ := x
  obtain rfl : _ = _ := hphase
  have hpiece : ∀ {h' : Hist} {r : Except MultiState MultiState}, Reads fd c h h' →
      Runs Legal (multiSlot cfg interactive cfg.brokerMaxClients.toNat polled i s) h h' (some r) →
      ∃ h₁, writtenTo .stdout h₁ = writtenTo .stdout h ∧
        Runs Legal (multiPiece cfg interactive cfg.brokerMaxClients.toNat i c s) h₁ h' (some r) := by
    intro h' r hread hr
    rcases runs_multiSlot_parts hfd hr with ⟨-, rfl⟩ | ⟨-, -, -, -, -, hno⟩ |
      ⟨c', hne', hle, h₁, hread', hpiece⟩
    · exact absurd hread (not_reads_self c)
    · exact absurd hread (hno c)
    · obtain rfl := hread.unique ⟨hne', hle, h₁, hread', hpiece.suffix⟩
      exact ⟨h₁, written_of_notTo (notTo_multiReceive fd) hread', hpiece⟩
  cases hstep with
  | @slot _ s' _ h' _ _ hi hr =>
    obtain ⟨h₁, hw, hrest⟩ := hpiece hread hr
    rcases (outputs_multiPiece hne c h₁).post hrest with ⟨⟨s'', heq, hspoken⟩, hprinted⟩ |
      ⟨⟨s'', heq⟩, -⟩
    · obtain rfl := Except.ok.inj heq
      refine ⟨_, List.prefix_rfl, hw ▸ hprinted.written, .inl ⟨rfl, hspoken, fun k hk => ?_⟩⟩
      exact (within_slotFrame (slotFrame_session hk) cfg interactive polled s).result hr
    · cases heq
  | broken hi hr =>
    obtain ⟨h₁, hw, hrest⟩ := hpiece hread hr
    obtain ⟨begun, hpre, hwritten⟩ := ((outputs_multiPiece hne c h₁).safe hrest).written
    exact ⟨begun, hpre, hw ▸ hwritten, .inr ⟨rfl, stopsOnError_multiPiece c s _ _ _ hrest⟩⟩
  | served => exact absurd hread (not_reads_self c)

/-- What is kept along a run: the transcript is what was printed, and its lines have owners. When a
write was refused, the listener stops. -/
theorem ListenRun.speaking {h : Hist} {t : List Symbol} {x : MultiPoint}
    (hrun : ListenRun cfg interactive listener InTurn (multiStart h) t x) :
    writtenTo .stdout x.hist = writtenTo .stdout h ++ t.map Prod.snd ∧
      (Speaking t x.state ∨ x.phase = .head ∧ stopped x.hist = true ∧ AttributedLines t) := by
  induction hrun with
  | start => exact ⟨(List.append_nil _).symm, .inl speaking_init⟩
  | @silent t x y hx hnone hstep hunread ih =>
    obtain ⟨hprinted, hs | ⟨hhead, hstop, -⟩⟩ := ih
    · obtain ⟨hsame, hunprinted⟩ := hstep.unprinted hs.offStdout hunread
      exact ⟨hsame.trans hprinted, .inl (hs.unprinted hunprinted)⟩
    · exact absurd hstop (by simp [hstep.not_stopped hhead])
  | @chunk t x y i polled fd c hx hnone hstep hphase hfd hread hturn ih =>
    obtain ⟨hprinted, hs | ⟨hhead, hstop, -⟩⟩ := ih
    · have hne : x.state.attachedId ≠ (x.state.sessions i).id := by
        rw [hnone]
        exact hturn.number.symm
      have hlive : (x.state.sessions i).fd ≠ none := by simp [hfd]
      obtain ⟨begun, hpre, hwritten, hafter⟩ := hstep.printsChunk hphase hfd hread hne
      have htext := symbolsOf_text (x.state.sessions i) c
      have hlen : (writtenTo .stdout y.hist).length - (writtenTo .stdout x.hist).length =
          begun.length := by
        rw [hwritten, List.length_append]
        omega
      have hbegun : begun = ((symbolsOf (x.state.sessions i) c).take begun.length).map Prod.snd := by
        rw [List.map_take, htext]
        exact List.prefix_iff_eq_take.mp hpre
      rw [hlen]
      refine ⟨?_, ?_⟩
      · rw [hwritten, hprinted, List.append_assoc, List.map_append, ← hbegun]
      rcases hafter with ⟨hall, hspoken, hothers⟩ | ⟨hhead, hstop⟩
      · have hfull : (symbolsOf (x.state.sessions i) c).take begun.length =
            symbolsOf (x.state.sessions i) c := by
          refine List.take_of_length_le ?_
          rw [hall, ← htext, List.length_map]
        rw [hfull]
        exact .inl (hs.spoken hlive hturn hspoken hothers)
      · -- the listener stops in the middle of what it was about to print
        have hwhole : Speaking (t ++ symbolsOf (x.state.sessions i) c)
            (x.state.set i ((x.state.sessions i).printed c)) := by
          refine hs.spoken hlive hturn (.inr ?_) fun k hk => Function.update_of_ne hk _ _
          simp [MultiState.set, MultiSession.printed]
        refine .inr ⟨hhead, hstop, ?_⟩
        have hlines := hwhole.attributed
        rw [← List.take_append_drop begun.length (symbolsOf (x.state.sessions i) c),
          ← List.append_assoc] at hlines
        exact hlines.of_append
    · rw [hphase] at hhead
      cases hhead

/-- **Every line on standard output is of one session**, in a run in which no session is printed in the
middle of the line of another. -/
theorem attributedOutput {h : Hist} {t : List Symbol} {x : MultiPoint}
    (hrun : ListenRun cfg interactive listener InTurn (multiStart h) t x) :
    AttributedOutput h t x.hist := by
  obtain ⟨hprinted, hs | ⟨-, -, hlines⟩⟩ := hrun.speaking
  · exact ⟨hprinted, hs.attributed⟩
  · exact ⟨hprinted, hlines⟩

/-! ### Runs, evaluated -/

instance (t : List Symbol) (session : MultiSession) : Decidable (InTurn t session) :=
  decidable_of_iff (session.id ≠ 0 ∧ nl ∉ outputPrefix session ∧
      ((unfinished nl [] t).isEmpty = true ∨ session.lineStart = false)) <| by
    rw [List.isEmpty_iff]
    exact ⟨fun ⟨hid, hlabel, hturn⟩ => ⟨hid, hlabel, hturn⟩,
      fun hturn => ⟨hturn.number, hturn.label, hturn.turn⟩⟩

variable (cfg interactive listener) in
/-- The run over `n` steps against `env`: the transcript, and the point that is reached. -/
def listenAdvances (P : List Symbol → MultiSession → Prop) [∀ t session, Decidable (P t session)]
    (env : Hist → (e : Sys) → Resp e) (x₀ : MultiPoint) : ℕ → Option (List Symbol × MultiPoint)
  | 0 => some ([], x₀)
  | n + 1 =>
      (listenAdvances P env x₀ n).bind fun (t, x) =>
        if x.state.attachedId = 0 then
          (x.advance cfg interactive listener env 1000).bind fun y =>
            match x.phase.slot.bind fun slot => (x.state.sessions slot.1).fd.map (slot, ·) with
            | none => some (t, y)
            | some ((i, _), fd) =>
                match stepPiece fd x y with
                | none => if y.hist.length = x.hist.length then some (t, y) else none
                | some c =>
                    if P t (x.state.sessions i) then
                      some (t ++ (symbolsOf (x.state.sessions i) c).take ((writtenTo .stdout y.hist).length -
                        (writtenTo .stdout x.hist).length), y)
                    else none
        else none

theorem listenRun_advances {P : List Symbol → MultiSession → Prop}
    [∀ t session, Decidable (P t session)] {env : Hist → (e : Sys) → Resp e}
    (henv : ∀ h e, Legal h e (env h e)) {x₀ y : MultiPoint} {n : ℕ} {t : List Symbol}
    (hx : listenAdvances cfg interactive listener P env x₀ n = some (t, y)) :
    ListenRun cfg interactive listener P x₀ t y := by
  induction n generalizing t y with
  | zero =>
    obtain ⟨rfl, rfl⟩ := Prod.mk.inj (Option.some.inj hx)
    exact .start
  | succ n ih =>
    rw [listenAdvances] at hx
    obtain ⟨⟨u, x⟩, hprev, hx⟩ := Option.bind_eq_some_iff.mp hx
    dsimp only at hx
    split_ifs at hx with hnone
    obtain ⟨z, hadvance, hx⟩ := Option.bind_eq_some_iff.mp hx
    have hstep := MultiPoint.advance_step henv hadvance
    split at hx
    · rename_i hslot
      obtain ⟨rfl, rfl⟩ := Prod.mk.inj (Option.some.inj hx)
      refine .silent (ih hprev) hnone hstep fun i polled fd c hphase hfd => ?_
      rw [hphase] at hslot
      simp [MultiPhase.slot, hfd] at hslot
    · rename_i i polled fd hslot
      obtain ⟨slot, hserving, hslot⟩ := Option.bind_eq_some_iff.mp hslot
      obtain ⟨fd', hfd, heq⟩ := Option.map_eq_some_iff.mp hslot
      obtain ⟨rfl, rfl⟩ := Prod.mk.inj heq
      have hphase := MultiPhase.slot_eq_some hserving
      split at hx
      · split_ifs at hx with hlen
        obtain ⟨rfl, rfl⟩ := Prod.mk.inj (Option.some.inj hx)
        refine .silent (ih hprev) hnone hstep fun _ _ _ c _ _ => ?_
        rw [hstep.suffix.eq_of_length hlen.symm]
        exact not_reads_self c
      · rename_i c hpiece
        split_ifs at hx with hallowed
        obtain ⟨rfl, rfl⟩ := Prod.mk.inj (Option.some.inj hx)
        exact .chunk (ih hprev) hnone hstep hphase hfd (reads_of_stepPiece hstep.suffix hpiece) hallowed

/-- Two peers join, and then send a chunk each. -/
def chunksScript (first second : Bytes) (h : Hist) : (e : Sys) → Resp e
  | .stop => false
  | .poll fds _ => .reporting fds (
      if pollCount h < 2 then { pollin := true } :: .none :: List.replicate (pollCount h) .none
      else if pollCount h = 2 then [.none, .none, { pollin := true }, .none]
      else [.none, .none, .none, { pollin := true }])
  | .accept _ => .ok (10 + pollCount h)
  | .read _ fd _ _ len =>
      let c := if fd = .conn .tcp 11 then first else second
      if hb : c ≠ [] ∧ c.length ≤ len then .data c hb.1 hb.2 else .eof
  | .write _ _ buf => WriteRes.all buf
  | e => refuse e

/-- The run in which both chunks are printed. -/
def chunksRun (P : List Symbol → MultiSession → Prop) [∀ t session, Decidable (P t session)]
    (first second : Bytes) : Option (List Symbol × MultiPoint) :=
  listenAdvances twoSessions false (.sock .tcp 3) P (lawful (chunksScript first second)) (multiStart []) 19

theorem listenRun_chunks {P : List Symbol → MultiSession → Prop}
    [∀ t session, Decidable (P t session)] {first second : Bytes} {holds : List Symbol → Bool}
    (hx : (chunksRun P first second).any (fun r => holds r.1) = true) :
    ∃ t x, ListenRun twoSessions false (.sock .tcp 3) P (multiStart []) t x ∧ holds t = true := by
  obtain ⟨⟨t, x⟩, hrun, hx⟩ := (Option.any_eq_true _ _).mp hx
  exact ⟨t, x, listenRun_advances (legal_lawful _) hrun, hx⟩

/-- Two sessions that send whole lines. -/
theorem attributedOutput_lines : ∃ t x,
    ListenRun twoSessions false (.sock .tcp 3) InTurn (multiStart []) t x ∧
    t.map Prod.snd = lit "[session1 peer peer:0] a\n[session2 peer peer:0] b\n" ∧
    AttributedOutput [] t x.hist := by
  obtain ⟨t, x, hrun, htext⟩ := @listenRun_chunks InTurn _ (lit "a\n") (lit "b\n")
    (fun t => t.map Prod.snd = lit "[session1 peer peer:0] a\n[session2 peer peer:0] b\n")
    (by decide +kernel)
  exact ⟨t, x, hrun, of_decide_eq_true htext, attributedOutput hrun⟩

/-- **A line of two sessions**: the second is printed where the first has not finished its line. -/
theorem not_attributedOutput : ∃ t x,
    ListenRun twoSessions false (.sock .tcp 3) (fun _ _ => True) (multiStart []) t x ∧
    t.map Prod.snd = lit "[session1 peer peer:0] a[session2 peer peer:0] b\n" ∧
    ¬AttributedOutput [] t x.hist := by
  obtain ⟨t, x, hrun, ht⟩ := @listenRun_chunks (fun _ _ => True) _ (lit "a") (lit "b\n")
    (fun t => t.map Prod.snd = lit "[session1 peer peer:0] a[session2 peer peer:0] b\n" &&
      (finished nl [] t).any fun line => line.any (fun c => c.1.1.id = 1) &&
        line.any fun c => c.1.1.id = 2)
    (by decide +kernel)
  rw [Bool.and_eq_true, decide_eq_true_eq] at ht
  obtain ⟨htext, hmixed⟩ := ht
  refine ⟨t, x, hrun, htext, fun ha => ?_⟩
  obtain ⟨line, hline, hboth⟩ := List.any_eq_true.mp hmixed
  obtain ⟨id, hown⟩ := ha.lines.lines line hline
  rw [Bool.and_eq_true] at hboth
  obtain ⟨b, hb, hone⟩ := List.any_eq_true.mp hboth.1
  obtain ⟨c, hc, htwo⟩ := List.any_eq_true.mp hboth.2
  have hfirst := hown.owner b hb
  have hsecond := hown.owner c hc
  rw [decide_eq_true_eq] at hone htwo
  omega

end Wirecat
